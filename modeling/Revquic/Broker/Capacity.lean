/-
# Capacity

`handleClient` compares an exit's `active` with its capacity in one `b.mu`
section and raises `active` in a later step, and `tryResume` does not look at
the capacity. In between, the exit is given away again: two clients that
connect at the same time both get the last place, and a session that is
resumed gets a place that is taken. An exit stays within its capacity if it
is only given to a client when it has room for all goroutines that have been
given it and have not counted their session yet, and for the new one.

Key definitions: `State.pendingOn`, `AdmitsWithRoom`, `Within`.
Key theorem: `capacity_of_admits_with_room`.
-/
import Revquic.Broker.Load
import Revquic.Broker.Rest

namespace Revquic
namespace Broker

open Lib Netip Ippool Proto

/-- The goroutine has been given an exit and has not counted its session
there. -/
def ClientPC.pends (pc : ClientPC) : Prop := pc.picks ∨ pc.uncounted = true

/-- Goroutine `d` has been given exit `r` and has not counted its session. -/
def State.pendingOn (b : State) (r d : Conn) : Prop :=
  (b.client d).pc.pends ∧ (b.client d).ex = r

/-- The exit has room for one more session, with the pending goroutines
counted too. -/
def State.room (b : State) (r : Conn) : Prop :=
  0 < (b.node r).capacity → ∀ l : List Conn, l.Nodup → (∀ d ∈ l, b.pendingOn r d) →
    (b.node r).active + l.length < (b.node r).capacity

/-- The exit that the client is given in this step, chosen or with the session
it resumes, has room for it. -/
def AdmitsWithRoom (cfg : Config) (b : State) : Action → Prop
  | .client c i => (b.client c).pc = .lock → ∀ x ∈ step cfg b (.client c i),
    (x.1.client c).pc.pends → b.room (x.1.client c).ex
  | _ => True

/-- The counted sessions and the pending goroutines are within the
capacity. -/
def Within (b : State) : Prop :=
  ∀ r ∈ b.regs, 0 < (b.node r).capacity → ∀ l : List Conn, l.Nodup → (∀ d ∈ l, b.pendingOn r d) →
    (b.node r).active + l.length ≤ (b.node r).capacity

section
variable {cfg : Config} {users : Userstore.Table} {b b' : State} {a : Action} {o : List Out}
  {tr : List (Event State Action Out)}

/-! ### Pending goroutines -/

/-- A pending goroutine holds a registered exit. -/
theorem pendingOn_regs (hinv : Inv b) {r d : Conn} (h : b.pendingOn r d) : r ∈ b.regs := by
  obtain ⟨hp | hp, rfl⟩ := h
  · obtain ⟨n, hn⟩ := hinv.attach.picked d hp
    exact hn.1
  · exact (hinv.attach.runs d (Or.inl (uncounted_holds hp))).2.1

/-- Only goroutine `c` moves, and it is not given an exit. -/
theorem pendingOn_update {c d r : Conn} {t' : ClientThread}
    (hc : b'.client = Function.update b.client c t')
    (ht : t'.pc.pends → (b.client c).pc.pends ∧ t'.ex = (b.client c).ex) (h : b'.pendingOn r d) :
    b.pendingOn r d := by
  unfold State.pendingOn at h ⊢
  rw [hc] at h
  by_cases hdc : d = c
  · subst hdc
    rw [Function.update_self] at h
    exact ⟨(ht h.1).1, (ht h.1).2 ▸ h.2⟩
  · rwa [Function.update_of_ne hdc] at h

/-- Only goroutine `c` moves, and it may have been given an exit. -/
theorem pendingOn_given {c d r ex : Conn} {t' : ClientThread}
    (hc : b'.client = Function.update b.client c t') (hex : t'.ex = ex) (h : b'.pendingOn r d) :
    b.pendingOn r d ∨ d = c ∧ r = ex := by
  by_cases hdc : d = c
  · refine Or.inr ⟨hdc, ?_⟩
    rw [State.pendingOn, hc, hdc, Function.update_self] at h
    rw [← h.2, hex]
  · rw [State.pendingOn, hc, Function.update_of_ne hdc] at h
    exact Or.inl h

theorem Walk.not_pends {t t' : ClientThread} (h : Walk t t') : ¬ t'.pc.pends := by
  rintro (hp | hp)
  · exact h.not_picks hp
  · rw [h.uncounted.2] at hp
    cases hp

theorem after_not_pends {pc : ClientPC} (h : pc.phase = .after) : ¬ pc.pends := by
  rintro (hp | hp)
  · exact not_picks_of_born (Or.inr h) hp
  · rw [uncounted_holds hp] at h; cases h

/-! ### Every move keeps the exits within their capacity -/

/-- Nobody is given exit `r`, and nobody is counted there. -/
theorem Within.frame (h : Within b) {r : Conn} (hr : r ∈ b.regs)
    (hcap : (b'.node r).capacity = (b.node r).capacity)
    (hact : (b'.node r).active ≤ (b.node r).active)
    (hp : ∀ d, b'.pendingOn r d → b.pendingOn r d) (h0 : 0 < (b'.node r).capacity) {l : List Conn}
    (hl : l.Nodup) (hpl : ∀ d ∈ l, b'.pendingOn r d) :
    (b'.node r).active + l.length ≤ (b'.node r).capacity := by
  rw [hcap] at h0 ⊢
  have := h r hr h0 l hl fun d hd => hp d (hpl d hd)
  omega

/-- Client `c` is given exit `ex`, which has room. -/
theorem Within.give (h : Within b) {c ex : Conn} (hroom : b.room ex) {r : Conn} (hr : r ∈ b.regs)
    (hcap : (b'.node r).capacity = (b.node r).capacity)
    (hact : (b'.node r).active = (b.node r).active)
    (hp : ∀ d, b'.pendingOn r d → b.pendingOn r d ∨ d = c ∧ r = ex)
    (h0 : 0 < (b'.node r).capacity) {l : List Conn} (hl : l.Nodup)
    (hpl : ∀ d ∈ l, b'.pendingOn r d) : (b'.node r).active + l.length ≤ (b'.node r).capacity := by
  rw [hcap] at h0 ⊢
  rw [hact]
  by_cases hrx : r = ex
  · subst hrx
    -- without the new client, the list was pending before
    have herase : ∀ d ∈ l.erase c, b.pendingOn r d := by
      intro d hd
      obtain ⟨hdc, hdl⟩ := (List.Nodup.mem_erase_iff hl).mp hd
      exact (hp d (hpl d hdl)).resolve_right fun hd' => hdc hd'.1
    have hlt := hroom h0 (l.erase c) (hl.erase c) herase
    have hlen : l.length ≤ (l.erase c).length + 1 := by
      rw [List.length_erase]
      split_ifs <;> omega
    omega
  · exact h r hr h0 l hl fun d hd => (hp d (hpl d hd)).resolve_right fun hd' => hrx hd'.2

/-- A session is counted at its exit; its goroutine is not pending any more. -/
theorem Within.count (h : Within b) {c : Conn} {pc' : ClientPC}
    (hpc : (b.client c).pc.uncounted = true) (hnp : ¬ pc'.pends) {r : Conn} (hr : r ∈ b.regs)
    (hcap : (b'.node r).capacity = (b.node r).capacity)
    (hb' : b' = (b.goto c pc').addActive (b.client c).ex 1) (h0 : 0 < (b'.node r).capacity)
    {l : List Conn} (hl : l.Nodup) (hpl : ∀ d ∈ l, b'.pendingOn r d) :
    (b'.node r).active + l.length ≤ (b'.node r).capacity := by
  have hcl : b'.client = Function.update b.client c { b.client c with pc := pc' } := by rw [hb']; rfl
  have hc : c ∉ l := by
    intro hc
    have := (hpl c hc).1
    rw [hcl, Function.update_self] at this
    exact hnp this
  have hold : ∀ d ∈ l, b.pendingOn r d := fun d hd =>
    pendingOn_update hcl (fun hp => absurd hp hnp) (hpl d hd)
  have hact : (b'.node r).active = (b.node r).active + if r = (b.client c).ex then 1 else 0 := by
    rw [hb', addActive_active]
    rfl
  rw [hcap] at h0 ⊢
  rw [hact]
  by_cases hre : r = (b.client c).ex
  · have := h r hr h0 (c :: l) (List.nodup_cons.mpr ⟨hc, hl⟩) (by
      intro d hd
      rcases List.mem_cons.mp hd with rfl | hd
      · exact ⟨Or.inr hpc, hre.symm⟩
      · exact hold d hd)
    rw [List.length_cons] at this
    rw [if_pos hre]
    push_cast at this
    omega
  · have := h r hr h0 l hl hold
    rw [if_neg hre]
    omega

theorem addActive_neg_le (ex r : Conn) :
    ((b.addActive ex (-1)).node r).active ≤ (b.node r).active := by
  rw [addActive_active]
  split_ifs <;> omega

/-- A move keeps an exit that was registered within its capacity. -/
theorem Within.move (h : Within b) (hinv : Inv b) (hs : step cfg b a = some (b', o))
    (hC : AdmitsWithRoom cfg b a) {r : Conn} (hr : r ∈ b.regs)
    (hcap : (b'.node r).capacity = (b.node r).capacity) (h0 : 0 < (b'.node r).capacity)
    {l : List Conn} (hl : l.Nodup) (hpl : ∀ d ∈ l, b'.pendingOn r d) :
    (b'.node r).active + l.length ≤ (b'.node r).capacity := by
  cases step_move hs with
  | env core client node =>
    refine h.frame hr hcap (by rw [node]) (fun d hd => ?_) h0 hl hpl
    rwa [State.pendingOn, client] at hd
  | connect c msg =>
    refine h.frame hr hcap le_rfl (fun d => pendingOn_update rfl ?_) h0 hl hpl
    simp [ClientPC.pends, ClientPC.picks, ClientPC.numbers, ClientPC.phase, ClientPC.uncounted]
  | register c msg hu =>
    have hrc : r ≠ c := fun he => hinv.reg.served r hr (he ▸ hu.2)
    refine h.frame hr hcap (by rw [handleExit_node_of_ne hrc]) (fun d hd => ?_) h0 hl hpl
    rwa [State.pendingOn, handleExit_client] at hd
  | walk c t' core client node _ hw =>
    exact h.frame hr hcap (by rw [node])
      (fun d => pendingOn_update client fun hp => absurd hp hw.not_pends) h0 hl hpl
  | choose c i ex rr hpc hch =>
    have hroom := hC hpc _ hs
    simp only [State.setClient_client, Function.update_self] at hroom
    exact h.give (hroom (Or.inl (Or.inl rfl))) hr hcap rfl (fun d => pendingOn_given rfl rfl) h0 hl hpl
  | draw c i hpc =>
    exact h.frame hr hcap le_rfl
      (fun d => pendingOn_update rfl fun _ => ⟨Or.inl (Or.inl hpc), rfl⟩) h0 hl hpl
  | alloc c i addr pool hpc =>
    refine h.frame hr hcap le_rfl (fun d => pendingOn_update rfl fun _ => ⟨?_, rfl⟩) h0 hl hpl
    exact Or.inl (Or.inr (Or.inl (by rw [hpc]; rfl)))
  | insert c i hpc =>
    refine h.frame hr hcap le_rfl (fun d => pendingOn_update rfl fun _ => ⟨?_, rfl⟩) h0 hl hpl
    exact Or.inl (Or.inr (Or.inr (by rw [hpc]; rfl)))
  | count c i hpc pc' hph hun =>
    refine h.count hpc ?_ hr hcap rfl h0 hl hpl
    rintro (hp | hp)
    · exact not_picks_of_born (Or.inl hph) hp
    · rw [hun] at hp; cases hp
  | resume c i p ex hpc =>
    have hroom := hC hpc _ hs
    simp only [resumeState_client, Function.update_self] at hroom
    exact h.give (hroom (Or.inr rfl)) hr hcap rfl (fun d => pendingOn_given rfl rfl) h0 hl hpl
  | park c i q =>
    exact h.frame hr hcap (addActive_neg_le _ _)
      (fun d => pendingOn_update rfl fun hp => absurd hp (after_not_pends rfl)) h0 hl hpl
  | close c i q pc' hpc =>
    refine h.frame hr hcap (addActive_neg_le _ _)
      (fun d => pendingOn_update rfl fun hp => absurd hp (after_not_pends ?_)) h0 hl hpl
    rcases hpc with ⟨-, rfl⟩ | ⟨-, rfl⟩ <;> rfl
  | vanish c i =>
    exact h.frame hr hcap le_rfl
      (fun d => pendingOn_update rfl fun hp => absurd hp (after_not_pends rfl)) h0 hl hpl
  | expire => exact h.frame hr hcap le_rfl (fun _ hd => hd) h0 hl hpl

/-- A new registration has no sessions and nobody waits for it. -/
theorem Within.new (hinv : Inv b) (hm : RegMove cfg b a b' o) {r : Conn} (hr : r ∈ b'.regs)
    (hnew : r ∉ b.regs) (h0 : 0 < (b'.node r).capacity) {l : List Conn}
    (hpl : ∀ d ∈ l, b'.pendingOn r d) :
    (b'.node r).active + l.length ≤ (b'.node r).capacity := by
  rcases hm.regs with ⟨hregs, -⟩ | ⟨c, msg, rfl, hu, ht⟩
  · rw [hregs] at hr
    exact absurd hr hnew
  · have hrc : r = c := by
      rw [(handleExit_register ht).1] at hr
      exact (List.mem_cons.mp hr).resolve_right hnew
    have hl : l = [] := by
      refine List.eq_nil_iff_forall_not_mem.mpr fun d hd => hnew (pendingOn_regs hinv (d := d) ?_)
      have := hpl d hd
      rwa [State.pendingOn, handleExit_client] at this
    have hact : ((handleExit cfg b c msg).node r).active = 0 := by
      rw [hrc]
      exact handleExit_active ht
    rw [hact, hl]
    simpa using h0.le

theorem Within.step (h : Within b) (hinv : Inv b) (hs : step cfg b a = some (b', o))
    (hC : AdmitsWithRoom cfg b a) : Within b' := by
  intro r hr h0 l hl hpl
  by_cases hold : r ∈ b.regs
  · have hcap : (b'.node r).capacity = (b.node r).capacity := by
      rw [(hinv.reg.keep (step_regMove hs) hold).2]
    exact h.move hinv hs hC hold hcap h0 hl hpl
  · exact Within.new hinv (step_regMove hs) hr hold h0 hpl

theorem Within.of_run (h : (machine cfg users).Run tr b)
    (hC : ∀ e ∈ tr, AdmitsWithRoom cfg e.pre e.act) : Within b := by
  refine (Machine.Run.invariant_of (I := fun b => Inv b ∧ Within b)
    (C := fun e => AdmitsWithRoom cfg e.pre e.act) ⟨Inv.init users, ?_⟩ ?_ h hC).2
  · intro r hr
    cases hr
  · intro s a s' o ⟨hi, hw⟩ hs hroom
    exact ⟨hi.step hs, hw.step hi hs hroom⟩

/-! ### The sessions of an exit -/

/-- The goroutines that have not counted their session at `r`. -/
def State.uncountedOn (b : State) (r : Conn) : List Conn :=
  (b.sessions.entries.filter fun e => decide ((b.sess e.2).exitConn = r) &&
    (b.client (b.sess e.2).clientConn).pc.uncounted).map fun e => (b.sess e.2).clientConn

theorem uncountedOn_pending (hinv : Inv b) {r d : Conn} (hd : d ∈ b.uncountedOn r) :
    b.pendingOn r d := by
  simp only [State.uncountedOn, List.mem_map, List.mem_filter, Bool.and_eq_true,
    decide_eq_true_eq] at hd
  obtain ⟨⟨i, p⟩, ⟨he, hx, hun⟩, rfl⟩ := hd
  obtain ⟨hph, hs⟩ := hinv.rep.holder i p (GoMap.mem_entries.mp he)
  refine ⟨Or.inr hun, ?_⟩
  rw [hinv.attach.held _ hph, hs]
  exact hx

theorem uncountedOn_nodup (hrep : Rep b) (r : Conn) : (b.uncountedOn r).Nodup := by
  refine List.Nodup.map_on ?_ (b.sessions.nodupKeys.nodup.filter _)
  rintro ⟨i, p⟩ hp ⟨j, q⟩ hq he
  have hip := GoMap.mem_entries.mp (List.mem_of_mem_filter hp)
  have hjq := GoMap.mem_entries.mp (List.mem_of_mem_filter hq)
  obtain rfl : p = q := by
    rw [← (hrep.holder i p hip).2, ← (hrep.holder j q hjq).2]
    exact congrArg (fun c => (b.client c).s) he
  rw [← hrep.id_eq i p hip, ← hrep.id_eq j p hjq]

/-- A session is counted, or its goroutine is pending. -/
theorem sessionsOn_eq (r : Conn) : b.sessionsOn r = b.load r + (b.uncountedOn r).length := by
  unfold State.sessionsOn State.load State.uncountedOn
  rw [List.length_map, ← List.countP_eq_length_filter]
  unfold GoMap.count
  rw [List.countP_eq_countP_filter_add _ _ fun e => b.counted r e.1 e.2]
  simp only [List.countP_filter]
  congr 1 <;> refine List.countP_congr fun e _ => ?_ <;> simp [State.counted]
  tauto

/-- **An exit is within its capacity in every run whose admissions find
room.** -/
theorem capacity_of_admits_with_room (h : (machine cfg users).Run tr b)
    (hC : ∀ e ∈ tr, AdmitsWithRoom cfg e.pre e.act) {r : Conn} (hr : r ∈ b.regs)
    (hcap : 0 < (b.node r).capacity) : (b.sessionsOn r : ℤ) ≤ (b.node r).capacity := by
  have hinv := Inv.of_run h
  have := Within.of_run h hC r hr hcap _ (uncountedOn_nodup hinv.rep r)
    fun d => uncountedOn_pending hinv
  rw [Load.of_run h r] at this
  rw [sessionsOn_eq]
  push_cast
  exact this

/-! ### The first connections -/

instance : DecidablePred ClientPC.pends := fun pc =>
  decidable_of_iff (pc = .chosen ∨ (pc.phase = .numbered ∨ pc.phase = .allocated) ∨
    pc.uncounted = true) or_assoc.symm

instance (b : State) (r : Conn) : DecidablePred (b.pendingOn r) := fun _ =>
  inferInstanceAs (Decidable (_ ∧ _))

/-- `AdmitsWithRoom`, as far as the first `N` connections go. -/
def AdmitsUpTo (cfg : Config) (N : ℕ) (b : State) : Action → Prop
  | .client c i => (b.client c).pc = .lock → ∀ x ∈ step cfg b (.client c i),
    (x.1.client c).pc.pends → 0 < (b.node (x.1.client c).ex).capacity →
      (b.node (x.1.client c).ex).active +
        ((List.range N).filter (b.pendingOn (x.1.client c).ex)).length <
          (b.node (x.1.client c).ex).capacity
  | _ => True

instance (cfg : Config) (N : ℕ) (b : State) : DecidablePred (AdmitsUpTo cfg N b)
  | .client _ _ => inferInstanceAs (Decidable (_ → ∀ _ ∈ _, _))
  | .tick _ | .users _ | .connect _ _ | .drop _ _ | .clientCtrl _ _ _ | .register _ _ | .exit _ _
  | .exitCtrl _ _ _ | .exitGone _ | .datagram _ _ | .fire _ | .timer _ _ => isTrue trivial

theorem admitsWithRoom_of_upTo {N : ℕ} (h : (machine cfg users).Run tr b)
    (hfew : ∀ e ∈ tr, Few N e.act) (hC : ∀ e ∈ tr, AdmitsUpTo cfg N e.pre e.act) :
    ∀ e ∈ tr, AdmitsWithRoom cfg e.pre e.act := by
  intro e he
  obtain ⟨tr₁, tr₂, rfl, hr, -⟩ := h.of_mem he
  have hup := hC e he
  cases hact : e.act with
  | client c i =>
    rw [hact] at hup
    intro hpc x hx hp hcap l hl hpl
    have hsub : l ⊆ (List.range N).filter (e.pre.pendingOn (x.1.client c).ex) := by
      intro d hd
      refine List.mem_filter.mpr ⟨List.mem_range.mpr ?_, decide_eq_true (hpl d hd)⟩
      by_contra hN
      have hidle := unused_of_few hr (fun e' he' => hfew e' (List.mem_append_left _ he'))
        (Nat.le_of_not_lt hN)
      have hpend := (hpl d hd).1
      rw [hidle.1] at hpend
      exact absurd hpend (by decide)
    have hlen := (List.subperm_of_subset hl hsub).length_le
    have := hup hpc x hx hp hcap
    omega
  | _ => trivial

/-- Of two places, one is taken by a session that is resumed while a new client
that has been given the exit is still to be counted. -/
theorem capacity_resumed : ∃ tr b, (machine {} aliceStore).Run tr b ∧
    (b.node 0).capacity = 2 ∧ b.sessionsOn 0 = 2 ∧ (b.sessionsOn 0 : ℤ) ≤ (b.node 0).capacity := by
  obtain ⟨tr, b, hr, hreg, hcap, hon, hfew, hC⟩ := (machine {} aliceStore).exists_run
    (.register 0 (node "e1" "us" 2) :: joins 1 (aliceConnect "us" "k") ++
      [.drop 1 .other, .client 1 {}, .client 1 {}, .connect 2 (aliceConnect "us" ""), .client 2 {},
        .client 2 {}] ++ rejoins 3 (aliceConnect "us" "k") ++ List.replicate 8 (.client 2 {}))
    (P := fun r => 0 ∈ r.2.regs ∧ (r.2.node 0).capacity = 2 ∧ r.2.sessionsOn 0 = 2 ∧
      (∀ e ∈ r.1, Few 4 e.act) ∧ ∀ e ∈ r.1, AdmitsUpTo {} 4 e.pre e.act)
    (by decide +kernel)
  exact ⟨tr, b, hr, hcap, hon, capacity_of_admits_with_room hr (admitsWithRoom_of_upTo hr hfew hC) hreg
    (by rw [hcap]; decide)⟩

/-- Two clients choose the exit of capacity 1 before either is counted. -/
theorem capacity_exceeded : ∃ tr b, (machine {} aliceStore).Run tr b ∧
    0 ∈ b.regs ∧ (b.node 0).capacity = 1 ∧ b.sessionsOn 0 = 2 :=
  (machine {} aliceStore).exists_run_of_exec
    (.register 0 (node "e1" "us" 1) :: .connect 1 (aliceConnect "us" "") ::
      .connect 2 (aliceConnect "us" "") :: .client 1 {} :: .client 1 {} ::
      (List.replicate 5 (.client 2 {}) ++ List.replicate 3 (.client 1 {}))) (by decide +kernel)

end
end Broker
end Revquic
