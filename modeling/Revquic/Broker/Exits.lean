/-
# Stale registrations

When the control loop of a registration ends, `handleExit` deletes the node
id from `b.exits`, calls `NodeDown` and lets `failExit` disconnect the
sessions. All three go by the node id: a newer registration of the same id
loses its entry, its place in the tracker and its clients. That is the normal
case of an exit that reconnects before the broker has noticed that its old
connection is dead. A clean-up does no harm when it has the node id to
itself.

Key definitions: `Undamaged`, `Alone`, `Listed`, `Sound`.
Key theorem: `stale_exit_harmless`.
-/
import Revquic.Broker.Registry
import Revquic.Broker.Rep
import Mathlib.Data.List.Find

namespace Revquic
namespace Broker

open Lib Netip Ippool Proto

/-- The most recent registration of a node id whose control loop has not
ended. -/
def State.current (b : State) (n : String) : Option Conn :=
  b.regs.find? fun c => decide ((b.node c).nodeID = n) && (b.exitT c).pc.live

/-- The registry serves the newest registrations: where no clean-up is about
to delete the entry, the current registration is the one in `b.exits`, and
the tracker lists every node that is up. -/
structure Undamaged (b : State) : Prop where
  exits : ∀ n r, (∀ c ∈ b.regs, (b.node c).nodeID = n → (b.exitT c).pc ≠ .gone) →
    b.current n = some r → b.exits.lookup n = some r
  listed : ∀ r ∈ b.regs, (b.exitT r).pc.up = true → (b.node r).nodeID ∈ b.qos.exits

/-- A connection is closed by `failExit` only, and is that of a session
attached to the registration that is gone. -/
def ClosesOwn (e : Event State Action Out) : Prop :=
  ∀ c, Out.close c ∈ e.out → ∃ r ok p, e.act = .exit r ok ∧ p ∈ (e.pre.exitT r).affected ∧
    (e.pre.sess p).clientConn = c ∧ (e.pre.sess p).exitConn = r

/-- The clean-up has its node id to itself. -/
def Alone (cfg : Config) (b : State) : Action → Prop
  | .exit r _ =>
    ((b.exitT r).pc = .gone → ∀ c ∈ b.regs, c ≠ r → (b.node c).nodeID = (b.node r).nodeID →
      (b.exitT c).pc.live = false) ∧
    ((b.exitT r).pc = .nodeDown → ∀ c ∈ b.regs, (b.node c).nodeID = (b.node r).nodeID →
      (b.exitT c).pc.up = false) ∧
    ((b.exitT r).pc = .scan → ∀ e ∈ b.sessions.entries,
      (b.sess e.2).nodeID = (b.node r).nodeID → (b.sess e.2).exitConn = r)
  | .client c _ => ∀ p ∈ b.parked.lookup (b.client c).msg.resumeKey, b.resumes cfg c p →
      ∀ r ∈ b.regs, p ∉ (b.exitT r).affected
  | _ => True

instance (cfg : Config) (b : State) : DecidablePred (Alone cfg b)
  | .exit _ _ => inferInstanceAs (Decidable (_ ∧ _ ∧ _))
  | .client _ _ => inferInstanceAs (Decidable (∀ _ ∈ _, _))
  | .tick _ | .users _ | .connect _ _ | .drop _ _ | .clientCtrl _ _ _ | .register _ _
  | .exitCtrl _ _ _ | .exitGone _ | .datagram _ _ | .fire _ | .timer _ _ => isTrue trivial

section
variable {cfg : Config} {users : Userstore.Table} {b b' : State} {a : Action} {o : List Out}
  {tr : List (Event State Action Out)}

/-! ### The entry in `b.exits` -/

theorem current_congr {n : String} (hregs : b'.regs = b.regs)
    (hnode : ∀ c, (b'.node c).nodeID = (b.node c).nodeID)
    (hlive : ∀ c ∈ b.regs, (b.node c).nodeID = n → (b'.exitT c).pc.live = (b.exitT c).pc.live) :
    b'.current n = b.current n := by
  unfold State.current
  rw [hregs]
  refine List.find?_congr fun c hc => ?_
  rw [hnode]
  by_cases hn : (b.node c).nodeID = n
  · rw [hlive c hc hn]
  · simp [hn]

/-- The current registration is the one in `b.exits`. -/
def Serves (b : State) (n : String) : Prop :=
  ∀ r, (∀ c ∈ b.regs, (b.node c).nodeID = n → (b.exitT c).pc ≠ .gone) →
    b.current n = some r → b.exits.lookup n = some r

/-- The entry of the node id and the goroutines of its registrations are as
before. -/
theorem serves_congr {n : String} (h : Serves b n)
    (hexits : b'.exits.lookup n = b.exits.lookup n) (hregs : b'.regs = b.regs)
    (hnode : ∀ c, (b'.node c).nodeID = (b.node c).nodeID)
    (hgone : ∀ c, (b.node c).nodeID = n → (b'.exitT c).pc ≠ .gone → (b.exitT c).pc ≠ .gone)
    (hlive : ∀ c, (b.node c).nodeID = n → (b'.exitT c).pc.live = (b.exitT c).pc.live) :
    Serves b' n := by
  intro r hguard hcur
  rw [hexits]
  refine h r ?_ ?_
  · intro c hc hn
    exact hgone c hn (hguard c (hregs ▸ hc) ((hnode c).trans hn))
  · rw [← hcur]
    exact (current_congr hregs hnode fun c _ hn => hlive c hn).symm

/-- Only goroutine `c` moves, and it neither was about to delete the entry
nor ends its control loop. -/
theorem serves_update {c : Conn} {t' : ExitThread} {n : String} (h : Serves b n)
    (hexits : b'.exits = b.exits) (hregs : b'.regs = b.regs) (hnode : b'.node = b.node)
    (hT : b'.exitT = Function.update b.exitT c t') (hgone : (b.exitT c).pc ≠ .gone)
    (hlive : t'.pc.live = (b.exitT c).pc.live) : Serves b' n := by
  refine serves_congr h (by rw [hexits]) hregs (fun d => by rw [hnode]) (fun d _ hd => ?_) fun d _ => ?_
  · by_cases hdc : d = c
    · rwa [hdc]
    · rwa [hT, Function.update_of_ne hdc] at hd
  · rw [hT]
    by_cases hdc : d = c
    · rw [hdc, Function.update_self, hlive]
    · rw [Function.update_of_ne hdc]

/-- Only goroutine `c` moves, a registration of another node id. -/
theorem serves_other {c : Conn} {t' : ExitThread} {n : String} (h : Serves b n)
    (hexits : b'.exits.lookup n = b.exits.lookup n) (hregs : b'.regs = b.regs)
    (hnode : b'.node = b.node) (hT : b'.exitT = Function.update b.exitT c t')
    (hc : (b.node c).nodeID ≠ n) : Serves b' n := by
  have hsame : ∀ d, (b.node d).nodeID = n → b'.exitT d = b.exitT d := by
    intro d hd
    rw [hT, Function.update_of_ne]
    rintro rfl
    exact hc hd
  exact serves_congr h hexits hregs (fun d => by rw [hnode]) (fun d hd => by rw [hsame d hd]; exact id)
    fun d hd => by rw [hsame d hd]

/-- Goroutine `c` deletes the entry, and no other registration of the node id
is live: none is current. -/
theorem serves_delete {c : Conn} {n : String} (hc : (b.node c).nodeID = n)
    (halone : ∀ d ∈ b.regs, d ≠ c → (b.node d).nodeID = (b.node c).nodeID →
      (b.exitT d).pc.live = false) :
    Serves { (b.gotoExit c .nodeDown) with exits := b.exits.erase (b.node c).nodeID } n := by
  intro r _ hcur
  exfalso
  have hmem := List.mem_of_find?_eq_some hcur
  have hr := List.find?_some hcur
  simp only [Bool.and_eq_true, decide_eq_true_eq] at hr
  obtain ⟨hid, hlive⟩ := hr
  by_cases hrc : r = c
  · subst hrc
    rw [gotoExit_pc] at hlive
    cases hlive
  · have hdead := halone r hmem hrc (hid.trans hc.symm)
    change ((b.setExit c _).exitT r).pc.live = true at hlive
    rw [setExit_exitT_of_ne hrc, hdead] at hlive
    cases hlive

theorem serves_register {c : Conn} {msg : Register} {n : String} (hreg : Reg b) (h : Serves b n)
    (hu : b.unused c) (ht : msg.token = cfg.nodeSecret) : Serves (handleExit cfg b c msg) n := by
  obtain ⟨hregs, hexits, hpc, hid, hnode⟩ := handleExit_register (b := b) (c := c) ht
  have hc : c ∉ b.regs := fun hc => hreg.served c hc hu.2
  intro r hguard hcur
  rw [hexits, GoMap.lookup_set]
  unfold State.current at hcur
  rw [hregs, List.find?_cons, hid, hpc] at hcur
  by_cases hn : n = msg.nodeID
  · -- the new registration is the current one
    rw [if_pos hn]
    simpa [hn, ExitPC.live] using hcur
  · rw [if_neg hn]
    simp only [Ne.symm hn, decide_false, Bool.false_and] at hcur
    refine h r ?_ ?_
    · intro d hd hdn
      have hdc : d ≠ c := fun he => hc (he ▸ hd)
      have := hguard d (by rw [hregs]; exact List.mem_cons_of_mem _ hd) (by rw [hnode d hdc, hdn])
      rwa [handleExit_exitT_of_ne hdc] at this
    · rw [← hcur]
      refine List.find?_congr fun d hd => ?_
      have hdc : d ≠ c := fun he => hc (he ▸ hd)
      rw [hnode d hdc, handleExit_exitT_of_ne hdc]

theorem serves_step {n : String} (hreg : Reg b) (h : Serves b n) (hm : RegMove cfg b a b' o)
    (halone : Alone cfg b a) : Serves b' n := by
  cases hm with
  | same reg =>
    exact serves_congr h (by rw [reg.exits]) reg.regs (fun c => by rw [reg.info])
      (fun c _ => by rw [reg.exitT]; exact id) fun c _ => by rw [reg.exitT]
  | refuse c msg hu ht =>
    rw [handleExit_refuse ht]
    exact serves_update h rfl rfl rfl rfl (by simp [hu.2]) (by simp [hu.2, ExitPC.live])
  | register c msg hu ht => exact serves_register hreg h hu ht
  | walk c t' hw _ exits regs node exitT =>
    by_cases hgone : t'.pc = .gone
    · have hloop : (b.exitT c).pc = .loop := by
        rw [hgone] at hw
        cases hpc : (b.exitT c).pc <;> simp_all [ExitPC.walks]
      by_cases hn : (b.node c).nodeID = n
      · -- the control loop ends: the entry is about to be deleted
        intro r hguard
        have hcr : c ∈ b.regs := hreg.known c (by rw [hloop]; rfl)
        refine absurd ?_ (hguard c (by rw [regs]; exact hcr) (by rw [node]; exact hn))
        rw [exitT, Function.update_self, hgone]
      · exact serves_other h (by rw [exits]) regs node exitT hn
    · refine serves_update h exits regs node exitT ?_ ?_
      · intro he
        rw [he] at hw
        cases hpc : t'.pc <;> simp_all [ExitPC.walks]
      · cases h1 : (b.exitT c).pc <;> cases h2 : t'.pc <;> simp_all [ExitPC.walks, ExitPC.live]
  | up c ok hpc | down c ok hpc =>
    exact serves_update h rfl rfl rfl rfl (by simp [hpc]) (by simp [hpc, ExitPC.live])
  | delete c ok hpc =>
    by_cases hn : (b.node c).nodeID = n
    · exact serves_delete hn (halone.1 hpc)
    · exact serves_other h (by rw [GoMap.lookup_delete, if_neg (Ne.symm hn)]) rfl rfl rfl hn
  | scan c ok hpc | close c ok p rest hpc =>
    refine serves_update h rfl rfl rfl rfl (by simp [hpc]) ?_
    simp only [hpc]
    split <;> rfl

/-! ### The tracker -/

/-- The tracker lists the nodes that are up. -/
def Listed (b : State) : Prop :=
  ∀ r ∈ b.regs, (b.exitT r).pc.up = true → (b.node r).nodeID ∈ b.qos.exits

theorem listed_update {c : Conn} {t' : ExitThread} (h : Listed b) (hregs : b'.regs = b.regs)
    (hnode : b'.node = b.node) (hT : b'.exitT = Function.update b.exitT c t')
    (hup : t'.pc.up = true → (b.exitT c).pc.up = true) (hqos : b'.qos = b.qos) : Listed b' := by
  intro r hr hru
  rw [hnode, hqos]
  refine h r (hregs ▸ hr) ?_
  rw [hT] at hru
  by_cases hrc : r = c
  · subst hrc
    rw [Function.update_self] at hru
    exact hup hru
  · rwa [Function.update_of_ne hrc] at hru

theorem listed_step (h : Listed b) (hm : RegMove cfg b a b' o)
    (halone : Alone cfg b a) : Listed b' := by
  cases hm with
  | same reg =>
    intro r hr hru
    rw [reg.info, reg.listed]
    exact h r (reg.regs ▸ hr) (reg.exitT ▸ hru)
  | refuse c msg hu ht =>
    rw [handleExit_refuse ht]
    exact listed_update h rfl rfl rfl (by simp [ExitPC.up]) rfl
  | register c msg hu ht =>
    obtain ⟨hregs, -, hpc, -, hnode⟩ := handleExit_register (b := b) (c := c) ht
    have hqos : (handleExit cfg b c msg).qos = b.qos := by
      unfold handleExit
      split <;> rfl
    intro r hr hru
    by_cases hrc : r = c
    · subst hrc
      rw [hpc] at hru
      cases hru
    · rw [hregs] at hr
      rw [handleExit_exitT_of_ne hrc] at hru
      rw [hnode r hrc, hqos]
      exact h r ((List.mem_cons.mp hr).resolve_left hrc) hru
  | walk c t' hw _ _ regs node exitT qos =>
    refine listed_update h regs node exitT ?_ qos
    intro hu
    cases h1 : (b.exitT c).pc <;> cases h2 : t'.pc <;> simp_all [ExitPC.walks, ExitPC.up]
  | up c ok hpc =>
    intro r hr hru
    refine Qos.Tracker.mem_nodeUp.mpr ?_
    by_cases hrc : r = c
    · exact Or.inl (by rw [hrc]; rfl)
    · refine Or.inr (h r hr ?_)
      change (Function.update b.exitT c _ r).pc.up = true at hru
      rwa [Function.update_of_ne hrc] at hru
  | delete c ok hpc => exact listed_update h rfl rfl rfl (by simp [ExitPC.up]) rfl
  | down c ok hpc =>
    intro r hr hru
    have hrc : r ≠ c := by
      rintro rfl
      simp [ExitPC.up] at hru
    change (Function.update b.exitT c _ r).pc.up = true at hru
    rw [Function.update_of_ne hrc] at hru
    refine Qos.Tracker.mem_nodeDown.mpr ⟨?_, h r hr hru⟩
    intro hn
    have := halone.2.1 hpc r hr hn
    rw [this] at hru
    cases hru
  | scan c ok hpc | close c ok p rest hpc =>
    refine listed_update h rfl rfl rfl ?_ rfl
    simp only
    split <;> simp [ExitPC.up]

/-! ### The sessions `failExit` closes -/

/-- What `failExit` still has to close is attached to its registration. -/
def ClosingOwn (b : State) : Prop :=
  ∀ r p, p ∈ (b.exitT r).affected →
    r ∈ b.regs ∧ (b.client p).pc.born ∧ (b.sess p).exitConn = r

theorem closingOwn_step (hreg : Reg b) (hrep : Rep b) (h : ClosingOwn b)
    (hs : step cfg b a = some (b', o)) (halone : Alone cfg b a) : ClosingOwn b' := by
  have hm := step_move hs
  have hr := step_regMove hs
  intro r p hp
  rcases hr.affected hp with hp | ⟨ok, t', rfl, hpc, hscan, rfl⟩
  · obtain ⟨h1, h2, h3⟩ := h r p hp
    have hexit : (b'.sess p).exitConn = (b.sess p).exitConn := by
      rcases hm.exitConn h2 with hexit | ⟨c, i, rfl, hres⟩
      · exact hexit
      · exact absurd hp (halone p hres.2.2.1.1 hres r h1)
    refine ⟨?_, hm.born h2, hexit.trans h3⟩
    rcases hr.regs with ⟨hregs, -⟩ | ⟨c', msg, rfl, -, ht⟩
    · rwa [hregs]
    · rw [(handleExit_register ht).1]
      exact List.mem_cons_of_mem _ h1
  · -- the scan finds the sessions of the node id, which are all its own
    simp only [affectedBy, List.mem_filter, List.mem_map, decide_eq_true_eq] at hscan
    obtain ⟨⟨e, he, rfl⟩, hn⟩ := hscan
    have hlive : b.Live e.2 := live_of_sessions (GoMap.mem_entries.mp he)
    exact ⟨hreg.known r (by rw [hpc]; rfl), hrep.born e.2 (hrep.made e.2 hlive), halone.2.2 hpc e he hn⟩

theorem closesOwn_of_step (h : ClosingOwn b) (hs : step cfg b a = some (b', o)) :
    ClosesOwn ⟨b, a, o, b'⟩ := by
  intro c hc
  change Out.close c ∈ o at hc
  cases step_regMove hs with
  | same reg quiet | walk _ _ _ _ _ _ _ _ _ quiet => exact absurd hc (quiet c)
  | close r ok p rest hpc haff =>
    obtain rfl := by simpa using hc
    have hp : p ∈ (b.exitT r).affected := by rw [haff]; exact List.mem_cons_self
    exact ⟨r, ok, p, rfl, hp, rfl, (h r p hp).2.2⟩
  | _ => cases hc

/-! ### Runs -/

/-- What the clean-ups keep. -/
structure Sound (b : State) : Prop where
  rep : Rep b
  reg : Reg b
  serves : ∀ n, Serves b n
  listed : Listed b
  closing : ClosingOwn b

theorem sound_of_run (h : (machine cfg users).Run tr b) (hC : ∀ e ∈ tr, Alone cfg e.pre e.act) :
    Sound b := by
  refine Machine.Run.invariant_of (I := Sound) (C := fun e => Alone cfg e.pre e.act) ?_ ?_ h hC
  · refine ⟨Rep.init users, Reg.init users, ?_, ?_, ?_⟩
    · intro n r _ hcur; cases hcur
    · intro r hr; cases hr
    · intro r p hp; cases hp
  · intro s a s' o hI hs halone
    have hm := step_regMove hs
    exact ⟨hI.rep.move (step_move hs), hI.reg.step hs,
      fun n => serves_step hI.reg (hI.serves n) hm halone, listed_step hI.listed hm halone,
      closingOwn_step hI.reg hI.rep hI.closing hs halone⟩

theorem Sound.undamaged (h : Sound b) : Undamaged b :=
  ⟨fun n r => h.serves n r, h.listed⟩

/-- **A stale registration does no damage while each clean-up has its node id
to itself.** -/
theorem stale_exit_harmless (h : (machine cfg users).Run tr b)
    (hC : ∀ e ∈ tr, Alone cfg e.pre e.act) : ∀ e ∈ tr, Undamaged e.post ∧ ClosesOwn e := by
  intro e he
  obtain ⟨tr₁, tr₂, rfl, hr, hs⟩ := h.of_mem he
  have hC₁ : ∀ e' ∈ tr₁, Alone cfg e'.pre e'.act := fun e' he' => hC e' (List.mem_append_left _ he')
  refine ⟨(sound_of_run (hr.snoc hs) ?_).undamaged, closesOwn_of_step (sound_of_run hr hC₁).closing hs⟩
  intro e' he'
  simp only [List.mem_append, List.mem_singleton] at he'
  rcases he' with he' | rfl
  · exact hC₁ e' he'
  · exact hC e he

/-- An exit is lost and registers again during the clean-up of its first
registration, which closes its client. -/
theorem stale_exit_harmless_reconnect : ∃ tr b, (machine {} aliceStore).Run tr b ∧
    (b.exitT 0).pc = .done ∧ b.current "e1" = some 5 ∧ b.exits.lookup "e1" = some 5 ∧
    (∃ e ∈ tr, Out.close 1 ∈ e.out) ∧ ∀ e ∈ tr, Undamaged e.post ∧ ClosesOwn e := by
  obtain ⟨tr, b, hr, h1, h2, h3, h4, hC⟩ := (machine {} aliceStore).exists_run
    (registers 0 (node "e1" "us" 0) ++
      joins 1 (aliceConnect "us" "k") ++ .exitGone 0 :: List.replicate 3 (.exit 0 true) ++
      registers 5 (node "e1" "us" 0) ++
      List.replicate 3 (.exit 0 true))
    (P := fun r => (r.2.exitT 0).pc = .done ∧ r.2.current "e1" = some 5 ∧
      r.2.exits.lookup "e1" = some 5 ∧ (∃ e ∈ r.1, Out.close 1 ∈ e.out) ∧
      ∀ e ∈ r.1, Alone {} e.pre e.act)
    (by decide +kernel)
  exact ⟨tr, b, hr, h1, h2, h3, h4, stale_exit_harmless hr hC⟩

/-- An exit registers again before its old connection is noticed to be dead,
and a client connects to the new registration. The clean-up of the old one
leaves the node unregistered and unlisted, and closes that client. -/
theorem stale_exit_damages : ∃ tr b, (machine {} aliceStore).Run tr b ∧
    (b.exitT 0).pc = .done ∧ b.current "e1" = some 5 ∧ (b.exitT 5).pc = .loop ∧
    b.exits.lookup "e1" = none ∧ "e1" ∉ b.qos.exits ∧ ¬ Undamaged b ∧
    ∃ e ∈ tr, (e.pre.exitT 0).pc = .close ∧ Out.close 1 ∈ e.out ∧ e.pre.sessions.lookup 1 = some 1 ∧
      (e.pre.sess 1).exitConn = 5 := by
  obtain ⟨tr, b, hr, h1, h2, h3, h4, h5, h6, h7⟩ := (machine {} aliceStore).exists_run
    (registers 0 (node "e1" "us" 0) ++
      registers 5 (node "e1" "us" 0) ++
      joins 1 (aliceConnect "us" "k") ++ .exitGone 0 :: List.replicate 6 (.exit 0 true))
    (P := fun r => (r.2.exitT 0).pc = .done ∧ r.2.current "e1" = some 5 ∧ (r.2.exitT 5).pc = .loop ∧
      r.2.exits.lookup "e1" = none ∧ "e1" ∉ r.2.qos.exits ∧
      (∀ c ∈ r.2.regs, (r.2.exitT c).pc ≠ .gone) ∧
      ∃ e ∈ r.1, (e.pre.exitT 0).pc = .close ∧ Out.close 1 ∈ e.out ∧
        e.pre.sessions.lookup 1 = some 1 ∧ (e.pre.sess 1).exitConn = 5)
    (by decide +kernel)
  refine ⟨tr, b, hr, h1, h2, h3, h4, h5, fun hU => ?_, h7⟩
  have := hU.exits "e1" 5 (fun c hc _ => h6 c hc) h2
  rw [h4] at this
  cases this

end
end Broker
end Revquic
