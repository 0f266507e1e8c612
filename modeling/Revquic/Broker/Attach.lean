/-
# Sessions and their exits

A session is attached to a registration of its node id, and the goroutine
that runs it holds the same registration: what it writes to its exit, counts
there and takes off again is the session's own exit. An exit chosen for a new
session serves the requested region and has spare capacity.

Key definitions: `AttachedTo`, `Attach`, `Inv`.
Key theorems: `chooseExit_spec`, `Inv.of_run`.
-/
import Revquic.Broker.Messages
import Revquic.Broker.Registry
import Revquic.Broker.Rep

namespace Revquic
namespace Broker

open Lib Netip Ippool Proto

/-- The goroutine has chosen an exit for a session it has not inserted. -/
def ClientPC.picks (pc : ClientPC) : Prop := pc = .chosen ∨ pc.numbers

/-- The goroutine runs a session, or owes its exit a message about it. -/
def ClientPC.runs (pc : ClientPC) : Prop := pc.phase = .holds ∨ pc.owes = true

/-- `r` is a registration of node id `n`. -/
def State.registers (b : State) (r : Conn) (n : String) : Prop :=
  r ∈ b.regs ∧ (b.node r).nodeID = n

/-- Sessions and goroutines are attached to exits as `R` says. -/
structure AttachedTo (R : Conn → String → Prop) (b : State) : Prop where
  sess : ∀ p, b.Made p → R (b.sess p).exitConn (b.sess p).nodeID
  writers : ∀ p, b.Made p →
    (b.sess p).exitCW = (b.sess p).exitConn ∧ (b.sess p).clientCW = (b.sess p).clientConn
  picked : ∀ c, (b.client c).pc.picks → ∃ n, R (b.client c).ex n
  runs : ∀ c, (b.client c).pc.runs →
    b.Made (b.client c).s ∧ R (b.client c).ex (b.sess (b.client c).s).nodeID
  held : ∀ c, (b.client c).pc.phase = .holds → (b.client c).ex = (b.sess (b.client c).s).exitConn

section
variable {cfg : Config} {users : Userstore.Table} {b b' : State} {a : Action} {o : List Out}
  {tr : List (Event State Action Out)}

/-! ### The choice of an exit -/

theorem not_picks_of_born {pc : ClientPC} (h : pc.born) : ¬ pc.picks := by
  rintro (rfl | hp | hp)
  · rcases h with h | h <;> cases h
  · rcases h with h | h <;> (rw [h] at hp; cases hp)
  · rcases h with h | h <;> (rw [h] at hp; cases hp)

/-- A goroutine that only moves on has not chosen an exit. -/
theorem Walk.not_picks {t t' : ClientThread} (h : Walk t t') : ¬ t'.pc.picks := by
  rintro (hp | hp | hp)
  · exact h.not_chosen hp
  · rcases h.phases with h1 | h1 | h1 | h1 <;> simp_all
  · rcases h.phases with h1 | h1 | h1 | h1 <;> simp_all

/-- The exit has room for one more session. -/
def ExitNode.spare (ex : ExitNode) : Prop := ex.capacity ≤ 0 ∨ ex.active < ex.capacity

/-- An exit chosen for a new session is registered, under the id that was
asked for if there was one, serves the region and has spare capacity. -/
theorem chooseExit_spec (hreg : Reg b) {msg : Connect} {rnd rr : ℕ} {ex : Conn}
    (h : chooseExit cfg b msg rnd = (some ex, rr)) :
    (∃ n, b.exits.lookup n = some ex ∧ (msg.requestedExit = "" ∨ msg.requestedExit = n)) ∧
      (b.node ex).region = msg.requestedRegion ∧ (b.node ex).spare := by
  unfold chooseExit at h
  split_ifs at h with hreq
  · simp only [Prod.mk.injEq] at h
    have hx := h.1
    unfold requestedExit at hx
    split at hx
    · cases hx
    · rename_i e he
      split_ifs at hx with hc
      cases hx
      exact ⟨⟨_, he, Or.inr rfl⟩, hc.1, hc.2.imp_left fun h0 => h0.le⟩
  · split at h
    · cases h
    · rename_i id rr' hp
      simp only [Prod.mk.injEq] at h
      obtain ⟨n, hn, rfl, hregion, hspare⟩ := Lb.pick_eligible hp
      simp only [candidates, List.mem_map] at hn
      obtain ⟨⟨k, r⟩, he, rfl⟩ := hn
      -- the entry is found again under its own node id
      have hk := GoMap.mem_entries.mp he
      have hid := (hreg.exits k r hk).2
      have hrx : r = ex := by
        have hl : b.exits.lookup (b.node r).nodeID = some ex := h.1
        rw [hid, hk] at hl
        exact Option.some.inj hl
      subst hrx
      refine ⟨⟨k, hk, Or.inl (not_not.mp hreq)⟩, hregion, ?_⟩
      simpa [Lb.Node.hasSpare, ExitNode.spare] using hspare

/-! ### Every move keeps the attachment -/

namespace AttachedTo

variable {R R' : Conn → String → Prop}

theorem mono (h : AttachedTo R b) (hR : ∀ r n, R r n → R' r n) : AttachedTo R' b :=
  ⟨fun p hp => hR _ _ (h.sess p hp), h.writers, fun c hc => (h.picked c hc).imp fun _ => hR _ _,
    fun c hc => ⟨(h.runs c hc).1, hR _ _ (h.runs c hc).2⟩, h.held⟩

theorem frame (h : AttachedTo R b) (hx : b'.sess = b.sess)
    (ht : ∀ c, ((b'.client c).pc.picks → ∃ n, R (b'.client c).ex n) ∧
      ((b'.client c).pc.runs → (b.client c).pc.runs ∧ (b'.client c).s = (b.client c).s ∧
        (b'.client c).ex = (b.client c).ex) ∧
      ((b'.client c).pc.phase = .holds → (b.client c).pc.phase = .holds)) : AttachedTo R b' := by
  have hm : ∀ p, b'.Made p ↔ b.Made p := fun p => by rw [State.Made, State.Made, hx]
  refine ⟨?_, ?_, fun c => (ht c).1, ?_, ?_⟩
  · intro p hp
    rw [hx]
    exact h.sess p ((hm p).1 hp)
  · intro p hp
    rw [hx]
    exact h.writers p ((hm p).1 hp)
  · intro c hc
    obtain ⟨h1, h2, h3⟩ := (ht c).2.1 hc
    rw [h2, h3, hx, hm]
    exact h.runs c h1
  · intro c hc
    obtain ⟨-, h2, h3⟩ := (ht c).2.1 (Or.inl hc)
    rw [h2, h3, hx]
    exact h.held c ((ht c).2.2 hc)

/-- Only goroutine `c` moves. -/
theorem frame_update (h : AttachedTo R b) {c : Conn} {t : ClientThread} (hx : b'.sess = b.sess)
    (hc : b'.client = Function.update b.client c t)
    (hp : t.pc.picks → ∃ n, R t.ex n)
    (hr : t.pc.runs → (b.client c).pc.runs ∧ t.s = (b.client c).s ∧ t.ex = (b.client c).ex)
    (hh : t.pc.phase = .holds → (b.client c).pc.phase = .holds) : AttachedTo R b' := by
  refine h.frame hx fun d => ?_
  rw [hc]
  rcases eq_or_ne d c with rfl | hd
  · rw [Function.update_self]
    exact ⟨hp, hr, hh⟩
  · rw [Function.update_of_ne hd]
    exact ⟨h.picked d, fun h => ⟨h, rfl, rfl⟩, id⟩

/-- Goroutine `c` is past the choice of an exit. -/
theorem picked_update (h : AttachedTo R b) {c d : Conn} {t : ClientThread}
    (hc : b'.client = Function.update b.client c t) (ht : ¬ t.pc.picks)
    (hd : (b'.client d).pc.picks) : ∃ n, R (b'.client d).ex n := by
  rw [hc] at hd ⊢
  rcases eq_or_ne d c with rfl | hne
  · rw [Function.update_self] at hd
    exact absurd hd ht
  · rw [Function.update_of_ne hne] at hd ⊢
    exact h.picked d hd

theorem insert (h : AttachedTo R b) (hrep : Rep b) (hN : ∀ r n, R r n → (b.node r).nodeID = n)
    {c : Conn} (hpc : (b.client c).pc = .allocated) : AttachedTo R (insertSession b c) := by
  have hnm : ¬ b.Made c := hrep.not_made (by rw [hpc]; simp [ClientPC.born, ClientPC.phase])
  have hcd : ∀ d, d ≠ c → (insertSession b c).client d = b.client d :=
    fun d hd => Function.update_of_ne hd _ _
  have hcc : (insertSession b c).client c = { b.client c with pc := .inserted, s := c } :=
    Function.update_self _ _ _
  obtain ⟨n, hn⟩ := h.picked c (Or.inr (Or.inr (by rw [hpc]; rfl)))
  have hex : R (b.client c).ex (newSession b c).nodeID := by
    rw [show (newSession b c).nodeID = n from hN _ _ hn]
    exact hn
  have hmade : ∀ p, p ≠ c → (insertSession b c).Made p → b.Made p := by
    intro p hp hm
    rwa [State.Made, insertSession_sess_of_ne hp] at hm
  have hmc : (insertSession b c).Made c := by
    rw [State.Made, insertSession_sess_self]
    exact (hrep.drawn c (Or.inr (by rw [hpc]; rfl))).1.ne'
  refine ⟨?_, ?_, ?_, ?_, ?_⟩
  · intro p hp
    by_cases hpc' : p = c
    · rw [hpc', insertSession_sess_self]; exact hex
    · rw [insertSession_sess_of_ne hpc']; exact h.sess p (hmade p hpc' hp)
  · intro p hp
    by_cases hpc' : p = c
    · rw [hpc', insertSession_sess_self]; exact ⟨rfl, rfl⟩
    · rw [insertSession_sess_of_ne hpc']; exact h.writers p (hmade p hpc' hp)
  · exact fun d => h.picked_update rfl (by simp [ClientPC.picks, ClientPC.numbers, ClientPC.phase])
  · intro d hd
    by_cases hdc : d = c
    · rw [hdc, hcc]
      exact ⟨hmc, by rw [insertSession_sess_self]; exact hex⟩
    · rw [hcd d hdc] at hd ⊢
      obtain ⟨h1, h2⟩ := h.runs d hd
      have hne : (b.client d).s ≠ c := fun he => hnm (he ▸ h1)
      rw [State.Made, insertSession_sess_of_ne hne]
      exact ⟨h1, h2⟩
  · intro d hd
    by_cases hdc : d = c
    · rw [hdc, hcc, insertSession_sess_self]
      rfl
    · rw [hcd d hdc] at hd ⊢
      have hne : (b.client d).s ≠ c := fun he => hnm (he ▸ (h.runs d (Or.inl hd)).1)
      rw [insertSession_sess_of_ne hne]
      exact h.held d hd

theorem resume (h : AttachedTo R b) (hrep : Rep b)
    (hR : ∀ n r, b.exits.lookup n = some r → R r n) {c p ex : Conn}
    (hf : b.parked.lookup (b.client c).msg.resumeKey = some p)
    (hx : b.exits.lookup (b.sess p).nodeID = some ex) : AttachedTo R (resumeState b c p ex) := by
  have hcd : ∀ d, d ≠ c → (resumeState b c p ex).client d = b.client d :=
    fun d hd => Function.update_of_ne hd _ _
  have hcc : (resumeState b c p ex).client c = { b.client c with pc := .resumed, s := p, ex } :=
    Function.update_self _ _ _
  have hsame : ∀ q, ((resumeState b c p ex).sess q).id = (b.sess q).id ∧
      ((resumeState b c p ex).sess q).nodeID = (b.sess q).nodeID := by
    intro q
    by_cases hq : q = p
    · rw [hq, resumeState_sess_self]; exact ⟨rfl, rfl⟩
    · rw [resumeState_sess_of_ne hq]; exact ⟨rfl, rfl⟩
  have hmade : ∀ q, (resumeState b c p ex).Made q ↔ b.Made q := fun q => by
    rw [State.Made, State.Made, (hsame q).1]
  have hmp : b.Made p := hrep.made p (live_of_parked hf)
  refine ⟨?_, ?_, ?_, ?_, ?_⟩
  · intro q hq
    by_cases hqp : q = p
    · rw [hqp, resumeState_sess_self]; exact hR _ _ hx
    · rw [resumeState_sess_of_ne hqp]; exact h.sess q ((hmade q).1 hq)
  · intro q hq
    by_cases hqp : q = p
    · rw [hqp, resumeState_sess_self]; exact ⟨rfl, rfl⟩
    · rw [resumeState_sess_of_ne hqp]; exact h.writers q ((hmade q).1 hq)
  · exact fun d => h.picked_update rfl (by simp [ClientPC.picks, ClientPC.numbers, ClientPC.phase])
  · intro d hd
    by_cases hdc : d = c
    · rw [hdc, hcc, hmade, (hsame _).2]
      exact ⟨hmp, hR _ _ hx⟩
    · rw [hcd d hdc] at hd ⊢
      rw [hmade, (hsame _).2]
      exact h.runs d hd
  · intro d hd
    by_cases hdc : d = c
    · rw [hdc, hcc, resumeState_sess_self]
    · rw [hcd d hdc] at hd ⊢
      rw [resumeState_sess_of_ne (hrep.parked_not_held hf hd)]
      exact h.held d hd

theorem park (h : AttachedTo R b) {c : Conn} (hpc : (b.client c).pc = .dropped) :
    AttachedTo R (parkState cfg b c) := by
  have hph : (b.client c).pc.phase = .holds := by rw [hpc]; rfl
  have hsame : ∀ q, ((parkState cfg b c).sess q).id = (b.sess q).id ∧
      ((parkState cfg b c).sess q).nodeID = (b.sess q).nodeID ∧
      ((parkState cfg b c).sess q).exitConn = (b.sess q).exitConn ∧
      ((parkState cfg b c).sess q).exitCW = (b.sess q).exitCW ∧
      ((parkState cfg b c).sess q).clientConn = (b.sess q).clientConn ∧
      ((parkState cfg b c).sess q).clientCW = (b.sess q).clientCW := by
    intro q
    by_cases hq : q = (b.client c).s <;> simp [parkState, hq]
  have hmade : ∀ q, (parkState cfg b c).Made q ↔ b.Made q := fun q => by
    rw [State.Made, State.Made, (hsame q).1]
  have hcd : ∀ d, d ≠ c → (parkState cfg b c).client d = b.client d :=
    fun d hd => Function.update_of_ne hd _ _
  have hcc : (parkState cfg b c).client c = { b.client c with pc := .parked } :=
    Function.update_self _ _ _
  refine ⟨?_, ?_, ?_, ?_, ?_⟩
  · intro q hq
    rw [(hsame q).2.1, (hsame q).2.2.1]
    exact h.sess q ((hmade q).1 hq)
  · intro q hq
    obtain ⟨-, -, h3, h4, h5, h6⟩ := hsame q
    rw [h3, h4, h5, h6]
    exact h.writers q ((hmade q).1 hq)
  · exact fun d => h.picked_update rfl (by simp [ClientPC.picks, ClientPC.numbers, ClientPC.phase])
  · intro d hd
    by_cases hdc : d = c
    · rw [hdc, hcc, hmade, (hsame _).2.1]
      exact h.runs c (Or.inl hph)
    · rw [hcd d hdc] at hd ⊢
      rw [hmade, (hsame _).2.1]
      exact h.runs d hd
  · intro d hd
    by_cases hdc : d = c
    · rw [hdc, hcc] at hd
      cases hd
    · rw [hcd d hdc] at hd ⊢
      rw [(hsame _).2.2.1]
      exact h.held d hd

theorem move (h : AttachedTo R b) (hreg : Reg b) (hrep : Rep b)
    (hR : ∀ n r, b.exits.lookup n = some r → R r n)
    (hN : ∀ r n, R r n → (b.node r).nodeID = n) (hm : Move cfg b a b' o) : AttachedTo R b' := by
  cases hm with
  | env core client =>
    refine h.frame core.sess fun c => ?_
    rw [client]
    exact ⟨h.picked c, fun h => ⟨h, rfl, rfl⟩, id⟩
  | connect c msg hu =>
    refine h.frame_update (t := { pc := .auth, msg }) rfl rfl ?_ ?_ ?_ <;>
      simp [ClientPC.picks, ClientPC.numbers, ClientPC.runs, ClientPC.phase, ClientPC.owes]
  | register c msg =>
    refine h.frame (handleExit_core cfg b c msg).sess fun d => ?_
    rw [handleExit_client]
    exact ⟨h.picked d, fun h => ⟨h, rfl, rfl⟩, id⟩
  | walk c t' core client _ _ hw =>
    refine h.frame_update core.sess client (fun hp => absurd hp hw.not_picks) ?_ ?_
    · rintro (hp | hp)
      · have hb : (b.client c).pc.phase = .holds := hw.compat.back hp
        obtain ⟨-, h2, h3, -⟩ := hw.same (by rw [hb]; decide)
        exact ⟨Or.inl hb, h2, h3⟩
      · rw [hw.not_owes] at hp
        cases hp
    · exact hw.compat.back
  | choose c i ex rr hpc hch =>
    obtain ⟨⟨n, hn, -⟩, -⟩ := chooseExit_spec hreg hch
    refine h.frame_update (t := { b.client c with pc := .chosen, ex }) rfl rfl
      (fun _ => ⟨n, hR n ex hn⟩) ?_ ?_ <;>
      simp [ClientPC.runs, ClientPC.phase, ClientPC.owes]
  | draw c i hpc =>
    refine h.frame_update rfl rfl (fun _ => h.picked c (Or.inl hpc)) ?_ ?_ <;>
      simp [ClientPC.runs, ClientPC.phase, ClientPC.owes]
  | alloc c i addr pool hpc =>
    refine h.frame_update rfl rfl (fun _ => h.picked c (Or.inr (Or.inl (by rw [hpc]; rfl)))) ?_ ?_ <;>
      simp [ClientPC.runs, ClientPC.phase, ClientPC.owes]
  | insert c i hpc => exact h.insert hrep hN hpc
  | count c i hpc pc' hph hun =>
    exact h.frame_update (t := { b.client c with pc := pc' }) rfl rfl
      (fun hp => absurd hp (not_picks_of_born (Or.inl hph)))
      (fun _ => ⟨Or.inl (uncounted_holds hpc), rfl, rfl⟩) fun _ => uncounted_holds hpc
  | resume c i p ex hpc _ hf _ _ hx => exact h.resume hrep hR hf hx
  | park c i q hpc => exact h.park hpc
  | close c i q pc' hpc =>
    have hph := holds_of_leaving (hpc.imp And.left And.left)
    refine h.frame_update (t := { b.client c with pc := pc' }) rfl rfl ?_
      (fun _ => ⟨Or.inl hph, rfl, rfl⟩) fun _ => hph
    rcases hpc with ⟨-, rfl⟩ | ⟨-, rfl⟩ <;>
      simp [ClientPC.picks, ClientPC.numbers, ClientPC.phase]
  | vanish c i hpc =>
    refine h.frame_update (t := { b.client c with pc := .done }) rfl rfl ?_ ?_ ?_ <;>
      simp [ClientPC.picks, ClientPC.numbers, ClientPC.runs, ClientPC.phase, ClientPC.owes]
  | expire => exact h.frame rfl fun d => ⟨h.picked d, fun h => ⟨h, rfl, rfl⟩, id⟩

end AttachedTo

/-! ### Runs -/

/-- Sessions and goroutines are attached to registrations of their node
ids. -/
def Attach (b : State) : Prop := AttachedTo b.registers b

theorem Attach.init (users : Userstore.Table) : Attach (newBroker users) := by
  refine ⟨?_, ?_, ?_, ?_, ?_⟩
  · exact fun p hp => absurd rfl hp
  · exact fun p hp => absurd rfl hp
  · rintro c (h | h | h) <;> cases h
  · rintro c (h | h) <;> cases h
  · intro c h; cases h

theorem Attach.step (h : Attach b) (hreg : Reg b) (hrep : Rep b)
    (hs : step cfg b a = some (b', o)) : Attach b' := by
  have hb : AttachedTo b.registers b' :=
    AttachedTo.move h hreg hrep hreg.exits (fun _ _ hr => hr.2) (step_move hs)
  refine hb.mono fun r n hr => ?_
  obtain ⟨h1, h2⟩ := hreg.keep (step_regMove hs) hr.1
  exact ⟨h1, by rw [h2]; exact hr.2⟩

/-- The invariants every run keeps. -/
structure Inv (b : State) : Prop where
  rep : Rep b
  reg : Reg b
  attach : Attach b
  timers : TimersBelow b
  replies : Replies b

theorem Inv.init (users : Userstore.Table) : Inv (newBroker users) :=
  ⟨Rep.init users, Reg.init users, Attach.init users, fun _ _ => rfl, nofun⟩

theorem Inv.step (h : Inv b) (hs : step cfg b a = some (b', o)) : Inv b' :=
  ⟨h.rep.move (step_move hs), h.reg.step hs, h.attach.step h.reg h.rep hs, h.timers.step hs,
    h.replies.move (step_move hs)⟩

theorem Inv.of_run (h : (machine cfg users).Run tr b) : Inv b :=
  h.invariant (Inv.init users) fun _ _ _ _ hb hs => hb.step hs

end
end Broker
end Revquic
