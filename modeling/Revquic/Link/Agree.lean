/-
# The broker and the exit agree

Once all that is written has been read, the exit knows exactly the sessions
that the broker has attached to it, and those are suspended that the broker
has parked. The broker changes its maps under `b.mu` and writes afterwards,
so the messages of two goroutines may be written in the other order. This is
harmless but for one pair: a `MsgSessionSuspend` that is written after the
`MsgSessionStart` of the resume leaves an active session suspended. Two other
things go wrong: a parked session that is overwritten stays at the exit for
good, and what is written before `MsgRegisterOK` is lost.

Key definitions: `Fits`, `Agree`, `Timely`, `SameSessions`.
Key theorems: `Agree.step`, `agree_of_timely`.
-/
import Revquic.Link.Told

namespace Revquic
namespace Link

open Lib Netip Proto Broker

/-! ### Agreement -/

/-- What the exit has to know of session `p`, when it has read everything: it
is active once its `MsgSessionStart` is written, suspended once its
`MsgSessionSuspend` is, and unknown once its `MsgSessionEnd` is. -/
structure Fits (b : Broker.State) (p : Conn) (x : Option Bool) : Prop where
  told : ∀ c, (b.client c).pc.told = true → (b.client c).s = p → x = some false
  parked : ∀ k, b.parked.lookup k = some p →
    x = some (decide ((b.client (b.sess p).clientConn).pc ≠ .parked))
  gone : ¬ b.Live p → endOwed b p ∨ x = none

/-- The exit of node id `n` knows the right things, and a `MsgSessionSuspend`
that is still owed comes before any later `MsgSessionStart`: the session has
ended, or is parked by the goroutine that owes the message, or is run by one
that has not written yet. -/
structure Agree (n : String) (b : Broker.State) (σ : Standing) : Prop where
  fits : ∀ p, b.Made p → (b.sess p).nodeID = n → Fits b p (σ (b.sess p).id)
  known : ∀ sid, σ sid ≠ none → ∃ p, b.Made p ∧ (b.sess p).id = sid ∧ (b.sess p).nodeID = n
  suspending : ∀ c, (b.client c).pc = .parked → (b.sess (b.client c).s).nodeID = n →
    ¬ b.Live (b.client c).s ∨
    (∃ k, b.parked.lookup k = some (b.client c).s) ∧ (b.sess (b.client c).s).clientConn = c ∨
    ∃ d, (b.client d).pc.phase = .holds ∧ (b.client d).pc.told = false ∧
      (b.client d).s = (b.client c).s

/-! ### When the messages are written -/

/-- A `MsgSessionStart` is not written to exit `ex` while a
`MsgSessionSuspend` of the same session is owed. -/
def InOrder (ex : Conn) (b : Broker.State) : Broker.Action → Prop
  | .client c _ => (b.client c).pc = .start → (b.client c).ex = ex →
    ∀ d, (b.client d).pc = .parked → (b.client d).s ≠ (b.client c).s
  | _ => True

/-- No parked session of node id `n` is overwritten, and nothing about a
session is written to exit `ex` before `MsgRegisterOK`. -/
def Settled (cfg : Config) (ex : Conn) (n : String) (b : Broker.State) : Broker.Action → Prop
  | .client c _ =>
    (b.parks cfg c → ∀ p ∈ b.parked.lookup (b.sess (b.client c).s).resumeKey,
      (b.sess p).nodeID ≠ n) ∧
    ((b.client c).pc = .start ∨ (b.client c).pc.owes = true → (b.client c).ex = ex →
      (b.exitT ex).pc ≠ .welcome)
  | .timer k _ => (b.timer k).pc = .write → (b.timer k).ex = some ex → (b.exitT ex).pc ≠ .welcome
  | _ => True

instance (cfg : Config) (ex : Conn) (n : String) (b : Broker.State) :
    DecidablePred (Settled cfg ex n b)
  | .client _ _ => inferInstanceAs (Decidable (_ ∧ _))
  | .timer _ _ => inferInstanceAs (Decidable (_ → _ → _))
  | .tick _ | .users _ | .connect _ _ | .drop _ _ | .clientCtrl _ _ _ | .register _ _ | .exit _ _
  | .exitCtrl _ _ _ | .exitGone _ | .datagram _ _ | .fire _ => isTrue trivial

def Timely (cfg : Config) (ex : Conn) (n : String) (b : Broker.State) (a : Broker.Action) : Prop :=
  InOrder ex b a ∧ Settled cfg ex n b a

section
variable {cfg : Config} {users : Userstore.Table} {ex : Conn} {n : String} {l l' : State}
  {b b' : Broker.State} {a : Broker.Action} {o : List Out} {σ : Standing}
  {tr : List (Event State Action Out)}

/-- A goroutine that runs a session has it in `b.sessions`. -/
theorem live_of_told (hinv : Inv b) {c p : Conn} (hc : (b.client c).pc.told = true) (hs : (b.client c).s = p) :
    b.Live p :=
  hs ▸ live_of_sessions (hinv.rep.held c (told_holds hc)).1

/-- The goroutine that parked a session stays where it is, or writes. -/
theorem parked_iff (hd : Duties b) (hm : Move cfg b a b' o) {k : String} {p : Conn}
    (hp : b.parked.lookup k = some p)
    (hkeep : ∀ c, (b.client c).pc = .parked → (b.client c).s = p → (b'.client c).pc = .parked) :
    (b'.client (b.sess p).clientConn).pc = .parked ↔
      (b.client (b.sess p).clientConn).pc = .parked := by
  obtain ⟨hph, hs⟩ := hd.last k p hp
  refine ⟨fun h => ?_, fun h => hkeep _ h hs⟩
  rcases hm.owes (by rw [h]; rfl) with hsame | ⟨-, hpc⟩ | ⟨pc', -, hpc⟩
  · rwa [hsame] at h
  · rw [hpc] at hph; cases hph
  · rcases hpc with ⟨hpc, -⟩ | ⟨hpc, -⟩ <;> (rw [hpc] at hph; cases hph)

/-- A session that has just been inserted. -/
theorem fits_insert (hrep : Rep b) {p : Conn} (hpc : (b.client p).pc = .allocated)
    (x : Option Bool) : Fits (insertSession b p) p x := by
  have hdead : ¬ b.Live p := hrep.not_live (by rw [hpc]; simp [ClientPC.born, ClientPC.phase])
  refine ⟨fun c hc hcs => ?_, fun k hk => absurd (live_of_parked (b := b) hk) hdead,
    fun hl => absurd ((hrep.live_insert hpc p).2 (Or.inr rfl)) hl⟩
  change (Function.update b.client p _ c).pc.told = true at hc
  change (Function.update b.client p _ c).s = p at hcs
  by_cases hcp : c = p
  · rw [hcp, Function.update_self] at hc
    cases hc
  · rw [Function.update_of_ne hcp] at hc hcs
    exact absurd (hcs ▸ live_of_sessions (hrep.held c (told_holds hc)).1) hdead

section
variable (hinv : Inv b) (hd : Duties b) (hup : Up ex n b)
include hinv hd hup

/-! ### Every step keeps the agreement -/

theorem Fits.step (h : Agree n b σ) (hs : Broker.step cfg b a = some (b', o))
    (ht : Settled cfg ex n b a) {p : Conn} (hp : b.Made p) (hn : (b.sess p).nodeID = n)
    {x' : Option Bool} (hx : Heard b b' p (σ (b.sess p).id) x') : Fits b' p x' := by
  have hm := step_move hs
  have hf := h.fits p hp hn
  have hinv' := hinv.step hs
  cases hx with
  | nothing same told suspend owed =>
    subst same
    refine ⟨fun c hc hcs => ?_, fun k hk => ?_, fun hl => ?_⟩
    · obtain ⟨h1, h2⟩ := told c hc hcs
      exact hf.told c h1 h2
    · rcases hm.parked hinv.rep hk with ⟨hk, hsame⟩ | ⟨c, i, rfl, hparks, hcs, rfl⟩
      · rw [hf.parked k hk, hsame]
        simp only [ne_eq, parked_iff hd hm hk suspend]
      · rw [hf.told c (by rw [hparks.1]; rfl) hcs]
        subst hcs
        have hcc := (hinv.rep.held c (by rw [hparks.1]; rfl)).2
        rw [parkState_sess_self]
        simp [hcc]
    · by_cases hl' : b.Live p
      · rcases owed_or_overwritten hinv hup hm hl' hn hl with h | ⟨c, i, rfl, -, hparks, hkey⟩
        · exact Or.inl h
        · exact absurd hn (ht.1 hparks p hkey)
      · exact (hf.gone hl').imp_left owed
  | start c active core hpc hcs =>
    have hph : (b.client c).pc.phase = .holds := by rw [hpc]; rfl
    refine ⟨fun _ _ _ => active, fun k hk => ?_, fun hl => ?_⟩
    · rw [core.parked] at hk
      exact absurd hcs (hinv.rep.parked_not_held hk hph)
    · rw [State.Live, core.sessions, core.parked] at hl
      exact absurd (hcs ▸ live_of_sessions (hinv.rep.held c hph).1) hl
  | suspend c suspended core hpc hcs wrote others owed =>
    subst suspended
    have hown := h.suspending c hpc (by rw [hcs, hn])
    rw [hcs] at hown
    refine ⟨fun d hd' hds => ?_, fun k hk => ?_, fun hl => ?_⟩
    · -- a goroutine that has told the exit runs the session: it is not the one suspended
      have hdc : d ≠ c := by
        rintro rfl
        rw [wrote] at hd'
        cases hd'
      rw [others d hdc] at hd' hds
      rcases hown with hdead | ⟨⟨k, hk⟩, -⟩ | ⟨e, hph, hnot, hes⟩
      · exact absurd (live_of_told hinv hd' hds) hdead
      · exact absurd hds (hinv.rep.parked_not_held hk (told_holds hd'))
      · rw [hinv.rep.held_inj hph (told_holds hd') (hes.trans hds.symm), hd'] at hnot
        cases hnot
    · rw [core.parked] at hk
      rcases hown with hdead | ⟨-, hcc⟩ | ⟨e, hph, -, hes⟩
      · exact absurd (live_of_parked hk) hdead
      · rw [hf.parked k hk, core.sess, hcc, hpc, wrote]
        rfl
      · exact absurd hes (hinv.rep.parked_not_held hk hph)
    · rw [State.Live, core.sessions, core.parked] at hl
      rcases hf.gone hl with howed | hnone
      · exact Or.inl (owed howed)
      · exact Or.inr (by rw [hnone]; rfl)
  | finish dead gone =>
    have hdead := dead_of_move hinv.rep hm hp dead
    exact ⟨fun c hc hcs => absurd (live_of_told hinv' hc hcs) hdead,
      fun k hk => absurd (live_of_parked hk) hdead, fun _ => Or.inr gone⟩

end

/-- A goroutine that has not written its `MsgSessionStart` still runs its
session and has not written, or the session has ended, or the message is
next. -/
theorem unstarted_of_step (hinv : Inv b) (hs : Broker.step cfg b a = some (b', o)) {d : Conn}
    (hph : (b.client d).pc.phase = .holds) (hnot : (b.client d).pc.told = false) :
    ¬ b'.Live (b.client d).s ∨
    ((b'.client d).pc.phase = .holds ∧ (b'.client d).pc.told = false ∧
      (b'.client d).s = (b.client d).s) ∨ (b.client d).pc = .start ∧ ∃ i, a = .client d i := by
  have hm := step_move hs
  have hrep := hinv.rep
  rcases hm.born (Or.inl hph) with hph' | hph'
  · cases htold : (b'.client d).pc.told with
    | true =>
      rcases (says_of_step hinv.timers hs).told htold with h | h
      · rw [hnot] at h; cases h
      · exact Or.inr (Or.inr h)
    | false =>
      rcases (hm.holding hph').1 with ⟨-, h⟩ | ⟨-, hpc⟩ | ⟨q, r, i, -, -, hpc⟩
      · exact Or.inr (Or.inl ⟨hph', rfl, h⟩)
      · rw [hpc] at hph; cases hph
      · rw [hpc] at hph; cases hph
  · -- it gave the session up, and a session that is not told is not parked
    refine Or.inl fun hl => ?_
    rcases hl with ⟨i, hi⟩ | ⟨k, hk⟩
    · obtain ⟨he, hes⟩ := (hrep.move hm).holder i _ hi
      generalize (b'.sess (b.client d).s).clientConn = e at he hes
      rcases (hm.holding he).1 with ⟨he', hs'⟩ | ⟨rfl, hpc⟩ | ⟨q, r, j, -, rfl, -, -, hmay, -⟩
      · rw [hrep.held_inj he' hph (hs'.symm.trans hes), hph'] at he
        cases he
      · simp only [insertSession_client, Function.update_self] at hes
        have hl := live_of_sessions (hrep.held d hph).1
        rw [← hes] at hl
        exact hrep.not_live (by rw [hpc]; simp [ClientPC.born, ClientPC.phase]) hl
      · simp only [resumeState_client, Function.update_self] at hes
        exact hrep.parked_not_held hmay.1 hph hes.symm
    · rcases hm.parked hrep hk with ⟨hk, -⟩ | ⟨c, i, -, hparks, hcs, -⟩
      · exact hrep.parked_not_held hk hph rfl
      · rw [← hrep.held_inj (by rw [hparks.1]; rfl) hph hcs, hparks.1] at hnot
        cases hnot

/-- A `MsgSessionSuspend` that is still owed is not late. -/
theorem suspending_of_step (hinv : Inv b) (hup : Up ex n b) (h : Agree n b σ)
    (hs : Broker.step cfg b a = some (b', o)) (ht : InOrder ex b a) {c : Conn}
    (hc : (b'.client c).pc = .parked) (hn : (b'.sess (b'.client c).s).nodeID = n) :
    ¬ b'.Live (b'.client c).s ∨
    (∃ k, b'.parked.lookup k = some (b'.client c).s) ∧ (b'.sess (b'.client c).s).clientConn = c ∨
    ∃ d, (b'.client d).pc.phase = .holds ∧ (b'.client d).pc.told = false ∧
      (b'.client d).s = (b'.client c).s := by
  have hm := step_move hs
  have howes : (b'.client c).pc.owes = true := by rw [hc]; rfl
  rcases hm.owes howes with hsame | ⟨rfl, hpc⟩ | ⟨pc', rfl, hpc⟩
  · rw [hsame] at hc hn howes ⊢
    have hmade := (hinv.attach.runs c (Or.inr howes)).1
    rw [(hm.static hinv.rep hmade).nodeID] at hn
    rcases h.suspending c hc hn with hdead | ⟨⟨k, hk⟩, hcc⟩ | ⟨d, hph, hnot, hds⟩
    · exact Or.inl (dead_of_move hinv.rep hm hmade hdead)
    · rcases hm.leaves hinv.rep hk with ⟨hk', hs'⟩ | hdead | ⟨d, i, r, -, -, -, rfl⟩
      · exact Or.inr (Or.inl ⟨⟨k, hk'⟩, by rw [hs', hcc]⟩)
      · exact Or.inl hdead
      · refine Or.inr (Or.inr ⟨d, ?_⟩)
        simp [ClientPC.phase, ClientPC.told]
    · rcases unstarted_of_step hinv hs hph hnot with hdead | ⟨h1, h2, h3⟩ | ⟨hpc, i, rfl⟩
      · exact Or.inl (hds ▸ hdead)
      · exact Or.inr (Or.inr ⟨d, h1, h2, h3.trans hds⟩)
      · have hex := (runs_on hinv hup (Or.inl hph)).2 (by rw [hds, hn])
        exact absurd hds.symm (ht hpc hex c hc)
  · have hself : ((parkState cfg b c).client c).s = (b.client c).s := by
      simp
    rw [hself, parkState_sess_self]
    refine Or.inr (Or.inl ⟨⟨(b.sess (b.client c).s).resumeKey, ?_⟩,
      (hinv.rep.held c (by rw [hpc]; rfl)).2⟩)
    change (b.parked.insert _ _).lookup _ = _
    rw [GoMap.lookup_set, if_pos rfl]
  · rcases hpc with ⟨-, rfl⟩ | ⟨-, rfl⟩ <;>
      simp at hc

/-- **A step of the broker keeps the agreement with what the exit has been
told.** -/
theorem Agree.step (h : Agree n b σ) (hinv : Inv b) (hd : Duties b) (ha : Addressed b)
    (hup : Up ex n b) (hs : Broker.step cfg b a = some (b', o)) (hst : StaysUp ex n b a)
    (ht : Timely cfg ex n b a) : Agree n b' ((toExit ex o).foldl tell σ) := by
  have hm := step_move hs
  refine ⟨fun p hp hn => ?_, fun sid hsid => ?_, fun c hc hn => ?_⟩
  · rcases hm.made hp with hp | ⟨-, hpc, rfl⟩
    · have hst' := hm.static hinv.rep hp
      rw [hst'.nodeID] at hn
      rw [hst'.id]
      exact .step hinv hd hup h hs ht.2 hp hn (heard_of_step hinv hup hd hs hst hp hn)
    · exact fits_insert hinv.rep hpc _
  · have hold : ∃ p, b.Made p ∧ (b.sess p).id = sid ∧ (b.sess p).nodeID = n := by
      by_cases hm : ∃ m, Out.ctrl ex m ∈ o ∧ about m = some sid
      · obtain ⟨m, hm, hab⟩ := hm
        exact (proper_of_step hinv hd ha hup hs hm).known sid hab
      · rw [foldl_tell_other fun m hmem hab => hm ⟨m, hmem, hab⟩] at hsid
        exact h.known sid hsid
    obtain ⟨p, hp, hid, hn⟩ := hold
    have hst' := hm.static hinv.rep hp
    exact ⟨p, made_of_move hinv.rep hm hp, hst'.id.trans hid, hst'.nodeID.trans hn⟩
  · exact suspending_of_step hinv hup h hs ht.1 hc hn

/-! ### The two parties -/

/-- What the exit will know when it has read everything agrees with the
broker, and it has its answer once `handleExit` has written it. -/
structure Synced (ex : Conn) (n : String) (l : State) : Prop where
  agree : Agree n l.broker (standing (l.stream.view Reader.read).toTables)
  fresh : (l.stream.view Reader.read).Fresh
  greeted : ex ∈ l.broker.regs → (l.broker.exitT ex).pc ≠ .welcome →
    (l.stream.view Reader.read).registered = true

theorem regs_of_regMove (hm : RegMove cfg b a b' o) {r : Conn} (hr : r ∈ b'.regs) :
    r ∈ b.regs ∨ (b'.exitT r).pc = .welcome := by
  cases hm with
  | same reg => exact Or.inl (reg.regs ▸ hr)
  | refuse c msg hu ht =>
    rw [handleExit_refuse ht] at hr
    exact Or.inl hr
  | register c msg hu ht =>
    obtain ⟨hregs, -, hpc, -, -⟩ := handleExit_register (b := b) (c := c) ht
    rw [hregs, List.mem_cons] at hr
    rcases hr with rfl | hr
    · exact Or.inr hpc
    · exact Or.inl hr
  | walk c t' _ _ _ regs => exact Or.inl (regs ▸ hr)
  | _ => exact Or.inl hr

/-- `MsgRegisterOK` is what ends the welcome. -/
theorem greets (hinv : Inv b) (hs : Broker.step cfg b a = some (b', o)) (hst : StaysUp ex n b a)
    (hw : (b.exitT ex).pc = .welcome) (hw' : (b'.exitT ex).pc ≠ .welcome) : toExit ex o ≠ [] := by
  cases says_of_step hinv.timers hs with
  | quiet _ _ _ _ welcome => exact absurd (welcome ex hw) hw'
  | welcome c ok hpc =>
    by_cases hc : c = ex
    · rw [toExit_written, if_pos ⟨hst hc, hc⟩]
      simp
    · refine absurd ?_ hw'
      change (Function.update b.exitT c _ ex).pc = .welcome
      rwa [Function.update_of_ne (Ne.symm hc)]
  | _ => exact absurd hw hw'

/-- A message about a session is written after `MsgRegisterOK`. -/
theorem greeted_of_step (hinv : Inv b) (hd : Duties b) (ht : Settled cfg ex n b a)
    (hs : Broker.step cfg b a = some (b', o)) {m : Control} (hm : Out.ctrl ex m ∈ o)
    (hab : about m ≠ none) : ex ∈ b.regs ∧ (b.exitT ex).pc ≠ .welcome := by
  have hruns : ∀ {c : Conn}, (b.client c).pc.runs → ex = (b.client c).ex → ex ∈ b.regs :=
    fun hc he => he ▸ (hinv.attach.runs _ hc).2.1
  cases says_of_step hinv.timers hs with
  | quiet side => exact absurd (about_of_side (side _ m hm)) hab
  | welcome c ok | connectOK c i =>
    obtain ⟨-, -, rfl⟩ := mem_written hm
    exact absurd rfl hab
  | reply c i hpc =>
    obtain ⟨-, -, rfl⟩ := mem_written hm
    exact absurd (about_of_refusal (hinv.replies c hpc)) hab
  | start c i hpc =>
    obtain ⟨-, he, -⟩ := mem_written hm
    exact ⟨hruns (Or.inl (by rw [hpc]; rfl)) he, ht.2 (Or.inl hpc) he.symm⟩
  | suspend c i hpc =>
    obtain ⟨-, he, -⟩ := mem_written hm
    have howes : (b.client c).pc.owes = true := by rw [hpc]; rfl
    exact ⟨hruns (Or.inr howes) he, ht.2 (Or.inr howes) he.symm⟩
  | finish c i pc' hpc =>
    obtain ⟨-, he, -⟩ := mem_written hm
    have howes : (b.client c).pc.owes = true := by
      rcases hpc with ⟨hpc, -⟩ | ⟨hpc, -⟩ <;> rw [hpc] <;> rfl
    exact ⟨hruns (Or.inr howes) he, ht.2 (Or.inr howes) he.symm⟩
  | expire k ok p => cases List.mem_singleton.mp hm
  | expired k ok hpc =>
    obtain ⟨-, -, -, r, hr, hreg⟩ := hd.expired k hpc
    rw [hr] at hm
    obtain ⟨-, he, -⟩ := mem_written hm
    exact ⟨he ▸ hreg.1, ht hpc (by rw [hr, he])⟩

theorem Synced.init (users : Userstore.Table) :
    Synced ex n (machine cfg users ex n).init := by
  refine ⟨⟨fun p hp => absurd rfl hp, fun sid hsid => absurd rfl hsid, fun c hc => ?_⟩,
    ⟨nofun, nofun⟩, nofun⟩
  cases hc

theorem Synced.step (h : Synced ex n l) (hj : Joint ex n l.broker)
    (hs : step cfg ex n l (.broker a) = some (l', o)) (ht : Timely cfg ex n l.broker a) :
    Synced ex n l' := by
  obtain ⟨hst, hs, hstream⟩ := step_broker hs
  have hsent : ∀ m ∈ toExit ex o, Parses m ∧
      (about m ≠ none → (l.stream.view Reader.read).registered = true) := by
    intro m hm
    refine ⟨(proper_of_step hj.inv hj.duties hj.addressed hj.up hs (mem_toExit hm)).parses,
      fun hab => ?_⟩
    obtain ⟨h1, h2⟩ := greeted_of_step hj.inv hj.duties ht.2 hs (mem_toExit hm) hab
    exact h.greeted h1 h2
  refine ⟨?_, ?_, fun hr hw => ?_⟩
  · rw [hstream, Fifo.view_send, standing_foldl h.fresh hsent]
    exact h.agree.step hj.inv hj.duties hj.addressed hj.up hs hst ht
  · rw [hstream, Fifo.view_send]
    exact Reader.fresh_foldl h.fresh
  · rw [hstream, Fifo.view_send]
    have hr' := (regs_of_regMove (step_regMove hs) hr).resolve_right hw
    by_cases hw' : (l.broker.exitT ex).pc = .welcome
    · exact Reader.registered_foldl (Or.inr (greets hj.inv hs hst hw' hw))
    · exact Reader.registered_foldl (Or.inl (h.greeted hr' hw'))

theorem Synced.of_run (h : (machine cfg users ex n).Run tr l) :
    (∀ e ∈ tr, e.act.meets (Timely cfg ex n e.pre.broker)) → Synced ex n l := by
  induction h with
  | nil => exact fun _ => .init users
  | @snoc tr s s' a o hr hs ih =>
    intro hC
    have hsync := ih fun e he => hC e (List.mem_append_left _ he)
    have hlast := hC _ (List.mem_append_right _ (List.mem_singleton_self _))
    cases a with
    | broker a => exact hsync.step (.of_run hr) hs hlast
    | recv =>
      change Link.step cfg ex n s .recv = _ at hs
      obtain ⟨hb, hv, -⟩ := step_recv hs
      have hv' := Fifo.view_recv hv
      exact ⟨by rw [hb, hv']; exact hsync.agree, by rw [hv']; exact hsync.fresh, by
        rw [hb, hv']; exact hsync.greeted⟩

/-! ### Quiet states -/

/-- No write about a session to exit `ex` is pending: every session on it has
had its `MsgSessionStart`, nobody owes a `MsgSessionSuspend` or
`MsgSessionEnd`, and the stream is drained. -/
structure Quiet (ex : Conn) (l : State) : Prop where
  started : ∀ c, (l.broker.client c).ex = ex → (l.broker.client c).pc.phase = .holds →
    (l.broker.client c).pc.told = true
  owes : ∀ c, (l.broker.client c).ex = ex → (l.broker.client c).pc.owes = false
  timers : ∀ k, (l.broker.timer k).ex = some ex → (l.broker.timer k).pc ≠ .write
  drained : l.stream.pending = []

/-- The exit has exactly the broker's sessions whose `exitCW` is its writer,
and those suspended that the broker has parked. -/
structure SameSessions (ex : Conn) (b : Broker.State) (t : Exit.Tables) : Prop where
  keys : ∀ sid, sid ∈ t.sessions ↔ ∃ p, b.Live p ∧ (b.sess p).id = sid ∧ (b.sess p).exitCW = ex
  suspended : ∀ sid q, t.sessions.lookup sid = some q →
    ((t.es q).suspended = true ↔ ∃ k p, b.parked.lookup k = some p ∧ (b.sess p).id = sid)

section
variable (hj : Joint ex n l.broker) (hq : Quiet ex l)
include hj hq

theorem not_endOwed {p : Conn} (hn : (l.broker.sess p).nodeID = n) : ¬ endOwed l.broker p := by
  rintro (⟨c, hc, hs⟩ | ⟨k, hk, hs⟩)
  · have howes : (l.broker.client c).pc.owes = true := by rcases hc with hc | hc <;> rw [hc] <;> rfl
    have := hq.owes c ((runs_on hj.inv hj.up (Or.inr howes)).2 (by rw [hs, hn]))
    rw [howes] at this
    cases this
  · obtain ⟨-, -, -, r, hr, hreg⟩ := hj.duties.expired k hk
    obtain rfl : r = ex := (hj.up.registers hreg).2 (by rw [hs, hn])
    exact hq.timers k hr hk

/-- What is known of a session in `b.sessions`: it is active. -/
theorem standing_of_sessions (h : Agree n l.broker σ) {i : ℕ} {p : Conn}
    (hp : l.broker.sessions.lookup i = some p) (hn : (l.broker.sess p).nodeID = n) :
    σ (l.broker.sess p).id = some false := by
  have hrep := hj.inv.rep
  obtain ⟨hph, hs⟩ := hrep.holder i p hp
  have hex := (runs_on hj.inv hj.up (Or.inl hph)).2 (by rw [hs, hn])
  exact (h.fits p (hrep.made p (live_of_sessions hp)) hn).told _ (hq.started _ hex hph) hs

/-- What is known of a session in `b.parked`: it is suspended. -/
theorem standing_of_parked (h : Agree n l.broker σ) {k : String} {p : Conn}
    (hp : l.broker.parked.lookup k = some p) (hn : (l.broker.sess p).nodeID = n) :
    σ (l.broker.sess p).id = some true := by
  rw [(h.fits p (hj.inv.rep.made p (live_of_parked hp)) hn).parked k hp]
  refine congrArg some (decide_eq_true fun hpc => ?_)
  have howes : (l.broker.client (l.broker.sess p).clientConn).pc.owes = true := by rw [hpc]; rfl
  have hex := (runs_on hj.inv hj.up (Or.inr howes)).2 (by rw [(hj.duties.last k p hp).2, hn])
  rw [hq.owes _ hex] at howes
  cases howes

theorem sameSessions_of_agree {t : Exit.Tables} (h : Agree n l.broker (standing t)) :
    SameSessions ex l.broker t := by
  have hrep := hj.inv.rep
  have hex : ∀ p, l.broker.Made p →
      ((l.broker.sess p).exitCW = ex ↔ (l.broker.sess p).nodeID = n) := fun p hp => by
    rw [(hj.inv.attach.writers p hp).1]
    exact hj.up.registers (hj.inv.attach.sess p hp)
  -- a session the exit knows is alive: otherwise its end is owed or was read
  have hknown : ∀ sid q, t.sessions.lookup sid = some q → ∃ p, l.broker.Live p ∧
      (l.broker.sess p).id = sid ∧ (l.broker.sess p).nodeID = n := by
    intro sid q hq'
    have hne : standing t sid ≠ none := by simp [standing, hq']
    obtain ⟨p, hp, rfl, hn⟩ := h.known sid hne
    refine ⟨p, ?_, rfl, hn⟩
    by_contra hdead
    exact ((h.fits p hp hn).gone hdead).elim (not_endOwed hj hq hn) hne
  refine ⟨fun sid => ⟨fun hsid => ?_, ?_⟩, fun sid q hsid => ⟨fun hsusp => ?_, ?_⟩⟩
  · obtain ⟨q, hq'⟩ := Option.isSome_iff_exists.mp (AList.lookup_isSome.mpr hsid)
    obtain ⟨p, hp, hid, hn⟩ := hknown sid q hq'
    exact ⟨p, hp, hid, (hex p (hrep.made p hp)).2 hn⟩
  · rintro ⟨p, hp, rfl, hcw⟩
    have hn := (hex p (hrep.made p hp)).1 hcw
    have hne : standing t (l.broker.sess p).id ≠ none := by
      rcases hp with ⟨i, hi⟩ | ⟨k, hk⟩
      · rw [standing_of_sessions hj hq h hi hn]; simp
      · rw [standing_of_parked hj hq h hk hn]; simp
    rw [← AList.lookup_isSome, Option.isSome_iff_ne_none]
    intro hno
    exact hne (by simp [standing, hno])
  · obtain ⟨p, hp, rfl, hn⟩ := hknown sid q hsid
    rcases hp with ⟨i, hi⟩ | ⟨k, hk⟩
    · have := standing_of_sessions hj hq h hi hn
      simp [standing, hsid, hsusp] at this
    · exact ⟨k, p, hk, rfl⟩
  · rintro ⟨k, p, hk, rfl⟩
    obtain ⟨p', -, hid, hn⟩ := hknown _ q hsid
    obtain rfl := hrep.id_inj p p' (hrep.made p (live_of_parked hk)) hid.symm
    have := standing_of_parked hj hq h hk hn
    simpa [standing, hsid] using this

end

/-- `Quiet`, checked for the first `N` connections. -/
def QuietBelow (N : ℕ) (ex : Conn) (l : State) : Prop :=
  (∀ c < N, (l.broker.client c).ex = ex → ((l.broker.client c).pc.phase = .holds →
    (l.broker.client c).pc.told = true) ∧ (l.broker.client c).pc.owes = false) ∧
  (∀ k < l.broker.nextTimer, (l.broker.timer k).pc ≠ .write) ∧ l.stream.pending = []

instance (N : ℕ) (ex : Conn) (l : State) : Decidable (QuietBelow N ex l) :=
  inferInstanceAs (Decidable (_ ∧ _ ∧ _))

theorem quiet_of_few {N : ℕ} (h : (machine cfg users ex n).Run tr l)
    (hC : ∀ e ∈ tr, e.act.meets (Few N)) (hq : QuietBelow N ex l) : Quiet ex l := by
  obtain ⟨hclient, htimer, hdrained⟩ := hq
  refine ⟨fun c hc hph => ?_, fun c hc => ?_, fun k _ hk => ?_, hdrained⟩
  · rcases lt_or_ge c N with hcN | hcN
    · exact (hclient c hcN hc).1 hph
    · rw [idle_of_few h hC hcN] at hph
      cases hph
  · rcases lt_or_ge c N with hcN | hcN
    · exact (hclient c hcN hc).2
    · rw [idle_of_few h hC hcN]
      rfl
  · rcases lt_or_ge k l.broker.nextTimer with hkN | hkN
    · exact htimer k hkN hk
    · rw [(Joint.of_run h).inv.timers k hkN] at hk
      cases hk

theorem inOrder_of_few {N : ℕ} (h : (machine cfg users ex n).Run tr l)
    (hC : ∀ e ∈ tr, e.act.meets (Few N)) (hone : ∀ e ∈ tr, OneWriter N e.pre.broker) :
    ∀ e ∈ tr, e.act.meets (InOrder ex e.pre.broker) := by
  refine meets_of_forall fun e he a ha => ?_
  cases a with
  | client c i =>
    intro hpc _ d hd
    have := (oneWriter_of_few h hC hone he hpc).1 d
    rw [hd] at this
    cases this
  | _ => trivial

/-- **In a run whose steps are all timely, the exit and the broker agree
whenever no write is pending and the exit has read everything.** -/
theorem agree_of_timely (h : (machine cfg users ex n).Run tr l)
    (hC : ∀ e ∈ tr, e.act.meets (Timely cfg ex n e.pre.broker)) (hq : Quiet ex l) :
    SameSessions ex l.broker l.stream.reader.toTables := by
  have hsync := Synced.of_run h hC
  rw [← Fifo.view_drained Reader.read hq.drained]
  exact sameSessions_of_agree (.of_run h) hq hsync.agree

/-- One session is parked and resumed, one is parked, one is closed. -/
theorem agree_of_timely_three : ∃ tr l, (machine {} aliceStore 0 "e1").Run tr l ∧ Quiet 0 l ∧
    l.broker.sessions.lookup 1 = some 1 ∧ l.broker.parked.lookup "j" = some 3 ∧
    SameSessions 0 l.broker l.stream.reader.toTables := by
  obtain ⟨tr, l, hr, hfew, hone, hset, hq, h1, h3⟩ := (machine {} aliceStore 0 "e1").exists_run
    (script (.register 0 (node "e1" "us" 0) :: .exit 0 true :: joins 1 (aliceConnect "us" "k") ++
      [.drop 1 .other, .client 1 {}, .client 1 {}] ++ rejoins 2 (aliceConnect "us" "k") ++
      joins 3 (aliceConnect "us" "j") ++ [.drop 3 .other, .client 3 {}, .client 3 {}] ++
      joins 4 (aliceConnect "us" "") ++ [.drop 4 .other, .client 4 {}, .client 4 {}]) 8)
    (P := fun r => (∀ e ∈ r.1, e.act.meets (Few 5)) ∧ (∀ e ∈ r.1, OneWriter 5 e.pre.broker) ∧
      (∀ e ∈ r.1, e.act.meets (Settled {} 0 "e1" e.pre.broker)) ∧ QuietBelow 5 0 r.2 ∧
      r.2.broker.sessions.lookup 1 = some 1 ∧ r.2.broker.parked.lookup "j" = some 3)
    (by decide +kernel)
  have hq' := quiet_of_few hr hfew hq
  refine ⟨tr, l, hr, hq', h1, h3, agree_of_timely hr (fun e he => ?_) hq'⟩
  have hord := inOrder_of_few hr hfew hone e he
  have hset := hset e he
  revert hord hset
  cases e.act with
  | broker a => exact And.intro
  | recv => exact fun _ _ => trivial

/-- A client resumes the session before the goroutine that parked it has
written. The exit reads `MsgSessionStart` and then `MsgSessionSuspend`: it
has an active session suspended. -/
theorem late_suspend_disagrees : ∃ tr l, (machine {} aliceStore 0 "e1").Run tr l ∧ Quiet 0 l ∧
    ¬ SameSessions 0 l.broker l.stream.reader.toTables := by
  obtain ⟨tr, l, hr, hfew, hq, hpark, q, hsid, hsusp⟩ := (machine {} aliceStore 0 "e1").exists_run
    (script (.register 0 (node "e1" "us" 0) :: .exit 0 true :: joins 1 (aliceConnect "us" "k") ++
      [.drop 1 .other, .client 1 {}] ++ rejoins 2 (aliceConnect "us" "k") ++ [.client 1 {}]) 4)
    (P := fun r => (∀ e ∈ r.1, e.act.meets (Few 3)) ∧ QuietBelow 3 0 r.2 ∧
      r.2.broker.parked.entries = [] ∧
      ∃ q ∈ r.2.stream.reader.sessions.lookup 1, (r.2.stream.reader.es q).suspended = true)
    (by decide +kernel)
  refine ⟨tr, l, hr, quiet_of_few hr hfew hq, fun h => ?_⟩
  obtain ⟨k, p, hk, -⟩ := (h.suspended 1 q hsid).1 hsusp
  rw [← GoMap.mem_entries, hpark] at hk
  cases hk

end
end Link
end Revquic
