/-
# The tracker follows the sessions

`qos.Connect` is called once for a session, after it has been inserted, and
`qos.Disconnect` once, after it has been torn down or has expired. Two ways
out of the maps have no `Disconnect`: a session whose `MsgSessionStart` could
not be written is removed by `endSession`, which does not call it, and a
parked session that another one replaces under its key is dropped without a
trace. In a run without these two, the tracker holds the sessions of
`b.sessions` and `b.parked`, and the history has one connect and one
disconnect event for each that is gone.

Key definitions: `Owed`, `StartFails`, `Debts`, `TrackMove`, `Tracks`.
Key theorem: `tracker_follows`.
-/
import Revquic.Broker.Books
import Revquic.Broker.Duties
import Revquic.Broker.Rest

namespace Revquic
namespace Broker

open Lib Netip Ippool Proto

/-- How many events of a kind the history has for a session. -/
def events (t : Qos.Tracker) (kind : Qos.Kind) (k : String) : ℕ :=
  t.store.countP fun ev => decide (ev.kind = kind ∧ ev.sessionID = k)

namespace State

variable (b : State)

/-- The tracker's name for a session. -/
def key (p : Conn) : String := toString (b.sess p).id

/-- The session is in the maps and not yet in the tracker. -/
def Fresh (p : Conn) : Prop :=
  (b.client p).pc.stage = .inserted ∨ (b.client p).pc.stage = .counted

instance (p : Conn) : Decidable (b.Fresh p) := inferInstanceAs (Decidable (_ ∨ _))

/-- A goroutine or a timer owes the session its `Disconnect`. -/
def Owed (p : Conn) : Prop :=
  (∃ c, (b.client c).pc.stage = .closing ∧ (b.client c).s = p) ∨
    ∃ k, (b.timer k).pc.stage = .closing ∧ (b.timer k).s = p

/-- The session is in the maps, or is owed its `Disconnect`. -/
def Open (p : Conn) : Prop := b.Live p ∨ b.Owed p

end State

/-- The step is a `MsgSessionStart` that cannot be written. -/
def StartFails (b : State) : Action → Prop
  | .client c i => (b.client c).pc = .start ∧ i.ok = false
  | _ => False

instance (b : State) : DecidablePred (StartFails b)
  | .client _ _ => inferInstanceAs (Decidable (_ ∧ _))
  | .tick _ | .users _ | .connect _ _ | .drop _ _ | .clientCtrl _ _ _ | .register _ _ | .exit _ _
  | .exitCtrl _ _ _ | .exitGone _ | .datagram _ _ | .fire _ | .timer _ _ => isFalse id

section
variable {cfg : Config} {users : Userstore.Table} {b b' : State} {a : Action} {o : List Out}
  {tr : List (Event State Action Out)}

/-! ### What a step does to the stages -/

/-- A session is fresh if it was, or has just been inserted. -/
theorem Books.fresh (h : Books cfg b a b' o) {d : Conn} (hd : b'.Fresh d) :
    (b.Fresh d ∧ (b'.client d).s = (b.client d).s ∧ (b'.client d).sid = (b.client d).sid) ∨
      (b.client d).pc = .allocated ∧ b' = insertSession b d := by
  rcases h.goroutine d with ⟨hst, hs⟩ | ⟨i, -, entry⟩
  · unfold State.Fresh at hd
    rw [hst] at hd
    obtain ⟨h1, -, h3⟩ := hs (by rcases hd with h | h <;> rw [h] <;> decide)
    exact Or.inl ⟨hd, h1, h3⟩
  · cases entry with
    | insert hpc => exact Or.inr ⟨hpc, rfl⟩
    | count pc' hpc =>
      rcases hpc with ⟨hpc, rfl⟩ | ⟨-, rfl⟩
      · refine Or.inl ⟨Or.inl (by rw [hpc]; rfl), ?_, ?_⟩ <;> simp
      · simp [State.Fresh, ClientPC.stage] at hd
    | close pc' hpc =>
      rcases hpc with ⟨-, rfl⟩ | ⟨-, rfl⟩ <;> simp [State.Fresh, ClientPC.stage] at hd
    | _ => simp [State.Fresh, ClientPC.stage] at hd

/-- A fresh session stays so until it is connected. -/
theorem Books.settle (h : Books cfg b a b' o) {d : Conn} (hd : b.Fresh d) :
    b'.Fresh d ∨ (b.client d).pc = .counted ∧ ∃ i, a = .client d i := by
  rcases h.goroutine d with ⟨hst, -⟩ | ⟨i, rfl, entry⟩
  · unfold State.Fresh
    rw [hst]
    exact Or.inl hd
  · have hpc : ∀ pc, (b.client d).pc = pc → pc = .inserted ∨ pc = .counted := by
      rintro pc rfl
      unfold State.Fresh at hd
      revert hd
      cases (b.client d).pc <;> simp [ClientPC.stage]
    cases entry with
    | count pc' hq =>
      refine Or.inl (Or.inr ?_)
      rcases hq with ⟨-, rfl⟩ | ⟨hq, -⟩
      · simp [ClientPC.stage]
      · simpa using hpc _ hq
    | connect hq => exact Or.inr ⟨hq, i, rfl⟩
    | park hq => simpa using hpc _ hq.1
    | close pc' hq => rcases hq with ⟨hq, -⟩ | ⟨hq, -⟩ <;> simpa using hpc _ hq
    | vanish hq => rcases hq with hq | hq <;> simpa using hpc _ hq
    | insert hq | fail hq | announce hq | disconnect hq | bye hq => simpa using hpc _ hq

/-- A goroutine owes a `Disconnect` if it did, or has just torn its session
down. -/
theorem Books.closing (h : Books cfg b a b' o) {d : Conn}
    (hd : (b'.client d).pc.stage = .closing) :
    ((b.client d).pc.stage = .closing ∧ (b'.client d).s = (b.client d).s) ∨
      (b.client d).pc = .dropped ∧ b' = closeState b d .closed := by
  rcases h.goroutine d with ⟨hst, hs⟩ | ⟨i, -, entry⟩
  · rw [hst] at hd
    exact Or.inl ⟨hd, (hs (by rw [hd]; decide)).1⟩
  · cases entry with
    | close pc' hpc =>
      rcases hpc with ⟨hpc, rfl⟩ | ⟨-, rfl⟩
      · exact Or.inr ⟨hpc, rfl⟩
      · simp [ClientPC.stage] at hd
    | count pc' hpc =>
      rcases hpc with ⟨-, rfl⟩ | ⟨-, rfl⟩ <;> simp [ClientPC.stage] at hd
    | _ => simp [ClientPC.stage] at hd

/-- A goroutine fails to start a session if it did, or if the write has just
failed. -/
theorem Books.failing (h : Books cfg b a b' o) {d : Conn}
    (hd : (b'.client d).pc.stage = .failing) :
    (b.client d).pc.stage = .failing ∨ StartFails b a := by
  rcases h.goroutine d with ⟨hst, -⟩ | ⟨i, rfl, entry⟩
  · exact Or.inl (hst ▸ hd)
  · cases entry with
    | fail hpc hok => exact Or.inr ⟨hpc, hok⟩
    | close pc' hpc | count pc' hpc =>
      rcases hpc with ⟨-, rfl⟩ | ⟨-, rfl⟩ <;> simp [ClientPC.stage] at hd
    | _ => simp [ClientPC.stage] at hd

/-- A timer owes a `Disconnect` if it did, or has just expired a session. -/
theorem Books.expiring (h : Books cfg b a b' o) (ht : TimersBelow b) {k : ℕ}
    (hk : (b'.timer k).pc.stage = .closing) :
    ((b.timer k).pc.stage = .closing ∧ (b'.timer k).s = (b.timer k).s ∧
      (b'.timer k).sid = (b.timer k).sid) ∨
      ∃ p, b.parked.lookup (b.timer k).resumeKey = some p ∧ (b.sess p).id = (b.timer k).sid ∧
        b' = expireState b k p := by
  rcases h.callback ht k with ⟨hst, hs⟩ | ⟨ok, -, entry⟩
  · rw [hst] at hk
    exact Or.inl ⟨hk, hs (by rw [hk]; decide)⟩
  · cases entry with
    | expire p _ hf hid => exact Or.inr ⟨p, hf, hid, rfl⟩
    | disconnect | bye => simp [TimerPC.stage] at hk

/-- A goroutine owes its `Disconnect` until it calls it. -/
theorem Books.debtor (h : Books cfg b a b' o) {d : Conn}
    (hd : (b.client d).pc.stage = .closing) :
    ((b'.client d).pc.stage = .closing ∧ (b'.client d).s = (b.client d).s ∧
      (b'.client d).ex = (b.client d).ex) ∨
      (b.client d).pc = .disconnect ∧ ∃ i, a = .client d i := by
  rcases h.goroutine d with ⟨h1, h2⟩ | ⟨i, rfl, entry⟩
  · obtain ⟨hs, hex, -⟩ := h2 (by rw [hd]; decide)
    exact Or.inl ⟨by rw [h1, hd], hs, hex⟩
  · have hpc : ∀ pc, (b.client d).pc = pc → pc = .closed ∨ pc = .disconnect := by
      rintro pc rfl
      revert hd
      cases (b.client d).pc <;> simp [ClientPC.stage]
    cases entry with
    | disconnect hq => exact Or.inr ⟨hq, i, rfl⟩
    | count pc' hq | close pc' hq => rcases hq with ⟨hq, -⟩ | ⟨hq, -⟩ <;> simpa using hpc _ hq
    | park hq => simpa using hpc _ hq.1
    | vanish hq => rcases hq with hq | hq <;> simpa using hpc _ hq
    | insert hq | connect hq | fail hq | announce hq | bye hq => simpa using hpc _ hq

/-- A session keeps its debtor until it is disconnected. -/
theorem Books.owed (h : Books cfg b a b' o) (ht : TimersBelow b) {p : Conn} (hp : b.Owed p) :
    b'.Owed p ∨
      (∃ c i, a = .client c i ∧ (b.client c).pc = .disconnect ∧ (b.client c).s = p) ∨
      ∃ k ok, a = .timer k ok ∧ (b.timer k).pc = .disconnect ∧ (b.timer k).s = p := by
  rcases hp with ⟨d, hd, hs⟩ | ⟨k, hk, hs⟩
  · rcases h.debtor hd with ⟨h1, h2, -⟩ | ⟨hpc, i, ha⟩
    · exact Or.inl (Or.inl ⟨d, h1, by rw [h2, hs]⟩)
    · exact Or.inr (Or.inl ⟨d, i, ha, hpc, hs⟩)
  · rcases h.callback ht k with ⟨h1, h2⟩ | ⟨ok, rfl, entry⟩
    · exact Or.inl (Or.inr ⟨k, by rw [h1, hk], by rw [(h2 (by rw [hk]; decide)).1, hs]⟩)
    · cases entry with
      | expire q hq => rw [hq] at hk; cases hk
      | disconnect hq => exact Or.inr (Or.inr ⟨k, ok, rfl, hq, hs⟩)
      | bye hq => rw [hq] at hk; cases hk

/-! ### Debts -/

theorem Fresh.holds {c : Conn} (h : b.Fresh c) : (b.client c).pc.phase = .holds := by
  unfold State.Fresh at h
  revert h
  cases (b.client c).pc <;> simp [ClientPC.stage, ClientPC.phase]

/-- A session that is not in the tracker yet is run by the goroutine that
made it. -/
def Newborn (b : State) : Prop :=
  ∀ c, b.Fresh c → (b.client c).s = c ∧ (b.client c).sid = (b.sess c).id

theorem Newborn.live (h : Newborn b) (hrep : Rep b) {c : Conn} (hc : b.Fresh c) : b.Live c := by
  have hl := live_of_sessions (hrep.held c (Fresh.holds hc)).1
  rwa [(h c hc).1] at hl

theorem Newborn.step (h : Newborn b) (hrep : Rep b) (hs : step cfg b a = some (b', o)) :
    Newborn b' := by
  intro c hc
  rcases (books_of_step hs).fresh hc with ⟨hold, h1, h2⟩ | ⟨-, rfl⟩
  · have hst := (step_move hs).static hrep (hrep.made c (h.live hrep hold))
    rw [h1, h2, hst.id]
    exact h c hold
  · rw [insertSession_sess_self]
    simp [newSession]

theorem Newborn.of_run (h : (machine cfg users).Run tr b) : Newborn b := by
  refine (h.invariant (I := fun b => Rep b ∧ Newborn b) ⟨Rep.init users, ?_⟩ ?_).2
  · rintro c (h | h) <;> cases h
  · rintro s a s' o ⟨hr, hn⟩ hs
    exact ⟨hr.move (step_move hs), hn.step hr hs⟩

/-- What the goroutines and timers know of the sessions they keep the books
of. -/
structure Debts (b : State) : Prop where
  fresh : ∀ c, b.Fresh c → (b.client c).s = c ∧ (b.client c).sid = (b.sess c).id
  failing : ∀ c, (b.client c).pc.stage ≠ .failing
  closing : ∀ c, (b.client c).pc.stage = .closing →
    b.Made (b.client c).s ∧ ¬ b.Live (b.client c).s
  expired : ∀ k, (b.timer k).pc.stage = .closing →
    b.Made (b.timer k).s ∧ ¬ b.Live (b.timer k).s ∧ (b.timer k).sid = (b.sess (b.timer k).s).id

theorem Debts.init (users : Userstore.Table) : Debts (newBroker users) := by
  refine ⟨?_, ?_, ?_, ?_⟩
  · rintro c (h | h) <;> cases h
  · intro c h; cases h
  · intro c h; cases h
  · intro k h; cases h

theorem Debts.step (h : Debts b) (hinv : Inv b) (hs : step cfg b a = some (b', o))
    (hfail : ¬ StartFails b a) : Debts b' := by
  have hm := step_move hs
  have hb := books_of_step hs
  have hrep := hinv.rep
  refine ⟨fun c hc => ?_, fun c hc => ?_, fun c hc => ?_, fun k hk => ?_⟩
  · exact Newborn.step h.fresh hrep hs c hc
  · exact (hb.failing hc).elim (h.failing c) hfail
  · rcases hb.closing hc with ⟨hold, h1⟩ | ⟨hpc, rfl⟩
    · obtain ⟨hmade, hdead⟩ := h.closing c hold
      rw [h1]
      exact ⟨made_of_move hrep hm hmade, dead_of_move hrep hm hmade hdead⟩
    · have hph : (b.client c).pc.phase = .holds := by rw [hpc]; rfl
      have hself : ((closeState b c .closed).client c).s = (b.client c).s := by
        simp
      rw [hself]
      exact ⟨made_of_move hrep hm (hrep.made _ (live_of_sessions (hrep.held c hph).1)),
        fun hl => ((hrep.live_close hph _).1 hl).2 rfl⟩
  · rcases hb.expiring hinv.timers hk with ⟨hold, h1, h2⟩ | ⟨p, hf, hid, rfl⟩
    · obtain ⟨hmade, hdead, hsid⟩ := h.expired k hold
      rw [h1, h2, (hm.static hrep hmade).id]
      exact ⟨made_of_move hrep hm hmade, dead_of_move hrep hm hmade hdead, hsid⟩
    · have ht : ((expireState b k p).timer k).s = p ∧
          ((expireState b k p).timer k).sid = (b.timer k).sid := by
        constructor <;> simp
      rw [ht.1, ht.2]
      exact ⟨hrep.made p (live_of_parked hf), fun hl => ((hrep.live_expire hf p).1 hl).2 rfl,
        hid.symm⟩

/-! ### What a step does to the tracker -/

/-- Everything a step can do to the tracker's sessions, in a run without lost
sessions. -/
inductive TrackMove (b b' : State) : Prop
  /-- No session enters or leaves the tracker. -/
  | keep (qos : Aside b.qos b'.qos) (made : ∀ p, b'.Made p → b.Made p)
      (fresh : ∀ p, b.Made p → (b'.Fresh p ↔ b.Fresh p)) (still : ∀ p, b.Open p → b'.Open p)
  /-- A session is inserted. -/
  | insert (c : Conn) (pc : (b.client c).pc = .allocated) (eq : b' = insertSession b c)
  /-- A session is connected. -/
  | connect (c : Conn) (nodeID region username : String) (startedAt : ℕ)
      (qos : b'.qos = b.qos.connect (b.key c) nodeID region username startedAt b.now)
      (made : ∀ p, b'.Made p → b.Made p) (live : b.Live c) (self : b.Fresh c)
      (fresh : ∀ p, b.Made p → (b'.Fresh p ↔ b.Fresh p ∧ p ≠ c))
      (still : ∀ p, b.Open p → b'.Open p)
  /-- A session is disconnected. -/
  | disconnect (p : Conn) (dead : b.Made p ∧ ¬ b.Live p) (settled : ¬ b.Fresh p)
      (qos : b'.qos = b.qos.disconnect (b.key p) b.now) (made : ∀ q, b'.Made q → b.Made q)
      (fresh : ∀ q, b.Made q → (b'.Fresh q ↔ b.Fresh q))
      (still : ∀ q, q ≠ p → b.Open q → b'.Open q)

/-- `fmt.Sprintf("%d")` tells numbers apart. -/
theorem toString_inj {m n : ℕ} (h : toString m = toString n) : m = n := by
  rw [Nat.toString_eq_ofList_toDigits, Nat.toString_eq_ofList_toDigits] at h
  have hdigits := congrArg (Nat.ofDigitChars 10 · 0) (String.ofList_injective h)
  simpa only [Nat.ofDigitChars_ten_toDigits] using hdigits

theorem key_of_move (hrep : Rep b) (hm : Move cfg b a b' o) {p : Conn} (hp : b.Made p) :
    b'.key p = b.key p := by
  unfold State.key
  rw [(hm.static hrep hp).id]

/-- The tracker tells sessions apart. -/
theorem key_inj (hrep : Rep b) {p q : Conn} (hp : b.Made p) (h : b.key p = b.key q) : p = q :=
  hrep.id_inj p q hp (toString_inj h)

/-- A session that is there stays fresh or not, its `Connect` aside. -/
theorem Books.fresh_iff (hb : Books cfg b a b' o) (hrep : Rep b) {p : Conn} (hp : b.Made p)
    (hcon : ¬ ((b.client p).pc = .counted ∧ ∃ i, a = .client p i)) :
    b'.Fresh p ↔ b.Fresh p := by
  constructor
  · intro h
    rcases hb.fresh h with ⟨h, -⟩ | ⟨hpc, -⟩
    · exact h
    · exact absurd hp (hrep.not_made (by rw [hpc]; simp [ClientPC.born, ClientPC.phase]))
  · intro h
    exact (hb.settle h).resolve_right hcon

/-- A session in the maps stays there, or is owed its `Disconnect`; one that
is owed it stays so until it is disconnected. -/
theorem open_of_step (hinv : Inv b) (hd : Debts b) (hs : step cfg b a = some (b', o))
    (hno : ¬ Overwrites cfg b a) {p : Conn} (hp : b.Open p) :
    b'.Open p ∨
      (∃ c i, a = .client c i ∧ (b.client c).pc = .disconnect ∧ (b.client c).s = p) ∨
      ∃ k ok, a = .timer k ok ∧ (b.timer k).pc = .disconnect ∧ (b.timer k).s = p := by
  rcases hp with hp | hp
  · refine Or.inl ?_
    by_cases hp' : b'.Live p
    · exact Or.inl hp'
    · refine Or.inr ?_
      cases (step_move hs).dies hinv.rep hp hp' with
      | closed c pc' heq hsp hpc =>
        rcases hpc with ⟨-, rfl⟩ | ⟨hpc, -⟩
        · refine Or.inl ⟨c, ?_, ?_⟩ <;> rw [heq] <;>
            simp [ClientPC.stage, hsp]
        · exact absurd (by rw [hpc]; rfl) (hd.failing c)
      | expired k heq =>
        refine Or.inr ⟨k, ?_, ?_⟩
        · rw [heq]
          simp only [expireState_timer, Function.update_self]
          split <;> rfl
        · rw [heq]
          simp
      | overwritten c i act heq hparks hkey =>
        subst act
        exact absurd ⟨hparks, by rw [hkey]; simp⟩ hno
  · exact ((books_of_step hs).owed hinv.timers hp).imp_left Or.inr

theorem trackMove_of_step (hinv : Inv b) (hd : Debts b) (hs : step cfg b a = some (b', o))
    (hno : ¬ Overwrites cfg b a) : TrackMove b b' := by
  have hb := books_of_step hs
  have hrep := hinv.rep
  by_cases hins : ∃ c, (b.client c).pc = .allocated ∧ b' = insertSession b c
  · obtain ⟨c, hpc, rfl⟩ := hins
    exact .insert c hpc rfl
  have hmade : ∀ p, b'.Made p → b.Made p := fun p hp =>
    ((step_move hs).made hp).resolve_right fun h => hins ⟨p, h.2⟩
  have hopen := fun p => open_of_step hinv hd hs hno (p := p)
  by_cases hcon : ∃ c i, a = .client c i ∧ (b.client c).pc = .counted
  · obtain ⟨c, i, rfl, hpc⟩ := hcon
    have hself : b.Fresh c := Or.inr (by rw [hpc]; rfl)
    have heq : b' = { (b.goto c .start) with
        qos := b.qos.connect (toString (b.client c).sid) (b.node (b.client c).ex).nodeID
          (b.node (b.client c).ex).region (b.client c).user.username
          (b.sess (b.client c).s).startedAt b.now } := by
      simp only [step, clientStep, hpc, Option.some.injEq, Prod.mk.injEq] at hs
      exact hs.1.symm
    refine .connect c _ _ _ _ (by rw [heq, (hd.fresh c hself).2]; rfl) hmade
      (Newborn.live hd.fresh hrep hself) hself (fun p hp => ?_)
      fun p hp => (hopen p hp).resolve_right ?_
    · by_cases hpc' : p = c
      · rw [heq, hpc']
        simp [State.Fresh, ClientPC.stage]
      · rw [hb.fresh_iff hrep hp (by rintro ⟨-, j, hj⟩; cases hj; exact hpc' rfl)]
        exact ⟨fun h => ⟨h, hpc'⟩, And.left⟩
    · rintro (⟨d, j, hj, hd, -⟩ | ⟨k, ok, hk, -⟩)
      · cases hj
        rw [hpc] at hd
        cases hd
      · cases hk
  have hfresh : ∀ p, b.Made p → (b'.Fresh p ↔ b.Fresh p) := fun p hp =>
    hb.fresh_iff hrep hp (by rintro ⟨hpc, i, ha⟩; exact hcon ⟨p, i, ha, hpc⟩)
  by_cases hdis : ∃ c i, a = .client c i ∧ (b.client c).pc = .disconnect
  · obtain ⟨c, i, rfl, hpc⟩ := hdis
    have hdead := hd.closing c (by rw [hpc]; rfl)
    refine .disconnect (b.client c).s hdead (fun hf => hdead.2 (Newborn.live hd.fresh hrep hf)) ?_ hmade hfresh
      fun q hq hp => (hopen q hp).resolve_right ?_
    · simp only [step, clientStep, hpc, Option.some.injEq, Prod.mk.injEq] at hs
      rw [← hs.1]
      rfl
    · rintro (⟨d, j, hj, -, hdq⟩ | ⟨k, ok, hk, -⟩)
      · cases hj
        exact hq hdq.symm
      · cases hk
  by_cases hdisT : ∃ k ok, a = .timer k ok ∧ (b.timer k).pc = .disconnect
  · obtain ⟨k, ok, rfl, hpc⟩ := hdisT
    obtain ⟨hm, hl, hsid⟩ := hd.expired k (by rw [hpc]; rfl)
    refine .disconnect (b.timer k).s ⟨hm, hl⟩ (fun hf => hl (Newborn.live hd.fresh hrep hf)) ?_ hmade hfresh
      fun q hq hp => (hopen q hp).resolve_right ?_
    · simp only [step, timerStep, hpc, Option.some.injEq, Prod.mk.injEq] at hs
      rw [← hs.1, State.key, ← hsid]
    · rintro (⟨d, j, hj, -⟩ | ⟨j, ok', hj, -, hjq⟩)
      · cases hj
      · cases hj
        exact hq hjq.symm
  refine .keep ?_ hmade hfresh fun p hp => (hopen p hp).resolve_right ?_
  · cases hb with
    | quiet qos => exact qos
    | client c i entry =>
      cases entry with
      | connect hpc => exact absurd ⟨c, i, rfl, hpc⟩ hcon
      | disconnect hpc => exact absurd ⟨c, i, rfl, hpc⟩ hdis
      | _ => exact .refl _
    | timer k ok entry =>
      cases entry with
      | disconnect hpc => exact absurd ⟨k, ok, rfl, hpc⟩ hdisT
      | _ => exact .refl _
    | _ => exact .refl _
  · rintro (⟨c, i, ha, hpc, -⟩ | ⟨k, ok, ha, hpc, -⟩)
    · exact hdis ⟨c, i, ha, hpc⟩
    · exact hdisT ⟨k, ok, ha, hpc⟩

/-- What the tracker holds it held before, or it has just been connected;
what has just been disconnected it does not hold. -/
theorem tracked_of_step (hs : step cfg b a = some (b', o)) {k : String}
    (hk : k ∈ b'.qos.sessions) :
    (k ∈ b.qos.sessions ∧ ∀ c i, a = .client c i → (b.client c).pc = .disconnect →
      k ≠ b.key (b.client c).s) ∨
      ∃ c i, a = .client c i ∧ (b.client c).pc = .counted ∧ k = toString (b.client c).sid := by
  by_cases hdis : ∃ c i, a = .client c i ∧ (b.client c).pc = .disconnect
  · obtain ⟨c, i, rfl, hpc⟩ := hdis
    simp only [step, clientStep, hpc, Option.some.injEq, Prod.mk.injEq] at hs
    rw [← hs.1] at hk
    obtain ⟨hne, hk⟩ := (Qos.Tracker.mem_disconnect_sessions k).mp hk
    refine Or.inl ⟨hk, fun d j hj _ => ?_⟩
    obtain ⟨rfl, -⟩ := Action.client.inj hj
    exact hne
  · have hold : k ∈ b.qos.sessions → (k ∈ b.qos.sessions ∧ ∀ c i, a = .client c i →
        (b.client c).pc = .disconnect → k ≠ b.key (b.client c).s) :=
      fun h => ⟨h, fun c i ha hpc => absurd ⟨c, i, ha, hpc⟩ hdis⟩
    cases books_of_step hs with
    | quiet qos => exact Or.inl (hold ((qos.1 k).mp hk))
    | client c i entry =>
      cases entry with
      | connect hpc =>
        change k ∈ b.qos.sessions.insert _ _ at hk
        rw [AList.mem_insert] at hk
        rcases hk with rfl | hk
        · exact Or.inr ⟨c, i, rfl, hpc, rfl⟩
        · exact Or.inl (hold hk)
      | disconnect hpc => exact absurd ⟨c, i, rfl, hpc⟩ hdis
      | _ => exact Or.inl (hold hk)
    | timer j ok entry =>
      cases entry with
      | disconnect => exact Or.inl (hold ((Qos.Tracker.mem_disconnect_sessions k).mp hk).2)
      | _ => exact Or.inl (hold hk)
    | _ => exact Or.inl (hold hk)

/-! ### The history -/

theorem events_aside {t t' : Qos.Tracker} (h : Aside t t') {kind : Qos.Kind}
    (hk : kind = .connect ∨ kind = .disconnect) (k : String) :
    events t' kind k = events t kind k := by
  obtain ⟨-, evs, hevs, hkind⟩ := h
  unfold events
  rw [hevs, List.countP_append, Nat.add_eq_left, List.countP_eq_zero]
  intro ev hev
  obtain ⟨h1, h2⟩ := hkind ev hev
  simp only [decide_eq_true_eq, not_and]
  rintro rfl
  exact absurd hk (by simp [h1, h2])

theorem events_connect (t : Qos.Tracker) (k' n r u : String) (st ts : ℕ) (kind : Qos.Kind)
    (k : String) : events (t.connect k' n r u st ts) kind k =
      events t kind k + if .connect = kind ∧ k' = k then 1 else 0 := by
  unfold events
  simp only [Qos.Tracker.connect, Qos.Tracker.appendEvent, List.countP_append, List.countP_singleton,
    decide_eq_true_eq]

theorem events_disconnect (t : Qos.Tracker) (k' : String) (ts : ℕ) (kind : Qos.Kind) (k : String) :
    events (t.disconnect k' ts) kind k =
      events t kind k + if .disconnect = kind ∧ k' = k ∧ k' ∈ t.sessions then 1 else 0 := by
  unfold events Qos.Tracker.disconnect
  cases hk : t.sessions.lookup k' with
  | none =>
    have hmem : k' ∉ t.sessions := AList.lookup_eq_none.mp hk
    simp [hmem]
  | some ss =>
    have hmem : k' ∈ t.sessions := AList.lookup_isSome.mp (by rw [hk]; rfl)
    simp only [Qos.Tracker.appendEvent, List.countP_append, List.countP_singleton,
      decide_eq_true_eq, hmem, and_true]

/-! ### The invariant -/

/-- The tracker holds the open sessions that have been connected; the history
has one connect event for each of them, and one disconnect event for each
that has left the tracker. -/
structure Tracks (b : State) : Prop where
  live : ∀ p, b.Live p → ¬ b.Fresh p → b.key p ∈ b.qos.sessions
  known : ∀ k ∈ b.qos.sessions, ∃ p, b.Made p ∧ k = b.key p ∧ ¬ b.Fresh p ∧ b.Open p
  connects : ∀ p, b.Made p → events b.qos .connect (b.key p) = if b.Fresh p then 0 else 1
  pending : ∀ p, b.Made p → b.Fresh p ∨ b.key p ∈ b.qos.sessions →
    events b.qos .disconnect (b.key p) = 0
  disconnects : ∀ p, b.Made p → ¬ b.Fresh p → b.key p ∉ b.qos.sessions →
    events b.qos .disconnect (b.key p) = 1
  about : ∀ kind k, kind = .connect ∨ kind = .disconnect → events b.qos kind k ≠ 0 →
    ∃ p, b.Made p ∧ k = b.key p

theorem Tracks.init (users : Userstore.Table) : Tracks (newBroker users) := by
  refine ⟨?_, ?_, ?_, ?_, ?_, ?_⟩
  · exact fun p hp => absurd hp (not_live_newBroker users p)
  · intro k hk; exact absurd hk (AList.notMem_empty k)
  · exact fun p hp => absurd rfl hp
  · exact fun p hp => absurd rfl hp
  · exact fun p hp => absurd rfl hp
  · exact fun kind k _ h => absurd rfl h

namespace Tracks

/-- A session that is live after the step was there before it. -/
theorem live_before (hrep : Rep b) (hm : Move cfg b a b' o) (hmade : ∀ p, b'.Made p → b.Made p)
    {p : Conn} (hp : b'.Live p) : b.Live p := by
  have hbm := hmade p ((hrep.move hm).made p hp)
  refine (hrep.live_of_move hm hp).resolve_right fun hpc => ?_
  exact hrep.not_made (by rw [hpc]; simp [ClientPC.born, ClientPC.phase]) hbm

/-- Nothing enters or leaves the tracker. -/
theorem keep (h : Tracks b) (hrep : Rep b) (hm : Move cfg b a b' o) (qos : Aside b.qos b'.qos)
    (made : ∀ p, b'.Made p → b.Made p) (fresh : ∀ p, b.Made p → (b'.Fresh p ↔ b.Fresh p))
    (still : ∀ p, b.Open p → b'.Open p) : Tracks b' := by
  have hkey : ∀ p, b'.Made p → b'.key p = b.key p := fun p hp => key_of_move hrep hm (made p hp)
  have hev : ∀ {kind : Qos.Kind}, kind = .connect ∨ kind = .disconnect → ∀ k,
      events b'.qos kind k = events b.qos kind k := fun hk k => events_aside qos hk k
  refine ⟨fun p hp hf => ?_, fun k hk => ?_, fun p hp => ?_, fun p hp hk => ?_,
    fun p hp hf hk => ?_, fun kind k hk hne => ?_⟩
  · have hbm := made p ((hrep.move hm).made p hp)
    rw [key_of_move hrep hm hbm, qos.1]
    exact h.live p (live_before hrep hm made hp) (by rwa [← fresh p hbm])
  · obtain ⟨p, hp, rfl, hf, ho⟩ := h.known k ((qos.1 k).mp hk)
    exact ⟨p, made_of_move hrep hm hp, (key_of_move hrep hm hp).symm, by rwa [fresh p hp],
      still p ho⟩
  · rw [hkey p hp, hev (Or.inl rfl), h.connects p (made p hp)]
    simp only [fresh p (made p hp)]
  · rw [hkey p hp, qos.1, fresh p (made p hp)] at hk
    rw [hkey p hp, hev (Or.inr rfl)]
    exact h.pending p (made p hp) hk
  · rw [hkey p hp, qos.1] at hk
    rw [hkey p hp, hev (Or.inr rfl)]
    exact h.disconnects p (made p hp) (by rwa [← fresh p (made p hp)]) hk
  · rw [hev hk] at hne
    obtain ⟨p, hp, rfl⟩ := h.about kind k hk hne
    exact ⟨p, made_of_move hrep hm hp, (key_of_move hrep hm hp).symm⟩

/-- A session is inserted: the tracker has never heard of it. -/
theorem insert (h : Tracks b) (hrep : Rep b) {c : Conn} (hpc : (b.client c).pc = .allocated)
    (hm : Move cfg b a (insertSession b c) o) : Tracks (insertSession b c) := by
  have hnm : ¬ b.Made c := hrep.not_made (by rw [hpc]; simp [ClientPC.born, ClientPC.phase])
  have hself : (insertSession b c).Fresh c := by
    simp [State.Fresh, ClientPC.stage]
  have hkc : (insertSession b c).key c = toString (b.client c).sid := by
    rw [State.key, insertSession_sess_self]
    rfl
  have hother : ∀ p, p ≠ c → ((insertSession b c).Made p ↔ b.Made p) ∧
      (insertSession b c).key p = b.key p ∧ ((insertSession b c).Fresh p ↔ b.Fresh p) := by
    intro p hp
    refine ⟨?_, ?_, ?_⟩
    · rw [State.Made, State.Made, insertSession_sess_of_ne hp]
    · rw [State.key, State.key, insertSession_sess_of_ne hp]
    · unfold State.Fresh
      change (Function.update b.client c _ p).pc.stage = _ ∨
        (Function.update b.client c _ p).pc.stage = _ ↔ _
      rw [Function.update_of_ne hp]
  -- the id was drawn for this session and is nobody else's
  have hnew : ∀ p, b.key p ≠ toString (b.client c).sid := fun p heq =>
    hrep.fresh c p (Or.inr (by rw [hpc]; rfl)) (toString_inj heq)
  have hzero : ∀ kind, kind = .connect ∨ kind = .disconnect →
      events b.qos kind (toString (b.client c).sid) = 0 := by
    intro kind hk
    by_contra hne
    obtain ⟨p, -, hp⟩ := h.about kind _ hk hne
    exact hnew p hp.symm
  refine ⟨fun p hp hf => ?_, fun k hk => ?_, fun p hp => ?_, fun p hp hk => ?_,
    fun p hp hf hk => ?_, fun kind k hk hne => ?_⟩
  · have hpc' : p ≠ c := by rintro rfl; exact hf hself
    rw [(hother p hpc').2.1]
    exact h.live p (((hrep.live_insert hpc p).1 hp).resolve_right hpc')
      (by rwa [← (hother p hpc').2.2])
  · obtain ⟨p, hp, rfl, hf, ho⟩ := h.known k hk
    have hpc' : p ≠ c := by rintro rfl; exact hnm hp
    obtain ⟨h1, h2, h3⟩ := hother p hpc'
    refine ⟨p, h1.mpr hp, h2.symm, by rwa [h3], ?_⟩
    rcases ho with hl | ⟨d, hd, hs⟩ | ho
    · exact Or.inl ((hrep.live_insert hpc p).2 (Or.inl hl))
    · refine Or.inr (Or.inl ⟨d, ?_⟩)
      have hdc : d ≠ c := by
        rintro rfl
        rw [hpc] at hd
        cases hd
      change (Function.update b.client c _ d).pc.stage = _ ∧ (Function.update b.client c _ d).s = p
      rw [Function.update_of_ne hdc]
      exact ⟨hd, hs⟩
    · exact Or.inr (Or.inr ho)
  · by_cases hpc' : p = c
    · subst hpc'
      rw [if_pos hself, hkc]
      exact hzero _ (Or.inl rfl)
    · obtain ⟨h1, h2, h3⟩ := hother p hpc'
      rw [h2]
      simp only [h3]
      exact h.connects p (h1.mp hp)
  · by_cases hpc' : p = c
    · subst hpc'
      rw [hkc]
      exact hzero _ (Or.inr rfl)
    · obtain ⟨h1, h2, h3⟩ := hother p hpc'
      rw [h2, h3] at hk
      rw [h2]
      exact h.pending p (h1.mp hp) hk
  · have hpc' : p ≠ c := by rintro rfl; exact hf hself
    obtain ⟨h1, h2, h3⟩ := hother p hpc'
    rw [h2] at hk ⊢
    exact h.disconnects p (h1.mp hp) (by rwa [← h3]) hk
  · obtain ⟨p, hp, rfl⟩ := h.about kind k hk hne
    have hpc' : p ≠ c := by rintro rfl; exact hnm hp
    exact ⟨p, (hother p hpc').1.mpr hp, (hother p hpc').2.1.symm⟩

/-- A session is connected. -/
theorem connect (h : Tracks b) (hrep : Rep b) (hm : Move cfg b a b' o) {c : Conn}
    {nodeID region username : String} {startedAt : ℕ}
    (qos : b'.qos = b.qos.connect (b.key c) nodeID region username startedAt b.now)
    (made : ∀ p, b'.Made p → b.Made p) (live : b.Live c) (self : b.Fresh c)
    (fresh : ∀ p, b.Made p → (b'.Fresh p ↔ b.Fresh p ∧ p ≠ c))
    (still : ∀ p, b.Open p → b'.Open p) : Tracks b' := by
  have hc := hrep.made c live
  have hmem : ∀ k, k ∈ b'.qos.sessions ↔ k = b.key c ∨ k ∈ b.qos.sessions := by
    intro k
    rw [qos]
    change k ∈ b.qos.sessions.insert _ _ ↔ _
    rw [AList.mem_insert]
  have hkey : ∀ p, b.Made p → b'.key p = b.key p := fun p hp => key_of_move hrep hm hp
  have hev : ∀ kind p, b.Made p → events b'.qos kind (b.key p) =
      events b.qos kind (b.key p) + if .connect = kind ∧ p = c then 1 else 0 := by
    intro kind p hp
    rw [qos, events_connect]
    by_cases hpc : p = c
    · simp [hpc]
    · have hne : b.key c ≠ b.key p := fun heq => hpc (key_inj hrep hc heq).symm
      simp [hpc, hne]
  refine ⟨fun p hp hf => ?_, fun k hk => ?_, fun p hp => ?_, fun p hp hk => ?_,
    fun p hp hf hk => ?_, fun kind k hk hne => ?_⟩
  · have hbm := made p ((hrep.move hm).made p hp)
    rw [hkey p hbm, hmem]
    by_cases hpc : p = c
    · exact Or.inl (by rw [hpc])
    · exact Or.inr (h.live p (live_before hrep hm made hp) fun hpf =>
        hf ((fresh p hbm).mpr ⟨hpf, hpc⟩))
  · rcases (hmem k).mp hk with rfl | hk
    · refine ⟨c, made_of_move hrep hm hc, (hkey c hc).symm, ?_, still c (Or.inl live)⟩
      rw [fresh c hc]
      simp
    · obtain ⟨p, hp, rfl, hf, ho⟩ := h.known k hk
      exact ⟨p, made_of_move hrep hm hp, (hkey p hp).symm,
        fun hpf => hf ((fresh p hp).mp hpf).1, still p ho⟩
  · have hbm := made p hp
    rw [hkey p hbm, hev _ p hbm, h.connects p hbm]
    by_cases hpc : p = c
    · subst hpc
      simp [self, fresh p hbm]
    · simp [fresh p hbm, hpc]
  · have hbm := made p hp
    rw [hkey p hbm, hmem, fresh p hbm] at hk
    rw [hkey p hbm, hev _ p hbm, h.pending p hbm]
    · simp
    · rcases hk with hk | hk | hk
      · exact Or.inl hk.1
      · exact Or.inl (key_inj hrep hbm hk ▸ self)
      · exact Or.inr hk
  · have hbm := made p hp
    rw [hkey p hbm, hmem] at hk
    push Not at hk
    have hpc : p ≠ c := by rintro rfl; exact hk.1 rfl
    rw [hkey p hbm, hev _ p hbm, h.disconnects p hbm (fun hpf => hf ((fresh p hbm).mpr ⟨hpf, hpc⟩))
      hk.2]
    simp
  · rw [qos, events_connect] at hne
    by_cases hkc : k = b.key c
    · exact ⟨c, made_of_move hrep hm hc, by rw [hkey c hc, hkc]⟩
    · rw [if_neg (fun hh => hkc hh.2.symm), Nat.add_zero] at hne
      obtain ⟨p, hp, rfl⟩ := h.about kind k hk hne
      exact ⟨p, made_of_move hrep hm hp, (hkey p hp).symm⟩

/-- A session is disconnected. -/
theorem disconnect (h : Tracks b) (hrep : Rep b) (hm : Move cfg b a b' o) {p : Conn}
    (dead : b.Made p ∧ ¬ b.Live p) (settled : ¬ b.Fresh p)
    (qos : b'.qos = b.qos.disconnect (b.key p) b.now)
    (made : ∀ q, b'.Made q → b.Made q) (fresh : ∀ q, b.Made q → (b'.Fresh q ↔ b.Fresh q))
    (still : ∀ q, q ≠ p → b.Open q → b'.Open q) : Tracks b' := by
  have hmem : ∀ k, k ∈ b'.qos.sessions ↔ k ≠ b.key p ∧ k ∈ b.qos.sessions := by
    intro k
    rw [qos]
    exact Qos.Tracker.mem_disconnect_sessions k
  have hkey : ∀ q, b.Made q → b'.key q = b.key q := fun q hq => key_of_move hrep hm hq
  have hne : ∀ q, q ≠ p → b.key q ≠ b.key p := fun q hq heq =>
    hq (key_inj hrep dead.1 heq.symm).symm
  have hev : ∀ kind q, b.Made q → (kind = .connect ∨ q ≠ p) →
      events b'.qos kind (b.key q) = events b.qos kind (b.key q) := by
    intro kind q hq hor
    rw [qos, events_disconnect, if_neg, Nat.add_zero]
    rintro ⟨rfl, hk, -⟩
    rcases hor with hor | hor
    · cases hor
    · exact hne q hor hk.symm
  refine ⟨fun q hq hf => ?_, fun k hk => ?_, fun q hq => ?_, fun q hq hk => ?_,
    fun q hq hf hk => ?_, fun kind k hk hne' => ?_⟩
  · have hbm := made q ((hrep.move hm).made q hq)
    have hl := live_before hrep hm made hq
    have hqp : q ≠ p := by rintro rfl; exact dead.2 hl
    rw [hkey q hbm, hmem]
    exact ⟨hne q hqp, h.live q hl (by rwa [← fresh q hbm])⟩
  · obtain ⟨hkp, hk⟩ := (hmem k).mp hk
    obtain ⟨q, hq, rfl, hf, ho⟩ := h.known k hk
    have hqp : q ≠ p := by rintro rfl; exact hkp rfl
    exact ⟨q, made_of_move hrep hm hq, (hkey q hq).symm, by rwa [fresh q hq], still q hqp ho⟩
  · have hbm := made q hq
    rw [hkey q hbm, hev _ q hbm (Or.inl rfl), h.connects q hbm]
    simp only [fresh q hbm]
  · have hbm := made q hq
    rw [hkey q hbm, hmem, fresh q hbm] at hk
    by_cases hqp : q = p
    · subst hqp
      exact (hk.elim settled fun h => h.1 rfl).elim
    · rw [hkey q hbm, hev _ q hbm (Or.inr hqp)]
      exact h.pending q hbm (hk.imp_right And.right)
  · have hbm := made q hq
    rw [hkey q hbm, hmem] at hk
    have hf' : ¬ b.Fresh q := by rwa [← fresh q hbm]
    by_cases hqp : q = p
    · subst hqp
      rw [hkey q hbm, qos, events_disconnect]
      by_cases hin : b.key q ∈ b.qos.sessions
      · rw [h.pending q hbm (Or.inr hin)]
        simp [hin]
      · rw [h.disconnects q hbm hf' hin]
        simp [hin]
    · rw [hkey q hbm, hev _ q hbm (Or.inr hqp)]
      exact h.disconnects q hbm hf' fun hin => hk ⟨hne q hqp, hin⟩
  · by_cases hkp : k = b.key p
    · exact ⟨p, made_of_move hrep hm dead.1, by rw [hkey p dead.1, hkp]⟩
    · rw [qos, events_disconnect, if_neg (fun hh => hkp hh.2.1.symm), Nat.add_zero] at hne'
      obtain ⟨q, hq, rfl⟩ := h.about kind k hk hne'
      exact ⟨q, made_of_move hrep hm hq, (hkey q hq).symm⟩

theorem step (h : Tracks b) (hinv : Inv b) (hd : Debts b) (hs : step cfg b a = some (b', o))
    (hno : ¬ Overwrites cfg b a) : Tracks b' := by
  have hm := step_move hs
  cases trackMove_of_step hinv hd hs hno with
  | keep qos made fresh still => exact h.keep hinv.rep hm qos made fresh still
  | insert c hpc heq =>
    subst heq
    exact h.insert hinv.rep hpc hm
  | connect c nodeID region username startedAt qos made live self fresh still =>
    exact h.connect hinv.rep hm qos made live self fresh still
  | disconnect p dead settled qos made fresh still =>
    exact h.disconnect hinv.rep hm dead settled qos made fresh still

end Tracks

/-- The books are right after every run without lost sessions. -/
theorem tracks_of_run (h : (machine cfg users).Run tr b)
    (hC : ∀ e ∈ tr, ¬ Overwrites cfg e.pre e.act ∧ ¬ StartFails e.pre e.act) :
    Debts b ∧ Tracks b := by
  refine (Machine.Run.invariant_of (I := fun b => Inv b ∧ Debts b ∧ Tracks b)
    (C := fun e => ¬ Overwrites cfg e.pre e.act ∧ ¬ StartFails e.pre e.act)
    ⟨Inv.init users, Debts.init users, Tracks.init users⟩ ?_ h hC).2
  rintro s a s' o ⟨hi, hd, ht⟩ hs ⟨hno, hfail⟩
  exact ⟨hi.step hs, hd.step hi hs hfail, ht.step hi hd hs hno⟩

theorem ClientPC.rests.stage {pc : ClientPC} (h : pc.rests) : pc.stage = .out ∨ pc.stage = .up := by
  rcases h with rfl | rfl | rfl
  · exact Or.inl rfl
  · exact Or.inr rfl
  · exact Or.inl rfl

theorem TimerPC.rests.stage {pc : TimerPC} (h : pc.rests) : pc.stage = .out := by
  rcases h with rfl | rfl | rfl | rfl <;> rfl

/-- At rest, nothing is half entered. -/
theorem State.Resting.settled (h : b.Resting) (p : Conn) : ¬ b.Fresh p ∧ ¬ b.Owed p := by
  refine ⟨?_, ?_⟩
  · rintro (hf | hf) <;> rcases (h.client p).stage with h' | h' <;> rw [h'] at hf <;> cases hf
  · rintro (⟨c, hc, -⟩ | ⟨k, hk, -⟩)
    · rcases (h.client c).stage with h' | h' <;> rw [h'] at hc <;> cases hc
    · rw [(h.timer k).stage] at hk
      cases hk

/-- **The tracker follows the broker's sessions.** In every run in which every
`MsgSessionStart` can be written and no session is parked under a key that is
taken: whenever no handler is in progress, the tracker holds exactly the
sessions in `b.sessions` and `b.parked`, every session has had one connect
event, and one disconnect event if it is gone from both maps, none if it is
not. -/
theorem tracker_follows (h : (machine cfg users).Run tr b)
    (hC : ∀ e ∈ tr, ¬ Overwrites cfg e.pre e.act ∧ ¬ StartFails e.pre e.act) (hrest : b.Resting) :
    (∀ k, k ∈ b.qos.sessions ↔
      (∃ i p, b.sessions.lookup i = some p ∧ k = toString i) ∨
        ∃ key p, b.parked.lookup key = some p ∧ k = toString (b.sess p).id) ∧
    ∀ p, b.Made p → events b.qos .connect (b.key p) = 1 ∧
      (b.Live p → events b.qos .disconnect (b.key p) = 0) ∧
      (¬ b.Live p → events b.qos .disconnect (b.key p) = 1) := by
  obtain ⟨-, ht⟩ := tracks_of_run h hC
  have hrep := Rep.of_run h
  have hfresh : ∀ p, ¬ b.Fresh p := fun p => (hrest.settled p).1
  -- at rest, the open sessions are the live ones
  have hin : ∀ k, k ∈ b.qos.sessions ↔ ∃ p, b.Live p ∧ k = b.key p := by
    intro k
    constructor
    · intro hk
      obtain ⟨p, -, hkp, -, ho⟩ := ht.known k hk
      exact ⟨p, ho.resolve_right (hrest.settled p).2, hkp⟩
    · rintro ⟨p, hp, rfl⟩
      exact ht.live p hp (hfresh p)
  refine ⟨fun k => ?_, fun p hp => ⟨?_, fun hl => ?_, fun hl => ?_⟩⟩
  · rw [hin]
    constructor
    · rintro ⟨p, ⟨i, hi⟩ | ⟨key, hkey⟩, rfl⟩
      · exact Or.inl ⟨i, p, hi, by rw [State.key, hrep.id_eq i p hi]⟩
      · exact Or.inr ⟨key, p, hkey, rfl⟩
    · rintro (⟨i, p, hi, rfl⟩ | ⟨key, p, hkey, rfl⟩)
      · exact ⟨p, live_of_sessions hi, by rw [State.key, hrep.id_eq i p hi]⟩
      · exact ⟨p, live_of_parked hkey, rfl⟩
  · rw [ht.connects p hp, if_neg (hfresh p)]
  · exact ht.pending p hp (Or.inr (ht.live p hl (hfresh p)))
  · refine ht.disconnects p hp (hfresh p) fun hk => ?_
    obtain ⟨q, hq, hkq⟩ := (hin _).mp hk
    exact hl (key_inj hrep hp hkq ▸ hq)

/-- One client is parked, another has left. -/
theorem tracker_follows_two_clients : ∃ tr b, (machine {} aliceStore).Run tr b ∧ b.Resting ∧
    b.parked.lookup "k" = some 1 ∧ b.sessions.lookup 2 = none ∧
    (∀ k, k ∈ b.qos.sessions ↔
      (∃ i p, b.sessions.lookup i = some p ∧ k = toString i) ∨
        ∃ key p, b.parked.lookup key = some p ∧ k = toString (b.sess p).id) := by
  obtain ⟨tr, b, hr, hp, h2, hrest, hfew, hC⟩ := (machine {} aliceStore).exists_run
    (registers 0 (node "e1" "us" 0) ++
      joins 1 (aliceConnect "us" "k") ++ joins 2 (aliceConnect "us" "") ++
      [.drop 1 .other, .client 1 {}, .client 1 {}, .drop 2 .other, .client 2 {}, .client 2 {},
        .client 2 {}, .client 2 {}])
    (P := fun r => r.2.parked.lookup "k" = some 1 ∧ r.2.sessions.lookup 2 = none ∧
      r.2.RestsUpTo 3 ∧ (∀ e ∈ r.1, Few 3 e.act) ∧
      ∀ e ∈ r.1, ¬ Overwrites {} e.pre e.act ∧ ¬ StartFails e.pre e.act)
    (by decide +kernel)
  have hrest := resting_of_few hr hfew hrest
  exact ⟨tr, b, hr, hrest, hp, h2, (tracker_follows hr hC hrest).1⟩

/-- A session whose `MsgSessionStart` could not be written stays with the
tracker: nothing disconnects it. -/
theorem failed_start_stays_tracked : ∃ tr b, (machine {} aliceStore).Run tr b ∧ b.Resting ∧
    b.sessions.entries = [] ∧ b.parked.entries = [] ∧ (b.qos.sessions.lookup "1").isSome ∧
    events b.qos .connect "1" = 1 ∧ events b.qos .disconnect "1" = 0 := by
  obtain ⟨tr, b, hr, hrest, hfew, h⟩ := (machine {} aliceStore).exists_run
    (registers 0 (node "e1" "us" 0) ++
      .connect 1 (aliceConnect "us" "") :: List.replicate 7 (.client 1 {}) ++
      .client 1 { ok := false } :: List.replicate 3 (.client 1 {}))
    (P := fun r => r.2.RestsUpTo 2 ∧ (∀ e ∈ r.1, Few 2 e.act) ∧
      r.2.sessions.entries = [] ∧ r.2.parked.entries = [] ∧
      (r.2.qos.sessions.lookup "1").isSome ∧ events r.2.qos .connect "1" = 1 ∧
      events r.2.qos .disconnect "1" = 0)
    (by decide +kernel)
  exact ⟨tr, b, hr, resting_of_few hr hfew hrest, h⟩

end
end Broker
end Revquic
