/-
# What a step does to the books

A session is on three books besides `b.sessions`: its exit's load counter,
the QoS tracker and the admin feed. They are kept by separate steps of the
goroutine that runs the session, or of the timer that expires it. Every step
does one of the things `Books` lists.

Key definitions: `Stage`, `Books`.
Key theorem: `books_of_step`.
-/
import Revquic.Broker.Messages
import Revquic.Qos.Load

namespace Revquic
namespace Broker

open Lib Netip Ippool Proto

/-- How far a goroutine is with the books of its session. -/
inductive Stage
  | out          -- it has nothing to enter
  | inserted     -- to be counted at the exit
  | counted      -- to be connected in the tracker
  | starting     -- to be announced on the feed
  | failing      -- its exit could not be told of it
  | up           -- on all books
  | closing      -- given up, to be disconnected in the tracker
  | ending       -- its end is to be announced
  deriving DecidableEq

def ClientPC.stage : ClientPC → Stage
  | .inserted => .inserted
  | .counted => .counted
  | .start | .connectOK | .started => .starting
  | .startFailed | .ending => .failing
  | .relay | .dropped => .up
  | .closed | .disconnect => .closing
  | .publishEnd => .ending
  | .idle | .auth | .lock | .reply | .chosen | .numbered | .allocated | .resumed | .ended
  | .parked | .done => .out

def TimerPC.stage : TimerPC → Stage
  | .write | .disconnect => .closing
  | .publishEnd => .ending
  | .unset | .armed | .stopped | .fired | .done => .out

/-- `NodeConnected` has been published and `NodeDisconnected` has not. -/
def ExitPC.announced : ExitPC → Bool
  | .loop | .publishUpdate | .gone | .nodeDown | .publishGone => true
  | _ => false

/-- The goroutine stays at its stage, with its session. -/
def SameBook (t t' : ClientThread) : Prop :=
  t'.pc.stage = t.pc.stage ∧ (t.pc.stage ≠ .out → t'.s = t.s ∧ t'.ex = t.ex ∧ t'.sid = t.sid)

/-- The timer stays at its stage, with its session. -/
def SameTimer (t t' : Timer) : Prop :=
  t'.pc.stage = t.pc.stage ∧ (t.pc.stage ≠ .out → t'.s = t.s ∧ t'.sid = t.sid)

/-- No session enters or leaves the tracker. -/
def Aside (t t' : Qos.Tracker) : Prop :=
  (∀ k, k ∈ t'.sessions ↔ k ∈ t.sessions) ∧
    ∃ evs, t'.store = t.store ++ evs ∧ ∀ ev ∈ evs, ev.kind ≠ .connect ∧ ev.kind ≠ .disconnect

/-- No event is published. -/
def Silent (o : List Out) : Prop := ∀ ev, Out.publish ev ∉ o

/-- The entries a client's goroutine makes for its session. -/
inductive Entry (cfg : Config) (b : State) (c : Conn) (i : Input) : State → List Out → Prop
  /-- The session is inserted. -/
  | insert (pc : (b.client c).pc = .allocated) : Entry cfg b c i (insertSession b c) []
  /-- It is counted at the exit. -/
  | count (pc' : ClientPC) (pc : (b.client c).pc = .inserted ∧ pc' = .counted ∨
      (b.client c).pc = .resumed ∧ pc' = .start) :
      Entry cfg b c i ((b.goto c pc').addActive (b.client c).ex 1) []
  /-- It is connected in the tracker. -/
  | connect (pc : (b.client c).pc = .counted) :
      Entry cfg b c i
        { (b.goto c .start) with
          qos := b.qos.connect (toString (b.client c).sid) (b.node (b.client c).ex).nodeID
            (b.node (b.client c).ex).region (b.client c).user.username
            (b.sess (b.client c).s).startedAt b.now } []
  /-- Its exit cannot be told of it. -/
  | fail (pc : (b.client c).pc = .start) (ok : i.ok = false) :
      Entry cfg b c i
        (b.setClient c { b.client c with
          pc := .startFailed, ice := iceServers cfg b (b.sess (b.client c).s).id }) []
  /-- It is announced. -/
  | announce (pc : (b.client c).pc = .started) :
      Entry cfg b c i (b.setClient c { b.client c with pc := .relay, reading := true })
        [.publish (.sessionStarted (b.sess (b.client c).s).id (b.sess (b.client c).s).nodeID)]
  /-- It is parked. -/
  | park (parks : b.parks cfg c) : Entry cfg b c i (parkState cfg b c) []
  /-- It is torn down. -/
  | close (pc' : ClientPC) (pc : (b.client c).pc = .dropped ∧ pc' = .closed ∨
      (b.client c).pc = .ending ∧ pc' = .ended) :
      Entry cfg b c i (closeState b c pc')
        [.release (b.client c).s (b.sess (b.client c).s).clientAddr]
  /-- It is not in `b.sessions`. -/
  | vanish (pc : (b.client c).pc = .dropped ∨ (b.client c).pc = .ending)
      (found : b.sessions.lookup (b.sess (b.client c).s).id = none) :
      Entry cfg b c i (b.goto c .done) []
  /-- It is disconnected in the tracker. -/
  | disconnect (pc : (b.client c).pc = .disconnect) :
      Entry cfg b c i
        { (b.goto c .publishEnd) with
          qos := b.qos.disconnect (toString (b.sess (b.client c).s).id) b.now } []
  /-- Its end is announced. -/
  | bye (pc : (b.client c).pc = .publishEnd) :
      Entry cfg b c i (b.goto c .done)
        [.publish (.sessionEnded (b.sess (b.client c).s).id (b.sess (b.client c).s).nodeID)]

/-- The entries a park timer makes. -/
inductive TimerEntry (b : State) (k : ℕ) : State → List Out → Prop
  /-- The parked session expires. -/
  | expire (p : Conn) (pc : (b.timer k).pc = .fired)
      (found : b.parked.lookup (b.timer k).resumeKey = some p)
      (id : (b.sess p).id = (b.timer k).sid) :
      TimerEntry b k (expireState b k p) [.release p (b.sess p).clientAddr]
  /-- It is disconnected in the tracker. -/
  | disconnect (pc : (b.timer k).pc = .disconnect) :
      TimerEntry b k
        { (b.gotoTimer k .publishEnd) with
          qos := b.qos.disconnect (toString (b.timer k).sid) b.now } []
  /-- Its end is announced. -/
  | bye (pc : (b.timer k).pc = .publishEnd) :
      TimerEntry b k (b.gotoTimer k .done)
        [.publish (.sessionEnded (b.timer k).sid (b.sess (b.timer k).s).nodeID)]

/-- Everything a step can do to the books. -/
inductive Books (cfg : Config) (b : State) : Action → State → List Out → Prop
  /-- Nothing. -/
  | quiet {a : Action} {b' : State} {o : List Out} (qos : Aside b.qos b'.qos)
      (client : ∀ d, SameBook (b.client d) (b'.client d))
      (timer : ∀ k, SameTimer (b.timer k) (b'.timer k))
      (exitT : ∀ r, (b'.exitT r).pc.announced = (b.exitT r).pc.announced) (out : Silent o) :
      Books cfg b a b' o
  /-- A goroutine makes an entry. -/
  | client (c : Conn) (i : Input) {b' : State} {o : List Out} (entry : Entry cfg b c i b' o) :
      Books cfg b (.client c i) b' o
  /-- A timer makes an entry. -/
  | timer (k : ℕ) (ok : Bool) {b' : State} {o : List Out} (entry : TimerEntry b k b' o) :
      Books cfg b (.timer k ok) b' o
  /-- An exit is announced. -/
  | nodeConnected (r : Conn) (ok : Bool) (pc : (b.exitT r).pc = .publishUp) :
      Books cfg b (.exit r ok) (b.setExit r { b.exitT r with pc := .loop, relaying := true })
        [.publish (.nodeConnected (b.node r).nodeID (b.exitT r).activeUsers)]
  /-- An exit's loss is announced. -/
  | nodeDisconnected (r : Conn) (ok : Bool) (pc : (b.exitT r).pc = .publishGone) :
      Books cfg b (.exit r ok) (b.gotoExit r .scan)
        [.publish (.nodeDisconnected (b.node r).nodeID)]
  /-- An exit's status is announced. -/
  | nodeUpdated (r : Conn) (ok : Bool) (pc : (b.exitT r).pc = .publishUpdate) :
      Books cfg b (.exit r ok) (b.gotoExit r .loop)
        [.publish (.nodeUpdated (b.node r).nodeID (b.exitT r).activeUsers)]

section
variable {cfg : Config} {b b' : State} {a : Action} {c : Conn} {o : List Out}

theorem silent_nil : Silent [] := fun _ h => by cases h

theorem silent_written (ok : Bool) (dst : Conn) (m : Control) : Silent (written ok dst m) := by
  intro ev
  cases ok <;> simp [written]

theorem silent_other {x : Out} (hx : ∀ ev, x ≠ .publish ev) : Silent [x] := fun ev h =>
  hx ev (List.mem_singleton.mp h).symm

theorem SameBook.refl (t : ClientThread) : SameBook t t := ⟨rfl, fun _ => ⟨rfl, rfl, rfl⟩⟩

theorem SameTimer.refl (t : Timer) : SameTimer t t := ⟨rfl, fun _ => ⟨rfl, rfl⟩⟩

/-! ### The tracker -/

theorem Aside.refl (t : Qos.Tracker) : Aside t t :=
  ⟨fun _ => Iff.rfl, [], (List.append_nil _).symm, by simp⟩

theorem Aside.of_sampled {t t' : Qos.Tracker} {k : String} (h : Qos.Tracker.Sampled t k t') :
    Aside t t' := by
  refine ⟨h.mem, ?_⟩
  cases h with
  | unknown => exact (Aside.refl t).2
  | known _ _ _ _ store =>
    obtain ⟨evs, hevs, hkind⟩ := store
    refine ⟨evs, hevs, fun ev hev => ?_⟩
    have := hkind ev hev
    constructor <;> rintro h <;> rw [h] at this <;> cases this

theorem Aside.nodeUp (t : Qos.Tracker) (n region : String) (at' ts : ℕ) :
    Aside t (t.nodeUp n region at' ts) :=
  ⟨fun _ => Iff.rfl, _, rfl, by simp⟩

theorem Aside.nodeDown (t : Qos.Tracker) (n : String) (ts : ℕ) : Aside t (t.nodeDown n ts) :=
  ⟨fun _ => Iff.rfl, _, rfl, by simp⟩

/-! ### Every step -/

namespace Books

/-- The goroutines of the clients and the timers stay. -/
theorem still (qos : Aside b.qos b'.qos) (client : b'.client = b.client)
    (timer : b'.timer = b.timer)
    (exitT : ∀ r, (b'.exitT r).pc.announced = (b.exitT r).pc.announced) (out : Silent o) :
    Books cfg b a b' o :=
  .quiet qos (fun d => by rw [client]; exact .refl _) (fun k => by rw [timer]; exact .refl _) exitT
    out

/-- An exit's goroutine moves on. -/
theorem exit {t' : ExitThread} (qos : Aside b.qos b'.qos) (client : b'.client = b.client)
    (timer : b'.timer = b.timer) (exitT : b'.exitT = Function.update b.exitT c t')
    (hpc : t'.pc.announced = (b.exitT c).pc.announced) (out : Silent o) : Books cfg b a b' o := by
  refine .still qos client timer (fun r => ?_) out
  rw [exitT]
  by_cases hr : r = c
  · rw [hr, Function.update_self, hpc]
  · rw [Function.update_of_ne hr]

/-- A client's goroutine moves on. -/
theorem move {t : ClientThread} (client : b'.client = Function.update b.client c t)
    (same : SameBook (b.client c) t) (qos : b'.qos = b.qos)
    (timer : ∀ k, SameTimer (b.timer k) (b'.timer k)) (exitT : b'.exitT = b.exitT)
    (out : Silent o) : Books cfg b a b' o := by
  refine .quiet (by rw [qos]; exact .refl _) (fun d => ?_) timer (fun r => by rw [exitT]) out
  rw [client]
  by_cases hd : d = c
  · rw [hd, Function.update_self]
    exact same
  · rw [Function.update_of_ne hd]
    exact .refl _

/-- A goroutine that has nothing to enter moves on. -/
theorem early {t' : ClientThread} {pc : ClientPC} (hpc : (b.client c).pc = pc)
    (client : b'.client = Function.update b.client c t') (before : pc.stage = .out)
    (after : t'.pc.stage = .out) (qos : b'.qos = b.qos) (timer : b'.timer = b.timer)
    (exitT : b'.exitT = b.exitT) (out : Silent o) : Books cfg b a b' o := by
  subst hpc
  exact .move client ⟨after.trans before.symm, fun h => absurd before h⟩ qos
    (fun k => by rw [timer]; exact .refl _) exitT out

/-- A goroutine goes on at its stage. -/
theorem goto {pc pc' : ClientPC} (hpc : (b.client c).pc = pc) (same : pc'.stage = pc.stage)
    (out : Silent o) : Books cfg b a (b.goto c pc') o := by
  subst hpc
  exact .move (t := { b.client c with pc := pc' }) rfl ⟨same, fun _ => ⟨rfl, rfl, rfl⟩⟩ rfl
    (fun _ => .refl _) rfl out

/-- A timer's callback goes on at its stage. -/
theorem tick {k : ℕ} {pc : TimerPC} (same : pc.stage = (b.timer k).pc.stage) (out : Silent o) :
    Books cfg b a (b.gotoTimer k pc) o := by
  refine .quiet (.refl _) (fun _ => .refl _) (fun j => ?_) (fun _ => rfl) out
  change SameTimer (b.timer j) (Function.update b.timer k _ j)
  by_cases hj : j = k
  · rw [hj, Function.update_self]
    exact ⟨same, fun _ => ⟨rfl, rfl⟩⟩
  · rw [Function.update_of_ne hj]
    exact .refl _

end Books

theorem ExitStepped.books {ok : Bool} (h : ExitStepped b c ok b' o) :
    Books cfg b (.exit c ok) b' o := by
  cases h with
  | announce pc | gone pc => exact .exit (.refl _) rfl rfl rfl (by rw [pc]; rfl) silent_nil
  | publishUp pc => exact .nodeConnected c ok pc
  | publishUpdate pc => exact .nodeUpdated c ok pc
  | publishGone pc => exact .nodeDisconnected c ok pc
  | refuse pc | welcome pc | notify p rest pc =>
    exact .exit (.refl _) rfl rfl rfl (by rw [pc]; rfl) (silent_written _ _ _)
  | up pc => exact .exit (.nodeUp _ _ _ _ _) rfl rfl rfl (by rw [pc]; rfl) silent_nil
  | down pc => exact .exit (.nodeDown _ _ _) rfl rfl rfl (by rw [pc]; rfl) silent_nil
  | scan pc =>
    refine .exit (.refl _) rfl rfl rfl ?_ silent_nil
    simp only [pc]
    split <;> rfl
  | close p rest pc =>
    refine .exit (.refl _) rfl rfl rfl ?_ (silent_other (by simp))
    simp only [pc]
    split <;> rfl

theorem CtrlStepped.books {ok : Bool} {route : ℕ → Option Conn} {m : Control}
    (h : CtrlStepped b c ok route m b' o) : Books cfg b a b' o := by
  cases h with
  | forward | ping => exact .still (.refl _) rfl rfl (fun _ => rfl) (silent_written _ _ _)
  | report =>
    exact .still (.of_sampled (Qos.Tracker.sampled_report _ _ _)) rfl rfl (fun _ => rfl) silent_nil
  | ignore => exact .still (.refl _) rfl rfl (fun _ => rfl) silent_nil

theorem TimerStepped.books {k : ℕ} {ok : Bool} (h : TimerStepped b k ok b' o) :
    Books cfg b (.timer k ok) b' o := by
  cases h with
  | miss pc => exact .tick (by rw [pc]; rfl) silent_nil
  | expire p pc found id => exact .timer k ok (.expire p pc found id)
  | write pc =>
    refine .tick (by rw [pc]; rfl) ?_
    split
    · exact silent_nil
    · exact silent_written _ _ _
  | disconnect pc => exact .timer k ok (.disconnect pc)
  | bye pc => exact .timer k ok (.bye pc)

theorem sameTimer_stop (timer : ℕ → Timer) (k : ℕ) : ∀ s,
    SameTimer (timer k) (stopTimer timer s k)
  | none => .refl _
  | some j => by
    simp only [stopTimer]
    split
    · rename_i hj
      by_cases hk : k = j
      · rw [hk, Function.update_self, SameTimer, hj]
        exact ⟨rfl, fun h => absurd rfl h⟩
      · rw [Function.update_of_ne hk]
        exact .refl _
    · exact .refl _

theorem ClientStepped.books {i : Input} (h : ClientStepped cfg b c i b' o) :
    Books cfg b (.client c i) b' o := by
  cases h with
  | resume p ex pc =>
    exact .move rfl ⟨by rw [pc]; rfl, fun h => absurd (by rw [pc]; rfl) h⟩ rfl
      (fun k => sameTimer_stop _ _ _) rfl silent_nil
  | reply pc | startFailed pc | connectOK pc | suspend pc =>
    exact .goto pc rfl (silent_written _ _ _)
  | insert pc => exact .client c i (.insert pc)
  | count pc => exact .client c i (.count .counted (Or.inl ⟨pc, rfl⟩))
  | connect pc => exact .client c i (.connect pc)
  | recount pc => exact .client c i (.count .start (Or.inr ⟨pc, rfl⟩))
  | start pc =>
    cases hok : i.ok with
    | true =>
      exact .move rfl ⟨by rw [pc]; rfl, fun _ => ⟨rfl, rfl, rfl⟩⟩ rfl (fun _ => .refl _) rfl
        (silent_written _ _ _)
    | false => exact .client c i (.fail pc hok)
  | started pc => exact .client c i (.announce pc)
  | vanish pc found => exact .client c i (.vanish pc found)
  | park q pc found drop key ttl => exact .client c i (.park ⟨pc, drop, key, ttl⟩)
  | close q pc' pc => exact .client c i (.close pc' pc)
  | finish pc' pc =>
    rcases pc with ⟨pc, rfl⟩ | ⟨pc, rfl⟩
    · exact .goto pc rfl (silent_written _ _ _)
    · exact .goto pc rfl (silent_written _ _ _)
  | disconnect pc => exact .client c i (.disconnect pc)
  | bye pc => exact .client c i (.bye pc)
  | reject _ pc | accept _ pc | list pc | refuse _ pc | choose _ _ pc | draw pc | alloc _ _ pc
  | exhaust pc => exact .early pc rfl rfl rfl rfl rfl rfl silent_nil

/-- **Every step leaves the books alone, or makes one entry.** -/
theorem books_of_step (h : step cfg b a = some (b', o)) : Books cfg b a b' o := by
  cases stepped_of_step h with
  | connect c msg unused => exact .early unused.1 rfl rfl rfl rfl rfl rfl silent_nil
  | client c i step | clientCtrl c m ok _ step | exit c ok step | exitCtrl c m ok _ step
  | timer k ok step => exact step.books
  | drop c cause pc =>
    exact .move rfl ⟨by rw [pc]; rfl, fun _ => ⟨rfl, rfl, rfl⟩⟩ rfl (fun _ => .refl _) rfl silent_nil
  | register c msg unused =>
    unfold handleExit
    split <;> exact .exit (.refl _) rfl rfl rfl (by rw [unused.2]; rfl) silent_nil
  | status c _ _ _ ok pc | exitGone c pc =>
    exact .exit (.refl _) rfl rfl rfl (by rw [pc]; rfl) silent_nil
  | relay =>
    exact .still (.of_sampled (Qos.Tracker.sampled_addBytes _ _ _ _)) rfl rfl (fun _ => rfl)
      (silent_other (by simp))
  | fire k armed => exact .tick (by rw [armed]; rfl) silent_nil
  | tick | users | lose => exact .still (.refl _) rfl rfl (fun _ => rfl) silent_nil

/-! ### Goroutine by goroutine -/

/-- An entry is made by the goroutine it concerns. -/
theorem Entry.others {i : Input} (h : Entry cfg b c i b' o) {d : Conn} (hd : d ≠ c) :
    b'.client d = b.client d := by
  cases h <;> exact Function.update_of_ne hd _ _

theorem Entry.timer {i : Input} (h : Entry cfg b c i b' o) (ht : TimersBelow b) (k : ℕ) :
    SameTimer (b.timer k) (b'.timer k) := by
  cases h with
  | park =>
    change SameTimer _ (Function.update b.timer b.nextTimer _ k)
    by_cases hk : k = b.nextTimer
    · rw [hk, Function.update_self, SameTimer, ht _ le_rfl]
      exact ⟨rfl, fun h => absurd rfl h⟩
    · rw [Function.update_of_ne hk]
      exact .refl _
  | _ => exact .refl _

theorem TimerEntry.others {k : ℕ} (h : TimerEntry b k b' o) {j : ℕ} (hj : j ≠ k) :
    b'.timer j = b.timer j := by
  cases h <;> exact Function.update_of_ne hj _ _

theorem TimerEntry.client {k : ℕ} (h : TimerEntry b k b' o) : b'.client = b.client := by
  cases h <;> rfl

/-- A goroutine stays at its stage, or makes an entry. -/
theorem Books.goroutine (h : Books cfg b a b' o) (d : Conn) :
    SameBook (b.client d) (b'.client d) ∨ ∃ i, a = .client d i ∧ Entry cfg b d i b' o := by
  cases h with
  | quiet _ client => exact Or.inl (client d)
  | client c i entry =>
    by_cases hd : d = c
    · subst hd
      exact Or.inr ⟨i, rfl, entry⟩
    · exact Or.inl (by rw [entry.others hd]; exact .refl _)
  | timer k ok entry => exact Or.inl (by rw [entry.client]; exact .refl _)
  | _ => exact Or.inl (.refl _)

/-- A timer stays at its stage, or makes an entry. -/
theorem Books.callback (h : Books cfg b a b' o) (ht : TimersBelow b) (k : ℕ) :
    SameTimer (b.timer k) (b'.timer k) ∨ ∃ ok, a = .timer k ok ∧ TimerEntry b k b' o := by
  cases h with
  | quiet _ _ timer => exact Or.inl (timer k)
  | client c i entry => exact Or.inl (entry.timer ht k)
  | timer j ok entry =>
    by_cases hk : k = j
    · subst hk
      exact Or.inr ⟨ok, rfl, entry⟩
    · exact Or.inl (by rw [entry.others hk]; exact .refl _)
  | _ => exact Or.inl (.refl _)

end
end Broker
end Revquic
