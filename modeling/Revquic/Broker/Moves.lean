/-
# What a step can do to the sessions

`Move` lists, once, everything a step can do to the session maps, the session
objects, the address pool, the load counters and the client goroutines. The
invariants of the broker are proved from it, without the handlers.

A client goroutine passes through five phases: it has no session yet
(`before`), has drawn an id (`numbered`), has an address (`allocated`), runs
a session that is in `b.sessions` (`holds`), and has given it up (`after`).

Key definitions: `Phase`, `ClientPC.phase`, `State.resumes`, `Walk`, `Move`.
Key theorem: `step_move`.
-/
import Revquic.Broker.Stepped

namespace Revquic
namespace Broker

open Lib Netip Ippool Proto

/-- The phases of a client goroutine. -/
inductive Phase
  | before
  | numbered
  | allocated
  | holds
  | after
  deriving DecidableEq

def ClientPC.phase : ClientPC → Phase
  | .idle | .auth | .lock | .reply | .chosen => .before
  | .numbered => .numbered
  | .allocated => .allocated
  | .inserted | .counted | .resumed | .start | .startFailed | .ending | .connectOK | .started
  | .relay | .dropped => .holds
  | .ended | .parked | .closed | .disconnect | .publishEnd | .done => .after

/-- The goroutine has not counted its session at the exit yet. -/
def ClientPC.uncounted : ClientPC → Bool
  | .inserted | .resumed => true
  | _ => false

/-- The goroutine has given its session up and has not told the exit yet. -/
def ClientPC.owes : ClientPC → Bool
  | .ended | .parked | .closed => true
  | _ => false

/-- The client has been told of its session, or the goroutine has given it
up. -/
def ClientPC.answered : ClientPC → Bool
  | .started | .relay | .dropped | .ended | .parked | .closed | .disconnect | .publishEnd | .done =>
    true
  | _ => false

/-- The parts of the state that hold the sessions and their addresses are
the same. -/
structure SameCore (b b' : State) : Prop where
  sessions : b'.sessions = b.sessions
  parked : b'.parked = b.parked
  sess : b'.sess = b.sess
  nextSession : b'.nextSession = b.nextSession
  ipPool : b'.ipPool = b.ipPool

/-- A `Register` is about the registry only. -/
theorem handleExit_core (cfg : Config) (b : State) (c : Conn) (msg : Register) :
    SameCore b (handleExit cfg b c msg) := by
  unfold handleExit
  split <;> exact ⟨rfl, rfl, rfl, rfl, rfl⟩

theorem handleExit_client (cfg : Config) (b : State) (c : Conn) (msg : Register) :
    (handleExit cfg b c msg).client = b.client := by
  unfold handleExit
  split <;> rfl

/-- The program counter moves on without a session changing hands or being
counted or given up, and without an exit being chosen or the goroutine being
started. -/
def ClientPC.walks (pc pc' : ClientPC) : Bool :=
  (match pc.phase, pc'.phase with
    | .before, .before | .before, .after | .numbered, .before | .holds, .holds | .after, .after =>
      true
    | _, _ => false) &&
  !pc.uncounted && !pc'.uncounted && pc' != .chosen && !pc'.owes && pc != .idle && pc' != .idle &&
  (!pc.answered || pc'.answered)

/-- The replies that carry no session. -/
def isRefusal : Control → Bool
  | .error _ | .exitList _ => true
  | _ => false

/-- A goroutine moves on without touching a session; from its first session
on, its user and what it holds stay. -/
structure Walk (t t' : ClientThread) : Prop where
  msg : t'.msg = t.msg
  walks : t.pc.walks t'.pc = true
  reply : t'.pc = .reply → isRefusal t'.reply = true
  same : t.pc.phase ≠ .before →
    t'.user = t.user ∧ t'.s = t.s ∧ t'.ex = t.ex ∧ t'.sid = t.sid

theorem Walk.phases {t t' : ClientThread} (h : Walk t t') :
    (t.pc.phase = .before ∧ (t'.pc.phase = .before ∨ t'.pc.phase = .after)) ∨
    (t.pc.phase = .numbered ∧ t'.pc.phase = .before) ∨
    (t.pc.phase = .holds ∧ t'.pc.phase = .holds) ∨ (t.pc.phase = .after ∧ t'.pc.phase = .after) := by
  have := h.walks
  unfold ClientPC.walks at this
  cases h1 : t.pc.phase <;> cases h2 : t'.pc.phase <;> simp [h1, h2] at this ⊢

theorem Walk.uncounted {t t' : ClientThread} (h : Walk t t') :
    t.pc.uncounted = false ∧ t'.pc.uncounted = false := by
  have := h.walks
  simp only [ClientPC.walks, Bool.and_eq_true, Bool.not_eq_true'] at this
  exact ⟨this.1.1.1.1.1.1.2, this.1.1.1.1.1.2⟩

theorem Walk.not_chosen {t t' : ClientThread} (h : Walk t t') : t'.pc ≠ .chosen := by
  have := h.walks
  simp only [ClientPC.walks, Bool.and_eq_true, bne_iff_ne] at this
  exact this.1.1.1.1.2

theorem Walk.not_owes {t t' : ClientThread} (h : Walk t t') : t'.pc.owes = false := by
  have := h.walks
  simp only [ClientPC.walks, Bool.and_eq_true, Bool.not_eq_true'] at this
  exact this.1.1.1.2

theorem Walk.not_idle {t t' : ClientThread} (h : Walk t t') : t.pc ≠ .idle ∧ t'.pc ≠ .idle := by
  have := h.walks
  simp only [ClientPC.walks, Bool.and_eq_true, bne_iff_ne] at this
  exact ⟨this.1.1.2, this.1.2⟩

theorem Walk.answered {t t' : ClientThread} (h : Walk t t') (ht : t.pc.answered = true) :
    t'.pc.answered = true := by
  have := h.walks
  simp only [ClientPC.walks, Bool.and_eq_true, Bool.or_eq_true, ht] at this
  simpa using this.2

/-- A goroutine that has no session yet. -/
theorem Walk.early {t t' : ClientThread} {pc : ClientPC} (hpc : t.pc = pc) (hm : t'.msg = t.msg)
    (hw : pc.walks t'.pc = true) (hr : t'.pc = .reply → isRefusal t'.reply = true)
    (hb : pc.phase = .before) : Walk t t' :=
  ⟨hm, by rw [hpc]; exact hw, hr, fun h => absurd (by rw [hpc]; exact hb) h⟩

/-- The output releases no address. -/
def NoRelease (o : List Out) : Prop := ∀ p a, Out.release p a ∉ o

/-- What `tryResume` checks for client `c` and a parked session, the exit
aside. -/
def State.mayResume (cfg : Config) (b : State) (c p : Conn) : Prop :=
  b.parked.lookup (b.client c).msg.resumeKey = some p ∧
    (b.sess p).username = (b.client c).user.username ∧
    (b.now : ℤ) - (b.sess p).parkedAt < cfg.resumeTTL

instance (cfg : Config) (b : State) (c p : Conn) : Decidable (b.mayResume cfg c p) :=
  inferInstanceAs (Decidable (_ ∧ _))

/-- The next step of goroutine `c` resumes session `p`. -/
def State.resumes (cfg : Config) (b : State) (c p : Conn) : Prop :=
  (b.client c).pc = .lock ∧ (b.client c).msg.listExits = false ∧ b.mayResume cfg c p ∧
    (b.sess p).nodeID ∈ b.exits

instance (cfg : Config) (b : State) (c p : Conn) : Decidable (b.resumes cfg c p) :=
  inferInstanceAs (Decidable (_ ∧ _))

/-- `suspendSession` of goroutine `c` is about to park the session. -/
def State.parks (cfg : Config) (b : State) (c : Conn) : Prop :=
  (b.client c).pc = .dropped ∧ (b.client c).intentional = false ∧
    (b.sess (b.client c).s).resumeKey ≠ "" ∧ 0 < cfg.resumeTTL

instance (cfg : Config) (b : State) (c : Conn) : Decidable (b.parks cfg c) :=
  inferInstanceAs (Decidable (_ ∧ _ ∧ _ ∧ _))

theorem insertSession_sess_self (b : State) (c : Conn) :
    (insertSession b c).sess c = newSession b c := Function.update_self _ _ _

theorem insertSession_sess_of_ne {b : State} {c q : Conn} (h : q ≠ c) :
    (insertSession b c).sess q = b.sess q := Function.update_of_ne h _ _

theorem resumeState_sess_self (b : State) (c p ex : Conn) :
    (resumeState b c p ex).sess p = { b.sess p with
      suspended := false, clientConn := c, clientCW := c, exitConn := ex, exitCW := ex } :=
  Function.update_self _ _ _

theorem resumeState_sess_of_ne {b : State} {c p ex q : Conn} (h : q ≠ p) :
    (resumeState b c p ex).sess q = b.sess q := Function.update_of_ne h _ _

theorem parkState_sess_self (cfg : Config) (b : State) (c : Conn) :
    (parkState cfg b c).sess (b.client c).s = { b.sess (b.client c).s with
      suspended := true, parkedAt := b.now, suspendTimer := some b.nextTimer } :=
  Function.update_self _ _ _

theorem parkState_sess_of_ne {cfg : Config} {b : State} {c q : Conn} (h : q ≠ (b.client c).s) :
    (parkState cfg b c).sess q = b.sess q := Function.update_of_ne h _ _

/-- Everything a step can do to the sessions. -/
inductive Move (cfg : Config) (b : State) : Action → State → List Out → Prop
  /-- Nothing. -/
  | env {a : Action} {b' : State} {o : List Out} (core : SameCore b b')
      (client : b'.client = b.client) (node : b'.node = b.node) (out : NoRelease o) :
      Move cfg b a b' o
  /-- A client's first message. -/
  | connect (c : Conn) (msg : Connect) (unused : b.unused c) :
      Move cfg b (.connect c msg) (b.setClient c { pc := .auth, msg }) []
  /-- An exit's first message. -/
  | register (c : Conn) (msg : Register) (unused : b.unused c) :
      Move cfg b (.register c msg) (handleExit cfg b c msg) []
  /-- A goroutine moves on. -/
  | walk (c : Conn) (t' : ClientThread) {a : Action} {b' : State} {o : List Out}
      (core : SameCore b b') (client : b'.client = Function.update b.client c t')
      (node : b'.node = b.node) (out : NoRelease o) (walk : Walk (b.client c) t') :
      Move cfg b a b' o
  /-- A new session gets an exit. -/
  | choose (c : Conn) (i : Input) (ex : Conn) (rr : ℕ) (pc : (b.client c).pc = .lock)
      (chosen : chooseExit cfg b (b.client c).msg i.rnd = (some ex, rr)) :
      Move cfg b (.client c i)
        { (b.setClient c { b.client c with pc := .chosen, ex }) with rr } []
  /-- It gets an id. -/
  | draw (c : Conn) (i : Input) (pc : (b.client c).pc = .chosen) :
      Move cfg b (.client c i) (drawID b c) []
  /-- It gets an address. -/
  | alloc (c : Conn) (i : Input) (addr : Addr) (pool : Pool) (pc : (b.client c).pc = .numbered)
      (alloc : b.ipPool.allocate = .ok (addr, pool)) :
      Move cfg b (.client c i)
        { (b.setClient c { b.client c with pc := .allocated, clientAddr := addr }) with
          ipPool := pool } []
  /-- It enters `b.sessions`. -/
  | insert (c : Conn) (i : Input) (pc : (b.client c).pc = .allocated) :
      Move cfg b (.client c i) (insertSession b c) []
  /-- A session is counted at its exit. -/
  | count (c : Conn) (i : Input) (pc : (b.client c).pc.uncounted = true) (pc' : ClientPC)
      (holds : pc'.phase = .holds) (counted : pc'.uncounted = false) :
      Move cfg b (.client c i) ((b.goto c pc').addActive (b.client c).ex 1) []
  /-- A parked session is resumed. -/
  | resume (c : Conn) (i : Input) (p ex : Conn) (pc : (b.client c).pc = .lock)
      (key : (b.client c).msg.resumeKey ≠ "")
      (found : b.parked.lookup (b.client c).msg.resumeKey = some p)
      (user : (b.sess p).username = (b.client c).user.username)
      (age : (b.now : ℤ) - (b.sess p).parkedAt < cfg.resumeTTL)
      (online : b.exits.lookup (b.sess p).nodeID = some ex)
      (listing : (b.client c).msg.listExits = false) :
      Move cfg b (.client c i) (resumeState b c p ex) []
  /-- A session is parked. -/
  | park (c : Conn) (i : Input) (q : Conn) (pc : (b.client c).pc = .dropped)
      (found : b.sessions.lookup (b.sess (b.client c).s).id = some q)
      (drop : (b.client c).intentional = false)
      (key : (b.sess (b.client c).s).resumeKey ≠ "") (ttl : 0 < cfg.resumeTTL) :
      Move cfg b (.client c i) (parkState cfg b c) []
  /-- A session is torn down by its goroutine. -/
  | close (c : Conn) (i : Input) (q : Conn) (pc' : ClientPC)
      (pc : (b.client c).pc = .dropped ∧ pc' = .closed ∨ (b.client c).pc = .ending ∧ pc' = .ended)
      (found : b.sessions.lookup (b.sess (b.client c).s).id = some q) :
      Move cfg b (.client c i) (closeState b c pc')
        [.release (b.client c).s (b.sess (b.client c).s).clientAddr]
  /-- A goroutine gives up a session that is not in `b.sessions`. -/
  | vanish (c : Conn) (i : Input)
      (pc : (b.client c).pc = .dropped ∨ (b.client c).pc = .ending)
      (found : b.sessions.lookup (b.sess (b.client c).s).id = none) :
      Move cfg b (.client c i) (b.goto c .done) []
  /-- A parked session expires. -/
  | expire (k : ℕ) (ok : Bool) (p : Conn) (pc : (b.timer k).pc = .fired)
      (found : b.parked.lookup (b.timer k).resumeKey = some p)
      (id : (b.sess p).id = (b.timer k).sid) (suspended : (b.sess p).suspended = true) :
      Move cfg b (.timer k ok) (expireState b k p) [.release p (b.sess p).clientAddr]

/-- A goroutine that gives its session up holds it. -/
theorem holds_of_leaving {pc : ClientPC} (h : pc = .dropped ∨ pc = .ending) : pc.phase = .holds := by
  rcases h with rfl | rfl <;> rfl

/-! ### Every step is a move -/

@[simp] theorem noRelease_nil : NoRelease [] := fun _ _ => by simp

@[simp] theorem noRelease_written (ok : Bool) (dst : Conn) (m : Control) :
    NoRelease (written ok dst m) := by
  intro p a
  cases ok <;> simp [written]

@[simp] theorem noRelease_publish (ev : BusEvent) : NoRelease [.publish ev] := fun _ _ => by simp

@[simp] theorem noRelease_close (c : Conn) : NoRelease [.close c] := fun _ _ => by simp

@[simp] theorem noRelease_dgram (c d : Conn) (dg : List UInt8) : NoRelease [.dgram c d dg] :=
  fun _ _ => by simp

section
variable {cfg : Config} {b b' : State} {a : Action} {c : Conn} {o : List Out}

theorem ExitStepped.move {ok : Bool} (h : ExitStepped b c ok b' o) : Move cfg b a b' o := by
  cases h <;> exact .env ⟨rfl, rfl, rfl, rfl, rfl⟩ rfl rfl (by simp)

theorem CtrlStepped.move {ok : Bool} {route : ℕ → Option Conn} {m : Control}
    (h : CtrlStepped b c ok route m b' o) : Move cfg b a b' o := by
  cases h <;> exact .env ⟨rfl, rfl, rfl, rfl, rfl⟩ rfl rfl (by simp)

theorem TimerStepped.move {k : ℕ} {ok : Bool} (h : TimerStepped b k ok b' o) :
    Move cfg b (.timer k ok) b' o := by
  cases h with
  | miss | disconnect => exact .env ⟨rfl, rfl, rfl, rfl, rfl⟩ rfl rfl noRelease_nil
  | expire p pc found id suspended => exact .expire k ok p pc found id suspended
  | write =>
    refine .env ⟨rfl, rfl, rfl, rfl, rfl⟩ rfl rfl ?_
    split
    · exact noRelease_nil
    · exact noRelease_written _ _ _
  | bye => exact .env ⟨rfl, rfl, rfl, rfl, rfl⟩ rfl rfl (noRelease_publish _)

/-! ### The client goroutine -/

/-- Goroutine `c` writes its local variables and moves on. -/
theorem Move.set {t' : ClientThread} (out : NoRelease o) (walk : Walk (b.client c) t') :
    Move cfg b a (b.setClient c t') o :=
  .walk c _ ⟨rfl, rfl, rfl, rfl, rfl⟩ rfl rfl out walk

/-- Goroutine `c` only moves its program counter. -/
theorem Walk.goto {t : ClientThread} {pc pc' : ClientPC} (hpc : t.pc = pc)
    (hw : pc.walks pc' = true) (hr : pc' ≠ .reply) : Walk t { t with pc := pc' } :=
  ⟨rfl, by rw [hpc]; exact hw, fun h => absurd h hr, fun _ => ⟨rfl, rfl, rfl, rfl⟩⟩

theorem ClientStepped.move {i : Input} (h : ClientStepped cfg b c i b' o) :
    Move cfg b (.client c i) b' o := by
  cases h with
  | reject e pc | list pc => exact .set noRelease_nil (.early pc rfl rfl (fun _ => rfl) rfl)
  | accept user pc => exact .set noRelease_nil (.early pc rfl rfl nofun rfl)
  | resume p ex pc key found user age online listing =>
    exact .resume c i p ex pc key found user age online listing
  | refuse rr pc =>
    exact .walk c _ ⟨rfl, rfl, rfl, rfl, rfl⟩ rfl rfl noRelease_nil
      (.early pc rfl rfl (fun _ => rfl) rfl)
  | choose ex rr pc chosen => exact .choose c i ex rr pc chosen
  | reply pc | startFailed pc | connectOK pc | suspend pc =>
    exact .set (noRelease_written _ _ _) (.goto pc rfl (by decide))
  | draw pc => exact .draw c i pc
  | alloc addr pool pc alloc => exact .alloc c i addr pool pc alloc
  | exhaust pc =>
    exact .set noRelease_nil ⟨rfl, by rw [pc]; rfl, fun _ => rfl, fun _ => ⟨rfl, rfl, rfl, rfl⟩⟩
  | insert pc => exact .insert c i pc
  | count pc => exact .count c i (by rw [pc]; rfl) .counted rfl rfl
  | connect pc | disconnect pc =>
    exact .walk c _ ⟨rfl, rfl, rfl, rfl, rfl⟩ rfl rfl noRelease_nil (.goto pc rfl (by decide))
  | recount pc => exact .count c i (by rw [pc]; rfl) .start rfl rfl
  | start pc =>
    refine .set (noRelease_written _ _ _) ⟨rfl, ?_, ?_, fun _ => ⟨rfl, rfl, rfl, rfl⟩⟩
    · rw [pc]
      cases i.ok <;> rfl
    · cases i.ok <;> exact nofun
  | started pc =>
    exact .set (noRelease_publish _) ⟨rfl, by rw [pc]; rfl, nofun, fun _ => ⟨rfl, rfl, rfl, rfl⟩⟩
  | vanish pc found => exact .vanish c i pc found
  | park q pc found drop key ttl => exact .park c i q pc found drop key ttl
  | close q pc' pc found => exact .close c i q pc' pc found
  | finish pc' pc =>
    rcases pc with ⟨pc, rfl⟩ | ⟨pc, rfl⟩
    · exact .set (noRelease_written _ _ _) (.goto pc rfl (by decide))
    · exact .set (noRelease_written _ _ _) (.goto pc rfl (by decide))
  | bye pc => exact .set (noRelease_publish _) (.goto pc rfl (by decide))

/-- **Every step is a move.** -/
theorem step_move (h : step cfg b a = some (b', o)) : Move cfg b a b' o := by
  cases stepped_of_step h with
  | tick d | users t | status | exitGone | lose | fire =>
    exact .env ⟨rfl, rfl, rfl, rfl, rfl⟩ rfl rfl noRelease_nil
  | connect c msg unused => exact .connect c msg unused
  | client c i step | clientCtrl c m ok _ step | exit c ok step | exitCtrl c m ok _ step
  | timer k ok step => exact step.move
  | drop c cause pc =>
    exact .set noRelease_nil ⟨rfl, by rw [pc]; rfl, nofun, fun _ => ⟨rfl, rfl, rfl, rfl⟩⟩
  | register c msg unused => exact .register c msg unused
  | relay => exact .env ⟨rfl, rfl, rfl, rfl, rfl⟩ rfl rfl (noRelease_dgram _ _ _)

end

theorem tryResume_eq {cfg : Config} {b : State} {k username : String} {c w p ex : Conn}
    (hp : b.parked.lookup k = some p)
    (hu : (b.sess p).username = username) (ht : (b.now : ℤ) - (b.sess p).parkedAt < cfg.resumeTTL)
    (hx : b.exits.lookup (b.sess p).nodeID = some ex) :
    ∃ b', tryResume cfg b k username c w = some (p, ex, b') := by
  simp [tryResume, hp, hu, hx, not_le.mpr ht]

theorem update_idle {b : State} {c d : Conn} {t' : ClientThread} (h : (b.client c).pc ≠ .idle)
    (h' : t'.pc ≠ .idle) :
    (Function.update b.client c t' d).pc = .idle ↔ (b.client d).pc = .idle := by
  rcases eq_or_ne d c with rfl | hd
  · rw [Function.update_self]
    exact iff_of_false h' h
  · rw [Function.update_of_ne hd]

/-- A goroutine is started by its `Connect` only, and never goes back. -/
theorem Move.idle {cfg : Config} {b b' : State} {a : Action} {o : List Out}
    (hm : Move cfg b a b' o) (d : Conn) :
    ((b'.client d).pc = .idle ↔ (b.client d).pc = .idle) ∨ ∃ msg, a = .connect d msg ∧ b.unused d := by
  cases hm with
  | env _ client => exact Or.inl (by rw [client])
  | connect c msg hu =>
    rcases eq_or_ne d c with rfl | hd
    · exact Or.inr ⟨msg, rfl, hu⟩
    · refine Or.inl ?_
      change (Function.update b.client c _ d).pc = .idle ↔ _
      rw [Function.update_of_ne hd]
  | register c msg =>
    rw [handleExit_client]
    exact Or.inl Iff.rfl
  | walk c t' _ client _ _ hw =>
    rw [client]
    exact Or.inl (update_idle hw.not_idle.1 hw.not_idle.2)
  | choose c i ex rr hpc | draw c i hpc | alloc c i addr pool hpc | insert c i hpc
  | resume c i p ex hpc | park c i q hpc => exact Or.inl (update_idle (by simp [hpc]) (by simp))
  | count c i hpc pc' hph =>
    refine Or.inl (update_idle ?_ ?_)
    · intro he; rw [he] at hpc; cases hpc
    · rintro rfl; cases hph
  | close c i q pc' hpc =>
    refine Or.inl (update_idle ?_ ?_)
    · rcases hpc with ⟨hpc, -⟩ | ⟨hpc, -⟩ <;> simp [hpc]
    · rcases hpc with ⟨-, rfl⟩ | ⟨-, rfl⟩ <;> simp
  | vanish c i hpc => exact Or.inl (update_idle (by rcases hpc with h | h <;> simp [h]) (by simp))
  | expire => exact Or.inl Iff.rfl

end Broker
end Revquic
