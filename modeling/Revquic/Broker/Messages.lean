/-
# What a step says

The control messages about sessions are written outside `b.mu`, each by a
goroutine that remembers in its program counter what it still has to say.
`Says` lists, once, every step that writes such a message, and what all other
steps leave alone: nobody who owes a message forgets it, and nobody goes on
as if `MsgSessionStart` had been written.

Key definitions: `ClientPC.told`, `Says`, `Timing`, `Replies`.
Key theorems: `says_of_step`, `timing_of_step`.
-/
import Revquic.Broker.Moves

namespace Revquic
namespace Broker

open Lib Netip Ippool Proto

/-- The goroutine runs a session and `MsgSessionStart` has been written. -/
def ClientPC.told : ClientPC → Bool
  | .connectOK | .started | .relay | .dropped => true
  | _ => false

theorem told_holds {pc : ClientPC} (h : pc.told = true) : pc.phase = .holds := by
  cases pc <;> first | rfl | cases h

/-- The messages that are not about a session's start or end. -/
def isSide : Control → Bool
  | .error _ | .signal _ _ _ | .pong _ _ => true
  | _ => false

/-- Every control message put out is a side message. -/
def SideOnly (o : List Out) : Prop := ∀ d m, Out.ctrl d m ∈ o → isSide m = true

/-- Every way a step can write to the control streams. -/
inductive Says (cfg : Config) (b : State) : Action → State → List Out → Prop
  /-- Nothing about a session. -/
  | quiet {a : Action} {b' : State} {o : List Out} (side : SideOnly o)
      (told : ∀ c, (b'.client c).pc.told = true → (b.client c).pc.told = true)
      (owes : ∀ c, (b.client c).pc.owes = true → b'.client c = b.client c)
      (timer : ∀ k, (b.timer k).pc = .write ∨ (b'.timer k).pc = .write → b'.timer k = b.timer k)
      (welcome : ∀ c, (b.exitT c).pc = .welcome → (b'.exitT c).pc = .welcome) : Says cfg b a b' o
  /-- `MsgRegisterOK`. -/
  | welcome (c : Conn) (ok : Bool) (pc : (b.exitT c).pc = .welcome) :
      Says cfg b (.exit c ok) (b.gotoExit c .nodeUp) (written ok c .registerOK)
  /-- The reply to a client that gets no session. -/
  | reply (c : Conn) (i : Input) (pc : (b.client c).pc = .reply) :
      Says cfg b (.client c i) (b.goto c .done) (written i.ok c (b.client c).reply)
  /-- `MsgSessionStart`. -/
  | start (c : Conn) (i : Input) (pc : (b.client c).pc = .start) :
      Says cfg b (.client c i)
        (b.setClient c { b.client c with
          pc := if i.ok then .connectOK else .startFailed
          ice := iceServers cfg b (b.sess (b.client c).s).id })
        (written i.ok (b.client c).ex
          (sessionStartMsg (b.sess (b.client c).s) (iceServers cfg b (b.sess (b.client c).s).id)))
  /-- `MsgConnectOK`. -/
  | connectOK (c : Conn) (i : Input) (pc : (b.client c).pc = .connectOK) :
      Says cfg b (.client c i) (b.goto c .started)
        (written i.ok c (connectOKMsg (b.sess (b.client c).s) (b.client c).ice))
  /-- `MsgSessionSuspend`. -/
  | suspend (c : Conn) (i : Input) (pc : (b.client c).pc = .parked) :
      Says cfg b (.client c i) (b.goto c .done)
        (written i.ok (b.client c).ex (.sessionSuspend (b.sess (b.client c).s).id))
  /-- `MsgSessionEnd`, from a session's goroutine. -/
  | finish (c : Conn) (i : Input) (pc' : ClientPC)
      (pc : (b.client c).pc = .ended ∧ pc' = .done ∨ (b.client c).pc = .closed ∧ pc' = .disconnect) :
      Says cfg b (.client c i) (b.goto c pc')
        (written i.ok (b.client c).ex (.sessionEnd (b.sess (b.client c).s).id))
  /-- Nothing yet: a parked session expires, and its timer owes the exit a
  message. -/
  | expire (k : ℕ) (ok : Bool) (p : Conn) (pc : (b.timer k).pc = .fired)
      (found : b.parked.lookup (b.timer k).resumeKey = some p)
      (id : (b.sess p).id = (b.timer k).sid) :
      Says cfg b (.timer k ok) (expireState b k p) [.release p (b.sess p).clientAddr]
  /-- `MsgSessionEnd`, from a park timer. -/
  | expired (k : ℕ) (ok : Bool) (pc : (b.timer k).pc = .write) :
      Says cfg b (.timer k ok) (b.gotoTimer k .disconnect)
        (match (b.timer k).ex with
          | none => []
          | some ex => written ok ex (.sessionEnd (b.timer k).sid))

/-! ### Timers -/

/-- Everything a step can do to the timers and the clock. -/
inductive Timing (cfg : Config) (b : State) : Action → State → Prop
  /-- Nothing, but time may pass. -/
  | same {a : Action} {b' : State} (timer : b'.timer = b.timer) (next : b'.nextTimer = b.nextTimer)
      (now : b.now ≤ b'.now) : Timing cfg b a b'
  /-- `AfterFunc`: a parked session gets a timer. -/
  | arm (c : Conn) (i : Input) (parks : b.parks cfg c) :
      Timing cfg b (.client c i) (parkState cfg b c)
  /-- `Stop`: a resumed session gives it up. -/
  | stop (c : Conn) (i : Input) (p ex : Conn) (pc : (b.client c).pc = .lock)
      (may : b.mayResume cfg c p) : Timing cfg b (.client c i) (resumeState b c p ex)
  /-- It expires. -/
  | fire (k : ℕ) (armed : (b.timer k).pc = .armed) (due : (b.timer k).deadline ≤ b.now) :
      Timing cfg b (.fire k) (b.gotoTimer k .fired)
  /-- Its callback moves on. -/
  | call (k : ℕ) (ok : Bool) (t' : Timer) {b' : State} (pc : (b.timer k).pc ≠ .unset)
      (timer : b'.timer = Function.update b.timer k t') (next : b'.nextTimer = b.nextTimer)
      (now : b'.now = b.now) (pc' : t'.pc ≠ .armed ∧ t'.pc ≠ .fired)
      (deadline : t'.deadline = (b.timer k).deadline) : Timing cfg b (.timer k ok) b'

section
variable {cfg : Config} {b b' : State} {a : Action} {c : Conn} {o : List Out}

/-- The step leaves the timers and the clock alone. -/
theorem Timing.still (timer : b'.timer = b.timer) (next : b'.nextTimer = b.nextTimer)
    (now : b'.now = b.now) : Timing cfg b a b' := .same timer next now.ge

theorem ClientStepped.timing {i : Input} (h : ClientStepped cfg b c i b' o) :
    Timing cfg b (.client c i) b' := by
  cases h with
  | resume p ex pc key found user age => exact .stop c i p ex pc ⟨found, user, age⟩
  | park q pc found drop key ttl => exact .arm c i ⟨pc, drop, key, ttl⟩
  | _ => exact .still rfl rfl rfl

theorem TimerStepped.timing {k : ℕ} {ok : Bool} (h : TimerStepped b k ok b' o) :
    Timing cfg b (.timer k ok) b' := by
  cases h with
  | expire p pc =>
    refine .call k ok _ (by simp [pc]) rfl rfl rfl ?_ rfl
    dsimp only
    split <;> simp
  | miss pc | write pc | disconnect pc | bye pc =>
    exact .call k ok _ (by simp [pc]) rfl rfl rfl (by simp) rfl

theorem timing_of_step (hs : step cfg b a = some (b', o)) : Timing cfg b a b' := by
  cases stepped_of_step hs with
  | tick d => exact .same rfl rfl (Nat.le_add_right _ _)
  | client c i step => exact step.timing
  | fire k armed due => exact .fire k armed due
  | timer k ok step => exact step.timing
  | register c msg =>
    unfold handleExit
    split <;> exact .still rfl rfl rfl
  | clientCtrl c m ok _ step | exitCtrl c m ok _ step | exit c ok step =>
    cases step <;> exact .still rfl rfl rfl
  | _ => exact .still rfl rfl rfl

end

/-- The timer that `suspendSession` starts next is a new one. -/
def TimersBelow (b : State) : Prop := ∀ k, b.nextTimer ≤ k → (b.timer k).pc = .unset

namespace TimersBelow

variable {cfg : Config} {users : Userstore.Table} {b b' : State} {a : Action} {c : Conn}
  {o : List Out} {tr : List (Event State Action Out)}

theorem same (h : TimersBelow b) (timer : b'.timer = b.timer) (next : b'.nextTimer = b.nextTimer) :
    TimersBelow b' := by
  intro k hk
  rw [timer]
  exact h k (next ▸ hk)

/-- A timer that has been started changes. -/
theorem set (h : TimersBelow b) {k : ℕ} {t' : Timer} (hk : (b.timer k).pc ≠ .unset)
    (timer : b'.timer = Function.update b.timer k t') (next : b'.nextTimer = b.nextTimer) :
    TimersBelow b' := by
  intro j hj
  rw [next] at hj
  rw [timer, Function.update_of_ne]
  · exact h j hj
  · rintro rfl
    exact hk (h j hj)

/-- The next timer is started. -/
theorem arm (h : TimersBelow b) {t' : Timer} (timer : b'.timer = Function.update b.timer b.nextTimer t')
    (next : b'.nextTimer = b.nextTimer + 1) : TimersBelow b' := by
  intro j hj
  rw [next] at hj
  rw [timer, Function.update_of_ne (by omega)]
  exact h j (by omega)

theorem step (h : TimersBelow b) (hs : step cfg b a = some (b', o)) : TimersBelow b' := by
  cases timing_of_step hs with
  | same timer next => exact h.same timer next
  | arm c i hp => exact h.arm rfl rfl
  | stop c i p ex =>
    cases hk : (b.sess p).suspendTimer with
    | none => exact h.same (by simp [resumeState, stopTimer, hk]) rfl
    | some k =>
      by_cases ha : (b.timer k).pc = .armed
      · exact h.set (k := k) (by simp [ha]) (by simp [resumeState, stopTimer, hk, ha]; rfl) rfl
      · exact h.same (by simp [resumeState, stopTimer, hk, ha]) rfl
  | fire k ha => exact h.set (by simp [ha]) rfl rfl
  | call k ok t' hpc timer next => exact h.set hpc timer next

theorem of_run (h : (machine cfg users).Run tr b) : TimersBelow b :=
  h.invariant (fun _ _ => rfl) fun _ _ _ _ hb hs => hb.step hs

end TimersBelow

/-! ### Every step -/

theorem sideOnly_nil : SideOnly [] := fun _ _ h => by cases h

theorem sideOnly_written {ok : Bool} {dst : Conn} {m : Control} (hm : isSide m = true) :
    SideOnly (written ok dst m) := by
  intro d m' h
  cases ok
  · cases h
  · obtain ⟨rfl, rfl⟩ := by simpa [written] using h
    exact hm

theorem sideOnly_other {x : Out} (hx : ∀ d m, x ≠ .ctrl d m) : SideOnly [x] := by
  intro d m h
  exact absurd (List.mem_singleton.mp h).symm (hx d m)

theorem mem_written {ok : Bool} {dst d : Conn} {m m' : Control}
    (h : Out.ctrl d m ∈ written ok dst m') : ok = true ∧ d = dst ∧ m = m' := by
  cases ok
  · cases h
  · simpa [written] using h

section
variable {cfg : Config} {b b' : State} {a : Action} {c : Conn} {o : List Out}

/-- The goroutines of the clients and the timers stay. -/
theorem Says.still (side : SideOnly o) (client : b'.client = b.client) (timer : b'.timer = b.timer)
    (welcome : ∀ c, (b.exitT c).pc = .welcome → (b'.exitT c).pc = .welcome) : Says cfg b a b' o :=
  .quiet side (fun _ h => by rwa [client] at h) (fun _ _ => by rw [client])
    (fun _ _ => by rw [timer]) welcome

/-- An exit's goroutine moves on. -/
theorem Says.exit (side : SideOnly o) {t' : ExitThread} (client : b'.client = b.client)
    (timer : b'.timer = b.timer) (exitT : b'.exitT = Function.update b.exitT c t')
    (hpc : (b.exitT c).pc ≠ .welcome) : Says cfg b a b' o := by
  refine .still side client timer fun d hd => ?_
  rw [exitT, Function.update_of_ne]
  · exact hd
  · rintro rfl
    exact hpc hd

/-- A client's goroutine moves on. -/
theorem Says.move (side : SideOnly o) {t' : ClientThread}
    (client : b'.client = Function.update b.client c t')
    (timer : ∀ k, (b.timer k).pc = .write ∨ (b'.timer k).pc = .write → b'.timer k = b.timer k)
    (exitT : b'.exitT = b.exitT)
    (told : t'.pc.told = true → (b.client c).pc.told = true) (owes : (b.client c).pc.owes = false) :
    Says cfg b a b' o := by
  refine .quiet side (fun d hd => ?_) (fun d hd => ?_) timer fun d hd => by rwa [exitT]
  · rw [client] at hd
    by_cases hdc : d = c
    · subst hdc
      rw [Function.update_self] at hd
      exact told hd
    · rwa [Function.update_of_ne hdc] at hd
  · rw [client, Function.update_of_ne]
    rintro rfl
    rw [owes] at hd
    cases hd

/-- A timer's callback moves on. -/
theorem Says.tick (side : SideOnly o) {k : ℕ} {t' : Timer} (client : b'.client = b.client)
    (timer : b'.timer = Function.update b.timer k t') (hpc : (b.timer k).pc ≠ .write)
    (hpc' : t'.pc ≠ .write) (exitT : b'.exitT = b.exitT) : Says cfg b a b' o := by
  refine .quiet side (fun _ h => by rwa [client] at h) (fun _ _ => by rw [client]) (fun j hj => ?_)
    fun d hd => by rwa [exitT]
  rw [timer] at hj ⊢
  rw [Function.update_of_ne]
  rintro rfl
  rw [Function.update_self] at hj
  exact hj.elim hpc hpc'

theorem ExitStepped.says {ok : Bool} (h : ExitStepped b c ok b' o) :
    Says cfg b (.exit c ok) b' o := by
  cases h with
  | welcome pc => exact .welcome c ok pc
  | refuse pc | notify p rest pc => exact .exit (sideOnly_written rfl) rfl rfl rfl (by simp [pc])
  | close p rest pc | publishUp pc | publishUpdate pc | publishGone pc =>
    exact .exit (sideOnly_other (by simp)) rfl rfl rfl (by simp [pc])
  | up pc | announce pc | gone pc | down pc | scan pc => exact .exit sideOnly_nil rfl rfl rfl (by simp [pc])

theorem CtrlStepped.says {ok : Bool} {route : ℕ → Option Conn} {m : Control}
    (h : CtrlStepped b c ok route m b' o) : Says cfg b a b' o := by
  cases h with
  | forward | ping => exact .still (sideOnly_written rfl) rfl rfl fun _ => id
  | report | ignore => exact .still sideOnly_nil rfl rfl fun _ => id

theorem TimerStepped.says {k : ℕ} {ok : Bool} (h : TimerStepped b k ok b' o) :
    Says cfg b (.timer k ok) b' o := by
  cases h with
  | miss pc | disconnect pc =>
    exact .tick sideOnly_nil rfl rfl (by simp [pc]) (fun h => by cases h) rfl
  | expire p pc found id => exact .expire k ok p pc found id
  | write pc => exact .expired k ok pc
  | bye pc => exact .tick (sideOnly_other (by simp)) rfl rfl (by simp [pc]) (fun h => by cases h) rfl

theorem stopTimer_write {timer : ℕ → Timer} {k : ℕ} : ∀ s,
    (timer k).pc = .write ∨ (stopTimer timer s k).pc = .write → stopTimer timer s k = timer k
  | none, _ => rfl
  | some j, hk => by
    simp only [stopTimer] at hk ⊢
    split at hk
    · rename_i hj
      rw [if_pos hj, Function.update_of_ne]
      rintro rfl
      rw [Function.update_self, hj] at hk
      rcases hk with h | h <;> cases h
    · rename_i hj
      rw [if_neg hj]

/-- A client's goroutine moves on and touches no timer. -/
theorem Says.set {t' : ClientThread} {pc : ClientPC} (hpc : (b.client c).pc = pc)
    (side : SideOnly o) (client : b'.client = Function.update b.client c t')
    (timer : b'.timer = b.timer) (exitT : b'.exitT = b.exitT)
    (told : t'.pc.told = true → pc.told = true) (owes : pc.owes = false) : Says cfg b a b' o :=
  .move side client (fun _ _ => by rw [timer]) exitT (by rwa [hpc]) (by rwa [hpc])

theorem ClientStepped.says (ht : TimersBelow b) {i : Input} (h : ClientStepped cfg b c i b' o) :
    Says cfg b (.client c i) b' o := by
  cases h with
  | resume p ex pc =>
    exact .move sideOnly_nil rfl (fun k => stopTimer_write _) rfl (fun h => by cases h)
      (by rw [pc]; rfl)
  | reply pc => exact .reply c i pc
  | start pc => exact .start c i pc
  | startFailed pc => exact .set pc (sideOnly_written rfl) rfl rfl rfl (fun h => by cases h) rfl
  | connectOK pc => exact .connectOK c i pc
  | started pc => exact .set pc (sideOnly_other (by simp)) rfl rfl rfl (fun _ => rfl) rfl
  | vanish pc =>
    rcases pc with pc | pc
    · exact .set pc sideOnly_nil rfl rfl rfl (fun h => by cases h) rfl
    · exact .set pc sideOnly_nil rfl rfl rfl (fun h => by cases h) rfl
  | park q pc =>
    refine .move sideOnly_nil rfl (fun k hk => ?_) rfl (fun h => by cases h) (by rw [pc]; rfl)
    -- the timer that is started is a new one
    change (b.timer k).pc = .write ∨ (Function.update b.timer b.nextTimer _ k).pc = .write at hk
    refine Function.update_of_ne ?_ _ _
    rintro rfl
    rw [ht _ le_rfl, Function.update_self] at hk
    rcases hk with h | h <;> cases h
  | close q pc' pc =>
    rcases pc with ⟨pc, rfl⟩ | ⟨pc, rfl⟩
    · exact .set pc (sideOnly_other (by simp)) rfl rfl rfl (fun h => by cases h) rfl
    · exact .set pc (sideOnly_other (by simp)) rfl rfl rfl (fun h => by cases h) rfl
  | suspend pc => exact .suspend c i pc
  | finish pc' pc => exact .finish c i pc' pc
  | bye pc => exact .set pc (sideOnly_other (by simp)) rfl rfl rfl (fun h => by cases h) rfl
  | reject _ pc | accept _ pc | list pc | refuse _ pc | choose _ _ pc | draw pc | alloc _ _ pc
  | exhaust pc | insert pc | count pc | connect pc | recount pc | disconnect pc =>
    exact .set pc sideOnly_nil rfl rfl rfl (fun h => by cases h) rfl

/-- **Every step says nothing, or one message.** -/
theorem says_of_step (ht : TimersBelow b) (h : step cfg b a = some (b', o)) : Says cfg b a b' o := by
  cases stepped_of_step h with
  | tick d | users t | lose => exact .still sideOnly_nil rfl rfl fun _ => id
  | connect c msg unused => exact .set unused.1 sideOnly_nil rfl rfl rfl (fun h => by cases h) rfl
  | client c i step => exact step.says ht
  | drop c cause pc => exact .set pc sideOnly_nil rfl rfl rfl (fun _ => rfl) rfl
  | clientCtrl c m ok _ step | exit c ok step | exitCtrl c m ok _ step | timer k ok step =>
    exact step.says
  | register c msg unused =>
    have hpc : (b.exitT c).pc ≠ .welcome := by simp [unused.2]
    unfold handleExit
    split <;> exact .exit sideOnly_nil rfl rfl rfl hpc
  | status c _ _ _ _ pc | exitGone c pc => exact .exit sideOnly_nil rfl rfl rfl (by simp [pc])
  | relay => exact .still (sideOnly_other (by simp)) rfl rfl fun _ => id
  | fire k armed => exact .tick sideOnly_nil rfl rfl (by simp [armed]) (fun h => by cases h) rfl

/-! ### Replies -/

/-- A goroutine on its way to a reply has no session in it. -/
def Replies (b : State) : Prop :=
  ∀ c, (b.client c).pc = .reply → isRefusal (b.client c).reply = true

theorem Replies.update (h : Replies b) {t : ClientThread}
    (client : b'.client = Function.update b.client c t)
    (ht : t.pc = .reply → isRefusal t.reply = true) : Replies b' := by
  intro d
  rw [client]
  by_cases hdc : d = c
  · subst hdc
    rw [Function.update_self]
    exact ht
  · rw [Function.update_of_ne hdc]
    exact h d

theorem Replies.move (h : Replies b) (hm : Move cfg b a b' o) : Replies b' := by
  cases hm with
  | env _ client =>
    intro d
    rw [client]
    exact h d
  | register c msg =>
    intro d
    rw [handleExit_client]
    exact h d
  | walk c t' _ client _ _ hw => exact h.update client hw.reply
  | count c i _ pc' hph =>
    refine h.update (b := b) (t := { b.client c with pc := pc' }) rfl fun hr => ?_
    change pc' = .reply at hr
    rw [hr] at hph
    cases hph
  | close c i q pc' hpc =>
    refine h.update (b := b) (t := { b.client c with pc := pc' }) rfl fun hr => ?_
    rcases hpc with ⟨-, rfl⟩ | ⟨-, rfl⟩ <;> cases hr
  | expire => exact h
  | _ => exact h.update (b := b) rfl (fun h => by cases h)

/-- A `MsgConnectOK` with a session is written by the goroutine that runs
it. -/
theorem connectOK_written (hr : Replies b) (hs : Says cfg b a b' o) {c : Conn} {sid mtu : ℕ}
    {ip mask : String} {ice : IceServers}
    (ho : Out.ctrl c (.connectOK sid ip mask mtu ice) ∈ o) :
    (∃ i, a = .client c i) ∧ (b.client c).pc = .connectOK ∧ b' = b.goto c .started ∧
      sid = (b.sess (b.client c).s).id ∧ ip = (b.sess (b.client c).s).clientIP := by
  cases hs with
  | quiet side => cases side _ _ ho
  | welcome d ok hpc | start d i hpc | suspend d i hpc | finish d i pc' hpc =>
    cases (mem_written ho).2.2
  | reply d i hpc =>
    have := hr d hpc
    rw [← (mem_written ho).2.2] at this
    cases this
  | connectOK d i hpc =>
    obtain ⟨-, rfl, hm⟩ := mem_written ho
    unfold connectOKMsg at hm
    obtain ⟨rfl, rfl, -⟩ := by simpa using hm
    exact ⟨⟨i, rfl⟩, hpc, rfl, rfl, rfl⟩
  | expire k ok p hpc => simp at ho
  | expired k ok hpc =>
    split at ho
    · cases ho
    · cases (mem_written ho).2.2

end
end Broker
end Revquic
