/-
# The resume window

A parked session can be resumed until `resumeTTL` after it was parked. Two
things take it out of `b.parked` before that: another session parked under
the same key, and the timer of an earlier parking of the same session.

The second needs a schedule that the steps of `Step` do not have. `tryResume`
reads the clock with `time.Since` and only then calls `Stop`. When the timer
expires between the two, the callback is under way and waits for `b.mu`. If
it takes it only after the session has been resumed and parked again,
`expirePark` finds the session under its key, with its id, and ends it.
`lateStep` adds these schedules.

Key definitions: `lateStep`, `lateMachine`, `Spares`, `InTime`.
Key theorem: `window_honoured`.
-/
import Revquic.Broker.Duties
import Revquic.Broker.Address

namespace Revquic
namespace Broker

open Lib Proto

/-! ### Timers that expire inside `tryResume` -/

/-- The steps of a broker, and the `b.mu` section of client `c` during which
`d` passes and timer `k` expires: after the reading of the clock, before
`Stop`. -/
inductive LateAction
  | plain (a : Action)
  | late (c : Conn) (i : Input) (k d : ℕ)

def lateStep (cfg : Config) (b : State) : LateAction → Option (State × List Out)
  | .plain a => step cfg b a
  | .late c i k d =>
    if (b.client c).pc = .lock ∧ (b.timer k).pc = .armed ∧
        (b.timer k).deadline ≤ ((b.now + d : ℕ) : ℤ) then
      (step cfg (b.gotoTimer k .fired) (.client c i)).map fun r =>
        ({ r.1 with now := r.1.now + d }, r.2)
    else none

/-- The broker, with these steps. -/
def lateMachine (cfg : Config) (users : Userstore.Table) : Machine State LateAction Out :=
  ⟨newBroker users, lateStep cfg⟩

/-- A script in which no timer expires inside `tryResume`. -/
def inTime (as : List Action) : List LateAction := as.map .plain

/-- The client whose goroutine takes the step. -/
def LateAction.client : LateAction → Option Conn
  | .plain (.client c _) => some c
  | .late c _ _ _ => some c
  | _ => none

/-- The step parks the session that the `Connect` of `p` created. -/
def Suspends (cfg : Config) (e : Event State LateAction Out) (p : Conn) : Prop :=
  ∃ c ∈ e.act.client, e.pre.parks cfg c ∧ (e.pre.client c).s = p

/-- The step resumes it. -/
def Reattaches (e : Event State LateAction Out) (p : Conn) : Prop :=
  ∃ c ∈ e.act.client, (e.pre.client c).pc = .lock ∧ (e.post.client c).pc = .resumed ∧
    (e.post.client c).s = p

instance (cfg : Config) (e : Event State LateAction Out) (p : Conn) :
    Decidable (Suspends cfg e p) :=
  inferInstanceAs (Decidable (∃ c ∈ e.act.client, e.pre.parks cfg c ∧ (e.pre.client c).s = p))

instance (e : Event State LateAction Out) (p : Conn) : Decidable (Reattaches e p) :=
  inferInstanceAs (Decidable (∃ c ∈ e.act.client, (e.pre.client c).pc = .lock ∧
    (e.post.client c).pc = .resumed ∧ (e.post.client c).s = p))

/-- When the session was parked, unless it has been resumed since. -/
def parkedSince (cfg : Config) (p : Conn) (tr : List (Event State LateAction Out)) : Option ℕ :=
  tr.foldl (fun t e =>
    if Suspends cfg e p then some e.pre.now else if Reattaches e p then none else t) none

/-- The step spares the windows: it parks no session under a key whose
parked session can still be resumed, and no callback finds its session parked
again, with another timer. -/
def Spares (cfg : Config) (b : State) : LateAction → Prop
  | .plain (.client c _) => b.parks cfg c →
    ∀ q ∈ b.parked.lookup (b.sess (b.client c).s).resumeKey,
      ((b.sess q).parkedAt : ℤ) + cfg.resumeTTL ≤ b.now
  | .plain (.timer k _) => (b.timer k).pc = .fired →
    ∀ q ∈ b.parked.lookup (b.timer k).resumeKey,
      (b.sess q).id = (b.timer k).sid → (b.sess q).suspendTimer = some k
  | _ => True

instance (cfg : Config) (b : State) : DecidablePred (Spares cfg b)
  | .plain (.client c _) => inferInstanceAs (Decidable (b.parks cfg c → ∀ _ ∈ _, _))
  | .plain (.timer k _) => inferInstanceAs (Decidable ((b.timer k).pc = .fired → ∀ _ ∈ _, _))
  | .plain (.tick _) | .plain (.users _) | .plain (.connect _ _) | .plain (.drop _ _)
  | .plain (.clientCtrl _ _ _) | .plain (.register _ _) | .plain (.exit _ _)
  | .plain (.exitCtrl _ _ _) | .plain (.exitGone _) | .plain (.datagram _ _) | .plain (.fire _)
  | .late _ _ _ _ => isTrue trivial

/-! ### The timers of the parked sessions -/

/-- A parked session has a timer, set for the end of its window. -/
def Clocks (cfg : Config) (b : State) : Prop :=
  ∀ key p, b.parked.lookup key = some p → ∃ k < b.nextTimer, (b.sess p).suspendTimer = some k ∧
    (b.timer k).deadline = ((b.sess p).parkedAt : ℤ) + cfg.resumeTTL

/-- No timer has expired before its time, at time `T`. -/
def Due (T : ℤ) (b : State) : Prop := ∀ k, (b.timer k).pc = .fired → (b.timer k).deadline ≤ T

section
variable {cfg : Config} {users : Userstore.Table} {b b' : State} {a : Action} {o : List Out}

theorem stopTimer_eq (timer : ℕ → Timer) (s : Option ℕ) (k : ℕ) :
    stopTimer timer s k = timer k ∨
      (timer k).pc = .armed ∧ s = some k ∧ stopTimer timer s k = { timer k with pc := .stopped } := by
  cases s with
  | none => exact Or.inl rfl
  | some j =>
    unfold stopTimer
    dsimp only
    split_ifs with hj
    · by_cases hk : k = j
      · subst hk
        exact Or.inr ⟨hj, rfl, Function.update_self _ _ _⟩
      · exact Or.inl (Function.update_of_ne hk _ _)
    · exact Or.inl rfl

theorem parkState_timer_self (cfg : Config) (b : State) (c : Conn) :
    (parkState cfg b c).timer b.nextTimer =
      { pc := .armed, deadline := b.now + cfg.resumeTTL,
        resumeKey := (b.sess (b.client c).s).resumeKey, sid := (b.sess (b.client c).s).id } :=
  Function.update_self _ _ _

theorem parkState_timer_of_ne (cfg : Config) {b : State} (c : Conn) {k : ℕ} (h : k ≠ b.nextTimer) :
    (parkState cfg b c).timer k = b.timer k := Function.update_of_ne h _ _

theorem Timing.now_le (h : Timing cfg b a b') : b.now ≤ b'.now := by
  cases h with
  | same _ _ now => exact now
  | call k ok t' _ _ _ now => exact now.ge
  | _ => exact le_rfl

theorem Timing.next_le (h : Timing cfg b a b') : b.nextTimer ≤ b'.nextTimer := by
  cases h with
  | same _ next => exact next.ge
  | call k ok t' _ _ next => exact next.ge
  | arm => exact Nat.le_succ _
  | _ => exact le_rfl

/-- A timer keeps its deadline. -/
theorem Timing.deadline (h : Timing cfg b a b') {k : ℕ} (hk : k < b.nextTimer) :
    (b'.timer k).deadline = (b.timer k).deadline := by
  cases h with
  | same timer => rw [timer]
  | arm c i =>
    rw [parkState_timer_of_ne cfg c hk.ne]
  | stop c i p ex =>
    change (stopTimer b.timer (b.sess p).suspendTimer k).deadline = _
    rcases stopTimer_eq b.timer (b.sess p).suspendTimer k with h | ⟨-, -, h⟩ <;> rw [h]
  | fire j =>
    change (Function.update b.timer j _ k).deadline = _
    rw [Function.update_apply]
    split_ifs with hj
    · rw [hj]
    · rfl
  | call j ok t' _ timer _ _ _ hd =>
    rw [timer, Function.update_apply]
    split_ifs with hj
    · rw [hj, hd]
    · rfl

/-- A timer expires when it is due. -/
theorem Timing.due (h : Timing cfg b a b') {T : ℤ} (hT : (b.now : ℤ) ≤ T) (hd : Due T b) :
    Due T b' := by
  intro k hk
  cases h with
  | same timer =>
    rw [timer] at hk ⊢
    exact hd k hk
  | arm c i =>
    by_cases hkn : k = b.nextTimer
    · subst hkn
      rw [parkState_timer_self] at hk
      cases hk
    · rw [parkState_timer_of_ne cfg c hkn] at hk ⊢
      exact hd k hk
  | stop c i p ex =>
    change (stopTimer b.timer (b.sess p).suspendTimer k).pc = .fired at hk
    change (stopTimer b.timer (b.sess p).suspendTimer k).deadline ≤ T
    rcases stopTimer_eq b.timer (b.sess p).suspendTimer k with h | ⟨-, -, h⟩
    · rw [h] at hk ⊢
      exact hd k hk
    · rw [h] at hk
      cases hk
  | fire j _ hdue =>
    change (Function.update b.timer j _ k).deadline ≤ T
    change (Function.update b.timer j _ k).pc = .fired at hk
    by_cases hj : k = j
    · subst hj
      rw [Function.update_self]
      exact hdue.trans hT
    · rw [Function.update_of_ne hj] at hk ⊢
      exact hd k hk
  | call j ok t' _ timer _ _ hpc =>
    rw [timer] at hk ⊢
    by_cases hj : k = j
    · subst hj
      rw [Function.update_self] at hk
      exact absurd hk hpc.2
    · rw [Function.update_of_ne hj] at hk ⊢
      exact hd k hk

theorem Clocks.init (cfg : Config) (users : Userstore.Table) : Clocks cfg (newBroker users) :=
  fun _ p hp => absurd (live_of_parked hp) (not_live_newBroker users p)

theorem Clocks.step (h : Clocks cfg b) (hrep : Rep b) (hm : Move cfg b a b' o)
    (ht : Timing cfg b a b') : Clocks cfg b' := by
  intro key p hp
  rcases hm.parked hrep hp with ⟨hp₀, hsess⟩ | ⟨c, i, rfl, hparks, rfl, rfl⟩
  · obtain ⟨k, hlt, htimer, hd⟩ := h key p hp₀
    rw [hsess]
    exact ⟨k, hlt.trans_le ht.next_le, htimer, by rw [ht.deadline hlt, hd]⟩
  · refine ⟨b.nextTimer, Nat.lt_succ_self _, ?_, ?_⟩
    · rw [parkState_sess_self]
    · rw [parkState_sess_self, parkState_timer_self]

/-- A timer expires, be it due or not. -/
theorem Clocks.fire (h : Clocks cfg b) (k : ℕ) : Clocks cfg (b.gotoTimer k .fired) := by
  intro key p hp
  obtain ⟨j, hlt, htimer, hd⟩ := h key p hp
  refine ⟨j, hlt, htimer, Eq.trans ?_ hd⟩
  simp only [State.gotoTimer_timer, Function.update_apply]
  split_ifs with hj
  · rw [hj]
  · rfl

end

/-! ### Every run -/

/-- What every step keeps. -/
structure InTime (cfg : Config) (b : State) : Prop where
  rep : Rep b
  clocks : Clocks cfg b
  due : Due b.now b

section
variable {cfg : Config} {users : Userstore.Table} {b b' : State} {o : List Out}
  {tr : List (Event State LateAction Out)}

theorem InTime.plain (h : InTime cfg b) {a : Action} (hs : step cfg b a = some (b', o)) :
    InTime cfg b' := by
  have ht := timing_of_step hs
  refine ⟨h.rep.move (step_move hs), h.clocks.step h.rep (step_move hs) ht, fun k hk => ?_⟩
  exact (ht.due le_rfl h.due k hk).trans (by exact_mod_cast ht.now_le)

/-- A late step: the timer expires, the goroutine goes through `b.mu` with
the clock as it has read it, and time has passed. -/
theorem late_cases {c : Conn} {i : Input} {k d : ℕ}
    (hs : lateStep cfg b (.late c i k d) = some (b', o)) :
    (b.client c).pc = .lock ∧ (b.timer k).pc = .armed ∧
      (b.timer k).deadline ≤ ((b.now + d : ℕ) : ℤ) ∧
      ∃ b₁, step cfg (b.gotoTimer k .fired) (.client c i) = some (b₁, o) ∧
        b' = { b₁ with now := b₁.now + d } := by
  simp only [lateStep] at hs
  split_ifs at hs with hg
  obtain ⟨⟨b₁, o₁⟩, h1, h2⟩ := Option.map_eq_some_iff.mp hs
  cases h2
  exact ⟨hg.1, hg.2.1, hg.2.2, b₁, h1, rfl⟩

/-- The state in which a late step takes `b.mu`. -/
theorem rep_fired (h : Rep b) (k : ℕ) : Rep (b.gotoTimer k .fired) := by
  have hm : Move {} b (.fire k) (b.gotoTimer k .fired) [] :=
    .env ⟨rfl, rfl, rfl, rfl, rfl⟩ rfl rfl noRelease_nil
  exact h.move hm

theorem InTime.late (h : InTime cfg b) {c : Conn} {i : Input} {k d : ℕ}
    (hs : lateStep cfg b (.late c i k d) = some (b', o)) : InTime cfg b' := by
  obtain ⟨hpc, -, hdl, b₁, hs₁, rfl⟩ := late_cases hs
  have hrep := rep_fired h.rep k
  have ht := timing_of_step hs₁
  have hother : ∀ j, j ≠ k → (b.gotoTimer k .fired).timer j = b.timer j :=
    fun j hj => Function.update_of_ne hj _ _
  have hself : (b.gotoTimer k .fired).timer k = { b.timer k with pc := .fired } :=
    Function.update_self _ _ _
  have hclocks : Clocks cfg b₁ := (h.clocks.fire k).step hrep (step_move hs₁) ht
  have hdue : Due ((b.now + d : ℕ) : ℤ) (b.gotoTimer k .fired) := by
    intro j hj
    by_cases hjk : j = k
    · subst hjk
      rw [hself]
      exact hdl
    · rw [hother j hjk] at hj ⊢
      have := h.due j hj
      omega
  have htick : step cfg b₁ (.tick d) = some ({ b₁ with now := b₁.now + d }, []) := rfl
  refine ⟨(hrep.move (step_move hs₁)).move (step_move htick), ?_, fun j hj => ?_⟩
  · exact hclocks.step (hrep.move (step_move hs₁)) (step_move htick) (timing_of_step htick)
  · have hnow : b.now ≤ b₁.now := ht.now_le
    have h1 := ht.due (T := ((b.now + d : ℕ) : ℤ)) (by simp [State.gotoTimer, State.setTimer]) hdue j hj
    exact h1.trans (by exact_mod_cast Nat.add_le_add_right hnow d)

theorem InTime.of_run (h : (lateMachine cfg users).Run tr b) : InTime cfg b := by
  refine h.invariant ⟨Rep.init users, Clocks.init cfg users, nofun⟩ ?_
  intro s a s' o hi hs
  cases a with
  | plain a => exact hi.plain hs
  | late c i k d => exact hi.late hs

/-! ### The window -/

/-- Within its window, a parked session stays or is resumed. -/
theorem InTime.keeps (h : InTime cfg b) {a : LateAction} (hs : lateStep cfg b a = some (b', o))
    (hsp : Spares cfg b a) {key : String} {p : Conn} (hp : b.parked.lookup key = some p)
    (hw : (b.now : ℤ) < (b.sess p).parkedAt + cfg.resumeTTL) :
    b'.parked.lookup key = some p ∧ b'.sess p = b.sess p ∨ Reattaches ⟨b, a, o, b'⟩ p := by
  have hresumed : ∀ (b : State) (c ex : Conn), ((resumeState b c p ex).client c).pc = .resumed ∧
      ((resumeState b c p ex).client c).s = p := by
    intro b c ex
    simp
  cases a with
  | plain a =>
    rcases (step_move hs).unparks h.rep hp with hstay | ⟨c, i, ex, rfl, hpc, -, -, rfl⟩ |
        ⟨c, i, rfl, hparks, hkey, -⟩ | ⟨j, ok, rfl, hfired, rfl, hid, -⟩
    · exact Or.inl hstay
    · exact Or.inr ⟨c, rfl, hpc, hresumed b c ex⟩
    · -- another session is parked under the key: the window would be over
      have h1 := hsp hparks p (by rw [hkey]; exact hp)
      omega
    · -- a timer has expired: it is that of the session, and due
      have htimer := hsp hfired p hp hid
      obtain ⟨k, -, hk, hdl⟩ := h.clocks _ p hp
      obtain rfl := Option.some.inj (hk.symm.trans htimer)
      have h1 := h.due k hfired
      omega
  | late c i k d =>
    obtain ⟨hpc, -, -, b₁, hs₁, rfl⟩ := late_cases hs
    have hlock : ((b.gotoTimer k .fired).client c).pc = .lock := hpc
    rcases (step_move hs₁).unparks (rep_fired h.rep k) hp with hstay | ⟨c', i', ex, hact, -, -, -, rfl⟩ |
        ⟨c', i', hact, hparks, -⟩ | ⟨j, ok, hact, -⟩
    · exact Or.inl hstay
    · obtain ⟨rfl, -⟩ := Action.client.inj hact
      exact Or.inr ⟨c, rfl, hpc, hresumed (b.gotoTimer k .fired) c ex⟩
    · obtain ⟨rfl, -⟩ := Action.client.inj hact
      rw [hparks.1] at hlock
      cases hlock
    · cases hact

/-- A session that was parked and has not been resumed since is parked for
the whole window. -/
theorem parked_of_run (h : (lateMachine cfg users).Run tr b) :
    (∀ e ∈ tr, Spares cfg e.pre e.act) → ∀ p t, parkedSince cfg p tr = some t →
      (b.now : ℤ) < t + cfg.resumeTTL →
      b.parked.lookup (b.sess p).resumeKey = some p ∧ (b.sess p).parkedAt = t := by
  induction h with
  | nil => intro _ p t hp; cases hp
  | @snoc tr b b' a o hr hs ih =>
    intro hsp p t hp ht
    simp only [List.mem_append, List.mem_singleton] at hsp
    have hin := InTime.of_run hr
    have hspa : Spares cfg b a := hsp _ (Or.inr rfl)
    have hnow : b.now ≤ b'.now := by
      cases a with
      | plain a => exact (timing_of_step hs).now_le
      | late c i k d =>
        obtain ⟨-, -, -, b₁, hs₁, rfl⟩ := late_cases hs
        have : b.now ≤ b₁.now := (timing_of_step hs₁).now_le
        exact this.trans (Nat.le_add_right _ _)
    simp only [parkedSince, List.foldl_append, List.foldl_cons, List.foldl_nil] at hp
    split_ifs at hp with hpark hres
    · -- parked in this step
      obtain rfl := Option.some.inj hp
      obtain ⟨c, hc, hparks, rfl⟩ := hpark
      cases a with
      | late d i k dt =>
        obtain rfl := Option.some.inj hc
        have hlock := (late_cases hs).1
        rw [hparks.1] at hlock
        cases hlock
      | plain a =>
        cases a with
        | client d i =>
          obtain rfl := Option.some.inj hc
          obtain ⟨rfl, -⟩ := step_park hin.rep hparks hs
          rw [parkState_sess_self]
          refine ⟨?_, rfl⟩
          change (b.parked.insert _ _).lookup _ = _
          rw [GoMap.lookup_set, if_pos rfl]
        | _ => cases hc
    · obtain ⟨hparked, hat⟩ := ih (fun e he => hsp e (Or.inl he)) p t hp (by omega)
      rcases hin.keeps hs hspa hparked (by rw [hat]; omega) with ⟨hstay, hsess⟩ | hr
      · rw [hsess]
        exact ⟨hstay, hat⟩
      · exact absurd hr hres

/-- What `tryResume` may resume, it resumes. -/
theorem step_resumes {c p ex : Conn} {i : Input} (hpc : (b.client c).pc = .lock)
    (hlist : (b.client c).msg.listExits = false) (hkey : (b.client c).msg.resumeKey ≠ "")
    (hmay : b.mayResume cfg c p) (hx : b.exits.lookup (b.sess p).nodeID = some ex) :
    ∃ b', step cfg b (.client c i) = some (b', []) ∧ (b'.client c).pc = .resumed ∧
      (b'.client c).s = p := by
  obtain ⟨b₁, hb₁⟩ := tryResume_eq (c := c) (w := c) hmay.1 hmay.2.1 hmay.2.2 hx
  refine ⟨admitClient cfg b c i.rnd, by simp only [step, clientStep, hpc], ?_⟩
  simp [admitClient, hlist, hkey, hb₁]

/-- **The resume window.** In a run whose steps spare the windows, a session
parked at time `t` and not resumed since is in `b.parked` before `t` plus the
TTL; and there a client of its user with its key resumes it and nothing else,
while its node is registered. -/
theorem window_honoured (h : (lateMachine cfg users).Run tr b)
    (hsp : ∀ e ∈ tr, Spares cfg e.pre e.act) {p : Conn} {t : ℕ}
    (hp : parkedSince cfg p tr = some t) (ht : (b.now : ℤ) < t + cfg.resumeTTL) :
    b.parked.lookup (b.sess p).resumeKey = some p ∧
      ∀ c i, (b.client c).pc = .lock → (b.client c).msg.listExits = false →
        (b.client c).msg.resumeKey = (b.sess p).resumeKey →
        (b.client c).user.username = (b.sess p).username →
        (b.exits.lookup (b.sess p).nodeID).isSome →
        (lateStep cfg b (.plain (.client c i))).isSome ∧
          ∀ a r, a.client = some c → lateStep cfg b a = some r →
            (r.1.client c).pc = .resumed ∧ (r.1.client c).s = p := by
  obtain ⟨hparked, hat⟩ := parked_of_run h hsp p t hp ht
  refine ⟨hparked, fun c i hpc hlist hkey huser hx => ?_⟩
  obtain ⟨ex, hx⟩ := Option.isSome_iff_exists.mp hx
  have hne : (b.client c).msg.resumeKey ≠ "" := by
    rw [hkey]
    exact ((InTime.of_run h).rep.key _ _ hparked).2.1
  have hmay : b.mayResume cfg c p := ⟨by rw [hkey]; exact hparked, huser.symm, by rw [hat]; omega⟩
  refine ⟨?_, fun a r hruns hs => ?_⟩
  · obtain ⟨b', hb', -⟩ := step_resumes (i := i) hpc hlist hne hmay hx
    exact Option.isSome_iff_exists.mpr ⟨_, hb'⟩
  · cases a with
    | plain a =>
      cases a with
      | client d j =>
        obtain rfl := Option.some.inj hruns
        obtain ⟨b', hb', hres⟩ := step_resumes (i := j) hpc hlist hne hmay hx
        obtain rfl := Option.some.inj (hs.symm.trans hb')
        exact hres
      | _ => cases hruns
    | late d j k dt =>
      obtain rfl := Option.some.inj hruns
      obtain ⟨b', o⟩ := r
      obtain ⟨-, -, -, b₁, hs₁, rfl⟩ := late_cases hs
      have hfired : (b.gotoTimer k .fired).mayResume cfg d p := hmay
      obtain ⟨b₂, hb₂, hres⟩ := step_resumes (b := b.gotoTimer k .fired) (i := j) hpc hlist hne
        hfired hx
      obtain ⟨rfl, -⟩ := Prod.mk.inj (Option.some.inj (hs₁.symm.trans hb₂))
      exact hres

/-- A client drops and comes back while its timer expires; the callback finds
nothing. It drops again, and a third connection of it is about to come
back. -/
theorem window_honoured_second_parking : ∃ tr b, (lateMachine {} aliceStore).Run tr b ∧
    parkedSince {} 1 tr = some 3600000000000 ∧ b.now = 3600000000100 ∧
    b.parked.lookup (b.sess 1).resumeKey = some 1 ∧
    ∃ r, lateStep {} b (.plain (.client 3 {})) = some r ∧
      (r.1.client 3).pc = .resumed ∧ (r.1.client 3).s = 1 := by
  obtain ⟨tr, b, hr, ⟨hp, hnow⟩, hsp, hpc, hlist, hkey, huser, hx⟩ :=
    (lateMachine {} aliceStore).exists_run
    (inTime (.register 0 (node "e1" "us" 0) :: joins 1 (aliceConnect "us" "k") ++
        [.drop 1 .other, .client 1 {}, .tick 3599999999999, .connect 2 (aliceConnect "us" "k"),
          .client 2 {}]) ++
      .late 2 {} 0 1 :: inTime (.timer 0 true :: List.replicate 4 (.client 2 {}) ++
        [.drop 2 .other, .client 2 {}, .tick 100, .connect 3 (aliceConnect "us" "k"), .client 3 {}]))
    (P := fun r => (parkedSince {} 1 r.1 = some 3600000000000 ∧ r.2.now = 3600000000100) ∧
      (∀ e ∈ r.1, Spares {} e.pre e.act) ∧ (r.2.client 3).pc = .lock ∧
      (r.2.client 3).msg.listExits = false ∧
      (r.2.client 3).msg.resumeKey = (r.2.sess 1).resumeKey ∧
      (r.2.client 3).user.username = (r.2.sess 1).username ∧
      (r.2.exits.lookup (r.2.sess 1).nodeID).isSome)
    (by decide +kernel)
  obtain ⟨hparked, hres⟩ := window_honoured hr hsp hp (by rw [hnow]; decide)
  obtain ⟨hsome, hres⟩ := hres 3 {} hpc hlist hkey huser hx
  obtain ⟨r, hr'⟩ := Option.isSome_iff_exists.mp hsome
  exact ⟨tr, b, hr, hp, hnow, hparked, r, hr', hres (.plain (.client 3 {})) _ rfl hr'⟩

/-- The window is cut short when another session is parked under the key; and
when a timer expires while its session is being resumed, and its callback
takes `b.mu` only after the session has been parked again. -/
theorem window_cut_short :
    (∃ tr b, (lateMachine {} aliceStore).Run tr b ∧ parkedSince {} 1 tr = some 0 ∧ b.now = 0 ∧
      (b.sess 1).resumeKey = "k" ∧ b.parked.lookup "k" = some 2) ∧
    ∃ tr b, (lateMachine {} aliceStore).Run tr b ∧
      parkedSince {} 1 tr = some 3600000000000 ∧ b.now = 3600000000000 ∧
      (b.sess 1).resumeKey = "k" ∧ b.parked.lookup "k" = none := by
  constructor
  · exact (lateMachine {} aliceStore).exists_run_of_exec
      (inTime (.register 0 (node "e1" "us" 0) :: joins 1 (aliceConnect "us" "k") ++
        joins 2 (aliceConnect "us" "k") ++
        [.drop 1 .other, .client 1 {}, .drop 2 .other, .client 2 {}])) (by decide +kernel)
  · exact (lateMachine {} aliceStore).exists_run_of_exec
      (inTime (.register 0 (node "e1" "us" 0) :: joins 1 (aliceConnect "us" "k") ++
        [.drop 1 .other, .client 1 {}, .tick 3599999999999,
          .connect 2 (aliceConnect "us" "k"), .client 2 {}]) ++
        .late 2 {} 0 1 :: inTime (List.replicate 4 (.client 2 {}) ++
        [.drop 2 .other, .client 2 {}, .timer 0 true])) (by decide +kernel)

end

end Broker
end Revquic
