/-
# The broker as a lease service

Every run of the broker is a run of the lease service (`Service`): a session
is granted when `handleClient` inserts it, resumed by `tryResume`, parked or
closed by `suspendSession` or `endSession`, and expired by `expirePark`, each
in one step; no other step matters to it. The addresses put back into the
pool are those the service gives back, in the same order.

A timer callback that was too late for `Stop` can still end a session that is
parked again. It is no more than the service allows: the session was parked
for that long once.

Key definitions: `leaseAct`, `Shows`, `Implements`.
Key theorems: `Implements.step`, `broker_leases`.
-/
import Revquic.Broker.Ownership
import Revquic.Broker.Window
import Revquic.Service

namespace Revquic
namespace Broker

open Lib Netip Ippool Proto

abbrev LeaseAct := Service.Act String String Addr String

abbrev LeaseState := Service.State String String Addr String

/-! ### The steps that matter -/

/-- What a step of goroutine `c` means for the leases. -/
def clientAct (b b' : State) (c : Conn) : Option LeaseAct :=
  match (b.client c).pc, (b'.client c).pc with
  | .allocated, _ => some (.grant (b.client c).sid
      { user := (b.client c).user.username, node := (b.node (b.client c).ex).nodeID
        addr := (b.client c).clientAddr, key := (b.client c).msg.resumeKey })
  | .lock, .resumed => some (.resume (b.sess (b'.client c).s).id (b.client c).user.username)
  | .dropped, .parked => some (.park (b.sess (b.client c).s).id)
  | .dropped, .closed | .ending, .ended => some (.close (b.sess (b.client c).s).id)
  | _, _ => none

/-- What a step of the callback of timer `k` means for the leases. -/
def timerAct (b b' : State) (k : ℕ) : Option LeaseAct :=
  match (b.timer k).pc, (b'.timer k).pc with
  | .fired, .done => none
  | .fired, _ => some (.expire (b.timer k).sid)
  | _, _ => none

/-- What a step means for the leases. -/
def leaseAct (e : Event State Action Out) : Option LeaseAct :=
  match e.act with
  | .tick d => some (.wait d)
  | .client c _ => clientAct e.pre e.post c
  | .timer k _ => timerAct e.pre e.post k
  | _ => none

/-- The addresses put back into the pool. -/
def freed (o : List Out) : List Addr :=
  o.filterMap fun
    | .release _ a => some a
    | _ => none

/-! ### The state of the leases -/

/-- The session is what the lease says. -/
structure Shows (s : Session) (l : Service.Lease String String Addr String) : Prop where
  user : l.user = s.username
  node : l.node = s.nodeID
  addr : l.addr = s.clientAddr
  key : l.key = s.resumeKey
  parked : l.parked = s.suspended
  last : s.suspended = true → l.parks.head? = some s.parkedAt

/-- The callback may still come to `expirePark`. -/
def TimerPC.pending : TimerPC → Bool
  | .armed | .fired => true
  | _ => false

/-- The sessions of the broker are the leases. An address that is lost stays
in use, and a timer has been set when its session was parked once. -/
structure Implements (cfg : Config) (b : State) (t : LeaseState) : Prop where
  now : t.now = b.now
  ids : ∀ i, i ∈ t.ids ↔ ∃ p, b.Made p ∧ (b.sess p).id = i
  live : ∀ p, b.Live p → ∃ l, t.lease (b.sess p).id = some l ∧ Shows (b.sess p) l
  back : ∀ i l, t.lease i = some l → ∃ p, b.Live p ∧ (b.sess p).id = i
  lost : ∀ x ∈ t.lost, b.ledger.Orphan x
  timer : ∀ k, (b.timer k).pc.pending = true → (b.timer k).sid ∈ t.ids ∧
    ∀ l, t.lease (b.timer k).sid = some l → ∃ at₀ ∈ l.parks,
      (b.timer k).deadline = (at₀ : ℤ) + cfg.resumeTTL

section
variable {cfg : Config} {users : Userstore.Table} {b b' : State} {a : Action} {o : List Out}
  {tr : List (Event State Action Out)} {t t' : LeaseState}

theorem Implements.init : Implements cfg (newBroker users) Service.init where
  now := rfl
  ids i := by
    constructor
    · nofun
    · rintro ⟨p, hp, -⟩
      exact absurd rfl hp
  live p hp := absurd hp (not_live_newBroker users p)
  back _ _ h := by cases h
  lost _ h := by cases h
  timer k h := by cases h

/-- A timer that is pending was so before, with the same deadline, or has just
been set. -/
theorem Timing.kept (h : Timing cfg b a b') {k : ℕ} (hk : (b'.timer k).pc.pending = true) :
    (∃ c i, a = .client c i ∧ b.parks cfg c ∧ b' = parkState cfg b c ∧ k = b.nextTimer) ∨
      (b.timer k).pc.pending = true ∧ (b'.timer k).sid = (b.timer k).sid ∧
        (b'.timer k).deadline = (b.timer k).deadline := by
  cases h with
  | same timer =>
    rw [timer] at hk ⊢
    exact Or.inr ⟨hk, rfl, rfl⟩
  | arm c i hp =>
    by_cases hkn : k = b.nextTimer
    · exact Or.inl ⟨c, i, rfl, hp, rfl, hkn⟩
    · rw [parkState_timer_of_ne cfg c hkn] at hk ⊢
      exact Or.inr ⟨hk, rfl, rfl⟩
  | stop c i p ex =>
    change (stopTimer b.timer (b.sess p).suspendTimer k).pc.pending = true at hk
    change _ ∨ _ ∧ (stopTimer b.timer (b.sess p).suspendTimer k).sid = _ ∧
      (stopTimer b.timer (b.sess p).suspendTimer k).deadline = _
    rcases stopTimer_eq b.timer (b.sess p).suspendTimer k with h | ⟨-, -, h⟩
    · rw [h] at hk ⊢
      exact Or.inr ⟨hk, rfl, rfl⟩
    · rw [h] at hk
      cases hk
  | fire j ha =>
    change _ ∨ _ ∧ (Function.update b.timer j _ k).sid = _ ∧
      (Function.update b.timer j _ k).deadline = _
    by_cases hj : k = j
    · subst hj
      rw [Function.update_self]
      exact Or.inr ⟨by rw [ha]; rfl, rfl, rfl⟩
    · change (Function.update b.timer j _ k).pc.pending = true at hk
      rw [Function.update_of_ne hj] at hk ⊢
      exact Or.inr ⟨hk, rfl, rfl⟩
  | call j ok t' _ timer _ _ hpc =>
    rw [timer] at hk ⊢
    by_cases hj : k = j
    · subst hj
      rw [Function.update_self] at hk
      cases ht : t'.pc <;> simp_all [TimerPC.pending]
    · rw [Function.update_of_ne hj] at hk ⊢
      exact Or.inr ⟨hk, rfl, rfl⟩

theorem due_of_run (h : (machine cfg users).Run tr b) : Due b.now b := by
  refine Machine.Run.invariant (I := fun b => Due b.now b) ?_ ?_ h
  · intro k hk
    cases hk
  · intro s a s' o hd hs
    have ht := timing_of_step hs
    have hnow : (s.now : ℤ) ≤ s'.now := by exact_mod_cast ht.now_le
    exact ht.due hnow fun k hk => (hd k hk).trans hnow

/-- Parking a session changes it. -/
theorem Rep.not_parkState (hrep : Rep b) {c : Conn} (hparks : b.parks cfg c)
    (hsess : (parkState cfg b c).sess = b.sess) : False := by
  have hph : (b.client c).pc.phase = .holds := by rw [hparks.1]; rfl
  have hup := hrep.active _ _ (hrep.held c hph).1
  rw [← hsess, parkState_sess_self] at hup
  cases hup

/-- A step that leaves the sessions alone. -/
theorem Implements.frame (h : Implements cfg b t) (hrep : Rep b) (hs : step cfg b a = some (b', o))
    (hnow : b'.now = b.now) (hsessions : b'.sessions = b.sessions) (hparked : b'.parked = b.parked)
    (hsess : b'.sess = b.sess) : Implements cfg b' t where
  now := h.now.trans hnow.symm
  ids i := by
    rw [h.ids i]
    simp only [State.Made, hsess]
  live p hp := by
    rw [State.Live, hsessions, hparked] at hp
    rw [hsess]
    exact h.live p hp
  back i l hl := by
    rw [hsess]
    simp only [State.Live, hsessions, hparked]
    exact h.back i l hl
  lost x hx := (ledger_step hrep (step_move hs)).orphan (h.lost x hx)
  timer k hk := by
    rcases (timing_of_step hs).kept hk with ⟨c, i, rfl, hp, rfl, rfl⟩ | ⟨hpend, hsid, hd⟩
    · cases hrep.not_parkState hp hsess
    · rw [hsid, hd]
      exact h.timer k hpend

/-- The ids stay, unless a session is inserted. -/
theorem Implements.ids_of_move (h : Implements cfg b t) (hrep : Rep b) (hm : Move cfg b a b' o)
    (hpc : ∀ p i, a = .client p i → (b.client p).pc ≠ .allocated) (i : ℕ) :
    i ∈ t.ids ↔ ∃ p, b'.Made p ∧ (b'.sess p).id = i := by
  rw [h.ids i]
  constructor
  · rintro ⟨p, hp, hid⟩
    exact ⟨p, made_of_move hrep hm hp, by rw [(hm.static hrep hp).id, hid]⟩
  · rintro ⟨p, hp, hid⟩
    rcases hm.made hp with hp | ⟨⟨j, hact⟩, hall, -⟩
    · exact ⟨p, hp, by rw [← (hm.static hrep hp).id, hid]⟩
    · exact absurd hall (hpc p j hact)

theorem Rep.id_ne (hrep : Rep b) {p q : Conn} (hq : b.Live q) (hne : q ≠ p) :
    (b.sess q).id ≠ (b.sess p).id := fun h => hne (hrep.id_inj q p (hrep.made q hq) h)

/-- A session that is marked suspended is found under its key. -/
theorem Rep.parked_of_suspended (hrep : Rep b) {p : Conn} (hp : b.Live p)
    (hs : (b.sess p).suspended = true) : b.parked.lookup (b.sess p).resumeKey = some p := by
  rcases hp with ⟨i, hi⟩ | ⟨k, hk⟩
  · rw [hrep.active i p hi] at hs
    cases hs
  · rw [(hrep.key k p hk).1]
    exact hk

/-- The lease of the session that a goroutine runs. -/
theorem Implements.held (h : Implements cfg b t) (hrep : Rep b) {c : Conn}
    (hph : (b.client c).pc.phase = .holds) :
    ∃ l, t.lease (b.sess (b.client c).s).id = some l ∧ Shows (b.sess (b.client c).s) l ∧
      l.parked = false := by
  have hlook := (hrep.held c hph).1
  obtain ⟨l, hl, hshow⟩ := h.live _ (live_of_sessions hlook)
  exact ⟨l, hl, hshow, hshow.parked.trans (hrep.active _ _ hlook)⟩

/-! ### One step -/

/-- The address that a goroutine has allocated is free. -/
theorem Implements.free (h : Implements cfg b t) (hex : b.ledger.Exclusive) {c : Conn}
    (hpc : (b.client c).pc = .allocated) : ¬ t.Taken (b.client c).clientAddr := by
  have hown : b.ledger.owns (.setup c) (b.client c).clientAddr := ⟨hpc, rfl⟩
  rintro (⟨i, l, hl, haddr⟩ | hlost)
  · obtain ⟨p, hp, rfl⟩ := h.back i l hl
    obtain ⟨l', hl', hshow⟩ := h.live p hp
    rw [hl] at hl'
    cases hl'
    have hsess : b.ledger.owns (.session p) (b.client c).clientAddr := ⟨hp, hshow.addr.symm.trans haddr⟩
    cases hex.inj _ _ _ hown hsess
  · exact (h.lost _ hlost).2 _ hown

theorem Implements.insert (h : Implements cfg b t) (hrep : Rep b) (hex : b.ledger.Exclusive)
    {c : Conn} {i : Input} (hpc : (b.client c).pc = .allocated)
    (hs : step cfg b (.client c i) = some (insertSession b c, o)) :
    ∃ t', Service.Step cfg.resumeTTL t (.grant (b.client c).sid
        { user := (b.client c).user.username, node := (b.node (b.client c).ex).nodeID
          addr := (b.client c).clientAddr, key := (b.client c).msg.resumeKey }) [] t' ∧
      Implements cfg (insertSession b c) t' := by
  have hm := step_move hs
  have hnum : (b.client c).pc.numbers := Or.inr (by rw [hpc]; rfl)
  have hfresh : (b.client c).sid ∉ t.ids := by
    rw [h.ids]
    rintro ⟨p, -, hid⟩
    exact hrep.fresh c p hnum hid
  refine ⟨_, .grant _ _ _ _ _ hfresh (h.free hex hpc), ?_⟩
  have hself : ((insertSession b c).sess c).id = (b.client c).sid := by
    rw [insertSession_sess_self]
    rfl
  have hborn : ∀ p, b.Made p → p ≠ c := by
    rintro p hp rfl
    exact hrep.not_made (by rw [hpc]; simp [ClientPC.born, ClientPC.phase]) hp
  refine ⟨h.now, fun j => ?_, fun p hp => ?_, fun j l hl => ?_, fun x hx => ?_, fun k hk => ?_⟩
  · change j = (b.client c).sid ∨ j ∈ t.ids ↔ _
    rw [h.ids]
    constructor
    · rintro (rfl | ⟨p, hp, rfl⟩)
      · refine ⟨c, ?_, hself⟩
        rw [State.Made, hself]
        exact (hrep.drawn c hnum).1.ne'
      · exact ⟨p, made_of_move hrep hm hp, (hm.static hrep hp).id⟩
    · rintro ⟨p, hp, rfl⟩
      rcases eq_or_ne p c with rfl | hne
      · exact Or.inl hself
      · rw [State.Made, insertSession_sess_of_ne hne] at hp
        rw [insertSession_sess_of_ne hne]
        exact Or.inr ⟨p, hp, rfl⟩
  · rcases (hrep.live_insert hpc p).1 hp with hp | rfl
    · have hne := hborn p (hrep.made p hp)
      rw [insertSession_sess_of_ne hne, Service.put_lease, if_neg (hrep.fresh c p hnum)]
      exact h.live p hp
    · rw [hself, Service.put_lease, if_pos rfl, insertSession_sess_self]
      exact ⟨_, rfl, rfl, rfl, rfl, rfl, rfl, fun hsus => by cases hsus⟩
  · rw [Service.put_lease] at hl
    split_ifs at hl with hj
    · exact ⟨c, (hrep.live_insert hpc c).2 (Or.inr rfl), hself.trans hj.symm⟩
    · obtain ⟨p, hp, hid⟩ := h.back j l hl
      refine ⟨p, (hrep.live_insert hpc p).2 (Or.inl hp), ?_⟩
      rw [insertSession_sess_of_ne (hborn p (hrep.made p hp)), hid]
  · exact (ledger_step hrep hm).orphan (h.lost x hx)
  · obtain ⟨hin, hparks⟩ := h.timer k hk
    refine ⟨Or.inr hin, fun l hl => ?_⟩
    rw [Service.put_lease] at hl
    split_ifs at hl with hj
    · change (b.timer k).sid = _ at hj
      rw [hj] at hin
      exact absurd hin hfresh
    · exact hparks l hl

theorem Implements.resume (h : Implements cfg b t) (hrep : Rep b) {c p ex : Conn} {i : Input}
    (hpc : (b.client c).pc = .lock) (hfound : b.parked.lookup (b.client c).msg.resumeKey = some p)
    (huser : (b.sess p).username = (b.client c).user.username)
    (hage : (b.now : ℤ) - (b.sess p).parkedAt < cfg.resumeTTL)
    (hs : step cfg b (.client c i) = some (resumeState b c p ex, o)) :
    ∃ t', Service.Step cfg.resumeTTL t (.resume (b.sess p).id (b.client c).user.username) [] t' ∧
      Implements cfg (resumeState b c p ex) t' := by
  have hm := step_move hs
  have hlive := live_of_parked hfound
  have hsus := (hrep.key _ _ hfound).2.2
  obtain ⟨l, hl, hshow⟩ := h.live p hlive
  rw [← huser, ← hshow.user]
  refine ⟨_, .resume _ l _ hl (hshow.parked.trans hsus) (hshow.last hsus) (by rw [h.now]; exact hage), ?_⟩
  refine ⟨h.now, h.ids_of_move hrep hm ?_, fun q hq => ?_, fun j l' hj => ?_, fun x hx => ?_,
    fun k hk => ?_⟩
  · rintro _ _ heq
    cases heq
    rw [hpc]
    decide
  · rw [hrep.live_resume hfound] at hq
    rcases eq_or_ne q p with rfl | hne
    · rw [resumeState_sess_self, Service.put_lease, if_pos rfl]
      exact ⟨_, rfl, hshow.user, hshow.node, hshow.addr, hshow.key, rfl, fun hsus => by cases hsus⟩
    · rw [resumeState_sess_of_ne hne, Service.put_lease, if_neg (hrep.id_ne hq hne)]
      exact h.live q hq
  · rw [Service.put_lease] at hj
    split_ifs at hj with hjp
    · exact ⟨p, (hrep.live_resume hfound p).2 hlive, by rw [resumeState_sess_self]; exact hjp.symm⟩
    · obtain ⟨q, hq, hid⟩ := h.back j l' hj
      refine ⟨q, (hrep.live_resume hfound q).2 hq, ?_⟩
      rw [(hm.static hrep (hrep.made q hq)).id, hid]
  · exact (ledger_step hrep hm).orphan (h.lost x hx)
  · rcases (timing_of_step hs).kept hk with ⟨d, j, heq, hp, -, -⟩ | ⟨hpend, hsid, hd⟩
    · cases heq
      have hd := hp.1
      rw [hpc] at hd
      cases hd
    · obtain ⟨hin, hparks⟩ := h.timer k hpend
      rw [hsid, hd]
      refine ⟨hin, fun l' hl' => ?_⟩
      rw [Service.put_lease] at hl'
      split_ifs at hl' with hj
      · cases hl'
        exact hparks l (by rw [hj]; exact hl)
      · exact hparks l' hl'

/-- A lease ends: the session is gone, and nothing else has changed. -/
theorem Implements.remove (h : Implements cfg b t) (hrep : Rep b) {p : Conn} (hp : b.Live p)
    (hs : step cfg b a = some (b', o)) (hnow : b'.now = b.now)
    (hpc : ∀ q i, a = .client q i → (b.client q).pc ≠ .allocated)
    (hlive : ∀ q, b'.Live q ↔ b.Live q ∧ q ≠ p) (hsess : b'.sess = b.sess) :
    Implements cfg b' (t.remove (b.sess p).id) := by
  have hm := step_move hs
  refine ⟨h.now.trans hnow.symm, h.ids_of_move hrep hm hpc, fun q hq => ?_, fun j l' hj => ?_,
    fun x hx => ?_, fun k hk => ?_⟩
  · rw [hlive] at hq
    rw [hsess, Service.remove_lease, if_neg (hrep.id_ne hq.1 hq.2)]
    exact h.live q hq.1
  · rw [Service.remove_lease] at hj
    split_ifs at hj with hjp
    obtain ⟨q, hq, hid⟩ := h.back j l' hj
    refine ⟨q, (hlive q).2 ⟨hq, ?_⟩, by rw [hsess, hid]⟩
    rintro rfl
    exact hjp hid.symm
  · exact (ledger_step hrep hm).orphan (h.lost x hx)
  · rcases (timing_of_step hs).kept hk with ⟨d, j, -, hparks, rfl, -⟩ | ⟨hpend, hsid, hd⟩
    · cases hrep.not_parkState hparks hsess
    · obtain ⟨hin, hparks⟩ := h.timer k hpend
      rw [hsid, hd]
      refine ⟨hin, fun l' hl' => ?_⟩
      rw [Service.remove_lease] at hl'
      split_ifs at hl'
      exact hparks l' hl'

theorem Implements.park (h : Implements cfg b t) (hrep : Rep b) (hex : b.ledger.Exclusive) {c : Conn}
    {i : Input} (hparks : b.parks cfg c)
    (hs : step cfg b (.client c i) = some (parkState cfg b c, o)) :
    ∃ t', Service.Step cfg.resumeTTL t (.park (b.sess (b.client c).s).id) [] t' ∧
      Implements cfg (parkState cfg b c) t' := by
  have hm := step_move hs
  have hph : (b.client c).pc.phase = .holds := by rw [hparks.1]; rfl
  obtain ⟨l, hl, hshow, hup⟩ := h.held hrep hph
  have hself : (parkState cfg b c).Live (b.client c).s :=
    (hrep.live_park hph _).2 ⟨live_of_sessions (hrep.held c hph).1,
      fun hp => hrep.parked_not_held hp hph rfl⟩
  refine ⟨_, .park _ l hl hup, h.now, h.ids_of_move hrep hm ?_, fun q hq => ?_, fun j l' hj => ?_,
    fun x hx => ?_, fun k hk => ?_⟩
  · rintro _ _ heq
    cases heq
    rw [hparks.1]
    decide
  · rcases eq_or_ne q (b.client c).s with rfl | hne
    · rw [parkState_sess_self, Service.put_lease, if_pos rfl]
      exact ⟨_, rfl, hshow.user, hshow.node, hshow.addr, hshow.key, rfl,
        fun _ => congrArg some h.now⟩
    · obtain ⟨hq, hkey⟩ := (hrep.live_park hph q).1 hq
      obtain ⟨l', hl', hshow'⟩ := h.live q hq
      rw [parkState_sess_of_ne hne, Service.put_lease, if_neg (hrep.id_ne hq hne)]
      refine ⟨l', Service.forget_lease.mpr ⟨hl', ?_⟩, hshow'⟩
      rintro ⟨hpk, heq⟩
      have hlook := hrep.parked_of_suspended hq (hshow'.parked.symm.trans hpk)
      rw [← hshow'.key, heq, hshow.key] at hlook
      exact hkey hlook
  · rw [Service.put_lease] at hj
    split_ifs at hj with hjp
    · exact ⟨(b.client c).s, hself, by rw [parkState_sess_self]; exact hjp.symm⟩
    · obtain ⟨hj, hother⟩ := Service.forget_lease.mp hj
      obtain ⟨q, hq, hid⟩ := h.back j l' hj
      refine ⟨q, (hrep.live_park hph q).2 ⟨hq, fun hlook => hother ?_⟩, ?_⟩
      · obtain ⟨l₁, hl₁, hshow'⟩ := h.live q hq
        rw [hid, hj] at hl₁
        cases hl₁
        obtain ⟨hkey, -, hsus⟩ := hrep.key _ q hlook
        exact ⟨hshow'.parked.trans hsus, by rw [hshow'.key, hshow.key, hkey]⟩
      · rw [(hm.static hrep (hrep.made q hq)).id, hid]
  · rcases hx with hx | ⟨j, l', ⟨hj, hpk, hkey⟩, rfl⟩
    · exact (ledger_step hrep hm).orphan (h.lost x hx)
    · -- the session that was parked under the key until now
      obtain ⟨q, hq, rfl⟩ := h.back j l' hj
      obtain ⟨l₁, hl₁, hshow'⟩ := h.live q hq
      rw [hj] at hl₁
      cases hl₁
      have hlook := hrep.parked_of_suspended hq (hshow'.parked.symm.trans hpk)
      rw [← hshow'.key, hkey, hshow.key] at hlook
      rw [hshow'.addr]
      exact orphan_of_overwrite hrep hex hparks.1 hlook
  · rcases (timing_of_step hs).kept hk with ⟨d, j, -, -, -, rfl⟩ | ⟨hpend, hsid, hd⟩
    · rw [parkState_timer_self]
      refine ⟨(h.ids _).2 ⟨_, hrep.made _ (live_of_sessions (hrep.held c hph).1), rfl⟩, fun l' hl' => ?_⟩
      rw [Service.put_lease, if_pos rfl] at hl'
      cases hl'
      exact ⟨t.now, List.mem_cons_self, by rw [h.now]⟩
    · obtain ⟨hin, hold⟩ := h.timer k hpend
      rw [hsid, hd]
      refine ⟨hin, fun l' hl' => ?_⟩
      rw [Service.put_lease] at hl'
      split_ifs at hl' with hj
      · cases hl'
        obtain ⟨at₀, hmem, hdl⟩ := hold l (by rw [hj]; exact hl)
        exact ⟨at₀, List.mem_cons_of_mem _ hmem, hdl⟩
      · exact hold l' (Service.forget_lease.mp hl').1

theorem Implements.close (h : Implements cfg b t) (hrep : Rep b) {c : Conn} {i : Input} {pc' : ClientPC}
    (hpc : (b.client c).pc = .dropped ∧ pc' = .closed ∨ (b.client c).pc = .ending ∧ pc' = .ended)
    (hs : step cfg b (.client c i) = some (closeState b c pc', o)) :
    ∃ t', Service.Step cfg.resumeTTL t (.close (b.sess (b.client c).s).id)
        [(b.sess (b.client c).s).clientAddr] t' ∧ Implements cfg (closeState b c pc') t' := by
  have hph := holds_of_leaving (hpc.imp And.left And.left)
  obtain ⟨l, hl, hshow, hup⟩ := h.held hrep hph
  rw [← hshow.addr]
  refine ⟨_, .close _ l hl hup, h.remove hrep (live_of_sessions (hrep.held c hph).1) hs rfl ?_
    (hrep.live_close hph) rfl⟩
  rintro d j heq
  cases heq
  rcases hpc with ⟨hpc, -⟩ | ⟨hpc, -⟩ <;> rw [hpc] <;> decide

theorem Implements.expire (h : Implements cfg b t) (hrep : Rep b) (hdue : Due b.now b) {k : ℕ} {p : Conn}
    {ok : Bool} (hpc : (b.timer k).pc = .fired)
    (hfound : b.parked.lookup (b.timer k).resumeKey = some p) (hid : (b.sess p).id = (b.timer k).sid)
    (hs : step cfg b (.timer k ok) = some (expireState b k p, o)) :
    ∃ t', Service.Step cfg.resumeTTL t (.expire (b.timer k).sid) [(b.sess p).clientAddr] t' ∧
      Implements cfg (expireState b k p) t' := by
  have hlive := live_of_parked hfound
  obtain ⟨l, hl, hshow⟩ := h.live p hlive
  obtain ⟨-, hparks⟩ := h.timer k (by rw [hpc]; rfl)
  obtain ⟨at₀, hmem, hdl⟩ := hparks l (by rw [← hid]; exact hl)
  rw [← hshow.addr, ← hid]
  refine ⟨_, .expire _ l at₀ hl (hshow.parked.trans (hrep.key _ _ hfound).2.2) hmem ?_,
    h.remove hrep hlive hs rfl (fun _ _ heq => by cases heq) (hrep.live_expire hfound) rfl⟩
  rw [h.now, ← hdl]
  exact hdue k hpc

/-- An event is matched by one act of the service, or by none. -/
def Matched (cfg : Config) (t : LeaseState) (e : Event State Action Out) : Prop :=
  (leaseAct e = none ∧ freed e.out = [] ∧ Implements cfg e.post t) ∨
    ∃ act t', leaseAct e = some act ∧ Service.Step cfg.resumeTTL t act (freed e.out) t' ∧
      Implements cfg e.post t'

@[simp] theorem freed_written (ok : Bool) (c : Conn) (m : Control) : freed (written ok c m) = [] := by
  cases ok <;> rfl

/-- The places at which a goroutine may change a lease. -/
def ClientPC.leases : ClientPC → Bool
  | .allocated | .lock | .dropped | .ending => true
  | _ => false

theorem clientAct_eq_none {c : Conn} (h : (b.client c).pc.leases = false) : clientAct b b' c = none := by
  unfold clientAct
  generalize (b.client c).pc = pc at h ⊢
  cases pc <;> first | rfl | cases h

theorem Implements.client (h : Implements cfg b t) (hrep : Rep b) (hex : b.ledger.Exclusive) {c : Conn}
    {i : Input} (hs : step cfg b (.client c i) = some (b', o)) (hc : ClientStepped cfg b c i b' o) :
    Matched cfg t ⟨b, .client c i, o, b'⟩ := by
  have hquiet : ∀ {pc : ClientPC}, (b.client c).pc = pc → pc.leases = false →
      leaseAct ⟨b, .client c i, o, b'⟩ = none := fun hpc hl => clientAct_eq_none (by rw [hpc, hl])
  cases hc with
  | insert pc =>
    obtain ⟨t', ht, himp⟩ := h.insert hrep hex pc hs
    exact Or.inr ⟨_, t', by simp only [leaseAct, clientAct, pc], ht, himp⟩
  | resume p ex pc key found user age online =>
    obtain ⟨t', ht, himp⟩ := h.resume hrep pc found user age hs
    exact Or.inr ⟨_, t', by simp only [leaseAct, clientAct, pc, resumeState_client, Function.update_self],
      ht, himp⟩
  | park q pc found drop key ttl =>
    obtain ⟨t', ht, himp⟩ := h.park hrep hex ⟨pc, drop, key, ttl⟩ hs
    exact Or.inr ⟨_, t', by simp only [leaseAct, clientAct, pc, parkState_client, Function.update_self],
      ht, himp⟩
  | close q pc' pc found =>
    obtain ⟨t', ht, himp⟩ := h.close hrep pc hs
    refine Or.inr ⟨_, t', ?_, ht, himp⟩
    rcases pc with ⟨pc, rfl⟩ | ⟨pc, rfl⟩ <;>
      simp only [leaseAct, clientAct, pc, closeState_client, Function.update_self]
  | vanish pc found => exact absurd found (hrep.found pc)
  | list pc | refuse rr pc | choose ex rr pc =>
    refine Or.inl ⟨?_, rfl, h.frame hrep hs rfl rfl rfl rfl⟩
    simp only [leaseAct, clientAct, pc, State.setClient, Function.update_self]
  | reject e pc | accept user pc | draw pc | alloc addr pool pc | exhaust pc | count pc
  | connect pc | recount pc | disconnect pc | started pc | bye pc =>
    exact Or.inl ⟨hquiet pc rfl, rfl, h.frame hrep hs rfl rfl rfl rfl⟩
  | reply pc | start pc | startFailed pc | connectOK pc | suspend pc =>
    exact Or.inl ⟨hquiet pc rfl, freed_written _ _ _, h.frame hrep hs rfl rfl rfl rfl⟩
  | finish pc' pc =>
    refine Or.inl ⟨?_, freed_written _ _ _, h.frame hrep hs rfl rfl rfl rfl⟩
    rcases pc with ⟨pc, -⟩ | ⟨pc, -⟩ <;> exact hquiet pc rfl

theorem Implements.callback (h : Implements cfg b t) (hrep : Rep b) (hdue : Due b.now b) {k : ℕ}
    {ok : Bool} (hs : step cfg b (.timer k ok) = some (b', o)) (ht : TimerStepped b k ok b' o) :
    Matched cfg t ⟨b, .timer k ok, o, b'⟩ := by
  cases ht with
  | expire p pc found id suspended =>
    obtain ⟨t', ht, himp⟩ := h.expire hrep hdue pc found id hs
    refine Or.inr ⟨_, t', ?_, ht, himp⟩
    simp only [leaseAct, timerAct, pc, expireState_timer, Function.update_self]
    split <;> first | rfl | (split_ifs at * <;> contradiction)
  | miss pc =>
    refine Or.inl ⟨?_, rfl, h.frame hrep hs rfl rfl rfl rfl⟩
    simp only [leaseAct, timerAct, pc, State.gotoTimer, State.setTimer, Function.update_self]
  | write pc =>
    refine Or.inl ⟨by simp only [leaseAct, timerAct, pc], ?_, h.frame hrep hs rfl rfl rfl rfl⟩
    split
    · rfl
    · exact freed_written _ _ _
  | disconnect pc | bye pc =>
    exact Or.inl ⟨by simp only [leaseAct, timerAct, pc], rfl, h.frame hrep hs rfl rfl rfl rfl⟩

theorem Implements.ctrl (h : Implements cfg b t) (hrep : Rep b) {c : Conn} {ok : Bool}
    {route : ℕ → Option Conn} {m : Control} (hs : step cfg b a = some (b', o))
    (hc : CtrlStepped b c ok route m b' o) : freed o = [] ∧ Implements cfg b' t := by
  cases hc with
  | forward | ping => exact ⟨freed_written _ _ _, h⟩
  | report => exact ⟨rfl, h.frame hrep hs rfl rfl rfl rfl⟩
  | ignore => exact ⟨rfl, h⟩

theorem Implements.exit (h : Implements cfg b t) (hrep : Rep b) {c : Conn} {ok : Bool}
    (hs : step cfg b a = some (b', o)) (hc : ExitStepped b c ok b' o) :
    freed o = [] ∧ Implements cfg b' t := by
  cases hc with
  | refuse | welcome | notify =>
    exact ⟨freed_written _ _ _, h.frame hrep hs rfl rfl rfl rfl⟩
  | _ => exact ⟨rfl, h.frame hrep hs rfl rfl rfl rfl⟩

theorem handleExit_now (cfg : Config) (b : State) (c : Conn) (msg : Register) :
    (handleExit cfg b c msg).now = b.now := by
  unfold handleExit
  split <;> rfl

/-- **Every step of the broker is one act of the service, or none.** -/
theorem Implements.step (h : Implements cfg b t) (hr : (machine cfg users).Run tr b)
    (hs : step cfg b a = some (b', o)) : Matched cfg t ⟨b, a, o, b'⟩ := by
  have hrep := Rep.of_run hr
  cases stepped_of_step hs with
  | client c i hc => exact h.client hrep (exclusive_of_run hr) hs hc
  | timer k ok ht => exact h.callback hrep (due_of_run hr) hs ht
  | tick d =>
    refine Or.inr ⟨_, _, rfl, .wait d, congrArg (· + d) h.now, h.ids, h.live, h.back, h.lost, h.timer⟩
  | clientCtrl c m ok _ hc | exitCtrl c m ok _ hc => exact Or.inl ⟨rfl, h.ctrl hrep hs hc⟩
  | exit c ok hc => exact Or.inl ⟨rfl, h.exit hrep hs hc⟩
  | register c msg =>
    have core := handleExit_core cfg b c msg
    exact Or.inl ⟨rfl, rfl, h.frame hrep hs (handleExit_now cfg b c msg) core.sessions core.parked core.sess⟩
  | lose => exact Or.inl ⟨rfl, rfl, h⟩
  | _ => exact Or.inl ⟨rfl, rfl, h.frame hrep hs rfl rfl rfl rfl⟩

/-! ### Every run -/

/-- What a run means for the leases. -/
def leaseActs (tr : List (Event State Action Out)) : List LeaseAct := tr.filterMap leaseAct

/-- The addresses a run has put back into the pool, in order. -/
def allFreed (tr : List (Event State Action Out)) : List Addr := tr.flatMap fun e => freed e.out

theorem exists_service_run (h : (machine cfg users).Run tr b) :
    ∃ t, Service.Run cfg.resumeTTL (leaseActs tr) (allFreed tr) t ∧ Implements cfg b t := by
  induction h with
  | nil => exact ⟨_, .nil, .init⟩
  | @snoc tr b b' a o hr hs ih =>
    obtain ⟨t, hrun, himp⟩ := ih
    have hacts : leaseActs (tr ++ [⟨b, a, o, b'⟩]) =
        leaseActs tr ++ (leaseAct ⟨b, a, o, b'⟩).toList := by
      rw [leaseActs, List.filterMap_append, List.filterMap_cons, List.filterMap_nil]
      cases leaseAct ⟨b, a, o, b'⟩ <;> rfl
    have hfreed : allFreed (tr ++ [⟨b, a, o, b'⟩]) = allFreed tr ++ freed o := by
      simp only [allFreed, List.flatMap_append, List.flatMap_cons, List.flatMap_nil, List.append_nil]
    rw [hacts, hfreed]
    rcases himp.step hr hs with ⟨hnone, hnil, himp'⟩ | ⟨act, t', hact, hstep, himp'⟩
    · refine ⟨t, ?_, himp'⟩
      rw [hnone, hnil, Option.toList_none, List.append_nil, List.append_nil]
      exact hrun
    · refine ⟨t', ?_, himp'⟩
      rw [hact, Option.toList_some]
      exact hrun.snoc hstep

theorem Implements.taken (h : Implements cfg b t) {p : Conn} (hp : b.Live p) :
    t.Taken (b.sess p).clientAddr := by
  obtain ⟨l, hl, hshow⟩ := h.live p hp
  exact Or.inl ⟨_, l, hl, hshow.addr⟩

/-- **The broker is a lease service.** Every run of it, with its goroutines,
timers and peers in any order, is a run of the service: with the acts that its
steps stand for, giving back the addresses that it puts back into the pool, and
ending with the leases that are its sessions. So an address is granted and given
back in turns: as often granted as given back, or once more, and once more while
a session has it. -/
theorem broker_leases (h : (machine cfg users).Run tr b) :
    (∃ t, Service.Run cfg.resumeTTL (leaseActs tr) (allFreed tr) t ∧ Implements cfg b t) ∧
      ∀ x, (allFreed tr).count x ≤ Service.grants x (leaseActs tr) ∧
        Service.grants x (leaseActs tr) ≤ (allFreed tr).count x + 1 ∧
        ∀ p, b.Live p → (b.sess p).clientAddr = x →
          Service.grants x (leaseActs tr) = (allFreed tr).count x + 1 := by
  obtain ⟨t, hrun, himp⟩ := exists_service_run h
  refine ⟨⟨t, hrun, himp⟩, fun x => ?_⟩
  obtain ⟨htaken, hfree⟩ := hrun.balance.2 x
  refine ⟨?_, ?_, ?_⟩
  · by_cases hx : t.Taken x
    · rw [htaken hx]
      exact Nat.le_succ _
    · rw [hfree hx]
  · by_cases hx : t.Taken x
    · rw [htaken hx]
    · rw [hfree hx]
      exact Nat.le_succ _
  · rintro p hp rfl
    exact htaken (himp.taken hp)

/-- A client drops, comes back within the hour, and leaves; another has joined
meanwhile. -/
theorem broker_leases_resumed : ∃ tr b, (machine {} aliceStore).Run tr b ∧
    (leaseActs tr).length = 6 ∧ (allFreed tr).length = 1 ∧ b.Live 3 ∧
    Service.grants (b.sess 3).clientAddr (leaseActs tr) =
      (allFreed tr).count (b.sess 3).clientAddr + 1 := by
  obtain ⟨tr, b, hr, hacts, hfreed, h3⟩ := (machine {} aliceStore).exists_run
    (.register 0 (node "e1" "us" 0) :: joins 1 (aliceConnect "us" "k") ++
      [.drop 1 .other, .client 1 {}, .tick 100] ++ rejoins 2 (aliceConnect "us" "k") ++
      joins 3 (aliceConnect "us" "") ++ [.drop 2 (.application closeClientShutdown), .client 2 {}] : List Action)
    (P := fun r => (leaseActs r.1).length = 6 ∧ (allFreed r.1).length = 1 ∧
      r.2.sessions.lookup 2 = some 3)
    (by decide +kernel)
  exact ⟨tr, b, hr, hacts, hfreed, live_of_sessions h3,
    ((broker_leases hr).2 _).2.2 3 (live_of_sessions h3) rfl⟩

end
end Broker
end Revquic
