/-
# VPN addresses

An address of the pool is held by a `handleClient` call that has allocated it
and not yet inserted its session, or by a session in `b.sessions` or
`b.parked`. Every step of the broker is a step of this ledger. One loses an
owner: `suspendSession` writes `b.parked[resumeKey]` without looking, so a
session already parked under the key drops out of the map with its address
still in use. Nothing will release it: its timer finds another id under the
key.

Key definitions: `State.ledger`, `Overwrites`, `State.NoLeak`,
`LeavesProperly`.
Key theorems: `ledger_step`, `no_leak_iff_no_overwrite`, `address_exclusive`.
-/
import Revquic.Broker.Rep
import Revquic.Lib.Ledger

namespace Revquic
namespace Broker

open Lib Netip Ippool Proto

/-- Who may hold an address. -/
inductive Owner
  | setup (c : Conn)
  | session (p : Conn)

/-- Who holds which address. -/
def State.owns (b : State) : Owner → Addr → Prop
  | .setup c, a => (b.client c).pc = .allocated ∧ (b.client c).clientAddr = a
  | .session p, a => b.Live p ∧ (b.sess p).clientAddr = a

def State.ledger (b : State) : Ledger Owner Addr := ⟨b.ipPool.used, b.owns⟩

/-- The step parks a session under a key that is taken. -/
def Overwrites (cfg : Config) (b : State) : Action → Prop
  | .client c _ => b.parks cfg c ∧ b.parked.lookup (b.sess (b.client c).s).resumeKey ≠ none
  | _ => False

instance (cfg : Config) (b : State) : DecidablePred (Overwrites cfg b)
  | .client _ _ => inferInstanceAs (Decidable (_ ∧ _))
  | .tick _ | .users _ | .connect _ _ | .drop _ _ | .clientCtrl _ _ _ | .register _ _ | .exit _ _
  | .exitCtrl _ _ _ | .exitGone _ | .datagram _ _ | .fire _ | .timer _ _ => isFalse id

section
variable {cfg : Config} {b b' : State} {a : Action} {o : List Out} {lossy : Prop}

/-! ### The ledger -/

/-- The threads' side of the ledger: no goroutine gets or gives up an
address. -/
def SameSetups (b b' : State) : Prop :=
  ∀ c, b'.client c = b.client c ∨ (b.client c).pc ≠ .allocated ∧ (b'.client c).pc ≠ .allocated

theorem sameSetups_update {c : Conn} {t' : ClientThread} (hc : b'.client = Function.update b.client c t')
    (h : (b.client c).pc ≠ .allocated) (h' : t'.pc ≠ .allocated) : SameSetups b b' := by
  intro d
  rw [hc]
  rcases eq_or_ne d c with rfl | hd
  · rw [Function.update_self]
    exact Or.inr ⟨h, h'⟩
  · rw [Function.update_of_ne hd]
    exact Or.inl rfl

theorem SameSetups.owns (ht : SameSetups b b') (c : Conn) (x : Addr) :
    b'.owns (.setup c) x ↔ b.owns (.setup c) x := by
  change (_ ∧ _) ↔ (_ ∧ _)
  rcases ht c with h | ⟨h, h'⟩
  · rw [h]
  · simp [h, h']

theorem ledger_stay (ht : SameSetups b b') (hpool : b'.ipPool = b.ipPool)
    (hl : ∀ p, b'.Live p ↔ b.Live p)
    (hx : ∀ p, (b'.sess p).clientAddr = (b.sess p).clientAddr) :
    Ledger.Step lossy b.ledger b'.ledger := by
  refine .stay (congrArg (fun p : Pool => (p.used : Set Addr)) hpool) ?_
  rintro (c | p) x
  · exact ht.owns c x
  · change (_ ∧ _) ↔ (_ ∧ _)
    rw [hl, hx]

theorem ledger_core (ht : SameSetups b b') (hc : SameCore b b') :
    Ledger.Step lossy b.ledger b'.ledger := by
  refine ledger_stay ht hc.ipPool (fun p => ?_) (fun p => by rw [hc.sess])
  rw [State.Live, State.Live, hc.sessions, hc.parked]

/-- Session `p` drops out. -/
theorem ledger_drops (ht : SameSetups b b') {p : Conn} (hl : ∀ q, b'.Live q ↔ b.Live q ∧ q ≠ p)
    (hx : ∀ q, (b'.sess q).clientAddr = (b.sess q).clientAddr) :
    b.ledger.Drops b'.ledger (.session p) := by
  rintro (c | q) x
  · exact (ht.owns c x).trans (by simp [State.ledger])
  · change (_ ∧ _) ↔ ((_ ∧ _) ∧ _)
    rw [hl, hx]
    simp only [ne_eq, Owner.session.injEq]
    tauto

theorem Walk.not_allocated {t t' : ClientThread} (h : Walk t t') :
    t.pc ≠ .allocated ∧ t'.pc ≠ .allocated := by
  constructor
  all_goals
    intro he
    rcases h.phases with h1 | h1 | h1 | h1 <;> simp_all [ClientPC.phase]

theorem ledger_alloc {c : Conn} {addr : Addr} {pool : Pool} (hpc : (b.client c).pc = .numbered)
    (ha : b.ipPool.allocate = .ok (addr, pool)) : Ledger.Step lossy b.ledger
      (State.ledger { (b.setClient c { b.client c with pc := .allocated, clientAddr := addr }) with
        ipPool := pool }) := by
  obtain ⟨hfree, hused⟩ := Pool.allocate_used ha
  refine .acquire (.setup c) addr (by simpa [State.ledger] using hfree) ?_ ?_
  · change (pool.used : Set Addr) = _
    rw [hused, Finset.coe_insert]
    rfl
  · rintro (d | p) x
    · by_cases hd : d = c
      · simp [State.ledger, State.owns, State.setClient, hd, hpc, eq_comm]
      · simp [State.ledger, State.owns, State.setClient, hd]
    · simp [State.ledger, State.owns, State.setClient, State.Live]

theorem ledger_insert (h : Rep b) {c : Conn} (hpc : (b.client c).pc = .allocated) :
    Ledger.Step lossy b.ledger (insertSession b c).ledger := by
  have hnl : ¬ b.Live c := h.not_live (by rw [hpc]; simp [ClientPC.born, ClientPC.phase])
  refine .transfer (.setup c) (.session c) rfl ?_
  rintro (d | p) x
  · by_cases hd : d = c <;>
      simp [State.ledger, State.owns, insertSession, State.setClient, hd]
  · change (_ ∧ _) ↔ _
    rw [h.live_insert hpc]
    by_cases hp : p = c
    · subst hp
      simp [State.ledger, State.owns, insertSession, newSession, hpc, hnl]
    · simp [State.ledger, State.owns, insertSession, hp]

theorem sameSetups_park {c : Conn} (hpc : (b.client c).pc = .dropped) :
    SameSetups b (parkState cfg b c) :=
  sameSetups_update rfl (by rw [hpc]; decide) (by simp)

theorem parkState_clientAddr (c q : Conn) :
    ((parkState cfg b c).sess q).clientAddr = (b.sess q).clientAddr := by
  by_cases hq : q = (b.client c).s <;> simp [parkState, hq]

/-- Parking under a taken key drops the session that was parked there. -/
theorem ledger_overwrite (h : Rep b) {c p : Conn} (hpc : (b.client c).pc = .dropped)
    (hp : b.parked.lookup (b.sess (b.client c).s).resumeKey = some p) :
    b.ledger.Drops (parkState cfg b c).ledger (.session p) := by
  refine ledger_drops (sameSetups_park hpc) (fun q => ?_) (parkState_clientAddr c)
  rw [h.live_park (by rw [hpc]; rfl), hp]
  simp [eq_comm]

theorem ledger_park (h : Rep b) {c : Conn} {i : Input} (hk : b.parks cfg c) :
    Ledger.Step (Overwrites cfg b (.client c i)) b.ledger (parkState cfg b c).ledger := by
  cases hp : b.parked.lookup (b.sess (b.client c).s).resumeKey with
  | none =>
    refine ledger_stay (sameSetups_park hk.1) rfl (fun q => ?_) (parkState_clientAddr c)
    rw [h.live_park (by rw [hk.1]; rfl), hp]
    simp
  | some p => exact .lose (.session p) ⟨hk, by simp [hp]⟩ rfl (ledger_overwrite h hk.1 hp)

/-- A session that is alive holds its address and no other. -/
theorem owns_session {p : Conn} (hp : b.Live p) (x : Addr) :
    b.ledger.owns (.session p) x ↔ x = (b.sess p).clientAddr := by
  change (_ ∧ _) ↔ _
  simp [hp, eq_comm]

/-- Nobody will release the address of a session that is overwritten. -/
theorem orphan_of_overwrite (h : Rep b) (he : b.ledger.Exclusive) {c p : Conn}
    (hpc : (b.client c).pc = .dropped)
    (hp : b.parked.lookup (b.sess (b.client c).s).resumeKey = some p) :
    (parkState cfg b c).ledger.Orphan (b.sess p).clientAddr :=
  have hused : (parkState cfg b c).ledger.used = b.ledger.used := rfl
  he.orphan_of_lose ((owns_session (live_of_parked hp) _).2 rfl) hused (ledger_overwrite h hpc hp)

theorem ledger_close (h : Rep b) {c : Conn} {pc' : ClientPC} (hph : (b.client c).pc.phase = .holds)
    (hpc' : pc'.phase = .after) : Ledger.Step lossy b.ledger (closeState b c pc').ledger := by
  have hpc : (b.client c).pc ≠ .allocated := by intro he; rw [he] at hph; cases hph
  have hpa : pc' ≠ .allocated := by rintro rfl; cases hpc'
  refine .release (.session (b.client c).s) _ (owns_session (live_of_sessions (h.held c hph).1)) ?_
    (ledger_drops (sameSetups_update rfl hpc hpa) (h.live_close hph) fun _ => rfl)
  simp [State.ledger, closeState]

theorem ledger_expire (h : Rep b) {k : ℕ} {p : Conn}
    (hf : b.parked.lookup (b.timer k).resumeKey = some p) :
    Ledger.Step lossy b.ledger (expireState b k p).ledger := by
  have hsame : SameSetups b (expireState b k p) := fun _ => Or.inl rfl
  refine .release (.session p) _ (owns_session (live_of_parked hf)) ?_
    (ledger_drops hsame (h.live_expire hf) fun _ => rfl)
  simp [State.ledger, expireState]

/-- **Every step of the broker is a step of the ledger**, and loses an owner
only when it parks a session under a key that is taken. -/
theorem ledger_step (h : Rep b) (hm : Move cfg b a b' o) :
    Ledger.Step (Overwrites cfg b a) b.ledger b'.ledger := by
  cases hm with
  | env core client => exact ledger_core (fun c => Or.inl (by rw [client])) core
  | connect c msg hu =>
    exact ledger_core (sameSetups_update rfl (by rw [hu.1]; decide) (by simp))
      ⟨rfl, rfl, rfl, rfl, rfl⟩
  | register c msg =>
    refine ledger_core (fun d => Or.inl ?_) (handleExit_core cfg b c msg)
    rw [handleExit_client]
  | walk c t' core client _ _ hw =>
    exact ledger_core (sameSetups_update client hw.not_allocated.1 hw.not_allocated.2) core
  | choose c i ex rr hpc =>
    exact ledger_core (sameSetups_update rfl (by rw [hpc]; decide) (by simp))
      ⟨rfl, rfl, rfl, rfl, rfl⟩
  | draw c i hpc =>
    exact ledger_stay (sameSetups_update rfl (by rw [hpc]; decide) (by simp)) rfl
      (fun _ => Iff.rfl) fun _ => rfl
  | alloc c i addr pool hpc ha => exact ledger_alloc hpc ha
  | insert c i hpc => exact ledger_insert h hpc
  | count c i hpc pc' hph =>
    refine ledger_core (sameSetups_update rfl ?_ ?_) ⟨rfl, rfl, rfl, rfl, rfl⟩
    · intro he; rw [he] at hpc; cases hpc
    · rintro rfl; cases hph
  | resume c i p ex hpc _ hf =>
    refine ledger_stay (sameSetups_update rfl (by rw [hpc]; decide) (by simp)) rfl
      (h.live_resume hf) fun q => ?_
    by_cases hq : q = p <;> simp [resumeState, hq]
  | park c i q hpc _ hd hk ht => exact ledger_park h ⟨hpc, hd, hk, ht⟩
  | close c i q pc' hpc =>
    rcases hpc with ⟨hpc, rfl⟩ | ⟨hpc, rfl⟩
    · exact ledger_close h (by rw [hpc]; rfl) rfl
    · exact ledger_close h (by rw [hpc]; rfl) rfl
  | vanish c i hpc hf => exact absurd hf (h.found hpc)
  | expire k ok p _ hf => exact ledger_expire h hf

variable {users : Userstore.Table} {tr : List (Event State Action Out)}

theorem exclusive_of_run (h : (machine cfg users).Run tr b) : b.ledger.Exclusive := by
  refine (Machine.Run.invariant (I := fun b => Rep b ∧ b.ledger.Exclusive) ⟨Rep.init users, ?_⟩ ?_ h).2
  · refine ⟨?_, ?_⟩
    · rintro (c | p) x ⟨h, -⟩
      · cases h
      · exact absurd h (not_live_newBroker users p)
    · rintro (c | p) o' x ⟨h, -⟩
      · cases h
      · exact absurd h (not_live_newBroker users p)
  · intro s a s' o ⟨hr, he⟩ hs
    exact ⟨hr.move (step_move hs), (ledger_step hr (step_move hs)).exclusive he⟩


/-! ### No address is leaked while no parked session is overwritten -/

/-- Every address in use belongs to a session in one of the maps, or to one
that is being set up. -/
def State.NoLeak (b : State) : Prop :=
  ∀ a ∈ b.ipPool.used, (∃ p, b.Live p ∧ (b.sess p).clientAddr = a) ∨
    ∃ c, (b.client c).pc = .allocated ∧ (b.client c).clientAddr = a

/-- A session that leaves `b.parked` is resumed or expires, and then its
address is released. -/
def LeavesProperly (cfg : Config) (e : Event State Action Out) : Prop :=
  ∀ k p, e.pre.parked.lookup k = some p → e.post.parked.lookup k = some p ∨
    (∃ c i ex b', e.act = .client c i ∧ (e.pre.client c).pc = .lock ∧
      (e.pre.client c).msg.resumeKey = k ∧
      tryResume cfg e.pre k (e.pre.client c).user.username c c = some (p, ex, b')) ∨
    ∃ t ok, e.act = .timer t ok ∧ (e.pre.timer t).pc = .fired ∧
      Out.release p (e.pre.sess p).clientAddr ∈ e.out

theorem noLeak_iff_covered : b.NoLeak ↔ b.ledger.Covered := by
  refine forall₂_congr fun x _ => ⟨?_, ?_⟩
  · rintro (⟨p, hp⟩ | ⟨c, hc⟩)
    · exact ⟨.session p, hp⟩
    · exact ⟨.setup c, hc⟩
  · rintro ⟨c | p, h⟩
    · exact Or.inr ⟨c, h⟩
    · exact Or.inl ⟨p, h⟩

theorem noLeak_of_run (h : (machine cfg users).Run tr b)
    (hC : ∀ e ∈ tr, ¬ Overwrites cfg e.pre e.act) : b.NoLeak := by
  rw [noLeak_iff_covered]
  refine (Machine.Run.invariant_of (I := fun b => Rep b ∧ b.ledger.Covered)
    (C := fun e => ¬ Overwrites cfg e.pre e.act) ⟨Rep.init users, ?_⟩ ?_ h hC).2
  · intro x hx
    cases hx
  · intro s a s' o ⟨hr, hc⟩ hs hno
    exact ⟨hr.move (step_move hs), (ledger_step hr (step_move hs)).covered hno hc⟩

theorem step_park (h : Rep b) {c : Conn} {i : Input} (hk : b.parks cfg c)
    (hs : step cfg b (.client c i) = some (b', o)) : b' = parkState cfg b c ∧ o = [] := by
  have hsc := (h.held c (by rw [hk.1]; rfl)).1
  have hsusp : suspendSession cfg b c = (parkState cfg b c, []) := by
    simp only [suspendSession, hsc]
    rw [if_pos ⟨by simp [hk.2.1], hk.2.2⟩]
    rfl
  simp only [step, clientStep, hk.1, hsusp, Option.some.injEq, Prod.mk.injEq] at hs
  exact ⟨hs.1.symm, hs.2.symm⟩

/-- A step that overwrites a parked session leaks its address. -/
theorem leak_of_overwrites (h : (machine cfg users).Run tr b) (ho : Overwrites cfg b a)
    (hs : step cfg b a = some (b', o)) : ¬ b'.NoLeak := by
  have hr := Rep.of_run h
  obtain ⟨c, i, rfl, hk, hne⟩ : ∃ c i, a = .client c i ∧ b.parks cfg c ∧
      b.parked.lookup (b.sess (b.client c).s).resumeKey ≠ none := by
    cases a with
    | client c i => exact ⟨c, i, rfl, ho⟩
    | _ => exact ho.elim
  obtain ⟨p, hp⟩ := Option.ne_none_iff_exists'.mp hne
  obtain ⟨rfl, -⟩ := step_park hr hk hs
  rw [noLeak_iff_covered]
  exact (orphan_of_overwrite hr (exclusive_of_run h) hk.1 hp).not_covered

theorem leavesProperly_of_move (hrep : Rep b) (hm : Move cfg b a b' o)
    (hno : ¬ Overwrites cfg b a) : LeavesProperly cfg ⟨b, a, o, b'⟩ := by
  intro k p hk
  change b.parked.lookup k = some p at hk
  rcases hm.unparks hrep hk with ⟨hstay, -⟩ | ⟨c, i, ex, rfl, hlock, ⟨hf, hu, ht⟩, hx, rfl⟩ |
      ⟨c, i, rfl, hparks, hkey, -⟩ | ⟨t, ok, rfl, hpc, -, -, -, rfl⟩
  · exact Or.inl hstay
  · obtain rfl := hrep.parked_inj hk hf
    obtain ⟨b', hb'⟩ := tryResume_eq (c := c) (w := c) hf hu ht hx
    exact Or.inr (Or.inl ⟨c, i, ex, b', rfl, hlock, rfl, hb'⟩)
  · exact absurd ⟨hparks, by rw [hkey, hk]; simp⟩ hno
  · exact Or.inr (Or.inr ⟨t, ok, rfl, hpc, List.mem_singleton_self _⟩)

/-- **A run leaks no address, and every parked session leaves by a resume or
an expiry, exactly when no `suspendSession` in it finds its key taken.** -/
theorem no_leak_iff_no_overwrite (h : (machine cfg users).Run tr b) :
    (∀ e ∈ tr, e.post.NoLeak ∧ LeavesProperly cfg e) ↔ ∀ e ∈ tr, ¬ Overwrites cfg e.pre e.act := by
  constructor
  · intro hl e he ho
    obtain ⟨tr₁, tr₂, rfl, hr, hs⟩ := h.of_mem he
    exact leak_of_overwrites hr ho hs (hl e he).1
  · intro hC e he
    obtain ⟨tr₁, tr₂, rfl, hr, hs⟩ := h.of_mem he
    refine ⟨noLeak_of_run (hr.snoc hs) ?_, leavesProperly_of_move (Rep.of_run hr) (step_move hs) (hC e he)⟩
    intro e' he'
    simp only [List.mem_append, List.mem_singleton] at he'
    rcases he' with he' | rfl
    · exact hC e' (List.mem_append_left _ he')
    · exact hC e he

theorem no_leak_one_client : ∃ tr b, (machine {} aliceStore).Run tr b ∧
    b.parked.lookup "k" = some 1 ∧ ∀ e ∈ tr, e.post.NoLeak ∧ LeavesProperly {} e := by
  obtain ⟨tr, b, hr, hp, hno⟩ := (machine {} aliceStore).exists_run
    (.register 0 (node "e1" "us" 0) :: joins 1 (aliceConnect "us" "k") ++
      [.drop 1 .other, .client 1 {}])
    (P := fun r => r.2.parked.lookup "k" = some 1 ∧ ∀ e ∈ r.1, ¬ Overwrites {} e.pre e.act)
    (by decide +kernel)
  exact ⟨tr, b, hr, hp, (no_leak_iff_no_overwrite hr).2 hno⟩

/-- Two clients of one user present the same resume key, the second because
the loss of the first is not noticed yet. When both have dropped, the first
session is in neither map and its address is still in use. -/
theorem overwritten_session_leaks : ∃ tr b, (machine {} aliceStore).Run tr b ∧
    b.parked.lookup "k" = some 2 ∧ ¬ b.NoLeak := by
  obtain ⟨tr, b, hr, ho, hs⟩ := (machine {} aliceStore).exists_run
    (.register 0 (node "e1" "us" 0) :: joins 1 (aliceConnect "us" "k") ++
      joins 2 (aliceConnect "us" "k") ++ [.drop 1 .other, .client 1 {}, .drop 2 .other])
    (P := fun r => Overwrites {} r.2 (.client 2 {}) ∧
      ∃ x ∈ step {} r.2 (.client 2 {}), x.1.parked.lookup "k" = some 2)
    (by decide +kernel)
  obtain ⟨⟨b', o⟩, hs, hp⟩ := hs
  have hstep : (machine {} aliceStore).step b (.client 2 {}) = some (b', o) := hs
  exact ⟨_, b', hr.snoc hstep, hp, leak_of_overwrites hr ho hs⟩

/-! ### An address has one holder and is released once -/

/-- A session that existed and is gone. -/
def State.Ended (b : State) (p : Conn) : Prop := (b.client p).pc.born ∧ ¬ b.Live p

theorem ended_of_move (h : Rep b) (hm : Move cfg b a b' o) {p : Conn} (he : b.Ended p) :
    b'.Ended p := by
  refine ⟨hm.born he.1, fun hl => ?_⟩
  rcases h.live_of_move hm hl with hl | hpc
  · exact he.2 hl
  · have := he.1
    rw [hpc] at this
    rcases this with h1 | h1 <;> cases h1

/-- A release is that of a live session, which ends with it. -/
theorem release_of_move (h : Rep b) (hm : Move cfg b a b' o) {p : Conn} {x : Addr}
    (hr : Out.release p x ∈ o) : b.Live p ∧ b'.Ended p ∧ o = [.release p x] := by
  have hborn : b.Live p → (b'.client p).pc.born := fun hp => hm.born (h.born p (h.made p hp))
  cases hm with
  | env _ _ _ out | walk _ _ _ _ _ out => exact absurd hr (out p x)
  | close c i q pc' hpc =>
    obtain ⟨rfl, rfl⟩ := by simpa using hr
    have hph := holds_of_leaving (hpc.imp And.left And.left)
    have hl := live_of_sessions (h.held c hph).1
    exact ⟨hl, ⟨hborn hl, fun hl' => ((h.live_close hph _).1 hl').2 rfl⟩, rfl⟩
  | expire k ok q _ hf =>
    obtain ⟨rfl, rfl⟩ := by simpa using hr
    have hl := live_of_parked hf
    exact ⟨hl, ⟨hborn hl, fun hl' => ((h.live_expire hf _).1 hl').2 rfl⟩, rfl⟩
  | _ => simp at hr

/-- The output releases the address of session `p`. -/
def Out.isRelease (p : Conn) : Out → Bool
  | .release q _ => q = p
  | _ => false

/-- How often the address of session `p` was passed to `Release`. -/
def releases (tr : List (Event State Action Out)) (p : Conn) : ℕ :=
  (tr.flatMap (·.out)).countP (Out.isRelease p)

theorem Out.isRelease_iff {p : Conn} {x : Out} : x.isRelease p = true ↔ ∃ y, x = .release p y := by
  cases x <;> simp [isRelease]

/-- A session whose address was released has ended, and was released once. -/
theorem releases_of_run (h : (machine cfg users).Run tr b) (p : Conn) :
    releases tr p = 0 ∨ releases tr p = 1 ∧ b.Ended p := by
  induction h with
  | nil => exact Or.inl rfl
  | @snoc tr s s' a o hr hs ih =>
    have hrep := Rep.of_run hr
    have hm := step_move hs
    have hadd : releases (tr ++ [⟨s, a, o, s'⟩]) p = releases tr p + o.countP (Out.isRelease p) := by
      simp [releases, List.countP_append]
    rw [hadd]
    by_cases hp : ∃ x, Out.release p x ∈ o
    · obtain ⟨x, hx⟩ := hp
      obtain ⟨hl, he, rfl⟩ := release_of_move hrep hm hx
      rcases ih with h0 | ⟨-, hend⟩
      · right
        rw [h0]
        exact ⟨by simp [Out.isRelease], he⟩
      · exact absurd hl hend.2
    · have h0 : o.countP (Out.isRelease p) = 0 := by
        refine List.countP_eq_zero.mpr fun y hy hrel => ?_
        obtain ⟨x, rfl⟩ := Out.isRelease_iff.mp hrel
        exact hp ⟨x, hy⟩
      rw [h0, Nat.add_zero]
      exact ih.imp_right fun ⟨h1, he⟩ => ⟨h1, ended_of_move hrep hm he⟩

/-- **An address belongs to one session at a time and is released once for
it.** -/
theorem address_exclusive (h : (machine cfg users).Run tr b) :
    (∀ p q, b.Live p → b.Live q → (b.sess p).clientAddr = (b.sess q).clientAddr → p = q) ∧
      ∀ p, releases tr p ≤ 1 := by
  refine ⟨?_, ?_⟩
  · intro p q hp hq he
    have := (exclusive_of_run h).inj (.session p) (.session q) (b.sess q).clientAddr
      ⟨hp, he⟩ ⟨hq, rfl⟩
    exact Owner.session.inj this
  · intro p
    rcases releases_of_run h p with h0 | ⟨h1, -⟩ <;> omega

/-- One client parks, another closes its connection and its address is
released. -/
theorem address_exclusive_two_clients : ∃ tr b, (machine {} aliceStore).Run tr b ∧
    b.Live 1 ∧ b.Live 3 ∧ releases tr 2 = 1 ∧
    ((∀ p q, b.Live p → b.Live q → (b.sess p).clientAddr = (b.sess q).clientAddr → p = q) ∧
      ∀ p, releases tr p ≤ 1) := by
  obtain ⟨tr, b, hr, h1, h2, h3⟩ := (machine {} aliceStore).exists_run
    (.register 0 (node "e1" "us" 0) :: joins 1 (aliceConnect "us" "k") ++
      joins 2 (aliceConnect "us" "") ++
      [.drop 1 .other, .client 1 {}, .drop 2 .other, .client 2 {}] ++ joins 3 (aliceConnect "us" ""))
    (P := fun r => r.2.parked.lookup "k" = some 1 ∧ r.2.sessions.lookup 3 = some 3 ∧
      releases r.1 2 = 1)
    (by decide +kernel)
  exact ⟨tr, b, hr, live_of_parked h1, live_of_sessions h2, h3, address_exclusive hr⟩

end
end Broker
end Revquic
