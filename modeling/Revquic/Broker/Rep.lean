/-
# The representation invariant of the broker

In every state of every run: a session is in at most one of `b.sessions` and
`b.parked`, under its own id or its own resume key, and is marked suspended
exactly in the second; ids are unique; a session in `b.sessions` is run by
one goroutine, that of its `clientConn`, and a parked one by none. So the
early returns of `suspendSession` and `endSession` are never taken.

Key definitions: `State.Live`, `State.Made`, `Ids`, `Rep`.
Key theorems: `Rep.move`, `Rep.of_run`, `Rep.held_inj`.
-/
import Revquic.Broker.Moves

namespace Revquic
namespace Broker

open Lib Netip Ippool Proto

/-- The session is in one of the two maps. -/
def State.Live (b : State) (p : Conn) : Prop :=
  (∃ i, b.sessions.lookup i = some p) ∨ ∃ k, b.parked.lookup k = some p

/-- The goroutine has drawn an id for a session that is not inserted yet. -/
def ClientPC.numbers (pc : ClientPC) : Prop := pc.phase = .numbered ∨ pc.phase = .allocated

/-- The session of the goroutine's own connection may exist. -/
def ClientPC.born (pc : ClientPC) : Prop := pc.phase = .holds ∨ pc.phase = .after

/-- The session has been inserted, be it live or not: an id is never 0. -/
def State.Made (b : State) (p : Conn) : Prop := (b.sess p).id ≠ 0

/-- Ids are drawn once: no two sessions ever have the same, and the ids drawn
for sessions to come are not in use. -/
structure Ids (b : State) : Prop where
  made : ∀ p, b.Live p → b.Made p
  born : ∀ p, b.Made p → (b.client p).pc.born
  bound : ∀ p, b.Made p → (b.sess p).id ≤ b.nextSession
  id_inj : ∀ p q, b.Made p → (b.sess p).id = (b.sess q).id → p = q
  drawn : ∀ c, (b.client c).pc.numbers → 0 < (b.client c).sid ∧ (b.client c).sid ≤ b.nextSession
  fresh : ∀ c p, (b.client c).pc.numbers → (b.sess p).id ≠ (b.client c).sid
  fresh_inj : ∀ c d, (b.client c).pc.numbers → (b.client d).pc.numbers →
    (b.client c).sid = (b.client d).sid → c = d

/-- The representation invariant. -/
structure Rep (b : State) : Prop extends Ids b where
  id_eq : ∀ i p, b.sessions.lookup i = some p → (b.sess p).id = i
  active : ∀ i p, b.sessions.lookup i = some p → (b.sess p).suspended = false
  holder : ∀ i p, b.sessions.lookup i = some p →
    (b.client (b.sess p).clientConn).pc.phase = .holds ∧ (b.client (b.sess p).clientConn).s = p
  held : ∀ c, (b.client c).pc.phase = .holds →
    b.sessions.lookup (b.sess (b.client c).s).id = some (b.client c).s ∧
      (b.sess (b.client c).s).clientConn = c
  key : ∀ k p, b.parked.lookup k = some p →
    (b.sess p).resumeKey = k ∧ k ≠ "" ∧ (b.sess p).suspended = true

section
variable {b b' : State}

theorem live_of_sessions {i : ℕ} {p : Conn} (h : b.sessions.lookup i = some p) : b.Live p :=
  Or.inl ⟨i, h⟩

theorem live_of_parked {k : String} {p : Conn} (h : b.parked.lookup k = some p) : b.Live p :=
  Or.inr ⟨k, h⟩

theorem not_live_newBroker (users : Userstore.Table) (p : Conn) : ¬ (newBroker users).Live p := by
  rintro (⟨i, h⟩ | ⟨k, h⟩) <;> cases h

/-! ### Goroutines -/

/-- How a goroutine may move without a session being affected. -/
structure Compat (t t' : ClientThread) : Prop where
  holds : t.pc.phase = .holds → t'.pc.phase = .holds ∧ t'.s = t.s
  back : t'.pc.phase = .holds → t.pc.phase = .holds
  born : t.pc.born → t'.pc.born
  numbers : t'.pc.numbers → t.pc.numbers ∧ t'.sid = t.sid

theorem uncounted_holds {pc : ClientPC} (h : pc.uncounted = true) : pc.phase = .holds := by
  cases pc <;> first | rfl | cases h

theorem Compat.of_phase {t t' : ClientThread} (hp : t'.pc.phase = t.pc.phase) (hs : t'.s = t.s)
    (hi : t'.sid = t.sid) : Compat t t' := by
  refine ⟨fun h => ⟨hp.trans h, hs⟩, fun h => hp.symm.trans h, ?_, ?_⟩
  · rw [ClientPC.born, ClientPC.born, hp]; exact id
  · rw [ClientPC.numbers, ClientPC.numbers, hp]; exact fun h => ⟨h, hi⟩

theorem Compat.of_before {t t' : ClientThread} (h : t.pc.phase = .before)
    (h' : t'.pc.phase = .before) : Compat t t' := by
  refine ⟨?_, ?_, ?_, ?_⟩ <;> simp [ClientPC.born, ClientPC.numbers, h, h']

theorem Walk.compat {t t' : ClientThread} (h : Walk t t') : Compat t t' := by
  refine ⟨?_, ?_, ?_, ?_⟩
  · intro hp
    have hs := h.same (by rw [hp]; decide)
    refine ⟨?_, hs.2.1⟩
    rcases h.phases with h1 | h1 | h1 | h1 <;> simp_all
  · intro hp
    rcases h.phases with h1 | h1 | h1 | h1 <;> simp_all
  · rintro (hp | hp) <;> rcases h.phases with h1 | h1 | h1 | h1 <;> simp_all [ClientPC.born]
  · rintro (hp | hp) <;> rcases h.phases with h1 | h1 | h1 | h1 <;> simp_all

theorem compat_update {c : Conn} {t' : ClientThread} (h : Compat (b.client c) t') (d : Conn) :
    Compat (b.client d) (Function.update b.client c t' d) := by
  rcases eq_or_ne d c with rfl | hd
  · rwa [Function.update_self]
  · rw [Function.update_of_ne hd]
    exact .of_phase rfl rfl rfl

theorem born_update {c d : Conn} {t' : ClientThread} (hd : (b.client d).pc.born)
    (h : (b.client c).pc.born → t'.pc.born) : (Function.update b.client c t' d).pc.born := by
  rcases eq_or_ne d c with rfl | hne
  · rw [Function.update_self]
    exact h hd
  · rwa [Function.update_of_ne hne]

/-- A goroutine that has had its session does not come back. -/
theorem Move.born {cfg : Config} {a : Action} {o : List Out} (hm : Move cfg b a b' o) {d : Conn}
    (hd : (b.client d).pc.born) : (b'.client d).pc.born := by
  cases hm with
  | env _ client => rwa [client]
  | connect c msg hu => exact born_update hd (by simp [ClientPC.born, ClientPC.phase, hu.1])
  | register c msg =>
    rwa [handleExit_client]
  | walk c t' _ client _ _ hw =>
    rw [client]
    exact born_update hd hw.compat.born
  | choose c i ex rr hpc | draw c i hpc | alloc c i addr pool hpc | insert c i hpc
  | resume c i p ex hpc => exact born_update hd (by simp [ClientPC.born, ClientPC.phase, hpc])
  | count c i _ pc' hph => exact born_update hd fun _ => Or.inl hph
  | park c i q hpc | vanish c i hpc => exact born_update hd fun _ => Or.inr rfl
  | close c i q pc' hpc =>
    refine born_update hd fun _ => Or.inr ?_
    rcases hpc with ⟨-, rfl⟩ | ⟨-, rfl⟩ <;> rfl
  | expire => exact hd

/-! ### Ids -/

namespace Ids

theorem not_made (h : Ids b) {c : Conn} (hc : ¬ (b.client c).pc.born) : ¬ b.Made c :=
  fun hm => hc (h.born c hm)

theorem not_live (h : Ids b) {c : Conn} (hc : ¬ (b.client c).pc.born) : ¬ b.Live c :=
  fun hl => h.not_made hc (h.made c hl)

theorem frame (h : Ids b) (hl : ∀ p, b'.Live p → b.Live p)
    (hid : ∀ p, (b'.sess p).id = (b.sess p).id) (hn : b'.nextSession = b.nextSession)
    (hb : ∀ c, (b.client c).pc.born → (b'.client c).pc.born)
    (ht : ∀ c, (b'.client c).pc.numbers →
      (b.client c).pc.numbers ∧ (b'.client c).sid = (b.client c).sid) : Ids b' := by
  have hm : ∀ p, b'.Made p ↔ b.Made p := fun p => by rw [State.Made, State.Made, hid]
  refine ⟨?_, ?_, ?_, ?_, ?_, ?_, ?_⟩
  · exact fun p hp => (hm p).2 (h.made p (hl p hp))
  · exact fun p hp => hb p (h.born p ((hm p).1 hp))
  · intro p hp
    rw [hid, hn]
    exact h.bound p ((hm p).1 hp)
  · intro p q hp
    rw [hid, hid]
    exact h.id_inj p q ((hm p).1 hp)
  · intro c hc
    rw [(ht c hc).2, hn]
    exact h.drawn c (ht c hc).1
  · intro c p hc
    rw [(ht c hc).2, hid]
    exact h.fresh c p (ht c hc).1
  · intro c d hc hd
    rw [(ht c hc).2, (ht d hd).2]
    exact h.fresh_inj c d (ht c hc).1 (ht d hd).1

theorem draw (h : Ids b) {c : Conn} (hpc : (b.client c).pc = .chosen) : Ids (drawID b c) := by
  have hnm : ¬ b.Made c := h.not_made (by rw [hpc]; simp [ClientPC.born, ClientPC.phase])
  have hc : ∀ d, d ≠ c → (drawID b c).client d = b.client d := fun d hd => Function.update_of_ne hd _ _
  have hcc : ((drawID b c).client c).sid = b.nextSession + 1 := by simp
  have hle : ∀ d, d ≠ c → ((drawID b c).client d).pc.numbers →
      ((drawID b c).client d).sid ≤ b.nextSession := by
    intro d hd hn
    rw [hc d hd] at hn ⊢
    exact (h.drawn d hn).2
  refine ⟨h.made, ?_, ?_, h.id_inj, ?_, ?_, ?_⟩
  · intro p hp
    have hne : p ≠ c := fun he => hnm (he ▸ hp)
    rw [hc p hne]
    exact h.born p hp
  · intro p hp
    exact (h.bound p hp).trans (Nat.le_succ _)
  · intro d hd
    by_cases hdc : d = c
    · rw [hdc, hcc]
      exact ⟨Nat.succ_pos _, le_refl _⟩
    · refine ⟨?_, (hle d hdc hd).trans (Nat.le_succ _)⟩
      rw [hc d hdc] at hd ⊢
      exact (h.drawn d hd).1
  · intro d p hd
    by_cases hdc : d = c
    · rw [hdc, hcc]
      by_cases hp : b.Made p
      · exact (Nat.lt_succ_of_le (h.bound p hp)).ne
      · rw [show ((drawID b c).sess p).id = 0 from not_not.mp hp]
        exact (Nat.succ_ne_zero _).symm
    · rw [hc d hdc] at hd ⊢
      exact h.fresh d p hd
  · intro d e hd he heq
    -- an id drawn before is below the new one
    by_cases hdc : d = c <;> by_cases hec : e = c
    · rw [hdc, hec]
    · have := hle e hec he
      rw [← heq, hdc, hcc] at this
      omega
    · have := hle d hdc hd
      rw [heq, hec, hcc] at this
      omega
    · rw [hc d hdc] at hd heq
      rw [hc e hec] at he heq
      exact h.fresh_inj d e hd he heq

theorem insert_live {c p : Conn} (h : (insertSession b c).Live p) : p = c ∨ b.Live p := by
  rcases h with ⟨i, hi⟩ | ⟨k, hk⟩
  · rw [insertSession, GoMap.lookup_set] at hi
    split_ifs at hi
    · exact Or.inl (Option.some.inj hi).symm
    · exact Or.inr (live_of_sessions hi)
  · exact Or.inr (live_of_parked hk)

theorem insert (h : Ids b) {c : Conn} (hpc : (b.client c).pc = .allocated) :
    Ids (insertSession b c) := by
  have hnum : (b.client c).pc.numbers := Or.inr (by rw [hpc]; rfl)
  have hnm : ¬ b.Made c := h.not_made (by rw [hpc]; simp [ClientPC.born, ClientPC.phase])
  have hc : ∀ d, d ≠ c → (insertSession b c).client d = b.client d :=
    fun d hd => Function.update_of_ne hd _ _
  have hcp : ((insertSession b c).client c).pc = .inserted := by simp
  have hx : ∀ p, p ≠ c → (insertSession b c).sess p = b.sess p :=
    fun _ => insertSession_sess_of_ne
  have hxc : ((insertSession b c).sess c).id = (b.client c).sid := by simp [insertSession, newSession]
  have hmade : ∀ p, p ≠ c → (insertSession b c).Made p → b.Made p := by
    intro p hp hm
    rwa [State.Made, hx p hp] at hm
  have hn : ∀ d, ((insertSession b c).client d).pc.numbers → d ≠ c ∧ (b.client d).pc.numbers := by
    intro d hd
    have hne : d ≠ c := by
      rintro rfl
      rw [hcp] at hd
      simp [ClientPC.numbers, ClientPC.phase] at hd
    exact ⟨hne, hc d hne ▸ hd⟩
  refine ⟨?_, ?_, ?_, ?_, ?_, ?_, ?_⟩
  · intro p hp
    by_cases hpc' : p = c
    · rw [hpc', State.Made, hxc]
      exact (h.drawn c hnum).1.ne'
    · rw [State.Made, hx p hpc']
      exact h.made p ((insert_live hp).resolve_left hpc')
  · intro p hp
    by_cases hpc' : p = c
    · rw [hpc', hcp]; exact Or.inl rfl
    · rw [hc p hpc']; exact h.born p (hmade p hpc' hp)
  · intro p hp
    by_cases hpc' : p = c
    · rw [hpc', hxc]; exact (h.drawn c hnum).2
    · rw [hx p hpc']; exact h.bound p (hmade p hpc' hp)
  · intro p q hp he
    by_cases hpc' : p = c <;> by_cases hqc : q = c
    · rw [hpc', hqc]
    · rw [hpc', hxc, hx q hqc] at he
      exact absurd he.symm (h.fresh c q hnum)
    · rw [hqc, hxc, hx p hpc'] at he
      exact absurd he (h.fresh c p hnum)
    · rw [hx p hpc', hx q hqc] at he
      exact h.id_inj p q (hmade p hpc' hp) he
  · intro d hd
    rw [hc d (hn d hd).1]
    exact h.drawn d (hn d hd).2
  · intro d p hd
    obtain ⟨hdc, hdn⟩ := hn d hd
    rw [hc d hdc]
    by_cases hpc' : p = c
    · rw [hpc', hxc]
      exact fun he => hdc (h.fresh_inj c d hnum hdn he).symm
    · rw [hx p hpc']
      exact h.fresh d p hdn
  · intro d e hd he
    rw [hc d (hn d hd).1, hc e (hn e he).1]
    exact h.fresh_inj d e (hn d hd).2 (hn e he).2

end Ids

namespace Rep

theorem init (users : Userstore.Table) : Rep (newBroker users) := by
  have hl := not_live_newBroker users
  refine ⟨⟨?_, ?_, ?_, ?_, ?_, ?_, ?_⟩, ?_, ?_, ?_, ?_, ?_⟩
  · exact fun p h => absurd h (hl p)
  · exact fun p h => absurd rfl h
  · exact fun p h => absurd rfl h
  · exact fun p q h => absurd rfl h
  · rintro c (h | h) <;> cases h
  · rintro c p (h | h) <;> cases h
  · rintro c d (h | h) <;> cases h
  · exact fun i p h => absurd (live_of_sessions h) (hl p)
  · exact fun i p h => absurd (live_of_sessions h) (hl p)
  · exact fun i p h => absurd (live_of_sessions h) (hl p)
  · intro c h; cases h
  · exact fun k p h => absurd (live_of_parked h) (hl p)

/-- A parked session is not in `b.sessions`. -/
theorem parked_out (h : Rep b) {k : String} {p : Conn} (hp : b.parked.lookup k = some p) :
    b.sessions.lookup (b.sess p).id = none := by
  cases hs : b.sessions.lookup (b.sess p).id with
  | none => rfl
  | some q =>
    have hq := h.id_inj q p (h.made q (live_of_sessions hs)) (h.id_eq _ _ hs)
    have h1 := h.active _ _ hs
    rw [hq, (h.key _ _ hp).2.2] at h1
    cases h1

/-- A goroutine that gives its session up finds it. -/
theorem found (h : Rep b) {c : Conn} (hc : (b.client c).pc = .dropped ∨ (b.client c).pc = .ending) :
    b.sessions.lookup (b.sess (b.client c).s).id ≠ none := by
  rw [(h.held c (holds_of_leaving hc)).1]
  simp

theorem parked_ne (h : Rep b) {k : String} {p c : Conn} (hp : b.parked.lookup k = some p)
    (hpc : (b.client c).pc = .allocated) : p ≠ c := by
  rintro rfl
  exact h.not_live (by rw [hpc]; simp [ClientPC.born, ClientPC.phase]) (live_of_parked hp)

/-- A parked session is run by no goroutine. -/
theorem parked_not_held (h : Rep b) {k : String} {p : Conn} (hp : b.parked.lookup k = some p)
    {c : Conn} (hc : (b.client c).pc.phase = .holds) : (b.client c).s ≠ p := by
  intro he
  have h1 := (h.held c hc).1
  rw [he, h.parked_out hp] at h1
  cases h1

/-- Two goroutines do not run the same session. -/
theorem held_inj (h : Rep b) {c d : Conn} (hc : (b.client c).pc.phase = .holds)
    (hd : (b.client d).pc.phase = .holds) (he : (b.client c).s = (b.client d).s) : c = d := by
  rw [← (h.held c hc).2, ← (h.held d hd).2, he]

/-- Another session is run by another goroutine. -/
theorem holder_ne (h : Rep b) {c q : Conn} {i : ℕ} (hi : i ≠ (b.sess (b.client c).s).id)
    (hq : b.sessions.lookup i = some q) : (b.sess q).clientConn ≠ c := by
  rintro rfl
  rw [(h.holder i q hq).2] at hi
  exact hi (h.id_eq i q hq).symm

/-- A session is parked under one key only. -/
theorem parked_inj (h : Rep b) {k k' : String} {p : Conn} (hp : b.parked.lookup k = some p)
    (hp' : b.parked.lookup k' = some p) : k = k' := by
  rw [← (h.key _ _ hp).1, (h.key _ _ hp').1]

/-! ### Every move keeps it -/

theorem frame (h : Rep b) (hi : Ids b') (hs : b'.sessions = b.sessions) (hp : b'.parked = b.parked)
    (hx : b'.sess = b.sess)
    (hh : ∀ c, (b.client c).pc.phase = .holds →
      (b'.client c).pc.phase = .holds ∧ (b'.client c).s = (b.client c).s)
    (hb : ∀ c, (b'.client c).pc.phase = .holds → (b.client c).pc.phase = .holds) : Rep b' := by
  refine ⟨hi, ?_, ?_, ?_, ?_, ?_⟩
  · rw [hs, hx]; exact h.id_eq
  · rw [hs, hx]; exact h.active
  · intro i p hi
    rw [hs] at hi
    rw [hx]
    obtain ⟨h1, h2⟩ := h.holder i p hi
    exact ⟨(hh _ h1).1, (hh _ h1).2.trans h2⟩
  · intro c hc
    rw [(hh c (hb c hc)).2, hs, hx]
    exact h.held c (hb c hc)
  · rw [hp, hx]; exact h.key

theorem frame_threads (h : Rep b) (hs : b'.sessions = b.sessions) (hp : b'.parked = b.parked)
    (hx : b'.sess = b.sess) (hn : b'.nextSession = b.nextSession)
    (ht : ∀ c, Compat (b.client c) (b'.client c)) : Rep b' := by
  refine h.frame (h.toIds.frame ?_ ?_ hn ?_ ?_) hs hp hx ?_ ?_
  · intro p; rw [State.Live, State.Live, hs, hp]; exact id
  · rw [hx]; exact fun _ => rfl
  · exact fun c => (ht c).born
  · exact fun c => (ht c).numbers
  · exact fun c => (ht c).holds
  · exact fun c => (ht c).back

theorem frame_core (h : Rep b) (hc : SameCore b b')
    (ht : ∀ c, Compat (b.client c) (b'.client c)) : Rep b' :=
  h.frame_threads hc.sessions hc.parked hc.sess hc.nextSession ht

theorem draw (h : Rep b) {c : Conn} (hpc : (b.client c).pc = .chosen) : Rep (drawID b c) := by
  have hc : ∀ d, d ≠ c → (drawID b c).client d = b.client d := fun d hd => Function.update_of_ne hd _ _
  have hph : (b.client c).pc.phase = .before := by rw [hpc]; rfl
  have hcp : ((drawID b c).client c).pc.phase = .numbered := by
    simp [ClientPC.phase]
  refine h.frame (h.toIds.draw hpc) rfl rfl rfl ?_ ?_
  · intro d hd
    have hne : d ≠ c := by rintro rfl; rw [hph] at hd; cases hd
    rw [hc d hne]
    exact ⟨hd, rfl⟩
  · intro d hd
    have hne : d ≠ c := by rintro rfl; rw [hcp] at hd; cases hd
    rwa [hc d hne] at hd

theorem insertSession_lookup (b : State) (c : Conn) (i : ℕ) :
    (insertSession b c).sessions.lookup i =
      if i = (b.client c).sid then some c else b.sessions.lookup i :=
  GoMap.lookup_set _ _ _ _

theorem resumeState_lookup (b : State) (c p ex : Conn) :
    (∀ i, (resumeState b c p ex).sessions.lookup i =
      if i = (b.sess p).id then some p else b.sessions.lookup i) ∧
    ∀ k, (resumeState b c p ex).parked.lookup k =
      if k = (b.client c).msg.resumeKey then none else b.parked.lookup k :=
  ⟨fun _ => GoMap.lookup_set _ _ _ _, fun _ => GoMap.lookup_delete _ _ _⟩

theorem parkState_lookup (cfg : Config) (b : State) (c : Conn) :
    (∀ i, (parkState cfg b c).sessions.lookup i =
      if i = (b.sess (b.client c).s).id then none else b.sessions.lookup i) ∧
    ∀ k, (parkState cfg b c).parked.lookup k =
      if k = (b.sess (b.client c).s).resumeKey then some (b.client c).s else b.parked.lookup k :=
  ⟨fun _ => GoMap.lookup_delete _ _ _, fun _ => GoMap.lookup_set _ _ _ _⟩

theorem closeState_lookup (b : State) (c : Conn) (pc' : ClientPC) (i : ℕ) :
    (closeState b c pc').sessions.lookup i =
      if i = (b.sess (b.client c).s).id then none else b.sessions.lookup i :=
  GoMap.lookup_delete _ _ _

/-- The new session is alive. -/
theorem live_insert (h : Rep b) {c : Conn} (hpc : (b.client c).pc = .allocated) (q : Conn) :
    (insertSession b c).Live q ↔ b.Live q ∨ q = c := by
  have hs := insertSession_lookup b c
  constructor
  · exact fun hq => (Ids.insert_live hq).symm
  · rintro ((⟨i, hi⟩ | ⟨k, hk⟩) | rfl)
    · refine live_of_sessions (i := i) ?_
      rw [hs, if_neg, hi]
      rintro rfl
      exact h.fresh c q (Or.inr (by rw [hpc]; rfl)) (h.id_eq _ _ hi)
    · exact live_of_parked (b := insertSession b c) hk
    · refine live_of_sessions (i := (b.client q).sid) ?_
      rw [hs, if_pos rfl]

theorem insert (h : Rep b) {c : Conn} (hpc : (b.client c).pc = .allocated) :
    Rep (insertSession b c) := by
  have hph : (b.client c).pc.phase = .allocated := by rw [hpc]; rfl
  have hnl : ¬ b.Live c := h.not_live (by simp [ClientPC.born, hph])
  have hfr := fun p => h.fresh c p (Or.inr hph)
  have hls := @live_of_sessions b
  have hlp := @live_of_parked b
  have hc : ∀ d, d ≠ c → (insertSession b c).client d = b.client d :=
    fun d hd => Function.update_of_ne hd _ _
  have hcp : ((insertSession b c).client c).pc.phase = .holds ∧
      ((insertSession b c).client c).s = c := by simp [ClientPC.phase]
  have hx : ∀ p, p ≠ c → (insertSession b c).sess p = b.sess p :=
    fun _ => insertSession_sess_of_ne
  have hxc : ((insertSession b c).sess c).id = (b.client c).sid ∧
      ((insertSession b c).sess c).clientConn = c ∧
      ((insertSession b c).sess c).suspended = false := by simp [insertSession, newSession]
  have hs := insertSession_lookup b c
  have hp : (insertSession b c).parked = b.parked := rfl
  have hi := h.toIds.insert hpc
  generalize insertSession b c = b' at *
  refine ⟨hi, ?_, ?_, ?_, ?_, ?_⟩
  · grind [h.id_eq]
  · grind [h.active]
  · grind [h.holder]
  · intro d hd
    by_cases hdc : d = c
    · grind
    · rw [hc d hdc] at hd ⊢
      have := h.held d hd
      grind
  · grind [h.key]

/-- A resume keeps the session alive. -/
theorem live_resume (h : Rep b) {c p ex : Conn}
    (hf : b.parked.lookup (b.client c).msg.resumeKey = some p) (q : Conn) :
    (resumeState b c p ex).Live q ↔ b.Live q := by
  obtain ⟨hs, hp⟩ := resumeState_lookup b c p ex
  constructor
  · rintro (⟨i, hi⟩ | ⟨k, hk⟩)
    · rw [hs] at hi
      split_ifs at hi
      · exact Option.some.inj hi ▸ live_of_parked hf
      · exact live_of_sessions hi
    · rw [hp] at hk
      split_ifs at hk
      exact live_of_parked hk
  · rintro (⟨i, hi⟩ | ⟨k, hk⟩)
    · refine live_of_sessions (i := i) ?_
      rw [hs, if_neg, hi]
      rintro rfl
      rw [h.parked_out hf] at hi
      cases hi
    · by_cases hkk : k = (b.client c).msg.resumeKey
      · rw [hkk, hf] at hk
        refine live_of_sessions (i := (b.sess p).id) ?_
        rw [hs, if_pos rfl, hk]
      · refine live_of_parked (k := k) ?_
        rw [hp, if_neg hkk, hk]

theorem resume (h : Rep b) {c p ex : Conn} (hpc : (b.client c).pc = .lock)
    (hf : b.parked.lookup (b.client c).msg.resumeKey = some p) : Rep (resumeState b c p ex) := by
  have hph : (b.client c).pc.phase = .before := by rw [hpc]; rfl
  have hout := h.parked_out hf
  have hinj : ∀ k, b.parked.lookup k = some p → k = (b.client c).msg.resumeKey :=
    fun k hk => h.parked_inj hk hf
  have hc : ∀ d, d ≠ c → (resumeState b c p ex).client d = b.client d :=
    fun d hd => Function.update_of_ne hd _ _
  have hcp : ((resumeState b c p ex).client c).pc.phase = .holds ∧
      ((resumeState b c p ex).client c).s = p := by
    simp [ClientPC.phase]
  have hx : ∀ q, q ≠ p → (resumeState b c p ex).sess q = b.sess q :=
    fun _ => resumeState_sess_of_ne
  have hxp : ((resumeState b c p ex).sess p).id = (b.sess p).id ∧
      ((resumeState b c p ex).sess p).clientConn = c ∧
      ((resumeState b c p ex).sess p).suspended = false := by simp [resumeState]
  obtain ⟨hs, hp⟩ := resumeState_lookup b c p ex
  have hn : (resumeState b c p ex).nextSession = b.nextSession := rfl
  have hl : ∀ q, (resumeState b c p ex).Live q → b.Live q := fun q => (h.live_resume hf q).1
  generalize resumeState b c p ex = b' at *
  have hid : ∀ q, (b'.sess q).id = (b.sess q).id := by grind
  refine ⟨h.toIds.frame hl hid hn ?_ ?_, ?_, ?_, ?_, ?_, ?_⟩
  · grind [ClientPC.born]
  · grind [ClientPC.numbers]
  · grind [h.id_eq]
  · grind [h.active, h.id_eq]
  · grind [h.holder, h.id_eq]
  · intro d hd
    by_cases hdc : d = c
    · grind
    · rw [hc d hdc] at hd ⊢
      have := h.held d hd
      have := h.parked_not_held hf hd
      grind
  · grind [h.key]

/-- A session that is parked stays alive; one parked before under the same
key does not. -/
theorem live_park (h : Rep b) {cfg : Config} {c : Conn} (hc : (b.client c).pc.phase = .holds)
    (q : Conn) : (parkState cfg b c).Live q ↔
      b.Live q ∧ b.parked.lookup (b.sess (b.client c).s).resumeKey ≠ some q := by
  obtain ⟨hs, hp⟩ := parkState_lookup cfg b c
  have hsc := (h.held c hc).1
  have hnp : ∀ i, b.sessions.lookup i = some q → ∀ k, b.parked.lookup k ≠ some q := by
    intro i hi k hk
    rw [← h.id_eq i q hi, h.parked_out hk] at hi
    cases hi
  constructor
  · rintro (⟨i, hi⟩ | ⟨k, hk⟩)
    · rw [hs] at hi
      split_ifs at hi
      exact ⟨live_of_sessions hi, hnp i hi _⟩
    · rw [hp] at hk
      split_ifs at hk with hkk
      · cases hk
        exact ⟨live_of_sessions hsc, hnp _ hsc _⟩
      · exact ⟨live_of_parked hk, fun hq => hkk (h.parked_inj hk hq)⟩
  · rintro ⟨⟨i, hi⟩ | ⟨k, hk⟩, hne⟩
    · by_cases hii : i = (b.sess (b.client c).s).id
      · rw [hii, hsc] at hi
        refine live_of_parked (k := (b.sess (b.client c).s).resumeKey) ?_
        rw [hp, if_pos rfl, hi]
      · refine live_of_sessions (i := i) ?_
        rw [hs, if_neg hii, hi]
    · refine live_of_parked (k := k) ?_
      rw [hp, if_neg, hk]
      rintro rfl
      exact hne hk

theorem park (h : Rep b) {cfg : Config} {c : Conn} (hpc : (b.client c).pc = .dropped)
    (hk : (b.sess (b.client c).s).resumeKey ≠ "") : Rep (parkState cfg b c) := by
  have hph : (b.client c).pc.phase = .holds := by rw [hpc]; rfl
  obtain ⟨hsc, hcl⟩ := h.held c hph
  have hinj : ∀ d, (b.client d).pc.phase = .holds → (b.client d).s = (b.client c).s → d = c :=
    fun d hd he => h.held_inj hd hph he
  have hnp : ∀ k q, b.parked.lookup k = some q → q ≠ (b.client c).s :=
    fun k q hq he => h.parked_not_held hq hph he.symm
  have hc : ∀ d, d ≠ c → (parkState cfg b c).client d = b.client d :=
    fun d hd => Function.update_of_ne hd _ _
  have hcp : ((parkState cfg b c).client c).pc.phase = .after := by
    simp [ClientPC.phase]
  have hx : ∀ q, q ≠ (b.client c).s → (parkState cfg b c).sess q = b.sess q :=
    fun _ => parkState_sess_of_ne
  have hxp : ((parkState cfg b c).sess (b.client c).s).id = (b.sess (b.client c).s).id ∧
      ((parkState cfg b c).sess (b.client c).s).resumeKey = (b.sess (b.client c).s).resumeKey ∧
      ((parkState cfg b c).sess (b.client c).s).suspended = true := by simp [parkState]
  obtain ⟨hs, hp⟩ := parkState_lookup cfg b c
  have hn : (parkState cfg b c).nextSession = b.nextSession := rfl
  have hl : ∀ q, (parkState cfg b c).Live q → b.Live q := fun q hq => ((h.live_park hph q).1 hq).1
  generalize parkState cfg b c = b' at *
  have hid : ∀ q, (b'.sess q).id = (b.sess q).id := by grind
  refine ⟨h.toIds.frame hl hid hn ?_ ?_, ?_, ?_, ?_, ?_, ?_⟩
  · grind [ClientPC.born]
  · grind [ClientPC.numbers]
  · grind [h.id_eq]
  · grind [h.active, h.id_eq]
  · grind [h.holder, h.id_eq]
  · intro d hd
    by_cases hdc : d = c
    · grind
    · rw [hc d hdc] at hd ⊢
      have := h.held d hd
      grind
  · grind [h.key]

/-- A session that is torn down is gone. -/
theorem live_close (h : Rep b) {c : Conn} {pc' : ClientPC} (hc : (b.client c).pc.phase = .holds)
    (q : Conn) : (closeState b c pc').Live q ↔ b.Live q ∧ q ≠ (b.client c).s := by
  have hs := closeState_lookup b c pc'
  constructor
  · rintro (⟨i, hi⟩ | ⟨k, hk⟩)
    · rw [hs] at hi
      split_ifs at hi with hii
      refine ⟨live_of_sessions hi, ?_⟩
      rintro rfl
      exact hii (h.id_eq _ _ hi).symm
    · exact ⟨live_of_parked hk, fun hq => h.parked_not_held hk hc hq.symm⟩
  · rintro ⟨⟨i, hi⟩ | ⟨k, hk⟩, hne⟩
    · refine live_of_sessions (i := i) ?_
      rw [hs, if_neg, hi]
      rintro rfl
      rw [(h.held c hc).1] at hi
      exact hne (Option.some.inj hi).symm
    · exact live_of_parked hk

theorem close (h : Rep b) {c : Conn} {pc' : ClientPC} (hph : (b.client c).pc.phase = .holds)
    (hpc' : pc'.phase = .after) : Rep (closeState b c pc') := by
  obtain ⟨hsc, hcl⟩ := h.held c hph
  have hinj : ∀ d, (b.client d).pc.phase = .holds → (b.client d).s = (b.client c).s → d = c :=
    fun d hd he => h.held_inj hd hph he
  have hc : ∀ d, d ≠ c → (closeState b c pc').client d = b.client d :=
    fun d hd => Function.update_of_ne hd _ _
  have hcp : ((closeState b c pc').client c).pc.phase = .after := by
    simp [hpc']
  have hx : ∀ q, (closeState b c pc').sess q = b.sess q := fun _ => rfl
  have hs := closeState_lookup b c pc'
  have hp : (closeState b c pc').parked = b.parked := rfl
  have hn : (closeState b c pc').nextSession = b.nextSession := rfl
  have hl : ∀ q, (closeState b c pc').Live q → b.Live q := fun q hq => ((h.live_close hph q).1 hq).1
  generalize closeState b c pc' = b' at *
  refine ⟨h.toIds.frame hl (fun q => by rw [hx]) hn ?_ ?_, ?_, ?_, ?_, ?_, ?_⟩
  · grind [ClientPC.born]
  · grind [ClientPC.numbers]
  · grind [h.id_eq]
  · grind [h.active]
  · grind [h.holder, h.id_eq]
  · intro d hd
    by_cases hdc : d = c
    · grind
    · rw [hc d hdc] at hd ⊢
      have := h.held d hd
      grind [h.id_eq]
  · grind [h.key]

/-- A session that expires is gone. -/
theorem live_expire (h : Rep b) {k : ℕ} {p : Conn}
    (hf : b.parked.lookup (b.timer k).resumeKey = some p) (q : Conn) :
    (expireState b k p).Live q ↔ b.Live q ∧ q ≠ p := by
  have hp : ∀ k', (expireState b k p).parked.lookup k' =
      if k' = (b.timer k).resumeKey then none else b.parked.lookup k' :=
    fun k' => GoMap.lookup_delete _ _ _
  constructor
  · rintro (⟨i, hi⟩ | ⟨k', hk'⟩)
    · refine ⟨live_of_sessions hi, ?_⟩
      rintro rfl
      have hi' : b.sessions.lookup i = some q := hi
      rw [← h.id_eq i q hi', h.parked_out hf] at hi'
      cases hi'
    · rw [hp] at hk'
      split_ifs at hk' with hkk
      refine ⟨live_of_parked hk', ?_⟩
      rintro rfl
      exact hkk (h.parked_inj hk' hf)
  · rintro ⟨⟨i, hi⟩ | ⟨k', hk'⟩, hne⟩
    · exact live_of_sessions (b := expireState b k p) hi
    · refine live_of_parked (k := k') ?_
      rw [hp, if_neg, hk']
      rintro rfl
      rw [hf] at hk'
      exact hne (Option.some.inj hk').symm

theorem expire (h : Rep b) {k : ℕ} {p : Conn}
    (hf : b.parked.lookup (b.timer k).resumeKey = some p) : Rep (expireState b k p) := by
  refine ⟨h.toIds.frame (fun q hq => ((h.live_expire hf q).1 hq).1) (fun _ => rfl) rfl (fun _ => id)
    (fun _ h => ⟨h, rfl⟩), h.id_eq, h.active, h.holder, h.held, ?_⟩
  intro k' q hq
  rw [expireState, GoMap.lookup_delete] at hq
  split_ifs at hq
  exact h.key k' q hq

theorem move (h : Rep b) {cfg : Config} {a : Action} {o : List Out} (hm : Move cfg b a b' o) :
    Rep b' := by
  cases hm with
  | env core client => exact h.frame_core core fun c => by rw [client]; exact .of_phase rfl rfl rfl
  | connect c msg hu =>
    exact h.frame_core ⟨rfl, rfl, rfl, rfl, rfl⟩ (compat_update (.of_before (by rw [hu.1]; rfl) rfl))
  | register c msg =>
    refine h.frame_core (handleExit_core cfg b c msg) fun _ => ?_
    rw [handleExit_client]
    exact .of_phase rfl rfl rfl
  | walk c t' core client _ _ hw =>
    exact h.frame_core core fun d => by rw [client]; exact compat_update hw.compat d
  | choose c i ex rr hpc =>
    exact h.frame_core ⟨rfl, rfl, rfl, rfl, rfl⟩ (compat_update (.of_before (by rw [hpc]; rfl) rfl))
  | draw c i hpc => exact h.draw hpc
  | alloc c i addr pool hpc =>
    have hph : (b.client c).pc.phase = .numbered := by rw [hpc]; rfl
    refine h.frame_threads rfl rfl rfl rfl (compat_update ⟨?_, ?_, ?_, fun _ => ⟨Or.inl hph, rfl⟩⟩)
    all_goals simp [ClientPC.phase, ClientPC.born, hpc]
  | insert c i hpc => exact h.insert hpc
  | count c i hpc pc' hph =>
    exact h.frame_core ⟨rfl, rfl, rfl, rfl, rfl⟩
      (compat_update (.of_phase (hph.trans (uncounted_holds hpc).symm) rfl rfl))
  | resume c i p ex hpc _ hf => exact h.resume hpc hf
  | park c i q hpc _ _ hk => exact h.park hpc hk
  | close c i q pc' hpc =>
    rcases hpc with ⟨hpc, rfl⟩ | ⟨hpc, rfl⟩
    · exact h.close (by rw [hpc]; rfl) rfl
    · exact h.close (by rw [hpc]; rfl) rfl
  | vanish c i hpc hf => exact absurd hf (h.found hpc)
  | expire k ok p _ hf => exact h.expire hf

/-- A session comes to life only when its goroutine inserts it. -/
theorem live_of_move (h : Rep b) {cfg : Config} {a : Action} {o : List Out}
    (hm : Move cfg b a b' o) {p : Conn} (hp : b'.Live p) :
    b.Live p ∨ (b.client p).pc = .allocated := by
  cases hm with
  | env core | walk c t' core =>
    rw [State.Live, core.sessions, core.parked] at hp
    exact Or.inl hp
  | register c msg =>
    have core := handleExit_core cfg b c msg
    rw [State.Live, core.sessions, core.parked] at hp
    exact Or.inl hp
  | insert c i hpc =>
    rcases (h.live_insert hpc p).1 hp with hp | rfl
    · exact Or.inl hp
    · exact Or.inr hpc
  | resume c i q ex _ _ hf => exact Or.inl ((h.live_resume hf p).1 hp)
  | park c i q hpc => exact Or.inl ((h.live_park (by rw [hpc]; rfl) p).1 hp).1
  | close c i q pc' hpc =>
    have hph := holds_of_leaving (hpc.imp And.left And.left)
    exact Or.inl ((h.live_close hph p).1 hp).1
  | expire k ok q _ hf => exact Or.inl ((h.live_expire hf p).1 hp).1
  | _ => exact Or.inl hp

/-- **The representation invariant** holds in every state of every run. -/
theorem of_run {cfg : Config} {users : Userstore.Table} {tr : List (Event State Action Out)}
    (h : (machine cfg users).Run tr b) : Rep b :=
  h.invariant (init users) fun _ _ _ _ hb hs => hb.move (step_move hs)

end Rep

/-- What can happen to a parked session: it stays as it is, is resumed, has
another one parked in its place, or expires. -/
theorem Move.unparks {cfg : Config} {a : Action} {o : List Out} (hm : Move cfg b a b' o)
    (hrep : Rep b) {k : String} {p : Conn} (hp : b.parked.lookup k = some p) :
    b'.parked.lookup k = some p ∧ b'.sess p = b.sess p ∨
      (∃ c i ex, a = .client c i ∧ (b.client c).pc = .lock ∧ b.mayResume cfg c p ∧
        b.exits.lookup (b.sess p).nodeID = some ex ∧ b' = resumeState b c p ex) ∨
      (∃ c i, a = .client c i ∧ b.parks cfg c ∧ (b.sess (b.client c).s).resumeKey = k ∧
        b' = parkState cfg b c) ∨
      ∃ j ok, a = .timer j ok ∧ (b.timer j).pc = .fired ∧ (b.timer j).resumeKey = k ∧
        (b.sess p).id = (b.timer j).sid ∧ b' = expireState b j p ∧
        o = [.release p (b.sess p).clientAddr] := by
  cases hm with
  | env core | walk c t' core => exact Or.inl ⟨by rw [core.parked, hp], by rw [core.sess]⟩
  | register c msg =>
    have core := handleExit_core cfg b c msg
    exact Or.inl ⟨by rw [core.parked, hp], by rw [core.sess]⟩
  | insert c i hpc =>
    exact Or.inl ⟨hp, insertSession_sess_of_ne (hrep.parked_ne hp hpc)⟩
  | resume c i q ex hpc _ hf hu ht hx =>
    by_cases hk : k = (b.client c).msg.resumeKey
    · subst hk
      obtain rfl := Option.some.inj (hp.symm.trans hf)
      exact Or.inr (Or.inl ⟨c, i, ex, rfl, hpc, ⟨hf, hu, ht⟩, hx, rfl⟩)
    · refine Or.inl ⟨?_, resumeState_sess_of_ne ?_⟩
      · change (b.parked.erase _).lookup k = some p
        rw [GoMap.lookup_delete, if_neg hk, hp]
      · rintro rfl
        exact hk (hrep.parked_inj hp hf)
  | park c i q hpc _ hd hkey ht =>
    by_cases hk : k = (b.sess (b.client c).s).resumeKey
    · exact Or.inr (Or.inr (Or.inl ⟨c, i, rfl, ⟨hpc, hd, hkey, ht⟩, hk.symm, rfl⟩))
    · refine Or.inl ⟨?_, parkState_sess_of_ne (hrep.parked_not_held hp (by rw [hpc]; rfl)).symm⟩
      change (b.parked.insert _ _).lookup k = some p
      rw [GoMap.lookup_set, if_neg hk, hp]
  | expire j ok q hpc hf hid =>
    by_cases hk : k = (b.timer j).resumeKey
    · subst hk
      obtain rfl := Option.some.inj (hp.symm.trans hf)
      exact Or.inr (Or.inr (Or.inr ⟨j, ok, rfl, hpc, rfl, hid, rfl, rfl⟩))
    · refine Or.inl ⟨?_, rfl⟩
      change (b.parked.erase _).lookup k = some p
      rw [GoMap.lookup_delete, if_neg hk, hp]
  | _ => exact Or.inl ⟨hp, rfl⟩

/-- Only a resume moves a session to another exit. -/
theorem Move.exitConn {cfg : Config} {a : Action} {o : List Out} (hm : Move cfg b a b' o) {p : Conn}
    (hborn : (b.client p).pc.born) : (b'.sess p).exitConn = (b.sess p).exitConn ∨
      ∃ c i, a = .client c i ∧ b.resumes cfg c p := by
  cases hm with
  | env core | walk c t' core => exact Or.inl (by rw [core.sess])
  | register c msg => exact Or.inl (by rw [(handleExit_core cfg b c msg).sess])
  | insert c i hpc =>
    refine Or.inl ?_
    rw [insertSession_sess_of_ne]
    rintro rfl
    rw [hpc] at hborn
    rcases hborn with h | h <;> cases h
  | resume c i q ex hpc _ hf hu ht hx hlist =>
    by_cases hpq : p = q
    · subst hpq
      exact Or.inr ⟨c, i, rfl, hpc, hlist, ⟨hf, hu, ht⟩, GoMap.mem_iff.mpr ⟨ex, hx⟩⟩
    · exact Or.inl (by rw [resumeState_sess_of_ne hpq])
  | park c i q =>
    refine Or.inl ?_
    by_cases hps : p = (b.client c).s
    · rw [hps, parkState_sess_self]
    · rw [parkState_sess_of_ne hps]
  | _ => exact Or.inl rfl

end
end Broker
end Revquic
