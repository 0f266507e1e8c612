/-
# Migration between paths, under concurrency

Every migration of a session is two steps: `Fire` moves the state machine,
`setPath` swaps the path, and each has a lock of its own. Between the two,
another call can do both of its steps, and the path it set is then
overwritten: a session that is closed keeps a path, or one that is relayed
sends over a direct path that is gone. This happens only where a call sets
its path after the last call to have fired has set its own.

Key definitions: `Call`, `step`, `machine`, `InTurn`, `Inv`, `Agrees`.
Key theorems: `Inv.step`, `path_agrees_of_inTurn`.
-/
import Revquic.Datapath
import Revquic.Lib.GoMap
import Revquic.Lib.Machine

namespace Revquic
namespace Datapath

open Lib

variable {σ : Type*}

/-- A call of one of a session's methods. -/
inductive Call (σ : Type*)
  | startRelay (p : Path σ)
  | beginChecks
  | upgradeDirect (p : Path σ)
  | checksFailed
  | fallbackRelay (p : Path σ)
  | close

/-- The event it fires. -/
def Call.event : Call σ → Ev
  | .startRelay _ => .startRelay
  | .beginChecks => .beginChecks
  | .upgradeDirect _ => .directEstablished
  | .checksFailed => .checksFailed
  | .fallbackRelay _ => .directLost
  | .close => .close

/-- The path it sets once it has fired. -/
def Call.sets : Call σ → Option (Path σ)
  | .startRelay p | .upgradeDirect p | .fallbackRelay p => some p
  | .beginChecks | .checksFailed => none
  | .close => some {}

/-- `Close` sets the path even if `Fire` has failed. -/
def Call.isClose : Call σ → Bool
  | .close => true
  | _ => false

/-- Where a call stands once it has fired: about to set the path, or
returned; with the error, if there is one. -/
inductive CallPC (σ : Type*)
  | setting (c : Call σ) (p : Path σ) (err : Option InvalidTransition)
  | returned (err : Option InvalidTransition)

def CallPC.isSetting : CallPC σ → Bool
  | .setting _ _ _ => true
  | .returned _ => false

/-- A session, and the calls on it that have fired. -/
structure State (σ : Type*) where
  sess : Session σ
  calls : GoMap ℕ (CallPC σ) := ∅

/-- Call `k` fires; call `k` sets the path. -/
inductive Action (σ : Type*)
  | fire (k : ℕ) (c : Call σ)
  | set (k : ℕ)

/-- The `Fire` of a call. -/
def fireCall (s : State σ) (k : ℕ) (c : Call σ) : State σ :=
  match fire s.sess.m c.event with
  | .error err =>
    if c.isClose then { s with calls := s.calls.insert k (.setting c {} (some err)) }
    else { s with calls := s.calls.insert k (.returned (some err)) }
  | .ok m =>
    { sess := { s.sess with m }
      calls := s.calls.insert k (match c.sets with
        | some p => .setting c p none
        | none => .returned none) }

/-- One step. -/
def step (s : State σ) : Action σ → Option (State σ × List Unit)
  | .fire k c => if k ∈ s.calls then none else some (fireCall s k c, [])
  | .set k =>
    match s.calls.lookup k with
    | some (.setting _ p err) =>
      some ({ sess := s.sess.setPath p, calls := s.calls.insert k (.returned err) }, [])
    | _ => none

/-- A new session, under any interleaving of calls. -/
def machine (σ : Type*) (id : ℕ) : Machine (State σ) (Action σ) Unit := ⟨{ sess := { id } }, step⟩

/-- No call is in progress. -/
def State.Quiet (s : State σ) : Prop := ∀ k pc, s.calls.lookup k = some pc → pc.isSetting = false

instance (s : State σ) : Decidable s.Quiet :=
  decidable_of_iff (∀ x ∈ s.calls.entries, x.2.isSetting = false)
    ⟨fun h _ _ hk => h _ (GoMap.mem_entries.mpr hk), fun h x hx => h x.1 x.2 (GoMap.mem_entries.mp hx)⟩

/-- The call has moved the state machine and is about to set the path. -/
def CallPC.migrating : CallPC σ → Bool
  | .setting _ _ none => true
  | _ => false

def State.migrating (s : State σ) (k : ℕ) : Bool := (s.calls.lookup k).any CallPC.migrating

/-! ### What a run has installed -/

/-- The relay path a step installs. -/
def installs (e : Event (State σ) (Action σ) Unit) : Option (Path σ) :=
  match e.act with
  | .fire _ _ => none
  | .set k =>
    match e.pre.calls.lookup k with
    | some (.setting (.startRelay _) p _) | some (.setting (.fallbackRelay _) p _) => some p
    | _ => none

/-- The direct path of an `UpgradeDirect` that succeeds in a step. -/
def upgrades (e : Event (State σ) (Action σ) Unit) : Option (Path σ) :=
  match e.act with
  | .fire _ (.upgradeDirect p) =>
    if (transitions e.pre.sess.m .directEstablished).isSome then some p else none
  | _ => none

/-- The call that moves the state machine in a step and has a path to set. -/
def migrates (e : Event (State σ) (Action σ) Unit) : Option ℕ :=
  match e.act with
  | .fire k _ => if e.post.migrating k then some k else none
  | .set _ => none

/-- The last of what `f` finds in a run. -/
def latest {β : Type*} (f : Event (State σ) (Action σ) Unit → Option β)
    (tr : List (Event (State σ) (Action σ) Unit)) : Option β := (tr.filterMap f).getLast?

/-- A call that has fired sets its path only while the last call to have
fired is still to set its own. -/
def InTurn (tr : List (Event (State σ) (Action σ) Unit)) (e : Event (State σ) (Action σ) Unit) :
    Prop :=
  match e.act with
  | .fire _ _ => True
  | .set k => e.pre.migrating k = true → ∀ j ∈ latest migrates tr, e.pre.migrating j = true

instance (tr : List (Event (State σ) (Action σ) Unit)) : DecidablePred (InTurn tr)
  | ⟨_, .fire _ _, _, _⟩ => isTrue trivial
  | ⟨_, .set _, _, _⟩ => inferInstanceAs (Decidable (_ → _))

section
variable {id : ℕ} {s s' : State σ} {tr : List (Event (State σ) (Action σ) Unit)}
  {e : Event (State σ) (Action σ) Unit}

theorem latest_none {β : Type*} {f : Event (State σ) (Action σ) Unit → Option β} (h : f e = none) : latest f (tr ++ [e]) = latest f tr := by
  simp [latest, h]

theorem latest_some {β : Type*} {f : Event (State σ) (Action σ) Unit → Option β} {x : β}
    (h : f e = some x) : latest f (tr ++ [e]) = some x := by
  simp [latest, h]

/-- The path is the one the state calls for. -/
structure Fits (tr : List (Event (State σ) (Action σ) Unit)) (s : Session σ) : Prop where
  noPath : s.m = .new ∨ s.m = .closed → s.path.sender = none
  relay : s.m = .relaying ∨ s.m = .checking → latest installs tr = some s.path
  direct : s.m = .direct → latest upgrades tr = some s.path

/-- What is known of the state while the last call to have fired is about to
set path `p`. -/
def Awaits (tr : List (Event (State σ) (Action σ) Unit)) (m : PathState) (p : Path σ) :
    Call σ → Prop
  | .startRelay _ | .fallbackRelay _ => m = .relaying ∨ m = .checking
  | .upgradeDirect _ => m = .direct ∧ latest upgrades tr = some p
  | .close => m = .closed ∧ p.sender = none
  | .beginChecks | .checksFailed => False

/-- The invariant: while the last call to have fired is about to set the
path, the state is the one it has led to; once it has, the path fits. -/
structure Inv (tr : List (Event (State σ) (Action σ) Unit)) (s : State σ) : Prop where
  awaits : ∀ k c p, latest migrates tr = some k → s.calls.lookup k = some (.setting c p none) →
    Awaits tr s.sess.m p c
  fits : (∀ k, latest migrates tr = some k → s.migrating k = false) → Fits tr s.sess
  fired : ∀ k, s.migrating k = true → (latest migrates tr).isSome
  failed : ∀ k c p err, s.calls.lookup k = some (.setting c p (some err)) →
    s.sess.m = .closed ∧ c = .close ∧ p.sender = none

theorem Inv.init (id : ℕ) : Inv [] (machine σ id).init where
  awaits k c p h := by cases h
  fits _ := ⟨fun _ => rfl, fun h => by cases h <;> contradiction, fun h => by cases h⟩
  fired k h := by cases h
  failed k c p err h := by cases h

/-! ### One step -/

variable {tr' : List (Event (State σ) (Action σ) Unit)} {m : PathState} {p : Path σ} {c : Call σ}
  {k : ℕ} {err : Option InvalidTransition}

theorem Awaits.later (h : Awaits tr m p c) (hu : latest upgrades tr' = latest upgrades tr) :
    Awaits tr' m p c := by
  cases c with
  | upgradeDirect q => exact ⟨h.1, hu.trans h.2⟩
  | startRelay q | fallbackRelay q | close | beginChecks | checksFailed => exact h

theorem Fits.later {x : Session σ} (h : Fits tr x) (hi : latest installs tr' = latest installs tr)
    (hu : latest upgrades tr' = latest upgrades tr) : Fits tr' x :=
  ⟨h.noPath, fun hm => hi.trans (h.relay hm), fun hm => hu.trans (h.direct hm)⟩

theorem Fits.relayed {x : Session σ} (hm : x.m = .relaying ∨ x.m = .checking)
    (h : latest installs tr = some x.path) : Fits tr x := by
  refine ⟨fun hn => ?_, fun _ => h, fun hd => ?_⟩
  · rcases hm with hm | hm <;> rcases hn with hn | hn <;> exact absurd (hm.symm.trans hn) (by decide)
  · rcases hm with hm | hm <;> exact absurd (hm.symm.trans hd) (by decide)

theorem Fits.upgraded {x : Session σ} (hm : x.m = .direct) (h : latest upgrades tr = some x.path) :
    Fits tr x := by
  refine ⟨fun hn => ?_, fun hr => ?_, fun _ => h⟩
  · rcases hn with hn | hn <;> exact absurd (hm.symm.trans hn) (by decide)
  · rcases hr with hr | hr <;> exact absurd (hm.symm.trans hr) (by decide)

theorem Fits.ended {x : Session σ} (hm : x.m = .closed) (h : x.path.sender = none) : Fits tr x := by
  refine ⟨fun _ => h, fun hr => ?_, fun hd => absurd (hm.symm.trans hd) (by decide)⟩
  rcases hr with hr | hr <;> exact absurd (hm.symm.trans hr) (by decide)

theorem migrating_insert {x : Session σ} {calls : GoMap ℕ (CallPC σ)} {pc : CallPC σ} {j : ℕ} :
    (State.mk x (calls.insert k pc)).migrating j =
      if j = k then pc.migrating else (State.mk x calls).migrating j := by
  unfold State.migrating
  rw [GoMap.lookup_set]
  split_ifs <;> rfl

theorem migrating_fresh (hk : k ∉ s.calls) : s.migrating k = false := by
  unfold State.migrating
  rw [AList.lookup_eq_none.mpr hk]
  rfl

theorem migrating_of_lookup (hk : s.calls.lookup k = some (.setting c p none)) :
    s.migrating k = true := by
  simp [State.migrating, hk, CallPC.migrating]

/-- A call that has just fired was not among those about to set the path. -/
theorem migrating_before (hk : k ∉ s.calls) {x : Session σ} {pc : CallPC σ} {j : ℕ}
    (hj : (State.mk x (s.calls.insert k pc)).migrating j = false) : s.migrating j = false := by
  rw [migrating_insert] at hj
  split_ifs at hj with hjk
  · rw [hjk]
    exact migrating_fresh hk
  · exact hj

/-- What one call does leaves the calls about to set the path as they were,
itself apart. -/
theorem lookup_other {calls : GoMap ℕ (CallPC σ)} {pc : CallPC σ} {j : ℕ}
    (hpc : pc.migrating = false)
    (hj : (calls.insert k pc).lookup j = some (.setting c p none)) :
    j ≠ k ∧ calls.lookup j = some (.setting c p none) := by
  rw [GoMap.lookup_set] at hj
  split_ifs at hj with hjk
  · obtain rfl := Option.some.inj hj
    cases hpc
  · exact ⟨hjk, hj⟩

theorem lookup_returned_failed {calls : GoMap ℕ (CallPC σ)} {j : ℕ} {err' : InvalidTransition}
    (h : (calls.insert k (.returned err)).lookup j = some (.setting c p (some err'))) :
    calls.lookup j = some (.setting c p (some err')) := by
  rw [GoMap.lookup_set] at h
  split_ifs at h
  · cases h
  · exact h

theorem Inv.fired_of_insert (h : Inv tr s) {x : Session σ} {pc : CallPC σ} {j : ℕ}
    (hpc : pc.migrating = false) (hl : latest migrates tr' = latest migrates tr)
    (hj : (State.mk x (s.calls.insert k pc)).migrating j = true) :
    (latest migrates tr').isSome := by
  rw [migrating_insert, hpc] at hj
  split_ifs at hj
  rw [hl]
  exact h.fired j hj

/-- A call fails, and neither state nor path has changed. -/
theorem Inv.fail (h : Inv tr s) (hk : k ∉ s.calls) {pc : CallPC σ} (hpc : pc.migrating = false)
    (hfail : ∀ c p err, pc = .setting c p (some err) →
      s.sess.m = .closed ∧ c = .close ∧ p.sender = none)
    (hl : latest migrates tr' = latest migrates tr)
    (hi : latest installs tr' = latest installs tr) (hu : latest upgrades tr' = latest upgrades tr) :
    Inv tr' { s with calls := s.calls.insert k pc } := by
  refine ⟨fun j c p hj hc => ?_, fun hno => ?_, fun j => h.fired_of_insert hpc hl,
    fun j c p e hj => ?_⟩
  · exact (h.awaits j c p (hl.symm.trans hj) (lookup_other hpc hc).2).later hu
  · exact (h.fits fun j hj => migrating_before hk (hno j (hl.trans hj))).later hi hu
  · rw [GoMap.lookup_set] at hj
    split_ifs at hj
    · exact hfail c p e (Option.some.inj hj)
    · exact h.failed j c p e hj

/-- Checks begin or fail: the relay stays. -/
theorem Inv.check (h : Inv tr s) (hk : k ∉ s.calls) (hm : s.sess.m = .relaying ∨ s.sess.m = .checking)
    (hm' : m = .relaying ∨ m = .checking) (hl : latest migrates tr' = latest migrates tr)
    (hi : latest installs tr' = latest installs tr) :
    Inv tr' { sess := { s.sess with m }, calls := s.calls.insert k (.returned err) } := by
  refine ⟨fun j c p hj hc => ?_, fun hno => ?_, fun j => h.fired_of_insert rfl hl,
    fun j c p e hj => ?_⟩
  · have hw := h.awaits j c p (hl.symm.trans hj) (lookup_other rfl hc).2
    cases c with
    | startRelay q => exact hm'
    | fallbackRelay q => exact hm'
    | upgradeDirect q | close => rcases hm with hm | hm <;> rw [hm] at hw <;> cases hw.1
    | beginChecks => exact hw
    | checksFailed => exact hw
  · have hfit : Fits tr s.sess := h.fits fun j hj => migrating_before hk (hno j (hl.trans hj))
    exact .relayed hm' (hi.trans (hfit.relay hm))
  · have hf := (h.failed j c p e (lookup_returned_failed hj)).1
    rcases hm with hm | hm <;> rw [hm] at hf <;> cases hf

/-- A call that migrates has fired: the calls before it are overtaken. -/
theorem Inv.migrate (h : Inv tr s) (hm : s.sess.m ≠ .closed) (hw : Awaits tr' m p c)
    (hl : latest migrates tr' = some k) :
    Inv tr' { sess := { s.sess with m }, calls := s.calls.insert k (.setting c p none) } := by
  refine ⟨fun j c' p' hj hc => ?_, fun hno => ?_, fun _ _ => by rw [hl]; rfl,
    fun j c' p' e' hj => ?_⟩
  · obtain rfl := Option.some.inj (hl.symm.trans hj)
    obtain ⟨rfl, rfl, -⟩ := by simpa using (AList.lookup_insert s.calls).symm.trans hc
    exact hw
  · have hk := hno k hl
    rw [migrating_insert, if_pos rfl] at hk
    cases hk
  · rw [GoMap.lookup_set] at hj
    split_ifs at hj
    · simp at hj
    · exact absurd (h.failed j c' p' e' hj).1 hm

/-- A call that has fired sets the path: the last one settles it, and one
that the last has overtaken sets it before that. -/
theorem Inv.settle (h : Inv tr s) (hk : s.calls.lookup k = some (.setting c p none))
    (hC : ∀ j ∈ latest migrates tr, s.migrating j = true)
    (hl : latest migrates tr' = latest migrates tr) (hu : latest upgrades tr' = latest upgrades tr)
    (hi : (∃ q, c = .startRelay q ∨ c = .fallbackRelay q) → latest installs tr' = some p) :
    Inv tr' { sess := s.sess.setPath p, calls := s.calls.insert k (.returned err) } := by
  refine ⟨fun j c' p' hj hc => ?_, fun hno => ?_, fun j => h.fired_of_insert rfl hl,
    fun j c' p' e' hj => ?_⟩
  · exact (h.awaits j c' p' (hl.symm.trans hj) (lookup_other rfl hc).2).later hu
  · obtain ⟨j, hj⟩ := Option.isSome_iff_exists.mp (h.fired k (migrating_of_lookup hk))
    have hj' := hno j (hl.trans hj)
    rw [migrating_insert] at hj'
    split_ifs at hj' with hjk
    · subst hjk
      have hw := h.awaits j c p hj hk
      cases c with
      | startRelay q => exact .relayed hw (hi ⟨q, Or.inl rfl⟩)
      | fallbackRelay q => exact .relayed hw (hi ⟨q, Or.inr rfl⟩)
      | upgradeDirect q => exact .upgraded hw.1 (hu.trans hw.2)
      | close => exact .ended hw.1 hw.2
      | beginChecks => exact hw.elim
      | checksFailed => exact hw.elim
    · exact absurd (hC j hj) (by rw [show s.migrating j = false from hj']; decide)
  · exact h.failed j c' p' e' (lookup_returned_failed hj)

/-- A `Close` that came second clears the path of a closed session. -/
theorem Inv.clear (h : Inv tr s) {e' : InvalidTransition}
    (hk : s.calls.lookup k = some (.setting c p (some e')))
    (hl : latest migrates tr' = latest migrates tr) (hu : latest upgrades tr' = latest upgrades tr) :
    Inv tr' { sess := s.sess.setPath p, calls := s.calls.insert k (.returned err) } := by
  obtain ⟨hm, -, hp⟩ := h.failed k c p e' hk
  refine ⟨fun j c p hj hc => ?_, fun _ => .ended hm hp, fun j => h.fired_of_insert rfl hl,
    fun j c p e hj => h.failed j c p e (lookup_returned_failed hj)⟩
  exact (h.awaits j c p (hl.symm.trans hj) (lookup_other rfl hc).2).later hu

/-- What `Fire` has done with a call. -/
theorem fireCall_spec (s : State σ) (k : ℕ) (c : Call σ) :
    (transitions s.sess.m c.event = none ∧ c.isClose = false ∧
      fireCall s k c = { s with
        calls := s.calls.insert k (.returned (some ⟨s.sess.m, c.event⟩)) }) ∨
    (s.sess.m = .closed ∧ c = .close ∧
      fireCall s k c = { s with
        calls := s.calls.insert k (.setting .close {} (some ⟨.closed, .close⟩)) }) ∨
    (∃ m, transitions s.sess.m c.event = some m ∧ c.sets = none ∧
      fireCall s k c = { sess := { s.sess with m }, calls := s.calls.insert k (.returned none) }) ∨
    ∃ m p, transitions s.sess.m c.event = some m ∧ c.sets = some p ∧
      fireCall s k c = { sess := { s.sess with m }, calls := s.calls.insert k (.setting c p none) } := by
  cases ht : transitions s.sess.m c.event with
  | none =>
    have hf : fire s.sess.m c.event = .error ⟨s.sess.m, c.event⟩ := by simp [fire, ht]
    unfold fireCall
    rw [hf]
    cases c with
    | close =>
      have hm : s.sess.m = .closed := by
        cases h : s.sess.m <;> rw [h] at ht <;> first | rfl | cases ht
      exact Or.inr (Or.inl ⟨hm, rfl, by rw [hm]; rfl⟩)
    | _ => exact Or.inl ⟨rfl, rfl, rfl⟩
  | some m =>
    have hf : fire s.sess.m c.event = .ok m := by simp [fire, ht]
    unfold fireCall
    rw [hf]
    refine Or.inr (Or.inr ?_)
    cases hset : c.sets with
    | none => exact Or.inl ⟨m, rfl, rfl, rfl⟩
    | some p => exact Or.inr ⟨m, p, rfl, rfl, rfl⟩

/-- The calls that only check move between the relayed states. -/
theorem check_states (h : c.sets = none) {m' : PathState} (ht : transitions m c.event = some m') :
    (m = .relaying ∨ m = .checking) ∧ (m' = .relaying ∨ m' = .checking) := by
  cases c with
  | beginChecks | checksFailed => cases m <;> cases ht; simp
  | _ => cases h

/-- The state a call that migrates has fired. -/
theorem awaits_of_fire (h : c.sets = some p) {m' : PathState}
    (ht : transitions m c.event = some m') (tr : List (Event (State σ) (Action σ) Unit))
    (hu : ∀ q, c = .upgradeDirect q → latest upgrades tr = some q) : Awaits tr m' p c := by
  cases c with
  | startRelay q | fallbackRelay q => cases m <;> cases ht; exact Or.inl rfl
  | upgradeDirect q =>
    obtain rfl := Option.some.inj h
    cases m <;> cases ht
    exact ⟨rfl, hu q rfl⟩
  | close =>
    obtain rfl := Option.some.inj h
    cases m <;> cases ht <;> exact ⟨rfl, rfl⟩
  | beginChecks => cases h
  | checksFailed => cases h

/-- Nothing is fired from `Closed`. -/
theorem not_closed_of_transition {ev : Ev} {m' : PathState} (ht : transitions m ev = some m') :
    m ≠ .closed := by
  rintro rfl
  cases ev <;> cases ht

theorem Inv.step {a : Action σ} {o : List Unit} (h : Inv tr s) (hs : step s a = some (s', o))
    (hC : InTurn tr ⟨s, a, o, s'⟩) : Inv (tr ++ [⟨s, a, o, s'⟩]) s' := by
  cases a with
  | fire k c =>
    simp only [Datapath.step] at hs
    split at hs
    · cases hs
    · rename_i hk
      obtain ⟨rfl, rfl⟩ := by simpa using hs
      have hi : latest installs (tr ++ [⟨s, .fire k c, [], fireCall s k c⟩]) = latest installs tr :=
        latest_none rfl
      -- only an `UpgradeDirect` that succeeds changes the last direct path
      have hu : (∀ q, c = .upgradeDirect q → transitions s.sess.m .directEstablished = none) →
          latest upgrades (tr ++ [⟨s, .fire k c, [], fireCall s k c⟩]) = latest upgrades tr := by
        intro hno
        refine latest_none ?_
        cases c with
        | upgradeDirect q => simp [upgrades, hno q rfl]
        | _ => rfl
      have hl : (fireCall s k c).migrating k = false →
          latest migrates (tr ++ [⟨s, .fire k c, [], fireCall s k c⟩]) = latest migrates tr :=
        fun hno => latest_none (by simp [migrates, hno])
      rcases fireCall_spec s k c with ⟨ht, -, he⟩ | ⟨hm, rfl, he⟩ | ⟨m, ht, hset, he⟩ | ⟨m, p, ht, hset, he⟩
      · have hu' := hu fun q hq => by rw [hq] at ht; exact ht
        rw [he] at hi hl hu' ⊢
        exact h.fail hk rfl (by rintro _ _ _ ⟨⟩) (hl (by rw [migrating_insert, if_pos rfl]; rfl)) hi hu'
      · have hu' := hu fun q hq => by cases hq
        rw [he] at hi hl hu' ⊢
        refine h.fail hk rfl ?_ (hl (by rw [migrating_insert, if_pos rfl]; rfl)) hi hu'
        rintro _ _ _ ⟨⟩
        exact ⟨hm, rfl, rfl⟩
      · obtain ⟨hm, hm'⟩ := check_states hset ht
        rw [he] at hi hl ⊢
        exact h.check hk hm hm' (hl (by rw [migrating_insert, if_pos rfl]; rfl)) hi
      · have hw := awaits_of_fire hset ht (tr ++ [⟨s, .fire k c, [], fireCall s k c⟩])
          fun q hq => latest_some (by
            subst hq
            have ht' : transitions s.sess.m .directEstablished = some m := ht
            simp [upgrades, ht'])
        rw [he] at hw ⊢
        refine h.migrate (not_closed_of_transition ht) hw (latest_some ?_)
        simp [migrates, migrating_insert, CallPC.migrating]
  | set k =>
    simp only [Datapath.step] at hs
    split at hs
    · rename_i c p err hk
      obtain ⟨rfl, rfl⟩ := by simpa using hs
      have hu : ∀ x, latest upgrades (tr ++ [⟨s, .set k, [], x⟩]) = latest upgrades tr :=
        fun _ => latest_none rfl
      have hl : ∀ x, latest migrates (tr ++ [⟨s, .set k, [], x⟩]) = latest migrates tr :=
        fun _ => latest_none rfl
      cases err with
      | none =>
        refine h.settle hk (hC (migrating_of_lookup hk)) (hl _) (hu _) ?_
        rintro ⟨q, rfl | rfl⟩ <;> exact latest_some (by simp [installs, hk])
      | some e' => exact h.clear hk (hl _) (hu _)
    · cases hs

theorem Inv.of_run (h : (machine σ id).Run tr s)
    (hC : ∀ tr₁ e tr₂, tr = tr₁ ++ e :: tr₂ → InTurn tr₁ e) : Inv tr s := by
  induction h with
  | nil => exact Inv.init id
  | snoc hr hs ih =>
    obtain ⟨hbefore, hnow⟩ := forall_split_concat.mp hC
    exact (ih hbefore).step hs hnow

/-! ### State and path -/

/-- State and path of a session with no call in progress. -/
structure Agrees (tr : List (Event (State σ) (Action σ) Unit)) (s : State σ) : Prop where
  noPath : s.sess.m = .new ∨ s.sess.m = .closed →
    ∀ pkt now ok, (s.sess.send pkt now ok).2 = .error .noPath
  relay : s.sess.m = .relaying ∨ s.sess.m = .checking → latest installs tr = some s.sess.path
  direct : s.sess.m = .direct → latest upgrades tr = some s.sess.path

/-- **State and path agree.** In every run in which no call sets its path
once the last call to have fired has set its own, state and path agree
whenever no call is in progress; and in every run a call other than `Close`
that returns an error has changed neither. -/
theorem path_agrees_of_inTurn (h : (machine σ id).Run tr s) :
    ((∀ tr₁ e tr₂, tr = tr₁ ++ e :: tr₂ → InTurn tr₁ e) → s.Quiet → Agrees tr s) ∧
    ∀ e ∈ tr, ∀ k c, e.act = .fire k c → c.isClose = false →
      transitions e.pre.sess.m c.event = none →
      e.post.calls.lookup k = some (.returned (some ⟨e.pre.sess.m, c.event⟩)) ∧
        e.post.sess = e.pre.sess := by
  constructor
  · intro hC hq
    have hfits : Fits tr s.sess := by
      refine (Inv.of_run h hC).fits fun k _ => ?_
      unfold State.migrating
      cases hk : s.calls.lookup k with
      | none => rfl
      | some pc =>
        have := hq k pc hk
        cases pc <;> first | rfl | cases this
    refine ⟨fun hm pkt now ok => ?_, hfits.relay, hfits.direct⟩
    rw [Session.send_noPath (hfits.noPath hm)]
  · intro e he k c ha hc ht
    obtain ⟨-, -, -, -, hs⟩ := h.of_mem he
    rw [ha] at hs
    change Datapath.step e.pre (.fire k c) = some (e.post, e.out) at hs
    simp only [Datapath.step] at hs
    split at hs
    · cases hs
    · obtain ⟨hpost, -⟩ := by simpa using hs
      rw [← hpost]
      rcases fireCall_spec e.pre k c with ⟨-, -, he'⟩ | ⟨-, rfl, -⟩ | ⟨m, ht', -, -⟩ | ⟨m, p, ht', -, -⟩
      · rw [he']
        exact ⟨AList.lookup_insert _, rfl⟩
      · cases hc
      · rw [ht] at ht'; cases ht'
      · rw [ht] at ht'; cases ht'

/-- A session that starts on the relay, upgrades and falls back, the fallback
firing before the upgrade has set its path. -/
theorem path_agrees_fallback : ∃ tr s, (machine String 1).Run tr s ∧ s.sess.m = .relaying ∧
    s.sess.path.sender = some "relay 2" ∧ Agrees tr s := by
  obtain ⟨tr, s, hr, hm, hp, hC, hq⟩ := (machine String 1).exists_run
    [.fire 0 (.startRelay ⟨some "relay 1", id⟩), .set 0, .fire 1 .beginChecks,
      .fire 2 (.upgradeDirect ⟨some "direct", id⟩), .fire 3 .checksFailed,
      .fire 4 (.fallbackRelay ⟨some "relay 2", id⟩), .set 2, .set 4]
    (P := fun r => r.2.sess.m = .relaying ∧ r.2.sess.path.sender = some "relay 2" ∧
      (∀ tr₁ e tr₂, r.1 = tr₁ ++ e :: tr₂ → InTurn tr₁ e) ∧ r.2.Quiet)
    (by decide +kernel)
  exact ⟨tr, s, hr, hm, hp, (path_agrees_of_inTurn hr).1 hC hq⟩

/-- `Close` overtakes an `UpgradeDirect` that has fired: the session is
closed and keeps the direct path. -/
theorem closed_session_keeps_path : ∃ tr s, (machine String 1).Run tr s ∧ s.Quiet ∧
    s.sess.m = .closed ∧ s.sess.path.sender = some "direct" :=
  (machine String 1).exists_run_of_exec
    [.fire 0 (.startRelay ⟨some "relay", id⟩), .set 0, .fire 1 .beginChecks,
      .fire 2 (.upgradeDirect ⟨some "direct", id⟩), .fire 3 .close, .set 3, .set 2]
    (by decide +kernel)

end
end Datapath
end Revquic
