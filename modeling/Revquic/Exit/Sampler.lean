/-
# The throughput of the exit's sessions (`sampleThroughput`)

Every two seconds the exit reads the byte counters of the sessions in its
table and folds the difference to the reading before into the rates of the
status page. The readings are kept by session id, outside the sessions
(`last`), and an entry is dropped at the end of a tick if its id is not in
the table. If an id is given to a new session between two ticks, its counters
are compared with those of the old one, and the subtraction can wrap.

The sampler runs beside every step of the exit (`Exit/Paths`): a tick copies
the table, then reads one session after the other, in any order, and each
reading is two steps, one for each counter. No step depends on `readings`,
their history.

Key definitions: `step`, `machine`, `Inv`, `Exact`, `SameSession`.
Key theorem: `samples_exact_iff`.
-/
import Revquic.Exit.Paths

namespace Revquic
namespace Exit
namespace Sampler

open Lib Netip Proto

/-! ### The sampler -/

/-- What an atomic counter holds that has counted up to `n`. -/
def load (n : ℕ) : ℕ := n % 2 ^ 64

/-- The subtraction of `uint64`. -/
def sub64 (a b : ℕ) : ℕ := (a + 2 ^ 64 - b) % 2 ^ 64

/-- `prev`: a pair of counters. -/
structure Prev where
  up : ℕ := 0
  down : ℕ := 0

/-- A reading of the counters of session `p`, which is filed under `sid`: the
bytes counted so far. -/
structure Reading where
  sid : ℕ
  p : Ptr
  up : ℕ
  down : ℕ
  deriving DecidableEq

/-- The rates that are folded into those of a session, in bytes per second,
and the reading they were made at. -/
structure Sample where
  reading : Reading
  upBps : ℚ
  downBps : ℚ
  deriving DecidableEq

/-- Where `sampleThroughput` stands. -/
inductive PC
  | waiting                                      -- for the ticker
  | ranging (snap todo : GoMap ℕ Ptr)            -- between two sessions of its copy
  | reading (snap todo : GoMap ℕ Ptr) (sid : ℕ) (p : Ptr) (down : ℕ)  -- `Stats` has returned

/-- The exit and its sampler. -/
structure State where
  exit : Paths.State := {}
  pc : PC := .waiting
  last : GoMap ℕ Prev := ∅
  bpsUp : Ptr → ℚ := fun _ => 0
  bpsDown : Ptr → ℚ := fun _ => 0
  /-- The readings so far, newest first. -/
  readings : List Reading := []

/-- `dt`, in seconds. -/
def dt : ℚ := 2

/-- `ewma`. -/
def ewma (old sample : ℚ) : ℚ := if old = 0 then sample else 1 / 2 * old + 1 / 2 * sample

/-- The rest of the loop body, when both counters are read. -/
def fold (s : State) (snap todo : GoMap ℕ Ptr) (r : Reading) : State × List Sample :=
  let q := (s.last.lookup r.sid).getD {}
  let s' : State :=
    { s with
      pc := .ranging snap todo
      last := s.last.insert r.sid ⟨load r.up, load r.down⟩
      readings := r :: s.readings }
  -- no rate yet at the first observation
  if q.up = 0 ∧ q.down = 0 then (s', [])
  else
    let upBps : ℚ := sub64 (load r.up) q.up / dt
    let downBps : ℚ := sub64 (load r.down) q.down / dt
    ({ s' with
        bpsUp := Function.update s.bpsUp r.p (ewma (s.bpsUp r.p) upBps)
        bpsDown := Function.update s.bpsDown r.p (ewma (s.bpsDown r.p) downBps) },
      [⟨r, upBps, downBps⟩])

/-- The end of a tick: the ids that are not in the copy are forgotten. -/
def forget (snap : GoMap ℕ Ptr) (last : GoMap ℕ Prev) : GoMap ℕ Prev :=
  (last.keys.filter fun sid => (snap.lookup sid).isNone).foldl (fun m sid => m.erase sid) last

/-- The steps of the exit, and those of the sampler. -/
inductive Action
  | exit (a : Paths.Action)
  | tick
  | stats (sid : ℕ)
  | fold
  | forget

/-- One step, and the samples it folds in. -/
def step (cfg : Paths.Config) (s : State) : Action → Option (State × List Sample)
  | .exit a => (Paths.step cfg s.exit a).map fun r => ({ s with exit := r.1 }, [])
  | .tick =>
    match s.pc with
    | .waiting => some ({ s with pc := .ranging s.exit.sessions s.exit.sessions }, [])
    | _ => none
  | .stats sid =>
    match s.pc with
    | .ranging snap todo =>
      match todo.lookup sid with
      | none => none
      | some p =>
        some ({ s with pc := .reading snap (todo.erase sid) sid p (s.exit.sess p).stats.1 }, [])
    | _ => none
  | .fold =>
    match s.pc with
    | .reading snap todo sid p down =>
      some (fold s snap todo ⟨sid, p, (s.exit.es p).bytesUp, down⟩)
    | _ => none
  | .forget =>
    match s.pc with
    | .ranging snap todo =>
      if todo.entries.isEmpty then
        some ({ s with pc := .waiting, last := forget snap s.last }, [])
      else none
    | _ => none

/-- The exit, before its first broker connection. -/
def machine (cfg : Paths.Config) : Machine State Action Sample := ⟨{}, step cfg⟩

/-- What one step does. -/
inductive Stepped (cfg : Paths.Config) (s : State) : State → List Sample → Prop
  | exit {a : Paths.Action} {e' : Paths.State} {o : List Paths.Out}
      (hs : Paths.step cfg s.exit a = some (e', o)) : Stepped cfg s { s with exit := e' } []
  | tick (hpc : s.pc = .waiting) :
      Stepped cfg s { s with pc := .ranging s.exit.sessions s.exit.sessions } []
  | stats {snap todo : GoMap ℕ Ptr} {sid : ℕ} {p : Ptr} (hpc : s.pc = .ranging snap todo)
      (hp : todo.lookup sid = some p) :
      Stepped cfg s
        { s with pc := .reading snap (todo.erase sid) sid p (s.exit.sess p).bytesSent } []
  | fold {snap todo : GoMap ℕ Ptr} {sid : ℕ} {p : Ptr} {down : ℕ}
      (hpc : s.pc = .reading snap todo sid p down) :
      Stepped cfg s (fold s snap todo ⟨sid, p, (s.exit.es p).bytesUp, down⟩).1
        (fold s snap todo ⟨sid, p, (s.exit.es p).bytesUp, down⟩).2
  | forget {snap todo : GoMap ℕ Ptr} (hpc : s.pc = .ranging snap todo) :
      Stepped cfg s { s with pc := .waiting, last := Sampler.forget snap s.last } []

section
variable {cfg : Paths.Config} {s s' : State} {a : Action} {o : List Sample}

theorem stepped_of_step (hs : step cfg s a = some (s', o)) : Stepped cfg s s' o := by
  cases a with
  | exit a =>
    obtain ⟨⟨e', o'⟩, hr, hrs⟩ := Option.map_eq_some_iff.mp hs
    obtain ⟨rfl, rfl⟩ := Prod.mk.inj hrs
    exact .exit hr
  | tick =>
    simp only [step] at hs
    split at hs <;> cases hs
    rename_i hpc
    exact .tick hpc
  | stats sid =>
    simp only [step] at hs
    split at hs
    · rename_i hpc
      split at hs <;> cases hs
      rename_i hp
      exact .stats hpc hp
    · cases hs
  | fold =>
    simp only [step] at hs
    split at hs
    · rename_i hpc
      have hr := Option.some.inj hs
      obtain ⟨rfl, rfl⟩ := Prod.mk.inj hr
      exact .fold hpc
    · cases hs
  | forget =>
    simp only [step] at hs
    split at hs
    · rename_i hpc
      split at hs <;> cases hs
      exact .forget hpc
    · cases hs

/-! ### What the exit does meanwhile -/

/-- Nothing that is counted gets less, no session changes its id, and what
comes into the table is new. -/
structure Advance (e e' : Paths.State) : Prop where
  next : e.next ≤ e'.next
  up : ∀ p < e.next, (e.es p).bytesUp ≤ (e'.es p).bytesUp
  down : ∀ p < e.next, (e.sess p).bytesSent ≤ (e'.sess p).bytesSent
  sid : ∀ p < e.next, (e'.es p).sid = (e.es p).sid
  table : ∀ sid p, e'.sessions.lookup sid = some p → e.sessions.lookup sid = some p ∨ e.next ≤ p
  fresh : e.Fresh → e'.Fresh

/-- The counter of a session that stays the same, or goes up. -/
theorem le_setES {t : Tables} {q : Ptr} {x : ExitSession} (h : (t.es q).bytesUp ≤ x.bytesUp)
    (p : Ptr) : (t.es p).bytesUp ≤ ((t.setES q x).es p).bytesUp := by
  by_cases hpq : p = q
  · subst hpq
    simpa only [Tables.setES, Function.update_self] using h
  · simp only [Tables.setES, Function.update_of_ne hpq, le_refl]

theorem bytesUp_controlMsg (e : Exit.State) (k : ℕ) (m : Control) (p : Ptr) :
    (e.es p).bytesUp ≤ ((controlMsg e k m).es p).bytesUp := by
  cases m with
  | sessionStart sid clientIP mask mtu ice =>
    have hb : (e.es p).bytesUp ≤ ((e.beginAdd sid clientIP).1.es p).bytesUp := by
      unfold Tables.beginAdd
      split
      · exact le_rfl
      · split
        · refine le_setES ?_ p
          exact le_rfl
        · exact le_rfl
    simp only [controlMsg]
    generalize e.beginAdd sid clientIP = r at hb ⊢
    obtain ⟨t, ip⟩ := r
    cases ip with
    | none => exact hb
    | some ip => exact hb
  | sessionSuspend sid =>
    simp only [controlMsg, Tables.control, Tables.suspendSession]
    split
    · exact le_rfl
    · refine le_setES ?_ p
      exact le_rfl
  | sessionEnd sid =>
    simp only [controlMsg, Tables.control, Tables.removeSession]
    split
    · exact le_rfl
    · exact le_rfl
  | _ => exact le_rfl

theorem bytesUp_of_step {cfg : Exit.Config} {e e' : Exit.State} {a : Exit.Action}
    {o : List Exit.Out} (hs : Exit.step cfg e a = some (e', o)) {p : Ptr} (hp : p < e.next) :
    (e.es p).bytesUp ≤ (e'.es p).bytesUp := by
  cases Exit.stepped_of_step hs with
  | @ctrl k m _ => exact bytesUp_controlMsg e k m p
  | insert =>
    simp only [insertSession, Tables.finishAdd, Function.update_of_ne hp.ne, le_refl]
  | write =>
    refine le_setES ?_ p
    exact Nat.le_add_right _ _
  | _ => exact le_rfl

theorem le_bytesSent_send {σ : Type*} (x : Datapath.Session σ) (pkt : List UInt8) (now : ℕ)
    (ok : Bool) : x.bytesSent ≤ (x.send pkt now ok).1.bytesSent := by
  unfold Datapath.Session.send
  split
  · exact le_rfl
  · split
    · exact le_rfl
    · split
      · exact Nat.le_add_right _ _
      · exact le_rfl

/-- `runDirect` sends nothing. -/
theorem bytesSent_of_hop {c sid : ℕ} {p : Ptr} {x x' : Datapath.Session Paths.Sender}
    {pc pc' : Paths.DirectPC} (h : Paths.Hop c sid p x pc pc' x') : x'.bytesSent = x.bytesSent := by
  cases h <;> rfl

theorem le_update_bytesSent {f : Ptr → Datapath.Session Paths.Sender} {q : Ptr}
    {x : Datapath.Session Paths.Sender} (h : (f q).bytesSent ≤ x.bytesSent) (p : Ptr) :
    (f p).bytesSent ≤ (Function.update f q x p).bytesSent := by
  by_cases hpq : p = q
  · subst hpq
    rwa [Function.update_self]
  · rw [Function.update_of_ne hpq]

/-- What comes into the table has a new pointer. -/
theorem lookup_of_touch {b : Exit.Action} {t t' : Tables} (h : Touch b t t') :
    t.next ≤ t'.next ∧
      ∀ sid p, t'.sessions.lookup sid = some p → t.sessions.lookup sid = some p ∨ t.next ≤ p := by
  cases h with
  | same | setES q x hsid => exact ⟨le_rfl, fun _ _ hp => Or.inl hp⟩
  | reset => exact ⟨le_rfl, fun sid p hp => by cases hp⟩
  | remove i =>
    exact ⟨(Tables.removeSession_next i).ge, fun sid p hp => Or.inl (Tables.removeSession_sub hp).1⟩
  | add k hk i clientIP ice ip =>
    refine ⟨Nat.le_succ _, fun sid p hp => ?_⟩
    simp only [Tables.finishAdd] at hp
    rw [GoMap.lookup_set] at hp
    split_ifs at hp
    · exact Or.inr (Option.some.inj hp).le
    · exact Or.inl hp

/-- The table and the inbound counters, by a step of `Exit`. -/
theorem advance_of_exit {e e' : Paths.State}
    (h : e'.toState = e.toState ∨
      ∃ b o', Exit.step cfg.toConfig e.toState b = some (e'.toState, o'))
    (hdown : ∀ p < e.next, (e.sess p).bytesSent ≤ (e'.sess p).bytesSent) : Advance e e' := by
  rcases h with heq | ⟨b, o', hs⟩
  · refine ⟨?_, ?_, hdown, ?_, ?_, ?_⟩ <;> simp_all
  · have ht := touch_of_step hs
    obtain ⟨hnext, htable⟩ := lookup_of_touch ht
    exact ⟨hnext, fun p hp => bytesUp_of_step hs hp, hdown, fun p hp => ht.sid_eq hp, htable,
      ht.fresh⟩

theorem advance_of_step {e e' : Paths.State} {a : Paths.Action} {o : List Paths.Out}
    (hs : Paths.step cfg e a = some (e', o)) : Advance e e' := by
  have h := Paths.stepped_of_step hs
  refine advance_of_exit h.exit_step fun p hp => ?_
  cases h with
  | exit hb hs => exact le_rfl
  | startRelay hk hm hpath => exact le_rfl
  | insert hk hx =>
    simp only [Paths.insertOpened, Function.update_of_ne hp.ne, le_refl]
  | hop h | loop h hs => exact le_update_bytesSent (bytesSent_of_hop h).ge p
  | reply q pkt now ok => exact le_update_bytesSent (le_bytesSent_send _ pkt now ok) p
  | same => exact le_rfl

/-! ### The readings -/

variable {e e' : Paths.State} {readings : List Reading} {r : Reading} {sid : ℕ} {p : Ptr}

/-- A reading that was made: the session exists, has the id it was filed
under, and has counted on since; under that id the table has the same session
or a later one. -/
structure Made (e : Paths.State) (r : Reading) : Prop where
  below : r.p < e.next
  own : (e.es r.p).sid = r.sid
  up : r.up ≤ (e.es r.p).bytesUp
  down : r.down ≤ (e.sess r.p).bytesSent
  table : ∀ q, e.sessions.lookup r.sid = some q → r.p ≤ q

/-- A session of the copy that is still to be read: no later one has been read
under its id, and the table has no earlier one there. -/
structure Listed (e : Paths.State) (readings : List Reading) (sid : ℕ) (p : Ptr) : Prop where
  below : p < e.next
  own : (e.es p).sid = sid
  newest : ∀ r ∈ readings, r.sid = sid → r.p ≤ p
  table : ∀ q, e.sessions.lookup sid = some q → p ≤ q

/-- What holds where the sampler stands. -/
def Ready (e : Paths.State) (readings : List Reading) : PC → Prop
  | .waiting => True
  | .ranging _ todo => ∀ sid p, todo.lookup sid = some p → Listed e readings sid p
  | .reading _ todo sid p down =>
    (∀ i q, todo.lookup i = some q → i ≠ sid ∧ Listed e readings i q) ∧
      Listed e readings sid p ∧ down ≤ (e.sess p).bytesSent ∧
      ∀ r ∈ readings, r.p = p → r.down ≤ down

/-- The invariant: under one id the readings are of later and later sessions,
and `last` holds the newest of them. -/
structure Inv (s : State) : Prop where
  fresh : s.exit.Fresh
  made : ∀ r ∈ s.readings, Made s.exit r
  sorted : s.readings.Pairwise fun r r' => r.sid = r'.sid → r'.p ≤ r.p
  last : ∀ sid q, s.last.lookup sid = some q →
    ∃ r, s.readings.find? (·.sid = sid) = some r ∧ q = ⟨load r.up, load r.down⟩
  ready : Ready s.exit s.readings s.pc

theorem Made.advance (h : Made e r) (ha : Advance e e') : Made e' r := by
  refine ⟨h.below.trans_le ha.next, (ha.sid _ h.below).trans h.own, h.up.trans (ha.up _ h.below),
    h.down.trans (ha.down _ h.below), fun q hq => ?_⟩
  rcases ha.table _ q hq with hq | hq
  · exact h.table q hq
  · exact h.below.le.trans hq

theorem Listed.advance (h : Listed e readings sid p) (ha : Advance e e') :
    Listed e' readings sid p := by
  refine ⟨h.below.trans_le ha.next, (ha.sid _ h.below).trans h.own, h.newest, fun q hq => ?_⟩
  rcases ha.table _ q hq with hq | hq
  · exact h.table q hq
  · exact h.below.le.trans hq

theorem Ready.advance {pc : PC} (h : Ready e readings pc) (ha : Advance e e') :
    Ready e' readings pc := by
  cases pc with
  | waiting => trivial
  | ranging snap todo => exact fun i q hq => (h i q hq).advance ha
  | reading snap todo sid p down =>
    obtain ⟨htodo, hp, hdown, hold⟩ := h
    exact ⟨fun i q hq => ⟨(htodo i q hq).1, (htodo i q hq).2.advance ha⟩, hp.advance ha,
      hdown.trans (ha.down _ hp.below), hold⟩

/-- A reading under another id changes nothing for a session of the copy. -/
theorem Listed.cons (h : Listed e readings sid p) (hr : r.sid ≠ sid) :
    Listed e (r :: readings) sid p := by
  refine ⟨h.below, h.own, fun r' hr' hsid => ?_, h.table⟩
  rcases List.mem_cons.mp hr' with rfl | hr'
  · exact absurd hsid hr
  · exact h.newest r' hr' hsid

/-- A session in the table can be read. -/
theorem Inv.listed (h : Inv s) (hp : s.exit.sessions.lookup sid = some p) :
    Listed s.exit s.readings sid p := by
  refine ⟨h.fresh.below sid p hp, h.fresh.own sid p hp, fun r hr hsid => ?_, fun q hq => ?_⟩
  · subst hsid
    exact (h.made r hr).table p hp
  · rw [hp] at hq
    exact (Option.some.inj hq).le

/-- What a loop body leaves, apart from the rates. -/
theorem fold_frame (s : State) (snap todo : GoMap ℕ Ptr) (r : Reading) :
    (fold s snap todo r).1.exit = s.exit ∧ (fold s snap todo r).1.pc = .ranging snap todo ∧
      (fold s snap todo r).1.last = s.last.insert r.sid ⟨load r.up, load r.down⟩ ∧
      (fold s snap todo r).1.readings = r :: s.readings := by
  simp only [fold]
  split_ifs
  · exact ⟨rfl, rfl, rfl, rfl⟩
  · exact ⟨rfl, rfl, rfl, rfl⟩

/-- A sample is folded in if the counters that `last` holds are not both
zero. -/
theorem mem_fold {snap todo : GoMap ℕ Ptr} {x : Sample} (hx : x ∈ (fold s snap todo r).2) :
    ∃ q, s.last.lookup r.sid = some q ∧ ¬ (q.up = 0 ∧ q.down = 0) ∧
      x = ⟨r, sub64 (load r.up) q.up / dt, sub64 (load r.down) q.down / dt⟩ := by
  simp only [fold] at hx
  cases hq : s.last.lookup r.sid with
  | none => simp [hq] at hx
  | some q =>
    rw [hq, Option.getD_some] at hx
    split_ifs at hx with h0
    · cases hx
    · exact ⟨q, rfl, h0, List.mem_singleton.mp hx⟩

theorem Inv.fold (h : Inv s) {snap todo : GoMap ℕ Ptr} {down : ℕ}
    (hpc : s.pc = .reading snap todo sid p down) :
    Inv (fold s snap todo ⟨sid, p, (s.exit.es p).bytesUp, down⟩).1 := by
  have hready := h.ready
  rw [hpc] at hready
  obtain ⟨htodo, hp, hdown, hold⟩ := hready
  obtain ⟨hexit, hpc', hlast, hreadings⟩ :=
    fold_frame s snap todo ⟨sid, p, (s.exit.es p).bytesUp, down⟩
  constructor
  · rw [hexit]
    exact h.fresh
  · rw [hexit, hreadings]
    intro r hr
    rcases List.mem_cons.mp hr with rfl | hr
    · exact ⟨hp.below, hp.own, le_rfl, hdown, hp.table⟩
    · exact h.made r hr
  · rw [hreadings]
    exact List.pairwise_cons.mpr ⟨fun r hr hsid => hp.newest r hr hsid.symm, h.sorted⟩
  · rw [hlast, hreadings]
    intro i q hq
    rw [GoMap.lookup_set] at hq
    split_ifs at hq with hi
    · exact ⟨_, by simp [hi], (Option.some.inj hq).symm⟩
    · obtain ⟨r, hr, hqr⟩ := h.last i q hq
      exact ⟨r, by rw [List.find?_cons_of_neg (by simpa using Ne.symm hi)]; exact hr, hqr⟩
  · rw [hexit, hpc', hreadings]
    exact fun i q hq => (htodo i q hq).2.cons (Ne.symm (htodo i q hq).1)

/-- What is forgotten is not there, and the rest is as it was. -/
theorem lookup_of_forget {snap : GoMap ℕ Ptr} {last : GoMap ℕ Prev} {q : Prev}
    (h : (forget snap last).lookup sid = some q) : last.lookup sid = some q := by
  unfold forget at h
  generalize last.keys.filter (fun sid => (snap.lookup sid).isNone) = gone at h
  induction gone generalizing last with
  | nil => exact h
  | cons i gone ih =>
    have hq := ih h
    rw [GoMap.lookup_delete] at hq
    split_ifs at hq
    exact hq

/-- One step. -/
theorem Inv.step (h : Inv s) (hs : Stepped cfg s s' o) : Inv s' := by
  cases hs with
  | exit hs =>
    have ha := advance_of_step hs
    exact ⟨ha.fresh h.fresh, fun r hr => (h.made r hr).advance ha, h.sorted, h.last,
      h.ready.advance ha⟩
  | tick hpc => exact ⟨h.fresh, h.made, h.sorted, h.last, fun sid p hp => h.listed hp⟩
  | @stats snap todo sid p hpc hp =>
    have hready := h.ready
    rw [hpc] at hready
    have hlisted : Listed s.exit s.readings sid p := hready sid p hp
    refine ⟨h.fresh, h.made, h.sorted, h.last, fun i q hq => ?_, hlisted, le_rfl, ?_⟩
    · rw [GoMap.lookup_delete] at hq
      split_ifs at hq with hi
      exact ⟨hi, hready i q hq⟩
    · rintro r hr rfl
      exact (h.made r hr).down
  | fold hpc => exact h.fold hpc
  | forget hpc =>
    exact ⟨h.fresh, h.made, h.sorted, fun i q hq => h.last i q (lookup_of_forget hq), trivial⟩

/-- All steps. -/
theorem inv_of_run {tr : List (Event State Action Sample)} (h : (machine cfg).Run tr s) : Inv s := by
  refine Machine.Run.invariant (I := Inv) ?_ ?_ h
  · refine ⟨⟨fun _ _ hp => ?_, fun _ _ hp => ?_⟩, by simp [machine], by simp [machine],
      fun _ _ hq => ?_, trivial⟩
    · cases hp
    · cases hp
    · cases hq
  · intro s a s' o hI hs
    exact hI.step (stepped_of_step hs)

/-! ### The samples -/

/-- The bytes that session `p` had counted at its own last reading; none if it
has not been read. -/
def before (readings : List Reading) (p : Ptr) : Prev :=
  ((readings.find? (·.p = p)).map fun r => ⟨r.up, r.down⟩).getD {}

/-- The sample is what the session has moved since its own last reading, over
two seconds; so it is at most what the session has carried, and the
subtractions do not wrap. -/
structure Exact (s : State) (x : Sample) : Prop where
  up : x.upBps = ((x.reading.up : ℚ) - (before s.readings x.reading.p).up) / dt
  down : x.downBps = ((x.reading.down : ℚ) - (before s.readings x.reading.p).down) / dt
  up_le : x.upBps ≤ x.reading.up / dt
  down_le : x.downBps ≤ x.reading.down / dt
  noWrap : ∀ q, s.last.lookup x.reading.sid = some q →
    q.up ≤ load x.reading.up ∧ q.down ≤ load x.reading.down

/-- The last reading under the sample's id is one of the same session, and
neither counter has passed a multiple of `2 ^ 64` since. -/
def SameSession (s : State) (x : Sample) : Prop :=
  ∃ r ∈ s.readings.find? (·.sid = x.reading.sid), r.p = x.reading.p ∧
    r.up / 2 ^ 64 = x.reading.up / 2 ^ 64 ∧ r.down / 2 ^ 64 = x.reading.down / 2 ^ 64

/-- The newest reading under an id is of the latest session. -/
theorem le_of_find (hsorted : readings.Pairwise fun r r' => r.sid = r'.sid → r'.p ≤ r.p)
    (hr : readings.find? (·.sid = sid) = some r) {r' : Reading} (hr' : r' ∈ readings)
    (hsid : r'.sid = sid) : r'.p ≤ r.p := by
  obtain ⟨h1, as, bs, rfl, hno⟩ := List.find?_eq_some_iff_append.mp hr
  have hrsid : r.sid = sid := by simpa using h1
  rcases List.mem_append.mp hr' with hm | hm
  · have := hno r' hm
    simp [hsid] at this
  · rcases List.mem_cons.mp hm with rfl | hm
    · exact le_rfl
    · have htail := (List.pairwise_append.mp hsorted).2.1
      exact (List.pairwise_cons.mp htail).1 r' hm (hrsid.trans hsid.symm)

/-- The bytes of a session at its last reading, if the newest reading under
its id is its own. -/
theorem before_of_same (hr : readings.find? (·.sid = sid) = some r)
    (hown : ∀ r' ∈ readings, r'.p = r.p → r'.sid = sid) :
    before readings r.p = ⟨r.up, r.down⟩ := by
  obtain ⟨h1, as, bs, rfl, hno⟩ := List.find?_eq_some_iff_append.mp hr
  have hfind : (as ++ r :: bs).find? (fun r' => decide (r'.p = r.p)) = some r := by
    refine List.find?_eq_some_iff_append.mpr ⟨by simp, as, bs, rfl, fun r' hr' => ?_⟩
    have hne := hno r' hr'
    simp only [Bool.not_eq_true', decide_eq_false_iff_not] at hne ⊢
    exact fun hp => hne (hown r' (List.mem_append_left _ hr') hp)
  simp [before, hfind]

/-- And if it is another's: the session has not been read. -/
theorem before_of_other (h : ∀ r' ∈ readings, r'.p ≠ p) : before readings p = {} := by
  have hfind : readings.find? (fun r' => decide (r'.p = p)) = none := by
    simpa [List.find?_eq_none] using h
  simp [before, hfind]

/-- The rate of `n` bytes is that of the difference of two counts. -/
theorem rate_eq {n a b : ℕ} : (n : ℚ) / dt = ((a : ℚ) - b) / dt ↔ n + b = a := by
  have hdt : dt ≠ 0 := by norm_num [dt]
  rw [div_left_inj' hdt, eq_sub_iff_add_eq]
  exact_mod_cast Iff.rfl

theorem rate_le {n a : ℕ} (h : n ≤ a) : (n : ℚ) / dt ≤ (a : ℚ) / dt := by
  have hdt : 0 ≤ dt := by norm_num [dt]
  exact div_le_div_of_nonneg_right (by exact_mod_cast h) hdt

/-- One counter of a sample: what was taken from the count `a` is what `last`
held of the count `b`, and `c` bytes had been counted before. -/
structure Counted (a b c : ℕ) : Prop where
  rate : (sub64 (load a) (load b) : ℚ) / dt = ((a : ℚ) - c) / dt
  noWrap : load b ≤ load a

/-- Two counts of one session: the difference is right, without a wrap, if no
multiple of `2 ^ 64` lies between them. -/
theorem counted_same {a b : ℕ} (h : b ≤ a) : Counted a b b ↔ b / 2 ^ 64 = a / 2 ^ 64 := by
  have hsub : sub64 (load a) (load b) + b = a ∧ load b ≤ load a ↔ b / 2 ^ 64 = a / 2 ^ 64 := by
    unfold sub64 load
    omega
  rw [← hsub]
  exact ⟨fun hc => ⟨rate_eq.mp hc.rate, hc.noWrap⟩, fun hc => ⟨rate_eq.mpr hc.1, hc.2⟩⟩

/-- Counts of two sessions: the difference is the whole count of the new one,
without a wrap, only if there is nothing to take from it. -/
theorem Counted.eq_zero {a b : ℕ} (h : Counted a b 0) : load b = 0 := by
  have hsub := rate_eq.mp h.rate
  have hle := h.noWrap
  unfold sub64 load at *
  omega

theorem Counted.le {a b c : ℕ} (h : Counted a b c) :
    (sub64 (load a) (load b) : ℚ) / dt ≤ (a : ℚ) / dt :=
  rate_le (Nat.le.intro (rate_eq.mp h.rate))

/-- A sample is exact if both of its counters are. -/
theorem exact_iff_counted {q : Reading} {c : Prev}
    (hq : s.last.lookup r.sid = some ⟨load q.up, load q.down⟩) (hc : before s.readings r.p = c) :
    Exact s ⟨r, sub64 (load r.up) (load q.up) / dt, sub64 (load r.down) (load q.down) / dt⟩ ↔
      Counted r.up q.up c.up ∧ Counted r.down q.down c.down := by
  subst hc
  constructor
  · intro h
    have hwrap := h.noWrap _ hq
    exact ⟨⟨h.up, hwrap.1⟩, ⟨h.down, hwrap.2⟩⟩
  · rintro ⟨hu, hd⟩
    refine ⟨hu.rate, hd.rate, hu.le, hd.le, fun q' hq' => ?_⟩
    obtain rfl := Option.some.inj (hq.symm.trans hq')
    exact ⟨hu.noWrap, hd.noWrap⟩

/-- One sample. -/
theorem Inv.exact_iff (h : Inv s) (hs : Stepped cfg s s' o) {x : Sample} (hx : x ∈ o) :
    Exact s x ↔ SameSession s x := by
  cases hs with
  | @fold snap todo sid p down hpc =>
    obtain ⟨q, hq, hne, rfl⟩ := mem_fold hx
    have hready := h.ready
    rw [hpc] at hready
    obtain ⟨-, hp, -, hold⟩ := hready
    obtain ⟨r, hr, rfl⟩ := h.last sid q hq
    have hmem : r ∈ s.readings := List.mem_of_find?_eq_some hr
    have hown : ∀ r' ∈ s.readings, r'.p = p → r'.sid = sid := by
      intro r' hr' hpr
      rw [← (h.made r' hr').own, hpr, hp.own]
    have hsame : ∀ {P : Reading → Prop},
        (∃ r' ∈ s.readings.find? (·.sid = sid), P r') ↔ P r := by
      intro P
      rw [hr]
      simp
    unfold SameSession
    rw [hsame]
    by_cases hrp : r.p = p
    · subst hrp
      have hbefore := before_of_same hr hown
      rw [exact_iff_counted hq hbefore, counted_same (h.made r hmem).up,
        counted_same (hold r hmem rfl)]
      simp
    · -- the entry is another session's, and this one has never been read
      have hnever : ∀ r' ∈ s.readings, r'.p ≠ p := by
        rintro r' hr' rfl
        have h1 := le_of_find h.sorted hr hr' (hown r' hr' rfl)
        have hrsid : r.sid = sid := by simpa using List.find?_some hr
        have h2 := hp.newest r hmem hrsid
        exact hrp (le_antisymm h2 h1)
      have hbefore := before_of_other hnever
      rw [exact_iff_counted hq hbefore]
      exact iff_of_false (fun hc => hne ⟨hc.1.eq_zero, hc.2.eq_zero⟩) fun hc => hrp hc.1
  | _ => cases hx

/-- **A sample is exact if and only if it compares two readings of one
session**, in every run of the exit and its sampler. -/
theorem samples_exact_iff {tr : List (Event State Action Sample)} (h : (machine cfg).Run tr s)
    {ev : Event State Action Sample} (hev : ev ∈ tr) {x : Sample} (hx : x ∈ ev.out) :
    Exact ev.pre x ↔ SameSession ev.pre x := by
  obtain ⟨tr₁, tr₂, -, hr, hs⟩ := h.of_mem hev
  exact (inv_of_run hr).exact_iff (stepped_of_step hs) hx

instance (s : State) (x : Sample) : Decidable (SameSession s x) :=
  inferInstanceAs (Decidable (∃ r ∈ s.readings.find? (·.sid = x.reading.sid), r.p = x.reading.p ∧
    r.up / 2 ^ 64 = x.reading.up / 2 ^ 64 ∧ r.down / 2 ^ 64 = x.reading.down / 2 ^ 64))

/-- A packet of the client `10.99.0.2`. -/
def packet : List UInt8 := [0x45] ++ List.replicate 11 0 ++ [10, 99, 0, 2] ++ [8, 8, 8, 8]

/-- On broker connection `k`: session 1 starts. -/
def started (k : ℕ) : List Action :=
  [.exit (.exit .serve), .exit (.exit (.ctrl k (.sessionStart 1 "10.99.0.2" "" 0 {}))),
    .exit (.startRelay k), .exit (.insert k)]

/-- Session 1 sends a packet on connection `k`. -/
def traffic (k : ℕ) : List Action :=
  [.exit (.exit (.datagram k (encodeDatagram 1 packet))), .exit (.exit (.write (.relay k)))]

/-- A tick, with session 1 in the table. -/
def ticked : List Action := [.tick, .stats 1, .fold, .forget]

/-- A session that stays: twenty bytes between two ticks. -/
theorem samples_exact_iff_stays : ∃ tr s ev, (machine {}).Run tr s ∧ ev ∈ tr ∧
    ⟨⟨1, 0, 40, 0⟩, 10, 0⟩ ∈ ev.out ∧ Exact ev.pre ⟨⟨1, 0, 40, 0⟩, 10, 0⟩ := by
  obtain ⟨tr, s, hr, ev, hev, hx, hsame⟩ := (machine {}).exists_run
    (started 0 ++ traffic 0 ++ ticked ++ traffic 0 ++ ticked)
    (P := fun r => ∃ ev ∈ r.1, ⟨⟨1, 0, 40, 0⟩, 10, 0⟩ ∈ ev.out ∧
      SameSession ev.pre ⟨⟨1, 0, 40, 0⟩, 10, 0⟩)
    (by decide +kernel)
  exact ⟨tr, s, ev, hr, hev, hx, (samples_exact_iff hr hev hx).mpr hsame⟩

/-- The broker connection is lost after a tick, and its successor uses the id
again: the next tick takes the twenty bytes of the old session from the
counter of the new one, which is zero. -/
theorem reused_id_wraps : ∃ tr s ev, (machine {}).Run tr s ∧ ev ∈ tr ∧
    ⟨⟨1, 1, 0, 0⟩, (2 ^ 64 - 20) / 2, 0⟩ ∈ ev.out := by
  obtain ⟨tr, s, hr, ev, hev, hx⟩ := (machine {}).exists_run
    (started 0 ++ traffic 0 ++ ticked ++
      [.exit (.exit (.ctrlDone 0)), .exit (.exit .lost)] ++ started 1 ++ ticked)
    (P := fun r => ∃ ev ∈ r.1, ⟨⟨1, 1, 0, 0⟩, (2 ^ 64 - 20) / 2, 0⟩ ∈ ev.out)
    (by decide +kernel)
  exact ⟨tr, s, ev, hr, hev, hx⟩

end

end Sampler
end Exit
end Revquic
