/-
# The history over restarts

A broker run opens the history on disk, loads the end of it into the
tracker's ring, and from then on every event goes into the ring and, through
a queue and a writer of its own, to the disk. Closing waits for the writer.

The back end is a parameter; what is asked of it is that it keeps the last
`maxRows` events at least, whenever and however often it drops others. The
file cuts when it is opened, SQLite on every 256th insert of a run. With
either, as long as the queue does not overflow and no write fails, the ring
has the last events of all runs, newest first.

Key definitions: `Backend`, `Backend.Keeps`, `histMachine`, `Survives`.
Key theorem: `history_survives`.
-/
import Revquic.Lib.Machine
import Revquic.Qos.History
import Revquic.Qos.Load

namespace Revquic
namespace Qos

open Lib

/-! ### The back ends -/

/-- `backend`, with what opening does; `none` is an error. -/
structure Backend (β : Type) where
  /-- Before the first run. -/
  empty : β
  opened : β → Option β
  write : β → Event → Option β
  load : β → ℕ → Option (List Event)
  maxRows : ℕ

/-- `fileBackend`. -/
def fileBackend (J : Jsonl) : Backend (List UInt8) where
  empty := []
  opened := J.trim
  write := J.write
  load := J.load
  maxRows := Jsonl.defaultFileMaxRows

/-- `sqliteBackend`: the rows of `qos_events` with their `seq`, the last one
that `AUTOINCREMENT` gave, and the inserts of this run. -/
structure QosDb where
  rows : List (ℕ × Event) := []
  seq : ℕ := 0
  inserts : ℕ := 0

namespace QosDb

/-- `defaultSQLiteMaxRows`. -/
def defaultSQLiteMaxRows : ℕ := 50000

/-- `pruneEvery`. -/
def pruneEvery : ℕ := 256

/-- `SELECT MAX(seq)`. -/
def maxSeq (rows : List (ℕ × Event)) : ℕ := (rows.map (·.1)).foldr max 0

/-- `DELETE FROM qos_events WHERE seq <= (SELECT MAX(seq) FROM qos_events) - ?`. -/
def prune (rows : List (ℕ × Event)) : List (ℕ × Event) :=
  rows.filter fun r => ¬ ((r.1 : ℤ) ≤ maxSeq rows - defaultSQLiteMaxRows)

/-- `write`. -/
def write (d : QosDb) (ev : Event) : QosDb :=
  let rows := d.rows ++ [(d.seq + 1, ev)]
  let inserts := d.inserts + 1
  { rows := if inserts % pruneEvery = 0 then prune rows else rows, seq := d.seq + 1, inserts }

/-- `load`: `ORDER BY seq DESC`, with a `LIMIT` unless it is 0. -/
def load (d : QosDb) (limit : ℕ) : List Event :=
  let evs := (d.rows.insertionSort fun a b => b.1 ≤ a.1).map (·.2)
  if limit = 0 then evs else evs.take limit

end QosDb

/-- `sqliteBackend`. -/
def sqliteBackend : Backend QosDb where
  empty := {}
  opened d := some { d with inserts := 0 }
  write d ev := some (d.write ev)
  load d limit := some (d.load limit)
  maxRows := QosDb.defaultSQLiteMaxRows

/-- A back end keeps the last `maxRows` events it is given, if not more of
them. `Holds b P`: it has the events `P`. -/
structure Backend.Keeps {β : Type} (B : Backend β) (Ok : Event → Prop) (Holds : β → List Event → Prop) :
    Prop where
  empty : Holds B.empty []
  opened : ∀ {b P}, Holds b P → ∃ b' P', B.opened b = some b' ∧ Holds b' P' ∧ Kept B.maxRows P' P
  write : ∀ {b P ev}, Holds b P → Ok ev →
    ∃ b' P', B.write b ev = some b' ∧ Holds b' P' ∧ Kept B.maxRows P' (P ++ [ev])
  load : ∀ {b P}, Holds b P → ∀ limit, B.load b limit = some (newest limit P)

theorem fileBackend_keeps (J : Jsonl) : (fileBackend J).Keeps J.Fits
    fun file P => file = J.text P ∧ ∀ ev ∈ P, J.Fits ev where
  empty := ⟨rfl, by simp⟩
  opened := by
    rintro _ P ⟨rfl, hP⟩
    have htrim : J.trim (J.text P) = some (if P.length ≤ Jsonl.defaultFileMaxRows then J.text P
        else J.text (P.rtake Jsonl.defaultFileMaxRows)) := by
      rw [Jsonl.trim, Jsonl.readAllEvents_whole hP]
      rfl
    by_cases hlen : P.length ≤ Jsonl.defaultFileMaxRows
    · rw [if_pos hlen] at htrim
      exact ⟨_, P, htrim, ⟨rfl, hP⟩, Kept.refl _ _⟩
    · rw [if_neg hlen] at htrim
      exact ⟨_, _, htrim, ⟨rfl, fun ev hev => hP ev (List.mem_of_mem_drop hev)⟩, kept_rtake _ _⟩
  write := by
    rintro _ P ev ⟨rfl, hP⟩ hev
    refine ⟨_, P ++ [ev], Jsonl.write_eq hev _, ⟨?_, ?_⟩, Kept.refl _ _⟩
    · simp [Jsonl.text]
    · intro x hx
      rcases List.mem_append.mp hx with hx | hx
      · exact hP x hx
      · rwa [List.mem_singleton.mp hx]
  load := by
    rintro _ P ⟨rfl, hP⟩ limit
    change (J.readAllEvents (J.text P)).map (newest limit) = _
    rw [Jsonl.readAllEvents_whole hP]
    rfl

/-! ### Rows in order -/

namespace QosDb

/-- Events with consecutive numbers. -/
def number : ℕ → List Event → List (ℕ × Event)
  | _, [] => []
  | n, ev :: evs => (n, ev) :: number (n + 1) evs

theorem number_append : ∀ (n : ℕ) (evs : List Event) (ev : Event),
    number n evs ++ [(n + evs.length, ev)] = number n (evs ++ [ev])
  | n, [], ev => rfl
  | n, e :: evs, ev => by
    rw [List.length_cons, ← Nat.add_assoc, Nat.add_right_comm, number, List.cons_append,
      number_append (n + 1) evs ev]
    rfl

theorem le_of_mem_number : ∀ {n : ℕ} {evs : List Event} {r : ℕ × Event}, r ∈ number n evs → n ≤ r.1
  | n, ev :: evs, r, h => by
    rcases List.mem_cons.mp h with rfl | h
    · exact Nat.le_refl _
    · exact Nat.le_of_succ_le (le_of_mem_number h)

theorem map_number : ∀ (n : ℕ) (evs : List Event), (number n evs).map (·.2) = evs
  | _, [] => rfl
  | n, ev :: evs => by rw [number, List.map_cons, map_number (n + 1) evs]

/-- Sorting puts a row that comes before all others last. -/
theorem orderedInsert_last {r : ℕ × Event} : ∀ {l : List (ℕ × Event)}, (∀ x ∈ l, r.1 < x.1) →
    l.orderedInsert (fun a b => b.1 ≤ a.1) r = l ++ [r]
  | [], _ => rfl
  | x :: l, h => by
    have hx : ¬ x.1 ≤ r.1 := Nat.not_le.mpr (h x List.mem_cons_self)
    rw [List.orderedInsert, if_neg hx, orderedInsert_last fun y hy => h y (List.mem_cons_of_mem _ hy)]
    rfl

theorem sort_number : ∀ (n : ℕ) (evs : List Event),
    (number n evs).insertionSort (fun a b => b.1 ≤ a.1) = (number n evs).reverse
  | _, [] => rfl
  | n, ev :: evs => by
    rw [number, List.insertionSort_cons, sort_number (n + 1) evs, orderedInsert_last, List.reverse_cons]
    intro x hx
    exact le_of_mem_number (List.mem_reverse.mp hx)

theorem maxSeq_number : ∀ (n : ℕ) (evs : List Event), evs ≠ [] →
    maxSeq (number n evs) + 1 = n + evs.length
  | n, [ev], _ => by simp [number, maxSeq]
  | n, ev :: ev' :: evs, _ => by
    have ih := maxSeq_number (n + 1) (ev' :: evs) (by simp)
    have hmax : maxSeq (number n (ev :: ev' :: evs)) = max n (maxSeq (number (n + 1) (ev' :: evs))) := rfl
    rw [hmax]
    simp only [List.length_cons] at ih ⊢
    omega

/-- Rows below a number are dropped. -/
theorem filter_number (k top : ℕ) : ∀ (n : ℕ) (evs : List Event), n + evs.length = top + 1 →
    ∃ m, (number n evs).filter (fun r => ¬ ((r.1 : ℤ) ≤ top - k)) = number m (evs.rtake k) ∧
      m + (evs.rtake k).length = top + 1
  | n, [], h => ⟨n, by simp [number], by simpa using h⟩
  | n, ev :: evs, h => by
    rw [List.length_cons] at h
    by_cases hle : (ev :: evs).length ≤ k
    · -- all rows are recent
      have hall : (ev :: evs).rtake k = ev :: evs := by
        rw [List.rtake, Nat.sub_eq_zero_of_le hle, List.drop_zero]
      refine ⟨n, ?_, by rw [hall, List.length_cons]; omega⟩
      rw [hall, List.filter_eq_self]
      intro r hr
      have := le_of_mem_number hr
      rw [List.length_cons] at hle
      simp only [decide_eq_true_eq]
      omega
    · have hdrop : (ev :: evs).rtake k = evs.rtake k := by
        rw [List.length_cons] at hle
        rw [List.rtake, List.rtake, List.length_cons, Nat.succ_sub (by omega), List.drop_succ_cons]
      obtain ⟨m, hm, hlen⟩ := filter_number k top (n + 1) evs (by omega)
      refine ⟨m, ?_, by rw [hdrop]; exact hlen⟩
      rw [List.length_cons] at hle
      rw [number, List.filter_cons, if_neg, hm, hdrop]
      simp only [decide_eq_true_eq]
      omega

/-- The rows are the events `P`, with consecutive numbers up to the last. -/
def Holds (d : QosDb) (P : List Event) : Prop := ∃ n, d.rows = number n P ∧ n + P.length = d.seq + 1

theorem holds_write {d : QosDb} {P : List Event} (h : d.Holds P) (ev : Event) :
    ∃ P', (d.write ev).Holds P' ∧ Kept defaultSQLiteMaxRows P' (P ++ [ev]) := by
  obtain ⟨n, hrows, hlen⟩ := h
  have hnew : d.rows ++ [(d.seq + 1, ev)] = number n (P ++ [ev]) := by
    rw [hrows, ← hlen, number_append]
  have hlen' : n + (P ++ [ev]).length = d.seq + 1 + 1 := by
    rw [List.length_append, List.length_singleton]
    omega
  have htop : maxSeq (number n (P ++ [ev])) = d.seq + 1 := by
    have := maxSeq_number n (P ++ [ev]) (by simp)
    omega
  unfold write
  simp only [hnew]
  split_ifs
  · obtain ⟨m, hm, hm'⟩ := filter_number defaultSQLiteMaxRows (d.seq + 1) n (P ++ [ev]) hlen'
    refine ⟨_, ⟨m, ?_, hm'⟩, kept_rtake _ _⟩
    rw [prune, htop]
    exact hm
  · exact ⟨_, ⟨n, rfl, hlen'⟩, Kept.refl _ _⟩

theorem load_eq {d : QosDb} {P : List Event} (h : d.Holds P) (limit : ℕ) :
    d.load limit = newest limit P := by
  obtain ⟨n, hrows, -⟩ := h
  rw [load, hrows, sort_number, List.map_reverse, map_number]
  rfl

end QosDb

theorem sqliteBackend_keeps (Ok : Event → Prop) : sqliteBackend.Keeps Ok QosDb.Holds where
  empty := ⟨1, rfl, rfl⟩
  opened := by
    rintro d P ⟨n, hrows, hlen⟩
    exact ⟨_, P, rfl, ⟨n, hrows, hlen⟩, Kept.refl _ _⟩
  write := by
    intro d P ev h _
    obtain ⟨P', hP', hkept⟩ := QosDb.holds_write h ev
    exact ⟨_, P', rfl, hP', hkept⟩
  load h limit := congrArg some (QosDb.load_eq h limit)

/-! ### Broker runs -/

namespace Tracker

/-- `Preload`, from what was loaded, which is newest first. -/
def preload (t : Tracker) (loaded : Option (List Event)) : Tracker :=
  match loaded with
  | none => t
  | some evs => { t with hist := evs.reverse.drop (evs.reverse.length - t.histCap) }

/-- `History`. -/
def history (t : Tracker) (limit : ℕ) : List Event :=
  t.hist.reverse.take (if 0 < limit ∧ limit < t.hist.length then limit else t.hist.length)

theorem history_eq (t : Tracker) (limit : ℕ) : t.history limit = newest limit t.hist := by
  unfold history newest
  by_cases h0 : limit = 0
  · simp [h0]
  · rw [if_neg h0]
    split_ifs with h
    · rfl
    · rw [List.take_of_length_le (by simp), List.take_of_length_le]
      rw [List.length_reverse]
      omega

end Tracker

/-- A running broker's history: the tracker, what it preloaded, and the queue
of the asynchronous store with the event its writer has in hand. -/
structure Up where
  tracker : Tracker
  limit : ℕ
  ch : List Event := []
  busy : Option Event := none

/-- The disk, and the broker if it is running. -/
structure HistState (β : Type) where
  disk : β
  up : Option Up := none

/-- What happens to the history. -/
inductive HistAction
  /-- The store is opened and preloaded. -/
  | start (histCap : ℤ) (limit : ℕ)
  /-- `appendEvent`. -/
  | append (ev : Event)
  /-- The writer takes an event from the queue. -/
  | take
  /-- It has written the event, or failed. -/
  | write (ok : Bool)
  /-- `Close`, once the writer is done. -/
  | close

/-- The capacity of the queue. -/
def queueCap : ℕ := 1024

section
variable {β : Type} (B : Backend β)

/-- One step. An event that finds the queue full is not stored, and an error
of the writer is ignored. -/
def histStep (s : HistState β) : HistAction → Option (HistState β × List Unit)
  | .start histCap limit =>
    match s.up, B.opened s.disk with
    | none, some disk =>
      let tracker := (Tracker.new histCap).preload (B.load disk limit)
      some (⟨disk, some { tracker, limit }⟩, [])
    | _, _ => none
  | .append ev => s.up.map fun u =>
      ({ s with up := some { u with
          tracker := u.tracker.appendEvent ev
          ch := if u.ch.length < queueCap then u.ch ++ [ev] else u.ch } }, [])
  | .take =>
    match s.up with
    | some ⟨tracker, limit, ev :: ch, none⟩ =>
      some ({ s with up := some ⟨tracker, limit, ch, some ev⟩ }, [])
    | _ => none
  | .write ok =>
    match s.up with
    | some ⟨tracker, limit, ch, some ev⟩ =>
      some (⟨if ok then (B.write s.disk ev).getD s.disk else s.disk, some ⟨tracker, limit, ch, none⟩⟩, [])
    | _ => none
  | .close =>
    match s.up with
    | some ⟨_, _, [], none⟩ => some ({ s with up := none }, [])
    | _ => none

/-- Any number of broker runs on one store, empty at first. -/
def histMachine : Machine (HistState β) HistAction Unit := ⟨⟨B.empty, none⟩, histStep B⟩

/-- The events passed to `appendEvent`, over all runs. -/
def logged (tr : List (Lib.Event (HistState β) HistAction Unit)) : List Event :=
  tr.filterMap fun e =>
    match e.act with
    | .append ev => some ev
    | _ => none

/-- The events that are still to be written. -/
def HistState.pending (s : HistState β) : List Event :=
  match s.up with
  | none => []
  | some u => u.busy.toList ++ u.ch

/-- A step at which the queue does not overflow, the event can be written,
and no write fails. -/
def Sound (Ok : Event → Prop) (s : HistState β) : HistAction → Prop
  | .append ev => (∀ u ∈ s.up, u.ch.length < queueCap) ∧ Ok ev
  | .write ok => ok = true
  | .start _ _ | .take | .close => True

instance (Ok : Event → Prop) [DecidablePred Ok] (s : HistState β) : DecidablePred (Sound Ok s)
  | .append _ => inferInstanceAs (Decidable (_ ∧ _))
  | .write ok => inferInstanceAs (Decidable (ok = true))
  | .start _ _ | .take | .close => isTrue trivial

/-- What is on disk and what is still to be written are the last events; and
so is the ring, if it was filled and is small enough. -/
structure Complete (B : Backend β) (Ok : Event → Prop) (Holds : β → List Event → Prop)
    (log : List Event) (s : HistState β) : Prop where
  disk : ∃ P, Holds s.disk P ∧ Kept B.maxRows (P ++ s.pending) log
  pending : ∀ ev ∈ s.pending, Ok ev
  ring : ∀ u ∈ s.up, u.limit = u.tracker.histCap → u.tracker.histCap ≤ B.maxRows →
    u.tracker.hist = log.rtake u.tracker.histCap

variable {B} {Ok : Event → Prop} {Holds : β → List Event → Prop} {log : List Event} {s s' : HistState β}

theorem reverse_newest (limit : ℕ) (evs : List Event) (h : limit ≠ 0) :
    (newest limit evs).reverse = evs.rtake limit := by
  rw [newest, if_neg h, List.rtake_eq_reverse_take_reverse]

theorem histCap_new_ne_zero (histCap : ℤ) : (Tracker.new histCap).histCap ≠ 0 := by
  unfold Tracker.new
  dsimp only
  split_ifs with h
  · simp
  · omega

theorem histCap_preload (t : Tracker) (loaded : Option (List Event)) :
    (t.preload loaded).histCap = t.histCap := by
  cases loaded <;> rfl

theorem hist_preload (t : Tracker) {P : List Event} (h : t.histCap ≠ 0) :
    (t.preload (some (newest t.histCap P))).hist = P.rtake t.histCap := by
  change (newest t.histCap P).reverse.rtake t.histCap = _
  rw [reverse_newest _ _ h, rtake_rtake]

theorem pending_eq {u : Up} (hu : s.up = some u) : s.pending = u.busy.toList ++ u.ch := by
  rw [HistState.pending, hu]

/-- Opening the store and filling the ring. -/
theorem Complete.start (hB : B.Keeps Ok Holds) (h : Complete B Ok Holds log s) (hup : s.up = none)
    (histCap : ℤ) (limit : ℕ) : ∃ s', histStep B s (.start histCap limit) = some (s', []) ∧
      Complete B Ok Holds log s' := by
  obtain ⟨P, hP, hkept⟩ := h.disk
  obtain ⟨b', P', hopen, hP', hkept'⟩ := hB.opened hP
  have hnil : s.pending = [] := by rw [HistState.pending, hup]
  rw [hnil, List.append_nil] at hkept
  have hlog := hkept'.trans hkept
  refine ⟨_, by rw [histStep, hup, hopen], ⟨P', hP', by simpa [HistState.pending] using hlog⟩,
    by simp [HistState.pending], ?_⟩
  rintro u hu hlimit hcap
  obtain rfl := Option.some.inj hu
  dsimp only at hlimit hcap ⊢
  rw [histCap_preload] at hlimit hcap ⊢
  rw [hB.load hP', hlimit, hist_preload _ (histCap_new_ne_zero histCap)]
  exact hlog.rtake hcap

theorem Complete.append (h : Complete B Ok Holds log s) {ev : Event} {o : List Unit}
    (hs : histStep B s (.append ev) = some (s', o)) (hsound : Sound Ok s (.append ev)) :
    Complete B Ok Holds (log ++ [ev]) s' := by
  obtain ⟨u, hu, he⟩ := Option.map_eq_some_iff.mp hs
  obtain ⟨rfl, -⟩ := Prod.mk.inj he
  have hroom : u.ch.length < queueCap := hsound.1 u hu
  have hpend := pending_eq hu
  rw [if_pos hroom]
  obtain ⟨P, hP, hkept⟩ := h.disk
  refine ⟨⟨P, hP, ?_⟩, ?_, ?_⟩
  · have := hkept.append [ev]
    rw [hpend] at this
    simpa [HistState.pending, List.append_assoc] using this
  · intro x hx
    simp only [HistState.pending, ← List.append_assoc, ← hpend] at hx
    rcases List.mem_append.mp hx with hx | hx
    · exact h.pending x hx
    · rw [List.mem_singleton.mp hx]
      exact hsound.2
  · intro u' hu' hlimit hcap
    obtain rfl := Option.some.inj hu'
    have hring := h.ring u hu hlimit hcap
    change (u.tracker.hist ++ [ev]).rtake u.tracker.histCap = _
    rw [hring, rtake_snoc]
    rfl

theorem Complete.take (h : Complete B Ok Holds log s) {o : List Unit}
    (hs : histStep B s .take = some (s', o)) : Complete B Ok Holds log s' := by
  simp only [histStep] at hs
  split at hs
  · rename_i tracker limit ev ch hu
    obtain ⟨rfl, -⟩ := Prod.mk.inj (Option.some.inj hs)
    have hpend : s.pending = [ev] ++ ch := pending_eq hu
    refine ⟨?_, ?_, ?_⟩
    · have := h.disk
      rwa [hpend] at this
    · have := h.pending
      rwa [hpend] at this
    · intro u' hu' hlimit hcap
      obtain rfl := Option.some.inj hu'
      have hring := h.ring _ hu
      exact hring hlimit hcap
  · cases hs

theorem Complete.write (hB : B.Keeps Ok Holds) (h : Complete B Ok Holds log s) {ok : Bool} {o : List Unit}
    (hs : histStep B s (.write ok) = some (s', o)) (hok : ok = true) : Complete B Ok Holds log s' := by
  simp only [histStep] at hs
  split at hs
  · rename_i tracker limit ch ev hu
    obtain ⟨rfl, -⟩ := Prod.mk.inj (Option.some.inj hs)
    have hpend : s.pending = [ev] ++ ch := pending_eq hu
    have hev : Ok ev := h.pending ev (by rw [hpend]; simp)
    obtain ⟨P, hP, hkept⟩ := h.disk
    obtain ⟨b', P', hwrite, hP', hkept'⟩ := hB.write hP hev
    rw [if_pos hok, hwrite]
    rw [hpend, ← List.append_assoc] at hkept
    refine ⟨⟨P', hP', (hkept'.append ch).trans hkept⟩, fun x hx => ?_, ?_⟩
    · exact h.pending x (by rw [hpend]; exact List.mem_append_right _ hx)
    · intro u' hu' hlimit hcap
      obtain rfl := Option.some.inj hu'
      have hring := h.ring _ hu
      exact hring hlimit hcap
  · cases hs

theorem Complete.close (h : Complete B Ok Holds log s) {o : List Unit}
    (hs : histStep B s .close = some (s', o)) : Complete B Ok Holds log s' := by
  simp only [histStep] at hs
  split at hs
  · rename_i tracker limit hu
    obtain ⟨rfl, -⟩ := Prod.mk.inj (Option.some.inj hs)
    have hpend : s.pending = [] := pending_eq hu
    obtain ⟨P, hP, hkept⟩ := h.disk
    rw [hpend] at hkept
    refine ⟨⟨P, hP, hkept⟩, ?_, ?_⟩
    · rintro x ⟨⟩
    · rintro u ⟨⟩
  · cases hs

variable {tr : List (Lib.Event (HistState β) HistAction Unit)}

theorem logged_snoc (e : Lib.Event (HistState β) HistAction Unit) :
    logged (tr ++ [e]) = logged tr ++ logged [e] := List.filterMap_append

theorem complete_of_run (hB : B.Keeps Ok Holds) (h : (histMachine B).Run tr s)
    (hsound : ∀ e ∈ tr, Sound Ok e.pre e.act) : Complete B Ok Holds (logged tr) s := by
  induction h with
  | nil =>
    refine ⟨⟨[], hB.empty, Kept.refl _ _⟩, ?_, ?_⟩
    · rintro x ⟨⟩
    · rintro u ⟨⟩
  | @snoc tr s s' a o hr hs ih =>
    simp only [List.mem_append, List.mem_singleton, or_imp, forall_and, forall_eq] at hsound
    have ih := ih hsound.1
    rw [logged_snoc]
    cases a with
    | append ev => exact ih.append hs hsound.2
    | start histCap limit =>
      cases hup : s.up with
      | some u => simp [histMachine, histStep, hup] at hs
      | none =>
        obtain ⟨s₁, hs₁, hcomp⟩ := ih.start hB hup histCap limit
        obtain ⟨rfl, -⟩ := Prod.mk.inj (Option.some.inj (hs₁.symm.trans hs))
        simpa [logged] using hcomp
    | take => simpa [logged] using ih.take hs
    | write ok => simpa [logged] using ih.write hB hs hsound.2
    | close => simpa [logged] using ih.close hs

/-- After a run: the store can be opened again; and a broker whose ring was
filled to its capacity shows the last events. -/
structure Survives (B : Backend β) (tr : List (Lib.Event (HistState β) HistAction Unit))
    (s : HistState β) : Prop where
  opens : s.up = none → ∀ histCap limit, ∃ s', histStep B s (.start histCap limit) = some (s', [])
  shows : ∀ u ∈ s.up, u.limit = u.tracker.histCap → u.tracker.histCap ≤ B.maxRows →
    ∀ n, u.tracker.history n = newest n ((logged tr).rtake u.tracker.histCap)

theorem survives_of_run (hB : B.Keeps Ok Holds) (h : (histMachine B).Run tr s)
    (hsound : ∀ e ∈ tr, Sound Ok e.pre e.act) : Survives B tr s := by
  have hcomp := complete_of_run hB h hsound
  refine ⟨fun hup histCap limit => ?_, fun u hu hlimit hcap n => ?_⟩
  · obtain ⟨s', hs', -⟩ := hcomp.start hB hup histCap limit
    exact ⟨s', hs'⟩
  · rw [Tracker.history_eq, hcomp.ring u hu hlimit hcap]

end

/-- **The history survives restarts.** Over any number of broker runs on one
file in which the queue never overflows, no write fails and every line is
under 1 MiB: the file can always be opened again, and after a preload of as
many events as the ring takes, at most 5000, and any further events, the
history is the last events of all runs, newest first. The same holds of
SQLite for up to 50000 events; and if both were given the same events, they
show the same. -/
theorem history_survives (J : Jsonl) :
    (∀ tr s, (histMachine (fileBackend J)).Run tr s → (∀ e ∈ tr, Sound J.Fits e.pre e.act) →
      Survives (fileBackend J) tr s) ∧
    (∀ tr s, (histMachine sqliteBackend).Run tr s → (∀ e ∈ tr, Sound J.Fits e.pre e.act) →
      Survives sqliteBackend tr s) ∧
    ∀ tr s tr' s' u u', (histMachine (fileBackend J)).Run tr s → (∀ e ∈ tr, Sound J.Fits e.pre e.act) →
      (histMachine sqliteBackend).Run tr' s' → (∀ e ∈ tr', Sound J.Fits e.pre e.act) →
      logged tr = logged tr' → u ∈ s.up → u' ∈ s'.up → u.tracker.histCap = u'.tracker.histCap →
      u.limit = u.tracker.histCap → u'.limit = u'.tracker.histCap →
      u.tracker.histCap ≤ (fileBackend J).maxRows →
      ∀ n, u.tracker.history n = u'.tracker.history n := by
  have hfile : ∀ tr s, (histMachine (fileBackend J)).Run tr s → (∀ e ∈ tr, Sound J.Fits e.pre e.act) →
      Survives (fileBackend J) tr s := fun tr s h => survives_of_run (fileBackend_keeps J) h
  have hsql : ∀ tr s, (histMachine sqliteBackend).Run tr s → (∀ e ∈ tr, Sound J.Fits e.pre e.act) →
      Survives sqliteBackend tr s := fun tr s h => survives_of_run (sqliteBackend_keeps J.Fits) h
  refine ⟨hfile, hsql, ?_⟩
  intro tr s tr' s' u u' h hsound h' hsound' hlog hu hu' hsame hlimit hlimit' hcap n
  have hmax : Jsonl.defaultFileMaxRows ≤ QosDb.defaultSQLiteMaxRows := by decide
  have hcap' : u'.tracker.histCap ≤ sqliteBackend.maxRows := Nat.le_trans (hsame ▸ hcap) hmax
  rw [(hfile tr s h hsound).shows u hu hlimit hcap n, (hsql tr' s' h' hsound').shows u' hu' hlimit' hcap' n,
    hlog, hsame]

/-- Three events, and then the broker is restarted with room for two. -/
def restarted : List HistAction :=
  [.start 3 3, .append (Jsonl.up "1"), .take, .append (Jsonl.up "2"), .write true, .append (Jsonl.up "3"),
    .take, .write true, .take, .write true, .close, .start 2 2]

/-- What the restarted broker shows, from any backend that keeps the history. -/
theorem shows_restarted {β : Type} {B : Backend β} (hmax : 2 ≤ B.maxRows)
    (hB : ∀ tr s, (histMachine B).Run tr s → (∀ e ∈ tr, Sound midnight.jsonl.Fits e.pre e.act) →
      Survives B tr s)
    (h : ∃ r ∈ (histMachine B).exec (histMachine B).init restarted,
      (∀ e ∈ r.1, Sound midnight.jsonl.Fits e.pre e.act) ∧
      logged r.1 = [Jsonl.up "1", Jsonl.up "2", Jsonl.up "3"] ∧
      ∃ u ∈ r.2.up, u.limit = u.tracker.histCap ∧ u.tracker.histCap = 2) :
    ∃ tr s, (histMachine B).Run tr s ∧
      ∃ u ∈ s.up, u.tracker.history 0 = [Jsonl.up "3", Jsonl.up "2"] := by
  obtain ⟨tr, s, hrun, hsound, hlog, u, hu, hlimit, hcap⟩ := (histMachine B).exists_run restarted h
  refine ⟨tr, s, hrun, u, hu, ?_⟩
  rw [(hB tr s hrun hsound).shows u hu hlimit (hcap ▸ hmax) 0, hlog, hcap]
  decide

theorem history_survives_restart :
    (∃ tr s, (histMachine (fileBackend midnight.jsonl)).Run tr s ∧
      ∃ u ∈ s.up, u.tracker.history 0 = [Jsonl.up "3", Jsonl.up "2"]) ∧
    ∃ tr s, (histMachine sqliteBackend).Run tr s ∧
      ∃ u ∈ s.up, u.tracker.history 0 = [Jsonl.up "3", Jsonl.up "2"] := by
  obtain ⟨hfile, hsql, -⟩ := history_survives midnight.jsonl
  exact ⟨shows_restarted (by decide) hfile (by decide +kernel),
    shows_restarted (by decide) hsql (by decide +kernel)⟩

end Qos
end Revquic
