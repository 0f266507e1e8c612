/-
# A detector with hysteresis

A detector watches a sequence of samples. It keeps the peak and a flag: the
flag is raised at a sample below a fraction of the peak, and lowered at one
that reaches a larger fraction of it again; a peak below a floor never
counts. `Hysteresis` says what the samples with their marks look like.

Key definitions: `Detector`, `Detector.marks`, `Hysteresis`.
Key theorem: `hysteresis_marks`.
-/
import Mathlib.Data.List.Chain
import Mathlib.Order.Lattice
import Mathlib.Tactic

namespace Revquic
namespace Lib

/-- What a sample can do to the flag. -/
inductive Mark
  | drop
  | recover
  deriving DecidableEq

/-- What the detector keeps. -/
structure Watch (K : Type*) where
  peak : K
  flagged : Bool

/-- The least peak that counts, and the two fractions of the peak. -/
structure Detector (K : Type*) where
  floor : K
  dropAt : K
  recoverAt : K

variable {K : Type*} [LinearOrder K] [Mul K]

namespace Detector

variable (D : Detector K)

/-- One sample. -/
def sample (s : Watch K) (x : K) : Watch K × Option Mark :=
  let peak := max s.peak x
  if peak < D.floor then (⟨peak, s.flagged⟩, none)
  else if !s.flagged && x < peak * D.dropAt then (⟨peak, true⟩, some .drop)
  else if s.flagged && peak * D.recoverAt ≤ x then (⟨peak, false⟩, some .recover)
  else (⟨peak, s.flagged⟩, none)

/-- A sequence of samples, with their marks. -/
def marks : Watch K → List K → List (K × Option Mark)
  | _, [] => []
  | s, x :: xs => (x, (D.sample s x).2) :: marks (D.sample s x).1 xs

/-- The detector after a sequence of samples. -/
def after : Watch K → List K → Watch K
  | s, [] => s
  | s, x :: xs => after (D.sample s x).1 xs

variable {D} {s : Watch K} {x : K} {xs ys : List K} {a b w : List (K × Option Mark)} {m : Option Mark}

theorem sample_peak (s : Watch K) (x : K) : (D.sample s x).1.peak = max s.peak x := by
  simp only [sample]
  split_ifs <;> rfl

/-- Everything a sample can do to the flag. -/
theorem sample_cases (s : Watch K) (x : K) :
    ((D.sample s x).2 = some .drop ∧ s.flagged = false ∧ (D.sample s x).1.flagged = true ∧
      D.floor ≤ max s.peak x ∧ x < max s.peak x * D.dropAt) ∨
    ((D.sample s x).2 = some .recover ∧ s.flagged = true ∧ (D.sample s x).1.flagged = false ∧
      max s.peak x * D.recoverAt ≤ x) ∨
    ((D.sample s x).2 = none ∧ (D.sample s x).1.flagged = s.flagged ∧
      (D.floor ≤ max s.peak x → s.flagged = true → x < max s.peak x * D.recoverAt)) := by
  simp only [sample]
  generalize max s.peak x = peak
  cases hf : s.flagged <;> split_ifs <;> simp_all

theorem marks_append : ∀ (s : Watch K) (xs ys : List K),
    D.marks s (xs ++ ys) = D.marks s xs ++ D.marks (D.after s xs) ys
  | _, [], _ => rfl
  | s, x :: xs, ys => by rw [List.cons_append, marks, marks, after, marks_append, List.cons_append]

theorem after_append : ∀ (s : Watch K) (xs ys : List K),
    D.after s (xs ++ ys) = D.after (D.after s xs) ys
  | _, [], _ => rfl
  | s, x :: xs, ys => by rw [List.cons_append, after, after, after_append]

theorem map_fst_marks : ∀ (s : Watch K) (xs : List K), (D.marks s xs).map Prod.fst = xs
  | _, [] => rfl
  | s, x :: xs => by rw [marks, List.map_cons, map_fst_marks]

theorem after_peak : ∀ (s : Watch K) (xs : List K), (D.after s xs).peak = xs.foldl max s.peak
  | _, [] => rfl
  | s, x :: xs => by rw [after, after_peak, sample_peak, List.foldl_cons]

theorem peak_le_after : ∀ (s : Watch K) (xs : List K), s.peak ≤ (D.after s xs).peak
  | _, [] => le_rfl
  | s, x :: xs => by
    refine le_trans ?_ (peak_le_after (D.sample s x).1 xs)
    rw [sample_peak]
    exact le_max_left _ _

omit [LinearOrder K] [Mul K] in
theorem filterMap_mark (x : K) (m : Option Mark) (w : List (K × Option Mark)) :
    ((x, m) :: w).filterMap Prod.snd = m.toList ++ w.filterMap Prod.snd := by
  cases m <;> rfl

/-- One mark of a sequence: the detector it was made by, and what follows. -/
theorem marks_split (h : D.marks s xs = a ++ (x, m) :: b) :
    D.marks s (a.map Prod.fst) = a ∧ (D.sample (D.after s (a.map Prod.fst)) x).2 = m ∧
      D.marks (D.sample (D.after s (a.map Prod.fst)) x).1 (b.map Prod.fst) = b := by
  have hxs := map_fst_marks (D := D) s xs
  rw [h, List.map_append, List.map_cons] at hxs
  rw [← hxs, marks_append] at h
  have hlen : (D.marks s (a.map Prod.fst)).length = a.length := by
    rw [← List.length_map (f := Prod.fst), map_fst_marks, List.length_map]
  obtain ⟨ha, hb⟩ := List.append_inj h hlen
  obtain ⟨hx, hb⟩ := List.cons.inj hb
  exact ⟨ha, (Prod.mk.inj hx).2, hb⟩

/-- Without a mark the flag stays. -/
theorem after_flagged (h : ∀ p ∈ D.marks s xs, p.2 = none) : (D.after s xs).flagged = s.flagged := by
  induction xs generalizing s with
  | nil => rfl
  | cons x xs ih =>
    rw [marks, List.forall_mem_cons] at h
    rw [after, ih h.2]
    rcases sample_cases (D := D) s x with ⟨hm, -⟩ | ⟨hm, -⟩ | ⟨-, hsame, -⟩
    · rw [hm] at h
      cases h.1
    · rw [hm] at h
      cases h.1
    · exact hsame

/-- The marks alternate, from the one the flag calls for. -/
theorem marks_alternate (s : Watch K) (xs : List K) :
    (∀ m ∈ ((D.marks s xs).filterMap Prod.snd).head?, m = if s.flagged then .recover else .drop) ∧
      ((D.marks s xs).filterMap Prod.snd).IsChain (· ≠ ·) := by
  induction xs generalizing s with
  | nil => exact ⟨by simp [marks], by simp [marks]⟩
  | cons x xs ih =>
    obtain ⟨hhead, hchain⟩ := ih (D.sample s x).1
    rw [marks, filterMap_mark]
    -- a mark turns the flag, so the next mark is the other one
    rcases sample_cases (D := D) s x with ⟨hm, hf, hf', -⟩ | ⟨hm, hf, hf', -⟩ | ⟨hm, hsame, -⟩
    · rw [hm, Option.toList_some, List.singleton_append, List.isChain_cons, hf]
      rw [hf'] at hhead
      refine ⟨by simp, fun y hy => ?_, hchain⟩
      rw [hhead y hy]
      decide
    · rw [hm, Option.toList_some, List.singleton_append, List.isChain_cons, hf]
      rw [hf'] at hhead
      refine ⟨by simp, fun y hy => ?_, hchain⟩
      rw [hhead y hy]
      decide
    · rw [hm, Option.toList_none, List.nil_append, ← hsame]
      exact ⟨hhead, hchain⟩

/-- The flag is up if the last mark has raised it. -/
theorem after_flagged_iff (hs : s.flagged = false) (xs : List K) :
    (D.after s xs).flagged = true ↔ ((D.marks s xs).filterMap Prod.snd).getLast? = some .drop := by
  induction xs using List.reverseRecOn with
  | nil => simp [after, marks, hs]
  | append_singleton xs x ih =>
    rw [after_append, marks_append, List.filterMap_append, marks, filterMap_mark]
    show (D.sample (D.after s xs) x).1.flagged = true ↔ _
    rcases sample_cases (D := D) (D.after s xs) x with ⟨hm, -, hf', -⟩ | ⟨hm, -, hf', -⟩ | ⟨hm, hsame, -⟩
    · simp [hm, hf', marks]
    · simp [hm, hf', marks]
    · rw [hm, hsame, ih]
      simp [marks]

end Detector

/-- A clean sequence of marks, from a peak `p` on. The peak at a sample counts
that sample. -/
structure Hysteresis (D : Detector K) (p : K) (w : List (K × Option Mark)) : Prop where
  /-- The first mark is a drop. -/
  first : ∀ m ∈ (w.filterMap Prod.snd).head?, m = .drop
  /-- No two marks in a row are the same. -/
  alternate : (w.filterMap Prod.snd).IsChain (· ≠ ·)
  /-- A drop is marked below the fraction of a peak that counts. -/
  drop : ∀ (a : List (K × Option Mark)) (x : K) b, w = a ++ (x, some .drop) :: b →
    x < (a.map Prod.fst ++ [x]).foldl max p * D.dropAt ∧
      D.floor ≤ (a.map Prod.fst ++ [x]).foldl max p
  /-- A recovery is marked at the larger fraction or above. -/
  recover : ∀ (a : List (K × Option Mark)) (x : K) b, w = a ++ (x, some .recover) :: b →
    (a.map Prod.fst ++ [x]).foldl max p * D.recoverAt ≤ x
  /-- From a drop on, the samples without a mark are below it. -/
  between : ∀ (a : List (K × Option Mark)) (x : K) (c : List (K × Option Mark)) (z : K) b,
    w = a ++ (x, some .drop) :: (c ++ (z, none) :: b) →
    (∀ y ∈ c, y.2 = none) →
    z < (a.map Prod.fst ++ x :: (c.map Prod.fst ++ [z])).foldl max p * D.recoverAt

/-- Every sequence of samples is marked so. -/
theorem hysteresis_marks (D : Detector K) {s : Watch K} (hs : s.flagged = false) (xs : List K) :
    Hysteresis D s.peak (D.marks s xs) := by
  obtain ⟨hhead, hchain⟩ := D.marks_alternate s xs
  rw [hs] at hhead
  refine ⟨hhead, hchain, fun a x b h => ?_, fun a x b h => ?_, fun a x c z b h hc => ?_⟩
  · obtain ⟨-, hm, -⟩ := Detector.marks_split h
    rw [List.foldl_append, ← D.after_peak]
    rcases D.sample_cases (D.after s (a.map Prod.fst)) x with ⟨-, -, -, hfl, hx⟩ | ⟨hm', -⟩ | ⟨hm', -⟩
    · exact ⟨hx, hfl⟩
    · rw [hm'] at hm
      cases hm
    · rw [hm'] at hm
      cases hm
  · obtain ⟨-, hm, -⟩ := Detector.marks_split h
    rw [List.foldl_append, ← D.after_peak]
    rcases D.sample_cases (D.after s (a.map Prod.fst)) x with ⟨hm', -⟩ | ⟨-, -, -, hx⟩ | ⟨hm', -⟩
    · rw [hm'] at hm
      cases hm
    · exact hx
    · rw [hm'] at hm
      cases hm
  · obtain ⟨-, hm, hrest⟩ := Detector.marks_split h
    generalize hs' : D.after s (a.map Prod.fst) = s' at hm hrest
    obtain ⟨hcm, hz, -⟩ := Detector.marks_split hrest
    have hpeak : (a.map Prod.fst ++ x :: (c.map Prod.fst ++ [z])).foldl max s.peak =
        max (D.after (D.sample s' x).1 (c.map Prod.fst)).peak z := by
      rw [D.after_peak, D.sample_peak, ← hs', D.after_peak]
      simp [List.foldl_append]
    rw [hpeak]
    -- the drop has raised the flag, on a peak that counts, and no mark has lowered it
    have hflag : (D.after (D.sample s' x).1 (c.map Prod.fst)).flagged = true ∧
        D.floor ≤ max (D.after (D.sample s' x).1 (c.map Prod.fst)).peak z := by
      rcases D.sample_cases s' x with ⟨-, -, hf, hfl, -⟩ | ⟨hm', -⟩ | ⟨hm', -⟩
      · refine ⟨(Detector.after_flagged (by rw [hcm]; exact hc)).trans hf, hfl.trans ?_⟩
        rw [← D.sample_peak]
        exact (D.peak_le_after _ _).trans (le_max_left _ _)
      · rw [hm'] at hm
        cases hm
      · rw [hm'] at hm
        cases hm
    rcases D.sample_cases (D.after (D.sample s' x).1 (c.map Prod.fst)) z with ⟨hm', -⟩ | ⟨hm', -⟩ | ⟨-, -, hlt⟩
    · rw [hm'] at hz
      cases hz
    · rw [hm'] at hz
      cases hz
    · exact hlt hflag.2 hflag.1

end Lib
end Revquic
