/-
# Grouping into a map

A loop that updates, for each element of a list, the entry of the element's
key computes for every key the same update over the elements of that key
alone. Counts of a map's entries by the value of a function on them add up.

Key theorems: `lookup_foldl_group`, `sum_count`.
-/
import Mathlib
import Revquic.Lib.GoMap

namespace Revquic
namespace Lib
namespace GoMap

variable {K V ι : Type*} [DecidableEq K]

theorem lookup_foldl_group (f : ι → K) (g : Option V → ι → V) :
    ∀ (l : List ι) (m : GoMap K V) (k : K),
      (l.foldl (fun m i => m.insert (f i) (g (m.lookup (f i)) i)) m).lookup k =
        (l.filter fun i => f i = k).foldl (fun o i => some (g o i)) (m.lookup k)
  | [], m, k => rfl
  | i :: l, m, k => by
    rw [List.foldl_cons, lookup_foldl_group f g l, lookup_set]
    by_cases hk : f i = k
    · rw [if_pos hk.symm, List.filter_cons_of_pos (by simpa using hk), List.foldl_cons, hk]
    · rw [if_neg (Ne.symm hk), List.filter_cons_of_neg (by simpa using hk)]

omit [DecidableEq K] in
/-- An entry is counted for the one value it has. -/
theorem sum_count [DecidableEq ι] (m : GoMap K V) (f : V → ι) (P : K → V → Bool) :
    ∀ {l : List ι}, l.Nodup → (l.map fun i => m.count fun k v => decide (f v = i) && P k v).sum =
      m.count fun k v => decide (f v ∈ l) && P k v
  | [], _ => by simp [count]
  | i :: l, h => by
    obtain ⟨hi, hl⟩ := List.nodup_cons.mp h
    rw [List.map_cons, List.sum_cons, sum_count m f P hl]
    unfold count
    -- entry by entry: no value is both `i` and in the rest of the list
    induction m.entries with
    | nil => rfl
    | cons e es ih =>
      simp only [List.countP_cons, List.mem_cons] at ih ⊢
      by_cases he : f e.2 = i
      · simp only [he, hi, true_or, decide_true, decide_false, Bool.true_and, Bool.false_and,
          Bool.false_eq_true, if_false]
        omega
      · simp only [he, false_or, decide_false, Bool.false_and, Bool.false_eq_true, if_false]
        omega

end GoMap
end Lib
end Revquic
