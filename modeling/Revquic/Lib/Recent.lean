/-
# Logs of which only the end is kept

A store of limited size keeps the last entries of a log. `Kept n P L` says
that `P` is the end of `L`, with at least `n` entries unless `L` has fewer.
Entries may be dropped again and again, by several stores in a row, and the
last `n` entries stay the same.

Key definition: `Kept`.
Key theorems: `Kept.trans`, `Kept.rtake`.
-/
import Mathlib.Data.List.DropRight

namespace Revquic
namespace Lib

variable {α : Type*} {n m : ℕ} {P Q L : List α}

/-- `P` is the end of `L` and has the last `n` entries at least. -/
def Kept (n : ℕ) (P L : List α) : Prop := P <:+ L ∧ min n L.length ≤ P.length

theorem Kept.refl (n : ℕ) (L : List α) : Kept n L L := ⟨List.suffix_refl L, Nat.min_le_right _ _⟩

theorem Kept.trans (h : Kept n P Q) (h' : Kept n Q L) : Kept n P L := by
  have hlen := h.2
  have hlen' := h'.2
  exact ⟨h.1.trans h'.1, by omega⟩

theorem Kept.append (h : Kept n P L) (xs : List α) : Kept n (P ++ xs) (L ++ xs) := by
  obtain ⟨⟨A, rfl⟩, hlen⟩ := h
  refine ⟨⟨A, (List.append_assoc _ _ _).symm⟩, ?_⟩
  simp only [List.length_append] at hlen ⊢
  omega

theorem kept_rtake (n : ℕ) (L : List α) : Kept n (L.rtake n) L := by
  refine ⟨List.drop_suffix _ _, ?_⟩
  simp only [List.rtake, List.length_drop]
  omega

/-- The last `m` entries are the same. -/
theorem Kept.rtake (h : Kept n P L) (hm : m ≤ n) : P.rtake m = L.rtake m := by
  obtain ⟨⟨A, rfl⟩, hlen⟩ := h
  rw [List.length_append] at hlen
  unfold List.rtake
  rcases Nat.lt_or_ge P.length m with hlt | hge
  · have hA : A = [] := List.eq_nil_of_length_eq_zero (by omega)
    rw [hA, List.nil_append]
  · have hdrop : (A ++ P).length - m = A.length + (P.length - m) := by
      rw [List.length_append]
      omega
    rw [hdrop, List.drop_append, List.drop_eq_nil_of_le (Nat.le_add_right _ _), List.nil_append,
      Nat.add_sub_cancel_left]

/-- A ring of `n` entries, with one more pushed. -/
theorem rtake_snoc (n : ℕ) (L : List α) (x : α) : (L.rtake n ++ [x]).rtake n = (L ++ [x]).rtake n :=
  ((kept_rtake n L).append [x]).rtake (Nat.le_refl n)

theorem rtake_rtake (n : ℕ) (L : List α) : (L.rtake n).rtake n = L.rtake n :=
  (kept_rtake n L).rtake (Nat.le_refl n)

end Lib
end Revquic
