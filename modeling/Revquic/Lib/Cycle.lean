/-
# Walking round a list

A walk that goes from each element of a list to the next, and from the last
to the first, visits the list in cyclic order. A search along such a walk
that takes at least one full turn finds what a search through the rotated
list finds, and takes no notice of the steps beyond the turn.

Key definition: `Turns`.
Key theorems: `iterate_eq_rotate`, `find?_iterate`.
-/
import Mathlib.Data.List.Iterate
import Mathlib.Data.List.Rotate

namespace Revquic
namespace Lib

variable {α : Type*} {f : α → α} {l : List α}

/-- `f` leads from each element of `l` to the next, and from the last to the
first. -/
def Turns (f : α → α) (l : List α) : Prop :=
  ∀ i (h : i < l.length), f l[i] = l.get ⟨(i + 1) % l.length, Nat.mod_lt _ (Nat.zero_lt_of_lt h)⟩

namespace Turns

theorem iterate (hf : Turns f l) {i : ℕ} (h : i < l.length) (k : ℕ) :
    f^[k] l[i] = l.get ⟨(i + k) % l.length, Nat.mod_lt _ (Nat.zero_lt_of_lt h)⟩ := by
  induction k with
  | zero => simp [Nat.mod_eq_of_lt h]
  | succ k ih =>
    rw [Function.iterate_succ_apply', ih, List.get_eq_getElem, hf]
    congr 2
    rw [Nat.mod_add_mod, Nat.add_assoc]

/-- A walk from any element comes to every other. -/
theorem exists_iterate (hf : Turns f l) {a b : α} (ha : a ∈ l) (hb : b ∈ l) : ∃ k, f^[k] a = b := by
  obtain ⟨i, hi, rfl⟩ := List.getElem_of_mem ha
  obtain ⟨j, hj, rfl⟩ := List.getElem_of_mem hb
  refine ⟨l.length - i + j, ?_⟩
  rw [hf.iterate hi, List.get_eq_getElem]
  congr 1
  show (i + (l.length - i + j)) % l.length = j
  rw [show i + (l.length - i + j) = j + l.length by omega, Nat.add_mod_right, Nat.mod_eq_of_lt hj]

/-- One full turn from the `i`-th element. -/
theorem iterate_eq_rotate (hf : Turns f l) {i : ℕ} (h : i < l.length) :
    List.iterate f l[i] l.length = l.rotate i := by
  refine List.ext_getElem (by simp) fun k hk _ => ?_
  rw [List.getElem_iterate, hf.iterate h, List.getElem_rotate, List.get_eq_getElem]
  congr 1
  rw [Nat.add_comm]

/-- A search of at least one turn from the `i`-th element. -/
theorem find?_iterate (hf : Turns f l) (q : α → Bool) {i n : ℕ} (h : i < l.length)
    (hn : l.length ≤ n) : (List.iterate f l[i] n).find? q = (l.rotate i).find? q := by
  obtain ⟨m, rfl⟩ := Nat.exists_eq_add_of_le hn
  rw [List.iterate_add, List.find?_append, hf.iterate_eq_rotate h]
  cases hq : (l.rotate i).find? q with
  | some a => rfl
  | none =>
    -- the steps beyond the turn only see elements the turn has seen
    rw [Option.none_or, List.find?_eq_none]
    intro a ha
    obtain ⟨k, -, rfl⟩ := List.mem_iterate.mp ha
    refine List.find?_eq_none.mp hq _ (List.mem_rotate.mpr ?_)
    rw [← Function.iterate_add_apply, hf.iterate h]
    exact List.get_mem _ _

end Turns
end Lib
end Revquic
