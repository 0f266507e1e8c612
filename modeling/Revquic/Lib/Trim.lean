/-
# Trimming and cutting texts

`trim` takes away what satisfies a predicate at both ends of a text, and
`cut` splits a text at the first character that satisfies one. A text that
starts and ends with something else is what is left of it between blanks, and
the part before a separator comes back if it holds none.

Key definitions: `trim`, `cut`.
Key theorems: `trim_append`, `cut_append`.
-/
import Mathlib.Data.List.DropRight
import Mathlib.Data.List.TakeWhile

namespace Revquic
namespace Lib

variable {α : Type*} (p : α → Bool)

def trim (l : List α) : List α := (l.rdropWhile p).dropWhile p

/-- What stands before the first character that satisfies `p`, and what
stands behind it. -/
def cut (l : List α) : Option (List α × List α) :=
  match l.dropWhile fun a => !p a with
  | [] => none
  | _ :: rest => some (l.takeWhile (fun a => !p a), rest)

/-- A text that neither starts nor ends with a character that satisfies
`p`. -/
structure Edged (x : List α) : Prop where
  ne_nil : x ≠ []
  head : ∀ a ∈ x.head?, p a = false
  last : ∀ a ∈ x.getLast?, p a = false

variable {p} {a b x : List α}

theorem trim_concat {l : List α} {c : α} (h : p c = true) : trim p (l ++ [c]) = trim p l := by
  rw [trim, trim, List.rdropWhile_concat_pos _ _ _ h]

theorem trim_append_of_all : ∀ {b : List α}, (∀ c ∈ b, p c = true) → ∀ l, trim p (l ++ b) = trim p l := by
  intro b
  induction b using List.reverseRecOn with
  | nil => exact fun _ l => by rw [List.append_nil]
  | append_singleton b c ih =>
    intro hb l
    rw [← List.append_assoc, trim_concat (hb c (by simp))]
    exact ih (fun c' hc' => hb c' (by simp [hc'])) l

/-- Blanks around a text are trimmed. -/
theorem trim_append (ha : ∀ c ∈ a, p c = true) (hb : ∀ c ∈ b, p c = true) (hx : Edged p x) :
    trim p (a ++ x ++ b) = x := by
  rw [trim_append_of_all hb, trim]
  have hr : (a ++ x).rdropWhile p = a ++ x := by
    obtain ⟨x', c, rfl⟩ := (List.eq_nil_or_concat x).resolve_left hx.ne_nil
    have hc : ¬ p c = true := by simpa using hx.last c (by simp)
    rw [List.concat_eq_append, ← List.append_assoc, List.rdropWhile_concat_neg _ _ _ hc]
  rw [hr, List.dropWhile_append_of_pos ha]
  obtain ⟨c, x', rfl⟩ := List.exists_cons_of_ne_nil hx.ne_nil
  rw [List.dropWhile_cons_of_neg (by simpa using hx.head c (by simp))]

theorem Edged.trim_eq (hx : Edged p x) : trim p x = x := by
  have h := trim_append (a := []) (b := []) (by simp) (by simp) hx
  rwa [List.nil_append, List.append_nil] at h

theorem length_trim_le (p : α → Bool) (l : List α) : (trim p l).length ≤ l.length :=
  (List.dropWhile_suffix p).length_le.trans ( List.rdropWhile_prefix p l).length_le

/-- The first separator is the one behind a text without one. -/
theorem cut_append {c : α} {rest : List α} (hx : ∀ a ∈ x, p a = false) (hc : p c = true) :
    cut p (x ++ c :: rest) = some (x, rest) := by
  have hx' : ∀ a ∈ x, (!p a) = true := fun a ha => by rw [hx a ha, Bool.not_false]
  have hdrop : (x ++ c :: rest).dropWhile (fun a => !p a) = c :: rest := by
    rw [List.dropWhile_append_of_pos hx']
    exact List.dropWhile_cons_of_neg (by simp [hc])
  have htake : (x ++ c :: rest).takeWhile (fun a => !p a) = x := by
    rw [List.takeWhile_append_of_pos hx', List.takeWhile_cons_of_neg (by simp [hc]), List.append_nil]
  rw [cut, hdrop, htake]

theorem cut_eq_none (hx : ∀ a ∈ x, p a = false) : cut p x = none := by
  have hnil : x.dropWhile (fun a => !p a) = [] :=
    List.dropWhile_eq_nil_iff.mpr fun a ha => by rw [hx a ha, Bool.not_false]
  rw [cut, hnil]

end Lib
end Revquic
