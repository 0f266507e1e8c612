/-
# Texts made of lines

`lines` splits a text at a separator, one line after the other. What stands
behind the last separator is a line as well, unless there is nothing.

Key definition: `lines`.
Key theorems: `lines_line`, `lines_fragment`.
-/
import Mathlib.Data.List.Basic

namespace Revquic
namespace Lib

variable {α : Type*} [DecidableEq α] {sep : α}

/-- The lines of a text; the last one may have no separator behind it. -/
def lines (sep : α) : List α → List (List α)
  | [] => []
  | b :: l =>
    if b = sep then [] :: lines sep l
    else
      match lines sep l with
      | [] => [[b]]
      | line :: rest => (b :: line) :: rest

theorem lines_line : ∀ {line : List α}, sep ∉ line → ∀ l, lines sep (line ++ sep :: l) = line :: lines sep l
  | [], _, l => by simp [lines]
  | b :: line, h, l => by
    obtain ⟨hb, hline⟩ := not_or.mp (List.mem_cons.not.mp h)
    rw [List.cons_append, lines, if_neg (Ne.symm hb), lines_line hline]

theorem lines_fragment : ∀ {p : List α}, sep ∉ p → p ≠ [] → lines sep p = [p]
  | [b], h, _ => by
    have hb : b ≠ sep := fun e => h (by simp [e])
    simp [lines, hb]
  | b :: c :: p, h, _ => by
    obtain ⟨hb, hp⟩ := not_or.mp (List.mem_cons.not.mp h)
    rw [lines, if_neg (Ne.symm hb), lines_fragment hp (by simp)]

end Lib
end Revquic
