/-
# UTF-8 in byte strings

A string stands for its bytes, one character for each, and need not be UTF-8.
An encoder that writes text replaces every byte that is not part of a UTF-8
character, so a string comes back as it was exactly if it is valid.

Key definitions: `coerce`, `valid`.
Key theorem: `coerce_eq_self_iff`.
-/
import Mathlib.Data.List.Basic

namespace Revquic
namespace Lib
namespace Utf8

def within (lo hi : ℕ) (b : Char) : Bool := lo ≤ b.toNat && b.toNat ≤ hi

/-- What the first byte of a longer character says: how many bytes it has,
and the range of the second. -/
def first (b : Char) : Option (ℕ × ℕ × ℕ) :=
  if within 0xC2 0xDF b then some (2, 0x80, 0xBF)
  else if b.toNat = 0xE0 then some (3, 0xA0, 0xBF)
  else if b.toNat = 0xED then some (3, 0x80, 0x9F)
  else if within 0xE1 0xEF b then some (3, 0x80, 0xBF)
  else if b.toNat = 0xF0 then some (4, 0x90, 0xBF)
  else if within 0xF1 0xF3 b then some (4, 0x80, 0xBF)
  else if b.toNat = 0xF4 then some (4, 0x80, 0x8F)
  else none

/-- The bytes of the character at the head; none if there is no character. -/
def runeLen : List Char → ℕ
  | [] => 0
  | b :: l =>
    if b.toNat < 0x80 then 1
    else
      match first b, l with
      | some (size, lo, hi), c :: l =>
        if within lo hi c && size - 2 ≤ l.length && (l.take (size - 2)).all (within 0x80 0xBF) then size
        else 0
      | _, _ => 0

/-- The bytes of U+FFFD. -/
def replacement : List Char := ['\xef', '\xbf', '\xbd']

/-- Replaces what is not UTF-8; `k` bytes of a character are still to come. -/
def coerceFrom : ℕ → List Char → List Char
  | _, [] => []
  | k + 1, b :: l => b :: coerceFrom k l
  | 0, b :: l =>
    match runeLen (b :: l) with
    | 0 => replacement ++ coerceFrom 0 l
    | n + 1 => b :: coerceFrom n l

/-- All bytes are parts of characters. -/
def validFrom : ℕ → List Char → Bool
  | _, [] => true
  | k + 1, _ :: l => validFrom k l
  | 0, b :: l =>
    match runeLen (b :: l) with
    | 0 => false
    | n + 1 => validFrom n l

def coerce (s : String) : String := String.ofList (coerceFrom 0 s.toList)

def valid (s : String) : Bool := validFrom 0 s.toList

theorem runeLen_replacement (l : List Char) : runeLen (replacement ++ l) = 3 := by
  simp [replacement, runeLen, first, within]

theorem coerceFrom_eq_self_iff : ∀ (k : ℕ) (l : List Char), coerceFrom k l = l ↔ validFrom k l = true
  | _, [] => by simp [coerceFrom, validFrom]
  | k + 1, b :: l => by simp [coerceFrom, validFrom, coerceFrom_eq_self_iff k l]
  | 0, b :: l => by
    unfold coerceFrom validFrom
    split
    · -- what the replacement stands for is a character, so it replaces something else
      rename_i hlen
      refine iff_of_false (fun h => ?_) (by simp)
      rw [← h, runeLen_replacement] at hlen
      cases hlen
    · rename_i n hlen
      simp [coerceFrom_eq_self_iff n l]

theorem coerce_eq_self_iff (s : String) : coerce s = s ↔ valid s = true := by
  rw [coerce, valid, ← coerceFrom_eq_self_iff, ← String.toList_inj, String.toList_ofList]

example : coerce "a\xff\xc3\xa9" = "a\xef\xbf\xbd\xc3\xa9" := by decide +kernel

end Utf8
end Lib
end Revquic
