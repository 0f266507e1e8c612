/-
# JSON string literals

A string is written between quotes as its UTF-8, with escapes for quotes,
backslashes, control characters, the characters of HTML markup and the two
line separators. Reading undoes the escapes; what is not a character becomes
U+FFFD.

Key definitions: `escape`, `body`, `quote`, `readBody`.
Key theorem: `readBody_body`.
-/
import Mathlib.Data.List.Basic
import Mathlib.Tactic

namespace Revquic
namespace Lib
namespace Json

/-! ### Characters -/

def hexDigit (n : ℕ) : UInt8 := if n < 10 then UInt8.ofNat (48 + n) else UInt8.ofNat (87 + n)

def hexValue (b : UInt8) : Option ℕ :=
  if 48 ≤ b ∧ b ≤ 57 then some (b.toNat - 48)
  else if 97 ≤ b ∧ b ≤ 102 then some (b.toNat - 87)
  else if 65 ≤ b ∧ b ≤ 70 then some (b.toNat - 55)
  else none

/-- The escapes of one letter: quote, backslash, `\b`, `\f`, `\n`, `\r`, `\t`. -/
def letters : List (ℕ × UInt8) :=
  [(34, 34), (92, 92), (8, 98), (12, 102), (10, 110), (13, 114), (9, 116)]

/-- The four digits of `\uXXXX`. -/
def hexDigits (n : ℕ) : List UInt8 :=
  [hexDigit (n / 4096 % 16), hexDigit (n / 256 % 16), hexDigit (n / 16 % 16), hexDigit (n % 16)]

/-- The characters written as `\uXXXX`: control characters, `&`, `<`, `>` and
the line separators. -/
def marked (c : Char) : Bool := c.toNat < 0x20 || [0x26, 0x3c, 0x3e, 0x2028, 0x2029].contains c.toNat

/-- A character of a literal. -/
def escape (c : Char) : List UInt8 :=
  match letters.lookup c.toNat with
  | some b => [92, b]
  | none => if marked c then 92 :: 117 :: hexDigits c.toNat else String.utf8EncodeChar c

/-- The character of an escape of one letter, one of those above or `\/`. -/
def unescape (b : UInt8) : Option Char :=
  ((47, 47) :: letters).findSome? fun p => if p.2 = b then some (Char.ofNat p.1) else none

def readHex : List UInt8 → Option (ℕ × List UInt8)
  | a :: b :: c :: d :: rest =>
    match hexValue a, hexValue b, hexValue c, hexValue d with
    | some a, some b, some c, some d => some (((a * 16 + b) * 16 + c) * 16 + d, rest)
    | _, _, _, _ => none
  | _ => none

/-- U+FFFD, for what is not a character. -/
def replacement : Char := Char.ofNat 0xfffd

/-- The character of `\uXXXX`, or of two of them that are a pair of
surrogates. -/
def readUnicode (bytes : List UInt8) : Option (Char × List UInt8) :=
  match readHex bytes with
  | none => none
  | some (n, rest) =>
    if 0xd800 ≤ n ∧ n < 0xe000 then
      match rest with
      | 92 :: 117 :: rest' =>
        match readHex rest' with
        | some (m, rest'') =>
          if n < 0xdc00 ∧ 0xdc00 ≤ m ∧ m < 0xe000 then
            some (Char.ofNat (0x10000 + (n - 0xd800) * 0x400 + (m - 0xdc00)), rest'')
          else some (replacement, rest)
        | none => none
      | _ => some (replacement, rest)
    else some (Char.ofNat n, rest)

/-- The first character of what is left of a literal. -/
def readChar (bytes : List UInt8) : Option (Char × List UInt8) :=
  match bytes with
  | [] => none
  | b :: rest =>
    if b = 92 then
      match rest with
      | [] => none
      | e :: rest => if e = 117 then readUnicode rest else (unescape e).map (·, rest)
    else
      match bytes.toByteArray.utf8DecodeChar? 0 with
      | some c => some (c, bytes.drop c.utf8Size)
      | none => some (replacement, rest)

theorem hexValue_hexDigit : ∀ n < 16, hexValue (hexDigit n) = some n := by decide

theorem readHex_hexDigits {n : ℕ} (h : n < 65536) (rest : List UInt8) :
    readHex (hexDigits n ++ rest) = some (n, rest) := by
  have hmod : ∀ m, hexValue (hexDigit (m % 16)) = some (m % 16) := fun m =>
    hexValue_hexDigit _ (Nat.mod_lt _ (by decide))
  simp only [hexDigits, readHex, List.cons_append, List.nil_append, hmod]
  congr 2
  omega

theorem marked_lt {c : Char} (h : marked c = true) : c.toNat < 0xd800 := by
  simp only [marked, Bool.or_eq_true, decide_eq_true_eq, List.contains_iff_mem, List.mem_cons,
    List.not_mem_nil, or_false] at h
  omega

theorem mem_letters {n : ℕ} {b : UInt8} (h : letters.lookup n = some b) : (n, b) ∈ letters := by
  obtain ⟨l₁, l₂, heq, -⟩ := List.lookup_eq_some_iff.mp h
  rw [heq]
  simp

theorem unescape_of_lookup {c : Char} {b : UInt8} (h : letters.lookup c.toNat = some b) :
    b ≠ 117 ∧ unescape b = some c := by
  have hall : ∀ p ∈ letters, p.2 ≠ 117 ∧ unescape p.2 = some (Char.ofNat p.1) := by decide
  obtain ⟨hne, hun⟩ := hall _ (mem_letters h)
  exact ⟨hne, by rw [hun, Char.ofNat_toNat]⟩

theorem ofNat_plain {n : ℕ} (hn : n < 256) (h1 : n ≠ 34) (h2 : n ≠ 92) (h3 : 32 ≤ n) :
    UInt8.ofNat n ≠ 34 ∧ UInt8.ofNat n ≠ 92 ∧ 32 ≤ UInt8.ofNat n := by
  have hto : (UInt8.ofNat n).toNat = n := by rw [UInt8.toNat_ofNat', Nat.mod_eq_of_lt hn]
  refine ⟨fun h => h1 ?_, fun h => h2 ?_, ?_⟩
  · rw [← hto, h]
    rfl
  · rw [← hto, h]
    rfl
  · rw [UInt8.le_iff_toNat_le, hto]
    exact h3

theorem high_plain {n : ℕ} (h : 128 ≤ n) (hn : n < 256) :
    UInt8.ofNat n ≠ 34 ∧ UInt8.ofNat n ≠ 92 ∧ 32 ≤ UInt8.ofNat n :=
  ofNat_plain hn (by omega) (by omega) (by omega)

/-- The bytes of a character that has no escape. -/
theorem utf8_plain {c : Char} (h : letters.lookup c.toNat = none) (hm : marked c = false) :
    ∀ x ∈ String.utf8EncodeChar c, x ≠ 34 ∧ x ≠ 92 ∧ 32 ≤ x := by
  have hne : c.toNat ≠ 34 ∧ c.toNat ≠ 92 := by
    constructor
    · intro hc
      rw [hc] at h
      cases h
    · intro hc
      rw [hc] at h
      cases h
  have hlow : 32 ≤ c.toNat := by
    by_contra hlt
    rw [marked, decide_eq_true (Nat.lt_of_not_le hlt)] at hm
    cases hm
  have hv : c.val.toNat = c.toNat := rfl
  unfold String.utf8EncodeChar
  simp only [hv]
  split_ifs <;> simp only [List.forall_mem_cons, List.not_mem_nil, false_imp_iff, implies_true, and_true]
  · exact ofNat_plain (by omega) hne.1 hne.2 hlow
  -- a longer character has no byte under 128
  · exact ⟨high_plain (by omega) (by omega), high_plain (by omega) (by omega)⟩
  · exact ⟨high_plain (by omega) (by omega), high_plain (by omega) (by omega),
      high_plain (by omega) (by omega)⟩
  · exact ⟨high_plain (by omega) (by omega), high_plain (by omega) (by omega),
      high_plain (by omega) (by omega), high_plain (by omega) (by omega)⟩

/-- A character is read as it was written. -/
theorem readChar_escape (c : Char) (rest : List UInt8) :
    readChar (escape c ++ rest) = some (c, rest) := by
  unfold escape
  split
  · rename_i b hb
    obtain ⟨hne, hun⟩ := unescape_of_lookup hb
    simp [readChar, hne, hun]
  · rename_i hnone
    by_cases hm : marked c = true
    · have hlt := marked_lt hm
      rw [if_pos hm]
      simp only [List.cons_append, readChar, readUnicode]
      rw [readHex_hexDigits (by omega)]
      simp only [if_true]
      rw [if_neg (by omega), Char.ofNat_toNat]
    · rw [if_neg hm]
      have hdec : (String.utf8EncodeChar c ++ rest).toByteArray.utf8DecodeChar? 0 = some c := by
        rw [List.toByteArray_append]
        exact ByteArray.utf8DecodeChar?_utf8EncodeChar_append
      have hplain := utf8_plain hnone (Bool.not_eq_true _ ▸ hm)
      have hlen := String.length_utf8EncodeChar c
      cases hb : String.utf8EncodeChar c with
      | nil =>
        rw [hb] at hlen
        exact absurd hlen.symm c.utf8Size_pos.ne'
      | cons b bs =>
        rw [hb] at hdec hplain hlen
        have hb' := (hplain b List.mem_cons_self).2.1
        rw [List.cons_append] at hdec ⊢
        simp only [readChar, if_neg hb', hdec]
        rw [← hlen, ← List.cons_append, List.drop_left]

/-! ### Literals -/

/-- The inside of a literal. -/
def body (s : String) : List UInt8 := s.toList.flatMap escape

/-- A string as a literal. -/
def quote (s : String) : List UInt8 := 34 :: (body s ++ [34])

/-- The characters up to the quote that ends a literal, and what follows. -/
def readBody : ℕ → List UInt8 → Option (List Char × List UInt8)
  | 0, _ => none
  | _ + 1, [] => none
  | n + 1, b :: bytes =>
    if b = 34 then some ([], bytes)
    else
      match readChar (b :: bytes) with
      | none => none
      | some (c, rest) => (readBody n rest).map fun r => (c :: r.1, r.2)

theorem escape_ne_nil (c : Char) : escape c ≠ [] := by
  intro h
  have := readChar_escape c []
  rw [h] at this
  cases this

theorem escape_head {c : Char} {b : UInt8} {bs : List UInt8} (h : escape c = b :: bs) : b ≠ 34 := by
  unfold escape at h
  split at h
  · rw [← (List.cons.inj h).1]
    decide
  · rename_i hnone
    split_ifs at h with hm
    · rw [← (List.cons.inj h).1]
      decide
    · refine (utf8_plain hnone (Bool.not_eq_true _ ▸ hm) b ?_).1
      rw [h]
      exact List.mem_cons_self

theorem readBody_escape (n : ℕ) (c : Char) (rest : List UInt8) :
    readBody (n + 1) (escape c ++ rest) = (readBody n rest).map fun r => (c :: r.1, r.2) := by
  cases he : escape c with
  | nil => exact absurd he (escape_ne_nil c)
  | cons b bs =>
    have hread := readChar_escape c rest
    rw [he, List.cons_append] at hread
    rw [List.cons_append, readBody, if_neg (escape_head he), hread]

theorem readBody_flatMap : ∀ (cs : List Char) (n : ℕ) (rest : List UInt8), cs.length < n →
    readBody n (cs.flatMap escape ++ 34 :: rest) = some (cs, rest)
  | [], n + 1, rest, _ => by simp [readBody]
  | c :: cs, n + 1, rest, h => by
    rw [List.flatMap_cons, List.append_assoc, readBody_escape,
      readBody_flatMap cs n rest (Nat.lt_of_succ_lt_succ h)]
    rfl

theorem length_le_body (s : String) : s.toList.length ≤ (body s).length := by
  unfold body
  induction s.toList with
  | nil => exact Nat.le_refl _
  | cons c cs ih =>
    have hpos := List.length_pos_iff.mpr (escape_ne_nil c)
    rw [List.flatMap_cons, List.length_append, List.length_cons]
    omega

/-- A literal is read as it was written. -/
theorem readBody_body (s : String) (rest : List UInt8) :
    readBody (body s ++ 34 :: rest).length (body s ++ 34 :: rest) = some (s.toList, rest) := by
  refine readBody_flatMap s.toList _ rest ?_
  have := length_le_body s
  rw [List.length_append, List.length_cons]
  omega

end Json
end Lib
end Revquic
