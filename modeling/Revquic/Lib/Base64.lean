/-
# Base64 without padding

Three bytes are written as four digits of six bits; one or two bytes at the
end as two or three digits, with no padding behind them. A decoder skips line
breaks and does not look at the bits a last digit has too many.

Key definitions: `Base64`, `encode`, `decode`.
Key theorems: `decode_encode`, `mem_encode`.
-/
import Mathlib.Data.List.Basic
import Mathlib.Tactic

namespace Revquic
namespace Lib

/-- The 64 digits; a line break is none of them. -/
structure Base64 where
  digits : List Char
  length_digits : digits.length = 64
  nodup : digits.Nodup
  noBreak : '\n' ∉ digits ∧ '\r' ∉ digits

namespace Base64

variable (A : Base64)

def digit (n : ℕ) : Char := A.digits[n]?.getD 'A'

/-- The digits of a sequence of bytes, as numbers. -/
def toDigits : List UInt8 → List ℕ
  | [] => []
  | [a] => [a.toNat / 4, a.toNat % 4 * 16]
  | [a, b] => [a.toNat / 4, a.toNat % 4 * 16 + b.toNat / 16, b.toNat % 16 * 4]
  | a :: b :: c :: rest =>
    a.toNat / 4 :: (a.toNat % 4 * 16 + b.toNat / 16) :: (b.toNat % 16 * 4 + c.toNat / 64) ::
      c.toNat % 64 :: toDigits rest

def encode (bytes : List UInt8) : List Char := (toDigits bytes).map A.digit

/-- The bytes of a sequence of digits. A single digit at the end is too few
for a byte. -/
def ofDigits : List ℕ → Option (List UInt8)
  | [] => some []
  | [_] => none
  | [x, y] => some [UInt8.ofNat (x * 4 + y / 16)]
  | [x, y, z] => some [UInt8.ofNat (x * 4 + y / 16), UInt8.ofNat (y % 16 * 16 + z / 4)]
  | x :: y :: z :: w :: rest =>
    (ofDigits rest).map fun bytes =>
      UInt8.ofNat (x * 4 + y / 16) :: UInt8.ofNat (y % 16 * 16 + z / 4) ::
        UInt8.ofNat (z % 4 * 64 + w) :: bytes

def isBreak (c : Char) : Bool := c = '\n' || c = '\r'

def decode (text : List Char) : Option (List UInt8) :=
  ((text.filter fun c => !isBreak c).mapM fun c => A.digits.idxOf? c).bind ofDigits

variable {A}

theorem idxOf?_digit {n : ℕ} (h : n < 64) : A.digits.idxOf? (A.digit n) = some n := by
  have hlt : n < A.digits.length := by rw [A.length_digits]; exact h
  rw [digit, List.getElem?_eq_getElem hlt, Option.getD_some, List.idxOf?_eq_some_iff]
  refine ⟨hlt, rfl, fun m hm heq => ?_⟩
  have := (List.getElem_inj A.nodup).mp heq
  omega

theorem digit_mem {n : ℕ} (h : n < 64) : A.digit n ∈ A.digits := by
  rw [← List.isSome_idxOf?, idxOf?_digit h]
  rfl

theorem toDigits_lt (bytes : List UInt8) : ∀ n ∈ toDigits bytes, n < 64 := by
  have hlt : ∀ b : UInt8, b.toNat < 256 := UInt8.toNat_lt
  fun_induction toDigits bytes with
  | case1 => simp
  | case2 a =>
    have := hlt a
    simp only [List.forall_mem_cons, List.not_mem_nil, false_implies, implies_true, and_true]
    omega
  | case3 a b =>
    have := hlt a
    have := hlt b
    simp only [List.forall_mem_cons, List.not_mem_nil, false_implies, implies_true, and_true]
    omega
  | case4 a b c rest ih =>
    have := hlt a
    have := hlt b
    have := hlt c
    simp only [List.forall_mem_cons]
    exact ⟨by omega, by omega, by omega, by omega, ih⟩

theorem ofDigits_toDigits (bytes : List UInt8) : ofDigits (toDigits bytes) = some bytes := by
  have hbyte : ∀ (b : UInt8) (n : ℕ), n = b.toNat → UInt8.ofNat n = b := fun b n h => by
    rw [h, UInt8.ofNat_toNat]
  have hlt : ∀ b : UInt8, b.toNat < 256 := UInt8.toNat_lt
  fun_induction toDigits bytes with
  | case1 => rfl
  | case2 a =>
    have := hlt a
    rw [ofDigits, hbyte a _ (by omega)]
  | case3 a b =>
    have := hlt a
    have := hlt b
    rw [ofDigits, hbyte a _ (by omega), hbyte b _ (by omega)]
  | case4 a b c rest ih =>
    have := hlt a
    have := hlt b
    have := hlt c
    rw [ofDigits, ih, Option.map_some, hbyte a _ (by omega), hbyte b _ (by omega),
      hbyte c _ (by omega)]

theorem mem_encode {bytes : List UInt8} {c : Char} (h : c ∈ A.encode bytes) : c ∈ A.digits := by
  obtain ⟨n, hn, rfl⟩ := List.mem_map.mp h
  exact digit_mem (toDigits_lt bytes n hn)

theorem not_isBreak {c : Char} (h : c ∈ A.digits) : isBreak c = false := by
  have hn : c ≠ '\n' := fun e => A.noBreak.1 (e ▸ h)
  have hr : c ≠ '\r' := fun e => A.noBreak.2 (e ▸ h)
  simp [isBreak, hn, hr]

theorem mapM_idxOf?_digit : ∀ {ns : List ℕ}, (∀ n ∈ ns, n < 64) →
    (ns.map A.digit).mapM (fun c => A.digits.idxOf? c) = some ns
  | [], _ => rfl
  | n :: ns, h => by
    rw [List.forall_mem_cons] at h
    simp [idxOf?_digit h.1, mapM_idxOf?_digit h.2]

/-- What was written is read back. -/
theorem decode_encode (bytes : List UInt8) : A.decode (A.encode bytes) = some bytes := by
  have hfilter : (A.encode bytes).filter (fun c => !isBreak c) = A.encode bytes := by
    refine List.filter_eq_self.mpr fun c hc => ?_
    rw [not_isBreak (mem_encode hc), Bool.not_false]
  rw [decode, hfilter, encode, mapM_idxOf?_digit (toDigits_lt bytes), Option.bind_some,
    ofDigits_toDigits]

end Base64

/-! ### The alphabets -/

/-- `base64.RawStdEncoding`. -/
def Base64.rawStd : Base64 where
  digits := "ABCDEFGHIJKLMNOPQRSTUVWXYZabcdefghijklmnopqrstuvwxyz0123456789+/".toList
  length_digits := by decide +kernel
  nodup := by decide +kernel
  noBreak := by decide +kernel

/-- `base64.RawURLEncoding`. -/
def Base64.rawURL : Base64 where
  digits := "ABCDEFGHIJKLMNOPQRSTUVWXYZabcdefghijklmnopqrstuvwxyz0123456789-_".toList
  length_digits := by decide +kernel
  nodup := by decide +kernel
  noBreak := by decide +kernel

example : Base64.rawStd.decode "AQ\nID".toList = some [1, 2, 3] := by decide +kernel

end Lib
end Revquic
