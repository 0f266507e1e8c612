/-
# Decoding UTF-8 in pieces

`TextDecoder` of the web platform, called with `stream: true`: a machine that
takes one byte at a time and keeps what it has of a character between calls.
Bytes that are no UTF-8 become U+FFFD, and a byte order mark at the start of
the stream is dropped.

Key definitions: `Decoder`, `TextDecoder`, `TextDecoder.decode`.
Key theorems: `TextDecoder.decode_append`, `TextDecoder.decode_utf8`.
-/
import Mathlib.Data.List.Basic

namespace Revquic
namespace Lib

/-- The state of the decoder: the bits of the character so far, its bytes
seen and those still needed behind the first, and the range of the next. -/
structure Decoder where
  point : ℕ := 0
  seen : ℕ := 0
  needed : ℕ := 0
  lower : ℕ := 0x80
  upper : ℕ := 0xbf
  deriving DecidableEq

namespace Decoder

def replacement : Char := Char.ofNat 0xfffd

/-- A byte between characters. -/
def first (b : ℕ) : Decoder × List Char :=
  if b ≤ 0x7f then ({}, [Char.ofNat b])
  else if 0xc2 ≤ b ∧ b ≤ 0xdf then ({ needed := 1, point := b % 32 }, [])
  else if 0xe0 ≤ b ∧ b ≤ 0xef then
    ({ needed := 2
       point := b % 16
       lower := if b = 0xe0 then 0xa0 else 0x80
       upper := if b = 0xed then 0x9f else 0xbf }, [])
  else if 0xf0 ≤ b ∧ b ≤ 0xf4 then
    ({ needed := 3
       point := b % 8
       lower := if b = 0xf0 then 0x90 else 0x80
       upper := if b = 0xf4 then 0x8f else 0xbf }, [])
  else ({}, [replacement])

/-- One byte, and the characters it completes. A byte that does not continue
the character is taken again as the first of another. -/
def next (d : Decoder) (b : ℕ) : Decoder × List Char :=
  if d.needed = 0 then first b
  else if b < d.lower ∨ d.upper < b then ((first b).1, replacement :: (first b).2)
  else if d.seen + 1 = d.needed then ({}, [Char.ofNat (d.point * 64 + b % 64)])
  else ({ d with point := d.point * 64 + b % 64, seen := d.seen + 1, lower := 0x80, upper := 0xbf }, [])

/-- The bytes of a piece. -/
def decode : Decoder → List UInt8 → Decoder × List Char
  | d, [] => (d, [])
  | d, b :: bytes =>
    ((decode (d.next b.toNat).1 bytes).1, (d.next b.toNat).2 ++ (decode (d.next b.toNat).1 bytes).2)

theorem decode_append : ∀ (d : Decoder) (xs ys : List UInt8),
    d.decode (xs ++ ys) = (((d.decode xs).1.decode ys).1, (d.decode xs).2 ++ ((d.decode xs).1.decode ys).2)
  | d, [], ys => rfl
  | d, x :: xs, ys => by
    rw [List.cons_append, decode, decode_append (d.next x.toNat).1 xs ys, decode, List.append_assoc]

theorem toNat_ofNat {n : ℕ} (h : n < 256) : (UInt8.ofNat n).toNat = n := by
  rw [UInt8.toNat_ofNat', Nat.mod_eq_of_lt h]

/-! ### The first byte of a character, by its length -/

theorem first_two {x : ℕ} (hlo : 2 ≤ x) (hhi : x < 32) :
    first (x + 192) = ({ needed := 1, point := x }, []) := by
  have hmod : (x + 192) % 32 = x := by omega
  rw [first, if_neg (by omega), if_pos (by omega), hmod]

theorem first_three {x : ℕ} (h : x < 16) : first (x + 224) =
    ({ needed := 2
       point := x
       lower := if x = 0 then 0xa0 else 0x80
       upper := if x = 13 then 0x9f else 0xbf }, []) := by
  have hmod : (x + 224) % 16 = x := by omega
  have hlo : (x + 224 = 0xe0) = (x = 0) := propext (by omega)
  have hhi : (x + 224 = 0xed) = (x = 13) := propext (by omega)
  rw [first, if_neg (by omega), if_neg (by omega), if_pos (by omega), hmod]
  simp only [hlo, hhi]

theorem first_four {x : ℕ} (h : x ≤ 4) : first (x + 240) =
    ({ needed := 3
       point := x
       lower := if x = 0 then 0x90 else 0x80
       upper := if x = 4 then 0x8f else 0xbf }, []) := by
  have hmod : (x + 240) % 8 = x := by omega
  have hlo : (x + 240 = 0xf0) = (x = 0) := propext (by omega)
  have hhi : (x + 240 = 0xf4) = (x = 4) := propext (by omega)
  rw [first, if_neg (by omega), if_neg (by omega), if_neg (by omega), if_pos (by omega), hmod]
  simp only [hlo, hhi]

/-! ### The bytes behind it -/

theorem next_more {d : Decoder} {y : ℕ} (hy : y < 64) (hneeded : d.seen + 1 < d.needed)
    (hlo : d.lower ≤ y + 128) (hhi : y + 128 ≤ d.upper) : d.next (y + 128) =
    ({ d with point := d.point * 64 + y, seen := d.seen + 1, lower := 0x80, upper := 0xbf }, []) := by
  have hmod : (y + 128) % 64 = y := by omega
  rw [next, if_neg (by omega), if_neg (by omega), if_neg (by omega), hmod]

theorem next_last {d : Decoder} {y : ℕ} (hy : y < 64) (hneeded : d.seen + 1 = d.needed)
    (hlo : d.lower ≤ y + 128) (hhi : y + 128 ≤ d.upper) :
    d.next (y + 128) = ({}, [Char.ofNat (d.point * 64 + y)]) := by
  have hmod : (y + 128) % 64 = y := by omega
  rw [next, if_neg (by omega), if_neg (by omega), if_pos hneeded, hmod]

theorem next_first (b : ℕ) : next {} b = first b := if_pos rfl

theorem decode_two {x y : ℕ} (hlo : 2 ≤ x) (hx : x < 32) (hy : y < 64) :
    decode {} [UInt8.ofNat (x + 192), UInt8.ofNat (y + 128)] = ({}, [Char.ofNat (x * 64 + y)]) := by
  have hlast := next_last (d := { needed := 1, point := x }) hy rfl (Nat.le_add_left _ _)
    (by dsimp only; omega)
  simp only [decode, toNat_ofNat (show x + 192 < 256 by omega), toNat_ofNat (show y + 128 < 256 by omega),
    next_first, first_two hlo hx, hlast, List.nil_append, List.append_nil]

theorem decode_three {x y z : ℕ} (hx : x < 16) (hy : y < 64) (hz : z < 64) (hlo : x = 0 → 32 ≤ y)
    (hhi : x = 13 → y < 32) :
    decode {} [UInt8.ofNat (x + 224), UInt8.ofNat (y + 128), UInt8.ofNat (z + 128)] =
      ({}, [Char.ofNat ((x * 64 + y) * 64 + z)]) := by
  have hmore := next_more (d := (first (x + 224)).1) hy (by rw [first_three hx]; simp)
    (by rw [first_three hx]; dsimp only; split_ifs <;> omega)
    (by rw [first_three hx]; dsimp only; split_ifs <;> omega)
  rw [first_three hx] at hmore
  have hlast := next_last (d := { needed := 2, point := x * 64 + y, seen := 1 }) hz rfl
    (Nat.le_add_left _ _) (by dsimp only; omega)
  simp only [decode, toNat_ofNat (show x + 224 < 256 by omega), toNat_ofNat (show y + 128 < 256 by omega),
    toNat_ofNat (show z + 128 < 256 by omega), next_first, first_three hx, hmore, Nat.zero_add, hlast,
    List.nil_append, List.append_nil]

theorem decode_four {x y z w : ℕ} (hx : x ≤ 4) (hy : y < 64) (hz : z < 64) (hw : w < 64)
    (hlo : x = 0 → 16 ≤ y) (hhi : x = 4 → y < 16) :
    decode {} [UInt8.ofNat (x + 240), UInt8.ofNat (y + 128), UInt8.ofNat (z + 128), UInt8.ofNat (w + 128)] =
      ({}, [Char.ofNat (((x * 64 + y) * 64 + z) * 64 + w)]) := by
  have hmore := next_more (d := (first (x + 240)).1) hy (by rw [first_four hx]; simp)
    (by rw [first_four hx]; dsimp only; split_ifs <;> omega)
    (by rw [first_four hx]; dsimp only; split_ifs <;> omega)
  rw [first_four hx] at hmore
  have hmore' := next_more (d := { needed := 3, point := x * 64 + y, seen := 1 }) hz (by simp)
    (Nat.le_add_left _ _) (by dsimp only; omega)
  have hlast := next_last (d := { needed := 3, point := (x * 64 + y) * 64 + z, seen := 2 }) hw rfl
    (Nat.le_add_left _ _) (by dsimp only; omega)
  simp only [decode, toNat_ofNat (show x + 240 < 256 by omega), toNat_ofNat (show y + 128 < 256 by omega),
    toNat_ofNat (show z + 128 < 256 by omega), toNat_ofNat (show w + 128 < 256 by omega), next_first,
    first_four hx, hmore, Nat.zero_add, hmore', Nat.reduceAdd, hlast, List.nil_append, List.append_nil]

/-- The UTF-8 of a character is decoded to the character. -/
theorem decode_char (c : Char) : decode {} (String.utf8EncodeChar c) = ({}, [c]) := by
  have hvalid : c.val.toNat < 55296 ∨ 57343 < c.val.toNat ∧ c.val.toNat < 1114112 := c.valid
  have hchar : ∀ n, n = c.val.toNat → Char.ofNat n = c := by
    rintro n rfl
    exact Char.ofNat_toNat c
  unfold String.utf8EncodeChar
  dsimp only
  generalize c.val.toNat = v at *
  split_ifs with h1 h2 h3
  · have hb : (UInt8.ofNat v).toNat = v := toNat_ofNat (by omega)
    rw [decode, decode, hb, next_first, first, if_pos h1, hchar v rfl]
    rfl
  · have hx : v / 64 % 32 = v / 64 := by omega
    rw [hx, decode_two (by omega) (by omega) (by omega), hchar _ (by omega)]
  · have hx : v / 4096 % 16 = v / 4096 := by omega
    rw [hx, decode_three (by omega) (by omega) (by omega) (by omega) (by omega), hchar _ (by omega)]
  · have hx : v / 262144 % 8 = v / 262144 := by omega
    rw [hx, decode_four (by omega) (by omega) (by omega) (by omega) (by omega) (by omega),
      hchar _ (by omega)]

theorem decode_text : ∀ text : List Char, decode {} (text.flatMap String.utf8EncodeChar) = ({}, text)
  | [] => rfl
  | c :: text => by
    rw [List.flatMap_cons, decode_append, decode_char, decode_text text, List.singleton_append]

end Decoder

/-- `TextDecoder`: the decoder, and whether the start of the stream is past. -/
structure TextDecoder where
  utf8 : Decoder := {}
  bomSeen : Bool := false

namespace TextDecoder

def bom : Char := Char.ofNat 0xfeff

/-- The characters without a byte order mark at their start. -/
def dropBom : List Char → List Char
  | [] => []
  | c :: text => if c = bom then text else c :: text

/-- `decode` with `stream: true`. -/
def decode (t : TextDecoder) (bytes : List UInt8) : TextDecoder × List Char :=
  (⟨(t.utf8.decode bytes).1, t.bomSeen || !(t.utf8.decode bytes).2.isEmpty⟩,
    if t.bomSeen then (t.utf8.decode bytes).2 else dropBom (t.utf8.decode bytes).2)

/-- The pieces of a stream make no difference. -/
theorem decode_append (t : TextDecoder) (xs ys : List UInt8) :
    t.decode (xs ++ ys) =
      (((t.decode xs).1.decode ys).1, (t.decode xs).2 ++ ((t.decode xs).1.decode ys).2) := by
  obtain ⟨utf8, bomSeen⟩ := t
  simp only [decode, Decoder.decode_append]
  cases bomSeen with
  | true => simp
  | false =>
    cases hx : (utf8.decode xs).2 with
    | nil => simp [dropBom]
    | cons c text =>
      by_cases hc : c = bom
      · simp [dropBom, hc]
      · simp [dropBom, hc]

/-- The UTF-8 of a text without a byte order mark is decoded to the text. -/
theorem decode_utf8 {text : List Char} (h : text.head? ≠ some bom) :
    (decode {} (text.flatMap String.utf8EncodeChar)).2 = text := by
  simp only [decode, Decoder.decode_text, Bool.false_eq_true, if_false]
  cases text with
  | nil => rfl
  | cons c text => exact if_neg fun hc => h (by rw [hc]; rfl)

end TextDecoder
end Lib
end Revquic
