/-
# Addresses, as `net/netip` has them

`netip.Addr` is the zero value, an IPv4 or an IPv6 address; the addresses
here carry no zone (`ParsePrefix` refuses one, and no other source of an
address in this program has one). `netip.Prefix` is a valid address with a
length of at most its width. `ParseAddr` is modelled on dotted quads, the
only texts the broker writes into `ClientIP`: its prefix is IPv4.

Key definitions: `Addr`, `Prefix`, `Addr.string`, `parseAddr`.
Key theorem: `parseAddr_string_v4`.
-/
import Mathlib.Tactic

namespace Revquic
namespace Netip

/-- `netip.Addr`. -/
inductive Addr
  | zero
  | v4 (a : BitVec 32)
  | v6 (a : BitVec 128)
  deriving DecidableEq

namespace Addr

/-- `Addr.IsValid`: not the zero value. -/
def isValid : Addr → Bool
  | zero => false
  | _ => true

/-- `Addr.Is4`. -/
def is4 : Addr → Bool
  | v4 _ => true
  | _ => false

/-- `Addr.BitLen`. -/
def bitLen : Addr → ℕ
  | zero => 0
  | v4 _ => 32
  | v6 _ => 128

/-- `Addr.Next`: the successor, or the zero value after the last address. -/
def next : Addr → Addr
  | zero => zero
  | v4 a => if a = BitVec.allOnes 32 then zero else v4 (a + 1)
  | v6 a => if a = BitVec.allOnes 128 then zero else v6 (a + 1)

end Addr

/-- `netip.Prefix`, as `ParsePrefix` returns one. -/
structure Prefix where
  addr : Addr
  bits : ℕ
  valid : addr.isValid = true
  bits_le : bits ≤ addr.bitLen

namespace Prefix

/-- `Prefix.Masked`: the host bits of the address cleared. -/
def masked (p : Prefix) : Prefix :=
  match p with
  | ⟨.zero, _, h, _⟩ => absurd h (by decide)
  | ⟨.v4 a, n, _, h⟩ => ⟨.v4 (a >>> (32 - n) <<< (32 - n)), n, rfl, h⟩
  | ⟨.v6 a, n, _, h⟩ => ⟨.v6 (a >>> (128 - n) <<< (128 - n)), n, rfl, h⟩

/-- `Prefix.Contains`: an address of the same family with the same network
bits. -/
def contains (p : Prefix) : Addr → Bool
  | .zero => false
  | .v4 a => match p.addr with
    | .v4 n => a >>> (32 - p.bits) = n >>> (32 - p.bits)
    | _ => false
  | .v6 a => match p.addr with
    | .v6 n => a >>> (128 - p.bits) = n >>> (128 - p.bits)
    | _ => false

end Prefix

/-! ### Text -/

/-- Byte `i` of an IPv4 address, the most significant first. -/
def byte4 (a : BitVec 32) (i : ℕ) : ℕ := a.toNat / 2 ^ (8 * (3 - i)) % 256

/-- `netip.AddrFrom4`. -/
def addrFrom4 (b0 b1 b2 b3 : UInt8) : Addr :=
  .v4 (BitVec.ofNat 32 (((b0.toNat * 256 + b1.toNat) * 256 + b2.toNat) * 256 + b3.toNat))

/-- The dotted quad of an IPv4 address. -/
def string4 (a : BitVec 32) : List Char :=
  ['.'].intercalate ((List.range 4).map fun i => Nat.toDigits 10 (byte4 a i))

/-- Group `i` of an IPv6 address, the most significant first. -/
def v6u16 (a : BitVec 128) (i : ℕ) : ℕ := a.toNat / 2 ^ (16 * (7 - i)) % 65536

/-- The run of zero groups from group `i` on. -/
def zeroRun (a : BitVec 128) (i : ℕ) : ℕ :=
  (((List.range 8).drop i).takeWhile fun j => v6u16 a j = 0).length

/-- The first longest run of two or more zero groups, as start and end, or
`(8, 8)`. -/
def zeroSpan (a : BitVec 128) : ℕ × ℕ :=
  (List.range 8).foldl (fun best i =>
    if 2 ≤ zeroRun a i ∧ best.2 - best.1 < zeroRun a i then (i, i + zeroRun a i) else best) (8, 8)

/-- The canonical text of an IPv6 address: the longest zero run as `::`. -/
def string6 (a : BitVec 128) : List Char :=
  let (zs, ze) := zeroSpan a
  let hex := fun i => Nat.toDigits 16 (v6u16 a i)
  let head := [':'].intercalate ((List.range zs).map hex)
  if zs = 8 then head
  else head ++ [':', ':'] ++ [':'].intercalate (((List.range 8).drop ze).map hex)

/-- `Addr.String`. -/
def Addr.string : Addr → String
  | .zero => "invalid IP"
  | .v4 a => String.ofList (string4 a)
  | .v6 a =>
    -- an IPv4-mapped address is written with its dotted quad
    if a.toNat / 2 ^ 32 = 0xffff then
      "::ffff:" ++ String.ofList (string4 (BitVec.ofNat 32 a.toNat))
    else String.ofList (string6 a)

/-- One field of a dotted quad: one to three digits, no leading zero, at
most 255. -/
def parseField (f : List Char) : Option ℕ :=
  let n := f.foldl (fun acc d => acc * 10 + (d.toNat - '0'.toNat)) 0
  if f ≠ [] ∧ f.length ≤ 3 ∧ f.all Char.isDigit ∧ (f.head? = some '0' → f.length = 1) ∧ n ≤ 255
  then some n else none

/-- `netip.ParseAddr` on dotted quads. -/
def parseAddr (s : String) : Option Addr :=
  match (s.toList.splitOn '.').mapM parseField with
  | some [a, b, c, d] => some (.v4 (BitVec.ofNat 32 (((a * 256 + b) * 256 + c) * 256 + d)))
  | _ => none

theorem parseField_toDigits {n : ℕ} (h : n < 256) :
    parseField (Nat.toDigits 10 n) = some n ∧ '.' ∉ Nat.toDigits 10 n := by
  have : ∀ m : Fin 256, parseField (Nat.toDigits 10 m) = some m.val ∧ '.' ∉ Nat.toDigits 10 m.val := by
    decide +kernel
  exact this ⟨n, h⟩

theorem byte4_lt (a : BitVec 32) (i : ℕ) : byte4 a i < 256 := Nat.mod_lt _ (by decide)

theorem bytes4 (a : BitVec 32) :
    ((byte4 a 0 * 256 + byte4 a 1) * 256 + byte4 a 2) * 256 + byte4 a 3 = a.toNat := by
  have := a.isLt
  simp only [byte4]
  omega

theorem splitOn_string4 (a : BitVec 32) :
    (string4 a).splitOn '.' = (List.range 4).map fun i => Nat.toDigits 10 (byte4 a i) := by
  refine List.splitOn_intercalate '.' (fun l hl => ?_) (by simp)
  obtain ⟨i, -, rfl⟩ := List.mem_map.mp hl
  exact (parseField_toDigits (byte4_lt a i)).2

/-- `ParseAddr` reads back what `String` writes for an IPv4 address. -/
theorem parseAddr_string_v4 (a : BitVec 32) : parseAddr (Addr.string (.v4 a)) = some (.v4 a) := by
  have hf := fun i => (parseField_toDigits (byte4_lt a i)).1
  simp only [parseAddr, Addr.string, String.toList_ofList, splitOn_string4]
  simp [List.range_succ, hf, bytes4]

end Netip
end Revquic
