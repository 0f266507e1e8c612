/-
# Big-endian numbers of a fixed width

`put n v` writes `v` in `n` bytes, the most significant first, and `get`
reads a number back. They are inverse to each other between the numbers below
`256 ^ n` and the byte strings of length `n`; of a larger number the last `n`
bytes remain.

Key definitions: `put`, `get`.
Key theorems: `get_put`, `get_put_of_lt`, `put_get`, `get_lt`.
-/
import Mathlib.Data.List.Basic
import Mathlib.Data.List.Induction
import Mathlib.Tactic

namespace Revquic
namespace Lib
namespace BigEndian

def put (n v : ℕ) : List UInt8 := (List.range n).map fun i => UInt8.ofNat (v / 256 ^ (n - 1 - i))

def get (b : List UInt8) : ℕ := b.foldl (fun acc x => acc * 256 + x.toNat) 0

theorem length_put (n v : ℕ) : (put n v).length = n := by
  rw [put, List.length_map, List.length_range]

/-- The last byte stands behind what is left of the number without it. -/
theorem put_succ (n v : ℕ) : put (n + 1) v = put n (v / 256) ++ [UInt8.ofNat v] := by
  unfold put
  rw [List.range_succ, List.map_append]
  congr 1
  · apply List.map_congr_left
    intro i hi
    have hexp : n + 1 - 1 - i = n - 1 - i + 1 := by
      have := List.mem_range.mp hi
      omega
    rw [hexp, Nat.pow_succ', Nat.div_div_eq_div_mul]
  · simp

theorem get_concat (b : List UInt8) (x : UInt8) : get (b ++ [x]) = get b * 256 + x.toNat := by
  rw [get, List.foldl_append]
  rfl

theorem get_put (n v : ℕ) : get (put n v) = v % 256 ^ n := by
  induction n generalizing v with
  | zero => rw [Nat.pow_zero, Nat.mod_one]; rfl
  | succ n ih =>
    have hsplit : v % 256 ^ (n + 1) = v % 256 + 256 * (v / 256 % 256 ^ n) := by
      rw [Nat.pow_succ', Nat.mod_mul]
    rw [put_succ, get_concat, ih, UInt8.toNat_ofNat', hsplit]
    omega

theorem get_put_of_lt {n v : ℕ} (h : v < 256 ^ n) : get (put n v) = v := by
  rw [get_put, Nat.mod_eq_of_lt h]

theorem get_lt (b : List UInt8) : get b < 256 ^ b.length := by
  induction b using List.reverseRecOn with
  | nil => exact Nat.one_pos
  | append_singleton b x ih =>
    have hx := x.toNat_lt
    rw [get_concat, List.length_append, List.length_singleton, Nat.pow_succ]
    omega

theorem put_get (b : List UInt8) : put b.length (get b) = b := by
  induction b using List.reverseRecOn with
  | nil => rfl
  | append_singleton b x ih =>
    have hx := x.toNat_lt
    have hdiv : (get b * 256 + x.toNat) / 256 = get b := by omega
    have hmod : UInt8.ofNat (get b * 256 + x.toNat) = x := by
      apply UInt8.toNat_inj.mp
      rw [UInt8.toNat_ofNat']
      omega
    rw [List.length_append, List.length_singleton, put_succ, get_concat, hdiv, hmod, ih]

end BigEndian
end Lib
end Revquic
