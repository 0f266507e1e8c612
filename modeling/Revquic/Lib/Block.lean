/-
# Aligned blocks of machine words

The words that agree with a given one in all but the low `h` bits are `2 ^ h`
consecutive numbers, from a multiple of `2 ^ h` on.
-/
import Mathlib.Tactic

namespace Revquic
namespace Lib
namespace Block

variable {w h : ℕ} {a n : BitVec w}

/-- A word with its low bits cleared. -/
theorem toNat_clear (a : BitVec w) (h : ℕ) :
    (a >>> h <<< h).toNat = 2 ^ h * (a.toNat / 2 ^ h) := by
  rw [BitVec.toNat_shiftLeft, BitVec.toNat_ushiftRight, Nat.shiftRight_eq_div_pow, Nat.shiftLeft_eq,
    Nat.mul_comm]
  exact Nat.mod_eq_of_lt (Nat.lt_of_le_of_lt (Nat.mul_div_le _ _) a.isLt)

theorem dvd_toNat_clear (a : BitVec w) (h : ℕ) : 2 ^ h ∣ (a >>> h <<< h).toNat := by
  rw [toNat_clear]
  exact Nat.dvd_mul_right _ _

/-- The words of the block that starts at `n`. -/
theorem ushiftRight_eq_iff (hn : 2 ^ h ∣ n.toNat) :
    a >>> h = n >>> h ↔ n.toNat ≤ a.toNat ∧ a.toNat < n.toNat + 2 ^ h := by
  obtain ⟨q, hq⟩ := hn
  have hpos : 0 < 2 ^ h := Nat.two_pow_pos h
  rw [← BitVec.toNat_inj, BitVec.toNat_ushiftRight, BitVec.toNat_ushiftRight,
    Nat.shiftRight_eq_div_pow, Nat.shiftRight_eq_div_pow, hq, Nat.mul_div_cancel_left _ hpos,
    Nat.div_eq_iff hpos, Nat.mul_comm q]
  omega

/-- A block ends where the words end, or before. -/
theorem le_two_pow (hn : 2 ^ h ∣ n.toNat) (hw : h ≤ w) : n.toNat + 2 ^ h ≤ 2 ^ w := by
  have hdvd : 2 ^ h ∣ 2 ^ w := Nat.pow_dvd_pow 2 hw
  obtain ⟨q, hq⟩ := hn
  obtain ⟨r, hr⟩ := hdvd
  have hlt : q < r := by
    have := n.isLt
    rw [hq, hr] at this
    exact Nat.lt_of_mul_lt_mul_left this
  rw [hq, hr, ← Nat.mul_succ]
  exact Nat.mul_le_mul_left _ hlt

/-- The successor of a word that is not the last. -/
theorem toNat_succ (ha : a ≠ BitVec.allOnes w) : (a + 1).toNat = a.toNat + 1 := by
  have hne : a.toNat ≠ 2 ^ w - 1 := fun h => ha (BitVec.eq_of_toNat_eq (by rw [h, BitVec.toNat_allOnes]))
  have hlt := a.isLt
  have hone : (1 : BitVec w).toNat = 1 % 2 ^ w := BitVec.toNat_ofNat 1 w
  rw [BitVec.toNat_add, hone, Nat.add_mod_mod]
  exact Nat.mod_eq_of_lt (by omega)

end Block
end Lib
end Revquic
