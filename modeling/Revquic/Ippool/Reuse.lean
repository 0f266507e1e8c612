/-
# What the cursor has passed

The loop of `Allocate` starts at the cursor and leaves it behind the address
it hands out, so over many calls it walks round the hosts of the prefix, in
order and without a jump. A host that it passes was not free. When it comes
back to an address that it has handed out before, it has passed every other.

Key definitions: `turn`, `Walked`.
Key theorems: `allocate_passes`, `Walked.back`.
-/
import Mathlib.Dynamics.PeriodicPts.Defs
import Revquic.Ippool.Bound

namespace Revquic
namespace Ippool
namespace Pool

open Lib Netip

/-- From an address of the prefix to the next, from the last to the first
host. -/
def turn (p : Pool) (a : Addr) : Addr := p.wrap a.next

theorem turn_congr {p q : Pool} (h : q.pfx = p.pfx) : q.turn = p.turn := by
  funext a
  simp only [turn, wrap, h]

section
variable {p p' : Pool} {a x y : Addr}

/-- A search along a walk. -/
theorem sweep_some {n : ℕ} {c : Addr} (h : p.sweep n c = some a) :
    ∃ k, a = p.turn^[k] (p.wrap c) ∧ ∀ j < k, p.free (p.turn^[j] (p.wrap c)) = false := by
  rw [Masked.sweep_eq_find?, List.find?_eq_some_iff_getElem] at h
  obtain ⟨-, k, hk, hget, hbefore⟩ := h
  refine ⟨k, ?_, fun j hj => ?_⟩
  · rw [List.getElem_iterate] at hget
    exact hget.symm
  · have hj' := hbefore j hj
    rw [List.getElem_iterate] at hj'
    show p.free ((fun a => p.wrap a.next)^[j] (p.wrap c)) = false
    simpa using hj'

/-- `Allocate` passes over hosts that are not free, and leaves the cursor
behind the one it hands out. -/
theorem allocate_passes (h : p.allocate = .ok (a, p')) :
    (∃ k, a = p.turn^[k] (p.wrap p.next) ∧ ∀ j < k, p.free (p.turn^[j] (p.wrap p.next)) = false) ∧
      p'.wrap p'.next = p.turn a ∧ p'.reserved = p.reserved := by
  obtain ⟨hs, rfl⟩ := allocate_ok h
  exact ⟨sweep_some hs, rfl, rfl⟩

theorem allocate_usable (h : p.allocate = .ok (a, p')) : p.usable a = true :=
  (sweep_spec (allocate_ok h).1).1

theorem Masked.mem_hosts_of_usable (hp : p.Masked) (h : p.usable a = true) : a ∈ p.hosts := by
  rw [hp.mem_hosts]
  simp only [usable] at h
  split_ifs at h with hc hne
  exact ⟨by simpa using hc, hne⟩

/-- The cursor has gone on from behind `x`, over hosts that may not be handed
out or that satisfy `seen`. -/
def Walked (x : Addr) (seen : Addr → Prop) (p : Pool) : Prop :=
  ∃ d, p.wrap p.next = p.turn^[d + 1] x ∧
    ∀ m, 0 < m → m ≤ d → p.usable (p.turn^[m] x) = true → seen (p.turn^[m] x)

theorem Walked.start (h : p.allocate = .ok (x, p')) (hpfx : p'.pfx = p.pfx) (seen : Addr → Prop) :
    Walked x seen p' := by
  refine ⟨0, ?_, fun m hm hle => absurd hle (by omega)⟩
  rw [turn_congr hpfx, (allocate_passes h).2.1]
  rfl

/-- What has been passed stays passed while the cursor stays. -/
theorem Walked.mono {seen seen' : Addr → Prop} (h : Walked x seen p) (hpfx : p'.pfx = p.pfx)
    (hr : p'.reserved = p.reserved) (hnext : p'.next = p.next) (hseen : ∀ y, seen y → seen' y) :
    Walked x seen' p' := by
  obtain ⟨d, hcur, hpast⟩ := h
  refine ⟨d, ?_, fun m hm hle hu => hseen _ ?_⟩
  · rw [turn_congr hpfx, ← hcur, hnext]
    simp only [wrap, hpfx]
  · rw [turn_congr hpfx, usable_congr hpfx hr] at hu
    rw [turn_congr hpfx]
    exact hpast m hm hle hu

/-- The walk goes on. -/
theorem Walked.allocate {seen seen' : Addr → Prop} (h : Walked x seen p)
    (ha : p.allocate = .ok (a, p')) (hpfx : p'.pfx = p.pfx) (hseen : ∀ y, seen y → seen' y)
    (hused : ∀ y ∈ p'.used, seen' y) : Walked x seen' p' := by
  obtain ⟨d, hcur, hpast⟩ := h
  obtain ⟨⟨k, hk, hskip⟩, hcur', hr⟩ := allocate_passes ha
  have hall := (allocate_used ha).2
  have hiter : ∀ j, p.turn^[j] (p.wrap p.next) = p.turn^[j + (d + 1)] x := by
    intro j
    rw [hcur, ← Function.iterate_add_apply]
  refine ⟨d + k + 1, ?_, fun m hm hle hu => ?_⟩
  · rw [turn_congr hpfx, hcur', hk, hiter, ← Function.iterate_succ_apply' p.turn,
      show (k + (d + 1)).succ = d + k + 1 + 1 by omega]
  · rw [turn_congr hpfx, usable_congr hpfx hr] at hu
    rw [turn_congr hpfx]
    rcases Nat.lt_or_ge d m with hlt | hge
    · -- passed by this call, or handed out by it
      apply hused
      rw [hall]
      obtain ⟨j, rfl⟩ := Nat.exists_eq_add_of_lt hlt
      rcases Nat.lt_or_ge j k with hj | hj
      · have hfree := hskip j hj
        rw [hiter, free, show j + (d + 1) = d + j + 1 by omega, hu] at hfree
        exact Finset.mem_insert_of_mem (by simpa only [Bool.true_and, Bool.not_eq_false', decide_eq_true_eq] using hfree)
      · obtain rfl : j = k := by omega
        rw [hk, hiter, show j + (d + 1) = d + j + 1 by omega]
        exact Finset.mem_insert_self _ _
    · exact hseen _ (hpast m hm hge hu)

/-- **Before an address is handed out again, the cursor has passed every
other host.** -/
theorem Walked.back {seen : Addr → Prop} (hp : p.Masked) (h : Walked x seen p)
    (ha : p.allocate = .ok (x, p')) (hused : ∀ y ∈ p.used, seen y) (hu : p.usable y = true) :
    y = x ∨ seen y := by
  have hx := hp.mem_hosts_of_usable (allocate_usable ha)
  have hy := hp.mem_hosts_of_usable hu
  obtain ⟨d, hcur, hpast⟩ := h
  obtain ⟨⟨k, hk, hskip⟩, -, -⟩ := allocate_passes ha
  have hiter : ∀ j, p.turn^[j] (p.wrap p.next) = p.turn^[j + (d + 1)] x := by
    intro j
    rw [hcur, ← Function.iterate_add_apply]
  -- the walk has closed, after `k + d + 1` turns
  have hperiod : Function.IsPeriodicPt p.turn (k + (d + 1)) x := by
    rw [hiter] at hk
    exact hk.symm
  obtain ⟨n, rfl⟩ := Turns.exists_iterate hp.turns hx hy
  change p.usable (p.turn^[n] x) = true at hu
  show p.turn^[n] x = x ∨ seen (p.turn^[n] x)
  rw [← hperiod.iterate_mod_apply n] at hu ⊢
  have hlt : n % (k + (d + 1)) < k + (d + 1) := Nat.mod_lt _ (by omega)
  generalize n % (k + (d + 1)) = m at hlt hu
  rcases Nat.eq_zero_or_pos m with rfl | hm
  · exact Or.inl rfl
  · right
    rcases Nat.lt_or_ge d m with hdm | hge
    · obtain ⟨j, rfl⟩ := Nat.exists_eq_add_of_lt hdm
      have hfree := hskip j (by omega)
      rw [hiter, free, show j + (d + 1) = d + j + 1 by omega, hu] at hfree
      exact hused _ (by simpa only [Bool.true_and, Bool.not_eq_false', decide_eq_true_eq] using hfree)
    · exact hpast m hm hge hu

end
end Pool
end Ippool
end Revquic
