/-
# Chains of rules

A chain of a packet filter is a list of rules, tried in their order. A rule
decides on a packet or passes it on, and the first decision counts; a packet
that every rule passes on gets the policy of the chain. At the head of a
chain, rules that all pass a packet on can be left out, and rules that know
one decision only take it if any of them does.

Key definition: `verdict`.
Key theorems: `verdict_append_of_none`, `verdict_append_of_some`.
-/
import Mathlib.Data.List.Basic

namespace Revquic
namespace Lib

/-- A rule; it passes a packet on with `none`. -/
abbrev Rule (P V : Type*) := P → Option V

/-- The verdict of a chain on a packet. -/
def verdict {P V : Type*} (policy : V) (chain : List (Rule P V)) (p : P) : V :=
  (chain.findSome? (· p)).getD policy

section
variable {P V : Type*} {policy v : V} {front chain : List (Rule P V)} {p : P}

theorem verdict_append_of_none (h : ∀ r ∈ front, r p = none) :
    verdict policy (front ++ chain) p = verdict policy chain p := by
  have hnone : front.findSome? (· p) = none := List.findSome?_eq_none_iff.mpr h
  simp [verdict, List.findSome?_append, hnone]

theorem verdict_append_of_some (hv : ∀ r ∈ front, ∀ w, r p = some w → w = v)
    (h : ∃ r ∈ front, (r p).isSome) : verdict policy (front ++ chain) p = v := by
  obtain ⟨w, hw⟩ := Option.isSome_iff_exists.mp (List.findSome?_isSome_iff.mpr h)
  obtain ⟨r, hr, hrw⟩ := List.exists_of_findSome?_eq_some hw
  have hwv := hv r hr w hrw
  simp [verdict, List.findSome?_append, hw, hwv]

end
end Lib
end Revquic
