/-
# Choosing an exit (`internal/lb`)

`pick` chooses among the exits that serve a region and have spare capacity.
Load fractions are exact rationals here, where the source has `float64`.

Key definitions: `hasSpare`, `better`, `eligible`, `pick`.
Key theorem: `pick_eligible`.
-/
import Mathlib.Data.List.Sort
import Mathlib.Data.Rat.Defs
import Mathlib.Tactic

namespace Revquic
namespace Lb

/-- `lb.Strategy`. -/
inductive Strategy
  | leastConn
  | roundRobin
  | random
  deriving DecidableEq

/-- `lb.Node`: the load view of one exit. -/
structure Node where
  id : String
  region : String
  active : ℤ
  capacity : ℤ
  deriving DecidableEq

namespace Node

/-- A capacity of zero or less is unlimited. -/
def hasSpare (n : Node) : Bool := n.capacity ≤ 0 || n.active < n.capacity

/-- The load fraction that breaks ties in the number of clients. -/
def loadFraction (n : Node) : ℚ :=
  if n.capacity ≤ 0 then n.active / 1000000000 else n.active / n.capacity

/-- The comparison of the least-connections loop: `n` replaces `best`. -/
def better (n best : Node) : Bool :=
  n.active < best.active || (n.active = best.active && n.loadFraction < best.loadFraction)

end Node

/-- The exits of the region with spare capacity, in id order. -/
def eligible (region : String) (nodes : List Node) : List Node :=
  (nodes.filter fun n => n.region = region && n.hasSpare).insertionSort fun a b => a.id ≤ b.id

/-- The least-connections loop. -/
def leastLoaded : Node → List Node → Node
  | best, [] => best
  | best, n :: ns => leastLoaded (if n.better best then n else best) ns

/-- `lb.Pick`, with the round-robin counter passed through; `rnd` is what
`rand.Intn` draws from. -/
def pick (strategy : Strategy) (region : String) (nodes : List Node) (rr rnd : ℕ) :
    Option (String × ℕ) :=
  match eligible region nodes with
  | [] => none
  | n :: ns =>
    match strategy with
    | .roundRobin =>
      some (((n :: ns).getD (rr % (ns.length + 1)) n).id, (rr + 1) % 2 ^ 64)
    | .random => some (((n :: ns).getD (rnd % (ns.length + 1)) n).id, rr)
    | .leastConn => some ((leastLoaded n ns).id, rr)

theorem mem_eligible {region : String} {nodes : List Node} {n : Node} :
    n ∈ eligible region nodes ↔ n ∈ nodes ∧ n.region = region ∧ n.hasSpare = true := by
  rw [eligible, (List.perm_insertionSort _ _).mem_iff]
  simp

theorem leastLoaded_mem : ∀ (best : Node) (ns : List Node), leastLoaded best ns ∈ best :: ns
  | best, [] => by simp [leastLoaded]
  | best, n :: ns => by
    have ih := leastLoaded_mem (if n.better best then n else best) ns
    simp only [leastLoaded]
    split_ifs at ih ⊢ <;> simp only [List.mem_cons] at ih ⊢ <;> tauto

theorem getD_mem {α : Type*} (a : α) (l : List α) (i : ℕ) : (a :: l).getD i a ∈ a :: l := by
  rw [List.getD_eq_getElem?_getD]
  cases h : (a :: l)[i]? with
  | none => simp
  | some b => exact List.mem_of_getElem? h

/-- The exit chosen serves the region and has spare capacity, whatever the
strategy. -/
theorem pick_eligible {strategy : Strategy} {region : String} {nodes : List Node} {rr rnd : ℕ}
    {id : String} {rr' : ℕ} (h : pick strategy region nodes rr rnd = some (id, rr')) :
    ∃ n ∈ nodes, n.id = id ∧ n.region = region ∧ n.hasSpare = true := by
  have hmem : ∃ n ∈ eligible region nodes, n.id = id := by
    unfold pick at h
    split at h
    · cases h
    · rename_i n ns he
      rw [he]
      split at h <;> simp only [Option.some.injEq, Prod.mk.injEq] at h
      · exact ⟨_, getD_mem n ns _, h.1⟩
      · exact ⟨_, getD_mem n ns _, h.1⟩
      · exact ⟨_, leastLoaded_mem n ns, h.1⟩
  obtain ⟨n, hn, hid⟩ := hmem
  obtain ⟨h1, h2, h3⟩ := mem_eligible.mp hn
  exact ⟨n, h1, hid, h2, h3⟩

end Lb
end Revquic
