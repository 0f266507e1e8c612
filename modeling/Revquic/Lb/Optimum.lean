/-
# The exit with the least load

The broker hands `Pick` its exits in whatever order a Go map gives them.
Sorting by id makes the order immaterial, and the scan for the least loaded
exit stable: a later exit replaces the best one so far only if it is strictly
better, so ties go to the smaller id. The exit returned is the least of all
eligible ones in the lexicographic order of clients, load fraction and id.

Key definitions: `Eligible`, `Node.key`.
Key theorem: `pick_optimum`.
-/
import Mathlib.Data.Prod.Lex
import Mathlib.Data.String.Basic
import Revquic.Lb

namespace Revquic
namespace Lb

/-- Serves the region, and has spare capacity. -/
def Eligible (region : String) (n : Node) : Prop :=
  n.region = region ∧ (n.capacity ≤ 0 ∨ n.active < n.capacity)

/-- What the least-connections strategy minimizes. -/
def Node.key (n : Node) : ℤ ×ₗ ℚ ×ₗ String := toLex (n.active, toLex (n.loadFraction, n.id))

variable {region : String} {nodes : List Node} {n best : Node}

theorem mem_eligible_iff : n ∈ eligible region nodes ↔ n ∈ nodes ∧ Eligible region n := by
  rw [mem_eligible, Eligible, Node.hasSpare, Bool.or_eq_true, decide_eq_true_iff, decide_eq_true_iff]

/-- The eligible exits, in strict id order. -/
theorem eligible_sorted (hids : (nodes.map Node.id).Nodup) :
    (eligible region nodes).Pairwise fun a b => a.id < b.id := by
  have hle : (eligible region nodes).Pairwise fun a b => a.id ≤ b.id := by
    have : Std.Total fun a b : Node => a.id ≤ b.id := ⟨fun a b => le_total a.id b.id⟩
    have : IsTrans Node fun a b => a.id ≤ b.id := ⟨fun _ _ _ => le_trans⟩
    exact List.pairwise_insertionSort _ _
  have hne : (eligible region nodes).Pairwise fun a b => a.id ≠ b.id := by
    have hsub : ((nodes.filter fun n => n.region = region && n.hasSpare).map Node.id).Nodup :=
      hids.sublist (List.filter_sublist.map _)
    have hperm := (List.perm_insertionSort (fun a b : Node => a.id ≤ b.id)
      (nodes.filter fun n => n.region = region && n.hasSpare)).map Node.id
    exact List.pairwise_map.mp (hperm.nodup_iff.mpr hsub)
  exact (hle.and hne).imp fun h => lt_of_le_of_ne h.1 h.2

/-- The order of the candidates does not matter. -/
theorem eligible_perm {nodes' : List Node} (hids : (nodes.map Node.id).Nodup)
    (hperm : nodes'.Perm nodes) : eligible region nodes' = eligible region nodes := by
  have hsame : (eligible region nodes').Perm (eligible region nodes) :=
    ((List.perm_insertionSort _ _).trans (hperm.filter _)).trans (List.perm_insertionSort _ _).symm
  have hids' : (nodes'.map Node.id).Nodup := (hperm.map _).nodup_iff.mpr hids
  refine hsame.eq_of_pairwise (fun a b _ _ hab hba => ?_) (eligible_sorted hids') (eligible_sorted hids)
  exact absurd (hab.trans hba) (lt_irrefl _)

/-! ### The scan -/

/-- A node that replaces the best one has a smaller key. -/
theorem key_lt_of_better (h : n.better best = true) : n.key < best.key := by
  simp only [Node.better, Bool.or_eq_true, Bool.and_eq_true, decide_eq_true_eq] at h
  simp only [Node.key, Prod.Lex.toLex_lt_toLex]
  exact h.imp id (And.imp id Or.inl)

/-- One that does not, and comes later in id order, has a larger one. -/
theorem key_lt_of_not_better (h : ¬ n.better best = true) (hid : best.id < n.id) :
    best.key < n.key := by
  simp only [Node.better, Bool.or_eq_true, Bool.and_eq_true, decide_eq_true_eq, not_or, not_and,
    not_lt] at h
  simp only [Node.key, Prod.Lex.toLex_lt_toLex]
  rcases h.1.lt_or_eq with hact | hact
  · exact Or.inl hact
  · rcases (h.2 hact.symm).lt_or_eq with hfrac | hfrac
    · exact Or.inr ⟨hact, Or.inl hfrac⟩
    · exact Or.inr ⟨hact, Or.inr ⟨hfrac, hid⟩⟩

/-- The scan of a list in id order ends at the least key. -/
theorem leastLoaded_le : ∀ (best : Node) (ns : List Node),
    (best :: ns).Pairwise (fun a b => a.id < b.id) →
    ∀ m ∈ best :: ns, (leastLoaded best ns).key ≤ m.key
  | best, [], _, m, hm => by
    obtain rfl := List.mem_singleton.mp hm
    exact le_rfl
  | best, n :: ns, hsort, m, hm => by
    have hbn : best.id < n.id := (List.pairwise_cons.mp hsort).1 n List.mem_cons_self
    have hn := (List.pairwise_cons.mp hsort).2
    have hb : (best :: ns).Pairwise fun a b => a.id < b.id :=
      hsort.sublist ((List.sublist_cons_self n ns).cons_cons best)
    unfold leastLoaded
    -- the better of the two heads stays in the scan, the other one is larger
    by_cases hbetter : n.better best = true
    · rw [if_pos hbetter]
      rcases List.mem_cons.mp hm with rfl | hm
      · have := leastLoaded_le n ns hn n List.mem_cons_self
        exact this.trans (key_lt_of_better hbetter).le
      · exact leastLoaded_le n ns hn m hm
    · rw [if_neg hbetter]
      have hbest := leastLoaded_le best ns hb best List.mem_cons_self
      rcases List.mem_cons.mp hm with rfl | hm
      · exact hbest
      · rcases List.mem_cons.mp hm with rfl | hm
        · exact hbest.trans (key_lt_of_not_better hbetter hbn).le
        · exact leastLoaded_le best ns hb m (List.mem_cons_of_mem _ hm)

/-! ### `Pick` -/

theorem pick_isSome (strategy : Strategy) (rr rnd : ℕ) :
    (pick strategy region nodes rr rnd).isSome = true ↔ ∃ n ∈ nodes, Eligible region n := by
  have hmem : (∃ n ∈ nodes, Eligible region n) ↔ ∃ n, n ∈ eligible region nodes :=
    exists_congr fun n => mem_eligible_iff.symm
  rw [hmem]
  unfold pick
  cases he : eligible region nodes with
  | nil => simp
  | cons n ns =>
    refine iff_of_true ?_ ⟨n, List.mem_cons_self⟩
    cases strategy <;> rfl

/-- The least-connections strategy returns the exit with the least key. -/
theorem pick_leastConn (hids : (nodes.map Node.id).Nodup) (rr rnd : ℕ) {id : String} {rr' : ℕ} :
    pick .leastConn region nodes rr rnd = some (id, rr') ↔ rr' = rr ∧
      ∃ n ∈ nodes, n.id = id ∧ Eligible region n ∧ ∀ m ∈ nodes, Eligible region m → n.key ≤ m.key := by
  unfold pick
  cases he : eligible region nodes with
  | nil =>
    refine iff_of_false (by simp) ?_
    rintro ⟨-, n, hn, -, hel, -⟩
    have : n ∈ eligible region nodes := mem_eligible_iff.mpr ⟨hn, hel⟩
    simp [he] at this
  | cons b ns =>
    have hsort : (eligible region nodes).Pairwise fun a b => a.id < b.id := eligible_sorted hids
    rw [he] at hsort
    have hleast : ∀ m ∈ nodes, Eligible region m → (leastLoaded b ns).key ≤ m.key := by
      intro m hm hel
      exact leastLoaded_le b ns hsort m (he ▸ mem_eligible_iff.mpr ⟨hm, hel⟩)
    have hmem : leastLoaded b ns ∈ eligible region nodes := he ▸ leastLoaded_mem b ns
    obtain ⟨hin, hel⟩ := mem_eligible_iff.mp hmem
    simp only [Option.some.injEq, Prod.mk.injEq]
    constructor
    · intro h
      exact ⟨h.2.symm, leastLoaded b ns, hin, h.1, hel, hleast⟩
    · rintro ⟨rfl, n, hn, rfl, hn', hmin⟩
      -- two least keys are equal, and a key has the id in it
      have hkey : (leastLoaded b ns).key = n.key := le_antisymm (hleast n hn hn') (hmin _ hin hel)
      have hid : (leastLoaded b ns).id = n.id := congrArg (fun k => (ofLex (ofLex k).2).2) hkey
      exact ⟨hid, rfl⟩

/-- **`Pick` finds the optimum.** It succeeds if and only if some node is
eligible; least connections returns the one that is least in clients, then
load fraction, then id; whatever the strategy, the order in which the nodes
are given does not matter, and the id returned is that of an eligible one. -/
theorem pick_optimum (region : String) (hids : (nodes.map Node.id).Nodup) :
    (∀ strategy rr rnd, (pick strategy region nodes rr rnd).isSome = true ↔
      ∃ n ∈ nodes, Eligible region n) ∧
    (∀ rr rnd id rr', pick .leastConn region nodes rr rnd = some (id, rr') ↔ rr' = rr ∧
      ∃ n ∈ nodes, n.id = id ∧ Eligible region n ∧ ∀ m ∈ nodes, Eligible region m → n.key ≤ m.key) ∧
    (∀ nodes' strategy rr rnd, nodes'.Perm nodes →
      pick strategy region nodes' rr rnd = pick strategy region nodes rr rnd) ∧
    ∀ strategy rr rnd id rr', pick strategy region nodes rr rnd = some (id, rr') →
      ∃ n ∈ nodes, n.id = id ∧ Eligible region n := by
  refine ⟨pick_isSome, fun rr rnd id rr' => pick_leastConn hids rr rnd, ?_, ?_⟩
  · intro nodes' strategy rr rnd hperm
    unfold pick
    rw [eligible_perm hids hperm]
  · intro strategy rr rnd id rr' h
    obtain ⟨n, hn, hid, hregion, hspare⟩ := pick_eligible h
    have hel : n ∈ eligible region nodes := mem_eligible.mpr ⟨hn, hregion, hspare⟩
    exact ⟨n, hn, hid, (mem_eligible_iff.mp hel).2⟩

/-- Three exits with two clients each, one of them full: the load fraction
decides between an unlimited and a limited one. -/
theorem pick_optimum_three_exits :
    pick .leastConn "us" [⟨"c", "us", 2, 10⟩, ⟨"b", "us", 2, 2⟩, ⟨"a", "us", 2, 0⟩] 0 0
        = some ("a", 0) ∧
      pick .leastConn "us" [⟨"a", "us", 2, 0⟩, ⟨"b", "us", 2, 2⟩, ⟨"c", "us", 2, 10⟩] 0 0
        = some ("a", 0) := by
  have hids : ([⟨"a", "us", 2, 0⟩, ⟨"b", "us", 2, 2⟩, ⟨"c", "us", 2, 10⟩].map Node.id).Nodup := by
    decide +kernel
  obtain ⟨-, -, hperm, -⟩ := pick_optimum "us" hids
  have hpick : pick .leastConn "us" [⟨"a", "us", 2, 0⟩, ⟨"b", "us", 2, 2⟩, ⟨"c", "us", 2, 10⟩] 0 0
      = some ("a", 0) := by decide +kernel
  refine ⟨(hperm _ .leastConn 0 0 ?_).trans hpick, hpick⟩
  decide +kernel

end Lb
end Revquic
