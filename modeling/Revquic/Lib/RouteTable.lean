/-
# Route tables

A table of routes as `ip route` keeps it: for each destination network a list
of routes, the one of the lowest metric first. A packet goes by the first
route of the longest network that has one. The commands that name no metric
mean metric 0: `add` refuses a second such route, `replace` takes the place
of one, `del` takes the first that fits. A device that goes away takes its
routes with it (`flush`).

Key definitions: `RouteTable`, `add`, `replace`, `del`, `flush`, `lookup`.
-/
import Mathlib.Data.List.Basic
import Mathlib.Logic.Function.Basic

namespace Revquic
namespace Lib

/-- A destination: the packets whose address has these `len` first bits. -/
structure Net where
  addr : BitVec 32
  len : ℕ
  deriving DecidableEq

namespace Net

/-- The network of length `n` around an address. -/
def around (x : BitVec 32) (n : ℕ) : Net := ⟨(x >>> (32 - n)) <<< (32 - n), n⟩

def any : Net := ⟨0, 0⟩

theorem around_zero (x : BitVec 32) : around x 0 = any := by
  simp [around, any]

theorem around_host (x : BitVec 32) : around x 32 = ⟨x, 32⟩ := by
  simp [around]

end Net

/-- Where a route leads: a device, and the gateway behind it if there is
one. -/
structure Hop (D : Type*) where
  via : Option (BitVec 32)
  dev : D
  deriving DecidableEq

structure Route (D : Type*) where
  metric : ℕ := 0
  hop : Hop D
  deriving DecidableEq

/-- The routes of each network, the preferred one first. -/
abbrev RouteTable (D : Type*) := Net → List (Route D)

namespace RouteTable

variable {D : Type*}

def set (t : RouteTable D) (p : Net) (rs : List (Route D)) : RouteTable D :=
  fun q => if q = p then rs else t q

/-- `ip route add`: refused if there is such a route. -/
def add (t : RouteTable D) (p : Net) (h : Hop D) : Option (RouteTable D) :=
  if (t p).any fun r => r.metric = 0 then none else some (t.set p ({ hop := h } :: t p))

/-- `ip route replace`. -/
def replace (t : RouteTable D) (p : Net) (h : Hop D) : RouteTable D :=
  t.set p ({ hop := h } :: (t p).filter fun r => r.metric ≠ 0)

/-- `ip route del`, of any device or of one: refused if there is no such
route. -/
def del [DecidableEq D] (t : RouteTable D) (p : Net) (dev : Option D) : Option (RouteTable D) :=
  let fits : Route D → Bool := fun r => dev.all (· = r.hop.dev)
  if (t p).any fits then some (t.set p ((t p).eraseP fits)) else none

/-- The device is gone. -/
def flush [DecidableEq D] (t : RouteTable D) (dev : D) : RouteTable D :=
  fun p => (t p).filter fun r => r.hop.dev ≠ dev

/-- Where a packet to `x` goes. -/
def lookup (t : RouteTable D) (x : BitVec 32) : Option (Hop D) :=
  (List.range 33).reverse.findSome? fun n => (t (.around x n)).head?.map (·.hop)

section
variable {t t' : RouteTable D} {p q : Net} {h : Hop D} {r : Route D} {rs : List (Route D)}

@[simp] theorem set_self : t.set p rs p = rs := if_pos rfl

@[simp] theorem set_of_ne (hne : q ≠ p) : t.set p rs q = t q := if_neg hne

@[simp] theorem replace_self :
    t.replace p h p = { hop := h } :: (t p).filter fun r => r.metric ≠ 0 := set_self

@[simp] theorem replace_of_ne (hne : q ≠ p) : t.replace p h q = t q := set_of_ne hne

theorem add_of_free (hfree : ∀ r ∈ t p, r.metric ≠ 0) :
    t.add p h = some (t.set p ({ hop := h } :: t p)) := by
  unfold add
  rw [if_neg]
  simpa using hfree

/-- After an `add`, successful or not, a route of metric 0 is there. -/
theorem add_cases (t : RouteTable D) (p : Net) (h : Hop D) :
    t.add p h = some (t.set p ({ hop := h } :: t p)) ∨ t.add p h = none ∧ ∃ r ∈ t p, r.metric = 0 := by
  unfold add
  by_cases hany : (t p).any fun r => r.metric = 0
  · rw [if_pos hany]
    exact Or.inr ⟨rfl, by simpa using hany⟩
  · rw [if_neg hany]
    exact Or.inl rfl

theorem del_first [DecidableEq D] (hp : t p = r :: rs) : t.del p none = some (t.set p rs) := by
  simp [del, hp]

theorem del_of_ne [DecidableEq D] {dev : Option D} (hne : q ≠ p) : (t.del p dev).getD t q = t q := by
  unfold del
  dsimp only
  split_ifs
  · exact set_of_ne hne
  · rfl

theorem del_subset [DecidableEq D] (dev : Option D) : (t.del p dev).getD t q ⊆ t q := by
  by_cases hq : q = p
  · subst hq
    unfold del
    dsimp only
    split_ifs
    · rw [Option.getD_some, set_self]
      exact List.eraseP_subset
    · exact List.Subset.refl _
  · rw [del_of_ne hq]
    exact List.Subset.refl _

/-- A route to the host itself comes before every other. -/
theorem lookup_host {x : BitVec 32} (hr : (t ⟨x, 32⟩).head? = some r) : t.lookup x = some r.hop := by
  rw [lookup, List.range_succ, List.reverse_append, List.reverse_singleton, List.singleton_append,
    List.findSome?_cons, Net.around_host, hr]
  rfl

/-- What has no route of its own goes by the default route. -/
theorem lookup_default {x : BitVec 32} (hnone : ∀ n, 0 < n → n ≤ 32 → t (.around x n) = []) :
    t.lookup x = (t .any).head?.map (·.hop) := by
  rw [lookup, List.range_succ_eq_map, List.reverse_cons, List.findSome?_append]
  have hno : (List.map Nat.succ (List.range 32)).reverse.findSome?
      (fun n => (t (.around x n)).head?.map (·.hop)) = none := by
    rw [List.findSome?_eq_none_iff]
    intro n hn
    simp only [List.mem_reverse, List.mem_map, List.mem_range] at hn
    obtain ⟨m, hm, rfl⟩ := hn
    rw [hnone _ (Nat.succ_pos m) hm]
    rfl
  rw [hno, Option.none_or, List.findSome?_cons, Net.around_zero, List.findSome?_nil]
  cases (t .any).head? <;> rfl

end
end RouteTable
end Lib
end Revquic
