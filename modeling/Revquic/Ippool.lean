/-
# The address pool (`internal/ippool`)

`Pool` hands out the host addresses of a prefix, each to one holder at a
time. `allocate` sweeps the prefix from a rotating cursor, and gives up after
`1 << (32 - bits) + 3` tries; the shift is by a negative amount, which
panics, when the prefix is longer than 32 bits and the first try fails.

Key definitions: `Pool`, `sweep`, `allocate`, `release`.
Key theorems: `allocate_used`, `allocate_contains`.
-/
import Revquic.Netip

namespace Revquic
namespace Ippool

open Netip

/-- `ippool.Pool`. The maps `reserved` and `used` only ever hold `true`. -/
structure Pool where
  pfx : Prefix
  reserved : List Addr
  used : Finset Addr
  next : Addr

/-- How `Allocate` can fail: `ErrExhausted`, or the panic of a shift by a
negative amount. -/
inductive AllocError
  | exhausted
  | panicked
  deriving DecidableEq

namespace Pool

/-- `ippool.New` on a parsed prefix. -/
def new (cidr : Prefix) (reserved : List Addr) : Pool :=
  let pfx := cidr.masked
  { pfx, reserved, used := ∅, next := pfx.addr.next }

variable (p : Pool)

/-- `isBroadcast`: every host bit of an IPv4 address is set. -/
def isBroadcast : Addr → Bool
  | .v4 a => (List.range (32 - p.pfx.bits)).all fun i => a.getLsbD i
  | _ => false

/-- `usable`: a host address of the prefix that may be handed out. -/
def usable (addr : Addr) : Bool :=
  if !p.pfx.contains addr then false
  else if addr = p.pfx.addr then false
  else if p.isBroadcast addr then false
  else !decide (addr ∈ p.reserved)

/-- The cursor, or the first host once it has left the prefix. -/
def wrap (addr : Addr) : Addr :=
  if !addr.isValid || !p.pfx.contains addr then p.pfx.addr.next else addr

/-- The loop of `Allocate`, with the number of tries left: the first free
usable address from `addr` on, wrapping to the first host. -/
def sweep : ℕ → Addr → Option Addr
  | 0, _ => none
  | n + 1, addr =>
    if p.usable (p.wrap addr) && !decide (p.wrap addr ∈ p.used) then some (p.wrap addr)
    else sweep n (p.wrap addr).next

/-- `Allocate`. The test that ends the loop computes `1 << (32 - bits)`, so
with `bits > 32` it panics as soon as it is reached, after one try. -/
def allocate : Except AllocError (Addr × Pool) :=
  let tries := if p.pfx.bits ≤ 32 then 2 ^ (32 - p.pfx.bits) + 3 else 1
  match p.sweep tries p.next with
  | some addr => .ok (addr, { p with used := insert addr p.used, next := addr.next })
  | none => .error (if p.pfx.bits ≤ 32 then .exhausted else .panicked)

/-- `Release`. -/
def release (addr : Addr) : Pool := { p with used := p.used.erase addr }

@[simp] theorem release_used (addr : Addr) : (p.release addr).used = p.used.erase addr := rfl

variable {p}

theorem sweep_spec : ∀ {n : ℕ} {addr a : Addr}, p.sweep n addr = some a →
    p.usable a = true ∧ a ∉ p.used
  | 0, _, _, h => by simp [sweep] at h
  | n + 1, addr, a, h => by
    simp only [sweep] at h
    split_ifs at h with hc
    · obtain rfl := Option.some.inj h
      simpa using hc
    · exact sweep_spec h

/-- What a successful `Allocate` has done. -/
theorem allocate_ok {a : Addr} {p' : Pool} (h : p.allocate = .ok (a, p')) :
    p.sweep (if p.pfx.bits ≤ 32 then 2 ^ (32 - p.pfx.bits) + 3 else 1) p.next = some a ∧
      p' = { p with used := insert a p.used, next := a.next } := by
  simp only [allocate] at h
  split at h
  · rename_i b hs
    simp only [Except.ok.injEq, Prod.mk.injEq] at h
    obtain ⟨rfl, rfl⟩ := h
    exact ⟨hs, rfl⟩
  · cases h

/-- The address handed out was free, and is now in use; nothing else
changes hands. -/
theorem allocate_used {a : Addr} {p' : Pool} (h : p.allocate = .ok (a, p')) :
    a ∉ p.used ∧ p'.used = insert a p.used := by
  obtain ⟨hs, rfl⟩ := allocate_ok h
  exact ⟨(sweep_spec hs).2, rfl⟩

/-- The address handed out is a host of the prefix. -/
theorem allocate_contains {a : Addr} {p' : Pool} (h : p.allocate = .ok (a, p')) :
    p.pfx.contains a = true ∧ p'.pfx = p.pfx := by
  obtain ⟨hs, rfl⟩ := allocate_ok h
  refine ⟨?_, rfl⟩
  have hu := (sweep_spec hs).1
  by_contra hc
  simp [usable, hc] at hu

end Pool
end Ippool
end Revquic
