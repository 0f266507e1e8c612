/-
# What the pool hands out: cyclic first fit

The hosts of an IPv4 prefix are its addresses but the first. `Allocate` is
meant to hand out the first free one in cyclic order from the cursor, or from
the first host if the cursor has left the prefix, and to fail only if there
is none. The loop that does so wraps an address that has run out of the
prefix, or of the address space, to the first host, and stops after `2 ^ (32
- bits) + 3` tries: one turn is `2 ^ (32 - bits) - 1`. A prefix of 31 or 32
bits has no host to hand out, and the pool is exhausted from the start.

Key definitions: `hosts`, `fromCursor`, `firstFree`, `machine`.
Key theorem: `allocate_first_fit`.
-/
import Revquic.Ippool
import Revquic.Lib.Block
import Revquic.Lib.Cycle
import Revquic.Lib.Machine

namespace Revquic
namespace Ippool

open Netip Lib

namespace Pool

variable (p : Pool)

/-- The network address of an IPv4 pool, as a number. -/
def network : ℕ :=
  match p.pfx.addr with
  | .v4 a => a.toNat
  | _ => 0

/-- The number of addresses of the prefix. -/
def size : ℕ := 2 ^ (32 - p.pfx.bits)

/-- Address `i` of the prefix. -/
def host (i : ℕ) : Addr := .v4 (BitVec.ofNat 32 (p.network + i))

/-- The hosts: every address but the network address. -/
def hosts : List Addr := (List.range' 1 (p.size - 1)).map p.host

/-- The last address of the prefix, its broadcast address. -/
def broadcast : Addr := p.host (p.size - 1)

/-- The hosts in cyclic order from the cursor, or from the first if the
cursor is at none of them. -/
def fromCursor : List Addr := p.hosts.rotate (p.hosts.idxOf p.next)

/-- May be handed out, if it is a host. -/
def vacant (a : Addr) : Bool := a ≠ p.broadcast && a ∉ p.reserved && a ∉ p.used

/-- What `Allocate` is to hand out. -/
def firstFree : Option Addr := p.fromCursor.find? p.vacant

/-- An IPv4 prefix whose host bits are clear. -/
structure Masked : Prop where
  addr : p.pfx.addr = p.host 0
  dvd : p.size ∣ p.network
  le : p.network + p.size ≤ 2 ^ 32

/-- The test of the loop. -/
def free (a : Addr) : Bool := p.usable a && !decide (a ∈ p.used)

variable {p}

theorem wrap_of_contains {a : Addr} (h : p.pfx.contains a = true) : p.wrap a = a := by
  cases a with
  | zero => cases h
  | v4 a => rw [wrap, h]; rfl
  | v6 a => rw [wrap, h]; rfl

theorem wrap_of_not_contains {a : Addr} (h : p.pfx.contains a = false) :
    p.wrap a = p.pfx.addr.next := by
  rw [wrap, h, Bool.not_false, Bool.or_true, if_pos rfl]

/-! ### The addresses of the prefix -/

theorem size_pos : 0 < p.size := Nat.two_pow_pos _

theorem masked_of_pfx {cidr : Prefix} (h4 : cidr.addr.is4 = true) (h : p.pfx = cidr.masked) :
    p.Masked := by
  obtain ⟨addr, bits, valid, hbits⟩ := cidr
  cases addr with
  | zero => cases h4
  | v6 a => cases h4
  | v4 a =>
    have hnet : p.network = (a >>> (32 - bits) <<< (32 - bits)).toNat := by
      simp only [network, h, Prefix.masked]
    have hsize : p.size = 2 ^ (32 - bits) := by simp only [size, h, Prefix.masked]
    have hdvd := Block.dvd_toNat_clear a (32 - bits)
    refine ⟨?_, ?_, ?_⟩
    · rw [host, Nat.add_zero, hnet, h, BitVec.ofNat_toNat, BitVec.setWidth_eq]
      rfl
    · rw [hnet, hsize]
      exact hdvd
    · rw [hnet, hsize]
      exact Block.le_two_pow hdvd (Nat.sub_le _ _)

/-- The low `h` bits of a number are all set if they read `2 ^ h - 1`. -/
theorem low_bits_iff (x h : ℕ) : (∀ j < h, x.testBit j = true) ↔ x % 2 ^ h = 2 ^ h - 1 := by
  constructor
  · intro hx
    refine Nat.eq_of_testBit_eq fun j => ?_
    rw [Nat.testBit_mod_two_pow, Nat.testBit_two_pow_sub_one]
    by_cases hj : j < h
    · rw [hx j hj, Bool.and_true]
    · simp only [hj, decide_false, Bool.false_and]
  · intro hx j hj
    have hbit := congrArg (Nat.testBit · j) hx
    simpa [Nat.testBit_mod_two_pow, Nat.testBit_two_pow_sub_one, hj] using hbit

namespace Masked

variable (hp : p.Masked)
include hp

theorem toNat_host {i : ℕ} (hi : i < p.size) :
    (BitVec.ofNat 32 (p.network + i)).toNat = p.network + i := by
  have := hp.le
  rw [BitVec.toNat_ofNat]
  exact Nat.mod_eq_of_lt (by omega)

theorem host_inj {i j : ℕ} (hi : i < p.size) (hj : j < p.size) (h : p.host i = p.host j) : i = j := by
  have h' := congrArg BitVec.toNat (Addr.v4.inj h)
  rw [hp.toNat_host hi, hp.toNat_host hj] at h'
  omega

/-- The addresses of the prefix are those from the network address on. -/
theorem contains_iff (a : Addr) : p.pfx.contains a = true ↔ ∃ i < p.size, a = p.host i := by
  cases a with
  | zero => simp [Prefix.contains, host]
  | v6 a => simp [Prefix.contains, hp.addr, host]
  | v4 a =>
    have hnet : (BitVec.ofNat 32 p.network).toNat = p.network := hp.toNat_host size_pos
    have hc : p.pfx.contains (.v4 a) = true ↔ p.network ≤ a.toNat ∧ a.toNat < p.network + p.size := by
      have hblock := Block.ushiftRight_eq_iff (a := a) (h := 32 - p.pfx.bits) (hnet ▸ hp.dvd)
      simp only [Prefix.contains, hp.addr, host, Nat.add_zero, decide_eq_true_eq, hblock, hnet]
      rfl
    rw [hc]
    constructor
    · intro h
      refine ⟨a.toNat - p.network, by omega, ?_⟩
      rw [host, Nat.add_sub_cancel' h.1, BitVec.ofNat_toNat, BitVec.setWidth_eq]
    · rintro ⟨i, hi, h⟩
      have h' := congrArg BitVec.toNat (Addr.v4.inj h)
      rw [hp.toNat_host hi] at h'
      omega

theorem next_host {i : ℕ} (hi : i + 1 < p.size) : (p.host i).next = p.host (i + 1) := by
  have hle := hp.le
  have hne : BitVec.ofNat 32 (p.network + i) ≠ BitVec.allOnes 32 := by
    intro h
    have h' := congrArg BitVec.toNat h
    rw [hp.toNat_host (by omega), BitVec.toNat_allOnes] at h'
    omega
  rw [host, Addr.next, if_neg hne, host, ← Nat.add_assoc, BitVec.ofNat_add (p.network + i)]
  rfl

/-- After the last address comes one outside of the prefix. -/
theorem not_contains_next_broadcast : p.pfx.contains p.broadcast.next = false := by
  have hs := size_pos (p := p)
  have hle := hp.le
  rw [Bool.eq_false_iff, Ne, hp.contains_iff]
  rintro ⟨i, hi, h⟩
  rw [broadcast, host, Addr.next] at h
  split_ifs at h with hmax
  · cases h
  · have h' := congrArg BitVec.toNat (Addr.v4.inj h)
    have hne : (BitVec.ofNat 32 (p.network + (p.size - 1))).toNat ≠ (BitVec.allOnes 32).toNat :=
      fun e => hmax (BitVec.eq_of_toNat_eq e)
    rw [hp.toNat_host (by omega), BitVec.toNat_allOnes] at hne
    rw [BitVec.toNat_add, hp.toNat_host (by omega), hp.toNat_host hi] at h'
    simp only [BitVec.ofNat_eq_ofNat, BitVec.toNat_ofNat] at h'
    omega

theorem mem_hosts (a : Addr) : a ∈ p.hosts ↔ p.pfx.contains a = true ∧ a ≠ p.pfx.addr := by
  rw [hp.contains_iff, hp.addr, hosts, List.mem_map]
  constructor
  · rintro ⟨i, hi, rfl⟩
    rw [List.mem_range'_1] at hi
    refine ⟨⟨i, by omega, rfl⟩, fun h => ?_⟩
    have := hp.host_inj (by omega) size_pos h
    omega
  · rintro ⟨⟨i, hi, rfl⟩, hne⟩
    have : i ≠ 0 := fun h => hne (by rw [h])
    exact ⟨i, List.mem_range'_1.mpr (by omega), rfl⟩

theorem isBroadcast_host {i : ℕ} (hi : i < p.size) :
    p.isBroadcast (p.host i) = true ↔ p.host i = p.broadcast := by
  have hs := size_pos (p := p)
  have hall : p.isBroadcast (p.host i) = true ↔ i = p.size - 1 := by
    obtain ⟨q, hq⟩ := hp.dvd
    have hmod : (BitVec.ofNat 32 (p.network + i)).toNat % 2 ^ (32 - p.pfx.bits) = i := by
      rw [hp.toNat_host hi, hq]
      exact (Nat.mul_add_mod _ _ _).trans (Nat.mod_eq_of_lt hi)
    simp only [isBroadcast, host, List.all_eq_true, List.mem_range, BitVec.getLsbD]
    generalize (BitVec.ofNat 32 (p.network + i)).toNat = x at hmod
    rw [← hmod, size, ← low_bits_iff]
  rw [hall]
  exact ⟨fun h => by rw [broadcast, h], fun h => hp.host_inj hi (by omega) h⟩

/-! ### The sweep -/

/-- The loop's test, on a host. -/
theorem free_eq {a : Addr} (ha : a ∈ p.hosts) : p.free a = p.vacant a := by
  obtain ⟨hc, hne⟩ := (hp.mem_hosts a).mp ha
  obtain ⟨i, hi, rfl⟩ := (hp.contains_iff a).mp hc
  rw [Bool.eq_iff_iff]
  simp [free, usable, vacant, hc, hne, ← hp.isBroadcast_host hi]

/-- The loop goes round the hosts. -/
theorem turns : Turns (fun a => p.wrap a.next) p.hosts := by
  intro i hi
  have hlen : p.hosts.length = p.size - 1 := by simp [hosts]
  rw [hlen] at hi
  have hget : ∀ j (hj : j < p.hosts.length), p.hosts.get ⟨j, hj⟩ = p.host (1 + j) := by
    intro j hj
    simp [hosts]
  show p.wrap (p.hosts.get ⟨i, _⟩).next = _
  rw [hget, hget]
  rcases Nat.lt_or_ge (i + 2) p.size with h | h
  · rw [hlen, Nat.mod_eq_of_lt (by omega), hp.next_host (by omega)]
    have hc : p.pfx.contains (p.host (1 + i + 1)) = true :=
      (hp.contains_iff _).mpr ⟨_, by omega, rfl⟩
    rw [wrap_of_contains hc, Nat.add_assoc]
  · -- the last host: the walk wraps to the first
    obtain rfl : i = p.size - 2 := by omega
    have hlast : p.host (1 + (p.size - 2)) = p.broadcast := by
      rw [broadcast]
      congr 1
      omega
    rw [hlast, wrap_of_not_contains hp.not_contains_next_broadcast, hp.addr,
      hp.next_host (by omega), hlen, show p.size - 2 + 1 = p.size - 1 by omega, Nat.mod_self]

omit hp in
theorem sweep_eq_find? : ∀ (n : ℕ) (a : Addr),
    p.sweep n a = (List.iterate (fun a => p.wrap a.next) (p.wrap a) n).find? p.free
  | 0, _ => rfl
  | n + 1, a => by
    rw [sweep, sweep_eq_find? n, List.iterate, List.find?_cons]
    show (if p.free (p.wrap a) = true then _ else _) = _
    cases p.free (p.wrap a) <;> rfl

theorem next_ne_addr {a : Addr} (ha : p.pfx.contains a = true) : a.next ≠ p.pfx.addr := by
  obtain ⟨i, hi, rfl⟩ := (hp.contains_iff a).mp ha
  rcases Nat.lt_or_ge (i + 1) p.size with h | h
  · rw [hp.next_host h, hp.addr]
    intro he
    exact absurd (hp.host_inj h size_pos he) (Nat.succ_ne_zero i)
  · obtain rfl : i = p.size - 1 := by omega
    intro he
    have hc : p.pfx.contains p.pfx.addr = true :=
      (hp.contains_iff _).mpr ⟨0, size_pos, hp.addr⟩
    have hn := hp.not_contains_next_broadcast
    rw [broadcast, he, hc] at hn
    cases hn

/-- The loop starts where the cyclic order does. -/
theorem wrap_next (hsize : 1 < p.size) (hcur : p.pfx.contains p.next = true → p.next ∈ p.hosts) :
    ∃ i, ∃ h : i < p.hosts.length, p.wrap p.next = p.hosts[i] ∧ p.fromCursor = p.hosts.rotate i := by
  by_cases hin : p.next ∈ p.hosts
  · have hi := List.idxOf_lt_length_of_mem hin
    refine ⟨_, hi, ?_, rfl⟩
    rw [List.getElem_idxOf hi, wrap_of_contains ((hp.mem_hosts _).mp hin).1]
  · have hout : p.pfx.contains p.next = false := Bool.eq_false_iff.mpr fun h => hin (hcur h)
    refine ⟨0, by simp [hosts]; omega, ?_, ?_⟩
    · rw [wrap_of_not_contains hout, hp.addr, hp.next_host (by omega)]
      simp [hosts]
    · rw [fromCursor, List.idxOf_eq_length hin, List.rotate_length, List.rotate_zero]

/-- The loop finds the first free host from the cursor on, and its tries
are enough. -/
theorem sweep_eq_firstFree (hcur : p.pfx.contains p.next = true → p.next ∈ p.hosts) :
    p.sweep (p.size + 3) p.next = p.firstFree := by
  rw [sweep_eq_find?]
  rcases Nat.lt_or_ge 1 p.size with hsize | hsize
  · obtain ⟨i, hi, hstart, hfrom⟩ := hp.wrap_next hsize hcur
    rw [hstart, hp.turns.find?_iterate _ hi (by simp [hosts]; omega), firstFree, hfrom]
    exact List.find?_congr fun a ha => hp.free_eq (List.mem_rotate.mp ha)
  · -- a prefix of one address has no host, and no address passes the test
    have hnil : p.hosts = [] := by
      rw [hosts, show p.size - 1 = 0 by omega]
      rfl
    have hfree : ∀ a, p.free a = false := by
      intro a
      by_contra h
      have hmem := hp.mem_hosts a
      rw [hnil] at hmem
      by_cases hc : p.pfx.contains a = true <;> by_cases hne : a = p.pfx.addr <;>
        simp_all [free, usable]
    rw [firstFree, fromCursor, hnil, List.find?_eq_none.mpr fun a _ => by simp [hfree a]]
    rfl

end Masked

/-! ### Whole runs -/

/-- A call on the pool. -/
inductive Call
  | allocate
  | release (addr : Addr)

/-- A call, and what `Allocate` returns. -/
def step (p : Pool) : Call → Option (Pool × List (Except AllocError Addr))
  | .allocate =>
    match p.allocate with
    | .ok (addr, p') => some (p', [.ok addr])
    | .error err => some (p, [.error err])
  | .release addr => some (p.release addr, [])

/-- A pool over `cidr`, under any sequence of calls. -/
def machine (cidr : Prefix) (reserved : List Addr) :
    Machine Pool Call (Except AllocError Addr) := ⟨new cidr reserved, step⟩

/-- What every call keeps: the prefix and the reserved addresses, and that
the cursor is not at the network address. -/
structure Kept (cidr : Prefix) (reserved : List Addr) (p : Pool) : Prop where
  pfx : p.pfx = cidr.masked
  reserved : p.reserved = reserved
  cursor : p.next ≠ p.pfx.addr

section
variable {cidr : Prefix} {reserved : List Addr}

theorem Kept.cursor_mem (h4 : cidr.addr.is4 = true) (h : Kept cidr reserved p)
    (hc : p.pfx.contains p.next = true) : p.next ∈ p.hosts :=
  ((masked_of_pfx h4 h.pfx).mem_hosts _).mpr ⟨hc, h.cursor⟩

theorem Kept.new (h4 : cidr.addr.is4 = true) : Kept cidr reserved (new cidr reserved) := by
  have hp : (Pool.new cidr reserved).Masked := masked_of_pfx h4 rfl
  exact ⟨rfl, rfl, hp.next_ne_addr ((hp.contains_iff _).mpr ⟨0, size_pos, hp.addr⟩)⟩

theorem Kept.step (h4 : cidr.addr.is4 = true) (h : Kept cidr reserved p) {c : Call} {p' : Pool}
    {out : List (Except AllocError Addr)} (hs : p.step c = some (p', out)) :
    Kept cidr reserved p' := by
  cases c with
  | release addr =>
    obtain ⟨rfl, -⟩ := Prod.mk.inj (Option.some.inj hs)
    exact ⟨h.pfx, h.reserved, h.cursor⟩
  | allocate =>
    simp only [Pool.step] at hs
    split at hs
    · rename_i addr q ha
      obtain ⟨rfl, -⟩ := Prod.mk.inj (Option.some.inj hs)
      have hin := (allocate_contains ha).1
      obtain ⟨-, rfl⟩ := allocate_ok ha
      exact ⟨h.pfx, h.reserved, (masked_of_pfx h4 h.pfx).next_ne_addr hin⟩
    · obtain ⟨rfl, -⟩ := Prod.mk.inj (Option.some.inj hs)
      exact h

theorem kept_of_run (h4 : cidr.addr.is4 = true) {tr : List (Event Pool Call (Except AllocError Addr))}
    (hrun : (machine cidr reserved).Run tr p) : Kept cidr reserved p :=
  hrun.invariant (Kept.new h4) fun _ _ _ _ h hs => h.step h4 hs

/-- **The pool is cyclic first fit.** In every state of every run, the cursor
is at a host or outside of the prefix, and `Allocate` hands out the first
host from there on, in cyclic order, that is not the broadcast address, not
reserved and not in use; it fails exactly if there is none. -/
theorem allocate_first_fit (h4 : cidr.addr.is4 = true)
    {tr : List (Event Pool Call (Except AllocError Addr))}
    (hrun : (machine cidr reserved).Run tr p) :
    p.pfx = cidr.masked ∧ p.reserved = reserved ∧
      (p.pfx.contains p.next = true → p.next ∈ p.hosts) ∧
      p.step .allocate = some (match p.firstFree with
        | some a => ({ p with used := insert a p.used, next := a.next }, [.ok a])
        | none => (p, [.error .exhausted])) := by
  have h := kept_of_run h4 hrun
  have hp := masked_of_pfx h4 h.pfx
  refine ⟨h.pfx, h.reserved, h.cursor_mem h4, ?_⟩
  have hbits : p.pfx.bits ≤ 32 := by
    have := p.pfx.bits_le
    rwa [hp.addr] at this
  simp only [Pool.step, allocate, if_pos hbits]
  rw [show 2 ^ (32 - p.pfx.bits) + 3 = p.size + 3 from rfl, hp.sweep_eq_firstFree (h.cursor_mem h4)]
  cases p.firstFree <;> rfl

/-- A pool of two hosts, one of them reserved: after the other is handed out
and returned, the cursor is at the broadcast address and the search wraps. -/
theorem allocate_first_fit_slash30 : ∃ tr p,
    (machine ⟨.v4 0x0a000002#32, 30, rfl, by decide⟩ [.v4 0x0a000001#32]).Run tr p ∧
      p.next = .v4 0x0a000003#32 ∧ p.firstFree = some (.v4 0x0a000002#32) ∧
      (p.step .allocate).map (·.2) = some [.ok (.v4 0x0a000002#32)] := by
  obtain ⟨tr, p, hrun, hnext, hfree⟩ :=
    (machine ⟨.v4 0x0a000002#32, 30, rfl, by decide⟩ [.v4 0x0a000001#32]).exists_run
      [.allocate, .release (.v4 0x0a000002#32)]
      (P := fun r => r.2.next = .v4 0x0a000003#32 ∧ r.2.firstFree = some (.v4 0x0a000002#32))
      (by decide +kernel)
  refine ⟨tr, p, hrun, hnext, hfree, ?_⟩
  obtain ⟨-, -, -, hstep⟩ := allocate_first_fit rfl hrun
  rw [hstep, hfree]
  rfl

end

end Pool
end Ippool
end Revquic
