/-
# When the pool gives up

The loop of `Allocate` ends by a test made for IPv4: after a candidate was
rejected it compares the number of tries with `1 << (32 - bits)`. `loop` is
that loop as written; it always ends. But on an IPv6 prefix of more than 32
bits the shift is by a negative amount, so that the first rejected candidate
is a panic, and on one of at most 32 bits the bound is far below the number
of hosts, so the pool reports exhaustion while addresses are free.

Either happens in some sequence of calls on every IPv6 prefix that has an
address to hand out: allocate until an error comes back, return the address
handed out last, and allocate again. The only free address is the one just
behind the cursor, a whole turn away.

Key definitions: `loop`, `FailsWhenFull`.
Key theorems: `loop_allocate`, `fails_when_full_iff`.
-/
import Revquic.Ippool.Cyclic
import Revquic.Lib.Block

namespace Revquic
namespace Ippool

open Netip Lib

namespace Pool

variable {p q : Pool} {a x : Addr} {cidr : Prefix} {reserved : List Addr}
  {tr : List (Event Pool Call (Except AllocError Addr))}

/-! ### The loop as written -/

/-- `fuel` rounds of the loop of `Allocate`, with its counter `i`; `none` if
it has not ended. -/
def loop (p : Pool) : ℕ → ℕ → Addr → Option (Except AllocError (Addr × Pool))
  | 0, _, _ => none
  | fuel + 1, i, addr =>
    let addr := if !addr.isValid || !p.pfx.contains addr then p.pfx.addr.next else addr
    if p.usable addr && !decide (addr ∈ p.used) then
      some (.ok (addr, { p with used := insert addr p.used, next := addr.next }))
    -- the shift count `32 - bits` is negative
    else if 32 < p.pfx.bits then some (.error .panicked)
    else if 2 ^ (32 - p.pfx.bits) + 1 < i then some (.error .exhausted)
    else loop p fuel (i + 1) addr.next

theorem loop_succ (fuel i : ℕ) (addr : Addr) : p.loop (fuel + 1) i addr =
    if p.free (p.wrap addr) = true then some (.ok (p.wrap addr,
      { p with used := insert (p.wrap addr) p.used, next := (p.wrap addr).next }))
    else if 32 < p.pfx.bits then some (.error .panicked)
    else if 2 ^ (32 - p.pfx.bits) + 1 < i then some (.error .exhausted)
    else p.loop fuel (i + 1) (p.wrap addr).next := rfl

theorem sweep_succ (n : ℕ) (addr : Addr) : p.sweep (n + 1) addr =
    if p.free (p.wrap addr) = true then some (p.wrap addr) else p.sweep n (p.wrap addr).next := rfl

/-- With `n + 1` tries to go the loop does what the sweep does. -/
theorem loop_eq_sweep (hbits : p.pfx.bits ≤ 32) (n i : ℕ) (addr : Addr)
    (hi : i + (n + 1) = 2 ^ (32 - p.pfx.bits) + 3) :
    p.loop (n + 1) i addr = some (match p.sweep (n + 1) addr with
      | some a => .ok (a, { p with used := insert a p.used, next := a.next })
      | none => .error .exhausted) := by
  induction n generalizing i addr with
  | zero =>
    rw [loop_succ, sweep_succ, if_neg (Nat.not_lt.mpr hbits), if_pos (c := _ < i) (by omega)]
    by_cases hf : p.free (p.wrap addr) = true
    · rw [if_pos hf, if_pos hf]
    · rw [if_neg hf, if_neg hf]
      rfl
  | succ n ih =>
    rw [loop_succ, sweep_succ, if_neg (Nat.not_lt.mpr hbits), if_neg (c := _ < i) (by omega)]
    by_cases hf : p.free (p.wrap addr) = true
    · rw [if_pos hf, if_pos hf]
    · rw [if_neg hf, if_neg hf]
      exact ih (i + 1) _ (by omega)

/-- The loop ends, with the result of `allocate`. -/
theorem loop_allocate (p : Pool) : ∃ fuel, p.loop fuel 0 p.next = some p.allocate := by
  by_cases hbits : p.pfx.bits ≤ 32
  · refine ⟨2 ^ (32 - p.pfx.bits) + 3, ?_⟩
    rw [loop_eq_sweep hbits _ 0 p.next (by omega)]
    unfold allocate
    cases hs : p.sweep (2 ^ (32 - p.pfx.bits) + 3) p.next <;> simp only [if_pos hbits, hs]
  · refine ⟨1, ?_⟩
    rw [loop_succ, if_pos (Nat.lt_of_not_le hbits), allocate]
    simp only [if_neg hbits, sweep_succ]
    by_cases hf : p.free (p.wrap p.next) = true
    · rw [if_pos hf, if_pos hf]
    · rw [if_neg hf, if_neg hf]
      rfl

/-! ### The hosts of an IPv6 prefix -/

/-- An IPv6 prefix whose host bits are clear. -/
structure Masked6 (p : Pool) (n : BitVec 128) : Prop where
  addr : p.pfx.addr = .v6 n
  dvd : 2 ^ (128 - p.pfx.bits) ∣ n.toNat

theorem masked6_of_pfx {v : BitVec 128} (hv : cidr.addr = .v6 v) (h : p.pfx = cidr.masked) :
    ∃ n, p.Masked6 n := by
  obtain ⟨addr, bits, valid, hbits⟩ := cidr
  obtain rfl : addr = .v6 v := hv
  refine ⟨v >>> (128 - bits) <<< (128 - bits), ?_, ?_⟩
  · rw [h]
    rfl
  · rw [h]
    exact Block.dvd_toNat_clear v (128 - bits)

/-- `a` is host `i` of the prefix, counted from 0. -/
def IsHost (n : BitVec 128) (i : ℕ) (a : Addr) : Prop :=
  ∃ v : BitVec 128, a = .v6 v ∧ v.toNat = n.toNat + 1 + i

namespace Masked6

variable {n : BitVec 128} (hp : p.Masked6 n)
include hp

theorem contains_iff {v : BitVec 128} : p.pfx.contains (.v6 v) = true ↔
    n.toNat ≤ v.toNat ∧ v.toNat < n.toNat + 2 ^ (128 - p.pfx.bits) := by
  rw [← Block.ushiftRight_eq_iff hp.dvd]
  simp only [Prefix.contains, hp.addr, decide_eq_true_eq]

theorem end_le : n.toNat + 2 ^ (128 - p.pfx.bits) ≤ 2 ^ 128 :=
  Block.le_two_pow hp.dvd (Nat.sub_le _ _)

/-- What may be handed out is a host. -/
theorem isHost_of_usable (h : p.usable a = true) :
    ∃ i < 2 ^ (128 - p.pfx.bits) - 1, IsHost n i a := by
  have hc : p.pfx.contains a = true := by
    by_contra hc
    simp [usable, hc] at h
  have hne : a ≠ p.pfx.addr := by
    intro he
    simp [usable, he] at h
  cases a with
  | zero => cases hc
  | v4 v => simp [Prefix.contains, hp.addr] at hc
  | v6 v =>
    obtain ⟨hle, hlt⟩ := hp.contains_iff.mp hc
    have hneq : v.toNat ≠ n.toNat := by
      intro he
      exact hne (by rw [hp.addr, BitVec.eq_of_toNat_eq he])
    exact ⟨v.toNat - n.toNat - 1, by omega, v, rfl, by omega⟩

/-- The first host. -/
theorem isHost_first (hsize : 1 < 2 ^ (128 - p.pfx.bits)) : IsHost n 0 p.pfx.addr.next := by
  have hne : n ≠ BitVec.allOnes 128 := by
    intro he
    have hend := hp.end_le
    rw [he, BitVec.toNat_allOnes] at hend
    omega
  refine ⟨n + 1, ?_, Block.toNat_succ hne⟩
  rw [hp.addr, Addr.next, if_neg hne]

/-- The loop goes from each host to the next, and from the last to the
first. -/
theorem isHost_wrap_next {i : ℕ} (hi : i < 2 ^ (128 - p.pfx.bits) - 1) (ha : IsHost n i a) :
    IsHost n ((i + 1) % (2 ^ (128 - p.pfx.bits) - 1)) (p.wrap a.next) := by
  obtain ⟨v, rfl, hv⟩ := ha
  have hend := hp.end_le
  rcases Nat.lt_or_ge (i + 1) (2 ^ (128 - p.pfx.bits) - 1) with hlt | hge
  · have hne : v ≠ BitVec.allOnes 128 := by
      intro he
      rw [he, BitVec.toNat_allOnes] at hv
      omega
    have hsucc := Block.toNat_succ hne
    have hc : p.pfx.contains (.v6 (v + 1)) = true := hp.contains_iff.mpr (by omega)
    rw [Nat.mod_eq_of_lt hlt, Addr.next, if_neg hne, wrap_of_contains hc]
    exact ⟨v + 1, rfl, by omega⟩
  · -- the last host: its successor is outside, or there is none
    obtain rfl : i = 2 ^ (128 - p.pfx.bits) - 2 := by omega
    have hout : p.pfx.contains (Addr.v6 v).next = false := by
      rw [Addr.next]
      split_ifs with hmax
      · rfl
      · have hsucc := Block.toNat_succ hmax
        rw [Bool.eq_false_iff, Ne, hp.contains_iff]
        omega
    rw [wrap_of_not_contains hout, show 2 ^ (128 - p.pfx.bits) - 2 + 1 = 2 ^ (128 - p.pfx.bits) - 1 by omega,
      Nat.mod_self]
    exact hp.isHost_first (by omega)

theorem isHost_iterate {i : ℕ} (hi : i < 2 ^ (128 - p.pfx.bits) - 1) (ha : IsHost n i a) (k : ℕ) :
    IsHost n ((i + k) % (2 ^ (128 - p.pfx.bits) - 1)) ((fun a => p.wrap a.next)^[k] a) := by
  induction k with
  | zero => rwa [Nat.add_zero, Nat.mod_eq_of_lt hi]
  | succ k ih =>
    rw [Function.iterate_succ_apply', ← Nat.add_assoc, ← Nat.mod_add_mod]
    exact hp.isHost_wrap_next (Nat.mod_lt _ (by omega)) ih

/-- A walk from a host is back at it after whole turns only. -/
theorem dvd_of_iterate_eq (h : p.usable a = true) {k : ℕ}
    (hk : (fun a => p.wrap a.next)^[k] a = a) : 2 ^ (128 - p.pfx.bits) - 1 ∣ k := by
  obtain ⟨i, hi, ha⟩ := hp.isHost_of_usable h
  obtain ⟨v, hv, hvn⟩ := hp.isHost_iterate hi ha k
  obtain ⟨u, rfl, hun⟩ := ha
  obtain rfl : u = v := Addr.v6.inj (hk ▸ hv)
  have hmod : (i + k) % (2 ^ (128 - p.pfx.bits) - 1) = i := by omega
  have hself : i + k ≡ i + 0 [MOD 2 ^ (128 - p.pfx.bits) - 1] := by
    rw [Nat.ModEq, hmod, Nat.add_zero, Nat.mod_eq_of_lt hi]
  exact (Nat.modEq_zero_iff_dvd.mp (Nat.ModEq.add_left_cancel' i hself))

omit hp in
/-- The tries of the loop are less than one turn. -/
theorem tries_lt (hbits : p.pfx.bits ≤ 32) :
    2 ^ (32 - p.pfx.bits) + 3 < 2 ^ (128 - p.pfx.bits) - 1 := by
  have hpow : 2 ^ (128 - p.pfx.bits) = 2 ^ 96 * 2 ^ (32 - p.pfx.bits) := by
    rw [← pow_add]
    congr 1
    omega
  have hpos : 0 < 2 ^ (32 - p.pfx.bits) := Nat.two_pow_pos _
  omega

/-- If the only free address is the one behind the cursor, the loop does not
find it. -/
theorem sweep_behind (hbits : p.pfx.bits ≤ 32) (hnext : p.next = x.next) (hx : p.usable x = true) :
    p.sweep (2 ^ (32 - p.pfx.bits) + 3) p.next ≠ some x := by
  rw [Masked.sweep_eq_find?, hnext]
  intro hfind
  obtain ⟨k, hk, hit⟩ := List.mem_iterate.mp (List.mem_of_find?_eq_some hfind)
  have hturn : (fun a => p.wrap a.next)^[k + 1] x = x := by
    rw [Function.iterate_succ_apply]
    exact hit.symm
  have hle := Nat.le_of_dvd (Nat.succ_pos k) (hp.dvd_of_iterate_eq hx hturn)
  have := tries_lt hbits
  omega

end Masked6

/-! ### Calls -/

/-- Which error a failed `Allocate` returns. -/
theorem allocate_error {e : AllocError} (h : p.allocate = .error e) :
    p.sweep (if p.pfx.bits ≤ 32 then 2 ^ (32 - p.pfx.bits) + 3 else 1) p.next = none ∧
      e = if p.pfx.bits ≤ 32 then .exhausted else .panicked := by
  simp only [allocate] at h
  split at h
  · cases h
  · rename_i hs
    exact ⟨hs, (Except.error.inj h).symm⟩

theorem usable_congr (hpfx : q.pfx = p.pfx) (hres : q.reserved = p.reserved) (a : Addr) :
    q.usable a = p.usable a := by
  have hb : q.isBroadcast a = p.isBroadcast a := by
    cases a with
    | zero => rfl
    | v4 v => rw [isBroadcast, isBroadcast, hpfx]
    | v6 v => rfl
  rw [usable, usable, hpfx, hres, hb]

/-- No call changes the prefix or the reserved addresses. -/
theorem params_of_run (hrun : (machine cidr reserved).Run tr p) :
    p.pfx = cidr.masked ∧ p.reserved = reserved := by
  refine hrun.invariant (I := fun p => p.pfx = cidr.masked ∧ p.reserved = reserved) ⟨rfl, rfl⟩ ?_
  intro p c p' out hI hs
  cases c with
  | release addr =>
    obtain ⟨rfl, -⟩ := Prod.mk.inj (Option.some.inj hs)
    exact hI
  | allocate =>
    simp only [machine, step] at hs
    split at hs
    · rename_i addr q ha
      obtain ⟨rfl, -⟩ := Prod.mk.inj (Option.some.inj hs)
      rw [(allocate_ok ha).2]
      exact hI
    · obtain ⟨rfl, -⟩ := Prod.mk.inj (Option.some.inj hs)
      exact hI

theorem usable_of_run (hrun : (machine cidr reserved).Run tr p) (a : Addr) :
    p.usable a = (new cidr reserved).usable a := by
  obtain ⟨hpfx, hres⟩ := params_of_run hrun
  exact usable_congr hpfx hres a

theorem masked_bits (cidr : Prefix) : cidr.masked.bits = cidr.bits := by
  obtain ⟨addr, bits, valid, hbits⟩ := cidr
  cases addr with
  | zero => cases valid
  | v4 v => rfl
  | v6 v => rfl

theorem run_allocate (hrun : (machine cidr reserved).Run tr p) {p' : Pool}
    (h : p.allocate = .ok (a, p')) : ∃ tr', (machine cidr reserved).Run tr' p' := by
  have hs : (machine cidr reserved).step p .allocate = some (p', [.ok a]) := by
    show p.step .allocate = _
    rw [step, h]
  exact ⟨_, hrun.snoc hs⟩

/-! ### IPv4 -/

/-- An IPv4 pool fails only when it is full. -/
theorem full_of_error (h4 : cidr.addr.is4 = true) (hrun : (machine cidr reserved).Run tr p)
    {e : AllocError} (h : p.allocate = .error e) :
    e = .exhausted ∧ ∀ a, p.usable a = true → a ∈ p.used := by
  have hk := kept_of_run h4 hrun
  have hp := masked_of_pfx h4 hk.pfx
  have hbits : p.pfx.bits ≤ 32 := by
    have := p.pfx.bits_le
    rwa [hp.addr] at this
  obtain ⟨hs, he⟩ := allocate_error h
  rw [if_pos hbits] at hs he
  refine ⟨he, fun a ha => ?_⟩
  have hc : p.pfx.contains a = true := by
    by_contra hc
    simp [usable, hc] at ha
  have hne : a ≠ p.pfx.addr := by
    intro hn
    simp [usable, hn] at ha
  have hmem := (hp.mem_hosts a).mpr ⟨hc, hne⟩
  -- the search went through every host
  have hnone : p.firstFree = none := by
    rw [← hp.sweep_eq_firstFree (hk.cursor_mem h4)]
    exact hs
  have hvac := List.find?_eq_none.mp hnone a (List.mem_rotate.mpr hmem)
  rw [← hp.free_eq hmem, free, ha] at hvac
  simpa using hvac

/-! ### IPv6 -/

/-- An address, as the words that make it. -/
def words : Addr → Option (BitVec 32 ⊕ BitVec 128)
  | .zero => none
  | .v4 v => some (.inl v)
  | .v6 v => some (.inr v)

theorem finite_addr : Finite Addr := by
  have hbv : ∀ w, Finite (BitVec w) := fun w =>
    Finite.of_injective BitVec.toFin fun _ _ => BitVec.eq_of_toFin_eq
  have := hbv 32
  have := hbv 128
  refine Finite.of_injective words fun a b hab => ?_
  cases a <;> cases b <;> simp_all [words]

/-- Calls of `Allocate` from any state on come to one that fails: there and
then, or right after one that succeeded. -/
theorem exists_error [Fintype Addr] : ∀ (d : ℕ) {tr : List (Event Pool Call (Except AllocError Addr))}
    {p : Pool}, (machine cidr reserved).Run tr p → Fintype.card Addr ≤ p.used.card + d →
    ∃ tr' q e, (machine cidr reserved).Run tr' q ∧ q.allocate = .error e ∧
      (q = p ∨ ∃ tr'' r x, (machine cidr reserved).Run tr'' r ∧ r.allocate = .ok (x, q))
  | d, tr, p, hrun, hd => by
    cases h : p.allocate with
    | error e => exact ⟨tr, p, e, hrun, h, Or.inl rfl⟩
    | ok r =>
      obtain ⟨x, p'⟩ := r
      obtain ⟨hnew, hused⟩ := allocate_used h
      have hcard : p'.used.card = p.used.card + 1 := by rw [hused, Finset.card_insert_of_notMem hnew]
      obtain ⟨tr', hrun'⟩ := run_allocate hrun h
      cases d with
      | zero =>
        have := p'.used.card_le_univ
        omega
      | succ d =>
        obtain ⟨tr₂, q, e, hq, he, hlast⟩ := exists_error d hrun' (by omega)
        refine ⟨tr₂, q, e, hq, he, Or.inr ?_⟩
        rcases hlast with rfl | hlast
        · exact ⟨tr, p, x, hrun, h⟩
        · exact hlast

/-- No call panics, and `Allocate` fails only when every address that may be
handed out is in use. -/
def FailsWhenFull (p : Pool) : Prop :=
  p.allocate ≠ .error .panicked ∧
    (p.allocate = .error .exhausted → ∀ a, p.usable a = true → a ∈ p.used)

/-- A short IPv6 prefix that fails only when full has nothing to hand out. -/
theorem usable_eq_false {v : BitVec 128} (hv : cidr.addr = .v6 v) (hbits : cidr.bits ≤ 32)
    (hall : ∀ tr p, (machine cidr reserved).Run tr p → p.FailsWhenFull) (a : Addr) :
    (new cidr reserved).usable a = false := by
  have := finite_addr
  have := Fintype.ofFinite Addr
  by_contra ha
  rw [Bool.not_eq_false] at ha
  obtain ⟨tr, q, e, hq, he, hlast⟩ :=
    exists_error _ (Machine.Run.nil (M := machine cidr reserved)) (Nat.le_add_left _ _)
  have hqb : q.pfx.bits ≤ 32 := by rw [(params_of_run hq).1, masked_bits]; exact hbits
  have hexh : q.allocate = .error .exhausted := by rw [he, (allocate_error he).2, if_pos hqb]
  have hfull := (hall tr q hq).2 hexh
  rcases hlast with rfl | ⟨tr', r, x, hr, hok⟩
  · -- the new pool holds nothing
    exact absurd (hfull a ha) (Finset.notMem_empty a)
  · obtain ⟨hsweep, hqr⟩ := allocate_ok hok
    have hx : q.usable x = true := by
      rw [usable_of_run hq, ← usable_of_run hr]
      exact (sweep_spec hsweep).1
    -- return the address handed out last
    have hQ : (machine cidr reserved).Run (tr ++ [⟨q, .release x, [], q.release x⟩]) (q.release x) :=
      hq.snoc rfl
    have hQb : (q.release x).pfx.bits ≤ 32 := hqb
    have huse : ∀ b, (q.release x).usable b = q.usable b := usable_congr rfl rfl
    obtain ⟨-, hex⟩ := hall _ _ hQ
    cases h : (q.release x).allocate with
    | error e' =>
      have he' : e' = .exhausted := by rw [(allocate_error h).2, if_pos hQb]
      have hin := hex (by rw [h, he']) x (by rw [huse, hx])
      simp at hin
    | ok y =>
      obtain ⟨y, p'⟩ := y
      obtain ⟨hfound, -⟩ := allocate_ok h
      obtain ⟨hyu, hyn⟩ := sweep_spec hfound
      -- it is the only free one
      have hyx : y = x := by
        by_contra hne
        refine hyn ?_
        rw [release_used, Finset.mem_erase]
        exact ⟨hne, hfull y (by rw [← huse, hyu])⟩
      subst hyx
      obtain ⟨n, hm⟩ := masked6_of_pfx (p := q.release y) hv (params_of_run hQ).1
      rw [if_pos hQb] at hfound
      exact hm.sweep_behind hQb (by rw [hqr]; rfl) hyu hfound

/-- **When the pool fails.** Every call of `Allocate` ends. Over all
sequences of calls, none panics and `Allocate` fails only when every address
that may be handed out is in use, exactly if the prefix is an IPv4 one, or
else a prefix of at most 32 bits with no address to hand out. -/
theorem fails_when_full_iff (cidr : Prefix) (reserved : List Addr) :
    (∀ tr p, (machine cidr reserved).Run tr p → ∃ fuel, p.loop fuel 0 p.next = some p.allocate) ∧
    ((∀ tr p, (machine cidr reserved).Run tr p → p.FailsWhenFull) ↔
      cidr.addr.is4 = true ∨ (cidr.bits ≤ 32 ∧ ∀ a, (new cidr reserved).usable a = false)) := by
  refine ⟨fun tr p _ => loop_allocate p, ?_, ?_⟩
  · intro hall
    have hvalid := cidr.valid
    cases hv : cidr.addr with
    | zero => rw [hv] at hvalid; cases hvalid
    | v4 v => exact Or.inl rfl
    | v6 v =>
      have hbits : cidr.bits ≤ 32 := by
        -- allocate until an error comes back; on a longer prefix it is the panic
        by_contra hlong
        have := finite_addr
        have := Fintype.ofFinite Addr
        obtain ⟨tr, q, e, hq, he, -⟩ :=
          exists_error _ (Machine.Run.nil (M := machine cidr reserved)) (Nat.le_add_left _ _)
        have hqb : ¬ q.pfx.bits ≤ 32 := by rw [(params_of_run hq).1, masked_bits]; exact hlong
        refine (hall tr q hq).1 ?_
        rw [he, (allocate_error he).2, if_neg hqb]
      exact Or.inr ⟨hbits, usable_eq_false hv hbits hall⟩
  · intro hcase tr p hrun
    rcases hcase with h4 | ⟨hbits, hnone⟩
    · refine ⟨fun hp => ?_, fun he => (full_of_error h4 hrun he).2⟩
      cases (full_of_error h4 hrun hp).1
    · have hpb : p.pfx.bits ≤ 32 := by rw [(params_of_run hrun).1, masked_bits]; exact hbits
      refine ⟨fun hp => ?_, fun _ a ha => ?_⟩
      · have := (allocate_error hp).2
        rw [if_pos hpb] at this
        cases this
      · rw [usable_of_run hrun, hnone] at ha
        cases ha

/-- Address `i` of `fd00::`. -/
def fd00 (i : ℕ) : Addr := .v6 (0xfd00 <<< 112 + BitVec.ofNat 128 i)

/-- On `fd00::/127` the second `Allocate` panics. On `fd00::/32` with four
reserved addresses the first one reports exhaustion, and `fd00::5` is
free. -/
theorem ipv6_fails_early :
    (∃ tr p, (machine ⟨fd00 0, 127, rfl, by decide⟩ []).Run tr p ∧
      tr.flatMap (·.out) = [.ok (fd00 1), .error .panicked]) ∧
    ∃ tr p, (machine ⟨fd00 0, 32, rfl, by decide⟩ [fd00 1, fd00 2, fd00 3, fd00 4]).Run tr p ∧
      tr.flatMap (·.out) = [.error .exhausted] ∧ p.usable (fd00 5) = true ∧ fd00 5 ∉ p.used := by
  constructor
  · exact Machine.exists_run_of_exec _ [.allocate, .allocate] (by decide +kernel)
  · exact Machine.exists_run_of_exec _ [.allocate] (by decide +kernel)

end Pool
end Ippool
end Revquic
