/-
# Leases

What a broker of sessions is for, without its goroutines, timers and maps. A
lease gives a user an address at an exit node, under an id that is used once.
It is parked when the user is gone and taken up again when they come back in
time. It ends when it is closed, or when it has been parked for long enough
once; then its address is free again.

Two leases may be parked under one key. Only the later one can be found, so
parking forgets a lease that was parked under the key before: it ends, and
its address is lost. Every address is granted and given back in turns.

Key definitions: `Lease`, `State`, `Step`, `Run`.
Key theorem: `Run.balance`.
-/
import Mathlib.Data.List.Count
import Mathlib.Data.Set.Insert
import Mathlib.Logic.Function.Basic

namespace Revquic
namespace Service

variable {U N A K : Type*}

/-- A lease: who has which address at which node. `parks` are the times at
which it was parked, the latest first. -/
structure Lease (U N A K : Type*) where
  user : U
  node : N
  addr : A
  key : K
  parks : List ℕ := []
  parked : Bool := false

/-- The leases by id, the ids used so far, and the addresses lost. -/
structure State (U N A K : Type*) where
  now : ℕ
  ids : Set ℕ
  lease : ℕ → Option (Lease U N A K)
  lost : Set A

def init : State U N A K := ⟨0, ∅, fun _ => none, ∅⟩

inductive Act (U N A K : Type*)
  | wait (d : ℕ)
  | grant (i : ℕ) (l : Lease U N A K)
  | park (i : ℕ)
  | resume (i : ℕ) (user : U)
  | close (i : ℕ)
  | expire (i : ℕ)

namespace State

def put (s : State U N A K) (i : ℕ) (l : Lease U N A K) : State U N A K :=
  { s with lease := Function.update s.lease i (some l) }

def remove (s : State U N A K) (i : ℕ) : State U N A K :=
  { s with lease := Function.update s.lease i none }

/-- A lease is parked under the key. -/
def ParkedUnder (s : State U N A K) (key : K) (j : ℕ) (l : Lease U N A K) : Prop :=
  s.lease j = some l ∧ l.parked = true ∧ l.key = key

/-- The lease parked under the key is forgotten. -/
def forget [DecidableEq K] (s : State U N A K) (key : K) : State U N A K :=
  { s with
    lease := fun j => (s.lease j).filter fun l => ¬ (l.parked = true ∧ l.key = key)
    lost := s.lost ∪ { a | ∃ j l, s.ParkedUnder key j l ∧ l.addr = a } }

/-- Somebody has the address. -/
def Held (s : State U N A K) (a : A) : Prop := ∃ i l, s.lease i = some l ∧ l.addr = a

/-- The address is not free. -/
def Taken (s : State U N A K) (a : A) : Prop := s.Held a ∨ a ∈ s.lost

end State

/-- What may happen, and which addresses are given back. -/
inductive Step [DecidableEq K] (ttl : ℤ) (s : State U N A K) :
    Act U N A K → List A → State U N A K → Prop
  | wait (d : ℕ) : Step ttl s (.wait d) [] { s with now := s.now + d }
  | grant (i : ℕ) (user : U) (node : N) (addr : A) (key : K) (fresh : i ∉ s.ids)
      (free : ¬ s.Taken addr) :
      Step ttl s (.grant i { user, node, addr, key }) []
        ({ s with ids := insert i s.ids }.put i { user, node, addr, key })
  | park (i : ℕ) (l : Lease U N A K) (found : s.lease i = some l) (up : l.parked = false) :
      Step ttl s (.park i) []
        ((s.forget l.key).put i { l with parked := true, parks := s.now :: l.parks })
  | resume (i : ℕ) (l : Lease U N A K) (t : ℕ) (found : s.lease i = some l) (parked : l.parked = true)
      (last : l.parks.head? = some t) (young : (s.now : ℤ) - t < ttl) :
      Step ttl s (.resume i l.user) [] (s.put i { l with parked := false })
  | close (i : ℕ) (l : Lease U N A K) (found : s.lease i = some l) (up : l.parked = false) :
      Step ttl s (.close i) [l.addr] (s.remove i)
  | expire (i : ℕ) (l : Lease U N A K) (t : ℕ) (found : s.lease i = some l) (parked : l.parked = true)
      (once : t ∈ l.parks) (old : (t : ℤ) + ttl ≤ s.now) :
      Step ttl s (.expire i) [l.addr] (s.remove i)

/-- A run: what has happened, and the addresses given back, in order. -/
inductive Run [DecidableEq K] (ttl : ℤ) : List (Act U N A K) → List A → State U N A K → Prop
  | nil : Run ttl [] [] init
  | snoc {as : List (Act U N A K)} {freed : List A} {s s' : State U N A K} {a : Act U N A K}
      {f : List A} (run : Run ttl as freed s) (step : Step ttl s a f s') :
      Run ttl (as ++ [a]) (freed ++ f) s'

/-- How often the address was granted. -/
def grants [DecidableEq A] (a : A) (as : List (Act U N A K)) : ℕ :=
  as.countP fun
    | .grant _ l => l.addr = a
    | _ => false

theorem grants_append [DecidableEq A] (a : A) (as bs : List (Act U N A K)) :
    grants a (as ++ bs) = grants a as + grants a bs := List.countP_append ..

theorem grants_singleton [DecidableEq A] {a : A} {act : Act U N A K}
    (h : ∀ i l, act = .grant i l → l.addr ≠ a) : grants a [act] = 0 := by
  cases act with
  | grant i l => simp [grants, h i l rfl]
  | _ => rfl

/-! ### Addresses are granted and given back in turns -/

/-- Every lease has an id that was used, no two leases have one address, and no
lease has one that is lost. -/
structure Sound (s : State U N A K) : Prop where
  used : ∀ {i l}, s.lease i = some l → i ∈ s.ids
  inj : ∀ {i j l l'}, s.lease i = some l → s.lease j = some l' → l.addr = l'.addr → i = j
  kept : ∀ {i l}, s.lease i = some l → l.addr ∉ s.lost

theorem Sound.init : Sound (init : State U N A K) := ⟨nofun, nofun, nofun⟩

section
variable {s : State U N A K} {i j : ℕ} {l l' : Lease U N A K} {a : A}

theorem put_lease : (s.put i l).lease j = if j = i then some l else s.lease j := by
  show Function.update s.lease i (some l) j = _
  rw [Function.update_apply]

theorem remove_lease : (s.remove i).lease j = if j = i then none else s.lease j := by
  show Function.update s.lease i none j = _
  rw [Function.update_apply]

theorem forget_lease [DecidableEq K] {key : K} : (s.forget key).lease j = some l ↔
    s.lease j = some l ∧ ¬ (l.parked = true ∧ l.key = key) := by
  show (s.lease j).filter _ = some l ↔ _
  rw [Option.filter_eq_some_iff, decide_eq_true_eq]

/-- A lease is replaced by one with the same address. -/
theorem held_put (hi : s.lease i = some l) (ha : l'.addr = l.addr) :
    (s.put i l').Held a ↔ s.Held a := by
  constructor
  · rintro ⟨j, k, hj, rfl⟩
    rw [put_lease] at hj
    split_ifs at hj with hji
    · cases hj
      exact ⟨i, l, hi, ha.symm⟩
    · exact ⟨j, k, hj, rfl⟩
  · rintro ⟨j, k, hj, rfl⟩
    by_cases hji : j = i
    · subst hji
      rw [hi] at hj
      cases hj
      exact ⟨j, l', by rw [put_lease, if_pos rfl], ha⟩
    · exact ⟨j, k, by rw [put_lease, if_neg hji]; exact hj, rfl⟩

theorem Sound.put (h : Sound s) (hi : s.lease i = some l) (ha : l'.addr = l.addr) :
    Sound (s.put i l') where
  used {j m} hj := by
    rw [put_lease] at hj
    split_ifs at hj with hji
    · rw [hji]
      exact h.used hi
    · exact h.used hj
  inj {j k m m'} hj hk heq := by
    rw [put_lease] at hj hk
    split_ifs at hj hk with hji hki hki
    · rw [hji, hki]
    · cases hj
      exact absurd (h.inj hk hi (by rw [← heq, ha])) hki
    · cases hk
      exact absurd (h.inj hj hi (by rw [heq, ha])) hji
    · exact h.inj hj hk heq
  kept {j m} hj := by
    rw [put_lease] at hj
    split_ifs at hj with hji
    · cases hj
      rw [ha]
      exact h.kept hi
    · exact h.kept hj

theorem Sound.remove (h : Sound s) (i : ℕ) : Sound (s.remove i) where
  used {j m} hj := by
    rw [remove_lease] at hj
    split_ifs at hj
    exact h.used hj
  inj {j k m m'} hj hk heq := by
    rw [remove_lease] at hj hk
    split_ifs at hj hk
    exact h.inj hj hk heq
  kept {j m} hj := by
    rw [remove_lease] at hj
    split_ifs at hj
    exact h.kept hj

theorem held_remove (h : Sound s) (hi : s.lease i = some l) :
    (s.remove i).Held a ↔ s.Held a ∧ a ≠ l.addr := by
  constructor
  · rintro ⟨j, k, hj, rfl⟩
    rw [remove_lease] at hj
    split_ifs at hj with hji
    exact ⟨⟨j, k, hj, rfl⟩, fun heq => hji (h.inj hj hi heq)⟩
  · rintro ⟨⟨j, k, hj, rfl⟩, hne⟩
    refine ⟨j, k, ?_, rfl⟩
    rw [remove_lease, if_neg]
    · exact hj
    · rintro rfl
      rw [hi] at hj
      cases hj
      exact hne rfl

theorem taken_put (hi : s.lease i = some l) (ha : l'.addr = l.addr) :
    (s.put i l').Taken a ↔ s.Taken a := or_congr_left (held_put hi ha)

theorem taken_remove (h : Sound s) (hi : s.lease i = some l) :
    (s.remove i).Taken a ↔ s.Taken a ∧ a ≠ l.addr := by
  show (s.remove i).Held a ∨ a ∈ s.lost ↔ _
  rw [held_remove h hi]
  constructor
  · rintro (⟨hheld, hne⟩ | hlost)
    · exact ⟨Or.inl hheld, hne⟩
    · exact ⟨Or.inr hlost, fun heq => h.kept hi (heq ▸ hlost)⟩
  · rintro ⟨hheld | hlost, hne⟩
    · exact Or.inl ⟨hheld, hne⟩
    · exact Or.inr hlost

theorem taken_of_remove (h : Sound s) (hi : s.lease i = some l) :
    [l.addr] = [a] ∧ s.Taken a ∧ ¬ (s.remove i).Taken a ∨
      a ∉ [l.addr] ∧ ((s.remove i).Taken a ↔ s.Taken a) := by
  rw [taken_remove h hi, List.mem_singleton]
  by_cases ha : a = l.addr
  · exact Or.inl ⟨by rw [ha], Or.inl ⟨i, l, hi, ha.symm⟩, fun hn => hn.2 ha⟩
  · exact Or.inr ⟨ha, and_iff_left ha⟩

variable [DecidableEq K]

theorem Sound.forget (h : Sound s) (key : K) : Sound (s.forget key) where
  used hj := h.used (forget_lease.mp hj).1
  inj hj hk heq := h.inj (forget_lease.mp hj).1 (forget_lease.mp hk).1 heq
  kept {j m} hj := by
    obtain ⟨hj, hother⟩ := forget_lease.mp hj
    rintro (hlost | ⟨k, m', ⟨hk, hparked, hkey⟩, heq⟩)
    · exact h.kept hj hlost
    · obtain rfl := h.inj hk hj heq
      rw [hj] at hk
      cases hk
      exact hother ⟨hparked, hkey⟩

/-- What is forgotten is lost, and still taken. -/
theorem taken_forget {key : K} : (s.forget key).Taken a ↔ s.Taken a := by
  constructor
  · rintro (⟨j, m, hj, rfl⟩ | hlost | ⟨j, m, hj, rfl⟩)
    · exact Or.inl ⟨j, m, (forget_lease.mp hj).1, rfl⟩
    · exact Or.inr hlost
    · exact Or.inl ⟨j, m, hj.1, rfl⟩
  · rintro (⟨j, m, hj, rfl⟩ | hlost)
    · by_cases hm : m.parked = true ∧ m.key = key
      · exact Or.inr (Or.inr ⟨j, m, ⟨hj, hm⟩, rfl⟩)
      · exact Or.inl ⟨j, m, forget_lease.mpr ⟨hj, hm⟩, rfl⟩
    · exact Or.inr (Or.inl hlost)

/-- A lease that is not parked is not forgotten. -/
theorem forget_up {key : K} (hi : s.lease i = some l) (hup : l.parked = false) :
    (s.forget key).lease i = some l :=
  forget_lease.mpr ⟨hi, fun h => by rw [hup] at h; cases h.1⟩

variable {ttl : ℤ} {s' : State U N A K} {f : List A} {act : Act U N A K}

theorem Step.sound (hs : Step ttl s act f s') (h : Sound s) : Sound s' := by
  cases hs with
  | wait d => exact ⟨h.used, h.inj, h.kept⟩
  | grant i user node addr key fresh free =>
    have hfree : ∀ {j m}, s.lease j = some m → m.addr ≠ addr := fun hj heq =>
      free (Or.inl ⟨_, _, hj, heq⟩)
    refine ⟨fun {j m} hj => ?_, fun {j k m m'} hj hk heq => ?_, fun {j m} hj => ?_⟩
    · rw [put_lease] at hj
      split_ifs at hj with hji
      · exact Or.inl hji
      · exact Or.inr (h.used hj)
    · rw [put_lease] at hj hk
      split_ifs at hj hk with hji hki hki
      · rw [hji, hki]
      · cases hj
        exact absurd heq.symm (hfree hk)
      · cases hk
        exact absurd heq (hfree hj)
      · exact h.inj hj hk heq
    · rw [put_lease] at hj
      split_ifs at hj with hji
      · cases hj
        exact fun hlost => free (Or.inr hlost)
      · exact h.kept hj
  | park i l found up => exact (h.forget l.key).put (forget_up found up) rfl
  | resume i l t found parked last young => exact h.put found rfl
  | close i l found up => exact h.remove i
  | expire i l t found parked once old => exact h.remove i

/-- Which addresses are taken after a step. -/
theorem Step.taken (hs : Step ttl s act f s') (h : Sound s) (a : A) :
    (∃ i l, act = .grant i l ∧ l.addr = a ∧ f = [] ∧ ¬ s.Taken a ∧ s'.Taken a) ∨
    ((∀ i l, act = .grant i l → l.addr ≠ a) ∧
      (f = [a] ∧ s.Taken a ∧ ¬ s'.Taken a ∨ a ∉ f ∧ (s'.Taken a ↔ s.Taken a))) := by
  cases hs with
  | wait d => exact Or.inr ⟨nofun, Or.inr ⟨List.not_mem_nil, Iff.rfl⟩⟩
  | grant i user node addr key fresh free =>
    by_cases ha : addr = a
    · subst ha
      exact Or.inl ⟨i, _, rfl, rfl, rfl, free, Or.inl ⟨i, _, by rw [put_lease, if_pos rfl], rfl⟩⟩
    · refine Or.inr ⟨?_, Or.inr ⟨List.not_mem_nil, or_congr_left ?_⟩⟩
      · rintro j l heq
        cases heq
        exact ha
      · constructor
        · rintro ⟨j, m, hj, rfl⟩
          rw [put_lease] at hj
          split_ifs at hj
          · cases hj
            exact absurd rfl ha
          · exact ⟨j, m, hj, rfl⟩
        · rintro ⟨j, m, hj, rfl⟩
          refine ⟨j, m, ?_, rfl⟩
          rw [put_lease, if_neg]
          · exact hj
          · rintro rfl
            exact fresh (h.used hj)
  | park i l found up =>
    have hput : ((s.forget l.key).put i { l with parked := true, parks := s.now :: l.parks }).Taken a ↔
        (s.forget l.key).Taken a := taken_put (forget_up found up) rfl
    exact Or.inr ⟨nofun, Or.inr ⟨List.not_mem_nil, hput.trans taken_forget⟩⟩
  | resume i l t found parked last young =>
    exact Or.inr ⟨nofun, Or.inr ⟨List.not_mem_nil, taken_put found rfl⟩⟩
  | close i l found up | expire i l t found parked once old =>
    exact Or.inr ⟨nofun, taken_of_remove h found⟩

/-- **Addresses are granted and given back in turns**: an address has been
granted as often as it was given back, and once more if it is held or lost. -/
theorem Run.balance [DecidableEq A] {as : List (Act U N A K)} {freed : List A}
    (h : Run ttl as freed s) : Sound s ∧ ∀ a,
      (s.Taken a → grants a as = freed.count a + 1) ∧ (¬ s.Taken a → grants a as = freed.count a) := by
  induction h with
  | nil =>
    refine ⟨.init, fun a => ⟨?_, fun _ => rfl⟩⟩
    rintro (⟨i, l, hi, -⟩ | hlost)
    · cases hi
    · cases hlost
  | snoc run step ih =>
    obtain ⟨hsound, hbal⟩ := ih
    refine ⟨step.sound hsound, fun a => ?_⟩
    obtain ⟨htaken, hfree⟩ := hbal a
    rw [grants_append, List.count_append]
    rcases step.taken hsound a with ⟨i, l, rfl, ha, rfl, hbefore, hafter⟩ | ⟨hother, hrest⟩
    · have hone : grants a [Act.grant i l] = 1 := by
        simp [grants, ha]
      rw [hone, hfree hbefore]
      exact ⟨fun _ => rfl, fun hn => absurd hafter hn⟩
    · have hzero := grants_singleton hother
      rw [hzero]
      rcases hrest with ⟨rfl, hbefore, hafter⟩ | ⟨hf, hiff⟩
      · rw [htaken hbefore, List.count_singleton_self]
        exact ⟨fun ht => absurd ht hafter, fun _ => rfl⟩
      · rw [hiff, List.count_eq_zero_of_not_mem hf]
        exact ⟨htaken, hfree⟩

end

end Service
end Revquic
