/-
# Go's maps

A Go map is a Mathlib `AList`: a list of key-value pairs with no key twice.
`m[k]` is `lookup`, `m[k] = v` is `insert`, `delete(m, k)` is `erase` and
`range m` is the list of entries. What the proofs need beyond Mathlib's
lemmas is the value at any key after an update, how many entries satisfy a
predicate after an update, and the map built from a list.

Key definitions: `GoMap`, `count`, `ofList`.
Key theorems: `lookup_set`, `lookup_delete`, `mem_entries`.
-/
import Mathlib.Data.List.AList

namespace Revquic
namespace Lib

/-- `map[K]V`. -/
abbrev GoMap (K V : Type*) := AList fun _ : K => V

namespace GoMap

variable {K V : Type*} [DecidableEq K]

theorem lookup_set (m : GoMap K V) (k k' : K) (v : V) :
    (m.insert k v).lookup k' = if k' = k then some v else m.lookup k' := by
  split_ifs with h
  · subst h; exact AList.lookup_insert m
  · exact AList.lookup_insert_ne h

theorem lookup_delete (m : GoMap K V) (k k' : K) :
    (m.erase k).lookup k' = if k' = k then none else m.lookup k' := by
  split_ifs with h
  · subst h; exact AList.lookup_erase _ m
  · exact AList.lookup_erase_ne h

theorem mem_entries {m : GoMap K V} {k : K} {v : V} :
    (⟨k, v⟩ : (_ : K) × V) ∈ m.entries ↔ m.lookup k = some v := by
  rw [← AList.mem_lookup_iff, Option.mem_def]

theorem mem_iff {m : GoMap K V} {k : K} : k ∈ m ↔ ∃ v, m.lookup k = some v := by
  rw [← AList.lookup_isSome, Option.isSome_iff_exists]

/-- How many entries of the map satisfy `P`. -/
def count (m : GoMap K V) (P : K → V → Bool) : ℕ := m.entries.countP fun e => P e.1 e.2

theorem count_eq_zero {m : GoMap K V} {P : K → V → Bool} :
    m.count P = 0 ↔ ∀ k v, m.lookup k = some v → P k v = false := by
  simp only [count, List.countP_eq_zero, Bool.not_eq_true]
  exact ⟨fun h k v hk => h ⟨k, v⟩ (mem_entries.mpr hk),
    fun h e he => h e.1 e.2 (mem_entries.mp he)⟩

/-- The count depends on the predicate at the map's own entries only. -/
theorem count_congr {m : GoMap K V} {P Q : K → V → Bool}
    (h : ∀ k v, m.lookup k = some v → P k v = Q k v) : m.count P = m.count Q := by
  refine List.countP_congr fun e he => ?_
  rw [h e.1 e.2 (mem_entries.mp he)]

/-- Removing an entry takes it out of the count. -/
theorem count_delete {m : GoMap K V} {k : K} {v : V} (h : m.lookup k = some v)
    (P : K → V → Bool) : count m P = count (m.erase k) P + if P k v then 1 else 0 := by
  have hk : k ∈ m.entries.keys := List.mem_keys.mpr ⟨v, mem_entries.mpr h⟩
  obtain ⟨v', l₁, l₂, -, he, hke⟩ := List.exists_of_kerase hk
  have hv : v' = v := by
    have : m.lookup k = some v' := mem_entries.mp (by rw [he]; simp)
    rw [h] at this
    exact (Option.some.inj this).symm
  subst hv
  have herase : (m.erase k).entries = l₁ ++ l₂ := hke
  simp only [count, herase, he, List.countP_append, List.countP_cons]
  omega

/-- The entry an update stores is counted, and all but the one it replaces. -/
theorem count_insert (m : GoMap K V) (k : K) (v : V) (P : K → V → Bool) :
    count (m.insert k v) P = count (m.erase k) P + if P k v then 1 else 0 := by
  simp only [count, AList.entries_insert, List.countP_cons]
  rfl

/-- Adding an entry under a new key adds it to the count. -/
theorem count_set {m : GoMap K V} {k : K} (h : m.lookup k = none) (v : V) (P : K → V → Bool) :
    count (m.insert k v) P = m.count P + if P k v then 1 else 0 := by
  have hk : k ∉ m.entries.keys := by
    rw [← List.dlookup_eq_none]; exact h
  have herase : m.erase k = m := by
    ext1
    exact List.kerase_of_notMem_keys hk
  rw [count_insert, herase]

/-- Replacing an entry by one that satisfies `P` alike leaves the count. -/
theorem count_replace {m : GoMap K V} {k : K} {v v' : V} (h : m.lookup k = some v)
    {P : K → V → Bool} (hP : P k v' = P k v) : count (m.insert k v') P = m.count P := by
  rw [count_insert, count_delete h P, hP]

/-- If two predicates differ at one entry only, where the second holds, the
counts differ by one. -/
theorem count_flip {m : GoMap K V} {k : K} {v : V} (h : m.lookup k = some v)
    {P Q : K → V → Bool} (hP : P k v = false) (hQ : Q k v = true)
    (hne : ∀ k' v', k' ≠ k → m.lookup k' = some v' → P k' v' = Q k' v') :
    m.count Q = m.count P + 1 := by
  rw [count_delete h P, count_delete h Q, hP, hQ]
  have : count (m.erase k) P = count (m.erase k) Q := by
    refine count_congr fun k' v' hk' => ?_
    rw [lookup_delete] at hk'
    split_ifs at hk' with hkk
    exact hne k' v' hkk hk'
  simp [this]

/-- The keys of the entries that satisfy `P`. -/
theorem exists_key_iff {m : GoMap K V} {P : K → V → Bool} {k : K} :
    k ∈ (m.entries.filter fun e => P e.1 e.2).map Sigma.fst ↔
      ∃ v, m.lookup k = some v ∧ P k v = true := by
  simp only [List.mem_map, List.mem_filter]
  constructor
  · rintro ⟨⟨k', v⟩, ⟨he, hP⟩, rfl⟩
    exact ⟨v, mem_entries.mp he, hP⟩
  · rintro ⟨v, hk, hP⟩
    exact ⟨⟨k, v⟩, ⟨mem_entries.mpr hk, hP⟩, rfl⟩

omit [DecidableEq K] in
theorem nodup_keys_filter (m : GoMap K V) (P : K → V → Bool) :
    ((m.entries.filter fun e => P e.1 e.2).map Sigma.fst).Nodup :=
  List.NodupKeys.sublist List.filter_sublist m.nodupKeys

/-- Two maps count the same if the same keys satisfy the two predicates. -/
theorem count_eq_of_keys {W : Type*} {m : GoMap K V} {m' : GoMap K W} {P : K → V → Bool}
    {Q : K → W → Bool} (h : ∀ k, (∃ v, m.lookup k = some v ∧ P k v = true) ↔
      ∃ w, m'.lookup k = some w ∧ Q k w = true) : m.count P = m'.count Q := by
  have hperm : ((m.entries.filter fun e => P e.1 e.2).map Sigma.fst).Perm
      ((m'.entries.filter fun e => Q e.1 e.2).map Sigma.fst) := by
    rw [List.perm_ext_iff_of_nodup]
    · intro k
      rw [exists_key_iff, exists_key_iff]
      exact h k
    · exact nodup_keys_filter m P
    · exact nodup_keys_filter m' Q
  have := hperm.length_eq
  rw [List.length_map, List.length_map] at this
  rw [count, count, List.countP_eq_length_filter, List.countP_eq_length_filter]
  exact this

/-- The map with the pairs of a list set one after the other. -/
def ofList (l : List (K × V)) : GoMap K V := l.foldl (fun m e => m.insert e.1 e.2) ∅

theorem lookup_foldl_insert : ∀ (l : List (K × V)) (m : GoMap K V), (l.map Prod.fst).Nodup →
    ∀ k v, (l.foldl (fun m e => m.insert e.1 e.2) m).lookup k = some v ↔
      (k, v) ∈ l ∨ k ∉ l.map Prod.fst ∧ m.lookup k = some v
  | [], m, _, k, v => by simp
  | (k₀, v₀) :: l, m, h, k, v => by
    rw [List.map_cons, List.nodup_cons] at h
    rw [List.foldl_cons, lookup_foldl_insert l _ h.2, lookup_set]
    by_cases hk : k = k₀
    · subst hk
      have hl : (k, v) ∉ l := fun hm => h.1 (List.mem_map.mpr ⟨_, hm, rfl⟩)
      simp [hl, h.1, eq_comm]
    · simp [hk]

/-- A map built from a list with no key twice has the list's pairs. -/
theorem lookup_ofList {l : List (K × V)} (h : (l.map Prod.fst).Nodup) {k : K} {v : V} :
    (ofList l).lookup k = some v ↔ (k, v) ∈ l := by
  rw [ofList, lookup_foldl_insert l ∅ h]
  simp

/-- A map listed value by value, each under its own key, and built again. -/
theorem lookup_ofList_entries {W : Type*} {m : GoMap K V} {f : V → K} {g : V → W}
    (h : ∀ k v, m.lookup k = some v → f v = k) {k : K} {w : W} :
    (ofList (m.entries.map fun e => (f e.2, g e.2))).lookup k = some w ↔
      ∃ v, m.lookup k = some v ∧ g v = w := by
  have hkeys : (m.entries.map fun e => (f e.2, g e.2)).map Prod.fst = m.entries.keys := by
    rw [List.map_map]
    exact List.map_congr_left fun e he => h e.1 e.2 (mem_entries.mp he)
  rw [lookup_ofList (hkeys ▸ m.nodupKeys)]
  simp only [List.mem_map, Prod.mk.injEq]
  constructor
  · rintro ⟨e, he, rfl, rfl⟩
    have he := mem_entries.mp he
    exact ⟨e.2, by rw [h _ _ he]; exact he, rfl⟩
  · rintro ⟨v, hv, rfl⟩
    exact ⟨⟨k, v⟩, mem_entries.mpr hv, h k v hv, rfl⟩

/-- The positions of those elements of a list that satisfy `p`, each under a
key of its own. -/
theorem lookup_index {α : Type*} {l : List α} {p : α → Bool} {f : α → K}
    (h : ((l.filter p).map f).Nodup) {k : K} {i : ℕ} :
    AList.lookup k (l.zipIdx.foldl (fun (m : GoMap K ℕ) e => if p e.1 then m.insert (f e.1) e.2 else m) ∅)
      = some i ↔ ∃ x, l[i]? = some x ∧ p x = true ∧ f x = k := by
  have hkeys : ((l.zipIdx.filter fun e => p e.1).map fun e => (f e.1, e.2)).map Prod.fst =
      (l.filter p).map f := by
    have hfst : (l.zipIdx.filter fun e => p e.1).map Prod.fst = l.filter p := by
      have := List.filter_map (p := p) (f := Prod.fst) (l := l.zipIdx)
      rw [List.zipIdx_map_fst] at this
      exact this.symm
    rw [← hfst, List.map_map, List.map_map]
    rfl
  have hfold : l.zipIdx.foldl (fun (m : GoMap K ℕ) e => if p e.1 then m.insert (f e.1) e.2 else m) ∅ =
      ofList ((l.zipIdx.filter fun e => p e.1).map fun e => (f e.1, e.2)) := by
    rw [ofList, List.foldl_map, List.foldl_filter]
  rw [hfold, lookup_ofList (hkeys ▸ h)]
  simp only [List.mem_map, List.mem_filter, Prod.mk.injEq, Prod.exists, List.mem_zipIdx_iff_getElem?]
  constructor
  · rintro ⟨x, j, ⟨hx, hp⟩, hk, rfl⟩
    exact ⟨x, hx, hp, hk⟩
  · rintro ⟨x, hx, hp, hk⟩
    exact ⟨x, i, ⟨hx, hp⟩, hk, rfl⟩

end GoMap
end Lib
end Revquic
