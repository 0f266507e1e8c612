/-
# Going round a list

A sequence goes round a list if it runs through it in order, from some
element on, and from the last back to the first. Then every window of it that
is as long as the list has each element once. A sequence drawn with tickets,
each taken modulo the length, goes round the list exactly if each ticket is
the successor of the one before, modulo the length.

Key definition: `Rounds`.
Key theorems: `Rounds.window`, `rounds_iff_isChain`, `isChain_filterMap_iff`.
-/
import Mathlib.Data.List.Chain
import Mathlib.Data.List.Rotate
import Mathlib.Data.Nat.ModEq

namespace Revquic
namespace Lib

variable {α β : Type*} {l w v : List α}

/-- `w` runs through `l` in cyclic order. -/
def Rounds (l w : List α) : Prop := ∃ i, ∀ j < w.length, w[j]? = l[(i + j) % l.length]?

/-- A window as long as the list is a rotation of it. -/
theorem Rounds.window (h : Rounds l w) (hv : v <:+: w) (hlen : v.length = l.length) : v.Perm l := by
  obtain ⟨i, hi⟩ := h
  obtain ⟨a, b, rfl⟩ := hv
  have hrot : v = l.rotate (i + a.length) := by
    refine List.ext_getElem? fun j => ?_
    rcases Nat.lt_or_ge j l.length with hj | hj
    · have hwin : (a ++ v ++ b)[a.length + j]? = v[j]? := by
        rw [List.append_assoc, List.getElem?_append_right (Nat.le_add_right _ _), Nat.add_sub_cancel_left,
          List.getElem?_append_left (by omega)]
      rw [← hwin, hi (a.length + j) (by simp; omega), List.getElem?_rotate hj]
      congr 2
      omega
    · rw [List.getElem?_eq_none (by omega), List.getElem?_eq_none (by simpa using hj)]
  rw [hrot]
  exact List.rotate_perm _ _

/-- What tickets draw goes round the list if each ticket follows the one
before, modulo the length of the list. -/
theorem rounds_iff_isChain (hl : l.Nodup) {ps : List (ℕ × α)}
    (hps : ∀ p ∈ ps, l[p.1 % l.length]? = some p.2) :
    Rounds l (ps.map Prod.snd) ↔ ps.IsChain fun p q => q.1 ≡ p.1 + 1 [MOD l.length] := by
  have hget : ∀ {j} (hj : j < ps.length), l[ps[j].1 % l.length]? = some ps[j].2 :=
    fun hj => hps _ (List.getElem_mem hj)
  rw [List.isChain_iff_getElem]
  constructor
  · rintro ⟨i, hi⟩ j hj
    -- the place of a ticket in the list is known, since no element is there twice
    have hplace : ∀ {k} (hk : k < ps.length), ps[k].1 ≡ i + k [MOD l.length] := by
      intro k hk
      have hsame : l[ps[k].1 % l.length]? = l[(i + k) % l.length]? := by
        rw [hget hk, ← hi k (by simpa using hk), List.getElem?_map, List.getElem?_eq_getElem hk]
        rfl
      have hpos : ps[k].1 % l.length < l.length := by
        by_contra hlt
        have := hget hk
        rw [List.getElem?_eq_none (Nat.le_of_not_lt hlt)] at this
        cases this
      exact (List.getElem?_inj hpos hl).mp hsame
    calc ps[j + 1].1 ≡ i + (j + 1) [MOD l.length] := hplace hj
      _ = i + j + 1 := (Nat.add_assoc _ _ _).symm
      _ ≡ ps[j].1 + 1 [MOD l.length] := (hplace (Nat.lt_of_succ_lt hj)).symm.add_right 1
  · intro h
    rcases ps.eq_nil_or_concat with rfl | ⟨_, _, _⟩
    · exact ⟨0, fun j hj => by simp at hj⟩
    · have h0 : 0 < ps.length := by simp_all
      have hplace : ∀ j (hj : j < ps.length), ps[j].1 ≡ ps[0].1 + j [MOD l.length] := by
        intro j
        induction j with
        | zero => exact fun _ => Nat.ModEq.refl _
        | succ j ih =>
          intro hj
          exact (h j hj).trans ((ih (Nat.lt_of_succ_lt hj)).add_right 1)
      refine ⟨ps[0].1, fun j hj => ?_⟩
      rw [List.length_map] at hj
      have hmod : ps[j].1 % l.length = (ps[0].1 + j) % l.length := hplace j hj
      rw [← hmod, hget hj, List.getElem?_map, List.getElem?_eq_getElem hj]
      rfl

/-- Successive values of `f` along a list are related if any two elements
are that have a value and between which there is none. -/
theorem isChain_filterMap_iff {f : α → Option β} {P : β → β → Prop} : ∀ l : List α,
    (l.filterMap f).IsChain P ↔ ∀ x e m e' y, l = x ++ e :: (m ++ e' :: y) →
      (∀ d ∈ m, f d = none) → ∀ r ∈ f e, ∀ r' ∈ f e', P r r'
  | [] => by simp
  | a :: l => by
    have ih := isChain_filterMap_iff (f := f) (P := P) l
    -- a pair in `a :: l` is one in `l`, or starts at `a`
    have hsplit : (∀ x e m e' y, a :: l = x ++ e :: (m ++ e' :: y) →
        (∀ d ∈ m, f d = none) → ∀ r ∈ f e, ∀ r' ∈ f e', P r r') ↔
        (∀ m e' y, l = m ++ e' :: y → (∀ d ∈ m, f d = none) → ∀ r ∈ f a, ∀ r' ∈ f e', P r r') ∧
        (l.filterMap f).IsChain P := by
      rw [ih]
      constructor
      · intro h
        exact ⟨fun m e' y hl => h [] a m e' y (by rw [hl]; rfl),
          fun x e m e' y hl => h (a :: x) e m e' y (by rw [hl]; rfl)⟩
      · rintro ⟨h1, h2⟩ x e m e' y hl
        cases x with
        | nil =>
          obtain ⟨rfl, rfl⟩ := List.cons.inj hl
          exact h1 m e' y rfl
        | cons b x =>
          obtain ⟨-, rfl⟩ := List.cons.inj hl
          exact h2 x e m e' y rfl
    rw [hsplit]
    cases ha : f a with
    | none => simp [ha]
    | some r =>
      rw [List.filterMap_cons_some ha, List.isChain_cons]
      refine and_congr_left fun _ => ?_
      have hhead : ∀ r', r' ∈ (l.filterMap f).head? ↔
          ∃ m e' y, l = m ++ e' :: y ∧ (∀ d ∈ m, f d = none) ∧ r' ∈ f e' := by
        intro r'
        rw [List.head?_filterMap, Option.mem_def, List.findSome?_eq_some_iff]
        constructor
        · rintro ⟨m, e', y, hl, he, hm⟩
          exact ⟨m, e', y, hl, hm, he⟩
        · rintro ⟨m, e', y, hl, hm, he⟩
          exact ⟨m, e', y, hl, he, hm⟩
      constructor
      · intro h m e' y hl hm r₀ hr₀ r' hr'
        obtain rfl := Option.mem_some_iff.mp hr₀
        exact h r' ((hhead r').mpr ⟨m, e', y, hl, hm, hr'⟩)
      · intro h r' hr'
        obtain ⟨m, e', y, hl, hm, he⟩ := (hhead r').mp hr'
        exact h m e' y hl hm r rfl r' he

end Lib
end Revquic
