/-
# Who holds what of a pool

A ledger says which resources of a pool are in use and which owner holds
which of them. It changes in four ways: an owner acquires a free resource,
hands it over to a new owner, releases it, or disappears without releasing
it. All four keep the resources of different owners apart; the first three
keep every resource in use in some owner's hands. The fourth leaves a
resource in use that nobody holds, and it stays so for good.

Key definitions: `Ledger`, `Ledger.Step`, `Ledger.Exclusive`,
`Ledger.Covered`, `Ledger.Orphan`.
Key theorems: `Ledger.Step.exclusive`, `Ledger.Step.covered`,
`Ledger.Step.orphan`.
-/
import Mathlib.Data.Set.Insert

namespace Revquic
namespace Lib

/-- The resources in use, and their owners. -/
structure Ledger (O A : Type*) where
  used : Set A
  owns : O → A → Prop

namespace Ledger

variable {O A : Type*} {l l' : Ledger O A}

/-- `o` is gone from the ledger. -/
def Drops (l l' : Ledger O A) (o : O) : Prop := ∀ q x, l'.owns q x ↔ l.owns q x ∧ q ≠ o

/-- What may happen to a ledger; an owner is lost only if `lossy`. -/
inductive Step (lossy : Prop) (l l' : Ledger O A) : Prop
  | stay (used : l'.used = l.used) (owns : ∀ q x, l'.owns q x ↔ l.owns q x)
  | acquire (o : O) (a : A) (free : a ∉ l.used) (used : l'.used = insert a l.used)
      (owns : ∀ q x, l'.owns q x ↔ l.owns q x ∨ q = o ∧ x = a)
  | transfer (o o' : O) (used : l'.used = l.used)
      (owns : ∀ q x, l'.owns q x ↔ l.owns q x ∧ q ≠ o ∨ q = o' ∧ l.owns o x)
  | release (o : O) (a : A) (own : ∀ x, l.owns o x ↔ x = a) (used : l'.used = l.used \ {a})
      (owns : l.Drops l' o)
  | lose (o : O) (lossy : lossy) (used : l'.used = l.used) (owns : l.Drops l' o)

/-- Only resources in use are held, each by one owner. -/
structure Exclusive (l : Ledger O A) : Prop where
  used : ∀ o a, l.owns o a → a ∈ l.used
  inj : ∀ o o' a, l.owns o a → l.owns o' a → o = o'

/-- Every resource in use is held. -/
def Covered (l : Ledger O A) : Prop := ∀ a ∈ l.used, ∃ o, l.owns o a

/-- A resource in use that nobody holds. -/
def Orphan (l : Ledger O A) (a : A) : Prop := a ∈ l.used ∧ ∀ o, ¬ l.owns o a

theorem Step.exclusive {lossy : Prop} (hs : Step lossy l l') (h : l.Exclusive) : l'.Exclusive := by
  cases hs with
  | stay used owns =>
    exact ⟨fun o a ha => used ▸ h.used o a ((owns o a).1 ha),
      fun o o' a ha ha' => h.inj o o' a ((owns o a).1 ha) ((owns o' a).1 ha')⟩
  | acquire o a free used owns =>
    -- a resource held before was in use, so it is not the new one
    have hne : ∀ q, ¬ l.owns q a := fun q hq => free (h.used q a hq)
    refine ⟨?_, ?_⟩
    · intro q x hq
      rw [used]
      rcases (owns q x).1 hq with hq | ⟨-, rfl⟩
      · exact Set.mem_insert_of_mem _ (h.used q x hq)
      · exact Set.mem_insert _ _
    · intro q q' x hq hq'
      rcases (owns q x).1 hq with hq | ⟨rfl, rfl⟩ <;> rcases (owns q' x).1 hq' with hq' | ⟨rfl, hx⟩
      · exact h.inj q q' x hq hq'
      · exact absurd (hx ▸ hq) (hne q)
      · exact absurd hq' (hne q')
      · rfl
  | transfer o o' used owns =>
    refine ⟨?_, ?_⟩
    · intro q x hq
      rw [used]
      rcases (owns q x).1 hq with ⟨hq, -⟩ | ⟨-, hq⟩
      · exact h.used q x hq
      · exact h.used o x hq
    · intro q q' x hq hq'
      rcases (owns q x).1 hq with ⟨hq, hqo⟩ | ⟨rfl, hq⟩ <;>
        rcases (owns q' x).1 hq' with ⟨hq', hqo'⟩ | ⟨rfl, hq'⟩
      · exact h.inj q q' x hq hq'
      · exact absurd (h.inj q o x hq hq') hqo
      · exact absurd (h.inj q' o x hq' hq) hqo'
      · rfl
  | release o a own used owns =>
    refine ⟨?_, ?_⟩
    · intro q x hq
      obtain ⟨hq, hqo⟩ := (owns q x).1 hq
      rw [used]
      refine ⟨h.used q x hq, ?_⟩
      rintro rfl
      exact hqo (h.inj q o x hq ((own x).2 rfl))
    · intro q q' x hq hq'
      exact h.inj q q' x ((owns q x).1 hq).1 ((owns q' x).1 hq').1
  | lose o _ used owns =>
    exact ⟨fun q a ha => used ▸ h.used q a ((owns q a).1 ha).1,
      fun q q' a ha ha' => h.inj q q' a ((owns q a).1 ha).1 ((owns q' a).1 ha').1⟩

theorem Step.covered {lossy : Prop} (hs : Step lossy l l') (hn : ¬ lossy) (h : l.Covered) :
    l'.Covered := by
  intro a ha
  cases hs with
  | stay used owns =>
    obtain ⟨o, ho⟩ := h a (used ▸ ha)
    exact ⟨o, (owns o a).2 ho⟩
  | acquire o a' free used owns =>
    rw [used] at ha
    rcases ha with rfl | ha
    · exact ⟨o, (owns o a).2 (Or.inr ⟨rfl, rfl⟩)⟩
    · obtain ⟨q, hq⟩ := h a ha
      exact ⟨q, (owns q a).2 (Or.inl hq)⟩
  | transfer o o' used owns =>
    obtain ⟨q, hq⟩ := h a (used ▸ ha)
    by_cases hqo : q = o
    · exact ⟨o', (owns o' a).2 (Or.inr ⟨rfl, hqo ▸ hq⟩)⟩
    · exact ⟨q, (owns q a).2 (Or.inl ⟨hq, hqo⟩)⟩
  | release o a' own used owns =>
    rw [used] at ha
    obtain ⟨q, hq⟩ := h a ha.1
    refine ⟨q, (owns q a).2 ⟨hq, ?_⟩⟩
    rintro rfl
    exact ha.2 ((own a).1 hq)
  | lose o hl => exact absurd hl hn

/-- What nobody holds is never held or released again. -/
theorem Step.orphan {lossy : Prop} (hs : Step lossy l l') {a : A} (h : l.Orphan a) :
    l'.Orphan a := by
  obtain ⟨ha, hno⟩ := h
  cases hs with
  | stay used owns => exact ⟨used ▸ ha, fun q hq => hno q ((owns q a).1 hq)⟩
  | acquire o a' free used owns =>
    refine ⟨used ▸ Set.mem_insert_of_mem _ ha, fun q hq => ?_⟩
    rcases (owns q a).1 hq with hq | ⟨-, rfl⟩
    · exact hno q hq
    · exact free ha
  | transfer o o' used owns =>
    refine ⟨used ▸ ha, fun q hq => ?_⟩
    rcases (owns q a).1 hq with ⟨hq, -⟩ | ⟨-, hq⟩
    · exact hno q hq
    · exact hno o hq
  | release o a' own used owns =>
    refine ⟨used ▸ ⟨ha, ?_⟩, fun q hq => hno q ((owns q a).1 hq).1⟩
    rintro rfl
    exact hno o ((own a).2 rfl)
  | lose o _ used owns => exact ⟨used ▸ ha, fun q hq => hno q ((owns q a).1 hq).1⟩

/-- An owner that is lost leaves its resource behind. -/
theorem Exclusive.orphan_of_lose (h : l.Exclusive) {o : O} {a : A} (ho : l.owns o a)
    (used : l'.used = l.used) (owns : l.Drops l' o) : l'.Orphan a := by
  refine ⟨used ▸ h.used o a ho, fun q hq => ?_⟩
  obtain ⟨hq, hqo⟩ := (owns q a).1 hq
  exact hqo (h.inj q o a hq ho)

theorem Orphan.not_covered {a : A} (h : l.Orphan a) : ¬ l.Covered := by
  intro hc
  obtain ⟨q, hq⟩ := hc a h.1
  exact h.2 q hq

end Ledger
end Lib
end Revquic
