/-
# Machines and their runs

A machine takes one action at a time and puts out a list of outputs. A run is
the sequence of its steps from the initial state, oldest first, each with the
state before and after it, so that a property of a run can speak of what was
sent, when, and in which state.

Key definitions: `Machine`, `Event`, `Machine.Run`, `Machine.exec`.
Key theorems: `Machine.Run.invariant`, `Machine.Run.invariant_of`,
`Machine.Run.forall_iff`, `Machine.Run.invariant_since`,
`Machine.Run.at_event`, `Machine.Run.image`, `Machine.exists_run`.
-/
import Mathlib.Data.List.Basic
import Mathlib.Data.List.Induction

namespace Revquic
namespace Lib

/-- A deterministic machine with outputs; an action that is not enabled has
no step. -/
structure Machine (σ α ω : Type*) where
  init : σ
  step : σ → α → Option (σ × List ω)

/-- One step of a run. -/
structure Event (σ α ω : Type*) where
  pre : σ
  act : α
  out : List ω
  post : σ

/-- What holds of every element of a list and the elements before it. -/
theorem forall_split_concat {β : Type*} {P : List β → β → Prop} {l : List β} {a : β} :
    (∀ x e y, l ++ [a] = x ++ e :: y → P x e) ↔ (∀ x e y, l = x ++ e :: y → P x e) ∧ P l a := by
  constructor
  · intro h
    exact ⟨fun x e y hl => h x e (y ++ [a]) (by simp [hl]), h l a [] rfl⟩
  · rintro ⟨hl, ha⟩ x e y heq
    rcases List.eq_nil_or_concat y with rfl | ⟨y, b, rfl⟩
    · obtain ⟨rfl, hlast⟩ := List.append_inj' heq rfl
      obtain rfl := List.singleton_inj.mp hlast
      exact ha
    · rw [List.concat_eq_append, ← List.cons_append, ← List.append_assoc] at heq
      exact hl x e y (List.append_inj' heq rfl).1

/-- Such a statement is decidable: the elements before one are the list up to
its index. -/
instance decidableForallSplit {β : Type*} {P : List β → β → Prop} [∀ x, DecidablePred (P x)]
    (l : List β) : Decidable (∀ x e y, l = x ++ e :: y → P x e) :=
  decidable_of_iff (∀ n : Fin l.length, P (l.take n) (l.get n)) <| by
    constructor
    · rintro h x e y rfl
      simpa using h ⟨x.length, by simp⟩
    · intro h n
      exact h _ _ (l.drop (n + 1)) (by simp)

namespace Machine

variable {σ α ω : Type*} (M : Machine σ α ω)

/-- The runs of a machine: the steps taken from `M.init`, and the state
reached. -/
inductive Run : List (Event σ α ω) → σ → Prop
  | nil : Run [] M.init
  | snoc {tr : List (Event σ α ω)} {s s' : σ} {a : α} {o : List ω} :
      Run tr s → M.step s a = some (s', o) → Run (tr ++ [⟨s, a, o, s'⟩]) s'

variable {M}

/-- What holds at the start and survives every step that meets `C` holds
after every run whose steps all meet `C`. -/
theorem Run.invariant_of {I : σ → Prop} {C : Event σ α ω → Prop} (h0 : I M.init)
    (hs : ∀ s a s' o, I s → M.step s a = some (s', o) → C ⟨s, a, o, s'⟩ → I s')
    {tr : List (Event σ α ω)} {s : σ} (h : M.Run tr s) : (∀ e ∈ tr, C e) → I s := by
  induction h with
  | nil => exact fun _ => h0
  | snoc _ hstep ih =>
    intro hC
    simp only [List.mem_append, List.mem_singleton] at hC
    exact hs _ _ _ _ (ih fun e he => hC e (Or.inl he)) hstep (hC _ (Or.inr rfl))

/-- What holds at the start and survives every step holds after every run. -/
theorem Run.invariant {I : σ → Prop} (h0 : I M.init)
    (hs : ∀ s a s' o, I s → M.step s a = some (s', o) → I s')
    {tr : List (Event σ α ω)} {s : σ} (h : M.Run tr s) : I s :=
  Run.invariant_of (C := fun _ => True) h0 (fun s a s' o hI hstep _ => hs s a s' o hI hstep) h
    fun _ _ => trivial

/-- If in the states that satisfy `I` a step is good (`G`) exactly if it meets
`C`, and then leads to such a state again, then all steps of a run are good
exactly if all of them meet `C`. `D` is what every step is known to do. -/
theorem Run.forall_iff {I : σ → Prop} {D G C : Event σ α ω → Prop} (h0 : I M.init)
    (hs : ∀ s a s' o, I s → M.step s a = some (s', o) → D ⟨s, a, o, s'⟩ →
      (G ⟨s, a, o, s'⟩ ↔ C ⟨s, a, o, s'⟩) ∧ (C ⟨s, a, o, s'⟩ → I s'))
    {tr : List (Event σ α ω)} {s : σ} (h : M.Run tr s) :
    (∀ e ∈ tr, D e) → ((∀ e ∈ tr, G e) ↔ ∀ e ∈ tr, C e) := by
  induction h with
  | nil => simp
  | @snoc tr s s' a o hr hstep ih =>
    simp only [List.mem_append, List.mem_singleton, or_imp, forall_and, forall_eq]
    rintro ⟨hD, hlast⟩
    have hI : (∀ e ∈ tr, C e) → I s := fun hC => by
      refine hr.invariant_of (C := fun e => C e ∧ D e) h0 ?_ fun e he => ⟨hC e he, hD e he⟩
      exact fun s a s' o hI hs' hc => (hs s a s' o hI hs' hc.2).2 hc.1
    constructor
    · rintro ⟨hG, hg⟩
      have hC := (ih hD).mp hG
      exact ⟨hC, (hs s a s' o (hI hC) hstep hlast).1.mp hg⟩
    · rintro ⟨hC, hc⟩
      exact ⟨(ih hD).mpr hC, (hs s a s' o (hI hC) hstep hlast).1.mpr hc⟩

/-- A step of a run is taken in a state that the steps before it reach. -/
theorem Run.at_event {tr : List (Event σ α ω)} {s : σ} (h : M.Run tr s) :
    ∀ {tr₁ tr₂ : List (Event σ α ω)} {e : Event σ α ω}, tr = tr₁ ++ e :: tr₂ →
      M.Run tr₁ e.pre ∧ M.step e.pre e.act = some (e.post, e.out) := by
  induction h with
  | nil => intro tr₁ tr₂ e he; simp at he
  | @snoc tr s s' a o hr hstep ih =>
    intro tr₁ tr₂ e he
    rcases List.eq_nil_or_concat tr₂ with rfl | ⟨tr₃, e', rfl⟩
    · obtain ⟨rfl, hlast⟩ := List.append_inj' he rfl
      obtain rfl := List.singleton_inj.mp hlast
      exact ⟨hr, hstep⟩
    · rw [List.concat_eq_append, ← List.cons_append, ← List.append_assoc] at he
      exact ih (List.append_inj' he rfl).1

/-- `Run.at_event` for a step known only to be in the run. -/
theorem Run.of_mem {tr : List (Event σ α ω)} {s : σ} (h : M.Run tr s) {e : Event σ α ω}
    (he : e ∈ tr) : ∃ tr₁ tr₂, tr = tr₁ ++ e :: tr₂ ∧ M.Run tr₁ e.pre ∧
      M.step e.pre e.act = some (e.post, e.out) := by
  obtain ⟨tr₁, tr₂, rfl⟩ := List.append_of_mem he
  obtain ⟨h1, h2⟩ := h.at_event rfl
  exact ⟨tr₁, tr₂, rfl, h1, h2⟩

/-- The last step of a run. -/
theorem Run.last {tr : List (Event σ α ω)} {e : Event σ α ω} {s : σ} (h : M.Run (tr ++ [e]) s) :
    M.Run tr e.pre ∧ M.step e.pre e.act = some (e.post, e.out) ∧ s = e.post := by
  generalize htr : tr ++ [e] = tr' at h
  cases h with
  | nil => simp at htr
  | snoc hr hs =>
    obtain ⟨rfl, he⟩ := List.append_inj' htr rfl
    obtain rfl := List.singleton_inj.mp he
    exact ⟨hr, hs, rfl⟩

/-- What holds after `tr₁` and survives every further step that meets `C`
holds after every run that goes on from `tr₁` with such steps. It may speak
of the steps taken since. -/
theorem Run.invariant_since {I : List (Event σ α ω) → σ → Prop} {C : Event σ α ω → Prop}
    {tr₁ : List (Event σ α ω)} (h0 : ∀ s, M.Run tr₁ s → I [] s)
    (hs : ∀ tr s a s' o, M.Run (tr₁ ++ tr) s → I tr s → M.step s a = some (s', o) →
      C ⟨s, a, o, s'⟩ → I (tr ++ [⟨s, a, o, s'⟩]) s') {tr₂ : List (Event σ α ω)} {s : σ}
    (h : M.Run (tr₁ ++ tr₂) s) (hC : ∀ e ∈ tr₂, C e) : I tr₂ s := by
  induction tr₂ using List.reverseRecOn generalizing s with
  | nil => exact h0 s (by simpa using h)
  | append_singleton tr e ih =>
    rw [← List.append_assoc] at h
    obtain ⟨hr, hstep, rfl⟩ := h.last
    refine hs tr e.pre e.act e.post e.out hr (ih hr fun x hx => hC x ?_) hstep (hC e ?_)
    · exact List.mem_append_left _ hx
    · exact List.mem_append_right _ (List.mem_singleton_self e)

/-- If every step of `M` is one of `N` on `f s`, or leaves `f s` as it is, a run
of `M` gives a run of `N`. -/
theorem Run.image {τ β υ : Type*} {N : Machine τ β υ} {f : σ → τ} (h0 : f M.init = N.init)
    (hs : ∀ {s a s' o}, M.step s a = some (s', o) →
      f s' = f s ∨ ∃ b p, N.step (f s) b = some (f s', p))
    {tr : List (Event σ α ω)} {s : σ} (h : M.Run tr s) : ∃ tr', N.Run tr' (f s) := by
  induction h with
  | nil => exact ⟨[], h0 ▸ .nil⟩
  | snoc _ hstep ih =>
    obtain ⟨tr', hr⟩ := ih
    rcases hs hstep with heq | ⟨b, p, hb⟩
    · exact ⟨tr', heq ▸ hr⟩
    · exact ⟨_, hr.snoc hb⟩

variable (M)

/-- Runs a list of actions from `s`; `none` if one of them is not enabled. -/
def exec : σ → List α → Option (List (Event σ α ω) × σ)
  | s, [] => some ([], s)
  | s, a :: as =>
    match M.step s a with
    | none => none
    | some (s', o) =>
      match exec s' as with
      | none => none
      | some (tr, t) => some (⟨s, a, o, s'⟩ :: tr, t)

theorem run_append_exec : ∀ (as : List α) {tr₀ : List (Event σ α ω)} {s : σ}, M.Run tr₀ s →
    ∀ {tr : List (Event σ α ω)} {t : σ}, M.exec s as = some (tr, t) → M.Run (tr₀ ++ tr) t
  | [], tr₀, s, h, tr, t, he => by
    simp only [exec, Option.some.injEq, Prod.mk.injEq] at he
    obtain ⟨rfl, rfl⟩ := he
    simpa using h
  | a :: as, tr₀, s, h, tr, t, he => by
    simp only [exec] at he
    split at he
    · cases he
    · rename_i s' o hstep
      split at he
      · cases he
      · rename_i tr' t' hrec
        simp only [Option.some.injEq, Prod.mk.injEq] at he
        obtain ⟨rfl, rfl⟩ := he
        simpa using run_append_exec as (h.snoc hstep) hrec

/-- What `exec` computes from the initial state is a run. -/
theorem run_exec {as : List α} {tr : List (Event σ α ω)} {t : σ}
    (h : M.exec M.init as = some (tr, t)) : M.Run tr t := by
  simpa using M.run_append_exec as Run.nil h

/-- A list of actions whose outcome satisfies `P` gives a run that does. -/
theorem exists_run (as : List α) {P : List (Event σ α ω) × σ → Prop}
    (h : ∃ r ∈ M.exec M.init as, P r) : ∃ tr s, M.Run tr s ∧ P (tr, s) := by
  obtain ⟨⟨tr, s⟩, he, hP⟩ := h
  exact ⟨tr, s, M.run_exec he, hP⟩

/-- `exists_run` where `P` is read off the goal. -/
theorem exists_run_of_exec (as : List α) {P : List (Event σ α ω) → σ → Prop}
    (h : ∃ r ∈ M.exec M.init as, P r.1 r.2) : ∃ tr s, M.Run tr s ∧ P tr s :=
  M.exists_run as h

end Machine
end Lib
end Revquic
