/-
# Stores with a file behind them

A store keeps its state in memory and writes an image of it to a file after
every change. An operation may be refused, with no effect; otherwise it
changes the memory, and only then is the image written, which may fail at any
of four points. The new image takes the place of the old one in one step, a
rename, and only if all went well. `NoTrace` says that a failed operation
cannot be told from one that was never called, neither now nor later.

Key definitions: `Stored`, `perform`, `NoTrace`.
Key theorems: `perform_file`, `perform_refused`, `perform_flush_failed`.
-/
import Mathlib.Data.List.Basic

namespace Revquic
namespace Lib

/-- Where writing the image fails. -/
inductive FlushError
  | marshal
  | mkdir
  | write
  | rename
  deriving DecidableEq

/-- A store: its memory, and the image in its file, if there is a file. -/
structure Stored (τ ρ : Type*) where
  mem : τ
  file : Option ρ

namespace Stored

variable {τ ρ α β ε : Type*} (apply : τ → α → Except ε (τ × β))

/-- An operation; `img` is the image that is written, and `fail` where that
fails. -/
def perform (s : Stored τ ρ) (a : α) (img : ρ) (fail : Option FlushError) :
    Stored τ ρ × Except (ε ⊕ FlushError) β :=
  match apply s.mem a with
  | .error err => (s, .error (.inl err))
  | .ok (mem, reply) =>
    match fail with
    | some err => ({ s with mem }, .error (.inr err))
    | none => ({ mem, file := some img }, .ok reply)

variable {apply} {s : Stored τ ρ} {a : α} {img : ρ} {fail : Option FlushError}

theorem perform_file {err : ε ⊕ FlushError} (h : (s.perform apply a img fail).2 = .error err) :
    (s.perform apply a img fail).1.file = s.file := by
  unfold perform at h ⊢
  split
  · rfl
  · rename_i heq
    rw [heq] at h
    cases fail with
    | none => cases h
    | some err => rfl

theorem perform_refused {err : ε} (h : apply s.mem a = .error err) :
    s.perform apply a img fail = (s, .error (.inl err)) := by
  rw [perform, h]

theorem perform_flush_failed {mem : τ} {reply : β} {err : FlushError}
    (h : apply s.mem a = .ok (mem, reply)) :
    s.perform apply a img (some err) = ({ s with mem }, .error (.inr err)) := by
  rw [perform, h]

theorem perform_ok {mem : τ} {reply : β} (h : apply s.mem a = .ok (mem, reply)) :
    s.perform apply a img none = ({ mem, file := some img }, .ok reply) := by
  rw [perform, h]

/-! ### Failed operations -/

variable (apply) in
/-- The store after further operations, each with its image and its flush. -/
def after (s : Stored τ ρ) (later : List (α × ρ × Option FlushError)) : Stored τ ρ :=
  later.foldl (fun s x => (s.perform apply x.1 x.2.1 x.2.2).1) s

variable (apply) in
/-- If the operation returns an error, then after any further operations the
memory answers as it would without it (`Same`), and what is loaded from the
file is what would have been loaded before. -/
def NoTrace (Same : τ → τ → Prop) (load : Option ρ → τ) (s : Stored τ ρ) (a : α) (img : ρ)
    (fail : Option FlushError) : Prop :=
  ∀ err, (s.perform apply a img fail).2 = .error err →
    (∀ later, Same ((s.perform apply a img fail).1.after apply later).mem (s.after apply later).mem) ∧
      load (s.perform apply a img fail).1.file = load s.file

variable {Same : τ → τ → Prop} {load : Option ρ → τ}

/-- An operation that is refused, or whose image is written, leaves no
trace when it fails. -/
theorem noTrace_of (hrefl : ∀ t, Same t t) (h : fail = none ∨ ∃ err, apply s.mem a = .error err) :
    NoTrace apply Same load s a img fail := by
  intro err herr
  refine ⟨?_, congrArg load (perform_file herr)⟩
  cases happ : apply s.mem a with
  | error e =>
    rw [perform_refused happ]
    exact fun later => hrefl _
  | ok x =>
    rcases h with rfl | ⟨e, he⟩
    · rw [perform_ok happ] at herr
      cases herr
    · rw [he] at happ
      cases happ

/-- What an operation does to the memory stays if its image is not written. -/
theorem NoTrace.of_flush_failed {mem : τ} {reply : β} {err : FlushError}
    (h : apply s.mem a = .ok (mem, reply)) (hn : NoTrace apply Same load s a img (some err)) :
    Same mem s.mem := by
  have hp : s.perform apply a img (some err) = ({ s with mem }, .error (.inr err)) :=
    perform_flush_failed h
  have := (hn (.inr err) (by rw [hp])).1 []
  rwa [hp] at this

end Stored
end Lib
end Revquic
