/-
# A reader behind a FIFO stream

A reader takes the messages of a stream one at a time, in the order in which
they were written. The state it will be in when it has taken all of them
(`view`) changes when a message is written, not when one is read; so a
property of the writer and the reader together is best stated of the view,
and holds of the reader itself when the stream is drained. What has to hold
of the reader at all times is proved of every state it will pass through
(`Along`).

Key definitions: `Fifo`, `Fifo.view`, `Fifo.Along`.
Key theorems: `Fifo.view_send`, `Fifo.view_recv`, `Fifo.Along.send`,
`Fifo.Along.recv`.
-/
import Mathlib.Data.List.Basic

namespace Revquic
namespace Lib

/-- The messages written and not read yet, oldest first, and the reader. -/
structure Fifo (M σ : Type*) where
  pending : List M := []
  reader : σ

namespace Fifo

variable {M σ : Type*} (read : σ → M → σ) (c : Fifo M σ)

/-- The reader, once it has read everything written so far. -/
def view : σ := c.pending.foldl read c.reader

/-- Messages are written. -/
def send (ms : List M) : Fifo M σ := { c with pending := c.pending ++ ms }

/-- The reader takes the next message. -/
def recv : Option (Fifo M σ) :=
  match c.pending with
  | [] => none
  | m :: ms => some ⟨ms, read c.reader m⟩

/-- `P` holds of the reader now and will hold after each message. -/
def Along (P : σ → Prop) : Prop := ∀ k, P ((c.pending.take k).foldl read c.reader)

variable {read c} {P : σ → Prop}

theorem view_send (ms : List M) : (c.send ms).view read = ms.foldl read (c.view read) := by
  simp [view, send]

theorem view_recv {c' : Fifo M σ} (h : c.recv read = some c') : c'.view read = c.view read := by
  unfold recv at h
  split at h
  · cases h
  · rename_i m ms hp
    obtain rfl := Option.some.inj h
    simp [view, hp]

theorem view_drained (read : σ → M → σ) (h : c.pending = []) : c.view read = c.reader := by
  simp [view, h]

theorem Along.now (h : c.Along read P) : P c.reader := by
  simpa using h 0

theorem Along.view (h : c.Along read P) : P (c.view read) := by
  have := h c.pending.length
  rwa [List.take_length] at this

/-- Messages are written: `P` has to survive each of them at the end of the
stream. -/
theorem Along.send {ms : List M} (h : c.Along read P)
    (hms : ∀ k, P ((ms.take k).foldl read (c.view read))) : (c.send ms).Along read P := by
  intro k
  by_cases hk : k ≤ c.pending.length
  · have := h k
    rwa [Fifo.send, List.take_append_of_le_length hk]
  · rw [Fifo.send, List.take_append, List.take_of_length_le (by omega), List.foldl_append]
    exact hms _

theorem Along.recv {c' : Fifo M σ} (h : c.Along read P) (hr : c.recv read = some c') :
    c'.Along read P := by
  intro k
  unfold Fifo.recv at hr
  split at hr
  · cases hr
  · rename_i m ms hp
    obtain rfl := Option.some.inj hr
    have := h (k + 1)
    rwa [hp, List.take_succ_cons, List.foldl_cons] at this

end Fifo
end Lib
end Revquic
