/-
# Streams that arrive in pieces

A stream comes in pieces of any sizes, and ends in an error. One read takes
what it wants of the next piece, or the whole piece if that is less;
`readFull` reads until it has a given number of bytes. What it returns and
what it leaves depend on the bytes only, not on the pieces.

Key definitions: `Stream`, `Stream.read`, `Stream.readFull`.
Key theorems: `Stream.readFull_of_le`, `Stream.readFull_of_lt`.
-/
import Mathlib.Data.List.Basic

namespace Revquic
namespace Lib

variable {α : Type*}

/-- How a stream ends, and how a read that wants more fails. -/
inductive ReadError
  | eof
  | unexpectedEOF
  | other
  deriving DecidableEq

/-- A stream: the pieces to come, and the error after the last. -/
structure Stream (α : Type*) where
  pieces : List (List α)
  fin : ReadError := .eof

namespace Stream

/-- The bytes to come. -/
def bytes (s : Stream α) : List α := s.pieces.flatten

/-- One `Read` into a buffer of `want` bytes: the bytes read, none at the end
of the stream, and the stream left. -/
def read (s : Stream α) (want : ℕ) : List α × Stream α :=
  match s.pieces with
  | [] => ([], s)
  | c :: cs =>
    if want < c.length then (c.take want, { s with pieces := c.drop want :: cs })
    else (c, { s with pieces := cs })

/-- The loop of `io.ReadFull`, with `buf` read so far: the bytes or the
error, and the pieces left. -/
def readLoop (fin : ReadError) (want : ℕ) :
    List α → List (List α) → Except ReadError (List α) × List (List α)
  | buf, [] =>
    if want ≤ buf.length then (.ok buf, [])
    else (.error (if fin = .eof ∧ buf ≠ [] then .unexpectedEOF else fin), [])
  | buf, c :: cs =>
    if want ≤ buf.length then (.ok buf, c :: cs)
    else if want - buf.length < c.length then
      (.ok (buf ++ c.take (want - buf.length)), c.drop (want - buf.length) :: cs)
    else readLoop fin want (buf ++ c) cs

/-- `io.ReadFull` into a buffer of `want` bytes. -/
def readFull (s : Stream α) (want : ℕ) : Except ReadError (List α) × Stream α :=
  ((readLoop s.fin want [] s.pieces).1, { s with pieces := (readLoop s.fin want [] s.pieces).2 })

theorem read_append (s : Stream α) (want : ℕ) : (s.read want).1 ++ (s.read want).2.bytes = s.bytes := by
  obtain ⟨pieces, fin⟩ := s
  cases pieces with
  | nil => rfl
  | cons c cs =>
    simp only [read, bytes]
    split_ifs
    · rw [List.flatten_cons, ← List.append_assoc, List.take_append_drop, List.flatten_cons]
    · rw [List.flatten_cons]

theorem readLoop_of_le (fin : ReadError) {want : ℕ} : ∀ (ps : List (List α)) (buf : List α),
    buf.length ≤ want → want ≤ (buf ++ ps.flatten).length →
    (readLoop fin want buf ps).1 = .ok ((buf ++ ps.flatten).take want) ∧
      (readLoop fin want buf ps).2.flatten = (buf ++ ps.flatten).drop want
  | [], buf, hle, hlen => by
    simp only [List.flatten_nil, List.append_nil] at hlen ⊢
    have heq : want = buf.length := Nat.le_antisymm hlen hle
    simp [readLoop, heq]
  | c :: cs, buf, hle, hlen => by
    rw [readLoop]
    split_ifs with hfull hmore
    · have heq : want = buf.length := Nat.le_antisymm hfull hle
      simp [heq]
    · rw [List.flatten_cons, List.take_append, List.drop_append, List.take_append_of_le_length (Nat.le_of_lt hmore),
        List.drop_append_of_le_length (Nat.le_of_lt hmore), List.take_of_length_le hle, List.drop_of_length_le hle]
      exact ⟨rfl, rfl⟩
    · rw [List.flatten_cons, ← List.append_assoc] at hlen ⊢
      refine readLoop_of_le fin cs (buf ++ c) ?_ hlen
      rw [List.length_append]
      omega

theorem readLoop_of_lt (fin : ReadError) {want : ℕ} : ∀ (ps : List (List α)) (buf : List α),
    (buf ++ ps.flatten).length < want →
    ∃ err, readLoop fin want buf ps = (.error err, [])
  | [], buf, hlen => by
    simp only [List.flatten_nil, List.append_nil] at hlen
    rw [readLoop, if_neg (Nat.not_le.mpr hlen)]
    exact ⟨_, rfl⟩
  | c :: cs, buf, hlen => by
    have hlen' := hlen
    rw [List.flatten_cons, ← List.append_assoc] at hlen
    rw [List.flatten_cons, List.length_append, List.length_append] at hlen'
    rw [readLoop, if_neg (by omega), if_neg (by omega)]
    exact readLoop_of_lt fin cs (buf ++ c) hlen

variable {s : Stream α} {want : ℕ}

/-- A stream that is long enough is read by its bytes alone. -/
theorem readFull_of_le (h : want ≤ s.bytes.length) :
    (s.readFull want).1 = .ok (s.bytes.take want) ∧
      (s.readFull want).2.bytes = s.bytes.drop want ∧ (s.readFull want).2.fin = s.fin := by
  obtain ⟨hok, hrest⟩ := readLoop_of_le s.fin s.pieces [] (Nat.zero_le want) h
  exact ⟨hok, hrest, rfl⟩

/-- The same, on a stream that starts with the bytes wanted. -/
theorem readFull_append {pre rest : List α} (h : s.bytes = pre ++ rest) :
    (s.readFull pre.length).1 = .ok pre ∧ (s.readFull pre.length).2.bytes = rest := by
  have hlen : pre.length ≤ s.bytes.length := by simp [h]
  obtain ⟨hok, hrest, -⟩ := readFull_of_le hlen
  rw [h, List.take_left] at hok
  rw [h, List.drop_left] at hrest
  exact ⟨hok, hrest⟩

/-- A stream that is too short is read to its end, in vain. -/
theorem readFull_of_lt (h : s.bytes.length < want) : ∃ err, (s.readFull want).1 = .error err := by
  obtain ⟨err, herr⟩ := readLoop_of_lt s.fin s.pieces [] h
  exact ⟨err, by rw [readFull, herr]⟩

end Stream
end Lib
end Revquic
