/-
# Programs that read a stream

A program reads a number of bytes with `io.ReadFull`, decides what to read
next by what it has, writes, and returns or fails. `exec` runs it on a stream
in pieces, `run` on the bytes alone, and the two agree; more bytes behind
change nothing but what is left.

Key definitions: `Reading`, `exec`, `run`.
Key theorems: `exec_agrees`, `run_readFull`, `run_append`.
-/
import Revquic.Lib.Reader

namespace Revquic
namespace Lib

/-- A program over a connection: its results `β`, and its errors `ε`. -/
inductive Reading (α ε β : Type*)
  | ret (b : β)
  | fail (e : ε)
  | readFull (n : ℕ) (next : List α → Reading α ε β)
  | write (bytes : List α) (next : Reading α ε β)

namespace Reading

variable {α ε β γ : Type*}

/-- The result of a program, what it leaves of the stream, and what it
writes; `wrap` makes an error of the stream one of the program. -/
def exec (wrap : ReadError → ε) : Reading α ε β → Stream α → Except ε β × Stream α × List α
  | .ret b, s => (.ok b, s, [])
  | .fail e, s => (.error e, s, [])
  | .readFull n next, s =>
    match s.readFull n with
    | (.error err, s') => (.error (wrap err), s', [])
    | (.ok bytes, s') => exec wrap (next bytes) s'
  | .write bytes next, s =>
    ((exec wrap next s).1, (exec wrap next s).2.1, bytes ++ (exec wrap next s).2.2)

/-- One program, and with its result another. -/
def bind : Reading α ε β → (β → Reading α ε γ) → Reading α ε γ
  | .ret b, f => f b
  | .fail e, _ => .fail e
  | .readFull n next, f => .readFull n fun bytes => (next bytes).bind f
  | .write bytes next, f => .write bytes (next.bind f)

/-- What comes of a program on some bytes: a result or an error of its own,
with the bytes left, or too few bytes. -/
inductive Outcome (α ε β : Type*)
  | ok (b : β) (rest : List α)
  | fail (e : ε) (rest : List α)
  | short

/-- A program on bytes. -/
def run : Reading α ε β → List α → Outcome α ε β
  | .ret b, l => .ok b l
  | .fail e, l => .fail e l
  | .readFull n next, l => if n ≤ l.length then run (next (l.take n)) (l.drop n) else .short
  | .write _ next, l => run next l

/-- What follows a result, on the bytes left. -/
def Outcome.next (f : β → List α → Outcome α ε γ) : Outcome α ε β → Outcome α ε γ
  | .ok b rest => f b rest
  | .fail e rest => .fail e rest
  | .short => .short

/-- The result and the stream left are those of an outcome. -/
def Outcome.Agrees (wrap : ReadError → ε) (r : Except ε β) (s : Stream α) : Outcome α ε β → Prop
  | .ok b rest => r = .ok b ∧ s.bytes = rest
  | .fail e rest => r = .error e ∧ s.bytes = rest
  | .short => ∃ err, r = .error (wrap err)

variable {wrap : ReadError → ε}

/-- The pieces of a stream make no difference. -/
theorem exec_agrees (wrap : ReadError → ε) (p : Reading α ε β) : ∀ s : Stream α,
    (p.run s.bytes).Agrees wrap (p.exec wrap s).1 (p.exec wrap s).2.1 := by
  induction p with
  | ret b | fail e => exact fun s => ⟨rfl, rfl⟩
  | write bytes next ih => exact ih
  | readFull n next ih =>
    intro s
    unfold run exec
    by_cases hlen : n ≤ s.bytes.length
    · obtain ⟨hok, hrest, -⟩ := Stream.readFull_of_le hlen
      rw [if_pos hlen]
      split
      · rename_i heq
        rw [heq] at hok
        cases hok
      · rename_i bytes s' heq
        rw [heq] at hok hrest
        cases hok
        rw [← hrest]
        exact ih _ s'
    · obtain ⟨err, herr⟩ := Stream.readFull_of_lt (Nat.lt_of_not_le hlen)
      rw [if_neg hlen]
      split
      · rename_i err' s' heq
        exact ⟨err', rfl⟩
      · rename_i heq
        rw [heq] at herr
        cases herr

/-- A program returns and leaves what it does on the bytes. -/
theorem exec_ok_iff {p : Reading α ε β} {s : Stream α} {b : β} {rest : List α} :
    (p.exec wrap s).1 = .ok b ∧ (p.exec wrap s).2.1.bytes = rest ↔ p.run s.bytes = .ok b rest := by
  have h := exec_agrees wrap p s
  constructor
  · rintro ⟨hok, hrest⟩
    cases hr : p.run s.bytes with
    | ok b' rest' =>
      rw [hr] at h
      obtain ⟨hok', hrest'⟩ := h
      obtain rfl := Except.ok.inj (hok.symm.trans hok')
      rw [← hrest, hrest']
    | fail e rest' =>
      rw [hr] at h
      cases hok.symm.trans h.1
    | short =>
      rw [hr] at h
      obtain ⟨err, herr⟩ := h
      cases hok.symm.trans herr
  · intro hr
    rw [hr] at h
    exact h

theorem exec_error {p : Reading α ε β} {s : Stream α} {e : ε} {rest : List α}
    (h : p.run s.bytes = .fail e rest) : (p.exec wrap s).1 = .error e := by
  have hagrees := exec_agrees wrap p s
  rw [h] at hagrees
  exact hagrees.1

theorem run_bind (p : Reading α ε β) (f : β → Reading α ε γ) : ∀ l : List α,
    (p.bind f).run l = (p.run l).next fun b rest => (f b).run rest := by
  induction p with
  | ret b => exact fun l => rfl
  | fail e => exact fun l => rfl
  | write bytes next ih => exact ih
  | readFull n next ih =>
    intro l
    simp only [bind, run]
    split_ifs
    · exact ih _ _
    · rfl

/-- If two programs in turn succeed, so does each. -/
theorem run_bind_ok {p : Reading α ε β} {f : β → Reading α ε γ} {l rest : List α} {c : γ}
    (h : (p.bind f).run l = .ok c rest) :
    ∃ b l', p.run l = .ok b l' ∧ (f b).run l' = .ok c rest := by
  rw [run_bind] at h
  cases hp : p.run l with
  | ok b l' =>
    rw [hp] at h
    exact ⟨b, l', rfl, h⟩
  | fail e l' | short =>
    rw [hp] at h
    cases h

/-- A read takes the first bytes, if there are enough. -/
theorem run_readFull {n : ℕ} {next : List α → Reading α ε β} {bytes rest : List α}
    (h : bytes.length = n) : (readFull n next).run (bytes ++ rest) = (next bytes).run rest := by
  subst h
  rw [run, if_pos (by simp), List.take_left, List.drop_left]

theorem run_readFull_ok {n : ℕ} {next : List α → Reading α ε β} {l rest : List α} {b : β}
    (h : (readFull n next).run l = .ok b rest) :
    ∃ bytes l', l = bytes ++ l' ∧ bytes.length = n ∧ (next bytes).run l' = .ok b rest := by
  rw [run] at h
  split_ifs at h with hlen
  exact ⟨l.take n, l.drop n, (List.take_append_drop n l).symm, List.length_take_of_le hlen, h⟩

/-- More bytes are left, and nothing else changes. -/
theorem run_append (p : Reading α ε β) : ∀ {l rest : List α} {b : β} (more : List α),
    p.run l = .ok b rest → p.run (l ++ more) = .ok b (rest ++ more) := by
  induction p with
  | ret b =>
    intro l rest b' more h
    obtain ⟨rfl, rfl⟩ := Outcome.ok.inj h
    rfl
  | fail e =>
    intro l rest b' more h
    cases h
  | write bytes next ih => exact ih
  | readFull n next ih =>
    intro l rest b more h
    obtain ⟨bytes, l', rfl, hlen, h⟩ := run_readFull_ok h
    rw [List.append_assoc, run_readFull hlen]
    exact ih bytes more h

/-- A program that takes all of a text returns nothing on less of it. -/
theorem exec_cut {p : Reading α ε β} {s : Stream α} {b : β} {cut : List α} (hcut : cut ≠ [])
    (h : p.run (s.bytes ++ cut) = .ok b []) : ∃ e, (p.exec wrap s).1 = .error e := by
  cases hr : (p.exec wrap s).1 with
  | error e => exact ⟨e, rfl⟩
  | ok b' =>
    have hrun := exec_ok_iff.mp ⟨hr, rfl⟩
    have hmore := run_append p cut hrun
    obtain ⟨-, hnil⟩ := Outcome.ok.inj (h.symm.trans hmore)
    exact absurd (List.append_eq_nil_iff.mp hnil.symm).2 hcut

end Reading
end Lib
end Revquic
