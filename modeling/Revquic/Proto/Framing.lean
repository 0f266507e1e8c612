/-
# The framing of the control stream

A control message travels as its JSON text behind a header of 4 bytes, the
length of the text, big-endian. Neither side takes a text of more than 2^20
bytes. A reader that asks for one frame after another gets the messages as
they were written, whatever the pieces and whatever follows; a stream cut
inside a frame gives an error. Framing sees nothing of a message but its
text, so the type of messages is a parameter, and the JSON codec is one that
reads back what it writes.

Key definitions: `Json`, `writeControl`, `readControl`, `reads`.
Key theorem: `control_framing`.
-/
import Revquic.Lib.Reader
import Revquic.Proto

namespace Revquic
namespace Proto

open Lib

/-- `json.Marshal` and `json.Unmarshal` on one type. -/
structure Json (μ : Type*) where
  marshal : μ → Option (List UInt8)
  unmarshal : List UInt8 → Option μ
  unmarshal_marshal : ∀ m b, marshal m = some b → unmarshal b = some m

/-- The errors of `WriteControl` and `ReadControl`: that of the codec, a
message that is too large, and those of the stream. -/
inductive ControlError
  | json
  | tooLarge (n : ℕ)
  | write
  | read (err : ReadError)
  deriving DecidableEq

/-- The largest text, `1<<20`. -/
def maxControl : ℕ := 2 ^ 20

/-- `binary.BigEndian.PutUint32`. -/
def putUint32 (v : ℕ) : List UInt8 :=
  (List.range 4).map fun i => UInt8.ofNat (v / 256 ^ (3 - i))

/-- `binary.BigEndian.Uint32`. -/
def uint32 (b : List UInt8) : ℕ := b.foldl (fun acc x => acc * 256 + x.toNat) 0

theorem length_putUint32 (v : ℕ) : (putUint32 v).length = 4 := BigEndian.length_put 4 v

theorem uint32_putUint32 {v : ℕ} (h : v < 2 ^ 32) : uint32 (putUint32 v) = v :=
  BigEndian.get_put_of_lt (n := 4) h

namespace Json

variable {μ : Type*} (c : Json μ)

/-- `WriteControl`: what is written, and the error. Each of the two writes
either succeeds (`none`) or fails after some bytes. -/
def writeControl (m : μ) (hdrFails bodyFails : Option ℕ) : List UInt8 × Option ControlError :=
  match c.marshal m with
  | none => ([], some .json)
  | some b =>
    if maxControl < b.length then ([], some (.tooLarge b.length))
    else match hdrFails with
    | some k => ((putUint32 b.length).take k, some .write)
    | none => match bodyFails with
      | some k => (putUint32 b.length ++ b.take k, some .write)
      | none => (putUint32 b.length ++ b, none)

/-- `ReadControl`: the message or the error, and the rest of the stream. -/
def readControl (r : Stream UInt8) : Except ControlError μ × Stream UInt8 :=
  match r.readFull 4 with
  | (.error err, r) => (.error (.read err), r)
  | (.ok hdr, r) =>
    if maxControl < uint32 hdr then (.error (.tooLarge (uint32 hdr)), r)
    else match r.readFull (uint32 hdr) with
    | (.error err, r) => (.error (.read err), r)
    | (.ok buf, r) => match c.unmarshal buf with
      | none => (.error .json, r)
      | some m => (.ok m, r)

/-- `n` calls of `ReadControl`. -/
def reads : ℕ → Stream UInt8 → List (Except ControlError μ) × Stream UInt8
  | 0, r => ([], r)
  | n + 1, r => ((c.readControl r).1 :: (reads n (c.readControl r).2).1, (reads n (c.readControl r).2).2)

/-! ### One frame -/

variable {c} {m : μ} {b w : List UInt8} {r : Stream UInt8}

/-- A message that is written in full is a header and its text, of at most
2^20 bytes. -/
theorem frame_of_writeControl {hdrFails bodyFails : Option ℕ}
    (h : c.writeControl m hdrFails bodyFails = (w, none)) :
    ∃ b, c.marshal m = some b ∧ b.length ≤ maxControl ∧ w = putUint32 b.length ++ b := by
  unfold writeControl at h
  split at h
  · cases h
  · rename_i b hb
    split_ifs at h with hlen
    · cases h
    · refine ⟨b, hb, Nat.le_of_not_lt hlen, ?_⟩
      cases hdrFails with
      | some k => cases h
      | none =>
        cases bodyFails with
        | some k => cases h
        | none => exact (Prod.mk.inj h).1.symm

theorem writeControl_too_large (hb : c.marshal m = some b) (hlen : maxControl < b.length)
    (hdrFails bodyFails : Option ℕ) :
    c.writeControl m hdrFails bodyFails = ([], some (.tooLarge b.length)) := by
  rw [writeControl, hb]
  exact if_pos hlen

/-- What follows a header of more than 2^20 is not read. -/
theorem readControl_too_large {hdr rest : List UInt8} (hr : r.bytes = hdr ++ rest)
    (hlen : hdr.length = 4) (hbig : maxControl < uint32 hdr) :
    (c.readControl r).1 = .error (.tooLarge (uint32 hdr)) ∧ (c.readControl r).2.bytes = rest := by
  obtain ⟨hok, hrest⟩ := Stream.readFull_append hr
  rw [hlen] at hok hrest
  unfold readControl
  split
  · rename_i heq
    rw [heq] at hok
    cases hok
  · rename_i hdr' r' heq
    rw [heq] at hok hrest
    cases hok
    rw [if_pos hbig]
    exact ⟨rfl, hrest⟩

/-- A frame is read as it was written, and nothing beyond it. -/
theorem readControl_frame {rest : List UInt8} (hb : c.marshal m = some b)
    (hlen : b.length ≤ maxControl) (hr : r.bytes = putUint32 b.length ++ b ++ rest) :
    (c.readControl r).1 = .ok m ∧ (c.readControl r).2.bytes = rest := by
  have hn : uint32 (putUint32 b.length) = b.length :=
    uint32_putUint32 (Nat.lt_of_le_of_lt hlen (by decide))
  rw [List.append_assoc] at hr
  obtain ⟨hok, hrest⟩ := Stream.readFull_append hr
  rw [length_putUint32] at hok hrest
  unfold readControl
  split
  · rename_i heq
    rw [heq] at hok
    cases hok
  · rename_i hdr r' heq
    rw [heq] at hok hrest
    cases hok
    rw [hn, if_neg (Nat.not_lt.mpr hlen)]
    obtain ⟨hok, hrest⟩ := Stream.readFull_append hrest
    split
    · rename_i heq
      rw [heq] at hok
      cases hok
    · rename_i buf r'' heq
      rw [heq] at hok hrest
      cases hok
      rw [c.unmarshal_marshal m b hb]
      exact ⟨rfl, hrest⟩

/-- A stream that ends inside its first frame has no message. -/
theorem readControl_cut {k : ℕ} (hlen : b.length ≤ maxControl)
    (hk : k < (putUint32 b.length ++ b).length) (hr : r.bytes = (putUint32 b.length ++ b).take k) :
    ∃ err, (c.readControl r).1 = .error err := by
  have hn : uint32 (putUint32 b.length) = b.length :=
    uint32_putUint32 (Nat.lt_of_le_of_lt hlen (by decide))
  rw [List.length_append, length_putUint32] at hk
  unfold readControl
  rcases Nat.lt_or_ge k 4 with hshort | hlong
  · -- inside the header
    have hless : r.bytes.length < 4 := by
      rw [hr, List.length_take]
      omega
    obtain ⟨err, herr⟩ := Stream.readFull_of_lt hless
    split
    · exact ⟨_, rfl⟩
    · rename_i heq
      rw [heq] at herr
      cases herr
  · -- inside the text
    rw [List.take_append, length_putUint32, List.take_of_length_le hlong] at hr
    obtain ⟨hok, hrest⟩ := Stream.readFull_append hr
    rw [length_putUint32] at hok hrest
    split
    · exact ⟨_, rfl⟩
    · rename_i hdr r' heq
      rw [heq] at hok hrest
      cases hok
      rw [hn, if_neg (Nat.not_lt.mpr hlen)]
      have hless : r'.bytes.length < b.length := by
        rw [hrest, List.length_take]
        omega
      obtain ⟨err, herr⟩ := Stream.readFull_of_lt hless
      split
      · exact ⟨_, rfl⟩
      · rename_i heq
        rw [heq] at herr
        cases herr

/-! ### Whole streams -/

/-- The first `k` reads of a stream of frames. -/
theorem reads_frames : ∀ {sent : List (μ × List UInt8)} {r : Stream UInt8} {trailing : List UInt8},
    (∀ x ∈ sent, ∃ hdrFails bodyFails, c.writeControl x.1 hdrFails bodyFails = (x.2, none)) →
    r.bytes = (sent.map (·.2)).flatten ++ trailing → ∀ k ≤ sent.length,
    (c.reads k r).1 = (sent.take k).map (fun x => .ok x.1) ∧
      (c.reads k r).2.bytes = ((sent.drop k).map (·.2)).flatten ++ trailing
  | _, r, _, _, hr, 0, _ => ⟨rfl, hr⟩
  | [], _, _, _, _, k + 1, hk => by cases hk
  | x :: sent, r, trailing, hsent, hr, k + 1, hk => by
    obtain ⟨_, _, hw⟩ := hsent x List.mem_cons_self
    obtain ⟨b, hb, hlen, hx⟩ := frame_of_writeControl hw
    rw [List.map_cons, List.flatten_cons, hx, List.append_assoc] at hr
    obtain ⟨hok, hrest⟩ := readControl_frame hb hlen hr
    obtain ⟨hoks, hrests⟩ := reads_frames (fun y hy => hsent y (List.mem_cons_of_mem x hy)) hrest k
      (Nat.le_of_succ_le_succ hk)
    refine ⟨?_, hrests⟩
    rw [reads, hok, hoks]
    rfl

variable (c)

/-- **Framing is unambiguous.** However a stream of frames is cut into
pieces, and whatever follows, each read returns the next message and takes
its frame of `4 + n` bytes. A message of more than 2^20 bytes is refused
before anything is written, and a header that announces one before anything
beyond it is read. Frames followed by a frame that is cut short give the
messages and then an error. -/
theorem control_framing {sent : List (μ × List UInt8)}
    (hsent : ∀ x ∈ sent, ∃ hdrFails bodyFails,
      c.writeControl x.1 hdrFails bodyFails = (x.2, none)) :
    (∀ x ∈ sent, ∃ b, c.marshal x.1 = some b ∧ x.2.length = 4 + b.length) ∧
    (∀ (r : Stream UInt8) (trailing : List UInt8), r.bytes = (sent.map (·.2)).flatten ++ trailing →
      ∀ k ≤ sent.length, (c.reads k r).1 = (sent.take k).map (fun x => .ok x.1) ∧
        (c.reads k r).2.bytes = ((sent.drop k).map (·.2)).flatten ++ trailing) ∧
    (∀ m b, c.marshal m = some b → 2 ^ 20 < b.length → ∀ hdrFails bodyFails,
      c.writeControl m hdrFails bodyFails = ([], some (.tooLarge b.length))) ∧
    (∀ (r : Stream UInt8) (hdr rest : List UInt8), r.bytes = hdr ++ rest → hdr.length = 4 →
      2 ^ 20 < uint32 hdr → (c.readControl r).1 = .error (.tooLarge (uint32 hdr)) ∧
        (c.readControl r).2.bytes = rest) ∧
    (∀ (r : Stream UInt8) (m : μ) (w : List UInt8) (k : ℕ), c.writeControl m none none = (w, none) →
      k < w.length → r.bytes = (sent.map (·.2)).flatten ++ w.take k →
      (c.reads sent.length r).1 = sent.map (fun x => .ok x.1) ∧
        ∃ err, (c.readControl (c.reads sent.length r).2).1 = .error err) := by
  refine ⟨?_, ?_, ?_, ?_, ?_⟩
  · intro x hx
    obtain ⟨_, _, hw⟩ := hsent x hx
    obtain ⟨b, hb, -, hxw⟩ := frame_of_writeControl hw
    exact ⟨b, hb, by rw [hxw, List.length_append, length_putUint32]⟩
  · exact fun r trailing hr => reads_frames hsent hr
  · exact fun m b hb hlen => writeControl_too_large hb hlen
  · exact fun r hdr rest hr hlen hbig => readControl_too_large hr hlen hbig
  · intro r m w k hw hk hr
    obtain ⟨b, -, hlen, rfl⟩ := frame_of_writeControl hw
    obtain ⟨hok, hrest⟩ := reads_frames hsent hr sent.length (Nat.le_refl _)
    rw [List.take_length] at hok
    rw [List.drop_length, List.map_nil, List.flatten_nil, List.nil_append] at hrest
    exact ⟨hok, readControl_cut hlen hk hrest⟩

end Json

end Proto
end Revquic
