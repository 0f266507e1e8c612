/-
# The event stream, from `writeSSE` to `applyEvent`

The handler of `/api/v1/events` writes an event as a line `data: ` with its
JSON, and a blank line. The dashboard reads the body in pieces of any sizes,
decodes them, and calls `applyEvent` for the `data: ` lines of each block
that has ended; the rest stays in a buffer. The pieces make no difference: a
buffer that goes on behaves as one that was there from the start.

Key definitions: `Json`, `writeSSE`, `drain`, `streamEvents`.
Key theorems: `drain_append`, `stream_calls`, `view_of_stream`.
-/
import Revquic.Feed
import Revquic.Lib.JsonTree
import Revquic.Lib.TextDecoder

namespace Revquic
namespace Feed

open Lib

/-- `json.Marshal` in the broker and `JSON.parse` in the dashboard. What is
written is UTF-8 without a line break, and is read back. -/
structure Json (ε : Type*) where
  marshal : ε → Option (List UInt8)
  parse : List Char → Option ε
  text_of_marshal : ∀ {ev b}, marshal ev = some b →
    ∃ text : List Char, b = text.flatMap String.utf8EncodeChar ∧ '\n' ∉ text ∧ parse text = some ev

variable {ε : Type*} (J : Json ε)

/-- `data: `. -/
def dataField : List Char := ['d', 'a', 't', 'a', ':', ' ']

/-- `writeSSE`: the bytes written. An event without JSON is left out. -/
def writeSSE (ev : ε) : List UInt8 :=
  match J.marshal ev with
  | none => []
  | some b =>
    dataField.flatMap String.utf8EncodeChar ++ b ++ ['\n', '\n'].flatMap String.utf8EncodeChar

/-- `buf.indexOf('\n\n')`: what stands before the first blank line, and what
stands behind it. -/
def cutBlank : List Char → Option (List Char × List Char)
  | [] => none
  | c :: rest =>
    if c = '\n' ∧ rest.head? = some '\n' then some ([], rest.tail)
    else (cutBlank rest).map fun r => (c :: r.1, r.2)

/-- The calls of `applyEvent` for a block; a line that does not parse is
skipped. -/
def blockCalls (block : List Char) : List ε :=
  (block.splitOn '\n').filterMap fun line =>
    if dataField.isPrefixOf line then J.parse (line.drop 6) else none

theorem length_of_cutBlank : ∀ {buf block rest : List Char}, cutBlank buf = some (block, rest) →
    rest.length < buf.length
  | [], _, _, h => by cases h
  | c :: buf, block, rest, h => by
    rw [cutBlank] at h
    split_ifs at h with hblank
    · obtain ⟨-, rfl⟩ := Prod.mk.inj (Option.some.inj h)
      rw [List.length_tail, List.length_cons]
      omega
    · obtain ⟨⟨block', rest'⟩, hcut, heq⟩ := Option.map_eq_some_iff.mp h
      obtain ⟨-, rfl⟩ := Prod.mk.inj heq
      exact (length_of_cutBlank hcut).trans (Nat.lt_succ_self _)

/-- The inner loop of `streamEvents`: the calls of `applyEvent`, and what is
left in the buffer. -/
def drain (buf : List Char) : List ε × List Char :=
  match _h : cutBlank buf with
  | none => ([], buf)
  | some (block, rest) => (blockCalls J block ++ (drain rest).1, (drain rest).2)
termination_by buf.length
decreasing_by all_goals exact length_of_cutBlank _h

/-- The state of `streamEvents` between two reads, and the calls it has
made. -/
structure Client (ε : Type*) where
  dec : TextDecoder := {}
  buf : List Char := []
  calls : List ε := []

/-- One pass of the outer loop of `streamEvents`. -/
def Client.read (c : Client ε) (value : List UInt8) : Client ε :=
  let r := c.dec.decode value
  let d := drain J (c.buf ++ r.2)
  ⟨r.1, d.2, c.calls ++ d.1⟩

/-- `streamEvents` on the pieces of one response. -/
def streamEvents (chunks : List (List UInt8)) : Client ε := chunks.foldl (Client.read J) {}

/-! ### Blocks -/

theorem cutBlank_append : ∀ {buf block rest : List Char} (more : List Char),
    cutBlank buf = some (block, rest) → cutBlank (buf ++ more) = some (block, rest ++ more)
  | [], _, _, _, h => by cases h
  | c :: buf, block, rest, more, h => by
    rw [cutBlank] at h
    rw [List.cons_append, cutBlank]
    split_ifs at h with hblank
    · obtain ⟨rfl, rfl⟩ := Prod.mk.inj (Option.some.inj h)
      obtain ⟨d, buf, rfl⟩ : ∃ d buf', buf = d :: buf' := by
        cases buf with
        | nil => cases hblank.2
        | cons d buf' => exact ⟨d, buf', rfl⟩
      exact if_pos hblank
    · obtain ⟨⟨block', rest'⟩, hcut, heq⟩ := Option.map_eq_some_iff.mp h
      obtain ⟨rfl, rfl⟩ := Prod.mk.inj heq
      have hblank' : ¬ (c = '\n' ∧ (buf ++ more).head? = some '\n') := by
        rintro ⟨hc, hd⟩
        cases buf with
        | nil => cases hcut
        | cons d buf' => exact hblank ⟨hc, hd⟩
      rw [if_neg hblank', cutBlank_append more hcut]
      rfl

/-- A block without line breaks ends at the blank line behind it. -/
theorem cutBlank_block : ∀ {block : List Char} (rest : List Char), '\n' ∉ block →
    cutBlank (block ++ '\n' :: '\n' :: rest) = some (block, rest)
  | [], rest, _ => rfl
  | c :: block, rest, h => by
    obtain ⟨hc, hblock⟩ := not_or.mp (List.mem_cons.not.mp h)
    rw [List.cons_append, cutBlank, if_neg fun hcond => hc hcond.1.symm, cutBlank_block rest hblock]
    rfl

section
variable {J}

theorem drain_none {buf : List Char} (h : cutBlank buf = none) : drain J buf = ([], buf) := by
  rw [drain]
  split
  · rfl
  · rename_i hsome
    cases h.symm.trans hsome

theorem drain_some {buf block rest : List Char} (h : cutBlank buf = some (block, rest)) :
    drain J buf = (blockCalls J block ++ (drain J rest).1, (drain J rest).2) := by
  rw [drain]
  split
  · rename_i hnone
    cases h.symm.trans hnone
  · rename_i hsome
    obtain ⟨rfl, rfl⟩ := Prod.mk.inj (Option.some.inj (h.symm.trans hsome))
    rfl

/-- What is added to a buffer makes no difference to the calls before. -/
theorem drain_append (buf more : List Char) : drain J (buf ++ more) =
    ((drain J buf).1 ++ (drain J ((drain J buf).2 ++ more)).1, (drain J ((drain J buf).2 ++ more)).2) := by
  induction hn : buf.length using Nat.strong_induction_on generalizing buf with
  | _ n ih =>
    cases hcut : cutBlank buf with
    | none => rw [drain_none hcut, List.nil_append]
    | some r =>
      obtain ⟨block, rest⟩ := r
      rw [drain_some (cutBlank_append more hcut), drain_some hcut,
        ih rest.length (hn ▸ length_of_cutBlank hcut) rest rfl, List.append_assoc]

/-- Two pieces are read as one. -/
theorem Client.read_read (c : Client ε) (xs ys : List UInt8) :
    (c.read J xs).read J ys = c.read J (xs ++ ys) := by
  simp only [Client.read, TextDecoder.decode_append]
  rw [← List.append_assoc c.buf, drain_append (c.buf ++ (c.dec.decode xs).2), List.append_assoc]

theorem streamEvents_flatten (chunks : List (List UInt8)) :
    streamEvents J chunks = Client.read J {} chunks.flatten := by
  induction chunks using List.reverseRecOn with
  | nil =>
    have hnil : drain J [] = ([], []) := drain_none rfl
    simp [streamEvents, Client.read, TextDecoder.decode, Decoder.decode, TextDecoder.dropBom, hnil]
  | append_singleton chunks value ih =>
    rw [streamEvents, List.foldl_append, List.foldl_cons, List.foldl_nil, ← streamEvents, ih,
      Client.read_read, List.flatten_append, List.flatten_singleton]

/-! ### Events -/

/-- The text that `writeSSE` writes. -/
def frame (text : List Char) : List Char := dataField ++ text ++ ['\n', '\n']

/-- A frame is a block of its own, with one call. -/
theorem drain_frame {text : List Char} {ev : ε} (hline : '\n' ∉ text) (hparse : J.parse text = some ev)
    (rest : List Char) : drain J (frame text ++ rest) = (ev :: (drain J rest).1, (drain J rest).2) := by
  have hblock : '\n' ∉ dataField ++ text := by
    rw [List.mem_append, not_or]
    exact ⟨by decide, hline⟩
  have hcut : cutBlank (frame text ++ rest) = some (dataField ++ text, rest) := by
    rw [frame, List.append_assoc]
    exact cutBlank_block rest hblock
  have hcalls : blockCalls J (dataField ++ text) = [ev] := by
    have hsplit : (dataField ++ text).splitOn '\n' = [dataField ++ text] := by
      have h : (['\n'].intercalate [dataField ++ text]).splitOn '\n' = [dataField ++ text] :=
        List.splitOn_intercalate '\n' (by simpa using hblock) (by simp)
      rwa [List.intercalate_singleton] at h
    have hdrop : (dataField ++ text).drop 6 = text := rfl
    simp [blockCalls, hsplit, hdrop, hparse]
  rw [drain_some hcut, hcalls, List.singleton_append]

/-- What is written for some events is the UTF-8 of a text, and the text gives
the calls. -/
theorem exists_text (evs : List ε) : ∃ text : List Char,
    evs.flatMap (writeSSE J) = text.flatMap String.utf8EncodeChar ∧
      (text.head? = none ∨ text.head? = some 'd') ∧
      drain J text = (evs.filter fun ev => (J.marshal ev).isSome, []) := by
  induction evs with
  | nil => exact ⟨[], rfl, Or.inl rfl, drain_none rfl⟩
  | cons ev evs ih =>
    obtain ⟨text, hbytes, hhead, hdrain⟩ := ih
    cases hev : J.marshal ev with
    | none =>
      refine ⟨text, ?_, hhead, ?_⟩
      · rw [List.flatMap_cons, writeSSE, hev, hbytes, List.nil_append]
      · rw [List.filter_cons_of_neg (by simp [hev]), hdrain]
    | some b =>
      obtain ⟨t, rfl, hline, hparse⟩ := J.text_of_marshal hev
      refine ⟨frame t ++ text, ?_, Or.inr rfl, ?_⟩
      · rw [List.flatMap_cons, writeSSE, hev, hbytes, List.flatMap_append, frame, List.flatMap_append,
          List.flatMap_append]
      · rw [drain_frame hline hparse, hdrain, List.filter_cons_of_pos (by simp [hev])]

theorem streamEvents_eq {evs : List ε} {chunks : List (List UInt8)}
    (h : chunks.flatten = evs.flatMap (writeSSE J)) :
    (streamEvents J chunks).calls = (evs.filter fun ev => (J.marshal ev).isSome) ∧
      (streamEvents J chunks).buf = [] := by
  obtain ⟨text, hbytes, hhead, hdrain⟩ := exists_text (J := J) evs
  have hbom : text.head? ≠ some TextDecoder.bom := by
    rcases hhead with hhead | hhead <;> rw [hhead] <;> decide
  have hdec : (TextDecoder.decode {} chunks.flatten).2 = text := by
    rw [h, hbytes, TextDecoder.decode_utf8 hbom]
  rw [streamEvents_flatten]
  simp only [Client.read, hdec, List.nil_append, hdrain, and_self]

end

/-- **The event stream.** However the bytes that `writeSSE` writes for a
sequence of events are split into pieces, `streamEvents` calls `applyEvent`
with exactly these events, in order and once each, and nothing is left in its
buffer. -/
theorem stream_calls (J : Json ε) (evs : List ε) (chunks : List (List UInt8))
    (h : chunks.flatten = evs.flatMap (writeSSE J)) :
    (streamEvents J chunks).calls = (evs.filter fun ev => (J.marshal ev).isSome) ∧
      (streamEvents J chunks).buf = [] :=
  streamEvents_eq h

/-- Events that are JSON documents. -/
def treeJson : Json Json.Tree where
  marshal t := some t.text
  parse text := Json.readDocument (text.flatMap String.utf8EncodeChar)
  text_of_marshal {t b} h := by
    obtain rfl := Option.some.inj h
    obtain ⟨text, htext, hline⟩ := t.isLine_text
    exact ⟨text, htext, hline, by rw [← htext]; exact Json.readDocument_text t⟩

/-- An exit connects and a session on it ends. -/
def nodeEvents : List Json.Tree :=
  [.obj [("type", .str "NodeConnected"), ("node", .obj [("nodeId", .str "é1"), ("name", .str "a\n")])],
    .obj [("type", .str "SessionEnded"), ("session", .obj [("sessionId", .str "7")])]]

/-- The two events byte by byte: the pieces end inside `data: `, inside the
character of two bytes and inside the blank lines. -/
theorem stream_calls_by_byte :
    (streamEvents treeJson ((nodeEvents.flatMap (writeSSE treeJson)).map ([·]))).calls =
      nodeEvents := by
  have hbytes : ((nodeEvents.flatMap (writeSSE treeJson)).map ([·])).flatten =
      nodeEvents.flatMap (writeSSE treeJson) := by
    rw [← List.flatMap_def, List.flatMap_singleton']
  rw [(stream_calls treeJson nodeEvents _ hbytes).1]
  exact List.filter_eq_self.mpr fun _ _ => rfl

/-- The dashboard shows what the events make of it. -/
theorem view_of_stream (J : Json StreamEvent) (v : View) {evs : List StreamEvent}
    {chunks : List (List UInt8)} (hall : ∀ ev ∈ evs, (J.marshal ev).isSome = true)
    (h : chunks.flatten = evs.flatMap (writeSSE J)) :
    (streamEvents J chunks).calls.foldl applyEvent v = evs.foldl applyEvent v := by
  rw [(streamEvents_eq h).1, List.filter_eq_self.mpr hall]

end Feed
end Revquic
