/-
# The history in a file (`internal/qos/history.go`)

The events of the tracker are kept as JSON objects, one a line, and cut to
the last 5000 when the file is opened. It is opened for appending, whatever
it ends with. After a crash in the middle of a line, the next event is
written behind the fragment, into the same line, and neither can be read any
more; a line that has lost nothing but its end is still read.

The JSON codec is a parameter. The strings of an event are text. A file that
does not exist is one with nothing in it.

Key definitions: `readAllEvents`, `trim`, `write`, `load`.
Key theorem: `torn_write_iff`.
-/
import Revquic.Lib.Lines
import Revquic.Lib.Recent
import Revquic.Qos.Encoding

namespace Revquic
namespace Qos

open Lib

/-- `'\n'`. -/
def newline : UInt8 := 10

/-- `bufio.ScanLines` drops a carriage return before the end of a line. -/
def dropCR (line : List UInt8) : List UInt8 := if line.getLast? = some 13 then line.dropLast else line

/-- The last events first, at most `limit` if that is not 0. -/
def newest (limit : ℕ) (evs : List Event) : List Event :=
  if limit = 0 then evs.reverse else evs.reverse.take limit

namespace Jsonl

variable (J : Jsonl)

/-- One record of the file; an event that cannot be encoded is an empty
line. -/
def line (ev : Event) : List UInt8 := (J.marshal ev).getD [] ++ [newline]

/-- `readAllEvents`; `none` is the scanner's error for a line that is too
long. -/
def readAllEvents (file : List UInt8) : Option (List Event) :=
  if (lines newline file).any (maxLine ≤ ·.length) then none
  else some (((lines newline file).map dropCR).filterMap fun line =>
    if line = [] then none else J.unmarshal line)

/-- `defaultFileMaxRows`. -/
def defaultFileMaxRows : ℕ := 5000

/-- `trim`, which is all that opening does to the file. -/
def trim (file : List UInt8) : Option (List UInt8) :=
  (J.readAllEvents file).map fun evs =>
    if evs.length ≤ defaultFileMaxRows then file
    else (evs.drop (evs.length - defaultFileMaxRows)).flatMap J.line

/-- `write`. -/
def write (file : List UInt8) (ev : Event) : Option (List UInt8) :=
  (J.marshal ev).map fun b => file ++ (b ++ [newline])

/-- `load`. -/
def load (file : List UInt8) (limit : ℕ) : Option (List Event) :=
  (J.readAllEvents file).map (newest limit)

/-- A file opened again, appended to and loaded. -/
def reload (file : List UInt8) (more : List Event) : Option (List Event) :=
  match J.trim file with
  | none => none
  | some file =>
    match more.foldlM J.write file with
    | none => none
    | some file => J.load file 0

/-- The text of a list of events. -/
def text (evs : List Event) : List UInt8 := evs.flatMap J.line

variable {J} {ev : Event} {evs : List Event} {b p : List UInt8}

theorem newline_notMem (h : J.marshal ev = some b) : newline ∉ b := by
  intro hmem
  exact absurd (J.printable h newline hmem) (by decide)

theorem dropCR_of_printable (h : ∀ x ∈ p, (0x20 : UInt8) ≤ x) : dropCR p = p := by
  unfold dropCR
  rw [if_neg]
  intro hlast
  exact absurd (h 13 (List.mem_of_getLast? hlast)) (by decide)

theorem line_eq (h : J.marshal ev = some b) : J.line ev = b ++ [newline] := by
  rw [line, h]
  rfl

theorem write_eq (h : J.Fits ev) (file : List UInt8) : J.write file ev = some (file ++ J.line ev) := by
  obtain ⟨b, hb, -⟩ := h
  rw [write, hb, line_eq hb]
  rfl

theorem text_cons (ev : Event) (evs : List Event) : J.text (ev :: evs) = J.line ev ++ J.text evs := rfl

theorem text_snoc {last : Event} (hb : J.marshal last = some b) (evs : List Event) :
    J.text (evs ++ [last]) = J.text evs ++ (b ++ [newline]) := by
  simp [text, line_eq hb]

/-! ### Reading -/

/-- The event on a line, if any. -/
def parse (J : Jsonl) (line : List UInt8) : Option Event :=
  if dropCR line = [] then none else J.unmarshal (dropCR line)

theorem parse_printable (h : ∀ x ∈ p, (0x20 : UInt8) ≤ x) (hne : p ≠ []) : J.parse p = J.unmarshal p := by
  rw [parse, dropCR_of_printable h, if_neg hne]

theorem readAllEvents_eq (file : List UInt8) : J.readAllEvents file =
    if (lines newline file).any (maxLine ≤ ·.length) then none
    else some ((lines newline file).filterMap J.parse) := by
  rw [readAllEvents, List.filterMap_map]
  rfl

/-- Reading a line, and then the rest of the file. -/
theorem readAllEvents_line (hnl : newline ∉ p) (file : List UInt8) :
    J.readAllEvents (p ++ newline :: file) =
      if maxLine ≤ p.length then none else (J.readAllEvents file).map ((J.parse p).toList ++ ·) := by
  rw [readAllEvents_eq, readAllEvents_eq, lines_line hnl, List.any_cons, List.filterMap_cons]
  by_cases hlen : maxLine ≤ p.length
  · simp [hlen]
  · simp only [hlen, decide_false, Bool.false_or, if_false]
    split_ifs
    · rfl
    · cases J.parse p <;> rfl

/-- Reading whole lines, and what follows them. -/
theorem readAllEvents_text : ∀ {evs : List Event}, (∀ ev ∈ evs, J.Fits ev) → ∀ p,
    J.readAllEvents (J.text evs ++ p) = (J.readAllEvents p).map (evs ++ ·)
  | [], _, p => by simp [text]
  | ev :: evs, h, p => by
    obtain ⟨b, hb, hlen⟩ := h ev List.mem_cons_self
    have hfile : J.text (ev :: evs) ++ p = b ++ newline :: (J.text evs ++ p) := by
      simp [text_cons, line_eq hb]
    have hparse : J.parse b = some ev :=
      (parse_printable (J.printable hb) (J.ne_nil hb)).trans (J.unmarshal_marshal ev b hb)
    rw [hfile, readAllEvents_line (newline_notMem hb), if_neg (Nat.not_le.mpr hlen), hparse,
      readAllEvents_text fun x hx => h x (List.mem_cons_of_mem _ hx), Option.map_map]
    rfl

theorem readAllEvents_nil : J.readAllEvents [] = some [] := rfl

theorem readAllEvents_whole (h : ∀ ev ∈ evs, J.Fits ev) : J.readAllEvents (J.text evs) = some evs := by
  have := readAllEvents_text h []
  rwa [List.append_nil, readAllEvents_nil, Option.map_some, List.append_nil] at this

/-- Reading a line that has no end. -/
theorem readAllEvents_fragment (hp : ∀ x ∈ p, (0x20 : UInt8) ≤ x) (hne : p ≠ []) (hlen : p.length < maxLine) :
    J.readAllEvents p = some (J.unmarshal p).toList := by
  have hnl : newline ∉ p := fun hmem => absurd (hp newline hmem) (by decide)
  rw [readAllEvents_eq, lines_fragment hnl hne, List.filterMap_cons, parse_printable hp hne]
  cases J.unmarshal p <;> simpa using hlen

/-! ### Writing and reading back -/

theorem write_iff {file file' : List UInt8} :
    J.write file ev = some file' ↔ (J.marshal ev).isSome = true ∧ file' = file ++ J.line ev := by
  unfold write
  cases hb : J.marshal ev with
  | none => simp
  | some b =>
    rw [line_eq hb]
    simp [eq_comm]

/-- Events are written one behind the other. -/
theorem writes_iff : ∀ {evs : List Event} {file file' : List UInt8},
    evs.foldlM J.write file = some file' ↔
      (∀ ev ∈ evs, (J.marshal ev).isSome = true) ∧ file' = file ++ J.text evs
  | [], file, file' => by
    rw [List.foldlM_nil, text, List.flatMap_nil, List.append_nil]
    exact ⟨fun h => ⟨by simp, (Option.some.inj h).symm⟩, fun h => congrArg some h.2.symm⟩
  | ev :: evs, file, file' => by
    rw [List.foldlM_cons, Option.bind_eq_bind, Option.bind_eq_some_iff, List.forall_mem_cons]
    simp only [write_iff, writes_iff, text_cons, ← List.append_assoc]
    constructor
    · rintro ⟨file₁, ⟨hev, rfl⟩, hevs, rfl⟩
      exact ⟨⟨hev, hevs⟩, rfl⟩
    · rintro ⟨⟨hev, hevs⟩, rfl⟩
      exact ⟨_, ⟨hev, rfl⟩, hevs, rfl⟩

/-- One line that is too long, and nothing can be read. -/
theorem fits_of_readAllEvents : ∀ {evs : List Event}, (∀ ev ∈ evs, (J.marshal ev).isSome = true) →
    (J.readAllEvents (J.text evs)).isSome = true → ∀ ev ∈ evs, J.Fits ev
  | [], _, _ => by simp
  | ev :: evs, hm, hread => by
    rw [List.forall_mem_cons] at hm ⊢
    obtain ⟨b, hb⟩ := Option.isSome_iff_exists.mp hm.1
    have hfile : J.text (ev :: evs) = b ++ newline :: J.text evs := by
      simp [text_cons, line_eq hb]
    rw [hfile, readAllEvents_line (newline_notMem hb)] at hread
    split_ifs at hread with hlen
    · cases hread
    · rw [Option.isSome_map] at hread
      exact ⟨⟨b, hb, Nat.lt_of_not_le hlen⟩, fits_of_readAllEvents hm.2 hread⟩

/-- One line that is too long, and the file cannot be opened or loaded. -/
theorem blocked (hm : ∀ ev ∈ evs, (J.marshal ev).isSome = true) (hev : ev ∈ evs) (hlong : ¬ J.Fits ev) :
    J.trim (J.text evs) = none ∧ ∀ limit, J.load (J.text evs) limit = none := by
  have hnone : J.readAllEvents (J.text evs) = none := by
    rw [← Option.not_isSome_iff_eq_none]
    exact fun hread => hlong (fits_of_readAllEvents hm hread ev hev)
  refine ⟨?_, fun limit => ?_⟩
  · rw [trim, hnone]
    rfl
  · rw [load, hnone]
    rfl

/-- The events can all be written to an empty file, and it can then be
opened, and loaded with any limit. -/
def Readable (J : Jsonl) (evs : List Event) : Prop :=
  ∃ file, evs.foldlM J.write [] = some file ∧ J.readAllEvents file = some evs ∧
    (J.trim file).isSome = true ∧ ∀ limit, J.load file limit = some (newest limit evs)

theorem readable_iff : J.Readable evs ↔ ∀ ev ∈ evs, J.Fits ev := by
  constructor
  · rintro ⟨file, hw, hread, -⟩
    obtain ⟨hm, rfl⟩ := writes_iff.mp hw
    exact fits_of_readAllEvents hm (by rw [List.nil_append] at hread; rw [hread]; rfl)
  · intro h
    have hread := readAllEvents_whole h
    refine ⟨J.text evs, writes_iff.mpr ⟨fun ev hev => ?_, rfl⟩, hread, ?_, fun limit => ?_⟩
    · obtain ⟨b, hb, -⟩ := h ev hev
      rw [hb]
      rfl
    · rw [trim, hread]
      rfl
    · rw [load, hread]
      rfl

/-! ### A torn line -/

section
variable {last : Event} {rest more : List Event}

theorem writes_eq (h : ∀ ev ∈ more, J.Fits ev) (file : List UInt8) :
    more.foldlM J.write file = some (file ++ J.text more) := by
  refine writes_iff.mpr ⟨fun ev hev => ?_, rfl⟩
  obtain ⟨b, hb, -⟩ := h ev hev
  rw [hb]
  rfl

/-- An event written behind a fragment goes into the same line: the line
cannot be read, or the file cannot. -/
theorem readAllEvents_glued (hb : J.marshal last = some b) (hp : p <+: b) (hne : p ≠ [])
    (hev : J.Fits ev) (hrest : ∀ ev ∈ rest, J.Fits ev) :
    J.readAllEvents (p ++ J.text (ev :: rest)) = none ∨
      J.readAllEvents (p ++ J.text (ev :: rest)) = some rest := by
  obtain ⟨b', hb', -⟩ := hev
  have hprint : ∀ x ∈ p ++ b', (0x20 : UInt8) ≤ x := by
    intro x hx
    rcases List.mem_append.mp hx with hx | hx
    · exact J.printable hb x (hp.subset hx)
    · exact J.printable hb' x hx
  have hnl : newline ∉ p ++ b' := fun hmem => absurd (hprint newline hmem) (by decide)
  have hfile : p ++ J.text (ev :: rest) = (p ++ b') ++ newline :: J.text rest := by
    simp [text, line_eq hb']
  have hparse : J.parse (p ++ b') = none :=
    (parse_printable hprint (by simp [hne])).trans (J.glued hb hp hne hb')
  rw [hfile, readAllEvents_line hnl, readAllEvents_whole hrest, hparse]
  split_ifs
  · exact Or.inl rfl
  · exact Or.inr rfl

/-- A file that is not too long stays as it is, and events go behind what it
ends with. -/
theorem reload_eq {file : List UInt8} (hread : J.readAllEvents file = some evs)
    (hlen : evs.length ≤ defaultFileMaxRows) (hmore : ∀ ev ∈ more, J.Fits ev) :
    J.reload file more = (J.readAllEvents (file ++ J.text more)).map List.reverse := by
  have htrim : J.trim file = some file := by
    rw [trim, hread, Option.map_some, if_pos hlen]
  rw [reload, htrim]
  simp only [writes_eq hmore]
  rfl

/-- A file that ends with part of a line, which may be all of it but its
end. -/
theorem reload_torn_iff (hevs : ∀ ev ∈ evs, J.Fits ev) (hmore : ∀ ev ∈ more, J.Fits ev)
    (hlen : evs.length < defaultFileMaxRows) (hb : J.marshal last = some b) (hsize : b.length < maxLine)
    (hp : p <+: b) :
    J.reload (J.text evs ++ p) more = some (evs ++ more).reverse ↔ p = [] ∨ (more = [] ∧ p ≠ b) := by
  have hprint : ∀ x ∈ p, (0x20 : UInt8) ≤ x := fun x hx => J.printable hb x (hp.subset hx)
  have hshort : p.length < maxLine := Nat.lt_of_le_of_lt hp.length_le hsize
  have hread : ∃ tail, J.readAllEvents p = some tail ∧ tail.length ≤ 1 := by
    by_cases hne : p = []
    · exact ⟨[], by rw [hne, readAllEvents_nil], Nat.zero_le _⟩
    · exact ⟨_, readAllEvents_fragment hprint hne hshort, Option.length_toList_le⟩
  obtain ⟨tail, htail, hone⟩ := hread
  have hfile : J.readAllEvents (J.text evs ++ p) = some (evs ++ tail) := by
    rw [readAllEvents_text hevs, htail]
    rfl
  rw [reload_eq hfile (by rw [List.length_append]; omega) hmore, List.append_assoc,
    readAllEvents_text hevs]
  by_cases hne : p = []
  · rw [hne, List.nil_append, readAllEvents_whole hmore]
    simp
  · cases more with
    | nil =>
      have hnil : p ++ J.text [] = p := List.append_nil p
      rw [hnil, readAllEvents_fragment hprint hne hshort]
      by_cases hwhole : p = b
      · -- the line is read, though it has no end
        rw [hwhole, J.unmarshal_marshal last b hb]
        refine iff_of_false (fun h => ?_) (by simp [J.ne_nil hb])
        have := congrArg List.length (Option.some.inj h)
        simp at this
      · rw [J.cut hb hp hwhole]
        exact iff_of_true (by simp) (Or.inr ⟨rfl, hwhole⟩)
    | cons ev rest =>
      refine iff_of_false (fun h => ?_) (by simp [hne])
      rcases readAllEvents_glued hb hp hne (hmore ev List.mem_cons_self)
        (fun x hx => hmore x (List.mem_cons_of_mem _ hx)) with hnone | hrest
      · rw [hnone] at h
        cases h
      · rw [hrest] at h
        have := congrArg List.length (Option.some.inj h)
        simp at this

/-- The file after a cut inside its last line. -/
theorem take_text (hb : J.marshal last = some b) {k : ℕ} (hk : (J.text evs).length ≤ k)
    (hk' : k < (J.text (evs ++ [last])).length) :
    (J.text (evs ++ [last])).take k = J.text evs ++ b.take (k - (J.text evs).length) := by
  rw [text_snoc hb] at hk' ⊢
  simp only [List.length_append, List.length_singleton] at hk'
  rw [List.take_append, List.take_of_length_le hk, List.take_append_of_le_length (by omega)]

/-- **Torn writes.** The file has lost the end of its last line: its last
character, or more, up to the whole line. Opened again and appended to, it
loads as the events before that line and the new ones, if and only if all of
the line is lost, or nothing is appended and more than the last character is
lost. -/
theorem torn_write_iff (J : Jsonl) {evs more : List Event} {last : Event}
    (hfit : ∀ ev ∈ evs ++ last :: more, J.Fits ev) (hlen : (evs ++ [last]).length ≤ defaultFileMaxRows)
    {k : ℕ} (hk : (J.text evs).length ≤ k) (hk' : k < (J.text (evs ++ [last])).length) :
    J.reload ((J.text (evs ++ [last])).take k) more = some (evs ++ more).reverse ↔
      k = (J.text evs).length ∨ (more = [] ∧ k + 1 < (J.text (evs ++ [last])).length) := by
  obtain ⟨b, hb, hsize⟩ := hfit last (by simp)
  have hlast : (J.text (evs ++ [last])).length = (J.text evs).length + (b.length + 1) := by
    simp [text_snoc hb]
  rw [take_text hb hk hk', reload_torn_iff (fun ev hev => hfit ev (by simp [hev]))
    (fun ev hev => hfit ev (by simp [hev])) (by simpa using hlen) hb hsize (List.take_prefix _ _)]
  have hnil : b.take (k - (J.text evs).length) = [] ↔ k = (J.text evs).length := by
    rw [List.take_eq_nil_iff, or_iff_left (J.ne_nil hb)]
    omega
  have hwhole : b.take (k - (J.text evs).length) ≠ b ↔ k + 1 < (J.text (evs ++ [last])).length := by
    rw [Ne, List.take_eq_self_iff]
    omega
  rw [hnil, hwhole]

end

/-! ### Nodes that come up -/

def up (nodeID : String) : Event := { ts := 0, kind := .nodeUp, nodeID }

/-- All of the last line is lost; or part of it, and nothing is appended. A
line is 60 bytes. -/
theorem torn_write_iff_lost :
    midnight.jsonl.reload ((midnight.jsonl.text [up "1", up "2"]).take 60) [up "3"] =
        some [up "3", up "1"] ∧
      midnight.jsonl.reload ((midnight.jsonl.text [up "1", up "2"]).take 100) [] = some [up "1"] := by
  have hfit : ∀ ev ∈ [up "1"] ++ up "2" :: [up "3"], midnight.jsonl.Fits ev := by decide +kernel
  have hfit' : ∀ ev ∈ [up "1"] ++ [up "2"], midnight.jsonl.Fits ev := by decide +kernel
  have hlen : (midnight.jsonl.text [up "1"]).length = 60 ∧
      (midnight.jsonl.text ([up "1"] ++ [up "2"])).length = 120 := by decide +kernel
  obtain ⟨h1, h2⟩ := hlen
  exact ⟨(torn_write_iff _ hfit (by decide) (by rw [h1]) (by rw [h2]; decide)).mpr (Or.inl h1.symm),
    (torn_write_iff _ hfit' (by decide) (by rw [h1]; decide) (by rw [h2]; decide)).mpr
      (Or.inr ⟨rfl, by rw [h2]; decide⟩)⟩

/-- The second of two events is cut after its first character, and two more
are appended: the first of them is lost. If it is cut before its last
character, and nothing is appended, it is still there. -/
theorem torn_write_loses_next :
    midnight.jsonl.reload ((midnight.jsonl.text [up "1", up "2"]).take 61) [up "3", up "4"] =
        some [up "4", up "1"] ∧
      midnight.jsonl.reload ((midnight.jsonl.text [up "1", up "2"]).take 119) [] =
        some [up "2", up "1"] := by
  decide +kernel

end Jsonl
end Qos
end Revquic
