/-
# The lines of the history

`json.Marshal` on events: the members of the struct in order, the empty ones
left out. How a time and a rate are printed is a parameter; the layout and
the strings are not. Whatever the printers, this is a codec as the history
assumes one, and the size of a line is a sum over its members, a string
counting as the bytes of its literal.

Key definitions: `Jsonl`, `Printers`, `Printers.jsonl`, `Printers.size`.
Key theorem: `Printers.length_marshal`.
-/
import Revquic.Lib.Json
import Revquic.Proto.Framing
import Revquic.Qos

namespace Revquic
namespace Qos

open Lib

/-- `encoding/json` on events: a text has no control characters, a part of it
is not a text, and neither is a part with a text behind it. -/
structure Jsonl extends Proto.Json Event where
  printable : ∀ {ev b}, marshal ev = some b → ∀ x ∈ b, 0x20 ≤ x
  ne_nil : ∀ {ev b}, marshal ev = some b → b ≠ []
  cut : ∀ {ev b p}, marshal ev = some b → p <+: b → p ≠ b → unmarshal p = none
  glued : ∀ {ev b p ev' b'}, marshal ev = some b → p <+: b → p ≠ [] → marshal ev' = some b' →
    unmarshal (p ++ b') = none

/-- The scanner's limit: a line with its end has to fit. -/
def maxLine : ℕ := 1024 * 1024

namespace Jsonl

variable (J : Jsonl)

/-- An event whose line can be written and is under 1 MiB. -/
def Fits (ev : Event) : Prop := ∃ b, J.marshal ev = some b ∧ b.length < maxLine

instance : DecidablePred J.Fits := fun ev =>
  decidable_of_iff (∃ b ∈ J.marshal ev, b.length < maxLine) Iff.rfl

end Jsonl

/-- The constants of the kinds. -/
def Kind.name : Kind → String
  | .nodeUp => "node_up"
  | .nodeDown => "node_down"
  | .connect => "connect"
  | .disconnect => "disconnect"
  | .speedDrop => "speed_drop"
  | .recovered => "recovered"

def Kind.ofName (s : String) : Option Kind :=
  [Kind.nodeUp, .nodeDown, .connect, .disconnect, .speedDrop, .recovered].find? (·.name = s)

theorem Kind.ofName_name (k : Kind) : Kind.ofName k.name = some k := by
  cases k <;> decide

/-- How times and rates are printed, as far as they can be: a time as the
text of a literal, a rate as a number. What is printed is read back. -/
structure Printers where
  stamp : ℕ → Option String
  readStamp : String → Option ℕ
  readStamp_stamp : ∀ {n s}, stamp n = some s → readStamp s = some n
  number : ℚ → Option (List UInt8)
  readNumber : List UInt8 → Option ℚ
  readNumber_number : ∀ {q b}, number q = some b → readNumber b = some q
  number_proper : ∀ {q b}, number q = some b → (Json.Value.num b).Proper

namespace Printers

variable (P : Printers)

/-- `throughputBps,omitempty`. -/
def rate (bps : ℚ) : Option (List (String × Json.Value)) :=
  if bps = 0 then some [] else (P.number bps).map fun b => [("throughputBps", .num b)]

def readRate (ms : List (String × Json.Value)) : Option ℚ :=
  match Json.get ms "throughputBps" with
  | none => some 0
  | some (.num b) => P.readNumber b
  | some (.str _) => none

/-- The strings of an event. -/
def strings (ev : Event) : List (String × Json.Value) :=
  Json.omitEmpty "sessionId" ev.sessionID ++ (Json.omitEmpty "nodeId" ev.nodeID ++
    (Json.omitEmpty "region" ev.region ++ Json.omitEmpty "username" ev.username))

/-- The members of an event; `none` if its time or its rate cannot be
printed. -/
def members (ev : Event) : Option (List (String × Json.Value)) :=
  match P.stamp ev.ts, P.rate ev.throughputBps with
  | some ts, some rate =>
    some (("ts", .str ts) :: ("kind", .str ev.kind.name) :: (strings ev ++ rate))
  | _, _ => none

/-- `json.Marshal`. -/
def marshal (ev : Event) : Option (List UInt8) := (P.members ev).map Json.object

/-- `json.Unmarshal`. -/
def unmarshal (b : List UInt8) : Option Event := do
  let ms ← Json.readObject b
  let ts ← P.readStamp (← Json.getStr ms "ts")
  let kind ← Kind.ofName (← Json.getStr ms "kind")
  let sessionID ← Json.getStr ms "sessionId"
  let nodeID ← Json.getStr ms "nodeId"
  let region ← Json.getStr ms "region"
  let username ← Json.getStr ms "username"
  let throughputBps ← P.readRate ms
  return { ts, kind, sessionID, nodeID, region, username, throughputBps }

variable {P} {ev : Event} {b : List UInt8} {ms : List (String × Json.Value)}

theorem members_cases (h : P.members ev = some ms) :
    ∃ ts rate, P.stamp ev.ts = some ts ∧ P.rate ev.throughputBps = some rate ∧
      ms = ("ts", .str ts) :: ("kind", .str ev.kind.name) :: (strings ev ++ rate) := by
  unfold members at h
  split at h
  · rename_i ts rate hts hrate
    exact ⟨ts, rate, hts, hrate, (Option.some.inj h).symm⟩
  · cases h

theorem rate_cases {bps : ℚ} {rate : List (String × Json.Value)} (h : P.rate bps = some rate) :
    (bps = 0 ∧ rate = []) ∨
      ∃ b, bps ≠ 0 ∧ P.number bps = some b ∧ rate = [("throughputBps", .num b)] := by
  unfold Printers.rate at h
  split_ifs at h with h0
  · exact Or.inl ⟨h0, (Option.some.inj h).symm⟩
  · obtain ⟨b, hb, rfl⟩ := Option.map_eq_some_iff.mp h
    exact Or.inr ⟨b, h0, hb, rfl⟩

theorem members_proper (h : P.members ev = some ms) : ∀ m ∈ ms, m.2.Proper := by
  obtain ⟨ts, rate, -, hrate, rfl⟩ := members_cases h
  simp only [strings, List.forall_mem_cons, List.forall_mem_append]
  refine ⟨trivial, trivial, ⟨Json.proper_omitEmpty _ _, Json.proper_omitEmpty _ _,
    Json.proper_omitEmpty _ _, Json.proper_omitEmpty _ _⟩, ?_⟩
  rcases rate_cases hrate with ⟨-, rfl⟩ | ⟨b, -, hb, rfl⟩
  · simp
  · simpa using P.number_proper hb

/-! ### Reading an event -/

section
variable {ts : String} {rate : List (String × Json.Value)}

/-- What is found under a name. -/
theorem get_members (name : String) :
    Json.get (("ts", .str ts) :: ("kind", .str ev.kind.name) :: (strings ev ++ rate)) name =
      (Json.get rate name).or ((Json.get (strings ev) name).or
        ((if name = "kind" then some (.str ev.kind.name) else none).or
          (if name = "ts" then some (.str ts) else none))) := by
  rw [Json.get_cons, Json.get_cons, Json.get_append, Option.or_assoc, Option.or_assoc]

theorem get_rate {bps : ℚ} (h : P.rate bps = some rate) {name : String} (hne : name ≠ "throughputBps") :
    Json.get rate name = none := by
  rcases rate_cases h with ⟨-, rfl⟩ | ⟨b, -, -, rfl⟩
  · rfl
  · rw [Json.get_singleton, if_neg hne]

/-- The rate is read as it was written. -/
theorem readRate_members {bps : ℚ} (h : P.rate bps = some rate) :
    P.readRate (("ts", .str ts) :: ("kind", .str ev.kind.name) :: (strings ev ++ rate)) = some bps := by
  have hget : Json.get (("ts", .str ts) :: ("kind", .str ev.kind.name) :: (strings ev ++ rate))
      "throughputBps" = Json.get rate "throughputBps" := by
    rw [get_members]
    simp [strings, Json.get_append, Json.get_omitEmpty]
  rw [readRate, hget]
  rcases rate_cases h with ⟨rfl, rfl⟩ | ⟨b, -, hb, rfl⟩
  · rfl
  · rw [Json.get_singleton, if_pos rfl]
    exact P.readNumber_number hb

end

/-- An event is read as it was written. -/
theorem unmarshal_marshal (h : P.marshal ev = some b) : P.unmarshal b = some ev := by
  obtain ⟨ms, hms, rfl⟩ := Option.map_eq_some_iff.mp h
  have hread := Json.readObject_object (members_proper hms)
  obtain ⟨ts, rate, hts, hrate, heq⟩ := members_cases hms
  have hbps : P.readRate ms = some ev.throughputBps := by
    rw [heq]
    exact readRate_members hrate
  have hget : ∀ name, name ≠ "throughputBps" → Json.get ms name =
      (Json.get (strings ev) name).or ((if name = "kind" then some (.str ev.kind.name) else none).or
        (if name = "ts" then some (.str ts) else none)) := by
    intro name hne
    rw [heq, get_members, get_rate hrate hne, Option.none_or]
  have hstr : ∀ name s, (name, s) ∈ [("sessionId", ev.sessionID), ("nodeId", ev.nodeID),
      ("region", ev.region), ("username", ev.username)] → Json.getStr ms name = some s := by
    intro name s hmem
    refine Json.getStr_of_get ?_
    simp only [List.mem_cons, Prod.mk.injEq, List.not_mem_nil, or_false] at hmem
    rcases hmem with ⟨rfl, rfl⟩ | ⟨rfl, rfl⟩ | ⟨rfl, rfl⟩ | ⟨rfl, rfl⟩ <;>
      simp [hget, strings, Json.get_append, Json.get_omitEmpty]
  have hstamp : Json.getStr ms "ts" = some ts := by
    simp [Json.getStr, hget, strings, Json.get_append, Json.get_omitEmpty]
  have hkind : Json.getStr ms "kind" = some ev.kind.name := by
    simp [Json.getStr, hget, strings, Json.get_append, Json.get_omitEmpty]
  simp [unmarshal, hread, hstamp, hkind, hbps, P.readStamp_stamp hts, Kind.ofName_name,
    hstr "sessionId" ev.sessionID, hstr "nodeId" ev.nodeID, hstr "region" ev.region,
    hstr "username" ev.username]

/-! ### The codec -/

/-- A text starts with the name of the time. -/
theorem marshal_head (h : P.marshal ev = some b) : ∃ rest, b = 123 :: 34 :: 116 :: rest := by
  obtain ⟨ms, hms, rfl⟩ := Option.map_eq_some_iff.mp h
  obtain ⟨ts, rate, -, -, rfl⟩ := members_cases hms
  have hts : Json.body "ts" = [116, 115] := by decide +kernel
  rw [Json.object, Json.member, Json.quote, hts]
  exact ⟨_, rfl⟩

theorem marshal_valid (h : P.marshal ev = some b) : Json.checkValid b = true := by
  obtain ⟨ms, hms, rfl⟩ := Option.map_eq_some_iff.mp h
  exact Json.checkValid_object (members_proper hms)

theorem unmarshal_invalid (h : Json.checkValid b = false) : P.unmarshal b = none := by
  have hread : Json.readObject b = none := by
    unfold Json.readObject
    rw [h]
    rfl
  rw [unmarshal, hread]
  rfl

variable (P)

/-- `encoding/json` on events. -/
def jsonl : Jsonl where
  marshal := P.marshal
  unmarshal := P.unmarshal
  unmarshal_marshal := fun _ _ h => unmarshal_marshal h
  printable := fun h => Json.printable_of_checkValid (marshal_valid h)
  ne_nil := by
    intro ev b h
    obtain ⟨rest, rfl⟩ := marshal_head h
    exact List.cons_ne_nil _ _
  cut := fun h hp hne => unmarshal_invalid (Json.checkValid_cut (marshal_valid h) hp hne)
  glued := by
    intro ev b p ev' b' _ _ hne h'
    obtain ⟨rest, rfl⟩ := marshal_head h'
    exact unmarshal_invalid (Json.checkValid_glued hne (by decide) rest)

/-! ### Sizes -/

/-- What a member with a string takes in a line. -/
def stringSize (name s : String) : ℕ :=
  if s = "" then 0 else name.length + (Json.body s).length + 6

/-- The size of an event's line without its end; `none` if its time or its
rate cannot be printed. -/
def size (ev : Event) : Option ℕ :=
  match P.stamp ev.ts, P.rate ev.throughputBps with
  | some ts, some rate =>
    some (19 + (Json.body ts).length + ev.kind.name.length + stringSize "sessionId" ev.sessionID +
      stringSize "nodeId" ev.nodeID + stringSize "region" ev.region +
      stringSize "username" ev.username + (rate.map fun m => m.2.text.length + 17).sum)
  | _, _ => none

variable {P}

/-- What the node and the region add to the size. -/
theorem size_eq (ev : Event) : P.size ev = (P.size { ev with nodeID := "", region := "" }).map
    (· + stringSize "nodeId" ev.nodeID + stringSize "region" ev.region) := by
  have hempty : ∀ name, stringSize name "" = 0 := fun _ => if_pos rfl
  unfold size
  cases P.stamp ev.ts with
  | none => rfl
  | some ts =>
    cases P.rate ev.throughputBps with
    | none => rfl
    | some rate =>
      simp only [Option.map_some, hempty]
      congr 1
      omega

theorem length_string {name : String} (h : (Json.body name).length = name.length) (s : String) :
    ((Json.omitEmpty name s).map fun m => (Json.member m).length + 1).sum = stringSize name s := by
  rw [Json.length_omitEmpty, h, stringSize]

theorem length_strings (ev : Event) : ((strings ev).map fun m => (Json.member m).length + 1).sum =
    stringSize "sessionId" ev.sessionID + stringSize "nodeId" ev.nodeID +
      stringSize "region" ev.region + stringSize "username" ev.username := by
  simp only [strings, List.map_append, List.sum_append]
  rw [length_string (by decide +kernel), length_string (by decide +kernel),
    length_string (by decide +kernel), length_string (by decide +kernel)]
  omega

theorem length_rate {bps : ℚ} {rate : List (String × Json.Value)} (h : P.rate bps = some rate) :
    (rate.map fun m => (Json.member m).length + 1).sum =
      (rate.map fun m => m.2.text.length + 17).sum := by
  have hname : (Json.body "throughputBps").length = 13 := by decide +kernel
  rcases rate_cases h with ⟨-, rfl⟩ | ⟨b, -, -, rfl⟩
  · rfl
  · simp only [List.map_cons, List.map_nil, List.sum_singleton, Json.length_member, hname]
    omega

theorem length_kind (k : Kind) : (Json.body k.name).length = k.name.length := by
  cases k <;> decide +kernel

/-- The size is that of the text. -/
theorem length_marshal (ev : Event) : (P.marshal ev).map List.length = P.size ev := by
  unfold marshal members size
  split
  · rename_i ts rate hts hrate
    have hname : (Json.body "ts").length = 2 ∧ (Json.body "kind").length = 4 := by decide +kernel
    have hts : ∀ s, (Json.member ("ts", .str s)).length = (Json.body s).length + 7 := fun s => by
      rw [Json.length_member, Json.Value.text, Json.length_quote, hname.1]
      omega
    have hkind : (Json.member ("kind", .str ev.kind.name)).length = ev.kind.name.length + 9 := by
      rw [Json.length_member, Json.Value.text, Json.length_quote, hname.2, length_kind]
      omega
    rw [Option.map_some, Option.map_some, Json.length_object]
    simp only [List.map_cons, List.sum_cons, List.map_append, List.sum_append, length_strings,
      length_rate hrate, hts, hkind]
    congr 1
    omega
  · rfl

/-- An event fits if its size is known and under 1 MiB. -/
theorem fits_iff (ev : Event) : P.jsonl.Fits ev ↔ ∃ n ∈ P.size ev, n < 2 ^ 20 := by
  rw [← length_marshal]
  constructor
  · rintro ⟨b, hb, hlen⟩
    exact ⟨b.length, Option.mem_map_of_mem _ hb, hlen⟩
  · rintro ⟨n, hn, hlen⟩
    obtain ⟨b, hb, rfl⟩ := Option.map_eq_some_iff.mp hn
    exact ⟨b, hb, hlen⟩

end Printers

/-- Times on 1 January 1970, at midnight. -/
def midnight : Printers where
  stamp n := if n = 0 then some "1970-01-01T00:00:00Z" else none
  readStamp s := if s = "1970-01-01T00:00:00Z" then some 0 else none
  readStamp_stamp := by
    intro n s h
    split_ifs at h with hn
    obtain rfl := Option.some.inj h
    rw [if_pos rfl, hn]
  number _ := none
  readNumber _ := none
  readNumber_number := by
    intro q b h
    cases h
  number_proper := by
    intro q b h
    cases h

end Qos
end Revquic
