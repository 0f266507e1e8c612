/-
# ICE signals (`internal/ice`)

What the two ends of a session say to each other through the broker when they
look for a direct path: the credentials of an agent, and its candidates as it
finds them. A signal travels as JSON inside `MsgSignal`. The constants of a
kind or a candidate type that the code does not know are one value: nothing
tells them apart.

Key definitions: `Candidate`, `Credentials`, `Signal`.
Key theorem: `Signal.unmarshal_marshal`.
-/
import Revquic.Lib.JsonTree
import Revquic.Proto.Encoding

namespace Revquic
namespace Ice

open Lib

/-- `CandidateType`. -/
inductive CandidateType
  | host
  | srflx
  | prflx
  | relay
  | unknown
  deriving DecidableEq

def CandidateType.name : CandidateType → String
  | .host => "host"
  | .srflx => "srflx"
  | .prflx => "prflx"
  | .relay => "relay"
  | .unknown => ""

def CandidateType.ofName (s : String) : CandidateType :=
  if s = "host" then .host
  else if s = "srflx" then .srflx
  else if s = "prflx" then .prflx
  else if s = "relay" then .relay
  else .unknown

/-- `Candidate`. -/
structure Candidate where
  type : CandidateType
  foundation : String := ""
  protocol : String := ""
  address : String := ""
  port : Int64 := 0
  priority : UInt32 := 0
  raw : String := ""
  deriving DecidableEq

/-- `Credentials`. -/
structure Credentials where
  ufrag : String := ""
  pwd : String := ""
  deriving DecidableEq

/-- `SignalKind`. -/
inductive SignalKind
  | candidate
  | credentials
  | role
  | endOfCandidates
  | unknown
  deriving DecidableEq

def SignalKind.name : SignalKind → String
  | .candidate => "candidate"
  | .credentials => "credentials"
  | .role => "role"
  | .endOfCandidates => "end"
  | .unknown => ""

def SignalKind.ofName (s : String) : SignalKind :=
  if s = "candidate" then .candidate
  else if s = "credentials" then .credentials
  else if s = "role" then .role
  else if s = "end" then .endOfCandidates
  else .unknown

/-- `Signal`. -/
structure Signal where
  sessionID : String := ""
  nonce : String := ""
  kind : SignalKind := .unknown
  candidate : Option Candidate := none
  creds : Option Credentials := none
  role : String := ""
  deriving DecidableEq

theorem CandidateType.ofName_name (t : CandidateType) : ofName t.name = t := by
  cases t <;> rfl

theorem SignalKind.ofName_name (k : SignalKind) : ofName k.name = k := by
  cases k <;> rfl

/-! ### Numbers -/

/-- An integer is a number of JSON: its first digit is 0 only if it is the
only one. -/
theorem isNumber_decimal {s : Json.NumScan} (hs : s = .start ∨ s = .neg) (n : ℕ) :
    ((Proto.decimal n).foldlM Json.numScan s).any Json.NumScan.ends = true := by
  unfold Proto.decimal
  split_ifs with h
  · rcases hs with rfl | rfl <;> rfl
  · have hne : Nat.digits 10 n ≠ [] := Nat.digits_ne_nil_iff_ne_zero.mpr h
    have hdigits : ∀ d ∈ (Nat.digits 10 n).reverse, d < 10 := fun d hd =>
      Nat.digits_lt_base (by decide) (List.mem_reverse.mp hd)
    have hhead : ∀ d ∈ ((Nat.digits 10 n).reverse).head?, d ≠ 0 := by
      rw [List.head?_reverse, List.getLast?_eq_some_getLast hne]
      rintro d ⟨⟩
      exact Nat.getLast_digit_ne_zero 10 h
    have hrev : (Nat.digits 10 n).reverse ≠ [] := by simpa using hne
    generalize (Nat.digits 10 n).reverse = l at hdigits hhead hrev
    cases l with
    | nil => exact absurd rfl hrev
    | cons d l =>
      rw [List.forall_mem_cons] at hdigits
      have hdigit : ∀ x < 10, Json.digit (UInt8.ofNat (48 + x)) = true := by decide
      have hfirst : ∀ x < 10, x ≠ 0 → ∀ s, s = .start ∨ s = .neg →
          Json.numScan s (UInt8.ofNat (48 + x)) = some .int := by
        intro x hx h0 s hs
        have hx' : ∀ x < 10, x ≠ 0 → Json.numScan .start (UInt8.ofNat (48 + x)) = some .int ∧
            Json.numScan .neg (UInt8.ofNat (48 + x)) = some .int := by decide
        rcases hs with rfl | rfl
        · exact (hx' x hx h0).1
        · exact (hx' x hx h0).2
      rw [List.map_cons, List.foldlM_cons, hfirst d hdigits.1 (hhead d rfl) s hs]
      show (List.foldlM Json.numScan .int _).any _ = true
      rw [Json.scanned_digits]
      · rfl
      · intro b hb
        obtain ⟨x, hx, rfl⟩ := List.mem_map.mp hb
        exact hdigit x (hdigits.2 x hx)

theorem isNumber_integer (z : ℤ) : Json.isNumber (Proto.integer z) = true := by
  unfold Proto.integer
  split_ifs
  · exact isNumber_decimal (Or.inr rfl) _
  · exact isNumber_decimal (Or.inl rfl) _

/-- An integer as a value. -/
def number (z : ℤ) : Json.Tree := .num ⟨Proto.integer z, isNumber_integer z⟩

/-- The integer under a name, 0 if there is none. -/
def intField (ms : List (String × Json.Tree)) (name : String) : Option ℤ :=
  match Json.field ms name with
  | none | some .null => some 0
  | some (.num n) => Proto.readInteger n.1
  | some _ => none

/-- An `int`. -/
def toInt64 (z : ℤ) : Option Int64 :=
  if -9223372036854775808 ≤ z ∧ z < 9223372036854775808 then some (Int64.ofInt z) else none

/-- A `uint32`. -/
def toUInt32 (z : ℤ) : Option UInt32 :=
  if 0 ≤ z ∧ z < 4294967296 then some (UInt32.ofNat z.toNat) else none

theorem toInt64_toInt (x : Int64) : toInt64 x.toInt = some x := by
  have h1 := x.minValue_le_toInt
  have h2 := x.toInt_lt
  rw [toInt64, if_pos ⟨by simpa using h1, by simpa using h2⟩, Int64.ofInt_toInt]

theorem toUInt32_toNat (x : UInt32) : toUInt32 (x.toNat : ℤ) = some x := by
  have h := x.toNat_lt
  rw [toUInt32, if_pos ⟨by omega, by omega⟩, Int.toNat_natCast, UInt32.ofNat_toNat]

/-! ### `json.Marshal` and `json.Unmarshal` -/

/-- The members of an object; `null` leaves everything as it is. -/
def objFields : Json.Tree → Option (List (String × Json.Tree))
  | .obj ms => some ms
  | .null => some []
  | _ => none

/-- A pointer: nil if there is no member or it is `null`. -/
def ptrField {α : Type} (ofTree : Json.Tree → Option α) (ms : List (String × Json.Tree))
    (name : String) : Option (Option α) :=
  match Json.field ms name with
  | none | some .null => some none
  | some t => (ofTree t).map some

theorem intField_of_field {ms : List (String × Json.Tree)} {name : String} {z : ℤ}
    (h : Json.field ms name = some (number z)) : intField ms name = some z := by
  rw [intField, h]
  exact Proto.readInteger_integer z

theorem intField_of_none {ms : List (String × Json.Tree)} {name : String}
    (h : Json.field ms name = none) : intField ms name = some 0 := by
  rw [intField, h]

/-- A pointer to what is written as an object is read as it was. -/
theorem ptrField_of_field {α : Type} {ofTree : Json.Tree → Option α}
    {tree : α → List (String × Json.Tree)} (hread : ∀ x, ofTree (.obj (tree x)) = some x)
    {ms : List (String × Json.Tree)} {name : String} {x : Option α}
    (h : Json.field ms name = x.map fun y => .obj (tree y)) : ptrField ofTree ms name = some x := by
  rw [ptrField, h]
  cases x with
  | none => rfl
  | some y =>
    show (ofTree (.obj (tree y))).map some = _
    rw [hread]
    rfl

namespace Credentials

def members (c : Credentials) : List (String × Json.Tree) :=
  [("ufrag", .str c.ufrag), ("pwd", .str c.pwd)]

def tree (c : Credentials) : Json.Tree := .obj c.members

def ofTree (t : Json.Tree) : Option Credentials := do
  let ms ← objFields t
  let ufrag ← Json.strField ms "ufrag"
  let pwd ← Json.strField ms "pwd"
  return { ufrag, pwd }

theorem ofTree_tree (c : Credentials) : ofTree c.tree = some c := rfl

end Credentials

namespace Candidate

/-- `priority,omitempty`. -/
def priorityMember (x : UInt32) : List (String × Json.Tree) :=
  if x = 0 then [] else [("priority", number x.toNat)]

def members (c : Candidate) : List (String × Json.Tree) :=
  ("type", .str c.type.name) :: (Json.optStr "foundation" c.foundation ++
    (Json.optStr "protocol" c.protocol ++ (("address", .str c.address) ::
      ("port", number c.port.toInt) :: (priorityMember c.priority ++ Json.optStr "raw" c.raw))))

def tree (c : Candidate) : Json.Tree := .obj c.members

def readPort (ms : List (String × Json.Tree)) : Option Int64 := (intField ms "port").bind toInt64

def readPriority (ms : List (String × Json.Tree)) : Option UInt32 :=
  (intField ms "priority").bind toUInt32

def ofTree (t : Json.Tree) : Option Candidate := do
  let ms ← objFields t
  let type ← Json.strField ms "type"
  let foundation ← Json.strField ms "foundation"
  let protocol ← Json.strField ms "protocol"
  let address ← Json.strField ms "address"
  let port ← readPort ms
  let priority ← readPriority ms
  let raw ← Json.strField ms "raw"
  return { type := .ofName type, foundation, protocol, address, port, priority, raw }

theorem field_priorityMember (x : UInt32) (name : String) : Json.field (priorityMember x) name =
    if name = "priority" ∧ x ≠ 0 then some (number x.toNat) else none := by
  unfold priorityMember
  by_cases h : x = 0
  · simp [h, Json.field_nil]
  · rw [if_neg h, Json.field_singleton]
    simp [h]

theorem field_members (c : Candidate) (name : String) : Json.field c.members name =
    if name = "raw" ∧ c.raw ≠ "" then some (.str c.raw)
    else if name = "priority" ∧ c.priority ≠ 0 then some (number c.priority.toNat)
    else if name = "port" then some (number c.port.toInt)
    else if name = "address" then some (.str c.address)
    else if name = "protocol" ∧ c.protocol ≠ "" then some (.str c.protocol)
    else if name = "foundation" ∧ c.foundation ≠ "" then some (.str c.foundation)
    else if name = "type" then some (.str c.type.name)
    else none := by
  simp only [members, Json.field_cons, Json.field_append, Json.field_optStr, field_priorityMember]
  split_ifs <;> simp_all

theorem readPort_members (c : Candidate) : readPort c.members = some c.port := by
  rw [readPort, intField_of_field (z := c.port.toInt) (by simp [field_members]), Option.bind_some,
    toInt64_toInt]

theorem readPriority_members (c : Candidate) : readPriority c.members = some c.priority := by
  have hint : intField c.members "priority" = some (c.priority.toNat : ℤ) := by
    by_cases h : c.priority = 0
    · rw [intField_of_none (by simp [field_members, h]), h, UInt32.toNat_zero, Nat.cast_zero]
    · exact intField_of_field (by simp [field_members, h])
  rw [readPriority, hint, Option.bind_some, toUInt32_toNat]

theorem ofTree_tree (c : Candidate) : ofTree c.tree = some c := by
  have hfoundation : Json.strField c.members "foundation" = some c.foundation :=
    Json.strField_of_opt (by simp [field_members])
  have hprotocol : Json.strField c.members "protocol" = some c.protocol :=
    Json.strField_of_opt (by simp [field_members])
  have hraw : Json.strField c.members "raw" = some c.raw :=
    Json.strField_of_opt (by simp [field_members])
  have htype : Json.strField c.members "type" = some c.type.name :=
    Json.strField_of_field (by simp [field_members])
  have haddr : Json.strField c.members "address" = some c.address :=
    Json.strField_of_field (by simp [field_members])
  simp only [ofTree, tree, objFields, c.readPort_members, c.readPriority_members, htype, haddr,
    hfoundation, hprotocol, hraw, CandidateType.ofName_name, Option.bind_eq_bind, Option.bind_some,
    Option.pure_def]

end Candidate

namespace Signal

def members (s : Signal) : List (String × Json.Tree) :=
  ("sessionId", .str s.sessionID) :: (Json.optStr "nonce" s.nonce ++ (("kind", .str s.kind.name) ::
    (Json.optField "candidate" (s.candidate.map Candidate.tree) ++
      (Json.optField "creds" (s.creds.map Credentials.tree) ++ Json.optStr "role" s.role))))

def marshal (s : Signal) : List UInt8 := (Json.Tree.obj s.members).text

def unmarshal (b : List UInt8) : Option Signal := do
  let ms ← objFields (← Json.readDocument b)
  let sessionID ← Json.strField ms "sessionId"
  let nonce ← Json.strField ms "nonce"
  let kind ← Json.strField ms "kind"
  let candidate ← ptrField Candidate.ofTree ms "candidate"
  let creds ← ptrField Credentials.ofTree ms "creds"
  let role ← Json.strField ms "role"
  return { sessionID, nonce, kind := .ofName kind, candidate, creds, role }

theorem field_members (s : Signal) (name : String) : Json.field s.members name =
    if name = "role" ∧ s.role ≠ "" then some (.str s.role)
    else if name = "creds" then s.creds.map Credentials.tree
    else if name = "candidate" then s.candidate.map Candidate.tree
    else if name = "kind" then some (.str s.kind.name)
    else if name = "nonce" ∧ s.nonce ≠ "" then some (.str s.nonce)
    else if name = "sessionId" then some (.str s.sessionID)
    else none := by
  simp only [members, Json.field_cons, Json.field_append, Json.field_optStr, Json.field_optField]
  split_ifs <;> simp_all

/-- A signal is read as it was written. -/
theorem unmarshal_marshal (s : Signal) : unmarshal s.marshal = some s := by
  have hcand : ptrField Candidate.ofTree s.members "candidate" = some s.candidate :=
    ptrField_of_field Candidate.ofTree_tree (by simp [field_members]; rfl)
  have hcreds : ptrField Credentials.ofTree s.members "creds" = some s.creds :=
    ptrField_of_field Credentials.ofTree_tree (by simp [field_members]; rfl)
  have hnonce : Json.strField s.members "nonce" = some s.nonce :=
    Json.strField_of_opt (by simp [field_members])
  have hrole : Json.strField s.members "role" = some s.role :=
    Json.strField_of_opt (by simp [field_members])
  have hsid : Json.strField s.members "sessionId" = some s.sessionID :=
    Json.strField_of_field (by simp [field_members])
  have hkind : Json.strField s.members "kind" = some s.kind.name :=
    Json.strField_of_field (by simp [field_members])
  simp only [unmarshal, marshal, Json.readDocument_text, objFields, hcand, hcreds, hnonce, hrole,
    hsid, hkind, SignalKind.ofName_name, Option.bind_eq_bind, Option.bind_some, Option.pure_def]

end Signal

end Ice
end Revquic
