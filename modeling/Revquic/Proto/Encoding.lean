/-
# The text of a registration

`json.Marshal` and `json.Unmarshal` on the message that opens an exit's
connection, `Control` with the fields an exit sets: `type`, and those of
`Register`, empty ones left out. A text with another `type` is no
registration.

Key definitions: `Register.members`, `Register.unmarshal`, `registerJson`.
Key theorem: `Register.unmarshal_object`.
-/
import Mathlib.Data.Nat.Digits.Defs
import Revquic.Lib.Json
import Revquic.Proto.Framing

namespace Revquic
namespace Proto

open Lib

/-! ### Integers -/

/-- The digits of a number. -/
def decimal (n : ℕ) : List UInt8 :=
  if n = 0 then [48] else (Nat.digits 10 n).reverse.map fun d => UInt8.ofNat (48 + d)

def isDigit (b : UInt8) : Bool := 48 ≤ b && b ≤ 57

def readDecimal (b : List UInt8) : ℕ := b.foldl (fun acc x => acc * 10 + (x.toNat - 48)) 0

def integer (z : ℤ) : List UInt8 := if z < 0 then 45 :: decimal z.natAbs else decimal z.natAbs

/-- An `int`. -/
def readInteger : List UInt8 → Option ℤ
  | [] => none
  | b :: rest =>
    if b = 45 then
      if rest.all isDigit then some (-(readDecimal rest)) else none
    else if (b :: rest).all isDigit then some (readDecimal (b :: rest))
    else none

theorem toNat_digit {d : ℕ} (h : d < 10) : (UInt8.ofNat (48 + d)).toNat = 48 + d := by
  rw [UInt8.toNat_ofNat', Nat.mod_eq_of_lt (by omega)]

theorem isDigit_decimal (n : ℕ) : ∀ b ∈ decimal n, isDigit b = true := by
  intro b hb
  unfold decimal at hb
  split_ifs at hb
  · rw [List.mem_singleton.mp hb]
    decide
  · obtain ⟨d, hd, rfl⟩ := List.mem_map.mp hb
    have hlt := Nat.digits_lt_base (by decide) (List.mem_reverse.mp hd)
    rw [isDigit, Bool.and_eq_true, decide_eq_true_eq, decide_eq_true_eq, UInt8.le_iff_toNat_le,
      UInt8.le_iff_toNat_le, toNat_digit hlt]
    exact ⟨Nat.le_add_right 48 d, by change 48 + d ≤ 57; omega⟩

theorem foldr_digits : ∀ {l : List ℕ}, (∀ d ∈ l, d < 10) →
    l.foldr (fun d acc => acc * 10 + ((UInt8.ofNat (48 + d)).toNat - 48)) 0 = Nat.ofDigits 10 l
  | [], _ => rfl
  | d :: l, h => by
    rw [List.forall_mem_cons] at h
    rw [List.foldr_cons, foldr_digits h.2, toNat_digit h.1, Nat.ofDigits_cons]
    omega

theorem readDecimal_decimal (n : ℕ) : readDecimal (decimal n) = n := by
  unfold decimal
  split_ifs with h
  · rw [h]
    rfl
  · rw [readDecimal, List.foldl_map, List.foldl_reverse,
      foldr_digits fun d hd => Nat.digits_lt_base (by decide) hd, Nat.ofDigits_digits]

theorem decimal_ne_nil (n : ℕ) : decimal n ≠ [] := by
  unfold decimal
  split_ifs with h
  · exact List.cons_ne_nil _ _
  · simpa [Nat.digits_eq_nil_iff_eq_zero] using h

theorem readInteger_integer (z : ℤ) : readInteger (integer z) = some z := by
  have hall : (decimal z.natAbs).all isDigit = true := List.all_eq_true.mpr (isDigit_decimal _)
  unfold integer
  split_ifs with h
  · rw [readInteger, if_pos rfl, if_pos hall, readDecimal_decimal]
    congr 1
    omega
  · cases hd : decimal z.natAbs with
    | nil => exact absurd hd (decimal_ne_nil _)
    | cons b rest =>
      have hb : b ≠ 45 := by
        rintro rfl
        have := isDigit_decimal z.natAbs 45 (by rw [hd]; exact List.mem_cons_self)
        cases this
      rw [hd] at hall
      rw [readInteger, if_neg hb, if_pos hall, ← hd, readDecimal_decimal]
      congr 1
      omega

theorem numeric_of_isDigit {b : UInt8} (h : isDigit b = true) : Json.numeric b = true := by
  rw [isDigit] at h
  rw [Json.numeric, h, Bool.true_or]

theorem integer_proper (z : ℤ) : (Json.Value.num (integer z)).Proper := by
  have hall : ∀ b ∈ decimal z.natAbs, Json.numeric b = true := fun b hb =>
    numeric_of_isDigit (isDigit_decimal _ b hb)
  unfold integer
  split_ifs
  · exact ⟨List.cons_ne_nil _ _, List.forall_mem_cons.mpr ⟨rfl, hall⟩⟩
  · exact ⟨decimal_ne_nil _, hall⟩

/-! ### `Register` -/

namespace Register

/-- `capacity,omitempty`. -/
def capacityMember (capacity : ℤ) : List (String × Json.Value) :=
  if capacity = 0 then [] else [("capacity", .num (integer capacity))]

def readCapacity (ms : List (String × Json.Value)) : Option ℤ :=
  match Json.get ms "capacity" with
  | none => some 0
  | some (.num b) => readInteger b
  | some (.str _) => none

/-- The members, in the order of `Control`. -/
def members (m : Register) : List (String × Json.Value) :=
  ("type", .str "register") :: (Json.omitEmpty "token" m.token ++ (Json.omitEmpty "nodeId" m.nodeID ++
    (Json.omitEmpty "region" m.region ++ (capacityMember m.capacity ++
      (Json.omitEmpty "name" m.name ++ Json.omitEmpty "os" m.os)))))

def unmarshal (b : List UInt8) : Option Register := do
  let ms ← Json.readObject b
  if (← Json.getStr ms "type") = "register" then
    let token ← Json.getStr ms "token"
    let nodeID ← Json.getStr ms "nodeId"
    let region ← Json.getStr ms "region"
    let capacity ← readCapacity ms
    let name ← Json.getStr ms "name"
    let os ← Json.getStr ms "os"
    return { token, nodeID, name, region, capacity, os }
  else none

theorem members_proper (m : Register) : ∀ x ∈ m.members, x.2.Proper := by
  have hcap : ∀ x ∈ capacityMember m.capacity, x.2.Proper := by
    intro x hx
    unfold capacityMember at hx
    split_ifs at hx
    · cases hx
    · rw [List.mem_singleton.mp hx]
      exact integer_proper m.capacity
  simp only [members, List.forall_mem_cons, List.forall_mem_append]
  exact ⟨trivial, Json.proper_omitEmpty _ _, Json.proper_omitEmpty _ _, Json.proper_omitEmpty _ _, hcap,
    Json.proper_omitEmpty _ _, Json.proper_omitEmpty _ _⟩

theorem get_capacityMember (capacity : ℤ) (name : String) : Json.get (capacityMember capacity) name =
    if name = "capacity" ∧ capacity ≠ 0 then some (.num (integer capacity)) else none := by
  unfold capacityMember
  by_cases h : capacity = 0
  · simp [h]
  · rw [if_neg h, Json.get_singleton]
    simp [h]

/-- A registration is read as it was written. -/
theorem unmarshal_object (m : Register) : unmarshal (Json.object m.members) = some m := by
  have hread := Json.readObject_object m.members_proper
  have hstr : ∀ name s, (name, s) ∈ [("token", m.token), ("nodeId", m.nodeID), ("region", m.region),
      ("name", m.name), ("os", m.os)] → Json.getStr m.members name = some s := by
    intro name s hmem
    refine Json.getStr_of_get ?_
    simp only [List.mem_cons, Prod.mk.injEq, List.not_mem_nil, or_false] at hmem
    rcases hmem with ⟨rfl, rfl⟩ | ⟨rfl, rfl⟩ | ⟨rfl, rfl⟩ | ⟨rfl, rfl⟩ | ⟨rfl, rfl⟩ <;>
      simp [members, Json.get_cons, Json.get_append, Json.get_omitEmpty, get_capacityMember]
  have htype : Json.getStr m.members "type" = some "register" := by
    simp [Json.getStr, members, Json.get_cons, Json.get_append, Json.get_omitEmpty, get_capacityMember]
  have hget : Json.get m.members "capacity" = Json.get (capacityMember m.capacity) "capacity" := by
    simp [members, Json.get_cons, Json.get_append, Json.get_omitEmpty]
  have hcap : readCapacity m.members = some m.capacity := by
    rw [readCapacity, hget, get_capacityMember]
    by_cases h : m.capacity = 0
    · simp [h]
    · simp [h, readInteger_integer]
  simp [unmarshal, hread, htype, hcap, hstr "token" m.token, hstr "nodeId" m.nodeID,
    hstr "region" m.region, hstr "name" m.name, hstr "os" m.os]

end Register

/-- `encoding/json` on registrations. -/
def registerJson : Json Register where
  marshal m := some (Json.object m.members)
  unmarshal := Register.unmarshal
  unmarshal_marshal := by
    rintro m _ ⟨⟩
    exact m.unmarshal_object

/-- What `WriteControl` puts on the stream for a registration. -/
def Register.written (m : Register) : List UInt8 := (registerJson.writeControl m none none).1

/-- The registrations of two exits. -/
def usNode : Register := { token := "tök", nodeID := "e1", region := "us", capacity := 20 }
def euNode : Register := { nodeID := "e2", region := "eu", capacity := -1, os := "linux" }

/-- Two registrations that arrive byte by byte, with the start of a third. -/
theorem control_framing_by_byte :
    (registerJson.reads 2
        ⟨(usNode.written ++ euNode.written ++ [0, 0]).map ([·]), .eof⟩).1 =
      [.ok usNode, .ok euNode] := by
  have hsent : ∀ x ∈ [(usNode, usNode.written), (euNode, euNode.written)],
      ∃ hdrFails bodyFails, registerJson.writeControl x.1 hdrFails bodyFails = (x.2, none) := by
    intro x hx
    simp only [List.mem_cons, List.not_mem_nil, or_false] at hx
    rcases hx with rfl | rfl
    · exact ⟨none, none, by decide +kernel⟩
    · exact ⟨none, none, by decide +kernel⟩
  obtain ⟨-, hreads, -⟩ := registerJson.control_framing hsent
  refine (hreads _ [0, 0] ?_ 2 (Nat.le_refl 2)).1
  rw [Stream.bytes, ← List.flatMap_def, List.flatMap_singleton']
  simp

end Proto
end Revquic
