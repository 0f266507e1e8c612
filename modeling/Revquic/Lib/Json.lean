/-
# JSON texts of flat objects

An object here has members whose values are strings and numbers. `object`
writes one without blanks. Reading has two passes: `checkValid` scans the
text for its form, byte by byte, and `readObject` then takes it apart.

What is written is read back. The scanner alone settles what becomes of a
text that is cut or written behind another: a valid text has no valid proper
prefix, and nothing that starts like an object is valid behind something
else.

Key definitions: `object`, `scan`, `checkValid`, `readObject`.
Key theorems: `readObject_object`, `checkValid_cut`, `checkValid_glued`.
-/
import Revquic.Lib.Literal

namespace Revquic
namespace Lib
namespace Json

/-- The bytes of a number. -/
def numeric (b : UInt8) : Bool := (48 ≤ b && b ≤ 57) || [43, 45, 46, 69, 101].contains b

/-- A value; a number is its text. -/
inductive Value
  | str (s : String)
  | num (text : List UInt8)
  deriving DecidableEq

/-- The text of a number is one. -/
def Value.Proper : Value → Prop
  | .str _ => True
  | .num text => text ≠ [] ∧ ∀ b ∈ text, numeric b = true

def Value.text : Value → List UInt8
  | .str s => quote s
  | .num text => text

/-- A member: its name and its value. -/
def member (m : String × Value) : List UInt8 := quote m.1 ++ 58 :: m.2.text

/-- The members after the first, and the end. -/
def further : List (String × Value) → List UInt8
  | [] => [125]
  | m :: ms => 44 :: (member m ++ further ms)

/-- An object. -/
def object : List (String × Value) → List UInt8
  | [] => [123, 125]
  | m :: ms => 123 :: (member m ++ further ms)

/-- Where the scanner stands: in a name or in a value (`inName`), in an escape,
before the last `n + 1` digits of one, and between the parts of an object. -/
inductive Scan
  | start
  | opened
  | str (inName : Bool)
  | esc (inName : Bool)
  | hex (inName : Bool) (n : ℕ)
  | named
  | value
  | number
  | valued
  | comma
  | done
  deriving DecidableEq

/-- What may follow a value. -/
def endValue (b : UInt8) : Option Scan :=
  if b = 44 then some .comma else if b = 125 then some .done else none

/-- The scanner on one byte; `none` is an error. -/
def scan : Scan → UInt8 → Option Scan
  | .start, b => if b = 123 then some .opened else none
  | .opened, b => if b = 34 then some (.str true) else if b = 125 then some .done else none
  | .str inName, b =>
    if b = 34 then some (if inName then .named else .valued)
    else if b = 92 then some (.esc inName)
    else if 32 ≤ b then some (.str inName)
    else none
  | .esc inName, b =>
    if b = 117 then some (.hex inName 3)
    else if (unescape b).isSome then some (.str inName)
    else none
  | .hex inName n, b =>
    if (hexValue b).isSome then some (match n with | 0 => .str inName | n + 1 => .hex inName n)
    else none
  | .named, b => if b = 58 then some .value else none
  | .value, b => if b = 34 then some (.str false) else if numeric b then some .number else none
  | .number, b => if numeric b then some .number else endValue b
  | .valued, b => endValue b
  | .comma, b => if b = 34 then some (.str true) else none
  | .done, _ => none

/-- The scanner on a text. -/
def scans (s : Scan) (bytes : List UInt8) : Option Scan := bytes.foldlM scan s

/-- The text has the form of an object. -/
def checkValid (bytes : List UInt8) : Bool := scans .start bytes = some .done

/-- A value, and what follows. -/
def readValue : List UInt8 → Option (Value × List UInt8)
  | [] => none
  | b :: bytes =>
    if b = 34 then (readBody bytes.length bytes).map fun r => (.str (String.ofList r.1), r.2)
    else some (.num ((b :: bytes).takeWhile numeric), (b :: bytes).dropWhile numeric)

/-- A member, and what follows. -/
def readMember : List UInt8 → Option ((String × Value) × List UInt8)
  | [] => none
  | _ :: bytes =>
    match readBody bytes.length bytes with
    | some (name, _ :: rest) => (readValue rest).map fun r => ((String.ofList name, r.1), r.2)
    | _ => none

/-- The members of an object. -/
def readMembers : ℕ → List UInt8 → Option (List (String × Value))
  | 0, _ => none
  | n + 1, bytes =>
    match readMember bytes with
    | none => none
    | some (_, []) => none
    | some (m, b :: rest) => if b = 44 then (readMembers n rest).map (m :: ·) else some [m]

/-- An object: its members, in order. -/
def readObject (bytes : List UInt8) : Option (List (String × Value)) :=
  if checkValid bytes then
    match bytes with
    | [] => none
    | _ :: rest => if rest = [125] then some [] else readMembers rest.length rest
  else none

/-! ### What is written is valid -/

theorem scans_append (s : Scan) (xs ys : List UInt8) :
    scans s (xs ++ ys) = (scans s xs).bind fun s' => scans s' ys := List.foldlM_append ..

theorem scans_cons (s : Scan) (b : UInt8) (bytes : List UInt8) :
    scans s (b :: bytes) = (scan s b).bind fun s' => scans s' bytes := List.foldlM_cons ..

theorem scans_nil (s : Scan) : scans s [] = some s := rfl

theorem scans_plain (k : Bool) : ∀ {bytes : List UInt8}, (∀ x ∈ bytes, x ≠ 34 ∧ x ≠ 92 ∧ 32 ≤ x) →
    scans (.str k) bytes = some (.str k)
  | [], _ => rfl
  | b :: bytes, h => by
    obtain ⟨h1, h2, h3⟩ := h b List.mem_cons_self
    rw [scans_cons, scan, if_neg h1, if_neg h2, if_pos h3, Option.bind_some,
      scans_plain k fun x hx => h x (List.mem_cons_of_mem _ hx)]

theorem scans_escape (k : Bool) (c : Char) : scans (.str k) (escape c) = some (.str k) := by
  unfold escape
  split
  · rename_i b hb
    obtain ⟨hne, hun⟩ := unescape_of_lookup hb
    simp [scans, scan, hne, hun]
  · rename_i hnone
    split_ifs with hm
    · have hhex : ∀ m, (hexValue (hexDigit (m % 16))).isSome = true := fun m => by
        rw [hexValue_hexDigit _ (Nat.mod_lt _ (by decide))]
        rfl
      simp [scans, scan, hexDigits, hhex]
    · exact scans_plain k (utf8_plain hnone (Bool.not_eq_true _ ▸ hm))

theorem scans_body (k : Bool) (s : String) : scans (.str k) (body s) = some (.str k) := by
  unfold body
  induction s.toList with
  | nil => rfl
  | cons c cs ih => rw [List.flatMap_cons, scans_append, scans_escape, Option.bind_some, ih]

/-- A literal, after its first quote. -/
theorem scans_literal (k : Bool) (s : String) (rest : List UInt8) :
    scans (.str k) (body s ++ 34 :: rest) = scans (if k then .named else .valued) rest := by
  rw [scans_append, scans_body, Option.bind_some, scans_cons]
  rfl

theorem scans_number : ∀ {text : List UInt8}, (∀ b ∈ text, numeric b = true) →
    scans .number text = some .number
  | [], _ => rfl
  | b :: text, h => by
    rw [scans_cons, scan, if_pos (h b List.mem_cons_self), Option.bind_some,
      scans_number fun x hx => h x (List.mem_cons_of_mem _ hx)]

theorem numeric_ne_quote {b : UInt8} (h : numeric b = true) : b ≠ 34 := by
  rintro rfl
  cases h

theorem not_numeric_of_end {b : UInt8} (h : b = 44 ∨ b = 125) : numeric b = false := by
  rcases h with rfl | rfl <;> rfl

theorem scans_value {v : Value} (h : v.Proper) {b : UInt8} (hb : b = 44 ∨ b = 125) (rest : List UInt8) :
    scans .value (v.text ++ b :: rest) = (endValue b).bind fun s => scans s rest := by
  cases v with
  | str s =>
    rw [Value.text, quote, List.cons_append, scans_cons, List.append_assoc]
    show scans (.str false) _ = _
    rw [List.singleton_append, scans_literal, scans_cons]
    rfl
  | num text =>
    obtain ⟨hne, hall⟩ := h
    cases text with
    | nil => exact absurd rfl hne
    | cons x text =>
      have hx := hall x List.mem_cons_self
      rw [Value.text, List.cons_append, scans_cons, scan, if_neg (numeric_ne_quote hx), if_pos hx,
        Option.bind_some, scans_append, scans_number fun y hy => hall y (List.mem_cons_of_mem _ hy),
        Option.bind_some, scans_cons, scan, not_numeric_of_end hb]
      rfl

theorem scans_member {m : String × Value} (h : m.2.Proper) {b : UInt8} (hb : b = 44 ∨ b = 125)
    (rest : List UInt8) :
    scans (.str true) ((member m).tail ++ b :: rest) = (endValue b).bind fun s => scans s rest := by
  have htail : (member m).tail ++ b :: rest = body m.1 ++ 34 :: 58 :: (m.2.text ++ b :: rest) := by
    simp [member, quote]
  rw [htail, scans_literal, scans_cons]
  show scans .value _ = _
  exact scans_value h hb rest

/-- The first byte of a member is a quote. -/
theorem member_eq (m : String × Value) : member m = 34 :: (member m).tail := rfl

theorem scans_further : ∀ {ms : List (String × Value)} (m : String × Value), m.2.Proper →
    (∀ m ∈ ms, m.2.Proper) → scans (.str true) ((member m).tail ++ further ms) = some .done
  | [], m, hm, _ => by
    rw [further, scans_member hm (Or.inr rfl)]
    rfl
  | m' :: ms, m, hm, h => by
    rw [further, scans_member hm (Or.inl rfl), member_eq m', List.cons_append]
    exact scans_further m' (h m' List.mem_cons_self) fun x hx => h x (List.mem_cons_of_mem _ hx)

theorem checkValid_object {ms : List (String × Value)} (h : ∀ m ∈ ms, m.2.Proper) :
    checkValid (object ms) = true := by
  rw [checkValid, decide_eq_true_eq]
  cases ms with
  | nil => rfl
  | cons m ms =>
    rw [object, member_eq m, List.cons_append]
    exact scans_further m (h m List.mem_cons_self) fun x hx => h x (List.mem_cons_of_mem _ hx)

/-! ### What is written is read back -/

theorem readValue_text {v : Value} (h : v.Proper) {b : UInt8} (hb : b = 44 ∨ b = 125) (rest : List UInt8) :
    readValue (v.text ++ b :: rest) = some (v, b :: rest) := by
  cases v with
  | str s =>
    rw [Value.text, quote, List.cons_append, List.append_assoc, List.singleton_append, readValue,
      if_pos rfl, readBody_body, Option.map_some, String.ofList_toList]
  | num text =>
    obtain ⟨hne, hall⟩ := h
    have hnb := not_numeric_of_end hb
    cases text with
    | nil => exact absurd rfl hne
    | cons x text =>
      have htake : (x :: text ++ b :: rest).takeWhile numeric = x :: text := by
        rw [List.takeWhile_append_of_pos hall, List.takeWhile_cons_of_neg (by simp [hnb]),
          List.append_nil]
      have hdrop : (x :: text ++ b :: rest).dropWhile numeric = b :: rest := by
        rw [List.dropWhile_append_of_pos hall, List.dropWhile_cons_of_neg (by simp [hnb])]
      rw [List.cons_append] at htake hdrop
      rw [Value.text, List.cons_append, readValue, if_neg (numeric_ne_quote (hall x List.mem_cons_self)),
        htake, hdrop]

theorem readMember_member {m : String × Value} (h : m.2.Proper) {b : UInt8} (hb : b = 44 ∨ b = 125)
    (rest : List UInt8) : readMember (member m ++ b :: rest) = some (m, b :: rest) := by
  have hm : member m ++ b :: rest = 34 :: (body m.1 ++ 34 :: (58 :: (m.2.text ++ b :: rest))) := by
    simp [member, quote]
  rw [hm, readMember, readBody_body]
  simp only [readValue_text h hb, Option.map_some, String.ofList_toList]

theorem readMembers_further : ∀ {ms : List (String × Value)} (m : String × Value) {n : ℕ},
    ms.length < n → m.2.Proper → (∀ m ∈ ms, m.2.Proper) →
    readMembers n (member m ++ further ms) = some (m :: ms)
  | [], m, n + 1, _, hm, _ => by
    rw [further, readMembers, readMember_member hm (Or.inr rfl)]
    rfl
  | m' :: ms, m, n + 1, hn, hm, h => by
    rw [further, readMembers, readMember_member hm (Or.inl rfl)]
    simp only [if_true]
    rw [readMembers_further m' (Nat.lt_of_succ_lt_succ hn) (h m' List.mem_cons_self)
      fun x hx => h x (List.mem_cons_of_mem _ hx)]
    rfl

theorem length_further (ms : List (String × Value)) : ms.length < (further ms).length := by
  induction ms with
  | nil => decide
  | cons m ms ih =>
    rw [further, List.length_cons, List.length_cons, List.length_append]
    omega

/-- **Round trip.** An object is read as it was written. -/
theorem readObject_object {ms : List (String × Value)} (h : ∀ m ∈ ms, m.2.Proper) :
    readObject (object ms) = some ms := by
  unfold readObject
  rw [if_pos (checkValid_object h)]
  cases ms with
  | nil => rfl
  | cons m ms =>
    have hlen := length_further ms
    have hne : member m ++ further ms ≠ [125] := by
      intro heq
      rw [member_eq, List.cons_append] at heq
      exact absurd (List.cons.inj heq).1 (by decide)
    simp only [object, if_neg hne]
    refine readMembers_further m ?_ (h m List.mem_cons_self) fun x hx => h x (List.mem_cons_of_mem _ hx)
    rw [List.length_append]
    omega

/-! ### Parts of texts -/

theorem numeric_printable {b : UInt8} (h : numeric b = true) : 32 ≤ b := by
  simp only [numeric, Bool.or_eq_true, Bool.and_eq_true, decide_eq_true_eq, List.contains_iff_mem,
    List.mem_cons, List.not_mem_nil, or_false] at h
  rcases h with ⟨h, -⟩ | rfl | rfl | rfl | rfl | rfl
  · exact UInt8.le_trans (by decide) h
  all_goals decide

theorem hexValue_printable {b : UInt8} (h : (hexValue b).isSome = true) : 32 ≤ b := by
  unfold hexValue at h
  split_ifs at h with h1 h2 h3
  · exact UInt8.le_trans (by decide) h1.1
  · exact UInt8.le_trans (by decide) h2.1
  · exact UInt8.le_trans (by decide) h3.1
  · cases h

theorem unescape_printable {b : UInt8} (h : (unescape b).isSome = true) : 32 ≤ b := by
  obtain ⟨c, hc⟩ := Option.isSome_iff_exists.mp h
  obtain ⟨p, hp, hpc⟩ := List.exists_of_findSome?_eq_some hc
  split_ifs at hpc with hb
  · rw [← hb]
    have hall : ∀ p ∈ (47, 47) :: letters, (32 : UInt8) ≤ p.2 := by decide
    exact hall p hp

theorem endValue_printable {b : UInt8} {s : Scan} (h : endValue b = some s) : 32 ≤ b := by
  unfold endValue at h
  split_ifs at h with h1 h2
  · rw [h1]
    decide
  · rw [h2]
    decide

/-- No text has a control character. -/
theorem scan_printable {s s' : Scan} {b : UInt8} (h : scan s b = some s') : 32 ≤ b := by
  cases s with
  | valued => exact endValue_printable h
  | done => cases h
  | number =>
    rw [scan] at h
    split_ifs at h with h1
    · exact numeric_printable h1
    · exact endValue_printable h
  | hex k n =>
    simp only [scan] at h
    split_ifs at h with h1
    exact hexValue_printable h1
  | _ =>
    rw [scan] at h
    split_ifs at h
    all_goals first
      | assumption
      | exact numeric_printable (by assumption)
      | exact unescape_printable (by assumption)
      | (subst b; decide)

theorem scans_printable : ∀ {s s' : Scan} {bytes : List UInt8}, scans s bytes = some s' →
    ∀ b ∈ bytes, 32 ≤ b
  | _, _, [], _ => by simp
  | s, s', b :: bytes, h => by
    rw [scans_cons] at h
    obtain ⟨s₁, h1, h2⟩ := Option.bind_eq_some_iff.mp h
    rw [List.forall_mem_cons]
    exact ⟨scan_printable h1, scans_printable h2⟩

theorem printable_of_checkValid {bytes : List UInt8} (h : checkValid bytes = true) :
    ∀ b ∈ bytes, 32 ≤ b := by
  rw [checkValid, decide_eq_true_eq] at h
  exact scans_printable h

/-- **Cut texts.** A valid text has no valid proper prefix. -/
theorem checkValid_cut {p b : List UInt8} (h : checkValid b = true) (hp : p <+: b) (hne : p ≠ b) :
    checkValid p = false := by
  obtain ⟨rest, rfl⟩ := hp
  rw [checkValid, decide_eq_true_eq, scans_append] at h
  rw [checkValid, decide_eq_false_iff_not]
  intro hd
  rw [hd, Option.bind_some] at h
  cases rest with
  | nil => exact hne (List.append_nil p).symm
  | cons x rest =>
    rw [scans_cons] at h
    cases h

theorem scan_ne_start {s s' : Scan} {b : UInt8} (h : scan s b = some s') : s' ≠ .start := by
  rintro rfl
  cases s with
  | done => cases h
  | hex k n => cases n <;> simp [scan] at h
  | _ =>
    simp only [scan, endValue] at h
    split_ifs at h <;> cases h

theorem scans_ne_start : ∀ {s s' : Scan} {bytes : List UInt8}, scans s bytes = some s' → bytes ≠ [] →
    s' ≠ .start
  | _, _, [], _, hne => absurd rfl hne
  | s, s', b :: bytes, h, _ => by
    rw [scans_cons] at h
    obtain ⟨s₁, h1, h2⟩ := Option.bind_eq_some_iff.mp h
    by_cases hb : bytes = []
    · rw [hb, scans_nil] at h2
      obtain rfl := Option.some.inj h2
      exact scan_ne_start h1
    · exact scans_ne_start h2 hb

/-- A brace, a quote and then a letter are an error anywhere but at the
start: only a literal can go on with a brace, and the quote then ends it. -/
theorem scans_brace {s : Scan} (hs : s ≠ .start) {x : UInt8} (hx : x ∉ [44, 58, 125]) (rest : List UInt8) :
    scans s (123 :: 34 :: x :: rest) = none := by
  simp only [List.mem_cons, List.not_mem_nil, or_false, not_or] at hx
  obtain ⟨h44, h58, h125⟩ := hx
  rw [scans_cons]
  cases s with
  | start => exact absurd rfl hs
  | str k =>
    show scans (.str k) (34 :: x :: rest) = none
    rw [scans_cons]
    cases k with
    | true =>
      show scans .named (x :: rest) = none
      rw [scans_cons, scan, if_neg h58]
      rfl
    | false =>
      show scans .valued (x :: rest) = none
      rw [scans_cons, scan, endValue, if_neg h44, if_neg h125]
      rfl
  | _ => rfl

/-- **Texts behind parts of texts.** What begins like an object with a member
is not valid behind anything. -/
theorem checkValid_glued {p : List UInt8} (hp : p ≠ []) {x : UInt8} (hx : x ∉ [44, 58, 125])
    (rest : List UInt8) : checkValid (p ++ 123 :: 34 :: x :: rest) = false := by
  rw [checkValid, decide_eq_false_iff_not, scans_append]
  intro h
  obtain ⟨s, hs, hrest⟩ := Option.bind_eq_some_iff.mp h
  rw [scans_brace (scans_ne_start hs hp) hx] at hrest
  cases hrest

/-! ### Sizes -/

theorem length_quote (s : String) : (quote s).length = (body s).length + 2 := by
  simp [quote]

theorem length_member (m : String × Value) :
    (member m).length = (body m.1).length + 3 + m.2.text.length := by
  simp [member, quote]
  omega

theorem length_further_eq (ms : List (String × Value)) :
    (further ms).length = (ms.map fun m => (member m).length + 1).sum + 1 := by
  induction ms with
  | nil => rfl
  | cons m ms ih =>
    rw [further, List.length_cons, List.length_append, ih, List.map_cons, List.sum_cons]
    omega

theorem length_object (m : String × Value) (ms : List (String × Value)) :
    (object (m :: ms)).length = ((m :: ms).map fun m => (member m).length + 1).sum + 1 := by
  rw [object, List.length_cons, List.length_append, length_further_eq, List.map_cons, List.sum_cons]
  omega

/-! ### Members by name -/

/-- The value under a name, the last one given. -/
def get (ms : List (String × Value)) (name : String) : Option Value := ms.reverse.lookup name

/-- The string under a name, empty if there is none. -/
def getStr (ms : List (String × Value)) (name : String) : Option String :=
  match get ms name with
  | none => some ""
  | some (.str s) => some s
  | some (.num _) => none

/-- A member that is left out if it is empty. -/
def omitEmpty (name s : String) : List (String × Value) := if s = "" then [] else [(name, .str s)]

@[simp] theorem get_nil (name : String) : get [] name = none := rfl

theorem get_append (xs ys : List (String × Value)) (name : String) :
    get (xs ++ ys) name = (get ys name).or (get xs name) := by
  rw [get, List.reverse_append, List.lookup_append]
  rfl

theorem get_singleton (k : String) (v : Value) (name : String) :
    get [(k, v)] name = if name = k then some v else none := by
  show List.lookup name [(k, v)] = _
  rw [List.lookup_cons, List.lookup_nil]
  by_cases h : name = k
  · rw [beq_iff_eq.mpr h, if_pos h]
  · rw [beq_eq_false_iff_ne.mpr h, if_neg h]

theorem get_cons (k : String) (v : Value) (ms : List (String × Value)) (name : String) :
    get ((k, v) :: ms) name = (get ms name).or (if name = k then some v else none) := by
  rw [← List.singleton_append, get_append, get_singleton]

theorem get_omitEmpty (k s name : String) :
    get (omitEmpty k s) name = if name = k ∧ s ≠ "" then some (.str s) else none := by
  unfold omitEmpty
  by_cases hs : s = ""
  · simp [hs]
  · rw [if_neg hs, get_singleton]
    simp [hs]

/-- A member that may be left out is read as it was. -/
theorem getStr_of_get {ms : List (String × Value)} {name s : String}
    (h : get ms name = if s = "" then none else some (.str s)) : getStr ms name = some s := by
  unfold getStr
  rw [h]
  by_cases hs : s = ""
  · rw [if_pos hs, hs]
  · rw [if_neg hs]

theorem proper_omitEmpty (k s : String) : ∀ m ∈ omitEmpty k s, m.2.Proper := by
  intro m hm
  unfold omitEmpty at hm
  split_ifs at hm
  · cases hm
  · rw [List.mem_singleton.mp hm]
    exact trivial

/-- The bytes a member takes in an object that may leave it out. -/
theorem length_omitEmpty (k s : String) : ((omitEmpty k s).map fun m => (member m).length + 1).sum =
    if s = "" then 0 else (body k).length + (body s).length + 6 := by
  unfold omitEmpty
  split_ifs
  · rfl
  · simp [length_member, Value.text, length_quote]
    omega

end Json
end Lib
end Revquic
