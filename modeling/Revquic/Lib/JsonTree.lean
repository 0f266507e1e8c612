/-
# JSON documents

The values of JSON: literals, numbers, strings, arrays and objects in any
nesting. `Tree.text` writes one without blanks, as UTF-8 in one line;
`readDocument` reads a text with blanks anywhere between its parts. A number
is its text, which the scanner of the format accepts.

Key definitions: `Tree`, `Tree.text`, `readDocument`.
Key theorem: `readDocument_text`.
-/
import Revquic.Lib.Json

namespace Revquic
namespace Lib
namespace Json

/-! ### Numbers -/

/-- Where the scanner stands in a number. -/
inductive NumScan
  | start
  | neg
  | zero
  | int
  | dot
  | frac
  | exp
  | sign
  | power
  deriving DecidableEq

def digit (b : UInt8) : Bool := 48 ≤ b && b ≤ 57

/-- What may follow the integer part. -/
def endInt (b : UInt8) : Option NumScan :=
  if b = 46 then some .dot else if b = 69 ∨ b = 101 then some .exp else none

/-- The scanner on one byte of a number. -/
def numScan : NumScan → UInt8 → Option NumScan
  | .start, b =>
    if b = 45 then some .neg else if b = 48 then some .zero else if digit b then some .int else none
  | .neg, b => if b = 48 then some .zero else if digit b then some .int else none
  | .zero, b => endInt b
  | .int, b => if digit b then some .int else endInt b
  | .dot, b => if digit b then some .frac else none
  | .frac, b => if digit b then some .frac else if b = 69 ∨ b = 101 then some .exp else none
  | .exp, b => if b = 43 ∨ b = 45 then some .sign else if digit b then some .power else none
  | .sign, b => if digit b then some .power else none
  | .power, b => if digit b then some .power else none

/-- A number may end here. -/
def NumScan.ends : NumScan → Bool
  | .zero | .int | .frac | .power => true
  | _ => false

def isNumber (text : List UInt8) : Bool := (text.foldlM numScan .start).any NumScan.ends

/-- The text of a number. -/
abbrev Number := { text : List UInt8 // isNumber text = true }

theorem numeric_of_digit {b : UInt8} (h : digit b = true) : numeric b = true := by
  rw [digit] at h
  rw [numeric, h, Bool.true_or]

theorem numeric_of_endInt {b : UInt8} {s : NumScan} (h : endInt b = some s) : numeric b = true := by
  unfold endInt at h
  split_ifs at h with h1 h2
  · rw [h1]; rfl
  · rcases h2 with rfl | rfl <;> rfl

theorem numeric_of_numScan {s s' : NumScan} {b : UInt8} (h : numScan s b = some s') :
    numeric b = true := by
  cases s <;> simp only [numScan] at h <;>
    first
    | exact numeric_of_endInt h
    | split_ifs at h <;>
        first
        | exact numeric_of_digit ‹_›
        | exact numeric_of_endInt h
        | (rename_i h'; rcases h' with rfl | rfl <;> rfl)

theorem numeric_of_scanned : ∀ {text : List UInt8} {s s' : NumScan},
    text.foldlM numScan s = some s' → ∀ b ∈ text, numeric b = true
  | [], _, _, _ => nofun
  | b :: text, s, s', h => by
    rw [List.foldlM_cons] at h
    obtain ⟨s₁, hs, htext⟩ := Option.bind_eq_some_iff.mp h
    exact List.forall_mem_cons.mpr ⟨numeric_of_numScan hs, numeric_of_scanned htext⟩

theorem Number.numeric (n : Number) : ∀ b ∈ n.1, numeric b = true := by
  obtain ⟨s, hs, -⟩ := Option.any_eq_true _ _ |>.mp n.2
  exact numeric_of_scanned hs

theorem Number.ne_nil (n : Number) : n.1 ≠ [] := by
  intro h
  have := n.2
  rw [h] at this
  cases this

/-- A number without a sign is digits that do not start with a zero. -/
theorem scanned_digits {text : List UInt8} (h : ∀ b ∈ text, digit b = true) :
    text.foldlM numScan .int = some .int := by
  induction text with
  | nil => rfl
  | cons b text ih =>
    rw [List.forall_mem_cons] at h
    rw [List.foldlM_cons, numScan, if_pos h.1]
    exact ih h.2

/-! ### Documents -/

inductive Tree
  | null
  | bool (b : Bool)
  | num (n : Number)
  | str (s : String)
  | arr (ts : List Tree)
  | obj (ms : List (String × Tree))

mutual

/-- A value, without blanks. -/
def Tree.text : Tree → List UInt8
  | .null => [110, 117, 108, 108]
  | .bool true => [116, 114, 117, 101]
  | .bool false => [102, 97, 108, 115, 101]
  | .num n => n.1
  | .str s => quote s
  | .arr ts => 91 :: elements ts
  | .obj ms => 123 :: fields ms

/-- The elements of an array, and its end. -/
def elements : List Tree → List UInt8
  | [] => [93]
  | t :: ts => t.text ++ moreElements ts

/-- The elements after the first, and the end. -/
def moreElements : List Tree → List UInt8
  | [] => [93]
  | t :: ts => 44 :: (t.text ++ moreElements ts)

/-- The members of an object, and its end. -/
def fields : List (String × Tree) → List UInt8
  | [] => [125]
  | (k, t) :: ms => quote k ++ 58 :: (t.text ++ moreFields ms)

/-- The members after the first, and the end. -/
def moreFields : List (String × Tree) → List UInt8
  | [] => [125]
  | (k, t) :: ms => 44 :: (quote k ++ 58 :: (t.text ++ moreFields ms))

end

/-! ### Reading -/

def blank (b : UInt8) : Bool := b = 32 || b = 9 || b = 10 || b = 13

def skip (bytes : List UInt8) : List UInt8 := bytes.dropWhile blank

/-- The string behind its first quote, and what follows; no byte of it is a
control character. -/
def readString (bytes : List UInt8) : Option (String × List UInt8) :=
  match readBody bytes.length bytes with
  | none => none
  | some (cs, rest) =>
    if (bytes.take (bytes.length - rest.length)).all (32 ≤ ·) then some (String.ofList cs, rest)
    else none

/-- A number, and what follows. -/
def readNumber (bytes : List UInt8) : Option (Tree × List UInt8) :=
  if h : isNumber (bytes.takeWhile numeric) then
    some (.num ⟨bytes.takeWhile numeric, h⟩, bytes.dropWhile numeric)
  else none

/-- A literal behind its first byte. -/
def readLiteral (tail : List UInt8) (t : Tree) (bytes : List UInt8) : Option (Tree × List UInt8) :=
  if tail <+: bytes then some (t, bytes.drop tail.length) else none

mutual

/-- A value, and what follows. -/
def readTree : ℕ → List UInt8 → Option (Tree × List UInt8)
  | 0, _ => none
  | n + 1, bytes =>
    match skip bytes with
    | [] => none
    | b :: rest =>
      if b = 34 then (readString rest).map fun r => (.str r.1, r.2)
      else if b = 123 then
        match skip rest with
        | 125 :: rest => some (.obj [], rest)
        | rest => (readFields n rest).map fun r => (.obj r.1, r.2)
      else if b = 91 then
        match skip rest with
        | 93 :: rest => some (.arr [], rest)
        | rest => (readElements n rest).map fun r => (.arr r.1, r.2)
      else if b = 110 then readLiteral [117, 108, 108] .null rest
      else if b = 116 then readLiteral [114, 117, 101] (.bool true) rest
      else if b = 102 then readLiteral [97, 108, 115, 101] (.bool false) rest
      else readNumber (b :: rest)

/-- The elements of an array that has some. -/
def readElements : ℕ → List UInt8 → Option (List Tree × List UInt8)
  | 0, _ => none
  | n + 1, bytes =>
    match readTree n bytes with
    | none => none
    | some (t, rest) =>
      match skip rest with
      | 44 :: rest => (readElements n rest).map fun r => (t :: r.1, r.2)
      | 93 :: rest => some ([t], rest)
      | _ => none

/-- The members of an object that has some. -/
def readFields : ℕ → List UInt8 → Option (List (String × Tree) × List UInt8)
  | 0, _ => none
  | n + 1, bytes =>
    match skip bytes with
    | 34 :: rest =>
      match readString rest with
      | none => none
      | some (k, rest) =>
        match skip rest with
        | 58 :: rest =>
          match readTree n rest with
          | none => none
          | some (t, rest) =>
            match skip rest with
            | 44 :: rest => (readFields n rest).map fun r => ((k, t) :: r.1, r.2)
            | 125 :: rest => some ([(k, t)], rest)
            | _ => none
        | _ => none
    | _ => none

end

/-- A text that is one value, with blanks around it. -/
def readDocument (bytes : List UInt8) : Option Tree :=
  match readTree (bytes.length + 1) bytes with
  | none => none
  | some (t, rest) => if skip rest = [] then some t else none

/-! ### What is written is read back -/

/-- A number ends before this. -/
def Ends (rest : List UInt8) : Prop := ∀ b ∈ rest.head?, numeric b = false

theorem ends_cons {b : UInt8} (h : numeric b = false) (rest : List UInt8) : Ends (b :: rest) := by
  rintro x ⟨⟩
  exact h

theorem ends_nil : Ends [] := nofun

theorem skip_cons {b : UInt8} (h : blank b = false) (rest : List UInt8) :
    skip (b :: rest) = b :: rest := List.dropWhile_cons_of_neg (by rw [h]; decide)

theorem blank_of_numeric {b : UInt8} (h : numeric b = true) : blank b = false := by
  by_contra hb
  simp only [blank, Bool.or_eq_true, decide_eq_true_eq, Bool.not_eq_false] at hb
  rcases hb with ((rfl | rfl) | rfl) | rfl <;> cases h

/-- The first byte of a number. -/
theorem Number.cons (n : Number) : ∃ b bytes, n.1 = b :: bytes ∧ Json.numeric b = true := by
  cases hn : n.1 with
  | nil => exact absurd hn n.ne_nil
  | cons b bytes => exact ⟨b, bytes, rfl, n.numeric b (by rw [hn]; exact List.mem_cons_self)⟩

/-- A value starts with a byte that is no blank and does not end an array. -/
theorem Tree.text_cons (t : Tree) :
    ∃ b bytes, t.text = b :: bytes ∧ blank b = false ∧ b ≠ 93 := by
  cases t with
  | num n =>
    obtain ⟨b, bytes, hn, hb⟩ := n.cons
    refine ⟨b, bytes, by rw [Tree.text, hn], blank_of_numeric hb, ?_⟩
    rintro rfl
    cases hb
  | null => exact ⟨_, _, rfl, rfl, by decide⟩
  | bool b => cases b <;> exact ⟨_, _, rfl, rfl, by decide⟩
  | str s => exact ⟨_, _, rfl, rfl, by decide⟩
  | arr ts => exact ⟨91, elements ts, by rw [Tree.text], rfl, by decide⟩
  | obj ms => exact ⟨123, fields ms, by rw [Tree.text], rfl, by decide⟩

theorem skip_text (t : Tree) (rest : List UInt8) : skip (t.text ++ rest) = t.text ++ rest := by
  obtain ⟨b, bytes, ht, hb, -⟩ := t.text_cons
  rw [ht]
  exact skip_cons hb _

theorem readString_body (s : String) (rest : List UInt8) :
    readString (body s ++ 34 :: rest) = some (s, rest) := by
  have htake : (body s ++ 34 :: rest).take ((body s ++ 34 :: rest).length - rest.length) =
      body s ++ [34] := by
    have hlen : (body s ++ 34 :: rest).length - rest.length = (body s ++ [34]).length := by
      simp only [List.length_append, List.length_cons, List.length_nil]
      omega
    rw [hlen, List.append_cons (body s) 34 rest, List.take_left]
  have hall : (body s ++ [34]).all (32 ≤ ·) = true := by
    rw [List.all_append, Bool.and_eq_true, List.all_eq_true]
    exact ⟨fun b hb => decide_eq_true (scans_printable (scans_body true s) b hb), rfl⟩
  rw [readString, readBody_body]
  show (if _ then some (String.ofList s.toList, rest) else none) = _
  rw [htake, if_pos hall, String.ofList_toList]

theorem readNumber_text (n : Number) {rest : List UInt8} (h : Ends rest) :
    readNumber (n.1 ++ rest) = some (.num n, rest) := by
  have htail : rest.takeWhile numeric = [] ∧ rest.dropWhile numeric = rest := by
    cases rest with
    | nil => exact ⟨rfl, rfl⟩
    | cons b rest =>
      have hb : ¬ numeric b = true := by rw [h b rfl]; decide
      exact ⟨List.takeWhile_cons_of_neg hb, List.dropWhile_cons_of_neg hb⟩
  have htake : (n.1 ++ rest).takeWhile numeric = n.1 := by
    rw [List.takeWhile_append_of_pos n.numeric, htail.1, List.append_nil]
  have hdrop : (n.1 ++ rest).dropWhile numeric = rest := by
    rw [List.dropWhile_append_of_pos n.numeric, htail.2]
  unfold readNumber
  simp only [htake, hdrop, n.2, dif_pos]

theorem readLiteral_append (tail : List UInt8) (t : Tree) (rest : List UInt8) :
    readLiteral tail t (tail ++ rest) = some (t, rest) := by
  rw [readLiteral, if_pos (List.prefix_append _ _), List.drop_left]

theorem readTree_num (n : ℕ) (m : Number) {rest : List UInt8} (h : Ends rest) :
    readTree (n + 1) ((Tree.num m).text ++ rest) = some (.num m, rest) := by
  obtain ⟨b, bytes, hm, hb⟩ := m.cons
  have hne : ∀ x, numeric x = false → b ≠ x := by
    rintro x hx rfl
    rw [hx] at hb
    cases hb
  rw [readTree, skip_text, ← readNumber_text m h, Tree.text, hm, List.cons_append]
  simp only [if_neg (hne 34 rfl), if_neg (hne 123 rfl), if_neg (hne 91 rfl), if_neg (hne 110 rfl),
    if_neg (hne 116 rfl), if_neg (hne 102 rfl)]

/-- What follows the elements of an array or the members of an object. -/
theorem ends_more (ts : List Tree) (rest : List UInt8) : Ends (moreElements ts ++ rest) := by
  cases ts with
  | nil => exact ends_cons rfl _
  | cons t ts => exact ends_cons rfl _

theorem ends_moreFields (ms : List (String × Tree)) (rest : List UInt8) :
    Ends (moreFields ms ++ rest) := by
  cases ms with
  | nil => exact ends_cons rfl _
  | cons m ms => exact ends_cons rfl _

/-- The elements after the first are elements behind a comma. -/
theorem moreElements_cons (t : Tree) (ts : List Tree) :
    moreElements (t :: ts) = 44 :: elements (t :: ts) := by rw [moreElements, elements]

theorem moreFields_cons (k : String) (t : Tree) (ms : List (String × Tree)) :
    moreFields ((k, t) :: ms) = 44 :: fields ((k, t) :: ms) := by rw [moreFields, fields]

theorem fields_cons (k : String) (t : Tree) (ms : List (String × Tree)) (rest : List UInt8) :
    fields ((k, t) :: ms) ++ rest =
      34 :: (body k ++ 34 :: 58 :: (t.text ++ (moreFields ms ++ rest))) := by
  simp [fields, quote]

/-- An array that is not empty. -/
theorem readTree_arr (n : ℕ) {bytes rest : List UInt8} {b : UInt8} (h : bytes = b :: rest)
    (hblank : blank b = false) (hb : b ≠ 93) :
    readTree (n + 1) (91 :: bytes) = (readElements n bytes).map fun r => (.arr r.1, r.2) := by
  subst h
  rw [readTree, skip_cons rfl]
  simp only [skip_cons hblank]
  rw [if_neg (by decide), if_neg (by decide), if_pos trivial]
  split
  · rename_i heq
    exact absurd (List.cons.inj heq).1 hb
  · rfl

/-- An object that is not empty. -/
theorem readTree_obj (n : ℕ) {bytes rest : List UInt8} (h : bytes = 34 :: rest) :
    readTree (n + 1) (123 :: bytes) = (readFields n bytes).map fun r => (.obj r.1, r.2) := by
  subst h
  rw [readTree, skip_cons rfl]
  simp only [skip_cons (b := 34) rfl]
  rw [if_neg (by decide), if_pos trivial]
  rfl

/-- A value at the head of a text is read as it was written, with fuel for
its bytes. The induction is on the fuel, for values, elements and members at
once. -/
theorem read_written : ∀ n : ℕ,
    (∀ (t : Tree) rest, t.text.length ≤ n → Ends rest →
      readTree n (t.text ++ rest) = some (t, rest)) ∧
    (∀ t ts rest, (elements (t :: ts)).length ≤ n →
      readElements n (elements (t :: ts) ++ rest) = some (t :: ts, rest)) ∧
    ∀ k t ms rest, (fields ((k, t) :: ms)).length ≤ n →
      readFields n (fields ((k, t) :: ms) ++ rest) = some ((k, t) :: ms, rest)
  | 0 => by
    refine ⟨fun t rest h _ => ?_, fun t ts rest h => ?_, fun k t ms rest h => ?_⟩
    · obtain ⟨b, bytes, ht, -⟩ := t.text_cons
      rw [ht] at h
      cases h
    · obtain ⟨b, bytes, ht, -⟩ := t.text_cons
      rw [elements, ht] at h
      cases h
    · rw [fields] at h
      cases h
  | n + 1 => by
    obtain ⟨ihtree, ihelements, ihfields⟩ := read_written n
    refine ⟨fun t rest h hrest => ?_, fun t ts rest h => ?_, fun k t ms rest h => ?_⟩
    · cases t with
      | num m => exact readTree_num n m hrest
      | null =>
        rw [readTree, skip_text]
        exact readLiteral_append [117, 108, 108] .null rest
      | bool b =>
        rw [readTree, skip_text]
        cases b with
        | true => exact readLiteral_append [114, 117, 101] (.bool true) rest
        | false => exact readLiteral_append [97, 108, 115, 101] (.bool false) rest
      | str s =>
        have hs : (Tree.str s).text ++ rest = 34 :: (body s ++ 34 :: rest) := by
          simp [Tree.text, quote]
        rw [readTree, skip_text, hs]
        show (readString (body s ++ 34 :: rest)).map _ = _
        rw [readString_body]
        rfl
      | arr ts =>
        rw [Tree.text, List.length_cons] at h
        cases ts with
        | nil => rfl
        | cons t ts =>
          obtain ⟨b, bytes, ht, hblank, hb⟩ := t.text_cons
          have hcons : elements (t :: ts) ++ rest = b :: (bytes ++ moreElements ts ++ rest) := by
            simp [elements, ht]
          rw [Tree.text, List.cons_append, readTree_arr n hcons hblank hb,
            ihelements t ts rest (by omega)]
          rfl
      | obj ms =>
        rw [Tree.text, List.length_cons] at h
        cases ms with
        | nil => rfl
        | cons m ms =>
          obtain ⟨k, t⟩ := m
          rw [Tree.text, List.cons_append, readTree_obj n (fields_cons k t ms rest),
            ihfields k t ms rest (by omega)]
          rfl
    · rw [elements, List.length_append] at h
      have hmore : 0 < (moreElements ts).length := by
        cases ts with
        | nil => exact Nat.one_pos
        | cons t ts => rw [moreElements_cons]; exact Nat.succ_pos _
      rw [readElements, elements, List.append_assoc, ihtree t _ (by omega) (ends_more ts rest)]
      cases ts with
      | nil => rfl
      | cons t' ts =>
        obtain ⟨b, bytes, ht, -⟩ := t.text_cons
        rw [moreElements_cons, ht, List.length_cons, List.length_cons] at h
        rw [moreElements_cons]
        show (readElements n (elements (t' :: ts) ++ rest)).map _ = _
        rw [ihelements t' ts rest (by omega)]
        rfl
    · rw [fields, quote] at h
      simp only [List.length_append, List.length_cons, List.length_nil] at h
      rw [readFields, fields_cons]
      show (match readString (body k ++ 34 :: 58 :: (t.text ++ (moreFields ms ++ rest))) with
        | none => none
        | some (k, rest) => _) = _
      rw [readString_body]
      show (match readTree n (t.text ++ (moreFields ms ++ rest)) with
        | none => none
        | some (t, rest) => _) = _
      rw [ihtree t _ (by omega) (ends_moreFields ms rest)]
      cases ms with
      | nil => rfl
      | cons m ms =>
        obtain ⟨k', t'⟩ := m
        rw [moreFields_cons, List.length_cons] at h
        rw [moreFields_cons]
        show (readFields n (fields ((k', t') :: ms) ++ rest)).map _ = _
        rw [ihfields k' t' ms rest (by omega)]
        rfl

/-- A document is read as it was written. -/
theorem readDocument_text (t : Tree) : readDocument t.text = some t := by
  have h := (read_written (t.text.length + 1)).1 t [] (Nat.le_succ _) ends_nil
  rw [List.append_nil] at h
  rw [readDocument, h]
  rfl

/-! ### A document is one line of text -/

/-- The UTF-8 of a text without a line break. -/
def IsLine (bytes : List UInt8) : Prop :=
  ∃ text : List Char, bytes = text.flatMap String.utf8EncodeChar ∧ '\n' ∉ text

theorem IsLine.append {xs ys : List UInt8} (hx : IsLine xs) (hy : IsLine ys) : IsLine (xs ++ ys) := by
  obtain ⟨s, rfl, hs⟩ := hx
  obtain ⟨t, rfl, ht⟩ := hy
  exact ⟨s ++ t, by rw [List.flatMap_append], by simp [hs, ht]⟩

theorem utf8EncodeChar_ascii : ∀ n < 128, n ≠ 10 →
    String.utf8EncodeChar (Char.ofNat n) = [UInt8.ofNat n] ∧ Char.ofNat n ≠ '\n' := by
  decide +kernel

theorem isLine_cons {b : UInt8} {bytes : List UInt8} (hb : b.toNat < 128 ∧ b.toNat ≠ 10)
    (h : IsLine bytes) : IsLine (b :: bytes) := by
  obtain ⟨text, rfl, htext⟩ := h
  obtain ⟨he, hn⟩ := utf8EncodeChar_ascii b.toNat hb.1 hb.2
  refine ⟨Char.ofNat b.toNat :: text, ?_, by simp [htext, hn.symm]⟩
  rw [List.flatMap_cons, he, UInt8.ofNat_toNat]
  rfl

theorem isLine_nil : IsLine [] := ⟨[], rfl, nofun⟩

theorem isLine_ascii : ∀ {bytes : List UInt8}, (∀ b ∈ bytes, b.toNat < 128 ∧ b.toNat ≠ 10) →
    IsLine bytes
  | [], _ => isLine_nil
  | b :: bytes, h => by
    rw [List.forall_mem_cons] at h
    exact isLine_cons h.1 (isLine_ascii h.2)

theorem isLine_escape (c : Char) : IsLine (escape c) := by
  unfold escape
  split
  · rename_i b hb
    have hmem : ∀ x ∈ letters, x.2.toNat < 128 ∧ x.2.toNat ≠ 10 := by decide
    exact isLine_cons (by decide) (isLine_cons (hmem _ (mem_letters hb)) isLine_nil)
  · rename_i hc
    split_ifs
    · have hhex : ∀ n, (hexDigit (n % 16)).toNat < 128 ∧ (hexDigit (n % 16)).toNat ≠ 10 := fun n =>
        (by decide : ∀ n < 16, (hexDigit n).toNat < 128 ∧ (hexDigit n).toNat ≠ 10) _
          (Nat.mod_lt _ (by decide))
      refine isLine_cons (by decide) (isLine_cons (by decide) (isLine_ascii ?_))
      simp [hexDigits, hhex]
    · refine ⟨[c], by simp, ?_⟩
      rintro h
      obtain rfl := List.mem_singleton.mp h
      cases hc

theorem isLine_quote (s : String) : IsLine (quote s) := by
  have hbody : IsLine (body s) := by
    unfold body
    induction s.toList with
    | nil => exact isLine_nil
    | cons c cs ih => exact (isLine_escape c).append ih
  exact isLine_cons (by decide) (hbody.append (isLine_cons (by decide) isLine_nil))

theorem ascii_of_numeric {b : UInt8} (h : numeric b = true) : b.toNat < 128 ∧ b.toNat ≠ 10 := by
  simp only [numeric, Bool.or_eq_true, Bool.and_eq_true, decide_eq_true_eq, UInt8.le_iff_toNat_le,
    List.contains_iff_mem, List.mem_cons, List.not_mem_nil, or_false] at h
  rcases h with ⟨h1, h2⟩ | rfl | rfl | rfl | rfl | rfl
  · change 48 ≤ b.toNat at h1
    change b.toNat ≤ 57 at h2
    omega
  all_goals decide

mutual

theorem Tree.isLine_text : ∀ t : Tree, IsLine t.text
  | .null | .bool true | .bool false => isLine_ascii (by simp [Tree.text])
  | .num n => isLine_ascii fun b hb => ascii_of_numeric (n.numeric b hb)
  | .str s => isLine_quote s
  | .arr ts => isLine_cons (by decide) (isLine_elements ts)
  | .obj ms => isLine_cons (by decide) (isLine_fields ms)

theorem isLine_elements : ∀ ts : List Tree, IsLine (elements ts)
  | [] => isLine_cons (by decide) isLine_nil
  | t :: ts => t.isLine_text.append (isLine_moreElements ts)

theorem isLine_moreElements : ∀ ts : List Tree, IsLine (moreElements ts)
  | [] => isLine_cons (by decide) isLine_nil
  | t :: ts => isLine_cons (by decide) (t.isLine_text.append (isLine_moreElements ts))

theorem isLine_fields : ∀ ms : List (String × Tree), IsLine (fields ms)
  | [] => isLine_cons (by decide) isLine_nil
  | (k, t) :: ms => (isLine_quote k).append
      (isLine_cons (by decide) (t.isLine_text.append (isLine_moreFields ms)))

theorem isLine_moreFields : ∀ ms : List (String × Tree), IsLine (moreFields ms)
  | [] => isLine_cons (by decide) isLine_nil
  | (k, t) :: ms => isLine_cons (by decide) ((isLine_quote k).append
      (isLine_cons (by decide) (t.isLine_text.append (isLine_moreFields ms))))

end

/-! ### Members by name -/

/-- The value under a name, the last one given. -/
def field (ms : List (String × Tree)) (name : String) : Option Tree := ms.reverse.lookup name

/-- The string under a name, empty if there is none. -/
def strField (ms : List (String × Tree)) (name : String) : Option String :=
  match field ms name with
  | none | some .null => some ""
  | some (.str s) => some s
  | some _ => none

/-- A member that is left out if it is empty. -/
def optStr (name s : String) : List (String × Tree) := if s = "" then [] else [(name, .str s)]

/-- A member that is left out if there is none. -/
def optField (name : String) (t : Option Tree) : List (String × Tree) := t.toList.map (name, ·)

theorem field_nil (name : String) : field [] name = none := rfl

theorem field_append (xs ys : List (String × Tree)) (name : String) :
    field (xs ++ ys) name = (field ys name).or (field xs name) := by
  rw [field, List.reverse_append, List.lookup_append]
  rfl

theorem field_singleton (k : String) (t : Tree) (name : String) :
    field [(k, t)] name = if name = k then some t else none := by
  show List.lookup name [(k, t)] = _
  rw [List.lookup_cons, List.lookup_nil]
  by_cases h : name = k
  · rw [beq_iff_eq.mpr h, if_pos h]
  · rw [beq_eq_false_iff_ne.mpr h, if_neg h]

theorem field_cons (k : String) (t : Tree) (ms : List (String × Tree)) (name : String) :
    field ((k, t) :: ms) name = (field ms name).or (if name = k then some t else none) := by
  rw [← List.singleton_append, field_append, field_singleton]

theorem field_optField (k : String) (t : Option Tree) (name : String) :
    field (optField k t) name = if name = k then t else none := by
  cases t with
  | none => simp [optField, field_nil]
  | some t => exact field_singleton k t name

theorem field_optStr (k s name : String) :
    field (optStr k s) name = if name = k ∧ s ≠ "" then some (.str s) else none := by
  unfold optStr
  by_cases hs : s = ""
  · simp [hs, field_nil]
  · rw [if_neg hs, field_singleton]
    simp [hs]

theorem strField_of_field {ms : List (String × Tree)} {name s : String}
    (h : field ms name = some (.str s)) : strField ms name = some s := by
  rw [strField, h]

/-- A member that may be left out is read as it was. -/
theorem strField_of_opt {ms : List (String × Tree)} {name s : String}
    (h : field ms name = if s = "" then none else some (.str s)) : strField ms name = some s := by
  rw [strField, h]
  by_cases hs : s = ""
  · rw [if_pos hs, hs]
  · rw [if_neg hs]

end Json
end Lib
end Revquic
