/-
# Config files (`internal/conf`)

A line of a config file names a flag and its value, with `=` or a blank
between them. `splitKV` looks for `=` first, in the whole line: a value that
holds one is cut at it where the line has a blank and no `=` of its own, so
that two of the documented spellings mean something else.

A text is what `range` yields for a Go string: its runes, and the bytes that
are not part of one. All separators are ASCII, so the string functions of the
source are list functions here.

Key definitions: `splitKV`, `applyLine`, `applyFile`, `Sets`.
Key theorem: `spellings`.
-/
import Revquic.Lib.GoMap
import Revquic.Lib.Lines
import Revquic.Lib.Trim

namespace Revquic
namespace Conf

open Lib

/-- A rune, or a byte outside of one. -/
inductive Sym
  | rune (c : Char)
  | bad (b : UInt8)
  deriving DecidableEq

abbrev Text := List Sym

/-- A Go string that is UTF-8. -/
def text (s : String) : Text := s.toList.map .rune

def Sym.size : Sym → ℕ
  | .rune c => c.utf8Size
  | .bad _ => 1

/-- `len(t)`. -/
def byteLen (t : Text) : ℕ := t.foldr (fun c n => c.size + n) 0

/-- `unicode.IsSpace`. -/
def isSpace : Sym → Bool
  | .rune c =>
    [9, 10, 11, 12, 13, 32, 0x85, 0xa0, 0x1680, 0x2028, 0x2029, 0x202f, 0x205f, 0x3000].contains c.toNat ||
      (0x2000 ≤ c.toNat && c.toNat ≤ 0x200a)
  | .bad _ => false

/-- `strings.TrimSpace`. -/
def trimSpace (t : Text) : Text := trim isSpace t

def newline : Sym := .rune '\n'
def equals : Sym := .rune '='
def dash : Sym := .rune '-'
def blank : Sym := .rune ' '
def tab : Sym := .rune '\t'
def doubleQuote : Sym := .rune (Char.ofNat 34)
def singleQuote : Sym := .rune (Char.ofNat 39)

/-- `splitKV`. -/
def splitKV (line : Text) : Text × Text :=
  match cut (fun c => c = equals) line with
  | some r => r
  | none =>
    match cut (fun c => c = blank || c = tab) line with
    | some r => r
    | none => (line, [])

/-- `unquote`. -/
def unquote (s : Text) : Text :=
  if 2 ≤ s.length ∧ ((s.head? = some doubleQuote ∧ s.getLast? = some doubleQuote) ∨
      (s.head? = some singleQuote ∧ s.getLast? = some singleQuote)) then s.tail.dropLast
  else s

/-- `strings.TrimPrefix(s, "-")`. -/
def trimDash (s : Text) : Text := if s.head? = some dash then s.tail else s

/-- A flag: `IsBoolFlag`, and the texts that its `Set` takes. -/
structure Flag where
  isBool : Bool
  accepts : Text → Bool

/-- `flag.FlagSet`: the flags by name, and the names set on the command
line. -/
structure FlagSet where
  formal : GoMap Text Flag
  actual : List Text

/-- The errors of `ApplyFile`, with the number of the line. -/
inductive ConfError
  | cannotOpen
  | missingKey (ln : ℕ)
  | unknownKey (ln : ℕ) (key : Text)
  | set (ln : ℕ) (key : Text)
  | tooLong
  deriving DecidableEq

variable (fs : FlagSet)

/-- The second half of the loop of `ApplyFile`: the value, and `fs.Set`. -/
def setFlag (ln : ℕ) (key rawVal : Text) : Except ConfError (Option (Text × Text)) :=
  match fs.formal.lookup key with
  | none => .error (.unknownKey ln key)
  | some fl =>
    if key ∈ fs.actual then .ok none
    else
      let val := unquote (trimSpace rawVal)
      let val := if val = [] ∧ fl.isBool then text "true" else val
      if fl.accepts val then .ok (some (key, val)) else .error (.set ln key)

/-- The loop of `ApplyFile`: the flag that is set and its value, if one is. -/
def applyLine (ln : ℕ) (t : Text) : Except ConfError (Option (Text × Text)) :=
  let line := trimSpace t
  if line = [] ∨ line.head? = some (.rune '#') ∨ line.head? = some (.rune ';') then .ok none
  else
    let key := trimSpace (trimDash (trimSpace (splitKV line).1))
    if key = [] then .error (.missingKey ln) else setFlag fs ln key (splitKV line).2

/-- `bufio.ScanLines` drops a carriage return at the end of a line. -/
def dropCR (line : Text) : Text := if line.getLast? = some (.rune '\r') then line.dropLast else line

/-- `bufio.MaxScanTokenSize`: a line and its end have to fit. -/
def maxScanTokenSize : ℕ := 64 * 1024

/-- The loop: the flags set, in order, and the error that ends it. -/
def applyLines : ℕ → List Text → List (Text × Text) × Option ConfError
  | _, [] => ([], none)
  | n, line :: rest =>
    if maxScanTokenSize ≤ byteLen line then ([], some .tooLong)
    else
      match applyLine fs (n + 1) (dropCR line) with
      | .error err => ([], some err)
      | .ok set => (set.toList ++ (applyLines (n + 1) rest).1, (applyLines (n + 1) rest).2)

/-- `ApplyFile`; `none` is a file that cannot be opened. -/
def applyFile : Option Text → List (Text × Text) × Option ConfError
  | none => ([], some .cannotOpen)
  | some file => applyLines fs 0 (lines newline file)

/-! ### Spellings -/

/-- Blanks within a line. -/
structure Blanks (b : Text) : Prop where
  space : ∀ c ∈ b, isSpace c = true
  oneLine : newline ∉ b

/-- A name of a flag that a line can spell. -/
structure Name (k : Text) : Prop where
  ne_nil : k ≠ []
  noSpace : ∀ c ∈ k, isSpace c = false
  noEquals : equals ∉ k
  head : k.head? ≠ some dash ∧ k.head? ≠ some (.rune '#') ∧ k.head? ≠ some (.rune ';')

/-- A value without blanks at its ends, and without a quote at its start. -/
structure Value (v : Text) : Prop where
  edged : Edged isSpace v
  oneLine : newline ∉ v
  head : v.head? ≠ some doubleQuote ∧ v.head? ≠ some singleQuote

/-- `k = v`, with or without blanks, a leading dash or quotes. -/
inductive WithEquals (k v : Text) : Text → Prop
  | mk {d q b₁ b₂ b₃ b₄ : Text} : d = [] ∨ d = [dash] → q = [] ∨ q = [doubleQuote] ∨ q = [singleQuote] →
      Blanks b₁ → Blanks b₂ → Blanks b₃ → Blanks b₄ →
      WithEquals k v (b₁ ++ (d ++ k ++ b₂ ++ equals :: (b₃ ++ (q ++ v ++ q))) ++ b₄)

/-- `k v`, with or without further blanks and a leading dash. -/
inductive WithBlank (k v : Text) : Text → Prop
  | mk {d b₁ b₃ b₄ : Text} {sep : Sym} : d = [] ∨ d = [dash] → sep = blank ∨ sep = tab →
      Blanks b₁ → Blanks b₃ → Blanks b₄ →
      WithBlank k v (b₁ ++ (d ++ k ++ sep :: (b₃ ++ v)) ++ b₄)

/-! ### The parts of a line -/

theorem isSpace_dash : isSpace dash = false := by decide

theorem isSpace_quote : isSpace doubleQuote = false ∧ isSpace singleQuote = false := by decide

theorem ne_equals_of_isSpace {c : Sym} (h : isSpace c = true) : c ≠ equals := by
  rintro rfl
  cases h

section
variable {k v d q b t : Text}

theorem Blanks.noEquals (h : Blanks b) : equals ∉ b := fun hmem =>
  ne_equals_of_isSpace (h.space _ hmem) rfl

theorem Name.edged (hk : Name k) : Edged isSpace k :=
  ⟨hk.ne_nil, fun c hc => hk.noSpace c (List.mem_of_mem_head? hc),
    fun c hc => hk.noSpace c (List.mem_of_mem_getLast? hc)⟩

/-- A name with its dash. -/
theorem Name.edged_dash (hk : Name k) (hd : d = [] ∨ d = [dash]) : Edged isSpace (d ++ k) := by
  rcases hd with rfl | rfl
  · exact hk.edged
  · refine ⟨by simp, fun c hc => ?_, fun c hc => hk.edged.last c ?_⟩
    · obtain rfl : dash = c := by simpa using hc
      exact isSpace_dash
    · rwa [List.getLast?_append_of_ne_nil _ hk.ne_nil] at hc

theorem Name.trimDash (hk : Name k) (hd : d = [] ∨ d = [dash]) : trimDash (d ++ k) = k := by
  rcases hd with rfl | rfl
  · exact if_neg hk.head.1
  · rfl

/-- The name is read back, whatever blanks follow it. -/
theorem key_eq (hk : Name k) (hd : d = [] ∨ d = [dash]) (hb : ∀ c ∈ b, isSpace c = true) :
    trimSpace (trimDash (trimSpace (d ++ k ++ b))) = k := by
  have htrim : trimSpace (d ++ k ++ b) = d ++ k := by
    have h := trim_append (a := []) (by simp) hb (hk.edged_dash hd)
    rwa [List.nil_append] at h
  rw [htrim, hk.trimDash hd]
  exact hk.edged.trim_eq

theorem edged_wrap {c : Sym} (hc : isSpace c = false) (v : Text) : Edged isSpace ([c] ++ v ++ [c]) := by
  refine ⟨by simp, fun c' hc' => ?_, fun c' hc' => ?_⟩
  · obtain rfl : c = c' := by simpa using hc'
    exact hc
  · rw [List.getLast?_concat] at hc'
    obtain rfl : c = c' := by simpa using hc'
    exact hc

theorem unquote_wrap {c : Sym} (hc : c = doubleQuote ∨ c = singleQuote) (v : Text) :
    Conf.unquote ([c] ++ v ++ [c]) = v := by
  have hlast : ([c] ++ v ++ [c]).getLast? = some c := List.getLast?_concat
  have hhead : ([c] ++ v ++ [c]).head? = some c := rfl
  have hquoted : 2 ≤ ([c] ++ v ++ [c]).length ∧
      ((([c] ++ v ++ [c]).head? = some doubleQuote ∧ ([c] ++ v ++ [c]).getLast? = some doubleQuote) ∨
        (([c] ++ v ++ [c]).head? = some singleQuote ∧ ([c] ++ v ++ [c]).getLast? = some singleQuote)) := by
    rw [hlast, hhead]
    refine ⟨by simp, ?_⟩
    rcases hc with rfl | rfl
    · exact Or.inl ⟨rfl, rfl⟩
    · exact Or.inr ⟨rfl, rfl⟩
  rw [Conf.unquote, if_pos hquoted]
  simp

theorem length_unquote_le (s : Text) : (Conf.unquote s).length ≤ s.length := by
  unfold Conf.unquote
  split_ifs
  · rw [List.length_dropLast, List.length_tail]
    omega
  · exact Nat.le_refl _

theorem Value.edged_quote (hv : Value v) (hq : q = [] ∨ q = [doubleQuote] ∨ q = [singleQuote]) :
    Edged isSpace (q ++ v ++ q) := by
  rcases hq with rfl | rfl | rfl
  · simpa using hv.edged
  · exact edged_wrap isSpace_quote.1 v
  · exact edged_wrap isSpace_quote.2 v

/-- Quotes around a value are taken off, and nothing else. -/
theorem Value.unquote (hv : Value v) (hq : q = [] ∨ q = [doubleQuote] ∨ q = [singleQuote]) :
    unquote (q ++ v ++ q) = v := by
  rcases hq with rfl | rfl | rfl
  · rw [List.nil_append, List.append_nil, Conf.unquote, if_neg]
    rintro ⟨-, ⟨h, -⟩ | ⟨h, -⟩⟩
    · exact hv.head.1 h
    · exact hv.head.2 h
  · exact unquote_wrap (Or.inl rfl) v
  · exact unquote_wrap (Or.inr rfl) v

/-- The value is read back, whatever blanks stand before it. -/
theorem val_eq (hv : Value v) (hq : q = [] ∨ q = [doubleQuote] ∨ q = [singleQuote])
    (hb : ∀ c ∈ b, isSpace c = true) : Conf.unquote (trimSpace (b ++ (q ++ v ++ q))) = v := by
  have htrim : trimSpace (b ++ (q ++ v ++ q)) = q ++ v ++ q := by
    have h := trim_append (b := []) hb (by simp) (hv.edged_quote hq)
    rwa [List.append_nil] at h
  rw [htrim, hv.unquote hq]

theorem Name.noEquals_dash (hk : Name k) (hd : d = [] ∨ d = [dash]) : equals ∉ d ++ k := by
  have hdash : equals ∉ d := by rcases hd with rfl | rfl <;> decide
  rw [List.mem_append, not_or]
  exact ⟨hdash, hk.noEquals⟩

/-- A line is split at its first `=`. -/
theorem splitKV_equals {x rest : Text} (hx : equals ∉ x) : splitKV (x ++ equals :: rest) = (x, rest) := by
  have hcut : cut (fun c => decide (c = equals)) (x ++ equals :: rest) = some (x, rest) := by
    refine cut_append (fun c hc => ?_) (by simp)
    exact decide_eq_false fun he => hx (he ▸ hc)
  rw [splitKV, hcut]

/-- A line without `=` is split at its first blank. -/
theorem splitKV_blank {rest : Text} {sep : Sym} (hk : Name k) (hd : d = [] ∨ d = [dash])
    (hsep : sep = blank ∨ sep = tab) (hno : equals ∉ d ++ k ++ sep :: rest) :
    splitKV (d ++ k ++ sep :: rest) = (d ++ k, rest) := by
  have hnone : cut (fun c => decide (c = equals)) (d ++ k ++ sep :: rest) = none :=
    cut_eq_none fun c hc => decide_eq_false fun he => hno (he ▸ hc)
  have hcut : cut (fun c => decide (c = blank) || decide (c = tab)) (d ++ k ++ sep :: rest) =
      some (d ++ k, rest) := by
    refine cut_append (fun c hc => ?_) (by rcases hsep with rfl | rfl <;> decide)
    have hspace : isSpace c = false := by
      rcases List.mem_append.mp hc with hc | hc
      · rcases hd with rfl | rfl
        · cases hc
        · rw [List.mem_singleton.mp hc, isSpace_dash]
      · exact hk.noSpace c hc
    have hblank : c ≠ blank := by rintro rfl; cases hspace
    have htab : c ≠ tab := by rintro rfl; cases hspace
    simp [hblank, htab]
  rw [splitKV, hnone]
  simp only [hcut]

/-! ### One line -/

variable {fs} {fl : Flag} {ln : ℕ}

/-- A line whose parts are a name and a value sets the flag. -/
theorem applyLine_set {line rawKey rawVal : Text} (hline : trimSpace t = line) (hne : line ≠ [])
    (hhead : line.head? ≠ some (.rune '#') ∧ line.head? ≠ some (.rune ';'))
    (hsplit : splitKV line = (rawKey, rawVal))
    (hkey : trimSpace (trimDash (trimSpace rawKey)) = k) (hval : Conf.unquote (trimSpace rawVal) = v)
    (hk : k ≠ []) (hv : v ≠ []) (hfl : fs.formal.lookup k = some fl) (hcli : k ∉ fs.actual)
    (hacc : fl.accepts v = true) : applyLine fs ln t = .ok (some (k, v)) := by
  have hcond : ¬ (line = [] ∨ line.head? = some (.rune '#') ∨ line.head? = some (.rune ';')) := by
    simp only [not_or]
    exact ⟨hne, hhead⟩
  have hbool : ¬ (v = [] ∧ fl.isBool = true) := fun h => hv h.1
  simp only [applyLine, hline, if_neg hcond, hsplit, hkey, if_neg hk]
  simp only [setFlag, hfl, if_neg hcli, hval, if_neg hbool, if_pos hacc]

/-- The value that a line sets is what stands behind its `=`, or `true`. -/
theorem applyLine_val {line rawKey rawVal : Text} (hline : trimSpace t = line)
    (hsplit : splitKV line = (rawKey, rawVal)) (h : applyLine fs ln t = .ok (some (k, v))) :
    v = Conf.unquote (trimSpace rawVal) ∨ v = text "true" := by
  have hset : setFlag fs ln (trimSpace (trimDash (trimSpace rawKey))) rawVal = .ok (some (k, v)) := by
    simp only [applyLine, hline, hsplit] at h
    split_ifs at h
    · cases h
    · exact h
  unfold setFlag at hset
  split at hset
  · cases hset
  · rename_i fl _
    by_cases hbool : Conf.unquote (trimSpace rawVal) = [] ∧ fl.isBool = true
    · simp only [if_pos hbool] at hset
      split_ifs at hset <;> cases hset
      exact Or.inr rfl
    · simp only [if_neg hbool] at hset
      split_ifs at hset <;> cases hset
      exact Or.inl rfl

/-- The start of a line behind its blanks: a dash or the start of the name. -/
theorem head_line (hk : Name k) (hd : d = [] ∨ d = [dash]) (rest : Text) :
    (d ++ k ++ rest).head? ≠ some (.rune '#') ∧ (d ++ k ++ rest).head? ≠ some (.rune ';') := by
  obtain ⟨c, k', rfl⟩ := List.exists_cons_of_ne_nil hk.ne_nil
  rcases hd with rfl | rfl
  · exact ⟨hk.head.2.1, hk.head.2.2⟩
  · exact ⟨by simp [dash], by simp [dash]⟩

/-- What stands between the blanks of a line has none at its ends. -/
theorem edged_line {rest : Text} (hk : Name k) (hd : d = [] ∨ d = [dash]) (hrest : Edged isSpace rest)
    (mid : Text) : Edged isSpace (d ++ k ++ (mid ++ rest)) := by
  refine ⟨by simp [hk.ne_nil], fun c hc => ?_, fun c hc => ?_⟩
  · refine (hk.edged_dash hd).head c ?_
    rwa [List.head?_append_of_ne_nil _ (hk.edged_dash hd).ne_nil] at hc
  · refine hrest.last c ?_
    rwa [List.getLast?_append_of_ne_nil _ (by simp [hrest.ne_nil]),
      List.getLast?_append_of_ne_nil _ hrest.ne_nil] at hc

/-- A line with `=` sets the flag. -/
theorem applyLine_withEquals {line : Text} (h : WithEquals k v line) (hk : Name k) (hv : Value v)
    (hfl : fs.formal.lookup k = some fl) (hcli : k ∉ fs.actual) (hacc : fl.accepts v = true)
    (ht : trimSpace t = trimSpace line) : applyLine fs ln t = .ok (some (k, v)) := by
  obtain ⟨hd, hq, hb₁, hb₂, hb₃, hb₄⟩ := h
  rename_i d q b₁ b₂ b₃ b₄
  have hx : Edged isSpace (d ++ k ++ b₂ ++ equals :: (b₃ ++ (q ++ v ++ q))) := by
    have h := edged_line hk hd (hv.edged_quote hq) (b₂ ++ equals :: b₃)
    simpa using h
  have hno : equals ∉ d ++ k ++ b₂ := by
    rw [List.mem_append, not_or]
    exact ⟨hk.noEquals_dash hd, hb₂.noEquals⟩
  refine applyLine_set (ht.trans (trim_append hb₁.space hb₄.space hx)) hx.ne_nil ?_
    (splitKV_equals hno) (key_eq hk hd hb₂.space) (val_eq hv hq hb₃.space) hk.ne_nil
    hv.edged.ne_nil hfl hcli hacc
  rw [List.append_assoc (d ++ k)]
  exact head_line hk hd _

/-- A line with a blank sets the flag exactly if there is no `=` in the
value. -/
theorem applyLine_withBlank {line : Text} (h : WithBlank k v line) (hk : Name k) (hv : Value v)
    (hfl : fs.formal.lookup k = some fl) (hcli : k ∉ fs.actual) (hacc : fl.accepts v = true)
    (ht : trimSpace t = trimSpace line) :
    applyLine fs ln t = .ok (some (k, v)) ↔ equals ∉ v := by
  obtain ⟨hd, hsep, hb₁, hb₃, hb₄⟩ := h
  rename_i d b₁ b₃ b₄ sep
  have hx : Edged isSpace (d ++ k ++ sep :: (b₃ ++ v)) := by
    have h := edged_line hk hd hv.edged (sep :: b₃)
    simpa using h
  have hline : trimSpace t = d ++ k ++ sep :: (b₃ ++ v) :=
    ht.trans (trim_append hb₁.space hb₄.space hx)
  have hspace : isSpace sep = true := by rcases hsep with rfl | rfl <;> decide
  have hb : Blanks (sep :: b₃) := by
    refine ⟨List.forall_mem_cons.mpr ⟨hspace, hb₃.space⟩, ?_⟩
    rw [List.mem_cons, not_or]
    exact ⟨by rcases hsep with rfl | rfl <;> decide, hb₃.oneLine⟩
  constructor
  · intro happly hmem
    obtain ⟨v₁, v₂, rfl, hv₁⟩ := List.eq_append_cons_of_mem hmem
    -- the line is cut at the `=` of the value, and what is left is too short
    have hno : equals ∉ d ++ k ++ (sep :: b₃ ++ v₁) := by
      simp only [List.mem_append (s := d ++ k), List.mem_append (s := sep :: b₃), not_or]
      exact ⟨hk.noEquals_dash hd, hb.noEquals, hv₁⟩
    have hsplit : splitKV (d ++ k ++ sep :: (b₃ ++ (v₁ ++ equals :: v₂))) =
        (d ++ k ++ (sep :: b₃ ++ v₁), v₂) := by
      have h : splitKV (d ++ k ++ (sep :: b₃ ++ v₁) ++ equals :: v₂) = _ := splitKV_equals hno
      simpa using h
    rcases applyLine_val hline hsplit happly with hval | hval
    · have hlen := congrArg List.length hval
      have hle := (length_unquote_le (trimSpace v₂)).trans (length_trim_le isSpace v₂)
      rw [List.length_append, List.length_cons] at hlen
      omega
    · rw [hval] at hmem
      exact absurd hmem (by decide)
  · intro hno
    have hno' : equals ∉ d ++ k ++ sep :: (b₃ ++ v) := by
      rw [← List.cons_append, List.mem_append, List.mem_append (s := sep :: b₃), not_or, not_or]
      exact ⟨hk.noEquals_dash hd, hb.noEquals, hno⟩
    have hval := val_eq (q := []) hv (Or.inl rfl) hb₃.space
    rw [List.nil_append, List.append_nil] at hval
    refine applyLine_set hline hx.ne_nil (head_line hk hd _) (splitKV_blank hk hd hsep hno') ?_ hval
      hk.ne_nil hv.edged.ne_nil hfl hcli hacc
    have hkey := key_eq (b := []) hk hd (by simp)
    rwa [List.append_nil] at hkey

/-! ### A file of one line -/

theorem trimSpace_dropCR (t : Text) : trimSpace (dropCR t) = trimSpace t := by
  unfold dropCR
  split_ifs with hcr
  · obtain ⟨t', rfl⟩ := List.getLast?_eq_some_iff.mp hcr
    rw [List.dropLast_concat]
    exact (trim_concat (by decide)).symm
  · rfl

theorem lines_one {line file : Text} (hne : line ≠ []) (hline : newline ∉ line)
    (hfile : file = line ∨ file = line ++ [newline]) : lines newline file = [line] := by
  rcases hfile with rfl | rfl
  · exact lines_fragment hline hne
  · exact lines_line hline []

/-- Wherever a line stands in a file, it sets `k` to `v`, and the loop goes
on. -/
def Sets (fs : FlagSet) (k v line : Text) : Prop :=
  ∀ n rest, applyLines fs n (line :: rest) =
    ((k, v) :: (applyLines fs (n + 1) rest).1, (applyLines fs (n + 1) rest).2)

theorem applyLines_cons {line : Text} (hlen : byteLen line < maxScanTokenSize)
    (h : ∀ n, applyLine fs n (dropCR line) = .ok (some (k, v))) : Sets fs k v line := by
  intro n rest
  simp only [applyLines, if_neg (Nat.not_le.mpr hlen), h]
  rfl

/-- In a file of one line, the line sets a flag if the file does. -/
theorem applyLine_of_applyFile {line file : Text} (hne : line ≠ []) (hline : newline ∉ line)
    (hfile : file = line ∨ file = line ++ [newline]) (hlen : byteLen line < maxScanTokenSize)
    (h : applyFile fs (some file) = ([(k, v)], none)) :
    applyLine fs 1 (dropCR line) = .ok (some (k, v)) := by
  simp only [applyFile, lines_one hne hline hfile, applyLines, if_neg (Nat.not_le.mpr hlen)] at h
  cases hset : applyLine fs 1 (dropCR line) with
  | error err => simp [hset] at h
  | ok set => cases set <;> simp_all

theorem Sets.applyFile {line file : Text} (h : Sets fs k v line) (hne : line ≠ [])
    (hline : newline ∉ line) (hfile : file = line ∨ file = line ++ [newline]) :
    applyFile fs (some file) = ([(k, v)], none) := by
  rw [Conf.applyFile, lines_one hne hline hfile, h 0 []]
  rfl

theorem Name.oneLine (hk : Name k) : newline ∉ k := fun h => by cases hk.noSpace _ h

theorem WithEquals.oneLine {line : Text} (h : WithEquals k v line) (hk : Name k) (hv : Value v) :
    line ≠ [] ∧ newline ∉ line := by
  obtain ⟨hd, hq, hb₁, hb₂, hb₃, hb₄⟩ := h
  rename_i d q b₁ b₂ b₃ b₄
  have hdash : newline ∉ d := by rcases hd with rfl | rfl <;> decide
  have hquote : newline ∉ q := by rcases hq with rfl | rfl | rfl <;> decide
  refine ⟨by simp, ?_⟩
  simp only [List.mem_append, List.mem_cons, not_or]
  exact ⟨⟨hb₁.oneLine, ⟨⟨hdash, hk.oneLine⟩, hb₂.oneLine⟩, by decide, hb₃.oneLine,
    ⟨hquote, hv.oneLine⟩, hquote⟩, hb₄.oneLine⟩

theorem WithBlank.oneLine {line : Text} (h : WithBlank k v line) (hk : Name k) (hv : Value v) :
    line ≠ [] ∧ newline ∉ line := by
  obtain ⟨hd, hsep, hb₁, hb₃, hb₄⟩ := h
  rename_i d b₁ b₃ b₄ sep
  have hdash : newline ∉ d := by rcases hd with rfl | rfl <;> decide
  have hnl : newline ≠ sep := by rcases hsep with rfl | rfl <;> decide
  refine ⟨by simp, ?_⟩
  simp only [List.mem_append, List.mem_cons, not_or]
  exact ⟨⟨hb₁.oneLine, ⟨hdash, hk.oneLine⟩, hnl, hb₃.oneLine, hv.oneLine⟩, hb₄.oneLine⟩

end

/-- **The spellings of a line.** For a flag that is defined, is not set on the
command line and takes the value: a line with `=` sets it to the value,
quoted or not, with any blanks and with a dash or without. A line with a
blank instead does so exactly if there is no `=` in the value. -/
theorem spellings (fs : FlagSet) {k v : Text} {fl : Flag} (hk : Name k) (hv : Value v)
    (hfl : fs.formal.lookup k = some fl) (hcli : k ∉ fs.actual) (hacc : fl.accepts v = true) :
    (∀ line, WithEquals k v line → byteLen line < maxScanTokenSize →
      Sets fs k v line ∧ ∀ file, file = line ∨ file = line ++ [newline] →
        applyFile fs (some file) = ([(k, v)], none)) ∧
    ∀ line, WithBlank k v line → byteLen line < maxScanTokenSize →
      (Sets fs k v line ↔ equals ∉ v) ∧ ∀ file, file = line ∨ file = line ++ [newline] →
        (applyFile fs (some file) = ([(k, v)], none) ↔ equals ∉ v) := by
  refine ⟨fun line hw hlen => ?_, fun line hw hlen => ?_⟩
  · obtain ⟨hne, hline⟩ := hw.oneLine hk hv
    have hsets : Sets fs k v line := applyLines_cons hlen fun n =>
      applyLine_withEquals hw hk hv hfl hcli hacc (trimSpace_dropCR line)
    exact ⟨hsets, fun file hfile => hsets.applyFile hne hline hfile⟩
  · obtain ⟨hne, hline⟩ := hw.oneLine hk hv
    have hiff : ∀ n, applyLine fs n (dropCR line) = .ok (some (k, v)) ↔ equals ∉ v := fun n =>
      applyLine_withBlank hw hk hv hfl hcli hacc (trimSpace_dropCR line)
    have hsets : equals ∉ v → Sets fs k v line := fun hno =>
      applyLines_cons hlen fun n => (hiff n).mpr hno
    have hfile : ∀ file, file = line ∨ file = line ++ [newline] →
        applyFile fs (some file) = ([(k, v)], none) → equals ∉ v := fun file hfile h =>
      (hiff 1).mp (applyLine_of_applyFile hne hline hfile hlen h)
    exact ⟨⟨fun h => hfile line (Or.inl rfl) (h.applyFile hne hline (Or.inl rfl)), hsets⟩,
      fun file hf => ⟨hfile file hf, fun hno => (hsets hno).applyFile hne hline hf⟩⟩

/-- One flag that takes every text. -/
def oneFlag (k : String) : FlagSet := ⟨(∅ : GoMap Text Flag).insert (text k) ⟨false, fun _ => true⟩, []⟩

theorem spellings_broker :
    applyFile (oneFlag "broker") (some (text " broker = b:1\n")) = ([(text "broker", text "b:1")], none) ∧
      applyFile (oneFlag "broker") (some (text "-broker b:1")) = ([(text "broker", text "b:1")], none) := by
  have hk : Name (text "broker") := ⟨by decide, by decide, by decide, by decide⟩
  have hv : Value (text "b:1") := ⟨⟨by decide, by decide, by decide⟩, by decide, by decide⟩
  have hspace : Blanks [blank] := ⟨by decide, by decide⟩
  have hnone : Blanks [] := ⟨by decide, by decide⟩
  obtain ⟨hequals, hblank⟩ := spellings (oneFlag "broker") hk hv rfl (by decide) rfl
  have heq : WithEquals (text "broker") (text "b:1")
      ([blank] ++ ([] ++ text "broker" ++ [blank] ++ equals :: ([blank] ++ ([] ++ text "b:1" ++ []))) ++ []) :=
    .mk (Or.inl rfl) (Or.inl rfl) hspace hspace hspace hnone
  have hdash : WithBlank (text "broker") (text "b:1")
      ([] ++ ([dash] ++ text "broker" ++ blank :: ([] ++ text "b:1")) ++ []) :=
    .mk (Or.inr rfl) (Or.inl rfl) hnone hnone hnone
  exact ⟨(hequals _ heq (by decide +kernel)).2 _ (Or.inr (by decide +kernel)),
    ((hblank _ hdash (by decide +kernel)).2 _ (Or.inl (by decide +kernel))).mpr (by decide)⟩

/-- A token in base64 has its padding taken for the separator. -/
theorem padded_token_rejected :
    applyFile (oneFlag "token") (some (text "token c2VjcmV0MQ==\n")) =
        ([], some (.unknownKey 1 (text "token c2VjcmV0MQ"))) ∧
      applyFile (oneFlag "token") (some (text "-token c2VjcmV0MQ==")) =
        ([], some (.unknownKey 1 (text "token c2VjcmV0MQ"))) ∧
      applyFile (oneFlag "token") (some (text "token = c2VjcmV0MQ==\n")) =
        ([(text "token", text "c2VjcmV0MQ==")], none) := by
  decide +kernel

end Conf
end Revquic
