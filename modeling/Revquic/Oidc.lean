/-
# The keys of the identity provider (`internal/oidc`)

`refresh` fetches the JWKS document and replaces the key set by what
`parseJWKS` makes of it. The body is read by one `Read`: a document that
arrives in two pieces is parsed by its first piece alone. `refresh` does what
it should exactly if what is left unread is blank. `encoding/json` is a
parameter, with what its scanner does to a text that is cut.

Key definitions: `Json`, `parseJWKS`, `install`, `refresh`.
Key theorem: `refresh_whole`.
-/
import Mathlib.Data.List.DropRight
import Revquic.Lib.Base64
import Revquic.Lib.GoMap
import Revquic.Lib.Reader

namespace Revquic
namespace Oidc

open Lib

/-- `jwk`. -/
structure Jwk where
  kty : String
  kid : String
  n : String
  e : String
  deriving DecidableEq

/-- `rsa.PublicKey`; the exponent is an `int`. -/
structure PublicKey where
  n : ℕ
  e : BitVec 64
  deriving DecidableEq

/-- The blanks of JSON. -/
def isBlank (b : UInt8) : Bool := [32, 9, 10, 13].contains b

/-- `json.Unmarshal` into a `jwks`: the keys or the text of the error. Blanks
after a text make no difference, and a text without its last other byte is
cut short. -/
structure Json where
  unmarshal : List UInt8 → Except String (List Jwk)
  blank : ∀ {text rest keys}, unmarshal (text ++ rest) = .ok keys → rest.all isBlank = true →
    unmarshal text = .ok keys
  cut : ∀ {text rest keys}, unmarshal (text ++ rest) = .ok keys → rest.all isBlank = false →
    ∃ err, unmarshal text = .error err

/-- The errors of `parseJWKS`; what `b64urlDecode` says depends on its
text. -/
inductive JwksError
  | json (err : String)
  | base64 (text : String)
  | badExponent (kid : String)
  | noKeys
  deriving DecidableEq

/-- `big.Int.SetBytes`. -/
def setBytes (b : List UInt8) : ℕ := b.foldl (fun acc x => acc * 256 + x.toNat) 0

/-- The exponent, the most significant byte first. -/
def exponent (b : List UInt8) : BitVec 64 :=
  b.foldl (fun e x => e <<< 8 ||| BitVec.ofNat 64 x.toNat) 0

/-- `b64urlDecode`. -/
def b64urlDecode (s : String) : Except JwksError (List UInt8) :=
  match Base64.rawURL.decode s.toList with
  | none => .error (.base64 s)
  | some b => .ok b

/-- One pass of the loop of `parseJWKS`. -/
def addKey (out : GoMap String PublicKey) (k : Jwk) : Except JwksError (GoMap String PublicKey) :=
  if k.kty ≠ "RSA" then .ok out
  else
    match b64urlDecode k.n with
    | .error err => .error err
    | .ok nb =>
      match b64urlDecode k.e with
      | .error err => .error err
      | .ok eb =>
        if exponent eb = 0 then .error (.badExponent k.kid)
        else .ok (out.insert k.kid ⟨setBytes nb, exponent eb⟩)

variable (J : Json)

/-- `parseJWKS`. -/
def parseJWKS (data : List UInt8) : Except JwksError (GoMap String PublicKey) :=
  match J.unmarshal data with
  | .error err => .error (.json err)
  | .ok keys =>
    match keys.foldlM addKey ∅ with
    | .error err => .error err
    | .ok out => if out.entries.length = 0 then .error .noKeys else .ok out

/-- `Verifier`: the key set, and where it is fetched. -/
structure Verifier where
  keys : GoMap String PublicKey
  jwksURL : String

/-- What comes of the request. -/
inductive Fetch
  | failed
  | response (status : ℕ) (body : Stream UInt8)

/-- The errors of `refresh`. -/
inductive RefreshError
  | transport
  | status (code : ℕ)
  | jwks (err : JwksError)
  deriving DecidableEq

/-- The key set becomes what `parseJWKS` makes of a document, or its error is
returned. -/
def install (v : Verifier) (data : List UInt8) : Verifier × Option RefreshError :=
  match parseJWKS J data with
  | .error err => (v, some (.jwks err))
  | .ok keys => ({ v with keys }, none)

/-- `refresh`. The error of `Read` is dropped. -/
def refresh (v : Verifier) : Fetch → Verifier × Option RefreshError
  | .failed => (v, some .transport)
  | .response status body =>
    if status ≠ 200 then (v, some (.status status))
    else install J v (body.read (1 <<< 20)).1

/-- The errors of `keyFor`. -/
inductive KeyError
  | unknown (kid : String)
  | notInJWKS (kid : String)
  | refresh (err : RefreshError)
  deriving DecidableEq

variable {J} {v : Verifier}

/-- A failed refresh leaves the key set as it was. -/
theorem install_error {data : List UInt8} {err : RefreshError} (h : (install J v data).2 = some err) :
    (install J v data).1 = v := by
  unfold install at h ⊢
  cases hp : parseJWKS J data with
  | error e => rfl
  | ok keys => simp [hp] at h

theorem refresh_response (status : ℕ) (body : Stream UInt8) : refresh J v (.response status body) =
    if status ≠ 200 then (v, some (.status status)) else install J v (body.read (1 <<< 20)).1 := rfl

theorem refresh_error {f : Fetch} {err : RefreshError} (h : (refresh J v f).2 = some err) :
    (refresh J v f).1 = v := by
  cases f with
  | failed => rfl
  | response status body =>
    rw [refresh_response] at h ⊢
    split_ifs at h ⊢
    · rfl
    · exact install_error h

theorem b64urlDecode_ne_json {t : String} {err : JwksError} (h : b64urlDecode t = .error err)
    (e : String) : err ≠ .json e := by
  unfold b64urlDecode at h
  split at h <;> cases h
  simp

theorem addKey_ne_json {out : GoMap String PublicKey} {k : Jwk} {err : JwksError}
    (h : addKey out k = .error err) (e : String) : err ≠ .json e := by
  unfold addKey at h
  split_ifs at h
  split at h
  · rename_i hn
    cases h
    exact b64urlDecode_ne_json hn e
  · split at h
    · rename_i he
      cases h
      exact b64urlDecode_ne_json he e
    · split_ifs at h
      cases h
      simp

theorem addKeys_ne_json : ∀ {keys : List Jwk} {out : GoMap String PublicKey} {err : JwksError},
    keys.foldlM addKey out = .error err → ∀ e, err ≠ .json e
  | [], _, _, h, _ => by cases h
  | k :: keys, out, err, h, e => by
    rw [List.foldlM_cons] at h
    cases hk : addKey out k with
    | error err' =>
      rw [hk] at h
      cases h
      exact addKey_ne_json hk e
    | ok out' =>
      rw [hk] at h
      exact addKeys_ne_json h e

/-- A document that decodes is parsed to an error of its own, or to keys. -/
theorem parseJWKS_ne_json {data : List UInt8} {keys : List Jwk}
    (h : J.unmarshal data = .ok keys) (e : String) : parseJWKS J data ≠ .error (.json e) := by
  simp only [parseJWKS, h]
  cases hl : keys.foldlM addKey ∅ with
  | error err =>
    simp only [ne_eq, Except.error.injEq]
    exact addKeys_ne_json hl e
  | ok out =>
    dsimp only
    split_ifs <;> simp

/-- What is installed says which error `parseJWKS` returned, if any. -/
theorem parseJWKS_of_install {data data' : List UInt8} {err : JwksError}
    (h : install J v data = install J v data') (herr : parseJWKS J data = .error err) :
    parseJWKS J data' = .error err := by
  unfold install at h
  rw [herr] at h
  cases hp : parseJWKS J data' with
  | error e =>
    simp only [hp, Prod.mk.injEq, Option.some.injEq, RefreshError.jwks.injEq, true_and] at h
    rw [h]
  | ok keys => simp [hp] at h

/-- **Refreshing the key set.** If the first `Read` returns the whole
document, `refresh` installs what `parseJWKS` makes of the document, or
returns its error. If the document decodes, `refresh` does so exactly if the
first `Read` leaves nothing but blanks behind. An error of any kind leaves the
key set as it was. -/
theorem refresh_whole (J : Json) (v : Verifier) (body : Stream UInt8) :
    ((body.read (1 <<< 20)).2.bytes = [] →
      refresh J v (.response 200 body) = install J v body.bytes) ∧
    (∀ keys, J.unmarshal body.bytes = .ok keys →
      (refresh J v (.response 200 body) = install J v body.bytes ↔
        (body.read (1 <<< 20)).2.bytes.all isBlank = true)) ∧
    ∀ f err, (refresh J v f).2 = some err → (refresh J v f).1 = v := by
  have hbytes := body.read_append (1 <<< 20)
  have hrefresh : refresh J v (.response 200 body) = install J v (body.read (1 <<< 20)).1 := rfl
  refine ⟨fun hrest => ?_, fun keys hkeys => ?_, fun f err => refresh_error⟩
  · rw [hrest, List.append_nil] at hbytes
    rw [hrefresh, hbytes]
  · rw [hrefresh]
    have hdoc : J.unmarshal ((body.read (1 <<< 20)).1 ++ (body.read (1 <<< 20)).2.bytes) = .ok keys := by
      rw [hbytes, hkeys]
    constructor
    · intro h
      by_contra hcut
      obtain ⟨err, herr⟩ := J.cut hdoc (Bool.eq_false_of_not_eq_true hcut)
      have hparse : parseJWKS J (body.read (1 <<< 20)).1 = .error (.json err) := by
        rw [parseJWKS, herr]
      exact parseJWKS_ne_json hkeys err (parseJWKS_of_install h hparse)
    · intro hblank
      rw [install, install, parseJWKS, parseJWKS, J.blank hdoc hblank, hkeys]

/-! ### A document in two pieces -/

theorem rdropWhile_append (text rest : List UInt8) : (text ++ rest).rdropWhile isBlank =
    if rest.all isBlank then text.rdropWhile isBlank else text ++ rest.rdropWhile isBlank := by
  have hempty : (rest.reverse.dropWhile isBlank).isEmpty = rest.all isBlank := by
    rw [Bool.eq_iff_iff, List.isEmpty_iff, List.dropWhile_eq_nil_iff]
    simp
  simp only [List.rdropWhile, List.reverse_append, List.dropWhile_append, hempty]
  split_ifs
  · rfl
  · rw [List.reverse_append, List.reverse_reverse]

/-- A decoder that knows one document. -/
def Json.only (doc : List UInt8) (keys : List Jwk) : Json where
  unmarshal text :=
    if text.rdropWhile isBlank = doc then .ok keys else .error "unexpected end of JSON input"
  blank {text rest ks} h hrest := by
    rwa [rdropWhile_append, if_pos hrest] at h
  cut {text rest ks} h hrest := by
    rw [rdropWhile_append, if_neg (Bool.eq_false_iff.mp hrest)] at h
    refine ⟨_, if_neg fun htext => ?_⟩
    split_ifs at h with hdoc
    -- the document is longer than what is left of it
    have hlen := ( List.rdropWhile_prefix isBlank text).length_le
    rw [htext, ← hdoc, List.length_append] at hlen
    have hnil : rest.rdropWhile isBlank = [] := List.length_eq_zero_iff.mp (by omega)
    rw [List.rdropWhile_eq_nil_iff] at hnil
    exact absurd (List.all_eq_true.mpr hnil) (Bool.eq_false_iff.mp hrest)

/-- A document with one key. -/
def docText : List UInt8 :=
  "\x7b\"keys\":[\x7b\"kty\":\"RSA\",\"kid\":\"1\",\"n\":\"sQ\",\"e\":\"AQAB\"\x7d]\x7d".toUTF8.toList

def docKeys : List Jwk := [⟨"RSA", "1", "sQ", "AQAB"⟩]

def Json.doc : Json := .only docText docKeys

theorem refresh_whole_doc :
    ((⟨[docText], .eof⟩ : Stream UInt8).read (1 <<< 20)).2.bytes = [] ∧
      refresh Json.doc ⟨∅, "jwks"⟩ (.response 200 ⟨[docText], .eof⟩) =
        install Json.doc ⟨∅, "jwks"⟩ (⟨[docText], .eof⟩ : Stream UInt8).bytes := by
  have hread : ((⟨[docText], .eof⟩ : Stream UInt8).read (1 <<< 20)).2.bytes = [] := by decide +kernel
  exact ⟨hread, (refresh_whole Json.doc _ _).1 hread⟩

/-- The document arrives in two pieces. `refresh` returns an error of the
decoder and installs nothing; the document has a key. -/
theorem split_document_fails :
    let body : Stream UInt8 := ⟨[docText.take 20, docText.drop 20], .eof⟩
    body.bytes = docText ∧
      (refresh Json.doc ⟨∅, "jwks"⟩ (.response 200 body)).2 =
        some (.jwks (.json "unexpected end of JSON input")) ∧
      (refresh Json.doc ⟨∅, "jwks"⟩ (.response 200 body)).1.keys.lookup "1" = none ∧
      (parseJWKS Json.doc docText).map (·.lookup "1") = .ok (some ⟨177, 65537⟩) := by
  decide +kernel

end Oidc
end Revquic
