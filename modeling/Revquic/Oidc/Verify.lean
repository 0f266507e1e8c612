/-
# ID tokens (`internal/oidc`)

`Verify` takes a token apart at its dots, reads the header for the key to
use, checks the signature over the first two parts and reads the claims. It
is cut in two here where it waits for `keyFor`: `readToken` before, `check`
behind. A token is given by two JSON values and a signature (`compact`); a
provider may write the values with blanks between their parts, and `Reads`
says what a part of a token is read as.

The errors of the standard library, its `%q`, the check of an RSA signature
and the conversion of a JSON number to an `int64` are parameters.

Key definitions: `readToken`, `check`, `compact`, `Reads`.
Key theorems: `readToken_compact`, `check_signed`.
-/
import Revquic.Lib.JsonTree
import Revquic.Oidc

namespace Revquic
namespace Oidc

open Lib

/-! ### Claims -/

/-- `Claims`. -/
structure Claims where
  subject : String := ""
  email : String := ""
  issuer : String := ""
  audience : List String := []
  expiry : ℤ := 0
  deriving DecidableEq

/-- `Identity`. -/
def Claims.identity (c : Claims) : String := if c.email ≠ "" then c.email else c.subject

/-- `jsonStr`, its error dropped: only a string sets the field. -/
def jsonStr : Option Json.Tree → String
  | some (.str s) => s
  | _ => ""

/-- An element of a `[]string`; what is no string leaves it empty. -/
def element : Json.Tree → String
  | .str s => s
  | _ => ""

/-- `parseAud`. `null` is a string that is left empty. -/
def parseAud : Option Json.Tree → List String
  | some (.str s) => [s]
  | some .null => [""]
  | some (.arr ts) => ts.map element
  | _ => []

/-- `parseExp`: a number becomes a float and then an `int64`. -/
def parseExp (int64 : Json.Number → ℤ) : Option Json.Tree → ℤ
  | some (.num n) => int64 n
  | _ => 0

/-- The claims of a payload: a map of raw members, of which the last under a
name counts. -/
def claims (int64 : Json.Number → ℤ) (ms : List (String × Json.Tree)) : Claims where
  issuer := jsonStr (Json.field ms "iss")
  subject := jsonStr (Json.field ms "sub")
  email := jsonStr (Json.field ms "email")
  audience := parseAud (Json.field ms "aud")
  expiry := parseExp int64 (Json.field ms "exp")

/-- The members of a payload; `null` is a map without members. -/
def payloadMembers : Json.Tree → Option (List (String × Json.Tree))
  | .obj ms => some ms
  | .null => some []
  | _ => none

/-! ### The header -/

/-- `encoding/json` compares the names of fields by this: letters without
case, the Kelvin sign as a K and the long s as an S. -/
def foldChar (c : Char) : Char :=
  if c = Char.ofNat 0x212A then 'K' else if c = Char.ofNat 0x17F then 'S' else c.toUpper

def sameName (key name : String) : Bool := key.toList.map foldChar = name.toList.map foldChar

/-- A string field is set by a string and left as it is by `null`. -/
def setString (old : String) : Json.Tree → Option String
  | .str s => some s
  | .null => some old
  | _ => none

structure Header where
  alg : String := ""
  kid : String := ""
  deriving DecidableEq

/-- One member of the header. -/
def Header.set (h : Header) (m : String × Json.Tree) : Option Header :=
  if sameName m.1 "alg" then (setString h.alg m.2).map fun alg => { h with alg }
  else if sameName m.1 "kid" then (setString h.kid m.2).map fun kid => { h with kid }
  else some h

/-- `json.Unmarshal` into the header. -/
def Header.ofTree : Json.Tree → Option Header
  | .obj ms => ms.foldlM Header.set {}
  | .null => some {}
  | _ => none

/-! ### Errors -/

/-- The errors of `Verify`. -/
inductive VerifyError
  | malformed
  | base64 (text : List Char)
  | json (data : List UInt8)
  | alg (alg : String)
  | key (err : KeyError)
  | signature
  | issuer (got want : String)
  | audience (got : List String) (want : String)
  | expired
  deriving DecidableEq

/-- What the standard library says. -/
structure Texts where
  quoted : String → String
  base64 : List Char → String
  json : List UInt8 → String
  http : String
  rsa : String

section
variable (T : Texts)

def JwksError.text : JwksError → String
  | .json err => err
  | .base64 text => T.base64 text.toList
  | .badExponent kid => "oidc: bad RSA exponent for kid " ++ T.quoted kid
  | .noKeys => "oidc: no RSA keys in JWKS"

def RefreshError.text : RefreshError → String
  | .transport => T.http
  | .status code => "oidc: JWKS fetch status " ++ toString code
  | .jwks err => err.text T

def KeyError.text : KeyError → String
  | .unknown kid => "oidc: unknown key id " ++ T.quoted kid
  | .notInJWKS kid => "oidc: key id " ++ T.quoted kid ++ " not in JWKS"
  | .refresh err => err.text T

def VerifyError.text : VerifyError → String
  | .malformed => "oidc: malformed token"
  | .base64 text => T.base64 text
  | .json data => T.json data
  | .alg a => "oidc: unsupported alg " ++ T.quoted a ++ " (want RS256)"
  | .key err => err.text T
  | .signature => "oidc: signature invalid: " ++ T.rsa
  | .issuer got want => "oidc: issuer " ++ T.quoted got ++ " != " ++ T.quoted want
  | .audience got want =>
    "oidc: audience [" ++ " ".intercalate got ++ "] missing " ++ T.quoted want
  | .expired => "oidc: token expired"

end

/-! ### `Verify` -/

/-- The parts of a token. -/
structure Parts where
  header : List Char
  payload : List Char
  sig : List Char
  deriving DecidableEq

/-- What is signed. -/
def Parts.signingInput (p : Parts) : List Char := p.header ++ '.' :: p.payload

/-- `b64urlDecode` of a part. -/
def decodePart (text : List Char) : Except VerifyError (List UInt8) :=
  match Base64.rawURL.decode text with
  | none => .error (.base64 text)
  | some b => .ok b

/-- The header of a token. -/
def readHeader (p : Parts) : Except VerifyError Header :=
  match decodePart p.header with
  | .error err => .error err
  | .ok data =>
    match (Json.readDocument data).bind Header.ofTree with
    | none => .error (.json data)
    | some hdr => if hdr.alg ≠ "RS256" then .error (.alg hdr.alg) else .ok hdr

/-- `Verify` up to `keyFor`. -/
def readToken (raw : String) : Except VerifyError (Parts × Header) :=
  match raw.toList.splitOn '.' with
  | [header, payload, sig] => (readHeader ⟨header, payload, sig⟩).map (⟨header, payload, sig⟩, ·)
  | _ => .error .malformed

/-- The settings of a `Verifier`, and what it uses of the standard library:
`rsa` is `VerifyPKCS1v15` over the SHA-256 sum of a text. -/
structure Settings where
  issuer : String
  audience : String
  jwksURL : String := ""
  rsa : PublicKey → List Char → List UInt8 → Bool
  int64 : Json.Number → ℤ

/-- What the claims are checked for. -/
def checkClaims (v : Settings) (now : ℤ) (c : Claims) : Except VerifyError Claims :=
  if c.issuer ≠ v.issuer then .error (.issuer c.issuer v.issuer)
  else if v.audience ≠ "" ∧ v.audience ∉ c.audience then .error (.audience c.audience v.audience)
  else if c.expiry = 0 ∨ c.expiry ≤ now then .error .expired
  else .ok c

/-- The claims of a token. -/
def readClaims (v : Settings) (p : Parts) : Except VerifyError Claims :=
  match decodePart p.payload with
  | .error err => .error err
  | .ok data =>
    match (Json.readDocument data).bind payloadMembers with
    | none => .error (.json data)
    | some ms => .ok (claims v.int64 ms)

/-- `Verify` behind `keyFor`, at the Unix time `now`. -/
def check (v : Settings) (now : ℤ) (key : PublicKey) (p : Parts) : Except VerifyError Claims :=
  match decodePart p.sig with
  | .error err => .error err
  | .ok sig =>
    if v.rsa key p.signingInput sig = false then .error .signature
    else
      match readClaims v p with
      | .error err => .error err
      | .ok c => checkClaims v now c

/-! ### What a provider writes -/

/-- A part of a token. -/
def encodePart (t : Json.Tree) : List Char := Base64.rawURL.encode t.text

/-- What a provider signs. -/
def signed (header payload : Json.Tree) : List Char :=
  encodePart header ++ '.' :: encodePart payload

/-- A token. -/
def compact (header payload : Json.Tree) (sig : List UInt8) : String :=
  String.ofList (signed header payload ++ '.' :: Base64.rawURL.encode sig)

theorem decodePart_encode (bytes : List UInt8) :
    decodePart (Base64.rawURL.encode bytes) = .ok bytes := by
  rw [decodePart, Base64.decode_encode]

theorem dot_notMem_encode (bytes : List UInt8) : '.' ∉ Base64.rawURL.encode bytes := by
  intro h
  have hmem := Base64.rawURL.mem_encode h
  revert hmem
  decide

/-- A text without a dot is one part. -/
theorem splitOn_encode (bytes : List UInt8) :
    (Base64.rawURL.encode bytes).splitOn '.' = [Base64.rawURL.encode bytes] := by
  have hdot : ∀ l ∈ [Base64.rawURL.encode bytes], '.' ∉ l := by
    simpa using dot_notMem_encode bytes
  have h := List.splitOn_intercalate '.' hdot (List.cons_ne_nil _ _)
  rwa [List.intercalate_singleton] at h

/-- The parts of a text whose signed part is a token's. -/
theorem splitOn_signed (header payload : Json.Tree) (rest : List Char) :
    (signed header payload ++ '.' :: rest).splitOn '.' =
      encodePart header :: encodePart payload :: rest.splitOn '.' := by
  rw [List.splitOn_append_cons_self, signed, List.splitOn_append_cons_self, encodePart, encodePart,
    splitOn_encode, splitOn_encode]
  rfl

/-- A part of a token that is read as `t`. -/
def Reads (part : List Char) (t : Json.Tree) : Prop :=
  ∃ data, decodePart part = .ok data ∧ Json.readDocument data = some t

theorem reads_encode (t : Json.Tree) : Reads (encodePart t) t :=
  ⟨t.text, decodePart_encode _, Json.readDocument_text t⟩

theorem readHeader_of_reads {p : Parts} {header : Json.Tree} {hdr : Header} (h : Reads p.header header)
    (hhdr : Header.ofTree header = some hdr) (halg : hdr.alg = "RS256") : readHeader p = .ok hdr := by
  obtain ⟨data, hdata, hread⟩ := h
  rw [readHeader, hdata]
  dsimp only
  rw [hread, Option.bind_some, hhdr]
  exact if_neg (not_not.mpr halg)

/-- The claims of a payload. -/
theorem readClaims_ok_iff {v : Settings} {p : Parts} {payload : Json.Tree} {c : Claims}
    (h : Reads p.payload payload) :
    readClaims v p = .ok c ↔ ∃ ms, payloadMembers payload = some ms ∧ claims v.int64 ms = c := by
  obtain ⟨data, hdata, hread⟩ := h
  rw [readClaims, hdata]
  dsimp only
  rw [hread, Option.bind_some]
  cases payloadMembers payload <;> simp

theorem checkClaims_ok {v : Settings} {now : ℤ} {c c' : Claims} (h : checkClaims v now c = .ok c') :
    c' = c ∧ c.issuer = v.issuer ∧ (v.audience = "" ∨ v.audience ∈ c.audience) ∧
      c.expiry ≠ 0 ∧ now < c.expiry := by
  unfold checkClaims at h
  split_ifs at h with hiss haud hexp
  cases h
  push Not at hiss hexp
  refine ⟨rfl, hiss, ?_, hexp⟩
  by_cases hempty : v.audience = ""
  · exact Or.inl hempty
  · exact Or.inr (not_not.mp fun hmem => haud ⟨hempty, hmem⟩)

theorem check_ok {v : Settings} {now : ℤ} {key : PublicKey} {p : Parts} {c : Claims}
    (h : check v now key p = .ok c) :
    (∃ sig, decodePart p.sig = .ok sig ∧ v.rsa key p.signingInput sig = true) ∧
      readClaims v p = .ok c ∧ checkClaims v now c = .ok c := by
  unfold check at h
  cases hsig : decodePart p.sig with
  | error err => simp [hsig] at h
  | ok sig =>
    simp only [hsig] at h
    split_ifs at h with hrsa
    rw [Bool.not_eq_false] at hrsa
    cases hc : readClaims v p with
    | error err => simp [hc] at h
    | ok c' =>
      simp only [hc] at h
      obtain ⟨rfl, -⟩ := checkClaims_ok h
      exact ⟨⟨sig, rfl, hrsa⟩, rfl, h⟩

/-- A token of a provider is read as the provider wrote it. -/
theorem readToken_compact (header payload : Json.Tree) (sig : List UInt8) {hdr : Header}
    (h : Header.ofTree header = some hdr) (halg : hdr.alg = "RS256") :
    readToken (compact header payload sig) =
      .ok (⟨encodePart header, encodePart payload, Base64.rawURL.encode sig⟩, hdr) := by
  rw [readToken, compact, String.toList_ofList, splitOn_signed, splitOn_encode]
  dsimp only
  rw [readHeader_of_reads (reads_encode header) h halg]
  rfl

/-- What bears a good signature is judged by its claims alone. -/
theorem check_signed {v : Settings} {key : PublicKey} {p : Parts} {sig : List UInt8} {c : Claims}
    (hsig : decodePart p.sig = .ok sig) (hrsa : v.rsa key p.signingInput sig = true)
    (hc : readClaims v p = .ok c) (now : ℤ) : check v now key p = checkClaims v now c := by
  rw [check, hsig]
  dsimp only
  rw [hrsa, if_neg (by decide), hc]

end Oidc
end Revquic
