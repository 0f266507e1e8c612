/-
# Logging in with an ID token

The broker with `-oidc-issuer`: `handleClient` calls `Verify` with the token
of the client and asks the user store for the identity it returns. Many calls
run at once and share the key set. A call looks its key up, and if the set
does not have it, fetches the document of the provider, replaces the whole
set and looks again; other calls do the same in between, and the provider
changes its keys and issues tokens at any time. The document may arrive cut.
Still a session is in the name of somebody for whom the provider has issued a
token to this broker, as long as nobody forges signatures.

Key definitions: `step`, `machine`, `Stepped`, `Genuine`, `LetIn`.
Key theorem: `session_issued`.
-/
import Revquic.Broker.Admission
import Revquic.Broker.Ownership
import Revquic.Oidc.Verify

namespace Revquic
namespace Oidc

open Lib
open Broker (Conn Out Admits passed)

/-! ### The system -/

/-- The broker's configuration, with the document served or read at the
start. The broker's clock starts at `epoch`, in nanoseconds. -/
structure Config where
  broker : Broker.Config
  oidc : Settings
  json : Json
  texts : Texts
  doc : List UInt8
  epoch : ℤ := 0

/-- Where a call of `Verify` stands: before it, in `refresh` before and behind
the response, before the second look, behind `keyFor`, and at its end. -/
inductive Call
  | idle
  | fetch (p : Parts) (hdr : Header)
  | install (p : Parts) (hdr : Header) (keys : GoMap String PublicKey)
  | look (p : Parts) (hdr : Header)
  | check (p : Parts) (hdr : Header) (key : PublicKey)
  | done (r : Except VerifyError Claims)

/-- The broker, the key set, the calls, and of the provider its document and
what it has signed. -/
structure State where
  broker : Broker.State
  keys : GoMap String PublicKey
  call : Conn → Call
  doc : List UInt8
  issued : List (Json.Tree × Json.Tree)

inductive Action
  | broker (a : Broker.Action)
  | publish (doc : List UInt8)
  | issue (header payload : Json.Tree)
  | verify (c : Conn)
  | fetch (c : Conn) (f : Fetch)
  | install (c : Conn)
  | look (c : Conn)
  | check (c : Conn)
  | auth (c : Conn) (i : Broker.Input)

/-- The keys at the start: `NewURLVerifier` has none, and without those of
`NewStaticVerifier` the broker does not start. -/
def newKeys (cfg : Config) : GoMap String PublicKey :=
  if cfg.oidc.jwksURL ≠ "" then ∅ else ((parseJWKS cfg.json cfg.doc).toOption).getD ∅

/-- `refresh` up to the lock. -/
def fetchKeys (J : Json) : Fetch → Except RefreshError (GoMap String PublicKey)
  | .failed => .error .transport
  | .response status body =>
    if status ≠ 200 then .error (.status status)
    else (parseJWKS J (body.read (1 <<< 20)).1).mapError .jwks

/-- The response is the document, or as much of it as arrives. -/
def Served (doc : List UInt8) : Fetch → Prop
  | .failed => True
  | .response status body => status = 200 → body.bytes <+: doc

instance (doc : List UInt8) : (f : Fetch) → Decidable (Served doc f)
  | .failed => inferInstanceAs (Decidable True)
  | .response status body => inferInstanceAs (Decidable (status = 200 → body.bytes <+: doc))

/-- `time.Now().Unix()`. -/
def unix (cfg : Config) (s : State) : ℤ := (cfg.epoch + s.broker.now) / 1000000000

/-- `Verify` up to the first look. -/
def begin (cfg : Config) (keys : GoMap String PublicKey) (raw : String) : Call :=
  match readToken raw with
  | .error err => .done (.error err)
  | .ok (p, hdr) =>
    match keys.lookup hdr.kid with
    | some key => .check p hdr key
    | none =>
      if cfg.oidc.jwksURL = "" then .done (.error (.key (.unknown hdr.kid))) else .fetch p hdr

/-- The call behind the response. -/
def fetched (J : Json) (p : Parts) (hdr : Header) (f : Fetch) : Call :=
  match fetchKeys J f with
  | .error err => .done (.error (.key (.refresh err)))
  | .ok keys => .install p hdr keys

/-- The second look. -/
def lookAgain (keys : GoMap String PublicKey) (p : Parts) (hdr : Header) : Call :=
  match keys.lookup hdr.kid with
  | some key => .check p hdr key
  | none => .done (.error (.key (.notInJWKS hdr.kid)))

/-- What `handleClient` gets from `Verify`. -/
def answer (T : Texts) (r : Except VerifyError Claims) : Except String String :=
  (r.map Claims.identity).mapError (·.text T)

/-- A new goroutine has called nothing yet. -/
def started (call : Conn → Call) : Broker.Action → Conn → Call
  | .connect c _ => Function.update call c .idle
  | _ => call

/-- The goroutine is in `Verify`; its steps are not the broker's. -/
def inVerify (b : Broker.State) : Broker.Action → Prop
  | .client c _ => (b.client c).pc = .auth
  | _ => False

instance (b : Broker.State) : (a : Broker.Action) → Decidable (inVerify b a)
  | .client c _ => inferInstanceAs (Decidable ((b.client c).pc = .auth))
  | .tick _ | .users _ | .connect _ _ | .drop _ _ | .clientCtrl _ _ _ | .register _ _ | .exit _ _
  | .exitCtrl _ _ _ | .exitGone _ | .datagram _ _ | .fire _ | .timer _ _ =>
    inferInstanceAs (Decidable False)

def State.setCall (s : State) (c : Conn) (k : Call) : State :=
  { s with call := Function.update s.call c k }

def step (cfg : Config) (s : State) : Action → Option (State × List Out)
  | .broker a =>
    if inVerify s.broker a then none
    else (Broker.step cfg.broker s.broker a).map fun r =>
      ({ s with broker := r.1, call := started s.call a }, r.2)
  | .publish doc => some ({ s with doc }, [])
  | .issue header payload => some ({ s with issued := (header, payload) :: s.issued }, [])
  | .verify c =>
    match (s.broker.client c).pc, s.call c with
    | .auth, .idle => some (s.setCall c (begin cfg s.keys (s.broker.client c).msg.token), [])
    | _, _ => none
  | .fetch c f =>
    match s.call c with
    | .fetch p hdr =>
      if Served s.doc f then some (s.setCall c (fetched cfg.json p hdr f), []) else none
    | _ => none
  | .install c =>
    match s.call c with
    | .install p hdr keys => some ({ s with keys }.setCall c (.look p hdr), [])
    | _ => none
  | .look c =>
    match s.call c with
    | .look p hdr => some (s.setCall c (lookAgain s.keys p hdr), [])
    | _ => none
  | .check c =>
    match s.call c with
    | .check p _ key => some (s.setCall c (.done (Oidc.check cfg.oidc (unix cfg s) key p)), [])
    | _ => none
  | .auth c i =>
    match (s.broker.client c).pc, s.call c with
    | .auth, .done r =>
      (Broker.step cfg.broker s.broker (.client c { i with oidc := answer cfg.texts r })).map
        fun r => ({ s with broker := r.1 }, r.2)
    | _, _ => none

/-- The system, started with a user store. -/
def machine (cfg : Config) (users : Userstore.Table) : Machine State Action Out where
  init :=
    { broker := Broker.newBroker users, keys := newKeys cfg, call := fun _ => .idle
      doc := cfg.doc, issued := [] }
  step := step cfg

/-! ### What a step can do -/

section
variable {cfg : Config} {users : Userstore.Table} {s s' : State} {a : Action} {o : List Out}
  {tr : List (Event State Action Out)}

inductive Stepped (cfg : Config) (s : State) : Action → State → List Out → Prop
  | broker (a : Broker.Action) (b' : Broker.State) (o : List Out) (other : ¬ inVerify s.broker a)
      (step : Broker.step cfg.broker s.broker a = some (b', o)) :
      Stepped cfg s (.broker a) { s with broker := b', call := started s.call a } o
  | publish (doc : List UInt8) : Stepped cfg s (.publish doc) { s with doc } []
  | issue (header payload : Json.Tree) :
      Stepped cfg s (.issue header payload) { s with issued := (header, payload) :: s.issued } []
  | verify (c : Conn) (pc : (s.broker.client c).pc = .auth) (call : s.call c = .idle) :
      Stepped cfg s (.verify c)
        (s.setCall c (begin cfg s.keys (s.broker.client c).msg.token)) []
  | fetch (c : Conn) (p : Parts) (hdr : Header) (f : Fetch) (call : s.call c = .fetch p hdr)
      (served : Served s.doc f) :
      Stepped cfg s (.fetch c f) (s.setCall c (fetched cfg.json p hdr f)) []
  | install (c : Conn) (p : Parts) (hdr : Header) (keys : GoMap String PublicKey)
      (call : s.call c = .install p hdr keys) :
      Stepped cfg s (.install c) ({ s with keys }.setCall c (.look p hdr)) []
  | look (c : Conn) (p : Parts) (hdr : Header) (call : s.call c = .look p hdr) :
      Stepped cfg s (.look c) (s.setCall c (lookAgain s.keys p hdr)) []
  | check (c : Conn) (p : Parts) (hdr : Header) (key : PublicKey) (call : s.call c = .check p hdr key) :
      Stepped cfg s (.check c)
        (s.setCall c (.done (Oidc.check cfg.oidc (unix cfg s) key p))) []
  | auth (c : Conn) (i : Broker.Input) (r : Except VerifyError Claims) (b' : Broker.State)
      (o : List Out) (pc : (s.broker.client c).pc = .auth) (call : s.call c = .done r)
      (step : Broker.step cfg.broker s.broker
        (.client c { i with oidc := answer cfg.texts r }) = some (b', o)) :
      Stepped cfg s (.auth c i) { s with broker := b' } o

theorem stepped_of_step (hs : step cfg s a = some (s', o)) : Stepped cfg s a s' o := by
  cases a with
  | broker a =>
    simp only [step] at hs
    split_ifs at hs with hv
    obtain ⟨⟨b', o'⟩, hb, heq⟩ := Option.map_eq_some_iff.mp hs
    cases heq
    exact .broker a b' o' hv hb
  | publish doc => cases hs; exact .publish doc
  | issue header payload => cases hs; exact .issue header payload
  | verify c =>
    simp only [step] at hs
    split at hs
    · rename_i hpc hc
      cases hs
      exact .verify c hpc hc
    · cases hs
  | fetch c f =>
    simp only [step] at hs
    split at hs
    · rename_i p hdr hc
      split_ifs at hs with hf
      cases hs
      exact .fetch c p hdr f hc hf
    · cases hs
  | install c =>
    simp only [step] at hs
    split at hs
    · rename_i p hdr keys hc
      cases hs
      exact .install c p hdr keys hc
    · cases hs
  | look c =>
    simp only [step] at hs
    split at hs
    · rename_i p hdr hc
      cases hs
      exact .look c p hdr hc
    · cases hs
  | check c =>
    simp only [step] at hs
    split at hs
    · rename_i p hdr key hc
      cases hs
      exact .check c p hdr key hc
    · cases hs
  | auth c i =>
    simp only [step] at hs
    split at hs
    · rename_i r hpc hc
      obtain ⟨⟨b', o'⟩, hb, heq⟩ := Option.map_eq_some_iff.mp hs
      cases heq
      exact .auth c i r b' o' hpc hc hb
    · cases hs

/-- The broker's part of a run is a run of the broker. -/
theorem broker_run (h : (machine cfg users).Run tr s) :
    ∃ tr', (Broker.machine cfg.broker users).Run tr' s.broker := by
  refine h.image (f := State.broker) rfl fun hs => ?_
  cases stepped_of_step hs with
  | broker a b' o other hb => exact Or.inr ⟨a, _, hb⟩
  | auth c i r b' o pc call hb => exact Or.inr ⟨.client c _, _, hb⟩
  | _ => exact Or.inl rfl

/-! ### The documents of the provider -/

/-- The provider has served this document. -/
def HasServed (cfg : Config) (tr : List (Event State Action Out)) (doc : List UInt8) : Prop :=
  doc = cfg.doc ∨ ∃ e ∈ tr, e.act = .publish doc

/-- A document of the provider has this key. -/
def Published (cfg : Config) (tr : List (Event State Action Out)) (kid : String) (key : PublicKey) :
    Prop :=
  ∃ doc keys, HasServed cfg tr doc ∧ parseJWKS cfg.json doc = .ok keys ∧ keys.lookup kid = some key

theorem HasServed.append {doc : List UInt8} (h : HasServed cfg tr doc)
    (tr' : List (Event State Action Out)) : HasServed cfg (tr ++ tr') doc :=
  h.imp_right fun ⟨e, he, hact⟩ => ⟨e, List.mem_append_left _ he, hact⟩

theorem Published.append {kid : String} {key : PublicKey} (h : Published cfg tr kid key)
    (tr' : List (Event State Action Out)) : Published cfg (tr ++ tr') kid key := by
  obtain ⟨doc, keys, hdoc, hkeys⟩ := h
  exact ⟨doc, keys, hdoc.append tr', hkeys⟩

theorem hasServed_doc (h : (machine cfg users).Run tr s) : HasServed cfg tr s.doc := by
  induction h with
  | nil => exact Or.inl rfl
  | snoc hr hs ih =>
    cases stepped_of_step hs with
    | publish doc => exact Or.inr ⟨_, List.mem_append_right _ (List.mem_singleton_self _), rfl⟩
    | _ => exact ih.append _

/-- A part of a document that decodes is read as the document or not at
all. -/
theorem parseJWKS_part {J : Json} {doc text : List UInt8} {ks : List Jwk}
    {keys : GoMap String PublicKey} (hdoc : J.unmarshal doc = .ok ks) (htext : text <+: doc)
    (h : parseJWKS J text = .ok keys) : parseJWKS J doc = .ok keys := by
  obtain ⟨rest, rfl⟩ := htext
  cases hrest : rest.all isBlank with
  | true =>
    have heq := J.blank hdoc hrest
    rw [parseJWKS, heq] at h
    rw [parseJWKS, hdoc]
    exact h
  | false =>
    obtain ⟨err, herr⟩ := J.cut hdoc hrest
    rw [parseJWKS, herr] at h
    cases h

theorem fetchKeys_ok {J : Json} {doc : List UInt8} {ks : List Jwk} {f : Fetch}
    {keys : GoMap String PublicKey} (hdoc : J.unmarshal doc = .ok ks) (hf : Served doc f)
    (h : fetchKeys J f = .ok keys) : parseJWKS J doc = .ok keys := by
  cases f with
  | failed => cases h
  | response status body =>
    simp only [fetchKeys] at h
    split_ifs at h with hstatus
    have hread : (body.read (1 <<< 20)).1 <+: doc :=
      List.IsPrefix.trans ⟨_, body.read_append (1 <<< 20)⟩ (hf (not_not.mp hstatus))
    cases hp : parseJWKS J (body.read (1 <<< 20)).1 with
    | error err =>
      rw [hp] at h
      cases h
    | ok keys' =>
      rw [hp] at h
      cases h
      exact parseJWKS_part hdoc hread hp

/-! ### Whom the tokens name -/

/-- A check of connection `c` in the run found `raw` to be a token with these
claims: it is signed with a key that the provider had published under the id
in its header, and the claims were good at the time. -/
def Verified (cfg : Config) (tr : List (Event State Action Out)) (c : Conn) (raw : String)
    (cl : Claims) : Prop :=
  ∃ tr₁ e tr₂ p hdr key sig, tr = tr₁ ++ e :: tr₂ ∧ e.act = .check c ∧
    e.pre.call c = .check p hdr key ∧ readToken raw = .ok (p, hdr) ∧
    Published cfg tr₁ hdr.kid key ∧ decodePart p.sig = .ok sig ∧
    cfg.oidc.rsa key p.signingInput sig = true ∧ readClaims cfg.oidc p = .ok cl ∧
    checkClaims cfg.oidc (unix cfg e.pre) cl = .ok cl

/-- What a call has found out about the token of its client. -/
def Backed (cfg : Config) (tr : List (Event State Action Out)) (c : Conn) (raw : String) :
    Call → Prop
  | .idle => True
  | .fetch p hdr | .look p hdr => readToken raw = .ok (p, hdr)
  | .install p hdr keys => readToken raw = .ok (p, hdr) ∧
      ∀ kid key, keys.lookup kid = some key → Published cfg tr kid key
  | .check p hdr key => readToken raw = .ok (p, hdr) ∧ Published cfg tr hdr.kid key
  | .done (.ok cl) => Verified cfg tr c raw cl
  | .done (.error _) => True

theorem Backed.append {c : Conn} {raw : String} {k : Call} (h : Backed cfg tr c raw k)
    (e : Event State Action Out) : Backed cfg (tr ++ [e]) c raw k := by
  cases k with
  | idle => trivial
  | fetch p hdr => exact h
  | look p hdr => exact h
  | install p hdr keys => exact ⟨h.1, fun kid key hk => (h.2 kid key hk).append _⟩
  | check p hdr key => exact ⟨h.1, h.2.append _⟩
  | done r =>
    cases r with
    | error err => trivial
    | ok cl =>
      obtain ⟨tr₁, e', tr₂, p, hdr, key, sig, rfl, hrest⟩ := h
      exact ⟨tr₁, e', tr₂ ++ [e], p, hdr, key, sig, by simp, hrest⟩

/-- The keys in use are the provider's, and every call has found out what it
stands for. -/
structure Trusted (cfg : Config) (tr : List (Event State Action Out)) (s : State) : Prop where
  keys : ∀ kid key, s.keys.lookup kid = some key → Published cfg tr kid key
  call : ∀ c, Backed cfg tr c (s.broker.client c).msg.token (s.call c)

theorem Trusted.init : Trusted cfg [] (machine cfg users).init where
  keys kid key h := by
    change (newKeys cfg).lookup kid = some key at h
    unfold newKeys at h
    split_ifs at h
    · cases h
    · cases hp : parseJWKS cfg.json cfg.doc with
      | error err =>
        rw [hp] at h
        cases h
      | ok keys =>
        rw [hp] at h
        exact ⟨cfg.doc, keys, Or.inl rfl, hp, h⟩
  call _ := trivial

/-- One call moves on. -/
theorem Trusted.setCall {e : Event State Action Out} (h : Trusted cfg tr s) {c : Conn} {k : Call}
    (hk : Backed cfg (tr ++ [e]) c (s.broker.client c).msg.token k) :
    Trusted cfg (tr ++ [e]) (s.setCall c k) where
  keys kid key hkey := (h.keys kid key hkey).append _
  call d := by
    show Backed cfg _ d _ (Function.update s.call c k d)
    rcases eq_or_ne d c with rfl | hne
    · rw [Function.update_self]
      exact hk
    · rw [Function.update_of_ne hne]
      exact (h.call d).append _

theorem Backed.begin {c : Conn} {raw : String} {keys : GoMap String PublicKey}
    (h : ∀ kid key, keys.lookup kid = some key → Published cfg tr kid key) :
    Backed cfg tr c raw (begin cfg keys raw) := by
  unfold Oidc.begin
  cases hr : readToken raw with
  | error err => trivial
  | ok r =>
    obtain ⟨p, hdr⟩ := r
    dsimp only
    cases hk : keys.lookup hdr.kid with
    | some key => exact ⟨hr, h _ _ hk⟩
    | none =>
      dsimp only
      split_ifs
      · trivial
      · exact hr

theorem Trusted.step (h : Trusted cfg tr s) (hr : (machine cfg users).Run tr s)
    (hdocs : ∀ doc, HasServed cfg tr doc → ∃ ks, cfg.json.unmarshal doc = .ok ks)
    (hs : Stepped cfg s a s' o) : Trusted cfg (tr ++ [⟨s, a, o, s'⟩]) s' := by
  cases hs with
  | broker a b' o other hb =>
    refine ⟨fun kid key hk => (h.keys kid key hk).append _, fun c => ?_⟩
    rcases Broker.msg_of_step hb c with ⟨msg, rfl⟩ | hmsg
    · show Backed cfg _ c _ (Function.update s.call c .idle c)
      rw [Function.update_self]
      trivial
    · have hcall : started s.call a c = s.call c ∨ started s.call a c = .idle := by
        cases a with
        | connect d msg =>
          rcases eq_or_ne c d with rfl | hne
          · exact Or.inr (Function.update_self _ _ _)
          · exact Or.inl (Function.update_of_ne hne _ _)
        | _ => exact Or.inl rfl
      show Backed cfg _ c (b'.client c).msg.token (started s.call a c)
      rcases hcall with hcall | hcall
      · rw [hcall, hmsg]
        exact (h.call c).append _
      · rw [hcall]
        trivial
  | publish doc | issue header payload =>
    exact ⟨fun kid key hk => (h.keys kid key hk).append _, fun c => (h.call c).append _⟩
  | verify c pc call =>
    exact h.setCall (Backed.begin fun kid key hk => (h.keys kid key hk).append _)
  | fetch c p hdr f call served =>
    have hcall := h.call c
    rw [call] at hcall
    refine h.setCall ?_
    unfold fetched
    cases hf : fetchKeys cfg.json f with
    | error err => trivial
    | ok keys =>
      obtain ⟨ks, hks⟩ := hdocs s.doc (hasServed_doc hr)
      refine ⟨hcall, fun kid key hk => Published.append ?_ _⟩
      exact ⟨s.doc, keys, hasServed_doc hr, fetchKeys_ok hks served hf, hk⟩
  | install c p hdr keys call =>
    have hcall := h.call c
    rw [call] at hcall
    have hset : Trusted cfg tr { s with keys } := ⟨hcall.2, h.call⟩
    exact hset.setCall hcall.1
  | look c p hdr call =>
    have hcall := h.call c
    rw [call] at hcall
    refine h.setCall ?_
    unfold lookAgain
    cases hk : s.keys.lookup hdr.kid with
    | none => trivial
    | some key => exact ⟨hcall, (h.keys _ _ hk).append _⟩
  | check c p hdr key call =>
    have hcall := h.call c
    rw [call] at hcall
    refine h.setCall ?_
    cases hc : Oidc.check cfg.oidc (unix cfg s) key p with
    | error err => trivial
    | ok cl =>
      obtain ⟨⟨sig, hsig, hrsa⟩, hread, hgood⟩ := check_ok hc
      exact ⟨tr, _, [], p, hdr, key, sig, rfl, rfl, call, hcall.1, hcall.2, hsig, hrsa, hread, hgood⟩
  | auth c i r b' o pc call hb =>
    refine ⟨fun kid key hk => (h.keys kid key hk).append _, fun d => ?_⟩
    rcases Broker.msg_of_step hb d with ⟨msg, hact⟩ | hmsg
    · cases hact
    · show Backed cfg _ d (b'.client d).msg.token (s.call d)
      rw [hmsg]
      exact (h.call d).append _

theorem Trusted.of_run (h : (machine cfg users).Run tr s)
    (hdocs : ∀ doc, HasServed cfg tr doc → ∃ ks, cfg.json.unmarshal doc = .ok ks) :
    Trusted cfg tr s := by
  induction h with
  | nil => exact .init
  | snoc hr hs ih =>
    have hdocs' := fun doc hdoc => hdocs doc (HasServed.append hdoc _)
    exact (ih hdocs').step hr hdocs' (stepped_of_step hs)

theorem authorizeUser_username {t : Userstore.Table} {name region : String} {u : Userstore.User}
    (h : Userstore.authorizeUser t name region = .ok u) : u.username = name := by
  unfold Userstore.authorizeUser at h
  split at h
  · cases h
  · rename_i x hx
    have hname : (t.recs x.2).user.username = name := by simpa using List.find?_some hx
    unfold Userstore.checkUser at h
    split_ifs at h
    cases h
    exact hname

/-- Every goroutine that was let in has a verified token behind it. -/
def LetIn (tr : List (Event State Action Out)) (s : State) : Prop :=
  ∀ c, passed (s.broker.client c).pc = true → ∃ tr₁ e tr₂ cl, tr = tr₁ ++ e :: tr₂ ∧
    e.pre.call c = .done (.ok cl) ∧ (s.broker.client c).user.username = cl.identity

theorem LetIn.snoc (h : LetIn tr s) (e : Event State Action Out) {c : Conn}
    (hp : passed (s.broker.client c).pc = true)
    (huser : (s'.broker.client c).user = (s.broker.client c).user) :
    ∃ tr₁ e' tr₂ cl, tr ++ [e] = tr₁ ++ e' :: tr₂ ∧ e'.pre.call c = .done (.ok cl) ∧
      (s'.broker.client c).user.username = cl.identity := by
  obtain ⟨tr₁, e', tr₂, cl, rfl, hcall, hname⟩ := h c hp
  rw [huser]
  exact ⟨tr₁, e', tr₂ ++ [e], cl, by simp, hcall, hname⟩

/-- The identity that the store was asked for is that of the claims. -/
theorem identity_of_admits {b : Broker.State} {c : Conn} {i : Broker.Input} {u : Userstore.User}
    {r : Except VerifyError Claims} (ho : cfg.broker.oidc = true)
    (h : Admits cfg.broker b c { i with oidc := answer cfg.texts r } u) :
    ∃ cl, r = .ok cl ∧ u.username = cl.identity := by
  unfold Admits at h
  rw [if_pos ho] at h
  obtain ⟨name, hname, hu⟩ := h
  cases r with
  | error err => cases hname
  | ok cl =>
    cases hname
    exact ⟨cl, rfl, authorizeUser_username hu⟩

theorem LetIn.of_run (ho : cfg.broker.oidc = true) (h : (machine cfg users).Run tr s) :
    LetIn tr s := by
  induction h with
  | nil => exact nofun
  | @snoc tr s s' a o hr hs ih =>
    intro c hp
    cases stepped_of_step hs with
    | broker a b' o other hb =>
      rcases Broker.passed_of_step hb hp with ⟨hp', huser, -⟩ | ⟨i, rfl, hpc, -⟩
      · exact ih.snoc _ hp' huser
      · exact absurd hpc other
    | auth d i r b' o pc call hb =>
      rcases Broker.passed_of_step hb hp with ⟨hp', huser, -⟩ | ⟨j, hact, -, hadm, -⟩
      · exact ih.snoc _ hp' huser
      · cases hact
        obtain ⟨cl, rfl, hname⟩ := identity_of_admits ho hadm
        exact ⟨tr, _, [], cl, rfl, call, hname⟩
    | _ => exact ih.snoc _ hp rfl

/-- Nobody forges: what is checked in this step and bears a signature of a
key that the provider has published, the provider has signed, in whatever way
it writes its tokens. -/
def Genuine (cfg : Config) (tr : List (Event State Action Out)) (e : Event State Action Out) : Prop :=
  ∀ c p hdr key sig, e.act = .check c → e.pre.call c = .check p hdr key →
    Published cfg tr hdr.kid key → decodePart p.sig = .ok sig →
    cfg.oidc.rsa key p.signingInput sig = true →
    ∃ t ∈ e.pre.issued, Reads p.header t.1 ∧ Reads p.payload t.2

/-- **A session is in the name of somebody the provider vouches for.** Every
document of the provider decodes, and nobody forges its signatures. Then for
every session that a client is told of, the provider had issued a token with
the issuer and the audience of this broker that had not expired when it was
checked, and the session is in the name of the identity in it. -/
theorem session_issued (ho : cfg.broker.oidc = true) (h : (machine cfg users).Run tr s)
    (hdocs : ∀ doc, HasServed cfg tr doc → ∃ ks, cfg.json.unmarshal doc = .ok ks)
    (hgen : ∀ tr₁ e tr₂, tr = tr₁ ++ e :: tr₂ → Genuine cfg tr₁ e)
    {tr₁ tr₂ : List (Event State Action Out)} {e : Event State Action Out} (htr : tr = tr₁ ++ e :: tr₂)
    {c : Conn} {sid mtu : ℕ} {ip mask : String} {ice : Proto.IceServers}
    (hok : Out.ctrl c (.connectOK sid ip mask mtu ice) ∈ e.out) :
    ∃ tr₃ e' tr₄ header payload ms, tr₁ = tr₃ ++ e' :: tr₄ ∧ e'.act = .check c ∧
      (header, payload) ∈ e'.pre.issued ∧ payloadMembers payload = some ms ∧
      (claims cfg.oidc.int64 ms).issuer = cfg.oidc.issuer ∧
      (cfg.oidc.audience = "" ∨ cfg.oidc.audience ∈ (claims cfg.oidc.int64 ms).audience) ∧
      unix cfg e'.pre < (claims cfg.oidc.int64 ms).expiry ∧
      ∃ p, e.pre.broker.sessions.lookup sid = some p ∧
        (e.pre.broker.sess p).username = (claims cfg.oidc.int64 ms).identity := by
  subst htr
  obtain ⟨hr, hs⟩ := h.at_event rfl
  have hdocs' : ∀ doc, HasServed cfg tr₁ doc → ∃ ks, cfg.json.unmarshal doc = .ok ks :=
    fun doc hdoc => hdocs doc (hdoc.append _)
  have hgen' : ∀ tr₃ e' tr₄, tr₁ = tr₃ ++ e' :: tr₄ → Genuine cfg tr₃ e' := by
    rintro tr₃ e' tr₄ rfl
    exact hgen tr₃ e' (tr₄ ++ e :: tr₂) (by simp)
  clear h hdocs hgen
  obtain ⟨pre, act, out, post⟩ := e
  dsimp only at hr hs hok ⊢
  obtain ⟨trb, hrb⟩ := broker_run hr
  have hinv := Broker.Inv.of_run hrb
  have hbroker : ∃ act b', Broker.step cfg.broker pre.broker act = some (b', out) := by
    cases stepped_of_step hs with
    | broker a b' o other hb => exact ⟨a, b', hb⟩
    | auth d i r b' o pc call hb => exact ⟨_, b', hb⟩
    | _ => cases hok
  obtain ⟨ba, b', hb⟩ := hbroker
  obtain ⟨-, hpc, -, hsid, -⟩ :=
    Broker.connectOK_written hinv.replies (Broker.says_of_step hinv.timers hb) hok
  have hph : (pre.broker.client c).pc.phase = .holds := by rw [hpc]; rfl
  obtain ⟨tr₃, e₁, tr₄, cl, rfl, hcall, hname⟩ := LetIn.of_run ho hr c (by rw [hpc]; rfl)
  obtain ⟨hr₁, -⟩ := hr.at_event rfl
  -- the call that let the client in had checked its token
  have hback := (Trusted.of_run hr₁ fun doc hdoc => hdocs' doc (hdoc.append _)).call c
  rw [hcall] at hback
  obtain ⟨tr₅, e₂, tr₆, p, hdr, key, sig, rfl, hact, hcheck, hraw, hpub, hsig, hrsa, hread, hgood⟩ :=
    hback
  obtain ⟨t, ht, -, hpay⟩ := hgen' tr₅ e₂ (tr₆ ++ e₁ :: tr₄) (by simp) c p hdr key sig hact hcheck
    hpub hsig hrsa
  -- what was signed settles what is read
  obtain ⟨ms, hms, rfl⟩ := (readClaims_ok_iff hpay).mp hread
  obtain ⟨-, hiss, haud, -, hexp⟩ := checkClaims_ok hgood
  refine ⟨tr₅, e₂, tr₆ ++ e₁ :: tr₄, t.1, t.2, ms, by simp, hact, ht, hms, hiss, haud, hexp,
    _, hsid ▸ (hinv.rep.held c hph).1, ?_⟩
  rw [← (Broker.History.of_run hrb).user c hph, hname]

end

/-! ### A run -/

/-- A broker whose provider serves one document. A signature here is the
byte 1. -/
def idpConfig : Config where
  broker := { oidc := true }
  oidc :=
    { issuer := "idp", audience := "revquic", jwksURL := "jwks"
      rsa := fun _ _ sig => sig = [1]
      int64 := fun n => n.1.foldl (fun acc b => acc * 10 + (b.toNat - 48)) 0 }
  json := Json.doc
  texts := ⟨id, fun _ => "", fun _ => "", "", ""⟩
  doc := docText

def aliceHeader : Json.Tree := .obj [("alg", .str "RS256"), ("kid", .str "1")]

/-- Expires at 9. -/
def aliceClaims : List (String × Json.Tree) :=
  [("iss", .str "idp"), ("aud", .arr [.str "revquic"]), ("sub", .str "alice"),
    ("exp", .num ⟨[57], rfl⟩)]

def aliceToken : String := compact aliceHeader (.obj aliceClaims) [1]

/-- A call of `Verify` that fetches the key. -/
def aliceVerifies (c : Conn) : List Action :=
  [.verify c, .fetch c (.response 200 ⟨[docText], .eof⟩), .install c, .look c, .check c]

/-- A client with an ID token joins an exit. -/
def aliceJoins : List Action :=
  .issue aliceHeader (.obj aliceClaims) :: .broker (.register 0 (Broker.node "e1" "us" 0)) ::
    .broker (.connect 1 { token := aliceToken, requestedRegion := "us" }) ::
    (aliceVerifies 1 ++ .auth 1 {} :: List.replicate 9 (.broker (.client 1 {})))

/-- The step publishes no document, and checks nothing but what the provider
has signed. -/
def honest (e : Event State Action Out) : Bool :=
  match e.act with
  | .publish _ => false
  | .check c =>
    match e.pre.call c with
    | .check p _ _ =>
      e.pre.issued.any fun t => p.header = encodePart t.1 ∧ p.payload = encodePart t.2
    | _ => true
  | _ => true

theorem genuine_of_honest {cfg : Config} {tr : List (Event State Action Out)}
    {e : Event State Action Out} (h : honest e = true) : Genuine cfg tr e := by
  intro c p hdr key sig hact hcall _ _ _
  simp only [honest, hact, hcall, List.any_eq_true, decide_eq_true_eq] at h
  obtain ⟨t, ht, hheader, hpayload⟩ := h
  exact ⟨t, ht, hheader ▸ reads_encode _, hpayload ▸ reads_encode _⟩

theorem decodes_of_honest {tr : List (Event State Action Out)} (h : ∀ e ∈ tr, honest e = true)
    (doc : List UInt8) (hdoc : HasServed idpConfig tr doc) :
    ∃ ks, idpConfig.json.unmarshal doc = .ok ks := by
  rcases hdoc with rfl | ⟨e, he, hact⟩
  · exact ⟨docKeys, by decide +kernel⟩
  · have hh := h e he
    simp [honest, hact] at hh

/-- The provider issues a token, and its owner gets a session in their
name. -/
theorem session_issued_fetched : ∃ tr e p, e ∈ tr ∧
    (∃ s, (machine idpConfig Broker.aliceStore).Run tr s) ∧
    e.pre.broker.sessions.lookup 1 = some p ∧ ∃ e' ∈ tr, ∃ header payload ms,
      (header, payload) ∈ e'.pre.issued ∧ payloadMembers payload = some ms ∧
      (e.pre.broker.sess p).username = (claims idpConfig.oidc.int64 ms).identity := by
  obtain ⟨tr, s, hr, hhon, e, he, hok⟩ := (machine idpConfig Broker.aliceStore).exists_run aliceJoins
    (P := fun r => (∀ e ∈ r.1, honest e = true) ∧
      ∃ e ∈ r.1, Out.ctrl 1 (.connectOK 1 "10.99.0.2" "255.255.255.0" 1200 {}) ∈ e.out)
    (by decide +kernel)
  obtain ⟨tr₁, tr₂, htr⟩ : ∃ tr₁ tr₂, tr = tr₁ ++ e :: tr₂ := List.append_of_mem he
  have hgen : ∀ tr₃ e' tr₄, tr = tr₃ ++ e' :: tr₄ → Genuine idpConfig tr₃ e' :=
    fun tr₃ e' tr₄ hsplit => genuine_of_honest (hhon e' (by rw [hsplit]; simp))
  obtain ⟨tr₃, e', tr₄, header, payload, ms, hsplit, -, hiss, hms, -, -, -, p, hp, hname⟩ :=
    session_issued rfl hr (decodes_of_honest hhon) hgen htr hok
  exact ⟨tr, e, p, he, ⟨s, hr⟩, hp, e', by rw [htr, hsplit]; simp, header, payload, ms, hiss, hms,
    hname⟩

end Oidc
end Revquic
