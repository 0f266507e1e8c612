/-
# A key that is published throughout

Calls replace the key set under each other, and a call looks its key up in
whatever set is there when it comes to it. A token whose key is in every
document is not lost by that, and not by the fetches of other calls that fail
or arrive cut: a part of a document is read as the document or not at all.
The token is judged by its claims alone, at the time of its check, unless the
fetch of its own call fails.

Key definitions: `Keeps`, `Arrives`, `Unserved`, `Judged`.
Key theorem: `issued_judged`.
-/
import Revquic.Oidc.Login

namespace Revquic
namespace Oidc

open Lib
open Broker (Conn Out)

/-- Every document so far has this key. -/
def Keeps (cfg : Config) (tr : List (Event State Action Out)) (kid : String) (key : PublicKey) :
    Prop :=
  ∀ doc, HasServed cfg tr doc →
    ∃ keys, parseJWKS cfg.json doc = .ok keys ∧ keys.lookup kid = some key

/-- The document arrives, and in one piece. -/
def Arrives (doc : List UInt8) (f : Fetch) : Prop :=
  ∃ body, f = .response 200 body ∧ body.bytes = doc ∧ (body.read (1 <<< 20)).2.bytes = []

section
variable {cfg : Config} {users : Userstore.Table} {s s' : State} {a : Action} {o : List Out}
  {tr : List (Event State Action Out)} {kid : String} {key : PublicKey}

theorem Arrives.fetchKeys {J : Json} {doc : List UInt8} {f : Fetch} {keys : GoMap String PublicKey}
    (h : Arrives doc f) (hp : parseJWKS J doc = .ok keys) : fetchKeys J f = .ok keys := by
  obtain ⟨body, rfl, rfl, hrest⟩ := h
  have hbytes := body.read_append (1 <<< 20)
  rw [hrest, List.append_nil] at hbytes
  simp only [Oidc.fetchKeys, ne_eq, not_true_eq_false, if_false, hbytes, hp]
  rfl

/-- The keys a call fetches are those of the document. -/
theorem Keeps.fetched (hkeep : Keeps cfg tr kid key) (hr : (machine cfg users).Run tr s) {f : Fetch}
    (hf : Served s.doc f) {keys : GoMap String PublicKey} (h : fetchKeys cfg.json f = .ok keys) :
    keys.lookup kid = some key := by
  obtain ⟨keys', hp, hk⟩ := hkeep s.doc (hasServed_doc hr)
  obtain ⟨ks, hks⟩ : ∃ ks, cfg.json.unmarshal s.doc = .ok ks := by
    unfold parseJWKS at hp
    split at hp
    · cases hp
    · exact ⟨_, ‹_›⟩
  rw [fetchKeys_ok hks hf h] at hp
  rwa [Except.ok.inj hp]

/-! ### The key set -/

/-- A set on its way to be installed has the key, and a set that has been
installed too. -/
def Call.carries (kid : String) (key : PublicKey) (keys : GoMap String PublicKey) : Call → Prop
  | .install _ _ new => new.lookup kid = some key
  | .look _ _ => keys.lookup kid = some key
  | _ => True

structure Holds (cfg : Config) (kid : String) (key : PublicKey) (s : State) : Prop where
  keys : s.keys.lookup kid = some key ∨ cfg.oidc.jwksURL ≠ "" ∧ s.keys.lookup kid = none
  call : ∀ c, (s.call c).carries kid key s.keys

theorem Call.carries_of_keys {keys keys' : GoMap String PublicKey} {k : Call}
    (h : k.carries kid key keys) (hkeys : keys'.lookup kid = some key) :
    k.carries kid key keys' := by
  cases k with
  | look p hdr => exact hkeys
  | install p hdr new => exact h
  | _ => trivial

theorem Holds.init (hkeep : Keeps cfg [] kid key) : Holds cfg kid key (machine cfg users).init where
  keys := by
    show (newKeys cfg).lookup kid = some key ∨ _ ∧ (newKeys cfg).lookup kid = none
    obtain ⟨keys, hp, hk⟩ := hkeep cfg.doc (Or.inl rfl)
    unfold newKeys
    split_ifs with hurl
    · exact Or.inr ⟨hurl, rfl⟩
    · rw [hp]
      exact Or.inl hk
  call _ := trivial

theorem Holds.setCall (h : Holds cfg kid key s) {c : Conn} {k : Call} (hk : k.carries kid key s.keys) :
    Holds cfg kid key (s.setCall c k) where
  keys := h.keys
  call d := by
    show (Function.update s.call c k d).carries kid key s.keys
    rcases eq_or_ne d c with rfl | hne
    · rw [Function.update_self]
      exact hk
    · rw [Function.update_of_ne hne]
      exact h.call d

theorem Call.carries_begin (keys : GoMap String PublicKey) (raw : String) :
    (begin cfg keys raw).carries kid key keys := by
  unfold begin
  split
  · trivial
  · split
    · trivial
    · split_ifs <;> trivial

theorem Holds.step (h : Holds cfg kid key s) (hr : (machine cfg users).Run tr s)
    (hkeep : Keeps cfg tr kid key) (hs : Stepped cfg s a s' o) : Holds cfg kid key s' := by
  cases hs with
  | broker a b' o other hb =>
    refine ⟨h.keys, fun c => ?_⟩
    show (started s.call a c).carries kid key s.keys
    cases a with
    | connect d msg =>
      show (Function.update s.call d .idle c).carries kid key s.keys
      rcases eq_or_ne c d with rfl | hne
      · rw [Function.update_self]
        trivial
      · rw [Function.update_of_ne hne]
        exact h.call c
    | _ => exact h.call c
  | publish doc | issue header payload | auth c i r b' o pc call hb => exact ⟨h.keys, h.call⟩
  | verify c pc call => exact h.setCall (Call.carries_begin _ _)
  | fetch c p hdr f call served =>
    refine h.setCall ?_
    unfold fetched
    split
    · trivial
    · rename_i keys hkeys
      exact hkeep.fetched hr served hkeys
  | install c p hdr keys call =>
    have hk := h.call c
    rw [call] at hk
    have hset : Holds cfg kid key { s with keys } :=
      ⟨Or.inl hk, fun d => Call.carries_of_keys (h.call d) hk⟩
    exact hset.setCall hk
  | look c p hdr call =>
    refine h.setCall ?_
    unfold lookAgain
    cases s.keys.lookup hdr.kid <;> trivial
  | check c p hdr key' call => exact h.setCall trivial

theorem Keeps.of_append {tr' : List (Event State Action Out)} (h : Keeps cfg (tr ++ tr') kid key) :
    Keeps cfg tr kid key := fun doc hdoc => h doc (hdoc.append _)

theorem Holds.of_run (h : (machine cfg users).Run tr s) (hkeep : Keeps cfg tr kid key) :
    Holds cfg kid key s := by
  induction h with
  | nil => exact .init hkeep
  | snoc hr hs ih => exact (ih hkeep.of_append).step hr hkeep.of_append (stepped_of_step hs)

/-! ### One token -/

/-- The call's own fetch did not bring the document. -/
def Unserved (tr : List (Event State Action Out)) (c : Conn) (r : Except VerifyError Claims) : Prop :=
  ∃ e ∈ tr, ∃ f err, e.act = .fetch c f ∧ ¬ Arrives e.pre.doc f ∧ r = .error (.key (.refresh err))

/-- What becomes of a call with this token, as far as it has come. -/
def Judged (cfg : Config) (tr : List (Event State Action Out)) (c : Conn) (p : Parts) (hdr : Header)
    (key : PublicKey) (cl : Claims) : Call → Prop
  | .idle => True
  | .fetch p' hdr' | .install p' hdr' _ | .look p' hdr' => p' = p ∧ hdr' = hdr
  | .check p' hdr' key' => p' = p ∧ hdr' = hdr ∧ key' = key
  | .done r => (∃ e ∈ tr, e.act = .check c ∧ r = checkClaims cfg.oidc (unix cfg e.pre) cl) ∨
      Unserved tr c r

theorem Judged.append {c : Conn} {p : Parts} {hdr : Header} {cl : Claims} {k : Call}
    (h : Judged cfg tr c p hdr key cl k) (e : Event State Action Out) :
    Judged cfg (tr ++ [e]) c p hdr key cl k := by
  cases k with
  | done r =>
    refine h.imp ?_ ?_
    · rintro ⟨x, hx, hrest⟩
      exact ⟨x, List.mem_append_left _ hx, hrest⟩
    · rintro ⟨x, hx, hrest⟩
      exact ⟨x, List.mem_append_left _ hx, hrest⟩
  | _ => exact h

/-- The call of connection `c` makes a step, or another one does. -/
theorem Judged.setCall {c d : Conn} {p : Parts} {hdr : Header} {cl : Claims} {k : Call}
    {e : Event State Action Out} (h : Judged cfg tr c p hdr key cl (s.call c))
    (hk : d = c → Judged cfg (tr ++ [e]) c p hdr key cl k) :
    Judged cfg (tr ++ [e]) c p hdr key cl ((s.setCall d k).call c) := by
  show Judged cfg _ c p hdr key cl (Function.update s.call d k c)
  rcases eq_or_ne c d with rfl | hne
  · rw [Function.update_self]
    exact hk rfl
  · rw [Function.update_of_ne hne]
    exact h.append e

theorem Judged.started {c : Conn} {p : Parts} {hdr : Header} {cl : Claims} (a : Broker.Action)
    (h : Judged cfg tr c p hdr key cl (s.call c)) :
    Judged cfg tr c p hdr key cl (started s.call a c) := by
  cases a with
  | connect d msg =>
    show Judged cfg tr c p hdr key cl (Function.update s.call d .idle c)
    rcases eq_or_ne c d with rfl | hne
    · rw [Function.update_self]
      trivial
    · rw [Function.update_of_ne hne]
      exact h
  | _ => exact h

section
variable {raw : String} {p : Parts} {hdr : Header} {cl : Claims}

theorem Judged.begin {c : Conn} (hread : readToken raw = .ok (p, hdr)) (h : Holds cfg hdr.kid key s) :
    Judged cfg tr c p hdr key cl (begin cfg s.keys raw) := by
  unfold Oidc.begin
  rw [hread]
  dsimp only
  rcases h.keys with hkey | ⟨hurl, hnone⟩
  · rw [hkey]
    exact ⟨rfl, rfl, rfl⟩
  · rw [hnone]
    dsimp only
    rw [if_neg hurl]
    exact ⟨rfl, rfl⟩

theorem Judged.step {c : Conn} (hread : readToken raw = .ok (p, hdr))
    (hcheck : ∀ now, Oidc.check cfg.oidc now key p = checkClaims cfg.oidc now cl)
    (hhold : Holds cfg hdr.kid key s) (hr : (machine cfg users).Run tr s)
    (hkeep : Keeps cfg tr hdr.kid key) (hs : Stepped cfg s a s' o)
    (h : (s.broker.client c).msg.token = raw → Judged cfg tr c p hdr key cl (s.call c))
    (htok : (s'.broker.client c).msg.token = raw) :
    Judged cfg (tr ++ [⟨s, a, o, s'⟩]) c p hdr key cl (s'.call c) := by
  cases hs with
  | broker a b' o other hb =>
    rcases Broker.msg_of_step hb c with ⟨msg, rfl⟩ | hmsg
    · show Judged cfg _ c p hdr key cl (Function.update s.call c .idle c)
      rw [Function.update_self]
      trivial
    · change (b'.client c).msg.token = raw at htok
      rw [hmsg] at htok
      exact ((h htok).started a).append _
  | publish doc | issue header payload => exact (h htok).append _
  | verify d pc call =>
    refine (h htok).setCall fun hd => ?_
    subst hd
    rw [show (s.broker.client d).msg.token = raw from htok]
    exact Judged.begin hread hhold
  | fetch d p' hdr' f call served =>
    refine (h htok).setCall fun hd => ?_
    subst hd
    have hj := h htok
    rw [call] at hj
    unfold fetched
    split
    · rename_i err herr
      refine Or.inr ⟨_, List.mem_append_right _ (List.mem_singleton_self _), f, err, rfl, ?_, rfl⟩
      intro harr
      obtain ⟨keys, hp, -⟩ := hkeep s.doc (hasServed_doc hr)
      rw [harr.fetchKeys hp] at herr
      cases herr
    · exact hj
  | install d p' hdr' keys call =>
    have hj := h htok
    refine Judged.setCall (s := { s with keys }) hj fun hd => ?_
    subst hd
    rw [call] at hj
    exact hj
  | look d p' hdr' call =>
    refine (h htok).setCall fun hd => ?_
    subst hd
    have hj := h htok
    rw [call] at hj
    obtain ⟨rfl, rfl⟩ := hj
    have hkey := hhold.call d
    rw [call] at hkey
    rw [lookAgain, show s.keys.lookup hdr'.kid = some key from hkey]
    exact ⟨rfl, rfl, rfl⟩
  | check d p' hdr' key' call =>
    refine (h htok).setCall fun hd => ?_
    subst hd
    have hj := h htok
    rw [call] at hj
    obtain ⟨rfl, rfl, rfl⟩ := hj
    exact Or.inl ⟨_, List.mem_append_right _ (List.mem_singleton_self _), rfl, hcheck _⟩
  | auth d i r b' o pc call hb =>
    rcases Broker.msg_of_step hb c with ⟨msg, hact⟩ | hmsg
    · cases hact
    · change (b'.client c).msg.token = raw at htok
      rw [hmsg] at htok
      exact (h htok).append _

theorem Judged.of_run {c : Conn} (hread : readToken raw = .ok (p, hdr))
    (hcheck : ∀ now, Oidc.check cfg.oidc now key p = checkClaims cfg.oidc now cl)
    (h : (machine cfg users).Run tr s) (hkeep : Keeps cfg tr hdr.kid key) :
    (s.broker.client c).msg.token = raw → Judged cfg tr c p hdr key cl (s.call c) := by
  induction h with
  | nil => exact fun _ => trivial
  | snoc hr hs ih =>
    exact Judged.step hread hcheck (Holds.of_run hr hkeep.of_append) hr hkeep.of_append
      (stepped_of_step hs) (ih hkeep.of_append)

/-- **A token is judged by its claims.** Its signature is good under a key that
is in all the provider's documents. Then whatever else happens, and whatever
becomes of the fetches of other calls, `Verify` returns for the token what the
check of its claims says at some time during the call, or its own fetch did
not bring the document in one piece and it returns the error of that. -/
theorem issued_judged (h : (machine cfg users).Run tr s) (hread : readToken raw = .ok (p, hdr))
    {sig : List UInt8} (hsig : decodePart p.sig = .ok sig)
    (hrsa : cfg.oidc.rsa key p.signingInput sig = true) (hclaims : readClaims cfg.oidc p = .ok cl)
    (hkeep : Keeps cfg tr hdr.kid key) {c : Conn} (htok : (s.broker.client c).msg.token = raw)
    {r : Except VerifyError Claims} (hdone : s.call c = .done r) :
    (∃ e ∈ tr, e.act = .check c ∧ r = checkClaims cfg.oidc (unix cfg e.pre) cl) ∨
      ∃ e ∈ tr, ∃ f err, e.act = .fetch c f ∧ ¬ Arrives e.pre.doc f ∧
        r = .error (.key (.refresh err)) := by
  have hj := Judged.of_run hread (fun now => check_signed hsig hrsa hclaims now) h hkeep htok
  rw [hdone] at hj
  exact hj

end

end

/-! ### Three calls at once -/

theorem keeps_of_honest {tr : List (Event State Action Out)} (h : ∀ e ∈ tr, honest e = true) :
    Keeps idpConfig tr "1" ⟨177, 65537⟩ := by
  intro doc hdoc
  rcases hdoc with rfl | ⟨e, he, hact⟩
  · have hkeys : (parseJWKS idpConfig.json idpConfig.doc).map (·.lookup "1") =
        .ok (some ⟨177, 65537⟩) := by decide +kernel
    cases hp : parseJWKS idpConfig.json idpConfig.doc with
    | error err => rw [hp] at hkeys; cases hkeys
    | ok keys =>
      rw [hp] at hkeys
      exact ⟨keys, rfl, Except.ok.inj hkeys⟩
  · have hh := h e he
    simp [honest, hact] at hh

def Call.result : Call → Option (Except VerifyError Claims)
  | .done r => some r
  | _ => none

theorem Call.eq_done {k : Call} {r : Except VerifyError Claims} (h : k.result = some r) :
    k = .done r := by
  cases k with
  | done r' =>
    cases h
    rfl
  | _ => cases h

/-- Three clients with one token verify it at once; the first two replace the
key set under each other, and of the third's document one byte arrives. The
first is through before the token expires, the second comes too late. -/
theorem issued_judged_twice : ∃ tr s, (machine idpConfig Broker.aliceStore).Run tr s ∧
    s.call 1 = .done (.ok (claims idpConfig.oidc.int64 aliceClaims)) ∧
    s.call 2 = .done (.error .expired) ∧ (∃ err, s.call 3 = .done (.error (.key (.refresh err)))) ∧
    ∃ e ∈ tr, e.act = .check 2 ∧
      checkClaims idpConfig.oidc (unix idpConfig e.pre) (claims idpConfig.oidc.int64 aliceClaims) =
        .error .expired := by
  obtain ⟨tr, s, hr, hhon, htok, hfirst, hsecond, hthird⟩ :=
    (machine idpConfig Broker.aliceStore).exists_run
      ([.issue aliceHeader (.obj aliceClaims), .broker (.connect 1 { token := aliceToken }),
        .broker (.connect 2 { token := aliceToken }), .broker (.connect 3 { token := aliceToken }),
        .verify 1, .verify 2, .verify 3, .fetch 1 (.response 200 ⟨[docText], .eof⟩),
        .fetch 2 (.response 200 ⟨[docText], .eof⟩), .fetch 3 (.response 200 ⟨[[0x7b]], .eof⟩),
        .install 1, .install 2, .look 1, .check 1, .broker (.tick 9000000000), .look 2,
        .check 2] : List Action)
      (P := fun r => (∀ e ∈ r.1, honest e = true) ∧
        (r.2.broker.client 2).msg.token = aliceToken ∧
        (r.2.call 1).result = some (.ok (claims idpConfig.oidc.int64 aliceClaims)) ∧
        (r.2.call 2).result = some (.error .expired) ∧
        (r.2.call 3).result = some (.error (.key (.refresh (.jwks (.json "unexpected end of JSON input"))))))
      (by decide +kernel)
  have hhdr : Header.ofTree aliceHeader = some ⟨"RS256", "1"⟩ := by decide +kernel
  rcases issued_judged hr (readToken_compact aliceHeader (.obj aliceClaims) [1] hhdr rfl)
    (decodePart_encode [1]) (rfl : idpConfig.oidc.rsa ⟨177, 65537⟩ _ [1] = true)
    ((readClaims_ok_iff (reads_encode _)).mpr ⟨_, rfl, rfl⟩) (keeps_of_honest hhon) htok (Call.eq_done hsecond) with
    ⟨e, he, hact, hexp⟩ | ⟨_, _, _, _, _, _, hfail⟩
  · exact ⟨tr, s, hr, Call.eq_done hfirst, Call.eq_done hsecond, ⟨_, Call.eq_done hthird⟩, e, he, hact,
      hexp.symm⟩
  · cases hfail

end Oidc
end Revquic
