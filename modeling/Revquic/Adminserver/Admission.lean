/-
# Who is let in

What an administrator knows of the users is whom the broker was started with
and what the admin API has answered since. The user store keeps pointers, two
maps and a keyed hash of each token; as long as no flush fails it has these
users, and if no two of them have been given one token either, its answers
are those one reads off the directory.

The broker asks the same store. So whoever is told that they have a session
was in the directory when they were asked for their token or identity,
enabled and allowed in the region they named, whether or not tokens are
shared.

Key definitions: `directory`, `Refines`, `Follows`, `Distinct`, `LetIn`.
Key theorems: `Refines.step`, `directory_answers`, `session_admitted`.
-/
import Revquic.Adminserver.Access
import Revquic.Broker.Admission
import Revquic.Broker.Ownership

namespace Revquic
namespace Adminserver

open Lib
open Broker (Conn Out passed Admits passed_of_step)
open Userstore (User Record UserCreate UserUpdate StoreError hashToken checkUser regionAllowed
  authenticateForRegion authorizeUser Call newRecord patch userEnabled)
open Userstore.Table (KeyedHash Changed Unshared)

/-- A user as the API has shown them last, and the token they were given. -/
structure Account where
  user : User
  token : String
  deriving DecidableEq

/-- What the answer to a request tells about the users. -/
def told (dir : GoMap String Account) (r : Request) : PC → GoMap String Account
  | .done (.created u token) => dir.insert u.id ⟨u, token⟩
  | .done (.user u) =>
    match r.route, dir.lookup u.id with
    | .updateUser _, some a =>
      dir.insert u.id ⟨u, (r.update.bind (·.credential)).getD a.token⟩
    | _, _ => dir
  | .done .noContent =>
    match r.route with
    | .deleteUser id => dir.erase id
    | _ => dir
  | _ => dir

def seen (dir : GoMap String Account) (e : Event State Action Out) : GoMap String Account :=
  match e.act with
  | .handle n _ => told dir (e.pre.req n).req (e.post.req n).pc
  | _ => dir

/-- The users, from those at the start and the answers of the API. -/
def directory (dir₀ : GoMap String Account) (tr : List (Event State Action Out)) :
    GoMap String Account :=
  tr.foldl seen dir₀

/-- No two users have been given the same token. -/
def Distinct (dir : GoMap String Account) : Prop :=
  ∀ id id' a a', dir.lookup id = some a → dir.lookup id' = some a' → a.token ≠ "" →
    a.token = a'.token → id = id'

instance (dir : GoMap String Account) : Decidable (Distinct dir) :=
  decidable_of_iff (∀ x ∈ dir.entries, ∀ y ∈ dir.entries, x.2.token ≠ "" →
      x.2.token = y.2.token → x.1 = y.1)
    ⟨fun h id id' a a' ha ha' => h ⟨id, a⟩ (GoMap.mem_entries.mpr ha) ⟨id', a'⟩
        (GoMap.mem_entries.mpr ha'),
      fun h x hx y hy => h x.1 y.1 x.2 y.2 (GoMap.mem_entries.mp hx) (GoMap.mem_entries.mp hy)⟩

/-- The flush of a handler succeeds. -/
def Flushes : Action → Prop
  | .handle _ i => i.fail = none
  | _ => True

instance : DecidablePred Flushes
  | .handle _ i => inferInstanceAs (Decidable (i.fail = none))
  | .broker _ | .arrive _ _ | .check _ | .verify _ | .issue _ _ | .insert _ => isTrue trivial

/-! ### The store behind the directory -/

section
variable {hmac : String → String} {dir dir' : GoMap String Account} {t t' : Userstore.Table} {c : Call}

/-- The record of an account. -/
def Account.record (hmac : String → String) (a : Account) : Record := ⟨a.user, hashToken hmac a.token⟩

/-- The store has the users of the directory. -/
structure Refines (hmac : String → String) (dir : GoMap String Account) (t : Userstore.Table) : Prop where
  keyed : t.Keyed
  pointed : t.Pointed
  entry : ∀ id, t.entry id = (dir.lookup id).map (Account.record hmac)

theorem refines_empty (hmac : String → String) : Refines hmac ∅ {} :=
  ⟨Userstore.Table.keyed_empty, nofun, fun _ => rfl⟩

/-- The store comes to have the users of the directory, and keeps its index
exact if no two of them have one token. -/
def Follows (hmac : String → String) (dir : GoMap String Account) (t t' : Userstore.Table) : Prop :=
  Refines hmac dir t' ∧ (t.Exact → Distinct dir → t'.Exact)

theorem Refines.stays (h : Refines hmac dir t) : Follows hmac dir t t := ⟨h, fun he _ => he⟩

/-- A call that gives a user the record of account `acct` shares no token if
the directory is distinct behind it. -/
theorem Refines.unshared (hm : KeyedHash hmac) (h : Refines hmac dir t) {acct : Option Account}
    (hc : Changed hmac t c t')
    (hdir : ∀ id, dir'.lookup id = if id = c.target then acct else dir.lookup id)
    (hacct : acct.map (Account.record hmac) = c.makes hmac (t.entry c.target))
    (hd : Distinct dir') : Unshared hmac t c := by
  -- a token that the call gives is nobody else's
  have hunshared : ∀ a, acct = some a → a.token ≠ "" → ∀ id r, t.byID.lookup id = some r →
      id ≠ c.target → (t.recs r).hash ≠ hashToken hmac a.token := by
    intro a ha hne id r hr hid hhash
    have hx : t.entry id = some (t.recs r) := Userstore.Table.entry_eq_some.mpr ⟨r, hr, rfl⟩
    rw [h.entry] at hx
    obtain ⟨a', ha', heq⟩ := Option.map_eq_some_iff.mp hx
    rw [← heq] at hhash
    have htok : a'.token = a.token := hm.hashToken_inj hhash
    refine hid (hd id c.target a' a ?_ ?_ (htok ▸ hne) htok)
    · rw [hdir, if_neg hid, ha']
    · rw [hdir, if_pos rfl, ha]
  -- the account of a record has the token whose hash the record has
  have hgives : ∀ x token, c.makes hmac (t.entry c.target) = some x → x.hash = hashToken hmac token →
      ∃ a, acct = some a ∧ a.token = token := by
    intro x token hx hhash
    rw [← hacct] at hx
    obtain ⟨a, ha, rfl⟩ := Option.map_eq_some_iff.mp hx
    exact ⟨a, ha, hm.hashToken_inj hhash⟩
  cases hc with
  | @created id now inp new name =>
    intro hne id' r hr
    obtain ⟨a, ha, htok⟩ := hgives _ inp.credential rfl rfl
    rw [← htok] at hne ⊢
    refine hunshared a ha hne id' r hr ?_
    rintro rfl
    rw [show t.byID.lookup _ = none from new] at hr
    cases hr
  | @rotated id now inp r cred found hcred =>
    intro cred' hcred' hne id' r' hr' hid
    rw [hcred, Option.mem_some_iff] at hcred'
    subst hcred'
    have hx : t.entry id = some (t.recs r) := Userstore.Table.entry_eq_some.mpr ⟨r, found, rfl⟩
    have hmakes : (Call.update id now inp).makes hmac (t.entry id) =
        some ⟨patch (t.recs r).user now inp, hashToken hmac cred⟩ := by
      rw [hx, Call.makes, Option.map_some, hcred]
      rfl
    obtain ⟨a, ha, htok⟩ := hgives _ cred hmakes rfl
    rw [← htok] at hne ⊢
    exact hunshared a ha hne id' r' hr' hid
  | @patched id now inp r found hcred =>
    intro cred' hcred'
    rw [hcred] at hcred'
    cases hcred'
  | deleted found => trivial

/-- A call gives a user the record of account `acct`. -/
theorem Refines.call (hm : KeyedHash hmac) (h : Refines hmac dir t) (acct : Option Account)
    (hc : Changed hmac t c t')
    (hdir : ∀ id, dir'.lookup id = if id = c.target then acct else dir.lookup id)
    (hacct : acct.map (Account.record hmac) = c.makes hmac (t.entry c.target)) :
    Follows hmac dir' t t' := by
  have hentry : ∀ id, t'.entry id = (dir'.lookup id).map (Account.record hmac) := by
    intro id
    rw [Userstore.Table.entry_changed h.keyed hc, hdir]
    split_ifs with hid
    · rw [hid, Function.update_self, hacct]
    · rw [Function.update_of_ne hid, h.entry]
  refine ⟨⟨h.keyed.changed hc, h.pointed.changed hc, hentry⟩, fun he hd => ?_⟩
  exact (Userstore.Table.exact_changed hm h.keyed he hc).mpr (h.unshared hm hc hdir hacct hd)

theorem Refines.create (hm : KeyedHash hmac) (h : Refines hmac dir t) {id : String} {now : ℕ}
    {inp : UserCreate} {u : User} (hf : id ∉ t.byID) (hc : t.create hmac id now inp = .ok (t', u)) :
    Follows hmac (dir.insert u.id ⟨u, inp.credential⟩) t t' := by
  have happ : t.apply hmac (.create id now inp) = .ok (t', some u) := by
    rw [Userstore.Table.apply, hc]
    rfl
  have hu : u = (newRecord hmac id now inp).user := by
    rcases t.apply_spec hmac (.create id now inp) with ⟨-, herr⟩ | ⟨-, t'', hok⟩
    · rw [herr] at happ
      cases happ
    · rw [hok] at happ
      cases happ
      rfl
  have hch : Changed hmac t (.create id now inp) t' := Userstore.Table.changed_of_apply hf happ
  refine h.call hm (some ⟨u, inp.credential⟩) hch (fun id' => ?_) ?_
  · rw [GoMap.lookup_set, hu]
    rfl
  · rw [hu]
    rfl

theorem Refines.update (hm : KeyedHash hmac) (h : Refines hmac dir t) {id : String} {now : ℕ}
    {inp : UserUpdate} {u : User} (hc : t.update hmac id now inp = .ok (t', u)) :
    ∃ a, dir.lookup u.id = some a ∧
      Follows hmac (dir.insert u.id ⟨u, inp.credential.getD a.token⟩) t t' := by
  have happ : t.apply hmac (.update id now inp) = .ok (t', some u) := by
    rw [Userstore.Table.apply, hc]
    rfl
  obtain ⟨x, hx, hu⟩ : ∃ x, t.entry id = some x ∧ u = patch x.user now inp := by
    rcases t.apply_spec hmac (.update id now inp) with ⟨-, herr⟩ | ⟨hno, t'', hok⟩
    · rw [herr] at happ
      cases happ
    · obtain ⟨x, hx⟩ := Option.ne_none_iff_exists'.mp hno
      rw [hok, Call.target, hx] at happ
      cases happ
      exact ⟨x, hx, rfl⟩
  have hid : u.id = id := by
    rw [hu]
    exact ((Userstore.Table.entry_eq_iff h.keyed).mp hx).2
  rw [h.entry] at hx
  obtain ⟨a, ha, hrec⟩ := Option.map_eq_some_iff.mp hx
  rw [hid]
  refine ⟨a, ha, ?_⟩
  have hch : Changed hmac t (.update id now inp) t' := Userstore.Table.changed_of_apply trivial happ
  refine h.call hm (some ⟨u, inp.credential.getD a.token⟩) hch (fun id' => ?_) ?_
  · rw [GoMap.lookup_set]
    rfl
  · have hmakes : (Call.update id now inp).makes hmac (t.entry id) =
        some ⟨patch x.user now inp, (inp.credential.map (hashToken hmac)).getD x.hash⟩ := by
      rw [h.entry, ha, Option.map_some, hrec]
      rfl
    show some (Account.record hmac _) = (Call.update id now inp).makes hmac (t.entry id)
    rw [hmakes, Account.record, hu, ← hrec]
    cases inp.credential <;> rfl

theorem Refines.delete (hm : KeyedHash hmac) (h : Refines hmac dir t) {id : String}
    (hc : t.delete id = .ok t') : Follows hmac (dir.erase id) t t' := by
  have happ : t.apply hmac (.delete id) = .ok (t', none) := by
    rw [Userstore.Table.apply, hc]
    rfl
  have hch : Changed hmac t (.delete id) t' := Userstore.Table.changed_of_apply trivial happ
  refine h.call hm none hch (fun id' => ?_) rfl
  rw [GoMap.lookup_delete]
  rfl

end

section
variable {cfg : Config} {users : Userstore.Table} {s s' : State} {a : Action} {o : List Out}
  {tr : List (Event State Action Out)} {dir dir₀ : GoMap String Account}

/-- Every handler tells what it has done. -/
theorem Refines.respond {b : Broker.State} {r : Request} {i : Input} {t : Userstore.Table}
    {reply : Reply} (hm : KeyedHash cfg.broker.hmac) (h : Refines cfg.broker.hmac dir b.users)
    (hf : drawsFresh b.users r i) (hfail : i.fail = none) (heq : respond cfg b r i = (t, reply)) :
    Follows cfg.broker.hmac (told dir r (.done reply)) b.users t := by
  unfold Adminserver.respond at heq
  split at heq
  · cases heq
    exact h.stays
  · rename_i hroute
    unfold createUser at heq
    split at heq
    · cases heq
      exact h.stays
    · rename_i inp hinp
      split at heq
      · split_ifs at heq <;> cases heq <;> exact h.stays
      · rename_i t' u hc
        rw [flushed, hfail] at heq
        cases heq
        exact h.create hm (hf hroute) hc
  · rename_i id hroute
    cases heq
    unfold getUser
    split
    · exact h.stays
    · simp only [told, hroute]
      exact h.stays
  · rename_i id hroute
    unfold updateUser at heq
    split at heq
    · cases heq
      exact h.stays
    · rename_i inp hinp
      split at heq
      · cases heq
        exact h.stays
      · rename_i t' u hc
        rw [flushed, hfail] at heq
        cases heq
        obtain ⟨a, ha, hfollows⟩ := h.update hm hc
        simp only [told, hroute, ha, hinp, Option.bind_some]
        exact hfollows
  · rename_i id hroute
    unfold deleteUser at heq
    split at heq
    · cases heq
      exact h.stays
    · rename_i t' hc
      rw [flushed, hfail] at heq
      cases heq
      simp only [told, hroute]
      exact h.delete hm hc
  · cases heq
    exact h.stays
  · cases heq
    exact h.stays
  · cases heq
    unfold getNode
    split <;> exact h.stays
  · cases heq
    exact h.stays

theorem directory_append (tr : List (Event State Action Out)) (e : Event State Action Out) :
    directory dir₀ (tr ++ [e]) = seen (directory dir₀ tr) e := by
  rw [directory, List.foldl_append]
  rfl

theorem Refines.step (hm : KeyedHash cfg.broker.hmac)
    (h : Refines cfg.broker.hmac (directory dir₀ tr) s.broker.users)
    (hs : step cfg s a = some (s', o)) (hfl : Flushes a) :
    Follows cfg.broker.hmac (directory dir₀ (tr ++ [⟨s, a, o, s'⟩])) s.broker.users s'.broker.users := by
  rw [directory_append]
  cases stepped_of_step hs with
  | broker a b' o other hb =>
    rw [users_of_step other hb]
    exact h.stays
  | handle n i t reply pc fresh eq =>
    have hpc : (((s.setUsers t).setReq n (.done reply)).req n).pc = .done reply := by
      show (Function.update s.req n _ n).pc = _
      rw [Function.update_self]
    simp only [seen, hpc]
    exact h.respond hm fresh hfl eq
  | _ => exact h.stays

theorem Refines.of_run (h₀ : Refines cfg.broker.hmac dir₀ users) (hm : KeyedHash cfg.broker.hmac)
    (h : (machine cfg users).Run tr s) (hfl : ∀ e ∈ tr, Flushes e.act) :
    Refines cfg.broker.hmac (directory dir₀ tr) s.broker.users := by
  induction h with
  | nil => exact h₀
  | snoc hr hs ih =>
    simp only [List.mem_append, List.mem_singleton, or_imp, forall_and, forall_eq] at hfl
    exact ((ih hfl.1).step hm hs hfl.2).1

theorem distinct_left {tr' : List (Event State Action Out)}
    (hd : ∀ k, Distinct (directory dir₀ ((tr ++ tr').take k))) (k : ℕ) :
    Distinct (directory dir₀ (tr.take k)) := by
  rcases Nat.le_total k tr.length with hk | hk
  · have hpre := hd k
    rwa [List.take_append_of_le_length hk] at hpre
  · have hpre := hd tr.length
    rwa [List.take_append_of_le_length (Nat.le_refl _), List.take_length,
      ← List.take_of_length_le hk] at hpre

theorem exact_of_run (hm : KeyedHash cfg.broker.hmac) (h₀ : Refines cfg.broker.hmac dir₀ users)
    (he : users.Exact) (h : (machine cfg users).Run tr s) (hfl : ∀ e ∈ tr, Flushes e.act)
    (hd : ∀ k, Distinct (directory dir₀ (tr.take k))) : s.broker.users.Exact := by
  induction h with
  | nil => exact he
  | @snoc tr s s' a o hr hs ih =>
    have hlast := hd (tr ++ [(⟨s, a, o, s'⟩ : Event State Action Out)]).length
    rw [List.take_length] at hlast
    simp only [List.mem_append, List.mem_singleton, or_imp, forall_and, forall_eq] at hfl
    exact ((h₀.of_run hm hr hfl.1).step hm hs hfl.2).2 (ih hfl.1 (distinct_left hd)) hlast

/-- The answer about the user with property `P`: their check, or `err` if
there is none. -/
def Answer (dir : GoMap String Account) (P : Account → Prop) (err : StoreError) (region : String)
    (res : Except StoreError User) : Prop :=
  (∃ id a, dir.lookup id = some a ∧ P a ∧ res = checkUser a.user region) ∨
    ((∀ id a, dir.lookup id = some a → ¬ P a) ∧ res = .error err)

section
variable {hmac : String → String} {t : Userstore.Table}

/-- What is found among the records is found among the accounts. -/
theorem Refines.answer (h : Refines hmac dir t) {P : Record → Prop} {Q : Account → Prop}
    {err : StoreError} {region : String} {res : Except StoreError User}
    (hPQ : ∀ a, P (a.record hmac) ↔ Q a) (hf : Userstore.Finds t.entry P err region res) :
    Answer dir Q err region res := by
  rcases hf with ⟨id, x, hx, hP, rfl⟩ | ⟨hnone, rfl⟩
  · rw [h.entry] at hx
    obtain ⟨a, ha, rfl⟩ := Option.map_eq_some_iff.mp hx
    exact Or.inl ⟨id, a, ha, (hPQ a).mp hP, rfl⟩
  · refine Or.inr ⟨fun id a ha hQ => hnone id (a.record hmac) ?_ ((hPQ a).mpr hQ), rfl⟩
    rw [h.entry, ha]
    rfl

theorem Refines.authenticate (h : Refines hmac dir t) (he : t.Exact) (hm : KeyedHash hmac)
    (token region : String) :
    Answer dir (fun a => a.token = token ∧ token ≠ "") .badToken region
      (authenticateForRegion hmac t token region) := by
  refine h.answer (fun a => ?_) (Userstore.Table.finds_authenticate he token region)
  show hashToken hmac a.token = hashToken hmac token ∧ hashToken hmac a.token ≠ "" ↔ _
  rw [Ne, hm.hashToken_eq_empty]
  constructor
  · rintro ⟨heq, hne⟩
    have htok := hm.hashToken_inj heq
    exact ⟨htok, htok ▸ hne⟩
  · rintro ⟨rfl, hne⟩
    exact ⟨rfl, hne⟩

/-- Whom a token leads to has it, even if others have it too. -/
theorem Refines.authenticate_ok (h : Refines hmac dir t) (hm : KeyedHash hmac) {token region : String}
    {u : User} (hok : authenticateForRegion hmac t token region = .ok u) :
    ∃ id a, dir.lookup id = some a ∧ a.token = token ∧ token ≠ "" ∧ checkUser a.user region = .ok u := by
  unfold authenticateForRegion at hok
  split at hok
  · cases hok
  · rename_i r hr
    split_ifs at hok with hne
    obtain ⟨⟨id, hid⟩, hhash, -⟩ := h.pointed _ r hr
    have hx : t.entry id = some (t.recs r) := Userstore.Table.entry_eq_some.mpr ⟨r, hid, rfl⟩
    rw [h.entry] at hx
    obtain ⟨a, ha, heq⟩ := Option.map_eq_some_iff.mp hx
    rw [← heq] at hhash hok
    exact ⟨id, a, ha, hm.hashToken_inj hhash, hne, hok⟩

theorem Refines.authorize (h : Refines hmac dir t) (name region : String) :
    Answer dir (fun a => a.user.username = name) .notFound region (authorizeUser t name region) :=
  h.answer (fun _ => Iff.rfl) (Userstore.Table.finds_authorize name region)

theorem Refines.list (h : Refines hmac dir t) (region status : String) :
    (t.list region status).Perm
      ((dir.entries.map fun e => e.2.user).filter (Userstore.listed region status)) := by
  have hdump : t.dump.Perm (dir.entries.map fun e => e.2.record hmac) := by
    have hids : (dir.entries.map fun e => e.2.record hmac).map (·.user.id) = dir.keys := by
      rw [List.map_map]
      refine List.map_congr_left fun e he => ?_
      have hx : t.entry e.1 = some (e.2.record hmac) := by
        rw [h.entry, GoMap.mem_entries.mp he]
        rfl
      exact ((Userstore.Table.entry_eq_iff h.keyed).mp hx).2
    have hnodup : ((dir.entries.map fun e => e.2.record hmac).map (·.user.id)).Nodup := by
      rw [hids]
      exact dir.keys_nodup
    rw [List.perm_ext_iff_of_nodup
      (List.Nodup.of_map _ (Userstore.Table.nodup_dump_ids h.keyed))
      (List.Nodup.of_map _ hnodup)]
    intro x
    rw [Userstore.Table.mem_dump, List.mem_map]
    constructor
    · rintro ⟨id, hx⟩
      rw [h.entry] at hx
      obtain ⟨a, ha, rfl⟩ := Option.map_eq_some_iff.mp hx
      exact ⟨⟨id, a⟩, GoMap.mem_entries.mpr ha, rfl⟩
    · rintro ⟨e, he, rfl⟩
      exact ⟨e.1, by rw [h.entry, GoMap.mem_entries.mp he]; rfl⟩
  rw [Userstore.Table.list_eq]
  refine List.Perm.filter _ ?_
  have := hdump.map (·.user)
  rwa [List.map_map] at this

end

/-- **The store answers as the directory does.** The broker starts with a store
that has the users of a directory and an exact index. In every state of every
run in which no flush has failed and no two users ever had one token: a lookup,
a listing, the check of a token and the check of a name answer what one reads
off that directory and the answers of the admin API since. -/
theorem directory_answers (hm : KeyedHash cfg.broker.hmac) (h₀ : Refines cfg.broker.hmac dir₀ users)
    (he : users.Exact) (h : (machine cfg users).Run tr s) (hfl : ∀ e ∈ tr, Flushes e.act)
    (hd : ∀ k, Distinct (directory dir₀ (tr.take k))) :
    (∀ id, s.broker.users.get id =
      ((directory dir₀ tr).lookup id).elim (.error .notFound) fun a => .ok a.user) ∧
    (∀ region status, (s.broker.users.list region status).Perm
      (((directory dir₀ tr).entries.map fun e => e.2.user).filter (Userstore.listed region status))) ∧
    (∀ token region, Answer (directory dir₀ tr) (fun a => a.token = token ∧ token ≠ "") .badToken
      region (authenticateForRegion cfg.broker.hmac s.broker.users token region)) ∧
    ∀ name region, Answer (directory dir₀ tr) (fun a => a.user.username = name) .notFound region
      (authorizeUser s.broker.users name region) := by
  have href := h₀.of_run hm h hfl
  refine ⟨fun id => ?_, href.list, href.authenticate (exact_of_run hm h₀ he h hfl hd) hm,
    href.authorize⟩
  rw [Userstore.Table.get_eq, href.entry]
  cases (directory dir₀ tr).lookup id <;> rfl

/-- The prefixes of a run are those of its length at most. -/
theorem distinct_of_le (h : ∀ k ≤ tr.length, Distinct (directory dir₀ (tr.take k))) (k : ℕ) :
    Distinct (directory dir₀ (tr.take k)) := by
  rcases Nat.le_total k tr.length with hk | hk
  · exact h k hk
  · have hall := h tr.length (Nat.le_refl _)
    rwa [List.take_length, ← List.take_of_length_le hk] at hall

/-- A user that the broker seeds its store with. -/
def bobSeed : UserCreate := { username := "bob", credential := "s", allowedRegions := ["*"] }

def bobDir : GoMap String Account :=
  (∅ : GoMap String Account).insert "0" ⟨(newRecord id "0" 0 bobSeed).user, "s"⟩

def bobStore : Userstore.Table :=
  ((({} : Userstore.Table).create id "0" 0 bobSeed).toOption.map Prod.fst).getD {}

theorem bobStore_follows : Follows id bobDir {} bobStore :=
  (refines_empty id).create Userstore.Table.keyedHash_id List.not_mem_nil rfl

theorem bobStore_exact : bobStore.Exact :=
  bobStore_follows.2 Userstore.Table.exact_empty (by decide +kernel)

/-- A request of `root`, from its arrival to its answer. -/
def rootRequest (n : ℕ) (r : Request) (i : Input) : List Action :=
  [.arrive n { r with authorization := "Bearer a" }, .check n, .handle n i]

/-- `root` creates a user. -/
def createAlice : List Action :=
  rootLogin 0 "a" ++ rootRequest 1
    { method := .post, path := ["api", "v1", "users"]
      create := some { username := "alice", allowedRegions := ["us"] } } { id := "1", token := "t" }

/-- A user is created beside the seeded one, with a drawn token, and then given
another: the first does not work any more. -/
theorem directory_answers_rotated : ∃ tr s, (machine rootConfig bobStore).Run tr s ∧
    authenticateForRegion id s.broker.users "t" "us" = .error .badToken ∧
    (authenticateForRegion id s.broker.users "u" "us").map (·.username) = .ok "alice" ∧
    (authenticateForRegion id s.broker.users "s" "us").map (·.username) = .ok "bob" := by
  obtain ⟨tr, s, hr, hfl, hd, hdir, hok⟩ := (machine rootConfig bobStore).exists_run
    (createAlice ++ rootRequest 2
      { method := .patch, path := ["api", "v1", "users", "1"], update := some { credential := some "u" } }
      {})
    (P := fun r => (∀ e ∈ r.1, Flushes e.act) ∧
      (∀ k ≤ r.1.length, Distinct (directory bobDir (r.1.take k))) ∧
      (∀ x ∈ (directory bobDir r.1).entries, x.2.token ≠ "t") ∧
      (authenticateForRegion id r.2.broker.users "u" "us").map (·.username) = .ok "alice" ∧
      (authenticateForRegion id r.2.broker.users "s" "us").map (·.username) = .ok "bob")
    (by decide +kernel)
  obtain ⟨-, -, hauth, -⟩ := directory_answers Userstore.Table.keyedHash_id bobStore_follows.1
    bobStore_exact hr hfl (distinct_of_le hd)
  refine ⟨tr, s, hr, ?_, hok⟩
  rcases hauth "t" "us" with ⟨id, x, hx, ⟨htok, -⟩, -⟩ | ⟨-, heq⟩
  · exact absurd htok (hdir ⟨id, x⟩ (GoMap.mem_entries.mpr hx))
  · exact heq

end

/-! ### Sessions -/

section
variable {cfg : Config} {users : Userstore.Table} {s s' : State} {a : Action} {o : List Out}
  {tr : List (Event State Action Out)}

theorem checkUser_ok {u v : User} {region : String} (h : checkUser u region = .ok v) :
    u.status = userEnabled ∧ regionAllowed u.allowedRegions region = true ∧ v = u := by
  unfold checkUser at h
  split_ifs at h with hs hr
  cases h
  exact ⟨not_not.mp hs, hr, rfl⟩

/-- Whom the store lets in is in the directory. -/
theorem Refines.admits {dir : GoMap String Account} {b : Broker.State} {c : Conn} {i : Broker.Input}
    {u : User} (h : Refines cfg.broker.hmac dir b.users) (hm : KeyedHash cfg.broker.hmac)
    (hadm : Admits cfg.broker b c i u) : ∃ id x, dir.lookup id = some x ∧
      (if cfg.broker.oidc then i.oidc = .ok x.user.username
        else x.token = (b.client c).msg.token ∧ x.token ≠ "") ∧
      checkUser x.user (b.client c).msg.requestedRegion = .ok u := by
  unfold Admits at hadm
  split_ifs at hadm ⊢ with ho
  · obtain ⟨name, hname, hok⟩ := hadm
    rcases h.authorize name (b.client c).msg.requestedRegion with ⟨id, x, hx, rfl, heq⟩ | ⟨-, heq⟩
    · exact ⟨id, x, hx, hname, heq ▸ hok⟩
    · rw [heq] at hok
      cases hok
  · obtain ⟨id, x, hx, htok, hne, hcheck⟩ := h.authenticate_ok hm hadm
    exact ⟨id, x, hx, ⟨htok, htok ▸ hne⟩, hcheck⟩

/-- The broker's part of a run is a run of the broker. -/
theorem broker_run (h : (machine cfg users).Run tr s) :
    ∃ tr', (Broker.machine cfg.broker users).Run tr' s.broker := by
  refine h.image (f := State.broker) rfl fun hs => ?_
  cases stepped_of_step hs with
  | broker a b' o other hb => exact Or.inr ⟨_, _, hb⟩
  | handle n i t reply pc fresh eq => exact Or.inr ⟨.users t, [], rfl⟩
  | _ => exact Or.inl rfl

/-- Every goroutine that was let in has an answer of the store behind it. -/
def LetIn (cfg : Config) (tr : List (Event State Action Out)) (s : State) : Prop :=
  ∀ c, passed (s.broker.client c).pc = true → ∃ tr₁ e tr₂ i, tr = tr₁ ++ e :: tr₂ ∧
    e.act = .broker (.client c i) ∧ Admits cfg.broker e.pre.broker c i (s.broker.client c).user ∧
    (s.broker.client c).msg = (e.pre.broker.client c).msg

theorem LetIn.snoc (h : LetIn cfg tr s) (e : Event State Action Out) {c : Conn}
    (hp : passed (s.broker.client c).pc = true)
    (huser : (s'.broker.client c).user = (s.broker.client c).user)
    (hmsg : (s'.broker.client c).msg = (s.broker.client c).msg) :
    ∃ tr₁ e' tr₂ i, tr ++ [e] = tr₁ ++ e' :: tr₂ ∧ e'.act = .broker (.client c i) ∧
      Admits cfg.broker e'.pre.broker c i (s'.broker.client c).user ∧
      (s'.broker.client c).msg = (e'.pre.broker.client c).msg := by
  obtain ⟨tr₁, e', tr₂, i, rfl, hact, hadm, hmsg'⟩ := h c hp
  rw [huser, hmsg]
  exact ⟨tr₁, e', tr₂ ++ [e], i, by simp, hact, hadm, hmsg'⟩

theorem LetIn.of_run (h : (machine cfg users).Run tr s) : LetIn cfg tr s := by
  induction h with
  | nil => exact nofun
  | @snoc tr s s' a o hr hs ih =>
    intro c hp
    cases stepped_of_step hs with
    | broker a b' o other hb =>
      rcases passed_of_step hb hp with ⟨hp', huser, hmsg⟩ | ⟨i, rfl, -, hadm, hmsg⟩
      · exact ih.snoc _ hp' huser hmsg
      · exact ⟨tr, _, [], i, rfl, rfl, hadm, hmsg⟩
    | _ => exact ih.snoc _ hp rfl rfl

/-- **Every session goes back to the directory.** The broker starts with a
store that has the users of a directory. In every run in which no flush has
failed: when a client is told that it has a session, there was a moment at
which its token, or its verified identity, was that of a user of the directory
who was enabled and allowed in the region it had asked for, and the session is
in that user's name. -/
theorem session_admitted (hm : KeyedHash cfg.broker.hmac) {dir₀ : GoMap String Account}
    (h₀ : Refines cfg.broker.hmac dir₀ users) (h : (machine cfg users).Run tr s)
    (hfl : ∀ e ∈ tr, Flushes e.act)
    {tr₁ tr₂ : List (Event State Action Out)} {e : Event State Action Out} (htr : tr = tr₁ ++ e :: tr₂)
    {c : Conn} {sid mtu : ℕ} {ip mask : String} {ice : Proto.IceServers}
    (hok : Out.ctrl c (.connectOK sid ip mask mtu ice) ∈ e.out) :
    ∃ tr₃ e' tr₄ i id x, tr₁ = tr₃ ++ e' :: tr₄ ∧ e'.act = .broker (.client c i) ∧
      (directory dir₀ tr₃).lookup id = some x ∧ x.user.status = userEnabled ∧
      regionAllowed x.user.allowedRegions (e.pre.broker.client c).msg.requestedRegion = true ∧
      (if cfg.broker.oidc then i.oidc = .ok x.user.username
        else x.token = (e.pre.broker.client c).msg.token ∧ x.token ≠ "") ∧
      ∃ p, e.pre.broker.sessions.lookup sid = some p ∧
        (e.pre.broker.sess p).username = x.user.username := by
  subst htr
  obtain ⟨hr, hs⟩ := h.at_event rfl
  obtain ⟨pre, act, out, post⟩ := e
  dsimp only at hr hs hok ⊢
  obtain ⟨trb, hrb⟩ := broker_run hr
  have hinv := Broker.Inv.of_run hrb
  cases stepped_of_step hs with
  | broker a b' o other hb =>
    obtain ⟨-, hpc, -, hsid, -⟩ :=
      Broker.connectOK_written hinv.replies (Broker.says_of_step hinv.timers hb) hok
    have hph : (pre.broker.client c).pc.phase = .holds := by rw [hpc]; rfl
    obtain ⟨tr₃, e', tr₄, i, rfl, hact, hadm, hmsg⟩ := LetIn.of_run hr c (by rw [hpc]; rfl)
    obtain ⟨hr', -⟩ := hr.at_event rfl
    have href := h₀.of_run hm hr' fun x hx => hfl x (by simp [hx])
    obtain ⟨id, x, hx, hwho, hcheck⟩ := href.admits hm hadm
    obtain ⟨hen, hreg, huser⟩ := checkUser_ok hcheck
    refine ⟨tr₃, e', tr₄, i, id, x, rfl, hact, hx, hen, ?_, ?_, _, hsid ▸ (hinv.rep.held c hph).1, ?_⟩
    · rw [hmsg]
      exact hreg
    · rw [hmsg]
      exact hwho
    · rw [← (Broker.History.of_run hrb).user c hph, huser]
  | _ => cases hok

/-- A user is created, and the seeded one is given the same token: it leads to
them now. They connect with it. -/
theorem session_admitted_shared : ∃ tr s, (machine rootConfig bobStore).Run tr s ∧
    (s.broker.sess 1).username = "bob" ∧ ∃ tr₃ tr₄ id x, tr = tr₃ ++ tr₄ ∧
      (directory bobDir tr₃).lookup id = some x ∧ x.user.status = userEnabled ∧ x.token = "t" := by
  obtain ⟨tr, s, hr, hfl, hs, e, he, hok, htok⟩ := (machine rootConfig bobStore).exists_run
    (createAlice ++ rootRequest 2
      { method := .patch, path := ["api", "v1", "users", "0"], update := some { credential := some "t" } }
      {} ++ (.register 0 (Broker.node "e1" "us" 0) ::
      Broker.joins 1 { token := "t", requestedRegion := "us" }).map .broker)
    (P := fun r => (∀ e ∈ r.1, Flushes e.act) ∧ (r.2.broker.sess 1).username = "bob" ∧
      ∃ e ∈ r.1, Out.ctrl 1 (.connectOK 1 "10.99.0.2" "255.255.255.0" 1200 {}) ∈ e.out ∧
        (e.pre.broker.client 1).msg.token = "t")
    (by decide +kernel)
  obtain ⟨tr₁, tr₂, htr⟩ : ∃ tr₁ tr₂, tr = tr₁ ++ e :: tr₂ := List.append_of_mem he
  obtain ⟨tr₃, e', tr₄, i, id, x, hsplit, -, hx, hen, -, hwho, -⟩ :=
    session_admitted Userstore.Table.keyedHash_id bobStore_follows.1 hr hfl htr hok
  refine ⟨tr, s, hr, hs, tr₃, e' :: tr₄ ++ e :: tr₂, id, x, ?_, hx, hen, ?_⟩
  · rw [htr, hsplit, List.append_assoc]
  · rw [← htok]
    exact hwho.1

end
end Adminserver
end Revquic
