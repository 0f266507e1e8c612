/-
# The table of users and its index of tokens

`Create`, `Update` and `Delete` change the two maps of the table: `byID`, and
`byHash`, the index from a token's hash to the record that has it. Nothing
stops two users from having the same token: the later one takes the entry
over, and when either gives the token up the entry goes, so that the other
can no longer log in. The index is exact in every state of a run if and only
if no step gives a user a token that another one has; in such a run a token
leads to the one user who has it now.

`newID` draws 16 random bytes; an id is taken never to come up twice.

Key definitions: `create`, `update`, `delete`, `Changed`, `Exact`,
`Unshared`.
Key theorem: `index_exact_iff`.
-/
import Revquic.Lib.Machine
import Revquic.Userstore

namespace Revquic
namespace Userstore

open Lib

/-- `adminapi.UserCreate`. -/
structure UserCreate where
  username : String := ""
  credential : String := ""
  allowedRegions : List String := []
  status : String := ""
  deriving DecidableEq

/-- `adminapi.UserUpdate`: a missing field stays as it is. -/
structure UserUpdate where
  allowedRegions : Option (List String) := none
  status : Option String := none
  credential : Option String := none
  deriving DecidableEq

/-- The calls that change a store, with the id `newID` draws and the time. -/
inductive Call
  | create (id : String) (now : ℕ) (inp : UserCreate)
  | update (id : String) (now : ℕ) (inp : UserUpdate)
  | delete (id : String)

/-- The user a call is about. -/
def Call.target : Call → String
  | .create id _ _ | .update id _ _ | .delete id => id

/-- The record `Create` makes. -/
def newRecord (hmac : String → String) (id : String) (now : ℕ) (inp : UserCreate) : Record :=
  { user := { id, username := inp.username, allowedRegions := inp.allowedRegions
              status := if inp.status = "" then userEnabled else inp.status
              createdAt := now, updatedAt := now }
    hash := hashToken hmac inp.credential }

/-- A user with the fields of an `Update` set. -/
def patch (u : User) (now : ℕ) (inp : UserUpdate) : User :=
  { u with
    allowedRegions := inp.allowedRegions.getD u.allowedRegions
    status := inp.status.getD u.status
    updatedAt := now }

/-- What a successful call makes of its user's record. -/
def Call.makes (hmac : String → String) : Call → Option Record → Option Record
  | .create id now inp, _ => some (newRecord hmac id now inp)
  | .update _ now inp, old => old.map fun x =>
      { user := patch x.user now inp, hash := (inp.credential.map (hashToken hmac)).getD x.hash }
  | .delete _, _ => none

/-- The error of a call that is refused. -/
def Call.refusal : Call → StoreError
  | .create _ _ _ => .conflict
  | .update _ _ _ | .delete _ => .notFound

/-- The token each user was last given, after a call. -/
def Call.gives (creds : String → String) : Call → String → String
  | .create id _ inp => Function.update creds id inp.credential
  | .update id _ inp => Function.update creds id (inp.credential.getD (creds id))
  | .delete _ => creds

/-- The filter of `List`; an empty argument lets every user through. -/
def listed (region status : String) (u : User) : Bool :=
  (status = "" || u.status = status) && (region = "" || regionAllowed u.allowedRegions region)

namespace Table

variable (hmac : String → String) (t : Table)

/-- A pointer neither map has. -/
def fresh : ℕ :=
  (t.byID.entries.map (·.2) ++ t.byHash.entries.map (·.2)).foldr (fun r n => max (r + 1) n) 0

/-- `byHash[r.Hash] = r`, unless the hash is empty. -/
def setHash (m : GoMap String ℕ) (h : String) (r : ℕ) : GoMap String ℕ :=
  if h ≠ "" then m.insert h r else m

/-- `Create`, up to the flush. -/
def create (id : String) (now : ℕ) (inp : UserCreate) : Except StoreError (Table × User) :=
  if t.byID.entries.any fun e => (t.recs e.2).user.username = inp.username then .error .conflict
  else
    let new := newRecord hmac id now inp
    .ok ({ recs := Function.update t.recs t.fresh new
           byID := t.byID.insert id t.fresh
           byHash := setHash t.byHash new.hash t.fresh }, new.user)

/-- `Get`. -/
def get (id : String) : Except StoreError User :=
  match t.byID.lookup id with
  | none => .error .notFound
  | some r => .ok (t.recs r).user

/-- `List`. -/
def list (region status : String) : List User :=
  (t.byID.entries.map fun e => (t.recs e.2).user).filter (listed region status)

/-- `Update`, up to the flush. -/
def update (id : String) (now : ℕ) (inp : UserUpdate) : Except StoreError (Table × User) :=
  match t.byID.lookup id with
  | none => .error .notFound
  | some r =>
    let user := patch (t.recs r).user now inp
    match inp.credential with
    | none => .ok ({ t with recs := Function.update t.recs r { t.recs r with user } }, user)
    | some c =>
      .ok ({ t with
             recs := Function.update t.recs r { user, hash := hashToken hmac c }
             byHash := setHash (t.byHash.erase (t.recs r).hash) (hashToken hmac c) r }, user)

/-- `Delete`, up to the flush. -/
def delete (id : String) : Except StoreError Table :=
  match t.byID.lookup id with
  | none => .error .notFound
  | some r => .ok { t with byID := t.byID.erase id, byHash := t.byHash.erase (t.recs r).hash }

/-- A call that changes the store, and the user it returns. -/
def apply : Call → Except StoreError (Table × Option User)
  | .create id now inp => (t.create hmac id now inp).map fun x => (x.1, some x.2)
  | .update id now inp => (t.update hmac id now inp).map fun x => (x.1, some x.2)
  | .delete id => (t.delete id).map fun t' => (t', none)

/-- `newID` draws an id that no user has. -/
def Fresh (t : Table) : Call → Prop
  | .create id _ _ => id ∉ t.byID
  | .update _ _ _ | .delete _ => True

instance (t : Table) : DecidablePred (Fresh t)
  | .create _ _ _ => inferInstanceAs (Decidable (_ ∉ _))
  | .update _ _ _ | .delete _ => isTrue trivial

/-- A successful call. -/
def step (t : Table) (c : Call) : Option (Table × List Unit) :=
  if t.Fresh c then
    match t.apply hmac c with
    | .ok (t', _) => some (t', [])
    | .error _ => none
  else none

/-- An empty table, under any sequence of successful calls. -/
def machine : Machine Table Call Unit := ⟨{}, step hmac⟩

/-! ### What a call changes -/

/-- The four ways a successful call changes the table. -/
inductive Changed (t : Table) : Call → Table → Prop
  | created {id : String} {now : ℕ} {inp : UserCreate} (new : t.byID.lookup id = none)
      (name : ∀ id' r, t.byID.lookup id' = some r → (t.recs r).user.username ≠ inp.username) :
      Changed t (.create id now inp)
        { recs := Function.update t.recs t.fresh (newRecord hmac id now inp)
          byID := t.byID.insert id t.fresh
          byHash := setHash t.byHash (hashToken hmac inp.credential) t.fresh }
  | patched {id : String} {now : ℕ} {inp : UserUpdate} {r : ℕ} (found : t.byID.lookup id = some r)
      (cred : inp.credential = none) :
      Changed t (.update id now inp)
        { t with
          recs := Function.update t.recs r { t.recs r with user := patch (t.recs r).user now inp } }
  | rotated {id : String} {now : ℕ} {inp : UserUpdate} {r : ℕ} {c : String}
      (found : t.byID.lookup id = some r) (cred : inp.credential = some c) :
      Changed t (.update id now inp)
        { t with
          recs := Function.update t.recs r
            { user := patch (t.recs r).user now inp, hash := hashToken hmac c }
          byHash := setHash (t.byHash.erase (t.recs r).hash) (hashToken hmac c) r }
  | deleted {id : String} {r : ℕ} (found : t.byID.lookup id = some r) :
      Changed t (.delete id)
        { t with byID := t.byID.erase id, byHash := t.byHash.erase (t.recs r).hash }

variable {hmac} {t t' : Table} {c : Call}

theorem username_ne {name : String}
    (h : (t.byID.entries.any fun e => (t.recs e.2).user.username = name) = false) {id : String} {r : ℕ}
    (hr : t.byID.lookup id = some r) : (t.recs r).user.username ≠ name := by
  rw [List.any_eq_false] at h
  simpa using h ⟨id, r⟩ (GoMap.mem_entries.mpr hr)

theorem changed_of_apply {u : Option User} (hf : t.Fresh c) (h : t.apply hmac c = .ok (t', u)) :
    Changed hmac t c t' := by
  cases c with
  | create id now inp =>
    simp only [apply, create] at h
    cases hname : t.byID.entries.any fun e => (t.recs e.2).user.username = inp.username with
    | true => simp [hname, Except.map] at h
    | false =>
      simp only [hname, Bool.false_eq_true, if_false, Except.map] at h
      obtain ⟨rfl, -⟩ := Prod.mk.inj (Except.ok.inj h)
      exact .created (AList.lookup_eq_none.mpr hf) fun id' r hr => username_ne hname hr
  | update id now inp =>
    simp only [apply, update] at h
    cases hr : t.byID.lookup id with
    | none => simp [hr, Except.map] at h
    | some r =>
      cases hc : inp.credential with
      | none =>
        simp only [hr, hc, Except.map] at h
        obtain ⟨rfl, -⟩ := Prod.mk.inj (Except.ok.inj h)
        exact .patched hr hc
      | some c =>
        simp only [hr, hc, Except.map] at h
        obtain ⟨rfl, -⟩ := Prod.mk.inj (Except.ok.inj h)
        exact .rotated hr hc
  | delete id =>
    simp only [apply, delete] at h
    cases hr : t.byID.lookup id with
    | none => simp [hr, Except.map] at h
    | some r =>
      simp only [hr, Except.map] at h
      obtain ⟨rfl, -⟩ := Prod.mk.inj (Except.ok.inj h)
      exact .deleted hr

theorem changed_of_step {o : List Unit} (h : t.step hmac c = some (t', o)) : Changed hmac t c t' := by
  unfold step at h
  split_ifs at h with hf
  split at h
  · rename_i heq
    obtain ⟨rfl, -⟩ := Prod.mk.inj (Option.some.inj h)
    exact changed_of_apply hf heq
  · cases h

theorem lt_foldr_max : ∀ {l : List ℕ} {r : ℕ}, r ∈ l → r < l.foldr (fun r n => max (r + 1) n) 0
  | a :: l, r, h => by
    rw [List.foldr_cons]
    rcases List.mem_cons.mp h with rfl | h
    · omega
    · have := lt_foldr_max h
      omega

theorem ne_fresh {id : String} {r : ℕ} (h : t.byID.lookup id = some r) : r ≠ t.fresh := by
  refine Nat.ne_of_lt (lt_foldr_max (List.mem_append_left _ ?_))
  exact List.mem_map.mpr ⟨⟨id, r⟩, GoMap.mem_entries.mpr h, rfl⟩

theorem ne_fresh_of_hash {h : String} {r : ℕ} (hr : t.byHash.lookup h = some r) : r ≠ t.fresh := by
  refine Nat.ne_of_lt (lt_foldr_max (List.mem_append_right _ ?_))
  exact List.mem_map.mpr ⟨⟨h, r⟩, GoMap.mem_entries.mpr hr, rfl⟩

theorem lookup_setHash (m : GoMap String ℕ) (h : String) (r : ℕ) (x : String) :
    (setHash m h r).lookup x = if x = h ∧ h ≠ "" then some r else m.lookup x := by
  unfold setHash
  split_ifs with h₁ h₂ h₂
  · rw [GoMap.lookup_set, if_pos h₂.1]
  · rw [GoMap.lookup_set, if_neg fun hx => h₂ ⟨hx, h₁⟩]
  · exact absurd h₂.2 h₁
  · rfl

/-! ### Records by id -/

/-- Every record is stored under its user's id. -/
def Keyed (t : Table) : Prop := ∀ id r, t.byID.lookup id = some r → (t.recs r).user.id = id

theorem Keyed.inj (h : t.Keyed) {id id' : String} {r : ℕ} (hr : t.byID.lookup id = some r)
    (hr' : t.byID.lookup id' = some r) : id = id' := (h id r hr).symm.trans (h id' r hr')

theorem Keyed.changed (h : t.Keyed) (hc : Changed hmac t c t') : t'.Keyed := by
  have hupd : ∀ (r : ℕ) (x : Record) (id' : String) (r' : ℕ), x.user.id = (t.recs r).user.id →
      t.byID.lookup id' = some r' → (Function.update t.recs r x r').user.id = id' := by
    intro r x id' r' hx hr'
    by_cases hr : r' = r
    · subst hr
      rw [Function.update_self, hx]
      exact h id' r' hr'
    · rw [Function.update_of_ne hr]
      exact h id' r' hr'
  intro id' r' hr'
  cases hc with
  | created new name =>
    dsimp only at hr' ⊢
    rw [GoMap.lookup_set] at hr'
    split_ifs at hr' with hid
    · obtain rfl := Option.some.inj hr'
      rw [Function.update_self, hid]
      rfl
    · rw [Function.update_of_ne (ne_fresh hr')]
      exact h id' r' hr'
  | patched found cred | rotated found cred => exact hupd _ _ id' r' rfl hr'
  | deleted found =>
    dsimp only at hr' ⊢
    rw [GoMap.lookup_delete] at hr'
    split_ifs at hr' with hid
    exact h id' r' hr'

/-- The record of a user. -/
def entry (t : Table) (id : String) : Option Record := (t.byID.lookup id).map t.recs

theorem entry_eq_some {id : String} {x : Record} :
    t.entry id = some x ↔ ∃ r, t.byID.lookup id = some r ∧ t.recs r = x := Option.map_eq_some_iff

/-- No other record changes. -/
theorem entry_changed (h : t.Keyed) (hc : Changed hmac t c t') :
    t'.entry = Function.update t.entry c.target (c.makes hmac (t.entry c.target)) := by
  have hupd : ∀ {id : String} {r : ℕ} {x : Record}, t.byID.lookup id = some r → ∀ id',
      (t.byID.lookup id').map (Function.update t.recs r x) = if id' = id then some x else t.entry id' := by
    intro id r x hr id'
    split_ifs with hid
    · rw [hid, hr, Option.map_some, Function.update_self]
    · refine Option.map_congr fun r' hr' => Function.update_of_ne ?_ _ _
      rintro rfl
      exact hid (h.inj hr' hr)
  funext id'
  cases hc with
  | @created id now inp new name =>
    by_cases hid : id' = id
    · subst hid
      simp [entry, Call.target, Call.makes]
    · simp only [entry, GoMap.lookup_set, Call.target, Function.update_of_ne hid, if_neg hid]
      exact Option.map_congr fun r' hr' => Function.update_of_ne (ne_fresh hr') _ _
  | patched found cred | rotated found cred =>
    rw [Function.update_apply]
    refine (hupd found id').trans ?_
    simp [Call.target, Call.makes, entry, found, cred]
  | @deleted id r found =>
    by_cases hid : id' = id
    · subst hid
      simp [entry, Call.target, Call.makes]
    · simp [entry, Call.target, hid]

/-- What a call makes of its own user's record, in any table. -/
theorem entry_target (hc : Changed hmac t c t') :
    t'.entry c.target = c.makes hmac (t.entry c.target) := by
  cases hc with
  | created new name | deleted found => simp [entry, Call.target, Call.makes]
  | patched found cred | rotated found cred => simp [entry, Call.target, Call.makes, found, cred]

/-! ### The index -/

/-- Record `r` is a user's, and its hash is `h`. -/
def Has (t : Table) (r : ℕ) (h : String) : Prop :=
  (∃ id, t.byID.lookup id = some r) ∧ (t.recs r).hash = h ∧ h ≠ ""

/-- The index leads from each hash to the record that has it. -/
def Exact (t : Table) : Prop := ∀ h r, t.byHash.lookup h = some r ↔ t.Has r h

/-- The index leads from a hash to a record that has it, shared or not. -/
def Pointed (t : Table) : Prop := ∀ h r, t.byHash.lookup h = some r → t.Has r h

/-- A call gives no user a token that another user has. -/
def Unshared (hmac : String → String) (t : Table) : Call → Prop
  | .create _ _ inp => inp.credential ≠ "" →
      ∀ id r, t.byID.lookup id = some r → (t.recs r).hash ≠ hashToken hmac inp.credential
  | .update id _ inp => ∀ c ∈ inp.credential, c ≠ "" →
      ∀ id' r, t.byID.lookup id' = some r → id' ≠ id → (t.recs r).hash ≠ hashToken hmac c
  | .delete _ => True

instance (hmac : String → String) (t : Table) : DecidablePred (Unshared hmac t)
  | .create _ _ inp =>
    decidable_of_iff (inp.credential ≠ "" →
        ∀ e ∈ t.byID.entries, (t.recs e.2).hash ≠ hashToken hmac inp.credential)
      ⟨fun h hne id r hr => h hne ⟨id, r⟩ (GoMap.mem_entries.mpr hr),
        fun h hne e he => h hne e.1 e.2 (GoMap.mem_entries.mp he)⟩
  | .update id _ inp =>
    decidable_of_iff (∀ c ∈ inp.credential, c ≠ "" →
        ∀ e ∈ t.byID.entries, e.1 ≠ id → (t.recs e.2).hash ≠ hashToken hmac c)
      ⟨fun h c hc hne id r hr => h c hc hne ⟨id, r⟩ (GoMap.mem_entries.mpr hr),
        fun h c hc hne e he => h c hc hne e.1 e.2 (GoMap.mem_entries.mp he)⟩
  | .delete _ => isTrue trivial

/-- What the keyed hash is taken to be: injective on the tokens, and never
empty. -/
structure KeyedHash (hmac : String → String) : Prop where
  ne_empty : ∀ token, token ≠ "" → hmac token ≠ ""
  inj : ∀ a b, a ≠ "" → b ≠ "" → hmac a = hmac b → a = b

theorem KeyedHash.hashToken_eq_empty (hm : KeyedHash hmac) {token : String} :
    hashToken hmac token = "" ↔ token = "" := by
  unfold hashToken
  split_ifs with h
  · simp [h]
  · simp [h, hm.ne_empty token h]

theorem KeyedHash.hashToken_inj (hm : KeyedHash hmac) {a b : String}
    (h : hashToken hmac a = hashToken hmac b) : a = b := by
  by_cases ha : a = ""
  · subst ha
    exact (hm.hashToken_eq_empty.mp (h.symm.trans (by simp [hashToken]))).symm
  · by_cases hb : b = ""
    · subst hb
      exact hm.hashToken_eq_empty.mp (h.trans (by simp [hashToken]))
    · rw [hashToken, hashToken, if_neg ha, if_neg hb] at h
      exact hm.inj a b ha hb h

theorem Exact.unique (he : t.Exact) {r r' : ℕ} {h : String} (hr : t.Has r h) (hr' : t.Has r' h) :
    r = r' := Option.some.inj (((he h r).mpr hr).symm.trans ((he h r').mpr hr'))

/-- A table whose index changes by removing one hash and giving another, `h`,
to record `r`, all other records keeping theirs. -/
theorem exact_setHash {r : ℕ} {h : String} {m : GoMap String ℕ}
    (hself : ∀ x, t'.Has r x ↔ x = h ∧ h ≠ "")
    (hm : ∀ x p, m.lookup x = some p ↔ p ≠ r ∧ t'.Has p x)
    (hby : t'.byHash = setHash m h r) :
    t'.Exact ↔ (h ≠ "" → ∀ p, p ≠ r → ¬ t'.Has p h) := by
  constructor
  · intro he hne p hp hhas
    exact hp (he.unique hhas ((hself h).mpr ⟨rfl, hne⟩))
  · intro hfree x p
    rw [hby, lookup_setHash]
    split_ifs with hx
    · obtain ⟨rfl, hne⟩ := hx
      constructor
      · intro hp
        obtain rfl := Option.some.inj hp
        exact (hself x).mpr ⟨rfl, hne⟩
      · intro hp
        by_contra hpr
        exact hfree hne p (fun e => hpr (by rw [e])) hp
    · rw [hm]
      constructor
      · exact And.right
      · intro hp
        refine ⟨?_, hp⟩
        rintro rfl
        exact hx ((hself x).mp hp)

theorem exact_created (hm : KeyedHash hmac) (he : t.Exact) {id : String} {now : ℕ} {inp : UserCreate}
    (new : t.byID.lookup id = none)
    (hc : Changed hmac t (.create id now inp) t') : t'.Exact ↔ Unshared hmac t (.create id now inp) := by
  cases hc with
  | created _ name =>
    have hother : ∀ {p x}, p ≠ t.fresh →
        (Has ⟨Function.update t.recs t.fresh (newRecord hmac id now inp), t.byID.insert id t.fresh,
          setHash t.byHash (hashToken hmac inp.credential) t.fresh⟩ p x ↔ t.Has p x) := by
      intro p x hp
      simp only [Has, Function.update_of_ne hp, GoMap.lookup_set]
      refine and_congr_left fun _ => ⟨?_, ?_⟩
      · rintro ⟨id', hid'⟩
        split_ifs at hid' with h
        · exact absurd (Option.some.inj hid').symm hp
        · exact ⟨id', hid'⟩
      · rintro ⟨id', hid'⟩
        refine ⟨id', ?_⟩
        rw [if_neg, hid']
        rintro rfl
        rw [new] at hid'
        cases hid'
    rw [exact_setHash (r := t.fresh) (h := hashToken hmac inp.credential) (m := t.byHash) ?_ ?_ rfl]
    · simp only [Unshared, ne_eq, hm.hashToken_eq_empty]
      refine imp_congr_right fun hne => ⟨fun h id' r hr hhash => ?_, fun h p hp hhas => ?_⟩
      · exact h r (ne_fresh hr) ((hother (ne_fresh hr)).mpr
          ⟨⟨id', hr⟩, hhash, fun e => hne (hm.hashToken_eq_empty.mp e)⟩)
      · obtain ⟨⟨id', hr⟩, hhash, -⟩ := (hother hp).mp hhas
        exact h id' p hr hhash
    · intro x
      simp only [Has, Function.update_self, newRecord, GoMap.lookup_set]
      constructor
      · rintro ⟨-, rfl, hne⟩
        exact ⟨rfl, hne⟩
      · rintro ⟨rfl, hne⟩
        exact ⟨⟨id, if_pos rfl⟩, rfl, hne⟩
    · intro x p
      rw [he x p]
      constructor
      · intro hp
        have hne : p ≠ t.fresh := ne_fresh_of_hash ((he x p).mpr hp)
        exact ⟨hne, (hother hne).mpr hp⟩
      · exact fun h => (hother h.1).mp h.2

/-- The index without the hash of record `r`. -/
theorem lookup_erase_hash (he : t.Exact) {r : ℕ} (hr : ∃ id, t.byID.lookup id = some r) (x : String) (p : ℕ) :
    (t.byHash.erase (t.recs r).hash).lookup x = some p ↔ p ≠ r ∧ t.Has p x := by
  rw [GoMap.lookup_delete]
  constructor
  · intro h
    split_ifs at h with hx
    have hp := (he x p).mp h
    refine ⟨?_, hp⟩
    rintro rfl
    exact hx hp.2.1.symm
  · rintro ⟨hne, hp⟩
    rw [if_neg, (he x p).mpr hp]
    intro hx
    exact hne (he.unique hp ⟨hr, hx.symm, hp.2.2⟩)

theorem has_update {r p : ℕ} {x : Record} {m : GoMap String ℕ} {y : String} (hp : p ≠ r) :
    Has ⟨Function.update t.recs r x, t.byID, m⟩ p y ↔ t.Has p y := by
  simp only [Has, Function.update_of_ne hp]

/-- No call leaves the index with a hash that its record does not have. -/
theorem Pointed.changed (h : t.Pointed) (hc : Changed hmac t c t') : t'.Pointed := by
  -- what is left of the index without the hash of record `r` leads elsewhere
  have herase : ∀ {r x p}, (t.byHash.erase (t.recs r).hash).lookup x = some p → p ≠ r ∧ t.Has p x := by
    intro r x p hp
    rw [GoMap.lookup_delete] at hp
    split_ifs at hp with hx
    have hhas := h x p hp
    refine ⟨?_, hhas⟩
    rintro rfl
    exact hx hhas.2.1.symm
  intro x p hp
  cases hc with
  | @created id now inp new name =>
    rw [lookup_setHash] at hp
    split_ifs at hp with hx
    · obtain rfl := Option.some.inj hp
      obtain ⟨rfl, hne⟩ := hx
      refine ⟨⟨id, ?_⟩, ?_, hne⟩
      · rw [GoMap.lookup_set, if_pos rfl]
      · simp only [Function.update_self, newRecord]
    · obtain ⟨⟨id', hid'⟩, hrest⟩ := h x p hp
      refine ⟨⟨id', ?_⟩, by simpa only [Function.update_of_ne (ne_fresh hid')] using hrest⟩
      rw [GoMap.lookup_set, if_neg, hid']
      rintro rfl
      rw [new] at hid'
      cases hid'
  | @patched id now inp r found cred =>
    by_cases hpr : p = r
    · subst hpr
      simpa only [Has, Function.update_self] using h x p hp
    · exact (has_update hpr).mpr (h x p hp)
  | @rotated id now inp r c found cred =>
    rw [lookup_setHash] at hp
    split_ifs at hp with hx
    · obtain rfl := Option.some.inj hp
      obtain ⟨rfl, hne⟩ := hx
      exact ⟨⟨id, found⟩, by simp only [Function.update_self], hne⟩
    · obtain ⟨hpr, hhas⟩ := herase hp
      exact (has_update hpr).mpr hhas
  | @deleted id r found =>
    obtain ⟨hpr, ⟨id', hid'⟩, hrest⟩ := herase hp
    refine ⟨⟨id', ?_⟩, hrest⟩
    rw [GoMap.lookup_delete, if_neg, hid']
    rintro rfl
    exact hpr (Option.some.inj (hid'.symm.trans found))

/-- A successful call keeps the index exact if and only if it shares no
token. -/
theorem exact_changed (hm : KeyedHash hmac) (hk : t.Keyed) (he : t.Exact) (hc : Changed hmac t c t') :
    t'.Exact ↔ Unshared hmac t c := by
  cases hc with
  | created new name => exact exact_created hm he new (.created new name)
  | @patched id now inp r found cred =>
    refine iff_of_true (fun x p => (he x p).trans ?_) (fun c hc => by simp [cred] at hc)
    by_cases hp : p = r
    · subst hp
      simp only [Has, Function.update_self]
    · exact (has_update hp).symm
  | @rotated id now inp r c found cred =>
    rw [exact_setHash (r := r) (h := hashToken hmac c) (m := t.byHash.erase (t.recs r).hash) ?_ ?_ rfl]
    · simp only [Unshared, cred, Option.mem_some_iff, forall_eq', ne_eq, hm.hashToken_eq_empty]
      refine imp_congr_right fun hne => ⟨fun h id' r' hr' hid hhash => ?_, fun h p hp hhas => ?_⟩
      · have hne' : r' ≠ r := fun e => hid (hk.inj hr' (e ▸ found))
        exact h r' hne' ((has_update hne').mpr
          ⟨⟨id', hr'⟩, hhash, fun e => hne (hm.hashToken_eq_empty.mp e)⟩)
      · obtain ⟨⟨id', hr'⟩, hhash, -⟩ := (has_update hp).mp hhas
        refine h id' p hr' ?_ hhash
        rintro rfl
        exact hp (Option.some.inj (hr'.symm.trans found))
    · intro x
      simp only [Has, Function.update_self]
      constructor
      · rintro ⟨-, rfl, hne⟩
        exact ⟨rfl, hne⟩
      · rintro ⟨rfl, hne⟩
        exact ⟨⟨id, found⟩, rfl, hne⟩
    · intro x p
      rw [lookup_erase_hash he ⟨id, found⟩]
      exact and_congr_right fun hp => (has_update hp).symm
  | @deleted id r found =>
    refine iff_of_true (fun x p => (lookup_erase_hash he ⟨id, found⟩ x p).trans ?_) trivial
    simp only [Has, GoMap.lookup_delete]
    constructor
    · rintro ⟨hp, ⟨id', hr'⟩, hhash⟩
      refine ⟨⟨id', ?_⟩, hhash⟩
      rw [if_neg, hr']
      rintro rfl
      exact hp (Option.some.inj (hr'.symm.trans found))
    · rintro ⟨⟨id', hr'⟩, hhash⟩
      split_ifs at hr' with hid
      refine ⟨?_, ⟨id', hr'⟩, hhash⟩
      rintro rfl
      exact hid (hk.inj hr' found)

/-! ### Who a token leads to -/

theorem checkUser_eq_ok {u v : User} {region : String} :
    checkUser u region = .ok v ↔
      u = v ∧ u.status = userEnabled ∧ regionAllowed u.allowedRegions region = true := by
  unfold checkUser
  split_ifs with h₁ h₂ <;> simp_all

theorem authenticate_eq (he : t.Exact) {id : String} {x : Record} (hx : t.entry id = some x)
    {token : String} (hne : hashToken hmac token ≠ "") (hh : x.hash = hashToken hmac token)
    (region : String) : authenticateForRegion hmac t token region = checkUser x.user region := by
  obtain ⟨r, hr, rfl⟩ := entry_eq_some.mp hx
  have hlook : t.byHash.lookup (hashToken hmac token) = some r := (he _ r).mpr ⟨⟨id, hr⟩, hh, hne⟩
  have htok : token ≠ "" := by
    rintro rfl
    exact hne (by simp [hashToken])
  rw [authenticateForRegion, hlook]
  exact if_neg htok

theorem authenticate_badToken (he : t.Exact) {token : String}
    (h : ∀ id x, t.entry id = some x → hashToken hmac token ≠ "" → x.hash ≠ hashToken hmac token)
    (region : String) : authenticateForRegion hmac t token region = .error .badToken := by
  unfold authenticateForRegion
  split
  · rfl
  · rename_i r hr
    obtain ⟨⟨id, hid⟩, hhash, hne⟩ := (he _ r).mp hr
    exact absurd hhash (h id _ (entry_eq_some.mpr ⟨r, hid, rfl⟩) hne)

/-- The token each user was last given in a run. -/
def credentials (tr : List (Event Table Call Unit)) : String → String :=
  tr.foldl (fun creds e => e.act.gives creds) fun _ => ""

theorem credentials_snoc (tr : List (Event Table Call Unit)) (e : Event Table Call Unit) :
    credentials (tr ++ [e]) = e.act.gives (credentials tr) := by
  rw [credentials, List.foldl_append]
  rfl

/-- Each record's hash is that of the token its user was last given. -/
def Hashed (hmac : String → String) (creds : String → String) (t : Table) : Prop :=
  ∀ id x, t.entry id = some x → x.hash = hashToken hmac (creds id)

theorem Hashed.changed {creds : String → String} (h : Hashed hmac creds t) (hk : t.Keyed)
    (hc : Changed hmac t c t') : Hashed hmac (c.gives creds) t' := by
  intro id x hx
  rw [entry_changed hk hc, Function.update_apply] at hx
  by_cases hid : id = c.target
  · subst hid
    rw [if_pos rfl] at hx
    cases c with
    | create id now inp =>
      obtain rfl := Option.some.inj hx
      simp [Call.gives, Call.target, newRecord]
    | update id now inp =>
      obtain ⟨y, hy, rfl⟩ := Option.map_eq_some_iff.mp hx
      have := h _ y hy
      cases hcred : inp.credential <;> simp_all [Call.gives, Call.target]
    | delete id => cases hx
  · rw [if_neg hid] at hx
    cases c with
    | create id' now inp | update id' now inp =>
      have hne : id ≠ id' := hid
      simpa [Call.gives, Function.update_of_ne hne] using h id x hx
    | delete id' => exact h id x hx

/-! ### Whole runs -/

section
variable {tr : List (Event Table Call Unit)}

theorem keyed_empty : Keyed {} := by
  intro id r hr
  cases hr

theorem keyed_of_run (h : (machine hmac).Run tr t) : t.Keyed :=
  h.invariant keyed_empty fun _ _ _ _ hk hs => hk.changed (changed_of_step hs)

theorem hashed_of_run (h : (machine hmac).Run tr t) : Hashed hmac (credentials tr) t := by
  induction h with
  | nil => exact fun id x hx => by cases hx
  | snoc hr hs ih =>
    rw [credentials_snoc]
    exact ih.changed (keyed_of_run hr) (changed_of_step hs)

theorem exact_empty : Exact {} := by
  refine fun x p => iff_of_false ?_ ?_
  · rintro ⟨⟩
  · rintro ⟨⟨id, hid⟩, -⟩
    cases hid

theorem keyed_exact_step (hm : KeyedHash hmac) {s s' : Table} {o : List Unit} (h : s.Keyed ∧ s.Exact)
    (hs : s.step hmac c = some (s', o)) :
    (s'.Exact ↔ Unshared hmac s c) ∧ (Unshared hmac s c → s'.Keyed ∧ s'.Exact) := by
  have hiff := exact_changed hm h.1 h.2 (changed_of_step hs)
  exact ⟨hiff, fun hu => ⟨h.1.changed (changed_of_step hs), hiff.mpr hu⟩⟩

theorem exact_of_run (hm : KeyedHash hmac) (h : (machine hmac).Run tr t)
    (hu : ∀ e ∈ tr, Unshared hmac e.pre e.act) : t.Exact :=
  (h.invariant_of (I := fun t => t.Keyed ∧ t.Exact) (C := fun e => Unshared hmac e.pre e.act)
    ⟨keyed_empty, exact_empty⟩
    (fun _ _ _ _ hs hstep => (keyed_exact_step hm hs hstep).2) hu).2

/-- The index is exact in every state exactly if no token is shared. -/
theorem exact_iff_unshared (hm : KeyedHash hmac) (h : (machine hmac).Run tr t) :
    (∀ e ∈ tr, e.post.Exact) ↔ ∀ e ∈ tr, Unshared hmac e.pre e.act :=
  h.forall_iff (I := fun t => t.Keyed ∧ t.Exact) (D := fun _ => True) ⟨keyed_empty, exact_empty⟩
    (fun _ _ _ _ hs hstep _ => keyed_exact_step hm hs hstep) fun _ _ => trivial

/-- A token leads to the user who was last given it. -/
theorem authenticate_ok_iff (hm : KeyedHash hmac) {creds : String → String}
    (hh : Hashed hmac creds t) (he : t.Exact) (token region : String) (u : User) :
    authenticateForRegion hmac t token region = .ok u ↔
      ∃ id x, t.entry id = some x ∧ x.user = u ∧ token ≠ "" ∧ creds id = token ∧
        u.status = userEnabled ∧ regionAllowed u.allowedRegions region = true := by
  by_cases hex : ∃ id x, t.entry id = some x ∧ token ≠ "" ∧ creds id = token
  · obtain ⟨id, x, hx, hne, hcred⟩ := hex
    rw [authenticate_eq he hx (mt hm.hashToken_eq_empty.mp hne) (hcred ▸ hh id x hx),
      checkUser_eq_ok]
    constructor
    · rintro ⟨rfl, hs, hreg⟩
      exact ⟨id, x, hx, rfl, hne, hcred, hs, hreg⟩
    · rintro ⟨id', x', hx', rfl, -, hcred', hs, hreg⟩
      -- the two users have the same token, so the same hash, and are one
      obtain ⟨r, hr, rfl⟩ := entry_eq_some.mp hx
      obtain ⟨r', hr', rfl⟩ := entry_eq_some.mp hx'
      have hsame : r = r' := by
        refine he.unique (h := hashToken hmac token) ⟨⟨id, hr⟩, ?_, ?_⟩ ⟨⟨id', hr'⟩, ?_, ?_⟩
        · rw [← hcred]
          exact hh id _ hx
        · exact mt hm.hashToken_eq_empty.mp hne
        · rw [← hcred']
          exact hh id' _ hx'
        · exact mt hm.hashToken_eq_empty.mp hne
      subst hsame
      exact ⟨rfl, hs, hreg⟩
  · refine iff_of_false ?_ ?_
    · rw [authenticate_badToken he]
      · simp
      · intro id x hx hne hhash
        refine hex ⟨id, x, hx, mt hm.hashToken_eq_empty.mpr hne, ?_⟩
        exact hm.hashToken_inj ((hh id x hx).symm.trans hhash)
    · rintro ⟨id, x, hx, -, hne, hcred, -⟩
      exact hex ⟨id, x, hx, hne, hcred⟩

/-- What a user's token leads to depends on their own record alone. -/
theorem authenticate_of_entry {creds : String → String} {t t' : Table}
    (hh : Hashed hmac creds t) (he : t.Exact) (he' : t'.Exact) {id : String} {x : Record}
    (hx : t.entry id = some x) (hx' : t'.entry id = some x) (region : String) :
    authenticateForRegion hmac t' (creds id) region = authenticateForRegion hmac t (creds id) region := by
  by_cases hne : hashToken hmac (creds id) = ""
  · rw [authenticate_badToken he' fun _ _ _ h => absurd hne h,
      authenticate_badToken he fun _ _ _ h => absurd hne h]
  · rw [authenticate_eq he' hx' hne (hh id x hx), authenticate_eq he hx hne (hh id x hx)]

/-- **Tokens.** In every run of successful calls, the index is exact in every
state if and only if no call gives a user a token that another user has. In
such a run a token is accepted for a region exactly if it is the one a user
was last given, the user is enabled and the region allowed; and a call on one
user does not change what the tokens of the others lead to. -/
theorem index_exact_iff (hm : KeyedHash hmac) (h : (machine hmac).Run tr t) :
    ((∀ e ∈ tr, e.post.Exact) ↔ ∀ e ∈ tr, Unshared hmac e.pre e.act) ∧
    ((∀ e ∈ tr, Unshared hmac e.pre e.act) →
      (∀ token region u, authenticateForRegion hmac t token region = .ok u ↔
        ∃ id x, t.entry id = some x ∧ x.user = u ∧ token ≠ "" ∧ credentials tr id = token ∧
          u.status = userEnabled ∧ regionAllowed u.allowedRegions region = true) ∧
      ∀ tr₁ e tr₂, tr = tr₁ ++ e :: tr₂ → ∀ id, id ≠ e.act.target → id ∈ e.pre.byID →
        ∀ region, authenticateForRegion hmac e.post (credentials tr₁ id) region =
          authenticateForRegion hmac e.pre (credentials tr₁ id) region) := by
  refine ⟨exact_iff_unshared hm h, fun hu => ⟨?_, ?_⟩⟩
  · exact authenticate_ok_iff hm (hashed_of_run h) (exact_of_run hm h hu)
  · rintro tr₁ e tr₂ rfl id hid hmem region
    obtain ⟨hr, hs⟩ := h.at_event rfl
    have hu₁ : ∀ e ∈ tr₁, Unshared hmac e.pre e.act :=
      fun e he => hu e (List.mem_append_left _ he)
    have hpre := exact_of_run hm hr hu₁
    have hpost := (exact_changed hm (keyed_of_run hr) hpre (changed_of_step hs)).mpr
      (hu e (List.mem_append_right _ List.mem_cons_self))
    obtain ⟨r, hr'⟩ := GoMap.mem_iff.mp hmem
    have hx : e.pre.entry id = some (e.pre.recs r) := entry_eq_some.mpr ⟨r, hr', rfl⟩
    refine authenticate_of_entry (hashed_of_run hr) hpre hpost hx ?_ region
    rw [entry_changed (keyed_of_run hr) (changed_of_step hs), Function.update_of_ne hid, hx]

theorem keyedHash_id : KeyedHash id := ⟨fun _ h => h, fun _ _ _ _ h => h⟩

/-- Two users, one of whom changes their token and takes it back. -/
theorem index_exact_iff_rotated : ∃ tr t, (machine id).Run tr t ∧ (∀ e ∈ tr, e.post.Exact) ∧
    credentials tr "1" = "a" ∧ ∃ u, authenticateForRegion id t "a" "us" = .ok u ∧ u.username = "alice" := by
  obtain ⟨tr, t, hrun, hu, hcred, x, hx, hname, hs, hreg⟩ := (machine id).exists_run
    [.create "1" 1 { username := "alice", credential := "a", allowedRegions := ["us"] },
      .create "2" 2 { username := "bob", credential := "b", allowedRegions := ["*"] },
      .update "1" 3 { credential := some "c" }, .update "1" 4 { credential := some "a" }]
    (P := fun r => (∀ e ∈ r.1, Unshared id e.pre e.act) ∧ credentials r.1 "1" = "a" ∧
      ∃ x ∈ r.2.entry "1", x.user.username = "alice" ∧ x.user.status = userEnabled ∧
        regionAllowed x.user.allowedRegions "us" = true)
    (by decide +kernel)
  obtain ⟨hiff, hauth⟩ := index_exact_iff keyedHash_id hrun
  refine ⟨tr, t, hrun, hiff.mpr hu, hcred, x.user, ?_, hname⟩
  exact ((hauth hu).1 "a" "us" x.user).mpr
    ⟨"1", x, hx, rfl, by decide, hcred, hs, hreg⟩

/-- Two users are given the same token; it leads to the second. Once the
second is deleted, it leads to nobody, though the first still has it. -/
theorem shared_token_lost : ∃ tr t, (machine id).Run tr t ∧ credentials tr "1" = "a" ∧
    (∃ e ∈ tr, e.act.target = "2" ∧
      (authenticateForRegion id e.pre "a" "us").map (·.username) = .ok "alice" ∧
      (authenticateForRegion id e.post "a" "us").map (·.username) = .ok "bob") ∧
    (∃ x ∈ t.entry "1", x.hash = hashToken id "a" ∧ checkUser x.user "us" = .ok x.user) ∧
    authenticateForRegion id t "a" "us" = .error .badToken :=
  (machine id).exists_run_of_exec
    [.create "1" 1 { username := "alice", credential := "a", allowedRegions := ["us"] },
      .create "2" 2 { username := "bob", credential := "a", allowedRegions := ["us"] }, .delete "2"]
    (by decide +kernel)

end

end Table
end Userstore
end Revquic
