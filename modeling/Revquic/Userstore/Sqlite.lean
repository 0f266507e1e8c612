/-
# The users in a database, and that they are the same users

The SQLite store keeps the users as rows and looks them up with a query each
time; the region list is one column, a JSON array. The two stores give the
same answers to the same calls, up to ids, times and order, as long as the
region names are valid UTF-8: `json.Marshal` replaces every other byte, so
that a region name with such a byte is not the same after it has been
written, and the user is denied the region they were allowed.

An id of the table and the one the database has for the same user are related
by an injection `τ`, which also says which unknown id of the one corresponds
to which of the other.

Key definitions: `SqlStore`, `Both`, `Both.Agree`, `Both.Corr`.
Key theorem: `sqlite_agrees_iff`.
-/
import Revquic.Lib.Utf8
import Revquic.Userstore.File

namespace Revquic
namespace Userstore

open Lib

/-- A row of `users`. The text of `allowed_regions` stands as the names that
are read back from it. -/
structure Row where
  id : String
  username : String
  tokenHash : String
  allowedRegions : List String
  status : String
  createdAt : ℕ
  updatedAt : ℕ
  deriving DecidableEq

/-- `sqlStore`: the table `users`, with `id TEXT PRIMARY KEY` and
`username TEXT UNIQUE`. -/
structure SqlStore where
  users : List Row := []
  primary : (users.map Row.id).Nodup := by simp
  unique : (users.map Row.username).Nodup := by simp

/-- `marshalRegions`, up to what is read back. -/
def marshalRegions (regions : List String) : List String := regions.map Utf8.coerce

/-- `scanUser`. -/
def scanUser (r : Row) : User :=
  { id := r.id, username := r.username, allowedRegions := r.allowedRegions, status := r.status
    createdAt := r.createdAt, updatedAt := r.updatedAt }

namespace SqlStore

variable (hmac : String → String) (s : SqlStore)

/-- `INSERT INTO users`, which fails if the id or the name is taken. -/
def insert (r : Row) : Option SqlStore :=
  if h : r.id ∉ s.users.map Row.id ∧ r.username ∉ s.users.map Row.username then
    some
      { users := r :: s.users
        primary := List.nodup_cons.mpr ⟨h.1, s.primary⟩
        unique := List.nodup_cons.mpr ⟨h.2, s.unique⟩ }
  else none

/-- `UPDATE users SET … WHERE id=?`, with or without `token_hash`. -/
def set (id : String) (regions : List String) (status : String) (updatedAt : ℕ)
    (tokenHash : Option String) : SqlStore where
  users := s.users.map fun r =>
    if r.id = id then
      { r with allowedRegions := regions, status, updatedAt, tokenHash := tokenHash.getD r.tokenHash }
    else r
  primary := by
    rw [List.map_map, List.map_congr_left]
    · exact s.primary
    · intro r _
      dsimp only [Function.comp]
      split_ifs <;> rfl
  unique := by
    rw [List.map_map, List.map_congr_left]
    · exact s.unique
    · intro r _
      dsimp only [Function.comp]
      split_ifs <;> rfl

/-- `DELETE FROM users WHERE id=?`. -/
def remove (id : String) : SqlStore where
  users := s.users.filter (·.id ≠ id)
  primary := s.primary.sublist (List.filter_sublist.map _)
  unique := s.unique.sublist (List.filter_sublist.map _)

/-- `Create`. -/
def create (id : String) (now : ℕ) (inp : UserCreate) : Except StoreError (SqlStore × User) :=
  let u : User :=
    { id, username := inp.username, allowedRegions := inp.allowedRegions
      status := if inp.status = "" then userEnabled else inp.status
      createdAt := now, updatedAt := now }
  match s.insert ⟨u.id, u.username, hashToken hmac inp.credential, marshalRegions u.allowedRegions,
      u.status, now, now⟩ with
  | none => .error .conflict
  | some s' => .ok (s', u)

/-- `Get`. -/
def get (id : String) : Except StoreError User :=
  match s.users.find? (·.id = id) with
  | none => .error .notFound
  | some r => .ok (scanUser r)

/-- `List`. -/
def list (region status : String) : List User := (s.users.map scanUser).filter (listed region status)

/-- `Update`. -/
def update (id : String) (now : ℕ) (inp : UserUpdate) : Except StoreError (SqlStore × User) :=
  match s.get id with
  | .error err => .error err
  | .ok u =>
    let u := patch u now inp
    .ok (s.set id (marshalRegions u.allowedRegions) u.status u.updatedAt
      (inp.credential.map (hashToken hmac)), u)

/-- `Delete`: no row affected is no such user. -/
def delete (id : String) : Except StoreError SqlStore :=
  if s.users.countP (·.id = id) = 0 then .error .notFound else .ok (s.remove id)

/-- `AuthenticateForRegion`. -/
def authenticateForRegion (token region : String) : Except StoreError User :=
  if token = "" then .error .badToken
  else
    match s.users.find? (·.tokenHash = hashToken hmac token) with
    | none => .error .badToken
    | some r => checkUser (scanUser r) region

/-- `AuthorizeUser`. -/
def authorizeUser (username region : String) : Except StoreError User :=
  match s.users.find? (·.username = username) with
  | none => .error .notFound
  | some r => checkUser (scanUser r) region

/-- A call that changes the store, and the user it returns. -/
def apply : Call → Except StoreError (SqlStore × Option User)
  | .create id now inp => (s.create hmac id now inp).map fun x => (x.1, some x.2)
  | .update id now inp => (s.update hmac id now inp).map fun x => (x.1, some x.2)
  | .delete id => (s.delete id).map fun s' => (s', none)

/-! ### Records by id -/

/-- A row as a record of the table. -/
def record (r : Row) : Record := ⟨scanUser r, r.tokenHash⟩

/-- The record of a user. -/
def entry (id : String) : Option Record := (s.users.find? (·.id = id)).map record

variable {hmac} {s s' : SqlStore} {c : Call} {id : String}

theorem row_unique {r r' : Row} (hr : r ∈ s.users) (hr' : r' ∈ s.users) (h : r.id = r'.id) : r = r' :=
  List.inj_on_of_nodup_map s.primary hr hr' h

theorem entry_eq_some {x : Record} :
    s.entry id = some x ↔ ∃ r ∈ s.users, r.id = id ∧ record r = x := by
  unfold entry
  rw [Option.map_eq_some_iff]
  constructor
  · rintro ⟨r, hr, rfl⟩
    exact ⟨r, List.mem_of_find?_eq_some hr, by simpa using List.find?_some hr, rfl⟩
  · rintro ⟨r, hr, rfl, rfl⟩
    cases hfind : s.users.find? (·.id = r.id) with
    | none => simpa using List.find?_eq_none.mp hfind r hr
    | some r' =>
      have hid : r'.id = r.id := by simpa using List.find?_some hfind
      exact ⟨r', rfl, by rw [row_unique (List.mem_of_find?_eq_some hfind) hr hid]⟩

theorem entry_eq_none : s.entry id = none ↔ ∀ r ∈ s.users, r.id ≠ id := by
  simp [entry]

theorem get_eq : s.get id = match s.entry id with
    | none => .error .notFound
    | some x => .ok x.user := by
  unfold get entry
  cases s.users.find? (·.id = id) <;> rfl

/-- A row is written with its regions coerced. -/
def stored (x : Record) : Record :=
  { x with user := { x.user with allowedRegions := marshalRegions x.user.allowedRegions } }

theorem entry_insert {r : Row} (h : s.insert r = some s') :
    s'.entry = Function.update s.entry r.id (some (record r)) := by
  unfold insert at h
  split_ifs at h with hnew
  obtain rfl := Option.some.inj h
  funext k
  rw [Function.update_apply]
  unfold entry
  by_cases hk : k = r.id
  · simp [hk]
  · simp [hk, Ne.symm hk]

theorem entry_set (id : String) (regions : List String) (status : String) (now : ℕ) (h : Option String) :
    (s.set id regions status now h).entry = Function.update s.entry id ((s.entry id).map fun x =>
      { user := { x.user with allowedRegions := regions, status, updatedAt := now }
        hash := h.getD x.hash }) := by
  funext k
  refine Option.ext fun x => ?_
  rw [Function.update_apply, entry_eq_some]
  simp only [set, List.mem_map, exists_exists_and_eq_and]
  by_cases hk : k = id
  · subst hk
    rw [if_pos rfl, Option.map_eq_some_iff]
    constructor
    · rintro ⟨r, hr, hid, rfl⟩
      have hid : r.id = k := by
        split_ifs at hid with h
        · exact h
        · exact hid
      exact ⟨record r, entry_eq_some.mpr ⟨r, hr, hid, rfl⟩, by rw [if_pos hid]; rfl⟩
    · rintro ⟨y, hy, rfl⟩
      obtain ⟨r, hr, hid, rfl⟩ := entry_eq_some.mp hy
      exact ⟨r, hr, by rw [if_pos hid]; exact hid, by rw [if_pos hid]; rfl⟩
  · rw [if_neg hk, entry_eq_some]
    refine exists_congr fun r => and_congr_right fun _ => ?_
    by_cases hid : r.id = id
    · rw [if_pos hid]
      exact iff_of_false (fun h => hk (h.1.symm.trans hid)) (fun h => hk (h.1.symm.trans hid))
    · rw [if_neg hid]

theorem entry_remove (id : String) : (s.remove id).entry = Function.update s.entry id none := by
  funext k
  refine Option.ext fun x => ?_
  rw [Function.update_apply, entry_eq_some]
  simp only [remove, List.mem_filter, decide_eq_true_eq]
  by_cases hk : k = id
  · rw [if_pos hk]
    refine iff_of_false ?_ (by simp)
    rintro ⟨r, ⟨-, hne⟩, hid, -⟩
    exact hne (hid.trans hk)
  · rw [if_neg hk, entry_eq_some]
    refine exists_congr fun r => ⟨fun h => ⟨h.1.1, h.2⟩, fun h => ⟨⟨h.1, ?_⟩, h.2⟩⟩
    rw [h.2.1]
    exact hk

/-- A call is refused: the id or the name is taken, or there is no such
user. -/
def Refused (s : SqlStore) : Call → Prop
  | .create id _ inp => s.entry id ≠ none ∨ ∃ k x, s.entry k = some x ∧ x.user.username = inp.username
  | .update id _ _ | .delete id => s.entry id = none

theorem insert_eq_none {r : Row} : s.insert r = none ↔
    s.entry r.id ≠ none ∨ ∃ k x, s.entry k = some x ∧ x.user.username = r.username := by
  have hid : r.id ∈ s.users.map Row.id ↔ s.entry r.id ≠ none := by
    simp [entry_eq_none, List.mem_map]
  have hname : r.username ∈ s.users.map Row.username ↔
      ∃ k x, s.entry k = some x ∧ x.user.username = r.username := by
    rw [List.mem_map]
    constructor
    · rintro ⟨r', hr', hn⟩
      exact ⟨r'.id, record r', entry_eq_some.mpr ⟨r', hr', rfl, rfl⟩, hn⟩
    · rintro ⟨k, x, hx, hn⟩
      obtain ⟨r', hr', -, rfl⟩ := entry_eq_some.mp hx
      exact ⟨r', hr', hn⟩
  rw [← hid, ← hname, insert]
  split_ifs with h
  · exact iff_of_false (by simp) (not_or.mpr h)
  · rw [not_and_or, not_not, not_not] at h
    exact iff_of_true rfl h

/-- A call is refused, or it returns the user it makes and changes their
record, to what it makes but for the regions. -/
theorem apply_spec (hmac : String → String) (s : SqlStore) (c : Call) :
    (s.Refused c ∧ s.apply hmac c = .error c.refusal) ∨
    (¬ s.Refused c ∧ ∃ s', s.apply hmac c = .ok (s', (c.makes hmac (s.entry c.target)).map (·.user)) ∧
      s'.entry = Function.update s.entry c.target ((c.makes hmac (s.entry c.target)).map stored)) := by
  cases c with
  | create id now inp =>
    simp only [apply, create, Refused]
    split
    · rename_i hins
      exact Or.inl ⟨insert_eq_none.mp hins, rfl⟩
    · rename_i s' hins
      refine Or.inr ⟨fun h => ?_, s', rfl, entry_insert hins⟩
      rw [insert_eq_none.mpr h] at hins
      cases hins
  | update id now inp =>
    simp only [apply, update, Refused, get_eq, Call.target]
    cases hx : s.entry id with
    | none => exact Or.inl ⟨rfl, rfl⟩
    | some x =>
      refine Or.inr ⟨by simp, _, rfl, ?_⟩
      rw [entry_set, hx]
      rfl
  | delete id =>
    have hcount : s.users.countP (·.id = id) = 0 ↔ s.entry id = none := by
      simp [List.countP_eq_zero, entry_eq_none]
    simp only [apply, delete, Refused, hcount]
    split_ifs with hnone
    · exact Or.inl ⟨hnone, rfl⟩
    · exact Or.inr ⟨hnone, _, rfl, entry_remove id⟩

/-! ### The queries -/

theorem mem_records {x : Record} : x ∈ s.users.map record ↔ ∃ k, s.entry k = some x := by
  simp only [List.mem_map, entry_eq_some]
  constructor
  · rintro ⟨r, hr, rfl⟩
    exact ⟨r.id, r, hr, rfl, rfl⟩
  · rintro ⟨k, r, hr, -, rfl⟩
    exact ⟨r, hr, rfl⟩

theorem finds_authorize (name region : String) :
    Finds s.entry (HasName name) .notFound region (s.authorizeUser name region) := by
  have hq (r : Row) : decide (r.username = name) = true ↔ HasName name (record r) := decide_eq_true_iff
  unfold authorizeUser
  refine finds_find? (fun _ => mem_records) hq ?_ ?_
  · intro h
    rw [h]
  · intro r h
    rw [h]
    rfl

theorem finds_authenticate (hm : Table.KeyedHash hmac) (token region : String) :
    Finds s.entry (HasToken hmac token) .badToken region (s.authenticateForRegion hmac token region) := by
  unfold authenticateForRegion
  split_ifs with htok
  · refine Or.inr ⟨fun k x hx hP => hP.2 ?_, rfl⟩
    rw [hP.1, hm.hashToken_eq_empty.mpr htok]
  · have hne : hashToken hmac token ≠ "" := mt hm.hashToken_eq_empty.mp htok
    have hq (r : Row) : decide (r.tokenHash = hashToken hmac token) = true ↔
        HasToken hmac token (record r) :=
      decide_eq_true_iff.trans ⟨fun h => ⟨h, fun e => hne (h.symm.trans e)⟩, And.left⟩
    refine finds_find? (fun _ => mem_records) hq ?_ ?_
    · intro h
      rw [h]
    · intro r h
      rw [h]
      rfl

theorem list_eq (region status : String) :
    s.list region status = ((s.users.map record).map (·.user)).filter (listed region status) := by
  rw [list, List.map_map]
  rfl

theorem nodup_record_ids : ((s.users.map record).map (·.user.id)).Nodup := by
  rw [List.map_map]
  exact s.primary

end SqlStore

/-! ### Both stores -/

section
variable (hmac : String → String) (τ : String → String)

/-- A user under another id, without the times. -/
def User.anon (u : User) : User := { u with id := τ u.id, createdAt := 0, updatedAt := 0 }

/-- A record under another id, without the times. -/
def Record.anon (x : Record) : Record := { x with user := x.user.anon τ }

/-- A call as the database gets it, with its own id for the user and at its
own time. -/
def Call.renamed (now : ℕ) : Call → Call
  | .create id _ inp => .create (τ id) now inp
  | .update id _ inp => .update (τ id) now inp
  | .delete id => .delete (τ id)

/-- A table and a database, which get the same calls. -/
structure Both where
  table : Table := {}
  sql : SqlStore := {}

/-- What a store is and replies after a call. -/
def settle {σ β : Type} (s : σ) : Except StoreError (σ × β) → σ × Except StoreError β
  | .ok (s', reply) => (s', .ok reply)
  | .error err => (s, .error err)

/-- Both stores get a call, which may fail; the database gets it at a time of
its own. -/
def Both.step (s : Both) (a : Call × ℕ) :
    Option (Both × List (Except StoreError (Option User) × Except StoreError (Option User))) :=
  if s.table.Fresh a.1 then
    let x := settle s.table (s.table.apply hmac a.1)
    let y := settle s.sql (s.sql.apply hmac (a.1.renamed τ a.2))
    some (⟨x.1, y.1⟩, [(x.2, y.2)])
  else none

/-- Two empty stores under any calls. -/
def both : Machine Both (Call × ℕ) (Except StoreError (Option User) × Except StoreError (Option User)) :=
  ⟨{}, Both.step hmac τ⟩

/-- The stores answer every query alike, up to ids, times and order. -/
structure Both.Agree (s : Both) : Prop where
  get : ∀ k, (s.table.get k).map (User.anon τ) = (s.sql.get (τ k)).map (User.anon id)
  list : ∀ region status, ((s.table.list region status).map (User.anon τ)).Perm
    ((s.sql.list region status).map (User.anon id))
  authenticate : ∀ token region, (authenticateForRegion hmac s.table token region).map (User.anon τ) =
    (s.sql.authenticateForRegion hmac token region).map (User.anon id)
  authorize : ∀ name region, (authorizeUser s.table name region).map (User.anon τ) =
    (s.sql.authorizeUser name region).map (User.anon id)

/-- The replies to a call are the same. -/
def SameReply (x : Except StoreError (Option User) × Except StoreError (Option User)) : Prop :=
  x.1.map (·.map (User.anon τ)) = x.2.map (·.map (User.anon id))

/-- The region names a call supplies. -/
def Call.regions : Call → List String
  | .create _ _ inp => inp.allowedRegions
  | .update _ _ inp => inp.allowedRegions.getD []
  | .delete _ => []

/-- A call is refused, or the region names it supplies are valid UTF-8. -/
def Table.Clean (t : Table) (c : Call) : Prop := t.Refused c ∨ ∀ a ∈ c.regions, Utf8.valid a = true

/-- The rows of the database are the records of the table, and their region
names are valid. -/
structure Both.Corr (s : Both) : Prop where
  settled : s.table.Settled
  same : ∀ k, (s.sql.entry (τ k)).map (Record.anon id) = (s.table.entry k).map (Record.anon τ)
  known : ∀ k' x, s.sql.entry k' = some x → ∃ k, τ k = k'
  utf8 : ∀ k x, s.table.entry k = some x → ∀ a ∈ x.user.allowedRegions, Utf8.valid a = true

end

/-! ### What both have in common -/

section
variable {hmac : String → String} {τ ι : String → String}

theorem username_of_anon {x y : Record} (h : x.anon ι = y.anon τ) : x.user.username = y.user.username := by
  simpa [Record.anon, User.anon] using congrArg (fun z : Record => z.user.username) h

theorem regions_of_anon {x y : Record} (h : x.anon ι = y.anon τ) :
    x.user.allowedRegions = y.user.allowedRegions := by
  simpa [Record.anon, User.anon] using congrArg (fun z : Record => z.user.allowedRegions) h

theorem hash_of_anon {x y : Record} (h : x.anon ι = y.anon τ) : x.hash = y.hash := by
  simpa [Record.anon] using congrArg Record.hash h

theorem checkUser_anon (u : User) (region : String) :
    (checkUser u region).map (User.anon ι) = checkUser (u.anon ι) region := by
  unfold checkUser User.anon
  split_ifs <;> rfl

theorem map_anon_listed (region status : String) (l : List Record) :
    ((l.map (·.user)).filter (listed region status)).map (User.anon ι) =
      ((l.map (Record.anon ι)).map (·.user)).filter (listed region status) := by
  simp only [List.filter_map, List.map_map]
  rfl

/-- What a call makes of a record does not depend on ids and times. -/
theorem makes_anon (hmac : String → String) (c : Call) (now : ℕ) {x y : Option Record}
    (h : y.map (Record.anon id) = x.map (Record.anon τ)) :
    ((c.renamed τ now).makes hmac y).map (Record.anon id) = (c.makes hmac x).map (Record.anon τ) := by
  cases c with
  | create id now inp => rfl
  | delete id => rfl
  | update k now' inp =>
    cases x with
    | none =>
      obtain rfl := Option.map_eq_none_iff.mp h
      rfl
    | some x =>
      obtain ⟨y, rfl, hy⟩ := Option.map_eq_some_iff.mp h
      simp only [Record.anon, User.anon, id, Record.mk.injEq, User.mk.injEq] at hy
      obtain ⟨⟨hid, hname, hreg, hstatus, -⟩, hhash⟩ := hy
      simp [Call.renamed, Call.makes, Record.anon, User.anon, patch, hid, hname, hreg, hstatus, hhash]

theorem target_renamed (c : Call) (now : ℕ) : (c.renamed τ now).target = τ c.target := by
  cases c <;> rfl

theorem refusal_renamed (c : Call) (now : ℕ) : (c.renamed τ now).refusal = c.refusal := by
  cases c <;> rfl

/-- A query that looks for users does not see ids and times. -/
theorem Finds.anon {κ : Type*} {users : κ → Option Record} {P : Record → Prop} {err : StoreError}
    {region : String} {res : Except StoreError User} (hP : ∀ x, P (x.anon ι) ↔ P x)
    (h : Finds users P err region res) :
    Finds (fun k => (users k).map (Record.anon ι)) P err region (res.map (User.anon ι)) := by
  rcases h with ⟨k, x, hk, hx, rfl⟩ | ⟨hnone, rfl⟩
  · exact Or.inl ⟨k, x.anon ι, congrArg (Option.map (Record.anon ι)) hk, (hP x).mpr hx,
      checkUser_anon x.user region⟩
  · refine Or.inr ⟨fun k y hk hy => ?_, rfl⟩
    obtain ⟨x, hx, rfl⟩ := Option.map_eq_some_iff.mp hk
    exact hnone k x hx ((hP x).mp hy)

theorem Sole.anon {κ : Type*} {users : κ → Option Record} {P : Record → Prop}
    (hP : ∀ x, P (x.anon ι) ↔ P x) (h : Sole users P) :
    Sole (fun k => (users k).map (Record.anon ι)) P := by
  intro k k' y y' hy hy' hPy hPy'
  obtain ⟨x, hx, rfl⟩ := Option.map_eq_some_iff.mp hy
  obtain ⟨x', hx', rfl⟩ := Option.map_eq_some_iff.mp hy'
  exact h k k' x x' hx hx' ((hP x).mp hPy) ((hP x').mp hPy')

/-- A query finds the same under other keys. -/
theorem Finds.comp {κ κ' : Type*} {users : κ' → Option Record} {f : κ → κ'} {P : Record → Prop}
    {err : StoreError} {region : String} {res : Except StoreError User}
    (hf : ∀ k' x, users k' = some x → ∃ k, f k = k') (h : Finds users P err region res) :
    Finds (fun k => users (f k)) P err region res := by
  rcases h with ⟨k', x, hk', hx, rfl⟩ | ⟨hnone, rfl⟩
  · obtain ⟨k, rfl⟩ := hf k' x hk'
    exact Or.inl ⟨k, x, hk', hx, rfl⟩
  · exact Or.inr ⟨fun k => hnone (f k), rfl⟩

namespace Both

variable {s : Both} {c : Call} {now : ℕ}

theorem Corr.row_of_record (h : s.Corr τ) {k : String} {x : Record} (hx : s.table.entry k = some x) :
    ∃ y, s.sql.entry (τ k) = some y ∧ y.anon id = x.anon τ := by
  have := h.same k
  rw [hx] at this
  exact Option.map_eq_some_iff.mp this

theorem Corr.record_of_row (h : s.Corr τ) {k' : String} {y : Record} (hy : s.sql.entry k' = some y) :
    ∃ k x, τ k = k' ∧ s.table.entry k = some x ∧ y.anon id = x.anon τ := by
  obtain ⟨k, rfl⟩ := h.known k' y hy
  have := h.same k
  rw [hy] at this
  obtain ⟨x, hx, he⟩ := Option.map_eq_some_iff.mp this.symm
  exact ⟨k, x, rfl, hx, he.symm⟩

theorem Corr.entry_eq_none (h : s.Corr τ) {k : String} :
    s.sql.entry (τ k) = none ↔ s.table.entry k = none := by
  rw [← Option.map_eq_none_iff (f := Record.anon id), h.same k, Option.map_eq_none_iff]

/-- Both stores find the same user. -/
theorem Corr.finds (h : s.Corr τ) {P : Record → Prop} (hP : ∀ ι x, P (Record.anon ι x) ↔ P x)
    (hs : Sole s.table.entry P) {err : StoreError} {region : String} {res res' : Except StoreError User}
    (ht : Finds s.table.entry P err region res) (hd : Finds s.sql.entry P err region res') :
    res.map (User.anon τ) = res'.map (User.anon id) := by
  refine Finds.eq (hs.anon (hP τ)) (ht.anon (hP τ)) ?_
  have := (hd.comp h.known).anon (hP id)
  rwa [funext h.same] at this

theorem nodup_anon {l : List Record} (hι : Function.Injective ι) (h : (l.map (·.user.id)).Nodup) :
    (l.map (Record.anon ι)).Nodup := by
  refine List.Nodup.of_map (fun x => x.user.id) ?_
  have := h.map hι
  rwa [List.map_map] at this ⊢

/-- Both stores have the same records. -/
theorem Corr.perm (hτ : Function.Injective τ) (h : s.Corr τ) :
    (s.table.dump.map (Record.anon τ)).Perm ((s.sql.users.map SqlStore.record).map (Record.anon id)) := by
  rw [List.perm_ext_iff_of_nodup (nodup_anon hτ (Table.nodup_dump_ids h.settled.keyed))
    (nodup_anon Function.injective_id SqlStore.nodup_record_ids)]
  intro y
  simp only [List.mem_map (f := Record.anon τ), List.mem_map (f := Record.anon id), Table.mem_dump,
    SqlStore.mem_records]
  constructor
  · rintro ⟨x, ⟨k, hx⟩, rfl⟩
    obtain ⟨y, hy, he⟩ := h.row_of_record hx
    exact ⟨y, ⟨τ k, hy⟩, he⟩
  · rintro ⟨y, ⟨k', hy⟩, rfl⟩
    obtain ⟨k, x, -, hx, he⟩ := h.record_of_row hy
    exact ⟨x, ⟨k, hx⟩, he.symm⟩

theorem Corr.agree (hm : Table.KeyedHash hmac) (hτ : Function.Injective τ) (h : s.Corr τ) :
    s.Agree hmac τ where
  get k := by
    rw [Table.get_eq, SqlStore.get_eq]
    cases hx : s.table.entry k with
    | none =>
      rw [h.entry_eq_none.mpr hx]
      rfl
    | some x =>
      obtain ⟨y, hy, he⟩ := h.row_of_record hx
      rw [hy]
      exact congrArg (fun z : Record => Except.ok z.user) he.symm
  list region status := by
    rw [Table.list_eq, SqlStore.list_eq, map_anon_listed, map_anon_listed]
    exact ((h.perm hτ).map _).filter _
  authenticate token region :=
    h.finds (fun _ _ => Iff.rfl) (Table.sole_token h.settled token)
      (Table.finds_authenticate h.settled.exact token region) (SqlStore.finds_authenticate hm token region)
  authorize name region :=
    h.finds (fun _ _ => Iff.rfl) (h.settled.names name) (Table.finds_authorize name region)
      (SqlStore.finds_authorize name region)

/-! ### A step of both -/

theorem Corr.has_name (h : s.Corr τ) {name : String} :
    (∃ k x, s.sql.entry k = some x ∧ x.user.username = name) ↔
      ∃ k x, s.table.entry k = some x ∧ x.user.username = name := by
  constructor
  · rintro ⟨k', y, hy, rfl⟩
    obtain ⟨k, x, -, hx, he⟩ := h.record_of_row hy
    exact ⟨k, x, hx, username_of_anon he.symm⟩
  · rintro ⟨k, x, hx, rfl⟩
    obtain ⟨y, hy, he⟩ := h.row_of_record hx
    exact ⟨τ k, y, hy, username_of_anon he⟩

/-- The stores refuse the same calls. -/
theorem Corr.refused_iff (h : s.Corr τ) (now : ℕ) (hf : s.table.Fresh c) :
    s.sql.Refused (c.renamed τ now) ↔ s.table.Refused c := by
  cases c with
  | create k now' inp =>
    have hnone : s.table.entry k = none := by
      rw [Table.entry, AList.lookup_eq_none.mpr hf]
      rfl
    rw [Call.renamed, SqlStore.Refused, Table.Refused, ← h.has_name, h.entry_eq_none.mpr hnone]
    simp
  | update k now' inp => exact h.entry_eq_none
  | delete k => exact h.entry_eq_none

theorem marshalRegions_eq_self_iff {l : List String} :
    marshalRegions l = l ↔ ∀ a ∈ l, Utf8.valid a = true := by
  simp only [marshalRegions, ← Utf8.coerce_eq_self_iff]
  conv_lhs => rw [← List.map_id l]
  rw [List.map_map, List.map_inj_left]
  rfl

/-- The regions of what a call makes are those it supplies, or those that
were there. -/
theorem valid_makes {y : Record} {old : Option Record} (hy : c.makes hmac old = some y)
    (hold : ∀ x, old = some x → ∀ a ∈ x.user.allowedRegions, Utf8.valid a = true)
    (hc : ∀ a ∈ c.regions, Utf8.valid a = true) : ∀ a ∈ y.user.allowedRegions, Utf8.valid a = true := by
  cases c with
  | create k now' inp =>
    obtain rfl := Option.some.inj hy
    exact hc
  | delete k => cases hy
  | update k now' inp =>
    obtain ⟨x, hx, rfl⟩ := Option.map_eq_some_iff.mp hy
    cases hreg : inp.allowedRegions with
    | none => simpa [patch, hreg] using hold x hx
    | some l => simpa [patch, hreg, Call.regions] using hc

theorem regions_makes {y : Record} {old : Option Record} (hy : c.makes hmac old = some y)
    (h : ∀ a ∈ y.user.allowedRegions, Utf8.valid a = true) : ∀ a ∈ c.regions, Utf8.valid a = true := by
  cases c with
  | create k now' inp =>
    obtain rfl := Option.some.inj hy
    exact h
  | delete k => cases hy
  | update k now' inp =>
    obtain ⟨x, hx, rfl⟩ := Option.map_eq_some_iff.mp hy
    cases hreg : inp.allowedRegions with
    | none => simp [Call.regions, hreg]
    | some l => simpa [patch, hreg, Call.regions] using h

/-- A row is as it was read exactly if its region names are valid. -/
theorem anon_stored_iff {x y : Record} (h : y.anon id = x.anon τ) :
    (SqlStore.stored y).anon id = x.anon τ ↔ ∀ a ∈ x.user.allowedRegions, Utf8.valid a = true := by
  rw [← marshalRegions_eq_self_iff, ← regions_of_anon h, ← h]
  simp [SqlStore.stored, Record.anon, User.anon]

section
variable {t' : Table} {d' : SqlStore}

/-- An accepted call with valid region names keeps the records the same. -/
theorem Corr.changed (hm : Table.KeyedHash hmac) (hτ : Function.Injective τ) (h : s.Corr τ)
    (hu : s.table.Unshared hmac c) (hc : Table.Changed hmac s.table c t')
    (hd : d'.entry = Function.update s.sql.entry (τ c.target)
      (((c.renamed τ now).makes hmac (s.sql.entry (τ c.target))).map SqlStore.stored))
    (hv : ∀ a ∈ c.regions, Utf8.valid a = true) : Corr τ ⟨t', d'⟩ := by
  have ht := Table.entry_changed h.settled.keyed hc
  have hmakes := makes_anon hmac c now (h.same c.target)
  refine ⟨h.settled.changed hm hc hu, fun k => ?_, fun k' y hy => ?_, fun k x hx => ?_⟩
  · dsimp only
    rw [ht, hd]
    by_cases hk : k = c.target
    · subst hk
      rw [Function.update_self, Function.update_self]
      cases hx : c.makes hmac (s.table.entry c.target) with
      | none =>
        rw [hx, Option.map_none, Option.map_eq_none_iff] at hmakes
        rw [hmakes]
        rfl
      | some x =>
        rw [hx] at hmakes
        obtain ⟨y, hy, he⟩ := Option.map_eq_some_iff.mp hmakes
        rw [hy]
        exact congrArg some ((anon_stored_iff he).mpr (valid_makes hx (h.utf8 _) hv))
    · rw [Function.update_of_ne hk, Function.update_of_ne (fun e => hk (hτ e))]
      exact h.same k
  · dsimp only at hy
    rw [hd, Function.update_apply] at hy
    split_ifs at hy with hk
    · exact ⟨_, hk.symm⟩
    · exact h.known k' y hy
  · dsimp only at hx
    rw [ht, Function.update_apply] at hx
    split_ifs at hx with hk
    · exact valid_makes hx (h.utf8 _) hv
    · exact h.utf8 k x hx

/-- If `Get` then answers alike, the region names were valid. -/
theorem Corr.valid_of_get (h : s.Corr τ) (href : ¬ s.table.Refused c)
    (hc : Table.Changed hmac s.table c t')
    (hd : d'.entry = Function.update s.sql.entry (τ c.target)
      (((c.renamed τ now).makes hmac (s.sql.entry (τ c.target))).map SqlStore.stored))
    (hget : (t'.get c.target).map (User.anon τ) = (d'.get (τ c.target)).map (User.anon id)) :
    ∀ a ∈ c.regions, Utf8.valid a = true := by
  have hmakes := makes_anon hmac c now (h.same c.target)
  rw [Table.get_eq, SqlStore.get_eq, Table.entry_target hc, hd, Function.update_self] at hget
  cases hx : c.makes hmac (s.table.entry c.target) with
  | none =>
    cases c with
    | create k now' inp => cases hx
    | update k now' inp => exact absurd (Option.map_eq_none_iff.mp hx) href
    | delete k => simp [Call.regions]
  | some x =>
    rw [hx] at hmakes hget
    obtain ⟨y, hy, he⟩ := Option.map_eq_some_iff.mp hmakes
    rw [hy] at hget
    have huser : x.user.anon τ = (SqlStore.stored y).user.anon id := Except.ok.inj hget
    have hhash : y.hash = x.hash := hash_of_anon he
    exact regions_makes hx ((anon_stored_iff he).mp (congrArg₂ Record.mk huser.symm hhash))

end

theorem Corr.step (hm : Table.KeyedHash hmac) (hτ : Function.Injective τ) (h : s.Corr τ) {s' : Both}
    {o : List (Except StoreError (Option User) × Except StoreError (Option User))}
    (hs : s.step hmac τ (c, now) = some (s', o)) (hu : s.table.Unshared hmac c) :
    (∀ x ∈ o, SameReply τ x) ∧ (s.table.Clean c → s'.Corr τ) ∧ (s'.Agree hmac τ → s.table.Clean c) := by
  unfold Both.step at hs
  split_ifs at hs with hf
  obtain ⟨rfl, rfl⟩ := Prod.mk.inj (Option.some.inj hs)
  have href := h.refused_iff now hf
  rcases Table.apply_spec hmac s.table c with ⟨ht, happ⟩ | ⟨ht, t', happ⟩
  · rcases SqlStore.apply_spec hmac s.sql (c.renamed τ now) with ⟨hd, happ'⟩ | ⟨hd, -⟩
    · rw [happ, happ', refusal_renamed]
      exact ⟨by simp [settle, SameReply, Except.map], fun _ => h, fun _ => Or.inl ht⟩
    · exact absurd (href.mpr ht) hd
  · rcases SqlStore.apply_spec hmac s.sql (c.renamed τ now) with ⟨hd, -⟩ | ⟨-, d', happ', hd⟩
    · exact absurd (href.mp hd) ht
    · rw [happ, happ']
      rw [target_renamed] at hd ⊢
      have hc := Table.changed_of_apply hf happ
      refine ⟨?_, fun hclean => ?_, fun hagree => Or.inr ?_⟩
      · have hmakes := makes_anon hmac c now (h.same c.target)
        have hreply := congrArg (Option.map (·.user)) hmakes
        rw [Option.map_map, Option.map_map] at hreply
        simp only [settle, List.mem_singleton, forall_eq, SameReply, Except.map, Option.map_map]
        exact congrArg Except.ok hreply.symm
      · exact h.changed hm hτ hu hc hd (hclean.resolve_left ht)
      · exact h.valid_of_get ht hc hd (hagree.get c.target)

theorem corr_empty : Corr τ {} where
  settled := Table.settled_empty
  same _ := rfl
  known := by
    intro k' x hx
    cases hx
  utf8 := by
    intro k x hx
    cases hx

end Both

/-- **The database and the table.** Both stores start empty and get the same
calls, none of which shares a token. All replies and all answers in between
are the same, up to ids, times and order, if and only if every call that is
not refused supplies valid UTF-8 for its region names. -/
theorem sqlite_agrees_iff (hm : Table.KeyedHash hmac) (hτ : Function.Injective τ) {s : Both}
    {tr : List (Event Both (Call × ℕ) (Except StoreError (Option User) × Except StoreError (Option User)))}
    (h : (both hmac τ).Run tr s) (hu : ∀ e ∈ tr, e.pre.table.Unshared hmac e.act.1) :
    (both hmac τ).init.Agree hmac τ ∧
      ((∀ e ∈ tr, (∀ x ∈ e.out, SameReply τ x) ∧ e.post.Agree hmac τ) ↔
        ∀ e ∈ tr, e.pre.table.Clean e.act.1) := by
  refine ⟨Both.corr_empty.agree hm hτ, h.forall_iff (I := Both.Corr τ)
    (D := fun e => e.pre.table.Unshared hmac e.act.1) Both.corr_empty (fun s a s' o hI hs hD => ?_) hu⟩
  obtain ⟨hreply, hcorr, hclean⟩ := hI.step hm hτ hs hD
  exact ⟨⟨fun hg => hclean hg.2, fun hc => ⟨hreply, (hcorr hc).agree hm hτ⟩⟩, hcorr⟩

end

theorem injective_row : Function.Injective ("row-" ++ · : String → String) := by
  intro a b h
  simpa [← String.toList_inj] using h

/-- A name is taken, a token rotated, a user deleted. -/
theorem sqlite_agrees_rotated : ∃ tr s, (both id ("row-" ++ ·)).Run tr s ∧
    (∀ e ∈ tr, (∀ x ∈ e.out, SameReply ("row-" ++ ·) x) ∧ e.post.Agree id ("row-" ++ ·)) ∧
    (s.sql.authenticateForRegion id "c" "us").map (·.id) = .ok "row-2" := by
  obtain ⟨tr, s, hrun, hu, hv, hauth⟩ := (both id ("row-" ++ ·)).exists_run
    [(.create "1" 1 { username := "alice", credential := "a", allowedRegions := ["\xc3\xa9"] }, 2),
      (.create "2" 3 { username := "bob", credential := "b", allowedRegions := ["us"] }, 4),
      (.create "3" 5 { username := "bob" }, 6), (.update "2" 7 { credential := some "c" }, 8),
      (.update "4" 9 {}, 10), (.delete "1", 11)]
    (P := fun r => (∀ e ∈ r.1, e.pre.table.Unshared id e.act.1) ∧
      (∀ e ∈ r.1, ∀ a ∈ e.act.1.regions, Utf8.valid a = true) ∧
      (r.2.sql.authenticateForRegion id "c" "us").map (·.id) = .ok "row-2")
    (by decide +kernel)
  have hiff := (sqlite_agrees_iff Table.keyedHash_id injective_row hrun hu).2
  exact ⟨tr, s, hrun, hiff.mpr fun e he => Or.inr (hv e he), hauth⟩

/-- A user is allowed a region whose name is the byte `ff`. The table lets
them in, the database does not. -/
theorem sqlite_region_denied : ∃ tr s, (both id id).Run tr s ∧
    (∀ e ∈ tr, e.pre.table.Unshared id e.act.1) ∧
    (authenticateForRegion id s.table "a" "\xff").map (·.username) = .ok "alice" ∧
    s.sql.authenticateForRegion id "a" "\xff" = .error .regionDenied :=
  (both id id).exists_run_of_exec
    [(.create "1" 1 { username := "alice", credential := "a", allowedRegions := ["\xff"] }, 1)]
    (by decide +kernel)

end Userstore
end Revquic
