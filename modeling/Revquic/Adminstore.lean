/-
# Administrator accounts (`internal/adminstore`), and failed flushes

The accounts of the management plane, by name, with the hash of a password
each. `Create` puts the account into the map and then flushes, as the user
store does. If the flush fails, the caller is told that there is no new
account, and the account works until the broker restarts. For both stores a
failed operation leaves no trace exactly if it failed before it changed the
map.

Key definitions: `Table`, `create`, `verify`, `newFile`, `Refused`.
Key theorem: `no_trace_iff`.
-/
import Revquic.Userstore.File

namespace Revquic
namespace Adminstore

open Lib

/-- `Admin`. -/
structure Admin where
  username : String
  role : String
  passHash : String
  createdAt : ℕ
  deriving DecidableEq

/-- `Public`: an account without the hash. -/
structure Public where
  username : String
  role : String
  deriving DecidableEq

/-- `RoleAdmin`. -/
def roleAdmin : String := "admin"

/-- The errors of the table; `hash` is an error of the random source under
`pwhash.Hash`. -/
inductive AdminError
  | conflict
  | badCreds
  | hash
  deriving DecidableEq

/-- `internal/pwhash`: the hash of a password under a salt, and the check of
a password against a hash. -/
structure Pwhash where
  hash : String → String → String
  verify : String → String → Bool

/-- A call of `Create`, with the salt that is drawn, if one is, and the
time. -/
structure Call where
  username : String
  password : String
  role : String := ""
  salt : Option String
  now : ℕ

/-- `table`: the accounts by name. No account is ever changed, so that the
pointers of the map need no heap. -/
structure Table where
  byU : GoMap String Admin := ∅

namespace Table

variable (pw : Pwhash) (t : Table)

/-- `Create`, up to the flush. -/
def create (c : Call) : Except AdminError (Table × Public) :=
  let role := if c.role = "" then roleAdmin else c.role
  match c.salt with
  | none => .error .hash
  | some salt =>
    if c.username ∈ t.byU then .error .conflict
    else
      .ok (⟨t.byU.insert c.username ⟨c.username, role, pw.hash c.password salt, c.now⟩⟩,
        ⟨c.username, role⟩)

/-- `Verify`. -/
def verify (username password : String) : Except AdminError Public :=
  match t.byU.lookup username with
  | none => .error .badCreds
  | some a => if pw.verify password a.passHash then .ok ⟨a.username, a.role⟩ else .error .badCreds

/-- `List`. -/
def list : List Public := t.byU.entries.map fun e => ⟨e.2.username, e.2.role⟩

/-- `load`, from the accounts in the file. -/
def load (admins : List Admin) : Table := ⟨admins.foldl (fun m a => m.insert a.username a) ∅⟩

/-- `NewFile`. -/
def newFile (file : Option (List Admin)) : Table := load (file.getD [])

/-- Two tables give the same answers. -/
def Alike (t' t : Table) : Prop :=
  t'.list.Perm t.list ∧ ∀ username password, t'.verify pw username password = t.verify pw username password

/-- A call is refused before it changes anything: the password could not be
hashed, or the name is taken. -/
def Refused (t : Table) (c : Call) : Prop := c.salt = none ∨ c.username ∈ t.byU

variable {pw} {t t' : Table} {c : Call}

theorem refused_iff : t.Refused c ↔ ∃ err, t.create pw c = .error err := by
  unfold Refused create
  cases c.salt with
  | none => simp
  | some salt =>
    by_cases hmem : c.username ∈ t.byU
    · simp [hmem]
    · simp [hmem]

/-- A new account shows in the list. -/
theorem length_list_create {p : Public} (h : t.create pw c = .ok (t', p)) :
    t'.list.length = t.list.length + 1 := by
  unfold create at h
  cases hsalt : c.salt with
  | none => simp [hsalt] at h
  | some salt =>
    by_cases hmem : c.username ∈ t.byU
    · simp [hsalt, hmem] at h
    · simp only [hsalt, if_neg hmem] at h
      obtain ⟨rfl, -⟩ := Prod.mk.inj (Except.ok.inj h)
      simp [list, AList.insert_of_notMem hmem]

section
variable {s : Stored Table (List Admin)} {img : List Admin} {fail : Option FlushError}

theorem noTrace_iff : s.NoTrace (create pw) (Alike pw) newFile c img fail ↔
    fail = none ∨ s.mem.Refused c := by
  constructor
  · intro hn
    cases fail with
    | none => exact Or.inl rfl
    | some err =>
      cases happ : s.mem.create pw c with
      | error e => exact Or.inr (refused_iff.mpr ⟨e, happ⟩)
      | ok x =>
        have hlen := (hn.of_flush_failed happ).1.length_eq
        rw [length_list_create happ] at hlen
        omega
  · intro h
    exact Stored.noTrace_of (fun t => ⟨List.Perm.refl _, fun _ _ => rfl⟩) (h.imp_right refused_iff.mp)

end

end Table

open Userstore (Record)

/-- **Failed operations.** For every state of either store, every operation
and every place where the flush may fail: an operation that is refused, or
whose flush succeeds, leaves no trace if it returns an error. Any other one
leaves a trace; only an update of a user at the very time of their last one
need not. -/
theorem no_trace_iff (hmac : String → String) (pw : Pwhash) :
    (∀ (s : Stored Userstore.Table (List Record)) (c : Userstore.Call) (img : List Record)
        (fail : Option FlushError), s.mem.Fresh c →
      (fail = none ∨ s.mem.Refused c →
        s.NoTrace (Userstore.Table.apply hmac) (Userstore.Table.Alike hmac) Userstore.Table.newFile
          c img fail) ∧
      (s.NoTrace (Userstore.Table.apply hmac) (Userstore.Table.Alike hmac) Userstore.Table.newFile
          c img fail →
        fail = none ∨ s.mem.Refused c ∨ s.mem.SameInstant c)) ∧
    ∀ (s : Stored Table (List Admin)) (c : Call) (img : List Admin) (fail : Option FlushError),
      s.NoTrace (Table.create pw) (Table.Alike pw) Table.newFile c img fail ↔
        fail = none ∨ s.mem.Refused c :=
  ⟨fun _ _ _ _ hf => ⟨Userstore.Table.noTrace_of_refused, Userstore.Table.refused_of_noTrace hf⟩,
    fun _ _ _ _ => Table.noTrace_iff⟩

/-- Passwords kept as they are. -/
def Pwhash.plain : Pwhash := ⟨fun password _ => password, fun password h => password = h⟩

/-- The flush of a new user and of a new administrator fails. -/
theorem no_trace_iff_full :
    (¬ Stored.NoTrace (Userstore.Table.apply id) (Userstore.Table.Alike id) Userstore.Table.newFile
        ⟨{}, none⟩ (.create "1" 1 { username := "alice", credential := "a" }) [] (some .write)) ∧
      ¬ Stored.NoTrace (Table.create .plain) (Table.Alike .plain) Table.newFile
        ⟨{}, none⟩ ⟨"root", "pw", "", some "", 1⟩ [] (some .write) := by
  obtain ⟨huser, hadmin⟩ := no_trace_iff id .plain
  refine ⟨fun h => ?_, fun h => ?_⟩
  · rcases (huser _ _ _ _ (by decide)).2 h with h | ⟨k, x, hx, -⟩ | h
    · cases h
    · cases hx
    · cases h
  · rcases (hadmin _ _ _ _).mp h with h | h | h
    · cases h
    · cases h
    · exact absurd h (by decide)

/-- The temporary file cannot be written. `Create` of either store returns
the error, and the user and the administrator can log in. -/
theorem failed_create_works :
    (∃ s : Stored Userstore.Table (List Record),
      Stored.perform (Userstore.Table.apply id) ⟨{}, none⟩
          (.create "1" 1 { username := "alice", credential := "a", allowedRegions := ["*"] }) []
          (some .write) = (s, .error (.inr .write)) ∧
        (Userstore.authenticateForRegion id s.mem "a" "us").map (·.username) = .ok "alice" ∧
        (s.mem.get "1").map (·.username) = .ok "alice" ∧
        (Userstore.Table.newFile s.file).get "1" = .error .notFound) ∧
    ∃ s : Stored Table (List Admin),
      Stored.perform (Table.create .plain) ⟨{}, none⟩
          ⟨"root", "pw", "", some "", 1⟩ [] (some .write) = (s, .error (.inr .write)) ∧
        s.mem.verify .plain "root" "pw" = .ok ⟨"root", "admin"⟩ ∧
        (Table.newFile s.file).verify .plain "root" "pw" = .error .badCreds :=
  ⟨⟨_, rfl, by decide, by decide, by decide⟩, ⟨_, rfl, by decide, by decide⟩⟩

end Adminstore
end Revquic
