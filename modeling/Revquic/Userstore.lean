/-
# Users and their region policy (`internal/userstore`)

The table store behind `AuthenticateForRegion` and `AuthorizeUser`. Records
are reached through pointers from two maps, by id and by token hash; the
keyed hash of a token is a parameter (`hmac`, HMAC-SHA256 under the server's
pepper).

Key definitions: `User`, `Table`, `authenticateForRegion`, `authorizeUser`.
-/
import Revquic.Lib.GoMap

namespace Revquic
namespace Userstore

open Lib

/-- `adminapi.User`, without the session count that the admin API fills
in. -/
structure User where
  id : String := ""
  username : String := ""
  allowedRegions : List String := []
  status : String := ""
  createdAt : ℕ := 0
  updatedAt : ℕ := 0
  deriving DecidableEq

/-- `adminapi.UserEnabled`. -/
def userEnabled : String := "enabled"

/-- The store's errors. -/
inductive StoreError
  | notFound
  | conflict
  | badToken
  | disabled
  | regionDenied
  deriving DecidableEq

/-- Their texts. -/
def StoreError.text : StoreError → String
  | .notFound => "user not found"
  | .conflict => "username already exists"
  | .badToken => "invalid token"
  | .disabled => "user disabled"
  | .regionDenied => "region not allowed for user"

/-- `record`: a user and the hash of their token, empty without one. -/
structure Record where
  user : User
  hash : String
  deriving DecidableEq

/-- `table`: the records, and the two maps of pointers into them. -/
structure Table where
  recs : ℕ → Record := fun _ => ⟨{}, ""⟩
  byID : GoMap String ℕ := ∅
  byHash : GoMap String ℕ := ∅

/-- `regionAllowed`: the region is listed, or `*` is. -/
def regionAllowed (allowed : List String) (region : String) : Bool :=
  allowed.any fun a => a = "*" || a = region

variable (hmac : String → String)

/-- `hashToken`: the empty token has the empty hash. -/
def hashToken (token : String) : String := if token = "" then "" else hmac token

/-- The checks a user passes once found: enabled, and allowed in the
region. -/
def checkUser (u : User) (region : String) : Except StoreError User :=
  if u.status ≠ userEnabled then .error .disabled
  else if regionAllowed u.allowedRegions region then .ok u
  else .error .regionDenied

/-- `AuthenticateForRegion`. -/
def authenticateForRegion (t : Table) (token region : String) : Except StoreError User :=
  match t.byHash.lookup (hashToken hmac token) with
  | none => .error .badToken
  | some r => if token = "" then .error .badToken else checkUser (t.recs r).user region

/-- `AuthorizeUser`: the identity is known already. -/
def authorizeUser (t : Table) (username region : String) : Except StoreError User :=
  match t.byID.entries.find? fun e => (t.recs e.2).user.username = username with
  | none => .error .notFound
  | some e => checkUser (t.recs e.2).user region

end Userstore
end Revquic
