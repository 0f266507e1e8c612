/-
# The admin API (`internal/adminserver`, `internal/auth`)

The HTTP server of the management plane, in front of the broker's user store.
Every request is a goroutine: `RequireToken` checks its token against the
sessions that logins have opened, and then its handler runs; in between,
other requests, the broker and the clock go on. `Verify`, `issue` and the
insertion of the new session are steps of their own.

The bodies of requests are what `Decode` makes of them. The accounts of the
administrators do not change: no endpoint creates one. Of the answers from
the broker's own state those about exits are modelled, without the measured
rates; each is of one moment.

Key definitions: `Request`, `Route`, `validate`, `listNodes`, `listRegions`,
`respond`, `step`, `machine`.
-/
import Revquic.Adminstore
import Revquic.Broker.Step
import Revquic.Lib.Trim

namespace Revquic
namespace Adminserver

open Lib
open Userstore (User UserCreate UserUpdate)
open Broker (Conn)

/-! ### Requests -/

inductive Method
  | get
  | head
  | post
  | patch
  | delete
  | other
  deriving DecidableEq

/-- What the handlers read of an `http.Request`. The path is given by its
segments, as the router sees them. -/
structure Request where
  method : Method
  path : List String
  authorization : String := ""
  query : List (String × String) := []
  login : Option (String × String) := none
  create : Option UserCreate := none
  update : Option UserUpdate := none
  deriving DecidableEq

/-- `r.URL.Query().Get`. -/
def Request.get (r : Request) (key : String) : String := (r.query.lookup key).getD ""

/-- `unicode.IsSpace`. -/
def isSpace (c : Char) : Bool :=
  c.toNat ∈ [0x20, 0x85, 0xa0, 0x1680, 0x2028, 0x2029, 0x202f, 0x205f, 0x3000] ||
    (0x9 ≤ c.toNat && c.toNat ≤ 0xd) || (0x2000 ≤ c.toNat && c.toNat ≤ 0x200a)

/-- `BearerToken`, from the `Authorization` header. -/
def bearerToken (h : String) : String :=
  if "Bearer ".toList.isPrefixOf h.toList then String.ofList (trim isSpace (h.toList.drop 7)) else ""

/-- The token of a request: `RequireToken` falls back on `access_token`. -/
def Request.token (r : Request) : String :=
  if bearerToken r.authorization = "" then r.get "access_token" else bearerToken r.authorization

/-- The handlers of `Handler`; `static` is the dashboard and `notAllowed` the
router's own answer. -/
inductive Route
  | login
  | listUsers
  | createUser
  | getUser (id : String)
  | updateUser (id : String)
  | deleteUser (id : String)
  | listRegions
  | listNodes
  | getNode (id : String)
  | listSessions
  | qosExits
  | qosSessions
  | qosHistory
  | events
  | static
  | notAllowed
  deriving DecidableEq

/-- A pattern of `GET` takes `HEAD` too. -/
def Method.reads : Method → Bool
  | .get | .head => true
  | _ => false

/-- What no other pattern takes: `GET /` does, for the methods it has. -/
def fallback (m : Method) : Route := if m.reads then .static else .notAllowed

/-- A pattern of `GET`. -/
def reading (m : Method) (h : Route) : Route := if m.reads then h else .notAllowed

/-- The patterns of `Handler`. A wildcard takes no empty segment. -/
def route (m : Method) : List String → Route
  | ["api", "v1", "admin", "login"] => if m = .post then .login else fallback m
  | ["api", "v1", "users"] => if m = .post then .createUser else reading m .listUsers
  | ["api", "v1", "users", id] =>
    if id = "" then fallback m
    else if m = .patch then .updateUser id
    else if m = .delete then .deleteUser id
    else reading m (.getUser id)
  | ["api", "v1", "regions"] => reading m .listRegions
  | ["api", "v1", "nodes"] => reading m .listNodes
  | ["api", "v1", "nodes", id] => if id = "" then fallback m else reading m (.getNode id)
  | ["api", "v1", "sessions"] => reading m .listSessions
  | ["api", "v1", "qos", "exits"] => reading m .qosExits
  | ["api", "v1", "qos", "sessions"] => reading m .qosSessions
  | ["api", "v1", "qos", "history"] => reading m .qosHistory
  | ["api", "v1", "events"] => reading m .events
  | _ => fallback m

def Request.route (r : Request) : Route := Adminserver.route r.method r.path

/-! ### What the server answers -/

/-- `adminapi.DeviceView`, without what is measured. -/
structure DeviceView where
  nodeID : String
  name : String
  region : String
  status : String
  system : String
  capacity : ℤ
  activeUsers : ℤ
  connectedAt : ℕ
  deriving DecidableEq

/-- `adminapi.Region`. -/
structure Region where
  code : String
  name : String
  nodeCount : ℕ
  onlineNodes : ℕ
  activeUsers : ℤ
  deriving DecidableEq

/-- An answer; `view` is one from the broker's state that is not modelled. -/
inductive Reply
  | unauthorized
  | error (status : ℕ) (code message : String)
  | session (token role : String) (expiresAt : ℕ)
  | users (l : List User)
  | user (u : User)
  | created (u : User) (token : String)
  | noContent
  | nodes (l : List DeviceView)
  | node (n : DeviceView)
  | regions (l : List Region)
  | view
  | file
  | notAllowed
  deriving DecidableEq

/-- `adminapi.NodeOnline`. -/
def nodeOnline : String := "online"

/-- `deviceView`. -/
def deviceView (ex : Broker.ExitNode) : DeviceView where
  nodeID := ex.nodeID
  name := ex.name
  region := ex.region
  status := nodeOnline
  system := ex.osInfo
  capacity := ex.capacity
  activeUsers := ex.active
  connectedAt := ex.connectedAt

/-- `ListNodes`, at one moment. It loads the counters one after the other, with
`b.mu` held for reading; a goroutine that has inserted or resumed its session
before can raise one meanwhile, and that is left out. -/
def listNodes (b : Broker.State) : List DeviceView :=
  b.exits.entries.map fun e => deviceView (b.node e.2)

/-- `agg`. -/
structure Agg where
  online : ℕ := 0
  users : ℤ := 0

/-- One turn of the loop of `listRegions`. -/
def addNode (m : GoMap String Agg) (n : DeviceView) : GoMap String Agg :=
  let a := (m.lookup n.region).getD {}
  m.insert n.region
    ⟨if n.status = nodeOnline then a.online + 1 else a.online, a.users + n.activeUsers⟩

/-- `listRegions`, from the nodes. -/
def listRegions (nodes : List DeviceView) : List Region :=
  (nodes.foldl addNode ∅).entries.map fun e => ⟨e.1, e.1, e.2.online, e.2.online, e.2.users⟩

/-! ### The sessions of administrators -/

/-- `sessionEntry`. -/
structure SessionEntry where
  role : String
  exp : ℕ
  deriving DecidableEq

/-- The eight hours of a session. -/
def sessionTTL : ℕ := 8 * 3600000000000

/-- `valid`: a session that has expired is deleted when it is used. -/
def valid (m : GoMap String SessionEntry) (now : ℕ) (tok : String) :
    Bool × GoMap String SessionEntry :=
  match m.lookup tok with
  | none => (false, m)
  | some e => if e.exp < now then (false, m.erase tok) else (true, m)

/-- The flags of the server, and the accounts it has been started with. -/
structure Config where
  broker : Broker.Config := {}
  pw : Adminstore.Pwhash
  admins : Option Adminstore.Table
  bootstrapToken : String := "admin-secret"

/-- `validate`. -/
def validate (cfg : Config) (m : GoMap String SessionEntry) (now : ℕ) (tok : String) :
    Bool × GoMap String SessionEntry :=
  if cfg.bootstrapToken ≠ "" ∧ tok = cfg.bootstrapToken then (true, m) else valid m now tok

/-! ### The server -/

/-- Where the goroutine of a request stands. -/
inductive PC
  | idle                                        -- no request yet
  | check                                       -- `RequireToken`
  | handle                                      -- the handler proper
  | verify                                      -- `login`: `Admins.Verify`
  | issue (role : String)                       -- draw a token and take the time
  | insert (tok role : String) (exp : ℕ)        -- put the session into the map
  | done (reply : Reply)
  deriving DecidableEq

structure Handler where
  pc : PC := .idle
  req : Request := { method := .other, path := [] }
  deriving DecidableEq

/-- The broker, the sessions of administrators and the requests. -/
structure State where
  broker : Broker.State
  sessions : GoMap String SessionEntry := ∅
  req : ℕ → Handler := fun _ => {}

namespace State

variable (s : State)

def setReq (n : ℕ) (pc : PC) : State :=
  { s with req := Function.update s.req n { s.req n with pc } }

def setUsers (t : Userstore.Table) : State := { s with broker := { s.broker with users := t } }

end State

/-- What a handler draws, and the error of the flush if there is one. -/
structure Input where
  id : String := ""
  token : String := ""
  fail : Option String := none

/-- What a change of the store is answered with: the flush comes last. -/
def flushed (i : Input) (t : Userstore.Table) (failed : String → Reply) (reply : Reply) :
    Userstore.Table × Reply :=
  match i.fail with
  | some text => (t, failed text)
  | none => (t, reply)

/-- The request body of `createUser`, with a credential in every case. -/
def withCredential (i : Input) (inp : UserCreate) : UserCreate :=
  if inp.credential = "" then { inp with credential := i.token } else inp

/-- `createUser`. -/
def createUser (hmac : String → String) (t : Userstore.Table) (now : ℕ) (r : Request) (i : Input) :
    Userstore.Table × Reply :=
  match r.create with
  | none => (t, .error 422 "validation_error" "invalid body")
  | some inp =>
    match t.create hmac i.id now (withCredential i inp) with
    | .error err =>
      if err = .conflict then (t, .error 409 "conflict" err.text)
      else (t, .error 422 "validation_error" err.text)
    | .ok (t', u) =>
      flushed i t' (.error 422 "validation_error") (.created u (withCredential i inp).credential)

/-- `getUser`. -/
def getUser (t : Userstore.Table) (id : String) : Reply :=
  match t.get id with
  | .error err => .error 404 "not_found" err.text
  | .ok u => .user u

/-- `updateUser`. -/
def updateUser (hmac : String → String) (t : Userstore.Table) (now : ℕ) (id : String) (r : Request)
    (i : Input) : Userstore.Table × Reply :=
  match r.update with
  | none => (t, .error 422 "validation_error" "invalid body")
  | some inp =>
    match t.update hmac id now inp with
    | .error err => (t, .error 404 "not_found" err.text)
    | .ok (t', u) => flushed i t' (.error 404 "not_found") (.user u)

/-- `deleteUser`. -/
def deleteUser (t : Userstore.Table) (id : String) (i : Input) : Userstore.Table × Reply :=
  match t.delete id with
  | .error err => (t, .error 404 "not_found" err.text)
  | .ok t' => flushed i t' (.error 404 "not_found") .noContent

/-- `listNodes`: the filter by region. -/
def filterNodes (region : String) (nodes : List DeviceView) : List DeviceView :=
  if region = "" then nodes else nodes.filter fun n => n.region = region

/-- `getNode`. -/
def getNode (nodes : List DeviceView) (id : String) : Reply :=
  match nodes.find? fun n => n.nodeID = id with
  | none => .error 404 "not_found" "node not found"
  | some n => .node n

/-- The handlers behind `RequireToken`: the user store they leave, and the
answer. -/
def respond (cfg : Config) (b : Broker.State) (r : Request) (i : Input) : Userstore.Table × Reply :=
  match r.route with
  | .listUsers => (b.users, .users (b.users.list (r.get "region") (r.get "status")))
  | .createUser => createUser cfg.broker.hmac b.users b.now r i
  | .getUser id => (b.users, getUser b.users id)
  | .updateUser id => updateUser cfg.broker.hmac b.users b.now id r i
  | .deleteUser id => deleteUser b.users id i
  | .listRegions => (b.users, .regions (listRegions (listNodes b)))
  | .listNodes => (b.users, .nodes (filterNodes (r.get "region") (listNodes b)))
  | .getNode id => (b.users, getNode (listNodes b) id)
  | _ => (b.users, .view)

/-- The start of a request: what the router makes of it. -/
def accept (r : Request) : PC :=
  match r.route with
  | .login => .verify
  | .static => .done .file
  | .notAllowed => .done .notAllowed
  | _ => .check

/-- `login`, up to the token. -/
def verify (cfg : Config) (r : Request) : PC :=
  match r.login with
  | none => .done (.error 400 "bad_request" "invalid body")
  | some (username, password) =>
    match cfg.admins with
    | none => .done (.error 503 "unavailable" "no admin store configured")
    | some admins =>
      match admins.verify cfg.pw username password with
      | .error _ => .done (.error 401 "unauthorized" "bad credentials")
      | .ok pub => .issue pub.role

inductive Action
  | broker (a : Broker.Action)
  | arrive (n : ℕ) (r : Request)
  | check (n : ℕ)
  | handle (n : ℕ) (i : Input)
  | verify (n : ℕ)
  | issue (n : ℕ) (tok : String)
  | insert (n : ℕ)

/-- The user store changes through requests only. -/
def ofBroker : Broker.Action → Bool
  | .users _ => false
  | _ => true

/-- `newID` draws an id that no user has, as in `Userstore.Table.Fresh`. -/
def drawsFresh (t : Userstore.Table) (r : Request) (i : Input) : Prop :=
  r.route = .createUser → i.id ∉ t.byID

instance (t : Userstore.Table) (r : Request) (i : Input) : Decidable (drawsFresh t r i) :=
  inferInstanceAs (Decidable (_ → _))

/-- One step of the broker or of a request, and what the broker puts out. -/
def step (cfg : Config) (s : State) : Action → Option (State × List Broker.Out)
  | .broker a =>
    if ofBroker a then
      (Broker.step cfg.broker s.broker a).map fun x => ({ s with broker := x.1 }, x.2)
    else none
  | .arrive n r =>
    if (s.req n).pc = .idle then
      some ({ s with req := Function.update s.req n { pc := accept r, req := r } }, [])
    else none
  | .check n =>
    if (s.req n).pc = .check then
      let tok := (s.req n).req.token
      if tok = "" then some (s.setReq n (.done .unauthorized), [])
      else
        let v := validate cfg s.sessions s.broker.now tok
        some ({ s with sessions := v.2 }.setReq n (if v.1 then .handle else .done .unauthorized), [])
    else none
  | .handle n i =>
    if (s.req n).pc = .handle ∧ drawsFresh s.broker.users (s.req n).req i then
      let x := respond cfg s.broker (s.req n).req i
      some ((s.setUsers x.1).setReq n (.done x.2), [])
    else none
  | .verify n =>
    if (s.req n).pc = .verify then some (s.setReq n (verify cfg (s.req n).req), []) else none
  | .issue n tok =>
    match (s.req n).pc with
    | .issue role =>
      -- 32 random bytes in hexadecimal: never empty, not taken to be new
      if tok = "" then none
      else some (s.setReq n (.insert tok role (s.broker.now + sessionTTL)), [])
    | _ => none
  | .insert n =>
    match (s.req n).pc with
    | .insert tok role exp =>
      some ({ s with sessions := s.sessions.insert tok ⟨role, exp⟩ }.setReq n
        (.done (.session tok role exp)), [])
    | _ => none

/-- A broker with no connections, and no request yet. -/
def machine (cfg : Config) (users : Userstore.Table) : Machine State Action Broker.Out :=
  ⟨{ broker := Broker.newBroker users }, step cfg⟩

end Adminserver
end Revquic
