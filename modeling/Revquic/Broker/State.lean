/-
# The broker's state (`cmd/revquic-broker`)

The broker serves every connection with one goroutine: `handleClient` for a
client, `handleExit` for an exit; every parked session has a timer whose
callback is a goroutine too. A state holds what they share (the maps under
`b.mu`, the address pool, the session counter, the tracker) and where each of
them stands: its program counter and its local variables.

Pointers are names. A connection names the goroutine that serves it, the
control writer on it and what that goroutine allocates: one `exitNode` or at
most one `session`. So `exits`, `sessions` and `parked` map to connections,
and `node` and `sess` are the objects themselves. The 64-bit session counter
is a natural number: it does not wrap.

Key definitions: `ClientPC`, `ExitPC`, `TimerPC`, `State`, `Config`,
`BusEvent`, `Out`.
-/
import Revquic.Ippool
import Revquic.Lb
import Revquic.Userstore
import Revquic.Proto

namespace Revquic
namespace Broker

open Lib Netip Ippool Proto

/-- A QUIC connection, and everything named by it. -/
abbrev Conn := ℕ

/-- `exitNode`: one registration of an exit. Its `conn` and `cw` are the
connection that names it. -/
structure ExitNode where
  nodeID : String := ""
  name : String := ""
  region : String := ""
  osInfo : String := ""
  capacity : ℤ := 0
  connectedAt : ℕ := 0
  active : ℤ := 0

/-- `session`. -/
structure Session where
  id : ℕ := 0
  clientIP : String := ""
  clientAddr : Addr := .zero
  username : String := ""
  resumeKey : String := ""
  suspended : Bool := false
  parkedAt : ℕ := 0
  suspendTimer : Option ℕ := none
  nodeID : String := ""
  startedAt : ℕ := 0
  clientConn : Conn := 0
  exitConn : Conn := 0
  clientCW : Conn := 0
  exitCW : Conn := 0

/-- Where a `handleClient` goroutine stands: what it does next. -/
inductive ClientPC
  | idle         -- no `Connect` has arrived on this connection
  | auth         -- check the token and the region
  | lock         -- take `b.mu`: list, resume or choose an exit
  | reply        -- write the reply held in `reply` and return
  | chosen       -- draw a session id
  | numbered     -- allocate an address
  | allocated    -- insert the new session
  | inserted     -- count it: `ex.active.Add(1)`
  | counted      -- `qos.Connect`
  | resumed      -- count the resumed session
  | start        -- write `MsgSessionStart` to the exit
  | startFailed  -- that write failed: tell the client
  | ending       -- `endSession`
  | ended        -- `endSession` removed it: write `MsgSessionEnd`
  | connectOK    -- write `MsgConnectOK` to the client
  | started      -- publish `SessionStarted`
  | relay        -- in `relayLoop`
  | dropped      -- the connection is gone: `suspendSession`
  | parked       -- parked: write `MsgSessionSuspend`
  | closed       -- torn down: write `MsgSessionEnd`
  | disconnect   -- `qos.Disconnect`
  | publishEnd   -- publish `SessionEnded`
  | done
  deriving DecidableEq

/-- A `handleClient` goroutine: its program counter and local variables.
`s` is the session it runs, `ice` what `runSession` sends with it; `reading`
says that its control read loop is up. -/
structure ClientThread where
  pc : ClientPC := .idle
  msg : Connect := {}
  user : Userstore.User := {}
  reply : Control := .registerOK
  ex : Conn := 0
  sid : ℕ := 0
  clientAddr : Addr := .zero
  s : Conn := 0
  ice : IceServers := {}
  intentional : Bool := false
  reading : Bool := false

/-- Where a `handleExit` goroutine stands. -/
inductive ExitPC
  | idle
  | refuse       -- bad token: write the error and return
  | welcome      -- in `b.exits`: write `MsgRegisterOK`
  | nodeUp       -- `qos.NodeUp`
  | announce     -- `deviceView`: load `ex.active` for `NodeConnected`
  | publishUp    -- publish it, start the relay loop
  | loop         -- in the control read loop
  | publishUpdate  -- `deviceView` has been called: publish `NodeUpdated`
  | gone         -- the loop ended: take `b.mu`, delete from `b.exits`
  | nodeDown     -- `qos.NodeDown`
  | publishGone  -- publish `NodeDisconnected`
  | scan         -- `failExit`: collect the sessions of the node
  | notify       -- `failExit`: write the error to the first client left
  | close        -- `failExit`: close its connection
  | done
  deriving DecidableEq

/-- A `handleExit` goroutine; `activeUsers` is what `deviceView` has loaded,
`affected` what `failExit` still has to disconnect, `relaying` says that its
relay loop is up. -/
structure ExitThread where
  pc : ExitPC := .idle
  activeUsers : ℤ := 0
  affected : List Conn := []
  relaying : Bool := false

/-- Where the callback of a park timer stands. -/
inductive TimerPC
  | unset
  | armed
  | stopped
  | fired        -- the callback runs: `expirePark` takes `b.mu`
  | write        -- expired: write `MsgSessionEnd`
  | disconnect   -- `qos.Disconnect`
  | publishEnd   -- publish `SessionEnded`
  | done
  deriving DecidableEq

/-- A park timer: `AfterFunc(resumeTTL, expirePark(resumeKey, sid))`. Once
it has expired, `s` is the session and `ex` the exit to tell. -/
structure Timer where
  pc : TimerPC := .unset
  deadline : ℤ := 0
  resumeKey : String := ""
  sid : ℕ := 0
  s : Conn := 0
  ex : Option Conn := none

/-- The flags the handlers read, and the code they call outside this
development: the keyed token hash and the TURN credentials minted at a time
for a session. -/
structure Config where
  nodeSecret : String := "node-secret"
  oidc : Bool := false
  hmac : String → String := id
  resumeTTL : ℤ := 3600000000000
  lbStrategy : Lb.Strategy := .leastConn
  turnSecret : String := ""
  turnURL : String := ""
  stunURL : String := ""
  credentials : ℕ → ℕ → String × String := fun _ _ => ("", "")

/-- The broker, and its goroutines. -/
structure State where
  now : ℕ
  users : Userstore.Table
  exits : GoMap String Conn
  sessions : GoMap ℕ Conn
  parked : GoMap String Conn
  nextSession : ℕ
  ipPool : Pool
  qos : Qos.Tracker
  rr : ℕ
  node : Conn → ExitNode
  sess : Conn → Session
  client : Conn → ClientThread
  exitT : Conn → ExitThread
  timer : ℕ → Timer
  nextTimer : ℕ
  /-- The registrations so far, the most recent first. -/
  regs : List Conn

/-- `10.99.0.0/24`. -/
def vpnPrefix : Prefix := ⟨.v4 0x0a630000#32, 24, rfl, by decide⟩

/-- `newBroker`. The gateway `10.99.0.1` is reserved. -/
def newBroker (users : Userstore.Table) : State where
  now := 0
  users := users
  exits := ∅
  sessions := ∅
  parked := ∅
  nextSession := 0
  ipPool := Pool.new vpnPrefix [.v4 0x0a630001#32]
  qos := {}
  rr := 0
  node := fun _ => {}
  sess := fun _ => {}
  client := fun _ => {}
  exitT := fun _ => {}
  timer := fun _ => {}
  nextTimer := 0
  regs := []

/-- The events of the admin feed, with what the dashboard folds. -/
inductive BusEvent
  | nodeConnected (nodeID : String) (activeUsers : ℤ)
  | nodeUpdated (nodeID : String) (activeUsers : ℤ)
  | nodeDisconnected (nodeID : String)
  | sessionStarted (sid : ℕ) (nodeID : String)
  | sessionEnded (sid : ℕ) (nodeID : String)
  deriving DecidableEq

/-- What a step does outside the broker's own state: a control message that
went out, a datagram relayed from one connection to another, a connection
closed, an event published. `release` marks the `ipPool.Release` of a
session's address. -/
inductive Out
  | ctrl (dst : Conn) (m : Control)
  | dgram (src dst : Conn) (dg : List UInt8)
  | close (c : Conn)
  | publish (ev : BusEvent)
  | release (s : Conn) (addr : Addr)
  deriving DecidableEq

def Out.event : Out → Option BusEvent
  | .publish ev => some ev
  | _ => none

/-- The events a step publishes. -/
def published (o : List Out) : List BusEvent := o.filterMap Out.event

namespace State

variable (b : State)

def setClient (c : Conn) (t : ClientThread) : State :=
  { b with client := Function.update b.client c t }

/-- Goroutine `c` moves on to `pc`. -/
def goto (c : Conn) (pc : ClientPC) : State := b.setClient c { b.client c with pc }

def setExit (c : Conn) (t : ExitThread) : State :=
  { b with exitT := Function.update b.exitT c t }

def gotoExit (c : Conn) (pc : ExitPC) : State := b.setExit c { b.exitT c with pc }

def setTimer (k : ℕ) (t : Timer) : State := { b with timer := Function.update b.timer k t }

def gotoTimer (k : ℕ) (pc : TimerPC) : State := b.setTimer k { b.timer k with pc }

/-- `ex.active.Add(d)`. -/
def addActive (ex : Conn) (d : ℤ) : State :=
  { b with node := Function.update b.node ex { b.node ex with active := (b.node ex).active + d } }

@[simp] theorem setClient_client (c : Conn) (t : ClientThread) :
    (b.setClient c t).client = Function.update b.client c t := rfl

@[simp] theorem goto_client (c : Conn) (pc : ClientPC) :
    (b.goto c pc).client = Function.update b.client c { b.client c with pc } := rfl

@[simp] theorem addActive_client (ex : Conn) (d : ℤ) : (b.addActive ex d).client = b.client := rfl

@[simp] theorem gotoExit_exitT (c : Conn) (pc : ExitPC) :
    (b.gotoExit c pc).exitT = Function.update b.exitT c { b.exitT c with pc } := rfl

@[simp] theorem setTimer_timer (k : ℕ) (t : Timer) :
    (b.setTimer k t).timer = Function.update b.timer k t := rfl

@[simp] theorem gotoTimer_timer (k : ℕ) (pc : TimerPC) :
    (b.gotoTimer k pc).timer = Function.update b.timer k { b.timer k with pc } := rfl

end State

end Broker
end Revquic
