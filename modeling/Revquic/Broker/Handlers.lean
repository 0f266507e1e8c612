/-
# The broker's handlers

One definition for each piece of a handler that runs without interruption: a
`b.mu` critical section, a call into the pool, the tracker or an atomic
counter, a write to a control stream. A write goes out or fails as its
argument says; the code looks at the result of one write only, that of
`MsgSessionStart`.

Key definitions: `handleExit`, `exitStep`, `exitCtrl`, `tryResume`,
`chooseExit`, `admitClient`, `clientStep`, `expirePark`, `relayDatagram`.
-/
import Revquic.Broker.State

namespace Revquic
namespace Broker

open Lib Netip Ippool Proto

variable (cfg : Config) (b : State)

/-- A write of `m` on the control stream of `dst`. -/
def written (ok : Bool) (dst : Conn) (m : Control) : List Out := if ok then [.ctrl dst m] else []

/-! ### `handleExit` -/

/-- The token check and the registration. A capacity of 0 stands for the
default of 100. -/
def handleExit (c : Conn) (msg : Register) : State :=
  if msg.token ≠ cfg.nodeSecret then b.gotoExit c .refuse
  else
    let ex : ExitNode :=
      { nodeID := msg.nodeID, name := msg.name, region := msg.region, osInfo := msg.os
        capacity := if msg.capacity = 0 then 100 else msg.capacity
        connectedAt := b.now }
    { (b.gotoExit c .welcome) with
      node := Function.update b.node c ex
      exits := b.exits.insert msg.nodeID c
      regs := c :: b.regs }

/-- The sessions `failExit` disconnects: those of the node id. -/
def affectedBy (ex : Conn) : List Conn :=
  (b.sessions.entries.map (·.2)).filter fun p => (b.sess p).nodeID = (b.node ex).nodeID

/-- The text `failExit` sends. -/
def exitDownText (nodeID : String) : String :=
  "exit node " ++ nodeID ++ " disconnected; please reconnect"

/-- The next step of a `handleExit` goroutine, its control loop aside. -/
def exitStep (c : Conn) (ok : Bool) : Option (State × List Out) :=
  let t := b.exitT c
  let ex := b.node c
  match t.pc with
  | .refuse => some (b.gotoExit c .done, written ok c (.error "bad node token"))
  | .welcome => some (b.gotoExit c .nodeUp, written ok c .registerOK)
  | .nodeUp => some ({ (b.gotoExit c .announce) with
      qos := b.qos.nodeUp ex.nodeID ex.region ex.connectedAt b.now }, [])
  | .announce => some (b.setExit c { t with pc := .publishUp, activeUsers := ex.active }, [])
  | .publishUp => some (b.setExit c { t with pc := .loop, relaying := true },
      [.publish (.nodeConnected ex.nodeID t.activeUsers)])
  | .publishUpdate => some (b.gotoExit c .loop, [.publish (.nodeUpdated ex.nodeID t.activeUsers)])
  | .gone => some ({ (b.gotoExit c .nodeDown) with exits := b.exits.erase ex.nodeID }, [])
  | .nodeDown => some ({ (b.gotoExit c .publishGone) with
      qos := b.qos.nodeDown ex.nodeID b.now }, [])
  | .publishGone => some (b.gotoExit c .scan, [.publish (.nodeDisconnected ex.nodeID)])
  | .scan =>
    let affected := affectedBy b c
    some (b.setExit c { t with pc := if affected = [] then .done else .notify, affected }, [])
  | .notify =>
    match t.affected with
    | [] => none
    | p :: _ => some (b.gotoExit c .close,
        written ok (b.sess p).clientCW (.error (exitDownText ex.nodeID)))
  | .close =>
    match t.affected with
    | [] => none
    | p :: rest =>
      some (b.setExit c { t with pc := if rest = [] then .done else .notify, affected := rest },
        [.close (b.sess p).clientConn])
  | .idle | .loop | .done => none

/-- The control read loop of an exit: signals go to the client of the session
they name, reports to the tracker. For a status report `deviceView` loads the
counter here; what it has loaded is published in a step of its own. -/
def exitCtrl (c : Conn) (m : Control) (ok : Bool) : State × List Out :=
  match m with
  | .signal sid _ _ =>
    match b.sessions.lookup sid with
    | none => (b, [])
    | some p => (b, written ok (b.sess p).clientCW m)
  | .report sid r => ({ b with qos := b.qos.report (toString sid) r b.now }, [])
  | .ping sid ts => (b, written ok c (.pong sid ts))
  | .nodeStatus _ _ _ =>
    (b.setExit c { b.exitT c with pc := .publishUpdate, activeUsers := (b.node c).active }, [])
  | _ => (b, [])

/-! ### `handleClient` -/

/-- The authentication: an OIDC identity, verified outside this development,
or a token. -/
def authenticate (c : Conn) (oidc : Except String String) : State :=
  let t := b.client c
  let region := t.msg.requestedRegion
  let user : Except String Userstore.User :=
    if cfg.oidc then
      match oidc with
      | .error e => .error ("oidc: " ++ e)
      | .ok identity => (Userstore.authorizeUser b.users identity region).mapError (·.text)
    else
      (Userstore.authenticateForRegion cfg.hmac b.users t.msg.token region).mapError (·.text)
  match user with
  | .error e => b.setClient c { t with pc := .reply, reply := .error e }
  | .ok user => b.setClient c { t with pc := .lock, user }

/-- The reply to a list-exits request. -/
def exitList (region : String) : List ExitInfo :=
  (b.exits.entries.filter fun e => (b.node e.2).region = region).map fun e =>
    let ex := b.node e.2
    { nodeID := ex.nodeID, name := ex.name, region := ex.region, system := ex.osInfo
      activeUsers := ex.active, capacity := ex.capacity }

/-- `Stop`: a timer that has not fired will not. -/
def stopTimer (timer : ℕ → Timer) : Option ℕ → ℕ → Timer
  | none => timer
  | some k =>
    if (timer k).pc = .armed then Function.update timer k { timer k with pc := .stopped } else timer

/-- `tryResume`, on success: the session, its exit and the state. -/
def tryResume (resumeKey username : String) (conn clientCW : Conn) :
    Option (Conn × Conn × State) :=
  match b.parked.lookup resumeKey with
  | none => none
  | some p =>
    let ps := b.sess p
    if ps.username ≠ username ∨ cfg.resumeTTL ≤ (b.now : ℤ) - ps.parkedAt then none
    else
      match b.exits.lookup ps.nodeID with
      | none => none
      | some ex => some (p, ex,
          { b with
            timer := stopTimer b.timer ps.suspendTimer
            parked := b.parked.erase resumeKey
            sess := Function.update b.sess p
              { ps with
                suspended := false, clientConn := conn, clientCW, exitConn := ex, exitCW := ex }
            sessions := b.sessions.insert ps.id p })

/-- Manual selection: the named exit, if it serves the region and has
capacity. -/
def requestedExit (msg : Connect) : Option Conn :=
  match b.exits.lookup msg.requestedExit with
  | none => none
  | some e =>
    if (b.node e).region = msg.requestedRegion ∧
        ((b.node e).capacity = 0 ∨ (b.node e).active < (b.node e).capacity) then some e
    else none

/-- The load views of the registered exits. -/
def candidates : List Lb.Node :=
  b.exits.entries.map fun e =>
    let ex := b.node e.2
    { id := ex.nodeID, region := ex.region, active := ex.active, capacity := ex.capacity }

/-- The choice of an exit for a new session; what `Pick` leaves in `b.rr`. -/
def chooseExit (msg : Connect) (rnd : ℕ) : Option Conn × ℕ :=
  if msg.requestedExit ≠ "" then (requestedExit b msg, b.rr)
  else
    match Lb.pick cfg.lbStrategy msg.requestedRegion (candidates b) b.rr rnd with
    | none => (none, b.rr)
    | some (id, rr) => (b.exits.lookup id, rr)

/-- The error of a choice that found no exit. -/
def noExitText (msg : Connect) : String :=
  if msg.requestedExit ≠ "" then
    "requested exit " ++ msg.requestedExit ++ " unavailable in region " ++ msg.requestedRegion
  else "no exit available in region " ++ msg.requestedRegion

/-- The `b.mu` section of `handleClient`: list the exits, resume a parked
session, or choose an exit. -/
def admitClient (c : Conn) (rnd : ℕ) : State :=
  let t := b.client c
  if t.msg.listExits then
    b.setClient c { t with pc := .reply, reply := .exitList (exitList b t.msg.requestedRegion) }
  else
    let resumed :=
      if t.msg.resumeKey ≠ "" then tryResume cfg b t.msg.resumeKey t.user.username c c else none
    match resumed with
    | some (s, ex, b') => b'.setClient c { t with pc := .resumed, s, ex }
    | none =>
      match chooseExit cfg b t.msg rnd with
      | (none, rr) =>
        { (b.setClient c { t with pc := .reply, reply := .error (noExitText t.msg) }) with rr }
      | (some ex, rr) => { (b.setClient c { t with pc := .chosen, ex }) with rr }

/-- `nextSession.Add(1)`. -/
def drawID (c : Conn) : State :=
  { (b.setClient c { b.client c with pc := .numbered, sid := b.nextSession + 1 }) with
    nextSession := b.nextSession + 1 }

/-- `ipPool.Allocate`; a panic ends the process. -/
def allocate (c : Conn) : Option State :=
  match b.ipPool.allocate with
  | .ok (clientAddr, ipPool) =>
    some { (b.setClient c { b.client c with pc := .allocated, clientAddr }) with ipPool }
  | .error .exhausted => some (b.setClient c
      { b.client c with pc := .reply, reply := .error "exit address pool exhausted" })
  | .error .panicked => none

/-- The session `handleClient` makes. -/
def newSession (c : Conn) : Session :=
  let t := b.client c
  { id := t.sid, clientIP := t.clientAddr.string, clientAddr := t.clientAddr
    username := t.user.username, resumeKey := t.msg.resumeKey
    nodeID := (b.node t.ex).nodeID, startedAt := b.now
    clientConn := c, exitConn := t.ex, clientCW := c, exitCW := t.ex }

/-- The `b.mu` section that inserts the new session. -/
def insertSession (c : Conn) : State :=
  { (b.setClient c { b.client c with pc := .inserted, s := c }) with
    sess := Function.update b.sess c (newSession b c)
    sessions := b.sessions.insert (b.client c).sid c }

/-! ### `runSession` -/

/-- The ICE servers of a session, with credentials minted now. -/
def iceServers (sid : ℕ) : IceServers :=
  if cfg.turnSecret = "" then {}
  else
    { stunURL := cfg.stunURL, turnURL := cfg.turnURL
      turnUser := (cfg.credentials b.now sid).1, turnPass := (cfg.credentials b.now sid).2 }

/-- `MsgSessionStart` for a session. -/
def sessionStartMsg (s : Session) (ice : IceServers) : Control :=
  .sessionStart s.id s.clientIP "255.255.255.0" safeTunnelMTU ice

/-- `MsgConnectOK` for a session. -/
def connectOKMsg (s : Session) (ice : IceServers) : Control :=
  .connectOK s.id s.clientIP "255.255.255.0" safeTunnelMTU ice

/-- `endSession`, its `b.mu` section: a session that could not start. -/
def endSession (c : Conn) : State × List Out :=
  let t := b.client c
  let s := b.sess t.s
  match b.sessions.lookup s.id with
  | none => (b.goto c .done, [])
  | some _ =>
    ({ ((b.goto c .ended).addActive t.ex (-1)) with
        sessions := b.sessions.erase s.id
        ipPool := b.ipPool.release s.clientAddr },
      [.release t.s s.clientAddr])

/-- How a client connection ended. -/
inductive Cause
  | application (code : ℕ)
  | other
  deriving DecidableEq

/-- `clientClosedIntentionally`. -/
def clientClosedIntentionally : Cause → Bool
  | .application code => code = closeClientShutdown
  | .other => false

/-- `suspendSession`, its `b.mu` section: park the session under its resume
key, or tear it down. -/
def suspendSession (c : Conn) : State × List Out :=
  let t := b.client c
  let s := b.sess t.s
  match b.sessions.lookup s.id with
  | none => (b.goto c .done, [])
  | some _ =>
    if !t.intentional ∧ s.resumeKey ≠ "" ∧ 0 < cfg.resumeTTL then
      ({ ((b.goto c .parked).addActive t.ex (-1)) with
          sessions := b.sessions.erase s.id
          parked := b.parked.insert s.resumeKey t.s
          sess := Function.update b.sess t.s
            { s with suspended := true, parkedAt := b.now, suspendTimer := some b.nextTimer }
          timer := Function.update b.timer b.nextTimer
            { pc := .armed, deadline := b.now + cfg.resumeTTL, resumeKey := s.resumeKey, sid := s.id }
          nextTimer := b.nextTimer + 1 }, [])
    else
      ({ ((b.goto c .closed).addActive t.ex (-1)) with
          sessions := b.sessions.erase s.id
          ipPool := b.ipPool.release s.clientAddr },
        [.release t.s s.clientAddr])

/-- What the environment decides in a step of `handleClient`: whether a write
goes out, what `rand` draws, what the OIDC verifier answers. -/
structure Input where
  ok : Bool := true
  rnd : ℕ := 0
  oidc : Except String String := .error ""

/-- The next step of a `handleClient` goroutine; in `relay` it waits for the
connection to end. -/
def clientStep (c : Conn) (i : Input) : Option (State × List Out) :=
  let t := b.client c
  let s := b.sess t.s
  match t.pc with
  | .auth => some (authenticate cfg b c i.oidc, [])
  | .lock => some (admitClient cfg b c i.rnd, [])
  | .reply => some (b.goto c .done, written i.ok c t.reply)
  | .chosen => some (drawID b c, [])
  | .numbered => (allocate b c).map (·, [])
  | .allocated => some (insertSession b c, [])
  | .inserted => some ((b.goto c .counted).addActive t.ex 1, [])
  | .counted => some ({ (b.goto c .start) with
      qos := b.qos.connect (toString t.sid) (b.node t.ex).nodeID (b.node t.ex).region
        t.user.username s.startedAt b.now }, [])
  | .resumed => some ((b.goto c .start).addActive t.ex 1, [])
  | .start =>
    let ice := iceServers cfg b s.id
    some (b.setClient c { t with pc := if i.ok then .connectOK else .startFailed, ice },
      written i.ok t.ex (sessionStartMsg s ice))
  | .startFailed => some (b.goto c .ending, written i.ok c (.error "exit unavailable"))
  | .ending => some (endSession b c)
  | .ended => some (b.goto c .done, written i.ok t.ex (.sessionEnd s.id))
  | .connectOK => some (b.goto c .started, written i.ok c (connectOKMsg s t.ice))
  | .started => some (b.setClient c { t with pc := .relay, reading := true },
      [.publish (.sessionStarted s.id s.nodeID)])
  | .dropped => some (suspendSession cfg b c)
  | .parked => some (b.goto c .done, written i.ok t.ex (.sessionSuspend s.id))
  | .closed => some (b.goto c .disconnect, written i.ok t.ex (.sessionEnd s.id))
  | .disconnect => some ({ (b.goto c .publishEnd) with
      qos := b.qos.disconnect (toString s.id) b.now }, [])
  | .publishEnd => some (b.goto c .done, [.publish (.sessionEnded s.id s.nodeID)])
  | .idle | .relay | .done => none

/-- The control read loop of a client: signals go to the exit, reports to
the tracker. -/
def clientCtrl (c : Conn) (m : Control) (ok : Bool) : State × List Out :=
  match m with
  | .signal _ _ _ => (b, written ok (b.client c).ex m)
  | .report sid r => ({ b with qos := b.qos.report (toString sid) r b.now }, [])
  | .ping sid ts => (b, written ok c (.pong sid ts))
  | _ => (b, [])

/-! ### Park timers -/

/-- `expirePark`, its `b.mu` section. -/
def expirePark (k : ℕ) : State × List Out :=
  let t := b.timer k
  match b.parked.lookup t.resumeKey with
  | none => (b.gotoTimer k .done, [])
  | some p =>
    let s := b.sess p
    if s.id ≠ t.sid ∨ !s.suspended then (b.gotoTimer k .done, [])
    else
      let ex := b.exits.lookup s.nodeID
      ({ (b.setTimer k { t with pc := if ex = none then .disconnect else .write, s := p, ex }) with
          parked := b.parked.erase t.resumeKey
          ipPool := b.ipPool.release s.clientAddr },
        [.release p s.clientAddr])

/-- The next step of a fired timer's callback. -/
def timerStep (k : ℕ) (ok : Bool) : Option (State × List Out) :=
  let t := b.timer k
  match t.pc with
  | .fired => some (expirePark b k)
  | .write => some (b.gotoTimer k .disconnect,
      match t.ex with
      | none => []
      | some ex => written ok ex (.sessionEnd t.sid))
  | .disconnect => some ({ (b.gotoTimer k .publishEnd) with
      qos := b.qos.disconnect (toString t.sid) b.now }, [])
  | .publishEnd => some (b.gotoTimer k .done, [.publish (.sessionEnded t.sid (b.sess t.s).nodeID)])
  | .unset | .armed | .stopped | .done => none

/-! ### `relayLoop` -/

/-- One datagram received on `conn`: metered, and sent on to the peer. The
lookup under `b.mu` and, after it, the reads of the session's connections,
`AddBytes` and `SendDatagram` are one step here; that the session is resumed
or ended between them is left out. -/
def relayDatagram (conn : Conn) (dg : List UInt8) : State × List Out :=
  match decodeDatagram dg with
  | none => (b, [])
  | some (sid, pkt) =>
    match b.sessions.lookup sid with
    | none => (b, [])
    | some p =>
      let s := b.sess p
      let fromClient : Bool := conn ≠ s.exitConn
      let peer := if conn = s.exitConn then s.clientConn else s.exitConn
      ({ b with qos := b.qos.addBytes (toString sid) fromClient pkt.length b.now },
        [.dgram conn peer dg])

end Broker
end Revquic
