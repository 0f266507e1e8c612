/-
# The admin feed and the dashboard

`/api/v1/events` (`internal/adminserver`) streams the broker's state to a
dashboard: it subscribes to the bus (`internal/events`), asks the broker for
its exits and its sessions, sends both as a `Snapshot`, and then sends each
event from its channel. The dashboard (`web/admin/src/App.vue`) folds
`applyEvent` over what it receives.

The broker goes on between these steps. `Bus.Publish` never blocks: an event
that finds the channel full is dropped. Of an exit the dashboard's number of
users is kept here, and of a session its node id.

Key definitions: `View`, `StreamEvent`, `applyEvent`, `publish`, `step`,
`machine`.
-/
import Revquic.Broker.Step

namespace Revquic
namespace Feed

open Lib Broker

/-! ### The dashboard -/

/-- `nodes` (the users of each exit) and `sessions` (the exit of each
session). -/
structure View where
  nodes : GoMap String ℤ := ∅
  sessions : GoMap ℕ String := ∅

/-- `adminapi.Event`. -/
inductive StreamEvent
  | snapshot (nodes : List (String × ℤ)) (sessions : List (ℕ × String))
  | delta (ev : BusEvent)

/-- `bump`. -/
def bump (v : View) (nodeID : String) (d : ℤ) : View :=
  match v.nodes.lookup nodeID with
  | none => v
  | some activeUsers => { v with nodes := v.nodes.insert nodeID (max 0 (activeUsers + d)) }

/-- `applyEvent`. -/
def applyEvent (v : View) : StreamEvent → View
  | .snapshot nodes sessions => ⟨GoMap.ofList nodes, GoMap.ofList sessions⟩
  | .delta (.nodeConnected nodeID activeUsers) | .delta (.nodeUpdated nodeID activeUsers) =>
    { v with nodes := v.nodes.insert nodeID activeUsers }
  | .delta (.nodeDisconnected nodeID) => { v with nodes := v.nodes.erase nodeID }
  | .delta (.sessionStarted sid nodeID) =>
    bump { v with sessions := v.sessions.insert sid nodeID } nodeID 1
  | .delta (.sessionEnded sid nodeID) =>
    bump { v with sessions := v.sessions.erase sid } nodeID (-1)

/-! ### The subscriber -/

/-- `ListNodes`. It loads the counters one after the other, with `b.mu` held for
reading; only a goroutine that has inserted or resumed its session before can
raise one meanwhile. -/
def listNodes (b : Broker.State) : List (String × ℤ) :=
  b.exits.entries.map fun e => ((b.node e.2).nodeID, (b.node e.2).active)

/-- `ListSessions`. -/
def listSessions (b : Broker.State) : List (ℕ × String) :=
  b.sessions.entries.map fun e => ((b.sess e.2).id, (b.sess e.2).nodeID)

/-- How far the handler of `/api/v1/events` is. -/
inductive Phase
  | away                                 -- no request, or it has returned
  | subscribed                           -- to call `ListNodes`
  | listed (nodes : List (String × ℤ))   -- to call `ListSessions`
  | live                                 -- the snapshot is sent
  deriving DecidableEq

/-- The exits have been listed: what the broker does now has to reach the
dashboard as an event. -/
def Phase.follows : Phase → Bool
  | .away | .subscribed => false
  | .listed _ | .live => true

/-- A broker, and a dashboard with its subscription. -/
structure State where
  broker : Broker.State
  phase : Phase := .away
  ch : List BusEvent := []
  view : View := {}

/-- The capacity of a subscriber's channel. -/
def buffer : ℕ := 64

/-- `Bus.Publish`, for one subscriber. -/
def publish (ch : List BusEvent) (ev : BusEvent) : List BusEvent :=
  if ch.length < buffer then ch ++ [ev] else ch

inductive Action
  | broker (a : Broker.Action)   -- a step of the broker
  | subscribe                    -- a request arrives and subscribes
  | listNodes
  | listSessions                 -- the snapshot is complete, sent and applied
  | deliver                      -- an event is taken from the channel, sent and applied
  | hangUp                       -- the request ends

/-- One step of the broker, the handler or the dashboard. -/
def step (cfg : Config) (f : State) : Action → Option (State × List Out)
  | .broker a =>
    match Broker.step cfg f.broker a with
    | none => none
    | some (b, o) =>
      some ({ f with
        broker := b
        ch := if f.phase = .away then f.ch else (published o).foldl publish f.ch }, o)
  | .subscribe =>
    if f.phase = .away then some ({ f with phase := .subscribed, ch := [] }, []) else none
  | .listNodes =>
    if f.phase = .subscribed then some ({ f with phase := .listed (listNodes f.broker) }, [])
    else none
  | .listSessions =>
    match f.phase with
    | .listed nodes =>
      some ({ f with
        phase := .live
        view := applyEvent f.view (.snapshot nodes (listSessions f.broker)) }, [])
    | _ => none
  | .deliver =>
    match f.phase, f.ch with
    | .live, ev :: ch => some ({ f with ch, view := applyEvent f.view (.delta ev) }, [])
    | _, _ => none
  | .hangUp => if f.phase = .away then none else some ({ f with phase := .away, ch := [] }, [])

def machine (cfg : Config) (users : Userstore.Table) : Machine State Action Out where
  init := { broker := newBroker users }
  step := step cfg

end Feed
end Revquic
