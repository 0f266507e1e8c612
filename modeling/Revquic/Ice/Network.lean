/-
# Negotiations through the broker

The broker with all its clients and exits, each client connection and each
exit session with its end of a negotiation. Every control stream is a queue:
what a party writes is read by the other in the same order, at any later
time, or never. An exit appears once for each of its broker connections,
since it starts with empty tables on each; an end writes on whatever
connection its exit has then.

The broker forwards a client's signal to the exit of its handler, and an
exit's signal to the client of the session it names; it looks at neither. All
else that reaches the broker, telemetry included, is an action of the
environment.

Key definitions: `ClientSide`, `ExitSide`, `State`, `Action`, `step`,
`machine`, `Stepped`.
-/
import Revquic.Ice.Negotiate
import Revquic.Link.Answer

namespace Revquic
namespace Ice

open Lib Proto Broker
open Exit (Ptr Tables)
open Link (toExit)

/-- Where a client's connection stands. -/
inductive Dial
  | off
  | dialled      -- `Connect` has gone out, `runConnection` waits for the answer
  | running      -- its control reader is up
  | over         -- `runConnection` has returned
  deriving DecidableEq

/-- The client's side of a connection: its session id, once it has been told,
and its end of a negotiation. -/
structure ClientSide where
  dial : Dial := .off
  sid : ℕ := 0
  ice : Endpoint := {}

/-- The exit's side of a connection: its tables, and an end for every
session. -/
structure ExitSide extends Link.Reader where
  dialled : Bool := false
  ice : Ptr → Endpoint := fun _ => {}

/-- The `-direct` and `-direct-mode` flags of the parties, and the exit that
has opened a connection. -/
structure Config where
  broker : Broker.Config := {}
  clientDirect : Conn → Bool := fun _ => true
  exitDirect : Conn → Bool := fun _ => true
  clientP2P : Conn → Bool := fun _ => false
  exitP2P : Conn → Bool := fun _ => false
  exitOf : Conn → ℕ := id

/-- The parties, and the streams between them: `down` from the broker, the
others to it. -/
structure State where
  broker : Broker.State
  client : Conn → ClientSide := fun _ => {}
  exit : Conn → ExitSide := fun _ => {}
  down : Conn → List Control := fun _ => []
  clientUp : Conn → List Control := fun _ => []
  exitUp : Conn → List Control := fun _ => []

inductive Action
  | broker (a : Broker.Action)
  | relayClient (c : Conn) (ok : Bool)
  | relayExit (r : Conn) (ok : Bool)
  | clientRecv (c : Conn)
  | clientLost (c : Conn)
  | clientTick (c : Conn) (t : Tick)
  | exitRecv (r : Conn)
  | exitTick (r : Conn) (p : Ptr) (cur : Conn) (t : Tick)

/-- The broker reads a signal in this step. -/
def readsSignal : Broker.Action → Bool
  | .clientCtrl _ (.signal _ _ _) _ | .exitCtrl _ (.signal _ _ _) _ => true
  | _ => false

/-- The control loop of a running client. -/
def ClientSide.control (k : ClientSide) : Control → ClientSide
  | .signal _ sg _ =>
    match Signal.unmarshal sg with
    | none => k
    | some s => { k with ice := k.ice.deliver s }
  | .error _ => { k with dial := .over }
  | _ => k

/-- The answer to `Connect`. -/
def ClientSide.answer (k : ClientSide) (direct : Bool) : Control → ClientSide
  | .connectOK sid _ _ _ _ =>
    { k with dial := .running, sid, ice := { pc := if direct then .starting else .off } }
  | _ => { k with dial := .over }

/-- What `controlLoop` does with a message: the tables, and the negotiations.
`addSession` starts one for a session it has made. -/
def ExitSide.control (x : ExitSide) (direct : Bool) (m : Control) : ExitSide :=
  match m with
  | .signal sid sg _ =>
    match x.sessions.lookup sid with
    | none => x
    | some p =>
      match Signal.unmarshal sg with
      | none => x
      | some s => { x with ice := Function.update x.ice p ((x.ice p).deliver s) }
  | .sessionStart sid clientIP _ _ ice =>
    match x.beginAdd sid clientIP with
    | (t, none) => { x with toTables := t }
    | (t, some ip) =>
      { x with
        toTables := t.finishAdd sid clientIP ice ip
        ice := if direct then Function.update x.ice t.next { pc := .starting } else x.ice }
  | m => { x with toTables := x.toTables.control m }

/-- The next message from the broker; the first is taken for the answer to
`Register`. -/
def ExitSide.recv (x : ExitSide) (direct : Bool) (m : Control) : ExitSide :=
  if x.registered then x.control direct m else { x with registered := true }

namespace State

variable (w : State)

def setClient (c : Conn) (k : ClientSide) : State :=
  { w with client := Function.update w.client c k }

def setExit (r : Conn) (x : ExitSide) : State := { w with exit := Function.update w.exit r x }

/-- The broker has taken a step. -/
def afterBroker (b : Broker.State) (o : List Out) : State :=
  { w with broker := b, down := fun d => w.down d ++ toExit d o }

/-- A connection has been opened. -/
def opened : Broker.Action → State
  | .connect c _ => w.setClient c { dial := .dialled }
  | .register r _ => w.setExit r { dialled := true }
  | _ => w

end State

/-- `send`, at either end. -/
def signalMsg (sid : ℕ) (s : Signal) : Control := .signal sid s.marshal ""

/-- One step, and what the broker puts out. -/
def step (cfg : Config) (w : State) : Action → Option (State × List Out)
  | .broker a =>
    if readsSignal a then none
    else (Broker.step cfg.broker w.broker a).map fun x => ((w.opened a).afterBroker x.1 x.2, x.2)
  | .relayClient c ok =>
    match w.clientUp c with
    | [] => none
    | m :: rest =>
      (Broker.step cfg.broker w.broker (.clientCtrl c m ok)).map fun x =>
        ({ w with clientUp := Function.update w.clientUp c rest }.afterBroker x.1 x.2, x.2)
  | .relayExit r ok =>
    match w.exitUp r with
    | [] => none
    | m :: rest =>
      (Broker.step cfg.broker w.broker (.exitCtrl r m ok)).map fun x =>
        ({ w with exitUp := Function.update w.exitUp r rest }.afterBroker x.1 x.2, x.2)
  | .clientRecv c =>
    match w.down c with
    | [] => none
    | m :: rest =>
      let w' := { w with down := Function.update w.down c rest }
      match (w.client c).dial with
      | .dialled => some (w'.setClient c ((w.client c).answer (cfg.clientDirect c) m), [])
      | .running => some (w'.setClient c ((w.client c).control m), [])
      | _ => none
  | .clientLost c =>
    if (w.client c).dial = .dialled ∨ (w.client c).dial = .running then
      some (w.setClient c { w.client c with dial := .over }, [])
    else none
  | .clientTick c t =>
    match (w.client c).ice.tick "1" (cfg.clientP2P c) t with
    | none => none
    | some (e, out) =>
      -- nothing can be written once the connection is closed
      if out = [] ∨ (w.client c).dial = .running then
        some ({ w.setClient c { w.client c with ice := e } with
          clientUp := Function.update w.clientUp c
            (w.clientUp c ++ out.map (signalMsg (w.client c).sid)) }, [])
      else none
  | .exitRecv r =>
    match w.down r with
    | [] => none
    | m :: rest =>
      if (w.exit r).dialled then
        some ({ w with down := Function.update w.down r rest }.setExit r
          ((w.exit r).recv (cfg.exitDirect r) m), [])
      else none
  | .exitTick r p cur t =>
    let sid := ((w.exit r).es p).sid
    match ((w.exit r).ice p).tick (toString sid) (cfg.exitP2P r) t with
    | none => none
    | some (e, out) =>
      -- `curCW` is the writer of whatever connection the exit has now
      if out = [] ∨ cfg.exitOf cur = cfg.exitOf r ∧ (w.exit cur).dialled = true then
        some ({ w.setExit r { w.exit r with ice := Function.update (w.exit r).ice p e } with
          exitUp := Function.update w.exitUp cur (w.exitUp cur ++ out.map (signalMsg sid)) }, [])
      else none

/-- A broker with no connections. -/
def machine (cfg : Config) (users : Userstore.Table) : Machine State Action Out :=
  ⟨{ broker := newBroker users }, step cfg⟩

/-! ### What a step can do -/

section
variable {cfg : Config} {users : Userstore.Table} {w w' : State} {a : Action} {o : List Out}
  {tr : List (Event State Action Out)}

/-- One step: what it requires, leaves and puts out. -/
inductive Stepped (cfg : Config) (w : State) : Action → State → List Out → Prop
  | broker (a : Broker.Action) (b' : Broker.State) (o : List Out) (other : readsSignal a = false)
      (step : Broker.step cfg.broker w.broker a = some (b', o)) :
      Stepped cfg w (.broker a) ((w.opened a).afterBroker b' o) o
  | relayClient (c : Conn) (ok : Bool) (m : Control) (rest : List Control) (b' : Broker.State)
      (o : List Out) (up : w.clientUp c = m :: rest)
      (step : Broker.step cfg.broker w.broker (.clientCtrl c m ok) = some (b', o)) :
      Stepped cfg w (.relayClient c ok)
        ({ w with clientUp := Function.update w.clientUp c rest }.afterBroker b' o) o
  | relayExit (r : Conn) (ok : Bool) (m : Control) (rest : List Control) (b' : Broker.State)
      (o : List Out) (up : w.exitUp r = m :: rest)
      (step : Broker.step cfg.broker w.broker (.exitCtrl r m ok) = some (b', o)) :
      Stepped cfg w (.relayExit r ok)
        ({ w with exitUp := Function.update w.exitUp r rest }.afterBroker b' o) o
  | answer (c : Conn) (m : Control) (rest : List Control) (down : w.down c = m :: rest)
      (dial : (w.client c).dial = .dialled) :
      Stepped cfg w (.clientRecv c)
        ({ w with down := Function.update w.down c rest }.setClient c
          ((w.client c).answer (cfg.clientDirect c) m)) []
  | control (c : Conn) (m : Control) (rest : List Control) (down : w.down c = m :: rest)
      (dial : (w.client c).dial = .running) :
      Stepped cfg w (.clientRecv c)
        ({ w with down := Function.update w.down c rest }.setClient c ((w.client c).control m)) []
  | lost (c : Conn) (dial : (w.client c).dial = .dialled ∨ (w.client c).dial = .running) :
      Stepped cfg w (.clientLost c) (w.setClient c { w.client c with dial := .over }) []
  | clientTick (c : Conn) (t : Tick) (e : Endpoint) (out : List Signal)
      (tick : Ticked "1" (cfg.clientP2P c) (w.client c).ice t e out)
      (writes : out = [] ∨ (w.client c).dial = .running) :
      Stepped cfg w (.clientTick c t)
        { w.setClient c { w.client c with ice := e } with
          clientUp := Function.update w.clientUp c
            (w.clientUp c ++ out.map (signalMsg (w.client c).sid)) } []
  | exitRecv (r : Conn) (m : Control) (rest : List Control) (down : w.down r = m :: rest)
      (dialled : (w.exit r).dialled = true) :
      Stepped cfg w (.exitRecv r)
        ({ w with down := Function.update w.down r rest }.setExit r
          ((w.exit r).recv (cfg.exitDirect r) m)) []
  | exitTick (r : Conn) (p : Ptr) (cur : Conn) (t : Tick) (e : Endpoint) (out : List Signal)
      (tick : Ticked (toString ((w.exit r).es p).sid) (cfg.exitP2P r) ((w.exit r).ice p) t e out)
      (writes : out = [] ∨ cfg.exitOf cur = cfg.exitOf r ∧ (w.exit cur).dialled = true) :
      Stepped cfg w (.exitTick r p cur t)
        { w.setExit r { w.exit r with ice := Function.update (w.exit r).ice p e } with
          exitUp := Function.update w.exitUp cur
            (w.exitUp cur ++ out.map (signalMsg ((w.exit r).es p).sid)) } []

theorem stepped_of_step (hs : step cfg w a = some (w', o)) : Stepped cfg w a w' o := by
  cases a with
  | broker a =>
    simp only [step] at hs
    split_ifs at hs with hr
    obtain ⟨⟨b', o'⟩, hstep, hx⟩ := Option.map_eq_some_iff.mp hs
    obtain ⟨rfl, rfl⟩ := Prod.mk.inj hx
    exact .broker a b' o' (Bool.eq_false_of_not_eq_true hr) hstep
  | relayClient c ok =>
    simp only [step] at hs
    split at hs
    · cases hs
    · rename_i m rest hup
      obtain ⟨⟨b', o'⟩, hstep, hx⟩ := Option.map_eq_some_iff.mp hs
      obtain ⟨rfl, rfl⟩ := Prod.mk.inj hx
      exact .relayClient c ok m rest b' o' hup hstep
  | relayExit r ok =>
    simp only [step] at hs
    split at hs
    · cases hs
    · rename_i m rest hup
      obtain ⟨⟨b', o'⟩, hstep, hx⟩ := Option.map_eq_some_iff.mp hs
      obtain ⟨rfl, rfl⟩ := Prod.mk.inj hx
      exact .relayExit r ok m rest b' o' hup hstep
  | clientRecv c =>
    simp only [step] at hs
    split at hs
    · cases hs
    · rename_i m rest hdown
      split at hs <;> cases hs
      · rename_i hdial
        exact .answer c m rest hdown hdial
      · rename_i hdial
        exact .control c m rest hdown hdial
  | clientLost c =>
    simp only [step] at hs
    split_ifs at hs with hdial
    cases hs
    exact .lost c hdial
  | clientTick c t =>
    simp only [step] at hs
    split at hs
    · cases hs
    · rename_i e out htick
      split_ifs at hs with hw
      cases hs
      exact .clientTick c t e out (ticked_of_tick htick) hw
  | exitRecv r =>
    simp only [step] at hs
    split at hs
    · cases hs
    · rename_i m rest hdown
      split_ifs at hs with hdial
      cases hs
      exact .exitRecv r m rest hdown hdial
  | exitTick r p cur t =>
    simp only [step] at hs
    split at hs
    · cases hs
    · rename_i e out htick
      split_ifs at hs with hw
      cases hs
      exact .exitTick r p cur t e out (ticked_of_tick htick) hw

/-- What an exit does with a message. -/
inductive Received (x : ExitSide) (direct : Bool) (m : Control) : ExitSide → Prop
  | greeting (first : x.registered = false) : Received x direct m { x with registered := true }
  | signal (sid : ℕ) (sg : List UInt8) (nonce : String) (p : Ptr) (s : Signal)
      (eq : m = .signal sid sg nonce) (known : x.sessions.lookup sid = some p)
      (read : Signal.unmarshal sg = some s) :
      Received x direct m { x with ice := Function.update x.ice p ((x.ice p).deliver s) }
  | add (sid : ℕ) (clientIP mask : String) (mtu : ℕ) (ice : IceServers) (ip : Netip.Addr)
      (eq : m = .sessionStart sid clientIP mask mtu ice) (unknown : x.sessions.lookup sid = none) :
      Received x direct m
        { x with
          toTables := x.finishAdd sid clientIP ice ip
          ice := if direct then Function.update x.ice x.next { pc := .starting } else x.ice }
  | flag (sid : ℕ) (p : Ptr) (suspended : Bool) (known : x.sessions.lookup sid = some p) :
      Received x direct m { x with toTables := x.setES p { x.es p with suspended } }
  | remove (sid : ℕ) (eq : m = .sessionEnd sid) :
      Received x direct m { x with toTables := x.removeSession sid }
  | ignore : Received x direct m x

theorem received_recv (x : ExitSide) (direct : Bool) (m : Control) :
    Received x direct m (x.recv direct m) := by
  unfold ExitSide.recv
  split_ifs with hreg
  · cases m with
    | signal sid sg nonce =>
      simp only [ExitSide.control]
      split
      · exact .ignore
      · rename_i p hp
        split
        · exact .ignore
        · rename_i s hs
          exact .signal sid sg nonce p s rfl hp hs
    | sessionStart sid clientIP mask mtu ice =>
      simp only [ExitSide.control, Tables.beginAdd]
      cases hip : Netip.parseAddr clientIP with
      | none => exact .ignore
      | some ip =>
        cases hl : x.sessions.lookup sid with
        | none => exact .add sid clientIP mask mtu ice ip rfl hl
        | some p => exact .flag sid p false hl
    | sessionSuspend sid =>
      simp only [ExitSide.control, Tables.control, Tables.suspendSession]
      cases hl : x.sessions.lookup sid with
      | none => exact .ignore
      | some p => exact .flag sid p true hl
    | sessionEnd sid => exact .remove sid rfl
    | _ => exact .ignore
  · exact .greeting (Bool.eq_false_of_not_eq_true hreg)

/-- What a step is for the broker: a step of its own, or nothing. -/
theorem broker_of_step (hs : step cfg w a = some (w', o)) :
    (∃ a', Broker.step cfg.broker w.broker a' = some (w'.broker, o)) ∨ w'.broker = w.broker := by
  cases stepped_of_step hs with
  | broker a b' o other step => exact Or.inl ⟨a, step⟩
  | relayClient c ok m rest b' o up step => exact Or.inl ⟨_, step⟩
  | relayExit r ok m rest b' o up step => exact Or.inl ⟨_, step⟩
  | _ => exact Or.inr rfl

end
end Ice
end Revquic
