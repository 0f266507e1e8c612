/-
# The broker as a machine

An action is one step of one goroutine, or something its environment does:
time passes, the user store changes, a connection brings its first message, a
datagram or a control message, or ends. A run is any interleaving of them
from a broker with no connections. A fired timer callback may run at any
later time: `Stop` prevents only a callback that has not fired.

Key definitions: `Action`, `step`, `machine`.
-/
import Revquic.Broker.Handlers
import Revquic.Lib.Machine

namespace Revquic
namespace Broker

open Lib Proto

/-- The steps of a broker and its environment. -/
inductive Action
  | tick (d : ℕ)
  | users (t : Userstore.Table)
  | connect (c : Conn) (msg : Connect)
  | client (c : Conn) (i : Input)
  | drop (c : Conn) (cause : Cause)
  | clientCtrl (c : Conn) (m : Control) (ok : Bool)
  | register (c : Conn) (msg : Register)
  | exit (c : Conn) (ok : Bool)
  | exitCtrl (c : Conn) (m : Control) (ok : Bool)
  | exitGone (c : Conn)
  | datagram (c : Conn) (dg : List UInt8)
  | fire (k : ℕ)
  | timer (k : ℕ) (ok : Bool)

/-- No message has arrived on the connection yet. -/
def State.unused (b : State) (c : Conn) : Prop :=
  (b.client c).pc = .idle ∧ (b.exitT c).pc = .idle

instance (b : State) (c : Conn) : Decidable (b.unused c) := inferInstanceAs (Decidable (_ ∧ _))

/-- A relay loop reads datagrams from the connection. -/
def State.relays (b : State) (c : Conn) : Prop :=
  (b.client c).pc = .relay ∨ (b.exitT c).relaying = true

instance (b : State) (c : Conn) : Decidable (b.relays c) := inferInstanceAs (Decidable (_ ∨ _))

/-- One step, and what it puts out. -/
def step (cfg : Config) (b : State) : Action → Option (State × List Out)
  | .tick d => some ({ b with now := b.now + d }, [])
  | .users t => some ({ b with users := t }, [])
  | .connect c msg =>
    if b.unused c then some (b.setClient c { pc := .auth, msg }, []) else none
  | .client c i => clientStep cfg b c i
  | .drop c cause =>
    if (b.client c).pc = .relay then
      some (b.setClient c
        { b.client c with pc := .dropped, intentional := clientClosedIntentionally cause }, [])
    else none
  | .clientCtrl c m ok => if (b.client c).reading then some (clientCtrl b c m ok) else none
  | .register c msg => if b.unused c then some (handleExit cfg b c msg, []) else none
  | .exit c ok => exitStep b c ok
  | .exitCtrl c m ok => if (b.exitT c).pc = .loop then some (exitCtrl b c m ok) else none
  | .exitGone c => if (b.exitT c).pc = .loop then some (b.gotoExit c .gone, []) else none
  | .datagram c dg => if b.relays c then some (relayDatagram b c dg) else none
  | .fire k =>
    if (b.timer k).pc = .armed ∧ (b.timer k).deadline ≤ b.now then
      some (b.gotoTimer k .fired, [])
    else none
  | .timer k ok => timerStep b k ok

/-- The broker, started with a user store. -/
def machine (cfg : Config) (users : Userstore.Table) : Machine State Action Out :=
  ⟨newBroker users, step cfg⟩

/-! ### Scripts

Concrete runs are given as lists of actions. -/

/-- A store with one user, who has one token. -/
def aliceIn (allowedRegions : List String) : Userstore.Table where
  recs _ := ⟨{ id := "1", username := "alice", allowedRegions, status := "enabled" }, "tok"⟩
  byID := (∅ : GoMap String ℕ).insert "1" 0
  byHash := (∅ : GoMap String ℕ).insert "tok" 0

/-- That user may connect everywhere. -/
def aliceStore : Userstore.Table := aliceIn ["*"]

/-- That user's `Connect`. -/
def aliceConnect (region resumeKey : String) : Connect :=
  { token := "tok", requestedRegion := region, resumeKey }

/-- A new client, from its `Connect` into `relayLoop`. -/
def joins (c : Conn) (msg : Connect) : List Action :=
  .connect c msg :: List.replicate 10 (.client c {})

/-- A client that resumes a session, from its `Connect` into `relayLoop`. -/
def rejoins (c : Conn) (msg : Connect) : List Action :=
  .connect c msg :: List.replicate 6 (.client c {})

/-- An exit, from its `Register` into its control read loop. -/
def registers (c : Conn) (msg : Register) : List Action :=
  .register c msg :: List.replicate 4 (.exit c true)

/-- An exit's `Register`. -/
def node (nodeID region : String) (capacity : ℤ) : Register :=
  { token := "node-secret", nodeID, region, capacity }

end Broker
end Revquic
