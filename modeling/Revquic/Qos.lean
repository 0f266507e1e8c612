/-
# The QoS tracker (`internal/qos`)

Per-exit and per-session load and throughput, and the history of events.
Times are nanoseconds, rates are exact rationals where the source has
`float64`, byte counters are `uint64`. `store` is the sequence of events the
persistent history, if any, was given.

Key definitions: `Event`, `Tracker`, `connect`, `disconnect`,
`sampleSession`, `addBytes`, `report`.
-/
import Revquic.Lib.GoMap
import Mathlib.Data.Rat.Defs
import Mathlib.Tactic

namespace Revquic
namespace Qos

open Lib

/-- The event kinds. -/
inductive Kind
  | nodeUp
  | nodeDown
  | connect
  | disconnect
  | speedDrop
  | recovered
  deriving DecidableEq

/-- The values of a session's data path. -/
inductive Path
  | relay
  | direct
  deriving DecidableEq

/-- `qos.Event`, one history entry. -/
structure Event where
  ts : ℕ
  kind : Kind
  sessionID : String := ""
  nodeID : String := ""
  region : String := ""
  username : String := ""
  throughputBps : ℚ := 0
  deriving DecidableEq

/-- `qos.Report`, an endpoint's telemetry sample. -/
structure Report where
  bytesUp : ℕ := 0
  bytesDown : ℕ := 0
  throughputBps : ℚ := 0
  drops : ℕ := 0
  rttMs : ℤ := 0
  direct : Bool := false
  host : String := ""
  tunName : String := ""
  os : String := ""
  cpuPct : ℚ := 0
  memPct : ℚ := 0
  diskPct : ℚ := 0
  deriving DecidableEq

/-- `sessionState`. -/
structure SessionState where
  id : String
  nodeID : String
  region : String
  username : String
  path : Path
  startedAt : ℕ
  lastSeen : ℕ
  bytesUp : ℕ := 0
  bytesDown : ℕ := 0
  bps : ℚ := 0
  peakBps : ℚ := 0
  drops : ℕ := 0
  rttMs : ℤ := 0
  host : String := ""
  tunName : String := ""
  os : String := ""
  cpu : ℚ := 0
  mem : ℚ := 0
  disk : ℚ := 0
  degraded : Bool := false
  winStart : ℕ
  winBytes : ℕ := 0

/-- `exitState`. -/
structure ExitState where
  nodeID : String
  region : String
  active : ℤ := 0
  bytesUp : ℕ := 0
  bytesDown : ℕ := 0
  bps : ℚ := 0
  peakBps : ℚ := 0
  connectedAt : ℕ
  lastSeen : ℕ
  winStart : ℕ
  winBytes : ℕ := 0

/-- `Tracker`, with the defaults of `New`. -/
structure Tracker where
  histCap : ℕ := 1000
  hist : List Event := []
  dropFactor : ℚ := 1 / 2
  recoverPct : ℚ := 4 / 5
  floorBps : ℚ := 65536
  sessions : GoMap String SessionState := ∅
  exits : GoMap String ExitState := ∅
  store : List Event := []

/-- `windowDur`, one second. -/
def windowDur : ℕ := 1000000000

/-- `uint64` addition. -/
def add64 (a n : ℕ) : ℕ := (a + n) % 2 ^ 64

namespace Tracker

variable (t : Tracker)

/-- `appendEvent`: the ring keeps the last `histCap` events. -/
def appendEvent (ev : Event) : Tracker :=
  let hist := t.hist ++ [ev]
  { t with hist := hist.drop (hist.length - t.histCap), store := t.store ++ [ev] }

/-- `NodeUp`. -/
def nodeUp (nodeID region : String) (connectedAt ts : ℕ) : Tracker :=
  let e : ExitState := { nodeID, region, connectedAt, lastSeen := ts, winStart := ts }
  appendEvent { t with exits := t.exits.insert nodeID e } { ts, kind := .nodeUp, nodeID, region }

/-- `NodeDown`. -/
def nodeDown (nodeID : String) (ts : ℕ) : Tracker :=
  let region := match t.exits.lookup nodeID with
    | some e => e.region
    | none => ""
  appendEvent { t with exits := t.exits.erase nodeID } { ts, kind := .nodeDown, nodeID, region }

/-- `Connect`. -/
def connect (sessionID nodeID region username : String) (startedAt ts : ℕ) : Tracker :=
  let ss : SessionState :=
    { id := sessionID, nodeID, region, username, path := .relay, startedAt, lastSeen := ts,
      winStart := ts }
  let sessions := t.sessions.insert sessionID ss
  let exits := match t.exits.lookup nodeID with
    | some e => t.exits.insert nodeID { e with active := e.active + 1, lastSeen := ts }
    | none => t.exits
  appendEvent { t with sessions, exits } { ts, kind := .connect, sessionID, nodeID, region, username }

/-- `Disconnect`. -/
def disconnect (sessionID : String) (ts : ℕ) : Tracker :=
  match t.sessions.lookup sessionID with
  | none => t
  | some ss =>
    let exits := match t.exits.lookup ss.nodeID with
      | some e => if 0 < e.active then t.exits.insert ss.nodeID { e with active := e.active - 1 }
        else t.exits
      | none => t.exits
    appendEvent { t with sessions := t.sessions.erase sessionID, exits }
      { ts, kind := .disconnect, sessionID, nodeID := ss.nodeID, region := ss.region,
        username := ss.username }

/-- `sampleSession`: the session after a throughput sample, and the event it
raises. -/
def sampleSession (ss : SessionState) (bps : ℚ) (ts : ℕ) : SessionState × Option Event :=
  let ss := { ss with bps, peakBps := max ss.peakBps bps }
  let ev := fun kind => some { ts, kind, sessionID := ss.id, nodeID := ss.nodeID,
                               region := ss.region, username := ss.username, throughputBps := bps }
  if ss.peakBps < t.floorBps then (ss, none)
  else if !ss.degraded && bps < ss.peakBps * t.dropFactor then
    ({ ss with degraded := true }, ev .speedDrop)
  else if ss.degraded && ss.peakBps * t.recoverPct ≤ bps then
    ({ ss with degraded := false }, ev .recovered)
  else (ss, none)

/-- Stores a session and the event its sample raised. -/
def putSession (sessionID : String) : SessionState × Option Event → Tracker
  | (ss, none) => { t with sessions := t.sessions.insert sessionID ss }
  | (ss, some ev) => appendEvent { t with sessions := t.sessions.insert sessionID ss } ev

/-- The exit's share of `AddBytes`. -/
def addExitBytes (e : ExitState) (fromClient : Bool) (n ts : ℕ) : ExitState :=
  let e := { e with
    lastSeen := ts
    bytesUp := if fromClient then add64 e.bytesUp n else e.bytesUp
    bytesDown := if fromClient then e.bytesDown else add64 e.bytesDown n
    winBytes := add64 e.winBytes n }
  let d : ℤ := (ts : ℤ) - e.winStart
  if (windowDur : ℤ) ≤ d then
    let bps := (e.winBytes : ℚ) / ((d : ℚ) / windowDur)
    { e with bps, peakBps := max e.peakBps bps, winStart := ts, winBytes := 0 }
  else e

/-- `AddBytes`: a relayed datagram of `n` bytes. -/
def addBytes (sessionID : String) (fromClient : Bool) (n ts : ℕ) : Tracker :=
  match t.sessions.lookup sessionID with
  | none => t
  | some ss =>
    let ss := { ss with
      lastSeen := ts
      bytesUp := if fromClient then add64 ss.bytesUp n else ss.bytesUp
      bytesDown := if fromClient then ss.bytesDown else add64 ss.bytesDown n
      winBytes := add64 ss.winBytes n }
    let d : ℤ := (ts : ℤ) - ss.winStart
    let t' :=
      if (windowDur : ℤ) ≤ d then
        let (ss, ev) := t.sampleSession ss ((ss.winBytes : ℚ) / ((d : ℚ) / windowDur)) ts
        t.putSession sessionID ({ ss with winStart := ts, winBytes := 0 }, ev)
      else t.putSession sessionID (ss, none)
    match t'.exits.lookup ss.nodeID with
    | none => t'
    | some e => { t' with exits := t'.exits.insert ss.nodeID (addExitBytes e fromClient n ts) }

/-- `Report`. -/
def report (sessionID : String) (r : Report) (ts : ℕ) : Tracker :=
  match t.sessions.lookup sessionID with
  | none => t
  | some ss =>
    let ss := { ss with
      lastSeen := ts
      bytesUp := if ss.bytesUp < r.bytesUp then r.bytesUp else ss.bytesUp
      bytesDown := if ss.bytesDown < r.bytesDown then r.bytesDown else ss.bytesDown
      drops := if ss.drops < r.drops then r.drops else ss.drops
      rttMs := if 0 < r.rttMs then r.rttMs else ss.rttMs
      host := if r.host ≠ "" then r.host else ss.host
      tunName := if r.tunName ≠ "" then r.tunName else ss.tunName
      os := if r.os ≠ "" then r.os else ss.os
      cpu := if 0 < r.cpuPct then r.cpuPct else ss.cpu
      mem := if 0 < r.memPct then r.memPct else ss.mem
      disk := if 0 < r.diskPct then r.diskPct else ss.disk
      path := if r.direct then .direct else ss.path }
    if 0 < r.throughputBps then t.putSession sessionID (t.sampleSession ss r.throughputBps ts)
    else t.putSession sessionID (ss, none)

/-! ### The nodes the tracker lists

`NodeUp` adds one, `NodeDown` removes one; nothing else changes the list. -/

variable {t}

@[simp] theorem appendEvent_exits (ev : Event) : (t.appendEvent ev).exits = t.exits := rfl

theorem mem_nodeUp {nodeID region : String} {connectedAt ts : ℕ} {n : String} :
    n ∈ (t.nodeUp nodeID region connectedAt ts).exits ↔ n = nodeID ∨ n ∈ t.exits := by
  simp [nodeUp]

theorem mem_nodeDown {nodeID : String} {ts : ℕ} {n : String} :
    n ∈ (t.nodeDown nodeID ts).exits ↔ n ≠ nodeID ∧ n ∈ t.exits := by
  simp [nodeDown]

/-- Storing an exit that is listed already. -/
theorem mem_insert_of_lookup {m : GoMap String ExitState} {k : String} {e e' : ExitState}
    (h : m.lookup k = some e) (n : String) : n ∈ m.insert k e' ↔ n ∈ m := by
  have hk : k ∈ m := AList.lookup_isSome.mp (by rw [h]; rfl)
  rw [AList.mem_insert]
  exact ⟨fun hn => hn.elim (fun he => he ▸ hk) id, Or.inr⟩

theorem mem_connect {sessionID nodeID region username : String} {startedAt ts : ℕ} {n : String} :
    n ∈ (t.connect sessionID nodeID region username startedAt ts).exits ↔ n ∈ t.exits := by
  simp only [connect, appendEvent_exits]
  split
  · exact mem_insert_of_lookup (by assumption) n
  · rfl

theorem mem_disconnect {sessionID : String} {ts : ℕ} {n : String} :
    n ∈ (t.disconnect sessionID ts).exits ↔ n ∈ t.exits := by
  unfold disconnect
  split
  · rfl
  · simp only [appendEvent_exits]
    split
    · split
      · exact mem_insert_of_lookup (by assumption) n
      · rfl
    · rfl

@[simp] theorem putSession_exits (sessionID : String) (x : SessionState × Option Event) :
    (t.putSession sessionID x).exits = t.exits := by
  rcases x with ⟨ss, _ | ev⟩ <;> rfl

theorem mem_addBytes {sessionID : String} {fromClient : Bool} {k ts : ℕ} {n : String} :
    n ∈ (t.addBytes sessionID fromClient k ts).exits ↔ n ∈ t.exits := by
  unfold addBytes
  split
  · rfl
  · simp only
    split
    · split <;> simp
    · rename_i hl
      rw [mem_insert_of_lookup hl]
      split <;> simp

theorem mem_report {sessionID : String} {r : Report} {ts : ℕ} {n : String} :
    n ∈ (t.report sessionID r ts).exits ↔ n ∈ t.exits := by
  unfold report
  split
  · rfl
  · simp only
    split <;> simp

/-! ### Unknown sessions -/

section
variable {k : String} {ts : ℕ} (h : t.sessions.lookup k = none)
include h

theorem disconnect_unknown : t.disconnect k ts = t := by simp only [disconnect, h]

theorem addBytes_unknown {fromClient : Bool} {n : ℕ} : t.addBytes k fromClient n ts = t := by
  simp only [addBytes, h]

theorem report_unknown {r : Report} : t.report k r ts = t := by simp only [report, h]

end

end Tracker
end Qos
end Revquic
