/-
# The routes of a full-tunnel client, and its supervisor

With `-full` the first `ConnectOK` makes the client take over the routes of
its host: `AddHostRoute` pins a route to the broker, `SetDefaultRoute`
replaces the default route, and then `spawnSupervisor` starts a second
process that waits for the first to end and runs `Cleanup`. Each of these is
a step of its own, and the client can end between any two: by a signal, which
it handles in a goroutine of its own, by an error, by a crash. The TUN device
goes some time after, with its routes. The supervisor is a child in the same
process group and handles no signal: what is typed at the terminal reaches it
too.

Key definitions: `addHostRoute`, `setDefaultRoute`, `cleanupHost`,
`cleanupDefault`, `step`, `machine`, `Stepped`.
-/
import Revquic.Lib.Machine
import Revquic.Lib.RouteTable
import Revquic.Netip

namespace Revquic
namespace Client
namespace Supervisor

open Lib Netip

/-- The flags that matter, and the name of the TUN device. -/
structure Config where
  full : Bool := true
  brokerIP : String := ""
  gw : String := ""
  dev : String := ""
  tun : String := "tun0"

/-- An address as `ip` reads it. -/
def readIPv4 (s : String) : Option (BitVec 32) :=
  match parseAddr s with
  | some (.v4 x) => some x
  | _ => none

abbrev Table := RouteTable String

/-! ### `internal/netcfg`

`ok` says whether a command could run at all; the table decides the rest. -/

/-- `AddHostRoute`. -/
def addHostRoute (cfg : Config) (ok : Bool) (t : Table) : Option Table :=
  match readIPv4 cfg.brokerIP, readIPv4 cfg.gw with
  | some x, some g => if ok then t.add ⟨x, 32⟩ ⟨some g, cfg.dev⟩ else none
  | _, _ => none

/-- `SetDefaultRoute`. -/
def setDefaultRoute (cfg : Config) (ok : Bool) (t : Table) : Option Table :=
  if ok then some (t.replace .any ⟨none, cfg.tun⟩) else none

/-- The first command of `Cleanup`; its errors are ignored. -/
def cleanupHost (cfg : Config) (ok : Bool) (t : Table) : Table :=
  if cfg.brokerIP ≠ "" then
    match readIPv4 cfg.brokerIP with
    | some x => if ok then (t.del ⟨x, 32⟩ none).getD t else t
    | none => t
  else t

/-- The second command of `Cleanup`. -/
def cleanupDefault (cfg : Config) (ok : Bool) (t : Table) : Table :=
  if cfg.full then
    if cfg.gw ≠ "" ∧ cfg.dev ≠ "" then
      match readIPv4 cfg.gw with
      | some g => if ok then t.replace .any ⟨some g, cfg.dev⟩ else t
      | none => t
    else if ok then (t.del .any (some cfg.tun)).getD t else t
  else t

/-! ### The two processes -/

/-- Where `main` of the client is. -/
inductive PC
  | dialing
  | pin
  | override
  | spawn
  | up
  | dead
  deriving DecidableEq

/-- The supervisor: not started, waiting for the end of the pipe, after the
first command of `Cleanup`, through, or killed. -/
inductive Child
  | absent
  | waiting
  | restoring
  | done
  | killed
  deriving DecidableEq

def Child.running : Child → Bool
  | .waiting | .restoring => true
  | _ => false

inductive Signal
  | int
  | tstp
  | term
  deriving DecidableEq

structure State where
  table : Table
  tunUp : Bool := true
  pc : PC := .dialing
  routesUp : Bool := false
  child : Child := .absent
  stopped : Bool := false
  now : ℕ := 0
  sigc : List Signal := []
  last : Option ℕ := none

inductive Action
  /-- Time passes. -/
  | tick (d : ℕ)
  /-- The broker answers `ConnectOK`. -/
  | welcome
  | pin (ok : Bool)
  | override (ok : Bool)
  | spawn (ok : Bool)
  /-- The connection ends, and the loop goes around. -/
  | drop
  /-- The client ends without a signal it handles: a crash, SIGKILL,
  `log.Fatalf`. -/
  | crash
  /-- A signal, for the client alone or for its process group; Ctrl-C and
  Ctrl-Z are for the group. -/
  | signal (sig : Signal) (group : Bool)
  /-- SIGCONT, for the group. -/
  | cont
  /-- The goroutine of `OnSignals` takes a signal. -/
  | handle
  /-- The kernel takes the device away. -/
  | tunGone
  /-- The supervisor reads the end of the pipe, and runs the first command of
  `Cleanup`. -/
  | eof (ok : Bool)
  | restore (ok : Bool)
  /-- Somebody changes the routes of another network. -/
  | other (p : Net) (rs : List (Route String))

/-- The window for the second key press. -/
def window : ℕ := 3000000000

/-- `signal.Notify`: the channel has room for four signals. -/
def State.notify (s : State) (sig : Signal) : State :=
  if s.pc ≠ .dead ∧ s.sigc.length < 4 then { s with sigc := s.sigc ++ [sig] } else s

/-- What a signal does to the supervisor, which handles none. -/
def State.strike (s : State) (sig : Signal) : State :=
  if s.child.running then
    match sig with
    | .int | .term => { s with child := .killed }
    | .tstp => { s with stopped := true }
  else s

/-- The body of the loop in `OnSignals`. -/
def handleSignal (s : State) : Option State :=
  match s.sigc with
  | [] => none
  | .term :: rest => some { s with sigc := rest, pc := .dead }
  | _ :: rest =>
    match s.last with
    | some t =>
      if s.now - t ≤ window then some { s with sigc := rest, pc := .dead }
      else some { s with sigc := rest, last := some s.now }
    | none => some { s with sigc := rest, last := some s.now }

/-- The networks whose routes the client touches. -/
def Config.touches (cfg : Config) (p : Net) : Prop :=
  p = .any ∨ (readIPv4 cfg.brokerIP).map (fun x => (⟨x, 32⟩ : Net)) = some p

instance (cfg : Config) (p : Net) : Decidable (cfg.touches p) := inferInstanceAs (Decidable (_ ∨ _))

def step (cfg : Config) (s : State) : Action → Option State
  | .tick d => some { s with now := s.now + d }
  | .welcome =>
    if s.pc = .dialing then
      some { s with pc := if cfg.full ∧ s.routesUp = false then .pin else .up }
    else none
  | .pin ok =>
    if s.pc = .pin then
      some { s with
        pc := .override
        table :=
          if cfg.brokerIP ≠ "" ∧ cfg.gw ≠ "" ∧ cfg.dev ≠ "" then (addHostRoute cfg ok s.table).getD s.table
          else s.table }
    else none
  | .override ok =>
    if s.pc = .override then
      match setDefaultRoute cfg ok s.table with
      | some t => some { s with pc := .spawn, table := t }
      | none => some { s with pc := .dead }
    else none
  | .spawn ok =>
    if s.pc = .spawn then
      some { s with pc := .up, routesUp := true, child := if ok then .waiting else s.child }
    else none
  | .drop => if s.pc = .up then some { s with pc := .dialing } else none
  | .crash => if s.pc ≠ .dead then some { s with pc := .dead } else none
  | .signal sig group => some (if group then (s.notify sig).strike sig else s.notify sig)
  | .cont => some { s with stopped := false }
  | .handle => if s.pc ≠ .dead then handleSignal s else none
  | .tunGone =>
    if s.pc = .dead ∧ s.tunUp = true then
      some { s with tunUp := false, table := s.table.flush cfg.tun }
    else none
  | .eof ok =>
    if s.pc = .dead ∧ s.child = .waiting ∧ s.stopped = false then
      some { s with child := .restoring, table := cleanupHost cfg ok s.table }
    else none
  | .restore ok =>
    if s.child = .restoring ∧ s.stopped = false then
      some { s with child := .done, table := cleanupDefault cfg ok s.table }
    else none
  | .other p rs => if cfg.touches p then none else some { s with table := s.table.set p rs }

/-- The client and its supervisor on a host with the routes `t`. -/
def machine (cfg : Config) (t : Table) : Machine State Action Unit :=
  ⟨{ table := t }, fun s a => (step cfg s a).map fun s' => (s', [])⟩

/-! ### What a step can be -/

/-- The routes stay, and so do the client and its supervisor, unless the client
ends. -/
structure Quiet (s s' : State) : Prop where
  table : s'.table = s.table
  tunUp : s'.tunUp = s.tunUp
  routesUp : s'.routesUp = s.routesUp
  child : s'.child = s.child
  pc : s'.pc = s.pc ∨ s'.pc = .dead

/-- Does the action kill a process of the group that handles no signal? -/
def Action.kills : Action → Bool
  | .signal sig group => group && sig ≠ .tstp
  | _ => false

inductive Stepped (cfg : Config) (s : State) : Action → State → Prop
  | quiet {a : Action} {s' : State} (quiet : Quiet s s') (spares : s.child.running = true → a.kills = false)
      (pin : ∀ ok, a ≠ .pin ok) (spawn : ∀ ok, a ≠ .spawn ok) : Stepped cfg s a s'
  | kill {a : Action} {s' : State} (kills : a.kills = true) (running : s.child.running = true)
      (table : s'.table = s.table) (tunUp : s'.tunUp = s.tunUp) (routesUp : s'.routesUp = s.routesUp)
      (pc : s'.pc = s.pc) (child : s'.child = .killed) : Stepped cfg s a s'
  | welcome (pc : s.pc = .dialing) :
      Stepped cfg s .welcome { s with pc := if cfg.full ∧ s.routesUp = false then .pin else .up }
  | pin (ok : Bool) (pc : s.pc = .pin) :
      Stepped cfg s (.pin ok)
        { s with
          pc := .override
          table := if cfg.brokerIP ≠ "" ∧ cfg.gw ≠ "" ∧ cfg.dev ≠ ""
            then (addHostRoute cfg ok s.table).getD s.table else s.table }
  | override (pc : s.pc = .override) :
      Stepped cfg s (.override true)
        { s with pc := .spawn, table := s.table.replace .any ⟨none, cfg.tun⟩ }
  | spawn (ok : Bool) (pc : s.pc = .spawn) :
      Stepped cfg s (.spawn ok)
        { s with pc := .up, routesUp := true, child := if ok then .waiting else s.child }
  | drop (pc : s.pc = .up) : Stepped cfg s .drop { s with pc := .dialing }
  | tunGone (pc : s.pc = .dead) (up : s.tunUp = true) :
      Stepped cfg s .tunGone { s with tunUp := false, table := s.table.flush cfg.tun }
  | eof (ok : Bool) (pc : s.pc = .dead) (child : s.child = .waiting) :
      Stepped cfg s (.eof ok) { s with child := .restoring, table := cleanupHost cfg ok s.table }
  | restore (ok : Bool) (child : s.child = .restoring) :
      Stepped cfg s (.restore ok) { s with child := .done, table := cleanupDefault cfg ok s.table }
  | other (p : Net) (rs : List (Route String)) (untouched : ¬ cfg.touches p) :
      Stepped cfg s (.other p rs) { s with table := s.table.set p rs }

section
variable {cfg : Config} {s s' : State} {a : Action}

theorem notify_pc (s : State) (sig : Signal) : (s.notify sig).pc = s.pc := by
  unfold State.notify
  split <;> rfl

theorem notify_quiet (s : State) (sig : Signal) : Quiet s (s.notify sig) := by
  refine ⟨?_, ?_, ?_, ?_, Or.inl (notify_pc s sig)⟩
  all_goals
    unfold State.notify
    split <;> rfl

theorem handleSignal_quiet (h : handleSignal s = some s') : Quiet s s' := by
  unfold handleSignal at h
  repeat' split at h
  all_goals
    cases h <;> exact ⟨rfl, rfl, rfl, rfl, by simp⟩

theorem stepped_of_strike (s : State) (sig : Signal) :
    Stepped cfg s (.signal sig true) ((s.notify sig).strike sig) := by
  have hq := notify_quiet s sig
  have hpc := notify_pc s sig
  generalize s.notify sig = u at hq hpc
  unfold State.strike
  by_cases hrun : u.child.running = true
  · rw [if_pos hrun]
    rw [hq.child] at hrun
    cases sig with
    | tstp => exact .quiet ⟨hq.table, hq.tunUp, hq.routesUp, hq.child, hq.pc⟩ (fun _ => rfl) nofun nofun
    | int | term => exact .kill rfl hrun hq.table hq.tunUp hq.routesUp hpc rfl
  · rw [if_neg hrun]
    rw [hq.child] at hrun
    exact .quiet hq (fun h => absurd h hrun) nofun nofun

theorem stepped_of_step (h : step cfg s a = some s') : Stepped cfg s a s' := by
  have hsame : ∀ {u : State}, u.table = s.table → u.tunUp = s.tunUp → u.routesUp = s.routesUp →
      u.child = s.child → u.pc = s.pc ∨ u.pc = .dead → Quiet s u := fun h1 h2 h3 h4 h5 => ⟨h1, h2, h3, h4, h5⟩
  cases a with
  | tick d | cont =>
    cases h
    exact .quiet (hsame rfl rfl rfl rfl (Or.inl rfl)) (fun _ => rfl) nofun nofun
  | signal sig group =>
    cases h
    cases group with
    | true => exact stepped_of_strike s sig
    | false => exact .quiet (notify_quiet s sig) (fun _ => rfl) nofun nofun
  | welcome =>
    simp only [step, Option.ite_none_right_eq_some, Option.some.injEq] at h
    obtain ⟨hpc, rfl⟩ := h
    exact .welcome hpc
  | pin ok =>
    simp only [step, Option.ite_none_right_eq_some, Option.some.injEq] at h
    obtain ⟨hpc, rfl⟩ := h
    exact .pin ok hpc
  | override ok =>
    simp only [step, setDefaultRoute, Option.ite_none_right_eq_some] at h
    obtain ⟨hpc, h⟩ := h
    cases ok with
    | true =>
      cases h
      exact .override hpc
    | false =>
      cases h
      exact .quiet (hsame rfl rfl rfl rfl (Or.inr rfl)) (fun _ => rfl) nofun nofun
  | spawn ok =>
    simp only [step, Option.ite_none_right_eq_some, Option.some.injEq] at h
    obtain ⟨hpc, rfl⟩ := h
    exact .spawn ok hpc
  | drop =>
    simp only [step, Option.ite_none_right_eq_some, Option.some.injEq] at h
    obtain ⟨hpc, rfl⟩ := h
    exact .drop hpc
  | crash =>
    simp only [step, Option.ite_none_right_eq_some, Option.some.injEq] at h
    obtain ⟨-, rfl⟩ := h
    exact .quiet (hsame rfl rfl rfl rfl (Or.inr rfl)) (fun _ => rfl) nofun nofun
  | handle =>
    simp only [step, Option.ite_none_right_eq_some] at h
    exact .quiet (handleSignal_quiet h.2) (fun _ => rfl) nofun nofun
  | tunGone =>
    simp only [step, Option.ite_none_right_eq_some, Option.some.injEq] at h
    obtain ⟨⟨hpc, hup⟩, rfl⟩ := h
    exact .tunGone hpc hup
  | eof ok =>
    simp only [step, Option.ite_none_right_eq_some, Option.some.injEq] at h
    obtain ⟨⟨hpc, hchild, -⟩, rfl⟩ := h
    exact .eof ok hpc hchild
  | restore ok =>
    simp only [step, Option.ite_none_right_eq_some, Option.some.injEq] at h
    obtain ⟨⟨hchild, -⟩, rfl⟩ := h
    exact .restore ok hchild
  | other p rs =>
    simp only [step, Option.ite_none_left_eq_some, Option.some.injEq] at h
    obtain ⟨hp, rfl⟩ := h
    exact .other p rs hp

end

end Supervisor
end Client
end Revquic
