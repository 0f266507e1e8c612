/-
# The exit as a machine

The goroutines of an exit: for each broker connection, `controlLoop` and
`datagramToTun`; for each session with `-direct`, `runDirect`; and
`tunToDatagram`. `serve` empties the tables when a broker connection starts
and when one of its two loops has returned; the other loop may still take
what has arrived. The inbound loops first get hold of a packet and its
session, and write it in a later step.

Key definitions: `State`, `Action`, `controlMsg`, `insertSession`, `step`,
`machine`, `Stepped`.
Key theorems: `stepped_of_step`, `touch_of_step`.
-/
import Revquic.Exit.Tables
import Revquic.Lib.Machine

namespace Revquic
namespace Exit

open Lib Netip Proto

/-- Where a `controlLoop` stands. -/
inductive ControlPC
  | off
  | read
  | adding (sid : ℕ) (clientIP : String) (ice : IceServers) (ip : Addr)  -- inside `addSession`
  | done
  deriving DecidableEq

/-- Where an inbound loop stands. -/
inductive InboundPC
  | off
  | negotiating                              -- `runDirect`, up to `UpgradeDirect`
  | recv
  | hold (p : Ptr) (pkt : List UInt8)        -- about to call `writeInbound`
  | done
  deriving DecidableEq

/-- An inbound loop: `datagramToTun` on broker connection `k`, or the receive
loop of `runDirect` for a session. -/
inductive Loop
  | relay (k : ℕ)
  | direct (p : Ptr)
  deriving DecidableEq

/-- The exit, and its goroutines. -/
structure State extends Tables where
  /-- How many broker connections there have been. -/
  conns : ℕ := 0
  serving : Bool := false
  control : ℕ → ControlPC := fun _ => .off
  inbound : Loop → InboundPC := fun _ => .off

/-- The `-direct` flag. -/
structure Config where
  direct : Bool := true

/-- A packet written to the TUN for a session; a packet handed to the
session's `Send`. -/
inductive Out
  | tun (p : Ptr) (pkt : List UInt8)
  | send (p : Ptr) (pkt : List UInt8)
  deriving DecidableEq

/-- The steps of an exit and its environment. -/
inductive Action
  | serve                                    -- registered on a new broker connection
  | lost                                     -- one of its loops has returned
  | ctrl (k : ℕ) (m : Control)
  | insert (k : ℕ)
  | ctrlDone (k : ℕ)
  | datagram (k : ℕ) (dg : List UInt8)
  | negotiated (p : Ptr) (ok : Bool)
  | direct (p : Ptr) (pkt : List UInt8)
  | recvDone (l : Loop)
  | write (l : Loop)
  | reply (pkt : List UInt8)
  deriving DecidableEq

namespace State

variable (e : State)

def setControl (k : ℕ) (pc : ControlPC) : State :=
  { e with control := Function.update e.control k pc }

def setInbound (l : Loop) (pc : InboundPC) : State :=
  { e with inbound := Function.update e.inbound l pc }

end State

variable (cfg : Config) (e : State)

/-- `serve`, up to its first wait. -/
def serve : State :=
  { e with
    toTables := e.reset
    conns := e.conns + 1
    serving := true
    control := Function.update e.control e.conns .read
    inbound := Function.update e.inbound (.relay e.conns) .recv }

/-- One message in `controlLoop`. `addSession` leaves `e.mu` between its look
at the table and the insertion. -/
def controlMsg (k : ℕ) : Control → State
  | .sessionStart sid clientIP _ _ ice =>
    match e.beginAdd sid clientIP with
    | (t, none) => { e with toTables := t }
    | (t, some ip) => { e with toTables := t }.setControl k (.adding sid clientIP ice ip)
  | m => { e with toTables := e.toTables.control m }

/-- The second section of `addSession`, and `go runDirect`. -/
def insertSession (k : ℕ) (sid : ℕ) (clientIP : String) (ice : IceServers) (ip : Addr) : State :=
  { e with
    toTables := e.finishAdd sid clientIP ice ip
    control := Function.update e.control k .read
    inbound := if cfg.direct then Function.update e.inbound (.direct e.next) .negotiating
      else e.inbound }

/-- `datagramToTun`: decode, and look the session up. -/
def relayRecv (k : ℕ) (dg : List UInt8) : State :=
  match decodeDatagram dg with
  | none => e
  | some (sid, pkt) =>
    match e.sessions.lookup sid with
    | none => e
    | some p => e.setInbound (.relay k) (.hold p pkt)

/-- `writeInbound`. -/
def writeInbound (l : Loop) (p : Ptr) (pkt : List UInt8) : State × List Out :=
  if passes (e.es p) pkt then
    ({ (e.setInbound l .recv) with
        toTables := e.setES p { e.es p with bytesUp := (e.es p).bytesUp + pkt.length } },
      [.tun p pkt])
  else (e.setInbound l .recv, [])

/-- One step, and what it puts out. -/
def step : Action → Option (State × List Out)
  | .serve => if e.serving then none else some (serve e, [])
  | .lost =>
    if e.serving ∧ (e.control (e.conns - 1) = .done ∨ e.inbound (.relay (e.conns - 1)) = .done) then
      some ({ e with toTables := e.reset, serving := false }, [])
    else none
  | .ctrl k m => if e.control k = .read then some (controlMsg e k m, []) else none
  | .insert k =>
    match e.control k with
    | .adding sid clientIP ice ip => some (insertSession cfg e k sid clientIP ice ip, [])
    | _ => none
  | .ctrlDone k => if e.control k = .read then some (e.setControl k .done, []) else none
  | .datagram k dg => if e.inbound (.relay k) = .recv then some (relayRecv e k dg, []) else none
  | .negotiated p ok =>
    if e.inbound (.direct p) = .negotiating then
      some (e.setInbound (.direct p) (if ok then .recv else .done), [])
    else none
  | .direct p pkt =>
    if e.inbound (.direct p) = .recv then some (e.setInbound (.direct p) (.hold p pkt), [])
    else none
  | .recvDone l => if e.inbound l = .recv then some (e.setInbound l .done, []) else none
  | .write l =>
    match e.inbound l with
    | .hold p pkt => some (writeInbound e l p pkt)
    | _ => none
  | .reply pkt =>
    match e.route pkt with
    | none => some (e, [])
    | some p => some (e, [.send p pkt])

/-- The exit, before its first broker connection. -/
def machine : Machine State Action Out := ⟨{}, step cfg⟩

/-- The two sections of `addSession`, with no other step between them, are
`Tables.addSession`. -/
theorem addSession_steps {k sid mtu : ℕ} {clientIP mask : String} {ice : IceServers}
    (hk : e.control k = .read) :
    ∃ e', (step cfg e (.ctrl k (.sessionStart sid clientIP mask mtu ice)) = some (e', []) ∧
        e'.toTables = e.addSession sid clientIP ice) ∨
      ∃ e₁, step cfg e (.ctrl k (.sessionStart sid clientIP mask mtu ice)) = some (e₁, []) ∧
        step cfg e₁ (.insert k) = some (e', []) ∧
        e'.toTables = e.addSession sid clientIP ice := by
  simp only [step, hk, if_true, controlMsg, Tables.addSession]
  cases h : e.beginAdd sid clientIP with
  | mk t ip =>
    cases ip with
    | none => exact ⟨_, Or.inl ⟨rfl, rfl⟩⟩
    | some ip =>
      refine ⟨insertSession cfg ({ e with toTables := t }.setControl k (.adding sid clientIP ice ip))
        k sid clientIP ice ip, Or.inr ⟨_, rfl, ?_, ?_⟩⟩
      · simp [State.setControl]
      · rfl

/-! ### What a step can do -/

section
variable {cfg : Config} {e e' : State} {a : Action} {o : List Out}

/-- One step: what it takes, and what it leaves and puts out. -/
inductive Stepped (cfg : Config) (e : State) : Action → State → List Out → Prop
  | serve (hs : e.serving = false) : Stepped cfg e .serve (Exit.serve e) []
  | lost (hs : e.serving = true) :
      Stepped cfg e .lost { e with toTables := e.reset, serving := false } []
  | ctrl {k : ℕ} {m : Control} (hk : e.control k = .read) :
      Stepped cfg e (.ctrl k m) (controlMsg e k m) []
  | insert {k sid : ℕ} {clientIP : String} {ice : IceServers} {ip : Addr}
      (hk : e.control k = .adding sid clientIP ice ip) :
      Stepped cfg e (.insert k) (insertSession cfg e k sid clientIP ice ip) []
  | ctrlDone {k : ℕ} (hk : e.control k = .read) :
      Stepped cfg e (.ctrlDone k) (e.setControl k .done) []
  | unknown {k : ℕ} {dg : List UInt8} (hk : e.inbound (.relay k) = .recv) :
      Stepped cfg e (.datagram k dg) e []
  | datagram {k sid : ℕ} {dg pkt : List UInt8} {p : Ptr} (hk : e.inbound (.relay k) = .recv)
      (hdg : decodeDatagram dg = some (sid, pkt)) (hp : e.sessions.lookup sid = some p) :
      Stepped cfg e (.datagram k dg) (e.setInbound (.relay k) (.hold p pkt)) []
  | negotiated {p : Ptr} {ok : Bool} (hp : e.inbound (.direct p) = .negotiating) :
      Stepped cfg e (.negotiated p ok) (e.setInbound (.direct p) (if ok then .recv else .done)) []
  | direct {p : Ptr} {pkt : List UInt8} (hp : e.inbound (.direct p) = .recv) :
      Stepped cfg e (.direct p pkt) (e.setInbound (.direct p) (.hold p pkt)) []
  | recvDone {l : Loop} (hl : e.inbound l = .recv) :
      Stepped cfg e (.recvDone l) (e.setInbound l .done) []
  | write {l : Loop} {p : Ptr} {pkt : List UInt8} (hl : e.inbound l = .hold p pkt)
      (hpass : passes (e.es p) pkt = true) :
      Stepped cfg e (.write l)
        { (e.setInbound l .recv) with
          toTables := e.setES p { e.es p with bytesUp := (e.es p).bytesUp + pkt.length } }
        [.tun p pkt]
  | refuse {l : Loop} {p : Ptr} {pkt : List UInt8} (hl : e.inbound l = .hold p pkt) :
      Stepped cfg e (.write l) (e.setInbound l .recv) []
  | noRoute {pkt : List UInt8} : Stepped cfg e (.reply pkt) e []
  | reply {pkt : List UInt8} {p : Ptr} (hp : e.route pkt = some p) :
      Stepped cfg e (.reply pkt) e [.send p pkt]

theorem stepped_of_step (hs : step cfg e a = some (e', o)) : Stepped cfg e a e' o := by
  cases a with
  | serve =>
    simp only [step] at hs
    split at hs <;> cases hs
    rename_i h
    exact .serve (by simpa using h)
  | lost =>
    simp only [step] at hs
    split at hs <;> cases hs
    rename_i h
    exact .lost h.1
  | ctrl k m =>
    simp only [step] at hs
    split at hs <;> cases hs
    rename_i hk
    exact .ctrl hk
  | insert k =>
    simp only [step] at hs
    split at hs <;> cases hs
    rename_i hk
    exact .insert hk
  | ctrlDone k =>
    simp only [step] at hs
    split at hs <;> cases hs
    rename_i hk
    exact .ctrlDone hk
  | datagram k dg =>
    simp only [step, relayRecv] at hs
    split at hs
    · rename_i hk
      split at hs
      · cases hs
        exact .unknown hk
      · rename_i hdg
        split at hs <;> cases hs
        · exact .unknown hk
        · rename_i hp
          exact .datagram hk hdg hp
    · cases hs
  | negotiated p ok =>
    simp only [step] at hs
    split at hs <;> cases hs
    rename_i hp
    exact .negotiated hp
  | direct p pkt =>
    simp only [step] at hs
    split at hs <;> cases hs
    rename_i hp
    exact .direct hp
  | recvDone l =>
    simp only [step] at hs
    split at hs <;> cases hs
    rename_i hl
    exact .recvDone hl
  | write l =>
    simp only [step, writeInbound] at hs
    split at hs
    · rename_i hl
      split at hs <;> cases hs
      · rename_i hpass
        exact .write hl hpass
      · exact .refuse hl
    · cases hs
  | reply pkt =>
    simp only [step] at hs
    split at hs <;> cases hs
    · exact .noRoute
    · rename_i hp
      exact .reply hp

/-- What one step does to the tables: nothing, or it empties them, takes a
session out, changes the flag or the counter of one, or adds one. -/
inductive Touch (a : Action) (t : Tables) : Tables → Prop
  | same : Touch a t t
  | reset : Touch a t t.reset
  | remove (sid : ℕ) : Touch a t (t.removeSession sid)
  | setES (p : Ptr) (s : ExitSession) (hsid : s.sid = (t.es p).sid) : Touch a t (t.setES p s)
  | add (k : ℕ) (ha : a = .insert k) (sid : ℕ) (clientIP : String) (ice : IceServers) (ip : Addr) :
      Touch a t (t.finishAdd sid clientIP ice ip)

theorem touch_beginAdd (t : Tables) (sid : ℕ) (clientIP : String) :
    Touch a t (t.beginAdd sid clientIP).1 := by
  unfold Tables.beginAdd
  split
  · exact .same
  · split
    · exact .setES _ _ rfl
    · exact .same

theorem touch_controlMsg (e : State) (k : ℕ) (m : Control) :
    Touch a e.toTables (controlMsg e k m).toTables := by
  cases m with
  | sessionStart sid clientIP mask mtu ice =>
    have hb : Touch a _ _ := touch_beginAdd e.toTables sid clientIP
    simp only [controlMsg]
    cases hadd : e.beginAdd sid clientIP with
    | mk t ip =>
      rw [hadd] at hb
      cases ip <;> exact hb
  | sessionSuspend sid =>
    simp only [controlMsg, Tables.control, Tables.suspendSession]
    split
    · exact .same
    · exact .setES _ _ rfl
  | sessionEnd sid => exact .remove sid
  | _ => exact .same

theorem controlMsg_control {k j : ℕ} {m : Control} (hk : k ≠ j) :
    (controlMsg e j m).control k = e.control k := by
  cases m with
  | sessionStart sid clientIP mask mtu ice =>
    simp only [controlMsg]
    split
    · rfl
    · exact Function.update_of_ne hk _ _
  | _ => rfl

theorem controlMsg_conns {k : ℕ} {m : Control} : (controlMsg e k m).conns = e.conns := by
  cases m with
  | sessionStart sid clientIP mask mtu ice =>
    simp only [controlMsg]
    split <;> rfl
  | _ => rfl

theorem touch_of_step (hs : step cfg e a = some (e', o)) : Touch a e.toTables e'.toTables := by
  cases stepped_of_step hs with
  | serve => exact .reset
  | lost => exact .reset
  | ctrl => exact touch_controlMsg e _ _
  | insert => exact .add _ rfl _ _ _ _
  | write => exact .setES _ _ rfl
  | _ => exact .same

namespace Touch

variable {t t' : Tables}

theorem fresh (h : Touch a t t') (hf : t.Fresh) : t'.Fresh := by
  cases h with
  | same => exact hf
  | reset => exact Tables.fresh_reset t
  | remove sid => exact hf.removeSession sid
  | setES p s hsid => exact hf.setES hsid
  | add k ha sid clientIP ice ip => exact hf.finishAdd

/-- Only `addSession` allocates. -/
theorem next_eq (h : Touch a t t') (ha : ∀ k, a ≠ .insert k) : t'.next = t.next := by
  cases h with
  | remove sid => exact Tables.removeSession_next sid
  | add k hk sid clientIP ice ip => exact absurd hk (ha k)
  | _ => rfl

/-- Only `addSession` brings a session into the tables. -/
theorem lookup_of (h : Touch a t t') (ha : ∀ k, a ≠ .insert k) {sid : ℕ} {p : Ptr}
    (hp : t'.sessions.lookup sid = some p) : t.sessions.lookup sid = some p := by
  cases h with
  | same => exact hp
  | reset => cases hp
  | remove i => exact (Tables.removeSession_sub hp).1
  | setES q s hsid => exact hp
  | add k hk i clientIP ice ip => exact absurd hk (ha k)

/-- A session keeps its id. -/
theorem sid_eq (h : Touch a t t') {p : Ptr} (hp : p < t.next) : (t'.es p).sid = (t.es p).sid := by
  cases h with
  | remove sid => rw [Tables.removeSession_es]
  | setES q s hsid => exact Tables.setES_sid hsid
  | add k ha sid clientIP ice ip =>
    simp only [Tables.finishAdd, Function.update_of_ne hp.ne]
  | _ => rfl

end Touch

/-- A control loop moves on when it reads, when `addSession` ends, or when
its connection starts. -/
theorem control_of_step (hs : step cfg e a = some (e', o)) (k : ℕ) :
    e'.control k = e.control k ∨ e.control k = .read ∨
      (a = .insert k ∧ ∃ sid clientIP ice ip, e.control k = .adding sid clientIP ice ip) ∨
      (a = .serve ∧ k = e.conns) := by
  cases stepped_of_step hs with
  | @ctrl j m hj =>
    by_cases hk : k = j
    · exact Or.inr (Or.inl (hk ▸ hj))
    · exact Or.inl (controlMsg_control hk)
  | @insert j _ _ _ _ hj =>
    by_cases hk : k = j
    · subst hk
      exact Or.inr (Or.inr (Or.inl ⟨rfl, _, _, _, _, hj⟩))
    · exact Or.inl (Function.update_of_ne hk _ _)
  | @ctrlDone j hj =>
    by_cases hk : k = j
    · exact Or.inr (Or.inl (hk ▸ hj))
    · exact Or.inl (Function.update_of_ne hk _ _)
  | serve =>
    by_cases hk : k = e.conns
    · exact Or.inr (Or.inr (Or.inr ⟨rfl, hk⟩))
    · exact Or.inl (Function.update_of_ne hk _ _)
  | _ => exact Or.inl rfl

theorem conns_of_step (hs : step cfg e a = some (e', o)) :
    e'.conns = if a = .serve then e.conns + 1 else e.conns := by
  cases stepped_of_step hs with
  | ctrl => exact controlMsg_conns
  | _ => rfl

/-- No control loop runs on a connection that is still to come. -/
def Upcoming (e : State) : Prop := ∀ k, e.conns ≤ k → e.control k = .off

theorem Upcoming.step (h : Upcoming e) (hs : step cfg e a = some (e', o)) : Upcoming e' := by
  intro k hk
  have hc := conns_of_step hs
  have hoff : e.control k = .off := by
    apply h
    split_ifs at hc <;> omega
  rcases control_of_step hs k with h' | h' | ⟨-, sid, clientIP, ice, ip, h'⟩ | ⟨rfl, rfl⟩
  · rw [h', hoff]
  · rw [hoff] at h'
    cases h'
  · rw [hoff] at h'
    cases h'
  · rw [if_pos rfl] at hc
    omega

/-- Pointers are allocated once, and connections too, in every run. -/
theorem fresh_of_run {tr : List (Event State Action Out)} (h : (machine cfg).Run tr e) :
    e.Fresh ∧ Upcoming e := by
  refine Machine.Run.invariant (I := fun e => e.Fresh ∧ Upcoming e) ⟨⟨nofun, nofun⟩, ?_⟩ ?_ h
  · intro k hk
    rfl
  · intro s a s' o hI hs
    exact ⟨(touch_of_step hs).fresh hI.1, hI.2.step hs⟩

end

end Exit
end Revquic
