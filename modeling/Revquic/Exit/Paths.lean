/-
# The path a session of the exit sends on

The exit's machine (`Exit/Step`) with the `session.Session` of each of its
sessions. `addSession` makes it with a relay path over the broker connection
it reads; after that only `runDirect` migrates it, to the direct connection
and back to the relay when that fails. A migration fires the state machine
and sets the path in a second step.

A `MsgSessionStart` for a session that is in the tables clears its
`suspended` flag and leaves its path alone: a session left on its direct path
keeps sending to the connection of the client that has gone, until
`ReceiveDatagram` fails.

Key definitions: `step`, `machine`, `Hop`, `Placed`, `started`, `connAt`.
Key theorems: `exit_run`, `placed_of_run`, `start_relays_iff`,
`addSession_returns`, `relays_iff_state`.
-/
import Revquic.Exit.Step
import Revquic.Datapath

namespace Revquic
namespace Exit
namespace Paths

open Lib Netip Proto
open Datapath (Session Path PathState InvalidTransition fire allow)

/-! ### The machine -/

/-- What datagrams are sent on: broker connection `k`, or the direct
connection of a session. -/
inductive Sender
  | broker (k : ℕ)
  | peer (p : Ptr)
  deriving DecidableEq

/-- The relay path of a session, over broker connection `k`. -/
def relayPath (sid k : ℕ) : Path Sender := ⟨some (.broker k), encodeDatagram sid⟩

/-- The direct path of a session. -/
def directPath (p : Ptr) : Path Sender := ⟨some (.peer p), id⟩

/-- Where `runDirect` stands, and how it has returned. -/
inductive DirectPC
  | off                      -- without `-direct`
  | starting                 -- up to `BeginChecks`
  | negotiating
  | upgrading                -- `UpgradeDirect` has fired
  | receiving                -- and has set the path
  | lost                     -- `ReceiveDatagram` has failed, `ctx` has not
  | falling (k : ℕ)          -- has read `e.curConn()`
  | setting (k : ℕ)          -- `FallbackRelay` has fired
  | stayed                   -- returned, never upgraded
  | left                     -- returned, on the direct path
  | fellBack (k : ℕ)         -- returned, on the relay
  deriving DecidableEq

/-- What `addSession` has in hand before it inserts a session: the connection
it has read, and the session. -/
structure Opened where
  conn : ℕ
  sess : Session Sender

/-- The exit, with the paths of its sessions. -/
structure State extends Exit.State where
  /-- Inside the `addSession` of a control loop. -/
  opened : ℕ → Option Opened := fun _ => none
  sess : Ptr → Session Sender := fun _ => { id := 0 }
  /-- The connection whose context a session's goroutines have. -/
  ctx : Ptr → ℕ := fun _ => 0
  run : Ptr → DirectPC := fun _ => .off

/-- The `-direct` and `-rate-bytes` flags. -/
structure Config extends Exit.Config where
  rateBytes : ℚ := 0

/-- A packet written to the TUN for a session; a datagram sent for one. -/
inductive Out
  | tun (p : Ptr) (pkt : List UInt8)
  | sent (p : Ptr) (snd : Sender) (dg : List UInt8)
  deriving DecidableEq

/-- The steps of the exit, with those that touch a session's path apart. -/
inductive Action
  | exit (a : Exit.Action)
  | startRelay (k : ℕ)
  | insert (k : ℕ)
  | beginChecks (p : Ptr) (ok : Bool)        -- `ok`: there is an ICE agent
  | negotiated (p : Ptr) (ok : Bool)
  | upgraded (p : Ptr)
  | directLost (p : Ptr) (gone : Bool)       -- `gone`: `ctx.Err() != nil`
  | curConn (p : Ptr)
  | fallback (p : Ptr)
  | fellBack (p : Ptr)
  | reply (pkt : List UInt8) (now : ℕ) (ok : Bool)
  deriving DecidableEq

namespace State

variable (e : State)

/-- `e.conn`: it stays what it is until the next connection. -/
def cur : ℕ := e.conns - 1

def move (p : Ptr) (s : Session Sender) (pc : DirectPC) : State :=
  { e with sess := Function.update e.sess p s, run := Function.update e.run p pc }

/-- The receive loop of session `p` starts, or ends. -/
def setLoop (p : Ptr) (pc : InboundPC) : State :=
  { e with toState := e.toState.setInbound (.direct p) pc }

end State

variable (cfg : Config) (e : State)

/-- `addSession`, between its two sections. -/
def newSession (sid k : ℕ) : Except InvalidTransition (Session Sender) :=
  let s : Session Sender := { id := sid }
  match fire s.m .startRelay with
  | .error err => .error err
  | .ok m =>
    let s := { s with m }.setPath (relayPath sid k)
    .ok (if 0 < cfg.rateBytes then s.setRateLimit cfg.rateBytes (cfg.rateBytes * 2) else s)

/-- The second section of `addSession`, and `go runDirect`. -/
def insertOpened (k sid : ℕ) (clientIP : String) (ice : IceServers) (ip : Addr) (o : Opened) :
    State where
  toState := insertSession cfg.toConfig e.toState k sid clientIP ice ip
  opened := Function.update e.opened k none
  sess := Function.update e.sess e.next o.sess
  ctx := Function.update e.ctx e.next o.conn
  run := Function.update e.run e.next (if cfg.direct then .starting else .off)

/-- `runDirect`: `BeginChecks`. -/
def beginChecks (p : Ptr) (ok : Bool) : State :=
  if ok then
    match fire (e.sess p).m .beginChecks with
    | .error _ => (e.move p (e.sess p) .stayed).setLoop p .done
    | .ok m => e.move p { e.sess p with m } .negotiating
  else (e.move p (e.sess p) .stayed).setLoop p .done

/-- `Negotiate` has returned: the `Fire` of `UpgradeDirect`, or
`ChecksFailed`, whose error is dropped. -/
def negotiated (p : Ptr) (ok : Bool) : State :=
  if ok then
    match fire (e.sess p).m .directEstablished with
    | .error _ => (e.move p (e.sess p) .stayed).setLoop p .done
    | .ok m => e.move p { e.sess p with m } .upgrading
  else
    match fire (e.sess p).m .checksFailed with
    | .error _ => (e.move p (e.sess p) .stayed).setLoop p .done
    | .ok m => (e.move p { e.sess p with m } .stayed).setLoop p .done

/-- The `Fire` of `FallbackRelay`. -/
def fallback (p : Ptr) (k : ℕ) : State :=
  match fire (e.sess p).m .directLost with
  | .error _ => e.move p (e.sess p) .left
  | .ok m => e.move p { e.sess p with m } (.setting k)

/-- `tunToDatagram`: a packet for session `p` is sent. -/
def sendReply (p : Ptr) (pkt : List UInt8) (now : ℕ) (ok : Bool) : State × List Out :=
  ({ e with sess := Function.update e.sess p ((e.sess p).send pkt now ok).1 },
    match ((e.sess p).send pkt now ok).2 with
    | .ok (snd, dg) => [.sent p snd dg]
    | .error _ => [])

/-- The steps of `Exit.step` that no session's path has a part in. -/
def shared : Exit.Action → Bool
  | .insert _ | .negotiated _ _ | .recvDone (.direct _) | .reply _ => false
  | _ => true

/-- The packets a shared step writes. -/
def written : Exit.Out → Option Out
  | .tun p pkt => some (.tun p pkt)
  | .send _ _ => none

/-- One step, and what it puts out. -/
def step : Action → Option (State × List Out)
  | .exit a =>
    if shared a then
      (Exit.step cfg.toConfig e.toState a).map fun r =>
        ({ e with toState := r.1 }, r.2.filterMap written)
    else none
  | .startRelay k =>
    match e.control k, e.opened k with
    | .adding sid _ _ _, none =>
      match newSession cfg sid e.cur with
      | .error _ => some ({ e with toState := e.toState.setControl k .read }, [])
      | .ok s => some ({ e with opened := Function.update e.opened k (some ⟨e.cur, s⟩) }, [])
    | _, _ => none
  | .insert k =>
    match e.control k, e.opened k with
    | .adding sid clientIP ice ip, some o =>
      some (insertOpened cfg e k sid clientIP ice ip o, [])
    | _, _ => none
  | .beginChecks p ok =>
    if e.run p = .starting ∧ e.inbound (.direct p) = .negotiating then
      some (beginChecks e p ok, [])
    else none
  | .negotiated p ok =>
    if e.run p = .negotiating ∧ e.inbound (.direct p) = .negotiating then
      some (negotiated e p ok, [])
    else none
  | .upgraded p =>
    if e.run p = .upgrading ∧ e.inbound (.direct p) = .negotiating then
      some ((e.move p ((e.sess p).setPath (directPath p)) .receiving).setLoop p .recv, [])
    else none
  | .directLost p gone =>
    if e.run p = .receiving ∧ e.inbound (.direct p) = .recv then
      some ((e.move p (e.sess p) (if gone then .left else .lost)).setLoop p .done, [])
    else none
  | .curConn p =>
    if e.run p = .lost then some (e.move p (e.sess p) (.falling e.cur), []) else none
  | .fallback p =>
    match e.run p with
    | .falling k => some (fallback e p k, [])
    | _ => none
  | .fellBack p =>
    match e.run p with
    | .setting k =>
      some (e.move p ((e.sess p).setPath (relayPath (e.es p).sid k)) (.fellBack k), [])
    | _ => none
  | .reply pkt now ok =>
    match e.route pkt with
    | none => some (e, [])
    | some p => some (sendReply e p pkt now ok)

/-- The exit, before its first broker connection. -/
def machine : Machine State Action Out := ⟨{}, step cfg⟩

/-- The `Fire` of a new session's `StartRelay` does not fail. -/
theorem newSession_ok (sid k : ℕ) : ∃ s, newSession cfg sid k = .ok s ∧ s.m = .relaying ∧
    s.path = relayPath sid k := by
  refine ⟨_, rfl, ?_⟩
  split <;> exact ⟨rfl, rfl⟩

section
variable {cfg : Config} {e e' : State} {a : Action} {o : List Out} {p : Ptr}
  {tr : List (Event State Action Out)}

/-! ### What a step can do -/

/-- The `Fire` calls of `runDirect`: where it stands before and after. -/
inductive Fires : DirectPC → Datapath.Ev → DirectPC → Prop
  | beginChecks : Fires .starting .beginChecks .negotiating
  | established : Fires .negotiating .directEstablished .upgrading
  | checksFailed : Fires .negotiating .checksFailed .stayed
  | directLost (k : ℕ) : Fires (.falling k) .directLost (.setting k)

/-- What `runDirect` does with its session in one step, while `c` is the
current broker connection. -/
inductive Hop (c sid : ℕ) (p : Ptr) (s : Session Sender) :
    DirectPC → DirectPC → Session Sender → Prop
  | stop : Hop c sid p s .starting .stayed s
  | fires {pc pc' : DirectPC} {ev : Datapath.Ev} {m : PathState} (hev : Fires pc ev pc')
      (hm : fire s.m ev = .ok m) : Hop c sid p s pc pc' { s with m }
  | fails {pc pc' pc'' : DirectPC} {ev : Datapath.Ev} {err : InvalidTransition}
      (hev : Fires pc ev pc') (hm : fire s.m ev = .error err) : Hop c sid p s pc pc'' s
  | upgraded : Hop c sid p s .upgrading .receiving (s.setPath (directPath p))
  | lost : Hop c sid p s .receiving .lost s
  | left : Hop c sid p s .receiving .left s
  | curConn : Hop c sid p s .lost (.falling c) s
  | fellBack (k : ℕ) : Hop c sid p s (.setting k) (.fellBack k) (s.setPath (relayPath sid k))

/-- What one step does: a step of the exit that no path has a part in, a part
of `addSession`, a step of a `runDirect`, in which the receive loop may start
or end, a packet sent, or nothing. -/
inductive Stepped (cfg : Config) (e : State) : Action → State → Prop
  | exit {b : Exit.Action} {s' : Exit.State} {o' : List Exit.Out} (hb : shared b = true)
      (hs : Exit.step cfg.toConfig e.toState b = some (s', o')) :
      Stepped cfg e (.exit b) { e with toState := s' }
  | startRelay {k sid : ℕ} {clientIP : String} {ice : IceServers} {ip : Addr} {s : Session Sender}
      (hk : e.control k = .adding sid clientIP ice ip) (hm : s.m = .relaying)
      (hpath : s.path = relayPath sid e.cur) :
      Stepped cfg e (.startRelay k) { e with opened := Function.update e.opened k (some ⟨e.cur, s⟩) }
  | insert {k sid : ℕ} {clientIP : String} {ice : IceServers} {ip : Addr} {x : Opened}
      (hk : e.control k = .adding sid clientIP ice ip) (hx : e.opened k = some x) :
      Stepped cfg e (.insert k) (insertOpened cfg e k sid clientIP ice ip x)
  | hop {a : Action} {p : Ptr} {s : Session Sender} {pc : DirectPC}
      (h : Hop e.cur (e.es p).sid p (e.sess p) (e.run p) pc s) : Stepped cfg e a (e.move p s pc)
  | loop {a : Action} {p : Ptr} {s : Session Sender} {pc : DirectPC} {l : InboundPC}
      {b : Exit.Action} (h : Hop e.cur (e.es p).sid p (e.sess p) (e.run p) pc s)
      (hs : Exit.step cfg.toConfig e.toState b = some (e.toState.setInbound (.direct p) l, [])) :
      Stepped cfg e a ((e.move p s pc).setLoop p l)
  | reply (p : Ptr) (pkt : List UInt8) (now : ℕ) (ok : Bool) :
      Stepped cfg e (.reply pkt now ok) (sendReply e p pkt now ok).1
  | same {pkt : List UInt8} {now : ℕ} {ok : Bool} : Stepped cfg e (.reply pkt now ok) e

/-- `runDirect` returns before its receive loop. -/
theorem Stepped.stop (hp : e.inbound (.direct p) = .negotiating)
    {s : Session Sender} (h : Hop e.cur (e.es p).sid p (e.sess p) (e.run p) .stayed s) :
    Stepped cfg e a ((e.move p s .stayed).setLoop p .done) :=
  .loop h (b := .negotiated p false) (if_pos hp)

theorem stepped_beginChecks {ok : Bool} (hrun : e.run p = .starting)
    (hp : e.inbound (.direct p) = .negotiating) :
    Stepped cfg e (.beginChecks p ok) (beginChecks e p ok) := by
  unfold beginChecks
  split
  · split
    · rename_i err hm
      exact .stop hp (hrun ▸ .fails .beginChecks hm)
    · rename_i m hm
      exact .hop (hrun ▸ .fires .beginChecks hm)
  · exact .stop hp (hrun ▸ .stop)

theorem stepped_negotiated {ok : Bool} (hrun : e.run p = .negotiating)
    (hp : e.inbound (.direct p) = .negotiating) :
    Stepped cfg e (.negotiated p ok) (negotiated e p ok) := by
  unfold negotiated
  split
  · split
    · rename_i err hm
      exact .stop hp (hrun ▸ .fails .established hm)
    · rename_i m hm
      exact .hop (hrun ▸ .fires .established hm)
  · split
    · rename_i err hm
      exact .stop hp (hrun ▸ .fails .checksFailed hm)
    · rename_i m hm
      exact .stop hp (hrun ▸ .fires .checksFailed hm)

theorem stepped_fallback {k : ℕ} (hrun : e.run p = .falling k) :
    Stepped cfg e (.fallback p) (fallback e p k) := by
  unfold fallback
  split
  · rename_i err hm
    exact .hop (hrun ▸ .fails (.directLost k) hm)
  · rename_i m hm
    exact .hop (hrun ▸ .fires (.directLost k) hm)

theorem exit_of_step {b : Exit.Action} (hs : step cfg e (.exit b) = some (e', o)) :
    shared b = true ∧ ∃ s' o', Exit.step cfg.toConfig e.toState b = some (s', o') ∧
      { e with toState := s' } = e' := by
  simp only [step] at hs
  split at hs
  · rename_i hb
    obtain ⟨⟨s', o'⟩, hr, hrs⟩ := Option.map_eq_some_iff.mp hs
    exact ⟨hb, s', o', hr, (Prod.mk.inj hrs).1⟩
  · cases hs

theorem stepped_of_step (hs : step cfg e a = some (e', o)) : Stepped cfg e a e' := by
  cases a with
  | exit b =>
    obtain ⟨hb, s', o', hr, rfl⟩ := exit_of_step hs
    exact .exit hb hr
  | startRelay k =>
    simp only [step] at hs
    split at hs
    · rename_i sid clientIP ice ip hk _
      obtain ⟨s, hnew, hm, hpath⟩ := newSession_ok cfg sid e.cur
      rw [hnew] at hs
      cases hs
      exact .startRelay hk hm hpath
    · cases hs
  | insert k =>
    simp only [step] at hs
    split at hs <;> cases hs
    rename_i hk hx
    exact .insert hk hx
  | beginChecks p ok =>
    simp only [step] at hs
    split at hs <;> cases hs
    rename_i hp
    exact stepped_beginChecks hp.1 hp.2
  | negotiated p ok =>
    simp only [step] at hs
    split at hs <;> cases hs
    rename_i hp
    exact stepped_negotiated hp.1 hp.2
  | upgraded p =>
    simp only [step] at hs
    split at hs <;> cases hs
    rename_i hp
    exact .loop (hp.1 ▸ .upgraded) (b := .negotiated p true) (if_pos hp.2)
  | directLost p gone =>
    simp only [step] at hs
    split at hs <;> cases hs
    rename_i hp
    have hb : Exit.step cfg.toConfig e.toState (.recvDone (.direct p)) = some (_, []) := if_pos hp.2
    split
    · exact .loop (hp.1 ▸ .left) hb
    · exact .loop (hp.1 ▸ .lost) hb
  | curConn p =>
    simp only [step] at hs
    split at hs <;> cases hs
    rename_i hp
    exact .hop (hp ▸ .curConn)
  | fallback p =>
    simp only [step] at hs
    split at hs <;> cases hs
    rename_i hp
    exact stepped_fallback hp
  | fellBack p =>
    simp only [step] at hs
    split at hs <;> cases hs
    rename_i k hp
    exact .hop (hp ▸ .fellBack k)
  | reply pkt now ok =>
    simp only [step] at hs
    split at hs <;> cases hs
    · exact .same
    · exact .reply _ pkt now ok

/-! ### It is the exit -/

/-- A step is one of the exit, or none of the exit's business. -/
theorem Stepped.exit_step (h : Stepped cfg e a e') :
    e'.toState = e.toState ∨
      ∃ b o', Exit.step cfg.toConfig e.toState b = some (e'.toState, o') := by
  cases h with
  | @exit b _ o' _ hs => exact Or.inr ⟨b, o', hs⟩
  | @insert k _ _ _ _ _ hk _ =>
    exact Or.inr ⟨.insert k, [], by simp only [Exit.step, hk]; rfl⟩
  | @loop _ _ _ _ _ b _ hs => exact Or.inr ⟨b, [], hs⟩
  | _ => exact Or.inl rfl

/-- **A run is a run of the exit.** -/
theorem exit_run (h : (machine cfg).Run tr e) :
    ∃ tr', (Exit.machine cfg.toConfig).Run tr' e.toState :=
  h.image (f := State.toState) rfl fun hs => (stepped_of_step hs).exit_step

/-! ### Where a session sends -/

/-- The state of the session's machine, where `runDirect` stands here. -/
def DirectPC.state : DirectPC → PathState
  | .off | .starting | .stayed | .setting _ | .fellBack _ => .relaying
  | .negotiating => .checking
  | .upgrading | .receiving | .lost | .falling _ | .left => .direct

/-- The broker connection the session sends on, where `runDirect` stands here
and `addSession` read connection `c`; none from the time `UpgradeDirect` has
set the path until `FallbackRelay` has. -/
def DirectPC.relayConn (c : ℕ) : DirectPC → Option ℕ
  | .off | .starting | .negotiating | .upgrading | .stayed => some c
  | .fellBack k => some k
  | .receiving | .lost | .falling _ | .setting _ | .left => none

/-- The path over a broker connection, or else the direct one. -/
def pathOn (sid : ℕ) (p : Ptr) : Option ℕ → Path Sender
  | some k => relayPath sid k
  | none => directPath p

/-- The path tells the broker connection. -/
theorem pathOn_eq_relayPath {sid k : ℕ} {c : Option ℕ} :
    pathOn sid p c = relayPath sid k ↔ c = some k := by
  cases c with
  | none => simp [pathOn, directPath, relayPath]
  | some j => simp [pathOn, relayPath]

/-- State and path of a session are those that `runDirect` has left. -/
structure Placed (e : State) (p : Ptr) : Prop where
  state : (e.sess p).m = (e.run p).state
  path : (e.sess p).path = pathOn (e.es p).sid p ((e.run p).relayConn (e.ctx p))

/-- So it is for every session. -/
def AllPlaced (e : State) : Prop := ∀ p < e.next, Placed e p

theorem AllPlaced.move (h : AllPlaced e) {s : Session Sender} {pc : DirectPC}
    (hs : p < e.next → s.m = pc.state ∧ s.path = pathOn (e.es p).sid p (pc.relayConn (e.ctx p))) :
    AllPlaced (e.move p s pc) := by
  intro q hq
  by_cases hqp : q = p
  · subst hqp
    obtain ⟨hm, hpath⟩ := hs hq
    constructor
    · simpa only [State.move, Function.update_self] using hm
    · simpa only [State.move, Function.update_self] using hpath
  · constructor
    · simpa only [State.move, Function.update_of_ne hqp] using (h q hq).state
    · simpa only [State.move, Function.update_of_ne hqp] using (h q hq).path

theorem AllPlaced.setLoop (h : AllPlaced e) {pc : InboundPC} : AllPlaced (e.setLoop p pc) :=
  fun q hq => ⟨(h q hq).state, (h q hq).path⟩

theorem Fires.legal {pc pc' : DirectPC} {ev : Datapath.Ev} (h : Fires pc ev pc') :
    fire pc.state ev = .ok pc'.state ∧ ∀ c, pc'.relayConn c = pc.relayConn c := by
  cases h <;> exact ⟨rfl, fun _ => rfl⟩

/-- A step of `runDirect` leaves its session where it then stands. -/
theorem Hop.placed {c sid ctx : ℕ} {s s' : Session Sender} {pc pc' : DirectPC}
    (h : Hop c sid p s pc pc' s') (hm : s.m = pc.state)
    (hpath : s.path = pathOn sid p (pc.relayConn ctx)) :
    s'.m = pc'.state ∧ s'.path = pathOn sid p (pc'.relayConn ctx) := by
  cases h with
  | fires hev hfire =>
    rw [hm, hev.legal.1] at hfire
    rw [hev.legal.2]
    exact ⟨(Except.ok.inj hfire).symm, hpath⟩
  | fails hev hfire =>
    rw [hm, hev.legal.1] at hfire
    cases hfire
  | upgraded => exact ⟨hm, rfl⟩
  | fellBack k => exact ⟨hm, rfl⟩
  | _ => exact ⟨hm, hpath⟩

theorem AllPlaced.hop (h : AllPlaced e) {s : Session Sender} {pc : DirectPC}
    (hop : Hop e.cur (e.es p).sid p (e.sess p) (e.run p) pc s) : AllPlaced (e.move p s pc) :=
  h.move fun hp => hop.placed (h p hp).state (h p hp).path

theorem AllPlaced.sendReply (h : AllPlaced e) (pkt : List UInt8) (now : ℕ) (ok : Bool) :
    AllPlaced (sendReply e p pkt now ok).1 := by
  intro q hq
  have hsend := Datapath.Session.send_keeps (e.sess p) pkt now ok
  by_cases hqp : q = p
  · subst hqp
    constructor
    · simp only [Paths.sendReply, Function.update_self, hsend]
      exact (h q hq).state
    · simp only [Paths.sendReply, Function.update_self, hsend]
      exact (h q hq).path
  · constructor
    · simp only [Paths.sendReply, Function.update_of_ne hqp]
      exact (h q hq).state
    · simp only [Paths.sendReply, Function.update_of_ne hqp]
      exact (h q hq).path

/-- `addSession` has made its session on the relay. -/
def OpenedRelay (e : State) : Prop := ∀ k x, e.opened k = some x →
  ∃ sid clientIP ice ip, e.control k = .adding sid clientIP ice ip ∧
    x.sess.m = .relaying ∧ x.sess.path = relayPath sid x.conn

theorem AllPlaced.insert (h : AllPlaced e) {k sid : ℕ} {clientIP : String} {ice : IceServers}
    {ip : Addr} {x : Opened} (hm : x.sess.m = .relaying)
    (hpath : x.sess.path = relayPath sid x.conn) :
    AllPlaced (insertOpened cfg e k sid clientIP ice ip x) := by
  intro q hq
  by_cases hqn : q = e.next
  · subst hqn
    constructor
    · simp only [insertOpened, Function.update_self, hm]
      split <;> rfl
    · simp only [insertOpened, insertSession, Tables.finishAdd, Function.update_self, hpath]
      split <;> rfl
  · have hlt : q < e.next := lt_of_le_of_ne (Nat.le_of_lt_succ hq) hqn
    constructor
    · simp only [insertOpened, Function.update_of_ne hqn]
      exact (h q hlt).state
    · simp only [insertOpened, insertSession, Tables.finishAdd, Function.update_of_ne hqn]
      exact (h q hlt).path

/-- The exit does something that no path has a part in. -/
theorem AllPlaced.exit (h : AllPlaced e) {b : Exit.Action} {s' : Exit.State} {o' : List Exit.Out}
    (hb : shared b = true) (hs : Exit.step cfg.toConfig e.toState b = some (s', o')) :
    AllPlaced { e with toState := s' } := by
  have ht := touch_of_step hs
  have hnext : s'.next = e.next := by
    refine ht.next_eq ?_
    rintro k rfl
    cases hb
  intro q hq
  have hq : q < e.next := hnext ▸ hq
  refine ⟨(h q hq).state, ?_⟩
  simp only [ht.sid_eq hq]
  exact (h q hq).path

theorem AllPlaced.step (h : AllPlaced e) (ho : OpenedRelay e) (hs : Stepped cfg e a e') :
    AllPlaced e' := by
  cases hs with
  | exit hb hs => exact h.exit hb hs
  | startRelay => exact fun q hq => ⟨(h q hq).state, (h q hq).path⟩
  | @insert k _ _ _ _ x hk hx =>
    obtain ⟨sid, clientIP, ice, ip, hk', hm, hpath⟩ := ho k x hx
    rw [hk] at hk'
    cases hk'
    exact h.insert hm hpath
  | hop hop => exact h.hop hop
  | loop hop => exact (h.hop hop).setLoop
  | reply p pkt now ok => exact h.sendReply pkt now ok
  | same => exact h

theorem OpenedRelay.exit (h : OpenedRelay e) (hu : Upcoming e.toState) {b : Exit.Action}
    {s' : Exit.State} {o' : List Exit.Out} (hb : shared b = true)
    (hs : Exit.step cfg.toConfig e.toState b = some (s', o')) :
    OpenedRelay { e with toState := s' } := by
  intro k x hx
  obtain ⟨sid, clientIP, ice, ip, hk, hr⟩ := h k x hx
  refine ⟨sid, clientIP, ice, ip, ?_, hr⟩
  rcases control_of_step hs k with hc | hread | ⟨rfl, -⟩ | ⟨-, rfl⟩
  · exact hc.trans hk
  · rw [hread] at hk
    cases hk
  · cases hb
  · rw [hu _ le_rfl] at hk
    cases hk

theorem OpenedRelay.step (h : OpenedRelay e) (hu : Upcoming e.toState)
    (hs : Stepped cfg e a e') : OpenedRelay e' := by
  cases hs with
  | exit hb hs => exact h.exit hu hb hs
  | @startRelay k sid clientIP ice ip s hk hm hpath =>
    intro j x hx
    by_cases hj : j = k
    · subst hj
      simp only [Function.update_self] at hx
      cases hx
      exact ⟨sid, clientIP, ice, ip, hk, hm, hpath⟩
    · simp only [Function.update_of_ne hj] at hx
      exact h j x hx
  | @insert k _ _ _ _ _ _ _ =>
    intro j x hx
    by_cases hj : j = k
    · simp only [insertOpened, hj, Function.update_self] at hx
      cases hx
    · simp only [insertOpened, Function.update_of_ne hj] at hx
      simp only [insertOpened, insertSession, Function.update_of_ne hj]
      exact h j x hx
  | _ => exact h

/-- **In every run, the state and the path of a session are those where
`runDirect` stands.** -/
theorem placed_of_run (h : (machine cfg).Run tr e) :
    AllPlaced e ∧ OpenedRelay e := by
  induction h with
  | nil => exact ⟨fun p hp => absurd hp (Nat.not_lt_zero p), fun k x hx => by cases hx⟩
  | snoc hr hs ih =>
    obtain ⟨tr', hr'⟩ := exit_run hr
    have hst := stepped_of_step hs
    exact ⟨ih.1.step ih.2 hst, ih.2.step (fresh_of_run hr').2 hst⟩

/-! ### After a `MsgSessionStart` -/

/-- The session whose `addSession` returns with this step: it is found in the
tables, or has just been inserted. -/
def started (x : Event State Action Out) : Option ℕ :=
  match x.act with
  | .exit (.ctrl _ (.sessionStart sid clientIP _ _ _)) =>
    if (parseAddr clientIP).isSome ∧ (x.pre.sessions.lookup sid).isSome then some sid else none
  | .insert k =>
    match x.pre.control k with
    | .adding sid _ _ _ => some sid
    | _ => none
  | _ => none

/-- The broker connection the session sends on when a `MsgSessionStart` comes
for it; for a new one, the connection `addSession` has read. -/
def connAt (e : State) : Action → Option ℕ
  | .exit (.ctrl _ (.sessionStart sid _ _ _ _)) =>
    (e.sessions.lookup sid).bind fun p => (e.run p).relayConn (e.ctx p)
  | .insert k => (e.opened k).map Opened.conn
  | _ => none

theorem started_cases {x : Event State Action Out} {sid : ℕ} (h : started x = some sid) :
    (∃ k clientIP mask mtu ice ip p,
      x.act = .exit (.ctrl k (.sessionStart sid clientIP mask mtu ice)) ∧
      parseAddr clientIP = some ip ∧ x.pre.sessions.lookup sid = some p) ∨
    ∃ k clientIP ice ip, x.act = .insert k ∧ x.pre.control k = .adding sid clientIP ice ip := by
  unfold started at h
  split at h
  · rename_i ha
    split_ifs at h with hc
    cases h
    obtain ⟨ip, hip⟩ := Option.isSome_iff_exists.mp hc.1
    obtain ⟨p, hp⟩ := Option.isSome_iff_exists.mp hc.2
    exact Or.inl ⟨_, _, _, _, _, ip, p, ha, hip, hp⟩
  · rename_i k ha
    split at h <;> cases h
    rename_i hk
    exact Or.inr ⟨k, _, _, _, ha, hk⟩
  · cases h

/-- `addSession` on a session that is in the tables. -/
theorem resume_step {k sid mtu : ℕ} {clientIP mask : String} {ice : IceServers} {ip : Addr}
    (hip : parseAddr clientIP = some ip) (hp : e.sessions.lookup sid = some p)
    (hs : step cfg e (.exit (.ctrl k (.sessionStart sid clientIP mask mtu ice))) = some (e', o)) :
    { e with toTables := e.setES p { e.es p with suspended := false } } = e' := by
  obtain ⟨-, s', o', hst, rfl⟩ := exit_of_step hs
  simp only [Exit.step, controlMsg, Tables.beginAdd, hip, hp] at hst
  split at hst <;> cases hst
  rfl

/-- `addSession` on one that is not. -/
theorem insert_step {k sid : ℕ} {clientIP : String} {ice : IceServers} {ip : Addr}
    (hk : e.control k = .adding sid clientIP ice ip)
    (hs : step cfg e (.insert k) = some (e', o)) :
    ∃ x, e.opened k = some x ∧ insertOpened cfg e k sid clientIP ice ip x = e' := by
  simp only [step, hk] at hs
  split at hs <;> cases hs
  rename_i x hsid hx
  cases hsid
  exact ⟨x, hx, rfl⟩

theorem startRelay_enabled {k sid : ℕ} {clientIP : String} {ice : IceServers} {ip : Addr}
    (hk : e.control k = .adding sid clientIP ice ip) (ho : e.opened k = none) :
    ∃ s, step cfg e (.startRelay k) =
      some ({ e with opened := Function.update e.opened k (some ⟨e.cur, s⟩) }, []) := by
  obtain ⟨s, hnew, -⟩ := newSession_ok cfg sid e.cur
  exact ⟨s, by simp only [step, hk, ho, hnew]⟩

theorem insert_enabled {k sid : ℕ} {clientIP : String} {ice : IceServers} {ip : Addr} {x : Opened}
    (hk : e.control k = .adding sid clientIP ice ip) (ho : e.opened k = some x) :
    ∃ e', step cfg e (.insert k) = some (e', []) ∧
      started ⟨e, .insert k, [], e'⟩ = some sid ∧ connAt e (.insert k) = some x.conn := by
  refine ⟨insertOpened cfg e k sid clientIP ice ip x, ?_, ?_, ?_⟩
  · simp only [step, hk, ho]
  · simp only [started, hk]
  · simp only [connAt, ho, Option.map_some]

/-- `addSession` returns: at once if the session is in the tables, and after
two more steps if not. With no other step between them, it has read the
current connection. -/
theorem addSession_returns {k sid mtu : ℕ} {clientIP mask : String} {ice : IceServers} {ip : Addr}
    (hk : e.control k = .read) (ho : e.opened k = none) (hip : parseAddr clientIP = some ip) :
    let m : Action := .exit (.ctrl k (.sessionStart sid clientIP mask mtu ice))
    (∃ e', step cfg e m = some (e', []) ∧ started ⟨e, m, [], e'⟩ = some sid) ∨
    ∃ e₁ e₂ e₃, step cfg e m = some (e₁, []) ∧ step cfg e₁ (.startRelay k) = some (e₂, []) ∧
      step cfg e₂ (.insert k) = some (e₃, []) ∧ started ⟨e₂, .insert k, [], e₃⟩ = some sid ∧
      connAt e₂ (.insert k) = some e₂.cur := by
  intro m
  cases hp : e.sessions.lookup sid with
  | some p =>
    refine Or.inl ⟨{ e with toTables := e.setES p { e.es p with suspended := false } }, ?_, ?_⟩
    · simp only [m, step, shared, Exit.step, hk, controlMsg, Tables.beginAdd, hip, hp]
      rfl
    · simp [m, started, hip, hp]
  | none =>
    let e₁ : State := { e with toState := e.toState.setControl k (.adding sid clientIP ice ip) }
    have hk₁ : e₁.control k = .adding sid clientIP ice ip := Function.update_self _ _ _
    obtain ⟨s, h₂⟩ : ∃ s, step cfg e₁ (.startRelay k) =
        some ({ e₁ with opened := Function.update e.opened k (some ⟨e.cur, s⟩) }, []) :=
      startRelay_enabled hk₁ ho
    let e₂ : State := { e₁ with opened := Function.update e.opened k (some ⟨e.cur, s⟩) }
    have hk₂ : e₂.control k = .adding sid clientIP ice ip := hk₁
    have ho₂ : e₂.opened k = some ⟨e.cur, s⟩ := Function.update_self _ _ _
    obtain ⟨e₃, h₃, hst, hconn⟩ : ∃ e₃, step cfg e₂ (.insert k) = some (e₃, []) ∧
        started ⟨e₂, .insert k, [], e₃⟩ = some sid ∧ connAt e₂ (.insert k) = some e₂.cur :=
      insert_enabled hk₂ ho₂
    refine Or.inr ⟨e₁, e₂, e₃, ?_, h₂, h₃, hst, hconn⟩
    simp only [m, step, shared, Exit.step, hk, controlMsg, Tables.beginAdd, hip, hp]
    rfl

/-- What the session of a `MsgSessionStart` is like when `addSession` has
returned. -/
theorem start_pathOn (h : (machine cfg).Run tr e)
    {x : Event State Action Out} (hx : x ∈ tr) {sid : ℕ} (hs : started x = some sid) :
    ∃ p, x.post.sessions.lookup sid = some p ∧ (x.post.es p).suspended = false ∧
      (x.post.sess p).path = pathOn sid p (connAt x.pre x.act) ∧ x.post.cur = x.pre.cur := by
  obtain ⟨tr₁, -, -, hr, hstep⟩ := h.of_mem hx
  obtain ⟨hplaced, hopened⟩ := placed_of_run hr
  obtain ⟨tr', hr'⟩ := exit_run hr
  have hfresh := (fresh_of_run hr').1
  obtain ⟨e, a, o, e'⟩ := x
  rcases started_cases hs with ⟨k, clientIP, mask, mtu, ice, ip, p, ha, hip, hp⟩ |
    ⟨k, clientIP, ice, ip, ha, hk⟩
  · obtain rfl : a = _ := ha
    have hp : e.sessions.lookup sid = some p := hp
    obtain rfl : _ = e' := resume_step hip hp hstep
    refine ⟨p, hp, by simp [Tables.setES], ?_, rfl⟩
    have hpath := (hplaced p (hfresh.below sid p hp)).path
    rw [hfresh.own sid p hp] at hpath
    simp only [connAt]
    rw [hp]
    exact hpath
  · obtain rfl : a = _ := ha
    have hk : e.control k = .adding sid clientIP ice ip := hk
    obtain ⟨x, hopen, he⟩ := insert_step hk hstep
    obtain rfl : _ = e' := he
    obtain ⟨sid', clientIP', ice', ip', hk', hm, hpath⟩ := hopened k x hopen
    rw [hk] at hk'
    cases hk'
    refine ⟨e.next, ?_, ?_, ?_, rfl⟩
    · simp [insertOpened, insertSession, Tables.finishAdd]
    · simp [insertOpened, insertSession, Tables.finishAdd]
    · simp only [insertOpened, Function.update_self, connAt, hopen, Option.map_some]
      exact hpath

/-- **When `addSession` returns, the session is not suspended, and its path is
the relay over the current broker connection exactly if it was before, or if
the session is new and the connection has not changed meanwhile. A session
that was on its direct path goes on sending there.** -/
theorem start_relays_iff (h : (machine cfg).Run tr e)
    {x : Event State Action Out} (hx : x ∈ tr) {sid : ℕ} (hs : started x = some sid) :
    ∃ p, x.post.sessions.lookup sid = some p ∧ (x.post.es p).suspended = false ∧
      ((x.post.sess p).path = relayPath sid x.post.cur ↔ connAt x.pre x.act = some x.post.cur) ∧
      ∀ pkt now, (allow (x.post.sess p).limiter pkt.length now).1 = true →
        (connAt x.pre x.act = some x.post.cur → ((x.post.sess p).send pkt now true).2 =
          .ok (.broker x.post.cur, encodeDatagram sid pkt)) ∧
        (connAt x.pre x.act = none → ((x.post.sess p).send pkt now true).2 = .ok (.peer p, pkt)) := by
  obtain ⟨p, hp, hsus, hpath, -⟩ := start_pathOn h hx hs
  refine ⟨p, hp, hsus, ?_, ?_⟩
  · rw [hpath]
    exact pathOn_eq_relayPath
  · intro pkt now hl
    constructor
    · intro hc
      rw [hc] at hpath
      rw [Session.send_ok (by rw [hpath]; rfl) hl, hpath]
      rfl
    · intro hc
      rw [hc] at hpath
      rw [Session.send_ok (by rw [hpath]; rfl) hl, hpath]
      rfl

/-- A client that connects, is suspended and comes back. -/
def comeBack (between : List Action) : List Action :=
  .exit .serve :: .exit (.ctrl 0 (.sessionStart 7 "10.99.0.2" "255.255.255.0" 1200 {})) ::
    .startRelay 0 :: .insert 0 :: between.append
      [.exit (.ctrl 0 (.sessionSuspend 7)),
        .exit (.ctrl 0 (.sessionStart 7 "10.99.0.2" "255.255.255.0" 1200 {}))]

/-- Its negotiation had not ended. -/
theorem start_relays_iff_checking : ∃ tr e, (machine {}).Run tr e ∧ ∃ x ∈ tr,
    started x = some 7 ∧ (x.pre.sess 0).m = .checking ∧ (x.pre.es 0).suspended = true ∧
    ∃ p, x.post.sessions.lookup 7 = some p ∧ (x.post.es p).suspended = false ∧
      (x.post.sess p).path = relayPath 7 x.post.cur := by
  obtain ⟨tr, e, hr, x, hx, hs, hm, hsus, hc⟩ := (machine {}).exists_run
    (comeBack [.beginChecks 0 true])
    (P := fun r => ∃ x ∈ r.1, started x = some 7 ∧ (x.pre.sess 0).m = .checking ∧
      (x.pre.es 0).suspended = true ∧ connAt x.pre x.act = some x.post.cur)
    (by decide +kernel)
  obtain ⟨p, hp, hsus', hiff, -⟩ := start_relays_iff hr hx hs
  exact ⟨tr, e, hr, x, hx, hs, hm, hsus, p, hp, hsus', hiff.mpr hc⟩

/-- An IPv4 packet to `10.99.0.2`. -/
def answer : List UInt8 := 0x45 :: (List.replicate 15 0 ++ [10, 99, 0, 2])

/-- It had a direct connection: the exit goes on sending there, in the state
direct, when the client has come back and listens on the relay. -/
theorem start_keeps_direct : ∃ tr e, (machine {}).Run tr e ∧ ∃ x ∈ tr,
    started x = some 7 ∧ (x.pre.es 0).suspended = true ∧
    x.post.sessions.lookup 7 = some 0 ∧ (x.post.es 0).suspended = false ∧
    (x.post.sess 0).m = .direct ∧ (x.post.sess 0).path ≠ relayPath 7 x.post.cur ∧
    ∃ r ∈ step {} x.post (.reply answer 0 true), r.2 = [.sent 0 (.peer 0) answer] := by
  obtain ⟨tr, e, hr, x, hx, hs, hpre, hp, hsus, hm, hsnd, hout⟩ := (machine {}).exists_run
    (comeBack [.beginChecks 0 true, .negotiated 0 true, .upgraded 0])
    (P := fun r => ∃ x ∈ r.1, started x = some 7 ∧ (x.pre.es 0).suspended = true ∧
      x.post.sessions.lookup 7 = some 0 ∧
      (x.post.es 0).suspended = false ∧ (x.post.sess 0).m = .direct ∧
      (x.post.sess 0).path.sender = some (.peer 0) ∧
      ∃ r ∈ step {} x.post (.reply answer 0 true), r.2 = [.sent 0 (.peer 0) answer])
    (by decide +kernel)
  refine ⟨tr, e, hr, x, hx, hs, hpre, hp, hsus, hm, ?_, hout⟩
  intro hpath
  rw [hpath] at hsnd
  cases hsnd

/-! ### In terms of the path state -/

/-- A connection that `runDirect` has read for `FallbackRelay` is `c`. -/
def DirectPC.Read (c : ℕ) : DirectPC → Prop
  | .falling k | .setting k | .fellBack k => k = c
  | _ => True

/-- Every session in the tables is bound to the current connection. -/
def Bound (e : State) : Prop := ∀ sid p, e.sessions.lookup sid = some p →
  e.ctx p = e.cur ∧ (e.run p).Read e.cur

/-- No `addSession` inserts a session it has made on an earlier connection. -/
def Prompt (x : Event State Action Out) : Prop :=
  ∀ k, x.act = .insert k → connAt x.pre x.act = some x.pre.cur

theorem Bound.exit (h : Bound e) {b : Exit.Action} {s' : Exit.State} {o' : List Exit.Out}
    (hb : shared b = true) (hs : Exit.step cfg.toConfig e.toState b = some (s', o')) :
    Bound { e with toState := s' } := by
  intro sid p hp
  by_cases hserve : b = .serve
  · subst hserve
    cases Exit.stepped_of_step hs
    cases hp
  · have hp : e.sessions.lookup sid = some p := by
      refine (touch_of_step hs).lookup_of ?_ hp
      rintro k rfl
      cases hb
    have hconns := conns_of_step hs
    rw [if_neg hserve] at hconns
    simp only [State.cur, hconns]
    exact h sid p hp

theorem Bound.insert (h : Bound e) (hf : e.Fresh) {k sid : ℕ} {clientIP : String}
    {ice : IceServers} {ip : Addr} {x : Opened} (hx : x.conn = e.cur) :
    Bound (insertOpened cfg e k sid clientIP ice ip x) := by
  intro i q hq
  change (e.sessions.insert sid e.next).lookup i = some q at hq
  rw [GoMap.lookup_set] at hq
  split_ifs at hq with hi
  · obtain rfl := Option.some.inj hq
    simp only [insertOpened, Function.update_self]
    refine ⟨hx, ?_⟩
    split <;> trivial
  · simp only [insertOpened, Function.update_of_ne (hf.ne_next hq)]
    exact h i q hq

theorem Hop.read {c sid : ℕ} {s s' : Session Sender} {pc pc' : DirectPC}
    (h : Hop c sid p s pc pc' s') (hm : s.m = pc.state) (hr : pc.Read c) : pc'.Read c := by
  cases h with
  | fires hev hfire =>
    cases hev with
    | directLost k => exact hr
    | _ => trivial
  | fails hev hfire =>
    rw [hm, hev.legal.1] at hfire
    cases hfire
  | curConn => rfl
  | fellBack k => exact hr
  | _ => trivial

theorem Bound.hop (h : Bound e) (hf : e.Fresh) (hpl : AllPlaced e) {s : Session Sender}
    {pc : DirectPC} (hop : Hop e.cur (e.es p).sid p (e.sess p) (e.run p) pc s) :
    Bound (e.move p s pc) := by
  intro sid q hq
  obtain ⟨hctx, hread⟩ := h sid q hq
  refine ⟨hctx, ?_⟩
  by_cases hqp : q = p
  · subst hqp
    simp only [State.move, Function.update_self]
    exact hop.read (hpl q (hf.below sid q hq)).state hread
  · simp only [State.move, Function.update_of_ne hqp]
    exact hread

theorem Bound.step (h : Bound e) (hf : e.Fresh) (hpl : AllPlaced e) (hs : Stepped cfg e a e')
    (hC : Prompt ⟨e, a, o, e'⟩) : Bound e' := by
  cases hs with
  | exit hb hs => exact h.exit hb hs
  | startRelay => exact h
  | @insert k _ _ _ _ x _ hx =>
    have hconn : (e.opened k).map Opened.conn = some e.cur := hC k rfl
    rw [hx] at hconn
    exact h.insert hf (Option.some.inj hconn)
  | hop hop => exact h.hop hf hpl hop
  | loop hop => exact h.hop hf hpl hop
  | reply => exact h
  | same => exact h

theorem bound_of_run (h : (machine cfg).Run tr e)
    (hC : ∀ x ∈ tr, Prompt x) : Bound e := by
  induction h with
  | nil => exact fun sid p hp => by cases hp
  | @snoc tr s s' a o hr hs ih =>
    obtain ⟨tr', hr'⟩ := exit_run hr
    have hb : Bound s := ih fun x hx => hC x (List.mem_append_left _ hx)
    have hlast : Prompt ⟨s, a, o, s'⟩ := hC _ (List.mem_append_right _ (List.mem_singleton_self _))
    exact hb.step (fresh_of_run hr').1 (placed_of_run hr).1 (stepped_of_step hs) hlast

/-- **Between the migrations of `runDirect`, a session in the tables has the
relay path of the current connection exactly if its state is relaying or
checking.** -/
theorem relays_iff_state (h : (machine cfg).Run tr e)
    (hC : ∀ x ∈ tr, Prompt x) {sid : ℕ} (hp : e.sessions.lookup sid = some p)
    (hup : e.run p ≠ .upgrading) (hset : ∀ k, e.run p ≠ .setting k) :
    (e.sess p).path = relayPath sid e.cur ↔ (e.sess p).m = .relaying ∨ (e.sess p).m = .checking := by
  obtain ⟨tr', hr'⟩ := exit_run h
  have hfresh := (fresh_of_run hr').1
  obtain ⟨hctx, hread⟩ := bound_of_run h hC sid p hp
  obtain ⟨hm, hpath⟩ := (placed_of_run h).1 p (hfresh.below sid p hp)
  rw [hm, hpath, hfresh.own sid p hp, pathOn_eq_relayPath, hctx]
  cases hpc : e.run p with
  | upgrading => exact absurd hpc hup
  | setting k => exact absurd hpc (hset k)
  | fellBack k =>
    rw [hpc] at hread
    simp [DirectPC.relayConn, DirectPC.state, show k = e.cur from hread]
  | _ => simp [DirectPC.relayConn, DirectPC.state]

end

end Paths
end Exit
end Revquic
