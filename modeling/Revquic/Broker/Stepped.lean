/-
# What a step can be

The handlers of the broker branch on a program counter, on a message and on
what they find in the maps. `Stepped` lists the branches of all of them, each
with what it requires, the state it leaves and what it puts out. Whatever a
step does to one part of the state is read off this list, without the
handlers.

Key definitions: `ClientStepped`, `ExitStepped`, `TimerStepped`,
`CtrlStepped`, `Stepped`.
Key theorems: `stepped_of_step`, `users_of_step`.
-/
import Revquic.Broker.Step

namespace Revquic
namespace Broker

open Lib Netip Ippool Proto

/-! ### The states after the longer branches -/

/-- The state after goroutine `c` has resumed session `p` at exit `ex`. -/
def resumeState (b : State) (c p ex : Conn) : State :=
  { (b.setClient c { b.client c with pc := .resumed, s := p, ex }) with
    timer := stopTimer b.timer (b.sess p).suspendTimer
    parked := b.parked.erase (b.client c).msg.resumeKey
    sess := Function.update b.sess p
      { b.sess p with
        suspended := false, clientConn := c, clientCW := c, exitConn := ex, exitCW := ex }
    sessions := b.sessions.insert (b.sess p).id p }

/-- The state after goroutine `c` has parked its session. -/
def parkState (cfg : Config) (b : State) (c : Conn) : State :=
  let t := b.client c
  let s := b.sess t.s
  { ((b.goto c .parked).addActive t.ex (-1)) with
    sessions := b.sessions.erase s.id
    parked := b.parked.insert s.resumeKey t.s
    sess := Function.update b.sess t.s
      { s with suspended := true, parkedAt := b.now, suspendTimer := some b.nextTimer }
    timer := Function.update b.timer b.nextTimer
      { pc := .armed, deadline := b.now + cfg.resumeTTL, resumeKey := s.resumeKey, sid := s.id }
    nextTimer := b.nextTimer + 1 }

/-- The state after goroutine `c` has torn its session down, on its way to
`pc`. -/
def closeState (b : State) (c : Conn) (pc : ClientPC) : State :=
  let t := b.client c
  let s := b.sess t.s
  { ((b.goto c pc).addActive t.ex (-1)) with
    sessions := b.sessions.erase s.id
    ipPool := b.ipPool.release s.clientAddr }

/-- The state after timer `k` has expired session `p`. -/
def expireState (b : State) (k : ℕ) (p : Conn) : State :=
  let t := b.timer k
  let s := b.sess p
  let ex := b.exits.lookup s.nodeID
  { (b.setTimer k { t with pc := if ex = none then .disconnect else .write, s := p, ex }) with
    parked := b.parked.erase t.resumeKey
    ipPool := b.ipPool.release s.clientAddr }

@[simp] theorem drawID_client (b : State) (c : Conn) :
    (drawID b c).client = Function.update b.client c
      { b.client c with pc := .numbered, sid := b.nextSession + 1 } := rfl

@[simp] theorem insertSession_client (b : State) (c : Conn) :
    (insertSession b c).client = Function.update b.client c
      { b.client c with pc := .inserted, s := c } := rfl

@[simp] theorem resumeState_client (b : State) (c p ex : Conn) :
    (resumeState b c p ex).client = Function.update b.client c
      { b.client c with pc := .resumed, s := p, ex } := rfl

@[simp] theorem parkState_client (cfg : Config) (b : State) (c : Conn) :
    (parkState cfg b c).client = Function.update b.client c { b.client c with pc := .parked } := rfl

@[simp] theorem closeState_client (b : State) (c : Conn) (pc : ClientPC) :
    (closeState b c pc).client = Function.update b.client c { b.client c with pc } := rfl

@[simp] theorem expireState_timer (b : State) (k : ℕ) (p : Conn) :
    (expireState b k p).timer = Function.update b.timer k { b.timer k with
      pc := if b.exits.lookup (b.sess p).nodeID = none then .disconnect else .write
      s := p
      ex := b.exits.lookup (b.sess p).nodeID } := rfl

/-- What `tryResume` has checked when it succeeds. -/
theorem tryResume_some {cfg : Config} {b b' : State} {key username : String} {c cw p ex : Conn}
    (h : tryResume cfg b key username c cw = some (p, ex, b')) :
    b.parked.lookup key = some p ∧ (b.sess p).username = username ∧
      (b.now : ℤ) - (b.sess p).parkedAt < cfg.resumeTTL ∧
      b.exits.lookup (b.sess p).nodeID = some ex ∧
      b' = { b with
        timer := stopTimer b.timer (b.sess p).suspendTimer
        parked := b.parked.erase key
        sess := Function.update b.sess p
          { b.sess p with
            suspended := false, clientConn := c, clientCW := cw, exitConn := ex, exitCW := ex }
        sessions := b.sessions.insert (b.sess p).id p } := by
  simp only [tryResume] at h
  split at h
  · cases h
  · rename_i p' hp
    split at h
    · cases h
    · rename_i hg
      split at h
      · cases h
      · rename_i ex' hx
        simp only [Option.some.injEq, Prod.mk.injEq] at h
        obtain ⟨rfl, rfl, rfl⟩ := h
        simp only [not_or, not_not, not_le] at hg
        exact ⟨hp, hg.1, hg.2, hx, rfl⟩

/-! ### The branches -/

/-- A step of a `handleClient` goroutine. -/
inductive ClientStepped (cfg : Config) (b : State) (c : Conn) (i : Input) : State → List Out → Prop
  | reject (e : String) (pc : (b.client c).pc = .auth) :
      ClientStepped cfg b c i
        (b.setClient c { b.client c with pc := .reply, reply := .error e }) []
  | accept (user : Userstore.User) (pc : (b.client c).pc = .auth) :
      ClientStepped cfg b c i (b.setClient c { b.client c with pc := .lock, user }) []
  | list (pc : (b.client c).pc = .lock) :
      ClientStepped cfg b c i
        (b.setClient c { b.client c with
          pc := .reply, reply := .exitList (exitList b (b.client c).msg.requestedRegion) }) []
  | resume (p ex : Conn) (pc : (b.client c).pc = .lock) (key : (b.client c).msg.resumeKey ≠ "")
      (found : b.parked.lookup (b.client c).msg.resumeKey = some p)
      (user : (b.sess p).username = (b.client c).user.username)
      (age : (b.now : ℤ) - (b.sess p).parkedAt < cfg.resumeTTL)
      (online : b.exits.lookup (b.sess p).nodeID = some ex)
      (listing : (b.client c).msg.listExits = false) :
      ClientStepped cfg b c i (resumeState b c p ex) []
  | refuse (rr : ℕ) (pc : (b.client c).pc = .lock)
      (chosen : chooseExit cfg b (b.client c).msg i.rnd = (none, rr)) :
      ClientStepped cfg b c i
        { (b.setClient c { b.client c with
          pc := .reply, reply := .error (noExitText (b.client c).msg) }) with rr } []
  | choose (ex : Conn) (rr : ℕ) (pc : (b.client c).pc = .lock)
      (chosen : chooseExit cfg b (b.client c).msg i.rnd = (some ex, rr)) :
      ClientStepped cfg b c i { (b.setClient c { b.client c with pc := .chosen, ex }) with rr } []
  | reply (pc : (b.client c).pc = .reply) :
      ClientStepped cfg b c i (b.goto c .done) (written i.ok c (b.client c).reply)
  | draw (pc : (b.client c).pc = .chosen) : ClientStepped cfg b c i (drawID b c) []
  | alloc (addr : Addr) (pool : Pool) (pc : (b.client c).pc = .numbered)
      (alloc : b.ipPool.allocate = .ok (addr, pool)) :
      ClientStepped cfg b c i
        { (b.setClient c { b.client c with pc := .allocated, clientAddr := addr }) with
          ipPool := pool } []
  | exhaust (pc : (b.client c).pc = .numbered)
      (alloc : b.ipPool.allocate = .error .exhausted) :
      ClientStepped cfg b c i
        (b.setClient c { b.client c with
          pc := .reply, reply := .error "exit address pool exhausted" }) []
  | insert (pc : (b.client c).pc = .allocated) : ClientStepped cfg b c i (insertSession b c) []
  | count (pc : (b.client c).pc = .inserted) :
      ClientStepped cfg b c i ((b.goto c .counted).addActive (b.client c).ex 1) []
  | connect (pc : (b.client c).pc = .counted) :
      ClientStepped cfg b c i
        { (b.goto c .start) with
          qos := b.qos.connect (toString (b.client c).sid) (b.node (b.client c).ex).nodeID
            (b.node (b.client c).ex).region (b.client c).user.username
            (b.sess (b.client c).s).startedAt b.now } []
  | recount (pc : (b.client c).pc = .resumed) :
      ClientStepped cfg b c i ((b.goto c .start).addActive (b.client c).ex 1) []
  | start (pc : (b.client c).pc = .start) :
      ClientStepped cfg b c i
        (b.setClient c { b.client c with
          pc := if i.ok then .connectOK else .startFailed
          ice := iceServers cfg b (b.sess (b.client c).s).id })
        (written i.ok (b.client c).ex (sessionStartMsg (b.sess (b.client c).s)
          (iceServers cfg b (b.sess (b.client c).s).id)))
  | startFailed (pc : (b.client c).pc = .startFailed) :
      ClientStepped cfg b c i (b.goto c .ending) (written i.ok c (.error "exit unavailable"))
  | connectOK (pc : (b.client c).pc = .connectOK) :
      ClientStepped cfg b c i (b.goto c .started)
        (written i.ok c (connectOKMsg (b.sess (b.client c).s) (b.client c).ice))
  | started (pc : (b.client c).pc = .started) :
      ClientStepped cfg b c i (b.setClient c { b.client c with pc := .relay, reading := true })
        [.publish (.sessionStarted (b.sess (b.client c).s).id (b.sess (b.client c).s).nodeID)]
  | vanish (pc : (b.client c).pc = .dropped ∨ (b.client c).pc = .ending)
      (found : b.sessions.lookup (b.sess (b.client c).s).id = none) :
      ClientStepped cfg b c i (b.goto c .done) []
  | park (q : Conn) (pc : (b.client c).pc = .dropped)
      (found : b.sessions.lookup (b.sess (b.client c).s).id = some q)
      (drop : (b.client c).intentional = false)
      (key : (b.sess (b.client c).s).resumeKey ≠ "") (ttl : 0 < cfg.resumeTTL) :
      ClientStepped cfg b c i (parkState cfg b c) []
  | close (q : Conn) (pc' : ClientPC)
      (pc : (b.client c).pc = .dropped ∧ pc' = .closed ∨ (b.client c).pc = .ending ∧ pc' = .ended)
      (found : b.sessions.lookup (b.sess (b.client c).s).id = some q) :
      ClientStepped cfg b c i (closeState b c pc')
        [.release (b.client c).s (b.sess (b.client c).s).clientAddr]
  | suspend (pc : (b.client c).pc = .parked) :
      ClientStepped cfg b c i (b.goto c .done)
        (written i.ok (b.client c).ex (.sessionSuspend (b.sess (b.client c).s).id))
  | finish (pc' : ClientPC)
      (pc : (b.client c).pc = .ended ∧ pc' = .done ∨ (b.client c).pc = .closed ∧ pc' = .disconnect) :
      ClientStepped cfg b c i (b.goto c pc')
        (written i.ok (b.client c).ex (.sessionEnd (b.sess (b.client c).s).id))
  | disconnect (pc : (b.client c).pc = .disconnect) :
      ClientStepped cfg b c i
        { (b.goto c .publishEnd) with
          qos := b.qos.disconnect (toString (b.sess (b.client c).s).id) b.now } []
  | bye (pc : (b.client c).pc = .publishEnd) :
      ClientStepped cfg b c i (b.goto c .done)
        [.publish (.sessionEnded (b.sess (b.client c).s).id (b.sess (b.client c).s).nodeID)]

/-- A step of a `handleExit` goroutine, its control loop aside. -/
inductive ExitStepped (b : State) (c : Conn) (ok : Bool) : State → List Out → Prop
  | refuse (pc : (b.exitT c).pc = .refuse) :
      ExitStepped b c ok (b.gotoExit c .done) (written ok c (.error "bad node token"))
  | welcome (pc : (b.exitT c).pc = .welcome) :
      ExitStepped b c ok (b.gotoExit c .nodeUp) (written ok c .registerOK)
  | up (pc : (b.exitT c).pc = .nodeUp) :
      ExitStepped b c ok
        { (b.gotoExit c .announce) with
          qos := b.qos.nodeUp (b.node c).nodeID (b.node c).region (b.node c).connectedAt b.now } []
  | announce (pc : (b.exitT c).pc = .announce) :
      ExitStepped b c ok
        (b.setExit c { b.exitT c with pc := .publishUp, activeUsers := (b.node c).active }) []
  | publishUp (pc : (b.exitT c).pc = .publishUp) :
      ExitStepped b c ok (b.setExit c { b.exitT c with pc := .loop, relaying := true })
        [.publish (.nodeConnected (b.node c).nodeID (b.exitT c).activeUsers)]
  | publishUpdate (pc : (b.exitT c).pc = .publishUpdate) :
      ExitStepped b c ok (b.gotoExit c .loop)
        [.publish (.nodeUpdated (b.node c).nodeID (b.exitT c).activeUsers)]
  | gone (pc : (b.exitT c).pc = .gone) :
      ExitStepped b c ok
        { (b.gotoExit c .nodeDown) with exits := b.exits.erase (b.node c).nodeID } []
  | down (pc : (b.exitT c).pc = .nodeDown) :
      ExitStepped b c ok
        { (b.gotoExit c .publishGone) with qos := b.qos.nodeDown (b.node c).nodeID b.now } []
  | publishGone (pc : (b.exitT c).pc = .publishGone) :
      ExitStepped b c ok (b.gotoExit c .scan) [.publish (.nodeDisconnected (b.node c).nodeID)]
  | scan (pc : (b.exitT c).pc = .scan) :
      ExitStepped b c ok
        (b.setExit c { b.exitT c with
          pc := if affectedBy b c = [] then .done else .notify, affected := affectedBy b c }) []
  | notify (p : Conn) (rest : List Conn) (pc : (b.exitT c).pc = .notify)
      (affected : (b.exitT c).affected = p :: rest) :
      ExitStepped b c ok (b.gotoExit c .close)
        (written ok (b.sess p).clientCW (.error (exitDownText (b.node c).nodeID)))
  | close (p : Conn) (rest : List Conn) (pc : (b.exitT c).pc = .close)
      (affected : (b.exitT c).affected = p :: rest) :
      ExitStepped b c ok
        (b.setExit c { b.exitT c with
          pc := if rest = [] then .done else .notify, affected := rest })
        [.close (b.sess p).clientConn]

/-- A step of a fired timer's callback. -/
inductive TimerStepped (b : State) (k : ℕ) (ok : Bool) : State → List Out → Prop
  | miss (pc : (b.timer k).pc = .fired) : TimerStepped b k ok (b.gotoTimer k .done) []
  | expire (p : Conn) (pc : (b.timer k).pc = .fired)
      (found : b.parked.lookup (b.timer k).resumeKey = some p)
      (id : (b.sess p).id = (b.timer k).sid) (suspended : (b.sess p).suspended = true) :
      TimerStepped b k ok (expireState b k p) [.release p (b.sess p).clientAddr]
  | write (pc : (b.timer k).pc = .write) :
      TimerStepped b k ok (b.gotoTimer k .disconnect)
        (match (b.timer k).ex with
          | none => []
          | some ex => written ok ex (.sessionEnd (b.timer k).sid))
  | disconnect (pc : (b.timer k).pc = .disconnect) :
      TimerStepped b k ok
        { (b.gotoTimer k .publishEnd) with
          qos := b.qos.disconnect (toString (b.timer k).sid) b.now } []
  | bye (pc : (b.timer k).pc = .publishEnd) :
      TimerStepped b k ok (b.gotoTimer k .done)
        [.publish (.sessionEnded (b.timer k).sid (b.sess (b.timer k).s).nodeID)]

/-- A control loop reads a message from `c`; `route` says where it sends the
signals of a session. -/
inductive CtrlStepped (b : State) (c : Conn) (ok : Bool) (route : ℕ → Option Conn) :
    Control → State → List Out → Prop
  | forward (dst : Conn) (sid : ℕ) (signal : List UInt8) (nonce : String)
      (routed : route sid = some dst) :
      CtrlStepped b c ok route (.signal sid signal nonce) b (written ok dst (.signal sid signal nonce))
  | report (sid : ℕ) (r : Qos.Report) :
      CtrlStepped b c ok route (.report sid r)
        { b with qos := b.qos.report (toString sid) r b.now } []
  | ping (sid : ℕ) (ts : ℤ) : CtrlStepped b c ok route (.ping sid ts) b (written ok c (.pong sid ts))
  | ignore (m : Control) (other : ∀ sid r, m ≠ .report sid r) : CtrlStepped b c ok route m b []

/-- The client of a session. -/
def State.clientOf (b : State) (sid : ℕ) : Option Conn :=
  (b.sessions.lookup sid).map fun p => (b.sess p).clientCW

/-- A step of the broker or its environment. -/
inductive Stepped (cfg : Config) (b : State) : Action → State → List Out → Prop
  | tick (d : ℕ) : Stepped cfg b (.tick d) { b with now := b.now + d } []
  | users (t : Userstore.Table) : Stepped cfg b (.users t) { b with users := t } []
  | connect (c : Conn) (msg : Connect) (unused : b.unused c) :
      Stepped cfg b (.connect c msg) (b.setClient c { pc := .auth, msg }) []
  | client (c : Conn) (i : Input) {b' : State} {o : List Out} (step : ClientStepped cfg b c i b' o) :
      Stepped cfg b (.client c i) b' o
  | drop (c : Conn) (cause : Cause) (pc : (b.client c).pc = .relay) :
      Stepped cfg b (.drop c cause)
        (b.setClient c
          { b.client c with pc := .dropped, intentional := clientClosedIntentionally cause }) []
  | clientCtrl (c : Conn) (m : Control) (ok : Bool) {b' : State} {o : List Out}
      (reading : (b.client c).reading = true)
      (step : CtrlStepped b c ok (fun _ => some (b.client c).ex) m b' o) :
      Stepped cfg b (.clientCtrl c m ok) b' o
  | register (c : Conn) (msg : Register) (unused : b.unused c) :
      Stepped cfg b (.register c msg) (handleExit cfg b c msg) []
  | exit (c : Conn) (ok : Bool) {b' : State} {o : List Out} (step : ExitStepped b c ok b' o) :
      Stepped cfg b (.exit c ok) b' o
  | exitCtrl (c : Conn) (m : Control) (ok : Bool) {b' : State} {o : List Out}
      (pc : (b.exitT c).pc = .loop) (step : CtrlStepped b c ok b.clientOf m b' o) :
      Stepped cfg b (.exitCtrl c m ok) b' o
  | status (c : Conn) (cpuPct memPct diskPct : ℚ) (ok : Bool) (pc : (b.exitT c).pc = .loop) :
      Stepped cfg b (.exitCtrl c (.nodeStatus cpuPct memPct diskPct) ok)
        (b.setExit c { b.exitT c with pc := .publishUpdate, activeUsers := (b.node c).active }) []
  | exitGone (c : Conn) (pc : (b.exitT c).pc = .loop) :
      Stepped cfg b (.exitGone c) (b.gotoExit c .gone) []
  | relay (c : Conn) (dg : List UInt8) (sid : ℕ) (pkt : List UInt8) (p : Conn) (relays : b.relays c)
      (read : decodeDatagram dg = some (sid, pkt)) (found : b.sessions.lookup sid = some p) :
      Stepped cfg b (.datagram c dg)
        { b with
          qos := b.qos.addBytes (toString sid) (c ≠ (b.sess p).exitConn) pkt.length b.now }
        [.dgram c (if c = (b.sess p).exitConn then (b.sess p).clientConn else (b.sess p).exitConn) dg]
  | lose (c : Conn) (dg : List UInt8) (relays : b.relays c)
      (unknown : ∀ sid pkt, decodeDatagram dg = some (sid, pkt) → b.sessions.lookup sid = none) :
      Stepped cfg b (.datagram c dg) b []
  | fire (k : ℕ) (armed : (b.timer k).pc = .armed) (due : (b.timer k).deadline ≤ b.now) :
      Stepped cfg b (.fire k) (b.gotoTimer k .fired) []
  | timer (k : ℕ) (ok : Bool) {b' : State} {o : List Out} (step : TimerStepped b k ok b' o) :
      Stepped cfg b (.timer k ok) b' o

/-! ### Every step is one of them -/

section
variable {cfg : Config} {b b' : State} {a : Action} {c : Conn} {o : List Out}

theorem stepped_of_authenticate {i : Input} (hpc : (b.client c).pc = .auth) :
    ClientStepped cfg b c i (authenticate cfg b c i.oidc) [] := by
  simp only [authenticate]
  split
  · rename_i e _
    exact .reject e hpc
  · rename_i user _
    exact .accept user hpc

theorem stepped_of_admitClient {i : Input} (hpc : (b.client c).pc = .lock) :
    ClientStepped cfg b c i (admitClient cfg b c i.rnd) [] := by
  simp only [admitClient]
  split
  · exact .list hpc
  · rename_i hlist
    split
    · rename_i p ex b₁ hr
      split at hr
      · rename_i hk
        obtain ⟨hp, hu, ht, hx, rfl⟩ := tryResume_some hr
        exact .resume p ex hpc hk hp hu ht hx (Bool.eq_false_iff.mpr hlist)
      · cases hr
    · split
      · rename_i rr hc
        exact .refuse rr hpc hc
      · rename_i ex rr hc
        exact .choose ex rr hpc hc

theorem stepped_of_clientStep {i : Input} (h : clientStep cfg b c i = some (b', o)) :
    ClientStepped cfg b c i b' o := by
  unfold clientStep at h
  cases hpc : (b.client c).pc <;> simp only [hpc] at h
  case auth => cases h; exact stepped_of_authenticate hpc
  case lock => cases h; exact stepped_of_admitClient hpc
  case reply => cases h; exact .reply hpc
  case chosen => cases h; exact .draw hpc
  case numbered =>
    simp only [allocate] at h
    split at h
    · rename_i addr pool ha
      cases h
      exact .alloc addr pool hpc ha
    · rename_i ha
      cases h
      exact .exhaust hpc ha
    · cases h
  case allocated => cases h; exact .insert hpc
  case inserted => cases h; exact .count hpc
  case counted => cases h; exact .connect hpc
  case resumed => cases h; exact .recount hpc
  case start => cases h; exact .start hpc
  case startFailed => cases h; exact .startFailed hpc
  case connectOK => cases h; exact .connectOK hpc
  case started => cases h; exact .started hpc
  case ending =>
    simp only [Option.some.injEq, endSession] at h
    split at h
    · rename_i hs
      cases h
      exact .vanish (Or.inr hpc) hs
    · rename_i q hs
      cases h
      exact .close q .ended (Or.inr ⟨hpc, rfl⟩) hs
  case dropped =>
    simp only [Option.some.injEq, suspendSession] at h
    split at h
    · rename_i hs
      cases h
      exact .vanish (Or.inl hpc) hs
    · rename_i q hs
      split at h
      · rename_i hg
        cases h
        simp only [Bool.not_eq_true'] at hg
        exact .park q hpc hs hg.1 hg.2.1 hg.2.2
      · cases h
        exact .close q .closed (Or.inl ⟨hpc, rfl⟩) hs
  case parked => cases h; exact .suspend hpc
  case ended => cases h; exact .finish .done (Or.inl ⟨hpc, rfl⟩)
  case closed => cases h; exact .finish .disconnect (Or.inr ⟨hpc, rfl⟩)
  case disconnect => cases h; exact .disconnect hpc
  case publishEnd => cases h; exact .bye hpc
  all_goals cases h

theorem stepped_of_exitStep {ok : Bool} (h : exitStep b c ok = some (b', o)) :
    ExitStepped b c ok b' o := by
  unfold exitStep at h
  cases hpc : (b.exitT c).pc <;> simp only [hpc] at h
  case refuse => cases h; exact .refuse hpc
  case welcome => cases h; exact .welcome hpc
  case nodeUp => cases h; exact .up hpc
  case announce => cases h; exact .announce hpc
  case publishUp => cases h; exact .publishUp hpc
  case publishUpdate => cases h; exact .publishUpdate hpc
  case gone => cases h; exact .gone hpc
  case nodeDown => cases h; exact .down hpc
  case publishGone => cases h; exact .publishGone hpc
  case scan => cases h; exact .scan hpc
  case notify =>
    split at h
    · cases h
    · rename_i p rest ha
      cases h
      exact .notify p rest hpc ha
  case close =>
    split at h
    · cases h
    · rename_i p rest ha
      cases h
      exact .close p rest hpc ha
  all_goals cases h

theorem stepped_of_timerStep {k : ℕ} {ok : Bool} (h : timerStep b k ok = some (b', o)) :
    TimerStepped b k ok b' o := by
  unfold timerStep at h
  cases hpc : (b.timer k).pc <;> simp only [hpc] at h
  case fired =>
    simp only [Option.some.injEq, expirePark] at h
    split at h
    · cases h
      exact .miss hpc
    · rename_i p hp
      split at h
      · cases h
        exact .miss hpc
      · rename_i hg
        cases h
        simp only [not_or, not_not, Bool.not_eq_true, Bool.not_eq_false'] at hg
        exact .expire p hpc hp hg.1 hg.2
  case write => cases h; exact .write hpc
  case disconnect => cases h; exact .disconnect hpc
  case publishEnd => cases h; exact .bye hpc
  all_goals cases h

theorem stepped_of_clientCtrl {m : Control} {ok : Bool} (h : clientCtrl b c m ok = (b', o)) :
    CtrlStepped b c ok (fun _ => some (b.client c).ex) m b' o := by
  unfold clientCtrl at h
  split at h <;> cases h
  · exact .forward _ _ _ _ rfl
  · exact .report _ _
  · exact .ping _ _
  · rename_i hreport _
    exact .ignore m hreport

/-- A status report apart, an exit is heard as a client is. -/
theorem stepped_of_exitCtrl {m : Control} {ok : Bool} (h : exitCtrl b c m ok = (b', o)) :
    CtrlStepped b c ok b.clientOf m b' o ∨ ∃ cpuPct memPct diskPct,
      m = .nodeStatus cpuPct memPct diskPct ∧ o = [] ∧
        b' = b.setExit c { b.exitT c with pc := .publishUpdate, activeUsers := (b.node c).active } := by
  unfold exitCtrl at h
  split at h
  · rename_i sid signal nonce
    split at h
    · cases h
      exact Or.inl (.ignore _ (by simp))
    · rename_i p hp
      cases h
      exact Or.inl (.forward _ sid signal nonce (by rw [State.clientOf, hp]; rfl))
  · cases h
    exact Or.inl (.report _ _)
  · cases h
    exact Or.inl (.ping _ _)
  · cases h
    exact Or.inr ⟨_, _, _, rfl, rfl, rfl⟩
  · rename_i hreport _ _
    cases h
    exact Or.inl (.ignore m hreport)

theorem stepped_of_relayDatagram {dg : List UInt8} (hr : b.relays c)
    (h : relayDatagram b c dg = (b', o)) : Stepped cfg b (.datagram c dg) b' o := by
  unfold relayDatagram at h
  split at h
  · rename_i hd
    cases h
    exact .lose c dg hr (by simp [hd])
  · rename_i sid pkt hd
    split at h
    · rename_i hs
      cases h
      exact .lose c dg hr (by simp [hd, hs])
    · rename_i p hp
      cases h
      exact .relay c dg sid pkt p hr hd hp

/-- **Every step is one of these.** -/
theorem stepped_of_step (h : step cfg b a = some (b', o)) : Stepped cfg b a b' o := by
  cases a with
  | tick d => cases h; exact .tick d
  | users t => cases h; exact .users t
  | connect c msg =>
    simp only [step] at h
    split_ifs at h with hu
    cases h
    exact .connect c msg hu
  | client c i => exact .client c i (stepped_of_clientStep h)
  | drop c cause =>
    simp only [step] at h
    split_ifs at h with hpc
    cases h
    exact .drop c cause hpc
  | clientCtrl c m ok =>
    simp only [step] at h
    split_ifs at h with hread
    exact .clientCtrl c m ok hread (stepped_of_clientCtrl (Option.some.inj h))
  | register c msg =>
    simp only [step] at h
    split_ifs at h with hu
    cases h
    exact .register c msg hu
  | exit c ok => exact .exit c ok (stepped_of_exitStep h)
  | exitCtrl c m ok =>
    simp only [step] at h
    split_ifs at h with hpc
    rcases stepped_of_exitCtrl (Option.some.inj h) with hh | ⟨x, y, z, rfl, rfl, rfl⟩
    · exact .exitCtrl c m ok hpc hh
    · exact .status c x y z ok hpc
  | exitGone c =>
    simp only [step] at h
    split_ifs at h with hpc
    cases h
    exact .exitGone c hpc
  | datagram c dg =>
    simp only [step] at h
    split_ifs at h with hr
    exact stepped_of_relayDatagram hr (Option.some.inj h)
  | fire k =>
    simp only [step] at h
    split_ifs at h with hk
    cases h
    exact .fire k hk.1 hk.2
  | timer k ok => exact .timer k ok (stepped_of_timerStep h)

/-- The goroutines only read the user store. -/
theorem users_of_step (h : step cfg b a = some (b', o)) (ha : ∀ t, a ≠ .users t) :
    b'.users = b.users := by
  cases stepped_of_step h with
  | users t => exact absurd rfl (ha t)
  | client c i step | clientCtrl c m ok reading step | exitCtrl c m ok pc step | exit c ok step
  | timer k ok step => cases step <;> rfl
  | register c msg =>
    unfold handleExit
    split <;> rfl
  | _ => rfl

end
end Broker
end Revquic
