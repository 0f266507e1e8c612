/-
# The registry of exits

`b.exits` maps a node id to its registration. Several registrations of one
node id can be served at once: an exit that reconnects is registered again
while the broker still waits on its old connection. `RegMove` lists what a
step can do to the registry, the `handleExit` goroutines and the nodes the
tracker lists.

Key definitions: `ExitPC.live`, `RegMove`, `Reg`, `ExitView`.
Key theorem: `step_regMove`.
-/
import Revquic.Broker.Moves

namespace Revquic
namespace Broker

open Lib Netip Ippool Proto

/-- The registration's control loop has not ended. -/
def ExitPC.live : ExitPC → Bool
  | .welcome | .nodeUp | .announce | .publishUp | .loop | .publishUpdate => true
  | _ => false

/-- The tracker has been told of the registration and it is live. -/
def ExitPC.up : ExitPC → Bool
  | .announce | .publishUp | .loop | .publishUpdate => true
  | _ => false

/-- The goroutine has registered its exit and not returned. -/
def ExitPC.registered : ExitPC → Bool
  | .idle | .refuse | .done => false
  | _ => true

/-- The steps of `handleExit` that change nothing but where it stands. -/
def ExitPC.walks : ExitPC → ExitPC → Bool
  | .refuse, .done | .welcome, .nodeUp | .announce, .publishUp | .publishUp, .loop
  | .loop, .publishUpdate | .publishUpdate, .loop | .loop, .gone | .publishGone, .scan
  | .notify, .close => true
  | _, _ => false

/-- The registry is the same; the registrations' load counters may differ. -/
structure SameRegistry (b b' : State) : Prop where
  exits : b'.exits = b.exits
  regs : b'.regs = b.regs
  exitT : b'.exitT = b.exitT
  info : ∀ c, b'.node c = { b.node c with active := (b'.node c).active }
  listed : ∀ n, n ∈ b'.qos.exits ↔ n ∈ b.qos.exits

/-- No connection is closed. -/
def NoClose (o : List Out) : Prop := ∀ c, Out.close c ∉ o

/-- Everything a step can do to the registry. -/
inductive RegMove (cfg : Config) (b : State) : Action → State → List Out → Prop
  /-- Nothing. -/
  | same {a : Action} {b' : State} {o : List Out} (reg : SameRegistry b b') (quiet : NoClose o) :
      RegMove cfg b a b' o
  /-- A registration with a bad token. -/
  | refuse (c : Conn) (msg : Register) (unused : b.unused c) (token : msg.token ≠ cfg.nodeSecret) :
      RegMove cfg b (.register c msg) (handleExit cfg b c msg) []
  /-- A registration. -/
  | register (c : Conn) (msg : Register) (unused : b.unused c) (token : msg.token = cfg.nodeSecret) :
      RegMove cfg b (.register c msg) (handleExit cfg b c msg) []
  /-- A `handleExit` goroutine moves on. -/
  | walk {a : Action} {b' : State} {o : List Out} (c : Conn) (t' : ExitThread)
      (walks : (b.exitT c).pc.walks t'.pc = true) (affected : t'.affected = (b.exitT c).affected)
      (exits : b'.exits = b.exits) (regs : b'.regs = b.regs) (node : b'.node = b.node)
      (exitT : b'.exitT = Function.update b.exitT c t') (qos : b'.qos = b.qos)
      (quiet : NoClose o) (gone : t'.pc = .gone → a = .exitGone c) : RegMove cfg b a b' o
  /-- `NodeUp`. -/
  | up (c : Conn) (ok : Bool) (pc : (b.exitT c).pc = .nodeUp) :
      RegMove cfg b (.exit c ok) { (b.gotoExit c .announce) with
        qos := b.qos.nodeUp (b.node c).nodeID (b.node c).region (b.node c).connectedAt b.now } []
  /-- The node id is deleted from `b.exits`. -/
  | delete (c : Conn) (ok : Bool) (pc : (b.exitT c).pc = .gone) :
      RegMove cfg b (.exit c ok)
        { (b.gotoExit c .nodeDown) with exits := b.exits.erase (b.node c).nodeID } []
  /-- `NodeDown`. -/
  | down (c : Conn) (ok : Bool) (pc : (b.exitT c).pc = .nodeDown) :
      RegMove cfg b (.exit c ok)
        { (b.gotoExit c .publishGone) with qos := b.qos.nodeDown (b.node c).nodeID b.now } []
  /-- `failExit` collects the sessions of the node id. -/
  | scan (c : Conn) (ok : Bool) (pc : (b.exitT c).pc = .scan) :
      RegMove cfg b (.exit c ok)
        (b.setExit c { b.exitT c with
          pc := if affectedBy b c = [] then .done else .notify, affected := affectedBy b c }) []
  /-- `failExit` closes the client connection of one of them. -/
  | close (c : Conn) (ok : Bool) (p : Conn) (rest : List Conn) (pc : (b.exitT c).pc = .close)
      (affected : (b.exitT c).affected = p :: rest) :
      RegMove cfg b (.exit c ok)
        (b.setExit c { b.exitT c with
          pc := if rest = [] then .done else .notify, affected := rest })
        [.close (b.sess p).clientConn]

/-! ### Every step is one of these -/

@[simp] theorem noClose_nil : NoClose [] := fun _ => by simp

@[simp] theorem noClose_written (ok : Bool) (dst : Conn) (m : Control) :
    NoClose (written ok dst m) := by
  intro c
  cases ok <;> simp [written]

@[simp] theorem noClose_publish (ev : BusEvent) : NoClose [.publish ev] := fun _ => by simp

@[simp] theorem noClose_release (p : Conn) (a : Addr) : NoClose [.release p a] := fun _ => by simp

@[simp] theorem noClose_dgram (c d : Conn) (dg : List UInt8) : NoClose [.dgram c d dg] :=
  fun _ => by simp

section
variable {cfg : Config} {b b' : State} {a : Action} {c : Conn} {o : List Out}

theorem SameRegistry.of_qos (exits : b'.exits = b.exits) (regs : b'.regs = b.regs)
    (exitT : b'.exitT = b.exitT) (node : b'.node = b.node)
    (listed : ∀ n, n ∈ b'.qos.exits ↔ n ∈ b.qos.exits) : SameRegistry b b' :=
  ⟨exits, regs, exitT, fun c => by rw [node], listed⟩

/-- Only a load counter changes. -/
theorem SameRegistry.addActive {ex : Conn} {d : ℤ} (exits : b'.exits = b.exits)
    (regs : b'.regs = b.regs) (exitT : b'.exitT = b.exitT)
    (node : b'.node = (b.addActive ex d).node) (qos : b'.qos = b.qos) : SameRegistry b b' := by
  refine ⟨exits, regs, exitT, fun c => ?_, fun n => by rw [qos]⟩
  rw [node, State.addActive]
  rcases eq_or_ne c ex with rfl | hc
  · simp
  · simp [hc]

theorem RegMove.set {t' : ExitThread} {pc : ExitPC} (hpc : (b.exitT c).pc = pc) (quiet : NoClose o)
    (walks : pc.walks t'.pc = true) (affected : t'.affected = (b.exitT c).affected)
    (gone : t'.pc = .gone → a = .exitGone c) : RegMove cfg b a (b.setExit c t') o :=
  .walk c t' (by rw [hpc]; exact walks) affected rfl rfl rfl rfl rfl quiet gone

/-- Neither the registry nor the tracker changes. -/
theorem RegMove.still (exits : b'.exits = b.exits) (regs : b'.regs = b.regs)
    (exitT : b'.exitT = b.exitT) (node : b'.node = b.node) (qos : b'.qos = b.qos)
    (quiet : NoClose o) : RegMove cfg b a b' o :=
  .same (.of_qos exits regs exitT node fun _ => by rw [qos]) quiet

theorem ExitStepped.regMove {ok : Bool} (h : ExitStepped b c ok b' o) :
    RegMove cfg b (.exit c ok) b' o := by
  cases h with
  | refuse pc | welcome pc | notify p rest pc => exact .set pc (noClose_written _ _ _) rfl rfl nofun
  | up pc => exact .up c ok pc
  | announce pc => exact .set pc noClose_nil rfl rfl nofun
  | publishUp pc | publishUpdate pc | publishGone pc =>
    exact .set pc (noClose_publish _) rfl rfl nofun
  | gone pc => exact .delete c ok pc
  | down pc => exact .down c ok pc
  | scan pc => exact .scan c ok pc
  | close p rest pc affected => exact .close c ok p rest pc affected

theorem CtrlStepped.regMove {ok : Bool} {route : ℕ → Option Conn} {m : Control}
    (h : CtrlStepped b c ok route m b' o) : RegMove cfg b a b' o := by
  cases h with
  | report =>
    exact .same (.of_qos rfl rfl rfl rfl fun _ => Qos.Tracker.mem_report) noClose_nil
  | forward | ping | ignore => exact .still rfl rfl rfl rfl rfl (by simp)

theorem TimerStepped.regMove {k : ℕ} {ok : Bool} (h : TimerStepped b k ok b' o) :
    RegMove cfg b a b' o := by
  cases h with
  | write =>
    refine .still rfl rfl rfl rfl rfl ?_
    split
    · exact noClose_nil
    · exact noClose_written _ _ _
  | disconnect =>
    exact .same (.of_qos rfl rfl rfl rfl fun _ => Qos.Tracker.mem_disconnect) noClose_nil
  | miss | expire | bye => exact .still rfl rfl rfl rfl rfl (by simp)

theorem ClientStepped.regMove {i : Input} (h : ClientStepped cfg b c i b' o) :
    RegMove cfg b a b' o := by
  cases h with
  | connect =>
    exact .same (.of_qos rfl rfl rfl rfl fun _ => Qos.Tracker.mem_connect) noClose_nil
  | disconnect =>
    exact .same (.of_qos rfl rfl rfl rfl fun _ => Qos.Tracker.mem_disconnect) noClose_nil
  | count | recount | park | close => exact .same (.addActive rfl rfl rfl rfl rfl) (by simp)
  | _ => exact .still rfl rfl rfl rfl rfl (by simp)

/-- **What a step can do to the registry.** -/
theorem step_regMove (h : step cfg b a = some (b', o)) : RegMove cfg b a b' o := by
  cases stepped_of_step h with
  | client c i step | clientCtrl c m ok _ step | exit c ok step | exitCtrl c m ok _ step
  | timer k ok step => exact step.regMove
  | register c msg unused =>
    by_cases ht : msg.token = cfg.nodeSecret
    · exact .register c msg unused ht
    · exact .refuse c msg unused ht
  | status c _ _ _ ok pc => exact .set pc noClose_nil rfl rfl nofun
  | exitGone c pc => exact .set pc noClose_nil rfl rfl fun _ => rfl
  | relay =>
    exact .same (.of_qos rfl rfl rfl rfl fun _ => Qos.Tracker.mem_addBytes) (noClose_dgram _ _ _)
  | tick | users | connect | drop | lose | fire =>
    exact .still rfl rfl rfl rfl rfl (by simp)

/-! ### The registry invariant -/

/-- A connection is a client's or an exit's, and `b.exits` maps a node id to
a registration of it. -/
structure Reg (b : State) : Prop where
  kinds : ∀ c, (b.client c).pc = .idle ∨ (b.exitT c).pc = .idle
  served : ∀ c ∈ b.regs, (b.exitT c).pc ≠ .idle
  known : ∀ c, (b.exitT c).pc.registered = true → c ∈ b.regs
  exits : ∀ n r, b.exits.lookup n = some r → r ∈ b.regs ∧ (b.node r).nodeID = n

theorem ExitPC.walks_not_idle {pc pc' : ExitPC} (h : pc.walks pc' = true) :
    pc ≠ .idle ∧ pc' ≠ .idle := by
  constructor
  · rintro rfl; cases h
  · rintro rfl; cases pc <;> cases h

theorem handleExit_exitT_of_ne {msg : Register} {d : Conn} (hd : d ≠ c) :
    (handleExit cfg b c msg).exitT d = b.exitT d := by
  unfold handleExit
  split <;> exact Function.update_of_ne hd _ _

theorem handleExit_register {msg : Register} (ht : msg.token = cfg.nodeSecret) :
    (handleExit cfg b c msg).regs = c :: b.regs ∧
      (handleExit cfg b c msg).exits = b.exits.insert msg.nodeID c ∧
      ((handleExit cfg b c msg).exitT c).pc = .welcome ∧
      ((handleExit cfg b c msg).node c).nodeID = msg.nodeID ∧
      ∀ d, d ≠ c → (handleExit cfg b c msg).node d = b.node d := by
  unfold handleExit
  rw [if_neg (not_not.mpr ht)]
  refine ⟨rfl, rfl, ?_, ?_, fun d hd => Function.update_of_ne hd _ _⟩
  · simp
  · simp

theorem handleExit_node_of_ne {msg : Register} {d : Conn} (hd : d ≠ c) :
    (handleExit cfg b c msg).node d = b.node d := by
  unfold handleExit
  split
  · rfl
  · exact Function.update_of_ne hd _ _

/-- A registration starts with no sessions. -/
theorem handleExit_active {msg : Register} (ht : msg.token = cfg.nodeSecret) :
    ((handleExit cfg b c msg).node c).active = 0 := by
  unfold handleExit
  rw [if_neg (not_not.mpr ht)]
  simp

theorem handleExit_refuse {msg : Register} (ht : msg.token ≠ cfg.nodeSecret) :
    handleExit cfg b c msg = b.gotoExit c .refuse := by
  unfold handleExit
  rw [if_pos ht]

/-- Registrations stay, with their node id. -/
theorem RegMove.regs (hm : RegMove cfg b a b' o) :
    (b'.regs = b.regs ∧ ∀ c, (b'.node c).nodeID = (b.node c).nodeID) ∨
      ∃ c msg, b' = handleExit cfg b c msg ∧ b.unused c ∧ msg.token = cfg.nodeSecret := by
  cases hm with
  | same reg =>
    refine Or.inl ⟨reg.regs, fun c => ?_⟩
    rw [reg.info]
  | refuse c msg _ ht => exact Or.inl ⟨by rw [handleExit_refuse ht]; rfl, by rw [handleExit_refuse ht]; exact fun _ => rfl⟩
  | register c msg hu ht => exact Or.inr ⟨c, msg, rfl, hu, ht⟩
  | walk c t' _ _ _ regs node => exact Or.inl ⟨regs, fun c => by rw [node]⟩
  | _ => exact Or.inl ⟨rfl, fun _ => rfl⟩

/-! ### One exit goroutine -/

/-- What a step does to the `handleExit` goroutine of connection `r`. -/
inductive ExitView (b : State) (r : Conn) (a : Action) (b' : State) (o : List Out) : Prop
  /-- Nothing. -/
  | stay (same : b'.exitT r = b.exitT r)
  /-- It is started. -/
  | start (msg : Register) (act : a = .register r msg) (unused : b.unused r)
      (pc' : (b'.exitT r).pc = .refuse ∨ (b'.exitT r).pc = .welcome ∧ r ∈ b'.regs)
      (affected : (b'.exitT r).affected = (b.exitT r).affected)
  | walk (walks : (b.exitT r).pc.walks (b'.exitT r).pc = true)
      (affected : (b'.exitT r).affected = (b.exitT r).affected)
      (gone : (b'.exitT r).pc = .gone → a = .exitGone r)
  | up (pc : (b.exitT r).pc = .nodeUp) (pc' : (b'.exitT r).pc = .announce)
      (affected : (b'.exitT r).affected = (b.exitT r).affected)
  | delete (pc : (b.exitT r).pc = .gone) (pc' : (b'.exitT r).pc = .nodeDown)
      (affected : (b'.exitT r).affected = (b.exitT r).affected)
      (exits : b'.exits = b.exits.erase (b.node r).nodeID)
  | down (pc : (b.exitT r).pc = .nodeDown) (pc' : (b'.exitT r).pc = .publishGone)
      (affected : (b'.exitT r).affected = (b.exitT r).affected)
  | scan (ok : Bool) (act : a = .exit r ok) (pc : (b.exitT r).pc = .scan)
      (pc' : (b'.exitT r).pc = if affectedBy b r = [] then .done else .notify)
      (affected : (b'.exitT r).affected = affectedBy b r) (state : b' = b.setExit r (b'.exitT r))
  | close (ok : Bool) (p : Conn) (rest : List Conn) (act : a = .exit r ok)
      (pc : (b.exitT r).pc = .close) (pc' : (b'.exitT r).pc = if rest = [] then .done else .notify)
      (before : (b.exitT r).affected = p :: rest) (after : (b'.exitT r).affected = rest)
      (out : o = [.close (b.sess p).clientConn])

theorem setExit_exitT_self {t' : ExitThread} : (b.setExit c t').exitT c = t' :=
  Function.update_self _ _ _

theorem setExit_exitT_of_ne {d : Conn} {t' : ExitThread} (h : d ≠ c) :
    (b.setExit c t').exitT d = b.exitT d := Function.update_of_ne h _ _

theorem gotoExit_pc {pc : ExitPC} : ((b.gotoExit c pc).exitT c).pc = pc :=
  congrArg ExitThread.pc setExit_exitT_self

theorem gotoExit_affected {pc : ExitPC} :
    ((b.gotoExit c pc).exitT c).affected = (b.exitT c).affected := by
  rw [State.gotoExit, setExit_exitT_self]

theorem RegMove.exitView (hm : RegMove cfg b a b' o) (r : Conn) : ExitView b r a b' o := by
  cases hm with
  | same reg => exact .stay (by rw [reg.exitT])
  | refuse c msg hu ht =>
    rcases eq_or_ne r c with rfl | hr
    · rw [handleExit_refuse ht]
      exact .start msg rfl hu (Or.inl gotoExit_pc) gotoExit_affected
    · exact .stay (handleExit_exitT_of_ne hr)
  | register c msg hu ht =>
    rcases eq_or_ne r c with rfl | hr
    · obtain ⟨hregs, -, hpc, -⟩ := handleExit_register (b := b) (c := r) ht
      refine .start msg rfl hu (Or.inr ⟨hpc, by rw [hregs]; exact List.mem_cons_self⟩) ?_
      unfold handleExit
      rw [if_neg (not_not.mpr ht)]
      exact gotoExit_affected
    · exact .stay (handleExit_exitT_of_ne hr)
  | walk c t' hw haff _ _ _ exitT _ _ gone =>
    rcases eq_or_ne r c with rfl | hr
    · have hself : b'.exitT r = t' := by rw [exitT, Function.update_self]
      subst hself
      exact .walk hw haff gone
    · exact .stay (by rw [exitT, Function.update_of_ne hr])
  | up c ok hpc =>
    rcases eq_or_ne r c with rfl | hr
    · exact .up hpc gotoExit_pc gotoExit_affected
    · exact .stay (setExit_exitT_of_ne hr)
  | delete c ok hpc =>
    rcases eq_or_ne r c with rfl | hr
    · exact .delete hpc gotoExit_pc gotoExit_affected rfl
    · exact .stay (setExit_exitT_of_ne hr)
  | down c ok hpc =>
    rcases eq_or_ne r c with rfl | hr
    · exact .down hpc gotoExit_pc gotoExit_affected
    · exact .stay (setExit_exitT_of_ne hr)
  | scan c ok hpc =>
    rcases eq_or_ne r c with rfl | hr
    · exact .scan ok rfl hpc (congrArg ExitThread.pc setExit_exitT_self)
        (congrArg ExitThread.affected setExit_exitT_self) (by rw [setExit_exitT_self])
    · exact .stay (setExit_exitT_of_ne hr)
  | close c ok p rest hpc haff =>
    rcases eq_or_ne r c with rfl | hr
    · exact .close ok p rest rfl hpc (congrArg ExitThread.pc setExit_exitT_self) haff
        (congrArg ExitThread.affected setExit_exitT_self) rfl
    · exact .stay (setExit_exitT_of_ne hr)

/-- A `handleExit` goroutine is started by its `Register` only. -/
theorem RegMove.idle (hm : RegMove cfg b a b' o) (d : Conn) :
    ((b'.exitT d).pc = .idle ↔ (b.exitT d).pc = .idle) ∨ ∃ msg, a = .register d msg ∧ b.unused d := by
  cases hm.exitView d with
  | stay same => exact Or.inl (by rw [same])
  | start msg act unused => exact Or.inr ⟨msg, act, unused⟩
  | walk hw =>
    exact Or.inl (iff_of_false (ExitPC.walks_not_idle hw).2 (ExitPC.walks_not_idle hw).1)
  | up pc pc' | delete pc pc' | down pc pc' => exact Or.inl (by simp [pc, pc'])
  | scan ok _ pc pc' | close ok p rest _ pc pc' =>
    rw [pc, pc']
    exact Or.inl (by split <;> simp)

/-- A goroutine that is registered was, or has just registered. -/
theorem RegMove.registered (hm : RegMove cfg b a b' o) {d : Conn}
    (hd : (b'.exitT d).pc.registered = true) : (b.exitT d).pc.registered = true ∨ d ∈ b'.regs := by
  cases hm.exitView d with
  | stay same => exact Or.inl (same ▸ hd)
  | start msg act unused pc' =>
    rcases pc' with pc' | ⟨-, hmem⟩
    · rw [pc'] at hd
      cases hd
    · exact Or.inr hmem
  | walk hw =>
    refine Or.inl ?_
    revert hw hd
    cases (b.exitT d).pc <;> cases (b'.exitT d).pc <;> simp [ExitPC.walks, ExitPC.registered]
  | up pc | delete pc | down pc | scan _ _ pc | close _ _ _ _ pc => exact Or.inl (by rw [pc]; rfl)

/-- What is in `b.exits` was there, or has just registered. -/
theorem RegMove.lookup (hm : RegMove cfg b a b' o) {n : String} {r : Conn}
    (h : b'.exits.lookup n = some r) : b.exits.lookup n = some r ∨
      ∃ msg, b' = handleExit cfg b r msg ∧ msg.token = cfg.nodeSecret ∧ msg.nodeID = n := by
  cases hm with
  | same reg => exact Or.inl (reg.exits ▸ h)
  | refuse c msg _ ht =>
    rw [handleExit_refuse ht] at h
    exact Or.inl h
  | register c msg hu ht =>
    rw [(handleExit_register ht).2.1, GoMap.lookup_set] at h
    split_ifs at h with hn
    · cases h
      exact Or.inr ⟨msg, rfl, ht, hn.symm⟩
    · exact Or.inl h
  | walk c t' _ _ exits => exact Or.inl (exits ▸ h)
  | delete c ok =>
    rw [GoMap.lookup_delete] at h
    split_ifs at h
    exact Or.inl h
  | _ => exact Or.inl h

/-- A session gets on the list of a `failExit` by its scan. -/
theorem RegMove.affected (hm : RegMove cfg b a b' o) {r p : Conn}
    (hp : p ∈ (b'.exitT r).affected) : p ∈ (b.exitT r).affected ∨
      ∃ ok t', a = .exit r ok ∧ (b.exitT r).pc = .scan ∧ p ∈ affectedBy b r ∧ b' = b.setExit r t' := by
  cases hm.exitView r with
  | stay same => exact Or.inl (same ▸ hp)
  | start _ _ _ _ affected | walk _ affected | up _ _ affected | delete _ _ affected
  | down _ _ affected => exact Or.inl (affected ▸ hp)
  | scan ok act pc _ affected state => exact Or.inr ⟨ok, _, act, pc, affected ▸ hp, state⟩
  | close ok q rest _ _ _ before after =>
    rw [after] at hp
    exact Or.inl (before ▸ List.mem_cons_of_mem q hp)

namespace Reg

theorem init (users : Userstore.Table) : Reg (newBroker users) := by
  refine ⟨fun _ => Or.inl rfl, ?_, ?_, ?_⟩
  · intro c hc; cases hc
  · intro c hc; cases hc
  · intro n r h; cases h

theorem step (h : Reg b) (hs : step cfg b a = some (b', o)) : Reg b' := by
  have hm := step_move hs
  have hr := step_regMove hs
  have hkeep : ∀ c ∈ b.regs, c ∈ b'.regs := by
    intro c hc
    rcases hr.regs with ⟨hregs, -⟩ | ⟨c', msg, rfl, -, ht⟩
    · rwa [hregs]
    · rw [(handleExit_register ht).1]
      exact List.mem_cons_of_mem _ hc
  refine ⟨?_, ?_, ?_, ?_⟩
  · intro c
    rcases hm.idle c with h1 | ⟨msg, rfl, hu⟩
    · rcases hr.idle c with h2 | ⟨msg, rfl, hu⟩
      · rw [h1, h2]
        exact h.kinds c
      · exact Or.inl (h1.2 hu.1)
    · rcases hr.idle c with h2 | ⟨msg', he, -⟩
      · exact Or.inr (h2.2 hu.2)
      · cases he
  · intro c hc
    rcases hr.regs with ⟨hregs, -⟩ | ⟨c', msg, rfl, hu, ht⟩
    · rw [hregs] at hc
      rcases hr.idle c with h2 | ⟨msg, rfl, hu⟩
      · rw [ne_eq, h2]
        exact h.served c hc
      · exact absurd hu.2 (h.served c hc)
    · rw [(handleExit_register ht).1] at hc
      rcases eq_or_ne c c' with rfl | hne
      · rw [(handleExit_register ht).2.2.1]
        decide
      · rw [handleExit_exitT_of_ne hne]
        exact h.served c ((List.mem_cons.mp hc).resolve_left hne)
  · intro c hc
    exact (hr.registered hc).elim (fun hc => hkeep c (h.known c hc)) id
  · intro n r hl
    rcases hr.lookup hl with hl | ⟨msg, rfl, ht, rfl⟩
    · obtain ⟨h1, h2⟩ := h.exits n r hl
      rcases hr.regs with ⟨hregs, hnode⟩ | ⟨c', msg, rfl, hu, ht⟩
      · rw [hregs, hnode]
        exact ⟨h1, h2⟩
      · have hne : r ≠ c' := by
          rintro rfl
          exact h.served r h1 hu.2
        rw [(handleExit_register ht).1, (handleExit_register ht).2.2.2.2 r hne]
        exact ⟨List.mem_cons_of_mem _ h1, h2⟩
    · rw [(handleExit_register ht).1]
      exact ⟨List.mem_cons_self, (handleExit_register ht).2.2.2.1⟩

/-- A registration stays, with all its data but the load counter. -/
theorem keep (h : Reg b) (hm : RegMove cfg b a b' o) {r : Conn} (hr : r ∈ b.regs) :
    r ∈ b'.regs ∧ b'.node r = { b.node r with active := (b'.node r).active } := by
  cases hm with
  | same reg => exact ⟨reg.regs ▸ hr, reg.info r⟩
  | refuse c msg hu ht =>
    rw [handleExit_refuse ht]
    exact ⟨hr, rfl⟩
  | register c msg hu ht =>
    have hrc : r ≠ c := by
      rintro rfl
      exact h.served r hr hu.2
    rw [(handleExit_register ht).1, (handleExit_register ht).2.2.2.2 r hrc]
    exact ⟨List.mem_cons_of_mem _ hr, rfl⟩
  | walk c t' _ _ _ regs node => exact ⟨regs ▸ hr, by rw [node]⟩
  | _ => exact ⟨hr, rfl⟩

theorem of_run {users : Userstore.Table} {tr : List (Event State Action Out)}
    (h : (machine cfg users).Run tr b) : Reg b :=
  h.invariant (init users) fun _ _ _ _ hb hs => hb.step hs

end Reg

end
end Broker
end Revquic
