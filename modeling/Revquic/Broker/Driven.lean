/-
# The broker drives its tracker

Every step of the broker makes at most one call of its tracker, at the time
it shows. So a run of the broker is a run of its tracker under these calls,
and its history is what they raise. A node and a region come into it with a
`Register` that was let in.

Key definitions: `State.call`, `calls`, `registered`, `Named`.
Key theorems: `step_qos`, `tracker_run`, `store_eq`, `named_of_run`.
-/
import Revquic.Broker.Region
import Revquic.Qos.Raised

namespace Revquic
namespace Broker

open Lib Proto

/-- The call of the tracker a step makes. -/
def State.call (b : State) : Action → Option Qos.Call
  | .client c _ =>
    let t := b.client c
    match t.pc with
    | .counted => some (.connect (toString t.sid) (b.node t.ex).nodeID (b.node t.ex).region
        t.user.username (b.sess t.s).startedAt)
    | .disconnect => some (.disconnect (toString (b.sess t.s).id))
    | _ => none
  | .clientCtrl _ (.report sid r) _ => some (.report (toString sid) r)
  | .exitCtrl _ (.report sid r) _ => some (.report (toString sid) r)
  | .exit c _ =>
    match (b.exitT c).pc with
    | .nodeUp =>
      some (.nodeUp (b.node c).nodeID (b.node c).region (b.node c).connectedAt)
    | .nodeDown => some (.nodeDown (b.node c).nodeID)
    | _ => none
  | .datagram c dg =>
    match decodeDatagram dg with
    | none => none
    | some (sid, pkt) =>
      (b.sessions.lookup sid).map fun p =>
        .addBytes (toString sid) (c ≠ (b.sess p).exitConn) pkt.length
  | .timer k _ =>
    match (b.timer k).pc with
    | .disconnect => some (.disconnect (toString (b.timer k).sid))
    | _ => none
  | _ => none

/-- The events a step raises. -/
def derived (e : Event State Action Out) : List Qos.Event :=
  match e.pre.call e.act with
  | none => []
  | some c => e.pre.qos.raises e.pre.now c

/-- The tracker after a step. -/
def State.driven (b : State) (a : Action) : Qos.Tracker :=
  match b.call a with
  | none => b.qos
  | some c => b.qos.call b.now c

section
variable {cfg : Config} {users : Userstore.Table} {b b' : State} {a : Action} {o : List Out}
  {tr : List (Event State Action Out)}

/-! ### One step -/

theorem ClientStepped.qos {c : Conn} {i : Input} (h : ClientStepped cfg b c i b' o) :
    b'.qos = b.driven (.client c i) := by
  unfold State.driven State.call
  cases h with
  | vanish pc => rcases pc with pc | pc <;> simp only [pc] <;> rfl
  | close q pc' pc | finish pc' pc =>
    rcases pc with ⟨pc, rfl⟩ | ⟨pc, rfl⟩ <;> simp only [pc] <;> rfl
  | reject _ pc | accept _ pc | list pc | resume _ _ pc | refuse _ pc | choose _ _ pc | reply pc
  | draw pc | alloc _ _ pc | exhaust pc | insert pc | count pc | connect pc | recount pc | start pc
  | startFailed pc | connectOK pc | started pc | park _ pc | suspend pc | disconnect pc | bye pc =>
    simp only [pc]
    rfl

theorem ExitStepped.qos {c : Conn} {ok : Bool} (h : ExitStepped b c ok b' o) :
    b'.qos = b.driven (.exit c ok) := by
  unfold State.driven State.call
  cases h with
  | refuse pc | welcome pc | up pc | announce pc | publishUp pc | publishUpdate pc | gone pc
  | down pc | publishGone pc | scan pc | notify _ _ pc | close _ _ pc =>
    simp only [pc]
    rfl

theorem TimerStepped.qos {k : ℕ} {ok : Bool} (h : TimerStepped b k ok b' o) :
    b'.qos = b.driven (.timer k ok) := by
  unfold State.driven State.call
  cases h with
  | miss pc | expire _ pc | write pc | disconnect pc | bye pc =>
    simp only [pc]
    rfl

/-- A control loop calls the tracker for a report, and for nothing else. -/
theorem CtrlStepped.qos {c : Conn} {ok : Bool} {route : ℕ → Option Conn} {m : Control}
    (h : CtrlStepped b c ok route m b' o) :
    b'.qos = b.driven (.clientCtrl c m ok) ∧ b'.qos = b.driven (.exitCtrl c m ok) := by
  cases h with
  | forward | report | ping => exact ⟨rfl, rfl⟩
  | ignore m other =>
    cases m with
    | report sid r => exact absurd rfl (other sid r)
    | _ => exact ⟨rfl, rfl⟩

/-- **What a step does to the tracker.** -/
theorem step_qos (h : step cfg b a = some (b', o)) : b'.qos = b.driven a := by
  cases stepped_of_step h with
  | client c i step | exit c ok step | timer k ok step => exact step.qos
  | clientCtrl c m ok _ step => exact step.qos.1
  | register c msg =>
    unfold handleExit
    split_ifs <;> rfl
  | exitCtrl c m ok _ step => exact step.qos.2
  | relay c dg sid pkt p _ read found =>
    simp [State.driven, State.call, read, found, Qos.Tracker.call]
  | lose c dg _ unknown =>
    cases hd : decodeDatagram dg with
    | none => simp [State.driven, State.call, hd]
    | some x => simp [State.driven, State.call, hd, unknown x.1 x.2 hd]
  | tick | users | connect | drop | status | exitGone | fire => rfl

theorem step_store (h : step cfg b a = some (b', o)) :
    b'.qos.store = b.qos.store ++ derived ⟨b, a, o, b'⟩ := by
  rw [step_qos h]
  unfold State.driven derived
  simp only
  split
  · exact (List.append_nil _).symm
  · exact Qos.Tracker.call_store _ _ _

/-! ### Whole runs -/

/-- The calls of the tracker in a run, with their times. -/
def calls (tr : List (Event State Action Out)) : List (ℕ × Qos.Call) :=
  tr.filterMap fun e => (e.pre.call e.act).map (e.pre.now, ·)

/-- **A run of the broker is a run of its tracker.** -/
theorem tracker_run (h : (machine cfg users).Run tr b) :
    ∃ tr', (Qos.Tracker.machine 0).Run tr' b.qos ∧ tr'.map (·.act) = calls tr := by
  induction h with
  | nil => exact ⟨[], .nil, rfl⟩
  | @snoc tr s s' a o _ hs ih =>
    obtain ⟨tr', hrun, hcalls⟩ := ih
    have hq := step_qos hs
    rw [State.driven] at hq
    cases hc : s.call a with
    | none =>
      rw [hc] at hq
      refine ⟨tr', hq ▸ hrun, ?_⟩
      rw [hcalls]
      simp [calls, hc]
    | some c =>
      rw [hc] at hq
      have hstep : (Qos.Tracker.machine 0).step s.qos (s.now, c) = some (s'.qos, []) := by
        rw [hq]
        rfl
      refine ⟨_, hrun.snoc hstep, ?_⟩
      rw [List.map_append, hcalls]
      simp [calls, hc]

/-- The history is what the steps have raised. -/
theorem store_eq (h : (machine cfg users).Run tr b) : b.qos.store = tr.flatMap derived := by
  induction h with
  | nil => rfl
  | snoc _ hs ih => rw [step_store hs, ih, List.flatMap_append, List.flatMap_singleton]

/-! ### Where the names come from -/

/-- The registrations that were let in. -/
def registered (cfg : Config) (tr : List (Event State Action Out)) : List Register :=
  tr.filterMap fun e =>
    match e.act with
    | .register _ msg => if msg.token = cfg.nodeSecret then some msg else none
    | _ => none

/-- A registration brought this node id and this region. -/
def Brought (ms : List Register) (nodeID region : String) : Prop :=
  ∃ m ∈ ms, nodeID = m.nodeID ∧ region = m.region

/-- The registrations of a state, and the entries of its tracker, are what
`Register` messages brought. -/
structure Named (ms : List Register) (b : State) : Prop where
  nodes : ∀ r ∈ b.regs, Brought ms (b.node r).nodeID (b.node r).region
  tracker : b.qos.Named (Brought ms)

theorem Brought.append {ms ms' : List Register} {n r : String} (h : Brought ms n r) :
    Brought (ms ++ ms') n r := by
  obtain ⟨m, hm, hn⟩ := h
  exact ⟨m, List.mem_append_left _ hm, hn⟩

/-- The nodes a call of the tracker names have been registered. -/
theorem call_names {ms : List Register} (hinv : Inv b)
    (h : ∀ r ∈ b.regs, Brought ms (b.node r).nodeID (b.node r).region) {c : Qos.Call}
    (hc : b.call a = some c) : c.Names (Brought ms) := by
  cases a with
  | client d i =>
    simp only [State.call] at hc
    split at hc
    · rename_i hpc
      obtain rfl := Option.some.inj hc
      exact h _ (given_regs hinv (Or.inr (by rw [hpc]; rfl)))
    · obtain rfl := Option.some.inj hc
      exact trivial
    · cases hc
  | exit d ok =>
    simp only [State.call] at hc
    split at hc
    · rename_i hpc
      obtain rfl := Option.some.inj hc
      exact h d (hinv.reg.known d (by rw [hpc]; rfl))
    · rename_i hpc
      obtain rfl := Option.some.inj hc
      exact ⟨_, h d (hinv.reg.known d (by rw [hpc]; rfl))⟩
    · cases hc
  | clientCtrl d m ok | exitCtrl d m ok =>
    cases m <;> cases hc
    exact trivial
  | datagram d dg =>
    simp only [State.call] at hc
    split at hc
    · cases hc
    · obtain ⟨p, -, rfl⟩ := Option.map_eq_some_iff.mp hc
      exact trivial
  | timer k ok =>
    simp only [State.call] at hc
    split at hc
    · obtain rfl := Option.some.inj hc
      exact trivial
    · cases hc
  | _ => cases hc

theorem registered_snoc (e : Event State Action Out) :
    registered cfg (tr ++ [e]) = registered cfg tr ++ registered cfg [e] := List.filterMap_append

/-- The registrations after a step. -/
theorem Named.nodes_step {ms : List Register} (h : Named ms b) (hreg : Reg b)
    (hs : step cfg b a = some (b', o)) : ∀ r ∈ b'.regs,
      Brought (ms ++ registered cfg [⟨b, a, o, b'⟩]) (b'.node r).nodeID (b'.node r).region := by
  have hm := step_regMove hs
  have hold : ∀ r ∈ b.regs,
      Brought (ms ++ registered cfg [⟨b, a, o, b'⟩]) (b'.node r).nodeID (b'.node r).region := by
    intro r hr
    rw [(hreg.keep hm hr).2]
    exact (h.nodes r hr).append
  intro r hr
  cases hm with
  | register c msg hu ht =>
    rw [(handleExit_register ht).1] at hr
    rcases eq_or_ne r c with rfl | hrc
    · refine ⟨msg, List.mem_append_right _ (by simp [registered, ht]), ?_⟩
      unfold handleExit
      rw [if_neg (not_not.mpr ht)]
      simp
    · exact hold r ((List.mem_cons.mp hr).resolve_left hrc)
  | refuse c msg hu ht =>
    rw [handleExit_refuse ht] at hr
    exact hold r hr
  | same reg => exact hold r (reg.regs ▸ hr)
  | walk c t' _ _ _ regs => exact hold r (regs ▸ hr)
  | _ => exact hold r hr

theorem Named.step {ms : List Register} (h : Named ms b) (hinv : Inv b)
    (hs : Broker.step cfg b a = some (b', o)) :
    Named (ms ++ registered cfg [⟨b, a, o, b'⟩]) b' := by
  refine ⟨h.nodes_step hinv.reg hs, ?_⟩
  have htr : b.qos.Named (Brought (ms ++ registered cfg [⟨b, a, o, b'⟩])) :=
    ⟨fun n e he => (h.tracker.exits n e he).append, fun k ss hk => (h.tracker.sessions k ss hk).append⟩
  rw [step_qos hs, State.driven]
  split
  · exact htr
  · rename_i c hc
    exact htr.call (call_names hinv (fun r hr => (h.nodes r hr).append) hc) b.now

theorem named_of_run (h : (machine cfg users).Run tr b) : Named (registered cfg tr) b := by
  induction h with
  | nil => exact ⟨fun r hr => (by cases hr), fun n e he => (by cases he), fun k ss hk => (by cases hk)⟩
  | snoc hr hs ih =>
    rw [registered_snoc]
    exact ih.step (Inv.of_run hr) hs

/-- **Every event names a node that was registered**, with its region or
with none. -/
theorem derived_names (h : (machine cfg users).Run tr b) {e : Event State Action Out} (he : e ∈ tr) :
    ∀ ev ∈ derived e, ∃ m ∈ registered cfg tr, ev.nodeID = m.nodeID ∧ (ev.region = m.region ∨ ev.region = "") := by
  intro ev hev
  obtain ⟨tr₁, tr₂, rfl, hrun, -⟩ := h.of_mem he
  have hnamed := named_of_run hrun
  unfold derived at hev
  split at hev
  · cases hev
  · rename_i c hc
    obtain ⟨region, ⟨m, hm, hn, rfl⟩, hr⟩ :=
      hnamed.tracker.raises (call_names (Inv.of_run hrun) hnamed.nodes hc) _ ev hev
    refine ⟨m, ?_, hn, hr⟩
    rw [registered, List.filterMap_append]
    exact List.mem_append_left _ hm

end
end Broker
end Revquic
