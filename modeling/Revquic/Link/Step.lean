/-
# The broker and one exit

The broker and one exit, joined by the exit's control stream. What the broker
writes there is read in the same order, at any later time. The exit takes the
first message for the answer to its `Register`, whatever it is
(`dialRegister`); `controlLoop` takes the others.

The exit's connection stays up: its control loop does not end, no other exit
registers under its node id, and what the broker writes about a session that
it has given up goes out. A `MsgSessionStart` may fail: the broker ends the
session then.

Key definitions: `State`, `StaysUp`, `step`, `machine`, `Joint`.
-/
import Revquic.Broker.Duties
import Revquic.Exit.Tables
import Revquic.Lib.Fifo

namespace Revquic
namespace Link

open Lib Proto Broker

/-- The exit's end of the stream. -/
structure Reader extends Exit.Tables where
  registered : Bool := false

/-- The next message: the answer to `Register`, or one for `controlLoop`. -/
def Reader.read (r : Reader) (m : Control) : Reader :=
  if r.registered then { r with toTables := r.control m } else { r with registered := true }

/-- The two parties. -/
structure State where
  broker : Broker.State
  stream : Fifo Control Reader

inductive Action
  | broker (a : Broker.Action)
  | recv

/-- A step of the broker meets `C`. -/
def Action.meets (C : Broker.Action → Prop) : Action → Prop
  | .broker a => C a
  | .recv => True

instance (C : Broker.Action → Prop) [DecidablePred C] : DecidablePred (Action.meets C)
  | .broker a => inferInstanceAs (Decidable (C a))
  | .recv => isTrue trivial

/-- What a step of the broker writes to the exit. -/
def toExit (ex : Conn) (o : List Out) : List Control :=
  o.filterMap fun
    | .ctrl d m => if d = ex then some m else none
    | _ => none

/-- The connection of exit `ex`, which registers as `n`, stays up. -/
def StaysUp (ex : Conn) (n : String) (b : Broker.State) : Broker.Action → Prop
  | .exitGone c => c ≠ ex
  | .register c msg => c = ex ↔ msg.nodeID = n
  | .exit c ok => c = ex → ok = true
  | .client c i => (b.client c).pc.owes = true → (b.client c).ex = ex → i.ok = true
  | .timer k ok => (b.timer k).pc = .write → (b.timer k).ex = some ex → ok = true
  | _ => True

instance (ex : Conn) (n : String) (b : Broker.State) : DecidablePred (StaysUp ex n b)
  | .exitGone _ => inferInstanceAs (Decidable (_ ≠ _))
  | .register _ _ => inferInstanceAs (Decidable (_ ↔ _))
  | .exit _ _ => inferInstanceAs (Decidable (_ → _))
  | .client _ _ => inferInstanceAs (Decidable (_ → _ → _))
  | .timer _ _ => inferInstanceAs (Decidable (_ → _ → _))
  | .tick _ | .users _ | .connect _ _ | .drop _ _ | .clientCtrl _ _ _ | .exitCtrl _ _ _
  | .datagram _ _ | .fire _ => isTrue trivial

/-- One step of one of the parties, and what the broker puts out. -/
def step (cfg : Config) (ex : Conn) (n : String) (l : State) : Action → Option (State × List Out)
  | .broker a =>
    if StaysUp ex n l.broker a then
      (Broker.step cfg l.broker a).map fun x => (⟨x.1, l.stream.send (toExit ex x.2)⟩, x.2)
    else none
  | .recv => (l.stream.recv Reader.read).map fun s => (⟨l.broker, s⟩, [])

/-- The parties, before the exit has registered. -/
def machine (cfg : Config) (users : Userstore.Table) (ex : Conn) (n : String) :
    Machine State Action Out :=
  ⟨⟨newBroker users, ⟨[], {}⟩⟩, step cfg ex n⟩

/-- The broker takes some steps, then the exit reads some messages. -/
def script (as : List Broker.Action) (reads : ℕ) : List Action :=
  as.map .broker ++ List.replicate reads .recv

section
variable {cfg : Config} {users : Userstore.Table} {ex : Conn} {n : String} {l l' : State}
  {b b' : Broker.State} {a : Broker.Action} {o : List Out} {tr : List (Event State Action Out)}

theorem step_broker (h : step cfg ex n l (.broker a) = some (l', o)) :
    StaysUp ex n l.broker a ∧ Broker.step cfg l.broker a = some (l'.broker, o) ∧
      l'.stream = l.stream.send (toExit ex o) := by
  simp only [step] at h
  split at h
  · rename_i hup
    obtain ⟨⟨b', o'⟩, hs, hx⟩ := Option.map_eq_some_iff.mp h
    simp only [Prod.mk.injEq] at hx
    obtain ⟨rfl, rfl⟩ := hx
    exact ⟨hup, hs, rfl⟩
  · cases h

theorem step_recv (h : step cfg ex n l .recv = some (l', o)) :
    l'.broker = l.broker ∧ l.stream.recv Reader.read = some l'.stream ∧ o = [] := by
  simp only [step] at h
  obtain ⟨s, hs, hx⟩ := Option.map_eq_some_iff.mp h
  simp only [Prod.mk.injEq] at hx
  obtain ⟨rfl, rfl⟩ := hx
  exact ⟨rfl, hs, rfl⟩

/-- The broker's part of a run is a run of the broker. -/
theorem broker_run (h : (machine cfg users ex n).Run tr l) :
    ∃ tr', (Broker.machine cfg users).Run tr' l.broker := by
  refine h.image (f := State.broker) rfl fun {s a s' o} (hs : step cfg ex n s a = _) => ?_
  cases a with
  | broker a => exact Or.inr ⟨a, o, (step_broker hs).2.1⟩
  | recv => exact Or.inl (step_recv hs).1

/-! ### The exit stays registered -/

/-- The exit is the only one of its node id, and once it has registered, it is
in `b.exits`. -/
structure Up (ex : Conn) (n : String) (b : Broker.State) : Prop where
  sole : ∀ r ∈ b.regs, (b.node r).nodeID = n → r = ex
  named : ex ∈ b.regs → (b.node ex).nodeID = n
  listed : ex ∈ b.regs → b.exits.lookup n = some ex
  live : ex ∈ b.regs → (b.exitT ex).pc.live = true

theorem Up.init (users : Userstore.Table) : Up ex n (newBroker users) :=
  ⟨nofun, nofun, nofun, nofun⟩

/-- A session or goroutine of the node id is on the exit. -/
theorem Up.registers (h : Up ex n b) {r : Conn} {m : String} (hr : b.registers r m) :
    r = ex ↔ m = n := by
  constructor
  · rintro rfl
    rw [← hr.2]
    exact h.named hr.1
  · rintro rfl
    exact h.sole r hr.1 hr.2

/-- The registrations stay. -/
theorem Up.same (h : Up ex n b) (hregs : b'.regs = b.regs)
    (hnode : ∀ r ∈ b.regs, (b'.node r).nodeID = (b.node r).nodeID)
    (hexits : ex ∈ b.regs → b'.exits.lookup n = some ex)
    (hlive : ex ∈ b.regs → (b'.exitT ex).pc.live = true) : Up ex n b' := by
  refine ⟨fun r hr hn => ?_, fun he => ?_, fun he => ?_, fun he => ?_⟩ <;> rw [hregs] at *
  · exact h.sole r hr (by rwa [hnode r hr] at hn)
  · rw [hnode ex he]; exact h.named he
  · exact hexits he
  · exact hlive he

/-- The goroutine of a live registration stays live while it is not lost. -/
theorem live_of_regMove (hm : RegMove cfg b a b' o) (hup : StaysUp ex n b a)
    (h : (b.exitT ex).pc.live = true) : (b'.exitT ex).pc.live = true := by
  cases hm.exitView ex with
  | stay same => rwa [same]
  | start msg _ unused => rw [unused.2] at h; cases h
  | walk hw _ gone =>
    have hgone : (b'.exitT ex).pc ≠ .gone := fun hg => absurd rfl (gone hg ▸ hup)
    revert hw h hgone
    cases (b.exitT ex).pc <;> cases (b'.exitT ex).pc <;> simp [ExitPC.walks, ExitPC.live]
  | up _ pc' => rw [pc']; rfl
  | delete pc | down pc | scan _ _ pc | close _ _ _ _ pc => rw [pc] at h; cases h

theorem Up.step (h : Up ex n b) (hreg : Reg b) (hs : Broker.step cfg b a = some (b', o))
    (hup : StaysUp ex n b a) : Up ex n b' := by
  have hm := step_regMove hs
  have hlive := live_of_regMove hm hup
  cases hm with
  | same reg =>
    exact h.same reg.regs (fun r _ => by rw [reg.info]) (by rw [reg.exits]; exact h.listed)
      fun he => hlive (h.live he)
  | refuse c msg hu ht =>
    rw [handleExit_refuse ht] at hlive ⊢
    exact h.same rfl (fun _ _ => rfl) h.listed fun he => hlive (h.live he)
  | register c msg hu ht =>
    obtain ⟨hregs, hexits, hpc, hid, hnode⟩ := handleExit_register (b := b) (c := c) ht
    have hnew : c ∉ b.regs := fun hc => hreg.served c hc hu.2
    have hiff : c = ex ↔ msg.nodeID = n := hup
    refine ⟨fun r hr hn => ?_, fun he => ?_, fun he => ?_, fun he => ?_⟩
    · by_cases hrc : r = c
      · subst hrc
        exact hiff.2 (hid.symm.trans hn)
      · rw [hregs, List.mem_cons] at hr
        rw [hnode r hrc] at hn
        exact h.sole r (hr.resolve_left hrc) hn
    · by_cases hec : ex = c
      · rw [hec, hid]
        exact hiff.1 hec.symm
      · rw [hregs, List.mem_cons] at he
        rw [hnode ex hec]
        exact h.named (he.resolve_left hec)
    · rw [hexits, GoMap.lookup_set]
      by_cases hec : ex = c
      · rw [if_pos (hiff.1 hec.symm).symm, hec]
      · rw [hregs, List.mem_cons] at he
        rw [if_neg fun hn => hec (hiff.2 hn.symm).symm]
        exact h.listed (he.resolve_left hec)
    · by_cases hec : ex = c
      · rw [hec, hpc]; rfl
      · rw [hregs, List.mem_cons] at he
        exact hlive (h.live (he.resolve_left hec))
  | walk c t' _ _ exits regs node =>
    exact h.same regs (fun r _ => by rw [node]) (by rw [exits]; exact h.listed)
      fun he => hlive (h.live he)
  | up c ok | down c ok | scan c ok | close c ok p rest =>
    exact h.same rfl (fun _ _ => rfl) h.listed fun he => hlive (h.live he)
  | delete c ok hpc =>
    refine h.same rfl (fun _ _ => rfl) (fun he => ?_) fun he => hlive (h.live he)
    have hc : c ∈ b.regs := hreg.known c (by rw [hpc]; rfl)
    have hne : n ≠ (b.node c).nodeID := by
      intro hn
      obtain rfl := h.sole c hc hn.symm
      have := h.live he
      rw [hpc] at this
      cases this
    change (b.exits.erase _).lookup n = some ex
    rw [GoMap.lookup_delete, if_neg hne]
    exact h.listed he

/-- The invariants of a run of the two parties. -/
structure Joint (ex : Conn) (n : String) (b : Broker.State) : Prop where
  inv : Inv b
  duties : Duties b
  addressed : Addressed b
  exclusive : b.ledger.Exclusive
  up : Up ex n b

theorem Joint.of_run (h : (machine cfg users ex n).Run tr l) : Joint ex n l.broker := by
  obtain ⟨tr', hr⟩ := broker_run h
  refine ⟨.of_run hr, .of_run hr, .of_run hr, exclusive_of_run hr, ?_⟩
  clear hr tr'
  induction h with
  | nil => exact Up.init users
  | @snoc tr s s' a o hr hs ih =>
    cases a with
    | broker a =>
      obtain ⟨hst, hs, -⟩ := step_broker hs
      obtain ⟨tr', hr'⟩ := broker_run hr
      exact ih.step (Inv.of_run hr').reg hs hst
    | recv =>
      change Link.step cfg ex n s .recv = _ at hs
      rw [(step_recv hs).1]
      exact ih

/-! ### Runs with few clients -/

/-- Clients use the first `N` connections only. -/
def Few (N : ℕ) : Broker.Action → Prop
  | .connect c _ => c < N
  | _ => True

instance (N : ℕ) : DecidablePred (Few N)
  | .connect c _ => inferInstanceAs (Decidable (c < N))
  | .tick _ | .users _ | .client _ _ | .drop _ _ | .clientCtrl _ _ _ | .register _ _ | .exit _ _
  | .exitCtrl _ _ _ | .exitGone _ | .datagram _ _ | .fire _ | .timer _ _ => isTrue trivial

theorem idle_of_few {N : ℕ} (h : (machine cfg users ex n).Run tr l)
    (hC : ∀ e ∈ tr, e.act.meets (Few N)) {d : Conn} (hd : N ≤ d) :
    (l.broker.client d).pc = .idle := by
  refine Machine.Run.invariant_of (I := fun l : State => (l.broker.client d).pc = .idle)
    (C := fun e => e.act.meets (Few N)) rfl ?_ h hC
  intro s a s' o hi hs hfew
  cases a with
  | broker a =>
    rcases (step_move (step_broker hs).2.1).idle d with hiff | ⟨msg, rfl, -⟩
    · exact hiff.mpr hi
    · exact absurd hfew (not_lt.mpr hd)
  | recv =>
    change Link.step cfg ex n s .recv = _ at hs
    rw [(step_recv hs).1]
    exact hi

theorem meets_of_forall {C : Event State Action Out → Broker.Action → Prop}
    (h : ∀ e ∈ tr, ∀ a, e.act = .broker a → C e a) : ∀ e ∈ tr, e.act.meets (C e) := by
  intro e he
  cases ha : e.act with
  | broker a => exact h e he a ha
  | recv => trivial

/-- No client of the first `N` is about to write its `MsgSessionStart` while
anyone owes a message about a session given up. -/
def OneWriter (N : ℕ) (b : Broker.State) : Prop :=
  ∀ c < N, (b.client c).pc = .start →
    (∀ d < N, (b.client d).pc.owes = false) ∧ ∀ k < b.nextTimer, (b.timer k).pc ≠ .write

instance (N : ℕ) (b : Broker.State) : Decidable (OneWriter N b) :=
  inferInstanceAs (Decidable (∀ _ < _, _ → _))

theorem oneWriter_of_few {N : ℕ} (h : (machine cfg users ex n).Run tr l)
    (hC : ∀ e ∈ tr, e.act.meets (Few N)) (hone : ∀ e ∈ tr, OneWriter N e.pre.broker)
    {e : Event State Action Out} (he : e ∈ tr) {c : Conn}
    (hpc : (e.pre.broker.client c).pc = .start) :
    (∀ d, (e.pre.broker.client d).pc.owes = false) ∧ ∀ k, (e.pre.broker.timer k).pc ≠ .write := by
  obtain ⟨tr₁, tr₂, rfl, hr, -⟩ := h.of_mem he
  have hidle : ∀ d, N ≤ d → (e.pre.broker.client d).pc = .idle := fun d hd =>
    idle_of_few hr (fun e' he' => hC e' (List.mem_append_left _ he')) hd
  have hcN : c < N := by
    by_contra hcN
    rw [hidle c (not_lt.mp hcN)] at hpc
    cases hpc
  obtain ⟨hd, hk⟩ := hone e he c hcN hpc
  refine ⟨fun d => ?_, fun k => ?_⟩
  · rcases lt_or_ge d N with hdN | hdN
    · exact hd d hdN
    · rw [hidle d hdN]
      rfl
  · rcases lt_or_ge k e.pre.broker.nextTimer with hkN | hkN
    · exact hk k hkN
    · rw [(Joint.of_run hr).inv.timers k hkN]
      decide

end
end Link
end Revquic
