/-
# The answer to a `Connect`

A client takes the first control message it reads for the answer to its
`Connect`: `runConnection` gives up on anything but a `MsgConnectOK`, and the
process ends if that happens on its first attempt. The broker writes
`MsgSessionStart` to the exit before it writes the answer, and the session is
in `b.sessions` before either. So the exit may send a signal for the session,
and `handleExit` forward it, while `handleClient` has not answered yet.

Key definitions: `heard`, `isAnswer`, `Delivers`, `Overtakes`.
Key theorem: `answer_first_iff`.
-/
import Revquic.Client
import Revquic.Link.Told

namespace Revquic
namespace Link

open Lib Proto Broker
open Client (Attempt Loop isConnectOK isError errorField)

/-- The control messages written to a connection in a run, oldest first. -/
def heard (c : Conn) (tr : List (Event Broker.State Broker.Action Out)) : List Control :=
  tr.flatMap fun e => toExit c e.out

/-- A message that answers a `Connect`. -/
def isAnswer (m : Control) : Bool := isConnectOK m || isError m

/-- The handler has not answered its client. -/
def awaits : ClientPC → Bool
  | .idle | .auth | .lock | .reply | .chosen | .numbered | .allocated | .inserted | .counted
  | .resumed | .start | .startFailed | .connectOK => true
  | _ => false

/-- The answer of the handler of `c` goes out. -/
def Delivers (c : Conn) (b : Broker.State) : Broker.Action → Prop
  | .client d i => d = c → (b.client c).pc ∈ [.reply, .startFailed, .connectOK] → i.ok = true
  | _ => True

instance (c : Conn) (b : Broker.State) : DecidablePred (Delivers c b)
  | .client _ _ => inferInstanceAs (Decidable (_ → _ → _))
  | .tick _ | .users _ | .connect _ _ | .drop _ _ | .clientCtrl _ _ _ | .register _ _ | .exit _ _
  | .exitCtrl _ _ _ | .exitGone _ | .datagram _ _ | .fire _ | .timer _ _ => isTrue trivial

/-- A signal for the session of `c` is forwarded before the answer. -/
def Overtakes (c : Conn) (b : Broker.State) : Broker.Action → Prop
  | .exitCtrl _ (.signal sid _ _) ok => ok = true ∧ b.clientOf sid = some c ∧
      (b.client c).pc.phase = .holds ∧ awaits (b.client c).pc = true
  | _ => False

section
variable {cfg : Config} {users : Userstore.Table} {b b' : Broker.State} {a : Broker.Action}
  {o : List Out} {c : Conn} {m : Control} {tr : List (Event Broker.State Broker.Action Out)}

theorem heard_append (tr tr' : List (Event Broker.State Broker.Action Out)) :
    heard c (tr ++ tr') = heard c tr ++ heard c tr' := List.flatMap_append

theorem heard_snoc (e : Event Broker.State Broker.Action Out) :
    heard c (tr ++ [e]) = heard c tr ++ toExit c e.out := by
  rw [heard_append]
  exact congrArg _ (List.flatMap_singleton _ _)

/-! ### Control readers

A control read loop outlives the session of its handler. What it needs of the
handler it keeps: the exit, which no later step changes. -/

/-- A client whose messages are read has been answered, and its signals go to
an exit. -/
def Readers (b : Broker.State) : Prop :=
  ∀ c, (b.client c).reading = true → awaits (b.client c).pc = false ∧ (b.client c).ex ∈ b.regs

/-- A goroutine moves on, and its reader with it. -/
theorem Readers.update (h : Readers b) {t : ClientThread}
    (client : b'.client = Function.update b.client c t) (regs : ∀ r ∈ b.regs, r ∈ b'.regs)
    (ht : t.reading = true → awaits t.pc = false ∧ t.ex ∈ b.regs) : Readers b' := by
  intro d hd
  rw [client] at hd ⊢
  rcases eq_or_ne d c with rfl | hne
  · rw [Function.update_self] at hd ⊢
    exact ⟨(ht hd).1, regs _ (ht hd).2⟩
  · rw [Function.update_of_ne hne] at hd ⊢
    exact ⟨(h d hd).1, regs _ (h d hd).2⟩

/-- A goroutine that awaits its answer has no reader. -/
theorem Readers.not_reading (h : Readers b) (hc : awaits (b.client c).pc = true) :
    (b.client c).reading = false := by
  by_contra hr
  rw [(h c (Bool.eq_true_of_not_eq_false hr)).1] at hc
  cases hc

theorem Readers.clientStepped {i : Input} (h : Readers b) (hinv : Inv b)
    (hregs : ∀ r ∈ b.regs, r ∈ b'.regs) (hs : ClientStepped cfg b c i b' o) : Readers b' := by
  -- a goroutine that awaits its answer reads nothing, whatever it moves on to
  have hquiet : ∀ {pc : ClientPC} {t : ClientThread}, (b.client c).pc = pc → awaits pc = true →
      t.reading = (b.client c).reading → t.reading = true → awaits t.pc = false ∧ t.ex ∈ b.regs := by
    intro pc t hpc hw ht hr
    rw [ht, h.not_reading (hpc ▸ hw)] at hr
    cases hr
  -- one that has been answered keeps its exit
  have hkeep : ∀ {t : ClientThread}, t.reading = (b.client c).reading → t.ex = (b.client c).ex →
      awaits t.pc = false → t.reading = true → awaits t.pc = false ∧ t.ex ∈ b.regs := by
    intro t ht hex hw hr
    rw [ht] at hr
    exact ⟨hw, hex ▸ (h c hr).2⟩
  cases hs with
  | reject e pc | accept user pc | list pc | resume p ex pc | refuse rr pc | choose ex rr pc
  | reply pc | draw pc | alloc addr pool pc | exhaust pc | insert pc | count pc | connect pc
  | recount pc | start pc | startFailed pc | connectOK pc =>
    exact h.update rfl hregs (hquiet pc rfl rfl)
  | started pc =>
    have hruns := (hinv.attach.runs c (Or.inl (by rw [pc]; rfl))).2
    exact h.update rfl hregs fun _ => ⟨rfl, hruns.1⟩
  | close q pc' pc | finish pc' pc =>
    rcases pc with ⟨-, rfl⟩ | ⟨-, rfl⟩ <;> exact h.update rfl hregs (hkeep rfl rfl rfl)
  | vanish | park | suspend | disconnect | bye => exact h.update rfl hregs (hkeep rfl rfl rfl)

theorem Readers.step (h : Readers b) (hinv : Inv b) (hs : Broker.step cfg b a = some (b', o)) :
    Readers b' := by
  have hregs : ∀ r ∈ b.regs, r ∈ b'.regs := fun r hr => (hinv.reg.keep (step_regMove hs) hr).1
  have hsame : b'.client = b.client → Readers b' := by
    intro hc d hd
    rw [hc] at hd ⊢
    exact ⟨(h d hd).1, hregs _ (h d hd).2⟩
  cases stepped_of_step hs with
  | connect c msg unused => exact h.update rfl hregs fun hr => by cases hr
  | client c i step => exact h.clientStepped hinv hregs step
  | drop c cause pc => exact h.update rfl hregs fun hr => ⟨rfl, (h c hr).2⟩
  | register c msg => exact hsame (handleExit_client _ _ _ _)
  | clientCtrl c m ok _ step | exitCtrl c m ok _ step | exit c ok step | timer k ok step =>
    cases step <;> exact hsame rfl
  | _ => exact hsame rfl

theorem Readers.of_run (h : (Broker.machine cfg users).Run tr b) : Readers b := by
  suffices hboth : Inv b ∧ Readers b from hboth.2
  refine h.invariant (I := fun b => Inv b ∧ Readers b) ⟨Inv.init users, ?_⟩ ?_
  · intro c hc
    cases hc
  · intro b a b' o hI hs
    exact ⟨hI.1.step hs, hI.2.step hI.1 hs⟩

/-! ### Who writes to a client -/

/-- The ways a message reaches the connection of a client. -/
inductive Hears (b : Broker.State) (c : Conn) (m : Control) : Broker.Action → Prop
  /-- Its handler answers. -/
  | answer (i : Input) (answer : isAnswer m = true) : Hears b c m (.client c i)
  /-- Its exit is gone. -/
  | down (r : Conn) (ok : Bool) (error : isAnswer m = true) : Hears b c m (.exit r ok)
  /-- The exit signals. -/
  | signal (r : Conn) (sid : ℕ) (sg : List UInt8) (nonce : String) (eq : m = .signal sid sg nonce)
      (client : b.clientOf sid = some c) : Hears b c m (.exitCtrl r m true)
  /-- Its ping is echoed. -/
  | pong (sid : ℕ) (ts : ℤ) (reading : (b.client c).reading = true) :
      Hears b c m (.clientCtrl c (.ping sid ts) true)

theorem isAnswer_of_isRefusal (h : isRefusal m = true) : isAnswer m = true := by
  cases m <;> first | rfl | cases h

/-- A registered exit is no client. -/
theorem ne_of_registered (hinv : Inv b) (hc : (b.exitT c).pc = .idle) {r : Conn} (hr : r ∈ b.regs) :
    c ≠ r := by
  rintro rfl
  exact hinv.reg.served c hr hc

theorem hears_of_clientStepped {d : Conn} {i : Input} (hinv : Inv b) (hc : (b.exitT c).pc = .idle)
    (hs : ClientStepped cfg b d i b' o) (hm : Out.ctrl c m ∈ o) : Hears b c m (.client d i) := by
  -- what is written to the exit of a session does not reach a client
  have hexit : ∀ {ok : Bool} {m' : Control}, (b.client d).pc.runs →
      Out.ctrl c m ∉ written ok (b.client d).ex m' := by
    intro ok m' hruns hmem
    obtain ⟨-, heq, -⟩ := mem_written hmem
    exact ne_of_registered hinv hc (hinv.attach.runs d hruns).2.1 heq
  cases hs with
  | reply pc =>
    obtain ⟨-, rfl, rfl⟩ := mem_written hm
    exact .answer i (isAnswer_of_isRefusal (hinv.replies c pc))
  | startFailed pc | connectOK pc =>
    obtain ⟨-, rfl, rfl⟩ := mem_written hm
    exact .answer i rfl
  | start pc => exact absurd hm (hexit (Or.inl (by rw [pc]; rfl)))
  | suspend pc => exact absurd hm (hexit (Or.inr (by rw [pc]; rfl)))
  | finish pc' pc =>
    rcases pc with ⟨pc, -⟩ | ⟨pc, -⟩ <;> exact absurd hm (hexit (Or.inr (by rw [pc]; rfl)))
  | started | close | bye => simp at hm
  | _ => cases hm

/-- Every message that is put out to a client is one of these. -/
theorem hears_of_step (hinv : Inv b) (hd : Duties b) (hr : Readers b) (hc : (b.exitT c).pc = .idle)
    (hs : Broker.step cfg b a = some (b', o)) (hm : Out.ctrl c m ∈ o) : Hears b c m a := by
  cases stepped_of_step hs with
  | client d i step => exact hears_of_clientStepped hinv hc step hm
  | clientCtrl d msg ok reading step =>
    cases step with
    | forward dst sid sg nonce routed =>
      obtain ⟨-, rfl, -⟩ := mem_written hm
      obtain rfl := Option.some.inj routed
      exact absurd rfl (ne_of_registered hinv hc (hr d reading).2)
    | ping sid ts =>
      obtain ⟨rfl, rfl, rfl⟩ := mem_written hm
      exact .pong sid ts reading
    | report | ignore => cases hm
  | exitCtrl r msg ok pc step =>
    cases step with
    | forward dst sid sg nonce routed =>
      obtain ⟨rfl, rfl, rfl⟩ := mem_written hm
      exact .signal r sid sg nonce rfl routed
    | ping sid ts =>
      obtain ⟨-, rfl, -⟩ := mem_written hm
      rw [hc] at pc
      cases pc
    | report | ignore => cases hm
  | exit r ok step =>
    cases step with
    | notify p rest =>
      obtain ⟨-, -, rfl⟩ := mem_written hm
      exact .down r ok rfl
    | refuse pc | welcome pc =>
      obtain ⟨-, rfl, -⟩ := mem_written hm
      rw [hc] at pc
      cases pc
    | publishUp | publishUpdate | publishGone | close => simp at hm
    | _ => cases hm
  | timer k ok step =>
    cases step with
    | write pc =>
      obtain ⟨-, -, -, r, hx, hreg⟩ := hd.expired k pc
      rw [hx] at hm
      obtain ⟨-, rfl, -⟩ := mem_written hm
      exact absurd rfl (ne_of_registered hinv hc hreg.1)
    | expire | bye => simp at hm
    | _ => cases hm
  | relay => simp at hm
  | _ => cases hm

/-! ### The first message -/

theorem toExit_written_self (m : Control) : toExit c (written true c m) = [m] := by
  rw [toExit_written, if_pos ⟨rfl, rfl⟩]

/-- A handler whose answer goes out awaits nothing only once it has written. -/
theorem awaits_of_step (hw : awaits (b.client c).pc = true) (hd : Delivers c b a)
    (hs : Broker.step cfg b a = some (b', o)) (hq : toExit c o = []) :
    awaits (b'.client c).pc = true := by
  have hsame : b'.client c = b.client c → awaits (b'.client c).pc = true := fun h => by rw [h, hw]
  -- a step of the handler itself, to `t'`
  have hself : ∀ {d : Conn} {t' : ClientThread}, b'.client = Function.update b.client d t' →
      (d = c → awaits t'.pc = true) → awaits (b'.client c).pc = true := by
    intro d t' hcl ht
    rw [hcl]
    rcases eq_or_ne c d with rfl | hne
    · rw [Function.update_self]
      exact ht rfl
    · rw [Function.update_of_ne hne, hw]
  cases stepped_of_step hs with
  | connect d msg => exact hself rfl fun _ => rfl
  | client d i step =>
    -- the three steps that answer
    have hanswer : ∀ {pc pc' : ClientPC} {m : Control}, (b.client d).pc = pc →
        pc ∈ [ClientPC.reply, .startFailed, .connectOK] → o = written i.ok d m →
        d = c → awaits pc' = true := by
      rintro pc pc' m hpc hmem rfl rfl
      rw [hd rfl (hpc ▸ hmem), toExit_written_self] at hq
      cases hq
    -- the steps that a handler takes later
    have hlate : ∀ {pc pc' : ClientPC}, (b.client d).pc = pc → awaits pc = false → d = c →
        awaits pc' = true := by
      rintro pc pc' hpc hno rfl
      rw [hpc, hno] at hw
      cases hw
    cases step with
    | reply pc | startFailed pc | connectOK pc => exact hself rfl (hanswer pc (by simp) rfl)
    | start pc =>
      refine hself rfl fun _ => ?_
      dsimp only
      split <;> rfl
    | started pc | park q pc | suspend pc | disconnect pc | bye pc => exact hself rfl (hlate pc rfl)
    | vanish pc => rcases pc with pc | pc <;> exact hself rfl (hlate pc rfl)
    | close q pc' pc | finish pc' pc =>
      rcases pc with ⟨pc, -⟩ | ⟨pc, -⟩ <;> exact hself rfl (hlate pc rfl)
    | _ => exact hself rfl fun _ => rfl
  | drop d cause pc =>
    refine hself rfl fun hdc => ?_
    rw [hdc.symm, pc] at hw
    cases hw
  | register d msg => exact hsame (by rw [handleExit_client])
  | clientCtrl d msg ok _ step | exitCtrl d msg ok _ step | exit d ok step | timer k ok step =>
    cases step <;> exact hsame rfl
  | _ => exact hsame rfl

/-- Nothing has been written to a client: its handler has not answered. -/
theorem awaits_of_silent (h : (Broker.machine cfg users).Run tr b) :
    (∀ e ∈ tr, Delivers c e.pre e.act) → heard c tr = [] → awaits (b.client c).pc = true := by
  induction h with
  | nil => exact fun _ _ => rfl
  | @snoc tr b b' a o _ hs ih =>
    intro hd hq
    rw [heard_snoc, List.append_eq_nil_iff] at hq
    have hlast := hd ⟨b, a, o, b'⟩ (List.mem_append_right _ (List.mem_singleton_self _))
    exact awaits_of_step (ih (fun e he => hd e (List.mem_append_left _ he)) hq.1) hlast hs hq.2

/-- A connection that serves no exit has never served one. -/
theorem idle_before (h : (Broker.machine cfg users).Run tr b) :
    (b.exitT c).pc = .idle → ∀ e ∈ tr, (e.pre.exitT c).pc = .idle := by
  induction h with
  | nil => exact fun _ e he => by cases he
  | @snoc tr b b' a o _ hs ih =>
    intro hc e he
    have hpre : (b.exitT c).pc = .idle := by
      rcases (step_regMove hs).idle c with hiff | ⟨msg, -, hu⟩
      · exact hiff.mp hc
      · exact hu.2
    rcases List.mem_append.mp he with he | he
    · exact ih hpre e he
    · rw [List.mem_singleton.mp he]
      exact hpre

/-- What is forwarded to a client is written to it. -/
theorem heard_forward {r : Conn} {sid : ℕ} {sg : List UInt8} {nonce : String}
    (hs : (Broker.machine cfg users).step b (.exitCtrl r (.signal sid sg nonce) true) =
      some (b', o))
    (hcl : b.clientOf sid = some c) : toExit c o = [.signal sid sg nonce] := by
  obtain ⟨p, hp, hcw⟩ := Option.map_eq_some_iff.mp hcl
  simp only [Broker.machine, Broker.step, exitCtrl, hp] at hs
  split_ifs at hs
  obtain ⟨-, rfl⟩ := Prod.mk.inj (Option.some.inj hs)
  rw [hcw, toExit_written_self]

/-- The session of a client that is sent a signal is run by its handler. -/
theorem holds_of_clientOf (hinv : Inv b) {sid : ℕ} (hcl : b.clientOf sid = some c) :
    (b.client c).pc.phase = .holds := by
  obtain ⟨p, hp, hcw⟩ := Option.map_eq_some_iff.mp hcl
  have hmade := hinv.rep.made p (live_of_sessions hp)
  rw [← hcw, (hinv.attach.writers p hmade).2]
  exact (hinv.rep.holder sid p hp).1

/-- The first message of a run to a client, if it is no answer, is a signal
that overtakes the answer. -/
theorem overtakes_of_first (hrun : (Broker.machine cfg users).Run tr b)
    (hc : (b.exitT c).pc = .idle) (hd : ∀ e ∈ tr, Delivers c e.pre e.act)
    (hhead : (heard c tr).head? = some m) (hm : isAnswer m = false) :
    ∃ tr₁ e tr₂, tr = tr₁ ++ e :: tr₂ ∧ heard c tr₁ = [] ∧ Overtakes c e.pre e.act := by
  rw [heard, List.head?_flatMap, List.findSome?_eq_some_iff] at hhead
  obtain ⟨tr₁, e, tr₂, rfl, hfirst, hbefore⟩ := hhead
  obtain ⟨hrun₁, hstep⟩ := hrun.at_event rfl
  have hquiet : heard c tr₁ = [] := by
    rw [heard, List.flatMap_eq_nil_iff]
    exact fun x hx => List.head?_eq_none_iff.mp (hbefore x hx)
  have hwaits : awaits (e.pre.client c).pc = true :=
    awaits_of_silent hrun₁ (fun x hx => hd x (List.mem_append_left _ hx)) hquiet
  have hidle : (e.pre.exitT c).pc = .idle :=
    idle_before hrun hc e (List.mem_append_right _ List.mem_cons_self)
  have hinv := Inv.of_run hrun₁
  have hreaders := Readers.of_run hrun₁
  have hout : Out.ctrl c m ∈ e.out := mem_toExit (List.mem_of_mem_head? hfirst)
  refine ⟨tr₁, e, tr₂, rfl, hquiet, ?_⟩
  generalize hact : e.act = a at hstep ⊢
  cases hears_of_step hinv (Duties.of_run hrun₁) hreaders hidle hstep hout with
  | answer i h => rw [hm] at h; cases h
  | down r ok h => rw [hm] at h; cases h
  | signal r sid sg nonce heq hcl =>
    rw [heq]
    exact ⟨rfl, hcl, holds_of_clientOf hinv hcl, hwaits⟩
  | pong sid ts reading =>
    rw [hreaders.not_reading hwaits] at reading
    cases reading

/-- A client that takes something else for the answer to its first `Connect`
gives up. -/
theorem turn_of_not_answer (full : Bool) {l : Loop} {x : Attempt} (hm : isAnswer m = false)
    (hx : x.answer = some m) (hfirst : l.first = true) :
    (l.turn full x false).status = .fatal "cannot connect: " := by
  unfold isAnswer at hm
  rw [Bool.or_eq_false_iff] at hm
  have hfield : errorField m = "" := by
    cases m <;> first | rfl | cases hm.2
  unfold Attempt.answer at hx
  split_ifs at hx with hok
  obtain ⟨hdial, hstream, hwrite⟩ := hok
  have hreply : x.reply = .ok m := by
    cases hr : x.reply with
    | error e => rw [hr] at hx; cases hx
    | ok resp => rw [hr] at hx; exact congrArg _ (Option.some.inj hx)
  have hreturn : Client.runConnection full l.routesUp x = (.returned (.noExit ""), l.routesUp) := by
    unfold Client.runConnection
    simp only [hdial, hstream, hwrite, hreply, hm.1, hfield, Bool.not_false, if_true]
  unfold Loop.turn
  rw [hreturn, hfirst]
  rfl

/-- **The answer to a `Connect`.** For every run of the broker and every
client whose handler can write to it: the first control message written to the
client answers its `Connect` exactly if no signal of an exit for its session
is forwarded before the handler has answered. A client that reads such a
signal first takes it for the answer; on its first attempt the process
ends. -/
theorem answer_first_iff (hrun : (Broker.machine cfg users).Run tr b)
    (hc : (b.exitT c).pc = .idle) (hd : ∀ e ∈ tr, Delivers c e.pre e.act) :
    ((∀ m, (heard c tr).head? = some m → isAnswer m = true) ↔
      ∀ tr₁ e tr₂, tr = tr₁ ++ e :: tr₂ → heard c tr₁ = [] → ¬ Overtakes c e.pre e.act) ∧
    ∀ m, (heard c tr).head? = some m → isAnswer m = false →
      ∀ (full : Bool) (l : Loop) (x : Attempt), x.answer = some m → l.first = true →
        (l.turn full x false).status = .fatal "cannot connect: " := by
  refine ⟨⟨?_, ?_⟩, ?_⟩
  · rintro hfirst tr₁ e tr₂ rfl hquiet hover
    obtain ⟨-, hstep⟩ := hrun.at_event rfl
    generalize hact : e.act = a at hstep hover
    cases a with
    | exitCtrl r msg ok =>
      cases msg with
      | signal sid sg nonce =>
        obtain ⟨rfl, hcl, -⟩ := hover
        have hout : toExit c e.out = [.signal sid sg nonce] := heard_forward hstep hcl
        have hhead : (heard c (tr₁ ++ e :: tr₂)).head? = some (.signal sid sg nonce) := by
          rw [heard_append, hquiet, List.nil_append, heard, List.flatMap_cons, hout]
          rfl
        have := hfirst _ hhead
        cases this
      | _ => exact hover
    | _ => exact hover
  · intro hno m hhead
    by_contra hm
    obtain ⟨tr₁, e, tr₂, htr, hquiet, hover⟩ :=
      overtakes_of_first hrun hc hd hhead (Bool.eq_false_of_not_eq_true hm)
    exact hno tr₁ e tr₂ htr hquiet hover
  · intro m _ hm full l x hx hl
    exact turn_of_not_answer full hm hx hl

/-- The exit signals as soon as it has read `MsgSessionStart`, and the broker
forwards the signal before it writes `MsgConnectOK`. The client is in the
broker's table, and its process ends. -/
theorem answer_first_iff_overtaken : ∃ tr b, (Broker.machine {} aliceStore).Run tr b ∧
    b.sessions.lookup 1 = some 1 ∧ heard 1 tr = [.signal 1 [0x7b] "", Client.welcome] ∧
    (∃ tr₁ e tr₂, tr = tr₁ ++ e :: tr₂ ∧ heard 1 tr₁ = [] ∧ Overtakes 1 e.pre e.act) ∧
    (Loop.turn false {} { reply := .ok (.signal 1 [0x7b] "") } false).status =
      .fatal "cannot connect: " := by
  obtain ⟨tr, b, hr, hs, hidle, hd, hh⟩ := (Broker.machine {} aliceStore).exists_run
    (registers 0 (node "e1" "us" 0) ++
      .connect 1 (aliceConnect "us" "") :: List.replicate 8 (.client 1 {}) ++
      [.exitCtrl 0 (.signal 1 [0x7b] "") true, .client 1 {}])
    (P := fun r => r.2.sessions.lookup 1 = some 1 ∧ (r.2.exitT 1).pc = .idle ∧
      (∀ e ∈ r.1, Delivers 1 e.pre e.act) ∧ heard 1 r.1 = [.signal 1 [0x7b] "", Client.welcome])
    (by decide +kernel)
  obtain ⟨hiff, hgive⟩ := answer_first_iff hr hidle hd
  have hhead : (heard 1 tr).head? = some (.signal 1 [0x7b] "") := by rw [hh]; rfl
  refine ⟨tr, b, hr, hs, hh, ?_, hgive _ hhead rfl false {} _ rfl rfl⟩
  by_contra hno
  push Not at hno
  have := hiff.mpr (fun tr₁ e tr₂ htr hq => hno tr₁ e tr₂ htr hq) _ hhead
  cases this

end
end Link
end Revquic
