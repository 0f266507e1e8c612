/-
# Where a signal comes from

Neither the broker nor an end checks whom a signal is from: the broker
forwards by session id, a client takes every signal that arrives on its
connection. Still, what an end of a session takes in has been sent by an end
of the same session on the other side. The proof follows the signals through
the streams; the broker's part of it is that a client is sent signals of one
session only, the one it was told of.

Key definitions: `Assigned`, `Forwards`, `Sides`, `Sourced`, `Traced`.
Key theorem: `signals_agree`.
-/
import Revquic.Ice.Network

namespace Revquic
namespace Ice

open Lib Proto Broker
open Exit (Ptr Tables)
open Link (toExit Readers mem_toExit)

/-! ### What the broker keeps -/

/-- The handler of `c` has a session of that id, or has had one. -/
def Assigned (b : Broker.State) (c : Conn) (sid : ℕ) : Prop :=
  (b.client c).pc.born ∧ b.Made (b.client c).s ∧ (b.sess (b.client c).s).id = sid

section
variable {cfg : Broker.Config} {b b' : Broker.State} {a : Broker.Action} {o : List Out} {c d : Conn}
  {sid : ℕ}

theorem Assigned.unique {sid' : ℕ} (h : Assigned b c sid) (h' : Assigned b c sid') : sid = sid' :=
  h.2.2.symm.trans h'.2.2

theorem session_update {t' : ClientThread} (client : b'.client = Function.update b.client c t')
    (hd : (b.client d).pc.born) (h : (b.client c).pc.born → t'.s = (b.client c).s) :
    (b'.client d).s = (b.client d).s := by
  rw [client]
  rcases eq_or_ne d c with rfl | hne
  · rw [Function.update_self]
    exact h hd
  · rw [Function.update_of_ne hne]

/-- A handler that has a session keeps it for good. -/
theorem session_of_move (hm : Move cfg b a b' o) (hd : (b.client d).pc.born) :
    (b'.client d).s = (b.client d).s := by
  cases hm with
  | env _ client => rw [client]
  | connect c msg hu => exact session_update rfl hd (by simp [ClientPC.born, ClientPC.phase, hu.1])
  | register c msg => rw [handleExit_client]
  | walk c t' _ client _ _ hw =>
    refine session_update client hd fun hc => (hw.same ?_).2.1
    rcases hc with hc | hc <;> rw [hc] <;> decide
  | choose c i ex rr hpc | draw c i hpc | alloc c i addr pool hpc | insert c i hpc
  | resume c i p ex hpc =>
    exact session_update rfl hd (by simp [ClientPC.born, ClientPC.phase, hpc])
  | count c i | park c i q | close c i q pc' | vanish c i =>
    exact session_update rfl hd fun _ => rfl
  | expire => rfl

theorem Assigned.step (h : Assigned b c sid) (hrep : Rep b)
    (hs : Broker.step cfg b a = some (b', o)) : Assigned b' c sid := by
  have hm := step_move hs
  have hsame := session_of_move hm h.1
  refine ⟨hm.born h.1, ?_, ?_⟩
  · rw [hsame]
    exact made_of_move hrep hm h.2.1
  · rw [hsame, (hm.static hrep h.2.1).id]
    exact h.2.2

/-- A handler that runs a session has it. -/
theorem assigned_of_holds (hinv : Inv b) (h : (b.client c).pc.phase = .holds) :
    Assigned b c (b.sess (b.client c).s).id :=
  ⟨Or.inl h, (hinv.attach.runs c (Or.inl h)).1, rfl⟩

/-- `MsgConnectOK` tells a client the session of its handler. -/
theorem assigned_of_connectOK (hinv : Inv b) (hs : Broker.step cfg b a = some (b', o))
    {clientIP mask : String} {mtu : ℕ} {ice : IceServers}
    (hm : Out.ctrl c (.connectOK sid clientIP mask mtu ice) ∈ o) : Assigned b c sid := by
  cases says_of_step hinv.timers hs with
  | quiet side => exact absurd (side c _ hm) Bool.false_ne_true
  | reply d i pc =>
    obtain ⟨-, rfl, heq⟩ := mem_written hm
    have := hinv.replies c pc
    rw [← heq] at this
    cases this
  | connectOK d i pc =>
    obtain ⟨-, rfl, heq⟩ := mem_written hm
    injection heq with hsid
    rw [hsid]
    exact assigned_of_holds hinv (by rw [pc]; rfl)
  | welcome d ok pc | start d i pc | suspend d i pc | finish d i pc' pc =>
    obtain ⟨-, -, heq⟩ := mem_written hm
    cases heq
  | expire k ok p => simp at hm
  | expired k ok pc =>
    cases hex : (b.timer k).ex with
    | none => rw [hex] at hm; cases hm
    | some r =>
      rw [hex] at hm
      obtain ⟨-, -, heq⟩ := mem_written hm
      cases heq

/-- A signal goes out only in the step that reads it, to the exit of the
client that sent it, or to the client of the session it names. -/
inductive Forwards (b : Broker.State) (d : Conn) (m : Control) : Broker.Action → Prop
  | toExit (c : Conn) (ex : d = (b.client c).ex) (reading : (b.client c).reading = true) :
      Forwards b d m (.clientCtrl c m true)
  | toClient (r : Conn) (sid : ℕ) (sg : List UInt8) (nonce : String) (eq : m = .signal sid sg nonce)
      (client : b.clientOf sid = some d) : Forwards b d m (.exitCtrl r m true)

theorem forwards_of_step (hinv : Inv b) (hs : Broker.step cfg b a = some (b', o)) {sg : List UInt8}
    {nonce : String} (hm : Out.ctrl d (.signal sid sg nonce) ∈ o) :
    Forwards b d (.signal sid sg nonce) a := by
  -- what else is written is no signal
  have hother : ∀ {ok : Bool} {dst : Conn} {m : Control}, (∀ i x y, m ≠ .signal i x y) →
      Out.ctrl d (.signal sid sg nonce) ∉ written ok dst m := by
    intro ok dst m hne hmem
    obtain ⟨-, -, rfl⟩ := mem_written hmem
    exact hne _ _ _ rfl
  cases Broker.stepped_of_step hs with
  | clientCtrl c m ok reading step =>
    cases step with
    | forward dst i x y routed =>
      obtain ⟨rfl, rfl, heq⟩ := mem_written hm
      cases heq
      exact .toExit c (Option.some.inj routed).symm reading
    | ping i ts => exact absurd hm (hother nofun)
    | report | ignore => cases hm
  | exitCtrl r m ok pc step =>
    cases step with
    | forward dst i x y routed =>
      obtain ⟨rfl, rfl, heq⟩ := mem_written hm
      cases heq
      exact .toClient r sid sg nonce rfl routed
    | ping i ts => exact absurd hm (hother nofun)
    | report | ignore => cases hm
  | client c i step =>
    cases step with
    | reply pc =>
      obtain ⟨-, -, heq⟩ := mem_written hm
      have := hinv.replies c pc
      rw [← heq] at this
      cases this
    | start | startFailed | connectOK | suspend | finish => exact absurd hm (hother nofun)
    | started | close | bye => simp at hm
    | _ => cases hm
  | exit r ok step =>
    cases step with
    | refuse | welcome | notify => exact absurd hm (hother nofun)
    | publishUp | publishUpdate | publishGone | close => simp at hm
    | _ => cases hm
  | timer k ok step =>
    cases step with
    | write pc =>
      cases hex : (b.timer k).ex with
      | none => rw [hex] at hm; cases hm
      | some r =>
        rw [hex] at hm
        exact absurd hm (hother nofun)
    | expire | bye => simp at hm
    | _ => cases hm
  | relay => simp at hm
  | _ => cases hm

/-- The client that is sent the signals of a session was told of it. -/
theorem assigned_of_clientOf (hinv : Inv b) (h : b.clientOf sid = some c) : Assigned b c sid := by
  obtain ⟨p, hp, hcw⟩ := Option.map_eq_some_iff.mp h
  have hmade := hinv.rep.made p (live_of_sessions hp)
  have hholder := hinv.rep.holder sid p hp
  rw [← (hinv.attach.writers p hmade).2, hcw] at hholder
  refine ⟨Or.inl hholder.1, ?_, ?_⟩
  · rw [hholder.2]
    exact hmade
  · rw [hholder.2]
    exact hinv.rep.id_eq sid p hp

end

/-! ### The sides -/

/-- A side is as new until its connection is opened and answered. -/
structure Sides (w : State) : Prop where
  client : ∀ c, (w.client c).dial ≠ .off → (w.broker.client c).pc ≠ .idle
  exit : ∀ r, (w.exit r).dialled = true → (w.broker.exitT r).pc ≠ .idle
  early : ∀ c, (w.client c).dial = .off ∨ (w.client c).dial = .dialled → (w.client c).ice = {}
  unopened : ∀ r, (w.exit r).dialled = false → (w.exit r).next = 0
  fresh : ∀ r, (w.exit r).Fresh
  above : ∀ r p, (w.exit r).next ≤ p → (w.exit r).ice p = {}

section
variable {cfg : Config} {users : Userstore.Table} {w w' : State} {a : Action} {o : List Out}
  {b' : Broker.State} {c r : Conn} {tr : List (Event State Action Out)}

theorem Sides.init (users : Userstore.Table) : Sides { broker := newBroker users } where
  client c h := absurd rfl h
  exit r h := by cases h
  early c _ := rfl
  unopened r _ := rfl
  fresh r := ⟨nofun, nofun⟩
  above r p _ := rfl

/-- A handler that has started does not become idle. -/
theorem busy_of_step {a : Broker.Action} {b : Broker.State}
    (hs : Broker.step cfg.broker b a = some (b', o)) :
    (∀ d, (b.client d).pc ≠ .idle → (b'.client d).pc ≠ .idle) ∧
      ∀ d, (b.exitT d).pc ≠ .idle → (b'.exitT d).pc ≠ .idle := by
  refine ⟨fun d hd => ?_, fun d hd => ?_⟩
  · rcases (step_move hs).idle d with hiff | ⟨msg, -, hu⟩
    · exact fun h => hd (hiff.mp h)
    · exact absurd hu.1 hd
  · rcases (step_regMove hs).idle d with hiff | ⟨msg, -, hu⟩
    · exact fun h => hd (hiff.mp h)
    · exact absurd hu.2 hd

/-- The broker moves on, and the sides stay. -/
theorem Sides.move (h : Sides w) (hclient : w'.client = w.client) (hexit : w'.exit = w.exit)
    (hbusy : (∀ d, (w.broker.client d).pc ≠ .idle → (w'.broker.client d).pc ≠ .idle) ∧
      ∀ d, (w.broker.exitT d).pc ≠ .idle → (w'.broker.exitT d).pc ≠ .idle) : Sides w' := by
  refine ⟨fun c hc => ?_, fun r hr => ?_, ?_, ?_, ?_, ?_⟩
  · rw [hclient] at hc
    exact hbusy.1 c (h.client c hc)
  · rw [hexit] at hr
    exact hbusy.2 r (h.exit r hr)
  · rw [hclient]
    exact h.early
  all_goals rw [hexit]
  · exact h.unopened
  · exact h.fresh
  · exact h.above

/-- A client's side changes. -/
theorem Sides.setClient (h : Sides w) {k : ClientSide} (hbroker : w'.broker = w.broker)
    (hclient : w'.client = Function.update w.client c k) (hexit : w'.exit = w.exit)
    (hidle : k.dial ≠ .off → (w.broker.client c).pc ≠ .idle)
    (hearly : k.dial = .off ∨ k.dial = .dialled → k.ice = {}) : Sides w' := by
  refine ⟨fun d hd => ?_, ?_, fun d hd => ?_, ?_, ?_, ?_⟩
  · rw [hclient] at hd
    rw [hbroker]
    rcases eq_or_ne d c with rfl | hne
    · rw [Function.update_self] at hd
      exact hidle hd
    · rw [Function.update_of_ne hne] at hd
      exact h.client d hd
  · rw [hexit, hbroker]
    exact h.exit
  · rw [hclient] at hd ⊢
    rcases eq_or_ne d c with rfl | hne
    · rw [Function.update_self] at hd ⊢
      exact hearly hd
    · rw [Function.update_of_ne hne] at hd ⊢
      exact h.early d hd
  all_goals rw [hexit]
  · exact h.unopened
  · exact h.fresh
  · exact h.above

/-- An exit's side changes. -/
theorem Sides.setExit (h : Sides w) {x : ExitSide} (hbroker : w'.broker = w.broker)
    (hclient : w'.client = w.client) (hexit : w'.exit = Function.update w.exit r x)
    (hidle : x.dialled = true → (w.broker.exitT r).pc ≠ .idle)
    (hnew : x.dialled = false → x.next = 0) (hfresh : x.Fresh)
    (habove : ∀ p, x.next ≤ p → x.ice p = {}) : Sides w' := by
  refine ⟨?_, fun d hd => ?_, ?_, fun d hd => ?_, fun d => ?_, fun d p hp => ?_⟩
  · rw [hclient, hbroker]
    exact h.client
  · rw [hexit] at hd
    rw [hbroker]
    rcases eq_or_ne d r with rfl | hne
    · rw [Function.update_self] at hd
      exact hidle hd
    · rw [Function.update_of_ne hne] at hd
      exact h.exit d hd
  · rw [hclient]
    exact h.early
  all_goals rw [hexit] at *
  all_goals rcases eq_or_ne d r with rfl | hne
  · rw [Function.update_self] at hd ⊢
    exact hnew hd
  · rw [Function.update_of_ne hne] at hd ⊢
    exact h.unopened d hd
  · rw [Function.update_self]
    exact hfresh
  · rw [Function.update_of_ne hne]
    exact h.fresh d
  · rw [Function.update_self] at hp ⊢
    exact habove p hp
  · rw [Function.update_of_ne hne] at hp ⊢
    exact h.above d p hp

/-- The tables and the ends that a message leaves. -/
theorem Received.sides {x x' : ExitSide} {direct : Bool} {m : Control} (h : Received x direct m x')
    (hf : x.Fresh) (ha : ∀ p, x.next ≤ p → x.ice p = {}) :
    x'.dialled = x.dialled ∧ x'.Fresh ∧ ∀ p, x'.next ≤ p → x'.ice p = {} := by
  cases h with
  | greeting | ignore => exact ⟨rfl, hf, ha⟩
  | signal sid sg nonce p s eq known =>
    refine ⟨rfl, hf, fun q hq => ?_⟩
    have hqp : q ≠ p := by
      rintro rfl
      exact absurd (hf.below sid q known) (Nat.not_lt.mpr hq)
    exact (Function.update_of_ne hqp _ _).trans (ha q hq)
  | add sid clientIP mask mtu ice ip eq unknown =>
    refine ⟨rfl, hf.finishAdd, fun q hq => ?_⟩
    have hq' : x.next < q := hq
    dsimp only
    split_ifs
    · rw [Function.update_of_ne hq'.ne']
      exact ha q hq'.le
    · exact ha q hq'.le
  | flag sid p suspended known => exact ⟨rfl, hf.setES rfl, ha⟩
  | remove sid eq =>
    exact ⟨rfl, hf.removeSession sid, fun q hq => ha q (Tables.removeSession_next sid ▸ hq)⟩

/-- An end that has not been started takes no step. -/
theorem not_ticked_new {sessionID : String} {p2pOnly : Bool} {t : Tick} {e' : Endpoint}
    {out : List Signal} : ¬ Ticked sessionID p2pOnly {} t e' out := by
  intro h
  cases h with
  | read s rest reading => cases reading
  | fail t err pc => exact pc rfl
  | candidate c sent pc => cases pc
  | agent creds pc | offer pc | gather pc | take r pc | connected r pair pc | linked r pc => cases pc

theorem Sides.step (h : Sides w) (hs : step cfg w a = some (w', o)) : Sides w' := by
  cases stepped_of_step hs with
  | broker a b' o other hb =>
    have hmoved : Sides (w.afterBroker b' o) := h.move rfl rfl (busy_of_step hb)
    cases a with
    | connect c msg =>
      have hpc : (b'.client c).pc ≠ .idle := by
        cases Broker.stepped_of_step hb with
        | connect c msg unused => simp
      exact hmoved.setClient rfl rfl rfl (fun _ => hpc) fun _ => rfl
    | register r msg =>
      have hpc : (b'.exitT r).pc ≠ .idle := by
        cases Broker.stepped_of_step hb with
        | register r msg unused =>
          unfold handleExit
          split <;> simp
      exact hmoved.setExit rfl rfl rfl (fun _ => hpc) nofun ⟨nofun, nofun⟩ fun _ _ => rfl
    | _ => exact hmoved
  | relayClient c ok m rest b' o up hb | relayExit r ok m rest b' o up hb =>
    exact h.move rfl rfl (busy_of_step hb)
  | answer c m rest down dial =>
    have hpc : (w.broker.client c).pc ≠ .idle := h.client c (by rw [dial]; decide)
    refine h.setClient rfl rfl rfl (fun _ => hpc) fun hk => ?_
    unfold ClientSide.answer at hk
    split at hk <;> rcases hk with hk | hk <;> cases hk
  | control c m rest down dial =>
    have hpc : (w.broker.client c).pc ≠ .idle := h.client c (by rw [dial]; decide)
    refine h.setClient rfl rfl rfl (fun _ => hpc) fun hk => ?_
    have hdial : ((w.client c).control m).dial = .running ∨ ((w.client c).control m).dial = .over := by
      unfold ClientSide.control
      split
      · split <;> exact Or.inl dial
      · exact Or.inr rfl
      · exact Or.inl dial
    rcases hdial with hd | hd <;> rw [hd] at hk <;> rcases hk with hk | hk <;> cases hk
  | lost c dial =>
    have hpc : (w.broker.client c).pc ≠ .idle :=
      h.client c (by rcases dial with dial | dial <;> rw [dial] <;> decide)
    refine h.setClient rfl rfl rfl (fun _ => hpc) fun hk => ?_
    rcases hk with hk | hk <;> cases hk
  | clientTick c t e out tick writes =>
    refine h.setClient rfl rfl rfl (h.client c) fun hk => ?_
    rw [h.early c hk] at tick
    exact absurd tick not_ticked_new
  | exitRecv r m rest down dialled =>
    obtain ⟨hd, hf, ha⟩ := (received_recv (w.exit r) (cfg.exitDirect r) m).sides (h.fresh r) (h.above r)
    refine h.setExit rfl rfl rfl (fun _ => h.exit r dialled) (fun hx => ?_) hf ha
    rw [hd, dialled] at hx
    cases hx
  | exitTick r p cur t e out tick =>
    refine h.setExit rfl rfl rfl (h.exit r) (h.unopened r) (h.fresh r) fun q hq => ?_
    have hqp : q ≠ p := by
      rintro rfl
      rw [h.above r q hq] at tick
      exact absurd tick not_ticked_new
    exact (Function.update_of_ne hqp _ _).trans (h.above r q hq)

/-! ### What has been sent stays sent -/

/-- An end of session `sid` on an exit has sent `s`. -/
def FromExit (w : State) (sid : ℕ) (s : Signal) : Prop :=
  ∃ r p, p < (w.exit r).next ∧ ((w.exit r).es p).sid = sid ∧ Emitted ((w.exit r).ice p) s

/-- A client of session `sid` has sent `s`. -/
def FromClient (w : State) (sid : ℕ) (s : Signal) : Prop :=
  ∃ c, (w.client c).sid = sid ∧ Emitted (w.client c).ice s

/-- The sides of `w'` have sent what those of `w` have. -/
structure Grow (w w' : State) : Prop where
  exits : ∀ r p, p < (w.exit r).next → p < (w'.exit r).next ∧
    ((w'.exit r).es p).sid = ((w.exit r).es p).sid ∧
    ∀ s, Emitted ((w.exit r).ice p) s → Emitted ((w'.exit r).ice p) s
  clients : ∀ c s, Emitted (w.client c).ice s →
    (w'.client c).sid = (w.client c).sid ∧ Emitted (w'.client c).ice s

theorem Grow.fromExit (h : Grow w w') {sid : ℕ} {s : Signal} (hs : FromExit w sid s) :
    FromExit w' sid s := by
  obtain ⟨r, p, hp, hsid, he⟩ := hs
  obtain ⟨hp', hsid', he'⟩ := h.exits r p hp
  exact ⟨r, p, hp', hsid'.trans hsid, he' s he⟩

theorem Grow.fromClient (h : Grow w w') {sid : ℕ} {s : Signal} (hs : FromClient w sid s) :
    FromClient w' sid s := by
  obtain ⟨c, hsid, he⟩ := hs
  obtain ⟨hsid', he'⟩ := h.clients c s he
  exact ⟨c, hsid'.trans hsid, he'⟩

theorem Grow.same (hexit : w'.exit = w.exit) (hclient : w'.client = w.client) : Grow w w' := by
  refine ⟨fun r p hp => ?_, fun c s hs => ?_⟩
  · rw [hexit]
    exact ⟨hp, rfl, fun _ h => h⟩
  · rw [hclient]
    exact ⟨rfl, hs⟩

theorem Grow.setClient {k : ClientSide} (hexit : w'.exit = w.exit)
    (hclient : w'.client = Function.update w.client c k)
    (hk : ∀ s, Emitted (w.client c).ice s → k.sid = (w.client c).sid ∧ Emitted k.ice s) :
    Grow w w' := by
  refine ⟨fun r p hp => ?_, fun d s hs => ?_⟩
  · rw [hexit]
    exact ⟨hp, rfl, fun _ h => h⟩
  · rw [hclient]
    rcases eq_or_ne d c with rfl | hne
    · rw [Function.update_self]
      exact hk s hs
    · rw [Function.update_of_ne hne]
      exact ⟨rfl, hs⟩

theorem Grow.setExit {x : ExitSide} (hclient : w'.client = w.client)
    (hexit : w'.exit = Function.update w.exit r x)
    (hx : ∀ p, p < (w.exit r).next → p < x.next ∧ (x.es p).sid = ((w.exit r).es p).sid ∧
      ∀ s, Emitted ((w.exit r).ice p) s → Emitted (x.ice p) s) : Grow w w' := by
  refine ⟨fun d p hp => ?_, fun d s hs => ?_⟩
  · rw [hexit]
    rcases eq_or_ne d r with rfl | hne
    · rw [Function.update_self]
      exact hx p hp
    · rw [Function.update_of_ne hne]
      exact ⟨hp, rfl, fun _ h => h⟩
  · rw [hclient]
    exact ⟨rfl, hs⟩

/-- The session of a pointer and what its end has sent outlive a message. -/
theorem Received.grow {x x' : ExitSide} {direct : Bool} {m : Control} (h : Received x direct m x')
    {p : Ptr} (hp : p < x.next) : p < x'.next ∧ (x'.es p).sid = (x.es p).sid ∧
      ∀ s, Emitted (x.ice p) s → Emitted (x'.ice p) s := by
  cases h with
  | greeting | ignore => exact ⟨hp, rfl, fun _ h => h⟩
  | signal sid sg nonce q s eq known =>
    refine ⟨hp, rfl, fun s' hs' => ?_⟩
    dsimp only
    rcases eq_or_ne p q with rfl | hne
    · rw [Function.update_self]
      exact emitted_deliver hs'
    · rw [Function.update_of_ne hne]
      exact hs'
  | add sid clientIP mask mtu ice ip eq unknown =>
    refine ⟨Nat.lt_succ_of_lt hp, congrArg _ (Function.update_of_ne hp.ne _ _), fun s' hs' => ?_⟩
    dsimp only
    split_ifs
    · rw [Function.update_of_ne hp.ne]
      exact hs'
    · exact hs'
  | flag sid q suspended known => exact ⟨hp, Tables.setES_sid rfl, fun _ h => h⟩
  | remove sid eq =>
    refine ⟨?_, ?_, fun _ h => h⟩
    · show p < (x.removeSession sid).next
      rw [Tables.removeSession_next]
      exact hp
    · show ((x.removeSession sid).es p).sid = _
      rw [Tables.removeSession_es]

theorem grow_of_step (h : Sides w) (hs : step cfg w a = some (w', o)) : Grow w w' := by
  cases stepped_of_step hs with
  | broker a b' o other hb =>
    cases a with
    | connect c msg =>
      have hoff : (w.client c).dial = .off := by
        by_contra hne
        cases Broker.stepped_of_step hb with
        | connect c msg unused => exact h.client c hne unused.1
      refine .setClient rfl rfl fun s hs => ?_
      rw [h.early c (Or.inl hoff)] at hs
      exact absurd hs (not_emitted_new s)
    | register r msg =>
      have hoff : (w.exit r).dialled = false := by
        by_contra hne
        cases Broker.stepped_of_step hb with
        | register r msg unused => exact h.exit r (Bool.eq_true_of_not_eq_false hne) unused.2
      refine .setExit rfl rfl fun p hp => ?_
      rw [h.unopened r hoff] at hp
      cases hp
    | _ => exact .same rfl rfl
  | relayClient | relayExit => exact .same rfl rfl
  | answer c m rest down dial =>
    refine .setClient rfl rfl fun s hs => ?_
    rw [h.early c (Or.inr dial)] at hs
    exact absurd hs (not_emitted_new s)
  | control c m rest down dial =>
    refine .setClient rfl rfl fun s he => ?_
    unfold ClientSide.control
    split
    · split
      · exact ⟨rfl, he⟩
      · exact ⟨rfl, emitted_deliver he⟩
    · exact ⟨rfl, he⟩
    · exact ⟨rfl, he⟩
  | lost c dial => exact .setClient rfl rfl fun s he => ⟨rfl, he⟩
  | clientTick c t e out tick writes =>
    exact .setClient rfl rfl fun s hs => ⟨rfl, tick.emitted hs⟩
  | exitRecv r m rest down dialled =>
    exact .setExit rfl rfl fun p hp => (received_recv (w.exit r) (cfg.exitDirect r) m).grow hp
  | exitTick r p cur t e out tick =>
    refine .setExit rfl rfl fun q hq => ⟨hq, rfl, fun s he => ?_⟩
    dsimp only
    rcases eq_or_ne q p with rfl | hne
    · rw [Function.update_self]
      exact tick.emitted he
    · rw [Function.update_of_ne hne]
      exact he

/-! ### Following the signals -/

/-- A signal with the credentials of an end of session `sid`. -/
def credsOf (sid : ℕ) : Control → Bool
  | .signal i sg _ => i = sid && ((Signal.unmarshal sg).map (·.kind) = some .credentials)
  | _ => false

/-- To whom they go. -/
def credsTo (sid : ℕ) : Out → Option Conn
  | .ctrl d m => if credsOf sid m then some d else none
  | _ => none

/-- The clients to which the credentials of session `sid` have been forwarded
from exit `r`. -/
def offers (r : Conn) (sid : ℕ) (tr : List (Event State Action Out)) : List Conn :=
  tr.flatMap fun e =>
    match e.act with
    | .relayExit r' _ => if r' = r then e.out.filterMap (credsTo sid) else []
    | _ => []

theorem offers_append (r : Conn) (sid : ℕ) (tr tr' : List (Event State Action Out)) :
    offers r sid (tr ++ tr') = offers r sid tr ++ offers r sid tr' := List.flatMap_append

theorem credsOf_signalMsg (sid i : ℕ) (s : Signal) :
    credsOf sid (signalMsg i s) = (decide (i = sid) && decide (s.kind = .credentials)) := by
  simp [credsOf, signalMsg, s.unmarshal_marshal]

/-- Every signal on a stream or with an end is accounted for: those of the
exits by `E`, those of the clients by `C`, and those a client is sent by
`R`. -/
structure Sourced (E C : ℕ → Signal → Prop) (R : Conn → ℕ → Signal → Prop) (w : State) : Prop where
  exitUp : ∀ r, ∀ m ∈ w.exitUp r, ∃ sid s, m = signalMsg sid s ∧ E sid s
  clientUp : ∀ c, ∀ m ∈ w.clientUp c, ∃ sid s, m = signalMsg sid s ∧ C sid s
  sentClient : ∀ c sid sg nonce, (w.broker.exitT c).pc = .idle → .signal sid sg nonce ∈ w.down c →
    Assigned w.broker c sid ∧ ∃ s, Signal.unmarshal sg = some s ∧ R c sid s
  sentExit : ∀ r sid sg nonce, (w.broker.client r).pc = .idle → .signal sid sg nonce ∈ w.down r →
    ∃ s, Signal.unmarshal sg = some s ∧ C sid s
  told : ∀ c sid clientIP mask mtu ice, .connectOK sid clientIP mask mtu ice ∈ w.down c →
    Assigned w.broker c sid
  running : ∀ c, (w.client c).dial = .running → Assigned w.broker c (w.client c).sid
  client : ∀ c, Heeds (R c (w.client c).sid) (w.client c).ice
  exit : ∀ r p, Heeds (C ((w.exit r).es p).sid) ((w.exit r).ice p)

variable {E C E' C' : ℕ → Signal → Prop} {R R' : Conn → ℕ → Signal → Prop}

theorem Sourced.mono (h : Sourced E C R w) (hE : ∀ sid s, E sid s → E' sid s)
    (hC : ∀ sid s, C sid s → C' sid s) (hR : ∀ c sid s, R c sid s → R' c sid s) :
    Sourced E' C' R' w where
  exitUp r m hm := by
    obtain ⟨sid, s, heq, hs⟩ := h.exitUp r m hm
    exact ⟨sid, s, heq, hE sid s hs⟩
  clientUp c m hm := by
    obtain ⟨sid, s, heq, hs⟩ := h.clientUp c m hm
    exact ⟨sid, s, heq, hC sid s hs⟩
  sentClient c sid sg nonce hc hm := by
    obtain ⟨ha, s, hread, hs⟩ := h.sentClient c sid sg nonce hc hm
    exact ⟨ha, s, hread, hR c sid s hs⟩
  sentExit r sid sg nonce hr hm := by
    obtain ⟨s, hread, hs⟩ := h.sentExit r sid sg nonce hr hm
    exact ⟨s, hread, hC sid s hs⟩
  told := h.told
  running := h.running
  client c := (h.client c).mono (hR c _)
  exit r p := (h.exit r p).mono (hC _)

/-- What is left of a stream was on it. -/
theorem mem_of_mem_tail {f : Conn → List Control} {c d : Conn} {m x : Control} {rest : List Control}
    (h : f c = m :: rest) (hx : x ∈ Function.update f c rest d) : x ∈ f d := by
  rcases eq_or_ne d c with rfl | hne
  · rw [Function.update_self] at hx
    rw [h]
    exact List.mem_cons_of_mem _ hx
  · rwa [Function.update_of_ne hne] at hx

/-- The broker takes a step; `hnew` accounts for the signals it writes. -/
theorem Sourced.move (h : Sourced E C R w) (hinv : Inv w.broker) {a : Broker.Action}
    (hb : Broker.step cfg.broker w.broker a = some (w'.broker, o))
    (hdown : ∀ d, w'.down d = w.down d ++ toExit d o)
    (hup : ∀ r, ∀ m ∈ w'.exitUp r, m ∈ w.exitUp r)
    (hup' : ∀ c, ∀ m ∈ w'.clientUp c, m ∈ w.clientUp c)
    (hrunning : ∀ c, (w'.client c).dial = .running → Assigned w.broker c (w'.client c).sid)
    (hclient : ∀ c, Heeds (R c (w'.client c).sid) (w'.client c).ice)
    (hexit : ∀ r p, Heeds (C ((w'.exit r).es p).sid) ((w'.exit r).ice p))
    (hnew : ∀ d sid sg nonce, Out.ctrl d (.signal sid sg nonce) ∈ o →
      ((w.broker.exitT d).pc = .idle → Assigned w.broker d sid ∧
        ∃ s, Signal.unmarshal sg = some s ∧ R d sid s) ∧
      ((w.broker.client d).pc = .idle → ∃ s, Signal.unmarshal sg = some s ∧ C sid s)) :
    Sourced E C R w' := by
  obtain ⟨hbusy, hbusy'⟩ := busy_of_step hb
  have hidle : ∀ d, (w'.broker.client d).pc = .idle → (w.broker.client d).pc = .idle :=
    fun d hd => by_contra fun hne => hbusy d hne hd
  have hidle' : ∀ d, (w'.broker.exitT d).pc = .idle → (w.broker.exitT d).pc = .idle :=
    fun d hd => by_contra fun hne => hbusy' d hne hd
  refine ⟨fun r m hm => h.exitUp r m (hup r m hm), fun c m hm => h.clientUp c m (hup' c m hm),
    fun c sid sg nonce hc hm => ?_, fun r sid sg nonce hr hm => ?_,
    fun c sid clientIP mask mtu ice hm => ?_, fun c hc => (hrunning c hc).step hinv.rep hb,
    hclient, hexit⟩
  · rw [hdown, List.mem_append] at hm
    have hold : Assigned w.broker c sid ∧ ∃ s, Signal.unmarshal sg = some s ∧ R c sid s := by
      rcases hm with hm | hm
      · exact h.sentClient c sid sg nonce (hidle' c hc) hm
      · exact (hnew c sid sg nonce (mem_toExit hm)).1 (hidle' c hc)
    exact ⟨hold.1.step hinv.rep hb, hold.2⟩
  · rw [hdown, List.mem_append] at hm
    rcases hm with hm | hm
    · exact h.sentExit r sid sg nonce (hidle r hr) hm
    · exact (hnew r sid sg nonce (mem_toExit hm)).2 (hidle r hr)
  · rw [hdown, List.mem_append] at hm
    rcases hm with hm | hm
    · exact (h.told c sid clientIP mask mtu ice hm).step hinv.rep hb
    · exact (assigned_of_connectOK hinv hb (mem_toExit hm)).step hinv.rep hb

/-- A client reads a message, loses its connection, or its end takes a
step. -/
theorem Sourced.setClient (h : Sourced E C R w) {k : ClientSide} (hbroker : w'.broker = w.broker)
    (hexit : w'.exit = w.exit) (hclient : w'.client = Function.update w.client c k)
    (hup : w'.exitUp = w.exitUp) (hdown : ∀ d, ∀ m ∈ w'.down d, m ∈ w.down d)
    (hup' : ∀ d, ∀ m ∈ w'.clientUp d, m ∈ w.clientUp d ∨ ∃ sid s, m = signalMsg sid s ∧ C sid s)
    (hrunning : k.dial = .running → Assigned w.broker c k.sid)
    (hheeds : Heeds (R c k.sid) k.ice) : Sourced E C R w' := by
  refine ⟨by rw [hup]; exact h.exitUp, fun d m hm => ?_, fun d sid sg nonce hd hm => ?_,
    fun r sid sg nonce hr hm => ?_, fun d sid clientIP mask mtu ice hm => ?_, fun d hd => ?_,
    fun d => ?_, by rw [hexit]; exact h.exit⟩
  · rcases hup' d m hm with hm | hm
    · exact h.clientUp d m hm
    · exact hm
  · rw [hbroker] at hd ⊢
    exact h.sentClient d sid sg nonce hd (hdown d _ hm)
  · rw [hbroker] at hr
    exact h.sentExit r sid sg nonce hr (hdown r _ hm)
  · rw [hbroker]
    exact h.told d sid clientIP mask mtu ice (hdown d _ hm)
  · rw [hclient] at hd ⊢
    rw [hbroker]
    rcases eq_or_ne d c with rfl | hne
    · rw [Function.update_self] at hd ⊢
      exact hrunning hd
    · rw [Function.update_of_ne hne] at hd ⊢
      exact h.running d hd
  · rw [hclient]
    rcases eq_or_ne d c with rfl | hne
    · rw [Function.update_self]
      exact hheeds
    · rw [Function.update_of_ne hne]
      exact h.client d

/-- An exit reads a message, or one of its ends takes a step. -/
theorem Sourced.setExit (h : Sourced E C R w) {x : ExitSide} (hbroker : w'.broker = w.broker)
    (hclient : w'.client = w.client) (hexit : w'.exit = Function.update w.exit r x)
    (hup' : w'.clientUp = w.clientUp) (hdown : ∀ d, ∀ m ∈ w'.down d, m ∈ w.down d)
    (hup : ∀ d, ∀ m ∈ w'.exitUp d, m ∈ w.exitUp d ∨ ∃ sid s, m = signalMsg sid s ∧ E sid s)
    (hheeds : ∀ p, Heeds (C (x.es p).sid) (x.ice p)) : Sourced E C R w' := by
  refine ⟨fun d m hm => ?_, by rw [hup']; exact h.clientUp, fun d sid sg nonce hd hm => ?_,
    fun d sid sg nonce hd hm => ?_, fun d sid clientIP mask mtu ice hm => ?_,
    by rw [hclient, hbroker]; exact h.running, by rw [hclient]; exact h.client, fun d p => ?_⟩
  · rcases hup d m hm with hm | hm
    · exact h.exitUp d m hm
    · exact hm
  · rw [hbroker] at hd ⊢
    exact h.sentClient d sid sg nonce hd (hdown d _ hm)
  · rw [hbroker] at hd
    exact h.sentExit d sid sg nonce hd (hdown d _ hm)
  · rw [hbroker]
    exact h.told d sid clientIP mask mtu ice (hdown d _ hm)
  · rw [hexit]
    rcases eq_or_ne d r with rfl | hne
    · rw [Function.update_self]
      exact hheeds p
    · rw [Function.update_of_ne hne]
      exact h.exit d p

/-- What a client is sent: a signal of an end of its session, and, if it is
the credentials, one the broker has forwarded from an exit. -/
def Reached (tr : List (Event State Action Out)) (w : State) (c : Conn) (sid : ℕ) (s : Signal) :
    Prop :=
  FromExit w sid s ∧ (s.kind = .credentials → ∃ r, c ∈ offers r sid tr)

/-- The ends of an exit after a message: what is new comes from the stream. -/
theorem Received.heeds {x x' : ExitSide} {direct : Bool} {m : Control} (h : Received x direct m x')
    (hf : x.Fresh) (ha : ∀ p, x.next ≤ p → x.ice p = {})
    (hx : ∀ p, Heeds (C (x.es p).sid) (x.ice p))
    (hm : ∀ sid sg nonce, m = .signal sid sg nonce → ∃ s, Signal.unmarshal sg = some s ∧ C sid s)
    (p : Ptr) : Heeds (C (x'.es p).sid) (x'.ice p) := by
  cases h with
  | greeting | ignore => exact hx p
  | signal sid sg nonce q s eq known read =>
    obtain ⟨s', hread, hs⟩ := hm sid sg nonce eq
    obtain rfl := Option.some.inj (read.symm.trans hread)
    dsimp only
    rcases eq_or_ne p q with rfl | hne
    · rw [Function.update_self]
      rw [← hf.own sid p known] at hs
      exact (hx p).deliver hs
    · rw [Function.update_of_ne hne]
      exact hx p
  | add sid clientIP mask mtu ice ip eq unknown =>
    dsimp only [Tables.finishAdd]
    rcases eq_or_ne p x.next with rfl | hne
    · rw [Function.update_self]
      split_ifs
      · rw [Function.update_self]
        exact heeds_new _ _ rfl
      · rw [ha x.next (Nat.le_refl _)]
        exact heeds_new _ _ rfl
    · rw [Function.update_of_ne hne]
      split_ifs
      · rw [Function.update_of_ne hne]
        exact hx p
      · exact hx p
  | flag sid q suspended known =>
    have hsid : ((x.setES q { x.es q with suspended }).es p).sid = _ := Tables.setES_sid rfl
    show Heeds (C ((x.setES q { x.es q with suspended }).es p).sid) (x.ice p)
    rw [hsid]
    exact hx p
  | remove sid eq =>
    show Heeds (C ((x.removeSession sid).es p).sid) (x.ice p)
    rw [Tables.removeSession_es]
    exact hx p

/-- The invariant of the accounting. -/
structure Traced (tr : List (Event State Action Out)) (w : State) : Prop where
  inv : Inv w.broker
  readers : Readers w.broker
  sides : Sides w
  sourced : Sourced (FromExit w) (FromClient w) (Reached tr w) w

theorem Traced.init (users : Userstore.Table) : Traced [] { broker := newBroker users } where
  inv := Inv.init users
  readers c hc := by cases hc
  sides := Sides.init users
  sourced :=
    { exitUp := fun r m hm => by cases hm
      clientUp := fun c m hm => by cases hm
      sentClient := fun c sid sg nonce _ hm => by cases hm
      sentExit := fun r sid sg nonce _ hm => by cases hm
      told := fun c sid clientIP mask mtu ice hm => by cases hm
      running := fun c hc => by cases hc
      client := fun c => heeds_new _ _ rfl
      exit := fun r p => heeds_new _ _ rfl }

/-- An exit is no client, and a client no exit. -/
theorem forwards_kinds {b : Broker.State} (hinv : Inv b) (hr : Readers b) {d : Conn} {m : Control}
    {a : Broker.Action} (h : Forwards b d m a) :
    (∃ c, a = .clientCtrl c m true ∧ (b.exitT d).pc ≠ .idle) ∨
      ∃ r sid sg nonce, a = .exitCtrl r m true ∧ m = .signal sid sg nonce ∧
        b.clientOf sid = some d ∧ (b.client d).pc ≠ .idle := by
  cases h with
  | toExit c ex reading =>
    refine Or.inl ⟨c, rfl, ?_⟩
    rw [ex]
    exact hinv.reg.served _ (hr c reading).2
  | toClient r sid sg nonce eq client =>
    refine Or.inr ⟨r, sid, sg, nonce, rfl, eq, client, ?_⟩
    rcases (assigned_of_clientOf hinv client).1 with hph | hph <;> intro hidle <;>
      rw [hidle] at hph <;> cases hph

/-- A side is as it was, or its connection has just been opened. -/
theorem opened_sides (w : State) (a : Broker.Action) :
    (∀ c, (w.opened a).client c = w.client c ∨ (w.opened a).client c = { dial := .dialled }) ∧
    (∀ r, (w.opened a).exit r = w.exit r ∨ (w.opened a).exit r = { dialled := true }) ∧
    (w.opened a).down = w.down ∧ (w.opened a).exitUp = w.exitUp ∧
    (w.opened a).clientUp = w.clientUp := by
  cases a with
  | connect c msg =>
    refine ⟨fun d => ?_, fun r => Or.inl rfl, rfl, rfl, rfl⟩
    show Function.update w.client c _ d = _ ∨ Function.update w.client c _ d = _
    rcases eq_or_ne d c with rfl | hne
    · exact Or.inr (Function.update_self ..)
    · exact Or.inl (Function.update_of_ne hne ..)
  | register r msg =>
    refine ⟨fun c => Or.inl rfl, fun d => ?_, rfl, rfl, rfl⟩
    show Function.update w.exit r _ d = _ ∨ Function.update w.exit r _ d = _
    rcases eq_or_ne d r with rfl | hne
    · exact Or.inr (Function.update_self ..)
    · exact Or.inl (Function.update_of_ne hne ..)
  | _ => exact ⟨fun c => Or.inl rfl, fun r => Or.inl rfl, rfl, rfl, rfl⟩

/-- A step of the broker that reads no signal. -/
theorem Sourced.broker (h : Sourced E C R w) (hinv : Inv w.broker) {a : Broker.Action}
    (other : readsSignal a = false) (hb : Broker.step cfg.broker w.broker a = some (b', o)) :
    Sourced E C R ((w.opened a).afterBroker b' o) := by
  have hnew : ∀ d sid sg nonce, Out.ctrl d (.signal sid sg nonce) ∉ o := by
    intro d sid sg nonce hm
    cases forwards_of_step hinv hb hm <;> cases other
  obtain ⟨hclient, hexit, hdown, hup, hup'⟩ := opened_sides w a
  refine h.move hinv hb (fun d => ?_) (fun r m hm => ?_)
    (fun c m hm => ?_) (fun c hc => ?_) (fun c => ?_) (fun r p => ?_)
    fun d sid sg nonce hm => absurd hm (hnew d sid sg nonce)
  · exact congrArg (· d ++ toExit d o) hdown
  · exact congrFun hup r ▸ hm
  · exact congrFun hup' c ▸ hm
  · show Assigned w.broker c ((w.opened a).client c).sid
    have hc' : ((w.opened a).client c).dial = .running := hc
    rcases hclient c with heq | heq <;> rw [heq] at hc' ⊢
    · exact h.running c hc'
    · cases hc'
  · show Heeds (R c ((w.opened a).client c).sid) ((w.opened a).client c).ice
    rcases hclient c with heq | heq <;> rw [heq]
    · exact h.client c
    · exact heeds_new _ _ rfl
  · show Heeds (C (((w.opened a).exit r).es p).sid) (((w.opened a).exit r).ice p)
    rcases hexit r with heq | heq <;> rw [heq]
    · exact h.exit r p
    · exact heeds_new _ _ rfl

/-- The broker forwards a client's signal. -/
theorem Sourced.relayClient (h : Sourced E C R w) (hinv : Inv w.broker) (hr : Readers w.broker)
    {ok : Bool} {m : Control} {rest : List Control} (up : w.clientUp c = m :: rest)
    (hb : Broker.step cfg.broker w.broker (.clientCtrl c m ok) = some (b', o)) :
    Sourced E C R ({ w with clientUp := Function.update w.clientUp c rest }.afterBroker b' o) := by
  refine h.move hinv hb (fun _ => rfl) (fun _ _ hm => hm) (fun d x hx => mem_of_mem_tail up hx)
    h.running h.client h.exit fun d sid sg nonce hm => ?_
  rcases forwards_kinds hinv hr (forwards_of_step hinv hb hm) with ⟨c', hact, hkind⟩ |
      ⟨r, i, x, y, hact, -⟩
  · refine ⟨fun hidle => absurd hidle hkind, fun _ => ?_⟩
    obtain ⟨sid', s, heq, hs⟩ := h.clientUp c m (by rw [up]; exact List.mem_cons_self)
    injection hact with hcc hmm
    rw [heq] at hmm
    injection hmm with hsid hsg
    exact ⟨s, by rw [← hsg]; exact s.unmarshal_marshal, by rw [← hsid]; exact hs⟩
  · cases hact

/-- The broker forwards an exit's signal; `hR` accounts for it at the
client. -/
theorem Sourced.relayExit (h : Sourced E C R w) (hinv : Inv w.broker) (hr : Readers w.broker)
    {ok : Bool} {m : Control} {rest : List Control} (up : w.exitUp r = m :: rest)
    (hb : Broker.step cfg.broker w.broker (.exitCtrl r m ok) = some (b', o))
    (hR : ∀ d sid s, Out.ctrl d (signalMsg sid s) ∈ o → E sid s → R d sid s) :
    Sourced E C R ({ w with exitUp := Function.update w.exitUp r rest }.afterBroker b' o) := by
  refine h.move hinv hb (fun _ => rfl) (fun d x hx => mem_of_mem_tail up hx) (fun _ _ hm => hm)
    h.running h.client h.exit fun d sid sg nonce hm => ?_
  rcases forwards_kinds hinv hr (forwards_of_step hinv hb hm) with ⟨c', hact, -⟩ |
      ⟨r', i, x, y, hact, hsig, hcl, hkind⟩
  · cases hact
  · refine ⟨fun _ => ?_, fun hidle => absurd hidle hkind⟩
    obtain ⟨sid', s, heq, hs⟩ := h.exitUp r m (by rw [up]; exact List.mem_cons_self)
    injection hact with hrr hmm
    rw [heq] at hmm
    rw [← hmm] at hm
    injection hmm with hsid hsg
    injection hsig with hi
    subst hsid hi
    exact ⟨assigned_of_clientOf hinv hcl, s, by rw [← hsg]; exact s.unmarshal_marshal,
      hR d sid' s hm hs⟩

/-- What is sent is written behind what is on the stream. -/
theorem mem_of_mem_sent {f : Conn → List Control} {c d : Conn} {out : List Signal} {sid : ℕ}
    {x : Control} (hx : x ∈ Function.update f c (f c ++ out.map (signalMsg sid)) d) :
    x ∈ f d ∨ ∃ s ∈ out, x = signalMsg sid s := by
  rcases eq_or_ne d c with rfl | hne
  · rw [Function.update_self, List.mem_append] at hx
    refine hx.imp_right fun hx => ?_
    obtain ⟨s, hs, rfl⟩ := List.mem_map.mp hx
    exact ⟨s, hs, rfl⟩
  · rw [Function.update_of_ne hne] at hx
    exact Or.inl hx

/-- A client reads the answer to its `Connect`. -/
theorem Sourced.answer (h : Sourced E C R w) {m : Control} {rest : List Control} (direct : Bool)
    (down : w.down c = m :: rest) (hnew : (w.client c).ice = {}) :
    Sourced E C R ({ w with down := Function.update w.down c rest }.setClient c
      ((w.client c).answer direct m)) := by
  refine h.setClient rfl rfl rfl rfl (fun d x hx => mem_of_mem_tail down hx)
    (fun _ _ hm => Or.inl hm) (fun hrun => ?_) ?_
  · unfold ClientSide.answer at hrun ⊢
    split
    · exact h.told c _ _ _ _ _ (by rw [down]; exact List.mem_cons_self)
    · rename_i hno
      split at hrun
      · rename_i sid clientIP mask mtu ice
        exact absurd rfl (hno sid clientIP mask mtu ice)
      · cases hrun
  · unfold ClientSide.answer
    split
    · refine heeds_new _ _ ?_
      split <;> rfl
    · dsimp only
      rw [hnew]
      exact heeds_new _ _ rfl

/-- A client reads a message of its session. -/
theorem Sourced.control (h : Sourced E C R w) {m : Control} {rest : List Control}
    (down : w.down c = m :: rest) (hidle : (w.broker.exitT c).pc = .idle)
    (dial : (w.client c).dial = .running) :
    Sourced E C R ({ w with down := Function.update w.down c rest }.setClient c
      ((w.client c).control m)) := by
  have hsid : ((w.client c).control m).sid = (w.client c).sid := by
    unfold ClientSide.control
    split
    · split <;> rfl
    · rfl
    · rfl
  refine h.setClient rfl rfl rfl rfl (fun d x hx => mem_of_mem_tail down hx)
    (fun _ _ hm => Or.inl hm) (fun _ => hsid ▸ h.running c dial) ?_
  rw [hsid]
  unfold ClientSide.control
  split
  · rename_i i sg nonce
    obtain ⟨ha, s, hread, hs⟩ :=
      h.sentClient c i sg nonce hidle (by rw [down]; exact List.mem_cons_self)
    rw [hread]
    rw [ha.unique (h.running c dial)] at hs
    exact (h.client c).deliver hs
  · exact h.client c
  · exact h.client c

theorem Traced.step (h : Traced tr w) (hs : step cfg w a = some (w', o)) :
    Traced (tr ++ [⟨w, a, o, w'⟩]) w' := by
  have hgrow := grow_of_step h.sides hs
  have hR : ∀ c sid s, Reached tr w c sid s → Reached (tr ++ [⟨w, a, o, w'⟩]) w' c sid s := by
    rintro c sid s ⟨hfrom, hoff⟩
    refine ⟨hgrow.fromExit hfrom, fun hk => ?_⟩
    obtain ⟨r, hr⟩ := hoff hk
    exact ⟨r, by rw [offers_append]; exact List.mem_append_left _ hr⟩
  -- the accounting of `w`, in the terms of `w'`
  have hsrc : Sourced (FromExit w') (FromClient w') (Reached (tr ++ [⟨w, a, o, w'⟩]) w') w :=
    h.sourced.mono (fun _ _ => hgrow.fromExit) (fun _ _ => hgrow.fromClient) hR
  have hbroker : Inv w'.broker ∧ Readers w'.broker := by
    rcases broker_of_step hs with ⟨a', hb⟩ | hsame
    · exact ⟨h.inv.step hb, h.readers.step h.inv hb⟩
    · rw [hsame]
      exact ⟨h.inv, h.readers⟩
  refine ⟨hbroker.1, hbroker.2, h.sides.step hs, ?_⟩
  clear hbroker hgrow hR
  cases stepped_of_step hs with
  | broker a b' o other hb => exact hsrc.broker h.inv other hb
  | relayClient c ok m rest b' o up hb => exact hsrc.relayClient h.inv h.readers up hb
  | relayExit r ok m rest b' o up hb =>
    refine hsrc.relayExit h.inv h.readers up hb fun d sid s hm hfrom => ⟨hfrom, fun hk => ⟨r, ?_⟩⟩
    rw [offers_append]
    refine List.mem_append_right _ (List.mem_flatMap.mpr ⟨_, List.mem_singleton_self _, ?_⟩)
    dsimp only
    rw [if_pos rfl]
    exact List.mem_filterMap.mpr ⟨_, hm, if_pos (by simp [credsOf_signalMsg, hk])⟩
  | answer c m rest down dial => exact hsrc.answer _ down (h.sides.early c (Or.inr dial))
  | control c m rest down dial =>
    refine hsrc.control down ?_ dial
    exact (h.inv.reg.kinds c).resolve_left (h.sides.client c (by rw [dial]; decide))
  | lost c dial =>
    exact hsrc.setClient rfl rfl rfl rfl (fun _ _ hm => hm) (fun _ _ hm => Or.inl hm) nofun
      (hsrc.client c)
  | clientTick c t e out tick writes =>
    refine hsrc.setClient rfl rfl rfl rfl (fun _ _ hm => hm) (fun d x hx => ?_)
      (hsrc.running c) (tick.heeds (hsrc.client c))
    refine (mem_of_mem_sent hx).imp_right ?_
    rintro ⟨s, hs, rfl⟩
    refine ⟨_, s, rfl, c, ?_, ?_⟩
    · show (Function.update w.client c _ c).sid = _
      rw [Function.update_self]
    · show Emitted (Function.update w.client c _ c).ice s
      rw [Function.update_self]
      exact tick.sends hs
  | exitRecv r m rest down dialled =>
    refine hsrc.setExit rfl rfl rfl rfl (fun d x hx => mem_of_mem_tail down hx)
      (fun _ _ hm => Or.inl hm) ?_
    have hidle : (w.broker.client r).pc = .idle :=
      (h.inv.reg.kinds r).resolve_right (h.sides.exit r dialled)
    refine (received_recv (w.exit r) (cfg.exitDirect r) m).heeds (h.sides.fresh r) (h.sides.above r)
      (hsrc.exit r) fun sid sg nonce heq => ?_
    exact hsrc.sentExit r sid sg nonce hidle (by rw [down, heq]; exact List.mem_cons_self)
  | exitTick r p cur t e out tick =>
    have hp : p < (w.exit r).next := by
      by_contra hp
      rw [h.sides.above r p (Nat.not_lt.mp hp)] at tick
      exact not_ticked_new tick
    refine hsrc.setExit rfl rfl rfl rfl (fun _ _ hm => hm) (fun d x hx => ?_) fun q => ?_
    · refine (mem_of_mem_sent hx).imp_right ?_
      rintro ⟨s, hs, rfl⟩
      refine ⟨_, s, rfl, r, p, ?_, ?_, ?_⟩
      · show p < (Function.update w.exit r _ r).next
        rw [Function.update_self]
        exact hp
      · show ((Function.update w.exit r _ r).es p).sid = _
        rw [Function.update_self]
      · show Emitted ((Function.update w.exit r _ r).ice p) s
        rw [Function.update_self]
        show Emitted (Function.update (w.exit r).ice p e p) s
        rw [Function.update_self]
        exact tick.sends hs
    · dsimp only
      rcases eq_or_ne q p with rfl | hne
      · rw [Function.update_self]
        exact tick.heeds (hsrc.exit r q)
      · rw [Function.update_of_ne hne]
        exact hsrc.exit r q

theorem Traced.of_run (h : (machine cfg users).Run tr w) : Traced tr w := by
  induction h with
  | nil => exact Traced.init users
  | snoc _ hs ih => exact ih.step hs

/-- What the ends know of each other is what the other side of the same
session has sent: the credentials an end has taken or connects with are those
of an agent of its session on the other side that has offered them, and every
candidate an agent was given has been found by such an agent. -/
theorem signals_agree (h : (machine cfg users).Run tr w) :
    (∀ c x, (w.client c).ice.remoteCreds = some x ∨ (w.client c).ice.pc.remote = some x →
      ∃ r p, p < (w.exit r).next ∧ ((w.exit r).es p).sid = (w.client c).sid ∧
        ((w.exit r).ice p).offered = true ∧ ((w.exit r).ice p).creds = x) ∧
    (∀ c, ∀ k ∈ (w.client c).ice.fed, ∃ r p, p < (w.exit r).next ∧
      ((w.exit r).es p).sid = (w.client c).sid ∧ k ∈ ((w.exit r).ice p).gathered) ∧
    (∀ r p x, ((w.exit r).ice p).remoteCreds = some x ∨ ((w.exit r).ice p).pc.remote = some x →
      ∃ c, (w.client c).sid = ((w.exit r).es p).sid ∧ (w.client c).ice.offered = true ∧
        (w.client c).ice.creds = x) ∧
    ∀ r p, ∀ k ∈ ((w.exit r).ice p).fed, ∃ c, (w.client c).sid = ((w.exit r).es p).sid ∧
      k ∈ (w.client c).ice.gathered := by
  have hsrc := (Traced.of_run h).sourced
  refine ⟨fun c x hx => ?_, fun c k hk => ?_, fun r p x hx => ?_, fun r p k hk => ?_⟩
  · obtain ⟨s, ⟨⟨r, p, hp, hsid, hs⟩, -⟩, hkind, hcreds⟩ := (hsrc.client c).creds x hx
    obtain ⟨hc, ho⟩ := hs.creds hkind
    exact ⟨r, p, hp, hsid, ho, Option.some.inj (hc.symm.trans hcreds)⟩
  · obtain ⟨s, ⟨⟨r, p, hp, hsid, hs⟩, -⟩, hkind, hcand⟩ := (hsrc.client c).fed k hk
    exact ⟨r, p, hp, hsid, hs.candidate hkind hcand⟩
  · obtain ⟨s, ⟨c, hsid, hs⟩, hkind, hcreds⟩ := (hsrc.exit r p).creds x hx
    obtain ⟨hc, ho⟩ := hs.creds hkind
    exact ⟨c, hsid, ho, Option.some.inj (hc.symm.trans hcreds)⟩
  · obtain ⟨s, ⟨c, hsid, hs⟩, hkind, hcand⟩ := (hsrc.exit r p).fed k hk
    exact ⟨c, hsid, hs.candidate hkind hcand⟩

/-- An exit registers, and a client joins it. -/
def meeting : List Broker.Action :=
  registers 0 (node "e1" "us" 0) ++ joins 1 (aliceConnect "us" "k")

/-- Both ends of a session connect, each with the credentials of the other. -/
theorem signals_agree_connected : ∃ tr w, (machine {} aliceStore).Run tr w ∧
    (w.client 1).ice.pc = .up ⟨"ue", "pe"⟩ ∧ ((w.exit 0).ice 0).pc = .up ⟨"uc", "pc"⟩ ∧
    ∃ r p, ((w.exit r).es p).sid = (w.client 1).sid ∧ ((w.exit r).ice p).creds = ⟨"ue", "pe"⟩ := by
  obtain ⟨tr, w, hr, hup, hup'⟩ := (machine {} aliceStore).exists_run
    (meeting.map .broker ++
      ([.exitRecv 0, .exitRecv 0, .clientRecv 1,
        .exitTick 0 0 0 (.agent (some ⟨"ue", "pe"⟩)), .exitTick 0 0 0 (.offer true true),
        .clientTick 1 (.agent (some ⟨"uc", "pc"⟩)), .clientTick 1 (.offer true true),
        .relayExit 0 true, .relayClient 1 true, .exitRecv 0, .clientRecv 1,
        .exitTick 0 0 0 (.gather true), .clientTick 1 (.gather true),
        .exitTick 0 0 0 .read, .clientTick 1 .read, .exitTick 0 0 0 .take, .clientTick 1 .take,
        .exitTick 0 0 0 (.connected (some none)), .clientTick 1 (.connected (some none)),
        .exitTick 0 0 0 (.linked true), .clientTick 1 (.linked true)] : List Action))
    (P := fun r => (r.2.client 1).ice.pc = .up ⟨"ue", "pe"⟩ ∧
      ((r.2.exit 0).ice 0).pc = .up ⟨"uc", "pc"⟩)
    (by decide +kernel)
  obtain ⟨hclient, -⟩ := signals_agree hr
  obtain ⟨r, p, -, hsid, -, hcreds⟩ := hclient 1 ⟨"ue", "pe"⟩ (Or.inr (by rw [hup]; rfl))
  exact ⟨tr, w, hr, hup, hup', r, p, hsid, hcreds⟩

end
end Ice
end Revquic
