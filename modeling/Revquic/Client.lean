/-
# The client (`cmd/revquic-client`)

`main` runs one connection after another: `runConnection` dials the broker,
sends `Connect`, and reads the control stream until it ends; then the loop
waits and tries again. It gives up only if the first attempt ends in a
`noExitErr`. `runConnection` returns that error if the reply to `Connect` is
not a `MsgConnectOK`, and if a `MsgError` arrives on an established session:
so a client whose first session is ended by the broker gives up too. What an
attempt meets is given by its environment.

Key definitions: `Attempt`, `runConnection`, `Loop.turn`, `Survives`.
Key theorem: `never_gives_up_iff`.
-/
import Revquic.Datapath
import Revquic.Lib.Machine
import Revquic.Proto

namespace Revquic
namespace Client

open Lib Proto Datapath

/-! ### The data plane -/

/-- `relayEncode`. -/
def relayEncode (sid : ℕ) : List UInt8 → List UInt8 := encodeDatagram sid

/-- The relay path of a session on a broker connection. -/
def relayPath {σ : Type*} (conn : σ) (sid : ℕ) : Path σ := ⟨some conn, relayEncode sid⟩

/-- The relay inbound loop: what a datagram from the broker writes to the
TUN. -/
def relayInbound (dg : List UInt8) : Option (List UInt8) := (decodeDatagram dg).map (·.2)

/-! ### One connection -/

/-- The errors of `runConnection`: `noExitErr`, or any other. -/
inductive ConnErr
  | noExit (msg : String)
  | other (text : String)
  deriving DecidableEq

/-- What a connection attempt meets: the errors of its calls, in their order,
the reply to `Connect`, the control messages of the session, and the error
that ends the control stream. -/
structure Attempt where
  dialErr : Option String := none
  streamErr : Option String := none
  writeErr : Option String := none
  reply : Except String Control
  routeErr : Option String := none
  msgs : List Control := []
  drop : String := ""

/-- The message has type `MsgConnectOK`. -/
def isConnectOK : Control → Bool
  | .connectOK _ _ _ _ _ | .exitList _ => true
  | _ => false

/-- The message has type `MsgError`. -/
def isError : Control → Bool
  | .error _ => true
  | _ => false

/-- The `Error` field of a message. -/
def errorField : Control → String
  | .error text => text
  | _ => ""

/-- The control reader: a `MsgError` ends it, the other messages do not. -/
def readControl (drop : String) : List Control → ConnErr
  | [] => .other drop
  | m :: ms => if isError m then .noExit (errorField m) else readControl drop ms

/-- How `runConnection` ends: it returns an error, or ends the process. -/
inductive Outcome
  | returned (err : ConnErr)
  | fatal (text : String)

/-- `runConnection`, and `routesUp` after it. With `-full` the default route
is set on the first session; if that fails, the process ends. -/
def runConnection (full routesUp : Bool) (a : Attempt) : Outcome × Bool :=
  match a.dialErr with
  | some e => (.returned (.other e), routesUp)
  | none =>
    match a.streamErr with
    | some e => (.returned (.other e), routesUp)
    | none =>
      match a.writeErr with
      | some e => (.returned (.other e), routesUp)
      | none =>
        match a.reply with
        | .error e => (.returned (.other e), routesUp)
        | .ok resp =>
          if !isConnectOK resp then (.returned (.noExit (errorField resp)), routesUp)
          else if full && !routesUp then
            match a.routeErr with
            | some e => (.fatal ("default route: " ++ e), routesUp)
            | none => (.returned (readControl a.drop a.msgs), true)
          else (.returned (readControl a.drop a.msgs), routesUp)

/-! ### The reconnect loop -/

/-- The loop goes on, has ended the process, or has returned because the
client was told to shut down. -/
inductive Status
  | running
  | fatal (text : String)
  | stopped
  deriving DecidableEq

/-- The variables of the loop; `backoff` is in seconds. -/
structure Loop where
  status : Status := .running
  first : Bool := true
  backoff : ℕ := 1
  routesUp : Bool := false

/-- One turn of the loop; `shuttingDown` is read after `runConnection`. -/
def Loop.turn (full : Bool) (l : Loop) (a : Attempt) (shuttingDown : Bool) : Loop :=
  match runConnection full l.routesUp a with
  | (.fatal text, routesUp) => { l with status := .fatal text, routesUp }
  | (.returned err, routesUp) =>
    if shuttingDown then { l with status := .stopped, routesUp }
    else
      match err, l.first with
      | .noExit msg, true => { l with status := .fatal ("cannot connect: " ++ msg), routesUp }
      | _, _ =>
        { l with
          first := false
          backoff := if l.backoff < 15 then min (l.backoff * 2) 15 else l.backoff
          routesUp }

/-- The loop, under any sequence of attempts. -/
def machine (full : Bool) : Machine Loop (Attempt × Bool) Unit :=
  ⟨{}, fun l a => if l.status = .running then some (l.turn full a.1 a.2, []) else none⟩

/-! ### Attempts -/

namespace Attempt

variable (a : Attempt)

/-- The broker's answer to `Connect`, if the attempt gets one. -/
def answer : Option Control :=
  if a.dialErr = none ∧ a.streamErr = none ∧ a.writeErr = none then a.reply.toOption else none

/-- The broker answers with something else than `MsgConnectOK`. -/
def refused : Bool := a.answer.any fun m => !isConnectOK m

/-- The broker answers with `MsgConnectOK`. -/
def connected : Bool := a.answer.any isConnectOK

/-- A `MsgError` arrives on the established session. -/
def ended : Bool := a.msgs.any isError

end Attempt

/-- The attempt does not end the process once it is connected: the default
route can be set, and the first session is not ended by a `MsgError`, unless
the client is shutting down. -/
def Survives (full : Bool) (l : Loop) (a : Attempt × Bool) : Prop :=
  a.1.connected = true →
    (full = true → l.routesUp = false → a.1.routeErr = none) ∧
      (l.first = true → a.2 = false → a.1.ended = false)

instance (full : Bool) (l : Loop) (a : Attempt × Bool) : Decidable (Survives full l a) :=
  inferInstanceAs (Decidable (_ → _ ∧ _))

/-- The client gives up only if its first attempt was refused; once an
attempt has been connected it goes on, until it is told to shut down. -/
structure NeverGivesUp (tr : List (Event Loop (Attempt × Bool) Unit)) (l : Loop) : Prop where
  fatal : ∀ text, l.status = .fatal text → ∃ e tr', tr = e :: tr' ∧ e.act.1.refused = true
  again : (∃ e ∈ tr, e.act.1.connected = true) →
    l.status = .running ∨ l.status = .stopped ∧ ∃ e ∈ tr, e.act.2 = true

section
variable {full : Bool} {l : Loop} {a : Attempt} {tr : List (Event Loop (Attempt × Bool) Unit)}

theorem readControl_eq (drop : String) (msgs : List Control) :
    (msgs.any isError = false → readControl drop msgs = .other drop) ∧
      (msgs.any isError = true → ∃ text, readControl drop msgs = .noExit text) := by
  induction msgs with
  | nil => exact ⟨fun _ => rfl, fun h => by cases h⟩
  | cons m ms ih =>
    cases hm : isError m with
    | true =>
      refine ⟨fun h => ?_, fun _ => ⟨errorField m, by simp [readControl, hm]⟩⟩
      simp [hm] at h
    | false =>
      simp only [List.any_cons, hm, Bool.false_or, readControl, Bool.false_eq_true, if_false]
      exact ih

/-- What `runConnection` returns, by how far the attempt gets. -/
inductive Result (full routesUp : Bool) (a : Attempt) : Outcome × Bool → Prop
  | unanswered (text : String) (refused : a.refused = false) (connected : a.connected = false) :
      Result full routesUp a (.returned (.other text), routesUp)
  | refused (msg : String) (refused : a.refused = true) (connected : a.connected = false) :
      Result full routesUp a (.returned (.noExit msg), routesUp)
  | noRoute (text : String) (connected : a.connected = true) (wanted : full = true)
      (down : routesUp = false) (route : a.routeErr ≠ none) :
      Result full routesUp a (.fatal text, routesUp)
  | dropped (text : String) (up : Bool) (connected : a.connected = true)
      (route : full = true → routesUp = false → a.routeErr = none) (ended : a.ended = false) :
      Result full routesUp a (.returned (.other text), up)
  | ended (msg : String) (up : Bool) (connected : a.connected = true)
      (route : full = true → routesUp = false → a.routeErr = none) (ended : a.ended = true) :
      Result full routesUp a (.returned (.noExit msg), up)

/-- The session of a connected attempt. -/
theorem result_session {routesUp : Bool} (up : Bool) (hc : a.connected = true)
    (hr : full = true → routesUp = false → a.routeErr = none) :
    Result full routesUp a (.returned (readControl a.drop a.msgs), up) := by
  cases he : a.ended with
  | false =>
    rw [(readControl_eq a.drop a.msgs).1 he]
    exact .dropped _ up hc hr he
  | true =>
    obtain ⟨text, ht⟩ := (readControl_eq a.drop a.msgs).2 he
    rw [ht]
    exact .ended text up hc hr he

theorem result_of_runConnection (full routesUp : Bool) (a : Attempt) :
    Result full routesUp a (runConnection full routesUp a) := by
  have hno : a.answer = none → a.refused = false ∧ a.connected = false := by
    intro h
    simp [Attempt.refused, Attempt.connected, h]
  unfold runConnection
  cases hd : a.dialErr with
  | some e =>
    obtain ⟨h1, h2⟩ := hno (by simp [Attempt.answer, hd])
    exact .unanswered e h1 h2
  | none =>
    cases hs : a.streamErr with
    | some e =>
      obtain ⟨h1, h2⟩ := hno (by simp [Attempt.answer, hs])
      exact .unanswered e h1 h2
    | none =>
      cases hw : a.writeErr with
      | some e =>
        obtain ⟨h1, h2⟩ := hno (by simp [Attempt.answer, hw])
        exact .unanswered e h1 h2
      | none =>
        cases hr : a.reply with
        | error e =>
          obtain ⟨h1, h2⟩ := hno (by simp [Attempt.answer, hd, hs, hw, hr, Except.toOption])
          exact .unanswered e h1 h2
        | ok resp =>
          have hans : a.answer = some resp := by
            simp [Attempt.answer, hd, hs, hw, hr, Except.toOption]
          cases hok : isConnectOK resp with
          | false =>
            have h1 : a.refused = true := by simp [Attempt.refused, hans, hok]
            have h2 : a.connected = false := by simp [Attempt.connected, hans, hok]
            simp only [hok, Bool.not_false, if_true]
            exact .refused _ h1 h2
          | true =>
            have h2 : a.connected = true := by simp [Attempt.connected, hans, hok]
            simp only [hok, Bool.not_true, Bool.false_eq_true, if_false]
            split
            · rename_i hup
              rw [Bool.and_eq_true, Bool.not_eq_true'] at hup
              split
              · rename_i e he
                exact .noRoute _ h2 hup.1 hup.2 (by rw [he]; simp)
              · rename_i he
                exact result_session true h2 fun _ _ => he
            · rename_i hup
              refine result_session routesUp h2 fun hf hr => absurd ?_ hup
              rw [hf, hr]
              rfl

/-- One turn of a running loop, by the same cases. -/
theorem turn_spec (full : Bool) (l : Loop) (a : Attempt) (shut : Bool) :
    (a.connected = false ∧ a.refused = true ∧ l.first = true ∧ shut = false ∧
      ∃ text, (l.turn full a shut).status = .fatal text) ∨
    (¬ Survives full l (a, shut) ∧ a.connected = true ∧
      ∃ text, (l.turn full a shut).status = .fatal text) ∨
    (Survives full l (a, shut) ∧ shut = true ∧ (l.turn full a shut).status = .stopped) ∨
    (Survives full l (a, shut) ∧ (l.turn full a shut).status = l.status ∧
      (l.turn full a shut).first = false) := by
  have hres := result_of_runConnection full l.routesUp a
  unfold Loop.turn
  generalize runConnection full l.routesUp a = r at hres ⊢
  cases hres with
  | unanswered text hr hc =>
    have hsurv : Survives full l (a, shut) := fun h => by rw [hc] at h; cases h
    cases shut with
    | true => exact Or.inr (Or.inr (Or.inl ⟨hsurv, rfl, rfl⟩))
    | false => exact Or.inr (Or.inr (Or.inr ⟨hsurv, rfl, rfl⟩))
  | refused msg hr hc =>
    have hsurv : Survives full l (a, shut) := fun h => by rw [hc] at h; cases h
    cases shut with
    | true => exact Or.inr (Or.inr (Or.inl ⟨hsurv, rfl, rfl⟩))
    | false =>
      cases hf : l.first with
      | true => exact Or.inl ⟨hc, hr, rfl, rfl, _, rfl⟩
      | false => exact Or.inr (Or.inr (Or.inr ⟨hsurv, rfl, rfl⟩))
  | noRoute text hc hfull hdown hroute =>
    exact Or.inr (Or.inl ⟨fun h => hroute ((h hc).1 hfull hdown), hc, text, rfl⟩)
  | dropped text up hc hroute hend =>
    have hsurv : Survives full l (a, shut) := fun _ => ⟨hroute, fun _ _ => hend⟩
    cases shut with
    | true => exact Or.inr (Or.inr (Or.inl ⟨hsurv, rfl, rfl⟩))
    | false => exact Or.inr (Or.inr (Or.inr ⟨hsurv, rfl, rfl⟩))
  | ended msg up hc hroute hend =>
    cases shut with
    | true =>
      refine Or.inr (Or.inr (Or.inl ⟨fun _ => ⟨hroute, fun _ hs => ?_⟩, rfl, rfl⟩))
      cases hs
    | false =>
      cases hf : l.first with
      | true =>
        refine Or.inr (Or.inl ⟨fun h => ?_, hc, _, rfl⟩)
        have := (h hc).2 hf rfl
        rw [hend] at this
        cases this
      | false =>
        refine Or.inr (Or.inr (Or.inr ⟨fun _ => ⟨hroute, fun hs => ?_⟩, rfl, rfl⟩))
        rw [hf] at hs
        cases hs

/-- A loop that runs has not given up. -/
theorem neverGivesUp_of_running (h : l.status = .running) : NeverGivesUp tr l :=
  ⟨fun text ht => (by rw [h] at ht; cases ht), fun _ => Or.inl h⟩

/-- **The client never gives up** after it has been connected, in exactly the
runs in which every attempt survives. -/
theorem never_gives_up_iff (h : (machine full).Run tr l) :
    NeverGivesUp tr l ↔ ∀ e ∈ tr, Survives full e.pre e.act := by
  suffices hrun : (NeverGivesUp tr l ↔ ∀ e ∈ tr, Survives full e.pre e.act) ∧
      (l.status = .running → l.first = true → tr = []) from hrun.1
  induction h with
  | nil => exact ⟨iff_of_true (neverGivesUp_of_running rfl) (by simp), fun _ _ => rfl⟩
  | @snoc tr l l' a o hr hs ih =>
    simp only [machine] at hs
    split at hs
    · rename_i hrun
      obtain ⟨rfl, rfl⟩ := by simpa using hs
      have hall := ih.1.mp (neverGivesUp_of_running hrun)
      have hiff : (∀ e ∈ tr ++ [⟨l, a, [], l.turn full a.1 a.2⟩], Survives full e.pre e.act) ↔
          Survives full l a := by
        simp only [List.mem_append, List.mem_singleton, or_imp, forall_and, forall_eq]
        exact ⟨And.right, fun h => ⟨hall, h⟩⟩
      rw [hiff]
      rcases turn_spec full l a.1 a.2 with ⟨hc, hrf, hf, -, text, ht⟩ | ⟨hno, hc, text, ht⟩ |
        ⟨hsurv, hshut, ht⟩ | ⟨hsurv, ht, hf⟩
      · -- the first attempt is refused
        have hnil := ih.2 hrun hf
        subst hnil
        refine ⟨iff_of_true ⟨fun _ _ => ⟨_, _, rfl, hrf⟩, ?_⟩ fun h => ?_, fun hr => ?_⟩
        · rintro ⟨e, he, hce⟩
          obtain rfl := List.mem_singleton.mp he
          rw [hc] at hce
          cases hce
        · rw [hc] at h
          cases h
        · rw [ht] at hr
          cases hr
      · refine ⟨iff_of_false (fun hn => ?_) hno, fun hr => by rw [ht] at hr; cases hr⟩
        rcases hn.again ⟨_, List.mem_append_right _ (List.mem_singleton.mpr rfl), hc⟩ with hr | ⟨hr, -⟩
        · rw [ht] at hr; cases hr
        · rw [ht] at hr; cases hr
      · refine ⟨iff_of_true ⟨fun text hf => ?_, fun _ => Or.inr ⟨ht, ?_⟩⟩ hsurv, fun hr => ?_⟩
        · rw [ht] at hf; cases hf
        · exact ⟨_, List.mem_append_right _ (List.mem_singleton.mpr rfl), hshut⟩
        · rw [ht] at hr; cases hr
      · refine ⟨iff_of_true (neverGivesUp_of_running (ht.trans hrun)) hsurv, fun _ hf' => ?_⟩
        rw [hf] at hf'
        cases hf'
    · cases hs

/-- The broker's `MsgConnectOK`. -/
def welcome : Control := .connectOK 1 "10.99.0.2" "255.255.255.0" 1200 {}

/-- A session that drops, an attempt that is refused, a session that is ended
by the broker: the client tries again each time. -/
theorem never_gives_up_three : ∃ tr l, (machine true).Run tr l ∧ tr.length = 3 ∧
    l.status = .running ∧ NeverGivesUp tr l := by
  obtain ⟨tr, l, hr, hlen, hst, hs⟩ := (machine true).exists_run
    [({ reply := .ok welcome, drop := "timeout" }, false),
      ({ reply := .ok (.error "no exit available in region us") }, false),
      ({ reply := .ok welcome, msgs := [.pong 1 0, .error "exit node e1 disconnected"] }, false)]
    (P := fun r => r.1.length = 3 ∧ r.2.status = .running ∧ ∀ e ∈ r.1, Survives true e.pre e.act)
    (by decide +kernel)
  exact ⟨tr, l, hr, hlen, hst, (never_gives_up_iff hr).mpr hs⟩

/-- The first session is ended by a `MsgError`, as `failExit` sends it: the
client gives up. -/
theorem gives_up_after_session : ∃ tr l, (machine false).Run tr l ∧
    l.status = .fatal "cannot connect: exit node e1 disconnected; please reconnect" ∧
    ∃ e ∈ tr, e.act.1.connected = true :=
  (machine false).exists_run_of_exec
    [({ reply := .ok welcome, msgs := [.error "exit node e1 disconnected; please reconnect"] }, false)]
    (by decide +kernel)

end
end Client
end Revquic
