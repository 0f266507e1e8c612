/-
# The two copies of a SOCKS connection

After the handshake `handle` starts two goroutines, each with an `io.Copy` in
one direction and a send to `done` behind it, receives once from `done` and
returns, which closes both connections. While it waits, nothing is lost: what
a side has sent is what was delivered, what the loop holds and what it has
not read yet. A copy that has ended has used up its stream. But `handle`
waits for one of them only: what is unread or held in the other direction
when it receives from `done`, or is still to be sent there, may be lost.

Key definitions: `Flow`, `Flow.Whole`, `step`, `machine`, `LosesNothing`.
Key theorem: `no_loss_iff`.
-/
import Revquic.Lib.Machine
import Mathlib.Logic.Function.Basic

namespace Revquic
namespace Socks

open Lib

/-- The two directions, by where the bytes go. -/
inductive Dir
  | up
  | down
  deriving DecidableEq

/-- Where a goroutine is: in `Read` or `Write` of `io.Copy`, before the send
to `done`, and behind it. -/
inductive Loop
  | reading
  | writing (b : List UInt8)
  | returned
  | signalled
  deriving DecidableEq

/-- One direction: what its source has sent, and whether it has ended its
stream; what of this has not been read; the loop; what it has delivered. -/
structure Flow where
  sent : List UInt8 := []
  ended : Bool := false
  unread : List UInt8 := []
  loop : Loop := .reading
  delivered : List UInt8 := []
  deriving DecidableEq

/-- The steps of a direction. The source sends, and ends its stream. The loop
reads a piece, or the end of the stream, and writes it; a read or a write on a
connection that `handle` has closed fails. -/
inductive FlowAction
  | send (b : List UInt8)
  | finish
  | read (n : ℕ)
  | eof
  | write
  | fails
  | signal
  deriving DecidableEq

namespace Flow

/-- One step; `src` and `dst` say whether `handle` has both connections
open. -/
def step (src dst : Bool) (f : Flow) : FlowAction → Option Flow
  | .send b => if f.ended then none else some { f with sent := f.sent ++ b, unread := f.unread ++ b }
  | .finish => if f.ended then none else some { f with ended := true }
  | .read n =>
    if f.loop = .reading ∧ src ∧ 0 < n ∧ n ≤ f.unread.length then
      some { f with unread := f.unread.drop n, loop := .writing (f.unread.take n) }
    else none
  | .eof =>
    if f.loop = .reading ∧ src ∧ f.unread = [] ∧ f.ended then some { f with loop := .returned } else none
  | .write =>
    match f.loop with
    | .writing b => if dst then some { f with delivered := f.delivered ++ b, loop := .reading } else none
    | _ => none
  | .fails =>
    match f.loop with
    | .reading => if src then none else some { f with loop := .returned }
    | .writing _ => if dst then none else some { f with loop := .returned }
    | _ => none
  | .signal => if f.loop = .returned then some { f with loop := .signalled } else none

/-- What the loop has read and not written. -/
def held (f : Flow) : List UInt8 :=
  match f.loop with
  | .writing b => b
  | _ => []

/-- Nothing is lost, and a copy that has ended has delivered everything. -/
structure Whole (f : Flow) : Prop where
  sent_eq : f.sent = f.delivered ++ f.held ++ f.unread
  finished : f.loop = .returned ∨ f.loop = .signalled → f.ended = true ∧ f.unread = []

/-- The source has ended its stream, and nothing of it is unread or held. -/
structure Spent (f : Flow) : Prop where
  ended : f.ended = true
  unread : f.unread = []
  held : f.held = []

theorem Whole.spent {f : Flow} (h : f.Whole) (hl : f.loop = .returned ∨ f.loop = .signalled) :
    f.Spent := by
  obtain ⟨hended, hunread⟩ := h.finished hl
  refine ⟨hended, hunread, ?_⟩
  unfold held
  rcases hl with hl | hl <;> rw [hl]

theorem Whole.delivered_eq {f : Flow} (h : f.Whole) (hs : f.Spent) : f.delivered = f.sent := by
  rw [h.sent_eq, hs.held, hs.unread, List.append_nil, List.append_nil]

/-- What is neither unread nor held is delivered. -/
theorem Whole.spent_of_delivered {f : Flow} (h : f.Whole) (hended : f.ended = true)
    (hd : f.delivered = f.sent) : f.Spent := by
  have hsent := h.sent_eq
  rw [← hd, List.append_assoc, List.self_eq_append_right, List.append_eq_nil_iff] at hsent
  exact ⟨hended, hsent.2, hsent.1⟩

variable {f f' : Flow} {src dst : Bool} {a : FlowAction}

/-- What a step can do. -/
inductive Moves (src dst : Bool) (f : Flow) : FlowAction → Flow → Prop
  | send (b : List UInt8) : f.ended = false →
      Moves src dst f (.send b) { f with sent := f.sent ++ b, unread := f.unread ++ b }
  | finish : f.ended = false → Moves src dst f .finish { f with ended := true }
  | read (n : ℕ) : f.loop = .reading → 0 < n → n ≤ f.unread.length →
      Moves src dst f (.read n) { f with unread := f.unread.drop n, loop := .writing (f.unread.take n) }
  | eof : f.loop = .reading → f.unread = [] → f.ended = true →
      Moves src dst f .eof { f with loop := .returned }
  | write (b : List UInt8) : f.loop = .writing b →
      Moves src dst f .write { f with delivered := f.delivered ++ b, loop := .reading }
  | fails : src = false ∨ dst = false → f.loop ≠ .signalled →
      Moves src dst f .fails { f with loop := .returned }
  | signal : f.loop = .returned → Moves src dst f .signal { f with loop := .signalled }

theorem moves_of_step (hs : f.step src dst a = some f') : Moves src dst f a f' := by
  cases a with
  | send b =>
    simp only [step, Option.ite_none_left_eq_some, Bool.not_eq_true, Option.some.injEq] at hs
    obtain ⟨hended, rfl⟩ := hs
    exact .send b hended
  | finish =>
    simp only [step, Option.ite_none_left_eq_some, Bool.not_eq_true, Option.some.injEq] at hs
    obtain ⟨hended, rfl⟩ := hs
    exact .finish hended
  | read n =>
    simp only [step, Option.ite_none_right_eq_some, Option.some.injEq] at hs
    obtain ⟨⟨hloop, -, hpos, hle⟩, rfl⟩ := hs
    exact .read n hloop hpos hle
  | eof =>
    simp only [step, Option.ite_none_right_eq_some, Option.some.injEq] at hs
    obtain ⟨⟨hloop, -, hunread, hended⟩, rfl⟩ := hs
    exact .eof hloop hunread hended
  | write =>
    cases hloop : f.loop with
    | writing b =>
      simp only [step, hloop, Option.ite_none_right_eq_some, Option.some.injEq] at hs
      obtain ⟨-, rfl⟩ := hs
      exact .write b hloop
    | _ => simp [step, hloop] at hs
  | fails =>
    cases hloop : f.loop with
    | reading =>
      simp only [step, hloop, Option.ite_none_left_eq_some, Bool.not_eq_true, Option.some.injEq] at hs
      obtain ⟨hsrc, rfl⟩ := hs
      exact .fails (Or.inl hsrc) (by simp [hloop])
    | writing b =>
      simp only [step, hloop, Option.ite_none_left_eq_some, Bool.not_eq_true, Option.some.injEq] at hs
      obtain ⟨hdst, rfl⟩ := hs
      exact .fails (Or.inr hdst) (by simp [hloop])
    | _ => simp [step, hloop] at hs
  | signal =>
    simp only [step, Option.ite_none_right_eq_some, Option.some.injEq] at hs
    obtain ⟨hloop, rfl⟩ := hs
    exact .signal hloop

/-- With both connections open, a step loses nothing. -/
theorem Whole.moves (h : f.Whole) (hm : Moves true true f a f') : f'.Whole := by
  obtain ⟨hsent, hover⟩ := h
  cases hm with
  | send b hended =>
    refine ⟨?_, fun hl => ?_⟩
    · change f.sent ++ b = f.delivered ++ f.held ++ (f.unread ++ b)
      rw [hsent, List.append_assoc]
    · cases hended.symm.trans (hover hl).1
  | finish hended => exact ⟨hsent, fun hl => ⟨rfl, (hover hl).2⟩⟩
  | read n hloop _ _ =>
    refine ⟨?_, by simp⟩
    have hheld : f.held = [] := by rw [held, hloop]
    change f.sent = f.delivered ++ f.unread.take n ++ f.unread.drop n
    rw [hsent, hheld, List.append_nil, List.append_assoc, List.take_append_drop]
  | eof hloop hunread hended =>
    refine ⟨?_, fun _ => ⟨hended, hunread⟩⟩
    have hheld : f.held = [] := by rw [held, hloop]
    change f.sent = f.delivered ++ [] ++ f.unread
    rw [hsent, hheld]
  | write b hloop =>
    refine ⟨?_, by simp⟩
    have hheld : f.held = b := by rw [held, hloop]
    change f.sent = f.delivered ++ b ++ [] ++ f.unread
    rw [hsent, hheld, List.append_nil]
  | fails hclosed hloop => simp at hclosed
  | signal hloop =>
    refine ⟨?_, fun _ => hover (Or.inl hloop)⟩
    have hheld : f.held = [] := by rw [held, hloop]
    change f.sent = f.delivered ++ [] ++ f.unread
    rw [hsent, hheld]

/-- A stream that is used up stays so, and nothing is added to it. -/
theorem Moves.spent (hm : Moves src dst f a f') (h : f.Spent) : f'.Spent ∧ f'.sent = f.sent := by
  cases hm with
  | send b hended | finish hended => cases hended.symm.trans h.ended
  | read n hloop hpos hle =>
    rw [h.unread, List.length_nil] at hle
    omega
  | _ => exact ⟨⟨h.ended, h.unread, rfl⟩, rfl⟩

theorem Moves.signalled (hm : Moves src dst f a f') (h : f.loop = .signalled) : f'.loop = .signalled := by
  cases hm with
  | send b hended => exact h
  | finish hended => exact h
  | read n hloop _ _ | eof hloop hunread hended | write b hloop => cases h.symm.trans hloop
  | fails hclosed hloop => exact absurd h hloop
  | signal hloop => rfl

end Flow

/-- Where `handle` is: at `<-done`, on its way out, and behind each of the two
deferred calls of `Close`. -/
inductive Handler
  | waiting
  | leaving
  | upstreamClosed
  | closed
  deriving DecidableEq

/-- The connections, the goroutines, and the number of values in `done`. -/
structure State where
  flow : Dir → Flow := fun _ => {}
  done : ℕ := 0
  handler : Handler := .waiting

inductive Action
  | flow (d : Dir) (a : FlowAction)
  | receive
  | closeUpstream
  | closeClient
  deriving DecidableEq

namespace State

variable (s : State)

def clientOpen : Bool := s.handler ≠ .closed

def upstreamOpen : Bool := s.handler ≠ .closed ∧ s.handler ≠ .upstreamClosed

/-- The connection a direction reads from is open, or the one it writes to. -/
def srcOpen : Dir → Bool
  | .up => s.clientOpen
  | .down => s.upstreamOpen

def dstOpen : Dir → Bool
  | .up => s.upstreamOpen
  | .down => s.clientOpen

end State

/-- One step of a spliced connection; `done` has room for two values. -/
def step (s : State) : Action → Option (State × List Unit)
  | .flow d a =>
    if a = .signal ∧ 2 ≤ s.done then none
    else
      ((s.flow d).step (s.srcOpen d) (s.dstOpen d) a).map fun f =>
        ({ s with flow := Function.update s.flow d f,
                  done := if a = .signal then s.done + 1 else s.done }, [])
  | .receive =>
    if s.handler = .waiting ∧ 0 < s.done then some ({ s with done := s.done - 1, handler := .leaving }, [])
    else none
  | .closeUpstream =>
    if s.handler = .leaving then some ({ s with handler := .upstreamClosed }, []) else none
  | .closeClient =>
    if s.handler = .upstreamClosed then some ({ s with handler := .closed }, []) else none

def machine : Machine State Action Unit := ⟨{}, step⟩

/-! ### What a step can do -/

inductive Stepped (s : State) : Action → State → Prop
  | flow (d : Dir) (a : FlowAction) (f : Flow) : Flow.Moves (s.srcOpen d) (s.dstOpen d) (s.flow d) a f →
      Stepped s (.flow d a) { s with flow := Function.update s.flow d f,
                                     done := if a = .signal then s.done + 1 else s.done }
  | receive : s.handler = .waiting → 0 < s.done →
      Stepped s .receive { s with done := s.done - 1, handler := .leaving }
  | closeUpstream : s.handler = .leaving → Stepped s .closeUpstream { s with handler := .upstreamClosed }
  | closeClient : s.handler = .upstreamClosed → Stepped s .closeClient { s with handler := .closed }

theorem stepped_of_step {s s' : State} {a : Action} {o : List Unit} (h : step s a = some (s', o)) :
    Stepped s a s' := by
  cases a with
  | flow d a =>
    simp only [step, Option.ite_none_left_eq_some, Option.map_eq_some_iff, Prod.mk.injEq] at h
    obtain ⟨-, f, hf, rfl, -⟩ := h
    exact .flow d a f (Flow.moves_of_step hf)
  | receive =>
    simp only [step, Option.ite_none_right_eq_some, Option.some.injEq, Prod.mk.injEq] at h
    obtain ⟨⟨hwaiting, hdone⟩, rfl, -⟩ := h
    exact .receive hwaiting hdone
  | closeUpstream =>
    simp only [step, Option.ite_none_right_eq_some, Option.some.injEq, Prod.mk.injEq] at h
    obtain ⟨hleaving, rfl, -⟩ := h
    exact .closeUpstream hleaving
  | closeClient =>
    simp only [step, Option.ite_none_right_eq_some, Option.some.injEq, Prod.mk.injEq] at h
    obtain ⟨hclosed, rfl, -⟩ := h
    exact .closeClient hclosed

/-- `handle` has not closed a connection. -/
def State.Open (s : State) : Prop := s.handler = .waiting ∨ s.handler = .leaving

/-- While the connections are open nothing is lost; and `handle` goes on, or
can, only if a copy has ended. -/
structure Inv (s : State) : Prop where
  whole : s.Open → ∀ d, (s.flow d).Whole
  finished : 0 < s.done ∨ s.handler ≠ .waiting → ∃ d, (s.flow d).loop = .signalled

theorem State.Open.both {s : State} (h : s.Open) (d : Dir) : s.srcOpen d = true ∧ s.dstOpen d = true := by
  rcases h with h | h <;> cases d <;>
    simp [State.srcOpen, State.dstOpen, State.clientOpen, State.upstreamOpen, h]

theorem inv_of_run {tr : List (Event State Action Unit)} {s : State} (h : machine.Run tr s) : Inv s := by
  refine h.invariant (I := Inv) ⟨fun _ d => ⟨rfl, by simp [machine]⟩, by simp [machine]⟩ ?_
  intro s a s' o hI hs
  cases stepped_of_step hs with
  | flow d a f hm =>
    refine ⟨fun hopen d' => ?_, fun hover => ?_⟩
    · obtain ⟨hsrc, hdst⟩ := State.Open.both (s := s) hopen d
      rw [hsrc, hdst] at hm
      rcases eq_or_ne d' d with rfl | hne
      · simp only [Function.update_self]
        exact (hI.whole hopen d').moves hm
      · simp only [Function.update_of_ne hne]
        exact hI.whole hopen d'
    · by_cases hsig : a = .signal
      · subst hsig
        cases hm with
        | signal hloop => exact ⟨d, by simp⟩
      · rw [if_neg hsig] at hover
        obtain ⟨d', hd'⟩ := hI.finished hover
        refine ⟨d', ?_⟩
        rcases eq_or_ne d' d with rfl | hne
        · simp only [Function.update_self]
          exact hm.signalled hd'
        · simp only [Function.update_of_ne hne]
          exact hd'
  | receive hwaiting hdone =>
    exact ⟨fun _ => hI.whole (Or.inl hwaiting), fun _ => hI.finished (Or.inl hdone)⟩
  | closeUpstream hleaving =>
    refine ⟨fun hopen => ?_, fun _ => hI.finished (Or.inr (by rw [hleaving]; simp))⟩
    rcases hopen with hopen | hopen <;> cases hopen
  | closeClient hclosed =>
    refine ⟨fun hopen => ?_, fun _ => hI.finished (Or.inr (by rw [hclosed]; simp))⟩
    rcases hopen with hopen | hopen <;> cases hopen

/-! ### What the sides go on to send -/

section
variable {tr : List (Event State Action Unit)} {s s' : State} {o : List Unit}

theorem spent_of_step {a : Action} (hs : step s a = some (s', o)) {d : Dir} (h : (s.flow d).Spent) :
    (s'.flow d).Spent ∧ (s'.flow d).sent = (s.flow d).sent := by
  cases stepped_of_step hs with
  | flow d' a f hm =>
    rcases eq_or_ne d d' with rfl | hne
    · simp only [Function.update_self]
      exact hm.spent h
    · simp [Function.update_of_ne hne, h]
  | _ => exact ⟨h, rfl⟩

/-- Behind a step that leaves a stream used up, the stream stays as it is. -/
theorem spent_since {x : Event State Action Unit} {tr' : List (Event State Action Unit)} {t : State}
    (h : machine.Run (tr ++ x :: tr') t) {d : Dir} (hx : (x.post.flow d).Spent) :
    (t.flow d).Spent ∧ (t.flow d).sent = (x.post.flow d).sent := by
  rw [List.append_cons] at h
  refine h.invariant_since (C := fun _ => True)
    (I := fun _ t => (t.flow d).Spent ∧ (t.flow d).sent = (x.post.flow d).sent) ?_ ?_ fun _ _ => trivial
  · intro s hr
    rw [hr.last.2.2]
    exact ⟨hx, rfl⟩
  · intro _ s a s' o _ hI hs _
    obtain ⟨hspent, hsent⟩ := spent_of_step hs hI.1
    exact ⟨hspent, hsent.trans hI.2⟩

/-- A side can always end its stream. -/
theorem exists_finish (h : machine.Run tr s) (d : Dir) :
    ∃ tr' t, machine.Run (tr ++ tr') t ∧ (t.flow d).ended = true ∧
      ∀ d', (t.flow d').sent = (s.flow d').sent ∧ ((s.flow d').ended = true → (t.flow d').ended = true) := by
  cases hended : (s.flow d).ended with
  | true => exact ⟨[], s, by rwa [List.append_nil], hended, fun d' => ⟨rfl, id⟩⟩
  | false =>
    have hs : machine.step s (.flow d .finish) =
        some ({ s with flow := Function.update s.flow d { s.flow d with ended := true } }, []) := by
      simp [machine, step, Flow.step, hended]
    refine ⟨_, _, h.snoc hs, by simp, fun d' => ?_⟩
    rcases eq_or_ne d' d with rfl | hne
    · simp
    · simp [Function.update_of_ne hne]

/-- Both sides can always end their streams as they are. -/
theorem exists_ended (h : machine.Run tr s) :
    ∃ tr' t, machine.Run (tr ++ tr') t ∧ (∀ d, (t.flow d).ended = true) ∧
      ∀ d, (t.flow d).sent = (s.flow d).sent := by
  obtain ⟨tr₁, s₁, h₁, hup, hkeep₁⟩ := exists_finish h .up
  obtain ⟨tr₂, s₂, h₂, hdown, hkeep₂⟩ := exists_finish h₁ .down
  refine ⟨tr₁ ++ tr₂, s₂, by rwa [← List.append_assoc], fun d => ?_, fun d => ?_⟩
  · cases d with
    | up => exact (hkeep₂ .up).2 hup
    | down => exact hdown
  · exact (hkeep₂ d).1.trans (hkeep₁ d).1

/-- Behind the steps `tr`, `handle` does not begin to close the connections
before it has delivered all that the two sides send, however they go on to the
ends of their streams. -/
def LosesNothing (tr : List (Event State Action Unit)) : Prop :=
  ∀ tr₁ e tr₂ t, machine.Run (tr ++ tr₁ ++ e :: tr₂) t → e.act = .closeUpstream →
    (∀ d, (t.flow d).ended = true) → ∀ d, (e.pre.flow d).delivered = (t.flow d).sent

/-- A run that may end here loses nothing only if all is delivered, and both
streams have ended. -/
theorem LosesNothing.spent (h : machine.Run tr s) (hl : s.handler = .leaving) (hall : LosesNothing tr)
    (d : Dir) : (s.flow d).Spent := by
  obtain ⟨s', o, hs, hflow⟩ : ∃ s' o, machine.step s .closeUpstream = some (s', o) ∧ s'.flow = s.flow :=
    ⟨_, _, if_pos hl, rfl⟩
  have hclosed := h.snoc hs
  have hlose : ∀ tr₂ t, machine.Run (tr ++ [⟨s, .closeUpstream, o, s'⟩] ++ tr₂) t →
      (∀ d, (t.flow d).ended = true) → (s.flow d).delivered = (t.flow d).sent := by
    intro tr₂ t ht hended
    rw [List.append_assoc] at ht
    refine hall [] ⟨s, .closeUpstream, o, s'⟩ tr₂ t ?_ rfl hended d
    rwa [List.append_nil]
  -- the sides may end their streams at once
  obtain ⟨tr₁, t₁, h₁, hended₁, hsent₁⟩ := exists_ended hclosed
  have hdel : (s.flow d).delivered = (s.flow d).sent := by
    rw [hlose _ t₁ h₁ hended₁, hsent₁, hflow]
  refine ((inv_of_run h).whole (Or.inr hl) d).spent_of_delivered ?_ hdel
  by_contra hnot
  -- or send one byte more before
  have hopen : (s.flow d).ended = false := Bool.eq_false_iff.mpr hnot
  obtain ⟨s₂, hmore, hs₂⟩ : ∃ s₂, machine.step s' (.flow d (.send [0])) = some (s₂, []) ∧
      (s₂.flow d).sent = (s.flow d).sent ++ [0] := by
    simp [machine, step, Flow.step, hopen, hflow]
  obtain ⟨tr₂, t₂, h₂, hended₂, hsent₂⟩ := exists_ended (hclosed.snoc hmore)
  rw [List.append_assoc] at h₂
  have hlost := hlose _ t₂ h₂ hended₂
  rw [hsent₂, hs₂, hdel] at hlost
  simp at hlost

/-- **No loss of data.** Whatever the interleaving, when `handle` receives from
`done` one of the streams has ended, with nothing unread and nothing held. The
run from there on loses nothing, whatever the copies and the two sides do,
exactly if this is so of both streams. -/
theorem no_loss_iff (h : machine.Run tr s) (hs : step s .receive = some (s', o)) :
    (∃ d, (s.flow d).Spent) ∧
    (LosesNothing (tr ++ [⟨s, .receive, o, s'⟩]) ↔ ∀ d, (s.flow d).Spent) := by
  have hI := inv_of_run h
  obtain ⟨hwaiting, hdone, hleaving, hflow⟩ :
      s.handler = .waiting ∧ 0 < s.done ∧ s'.handler = .leaving ∧ s'.flow = s.flow := by
    cases stepped_of_step hs with
    | receive hw hd => exact ⟨hw, hd, rfl, rfl⟩
  refine ⟨?_, fun hall d => ?_, fun hc tr₁ e tr₂ t ht hact hended d => ?_⟩
  · obtain ⟨d, hd⟩ := hI.finished (Or.inl hdone)
    exact ⟨d, (hI.whole (Or.inl hwaiting) d).spent (Or.inr hd)⟩
  · have hrun : machine.Run (tr ++ [⟨s, .receive, o, s'⟩]) s' := h.snoc hs
    rw [← hflow]
    exact hall.spent hrun hleaving d
  · obtain ⟨u, act, o', u'⟩ := e
    obtain rfl : act = .closeUpstream := hact
    obtain ⟨hpre, hclose⟩ := ht.at_event rfl
    have hclose : step u .closeUpstream = some (u', o') := hclose
    have hopen : u.Open := by
      cases stepped_of_step hclose with
      | closeUpstream hl => exact Or.inr hl
    have hsince : (u.flow d).Spent := by
      have hpre : machine.Run (tr ++ ⟨s, .receive, o, s'⟩ :: tr₁) u := by rwa [List.append_assoc] at hpre
      refine (spent_since hpre ?_).1
      show (s'.flow d).Spent
      rw [hflow]
      exact hc d
    obtain ⟨hpost, hsent⟩ := spent_of_step hclose hsince
    rw [(spent_since ht hpost).2, hsent]
    exact ((inv_of_run hpre).whole hopen d).delivered_eq hsince

end

/-- Both streams end, and the second copy is through, before `handle` receives
from `done`. -/
theorem no_loss_iff_both : ∃ tr s s' o, machine.Run tr s ∧ step s .receive = some (s', o) ∧
    (s.flow .down).sent = [82] ∧ LosesNothing (tr ++ [⟨s, .receive, o, s'⟩]) := by
  obtain ⟨tr, s, hr, ⟨hwaiting, hdone⟩, hsent, hup, hdown⟩ := machine.exists_run
    [.flow .up (.send [71]), .flow .up .finish, .flow .down (.send [82]), .flow .down .finish,
      .flow .up (.read 1), .flow .up .write, .flow .up .eof, .flow .up .signal,
      .flow .down (.read 1), .flow .down .write]
    (P := fun r => (r.2.handler = .waiting ∧ 0 < r.2.done) ∧ (r.2.flow .down).sent = [82] ∧
      ((r.2.flow .up).ended = true ∧ (r.2.flow .up).unread = [] ∧ (r.2.flow .up).held = []) ∧
      (r.2.flow .down).ended = true ∧ (r.2.flow .down).unread = [] ∧ (r.2.flow .down).held = [])
    (by decide +kernel)
  have hs : step s .receive = some ({ s with done := s.done - 1, handler := .leaving }, []) :=
    if_pos ⟨hwaiting, hdone⟩
  refine ⟨tr, s, _, _, hr, hs, hsent, (no_loss_iff hr hs).2.mpr fun d => ?_⟩
  cases d with
  | up => exact ⟨hup.1, hup.2.1, hup.2.2⟩
  | down => exact ⟨hdown.1, hdown.2.1, hdown.2.2⟩

/-- The client sends its request and ends its stream, and `handle` closes both
connections as soon as the request is delivered. Of the answer nothing
arrives. -/
theorem half_close_loses : ∃ tr t, machine.Run tr t ∧
    (t.handler = .closed ∧ (t.flow .up).ended = true ∧ (t.flow .down).ended = true) ∧
      (t.flow .up).delivered = (t.flow .up).sent ∧
      (t.flow .down).sent = [82] ∧ (t.flow .down).delivered = [] :=
  machine.exists_run_of_exec
    [.flow .up (.send [71]), .flow .up .finish, .flow .up (.read 1), .flow .up .write, .flow .up .eof,
      .flow .up .signal, .flow .down (.send [82]), .receive, .closeUpstream, .closeClient,
      .flow .down .finish] (by decide +kernel)

end Socks
end Revquic
