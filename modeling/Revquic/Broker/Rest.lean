/-
# States with no handler in progress

A broker is at rest when every goroutine has not started, waits for its
connection or has returned, and no timer's callback runs. A run in which only
the first `N` connections are used is at rest if these are.

Key definitions: `State.Resting`, `Few`.
Key theorem: `resting_of_few`.
-/
import Revquic.Broker.Messages
import Revquic.Broker.Registry

namespace Revquic
namespace Broker

open Lib Netip Ippool Proto

/-- A client's goroutine has not started, waits for its connection, or has
returned. -/
def ClientPC.rests (pc : ClientPC) : Prop := pc = .idle ∨ pc = .relay ∨ pc = .done

instance (pc : ClientPC) : Decidable pc.rests := inferInstanceAs (Decidable (_ ∨ _))

/-- An exit's goroutine has not started, waits for a message, or has
returned. -/
def ExitPC.rests (pc : ExitPC) : Prop := pc = .idle ∨ pc = .loop ∨ pc = .done

instance (pc : ExitPC) : Decidable pc.rests := inferInstanceAs (Decidable (_ ∨ _))

/-- The callback of a timer has not started, or has returned. -/
def TimerPC.rests (pc : TimerPC) : Prop := pc = .unset ∨ pc = .armed ∨ pc = .stopped ∨ pc = .done

instance (pc : TimerPC) : Decidable pc.rests := inferInstanceAs (Decidable (_ ∨ _))

/-- No handler is in progress. -/
structure State.Resting (b : State) : Prop where
  client : ∀ c, (b.client c).pc.rests
  exitT : ∀ r, (b.exitT r).pc.rests
  timer : ∀ k, (b.timer k).pc.rests

/-- The goroutines of the first `N` connections rest. -/
def State.RestsUpTo (b : State) (N : ℕ) : Prop :=
  (∀ c < N, (b.client c).pc.rests ∧ (b.exitT c).pc.rests) ∧ ∀ k < b.nextTimer, (b.timer k).pc.rests

instance (b : State) (N : ℕ) : Decidable (b.RestsUpTo N) := inferInstanceAs (Decidable (_ ∧ _))

/-- The first message of a connection, if the step is one, is on one of the
first `N` connections. -/
def Few (N : ℕ) : Action → Prop
  | .connect c _ => c < N
  | .register c _ => c < N
  | _ => True

instance (N : ℕ) : DecidablePred (Few N)
  | .connect c _ => inferInstanceAs (Decidable (c < N))
  | .register c _ => inferInstanceAs (Decidable (c < N))
  | .tick _ | .users _ | .client _ _ | .drop _ _ | .clientCtrl _ _ _ | .exit _ _ | .exitCtrl _ _ _
  | .exitGone _ | .datagram _ _ | .fire _ | .timer _ _ => isTrue trivial

section
variable {cfg : Config} {users : Userstore.Table} {b : State} {tr : List (Event State Action Out)}
  {N : ℕ}

/-- A connection without a `Connect` has no client's goroutine. -/
theorem idle_of_run (h : (machine cfg users).Run tr b) {d : Conn}
    (hd : ∀ e ∈ tr, ∀ msg, e.act ≠ .connect d msg) : (b.client d).pc = .idle := by
  refine Machine.Run.invariant_of (I := fun b => (b.client d).pc = .idle)
    (C := fun e => ∀ msg, e.act ≠ .connect d msg) rfl ?_ h hd
  intro s a s' o hi hs hne
  rcases (step_move hs).idle d with hiff | ⟨msg, rfl, -⟩
  · exact hiff.mpr hi
  · exact absurd rfl (hne msg)

/-- The other connections have no goroutines. -/
theorem unused_of_few (h : (machine cfg users).Run tr b) (hC : ∀ e ∈ tr, Few N e.act) {d : Conn}
    (hd : N ≤ d) : b.unused d := by
  constructor
  · refine idle_of_run h fun e he msg ha => ?_
    have hfew := hC e he
    rw [ha] at hfew
    exact absurd hfew (not_lt.mpr hd)
  · refine Machine.Run.invariant_of (I := fun b : State => (b.exitT d).pc = .idle)
      (C := fun e => Few N e.act) rfl ?_ h hC
    intro s a s' o hi hs hfew
    rcases (step_regMove hs).idle d with hiff | ⟨msg, rfl, -⟩
    · exact hiff.mpr hi
    · exact absurd hfew (not_lt.mpr hd)

theorem resting_of_few (h : (machine cfg users).Run tr b) (hC : ∀ e ∈ tr, Few N e.act)
    (hr : b.RestsUpTo N) : b.Resting := by
  refine ⟨fun c => ?_, fun r => ?_, fun k => ?_⟩
  · rcases lt_or_ge c N with hc | hc
    · exact (hr.1 c hc).1
    · exact Or.inl (unused_of_few h hC hc).1
  · rcases lt_or_ge r N with hc | hc
    · exact (hr.1 r hc).2
    · exact Or.inl (unused_of_few h hC hc).2
  · rcases lt_or_ge k b.nextTimer with hk | hk
    · exact hr.2 k hk
    · exact Or.inl (TimersBelow.of_run h k hk)

end
end Broker
end Revquic
