/-
# A session's data path (`internal/session`, `directpath`, `ratelimit`)

Both ends of a session send packets over its current path: the relay, or a
direct connection. A state machine says which of the two it should be; the
path itself is a second piece of state, under a lock of its own. `Send` reads
the path and never looks at the state.

A sender is anything datagrams can be sent on (`σ`). Rates and tokens are
exact rationals where the source has `float64`, times are nanoseconds, and
the statistics counters do not wrap.

Key definitions: `transitions`, `fire`, `Bucket.allow`, `Session`, `setPath`,
`send`.
-/
import Mathlib.Data.Rat.Defs
import Mathlib.Algebra.Order.Ring.Rat

namespace Revquic
namespace Datapath

/-! ### The state machine -/

/-- `PathState`. -/
inductive PathState
  | new
  | relaying
  | checking
  | direct
  | closed
  deriving DecidableEq

/-- `directpath.Event`. -/
inductive Ev
  | startRelay
  | beginChecks
  | directEstablished
  | checksFailed
  | directLost
  | close
  deriving DecidableEq

/-- The constants of the states. -/
def PathState.string : PathState → String
  | .new => "new"
  | .relaying => "relaying"
  | .checking => "checking"
  | .direct => "direct"
  | .closed => "closed"

/-- The constants of the events. -/
def Ev.string : Ev → String
  | .startRelay => "start_relay"
  | .beginChecks => "begin_checks"
  | .directEstablished => "direct_established"
  | .checksFailed => "checks_failed"
  | .directLost => "direct_lost"
  | .close => "close"

/-- `transitions`: the allowed state graph. -/
def transitions : PathState → Ev → Option PathState
  | .new, .startRelay => some .relaying
  | .new, .close => some .closed
  | .relaying, .beginChecks => some .checking
  | .relaying, .close => some .closed
  | .checking, .directEstablished => some .direct
  | .checking, .checksFailed => some .relaying
  | .checking, .close => some .closed
  | .direct, .directLost => some .relaying
  | .direct, .close => some .closed
  | _, _ => none

/-- `ErrInvalidTransition`. -/
structure InvalidTransition where
  state : PathState
  event : Ev
  deriving DecidableEq

/-- Its text. -/
def InvalidTransition.text (e : InvalidTransition) : String :=
  "directpath: invalid transition from \"" ++ e.state.string ++ "\" on \"" ++ e.event.string ++ "\""

/-- `Fire`. -/
def fire (st : PathState) (ev : Ev) : Except InvalidTransition PathState :=
  match transitions st ev with
  | none => .error ⟨st, ev⟩
  | some st' => .ok st'

/-! ### The limiter -/

/-- `ratelimit.Bucket`; `last` is unset before the first use. -/
structure Bucket where
  rate : ℚ
  burst : ℚ
  tokens : ℚ
  last : Option ℕ := none

/-- `NewBucket`. -/
def newBucket (rate burst : ℚ) : Bucket :=
  let burst := if burst < rate then rate else burst
  { rate, burst, tokens := burst }

/-- `Allow`: whether `n` bytes may be sent now. -/
def Bucket.allow (b : Bucket) (n : ℤ) (now : ℕ) : Bool × Bucket :=
  if b.rate ≤ 0 then (true, b)
  else
    let last := b.last.getD now
    let elapsed : ℚ := ((now : ℚ) - last) / 1000000000
    let b :=
      if 0 < elapsed then
        { b with tokens := min (b.tokens + elapsed * b.rate) b.burst, last := some now }
      else { b with last := some last }
    if (n : ℚ) ≤ b.tokens then (true, { b with tokens := b.tokens - n }) else (false, b)

/-- `Allow` on a limiter that may be missing. -/
def allow : Option Bucket → ℤ → ℕ → Bool × Option Bucket
  | none, _, _ => (true, none)
  | some b, n, now => ((b.allow n now).1, some (b.allow n now).2)

/-! ### The session -/

variable {σ : Type*}

/-- `Path`: a sender, if there is one, and its encoder. -/
structure Path (σ : Type*) where
  sender : Option σ := none
  encode : List UInt8 → List UInt8 := id

/-- `Session`. -/
structure Session (σ : Type*) where
  id : ℕ
  m : PathState := .new
  path : Path σ := {}
  limiter : Option Bucket := none
  bytesSent : ℕ := 0
  pktsSent : ℕ := 0
  drops : ℕ := 0

/-- The errors of `Send`: `ErrNoPath`, `ErrRateLimited`, and that of the
sender. -/
inductive SendError
  | noPath
  | rateLimited
  | sender
  deriving DecidableEq

namespace Session

variable (s : Session σ)

/-- `IsDirect`. -/
def isDirect : Bool := s.m = .direct

/-- `Stats`: bytes and packets sent, packets dropped. -/
def stats : ℕ × ℕ × ℕ := (s.bytesSent, s.pktsSent, s.drops)

/-- `setPath`. -/
def setPath (p : Path σ) : Session σ := { s with path := p }

/-- `SetRateLimit`. -/
def setRateLimit (bytesPerSec burst : ℚ) : Session σ :=
  { s with limiter := some (newBucket bytesPerSec burst) }

/-- `Send`: the datagram that goes out, or the error; `ok` is whether the
sender takes it. -/
def send (pkt : List UInt8) (now : ℕ) (ok : Bool) :
    Session σ × Except SendError (σ × List UInt8) :=
  match s.path.sender with
  | none => (s, .error .noPath)
  | some snd =>
    match allow s.limiter pkt.length now with
    | (false, limiter) => ({ s with limiter, drops := s.drops + 1 }, .error .rateLimited)
    | (true, limiter) =>
      if ok then
        ({ s with limiter, bytesSent := s.bytesSent + pkt.length, pktsSent := s.pktsSent + 1 },
          .ok (snd, s.path.encode pkt))
      else ({ s with limiter }, .error .sender)

variable {s}

theorem send_noPath (h : s.path.sender = none) (pkt : List UInt8) (now : ℕ) (ok : Bool) :
    s.send pkt now ok = (s, .error .noPath) := by
  unfold send
  rw [h]

/-- What passes the limiter goes out on the current path, encoded. -/
theorem send_ok {snd : σ} (h : s.path.sender = some snd) {pkt : List UInt8} {now : ℕ}
    (hl : (allow s.limiter pkt.length now).1 = true) :
    (s.send pkt now true).2 = .ok (snd, s.path.encode pkt) := by
  unfold send
  rw [h]
  cases ha : allow s.limiter pkt.length now with
  | mk pass limiter =>
    rw [ha] at hl
    subst hl
    rfl

/-- `Send` leaves state and path alone. -/
theorem send_keeps (s : Session σ) (pkt : List UInt8) (now : ℕ) (ok : Bool) :
    (s.send pkt now ok).1.m = s.m ∧ (s.send pkt now ok).1.path = s.path := by
  unfold send
  split
  · exact ⟨rfl, rfl⟩
  · split
    · exact ⟨rfl, rfl⟩
    · split <;> exact ⟨rfl, rfl⟩

end Session
end Datapath
end Revquic
