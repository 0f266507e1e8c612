/-
# The rate limiter

A bucket of rate `r` and burst `B` holds at most `B` tokens and gains `r` a
second. What a call sees is `level`: the tokens left by the last call,
refilled for the time since the latest reading, and capped.

In any window the calls admitted add up to at most `B`, plus `r` for the time
that passes in it. A call that is refused leaves the level as it is, at its
own time and ever after, because refilling in two steps is refilling in one;
so refused calls can be deleted.

Readings are nanoseconds. The clock of a bucket is `time.Now`, which never
returns the zero time that marks an unused bucket.

Key definitions: `fill`, `level`, `Bounds`, `Thinned`.
Key theorems: `allow_eq`, `fill_fill`, `limiter_bounds`, `refused_invisible`.
-/
import Revquic.Datapath.Migrate
import Mathlib.Tactic

namespace Revquic
namespace Datapath

open Lib

/-! ### Refilling -/

section Fill

variable {r B x d e : ℚ}

/-- `x` tokens after `d` seconds. -/
def fill (r B x d : ℚ) : ℚ := if 0 < d then min (x + d * r) B else x

theorem fill_zero : fill r B x 0 = x := if_neg (lt_irrefl 0)

/-- Refilling in two steps is refilling in one. -/
theorem fill_fill (hr : 0 < r) (hd : 0 ≤ d) (he : 0 ≤ e) :
    fill r B (fill r B x d) e = fill r B x (d + e) := by
  rcases hd.eq_or_lt with rfl | hd
  · rw [fill_zero, zero_add]
  rcases he.eq_or_lt with rfl | he
  · rw [fill_zero, add_zero]
  have hgain : 0 < e * r := mul_pos he hr
  rw [fill, fill, fill, if_pos he, if_pos hd, if_pos (add_pos hd he), add_mul, ← add_assoc]
  rcases le_total (x + d * r) B with h | h
  · rw [min_eq_left h]
  · rw [min_eq_right h, min_eq_right (by linarith), min_eq_right (by linarith)]

theorem fill_full (hr : 0 < r) : fill r B B d = B := by
  unfold fill
  split_ifs with hd
  · exact min_eq_right (by linarith [mul_pos hd hr])
  · rfl

theorem fill_le (hx : x ≤ B) : fill r B x d ≤ B := by
  unfold fill
  split_ifs
  · exact min_le_right _ _
  · exact hx

theorem le_fill (hr : 0 < r) (hx : x ≤ B) : x ≤ fill r B x d := by
  unfold fill
  split_ifs with hd
  · exact le_min (by linarith [mul_pos hd hr]) hx
  · exact le_rfl

/-- It gains no more than the rate allows. -/
theorem fill_le_add : fill r B x d ≤ x + max d 0 * r := by
  unfold fill
  split_ifs with hd
  · rw [max_eq_left hd.le]
    exact min_le_left _ _
  · rw [max_eq_right (not_lt.mp hd)]
    linarith

end Fill

/-! ### One call -/

/-- The seconds from one reading to another. -/
def seconds (t t' : ℕ) : ℚ := ((t' : ℚ) - t) / 1000000000

theorem seconds_add (t₁ t₂ t₃ : ℕ) : seconds t₁ t₂ + seconds t₂ t₃ = seconds t₁ t₃ := by
  unfold seconds
  ring

theorem seconds_pos {t t' : ℕ} : 0 < seconds t t' ↔ t < t' := by
  unfold seconds
  rw [div_pos_iff_of_pos_right (by norm_num), sub_pos, Nat.cast_lt]

theorem seconds_nonneg {t t' : ℕ} : 0 ≤ seconds t t' ↔ t ≤ t' := by
  unfold seconds
  rw [le_div_iff₀ (by norm_num), zero_mul, sub_nonneg, Nat.cast_le]

theorem seconds_self (t : ℕ) : seconds t t = 0 := by
  unfold seconds
  rw [sub_self, zero_div]

namespace Bucket

variable {b b' : Bucket} {n : ℤ} {t t' : ℕ}

/-- The tokens a call at reading `t` finds. -/
def level (b : Bucket) (t : ℕ) : ℚ := fill b.rate b.burst b.tokens (seconds (b.last.getD t) t)

/-- What `Allow` does. -/
theorem allow_eq (hr : 0 < b.rate) (n : ℤ) (t : ℕ) :
    b.allow n t = (decide ((n : ℚ) ≤ b.level t),
      { b with
        tokens := if (n : ℚ) ≤ b.level t then b.level t - n else b.level t
        last := some (max (b.last.getD t) t) }) := by
  have hlast : (if 0 < seconds (b.last.getD t) t then t else b.last.getD t) = max (b.last.getD t) t := by
    split_ifs with h
    · exact (max_eq_right (seconds_pos.mp h).le).symm
    · exact (max_eq_left (not_lt.mp fun h' => h (seconds_pos.mpr h'))).symm
  have helapsed : ((t : ℚ) - (b.last.getD t : ℕ)) / 1000000000 = seconds (b.last.getD t) t := rfl
  rw [← hlast]
  unfold allow level fill
  simp only [if_neg (not_le.mpr hr), helapsed]
  by_cases h : 0 < seconds (b.last.getD t) t
  · simp only [if_pos h]
    split_ifs with hn <;> simp [hn]
  · simp only [if_neg h]
    split_ifs with hn <;> simp [hn]

/-- A call moves tokens, and nothing else but the reading. -/
theorem allow_rate (n : ℤ) (t : ℕ) : (b.allow n t).2.rate = b.rate ∧ (b.allow n t).2.burst = b.burst := by
  by_cases hr : 0 < b.rate
  · rw [allow_eq hr]
    exact ⟨rfl, rfl⟩
  · rw [allow, if_pos (not_lt.mp hr)]
    exact ⟨rfl, rfl⟩

/-- What the call spends. -/
def spent (b : Bucket) (n : ℤ) (t : ℕ) : ℤ := if (b.allow n t).1 = true then n else 0

/-- What is spent and what is left is what was there. -/
theorem spent_add_tokens (hr : 0 < b.rate) (n : ℤ) (t : ℕ) :
    (b.spent n t : ℚ) + (b.allow n t).2.tokens = b.level t := by
  unfold spent
  rw [allow_eq hr]
  by_cases h : (n : ℚ) ≤ b.level t <;> simp [h]

/-- The tokens are within bounds. -/
def Within (b : Bucket) : Prop := 0 ≤ b.tokens ∧ b.tokens ≤ b.burst

theorem Within.level (h : b.Within) (hr : 0 < b.rate) (t : ℕ) :
    0 ≤ b.level t ∧ b.level t ≤ b.burst :=
  ⟨h.1.trans (le_fill hr h.2), fill_le h.2⟩

theorem Within.allow (h : b.Within) (hr : 0 < b.rate) (hn : 0 ≤ n) (t : ℕ) :
    (b.allow n t).2.Within := by
  obtain ⟨h0, hB⟩ := h.level hr t
  have hn' : (0 : ℚ) ≤ n := Int.cast_nonneg hn
  rw [allow_eq hr]
  unfold Within
  simp only
  split_ifs with hle
  · exact ⟨by linarith, by linarith⟩
  · exact ⟨h0, hB⟩

end Bucket

theorem newBucket_within {rate burst : ℚ} (hr : 0 < rate) : (newBucket rate burst).Within := by
  unfold newBucket Bucket.Within
  simp only
  split_ifs with h
  · exact ⟨hr.le, le_rfl⟩
  · exact ⟨by linarith, le_rfl⟩

theorem newBucket_burst (rate burst : ℚ) : (newBucket rate burst).burst = max burst rate := by
  unfold newBucket
  simp only
  split_ifs with h
  · exact (max_eq_right h.le).symm
  · exact (max_eq_left (not_lt.mp h)).symm

/-! ### Sequences of calls -/

/-- A call of `Allow`, and what it returned. -/
structure Entry where
  size : ℤ
  now : ℕ
  pass : Bool
  deriving DecidableEq

/-- The size and the reading. -/
def Entry.call (e : Entry) : ℤ × ℕ := (e.size, e.now)

/-- The size of what is admitted. -/
def total (w : List Entry) : ℤ := ((w.filter (·.pass)).map (·.size)).sum

theorem total_cons (e : Entry) (w : List Entry) :
    total (e :: w) = (if e.pass = true then e.size else 0) + total w := by
  unfold total
  cases h : e.pass <;> simp [h]

/-- The largest reading, from `m` on. -/
def highest (m : ℕ) : List Entry → ℕ
  | [] => m
  | e :: w => highest (max m e.now) w

theorem highest_max (l t : ℕ) (w : List Entry) : highest (max l t) w = max l (highest t w) := by
  induction w generalizing t with
  | nil => rfl
  | cons e w ih => rw [highest, highest, max_assoc, ih]

theorem le_highest (t : ℕ) (w : List Entry) : t ≤ highest t w := by
  have h := highest_max t t w
  rw [max_self] at h
  rw [h]
  exact le_max_left _ _

/-- A later start leaves less time. -/
theorem seconds_highest {t l : ℕ} (h : t ≤ l) (w : List Entry) :
    seconds l (highest l w) ≤ seconds t (highest t w) := by
  have hl : highest l w = max l (highest t w) := by rw [← highest_max, max_eq_left h]
  have ht := seconds_nonneg.mpr (le_highest t w)
  rw [hl]
  rcases le_total (highest t w) l with hle | hle
  · rw [max_eq_left hle, seconds_self]
    exact ht
  · rw [max_eq_right hle, ← seconds_add t l]
    linarith [seconds_nonneg.mpr h]

/-- If no reading goes back, the last one is the largest. -/
theorem highest_eq_getLast : ∀ (c : Entry) (w : List Entry),
    ((c :: w).map Entry.now).Pairwise (· ≤ ·) →
    highest c.now w = ((c :: w).getLast (List.cons_ne_nil c w)).now
  | c, [], _ => rfl
  | c, e :: w, h => by
    rw [List.map_cons, List.pairwise_cons] at h
    have hce : c.now ≤ e.now := h.1 _ (List.mem_map_of_mem List.mem_cons_self)
    rw [highest, max_eq_right hce, highest_eq_getLast e w h.2, List.getLast_cons (List.cons_ne_nil e w)]

namespace Bucket

variable {b : Bucket} {calls : List (ℤ × ℕ)}

/-- A sequence of calls, with their results. -/
def log (b : Bucket) : List (ℤ × ℕ) → List Entry
  | [] => []
  | (n, t) :: calls => ⟨n, t, (b.allow n t).1⟩ :: log (b.allow n t).2 calls

/-- The bucket after a sequence of calls. -/
def after (b : Bucket) : List (ℤ × ℕ) → Bucket
  | [] => b
  | (n, t) :: calls => after (b.allow n t).2 calls

theorem map_call_log : ∀ (b : Bucket) (calls : List (ℤ × ℕ)), (b.log calls).map Entry.call = calls
  | _, [] => rfl
  | b, (n, t) :: calls => by rw [log, List.map_cons, map_call_log]; rfl

theorem log_append : ∀ (b : Bucket) (x y : List (ℤ × ℕ)),
    b.log (x ++ y) = b.log x ++ (b.after x).log y
  | _, [], _ => rfl
  | b, (n, t) :: x, y => by rw [List.cons_append, log, log, after, log_append _ x y]; rfl

theorem after_append : ∀ (b : Bucket) (x y : List (ℤ × ℕ)),
    b.after (x ++ y) = (b.after x).after y
  | _, [], _ => rfl
  | b, (n, t) :: x, y => by rw [List.cons_append, after, after, after_append]

/-- Any part of a log is the log of the calls in it, from where the calls
before it have left the bucket. -/
theorem log_split {x y : List Entry} (h : b.log calls = x ++ y) :
    b.log (x.map Entry.call) = x ∧ (b.after (x.map Entry.call)).log (y.map Entry.call) = y := by
  have hcalls := map_call_log b calls
  rw [h, List.map_append] at hcalls
  rw [← hcalls, log_append] at h
  refine List.append_inj h ?_
  rw [← List.length_map (f := Entry.call), map_call_log, List.length_map]

theorem after_rate (b : Bucket) (calls : List (ℤ × ℕ)) :
    (b.after calls).rate = b.rate ∧ (b.after calls).burst = b.burst := by
  induction calls generalizing b with
  | nil => exact ⟨rfl, rfl⟩
  | cons c calls ih =>
    obtain ⟨h1, h2⟩ := ih (b.allow c.1 c.2).2
    obtain ⟨h3, h4⟩ := b.allow_rate c.1 c.2
    exact ⟨h1.trans h3, h2.trans h4⟩

/-- The tokens stay within bounds. -/
theorem Within.after (h : b.Within) (hr : 0 < b.rate) (hn : ∀ c ∈ calls, 0 ≤ c.1) :
    (b.after calls).Within := by
  induction calls generalizing b with
  | nil => exact h
  | cons c calls ih =>
    rw [List.forall_mem_cons] at hn
    refine ih (h.allow hr hn.1 c.2) ?_ hn.2
    rw [(b.allow_rate c.1 c.2).1]
    exact hr

/-- From a reading `l` on, what is spent and what is left is at most what was
there and what has come in since. -/
theorem total_log_le (h : b.Within) (hr : 0 < b.rate) (hn : ∀ c ∈ calls, 0 ≤ c.1) {l : ℕ}
    (hl : b.last = some l) : (total (b.log calls) : ℚ) + (b.after calls).tokens ≤
      b.tokens + seconds l (highest l (b.log calls)) * b.rate := by
  induction calls generalizing b l with
  | nil => simp [log, after, total, highest, seconds_self]
  | cons c calls ih =>
    obtain ⟨n, t⟩ := c
    rw [List.forall_mem_cons] at hn
    have hrate := (b.allow_rate n t).1
    have hlast : (b.allow n t).2.last = some (max l t) := by
      rw [allow_eq hr]
      simp [hl]
    have hih := ih (h.allow hr hn.1 t) (by rw [hrate]; exact hr) hn.2 hlast
    rw [hrate] at hih
    have hspent := spent_add_tokens hr n t
    have hlevel : b.level t ≤ b.tokens + seconds l (max l t) * b.rate := by
      have hmax : max (seconds l t) 0 = seconds l (max l t) := by
        rcases le_total l t with hlt | hlt
        · rw [max_eq_right hlt, max_eq_left (seconds_nonneg.mpr hlt)]
        · rw [max_eq_left hlt, seconds_self, max_eq_right]
          linarith [seconds_nonneg.mpr hlt, seconds_add l t l, seconds_self l]
      rw [← hmax]
      unfold level
      rw [hl]
      exact fill_le_add
    have htime := seconds_add l (max l t) (highest (max l t) ((b.allow n t).2.log calls))
    rw [log, total_cons, after, highest, ← htime, add_mul]
    have hcast : (((if (b.allow n t).1 = true then n else 0) + total ((b.allow n t).2.log calls) : ℤ) : ℚ)
        = b.spent n t + total ((b.allow n t).2.log calls) := by
      rw [Int.cast_add]
      rfl
    rw [hcast]
    linarith

/-- What is admitted in a window. -/
theorem total_window (h : b.Within) (hr : 0 < b.rate) {c : Entry} {w : List Entry}
    (hlog : b.log (c.call :: w.map Entry.call) = c :: w) (hn : ∀ e ∈ c :: w, 0 ≤ e.size) :
    (total (c :: w) : ℚ) ≤ b.burst + b.rate * seconds c.now (highest c.now w) := by
  rw [List.forall_mem_cons] at hn
  obtain ⟨hc, hw⟩ := List.cons.inj hlog
  have hrate := (b.allow_rate c.size c.now).1
  have hlast : (b.allow c.size c.now).2.last = some (max (b.last.getD c.now) c.now) := by
    rw [allow_eq hr]
  have hin := h.allow hr hn.1 c.now
  have hcalls : ∀ d ∈ w.map Entry.call, 0 ≤ d.1 := by
    intro d hd
    obtain ⟨e, he, rfl⟩ := List.mem_map.mp hd
    exact hn.2 e he
  have hrest := total_log_le hin (by rw [hrate]; exact hr) hcalls hlast
  have hleft := (hin.after (by rw [hrate]; exact hr) hcalls).1
  have hspent := spent_add_tokens hr c.size c.now
  have hfull := (h.level hr c.now).2
  rw [hw, hrate] at hrest
  -- the first call has moved the reading to its own, or it was later already
  have htime := mul_le_mul_of_nonneg_right (seconds_highest (le_max_right (b.last.getD c.now) c.now) w) hr.le
  have hpass : (if c.pass = true then c.size else 0) = b.spent c.size c.now := by
    rw [← hc]
    rfl
  rw [total_cons, hpass, Int.cast_add, mul_comm b.rate]
  linarith

end Bucket

/-- In every window whose readings do not go back, the admitted calls add up
to at most `B`, and `r` for every second from its first to its last reading;
whatever the readings, those of the first calls to at most `B`, and `r` for
every second from the first to the largest reading. -/
structure Bounds (r B : ℚ) (log : List Entry) : Prop where
  window : (log.map Entry.now).Pairwise (· ≤ ·) → ∀ c w, (c :: w) <:+: log →
    (total (c :: w) : ℚ) ≤ B + r * seconds c.now ((c :: w).getLast (List.cons_ne_nil c w)).now
  sofar : ∀ c w, (c :: w) <+: log → (total (c :: w) : ℚ) ≤ B + r * seconds c.now (highest c.now w)

namespace Bucket

variable {b : Bucket} {calls : List (ℤ × ℕ)}

theorem bounds (h : b.Within) (hr : 0 < b.rate) (hn : ∀ c ∈ calls, 0 ≤ c.1) :
    Bounds b.rate b.burst (b.log calls) := by
  have hsize : ∀ e ∈ b.log calls, 0 ≤ e.size := by
    intro e he
    refine hn e.call ?_
    rw [← map_call_log b calls]
    exact List.mem_map_of_mem he
  -- a window is a log from the bucket its prefix leaves
  have hwin : ∀ x c w y, b.log calls = x ++ (c :: w) ++ y →
      (total (c :: w) : ℚ) ≤ b.burst + b.rate * seconds c.now (highest c.now w) := by
    intro x c w y heq
    rw [heq] at hsize
    have hx : ∀ d ∈ x.map Entry.call, 0 ≤ d.1 := by
      intro d hd
      obtain ⟨e, he, rfl⟩ := List.mem_map.mp hd
      exact hsize e (by simp [he])
    rw [List.append_assoc] at heq
    obtain ⟨hwy, -⟩ := log_split (log_split heq).2
    obtain ⟨hrate, hburst⟩ := b.after_rate (x.map Entry.call)
    rw [← hrate, ← hburst]
    refine total_window (h.after hr hx) (by rw [hrate]; exact hr) hwy fun e he => hsize e ?_
    exact List.mem_append_left _ (List.mem_append_right _ he)
  refine ⟨fun hsorted c w hw => ?_, fun c w hw => ?_⟩
  · obtain ⟨x, y, heq⟩ := hw
    have hsub : ((c :: w).map Entry.now).Pairwise (· ≤ ·) :=
      hsorted.sublist (List.Sublist.map _ (List.IsInfix.sublist ⟨x, y, heq⟩))
    rw [← highest_eq_getLast c w hsub]
    exact hwin x c w y heq.symm
  · obtain ⟨y, heq⟩ := hw
    exact hwin [] c w y heq.symm

end Bucket

/-! ### A session that sends and migrates

`Send` reads the path and the limiter under the session's lock, and calls
`Allow` after it has given the lock back: a migration can come in between. -/

section Sending

variable {σ : Type*}

/-- A session, and the calls of `Send` that have read their path. -/
structure Sending (σ : Type*) where
  base : State σ
  reads : GoMap ℕ (Path σ × List UInt8) := ∅

/-- A step of a migration; call `k` of `Send` reads the path, and goes on
from there. -/
inductive SendAction (σ : Type*)
  | migrate (a : Action σ)
  | read (k : ℕ) (pkt : List UInt8)
  | send (k : ℕ) (now : ℕ) (ok : Bool)

/-- What a call of `Send` returns. -/
structure Sent (σ : Type*) where
  pkt : List UInt8
  now : ℕ
  result : Except SendError (σ × List UInt8)

/-- The rest of `Send`, on the path it has read. -/
def Session.sendOn (s : Session σ) (p : Path σ) (pkt : List UInt8) (now : ℕ) (ok : Bool) :
    Session σ × Except SendError (σ × List UInt8) :=
  let r := (s.setPath p).send pkt now ok
  (r.1.setPath s.path, r.2)

def Sending.step (s : Sending σ) : SendAction σ → Option (Sending σ × List (Sent σ))
  | .migrate a =>
    match Datapath.step s.base a with
    | none => none
    | some (base, _) => some ({ s with base }, [])
  | .read k pkt =>
    if k ∈ s.reads then none
    else some ({ s with reads := s.reads.insert k (s.base.sess.path, pkt) }, [])
  | .send k now ok =>
    match s.reads.lookup k with
    | none => none
    | some (p, pkt) =>
      let r := s.base.sess.sendOn p pkt now ok
      some ({ base := { s.base with sess := r.1 }, reads := s.reads.erase k }, [⟨pkt, now, r.2⟩])

/-- A new session with a rate limit, under any interleaving of migrations
and sends. -/
def limited (σ : Type*) (id : ℕ) (rate burst : ℚ) : Machine (Sending σ) (SendAction σ) (Sent σ) :=
  ⟨{ base := { sess := ({ id } : Session σ).setRateLimit rate burst } }, Sending.step⟩

/-- The call of `Allow` a `Send` has made. -/
def Sent.entry (x : Sent σ) : Option Entry :=
  match x.result with
  | .error .noPath => none
  | .error .rateLimited => some ⟨x.pkt.length, x.now, false⟩
  | .error .sender | .ok _ => some ⟨x.pkt.length, x.now, true⟩

/-- The calls of `Allow` in a run. -/
def allowed (tr : List (Event (Sending σ) (SendAction σ) (Sent σ))) : List Entry :=
  (tr.flatMap (·.out)).filterMap Sent.entry

/-- No migration touches the limiter. -/
theorem step_limiter {s s' : State σ} {a : Action σ} {o : List Unit}
    (h : Datapath.step s a = some (s', o)) : s'.sess.limiter = s.sess.limiter := by
  cases a with
  | fire k c =>
    simp only [Datapath.step] at h
    split at h
    · cases h
    · obtain ⟨rfl, -⟩ := Prod.mk.inj (Option.some.inj h)
      rcases fireCall_spec s k c with ⟨-, -, he⟩ | ⟨-, -, he⟩ | ⟨m, -, -, he⟩ | ⟨m, p, -, -, he⟩
      all_goals rw [he]
  | set k =>
    simp only [Datapath.step] at h
    split at h
    · obtain ⟨rfl, -⟩ := Prod.mk.inj (Option.some.inj h)
      rfl
    · cases h

/-- `Send` calls `Allow` once, or not at all. -/
theorem sendOn_limiter {s : Session σ} {l : Bucket} (hl : s.limiter = some l) (p : Path σ)
    (pkt : List UInt8) (now : ℕ) (ok : Bool) :
    (Sent.entry ⟨pkt, now, (s.sendOn p pkt now ok).2⟩ = none ∧
      (s.sendOn p pkt now ok).1.limiter = some l) ∨
    (Sent.entry ⟨pkt, now, (s.sendOn p pkt now ok).2⟩ = some ⟨pkt.length, now, (l.allow pkt.length now).1⟩ ∧
      (s.sendOn p pkt now ok).1.limiter = some (l.allow pkt.length now).2) := by
  unfold Session.sendOn Session.send Session.setPath
  simp only
  cases p.sender with
  | none => exact Or.inl ⟨rfl, hl⟩
  | some snd =>
    refine Or.inr ?_
    rw [hl, allow]
    cases (l.allow pkt.length now).1 with
    | false => exact ⟨rfl, rfl⟩
    | true => cases ok <;> exact ⟨rfl, rfl⟩

/-- The limiter of a session that sends is the bucket that its calls of
`Allow` have left, and what they returned is what the bucket returns. -/
theorem limiter_of_run {id : ℕ} {rate burst : ℚ}
    {tr : List (Event (Sending σ) (SendAction σ) (Sent σ))} {s : Sending σ}
    (h : (limited σ id rate burst).Run tr s) :
    s.base.sess.limiter = some ((newBucket rate burst).after ((allowed tr).map Entry.call)) ∧
      (newBucket rate burst).log ((allowed tr).map Entry.call) = allowed tr ∧
      ∀ e ∈ allowed tr, 0 ≤ e.size := by
  induction h with
  | nil => exact ⟨rfl, rfl, by simp [allowed]⟩
  | @snoc tr s s' a o hr hs ih =>
    obtain ⟨hlim, hlog, hsize⟩ := ih
    have happ : ∀ e : Event (Sending σ) (SendAction σ) (Sent σ),
        allowed (tr ++ [e]) = allowed tr ++ e.out.filterMap Sent.entry := by
      intro e
      simp [allowed]
    rw [happ]
    -- a step that makes no call of `Allow` and leaves the limiter
    have hquiet : s'.base.sess.limiter = s.base.sess.limiter → o.filterMap Sent.entry = [] →
        s'.base.sess.limiter = some ((newBucket rate burst).after
          ((allowed tr ++ o.filterMap Sent.entry).map Entry.call)) ∧
        (newBucket rate burst).log ((allowed tr ++ o.filterMap Sent.entry).map Entry.call) =
          allowed tr ++ o.filterMap Sent.entry ∧
        ∀ e ∈ allowed tr ++ o.filterMap Sent.entry, 0 ≤ e.size := by
      intro hsame hno
      rw [hno, List.append_nil, hsame]
      exact ⟨hlim, hlog, hsize⟩
    cases a with
    | migrate a =>
      simp only [limited, Sending.step] at hs
      split at hs
      · cases hs
      · rename_i hstep
        obtain ⟨rfl, rfl⟩ := Prod.mk.inj (Option.some.inj hs)
        exact hquiet (step_limiter hstep) rfl
    | read k pkt =>
      simp only [limited, Sending.step] at hs
      split at hs
      · cases hs
      · obtain ⟨rfl, rfl⟩ := Prod.mk.inj (Option.some.inj hs)
        exact hquiet rfl rfl
    | send k now ok =>
      simp only [limited, Sending.step] at hs
      split at hs
      · cases hs
      · rename_i p pkt hk
        obtain ⟨rfl, rfl⟩ := Prod.mk.inj (Option.some.inj hs)
        rcases sendOn_limiter hlim p pkt now ok with ⟨hno, hsame⟩ | ⟨hcall, hnext⟩
        · exact hquiet (hsame.trans hlim.symm) (List.filterMap_cons_none hno)
        · rw [List.filterMap_cons_some hcall, List.filterMap_nil, List.map_append, Bucket.after_append,
            Bucket.log_append, hlog]
          refine ⟨hnext, rfl, ?_⟩
          intro e he
          rcases List.mem_append.mp he with he | he
          · exact hsize e he
          · obtain rfl := List.mem_singleton.mp he
            exact Int.natCast_nonneg _

end Sending

/-- **The rate limiter bounds every window.** With a positive rate, the token
count of a bucket stays between 0 and the effective burst, and what it admits
is bounded in every window (`Bounds`), for every sequence of calls of sizes
that are not negative; and so for the calls of `Send` on a limited session,
however they interleave with its migrations. -/
theorem limiter_bounds {rate : ℚ} (hr : 0 < rate) (burst : ℚ) :
    (∀ calls, (∀ c ∈ calls, 0 ≤ c.1) →
      (∀ x, x <+: calls → 0 ≤ ((newBucket rate burst).after x).tokens ∧
        ((newBucket rate burst).after x).tokens ≤ max burst rate) ∧
      Bounds rate (max burst rate) ((newBucket rate burst).log calls)) ∧
    ∀ (σ : Type*) (id : ℕ) tr s, (limited σ id rate burst).Run tr s →
      (∃ l, s.base.sess.limiter = some l ∧ 0 ≤ l.tokens ∧ l.tokens ≤ max burst rate) ∧
      Bounds rate (max burst rate) (allowed tr) := by
  have hin : (newBucket rate burst).Within := newBucket_within hr
  have hall : ∀ calls : List (ℤ × ℕ), (∀ c ∈ calls, 0 ≤ c.1) →
      (0 ≤ ((newBucket rate burst).after calls).tokens ∧
        ((newBucket rate burst).after calls).tokens ≤ max burst rate) ∧
      Bounds rate (max burst rate) ((newBucket rate burst).log calls) := by
    intro calls hn
    obtain ⟨h0, hB⟩ := hin.after hr hn
    rw [((newBucket rate burst).after_rate calls).2, newBucket_burst] at hB
    have hbounds := Bucket.bounds hin hr hn
    rw [newBucket_burst] at hbounds
    exact ⟨⟨h0, hB⟩, hbounds⟩
  constructor
  · intro calls hn
    refine ⟨fun x hx => (hall x fun c hc => hn c (hx.subset hc)).1, (hall calls hn).2⟩
  · intro σ id tr s h
    obtain ⟨hlim, hlog, hsize⟩ := limiter_of_run h
    have hn : ∀ c ∈ (allowed tr).map Entry.call, 0 ≤ c.1 := by
      intro c hc
      obtain ⟨e, he, rfl⟩ := List.mem_map.mp hc
      exact hsize e he
    obtain ⟨htokens, hbounds⟩ := hall _ hn
    rw [hlog] at hbounds
    exact ⟨⟨_, hlim, htokens⟩, hbounds⟩

/-- 100 bytes a second, over a migration from the relay to a direct path: a
burst of 100, then half a second's worth. -/
theorem limiter_bounds_half_second : ∃ tr s, (limited String 1 100 0).Run tr s ∧
    s.base.sess.path.sender = some "direct" ∧
    allowed tr = [⟨100, 0, true⟩, ⟨60, 500000000, false⟩, ⟨50, 500000000, true⟩] ∧
    Bounds 100 (max 0 100) (allowed tr) := by
  obtain ⟨tr, s, hrun, hpath, hallowed⟩ := (limited String 1 100 0).exists_run
    [.migrate (.fire 0 (.startRelay ⟨some "relay", id⟩)), .migrate (.set 0),
      .read 0 (List.replicate 100 0), .migrate (.fire 1 .beginChecks), .send 0 0 true,
      .migrate (.fire 2 (.upgradeDirect ⟨some "direct", id⟩)), .read 1 (List.replicate 60 0),
      .migrate (.set 2), .send 1 500000000 true, .read 2 (List.replicate 50 0), .send 2 500000000 true]
    (P := fun r => r.2.base.sess.path.sender = some "direct" ∧
      allowed r.1 = [⟨100, 0, true⟩, ⟨60, 500000000, false⟩, ⟨50, 500000000, true⟩])
    (by decide +kernel)
  exact ⟨tr, s, hrun, hpath, hallowed, ((limiter_bounds (by norm_num) 0).2 String 1 tr s hrun).2⟩

/-! ### Refused calls -/

namespace Bucket

variable {b b' : Bucket} {n : ℤ} {t t' : ℕ}

/-- No reading so far is later than `t`, and a bucket that was never used is
full. -/
structure Ready (b : Bucket) (t : ℕ) : Prop where
  rate : 0 < b.rate
  last : ∀ l, b.last = some l → l ≤ t
  unused : b.last = none → b.tokens = b.burst

theorem Ready.mono (h : b.Ready t) (ht : t ≤ t') : b.Ready t' :=
  ⟨h.rate, fun l hl => (h.last l hl).trans ht, h.unused⟩

theorem Ready.max_last (h : b.Ready t) : max (b.last.getD t) t = t := by
  cases hl : b.last with
  | none => exact max_self t
  | some l => exact max_eq_right (h.last l hl)

theorem Ready.allow (h : b.Ready t) (n : ℤ) : (b.allow n t).2.Ready t := by
  rw [allow_eq h.rate, h.max_last]
  exact ⟨h.rate, fun l hl => (Option.some.inj hl).ge, fun hl => by cases hl⟩

/-- The level a while after. -/
theorem Ready.level_later (h : b.Ready t) (ht : t ≤ t') :
    b.level t' = fill b.rate b.burst (b.level t) (seconds t t') := by
  unfold level
  cases hl : b.last with
  | none =>
    -- an unused bucket stays full
    rw [Option.getD_none, Option.getD_none, h.unused hl, fill_full h.rate, fill_full h.rate,
      fill_full h.rate]
  | some l =>
    rw [Option.getD_some, Option.getD_some,
      fill_fill h.rate (seconds_nonneg.mpr (h.last l hl)) (seconds_nonneg.mpr ht), seconds_add]

/-- A call leaves the level less what it spends. -/
theorem Ready.level_allow (h : b.Ready t) (n : ℤ) :
    (b.allow n t).2.level t = b.level t - b.spent n t := by
  have hself : (b.allow n t).2.level t = (b.allow n t).2.tokens := by
    rw [allow_eq h.rate, h.max_last]
    unfold level
    rw [Option.getD_some, seconds_self, fill_zero]
  rw [hself, ← spent_add_tokens h.rate n t]
  ring

/-- The buckets answer alike, from reading `t` on. -/
structure Alike (b b' : Bucket) (t : ℕ) : Prop where
  ready : b.Ready t
  ready' : b'.Ready t
  rate : b.rate = b'.rate
  burst : b.burst = b'.burst
  level : b.level t = b'.level t

theorem Alike.later (h : Alike b b' t) (ht : t ≤ t') : Alike b b' t' := by
  refine ⟨h.ready.mono ht, h.ready'.mono ht, h.rate, h.burst, ?_⟩
  rw [h.ready.level_later ht, h.ready'.level_later ht, h.rate, h.burst, h.level]

/-- The same call gets the same answer. -/
theorem Alike.allow (h : Alike b b' t) (n : ℤ) :
    (b.allow n t).1 = (b'.allow n t).1 ∧ Alike (b.allow n t).2 (b'.allow n t).2 t := by
  have hpass : (b.allow n t).1 = (b'.allow n t).1 := by
    rw [allow_eq h.ready.rate, allow_eq h.ready'.rate, h.level]
  refine ⟨hpass, h.ready.allow n, h.ready'.allow n, ?_, ?_, ?_⟩
  · rw [(b.allow_rate n t).1, (b'.allow_rate n t).1, h.rate]
  · rw [(b.allow_rate n t).2, (b'.allow_rate n t).2, h.burst]
  · rw [h.ready.level_allow, h.ready'.level_allow, h.level, spent, spent, hpass]

/-- A refused call leaves no trace. -/
theorem Alike.refused (h : Alike b b' t) (hn : (b.allow n t).1 = false) :
    Alike (b.allow n t).2 b' t := by
  refine ⟨h.ready.allow n, h.ready', ?_, ?_, ?_⟩
  · rw [(b.allow_rate n t).1, h.rate]
  · rw [(b.allow_rate n t).2, h.burst]
  · rw [h.ready.level_allow, spent, hn, ← h.level]
    simp

end Bucket

/-- The second log is the first with some refused calls deleted. -/
inductive Thinned : List Entry → List Entry → Prop
  | nil : Thinned [] []
  | keep (e : Entry) {w w' : List Entry} : Thinned w w' → Thinned (e :: w) (e :: w')
  | drop {e : Entry} {w w' : List Entry} : e.pass = false → Thinned w w' → Thinned (e :: w) w'

/-- Where nothing is refused there is nothing to delete. -/
theorem Thinned.eq_of_pass {w w' : List Entry} (h : Thinned w w') (hw : ∀ e ∈ w, e.pass = true) :
    w' = w := by
  induction h with
  | nil => rfl
  | keep e _ ih => rw [ih fun x hx => hw x (List.mem_cons_of_mem _ hx)]
  | drop he _ _ =>
    have := hw _ List.mem_cons_self
    rw [he] at this
    cases this

theorem Bucket.log_thinned {calls : List (ℤ × ℕ)} {b b' : Bucket} {t : ℕ} {w : List Entry}
    (hb : Alike b b' t) (ht : ∀ c ∈ calls, t ≤ c.2)
    (hsorted : (calls.map Prod.snd).Pairwise (· ≤ ·)) (hw : Thinned (b.log calls) w) :
    b'.log (w.map Entry.call) = w := by
  induction calls generalizing b b' t w with
  | nil =>
    cases hw
    rfl
  | cons c calls ih =>
    obtain ⟨n, now⟩ := c
    rw [List.forall_mem_cons] at ht
    rw [List.map_cons, List.pairwise_cons] at hsorted
    have hnow : Alike b b' now := hb.later ht.1
    have hlater : ∀ c ∈ calls, now ≤ c.2 := fun c hc => hsorted.1 _ (List.mem_map_of_mem hc)
    cases hw with
    | keep _ hw =>
      obtain ⟨hpass, hnext⟩ := hnow.allow n
      rw [List.map_cons]
      show (⟨n, now, (b'.allow n now).1⟩ : Entry) :: (b'.allow n now).2.log _ = _
      rw [ih hnext hlater hsorted.2 hw, hpass]
    | drop he hw => exact ih (hnow.refused he) hlater hsorted.2 hw

/-- **Refused calls are invisible.** In a sequence of calls whose readings do
not go back, deleting any of the refused ones leaves the result of every
other call unchanged. -/
theorem refused_invisible (rate burst : ℚ) {calls : List (ℤ × ℕ)}
    (hsorted : (calls.map Prod.snd).Pairwise (· ≤ ·)) {w : List Entry}
    (hw : Thinned ((newBucket rate burst).log calls) w) :
    (newBucket rate burst).log (w.map Entry.call) = w := by
  by_cases hr : 0 < rate
  · have hready : (newBucket rate burst).Ready 0 :=
      ⟨hr, fun l hl => (by cases hl), fun _ => rfl⟩
    exact Bucket.log_thinned ⟨hready, hready, rfl, rfl, rfl⟩ (fun _ _ => Nat.zero_le _) hsorted hw
  · -- without a rate nothing is refused
    have hpass : ∀ calls : List (ℤ × ℕ), ∀ e ∈ (newBucket rate burst).log calls, e.pass = true := by
      intro calls
      induction calls with
      | nil => simp [Bucket.log]
      | cons c calls ih =>
        have hallow : (newBucket rate burst).allow c.1 c.2 = (true, newBucket rate burst) :=
          if_pos (not_lt.mp hr)
        rw [Bucket.log, hallow]
        exact List.forall_mem_cons.mpr ⟨rfl, ih⟩
    rw [hw.eq_of_pass (hpass calls), Bucket.map_call_log]

/-- A packet too large for the half second is refused, and so without trace. -/
theorem refused_invisible_half_second :
    (newBucket 100 0).log [(100, 0), (60, 500000000), (50, 700000000)] =
      [⟨100, 0, true⟩, ⟨60, 500000000, false⟩, ⟨50, 700000000, true⟩] ∧
    (newBucket 100 0).log [(100, 0), (50, 700000000)] = [⟨100, 0, true⟩, ⟨50, 700000000, true⟩] := by
  have hlog : (newBucket 100 0).log [(100, 0), (60, 500000000), (50, 700000000)] =
      [⟨100, 0, true⟩, ⟨60, 500000000, false⟩, ⟨50, 700000000, true⟩] := by decide +kernel
  have hthin : Thinned ((newBucket 100 0).log [(100, 0), (60, 500000000), (50, 700000000)])
      [⟨100, 0, true⟩, ⟨50, 700000000, true⟩] := by
    rw [hlog]
    exact .keep _ (.drop rfl (.keep _ .nil))
  exact ⟨hlog, refused_invisible 100 0 (by decide) hthin⟩

end Datapath
end Revquic
