/-
# Reports of a session's path (`internal/telemetry`)

Both ends of a session run a loop that reports to the broker at every tick:
bytes, rate, drops, and whether the session is on the direct path now. The
broker feeds the reports, of both ends and in any order, into its tracker,
which shows the path. A report with `Direct` sets it, and no report takes it
back, so it is right only until an end reports that it has fallen back to the
relay.

A report's `PathKind` and its STUN and TURN flags are dropped by the broker
and left out here.

Key definitions: `Reporter`, `tick`, `step`, `machine`, `Shown`.
Key theorems: `shown_of_run`, `path_current_iff`.
-/
import Revquic.Datapath.Migrate
import Revquic.Qos.Steady

namespace Revquic
namespace Telemetry

open Lib

variable {σ : Type*}

/-- `telemetry.Meta`: what every report of an end carries. -/
structure Meta where
  host : String := ""
  tunName : String := ""
  os : String := ""
  downlink : Bool := false

/-- `throughput`: bytes per second between two readings, `dt` seconds
apart. -/
def throughput (cur prev : ℕ) (dt : ℚ) : ℚ :=
  if dt ≤ 0 ∨ cur < prev then 0 else ((cur - prev : ℕ) : ℚ) / dt

/-- The variables of `Run`'s loop. -/
structure Reporter where
  lastBytes : ℕ := 0
  last : ℕ := 0

/-- A tick of `Run` at time `now`: the report, and the variables after it.
`rttMs` is what `rtt` holds, `hostStat` what the client's reading of its host
gives, if it has one. -/
def tick (m : Meta) (p : Reporter) (sess : Datapath.Session σ) (now : ℕ) (rttMs : ℤ)
    (hostStat : Option (ℚ × ℚ × ℚ)) : Qos.Report × Reporter :=
  let (b, _, d) := sess.stats
  let bps := throughput b p.lastBytes (((now : ℚ) - p.last) / 1000000000)
  let (cpuPct, memPct, diskPct) := hostStat.getD (0, 0, 0)
  ({ bytesUp := if m.downlink then 0 else b
     bytesDown := if m.downlink then b else 0
     throughputBps := bps, drops := d, rttMs, direct := sess.isDirect
     host := m.host, tunName := m.tunName, os := m.os, cpuPct, memPct, diskPct },
    { lastBytes := b, last := now })

/-! ### The two ends and the tracker -/

/-- The ends of a session. -/
inductive Side
  | client
  | exit
  deriving DecidableEq

/-- One end: its session, its reporter, and the reports on their way. -/
structure Endpoint (σ : Type*) where
  sess : Datapath.State σ
  info : Meta := {}
  reporter : Reporter := {}
  outbox : List Qos.Report := []

/-- The two ends of session `sid` and the broker's tracker. -/
structure State (σ : Type*) where
  ends : Side → Endpoint σ
  tracker : Qos.Tracker

/-- A step of a call on the session of one end; a packet it sends; a tick of
its reporter, whose report is lost if the write fails; the broker reads its
next report; the broker makes another call of its tracker. -/
inductive Action (σ : Type*)
  | call (side : Side) (a : Datapath.Action σ)
  | send (side : Side) (pkt : List UInt8) (now : ℕ) (ok : Bool)
  | tick (side : Side) (now : ℕ) (rttMs : ℤ) (hostStat : Option (ℚ × ℚ × ℚ)) (written : Bool)
  | ingest (side : Side) (ts : ℕ)
  | broker (ts : ℕ) (c : Qos.Call)

/-- The id the tracker has for a session. -/
def key (sid : ℕ) : String := toString sid

/-- A report for session `sid`. -/
def reports (sid : ℕ) : Qos.Call → Bool
  | .report k _ => k = key sid
  | _ => false

/-- One end changes. -/
def State.set (s : State σ) (side : Side) (e : Endpoint σ) : State σ :=
  { s with ends := Function.update s.ends side e }

/-- One step. The reports for the session are those its two ends send. -/
def step (sid : ℕ) (s : State σ) : Action σ → Option (State σ × List Unit)
  | .call side a =>
    match Datapath.step (s.ends side).sess a with
    | none => none
    | some (sess, _) => some (s.set side { s.ends side with sess }, [])
  | .send side pkt now ok =>
    let d := (s.ends side).sess
    some (s.set side { s.ends side with sess := { d with sess := (d.sess.send pkt now ok).1 } }, [])
  | .tick side now rttMs hostStat written =>
    let e := s.ends side
    let (r, reporter) := tick e.info e.reporter e.sess.sess now rttMs hostStat
    some (s.set side { e with reporter, outbox := if written then e.outbox ++ [r] else e.outbox }, [])
  | .ingest side ts =>
    match (s.ends side).outbox with
    | [] => none
    | r :: rs =>
      some ({ s.set side { s.ends side with outbox := rs } with
              tracker := s.tracker.call ts (.report (key sid) r) }, [])
  | .broker ts c => if reports sid c then none else some ({ s with tracker := s.tracker.call ts c }, [])

/-- A session of id `sid` with both ends new, and a new tracker. -/
def machine (σ : Type*) (sid : ℕ) (info : Side → Meta) (histCap : ℤ) :
    Machine (State σ) (Action σ) Unit :=
  ⟨{ ends := fun side => { sess := { sess := { id := sid } }, info := info side }
     tracker := Qos.Tracker.new histCap }, step sid⟩

/-! ### What was reported -/

/-- The `Direct` flags of the reports taken in for the session since it was
last connected, after one more step. -/
def note (sid : ℕ) (flags : List Bool) (e : Event (State σ) (Action σ) Unit) : List Bool :=
  match e.act with
  | .ingest side _ => flags ++ ((e.pre.ends side).outbox.head?.map (·.direct)).toList
  | .broker _ c => if c.connects = some (key sid) then [] else flags
  | .call _ _ | .send _ _ _ _ | .tick _ _ _ _ _ => flags

/-- The same after a run. -/
def flags (sid : ℕ) (tr : List (Event (State σ) (Action σ) Unit)) : List Bool :=
  tr.foldl (note sid) []

section
variable {sid : ℕ} {info : Side → Meta} {histCap : ℤ} {s : State σ}
  {tr : List (Event (State σ) (Action σ) Unit)} {ss : Qos.SessionState}

theorem flags_snoc (e : Event (State σ) (Action σ) Unit) :
    flags sid (tr ++ [e]) = note sid (flags sid tr) e := by
  rw [flags, List.foldl_append]
  rfl

/-- The tracker's path of the session, by what was reported. -/
structure Shown (sid : ℕ) (flags : List Bool) (t : Qos.Tracker) : Prop where
  keyed : t.Keyed
  path : ∀ ss, t.sessions.lookup (key sid) = some ss → (ss.path = .direct ↔ true ∈ flags)

/-- A call that reports nothing for the session. -/
theorem Shown.call {fl : List Bool} {t : Qos.Tracker} {c : Qos.Call} (h : Shown sid fl t)
    (hc : reports sid c = false) (ts : ℕ) :
    Shown sid (if c.connects = some (key sid) then [] else fl) (t.call ts c) := by
  refine ⟨Qos.Tracker.keyed_call h.keyed ts c, fun ss hk => ?_⟩
  cases Qos.Tracker.turn h.keyed ts (key sid) c with
  | rest other same =>
    rw [if_neg other]
    exact h.path ss (same ss hk)
  | fresh made after _ path =>
    obtain rfl := Option.some.inj (after.symm.trans hk)
    rw [if_pos made, path]
    simp
  | metered call found after _ path =>
    obtain rfl := Option.some.inj (after.symm.trans hk)
    subst call
    rw [path, if_neg (by simp [Qos.Call.connects])]
    exact h.path _ found
  | reported call =>
    subst call
    simp [reports] at hc

/-- A report of the session. -/
theorem Shown.report {fl : List Bool} {t : Qos.Tracker} (h : Shown sid fl t) (r : Qos.Report)
    (ts : ℕ) : Shown sid (fl ++ [r.direct]) (t.call ts (.report (key sid) r)) := by
  refine ⟨Qos.Tracker.keyed_call h.keyed ts _, fun ss hk => ?_⟩
  cases Qos.Tracker.turn h.keyed ts (key sid) (.report (key sid) r) with
  | rest _ same unread => exact absurd (same ss hk) (by simp [unread r rfl])
  | fresh made => cases made
  | metered call => cases call
  | @reported ss₀ ss' r' call found noted after =>
    cases call
    obtain rfl := Option.some.inj ((Qos.Tracker.lookup_reported after).symm.trans hk)
    have hpath : (if 0 < r.throughputBps then t.sampleSession ss' r.throughputBps ts
        else (ss', none)).1.path = ss'.path := by
      split_ifs
      · exact (Qos.Tracker.sampleSession_frame ss' r.throughputBps ts).2.1
      · rfl
    rw [hpath, noted.path]
    have hold := h.path ss₀ found
    cases hr : r.direct with
    | true => simp
    | false => simpa using hold

/-- **What the tracker shows.** The path of a tracked session is the direct
one exactly if a report since its `Connect` has said so. -/
theorem shown_of_run (h : (machine σ sid info histCap).Run tr s) : Shown sid (flags sid tr) s.tracker := by
  induction h with
  | nil => exact ⟨Qos.Tracker.keyed_new histCap, fun ss hk => by cases hk⟩
  | @snoc tr s s' a o hr hs ih =>
    rw [flags_snoc]
    cases a with
    | call side a =>
      simp only [machine, step] at hs
      split at hs
      · cases hs
      · obtain ⟨rfl, -⟩ := Prod.mk.inj (Option.some.inj hs)
        exact ih
    | send side pkt now ok | tick side now rttMs hostStat written =>
      obtain ⟨rfl, -⟩ := Prod.mk.inj (Option.some.inj hs)
      exact ih
    | ingest side ts =>
      simp only [machine, step] at hs
      split at hs
      · cases hs
      · rename_i r rs hout
        obtain ⟨rfl, -⟩ := Prod.mk.inj (Option.some.inj hs)
        have hnote := ih.report r ts
        simpa [note, hout] using hnote
    | broker ts c =>
      simp only [machine, step] at hs
      split at hs
      · cases hs
      · rename_i hc
        obtain ⟨rfl, -⟩ := Prod.mk.inj (Option.some.inj hs)
        exact ih.call (Bool.eq_false_iff.mpr hc) ts

/-- **When the path shown is the current one.** In any state of any run in
which the session is tracked: whenever the reports taken in from some point
on all carry the same flag, the path is the one it says, if and only if no
report has said that the session is direct before a last one that says it
is not. -/
theorem path_current_iff (h : (machine σ sid info histCap).Run tr s)
    (hs : s.tracker.sessions.lookup (key sid) = some ss) :
    (∀ old new f, flags sid tr = old ++ new → new ≠ [] → (∀ x ∈ new, x = f) →
      (ss.path = .direct ↔ f = true)) ↔
      ((flags sid tr).getLast? = some false → true ∉ flags sid tr) := by
  have hpath := (shown_of_run h).path ss hs
  constructor
  · intro hcur hlast
    obtain ⟨old, hold⟩ := List.getLast?_eq_some_iff.mp hlast
    have := hcur old [false] false hold (by simp) (by simp)
    rw [hpath] at this
    exact fun htrue => by simpa using this.mp htrue
  · intro hcond old new f heq hne hall
    rw [hpath]
    obtain ⟨x, hx⟩ := List.exists_mem_of_ne_nil new hne
    constructor
    · intro htrue
      by_contra hf
      -- the last of the reports says that the session is not direct
      refine hcond ?_ htrue
      rw [heq, List.getLast?_append_of_ne_nil _ hne, List.getLast?_eq_some_getLast hne,
        hall _ (List.getLast_mem hne)]
      simpa using hf
    · rintro rfl
      rw [heq, ← hall x hx]
      exact List.mem_append_right _ hx

/-- A call on the session of one end, both of its steps. -/
def whole (side : Side) (k : ℕ) (c : Datapath.Call Unit) : List (Action Unit) :=
  .call side (.fire k c) :: if c.sets.isSome then [.call side (.set k)] else []

/-- Both ends of a new session move to the direct path. -/
def upgrade (side : Side) : List (Action Unit) :=
  whole side 0 (.startRelay { sender := some () }) ++ whole side 1 .beginChecks ++
    whole side 2 (.upgradeDirect { sender := some () })

/-- An end reports, and the broker reads it. -/
def report (side : Side) (now : ℕ) : List (Action Unit) :=
  [.tick side now 20 none true, .ingest side now]

/-- The client upgrades first; once the exit has reported too, the path is
the direct one. -/
theorem path_current_iff_upgraded : ∃ tr s ss,
    (machine Unit 7 (fun _ => {}) 0).Run tr s ∧
      s.tracker.sessions.lookup (key 7) = some ss ∧ flags 7 tr = [false, true, true] ∧
      ss.path = .direct := by
  obtain ⟨tr, s, hrun, hfl, hmem⟩ := (machine Unit 7 (fun _ => {}) 0).exists_run
    (.broker 1 (.connect "7" "e1" "us" "alice" 1) :: report .exit 2 ++ upgrade .client ++
      report .client 3 ++ upgrade .exit ++ report .exit 4)
    (P := fun r => flags 7 r.1 = [false, true, true] ∧
      (r.2.tracker.sessions.lookup (key 7)).isSome = true)
    (by decide +kernel)
  obtain ⟨ss, hss⟩ := Option.isSome_iff_exists.mp hmem
  refine ⟨tr, s, ss, hrun, hss, hfl, ?_⟩
  exact ((path_current_iff hrun hss).mpr (by simp [hfl]) [false] [true, true] true hfl (by simp)
    (by simp)).mpr rfl

/-- Both ends upgrade, report, fall back and report again; the tracker still
shows the direct path. -/
theorem path_stays_direct : ∃ tr s, (machine Unit 7 (fun _ => {}) 0).Run tr s ∧
    flags 7 tr = [true, true, false, false] ∧
    (∀ side, (s.ends side).sess.sess.isDirect = false ∧ (s.ends side).outbox = []) ∧
    (s.tracker.sessions.lookup (key 7)).map (·.path) = some .direct := by
  obtain ⟨tr, s, hrun, hfl, hc, he, hp⟩ := (machine Unit 7 (fun _ => {}) 0).exists_run
    (.broker 1 (.connect "7" "e1" "us" "alice" 1) :: upgrade .client ++ upgrade .exit ++
      report .client 2 ++ report .exit 3 ++
      whole .client 3 (.fallbackRelay { sender := some () }) ++
      whole .exit 3 (.fallbackRelay { sender := some () }) ++ report .client 4 ++ report .exit 5)
    (P := fun r => flags 7 r.1 = [true, true, false, false] ∧
      ((r.2.ends .client).sess.sess.isDirect = false ∧ (r.2.ends .client).outbox = []) ∧
      ((r.2.ends .exit).sess.sess.isDirect = false ∧ (r.2.ends .exit).outbox = []) ∧
      (r.2.tracker.sessions.lookup (key 7)).map (·.path) = some .direct)
    (by decide +kernel)
  refine ⟨tr, s, hrun, hfl, fun side => ?_, hp⟩
  cases side with
  | client => exact hc
  | exit => exact he

end

end Telemetry
end Revquic
