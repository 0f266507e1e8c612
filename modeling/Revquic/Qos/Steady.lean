/-
# One session of the tracker, and its speed drops

A session's record is made by `Connect`, removed by `Disconnect`, and sampled
by `AddBytes` and `Report`; no other call touches it. Its detector keeps one
peak. The two ends of a session report the rates of opposite directions into
it, so a session whose directions run at steady rates is flagged as soon as
one is below half of the other, and the larger above the floor; for no other
rates.

Key definitions: `Turn`, `Steady`, `Near`, `Unflagged`.
Key theorem: `steady_iff`.
-/
import Revquic.Qos.Raised

namespace Revquic
namespace Qos

open Lib

namespace Tracker

variable {t t' : Tracker} {k k' : String} {ss : SessionState} {ts : ℕ}

/-! ### What a call does to a session -/

/-- What a sample leaves alone. -/
theorem sampleSession_frame (ss : SessionState) (bps : ℚ) (ts : ℕ) :
    (t.sampleSession ss bps ts).1.id = ss.id ∧ (t.sampleSession ss bps ts).1.path = ss.path ∧
      ∀ ev ∈ (t.sampleSession ss bps ts).2, ev.sessionID = ss.id := by
  simp only [sampleSession]
  split_ifs <;> simp

/-- What `Report` does to the session before it takes a sample. -/
structure Noted (ss : SessionState) (r : Report) (ss' : SessionState) : Prop where
  id : ss'.id = ss.id
  path : ss'.path = if r.direct then .direct else ss.path
  peak : ss'.peakBps = ss.peakBps
  degraded : ss'.degraded = ss.degraded

theorem report_eq (hk : t.sessions.lookup k = some ss) (r : Report) (ts : ℕ) :
    ∃ ss', Noted ss r ss' ∧ t.report k r ts = t.putSession k
      (if 0 < r.throughputBps then t.sampleSession ss' r.throughputBps ts else (ss', none)) := by
  exact ⟨ss.noted r ts, ⟨rfl, rfl, rfl, rfl⟩, report_eq_put hk r ts⟩

theorem metered_frame (ss : SessionState) (fromClient : Bool) (n ts : ℕ) :
    (t.metered ss fromClient n ts).1.id = ss.id ∧ (t.metered ss fromClient n ts).1.path = ss.path ∧
      ∀ ev ∈ (t.metered ss fromClient n ts).2, ev.sessionID = ss.id := by
  unfold metered
  split
  · exact sampleSession_frame (ss.relayed fromClient n ts) _ ts
  · exact ⟨rfl, rfl, by simp⟩

/-- What a datagram of session `k` does: the session is stored anew, with its
id and path, and a sample may raise an event. -/
def Metered (t : Tracker) (k : String) (ss : SessionState) (t' : Tracker) : Prop :=
  ∃ (ss' : SessionState) (ev : Option Event), ss'.id = ss.id ∧ ss'.path = ss.path ∧
    (∀ e ∈ ev, e.sessionID = ss.id) ∧ t'.sessions = t.sessions.insert k ss' ∧
    t'.store = t.store ++ ev.toList

theorem metered_addBytes (hk : t.sessions.lookup k = some ss) (fromClient : Bool) (n ts : ℕ) :
    t.Metered k ss (t.addBytes k fromClient n ts) := by
  obtain ⟨hs, hst⟩ := addBytes_put hk fromClient n ts
  obtain ⟨hid, hpath, hev⟩ := metered_frame (t := t) ss fromClient n ts
  exact ⟨_, _, hid, hpath, hev, hs, hst⟩

theorem reported_frame (ss : SessionState) (r : Report) (ts : ℕ) :
    (t.reported ss r ts).1.id = ss.id ∧ ∀ ev ∈ (t.reported ss r ts).2, ev.sessionID = ss.id := by
  unfold reported
  split_ifs
  · obtain ⟨hid, -, hev⟩ := sampleSession_frame (t := t) (ss.noted r ts) r.throughputBps ts
    exact ⟨hid, hev⟩
  · exact ⟨rfl, by simp⟩

/-- Every session is stored under its id. -/
def Keyed (t : Tracker) : Prop := ∀ k ss, t.sessions.lookup k = some ss → ss.id = k

/-- A speed event is raised by a call for the session that it names. -/
theorem session_of_raises (hkey : t.Keyed) {c : Call} {ev : Event} (hev : ev ∈ t.raises ts c)
    (hkind : ev.kind.isSpeed = true) : c.session = some ev.sessionID := by
  cases c with
  | disconnect sessionID =>
    obtain ⟨ss, -, rfl⟩ := List.mem_map.mp hev
    cases hkind
  | addBytes sessionID fromClient n =>
    obtain ⟨ss, hss, hev⟩ := List.mem_flatMap.mp hev
    have hid := (metered_frame ss fromClient n ts).2.2 ev (Option.mem_toList.mp hev)
    rw [hid, hkey _ _ (Option.mem_toList.mp hss)]
    rfl
  | report sessionID r =>
    obtain ⟨ss, hss, hev⟩ := List.mem_flatMap.mp hev
    have hid := (reported_frame ss r ts).2 ev (Option.mem_toList.mp hev)
    rw [hid, hkey _ _ (Option.mem_toList.mp hss)]
    rfl
  | _ =>
    obtain rfl := List.mem_singleton.mp hev
    cases hkind

/-- The events a call adds report no speed drop of session `k`. -/
def Quiet (t : Tracker) (k : String) (t' : Tracker) : Prop :=
  ∃ evs, t'.store = t.store ++ evs ∧ ∀ ev ∈ evs, ev.kind = .speedDrop → ev.sessionID ≠ k

/-- What a call does to session `k`. -/
inductive Turn (t : Tracker) (ts : ℕ) (k : String) (c : Call) (t' : Tracker) : Prop
  | rest (other : c.connects ≠ some k)
      (same : ∀ ss, t'.sessions.lookup k = some ss → t.sessions.lookup k = some ss)
      (unread : ∀ r, c = .report k r → t.sessions.lookup k = none) (quiet : t.Quiet k t')
  | fresh {ss : SessionState} (made : c.connects = some k) (after : t'.sessions.lookup k = some ss)
      (id : ss.id = k) (path : ss.path = .relay) (peak : ss.peakBps = 0) (degraded : ss.degraded = false)
      (quiet : t.Quiet k t')
  | metered {ss ss' : SessionState} {fromClient : Bool} {n : ℕ} (call : c = .addBytes k fromClient n)
      (found : t.sessions.lookup k = some ss) (after : t'.sessions.lookup k = some ss')
      (id : ss'.id = ss.id) (path : ss'.path = ss.path)
  | reported {ss ss' : SessionState} {r : Report} (call : c = .report k r)
      (found : t.sessions.lookup k = some ss) (noted : Noted ss r ss')
      (after : t' = t.putSession k
        (if 0 < r.throughputBps then t.sampleSession ss' r.throughputBps ts else (ss', none)))

theorem Quiet.appendEvent {ev : Event} (h : ev.kind ≠ .speedDrop) (hs : t'.store = t.store) :
    t.Quiet k (t'.appendEvent ev) := by
  refine ⟨[ev], by rw [← hs]; rfl, ?_⟩
  intro e he hkind
  rw [List.mem_singleton.mp he] at hkind
  exact absurd hkind h

theorem Quiet.refl : t.Quiet k t := ⟨[], (List.append_nil _).symm, by simp⟩

theorem turn (hkey : t.Keyed) (ts : ℕ) (k : String) (c : Call) : Turn t ts k c (t.call ts c) := by
  by_cases hc : c.session = some k
  · cases c with
    | nodeUp nodeID region connectedAt => cases hc
    | nodeDown nodeID => cases hc
    | connect sessionID nodeID region username startedAt =>
      cases hc
      exact .fresh rfl (AList.lookup_insert _) rfl rfl rfl rfl (.appendEvent (by simp) rfl)
    | disconnect sessionID =>
      cases hc
      refine .rest (by simp [Call.connects]) (fun ss h => ?_) (by simp) ?_
      · have hmem : k ∈ (t.disconnect k ts).sessions := AList.lookup_isSome.mp (by
          rw [show (t.disconnect k ts).sessions.lookup k = some ss from h]
          rfl)
        exact absurd rfl ((mem_disconnect_sessions k).mp hmem).1
      · simp only [call, disconnect]
        split
        · exact .refl
        · exact .appendEvent (by simp) rfl
    | addBytes sessionID fromClient n =>
      cases hc
      cases hf : t.sessions.lookup k with
      | none =>
        rw [call, addBytes_unknown hf]
        exact .rest (by simp [Call.connects]) (fun _ h => h) (by simp) .refl
      | some ss =>
        obtain ⟨ss', ev, hid, hpath, -, hs, -⟩ := metered_addBytes hf fromClient n ts
        refine .metered rfl hf ?_ hid hpath
        rw [call, hs]
        exact AList.lookup_insert _
    | report sessionID r =>
      cases hc
      cases hf : t.sessions.lookup k with
      | none =>
        rw [call, report_unknown hf]
        exact .rest (by simp [Call.connects]) (fun _ h => h) (fun _ _ => hf) .refl
      | some ss =>
        obtain ⟨ss', hnoted, heq⟩ := report_eq hf r ts
        exact .reported rfl hf hnoted heq
  -- a call for another session, or for a node
  · refine .rest (fun h => hc ?_) (fun ss h => ?_) (fun r h => ?_)
      ⟨_, call_store t ts c, fun ev hev hkind hid => hc ?_⟩
    · cases c <;> simp_all [Call.connects, Call.session]
    · rwa [lookup_call_of_ne hc] at h
    · rw [h] at hc
      exact absurd rfl hc
    · rw [← hid]
      exact session_of_raises hkey hev (by rw [hkind]; rfl)

/-- The record a session's report leaves has the session's id. -/
theorem Noted.sample_id {r : Report} {ss' : SessionState} (h : Noted ss r ss') (t : Tracker) (ts : ℕ) :
    (if 0 < r.throughputBps then t.sampleSession ss' r.throughputBps ts else (ss', none)).1.id =
      ss.id := by
  split_ifs
  · exact (sampleSession_frame ss' r.throughputBps ts).1.trans h.id
  · exact h.id

/-- The record `Report` leaves, by its parts. -/
theorem lookup_reported {r : Report} {ss' : SessionState} (h : t' = t.putSession k
    (if 0 < r.throughputBps then t.sampleSession ss' r.throughputBps ts else (ss', none))) :
    t'.sessions.lookup k = some
      (if 0 < r.throughputBps then t.sampleSession ss' r.throughputBps ts else (ss', none)).1 := by
  rw [h, putSession_sessions]
  exact AList.lookup_insert _

theorem keyed_call (hkey : t.Keyed) (ts : ℕ) (c : Call) : (t.call ts c).Keyed := by
  intro k ss hk
  cases turn hkey ts k c with
  | rest _ same => exact hkey k ss (same ss hk)
  | fresh _ after id =>
    obtain rfl := Option.some.inj (after.symm.trans hk)
    exact id
  | metered _ found after id =>
    obtain rfl := Option.some.inj (after.symm.trans hk)
    exact id.trans (hkey k _ found)
  | reported _ found noted after =>
    obtain rfl := Option.some.inj ((lookup_reported after).symm.trans hk)
    exact (noted.sample_id _ _).trans (hkey k _ found)

/-- What no call changes: the detector's parameters. -/
def SameParams (t t' : Tracker) : Prop :=
  t'.dropFactor = t.dropFactor ∧ t'.recoverPct = t.recoverPct ∧ t'.floorBps = t.floorBps

theorem putSession_params (x : SessionState × Option Event) : t.SameParams (t.putSession k x) := by
  rcases x with ⟨ss, _ | ev⟩ <;> exact ⟨rfl, rfl, rfl⟩

theorem call_params (ts : ℕ) (c : Call) : t.SameParams (t.call ts c) := by
  cases c with
  | nodeUp nodeID region connectedAt | nodeDown nodeID
  | connect sessionID nodeID region username startedAt => exact ⟨rfl, rfl, rfl⟩
  | disconnect sessionID =>
    simp only [call, disconnect]
    split <;> exact ⟨rfl, rfl, rfl⟩
  | addBytes sessionID fromClient n =>
    simp only [call, addBytes]
    split
    · exact ⟨rfl, rfl, rfl⟩
    · split
      · split
        · exact putSession_params _
        · exact putSession_params _
      · split
        · exact putSession_params (k := sessionID) _
        · exact putSession_params (k := sessionID) _
  | report sessionID r =>
    cases hf : t.sessions.lookup sessionID with
    | none =>
      simp only [call, report, hf]
      exact ⟨rfl, rfl, rfl⟩
    | some ss =>
      obtain ⟨ss', -, heq⟩ := report_eq hf r ts
      rw [call, heq]
      exact putSession_params _

/-! ### Steady sessions -/

/-- Session `k` is sampled by reports only, at the rates `u` and `d`. -/
def Steady (k : String) (u d : ℚ) : Call → Prop
  | .addBytes sessionID _ _ => sessionID ≠ k
  | .report sessionID r => sessionID = k → r.throughputBps = u ∨ r.throughputBps = d
  | _ => True

instance (k : String) (u d : ℚ) : DecidablePred (Steady k u d)
  | .addBytes _ _ _ => inferInstanceAs (Decidable (_ ≠ _))
  | .report _ _ => inferInstanceAs (Decidable (_ → _))
  | .nodeUp _ _ _ | .nodeDown _ | .connect _ _ _ _ _ | .disconnect _ => isTrue trivial

/-- The rates the detector takes for steady: the larger is below the floor,
or the smaller is no less than half of it. -/
def Near (t : Tracker) (u d : ℚ) : Prop := max u d < t.floorBps ∨ max u d * t.dropFactor ≤ min u d

/-- Session `k` is not flagged, and no drop of it is on record. -/
def Unflagged (t : Tracker) (k : String) : Prop :=
  (∀ ss, t.sessions.lookup k = some ss → ss.degraded = false) ∧
    ∀ ev ∈ t.store, ev.kind = .speedDrop → ev.sessionID ≠ k

variable {u d : ℚ}

/-- A sample at one of two near rates raises nothing. -/
theorem sampleSession_near {bps : ℚ} (ts : ℕ) (hnear : t.Near u d) (hf : 0 ≤ t.dropFactor)
    (hbps : bps = u ∨ bps = d) (hpeak : ss.peakBps ≤ max u d) (hdeg : ss.degraded = false) :
    t.sampleSession ss bps ts = ({ ss with bps, peakBps := max ss.peakBps bps }, none) := by
  have hmax : max ss.peakBps bps ≤ max u d := by
    rcases hbps with rfl | rfl
    · exact max_le hpeak (le_max_left _ _)
    · exact max_le hpeak (le_max_right _ _)
  have hmin : min u d ≤ bps := by
    rcases hbps with rfl | rfl
    · exact min_le_left _ _
    · exact min_le_right _ _
  simp only [sampleSession, hdeg, Bool.not_false, Bool.true_and, Bool.false_and]
  by_cases hfloor : max ss.peakBps bps < t.floorBps
  · rw [if_pos hfloor]
  · have hhalf : max ss.peakBps bps * t.dropFactor ≤ bps := by
      rcases hnear with hlow | hhalf
      · exact absurd (lt_of_le_of_lt hmax hlow) hfloor
      · exact (mul_le_mul_of_nonneg_right hmax hf).trans (hhalf.trans hmin)
    rw [if_neg hfloor, if_neg (by simpa using hhalf), if_neg (by simp)]

/-- What a steady run keeps. -/
structure Calm (k : String) (u d : ℚ) (t : Tracker) : Prop where
  keyed : t.Keyed
  near : t.Near u d
  factor : 0 ≤ t.dropFactor
  peak : ∀ ss, t.sessions.lookup k = some ss → ss.peakBps ≤ max u d
  unflagged : t.Unflagged k

theorem Quiet.unflagged (hq : t.Quiet k t') (h : t.Unflagged k) :
    ∀ ev ∈ t'.store, ev.kind = .speedDrop → ev.sessionID ≠ k := by
  obtain ⟨evs, hst, hevs⟩ := hq
  rw [hst]
  intro ev hev
  rcases List.mem_append.mp hev with hold | hnew
  · exact h.2 ev hold
  · exact hevs ev hnew

theorem Calm.call {c : Call} (h : Calm k u d t) (hu : 0 ≤ max u d) (hc : Steady k u d c) (ts : ℕ) :
    Calm k u d (t.call ts c) := by
  obtain ⟨hfac, -, hfloor⟩ := call_params (t := t) ts c
  suffices hrec : (∀ ss, (t.call ts c).sessions.lookup k = some ss →
      ss.peakBps ≤ max u d ∧ ss.degraded = false) ∧
      ∀ ev ∈ (t.call ts c).store, ev.kind = .speedDrop → ev.sessionID ≠ k by
    refine ⟨keyed_call h.keyed ts c, ?_, hfac ▸ h.factor, fun ss hk => (hrec.1 ss hk).1,
      fun ss hk => (hrec.1 ss hk).2, hrec.2⟩
    unfold Near
    rw [hfac, hfloor]
    exact h.near
  have hold := fun ss hk => And.intro (h.peak ss hk) (h.unflagged.1 ss hk)
  cases turn h.keyed ts k c with
  | rest _ same _ quiet => exact ⟨fun ss hk => hold ss (same ss hk), quiet.unflagged h.unflagged⟩
  | fresh _ after _ _ peak degraded quiet =>
    refine ⟨fun ss hk => ?_, quiet.unflagged h.unflagged⟩
    obtain rfl := Option.some.inj (after.symm.trans hk)
    exact ⟨peak ▸ hu, degraded⟩
  | metered call =>
    subst call
    exact absurd rfl hc
  | @reported ss ss' r call found noted after =>
    subst call
    obtain ⟨hpeak, hdeg⟩ := hold ss found
    rw [← noted.peak] at hpeak
    rw [← noted.degraded] at hdeg
    have hsample := sampleSession_near ts h.near h.factor (hc rfl) hpeak hdeg
    have hlook := lookup_reported after
    have hstore : (t.call ts (.report k r)).store = t.store := by
      rw [after, putSession_store]
      split_ifs
      · rw [hsample]
        exact List.append_nil _
      · exact List.append_nil _
    refine ⟨fun x hx => ?_, by rw [hstore]; exact h.unflagged.2⟩
    obtain rfl := Option.some.inj (hlook.symm.trans hx)
    split_ifs
    · rw [hsample]
      refine ⟨max_le hpeak ?_, hdeg⟩
      rcases hc rfl with hr | hr
      · exact hr ▸ le_max_left _ _
      · exact hr ▸ le_max_right _ _
    · exact ⟨hpeak, hdeg⟩

section
variable {histCap : ℤ} {tr : List (Lib.Event Tracker (ℕ × Call) Unit)}

theorem near_new (histCap : ℤ) (u d : ℚ) :
    (new histCap).Near u d ↔ max u d < 65536 ∨ max u d * (1 / 2) ≤ min u d := Iff.rfl

theorem keyed_new (histCap : ℤ) : (new histCap).Keyed := fun k ss h => by cases h

theorem calm_of_run (h : (machine histCap).Run tr t) (hu : 0 < u) (hnear : (new histCap).Near u d)
    (hst : ∀ e ∈ tr, Steady k u d e.act.2) : Calm k u d t := by
  refine h.invariant_of (I := Calm k u d) (C := fun e => Steady k u d e.act.2) ?_ ?_ hst
  · have hnone : ∀ (P : SessionState → Prop) ss, (new histCap).sessions.lookup k = some ss → P ss := by
      intro P ss h
      cases h
    exact ⟨keyed_new histCap, hnear, by norm_num [machine, new], hnone _, hnone _,
      by simp [machine, new]⟩
  · intro s a s' o hs hstep hc
    obtain ⟨rfl, -⟩ := by simpa [machine] using hstep
    exact hs.call (hu.le.trans (le_max_left _ _)) hc a.1

/-- A report at a rate no sample has exceeded sets the peak. -/
theorem report_peak {M : ℚ} (ts : ℕ) (hk : t.sessions.lookup k = some ss) (hM : 0 < M)
    (hf : 0 ≤ t.dropFactor) (hf1 : t.dropFactor ≤ 1) (hpeak : ss.peakBps ≤ M)
    (hdeg : ss.degraded = false) : ∃ ss', (t.call ts (.report k { throughputBps := M })).sessions.lookup k
      = some ss' ∧ ss'.peakBps = M ∧ ss'.degraded = false := by
  obtain ⟨x, hx, heq⟩ := report_eq hk { throughputBps := M } ts
  have hnear : t.Near M M := by
    refine Or.inr ?_
    rw [max_self, min_self]
    exact mul_le_of_le_one_right hM.le hf1
  rw [← hx.peak] at hpeak
  have hs := sampleSession_near ts hnear hf (Or.inl rfl) (by rwa [max_self])
    (hx.degraded.trans hdeg)
  refine ⟨_, lookup_reported heq, ?_⟩
  rw [if_pos hM, hs]
  exact ⟨max_eq_right hpeak, hx.degraded.trans hdeg⟩

/-- A report below half of a peak above the floor flags the session. -/
theorem report_far {m : ℚ} (ts : ℕ) (hk : t.sessions.lookup k = some ss) (hm : 0 < m)
    (hfloor : t.floorBps ≤ ss.peakBps) (hfar : m < ss.peakBps * t.dropFactor)
    (hle : m ≤ ss.peakBps) (hdeg : ss.degraded = false) :
    ∃ ss', (t.call ts (.report k { throughputBps := m })).sessions.lookup k = some ss' ∧
      ss'.degraded = true := by
  obtain ⟨x, hx, heq⟩ := report_eq hk { throughputBps := m } ts
  refine ⟨_, lookup_reported heq, ?_⟩
  rw [← hx.peak] at hfloor hfar hle
  rw [if_pos hm]
  simp only [sampleSession, hx.degraded, hdeg, max_eq_left hle, if_neg (not_lt.mpr hfloor),
    Bool.not_false, Bool.true_and, hfar, decide_true, if_true]

/-- The ends of a new session report the larger rate, then the smaller. -/
theorem flagged_of_far (histCap : ℤ) (k : String) (hu : 0 < u) (hd : 0 < d)
    (hfar : ¬ (new histCap).Near u d) : ∃ tr t, (machine histCap).Run tr t ∧
      (∀ e ∈ tr, Steady k u d e.act.2) ∧ ¬ t.Unflagged k := by
  rw [near_new, not_or, not_lt, not_le] at hfar
  obtain ⟨hfloor, hhalf⟩ := hfar
  have hM : 0 < max u d := lt_max_of_lt_left hu
  refine (machine histCap).exists_run_of_exec [(0, .connect k "" "" "" 0),
    (0, .report k { throughputBps := max u d }), (0, .report k { throughputBps := min u d })]
    ⟨_, rfl, ?_, ?_⟩
  · simp only [List.mem_cons, List.not_mem_nil, or_false]
    rintro e (rfl | rfl | rfl)
    · trivial
    · exact fun _ => max_choice u d
    · exact fun _ => min_choice u d
  · have hss₁ : ((new histCap).call 0 (.connect k "" "" "" 0)).sessions.lookup k = some _ :=
      AList.lookup_insert _
    obtain ⟨hfac₁, -, hfl₁⟩ := call_params (t := new histCap) 0 (.connect k "" "" "" 0)
    obtain ⟨ss₂, hss₂, hpeak₂, hdeg₂⟩ := report_peak 0 hss₁ hM
      (by rw [hfac₁]; norm_num [new]) (by rw [hfac₁]; norm_num [new]) hM.le rfl
    obtain ⟨hfac₂, -, hfl₂⟩ := call_params (t := (new histCap).call 0 (.connect k "" "" "" 0)) 0
      (.report k { throughputBps := max u d })
    obtain ⟨ss₃, hss₃, hdeg₃⟩ := report_far 0 hss₂ (lt_min hu hd)
      (by rw [hfl₂, hfl₁, hpeak₂]; exact hfloor) (by rw [hfac₂, hfac₁, hpeak₂]; exact hhalf)
      (by rw [hpeak₂]; exact min_le_max) hdeg₂
    intro h
    have := h.1 ss₃ hss₃
    rw [hdeg₃] at this
    cases this

/-- **When a steady session stays unflagged.** Whatever the order of the
reports, and whatever else the tracker is told, no drop of the session is
recorded: this holds for exactly those rates of which the larger is below
the floor or the smaller at least half of it. -/
theorem steady_iff (histCap : ℤ) (k : String) (hu : 0 < u) (hd : 0 < d) :
    (∀ tr t, (machine histCap).Run tr t → (∀ e ∈ tr, Steady k u d e.act.2) → t.Unflagged k) ↔
      (max u d < 65536 ∨ max u d * (1 / 2) ≤ min u d) := by
  constructor
  · intro h
    by_contra hfar
    obtain ⟨tr, t, hrun, hst, hflag⟩ := flagged_of_far histCap k hu hd hfar
    exact hflag (h tr t hrun hst)
  · exact fun hnear tr t hrun hst => (calm_of_run hrun hu hnear hst).unflagged

/-- A session at 100 kB/s up and 60 kB/s down. -/
theorem steady_iff_near : ∃ tr t, (machine 0).Run tr t ∧
    (t.sessions.lookup "1").map (·.peakBps) = some 100000 ∧ t.Unflagged "1" := by
  obtain ⟨tr, t, hrun, hst, hpeak⟩ := (machine 0).exists_run
    [(1, .nodeUp "e1" "us" 1), (2, .connect "1" "e1" "us" "alice" 2),
      (3, .report "1" { throughputBps := 100000 }), (4, .report "1" { throughputBps := 60000 }),
      (5, .report "1" { throughputBps := 60000 })]
    (P := fun r => (∀ e ∈ r.1, Steady "1" 100000 60000 e.act.2) ∧
      (r.2.sessions.lookup "1").map (·.peakBps) = some 100000)
    (by decide +kernel)
  have hnear := (steady_iff 0 "1" (u := 100000) (d := 60000) (by norm_num) (by norm_num)).mpr
    (Or.inr (by norm_num))
  exact ⟨tr, t, hrun, hpeak, hnear tr t hrun hst⟩

/-- A steady session at 1 MB/s down and 100 kB/s up: the exit's report sets
the peak, and the client's next one is recorded as a drop. -/
theorem steady_session_flagged : ∃ tr t, (machine 0).Run tr t ∧
    (∀ e ∈ tr, Steady "1" 100000 1000000 e.act.2) ∧
    (t.sessions.lookup "1").map (·.degraded) = some true ∧
    t.store.getLast? = some { ts := 5, kind := .speedDrop, sessionID := "1", nodeID := "e1",
                              region := "us", username := "alice", throughputBps := 100000 } :=
  (machine 0).exists_run_of_exec
    [(1, .nodeUp "e1" "us" 1), (2, .connect "1" "e1" "us" "alice" 2),
      (3, .report "1" { bytesUp := 500000, throughputBps := 100000, host := "laptop" }),
      (4, .report "1" { bytesDown := 5000000, throughputBps := 1000000, host := "e1" }),
      (5, .report "1" { bytesUp := 1000000, throughputBps := 100000, host := "laptop" })]
    (by decide +kernel)

end

end Tracker
end Qos
end Revquic
