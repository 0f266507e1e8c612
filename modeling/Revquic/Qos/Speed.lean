/-
# Speed drops and recoveries

The samples of a session come from two calls: `AddBytes` takes one at the end
of each window of relayed datagrams, `Report` one for every rate reported.
Both go through `sampleSession`, which is a detector with hysteresis. So the
speed events of a session that is connected once are those a detector makes
of its samples, in order, and have the shape of `Hysteresis`.

Key definitions: `detector`, `Watching`, `Watched`.
Key theorems: `sampleSession_watch`, `speed_hysteresis`.
-/
import Revquic.Lib.Hysteresis
import Revquic.Qos.Steady

namespace Revquic
namespace Qos

open Lib

/-- The speed events, as marks. -/
def Kind.mark : Kind → Option Mark
  | .speedDrop => some .drop
  | .recovered => some .recover
  | _ => none

theorem Kind.isSpeed_iff (kind : Kind) : kind.isSpeed = true ↔ kind.mark.isSome = true := by
  cases kind <;> decide

/-- The speed events of a session, in order. -/
def speedMarks (k : String) (evs : List Event) : List Mark :=
  evs.filterMap fun ev => if ev.sessionID = k then ev.kind.mark else none

theorem speedMarks_append (k : String) (xs ys : List Event) :
    speedMarks k (xs ++ ys) = speedMarks k xs ++ speedMarks k ys := List.filterMap_append

/-- What the detector keeps of a session. -/
def SessionState.watch (ss : SessionState) : Watch ℚ := ⟨ss.peakBps, ss.degraded⟩

namespace Tracker

variable {t t' : Tracker} {k : String} {ss : SessionState} {ts : ℕ}

/-- The detector of a tracker. -/
def detector (t : Tracker) : Detector ℚ := ⟨t.floorBps, t.dropFactor, t.recoverPct⟩

/-- The sample a call takes of session `k`. -/
def sampleOf (t : Tracker) (ts : ℕ) (k : String) : Call → Option ℚ
  | .addBytes sessionID _ n =>
    if sessionID = k then (t.sessions.lookup k).bind fun ss => ss.window n ts else none
  | .report sessionID r =>
    if sessionID = k ∧ k ∈ t.sessions ∧ 0 < r.throughputBps then some r.throughputBps else none
  | _ => none

/-! ### One call -/

/-- `sampleSession` is a sample of the detector. -/
theorem sampleSession_watch (ss : SessionState) (bps : ℚ) (ts : ℕ) :
    (t.sampleSession ss bps ts).1.watch = (t.detector.sample ss.watch bps).1 ∧
      speedMarks ss.id (t.sampleSession ss bps ts).2.toList =
        (t.detector.sample ss.watch bps).2.toList := by
  -- the detector's branches, in the order of the rationals
  have hD : t.detector.sample ss.watch bps =
      if max ss.peakBps bps < t.floorBps then (⟨max ss.peakBps bps, ss.degraded⟩, none)
      else if !ss.degraded && bps < max ss.peakBps bps * t.dropFactor then
        (⟨max ss.peakBps bps, true⟩, some .drop)
      else if ss.degraded && max ss.peakBps bps * t.recoverPct ≤ bps then
        (⟨max ss.peakBps bps, false⟩, some .recover)
      else (⟨max ss.peakBps bps, ss.degraded⟩, none) := rfl
  rw [hD]
  simp only [sampleSession]
  split_ifs <;> exact ⟨rfl, by simp [speedMarks, Kind.mark]⟩

/-- The rate of a window is not negative. -/
theorem window_nonneg {n : ℕ} {bps : ℚ} (h : ss.window n ts = some bps) : 0 ≤ bps := by
  unfold SessionState.window at h
  simp only at h
  split_ifs at h with hd
  obtain rfl := Option.some.inj h
  have hpos : (0 : ℤ) ≤ (ts : ℤ) - ss.winStart := le_trans (by decide) hd
  exact div_nonneg (Nat.cast_nonneg _) (div_nonneg (Int.cast_nonneg hpos) (by norm_num [windowDur]))

/-- What a call does to the detector of session `k`, and the events it
raises. -/
inductive Watching (t : Tracker) (ts : ℕ) (k : String) (c : Call) (t' : Tracker) : Prop
  | sampled {x : ℚ} {ss ss' : SessionState} {evs : List Event} (sample : t.sampleOf ts k c = some x)
      (nonneg : 0 ≤ x) (found : t.sessions.lookup k = some ss)
      (after : t'.sessions.lookup k = some ss') (watch : ss'.watch = (t.detector.sample ss.watch x).1)
      (store : t'.store = t.store ++ evs)
      (raised : speedMarks k evs = (t.detector.sample ss.watch x).2.toList)
  | fresh {ss' : SessionState} {evs : List Event} (made : c.connects = some k)
      (sample : t.sampleOf ts k c = none) (after : t'.sessions.lookup k = some ss')
      (watch : ss'.watch = ⟨0, false⟩) (store : t'.store = t.store ++ evs)
      (quiet : speedMarks k evs = [])
  | rest {evs : List Event} (sample : t.sampleOf ts k c = none)
      (same : ∀ ss', t'.sessions.lookup k = some ss' →
        ∃ ss, t.sessions.lookup k = some ss ∧ ss'.watch = ss.watch)
      (store : t'.store = t.store ++ evs) (quiet : speedMarks k evs = [])

theorem Watching.refl {c : Call} (h : t.sampleOf ts k c = none) : Watching t ts k c t :=
  .rest h (fun ss' hk => ⟨ss', hk, rfl⟩) (List.append_nil _).symm rfl

/-- A call that records one event, of another kind. -/
theorem Watching.append {c : Call} {ev : Event} (h : t.sampleOf ts k c = none)
    (same : ∀ ss, t'.sessions.lookup k = some ss → t.sessions.lookup k = some ss)
    (hs : t'.store = t.store) (hev : ev.kind.mark = none) : Watching t ts k c (t'.appendEvent ev) := by
  have hstore : (t'.appendEvent ev).store = t.store ++ [ev] := by
    rw [← hs]
    rfl
  refine .rest h (fun ss hk => ⟨ss, same ss hk, rfl⟩) hstore ?_
  simp [speedMarks, hev]

/-- A call for another session, or for a node. -/
theorem Watching.other {c : Call} (hkey : t.Keyed) (hc : c.session ≠ some k) :
    Watching t ts k c (t.call ts c) := by
  refine .rest ?_ (fun ss hk => ⟨ss, ?_, rfl⟩) (call_store t ts c) ?_
  · cases c with
    | addBytes sessionID fromClient n => exact if_neg fun h => hc (congrArg some h)
    | report sessionID r => exact if_neg fun h => hc (congrArg some h.1)
    | _ => rfl
  · rwa [lookup_call_of_ne hc] at hk
  · refine List.filterMap_eq_nil_iff.mpr fun ev hev => ?_
    by_cases hid : ev.sessionID = k
    · rw [if_pos hid, ← Option.not_isSome_iff_eq_none, ← Kind.isSpeed_iff]
      intro hkind
      exact hc (hid ▸ session_of_raises hkey hev hkind)
    · exact if_neg hid

theorem watching_addBytes (hkey : t.Keyed) (hk : t.sessions.lookup k = some ss) (fromClient : Bool)
    (n ts : ℕ) : Watching t ts k (.addBytes k fromClient n) (t.addBytes k fromClient n ts) := by
  obtain ⟨hs, hst⟩ := addBytes_put hk fromClient n ts
  have hlook : (t.addBytes k fromClient n ts).sessions.lookup k = some (t.metered ss fromClient n ts).1 := by
    rw [hs]
    exact AList.lookup_insert _
  have hsample : t.sampleOf ts k (.addBytes k fromClient n) = ss.window n ts := by
    simp only [sampleOf, if_pos, hk]
    rfl
  cases hw : ss.window n ts with
  | none =>
    have hm : t.metered ss fromClient n ts = (ss.relayed fromClient n ts, none) := by
      rw [metered, hw]
    rw [hm] at hlook hst
    refine .rest (hsample.trans hw) (fun ss' hss' => ⟨ss, hk, ?_⟩) hst rfl
    obtain rfl := Option.some.inj (hlook.symm.trans hss')
    rfl
  | some bps =>
    obtain ⟨hwatch, hraised⟩ := sampleSession_watch (t := t) (ss.relayed fromClient n ts) bps ts
    have hid : (ss.relayed fromClient n ts).id = k := hkey k ss hk
    rw [metered, hw] at hlook hst
    rw [hid] at hraised
    exact .sampled (hsample.trans hw) (window_nonneg hw) hk hlook hwatch hst hraised

theorem watching_report (hkey : t.Keyed) (hk : t.sessions.lookup k = some ss) (r : Report) (ts : ℕ) :
    Watching t ts k (.report k r) (t.report k r ts) := by
  have hmem : k ∈ t.sessions := AList.lookup_isSome.mp (by rw [hk]; rfl)
  have hlook : (t.report k r ts).sessions.lookup k = some (t.reported ss r ts).1 := by
    rw [report_eq_put hk, putSession_sessions]
    exact AList.lookup_insert _
  have hst : (t.report k r ts).store = t.store ++ (t.reported ss r ts).2.toList := by
    rw [report_eq_put hk, putSession_store]
  by_cases hr : 0 < r.throughputBps
  · obtain ⟨hwatch, hraised⟩ := sampleSession_watch (t := t) (ss.noted r ts) r.throughputBps ts
    have hid : (ss.noted r ts).id = k := hkey k ss hk
    rw [reported, if_pos hr] at hlook hst
    rw [hid] at hraised
    exact .sampled (if_pos ⟨rfl, hmem, hr⟩) hr.le hk hlook hwatch hst hraised
  · rw [reported, if_neg hr] at hlook hst
    refine .rest (if_neg fun h => hr h.2.2) (fun ss' hss' => ⟨ss, hk, ?_⟩) hst rfl
    obtain rfl := Option.some.inj (hlook.symm.trans hss')
    rfl

theorem watching (hkey : t.Keyed) (ts : ℕ) (k : String) (c : Call) :
    Watching t ts k c (t.call ts c) := by
  by_cases hc : c.session = some k
  · cases c with
    | nodeUp nodeID region connectedAt => cases hc
    | nodeDown nodeID => cases hc
    | connect sessionID nodeID region username startedAt =>
      cases hc
      exact .fresh rfl rfl (AList.lookup_insert _) rfl rfl (by simp [speedMarks, Kind.mark])
    | disconnect sessionID =>
      cases hc
      cases hf : t.sessions.lookup k with
      | none =>
        rw [call, disconnect_unknown hf]
        exact .refl rfl
      | some ss =>
        simp only [call, disconnect, hf]
        refine .append rfl (fun ss' h => ?_) rfl rfl
        rw [AList.lookup_erase] at h
        cases h
    | addBytes sessionID fromClient n =>
      cases hc
      cases hf : t.sessions.lookup k with
      | none =>
        rw [call, addBytes_unknown hf]
        exact .refl (by simp [sampleOf, hf])
      | some ss => exact watching_addBytes hkey hf fromClient n ts
    | report sessionID r =>
      cases hc
      cases hf : t.sessions.lookup k with
      | none =>
        rw [call, report_unknown hf]
        exact .refl (if_neg fun h => AList.lookup_eq_none.mp hf h.2.1)
      | some ss => exact watching_report hkey hf r ts
  · exact .other hkey hc

/-! ### Whole runs -/

section
variable {histCap : ℤ} {tr : List (Lib.Event Tracker (ℕ × Call) Unit)}
  {e : Lib.Event Tracker (ℕ × Call) Unit}

/-- The sample a step takes of session `k`, and the speed event it records. -/
def markOf (k : String) (e : Lib.Event Tracker (ℕ × Call) Unit) : Option (ℚ × Option Mark) :=
  (e.pre.sampleOf e.act.1 k e.act.2).map fun x =>
    (x, (speedMarks k (e.post.store.drop e.pre.store.length)).head?)

/-- The samples of session `k`, each with the speed event it raised. -/
def marks (k : String) (tr : List (Lib.Event Tracker (ℕ × Call) Unit)) : List (ℚ × Option Mark) :=
  tr.filterMap (markOf k)

/-- The detector's settings in every tracker. -/
def speedDetector : Detector ℚ := ⟨65536, 1 / 2, 4 / 5⟩

/-- What the tracker holds and has recorded of session `k` is what a detector
makes of its samples. -/
structure Watched (k : String) (tr : List (Lib.Event Tracker (ℕ × Call) Unit)) (t : Tracker) : Prop where
  keyed : t.Keyed
  detector : t.detector = speedDetector
  events : speedMarks k t.store = (marks k tr).filterMap Prod.snd
  marks : marks k tr = speedDetector.marks ⟨0, false⟩ ((marks k tr).map Prod.fst)
  session : ∀ ss, t.sessions.lookup k = some ss →
    ss.watch = speedDetector.after ⟨0, false⟩ ((Tracker.marks k tr).map Prod.fst)
  unmade : k ∉ connected tr → Tracker.marks k tr = []
  nonneg : ∀ p ∈ Tracker.marks k tr, 0 ≤ p.1

theorem markOf_sampled {x : ℚ} {m : Option Mark} {evs : List Event}
    (hx : e.pre.sampleOf e.act.1 k e.act.2 = some x) (hs : e.post.store = e.pre.store ++ evs)
    (hm : speedMarks k evs = m.toList) : markOf k e = some (x, m) := by
  rw [markOf, hx, hs, List.drop_left, hm, Option.map_some]
  cases m <;> rfl

/-- A step that takes no sample. -/
theorem Watched.rest (h : Watched k tr t) (hkey : t'.Keyed) (hdet : t'.detector = t.detector)
    (hnone : markOf k e = none) {evs : List Event} (hs : t'.store = t.store ++ evs)
    (hq : speedMarks k evs = [])
    (hsess : ∀ ss', t'.sessions.lookup k = some ss' →
      ss'.watch = speedDetector.after ⟨0, false⟩ ((Tracker.marks k tr).map Prod.fst)) :
    Watched k (tr ++ [e]) t' := by
  have hmarks : Tracker.marks k (tr ++ [e]) = Tracker.marks k tr := by
    simp [Tracker.marks, hnone]
  refine ⟨hkey, hdet.trans h.detector, ?_, ?_, ?_, fun hno => ?_, ?_⟩
  · rw [hs, speedMarks_append, hq, List.append_nil, hmarks, h.events]
  · rw [hmarks]
    exact h.marks
  · rw [hmarks]
    exact hsess
  · rw [hmarks]
    refine h.unmade fun hk => hno ?_
    rw [connected, List.filterMap_append]
    exact List.mem_append_left _ hk
  · rw [hmarks]
    exact h.nonneg

theorem Watched.step (h : Watched k tr t) (hrun : (machine histCap).Run tr t) (a : ℕ × Call)
    (honce : (connected (tr ++ [⟨t, a, [], t.call a.1 a.2⟩])).count k ≤ 1) :
    Watched k (tr ++ [⟨t, a, [], t.call a.1 a.2⟩]) (t.call a.1 a.2) := by
  have hkey := keyed_call h.keyed a.1 a.2
  have hdet : (t.call a.1 a.2).detector = t.detector := by
    obtain ⟨h1, h2, h3⟩ := call_params (t := t) a.1 a.2
    rw [Tracker.detector, h1, h2, h3]
    rfl
  have hnomark : t.sampleOf a.1 k a.2 = none → markOf k ⟨t, a, [], t.call a.1 a.2⟩ = none := by
    intro hnone
    rw [markOf, hnone]
    rfl
  cases watching h.keyed a.1 k a.2 with
  | rest sample same store quiet =>
    refine h.rest hkey hdet (hnomark sample) store quiet fun ss' hss' => ?_
    obtain ⟨ss, hss, hw⟩ := same ss' hss'
    rw [hw]
    exact h.session ss hss
  | @fresh ss' evs made sample after watch store quiet =>
    refine h.rest hkey hdet (hnomark sample) store quiet fun s hs => ?_
    -- the id was not connected before, so there is no sample of it yet
    have hnew : k ∉ connected tr := by
      intro hk
      have hcount : (connected (tr ++ [⟨t, a, [], t.call a.1 a.2⟩])).count k =
          (connected tr).count k + 1 := by
        simp [connected, made]
      have hpos := List.count_pos_iff.mpr hk
      omega
    obtain rfl := Option.some.inj (after.symm.trans hs)
    rw [h.unmade hnew, watch]
    rfl
  | @sampled x ss ss' evs sample nonneg found after watch store raised =>
    rw [h.detector] at watch raised
    have hmark := markOf_sampled (e := ⟨t, a, [], t.call a.1 a.2⟩) sample store raised
    have hmarks : Tracker.marks k (tr ++ [⟨t, a, [], t.call a.1 a.2⟩]) =
        Tracker.marks k tr ++ [(x, (speedDetector.sample ss.watch x).2)] := by
      simp [Tracker.marks, hmark]
    have hw := h.session ss found
    rw [hw] at watch raised hmarks
    refine ⟨hkey, hdet.trans h.detector, ?_, ?_, fun s hs => ?_, fun hno => ?_, fun p hp => ?_⟩
    · rw [store, speedMarks_append, raised, hmarks, List.filterMap_append, h.events,
        Detector.filterMap_mark]
      simp
    · rw [hmarks, List.map_append, Detector.marks_append, ← h.marks]
      rfl
    · obtain rfl := Option.some.inj (after.symm.trans hs)
      rw [hmarks, List.map_append, Detector.after_append, watch]
      rfl
    · refine absurd ?_ hno
      have hmem : k ∈ t.sessions := AList.lookup_isSome.mp (by rw [found]; rfl)
      rw [connected, List.filterMap_append]
      exact List.mem_append_left _ (mem_connected_of_run hrun hmem)
    · rw [hmarks, List.mem_append] at hp
      rcases hp with hp | hp
      · exact h.nonneg p hp
      · obtain rfl := List.mem_singleton.mp hp
        exact nonneg

theorem watched_of_run (h : (machine histCap).Run tr t) (honce : (connected tr).count k ≤ 1) :
    Watched k tr t := by
  induction h with
  | nil => exact ⟨keyed_new histCap, rfl, rfl, rfl, fun ss hss => (by cases hss), fun _ => rfl, by simp [marks]⟩
  | @snoc tr s s' a o hr hs ih =>
    obtain ⟨rfl, rfl⟩ := Prod.mk.inj (Option.some.inj hs)
    refine (ih ?_).step hr a honce
    refine le_trans ?_ honce
    rw [connected, connected, List.filterMap_append]
    exact List.Sublist.count_le k (List.sublist_append_left _ _)

/-- **Speed drops have hysteresis.** In every run, for every session id that
is connected once: the speed events recorded for it are those its samples
raised, in order; they begin with a drop and alternate, a drop at a sample
below half of the peak so far, which is at least 65536, a recovery at one of
at least 80% of it, and no sample between them reaches 80%; the degraded flag
is set exactly if the last of them is a drop, and the peak is the maximum of
all samples, none of which is negative. -/
theorem speed_hysteresis (h : (machine histCap).Run tr t) (honce : (connected tr).count k ≤ 1) :
    speedMarks k t.store = (marks k tr).filterMap Prod.snd ∧
    Hysteresis ⟨65536, 1 / 2, 4 / 5⟩ 0 (marks k tr) ∧
    (∀ ss, t.sessions.lookup k = some ss →
      (ss.degraded = true ↔ (speedMarks k t.store).getLast? = some .drop) ∧
      ss.peakBps = ((marks k tr).map Prod.fst).foldl max 0) ∧
    ∀ p ∈ marks k tr, 0 ≤ p.1 := by
  have hw := watched_of_run h honce
  refine ⟨hw.events, ?_, fun ss hss => ?_, hw.nonneg⟩
  · rw [hw.marks]
    exact hysteresis_marks (s := ⟨0, false⟩) speedDetector rfl _
  · have hwatch := hw.session ss hss
    have hdeg : ss.degraded = (speedDetector.after ⟨0, false⟩ ((marks k tr).map Prod.fst)).flagged := by
      rw [← hwatch]
      rfl
    have hpeak : ss.peakBps = (speedDetector.after ⟨0, false⟩ ((marks k tr).map Prod.fst)).peak := by
      rw [← hwatch]
      rfl
    refine ⟨?_, hpeak.trans (Detector.after_peak _ _)⟩
    rw [hdeg, Detector.after_flagged_iff rfl, ← hw.marks, hw.events]

/-- A session that slows down, speeds up and slows down again, with samples
from both sources. -/
theorem speed_hysteresis_two_drops : ∃ tr t, (machine 0).Run tr t ∧
    marks "1" tr = [(100000, none), (40000, some .drop), (60000, none), (90000, some .recover),
      (10000, some .drop)] ∧
    speedMarks "1" t.store = [.drop, .recover, .drop] ∧
    (t.sessions.lookup "1").map (·.degraded) = some true ∧
    Hysteresis ⟨65536, 1 / 2, 4 / 5⟩ 0 (marks "1" tr) := by
  obtain ⟨tr, t, hrun, honce, hmarks, hstore, hdeg⟩ := (machine 0).exists_run
    [(0, .nodeUp "e1" "us" 0), (0, .connect "1" "e1" "us" "alice" 0),
      (1000000000, .addBytes "1" true 100000), (1000000000, .report "1" { throughputBps := 40000 }),
      (1500000000, .addBytes "1" false 30000), (2000000000, .addBytes "1" false 30000),
      (2000000000, .report "1" { throughputBps := 90000 }), (3000000000, .addBytes "1" true 10000)]
    (P := fun r => (connected r.1).count "1" ≤ 1 ∧
      marks "1" r.1 = [(100000, none), (40000, some .drop), (60000, none), (90000, some .recover),
        (10000, some .drop)] ∧
      speedMarks "1" r.2.store = [.drop, .recover, .drop] ∧
      (r.2.sessions.lookup "1").map (·.degraded) = some true)
    (by decide +kernel)
  exact ⟨tr, t, hrun, hmarks, hstore, hdeg, (speed_hysteresis hrun honce).2.1⟩

end

end Tracker
end Qos
end Revquic
