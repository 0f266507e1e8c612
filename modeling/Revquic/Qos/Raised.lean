/-
# What the events name

A call of the tracker adds the events it raises to the history. An event
names a node and a region, and those are not the tracker's own: if every call
that brings a node names one that is known, with its region, then so do the
tracker's entries, and every event names a known node, with its region or
with none.

Key definitions: `raises`, `Named`.
Key theorems: `call_store`, `Named.raises`.
-/
import Revquic.Qos.Load

namespace Revquic
namespace Qos

open Lib

/-- The nodes a call brings are known. -/
def Call.Names (N : String → String → Prop) : Call → Prop
  | .nodeUp nodeID region _ => N nodeID region
  | .nodeDown nodeID => ∃ region, N nodeID region
  | .connect _ nodeID region _ _ => N nodeID region
  | .disconnect _ | .addBytes _ _ _ | .report _ _ => True

namespace Tracker

/-- The events a call raises. -/
def raises (t : Tracker) (ts : ℕ) : Call → List Event
  | .nodeUp nodeID region _ => [{ ts, kind := .nodeUp, nodeID, region }]
  | .nodeDown nodeID =>
    [{ ts, kind := .nodeDown, nodeID, region := ((t.exits.lookup nodeID).map (·.region)).getD "" }]
  | .connect sessionID nodeID region username _ =>
    [{ ts, kind := .connect, sessionID, nodeID, region, username }]
  | .disconnect sessionID =>
    (t.sessions.lookup sessionID).toList.map fun ss =>
      { ts, kind := .disconnect, sessionID, nodeID := ss.nodeID, region := ss.region,
        username := ss.username }
  | .addBytes sessionID fromClient n =>
    (t.sessions.lookup sessionID).toList.flatMap fun ss => (t.metered ss fromClient n ts).2.toList
  | .report sessionID r =>
    (t.sessions.lookup sessionID).toList.flatMap fun ss => (t.reported ss r ts).2.toList

section
variable {t : Tracker} {N : String → String → Prop}

theorem call_store (t : Tracker) (ts : ℕ) (c : Call) : (t.call ts c).store = t.store ++ t.raises ts c := by
  cases c with
  | nodeUp nodeID region connectedAt => rfl
  | nodeDown nodeID =>
    simp only [call, nodeDown, raises, appendEvent]
    cases t.exits.lookup nodeID <;> rfl
  | connect sessionID nodeID region username startedAt => rfl
  | disconnect sessionID =>
    cases hk : t.sessions.lookup sessionID with
    | none => simp [call, disconnect, raises, hk]
    | some ss => simp [call, disconnect, raises, hk, appendEvent]
  | addBytes sessionID fromClient n =>
    cases hk : t.sessions.lookup sessionID with
    | none => simp [call, addBytes, raises, hk]
    | some ss =>
      rw [call, (addBytes_put hk fromClient n ts).2, raises, hk]
      simp
  | report sessionID r =>
    cases hk : t.sessions.lookup sessionID with
    | none => simp [call, report, raises, hk]
    | some ss =>
      rw [call, report_eq_put hk, putSession_store, raises, hk]
      simp

/-- The entries of the tracker name known nodes. -/
structure Named (N : String → String → Prop) (t : Tracker) : Prop where
  exits : ∀ n e, t.exits.lookup n = some e → N n e.region
  sessions : ∀ k ss, t.sessions.lookup k = some ss → N ss.nodeID ss.region

/-- A sample of a session keeps its node. -/
def SameNode (ss : SessionState) (x : SessionState × Option Event) : Prop :=
  x.1.nodeID = ss.nodeID ∧ x.1.region = ss.region ∧
    ∀ ev ∈ x.2, ev.nodeID = ss.nodeID ∧ ev.region = ss.region

theorem sampleSession_sameNode (ss : SessionState) (bps : ℚ) (ts : ℕ) :
    SameNode ss (t.sampleSession ss bps ts) := by
  simp only [sampleSession, SameNode]
  split_ifs <;> simp

theorem metered_sameNode (ss : SessionState) (fromClient : Bool) (n ts : ℕ) :
    SameNode ss (t.metered ss fromClient n ts) := by
  unfold metered
  split
  · exact sampleSession_sameNode (ss.relayed fromClient n ts) _ ts
  · exact ⟨rfl, rfl, by simp⟩

theorem reported_sameNode (ss : SessionState) (r : Report) (ts : ℕ) :
    SameNode ss (t.reported ss r ts) := by
  unfold reported
  split_ifs
  · exact sampleSession_sameNode (ss.noted r ts) _ ts
  · exact ⟨rfl, rfl, by simp⟩

theorem Named.insert_session (h : Named N t) {k : String} {ss : SessionState} (hss : N ss.nodeID ss.region) :
    ∀ k' x, (t.sessions.insert k ss).lookup k' = some x → N x.nodeID x.region := by
  intro k' x hx
  rw [GoMap.lookup_set] at hx
  split_ifs at hx
  · obtain rfl := Option.some.inj hx
    exact hss
  · exact h.sessions k' x hx

/-- An exit that is stored anew keeps its region. -/
theorem Named.insert_exit (h : Named N t) {n : String} {e e' : ExitState} (he : t.exits.lookup n = some e)
    (hr : e'.region = e.region) : ∀ m x, (t.exits.insert n e').lookup m = some x → N m x.region := by
  intro m x hx
  rw [GoMap.lookup_set] at hx
  split_ifs at hx with hm
  · obtain rfl := Option.some.inj hx
    rw [hm, hr]
    exact h.exits n e he
  · exact h.exits m x hx

theorem addExitBytes_region (e : ExitState) (fromClient : Bool) (n ts : ℕ) :
    (addExitBytes e fromClient n ts).region = e.region := by
  simp only [addExitBytes]
  split_ifs <;> rfl

theorem Named.connect (h : Named N t) {k nodeID region username : String} (hN : N nodeID region)
    (startedAt ts : ℕ) : Named N (t.connect k nodeID region username startedAt ts) := by
  refine ⟨fun n e he => ?_, h.insert_session hN⟩
  simp only [Tracker.connect, appendEvent_exits] at he
  split at he
  · rename_i e₀ he₀
    refine h.insert_exit he₀ ?_ n e he
    rfl
  · exact h.exits n e he

theorem Named.disconnect (h : Named N t) (k : String) (ts : ℕ) : Named N (t.disconnect k ts) := by
  unfold Tracker.disconnect
  split
  · exact h
  · refine ⟨fun n e he => ?_, fun k' x hx => ?_⟩
    · simp only [appendEvent_exits] at he
      split at he
      · rename_i e₀ he₀
        split_ifs at he
        · refine h.insert_exit he₀ ?_ n e he
          rfl
        · exact h.exits n e he
      · exact h.exits n e he
    · change (t.sessions.erase k).lookup k' = some x at hx
      rw [GoMap.lookup_delete] at hx
      split_ifs at hx
      exact h.sessions k' x hx

theorem Named.addBytes (h : Named N t) (k : String) (fromClient : Bool) (n ts : ℕ) :
    Named N (t.addBytes k fromClient n ts) := by
  cases hk : t.sessions.lookup k with
  | none =>
    rw [addBytes_unknown hk]
    exact h
  | some ss =>
    obtain ⟨hn, hr, -⟩ := metered_sameNode (t := t) ss fromClient n ts
    have hss := h.sessions k ss hk
    rw [← hn, ← hr] at hss
    refine ⟨fun m e he => ?_, ?_⟩
    · rw [addBytes_eq_put hk] at he
      split at he
      · rw [putSession_exits] at he
        exact h.exits m e he
      · rename_i e₀ he₀
        rw [putSession_exits] at he he₀
        exact h.insert_exit he₀ (addExitBytes_region _ _ _ _) m e he
    · rw [(addBytes_put hk fromClient n ts).1]
      exact h.insert_session hss

theorem Named.report (h : Named N t) (k : String) (r : Report) (ts : ℕ) : Named N (t.report k r ts) := by
  cases hk : t.sessions.lookup k with
  | none =>
    rw [report_unknown hk]
    exact h
  | some ss =>
    obtain ⟨hn, hr, -⟩ := reported_sameNode (t := t) ss r ts
    have hss := h.sessions k ss hk
    rw [← hn, ← hr] at hss
    rw [report_eq_put hk]
    refine ⟨fun m e he => ?_, ?_⟩
    · rw [putSession_exits] at he
      exact h.exits m e he
    · rw [putSession_sessions]
      exact h.insert_session hss

/-- The entries go on naming known nodes. -/
theorem Named.call (h : Named N t) {c : Call} (hc : c.Names N) (ts : ℕ) : Named N (t.call ts c) := by
  cases c with
  | nodeUp nodeID region connectedAt =>
    refine ⟨fun n e he => ?_, h.sessions⟩
    change (t.exits.insert nodeID _).lookup n = some e at he
    rw [GoMap.lookup_set] at he
    split_ifs at he with hn
    · obtain rfl := Option.some.inj he
      rw [hn]
      exact hc
    · exact h.exits n e he
  | nodeDown nodeID =>
    refine ⟨fun n e he => ?_, h.sessions⟩
    change (t.exits.erase nodeID).lookup n = some e at he
    rw [GoMap.lookup_delete] at he
    split_ifs at he
    exact h.exits n e he
  | connect sessionID nodeID region username startedAt => exact h.connect hc startedAt ts
  | disconnect sessionID => exact h.disconnect sessionID ts
  | addBytes sessionID fromClient n => exact h.addBytes sessionID fromClient n ts
  | report sessionID r => exact h.report sessionID r ts

/-- **An event names a known node**, with its region or with none. -/
theorem Named.raises (h : Named N t) {c : Call} (hc : c.Names N) (ts : ℕ) :
    ∀ ev ∈ t.raises ts c, ∃ region, N ev.nodeID region ∧ (ev.region = region ∨ ev.region = "") := by
  -- a sample's event has the node and the region of its session
  have hsample : ∀ (k : String) (f : SessionState → SessionState × Option Event),
      (∀ ss, SameNode ss (f ss)) → ∀ ev ∈ (t.sessions.lookup k).toList.flatMap fun ss => (f ss).2.toList,
        ∃ region, N ev.nodeID region ∧ (ev.region = region ∨ ev.region = "") := by
    intro k f hf ev hev
    obtain ⟨ss, hss, hev⟩ := List.mem_flatMap.mp hev
    obtain ⟨hn, hr⟩ := (hf ss).2.2 ev (Option.mem_toList.mp hev)
    rw [hn]
    exact ⟨ss.region, h.sessions k ss (Option.mem_toList.mp hss), Or.inl hr⟩
  intro ev hev
  cases c with
  | nodeUp nodeID region connectedAt | connect sessionID nodeID region username startedAt =>
    obtain rfl := List.mem_singleton.mp hev
    exact ⟨region, hc, Or.inl rfl⟩
  | nodeDown nodeID =>
    obtain rfl := List.mem_singleton.mp hev
    cases he : t.exits.lookup nodeID with
    | none =>
      obtain ⟨region, hN⟩ := hc
      exact ⟨region, hN, Or.inr rfl⟩
    | some e => exact ⟨e.region, h.exits nodeID e he, Or.inl rfl⟩
  | disconnect sessionID =>
    obtain ⟨ss, hss, rfl⟩ := List.mem_map.mp hev
    exact ⟨ss.region, h.sessions sessionID ss (Option.mem_toList.mp hss), Or.inl rfl⟩
  | addBytes sessionID fromClient n =>
    exact hsample sessionID _ (fun ss => metered_sameNode ss fromClient n ts) ev hev
  | report sessionID r => exact hsample sessionID _ (fun ss => reported_sameNode ss r ts) ev hev

end

end Tracker
end Qos
end Revquic
