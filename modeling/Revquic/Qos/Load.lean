/-
# The tracker's load of an exit

The tracker keeps a count of clients for every exit it lists, raised by
`Connect` and lowered by `Disconnect`. It is meant to be the number of
sessions the tracker holds for the exit. `NodeUp` starts an exit at 0
whatever sessions it has, so the count is right in every state of a run
exactly if every `NodeUp` finds no session of its node. `AddBytes` and
`Report` take a sample of one session: they store its state anew, under the
same node, and leave every count alone.

Key definitions: `Call`, `machine`, `Loaded`, `Vacant`, `Sampled`.
Key theorem: `loaded_iff_vacant`.
-/
import Revquic.Lib.Machine
import Revquic.Qos

namespace Revquic
namespace Qos

open Lib

/-- The calls of a `Tracker` that change it. -/
inductive Call
  | nodeUp (nodeID region : String) (connectedAt : ℕ)
  | nodeDown (nodeID : String)
  | connect (sessionID nodeID region username : String) (startedAt : ℕ)
  | disconnect (sessionID : String)
  | addBytes (sessionID : String) (fromClient : Bool) (n : ℕ)
  | report (sessionID : String) (r : Report)

/-- The session id a `Connect` uses. -/
def Call.connects : Call → Option String
  | .connect sessionID _ _ _ _ => some sessionID
  | _ => none

/-- The session id a call is about. -/
def Call.session : Call → Option String
  | .connect sessionID _ _ _ _ | .disconnect sessionID | .addBytes sessionID _ _
  | .report sessionID _ => some sessionID
  | .nodeUp _ _ _ | .nodeDown _ => none

/-- The events a throughput sample may raise. -/
def Kind.isSpeed : Kind → Bool
  | .speedDrop | .recovered => true
  | _ => false

/-- The session as `AddBytes` has counted a datagram, before a sample. -/
def SessionState.relayed (ss : SessionState) (fromClient : Bool) (n ts : ℕ) : SessionState :=
  { ss with
    lastSeen := ts
    bytesUp := if fromClient then add64 ss.bytesUp n else ss.bytesUp
    bytesDown := if fromClient then ss.bytesDown else add64 ss.bytesDown n
    winBytes := add64 ss.winBytes n }

/-- The session as `Report` has noted a report, before a sample. -/
def SessionState.noted (ss : SessionState) (r : Report) (ts : ℕ) : SessionState :=
  { ss with
    lastSeen := ts
    bytesUp := if ss.bytesUp < r.bytesUp then r.bytesUp else ss.bytesUp
    bytesDown := if ss.bytesDown < r.bytesDown then r.bytesDown else ss.bytesDown
    drops := if ss.drops < r.drops then r.drops else ss.drops
    rttMs := if 0 < r.rttMs then r.rttMs else ss.rttMs
    host := if r.host ≠ "" then r.host else ss.host
    tunName := if r.tunName ≠ "" then r.tunName else ss.tunName
    os := if r.os ≠ "" then r.os else ss.os
    cpu := if 0 < r.cpuPct then r.cpuPct else ss.cpu
    mem := if 0 < r.memPct then r.memPct else ss.mem
    disk := if 0 < r.diskPct then r.diskPct else ss.disk
    path := if r.direct then .direct else ss.path }

/-- The rate of a window of `AddBytes` that ends at `ts`, if it does. -/
def SessionState.window (ss : SessionState) (n ts : ℕ) : Option ℚ :=
  let d : ℤ := (ts : ℤ) - ss.winStart
  if (windowDur : ℤ) ≤ d then some ((add64 ss.winBytes n : ℚ) / ((d : ℚ) / windowDur)) else none

namespace Tracker

/-- What `AddBytes` stores for a session, and the event it raises. -/
def metered (t : Tracker) (ss : SessionState) (fromClient : Bool) (n ts : ℕ) :
    SessionState × Option Event :=
  match ss.window n ts with
  | some bps =>
    let r := t.sampleSession (ss.relayed fromClient n ts) bps ts
    ({ r.1 with winStart := ts, winBytes := 0 }, r.2)
  | none => (ss.relayed fromClient n ts, none)

/-- What `Report` stores for a session, and the event it raises. -/
def reported (t : Tracker) (ss : SessionState) (r : Report) (ts : ℕ) :
    SessionState × Option Event :=
  if 0 < r.throughputBps then t.sampleSession (ss.noted r ts) r.throughputBps ts
  else (ss.noted r ts, none)

/-- `New`. -/
def new (histCap : ℤ) : Tracker := { histCap := if histCap ≤ 0 then 1000 else histCap.toNat }

/-- A call, when the clock shows `ts`. -/
def call (t : Tracker) (ts : ℕ) : Call → Tracker
  | .nodeUp nodeID region connectedAt => t.nodeUp nodeID region connectedAt ts
  | .nodeDown nodeID => t.nodeDown nodeID ts
  | .connect sessionID nodeID region username startedAt =>
    t.connect sessionID nodeID region username startedAt ts
  | .disconnect sessionID => t.disconnect sessionID ts
  | .addBytes sessionID fromClient n => t.addBytes sessionID fromClient n ts
  | .report sessionID r => t.report sessionID r ts

/-- A tracker under any sequence of calls, at any times. -/
def machine (histCap : ℤ) : Machine Tracker (ℕ × Call) Unit :=
  ⟨new histCap, fun t a => some (t.call a.1 a.2, [])⟩

/-- How many sessions the tracker holds for an exit. -/
def clients (t : Tracker) (n : String) : ℕ := t.sessions.count fun _ ss => decide (ss.nodeID = n)

/-- Every listed exit's count is the number of its sessions. -/
def Loaded (t : Tracker) : Prop :=
  ∀ n e, t.exits.lookup n = some e → e.active = t.clients n

/-- The tracker holds no session of a node that comes up. -/
def Vacant (t : Tracker) : Call → Prop
  | .nodeUp nodeID _ _ => ∀ k ss, t.sessions.lookup k = some ss → ss.nodeID ≠ nodeID
  | _ => True

instance (t : Tracker) : DecidablePred (Vacant t)
  | .nodeUp nodeID _ _ =>
    decidable_of_iff (∀ x ∈ t.sessions.entries, x.2.nodeID ≠ nodeID)
      ⟨fun h _ _ hk => h _ (GoMap.mem_entries.mpr hk), fun h x hx => h x.1 x.2 (GoMap.mem_entries.mp hx)⟩
  | .nodeDown _ | .connect _ _ _ _ _ | .disconnect _ | .addBytes _ _ _ | .report _ _ => isTrue trivial

/-- A sample of session `k`: nothing if it is unknown, otherwise its state is
stored anew. -/
inductive Sampled (t : Tracker) (k : String) : Tracker → Prop
  | unknown (none : t.sessions.lookup k = none) : Sampled t k t
  | known {t' : Tracker} {ss ss' : SessionState} (found : t.sessions.lookup k = some ss)
      (sessions : t'.sessions = t.sessions.insert k ss') (node : ss'.nodeID = ss.nodeID)
      (active : ∀ n, (t'.exits.lookup n).map (·.active) = (t.exits.lookup n).map (·.active))
      (store : ∃ evs, t'.store = t.store ++ evs ∧ ∀ ev ∈ evs, ev.kind.isSpeed = true) :
      Sampled t k t'

section
variable {t t' : Tracker} {k : String}

/-! ### Samples -/

theorem sampleSession_spec (ss : SessionState) (bps : ℚ) (ts : ℕ) :
    (t.sampleSession ss bps ts).1.nodeID = ss.nodeID ∧
      ∀ ev ∈ (t.sampleSession ss bps ts).2, ev.kind.isSpeed = true := by
  simp only [sampleSession]
  split_ifs <;> simp [Kind.isSpeed]

theorem putSession_spec (x : SessionState × Option Event)
    (hx : ∀ ev ∈ x.2, ev.kind.isSpeed = true) :
    (t.putSession k x).sessions = t.sessions.insert k x.1 ∧
      ∃ evs, (t.putSession k x).store = t.store ++ evs ∧ ∀ ev ∈ evs, ev.kind.isSpeed = true := by
  rcases x with ⟨ss, _ | ev⟩
  · exact ⟨rfl, [], (List.append_nil _).symm, by simp⟩
  · exact ⟨rfl, [ev], rfl, by simpa using hx⟩

@[simp] theorem putSession_sessions (x : SessionState × Option Event) :
    (t.putSession k x).sessions = t.sessions.insert k x.1 := by
  rcases x with ⟨ss, _ | ev⟩ <;> rfl

@[simp] theorem putSession_store (x : SessionState × Option Event) :
    (t.putSession k x).store = t.store ++ x.2.toList := by
  rcases x with ⟨ss, _ | ev⟩
  · exact (List.append_nil _).symm
  · rfl

theorem Sampled.put {x : SessionState × Option Event} {ss : SessionState}
    (hk : t.sessions.lookup k = some ss) (hnode : x.1.nodeID = ss.nodeID)
    (hx : ∀ ev ∈ x.2, ev.kind.isSpeed = true) : Sampled t k (t.putSession k x) := by
  obtain ⟨hs, hstore⟩ := putSession_spec (t := t) (k := k) x hx
  exact .known hk hs hnode (fun n => by rw [putSession_exits]) hstore

/-- `Report` on a session the tracker holds. -/
theorem report_eq_put {ss : SessionState} (hk : t.sessions.lookup k = some ss) (r : Report) (ts : ℕ) :
    t.report k r ts = t.putSession k (t.reported ss r ts) := by
  simp only [report, hk, reported]
  exact (apply_ite (t.putSession k) _ _ _).symm

/-- `AddBytes` on a session the tracker holds: the session is stored, and
then its exit. -/
theorem addBytes_eq_put {ss : SessionState} (hk : t.sessions.lookup k = some ss) (fromClient : Bool)
    (n ts : ℕ) : t.addBytes k fromClient n ts =
      match (t.putSession k (t.metered ss fromClient n ts)).exits.lookup ss.nodeID with
      | none => t.putSession k (t.metered ss fromClient n ts)
      | some e => { t.putSession k (t.metered ss fromClient n ts) with
          exits := (t.putSession k (t.metered ss fromClient n ts)).exits.insert ss.nodeID
            (addExitBytes e fromClient n ts) } := by
  have hput : (if (windowDur : ℤ) ≤ (ts : ℤ) - ss.winStart then
      let x := t.sampleSession (ss.relayed fromClient n ts)
        ((add64 ss.winBytes n : ℚ) / ((((ts : ℤ) - ss.winStart : ℤ) : ℚ) / windowDur)) ts
      t.putSession k ({ x.1 with winStart := ts, winBytes := 0 }, x.2)
      else t.putSession k (ss.relayed fromClient n ts, none)) =
        t.putSession k (t.metered ss fromClient n ts) := by
    by_cases hd : (windowDur : ℤ) ≤ (ts : ℤ) - ss.winStart
    · have hw : ss.window n ts =
          some ((add64 ss.winBytes n : ℚ) / ((((ts : ℤ) - ss.winStart : ℤ) : ℚ) / windowDur)) := if_pos hd
      rw [if_pos hd, metered, hw]
    · have hw : ss.window n ts = none := if_neg hd
      rw [if_neg hd, metered, hw]
  rw [← hput]
  simp only [addBytes, hk]
  rfl

/-- What `AddBytes` does to the sessions and the history. -/
theorem addBytes_put {ss : SessionState} (hk : t.sessions.lookup k = some ss) (fromClient : Bool)
    (n ts : ℕ) :
    (t.addBytes k fromClient n ts).sessions = t.sessions.insert k (t.metered ss fromClient n ts).1 ∧
      (t.addBytes k fromClient n ts).store = t.store ++ (t.metered ss fromClient n ts).2.toList := by
  rw [addBytes_eq_put hk]
  split <;> exact ⟨putSession_sessions _, putSession_store _⟩

theorem sampled_report (k : String) (r : Report) (ts : ℕ) : Sampled t k (t.report k r ts) := by
  cases hk : t.sessions.lookup k with
  | none =>
    rw [report_unknown hk]
    exact .unknown hk
  | some ss =>
    rw [report_eq_put hk]
    unfold reported
    split_ifs
    · exact .put hk (sampleSession_spec _ _ _).1 (sampleSession_spec _ _ _).2
    · exact .put hk rfl (by simp)

/-- Storing an exit with the same count. -/
theorem Sampled.setExit (h : Sampled t k t') {n : String} {e e' : ExitState}
    (he : t'.exits.lookup n = some e) (ha : e'.active = e.active)
    (hk : t.sessions.lookup k ≠ none) :
    Sampled t k { t' with exits := t'.exits.insert n e' } := by
  cases h with
  | unknown hnone => exact absurd hnone hk
  | known found sessions node active store =>
    refine .known found sessions node (fun m => ?_) store
    rw [← active m]
    simp only [GoMap.lookup_set]
    split_ifs with hm
    · rw [hm, he, Option.map_some, Option.map_some, ha]
    · rfl

theorem addExitBytes_active (e : ExitState) (fromClient : Bool) (n ts : ℕ) :
    (addExitBytes e fromClient n ts).active = e.active := by
  simp only [addExitBytes]
  split_ifs <;> rfl

/-- The exit's share of a datagram. -/
theorem Sampled.meter (h : Sampled t k t') (hk : t.sessions.lookup k ≠ none) (nodeID : String)
    (fromClient : Bool) (n ts : ℕ) :
    Sampled t k (match t'.exits.lookup nodeID with
      | none => t'
      | some e => { t' with exits := t'.exits.insert nodeID (addExitBytes e fromClient n ts) }) := by
  split
  · exact h
  · exact h.setExit (by assumption) (addExitBytes_active _ _ _ _) hk

theorem sampled_addBytes (k : String) (fromClient : Bool) (n ts : ℕ) :
    Sampled t k (t.addBytes k fromClient n ts) := by
  cases hk : t.sessions.lookup k with
  | none =>
    rw [addBytes_unknown hk]
    exact .unknown hk
  | some ss =>
    have hput : Sampled t k (t.putSession k (t.metered ss fromClient n ts)) := by
      unfold metered
      split
      · rename_i bps _
        obtain ⟨hnode, hev⟩ := sampleSession_spec (t := t) (ss.relayed fromClient n ts) bps ts
        exact .put hk hnode hev
      · exact .put hk rfl (by simp)
    rw [addBytes_eq_put hk]
    exact hput.meter (by simp [hk]) _ _ _ _

theorem Sampled.clients (h : Sampled t k t') (n : String) : t'.clients n = t.clients n := by
  cases h with
  | unknown => rfl
  | known found sessions node =>
    unfold Tracker.clients
    rw [sessions]
    exact GoMap.count_replace found (by rw [node])

theorem Sampled.active (h : Sampled t k t') (n : String) :
    (t'.exits.lookup n).map (·.active) = (t.exits.lookup n).map (·.active) := by
  cases h with
  | unknown => rfl
  | known _ _ _ active => exact active n

theorem Sampled.loaded (h : Sampled t k t') (hl : Loaded t) : Loaded t' := by
  intro n e he
  have ha := h.active n
  rw [he, Option.map_some] at ha
  obtain ⟨e₀, he₀, hact⟩ := Option.map_eq_some_iff.mp ha.symm
  rw [h.clients, ← hact]
  exact hl n e₀ he₀

/-! ### One call -/

theorem clients_connect {nodeID region username : String} {startedAt ts : ℕ}
    (hk : t.sessions.lookup k = none) (n : String) :
    (t.connect k nodeID region username startedAt ts).clients n =
      t.clients n + if nodeID = n then 1 else 0 := by
  have h := GoMap.count_set hk
    { id := k, nodeID, region, username, path := .relay, startedAt, lastSeen := ts, winStart := ts }
    fun _ (ss : SessionState) => decide (ss.nodeID = n)
  simp only [decide_eq_true_eq] at h
  exact h

theorem loaded_connect {nodeID region username : String} {startedAt ts : ℕ}
    (hk : t.sessions.lookup k = none) (hl : Loaded t) :
    Loaded (t.connect k nodeID region username startedAt ts) := by
  intro n e he
  rw [clients_connect hk]
  simp only [connect, appendEvent_exits] at he
  split at he
  · rename_i e₀ he₀
    rw [GoMap.lookup_set] at he
    split_ifs at he with hn
    · obtain rfl := Option.some.inj he
      subst hn
      have := hl _ e₀ he₀
      simp [this]
    · have := hl n e he
      rw [this, if_neg (Ne.symm hn), Nat.add_zero]
  · rename_i hnone
    have hn : nodeID ≠ n := by
      rintro rfl
      rw [hnone] at he
      cases he
    rw [if_neg hn, Nat.add_zero]
    exact hl n e he

theorem clients_disconnect {ss : SessionState} (hk : t.sessions.lookup k = some ss) (ts : ℕ)
    (n : String) :
    t.clients n = (t.disconnect k ts).clients n + if ss.nodeID = n then 1 else 0 := by
  have h := GoMap.count_delete hk fun _ (x : SessionState) => decide (x.nodeID = n)
  simp only [decide_eq_true_eq] at h
  simp only [clients, disconnect, hk]
  exact h

theorem loaded_disconnect {ts : ℕ} (hl : Loaded t) : Loaded (t.disconnect k ts) := by
  cases hk : t.sessions.lookup k with
  | none =>
    rw [disconnect_unknown hk]
    exact hl
  | some ss =>
    intro n e he
    have hcount := clients_disconnect hk ts n
    simp only [disconnect, hk, appendEvent_exits] at he
    split at he
    · rename_i e₀ he₀
      have h₀ := hl _ e₀ he₀
      -- the session that leaves is one of the exit's, so the count is positive
      have hpos : 0 < e₀.active := by
        have := clients_disconnect hk ts ss.nodeID
        simp only [if_true] at this
        omega
      rw [if_pos hpos, GoMap.lookup_set] at he
      split_ifs at he with hn
      · obtain rfl := Option.some.inj he
        rw [← hn, if_pos rfl] at hcount
        rw [← hn] at h₀
        simp only [h₀]
        omega
      · rw [if_neg (Ne.symm hn)] at hcount
        have := hl n e he
        omega
    · rename_i hnone
      have hn : ss.nodeID ≠ n := by
        rintro rfl
        rw [hnone] at he
        cases he
      rw [if_neg hn] at hcount
      have := hl n e he
      omega

theorem loaded_nodeDown {nodeID : String} {ts : ℕ} (hl : Loaded t) : Loaded (t.nodeDown nodeID ts) := by
  intro n e he
  simp only [nodeDown, appendEvent_exits, GoMap.lookup_delete] at he
  split_ifs at he
  exact hl n e he

/-- A node that comes up is listed with 0 clients. -/
theorem loaded_nodeUp {nodeID region : String} {connectedAt ts : ℕ} (hl : Loaded t) :
    Loaded (t.nodeUp nodeID region connectedAt ts) ↔
      ∀ k ss, t.sessions.lookup k = some ss → ss.nodeID ≠ nodeID := by
  have hzero : (∀ k ss, t.sessions.lookup k = some ss → ss.nodeID ≠ nodeID) ↔
      t.clients nodeID = 0 := by
    rw [clients, GoMap.count_eq_zero]
    simp only [decide_eq_false_iff_not]
  rw [hzero]
  constructor
  · intro h
    have := h nodeID _ (AList.lookup_insert t.exits)
    simpa [clients, nodeUp, appendEvent] using this.symm
  · intro h n e he
    simp only [nodeUp, appendEvent_exits, GoMap.lookup_set] at he
    split_ifs at he with hn
    · obtain rfl := Option.some.inj he
      subst hn
      change (0 : ℤ) = t.clients n
      rw [h, Nat.cast_zero]
    · exact hl n e he

/-- One call keeps the counts right, if it is not a `NodeUp` of a node that
has sessions. -/
theorem loaded_call {ts : ℕ} {c : Call} (hl : Loaded t)
    (hfresh : ∀ id ∈ c.connects, t.sessions.lookup id = none) :
    Loaded (t.call ts c) ↔ Vacant t c := by
  cases c with
  | nodeUp nodeID region connectedAt => exact loaded_nodeUp hl
  | nodeDown nodeID => exact iff_of_true (loaded_nodeDown hl) trivial
  | connect sessionID nodeID region username startedAt =>
    exact iff_of_true (loaded_connect (hfresh sessionID rfl) hl) trivial
  | disconnect sessionID => exact iff_of_true (loaded_disconnect hl) trivial
  | addBytes sessionID fromClient n =>
    exact iff_of_true ((sampled_addBytes sessionID fromClient n ts).loaded hl) trivial
  | report sessionID r => exact iff_of_true ((sampled_report sessionID r ts).loaded hl) trivial

/-! ### Sequences of calls -/

theorem Sampled.mem (h : Sampled t k t') (id : String) : id ∈ t'.sessions ↔ id ∈ t.sessions := by
  cases h with
  | unknown => rfl
  | known found sessions =>
    have hk : k ∈ t.sessions := AList.lookup_isSome.mp (by rw [found]; rfl)
    rw [sessions, AList.mem_insert]
    exact ⟨fun hid => hid.elim (fun he => he ▸ hk) fun h => h, Or.inr⟩

theorem mem_disconnect_sessions {ts : ℕ} (id : String) :
    id ∈ (t.disconnect k ts).sessions ↔ id ≠ k ∧ id ∈ t.sessions := by
  cases hk : t.sessions.lookup k with
  | none =>
    rw [disconnect_unknown hk]
    refine ⟨fun hid => ⟨?_, hid⟩, And.right⟩
    rintro rfl
    exact (AList.lookup_eq_none.mp hk) hid
  | some ss => simp [disconnect, hk, appendEvent]

/-- Only `Connect` adds a session. -/
theorem mem_call {ts : ℕ} {c : Call} {id : String} (h : id ∈ (t.call ts c).sessions) :
    id ∈ t.sessions ∨ c.connects = some id := by
  cases c with
  | nodeUp nodeID region connectedAt => exact Or.inl h
  | nodeDown nodeID => exact Or.inl h
  | connect sessionID nodeID region username startedAt =>
    have h' : id ∈ t.sessions.insert sessionID _ := h
    rw [AList.mem_insert] at h'
    exact h'.elim (fun he => Or.inr (by rw [he]; rfl)) Or.inl
  | disconnect sessionID => exact Or.inl ((mem_disconnect_sessions id).mp h).2
  | addBytes sessionID fromClient n => exact Or.inl (((sampled_addBytes _ _ _ _).mem id).mp h)
  | report sessionID r => exact Or.inl (((sampled_report _ _ _).mem id).mp h)

theorem Sampled.lookup_of_ne (h : Sampled t k t') {id : String} (hne : id ≠ k) :
    t'.sessions.lookup id = t.sessions.lookup id := by
  cases h with
  | unknown => rfl
  | known _ sessions => rw [sessions, GoMap.lookup_set, if_neg hne]

/-- A call leaves the sessions it is not about. -/
theorem lookup_call_of_ne {ts : ℕ} {c : Call} (hc : c.session ≠ some k) :
    (t.call ts c).sessions.lookup k = t.sessions.lookup k := by
  have hne : ∀ {id}, c.session = some id → k ≠ id := by
    rintro id hid rfl
    exact hc hid
  cases c with
  | nodeUp nodeID region connectedAt => rfl
  | nodeDown nodeID => rfl
  | connect sessionID nodeID region username startedAt => exact AList.lookup_insert_ne (hne rfl)
  | disconnect sessionID =>
    simp only [call, disconnect]
    split
    · rfl
    · exact AList.lookup_erase_ne (hne rfl)
  | addBytes sessionID fromClient n => exact (sampled_addBytes _ _ _ _).lookup_of_ne (hne rfl)
  | report sessionID r => exact (sampled_report _ _ _).lookup_of_ne (hne rfl)

variable {histCap : ℤ} {tr : List (Lib.Event Tracker (ℕ × Call) Unit)}

/-- The session ids of a run's `Connect` calls, in order. -/
def connected (tr : List (Lib.Event Tracker (ℕ × Call) Unit)) : List String :=
  tr.filterMap fun e => e.act.2.connects

theorem mem_connected_of_run (h : (machine histCap).Run tr t) {id : String} (hid : id ∈ t.sessions) :
    id ∈ connected tr := by
  induction h with
  | nil => exact absurd hid (AList.notMem_empty id)
  | @snoc tr s s' a o hr hs ih =>
    obtain ⟨rfl, -⟩ := by simpa [machine] using hs
    simp only [connected, List.filterMap_append, List.mem_append]
    rcases mem_call hid with hold | hnew
    · exact Or.inl (ih hold)
    · exact Or.inr (by simp [hnew])

/-- **The tracker's counts.** In a run whose `Connect` calls use no session
id twice, every count is right in every state if and only if every `NodeUp`
finds no session of its node. -/
theorem loaded_iff_vacant (h : (machine histCap).Run tr t) (hids : (connected tr).Nodup) :
    (∀ e ∈ tr, Loaded e.post) ↔ ∀ e ∈ tr, Vacant e.pre e.act.2 := by
  have hinit : Loaded (new histCap) := fun n e he => by cases he
  suffices hrun : ((∀ e ∈ tr, Loaded e.post) ↔ ∀ e ∈ tr, Vacant e.pre e.act.2) ∧
      ((∀ e ∈ tr, Loaded e.post) → Loaded t) from hrun.1
  induction h with
  | nil => exact ⟨by simp, fun _ => hinit⟩
  | @snoc tr s s' a o hr hs ih =>
    obtain ⟨rfl, -⟩ := by simpa [machine] using hs
    simp only [connected, List.filterMap_append, List.nodup_append] at hids
    obtain ⟨hiff, hlast⟩ := ih hids.1
    simp only [List.mem_append, List.mem_singleton, or_imp, forall_and, forall_eq]
    have hfresh : ∀ id ∈ a.2.connects, s.sessions.lookup id = none := by
      intro id hid
      by_contra hne
      have hmem : id ∈ s.sessions :=
        AList.lookup_isSome.mp (Option.isSome_iff_ne_none.mpr hne)
      exact hids.2.2 id (mem_connected_of_run hr hmem) id (by simpa using hid) rfl
    constructor
    · constructor
      · rintro ⟨h1, h2⟩
        exact ⟨hiff.mp h1, (loaded_call (hlast h1) hfresh).mp h2⟩
      · rintro ⟨h1, h2⟩
        exact ⟨hiff.mpr h1, (loaded_call (hlast (hiff.mpr h1)) hfresh).mpr h2⟩
    · exact And.right

/-- Two exits and two sessions; one exit goes down with its session open. -/
theorem loaded_iff_vacant_two_exits : ∃ tr t, (machine 0).Run tr t ∧ (∀ e ∈ tr, Loaded e.post) ∧
    (t.exits.lookup "e1").map (·.active) = some 1 ∧ t.clients "e1" = 1 := by
  obtain ⟨tr, t, hr, hids, hvac, ha, hc⟩ := (machine 0).exists_run
    [(1, .nodeUp "e1" "us" 1), (2, .nodeUp "e2" "eu" 2), (3, .connect "1" "e1" "us" "alice" 3),
      (4, .connect "2" "e2" "eu" "bob" 4), (5, .addBytes "1" true 60), (6, .nodeDown "e2"),
      (7, .disconnect "2")]
    (P := fun r => (connected r.1).Nodup ∧ (∀ e ∈ r.1, Vacant e.pre e.act.2) ∧
      (r.2.exits.lookup "e1").map (·.active) = some 1 ∧ r.2.clients "e1" = 1)
    (by decide +kernel)
  exact ⟨tr, t, hr, (loaded_iff_vacant hr hids).mpr hvac, ha, hc⟩

/-- An exit that registers again with a session open is listed with no
clients. -/
theorem node_up_loses_clients : ∃ tr t, (machine 0).Run tr t ∧ (connected tr).Nodup ∧
    (t.exits.lookup "e1").map (·.active) = some 0 ∧ t.clients "e1" = 1 :=
  (machine 0).exists_run_of_exec
    [(1, .nodeUp "e1" "us" 1), (2, .connect "1" "e1" "us" "alice" 2), (3, .nodeUp "e1" "us" 3)]
    (by decide +kernel)

end
end Tracker
end Qos
end Revquic
