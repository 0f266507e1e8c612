/-
# The session a control message names

Clients and exits send ICE signals and reports on their control streams, and
write the id of the session into each. The broker never compares it with the
sender. It passes a client's signal on to the client's exit, where the id
selects the session; an exit's signal goes to the client of whatever session
it names; a report goes to the tracker under the id it names. So the messages
are bound to the sender's own sessions exactly when the sender writes such an
id.

Key definitions: `own`, `State.BoundClient`, `State.BoundExit`, `Bound`.
Key theorem: `control_bound_iff`.
-/
import Revquic.Broker.Tracker
import Revquic.Exit.Tables

namespace Revquic
namespace Broker

open Lib Netip Ippool Proto

/-- A call changes the tracker for the sessions in `P` only: the others and
the exits are as they were, and the events it adds are of these sessions. -/
def Changes (P : String → Prop) (t t' : Qos.Tracker) : Prop :=
  t'.exits = t.exits ∧ (∀ k, ¬ P k → t'.sessions.lookup k = t.sessions.lookup k) ∧
    ∃ evs, t'.store = t.store ++ evs ∧
      ∀ ev ∈ evs, ∃ k ss, P k ∧ t.sessions.lookup k = some ss ∧ ev.sessionID = ss.id

namespace State

variable (b : State)

/-- The session a client runs. -/
def own (c : Conn) : Session := b.sess (b.client c).s

/-- The sessions in the two maps. -/
def liveList : List Conn := b.sessions.entries.map (·.2) ++ b.parked.entries.map (·.2)

/-- The signals put out reach the client's exit, and there no session but the
client's own. -/
def SignalsOwn (c : Conn) (o : List Out) : Prop :=
  ∀ dst sid sg nonce, Out.ctrl dst (.signal sid sg nonce) ∈ o →
    dst = (b.own c).exitConn ∧
    ∀ (t : Exit.Tables) (q : Exit.Ptr), t.Fresh → t.signalled (.signal sid sg nonce) = some q →
      (t.es q).sid = (b.own c).id

/-- The signals put out reach only clients of sessions attached to the
exit. -/
def SignalsAttached (r : Conn) (o : List Out) : Prop :=
  ∀ dst sid sg nonce, Out.ctrl dst (.signal sid sg nonce) ∈ o →
    ∃ i p, b.sessions.lookup i = some p ∧ (b.sess p).clientConn = dst ∧ (b.sess p).exitConn = r

/-- The session is in one of the two maps, and at the exit. -/
def IsAt (r p : Conn) : Prop := b.Live p ∧ (b.sess p).exitConn = r

end State

/-- A client's message names its own session, or, in a report, one that is
unknown to the tracker. -/
def State.BoundClient (b : State) (c : Conn) : Control → Prop
  | .signal sid _ _ => sid = (b.own c).id
  | .report sid _ => sid = (b.own c).id ∨ b.qos.sessions.lookup (toString sid) = none
  | _ => True

instance (b : State) (c : Conn) : DecidablePred (b.BoundClient c)
  | .signal _ _ _ => inferInstanceAs (Decidable (_ = _))
  | .report _ _ => inferInstanceAs (Decidable (_ ∨ _))
  | .registerOK | .sessionStart _ _ _ _ _ | .sessionEnd _ | .sessionSuspend _
  | .connectOK _ _ _ _ _ | .exitList _ | .error _ | .ping _ _ | .pong _ _ | .nodeStatus _ _ _ =>
    isTrue trivial

/-- An exit's message names a session attached to it, or one that is unknown
where the id is looked up. -/
def State.BoundExit (b : State) (r : Conn) : Control → Prop
  | .signal sid _ _ => ∀ p ∈ b.sessions.lookup sid, (b.sess p).exitConn = r
  | .report sid _ => b.qos.sessions.lookup (toString sid) = none ∨
    ∃ p ∈ b.liveList, (b.sess p).id = sid ∧ (b.sess p).exitConn = r
  | _ => True

instance (b : State) (r : Conn) : DecidablePred (b.BoundExit r)
  | .signal sid _ _ => inferInstanceAs (Decidable (∀ _ ∈ b.sessions.lookup sid, _))
  | .report _ _ => inferInstanceAs (Decidable (_ ∨ _))
  | .registerOK | .sessionStart _ _ _ _ _ | .sessionEnd _ | .sessionSuspend _
  | .connectOK _ _ _ _ _ | .exitList _ | .error _ | .ping _ _ | .pong _ _ | .nodeStatus _ _ _ =>
    isTrue trivial

/-- The control message read in this step, if any, is bound to its sender. -/
def Bound (b : State) : Action → Prop
  | .clientCtrl c m _ => b.BoundClient c m
  | .exitCtrl r m _ => b.BoundExit r m
  | _ => True

instance (b : State) : DecidablePred (Bound b)
  | .clientCtrl c m _ => inferInstanceAs (Decidable (b.BoundClient c m))
  | .exitCtrl r m _ => inferInstanceAs (Decidable (b.BoundExit r m))
  | .tick _ | .users _ | .connect _ _ | .client _ _ | .drop _ _ | .register _ _ | .exit _ _
  | .exitGone _ | .datagram _ _ | .fire _ | .timer _ _ => isTrue trivial

section
variable {cfg : Config} {users : Userstore.Table} {b b' : State} {a : Action} {c r : Conn}
  {o : List Out} {tr : List (Event State Action Out)}

theorem mem_liveList {p : Conn} : p ∈ b.liveList ↔ b.Live p := by
  simp only [State.liveList, State.Live, List.mem_append, List.mem_map]
  constructor
  · rintro (⟨x, hx, rfl⟩ | ⟨x, hx, rfl⟩)
    · exact Or.inl ⟨x.1, GoMap.mem_entries.mp hx⟩
    · exact Or.inr ⟨x.1, GoMap.mem_entries.mp hx⟩
  · rintro (⟨i, hi⟩ | ⟨k, hk⟩)
    · exact Or.inl ⟨⟨i, p⟩, GoMap.mem_entries.mpr hi, rfl⟩
    · exact Or.inr ⟨⟨k, p⟩, GoMap.mem_entries.mpr hk, rfl⟩

/-! ### Reports -/

theorem Changes.refl (P : String → Prop) (t : Qos.Tracker) : Changes P t t :=
  ⟨rfl, fun _ _ => rfl, [], (List.append_nil _).symm, by simp⟩

theorem Changes.mono {P Q : String → Prop} {t t' : Qos.Tracker} (h : Changes P t t')
    (hPQ : ∀ k, P k → Q k) : Changes Q t t' := by
  obtain ⟨hx, hs, evs, hevs, hev⟩ := h
  refine ⟨hx, fun k hk => hs k fun hP => hk (hPQ k hP), evs, hevs, fun ev he => ?_⟩
  obtain ⟨k, ss, hP, hss⟩ := hev ev he
  exact ⟨k, ss, hPQ k hP, hss⟩

theorem sampleSession_event {t : Qos.Tracker} (ss : Qos.SessionState) (bps : ℚ) (ts : ℕ) :
    ∀ ev ∈ (t.sampleSession ss bps ts).2, ev.sessionID = ss.id := by
  simp only [Qos.Tracker.sampleSession]
  split_ifs <;> simp

/-- Storing a session anew, with an event of its own. -/
theorem changes_put {t : Qos.Tracker} {k : String} {ss : Qos.SessionState}
    (hk : t.sessions.lookup k = some ss) (x : Qos.SessionState × Option Qos.Event)
    (hx : ∀ ev ∈ x.2, ev.sessionID = ss.id) : Changes (· = k) t (t.putSession k x) := by
  have hother : ∀ ss' : Qos.SessionState, ∀ k', ¬ k' = k →
      (t.sessions.insert k ss').lookup k' = t.sessions.lookup k' := fun ss' k' hne => by
    rw [GoMap.lookup_set, if_neg hne]
  rcases x with ⟨ss', _ | ev⟩
  · exact ⟨rfl, hother ss', [], (List.append_nil _).symm, by simp⟩
  · exact ⟨rfl, hother ss', [ev], rfl, by simpa using ⟨ss, hk, hx ev rfl⟩⟩

/-- A report changes the session it names, and no other. -/
theorem changes_report (t : Qos.Tracker) (k : String) (rep : Qos.Report) (ts : ℕ) :
    Changes (· = k) t (t.report k rep ts) := by
  unfold Qos.Tracker.report
  split
  · exact .refl _ _
  · rename_i ss hk
    have hput : ∀ ss' : Qos.SessionState, ss'.id = ss.id →
        Changes (· = k) t (if 0 < rep.throughputBps then
          t.putSession k (t.sampleSession ss' rep.throughputBps ts)
          else t.putSession k (ss', none)) := by
      intro ss' hid
      split_ifs
      · exact changes_put hk _ fun ev hev => (sampleSession_event _ _ _ ev hev).trans hid
      · exact changes_put hk _ (by simp)
    exact hput _ rfl

/-- Some report shows: one with a higher drop count. -/
theorem report_shows {t : Qos.Tracker} {k : String} {ss : Qos.SessionState}
    (hk : t.sessions.lookup k = some ss) (ts : ℕ) :
    (t.report k { drops := ss.drops + 1 } ts).sessions.lookup k ≠ t.sessions.lookup k := by
  rw [hk]
  unfold Qos.Tracker.report
  rw [hk]
  simp only [lt_irrefl, if_false, Qos.Tracker.putSession, AList.lookup_insert, ne_eq,
    Option.some.injEq]
  intro heq
  have := congrArg Qos.SessionState.drops heq
  simp at this

/-- Reports that name `k` concern the sessions in `P` only. -/
theorem changes_iff {P : String → Prop} {t : Qos.Tracker} {k : String} (ts : ℕ) :
    (∀ rep, Changes P t (t.report k rep ts)) ↔ P k ∨ t.sessions.lookup k = none := by
  constructor
  · intro h
    by_contra hno
    push Not at hno
    obtain ⟨ss, hss⟩ := Option.ne_none_iff_exists'.mp hno.2
    exact report_shows hss ts ((h _).2.1 k hno.1)
  · rintro (hP | hk) rep
    · exact (changes_report t k rep ts).mono fun k' hk' => hk' ▸ hP
    · have hsame : t.report k rep ts = t := by
        unfold Qos.Tracker.report
        rw [hk]
      rw [hsame]
      exact .refl _ _

/-! ### Signals -/

/-- An exit with one session. -/
def oneSession (sid : ℕ) : Exit.Tables where
  sessions := (∅ : GoMap ℕ Exit.Ptr).insert sid 0
  es _ := { sid }
  next := 1

theorem oneSession_fresh (sid : ℕ) : (oneSession sid).Fresh := by
  have hl : ∀ i p, (oneSession sid).sessions.lookup i = some p → i = sid ∧ p = 0 := by
    intro i p h
    change ((∅ : GoMap ℕ Exit.Ptr).insert sid 0).lookup i = some p at h
    rw [GoMap.lookup_set] at h
    split_ifs at h with hi
    · exact ⟨hi, (Option.some.inj h).symm⟩
    · cases h
  refine ⟨fun i p h => ?_, fun i p h => ?_⟩
  · obtain ⟨-, rfl⟩ := hl i p h
    exact Nat.zero_lt_one
  · obtain ⟨rfl, -⟩ := hl i p h
    rfl

/-- A client's signal reaches its own session only, if and only if it names
it. -/
theorem client_signal_iff (hinv : Inv b) (hc : (b.client c).pc.phase = .holds) (sid : ℕ) :
    (∀ sg nonce ok, b.SignalsOwn c (clientCtrl b c (.signal sid sg nonce) ok).2) ↔
      sid = (b.own c).id := by
  constructor
  · intro h
    have hself := (h [] "" true (b.client c).ex sid [] "" (by simp [clientCtrl, written])).2
    exact hself (oneSession sid) 0 (oneSession_fresh sid) (AList.lookup_insert _)
  · rintro rfl sg nonce ok dst i sg' nonce' hmem
    obtain ⟨-, rfl, hm⟩ := mem_written hmem
    cases hm
    exact ⟨hinv.attach.held c hc, fun t q hf hq => hf.own _ q hq⟩

/-- An exit's signal reaches clients of its own sessions only, if and only if
the session it names is attached to it. -/
theorem exit_signal_iff (hinv : Inv b) (r : Conn) (sid : ℕ) :
    (∀ sg nonce ok, b.SignalsAttached r (exitCtrl b r (.signal sid sg nonce) ok).2) ↔
      ∀ p ∈ b.sessions.lookup sid, (b.sess p).exitConn = r := by
  constructor
  · intro h p hp
    have hp : b.sessions.lookup sid = some p := hp
    have hcw := (hinv.attach.writers p (hinv.rep.made p (live_of_sessions hp))).2
    obtain ⟨i, q, hq, hcc, hx⟩ := h [] "" true (b.sess p).clientCW sid [] ""
      (by simp [exitCtrl, hp, written])
    -- a client connection runs one session
    have hpq : p = q := by
      have h1 := (hinv.rep.holder sid p hp).2
      have h2 := (hinv.rep.holder i q hq).2
      rw [hcc, hcw] at h2
      exact h1.symm.trans h2
    rw [hpq]
    exact hx
  · intro h sg nonce ok dst i sg' nonce' hmem
    simp only [exitCtrl] at hmem
    split at hmem
    · cases hmem
    · rename_i p hp
      obtain ⟨-, rfl, -⟩ := mem_written hmem
      have hcw := (hinv.attach.writers p (hinv.rep.made p (live_of_sessions hp))).2
      exact ⟨sid, p, hp, hcw.symm, h p hp⟩

/-- An exit's reports change its own sessions only, if and only if the session
they name is one of them or unknown to the tracker. -/
theorem exit_report_iff (r : Conn) (sid : ℕ) :
    (∀ rep ok, Changes (fun k => ∃ p, b.IsAt r p ∧ k = b.key p) b.qos
      (exitCtrl b r (.report sid rep) ok).1.qos) ↔
      b.qos.sessions.lookup (toString sid) = none ∨
        ∃ p ∈ b.liveList, (b.sess p).id = sid ∧ (b.sess p).exitConn = r := by
  have hP : (∃ p, b.IsAt r p ∧ toString sid = b.key p) ↔
      ∃ p ∈ b.liveList, (b.sess p).id = sid ∧ (b.sess p).exitConn = r := by
    constructor
    · rintro ⟨p, ⟨hl, hx⟩, hk⟩
      exact ⟨p, mem_liveList.mpr hl, (toString_inj hk).symm, hx⟩
    · rintro ⟨p, hl, rfl, hx⟩
      exact ⟨p, ⟨mem_liveList.mp hl, hx⟩, rfl⟩
  rw [← hP, or_comm]
  refine Iff.trans ?_ (changes_iff (P := fun k => ∃ p, b.IsAt r p ∧ k = b.key p) b.now)
  exact ⟨fun h rep => h rep true, fun h rep _ => h rep⟩

/-! ### Runs -/

/-- What a client sends, bound to its own session, leaves the other sessions'
negotiation and statistics alone. -/
theorem client_message_own {m : Control} (ok : Bool) (hrep : Rep b) (hb : b.BoundClient c m) {p : Conn} (hp : b.Made p) (hne : p ≠ (b.client c).s) :
    (∀ dst msg, Out.ctrl dst msg ∈ (clientCtrl b c m ok).2 → ∀ (t : Exit.Tables) q, t.Fresh →
      t.signalled msg = some q → (t.es q).sid ≠ (b.sess p).id) ∧
    (clientCtrl b c m ok).1.qos.sessions.lookup (b.key p) = b.qos.sessions.lookup (b.key p) := by
  have hid : (b.own c).id ≠ (b.sess p).id := fun h => hne (hrep.id_inj p _ hp h.symm)
  cases m with
  | signal sid sg nonce =>
    refine ⟨fun dst msg hmem t q hf hq => ?_, rfl⟩
    obtain ⟨-, -, rfl⟩ := mem_written hmem
    rw [hf.own sid q hq]
    exact fun h => hid ((show sid = (b.own c).id from hb) ▸ h)
  | report sid rep =>
    refine ⟨fun dst msg hmem => (by cases hmem), ?_⟩
    have hch := (changes_iff (P := (· = toString (b.own c).id)) b.now).mpr
      ((show _ ∨ _ from hb).imp_left fun h => congrArg toString h) rep
    exact hch.2.1 _ fun h => hid (toString_inj h).symm
  | ping sid ts =>
    refine ⟨fun dst msg hmem t q _ hq => ?_, rfl⟩
    obtain ⟨-, -, rfl⟩ := mem_written hmem
    cases hq
  | _ => exact ⟨fun dst msg hmem => (by cases hmem), rfl⟩

/-- **Control messages and their session.** In every state of every run: a
client's signals reach its own session only, and its reports change the
tracker for it only, exactly if they name it (or, for a report, a session the
tracker does not know); an exit's signals and reports concern only sessions
attached to it exactly if they name such a session or an unknown one. In a run
in which every message is so bound, no client's message alters another
session's negotiation or statistics. -/
theorem control_bound_iff (hrun : (machine cfg users).Run tr b) :
    (∀ c, (b.client c).pc.phase = .holds → ∀ sid,
      ((∀ sg nonce ok, b.SignalsOwn c (clientCtrl b c (.signal sid sg nonce) ok).2) ↔
        sid = (b.own c).id) ∧
      ((∀ rep ok, Changes (· = toString (b.own c).id) b.qos
          (clientCtrl b c (.report sid rep) ok).1.qos) ↔
        sid = (b.own c).id ∨ b.qos.sessions.lookup (toString sid) = none)) ∧
    (∀ r sid,
      ((∀ sg nonce ok, b.SignalsAttached r (exitCtrl b r (.signal sid sg nonce) ok).2) ↔
        ∀ p ∈ b.sessions.lookup sid, (b.sess p).exitConn = r) ∧
      ((∀ rep ok, Changes (fun k => ∃ p, b.IsAt r p ∧ k = b.key p) b.qos
          (exitCtrl b r (.report sid rep) ok).1.qos) ↔
        b.qos.sessions.lookup (toString sid) = none ∨
          ∃ p ∈ b.liveList, (b.sess p).id = sid ∧ (b.sess p).exitConn = r)) ∧
    ((∀ e ∈ tr, Bound e.pre e.act) → ∀ e ∈ tr, ∀ c m ok, e.act = .clientCtrl c m ok →
      ∀ p, e.pre.Made p → p ≠ (e.pre.client c).s →
        (∀ dst msg, Out.ctrl dst msg ∈ e.out → ∀ (t : Exit.Tables) q, t.Fresh →
          t.signalled msg = some q → (t.es q).sid ≠ (e.pre.sess p).id) ∧
        e.post.qos.sessions.lookup (e.pre.key p) = e.pre.qos.sessions.lookup (e.pre.key p)) := by
  have hinv := Inv.of_run hrun
  refine ⟨fun c hc sid => ⟨client_signal_iff hinv hc sid, ?_⟩,
    fun r sid => ⟨exit_signal_iff hinv r sid, exit_report_iff r sid⟩, ?_⟩
  · have hname : sid = (b.own c).id ↔ toString sid = toString (b.own c).id :=
      ⟨fun h => congrArg toString h, toString_inj⟩
    rw [hname]
    refine Iff.trans ?_ (changes_iff (P := (· = toString (b.own c).id)) b.now)
    exact ⟨fun h rep => h rep true, fun h rep _ => h rep⟩
  · intro hC e he c m ok hact p hp hne
    obtain ⟨tr₁, tr₂, -, hr, hs⟩ := hrun.of_mem he
    have hb := hC e he
    rw [hact] at hb hs
    have hs : step cfg e.pre (.clientCtrl c m ok) = some (e.post, e.out) := hs
    simp only [step] at hs
    split at hs
    · have hmsg := client_message_own ok (Rep.of_run hr) hb hp hne
      rw [Option.some.inj hs] at hmsg
      exact hmsg
    · cases hs

/-- A client signals and reports on its own session, next to another. -/
theorem control_bound_two_clients : ∃ tr b, (machine {} aliceStore).Run tr b ∧
    b.sessions.lookup 1 = some 1 ∧ b.sessions.lookup 2 = some 2 ∧
    ∀ e ∈ tr, ∀ c m ok, e.act = .clientCtrl c m ok →
      ∀ p, e.pre.Made p → p ≠ (e.pre.client c).s →
        (∀ dst msg, Out.ctrl dst msg ∈ e.out → ∀ (t : Exit.Tables) q, t.Fresh →
          t.signalled msg = some q → (t.es q).sid ≠ (e.pre.sess p).id) ∧
        e.post.qos.sessions.lookup (e.pre.key p) = e.pre.qos.sessions.lookup (e.pre.key p) := by
  obtain ⟨tr, b, hr, h1, h2, hC⟩ := (machine {} aliceStore).exists_run
    (.register 0 (node "e1" "us" 0) :: joins 1 (aliceConnect "us" "") ++
      joins 2 (aliceConnect "us" "") ++
      [.clientCtrl 2 (.signal 2 [0x7b] "n") true, .clientCtrl 2 (.report 2 { drops := 1 }) true])
    (P := fun r => r.2.sessions.lookup 1 = some 1 ∧ r.2.sessions.lookup 2 = some 2 ∧
      ∀ e ∈ r.1, Bound e.pre e.act)
    (by decide +kernel)
  exact ⟨tr, b, hr, h1, h2, (control_bound_iff hr).2.2 hC⟩

/-- Client 2 names client 1's session: its signal goes to that session at the
exit, and its report changes that session's statistics. -/
theorem control_reaches_foreign_session : ∃ tr b, (machine {} aliceStore).Run tr b ∧
    (b.client 2).reading = true ∧ (b.own 2).id = 2 ∧ b.sessions.lookup 1 = some 1 ∧
    (clientCtrl b 2 (.signal 1 [0x7b] "n") true).2 = [.ctrl 0 (.signal 1 [0x7b] "n")] ∧
    (b.qos.sessions.lookup "1").map (·.drops) = some 0 ∧
    ((clientCtrl b 2 (.report 1 { drops := 9 }) true).1.qos.sessions.lookup "1").map (·.drops) =
      some 9 :=
  (machine {} aliceStore).exists_run_of_exec
    (.register 0 (node "e1" "us" 0) :: joins 1 (aliceConnect "us" "") ++
      joins 2 (aliceConnect "us" "")) (by decide +kernel)

end
end Broker
end Revquic
