/-
# The load of an exit

`exitNode.active` is raised by a goroutine some steps after it was given the
exit, and lowered in the section that takes the session out of `b.sessions`.
In every state it is the number of sessions in `b.sessions` attached to the
registration whose goroutine has counted them.

Key definitions: `State.counted`, `Load`.
Key theorem: `sessions_and_load`.
-/
import Revquic.Broker.Attach

namespace Revquic
namespace Broker

open Lib Netip Ippool Proto

/-- A session attached to `r` whose goroutine has counted it. -/
def State.counted (b : State) (r : Conn) (_ : ℕ) (p : Conn) : Bool :=
  decide ((b.sess p).exitConn = r) && !(b.client (b.sess p).clientConn).pc.uncounted

/-- The counted sessions of a registration. -/
def State.load (b : State) (r : Conn) : ℕ := b.sessions.count (b.counted r)

/-- The sessions in `b.sessions` attached to a registration. -/
def State.sessionsOn (b : State) (r : Conn) : ℕ :=
  b.sessions.count fun _ p => decide ((b.sess p).exitConn = r)

/-- Every load counter is the number of counted sessions. -/
def Load (b : State) : Prop := ∀ r, (b.node r).active = b.load r

section
variable {cfg : Config} {users : Userstore.Table} {b b' : State} {a : Action} {o : List Out}
  {tr : List (Event State Action Out)}

/-! ### The load counters -/

theorem load_congr {r : Conn} (hs : b'.sessions = b.sessions)
    (h : ∀ i p, b.sessions.lookup i = some p → b'.counted r i p = b.counted r i p) :
    b'.load r = b.load r := by
  unfold State.load
  rw [hs]
  exact GoMap.count_congr h

/-- Only goroutine `c` moves, and it counts nothing. -/
theorem load_update (hrep : Rep b) {c : Conn} {t' : ClientThread} (hs : b'.sessions = b.sessions)
    (hx : b'.sess = b.sess) (hc : b'.client = Function.update b.client c t')
    (hu : (b.client c).pc.phase = .holds → t'.pc.uncounted = (b.client c).pc.uncounted) (r : Conn) :
    b'.load r = b.load r := by
  refine load_congr hs fun i p hp => ?_
  unfold State.counted
  rw [hx, hc]
  by_cases hpc : (b.sess p).clientConn = c
  · have := (hrep.holder i p hp).1
    rw [hpc] at this ⊢
    rw [Function.update_self, hu this]
  · rw [Function.update_of_ne hpc]

theorem addActive_active (ex : Conn) (d : ℤ) (r : Conn) :
    ((b.addActive ex d).node r).active = (b.node r).active + if r = ex then d else 0 := by
  unfold State.addActive
  split_ifs with h
  · subst h; simp
  · simp [h]

theorem Load.of_same (h : Load b) (hn : ∀ r, (b'.node r).active = (b.node r).active)
    (hl : ∀ r, b'.load r = b.load r) : Load b' := fun r => by rw [hn, hl]; exact h r

/-- A session enters `b.sessions` with a goroutine that has not counted it. -/
theorem load_enter {k : ℕ} {p : Conn} (hk : b.sessions.lookup k = none)
    (hs : b'.sessions = b.sessions.insert k p)
    (hp : (b'.client (b'.sess p).clientConn).pc.uncounted = true)
    (hq : ∀ i q, b.sessions.lookup i = some q → b'.sess q = b.sess q ∧
      b'.client (b.sess q).clientConn = b.client (b.sess q).clientConn) (r : Conn) :
    b'.load r = b.load r := by
  unfold State.load
  rw [hs, GoMap.count_set hk]
  have h0 : b'.counted r k p = false := by simp [State.counted, hp]
  rw [h0]
  simp only [Bool.false_eq_true, if_false, Nat.add_zero]
  refine GoMap.count_congr fun i q hiq => ?_
  unfold State.counted
  rw [(hq i q hiq).1, (hq i q hiq).2]

/-- A counted session leaves `b.sessions`, and its exit counts one less. -/
theorem Load.leave (h : Load b) (hrep : Rep b) (hat : Attach b) {c : Conn}
    (hph : (b.client c).pc.phase = .holds) (hu : (b.client c).pc.uncounted = false)
    (hs : b'.sessions = b.sessions.erase (b.sess (b.client c).s).id)
    (hx : ∀ q, (b'.sess q).exitConn = (b.sess q).exitConn ∧
      (b'.sess q).clientConn = (b.sess q).clientConn)
    (hc : ∀ d, d ≠ c → b'.client d = b.client d)
    (hn : b'.node = (b.addActive (b.client c).ex (-1)).node) : Load b' := by
  obtain ⟨hsc, hcl⟩ := hrep.held c hph
  intro r
  have hrest : b'.load r = GoMap.count (b.sessions.erase (b.sess (b.client c).s).id) (b.counted r) := by
    unfold State.load
    rw [hs]
    refine GoMap.count_congr fun i q hiq => ?_
    rw [GoMap.lookup_delete] at hiq
    split_ifs at hiq with hi
    unfold State.counted
    rw [(hx q).1, (hx q).2, hc _ (hrep.holder_ne hi hiq)]
  have hcnt : b.counted r (b.sess (b.client c).s).id (b.client c).s = decide (r = (b.client c).ex) := by
    simp [State.counted, hcl, hu, hat.held c hph, eq_comm]
  have hr : ((b.node r).active : ℤ) = b.load r := h r
  rw [State.load, GoMap.count_delete hsc, hcnt] at hr
  rw [hn, addActive_active, hrest, hr]
  by_cases hre : r = (b.client c).ex <;> simp [hre]

/-- A session is counted. -/
theorem Load.count (h : Load b) (hrep : Rep b) (hat : Attach b) {c : Conn} {pc' : ClientPC}
    (hpc : (b.client c).pc.uncounted = true) (hun : pc'.uncounted = false) :
    Load ((b.goto c pc').addActive (b.client c).ex 1) := by
  have hph := uncounted_holds hpc
  obtain ⟨hsc, hcl⟩ := hrep.held c hph
  have hcd : ∀ d, d ≠ c → ((b.goto c pc').addActive (b.client c).ex 1).client d = b.client d :=
    fun d hd => Function.update_of_ne hd _ _
  have hcc : (((b.goto c pc').addActive (b.client c).ex 1).client c).pc = pc' := by
    simp [State.goto, State.setClient, State.addActive]
  intro r
  rw [addActive_active]
  change (b.node r).active + _ = _
  rw [h r]
  by_cases hre : r = (b.client c).ex
  · -- the session's own exit
    rw [if_pos hre]
    have hflip : ((b.goto c pc').addActive (b.client c).ex 1).load r = b.load r + 1 := by
      refine GoMap.count_flip hsc ?_ ?_ ?_
      · simp [State.counted, hcl, hpc]
      · have hex : (b.sess (b.client c).s).exitConn = r := by rw [hre, hat.held c hph]
        change (decide ((b.sess (b.client c).s).exitConn = r) && _) = true
        rw [show (((b.goto c pc').addActive (b.client c).ex 1).sess (b.client c).s).clientConn = c
          from hcl, hcc, hun, hex]
        simp
      · intro i q hi hiq
        unfold State.counted
        change _ = (decide ((b.sess q).exitConn = r) && !(((b.goto c pc').addActive
          (b.client c).ex 1).client (b.sess q).clientConn).pc.uncounted)
        rw [hcd _ (hrep.holder_ne hi hiq)]
    rw [hflip]
    push_cast
    rfl
  · rw [if_neg hre, add_zero]
    congr 1
    refine Eq.symm (load_congr (b := b) rfl fun i q hiq => ?_)
    unfold State.counted
    by_cases hi : i = (b.sess (b.client c).s).id
    · have hq : q = (b.client c).s := by
        rw [hi, hsc] at hiq
        exact (Option.some.inj hiq).symm
      have hne : (b.sess q).exitConn ≠ r := by
        rw [hq, ← hat.held c hph]
        exact Ne.symm hre
      change (decide ((b.sess q).exitConn = r) && _) = _
      simp [hne]
    · change (decide ((b.sess q).exitConn = r) && !(((b.goto c pc').addActive
          (b.client c).ex 1).client (b.sess q).clientConn).pc.uncounted) = _
      rw [hcd _ (hrep.holder_ne hi hiq)]

/-- A registration starts with no sessions. -/
theorem Load.register (h : Load b) (hinv : Inv b) {c : Conn} {msg : Register} (hu : b.unused c) :
    Load (handleExit cfg b c msg) := by
  by_cases ht : msg.token = cfg.nodeSecret
  · have hload : ∀ r, (handleExit cfg b c msg).load r = b.load r := by
      intro r
      have core := handleExit_core cfg b c msg
      refine load_congr core.sessions fun i p _ => ?_
      rw [State.counted, State.counted, core.sess, handleExit_client]
    have hc0 : b.load c = 0 := by
      refine GoMap.count_eq_zero.mpr fun i p hp => ?_
      have hreg := (hinv.attach.sess p (hinv.rep.made p (live_of_sessions hp))).1
      have hne : (b.sess p).exitConn ≠ c := fun he => hinv.reg.served _ hreg (he ▸ hu.2)
      simp [State.counted, hne]
    intro r
    rw [hload]
    by_cases hrc : r = c
    · rw [hrc, hc0, handleExit_active ht]
      rfl
    · rw [handleExit_node_of_ne hrc]
      exact h r
  · rw [handleExit_refuse ht]
    exact h

theorem Load.move (h : Load b) (hinv : Inv b) (hm : Move cfg b a b' o) : Load b' := by
  have hrep := hinv.rep
  cases hm with
  | env core client node =>
    refine h.of_same (fun r => by rw [node]) fun r => load_congr core.sessions fun i p _ => ?_
    unfold State.counted
    rw [core.sess, client]
  | connect c msg hu =>
    exact h.of_same (fun _ => rfl) (load_update hrep rfl rfl rfl fun hp => by rw [hu.1] at hp; cases hp)
  | register c msg hu => exact h.register hinv hu
  | walk c t' core client node _ hw =>
    refine h.of_same (fun r => by rw [node]) (load_update hrep core.sessions core.sess client fun _ => ?_)
    rw [hw.uncounted.1, hw.uncounted.2]
  | choose c i ex rr hpc | draw c i hpc | alloc c i addr pool hpc =>
    exact h.of_same (fun _ => rfl) (load_update hrep rfl rfl rfl fun hp => by rw [hpc] at hp; cases hp)
  | insert c i hpc =>
    have hnum : (b.client c).pc.numbers := Or.inr (by rw [hpc]; rfl)
    have hnone : b.sessions.lookup (b.client c).sid = none := by
      cases hl : b.sessions.lookup (b.client c).sid with
      | none => rfl
      | some q => exact absurd (hrep.id_eq _ _ hl) (hrep.fresh c q hnum)
    refine h.of_same (fun _ => rfl) (load_enter hnone rfl ?_ fun i q hiq => ?_)
    · simp [insertSession, newSession, State.setClient, ClientPC.uncounted]
    · have hqc : q ≠ c := by
        rintro rfl
        exact hrep.not_live (by rw [hpc]; simp [ClientPC.born, ClientPC.phase]) (live_of_sessions hiq)
      have hcl : (b.sess q).clientConn ≠ c := by
        intro he
        have := (hrep.holder i q hiq).1
        rw [he, hpc] at this
        cases this
      exact ⟨Function.update_of_ne hqc _ _, Function.update_of_ne hcl _ _⟩
  | count c i hpc pc' hph hun => exact h.count hrep hinv.attach hpc hun
  | resume c i p ex hpc _ hf =>
    refine h.of_same (fun _ => rfl) (load_enter (hrep.parked_out hf) rfl ?_ fun i q hiq => ?_)
    · simp [resumeState, State.setClient, ClientPC.uncounted]
    · have hqp : q ≠ p := by
        rintro rfl
        rw [← hrep.id_eq i q hiq, hrep.parked_out hf] at hiq
        cases hiq
      have hcl : (b.sess q).clientConn ≠ c := by
        intro he
        have := (hrep.holder i q hiq).1
        rw [he, hpc] at this
        cases this
      exact ⟨Function.update_of_ne hqp _ _, Function.update_of_ne hcl _ _⟩
  | park c i q hpc =>
    refine h.leave hrep hinv.attach (by rw [hpc]; rfl) (by rw [hpc]; rfl) rfl (fun q => ?_)
      (fun d hd => Function.update_of_ne hd _ _) rfl
    by_cases hq : q = (b.client c).s <;> simp [parkState, hq]
  | close c i q pc' hpc =>
    refine h.leave hrep hinv.attach ?_ ?_ rfl (fun _ => ⟨rfl, rfl⟩)
      (fun d hd => Function.update_of_ne hd _ _) rfl
    · rcases hpc with ⟨hpc, -⟩ | ⟨hpc, -⟩ <;> rw [hpc] <;> rfl
    · rcases hpc with ⟨hpc, -⟩ | ⟨hpc, -⟩ <;> rw [hpc] <;> rfl
  | vanish c i hpc hf => exact absurd hf (hrep.found hpc)
  | expire => exact h.of_same (fun _ => rfl) fun _ => rfl

theorem Load.of_run (h : (machine cfg users).Run tr b) : Load b := by
  refine (Machine.Run.invariant (I := fun b => Inv b ∧ Load b) ⟨Inv.init users, fun r => rfl⟩ ?_ h).2
  intro s a s' o ⟨hi, hl⟩ hs
  exact ⟨hi.step hs, hl.move hi (step_move hs)⟩

/-- Once every goroutine has counted its session, the counted sessions are
all of them. -/
theorem load_eq_sessionsOn (hu : ∀ c, (b.client c).pc.uncounted = false) (r : Conn) :
    b.load r = b.sessionsOn r := by
  refine GoMap.count_congr fun i p _ => ?_
  unfold State.counted
  rw [hu, Bool.not_false, Bool.and_true]

/-- **The broker's representation and its load counters.** In every state of
every run the two session maps are well formed and disjoint and no load
counter is negative; and whenever no goroutine stands between inserting a
session and counting it, each counter is the number of sessions attached to
its registration. -/
theorem sessions_and_load (h : (machine cfg users).Run tr b) :
    (∀ i p, b.sessions.lookup i = some p → (b.sess p).id = i ∧ (b.sess p).suspended = false) ∧
    (∀ k p, b.parked.lookup k = some p →
      (b.sess p).resumeKey = k ∧ k ≠ "" ∧ (b.sess p).suspended = true) ∧
    (∀ i k p, b.sessions.lookup i = some p → b.parked.lookup k ≠ some p) ∧
    (∀ r, 0 ≤ (b.node r).active) ∧
    ((∀ c, (b.client c).pc.uncounted = false) → ∀ r, (b.node r).active = b.sessionsOn r) := by
  have hrep := Rep.of_run h
  have hload := Load.of_run h
  refine ⟨fun i p hp => ⟨hrep.id_eq i p hp, hrep.active i p hp⟩, hrep.key, ?_, ?_, ?_⟩
  · intro i k p hi hk
    have hactive := hrep.active i p hi
    rw [(hrep.key k p hk).2.2] at hactive
    cases hactive
  · intro r
    rw [hload r]
    exact Int.natCast_nonneg _
  · intro hu r
    rw [hload r, load_eq_sessionsOn hu]

/-- One session attached to the exit, another parked. -/
theorem sessions_and_load_two_clients : ∃ tr b, (machine {} aliceStore).Run tr b ∧
    b.sessions.lookup 2 = some 2 ∧ b.parked.lookup "k" = some 1 ∧ (b.sess 1).suspended = true ∧
    0 ≤ (b.node 0).active := by
  obtain ⟨tr, b, hr, h2, h1⟩ := (machine {} aliceStore).exists_run
    (.register 0 (node "e1" "us" 0) :: joins 1 (aliceConnect "us" "k") ++
      joins 2 (aliceConnect "us" "") ++ [.drop 1 .other, .client 1 {}])
    (P := fun r => r.2.sessions.lookup 2 = some 2 ∧ r.2.parked.lookup "k" = some 1)
    (by decide +kernel)
  obtain ⟨-, hparked, -, hnonneg, -⟩ := sessions_and_load hr
  exact ⟨tr, b, hr, h2, h1, (hparked "k" 1 h1).2.2, hnonneg 0⟩

end
end Broker
end Revquic
