/-
# The loss of an exit

When an exit's control loop ends, `handleExit` takes the node out of
`b.exits` and `failExit` closes the connections of the clients it finds. What
becomes of their sessions is decided later, by each client's own goroutine:
`suspendSession` parks a session that has a resume key, whether or not its
exit is still there, though its comment says otherwise. And a session that
had just chosen the exit is removed by `endSession`, which does not
disconnect it in the tracker.

Where neither happens, nothing is left of the sessions of the lost
registration once everybody has returned: `failExit` misses nobody, since the
session of every client that got past `MsgSessionStart` is in `b.sessions`
when it looks.

Key definitions: `Lost`, `ParksOn`, `FailsOn`, `Fate`, `Losing`.
Key theorem: `loss_ends_sessions`.
-/
import Revquic.Broker.Tracker

namespace Revquic
namespace Broker

open Lib Proto

/-- The connections closed by the `failExit` of registration `r`. -/
def closedBy (r : Conn) (tr : List (Event State Action Out)) : List Conn :=
  tr.flatMap fun e =>
    match e.act with
    | .exit c _ =>
      if c = r then e.out.filterMap fun x => match x with | .close d => some d | _ => none else []
    | _ => []

/-- The goroutine is on its way into `relayLoop`, or out of it. -/
def ClientPC.busy : ClientPC → Bool
  | .idle | .auth | .lock | .reply | .relay | .done => false
  | _ => true

/-- The clean-up of registration `r` has returned, and so have the goroutines
of the clients it has closed; no other goroutine of a client of `r` is on its
way in or out. -/
structure Unwound (r : Conn) (tr : List (Event State Action Out)) (b : State) : Prop where
  exit : (b.exitT r).pc = .done
  closed : ∀ c ∈ closedBy r tr, (b.client c).pc = .done
  handlers : ∀ c, (b.client c).ex = r → (b.client c).pc.busy = false

/-- A run in which the control loop of registration `r` ends in step `e`, no
later write to `r` succeeds, and everybody has unwound. -/
structure Lost (cfg : Config) (users : Userstore.Table) (r : Conn)
    (tr₁ : List (Event State Action Out)) (e : Event State Action Out)
    (tr₂ : List (Event State Action Out)) (b : State) : Prop where
  run : (machine cfg users).Run (tr₁ ++ e :: tr₂) b
  act : e.act = .exitGone r
  dead : ∀ x ∈ tr₂, ∀ m, Out.ctrl r m ∉ x.out
  unwound : Unwound r tr₂ b

/-- No session attached to registration `r` is parked. -/
def NoneParked (r : Conn) (b : State) : Prop :=
  ∀ e ∈ b.parked.entries, (b.sess e.2).exitConn ≠ r

/-- The step parks a session of registration `r`. -/
def ParksOn (cfg : Config) (r : Conn) (b : State) : Action → Prop
  | .client c _ => b.parks cfg c ∧ (b.client c).ex = r
  | _ => False

/-- The step is the `endSession` of a session of registration `r`. -/
def FailsOn (r : Conn) (b : State) : Action → Prop
  | .client c _ => (b.client c).pc = .ending ∧ (b.client c).ex = r
  | _ => False

instance (r : Conn) (b : State) : Decidable (NoneParked r b) :=
  inferInstanceAs (Decidable (∀ e ∈ b.parked.entries, (b.sess e.2).exitConn ≠ r))

instance (cfg : Config) (r : Conn) (b : State) : DecidablePred (ParksOn cfg r b)
  | .client _ _ => inferInstanceAs (Decidable (_ ∧ _))
  | .tick _ | .users _ | .connect _ _ | .drop _ _ | .clientCtrl _ _ _ | .register _ _ | .exit _ _
  | .exitCtrl _ _ _ | .exitGone _ | .datagram _ _ | .fire _ | .timer _ _ => isFalse id

instance (r : Conn) (b : State) : DecidablePred (FailsOn r b)
  | .client _ _ => inferInstanceAs (Decidable (_ ∧ _))
  | .tick _ | .users _ | .connect _ _ | .drop _ _ | .clientCtrl _ _ _ | .register _ _ | .exit _ _
  | .exitCtrl _ _ _ | .exitGone _ | .datagram _ _ | .fire _ | .timer _ _ => isFalse id

section
variable {cfg : Config} {users : Userstore.Table} {b b' : State} {a : Action} {o : List Out}
  {tr : List (Event State Action Out)} {r : Conn}

theorem mem_closedBy {c : Conn} :
    c ∈ closedBy r tr ↔ ∃ e ∈ tr, ∃ ok, e.act = .exit r ok ∧ Out.close c ∈ e.out := by
  simp only [closedBy, List.mem_flatMap]
  refine exists_congr fun e => and_congr_right fun _ => ?_
  cases e.act with
  | exit d ok =>
    by_cases hd : d = r
    · subst hd
      simp only [if_true, List.mem_filterMap, Action.exit.injEq, true_and, exists_and_right,
        exists_eq']
      constructor
      · rintro ⟨x, hx, hc⟩
        cases x <;> simp_all
      · intro hc
        exact ⟨_, hc, rfl⟩
    · simp [hd]
  | _ => simp

/-! ### No session is parked -/

theorem NoneParked.lookup (h : NoneParked r b) {k : String} {p : Conn}
    (hp : b.parked.lookup k = some p) : (b.sess p).exitConn ≠ r :=
  h ⟨k, p⟩ (GoMap.mem_entries.mpr hp)

theorem NoneParked.step (h : NoneParked r b) (hinv : Inv b) (hm : Move cfg b a b' o)
    (hC : ¬ ParksOn cfg r b a) : NoneParked r b' := by
  rintro ⟨k, p⟩ he hr
  rcases hm.parked hinv.rep (GoMap.mem_entries.mp he) with ⟨hp, hsess⟩ | ⟨c, i, rfl, hparks, rfl, rfl⟩
  · rw [hsess] at hr
    exact h.lookup hp hr
  · rw [parkState_sess_self] at hr
    have hex := hinv.attach.held c (by rw [hparks.1]; rfl)
    exact hC ⟨hparks, hex.trans hr⟩

/-- A session that is not parked stays with its exit. -/
theorem exitConn_of_running (hm : Move cfg b a b' o) (hrep : Rep b) {p : Conn} (hp : b.Made p)
    (hout : ∀ k, b.parked.lookup k ≠ some p) : (b'.sess p).exitConn = (b.sess p).exitConn := by
  rcases hm.exitConn (hrep.born p hp) with h | ⟨c, i, -, -, -, hmay, -⟩
  · exact h
  · exact absurd hmay.1 (hout _)

/-! ### `failExit` misses nobody -/

/-- `failExit` has not looked at `b.sessions` yet. -/
def ExitPC.unscanned : ExitPC → Bool
  | .gone | .nodeDown | .publishGone | .scan => true
  | _ => false

/-- The connection of goroutine `c` is still to be closed, or has been. -/
inductive ToClose (r : Conn) (tr : List (Event State Action Out)) (b : State) (c : Conn) : Prop
  | unscanned (pc : (b.exitT r).pc.unscanned = true)
  | affected (pc : (b.exitT r).pc = .notify ∨ (b.exitT r).pc = .close)
      (mem : (b.client c).s ∈ (b.exitT r).affected)
  | closed (mem : c ∈ closedBy r tr)

/-- A goroutine that has told its exit of its session keeps both. -/
theorem told_same (hb : Books cfg b a b' o) {c : Conn} (hc : (b.client c).pc.told = true)
    (hc' : (b'.client c).pc.told = true) :
    (b'.client c).s = (b.client c).s ∧ (b'.client c).ex = (b.client c).ex := by
  have hst : ∀ pc : ClientPC, pc.told = true → pc.stage ≠ .out := by
    intro pc
    cases pc <;> simp [ClientPC.told, ClientPC.stage]
  rcases hb.goroutine c with ⟨-, hsame⟩ | ⟨i, -, entry⟩
  · exact ⟨(hsame (hst _ hc)).1, (hsame (hst _ hc)).2.1⟩
  · cases entry with
    | announce => simp
    | insert hpc => rw [hpc] at hc; cases hc
    | count pc' hpc => rcases hpc with ⟨hpc, -⟩ | ⟨hpc, -⟩ <;> rw [hpc] at hc <;> cases hc
    | connect hpc | fail hpc => rw [hpc] at hc; cases hc
    | close pc' hpc => rcases hpc with ⟨-, rfl⟩ | ⟨-, rfl⟩ <;> simp [ClientPC.told] at hc'
    | _ => simp [ClientPC.told] at hc'

/-- The session of a goroutine of `r` is among those `failExit` finds. -/
theorem mem_affectedBy (hinv : Inv b) {c : Conn} (hc : (b.client c).pc.phase = .holds)
    (hex : (b.client c).ex = r) : (b.client c).s ∈ affectedBy b r := by
  obtain ⟨-, -, hnode⟩ := hinv.attach.runs c (Or.inl hc)
  have hlisted := (hinv.rep.held c hc).1
  simp only [affectedBy, List.mem_filter, List.mem_map, decide_eq_true_eq]
  refine ⟨⟨⟨_, _⟩, GoMap.mem_entries.mpr hlisted, rfl⟩, ?_⟩
  rw [← hnode, hex]

theorem closedBy_append {c : Conn} (e : Event State Action Out) (h : c ∈ closedBy r tr) :
    c ∈ closedBy r (tr ++ [e]) := by
  simp only [closedBy, List.flatMap_append, List.mem_append] at h ⊢
  exact Or.inl h

theorem ToClose.step {c : Conn} (h : ToClose r tr b c) (hinv : Inv b)
    (hs : step cfg b a = some (b', o)) (hc : (b.client c).pc.phase = .holds)
    (hex : (b.client c).ex = r) (hsame : (b'.client c).s = (b.client c).s) :
    ToClose r (tr ++ [⟨b, a, o, b'⟩]) b' c := by
  have hview := (step_regMove hs).exitView r
  cases h with
  | closed hmem => exact .closed (closedBy_append _ hmem)
  | unscanned hun =>
    cases hview with
    | stay same => exact .unscanned (by rw [same]; exact hun)
    | walk hw =>
      refine .unscanned ?_
      revert hun hw
      cases (b.exitT r).pc <;> cases (b'.exitT r).pc <;> simp [ExitPC.unscanned, ExitPC.walks]
    | delete _ pc' | down _ pc' => exact .unscanned (by rw [pc']; rfl)
    | scan _ _ _ pc' affected =>
      -- the session is found
      have hmem := mem_affectedBy hinv hc hex
      rw [if_neg (List.ne_nil_of_mem hmem)] at pc'
      exact .affected (Or.inl pc') (by rw [hsame, affected]; exact hmem)
    | start _ _ unused => rw [unused.2] at hun; cases hun
    | up pc | close _ _ _ _ pc => rw [pc] at hun; cases hun
  | affected haff hmem =>
    cases hview with
    | stay same => exact .affected (by rwa [same]) (by rwa [same, hsame])
    | walk hw affected =>
      refine .affected ?_ (by rw [hsame, affected]; exact hmem)
      revert haff hw
      cases (b.exitT r).pc <;> cases (b'.exitT r).pc <;> simp [ExitPC.walks]
    | close ok p rest act pc pc' before after out =>
      by_cases hp : (b.client c).s = p
      · -- it is the one whose connection is closed now
        refine .closed (mem_closedBy.mpr ⟨_, List.mem_append_right _ (List.mem_singleton_self _),
          ok, act, ?_⟩)
        have hconn := (hinv.rep.held c hc).2
        rw [hp] at hconn
        rw [out, hconn]
        exact List.mem_singleton_self _
      · rw [before, List.mem_cons] at hmem
        have hrest := hmem.resolve_left hp
        rw [if_neg (List.ne_nil_of_mem hrest)] at pc'
        exact .affected (Or.inl pc') (by rw [hsame, after]; exact hrest)
    | start _ _ unused => rw [unused.2] at haff; rcases haff with h | h <;> cases h
    | up pc | delete pc | down pc | scan _ _ pc =>
      rw [pc] at haff
      rcases haff with h | h <;> cases h

/-! ### What becomes of a session -/

/-- A session of `r` runs there, or has left the maps with its address
released. In the second case, if no `endSession` removed it, the tracker
still holds it only while its goroutine owes it the `Disconnect`. -/
inductive Fate (r p : Conn) (tr : List (Event State Action Out)) (b : State) : Prop
  | runs (live : b.Live p) (exitConn : (b.sess p).exitConn = r)
  | ended (made : b.Made p) (dead : ¬ b.Live p) (released : 1 ≤ releases tr p)
      (tracked : (∀ e ∈ tr, ¬ FailsOn r e.pre e.act) → b.key p ∈ b.qos.sessions →
        ∃ c, (b.client c).pc.stage = .closing ∧ (b.client c).s = p ∧ (b.client c).ex = r)

theorem releases_append (tr tr' : List (Event State Action Out)) (p : Conn) :
    releases (tr ++ tr') p = releases tr p + releases tr' p := by
  simp [releases, List.countP_append]

theorem Fate.step {p : Conn} (h : Fate r p tr b) (hinv : Inv b) (hnew : Newborn b)
    (hpark : NoneParked r b) (hs : step cfg b a = some (b', o)) :
    Fate r p (tr ++ [⟨b, a, o, b'⟩]) b' := by
  have hm := step_move hs
  have hrep := hinv.rep
  cases h with
  | runs hlive hr =>
    have hmade := hrep.made p hlive
    have hout : ∀ k, b.parked.lookup k ≠ some p := fun k hk => hpark.lookup hk hr
    by_cases hlive' : b'.Live p
    · exact .runs hlive' ((exitConn_of_running hm hrep hmade hout).trans hr)
    rcases hm.ends hrep hlive hlive' with ⟨c, i, pc', rfl, hsp, hpc, heq, rfl⟩ | ⟨k, hk, -⟩ |
        ⟨c, i, -, -, hk, -⟩
    · have hph := holds_of_leaving (hpc.imp And.left And.left)
      have hex : (b.client c).ex = r := by rw [hinv.attach.held c hph, hsp, hr]
      refine .ended (made_of_move hrep hm hmade) hlive' ?_ fun hF _ => ?_
      · rw [releases_append]
        simp [releases, Out.isRelease]
      · rcases hpc with ⟨-, rfl⟩ | ⟨hpc, -⟩
        · refine ⟨c, ?_⟩
          rw [heq]
          simp [ClientPC.stage, hsp, hex]
        · exact absurd ⟨hpc, hex⟩ (hF _ (List.mem_append_right _ (List.mem_singleton_self _)))
    · exact absurd hk (hout _)
    · exact absurd hk (hout _)
  | ended hmade hdead hrel htr =>
    refine .ended (made_of_move hrep hm hmade) (dead_of_move hrep hm hmade hdead) ?_ fun hF hk => ?_
    · rw [releases_append]
      exact Nat.le_add_right_of_le hrel
    · rw [key_of_move hrep hm hmade] at hk
      rcases tracked_of_step hs hk with ⟨hk, hkeep⟩ | ⟨c, i, rfl, hpc, hkc⟩
      · obtain ⟨c, hst, hsp, hex⟩ := htr (fun e he => hF e (List.mem_append_left _ he)) hk
        rcases (books_of_step hs).debtor hst with ⟨h1, h2, h3⟩ | ⟨hpc, i, ha⟩
        · exact ⟨c, h1, h2.trans hsp, h3.trans hex⟩
        · exact absurd (by rw [hsp]) (hkeep c i ha hpc)
      · -- a session that is being connected is in the maps
        have hfresh : b.Fresh c := Or.inr (by rw [hpc]; rfl)
        rw [(hnew c hfresh).2] at hkc
        obtain rfl := key_inj hrep hmade hkc
        exact absurd (hnew.live hrep hfresh) hdead

/-! ### Runs -/

/-- What holds after the loss of registration `r` in step `e`. -/
structure Losing (r : Conn) (e : Event State Action Out) (tr : List (Event State Action Out))
    (b : State) : Prop where
  parked : NoneParked r b
  told : ∀ c, (b.client c).pc.told = true → (b.client c).ex = r → ToClose r tr b c
  fate : ∀ p, (∃ x ∈ e :: tr, x.post.Live p ∧ (x.post.sess p).exitConn = r) → Fate r p tr b

theorem Losing.step {e : Event State Action Out} (h : Losing r e tr b) (hinv : Inv b)
    (hnew : Newborn b) (hs : step cfg b a = some (b', o)) (hC : ¬ ParksOn cfg r b a)
    (hdead : ∀ m, Out.ctrl r m ∉ o) : Losing r e (tr ++ [⟨b, a, o, b'⟩]) b' := by
  refine ⟨h.parked.step hinv (step_move hs) hC, fun c hc hex => ?_, ?_⟩
  · rcases (says_of_step hinv.timers hs).told hc with htold | ⟨hpc, i, rfl⟩
    · obtain ⟨h1, h2⟩ := told_same (books_of_step hs) htold hc
      rw [h2] at hex
      exact (h.told c htold hex).step hinv hs (told_holds htold) hex h1
    · -- the write of `MsgSessionStart` fails
      simp only [Broker.step, clientStep, hpc, Option.some.injEq, Prod.mk.injEq] at hs
      obtain ⟨rfl, rfl⟩ := hs
      simp only [State.setClient_client, Function.update_self] at hc hex
      cases hok : i.ok with
      | false => rw [hok] at hc; cases hc
      | true =>
        rw [hok, hex] at hdead
        exact absurd (List.mem_singleton_self _) (hdead _)
  · rintro p ⟨x, hx, hlive, hr⟩
    rw [← List.cons_append, List.mem_append, List.mem_singleton] at hx
    rcases hx with hx | rfl
    · exact (h.fate p ⟨x, hx, hlive, hr⟩).step hinv hnew h.parked hs
    · exact .runs hlive hr

theorem losing_of_run {e : Event State Action Out} {tr₁ tr₂ : List (Event State Action Out)}
    (h : (machine cfg users).Run (tr₁ ++ e :: tr₂) b) (hr : e.act = .exitGone r)
    (hdead : ∀ x ∈ tr₂, ∀ m, Out.ctrl r m ∉ x.out) (hpark : NoneParked r e.pre)
    (hC : ∀ x ∈ tr₂, ¬ ParksOn cfg r x.pre x.act) : Losing r e tr₂ b := by
  have h' : (machine cfg users).Run ((tr₁ ++ [e]) ++ tr₂) b := by simpa using h
  refine h'.invariant_since (I := Losing r e)
    (C := fun x => ¬ ParksOn cfg r x.pre x.act ∧ ∀ m, Out.ctrl r m ∉ x.out) ?_ ?_
    fun x hx => ⟨hC x hx, hdead x hx⟩
  · intro s hs
    obtain ⟨-, hstep, rfl⟩ := hs.last
    have hstep : step cfg e.pre e.act = some (e.post, e.out) := hstep
    rw [hr] at hstep
    simp only [step] at hstep
    split_ifs at hstep with hpc
    obtain ⟨hpost, -⟩ := Prod.mk.inj (Option.some.inj hstep)
    refine ⟨?_, fun c _ _ => .unscanned ?_, ?_⟩
    · rw [← hpost]
      exact hpark
    · rw [← hpost]
      simp [ExitPC.unscanned]
    · rintro p ⟨x, hx, hlive, hexit⟩
      obtain rfl := List.mem_singleton.mp hx
      exact .runs hlive hexit
  · rintro tr s a s' o hrun hl hs ⟨hno, hnw⟩
    exact hl.step (Inv.of_run hrun) (Newborn.of_run hrun) hs hno hnw

/-- **The loss of an exit ends its sessions.** If no session of the lost
registration was parked then and none is parked later, no session that was
attached to it at the loss or later is left in the maps, and each has had its
address released once; and if none of them was removed by `endSession`, none
is left in the tracker. -/
theorem loss_ends_sessions {e : Event State Action Out} {tr₁ tr₂ : List (Event State Action Out)}
    (h : Lost cfg users r tr₁ e tr₂ b) (hpark : NoneParked r e.pre)
    (hC : ∀ x ∈ tr₂, ¬ ParksOn cfg r x.pre x.act) {p : Conn}
    (hp : ∃ x ∈ e :: tr₂, x.post.Live p ∧ (x.post.sess p).exitConn = r) :
    ¬ b.Live p ∧ releases (tr₁ ++ e :: tr₂) p = 1 ∧
      ((∀ x ∈ tr₂, ¬ FailsOn r x.pre x.act) → b.key p ∉ b.qos.sessions) := by
  obtain ⟨h, hr, hdead, hun⟩ := h
  have hl := losing_of_run h hr hdead hpark hC
  have hinv := Inv.of_run h
  cases hl.fate p hp with
  | runs hlive hexit =>
    -- its goroutine would wait in `relayLoop`, and `failExit` has closed it
    exfalso
    rcases hlive with ⟨i, hi⟩ | ⟨k, hk⟩
    · obtain ⟨hph, hsp⟩ := hinv.rep.holder i p hi
      have hex := hinv.attach.held _ hph
      rw [hsp, hexit] at hex
      have hbusy := hun.handlers _ hex
      have hrelay : (b.client (b.sess p).clientConn).pc = .relay := by
        revert hph hbusy
        cases (b.client (b.sess p).clientConn).pc <;> simp [ClientPC.phase, ClientPC.busy]
      cases hl.told _ (by rw [hrelay]; rfl) hex with
      | unscanned hpc => rw [hun.exit] at hpc; cases hpc
      | affected hpc => rw [hun.exit] at hpc; rcases hpc with hpc | hpc <;> cases hpc
      | closed hmem =>
        have hdone := hun.closed _ hmem
        rw [hrelay] at hdone
        cases hdone
    · exact hl.parked.lookup hk hexit
  | ended hmade hnl hrel htr =>
    refine ⟨hnl, ?_, fun hF hk => ?_⟩
    · have hsum : releases (tr₁ ++ e :: tr₂) p = releases (tr₁ ++ [e]) p + releases tr₂ p := by
        rw [← releases_append]
        simp
      rcases releases_of_run h p with h0 | ⟨h1, -⟩
      · omega
      · exact h1
    · obtain ⟨c, hst, -, hex⟩ := htr hF hk
      have hbusy := hun.handlers c hex
      revert hst hbusy
      cases (b.client c).pc <;> simp [ClientPC.stage, ClientPC.busy]

/-- The output is a control message to `r`. -/
def Out.isCtrl (r : Conn) : Out → Bool
  | .ctrl d _ => d = r
  | _ => false

/-- After the loss of registration `r`, no write to it succeeds, and the
goroutines of the first `N` connections have unwound. -/
def LostUpTo (r N : ℕ) (tr : List (Event State Action Out)) (b : State) : Prop :=
  (∀ e ∈ tr, ∀ m ∈ e.out, m.isCtrl r = false) ∧ (b.exitT r).pc = .done ∧
    (∀ c ∈ closedBy r tr, (b.client c).pc = .done) ∧
    ∀ c < N, (b.client c).ex = r → (b.client c).pc.busy = false

instance (r N : ℕ) (tr : List (Event State Action Out)) (b : State) :
    Decidable (LostUpTo r N tr b) := inferInstanceAs (Decidable (_ ∧ _ ∧ _ ∧ _))

/-- A script with the loss of registration `r` in it, on the first `N`
connections. -/
theorem exists_lost (cfg : Config) (users : Userstore.Table) (r N : ℕ) (as₁ as₂ : List Action)
    {P : State → State → List (Event State Action Out) → State → Prop}
    (h : ∃ x ∈ (machine cfg users).exec (newBroker users) as₁,
      ∃ y ∈ step cfg x.2 (.exitGone r), ∃ z ∈ (machine cfg users).exec y.1 as₂,
      (∀ e ∈ x.1 ++ z.1, Few N e.act) ∧ LostUpTo r N z.1 z.2 ∧ P x.2 y.1 z.1 z.2) :
    ∃ tr₁ e tr₂ b, Lost cfg users r tr₁ e tr₂ b ∧ P e.pre e.post tr₂ b := by
  obtain ⟨⟨tr₁, b₁⟩, hx, ⟨b₂, o⟩, hy, ⟨tr₂, b⟩, hz, hfew, ⟨hdead, hexit, hclosed, hbusy⟩, hP⟩ := h
  have hrun₁ : (machine cfg users).Run (tr₁ ++ [⟨b₁, .exitGone r, o, b₂⟩]) b₂ :=
    ((machine cfg users).run_exec hx).snoc hy
  have hrun := (machine cfg users).run_append_exec as₂ hrun₁ hz
  have hfew : ∀ e ∈ tr₁ ++ [⟨b₁, .exitGone r, o, b₂⟩] ++ tr₂, Few N e.act := by
    intro e he
    simp only [List.mem_append, List.mem_singleton] at he
    rcases he with (he | rfl) | he
    · exact hfew e (List.mem_append_left _ he)
    · trivial
    · exact hfew e (List.mem_append_right _ he)
  refine ⟨tr₁, ⟨b₁, .exitGone r, o, b₂⟩, tr₂, b, ⟨by simpa using hrun, rfl, ?_, hexit, hclosed, ?_⟩, hP⟩
  · intro e he m hm
    have := hdead e he _ hm
    simp [Out.isCtrl] at this
  · intro c hex
    rcases lt_or_ge c N with hc | hc
    · exact hbusy c hc hex
    · rw [(unused_of_few hrun hfew hc).1]
      rfl

/-- A client without a resume key is on the exit that is lost. -/
theorem loss_ends_sessions_one_client : ∃ tr₁ e tr₂ b, Lost {} aliceStore 0 tr₁ e tr₂ b ∧
    e.pre.sessions.lookup 1 = some 1 ∧ ¬ b.Live 1 ∧ releases (tr₁ ++ e :: tr₂) 1 = 1 ∧
    b.key 1 ∉ b.qos.sessions := by
  obtain ⟨tr₁, e, tr₂, b, hlost, hpre, hpost, hexit, hpark, hC, hF⟩ :=
    exists_lost {} aliceStore 0 2
    (registers 0 (node "e1" "us" 0) ++
      joins 1 (aliceConnect "us" ""))
    (List.replicate 6 (.exit 0 true) ++ [.drop 1 (.application 0), .client 1 {},
      .client 1 { ok := false }, .client 1 {}, .client 1 {}])
    (P := fun b₁ b₂ tr b => b₁.sessions.lookup 1 = some 1 ∧ b₂.sessions.lookup 1 = some 1 ∧
      (b₂.sess 1).exitConn = 0 ∧ NoneParked 0 b₁ ∧ (∀ x ∈ tr, ¬ ParksOn {} 0 x.pre x.act) ∧
      ∀ x ∈ tr, ¬ FailsOn 0 x.pre x.act)
    (by decide +kernel)
  obtain ⟨h1, h2, h3⟩ := loss_ends_sessions hlost hpark hC
    ⟨e, List.mem_cons_self, live_of_sessions hpost, hexit⟩
  exact ⟨tr₁, e, tr₂, b, hlost, hpre, h1, h2, h3 hF⟩

/-- A client with a resume key is parked after the loss of its exit; and a
client that had chosen the exit just before the loss stays with the
tracker. -/
theorem loss_leaves_sessions :
    (∃ tr₁ e tr₂ b, Lost {} aliceStore 0 tr₁ e tr₂ b ∧ e.post.sessions.lookup 1 = some 1 ∧
      (e.post.sess 1).exitConn = 0 ∧ b.exits.lookup "e1" = none ∧ b.parked.lookup "k" = some 1 ∧
      (b.qos.sessions.lookup "1").isSome) ∧
    ∃ tr₁ e tr₂ b, Lost {} aliceStore 0 tr₁ e tr₂ b ∧ e.post.sessions.lookup 1 = some 1 ∧
      (e.post.sess 1).exitConn = 0 ∧ b.exits.lookup "e1" = none ∧ b.sessions.entries = [] ∧
      b.parked.entries = [] ∧ (b.qos.sessions.lookup "1").isSome := by
  constructor
  · obtain ⟨tr₁, e, tr₂, b, hlost, h⟩ := exists_lost {} aliceStore 0 2
      (registers 0 (node "e1" "us" 0) ++
        joins 1 (aliceConnect "us" "k"))
      (List.replicate 6 (.exit 0 true) ++
        [.drop 1 (.application 0), .client 1 {}, .client 1 { ok := false }])
      (P := fun _ b₂ _ b => b₂.sessions.lookup 1 = some 1 ∧ (b₂.sess 1).exitConn = 0 ∧
        b.exits.lookup "e1" = none ∧ b.parked.lookup "k" = some 1 ∧
        (b.qos.sessions.lookup "1").isSome)
      (by decide +kernel)
    exact ⟨tr₁, e, tr₂, b, hlost, h⟩
  · obtain ⟨tr₁, e, tr₂, b, hlost, h⟩ := exists_lost {} aliceStore 0 2
      (registers 0 (node "e1" "us" 0) ++
        .connect 1 (aliceConnect "us" "") :: List.replicate 7 (.client 1 {}))
      (List.replicate 6 (.exit 0 true) ++ [.client 1 { ok := false }, .client 1 {}, .client 1 {},
        .client 1 { ok := false }])
      (P := fun _ b₂ _ b => b₂.sessions.lookup 1 = some 1 ∧ (b₂.sess 1).exitConn = 0 ∧
        b.exits.lookup "e1" = none ∧ b.sessions.entries = [] ∧ b.parked.entries = [] ∧
        (b.qos.sessions.lookup "1").isSome)
      (by decide +kernel)
    exact ⟨tr₁, e, tr₂, b, hlost, h⟩

end
end Broker
end Revquic
