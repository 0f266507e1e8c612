/-
# Regions

A `Connect` is authorised for the region it asks for. An exit chosen for it
serves that region; `tryResume` takes the exit of the parked session and
looks neither at its region nor at the one that was asked for. Every
`MsgConnectOK` comes with an exit in the region of its `Connect` when the
exits of the resumed sessions are.

Key definitions: `InRegion`, `ResumesInRegion`, `Regional`.
Key theorem: `region_of_resumes_in_region`.
-/
import Revquic.Broker.Attach

namespace Revquic
namespace Broker

open Lib Netip Ippool Proto

/-- Every session a step announces to a client is attached to an exit in the
region the client asked for. -/
def InRegion (e : Event State Action Out) : Prop :=
  ∀ c sid ip mask mtu ice, Out.ctrl c (.connectOK sid ip mask mtu ice) ∈ e.out →
    ∃ p, e.pre.sessions.lookup sid = some p ∧
      (e.pre.node (e.pre.sess p).exitConn).region = (e.pre.client c).msg.requestedRegion

/-- A session that is resumed has its exit in the region that is asked for. -/
def ResumesInRegion (cfg : Config) (b : State) : Action → Prop
  | .client c _ => ∀ p ∈ b.parked.lookup (b.client c).msg.resumeKey, b.resumes cfg c p →
      ∀ r ∈ b.exits.lookup (b.sess p).nodeID, (b.node r).region = (b.client c).msg.requestedRegion
  | _ => True

instance (cfg : Config) (b : State) : DecidablePred (ResumesInRegion cfg b)
  | .client _ _ => inferInstanceAs (Decidable (∀ _ ∈ _, _))
  | .tick _ | .users _ | .connect _ _ | .drop _ _ | .clientCtrl _ _ _ | .register _ _ | .exit _ _
  | .exitCtrl _ _ _ | .exitGone _ | .datagram _ _ | .fire _ | .timer _ _ => isTrue trivial

/-- The goroutine has been given an exit for a session. -/
def ClientPC.given (pc : ClientPC) : Prop := pc.picks ∨ pc.phase = .holds

/-- The exit a goroutine has been given is in the region that was asked
for. -/
def Regional (b : State) : Prop :=
  ∀ c, (b.client c).pc.given → (b.node (b.client c).ex).region = (b.client c).msg.requestedRegion

section
variable {cfg : Config} {users : Userstore.Table} {b b' : State} {a : Action} {o : List Out}
  {tr : List (Event State Action Out)}

theorem given_regs (hinv : Inv b) {c : Conn} (h : (b.client c).pc.given) :
    (b.client c).ex ∈ b.regs := by
  rcases h with hp | hp
  · obtain ⟨n, hn⟩ := hinv.attach.picked c hp
    exact hn.1
  · exact (hinv.attach.runs c (Or.inl hp)).2.1

theorem after_not_given {pc : ClientPC} (h : pc.phase = .after) : ¬ pc.given := by
  rintro (hp | hp)
  · exact not_picks_of_born (Or.inr h) hp
  · rw [h] at hp; cases hp

/-- Goroutine `c` keeps its exit, or is given one in its region. -/
theorem Regional.update (h : Regional b) (hinv : Inv b)
    (hreg : ∀ r ∈ b.regs, (b'.node r).region = (b.node r).region) {c : Conn} {t : ClientThread}
    (client : b'.client = Function.update b.client c t)
    (ht : t.pc.given →
      (b.client c).pc.given ∧ t.ex = (b.client c).ex ∧ t.msg = (b.client c).msg ∨
      t.ex ∈ b.regs ∧ (b.node t.ex).region = t.msg.requestedRegion) : Regional b' := by
  intro d hd
  rw [client] at hd ⊢
  by_cases hdc : d = c
  · subst hdc
    rw [Function.update_self] at hd ⊢
    rcases ht hd with ⟨hg, hex, hmsg⟩ | ⟨hr, hx⟩
    · rw [hex, hmsg, hreg _ (given_regs hinv hg)]
      exact h d hg
    · rw [hreg _ hr]
      exact hx
  · rw [Function.update_of_ne hdc] at hd ⊢
    rw [hreg _ (given_regs hinv hd)]
    exact h d hd

theorem Regional.same (h : Regional b) (hinv : Inv b)
    (hreg : ∀ r ∈ b.regs, (b'.node r).region = (b.node r).region)
    (client : b'.client = b.client) : Regional b' := by
  intro d hd
  rw [client] at hd ⊢
  rw [hreg _ (given_regs hinv hd)]
  exact h d hd

theorem Regional.move (h : Regional b) (hinv : Inv b) (hm : Move cfg b a b' o)
    (hreg : ∀ r ∈ b.regs, (b'.node r).region = (b.node r).region)
    (hC : ResumesInRegion cfg b a) : Regional b' := by
  cases hm with
  | env _ client => exact h.same hinv hreg client
  | connect c msg =>
    refine h.update hinv hreg rfl fun hg => ?_
    rcases hg with (hg | hg | hg) | hg <;> cases hg
  | register c msg =>
    exact h.same hinv hreg (handleExit_client cfg b c msg)
  | walk c t' _ client _ _ hw =>
    refine h.update hinv hreg client fun hg => Or.inl ?_
    have hb : (b.client c).pc.phase = .holds := hw.compat.back (hg.resolve_left hw.not_picks)
    exact ⟨Or.inr hb, (hw.same (by rw [hb]; decide)).2.2.1, hw.msg⟩
  | choose c i ex rr hpc hch =>
    obtain ⟨⟨n, hn, -⟩, hregion, -⟩ := chooseExit_spec hinv.reg hch
    exact h.update (t := { b.client c with pc := .chosen, ex }) hinv hreg rfl fun _ =>
      Or.inr ⟨(hinv.reg.exits n ex hn).1, hregion⟩
  | draw c i hpc =>
    exact h.update hinv hreg rfl fun _ => Or.inl ⟨Or.inl (Or.inl hpc), rfl, rfl⟩
  | alloc c i addr pool hpc =>
    exact h.update hinv hreg rfl fun _ =>
      Or.inl ⟨Or.inl (Or.inr (Or.inl (by rw [hpc]; rfl))), rfl, rfl⟩
  | insert c i hpc =>
    exact h.update hinv hreg rfl fun _ =>
      Or.inl ⟨Or.inl (Or.inr (Or.inr (by rw [hpc]; rfl))), rfl, rfl⟩
  | count c i hpc =>
    exact h.update hinv hreg rfl fun _ => Or.inl ⟨Or.inr (uncounted_holds hpc), rfl, rfl⟩
  | resume c i p ex hpc _ hf hu ht hx hlist =>
    have hres : b.resumes cfg c p := ⟨hpc, hlist, ⟨hf, hu, ht⟩, GoMap.mem_iff.mpr ⟨ex, hx⟩⟩
    exact h.update (t := { b.client c with pc := .resumed, s := p, ex }) hinv hreg rfl fun _ =>
      Or.inr ⟨(hinv.reg.exits _ ex hx).1, hC p hf hres ex hx⟩
  | park c i q | vanish c i =>
    exact h.update hinv hreg rfl fun hg => absurd hg (after_not_given rfl)
  | close c i q pc' hpc =>
    refine h.update hinv hreg rfl fun hg => absurd hg (after_not_given ?_)
    rcases hpc with ⟨-, rfl⟩ | ⟨-, rfl⟩ <;> rfl
  | expire => exact h.same hinv hreg rfl

theorem Regional.step (h : Regional b) (hinv : Inv b) (hs : step cfg b a = some (b', o))
    (hC : ResumesInRegion cfg b a) : Regional b' :=
  h.move hinv (step_move hs)
    (fun r hr => by rw [(hinv.reg.keep (step_regMove hs) hr).2]) hC

theorem Regional.of_run (h : (machine cfg users).Run tr b)
    (hC : ∀ e ∈ tr, ResumesInRegion cfg e.pre e.act) : Regional b := by
  refine (Machine.Run.invariant_of (I := fun b => Inv b ∧ Regional b)
    (C := fun e => ResumesInRegion cfg e.pre e.act) ⟨Inv.init users, ?_⟩ ?_ h hC).2
  · rintro c ((hg | hg | hg) | hg) <;> cases hg
  · intro s a s' o ⟨hi, hr⟩ hs hin
    exact ⟨hi.step hs, hr.step hi hs hin⟩

/-- **Every session announced to a client is on an exit in its region, in
every run that resumes sessions in their region only.** -/
theorem region_of_resumes_in_region (h : (machine cfg users).Run tr b)
    (hC : ∀ e ∈ tr, ResumesInRegion cfg e.pre e.act) : ∀ e ∈ tr, InRegion e := by
  intro e he c sid ip mask mtu ice ho
  obtain ⟨tr₁, tr₂, rfl, hr, hs⟩ := h.of_mem he
  have hinv := Inv.of_run hr
  have hreg := Regional.of_run hr fun e' he' => hC e' (List.mem_append_left _ he')
  obtain ⟨-, hpc, -, rfl, -⟩ := connectOK_written hinv.replies (says_of_step hinv.timers hs) ho
  have hph : (e.pre.client c).pc.phase = .holds := by rw [hpc]; rfl
  refine ⟨_, (hinv.rep.held c hph).1, ?_⟩
  rw [← hinv.attach.held c hph]
  exact hreg c (Or.inr hph)

/-- A client drops and resumes its session in the same region. -/
theorem region_kept_on_resume : ∃ tr b, (machine {} aliceStore).Run tr b ∧
    (∃ e ∈ tr, Out.ctrl 2 (.connectOK 1 "10.99.0.2" "255.255.255.0" 1200 {}) ∈ e.out) ∧
    ∀ e ∈ tr, InRegion e := by
  obtain ⟨tr, b, hr, hok, hC⟩ := (machine {} aliceStore).exists_run
    (.register 0 (node "e1" "us" 0) :: joins 1 (aliceConnect "us" "k") ++
      [.drop 1 .other, .client 1 {}] ++ rejoins 2 (aliceConnect "us" "k"))
    (P := fun r =>
      (∃ e ∈ r.1, Out.ctrl 2 (.connectOK 1 "10.99.0.2" "255.255.255.0" 1200 {}) ∈ e.out) ∧
        ∀ e ∈ r.1, ResumesInRegion {} e.pre e.act)
    (by decide +kernel)
  exact ⟨tr, b, hr, hok, region_of_resumes_in_region hr hC⟩

/-- The user may not use region `us` any more, asks for `eu`, where there is
no exit at all, and gets the exit in `us` back. -/
theorem resume_leaves_region : ∃ tr b, (machine {} aliceStore).Run tr b ∧
    (b.users.recs 0).user.allowedRegions = ["eu"] ∧ ∃ e ∈ tr, ¬ InRegion e := by
  obtain ⟨tr, b, hr, hu, e, he, hok, hs, hx, hreq⟩ := (machine {} aliceStore).exists_run
    (.register 0 (node "e1" "us" 0) :: joins 1 (aliceConnect "us" "k") ++
      [.drop 1 .other, .client 1 {}, .users (aliceIn ["eu"])] ++ rejoins 2 (aliceConnect "eu" "k"))
    (P := fun r => (r.2.users.recs 0).user.allowedRegions = ["eu"] ∧
      ∃ e ∈ r.1, Out.ctrl 2 (.connectOK 1 "10.99.0.2" "255.255.255.0" 1200 {}) ∈ e.out ∧
        e.pre.sessions.lookup 1 = some 1 ∧ (e.pre.node (e.pre.sess 1).exitConn).region = "us" ∧
        (e.pre.client 2).msg.requestedRegion = "eu")
    (by decide +kernel)
  refine ⟨tr, b, hr, hu, e, he, fun hin => ?_⟩
  obtain ⟨p, hp, hregion⟩ := hin _ _ _ _ _ _ hok
  rw [hs] at hp
  obtain rfl := Option.some.inj hp
  rw [hx, hreq] at hregion
  exact absurd hregion (by decide)

end
end Broker
end Revquic
