/-
# Who puts the routes back

The routes of a full-tunnel client go through stages: nothing is touched, the
route to the broker is pinned, the default route is replaced, and back.
`Stands` says what the routes are at each and where the two processes can be;
a step goes on to the next stage or stays. As long as the client runs, less
is needed: the route to the broker is there before the default route is
replaced, and nothing takes it away.

Key definitions: `Stage`, `Stands`, `Ended`, `Away`.
Key theorems: `Stands.step`, `routes_restored_iff`, `broker_outside_tunnel`.
-/
import Revquic.Client.Supervisor

namespace Revquic
namespace Client
namespace Supervisor

open Lib Netip

/-! ### How far the routes have been taken over -/

/-- The flags describe the host: its default route is the one by `-gw` and
`-gw-dev`, nothing is routed to the broker or into the tunnel yet. -/
structure Fits (cfg : Config) (t₀ : Table) (x g : BitVec 32) : Prop where
  full : cfg.full = true
  broker : readIPv4 cfg.brokerIP = some x
  gw : readIPv4 cfg.gw = some g
  dev : cfg.dev ≠ ""
  uplink : cfg.dev ≠ cfg.tun
  default : ∃ rest, t₀ .any = { hop := ⟨some g, cfg.dev⟩ } :: rest ∧ ∀ r ∈ rest, r.metric ≠ 0
  unpinned : ∀ r ∈ t₀ ⟨x, 32⟩, r.metric ≠ 0
  untunnelled : ∀ r ∈ t₀ .any ++ t₀ ⟨x, 32⟩, r.hop.dev ≠ cfg.tun

/-- Nothing is touched, the route to the broker is pinned, the default route is
replaced, the pinned route is deleted again, everything is put back. -/
inductive Stage
  | fresh
  | pinned
  | taken
  | cleared
  | restored
  deriving DecidableEq

namespace Stage

/-- Where the processes can be. -/
def allows (pc : PC) (child : Child) (routesUp : Bool) : Stage → Bool
  | fresh => (pc = .dialing || pc = .pin || pc = .dead) && child = .absent && !routesUp
  | pinned => (pc = .override || pc = .dead) && child = .absent && !routesUp
  | taken =>
    (pc = .spawn || pc = .dead) && child = .absent && !routesUp ||
      (pc = .dialing || pc = .up || pc = .dead) && !(child = .restoring || child = .done) && routesUp
  | cleared => pc = .dead && (child = .restoring || child = .killed)
  | restored => pc = .dead && child = .done

/-- The routes to the broker, where there were `rs` and `r` is pinned. -/
def host (r : Route String) (rs : List (Route String)) : Stage → List (Route String)
  | pinned | taken => r :: rs
  | _ => rs

/-- The default routes, where `rs` were there and `r` is the one into the
tunnel. -/
def default (r : Route String) (rs : List (Route String)) (tunUp : Bool) : Stage → List (Route String)
  | taken | cleared => if tunUp then r :: rs.tail else rs.tail
  | _ => rs

section
variable {st : Stage} {pc : PC} {child : Child} {up : Bool}

theorem allows_dead (h : st.allows pc child up = true) : st.allows .dead child up = true := by
  revert h
  cases st <;> cases pc <;> cases child <;> cases up <;> decide

theorem allows_killed (h : st.allows pc child up = true) (hrun : child.running = true) :
    st.allows pc .killed up = true := by
  revert h hrun
  cases st <;> cases pc <;> cases child <;> cases up <;> decide

theorem eq_of_pin (h : st.allows .pin child up = true) : st = .fresh ∧ child = .absent ∧ up = false := by
  revert h
  cases st <;> cases child <;> cases up <;> decide

theorem eq_of_override (h : st.allows .override child up = true) :
    st = .pinned ∧ child = .absent ∧ up = false := by
  revert h
  cases st <;> cases child <;> cases up <;> decide

theorem eq_of_spawn (h : st.allows .spawn child up = true) : st = .taken ∧ child = .absent := by
  revert h
  cases st <;> cases child <;> cases up <;> decide

theorem eq_of_waiting (h : st.allows pc .waiting up = true) : st = .taken := by
  revert h
  cases st <;> cases pc <;> cases up <;> decide

theorem eq_of_restoring (h : st.allows pc .restoring up = true) : st = .cleared ∧ pc = .dead := by
  revert h
  cases st <;> cases pc <;> cases up <;> decide

theorem allows_dialing (h : st.allows .up child up = true) : st.allows .dialing child up = true := by
  revert h
  cases st <;> cases child <;> cases up <;> decide

theorem allows_welcome (h : st.allows .dialing child up = true) :
    st.allows (if up = false then .pin else .up) child up = true := by
  revert h
  cases st <;> cases child <;> cases up <;> decide

end
end Stage

/-- The routes and the processes are as the stage says. -/
structure Stands (cfg : Config) (t₀ : Table) (x g : BitVec 32) (s : State) (st : Stage) : Prop where
  host : s.table ⟨x, 32⟩ = st.host { hop := ⟨some g, cfg.dev⟩ } (t₀ ⟨x, 32⟩)
  default : s.table .any = st.default { hop := ⟨none, cfg.tun⟩ } (t₀ .any) s.tunUp
  allows : st.allows s.pc s.child s.routesUp = true
  dead : s.tunUp = false → s.pc = .dead

/-- The commands that put the routes back or pin one run. -/
def Action.runs : Action → Bool
  | .pin ok | .eof ok | .restore ok => ok
  | _ => true

/-- A supervisor is started. -/
def Action.spawns : Action → Bool
  | .spawn ok => ok
  | _ => false

def Action.pins : Action → Bool
  | .pin _ => true
  | _ => false

section
variable {cfg : Config} {t₀ : Table} {x g : BitVec 32} {s s' : State} {a : Action} {st : Stage}

theorem readIPv4_empty : readIPv4 "" = none := by decide

theorem Fits.brokerIP_ne (h : Fits cfg t₀ x g) : cfg.brokerIP ≠ "" := by
  intro he
  have hb := h.broker
  rw [he, readIPv4_empty] at hb
  cases hb

theorem Fits.gw_ne (h : Fits cfg t₀ x g) : cfg.gw ≠ "" := by
  intro he
  have hb := h.gw
  rw [he, readIPv4_empty] at hb
  cases hb

theorem host_ne_any (x : BitVec 32) : (⟨x, 32⟩ : Net) ≠ .any := by
  intro h
  cases congrArg Net.len h

theorem Fits.filter_tail (h : Fits cfg t₀ x g) :
    (t₀ .any).tail.filter (fun r => r.metric ≠ 0) = (t₀ .any).tail := by
  obtain ⟨rest, hd, hrest⟩ := h.default
  rw [hd, List.tail_cons, List.filter_eq_self]
  exact fun r hr => decide_eq_true (hrest r hr)

theorem Fits.filter_tun (h : Fits cfg t₀ x g) {rs : List (Route String)}
    (hrs : rs ⊆ t₀ .any ++ t₀ ⟨x, 32⟩) : rs.filter (fun r => r.hop.dev ≠ cfg.tun) = rs := by
  rw [List.filter_eq_self]
  exact fun r hr => decide_eq_true (h.untunnelled r (hrs hr))

/-- What the device takes with it. -/
theorem Fits.flush_host (h : Fits cfg t₀ x g) (st : Stage) :
    (st.host { hop := ⟨some g, cfg.dev⟩ } (t₀ ⟨x, 32⟩)).filter (fun r => r.hop.dev ≠ cfg.tun) =
      st.host { hop := ⟨some g, cfg.dev⟩ } (t₀ ⟨x, 32⟩) := by
  have hrest := h.filter_tun (List.subset_append_right (t₀ .any) (t₀ ⟨x, 32⟩))
  cases st with
  | pinned | taken =>
    rw [Stage.host, List.filter_cons_of_pos, hrest]
    exact decide_eq_true h.uplink
  | fresh | cleared | restored => exact hrest

theorem Fits.flush_default (h : Fits cfg t₀ x g) (st : Stage) :
    (st.default { hop := ⟨none, cfg.tun⟩ } (t₀ .any) true).filter (fun r => r.hop.dev ≠ cfg.tun) =
      st.default { hop := ⟨none, cfg.tun⟩ } (t₀ .any) false := by
  have hsub := List.subset_append_left (t₀ .any) (t₀ ⟨x, 32⟩)
  cases st with
  | taken | cleared =>
    have htail := h.filter_tun (fun r hr => hsub (List.mem_of_mem_tail hr))
    rw [Stage.default, if_pos rfl, List.filter_cons_of_neg (by simp), htail]
    rfl
  | fresh | pinned | restored => exact h.filter_tun hsub

/-- The default route goes back to where it was. -/
theorem Fits.replace_default (h : Fits cfg t₀ x g) (tunUp : Bool) :
    { hop := ⟨some g, cfg.dev⟩ } ::
        (Stage.cleared.default { hop := ⟨none, cfg.tun⟩ } (t₀ .any) tunUp).filter
          (fun r => r.metric ≠ 0) = t₀ .any := by
  obtain ⟨rest, hd, -⟩ := h.default
  have htail := h.filter_tail
  rw [hd, List.tail_cons] at htail
  cases tunUp with
  | true => rw [Stage.default, if_pos rfl, hd, List.tail_cons, List.filter_cons_of_neg (by simp), htail]
  | false => rw [Stage.default, if_neg Bool.false_ne_true, hd, List.tail_cons, htail]

theorem Fits.addHostRoute_eq (h : Fits cfg t₀ x g) {t : Table} (ht : t ⟨x, 32⟩ = t₀ ⟨x, 32⟩) :
    addHostRoute cfg true t = some (t.set ⟨x, 32⟩ ({ hop := ⟨some g, cfg.dev⟩ } :: t₀ ⟨x, 32⟩)) := by
  unfold addHostRoute
  simp only [h.broker, h.gw, if_true]
  rw [RouteTable.add_of_free, ht]
  rw [ht]
  exact h.unpinned

theorem Fits.cleanupHost_eq (h : Fits cfg t₀ x g) {t : Table} {r : Route String}
    {rs : List (Route String)} (ht : t ⟨x, 32⟩ = r :: rs) :
    cleanupHost cfg true t = t.set ⟨x, 32⟩ rs := by
  unfold cleanupHost
  simp only [h.brokerIP_ne, h.broker, RouteTable.del_first ht, ne_eq, not_false_eq_true, if_true,
    Option.getD_some]

theorem Fits.cleanupDefault_eq (h : Fits cfg t₀ x g) (t : Table) :
    cleanupDefault cfg true t = t.replace .any ⟨some g, cfg.dev⟩ := by
  unfold cleanupDefault
  simp only [h.full, h.gw_ne, h.dev, h.gw, ne_eq, not_false_eq_true, and_self, if_true]

/-- A step goes on to the next stage, or stays. -/
theorem Stands.step (h : Stands cfg t₀ x g s st) (hfit : Fits cfg t₀ x g) (hruns : a.runs = true)
    (hs : Stepped cfg s a s') :
    ∃ st', Stands cfg t₀ x g s' st' ∧ (st' = .fresh ↔ st = .fresh ∧ a.pins = false) := by
  have hall := h.allows
  -- the tunnel is up for as long as the client runs
  have hlive : s.pc ≠ .dead → s.tunUp = true := fun hpc => by
    by_contra hup
    exact hpc (h.dead (by simpa using hup))
  cases hs with
  | quiet hq _ hpin =>
    have hpins : a.pins = false := by
      cases a with
      | pin ok => exact absurd rfl (hpin ok)
      | _ => rfl
    refine ⟨st, ⟨by rw [hq.table, h.host], by rw [hq.table, hq.tunUp, h.default], ?_, ?_⟩, by simp [hpins]⟩
    · rw [hq.child, hq.routesUp]
      rcases hq.pc with hpc | hpc
      · rw [hpc, hall]
      · rw [hpc, Stage.allows_dead hall]
    · intro hup
      rw [hq.tunUp] at hup
      rcases hq.pc with hpc | hpc
      · rw [hpc, h.dead hup]
      · exact hpc
  | kill hk hrun htable htun hroutes hpc hchild =>
    have hpins : a.pins = false := by
      cases a with
      | signal => rfl
      | _ => cases hk
    refine ⟨st, ⟨by rw [htable, h.host], by rw [htable, htun, h.default], ?_, ?_⟩, by simp [hpins]⟩
    · rw [hpc, hchild, hroutes]
      exact Stage.allows_killed hall hrun
    · rw [htun, hpc]
      exact h.dead
  | welcome hpc =>
    refine ⟨st, ⟨h.host, h.default, ?_, ?_⟩, by simp [Action.pins]⟩
    · rw [hpc] at hall
      simp only [hfit.full, true_and]
      exact Stage.allows_welcome hall
    · simp [hlive (by rw [hpc]; decide)]
  | pin ok hpc =>
    rw [hpc] at hall
    obtain ⟨rfl, hchild, hroutes⟩ := Stage.eq_of_pin hall
    cases hruns
    have hadd := hfit.addHostRoute_eq h.host
    refine ⟨.pinned, ⟨?_, ?_, ?_, ?_⟩, by simp [Action.pins]⟩
    · simp only [hfit.brokerIP_ne, hfit.gw_ne, hfit.dev, ne_eq, not_false_eq_true, and_self, if_true, hadd,
        Option.getD_some, RouteTable.set_self]
      rfl
    · simp only [hfit.brokerIP_ne, hfit.gw_ne, hfit.dev, ne_eq, not_false_eq_true, and_self, if_true, hadd,
        Option.getD_some, RouteTable.set_of_ne (host_ne_any x).symm]
      exact h.default
    · rw [hchild, hroutes]
      rfl
    · simp [hlive (by rw [hpc]; decide)]
  | override hpc =>
    rw [hpc] at hall
    obtain ⟨rfl, hchild, hroutes⟩ := Stage.eq_of_override hall
    have hup := hlive (by rw [hpc]; decide)
    refine ⟨.taken, ⟨?_, ?_, ?_, ?_⟩, by simp⟩
    · show s.table.replace .any _ ⟨x, 32⟩ = _
      rw [RouteTable.replace_of_ne (host_ne_any x), h.host]
      rfl
    · show s.table.replace .any _ .any = Stage.taken.default _ _ s.tunUp
      have hd : s.table .any = t₀ .any := h.default
      obtain ⟨rest, hrest, hmetric⟩ := hfit.default
      have htail := hfit.filter_tail
      rw [RouteTable.replace_self, hd, hup, Stage.default, if_pos rfl]
      rw [hrest, List.tail_cons] at htail ⊢
      rw [List.filter_cons_of_neg (by simp), htail]
    · rw [hchild, hroutes]
      rfl
    · simp [hup]
  | spawn ok hpc =>
    rw [hpc] at hall
    obtain ⟨rfl, hchild⟩ := Stage.eq_of_spawn hall
    refine ⟨.taken, ⟨h.host, h.default, ?_, ?_⟩, by simp⟩
    · rw [hchild]
      cases ok <;> rfl
    · simp [hlive (by rw [hpc]; decide)]
  | drop hpc =>
    rw [hpc] at hall
    refine ⟨st, ⟨h.host, h.default, Stage.allows_dialing hall, ?_⟩, by simp [Action.pins]⟩
    simp [hlive (by rw [hpc]; decide)]
  | tunGone hpc hup =>
    have hd := h.default
    rw [hup] at hd
    refine ⟨st, ⟨?_, ?_, hall, fun _ => hpc⟩, by simp [Action.pins]⟩
    · show (s.table ⟨x, 32⟩).filter _ = _
      rw [h.host]
      exact hfit.flush_host st
    · show (s.table .any).filter _ = _
      rw [hd]
      exact hfit.flush_default st
  | eof ok hpc hchild =>
    rw [hchild] at hall
    obtain rfl := Stage.eq_of_waiting hall
    cases hruns
    have hclean := hfit.cleanupHost_eq h.host
    refine ⟨.cleared, ⟨?_, ?_, by rw [hpc]; rfl, fun _ => hpc⟩, by simp⟩
    · show cleanupHost cfg true s.table ⟨x, 32⟩ = _
      rw [hclean, RouteTable.set_self]
      rfl
    · show cleanupHost cfg true s.table .any = _
      rw [hclean, RouteTable.set_of_ne (host_ne_any x).symm]
      exact h.default
  | restore ok hchild =>
    rw [hchild] at hall
    obtain ⟨rfl, hpc⟩ := Stage.eq_of_restoring hall
    cases hruns
    refine ⟨.restored, ⟨?_, ?_, by rw [hpc]; rfl, fun _ => hpc⟩, by simp⟩
    · show cleanupDefault cfg true s.table ⟨x, 32⟩ = _
      rw [hfit.cleanupDefault_eq, RouteTable.replace_of_ne (host_ne_any x), h.host]
      rfl
    · show cleanupDefault cfg true s.table .any = t₀ .any
      rw [hfit.cleanupDefault_eq, RouteTable.replace_self, h.default]
      exact hfit.replace_default s.tunUp
  | other p rs hp =>
    simp only [Config.touches, hfit.broker, Option.map_some, Option.some.injEq, not_or] at hp
    refine ⟨st, ⟨?_, ?_, hall, h.dead⟩, by simp [Action.pins]⟩
    · show s.table.set p rs ⟨x, 32⟩ = _
      rw [RouteTable.set_of_ne hp.2]
      exact h.host
    · show s.table.set p rs .any = _
      rw [RouteTable.set_of_ne (Ne.symm hp.1)]
      exact h.default

/-! ### Every run -/

variable {tr : List (Event State Action Unit)}

theorem stepped_of_machine {o : List Unit} (hs : (machine cfg t₀).step s a = some (s', o)) :
    Stepped cfg s a s' := by
  simp only [machine, Option.map_eq_some_iff, Prod.mk.injEq] at hs
  obtain ⟨u, hu, rfl, -⟩ := hs
  exact stepped_of_step hu

theorem Stands.init : Stands cfg t₀ x g { table := t₀ } .fresh := ⟨rfl, rfl, rfl, nofun⟩

/-- The stage that a run has reached; it is the first as long as nothing was
pinned. -/
theorem stage_of_run (h : (machine cfg t₀).Run tr s) (hfit : Fits cfg t₀ x g) :
    (∀ e ∈ tr, e.act.runs = true) →
      ∃ st, Stands cfg t₀ x g s st ∧ (st = .fresh ↔ ∀ e ∈ tr, e.act.pins = false) := by
  induction h with
  | nil => exact fun _ => ⟨.fresh, .init, by simp⟩
  | @snoc tr s s' a o hr hs ih =>
    intro hruns
    obtain ⟨st, hst, hfresh⟩ := ih fun e he => hruns e (List.mem_append_left _ he)
    have hrun : a.runs = true := hruns ⟨s, a, o, s'⟩ (by simp)
    obtain ⟨st', hst', hfresh'⟩ := hst.step hfit hrun (stepped_of_machine hs)
    refine ⟨st', hst', ?_⟩
    rw [hfresh', hfresh]
    simp [or_imp, forall_and]

/-- A signal kills the supervisor. -/
def Strikes (e : Event State Action Unit) : Prop := e.pre.child.running = true ∧ e.act.kills = true

instance (e : Event State Action Unit) : Decidable (Strikes e) := inferInstanceAs (Decidable (_ ∧ _))

/-- What has become of the supervisor in a run. -/
theorem child_of_run (h : (machine cfg t₀).Run tr s) (hfit : Fits cfg t₀ x g) :
    (∀ e ∈ tr, e.act.runs = true) →
      (s.child ≠ .absent ↔ ∃ e ∈ tr, e.act.spawns = true) ∧ (s.child = .killed ↔ ∃ e ∈ tr, Strikes e) := by
  induction h with
  | nil => exact fun _ => ⟨by simp [machine], by simp [machine]⟩
  | @snoc tr s s' a o hr hs ih =>
    intro hruns
    have hruns' : ∀ e ∈ tr, e.act.runs = true := fun e he => hruns e (List.mem_append_left _ he)
    obtain ⟨hspawn, hkill⟩ := ih hruns'
    obtain ⟨st, hst, -⟩ := stage_of_run hr hfit hruns'
    have hsnoc : ∀ P : Event State Action Unit → Prop,
        (∃ e ∈ tr ++ [⟨s, a, o, s'⟩], P e) ↔ (∃ e ∈ tr, P e) ∨ P ⟨s, a, o, s'⟩ := by
      intro P
      simp [or_and_right, exists_or]
    rw [hsnoc, hsnoc, ← hspawn, ← hkill]
    show (s'.child ≠ .absent ↔ s.child ≠ .absent ∨ a.spawns = true) ∧
      (s'.child = .killed ↔ s.child = .killed ∨ s.child.running = true ∧ a.kills = true)
    cases stepped_of_machine hs with
    | quiet hq hspares _ hno =>
      have hspawns : a.spawns = false := by
        cases a with
        | spawn ok => exact absurd rfl (hno ok)
        | _ => rfl
      rw [hq.child]
      refine ⟨by simp [hspawns], ?_⟩
      by_cases hrun : s.child.running = true
      · simp [hspares hrun]
      · simp [hrun]
    | kill hk hrun _ _ _ _ hchild =>
      rw [hchild]
      refine ⟨?_, by simp [hk, hrun]⟩
      have hne : s.child ≠ .absent := by
        intro he
        rw [he] at hrun
        cases hrun
      simp [hne]
    | spawn ok hpc =>
      have hall := hst.allows
      rw [hpc] at hall
      rw [(Stage.eq_of_spawn hall).2]
      cases ok <;> simp [Action.kills, Action.spawns]
    | eof ok _ hchild | restore ok hchild => simp [hchild, Action.kills]
    | _ => simp [Action.kills, Action.spawns]

/-- The client is gone, with its device, and nobody is left to clean up. -/
structure Ended (s : State) : Prop where
  dead : s.pc = .dead
  tun : s.tunUp = false
  child : s.child.running = false

/-- **The routes are put back exactly if they were not touched, or if the
supervisor was started and no signal killed it.** -/
theorem routes_restored_iff (h : (machine cfg t₀).Run tr s) (hfit : Fits cfg t₀ x g)
    (hruns : ∀ e ∈ tr, e.act.runs = true) (hend : Ended s) :
    (s.table .any = t₀ .any ∧ s.table ⟨x, 32⟩ = t₀ ⟨x, 32⟩) ↔
      (∀ e ∈ tr, e.act.pins = false) ∨
        (∃ e ∈ tr, e.act.spawns = true) ∧ ∀ e ∈ tr, ¬ Strikes e := by
  obtain ⟨st, hst, hfresh⟩ := stage_of_run h hfit hruns
  obtain ⟨hspawn, hkill⟩ := child_of_run h hfit hruns
  have hnokill : (∀ e ∈ tr, ¬ Strikes e) ↔ s.child ≠ .killed := by
    rw [Ne, hkill]
    simp
  have hdone : ((∃ e ∈ tr, e.act.spawns = true) ∧ ∀ e ∈ tr, ¬ Strikes e) ↔ s.child = .done := by
    rw [← hspawn, hnokill]
    have hrun := hend.child
    generalize s.child = c at hrun
    cases c <;> simp at hrun ⊢ <;> cases hrun
  have hhost := hst.host
  have hdefault := hst.default
  have hall := hst.allows
  rw [hend.tun] at hdefault
  rw [hend.dead] at hall
  rw [hdone, ← hfresh, hhost, hdefault]
  obtain ⟨rest, hrest, -⟩ := hfit.default
  have htail : (t₀ .any).tail ≠ t₀ .any := by
    rw [hrest]
    exact fun he => List.cons_ne_self _ _ he.symm
  cases st with
  | fresh => simp [Stage.default, Stage.host]
  | pinned =>
    have hchild : s.child ≠ .done := by
      intro he
      rw [he] at hall
      cases hall
    simp [Stage.host, hchild]
  | taken | cleared =>
    have hchild : s.child ≠ .done := by
      intro he
      rw [he] at hall
      simp [Stage.allows] at hall
    simp [Stage.default, htail, hchild]
  | restored =>
    have hchild : s.child = .done := by simpa [Stage.allows] using hall
    simp [Stage.default, Stage.host, hchild]

/-- A host with two uplinks. -/
def hostRoutes : Table := fun p =>
  if p = .any then
    [{ hop := ⟨some 0xc0a80101#32, "eth0"⟩ }, { metric := 600, hop := ⟨some 0x0a000001#32, "wlan0"⟩ }]
  else []

def hostConfig : Config := { brokerIP := "203.0.113.7", gw := "192.168.1.1", dev := "eth0" }

theorem hostRoutes_fits : Fits hostConfig hostRoutes 0xcb007107#32 0xc0a80101#32 where
  full := rfl
  broker := by decide +kernel
  gw := by decide +kernel
  dev := by decide
  uplink := by decide
  default := ⟨_, rfl, by decide⟩
  unpinned := by decide
  untunnelled := by decide

/-- The client is killed between two connections; its supervisor deletes the
pinned route before the device is gone, and sets the default route after. -/
theorem routes_restored_iff_killed : ∃ tr s, (machine hostConfig hostRoutes).Run tr s ∧
    (∃ e ∈ tr, e.act.pins = true) ∧ s.table .any = hostRoutes .any := by
  obtain ⟨tr, s, hr, hruns, ⟨hdead, htun, hchild⟩, hpins, hspared⟩ :=
    (machine hostConfig hostRoutes).exists_run
    ([.welcome, .pin true, .override true, .spawn true, .signal .tstp false, .drop, .crash, .eof true,
      .tunGone, .restore true] : List Action)
    (P := fun r => (∀ e ∈ r.1, e.act.runs = true) ∧
      (r.2.pc = .dead ∧ r.2.tunUp = false ∧ r.2.child.running = false) ∧
      (∃ e ∈ r.1, e.act.pins = true) ∧
      (∃ e ∈ r.1, e.act.spawns = true) ∧ ∀ e ∈ r.1, ¬ Strikes e)
    (by decide +kernel)
  have hrestored := routes_restored_iff hr hostRoutes_fits hruns ⟨hdead, htun, hchild⟩
  exact ⟨tr, s, hr, hpins, (hrestored.2 (Or.inr hspared)).1⟩

/-- Ctrl-C, twice within the window: the first kills the supervisor. -/
example : ∃ tr s, (machine hostConfig hostRoutes).Run tr s ∧
    (s.pc = .dead ∧ s.child = .killed ∧ s.table .any = (hostRoutes .any).tail) :=
  (machine hostConfig hostRoutes).exists_run_of_exec
    ([.welcome, .pin true, .override true, .spawn true, .signal .int true, .handle, .tick 1000000000,
      .signal .int true, .handle, .tunGone] : List Action) (by decide +kernel)

/-! ### While the client runs -/

/-- No route to the broker leads into the tunnel. While the client runs there
is one before the default route is replaced, and from then on the default route
is the one into the tunnel. -/
structure Away (cfg : Config) (x : BitVec 32) (s : State) : Prop where
  away : ∀ r ∈ s.table ⟨x, 32⟩, r.hop.dev ≠ cfg.tun
  pinned : s.pc = .override ∨ s.pc = .spawn ∨ s.routesUp = true ∧ s.pc ≠ .dead → s.table ⟨x, 32⟩ ≠ []
  taken : s.pc = .spawn ∨ s.routesUp = true ∧ s.pc ≠ .dead →
    (s.table .any).head? = some { hop := ⟨none, cfg.tun⟩ }
  restoring : s.child = .restoring → s.pc = .dead

theorem Away.init (h : ∀ r ∈ t₀ ⟨x, 32⟩, r.hop.dev ≠ cfg.tun) : Away cfg x { table := t₀ } where
  away := h
  pinned hpc := by simp at hpc
  taken hpc := by simp at hpc
  restoring hc := by cases hc

/-- A step of the processes alone. -/
theorem Away.frame (h : Away cfg x s) (htable : s'.table = s.table) (hroutes : s'.routesUp = s.routesUp)
    (hpc : s'.pc = s.pc ∨ s'.pc = .dead) (hchild : s'.child = .restoring → s.child = .restoring) :
    Away cfg x s' where
  away := by rw [htable]; exact h.away
  pinned := by
    rw [htable, hroutes]
    rcases hpc with hpc | hpc
    · rw [hpc]
      exact h.pinned
    · simp [hpc]
  taken := by
    rw [htable, hroutes]
    rcases hpc with hpc | hpc
    · rw [hpc]
      exact h.taken
    · simp [hpc]
  restoring hc := by
    rcases hpc with hpc | hpc
    · rw [hpc]
      exact h.restoring (hchild hc)
    · exact hpc

/-- A step after the end of the client. -/
theorem Away.after (hpc : s'.pc = .dead) (h : ∀ r ∈ s'.table ⟨x, 32⟩, r.hop.dev ≠ cfg.tun) :
    Away cfg x s' where
  away := h
  pinned := by simp [hpc]
  taken := by simp [hpc]
  restoring _ := hpc

theorem cleanupHost_subset (ok : Bool) (t : Table) (p : Net) : cleanupHost cfg ok t p ⊆ t p := by
  unfold cleanupHost
  by_cases hb : cfg.brokerIP ≠ ""
  · rw [if_pos hb]
    cases readIPv4 cfg.brokerIP with
    | none => exact List.Subset.refl _
    | some y =>
      cases ok with
      | true => exact RouteTable.del_subset none
      | false => exact List.Subset.refl _
  · rw [if_neg hb]
    exact List.Subset.refl _

theorem cleanupDefault_of_ne (ok : Bool) (t : Table) {p : Net} (hp : p ≠ .any) :
    cleanupDefault cfg ok t p = t p := by
  unfold cleanupDefault
  cases cfg.full with
  | false => rfl
  | true =>
    rw [if_pos rfl]
    by_cases hset : cfg.gw ≠ "" ∧ cfg.dev ≠ ""
    · rw [if_pos hset]
      cases readIPv4 cfg.gw with
      | none => rfl
      | some y =>
        cases ok with
        | true => exact RouteTable.replace_of_ne hp
        | false => rfl
    · rw [if_neg hset]
      cases ok with
      | true => exact RouteTable.del_of_ne hp
      | false => rfl

/-- After the attempt to pin a route to the broker there is one. -/
theorem addHostRoute_host (hx : readIPv4 cfg.brokerIP = some x) (hg : readIPv4 cfg.gw = some g) (t : Table) :
    (addHostRoute cfg true t).getD t ⟨x, 32⟩ ≠ [] ∧
      (addHostRoute cfg true t).getD t .any = t .any ∧
      ∀ r ∈ (addHostRoute cfg true t).getD t ⟨x, 32⟩, r ∈ t ⟨x, 32⟩ ∨ r.hop.dev = cfg.dev := by
  unfold addHostRoute
  simp only [hx, hg, if_true]
  rcases t.add_cases ⟨x, 32⟩ ⟨some g, cfg.dev⟩ with hadd | ⟨hadd, r, hr, -⟩
  · rw [hadd, Option.getD_some, RouteTable.set_self, RouteTable.set_of_ne (host_ne_any x).symm]
    refine ⟨List.cons_ne_nil _ _, rfl, fun r hr => ?_⟩
    rcases List.mem_cons.mp hr with rfl | hr
    · exact Or.inr rfl
    · exact Or.inl hr
  · rw [hadd, Option.getD_none]
    exact ⟨List.ne_nil_of_mem hr, rfl, fun r hr => Or.inl hr⟩

theorem Away.step (h : Away cfg x s) (hx : readIPv4 cfg.brokerIP = some x)
    (hg : readIPv4 cfg.gw = some g) (hdev : cfg.dev ≠ "") (hup : cfg.dev ≠ cfg.tun)
    (hpin : a ≠ .pin false) (hs : Stepped cfg s a s') : Away cfg x s' := by
  have halive : s.pc ≠ .dead → s.child ≠ .restoring := fun hpc hc => hpc (h.restoring hc)
  cases hs with
  | quiet hq => exact h.frame hq.table hq.routesUp hq.pc (by rw [hq.child]; exact id)
  | kill _ _ htable _ hroutes hpc hchild =>
    exact h.frame htable hroutes (Or.inl hpc) (by rw [hchild]; nofun)
  | welcome hpc =>
    have hc := halive (by rw [hpc]; decide)
    refine ⟨h.away, fun hp => h.pinned ?_, fun hp => h.taken ?_, fun hr => absurd hr hc⟩
    all_goals
      have hroutes : s.routesUp = true := by
        by_contra hno
        split_ifs at hp <;> simp_all
      simp [hroutes, hpc]
  | pin ok hpc =>
    have hc := halive (by rw [hpc]; decide)
    have hok : ok = true := by
      cases ok with
      | true => rfl
      | false => exact absurd rfl hpin
    subst hok
    obtain ⟨hne, hany, hmem⟩ := addHostRoute_host hx hg s.table
    have hset : cfg.brokerIP ≠ "" ∧ cfg.gw ≠ "" ∧ cfg.dev ≠ "" := by
      refine ⟨?_, ?_, hdev⟩
      · intro he
        rw [he, readIPv4_empty] at hx
        cases hx
      · intro he
        rw [he, readIPv4_empty] at hg
        cases hg
    simp only [if_pos hset]
    refine ⟨fun r hr => ?_, fun _ => hne, fun hp => ?_, fun hr => absurd hr hc⟩
    · rcases hmem r hr with hr | hr
      · exact h.away r hr
      · rw [hr]
        exact hup
    · show ((addHostRoute cfg true s.table).getD s.table .any).head? = _
      rw [hany]
      refine h.taken (Or.inr ⟨?_, by rw [hpc]; decide⟩)
      simpa using hp
  | override hpc =>
    have hc := halive (by rw [hpc]; decide)
    have hhost : s.table.replace .any ⟨none, cfg.tun⟩ ⟨x, 32⟩ = s.table ⟨x, 32⟩ :=
      RouteTable.replace_of_ne (host_ne_any x)
    refine ⟨?_, fun _ => ?_, fun _ => ?_, fun hr => absurd hr hc⟩
    · simpa only [hhost] using h.away
    · simpa only [hhost] using h.pinned (Or.inl hpc)
    · simp only [RouteTable.replace_self, List.head?_cons]
  | spawn ok hpc =>
    have hc := halive (by rw [hpc]; decide)
    refine ⟨h.away, fun _ => h.pinned (Or.inr (Or.inl hpc)), fun _ => h.taken (Or.inl hpc), fun hr => ?_⟩
    cases ok with
    | true => cases hr
    | false => exact absurd hr hc
  | drop hpc =>
    have hc := halive (by rw [hpc]; decide)
    refine ⟨h.away, fun hp => h.pinned ?_, fun hp => h.taken ?_, fun hr => absurd hr hc⟩
    · simpa [hpc] using hp
    · simpa [hpc] using hp
  | tunGone hpc =>
    exact .after hpc fun r hr => h.away r (List.mem_of_mem_filter hr)
  | eof ok hpc =>
    exact .after hpc fun r hr => h.away r (cleanupHost_subset ok _ _ hr)
  | restore ok hchild =>
    refine .after (h.restoring hchild) fun r hr => h.away r ?_
    simpa only [cleanupDefault_of_ne ok _ (host_ne_any x)] using hr
  | other p rs hp =>
    simp only [Config.touches, hx, Option.map_some, Option.some.injEq, not_or] at hp
    have hhost : s.table.set p rs ⟨x, 32⟩ = s.table ⟨x, 32⟩ := RouteTable.set_of_ne hp.2
    have hany : s.table.set p rs .any = s.table .any := RouteTable.set_of_ne (Ne.symm hp.1)
    refine ⟨?_, ?_, ?_, h.restoring⟩
    · simpa only [hhost] using h.away
    · simpa only [hhost] using h.pinned
    · simpa only [hany] using h.taken

/-- **As long as the client runs, its connection to the broker stays outside
the tunnel, and everything without a route of its own goes into it**, from the
moment the default route is replaced, over any reconnects and whatever happens
to other routes. -/
theorem broker_outside_tunnel (h : (machine cfg t₀).Run tr s) (hx : readIPv4 cfg.brokerIP = some x)
    (hg : readIPv4 cfg.gw = some g) (hdev : cfg.dev ≠ "" ∧ cfg.dev ≠ cfg.tun)
    (hclean : ∀ r ∈ t₀ ⟨x, 32⟩, r.hop.dev ≠ cfg.tun) (hpin : ∀ e ∈ tr, e.act ≠ .pin false)
    (hpc : s.pc = .spawn ∨ s.routesUp = true ∧ s.pc ≠ .dead) :
    (∃ hop, s.table.lookup x = some hop ∧ hop.dev ≠ cfg.tun) ∧
      ∀ y, (∀ n, 0 < n → n ≤ 32 → s.table (.around y n) = []) →
        s.table.lookup y = some ⟨none, cfg.tun⟩ := by
  have haway : Away cfg x s := by
    refine h.invariant_of (C := fun e => e.act ≠ .pin false) (Away.init hclean) ?_ hpin
    intro s a s' o hI hs hC
    exact hI.step hx hg hdev.1 hdev.2 hC (stepped_of_machine hs)
  constructor
  · cases hhost : s.table ⟨x, 32⟩ with
    | nil => exact absurd hhost (haway.pinned (Or.inr hpc))
    | cons r rs =>
      refine ⟨r.hop, RouteTable.lookup_host (by rw [hhost]; rfl), haway.away r ?_⟩
      rw [hhost]
      exact List.mem_cons_self
  · intro y hy
    rw [RouteTable.lookup_default hy, haway.taken hpc]
    rfl

/-- The client has reconnected, and the tunnel's own network is routed. -/
theorem broker_outside_tunnel_reconnected : ∃ tr s, (machine hostConfig hostRoutes).Run tr s ∧
    s.pc = .up ∧ (∃ hop, s.table.lookup 0xcb007107#32 = some hop ∧ hop.dev ≠ "tun0") := by
  obtain ⟨tr, s, hr, hpin, hup, hpc⟩ := (machine hostConfig hostRoutes).exists_run
    ([.welcome, .pin true, .override true, .spawn true, .other ⟨0x0a630000#32, 24⟩
      [{ hop := ⟨none, "tun0"⟩ }], .drop, .welcome] : List Action)
    (P := fun r => (∀ e ∈ r.1, e.act.runs = true) ∧ r.2.pc = .up ∧ r.2.routesUp = true)
    (by decide +kernel)
  have hfit := hostRoutes_fits
  refine ⟨tr, s, hr, hup, ?_⟩
  refine (broker_outside_tunnel hr hfit.broker hfit.gw ⟨hfit.dev, hfit.uplink⟩ (by decide) ?_
    (Or.inr ⟨hpc, by rw [hup]; decide⟩)).1
  intro e he hact
  have hrun := hpin e he
  rw [hact] at hrun
  cases hrun

end
end Supervisor
end Client
end Revquic
