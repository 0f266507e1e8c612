/-
# What the dashboard shows

A dashboard with its channel drained should show what the broker has. It does
not: the subscription begins before the snapshot, so that a change may come
both in the snapshot and as an event; a session that is parked leaves
`b.sessions` and the load of its exit without an event, and the events of its
resumption or expiry are then counted on top; and the load of an exit is read
before it is published, with other goroutines in between.

It does if the snapshot is taken when everything done is announced, the steps
from then on are `Steady`, and a node id is registered again only when its
former registration is out of use. The invariant is that the view, after what
is in the channel, shows what the broker has announced.

Key definitions: `Orderly`, `Roomy`, `Shows`, `Follows`.
Key theorems: `Shows.apply`, `feed_shows_broker`, `feed_drifts`.
-/
import Revquic.Feed
import Revquic.Broker.Posts

namespace Revquic
namespace Feed

open Lib Broker

/-- The step keeps the feed in order. -/
def Orderly (cfg : Config) (f : State) : Action → Prop
  | .broker a => InTurn cfg f.broker a ∧ (f.phase.follows = true → Steady cfg f.broker a)
  | .listNodes | .listSessions => f.ch = [] ∧ f.broker.Published
  | _ => True

/-- The channel has room for what the step publishes. -/
def Roomy (e : Event State Action Out) : Prop :=
  e.pre.ch.length + (published e.out).length ≤ buffer

instance (e : Event State Action Out) : Decidable (Roomy e) := inferInstanceAs (Decidable (_ ≤ _))

/-- Events applied one after the other. -/
def applyAll (v : View) (evs : List BusEvent) : View :=
  evs.foldl (fun v ev => applyEvent v (.delta ev)) v

/-- The view shows the sessions and exits that the broker has announced, and
for each exit the number of its sessions. -/
structure Shows (b : Broker.State) (v : View) : Prop where
  sessions : Lists b v.sessions
  nodes : ∀ n, n ∈ v.nodes ↔ ∃ r, b.online r = some n
  users : ∀ n k, v.nodes.lookup n = some k → k = v.sessions.count fun _ m => decide (m = n)

/-- What holds of a subscription as far as it is. -/
inductive Follows (f : State) : Prop
  | before (phase : f.phase.follows = false)
  | listed (nodes : List (String × ℤ)) (phase : f.phase = .listed nodes)
      (timer : ∀ k, (f.broker.timer k).pc.stage = .out)
      (shows : f.ch = [] → ∃ m, Shows f.broker ⟨GoMap.ofList nodes, m⟩)
  | live (phase : f.phase = .live) (timer : ∀ k, (f.broker.timer k).pc.stage = .out)
      (shows : Shows f.broker (applyAll f.view f.ch))

/-- The step as a step of the broker, if it is one. -/
def brokerEvent (e : Event State Action Out) : Option (Event Broker.State Broker.Action Out) :=
  match e.act with
  | .broker a => some ⟨e.pre.broker, a, e.out, e.post.broker⟩
  | _ => none

section
variable {cfg : Config} {users : Userstore.Table} {b b' : Broker.State} {v : View} {f f' : State}
  {a : Action} {o : List Out} {tr : List (Event State Action Out)}

/-! ### The announcements -/

/-- What a partial function takes as values, with one more. -/
theorem exists_update_some {α : Type*} {g : Conn → Option α} {c : Conn} (hc : g c = none) {x y : α} :
    (∃ d, Function.update g c (some x) d = some y) ↔ y = x ∨ ∃ d, g d = some y := by
  constructor
  · rintro ⟨d, hd⟩
    by_cases hdc : d = c
    · rw [hdc, Function.update_self] at hd
      exact Or.inl (Option.some.inj hd).symm
    · rw [Function.update_of_ne hdc] at hd
      exact Or.inr ⟨d, hd⟩
  · rintro (rfl | ⟨d, hd⟩)
    · exact ⟨c, Function.update_self ..⟩
    · refine ⟨d, ?_⟩
      rw [Function.update_of_ne, hd]
      rintro rfl
      rw [hc] at hd
      cases hd

/-- What a partial function takes as values, with one less. -/
theorem exists_update_none {α : Type*} {g : Conn → Option α} {c : Conn} {x y : α}
    (hc : g c = some x) (one : ∀ d, g d = some x → d = c) :
    (∃ d, Function.update g c none d = some y) ↔ y ≠ x ∧ ∃ d, g d = some y := by
  constructor
  · rintro ⟨d, hd⟩
    by_cases hdc : d = c
    · rw [hdc, Function.update_self] at hd
      cases hd
    · rw [Function.update_of_ne hdc] at hd
      refine ⟨?_, d, hd⟩
      rintro rfl
      exact hdc (one d hd)
  · rintro ⟨hy, d, hd⟩
    refine ⟨d, ?_⟩
    rw [Function.update_of_ne, hd]
    rintro rfl
    rw [hc] at hd
    exact hy (Option.some.inj hd).symm

/-! ### The view -/

theorem bump_sessions (n : String) (d : ℤ) : (bump v n d).sessions = v.sessions := by
  unfold bump
  split <;> rfl

theorem lookup_bump (n : String) (d : ℤ) (m : String) : (bump v n d).nodes.lookup m =
    if m = n then (v.nodes.lookup n).map fun k => max 0 (k + d) else v.nodes.lookup m := by
  unfold bump
  split
  · rename_i h
    split_ifs with hm
    · rw [hm, h]
      rfl
    · rfl
  · rename_i k h
    rw [GoMap.lookup_set, h]
    rfl

theorem mem_bump (n : String) (d : ℤ) (m : String) : m ∈ (bump v n d).nodes ↔ m ∈ v.nodes := by
  rw [← AList.lookup_isSome, ← AList.lookup_isSome, lookup_bump]
  split_ifs with h
  · rw [Option.isSome_map, h]
  · rfl

theorem applyAll_append (v : View) (evs evs' : List BusEvent) :
    applyAll v (evs ++ evs') = applyAll (applyAll v evs) evs' := List.foldl_append

/-- The number of users changes with the number of sessions. -/
theorem users_bump {m m' : GoMap ℕ String} {n : String} {d : ℤ}
    (h : ∀ n k, v.nodes.lookup n = some k → k = m.count fun _ x => decide (x = n))
    (hn : ((m'.count fun _ x => decide (x = n) : ℕ) : ℤ) = (m.count fun _ x => decide (x = n)) + d)
    (hother : ∀ n', n' ≠ n → (m'.count fun _ x => decide (x = n')) =
      m.count fun _ x => decide (x = n'))
    {n' : String} {k : ℤ} (hk : (bump v n d).nodes.lookup n' = some k) :
    k = m'.count fun _ x => decide (x = n') := by
  rw [lookup_bump] at hk
  split_ifs at hk with hnn
  · obtain ⟨k₀, hk₀, rfl⟩ := Option.map_eq_some_iff.mp hk
    rw [hnn, h n k₀ hk₀, ← hn]
    exact max_eq_right (Int.natCast_nonneg _)
  · rw [hother n' hnn]
    exact h n' k hk

namespace Shows

/-- The view is the same when no announcement changes. -/
theorem same (h : Shows b v) (hs : b'.shows = b.shows) (ho : b'.online = b.online) :
    Shows b' v := by
  refine ⟨fun i n => ?_, fun n => ?_, h.users⟩
  · rw [hs]
    exact h.sessions i n
  · rw [ho]
    exact h.nodes n

theorem started (h : Shows b v) {c : Conn} {i : ℕ} {n : String}
    (new : ∀ d m, b.shows d ≠ some (i, m)) (out : b.shows c = none)
    (hs : b'.shows = Function.update b.shows c (some (i, n))) (ho : b'.online = b.online) :
    Shows b' (applyEvent v (.delta (.sessionStarted i n))) := by
  have hi : v.sessions.lookup i = none := by
    rw [Option.eq_none_iff_forall_ne_some]
    intro m hm
    obtain ⟨d, hd⟩ := (h.sessions i m).mp hm
    exact new d m hd
  refine ⟨fun j m => ?_, fun m => ?_, fun m k hk => ?_⟩
  · rw [applyEvent, bump_sessions, GoMap.lookup_set, hs, exists_update_some out, Prod.mk.injEq,
      ← h.sessions]
    split_ifs with hj
    · rw [hj, hi]
      simp [eq_comm]
    · simp [hj]
  · rw [applyEvent, mem_bump, ho]
    exact h.nodes m
  · rw [applyEvent, bump_sessions]
    refine users_bump (v := { v with sessions := v.sessions.insert i n }) (m := v.sessions) h.users
      ?_ (fun n' hn' => ?_) hk
    · rw [GoMap.count_set hi]
      simp
    · rw [GoMap.count_set hi]
      simp [Ne.symm hn']

theorem ended (h : Shows b v) {c : Conn} {i : ℕ} {n : String} (old : b.shows c = some (i, n))
    (one : ∀ d m, b.shows d = some (i, m) → d = c)
    (hs : b'.shows = Function.update b.shows c none) (ho : b'.online = b.online) :
    Shows b' (applyEvent v (.delta (.sessionEnded i n))) := by
  have hi : v.sessions.lookup i = some n := (h.sessions i n).mpr ⟨c, old⟩
  refine ⟨fun j m => ?_, fun m => ?_, fun m k hk => ?_⟩
  · rw [applyEvent, bump_sessions, GoMap.lookup_delete, hs,
      exists_update_none old fun d => one d n, ne_eq, Prod.mk.injEq, ← h.sessions]
    split_ifs with hj
    · rw [hj, hi]
      simp [eq_comm]
    · simp [hj]
  · rw [applyEvent, mem_bump, ho]
    exact h.nodes m
  · rw [applyEvent, bump_sessions]
    refine users_bump (v := { v with sessions := v.sessions.erase i }) (m := v.sessions) h.users
      ?_ (fun n' hn' => ?_) hk
    · rw [GoMap.count_delete hi]
      simp
    · rw [GoMap.count_delete hi]
      simp [Ne.symm hn']

/-- An exit is set, with the number of its sessions. -/
theorem set (h : Shows b v) {n : String} {k : ℤ}
    (hk : ∀ m, Lists b m → k = m.count fun _ n' => decide (n' = n)) (hs : b'.shows = b.shows)
    (ho : ∀ m, (∃ r, b'.online r = some m) ↔ m = n ∨ ∃ r, b.online r = some m) :
    Shows b' { v with nodes := v.nodes.insert n k } := by
  refine ⟨fun i m => ?_, fun m => ?_, fun m k' hk' => ?_⟩
  · rw [hs]
    exact h.sessions i m
  · rw [ho, ← h.nodes]
    exact AList.mem_insert _
  · rw [GoMap.lookup_set] at hk'
    split_ifs at hk' with hm
    · obtain rfl := Option.some.inj hk'
      rw [hm]
      exact hk _ h.sessions
    · exact h.users m k' hk'

theorem disconnected (h : Shows b v) {r : Conn} {n : String}
    (one : ∀ q, b.online q = some n → q = r) (old : b.online r = some n)
    (hs : b'.shows = b.shows) (ho : b'.online = Function.update b.online r none) :
    Shows b' (applyEvent v (.delta (.nodeDisconnected n))) := by
  refine ⟨fun i m => ?_, fun m => ?_, fun m k hk => ?_⟩
  · rw [hs]
    exact h.sessions i m
  · rw [applyEvent, AList.mem_erase, h.nodes, ho]
    exact (exists_update_none old one).symm
  · rw [applyEvent, GoMap.lookup_delete] at hk
    split_ifs at hk with hm
    exact h.users m k hk

/-- **Applying what a step announces keeps the view in line.** -/
theorem apply {evs : List BusEvent} (h : Shows b v) (hp : Posted b b' evs) :
    Shows b' (applyAll v evs) := by
  cases hp with
  | none hs ho => exact h.same hs ho
  | started c i n new out hs ho => exact h.started new out hs ho
  | ended c i n old one hs ho => exact h.ended old one hs ho
  | connected r n k out hk hs ho =>
    refine h.set hk hs fun m => ?_
    rw [ho]
    exact exists_update_some out
  | updated r n k old hk hs ho =>
    refine h.set hk hs fun m => ?_
    rw [ho]
    constructor
    · exact Or.inr
    · rintro (rfl | hq)
      · exact ⟨r, old⟩
      · exact hq
  | disconnected r n one old hs ho => exact h.disconnected one old hs ho

/-- Any map of the announced sessions will do. -/
theorem of_lists {nodes : GoMap String ℤ} {m m' : GoMap ℕ String} (h : Shows b ⟨nodes, m⟩)
    (hm : Lists b m') : Shows b ⟨nodes, m'⟩ := by
  refine ⟨hm, h.nodes, fun n k hk => ?_⟩
  rw [h.users n k hk]
  congr 1
  refine GoMap.count_eq_of_keys fun i => exists_congr fun n' => ?_
  rw [h.sessions, hm]

end Shows

/-! ### The snapshot -/

theorem lists_listSessions (hp : b.Published) (hinv : Inv b) :
    Lists b (GoMap.ofList (listSessions b)) := by
  intro i n
  rw [hp.sessions hinv]
  exact GoMap.lookup_ofList_entries (f := fun p => (b.sess p).id) (g := fun p => (b.sess p).nodeID)
    hinv.rep.id_eq

theorem lookup_listNodes (hinv : Inv b) {n : String} {k : ℤ} :
    (GoMap.ofList (listNodes b)).lookup n = some k ↔
      ∃ r, b.exits.lookup n = some r ∧ (b.node r).active = k :=
  GoMap.lookup_ofList_entries (f := fun r => (b.node r).nodeID) (g := fun r => (b.node r).active)
    fun n r hr => (hinv.reg.exits n r hr).2

/-- A snapshot of a broker that has announced everything shows it. -/
theorem shows_snapshot (hp : b.Published) (hinv : Inv b) (hl : Leavers b) (hsole : Sole b)
    (hload : Load b) : Shows b ⟨GoMap.ofList (listNodes b), GoMap.ofList (listSessions b)⟩ := by
  have hlists := lists_listSessions hp hinv
  refine ⟨hlists, fun n => ?_, fun n k hk => ?_⟩
  · rw [hp.exits hinv hsole, GoMap.mem_iff]
    constructor
    · rintro ⟨k, hk⟩
      obtain ⟨r, hr, -⟩ := (lookup_listNodes hinv).mp hk
      exact ⟨r, hr⟩
    · rintro ⟨r, hr⟩
      exact ⟨_, (lookup_listNodes hinv).mpr ⟨r, hr, rfl⟩⟩
  · obtain ⟨r, hr, rfl⟩ := (lookup_listNodes hinv).mp hk
    exact hp.active hinv hl hsole hload hr hlists

/-! ### Every step -/

theorem foldl_publish {ch evs : List BusEvent} (h : ch.length + evs.length ≤ buffer) :
    evs.foldl publish ch = ch ++ evs := by
  induction evs generalizing ch with
  | nil => simp
  | cons ev evs ih =>
    rw [List.length_cons] at h
    have hlt : ch.length < buffer := by omega
    rw [List.foldl_cons, publish, if_pos hlt, ih]
    · simp
    · rw [List.length_append, List.length_singleton]
      omega

/-- A broker step of the whole. -/
theorem step_broker {a : Broker.Action} (hs : step cfg f (.broker a) = some (f', o))
    (hroom : f.ch.length + (published o).length ≤ buffer) :
    Broker.step cfg f.broker a = some (f'.broker, o) ∧ f'.phase = f.phase ∧ f'.view = f.view ∧
      (f.phase.follows = true → f'.ch = f.ch ++ published o) := by
  simp only [step] at hs
  split at hs
  · cases hs
  · rename_i b o' hb
    obtain ⟨rfl, rfl⟩ := Prod.mk.inj (Option.some.inj hs)
    refine ⟨hb, rfl, rfl, fun hf => ?_⟩
    change (if f.phase = .away then f.ch else _) = _
    rw [if_neg, foldl_publish hroom]
    intro ha
    rw [ha] at hf
    cases hf

theorem Follows.step_broker (h : Follows f) (hinv : Inv f.broker) (hl : Leavers f.broker)
    (hsole : Sole f.broker) (hload : Load f.broker) {a : Broker.Action}
    (hs : step cfg f (.broker a) = some (f', o))
    (hroom : f.ch.length + (published o).length ≤ buffer)
    (hC : f.phase.follows = true → Steady cfg f.broker a) : Follows f' := by
  obtain ⟨hb, hphase, hview, hch⟩ := Feed.step_broker hs hroom
  cases h with
  | before phase => exact .before (by rw [hphase]; exact phase)
  | listed nodes phase timer shows =>
    have hf : f.phase.follows = true := by rw [phase]; rfl
    have hp := posted_of_step hinv hl hsole hload timer hb (hC hf)
    refine .listed nodes (hphase.trans phase) (timers_of_step hinv timer hb (hC hf)) fun hnil => ?_
    rw [hch hf, List.append_eq_nil_iff] at hnil
    obtain ⟨m, hm⟩ := shows hnil.1
    rw [hnil.2] at hp
    exact ⟨m, hm.apply hp⟩
  | live phase timer shows =>
    have hf : f.phase.follows = true := by rw [phase]; rfl
    have hp := posted_of_step hinv hl hsole hload timer hb (hC hf)
    refine .live (hphase.trans phase) (timers_of_step hinv timer hb (hC hf)) ?_
    rw [hview, hch hf, applyAll_append]
    exact shows.apply hp

theorem Follows.step (h : Follows f) (hinv : Inv f.broker) (hl : Leavers f.broker)
    (hsole : Sole f.broker) (hload : Load f.broker) (hs : step cfg f a = some (f', o))
    (hroom : f.ch.length + (published o).length ≤ buffer) (hC : Orderly cfg f a) :
    Follows f' := by
  cases a with
  | broker a => exact h.step_broker hinv hl hsole hload hs hroom hC.2
  | subscribe | hangUp =>
    simp only [Feed.step] at hs
    split_ifs at hs
    cases hs
    exact .before rfl
  | listNodes =>
    simp only [Feed.step] at hs
    split_ifs at hs
    cases hs
    exact .listed _ rfl hC.2.timer fun _ => ⟨_, shows_snapshot hC.2 hinv hl hsole hload⟩
  | listSessions =>
    simp only [Feed.step] at hs
    split at hs
    · rename_i nodes hphase
      cases hs
      refine .live rfl hC.2.timer ?_
      cases h with
      | before phase => rw [hphase] at phase; cases phase
      | listed nodes' phase timer shows =>
        rw [hphase] at phase
        cases phase
        obtain ⟨m, hm⟩ := shows hC.1
        change Shows f.broker (applyAll _ f.ch)
        rw [hC.1]
        exact hm.of_lists (lists_listSessions hC.2 hinv)
      | live phase => rw [hphase] at phase; cases phase
    · cases hs
  | deliver =>
    simp only [Feed.step] at hs
    split at hs
    · rename_i ev ch hphase hch
      cases hs
      cases h with
      | before phase | listed nodes phase => rw [hphase] at phase; cases phase
      | live phase timer shows =>
        rw [hch] at shows
        exact .live hphase timer shows
    · cases hs

/-! ### Runs -/

theorem step_other (hs : step cfg f a = some (f', o)) (ha : ∀ x, a ≠ .broker x) :
    f'.broker = f.broker := by
  cases a with
  | broker x => exact absurd rfl (ha x)
  | listSessions | deliver =>
    simp only [step] at hs
    split at hs <;> cases hs
    rfl
  | _ =>
    simp only [step] at hs
    split_ifs at hs
    cases hs
    rfl

/-- The broker runs as it does without subscribers. -/
theorem run_broker (h : (machine cfg users).Run tr f) :
    (Broker.machine cfg users).Run (tr.filterMap brokerEvent) f.broker := by
  induction h with
  | nil => exact .nil
  | @snoc tr f f' a o _ hs ih =>
    have hs : step cfg f a = some (f', o) := hs
    rw [List.filterMap_append]
    cases a with
    | broker a =>
      simp only [step] at hs
      split at hs
      · cases hs
      · rename_i b o' hb
        cases hs
        exact ih.snoc hb
    | _ =>
      rw [step_other hs (by simp)]
      change (Broker.machine cfg users).Run (tr.filterMap brokerEvent ++ []) f.broker
      rw [List.append_nil]
      exact ih

/-- What holds of the broker's steps holds in its own run. -/
theorem forall_brokerEvent {P : Event Broker.State Broker.Action Out → Prop}
    (h : ∀ e ∈ tr, ∀ a, e.act = .broker a → P ⟨e.pre.broker, a, e.out, e.post.broker⟩) :
    ∀ x ∈ tr.filterMap brokerEvent, P x := by
  intro x hx
  obtain ⟨e, he, hex⟩ := List.mem_filterMap.mp hx
  unfold brokerEvent at hex
  split at hex
  · rename_i a ha
    obtain rfl := Option.some.inj hex
    exact h e he a ha
  · cases hex

theorem sole_of_run (h : (machine cfg users).Run tr f)
    (hC : ∀ e ∈ tr, Orderly cfg e.pre e.act) : Sole f.broker := by
  refine Sole.of_run (run_broker h) (forall_brokerEvent fun e he a ha => ?_)
  have hord := hC e he
  rw [ha] at hord
  exact hord.1

theorem follows_of_run (h : (machine cfg users).Run tr f) : (∀ e ∈ tr, Roomy e) →
    (∀ e ∈ tr, Orderly cfg e.pre e.act) → Follows f := by
  induction h with
  | nil => exact fun _ _ => .before rfl
  | @snoc tr f f' a o hrun hs ih =>
    intro hroom hC
    have hs : step cfg f a = some (f', o) := hs
    have hlast : (⟨f, a, o, f'⟩ : Event State Action Out) ∈ tr ++ [⟨f, a, o, f'⟩] :=
      List.mem_append_right _ (List.mem_singleton_self _)
    have hC' : ∀ e ∈ tr, Orderly cfg e.pre e.act := fun e he => hC e (List.mem_append_left _ he)
    have hfollows := ih (fun e he => hroom e (List.mem_append_left _ he)) hC'
    have hb := run_broker hrun
    exact hfollows.step (Inv.of_run hb) (Leavers.of_run hb) (sole_of_run hrun hC') (Load.of_run hb)
      hs (hroom _ hlast) (hC _ hlast)

/-- **The dashboard shows the broker.** In a run in which no event is
dropped, the snapshot is taken when everything done is announced, no session
is parked or expires from then on, an exit's load is only published when it
is settled and no node id is registered while it is in use: whenever the
broker is at rest and the channel is drained, the sessions shown are those of
`b.sessions`, the exits shown are those of `b.exits`, and each is shown with
its load. -/
theorem feed_shows_broker (h : (machine cfg users).Run tr f) (hroom : ∀ e ∈ tr, Roomy e)
    (hC : ∀ e ∈ tr, Orderly cfg e.pre e.act) (hlive : f.phase = .live)
    (hrest : f.broker.Resting) (hdrained : f.ch = []) :
    (∀ i, i ∈ f.view.sessions ↔ i ∈ f.broker.sessions) ∧
    (∀ n, n ∈ f.view.nodes ↔ n ∈ f.broker.exits) ∧
    ∀ n r, f.broker.exits.lookup n = some r →
      f.view.nodes.lookup n = some (f.broker.node r).active := by
  have hsole := sole_of_run h hC
  have hrun := run_broker h
  have hinv := Inv.of_run hrun
  have hp := hrest.published
  cases follows_of_run h hroom hC with
  | before phase | listed nodes phase => rw [hlive] at phase; cases phase
  | live _ _ shows =>
    rw [hdrained] at shows
    have hnodes : ∀ n, n ∈ f.view.nodes ↔ n ∈ f.broker.exits := by
      intro n
      rw [GoMap.mem_iff (m := f.broker.exits), ← hp.exits hinv hsole]
      exact shows.nodes n
    refine ⟨fun i => ?_, hnodes, fun n r hr => ?_⟩
    · rw [GoMap.mem_iff, GoMap.mem_iff]
      constructor
      · rintro ⟨n, hn⟩
        obtain ⟨p, hp, -⟩ := (hp.sessions hinv i n).mp ((shows.sessions i n).mp hn)
        exact ⟨p, hp⟩
      · rintro ⟨p, hip⟩
        exact ⟨_, (shows.sessions i _).mpr ((hp.sessions hinv i _).mpr ⟨p, hip, rfl⟩)⟩
    · obtain ⟨k, hk⟩ := GoMap.mem_iff.mp ((hnodes n).mpr (GoMap.mem_iff.mpr ⟨r, hr⟩))
      rw [hk, shows.users n k hk, hp.active hinv (Leavers.of_run hrun) hsole (Load.of_run hrun) hr
        shows.sessions]

/-! ### Scripts on the first connections -/

/-- `Steady`, as far as the first `N` connections go. -/
def SteadyUpTo (cfg : Config) (N : ℕ) (b : Broker.State) : Broker.Action → Prop
  | .client c _ => ¬ b.parks cfg c
  | .timer k _ => ¬ b.expires k
  | .exit r _ => (b.exitT r).pc = .publishUp ∨ (b.exitT r).pc = .publishUpdate →
      (∀ c < N, (b.client c).ex = r → (b.client c).pc.settled = true) ∧
        (b.exitT r).activeUsers = (b.node r).active
  | _ => True

instance (cfg : Config) (N : ℕ) (b : Broker.State) : DecidablePred (SteadyUpTo cfg N b)
  | .client c _ => inferInstanceAs (Decidable (¬ b.parks cfg c))
  | .timer k _ => inferInstanceAs (Decidable (¬ b.expires k))
  | .exit _ _ => inferInstanceAs (Decidable (_ → (∀ c < N, _) ∧ _))
  | .tick _ | .users _ | .connect _ _ | .drop _ _ | .clientCtrl _ _ _ | .register _ _
  | .exitCtrl _ _ _ | .exitGone _ | .datagram _ _ | .fire _ => isTrue trivial

/-- No node id is registered twice. -/
def Once (b : Broker.State) : Broker.Action → Prop
  | .register _ msg => ∀ r ∈ b.regs, (b.node r).nodeID ≠ msg.nodeID
  | _ => True

instance (b : Broker.State) : DecidablePred (Once b)
  | .register _ msg => inferInstanceAs (Decidable (∀ r ∈ b.regs, (b.node r).nodeID ≠ msg.nodeID))
  | .tick _ | .users _ | .connect _ _ | .client _ _ | .drop _ _ | .clientCtrl _ _ _ | .exit _ _
  | .exitCtrl _ _ _ | .exitGone _ | .datagram _ _ | .fire _ | .timer _ _ => isTrue trivial

/-- The step uses the first `N` connections only. -/
def FewOf (N : ℕ) : Action → Prop
  | .broker a => Few N a
  | _ => True

instance (N : ℕ) : DecidablePred (FewOf N)
  | .broker a => inferInstanceAs (Decidable (Few N a))
  | .subscribe | .listNodes | .listSessions | .deliver | .hangUp => isTrue trivial

/-- `Orderly`, as far as the first `N` connections go. -/
def OrderlyUpTo (cfg : Config) (N : ℕ) (f : State) : Action → Prop
  | .broker a => Once f.broker a ∧ (f.phase.follows = true → SteadyUpTo cfg N f.broker a)
  | .listNodes | .listSessions => f.ch = [] ∧ f.broker.RestsUpTo N
  | _ => True

instance (cfg : Config) (N : ℕ) (f : State) : DecidablePred (OrderlyUpTo cfg N f)
  | .broker a => inferInstanceAs (Decidable (Once f.broker a ∧ (_ → SteadyUpTo cfg N f.broker a)))
  | .listNodes | .listSessions => inferInstanceAs (Decidable (f.ch = [] ∧ f.broker.RestsUpTo N))
  | .subscribe | .deliver | .hangUp => isTrue trivial

theorem few_of_run {N : ℕ} (hC : ∀ e ∈ tr, FewOf N e.act) :
    ∀ x ∈ tr.filterMap brokerEvent, Few N x.act := by
  refine forall_brokerEvent fun e he a ha => ?_
  have hfew := hC e he
  rw [ha] at hfew
  exact hfew

theorem orderly_of_upTo {N : ℕ} (h : (machine cfg users).Run tr f) (hfew : ∀ e ∈ tr, FewOf N e.act)
    (hC : ∀ e ∈ tr, OrderlyUpTo cfg N e.pre e.act) : ∀ e ∈ tr, Orderly cfg e.pre e.act := by
  intro e he
  obtain ⟨tr₁, tr₂, rfl, hrun, -⟩ := h.of_mem he
  have hrun := run_broker hrun
  have hfew : ∀ x ∈ tr₁.filterMap brokerEvent, Few N x.act :=
    few_of_run fun x hx => hfew x (List.mem_append_left _ hx)
  have hsettled : ∀ r, (∀ c < N, (e.pre.broker.client c).ex = r →
      (e.pre.broker.client c).pc.settled = true) → e.pre.broker.Settled r := by
    intro r hr c hc
    rcases lt_or_ge c N with hcN | hcN
    · exact hr c hcN hc
    · rw [(unused_of_few hrun hfew hcN).1]
      rfl
  have hord := hC e he
  revert hord
  cases e.act with
  | broker a =>
    rintro ⟨honce, hsteady⟩
    constructor
    · cases a with
      | register c msg => exact fun _ r hr => honce r hr.1
      | _ => trivial
    · intro hf
      have hsteady := hsteady hf
      cases a with
      | exit r ok => exact fun hpc => (hsteady hpc).imp_left (hsettled r)
      | _ => exact hsteady
  | listNodes | listSessions =>
    exact fun hord => ⟨hord.1, (resting_of_few hrun hfew hord.2).published⟩
  | _ => exact fun _ => trivial

/-- A script of the broker. -/
def brokerSteps (as : List Broker.Action) : List Action := as.map .broker

/-- A script that ends with the broker at rest, a live feed and the channel
drained, with no event dropped. -/
theorem exists_drained (cfg : Config) (users : Userstore.Table) (N : ℕ) (as : List Action)
    {P : List (Event State Action Out) → State → Prop}
    (h : ∃ x ∈ (machine cfg users).exec (machine cfg users).init as,
      (∀ e ∈ x.1, Roomy e ∧ FewOf N e.act) ∧
        (x.2.phase = .live ∧ x.2.broker.RestsUpTo N ∧ x.2.ch = []) ∧ P x.1 x.2) :
    ∃ tr f, (machine cfg users).Run tr f ∧ (∀ e ∈ tr, Roomy e) ∧ f.phase = .live ∧
      f.broker.Resting ∧ f.ch = [] ∧ P tr f := by
  obtain ⟨⟨tr, f⟩, hx, hall, ⟨hlive, hrest, hnil⟩, hP⟩ := h
  have hrun := (machine cfg users).run_exec hx
  exact ⟨tr, f, hrun, fun e he => (hall e he).1, hlive, resting_of_few (run_broker hrun)
    (few_of_run fun e he => (hall e he).2) hrest, hnil, hP⟩

/-- Of two clients, one is in the snapshot and leaves, the other joins; their
exit reports its status, and a second exit registers. -/
theorem feed_shows_broker_two_clients : ∃ tr f, (machine {} aliceStore).Run tr f ∧
    2 ∈ f.broker.sessions ∧ f.broker.exits.lookup "e1" = some 0 ∧
    f.broker.exits.lookup "e2" = some 3 ∧ 2 ∈ f.view.sessions ∧
    f.view.nodes.lookup "e1" = some (f.broker.node 0).active ∧
    f.view.nodes.lookup "e2" = some (f.broker.node 3).active := by
  obtain ⟨tr, f, hrun, hroom, hlive, hrest, hnil, hfew, hord, h2, he1, he2⟩ :=
    exists_drained {} aliceStore 4
    (brokerSteps (registers 0 (node "e1" "us" 0) ++ joins 1 (aliceConnect "us" "")) ++
      [.subscribe, .listNodes, .listSessions] ++
      brokerSteps (joins 2 (aliceConnect "us" "")) ++ [.deliver] ++
      brokerSteps (.drop 1 (.application 0) :: List.replicate 4 (.client 1 {})) ++ [.deliver] ++
      brokerSteps [.exitCtrl 0 (.nodeStatus 0 0 0) true, .exit 0 true] ++ [.deliver] ++
      brokerSteps (registers 3 (node "e2" "us" 0)) ++ [.deliver])
    (P := fun tr f => (∀ e ∈ tr, FewOf 4 e.act) ∧ (∀ e ∈ tr, OrderlyUpTo {} 4 e.pre e.act) ∧
      2 ∈ f.broker.sessions ∧ f.broker.exits.lookup "e1" = some 0 ∧
      f.broker.exits.lookup "e2" = some 3)
    (by decide +kernel)
  obtain ⟨hs, -, hn⟩ := feed_shows_broker hrun hroom (orderly_of_upTo hrun hfew hord) hlive hrest hnil
  exact ⟨tr, f, hrun, h2, he1, he2, (hs 2).mpr h2, hn "e1" 0 he1, hn "e2" 3 he2⟩

/-- A session that is parked after the snapshot stays in the view, with its
user; a session that starts between the subscription and the snapshot is
counted twice; and a load that is read before a session starts and published
behind it takes the session's user away. -/
theorem feed_drifts :
    (∃ tr f, (machine {} aliceStore).Run tr f ∧ (∀ e ∈ tr, Roomy e) ∧ f.phase = .live ∧
      f.broker.Resting ∧ f.ch = [] ∧ 1 ∈ f.view.sessions ∧ 1 ∉ f.broker.sessions ∧
      f.broker.exits.lookup "e1" = some 0 ∧ f.view.nodes.lookup "e1" = some 1 ∧
      (f.broker.node 0).active = 0) ∧
    (∃ tr f, (machine {} aliceStore).Run tr f ∧ (∀ e ∈ tr, Roomy e) ∧ f.phase = .live ∧
      f.broker.Resting ∧ f.ch = [] ∧ f.broker.exits.lookup "e1" = some 0 ∧
      f.view.nodes.lookup "e1" = some 2 ∧ (f.broker.node 0).active = 1) ∧
    ∃ tr f, (machine {} aliceStore).Run tr f ∧ (∀ e ∈ tr, Roomy e) ∧ f.phase = .live ∧
      f.broker.Resting ∧ f.ch = [] ∧ f.broker.exits.lookup "e1" = some 0 ∧
      f.view.nodes.lookup "e1" = some 0 ∧ (f.broker.node 0).active = 1 := by
  refine ⟨?_, ?_, ?_⟩
  · exact exists_drained {} aliceStore 2
      (brokerSteps (registers 0 (node "e1" "us" 0) ++ joins 1 (aliceConnect "us" "k")) ++
        [.subscribe, .listNodes, .listSessions] ++
        brokerSteps (.drop 1 .other :: List.replicate 2 (.client 1 {}))) (by decide +kernel)
  · exact exists_drained {} aliceStore 2
      (brokerSteps (registers 0 (node "e1" "us" 0)) ++
        [.subscribe] ++ brokerSteps (joins 1 (aliceConnect "us" "")) ++
        [.listNodes, .listSessions, .deliver]) (by decide +kernel)
  · exact exists_drained {} aliceStore 2
      (brokerSteps (registers 0 (node "e1" "us" 0)) ++ [.subscribe, .listNodes, .listSessions] ++
        brokerSteps (.exitCtrl 0 (.nodeStatus 0 0 0) true :: joins 1 (aliceConnect "us" "") ++
          [.exit 0 true]) ++ [.deliver, .deliver]) (by decide +kernel)

end
end Feed
end Revquic
