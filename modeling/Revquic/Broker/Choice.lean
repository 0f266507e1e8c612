/-
# Which exit a new session gets

A `Connect` names an exit (manual selection) or leaves the choice to `Pick`
(automatic selection). With round robin all regions draw from one counter,
`b.rr`: the exits chosen in a region go round its eligible exits exactly if
the counter, between two choices there, advances by one modulo their number;
a choice in another region advances it too.

Eligibility is written twice, in `handleClient` and in `hasSpare`. The two
agree on every capacity but a negative one, which registration accepts.

Key definitions: `choice`, `choices`, `tickets`.
Key theorems: `roundRobin_cycles`, `manual_iff_automatic`.
-/
import Revquic.Broker.Attach
import Revquic.Lb.Optimum
import Revquic.Lib.Rounds

namespace Revquic
namespace Broker

open Lib Proto

variable {cfg : Config} {users : Userstore.Table} {b b' : State} {a : Action} {o : List Out} {c : Conn}

/-! ### The counter -/

theorem handleExit_rr (cfg : Config) (b : State) (c : Conn) (msg : Register) :
    (handleExit cfg b c msg).rr = b.rr := by
  unfold handleExit
  split <;> rfl

/-- Only `handleClient` in its `b.mu` section moves the counter. -/
theorem step_rr (h : step cfg b a = some (b', o))
    (ha : ∀ c i, a = .client c i → (b.client c).pc ≠ .lock) : b'.rr = b.rr := by
  cases stepped_of_step h with
  | client c i step =>
    cases step with
    | refuse rr pc | choose ex rr pc => exact absurd pc (ha c i rfl)
    | _ => rfl
  | clientCtrl c m ok _ step => cases step <;> rfl
  | register c msg => exact handleExit_rr cfg b c msg
  | exit c ok step | exitCtrl c m ok _ step | timer k ok step => cases step <;> rfl
  | _ => rfl

/-! ### Automatic choices -/

/-- The ids of a region's eligible exits, in order. -/
def State.eligibleIDs (b : State) (region : String) : List String :=
  (Lb.eligible region (candidates b)).map Lb.Node.id

/-- The region and the exit of a step that answers an automatic `Connect`
with an exit. -/
def choice (e : Event State Action Out) : Option (String × String) :=
  match e.act with
  | .client c _ =>
    if (e.pre.client c).pc = .lock ∧ (e.post.client c).pc = .chosen ∧
        (e.pre.client c).msg.requestedExit = "" then
      some ((e.pre.client c).msg.requestedRegion, (e.post.node (e.post.client c).ex).nodeID)
    else none
  | _ => none

/-- The exit, if the region is `region`. -/
def choiceIn (region : String) (e : Event State Action Out) : Option String :=
  (choice e).bind fun x => if x.1 = region then some x.2 else none

/-- The exits chosen for the successive requests in a region. -/
def choices (region : String) (tr : List (Event State Action Out)) : List String :=
  tr.filterMap (choiceIn region)

theorem choiceIn_eq_some {region id : String} {e : Event State Action Out} :
    choiceIn region e = some id ↔ choice e = some (region, id) := by
  unfold choiceIn
  cases hc : choice e with
  | none => simp
  | some x =>
    rcases x with ⟨r, i⟩
    simp

/-- The registry lists every node id once. -/
theorem candidates_ids (hreg : Reg b) : ((candidates b).map Lb.Node.id).Nodup := by
  have hkeys : (candidates b).map Lb.Node.id = b.exits.entries.map (·.1) := by
    rw [candidates, List.map_map]
    refine List.map_congr_left fun e he => ?_
    exact (hreg.exits e.1 e.2 (GoMap.mem_entries.mp he)).2
  rw [hkeys]
  exact b.exits.nodupKeys

theorem eligibleIDs_nodup (hreg : Reg b) (region : String) : (b.eligibleIDs region).Nodup := by
  have hsort : (Lb.eligible region (candidates b)).Pairwise fun a b => a.id < b.id :=
    Lb.eligible_sorted (candidates_ids hreg)
  exact List.pairwise_map.mpr (hsort.imp fun hlt => hlt.ne)

/-- Round robin takes the counter modulo the number of eligible exits. -/
theorem pick_roundRobin {region id : String} {nodes : List Lb.Node} {rr rnd rr' : ℕ}
    (h : Lb.pick .roundRobin region nodes rr rnd = some (id, rr')) :
    rr' = (rr + 1) % 2 ^ 64 ∧
      ((Lb.eligible region nodes).map Lb.Node.id)[rr % (Lb.eligible region nodes).length]? = some id := by
  unfold Lb.pick at h
  split at h
  · cases h
  · rename_i n ns he
    simp only [Option.some.injEq, Prod.mk.injEq] at h
    obtain ⟨rfl, rfl⟩ := h
    have hlt : rr % (ns.length + 1) < (n :: ns).length := Nat.mod_lt _ (Nat.succ_pos _)
    refine ⟨rfl, ?_⟩
    rw [he, List.getElem?_map, List.length_cons, List.getD_eq_getElem?_getD,
      List.getElem?_eq_getElem hlt]
    rfl

/-- The exit `Pick` names is in the registry, under that id. -/
theorem lookup_pick (hreg : Reg b) {strategy : Lb.Strategy} {region id : String} {rr rnd rr' : ℕ}
    (h : Lb.pick strategy region (candidates b) rr rnd = some (id, rr')) :
    ∃ ex, b.exits.lookup id = some ex ∧ (b.node ex).nodeID = id := by
  obtain ⟨n, hn, rfl, -, -⟩ := Lb.pick_eligible h
  obtain ⟨⟨k, r⟩, he, rfl⟩ := List.mem_map.mp hn
  have hk := GoMap.mem_entries.mp he
  refine ⟨r, ?_, rfl⟩
  show b.exits.lookup (b.node r).nodeID = some r
  rw [(hreg.exits k r hk).2, hk]

/-- A step draws from the counter exactly if it is an automatic choice. -/
theorem step_choice (hrr : cfg.lbStrategy = .roundRobin) (hreg : Reg b)
    (h : step cfg b a = some (b', o)) :
    (choice ⟨b, a, o, b'⟩ = none ∧ b'.rr = b.rr) ∨
      ∃ region id, choice ⟨b, a, o, b'⟩ = some (region, id) ∧ b'.rr = (b.rr + 1) % 2 ^ 64 ∧
        (b.eligibleIDs region)[b.rr % (b.eligibleIDs region).length]? = some id := by
  by_cases ha : ∀ c i, a = .client c i → (b.client c).pc ≠ .lock
  · refine Or.inl ⟨?_, step_rr h ha⟩
    cases a with
    | client c i => exact if_neg fun hc => ha c i rfl hc.1
    | _ => rfl
  · push Not at ha
    obtain ⟨c, i, rfl, hpc⟩ := ha
    simp only [step, clientStep, hpc, Option.some.injEq, Prod.mk.injEq] at h
    obtain ⟨rfl, rfl⟩ := h
    -- not a choice if the goroutine ends elsewhere than at `chosen`
    have hnone : ∀ {s : State}, (s.client c).pc ≠ .chosen → choice ⟨b, .client c i, [], s⟩ = none :=
      fun hs => if_neg fun hc => hs hc.2.1
    unfold admitClient
    simp only
    split
    · exact Or.inl ⟨hnone (by simp), rfl⟩
    · split
      · rename_i p ex s hres
        split at hres
        · obtain ⟨-, -, -, -, rfl⟩ := tryResume_some hres
          exact Or.inl ⟨hnone (by simp), rfl⟩
        · cases hres
      · unfold chooseExit
        by_cases hreq : (b.client c).msg.requestedExit = ""
        · rw [if_neg (not_not.mpr hreq), hrr]
          split
          · rename_i ex rr hch
            refine Or.inl ⟨hnone (by simp), ?_⟩
            -- `Pick` found nothing: what it names is in the registry
            split at hch
            · exact (Prod.mk.inj hch).2.symm
            · rename_i id rr' hpick
              obtain ⟨r, hr, -⟩ := lookup_pick hreg hpick
              rw [hr] at hch
              cases (Prod.mk.inj hch).1
          · rename_i ex rr hch
            split at hch
            · cases (Prod.mk.inj hch).1
            · rename_i id rr' hpick
              obtain ⟨r, hr, hid⟩ := lookup_pick hreg hpick
              obtain ⟨hnext, hget⟩ := pick_roundRobin hpick
              rw [hr] at hch
              obtain ⟨hx, rfl⟩ := Prod.mk.inj hch
              obtain rfl := Option.some.inj hx
              refine Or.inr ⟨(b.client c).msg.requestedRegion, id, ?_, hnext, ?_⟩
              · simp [choice, hpc, hreq, State.setClient, hid]
              · rw [State.eligibleIDs, List.length_map]
                exact hget
        · rw [if_pos hreq]
          have hman : ∀ {s : State}, choice ⟨b, .client c i, [], s⟩ = none :=
            fun {s} => if_neg fun hc => hreq hc.2.2
          split
          · rename_i hch
            exact Or.inl ⟨hman, (Prod.mk.inj hch).2.symm⟩
          · rename_i hch
            exact Or.inl ⟨hman, (Prod.mk.inj hch).2.symm⟩

/-! ### Round robin -/

section RoundRobin

variable {tr tr₁ tr₂ m : List (Event State Action Out)} {e : Event State Action Out}

/-- After a choice and `m` further steps the counter has advanced by one for
every choice. -/
theorem rr_after (hrr : cfg.lbStrategy = .roundRobin) {region id : String}
    (h : (machine cfg users).Run (tr ++ [e] ++ m) b) (he : choice e = some (region, id)) :
    b.rr = (e.pre.rr + 1 + (m.filterMap choice).length) % 2 ^ 64 := by
  refine h.invariant_since (C := fun _ => True)
    (I := fun m s => s.rr = (e.pre.rr + 1 + (m.filterMap choice).length) % 2 ^ 64)
    (fun s hs => ?_) (fun m s a s' o hr hI hstep _ => ?_) fun _ _ => trivial
  · obtain ⟨hpre, hstep, rfl⟩ := hs.last
    rcases step_choice hrr (Reg.of_run hpre) hstep with ⟨hnone, -⟩ | ⟨_, _, -, hnext, -⟩
    · rw [he] at hnone
      cases hnone
    · exact hnext
  · rcases step_choice hrr (Reg.of_run hr) hstep with ⟨hnone, hsame⟩ | ⟨_, _, hc, hnext, -⟩
    · rw [List.filterMap_append, List.filterMap_cons_none hnone, hsame, hI]
      simp
    · rw [List.filterMap_append, List.filterMap_cons_some hc, hnext, hI, Nat.mod_add_mod]
      simp [Nat.add_assoc]

/-- A choice takes the exit its counter points at. -/
theorem choice_spec (hrr : cfg.lbStrategy = .roundRobin) (h : (machine cfg users).Run tr b)
    (hmem : e ∈ tr) {region id : String} (he : choice e = some (region, id)) :
    (e.pre.eligibleIDs region)[e.pre.rr % (e.pre.eligibleIDs region).length]? = some id := by
  obtain ⟨_, _, -, hpre, hstep⟩ := h.of_mem hmem
  rcases step_choice hrr (Reg.of_run hpre) hstep with ⟨hnone, -⟩ | ⟨r, i, hc, -, hget⟩
  · rw [he] at hnone
    cases hnone
  · obtain ⟨rfl, rfl⟩ := Prod.mk.inj (Option.some.inj (he.symm.trans hc))
    exact hget

/-- The choices in a region, each with the counter it was drawn with. -/
def tickets (region : String) (tr : List (Event State Action Out)) : List (ℕ × String) :=
  tr.filterMap fun e => (choiceIn region e).map (e.pre.rr, ·)

theorem map_snd_tickets (region : String) (tr : List (Event State Action Out)) :
    (tickets region tr).map Prod.snd = choices region tr := by
  unfold tickets choices
  rw [List.map_filterMap]
  congr 1
  funext e
  cases choiceIn region e <;> rfl

/-- **Round robin.** While the eligible exits of a region stay the same, the
exits chosen for its requests go round them in id order exactly if, from
each choice in the region to the next, the counter advances by one modulo
their number, where `k` choices in other regions in between advance it by
`k`, and it wraps at `2 ^ 64`. Then every window as long as their number has
each of them once. -/
theorem roundRobin_cycles (hrr : cfg.lbStrategy = .roundRobin)
    (h : (machine cfg users).Run (tr₁ ++ tr₂) b) {region : String} {ids : List String}
    (hids : ∀ e ∈ tr₂, e.pre.eligibleIDs region = ids) :
    (Rounds ids (choices region tr₂) ↔
      ∀ x e m e' y, tr₂ = x ++ e :: (m ++ e' :: y) → (∀ d ∈ m, choiceIn region d = none) →
        (choiceIn region e).isSome = true → (choiceIn region e').isSome = true →
        (e.pre.rr + 1 + (m.filterMap choice).length) % 2 ^ 64 ≡ e.pre.rr + 1 [MOD ids.length]) ∧
    (Rounds ids (choices region tr₂) →
      ∀ w, w <:+: choices region tr₂ → w.length = ids.length → w.Perm ids) := by
  refine ⟨?_, fun hr w hw hlen => hr.window hw hlen⟩
  by_cases hnil : tr₂ = []
  · subst hnil
    exact iff_of_true ⟨0, fun j hj => by simp [choices] at hj⟩ fun x e m e' y heq => by simp at heq
  have hnodup : ids.Nodup := by
    obtain ⟨e, he⟩ := List.exists_mem_of_ne_nil tr₂ hnil
    obtain ⟨_, _, -, hpre, -⟩ := h.of_mem (List.mem_append_right _ he)
    rw [← hids e he]
    exact eligibleIDs_nodup (Reg.of_run hpre) region
  have hdrawn : ∀ p ∈ tickets region tr₂, ids[p.1 % ids.length]? = some p.2 := by
    intro p hp
    obtain ⟨e, he, hcp⟩ := List.mem_filterMap.mp hp
    obtain ⟨id, hid, rfl⟩ := Option.map_eq_some_iff.mp hcp
    rw [← hids e he]
    exact choice_spec hrr h (List.mem_append_right _ he) (choiceIn_eq_some.mp hid)
  rw [← map_snd_tickets, rounds_iff_isChain hnodup hdrawn, tickets, isChain_filterMap_iff]
  -- the two sides speak of the same pairs of choices
  refine forall_congr' fun x => forall_congr' fun e => forall_congr' fun m => forall_congr' fun e' =>
    forall_congr' fun y => forall_congr' fun heq => ?_
  have hnone : (∀ d ∈ m, (choiceIn region d).map (d.pre.rr, ·) = none) ↔
      ∀ d ∈ m, choiceIn region d = none := by simp
  rw [hnone]
  refine forall_congr' fun _ => ?_
  cases hce : choiceIn region e with
  | none => simp
  | some id =>
    cases hce' : choiceIn region e' with
    | none => simp
    | some id' =>
      have hrun : (machine cfg users).Run (tr₁ ++ x ++ [e] ++ m) e'.pre := by
        have hsplit : tr₁ ++ tr₂ = (tr₁ ++ x ++ [e] ++ m) ++ e' :: y := by
          rw [heq]
          simp
        exact (h.at_event hsplit).1
      rw [← rr_after hrr hrun (choiceIn_eq_some.mp hce)]
      simp

/-- Two exits in each of two regions. -/
def twoRegions : List Action :=
  [.register 0 (node "e1" "us" 9), .register 1 (node "e2" "us" 9),
    .register 2 (node "e3" "eu" 9), .register 3 (node "e4" "eu" 9)]

/-- Two requests in `eu` between two in `us` leave the turn of `us` as it
was. -/
theorem roundRobin_cycles_even : ∃ tr₁ tr₂ b,
    (machine { lbStrategy := .roundRobin } aliceStore).Run (tr₁ ++ tr₂) b ∧
    choices "us" tr₂ = ["e1", "e2"] ∧ choices "eu" tr₂ = ["e4", "e3"] ∧
    ∀ w, w <:+: choices "us" tr₂ → w.length = 2 → w.Perm ["e1", "e2"] := by
  obtain ⟨tr, b, hrun, hids, hus, heu⟩ :=
    (machine { lbStrategy := .roundRobin } aliceStore).exists_run
      (twoRegions ++ joins 10 (aliceConnect "us" "") ++ joins 11 (aliceConnect "eu" "") ++
        joins 12 (aliceConnect "eu" "") ++ joins 13 (aliceConnect "us" ""))
      (P := fun r => (∀ e ∈ r.1.drop 4, e.pre.eligibleIDs "us" = ["e1", "e2"]) ∧
        choices "us" (r.1.drop 4) = ["e1", "e2"] ∧ choices "eu" (r.1.drop 4) = ["e4", "e3"])
      (by decide +kernel)
  rw [← List.take_append_drop 4 tr] at hrun
  refine ⟨tr.take 4, tr.drop 4, b, hrun, hus, heu, ?_⟩
  refine (roundRobin_cycles rfl hrun hids).2 ⟨0, ?_⟩
  rw [hus]
  decide

/-- One request in `eu` between two in `us` takes the turn: both requests in
`us` get the same exit. -/
theorem roundRobin_skips : ∃ tr₁ tr₂ b,
    (machine { lbStrategy := .roundRobin } aliceStore).Run (tr₁ ++ tr₂) b ∧
    (∀ e ∈ tr₂, e.pre.eligibleIDs "us" = ["e1", "e2"]) ∧
    choices "us" tr₂ = ["e1", "e1"] ∧ ¬ Rounds ["e1", "e2"] (choices "us" tr₂) := by
  obtain ⟨tr, b, hrun, hids, hus⟩ :=
    (machine { lbStrategy := .roundRobin } aliceStore).exists_run
      (twoRegions ++ joins 10 (aliceConnect "us" "") ++ joins 11 (aliceConnect "eu" "") ++
        joins 12 (aliceConnect "us" ""))
      (P := fun r => (∀ e ∈ r.1.drop 4, e.pre.eligibleIDs "us" = ["e1", "e2"]) ∧
        choices "us" (r.1.drop 4) = ["e1", "e1"])
      (by decide +kernel)
  rw [← List.take_append_drop 4 tr] at hrun
  refine ⟨tr.take 4, tr.drop 4, b, hrun, hids, hus, fun hr => ?_⟩
  have hperm := hr.window (v := ["e1", "e1"]) (by rw [hus]) rfl
  exact absurd hperm (by decide)

end RoundRobin

/-! ### Manual and automatic selection -/

/-- The state with other loads at the exits. -/
def State.withLoad (b : State) (load : Conn → ℤ) : State :=
  { b with node := fun c => { b.node c with active := load c } }

/-- The state with the registry restricted to one node id. -/
def State.only (b : State) (n : String) : State :=
  { b with exits := match b.exits.lookup n with
      | some ex => (∅ : GoMap String Conn).insert n ex
      | none => ∅ }

section Selection

variable {n : String} {ex : Conn} {msg : Connect} {rnd : ℕ}

/-- When a `Connect` that names the exit gets it. -/
theorem chooseExit_manual (hex : b.exits.lookup n = some ex) (hn : n ≠ "")
    (hmsg : msg.requestedExit = n) :
    (chooseExit cfg b msg rnd).1 = some ex ↔ (b.node ex).region = msg.requestedRegion ∧
      ((b.node ex).capacity = 0 ∨ (b.node ex).active < (b.node ex).capacity) := by
  unfold chooseExit requestedExit
  rw [hmsg, if_pos hn, hex]
  simp only [Option.ite_none_right_eq_some, and_true]

/-- When automatic selection takes the only exit there is. -/
theorem chooseExit_only (hex : b.exits.lookup n = some ex) (hid : (b.node ex).nodeID = n)
    (hmsg : msg.requestedExit = "") :
    (chooseExit cfg (b.only n) msg rnd).1 = some ex ↔
      (b.node ex).region = msg.requestedRegion ∧ (b.node ex).spare := by
  have hcand : candidates (b.only n) = [⟨n, (b.node ex).region, (b.node ex).active, (b.node ex).capacity⟩] := by
    unfold candidates State.only
    rw [hex, ← hid]
    rfl
  have hlook : (b.only n).exits.lookup n = some ex := by
    unfold State.only
    rw [hex]
    exact AList.lookup_insert _
  have hsome : (Lb.pick cfg.lbStrategy msg.requestedRegion (candidates (b.only n)) (b.only n).rr
      rnd).isSome = true ↔ ∃ v ∈ candidates (b.only n), Lb.Eligible msg.requestedRegion v :=
    Lb.pick_isSome cfg.lbStrategy (b.only n).rr rnd
  unfold chooseExit
  rw [hmsg, if_neg (not_not.mpr rfl)]
  rw [hcand] at hsome ⊢
  simp only [List.mem_singleton, exists_eq_left, Lb.Eligible] at hsome
  rw [ExitNode.spare, ← hsome]
  split
  · rename_i hpick
    simp [hpick]
  · rename_i id rr hpick
    obtain ⟨v, hv, rfl, -, -⟩ := Lb.pick_eligible hpick
    obtain rfl := List.mem_singleton.mp hv
    simp [hpick, hlook]

/-- **Manual and automatic selection.** A `Connect` that names a registered
exit is admitted to it exactly when automatic selection over the registry
restricted to it would choose it, whatever the request, unless the exit
registered with a negative capacity that its load is not below. -/
theorem manual_iff_automatic {tr : List (Event State Action Out)}
    (h : (machine cfg users).Run tr b) (load : Conn → ℤ) (hn : n ≠ "")
    (hex : b.exits.lookup n = some ex) :
    (∀ msg : Connect, ∀ rnd, msg.requestedExit = n →
      ((chooseExit cfg (b.withLoad load) msg rnd).1 = some ex ↔
        (chooseExit cfg ((b.withLoad load).only n) { msg with requestedExit := "" } rnd).1
          = some ex)) ↔
      0 ≤ (b.node ex).capacity ∨ load ex < (b.node ex).capacity := by
  have hid : ((b.withLoad load).node ex).nodeID = n := ((Reg.of_run h).exits n ex hex).2
  have hex' : (b.withLoad load).exits.lookup n = some ex := hex
  -- the exit serves its own region, so the two capacity tests are all there is
  have htests : (∀ msg : Connect, ∀ rnd, msg.requestedExit = n →
      ((chooseExit cfg (b.withLoad load) msg rnd).1 = some ex ↔
        (chooseExit cfg ((b.withLoad load).only n) { msg with requestedExit := "" } rnd).1
          = some ex)) ↔
      (((b.node ex).capacity = 0 ∨ load ex < (b.node ex).capacity) ↔
        ((b.node ex).capacity ≤ 0 ∨ load ex < (b.node ex).capacity)) := by
    constructor
    · intro hall
      have hthis := hall { requestedExit := n, requestedRegion := (b.node ex).region } 0 rfl
      rw [chooseExit_manual hex' hn rfl, chooseExit_only hex' hid rfl] at hthis
      simpa [State.withLoad, ExitNode.spare] using hthis
    · intro htest msg rnd hmsg
      rw [chooseExit_manual hex' hn hmsg, chooseExit_only hex' hid rfl]
      exact and_congr_right fun _ => htest
  rw [htests]
  omega

/-- An exit of capacity 5 with 5 clients is refused both ways. -/
theorem manual_iff_automatic_full : ∃ tr b,
    (machine {} aliceStore).Run tr b ∧ (b.node 0).capacity = 5 ∧
    ∀ msg : Connect, ∀ rnd, msg.requestedExit = "e1" →
      ((chooseExit {} (b.withLoad fun _ => 5) msg rnd).1 = some 0 ↔
        (chooseExit {} ((b.withLoad fun _ => 5).only "e1") { msg with requestedExit := "" } rnd).1
          = some 0) := by
  obtain ⟨tr, b, hrun, hex, hcap⟩ := (machine {} aliceStore).exists_run
    [.register 0 (node "e1" "us" 5)]
    (P := fun r => r.2.exits.lookup "e1" = some 0 ∧ (r.2.node 0).capacity = 5) (by decide +kernel)
  refine ⟨tr, b, hrun, hcap, ?_⟩
  refine (manual_iff_automatic hrun (fun _ => 5) (by decide) hex).mpr (Or.inl ?_)
  rw [hcap]
  decide

/-- An exit registers with capacity -1. The client that names it is refused,
the client that leaves the choice to the broker gets it. -/
theorem manual_refuses_negative : ∃ tr b,
    (machine {} aliceStore).Run tr b ∧ b.exits.entries.map (·.1) = ["e1"] ∧
    (b.node 0).capacity = -1 ∧
    (b.client 10).msg.requestedExit = "e1" ∧
    (b.client 10).reply = .error "requested exit e1 unavailable in region us" ∧
    (b.client 11).msg.requestedExit = "" ∧
    (b.client 11).pc = .relay ∧ (b.client 11).ex = 0 :=
  (machine {} aliceStore).exists_run_of_exec
    ([.register 0 (node "e1" "us" (-1)),
      .connect 10 { aliceConnect "us" "" with requestedExit := "e1" }, .client 10 {}, .client 10 {}] ++
      joins 11 (aliceConnect "us" "")) (by decide +kernel)

end Selection

end Broker
end Revquic
