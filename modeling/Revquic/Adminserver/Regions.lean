/-
# The page of regions

`listRegions` adds up, in one pass over the exits and a map, what `ListNodes`
shows of each. The loads are counters that the broker's goroutines raise and
lower; a page of one moment is exact also while sessions start, end and move.

Key definitions: `rowOf`, `exitsIn`.
Key theorem: `regions_exact`.
-/
import Revquic.Lib.Group
import Revquic.Adminserver.Admission
import Revquic.Broker.Load

namespace Revquic
namespace Adminserver

open Lib
open Broker (Conn Out)

/-! ### The loop -/

/-- The nodes of a region. -/
def nodesIn (code : String) (nodes : List DeviceView) : List DeviceView :=
  nodes.filter fun n => n.region = code

/-- What the loop adds to the entry of a region. -/
def addTo (o : Option Agg) (n : DeviceView) : Agg :=
  ⟨if n.status = nodeOnline then (o.getD {}).online + 1 else (o.getD {}).online,
    (o.getD {}).users + n.activeUsers⟩

theorem foldl_addTo : ∀ (l : List DeviceView) (a : Agg),
    l.foldl (fun o n => some (addTo o n)) (some a) =
      some ⟨a.online + l.countP (·.status = nodeOnline), a.users + (l.map (·.activeUsers)).sum⟩
  | [], a => by simp
  | n :: l, a => by
    rw [List.foldl_cons, foldl_addTo l, List.countP_cons, List.map_cons, List.sum_cons]
    simp only [addTo, Option.getD_some, decide_eq_true_eq]
    congr 2
    · split_ifs <;> omega
    · omega

/-- The row of a region: its nodes added up. -/
def rowOf (code : String) (nodes : List DeviceView) : Region where
  code := code
  name := code
  nodeCount := (nodesIn code nodes).countP (·.status = nodeOnline)
  onlineNodes := (nodesIn code nodes).countP (·.status = nodeOnline)
  activeUsers := ((nodesIn code nodes).map (·.activeUsers)).sum

theorem lookup_regions (nodes : List DeviceView) (code : String) :
    (nodes.foldl addNode ∅).lookup code = if nodesIn code nodes = [] then none else
      some ⟨(rowOf code nodes).onlineNodes, (rowOf code nodes).activeUsers⟩ := by
  refine (GoMap.lookup_foldl_group (·.region) addTo nodes ∅ code).trans ?_
  show (nodesIn code nodes).foldl (fun o n => some (addTo o n)) none = _
  unfold rowOf
  cases nodesIn code nodes with
  | nil => rfl
  | cons n l =>
    rw [if_neg (List.cons_ne_nil _ _), List.foldl_cons, foldl_addTo]
    dsimp only
    rw [List.countP_cons, List.map_cons, List.sum_cons]
    simp only [addTo, Option.getD_none, decide_eq_true_eq]
    congr 2
    · split_ifs <;> omega
    · omega

theorem mem_listRegions {nodes : List DeviceView} {row : Region} :
    row ∈ listRegions nodes ↔ ∃ code, nodesIn code nodes ≠ [] ∧ row = rowOf code nodes := by
  unfold listRegions
  rw [List.mem_map]
  constructor
  · rintro ⟨⟨code, a⟩, he, rfl⟩
    have hl := GoMap.mem_entries.mp he
    rw [lookup_regions] at hl
    split_ifs at hl with hne
    obtain rfl := Option.some.inj hl
    exact ⟨code, hne, rfl⟩
  · rintro ⟨code, hne, rfl⟩
    refine ⟨⟨code, ⟨(rowOf code nodes).onlineNodes, (rowOf code nodes).activeUsers⟩⟩, ?_, rfl⟩
    rw [GoMap.mem_entries, lookup_regions, if_neg hne]

theorem nodup_listRegions (nodes : List DeviceView) : ((listRegions nodes).map (·.code)).Nodup := by
  have hkeys : (listRegions nodes).map (·.code) = (nodes.foldl addNode ∅).keys := by
    rw [listRegions, List.map_map]
    rfl
  rw [hkeys]
  exact AList.keys_nodup _

/-! ### The exits of the broker -/

/-- The exits of a region. -/
def exitsIn (b : Broker.State) (code : String) : List Conn :=
  (b.exits.entries.map (·.2)).filter fun r => (b.node r).region = code

section
variable {cfg : Config} {users : Userstore.Table} {b : Broker.State} {s : State}
  {tr : List (Event State Action Out)} {code : String}

theorem nodesIn_listNodes (b : Broker.State) (code : String) :
    nodesIn code (listNodes b) = (exitsIn b code).map fun r => deviceView (b.node r) := by
  rw [nodesIn, listNodes, exitsIn, List.filter_map, List.filter_map, List.map_map]
  rfl

theorem nodup_exitsIn (hreg : Broker.Reg b) (code : String) : (exitsIn b code).Nodup := by
  have hconns : (b.exits.entries.map (·.2)).Nodup := by
    refine List.Nodup.of_map (fun r => (b.node r).nodeID) ?_
    have hkeys : (b.exits.entries.map (·.2)).map (fun r => (b.node r).nodeID) = b.exits.keys := by
      rw [List.map_map]
      exact List.map_congr_left fun e he => (hreg.exits e.1 e.2 (GoMap.mem_entries.mp he)).2
    rw [hkeys]
    exact AList.keys_nodup _
  exact hconns.filter _

/-- Every exit that is listed is online. -/
theorem rowOf_online (b : Broker.State) (code : String) :
    (rowOf code (listNodes b)).onlineNodes = (exitsIn b code).length := by
  show (nodesIn code (listNodes b)).countP _ = _
  rw [nodesIn_listNodes, List.countP_map, List.countP_eq_length.mpr]
  intro r _
  exact decide_eq_true (rfl : (deviceView (b.node r)).status = nodeOnline)

/-- The loads of the exits of a region are the sessions attached to them. -/
theorem rowOf_users (hreg : Broker.Reg b) (hload : Broker.Load b) (code : String) :
    (rowOf code (listNodes b)).activeUsers = b.sessions.count fun _ p =>
      decide ((b.sess p).exitConn ∈ exitsIn b code) &&
        !(b.client (b.sess p).clientConn).pc.uncounted := by
  have hsum : ∀ l : List Conn, (l.map fun r => (b.node r).active).sum =
      ((l.map fun r => b.sessions.count (b.counted r)).sum : ℕ) := by
    intro l
    induction l with
    | nil => rfl
    | cons r l ih =>
      rw [List.map_cons, List.sum_cons, List.map_cons, List.sum_cons, ih, hload r]
      push_cast
      rfl
  show ((nodesIn code (listNodes b)).map _).sum = _
  rw [nodesIn_listNodes, List.map_map]
  refine (hsum _).trans ?_
  rw [← GoMap.sum_count b.sessions (fun p => (b.sess p).exitConn)
    (fun _ p => !(b.client (b.sess p).clientConn).pc.uncounted) (nodup_exitsIn hreg code)]
  rfl

/-- **The page of regions is exact.** In every state of every run the page
made of the exits and their counters at that moment has one row for each
region that has an exit; it shows the number of the exits of the region, and
as their users the number of sessions that are attached to one of them and
counted. -/
theorem regions_exact (h : (machine cfg users).Run tr s) :
    ((listRegions (listNodes s.broker)).map (·.code)).Nodup ∧
    (∀ n r, s.broker.exits.lookup n = some r →
      ∃ row ∈ listRegions (listNodes s.broker), row.code = (s.broker.node r).region) ∧
    ∀ row ∈ listRegions (listNodes s.broker), row.nodeCount = (exitsIn s.broker row.code).length ∧
      row.onlineNodes = row.nodeCount ∧ 0 < row.nodeCount ∧
      row.activeUsers = s.broker.sessions.count fun _ p =>
        decide ((s.broker.sess p).exitConn ∈ exitsIn s.broker row.code) &&
          !(s.broker.client (s.broker.sess p).clientConn).pc.uncounted := by
  obtain ⟨tr', hr⟩ := broker_run h
  refine ⟨nodup_listRegions _, fun n r hn => ?_, fun row hrow => ?_⟩
  · refine ⟨rowOf (s.broker.node r).region (listNodes s.broker), mem_listRegions.mpr ⟨_, ?_, rfl⟩, rfl⟩
    rw [nodesIn_listNodes]
    refine List.ne_nil_of_mem (List.mem_map_of_mem (a := r) (List.mem_filter.mpr ⟨?_, ?_⟩))
    · exact List.mem_map.mpr ⟨⟨n, r⟩, GoMap.mem_entries.mpr hn, rfl⟩
    · exact decide_eq_true rfl
  · obtain ⟨code, hne, rfl⟩ := mem_listRegions.mp hrow
    have honline := rowOf_online s.broker code
    refine ⟨honline, rfl, ?_, rowOf_users (Broker.Inv.of_run hr).reg (Broker.Load.of_run hr) code⟩
    show 0 < (rowOf code (listNodes s.broker)).onlineNodes
    rw [honline]
    rw [nodesIn_listNodes] at hne
    exact List.length_pos_of_ne_nil fun hnil => hne (by rw [hnil]; rfl)

/-- Two exits of one region and a session on the first: the page shows one row,
with both exits and the one user. -/
theorem regions_exact_shared : ∃ tr s, (machine rootConfig {}).Run tr s ∧
    listRegions (listNodes s.broker) = [⟨"us", "us", 2, 2, 1⟩] ∧
    s.broker.sessions.count (fun _ p =>
      decide ((s.broker.sess p).exitConn ∈ exitsIn s.broker "us") &&
        !(s.broker.client (s.broker.sess p).clientConn).pc.uncounted) = 1 := by
  obtain ⟨tr, s, hr, hl⟩ := (machine rootConfig {}).exists_run
    (createAlice ++ (.register 0 (Broker.node "e1" "us" 0) ::
      .register 2 (Broker.node "e2" "us" 0) ::
      Broker.joins 1 { token := "t", requestedRegion := "us" }).map .broker)
    (P := fun r => listRegions (listNodes r.2.broker) = [⟨"us", "us", 2, 2, 1⟩])
    (by decide +kernel)
  obtain ⟨-, -, hrow⟩ := regions_exact hr
  obtain ⟨-, -, -, husers⟩ := hrow ⟨"us", "us", 2, 2, 1⟩ (by rw [hl]; exact List.mem_singleton_self _)
  exact ⟨tr, s, hr, hl, Int.ofNat.inj husers.symm⟩

end
end Adminserver
end Revquic
