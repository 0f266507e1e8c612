/-
# The history of a broker can be read

Every event of a run goes to the history as one line, with a node id and a
region, which are what an exit put into its `Register`, a user name and a
session id. `readAllEvents` gives up on a file with a line of 1 MiB.
`ReadControl` takes a `Register` of up to 1 MiB, and the line may need more
bytes for the same characters: one message is enough to break the history.

Key definition: `longRegister`.
Key theorems: `history_readable_iff`, `register_blocks_history`.
-/
import Revquic.Broker.Driven
import Revquic.Proto.Encoding
import Revquic.Qos.History

namespace Revquic
namespace Broker

open Lib Proto
open Qos (midnight)

section
variable {cfg : Config} {users : Userstore.Table} {b : State} {tr : List (Event State Action Out)}

/-- **Which histories can be read.** The events of a run can all be written,
and the file opened and loaded, if and only if every event a step raises has
less than 2^20 bytes as a line. The node id and the region in it are those of
a `Register` that was let in. So they can be read if the node id and the
region of each such `Register` leave room for what else the events hold. -/
theorem history_readable_iff (P : Qos.Printers) (h : (machine cfg users).Run tr b) :
    (P.jsonl.Readable b.qos.store ↔ ∀ e ∈ tr, ∀ ev ∈ derived e, ∃ n ∈ P.size ev, n < 2 ^ 20) ∧
      (∀ e ∈ tr, ∀ ev ∈ derived e, ∃ m ∈ registered cfg tr,
        ev.nodeID = m.nodeID ∧ (ev.region = m.region ∨ ev.region = "")) ∧
      ∀ k, (∀ e ∈ tr, ∀ ev ∈ derived e, ∃ n ∈ P.size { ev with nodeID := "", region := "" }, n ≤ k) →
        (∀ m ∈ registered cfg tr, k + Qos.Printers.stringSize "nodeId" m.nodeID +
          Qos.Printers.stringSize "region" m.region < 2 ^ 20) →
        P.jsonl.Readable b.qos.store := by
  have hiff : P.jsonl.Readable b.qos.store ↔
      ∀ e ∈ tr, ∀ ev ∈ derived e, ∃ n ∈ P.size ev, n < 2 ^ 20 := by
    rw [Qos.Jsonl.readable_iff, store_eq h]
    simp only [List.mem_flatMap, forall_exists_index, and_imp, Qos.Printers.fits_iff]
    exact ⟨fun hall e he ev hev => hall ev e he hev, fun hall ev e he hev => hall e he ev hev⟩
  refine ⟨hiff, fun e he => derived_names h he, fun k hrest hreg => hiff.mpr fun e he ev hev => ?_⟩
  obtain ⟨n, hn, hk⟩ := hrest e he ev hev
  obtain ⟨m, hm, hnode, hregion⟩ := derived_names h he ev hev
  have hle : Qos.Printers.stringSize "region" ev.region ≤
      Qos.Printers.stringSize "region" m.region := by
    rcases hregion with hr | hr
    · rw [hr]
    · rw [hr]
      exact Nat.zero_le _
  refine ⟨_, by rw [Qos.Printers.size_eq]; exact Option.mem_map_of_mem _ hn, ?_⟩
  have := hreg m hm
  rw [hnode]
  omega

end

/-- An exit and a client, with short names. -/
theorem history_readable_iff_short : ∃ tr b, (machine {} aliceStore).Run tr b ∧
    b.qos.store.map (·.kind) = [.nodeUp, .connect] ∧ midnight.jsonl.Readable b.qos.store := by
  obtain ⟨tr, b, hrun, hkinds, hsize⟩ := (machine {} aliceStore).exists_run
    ([.register 0 (node "e1" "us" 2), .exit 0 true, .exit 0 true, .exit 0 true] ++
      joins 1 (aliceConnect "us" ""))
    (P := fun r => r.2.qos.store.map (·.kind) = [.nodeUp, .connect] ∧
      ∀ e ∈ r.1, ∀ ev ∈ derived e, ∃ n ∈ midnight.size ev, n < 2 ^ 20)
    (by decide +kernel)
  exact ⟨tr, b, hrun, hkinds, (history_readable_iff midnight hrun).1.mpr hsize⟩

/-! ### A long node id -/

/-- A node id of `n` letters. -/
def longID (n : ℕ) : String := String.ofList (List.replicate n 'a')

theorem length_longID (n : ℕ) : (Json.body (longID n)).length = n := by
  have ha : Json.escape 'a' = [97] := by decide +kernel
  rw [Json.body, longID, String.toList_ofList]
  induction n with
  | zero => rfl
  | succ n ih => rw [List.replicate_succ, List.flatMap_cons, ha, List.length_append, ih]; simp; omega

theorem longID_ne {n : ℕ} (h : 0 < n) : longID n ≠ "" := by
  intro heq
  have := length_longID n
  rw [heq] at this
  change 0 = n at this
  omega

/-- The registration of a node with the default secret. -/
def longRegister (n : ℕ) : Register := { token := "node-secret", nodeID := longID n }

/-- Its text. -/
theorem length_longRegister {n : ℕ} (h : 0 < n) :
    (Json.object (longRegister n).members).length = n + 53 := by
  have hnames : (Json.body "type").length = 4 ∧ (Json.body "register").length = 8 ∧
      (Json.body "token").length = 5 ∧ (Json.body "node-secret").length = 11 ∧
      (Json.body "nodeId").length = 6 := by decide +kernel
  obtain ⟨h1, h2, h3, h4, h5⟩ := hnames
  have hmembers : (longRegister n).members = ("type", .str "register") ::
      (Json.omitEmpty "token" "node-secret" ++ Json.omitEmpty "nodeId" (longID n)) := by
    show _ :: (Json.omitEmpty "token" "node-secret" ++ (Json.omitEmpty "nodeId" (longID n) ++ [])) = _
    rw [List.append_nil]
  rw [hmembers, Json.length_object, List.map_cons, List.sum_cons, List.map_append, List.sum_append,
    Json.length_omitEmpty, Json.length_omitEmpty, if_neg (by decide), if_neg (longID_ne h),
    Json.length_member, Json.Value.text, Json.length_quote, length_longID, h1, h2, h3, h4, h5]
  omega

/-- An exit registers and is announced. -/
theorem register_run (m : Register) (h : m.token = "node-secret") :
    ∃ tr b, (machine {} aliceStore).Run tr b ∧ registered {} tr = [m] ∧
      b.qos.store = [{ ts := 0, kind := .nodeUp, nodeID := m.nodeID, region := m.region }] := by
  obtain ⟨token, nodeID, name, region, capacity, os⟩ := m
  obtain rfl : token = "node-secret" := h
  exact (machine {} aliceStore).exists_run_of_exec
    [.register 0 ⟨"node-secret", nodeID, name, region, capacity, os⟩, .exit 0 true, .exit 0 true]
    ⟨_, rfl, rfl, rfl⟩

/-- The line of its `node_up` event. -/
theorem size_longRegister {n : ℕ} (h : 0 < n) :
    midnight.size { ts := 0, kind := .nodeUp, nodeID := longID n } = some (n + 58) := by
  have hstamp : (Json.body "1970-01-01T00:00:00Z").length = 20 := by decide +kernel
  have hkind : Qos.Kind.nodeUp.name.length = 7 := by decide
  have hname : "nodeId".length = 6 := by decide
  simp only [Qos.Printers.size, midnight, Qos.Printers.rate, Qos.Printers.stringSize, if_true, hstamp,
    hkind, if_neg (longID_ne h), length_longID, hname, List.map_nil, List.sum_nil]
  congr 1
  omega

/-- A `Register` of 2^20 bytes is accepted, and the history cannot be opened
or loaded any more. -/
theorem register_blocks_history : ∃ (m : Register) (body : List UInt8), body.length ≤ 2 ^ 20 ∧
    (registerJson.readControl ⟨[putUint32 body.length ++ body], .eof⟩).1 = .ok m ∧
    ∃ tr b, (machine {} aliceStore).Run tr b ∧ registered {} tr = [m] ∧
      ∃ file, b.qos.store.foldlM midnight.jsonl.write [] = some file ∧
        midnight.jsonl.trim file = none ∧ ∀ limit, midnight.jsonl.load file limit = none := by
  obtain ⟨n, hpos, hn⟩ : ∃ n, 0 < n ∧ n + 53 = 2 ^ 20 := ⟨2 ^ 20 - 53, by decide, by decide⟩
  have hlen : (Json.object (longRegister n).members).length ≤ 2 ^ 20 := by
    rw [length_longRegister hpos, hn]
  obtain ⟨tr, b, hrun, hreg, hstore⟩ := register_run (longRegister n) rfl
  generalize hbody : Json.object (longRegister n).members = body at hlen
  have hread : (⟨[putUint32 body.length ++ body], .eof⟩ : Stream UInt8).bytes =
      putUint32 body.length ++ body ++ [] := List.flatten_cons
  refine ⟨longRegister n, body, hlen, ?_, tr, b, hrun, hreg, ?_⟩
  · exact (Json.readControl_frame (congrArg some hbody) hlen hread).1
  -- the line is written, and is too long
  obtain ⟨text, htext, hlong⟩ := Option.map_eq_some_iff.mp
    ((Qos.Printers.length_marshal _).trans (size_longRegister hpos))
  have hwritten : ∀ ev ∈ b.qos.store, (midnight.jsonl.marshal ev).isSome = true := by
    rw [hstore, List.forall_mem_singleton]
    exact Option.isSome_of_eq_some htext
  have hfits : ¬ midnight.jsonl.Fits { ts := 0, kind := .nodeUp, nodeID := longID n } := by
    rintro ⟨text', htext', hlt⟩
    obtain rfl := Option.some.inj (htext.symm.trans htext')
    rw [hlong, Qos.maxLine] at hlt
    omega
  refine ⟨_, Qos.Jsonl.writes_iff.mpr ⟨hwritten, List.nil_append _⟩, ?_⟩
  exact Qos.Jsonl.blocked hwritten (by rw [hstore]; exact List.mem_singleton_self _) hfits

end Broker
end Revquic
