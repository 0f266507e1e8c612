/-
# Reply packets find their session

`tunToDatagram` finds the session of a reply packet by its destination
address, in `byIP`. Every session a drained exit has is one whose address
nobody else can have: it is alive, or its address was leaked, or someone
still has to write its `MsgSessionEnd`. So `byIP` stays the inverse of
`sessions`, unless a `MsgSessionStart` overtakes the `MsgSessionEnd` of the
session that had its address before: the broker releases an address under
`b.mu` and writes afterwards. The exit then has two sessions with one
address, and `removeSession` of the old one deletes the `byIP` entry of the
new one.

Key definitions: `Vacated`, `Kept`, `Routed`, `Routes`.
Key theorem: `routes_of_vacated`.
-/
import Revquic.Broker.Reuse
import Revquic.Link.Agree

namespace Revquic
namespace Link

open Lib Netip Proto Broker
open Ippool (Pool)

/-- A `MsgSessionStart` is not written to exit `ex` while the `MsgSessionEnd`
of another session of its node id with the same address is owed. -/
def Vacated (ex : Conn) (n : String) (b : Broker.State) : Broker.Action → Prop
  | .client c _ => (b.client c).pc = .start → (b.client c).ex = ex →
    ∀ p, p ≠ (b.client c).s → (b.sess p).nodeID = n →
      (b.sess p).clientAddr = (b.sess (b.client c).s).clientAddr → ¬ endOwed b p
  | _ => True

/-- Session `p` is the last that had its address, or someone still has to
tell the exit of its end. -/
def Kept (b : Broker.State) (p : Conn) : Prop :=
  endOwed b p ∨ b.Live p ∨ b.ledger.Orphan (b.sess p).clientAddr

/-- Every session of the tables is the broker's, with its address. -/
def Owned (n : String) (b : Broker.State) (t : Exit.Tables) : Prop :=
  ∀ sid q, t.sessions.lookup sid = some q → ∃ p, b.Made p ∧ (b.sess p).id = sid ∧
    (b.sess p).nodeID = n ∧ (t.es q).clientIP = (b.sess p).clientIP ∧ Kept b p

/-- The exit's routing at every message it has still to read, and its
sessions when it has read them all. -/
structure Routed (n : String) (l : State) : Prop where
  along : l.stream.Along Reader.read fun r => r.toTables.Inverse
  fresh : (l.stream.view Reader.read).Fresh
  owned : Owned n l.broker (l.stream.view Reader.read).toTables
  silent : (l.stream.view Reader.read).registered = false →
    ∀ sid, (l.stream.view Reader.read).sessions.lookup sid = none

section
variable {cfg : Config} {users : Userstore.Table} {ex : Conn} {n : String} {l l' : State}
  {b b' : Broker.State} {a : Broker.Action} {o : List Out} {tr : List (Event State Action Out)}

/-! ### Addresses the exit has not been told to forget -/

theorem Kept.step (hj : Joint ex n b) (hs : Broker.step cfg b a = some (b', o)) {p : Conn}
    (h : Kept b p) (hp : b.Made p) (hn : (b.sess p).nodeID = n) {x x' : Option Bool}
    (hx : Heard b b' p x x') (hx' : x' ≠ none) : Kept b' p := by
  have hm := step_move hs
  have haddr := (hm.static hj.inv.rep hp).clientAddr
  rcases h with howed | hl | horph
  · cases hx with
    | nothing _ _ _ owed => exact Or.inl (owed howed)
    | start c _ core hpc hcs =>
      refine Or.inr (Or.inl ?_)
      rw [State.Live, core.sessions, core.parked]
      exact hcs ▸ live_of_sessions (hj.inv.rep.held c (by rw [hpc]; rfl)).1
    | suspend c _ _ _ _ _ _ owed => exact Or.inl (owed howed)
    | finish _ gone => exact absurd gone hx'
  · by_cases hl' : b'.Live p
    · exact Or.inr (Or.inl hl')
    · rcases owed_or_overwritten hj.inv hj.up hm hl hn hl' with h | ⟨c, i, -, rfl, hparks, hkey⟩
      · exact Or.inl h
      · refine Or.inr (Or.inr ?_)
        rw [haddr]
        exact orphan_of_overwrite hj.inv.rep hj.exclusive hparks.1 hkey
  · refine Or.inr (Or.inr ?_)
    rw [haddr]
    exact (ledger_step hj.inv.rep hm).orphan horph

/-- What keeps its address keeps it from a session that is alive. -/
theorem Kept.addr_ne (hj : Joint ex n b) {p q : Conn} (h : Kept b p) (howed : ¬ endOwed b p)
    (hq : b.Live q) (hne : p ≠ q) : (b.sess p).clientAddr ≠ (b.sess q).clientAddr := by
  intro he
  have hown : b.ledger.owns (.session q) (b.sess p).clientAddr := (owns_session hq _).2 he
  rcases h with h | hl | horph
  · exact howed h
  · have := hj.exclusive.inj (.session p) (.session q) _ ((owns_session hl _).2 rfl) hown
    exact hne (Owner.session.inj this)
  · exact horph.2 _ hown

/-! ### One step -/

theorem control_of_about {t : Exit.Tables} {m : Control} (h : about m = none) : t.control m = t := by
  cases m <;> first | rfl | cases h

theorem Reader.read_of_about {r : Reader} {m : Control} (h : about m = none) :
    (r.read m).toTables = r.toTables := by
  unfold Reader.read
  split
  · exact control_of_about h
  · rfl

theorem Reader.foldl_of_about {r : Reader} {ms : List Control} (h : ∀ m ∈ ms, about m = none) :
    (ms.foldl Reader.read r).toTables = r.toTables := by
  induction ms generalizing r with
  | nil => rfl
  | cons m ms ih =>
    rw [List.foldl_cons, ih fun m' hm' => h m' (List.mem_cons_of_mem _ hm'),
      Reader.read_of_about (h m List.mem_cons_self)]

/-- A step leaves the tables alone, or writes one message that `controlLoop`
will take. -/
theorem tables_of_step (ex : Conn) (hinv : Inv b) (hs : Broker.step cfg b a = some (b', o)) (r : Reader) :
    (∀ k, (((toExit ex o).take k).foldl Reader.read r).toTables = r.toTables) ∨
      ∃ m, toExit ex o = [m] ∧ r.registered = true := by
  have hwritten : ∀ ok d m, (∀ k, (((toExit ex (written ok d m)).take k).foldl
      Reader.read r).toTables = r.toTables) ∨
      ∃ m', toExit ex (written ok d m) = [m'] ∧ r.registered = true := by
    intro ok d m
    rw [toExit_written]
    split_ifs
    · cases hr : r.registered with
      | true => exact Or.inr ⟨m, rfl, rfl⟩
      | false =>
        refine Or.inl fun k => ?_
        cases k with
        | zero => rfl
        | succ k => simp [Reader.read, hr]
    · exact Or.inl fun k => by rw [List.take_nil]; rfl
  cases says_of_step hinv.timers hs with
  | quiet side =>
    refine Or.inl fun k => Reader.foldl_of_about fun m hm => ?_
    exact about_of_side (side ex m (mem_toExit (List.mem_of_mem_take hm)))
  | expire k ok p => exact Or.inl fun j => by rw [show toExit ex [_] = [] from rfl, List.take_nil]; rfl
  | expired k ok hpc =>
    cases (b.timer k).ex with
    | none => exact Or.inl fun j => by rw [show toExit ex [] = [] from rfl, List.take_nil]; rfl
    | some r => exact hwritten _ _ _
  | _ => exact hwritten _ _ _

/-- Who writes a `MsgSessionStart`. -/
theorem start_of_step (hinv : Inv b) (hs : Broker.step cfg b a = some (b', o)) {sid mtu : ℕ}
    {clientIP mask : String} {ice : IceServers}
    (hm : Out.ctrl ex (.sessionStart sid clientIP mask mtu ice) ∈ o) :
    ∃ c i, a = .client c i ∧ (b.client c).pc = .start ∧ (b.client c).ex = ex ∧
      sid = (b.sess (b.client c).s).id ∧ clientIP = (b.sess (b.client c).s).clientIP := by
  cases says_of_step hinv.timers hs with
  | quiet side => cases side _ _ hm
  | reply c i hpc =>
    have := hinv.replies c hpc
    rw [← (mem_written hm).2.2] at this
    cases this
  | start c i hpc =>
    obtain ⟨-, he, heq⟩ := mem_written hm
    obtain ⟨rfl, rfl, -⟩ := Control.sessionStart.inj heq
    exact ⟨c, i, rfl, hpc, he.symm, rfl, rfl⟩
  | expire k ok p => cases List.mem_singleton.mp hm
  | expired k ok hpc =>
    cases hx : (b.timer k).ex <;> rw [hx] at hm
    · cases hm
    · cases (mem_written hm).2.2
  | _ => cases (mem_written hm).2.2

/-- The sessions of the tables stay the broker's. -/
theorem Owned.step (hj : Joint ex n b) (hs : Broker.step cfg b a = some (b', o))
    (hst : StaysUp ex n b a) {r : Reader} (hf : r.Fresh) (hreg : r.registered = true)
    (h : Owned n b r.toTables) :
    Owned n b' ((toExit ex o).foldl Reader.read r).toTables := by
  have hm := step_move hs
  have hstand := standing_foldl hf fun m (hm : m ∈ toExit ex o) =>
    ⟨(proper_of_step hj.inv hj.duties hj.addressed hj.up hs (mem_toExit hm)).parses,
      fun _ => hreg⟩
  intro sid q hq
  -- the session is known after the step, so its `MsgSessionEnd` was not written
  have hold : ∀ p, b.Made p → (b.sess p).id = sid → (b.sess p).nodeID = n → Kept b p →
      b'.Made p ∧ (b'.sess p).id = sid ∧ (b'.sess p).nodeID = n ∧
        (b'.sess p).clientIP = (b.sess p).clientIP ∧ Kept b' p := by
    intro p hp hid hn hk
    have hs' := hm.static hj.inv.rep hp
    refine ⟨made_of_move hj.inv.rep hm hp, hs'.id.trans hid, hs'.nodeID.trans hn, hs'.clientIP, ?_⟩
    refine hk.step hj hs hp hn (heard_of_step (σ := standing r.toTables) hj.inv hj.up hj.duties hs
      hst hp hn) ?_
    rw [← hstand, hid]
    simp [standing, hq]
  have hsame : r.sessions.lookup sid = some q →
      (((toExit ex o).foldl Reader.read r).es q).clientIP = (r.es q).clientIP →
      ∃ p, b'.Made p ∧ (b'.sess p).id = sid ∧ (b'.sess p).nodeID = n ∧
        (((toExit ex o).foldl Reader.read r).es q).clientIP = (b'.sess p).clientIP ∧ Kept b' p := by
    intro hq' hip
    obtain ⟨p, hp, hid, hn, hpip, hk⟩ := h sid q hq'
    obtain ⟨h1, h2, h3, h4, h5⟩ := hold p hp hid hn hk
    exact ⟨p, h1, h2, h3, by rw [hip, hpip, h4], h5⟩
  rcases tables_of_step ex hj.inv hs r with htab | ⟨m, hmsg, -⟩
  · have htab := htab (toExit ex o).length
    rw [List.take_length] at htab
    rw [htab] at hq
    exact hsame hq (by rw [htab])
  · have hread : ((toExit ex o).foldl Reader.read r).toTables = r.control m := by
      rw [hmsg]
      simp [Reader.read, hreg]
    have hmem : Out.ctrl ex m ∈ o := mem_toExit (by rw [hmsg]; exact List.mem_singleton_self _)
    rcases Exit.Tables.lookup_control hf (hread ▸ hq) with
      ⟨clientIP, mask, mtu, ice, rfl, hip⟩ | ⟨hq', hip⟩
    · obtain ⟨c, i, -, hpc, hex, hid, hcip⟩ := start_of_step hj.inv hs hmem
      have hph : (b.client c).pc.phase = .holds := by rw [hpc]; rfl
      obtain ⟨h1, h2, h3, h4, h5⟩ := hold _ (hj.inv.attach.runs c (Or.inl hph)).1 hid.symm
        ((runs_on hj.inv hj.up (Or.inl hph)).1 hex)
        (Or.inr (Or.inl (live_of_sessions (hj.inv.rep.held c hph).1)))
      exact ⟨_, h1, h2, h3, by rw [hread, hip, hcip, h4], h5⟩
    · exact hsame hq' (by rw [hread, hip])

/-- The address of a session that starts has no session at the exit. -/
theorem inverse_of_step (hj : Joint ex n b) (hs : Broker.step cfg b a = some (b', o))
    (hv : Vacated ex n b a) {t : Exit.Tables} (hf : t.Fresh) (ho : Owned n b t) (hi : t.Inverse)
    {m : Control} (hm : Out.ctrl ex m ∈ o) : (t.control m).Inverse := by
  refine hi.control hf fun sid clientIP mask mtu ice ip hmsg hip hsid => ?_
  subst hmsg
  obtain ⟨c, i, rfl, hpc, hex, rfl, rfl⟩ := start_of_step hj.inv hs hm
  have hph : (b.client c).pc.phase = .holds := by rw [hpc]; rfl
  rw [hj.addressed.parse (hj.inv.attach.runs c (Or.inl hph)).1] at hip
  obtain rfl := Option.some.inj hip
  cases hby : t.byIP.lookup (b.sess (b.client c).s).clientAddr with
  | none => rfl
  | some sid' =>
    obtain ⟨q, hq, hqip⟩ := hi.owned _ _ hby
    obtain ⟨p, hp, rfl, hn, hpip, hk⟩ := ho sid' q hq
    rw [hpip, hj.addressed.parse hp] at hqip
    have haddr := Option.some.inj hqip
    have hne : p ≠ (b.client c).s := by
      rintro rfl
      rw [hsid] at hq
      cases hq
    exact absurd haddr (hk.addr_ne hj (hv hpc hex p hne hn haddr)
      (live_of_sessions (hj.inv.rep.held c hph).1) hne)

theorem Routed.init (users : Userstore.Table) : Routed n (machine cfg users ex n).init := by
  refine ⟨fun k => ?_, ⟨nofun, nofun⟩, nofun, fun _ _ => rfl⟩
  change Exit.Tables.Inverse (List.foldl Reader.read _ (List.take k [])).toTables
  rw [List.take_nil]
  exact ⟨nofun, nofun⟩

theorem Routed.step (h : Routed n l) (hj : Joint ex n l.broker)
    (hs : step cfg ex n l (.broker a) = some (l', o)) (hv : Vacated ex n l.broker a) :
    Routed n l' := by
  obtain ⟨hst, hs, hstream⟩ := step_broker hs
  have hview : l'.stream.view Reader.read =
      (toExit ex o).foldl Reader.read (l.stream.view Reader.read) := by
    rw [hstream, Fifo.view_send]
  have hregistered : (l'.stream.view Reader.read).registered = false →
      (l.stream.view Reader.read).registered = false := by
    rw [hview]
    intro hno
    by_contra hreg
    rw [Reader.registered_foldl (Or.inl (Bool.not_eq_false _ ▸ hreg))] at hno
    cases hno
  have htab := tables_of_step ex hj.inv hs (l.stream.view Reader.read)
  refine ⟨?_, ?_, ?_, fun hno sid => ?_⟩
  · rw [hstream]
    refine h.along.send fun k => ?_
    rcases htab with htab | ⟨m, hmsg, hreg⟩
    · rw [htab k]
      exact h.along.view
    · rw [hmsg]
      cases k with
      | zero => exact h.along.view
      | succ k =>
        have hread : (List.foldl Reader.read (l.stream.view Reader.read)
            (List.take (k + 1) [m])).toTables = (l.stream.view Reader.read).control m := by
          simp [Reader.read, hreg]
        rw [hread]
        exact inverse_of_step hj hs hv h.fresh h.owned h.along.view
          (mem_toExit (by rw [hmsg]; exact List.mem_singleton_self _))
  · rw [hview]
    exact Reader.fresh_foldl h.fresh
  · cases hreg : (l.stream.view Reader.read).registered with
    | true =>
      rw [hview]
      exact h.owned.step hj hs hst h.fresh hreg
    | false =>
      -- the one message that may be written is taken for the answer to `Register`
      rcases htab with htab | ⟨m, -, hreg'⟩
      · have htab := htab (toExit ex o).length
        rw [List.take_length, ← hview] at htab
        rw [htab]
        intro sid q hq
        rw [h.silent hreg sid] at hq
        cases hq
      · rw [hreg] at hreg'
        cases hreg'
  · have hno' := hregistered hno
    rcases htab with htab | ⟨m, -, hreg⟩
    · have htab := htab (toExit ex o).length
      rw [List.take_length, ← hview] at htab
      rw [htab]
      exact h.silent hno' sid
    · rw [hno'] at hreg
      cases hreg

theorem Routed.of_run (h : (machine cfg users ex n).Run tr l) :
    (∀ e ∈ tr, e.act.meets (Vacated ex n e.pre.broker)) → Routed n l := by
  induction h with
  | nil => exact fun _ => .init users
  | @snoc tr s s' a o hr hs ih =>
    intro hC
    have hrouted := ih fun e he => hC e (List.mem_append_left _ he)
    have hlast := hC _ (List.mem_append_right _ (List.mem_singleton_self _))
    cases a with
    | broker a => exact hrouted.step (.of_run hr) hs hlast
    | recv =>
      change Link.step cfg ex n s .recv = _ at hs
      obtain ⟨hb, hv, -⟩ := step_recv hs
      have hv' := Fifo.view_recv hv
      exact ⟨hrouted.along.recv hv, by rw [hv']; exact hrouted.fresh,
        by rw [hb, hv']; exact hrouted.owned, by rw [hv']; exact hrouted.silent⟩

theorem vacated_of_few {N : ℕ} (h : (machine cfg users ex n).Run tr l)
    (hC : ∀ e ∈ tr, e.act.meets (Few N)) (hone : ∀ e ∈ tr, OneWriter N e.pre.broker) :
    ∀ e ∈ tr, e.act.meets (Vacated ex n e.pre.broker) := by
  refine meets_of_forall fun e he a ha => ?_
  cases a with
  | client c i =>
    intro hpc _ p _ _ _ howed
    obtain ⟨h1, h2⟩ := oneWriter_of_few h hC hone he hpc
    rcases howed with ⟨d, hd, -⟩ | ⟨k, hk, -⟩
    · have := h1 d
      rcases hd with hd | hd <;> (rw [hd] at this; cases this)
    · exact h2 k hk
  | _ => trivial

/-! ### Routing -/

/-- The two maps are inverse; so no session's removal touches another's
routing entry, and a reply packet goes to the session that has its
destination address. -/
structure Routes (t : Exit.Tables) : Prop where
  inverse : t.Inverse
  others : ∀ sid sid' ip, sid' ≠ sid → t.byIP.lookup ip = some sid' →
    (t.removeSession sid).byIP.lookup ip = some sid'
  reply : ∀ pkt dst, Exit.ipv4Dst pkt = some dst → ∀ q, t.route pkt = some q ↔
    ∃ sid, t.sessions.lookup sid = some q ∧ parseAddr (t.es q).clientIP = some dst

/-- **In a run in which no `MsgSessionStart` overtakes the `MsgSessionEnd` of
the session that had its address, the exit routes every reply packet to the
session that has its destination address**, also before it has read
everything. -/
theorem routes_of_vacated (h : (machine cfg users ex n).Run tr l)
    (hC : ∀ e ∈ tr, e.act.meets (Vacated ex n e.pre.broker)) :
    Routes l.stream.reader.toTables := by
  have hinv := (Routed.of_run h hC).along.now
  exact ⟨hinv, fun _ _ _ => hinv.removeSession_others, fun _ _ => hinv.route_iff⟩

/-- Two sessions, one of them resumed, and a third that has ended. -/
theorem routes_of_vacated_three : ∃ tr l, (machine {} aliceStore 0 "e1").Run tr l ∧ Quiet 0 l ∧
    l.stream.reader.byIP.lookup (.v4 0x0a630002#32) = some 1 ∧
    l.stream.reader.byIP.lookup (.v4 0x0a630003#32) = some 2 ∧
    Routes l.stream.reader.toTables := by
  obtain ⟨tr, l, hr, hfew, hone, hq, h1, h2⟩ := (machine {} aliceStore 0 "e1").exists_run
    (script (.register 0 (node "e1" "us" 0) :: .exit 0 true :: joins 1 (aliceConnect "us" "k") ++
      [.drop 1 .other, .client 1 {}, .client 1 {}] ++ rejoins 2 (aliceConnect "us" "k") ++
      joins 3 (aliceConnect "us" "") ++ joins 4 (aliceConnect "us" "") ++
      [.drop 4 .other, .client 4 {}, .client 4 {}]) 7)
    (P := fun r => (∀ e ∈ r.1, e.act.meets (Few 5)) ∧ (∀ e ∈ r.1, OneWriter 5 e.pre.broker) ∧
      QuietBelow 5 0 r.2 ∧ r.2.stream.reader.byIP.lookup (.v4 0x0a630002#32) = some 1 ∧
      r.2.stream.reader.byIP.lookup (.v4 0x0a630003#32) = some 2)
    (by decide +kernel)
  exact ⟨tr, l, hr, quiet_of_few hr hfew hq, h1, h2,
    routes_of_vacated hr (vacated_of_few hr hfew hone)⟩

/-! ### An address that is used again -/

/-- The pool of a broker that has just started. -/
def vpnPool : Pool := Pool.new vpnPrefix [.v4 0x0a630001#32]

theorem masked_vpnPool : vpnPool.Masked := @Pool.masked_of_pfx _ vpnPrefix rfl rfl

theorem usable_vpnPool : ∀ k < 253, vpnPool.usable (vpnPool.host (k + 2)) = true := by
  decide +kernel

/-- The first `k` addresses behind the gateway are in use, and the cursor is
behind them. -/
structure Taken (k : ℕ) (p : Pool) : Prop where
  pfx : p.pfx = vpnPool.pfx
  reserved : p.reserved = vpnPool.reserved
  next : p.next = vpnPool.host (k + 2)
  used : ∀ a, a ∈ p.used ↔ ∃ i < k, a = vpnPool.host (i + 2)

theorem Taken.allocate {k : ℕ} {p : Pool} (h : Taken k p) (hk : k < 253) :
    ∃ p', p.allocate = .ok (vpnPool.host (k + 2), p') ∧ Taken (k + 1) p' := by
  have hsize : vpnPool.size = 256 := rfl
  have husable : p.usable p.next = true := by
    rw [Pool.usable_congr h.pfx h.reserved, h.next, usable_vpnPool k hk]
  have hwrap : p.wrap p.next = p.next := by
    refine Pool.wrap_of_contains ?_
    by_contra hc
    simp [Pool.usable, hc] at husable
  have hunused : p.next ∉ p.used := by
    rw [h.used, h.next]
    rintro ⟨i, hi, heq⟩
    have := masked_vpnPool.host_inj (by omega) (by omega) heq
    omega
  obtain ⟨tries, htries⟩ :
      ∃ n, (if p.pfx.bits ≤ 32 then 2 ^ (32 - p.pfx.bits) + 3 else 1) = n + 1 := by
    split
    · exact ⟨_, rfl⟩
    · exact ⟨0, rfl⟩
  refine ⟨{ p with used := insert p.next p.used, next := p.next.next }, ?_,
    ⟨h.pfx, h.reserved, ?_, fun a => ?_⟩⟩
  · rw [← h.next]
    simp only [Pool.allocate, htries, Pool.sweep, hwrap, husable, hunused, decide_false,
      Bool.not_false, Bool.and_self, if_true]
  · show p.next.next = _
    rw [h.next, masked_vpnPool.next_host (by omega)]
  · simp only [Finset.mem_insert, h.used, h.next, Nat.lt_succ_iff_lt_or_eq, or_and_right, exists_or,
      exists_eq_left, or_comm]

/-- All addresses are in use. -/
def fullPool : Pool :=
  { vpnPool with
    used := ⟨(List.range 253).map fun i => vpnPool.host (i + 2), by
      refine Multiset.coe_nodup.mpr (List.nodup_range.map_on fun i hi j hj h => ?_)
      rw [List.mem_range] at hi hj
      have hsize : vpnPool.size = 256 := rfl
      have := masked_vpnPool.host_inj (by omega) (by omega) h
      omega⟩
    next := vpnPool.host 255 }

theorem Taken.eq_fullPool {p : Pool} (h : Taken 253 p) : p = fullPool := by
  obtain ⟨pfx, reserved, used, next⟩ := p
  obtain ⟨rfl, rfl, rfl, hused⟩ := h
  congr 1
  ext a
  rw [hused]
  simp [eq_comm]

/-- The broker with one exit and one client, as the next ones find it. -/
abbrev Opened (l : State) : Prop :=
  l.broker.nextSession = 1 ∧ l.broker.ipPool.next = vpnPool.host 3 ∧
  l.broker.ipPool.used = {vpnPool.host 2} ∧ (∀ c : ℕ, c < 254 → 2 ≤ c → l.broker.unused c) ∧
  chooseExit {} l.broker (aliceConnect "us" "") 0 = (some 0, l.broker.rr) ∧
  Userstore.authenticateForRegion id l.broker.users "tok" "us" = .ok (aliceStore.recs 0).user

/-- A new client, up to its address. -/
theorem exec_seat {c : Conn} {a : Addr} {pool : Pool} (hc : l.broker.unused c)
    (hx : chooseExit {} l.broker (aliceConnect "us" "") 0 = (some 0, l.broker.rr))
    (hu : Userstore.authenticateForRegion id l.broker.users "tok" "us" =
      .ok (aliceStore.recs 0).user)
    (ha : l.broker.ipPool.allocate = .ok (a, pool)) :
    ∃ x ∈ (machine {} aliceStore 0 "e1").exec l
        ((.connect c (aliceConnect "us" "") :: List.replicate 4 (.client c {})).map .broker),
      (∀ e ∈ x.1, ∀ N, c < N → e.act.meets (Few N)) ∧
      x.2 = { l with broker := { l.broker with
        client := Function.update l.broker.client c
          { pc := .allocated, msg := aliceConnect "us" "", user := (aliceStore.recs 0).user
            sid := l.broker.nextSession + 1, clientAddr := a }
        nextSession := l.broker.nextSession + 1, ipPool := pool } } := by
  have hx' : ∀ f, chooseExit {} { l.broker with client := f } (aliceConnect "us" "") 0 =
    (some 0, l.broker.rr) := fun _ => hx
  have ht : (aliceConnect "us" "").token = "tok" := rfl
  have hr : (aliceConnect "us" "").requestedRegion = "us" := rfl
  have hl : (aliceConnect "us" "").listExits = false := rfl
  have hk : (aliceConnect "us" "").resumeKey = "" := rfl
  simp [Machine.exec, machine, step, StaysUp, Broker.step, hc, List.replicate, clientStep,
    authenticate, ht, hr, hu, hl, hk, admitClient, hx', drawID, Broker.allocate, ha, State.setClient,
    Except.mapError, toExit, Fifo.send, Action.meets, Few]

/-- Clients 2 to `k` have got as far as their addresses. -/
def crowded (l : State) (k : ℕ) (ipPool : Pool) : State :=
  { l with broker := { l.broker with
    client := fun c =>
      if 2 ≤ c ∧ c ≤ k then
        { pc := .allocated, msg := aliceConnect "us" "", user := (aliceStore.recs 0).user, sid := c
          clientAddr := vpnPool.host (c + 1) }
      else l.broker.client c
    nextSession := k, ipPool } }

/-- One client after the other takes an address. -/
theorem exists_crowded (h : (machine {} aliceStore 0 "e1").Run tr l)
    (hfew : ∀ e ∈ tr, e.act.meets (Few 255)) (hl : Opened l) {k : ℕ} (h1 : 1 ≤ k) (hk : k ≤ 253) :
    ∃ tr p, (machine {} aliceStore 0 "e1").Run tr (crowded l k p) ∧
      (∀ e ∈ tr, e.act.meets (Few 255)) ∧ Taken k p := by
  obtain ⟨hdrawn, hnext, hused, hunused, hx, hu⟩ := hl
  induction k, h1 using Nat.le_induction with
  | base =>
    obtain ⟨trb, hrb⟩ := broker_run h
    have hkept := kept_of_run hrb
    refine ⟨tr, l.broker.ipPool, ?_, hfew, hkept.pfx, hkept.reserved, hnext, by simp [hused]⟩
    have hno : ∀ c : Conn, ¬ (2 ≤ c ∧ c ≤ 1) := fun c hc => absurd (hc.1.trans hc.2) (by decide)
    simp only [crowded, hno, if_false]
    rwa [← hdrawn]
  | succ k h1 ih =>
    obtain ⟨tr, p, hr, hfew, ht⟩ := ih (by omega)
    obtain ⟨p', ha, ht'⟩ := ht.allocate (by omega)
    have hc : (crowded l k p).broker.unused (k + 1) := by
      simpa [State.unused, crowded] using hunused (k + 1) (by omega) (by omega)
    obtain ⟨⟨tr', l'⟩, hexec, hfew', hl'⟩ := exec_seat hc hx hu ha
    obtain rfl : l' = _ := hl'
    refine ⟨tr ++ tr', p', ?_, fun e he => ?_, ht'⟩
    · convert Machine.run_append_exec _ _ hr hexec using 1
      simp only [crowded]
      congr 2
      funext c
      rcases eq_or_ne c (k + 1) with rfl | hne
      · rw [Function.update_self, if_pos ⟨Nat.succ_le_succ h1, le_rfl⟩]
      · rw [Function.update_of_ne hne]
        simp only [Nat.le_add_one_iff, or_iff_left hne]
    · rcases List.mem_append.mp he with he | he
      · exact hfew e he
      · exact hfew' e he 255 (Nat.lt_of_le_of_lt hk (by decide))

/-- All addresses are in use when client 1 closes its connection. Its address
goes to client 254, and the `MsgSessionStart` of the new session is written
before the `MsgSessionEnd` of the old one. When the exit has read both, the
new session is not in `byIP`. -/
theorem reused_address_loses_route : ∃ tr l, (machine {} aliceStore 0 "e1").Run tr l ∧ Quiet 0 l ∧
    254 ∈ l.stream.reader.sessions ∧ ¬ Routes l.stream.reader.toTables := by
  obtain ⟨tr₀, l₀, hr₀, hfew₀, hopen, ⟨tr₁, l⟩, hexec, hfew₁, hq, hsid, hby⟩ :=
    (machine {} aliceStore 0 "e1").exists_run
    (script (registers 0 (node "e1" "us" 0) ++ joins 1 (aliceConnect "us" "")) 2)
    (P := fun r => (∀ e ∈ r.1, e.act.meets (Few 255)) ∧ Opened r.2 ∧
      ∃ x ∈ (machine {} aliceStore 0 "e1").exec (crowded r.2 253 fullPool)
          (script (.drop 1 (.application 4200) :: .client 1 {} :: joins 254 (aliceConnect "us" "") ++
            [.client 1 {}]) 2),
        (∀ e ∈ x.1, e.act.meets (Few 255)) ∧ QuietBelow 255 0 x.2 ∧
        254 ∈ x.2.stream.reader.sessions ∧ x.2.stream.reader.byIP.entries = [])
    (by decide +kernel)
  obtain ⟨tr, p, hr, hfew, ht⟩ := exists_crowded hr₀ hfew₀ hopen (k := 253) (by decide) le_rfl
  obtain rfl := ht.eq_fullPool
  have hrun := Machine.run_append_exec _ _ hr hexec
  refine ⟨_, l, hrun, quiet_of_few hrun (fun e he => ?_) hq, hsid, fun h => ?_⟩
  · exact (List.mem_append.mp he).elim (hfew e) (hfew₁ e)
  · obtain ⟨q, hq⟩ := Option.isSome_iff_exists.mp (AList.lookup_isSome.mpr hsid)
    obtain ⟨ip, -, hip⟩ := h.inverse.routed 254 q hq
    rw [← GoMap.mem_entries, hby] at hip
    cases hip

end
end Link
end Revquic
