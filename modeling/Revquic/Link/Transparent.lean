/-
# The relay path, end to end

A packet of a client goes through three processes: the client's `Send` puts
the session id before it, the broker's `relayLoop` looks the session up and
passes the datagram on, and the exit looks it up again, strips the id and
checks the source address before the packet goes out on the TUN. A reply
packet goes back the same way; the exit finds its session by the destination
address. It compares the source as text and the destination as an address.
For the addresses the broker hands out, which are IPv4, the two agree.

Key definitions: `World`, `uplink`, `downlink`.
Key theorem: `relay_transparent`.
-/
import Revquic.Broker.Duties
import Revquic.Client
import Revquic.Exit.Inbound

namespace Revquic
namespace Link

open Lib Netip Proto Datapath
open Broker (Conn)

/-- The path on which the exit's `addSession` starts a session; `relayEncode`
is the same function in both programs. -/
def exitRelayPath (conn : Conn) (sid : ℕ) : Path Conn := ⟨some conn, encodeDatagram sid⟩

/-- The datagrams the broker sends when it receives one, with the connections
they go to. -/
def relayed (cfg : Broker.Config) (b : Broker.State) (conn : Conn) (dg : List UInt8) :
    List (Conn × List UInt8) :=
  match Broker.step cfg b (.datagram conn dg) with
  | none => []
  | some (_, o) => o.filterMap fun
    | .dgram _ dst dg => some (dst, dg)
    | _ => none

/-- What the exit writes to its TUN when `datagramToTun` on its connection
`k` receives a datagram: the two steps of the loop. -/
def tunWrites (cfg : Exit.Config) (e : Exit.State) (k : ℕ) (dg : List UInt8) : List Exit.Out :=
  match Exit.step cfg e (.datagram k dg) with
  | none => []
  | some (e', o) =>
    match Exit.step cfg e' (.write (.relay k)) with
    | none => o
    | some (_, o') => o ++ o'

/-- The three processes on the way of a session's packets: the broker; the
exit, with `conn` for the broker's end of its connection `k`; the client's
session, and the sessions of the exit. -/
structure World where
  broker : Broker.State
  exit : Exit.State
  conn : Conn
  k : ℕ
  client : Session Conn
  sess : Exit.Ptr → Session Conn

/-- A packet from the client, over its `Send`, the broker and the exit, to
the exit's TUN. -/
def uplink (cfg : Broker.Config) (ecfg : Exit.Config) (w : World) (pkt : List UInt8) (now : ℕ) :
    List Exit.Out :=
  match (w.client.send pkt now true).2 with
  | .error _ => []
  | .ok (c, dg) => (relayed cfg w.broker c dg).flatMap fun x =>
      if x.1 = w.conn then tunWrites ecfg w.exit w.k x.2 else []

/-- A packet from the exit's TUN, over the `Send` of its session and the
broker, to the clients' TUNs: the connections of these clients, and what each
of them writes. -/
def downlink (cfg : Broker.Config) (ecfg : Exit.Config) (w : World) (pkt : List UInt8) (now : ℕ) :
    List (Conn × List UInt8) :=
  match Exit.step ecfg w.exit (.reply pkt) with
  | none => []
  | some (_, o) => o.flatMap fun
    | .tun _ _ => []
    | .send q pkt =>
      match ((w.sess q).send pkt now true).2 with
      | .error _ => []
      | .ok (c, dg) => (relayed cfg w.broker c dg).flatMap fun x =>
          (Client.relayInbound x.2).toList.map fun pkt => (x.1, pkt)

/-- The packet is IPv4, and has the address from byte `i` on. -/
def Carries (i : ℕ) (pkt : List UInt8) (a : Addr) : Prop :=
  20 ≤ pkt.length ∧ (pkt.getD 0 0).toNat / 16 = 4 ∧
    addrFrom4 (pkt.getD i 0) (pkt.getD (i + 1) 0) (pkt.getD (i + 2) 0) (pkt.getD (i + 3) 0) = a

instance (i : ℕ) (pkt : List UInt8) (a : Addr) : Decidable (Carries i pkt a) :=
  inferInstanceAs (Decidable (_ ∧ _))

/-- Session `p` of the broker is up, on the relay path at both ends: it is in
`b.sessions`, its client and its exit are attached, and the exit has it as
`q` in both tables. Session ids are `uint64`. -/
structure Joined (w : World) (p : Conn) (q : Exit.Ptr) : Prop where
  listed : w.broker.sessions.lookup (w.broker.sess p).id = some p
  clientUp : w.broker.relays (w.broker.sess p).clientConn
  exitUp : w.broker.relays (w.broker.sess p).exitConn
  conn : (w.broker.sess p).exitConn = w.conn
  reading : w.exit.inbound (.relay w.k) = .recv
  known : w.exit.sessions.lookup (w.broker.sess p).id = some q
  clientIP : (w.exit.es q).clientIP = (w.broker.sess p).clientIP
  routed : w.exit.byIP.lookup (w.broker.sess p).clientAddr = some (w.broker.sess p).id
  clientPath : w.client.path =
    Client.relayPath (w.broker.sess p).clientConn (w.broker.sess p).id
  exitPath : (w.sess q).path = exitRelayPath (w.broker.sess p).exitConn (w.broker.sess p).id
  id_lt : (w.broker.sess p).id < 2 ^ 64

section
variable {cfg : Broker.Config} {ecfg : Exit.Config} {users : Userstore.Table} {w : World}
  {b : Broker.State} {e : Exit.State} {p : Conn} {q : Exit.Ptr} {pkt : List UInt8}
  {tr : List (Event Broker.State Broker.Action Broker.Out)}

theorem ipv4Addr_eq_some {i : ℕ} {a : Addr} : Exit.ipv4Addr i pkt = some a ↔ Carries i pkt a := by
  unfold Exit.ipv4Addr Carries
  split
  · rename_i h
    constructor
    · intro h'
      cases h'
    · rintro ⟨h20, h4, -⟩
      omega
  · rename_i h
    push Not at h
    rw [Option.some.injEq]
    exact ⟨fun ha => ⟨h.1, h.2, ha⟩, fun hc => hc.2.2⟩

theorem passes_iff {s : Exit.ExitSession} {x : BitVec 32} (h : s.clientIP = Addr.string (.v4 x)) :
    Exit.passes s pkt = true ↔ Carries 12 pkt (.v4 x) := by
  rw [← ipv4Addr_eq_some]
  exact Exit.passes_iff_src h

/-! ### The broker -/

/-- A datagram that names a session goes to one connection, unchanged. -/
theorem relayed_eq {c : Conn} (hc : b.relays c) (hp : b.sessions.lookup (b.sess p).id = some p)
    (hid : (b.sess p).id < 2 ^ 64) :
    relayed cfg b c (encodeDatagram (b.sess p).id pkt) =
      [(if c = (b.sess p).exitConn then (b.sess p).clientConn else (b.sess p).exitConn,
        encodeDatagram (b.sess p).id pkt)] := by
  have hstep : Broker.step cfg b (.datagram c (encodeDatagram (b.sess p).id pkt)) =
      some (Broker.relayDatagram b c (encodeDatagram (b.sess p).id pkt)) := if_pos hc
  unfold relayed
  rw [hstep]
  simp only [Broker.relayDatagram, decodeDatagram_encodeDatagram hid, hp, List.filterMap_cons,
    List.filterMap_nil]

/-- A client's connection is not an exit's. -/
theorem clientConn_ne_exitConn (hinv : Broker.Inv b) {i : ℕ} (hp : b.sessions.lookup i = some p) :
    (b.sess p).clientConn ≠ (b.sess p).exitConn := by
  intro heq
  have hholds := (hinv.rep.holder i p hp).1
  have hexit : (b.sess p).exitConn ∈ b.regs :=
    (hinv.attach.sess p (hinv.rep.made p (Broker.live_of_sessions hp))).1
  rcases hinv.reg.kinds (b.sess p).exitConn with hidle | hidle
  · rw [heq, hidle] at hholds
    cases hholds
  · exact hinv.reg.served _ hexit hidle

/-! ### The exit -/

/-- `datagramToTun` writes a packet of a session in its tables once, if it
passes the source check. -/
theorem tunWrites_eq {k sid : ℕ} (hk : e.inbound (.relay k) = .recv)
    (hq : e.sessions.lookup sid = some q) (hid : sid < 2 ^ 64) :
    tunWrites ecfg e k (encodeDatagram sid pkt) =
      if Exit.passes (e.es q) pkt then [.tun q pkt] else [] := by
  have hrecv : Exit.step ecfg e (.datagram k (encodeDatagram sid pkt)) =
      some (e.setInbound (.relay k) (.hold q pkt), []) := by
    simp only [Exit.step, hk, if_true, Exit.relayRecv, decodeDatagram_encodeDatagram hid, hq]
  have hwrite : Exit.step ecfg (e.setInbound (.relay k) (.hold q pkt)) (.write (.relay k)) =
      some (Exit.writeInbound (e.setInbound (.relay k) (.hold q pkt)) (.relay k) q pkt) := by
    simp [Exit.step, Exit.State.setInbound]
  have hes : (e.setInbound (.relay k) (.hold q pkt)).es = e.es := rfl
  unfold tunWrites
  rw [hrecv]
  simp only [hwrite, List.nil_append]
  unfold Exit.writeInbound
  rw [hes]
  split <;> rfl

/-- `tunToDatagram` hands a packet to the session under its destination. -/
theorem reply_eq {sid : ℕ} {a : Addr} (hdst : Carries 16 pkt a) (hip : e.byIP.lookup a = some sid)
    (hq : e.sessions.lookup sid = some q) :
    Exit.step ecfg e (.reply pkt) = some (e, [.send q pkt]) := by
  have hdst : Exit.ipv4Dst pkt = some a := ipv4Addr_eq_some.mpr hdst
  have hroute : e.route pkt = some q := by
    simp only [Exit.Tables.route, hdst, hip, hq]
  simp only [Exit.step, hroute]

/-! ### End to end -/

theorem send_cases {s : Session Conn} {c : Conn} {now : ℕ} {x : Conn × List UInt8}
    (hs : s.path.sender = some c) (h : (s.send pkt now true).2 = .ok x) :
    x = (c, s.path.encode pkt) := by
  have hl : (allow s.limiter pkt.length now).1 = true := by
    by_contra hl
    unfold Session.send at h
    rw [hs] at h
    cases ha : allow s.limiter pkt.length now with
    | mk pass limiter =>
      rw [ha] at hl h
      rw [Bool.not_eq_true] at hl
      subst hl
      cases h
  rw [Session.send_ok hs hl] at h
  exact (Except.ok.inj h).symm

/-- The packets a client has sent, at the exit. -/
theorem uplink_eq (hinv : Broker.Inv w.broker) (h : Joined w p q) {now : ℕ} {x : Conn × List UInt8}
    (hsent : (w.client.send pkt now true).2 = .ok x) :
    uplink cfg ecfg w pkt now =
      if Exit.passes (w.exit.es q) pkt then [.tun q pkt] else [] := by
  have hne := clientConn_ne_exitConn hinv h.listed
  have hx : x = ((w.broker.sess p).clientConn, encodeDatagram (w.broker.sess p).id pkt) := by
    have := send_cases (c := (w.broker.sess p).clientConn) (by rw [h.clientPath]; rfl) hsent
    rw [this, h.clientPath]
    rfl
  unfold uplink
  rw [hsent, hx]
  simp only [relayed_eq h.clientUp h.listed h.id_lt, List.flatMap_cons, List.flatMap_nil,
    List.append_nil]
  rw [if_neg hne, if_pos h.conn]
  exact tunWrites_eq h.reading h.known h.id_lt

/-- **The relay path is transparent.** A packet the client has sent comes out
of the exit's TUN, once and unchanged, exactly if it is an IPv4 packet from
the session's VPN address; if it is not, nothing comes out. An IPv4 packet to
that address comes out of this client's TUN, unchanged, and of no other. -/
theorem relay_transparent (hrun : (Broker.machine cfg users).Run tr w.broker) (h : Joined w p q)
    (pkt : List UInt8) (now : ℕ) :
    (∀ x, (w.client.send pkt now true).2 = .ok x →
      (uplink cfg ecfg w pkt now = [.tun q pkt] ↔ Carries 12 pkt (w.broker.sess p).clientAddr) ∧
      (¬ Carries 12 pkt (w.broker.sess p).clientAddr → uplink cfg ecfg w pkt now = [])) ∧
    (Carries 16 pkt (w.broker.sess p).clientAddr →
      (allow (w.sess q).limiter pkt.length now).1 = true →
      downlink cfg ecfg w pkt now = [((w.broker.sess p).clientConn, pkt)]) := by
  have hinv := Broker.Inv.of_run hrun
  have hmade := hinv.rep.made p (Broker.live_of_sessions h.listed)
  obtain ⟨a, haddr, hip⟩ := (Broker.Addressed.of_run hrun).sess p hmade
  refine ⟨fun x hsent => ?_, fun hdst hl => ?_⟩
  · have hpass : Exit.passes (w.exit.es q) pkt = true ↔
        Carries 12 pkt (w.broker.sess p).clientAddr := by
      rw [haddr]
      exact passes_iff (by rw [h.clientIP, hip, haddr])
    rw [uplink_eq hinv h hsent, ← hpass]
    split <;> simp_all
  · have hsend : ((w.sess q).send pkt now true).2 =
        .ok ((w.broker.sess p).exitConn, (w.sess q).path.encode pkt) :=
      Session.send_ok (by rw [h.exitPath]; rfl) hl
    have henc : (w.sess q).path.encode pkt = encodeDatagram (w.broker.sess p).id pkt := by
      rw [h.exitPath]
      rfl
    unfold downlink
    rw [reply_eq hdst h.routed h.known]
    simp only [List.flatMap_cons, List.flatMap_nil, List.append_nil, hsend, henc,
      relayed_eq h.exitUp h.listed h.id_lt, if_true, Client.relayInbound,
      decodeDatagram_encodeDatagram h.id_lt, Option.map_some, Option.toList_some, List.map_cons,
      List.map_nil]

/-- A packet from 10.99.0.2 to itself. -/
def loopback : List UInt8 := 0x45 :: (List.replicate 11 0 ++ [10, 99, 0, 2, 10, 99, 0, 2])

/-- An exit with the first session of the broker, on its first connection. -/
def firstExit : Exit.State where
  sessions := (∅ : GoMap ℕ Exit.Ptr).insert 1 0
  byIP := (∅ : GoMap Addr ℕ).insert (.v4 0x0A630002) 1
  es _ := { sid := 1, clientIP := "10.99.0.2" }
  inbound _ := .recv

/-- The packet passes both ways between the first client and its exit. -/
theorem relay_transparent_loopback : ∃ tr w, (Broker.machine {} Broker.aliceStore).Run tr w.broker ∧
    Joined w 1 0 ∧ uplink {} {} w loopback 0 = [.tun 0 loopback] ∧
    downlink {} {} w loopback 0 = [(1, loopback)] := by
  obtain ⟨tr, b, hr, hp, hc, hx, hid, hcc, hec, hip, haddr⟩ :=
    (Broker.machine {} Broker.aliceStore).exists_run
    (Broker.registers 0 (Broker.node "e1" "us" 0) ++
      Broker.joins 1 (Broker.aliceConnect "us" ""))
    (P := fun r => r.2.sessions.lookup 1 = some 1 ∧ r.2.relays 1 ∧ r.2.relays 0 ∧
      (r.2.sess 1).id = 1 ∧ (r.2.sess 1).clientConn = 1 ∧ (r.2.sess 1).exitConn = 0 ∧
      (r.2.sess 1).clientIP = "10.99.0.2" ∧ (r.2.sess 1).clientAddr = .v4 0x0A630002)
    (by decide +kernel)
  let w : World := ⟨b, firstExit, 0, 0, { id := 1, path := Client.relayPath 1 1 },
    fun _ => { id := 1, path := exitRelayPath 0 1 }⟩
  have hup : Joined w 1 0 :=
    ⟨by rw [hid]; exact hp, by rw [hcc]; exact hc, by rw [hec]; exact hx, hec, rfl,
      by rw [hid]; rfl, by rw [hip]; rfl, by rw [haddr, hid]; rfl, by rw [hcc, hid],
      by rw [hec, hid], by rw [hid]; decide⟩
  have ht := @relay_transparent {} {} _ w 1 0 tr hr hup loopback 0
  rw [show w.broker.sess 1 = b.sess 1 from rfl, haddr, hcc] at ht
  exact ⟨tr, w, hr, hup, (ht.1 _ rfl).1.mpr (by decide), ht.2 (by decide) rfl⟩

end
end Link
end Revquic
