/-
# Relay isolation

A session joins two connections: the relay should carry its datagrams between
these two and drop every other. `relayLoop` looks the session up by the id
the sender wrote and compares the receiving connection with the session's
exit only; whatever arrives on another connection counts as the client's. So
any client can send, as any session, to that session's exit.

Key definitions: `isolatedRelay`, `State.attached`.
Key theorem: `relay_isolation_iff_attached`.
-/
import Revquic.Broker.Registry
import Revquic.Broker.Rep

namespace Revquic
namespace Broker

open Lib Netip Ippool Proto

/-- What the relay is for: a datagram passes between the two connections of
its session. -/
def isolatedRelay (b : State) (conn : Conn) (dg : List UInt8) : State × List Out :=
  match decodeDatagram dg with
  | none => (b, [])
  | some (sid, pkt) =>
    match b.sessions.lookup sid with
    | none => (b, [])
    | some p =>
      let s := b.sess p
      if conn = s.exitConn then
        ({ b with qos := b.qos.addBytes (toString sid) false pkt.length b.now },
          [.dgram conn s.clientConn dg])
      else if conn = s.clientConn then
        ({ b with qos := b.qos.addBytes (toString sid) true pkt.length b.now },
          [.dgram conn s.exitConn dg])
      else (b, [])

/-- The datagram names no session, or one that `conn` is a side of. -/
def State.attached (b : State) (conn : Conn) (dg : List UInt8) : Prop :=
  match decodeDatagram dg with
  | none => True
  | some (sid, _) =>
    match b.sessions.lookup sid with
    | none => True
    | some p => conn = (b.sess p).clientConn ∨ conn = (b.sess p).exitConn

instance (b : State) (conn : Conn) (dg : List UInt8) : Decidable (b.attached conn dg) :=
  match h : decodeDatagram dg with
  | none => isTrue (by simp [State.attached, h])
  | some (sid, _) =>
    match h' : b.sessions.lookup sid with
    | none => isTrue (by simp [State.attached, h, h'])
    | some p => decidable_of_iff (conn = (b.sess p).clientConn ∨ conn = (b.sess p).exitConn)
        (by simp [State.attached, h, h'])

/-- A datagram received in this step arrives on a side of its session. -/
def Attached (b : State) : Action → Prop
  | .datagram c dg => b.attached c dg
  | _ => True

instance (b : State) : DecidablePred (Attached b)
  | .datagram c dg => inferInstanceAs (Decidable (b.attached c dg))
  | .tick _ | .users _ | .connect _ _ | .client _ _ | .drop _ _ | .clientCtrl _ _ _ | .register _ _
  | .exit _ _ | .exitCtrl _ _ _ | .exitGone _ | .fire _ | .timer _ _ => isTrue trivial

section
variable {cfg : Config} {users : Userstore.Table} {b b' : State} {a : Action} {o : List Out}
  {tr : List (Event State Action Out)}

/-- The relay isolates exactly the datagrams of the two sides. -/
theorem relayDatagram_eq_isolated {conn : Conn} {dg : List UInt8} :
    relayDatagram b conn dg = isolatedRelay b conn dg ↔ b.attached conn dg := by
  unfold relayDatagram isolatedRelay State.attached
  cases decodeDatagram dg with
  | none => simp
  | some d =>
    obtain ⟨sid, pkt⟩ := d
    simp only
    cases b.sessions.lookup sid with
    | none => simp
    | some p =>
      simp only
      by_cases hx : conn = (b.sess p).exitConn
      · simp [hx]
      · by_cases hc : conn = (b.sess p).clientConn
        · subst hc
          simp [hx]
        · simp [hx, hc]

/-! ### Runs -/

/-- Datagrams go out in datagram steps only: what arrived is sent on, to the
exit of the session it names, or to its client if it came from the exit. -/
theorem dgram_of_step {src dst : Conn} {dg : List UInt8} (hs : step cfg b a = some (b', o))
    (hd : Out.dgram src dst dg ∈ o) :
    a = .datagram src dg ∧ ∃ sid pkt p, decodeDatagram dg = some (sid, pkt) ∧
      b.sessions.lookup sid = some p ∧
      dst = if src = (b.sess p).exitConn then (b.sess p).clientConn else (b.sess p).exitConn := by
  cases stepped_of_step hs with
  | relay c dg' sid pkt p _ read found =>
    obtain ⟨rfl, rfl, rfl⟩ := by simpa using hd
    exact ⟨rfl, sid, pkt, p, read, found, rfl⟩
  | client c i step | clientCtrl c m ok _ step | exit c ok step | exitCtrl c m ok _ step =>
    cases step <;> simp [written] at hd
  | timer k ok step =>
    cases step with
    | write => split at hd <;> simp [written] at hd
    | _ => simp at hd
  | _ => simp at hd

/-- The relay sends a datagram on undecoded; it is the encoding of the
session id and the packet that were read off it. So the receiver reads the
session the relay looked up and the packet it metered. -/
theorem relay_forwards_encoding (hrun : (machine cfg users).Run tr b)
    {e : Event State Action Out} (he : e ∈ tr) {src dst : Conn} {dg : List UInt8}
    (hd : Out.dgram src dst dg ∈ e.out) :
    e.act = .datagram src dg ∧ ∃ sid pkt p, e.pre.sessions.lookup sid = some p ∧ sid < 2 ^ 64 ∧
      dg = encodeDatagram sid pkt ∧ decodeDatagram dg = some (sid, pkt) := by
  obtain ⟨tr₁, tr₂, -, hr, hs⟩ := hrun.of_mem he
  obtain ⟨ha, sid, pkt, p, hdec, hp, -⟩ := dgram_of_step hs hd
  obtain ⟨hsid, henc⟩ := encodeDatagram_of_decodeDatagram hdec
  exact ⟨ha, sid, pkt, p, hp, hsid, henc.symm, hdec⟩

/-- An exit receives a datagram of the client that runs the session. -/
theorem relayed_from_client (hrun : (machine cfg users).Run tr b)
    (hatt : ∀ e ∈ tr, Attached e.pre e.act) {e : Event State Action Out} (he : e ∈ tr)
    {src dst : Conn} {dg : List UInt8} (hd : Out.dgram src dst dg ∈ e.out)
    (hx : (e.pre.exitT dst).pc ≠ .idle) :
    ∃ sid pkt p, decodeDatagram dg = some (sid, pkt) ∧ e.pre.sessions.lookup sid = some p ∧
      src = (e.pre.sess p).clientConn ∧ dst = (e.pre.sess p).exitConn := by
  obtain ⟨tr₁, tr₂, -, hr, hs⟩ := hrun.of_mem he
  obtain ⟨ha, sid, pkt, p, hdec, hp, hdst⟩ := dgram_of_step hs hd
  have hside : src = (e.pre.sess p).clientConn ∨ src = (e.pre.sess p).exitConn := by
    have := hatt e he
    simpa only [ha, Attached, State.attached, hdec, hp] using this
  refine ⟨sid, pkt, p, hdec, hp, ?_⟩
  by_cases hexit : src = (e.pre.sess p).exitConn
  · -- a client's connection is not an exit's
    exfalso
    rw [if_pos hexit] at hdst
    have hholds := ((Rep.of_run hr).holder sid p hp).1
    rw [← hdst] at hholds
    rcases (Reg.of_run hr).kinds dst with h | h
    · rw [h] at hholds
      cases hholds
    · exact hx h
  · rw [if_neg hexit] at hdst
    exact ⟨hside.resolve_right hexit, hdst⟩

/-- **Relay isolation.** The relay forwards and meters a datagram as a relay
between the two sides of its session would exactly when it arrives on one of
them; and in a run in which every datagram does, whatever an exit receives
for a session comes from the client attached to it. -/
theorem relay_isolation_iff_attached (hrun : (machine cfg users).Run tr b) :
    (∀ (s : State) (c : Conn) (dg : List UInt8),
      relayDatagram s c dg = isolatedRelay s c dg ↔ s.attached c dg) ∧
    ((∀ e ∈ tr, Attached e.pre e.act) →
      ∀ e ∈ tr, ∀ src dst dg, Out.dgram src dst dg ∈ e.out → (e.pre.exitT dst).pc ≠ .idle →
        ∃ sid pkt p, decodeDatagram dg = some (sid, pkt) ∧ e.pre.sessions.lookup sid = some p ∧
          src = (e.pre.sess p).clientConn ∧ dst = (e.pre.sess p).exitConn) :=
  ⟨fun _ _ _ => relayDatagram_eq_isolated,
    fun hatt _ he _ _ _ hd hx => relayed_from_client hrun hatt he hd hx⟩

/-- A client and the exit send each other a datagram of the client's
session. -/
theorem relay_isolation_both_ways : ∃ tr b, (machine {} aliceStore).Run tr b ∧
    (∃ e ∈ tr, Out.dgram 1 0 (encodeDatagram 1 [0x45]) ∈ e.out) ∧
    ∀ e ∈ tr, ∀ src dst dg, Out.dgram src dst dg ∈ e.out → (e.pre.exitT dst).pc ≠ .idle →
      ∃ sid pkt p, decodeDatagram dg = some (sid, pkt) ∧ e.pre.sessions.lookup sid = some p ∧
        src = (e.pre.sess p).clientConn ∧ dst = (e.pre.sess p).exitConn := by
  obtain ⟨tr, b, hr, ho, hatt⟩ := (machine {} aliceStore).exists_run
    (registers 0 (node "e1" "us" 0) ++
      joins 1 (aliceConnect "us" "") ++
      [.datagram 1 (encodeDatagram 1 [0x45]), .datagram 0 (encodeDatagram 1 [0x45])])
    (P := fun r => (∃ e ∈ r.1, Out.dgram 1 0 (encodeDatagram 1 [0x45]) ∈ e.out) ∧
      ∀ e ∈ r.1, Attached e.pre e.act)
    (by decide +kernel)
  exact ⟨tr, b, hr, ho, (relay_isolation_iff_attached hr).2 hatt⟩

/-- Client 2 sends a datagram with the id of client 1's session: it goes to
the exit, as client 1's. -/
theorem relay_carries_foreign_datagram : ∃ tr b, (machine {} aliceStore).Run tr b ∧
    b.relays 2 ∧ b.sessions.lookup 1 = some 1 ∧ (b.sess 1).clientConn = 1 ∧ (b.sess 1).exitConn = 0 ∧
    (relayDatagram b 2 (encodeDatagram 1 [0x45])).2 = [.dgram 2 0 (encodeDatagram 1 [0x45])] ∧
    relayDatagram b 2 (encodeDatagram 1 [0x45]) ≠ isolatedRelay b 2 (encodeDatagram 1 [0x45]) := by
  obtain ⟨tr, b, hr, h1, h2, h3, h4, h5, h6⟩ := (machine {} aliceStore).exists_run
    (.register 0 (node "e1" "us" 0) :: joins 1 (aliceConnect "us" "") ++
      joins 2 (aliceConnect "us" ""))
    (P := fun r => r.2.relays 2 ∧ r.2.sessions.lookup 1 = some 1 ∧ (r.2.sess 1).clientConn = 1 ∧
      (r.2.sess 1).exitConn = 0 ∧
      (relayDatagram r.2 2 (encodeDatagram 1 [0x45])).2 = [.dgram 2 0 (encodeDatagram 1 [0x45])] ∧
      ¬ r.2.attached 2 (encodeDatagram 1 [0x45]))
    (by decide +kernel)
  exact ⟨tr, b, hr, h1, h2, h3, h4, h5, fun he => h6 (relayDatagram_eq_isolated.mp he)⟩

end
end Broker
end Revquic
