/-
# The control protocol and the datagram codec (`internal/proto`)

`Control` has one constructor per message type, with the fields the code sets
on it; the two messages that open a connection, `Register` and `Connect`, are
records of their own. On the data plane a datagram is an IP packet behind its
session id, 8 bytes, big-endian.

Key definitions: `Register`, `Connect`, `Control`, `encodeDatagram`,
`decodeDatagram`.
Key theorem: `datagram_codec_bijection`.
-/
import Revquic.Lib.BigEndian
import Revquic.Qos

namespace Revquic
namespace Proto

open Lib

/-- `MsgRegister`: an exit announces itself. -/
structure Register where
  token : String := ""
  nodeID : String := ""
  name : String := ""
  region : String := ""
  capacity : ℤ := 0
  os : String := ""
  deriving DecidableEq

/-- `MsgConnect`: a client asks for an egress in a region. -/
structure Connect where
  token : String := ""
  name : String := ""
  requestedRegion : String := ""
  requestedExit : String := ""
  resumeKey : String := ""
  listExits : Bool := false
  deriving DecidableEq

/-- `ExitInfo`: one selectable exit. -/
structure ExitInfo where
  nodeID : String
  name : String
  region : String
  system : String
  activeUsers : ℤ
  capacity : ℤ
  deriving DecidableEq

/-- The ICE servers and TURN credentials of a session. -/
structure IceServers where
  stunURL : String := ""
  turnURL : String := ""
  turnUser : String := ""
  turnPass : String := ""
  deriving DecidableEq

/-- `Control`, after the opening message. `exitList` is the `MsgConnectOK`
that answers `ListExits` and carries no session. -/
inductive Control
  | registerOK
  | sessionStart (sid : ℕ) (clientIP netmask : String) (mtu : ℕ) (ice : IceServers)
  | sessionEnd (sid : ℕ)
  | sessionSuspend (sid : ℕ)
  | connectOK (sid : ℕ) (clientIP netmask : String) (mtu : ℕ) (ice : IceServers)
  | exitList (exits : List ExitInfo)
  | error (text : String)
  | signal (sid : ℕ) (signal : List UInt8) (nonce : String)
  | report (sid : ℕ) (r : Qos.Report)
  | ping (sid : ℕ) (ts : ℤ)
  | pong (sid : ℕ) (ts : ℤ)
  | nodeStatus (cpuPct memPct diskPct : ℚ)
  deriving DecidableEq

/-- `CloseClientShutdown`: the application error code of a client that exits
on purpose. -/
def closeClientShutdown : ℕ := 4200

/-- `SafeTunnelMTU`. -/
def safeTunnelMTU : ℕ := 1200

/-- `DatagramHeaderLen`. -/
def datagramHeaderLen : ℕ := 8

/-- `binary.BigEndian.PutUint64`. -/
def putUint64 (v : ℕ) : List UInt8 :=
  (List.range 8).map fun i => UInt8.ofNat (v / 256 ^ (7 - i))

/-- `binary.BigEndian.Uint64`. -/
def uint64 (b : List UInt8) : ℕ := b.foldl (fun acc x => acc * 256 + x.toNat) 0

/-- `EncodeDatagram`. -/
def encodeDatagram (sid : ℕ) (pkt : List UInt8) : List UInt8 := putUint64 sid ++ pkt

/-- `DecodeDatagram`: the session id and the packet; fails on a datagram
shorter than its header. -/
def decodeDatagram (b : List UInt8) : Option (ℕ × List UInt8) :=
  if b.length < datagramHeaderLen then none
  else some (uint64 (b.take datagramHeaderLen), b.drop datagramHeaderLen)

theorem uint64_putUint64 {v : ℕ} (h : v < 2 ^ 64) : uint64 (putUint64 v) = v :=
  BigEndian.get_put_of_lt (n := 8) h

theorem uint64_lt {b : List UInt8} (h : b.length = 8) : uint64 b < 2 ^ 64 := by
  have hlt := BigEndian.get_lt b
  rw [h] at hlt
  exact hlt

theorem putUint64_uint64 {b : List UInt8} (h : b.length = 8) : putUint64 (uint64 b) = b := by
  have hput := BigEndian.put_get b
  rw [h] at hput
  exact hput

theorem length_encodeDatagram (sid : ℕ) (pkt : List UInt8) :
    (encodeDatagram sid pkt).length = datagramHeaderLen + pkt.length := List.length_append

/-- A datagram is read as it was written. -/
theorem decodeDatagram_encodeDatagram {sid : ℕ} (h : sid < 2 ^ 64) (pkt : List UInt8) :
    decodeDatagram (encodeDatagram sid pkt) = some (sid, pkt) := by
  have hlen : (putUint64 sid).length = datagramHeaderLen := BigEndian.length_put 8 sid
  unfold decodeDatagram
  rw [if_neg (by rw [length_encodeDatagram]; omega), encodeDatagram, ← hlen, List.take_left,
    List.drop_left, uint64_putUint64 h]

theorem decodeDatagram_eq_none_iff {b : List UInt8} :
    decodeDatagram b = none ↔ b.length < datagramHeaderLen := by
  unfold decodeDatagram
  split_ifs with hlen
  · simp [hlen]
  · simp [hlen]

/-- What is read off a datagram makes it up again. -/
theorem encodeDatagram_of_decodeDatagram {b pkt : List UInt8} {sid : ℕ}
    (h : decodeDatagram b = some (sid, pkt)) : sid < 2 ^ 64 ∧ encodeDatagram sid pkt = b := by
  unfold decodeDatagram at h
  split_ifs at h with hlen
  obtain ⟨rfl, rfl⟩ := Prod.mk.inj (Option.some.inj h)
  have htake : (b.take datagramHeaderLen).length = 8 :=
    List.length_take_of_le (Nat.le_of_not_lt hlen)
  refine ⟨uint64_lt htake, ?_⟩
  rw [encodeDatagram, putUint64_uint64 htake, List.take_append_drop]

/-- A datagram with a whole header is read. -/
theorem exists_decodeDatagram {b : List UInt8} (h : datagramHeaderLen ≤ b.length) :
    ∃ sid pkt, decodeDatagram b = some (sid, pkt) := by
  cases hd : decodeDatagram b with
  | none => exact absurd (decodeDatagram_eq_none_iff.mp hd) (Nat.not_lt.mpr h)
  | some d => exact ⟨d.1, d.2, rfl⟩

/-- **The datagram codec is a bijection** from the session ids of 64 bits,
each with any packet, onto the byte strings that hold a header. Decoding
inverts encoding, encoding inverts decoding, and decoding fails exactly on
what is shorter than the header. -/
theorem datagram_codec_bijection :
    Set.BijOn (fun d : ℕ × List UInt8 => encodeDatagram d.1 d.2)
      {d | d.1 < 2 ^ 64} {b | 8 ≤ b.length} ∧
    (∀ sid < 2 ^ 64, ∀ pkt, decodeDatagram (encodeDatagram sid pkt) = some (sid, pkt)) ∧
    (∀ b : List UInt8, 8 ≤ b.length → ∃ sid pkt, decodeDatagram b = some (sid, pkt) ∧
      sid < 2 ^ 64 ∧ encodeDatagram sid pkt = b) ∧
    ∀ b, decodeDatagram b = none ↔ b.length < 8 := by
  have hread : ∀ b : List UInt8, 8 ≤ b.length → ∃ sid pkt, decodeDatagram b = some (sid, pkt) ∧
      sid < 2 ^ 64 ∧ encodeDatagram sid pkt = b := by
    intro b hb
    obtain ⟨sid, pkt, hd⟩ := exists_decodeDatagram hb
    exact ⟨sid, pkt, hd, encodeDatagram_of_decodeDatagram hd⟩
  refine ⟨⟨?_, ?_, ?_⟩, fun sid h pkt => decodeDatagram_encodeDatagram h pkt, hread,
    fun b => decodeDatagram_eq_none_iff⟩
  · intro d _
    show 8 ≤ (encodeDatagram d.1 d.2).length
    rw [length_encodeDatagram]
    exact Nat.le_add_right _ _
  · -- equal datagrams decode to equal pairs
    intro d hd d' hd' heq
    have hdec : some (d.1, d.2) = some (d'.1, d'.2) := by
      rw [← decodeDatagram_encodeDatagram hd, ← decodeDatagram_encodeDatagram hd']
      exact congrArg decodeDatagram heq
    exact Option.some.inj hdec
  · intro b hb
    obtain ⟨sid, pkt, -, hsid, henc⟩ := hread b hb
    exact ⟨(sid, pkt), hsid, henc⟩

/-- The largest session id with an empty packet, a datagram of a header and
one byte, and one that is too short. -/
theorem datagram_codec_bijection_edges :
    decodeDatagram (encodeDatagram (2 ^ 64 - 1) []) = some (2 ^ 64 - 1, []) ∧
    (∃ sid pkt, decodeDatagram [0, 0, 0, 0, 0, 0, 1, 2, 0x45] = some (sid, pkt) ∧ sid < 2 ^ 64 ∧
      encodeDatagram sid pkt = [0, 0, 0, 0, 0, 0, 1, 2, 0x45]) ∧
    decodeDatagram [0, 0, 0, 0, 0, 1, 2] = none := by
  obtain ⟨-, hdec, henc, hnone⟩ := datagram_codec_bijection
  exact ⟨hdec _ (by decide) [], henc _ (by decide), (hnone _).mpr (by decide)⟩

end Proto
end Revquic
