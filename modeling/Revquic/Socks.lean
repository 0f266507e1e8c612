/-
# The SOCKS5 handshake (`internal/socks`)

`negotiateAuth` reads the greeting and `readRequest` the request behind it,
each part with `io.ReadFull`. Together they accept exactly the greetings that
offer no authentication, followed by a `CONNECT` request to an IPv4 or IPv6
address or a name, and take exactly these bytes. The grammar stands apart
from the parser: `Greeting` and `Request` hold what a message says, and
`bytes` writes it.

Key definitions: `negotiateAuth`, `readRequest`, `handshake`, `Greeting`,
`Request`.
Key theorem: `handshake_iff`.
-/
import Revquic.Lib.BigEndian
import Revquic.Lib.Reading
import Revquic.Netip

namespace Revquic
namespace Socks

open Lib

def ver5 : UInt8 := 0x05
def cmdConnect : UInt8 := 0x01
def atypIPv4 : UInt8 := 0x01
def atypDomain : UInt8 := 0x03
def atypIPv6 : UInt8 := 0x04
def methodNoAuth : UInt8 := 0x00
def methodNoneMatch : UInt8 := 0xFF

/-- The errors of the two functions. -/
inductive SocksError
  | read (err : ReadError)
  | write
  | badVersion (b : UInt8)
  | noMethod
  | cmdNotSupported
  | addrNotSupported
  deriving DecidableEq

/-! ### Text -/

/-- A byte of an address, by its index. -/
def byteAt (b : List UInt8) (i : ℕ) : UInt8 := b.getD i 0

/-- `net.IP.To4`: the address is an IPv4 address, or one mapped to IPv6. -/
def to4 (b : List UInt8) : Option (List UInt8) :=
  if b.length = 4 then some b
  else if b.length = 16 ∧ b.take 12 = List.replicate 10 0 ++ [0xff, 0xff] then some (b.drop 12)
  else none

/-- `net.IP.String`, of an address of 4 or 16 bytes. -/
def ipString (b : List UInt8) : String :=
  match to4 b with
  | some p4 => (Netip.addrFrom4 (byteAt p4 0) (byteAt p4 1) (byteAt p4 2) (byteAt p4 3)).string
  | none => (Netip.Addr.v6 (BitVec.ofNat 128 (b.foldl (fun acc x => acc * 256 + x.toNat) 0))).string

/-- `string(b)`: a string has one character for each byte. -/
def ofBytes (b : List UInt8) : String := String.ofList (b.map fun x => Char.ofNat x.toNat)

/-- `binary.BigEndian.Uint16`. -/
def uint16 (b : List UInt8) : ℕ := (byteAt b 0).toNat * 256 + (byteAt b 1).toNat

/-- `strconv.Itoa`. -/
def itoa (n : ℕ) : String := String.ofList (Nat.toDigits 10 n)

/-! ### The parser -/

/-- `negotiateAuth`; the reply may fail to be written. -/
def negotiateAuth (writeFails : Bool) : Reading UInt8 SocksError Unit :=
  .readFull 2 fun head =>
    if byteAt head 0 ≠ ver5 then .fail (.badVersion (byteAt head 0))
    else
      .readFull (byteAt head 1).toNat fun methods =>
        if methodNoAuth ∈ methods then
          .write [ver5, methodNoAuth] (if writeFails then .fail .write else .ret ())
        else .write [ver5, methodNoneMatch] (.fail .noMethod)

/-- The end of `readRequest`: the port. -/
def readPort (host : String) : Reading UInt8 SocksError (String × String) :=
  .readFull 2 fun pb => .ret (host, itoa (uint16 pb))

/-- The switch of `readRequest`, and what follows. -/
def readTarget (atyp : UInt8) : Reading UInt8 SocksError (String × String) :=
  if atyp = atypIPv4 then .readFull 4 fun b => readPort (ipString b)
  else if atyp = atypIPv6 then .readFull 16 fun b => readPort (ipString b)
  else if atyp = atypDomain then
    .readFull 1 fun l => .readFull (byteAt l 0).toNat fun b => readPort (ofBytes b)
  else .fail .addrNotSupported

/-- `readRequest`: the host and the port. -/
def readRequest : Reading UInt8 SocksError (String × String) :=
  .readFull 4 fun head =>
    if byteAt head 0 ≠ ver5 then .fail (.badVersion (byteAt head 0))
    else if byteAt head 1 ≠ cmdConnect then .fail .cmdNotSupported
    else readTarget (byteAt head 3)

/-- The two, as `handle` calls them. -/
def handshake (writeFails : Bool) : Reading UInt8 SocksError (String × String) :=
  (negotiateAuth writeFails).bind fun _ => readRequest

/-! ### The grammar -/

/-- A greeting that offers no authentication. -/
structure Greeting where
  methods : List UInt8
  length_lt : methods.length < 256
  offers : methodNoAuth ∈ methods

def Greeting.bytes (g : Greeting) : List UInt8 := ver5 :: UInt8.ofNat g.methods.length :: g.methods

/-- The address of a request. -/
inductive Target
  | ipv4 (b : List UInt8) (h : b.length = 4)
  | domain (b : List UInt8) (h : b.length < 256)
  | ipv6 (b : List UInt8) (h : b.length = 16)

namespace Target

def atyp : Target → UInt8
  | .ipv4 _ _ => atypIPv4
  | .domain _ _ => atypDomain
  | .ipv6 _ _ => atypIPv6

def bytes : Target → List UInt8
  | .ipv4 b _ => b
  | .domain b _ => UInt8.ofNat b.length :: b
  | .ipv6 b _ => b

def text : Target → String
  | .ipv4 b _ => ipString b
  | .domain b _ => ofBytes b
  | .ipv6 b _ => ipString b

end Target

/-- A request to connect. -/
structure Request where
  rsv : UInt8
  target : Target
  port : ℕ
  port_lt : port < 65536

def Request.bytes (r : Request) : List UInt8 :=
  ver5 :: cmdConnect :: r.rsv :: r.target.atyp ::
    (r.target.bytes ++ [UInt8.ofNat (r.port / 256), UInt8.ofNat r.port])

/-! ### The parser reads the grammar -/

theorem uint16_eq_get {pb : List UInt8} (h : pb.length = 2) : uint16 pb = BigEndian.get pb := by
  obtain ⟨x, y, rfl⟩ := List.length_eq_two.mp h
  simp [uint16, byteAt, BigEndian.get]

theorem put_port (port : ℕ) :
    BigEndian.put 2 port = [UInt8.ofNat (port / 256), UInt8.ofNat port] := by
  rw [BigEndian.put_succ, BigEndian.put_succ]
  rfl

theorem uint16_port {port : ℕ} (h : port < 65536) :
    uint16 [UInt8.ofNat (port / 256), UInt8.ofNat port] = port := by
  rw [uint16_eq_get rfl, ← put_port, BigEndian.get_put_of_lt h]

theorem port_bytes {pb : List UInt8} (h : pb.length = 2) :
    uint16 pb < 65536 ∧ pb = [UInt8.ofNat (uint16 pb / 256), UInt8.ofNat (uint16 pb)] := by
  have hlt := BigEndian.get_lt pb
  have hput := BigEndian.put_get pb
  rw [h] at hlt hput
  rw [uint16_eq_get h, ← put_port, hput]
  exact ⟨hlt, rfl⟩

theorem readPort_run (host : String) {port : ℕ} (h : port < 65536) (rest : List UInt8) :
    (readPort host).run ([UInt8.ofNat (port / 256), UInt8.ofNat port] ++ rest) =
      .ok (host, itoa port) rest := by
  rw [readPort, Reading.run_readFull (List.length_eq_two.mpr ⟨_, _, rfl⟩), uint16_port h]
  rfl

theorem readPort_ok {host : String} {l rest : List UInt8} {r : String × String}
    (h : (readPort host).run l = .ok r rest) :
    ∃ port, port < 65536 ∧ l = [UInt8.ofNat (port / 256), UInt8.ofNat port] ++ rest ∧
      r = (host, itoa port) := by
  obtain ⟨pb, l', rfl, hlen, hrun⟩ := Reading.run_readFull_ok h
  obtain ⟨hlt, hpb⟩ := port_bytes hlen
  obtain ⟨rfl, rfl⟩ := Reading.Outcome.ok.inj hrun
  exact ⟨uint16 pb, hlt, by rw [← hpb], rfl⟩

theorem toNat_length {b : List UInt8} (h : b.length < 256) : (UInt8.ofNat b.length).toNat = b.length := by
  rw [UInt8.toNat_ofNat', Nat.mod_eq_of_lt h]

/-- The head of a greeting or of a request, once its bytes are there. -/
theorem negotiateAuth_head (fails : Bool) (v n : UInt8) (rest : List UInt8) :
    (negotiateAuth fails).run ([v, n] ++ rest) =
      (if v ≠ ver5 then .fail (.badVersion v)
        else .readFull n.toNat fun methods =>
          if methodNoAuth ∈ methods then
            .write [ver5, methodNoAuth] (if fails then .fail .write else .ret ())
          else .write [ver5, methodNoneMatch] (.fail .noMethod) :
        Reading UInt8 SocksError Unit).run rest := by
  rw [negotiateAuth, Reading.run_readFull (List.length_eq_two.mpr ⟨v, n, rfl⟩)]
  rfl

/-- A greeting is read to its end. -/
theorem negotiateAuth_run (g : Greeting) (rest : List UInt8) :
    (negotiateAuth false).run (g.bytes ++ rest) = .ok () rest := by
  have hbytes : g.bytes ++ rest = [ver5, UInt8.ofNat g.methods.length] ++ (g.methods ++ rest) := rfl
  rw [hbytes, negotiateAuth_head, if_neg (not_not.mpr rfl),
    Reading.run_readFull (toNat_length g.length_lt).symm, if_pos g.offers]
  rfl

/-- Nothing else is accepted, and nothing at all if the reply is not
written. -/
theorem negotiateAuth_ok {fails : Bool} {l rest : List UInt8} {u : Unit}
    (h : (negotiateAuth fails).run l = .ok u rest) :
    fails = false ∧ ∃ g : Greeting, l = g.bytes ++ rest := by
  obtain ⟨head, l, rfl, hlen, -⟩ := Reading.run_readFull_ok h
  obtain ⟨v, n, rfl⟩ := List.length_eq_two.mp hlen
  rw [negotiateAuth_head] at h
  by_cases hver : v ≠ ver5
  · rw [if_pos hver] at h
    cases h
  rw [if_neg hver] at h
  obtain ⟨methods, l, rfl, hlen', h⟩ := Reading.run_readFull_ok h
  by_cases hoffers : methodNoAuth ∈ methods
  · rw [if_pos hoffers] at h
    cases fails with
    | true => cases h
    | false =>
      obtain ⟨-, rfl⟩ := Reading.Outcome.ok.inj h
      have hlt : methods.length < 256 := by
        rw [hlen']
        exact n.toNat_lt
      refine ⟨rfl, ⟨methods, hlt, hoffers⟩, ?_⟩
      rw [Greeting.bytes, hlen', UInt8.ofNat_toNat, not_not.mp hver]
      rfl
  · rw [if_neg hoffers] at h
    cases h

theorem length_eq_four {head : List UInt8} : head.length = 4 ↔ ∃ v c r t, head = [v, c, r, t] := by
  constructor
  · intro h
    obtain ⟨v, tail, rfl⟩ := List.exists_cons_of_length_eq_add_one h
    obtain ⟨c, r, t, rfl⟩ := List.length_eq_three.mp (Nat.succ.inj h)
    exact ⟨v, c, r, t, rfl⟩
  · rintro ⟨v, c, r, t, rfl⟩
    rfl

theorem readRequest_head (v c r t : UInt8) (rest : List UInt8) :
    readRequest.run ([v, c, r, t] ++ rest) =
      (if v ≠ ver5 then .fail (.badVersion v)
        else if c ≠ cmdConnect then .fail .cmdNotSupported
        else readTarget t : Reading UInt8 SocksError (String × String)).run rest := by
  rw [readRequest, Reading.run_readFull (length_eq_four.mpr ⟨v, c, r, t, rfl⟩)]
  rfl

theorem readTarget_run (t : Target) {port : ℕ} (h : port < 65536) (rest : List UInt8) :
    (readTarget t.atyp).run (t.bytes ++ ([UInt8.ofNat (port / 256), UInt8.ofNat port] ++ rest)) =
      .ok (t.text, itoa port) rest := by
  have hport := fun host => readPort_run host h rest
  unfold readTarget
  cases t with
  | ipv4 b hb =>
    rw [Target.atyp, Target.bytes, if_pos rfl, Reading.run_readFull hb]
    exact hport _
  | ipv6 b hb =>
    rw [Target.atyp, Target.bytes, if_neg (by decide), if_pos rfl, Reading.run_readFull hb]
    exact hport _
  | domain b hb =>
    rw [Target.atyp, Target.bytes, if_neg (by decide), if_neg (by decide), if_pos rfl,
      ← List.singleton_append, List.append_assoc, Reading.run_readFull List.length_singleton,
      Reading.run_readFull (n := (byteAt [UInt8.ofNat b.length] 0).toNat) (toNat_length hb).symm]
    exact hport _

theorem readTarget_ok {atyp : UInt8} {l rest : List UInt8} {r : String × String}
    (h : (readTarget atyp).run l = .ok r rest) :
    ∃ (t : Target) (port : ℕ), port < 65536 ∧ atyp = t.atyp ∧
      l = t.bytes ++ ([UInt8.ofNat (port / 256), UInt8.ofNat port] ++ rest) ∧
      r = (t.text, itoa port) := by
  unfold readTarget at h
  split_ifs at h with h4 h6 hname
  · obtain ⟨b, l, rfl, hlen, h⟩ := Reading.run_readFull_ok h
    obtain ⟨port, hlt, rfl, rfl⟩ := readPort_ok h
    exact ⟨.ipv4 b hlen, port, hlt, h4, rfl, rfl⟩
  · obtain ⟨b, l, rfl, hlen, h⟩ := Reading.run_readFull_ok h
    obtain ⟨port, hlt, rfl, rfl⟩ := readPort_ok h
    exact ⟨.ipv6 b hlen, port, hlt, h6, rfl, rfl⟩
  · obtain ⟨n, l, rfl, hlen, h⟩ := Reading.run_readFull_ok h
    obtain ⟨n, rfl⟩ := List.length_eq_one_iff.mp hlen
    obtain ⟨b, l, rfl, hlen', h⟩ := Reading.run_readFull_ok h
    obtain ⟨port, hlt, rfl, rfl⟩ := readPort_ok h
    have hb : b.length = n.toNat := hlen'
    have hlt' : b.length < 256 := by
      rw [hb]
      exact n.toNat_lt
    refine ⟨.domain b hlt', port, hlt, hname, ?_, rfl⟩
    rw [Target.bytes, hb, UInt8.ofNat_toNat]
    rfl
  · cases h

/-- A request is read to its end. -/
theorem readRequest_run (r : Request) (rest : List UInt8) :
    readRequest.run (r.bytes ++ rest) = .ok (r.target.text, itoa r.port) rest := by
  have hbytes : r.bytes ++ rest = [ver5, cmdConnect, r.rsv, r.target.atyp] ++ (r.target.bytes ++
      ([UInt8.ofNat (r.port / 256), UInt8.ofNat r.port] ++ rest)) := by
    simp [Request.bytes]
  rw [hbytes, readRequest_head, if_neg (not_not.mpr rfl), if_neg (not_not.mpr rfl)]
  exact readTarget_run r.target r.port_lt rest

/-- Nothing else is accepted. -/
theorem readRequest_ok {l rest : List UInt8} {r : String × String} (h : readRequest.run l = .ok r rest) :
    ∃ q : Request, l = q.bytes ++ rest ∧ r = (q.target.text, itoa q.port) := by
  obtain ⟨head, l, rfl, hlen, -⟩ := Reading.run_readFull_ok h
  obtain ⟨v, c, rsv, t, rfl⟩ := length_eq_four.mp hlen
  rw [readRequest_head] at h
  by_cases hver : v ≠ ver5
  · rw [if_pos hver] at h
    cases h
  by_cases hcmd : c ≠ cmdConnect
  · rw [if_neg hver, if_pos hcmd] at h
    cases h
  rw [if_neg hver, if_neg hcmd] at h
  obtain ⟨target, port, hlt, rfl, rfl, rfl⟩ := readTarget_ok h
  refine ⟨⟨rsv, target, port, hlt⟩, ?_, rfl⟩
  simp [Request.bytes, not_not.mp hver, not_not.mp hcmd]

/-! ### The handshake -/

theorem handshake_run_iff {l rest : List UInt8} {r : String × String} :
    (handshake false).run l = .ok r rest ↔
      ∃ (g : Greeting) (q : Request), l = g.bytes ++ q.bytes ++ rest ∧ r = (q.target.text, itoa q.port) := by
  constructor
  · intro h
    obtain ⟨u, l', hn, hq⟩ := Reading.run_bind_ok h
    obtain ⟨-, g, rfl⟩ := negotiateAuth_ok hn
    obtain ⟨q, rfl, hr⟩ := readRequest_ok hq
    exact ⟨g, q, (List.append_assoc _ _ _).symm, hr⟩
  · rintro ⟨g, q, rfl, rfl⟩
    rw [handshake, Reading.run_bind, List.append_assoc, negotiateAuth_run]
    exact readRequest_run q rest

/-- **The handshake.** On every stream, whatever its pieces: `negotiateAuth`
and `readRequest` succeed exactly if the stream starts with a greeting that
offers no authentication and a request to connect. They return the address in
text and the port in decimal, and leave what follows the request. Another
command and another type of address have errors of their own. A stream that
is cut before the end of the request gives an error, and so does a reply that
cannot be written. -/
theorem handshake_iff :
    (∀ (s : Stream UInt8) (host port : String) (rest : List UInt8),
      ((handshake false).exec .read s).1 = .ok (host, port) ∧
          ((handshake false).exec .read s).2.1.bytes = rest ↔
        ∃ (g : Greeting) (q : Request), s.bytes = g.bytes ++ q.bytes ++ rest ∧
          host = q.target.text ∧ port = itoa q.port) ∧
    (∀ (s : Stream UInt8) (g : Greeting) (cmd rsv atyp : UInt8) (rest : List UInt8),
      s.bytes = g.bytes ++ [ver5, cmd, rsv, atyp] ++ rest →
      (cmd ≠ cmdConnect → ((handshake false).exec .read s).1 = .error .cmdNotSupported) ∧
      (cmd = cmdConnect → atyp ∉ [atypIPv4, atypDomain, atypIPv6] →
        ((handshake false).exec .read s).1 = .error .addrNotSupported)) ∧
    (∀ (s : Stream UInt8) (g : Greeting) (q : Request) (cut : List UInt8),
      s.bytes ++ cut = g.bytes ++ q.bytes → cut ≠ [] →
      ∃ err, ((handshake false).exec .read s).1 = .error err) ∧
    ∀ s : Stream UInt8, ∃ err, ((handshake true).exec .read s).1 = .error err := by
  refine ⟨fun s host port rest => ?_, fun s g cmd rsv atyp rest hs => ?_, fun s g q cut hs hcut => ?_,
    fun s => ?_⟩
  · rw [Reading.exec_ok_iff, handshake_run_iff]
    simp only [Prod.mk.injEq]
  · have hrun : (handshake false).run s.bytes =
        (if cmd ≠ cmdConnect then .fail .cmdNotSupported else readTarget atyp :
          Reading UInt8 SocksError (String × String)).run rest := by
      rw [handshake, Reading.run_bind, hs, List.append_assoc, negotiateAuth_run]
      exact (readRequest_head ver5 cmd rsv atyp rest).trans (by rw [if_neg (not_not.mpr rfl)])
    constructor
    · intro hcmd
      rw [if_pos hcmd] at hrun
      exact Reading.exec_error hrun
    · intro hcmd hatyp
      simp only [List.mem_cons, List.not_mem_nil, or_false, not_or] at hatyp
      rw [if_neg (not_not.mpr hcmd), readTarget, if_neg hatyp.1, if_neg hatyp.2.2, if_neg hatyp.2.1] at hrun
      exact Reading.exec_error hrun
  · refine Reading.exec_cut hcut (b := (q.target.text, itoa q.port)) ?_
    rw [hs, handshake_run_iff]
    exact ⟨g, q, (List.append_nil _).symm, rfl⟩
  · cases hr : ((handshake true).exec .read s).1 with
    | error e => exact ⟨e, rfl⟩
    | ok r =>
      have hrun := Reading.exec_ok_iff.mp ⟨hr, rfl⟩
      obtain ⟨u, l, hn, -⟩ := Reading.run_bind_ok hrun
      cases (negotiateAuth_ok hn).1

/-- A greeting with two methods and a request for `a.b`, port 80, in pieces,
with a byte of the application behind them; and a `BIND` request. -/
theorem handshake_iff_pieces :
    (((handshake false).exec .read ⟨[[5], [2, 2, 0, 5], [1, 0, 3, 3, 97, 46], [98, 0, 80, 7]], .eof⟩).1 =
        .ok ("a.b", "80") ∧
      ((handshake false).exec .read ⟨[[5], [2, 2, 0, 5], [1, 0, 3, 3, 97, 46], [98, 0, 80, 7]], .eof⟩).2.1.bytes =
        [7]) ∧
    ((handshake false).exec .read ⟨[[5, 1, 0], [5, 2, 0, 1]], .eof⟩).1 = .error .cmdNotSupported := by
  constructor
  · refine (handshake_iff.1 _ _ _ _).mpr ⟨⟨[2, 0], by decide, by decide⟩,
      ⟨0, .domain [97, 46, 98] (by decide), 80, by decide⟩, by decide, by decide, by decide⟩
  · exact (handshake_iff.2.1 _ ⟨[0], by decide, by decide⟩ 2 0 1 [] (by decide)).1 (by decide)

end Socks
end Revquic
