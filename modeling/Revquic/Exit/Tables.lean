/-
# The exit's session tables (`cmd/revquic-exit`)

An exit keeps its sessions by id (`sessions`) and finds the session of a
reply packet by its destination address (`byIP`). Both maps are under `e.mu`;
the control loop changes them, and `serve` empties them when a broker
connection starts or ends. An `*exitSession` is a number, in the order of
allocation: a goroutine keeps its pointer when the session has left the
tables.

Key definitions: `Tables`, `addSession`, `suspendSession`, `removeSession`,
`passes`, `Tables.route`, `Tables.Inverse`, `Tables.Fresh`.
-/
import Revquic.Proto
import Revquic.Netip

namespace Revquic
namespace Exit

open Lib Netip Proto

/-- An `*exitSession`. -/
abbrev Ptr := ℕ

/-- `exitSession`; `sid` is the id its `session.Session` was made with. -/
structure ExitSession where
  sid : ℕ := 0
  clientIP : String := ""
  ice : IceServers := {}
  suspended : Bool := false
  bytesUp : ℕ := 0

/-- The part of `exit` under `e.mu`, with the sessions it points to. -/
structure Tables where
  sessions : GoMap ℕ Ptr := ∅
  byIP : GoMap Addr ℕ := ∅
  es : Ptr → ExitSession := fun _ => {}
  /-- The next pointer to be allocated. -/
  next : Ptr := 0

namespace Tables

variable (t : Tables)

def setES (p : Ptr) (s : ExitSession) : Tables := { t with es := Function.update t.es p s }

/-- `serve`: both maps are made new. -/
def reset : Tables := { t with sessions := ∅, byIP := ∅ }

/-- `addSession`, its first section: a session that is still there is
reactivated. Otherwise it goes on, with the parsed address. -/
def beginAdd (sid : ℕ) (clientIP : String) : Tables × Option Addr :=
  match parseAddr clientIP with
  | none => (t, none)
  | some ip =>
    match t.sessions.lookup sid with
    | some p => (t.setES p { t.es p with suspended := false }, none)
    | none => (t, some ip)

/-- `addSession`, its second section: a new session enters both maps. -/
def finishAdd (sid : ℕ) (clientIP : String) (ice : IceServers) (ip : Addr) : Tables where
  sessions := t.sessions.insert sid t.next
  byIP := t.byIP.insert ip sid
  es := Function.update t.es t.next { sid, clientIP, ice }
  next := t.next + 1

/-- `addSession`. -/
def addSession (sid : ℕ) (clientIP : String) (ice : IceServers) : Tables :=
  match t.beginAdd sid clientIP with
  | (t', none) => t'
  | (t', some ip) => t'.finishAdd sid clientIP ice ip

/-- `MsgSessionSuspend`. -/
def suspendSession (sid : ℕ) : Tables :=
  match t.sessions.lookup sid with
  | none => t
  | some p => t.setES p { t.es p with suspended := true }

/-- `removeSession`. -/
def removeSession (sid : ℕ) : Tables :=
  match t.sessions.lookup sid with
  | none => t
  | some p =>
    { t with
      sessions := t.sessions.erase sid
      byIP := match parseAddr (t.es p).clientIP with
        | none => t.byIP
        | some ip => t.byIP.erase ip }

/-- What `controlLoop` does with a message to the tables. `MsgPong` and
`MsgSignal` leave them alone. -/
def control : Control → Tables
  | .sessionStart sid clientIP _ _ ice => t.addSession sid clientIP ice
  | .sessionSuspend sid => t.suspendSession sid
  | .sessionEnd sid => t.removeSession sid
  | _ => t

/-- The session whose ICE negotiation `controlLoop` hands a signal to. -/
def signalled : Control → Option Ptr
  | .signal sid _ _ => t.sessions.lookup sid
  | _ => none

end Tables

/-! ### Packets -/

/-- An address field of an IPv4 packet, from byte `i` on. -/
def ipv4Addr (i : ℕ) (pkt : List UInt8) : Option Addr :=
  if pkt.length < 20 ∨ (pkt.getD 0 0).toNat / 16 ≠ 4 then none
  else some (addrFrom4 (pkt.getD i 0) (pkt.getD (i + 1) 0) (pkt.getD (i + 2) 0) (pkt.getD (i + 3) 0))

/-- `ipv4Src`. -/
def ipv4Src (pkt : List UInt8) : Option Addr := ipv4Addr 12 pkt

/-- `ipv4Dst`. -/
def ipv4Dst (pkt : List UInt8) : Option Addr := ipv4Addr 16 pkt

/-- `writeInbound`: whether a session's packet goes out on the TUN. -/
def passes (s : ExitSession) (pkt : List UInt8) : Bool :=
  match ipv4Src pkt with
  | none => false
  | some src => src.string = s.clientIP

/-- `tunToDatagram`: the session a reply packet is handed to. -/
def Tables.route (t : Tables) (pkt : List UInt8) : Option Ptr :=
  match ipv4Dst pkt with
  | none => none
  | some dst =>
    match t.byIP.lookup dst with
    | none => none
    | some sid => t.sessions.lookup sid

/-! ### Well-formed tables -/

/-- The two maps are inverse to each other: every session is found under its
address, and every address leads to a session that has it. -/
structure Tables.Inverse (t : Tables) : Prop where
  routed : ∀ sid p, t.sessions.lookup sid = some p →
    ∃ ip, parseAddr (t.es p).clientIP = some ip ∧ t.byIP.lookup ip = some sid
  owned : ∀ ip sid, t.byIP.lookup ip = some sid →
    ∃ p, t.sessions.lookup sid = some p ∧ parseAddr (t.es p).clientIP = some ip

/-- Pointers are allocated once, and a session is filed under its own id. -/
structure Tables.Fresh (t : Tables) : Prop where
  below : ∀ sid p, t.sessions.lookup sid = some p → p < t.next
  own : ∀ sid p, t.sessions.lookup sid = some p → (t.es p).sid = sid

namespace Tables

variable {t : Tables}

theorem Fresh.inj (h : t.Fresh) {i j : ℕ} {p : Ptr} (hi : t.sessions.lookup i = some p)
    (hj : t.sessions.lookup j = some p) : i = j := by
  rw [← h.own i p hi, h.own j p hj]

theorem Fresh.ne_next (h : t.Fresh) {sid : ℕ} {p : Ptr} (hp : t.sessions.lookup sid = some p) :
    p ≠ t.next := (h.below sid p hp).ne

theorem fresh_reset (t : Tables) : t.reset.Fresh := ⟨nofun, nofun⟩

theorem inverse_reset (t : Tables) : t.reset.Inverse := ⟨nofun, nofun⟩

@[simp] theorem removeSession_es (sid : ℕ) : (t.removeSession sid).es = t.es := by
  unfold Tables.removeSession
  split <;> rfl

@[simp] theorem removeSession_next (sid : ℕ) : (t.removeSession sid).next = t.next := by
  unfold Tables.removeSession
  split <;> rfl

theorem setES_sid {p q : Ptr} {s : ExitSession} (hs : s.sid = (t.es p).sid) :
    ((t.setES p s).es q).sid = (t.es q).sid := by
  by_cases hqp : q = p
  · subst hqp
    simp only [Tables.setES, Function.update_self, hs]
  · simp only [Tables.setES, Function.update_of_ne hqp]

/-- A flag of a session changes. -/
theorem Fresh.setES (h : t.Fresh) {p : Ptr} {s : ExitSession} (hs : s.sid = (t.es p).sid) :
    (t.setES p s).Fresh :=
  ⟨h.below, fun sid q hq => (setES_sid hs).trans (h.own sid q hq)⟩

theorem setES_clientIP {p q : Ptr} {s : ExitSession} (hs : s.clientIP = (t.es p).clientIP) :
    ((t.setES p s).es q).clientIP = (t.es q).clientIP := by
  by_cases hqp : q = p
  · subst hqp
    simp only [Tables.setES, Function.update_self, hs]
  · simp only [Tables.setES, Function.update_of_ne hqp]

theorem Inverse.setES (h : t.Inverse) {p : Ptr} {s : ExitSession}
    (hs : s.clientIP = (t.es p).clientIP) : (t.setES p s).Inverse := by
  have hip : ∀ q, ((t.setES p s).es q).clientIP = (t.es q).clientIP := fun q => setES_clientIP hs
  refine ⟨fun sid q hq => ?_, fun ip sid hi => ?_⟩
  · rw [hip]
    exact h.routed sid q hq
  · obtain ⟨q, hq, ha⟩ := h.owned ip sid hi
    exact ⟨q, hq, by rw [hip]; exact ha⟩

theorem Fresh.finishAdd (h : t.Fresh) {sid : ℕ} {clientIP : String} {ice : IceServers} {ip : Addr} :
    (t.finishAdd sid clientIP ice ip).Fresh := by
  refine ⟨fun i p hp => ?_, fun i p hp => ?_⟩
  · change (t.sessions.insert sid t.next).lookup i = some p at hp
    change p < t.next + 1
    rw [GoMap.lookup_set] at hp
    split_ifs at hp
    · obtain rfl := Option.some.inj hp
      exact Nat.lt_succ_self _
    · exact Nat.lt_succ_of_lt (h.below i p hp)
  · change (t.sessions.insert sid t.next).lookup i = some p at hp
    change (Function.update t.es t.next _ p).sid = i
    rw [GoMap.lookup_set] at hp
    split_ifs at hp with hi
    · obtain rfl := Option.some.inj hp
      rw [Function.update_self]
      exact hi.symm
    · rw [Function.update_of_ne (h.ne_next hp)]
      exact h.own i p hp

/-- A new session under a new id and an address that has no session. -/
theorem Inverse.finishAdd (h : t.Inverse) (hf : t.Fresh) {sid : ℕ} {clientIP : String}
    {ice : IceServers} {ip : Addr} (hip : parseAddr clientIP = some ip)
    (hsid : t.sessions.lookup sid = none) (hfree : t.byIP.lookup ip = none) :
    (t.finishAdd sid clientIP ice ip).Inverse := by
  refine ⟨fun i p hp => ?_, fun x i hx => ?_⟩
  · change (t.sessions.insert sid t.next).lookup i = some p at hp
    change ∃ y, parseAddr (Function.update t.es t.next _ p).clientIP = some y ∧
      (t.byIP.insert ip sid).lookup y = some i
    rw [GoMap.lookup_set] at hp
    split_ifs at hp with hi
    · obtain rfl := Option.some.inj hp
      rw [Function.update_self]
      exact ⟨ip, hip, by rw [GoMap.lookup_set, if_pos rfl, hi]⟩
    · rw [Function.update_of_ne (hf.ne_next hp)]
      obtain ⟨y, hy, hyi⟩ := h.routed i p hp
      refine ⟨y, hy, ?_⟩
      rw [GoMap.lookup_set, if_neg]
      · exact hyi
      · rintro rfl
        rw [hfree] at hyi
        cases hyi
  · change (t.byIP.insert ip sid).lookup x = some i at hx
    change ∃ p, (t.sessions.insert sid t.next).lookup i = some p ∧
      parseAddr (Function.update t.es t.next _ p).clientIP = some x
    rw [GoMap.lookup_set] at hx
    split_ifs at hx with hxi
    · obtain rfl := Option.some.inj hx
      exact ⟨t.next, by rw [GoMap.lookup_set, if_pos rfl], by
        rw [Function.update_self, hxi]; exact hip⟩
    · obtain ⟨p, hp, ha⟩ := h.owned x i hx
      have hne : i ≠ sid := by
        rintro rfl
        rw [hsid] at hp
        cases hp
      exact ⟨p, by rw [GoMap.lookup_set, if_neg hne]; exact hp, by
        rw [Function.update_of_ne (hf.ne_next hp)]; exact ha⟩

theorem Fresh.removeSession (h : t.Fresh) (sid : ℕ) : (t.removeSession sid).Fresh := by
  unfold Tables.removeSession
  split
  · exact h
  · refine ⟨fun i p hp => ?_, fun i p hp => ?_⟩ <;>
    · rw [GoMap.lookup_delete] at hp
      split_ifs at hp
      first | exact h.below i p hp | exact h.own i p hp

theorem Inverse.removeSession (h : t.Inverse) (sid : ℕ) : (t.removeSession sid).Inverse := by
  unfold Tables.removeSession
  split
  · exact h
  · rename_i p hp
    obtain ⟨ip, hip, hby⟩ := h.routed sid p hp
    simp only [hip]
    refine ⟨fun i q hq => ?_, fun x i hx => ?_⟩
    · simp only [GoMap.lookup_delete] at hq ⊢
      split_ifs at hq with hi
      obtain ⟨y, hy, hyi⟩ := h.routed i q hq
      refine ⟨y, hy, ?_⟩
      rw [if_neg]
      · exact hyi
      · rintro rfl
        rw [hby] at hyi
        exact hi (Option.some.inj hyi).symm
    · simp only [GoMap.lookup_delete] at hx ⊢
      split_ifs at hx with hxi
      obtain ⟨q, hq, ha⟩ := h.owned x i hx
      refine ⟨q, ?_, ha⟩
      rw [if_neg]
      · exact hq
      · rintro rfl
        rw [hp] at hq
        obtain rfl := Option.some.inj hq
        rw [hip] at ha
        exact hxi (Option.some.inj ha).symm

theorem removeSession_sub {sid i : ℕ} {p : Ptr}
    (h : (t.removeSession sid).sessions.lookup i = some p) : t.sessions.lookup i = some p ∧ i ≠ sid := by
  unfold Tables.removeSession at h
  split at h
  · rename_i hnone
    refine ⟨h, ?_⟩
    rintro rfl
    rw [hnone] at h
    cases h
  · change (t.sessions.erase sid).lookup i = some p at h
    rw [GoMap.lookup_delete] at h
    split_ifs at h with hi
    exact ⟨h, hi⟩

/-! ### Messages -/

theorem Fresh.control (h : t.Fresh) (m : Control) : (t.control m).Fresh := by
  cases m with
  | sessionStart sid clientIP mask mtu ice =>
    simp only [Tables.control, addSession, beginAdd]
    cases parseAddr clientIP with
    | none => exact h
    | some ip =>
      simp only
      cases t.sessions.lookup sid with
      | none => exact h.finishAdd
      | some p => exact h.setES rfl
  | sessionSuspend sid =>
    simp only [Tables.control, suspendSession]
    split
    · exact h
    · exact h.setES rfl
  | sessionEnd sid => exact h.removeSession sid
  | _ => exact h

/-- The maps stay inverse if a new session starts under an address that has
no session. -/
theorem Inverse.control (h : t.Inverse) (hf : t.Fresh) {m : Control}
    (hfree : ∀ sid clientIP mask mtu ice ip, m = .sessionStart sid clientIP mask mtu ice →
      parseAddr clientIP = some ip → t.sessions.lookup sid = none → t.byIP.lookup ip = none) :
    (t.control m).Inverse := by
  cases m with
  | sessionStart sid clientIP mask mtu ice =>
    simp only [Tables.control, addSession, beginAdd]
    cases hip : parseAddr clientIP with
    | none => exact h
    | some ip =>
      simp only
      cases hsid : t.sessions.lookup sid with
      | none => exact h.finishAdd hf hip hsid (hfree sid clientIP mask mtu ice ip rfl hip hsid)
      | some p => exact h.setES rfl
  | sessionSuspend sid =>
    simp only [Tables.control, suspendSession]
    split
    · exact h
    · exact h.setES rfl
  | sessionEnd sid => exact h.removeSession sid
  | _ => exact h

/-- A session in the tables was there, with the same address, or has just
been started. -/
theorem lookup_control (hf : t.Fresh) {m : Control} {sid : ℕ} {q : Ptr}
    (h : (t.control m).sessions.lookup sid = some q) :
    (∃ clientIP mask mtu ice, m = .sessionStart sid clientIP mask mtu ice ∧
      ((t.control m).es q).clientIP = clientIP) ∨
    t.sessions.lookup sid = some q ∧ ((t.control m).es q).clientIP = (t.es q).clientIP := by
  cases m with
  | sessionStart i clientIP mask mtu ice =>
    simp only [Tables.control, addSession, beginAdd] at h ⊢
    cases hip : parseAddr clientIP with
    | none =>
      rw [hip] at h
      exact Or.inr ⟨h, rfl⟩
    | some ip =>
      cases hsid : t.sessions.lookup i with
      | some p =>
        simp only [hip, hsid] at h
        exact Or.inr ⟨h, setES_clientIP rfl⟩
      | none =>
        simp only [hip, hsid] at h
        change (t.sessions.insert i t.next).lookup sid = some q at h
        rw [GoMap.lookup_set] at h
        split_ifs at h with hi
        · obtain rfl := Option.some.inj h
          subst hi
          exact Or.inl ⟨clientIP, mask, mtu, ice, rfl, by simp [finishAdd]⟩
        · exact Or.inr ⟨h, by simp [finishAdd, hf.ne_next h]⟩
  | sessionSuspend i =>
    simp only [Tables.control, suspendSession] at h ⊢
    split at h
    · exact Or.inr ⟨h, rfl⟩
    · exact Or.inr ⟨h, setES_clientIP rfl⟩
  | sessionEnd i =>
    exact Or.inr ⟨(removeSession_sub h).1, by simp only [Tables.control, removeSession_es]⟩
  | _ => exact Or.inr ⟨h, rfl⟩

/-! ### What the inverse maps are for -/

/-- `removeSession` takes away no other session's address. -/
theorem Inverse.removeSession_others (h : t.Inverse) {sid sid' : ℕ} {ip : Addr} (hne : sid' ≠ sid)
    (hip : t.byIP.lookup ip = some sid') : (t.removeSession sid).byIP.lookup ip = some sid' := by
  unfold Tables.removeSession
  split
  · exact hip
  · rename_i p hp
    obtain ⟨x, hx, hby⟩ := h.routed sid p hp
    simp only [hx]
    rw [GoMap.lookup_delete, if_neg]
    · exact hip
    · rintro rfl
      rw [hip] at hby
      exact hne (Option.some.inj hby)

/-- A reply packet goes to the session that has its destination address. -/
theorem Inverse.route_iff (h : t.Inverse) {pkt : List UInt8} {dst : Addr}
    (hdst : ipv4Dst pkt = some dst) (p : Ptr) : t.route pkt = some p ↔
      ∃ sid, t.sessions.lookup sid = some p ∧ parseAddr (t.es p).clientIP = some dst := by
  simp only [Tables.route, hdst]
  constructor
  · intro hr
    cases hby : t.byIP.lookup dst with
    | none => rw [hby] at hr; cases hr
    | some sid =>
      simp only [hby] at hr
      obtain ⟨q, hq, hip⟩ := h.owned dst sid hby
      obtain rfl := Option.some.inj (hq.symm.trans hr)
      exact ⟨sid, hr, hip⟩
  · rintro ⟨sid, hp, hip⟩
    obtain ⟨x, hx, hby⟩ := h.routed sid p hp
    obtain rfl := Option.some.inj (hip.symm.trans hx)
    simp only [hby, hp]

end Tables
end Exit
end Revquic
