/-
# The client's tunnel interface

The TUN device of a client outlives its connections. The set-up of each
connection gives it the address of the `ConnectOK`; an error is only logged,
and no address is ever taken away. So the interface carries every address
that was ever assigned, each once. The exit takes packets from the latest
only: with an older one in front of it, what the client sends is dropped.

Key definitions: `setUp`, `machine`, `Carries`.
Key theorems: `carries_of_run`, `sole_address_iff`.
-/
import Revquic.Client
import Revquic.Exit.Inbound
import Revquic.Netcfg

namespace Revquic
namespace Client
namespace Tun

open Lib Netip Netcfg Proto

/-- The `ClientIP` field of a message. -/
def clientIP : Control → String
  | .connectOK _ ip _ _ _ => ip
  | _ => ""

/-- The `MTU` field of a message. -/
def mtu : Control → ℕ
  | .connectOK _ _ _ mtu _ => mtu
  | _ => 0

/-- The MTU that is set: at most `SafeTunnelMTU`, and that if there is none in
the message. -/
def effMTU (mtu : ℕ) : ℕ := if mtu = 0 ∨ safeTunnelMTU < mtu then safeTunnelMTU else mtu

/-- The set-up of the interface in `runConnection`; an error is only logged. -/
def setUp (resp : Control) (env : LinkEnv) (tun : Iface) : Iface :=
  (addrUp (clientIP resp ++ "/24") (effMTU (mtu resp)) env tun).1

/-- The reconnect loop and the interface. -/
structure State where
  loop : Loop := {}
  tun : Iface := {}

/-- One turn of the loop. -/
structure Action where
  attempt : Attempt
  shuttingDown : Bool := false
  link : LinkEnv := {}

/-- The interface after an attempt: `AddrUp` is called after a
`MsgConnectOK`. -/
def afterAttempt (a : Action) (tun : Iface) : Iface :=
  match a.attempt.answer with
  | none => tun
  | some resp => if isConnectOK resp then setUp resp a.link tun else tun

/-- The loop with its interface, under any sequence of attempts. -/
def machine (full : Bool) : Machine State Action Unit :=
  ⟨{}, fun s a =>
    ((Client.machine full).step s.loop (a.attempt, a.shuttingDown)).map fun r =>
      (⟨r.1, afterAttempt a s.tun⟩, r.2)⟩

/-- The address that a successful set-up assigns: that of its `ConnectOK`. -/
def assigned (a : Attempt) : Option Addr :=
  match a.answer with
  | none => none
  | some resp => if isConnectOK resp then parseAddr (clientIP resp) else none

/-- The addresses assigned in a run, oldest first. -/
def assignedIn (tr : List (Event State Action Unit)) : List Addr :=
  tr.filterMap fun e => assigned e.act.attempt

/-! ### The addresses of the interface -/

/-- The interface carries each of the addresses once, and no other. -/
structure Carries (ips : List Addr) (tun : Iface) : Prop where
  nodup : tun.addrs.Nodup
  mem : ∀ x, x ∈ tun.addrs ↔ ∃ a ∈ ips, x = (a, 24)

section
variable {full : Bool} {tr : List (Event State Action Unit)} {s : State} {ips : List Addr}
  {tun : Iface} {act : Action}

/-- An attempt that assigns no address leaves the addresses as they are. -/
theorem afterAttempt_of_none (h : assigned act.attempt = none) : afterAttempt act tun = tun := by
  unfold assigned at h
  unfold afterAttempt
  cases ha : act.attempt.answer with
  | none => rfl
  | some resp =>
    simp only [ha] at h ⊢
    cases hok : isConnectOK resp with
    | false => rfl
    | true =>
      simp only [hok, if_true] at h
      have hp : parseCIDR (clientIP resp ++ "/24").toList = none := by
        rw [parseCIDR_append, h, Option.map_none]
      exact addrUp_of_none hp

/-- An address that is assigned is added, if it is not there. -/
theorem afterAttempt_of_some (tun : Iface) {a : Addr} (h : assigned act.attempt = some a) :
    (afterAttempt act tun).addrs =
      if (a, 24) ∈ tun.addrs then tun.addrs else tun.addrs ++ [(a, 24)] := by
  unfold assigned at h
  unfold afterAttempt
  cases ha : act.attempt.answer with
  | none => simp [ha] at h
  | some resp =>
    simp only [ha] at h ⊢
    cases hok : isConnectOK resp with
    | false => simp [hok] at h
    | true =>
      simp only [hok, if_true] at h
      have hp : parseCIDR (clientIP resp ++ "/24").toList = some (a, 24) := by
        rw [parseCIDR_append, h, Option.map_some]
      rw [if_pos rfl, setUp, addrUp_addrs hp]

theorem v4_of_assigned {a : Addr} {att : Attempt} (h : assigned att = some a) :
    ∃ x, a = .v4 x := by
  unfold assigned at h
  split at h
  · cases h
  · split at h
    · exact (slash_notMem_of_parseAddr h).2
    · cases h

/-- One attempt. -/
theorem Carries.afterAttempt (h : Carries ips tun) (act : Action) :
    Carries (ips ++ (assigned act.attempt).toList) (afterAttempt act tun) := by
  cases ha : assigned act.attempt with
  | none => simpa [afterAttempt_of_none ha] using h
  | some a =>
    have hmem : ∀ x, (∃ b ∈ ips ++ [a], x = (b, 24)) ↔ x ∈ tun.addrs ∨ x = (a, 24) := by
      intro x
      rw [h.mem]
      simp [or_and_right, exists_or]
    have hadd := afterAttempt_of_some tun ha
    by_cases hm : (a, 24) ∈ tun.addrs
    · rw [if_pos hm] at hadd
      refine ⟨by rw [hadd]; exact h.nodup, fun x => ?_⟩
      rw [hadd, Option.toList_some, hmem]
      exact ⟨Or.inl, fun hx => hx.elim id fun hx => hx ▸ hm⟩
    · rw [if_neg hm] at hadd
      refine ⟨?_, fun x => ?_⟩
      · rw [hadd]
        exact h.nodup.append (List.nodup_singleton _) (by simpa using hm)
      · rw [hadd, Option.toList_some, hmem]
        simp

/-- **The interface keeps every address that it was ever given.** -/
theorem carries_of_run (h : (machine full).Run tr s) : Carries (assignedIn tr) s.tun := by
  induction h with
  | nil => exact ⟨List.nodup_nil, by simp [machine, assignedIn]⟩
  | @snoc tr s s' act o _ hs ih =>
    simp only [machine, Option.map_eq_some_iff] at hs
    obtain ⟨r, -, hr⟩ := hs
    obtain ⟨rfl, rfl⟩ := Prod.mk.inj hr
    have hin : assignedIn (tr ++ [⟨s, act, r.2, ⟨r.1, Tun.afterAttempt act s.tun⟩⟩]) =
        assignedIn tr ++ (assigned act.attempt).toList := by
      unfold assignedIn
      cases ha : assigned act.attempt with
      | none => simp [ha]
      | some a => simp [ha]
    rw [hin]
    exact ih.afterAttempt act

/-- **After a set-up the interface carries only its current address exactly if
every set-up so far assigned that one.** The exit of the session takes packets
from no other address. -/
theorem sole_address_iff (h : (machine full).Run tr s) {a : Addr}
    (ha : (assignedIn tr).getLast? = some a) (es : Exit.ExitSession)
    (hes : es.clientIP = a.string) :
    (s.tun.addrs = [(a, 24)] ↔ ∀ b ∈ assignedIn tr, b = a) ∧
      ∀ pkt, Exit.passes es pkt = true ↔ Exit.ipv4Src pkt = some a := by
  have hc := carries_of_run h
  have hmem : a ∈ assignedIn tr := List.mem_of_getLast? ha
  constructor
  · constructor
    · intro haddrs b hb
      have hin : (b, 24) ∈ s.tun.addrs := (hc.mem _).mpr ⟨b, hb, rfl⟩
      rw [haddrs, List.mem_singleton] at hin
      exact (Prod.mk.inj hin).1
    · intro hall
      refine List.perm_singleton.mp ((List.perm_ext_iff_of_nodup hc.nodup
        (List.nodup_singleton _)).mpr fun x => ?_)
      rw [hc.mem, List.mem_singleton]
      constructor
      · rintro ⟨b, hb, rfl⟩
        rw [hall b hb]
      · rintro rfl
        exact ⟨a, hmem, rfl⟩
  · intro pkt
    obtain ⟨e, -, he⟩ := List.mem_filterMap.mp hmem
    obtain ⟨x, rfl⟩ := v4_of_assigned he
    exact Exit.passes_iff_src hes

/-- A session that drops and is resumed, with a refused attempt in between. -/
theorem sole_address_iff_resume : ∃ tr s, (machine true).Run tr s ∧
    assignedIn tr = [.v4 0x0a630002#32, .v4 0x0a630002#32] ∧
    s.tun.addrs = [(.v4 0x0a630002#32, 24)] := by
  obtain ⟨tr, s, hr, hin⟩ := (machine true).exists_run
    [{ attempt := { reply := .ok welcome, drop := "timeout" } },
      { attempt := { reply := .ok (.error "no exit available in region us") } },
      { attempt := { reply := .ok welcome } }]
    (P := fun r => assignedIn r.1 = [.v4 0x0a630002#32, .v4 0x0a630002#32])
    (by decide +kernel)
  have ha : (assignedIn tr).getLast? = some (.v4 0x0a630002#32) := by
    rw [hin]
    rfl
  have hsole := (sole_address_iff hr ha { clientIP := Addr.string (.v4 0x0a630002#32) } rfl).1
  exact ⟨tr, s, hr, hin, hsole.mpr (by simp [hin])⟩

/-- The second connection is given another address: the interface keeps the
first in front of it, and the exit drops a packet from there. -/
theorem old_address_stays : ∃ tr s, (machine true).Run tr s ∧
    assignedIn tr = [.v4 0x0a630002#32, .v4 0x0a630003#32] ∧
    s.tun.addrs = [(.v4 0x0a630002#32, 24), (.v4 0x0a630003#32, 24)] ∧
    Exit.passes { clientIP := "10.99.0.3" }
      ([0x45] ++ List.replicate 11 0 ++ [10, 99, 0, 2] ++ [8, 8, 8, 8]) = false := by
  obtain ⟨tr, s, hr, hin, haddrs⟩ := (machine true).exists_run
    [{ attempt := { reply := .ok welcome, drop := "timeout" } },
      { attempt := { reply := .ok (.connectOK 2 "10.99.0.3" "255.255.255.0" 1200 {}) } }]
    (P := fun r => assignedIn r.1 = [.v4 0x0a630002#32, .v4 0x0a630003#32] ∧
      r.2.tun.addrs = [(.v4 0x0a630002#32, 24), (.v4 0x0a630003#32, 24)])
    (by decide +kernel)
  exact ⟨tr, s, hr, hin, haddrs, by decide +kernel⟩

end
end Tun
end Client
end Revquic
