/-
# Packets from clients

`writeInbound` compares the source address of a packet with that of the
session the loop has in hand. `datagramToTun` looks that session up for every
packet, `runDirect` never does, so it goes on writing packets of a session
that `removeSession` has taken out of the tables. `Orderly` says which steps
a run must not have for every packet written to come from the session to
which the tables assign its source address.

Key definitions: `Orderly`, `Ends`, `EndedSilent`, `Attributed`, `Sound`.
Key theorems: `Sound.step`, `ended_session_injects_nothing`.
-/
import Revquic.Exit.Step

namespace Revquic
namespace Exit

open Lib Netip Proto

/-- The loop has a packet of session `p` in hand that passes the source check
of `s`. -/
def InboundPC.holds (p : Ptr) (s : ExitSession) : InboundPC → Bool
  | .hold q pkt => q = p && passes s pkt
  | _ => false

/-- Some loop has a packet of session `p` in hand that will be written. -/
def State.holding (e : State) (p : Ptr) : Prop :=
  (∃ k < e.conns, (e.inbound (.relay k)).holds p (e.es p) = true) ∨
    (e.inbound (.direct p)).holds p (e.es p) = true

instance (e : State) (p : Ptr) : Decidable (e.holding p) := inferInstanceAs (Decidable (_ ∨ _))

/-- The session a message ends. -/
def endOf : Control → Option ℕ
  | .sessionEnd sid => some sid
  | _ => none

/-- The session a control loop is about to insert, with its address. -/
def ControlPC.adds : ControlPC → Option (ℕ × Addr)
  | .adding sid _ _ ip => some (sid, ip)
  | _ => none

/-- Of the packets that pass the source check, no loop has one of a session
in hand that leaves the tables, and a direct connection delivers one of a
session in the tables; a session enters the tables under an id and an
address that are free. -/
def Orderly (e : State) : Action → Prop
  | .ctrl _ m => ∀ sid ∈ endOf m, ∀ p ∈ e.sessions.lookup sid, ¬ e.holding p
  | .serve | .lost => ∀ x ∈ e.sessions.entries, ¬ e.holding x.2
  | .direct p pkt => passes (e.es p) pkt = true → e.sessions.lookup (e.es p).sid = some p
  | .insert k => ∀ x ∈ (e.control k).adds,
    e.sessions.lookup x.1 = none ∧ e.byIP.lookup x.2 = none
  | _ => True

instance (e : State) : DecidablePred (Orderly e)
  | .ctrl _ _ => inferInstanceAs (Decidable (∀ _ ∈ _, _))
  | .serve | .lost => inferInstanceAs (Decidable (∀ _ ∈ _, _))
  | .direct _ _ => inferInstanceAs (Decidable (_ → _))
  | .insert _ => inferInstanceAs (Decidable (∀ _ ∈ _, _))
  | .ctrlDone _ | .datagram _ _ | .negotiated _ _ | .recvDone _ | .write _ | .reply _ =>
    isTrue trivial

/-- The step takes session `p` out of the tables for `MsgSessionEnd`. -/
def Ends (ev : Event State Action Out) (p : Ptr) : Prop :=
  ∃ k sid, ev.act = .ctrl k (.sessionEnd sid) ∧ ev.pre.sessions.lookup sid = some p

/-- Once a session has ended, none of its packets is written to the TUN. -/
def EndedSilent (tr : List (Event State Action Out)) : Prop :=
  ∀ tr₁ ev₁ tr₂ ev₂ tr₃ p pkt, tr = (tr₁ ++ ev₁ :: tr₂) ++ ev₂ :: tr₃ → Ends ev₁ p →
    Out.tun p pkt ∉ ev₂.out

/-- Every packet written to the TUN comes from the session to which the
tables assign its source address. -/
def Attributed (ev : Event State Action Out) : Prop :=
  ∀ p pkt, Out.tun p pkt ∈ ev.out → ∃ x sid, ipv4Src pkt = some x ∧
    ev.pre.byIP.lookup x = some sid ∧ ev.pre.sessions.lookup sid = some p

/-- The invariant of orderly runs. -/
structure Sound (e : State) : Prop where
  fresh : e.Fresh
  inverse : e.Inverse
  held : ∀ l p pkt, e.inbound l = .hold p pkt → passes (e.es p) pkt = true →
    e.sessions.lookup (e.es p).sid = some p
  known : ∀ l p, (∃ pkt, e.inbound l = .hold p pkt) ∨ l = .direct p ∧ e.inbound l ≠ .off →
    p < e.next
  relays : ∀ k, e.inbound (.relay k) ≠ .off → k < e.conns
  own : ∀ p q pkt, e.inbound (.direct p) = .hold q pkt → q = p
  parsed : ∀ k sid clientIP ice ip, e.control k = .adding sid clientIP ice ip →
    parseAddr clientIP = some ip

section
variable {cfg : Config} {e e' : State} {a : Action} {o : List Out}
  {tr : List (Event State Action Out)}

theorem Sound.holding (h : Sound e) {l : Loop} {p : Ptr} {pkt : List UInt8}
    (hl : e.inbound l = .hold p pkt) (hpass : passes (e.es p) pkt = true) : e.holding p := by
  cases l with
  | relay k =>
    refine Or.inl ⟨k, h.relays k (by simp [hl]), ?_⟩
    simp [hl, InboundPC.holds, hpass]
  | direct q =>
    obtain rfl := h.own q p pkt hl
    exact Or.inr (by simp [hl, InboundPC.holds, hpass])

/-! ### The inbound loops move -/

/-- One loop moves and the tables stay. -/
theorem Sound.setInbound (h : Sound e) {l : Loop} {pc : InboundPC}
    (hheld : ∀ p pkt, pc = .hold p pkt → passes (e.es p) pkt = true →
      e.sessions.lookup (e.es p).sid = some p)
    (hknown : ∀ p, (∃ pkt, pc = .hold p pkt) ∨ l = .direct p → p < e.next)
    (hrelay : ∀ k, l = .relay k → k < e.conns)
    (hown : ∀ p q pkt, l = .direct p → pc = .hold q pkt → q = p) : Sound (e.setInbound l pc) := by
  have hs : (e.setInbound l pc).inbound l = pc := Function.update_self _ _ _
  have hn : ∀ l', l' ≠ l → (e.setInbound l pc).inbound l' = e.inbound l' :=
    fun l' hl => Function.update_of_ne hl _ _
  refine ⟨h.fresh, h.inverse, ?_, ?_, ?_, ?_, h.parsed⟩
  · intro l' p pkt hl'
    by_cases hll : l' = l
    · rw [hll, hs] at hl'
      exact hheld p pkt hl'
    · rw [hn l' hll] at hl'
      exact h.held l' p pkt hl'
  · intro l' p hp
    by_cases hll : l' = l
    · rw [hll, hs] at hp
      exact hknown p (hp.imp_right And.left)
    · rw [hn l' hll] at hp
      exact h.known l' p hp
  · intro k hk
    by_cases hll : .relay k = l
    · exact hrelay k hll.symm
    · rw [hn _ hll] at hk
      exact h.relays k hk
  · intro p q pkt hq
    by_cases hll : .direct p = l
    · rw [hll, hs] at hq
      exact hown p q pkt hll.symm hq
    · rw [hn _ hll] at hq
      exact h.own p q pkt hq

/-- A loop stops holding a packet, or never did. -/
theorem Sound.release (h : Sound e) {l : Loop} {pc : InboundPC} (hpc : ∀ p pkt, pc ≠ .hold p pkt)
    (hl : e.inbound l ≠ .off) : Sound (e.setInbound l pc) :=
  h.setInbound (fun p pkt he => absurd he (hpc p pkt))
    (fun p hp => hp.elim (fun ⟨pkt, he⟩ => absurd he (hpc p pkt)) fun he =>
      h.known l p (Or.inr ⟨he, hl⟩))
    (fun k hk => h.relays k (hk ▸ hl)) fun _ q pkt _ he => absurd he (hpc q pkt)

/-! ### The tables change -/

/-- The tables change and the loops stay. -/
theorem Sound.setTables (h : Sound e) {t : Tables} (hf : t.Fresh) (hi : t.Inverse)
    (hnext : e.next ≤ t.next)
    (hheld : ∀ l p pkt, e.inbound l = .hold p pkt → passes (t.es p) pkt = true →
      t.sessions.lookup (t.es p).sid = some p) :
    Sound { e with toTables := t } :=
  ⟨hf, hi, hheld, fun l p hp => (h.known l p hp).trans_le hnext, h.relays, h.own, h.parsed⟩

theorem Sound.setES (h : Sound e) {p : Ptr} {s : ExitSession} (hsid : s.sid = (e.es p).sid)
    (hip : s.clientIP = (e.es p).clientIP) : Sound { e with toTables := e.setES p s } := by
  refine h.setTables (h.fresh.setES hsid) (h.inverse.setES hip) le_rfl fun l q pkt hl hpass => ?_
  change passes (Function.update e.es p s q) pkt = true at hpass
  change e.sessions.lookup (Function.update e.es p s q).sid = some q
  by_cases hq : q = p
  · subst hq
    rw [Function.update_self] at hpass ⊢
    rw [hsid]
    exact h.held l q pkt hl (by unfold passes at hpass ⊢; rwa [hip] at hpass)
  · rw [Function.update_of_ne hq] at hpass ⊢
    exact h.held l q pkt hl hpass

theorem Sound.beginAdd (h : Sound e) (sid : ℕ) (clientIP : String) :
    Sound { e with toTables := (e.beginAdd sid clientIP).1 } := by
  unfold Tables.beginAdd
  split
  · exact h
  · split
    · exact h.setES rfl rfl
    · exact h

theorem Sound.suspend (h : Sound e) (sid : ℕ) :
    Sound { e with toTables := e.suspendSession sid } := by
  unfold Tables.suspendSession
  split
  · exact h
  · exact h.setES rfl rfl

theorem Sound.remove (h : Sound e) {sid : ℕ} (hq : ∀ p ∈ e.sessions.lookup sid, ¬ e.holding p) :
    Sound { e with toTables := e.removeSession sid } := by
  refine h.setTables (h.fresh.removeSession sid) (h.inverse.removeSession sid)
    (Tables.removeSession_next sid).ge fun l p pkt hl hpass => ?_
  rw [Tables.removeSession_es] at hpass ⊢
  have hp := h.held l p pkt hl hpass
  unfold Tables.removeSession
  split
  · exact hp
  · rename_i q hl'
    change (e.sessions.erase sid).lookup (e.es p).sid = some p
    rw [GoMap.lookup_delete, if_neg]
    · exact hp
    · intro he
      rw [he] at hp
      exact hq p hp (h.holding hl hpass)

theorem Sound.finishAdd (h : Sound e) {sid : ℕ} {clientIP : String} {ice : IceServers} {ip : Addr}
    (hip : parseAddr clientIP = some ip) (hsid : e.sessions.lookup sid = none)
    (hfree : e.byIP.lookup ip = none) :
    Sound { e with toTables := e.finishAdd sid clientIP ice ip } := by
  refine h.setTables h.fresh.finishAdd (h.inverse.finishAdd h.fresh hip hsid hfree)
    (Nat.le_succ _) fun l p pkt hl hpass => ?_
  have hne : p ≠ e.next := (h.known l p (Or.inl ⟨pkt, hl⟩)).ne
  change passes (Function.update e.es e.next _ p) pkt = true at hpass
  rw [Function.update_of_ne hne] at hpass
  have hp := h.held l p pkt hl hpass
  change (e.sessions.insert sid e.next).lookup (Function.update e.es e.next _ p).sid = some p
  rw [Function.update_of_ne hne, GoMap.lookup_set, if_neg]
  · exact hp
  · intro he
    rw [he, hsid] at hp
    cases hp

/-- No loop holds a packet that passes when the tables are emptied. -/
theorem Sound.reset (h : Sound e) (hq : ∀ x ∈ e.sessions.entries, ¬ e.holding x.2) :
    Sound { e with toTables := e.reset } :=
  h.setTables (Tables.fresh_reset _) (Tables.inverse_reset _) le_rfl fun _ _ _ hl hpass =>
    absurd (h.holding hl hpass) (hq _ (GoMap.mem_entries.mpr (h.held _ _ _ hl hpass)))

/-! ### Every step -/

theorem Sound.setControl (h : Sound e) (k : ℕ) {pc : ControlPC}
    (hpc : ∀ sid clientIP ice ip, pc = .adding sid clientIP ice ip → parseAddr clientIP = some ip) :
    Sound (e.setControl k pc) := by
  refine ⟨h.fresh, h.inverse, h.held, h.known, h.relays, h.own, fun j sid clientIP ice ip hj => ?_⟩
  change Function.update e.control k pc j = _ at hj
  by_cases hjk : j = k
  · rw [hjk, Function.update_self] at hj
    exact hpc sid clientIP ice ip hj
  · rw [Function.update_of_ne hjk] at hj
    exact h.parsed j sid clientIP ice ip hj

theorem beginAdd_parse {t t' : Tables} {sid : ℕ} {clientIP : String} {ip : Addr}
    (h : t.beginAdd sid clientIP = (t', some ip)) : parseAddr clientIP = some ip := by
  unfold Tables.beginAdd at h
  cases hp : parseAddr clientIP with
  | none => simp [hp] at h
  | some x =>
    simp only [hp] at h
    split at h
    · cases h
    · cases h
      rfl

theorem Sound.controlMsg (h : Sound e) {k : ℕ} {m : Control} (hC : Orderly e (.ctrl k m)) :
    Sound (controlMsg e k m) := by
  cases m with
  | sessionStart sid clientIP mask mtu ice =>
    have hb := h.beginAdd sid clientIP
    simp only [Exit.controlMsg]
    cases hadd : e.beginAdd sid clientIP with
    | mk t ip =>
      rw [hadd] at hb
      cases ip with
      | none => exact hb
      | some ip =>
        refine hb.setControl _ ?_
        rintro sid' clientIP' ice' ip' ⟨⟩
        exact beginAdd_parse hadd
  | sessionSuspend sid => exact h.suspend sid
  | sessionEnd sid => exact h.remove (hC sid rfl)
  | _ => exact h

theorem Sound.serve (h : Sound e) (hC : Orderly e .serve) : Sound (serve e) := by
  have hr := h.reset hC
  have hs : Sound (State.setControl _ e.conns .read) := hr.setControl e.conns (by simp)
  refine ⟨hs.fresh, hs.inverse, ?_, ?_, ?_, ?_, hs.parsed⟩
  · intro l p pkt hl
    change Function.update e.inbound (.relay e.conns) .recv l = _ at hl
    by_cases hll : l = .relay e.conns
    · rw [hll, Function.update_self] at hl
      cases hl
    · rw [Function.update_of_ne hll] at hl
      exact hr.held l p pkt hl
  · intro l p hp
    change (∃ pkt, Function.update e.inbound (.relay e.conns) .recv l = _) ∨
      _ ∧ Function.update e.inbound (.relay e.conns) .recv l ≠ _ at hp
    by_cases hll : l = .relay e.conns
    · simp [hll] at hp
    · rw [Function.update_of_ne hll] at hp
      exact hr.known l p hp
  · intro k hk
    change Function.update e.inbound (.relay e.conns) .recv (.relay k) ≠ _ at hk
    change k < e.conns + 1
    by_cases hkc : k = e.conns
    · omega
    · rw [Function.update_of_ne (by simpa using hkc)] at hk
      exact Nat.lt_succ_of_lt (h.relays k hk)
  · intro p q pkt hq
    change Function.update e.inbound (.relay e.conns) .recv (.direct p) = _ at hq
    rw [Function.update_of_ne (by simp)] at hq
    exact h.own p q pkt hq

theorem Sound.insertSession (h : Sound e) {k sid : ℕ} {clientIP : String} {ice : IceServers}
    {ip : Addr} (hk : e.control k = .adding sid clientIP ice ip) (hC : Orderly e (.insert k)) :
    Sound (insertSession cfg e k sid clientIP ice ip) := by
  obtain ⟨hsid, hfree⟩ := hC (sid, ip) (by rw [hk]; rfl)
  have ha : Sound { e with toTables := e.finishAdd sid clientIP ice ip } :=
    h.finishAdd (h.parsed _ _ _ _ _ hk) hsid hfree
  have hf : Sound (State.setControl _ k .read) := ha.setControl k (by simp)
  unfold Exit.insertSession
  split
  · refine hf.setInbound (by simp) ?_ (by simp) (by simp)
    rintro p (⟨pkt, hp⟩ | hp)
    · cases hp
    · obtain rfl := Loop.direct.inj hp
      exact Nat.lt_succ_self e.next
  · exact hf

theorem Sound.step (h : Sound e) (hs : step cfg e a = some (e', o)) (hC : Orderly e a) :
    Sound e' := by
  cases stepped_of_step hs with
  | serve => exact h.serve hC
  | lost =>
    have := h.reset hC
    exact ⟨this.fresh, this.inverse, this.held, this.known, this.relays, this.own, this.parsed⟩
  | ctrl => exact h.controlMsg hC
  | insert hk => exact h.insertSession hk hC
  | ctrlDone => exact h.setControl _ (by simp)
  | unknown => exact h
  | @datagram k sid dg pkt p hk _ hp =>
    refine h.setInbound ?_ ?_ ?_ (by simp)
    · rintro q pkt' ⟨⟩ -
      rw [h.fresh.own sid p hp]
      exact hp
    · rintro q (⟨pkt', ⟨⟩⟩ | hq)
      · exact h.fresh.below sid p hp
      · cases hq
    · rintro k' ⟨⟩
      exact h.relays k (by simp [hk])
  | @negotiated p ok hp => exact h.release (by cases ok <;> simp) (by simp [hp])
  | @direct p pkt hl =>
    have hlt := h.known (.direct p) p (Or.inr ⟨rfl, by simp [hl]⟩)
    refine h.setInbound ?_ ?_ (by simp) ?_
    · rintro q pkt' ⟨⟩
      exact hC
    · rintro q (⟨pkt', ⟨⟩⟩ | hq)
      · exact hlt
      · obtain rfl := Loop.direct.inj hq
        exact hlt
    · rintro _ _ _ ⟨⟩ ⟨⟩
      rfl
  | recvDone hl | refuse hl => exact h.release (by simp) (by simp [hl])
  | @write l p pkt hl _ =>
    have hrel : Sound (e.setInbound l .recv) := h.release (by simp) (by simp [hl])
    exact hrel.setES (p := p) rfl rfl
  | noRoute => exact h
  | reply => exact h

theorem Sound.init : Sound {} := by
  refine ⟨⟨?_, ?_⟩, ⟨?_, ?_⟩, ?_, ?_, ?_, ?_, ?_⟩
  · intro sid p h; cases h
  · intro sid p h; cases h
  · intro sid p h; cases h
  · intro ip sid h; cases h
  · intro l p pkt h; cases h
  · rintro l p (⟨pkt, ⟨⟩⟩ | ⟨-, h⟩)
    exact absurd rfl h
  · exact fun k h => absurd rfl h
  · intro p q pkt h; cases h
  · intro k sid clientIP ice ip h; cases h

theorem Sound.of_run (h : (machine cfg).Run tr e) (hC : ∀ ev ∈ tr, Orderly ev.pre ev.act) :
    Sound e := by
  refine Machine.Run.invariant_of (I := Sound) (C := fun ev => Orderly ev.pre ev.act)
    Sound.init ?_ h hC
  intro s a s' o hsound hs hord
  exact hsound.step hs hord

/-! ### Sessions that are gone -/

/-- Session `p` was there and has left the tables. -/
def State.Gone (e : State) (p : Ptr) : Prop :=
  p < e.next ∧ ∀ sid, e.sessions.lookup sid ≠ some p

/-- A pointer that has left the tables does not come back. -/
theorem gone_of_step {p : Ptr} (h : e.Gone p) (hs : step cfg e a = some (e', o)) : e'.Gone p := by
  have ht := touch_of_step hs
  by_cases ha : ∃ k, a = .insert k
  · obtain ⟨k, rfl⟩ := ha
    cases stepped_of_step hs
    refine ⟨Nat.lt_succ_of_lt h.1, fun sid he => ?_⟩
    change (e.sessions.insert _ e.next).lookup sid = some p at he
    rw [GoMap.lookup_set] at he
    split_ifs at he
    · exact h.1.ne (Option.some.inj he).symm
    · exact h.2 sid he
  · have ha : ∀ k, a ≠ .insert k := fun k hk => ha ⟨k, hk⟩
    exact ⟨by rw [ht.next_eq ha]; exact h.1, fun sid he => h.2 sid (ht.lookup_of ha he)⟩

theorem gone_of_ends (hf : e.Fresh) {p : Ptr} (hp : Ends ⟨e, a, o, e'⟩ p)
    (hs : step cfg e a = some (e', o)) : e'.Gone p := by
  obtain ⟨k, sid, rfl, hl⟩ := hp
  have hnext : e'.next = e.next := (touch_of_step hs).next_eq (by simp)
  cases stepped_of_step hs
  refine ⟨by rw [hnext]; exact hf.below sid p hl, fun i hi => ?_⟩
  obtain ⟨hi, hne⟩ := Tables.removeSession_sub hi
  exact hne (hf.inj hi hl)

/-- A session that has ended in the run is gone. -/
theorem gone_of_run (h : (machine cfg).Run tr e) (hC : ∀ ev ∈ tr, Orderly ev.pre ev.act) {p : Ptr}
    {ev : Event State Action Out} (hev : ev ∈ tr) (hp : Ends ev p) : e.Gone p := by
  induction h with
  | nil => cases hev
  | @snoc tr s s' a o hr hs ih =>
    have hC' : ∀ ev ∈ tr, Orderly ev.pre ev.act := fun ev he => hC ev (List.mem_append_left _ he)
    rcases List.mem_append.mp hev with he | he
    · exact gone_of_step (ih hC' he) hs
    · obtain rfl := List.mem_singleton.mp he
      exact gone_of_ends (Sound.of_run hr hC').fresh hp hs

/-! ### Packets on the TUN -/

/-- A packet on the TUN comes from a loop that had it in hand, and passes the
source check. -/
theorem tun_of_step {p : Ptr} {pkt : List UInt8} (hs : step cfg e a = some (e', o))
    (ho : Out.tun p pkt ∈ o) : ∃ l, e.inbound l = .hold p pkt ∧ passes (e.es p) pkt = true := by
  cases stepped_of_step hs with
  | @write l q pkt' hl hpass =>
    obtain ⟨rfl, rfl⟩ := by simpa using ho
    exact ⟨l, hl, hpass⟩
  | reply => simp at ho
  | _ => cases ho

/-- A packet that passes the source check names the session's address. -/
theorem src_of_passes {s : ExitSession} {pkt : List UInt8} {ip : Addr} (h : passes s pkt = true)
    (hip : parseAddr s.clientIP = some ip) : ipv4Src pkt = some ip := by
  unfold passes at h
  cases hsrc : ipv4Src pkt with
  | none => simp [hsrc] at h
  | some src =>
    rw [hsrc] at h
    simp only [decide_eq_true_eq] at h
    unfold ipv4Src ipv4Addr at hsrc
    split at hsrc
    · cases hsrc
    · obtain rfl := Option.some.inj hsrc
      rw [← h] at hip
      exact (parseAddr_string_v4 _).symm.trans hip

/-- The source check passes the packets that carry the session's address:
the text of an IPv4 address determines it. -/
theorem passes_iff_src {s : ExitSession} {pkt : List UInt8} {x : BitVec 32}
    (h : s.clientIP = Addr.string (.v4 x)) :
    passes s pkt = true ↔ ipv4Src pkt = some (.v4 x) := by
  constructor
  · intro hp
    exact src_of_passes hp (by rw [h]; exact parseAddr_string_v4 x)
  · intro hsrc
    simp [passes, hsrc, h]

/-- **No packet of a session that has ended reaches the TUN, and every packet
there comes from the session its source address belongs to, in every orderly
run.** -/
theorem ended_session_injects_nothing (h : (machine cfg).Run tr e)
    (hC : ∀ ev ∈ tr, Orderly ev.pre ev.act) :
    EndedSilent tr ∧ ∀ ev ∈ tr, Attributed ev := by
  refine ⟨?_, ?_⟩
  · intro tr₁ ev₁ tr₂ ev₂ tr₃ p pkt htr hend ho
    obtain ⟨hr, hs⟩ := h.at_event htr
    have hC' : ∀ ev ∈ tr₁ ++ ev₁ :: tr₂, Orderly ev.pre ev.act := fun ev he =>
      hC ev (htr ▸ List.mem_append_left _ he)
    obtain ⟨l, hl, hpass⟩ := tun_of_step hs ho
    exact (gone_of_run hr hC' (by simp) hend).2 _ ((Sound.of_run hr hC').held l p pkt hl hpass)
  · intro ev hev p pkt ho
    obtain ⟨tr₁, tr₂, rfl, hr, hs⟩ := h.of_mem hev
    have hsound := Sound.of_run hr fun ev' he' => hC ev' (List.mem_append_left _ he')
    obtain ⟨l, hl, hpass⟩ := tun_of_step hs ho
    have hp := hsound.held l p pkt hl hpass
    obtain ⟨ip, hip, hby⟩ := hsound.inverse.routed _ p hp
    exact ⟨ip, _, src_of_passes hpass hip, hby, hp⟩

/-! ### Two runs -/

/-- An IPv4 packet from `10.99.0.2`. -/
def packet : List UInt8 := 0x45 :: (List.replicate 11 0 ++ [10, 99, 0, 2] ++ List.replicate 4 0)

/-- A client with a direct connection, up to its `MsgSessionEnd`, and another
that gets its address. -/
def reuse : List Action :=
  [.serve, .ctrl 0 (.sessionStart 1 "10.99.0.2" "255.255.255.0" 1200 {}), .insert 0,
    .negotiated 0 true, .direct 0 packet, .write (.direct 0), .ctrl 0 (.sessionEnd 1),
    .ctrl 0 (.sessionStart 2 "10.99.0.2" "255.255.255.0" 1200 {}), .insert 0]

/-- The first client sends on, under an address that is not its own, and the
second over the relay. -/
theorem ended_session_injects_nothing_reuse : ∃ tr e, (machine {}).Run tr e ∧
    (∃ ev ∈ tr, Out.tun 0 packet ∈ ev.out) ∧ (∃ ev ∈ tr, Out.tun 1 packet ∈ ev.out) ∧
    EndedSilent tr ∧ ∀ ev ∈ tr, Attributed ev := by
  obtain ⟨tr, e, hr, h0, h1, hC⟩ := (machine {}).exists_run
    (reuse ++ [.direct 0 (0x45 :: List.replicate 19 0), .write (.direct 0),
      .datagram 0 (encodeDatagram 2 packet), .write (.relay 0)])
    (P := fun r => (∃ ev ∈ r.1, Out.tun 0 packet ∈ ev.out) ∧
      (∃ ev ∈ r.1, Out.tun 1 packet ∈ ev.out) ∧ ∀ ev ∈ r.1, Orderly ev.pre ev.act)
    (by decide +kernel)
  exact ⟨tr, e, hr, h0, h1, ended_session_injects_nothing hr hC⟩

/-- The first client keeps its direct connection and sends on: its packet is
written under an address that is another session's by now. -/
theorem ended_session_injects : ∃ tr e, (machine {}).Run tr e ∧
    ¬ EndedSilent tr ∧ ∃ ev ∈ tr, ¬ Attributed ev := by
  obtain ⟨tr, e, hr, ⟨ev, hev, hact, hl⟩, ⟨e', o⟩, hs, ho, hby, hsess⟩ :=
    (machine {}).exists_run (reuse ++ [.direct 0 packet])
    (P := fun r => (∃ ev ∈ r.1, ev.act = .ctrl 0 (.sessionEnd 1) ∧
        ev.pre.sessions.lookup 1 = some 0) ∧
      ∃ x ∈ step {} r.2 (.write (.direct 0)), Out.tun 0 packet ∈ x.2 ∧
        r.2.byIP.lookup (.v4 0x0a630002#32) = some 2 ∧ r.2.sessions.lookup 2 = some 1)
    (by decide +kernel)
  have hstep : (machine {}).step e (.write (.direct 0)) = some (e', o) := hs
  obtain ⟨tr₁, tr₂, rfl⟩ := List.append_of_mem hev
  refine ⟨_, e', hr.snoc hstep, ?_, _, List.mem_append_right _ (List.mem_singleton_self _), ?_⟩
  · exact fun hsilent => hsilent tr₁ ev tr₂ _ [] 0 packet rfl ⟨0, 1, hact, hl⟩ ho
  · intro hatt
    obtain ⟨x, sid, hx, hxs, hsp⟩ := hatt 0 packet ho
    have hsrc : ipv4Src packet = some (.v4 0x0a630002#32) := by decide
    rw [hsrc] at hx
    obtain rfl := Option.some.inj hx
    change e.byIP.lookup _ = _ at hxs
    change e.sessions.lookup sid = _ at hsp
    rw [show e.byIP.lookup (.v4 0x0a630002#32) = some 2 from hby] at hxs
    obtain rfl := Option.some.inj hxs
    rw [show e.sessions.lookup 2 = some 1 from hsess] at hsp
    cases hsp

end
end Exit
end Revquic
