/-
# A session's byte totals

A session's totals have two sources: the broker meters what it relays
(`AddBytes`), the endpoints report what they have sent or received, over
whatever path (`Report`). The total of a direction is meant to be the larger
of the two. One counter holds both: `Report` raises it to the reported total,
and `AddBytes` adds to whatever is there, modulo `2 ^ 64`. So the totals are
as meant exactly as long as every datagram finds that nothing larger has been
reported than was relayed, and the sum does not wrap.

Key definitions: `relayedSum`, `reportedMax`, `Combined`, `Clear`.
Key theorem: `totals_iff`.
-/
import Revquic.Qos.Load

namespace Revquic
namespace Qos

open Lib

/-- The total of a direction; `up` is from the client. -/
def SessionState.total (ss : SessionState) (up : Bool) : ℕ := if up then ss.bytesUp else ss.bytesDown

/-- The total a report gives. -/
def Report.total (r : Report) (up : Bool) : ℕ := if up then r.bytesUp else r.bytesDown

/-- What a call relays of session `k` in a direction. -/
def Call.relays (k : String) (up : Bool) : Call → ℕ
  | .addBytes sessionID fromClient n => if sessionID = k ∧ fromClient = up then n else 0
  | _ => 0

/-- What a call reports of session `k` in a direction. -/
def Call.reports (k : String) (up : Bool) : Call → ℕ
  | .report sessionID r => if sessionID = k then r.total up else 0
  | _ => 0

namespace Tracker

variable {t t' : Tracker} {k : String} {ss : SessionState} {ts : ℕ} {up : Bool}

/-! ### One call -/

/-- A sample leaves the totals alone. -/
theorem sampleSession_total (ss : SessionState) (bps : ℚ) (ts : ℕ) (up : Bool) :
    (t.sampleSession ss bps ts).1.total up = ss.total up := by
  simp only [sampleSession]
  split_ifs <;> rfl

theorem metered_total (ss : SessionState) (fromClient : Bool) (n ts : ℕ) (up : Bool) :
    (t.metered ss fromClient n ts).1.total up =
      if fromClient = up then add64 (ss.total up) n else ss.total up := by
  have hrel : (ss.relayed fromClient n ts).total up =
      if fromClient = up then add64 (ss.total up) n else ss.total up := by
    cases fromClient <;> cases up <;> rfl
  rw [← hrel]
  unfold metered
  split
  · exact sampleSession_total (ss.relayed fromClient n ts) _ ts up
  · rfl

theorem reported_total (ss : SessionState) (r : Report) (ts : ℕ) (up : Bool) :
    (t.reported ss r ts).1.total up = max (ss.total up) (r.total up) := by
  have hmax : ∀ a b : ℕ, (if a < b then b else a) = max a b := by
    intro a b
    split_ifs <;> omega
  have hnoted : (ss.noted r ts).total up = max (ss.total up) (r.total up) := by
    cases up
    · exact hmax ss.bytesDown r.bytesDown
    · exact hmax ss.bytesUp r.bytesUp
  rw [← hnoted]
  unfold reported
  split_ifs
  · exact sampleSession_total (ss.noted r ts) _ ts up
  · rfl

/-- A call neither makes nor ends session `k`. -/
def Keeps (k : String) : Call → Prop
  | .connect sessionID _ _ _ _ | .disconnect sessionID => sessionID ≠ k
  | _ => True

instance (k : String) : DecidablePred (Keeps k)
  | .connect _ _ _ _ _ | .disconnect _ => inferInstanceAs (Decidable (_ ≠ _))
  | .nodeUp _ _ _ | .nodeDown _ | .addBytes _ _ _ | .report _ _ => isTrue trivial

/-- No call both relays and reports. -/
theorem relays_or_reports (k : String) (up : Bool) (c : Call) :
    c.relays k up = 0 ∨ c.reports k up = 0 := by
  cases c with
  | addBytes sessionID fromClient n => exact Or.inr rfl
  | _ => exact Or.inl rfl

/-- What a call does to a total: it adds what was relayed, modulo `2 ^ 64`,
and raises it to what was reported. -/
theorem call_total {c : Call} (hc : Keeps k c) (hk : t.sessions.lookup k = some ss)
    (hlt : ∀ up, ss.total up < 2 ^ 64) (ts : ℕ) :
    ∃ ss', (t.call ts c).sessions.lookup k = some ss' ∧ ∀ up,
      ss'.total up = max (add64 (ss.total up) (c.relays k up)) (c.reports k up) := by
  have hzero : ∀ up, add64 (ss.total up) 0 = ss.total up := fun up => Nat.mod_eq_of_lt (hlt up)
  by_cases hsess : c.session = some k
  · cases c with
    | nodeUp nodeID region connectedAt => cases hsess
    | nodeDown nodeID => cases hsess
    | connect sessionID nodeID region username startedAt | disconnect sessionID =>
      exact absurd (Option.some.inj hsess) hc
    | addBytes sessionID fromClient n =>
      obtain rfl := Option.some.inj hsess
      have hlook : (t.addBytes sessionID fromClient n ts).sessions.lookup sessionID =
          some (t.metered ss fromClient n ts).1 := by
        rw [(addBytes_put hk fromClient n ts).1]
        exact AList.lookup_insert _
      refine ⟨_, hlook, fun up => ?_⟩
      show _ = max (add64 (ss.total up) (if sessionID = sessionID ∧ fromClient = up then n else 0)) 0
      rw [metered_total, Nat.max_zero]
      by_cases hup : fromClient = up
      · rw [if_pos hup, if_pos ⟨rfl, hup⟩]
      · rw [if_neg hup, if_neg (fun h => hup h.2), hzero]
    | report sessionID r =>
      obtain rfl := Option.some.inj hsess
      have hlook : (t.report sessionID r ts).sessions.lookup sessionID = some (t.reported ss r ts).1 := by
        rw [report_eq_put hk, putSession_sessions]
        exact AList.lookup_insert _
      refine ⟨_, hlook, fun up => ?_⟩
      show _ = max (add64 (ss.total up) 0) (if sessionID = sessionID then r.total up else 0)
      rw [reported_total, if_pos rfl, hzero]
  · refine ⟨ss, (lookup_call_of_ne hsess).trans hk, fun up => ?_⟩
    have hno : c.relays k up = 0 ∧ c.reports k up = 0 := by
      cases c with
      | addBytes sessionID fromClient n =>
        exact ⟨if_neg fun h => hsess (by rw [← h.1]; rfl), rfl⟩
      | report sessionID r => exact ⟨rfl, if_neg fun h => hsess (by rw [← h]; rfl)⟩
      | _ => exact ⟨rfl, rfl⟩
    rw [hno.1, hno.2, hzero, Nat.max_zero]

/-! ### Since the session was connected -/

section
variable {histCap : ℤ} {tr tr₁ tr₂ : List (Lib.Event Tracker (ℕ × Call) Unit)}
  {e₀ e : Lib.Event Tracker (ℕ × Call) Unit}

/-- The sum of what was relayed. -/
def relayedSum (k : String) (up : Bool) (tr : List (Lib.Event Tracker (ℕ × Call) Unit)) : ℕ :=
  (tr.map fun e => e.act.2.relays k up).sum

/-- The largest total that was reported. -/
def reportedMax (k : String) (up : Bool) (tr : List (Lib.Event Tracker (ℕ × Call) Unit)) : ℕ :=
  (tr.map fun e => e.act.2.reports k up).foldl max 0

theorem relayedSum_concat : relayedSum k up (tr ++ [e]) = relayedSum k up tr + e.act.2.relays k up := by
  simp [relayedSum]

theorem reportedMax_concat :
    reportedMax k up (tr ++ [e]) = max (reportedMax k up tr) (e.act.2.reports k up) := by
  simp [reportedMax]

/-- The total after a step is the larger of the two sources. -/
def Combined (k : String) (up : Bool) (tr : List (Lib.Event Tracker (ℕ × Call) Unit))
    (e : Lib.Event Tracker (ℕ × Call) Unit) : Prop :=
  ∃ ss, e.post.sessions.lookup k = some ss ∧
    ss.total up = max (relayedSum k up (tr ++ [e])) (reportedMax k up (tr ++ [e]))

/-- A datagram finds that nothing larger was reported than relayed, and does
not make the sum wrap. -/
def Clear (k : String) (up : Bool) (tr : List (Lib.Event Tracker (ℕ × Call) Unit))
    (e : Lib.Event Tracker (ℕ × Call) Unit) : Prop :=
  e.act.2.relays k up = 0 ∨ (reportedMax k up tr ≤ relayedSum k up tr ∧
    relayedSum k up tr + e.act.2.relays k up < 2 ^ 64)

/-- One datagram or report, on a total that is as meant. -/
theorem combine_iff {S R n rep : ℕ} (hlt : max S R < 2 ^ 64) (hone : n = 0 ∨ rep = 0) :
    max (add64 (max S R) n) rep = max (S + n) (max R rep) ↔
      n = 0 ∨ (R ≤ S ∧ S + n < 2 ^ 64) := by
  unfold add64
  rcases hone with rfl | rfl
  · rw [Nat.add_zero, Nat.mod_eq_of_lt hlt]
    omega
  · omega

theorem totals_of_run (h : (machine histCap).Run (tr₁ ++ [e₀] ++ tr₂) t)
    (hconn : e₀.act.2.connects = some k) (hkeep : ∀ e ∈ tr₂, Keeps k e.act.2)
    (hrep : ∀ e ∈ tr₂, ∀ up, e.act.2.reports k up < 2 ^ 64) :
    (∃ ss, t.sessions.lookup k = some ss ∧ (∀ up, ss.total up < 2 ^ 64) ∧
      ∀ up, (∀ x e y, tr₂ = x ++ e :: y → Clear k up x e) →
        ss.total up = max (relayedSum k up tr₂) (reportedMax k up tr₂)) ∧
    ∀ up, (∀ x e y, tr₂ = x ++ e :: y → Combined k up x e) ↔
      ∀ x e y, tr₂ = x ++ e :: y → Clear k up x e := by
  induction tr₂ using List.reverseRecOn generalizing t with
  | nil =>
    rw [List.append_nil] at h
    obtain ⟨-, hs, rfl⟩ := h.last
    obtain ⟨hpost, -⟩ := Prod.mk.inj (Option.some.inj hs)
    have hfresh : ∃ ss, e₀.post.sessions.lookup k = some ss ∧ ∀ up, ss.total up = 0 := by
      rw [← hpost]
      cases hc : e₀.act.2 with
      | connect sessionID nodeID region username startedAt =>
        rw [hc] at hconn
        obtain rfl := Option.some.inj hconn
        exact ⟨_, AList.lookup_insert _, fun up => by cases up <;> rfl⟩
      | _ => rw [hc] at hconn; cases hconn
    obtain ⟨ss, hss, htotal⟩ := hfresh
    refine ⟨⟨ss, hss, fun up => by rw [htotal]; norm_num, fun up _ => by rw [htotal]; rfl⟩, fun up => ?_⟩
    exact iff_of_true (fun x e y heq => by simp at heq) fun x e y heq => by simp at heq
  | append_singleton tr e ih =>
    rw [← List.append_assoc] at h
    obtain ⟨hr, hs, rfl⟩ := h.last
    obtain ⟨hpost, -⟩ := Prod.mk.inj (Option.some.inj hs)
    have hmem : ∀ {x}, x ∈ tr → x ∈ tr ++ [e] := List.mem_append_left _
    have hlast : e ∈ tr ++ [e] := by simp
    obtain ⟨⟨ss, hss, hlt, hval⟩, hiff⟩ :=
      ih hr (fun x hx => hkeep x (hmem hx)) fun x hx => hrep x (hmem hx)
    obtain ⟨ss', hss', htotal⟩ := call_total (hkeep e hlast) hss hlt e.act.1
    rw [hpost] at hss'
    have hlt' : ∀ up, ss'.total up < 2 ^ 64 := by
      intro up
      rw [htotal]
      exact max_lt (Nat.mod_lt _ (by norm_num)) (hrep e hlast up)
    -- given that the total was as meant, it is so again exactly if the step is clear
    have hstep : ∀ up, (∀ x e y, tr = x ++ e :: y → Clear k up x e) →
        (ss'.total up = max (relayedSum k up (tr ++ [e])) (reportedMax k up (tr ++ [e])) ↔
          Clear k up tr e) := by
      intro up hclear
      have hprev := hval up hclear
      rw [htotal, hprev, relayedSum_concat, reportedMax_concat]
      exact combine_iff (hprev ▸ hlt up) (relays_or_reports k up e.act.2)
    refine ⟨⟨ss', hss', hlt', fun up hall => ?_⟩, fun up => ?_⟩
    · obtain ⟨hbefore, hnow⟩ := forall_split_concat.mp hall
      exact (hstep up hbefore).mpr hnow
    · rw [forall_split_concat, forall_split_concat, hiff up]
      refine and_congr_right fun hbefore => ?_
      rw [← hstep up hbefore]
      constructor
      · rintro ⟨x, hx, hv⟩
        obtain rfl := Option.some.inj (hss'.symm.trans hx)
        exact hv
      · exact fun hv => ⟨ss', hss', hv⟩

/-- **A session's totals.** From its `Connect` on, and whatever else the
tracker is told, the total of a direction is in every state the larger of
what was relayed and what was reported, exactly if every datagram is relayed
when nothing larger has been reported than was relayed, and the sum stays
below `2 ^ 64`. It never decreases exactly if no datagram makes the counter
wrap. -/
theorem totals_iff (h : (machine histCap).Run (tr₁ ++ [e₀] ++ tr₂) t)
    (hconn : e₀.act.2.connects = some k) (hkeep : ∀ e ∈ tr₂, Keeps k e.act.2)
    (hrep : ∀ e ∈ tr₂, ∀ up, e.act.2.reports k up < 2 ^ 64) (up : Bool) :
    ((∀ x e y, tr₂ = x ++ e :: y → Combined k up x e) ↔
      ∀ x e y, tr₂ = x ++ e :: y → Clear k up x e) ∧
    ((∀ e ∈ tr₂, ∀ ss ss', e.pre.sessions.lookup k = some ss →
        e.post.sessions.lookup k = some ss' → ss.total up ≤ ss'.total up) ↔
      ∀ e ∈ tr₂, ∀ ss, e.pre.sessions.lookup k = some ss →
        ss.total up + e.act.2.relays k up % 2 ^ 64 < 2 ^ 64) := by
  refine ⟨(totals_of_run h hconn hkeep hrep).2 up, ?_⟩
  refine forall_congr' fun e => forall_congr' fun he => ?_
  obtain ⟨x, y, rfl⟩ := List.append_of_mem he
  have hpre : (machine histCap).Run (tr₁ ++ [e₀] ++ x) e.pre ∧
      (machine histCap).step e.pre e.act = some (e.post, e.out) :=
    h.at_event (List.append_assoc _ _ _).symm
  obtain ⟨hpost, -⟩ := Prod.mk.inj (Option.some.inj hpre.2)
  have hx : ∀ {d}, d ∈ x → d ∈ x ++ e :: y := List.mem_append_left _
  obtain ⟨⟨ss, hss, hlt, -⟩, -⟩ := totals_of_run hpre.1 hconn (fun d hd => hkeep d (hx hd))
    fun d hd => hrep d (hx hd)
  obtain ⟨ss', hss', htotal⟩ := call_total (hkeep e he) hss hlt e.act.1
  rw [hpost] at hss'
  have hstep : ss.total up ≤ ss'.total up ↔ ss.total up + e.act.2.relays k up % 2 ^ 64 < 2 ^ 64 := by
    have := hlt up
    rw [htotal, add64]
    rcases relays_or_reports k up e.act.2 with hn | hn
    · rw [hn]
      omega
    · rw [hn]
      omega
  constructor
  · intro hle s hs
    obtain rfl := Option.some.inj (hss.symm.trans hs)
    exact hstep.mp (hle ss ss' hss hss')
  · intro hno s s' hs hs'
    obtain rfl := Option.some.inj (hss.symm.trans hs)
    obtain rfl := Option.some.inj (hss'.symm.trans hs')
    exact hstep.mpr (hno ss hss)

/-- Two datagrams, then a report of what was sent on a direct path too. -/
theorem totals_iff_direct : ∃ tr₁ e₀ tr₂ t, (machine 0).Run (tr₁ ++ [e₀] ++ tr₂) t ∧
    (t.sessions.lookup "1").map (·.bytesUp) = some 500 ∧
    relayedSum "1" true tr₂ = 110 ∧ reportedMax "1" true tr₂ = 500 ∧
    ∀ x e y, tr₂ = x ++ e :: y → Combined "1" true x e := by
  obtain ⟨tr, t, hrun, hsplit, hup, hsum, hmax⟩ := (machine 0).exists_run
    [(1, .nodeUp "e1" "us" 1), (2, .connect "1" "e1" "us" "alice" 2), (3, .addBytes "1" true 100),
      (4, .addBytes "1" true 10), (5, .report "1" { bytesUp := 500 })]
    (P := fun r => (∃ a b c d e, r.1 = [a, b] ++ [c, d, e] ∧ b.act.2.connects = some "1" ∧
        (c.act.2 = .addBytes "1" true 100 ∧ d.act.2 = .addBytes "1" true 10 ∧
          e.act.2 = .report "1" { bytesUp := 500 })) ∧
      (r.2.sessions.lookup "1").map (·.bytesUp) = some 500 ∧
      relayedSum "1" true (r.1.drop 2) = 110 ∧ reportedMax "1" true (r.1.drop 2) = 500)
    ⟨_, rfl, ⟨_, _, _, _, _, rfl, rfl, rfl, rfl, rfl⟩, by decide +kernel, by decide +kernel,
      by decide +kernel⟩
  obtain ⟨a, b, c, d, e, rfl, hb, hc, hd, he⟩ := hsplit
  refine ⟨[a], b, [c, d, e], t, hrun, hup, hsum, hmax, ?_⟩
  have hcalls : ∀ x ∈ [c, d, e], Keeps "1" x.act.2 ∧ ∀ up, x.act.2.reports "1" up < 2 ^ 64 := by
    intro x hx
    simp only [List.mem_cons, List.not_mem_nil, or_false] at hx
    rcases hx with rfl | rfl | rfl
    · rw [hc]
      decide
    · rw [hd]
      decide
    · rw [he]
      decide
  have hrun' : (machine 0).Run ([a] ++ [b] ++ [c, d, e]) t := hrun
  refine (totals_iff hrun' hb (fun x hx => (hcalls x hx).1) (fun x hx => (hcalls x hx).2) true).1.mpr ?_
  rw [show [c, d, e] = [] ++ [c] ++ [d] ++ [e] from rfl, forall_split_concat, forall_split_concat,
    forall_split_concat]
  simp [Clear, relayedSum, reportedMax, hc, hd, he, Call.relays, Call.reports]

/-- A report of 100 bytes and then a datagram of 10: the total is 110, and
neither source has more than 100. After a report of `2 ^ 64 - 1` the datagram
takes the total to 9. -/
theorem totals_double_count :
    (∃ tr t, (machine 0).Run tr t ∧ (t.sessions.lookup "1").map (·.bytesUp) = some 110 ∧
      relayedSum "1" true (tr.drop 2) = 10 ∧ reportedMax "1" true (tr.drop 2) = 100) ∧
    ∃ tr t, (machine 0).Run tr t ∧ (t.sessions.lookup "1").map (·.bytesUp) = some 9 ∧
      reportedMax "1" true (tr.drop 2) = 2 ^ 64 - 1 :=
  ⟨(machine 0).exists_run_of_exec
    [(1, .nodeUp "e1" "us" 1), (2, .connect "1" "e1" "us" "alice" 2),
      (3, .report "1" { bytesUp := 100 }), (4, .addBytes "1" true 10)] (by decide +kernel),
  (machine 0).exists_run_of_exec
    [(1, .nodeUp "e1" "us" 1), (2, .connect "1" "e1" "us" "alice" 2),
      (3, .report "1" { bytesUp := 2 ^ 64 - 1 }), (4, .addBytes "1" true 10)] (by decide +kernel)⟩

end

end Tracker
end Qos
end Revquic
