/-
# One registration of a node id at a time

`b.exits` has one entry for a node id, and the admin feed names an exit by
its node id only. A registration is in use until its clean-up has returned
and no goroutine is left that has chosen it. When a node id is registered
again only after that, no two registrations of it are in use at once, and
`b.exits` has exactly the registrations that have not been cleaned up after.

Key definitions: `State.InUse`, `InTurn`, `Sole`.
Key theorem: `Sole.of_run`.
-/
import Revquic.Broker.Loss

namespace Revquic
namespace Broker

open Lib Proto

/-- The goroutine has an exit for its session and is not done with its
books. -/
def ClientPC.engaged : ClientPC → Bool
  | .idle | .auth | .lock | .reply | .ended | .parked | .done => false
  | _ => true

/-- The goroutine has torn its session down and has not announced it. -/
def ClientPC.leaving : ClientPC → Bool
  | .closed | .disconnect | .publishEnd => true
  | _ => false

theorem engaged_iff (pc : ClientPC) :
    pc.engaged = true ↔ pc.picks ∨ pc.phase = .holds ∨ pc.leaving = true := by
  unfold ClientPC.picks ClientPC.numbers
  cases pc <;> simp [ClientPC.engaged, ClientPC.phase, ClientPC.leaving]

theorem leaving_iff (pc : ClientPC) :
    pc.leaving = true ↔ pc.stage = .closing ∨ pc.stage = .ending := by
  cases pc <;> simp [ClientPC.leaving, ClientPC.stage]

/-- `handleExit` or a goroutine that has chosen the registration is still to
finish. -/
def State.InUse (b : State) (r : Conn) : Prop :=
  r ∈ b.regs ∧ ((b.exitT r).pc ≠ .done ∨
    ∃ c, (b.client c).pc.engaged = true ∧ (b.client c).ex = r)

/-- A node id is registered when no registration of it is in use. -/
def InTurn (cfg : Config) (b : State) : Action → Prop
  | .register _ msg => msg.token = cfg.nodeSecret →
    ∀ r, b.InUse r → (b.node r).nodeID ≠ msg.nodeID
  | _ => True

/-- The registration is in `b.exits`, if nobody else has taken its place. -/
def ExitPC.entered : ExitPC → Bool
  | .welcome | .nodeUp | .announce | .publishUp | .loop | .publishUpdate | .gone => true
  | _ => false

/-- One registration of a node id is in use, and `b.exits` has those that
have entered themselves and not been deleted. -/
structure Sole (b : State) : Prop where
  one : ∀ r r', b.InUse r → b.InUse r' → (b.node r).nodeID = (b.node r').nodeID → r = r'
  entry : ∀ n r, b.exits.lookup n = some r → (b.exitT r).pc.entered = true
  kept : ∀ r ∈ b.regs, (b.exitT r).pc.entered = true → b.exits.lookup (b.node r).nodeID = some r

section
variable {cfg : Config} {users : Userstore.Table} {b b' : State} {a : Action} {o : List Out}
  {tr : List (Event State Action Out)}

/-! ### Who has chosen an exit -/

/-- A goroutine that has chosen an exit chose it before, or finds it in
`b.exits`. -/
theorem Move.picks (hm : Move cfg b a b' o) (hreg : Reg b) {d : Conn}
    (hd : (b'.client d).pc.picks) :
    ((b.client d).pc.picks ∧ (b'.client d).ex = (b.client d).ex) ∨
      ∃ n, b.exits.lookup n = some (b'.client d).ex := by
  have hsame : b'.client d = b.client d → ((b.client d).pc.picks ∧
      (b'.client d).ex = (b.client d).ex) ∨ ∃ n, b.exits.lookup n = some (b'.client d).ex :=
    fun h => Or.inl ⟨by rwa [h] at hd, by rw [h]⟩
  -- goroutine `c` moves on to where it has not just chosen, or had before
  have hmove : ∀ {c : Conn} {t' : ClientThread}, b'.client = Function.update b.client c t' →
      (t'.pc.picks → (b.client c).pc.picks ∧ t'.ex = (b.client c).ex) →
      ((b.client d).pc.picks ∧ (b'.client d).ex = (b.client d).ex) ∨
        ∃ n, b.exits.lookup n = some (b'.client d).ex := by
    intro c t' client h
    by_cases hdc : d = c
    · have hnew : b'.client d = t' := by rw [client, hdc, Function.update_self]
      rw [hnew] at hd ⊢
      rw [hdc]
      exact Or.inl (h hd)
    · exact hsame (by rw [client, Function.update_of_ne hdc])
  cases hm with
  | env _ client => exact hsame (by rw [client])
  | connect c msg =>
    exact hmove rfl (by simp [ClientPC.picks, ClientPC.numbers, ClientPC.phase])
  | register c msg =>
    refine hsame ?_
    rw [handleExit_client]
  | walk c t' _ client _ _ hw => exact hmove client fun hp => absurd hp hw.not_picks
  | choose c i ex rr hpc hch =>
    by_cases hdc : d = c
    · subst hdc
      obtain ⟨⟨n, hn, -⟩, -⟩ := chooseExit_spec hreg hch
      exact Or.inr ⟨n, by simpa using hn⟩
    · exact hsame (Function.update_of_ne hdc _ _)
  | draw c i hpc => exact hmove rfl fun _ => ⟨Or.inl hpc, rfl⟩
  | alloc c i addr pool hpc =>
    exact hmove rfl fun _ => ⟨Or.inr (Or.inl (by rw [hpc]; rfl)), rfl⟩
  | insert c i hpc | resume c i p ex =>
    exact hmove rfl fun h => absurd h (not_picks_of_born (Or.inl rfl))
  | count c i hpc pc' hph => exact hmove rfl fun h => absurd h (not_picks_of_born (Or.inl hph))
  | park c i q | vanish c i => exact hmove rfl fun h => absurd h (not_picks_of_born (Or.inr rfl))
  | close c i q pc' hpc =>
    refine hmove rfl fun h => absurd h (not_picks_of_born (Or.inr ?_))
    rcases hpc with ⟨-, rfl⟩ | ⟨-, rfl⟩ <;> rfl
  | expire => exact hsame rfl

/-- A goroutine that leaves left before, or has just torn its session
down. -/
theorem Books.leaving (h : Books cfg b a b' o) {d : Conn} (hd : (b'.client d).pc.leaving = true) :
    ((b.client d).pc.leaving = true ∧ (b'.client d).s = (b.client d).s ∧
      (b'.client d).ex = (b.client d).ex) ∨
      (b.client d).pc = .dropped ∧ b' = closeState b d .closed := by
  rcases h.goroutine d with ⟨hst, hs⟩ | ⟨i, -, entry⟩
  · rw [leaving_iff, hst] at hd
    obtain ⟨h1, h2, -⟩ := hs (by rcases hd with h | h <;> rw [h] <;> decide)
    exact Or.inl ⟨(leaving_iff _).mpr hd, h1, h2⟩
  · cases entry with
    | close pc' hpc =>
      rcases hpc with ⟨hpc, rfl⟩ | ⟨-, rfl⟩
      · exact Or.inr ⟨hpc, rfl⟩
      · simp [ClientPC.leaving] at hd
    | disconnect hpc =>
      refine Or.inl ⟨by rw [hpc]; rfl, ?_⟩
      simp
    | count pc' hpc =>
      rcases hpc with ⟨-, rfl⟩ | ⟨-, rfl⟩ <;> simp [ClientPC.leaving] at hd
    | _ => simp [ClientPC.leaving] at hd

/-- A goroutine keeps the exit of the session it runs. -/
theorem ex_of_kept (hinv : Inv b) (hinv' : Inv b') (hm : Move cfg b a b' o) {c : Conn}
    (hc : (b.client c).pc.phase = .holds) (hc' : (b'.client c).pc.phase = .holds)
    (hs : (b'.client c).s = (b.client c).s) : (b'.client c).ex = (b.client c).ex := by
  have hlisted := (hinv.rep.held c hc).1
  have hmade := hinv.rep.made _ (live_of_sessions hlisted)
  rw [hinv'.attach.held c hc', hs, hinv.attach.held c hc]
  refine exitConn_of_running hm hinv.rep hmade fun k hk => ?_
  exact hinv.rep.parked_not_held hk hc rfl

theorem engaged_of_step (hinv : Inv b) (hs : step cfg b a = some (b', o)) {c : Conn}
    (hc : (b'.client c).pc.engaged = true) :
    ((b.client c).pc.engaged = true ∧ (b'.client c).ex = (b.client c).ex) ∨
      ∃ n, b.exits.lookup n = some (b'.client c).ex := by
  have hm := step_move hs
  rcases (engaged_iff _).mp hc with hp | hp | hp
  · rcases hm.picks hinv.reg hp with ⟨h1, h2⟩ | h
    · exact Or.inl ⟨(engaged_iff _).mpr (Or.inl h1), h2⟩
    · exact Or.inr h
  · rcases (hm.holding hp).1 with ⟨hold, hsame⟩ | ⟨rfl, hpc⟩ | ⟨p, ex, i, -, rfl, -, -, -, hx⟩
    · exact Or.inl ⟨(engaged_iff _).mpr (Or.inr (Or.inl hold)),
        ex_of_kept hinv (hinv.step hs) hm hold hp hsame⟩
    · refine Or.inl ⟨by rw [hpc]; rfl, ?_⟩
      simp
    · refine Or.inr ⟨(b.sess p).nodeID, ?_⟩
      simpa using hx
  · rcases (books_of_step hs).leaving hp with ⟨h1, -, h2⟩ | ⟨hpc, rfl⟩
    · exact Or.inl ⟨(engaged_iff _).mpr (Or.inr (Or.inr h1)), h2⟩
    · refine Or.inl ⟨by rw [hpc]; rfl, ?_⟩
      simp

/-! ### The goroutine of a registration -/

/-- A `handleExit` that has returned stays so. -/
theorem RegMove.done (hm : RegMove cfg b a b' o) {r : Conn} (hr : (b.exitT r).pc = .done) :
    (b'.exitT r).pc = .done := by
  cases hm.exitView r with
  | stay same => rw [same]; exact hr
  | start msg _ unused => rw [unused.2] at hr; cases hr
  | walk hw => rw [hr] at hw; cases hw
  | up pc | delete pc | down pc | scan _ _ pc | close _ _ _ _ pc => rw [pc] at hr; cases hr

/-- A registration that has entered itself stays so until it deletes its
node id. -/
theorem RegMove.entered (hm : RegMove cfg b a b' o) {r : Conn}
    (hr : (b.exitT r).pc.entered = true) :
    (b'.exitT r).pc.entered = true ∨ b'.exits = b.exits.erase (b.node r).nodeID := by
  cases hm.exitView r with
  | stay same => exact Or.inl (by rw [same]; exact hr)
  | start msg _ unused => rw [unused.2] at hr; cases hr
  | walk hw =>
    refine Or.inl ?_
    revert hw hr
    cases (b.exitT r).pc <;> cases (b'.exitT r).pc <;> simp [ExitPC.walks, ExitPC.entered]
  | up _ pc' => exact Or.inl (by rw [pc']; rfl)
  | delete _ _ _ exits => exact Or.inr exits
  | down pc | scan _ _ pc | close _ _ _ _ pc => rw [pc] at hr; cases hr

/-! ### Every step in turn -/

theorem State.InUse.entered {r : Conn} (hr : r ∈ b.regs) (h : (b.exitT r).pc.entered = true) :
    b.InUse r := by
  refine ⟨hr, Or.inl fun hd => ?_⟩
  rw [hd] at h
  cases h

/-- A registration in use was so, or is new. -/
theorem Sole.inUse (h : Sole b) (hinv : Inv b) (hs : step cfg b a = some (b', o)) {r : Conn}
    (hr : b'.InUse r) :
    b.InUse r ∨ ∃ msg, a = .register r msg ∧ b.unused r ∧ msg.token = cfg.nodeSecret := by
  obtain ⟨hregs, huse⟩ := hr
  by_cases hmem : r ∈ b.regs
  · refine Or.inl ⟨hmem, ?_⟩
    rcases huse with hpc | ⟨c, hc, hex⟩
    · exact Or.inl fun hd => hpc ((step_regMove hs).done hd)
    · rcases engaged_of_step hinv hs hc with ⟨h1, h2⟩ | ⟨n, hn⟩
      · exact Or.inr ⟨c, h1, h2.symm.trans hex⟩
      · rw [hex] at hn
        refine Or.inl fun hd => ?_
        have := h.entry n r hn
        rw [hd] at this
        cases this
  · refine Or.inr ?_
    cases step_regMove hs with
    | same reg => exact absurd (reg.regs ▸ hregs) hmem
    | refuse c msg hu ht => exact absurd (by rwa [handleExit_refuse ht] at hregs) hmem
    | register c msg hu ht =>
      rw [(handleExit_register ht).1, List.mem_cons] at hregs
      obtain rfl := hregs.resolve_right hmem
      exact ⟨msg, rfl, hu, ht⟩
    | walk c t' _ _ _ regs => exact absurd (regs ▸ hregs) hmem
    | _ => exact absurd hregs hmem

theorem Sole.one_step (h : Sole b) (hinv : Inv b) (hs : step cfg b a = some (b', o))
    (hC : InTurn cfg b a) {r r' : Conn} (hr : b'.InUse r) (hr' : b'.InUse r')
    (hn : (b'.node r).nodeID = (b'.node r').nodeID) : r = r' := by
  have hkeep : ∀ {q}, b.InUse q → (b'.node q).nodeID = (b.node q).nodeID := by
    intro q hq
    rw [(hinv.reg.keep (step_regMove hs) hq.1).2]
  have hnew : ∀ {q msg}, a = .register q msg → b.unused q → msg.token = cfg.nodeSecret →
      (b'.node q).nodeID = msg.nodeID := by
    rintro q msg rfl hu ht
    have hs : step cfg b (.register q msg) = some (b', o) := hs
    simp only [step, if_pos hu, Option.some.injEq, Prod.mk.injEq] at hs
    rw [← hs.1]
    exact (handleExit_register ht).2.2.2.1
  rcases h.inUse hinv hs hr with hr | ⟨msg, ha, hu, ht⟩
  · rcases h.inUse hinv hs hr' with hr' | ⟨msg, ha, hu, ht⟩
    · rw [hkeep hr, hkeep hr'] at hn
      exact h.one r r' hr hr' hn
    · rw [hkeep hr, hnew ha hu ht] at hn
      subst ha
      exact absurd hn (hC ht r hr)
  · rcases h.inUse hinv hs hr' with hr' | ⟨msg', ha', -⟩
    · rw [hkeep hr', hnew ha hu ht] at hn
      subst ha
      exact absurd hn.symm (hC ht r' hr')
    · subst ha
      exact (Action.register.inj ha').1

theorem Sole.kept_step (h : Sole b) (hinv : Inv b) (hm : RegMove cfg b a b' o)
    (hC : InTurn cfg b a) {r : Conn} (hr : r ∈ b'.regs) (he : (b'.exitT r).pc.entered = true) :
    b'.exits.lookup (b'.node r).nodeID = some r := by
  -- while only goroutine `c` moves, the entry of `r` stays
  have hmove : ∀ {c : Conn} {t' : ExitThread}, b'.exits = b.exits → b'.regs = b.regs →
      b'.node = b.node → b'.exitT = Function.update b.exitT c t' →
      (t'.pc.entered = true → (b.exitT c).pc.entered = true) →
      b'.exits.lookup (b'.node r).nodeID = some r := by
    intro c t' hexits hregs hnode hT hc
    rw [hexits, hnode]
    refine h.kept r (hregs ▸ hr) ?_
    rw [hT] at he
    by_cases hrc : r = c
    · subst hrc
      rw [Function.update_self] at he
      exact hc he
    · rwa [Function.update_of_ne hrc] at he
  cases hm with
  | same reg =>
    rw [reg.exits, reg.info]
    exact h.kept r (reg.regs ▸ hr) (by rwa [reg.exitT] at he)
  | refuse c msg hu ht =>
    rw [handleExit_refuse ht] at hr he ⊢
    change (Function.update b.exitT c _ r).pc.entered = true at he
    by_cases hrc : r = c
    · rw [hrc, Function.update_self] at he
      cases he
    · rw [Function.update_of_ne hrc] at he
      exact h.kept r hr he
  | register c msg hu ht =>
    obtain ⟨hregs, hexits, -, hid, hnode⟩ := handleExit_register (b := b) (c := c) ht
    rw [hregs, List.mem_cons] at hr
    rw [hexits, GoMap.lookup_set]
    by_cases hrc : r = c
    · rw [hrc, hid, if_pos rfl]
    · have hr := hr.resolve_left hrc
      rw [handleExit_exitT_of_ne hrc] at he
      rw [hnode r hrc, if_neg (hC ht r (.entered hr he))]
      exact h.kept r hr he
  | walk c t' hw _ exits regs node exitT =>
    refine hmove exits regs node exitT fun hent => ?_
    revert hw hent
    cases (b.exitT c).pc <;> cases t'.pc <;> simp [ExitPC.walks, ExitPC.entered]
  | up c ok hpc => exact hmove rfl rfl rfl rfl fun _ => by rw [hpc]; rfl
  | delete c ok hpc =>
    have hrc : r ≠ c := by
      rintro rfl
      simp [ExitPC.entered] at he
    change (Function.update b.exitT c _ r).pc.entered = true at he
    rw [Function.update_of_ne hrc] at he
    rw [GoMap.lookup_delete, if_neg]
    · exact h.kept r hr he
    · intro hn
      have hc : b.InUse c := ⟨hinv.reg.known c (by rw [hpc]; rfl), Or.inl (by rw [hpc]; decide)⟩
      exact hrc (h.one r c (.entered hr he) hc hn)
  | down c ok hpc => exact hmove rfl rfl rfl rfl fun hent => by cases hent
  | scan c ok hpc | close c ok p rest hpc =>
    refine hmove rfl rfl rfl rfl fun hent => ?_
    dsimp only at hent
    split_ifs at hent <;> cases hent

theorem Sole.init (users : Userstore.Table) : Sole (newBroker users) := by
  refine ⟨fun r r' hr => ?_, fun n r hr => ?_, fun r hr => ?_⟩
  · cases hr.1
  · cases hr
  · cases hr

theorem Sole.step (h : Sole b) (hinv : Inv b) (hs : step cfg b a = some (b', o))
    (hC : InTurn cfg b a) : Sole b' := by
  have hm := step_regMove hs
  refine ⟨fun r r' => h.one_step hinv hs hC, fun n r hn => ?_, fun r => h.kept_step hinv hm hC⟩
  rcases hm.lookup hn with hn₀ | ⟨msg, rfl, ht, -⟩
  · rcases hm.entered (h.entry n r hn₀) with he | he
    · exact he
    · rw [he, (hinv.reg.exits n r hn₀).2, GoMap.lookup_delete, if_pos rfl] at hn
      cases hn
  · rw [(handleExit_register ht).2.2.1]
    rfl

theorem Sole.of_run (h : (machine cfg users).Run tr b) (hC : ∀ e ∈ tr, InTurn cfg e.pre e.act) :
    Sole b := by
  refine (Machine.Run.invariant_of (I := fun b => Inv b ∧ Sole b)
    (C := fun e => InTurn cfg e.pre e.act) ⟨Inv.init users, Sole.init users⟩ ?_ h hC).2
  rintro s a s' o ⟨hi, hsole⟩ hs hturn
  exact ⟨hi.step hs, hsole.step hi hs hturn⟩

end
end Broker
end Revquic
