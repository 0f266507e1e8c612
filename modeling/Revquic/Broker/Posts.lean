/-
# What the broker announces

Between `SessionStarted` and `SessionEnded` a session is announced on the
admin feed, by the goroutine that runs it; between `NodeConnected` and
`NodeDisconnected` an exit is. A step announces one of the things `Posted`
lists, if it neither parks a session nor lets one expire, and if an exit's
load is only published when it is what was read and each session it counts is
announced.

Key definitions: `State.shows`, `State.online`, `Steady`, `Posted`.
Key theorems: `active_eq_count`, `posted_of_step`.
-/
import Revquic.Broker.Load
import Revquic.Broker.Sole

namespace Revquic
namespace Broker

open Lib Proto

/-- `SessionStarted` has been published for the session of the goroutine, and
`SessionEnded` has not. -/
def ClientPC.shown : ClientPC → Bool
  | .relay | .dropped | .closed | .disconnect | .publishEnd => true
  | _ => false

/-- The goroutine is not between counting its session and announcing it, or
between giving it up and announcing that. -/
def ClientPC.settled : ClientPC → Bool
  | .counted | .start | .connectOK | .started | .startFailed | .ending | .closed | .disconnect
  | .publishEnd => false
  | _ => true

/-- The session the goroutine has announced, with its node id. -/
def State.shows (b : State) (c : Conn) : Option (ℕ × String) :=
  if (b.client c).pc.shown then
    some ((b.sess (b.client c).s).id, (b.sess (b.client c).s).nodeID)
  else none

/-- The node id of the registration, if it is announced. -/
def State.online (b : State) (r : Conn) : Option String :=
  if (b.exitT r).pc.announced then some (b.node r).nodeID else none

/-- The goroutines of the registration's sessions are settled. -/
def State.Settled (b : State) (r : Conn) : Prop :=
  ∀ c, (b.client c).ex = r → (b.client c).pc.settled = true

/-- The callback of timer `k` finds its session parked. -/
def State.expires (b : State) (k : ℕ) : Prop :=
  (b.timer k).pc = .fired ∧ ∃ p ∈ b.parked.lookup (b.timer k).resumeKey,
    (b.sess p).id = (b.timer k).sid

instance (b : State) (k : ℕ) : Decidable (b.expires k) := inferInstanceAs (Decidable (_ ∧ _))

/-- The step parks no session, lets none expire, and publishes the load of an
exit only if it is still what was read, and the exit settled. -/
def Steady (cfg : Config) (b : State) : Action → Prop
  | .client c _ => ¬ b.parks cfg c
  | .timer k _ => ¬ b.expires k
  | .exit r _ => (b.exitT r).pc = .publishUp ∨ (b.exitT r).pc = .publishUpdate →
      b.Settled r ∧ (b.exitT r).activeUsers = (b.node r).active
  | _ => True

/-- All that was done is announced. -/
structure State.Published (b : State) : Prop where
  client : ∀ c, (b.client c).pc.settled = true ∧ (b.client c).pc.uncounted = false
  exitT : ∀ r, (b.exitT r).pc.announced = (b.exitT r).pc.entered
  timer : ∀ k, (b.timer k).pc.stage = .out

/-- A goroutine that leaves has a session that is in neither map, and no
other leaves with the same. -/
structure Leavers (b : State) : Prop where
  dead : ∀ c, (b.client c).pc.leaving = true → b.Made (b.client c).s ∧ ¬ b.Live (b.client c).s ∧
    b.registers (b.client c).ex (b.sess (b.client c).s).nodeID
  inj : ∀ c d, (b.client c).pc.leaving = true → (b.client d).pc.leaving = true →
    (b.client c).s = (b.client d).s → c = d

/-- The map has the announced sessions. -/
def Lists (b : State) (m : GoMap ℕ String) : Prop :=
  ∀ i n, m.lookup i = some n ↔ ∃ c, b.shows c = some (i, n)

/-- What a step announces, and how the announced sessions and exits change. -/
inductive Posted (b b' : State) : List BusEvent → Prop
  | none (shows : b'.shows = b.shows) (online : b'.online = b.online) : Posted b b' []
  | started (c : Conn) (i : ℕ) (n : String) (new : ∀ d m, b.shows d ≠ some (i, m))
      (out : b.shows c = .none) (shows : b'.shows = Function.update b.shows c (some (i, n)))
      (online : b'.online = b.online) : Posted b b' [.sessionStarted i n]
  | ended (c : Conn) (i : ℕ) (n : String) (old : b.shows c = some (i, n))
      (one : ∀ d m, b.shows d = some (i, m) → d = c)
      (shows : b'.shows = Function.update b.shows c .none)
      (online : b'.online = b.online) : Posted b b' [.sessionEnded i n]
  | connected (r : Conn) (n : String) (k : ℤ) (out : b.online r = .none)
      (users : ∀ m, Lists b m → k = m.count fun _ n' => decide (n' = n))
      (shows : b'.shows = b.shows) (online : b'.online = Function.update b.online r (some n)) :
      Posted b b' [.nodeConnected n k]
  | updated (r : Conn) (n : String) (k : ℤ) (old : b.online r = some n)
      (users : ∀ m, Lists b m → k = m.count fun _ n' => decide (n' = n))
      (shows : b'.shows = b.shows) (online : b'.online = b.online) :
      Posted b b' [.nodeUpdated n k]
  | disconnected (r : Conn) (n : String) (one : ∀ q, b.online q = some n → q = r)
      (old : b.online r = some n) (shows : b'.shows = b.shows)
      (online : b'.online = Function.update b.online r .none) :
      Posted b b' [.nodeDisconnected n]

section
variable {cfg : Config} {users : Userstore.Table} {b b' : State} {a : Action} {o : List Out}
  {tr : List (Event State Action Out)}

theorem Silent.published (h : Silent o) : published o = [] := by
  rw [Broker.published, List.filterMap_eq_nil_iff]
  intro x hx
  cases x with
  | publish ev => exact absurd hx (h ev)
  | _ => rfl

theorem shown_iff (pc : ClientPC) : pc.shown = true ↔ pc.stage = .up ∨ pc.leaving = true := by
  cases pc <;> simp [ClientPC.shown, ClientPC.stage, ClientPC.leaving]

theorem shown_congr {pc pc' : ClientPC} (h : pc'.stage = pc.stage) : pc'.shown = pc.shown := by
  rw [Bool.eq_iff_iff, shown_iff, shown_iff, leaving_iff, leaving_iff, h]

theorem up_holds {pc : ClientPC} (h : pc.stage = .up) : pc.phase = .holds := by
  cases pc <;> first | rfl | cases h

theorem shows_eq_some {c : Conn} {i : ℕ} {n : String} : b.shows c = some (i, n) ↔
    (b.client c).pc.shown = true ∧ (b.sess (b.client c).s).id = i ∧
      (b.sess (b.client c).s).nodeID = n := by
  unfold State.shows
  split_ifs with h <;> simp [h]

theorem online_eq_some {r : Conn} {n : String} :
    b.online r = some n ↔ (b.exitT r).pc.announced = true ∧ (b.node r).nodeID = n := by
  unfold State.online
  split_ifs with h <;> simp [h]

/-! ### Goroutines that leave -/

namespace Leavers

theorem init (users : Userstore.Table) : Leavers (newBroker users) := by
  refine ⟨fun c h => ?_, fun c d h => ?_⟩ <;> cases h

theorem dead_step (h : Leavers b) (hinv : Inv b) (hs : step cfg b a = some (b', o)) {c : Conn}
    (hc : (b'.client c).pc.leaving = true) :
    b'.Made (b'.client c).s ∧ ¬ b'.Live (b'.client c).s ∧
      b'.registers (b'.client c).ex (b'.sess (b'.client c).s).nodeID := by
  have hm := step_move hs
  have hrep := hinv.rep
  -- whatever session the goroutine had, it is still made and attached
  have hkeep : b.Made (b.client c).s → b.registers (b.client c).ex (b.sess (b.client c).s).nodeID →
      b'.Made (b.client c).s ∧ b'.registers (b.client c).ex (b'.sess (b.client c).s).nodeID := by
    rintro hmade ⟨hr, hn⟩
    obtain ⟨h1, h2⟩ := hinv.reg.keep (step_regMove hs) hr
    refine ⟨made_of_move hrep hm hmade, h1, ?_⟩
    rw [h2, (hm.static hrep hmade).nodeID]
    exact hn
  rcases (books_of_step hs).leaving hc with ⟨hold, h1, h2⟩ | ⟨hpc, rfl⟩
  · obtain ⟨hmade, hdead, hreg⟩ := h.dead c hold
    rw [h1, h2]
    exact ⟨(hkeep hmade hreg).1, dead_of_move hrep hm hmade hdead, (hkeep hmade hreg).2⟩
  · have hph : (b.client c).pc.phase = .holds := by rw [hpc]; rfl
    have hsame : ((closeState b c .closed).client c).s = (b.client c).s ∧
        ((closeState b c .closed).client c).ex = (b.client c).ex := by
      simp
    obtain ⟨hmade, hreg⟩ := hinv.attach.runs c (Or.inl hph)
    rw [hsame.1, hsame.2]
    refine ⟨(hkeep hmade hreg).1, fun hl => ?_, (hkeep hmade hreg).2⟩
    exact ((hrep.live_close hph _).1 hl).2 rfl

theorem step (h : Leavers b) (hinv : Inv b) (hs : step cfg b a = some (b', o)) : Leavers b' := by
  refine ⟨fun c hc => h.dead_step hinv hs hc, fun c d hc hd hsame => ?_⟩
  have hb := books_of_step hs
  -- a goroutine that has just torn its session down is the only one with it
  have hnew : ∀ {c d : Conn}, (b.client c).pc = .dropped → b' = closeState b c .closed →
      (b'.client d).pc.leaving = true → (b'.client c).s = (b'.client d).s → c = d := by
    intro c d hpc heq hd hsame
    by_contra hne
    have hph : (b.client c).pc.phase = .holds := by rw [hpc]; rfl
    have hd' : b'.client d = b.client d := by
      rw [heq]
      exact Function.update_of_ne (Ne.symm hne) _ _
    have hc' : (b'.client c).s = (b.client c).s := by
      rw [heq]
      simp
    rw [hd'] at hd hsame
    have := (h.dead d hd).2.1
    rw [← hsame, hc'] at this
    exact this (live_of_sessions (hinv.rep.held c hph).1)
  rcases hb.leaving hc with ⟨hc₀, hsc, -⟩ | ⟨hpc, heq⟩
  · rcases hb.leaving hd with ⟨hd₀, hsd, -⟩ | ⟨hpd, heq⟩
    · exact h.inj c d hc₀ hd₀ (by rw [← hsc, ← hsd, hsame])
    · exact (hnew hpd heq hc hsame.symm).symm
  · exact hnew hpc heq hd hsame

theorem of_run (h : (machine cfg users).Run tr b) : Leavers b := by
  refine (Machine.Run.invariant (I := fun b => Inv b ∧ Leavers b)
    ⟨Inv.init users, Leavers.init users⟩ ?_ h).2
  rintro s a s' o ⟨hi, hl⟩ hs
  exact ⟨hi.step hs, hl.step hi hs⟩

/-- The session of a goroutine that has announced it. -/
theorem shown (h : Leavers b) (hinv : Inv b) {c : Conn} (hc : (b.client c).pc.shown = true) :
    b.Made (b.client c).s ∧ b.registers (b.client c).ex (b.sess (b.client c).s).nodeID := by
  rcases (shown_iff _).mp hc with hup | hl
  · exact hinv.attach.runs c (Or.inl (up_holds hup))
  · exact ⟨(h.dead c hl).1, (h.dead c hl).2.2⟩

/-- A session is announced by one goroutine: the one that runs it, if there
is one. -/
theorem holder (h : Leavers b) (hinv : Inv b) {c d : Conn}
    (hc : (b.client c).pc.phase = .holds) (hd : (b.client d).pc.shown = true)
    (hid : (b.sess (b.client d).s).id = (b.sess (b.client c).s).id) : d = c := by
  have hsame := hinv.rep.id_inj _ _ (h.shown hinv hd).1 hid
  rcases (shown_iff _).mp hd with hup | hl
  · exact hinv.rep.held_inj (up_holds hup) hc hsame
  · have := (h.dead d hl).2.1
    rw [hsame] at this
    exact absurd (live_of_sessions (hinv.rep.held c hc).1) this

theorem shows_inj (h : Leavers b) (hinv : Inv b) {c d : Conn} {i : ℕ} {m n : String}
    (hc : b.shows c = some (i, n)) (hd : b.shows d = some (i, m)) : d = c := by
  obtain ⟨hc, hic, -⟩ := shows_eq_some.mp hc
  obtain ⟨hd, hid, -⟩ := shows_eq_some.mp hd
  have hid := hid.trans hic.symm
  rcases (shown_iff _).mp hc with hup | hl
  · exact h.holder hinv (up_holds hup) hd hid
  · rcases (shown_iff _).mp hd with hup | hl'
    · exact (h.holder hinv (up_holds hup) hc hid.symm).symm
    · exact h.inj d c hl' hl (hinv.rep.id_inj _ _ (h.shown hinv hd).1 hid)

end Leavers

/-! ### What stays announced -/

/-- A goroutine that stays with the session it has announced. -/
theorem shows_same (hl : Leavers b) (hinv : Inv b) (hm : Move cfg b a b' o) {d : Conn}
    (hpc : (b'.client d).pc.shown = (b.client d).pc.shown)
    (hs : (b.client d).pc.shown = true → (b'.client d).s = (b.client d).s) :
    b'.shows d = b.shows d := by
  unfold State.shows
  rw [hpc]
  split_ifs with hd
  · have hst := hm.static hinv.rep (hl.shown hinv hd).1
    rw [hs hd, hst.id, hst.nodeID]
  · rfl

theorem SameBook.shows {d : Conn} (h : SameBook (b.client d) (b'.client d)) (hl : Leavers b) (hinv : Inv b)
    (hm : Move cfg b a b' o) : b'.shows d = b.shows d := by
  refine shows_same hl hinv hm (shown_congr h.1) fun hd => (h.2 fun hout => ?_).1
  revert hd hout
  cases (b.client d).pc <;> simp [ClientPC.shown, ClientPC.stage]

theorem announced_regs (hinv : Inv b) {r : Conn} (h : (b.exitT r).pc.announced = true) :
    b.InUse r := by
  have hreg : (b.exitT r).pc.registered = true ∧ (b.exitT r).pc ≠ .done := by
    revert h
    cases (b.exitT r).pc <;> simp [ExitPC.announced, ExitPC.registered]
  exact ⟨hinv.reg.known r hreg.1, Or.inl hreg.2⟩

theorem online_same (hinv : Inv b) (hm : RegMove cfg b a b' o) {r : Conn}
    (h : (b'.exitT r).pc.announced = (b.exitT r).pc.announced) : b'.online r = b.online r := by
  unfold State.online
  rw [h]
  split_ifs with hr
  · rw [(hinv.reg.keep hm (announced_regs hinv hr).1).2]
  · rfl

/-! ### The load of an exit -/

/-- **The load of a settled exit is the number of sessions announced for its
node id.** -/
theorem active_eq_count (hinv : Inv b) (hl : Leavers b) (hsole : Sole b) (hload : Load b)
    {r : Conn} (hr : b.InUse r) (hset : b.Settled r) {m : GoMap ℕ String} (hm : Lists b m) :
    (b.node r).active = m.count fun _ n => decide (n = (b.node r).nodeID) := by
  rw [hload r, State.load]
  congr 1
  refine GoMap.count_eq_of_keys fun i => ?_
  constructor
  · -- a counted session is announced by the goroutine that runs it
    rintro ⟨p, hp, hcnt⟩
    simp only [State.counted, Bool.and_eq_true, decide_eq_true_eq, Bool.not_eq_true'] at hcnt
    obtain ⟨hexit, hun⟩ := hcnt
    obtain ⟨hph, hsp⟩ := hinv.rep.holder i p hp
    have hex := hinv.attach.held _ hph
    rw [hsp, hexit] at hex
    have hshown : (b.client (b.sess p).clientConn).pc.shown = true := by
      have := hset _ hex
      revert this hph hun
      cases (b.client (b.sess p).clientConn).pc <;>
        simp [ClientPC.settled, ClientPC.phase, ClientPC.uncounted, ClientPC.shown]
    refine ⟨(b.sess p).nodeID, (hm _ _).mpr ⟨_, shows_eq_some.mpr ⟨hshown, ?_, ?_⟩⟩, ?_⟩
    · rw [hsp]
      exact hinv.rep.id_eq i p hp
    · rw [hsp]
    · have := (hinv.attach.sess p (hinv.rep.made p (live_of_sessions hp))).2
      rw [hexit] at this
      exact decide_eq_true this.symm
  · rintro ⟨n, hn, hdec⟩
    obtain ⟨c, hc⟩ := (hm _ _).mp hn
    obtain ⟨hshown, rfl, rfl⟩ := shows_eq_some.mp hc
    have hnode := of_decide_eq_true hdec
    obtain ⟨-, hregs, hid⟩ := hl.shown hinv hshown
    -- the goroutine has chosen a registration of the node id, and that is `r`
    have hex : (b.client c).ex = r := by
      refine hsole.one _ _ ⟨hregs, Or.inr ⟨c, ?_, rfl⟩⟩ hr (hid.trans hnode)
      revert hshown
      cases (b.client c).pc <;> simp [ClientPC.shown, ClientPC.engaged]
    have hup : (b.client c).pc.phase = .holds ∧ (b.client c).pc.uncounted = false := by
      have := hset c hex
      revert this hshown
      cases (b.client c).pc <;>
        simp [ClientPC.settled, ClientPC.phase, ClientPC.uncounted, ClientPC.shown]
    obtain ⟨hlist, hcl⟩ := hinv.rep.held c hup.1
    refine ⟨_, hlist, ?_⟩
    simp only [State.counted, hcl, hup.2, ← hinv.attach.held c hup.1, hex]
    rfl

/-! ### Every steady step -/

/-- The entry of goroutine `c` changes what `c` announces, at most. -/
theorem Entry.shows {c : Conn} {i : Input} (h : Entry cfg b c i b' o) (hl : Leavers b)
    (hinv : Inv b) (hm : Move cfg b a b' o) : b'.shows = Function.update b.shows c (b'.shows c) := by
  funext d
  by_cases hd : d = c
  · rw [hd, Function.update_self]
  · rw [Function.update_of_ne hd]
    exact SameBook.shows (by rw [h.others hd]; exact .refl _) hl hinv hm

theorem Entry.exitT {c : Conn} {i : Input} (h : Entry cfg b c i b' o) : b'.exitT = b.exitT := by
  cases h <;> rfl

theorem Entry.posted {c : Conn} {i : Input} (h : Entry cfg b c i b' o) (hl : Leavers b)
    (hinv : Inv b) (hm : Move cfg b a b' o) (hrm : RegMove cfg b a b' o)
    (hpark : ¬ b.parks cfg c) : Posted b b' (published o) := by
  have hshows := h.shows hl hinv hm
  have honline : b'.online = b.online := by
    funext r
    exact online_same hinv hrm (by rw [h.exitT])
  -- an entry that is no announcement
  have hquiet : published o = [] → (b'.client c).pc.shown = (b.client c).pc.shown →
      (b'.client c).s = (b.client c).s ∨ (b.client c).pc.shown = false →
      Posted b b' (published o) := by
    intro ho hpc hs
    rw [ho]
    refine .none ?_ honline
    rw [hshows, shows_same hl hinv hm hpc fun hd => ?_, Function.update_eq_self]
    rcases hs with hs | hs
    · exact hs
    · rw [hs] at hd
      cases hd
  cases h with
  | insert hpc | connect hpc =>
    exact hquiet rfl (by simp [ClientPC.shown, hpc])
      (Or.inr (by rw [hpc]; rfl))
  | count pc' hpc =>
    refine hquiet rfl ?_ (Or.inr ?_)
    · rcases hpc with ⟨hpc, rfl⟩ | ⟨hpc, rfl⟩ <;> simp [ClientPC.shown, hpc]
    · rcases hpc with ⟨hpc, -⟩ | ⟨hpc, -⟩ <;> rw [hpc] <;> rfl
  | fail hpc =>
    exact hquiet rfl (by simp [ClientPC.shown, hpc]) (Or.inr (by rw [hpc]; rfl))
  | announce hpc =>
    have hph : (b.client c).pc.phase = .holds := by rw [hpc]; rfl
    have hout : b.shows c = .none := by
      unfold State.shows
      rw [hpc]
      rfl
    refine .started c _ _ (fun d m hd => ?_) hout ?_ honline
    · obtain ⟨hshown, hid, -⟩ := shows_eq_some.mp hd
      rw [hl.holder hinv hph hshown hid, hout] at hd
      cases hd
    · rw [hshows]
      congr 1
      simp [State.shows, State.setClient, ClientPC.shown]
  | park hp => exact absurd hp hpark
  | close pc' hpc =>
    refine hquiet rfl ?_ (Or.inl ?_)
    · rcases hpc with ⟨hpc, rfl⟩ | ⟨hpc, rfl⟩ <;> simp [ClientPC.shown, hpc]
    · simp
  | vanish hpc hf => exact absurd hf (hinv.rep.found hpc)
  | disconnect hpc =>
    exact hquiet rfl (by simp [ClientPC.shown, hpc]) (Or.inl (by simp))
  | bye hpc =>
    have hold : b.shows c =
        some ((b.sess (b.client c).s).id, (b.sess (b.client c).s).nodeID) :=
      shows_eq_some.mpr ⟨by rw [hpc]; rfl, rfl, rfl⟩
    refine .ended c _ _ hold (fun d m hd => hl.shows_inj hinv hold hd) ?_ honline
    rw [hshows]
    congr 1
    simp [State.shows, ClientPC.shown]

/-- Exit goroutine `r` changes what `r` announces, at most. -/
theorem online_update (hinv : Inv b) (hrm : RegMove cfg b a b' o) {r : Conn} {t' : ExitThread}
    (hT : b'.exitT = Function.update b.exitT r t') :
    b'.online = Function.update b.online r (b'.online r) := by
  funext q
  by_cases hq : q = r
  · rw [hq, Function.update_self]
  · rw [Function.update_of_ne hq]
    exact online_same hinv hrm (by rw [hT, Function.update_of_ne hq])

/-- **Every steady step keeps the announcements in line with the broker.** -/
theorem posted_of_step (hinv : Inv b) (hl : Leavers b) (hsole : Sole b) (hload : Load b)
    (htimer : ∀ k, (b.timer k).pc.stage = .out) (hs : step cfg b a = some (b', o))
    (hC : Steady cfg b a) : Posted b b' (published o) := by
  have hm := step_move hs
  have hrm := step_regMove hs
  cases books_of_step hs with
  | quiet _ client _ exitT out =>
    rw [out.published]
    refine .none (funext fun d => ?_) (funext fun r => online_same hinv hrm (exitT r))
    exact (client d).shows hl hinv hm
  | client c i entry => exact entry.posted hl hinv hm hrm hC
  | timer k ok entry =>
    have hk := htimer k
    cases entry with
    | expire p hpc hf hid => exact absurd ⟨hpc, p, hf, hid⟩ hC
    | disconnect hpc | bye hpc => rw [hpc] at hk; cases hk
  | nodeConnected r ok hpc =>
    have hent : (b.exitT r).pc.entered = true := by rw [hpc]; rfl
    have huse : b.InUse r := .entered (hinv.reg.known r (by rw [hpc]; rfl)) hent
    obtain ⟨hset, hread⟩ := hC (Or.inl hpc)
    rw [hread]
    refine .connected r _ _ ?_ (fun m => active_eq_count hinv hl hsole hload huse hset) rfl ?_
    · unfold State.online
      rw [hpc]
      rfl
    · rw [online_update hinv hrm rfl]
      congr 1
      simp [State.online, State.setExit, ExitPC.announced]
  | nodeDisconnected r ok hpc =>
    have hann : (b.exitT r).pc.announced = true := by rw [hpc]; rfl
    refine .disconnected r _ (fun q hq => ?_) (online_eq_some.mpr ⟨hann, rfl⟩) rfl ?_
    · obtain ⟨hq, hn⟩ := online_eq_some.mp hq
      exact hsole.one q r (announced_regs hinv hq) (announced_regs hinv hann) hn
    · rw [online_update hinv hrm rfl]
      congr 1
      simp [State.online, ExitPC.announced]
  | nodeUpdated r ok hpc =>
    have hann : (b.exitT r).pc.announced = true := by rw [hpc]; rfl
    obtain ⟨hset, hread⟩ := hC (Or.inr hpc)
    rw [hread]
    refine .updated r _ _ (online_eq_some.mpr ⟨hann, rfl⟩)
      (fun m => active_eq_count hinv hl hsole hload (announced_regs hinv hann) hset) rfl ?_
    exact funext fun q => online_same hinv hrm (by
      by_cases hq : q = r <;> simp [hq, hpc, State.gotoExit, State.setExit, ExitPC.announced])

/-- No timer starts to end a session. -/
theorem timers_of_step (hinv : Inv b) (htimer : ∀ k, (b.timer k).pc.stage = .out)
    (hs : step cfg b a = some (b', o)) (hC : Steady cfg b a) (k : ℕ) :
    (b'.timer k).pc.stage = .out := by
  cases books_of_step hs with
  | quiet _ _ timer => rw [(timer k).1, htimer k]
  | client c i entry => rw [(entry.timer hinv.timers k).1, htimer k]
  | timer j ok entry =>
    have hj := htimer j
    cases entry with
    | expire p hpc hf hid => exact absurd ⟨hpc, p, hf, hid⟩ hC
    | disconnect hpc | bye hpc => rw [hpc] at hj; cases hj
  | _ => exact htimer k

/-! ### States with nothing left to announce -/

theorem State.Resting.published (h : b.Resting) : b.Published := by
  refine ⟨fun c => ?_, fun r => ?_, fun k => ?_⟩
  · rcases h.client c with hc | hc | hc <;> rw [hc] <;> exact ⟨rfl, rfl⟩
  · rcases h.exitT r with hr | hr | hr <;> rw [hr] <;> rfl
  · rcases h.timer k with hk | hk | hk | hk <;> rw [hk] <;> rfl

namespace State.Published

/-- The sessions announced are those of `b.sessions`. -/
theorem sessions (h : b.Published) (hinv : Inv b) (i : ℕ) (n : String) :
    (∃ c, b.shows c = some (i, n)) ↔
      ∃ p, b.sessions.lookup i = some p ∧ (b.sess p).nodeID = n := by
  constructor
  · rintro ⟨c, hc⟩
    obtain ⟨hshown, rfl, rfl⟩ := shows_eq_some.mp hc
    have hph : (b.client c).pc.phase = .holds := by
      have := (h.client c).1
      revert this hshown
      cases (b.client c).pc <;> simp [ClientPC.settled, ClientPC.shown, ClientPC.phase]
    exact ⟨_, (hinv.rep.held c hph).1, rfl⟩
  · rintro ⟨p, hp, rfl⟩
    obtain ⟨hph, hsp⟩ := hinv.rep.holder i p hp
    refine ⟨(b.sess p).clientConn, shows_eq_some.mpr ⟨?_, ?_, ?_⟩⟩
    · have := h.client (b.sess p).clientConn
      revert this hph
      cases (b.client (b.sess p).clientConn).pc <;>
        simp [ClientPC.settled, ClientPC.shown, ClientPC.phase, ClientPC.uncounted]
    · rw [hsp]
      exact hinv.rep.id_eq i p hp
    · rw [hsp]

/-- The exits announced are those of `b.exits`. -/
theorem exits (h : b.Published) (hinv : Inv b) (hsole : Sole b) (n : String) :
    (∃ r, b.online r = some n) ↔ ∃ r, b.exits.lookup n = some r := by
  constructor
  · rintro ⟨r, hr⟩
    obtain ⟨hann, rfl⟩ := online_eq_some.mp hr
    exact ⟨r, hsole.kept r (announced_regs hinv hann).1 (by rw [← h.exitT r]; exact hann)⟩
  · rintro ⟨r, hr⟩
    refine ⟨r, online_eq_some.mpr ⟨?_, (hinv.reg.exits n r hr).2⟩⟩
    rw [h.exitT r]
    exact hsole.entry n r hr

/-- The load of an exit is the number of sessions announced for it. -/
theorem active (h : b.Published) (hinv : Inv b) (hl : Leavers b) (hsole : Sole b) (hload : Load b)
    {n : String} {r : Conn} (hr : b.exits.lookup n = some r) {m : GoMap ℕ String}
    (hm : Lists b m) : (b.node r).active = m.count fun _ n' => decide (n' = n) := by
  obtain ⟨hregs, rfl⟩ := hinv.reg.exits n r hr
  exact active_eq_count hinv hl hsole hload (.entered hregs (hsole.entry _ r hr))
    (fun c _ => (h.client c).1) hm

end State.Published

end
end Broker
end Revquic
