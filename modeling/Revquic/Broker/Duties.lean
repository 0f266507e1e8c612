/-
# Messages still to be written

A goroutine that has given its session up, and a park timer that has expired
one, remember the session they still have to tell the exit about. That
session is dead by then, or parked by that very goroutine, and no other is
mistaken for it: ids are never drawn twice, and a goroutine runs one session
in its life.

Key definitions: `Owing`, `Dying`, `Duties`, `Addressed`.
Key theorem: `Duties.of_run`.
-/
import Revquic.Broker.Address
import Revquic.Broker.Ownership

namespace Revquic
namespace Broker

open Lib Netip Ippool Proto

section
variable {cfg : Config} {users : Userstore.Table} {b b' : State} {a : Action} {o : List Out}
  {tr : List (Event State Action Out)}

/-! ### Goroutines that have given their session up -/

/-- How a goroutine comes to owe its exit a message. -/
inductive Owing (cfg : Config) (b b' : State) (c : Conn) : Prop
  | kept (same : b'.client c = b.client c)
  | parked (b'_eq : b' = parkState cfg b c) (pc : (b.client c).pc = .dropped)
  | closed (pc' : ClientPC) (b'_eq : b' = closeState b c pc')
      (pc : (b.client c).pc = .dropped ∧ pc' = .closed ∨ (b.client c).pc = .ending ∧ pc' = .ended)

theorem owing_update {c d : Conn} {t' : ClientThread}
    (client : b'.client = Function.update b.client c t') (hd : (b'.client d).pc.owes = true)
    (ht : t'.pc.owes = false) : Owing cfg b b' d := by
  by_cases hdc : d = c
  · rw [client, hdc, Function.update_self, ht] at hd
    cases hd
  · exact .kept (by rw [client, Function.update_of_ne hdc])

theorem holds_not_owes {pc : ClientPC} (h : pc.phase = .holds) : pc.owes = false := by
  cases pc <;> first | rfl | cases h

theorem Move.owes (hm : Move cfg b a b' o) {d : Conn} (hd : (b'.client d).pc.owes = true) :
    Owing cfg b b' d := by
  cases hm with
  | env _ client => exact .kept (by rw [client])
  | register c msg =>
    refine .kept ?_
    rw [handleExit_client]
  | walk c t' _ client _ _ hw => exact owing_update client hd hw.not_owes
  | count c i _ pc' hph => exact owing_update rfl hd (holds_not_owes hph)
  | park c i q hpc =>
    by_cases hdc : d = c
    · subst hdc
      exact .parked rfl hpc
    · exact .kept (Function.update_of_ne hdc _ _)
  | close c i q pc' hpc =>
    by_cases hdc : d = c
    · subst hdc
      exact .closed pc' rfl hpc
    · exact .kept (Function.update_of_ne hdc _ _)
  | expire => exact .kept rfl
  | _ => exact owing_update rfl hd rfl

/-- A goroutine that has given its session up keeps it and its exit in
mind. -/
theorem Move.after (hm : Move cfg b a b' o) {d : Conn} (hd : (b.client d).pc.phase = .after) :
    (b'.client d).pc.phase = .after ∧ (b'.client d).s = (b.client d).s ∧
      (b'.client d).ex = (b.client d).ex := by
  have hother : ∀ {c : Conn} {t' : ClientThread}, b'.client = Function.update b.client c t' →
      (b.client c).pc.phase ≠ .after → b'.client d = b.client d := by
    intro c t' client hc
    rw [client, Function.update_of_ne]
    rintro rfl
    exact hc hd
  have hsame : b'.client d = b.client d → (b'.client d).pc.phase = .after ∧
      (b'.client d).s = (b.client d).s ∧ (b'.client d).ex = (b.client d).ex := by
    intro h
    rw [h]
    exact ⟨hd, rfl, rfl⟩
  cases hm with
  | env _ client => exact hsame (by rw [client])
  | connect c msg hu => exact hsame (hother rfl (by rw [hu.1]; decide))
  | register c msg =>
    refine hsame ?_
    rw [handleExit_client]
  | walk c t' _ client _ _ hw =>
    by_cases hdc : d = c
    · subst hdc
      obtain ⟨-, h2, h3, -⟩ := hw.same (by rw [hd]; decide)
      rw [client, Function.update_self]
      refine ⟨?_, h2, h3⟩
      rcases hw.phases with h1 | h1 | h1 | h1 <;> simp_all
    · exact hsame (by rw [client, Function.update_of_ne hdc])
  | choose c i ex rr hpc | draw c i hpc | alloc c i addr pool hpc | insert c i hpc
  | resume c i p ex hpc | park c i q hpc => exact hsame (hother rfl (by rw [hpc]; decide))
  | count c i hpc => exact hsame (hother rfl (by rw [uncounted_holds hpc]; decide))
  | close c i q pc' hpc =>
    exact hsame (hother rfl (by rcases hpc with ⟨hpc, -⟩ | ⟨hpc, -⟩ <;> rw [hpc] <;> decide))
  | vanish c i hpc =>
    exact hsame (hother rfl (by rcases hpc with hpc | hpc <;> rw [hpc] <;> decide))
  | expire => exact hsame rfl

/-- A timer that has to write is the one that has just expired a session, or
it had to write before. -/
theorem Says.write (hs : Says cfg b a b' o) {k : ℕ} (hk : (b'.timer k).pc = .write) :
    b'.timer k = b.timer k ∨ ∃ p, b' = expireState b k p ∧ (b.timer k).pc = .fired ∧
      b.parked.lookup (b.timer k).resumeKey = some p ∧ (b.sess p).id = (b.timer k).sid := by
  cases hs with
  | quiet _ _ _ timer => exact Or.inl (timer k (Or.inr hk))
  | expire j ok p hpc hf hid =>
    by_cases hkj : k = j
    · subst hkj
      exact Or.inr ⟨p, rfl, hpc, hf, hid⟩
    · exact Or.inl (Function.update_of_ne hkj _ _)
  | expired j ok hpc =>
    by_cases hkj : k = j
    · subst hkj
      simp at hk
    · exact Or.inl (Function.update_of_ne hkj _ _)
  | _ => exact Or.inl rfl

/-- A goroutine that has told its exit had done so before, or writes its
`MsgSessionStart`. -/
theorem Says.told (hs : Says cfg b a b' o) {d : Conn} (hd : (b'.client d).pc.told = true) :
    (b.client d).pc.told = true ∨ (b.client d).pc = .start ∧ ∃ i, a = .client d i := by
  have hgoto : ∀ {c : Conn} {t' : ClientThread}, b'.client = Function.update b.client c t' →
      t'.pc.told = false ∨ (b.client c).pc.told = true → (b.client d).pc.told = true := by
    intro c t' client h
    rw [client] at hd
    by_cases hdc : d = c
    · subst hdc
      rw [Function.update_self] at hd
      exact h.resolve_left (by rw [hd]; nofun)
    · rwa [Function.update_of_ne hdc] at hd
  cases hs with
  | quiet _ told => exact Or.inl (told d hd)
  | reply c i hpc | suspend c i hpc => exact Or.inl (hgoto rfl (Or.inl rfl))
  | start c i hpc =>
    by_cases hdc : d = c
    · subst hdc
      exact Or.inr ⟨hpc, i, rfl⟩
    · change (Function.update b.client c _ d).pc.told = true at hd
      rw [Function.update_of_ne hdc] at hd
      exact Or.inl hd
  | connectOK c i hpc => exact Or.inl (hgoto rfl (Or.inr (by rw [hpc]; rfl)))
  | finish c i pc' hpc =>
    exact Or.inl (hgoto rfl (Or.inl (by rcases hpc with ⟨-, rfl⟩ | ⟨-, rfl⟩ <;> rfl)))
  | _ => exact Or.inl hd

/-! ### The dead stay dead -/

theorem dead_of_move (hrep : Rep b) (hm : Move cfg b a b' o) {p : Conn} (hp : b.Made p)
    (hd : ¬ b.Live p) : ¬ b'.Live p :=
  (ended_of_move hrep hm ⟨hrep.born p hp, hd⟩).2

theorem made_of_move (hrep : Rep b) (hm : Move cfg b a b' o) {p : Conn} (hp : b.Made p) :
    b'.Made p := by
  rw [State.Made, (hm.static hrep hp).id]
  exact hp

/-! ### How a session ends -/

/-- A parked session stays, or has ended, or has just been resumed. -/
theorem Move.leaves (hm : Move cfg b a b' o) (hrep : Rep b) {k : String} {p : Conn}
    (hp : b.parked.lookup k = some p) :
    b'.parked.lookup k = some p ∧ b'.sess p = b.sess p ∨ ¬ b'.Live p ∨
      ∃ c i ex, a = .client c i ∧ (b.client c).pc = .lock ∧ b.mayResume cfg c p ∧
        b' = resumeState b c p ex := by
  rcases hm.unparks hrep hp with h | ⟨c, i, ex, hact, hpc, hmay, -, hb⟩ |
      ⟨c, i, -, hparks, rfl, rfl⟩ | ⟨j, ok, -, -, rfl, -, rfl, -⟩
  · exact Or.inl h
  · exact Or.inr (Or.inr ⟨c, i, ex, hact, hpc, hmay, hb⟩)
  · exact Or.inr (Or.inl fun hl => ((hrep.live_park (by rw [hparks.1]; rfl) p).1 hl).2 hp)
  · exact Or.inr (Or.inl fun hl => ((hrep.live_expire hp p).1 hl).2 rfl)

/-- How a session dies: its goroutine tears it down, it expires, or another
one is parked in its place. -/
inductive Dying (cfg : Config) (b : State) (a : Action) (b' : State) (p : Conn) : Prop
  | closed (c : Conn) (pc' : ClientPC) (b'_eq : b' = closeState b c pc') (s : (b.client c).s = p)
      (pc : (b.client c).pc = .dropped ∧ pc' = .closed ∨ (b.client c).pc = .ending ∧ pc' = .ended)
  | expired (k : ℕ) (b'_eq : b' = expireState b k p)
  | overwritten (c : Conn) (i : Input) (act : a = .client c i) (b'_eq : b' = parkState cfg b c)
      (parks : b.parks cfg c)
      (key : b.parked.lookup (b.sess (b.client c).s).resumeKey = some p)

/-- A session that leaves the maps is torn down by its goroutine or expires,
and its address is released, or another one is parked in its place. -/
theorem Move.ends (hm : Move cfg b a b' o) (hrep : Rep b) {p : Conn} (hp : b.Live p)
    (hp' : ¬ b'.Live p) :
    (∃ c i pc', a = .client c i ∧ (b.client c).s = p ∧
      ((b.client c).pc = .dropped ∧ pc' = .closed ∨ (b.client c).pc = .ending ∧ pc' = .ended) ∧
      b' = closeState b c pc' ∧ o = [.release p (b.sess p).clientAddr]) ∨
    (∃ k, b.parked.lookup (b.timer k).resumeKey = some p ∧ b' = expireState b k p ∧
      o = [.release p (b.sess p).clientAddr]) ∨
    ∃ c i, a = .client c i ∧ b.parks cfg c ∧
      b.parked.lookup (b.sess (b.client c).s).resumeKey = some p ∧ b' = parkState cfg b c := by
  cases hm with
  | env core | walk c t' core =>
    exact absurd hp (by rwa [State.Live, core.sessions, core.parked] at hp')
  | register c msg =>
    have core := handleExit_core cfg b c msg
    exact absurd hp (by rwa [State.Live, core.sessions, core.parked] at hp')
  | insert c i hpc => exact absurd ((hrep.live_insert hpc p).2 (Or.inl hp)) hp'
  | resume c i q ex hpc _ hf => exact absurd ((hrep.live_resume hf p).2 hp) hp'
  | park c i q hpc _ hd hk ht =>
    by_cases hkey : b.parked.lookup (b.sess (b.client c).s).resumeKey = some p
    · exact Or.inr (Or.inr ⟨c, i, rfl, ⟨hpc, hd, hk, ht⟩, hkey, rfl⟩)
    · exact absurd ((hrep.live_park (by rw [hpc]; rfl) p).2 ⟨hp, hkey⟩) hp'
  | close c i q pc' hpc =>
    have hph := holds_of_leaving (hpc.imp And.left And.left)
    by_cases hs : p = (b.client c).s
    · subst hs
      exact Or.inl ⟨c, i, pc', rfl, rfl, hpc, rfl, rfl⟩
    · exact absurd ((hrep.live_close hph p).2 ⟨hp, hs⟩) hp'
  | expire k ok q _ hf =>
    by_cases hq : p = q
    · subst hq
      exact Or.inr (Or.inl ⟨k, hf, rfl, rfl⟩)
    · exact absurd ((hrep.live_expire hf p).2 ⟨hp, hq⟩) hp'
  | _ => exact absurd hp hp'

theorem Move.dies (hm : Move cfg b a b' o) (hrep : Rep b) {p : Conn} (hp : b.Live p)
    (hp' : ¬ b'.Live p) : Dying cfg b a b' p := by
  rcases hm.ends hrep hp hp' with ⟨c, i, pc', -, hs, hpc, heq, -⟩ | ⟨k, -, heq, -⟩ |
      ⟨c, i, hact, hparks, hkey, heq⟩
  · exact .closed c pc' heq hs hpc
  · exact .expired k heq
  · exact .overwritten c i hact heq hparks hkey

/-! ### The invariant -/

/-- What the goroutines and timers that owe a `MsgSessionEnd` know of their
session, and who parked a parked session. -/
structure Duties (b : State) : Prop where
  ending : ∀ c, (b.client c).pc = .ended ∨ (b.client c).pc = .closed → ¬ b.Live (b.client c).s
  expired : ∀ k, (b.timer k).pc = .write → b.Made (b.timer k).s ∧ ¬ b.Live (b.timer k).s ∧
    (b.timer k).sid = (b.sess (b.timer k).s).id ∧
    ∃ r, (b.timer k).ex = some r ∧ b.registers r (b.sess (b.timer k).s).nodeID
  last : ∀ k p, b.parked.lookup k = some p →
    (b.client (b.sess p).clientConn).pc.phase = .after ∧ (b.client (b.sess p).clientConn).s = p

theorem Duties.init (users : Userstore.Table) : Duties (newBroker users) := by
  refine ⟨?_, ?_, ?_⟩
  · rintro c (h | h) <;> cases h
  · intro k h; cases h
  · intro k p h; cases h

theorem Duties.step (h : Duties b) (hinv : Inv b) (hs : step cfg b a = some (b', o)) :
    Duties b' := by
  have hm := step_move hs
  have hrep := hinv.rep
  refine ⟨?_, ?_, ?_⟩
  · intro c hc
    have howes : (b'.client c).pc.owes = true := by rcases hc with hc | hc <;> rw [hc] <;> rfl
    rcases hm.owes howes with hsame | ⟨rfl, -⟩ | ⟨pc', rfl, hpc⟩
    · rw [hsame] at hc howes ⊢
      exact dead_of_move hrep hm (hinv.attach.runs c (Or.inr howes)).1 (h.ending c hc)
    · simp at hc
    · have hph := holds_of_leaving (hpc.imp And.left And.left)
      have hself : ((closeState b c pc').client c).s = (b.client c).s := by
        simp
      rw [hself]
      exact fun hl => ((hrep.live_close hph _).1 hl).2 rfl
  · intro k hk
    rcases (says_of_step hinv.timers hs).write hk with hsame | ⟨p, rfl, hpc, hf, hid⟩
    · rw [hsame] at hk ⊢
      obtain ⟨hmade, hdead, hsid, r, hr, hreg⟩ := h.expired k hk
      have hst := hm.static hrep hmade
      obtain ⟨hr', hn'⟩ := hinv.reg.keep (step_regMove hs) hreg.1
      refine ⟨made_of_move hrep hm hmade, dead_of_move hrep hm hmade hdead, by rw [hst.id, hsid],
        r, hr, hr', ?_⟩
      rw [hn', hst.nodeID]
      exact hreg.2
    · have ht : (expireState b k p).timer k = { b.timer k with
          pc := if b.exits.lookup (b.sess p).nodeID = none then .disconnect else .write
          s := p, ex := b.exits.lookup (b.sess p).nodeID } := Function.update_self _ _ _
      rw [ht] at hk ⊢
      have hx : b.exits.lookup (b.sess p).nodeID ≠ none := by
        intro hn
        simp [hn] at hk
      obtain ⟨r, hr⟩ := Option.ne_none_iff_exists'.mp hx
      exact ⟨hrep.made p (live_of_parked hf), fun hl => ((hrep.live_expire hf p).1 hl).2 rfl,
        hid.symm, r, hr, hinv.reg.exits _ r hr⟩
  · intro k p hp
    rcases hm.parked hrep hp with ⟨hp, hsame⟩ | ⟨c, i, -, hparks, rfl, rfl⟩
    · obtain ⟨hph, hs'⟩ := h.last k p hp
      obtain ⟨h1, h2, -⟩ := hm.after hph
      rw [hsame]
      exact ⟨h1, by rw [h2, hs']⟩
    · rw [parkState_sess_self]
      have hcc : (b.sess (b.client c).s).clientConn = c :=
        (hrep.held c (by rw [hparks.1]; rfl)).2
      change ((parkState cfg b c).client (b.sess (b.client c).s).clientConn).pc.phase = _ ∧ _
      rw [hcc]
      simp [ClientPC.phase]

theorem Duties.of_run (h : (machine cfg users).Run tr b) : Duties b := by
  refine (Machine.Run.invariant (I := fun b => Inv b ∧ Duties b)
    ⟨Inv.init users, Duties.init users⟩ ?_ h).2
  intro s a s' o ⟨hi, hd⟩ hs
  exact ⟨hi.step hs, hd.step hi hs⟩

/-! ### Addresses in text -/

/-- What is allocated comes from the VPN prefix, and the `clientIP` of a
session is its address in text. -/
structure Addressed (b : State) : Prop where
  pool : b.ipPool.pfx = vpnPrefix.masked
  setup : ∀ c, (b.client c).pc = .allocated → ∃ x, (b.client c).clientAddr = .v4 x
  sess : ∀ p, b.Made p → ∃ x, (b.sess p).clientAddr = .v4 x ∧
    (b.sess p).clientIP = (b.sess p).clientAddr.string

/-- A goroutine that has an address had it before, or has just allocated
it. -/
theorem Move.allocated (hm : Move cfg b a b' o) {d : Conn} (hd : (b'.client d).pc = .allocated) :
    b'.client d = b.client d ∨
      ∃ addr pool, b.ipPool.allocate = .ok (addr, pool) ∧ (b'.client d).clientAddr = addr := by
  have hother : ∀ {c : Conn} {t' : ClientThread}, b'.client = Function.update b.client c t' →
      t'.pc ≠ .allocated → b'.client d = b.client d := by
    intro c t' client hc
    rw [client, Function.update_of_ne]
    rintro rfl
    rw [client, Function.update_self] at hd
    exact hc hd
  cases hm with
  | env _ client => exact Or.inl (by rw [client])
  | register c msg =>
    exact Or.inl (by rw [handleExit_client])
  | walk c t' _ client _ _ hw => exact Or.inl (hother client hw.not_allocated.2)
  | alloc c i addr pool _ ha =>
    by_cases hdc : d = c
    · subst hdc
      exact Or.inr ⟨addr, pool, ha, by simp⟩
    · exact Or.inl (Function.update_of_ne hdc _ _)
  | count c i _ pc' hph => exact Or.inl (hother rfl (by rintro rfl; cases hph))
  | close c i q pc' hpc =>
    exact Or.inl (hother rfl (by rcases hpc with ⟨-, rfl⟩ | ⟨-, rfl⟩ <;> simp))
  | expire => exact Or.inl rfl
  | _ => exact Or.inl (hother rfl (by simp))

theorem Move.pfx (hm : Move cfg b a b' o) : b'.ipPool.pfx = b.ipPool.pfx := by
  cases hm with
  | env core => rw [core.ipPool]
  | walk c t' core => rw [core.ipPool]
  | register c msg =>
    rw [(handleExit_core cfg b c msg).ipPool]
  | alloc c i addr pool _ ha => exact (Pool.allocate_contains ha).2
  | _ => rfl

theorem v4_of_contains {x : Addr} (h : vpnPrefix.masked.contains x = true) : ∃ y, x = .v4 y := by
  cases x with
  | zero => cases h
  | v4 y => exact ⟨y, rfl⟩
  | v6 y => cases h

theorem Addressed.step (h : Addressed b) (hrep : Rep b) (hm : Move cfg b a b' o) :
    Addressed b' := by
  refine ⟨hm.pfx.trans h.pool, fun c hc => ?_, fun p hp => ?_⟩
  · rcases hm.allocated hc with hsame | ⟨addr, pool, ha, hc'⟩
    · rw [hsame] at hc ⊢
      exact h.setup c hc
    · rw [hc']
      exact v4_of_contains (h.pool ▸ (Pool.allocate_contains ha).1)
  · rcases hm.made hp with hp | ⟨-, hpc, rfl⟩
    · have hst := hm.static hrep hp
      rw [hst.clientAddr, hst.clientIP]
      exact h.sess p hp
    · rw [insertSession_sess_self]
      obtain ⟨x, hx⟩ := h.setup p hpc
      exact ⟨x, hx, rfl⟩

theorem Addressed.of_run (h : (machine cfg users).Run tr b) : Addressed b := by
  refine (Machine.Run.invariant (I := fun b => Rep b ∧ Addressed b)
    ⟨Rep.init users, rfl, ?_, ?_⟩ ?_ h).2
  · intro c h; cases h
  · exact fun p hp => absurd rfl hp
  · intro s a s' o ⟨hr, ha⟩ hs
    exact ⟨hr.move (step_move hs), ha.step hr (step_move hs)⟩

/-- `ParseAddr` gives the address back. -/
theorem Addressed.parse (h : Addressed b) {p : Conn} (hp : b.Made p) :
    parseAddr (b.sess p).clientIP = some (b.sess p).clientAddr := by
  obtain ⟨x, hx, hip⟩ := h.sess p hp
  rw [hip, hx]
  exact parseAddr_string_v4 x

end
end Broker
end Revquic
