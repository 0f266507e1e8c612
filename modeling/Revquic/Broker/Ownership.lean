/-
# Whose session it is

A session belongs to the user whose `Connect` created it, keeps its address
and its node id, and comes back to a client only through `tryResume`: with
its own key, within the resume window, while its node is registered. These
are statements about whole runs; `History` ties the steps taken so far to the
state reached.

Key definitions: `Announces`, `Creates`, `Parks`, `Resumes`, `History`.
Key theorems: `History.of_run`, `session_ownership`.
-/
import Revquic.Broker.Admission
import Revquic.Broker.Attach

namespace Revquic
namespace Broker

open Lib Netip Ippool Proto

/-- The step answers client `c` with session `sid` and address `ip`. -/
def Announces (e : Event State Action Out) (c : Conn) (sid : ℕ) (ip : String) : Prop :=
  ∃ mask mtu ice, Out.ctrl c (.connectOK sid ip mask mtu ice) ∈ e.out

/-- The step creates session `sid`, for the `Connect` of `p`. -/
def Creates (e : Event State Action Out) (p : Conn) (sid : ℕ) : Prop :=
  (∃ i, e.act = .client p i) ∧ (e.pre.client p).pc = .allocated ∧ (e.pre.client p).sid = sid

/-- The step parks the session that the `Connect` of `p` created. -/
def Parks (cfg : Config) (e : Event State Action Out) (p : Conn) : Prop :=
  ∃ c i, e.act = .client c i ∧ e.pre.parks cfg c ∧ (e.pre.client c).s = p

/-- The step, taken after `tr`, resumes for client `c` the session that the
`Connect` of `p` created: under `key`, within the resume window of the step
that parked it, and with `nodeID` registered. -/
structure Resumes (cfg : Config) (tr : List (Event State Action Out))
    (e : Event State Action Out) (c p : Conn) (key nodeID : String) : Prop where
  act : ∃ i, e.act = .client c i
  pc : (e.pre.client c).pc = .lock
  resumed : (e.post.client c).pc = .resumed ∧ (e.post.client c).s = p
  key_eq : (e.pre.client c).msg.resumeKey = key
  key_ne : key ≠ ""
  online : ∃ r, e.pre.exits.lookup nodeID = some r
  parked : ∃ e₀ ∈ tr, Parks cfg e₀ p ∧ (e.pre.now : ℤ) - e₀.pre.now < cfg.resumeTTL

/-- The session was resumed for `c` in one of the steps. -/
def Resumed (cfg : Config) (tr : List (Event State Action Out)) (c p : Conn)
    (key nodeID : String) : Prop :=
  ∃ tr₁ e tr₂, tr = tr₁ ++ e :: tr₂ ∧ Resumes cfg tr₁ e c p key nodeID

/-- What the steps so far have to do with the state. -/
structure History (cfg : Config) (tr : List (Event State Action Out)) (b : State) : Prop where
  made : ∀ p, b.Made p → ∃ e ∈ tr, Creates e p (b.sess p).id ∧
    (e.pre.client p).user.username = (b.sess p).username ∧
    (e.pre.client p).msg.resumeKey = (b.sess p).resumeKey
  own : ∀ p, b.Made p →
    (b.client p).pc.answered = true ∨ (b.client p).pc.phase = .holds ∧ (b.client p).s = p
  user : ∀ c, (b.client c).pc.phase = .holds →
    (b.client c).user.username = (b.sess (b.client c).s).username
  parked : ∀ k p, b.parked.lookup k = some p →
    ∃ e ∈ tr, Parks cfg e p ∧ e.pre.now = (b.sess p).parkedAt
  held : ∀ c, (b.client c).pc.phase = .holds → (b.client c).s = c ∨
    Resumed cfg tr c (b.client c).s (b.sess (b.client c).s).resumeKey
      (b.sess (b.client c).s).nodeID
  answered : ∀ e ∈ tr, ∀ c sid ip, Announces e c sid ip → ∃ p, b.Made p ∧ (b.sess p).id = sid ∧
    (b.sess p).clientIP = ip ∧ (b.sess p).nodeID = (e.pre.node (e.pre.client c).ex).nodeID ∧
    (b.client p).pc.answered = true

section
variable {cfg : Config} {users : Userstore.Table} {b b' : State} {a : Action} {o : List Out}
  {tr : List (Event State Action Out)}

theorem Resumed.mono {c p : Conn} {key nodeID : String} (h : Resumed cfg tr c p key nodeID)
    (e : Event State Action Out) : Resumed cfg (tr ++ [e]) c p key nodeID := by
  obtain ⟨tr₁, e₁, tr₂, rfl, hr⟩ := h
  exact ⟨tr₁, e₁, tr₂ ++ [e], by simp, hr⟩

/-! ### What a move does to a session -/

/-- What a session keeps for life. -/
structure Static (s s' : Session) : Prop where
  id : s'.id = s.id
  clientIP : s'.clientIP = s.clientIP
  clientAddr : s'.clientAddr = s.clientAddr
  username : s'.username = s.username
  resumeKey : s'.resumeKey = s.resumeKey
  nodeID : s'.nodeID = s.nodeID

theorem Static.refl (s : Session) : Static s s := ⟨rfl, rfl, rfl, rfl, rfl, rfl⟩

theorem Move.static (hm : Move cfg b a b' o) (hrep : Rep b) {p : Conn} (hp : b.Made p) :
    Static (b.sess p) (b'.sess p) := by
  cases hm with
  | env core | walk c t' core => rw [core.sess]; exact .refl _
  | register c msg =>
    rw [(handleExit_core cfg b c msg).sess]
    exact .refl _
  | insert c i hpc =>
    have hpc' : p ≠ c := by
      rintro rfl
      exact hrep.not_made (by rw [hpc]; simp [ClientPC.born, ClientPC.phase]) hp
    rw [insertSession_sess_of_ne hpc']
    exact .refl _
  | resume c i q ex =>
    by_cases hq : p = q
    · subst hq
      rw [resumeState_sess_self]
      exact ⟨rfl, rfl, rfl, rfl, rfl, rfl⟩
    · rw [resumeState_sess_of_ne hq]
      exact .refl _
  | park c i q =>
    by_cases hq : p = (b.client c).s
    · subst hq
      rw [parkState_sess_self]
      exact ⟨rfl, rfl, rfl, rfl, rfl, rfl⟩
    · rw [parkState_sess_of_ne hq]
      exact .refl _
  | _ => exact .refl _

/-- A session that exists did before, or has just been inserted. -/
theorem Move.made (hm : Move cfg b a b' o) {p : Conn} (hp : b'.Made p) :
    b.Made p ∨ (∃ i, a = .client p i) ∧ (b.client p).pc = .allocated ∧ b' = insertSession b p := by
  cases hm with
  | env core | walk c t' core => exact Or.inl (by rwa [State.Made, core.sess] at hp)
  | register c msg =>
    exact Or.inl (by rwa [State.Made, (handleExit_core cfg b c msg).sess] at hp)
  | insert c i hpc =>
    by_cases hpc' : p = c
    · subst hpc'
      exact Or.inr ⟨⟨i, rfl⟩, hpc, rfl⟩
    · rw [State.Made, insertSession_sess_of_ne hpc'] at hp
      exact Or.inl hp
  | resume c i q ex =>
    by_cases hq : p = q
    · subst hq
      rw [State.Made, resumeState_sess_self] at hp
      exact Or.inl hp
    · rw [State.Made, resumeState_sess_of_ne hq] at hp
      exact Or.inl hp
  | park c i q =>
    by_cases hq : p = (b.client c).s
    · subst hq
      rw [State.Made, parkState_sess_self] at hp
      exact Or.inl hp
    · rw [State.Made, parkState_sess_of_ne hq] at hp
      exact Or.inl hp
  | _ => exact Or.inl hp

/-- A parked session was parked before and is as it was, or has just been
parked. -/
theorem Move.parked (hm : Move cfg b a b' o) (hrep : Rep b) {k : String} {p : Conn}
    (hp : b'.parked.lookup k = some p) :
    b.parked.lookup k = some p ∧ b'.sess p = b.sess p ∨
      ∃ c i, a = .client c i ∧ b.parks cfg c ∧ (b.client c).s = p ∧ b' = parkState cfg b c := by
  cases hm with
  | env core | walk c t' core =>
    rw [core.parked] at hp
    exact Or.inl ⟨hp, by rw [core.sess]⟩
  | register c msg =>
    have core := handleExit_core cfg b c msg
    rw [core.parked] at hp
    exact Or.inl ⟨hp, by rw [core.sess]⟩
  | insert c i hpc =>
    exact Or.inl ⟨hp, insertSession_sess_of_ne (hrep.parked_ne hp hpc)⟩
  | resume c i q ex _ _ hf =>
    change (b.parked.erase _).lookup k = some p at hp
    rw [GoMap.lookup_delete] at hp
    split_ifs at hp with hk
    have hne : p ≠ q := by
      rintro rfl
      exact hk (hrep.parked_inj hp hf)
    exact Or.inl ⟨hp, resumeState_sess_of_ne hne⟩
  | park c i q hpc _ hd hkey ht =>
    change (b.parked.insert _ _).lookup k = some p at hp
    rw [GoMap.lookup_set] at hp
    split_ifs at hp with hk
    · obtain rfl := Option.some.inj hp
      exact Or.inr ⟨c, i, rfl, ⟨hpc, hd, hkey, ht⟩, rfl, rfl⟩
    · have hne : p ≠ (b.client c).s := (hrep.parked_not_held hp (by rw [hpc]; rfl)).symm
      exact Or.inl ⟨hp, parkState_sess_of_ne hne⟩
  | expire j ok q _ hf =>
    change (b.parked.erase _).lookup k = some p at hp
    rw [GoMap.lookup_delete] at hp
    split_ifs at hp with hk
    exact Or.inl ⟨hp, rfl⟩
  | _ => exact Or.inl ⟨hp, rfl⟩

/-! ### What a move does to a goroutine -/

theorem answered_of_after {pc : ClientPC} (h : pc.phase = .after) : pc.answered = true := by
  cases pc <;> first | rfl | cases h

theorem uncounted_not_answered {pc : ClientPC} (h : pc.uncounted = true) : pc.answered = false := by
  cases pc <;> first | rfl | cases h

theorem answered_update {c d : Conn} {t' : ClientThread} (hd : (b.client d).pc.answered = true)
    (h : (b.client c).pc.answered = true → t'.pc.answered = true) :
    (Function.update b.client c t' d).pc.answered = true := by
  by_cases hdc : d = c
  · subst hdc
    rw [Function.update_self]
    exact h hd
  · rwa [Function.update_of_ne hdc]

theorem Move.answered (hm : Move cfg b a b' o) {d : Conn} (hd : (b.client d).pc.answered = true) :
    (b'.client d).pc.answered = true := by
  cases hm with
  | env _ client => rwa [client]
  | connect c msg hu => exact answered_update hd (by rw [hu.1]; simp [ClientPC.answered])
  | register c msg =>
    rwa [handleExit_client]
  | walk c t' _ client _ _ hw =>
    rw [client]
    exact answered_update hd hw.answered
  | choose c i ex rr hpc | draw c i hpc | alloc c i addr pool hpc | insert c i hpc
  | resume c i p ex hpc => exact answered_update hd (by rw [hpc]; simp [ClientPC.answered])
  | count c i hpc =>
    refine answered_update hd fun ha => ?_
    rw [uncounted_not_answered hpc] at ha
    cases ha
  | park c i q hpc | vanish c i hpc => exact answered_update hd fun _ => rfl
  | close c i q pc' hpc =>
    refine answered_update hd fun _ => ?_
    rcases hpc with ⟨-, rfl⟩ | ⟨-, rfl⟩ <;> rfl
  | expire => exact hd

/-- How a goroutine comes to run its session: it ran it before, has just
inserted it, or has just resumed it. -/
inductive Holding (cfg : Config) (b : State) (a : Action) (b' : State) (c : Conn) : Prop
  | kept (holds : (b.client c).pc.phase = .holds) (s : (b'.client c).s = (b.client c).s)
  | inserted (b'_eq : b' = insertSession b c) (pc : (b.client c).pc = .allocated)
  | resumed (p ex : Conn) (i : Input) (act : a = .client c i) (b'_eq : b' = resumeState b c p ex)
      (pc : (b.client c).pc = .lock) (key : (b.client c).msg.resumeKey ≠ "")
      (may : b.mayResume cfg c p) (online : b.exits.lookup (b.sess p).nodeID = some ex)

theorem holding_other {c d : Conn} {t' : ClientThread}
    (client : b'.client = Function.update b.client c t') (hdc : d ≠ c)
    (hd : (b'.client d).pc.phase = .holds) :
    Holding cfg b a b' d ∧ (b'.client d).user = (b.client d).user := by
  have hsame : b'.client d = b.client d := by rw [client, Function.update_of_ne hdc]
  rw [hsame] at hd
  exact ⟨.kept hd (by rw [hsame]), by rw [hsame]⟩

theorem holding_update {c d : Conn} {t' : ClientThread}
    (client : b'.client = Function.update b.client c t') (hd : (b'.client d).pc.phase = .holds)
    (h : t'.pc.phase = .holds → (b.client c).pc.phase = .holds ∧ t'.s = (b.client c).s ∧
      t'.user = (b.client c).user) :
    Holding cfg b a b' d ∧ (b'.client d).user = (b.client d).user := by
  by_cases hdc : d = c
  · have hnew : b'.client d = t' := by rw [client, hdc, Function.update_self]
    rw [hnew] at hd
    obtain ⟨h1, h2, h3⟩ := h hd
    subst hdc
    exact ⟨.kept h1 (by rw [hnew, h2]), by rw [hnew, h3]⟩
  · exact holding_other client hdc hd

theorem Move.holding (hm : Move cfg b a b' o) {d : Conn} (hd : (b'.client d).pc.phase = .holds) :
    Holding cfg b a b' d ∧ (b'.client d).user = (b.client d).user := by
  cases hm with
  | env _ client => exact ⟨.kept (by rwa [client] at hd) (by rw [client]), by rw [client]⟩
  | connect c msg | choose c i ex rr hpc | draw c i hpc | alloc c i addr pool hpc | park c i q
  | vanish c i => exact holding_update rfl hd (by simp [ClientPC.phase])
  | register c msg =>
    have client := handleExit_client cfg b c msg
    exact ⟨.kept (by rwa [client] at hd) (by rw [client]), by rw [client]⟩
  | walk c t' _ client _ _ hw =>
    refine holding_update client hd fun hp => ?_
    have hb := hw.compat.back hp
    obtain ⟨h1, h2, -⟩ := hw.same (by rw [hb]; decide)
    exact ⟨hb, h2, h1⟩
  | insert c i hpc =>
    by_cases hdc : d = c
    · subst hdc
      exact ⟨.inserted rfl hpc, by simp⟩
    · exact holding_other rfl hdc hd
  | count c i hpc => exact holding_update rfl hd fun _ => ⟨uncounted_holds hpc, rfl, rfl⟩
  | resume c i p ex hpc hk hf hu ht hx =>
    by_cases hdc : d = c
    · subst hdc
      exact ⟨.resumed p ex i rfl rfl hpc hk ⟨hf, hu, ht⟩ hx, by simp⟩
    · exact holding_other rfl hdc hd
  | close c i q pc' hpc =>
    refine holding_update rfl hd ?_
    rcases hpc with ⟨-, rfl⟩ | ⟨-, rfl⟩ <;> simp [ClientPC.phase]
  | expire => exact ⟨.kept hd rfl, rfl⟩

/-! ### Every step continues the history -/

theorem own_of_move (hm : Move cfg b a b' o) {p : Conn} (hp : (b.client p).pc.phase = .holds)
    (hs : (b.client p).s = p) :
    (b'.client p).pc.answered = true ∨ (b'.client p).pc.phase = .holds ∧ (b'.client p).s = p := by
  rcases hm.born (Or.inl hp) with h | h
  · right
    refine ⟨h, ?_⟩
    rcases (hm.holding h).1 with ⟨-, hkept⟩ | ⟨-, hpc⟩ | ⟨q, ex, i, -, -, hpc⟩
    · rw [hkept, hs]
    · rw [hpc] at hp; cases hp
    · rw [hpc] at hp; cases hp
  · exact Or.inl (answered_of_after h)

theorem History.step (h : History cfg tr b) (hinv : Inv b) (hs : step cfg b a = some (b', o)) :
    History cfg (tr ++ [⟨b, a, o, b'⟩]) b' := by
  have hm := step_move hs
  have hrep := hinv.rep
  have hmem : ∀ e ∈ tr, e ∈ tr ++ [⟨b, a, o, b'⟩] := fun e he => List.mem_append_left _ he
  have hlast : (⟨b, a, o, b'⟩ : Event State Action Out) ∈ tr ++ [⟨b, a, o, b'⟩] := by simp
  refine ⟨?_, ?_, ?_, ?_, ?_, ?_⟩
  · intro p hp
    rcases hm.made hp with hp | ⟨hact, hpc, rfl⟩
    · obtain ⟨e, he, hc, hu, hk⟩ := h.made p hp
      have hst := hm.static hrep hp
      rw [hst.id, hst.username, hst.resumeKey]
      exact ⟨e, hmem e he, hc, hu, hk⟩
    · rw [insertSession_sess_self]
      exact ⟨_, hlast, ⟨hact, hpc, rfl⟩, rfl, rfl⟩
  · intro p hp
    rcases hm.made hp with hp | ⟨-, -, rfl⟩
    · rcases h.own p hp with ha | ⟨hph, hself⟩
      · exact Or.inl (hm.answered ha)
      · exact own_of_move hm hph hself
    · right
      simp [ClientPC.phase]
  · intro c hc
    obtain ⟨hhold, huser⟩ := hm.holding hc
    rw [huser]
    rcases hhold with ⟨hph, hsame⟩ | ⟨rfl, hpc⟩ | ⟨p, ex, i, -, rfl, hpc, -, hmay, -⟩
    · have hmade := (hinv.attach.runs c (Or.inl hph)).1
      rw [hsame, (hm.static hrep hmade).username]
      exact h.user c hph
    · have hself : ((insertSession b c).client c).s = c := by simp
      rw [hself, insertSession_sess_self]
      rfl
    · have hself : ((resumeState b c p ex).client c).s = p := by simp
      rw [hself, resumeState_sess_self]
      exact hmay.2.1.symm
  · intro k p hp
    rcases hm.parked hrep hp with ⟨hp, hsame⟩ | ⟨c, i, rfl, hparks, rfl, rfl⟩
    · obtain ⟨e, he, hpk, hnow⟩ := h.parked k p hp
      exact ⟨e, hmem e he, hpk, by rw [hsame]; exact hnow⟩
    · exact ⟨_, hlast, ⟨c, i, rfl, hparks, rfl⟩, by rw [parkState_sess_self]⟩
  · intro c hc
    rcases (hm.holding hc).1 with ⟨hph, hsame⟩ | ⟨rfl, hpc⟩ | ⟨p, ex, i, rfl, rfl, hpc, hk, hmay, hx⟩
    · have hst := hm.static hrep (hinv.attach.runs c (Or.inl hph)).1
      rw [hsame, hst.resumeKey, hst.nodeID]
      exact (h.held c hph).imp_right fun hr => hr.mono _
    · left
      simp
    · right
      obtain ⟨hf, hu, ht⟩ := hmay
      have hself : ((resumeState b c p ex).client c).s = p := by simp
      obtain ⟨e₀, he₀, hpk, hnow⟩ := h.parked _ p hf
      rw [hself, resumeState_sess_self]
      refine ⟨tr, _, [], rfl, ⟨i, rfl⟩, hpc, ⟨?_, hself⟩, (hrep.key _ _ hf).1.symm, ?_, ⟨ex, hx⟩,
        e₀, he₀, hpk, ?_⟩
      · simp
      · rw [(hrep.key _ _ hf).1]; exact hk
      · rw [hnow]; exact ht
  · intro e he c sid ip hann
    rcases List.mem_append.mp he with he | he
    · obtain ⟨p, hp, hid, hip, hn, ha⟩ := h.answered e he c sid ip hann
      have hst := hm.static hrep hp
      exact ⟨p, by rwa [State.Made, hst.id], by rw [hst.id, hid], by rw [hst.clientIP, hip],
        by rw [hst.nodeID, hn], hm.answered ha⟩
    · obtain rfl := List.mem_singleton.mp he
      obtain ⟨mask, mtu, ice, ho⟩ := hann
      obtain ⟨-, hpc, rfl, rfl, rfl⟩ := connectOK_written hinv.replies (says_of_step hinv.timers hs) ho
      have hph : (b.client c).pc.phase = .holds := by rw [hpc]; rfl
      obtain ⟨hmade, -, hn⟩ := hinv.attach.runs c (Or.inl hph)
      refine ⟨_, hmade, rfl, rfl, hn.symm, ?_⟩
      -- the creator has been answered: it is this goroutine, or it has given the session up
      by_cases hself : (b.client c).s = c
      · rw [hself]
        simp [ClientPC.answered]
      · rcases h.own _ hmade with ha | ⟨hph', hs'⟩
        · exact hm.answered ha
        · exact absurd (hrep.held_inj hph' hph hs') hself

theorem History.of_run (h : (machine cfg users).Run tr b) : History cfg tr b := by
  induction h with
  | nil =>
    refine ⟨?_, ?_, ?_, ?_, ?_, ?_⟩
    · exact fun p hp => absurd rfl hp
    · exact fun p hp => absurd rfl hp
    · exact fun c hc => by cases hc
    · exact fun k p hp => by cases hp
    · exact fun c hc => by cases hc
    · exact fun e he => by cases he
  | snoc hr hs ih => exact ih.step (Inv.of_run hr) hs

/-- **A session stays with its user, its address and its node, and comes
back by a resume only.** The user is the one of that name; it is one and the
same record while the user table stays as it is. -/
theorem session_ownership (h : (machine cfg users).Run tr b) :
    (∀ tr₁ e tr₂ c sid ip, tr = tr₁ ++ e :: tr₂ → Announces e c sid ip →
      ∃ e₀ ∈ tr₁, ∃ p, Creates e₀ p sid ∧
        (e.pre.client c).user.username = (e₀.pre.client p).user.username ∧
        (users.Pointed → users.Names → (∀ e' ∈ tr₁, ∀ t, e'.act ≠ .users t) →
          (e.pre.client c).user = (e₀.pre.client p).user)) ∧
    (∀ e ∈ tr, ∀ e' ∈ tr, ∀ c c' sid ip ip', Announces e c sid ip → Announces e' c' sid ip' →
      ip = ip' ∧
        (e.pre.node (e.pre.client c).ex).nodeID = (e'.pre.node (e'.pre.client c').ex).nodeID) ∧
    ∀ tr₁ e tr₂ e' tr₃ c c' sid ip ip', tr = (tr₁ ++ e :: tr₂) ++ e' :: tr₃ →
      Announces e c sid ip → Announces e' c' sid ip' →
      ∃ e₀ ∈ tr₁ ++ e :: tr₂, ∃ p, Creates e₀ p sid ∧
        Resumed cfg (tr₁ ++ e :: tr₂) c' p (e₀.pre.client p).msg.resumeKey
          (e'.pre.node (e'.pre.client c').ex).nodeID := by
  refine ⟨?_, ?_, ?_⟩
  · rintro tr₁ e tr₂ c sid ip htr ⟨mask, mtu, ice, ho⟩
    obtain ⟨hr, hs⟩ := h.at_event htr
    have hinv := Inv.of_run hr
    have hh := History.of_run hr
    obtain ⟨-, hpc, -, rfl, -⟩ := connectOK_written hinv.replies (says_of_step hinv.timers hs) ho
    have hph : (e.pre.client c).pc.phase = .holds := by rw [hpc]; rfl
    obtain ⟨e₀, he₀, hc, hu, -⟩ := hh.made _ (hinv.attach.runs c (Or.inl hph)).1
    have hname := (hh.user c hph).trans hu.symm
    refine ⟨e₀, he₀, _, hc, hname, fun hp hn hno => ?_⟩
    exact user_unique hr hp hn hno he₀ (by rw [hpc]; rfl) (by rw [hc.2.1]; rfl) hname
  · intro e he e' he' c c' sid ip ip' hann hann'
    have hh := History.of_run h
    obtain ⟨p, hp, hid, hip, hn, -⟩ := hh.answered e he c sid ip hann
    obtain ⟨p', hp', hid', hip', hn', -⟩ := hh.answered e' he' c' sid ip' hann'
    obtain rfl := (Rep.of_run h).id_inj p p' hp (hid.trans hid'.symm)
    exact ⟨hip.symm.trans hip', hn.symm.trans hn'⟩
  · rintro tr₁ e tr₂ e' tr₃ c c' sid ip ip' htr hann ⟨mask, mtu, ice, ho⟩
    obtain ⟨hr, hs⟩ := h.at_event htr
    have hinv := Inv.of_run hr
    have hh := History.of_run hr
    obtain ⟨-, hpc, -, rfl, -⟩ := connectOK_written hinv.replies (says_of_step hinv.timers hs) ho
    have hph : (e'.pre.client c').pc.phase = .holds := by rw [hpc]; rfl
    obtain ⟨hmade, -, hnode⟩ := hinv.attach.runs c' (Or.inl hph)
    obtain ⟨p, hp, hid, -, -, ha⟩ := hh.answered e (by simp) c _ ip hann
    obtain rfl := hinv.rep.id_inj p _ hp hid
    obtain ⟨e₀, he₀, hc, -, hk⟩ := hh.made _ hmade
    refine ⟨e₀, he₀, _, hc, ?_⟩
    rw [hk, hnode]
    refine (hh.held c' hph).resolve_left fun hself => ?_
    -- the creator was answered before and does not answer again
    rw [hself, hpc] at ha
    cases ha

theorem aliceStore_pointed : aliceStore.Pointed := by
  intro h r hr
  have hr : ((∅ : GoMap String ℕ).insert "tok" 0).lookup h = some r := hr
  rw [GoMap.lookup_set] at hr
  split_ifs at hr with hh
  · exact ⟨⟨"1", by rw [← Option.some.inj hr]; rfl⟩, hh.symm, by rw [hh]; decide⟩
  · cases hr

theorem aliceStore_names : aliceStore.Names := by
  have hone : ∀ id x, aliceStore.entry id = some x → id = "1" := by
    intro id x hx
    obtain ⟨r, hr, -⟩ := Userstore.Table.entry_eq_some.mp hx
    have hr : ((∅ : GoMap String ℕ).insert "1" 0).lookup id = some r := hr
    rw [GoMap.lookup_set] at hr
    split_ifs at hr with hid
    · exact hid
    · cases hr
  exact fun _ id id' x x' hx hx' _ _ => (hone id x hx).trans (hone id' x' hx').symm

/-- A client drops and comes back on another connection, as the same user. -/
theorem session_ownership_resumed : ∃ tr b, (machine {} aliceStore).Run tr b ∧
    (∃ e ∈ tr, Announces e 1 1 "10.99.0.2") ∧
    (∃ e ∈ tr, Announces e 2 1 "10.99.0.2" ∧ ∃ e₀ ∈ tr, ∃ p, Creates e₀ p 1 ∧
      (e.pre.client 2).user = (e₀.pre.client p).user) ∧
    ∃ e₀ ∈ tr, ∃ p, Creates e₀ p 1 ∧
      ∃ n, Resumed {} tr 2 p (e₀.pre.client p).msg.resumeKey n := by
  obtain ⟨tr, b, hr, ⟨e, he, ho⟩, hno, ⟨b', o⟩, hs, ho'⟩ := (machine {} aliceStore).exists_run
    (.register 0 (node "e1" "us" 0) :: joins 1 (aliceConnect "us" "k") ++
      [.drop 1 .other, .client 1 {}, .connect 2 (aliceConnect "us" "k")] ++
      List.replicate 4 (.client 2 {}))
    (P := fun r =>
      (∃ e ∈ r.1, Out.ctrl 1 (.connectOK 1 "10.99.0.2" "255.255.255.0" 1200 {}) ∈ e.out) ∧
      (∀ e ∈ r.1, (match e.act with | .users _ => false | _ => true) = true) ∧
      ∃ x ∈ step {} r.2 (.client 2 {}),
        Out.ctrl 2 (.connectOK 1 "10.99.0.2" "255.255.255.0" 1200 {}) ∈ x.2)
    (by decide +kernel)
  have hstep : (machine {} aliceStore).step b (.client 2 {}) = some (b', o) := hs
  have hrun := hr.snoc hstep
  obtain ⟨e₁, he₁, q, hq, -, huser⟩ := (session_ownership hrun).1 tr _ [] 2 1 _ rfl ⟨_, _, _, ho'⟩
  have hsame := huser aliceStore_pointed aliceStore_names fun e' he' t ha => by
    have := hno e' he'
    rw [ha] at this
    cases this
  obtain ⟨tr₁, tr₂, rfl⟩ := List.append_of_mem he
  obtain ⟨e₀, he₀, p, hc, hres⟩ := (session_ownership hrun).2.2 tr₁ e tr₂ _ [] 1 2 1 _ _ rfl
    ⟨_, _, _, ho⟩ ⟨_, _, _, ho'⟩
  exact ⟨_, b', hrun, ⟨e, by simp, _, _, _, ho⟩,
    ⟨_, List.mem_append_right _ (List.mem_singleton_self _), ⟨_, _, _, ho'⟩,
      e₁, List.mem_append_left _ he₁, q, hq, hsame⟩,
    e₀, List.mem_append_left _ he₀, p, hc, _, hres.mono _⟩

end
end Broker
end Revquic
