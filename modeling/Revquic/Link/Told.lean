/-
# What the exit is told

What an exit knows of the sessions is a function from ids to nothing,
"active" or "suspended". Three messages are about a session, and change it at
that session's id; `controlLoop` does to the tables what they mean. `Heard`
says, once, what a step of the broker tells the exit of any one of its
sessions, and who still has to write about it afterwards.

Key definitions: `Standing`, `tell`, `standing`, `Heard`.
Key theorems: `standing_control`, `heard_of_step`.
-/
import Revquic.Link.Step

namespace Revquic
namespace Link

open Lib Netip Proto Broker

/-! ### What an exit knows -/

/-- For every session id: unknown, or known and suspended or not. -/
abbrev Standing := ℕ → Option Bool

/-- The effect of a message. -/
def tell (σ : Standing) : Control → Standing
  | .sessionStart sid _ _ _ _ => Function.update σ sid (some false)
  | .sessionSuspend sid => Function.update σ sid ((σ sid).map fun _ => true)
  | .sessionEnd sid => Function.update σ sid none
  | _ => σ

/-- The session a message is about. -/
def about : Control → Option ℕ
  | .sessionStart sid _ _ _ _ | .sessionSuspend sid | .sessionEnd sid => some sid
  | _ => none

/-- What the tables say. -/
def standing (t : Exit.Tables) : Standing := fun sid =>
  (t.sessions.lookup sid).map fun p => (t.es p).suspended

/-- The address of a `MsgSessionStart` is one that `ParseAddr` accepts. -/
def Parses : Control → Prop
  | .sessionStart _ clientIP _ _ _ => ∃ ip, parseAddr clientIP = some ip
  | _ => True

theorem tell_of_about_ne {σ : Standing} {m : Control} {sid : ℕ} (h : about m ≠ some sid) :
    tell σ m sid = σ sid := by
  cases m <;> first | rfl | exact Function.update_of_ne (fun he => h (congrArg some he.symm)) _ _

section
variable {t : Exit.Tables}

/-- A flag of one session changes. -/
theorem standing_setES (hf : t.Fresh) {sid : ℕ} {p : Exit.Ptr} {s : Exit.ExitSession}
    (hp : t.sessions.lookup sid = some p) :
    standing (t.setES p s) = Function.update (standing t) sid (some s.suspended) := by
  funext i
  by_cases hi : i = sid
  · subst hi
    simp [standing, Exit.Tables.setES, hp]
  · rw [Function.update_of_ne hi]
    change (t.sessions.lookup i).map _ = (t.sessions.lookup i).map _
    cases hq : t.sessions.lookup i with
    | none => rfl
    | some q =>
      have hqp : q ≠ p := by
        rintro rfl
        exact hi (hf.inj hq hp)
      simp [Exit.Tables.setES, hqp]

theorem standing_finishAdd (hf : t.Fresh) {sid : ℕ} {clientIP : String} {ice : IceServers}
    {ip : Addr} : standing (t.finishAdd sid clientIP ice ip) =
      Function.update (standing t) sid (some false) := by
  funext i
  change ((t.sessions.insert sid t.next).lookup i).map _ = _
  rw [GoMap.lookup_set]
  by_cases hi : i = sid
  · subst hi
    simp [Exit.Tables.finishAdd]
  · rw [Function.update_of_ne hi, if_neg hi]
    change _ = (t.sessions.lookup i).map _
    cases hq : t.sessions.lookup i with
    | none => rfl
    | some q => simp [Exit.Tables.finishAdd, hf.ne_next hq]

theorem standing_removeSession (sid : ℕ) :
    standing (t.removeSession sid) = Function.update (standing t) sid none := by
  funext i
  unfold Exit.Tables.removeSession
  split
  · rename_i hnone
    by_cases hi : i = sid
    · subst hi
      simp [standing, hnone]
    · rw [Function.update_of_ne hi]
  · change ((t.sessions.erase sid).lookup i).map _ = _
    rw [GoMap.lookup_delete]
    by_cases hi : i = sid
    · simp [hi]
    · rw [Function.update_of_ne hi, if_neg hi]
      rfl

/-- **`controlLoop` does to the tables what the message means.** -/
theorem standing_control (hf : t.Fresh) {m : Control} (hm : Parses m) :
    standing (t.control m) = tell (standing t) m := by
  cases m with
  | sessionStart sid clientIP mask mtu ice =>
    obtain ⟨ip, hip⟩ := hm
    simp only [Exit.Tables.control, Exit.Tables.addSession, Exit.Tables.beginAdd, hip, tell]
    cases hl : t.sessions.lookup sid with
    | none => exact standing_finishAdd hf
    | some p => exact standing_setES hf hl
  | sessionSuspend sid =>
    simp only [Exit.Tables.control, Exit.Tables.suspendSession, tell]
    cases hl : t.sessions.lookup sid with
    | none =>
      funext i
      by_cases hi : i = sid
      · subst hi
        simp [standing, hl]
      · rw [Function.update_of_ne hi]
    | some p =>
      rw [standing_setES hf hl]
      simp [standing, hl]
  | sessionEnd sid => exact standing_removeSession sid
  | _ => rfl

end

/-! ### Reading -/

theorem Reader.registered_read (r : Reader) (m : Control) : (r.read m).registered = true := by
  unfold Reader.read
  split
  · assumption
  · rfl

theorem Reader.fresh_read {r : Reader} (h : r.Fresh) (m : Control) : (r.read m).Fresh := by
  unfold Reader.read
  split
  · exact h.control m
  · exact h

theorem Reader.fresh_foldl {r : Reader} (h : r.Fresh) {ms : List Control} :
    (ms.foldl Reader.read r).Fresh := by
  induction ms generalizing r with
  | nil => exact h
  | cons m ms ih => exact ih (r.fresh_read h m)

/-- Every message is an answer to `Register`. -/
theorem Reader.registered_foldl {r : Reader} {ms : List Control}
    (h : r.registered = true ∨ ms ≠ []) : (ms.foldl Reader.read r).registered = true := by
  induction ms generalizing r with
  | nil => exact h.resolve_right fun h => h rfl
  | cons m ms ih => exact ih (Or.inl (r.registered_read m))

/-- Once the exit has its answer, it takes every message for what it is. -/
theorem standing_read {r : Reader} (hf : r.Fresh) {m : Control} (hm : Parses m)
    (hr : about m ≠ none → r.registered = true) :
    standing (r.read m).toTables = tell (standing r.toTables) m := by
  unfold Reader.read
  split
  · exact standing_control hf hm
  · rename_i hnot
    have hab : about m = none := by
      by_contra h
      exact hnot (hr h)
    funext sid
    exact (tell_of_about_ne (by rw [hab]; nofun)).symm

theorem standing_foldl {r : Reader} (hf : r.Fresh) {ms : List Control}
    (hms : ∀ m ∈ ms, Parses m ∧ (about m ≠ none → r.registered = true)) :
    standing (ms.foldl Reader.read r).toTables = ms.foldl tell (standing r.toTables) := by
  induction ms generalizing r with
  | nil => rfl
  | cons m ms ih =>
    obtain ⟨hm, hr⟩ := hms m List.mem_cons_self
    rw [List.foldl_cons, List.foldl_cons, ← standing_read hf hm hr]
    exact ih (r.fresh_read hf m)
      fun m' hm' => ⟨(hms m' (List.mem_cons_of_mem _ hm')).1, fun _ => r.registered_read m⟩

/-! ### What the exit hears of one session -/

/-- A goroutine or a timer still has to write the `MsgSessionEnd` of session
`p`. -/
def endOwed (b : Broker.State) (p : Conn) : Prop :=
  (∃ c, ((b.client c).pc = .ended ∨ (b.client c).pc = .closed) ∧ (b.client c).s = p) ∨
    ∃ k, (b.timer k).pc = .write ∧ (b.timer k).s = p

section
variable {cfg : Config} {ex : Conn} {n : String} {b b' : Broker.State} {a : Broker.Action}
  {o : List Out} {σ : Standing}

/-- What a step tells the exit of session `p`: nothing, or that it starts, is
suspended or ends. `x` and `x'` are what the exit knows of it before and
after. -/
inductive Heard (b b' : Broker.State) (p : Conn) (x x' : Option Bool) : Prop
  | nothing (same : x' = x)
      (told : ∀ c, (b'.client c).pc.told = true → (b'.client c).s = p →
        (b.client c).pc.told = true ∧ (b.client c).s = p)
      (suspend : ∀ c, (b.client c).pc = .parked → (b.client c).s = p → (b'.client c).pc = .parked)
      (owed : endOwed b p → endOwed b' p)
  | start (c : Conn) (active : x' = some false) (core : SameCore b b')
      (pc : (b.client c).pc = .start) (s : (b.client c).s = p)
  | suspend (c : Conn) (suspended : x' = x.map fun _ => true) (core : SameCore b b')
      (pc : (b.client c).pc = .parked) (s : (b.client c).s = p)
      (wrote : (b'.client c).pc = .done) (others : ∀ d, d ≠ c → b'.client d = b.client d)
      (owed : endOwed b p → endOwed b' p)
  | finish (dead : ¬ b.Live p) (gone : x' = none)

theorem endOwed_client {p c : Conn} {t' : ClientThread}
    (client : b'.client = Function.update b.client c t') (timer : b'.timer = b.timer)
    (hc : (b.client c).s = p → (b.client c).pc ≠ .ended ∧ (b.client c).pc ≠ .closed)
    (h : endOwed b p) : endOwed b' p := by
  rcases h with ⟨d, hd, hs⟩ | ⟨k, hk, hs⟩
  · have hdc : d ≠ c := by
      rintro rfl
      exact hd.elim (hc hs).1 (hc hs).2
    refine Or.inl ⟨d, ?_⟩
    rw [client, Function.update_of_ne hdc]
    exact ⟨hd, hs⟩
  · refine Or.inr ⟨k, ?_⟩
    rw [timer]
    exact ⟨hk, hs⟩

/-- One goroutine moves and the exit hears nothing of `p`: the goroutine runs
another session, or it has nothing to say. -/
theorem Heard.move {p c : Conn} {t' : ClientThread} {x x' : Option Bool} (hx : x' = x)
    (client : b'.client = Function.update b.client c t') (timer : b'.timer = b.timer)
    (hs : t'.s = (b.client c).s)
    (h : (b.client c).s = p → (t'.pc.told = true → (b.client c).pc.told = true) ∧
      (b.client c).pc.owes = false) : Heard b b' p x x' := by
  refine .nothing hx (fun d hd hp => ?_) (fun d hd hp => ?_) (endOwed_client client timer fun hp => ?_)
  · rw [client] at hd hp
    by_cases hdc : d = c
    · subst hdc
      rw [Function.update_self] at hd hp
      exact ⟨(h (hs ▸ hp)).1 hd, hs ▸ hp⟩
    · rw [Function.update_of_ne hdc] at hd hp
      exact ⟨hd, hp⟩
  · rw [client, Function.update_of_ne]
    · exact hd
    · rintro rfl
      have := (h hp).2
      rw [hd] at this
      cases this
  · have := (h hp).2
    constructor <;> (intro he; rw [he] at this; cases this)

/-- The goroutines that have to write keep their place. -/
theorem Heard.quiet {p : Conn} {x x' : Option Bool} (hx : x' = x) (hm : Move cfg b a b' o)
    (told : ∀ c, (b'.client c).pc.told = true → (b.client c).pc.told = true)
    (owes : ∀ c, (b.client c).pc.owes = true → b'.client c = b.client c)
    (timer : ∀ k, (b.timer k).pc = .write → b'.timer k = b.timer k) : Heard b b' p x x' := by
  refine .nothing hx (fun c hc hp => ⟨told c hc, ?_⟩) (fun c hc _ => ?_) ?_
  · have hph := told_holds (told c hc)
    rcases (hm.holding (told_holds hc)).1 with ⟨-, hs⟩ | ⟨-, hpc⟩ | ⟨q, r, i, -, -, hpc⟩
    · rw [← hs, hp]
    · rw [hpc] at hph; cases hph
    · rw [hpc] at hph; cases hph
  · rw [owes c (by rw [hc]; rfl), hc]
  · rintro (⟨c, hc, hs⟩ | ⟨k, hk, hs⟩)
    · refine Or.inl ⟨c, ?_⟩
      rw [owes c (by rcases hc with hc | hc <;> rw [hc] <;> rfl)]
      exact ⟨hc, hs⟩
    · refine Or.inr ⟨k, ?_⟩
      rw [timer k hk]
      exact ⟨hk, hs⟩

/-! ### What a step tells the exit -/

theorem toExit_written (ok : Bool) (d : Conn) (m : Control) :
    toExit ex (written ok d m) = if ok = true ∧ d = ex then [m] else [] := by
  cases ok
  · rfl
  · by_cases hd : d = ex <;> simp [toExit, written, hd]

theorem about_of_side {m : Control} (hm : isSide m = true) : about m = none := by
  cases m <;> first | rfl | cases hm

theorem about_of_refusal {m : Control} (hm : isRefusal m = true) : about m = none := by
  cases m <;> first | rfl | cases hm

theorem mem_toExit {m : Control} (h : m ∈ toExit ex o) : Out.ctrl ex m ∈ o := by
  obtain ⟨x, hx, hm⟩ := List.mem_filterMap.mp h
  cases x with
  | ctrl d m' =>
    simp only at hm
    split_ifs at hm with hd
    obtain rfl := Option.some.inj hm
    exact hd ▸ hx
  | _ => cases hm

/-- Nothing is written about the session. -/
theorem foldl_tell_other {sid : ℕ} (h : ∀ m, Out.ctrl ex m ∈ o → about m ≠ some sid) :
    (toExit ex o).foldl tell σ sid = σ sid := by
  have h' : ∀ m ∈ toExit ex o, about m ≠ some sid := fun m hm => h m (mem_toExit hm)
  generalize toExit ex o = ms at h'
  induction ms generalizing σ with
  | nil => rfl
  | cons m ms ih =>
    rw [List.foldl_cons, ih fun m' hm' => h' m' (List.mem_cons_of_mem _ hm')]
    exact tell_of_about_ne (h' m List.mem_cons_self)

theorem foldl_tell_written {ok : Bool} {d : Conn} {m : Control} {sid : ℕ}
    (h : about m ≠ some sid) : (toExit ex (written ok d m)).foldl tell σ sid = σ sid := by
  refine foldl_tell_other fun m' hm' => ?_
  obtain ⟨-, -, rfl⟩ := mem_written hm'
  exact h

section
variable (hinv : Inv b) (hup : Up ex n b)
include hinv hup

theorem runs_on {c : Conn} (hc : (b.client c).pc.runs) :
    (b.client c).ex = ex ↔ (b.sess (b.client c).s).nodeID = n :=
  hup.registers (hinv.attach.runs c hc).2

/-- A session that dies leaves someone who has to tell the exit, unless it is
overwritten. -/
theorem owed_or_overwritten (hm : Move cfg b a b' o) {p : Conn} (hp : b.Live p)
    (hn : (b.sess p).nodeID = n) (hp' : ¬ b'.Live p) :
    endOwed b' p ∨ ∃ c i, a = .client c i ∧ b' = parkState cfg b c ∧ b.parks cfg c ∧
      b.parked.lookup (b.sess (b.client c).s).resumeKey = some p := by
  cases hm.dies hinv.rep hp hp' with
  | closed c pc' h hs hpc =>
    subst h
    refine Or.inl (Or.inl ⟨c, ?_, ?_⟩)
    · simp only [closeState_client, Function.update_self]
      exact hpc.symm.imp And.right And.right
    · simpa using hs
  | expired k h =>
    subst h
    have hl : b.exits.lookup (b.sess p).nodeID = some ex := by
      have hreg := hinv.attach.sess p (hinv.rep.made p hp)
      rw [hn]
      exact hup.listed ((hup.registers hreg).2 hn ▸ hreg.1)
    exact Or.inl (Or.inr
      ⟨k, by simp [hl], by simp⟩)
  | overwritten c i h h' hparks hkey => exact Or.inr ⟨c, i, h, h', hparks, hkey⟩

/-- Of every session of its node id the exit hears the right thing. -/
theorem heard_of_step (hd : Duties b) (hs : Broker.step cfg b a = some (b', o)) (hst : StaysUp ex n b a)
    {p : Conn} (hp : b.Made p) (hn : (b.sess p).nodeID = n) :
    Heard b b' p (σ (b.sess p).id) ((toExit ex o).foldl tell σ (b.sess p).id) := by
  have hm := step_move hs
  have hid : ∀ q, q ≠ p → some (b.sess q).id ≠ some (b.sess p).id :=
    fun q hq he => hq (hinv.rep.id_inj p q hp (Option.some.inj he).symm).symm
  cases says_of_step hinv.timers hs with
  | quiet side told owes timer =>
    refine .quiet (foldl_tell_other fun m hm => ?_) hm told owes fun k hk => timer k (Or.inl hk)
    rw [about_of_side (side _ m hm)]
    nofun
  | welcome c ok hpc =>
    exact .quiet (foldl_tell_written nofun) hm (fun _ h => h) (fun _ _ => rfl) fun _ _ => rfl
  | reply c i hpc =>
    refine .move (foldl_tell_written ?_) rfl rfl rfl fun _ => ⟨nofun, by rw [hpc]; rfl⟩
    rw [about_of_refusal (hinv.replies c hpc)]
    nofun
  | connectOK c i hpc =>
    exact .move (foldl_tell_written nofun) rfl rfl rfl fun _ => ⟨fun _ => by rw [hpc]; rfl, by rw [hpc]; rfl⟩
  | start c i hpc =>
    by_cases hq : (b.client c).s = p
    · have hex := (runs_on hinv hup (c := c) (Or.inl (by rw [hpc]; rfl))).2 (by rw [hq, hn])
      cases hok : i.ok with
      | false =>
        refine .move rfl rfl rfl rfl fun _ => ⟨?_, by rw [hpc]; rfl⟩
        simp [ClientPC.told]
      | true =>
        refine .start c ?_ ⟨rfl, rfl, rfl, rfl, rfl⟩ hpc hq
        rw [toExit_written, if_pos ⟨rfl, hex⟩, hq]
        exact Function.update_self _ _ _
    · exact .move (foldl_tell_written (hid _ hq)) rfl rfl rfl fun h => absurd h hq
  | suspend c i hpc =>
    have howes : (b.client c).pc.owes = true := by rw [hpc]; rfl
    by_cases hq : (b.client c).s = p
    · have hex := (runs_on hinv hup (c := c) (Or.inr howes)).2 (by rw [hq, hn])
      refine .suspend c ?_ ⟨rfl, rfl, rfl, rfl, rfl⟩ hpc hq (by simp)
        (fun _ hdc => Function.update_of_ne hdc _ _) (endOwed_client rfl rfl fun _ => by rw [hpc]; decide)
      rw [toExit_written, if_pos ⟨hst howes hex, hex⟩, hq]
      exact Function.update_self _ _ _
    · exact .move (foldl_tell_written (hid _ hq)) rfl rfl rfl fun h => absurd h hq
  | finish c i pc' hpc =>
    have howes : (b.client c).pc.owes = true := by
      rcases hpc with ⟨hpc, -⟩ | ⟨hpc, -⟩ <;> rw [hpc] <;> rfl
    by_cases hq : (b.client c).s = p
    · have hex := (runs_on hinv hup (c := c) (Or.inr howes)).2 (by rw [hq, hn])
      refine .finish (hq ▸ hd.ending c (hpc.imp And.left And.left)) ?_
      rw [toExit_written, if_pos ⟨hst howes hex, hex⟩, hq]
      exact Function.update_self _ _ _
    · exact .move (foldl_tell_written (hid _ hq)) rfl rfl rfl fun h => absurd h hq
  | expire k ok q hpc =>
    refine .quiet rfl hm (fun _ h => h) (fun _ _ => rfl) fun j hj => Function.update_of_ne ?_ _ _
    rintro rfl
    rw [hpc] at hj
    cases hj
  | expired k ok hpc =>
    obtain ⟨-, hdead, hsid, r, hr, hreg⟩ := hd.expired k hpc
    simp only [hr]
    by_cases hq : (b.timer k).s = p
    · have hex : r = ex := (hup.registers hreg).2 (by rw [hq, hn])
      refine .finish (hq ▸ hdead) ?_
      rw [toExit_written, if_pos ⟨hst hpc (by rw [hr, hex]), hex⟩, hsid, hq]
      exact Function.update_self _ _ _
    · refine .nothing (foldl_tell_written (hsid ▸ hid _ hq)) (fun c h1 h2 => ⟨h1, h2⟩) (fun c h1 _ => h1) ?_
      rintro (h | ⟨j, hj, hjs⟩)
      · exact Or.inl h
      · have hjk : j ≠ k := by
          rintro rfl
          exact hq hjs
        refine Or.inr ⟨j, ?_⟩
        change (Function.update b.timer k _ j).pc = _ ∧ (Function.update b.timer k _ j).s = _
        rw [Function.update_of_ne hjk]
        exact ⟨hj, hjs⟩

end

/-- What is written to the exit about a session names a session of its node
id, with an address that it can parse. -/
structure Proper (n : String) (b : Broker.State) (m : Control) : Prop where
  parses : Parses m
  known : ∀ sid, about m = some sid → ∃ p, b.Made p ∧ (b.sess p).id = sid ∧ (b.sess p).nodeID = n

theorem proper_of_about {m : Control} (hp : Parses m) (h : about m = none) : Proper n b m :=
  ⟨hp, fun sid hsid => by rw [h] at hsid; cases hsid⟩

theorem parses_of_about {m : Control} (h : about m = none) : Parses m := by
  cases m <;> trivial

theorem proper_of_step (hinv : Inv b) (hd : Duties b) (ha : Addressed b) (hup : Up ex n b)
    (hs : Broker.step cfg b a = some (b', o)) {m : Control} (hm : Out.ctrl ex m ∈ o) :
    Proper n b m := by
  have hruns : ∀ {c : Conn}, (b.client c).pc.runs → ex = (b.client c).ex →
      b.Made (b.client c).s ∧ (b.sess (b.client c).s).nodeID = n := fun hc he =>
    ⟨(hinv.attach.runs _ hc).1, (runs_on hinv hup hc).1 he.symm⟩
  cases says_of_step hinv.timers hs with
  | quiet side =>
    have := about_of_side (side _ m hm)
    exact proper_of_about (parses_of_about this) this
  | welcome c ok | connectOK c i =>
    obtain ⟨-, -, rfl⟩ := mem_written hm
    exact proper_of_about trivial rfl
  | reply c i hpc =>
    obtain ⟨-, -, rfl⟩ := mem_written hm
    have := about_of_refusal (hinv.replies c hpc)
    exact proper_of_about (parses_of_about this) this
  | start c i hpc =>
    obtain ⟨-, he, rfl⟩ := mem_written hm
    obtain ⟨h1, h2⟩ := hruns (Or.inl (by rw [hpc]; rfl)) he
    refine ⟨⟨_, ha.parse h1⟩, fun sid hsid => ⟨_, h1, ?_, h2⟩⟩
    exact Option.some.inj hsid
  | suspend c i hpc =>
    obtain ⟨-, he, rfl⟩ := mem_written hm
    obtain ⟨h1, h2⟩ := hruns (Or.inr (by rw [hpc]; rfl)) he
    exact ⟨trivial, fun sid hsid => ⟨_, h1, Option.some.inj hsid, h2⟩⟩
  | finish c i pc' hpc =>
    obtain ⟨-, he, rfl⟩ := mem_written hm
    obtain ⟨h1, h2⟩ := hruns (Or.inr (by rcases hpc with ⟨hpc, -⟩ | ⟨hpc, -⟩ <;> rw [hpc] <;> rfl)) he
    exact ⟨trivial, fun sid hsid => ⟨_, h1, Option.some.inj hsid, h2⟩⟩
  | expire k ok p =>
    cases List.mem_singleton.mp hm
  | expired k ok hpc =>
    obtain ⟨h1, -, hsid, r, hr, hreg⟩ := hd.expired k hpc
    rw [hr] at hm
    obtain ⟨-, he, rfl⟩ := mem_written hm
    exact ⟨trivial, fun sid hsid' => ⟨_, h1, hsid ▸ Option.some.inj hsid', (hup.registers hreg).1 he.symm⟩⟩

end
end Link
end Revquic
