/-
# Who gets past `RequireToken`

The map of sessions forgets a session that has expired only when it is used,
and a login may overwrite one by drawing its token again. Still a request
passes exactly if it has the bootstrap token, or a token whose last session
has not expired.

The check and the handler are two steps of a request. A change of the user
store still goes back to such a check, and through it to the password of an
administrator.

Key definitions: `Stepped`, `Current`, `Access`, `Vouched`, `Backed`.
Key theorems: `access_iff`, `change_traced`.
-/
import Revquic.Adminserver
import Revquic.Broker.Window

namespace Revquic
namespace Adminserver

open Lib
open Broker (Conn Out)

/-! ### What a step can do -/

section
variable {cfg : Config} {users : Userstore.Table} {s s' : State} {a : Action} {o : List Out}
  {tr : List (Event State Action Out)} {tok : String}

/-- One step: what it requires, leaves and puts out. -/
inductive Stepped (cfg : Config) (s : State) : Action → State → List Out → Prop
  | broker (a : Broker.Action) (b' : Broker.State) (o : List Out) (other : ofBroker a = true)
      (step : Broker.step cfg.broker s.broker a = some (b', o)) :
      Stepped cfg s (.broker a) { s with broker := b' } o
  | arrive (n : ℕ) (r : Request) (pc : (s.req n).pc = .idle) :
      Stepped cfg s (.arrive n r)
        { s with req := Function.update s.req n { pc := accept r, req := r } } []
  | pass (n : ℕ) (pc : (s.req n).pc = .check) (tok : (s.req n).req.token ≠ "")
      (ok : (validate cfg s.sessions s.broker.now (s.req n).req.token).1 = true) :
      Stepped cfg s (.check n) (s.setReq n .handle) []
  | refuse (n : ℕ) (m : GoMap String SessionEntry) (pc : (s.req n).pc = .check)
      (ok : (s.req n).req.token = "" ∧ m = s.sessions ∨
        (s.req n).req.token ≠ "" ∧
          validate cfg s.sessions s.broker.now (s.req n).req.token = (false, m)) :
      Stepped cfg s (.check n) ({ s with sessions := m }.setReq n (.done .unauthorized)) []
  | handle (n : ℕ) (i : Input) (t : Userstore.Table) (reply : Reply) (pc : (s.req n).pc = .handle)
      (fresh : drawsFresh s.broker.users (s.req n).req i)
      (eq : respond cfg s.broker (s.req n).req i = (t, reply)) :
      Stepped cfg s (.handle n i) ((s.setUsers t).setReq n (.done reply)) []
  | verify (n : ℕ) (pc : (s.req n).pc = .verify) :
      Stepped cfg s (.verify n) (s.setReq n (verify cfg (s.req n).req)) []
  | issue (n : ℕ) (tok role : String) (pc : (s.req n).pc = .issue role) (new : tok ≠ "") :
      Stepped cfg s (.issue n tok) (s.setReq n (.insert tok role (s.broker.now + sessionTTL))) []
  | insert (n : ℕ) (tok role : String) (exp : ℕ) (pc : (s.req n).pc = .insert tok role exp) :
      Stepped cfg s (.insert n)
        ({ s with sessions := s.sessions.insert tok ⟨role, exp⟩ }.setReq n
          (.done (.session tok role exp))) []

/-- A session that is found valid stays. -/
theorem validate_true {m : GoMap String SessionEntry} {now : ℕ}
    (h : (validate cfg m now tok).1 = true) : (validate cfg m now tok).2 = m := by
  unfold validate valid at h ⊢
  split_ifs at h ⊢
  · rfl
  · split
    · rfl
    · rename_i e he
      rw [he] at h
      dsimp only at h
      split_ifs at h with hexp
      rw [if_neg hexp]

theorem stepped_of_step (hs : step cfg s a = some (s', o)) : Stepped cfg s a s' o := by
  cases a with
  | broker a =>
    simp only [step] at hs
    split_ifs at hs with ha
    obtain ⟨⟨b', o'⟩, hstep, hx⟩ := Option.map_eq_some_iff.mp hs
    obtain ⟨rfl, rfl⟩ := Prod.mk.inj hx
    exact .broker a b' o' ha hstep
  | arrive n r =>
    simp only [step] at hs
    split_ifs at hs with hpc
    cases hs
    exact .arrive n r hpc
  | check n =>
    simp only [step] at hs
    split_ifs at hs with hpc htok hv
    · cases hs
      exact .refuse n s.sessions hpc (Or.inl ⟨htok, rfl⟩)
    · rw [validate_true hv] at hs
      cases hs
      exact .pass n hpc htok hv
    · cases hs
      exact .refuse n _ hpc (Or.inr ⟨htok, Prod.ext (Bool.eq_false_of_not_eq_true hv) rfl⟩)
  | handle n i =>
    simp only [step] at hs
    split_ifs at hs with hpc
    cases hs
    exact .handle n i _ _ hpc.1 hpc.2 rfl
  | verify n =>
    simp only [step] at hs
    split_ifs at hs with hpc
    cases hs
    exact .verify n hpc
  | issue n tok =>
    simp only [step] at hs
    split at hs
    · rename_i role hpc
      split_ifs at hs with htok
      cases hs
      exact .issue n tok role hpc htok
    · cases hs
  | insert n =>
    simp only [step] at hs
    split at hs
    · rename_i tok role exp hpc
      cases hs
      exact .insert n tok role exp hpc
    · cases hs

/-- The broker only reads the user store. -/
theorem users_of_step {b b' : Broker.State} {c : Broker.Config} {a : Broker.Action}
    (ha : ofBroker a = true) (hs : Broker.step c b a = some (b', o)) : b'.users = b.users := by
  refine Broker.users_of_step hs ?_
  rintro t rfl
  cases ha

theorem now_of_step (hs : step cfg s a = some (s', o)) : s.broker.now ≤ s'.broker.now := by
  cases stepped_of_step hs with
  | broker a b' o other hb => exact (Broker.timing_of_step hb).now_le
  | _ => exact Nat.le_refl _

/-! ### The sessions are what the logins have answered -/

/-- When the session that a step opens under `tok` expires. -/
def granted (tok : String) (e : Event State Action Out) : Option ℕ :=
  match e.act with
  | .insert n =>
    match (e.pre.req n).pc with
    | .insert tok' _ exp => if tok' = tok then some exp else none
    | _ => none
  | _ => none

/-- When the sessions under `tok` expire, in the order in which they were
opened. -/
def grants (tok : String) (tr : List (Event State Action Out)) : List ℕ := tr.filterMap (granted tok)

/-- The last session under `tok` has not expired. -/
def Current (tr : List (Event State Action Out)) (now : ℕ) (tok : String) : Prop :=
  ∃ exp, (grants tok tr).getLast? = some exp ∧ now ≤ exp

/-- What a request needs to pass: the bootstrap token, or a session. -/
def Access (cfg : Config) (tr : List (Event State Action Out)) (s : State) (tok : String) : Prop :=
  tok ≠ "" ∧ (cfg.bootstrapToken ≠ "" ∧ tok = cfg.bootstrapToken ∨ Current tr s.broker.now tok)

theorem grants_other {e : Event State Action Out} (h : ∀ n, e.act ≠ .insert n) (tok : String) :
    grants tok (tr ++ [e]) = grants tok tr := by
  have hnone : granted tok e = none := by
    unfold granted
    split
    · rename_i n heq
      exact absurd heq (h n)
    · rfl
  rw [grants, List.filterMap_append, List.filterMap_cons, hnone, List.filterMap_nil, List.append_nil,
    grants]

theorem grants_insert {n : ℕ} {tok' role : String} {exp : ℕ}
    (hpc : (s.req n).pc = .insert tok' role exp) (tok : String) :
    grants tok (tr ++ [⟨s, .insert n, o, s'⟩]) =
      grants tok tr ++ if tok' = tok then [exp] else [] := by
  have hone : granted tok ⟨s, .insert n, o, s'⟩ = if tok' = tok then some exp else none := by
    simp only [granted, hpc]
  rw [grants, List.filterMap_append, List.filterMap_cons, hone, List.filterMap_nil, grants]
  split_ifs <;> rfl

/-- The map has the last session under each token, unless it has expired. -/
structure Kept (tr : List (Event State Action Out)) (s : State) : Prop where
  found : ∀ tok e, s.sessions.lookup tok = some e → (grants tok tr).getLast? = some e.exp
  gone : ∀ tok, s.sessions.lookup tok = none → ∀ exp ∈ (grants tok tr).getLast?, exp < s.broker.now

theorem Kept.init (users : Userstore.Table) : Kept [] { broker := Broker.newBroker users } :=
  ⟨nofun, nofun⟩

theorem Kept.valid_iff (h : Kept tr s) :
    (valid s.sessions s.broker.now tok).1 = true ↔ Current tr s.broker.now tok := by
  unfold valid Current
  cases hl : s.sessions.lookup tok with
  | none =>
    refine ⟨nofun, ?_⟩
    rintro ⟨exp, hexp, hle⟩
    exact absurd hle (Nat.not_le.mpr (h.gone tok hl exp hexp))
  | some e =>
    rw [h.found tok e hl]
    dsimp only
    split_ifs with hexp
    · refine ⟨nofun, ?_⟩
      rintro ⟨exp, heq, hle⟩
      obtain rfl := Option.some.inj heq
      exact absurd hle (Nat.not_le.mpr hexp)
    · exact ⟨fun _ => ⟨e.exp, rfl, Nat.not_lt.mp hexp⟩, fun _ => rfl⟩

theorem Kept.validated_iff (h : Kept tr s) (htok : tok ≠ "") :
    (validate cfg s.sessions s.broker.now tok).1 = true ↔ Access cfg tr s tok := by
  unfold validate Access
  split_ifs with hb
  · exact ⟨fun _ => ⟨htok, Or.inl hb⟩, fun _ => rfl⟩
  · rw [h.valid_iff]
    exact ⟨fun hc => ⟨htok, Or.inr hc⟩, fun hc => hc.2.resolve_left hb⟩

/-- Nothing is opened, and what goes has expired. -/
theorem Kept.keep {tr' : List (Event State Action Out)} (h : Kept tr s)
    (hgrants : ∀ tok, grants tok tr' = grants tok tr) (hnow : s.broker.now ≤ s'.broker.now)
    (hm : s'.sessions = s.sessions ∨ ∃ tok e, s.sessions.lookup tok = some e ∧
      e.exp < s.broker.now ∧ s'.sessions = s.sessions.erase tok) : Kept tr' s' := by
  have hgone : ∀ tok, s.sessions.lookup tok = none →
      ∀ exp ∈ (grants tok tr).getLast?, exp < s'.broker.now :=
    fun tok hl exp hexp => (h.gone tok hl exp hexp).trans_le hnow
  rcases hm with heq | ⟨tok₀, e₀, hl₀, hexp₀, heq⟩
  · refine ⟨fun tok e hl => ?_, fun tok hl => ?_⟩ <;> rw [hgrants] <;> rw [heq] at hl
    · exact h.found tok e hl
    · exact hgone tok hl
  · refine ⟨fun tok e hl => ?_, fun tok hl exp hexp => ?_⟩ <;>
      rw [heq, GoMap.lookup_delete] at hl
    · rw [hgrants]
      split_ifs at hl
      exact h.found tok e hl
    · rw [hgrants] at hexp
      split_ifs at hl with htok
      · subst htok
        rw [h.found tok e₀ hl₀] at hexp
        obtain rfl := Option.some.inj hexp
        exact hexp₀.trans_le hnow
      · exact hgone tok hl exp hexp

/-- What a refused request leaves of the map. -/
theorem refused_map {m : GoMap String SessionEntry} {now : ℕ}
    (h : validate cfg s.sessions now tok = (false, m)) :
    m = s.sessions ∨ ∃ tok e, s.sessions.lookup tok = some e ∧ e.exp < now ∧
      m = s.sessions.erase tok := by
  unfold validate valid at h
  split_ifs at h
  · cases h
  · split at h
    · cases h
      exact Or.inl rfl
    · rename_i e he
      split_ifs at h with hexp
      · cases h
        exact Or.inr ⟨tok, e, he, hexp, rfl⟩
      · cases h

theorem Kept.step (h : Kept tr s) (hs : step cfg s a = some (s', o)) :
    Kept (tr ++ [⟨s, a, o, s'⟩]) s' := by
  have hnow := now_of_step hs
  have hsame : s'.sessions = s.sessions → (∀ n, a ≠ .insert n) → Kept (tr ++ [⟨s, a, o, s'⟩]) s' :=
    fun heq ha => h.keep (grants_other ha) hnow (Or.inl heq)
  cases stepped_of_step hs with
  | refuse n m pc ok =>
    refine h.keep (grants_other nofun) hnow ?_
    rcases ok with ⟨-, rfl⟩ | ⟨-, hv⟩
    · exact Or.inl rfl
    · exact refused_map hv
  | insert n tok' role exp pc =>
    refine ⟨fun tok e hl => ?_, fun tok hl exp' hexp => ?_⟩
    · change (s.sessions.insert tok' ⟨role, exp⟩).lookup tok = some e at hl
      rw [GoMap.lookup_set] at hl
      rw [grants_insert pc]
      split_ifs at hl with htok
      · obtain rfl := Option.some.inj hl
        rw [if_pos htok.symm, List.getLast?_append]
        rfl
      · rw [if_neg (Ne.symm htok), List.append_nil]
        exact h.found tok e hl
    · change (s.sessions.insert tok' ⟨role, exp⟩).lookup tok = none at hl
      rw [GoMap.lookup_set] at hl
      split_ifs at hl with htok
      rw [grants_insert pc, if_neg (Ne.symm htok), List.append_nil] at hexp
      exact h.gone tok hl exp' hexp
  | _ => exact hsame rfl nofun

theorem Kept.of_run (h : (machine cfg users).Run tr s) : Kept tr s := by
  induction h with
  | nil => exact Kept.init users
  | snoc _ hs ih => exact ih.step hs

/-- **Who passes.** In every state of every run, a request that comes to its
check passes exactly if it has a token, and that token is the bootstrap token
or the last login answered with it was answered with a time that has not
passed; otherwise it is refused, and nothing but an expired session is
forgotten. -/
theorem access_iff (h : (machine cfg users).Run tr s) {n : ℕ} (hpc : (s.req n).pc = .check) :
    ∃ s', step cfg s (.check n) = some (s', []) ∧ s'.broker = s.broker ∧
      ((s'.req n).pc = .handle ↔ Access cfg tr s (s.req n).req.token) ∧
      (¬ Access cfg tr s (s.req n).req.token → (s'.req n).pc = .done .unauthorized) ∧
      ∀ tok, Access cfg tr s tok → (validate cfg s'.sessions s.broker.now tok).1 = true := by
  have hk := Kept.of_run h
  have hstep : ∃ s', step cfg s (.check n) = some (s', []) := by
    simp only [step, if_pos hpc]
    split_ifs <;> exact ⟨_, rfl⟩
  obtain ⟨s', hs'⟩ := hstep
  have hk' := hk.step hs'
  have hpost : ∀ tok, Access cfg tr s tok → (validate cfg s'.sessions s.broker.now tok).1 = true := by
    rintro tok ⟨htok, hacc⟩
    have hb : s'.broker = s.broker := by
      cases stepped_of_step hs' <;> rfl
    rw [← hb]
    refine (hk'.validated_iff htok).mpr ⟨htok, ?_⟩
    rw [Current, grants_other (e := ⟨s, .check n, [], s'⟩) nofun, hb]
    exact hacc
  refine ⟨s', hs', ?_⟩
  cases stepped_of_step hs' with
  | pass n pc htok ok =>
    have hacc : Access cfg tr s (s.req n).req.token := (hk.validated_iff htok).mp ok
    refine ⟨rfl, ⟨fun _ => hacc, fun _ => ?_⟩, fun hno => absurd hacc hno, hpost⟩
    show (Function.update s.req n _ n).pc = _
    rw [Function.update_self]
  | refuse n m pc ok =>
    have hno : ¬ Access cfg tr s (s.req n).req.token := by
      rintro ⟨htok, hacc⟩
      rcases ok with ⟨hempty, -⟩ | ⟨-, hv⟩
      · exact htok hempty
      · have := (hk.validated_iff htok).mpr ⟨htok, hacc⟩
        rw [hv] at this
        cases this
    have hdone : (({ s with sessions := m }.setReq n (.done .unauthorized)).req n).pc =
        .done .unauthorized := by
      show (Function.update s.req n _ n).pc = _
      rw [Function.update_self]
    refine ⟨rfl, ⟨fun hh => ?_, fun hacc => absurd hacc hno⟩, fun _ => hdone, hpost⟩
    rw [hdone] at hh
    cases hh

/-- A server with one account and no bootstrap token. -/
def rootConfig : Config where
  pw := .plain
  bootstrapToken := ""
  admins := some ⟨(∅ : GoMap String Adminstore.Admin).insert "root" ⟨"root", "admin", "pw", 0⟩⟩

/-- The login of that account as request `n`, which draws `tok`. -/
def rootLogin (n : ℕ) (tok : String) : List Action :=
  [.arrive n { method := .post, path := ["api", "v1", "admin", "login"], login := some ("root", "pw") },
    .verify n, .issue n tok, .insert n]

/-- Eight hours after the first login and with a second one, the token of the
first is refused and that of the second taken. -/
theorem access_iff_expired : ∃ tr s, (machine rootConfig {}).Run tr s ∧
    (∃ s', step rootConfig s (.check 2) = some (s', []) ∧ (s'.req 2).pc = .done .unauthorized) ∧
    ∃ s', step rootConfig s (.check 3) = some (s', []) ∧ (s'.req 3).pc = .handle := by
  obtain ⟨tr, s, hr, h2, h3, hno, hyes⟩ := (machine rootConfig {}).exists_run
    (rootLogin 0 "a" ++ .broker (.tick (sessionTTL + 1)) :: rootLogin 1 "b" ++
      [.arrive 2 { method := .get, path := ["api", "v1", "users"], authorization := "Bearer a" },
        .arrive 3 { method := .get, path := ["api", "v1", "nodes"], query := [("access_token", "b")] }])
    (P := fun r => (r.2.req 2).pc = .check ∧ (r.2.req 3).pc = .check ∧
      ((r.2.req 2).req.token = "a" ∧ ∀ exp ∈ (grants "a" r.1).getLast?, exp < r.2.broker.now) ∧
      (r.2.req 3).req.token = "b" ∧ ∃ exp ∈ (grants "b" r.1).getLast?, r.2.broker.now ≤ exp)
    (by decide +kernel)
  refine ⟨tr, s, hr, ?_, ?_⟩
  · obtain ⟨s', hs, -, -, hrefused, -⟩ := access_iff hr h2
    refine ⟨s', hs, hrefused ?_⟩
    rw [hno.1]
    rintro ⟨-, ⟨hb, -⟩ | ⟨exp, hexp, hle⟩⟩
    · exact hb rfl
    · exact absurd hle (Nat.not_le.mpr (hno.2 exp hexp))
  · obtain ⟨s', hs, -, hiff, -⟩ := access_iff hr h3
    refine ⟨s', hs, hiff.mpr ?_⟩
    rw [hyes.1]
    exact ⟨by decide, Or.inr hyes.2⟩

/-! ### Changes go back to a password -/

/-- The request is a login with the password of an account of that role. -/
def Vouched (cfg : Config) (r : Request) (role : String) : Prop :=
  ∃ username password admins pub, r.login = some (username, password) ∧ cfg.admins = some admins ∧
    admins.verify cfg.pw username password = .ok pub ∧ pub.role = role

/-- Request `m` drew `tok` eight hours before `exp`. -/
def Drawn (tr : List (Event State Action Out)) (m : ℕ) (tok : String) (exp : ℕ) : Prop :=
  ∃ e ∈ tr, e.act = .issue m tok ∧ exp = e.pre.broker.now + sessionTTL

/-- The check of request `n`, with what it passed by. -/
def Checked (cfg : Config) (tr : List (Event State Action Out)) (n : ℕ) (tok : String) : Prop :=
  ∃ tr₁ e tr₂, tr = tr₁ ++ e :: tr₂ ∧ e.act = .check n ∧ Access cfg tr₁ e.pre tok

/-- What the requests under way have behind them. -/
structure Backed (cfg : Config) (tr : List (Event State Action Out)) (s : State) : Prop where
  issue : ∀ m role, (s.req m).pc = .issue role → Vouched cfg (s.req m).req role
  insert : ∀ m tok role exp, (s.req m).pc = .insert tok role exp →
    Vouched cfg (s.req m).req role ∧ Drawn tr m tok exp
  session : ∀ tok, ∀ exp ∈ grants tok tr, ∃ m role, (s.req m).pc = .done (.session tok role exp) ∧
    Vouched cfg (s.req m).req role ∧ Drawn tr m tok exp
  handle : ∀ n, (s.req n).pc = .handle → Checked cfg tr n (s.req n).req.token

theorem Drawn.snoc {m : ℕ} {exp : ℕ} (h : Drawn tr m tok exp) (e : Event State Action Out) :
    Drawn (tr ++ [e]) m tok exp := by
  obtain ⟨e', he', h⟩ := h
  exact ⟨e', List.mem_append_left _ he', h⟩

theorem Checked.snoc {n : ℕ} (h : Checked cfg tr n tok) (e : Event State Action Out) :
    Checked cfg (tr ++ [e]) n tok := by
  obtain ⟨tr₁, e', tr₂, rfl, h⟩ := h
  exact ⟨tr₁, e', tr₂ ++ [e], by simp, h⟩

/-- `login` goes on with a password it has accepted, or answers. -/
theorem verify_cases (cfg : Config) (r : Request) :
    (∃ role, verify cfg r = .issue role ∧ Vouched cfg r role) ∨ ∃ reply, verify cfg r = .done reply := by
  unfold verify
  split
  · exact Or.inr ⟨_, rfl⟩
  · rename_i username password hlogin
    split
    · exact Or.inr ⟨_, rfl⟩
    · rename_i admins hadmins
      split
      · exact Or.inr ⟨_, rfl⟩
      · rename_i pub hv
        exact Or.inl ⟨pub.role, rfl, username, password, admins, pub, hlogin, hadmins, hv, rfl⟩

theorem Backed.init (users : Userstore.Table) :
    Backed cfg [] { broker := Broker.newBroker users } :=
  ⟨nofun, nofun, nofun, nofun⟩

/-- Request `n`, which is not over, moves on to `pc`. -/
theorem Backed.update {e : Event State Action Out} {n : ℕ} {pc : PC} {r : Request}
    (h : Backed cfg tr s) (hreq : s'.req = Function.update s.req n { pc, req := r })
    (hold : ∀ reply, (s.req n).pc ≠ .done reply) (hissue : ∀ role, pc = .issue role → Vouched cfg r role)
    (hinsert : ∀ tok role exp, pc = .insert tok role exp →
      Vouched cfg r role ∧ Drawn (tr ++ [e]) n tok exp)
    (hgrants : ∀ tok, ∀ exp ∈ grants tok (tr ++ [e]), exp ∈ grants tok tr ∨
      ∃ role, pc = .done (.session tok role exp) ∧ Vouched cfg r role ∧ Drawn (tr ++ [e]) n tok exp)
    (hhandle : pc = .handle → Checked cfg (tr ++ [e]) n r.token) : Backed cfg (tr ++ [e]) s' := by
  have hcase (m : ℕ) : (m = n ∧ s'.req m = { pc, req := r }) ∨ s'.req m = s.req m := by
    rw [hreq]
    exact (eq_or_ne m n).imp (fun hm => ⟨hm, hm ▸ Function.update_self ..⟩)
      fun hne => Function.update_of_ne hne ..
  refine ⟨fun m role hm => ?_, fun m tok role exp hm => ?_, fun tok exp hexp => ?_, fun m hm => ?_⟩
  · rcases hcase m with ⟨rfl, he⟩ | he <;> rw [he] at hm ⊢
    · exact hissue role hm
    · exact h.issue m role hm
  · rcases hcase m with ⟨rfl, he⟩ | he <;> rw [he] at hm ⊢
    · exact hinsert tok role exp hm
    · exact (h.insert m tok role exp hm).imp_right fun hd => hd.snoc e
  · rcases hgrants tok exp hexp with hexp | ⟨role, hpc, hv⟩
    · obtain ⟨m, role, hm, hv, hd⟩ := h.session tok exp hexp
      have hne : m ≠ n := by
        rintro rfl
        exact hold _ hm
      refine ⟨m, role, ?_, ?_, hd.snoc e⟩ <;> rw [hreq, Function.update_of_ne hne]
      · exact hm
      · exact hv
    · refine ⟨n, role, ?_, ?_⟩ <;> rw [hreq, Function.update_self]
      · exact hpc
      · exact hv
  · rcases hcase m with ⟨rfl, he⟩ | he <;> rw [he] at hm ⊢
    · exact hhandle hm
    · exact (h.handle m hm).snoc e

/-- The same for a step that opens no session. -/
theorem Backed.move {n : ℕ} {pc : PC} {r : Request} (h : Backed cfg tr s)
    (hreq : s'.req = Function.update s.req n { pc, req := r })
    (hold : ∀ reply, (s.req n).pc ≠ .done reply) (ha : ∀ n, a ≠ .insert n)
    (hissue : ∀ role, pc = .issue role → Vouched cfg r role)
    (hinsert : ∀ tok role exp, pc = .insert tok role exp →
      Vouched cfg r role ∧ Drawn (tr ++ [⟨s, a, o, s'⟩]) n tok exp)
    (hhandle : pc = .handle → Checked cfg (tr ++ [⟨s, a, o, s'⟩]) n r.token) :
    Backed cfg (tr ++ [⟨s, a, o, s'⟩]) s' := by
  refine h.update hreq hold hissue hinsert (fun tok exp hexp => Or.inl ?_) hhandle
  rwa [grants_other ha] at hexp

theorem ne_done {pc pc' : PC} (h : pc = pc') (hne : ∀ reply, pc' ≠ .done reply) :
    ∀ reply, pc ≠ .done reply := by
  rw [h]
  exact hne

theorem accept_cases (r : Request) : accept r = .check ∨ accept r = .verify ∨
    ∃ reply, accept r = .done reply := by
  unfold accept
  split
  · exact Or.inr (Or.inl rfl)
  · exact Or.inr (Or.inr ⟨_, rfl⟩)
  · exact Or.inr (Or.inr ⟨_, rfl⟩)
  · exact Or.inl rfl

theorem Backed.step (h : Backed cfg tr s) (hk : Kept tr s) (hs : step cfg s a = some (s', o)) :
    Backed cfg (tr ++ [⟨s, a, o, s'⟩]) s' := by
  cases stepped_of_step hs with
  | broker a b' o other hb =>
    refine ⟨h.issue, fun m tok role exp hm => ?_, fun tok exp hexp => ?_, fun m hm => ?_⟩
    · exact (h.insert m tok role exp hm).imp_right fun hd => hd.snoc _
    · rw [grants_other (e := ⟨s, .broker a, o, _⟩) nofun] at hexp
      obtain ⟨m, role, hm, hv, hd⟩ := h.session tok exp hexp
      exact ⟨m, role, hm, hv, hd.snoc _⟩
    · exact (h.handle m hm).snoc _
  | arrive n r pc =>
    have hno : ∀ pc, accept r = pc → (∀ role, pc ≠ .issue role) ∧
        (∀ tok role exp, pc ≠ .insert tok role exp) ∧ pc ≠ .handle := by
      rintro pc rfl
      rcases accept_cases r with heq | heq | ⟨reply, heq⟩ <;> rw [heq] <;> exact ⟨nofun, nofun, nofun⟩
    obtain ⟨h1, h2, h3⟩ := hno _ rfl
    exact h.move rfl (ne_done pc nofun) nofun (fun role hr => absurd hr (h1 role))
      (fun tok role exp hr => absurd hr (h2 tok role exp)) fun hr => absurd hr h3
  | pass n pc htok ok =>
    refine h.move rfl (ne_done pc nofun) nofun nofun nofun fun _ => ?_
    exact ⟨tr, _, [], rfl, rfl, (hk.validated_iff htok).mp ok⟩
  | refuse n m pc ok | handle n i t reply pc fresh eq =>
    exact h.move rfl (ne_done pc nofun) nofun nofun nofun nofun
  | verify n pc =>
    rcases verify_cases cfg (s.req n).req with ⟨role, heq, hv⟩ | ⟨reply, heq⟩
    · refine h.move rfl (ne_done pc nofun) nofun ?_ ?_ ?_ <;> rw [heq]
      · rintro role' hr
        cases hr
        exact hv
      · exact nofun
      · exact nofun
    · refine h.move rfl (ne_done pc nofun) nofun ?_ ?_ ?_ <;> rw [heq] <;> exact nofun
  | issue n tok role pc new =>
    refine h.move rfl (ne_done pc nofun) nofun nofun (fun tok' role' exp' heq => ?_) nofun
    cases heq
    exact ⟨h.issue n role pc, _, List.mem_append_right _ (List.mem_singleton_self _), rfl, rfl⟩
  | insert n tok role exp pc =>
    obtain ⟨hv, hd⟩ := h.insert n tok role exp pc
    refine h.update rfl (ne_done pc nofun) nofun nofun (fun tok' exp' hexp => ?_) nofun
    rw [grants_insert pc, List.mem_append] at hexp
    refine hexp.imp_right fun hnew => ?_
    split_ifs at hnew with htok
    · obtain rfl := List.mem_singleton.mp hnew
      subst htok
      exact ⟨role, rfl, hv, hd.snoc _⟩
    · cases hnew

theorem Backed.of_run (h : (machine cfg users).Run tr s) : Backed cfg tr s := by
  induction h with
  | nil => exact Backed.init users
  | snoc hr hs ih => exact ih.step (Kept.of_run hr) hs

/-- The handlers that may change the user store. -/
def Route.changes : Route → Bool
  | .createUser | .updateUser _ | .deleteUser _ => true
  | _ => false

theorem respond_users {b : Broker.State} {r : Request} (i : Input) (h : r.route.changes = false) :
    (respond cfg b r i).1 = b.users := by
  unfold respond
  split <;> first | rfl | (rename_i heq; rw [heq] at h; cases h)

/-- **Who changes the users.** In every run, a step that changes the user
store is the handler of a request that came to its check before, with a token
that was the bootstrap token or had been drawn, at most eight hours earlier,
by a login with the password of an administrator. -/
theorem change_traced (h : (machine cfg users).Run tr s) {tr₁ tr₂ : List (Event State Action Out)}
    {e : Event State Action Out} (htr : tr = tr₁ ++ e :: tr₂)
    (hchange : e.post.broker.users ≠ e.pre.broker.users) :
    ∃ n i, e.act = .handle n i ∧ (e.pre.req n).req.route.changes = true ∧
      ∃ tr₃ e' tr₄, tr₁ = tr₃ ++ e' :: tr₄ ∧ e'.act = .check n ∧
        (cfg.bootstrapToken ≠ "" ∧ (e.pre.req n).req.token = cfg.bootstrapToken ∨
          ∃ m role exp, (e'.pre.req m).pc = .done (.session (e.pre.req n).req.token role exp) ∧
            Vouched cfg (e'.pre.req m).req role ∧ Drawn tr₃ m (e.pre.req n).req.token exp ∧
            e'.pre.broker.now ≤ exp) := by
  obtain ⟨hr, hs⟩ := h.at_event htr
  obtain ⟨pre, act, out, post⟩ := e
  dsimp only at hr hs hchange ⊢
  cases stepped_of_step hs with
  | broker a b' o other hb => exact absurd (users_of_step other hb) hchange
  | handle n i t reply pc fresh eq =>
    have hroute : (pre.req n).req.route.changes = true := by
      by_contra hno
      have hsame : (respond cfg pre.broker (pre.req n).req i).1 = pre.broker.users :=
        respond_users i (Bool.eq_false_of_not_eq_true hno)
      rw [eq] at hsame
      exact hchange hsame
    obtain ⟨tr₃, e', tr₄, hsplit, hact, -, hacc⟩ := (Backed.of_run hr).handle n pc
    refine ⟨n, i, rfl, hroute, tr₃, e', tr₄, hsplit, hact, hacc.imp_right ?_⟩
    rintro ⟨exp, hlast, hle⟩
    obtain ⟨m, role, hm, hv, hd⟩ := (Backed.of_run (hr.at_event hsplit).1).session _ exp
      (List.mem_of_getLast? hlast)
    exact ⟨m, role, exp, hm, hv, hd, hle⟩
  | _ => exact absurd rfl hchange

/-- A user is created by a request whose session ends between its check and
its handler. -/
theorem change_traced_late : ∃ tr s, (machine rootConfig {}).Run tr s ∧
    (s.broker.users.get "1").map (·.username) = .ok "alice" ∧
    ∃ tr₁ e, tr = tr₁ ++ [e] ∧ ∃ n m exp login role, Vouched rootConfig login role ∧
      Drawn tr₁ m (e.pre.req n).req.token exp := by
  obtain ⟨tr, s, hr, hget, e, hlast, hold, hnew⟩ := (machine rootConfig {}).exists_run
    (rootLogin 0 "a" ++
      [.arrive 1 { method := .post, path := ["api", "v1", "users"], authorization := "Bearer a"
                   create := some { username := "alice", allowedRegions := ["*"] } },
        .check 1, .broker (.tick (sessionTTL + 1)), .handle 1 { id := "1", token := "t" }])
    (P := fun r => (r.2.broker.users.get "1").map (·.username) = .ok "alice" ∧
      ∃ e ∈ r.1.getLast?, e.pre.broker.users.byID.lookup "1" = none ∧
        e.post.broker.users.byID.lookup "1" = some 0)
    (by decide +kernel)
  have htr : tr = tr.dropLast ++ e :: [] := (List.dropLast_append_getLast? e hlast).symm
  have hchange : e.post.broker.users ≠ e.pre.broker.users := by
    intro heq
    rw [heq, hold] at hnew
    cases hnew
  obtain ⟨n, i, -, -, tr₃, e', tr₄, hsplit, -, ⟨hb, -⟩ | ⟨m, role, exp, -, hv, hd, -⟩⟩ :=
    change_traced hr htr hchange
  · exact absurd rfl hb
  · refine ⟨tr, s, hr, hget, _, e, htr, n, m, exp, _, role, hv, ?_⟩
    rw [hsplit]
    obtain ⟨x, hx, h⟩ := hd
    exact ⟨x, List.mem_append_left _ hx, h⟩

end
end Adminserver
end Revquic
