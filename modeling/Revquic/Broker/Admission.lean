/-
# Whom the store lets in

The goroutine of a client asks the user store once, in `authenticate`. What
it is told settles the user of the connection, so that while the table stays
as it is, connections of one username are of one user.

Key definitions: `passed`, `Admits`.
Key theorems: `passed_of_step`, `user_unique`, `msg_of_step`.
-/
import Revquic.Broker.Moves
import Revquic.Userstore.Answers

namespace Revquic
namespace Broker

open Lib
open Userstore (User authenticateForRegion authorizeUser)

variable {cfg : Config} {b b' : State} {a : Action} {o : List Out} {c d : Conn}

/-- The goroutine has been let in. -/
def passed : ClientPC → Bool
  | .idle | .auth | .reply | .done => false
  | _ => true

/-- The store's answer to the `Connect` of `c` is user `u`. -/
def Admits (cfg : Config) (b : State) (c : Conn) (i : Input) (u : User) : Prop :=
  if cfg.oidc then
    ∃ name, i.oidc = .ok name ∧
      authorizeUser b.users name (b.client c).msg.requestedRegion = .ok u
  else
    authenticateForRegion cfg.hmac b.users (b.client c).msg.token
      (b.client c).msg.requestedRegion = .ok u

theorem admits_of_auth {i : Input} (hpc : (b.client c).pc = .auth)
    (hs : step cfg b (.client c i) = some (b', o)) (hp : passed (b'.client c).pc = true) :
    Admits cfg b c i (b'.client c).user ∧ (b'.client c).msg = (b.client c).msg := by
  have hb : b' = authenticate cfg b c i.oidc := by
    simp only [step, clientStep, hpc] at hs
    cases hs
    rfl
  subst hb
  unfold Admits
  simp only [authenticate] at hp ⊢
  split_ifs at hp ⊢ with ho
  · cases hi : i.oidc with
    | error e => simp [hi, passed] at hp
    | ok name =>
      cases hu : authorizeUser b.users name (b.client c).msg.requestedRegion with
      | error e => simp [hi, hu, Except.mapError, passed] at hp
      | ok u => simp [hu, Except.mapError]
  · cases hu : authenticateForRegion cfg.hmac b.users (b.client c).msg.token
        (b.client c).msg.requestedRegion with
    | error e => simp [hu, Except.mapError, passed] at hp
    | ok u => simp [Except.mapError]

/-- The user of a goroutine is settled when it is let in. -/
theorem passed_of_client {i : Input} (h : ClientStepped cfg b c i b' o)
    (hpc : (b.client c).pc ≠ .auth) (hp : passed (b'.client c).pc = true) :
    passed (b.client c).pc = true ∧ (b'.client c).user = (b.client c).user ∧
      (b'.client c).msg = (b.client c).msg := by
  cases h with
  | reject e pc | accept user pc => exact absurd pc hpc
  | list pc | refuse rr pc | reply pc | exhaust pc => simp [passed] at hp
  | vanish pc | close q pc' pc | finish pc' pc =>
    rcases pc with pc | pc
    all_goals first
      | exact ⟨by rw [pc]; rfl, by simp, by simp⟩
      | exact ⟨by rw [pc.1]; rfl, by simp, by simp⟩
  | resume p ex pc | choose ex rr pc | alloc addr pool pc | park q pc =>
    exact ⟨by rw [pc]; rfl, by simp, by simp⟩
  | _ pc => exact ⟨by rw [pc]; rfl, by simp, by simp⟩

theorem client_of_ne {i : Input} (h : ClientStepped cfg b c i b' o) (hd : d ≠ c) :
    b'.client d = b.client d := by
  cases h <;> simp [Function.update_of_ne hd]

theorem passed_of_step (hs : step cfg b a = some (b', o)) (hp : passed (b'.client c).pc = true) :
    (passed (b.client c).pc = true ∧ (b'.client c).user = (b.client c).user ∧
      (b'.client c).msg = (b.client c).msg) ∨
    ∃ i, a = .client c i ∧ (b.client c).pc = .auth ∧ Admits cfg b c i (b'.client c).user ∧
      (b'.client c).msg = (b.client c).msg := by
  cases stepped_of_step hs with
  | connect d msg unused =>
    rw [State.setClient_client] at hp ⊢
    rcases eq_or_ne c d with rfl | hne
    · rw [Function.update_self] at hp
      cases hp
    · rw [Function.update_of_ne hne] at hp ⊢
      exact Or.inl ⟨hp, rfl, rfl⟩
  | client d i step =>
    rcases eq_or_ne c d with rfl | hne
    · by_cases hpc : (b.client c).pc = .auth
      · obtain ⟨hadm, hmsg⟩ := admits_of_auth hpc hs hp
        exact Or.inr ⟨i, rfl, hpc, hadm, hmsg⟩
      · exact Or.inl (passed_of_client step hpc hp)
    · rw [client_of_ne step hne] at hp ⊢
      exact Or.inl ⟨hp, rfl, rfl⟩
  | drop d cause pc =>
    rw [State.setClient_client] at hp ⊢
    rcases eq_or_ne c d with rfl | hne
    · rw [Function.update_self]
      exact Or.inl ⟨by rw [pc]; rfl, rfl, rfl⟩
    · rw [Function.update_of_ne hne] at hp ⊢
      exact Or.inl ⟨hp, rfl, rfl⟩
  | register d msg =>
    rw [handleExit_client] at hp ⊢
    exact Or.inl ⟨hp, rfl, rfl⟩
  | clientCtrl d m ok reading step | exitCtrl d m ok pc step | exit d ok step | timer k ok step =>
    cases step <;> exact Or.inl ⟨hp, rfl, rfl⟩
  | _ => exact Or.inl ⟨hp, rfl, rfl⟩

/-! ### While the table stays as it is -/

/-- Whom the store lets in is one of its users. -/
theorem Admits.entry {i : Input} {u : User} (hp : b.users.Pointed) (h : Admits cfg b c i u) :
    ∃ id x, b.users.entry id = some x ∧ x.user = u := by
  unfold Admits at h
  split_ifs at h
  · obtain ⟨name, -, h⟩ := h
    unfold authorizeUser at h
    split at h
    · cases h
    · rename_i e he
      obtain ⟨hu, -⟩ := Userstore.Table.checkUser_eq_ok.mp h
      have hr := GoMap.mem_entries.mp (List.mem_of_find?_eq_some he)
      exact ⟨e.1, _, Userstore.Table.entry_eq_some.mpr ⟨e.2, hr, rfl⟩, hu⟩
  · unfold authenticateForRegion at h
    split at h
    · cases h
    · rename_i r hr
      split_ifs at h
      obtain ⟨hu, -⟩ := Userstore.Table.checkUser_eq_ok.mp h
      obtain ⟨⟨id, hid⟩, -⟩ := hp _ r hr
      exact ⟨id, _, Userstore.Table.entry_eq_some.mpr ⟨r, hid, rfl⟩, hu⟩

section
variable {users : Userstore.Table} {tr : List (Event State Action Out)}

theorem entry_of_run (h : (machine cfg users).Run tr b) (hp : users.Pointed)
    (hno : ∀ e ∈ tr, ∀ t, e.act ≠ .users t) : b.users = users ∧
      ∀ c, passed (b.client c).pc = true → ∃ id x, users.entry id = some x ∧
        x.user = (b.client c).user := by
  refine h.invariant_of (I := fun b => b.users = users ∧ ∀ c, passed (b.client c).pc = true →
    ∃ id x, users.entry id = some x ∧ x.user = (b.client c).user)
    (C := fun e => ∀ t, e.act ≠ .users t) ?_ ?_ hno
  · exact ⟨rfl, fun c hc => by cases hc⟩
  · rintro s a s' o ⟨hu, hI⟩ hs ha
    refine ⟨(users_of_step hs ha).trans hu, fun c hc => ?_⟩
    rcases passed_of_step hs hc with ⟨hc', huser, -⟩ | ⟨i, -, -, hadm, -⟩
    · rw [huser]
      exact hI c hc'
    · rw [← hu] at hp ⊢
      exact hadm.entry hp

/-- Connections with one username are of one user. -/
theorem user_unique (h : (machine cfg users).Run tr b) (hp : users.Pointed) (hn : users.Names)
    (hno : ∀ e ∈ tr, ∀ t, e.act ≠ .users t) {e : Event State Action Out} (he : e ∈ tr)
    (hc : passed (b.client c).pc = true) (hd : passed (e.pre.client d).pc = true)
    (hname : (b.client c).user.username = (e.pre.client d).user.username) :
    (b.client c).user = (e.pre.client d).user := by
  obtain ⟨tr₁, tr₂, rfl, hr, -⟩ := h.of_mem he
  obtain ⟨id, x, hx, hxu⟩ := (entry_of_run h hp hno).2 c hc
  obtain ⟨id', x', hx', hxu'⟩ := (entry_of_run hr hp fun e he => hno e (by simp [he])).2 d hd
  obtain rfl := hn _ id id' x x' hx hx' (congrArg User.username hxu)
    ((congrArg User.username hxu').trans hname.symm)
  rw [← hxu, ← hxu', Option.some.inj (hx.symm.trans hx')]

end

/-- The `Connect` of a goroutine stays what it was. -/
theorem msg_of_step (hs : step cfg b a = some (b', o)) (c : Conn) :
    (∃ msg, a = .connect c msg) ∨ (b'.client c).msg = (b.client c).msg := by
  -- all that one goroutine does to its own variables
  have hupdate : ∀ {d : Conn} {t : ClientThread}, b'.client = Function.update b.client d t →
      t.msg = (b.client d).msg → (b'.client c).msg = (b.client c).msg := by
    intro d t hb ht
    rw [hb]
    rcases eq_or_ne c d with rfl | hne
    · rw [Function.update_self, ht]
    · rw [Function.update_of_ne hne]
  cases step_move hs with
  | env core client node out => exact Or.inr (by rw [client])
  | connect d msg unused =>
    rcases eq_or_ne c d with rfl | hne
    · exact Or.inl ⟨msg, rfl⟩
    · exact Or.inr (by rw [State.setClient_client, Function.update_of_ne hne])
  | register d msg unused => exact Or.inr (by rw [handleExit_client])
  | walk d t' core client node out walk => exact Or.inr (hupdate client walk.msg)
  | expire k ok p pc found id suspended => exact Or.inr rfl
  | _ => exact Or.inr (hupdate rfl rfl)

end Broker
end Revquic
