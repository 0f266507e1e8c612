/-
# What a store answers, from its users alone

The queries of a store look a user up, by id, by name or by token, and check
them. In a settled table, one whose index is exact and in which no two users
have the same name, the answers depend on the users' records only, not on the
pointers and not on the order of the maps. This is what a store that is
opened again, and one that keeps its users in a database, have to agree on.

Key definitions: `Finds`, `Names`, `Settled`, `Alike`.
Key theorem: `alike_of_entry`.
-/
import Revquic.Userstore.Table

namespace Revquic
namespace Userstore

open Lib

/-- The answer of a query that looks for a user with property `P` and checks
them. -/
def Finds {κ : Type*} (users : κ → Option Record) (P : Record → Prop) (err : StoreError)
    (region : String) (res : Except StoreError User) : Prop :=
  (∃ k x, users k = some x ∧ P x ∧ res = checkUser x.user region) ∨
    ((∀ k x, users k = some x → ¬ P x) ∧ res = .error err)

/-- No two users have property `P`. -/
def Sole {κ : Type*} (users : κ → Option Record) (P : Record → Prop) : Prop :=
  ∀ k k' x x', users k = some x → users k' = some x' → P x → P x' → k = k'

theorem Finds.eq {κ : Type*} {users : κ → Option Record} {P : Record → Prop} {err : StoreError}
    {region : String} {res res' : Except StoreError User} (hs : Sole users P)
    (h : Finds users P err region res) (h' : Finds users P err region res') : res = res' := by
  rcases h with ⟨k, x, hk, hP, rfl⟩ | ⟨hnone, rfl⟩
  · rcases h' with ⟨k', x', hk', hP', rfl⟩ | ⟨hnone', rfl⟩
    · obtain rfl := hs k k' x x' hk hk' hP hP'
      rw [Option.some.inj (hk.symm.trans hk')]
    · exact absurd hP (hnone' k x hk)
  · rcases h' with ⟨k', x', hk', hP', rfl⟩ | ⟨hnone', rfl⟩
    · exact absurd hP' (hnone k' x' hk')
    · rfl

/-- A search through a list of all users. -/
theorem finds_find? {κ γ : Type*} {users : κ → Option Record} {P : Record → Prop} {l : List γ}
    {f : γ → Record} {q : γ → Bool} {err : StoreError} {region : String} {answer : Except StoreError User}
    (hmem : ∀ x, x ∈ l.map f ↔ ∃ k, users k = some x) (hq : ∀ y, q y = true ↔ P (f y))
    (hnone : l.find? q = none → answer = .error err)
    (hsome : ∀ y, l.find? q = some y → answer = checkUser (f y).user region) :
    Finds users P err region answer := by
  cases hfind : l.find? q with
  | none =>
    refine Or.inr ⟨fun k x hx hP => ?_, hnone hfind⟩
    obtain ⟨y, hy, rfl⟩ := List.mem_map.mp ((hmem x).mpr ⟨k, hx⟩)
    exact List.find?_eq_none.mp hfind y hy ((hq y).mpr hP)
  | some y =>
    obtain ⟨k, hk⟩ := (hmem (f y)).mp (List.mem_map_of_mem (List.mem_of_find?_eq_some hfind))
    exact Or.inl ⟨k, f y, hk, (hq y).mp (List.find?_some hfind), hsome y hfind⟩

/-- The users a token leads to. -/
def HasToken (hmac : String → String) (token : String) (x : Record) : Prop :=
  x.hash = hashToken hmac token ∧ x.hash ≠ ""

/-- The users of a name. -/
def HasName (name : String) (x : Record) : Prop := x.user.username = name

namespace Table

variable {hmac : String → String} {t t' : Table} {c : Call}

/-! ### Settled tables -/

/-- No two users have the same name. -/
def Names (t : Table) : Prop := ∀ name, Sole t.entry (HasName name)

/-- What the answers rest on. -/
structure Settled (t : Table) : Prop where
  keyed : t.Keyed
  exact : t.Exact
  names : t.Names

theorem settled_empty : Settled {} where
  keyed := keyed_empty
  exact := exact_empty
  names := by
    intro name id id' x x' hx
    cases hx

/-- A call never changes a name, and a new one is not taken. -/
theorem Names.changed (h : t.Names) (hk : t.Keyed) (hc : Changed hmac t c t') : t'.Names := by
  -- a user other than the call's has the record they had
  have hback : ∀ id x, t'.entry id = some x → id ≠ c.target → t.entry id = some x := by
    intro id x hx hid
    rwa [entry_changed hk hc, Function.update_of_ne hid] at hx
  have htarget : ∀ x, t'.entry c.target = some x → ∀ id y, id ≠ c.target → t.entry id = some y →
      y.user.username ≠ x.user.username := by
    intro x hx id y hid hy
    rw [entry_changed hk hc, Function.update_self] at hx
    cases hc with
    | created new name =>
      obtain rfl := Option.some.inj hx
      obtain ⟨r, hr, rfl⟩ := entry_eq_some.mp hy
      exact name id r hr
    | patched found cred | rotated found cred =>
      obtain ⟨x₀, hx₀, rfl⟩ := Option.map_eq_some_iff.mp hx
      exact fun e => hid (h _ id _ y x₀ hy hx₀ e rfl)
    | deleted found => cases hx
  intro name id id' x x' hx hx' hP hP'
  by_cases h₁ : id = c.target
  · by_cases h₂ : id' = c.target
    · exact h₁.trans h₂.symm
    · subst h₁
      exact absurd (hP'.trans hP.symm) (htarget x hx id' x' h₂ (hback id' x' hx' h₂))
  · by_cases h₂ : id' = c.target
    · subst h₂
      exact absurd (hP.trans hP'.symm) (htarget x' hx' id x h₁ (hback id x hx h₁))
    · exact h name id id' x x' (hback id x hx h₁) (hback id' x' hx' h₂) hP hP'

theorem Settled.changed (hm : KeyedHash hmac) (h : t.Settled) (hc : Changed hmac t c t')
    (hu : Unshared hmac t c) : t'.Settled :=
  ⟨h.keyed.changed hc, (exact_changed hm h.keyed h.exact hc).mpr hu, h.names.changed h.keyed hc⟩

/-! ### Refused calls -/

/-- A call is refused before it changes anything: the name is taken, or there
is no such user. -/
def Refused (t : Table) : Call → Prop
  | .create _ _ inp => ∃ id x, t.entry id = some x ∧ x.user.username = inp.username
  | .update id _ _ | .delete id => t.entry id = none

/-- A call is refused, or it returns the user it makes. -/
theorem apply_spec (hmac : String → String) (t : Table) (c : Call) :
    (t.Refused c ∧ t.apply hmac c = .error c.refusal) ∨
    (¬ t.Refused c ∧ ∃ t', t.apply hmac c = .ok (t', (c.makes hmac (t.entry c.target)).map (·.user))) := by
  cases c with
  | create id now inp =>
    simp only [apply, create, Refused]
    cases hname : t.byID.entries.any fun e => (t.recs e.2).user.username = inp.username with
    | true =>
      obtain ⟨e, he, hn⟩ := List.any_eq_true.mp hname
      exact Or.inl ⟨⟨e.1, _, entry_eq_some.mpr ⟨e.2, GoMap.mem_entries.mp he, rfl⟩,
        by simpa using hn⟩, rfl⟩
    | false =>
      refine Or.inr ⟨?_, _, rfl⟩
      rintro ⟨id', x, hx, hn⟩
      obtain ⟨r, hr, rfl⟩ := entry_eq_some.mp hx
      exact username_ne hname hr hn
  | update id now inp =>
    simp only [apply, update, Refused, Call.target, entry]
    cases hr : t.byID.lookup id with
    | none => exact Or.inl ⟨rfl, rfl⟩
    | some r => cases inp.credential <;> exact Or.inr ⟨by simp, _, rfl⟩
  | delete id =>
    simp only [apply, delete, Refused, entry]
    cases hr : t.byID.lookup id with
    | none => exact Or.inl ⟨rfl, rfl⟩
    | some r => exact Or.inr ⟨by simp, _, rfl⟩

/-! ### The queries -/

theorem get_eq (id : String) : t.get id = match t.entry id with
    | none => .error .notFound
    | some x => .ok x.user := by
  unfold get entry
  cases t.byID.lookup id <;> rfl

/-- The records, in the order of the map. -/
def dump (t : Table) : List Record := t.byID.entries.map fun e => t.recs e.2

theorem list_eq (region status : String) :
    t.list region status = (t.dump.map (·.user)).filter (listed region status) := by
  rw [list, dump, List.map_map]
  rfl

theorem mem_dump {x : Record} : x ∈ t.dump ↔ ∃ id, t.entry id = some x := by
  simp only [dump, List.mem_map]
  constructor
  · rintro ⟨e, he, rfl⟩
    exact ⟨e.1, entry_eq_some.mpr ⟨e.2, GoMap.mem_entries.mp he, rfl⟩⟩
  · rintro ⟨id, hx⟩
    obtain ⟨r, hr, rfl⟩ := entry_eq_some.mp hx
    exact ⟨⟨id, r⟩, GoMap.mem_entries.mpr hr, rfl⟩

theorem finds_authorize (name region : String) :
    Finds t.entry (HasName name) .notFound region (authorizeUser t name region) := by
  have hq (e : (_ : String) × ℕ) : decide ((t.recs e.2).user.username = name) = true ↔
      HasName name (t.recs e.2) := decide_eq_true_iff
  unfold authorizeUser
  refine finds_find? (fun _ => mem_dump) hq ?_ ?_
  · intro h
    rw [h]
  · intro e h
    rw [h]

theorem finds_authenticate (he : t.Exact) (token region : String) :
    Finds t.entry (HasToken hmac token) .badToken region (authenticateForRegion hmac t token region) := by
  by_cases hex : ∃ id x, t.entry id = some x ∧ HasToken hmac token x
  · obtain ⟨id, x, hx, hh, hne⟩ := hex
    exact Or.inl ⟨id, x, hx, ⟨hh, hne⟩, authenticate_eq he hx (hh ▸ hne) hh region⟩
  · have hnone : ∀ id x, t.entry id = some x → ¬ HasToken hmac token x :=
      fun id x hx hP => hex ⟨id, x, hx, hP⟩
    exact Or.inr ⟨hnone, authenticate_badToken he
      (fun id x hx hne hh => hnone id x hx ⟨hh, hh ▸ hne⟩) region⟩

theorem sole_token (h : t.Settled) (token : String) : Sole t.entry (HasToken hmac token) := by
  intro id id' x x' hx hx' hP hP'
  obtain ⟨r, hr, rfl⟩ := entry_eq_some.mp hx
  obtain ⟨r', hr', rfl⟩ := entry_eq_some.mp hx'
  have hsame := h.exact.unique ⟨⟨id, hr⟩, hP.1, hP.1 ▸ hP.2⟩ ⟨⟨id', hr'⟩, hP'.1, hP'.1 ▸ hP'.2⟩
  subst hsame
  exact h.keyed.inj hr hr'

theorem dump_ids (hk : t.Keyed) : t.dump.map (·.user.id) = t.byID.keys := by
  rw [dump, List.map_map]
  exact List.map_congr_left fun e he => hk e.1 e.2 (GoMap.mem_entries.mp he)

theorem nodup_dump_ids (hk : t.Keyed) : (t.dump.map (·.user.id)).Nodup := by
  rw [dump_ids hk]
  exact t.byID.nodupKeys

theorem entry_eq_iff (hk : t.Keyed) {id : String} {x : Record} :
    t.entry id = some x ↔ x ∈ t.dump ∧ x.user.id = id := by
  rw [mem_dump]
  constructor
  · intro hx
    obtain ⟨r, hr, rfl⟩ := entry_eq_some.mp hx
    exact ⟨⟨id, hx⟩, hk id r hr⟩
  · rintro ⟨⟨id', hx⟩, rfl⟩
    obtain ⟨r, hr, rfl⟩ := entry_eq_some.mp hx
    rwa [hk id' r hr]

/-- Two tables give the same answers. -/
def Alike (hmac : String → String) (t' t : Table) : Prop :=
  (∀ id, t'.get id = t.get id) ∧ (∀ region status, (t'.list region status).Perm (t.list region status)) ∧
    (∀ name region, authorizeUser t' name region = authorizeUser t name region) ∧
    ∀ token region, authenticateForRegion hmac t' token region =
      authenticateForRegion hmac t token region

theorem alike_refl (t : Table) : Alike hmac t t :=
  ⟨fun _ => rfl, fun _ _ => List.Perm.refl _, fun _ _ => rfl, fun _ _ => rfl⟩

/-- Two settled tables with the same users answer alike. -/
theorem alike_of_entry (h : t.Settled) (h' : t'.Settled) (he : t'.entry = t.entry) :
    Alike hmac t' t := by
  refine ⟨fun id => ?_, fun region status => ?_, fun name region => ?_, fun token region => ?_⟩
  · rw [get_eq, get_eq, he]
  · rw [list_eq, list_eq]
    refine (List.Perm.map _ ?_).filter _
    rw [List.perm_ext_iff_of_nodup (List.Nodup.of_map _ (nodup_dump_ids h'.keyed))
      (List.Nodup.of_map _ (nodup_dump_ids h.keyed))]
    intro x
    rw [mem_dump, mem_dump, he]
  · exact Finds.eq (h.names name) (he ▸ finds_authorize name region) (finds_authorize name region)
  · exact Finds.eq (sole_token h token) (he ▸ finds_authenticate h'.exact token region)
      (finds_authenticate h.exact token region)

end Table
end Userstore
end Revquic
