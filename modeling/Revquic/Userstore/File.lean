/-
# The file behind the table

`flushLocked` writes all records, in whatever order the map yields them, and
`load` builds both maps anew from what it reads; the JSON text is taken to
read back as the records it was written from. Opened again, a store whose
tokens were never shared answers every query as the running one does.

An operation changes the maps before the flush, so if the flush fails the
store has changed although the caller is told that it has not.

Key definitions: `load`, `newFile`, `fileMachine`.
Key theorems: `reopen_same_answers`, `noTrace_of_refused`,
`refused_of_noTrace`.
-/
import Revquic.Lib.Persistent
import Revquic.Userstore.Answers

namespace Revquic
namespace Userstore

open Lib

namespace Table

variable {hmac : String → String} {t t' : Table} {c : Call}

/-! ### Loading -/

/-- `load`, from the records in the file. -/
def load (recs : List Record) : Table where
  recs i := recs.getD i ⟨{}, ""⟩
  byID := recs.zipIdx.foldl (fun m e => m.insert e.1.user.id e.2) ∅
  byHash := recs.zipIdx.foldl (fun m e => setHash m e.1.hash e.2) ∅

/-- `NewFile`: a file that does not exist is an empty store. -/
def newFile (file : Option (List Record)) : Table := load (file.getD [])

section
variable {recs : List Record}

theorem lookup_load_byID (hids : (recs.map (·.user.id)).Nodup) {id : String} {i : ℕ} :
    (load recs).byID.lookup id = some i ↔ ∃ x, recs[i]? = some x ∧ x.user.id = id := by
  have := GoMap.lookup_index (l := recs) (p := fun _ => true) (f := fun x => x.user.id)
    (by simpa using hids) (k := id) (i := i)
  simpa [load] using this

theorem lookup_load_byHash (hh : ((recs.filter (·.hash ≠ "")).map (·.hash)).Nodup) {h : String} {i : ℕ} :
    (load recs).byHash.lookup h = some i ↔ ∃ x, recs[i]? = some x ∧ x.hash ≠ "" ∧ x.hash = h := by
  have := GoMap.lookup_index (l := recs) (p := fun x => x.hash ≠ "") (f := fun x => x.hash) hh
    (k := h) (i := i)
  simpa [load, setHash] using this

theorem recs_load {i : ℕ} {x : Record} (h : recs[i]? = some x) : (load recs).recs i = x := by
  simp [load, h]

theorem entry_load (hids : (recs.map (·.user.id)).Nodup) {id : String} {x : Record} :
    (load recs).entry id = some x ↔ x ∈ recs ∧ x.user.id = id := by
  rw [entry_eq_some]
  constructor
  · rintro ⟨i, hi, rfl⟩
    obtain ⟨x, hx, hid⟩ := (lookup_load_byID hids).mp hi
    rw [recs_load hx]
    exact ⟨List.mem_of_getElem? hx, hid⟩
  · rintro ⟨hx, hid⟩
    obtain ⟨i, hi⟩ := List.mem_iff_getElem?.mp hx
    exact ⟨i, (lookup_load_byID hids).mpr ⟨x, hi, hid⟩, recs_load hi⟩

/-- The records of a settled table, in any order, load as a settled table
with the same users. -/
theorem load_of_perm (h : t.Settled) (hp : recs.Perm t.dump) :
    (load recs).Settled ∧ (load recs).entry = t.entry := by
  have hids : (recs.map (·.user.id)).Nodup := (hp.map _).nodup_iff.mpr (nodup_dump_ids h.keyed)
  have hhash : ((recs.filter (·.hash ≠ "")).map (·.hash)).Nodup := by
    refine (List.Nodup.of_map _ hids).filter _ |>.map_on ?_
    intro x hx y hy hxy
    rw [List.mem_filter, hp.mem_iff, mem_dump] at hx hy
    obtain ⟨⟨id, hx⟩, hne⟩ := hx
    obtain ⟨⟨id', hy⟩, -⟩ := hy
    obtain ⟨r, hr, rfl⟩ := entry_eq_some.mp hx
    obtain ⟨r', hr', rfl⟩ := entry_eq_some.mp hy
    have hne : (t.recs r).hash ≠ "" := by simpa using hne
    rw [h.exact.unique ⟨⟨id, hr⟩, rfl, hne⟩ ⟨⟨id', hr'⟩, hxy.symm, hne⟩]
  have hentry : (load recs).entry = t.entry := by
    funext id
    refine Option.ext fun x => ?_
    rw [entry_load hids, entry_eq_iff h.keyed, hp.mem_iff]
  refine ⟨⟨?_, ?_, ?_⟩, hentry⟩
  · intro id i hi
    obtain ⟨x, hx, hid⟩ := (lookup_load_byID hids).mp hi
    rw [recs_load hx, hid]
  · intro y i
    rw [lookup_load_byHash hhash]
    constructor
    · rintro ⟨x, hx, hne, rfl⟩
      exact ⟨⟨_, (lookup_load_byID hids).mpr ⟨x, hx, rfl⟩⟩, by rw [recs_load hx], hne⟩
    · rintro ⟨⟨id, hi⟩, rfl, hne⟩
      obtain ⟨x, hx, -⟩ := (lookup_load_byID hids).mp hi
      rw [recs_load hx] at hne ⊢
      exact ⟨x, hx, hne, rfl⟩
  · intro name
    rw [hentry]
    exact h.names name

end

/-! ### Closing and opening a store -/

/-- A call that succeeds, with the image it writes; the store is opened
again. -/
inductive FileAction
  | call (c : Call) (img : List Record)
  | reopen

/-- One step of a file store. An image has the records in any order. -/
def fileStep (hmac : String → String) (s : Stored Table (List Record)) :
    FileAction → Option (Stored Table (List Record) × List Unit)
  | .call c img =>
    if s.mem.Fresh c then
      match s.perform (apply hmac) c img none with
      | (s', .ok _) => if img.Perm s'.mem.dump then some (s', []) else none
      | (_, .error _) => none
    else none
  | .reopen => some ({ s with mem := newFile s.file }, [])

/-- A store on a path with no file yet. -/
def fileMachine (hmac : String → String) : Machine (Stored Table (List Record)) FileAction Unit :=
  ⟨⟨newFile none, none⟩, fileStep hmac⟩

/-- No call gives a user a token that another user has. -/
def FileAction.Unshared (hmac : String → String) (t : Table) : FileAction → Prop
  | .call c _ => t.Unshared hmac c
  | .reopen => True

instance (hmac : String → String) (t : Table) : DecidablePred (FileAction.Unshared hmac t)
  | .call c _ => inferInstanceAs (Decidable (t.Unshared hmac c))
  | .reopen => isTrue trivial

/-- The memory is settled, and the file has its users. -/
structure Saved (s : Stored Table (List Record)) : Prop where
  settled : s.mem.Settled
  loaded : (newFile s.file).Settled ∧ (newFile s.file).entry = s.mem.entry

theorem saved_init : Saved ⟨newFile none, none⟩ := by
  have h : (newFile none).Settled := (load_of_perm settled_empty (List.Perm.refl [])).1
  exact ⟨h, h, rfl⟩

theorem Saved.step (hm : KeyedHash hmac) {s s' : Stored Table (List Record)} {a : FileAction}
    {o : List Unit} (h : Saved s) (hs : fileStep hmac s a = some (s', o))
    (hu : a.Unshared hmac s.mem) : Saved s' := by
  cases a with
  | reopen =>
    obtain ⟨rfl, -⟩ := Prod.mk.inj (Option.some.inj hs)
    exact ⟨h.loaded.1, h.loaded.1, rfl⟩
  | call c img =>
    simp only [fileStep] at hs
    split_ifs at hs with hf
    cases happ : s.mem.apply hmac c with
    | error err => simp [Stored.perform_refused happ] at hs
    | ok x =>
      obtain ⟨mem, u⟩ := x
      simp only [Stored.perform_ok happ] at hs
      split_ifs at hs with himg
      obtain ⟨rfl, -⟩ := Prod.mk.inj (Option.some.inj hs)
      have hset := h.settled.changed hm (changed_of_apply hf happ) hu
      exact ⟨hset, load_of_perm hset himg⟩

theorem saved_of_run (hm : KeyedHash hmac) {s : Stored Table (List Record)}
    {tr : List (Event (Stored Table (List Record)) FileAction Unit)}
    (h : (fileMachine hmac).Run tr s) (hu : ∀ e ∈ tr, e.act.Unshared hmac e.pre.mem) : Saved s :=
  h.invariant_of (C := fun e => e.act.Unshared hmac e.pre.mem) saved_init
    (fun _ _ _ _ hs hstep hc => hs.step hm hstep hc) hu

/-- **Opening a store again loses nothing.** After any sequence of successful
calls that shares no token, with the store opened again any number of times
in between, and whatever the order in which the records were written, what is
loaded from the file answers every query as the running store does. -/
theorem reopen_same_answers (hm : KeyedHash hmac) {s : Stored Table (List Record)}
    {tr : List (Event (Stored Table (List Record)) FileAction Unit)}
    (h : (fileMachine hmac).Run tr s) (hu : ∀ e ∈ tr, e.act.Unshared hmac e.pre.mem) :
    Alike hmac (newFile s.file) s.mem := by
  have hs := saved_of_run hm h hu
  exact alike_of_entry hs.settled hs.loaded.1 hs.loaded.2

/-- A token is rotated, another cleared, a user deleted, and the records
written in another order than that of the map. -/
theorem reopen_same_answers_rotated : ∃ tr s, (fileMachine id).Run tr s ∧
    (∃ recs ∈ s.file, recs.map (fun x => (x.user.username, x.hash)) = [("bob", "c"), ("alice", "")]) ∧
    (authenticateForRegion id (newFile s.file) "c" "us").map (·.username) = .ok "bob" ∧
    authenticateForRegion id (newFile s.file) "b" "us" = .error .badToken := by
  obtain ⟨tr, s, hrun, hu, hfile, hc, hb⟩ := (fileMachine id).exists_run
    [.call (.create "1" 1 { username := "alice", credential := "a" })
        [⟨⟨"1", "alice", [], "enabled", 1, 1⟩, "a"⟩],
      .call (.create "2" 2 { username := "bob", credential := "b", allowedRegions := ["*"] })
        [⟨⟨"1", "alice", [], "enabled", 1, 1⟩, "a"⟩, ⟨⟨"2", "bob", ["*"], "enabled", 2, 2⟩, "b"⟩],
      .reopen,
      .call (.create "3" 3 { username := "eve" })
        [⟨⟨"3", "eve", [], "enabled", 3, 3⟩, ""⟩, ⟨⟨"1", "alice", [], "enabled", 1, 1⟩, "a"⟩,
          ⟨⟨"2", "bob", ["*"], "enabled", 2, 2⟩, "b"⟩],
      .call (.update "2" 4 { credential := some "c" })
        [⟨⟨"3", "eve", [], "enabled", 3, 3⟩, ""⟩, ⟨⟨"1", "alice", [], "enabled", 1, 1⟩, "a"⟩,
          ⟨⟨"2", "bob", ["*"], "enabled", 2, 4⟩, "c"⟩],
      .call (.update "1" 5 { credential := some "" })
        [⟨⟨"3", "eve", [], "enabled", 3, 3⟩, ""⟩, ⟨⟨"1", "alice", [], "enabled", 1, 5⟩, ""⟩,
          ⟨⟨"2", "bob", ["*"], "enabled", 2, 4⟩, "c"⟩],
      .call (.delete "3")
        [⟨⟨"2", "bob", ["*"], "enabled", 2, 4⟩, "c"⟩, ⟨⟨"1", "alice", [], "enabled", 1, 5⟩, ""⟩]]
    (P := fun r => (∀ e ∈ r.1, e.act.Unshared id e.pre.mem) ∧
      (∃ recs ∈ r.2.file,
        recs.map (fun x => (x.user.username, x.hash)) = [("bob", "c"), ("alice", "")]) ∧
      (authenticateForRegion id r.2.mem "c" "us").map (·.username) = .ok "bob" ∧
      authenticateForRegion id r.2.mem "b" "us" = .error .badToken)
    (by decide +kernel)
  obtain ⟨-, -, -, hauth⟩ := reopen_same_answers keyedHash_id hrun hu
  exact ⟨tr, s, hrun, hfile, by rw [hauth, hc], by rw [hauth, hb]⟩

/-! ### A flush that fails -/

/-- An update at the very time of the user's last one. -/
def SameInstant (t : Table) : Call → Prop
  | .update id now _ => ∃ x, t.entry id = some x ∧ x.user.updatedAt = now
  | .create _ _ _ | .delete _ => False

theorem refused_iff : t.Refused c ↔ ∃ err, t.apply hmac c = .error err := by
  rcases apply_spec hmac t c with ⟨href, happ⟩ | ⟨href, t', happ⟩
  · exact iff_of_true href ⟨_, happ⟩
  · refine iff_of_false href ?_
    rintro ⟨err, herr⟩
    rw [happ] at herr
    cases herr

/-- A call that is not refused shows in what `Get` answers for its user, for
an update by its time at least. -/
theorem get_changed {u : Option User} (hf : t.Fresh c) (happ : t.apply hmac c = .ok (t', u))
    (hget : t'.get c.target = t.get c.target) : t.SameInstant c := by
  have hfound : ¬ t.Refused c := by
    rw [refused_iff, happ]
    rintro ⟨err, herr⟩
    cases herr
  rw [get_eq, get_eq, entry_target (changed_of_apply hf happ)] at hget
  cases c with
  | create id now inp =>
    have hnone : t.entry id = none := by
      rw [entry, AList.lookup_eq_none.mpr hf]
      rfl
    simp [Call.target, Call.makes, hnone] at hget
  | update id now inp =>
    obtain ⟨x, hx⟩ := Option.ne_none_iff_exists'.mp hfound
    simp only [Call.target, Call.makes, hx, Option.map_some, Except.ok.injEq] at hget
    exact ⟨x, hx, by rw [← hget]; rfl⟩
  | delete id =>
    obtain ⟨x, hx⟩ := Option.ne_none_iff_exists'.mp hfound
    simp [Call.target, Call.makes, hx] at hget

section
variable {s : Stored Table (List Record)} {img : List Record} {fail : Option FlushError}

theorem noTrace_of_refused (h : fail = none ∨ s.mem.Refused c) :
    s.NoTrace (apply hmac) (Alike hmac) newFile c img fail :=
  Stored.noTrace_of alike_refl (h.imp_right refused_iff.mp)

theorem refused_of_noTrace (hf : s.mem.Fresh c)
    (hn : s.NoTrace (apply hmac) (Alike hmac) newFile c img fail) :
    fail = none ∨ s.mem.Refused c ∨ s.mem.SameInstant c := by
  cases fail with
  | none => exact Or.inl rfl
  | some err =>
    cases happ : s.mem.apply hmac c with
    | error e => exact Or.inr (Or.inl (refused_iff.mpr ⟨e, happ⟩))
    | ok x =>
      have hsame := hn.of_flush_failed happ
      exact Or.inr (Or.inr (get_changed hf happ (hsame.1 c.target)))

end

end Table
end Userstore
end Revquic
