/-
# When an address comes back

The addresses of the broker's pool are handed out in turn. An address that a
session has given back goes to another client only when every other address
has been in use since it was handed out. So a packet that is late by less
than a whole turn of the pool does not meet the wrong session.

Key definitions: `Allocates`, `UsedIn`.
Key theorem: `address_reused_last`.
-/
import Revquic.Broker.Moves
import Revquic.Ippool.Reuse

namespace Revquic
namespace Broker

open Lib Netip Ippool Proto

/-- A goroutine is handed the address. -/
def allocates (b b' : State) (x : Addr) : Action → Bool
  | .client c _ => (b.client c).pc = .numbered && (b'.client c).pc = .allocated &&
      (b'.client c).clientAddr = x
  | _ => false

def Allocates (e : Event State Action Out) (x : Addr) : Prop := allocates e.pre e.post x e.act = true

instance (e : Event State Action Out) (x : Addr) : Decidable (Allocates e x) :=
  inferInstanceAs (Decidable (_ = _))

/-- The address is in use after one of the steps. -/
def UsedIn (tr : List (Event State Action Out)) (y : Addr) : Prop :=
  ∃ e ∈ tr, y ∈ e.post.ipPool.used

section
variable {cfg : Config} {users : Userstore.Table} {b b' : State} {a : Action} {o : List Out}
  {tr tr₁ tr₂ : List (Event State Action Out)} {e₁ : Event State Action Out} {x y : Addr}

/-- What a step does to the pool: nothing, one call of `Allocate`, or one of
`Release`. -/
theorem Move.pool (hm : Move cfg b a b' o) :
    b'.ipPool = b.ipPool ∨ (∃ x, b.ipPool.allocate = .ok (x, b'.ipPool)) ∨
      ∃ x, b'.ipPool = b.ipPool.release x := by
  cases hm with
  | env core | walk c t' core => exact Or.inl core.ipPool
  | register c msg => exact Or.inl (handleExit_core cfg b c msg).ipPool
  | alloc c i addr pool _ ha => exact Or.inr (Or.inl ⟨addr, ha⟩)
  | close | expire => exact Or.inr (Or.inr ⟨_, rfl⟩)
  | _ => exact Or.inl rfl

/-- The pool of the broker keeps its prefix and what is reserved. -/
theorem kept_of_run (h : (machine cfg users).Run tr b) :
    Pool.Kept vpnPrefix [.v4 0x0a630001#32] b.ipPool := by
  refine h.invariant (I := fun b => Pool.Kept vpnPrefix [.v4 0x0a630001#32] b.ipPool) (Pool.Kept.new rfl) ?_
  intro s a s' o hk hs
  rcases (step_move hs).pool with heq | ⟨x, hx⟩ | ⟨x, hx⟩
  · rw [heq]
    exact hk
  · have hcall : s.ipPool.step .allocate = some (s'.ipPool, [.ok x]) := by
      simp only [Pool.step, hx]
    exact hk.step rfl hcall
  · have hcall : s.ipPool.step (.release x) = some (s'.ipPool, []) := by
      simp only [Pool.step, hx]
    exact hk.step rfl hcall

/-- The pool after an address was handed out. -/
theorem Allocates.post (h : Allocates e₁ x) (hs : step cfg e₁.pre e₁.act = some (e₁.post, e₁.out)) :
    e₁.pre.ipPool.allocate = .ok (x, e₁.post.ipPool) := by
  obtain ⟨b, a, o, b'⟩ := e₁
  change step cfg b a = some (b', o) at hs
  cases a with
  | client c i =>
    simp only [Allocates, allocates, Bool.and_eq_true, decide_eq_true_eq] at h
    obtain ⟨⟨hpc, hpc'⟩, haddr⟩ := h
    show b.ipPool.allocate = .ok (x, b'.ipPool)
    cases stepped_of_step hs with
    | client _ _ hstep =>
      cases hstep with
      | alloc addr pool _ hall =>
        simp only [State.setClient, Function.update_self] at haddr
        rw [← haddr]
        exact hall
      | exhaust => simp [State.setClient] at hpc'
      | vanish pc => rcases pc with pc | pc <;> simp [hpc] at pc
      | close _ _ pc | finish _ pc => rcases pc with ⟨pc, -⟩ | ⟨pc, -⟩ <;> simp [hpc] at pc
      | _ => simp_all
  | _ => cases h

/-- The cursor walks on from behind an address that was handed out, over
addresses that have been in use since. -/
theorem walked_of_run (h : (machine cfg users).Run (tr₁ ++ e₁ :: tr₂) b) (h₁ : Allocates e₁ x) :
    Pool.Walked x (UsedIn (e₁ :: tr₂)) b.ipPool ∧ ∀ y ∈ b.ipPool.used, UsedIn (e₁ :: tr₂) y := by
  have happ : tr₁ ++ e₁ :: tr₂ = (tr₁ ++ [e₁]) ++ tr₂ := by simp
  rw [happ] at h
  refine h.invariant_since (C := fun _ => True)
    (I := fun tr b => Pool.Walked x (UsedIn (e₁ :: tr)) b.ipPool ∧ ∀ y ∈ b.ipPool.used, UsedIn (e₁ :: tr) y)
    ?_ ?_ fun _ _ => trivial
  · intro s hr
    obtain ⟨hr, hstep, rfl⟩ := hr.last
    have hall := h₁.post hstep
    exact ⟨Pool.Walked.start hall (Pool.allocate_contains hall).2 _,
      fun y hy => ⟨e₁, List.mem_singleton_self e₁, hy⟩⟩
  · intro tr s a s' o hr hI hstep _
    obtain ⟨hwalk, hused⟩ := hI
    have hmono : ∀ y, UsedIn (e₁ :: tr) y → UsedIn (e₁ :: (tr ++ [⟨s, a, o, s'⟩])) y := by
      rintro y ⟨e, he, hy⟩
      refine ⟨e, ?_, hy⟩
      rw [← List.cons_append]
      exact List.mem_append_left _ he
    have hlast : ∀ y ∈ s'.ipPool.used, UsedIn (e₁ :: (tr ++ [⟨s, a, o, s'⟩])) y :=
      fun y hy => ⟨⟨s, a, o, s'⟩, by simp, hy⟩
    refine ⟨?_, hlast⟩
    rcases (step_move hstep).pool with heq | ⟨z, hz⟩ | ⟨z, hz⟩
    · exact hwalk.mono (by rw [heq]) (by rw [heq]) (by rw [heq]) hmono
    · exact hwalk.allocate hz (Pool.allocate_contains hz).2 hmono hlast
    · exact hwalk.mono (by rw [hz]; rfl) (by rw [hz]; rfl) (by rw [hz]; rfl) hmono

/-- **An address is not handed out again before every other has been in use
since it was handed out.** -/
theorem address_reused_last (h : (machine cfg users).Run (tr₁ ++ e₁ :: tr₂) b) (h₁ : Allocates e₁ x)
    (hy : b.ipPool.usable y = true) (hfree : ¬ UsedIn (e₁ :: tr₂) y) (pool : Pool) :
    b.ipPool.allocate ≠ .ok (x, pool) := by
  intro hall
  have hp := Pool.masked_of_pfx rfl (kept_of_run h).pfx
  obtain ⟨hwalk, hused⟩ := walked_of_run h h₁
  rcases hwalk.back hp hall hused hy with rfl | hseen
  · -- the address itself, since the step that handed it out
    obtain ⟨-, hstep⟩ := h.at_event rfl
    refine hfree ⟨e₁, List.mem_cons_self, ?_⟩
    rw [(Pool.allocate_used (h₁.post hstep)).2]
    exact Finset.mem_insert_self _ _
  · exact hfree hseen

/-- One client comes and goes, and another comes: its address is not the one
that is free again. -/
theorem address_reused_last_next : ∃ tr b, (machine {} aliceStore).Run tr b ∧
    (.v4 0x0a630002#32 : Addr) ∉ b.ipPool.used ∧ (b.client 2).pc = .numbered ∧
    ∀ pool, b.ipPool.allocate ≠ .ok (.v4 0x0a630002#32, pool) := by
  obtain ⟨tr, b, hr, hout, hpc, ⟨e₁, he₁, hall⟩, husable, hfree⟩ := (machine {} aliceStore).exists_run
    (.register 0 (node "e1" "us" 0) :: joins 1 (aliceConnect "us" "") ++
      [.drop 1 .other, .client 1 {}, .connect 2 (aliceConnect "us" ""), .client 2 {}, .client 2 {},
        .client 2 {}] : List Action)
    (P := fun r => (.v4 0x0a630002#32 : Addr) ∉ r.2.ipPool.used ∧ (r.2.client 2).pc = .numbered ∧
      (∃ e ∈ r.1[5]?, Allocates e (.v4 0x0a630002#32)) ∧ r.2.ipPool.usable (.v4 0x0a630009#32) = true ∧
      ∀ e ∈ r.1.drop 5, (.v4 0x0a630009#32 : Addr) ∉ e.post.ipPool.used)
    (by decide +kernel)
  obtain ⟨hlt, rfl⟩ := List.getElem?_eq_some_iff.mp he₁
  have hsplit : tr = tr.take 5 ++ tr[5] :: tr.drop 6 := by
    rw [← List.drop_eq_getElem_cons hlt, List.take_append_drop]
  rw [List.drop_eq_getElem_cons hlt] at hfree
  refine ⟨tr, b, hr, hout, hpc, fun pool => ?_⟩
  rw [hsplit] at hr
  exact address_reused_last hr hall husable (fun ⟨e, he, hy⟩ => hfree e he hy) pool

end
end Broker
end Revquic
