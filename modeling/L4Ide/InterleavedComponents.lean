import Mathlib.Data.Finset.Card
import Mathlib.Data.Finset.Filter

set_option autoImplicit false

/-!
# Families of components

A system of components that are known by an index and all start out alike. Only finitely many
have been touched, so those with a given property can be counted.
-/
namespace L4Ide.InterleavedComponents

structure Family (I S:Type) (init:S) where
 get : I → S
 known : Finset I
 get_of_notMem : ∀ i, i ∉ known → get i=init

namespace Family

variable {I S:Type} [DecidableEq I] {init:S}

def start : Family I S init := ⟨fun _=>init,∅,fun _ _=>rfl⟩

def put (i:I) (x:S) (f:Family I S init) : Family I S init where
 get j := if j=i then x else f.get j
 known:=insert i f.known
 get_of_notMem j hj := by
  obtain ⟨hne,hnot⟩:=not_or.mp fun h=>hj (Finset.mem_insert.mpr h)
  rw [if_neg hne]
  exact f.get_of_notMem j hnot

@[simp] theorem get_put_self (i:I) (x:S) (f:Family I S init) : (f.put i x).get i=x :=
 if_pos rfl

theorem get_put_of_ne {i j:I} (h:j ≠ i) (x:S) (f:Family I S init) :
  (f.put i x).get j=f.get j :=
 if_neg h

theorem forall_get_put {P:I → S → Prop} {f:Family I S init} (hf:∀ j, P j (f.get j))
  {i:I} {x:S} (hx:P i x) (j:I) : P j ((f.put i x).get j) := by
 by_cases h:j=i
 · subst h
   rwa [get_put_self]
 · rw [get_put_of_ne h]
   exact hf j

/-- How many components have the property, which those at the start do not have. -/
def count (p:S → Bool) (f:Family I S init) : ℕ := (f.known.filter fun i=>p (f.get i)).card

section Count

variable {p:S → Bool} (hinit:p init=false) (f:Family I S init)
include hinit

theorem mem_counted {i:I} : i ∈ f.known.filter (fun i=>p (f.get i)) ↔ p (f.get i)=true := by
 rw [Finset.mem_filter]
 refine ⟨fun h=>h.2,fun h=>⟨?_,h⟩⟩
 by_contra hnot
 rw [f.get_of_notMem i hnot,hinit] at h
 cases h

theorem count_put_le {i:I} {x:S} (h:p x=true → p (f.get i)=true) :
  (f.put i x).count p ≤ f.count p := by
 apply Finset.card_le_card
 intro j hj
 rw [mem_counted hinit] at hj ⊢
 by_cases hji:j=i
 · subst hji
   rw [get_put_self] at hj
   exact h hj
 · rwa [get_put_of_ne hji] at hj

theorem count_put_le_succ (i:I) (x:S) : (f.put i x).count p ≤ f.count p+1 := by
 refine le_trans (Finset.card_le_card ?_) (Finset.card_insert_le i _)
 intro j hj
 rw [mem_counted hinit] at hj
 rw [Finset.mem_insert,mem_counted hinit]
 by_cases hji:j=i
 · exact Or.inl hji
 · rw [get_put_of_ne hji] at hj
   exact Or.inr hj

end Count

omit [DecidableEq I] in
theorem count_le_count {p q:S → Bool} {f:Family I S init}
  (h:∀ i, p (f.get i)=true → q (f.get i)=true) : f.count p ≤ f.count q := by
 apply Finset.card_le_card
 intro i hi
 rw [Finset.mem_filter] at hi ⊢
 exact ⟨hi.1,h i hi.2⟩

end Family

end L4Ide.InterleavedComponents
