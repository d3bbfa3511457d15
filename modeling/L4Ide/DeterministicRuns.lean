import Mathlib.Computability.StateTransition

set_option autoImplicit false

/-!
# Runs of a deterministic machine that end

A run that ends at a given state is finite, so what follows for a state from all the later
states of its run holds of every state of it.
-/
namespace L4Ide.DeterministicRuns
open StateTransition

variable {S:Type} {f:S → Option S} {p q r z:S}

theorem not_reaches₁_of_none (hz:f z=none) : ¬ Reaches₁ f z q := by
 intro h
 obtain ⟨r,hr,-⟩:=Relation.TransGen.head'_iff.1 h
 rw [Option.mem_def,hz] at hr
 cases hr

theorem reaches_eq_or_step (h:Reaches f p q) : q=p ∨ Reaches₁ f p q :=
 Relation.reflTransGen_iff_eq_or_transGen.1 h

theorem reaches_step (hstep:f p=some q) (hz:f z=none) (h:Reaches f p z) :
  Reaches f q z := by
 rcases reaches_eq_or_step h with rfl | h
 · rw [hz] at hstep
   cases hstep
 · exact reaches₁_fwd h hstep

theorem run_induction (hz:f z=none) {C:S → Prop}
  (hC:∀ p, Reaches f p z → (∀ q, Reaches₁ f p q → Reaches f q z → C q) → C p)
  (p:S) (hp:Reaches f p z) : C p := by
 suffices ∀ q, Reaches f p q → Reaches f q z → C q from this p .refl hp
 induction hp using Relation.ReflTransGen.head_induction_on with
 | refl=>
  intro q hq hqz
  have hnone:∀ r, ¬ Reaches₁ f z r:=fun r=>not_reaches₁_of_none hz
  rcases reaches_eq_or_step hq with rfl | hq
  · exact hC q .refl fun r hr=>absurd hr (hnone r)
  · exact absurd hq (hnone q)
 | @head p p' hpp' hp' ih=>
  intro q hq hqz
  rcases reaches_eq_or_step hq with rfl | hq
  · exact hC q hqz fun r hr hrz=>ih r (reaches₁_fwd hr hpp') hrz
  · exact ih q (reaches₁_fwd hq hpp') hqz

def Later (f:S → Option S) (p z q:S) : Prop := Reaches₁ f p q ∧ Reaches f q z

theorem later_first (hstep:f p=some q) (hz:f z=none) (h:Reaches f p z) :
  Later f p z q :=
 ⟨.single hstep,reaches_step hstep hz h⟩

theorem Later.step (h:Later f p z q) (hstep:f q=some r) (hz:f z=none) :
  Later f p z r :=
 ⟨h.1.tail hstep,reaches_step hstep hz h.2⟩

theorem Later.reaches (h:Later f p z q) (hqr:Reaches f q r) (hrz:Reaches f r z) :
  Later f p z r :=
 ⟨h.1.trans_left hqr,hrz⟩

theorem not_later_of_none (hq:f q=none) (hne:q ≠ z) : ¬ Later f p z q := by
 intro h
 rcases reaches_eq_or_step h.2 with heq | h
 · exact hne heq.symm
 · exact not_reaches₁_of_none hq h

theorem reaches_end_unique {z' : S} (h:Reaches f p z) (h' : Reaches f p z') (hz:f z=none)
  (hz' : f z' = none) : z=z' := by
 rcases reaches_total h h' with h | h
 · rcases reaches_eq_or_step h with rfl | h
   · rfl
   · exact absurd h (not_reaches₁_of_none hz)
 · rcases reaches_eq_or_step h with rfl | h
   · rfl
   · exact absurd h (not_reaches₁_of_none hz')

end L4Ide.DeterministicRuns
