import Mathlib.Data.List.Basic

set_option autoImplicit false

/-!
# Admissible runs

Runs of a system that takes one action after another, and those of them whose every action is
admitted in the state that it meets.
-/
namespace L4Ide.AdmissibleRuns

section Runs

variable {A S:Type} (step:A → S → S) (admits:S → A → Prop)

def run (actions:List A) (s:S) : S := actions.foldl (fun s action=>step action s) s

def Admissible : List A → S → Prop
 | [], _=>True
 | action::actions, s=>admits s action ∧ Admissible actions (step action s)

instance decidableAdmissible [∀ s action, Decidable (admits s action)] :
  (actions:List A) → (s:S) → Decidable (Admissible step admits actions s)
 | [], _=>inferInstanceAs (Decidable True)
 | action::actions, s=>
  have:=decidableAdmissible actions (step action s)
  inferInstanceAs (Decidable (admits s action ∧ Admissible step admits actions (step action s)))

@[simp] theorem run_nil (s:S) : run step [] s=s := rfl

@[simp] theorem run_cons (action:A) (actions:List A) (s:S) :
  run step (action::actions) s=run step actions (step action s) := rfl

theorem run_append (actions more:List A) (s:S) :
  run step (actions ++ more) s=run step more (run step actions s) :=
 List.foldl_append

variable {step admits}

theorem run_invariant {P:S → Prop} (hstep:∀ s action, P s → P (step action s))
  (actions:List A) {s:S} (h:P s) : P (run step actions s) := by
 induction actions generalizing s with
 | nil=>exact h
 | cons action actions ih=>
  rw [run_cons]
  exact ih (hstep s action h)

theorem Admissible.invariant {P:S → Prop}
  (hstep:∀ s action, P s → admits s action → P (step action s)) {actions:List A} {s:S}
  (hrun:Admissible step admits actions s) (h:P s) : P (run step actions s) := by
 induction actions generalizing s with
 | nil=>exact h
 | cons action actions ih=>
  obtain ⟨hadmits,hrest⟩:=hrun
  rw [run_cons]
  exact ih hrest (hstep s action h hadmits)

theorem Admissible.of_append {actions rest:List A} {s:S}
  (h:Admissible step admits (actions ++ rest) s) : Admissible step admits actions s := by
 induction actions generalizing s with
 | nil=>trivial
 | cons action actions ih=>exact ⟨h.1,ih h.2⟩

theorem Admissible.and {admits' : S → A → Prop} {actions:List A} {s:S}
  (h:Admissible step admits actions s) (h' : Admissible step admits' actions s) :
  Admissible step (fun s action=>admits s action ∧ admits' s action) actions s := by
 induction actions generalizing s with
 | nil=>trivial
 | cons action actions ih=>exact ⟨⟨h.1,h'.1⟩,ih h.2 h'.2⟩

/-- When an action that is not admitted breaks a property that an invariant gives, the admissible
runs are the runs in which the property holds all along. -/
theorem admissible_iff_each {I P:S → Prop} (hholds:∀ s, I s → P s)
  (hstep:∀ s action, I s → admits s action → I (step action s))
  (hbreaks:∀ s action, I s → P (step action s) → admits s action) (actions:List A) {s:S}
  (h:I s) :
  Admissible step admits actions s ↔ ∀ taken, taken <+: actions → P (run step taken s) := by
 constructor
 · intro hrun taken htaken
   obtain ⟨rest,rfl⟩:=htaken
   exact hholds _ (hrun.of_append.invariant hstep h)
 · intro hall
   induction actions generalizing s with
   | nil=>trivial
   | cons action actions ih=>
    have hadmits:admits s action:=
     hbreaks s action h (hall [action] (List.prefix_append [action] actions))
    apply And.intro hadmits
    apply ih (hstep s action h hadmits)
    intro taken htaken
    exact hall (action::taken) (List.prefix_cons_inj action |>.mpr htaken)

end Runs

end L4Ide.AdmissibleRuns
