import Mathlib.Logic.Function.Basic
import Mathlib.Order.Lattice
import Mathlib.Tactic.ByContra
import Mathlib.Tactic.SplitIfs

set_option autoImplicit false

/-!
# Ordered reduced decision trees

Trees that branch on the variables of a linear order and answer with a boolean.
A tree is canonical when the variables grow along every path and no branch has
two equal subtrees. Canonical trees are determined by the function they
compute, and the variables they hold are the ones the function depends on.
-/
namespace L4Ide.DecisionTree

inductive Tree (ν:Type*) where
 | leaf (b:Bool)
 | node (v:ν) (lo hi:Tree ν)
 deriving DecidableEq, Repr

namespace Tree
variable {ν:Type*}

def eval (ρ:ν → Bool) : Tree ν → Bool
 | leaf b=>b
 | node v lo hi=>if ρ v then eval ρ hi else eval ρ lo

def Occurs (x:ν) : Tree ν → Prop
 | leaf _=>False
 | node v lo hi=>x=v ∨ Occurs x lo ∨ Occurs x hi

@[simp] theorem eval_leaf (ρ:ν → Bool) (b:Bool) : (leaf b).eval ρ=b := rfl

theorem eval_node (ρ:ν → Bool) (v:ν) (lo hi:Tree ν) :
  (node v lo hi).eval ρ = if ρ v then hi.eval ρ else lo.eval ρ := rfl

@[simp] theorem occurs_leaf (x:ν) (b:Bool) : ¬(leaf b).Occurs x := id

@[simp] theorem occurs_node (x v:ν) (lo hi:Tree ν) :
  (node v lo hi).Occurs x ↔ x=v ∨ lo.Occurs x ∨ hi.Occurs x := Iff.rfl

theorem eval_congr {ρ σ:ν → Bool} (t:Tree ν) (h:∀ x, t.Occurs x → ρ x=σ x) :
  t.eval ρ=t.eval σ := by
 induction t with
 | leaf b=>rfl
 | node v lo hi ihlo ihhi=>
  have hv:=h v (Or.inl rfl)
  have hlo:=ihlo fun x hx=>h x (Or.inr (Or.inl hx))
  have hhi:=ihhi fun x hx=>h x (Or.inr (Or.inr hx))
  simp only [eval_node,hv,hlo,hhi]

theorem eval_update_of_not_occurs [DecidableEq ν] (ρ:ν → Bool) {x:ν} (b:Bool) {t:Tree ν}
  (h:¬t.Occurs x) : t.eval (Function.update ρ x b)=t.eval ρ := by
 apply eval_congr
 intro y hy
 have hne:y ≠ x:=fun he=>h (he ▸ hy)
 exact Function.update_of_ne hne b ρ

section Canonical
variable [LinearOrder ν]

/-- Every variable of the tree comes after `v`. -/
def Above (v:ν) (t:Tree ν) : Prop := ∀ x, t.Occurs x → v < x

def Canonical : Tree ν → Prop
 | leaf _=>True
 | node v lo hi=>lo ≠ hi ∧ Above v lo ∧ Above v hi ∧ Canonical lo ∧ Canonical hi

variable {v w x:ν} {lo hi t:Tree ν}

theorem above_node (hw:w < v) (hlo:Above w lo) (hhi:Above w hi) :
  Above w (node v lo hi) := by
 rintro x (rfl | hx | hx)
 · exact hw
 · exact hlo x hx
 · exact hhi x hx

theorem Above.not_occurs (h:Above v t) : ¬t.Occurs v :=
 fun hv=>lt_irrefl v (h v hv)

theorem Above.mono (h:Above v t) (hw:w < v) : Above w t :=
 fun x hx=>hw.trans (h x hx)

theorem Canonical.above_root (h:(node v lo hi).Canonical) (hw:w < v) : Above w (node v lo hi) :=
 above_node hw (h.2.1.mono hw) (h.2.2.1.mono hw)

theorem Canonical.eval_lo (h:(node v lo hi).Canonical) (ρ:ν → Bool) :
  (node v lo hi).eval (Function.update ρ v false)=lo.eval ρ := by
 simp [eval_node,eval_update_of_not_occurs ρ false h.2.1.not_occurs]

theorem Canonical.eval_hi (h:(node v lo hi).Canonical) (ρ:ν → Bool) :
  (node v lo hi).eval (Function.update ρ v true)=hi.eval ρ := by
 simp [eval_node,eval_update_of_not_occurs ρ true h.2.2.1.not_occurs]

theorem Canonical.eval_lo_update (h:(node v lo hi).Canonical)
  (hx:x ≠ v) (ρ:ν → Bool) (b:Bool) :
  (node v lo hi).eval (Function.update (Function.update ρ v false) x b) =
   lo.eval (Function.update ρ x b) := by
 rw [Function.update_comm hx.symm,h.eval_lo]

theorem Canonical.eval_hi_update (h:(node v lo hi).Canonical)
  (hx:x ≠ v) (ρ:ν → Bool) (b:Bool) :
  (node v lo hi).eval (Function.update (Function.update ρ v true) x b) =
   hi.eval (Function.update ρ x b) := by
 rw [Function.update_comm hx.symm,h.eval_hi]

theorem Canonical.eq_leaf {b:Bool} (h:t.Canonical)
  (hb:∀ ρ : ν → Bool, t.eval ρ=b) : t=leaf b := by
 induction t with
 | leaf c=>rw [←hb fun _=>false,eval_leaf]
 | node v lo hi ihlo ihhi=>
  have hlo:=ihlo h.2.2.2.1 fun ρ=>by rw [←h.eval_lo,hb]
  have hhi:=ihhi h.2.2.2.2 fun ρ=>by rw [←h.eval_hi,hb]
  exact absurd (hlo.trans hhi.symm) h.1

theorem Canonical.not_ignores_root {u:Tree ν} (h:(node v lo hi).Canonical)
  (hu:¬u.Occurs v) (ihlo:(∀ ρ, lo.eval ρ=u.eval ρ) → lo=u)
  (ihhi:(∀ ρ, hi.eval ρ=u.eval ρ) → hi=u) :
  ¬∀ ρ, (node v lo hi).eval ρ=u.eval ρ := by
 intro heq
 have hlo:=ihlo fun ρ=>by
  rw [←h.eval_lo,heq,eval_update_of_not_occurs ρ false hu]
 have hhi:=ihhi fun ρ=>by
  rw [←h.eval_hi,heq,eval_update_of_not_occurs ρ true hu]
 exact h.1 (hlo.trans hhi.symm)

theorem Canonical.ext {u:Tree ν} (ht:t.Canonical) (hu:u.Canonical)
  (h:∀ ρ, t.eval ρ=u.eval ρ) : t=u := by
 induction t generalizing u with
 | leaf b=>exact (hu.eq_leaf fun ρ=>(h ρ).symm).symm
 | node v lo hi ihlo ihhi=>
  induction u with
  | leaf b=>exact ht.eq_leaf h
  | node w l r ihl ihr=>
   rcases lt_trichotomy v w with hlt | rfl | hgt
   · have hv:¬(node w l r).Occurs v:=(hu.above_root hlt).not_occurs
     exact absurd h (ht.not_ignores_root hv (ihlo ht.2.2.2.1 hu) (ihhi ht.2.2.2.2 hu))
   · have hl:lo=l:=ihlo ht.2.2.2.1 hu.2.2.2.1 fun ρ=>by
      rw [←ht.eval_lo,h,hu.eval_lo]
     have hr:hi=r:=ihhi ht.2.2.2.2 hu.2.2.2.2 fun ρ=>by
      rw [←ht.eval_hi,h,hu.eval_hi]
     rw [hl,hr]
   · have hw:¬(node v lo hi).Occurs w:=(ht.above_root hgt).not_occurs
     refine absurd (fun ρ=>(h ρ).symm) (hu.not_ignores_root hw ?_ ?_)
     · exact fun he=>(ihl hu.2.2.2.1 fun ρ=>(he ρ).symm).symm
     · exact fun he=>(ihr hu.2.2.2.2 fun ρ=>(he ρ).symm).symm

/-- A function depends on a variable when flipping only that variable can
    change its value. -/
def DependsOn (f:(ν → Bool) → Bool) (x:ν) : Prop :=
 ∃ ρ, f (Function.update ρ x true) ≠ f (Function.update ρ x false)

theorem Canonical.dependsOn_of_occurs (h:t.Canonical) (hx:t.Occurs x) :
  DependsOn (fun ρ=>t.eval ρ) x := by
 induction t with
 | leaf b=>exact hx.elim
 | node v lo hi ihlo ihhi=>
  rcases hx with rfl | hx | hx
  · by_contra hno
    have heq:∀ ρ, lo.eval ρ=hi.eval ρ:=by
     intro ρ
     by_contra hne
     exact hno ⟨ρ,by simpa only [h.eval_lo,h.eval_hi] using Ne.symm hne⟩
    exact h.1 (h.2.2.2.1.ext h.2.2.2.2 heq)
  · obtain ⟨ρ,hρ⟩:=ihlo h.2.2.2.1 hx
    have hne:x ≠ v:=(h.2.1 x hx).ne'
    exact ⟨Function.update ρ v false,by simpa only [h.eval_lo_update hne] using hρ⟩
  · obtain ⟨ρ,hρ⟩:=ihhi h.2.2.2.2 hx
    have hne:x ≠ v:=(h.2.2.1 x hx).ne'
    exact ⟨Function.update ρ v true,by simpa only [h.eval_hi_update hne] using hρ⟩

theorem Canonical.occurs_iff (h:t.Canonical) (x:ν) :
  t.Occurs x ↔ DependsOn (fun ρ=>t.eval ρ) x := by
 refine ⟨h.dependsOn_of_occurs, ?_⟩
 rintro ⟨ρ,hρ⟩
 by_contra hx
 exact hρ (by simp only [eval_update_of_not_occurs ρ _ hx])

end Canonical

end Tree

end L4Ide.DecisionTree
