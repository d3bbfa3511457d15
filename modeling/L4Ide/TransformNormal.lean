import L4Ide.TransformFormulas

set_option autoImplicit false

/-!
# Simplified bodies are in conjunctive normal form

The truth of an expression under a valuation of what stands between its connectives, and the shape
that the simplified expression has. A `WHERE` is read through, under its declarations.
-/
namespace L4Ide.TransformNormal
open Syntax Transform TransformFormulas

section Truth
variable (v:List Scope → RExpr → Bool)

/-- Truth under a valuation of the leaves, each within the declarations around it. -/
def holds (scopes:List Scope) : RExpr → Bool
 | .not e=>!holds scopes e
 | .and e1 e2=>holds scopes e1 && holds scopes e2
 | .or e1 e2=>holds scopes e1 || holds scopes e2
 | .implies e1 e2=>!holds scopes e1 || holds scopes e2
 | .where_ e ds=>holds (ds::scopes) e
 | e=>v scopes e

variable {v} {scopes:List Scope}

theorem holds_neg (e:RExpr) : holds v scopes (neg e) = !holds v scopes e := by
 induction e using neg.induct generalizing scopes with
 | case1 e=>simp only [neg,holds,Bool.not_not]
 | case2 e1 e2 ih1 ih2=>simp only [neg,holds,ih1,ih2,Bool.not_and]
 | case3 e1 e2 ih1 ih2=>simp only [neg,holds,ih1,ih2,Bool.not_or]
 | case4 e1 e2 ih=>simp only [neg,holds,ih,Bool.not_or,Bool.not_not]
 | case5 e ds ih=>exact ih
 | case6 e _ _ _ _ _=>
  rw [neg]
  · rfl
  all_goals assumption

theorem holds_nnf (e:RExpr) : holds v scopes (nnf e)=holds v scopes e := by
 induction e using nnf.induct generalizing scopes with
 | case1 e ih=>simp only [nnf,holds,holds_neg,ih]
 | case2 e1 e2 ih1 ih2=>simp only [nnf,holds,ih1,ih2]
 | case3 e1 e2 ih1 ih2=>simp only [nnf,holds,ih1,ih2]
 | case4 e1 e2 ih1 ih2=>simp only [nnf,holds,holds_neg,ih1,ih2]
 | case5 e ds ih=>exact ih
 | case6 e _ _ _ _ _=>
  rw [nnf]
  all_goals assumption

theorem holds_distr (e1 e2:RExpr) :
  holds v scopes (distr e1 e2)=(holds v scopes e1 || holds v scopes e2) := by
 induction e1, e2 using distr.induct with
 | case1 a b e ih1 ih2=>simp only [distr,holds,ih1,ih2,Bool.or_and_distrib_right]
 | case2 e a b h ih1 ih2=>
  rw [distr_and_right fun a b=>h a b]
  simp only [holds,ih1,ih2,Bool.or_and_distrib_left]
 | case3 e1 e2 h1 h2=>
  rw [distr_of_not_and (fun a b=>h1 a b) fun a b=>h2 a b]
  rfl

theorem holds_cnf (e:RExpr) : holds v scopes (cnf e)=holds v scopes e := by
 induction e using cnf.induct generalizing scopes with
 | case1 e1 e2 e3 ih=>
  rw [cnf,ih]
  simp only [holds,Bool.and_assoc]
 | case2 e1 e2 h ih1 ih2=>
  rw [cnf_and_of_ne fun a b=>h a b]
  simp only [holds,ih1,ih2]
 | case3 e1 e2 e3 ih=>
  rw [cnf,ih]
  simp only [holds,Bool.or_assoc]
 | case4 e1 e2 h ih1 ih2=>
  rw [cnf_or_of_ne fun a b=>h a b,holds_distr]
  simp only [holds,ih1,ih2]
 | case5 e1 e2 ih=>
  rw [cnf,ih]
  rfl
 | case6 e ds ih=>
  rw [cnf]
  exact ih
 | case7 e _ _ _ _ _ _=>
  rw [cnf]
  all_goals assumption

end Truth

inductive IsNegated : RExpr → Prop where
 | leaf {e:RExpr} (h:isConnective e=false) : IsNegated e
 | not {e:RExpr} (h:isConnective e=false) : IsNegated (.not e)
 | and {e1 e2:RExpr} (h1:IsNegated e1) (h2:IsNegated e2) : IsNegated (.and e1 e2)
 | or {e1 e2:RExpr} (h1:IsNegated e1) (h2:IsNegated e2) : IsNegated (.or e1 e2)
 | where_ {e:RExpr} (h:IsNegated e) (ds:Scope) : IsNegated (.where_ e ds)

mutual

inductive IsLiteral : RExpr → Prop where
 | leaf {e:RExpr} (h:isConnective e=false) : IsLiteral e
 | not {e:RExpr} (h:isConnective e=false) : IsLiteral (.not e)
 | where_ {e:RExpr} (h:IsNormal e) (ds:Scope) : IsLiteral (.where_ e ds)

inductive IsClause : RExpr → Prop where
 | literal {e:RExpr} (h:IsLiteral e) : IsClause e
 | or {e1 e2:RExpr} (h1:IsClause e1) (h2:IsClause e2) : IsClause (.or e1 e2)

/-- A conjunction of disjunctions of literals. -/
inductive IsNormal : RExpr → Prop where
 | clause {e:RExpr} (h:IsClause e) : IsNormal e
 | and {e1 e2:RExpr} (h1:IsNormal e1) (h2:IsNormal e2) : IsNormal (.and e1 e2)

end

theorem isNegated_neg {e:RExpr} (h:IsNegated e) : IsNegated (neg e) := by
 induction h with
 | leaf h=>
  rw [neg_eq_not h]
  exact .not h
 | not h=>exact .leaf h
 | and _ _ ih1 ih2=>exact .or ih1 ih2
 | or _ _ ih1 ih2=>exact .and ih1 ih2
 | where_ _ ds ih=>exact .where_ ih ds

theorem isNegated_nnf (e:RExpr) : IsNegated (nnf e) := by
 induction e using nnf.induct with
 | case1 e ih=>exact isNegated_neg ih
 | case2 e1 e2 ih1 ih2=>exact .and ih1 ih2
 | case3 e1 e2 ih1 ih2=>exact .or ih1 ih2
 | case4 e1 e2 ih1 ih2=>exact .or (isNegated_neg ih1) ih2
 | case5 e ds ih=>exact .where_ ih ds
 | case6 e hnot hand hor himplies hwhere=>
  have hleaf:isConnective e=false:=by
   cases e with
   | not e=>exact absurd rfl (hnot e)
   | and e1 e2=>exact absurd rfl (hand e1 e2)
   | or e1 e2=>exact absurd rfl (hor e1 e2)
   | implies e1 e2=>exact absurd rfl (himplies e1 e2)
   | where_ e ds=>exact absurd rfl (hwhere e ds)
   | _=>rfl
  rw [nnf_eq_self hleaf]
  exact .leaf hleaf

theorem IsNormal.isClause {e:RExpr} (h:IsNormal e) (hne:∀ a b, e ≠ .and a b) :
  IsClause e := by
 cases h with
 | clause h=>exact h
 | and _ _=>exact absurd rfl (hne _ _)

theorem IsLiteral.ne_and {e:RExpr} (h:IsLiteral e) (a b:RExpr) : e ≠ .and a b := by
 intro heq
 subst heq
 cases h with
 | leaf h=>cases h

theorem IsNormal.of_and {a b:RExpr} (h:IsNormal (.and a b)) : IsNormal a ∧ IsNormal b := by
 cases h with
 | clause h=>
  cases h with
  | literal h=>exact absurd rfl (h.ne_and a b)
 | and h1 h2=>exact ⟨h1,h2⟩

theorem isNormal_distr {e1 e2:RExpr} (h1:IsNormal e1) (h2:IsNormal e2) :
  IsNormal (distr e1 e2) := by
 induction e1, e2 using distr.induct with
 | case1 a b e ih1 ih2=>
  rw [distr]
  exact .and (ih1 h1.of_and.1 h2) (ih2 h1.of_and.2 h2)
 | case2 e a b hne ih1 ih2=>
  rw [distr_and_right fun a b=>hne a b]
  exact .and (ih1 h1 h2.of_and.1) (ih2 h1 h2.of_and.2)
 | case3 e1 e2 hne1 hne2=>
  rw [distr_of_not_and (fun a b=>hne1 a b) fun a b=>hne2 a b]
  exact .clause (.or (h1.isClause fun a b=>hne1 a b) (h2.isClause fun a b=>hne2 a b))

theorem IsNegated.of_and {a b:RExpr} (h:IsNegated (.and a b)) : IsNegated a ∧ IsNegated b := by
 cases h with
 | leaf h=>cases h
 | and h1 h2=>exact ⟨h1,h2⟩

theorem IsNegated.of_or {a b:RExpr} (h:IsNegated (.or a b)) : IsNegated a ∧ IsNegated b := by
 cases h with
 | leaf h=>cases h
 | or h1 h2=>exact ⟨h1,h2⟩

theorem isNormal_cnf {e:RExpr} (h:IsNegated e) : IsNormal (cnf e) := by
 induction e using cnf.induct with
 | case1 e1 e2 e3 ih=>
  rw [cnf]
  exact ih (.and h.of_and.1.of_and.1 (.and h.of_and.1.of_and.2 h.of_and.2))
 | case2 e1 e2 hne ih1 ih2=>
  rw [cnf_and_of_ne fun a b=>hne a b]
  exact .and (ih1 h.of_and.1) (ih2 h.of_and.2)
 | case3 e1 e2 e3 ih=>
  rw [cnf]
  exact ih (.or h.of_or.1.of_or.1 (.or h.of_or.1.of_or.2 h.of_or.2))
 | case4 e1 e2 hne ih1 ih2=>
  rw [cnf_or_of_ne fun a b=>hne a b]
  exact isNormal_distr (ih1 h.of_or.1) (ih2 h.of_or.2)
 | case5 e1 e2 ih=>
  cases h with
  | leaf h=>cases h
 | case6 e ds ih=>
  rw [cnf]
  cases h with
  | leaf h=>cases h
  | where_ h ds=>exact .clause (.literal (.where_ (ih h) ds))
 | case7 e _ hand _ hor himplies hwhere=>
  cases h with
  | leaf h=>
   rw [cnf_eq_self h]
   exact .clause (.literal (.leaf h))
  | not h=>
   rw [cnf]
   · exact .clause (.literal (.not h))
   all_goals simp
  | and _ _=>exact absurd rfl (hand _ _)
  | or _ _=>exact absurd rfl (hor _ _)
  | where_ _ _=>exact absurd rfl (hwhere _ _)

/-- The connectives are none but conjunction, disjunction, negation and implication. -/
def whereFree : RExpr → Bool
 | .not e=>whereFree e
 | .and e1 e2 | .or e1 e2 | .implies e1 e2=>whereFree e1 && whereFree e2
 | .where_ _ _=>false
 | _=>true

theorem whereFree_neg (e:RExpr) : whereFree (neg e)=whereFree e := by
 induction e using neg.induct with
 | case1 e=>rfl
 | case2 e1 e2 ih1 ih2=>simp only [neg,whereFree,ih1,ih2]
 | case3 e1 e2 ih1 ih2=>simp only [neg,whereFree,ih1,ih2]
 | case4 e1 e2 ih=>simp only [neg,whereFree,ih]
 | case5 e ds ih=>rfl
 | case6 e _ _ _ _ _=>
  rw [neg]
  · rfl
  all_goals assumption

theorem whereFree_nnf (e:RExpr) : whereFree (nnf e)=whereFree e := by
 induction e using nnf.induct with
 | case1 e ih=>simp only [nnf,whereFree,whereFree_neg,ih]
 | case2 e1 e2 ih1 ih2=>simp only [nnf,whereFree,ih1,ih2]
 | case3 e1 e2 ih1 ih2=>simp only [nnf,whereFree,ih1,ih2]
 | case4 e1 e2 ih1 ih2=>simp only [nnf,whereFree,whereFree_neg,ih1,ih2]
 | case5 e ds ih=>rfl
 | case6 e _ _ _ _ _=>
  rw [nnf]
  all_goals assumption

theorem whereFree_distr (e1 e2:RExpr) :
  whereFree (distr e1 e2)=(whereFree e1 && whereFree e2) := by
 induction e1, e2 using distr.induct with
 | case1 a b e ih1 ih2=>
  simp only [distr,whereFree,ih1,ih2]
  cases whereFree a <;> cases whereFree b <;> cases whereFree e <;> rfl
 | case2 e a b h ih1 ih2=>
  rw [distr_and_right fun a b=>h a b]
  simp only [whereFree,ih1,ih2]
  cases whereFree a <;> cases whereFree b <;> cases whereFree e <;> rfl
 | case3 e1 e2 h1 h2=>
  rw [distr_of_not_and (fun a b=>h1 a b) fun a b=>h2 a b]
  rfl

theorem whereFree_cnf (e:RExpr) : whereFree (cnf e)=whereFree e := by
 induction e using cnf.induct with
 | case1 e1 e2 e3 ih=>
  rw [cnf,ih]
  simp only [whereFree,Bool.and_assoc]
 | case2 e1 e2 h ih1 ih2=>
  rw [cnf_and_of_ne fun a b=>h a b]
  simp only [whereFree,ih1,ih2]
 | case3 e1 e2 e3 ih=>
  rw [cnf,ih]
  simp only [whereFree,Bool.and_assoc]
 | case4 e1 e2 h ih1 ih2=>
  rw [cnf_or_of_ne fun a b=>h a b,whereFree_distr]
  simp only [whereFree,ih1,ih2]
 | case5 e1 e2 ih=>
  rw [cnf,ih]
  rfl
 | case6 e ds ih=>
  rw [cnf]
  rfl
 | case7 e _ _ _ _ _ _=>
  rw [cnf]
  all_goals assumption

/-- A simplified body is in normal form, and true where the body is. -/
theorem simplify_normal (e:RExpr) :
  IsNormal (simplify e) ∧ whereFree (simplify e)=whereFree e ∧
   ∀ (v:List Scope → RExpr → Bool) (scopes:List Scope),
    holds v scopes (simplify e)=holds v scopes e := by
 refine ⟨isNormal_cnf (isNegated_nnf e), ?_, ?_⟩
 · exact (whereFree_cnf (nnf e)).trans (whereFree_nnf e)
 · intro v scopes
   exact (holds_cnf (nnf e)).trans (holds_nnf e)

/-- Truth where an expression under declarations is one more leaf. -/
def holdsOpaque (v:RExpr → Bool) : RExpr → Bool
 | .not e=>!holdsOpaque v e
 | .and e1 e2=>holdsOpaque v e1 && holdsOpaque v e2
 | .or e1 e2=>holdsOpaque v e1 || holdsOpaque v e2
 | .implies e1 e2=>!holdsOpaque v e1 || holdsOpaque v e2
 | e=>v e

def deniedBody : RExpr → Bool
 | .where_ (.not _) _=>true
 | _=>false

def twiceDenied : RExpr := .where_ (.not (.not (.lit (.stringLit "rain")))) []

/-- The body under declarations is converted, so that another leaf stands in its place. -/
theorem simplify_not_opaque :
  ∃ v : RExpr → Bool, holdsOpaque v (simplify twiceDenied) ≠ holdsOpaque v twiceDenied := by
 have hsimplify:simplify twiceDenied = .where_ (.lit (.stringLit "rain")) []:=by
  simp [simplify,twiceDenied,nnf,neg,cnf]
 rw [hsimplify]
 exact ⟨deniedBody,by decide⟩

end L4Ide.TransformNormal
