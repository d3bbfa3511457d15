import L4Ide.Syntax

set_option autoImplicit false

/-!
# Logical transformations

Conjunctive normal form, as the query planner simplifies a rule's body.
-/
namespace L4Ide.Transform
open Syntax

abbrev RExpr := Expr Resolved

def implies (e1 e2:RExpr) : RExpr := .or (.not e1) e2

/-- Push down a negation; that of an implication is that of its classical reading. -/
def neg : RExpr → RExpr
 | .not e=>e
 | .and e1 e2=>.or (neg e1) (neg e2)
 | .or e1 e2=>.and (neg e1) (neg e2)
 | .implies e1 e2=>.and e1 (neg e2)
 | .where_ e ds=>.where_ (neg e) ds
 | e=>.not e

/-- Negation normal form; an implication's is that of its classical reading. -/
def nnf : RExpr → RExpr
 | .not e=>neg (nnf e)
 | .and e1 e2=>.and (nnf e1) (nnf e2)
 | .or e1 e2=>.or (nnf e1) (nnf e2)
 | .implies e1 e2=>.or (neg (nnf e1)) (nnf e2)
 | .where_ e ds=>.where_ (nnf e) ds
 | e=>e

/-- Shrinks when a connective is turned to the right or an implication is read classically. -/
def weight : RExpr → ℕ
 | .not e=>weight e+1
 | .and e1 e2=>2*weight e1+weight e2+1
 | .or e1 e2=>2*weight e1+weight e2+1
 | .implies e1 e2=>2*weight e1+weight e2+4
 | .where_ e _=>weight e+1
 | _=>1

theorem weight_pos (e:RExpr) : 0 < weight e := by
 cases e <;> simp [weight]

def distr (e1 e2:RExpr) : RExpr :=
 match e1, e2 with
 | .and a b, e=>.and (distr a e) (distr b e)
 | e, .and a b=>.and (distr e a) (distr e b)
 | e1, e2=>.or e1 e2
termination_by weight e1+weight e2
decreasing_by
 all_goals simp only [weight]; omega

def cnf (e:RExpr) : RExpr :=
 match e with
 | .and (.and e1 e2) e3=>cnf (.and e1 (.and e2 e3))
 | .and e1 e2=>.and (cnf e1) (cnf e2)
 | .or (.or e1 e2) e3=>cnf (.or e1 (.or e2 e3))
 | .or e1 e2=>distr (cnf e1) (cnf e2)
 | .implies e1 e2=>cnf (implies e1 e2)
 | .where_ e ds=>.where_ (cnf e) ds
 | e=>e
termination_by weight e
decreasing_by
 all_goals simp only [implies,weight]
 all_goals
  try have := weight_pos e1
  omega

def simplify (e:RExpr) : RExpr := cnf (nnf e)

end L4Ide.Transform
