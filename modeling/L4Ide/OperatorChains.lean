set_option autoImplicit false

/-!
# Chains of operators

How the parser groups an expression and the operators with their operands that follow it, by
priority, associativity and layout.
-/
namespace L4Ide.OperatorChains

inductive Assoc where
 | assocLeft
 | assocRight
 deriving DecidableEq

structure Operator (A:Type) where
 op : A → A → A
 prio : Int
 assoc : Assoc
 /-- The line of the operand to the right. -/
 line : Nat
 /-- The column of the operator itself. -/
 pos : Nat

/-- An operator and the operand to the right of it. -/
structure Cont (A:Type) extends Operator A where
 arg : A

/-- The operand to the left of an operator that waits for the one to the right, with the line
    where it starts and the column of the operator. -/
inductive Stack (A:Type) where
 | frame (s:Stack A) (e:A) (op:A → A → A) (prio:Int) (assoc:Assoc) (line pos:Nat)
 | end_

def assocStronger : Assoc → Assoc → Bool
 | .assocRight, .assocRight=>true
 | .assocLeft, .assocLeft=>false
 -- tolerated, and grouped to the right
 | _, _=>true

def prioStronger (prioy:Int) (assocy:Assoc) (priox:Int) (assocx:Assoc) : Bool :=
 if priox < prioy then true
 else if prioy=priox then assocStronger assocx assocy
 else false

/-- The second operator, with the line where its left operand starts, gives way to the first. -/
def stronger (ly py:Nat) (prioy:Int) (assocy:Assoc)
  (lx px:Nat) (priox:Int) (assocx:Assoc) : Bool :=
 if lx=ly then prioStronger prioy assocy priox assocx
 else decide (px < py) || (decide (py=px) && prioStronger prioy assocy priox assocx)

section Combine
variable {A:Type}

def Stack.depth : Stack A → Nat
 | .frame s _ _ _ _ _ _=>s.depth+1
 | .end_=>0

/-- The operand in focus, with the line where it starts, between the operators that wait on the
    stack and those that are still to come. -/
@[simp] def combine : Stack A → Nat → A → List (Cont A) → A
 | .end_, _, e, []=>e
 | .frame s e1 op _ _ l1 _, _, e2, []=>combine s l1 (op e1 e2) []
 | .end_, l1, e1, c::efs=>
  combine (.frame .end_ e1 c.op c.prio c.assoc l1 c.pos) c.line c.arg efs
 | .frame s e1 op1 prio1 assoc1 l1 p1, l, e2, c::efs=>
  if stronger c.line c.pos c.prio c.assoc l1 p1 prio1 assoc1 then
   combine (.frame (.frame s e1 op1 prio1 assoc1 l1 p1) e2 c.op c.prio c.assoc l c.pos)
    c.line c.arg efs
  else combine s l1 (op1 e1 e2) (c::efs)
termination_by s _ _ efs=>(efs.length,s.depth)
decreasing_by all_goals simp [Stack.depth,Prod.lex_def]

end Combine

end L4Ide.OperatorChains
