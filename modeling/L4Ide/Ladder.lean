import L4Ide.Transform
import L4Ide.Environment
import L4Ide.BooleanDecisionQuery

set_option autoImplicit false

/-!
# Ladder diagrams

A rule's body drawn as a ladder, each box with a number of its own, and the boolean expression
that the query planner makes of the ladder.
-/
namespace L4Ide.Ladder
open Syntax Environment Transform

abbrev ID := ℤ

structure VName where
 unique : ℤ
 label : String
 deriving DecidableEq, Repr

inductive IRExpr where
 | and_ (id:ID) (args:List IRExpr)
 | or_ (id:ID) (args:List IRExpr)
 | not_ (id:ID) (e:IRExpr)
 | uBoolVar (id:ID) (name:VName)
 | app (id:ID) (fnName:VName) (args:List IRExpr)
 | trueE (id:ID) (name:VName)
 | falseE (id:ID) (name:VName)
 | inertE (id:ID) (txt:String) (ctx:InertContext)

/-- What the drawing asks of an expression: its text, and whether its type is BOOLEAN. -/
structure Drawer where
 prettyName : Name → String
 prettyExpr : RExpr → String
 hasBooleanType : RExpr → Bool

def scanAnd : RExpr → List RExpr
 | .and e1 e2=>scanAnd e1 ++ scanAnd e2
 | e=>[e]

def scanOr : RExpr → List RExpr
 | .or e1 e2=>scanOr e1 ++ scanOr e2
 | e=>[e]

theorem sizeOf_scanAnd {e x:RExpr} (h:x ∈ scanAnd e) : sizeOf x ≤ sizeOf e := by
 induction e using scanAnd.induct with
 | case1 e1 e2 ih1 ih2=>
  simp only [Expr.and.sizeOf_spec]
  rcases List.mem_append.1 h with h | h
  · have:=ih1 h
    omega
  · have:=ih2 h
    omega
 | case2 e hne=>
  rw [scanAnd] at h
  · rw [List.mem_singleton.1 h]
  · exact hne

theorem sizeOf_scanOr {e x:RExpr} (h:x ∈ scanOr e) : sizeOf x ≤ sizeOf e := by
 induction e using scanOr.induct with
 | case1 e1 e2 ih1 ih2=>
  simp only [Expr.or.sizeOf_spec]
  rcases List.mem_append.1 h with h | h
  · have:=ih1 h
    omega
  · have:=ih2 h
    omega
 | case2 e hne=>
  rw [scanOr] at h
  · rw [List.mem_singleton.1 h]
  · exact hne

theorem sizeOf_scanAnd_lt {e1 e2 x:RExpr} (h:x ∈ scanAnd (.and e1 e2)) :
  sizeOf x < sizeOf (Expr.and e1 e2) := by
 simp only [Expr.and.sizeOf_spec]
 rcases List.mem_append.1 h with h | h
 · have:=sizeOf_scanAnd h
   omega
 · have:=sizeOf_scanAnd h
   omega

theorem sizeOf_scanOr_lt {e1 e2 x:RExpr} (h:x ∈ scanOr (.or e1 e2)) :
  sizeOf x < sizeOf (Expr.or e1 e2) := by
 simp only [Expr.or.sizeOf_spec]
 rcases List.mem_append.1 h with h | h
 · have:=sizeOf_scanOr h
   omega
 · have:=sizeOf_scanOr h
   omega

theorem sizeOf_args_lt {f:Resolved} {args:List RExpr} {ty:Option (Type' Resolved)}
  {x:RExpr} (h:x ∈ args) : sizeOf x < sizeOf (Expr.app f args ty) := by
 have:=List.sizeOf_lt_of_mem h
 simp only [Expr.app.sizeOf_spec]
 omega

/-- One drawing after the other, the last number passed on. -/
@[simp]
def traverse {A:Type} (f:A → ID → IRExpr × ID) : List A → ID → List IRExpr × ID
 | [], n=>([],n)
 | a::rest, n=>
  let (x,n1):=f a n
  let (xs,n2):=traverse f rest n1
  (x::xs,n2)

section Draw
variable (dr:Drawer)

def mkPrettyVizName (r:Resolved) : VName := ⟨r.getUnique.unique,dr.prettyName r.getOriginal⟩

def leafFromExpr (e:RExpr) (n:ID) : IRExpr × ID :=
 (.uBoolVar (n+1) ⟨n+2,dr.prettyExpr e⟩,n+2)

def varOrConstant (r:Resolved) (vid:ID) : IRExpr :=
 if r.getUnique=trueUnique then .trueE vid (mkPrettyVizName dr r)
 else if r.getUnique=falseUnique then .falseE vid (mkPrettyVizName dr r)
 else .uBoolVar vid (mkPrettyVizName dr r)

def inertCtx : InertContext → InertContext
 | .inertCtxAnd=>.inertCtxAnd
 | .inertCtxOr=>.inertCtxOr
 | .inertCtxNone=>.inertCtxAnd

def go (e:RExpr) (n:ID) : IRExpr × ID :=
 match e with
 | .not e1=>
  let (x,n1):=go e1 (n+1)
  (.not_ (n+1) x,n1)
 | .and e1 e2=>
  let (xs,n1):=traverse (fun x=>go x.1) (scanAnd (.and e1 e2)).attach (n+1)
  (.and_ (n+1) xs,n1)
 | .or e1 e2=>
  let (xs,n1):=traverse (fun x=>go x.1) (scanOr (.or e1 e2)).attach (n+1)
  (.or_ (n+1) xs,n1)
 | .where_ e1 _=>go e1 n
 | .inert txt ctx=>(.inertE (n+1) txt (inertCtx ctx),n+1)
 | .app r [] _=>(varOrConstant dr r (n+1),n+1)
 | .app r args ty=>
  if (Expr.app r args ty::args).all dr.hasBooleanType then
   let (xs,n1):=traverse (fun x=>go x.1) args.attach (n+1)
   (.app (n+1) ⟨n+1,dr.prettyExpr (.app r args ty)⟩ xs,n1)
  else leafFromExpr dr (.app r args ty) n
 | e=>leafFromExpr dr e n
termination_by sizeOf e
decreasing_by
 · simp
 · exact sizeOf_scanAnd_lt x.2
 · exact sizeOf_scanOr_lt x.2
 · simp only [Expr.where_.sizeOf_spec]
   omega
 · exact sizeOf_args_lt x.2

def translateExpr (shouldSimplify:Bool) (e:RExpr) (n:ID) : IRExpr × ID :=
 if shouldSimplify then go dr (simplify e) n else go dr e n

end Draw

/-- What the drawing does to a rule first: the clauses it was written as are read through. -/
structure ReadThrough where
 inlineLetsForViz : RExpr → Option RExpr
 carameliseExpr : RExpr → RExpr
 writtenAsClauses : Decide Resolved → Bool
 holdsGeneratedNodes : RExpr → Bool

inductive VizError where
 | invalidDecideMustHaveBoolRetType
 | clauseGroupTooLarge (budget:ℕ)
 | clauseGroupTooLong (budget:ℕ)
 deriving DecidableEq, Repr

structure FunDecl where
 id : ID
 name : VName
 body : IRExpr

def letInliningNodeBudget : ℕ := 20000

def clauseGroupLadderBudget : ℕ := 300

def children : IRExpr → List IRExpr
 | .and_ _ xs | .or_ _ xs | .app _ _ xs=>xs
 | .not_ _ x=>[x]
 | _=>[]

/-- Whether a walk from the boxes runs out of fuel before it runs out of boxes. -/
def irExceedsFrom : ℕ → List IRExpr → Bool
 | 0, _=>true
 | _, []=>false
 | fuel+1, e::rest=>irExceedsFrom fuel (children e ++ rest)

def irExceeds (budget:ℕ) (root:IRExpr) : Bool := irExceedsFrom (budget+1) [root]

section Decides
variable (dr:Drawer) (rt:ReadThrough)

def readsThrough (decide:Decide Resolved) : Bool :=
 match decide with
 | .mkDecide _ _ body0 _=>rt.writtenAsClauses decide && rt.holdsGeneratedNodes body0

/-- The body that is drawn; clauses too long to read through are refused. -/
def bodyDrawn (decide:Decide Resolved) : Except VizError RExpr :=
 match decide with
 | .mkDecide _ _ body0 _=>
  if dr.hasBooleanType body0 then
   match rt.inlineLetsForViz body0 with
   | some inlined=>.ok (rt.carameliseExpr inlined)
   | none=>
    if readsThrough rt decide then .error (.clauseGroupTooLong letInliningNodeBudget)
    else .ok (rt.carameliseExpr body0)
  else .error .invalidDecideMustHaveBoolRetType

def translateDecide (shouldSimplify:Bool) (decide:Decide Resolved) :
  Except VizError FunDecl :=
 match decide with
 | .mkDecide _ appForm _ _=>do
  let body ← bodyDrawn dr rt decide
  -- the declaration takes the first number
  let vid:ID:=1
  let vizBody:=(translateExpr dr shouldSimplify body vid).1
  if readsThrough rt decide && irExceeds clauseGroupLadderBudget vizBody then
   throw (.clauseGroupTooLarge clauseGroupLadderBudget)
  return ⟨vid,mkPrettyVizName dr appForm.head,vizBody⟩

end Decides

section Query
open BooleanDecisionQuery (BoolExpr)

mutual

/-- What the planner makes of a ladder: an expression, its labels and its variables in order. -/
@[simp]
def vizExprToBoolExpr : IRExpr → BoolExpr ℤ × List (ℤ × String) × List ℤ
 | .trueE _ _=>(.bTrue,[],[])
 | .falseE _ _=>(.bFalse,[],[])
 | .uBoolVar _ nm=>(.bVar nm.unique,[(nm.unique,nm.label)],[nm.unique])
 | .app _ nm _=>(.bVar nm.unique,[(nm.unique,nm.label)],[nm.unique])
 | .not_ _ x=>
  let (ex,m,o):=vizExprToBoolExpr x
  (.bNot ex,m,o)
 | .and_ _ xs=>
  let (es,ms,os):=vizExprsToBoolExprs xs
  (.bAnd es,ms,os)
 | .or_ _ xs=>
  let (es,ms,os):=vizExprsToBoolExprs xs
  (.bOr es,ms,os)
 | .inertE _ _ .inertCtxOr=>(.bFalse,[],[])
 | .inertE _ _ _=>(.bTrue,[],[])

@[simp]
def vizExprsToBoolExprs : List IRExpr → List (BoolExpr ℤ) × List (ℤ × String) × List ℤ
 | []=>([],[],[])
 | x::xs=>
  let (e,m,o):=vizExprToBoolExpr x
  let (es,ms,os):=vizExprsToBoolExprs xs
  (e::es,m ++ ms,o ++ os)

end
end Query

end L4Ide.Ladder
