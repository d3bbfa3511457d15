import Std.Data.TreeMap.Lemmas
import Std.Data.TreeSet.Lemmas
import Mathlib.Order.WithBot
import Mathlib.Order.Lattice.Nat
import Mathlib.Data.List.Sort
import Mathlib.Logic.Function.Basic

set_option autoImplicit false

/-!
# The boolean decision query engine

A boolean expression is compiled to a hash-consed decision diagram, which
answers what is determined under partial bindings and what is still needed.
Tables with no ordered traversal are partial functions; the maps and sets the
caller sees are ordered ones. An internal error of the source is `none`, and
the recursions on node ids carry fuel, which their callers choose large enough.
-/
namespace L4Ide.BooleanDecisionQuery
open Std (TreeMap TreeSet)

inductive BoolExpr (V:Type) where
 | bTrue
 | bFalse
 | bVar (v:V)
 | bNot (e:BoolExpr V)
 | bAnd (es:List (BoolExpr V))
 | bOr (es:List (BoolExpr V))

abbrev NodeId := ℕ

inductive Node where
 | terminal (b:Bool)
 | branch (v:ℕ) (lo hi:NodeId)
 deriving DecidableEq, Repr

inductive Op where
 | opAnd
 | opOr
 deriving DecidableEq, Repr

structure Bdd where
 nodes : NodeId → Option Node
 uniqueTable : ℕ × NodeId × NodeId → Option NodeId
 nextId : NodeId
 applyMemo : Op × NodeId × NodeId → Option NodeId
 negMemo : NodeId → Option NodeId

def emptyBdd : Bdd where
 nodes:=fun n=>if n=0 then some (.terminal false) else
  if n=1 then some (.terminal true) else none
 uniqueTable:=fun _=>none
 nextId:=2
 applyMemo:=fun _=>none
 negMemo:=fun _=>none

def isTerminal (n:NodeId) : Bool := n == 0 || n == 1

def mk (v:ℕ) (lo hi:NodeId) (bdd:Bdd) : NodeId × Bdd :=
 if lo=hi then (lo,bdd) else
  match bdd.uniqueTable (v,lo,hi) with
  | some existing=>(existing,bdd)
  | none=>
   (bdd.nextId,
    { bdd with
      nodes:=Function.update bdd.nodes bdd.nextId (some (.branch v lo hi))
      uniqueTable:=Function.update bdd.uniqueTable (v,lo,hi) (some bdd.nextId)
      nextId:=bdd.nextId+1 })

def var (v:ℕ) (bdd:Bdd) : NodeId × Bdd := mk v 0 1 bdd

def Bdd.rememberNeg (bdd:Bdd) (nid res:NodeId) : Bdd :=
 { bdd with negMemo:=Function.update bdd.negMemo nid (some res) }

def Bdd.rememberApply (bdd:Bdd) (op:Op) (a b res:NodeId) : Bdd :=
 { bdd with applyMemo:=Function.update bdd.applyMemo (op,a,b) (some res) }

def negFuel : ℕ → NodeId → Bdd → Option (NodeId × Bdd)
 | 0, _, _=>none
 | fuel+1, nid, bdd=>
  match bdd.negMemo nid with
  | some cached=>some (cached,bdd)
  | none=>
   match bdd.nodes nid with
   | none=>none
   | some (.terminal false)=>some (1,bdd.rememberNeg nid 1)
   | some (.terminal true)=>some (0,bdd.rememberNeg nid 0)
   | some (.branch v lo hi)=>do
    let (nlo,bdd1) ← negFuel fuel lo bdd
    let (nhi,bdd2) ← negFuel fuel hi bdd1
    let (res,bdd3):=mk v nlo nhi bdd2
    return (res,bdd3.rememberNeg nid res)

def neg (nid:NodeId) (bdd:Bdd) : Option (NodeId × Bdd) := negFuel (nid+1) nid bdd

def opEval : Op → Bool → Bool → Bool
 | .opAnd, a, b=>a && b
 | .opOr, a, b=>a || b

/-- The variable a node tests; a terminal has `maxBound`, after every index. -/
def Node.topVar : Node → WithTop ℕ
 | .terminal _=>⊤
 | .branch v _ _=>WithTop.some v

/-- The node's children when it tests `top`, the node itself twice otherwise. -/
def Node.cofactors (a:NodeId) (top:WithTop ℕ) : Node → NodeId × NodeId
 | .terminal _=>(a,a)
 | .branch v lo hi=>if WithTop.some v=top then (lo,hi) else (a,a)

def applyFuel : ℕ → Op → NodeId → NodeId → Bdd → Option (NodeId × Bdd)
 | 0, _, _, _, _=>none
 | fuel+1, op, a, b, bdd=>
  if a=b then some (a,bdd)
  else if isTerminal a && isTerminal b then
   match bdd.nodes a, bdd.nodes b with
   | some (.terminal av), some (.terminal bv)=>
    if opEval op av bv then some (1,bdd) else some (0,bdd)
   | _, _=>none
  else
   match bdd.applyMemo (op,a,b) with
   | some cached=>some (cached,bdd)
   | none=>do
    let an ← bdd.nodes a
    let bn ← bdd.nodes b
    -- two terminals never get here, so the least variable is an index
    match min an.topVar bn.topVar with
    | ⊤=>none
    | WithTop.some top=>
     let (aLo,aHi):=an.cofactors a (WithTop.some top)
     let (bLo,bHi):=bn.cofactors b (WithTop.some top)
     let (loRes,bdd1) ← applyFuel fuel op aLo bLo bdd
     let (hiRes,bdd2) ← applyFuel fuel op aHi bHi bdd1
     let (res,bdd3):=mk top loRes hiRes bdd2
     return (res,bdd3.rememberApply op a b res)

def apply (op:Op) (a b:NodeId) (bdd:Bdd) : Option (NodeId × Bdd) :=
 applyFuel (a+b+1) op a b bdd

def restrictVarFuel : ℕ → ℕ → Bool → NodeId → Bdd → Option (NodeId × Bdd)
 | 0, _, _, _, _=>none
 | fuel+1, v, val, nid, bdd=>
  match bdd.nodes nid with
  | none=>none
  | some (.terminal _)=>some (nid,bdd)
  | some (.branch v' lo hi)=>
   if v' = v then
    if val then some (hi,bdd) else some (lo,bdd)
   else do
    let (nlo,bdd1) ← restrictVarFuel fuel v val lo bdd
    let (nhi,bdd2) ← restrictVarFuel fuel v val hi bdd1
    return mk v' nlo nhi bdd2

def restrictVar (v:ℕ) (val:Bool) (nid:NodeId) (bdd:Bdd) : Option (NodeId × Bdd) :=
 restrictVarFuel (nid+1) v val nid bdd

def restrictMany (bindings:TreeMap ℕ Bool) (nid:NodeId) (bdd:Bdd) : Option (NodeId × Bdd) :=
 bindings.foldlM (fun (accId,accBdd) v val=>restrictVar v val accId accBdd) (nid,bdd)

def supportGo (bdd:Bdd) :
  ℕ → TreeSet NodeId → TreeSet ℕ → NodeId → Option (TreeSet ℕ)
 | 0, _, _, _=>none
 | fuel+1, seen, vars, nid=>
  if isTerminal nid then some vars
  else if nid ∈ seen then some vars
  else
   match bdd.nodes nid with
   | none=>none
   | some (.terminal _)=>some vars
   | some (.branch v lo hi)=>do
    let seen' :=seen.insert nid
    let vars' :=vars.insert v
    let vars'' ← supportGo bdd fuel seen' vars' lo
    supportGo bdd fuel seen' vars'' hi

def support (root:NodeId) (bdd:Bdd) : Option (TreeSet ℕ) :=
 supportGo bdd (root+1) ∅ ∅ root

def determinedFromRoot : NodeId → Option Bool
 | 0=>some false
 | 1=>some true
 | _=>none

section Query
variable {V:Type} [Ord V]

structure QueryOutcome (V:Type) [Ord V] where
 determined : Option Bool
 support : TreeSet V

structure VarImpact (V:Type) [Ord V] where
 ifTrue : QueryOutcome V
 ifFalse : QueryOutcome V

structure DecisionQueryResult (V:Type) [Ord V] where
 determined : Option Bool
 support : TreeSet V
 ranked : List V
 impact : TreeMap V (VarImpact V)

structure CompiledDecisionQuery (V:Type) [Ord V] where
 varOrder : List V
 vToIdx : TreeMap V ℕ
 idxToV : TreeMap ℕ V
 root : NodeId
 bdd : Bdd

mutual
def compile (vToIdx:TreeMap V ℕ) : BoolExpr V → Bdd → Option (NodeId × Bdd)
 | .bTrue, bdd=>some (1,bdd)
 | .bFalse, bdd=>some (0,bdd)
 | .bVar v, bdd=>
  match vToIdx[v]? with
  | none=>none
  | some idx=>some (var idx bdd)
 | .bNot e, bdd=>do
  let (nid,bdd1) ← compile vToIdx e bdd
  neg nid bdd1
 | .bAnd es, bdd=>compileAll vToIdx .opAnd es 1 bdd
 | .bOr es, bdd=>compileAll vToIdx .opOr es 0 bdd

def compileAll (vToIdx:TreeMap V ℕ) (op:Op) :
  List (BoolExpr V) → NodeId → Bdd → Option (NodeId × Bdd)
 | [], acc, bddAcc=>some (acc,bddAcc)
 | e::es, acc, bddAcc=>do
  let (nid,bddE) ← compile vToIdx e bddAcc
  let (acc', bdd') ← apply op acc nid bddE
  compileAll vToIdx op es acc' bdd'
end

def compileDecisionQuery (order:List V) (expr:BoolExpr V) : Option (CompiledDecisionQuery V) := do
 let vToIdx:=TreeMap.ofList order.zipIdx
 let (root,bdd0) ← compile vToIdx expr emptyBdd
 return {
  varOrder:=order
  vToIdx
  idxToV:=TreeMap.ofList (order.zipIdx.map Prod.swap)
  root
  bdd:=bdd0 }

def CompiledDecisionQuery.idxBindings (compiled:CompiledDecisionQuery V)
  (bindings:TreeMap V Bool) : TreeMap ℕ Bool :=
 TreeMap.ofList (bindings.toList.filterMap fun (v,b)=>
  compiled.vToIdx[v]?.map fun idx=>(idx,b))

def CompiledDecisionQuery.supportVs (compiled:CompiledDecisionQuery V) (s:TreeSet ℕ) :
  TreeSet V :=
 TreeSet.ofList (s.toList.filterMap fun idx=>compiled.idxToV[idx]?)

def CompiledDecisionQuery.outcomeOf (compiled:CompiledDecisionQuery V) (rid:NodeId)
  (bdd:Bdd) : Option (QueryOutcome V) := do
 let s ← BooleanDecisionQuery.support rid bdd
 return { determined:=determinedFromRoot rid,support:=compiled.supportVs s }

def CompiledDecisionQuery.impactOf (compiled:CompiledDecisionQuery V) (restrictedRoot:NodeId)
  (bdd1:Bdd) (v:V) : Option (VarImpact V) :=
 match compiled.vToIdx[v]? with
 | none=>none
 | some idx=>do
  let (ridT,bddT) ← restrictVar idx true restrictedRoot bdd1
  let (ridF,bddF) ← restrictVar idx false restrictedRoot bdd1
  let ifTrue ← compiled.outcomeOf ridT bddT
  let ifFalse ← compiled.outcomeOf ridF bddF
  return { ifTrue,ifFalse }

def determinableCount (impactMap:TreeMap V (VarImpact V)) (v:V) : ℕ :=
 match impactMap[v]? with
 | none=>0
 | some vi=>vi.ifTrue.determined.isSome.toNat+vi.ifFalse.determined.isSome.toNat

def CompiledDecisionQuery.level (compiled:CompiledDecisionQuery V) (v:V) : ℕ :=
 compiled.vToIdx.getD v 1000000

/-- A stable sort on the number of answers that settle the query, most first,
    and then on the level. -/
def CompiledDecisionQuery.rankedVars (compiled:CompiledDecisionQuery V)
  (impactMap:TreeMap V (VarImpact V)) (supportVs:TreeSet V) : List V :=
 supportVs.toList.mergeSort fun v w=>
  determinableCount impactMap w < determinableCount impactMap v ∨
   determinableCount impactMap w=determinableCount impactMap v ∧
    compiled.level v ≤ compiled.level w

def queryDecision (compiled:CompiledDecisionQuery V) (bindings:TreeMap V Bool) :
  Option (DecisionQueryResult V) := do
 let (restrictedRoot,bdd1) ←
  restrictMany (compiled.idxBindings bindings) compiled.root compiled.bdd
 let supportIdx ← BooleanDecisionQuery.support restrictedRoot bdd1
 let supportVs:=compiled.supportVs supportIdx
 let impacts ← supportVs.toList.mapM fun v=>do
  let vi ← compiled.impactOf restrictedRoot bdd1 v
  return (v,vi)
 let impactMap:=TreeMap.ofList impacts
 return {
  determined:=determinedFromRoot restrictedRoot
  support:=supportVs
  ranked:=compiled.rankedVars impactMap supportVs
  impact:=impactMap }

end Query

end L4Ide.BooleanDecisionQuery
