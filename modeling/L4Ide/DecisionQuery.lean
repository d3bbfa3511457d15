import L4Ide.Robdd
import L4Ide.Ladder

set_option autoImplicit false

/-!
# The ladder's decision query

A ladder is compiled once to a diagram that the query keeps. Each query restricts it under the
bindings given, and leaves the nodes and the memos that it made behind for the next one.
-/
namespace L4Ide.DecisionQuery
open Std (TreeMap TreeSet)
open Ladder Robdd
open BooleanDecisionQuery (NodeId Op)

structure QueryOutcome where
 determined : Option Bool
 support : List ℤ

structure VarImpact where
 ifTrue : QueryOutcome
 ifFalse : QueryOutcome

structure QueryStats where
 nodes : ℕ
 support : ℕ

structure DecisionQueryResult where
 determined : Option Bool
 support : List ℤ
 ranked : List ℤ
 impact : TreeMap ℤ VarImpact
 stats : QueryStats

structure CompiledDecisionQuery where
 varOrder : List ℤ
 uniqueToVarIndex : TreeMap ℤ ℕ
 root : NodeId
 bdd : ROBDD

mutual

/-- Whether a call occurs in the ladder. -/
def containsApp : IRExpr → Bool
 | .app _ _ _=>true
 | .not_ _ e=>containsApp e
 | .and_ _ args=>containsAppEach args
 | .or_ _ args=>containsAppEach args
 | .uBoolVar _ _=>false
 | .trueE _ _=>false
 | .falseE _ _=>false
 | .inertE _ _ _=>false

def containsAppEach : List IRExpr → Bool
 | []=>false
 | e::es=>containsApp e || containsAppEach es

end

mutual

/-- The variables met, in order and once each. A call has no variables of its own to offer. -/
def collectVarOrderGo : IRExpr → List ℤ → Option (List ℤ)
 | .uBoolVar _ name, out=>
  some (if name.unique ∈ out then out else out ++ [name.unique])
 | .not_ _ e, out=>collectVarOrderGo e out
 | .and_ _ args, out=>collectVarOrderEach args out
 | .or_ _ args, out=>collectVarOrderEach args out
 | .app _ _ _, _=>none
 | .trueE _ _, out=>some out
 | .falseE _ _, out=>some out
 | .inertE _ _ _, out=>some out

def collectVarOrderEach : List IRExpr → List ℤ → Option (List ℤ)
 | [], out=>some out
 | e::es, out=>(collectVarOrderGo e out).bind (collectVarOrderEach es)

end

def collectVarOrder (expr:IRExpr) : Option (List ℤ) := collectVarOrderGo expr []

def isDeterminedId (id:NodeId) : Option Bool :=
 if id=1 then some true else if id=0 then some false else none

def uniqSorted (nums:List ℤ) : List ℤ := nums.eraseDups.mergeSort fun a b=>a ≤ b

section Compile
variable (uniqueToVarIndex:TreeMap ℤ ℕ)

mutual

def compile : IRExpr → ROBDD → Option (NodeId × ROBDD)
 | .trueE _ _, r=>some (1,r)
 | .falseE _ _, r=>some (0,r)
 | .uBoolVar _ name, r=>
  match uniqueToVarIndex[name.unique]? with
  | none=>none
  | some idx=>some (var idx r)
 | .not_ _ negand, r=>do
  let (id,r1) ← compile negand r
  neg id r1
 | .and_ _ args, r=>reduce .opAnd args 1 r
 | .or_ _ args, r=>reduce .opOr args 0 r
 | .app _ _ _, _=>none
 | .inertE _ _ .inertCtxOr, r=>some (0,r)
 | .inertE _ _ _, r=>some (1,r)

def reduce (op:Op) : List IRExpr → NodeId → ROBDD → Option (NodeId × ROBDD)
 | [], acc, r=>some (acc,r)
 | x::xs, acc, r=>do
  let (id,r1) ← compile x r
  let (acc', r2) ← apply op acc id r1
  reduce op xs acc' r2

end

end Compile

def compileDecisionQuery (expr:IRExpr) (varOrder:List ℤ) : Option CompiledDecisionQuery := do
 let uniqueToVarIndex:=TreeMap.ofList varOrder.zipIdx
 let (root,bdd) ← compile uniqueToVarIndex expr emptyRobdd
 return { varOrder,uniqueToVarIndex,root,bdd }

section Query
variable (compiled:CompiledDecisionQuery)

def supportFromRestricted (restricted:NodeId) (r:ROBDD) : Option (List ℤ) :=
 (support restricted r).map fun idxs=>
  uniqSorted (idxs.toList.filterMap fun i=>compiled.varOrder[i]?)

def outcomeFromRestricted (restricted:NodeId) (r:ROBDD) : Option QueryOutcome :=
 (supportFromRestricted compiled restricted r).map fun support=>
  { determined:=isDeterminedId restricted,support }

def idxBindings (bindings:TreeMap ℤ Bool) : TreeMap ℕ Bool :=
 TreeMap.ofList (bindings.toList.filterMap fun (u,b)=>
  compiled.uniqueToVarIndex[u]?.map fun idx=>(idx,b))

def determinableCount (impact:TreeMap ℤ VarImpact) (u:ℤ) : ℕ :=
 match impact[u]? with
 | none=>2
 | some imp=>imp.ifTrue.determined.isSome.toNat+imp.ifFalse.determined.isSome.toNat

def score (impact:TreeMap ℤ VarImpact) (u:ℤ) : ℤ × ℕ :=
 (-(determinableCount impact u:ℤ),compiled.uniqueToVarIndex.getD u 1000000)

def rank (support:List ℤ) (impact:TreeMap ℤ VarImpact) : List ℤ :=
 support.mergeSort fun a b=>
  let (a0,a1):=score compiled impact a
  let (b0,b1):=score compiled impact b
  if a0 ≠ b0 then a0 ≤ b0 else a1 ≤ b1

def impacts (restricted:NodeId) :
  List ℤ → TreeMap ℤ VarImpact → ROBDD → Option (TreeMap ℤ VarImpact × ROBDD)
 | [], impact, r=>some (impact,r)
 | u::us, impact, r=>
  match compiled.uniqueToVarIndex[u]? with
  | none=>impacts restricted us impact r
  | some idx=>do
   let (withTrue,r1) ← restrict restricted (TreeMap.ofList [(idx,true)]) r
   let (withFalse,r2) ← restrict restricted (TreeMap.ofList [(idx,false)]) r1
   let ifTrue ← outcomeFromRestricted compiled withTrue r2
   let ifFalse ← outcomeFromRestricted compiled withFalse r2
   impacts restricted us (impact.insert u { ifTrue,ifFalse }) r2

def query (bindings:TreeMap ℤ Bool) : Option (DecisionQueryResult × CompiledDecisionQuery) := do
 let (restricted,r1) ← restrict compiled.root (idxBindings compiled bindings) compiled.bdd
 let support ← supportFromRestricted compiled restricted r1
 let (impact,r2) ← impacts compiled restricted support ∅ r1
 return ({
  determined:=isDeterminedId restricted
  support
  ranked:=rank compiled support impact
  impact
  stats:={ nodes:=r2.nextId,support:=support.length } },{ compiled with bdd:=r2 })

end Query

/-- Queries one after the other, for what they leave behind. -/
def queries : List (TreeMap ℤ Bool) → CompiledDecisionQuery → Option CompiledDecisionQuery
 | [], compiled=>some compiled
 | bindings::rest, compiled=>do
  let (_,compiled') ← query compiled bindings
  queries rest compiled'

end L4Ide.DecisionQuery
