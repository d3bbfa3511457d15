import L4Ide.DecisionQuery

set_option autoImplicit false

/-!
# The ladder's own analysis

A ladder is evaluated under the values given so far, rewritten under them, and asked which inputs
still matter. The evaluation knows three values and looks at the operands of a connective one by
one; what still matters is read off the diagram.
-/
namespace L4Ide.PartialEval
open Std (TreeMap)
open Ladder DecisionQuery

inductive UBoolVal where
 | trueV
 | falseV
 | unknownV
 deriving DecidableEq, Repr

/-- The values by variable. The drawing gives every variable of its ladder one. -/
abbrev Assignment := TreeMap ℤ UBoolVal

/-- What the server answers when a call is evaluated. -/
inductive EvalAppReply where
 | value (v:UBoolVal)
 | refused
 | failed

def negate : UBoolVal → UBoolVal
 | .trueV=>.falseV
 | .falseV=>.trueV
 | .unknownV=>.unknownV

/-- Whether a value is found. A missing value that is looked at first is an error. -/
def someVal (v:UBoolVal) : List (Option UBoolVal) → Option Bool
 | []=>some false
 | none::_=>none
 | some w::rest=>if w=v then some true else someVal v rest

def evalAndChain (bools:List (Option UBoolVal)) : Option UBoolVal := do
 if ← someVal .falseV bools then return .falseV
 return if bools.all (· = some .trueV) then .trueV else .unknownV

def evalOrChain (bools:List (Option UBoolVal)) : Option UBoolVal := do
 if ← someVal .trueV bools then return .trueV
 return if bools.all (· = some .falseV) then .falseV else .unknownV

section Evaluator
variable (evalApp:ID → List UBoolVal → EvalAppReply) (assignment:Assignment)

mutual

/-- The value of a ladder; a variable without one has none, and an error ends the evaluation. -/
def eval_ : IRExpr → Option (Option UBoolVal)
 | .trueE _ _=>some (some .trueV)
 | .falseE _ _=>some (some .falseV)
 | .uBoolVar _ name=>some assignment[name.unique]?
 | .not_ _ negand=>do
  let negandV ← eval_ negand
  let v ← negandV
  return some (negate v)
 | .and_ _ args=>do
  let bools ← evalEach args
  let v ← evalAndChain bools
  return some v
 | .or_ _ args=>do
  let bools ← evalEach args
  let v ← evalOrChain bools
  return some v
 | .app id _ args=>do
  let vals ← evalEach args
  if ← someVal .unknownV vals then return some .unknownV
  match evalApp id (vals.filterMap fun v=>v) with
  | .value v=>return some v
  | .refused=>return some .unknownV
  | .failed=>none
 | .inertE _ _ .inertCtxOr=>some (some .falseV)
 | .inertE _ _ _=>some (some .trueV)

def evalEach : List IRExpr → Option (List (Option UBoolVal))
 | []=>some []
 | e::es=>do
  let v ← eval_ e
  let vs ← evalEach es
  return v::vs

end

end Evaluator

def noName : VName := ⟨0,""⟩

def isTrueE : IRExpr → Bool
 | .trueE _ _=>true
 | _=>false

def isFalseE : IRExpr → Bool
 | .falseE _ _=>true
 | _=>false

def restrictNot (id:ID) : IRExpr → IRExpr
 | .trueE _ _=>.falseE id noName
 | .falseE _ _=>.trueE id noName
 | .not_ _ negand=>negand
 | inner=>.not_ id inner

def restrictAnd (id:ID) (args:List IRExpr) : IRExpr :=
 if args.any isFalseE then .falseE id noName
 else
  match args.filter fun x=>!isTrueE x with
  | []=>.trueE id noName
  | [x]=>x
  | filtered=>.and_ id filtered

def restrictOr (id:ID) (args:List IRExpr) : IRExpr :=
 if args.any isTrueE then .trueE id noName
 else
  match args.filter fun x=>!isFalseE x with
  | []=>.falseE id noName
  | [x]=>x
  | filtered=>.or_ id filtered

section Restrict
variable (assignment:Assignment)

mutual

def restrictExpr : IRExpr → IRExpr
 | .uBoolVar id name=>
  match assignment[name.unique]? with
  | some .trueV=>.trueE id noName
  | some .falseV=>.falseE id noName
  | _=>.uBoolVar id name
 | .trueE id name=>.trueE id name
 | .falseE id name=>.falseE id name
 | .not_ id negand=>restrictNot id (restrictExpr negand)
 | .and_ id args=>restrictAnd id (restrictEach args)
 | .or_ id args=>restrictOr id (restrictEach args)
 | .app id fnName args=>.app id fnName (restrictEach args)
 | .inertE id txt ctx=>.inertE id txt ctx

def restrictEach : List IRExpr → List IRExpr
 | []=>[]
 | e::es=>restrictExpr e::restrictEach es

end

end Restrict

mutual

/-- The variables met, in order and once each, those in the arguments of calls too. -/
def collectVarsGo : IRExpr → List ℤ → List ℤ
 | .uBoolVar _ name, out=>if name.unique ∈ out then out else out ++ [name.unique]
 | .not_ _ e, out=>collectVarsGo e out
 | .and_ _ args, out=>collectVarsEach args out
 | .or_ _ args, out=>collectVarsEach args out
 | .app _ _ args, out=>collectVarsEach args out
 | .trueE _ _, out=>out
 | .falseE _ _, out=>out
 | .inertE _ _ _, out=>out

def collectVarsEach : List IRExpr → List ℤ → List ℤ
 | [], out=>out
 | e::es, out=>collectVarsEach es (collectVarsGo e out)

end

structure PartialEvalAnalyzer where
 expr : IRExpr
 allVarsInOrder : List ℤ
 compiled : Option CompiledDecisionQuery

/-- A ladder with calls has no diagram. -/
def newAnalyzer (expr:IRExpr) (varOrder:List ℤ) : Option PartialEvalAnalyzer :=
 if containsApp expr then some { expr,allVarsInOrder := varOrder,compiled := none }
 else do
  let compiled ← compileDecisionQuery expr varOrder
  return { expr,allVarsInOrder := varOrder,compiled := some compiled }

structure PartialEvalAnalysis where
 overallResult : UBoolVal
 isDetermined : Bool
 notAsked : List ℤ
 next : List ℤ
 stillNeeded : List ℤ
 dontCare : List ℤ
 ranked : List ℤ
 restrictedExpr : IRExpr
 bddStats : Option QueryStats
 usedBdd : Bool

def isDeterminedValue (v:UBoolVal) : Bool := v = .trueV ∨ v = .falseV

def toBinding : UBoolVal → Option Bool
 | .trueV=>some true
 | .falseV=>some false
 | .unknownV=>none

def isUnassigned (assignment:Assignment) (u:ℤ) : Bool :=
 (assignment[u]?.bind toBinding).isNone

def bindingsOf (assignment:Assignment) : TreeMap ℤ Bool :=
 TreeMap.ofList (assignment.toList.filterMap fun p=>(toBinding p.2).map fun b=>(p.1,b))

/-- What the diagram, or the rewritten ladder where there is none, says still matters. -/
def supportOf (analyzer:PartialEvalAnalyzer) (assignment:Assignment) :
  Option (List ℤ × List ℤ × Option QueryStats × PartialEvalAnalyzer) :=
 match analyzer.compiled with
 | some compiled=>do
  let (q,compiled') ← query compiled (bindingsOf assignment)
  return (q.support,q.ranked,some q.stats,{ analyzer with compiled:=some compiled' })
 | none=>
  let vars:=collectVarsGo (restrictExpr assignment analyzer.expr) []
  some (vars,vars,none,analyzer)

def analyze (analyzer:PartialEvalAnalyzer) (assignment:Assignment)
  (evalResult:Option UBoolVal) : Option (PartialEvalAnalysis × PartialEvalAnalyzer) := do
 let notAsked:=analyzer.allVarsInOrder.filter (isUnassigned assignment)
 let (support,ranked,bddStats,analyzer') ← supportOf analyzer assignment
 let rankedStillNeeded:=ranked.filter fun u=>u ∈ support ∧ u ∈ notAsked
 let result ← evalResult
 return ({
  overallResult:=result
  isDetermined:=isDeterminedValue result
  notAsked:=uniqSorted notAsked
  next:=rankedStillNeeded.take 1
  stillNeeded:=uniqSorted (notAsked.filter fun u=>u ∈ support)
  dontCare:=uniqSorted (notAsked.filter fun u=>u ∉ support)
  ranked:=rankedStillNeeded
  restrictedExpr:=restrictExpr assignment analyzer.expr
  bddStats
  usedBdd:=analyzer.compiled.isSome },analyzer')

/-- The ladder evaluated and analysed, as it is after every click on a node. -/
def evalAndAnalyze (evalApp:ID → List UBoolVal → EvalAppReply) (analyzer:PartialEvalAnalyzer)
  (assignment:Assignment) : Option (PartialEvalAnalysis × PartialEvalAnalyzer) := do
 let evalResult ← eval_ evalApp assignment analyzer.expr
 analyze analyzer assignment evalResult

/-- Analyses one after the other, for the diagram that they leave behind. -/
def analyses (evalApp:ID → List UBoolVal → EvalAppReply) :
  List Assignment → PartialEvalAnalyzer → Option PartialEvalAnalyzer
 | [], analyzer=>some analyzer
 | assignment::rest, analyzer=>do
  let (_,analyzer') ← evalAndAnalyze evalApp analyzer assignment
  analyses evalApp rest analyzer'

end L4Ide.PartialEval
