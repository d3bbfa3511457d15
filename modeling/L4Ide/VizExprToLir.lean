import L4Ide.AlgebraicGraphs
import L4Ide.Ladder

set_option autoImplicit false

/-!
# From a ladder to a graph

The boxes of a ladder become nodes with ids of their own, and the ladder a graph over those ids:
the arguments of a conjunction in a row, those of a disjunction side by side between two bundling
nodes, and a negation between its start and its end.
-/
namespace L4Ide.VizExprToLir
open Syntax (InertContext)
open Ladder AlgebraicGraphs

abbrev LirId := ℕ

inductive LirNode where
 | sourceNoAnno
 | sourceWithOrAnno
 | sink
 | uBoolVar (id:ID) (name:VName)
 | trueExpr (name:VName)
 | falseExpr (name:VName)
 | inertExpr (txt:String) (ctx:InertContext)
 | notStart (originalExpr:IRExpr)
 | notEnd
 | app (fnName:VName) (args:List LirId)

/-- The ids given out so far, and the nodes they stand for. -/
structure LirNodeInfo where
 counter : ℕ
 context : LirId → Option LirNode

def LirNodeInfo.set (nodeInfo:LirNodeInfo) (node:LirNode) : LirNodeInfo where
 counter:=nodeInfo.counter+1
 context:=Function.update nodeInfo.context nodeInfo.counter (some node)

def isUBoolVar : IRExpr → Bool
 | .uBoolVar _ _=>true
 | _=>false

section Transform
variable (topologicalSort:Dag LirId → Option (List LirId))

def sandwichWithSourceAndSink (overallSource overallSink middle:Dag LirId) :
  Option (Dag LirId) := do
 let source ← getSource topologicalSort middle
 let sink ← getSink topologicalSort middle
 return overlay (overlay (connect overallSource source) middle) (connect sink overallSink)

def makeAndGraph (left right:Dag LirId) : Option (Dag LirId) := do
 let rightSource ← getSource topologicalSort right
 let leftSink ← getSink topologicalSort left
 return overlay (overlay (connect leftSink rightSource) left) right

def makeOrGraph (overallSource overallSink:Dag LirId) (childGraphs:List (Dag LirId)) :
  Option (Dag LirId) := do
 let leftEdges ← childGraphs.mapM fun child=>do
  return connect overallSource (← getSource topologicalSort child)
 let rightEdges ← childGraphs.mapM fun child=>do
  return connect (← getSink topologicalSort child) overallSink
 return overlays (overallSource::(leftEdges ++ childGraphs ++ rightEdges))

mutual

def transform : IRExpr → LirNodeInfo → Option (Dag LirId × LirNodeInfo)
 | .uBoolVar id name, nodeInfo=>
  some (vertex nodeInfo.counter,nodeInfo.set (.uBoolVar id name))
 | .trueE _ name, nodeInfo=>some (vertex nodeInfo.counter,nodeInfo.set (.trueExpr name))
 | .falseE _ name, nodeInfo=>some (vertex nodeInfo.counter,nodeInfo.set (.falseExpr name))
 | .inertE _ txt ctx, nodeInfo=>
  some (vertex nodeInfo.counter,nodeInfo.set (.inertExpr txt ctx))
 | .not_ id e, nodeInfo=>do
  let (negand,nodeInfo) ← transform e nodeInfo
  let notStart:=vertex nodeInfo.counter
  let nodeInfo:=nodeInfo.set (.notStart (.not_ id e))
  let notEnd:=vertex nodeInfo.counter
  let nodeInfo:=nodeInfo.set .notEnd
  let notGraph ← sandwichWithSourceAndSink topologicalSort notStart notEnd negand
  return (notGraph,nodeInfo)
 | .and_ _ args, nodeInfo=>do
  let (childGraphs,nodeInfo) ← transformEach args nodeInfo
  match childGraphs with
  | []=>none
  | first::rest=>
   let combinedGraph ← rest.foldlM (makeAndGraph topologicalSort) first
   return (combinedGraph,nodeInfo)
 | .or_ _ args, nodeInfo=>do
  let (childGraphs,nodeInfo) ← transformEach args nodeInfo
  let overallSource:=vertex nodeInfo.counter
  let nodeInfo:=nodeInfo.set .sourceWithOrAnno
  let overallSink:=vertex nodeInfo.counter
  let nodeInfo:=nodeInfo.set .sink
  let orGraph ← makeOrGraph topologicalSort overallSource overallSink childGraphs
  return (orGraph,nodeInfo)
 | .app _ fnName args, nodeInfo=>do
  -- the arguments get nodes, but only the application gets a place in the graph
  let (childResults,nodeInfo) ← transformVars args nodeInfo
  let argNodes:=childResults.flatMap Dag.keys
  return (vertex nodeInfo.counter,nodeInfo.set (.app fnName argNodes))

def transformEach : List IRExpr → LirNodeInfo → Option (List (Dag LirId) × LirNodeInfo)
 | [], nodeInfo=>some ([],nodeInfo)
 | arg::args, nodeInfo=>do
  let (graph,nodeInfo) ← transform arg nodeInfo
  let (graphs,nodeInfo) ← transformEach args nodeInfo
  return (graph::graphs,nodeInfo)

def transformVars : List IRExpr → LirNodeInfo → Option (List (Dag LirId) × LirNodeInfo)
 | [], nodeInfo=>some ([],nodeInfo)
 | arg::args, nodeInfo=>
  if isUBoolVar arg then do
   let (graph,nodeInfo) ← transform arg nodeInfo
   let (graphs,nodeInfo) ← transformVars args nodeInfo
   return (graph::graphs,nodeInfo)
  else transformVars args nodeInfo

end

/-- The graph of a whole ladder, between a source and a sink. -/
def toLir (expr:IRExpr) (nodeInfo:LirNodeInfo) : Option (Dag LirId × LirNodeInfo) := do
 let overallSource:=vertex nodeInfo.counter
 let nodeInfo:=nodeInfo.set .sourceNoAnno
 let overallSink:=vertex nodeInfo.counter
 let nodeInfo:=nodeInfo.set .sink
 let (middle,nodeInfo) ← transform topologicalSort expr nodeInfo
 let dag ← sandwichWithSourceAndSink topologicalSort overallSource overallSink middle
 return (dag,nodeInfo)

end Transform

inductive LeafLabel where
 | uBoolVar (id:ID) (name:VName)
 | trueExpr (name:VName)
 | falseExpr (name:VName)
 | inertExpr (txt:String) (ctx:InertContext)
 | app (fnName:VName) (args:List (ID × VName))
 deriving DecidableEq

structure Leaf where
 negated : Bool
 label : LeafLabel
 deriving DecidableEq

section Reading
variable (context:LirId → Option LirNode)

def varOf (id:LirId) : Option (ID × VName) :=
 match context id with
 | some (.uBoolVar id name)=>some (id,name)
 | _=>none

def labelOf : LirNode → Option LeafLabel
 | .uBoolVar id name=>some (.uBoolVar id name)
 | .trueExpr name=>some (.trueExpr name)
 | .falseExpr name=>some (.falseExpr name)
 | .inertExpr txt ctx=>some (.inertExpr txt ctx)
 | .app fnName args=>some (.app fnName (args.filterMap (varOf context)))
 | _=>none

/-- The leaves among nodes in a row, a node between the start and the end of a negation negated. -/
def readLeaves : List LirNode → List Leaf
 | []=>[]
 | .notStart _::node :: .notEnd::rest=>
  ((labelOf context node).map (Leaf.mk true)).toList ++ readLeaves rest
 | node::rest=>((labelOf context node).map (Leaf.mk false)).toList ++ readLeaves rest

def leavesOn (path:List LirId) : List Leaf := readLeaves context (path.filterMap context)

end Reading

/-- Whether a leaf is true, an application being a question of its own. -/
def Leaf.holds (σ:ℤ → Bool) (leaf:Leaf) : Bool :=
 let value:=match leaf.label with
  | .uBoolVar _ name=>σ name.unique
  | .trueExpr _=>true
  | .falseExpr _=>false
  | .inertExpr _ .inertCtxOr=>false
  | .inertExpr _ _=>true
  | .app fnName _=>σ fnName.unique
 leaf.negated != value

end L4Ide.VizExprToLir
