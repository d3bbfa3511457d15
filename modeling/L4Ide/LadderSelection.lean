import L4Ide.VizExprToLir

set_option autoImplicit false

/-!
# Selecting the paths of a ladder

Beside the graph that is drawn, a ladder has one without bundling nodes. What is selected on the
ladder is looked up there: the paths through the selected part that are paths of the ladder.
-/
namespace L4Ide.LadderSelection
open Ladder AlgebraicGraphs VizExprToLir

inductive Graph (α:Type) where
 | empty
 | vertex (value:α)
 | overlay (left right:Graph α)
 | connect (left right:Graph α)

section Graph
variable {α β B:Type} [DecidableEq α] [DecidableEq β]

def Graph.dag : Graph α → Dag α
 | .empty=>AlgebraicGraphs.empty
 | .vertex value=>AlgebraicGraphs.vertex value
 | .overlay left right=>AlgebraicGraphs.overlay left.dag right.dag
 | .connect left right=>AlgebraicGraphs.connect left.dag right.dag

omit [DecidableEq α] in
def foldg (e:B) (v:α → B) (o c:B → B → B) : Graph α → B
 | .empty=>e
 | .vertex value=>v value
 | .overlay left right=>o (foldg e v o c left) (foldg e v o c right)
 | .connect left right=>c (foldg e v o c left) (foldg e v o c right)

def Graph.overlays (graphs:List (Graph α)) : Graph α := graphs.foldl .overlay .empty

def removeSelfLoops (g:Dag α) : Dag α where
 keys:=g.keys
 neighbors v := (g.neighbors v).filter (· ≠ v)
 keys_nodup:=g.keys_nodup
 neighbors_nodup v := (g.neighbors_nodup v).filter _
 neighbors_mem v w h := g.neighbors_mem v w (List.mem_filter.1 h).1

def Graph.bind (g:Graph α) (f:α → Graph β) : Graph β :=
 foldg .empty (fun a=>foldg .empty .vertex .overlay .connect (f a)) .overlay .connect g

def Graph.induce (g:Graph α) (predicate:α → Bool) : Dag α :=
 removeSelfLoops (g.bind fun a=>if predicate a then .vertex a else .empty).dag

end Graph

def isSelectableLadderLirNode : LirNode → Bool
 | .uBoolVar _ _ | .app _ _ | .notStart _ | .notEnd=>true
 | .trueExpr _ | .falseExpr _ | .inertExpr _ _=>true
 | .sourceNoAnno | .sourceWithOrAnno | .sink=>false

def isBundlingFlowLirNode : LirNode → Bool
 | .sourceNoAnno | .sourceWithOrAnno | .sink=>true
 | _=>false

def selectable (context:LirId → Option LirNode) (id:LirId) : Bool :=
 (context id).any isSelectableLadderLirNode

def bundling (context:LirId → Option LirNode) (id:LirId) : Bool :=
 (context id).any isBundlingFlowLirNode

/-- `g.isEqualTo(vertex(id))`, for a source or a sink. -/
def isVertexAt (g:Dag LirId) (id:LirId) : Bool := g.keys == [id]

structure ToLirResult where
 graph : Dag LirId
 noIntermediateBundlingNodeGraph : Graph LirId

section Transform
variable (topologicalSort:Dag LirId → Option (List LirId))

def sandwichGraph (overallSource overallSink middle:Graph LirId) : Option (Graph LirId) := do
 let order ← getTopSort topologicalSort middle.dag
 let source:=(order.head?.map Graph.vertex).getD .empty
 let sink:=(order.getLast?.map Graph.vertex).getD .empty
 return .overlay (.overlay (.connect overallSource source) middle) (.connect sink overallSink)

mutual

/-- `transform`, with the graph without intermediate bundling nodes. -/
def transformBoth : IRExpr → LirNodeInfo → Option (ToLirResult × LirNodeInfo)
 | .uBoolVar id name, nodeInfo=>
  some (⟨vertex nodeInfo.counter,.vertex nodeInfo.counter⟩,nodeInfo.set (.uBoolVar id name))
 | .trueE _ name, nodeInfo=>
  some (⟨vertex nodeInfo.counter,.vertex nodeInfo.counter⟩,nodeInfo.set (.trueExpr name))
 | .falseE _ name, nodeInfo=>
  some (⟨vertex nodeInfo.counter,.vertex nodeInfo.counter⟩,nodeInfo.set (.falseExpr name))
 | .inertE _ txt ctx, nodeInfo=>
  some (⟨vertex nodeInfo.counter,.vertex nodeInfo.counter⟩,nodeInfo.set (.inertExpr txt ctx))
 | .not_ id e, nodeInfo=>do
  let (negand,nodeInfo) ← transformBoth e nodeInfo
  let notStart:=nodeInfo.counter
  let nodeInfo:=nodeInfo.set (.notStart (.not_ id e))
  let notEnd:=nodeInfo.counter
  let nodeInfo:=nodeInfo.set .notEnd
  let notGraph ← sandwichWithSourceAndSink topologicalSort (vertex notStart) (vertex notEnd)
   negand.graph
  let noIntermediateBundlingNodeGraph ← sandwichGraph topologicalSort (.vertex notStart)
   (.vertex notEnd) negand.noIntermediateBundlingNodeGraph
  return (⟨notGraph,noIntermediateBundlingNodeGraph⟩,nodeInfo)
 | .and_ _ args, nodeInfo=>do
  let (childResults,nodeInfo) ← transformBothEach args nodeInfo
  match childResults with
  | []=>none
  | first::rest=>
   let combinedGraph ← (rest.map ToLirResult.graph).foldlM (makeAndGraph topologicalSort)
    first.graph
   let noIntermediateBundlingNodeGraph:=
    (rest.map ToLirResult.noIntermediateBundlingNodeGraph).foldl .connect
     first.noIntermediateBundlingNodeGraph
   return (⟨combinedGraph,noIntermediateBundlingNodeGraph⟩,nodeInfo)
 | .or_ _ args, nodeInfo=>do
  let (childResults,nodeInfo) ← transformBothEach args nodeInfo
  let overallSource:=vertex nodeInfo.counter
  let nodeInfo:=nodeInfo.set .sourceWithOrAnno
  let overallSink:=vertex nodeInfo.counter
  let nodeInfo:=nodeInfo.set .sink
  let orGraph ← makeOrGraph topologicalSort overallSource overallSink
   (childResults.map ToLirResult.graph)
  let noIntermediateBundlingNodeGraph:=
   Graph.overlays (childResults.map ToLirResult.noIntermediateBundlingNodeGraph)
  return (⟨orGraph,noIntermediateBundlingNodeGraph⟩,nodeInfo)
 | .app _ fnName args, nodeInfo=>do
  let (childResults,nodeInfo) ← transformVars topologicalSort args nodeInfo
  let argNodes:=childResults.flatMap Dag.keys
  return (⟨vertex nodeInfo.counter,.vertex nodeInfo.counter⟩,
   nodeInfo.set (.app fnName argNodes))

def transformBothEach : List IRExpr → LirNodeInfo → Option (List ToLirResult × LirNodeInfo)
 | [], nodeInfo=>some ([],nodeInfo)
 | arg::args, nodeInfo=>do
  let (result,nodeInfo) ← transformBoth arg nodeInfo
  let (results,nodeInfo) ← transformBothEach args nodeInfo
  return (result::results,nodeInfo)

end

def makeNoIntermediateBundlingNodeDag (context:LirId → Option LirNode) (dag:Graph LirId) :
  Option (Graph LirId) := do
 let source ← getSource topologicalSort dag.dag
 let sink ← getSink topologicalSort dag.dag
 let intermediateVertices:=dag.dag.keys.filter fun v=>
  !isVertexAt source v && !isVertexAt sink v
 if intermediateVertices.any (bundling context) then none else some dag

/-- The ladder graph, and the graph that selections are looked up in. -/
def toLirBoth (expr:IRExpr) (nodeInfo:LirNodeInfo) :
  Option (ToLirResult × LirNodeInfo) := do
 let overallSource:=nodeInfo.counter
 let nodeInfo:=nodeInfo.set .sourceNoAnno
 let overallSink:=nodeInfo.counter
 let nodeInfo:=nodeInfo.set .sink
 let (middle,nodeInfo) ← transformBoth topologicalSort expr nodeInfo
 let dag ← sandwichWithSourceAndSink topologicalSort (vertex overallSource) (vertex overallSink)
  middle.graph
 let final ← makeNoIntermediateBundlingNodeDag topologicalSort nodeInfo.context
  (.connect (.connect (.vertex overallSource) middle.noIntermediateBundlingNodeGraph)
   (.vertex overallSink))
 return (⟨dag,final⟩,nodeInfo)

structure LadderNodeSelectionTracker where
 noIntermediateBundlingNodeDag : Graph LirId
 noBundlingNodePathToLadderLinPath : List (List LirId × Dag LirId)

def linPathToPathInNoIntermediateBundlingNodeDag (context:LirId → Option LirNode)
  (originalLadderDag linPath:Dag LirId) : Option (List LirId) := do
 let order ← getTopSort topologicalSort linPath
 let source ← getSource topologicalSort originalLadderDag
 let sink ← getSink topologicalSort originalLadderDag
 return order.filter fun v=>isVertexAt source v || isVertexAt sink v || selectable context v

def LadderNodeSelectionTracker.make (context:LirId → Option LirNode) (result:ToLirResult) :
  Option LadderNodeSelectionTracker := do
 let pathsList ← getAllPaths topologicalSort result.graph
 let entries ← pathsList.mapM fun linPath=>do
  return (← linPathToPathInNoIntermediateBundlingNodeDag topologicalSort context result.graph
   linPath,linPath)
 return ⟨result.noIntermediateBundlingNodeGraph,entries⟩

/-- Of two entries for one path the later one counts. -/
def LadderNodeSelectionTracker.get (tracker:LadderNodeSelectionTracker) (path:List LirId) :
  Option (Dag LirId) :=
 ((tracker.noBundlingNodePathToLadderLinPath.filter fun entry=>entry.1=path).getLast?).map
  Prod.snd

def LadderNodeSelectionTracker.findCorrespondingLinPaths (tracker:LadderNodeSelectionTracker)
  (selected:List LirId) : Option (List (Dag LirId)) := do
 let source ← getSource topologicalSort tracker.noIntermediateBundlingNodeDag.dag
 let sink ← getSink topologicalSort tracker.noIntermediateBundlingNodeDag.dag
 let paths ← getAllPaths topologicalSort
  (tracker.noIntermediateBundlingNodeDag.induce fun nodeId=>
   selected.contains nodeId || isVertexAt source nodeId || isVertexAt sink nodeId)
 let found ← paths.mapM fun path=>do
  return tracker.get (← getTopSort topologicalSort path)
 return found.filterMap id

end Transform

end L4Ide.LadderSelection
