import L4Ide.LadderWays
import L4Ide.LadderNets

set_option autoImplicit false

/-!
# The paths of a ladder

The paths through the graph of a ladder in negation normal form are its ways, each path with the
leaves chosen on it, so the ladder is true just where all leaves of one of its paths are.
-/
namespace L4Ide.LadderPaths
open TwoTerminalGraphs AlgebraicGraphs Ladder VizExprToLir PartialEval PartialEvalConsistent
open FuelledComputation LadderWays LadderNets

/-! ## What a path shows -/

/-- Every id given out keeps its node. -/
structure Extends (nodeInfo nodeInfo' : LirNodeInfo) : Prop where
 counter : nodeInfo.counter ≤ nodeInfo'.counter
 context : ∀ id < nodeInfo.counter, nodeInfo'.context id=nodeInfo.context id

theorem Extends.refl (nodeInfo:LirNodeInfo) : Extends nodeInfo nodeInfo :=
 ⟨le_rfl,fun _ _=>rfl⟩

theorem Extends.trans {i j k:LirNodeInfo} (h:Extends i j) (h' : Extends j k) : Extends i k :=
 ⟨h.counter.trans h'.counter,fun id hid=>
  (h'.context id (lt_of_lt_of_le hid h.counter)).trans (h.context id hid)⟩

theorem extends_set (nodeInfo:LirNodeInfo) (node:LirNode) :
  Extends nodeInfo (nodeInfo.set node) :=
 ⟨Nat.le_succ _,fun _ hid=>Function.update_of_ne (Nat.ne_of_lt hid) _ _⟩

variable {nodeInfo:LirNodeInfo}

variable {nodeInfo': LirNodeInfo} {e:IRExpr}

theorem context_of_extends_set {node:LirNode}
  (h:Extends (nodeInfo.set node) nodeInfo') :
  nodeInfo'.context nodeInfo.counter=some node := by
 rw [h.context nodeInfo.counter (Nat.lt_succ_self _)]
 exact Function.update_self _ _ _

/-- However many nodes follow, these ids are read as these leaves. -/
def Reads (nodeInfo:LirNodeInfo) (exprs:List IRExpr) (path:List LirId) : Prop :=
 ∀ nodeInfo', Extends nodeInfo nodeInfo' → ∀ rest,
  readLeaves nodeInfo'.context (path.filterMap nodeInfo'.context ++ rest) =
   exprs.filterMap leafOf ++ readLeaves nodeInfo'.context rest

namespace Reads
variable {nodeInfo nodeInfo' : LirNodeInfo} {xs ys:List IRExpr} {p q:List LirId}

theorem mono (h:Reads nodeInfo xs p) (hext:Extends nodeInfo nodeInfo') : Reads nodeInfo' xs p :=
 fun _ hext' =>h _ (hext.trans hext')

theorem append (h:Reads nodeInfo xs p) (h' : Reads nodeInfo ys q) :
  Reads nodeInfo (xs ++ ys) (p ++ q) := by
 intro info hext rest
 rw [List.filterMap_append,List.append_assoc,h info hext,h' info hext,List.filterMap_append,
  List.append_assoc]

theorem leavesOn (h:Reads nodeInfo xs p) :
  leavesOn nodeInfo.context p=xs.filterMap leafOf := by
 have hread:=h nodeInfo (.refl nodeInfo) []
 rw [List.append_nil,readLeaves,List.append_nil] at hread
 exact hread

end Reads

theorem readLeaves_label {context:LirId → Option LirNode} {node:LirNode} {label:LeafLabel}
  (h:labelOf context node=some label) (rest:List LirNode) :
  readLeaves context (node::rest)=⟨false,label⟩::readLeaves context rest := by
 cases node with
 | uBoolVar id name=>rw [←Option.some.inj h]; rfl
 | trueExpr name=>rw [←Option.some.inj h]; rfl
 | falseExpr name=>rw [←Option.some.inj h]; rfl
 | inertExpr txt ctx=>rw [←Option.some.inj h]; rfl
 | app fnName args=>rw [←Option.some.inj h]; rfl
 | _=>exact absurd h (Option.some_ne_none label).symm

theorem reads_label {node:LirNode} {label:LeafLabel}
  (he:leafOf e=some ⟨false,label⟩)
  (h:∀ nodeInfo', Extends (nodeInfo.set node) nodeInfo' →
   labelOf nodeInfo'.context node=some label) :
  Reads (nodeInfo.set node) [e] [nodeInfo.counter] := by
 intro nodeInfo' hext rest
 rw [List.filterMap_cons_some (context_of_extends_set hext),List.filterMap_nil,
  List.singleton_append,readLeaves_label (h nodeInfo' hext),List.filterMap_cons_some he]
 rfl

theorem reads_bundling {node:LirNode}
  (h:∀ context rest, readLeaves context (node::rest)=readLeaves context rest) :
  Reads (nodeInfo.set node) [] [nodeInfo.counter] := by
 intro nodeInfo' hext rest
 rw [List.filterMap_cons_some (context_of_extends_set hext),List.filterMap_nil,
  List.singleton_append,h,List.filterMap_nil,List.nil_append]

/-! ## The graph of a ladder -/

structure Child where
 expr : IRExpr
 graph : Dag LirId
 net : Net LirId
 rel : Way → List LirId → Prop

/-- Drawn with ids from `lo` on. -/
structure Drawn (lo:ℕ) (nodeInfo:LirNodeInfo) (c:Child) : Prop where
 shows : Shows c.graph c.net
 range : ∀ v ∈ c.net.order, lo ≤ v ∧ v < nodeInfo.counter
 pairs : Pairs (IsWay c.expr) c.net.Path c.rel
 reads : ∀ w p, c.rel w p → Reads nodeInfo w.leaves p

theorem Drawn.mono {lo lo' : ℕ} {c:Child}
  (h:Drawn lo nodeInfo c) (hlo:lo' ≤ lo) (hext:Extends nodeInfo nodeInfo') :
  Drawn lo' nodeInfo' c where
 shows:=h.shows
 range v hv := ⟨hlo.trans (h.range v hv).1,lt_of_lt_of_le (h.range v hv).2 hext.counter⟩
 pairs:=h.pairs
 reads w p hwp := (h.reads w p hwp).mono hext

theorem shows_vertex (v:LirId) : Shows (vertex v) (Net.point v) where
 keys _ := Iff.rfl
 edge a b := iff_of_false (not_edge_vertex v a b) id

def leafChild (e:IRExpr) (v:LirId) : Child :=
 ⟨e,vertex v,Net.point v,fun w p=>w = .leaf e ∧ p=[v]⟩

theorem drawn_leaf {node:LirNode}
  (hleaf:isLeaf e=true) (hreads:Reads (nodeInfo.set node) [e] [nodeInfo.counter]) :
  Drawn nodeInfo.counter (nodeInfo.set node) (leafChild e nodeInfo.counter) where
 shows:=shows_vertex _
 range v hv := by
  rw [List.mem_singleton.1 hv]
  exact ⟨le_rfl,Nat.lt_succ_self _⟩
 pairs := by
  have hway:(fun w=>w=Way.leaf e)=IsWay e:=by
   funext w
   exact propext (isWay_leaf hleaf).symm
  exact hway ▸ Pairs.point (Way.leaf e) nodeInfo.counter
 reads w p h := by
  obtain ⟨rfl,rfl⟩:=h
  exact hreads

section Transform
variable {topologicalSort:Dag LirId → Option (List LirId)}

variable (topologicalSort) in
theorem transformVars_spec (args:List IRExpr) (nodeInfo:LirNodeInfo) :
  ∃ gs nodeInfo', transformVars topologicalSort args nodeInfo=some (gs,nodeInfo') ∧
   Extends nodeInfo nodeInfo' ∧ ∀ nodeInfo'', Extends nodeInfo' nodeInfo'' →
    (gs.flatMap Dag.keys).filterMap (varOf nodeInfo''.context)=args.filterMap varParts := by
 induction args generalizing nodeInfo with
 | nil=>exact ⟨[],nodeInfo,by rw [transformVars],.refl nodeInfo,fun _ _=>rfl⟩
 | cons arg args ih=>
  cases hvar:isUBoolVar arg with
  | false=>
   obtain ⟨gs,nodeInfo', hgs,hext,hread⟩:=ih nodeInfo
   refine ⟨gs,nodeInfo', by rw [transformVars,hvar]; exact hgs,hext,fun info hinfo=>?_⟩
   have hnone:varParts arg=none:=by
    cases arg with
    | uBoolVar id name=>exact absurd hvar.symm Bool.false_ne_true
    | _=>rfl
   rw [List.filterMap_cons_none hnone]
   exact hread info hinfo
  | true=>
   cases arg with
   | uBoolVar id name=>
    obtain ⟨gs,nodeInfo', hgs,hext,hread⟩:=ih (nodeInfo.set (.uBoolVar id name))
    refine ⟨vertex nodeInfo.counter::gs,nodeInfo', ?_,(extends_set _ _).trans hext,
     fun info hinfo=>?_⟩
    · rw [transformVars,hvar,transform]
      simp only [Option.bind_eq_bind,Option.bind_some,hgs]
      rfl
    · have hnode:=context_of_extends_set (hext.trans hinfo)
      have hvarOf:varOf info.context nodeInfo.counter=some (id,name):=by
       rw [varOf,hnode]
      have hparts:varParts (.uBoolVar id name)=some (id,name):=rfl
      rw [List.flatMap_cons,List.filterMap_append,hread info hinfo,
       List.filterMap_cons_some hparts]
      exact congrArg (· ++ _) (List.filterMap_cons_some hvarOf)
   | _=>exact absurd hvar Bool.false_ne_true

def Draws (topologicalSort:Dag LirId → Option (List LirId)) (e:IRExpr) : Prop :=
 ∀ nodeInfo, ∃ nodeInfo' c, c.expr=e ∧
  transform topologicalSort e nodeInfo=some (c.graph,nodeInfo') ∧
  Extends nodeInfo nodeInfo' ∧ Drawn nodeInfo.counter nodeInfo' c

theorem transformEach_spec {args:List IRExpr} (h:∀ e ∈ args, Draws topologicalSort e)
  (nodeInfo:LirNodeInfo) :
  ∃ nodeInfo', ∃ cs : List Child, cs.map Child.expr=args ∧
   transformEach topologicalSort args nodeInfo=some (cs.map Child.graph,nodeInfo') ∧
   Extends nodeInfo nodeInfo' ∧ (∀ c ∈ cs, Drawn nodeInfo.counter nodeInfo' c) ∧
   cs.Pairwise fun c d=>c.net.order.Disjoint d.net.order := by
 induction args generalizing nodeInfo with
 | nil=>
  exact ⟨nodeInfo,[],rfl,by rw [transformEach]; rfl,.refl nodeInfo,by simp,.nil⟩
 | cons e args ih=>
  obtain ⟨info₁,c,rfl,hc,hext₁,hdrawn⟩:=h e List.mem_cons_self nodeInfo
  obtain ⟨info₂,cs,rfl,hcs,hext₂,hall,hpair⟩:=
   ih (fun e he=>h e (List.mem_cons_of_mem _ he)) info₁
  refine ⟨info₂,c::cs,rfl, ?_,hext₁.trans hext₂,fun d hd=>?_, ?_⟩
  · rw [transformEach]
    simp only [hc,hcs,Option.bind_eq_bind,Option.bind_some]
    rfl
  · rcases List.mem_cons.1 hd with rfl | hd
    · exact hdrawn.mono le_rfl hext₂
    · exact (hall d hd).mono hext₁.counter (.refl info₂)
  · refine List.pairwise_cons.2 ⟨fun d hd v hv hv' =>?_,hpair⟩
    exact Nat.lt_irrefl v (lt_of_lt_of_le (hdrawn.range v hv).2 ((hall d hd).range v hv').1)

/-! ### Conjunctions -/

structure DrawnRow (lo:ℕ) (nodeInfo:LirNodeInfo) (exprs:List IRExpr) (g:Dag LirId)
  (N:Net LirId) (R:List Way → List LirId → Prop) : Prop where
 shows : Shows g N
 range : ∀ v ∈ N.order, lo ≤ v ∧ v < nodeInfo.counter
 pairs : Pairs (List.Forall₂ IsWay exprs) N.Path R
 reads : ∀ ws p, R ws p → Reads nodeInfo (leavesAll ws) p

variable {lo:ℕ} {nodeInfo:LirNodeInfo} {N:Net LirId} {e:IRExpr} {w:Way}

variable {c:Child} {exprs:List IRExpr} {g:Dag LirId} {R:List Way → List LirId → Prop}
 {cs:List Child}

theorem drawnRow_singleton (h:Drawn lo nodeInfo c) :
  DrawnRow lo nodeInfo [c.expr] c.graph c.net fun ws p=>∃ w, [w]=ws ∧ c.rel w p where
 shows:=h.shows
 range:=h.range
 pairs := by
  refine h.pairs.relabel List.singleton_injective fun ws=>?_
  rw [←List.nil_append [c.expr],forall₂_concat]
  constructor
  · rintro ⟨ws', w,hws', hw,rfl⟩
    rw [List.forall₂_nil_left_iff.1 hws']
    exact ⟨w,rfl,hw⟩
  · rintro ⟨w,rfl,hw⟩
    exact ⟨[],w,.nil,hw,rfl⟩
 reads ws p hws := by
  obtain ⟨w,rfl,hw⟩:=hws
  rw [leavesAll,leavesAll,List.append_nil]
  exact h.reads w p hw

theorem concat_injective {A:Type} : Function.Injective fun x : List A × A=>x.1 ++ [x.2] := by
 intro x y h
 obtain ⟨h₁,h₂⟩:=List.append_inj' h rfl
 exact Prod.ext h₁ (List.singleton_injective h₂)

theorem drawnRow_concat (hsort:SortsDags topologicalSort)
  (h:DrawnRow lo nodeInfo exprs g N R) (hc:Drawn lo nodeInfo c)
  (hdisj:N.order.Disjoint c.net.order) :
  ∃ g' R', makeAndGraph topologicalSort g c.graph=some g' ∧
   DrawnRow lo nodeInfo (exprs ++ [c.expr]) g' (Net.series N c.net hdisj) R' := by
 obtain ⟨g', hg', hshows⟩:=makeAndGraph_spec hsort h.shows hc.shows hdisj
 refine ⟨g', _,hg', hshows,fun v hv=>?_,
  (h.pairs.series hc.pairs hdisj).relabel concat_injective fun ws=>?_, ?_⟩
 · rcases List.mem_append.1 hv with hv | hv
   · exact h.range v hv
   · exact hc.range v hv
 · rw [forall₂_concat]
   constructor
   · rintro ⟨ws', w,hws', hw,rfl⟩
     exact ⟨(ws', w),rfl,hws', hw⟩
   · rintro ⟨x,rfl,hws', hw⟩
     exact ⟨x.1,x.2,hws', hw,rfl⟩
 · rintro ws p ⟨x,rfl,p₁,p₂,h₁,h₂,rfl⟩
   rw [leavesAll_append,leavesAll,leavesAll,List.append_nil]
   exact (h.reads _ _ h₁).append (hc.reads _ _ h₂)

theorem foldlM_makeAndGraph (hsort:SortsDags topologicalSort)
  (hcs:∀ c ∈ cs, Drawn lo nodeInfo c)
  (hpair:cs.Pairwise fun c d=>c.net.order.Disjoint d.net.order)
  (h:DrawnRow lo nodeInfo exprs g N R) (hdisj:∀ c ∈ cs, N.order.Disjoint c.net.order) :
  ∃ g' N' R', (cs.map Child.graph).foldlM (makeAndGraph topologicalSort) g=some g' ∧
   DrawnRow lo nodeInfo (exprs ++ cs.map Child.expr) g' N' R' := by
 induction cs generalizing exprs g N R with
 | nil=>exact ⟨g,N,R,rfl,by rw [List.map_nil,List.append_nil]; exact h⟩
 | cons c cs ih=>
  obtain ⟨hc,hpair⟩:=List.pairwise_cons.1 hpair
  obtain ⟨g₁,R₁,hg₁,hrow⟩:=
   drawnRow_concat hsort h (hcs c List.mem_cons_self) (hdisj c List.mem_cons_self)
  have hdisj' : ∀ d ∈ cs, (Net.series N c.net (hdisj c List.mem_cons_self)).order.Disjoint
    d.net.order := fun d hd=>List.disjoint_append_left.2
   ⟨hdisj d (List.mem_cons_of_mem c hd),hc d hd⟩
  obtain ⟨g', N', R', hg', hrow'⟩:=
   ih (fun d hd=>hcs d (List.mem_cons_of_mem c hd)) hpair hrow hdisj'
  refine ⟨g', N', R', ?_, ?_⟩
  · rw [List.map_cons,List.foldlM_cons,hg₁]
    exact hg'
  · rw [List.append_assoc] at hrow'
    exact hrow'

theorem draws_leaf {node:LirNode} (hleaf:isLeaf e=true)
  (htransform:∀ nodeInfo, transform topologicalSort e nodeInfo =
   some (vertex nodeInfo.counter,nodeInfo.set node)) {label:LeafLabel}
  (he:leafOf e=some ⟨false,label⟩) (hlabel:∀ context, labelOf context node=some label) :
  Draws topologicalSort e := by
 intro nodeInfo
 have hreads:Reads (nodeInfo.set node) [e] [nodeInfo.counter]:=
  reads_label he fun _ _=>hlabel _
 exact ⟨nodeInfo.set node,leafChild e nodeInfo.counter,rfl,htransform nodeInfo,
  extends_set _ _,drawn_leaf hleaf hreads⟩

theorem draws_app (id:ID) (fnName:VName) (args:List IRExpr) :
  Draws topologicalSort (.app id fnName args) := by
 intro nodeInfo
 obtain ⟨gs,info₁,hgs,hext,hread⟩:=transformVars_spec topologicalSort args nodeInfo
 have hreads:Reads (info₁.set (.app fnName (gs.flatMap Dag.keys))) [.app id fnName args]
   [info₁.counter] := by
  refine reads_label rfl fun info hinfo=>?_
  rw [labelOf,hread info ((extends_set _ _).trans hinfo)]
 refine ⟨info₁.set (.app fnName (gs.flatMap Dag.keys)),leafChild _ info₁.counter,rfl, ?_,
  hext.trans (extends_set _ _),(drawn_leaf rfl hreads).mono hext.counter (.refl _)⟩
 rw [transform]
 simp only [hgs,Option.bind_eq_bind,Option.bind_some]
 rfl

theorem apart_singleton {s t:LirId} (hst:s ≠ t)
  (hs:s ∉ N.order) (ht:t ∉ N.order) : Net.Apart s t [N] where
 ne_nil:=List.cons_ne_nil N []
 ends:=hst
 source M hM := by rw [List.mem_singleton.1 hM]; exact hs
 sink M hM := by rw [List.mem_singleton.1 hM]; exact ht
 disjoint:=List.pairwise_singleton _ N

/-- Nets numbered below a counter lie apart from the two nodes that it gives next. -/
theorem apart_fresh {Ns:List (Net LirId)} {lo n:LirId} (hne:Ns ≠ [])
  (hrange:∀ N ∈ Ns, ∀ v ∈ N.order, lo ≤ v ∧ v < n)
  (hpair:Ns.Pairwise fun M N=>M.order.Disjoint N.order) : Net.Apart n (n+1) Ns where
 ne_nil:=hne
 ends:=Nat.ne_of_lt (Nat.lt_succ_self n)
 source N hN hmem:=Nat.lt_irrefl n (hrange N hN n hmem).2
 sink N hN hmem:=Nat.not_succ_lt_self (hrange N hN (n+1) hmem).2
 disjoint:=hpair

theorem range_bundle {Ns:List (Net LirId)} {lo n:LirId} (hlo:lo ≤ n)
  (hrange:∀ N ∈ Ns, ∀ v ∈ N.order, lo ≤ v ∧ v < n) (hapart:Net.Apart n (n+1) Ns) {v:LirId}
  (hv:v ∈ (Net.bundle n (n+1) Ns hapart).order) : lo ≤ v ∧ v < n+2 := by
 rcases List.mem_cons.1 hv with rfl | hv
 · exact ⟨hlo,Nat.lt_add_of_pos_right Nat.two_pos⟩
 rcases List.mem_append.1 hv with hv | hv
 · obtain ⟨N,hN,hv⟩:=List.mem_flatMap.1 hv
   exact ⟨(hrange N hN v hv).1,Nat.lt_add_right 2 (hrange N hN v hv).2⟩
 · rw [List.mem_singleton.1 hv]
   exact ⟨Nat.le_succ_of_le hlo,Nat.lt_succ_self _⟩

theorem draws_negated (hsort:SortsDags topologicalSort) (id id' : ID) (name:VName) :
  Draws topologicalSort (.not_ id (.uBoolVar id' name)) := by
 intro nodeInfo
 let v:=nodeInfo.counter
 let info₁:=nodeInfo.set (.uBoolVar id' name)
 let info₂:=info₁.set (.notStart (.not_ id (.uBoolVar id' name)))
 let info₃:=info₂.set .notEnd
 have hrange:∀ N ∈ [Net.point v], ∀ u ∈ N.order, v ≤ u ∧ u < v+1:=by simp [Net.point]
 have hapart:Net.Apart (v+1) (v+2) [Net.point v]:=
  apart_fresh (List.cons_ne_nil _ _) hrange (List.pairwise_singleton _ _)
 obtain ⟨g,hg,hshows⟩:=sandwich_spec hsort (shows_vertex v) hapart
 have hread:Reads info₃ [.not_ id (.uBoolVar id' name)] [v+1,v,v+2]:=by
  intro info hext rest
  have h₃:info.context (v+2)=some .notEnd:=context_of_extends_set hext
  have h₂:info.context (v+1)=some (.notStart (.not_ id (.uBoolVar id' name))):=
   context_of_extends_set ((extends_set info₂ .notEnd).trans hext)
  have h₁:info.context v=some (.uBoolVar id' name):=
   context_of_extends_set (((extends_set info₁ _).trans (extends_set info₂ .notEnd)).trans hext)
  rw [List.filterMap_cons_some h₂,List.filterMap_cons_some h₁,List.filterMap_cons_some h₃]
  rfl
 have hway:(fun w=>w=Way.leaf (.not_ id (.uBoolVar id' name))) =
   IsWay (.not_ id (.uBoolVar id' name)) := by
  funext w
  exact propext (isWay_leaf rfl).symm
 refine ⟨info₃,⟨_,g,Net.bundle (v+1) (v+2) [Net.point v] hapart,_⟩,rfl, ?_,
  ((extends_set _ _).trans (extends_set _ _)).trans (extends_set _ _),hshows,
  fun u hu=>range_bundle (Nat.le_succ v) hrange hapart hu,
  hway ▸ (Pairs.point _ v).sandwich hapart, ?_⟩
 · rw [transform,transform]
   simp only [Option.bind_eq_bind,Option.bind_some]
   exact congrArg (fun x=>x.bind fun notGraph=>some (notGraph,info₃)) hg
 · rintro w p ⟨q,⟨rfl,rfl⟩,rfl⟩
   exact hread

/-! ### Connectives -/

theorem isWay_and {id:ID} {args:List IRExpr} :
  IsWay (.and_ id args) w ↔ ∃ ws, Way.all ws=w ∧ List.Forall₂ IsWay args ws := by
 constructor
 · intro h
   cases h with
   | leaf hleaf=>exact absurd hleaf Bool.false_ne_true
   | all hws=>exact ⟨_,rfl,hws⟩
 · rintro ⟨ws,rfl,hws⟩
   exact .all hws

theorem isWay_or {id:ID} :
  IsWay (.or_ id (cs.map Child.expr)) w ↔ ∃ x : ℕ × Way, Way.one x.1 x.2=w ∧
   ∃ c, cs[x.1]? = some c ∧ IsWay c.expr x.2 := by
 constructor
 · intro h
   cases h with
   | leaf hleaf=>exact absurd hleaf Bool.false_ne_true
   | @one _ _ i e w hi hw=>
    rw [List.getElem?_map,Option.map_eq_some_iff] at hi
    obtain ⟨c,hc,rfl⟩:=hi
    exact ⟨(i,w),rfl,c,hc,hw⟩
 · rintro ⟨x,rfl,c,hc,hw⟩
   exact .one (by rw [List.getElem?_map,hc]; rfl) hw

theorem draws_and (hsort:SortsDags topologicalSort) (id:ID) {args:List IRExpr}
  (hne:args ≠ []) (h:∀ e ∈ args, Draws topologicalSort e) :
  Draws topologicalSort (.and_ id args) := by
 intro nodeInfo
 obtain ⟨info,cs,rfl,hcs,hext,hall,hpair⟩:=transformEach_spec h nodeInfo
 cases cs with
 | nil=>exact absurd rfl hne
 | cons c cs=>
  obtain ⟨hc,hpair⟩:=List.pairwise_cons.1 hpair
  obtain ⟨g,N,R,hg,hrow⟩:=foldlM_makeAndGraph hsort
   (fun d hd=>hall d (List.mem_cons_of_mem c hd)) hpair
   (drawnRow_singleton (hall c List.mem_cons_self)) hc
  refine ⟨info,⟨_,g,N,_⟩,rfl, ?_,hext,hrow.shows,hrow.range,
   hrow.pairs.relabel (fun _ _=>Way.all.inj) fun w=>isWay_and, ?_⟩
  · rw [transform,hcs]
    simp only [List.map_cons,hg,Option.bind_eq_bind,Option.bind_some]
    rfl
  · rintro w p ⟨ws,rfl,hws⟩
    exact hrow.reads ws p hws

theorem draws_or (hsort:SortsDags topologicalSort) (id:ID) {args:List IRExpr}
  (hne:args ≠ []) (h:∀ e ∈ args, Draws topologicalSort e) :
  Draws topologicalSort (.or_ id args) := by
 intro nodeInfo
 obtain ⟨info,cs,rfl,hcs,hext,hall,hpair⟩:=transformEach_spec h nodeInfo
 let s:=info.counter
 let info₁:=info.set .sourceWithOrAnno
 let info₂:=info₁.set .sink
 have hrange:∀ N ∈ cs.map Child.net, ∀ v ∈ N.order, nodeInfo.counter ≤ v ∧ v < s:=fun N hN=>by
  obtain ⟨c,hc,rfl⟩:=List.mem_map.1 hN
  exact (hall c hc).range
 have hapart:Net.Apart s (s+1) (cs.map Child.net):=apart_fresh
  (fun hnil=>hne (by rw [List.map_eq_nil_iff.1 hnil]; rfl)) hrange (List.pairwise_map.2 hpair)
 have hshown:List.Forall₂ Shows (cs.map Child.graph) (cs.map Child.net):=by
  rw [List.forall₂_map_left_iff,List.forall₂_map_right_iff]
  exact List.forall₂_same.2 fun c hc=>(hall c hc).shows
 obtain ⟨g,hg,hshows⟩:=makeOrGraph_spec hsort hshown hapart
 have hext' : Extends info info₂:=(extends_set _ _).trans (extends_set _ _)
 have hinj:Function.Injective fun x : ℕ × Way=>Way.one x.1 x.2:=fun x y hxy=>
  Prod.ext (Way.one.inj hxy).1 (Way.one.inj hxy).2
 refine ⟨info₂,⟨_,g,Net.bundle s (s+1) (cs.map Child.net) hapart,_⟩,rfl, ?_,
  hext.trans hext', hshows,fun v hv=>range_bundle hext.counter hrange hapart hv,
  (Pairs.bundle (fun c hc=>(hall c hc).pairs) hapart).relabel hinj fun w=>isWay_or, ?_⟩
 · rw [transform]
   simp only [hcs,Option.bind_eq_bind,Option.bind_some]
   exact congrArg (fun x=>x.bind fun orGraph=>some (orGraph,info₂)) hg
 · rintro w p ⟨x,rfl,c,q,hc,hq,rfl⟩
   have hsource:Reads info₂ [] [s]:=
    (reads_bundling fun _ _=>rfl : Reads info₁ [] [s]).mono (extends_set _ _)
   have hsink:Reads info₂ [] [info₁.counter]:=reads_bundling fun _ _=>rfl
   have hmid:=((hall c (List.mem_of_getElem? hc)).reads _ _ hq).mono hext'
   have hpath:=hsource.append (hmid.append hsink)
   rw [List.nil_append,List.append_nil] at hpath
   exact hpath

theorem draws_of_nnf (hsort:SortsDags topologicalSort) (h:Nnf e) :
  Draws topologicalSort e := by
 induction h with
 | uBoolVar id name=>
  exact draws_leaf rfl (fun _=>by rw [transform]) rfl fun _=>rfl
 | negated id id' name=>exact draws_negated hsort id id' name
 | trueE id name=>exact draws_leaf rfl (fun _=>by rw [transform]) rfl fun _=>rfl
 | falseE id name=>exact draws_leaf rfl (fun _=>by rw [transform]) rfl fun _=>rfl
 | inertE id txt ctx=>exact draws_leaf rfl (fun _=>by rw [transform]) rfl fun _=>rfl
 | app id fnName args=>exact draws_app id fnName args
 | and_ id hne _ ih=>exact draws_and hsort id hne ih
 | or_ id hne _ ih=>exact draws_or hsort id hne ih

/-- A ladder between its source and its sink, the ends numbered before the ladder is drawn. -/
theorem toLir_spec (hsort:SortsDags topologicalSort) (h:Nnf e) (nodeInfo:LirNodeInfo) :
  ∃ dag info, ∃ N : Net LirId, ∃ R, toLir topologicalSort e nodeInfo=some (dag,info) ∧
   Shows dag N ∧ Pairs (IsWay e) N.Path R ∧ ∀ w p, R w p → Reads info w.leaves p := by
 let s:=nodeInfo.counter
 let info₁:=nodeInfo.set .sourceNoAnno
 let info₂:=info₁.set .sink
 obtain ⟨info,c,rfl,hc,hext,hdrawn⟩:=draws_of_nnf hsort h info₂
 have hs:s ∉ c.net.order:=fun hmem=>
  Nat.not_succ_le_self s ((Nat.le_succ (s+1)).trans (hdrawn.range s hmem).1)
 have ht:s+1 ∉ c.net.order:=fun hmem=>
  Nat.not_succ_le_self (s+1) (hdrawn.range (s+1) hmem).1
 have hapart:=apart_singleton (Nat.ne_of_lt (Nat.lt_succ_self s)) hs ht
 obtain ⟨dag,hdag,hshows⟩:=sandwich_spec hsort hdrawn.shows hapart
 refine ⟨dag,info,_,_, ?_,hshows,hdrawn.pairs.sandwich hapart, ?_⟩
 · rw [toLir,hc]
   exact congrArg (fun x=>x.bind fun dag=>some (dag,info)) hdag
 · rintro w p ⟨q,hq,rfl⟩
   have hsource:Reads info [] [s]:=
    (reads_bundling fun _ _=>rfl : Reads info₁ [] [s]).mono ((extends_set _ _).trans hext)
   have hsink:Reads info [] [s+1]:=
    (reads_bundling fun _ _=>rfl : Reads info₂ [] [info₁.counter]).mono hext
   have hpath:=hsource.append ((hdrawn.reads w q hq).append hsink)
   rw [List.nil_append,List.append_nil] at hpath
   exact hpath

theorem getBarePaths_spec (hsort:SortsDags topologicalSort) {dag:Dag LirId} (h:Shows dag N) :
  ∃ paths, getBarePaths topologicalSort dag=some paths ∧ paths.Nodup ∧
   ∀ p, p ∈ paths ↔ N.Path p := by
 obtain ⟨pre,post,hsplit⟩:=List.append_of_mem N.source_mem
 have hfuel:post.length < dag.keys.length:=by
  have hperm:=h.isTopSort.1.length_eq
  rw [←hperm,hsplit,List.length_append,List.length_cons]
  omega
 obtain ⟨paths,hpaths,hnodup,hmem⟩:=
  getAllPathsFromVertex_spec h.isTopSort dag.keys.length hsplit hfuel
 have hedge:dag.Edge=N.edge:=by
  funext a b
  exact propext (h.edge a b)
 refine ⟨paths, ?_,hnodup,fun p=>(hmem p).trans ?_⟩
 · rw [getBarePaths,h.getSource hsort]
   exact hpaths
 · constructor
   · rintro ⟨t,ht,hwalk⟩
     rw [hedge] at hwalk
     have hmemt:t ∈ N.order:=
      Walk.mem (fun a b _ hab=>(N.edge_mem a b hab).2) hwalk N.source_mem t hwalk.last_mem
     have hend:∀ w, ¬N.edge t w:=fun w hw=>
      List.eq_nil_iff_forall_not_mem.1 ht w ((h.edge t w).2 hw)
     rw [(N.sink_iff t).1 ⟨hmemt,hend⟩] at hwalk
     exact hwalk
   · intro hp
     refine ⟨N.sink,List.eq_nil_iff_forall_not_mem.2 fun w hw=>?_,hedge ▸ hp⟩
     exact N.not_edge_sink w ((h.edge N.sink w).1 hw)

theorem leavesOn_of_way (h:Nnf e) (hw:IsWay e w)
  {p:List LirId} (hread:Reads nodeInfo w.leaves p) :
  (leavesOn nodeInfo.context p).map some=w.leaves.map leafOf := by
 have hall:∀ x ∈ w.leaves, ∃ leaf, leafOf x=some leaf:=fun x hx=>
  (leafOf_holds (leaves_nnf h hw x hx).1 (leaves_nnf h hw x hx).2 fun _=>true).imp
   fun _ hleaf=>hleaf.1
 rw [hread.leavesOn]
 generalize w.leaves=xs at hall
 induction xs with
 | nil=>rfl
 | cons x xs ih=>
  obtain ⟨leaf,hleaf⟩:=hall x List.mem_cons_self
  rw [List.filterMap_cons_some hleaf,List.map_cons,List.map_cons,hleaf,
   ih fun y hy=>hall y (List.mem_cons_of_mem x hy)]

theorem holds_iff_leaves (h:Nnf e) (hw:IsWay e w)
  {leaves:List Leaf} (hleaves:leaves.map some=w.leaves.map leafOf) (σ:ℤ → Bool) :
  (∀ leaf ∈ leaves, leaf.holds σ=true) ↔ ∀ x ∈ w.leaves, truth σ x=true := by
 constructor
 · intro hall x hx
   obtain ⟨leaf,hleaf,htruth⟩:=leafOf_holds (leaves_nnf h hw x hx).1 (leaves_nnf h hw x hx).2 σ
   have hmem:some leaf ∈ leaves.map some:=by
    rw [hleaves,←hleaf]
    exact List.mem_map_of_mem hx
   obtain ⟨leaf', hmem,heq⟩:=List.mem_map.1 hmem
   rw [←htruth,←Option.some.inj heq]
   exact hall leaf' hmem
 · intro hall leaf hmem
   have hmem' : some leaf ∈ w.leaves.map leafOf:=by
    rw [←hleaves]
    exact List.mem_map_of_mem hmem
   obtain ⟨x,hx,hleaf⟩:=List.mem_map.1 hmem'
   obtain ⟨leaf', hleaf', htruth⟩:=
    leafOf_holds (leaves_nnf h hw x hx).1 (leaves_nnf h hw x hx).2 σ
   rw [hleaf,Option.some.injEq] at hleaf'
   rw [hleaf', htruth,hall x hx]

/-- The graph of a ladder in normal form has one source and one sink, the paths between them are
the ways through the ladder with the leaves chosen on each, and the ladder is true just where all
leaves of one of its paths are. -/
theorem paths_are_ways (hsort:SortsDags topologicalSort) {e:IRExpr} (h:Nnf e)
  (nodeInfo:LirNodeInfo) :
  ∃ dag info source sink, ∃ paths : List (List LirId), ∃ route : Way → List LirId,
   toLir topologicalSort e nodeInfo=some (dag,info) ∧
   (∀ v, v ∈ dag.keys ∧ (∀ u, ¬dag.Edge u v) ↔ v=source) ∧
   (∀ v, v ∈ dag.keys ∧ (∀ w, ¬dag.Edge v w) ↔ v=sink) ∧
   AlgebraicGraphs.getSource topologicalSort dag=some (vertex source) ∧
   AlgebraicGraphs.getSink topologicalSort dag=some (vertex sink) ∧
   getAllPaths topologicalSort dag=some (paths.map pathFromValues) ∧
   (∀ p ∈ paths, getTopSort topologicalSort (pathFromValues p)=some p) ∧
   (∀ p, p ∈ paths ↔ Walk dag.Edge sink source p) ∧ paths.Nodup ∧
   Set.BijOn route {w | IsWay e w} {p | p ∈ paths} ∧
   (∀ w, IsWay e w → (leavesOn info.context (route w)).map some=w.leaves.map leafOf) ∧
   (∀ σ, truth σ e=true ↔
    ∃ p ∈ paths, ∀ leaf ∈ leavesOn info.context p, leaf.holds σ=true) ∧
   ∀ evalApp assignment v, eval_ evalApp assignment e=some (some v) →
    (v = .trueV ↔ ∃ w, IsWay e w ∧
     ∀ x ∈ w.leaves, eval_ evalApp assignment x=some (some .trueV)) := by
 obtain ⟨dag,info,N,R,htoLir,hshows,hpairs,hreads⟩:=toLir_spec hsort h nodeInfo
 obtain ⟨paths,hpaths,hnodup,hmem⟩:=getBarePaths_spec hsort hshows
 obtain ⟨route,hbij,hroute⟩:=hpairs.exists_bijOn
 have hedge:dag.Edge=N.edge:=by
  funext a b
  exact propext (hshows.edge a b)
 have hset:{p | p ∈ paths} = {p | N.Path p}:=Set.ext hmem
 have hleaves:∀ w, IsWay e w →
   (leavesOn info.context (route w)).map some=w.leaves.map leafOf :=
  fun w hw=>leavesOn_of_way h hw (hreads w _ (hroute w hw))
 refine ⟨dag,info,N.source,N.sink,paths,route,htoLir,fun v=>?_,fun v=>?_,
  hshows.getSource hsort,hshows.getSink hsort, ?_,fun p hp=>?_,fun p=>?_,hnodup,
  hset ▸ hbij,hleaves,fun σ=>?_,fun _ _ _ hv=>eval_iff_way h hv⟩
 · rw [hedge,hshows.keys]
   exact N.source_iff v
 · rw [hedge,hshows.keys]
   exact N.sink_iff v
 · rw [getAllPaths,hpaths]
   rfl
 · exact getTopSort_pathFromValues hsort ((hmem p).1 hp).nodup
 · rw [hmem,hedge]
   rfl
 · rw [truth_iff_way h σ]
   constructor
   · rintro ⟨w,hw,hall⟩
     exact ⟨route w,(hmem _).2 (hbij.mapsTo hw),(holds_iff_leaves h hw (hleaves w hw) σ).2 hall⟩
   · rintro ⟨p,hp,hall⟩
     obtain ⟨w,hw,rfl⟩:=hbij.surjOn ((hmem p).1 hp)
     exact ⟨w,hw,(holds_iff_leaves h hw (hleaves w hw) σ).1 hall⟩

end Transform

/-! ## A sort, and a small ladder -/

/-- The first order there is among all of the vertices. -/
def firstTopSort (g:Dag LirId) : Option (List LirId) :=
 g.keys.permutations.find? fun l=>decide (IsTopSort g l)

theorem sortsDags_firstTopSort : SortsDags firstTopSort where
 sorted g l h :=
  of_decide_eq_true (List.find?_some (p := fun l=>decide (IsTopSort g l)) h)
 total g l h := by
  refine Option.isSome_iff_exists.1 (List.find?_isSome.2 ⟨l, ?_,decide_eq_true h⟩)
  exact List.mem_permutations.2 h.1

/-- `citizen AND (resident OR NOT absent)` -/
def eligible : IRExpr :=
 .and_ 1 [.uBoolVar 2 ⟨10,"citizen"⟩,
  .or_ 3 [.uBoolVar 4 ⟨11,"resident"⟩,.not_ 5 (.uBoolVar 6 ⟨12,"absent"⟩)]]

theorem nnf_eligible : Nnf eligible := by
 refine .and_ 1 (List.cons_ne_nil _ _) fun e he=>?_
 simp only [List.mem_cons,List.not_mem_nil,or_false] at he
 rcases he with rfl | rfl
 · exact .uBoolVar 2 _
 · refine .or_ 3 (List.cons_ne_nil _ _) fun e he=>?_
   simp only [List.mem_cons,List.not_mem_nil,or_false] at he
   rcases he with rfl | rfl
   · exact .uBoolVar 4 _
   · exact .negated 5 6 _

theorem paths_are_ways_eligible : ∃ dag info, ∃ paths : List (List LirId), ∃ route : Way → List LirId,
  toLir firstTopSort eligible ⟨0,fun _=>none⟩=some (dag,info) ∧
  getAllPaths firstTopSort dag=some (paths.map pathFromValues) ∧
  Set.BijOn route {w | IsWay eligible w} {p | p ∈ paths} := by
 obtain ⟨dag,info,_,_,paths,route,hdag,_,_,_,_,hpaths,_,_,_,hbij,_⟩:=
  paths_are_ways sortsDags_firstTopSort nnf_eligible ⟨0,fun _=>none⟩
 exact ⟨dag,info,paths,route,hdag,hpaths,hbij⟩

end L4Ide.LadderPaths
