import L4Ide.LadderPaths
import L4Ide.LadderSelection

set_option autoImplicit false

/-!
# What a selection picks

In the graph without bundling nodes each path of the ladder is a row of edges through its
selectable nodes, and no other path has the same ones. So the paths of the selected part that are
paths of the ladder are just the paths whose selectable nodes are all selected.
-/
namespace L4Ide.LadderSelection
open TwoTerminalGraphs AlgebraicGraphs Ladder VizExprToLir
open LadderWays LadderNets LadderPaths FuelledComputation

/-! ## Graphs as they were built -/

section Graph
variable {α:Type} [DecidableEq α]

omit [DecidableEq α] in
theorem foldg_rebuild (g:Graph α) : foldg .empty .vertex .overlay .connect g=g := by
 induction g with
 | empty=>rfl
 | vertex value=>rfl
 | overlay left right ihl ihr=>rw [foldg,ihl,ihr]
 | connect left right ihl ihr=>rw [foldg,ihl,ihr]

def Graph.restrict (predicate:α → Bool) (g:Graph α) : Graph α :=
 g.bind fun a=>if predicate a then .vertex a else .empty

variable {predicate:α → Bool} {g:Graph α} {v a b:α}

theorem mem_keys_restrict :
  v ∈ (g.restrict predicate).dag.keys ↔ v ∈ g.dag.keys ∧ predicate v=true := by
 induction g with
 | empty=>exact iff_of_false List.not_mem_nil fun h=>List.not_mem_nil h.1
 | vertex value=>
  rw [Graph.restrict,Graph.bind,foldg,foldg_rebuild,Graph.dag,mem_keys_vertex]
  by_cases hvalue:predicate value=true
  · rw [if_pos hvalue,Graph.dag,mem_keys_vertex]
    exact ⟨fun h=>⟨h,h ▸ hvalue⟩,fun h=>h.1⟩
  · rw [if_neg hvalue]
    exact iff_of_false List.not_mem_nil fun h=>hvalue (h.1 ▸ h.2)
 | overlay left right ihl ihr=>
  change v ∈ (AlgebraicGraphs.overlay (left.restrict predicate).dag
   (right.restrict predicate).dag).keys ↔ _
  rw [mem_keys_overlay,ihl,ihr,Graph.dag,mem_keys_overlay,or_and_right]
 | connect left right ihl ihr=>
  change v ∈ (AlgebraicGraphs.connect (left.restrict predicate).dag
   (right.restrict predicate).dag).keys ↔ _
  rw [mem_keys_connect,ihl,ihr,Graph.dag,mem_keys_connect,or_and_right]

theorem edge_restrict :
  (g.restrict predicate).dag.Edge a b ↔
   g.dag.Edge a b ∧ predicate a=true ∧ predicate b=true := by
 induction g with
 | empty=>exact iff_of_false (not_edge_empty a b) fun h=>not_edge_empty a b h.1
 | vertex value=>
  rw [Graph.restrict,Graph.bind,foldg,foldg_rebuild]
  refine iff_of_false ?_ fun h=>not_edge_vertex value a b h.1
  split
  · exact not_edge_vertex value a b
  · exact not_edge_empty a b
 | overlay left right ihl ihr=>
  change (AlgebraicGraphs.overlay (left.restrict predicate).dag
   (right.restrict predicate).dag).Edge a b ↔ _
  rw [edge_overlay,ihl,ihr,Graph.dag,edge_overlay,or_and_right]
 | connect left right ihl ihr=>
  change (AlgebraicGraphs.connect (left.restrict predicate).dag
   (right.restrict predicate).dag).Edge a b ↔ _
  rw [edge_connect,ihl,ihr,mem_keys_restrict,mem_keys_restrict,Graph.dag,edge_connect]
  tauto

theorem mem_keys_induce :
  v ∈ (g.induce predicate).keys ↔ v ∈ g.dag.keys ∧ predicate v=true :=
 mem_keys_restrict

theorem edge_induce :
  (g.induce predicate).Edge a b ↔
   g.dag.Edge a b ∧ predicate a=true ∧ predicate b=true ∧ b ≠ a := by
 have hmem:(g.induce predicate).Edge a b ↔
   (g.restrict predicate).dag.Edge a b ∧ b ≠ a := by
  simp [Dag.Edge,Graph.induce,Graph.restrict,removeSelfLoops]
 rw [hmem,edge_restrict,and_assoc,and_assoc]

theorem dag_foldl_overlay (graphs:List (Graph α)) (g:Graph α) :
  (graphs.foldl Graph.overlay g).dag =
   (graphs.map Graph.dag).foldl AlgebraicGraphs.overlay g.dag := by
 induction graphs generalizing g with
 | nil=>rfl
 | cons x graphs ih=>exact ih (.overlay g x)

theorem dag_overlays (graphs:List (Graph α)) :
  (Graph.overlays graphs).dag=AlgebraicGraphs.overlays (graphs.map Graph.dag) :=
 dag_foldl_overlay graphs .empty

end Graph

/-! ## Paths without bundling nodes -/

theorem isChain_of_walk {α:Type} {E:α → α → Prop} {t a:α} {p:List α} (h:Walk E t a p) :
  p.IsChain E := by
 induction h with
 | last=>exact .singleton t
 | step hab hq ih=>
  cases hq with
  | last=>exact .cons_cons hab ih
  | step _ _=>exact .cons_cons hab ih

/-- The graph joins the selectable nodes of each path, and tells the paths apart by them. -/
structure Flattens (sel:LirId → Bool) (g:Graph LirId) (N:Net LirId) : Prop where
 keys : ∀ v, v ∈ g.dag.keys ↔ v ∈ N.order ∧ sel v=true
 irrefl : ∀ a, ¬g.dag.Edge a a
 sorted : N.order.Pairwise fun a b=>¬g.dag.Edge b a
 chain : ∀ p, N.Path p → (p.filter sel).IsChain g.dag.Edge
 ne_nil : ∀ p, N.Path p → p.filter sel ≠ []
 injective : ∀ p q, N.Path p → N.Path q → p.filter sel=q.filter sel → p=q

namespace Flattens
variable {sel:LirId → Bool} {g g' : Graph LirId} {M N:Net LirId}

theorem mem_keys (h:Flattens sel g N) {p:List LirId} (hp:N.Path p) :
  ∀ v ∈ p.filter sel, v ∈ g.dag.keys := fun v hv=>
 (h.keys v).2 ⟨hp.mem v (List.mem_filter.1 hv).1,(List.mem_filter.1 hv).2⟩

theorem edge_mem (h:Flattens sel g N) {a b:LirId} (hab:g.dag.Edge a b) :
  a ∈ N.order ∧ b ∈ N.order :=
 ⟨((h.keys a).1 (g.dag.neighbors_mem a b hab).1).1,
  ((h.keys b).1 (g.dag.neighbors_mem a b hab).2).1⟩

theorem of_shows (h:Shows g.dag N) (hsel:∀ v ∈ N.order, sel v=true) : Flattens sel g N := by
 have hfilter:∀ p, N.Path p → p.filter sel=p:=fun p hp=>
  List.filter_eq_self.2 fun v hv=>hsel v (hp.mem v hv)
 refine ⟨fun v=>?_,fun a ha=>N.irrefl a ((h.edge a a).1 ha),
  N.sorted.imp fun {a b} hab hba=>hab ((h.edge b a).1 hba),fun p hp=>?_,fun p hp=>?_,
  fun p q hp hq heq=>?_⟩
 · rw [h.keys v]
   exact ⟨fun hv=>⟨hv,hsel v hv⟩,fun hv=>hv.1⟩
 · rw [hfilter p hp]
   exact (isChain_of_walk hp).imp fun a b hab=>(h.edge a b).2 hab
 · rw [hfilter p hp]
   exact List.ne_nil_of_mem (Walk.head_mem hp)
 · rwa [hfilter p hp,hfilter q hq] at heq

theorem series (h:Flattens sel g M) (h' : Flattens sel g' N) (hdisj:M.order.Disjoint N.order) :
  Flattens sel (.connect g g') (Net.series M N hdisj) := by
 have hedge:∀ a b, (Graph.connect g g').dag.Edge a b ↔
   g.dag.Edge a b ∨ g'.dag.Edge a b ∨ (a ∈ g.dag.keys ∧ b ∈ g'.dag.keys) := fun a b=>
  edge_connect
 have hfilter:∀ {p₁ p₂}, M.Path p₁ → N.Path p₂ →
   (∀ v ∈ p₁.filter sel, v ∈ M.order) ∧ ∀ v ∈ p₂.filter sel, v ∈ N.order := fun h₁ h₂=>
  ⟨fun v hv=>h₁.mem v (List.mem_filter.1 hv).1,fun v hv=>h₂.mem v (List.mem_filter.1 hv).1⟩
 refine ⟨fun v=>?_,fun a ha=>?_, ?_,fun p hp=>?_,fun p hp=>?_,fun p q hp hq heq=>?_⟩
 · rw [Graph.dag,mem_keys_connect,h.keys,h'.keys,Net.series,List.mem_append,or_and_right]
 · rcases (hedge a a).1 ha with ha | ha | ⟨ha,ha'⟩
   · exact h.irrefl a ha
   · exact h'.irrefl a ha
   · exact hdisj ((h.keys a).1 ha).1 ((h'.keys a).1 ha').1
 · refine List.pairwise_append.2 ⟨?_, ?_,fun a ha b hb hba=>?_⟩
   · refine h.sorted.imp_of_mem fun {a b} ha hb hab hba=>?_
     rcases (hedge b a).1 hba with hba | hba | ⟨_,ha'⟩
     · exact hab hba
     · exact hdisj hb (h'.edge_mem hba).1
     · exact hdisj ha ((h'.keys a).1 ha').1
   · refine h'.sorted.imp_of_mem fun {a b} ha hb hab hba=>?_
     rcases (hedge b a).1 hba with hba | hba | ⟨hb', _⟩
     · exact hdisj (h.edge_mem hba).1 hb
     · exact hab hba
     · exact hdisj ((h.keys b).1 hb').1 hb
   · rcases (hedge b a).1 hba with hba | hba | ⟨hb', _⟩
     · exact hdisj (h.edge_mem hba).1 hb
     · exact hdisj ha (h'.edge_mem hba).2
     · exact hdisj ((h.keys b).1 hb').1 hb
 · obtain ⟨p₁,p₂,h₁,h₂,rfl⟩:=(Net.path_series M N hdisj).1 hp
   rw [List.filter_append,List.isChain_append]
   refine ⟨(h.chain p₁ h₁).imp fun a b hab=>(hedge a b).2 (Or.inl hab),
    (h'.chain p₂ h₂).imp fun a b hab=>(hedge a b).2 (Or.inr (Or.inl hab)), ?_⟩
   intro a ha b hb
   exact (hedge a b).2 (Or.inr (Or.inr ⟨h.mem_keys h₁ a (List.mem_of_getLast? ha),
    h'.mem_keys h₂ b (List.mem_of_head? hb)⟩))
 · obtain ⟨p₁,p₂,h₁,h₂,rfl⟩:=(Net.path_series M N hdisj).1 hp
   rw [List.filter_append]
   exact List.append_ne_nil_of_left_ne_nil (h.ne_nil p₁ h₁) _
 · obtain ⟨p₁,p₂,h₁,h₂,rfl⟩:=(Net.path_series M N hdisj).1 hp
   obtain ⟨q₁,q₂,h₁', h₂', rfl⟩:=(Net.path_series M N hdisj).1 hq
   rw [List.filter_append,List.filter_append] at heq
   obtain ⟨heq₁,heq₂⟩:=Net.append_inj_of_disjoint hdisj (hfilter h₁ h₂).1 (hfilter h₁ h₂).2
    (hfilter h₁' h₂').1 (hfilter h₁' h₂').2 heq
   rw [h.injective p₁ q₁ h₁ h₁' heq₁,h'.injective p₂ q₂ h₂ h₂' heq₂]

theorem bundle {gs:List (Graph LirId)} {Ns:List (Net LirId)}
  (h:List.Forall₂ (Flattens sel) gs Ns) {s t:LirId} (hs:sel s=false)
  (ht:sel t=false) (hapart:Net.Apart s t Ns) :
  Flattens sel (Graph.overlays gs) (Net.bundle s t Ns hapart) := by
 have hkeys:∀ v, v ∈ (Graph.overlays gs).dag.keys ↔ ∃ g ∈ gs, v ∈ g.dag.keys:=fun v=>by
  rw [dag_overlays,mem_keys_overlays]
  simp
 have hedge:∀ a b, (Graph.overlays gs).dag.Edge a b ↔ ∃ g ∈ gs, g.dag.Edge a b:=fun a b=>by
  rw [dag_overlays,edge_overlays]
  simp
 have hpath:∀ {p}, (Net.bundle s t Ns hapart).Path p → ∃ g N q, g ∈ gs ∧ N ∈ Ns ∧
   Flattens sel g N ∧ N.Path q ∧ p=s::(q ++ [t]) ∧ p.filter sel=q.filter sel := by
  intro p hp
  obtain ⟨N,hN,q,hq,rfl⟩:=(Net.path_bundle hapart).1 hp
  obtain ⟨g,hg,hflat⟩:=forall₂_mem_right h hN
  refine ⟨g,N,q,hg,hN,hflat,hq,rfl, ?_⟩
  simp [hs,ht]
 have hinside:∀ {a b}, (Graph.overlays gs).dag.Edge a b → ∃ g N, N ∈ Ns ∧ Flattens sel g N ∧
   g ∈ gs ∧ g.dag.Edge a b ∧ a ∈ N.order ∧ b ∈ N.order := by
  intro a b hab
  obtain ⟨g,hg,hab⟩:=(hedge a b).1 hab
  obtain ⟨N,hN,hflat⟩:=forall₂_mem_left h hg
  exact ⟨g,N,hN,hflat,hg,hab,hflat.edge_mem hab⟩
 refine ⟨fun v=>?_,fun a ha=>?_, ?_,fun p hp=>?_,fun p hp=>?_,fun p q hp hq heq=>?_⟩
 · rw [hkeys]
   constructor
   · rintro ⟨g,hg,hv⟩
     obtain ⟨N,hN,hflat⟩:=forall₂_mem_left h hg
     obtain ⟨hv,hsel⟩:=(hflat.keys v).1 hv
     exact ⟨List.mem_cons_of_mem s (List.mem_append_left [t] (List.mem_flatMap.2 ⟨N,hN,hv⟩)),
      hsel⟩
   · rintro ⟨hv,hsel⟩
     rcases List.mem_cons.1 hv with rfl | hv
     · exact absurd (hs.symm.trans hsel) Bool.false_ne_true
     rcases List.mem_append.1 hv with hv | hv
     · obtain ⟨N,hN,hv⟩:=List.mem_flatMap.1 hv
       obtain ⟨g,hg,hflat⟩:=forall₂_mem_right h hN
       exact ⟨g,hg,(hflat.keys v).2 ⟨hv,hsel⟩⟩
     · rw [List.mem_singleton.1 hv] at hsel
       exact absurd (ht.symm.trans hsel) Bool.false_ne_true
 · obtain ⟨g,N,_,hflat,_,ha,_⟩:=hinside ha
   exact hflat.irrefl a ha
 · refine List.pairwise_cons.2 ⟨fun b _ hb=>?_,List.pairwise_append.2 ⟨?_,
    List.pairwise_singleton _ t,fun a _ b hb hba=>?_⟩⟩
   · obtain ⟨_,N,hN,_,_,_,_,hmem⟩:=hinside hb
     exact hapart.source N hN hmem
   · refine List.pairwise_flatMap.2 ⟨fun N hN=>?_, ?_⟩
     · refine List.pairwise_iff_forall_sublist.2 fun {a b} hsub hba=>?_
       obtain ⟨g,N', hN', hflat,_,hba,hb,_⟩:=hinside hba
       obtain rfl:=hapart.eq_of_shared hN hN' (hsub.subset (by simp)) hb
       exact List.pairwise_iff_forall_sublist.1 hflat.sorted hsub hba
     · refine hapart.disjoint.imp_of_mem fun {M N} hM hN hdisj a ha b hb hba=>?_
       obtain ⟨_,N', hN', _,_,_,hb', ha'⟩:=hinside hba
       obtain rfl:=hapart.eq_of_shared hN hN' hb hb'
       exact hdisj ha ha'
   · rw [List.mem_singleton.1 hb] at hba
     obtain ⟨_,N,hN,_,_,_,hmem,_⟩:=hinside hba
     exact hapart.sink N hN hmem
 · obtain ⟨g,N,q,hg,_,hflat,hq,-,hfilter⟩:=hpath hp
   rw [hfilter]
   exact (hflat.chain q hq).imp fun a b hab=>(hedge a b).2 ⟨g,hg,hab⟩
 · obtain ⟨g,N,q,_,_,hflat,hq,-,hfilter⟩:=hpath hp
   rw [hfilter]
   exact hflat.ne_nil q hq
 · obtain ⟨g,N,p', _,hN,hflat,hp', rfl,hfilter⟩:=hpath hp
   obtain ⟨g', N', q', _,hN', hflat', hq', rfl,hfilter'⟩:=hpath hq
   rw [hfilter,hfilter'] at heq
   obtain ⟨v,hv⟩:=List.exists_mem_of_ne_nil _ (hflat.ne_nil p' hp')
   have hvN:=hp'.mem v (List.mem_filter.1 hv).1
   rw [heq] at hv
   obtain rfl:=hapart.eq_of_shared hN hN' hvN (hq'.mem v (List.mem_filter.1 hv).1)
   rw [hflat.injective p' q' hp' hq' heq]

end Flattens

/-! ## The two graphs of a ladder -/

variable {nodeInfo nodeInfo': LirNodeInfo}

theorem selectable_of_extends {node:LirNode}
  (h:Extends (nodeInfo.set node) nodeInfo') :
  selectable nodeInfo'.context nodeInfo.counter=isSelectableLadderLirNode node := by
 rw [selectable,context_of_extends_set h]
 rfl

/-- Both graphs of a ladder, drawn with ids from `lo` on. -/
structure Sketched (lo:ℕ) (nodeInfo:LirNodeInfo) (result:ToLirResult) (N:Net LirId) :
  Prop where
 shows : Shows result.graph N
 range : ∀ v ∈ N.order, lo ≤ v ∧ v < nodeInfo.counter
 flattens : ∀ nodeInfo', Extends nodeInfo nodeInfo' →
  Flattens (selectable nodeInfo'.context) result.noIntermediateBundlingNodeGraph N

theorem Sketched.mono {lo lo' : ℕ} {result:ToLirResult}
  {N:Net LirId} (h:Sketched lo nodeInfo result N) (hlo:lo' ≤ lo)
  (hext:Extends nodeInfo nodeInfo') : Sketched lo' nodeInfo' result N where
 shows:=h.shows
 range v hv := ⟨hlo.trans (h.range v hv).1,lt_of_lt_of_le (h.range v hv).2 hext.counter⟩
 flattens info hinfo := h.flattens info (hext.trans hinfo)

section Transform
variable {topologicalSort:Dag LirId → Option (List LirId)}

def Sketches (topologicalSort:Dag LirId → Option (List LirId)) (e:IRExpr) : Prop :=
 ∀ nodeInfo, ∃ nodeInfo' result N, transformBoth topologicalSort e nodeInfo =
  some (result,nodeInfo') ∧ Extends nodeInfo nodeInfo' ∧
  Sketched nodeInfo.counter nodeInfo' result N

variable {nodeInfo:LirNodeInfo} {e:IRExpr}

theorem sketched_leaf {node:LirNode}
  (hnode:isSelectableLadderLirNode node=true) :
  Sketched nodeInfo.counter (nodeInfo.set node)
   ⟨vertex nodeInfo.counter,.vertex nodeInfo.counter⟩ (Net.point nodeInfo.counter) where
 shows:=shows_vertex _
 range v hv := by
  rw [List.mem_singleton.1 hv]
  exact ⟨le_rfl,Nat.lt_succ_self _⟩
 flattens nodeInfo' hext := Flattens.of_shows (shows_vertex _) fun v hv=>by
  rw [List.mem_singleton.1 hv,selectable_of_extends hext,hnode]

theorem sketches_leaf {node:LirNode} (hnode:isSelectableLadderLirNode node=true)
  (htransform:∀ nodeInfo, transformBoth topologicalSort e nodeInfo =
   some (⟨vertex nodeInfo.counter,.vertex nodeInfo.counter⟩,nodeInfo.set node)) :
  Sketches topologicalSort e := fun nodeInfo=>
 ⟨_,_,_,htransform nodeInfo,extends_set _ _,sketched_leaf hnode⟩

theorem sketches_app (id:ID) (fnName:VName) (args:List IRExpr) :
  Sketches topologicalSort (.app id fnName args) := by
 intro nodeInfo
 obtain ⟨gs,info₁,hgs,hext,-⟩:=transformVars_spec topologicalSort args nodeInfo
 refine ⟨info₁.set (.app fnName (gs.flatMap Dag.keys)),_,_, ?_,hext.trans (extends_set _ _),
  (sketched_leaf rfl).mono hext.counter (.refl _)⟩
 rw [transformBoth]
 simp only [hgs,Option.bind_eq_bind,Option.bind_some]
 rfl

theorem sandwichGraph_dag (overallSource overallSink middle:Graph LirId) :
  (sandwichGraph topologicalSort overallSource overallSink middle).map Graph.dag =
   sandwichWithSourceAndSink topologicalSort overallSource.dag overallSink.dag middle.dag := by
 rw [sandwichGraph,sandwichWithSourceAndSink,AlgebraicGraphs.getSource,
  AlgebraicGraphs.getSink]
 cases getTopSort topologicalSort middle.dag with
 | none=>rfl
 | some order=>
  cases order with
  | nil=>rfl
  | cons v order=>
   simp only [Option.bind_eq_bind,Option.bind_some,List.head?_cons]
   cases (v::order).getLast? with
   | none=>rfl
   | some w=>rfl

theorem sketches_negated (hsort:SortsDags topologicalSort) (id id' : ID) (name:VName) :
  Sketches topologicalSort (.not_ id (.uBoolVar id' name)) := by
 intro nodeInfo
 let v:=nodeInfo.counter
 let info₁:=nodeInfo.set (.uBoolVar id' name)
 let info₂:=info₁.set (.notStart (.not_ id (.uBoolVar id' name)))
 let info₃:=info₂.set .notEnd
 have hrange:∀ N ∈ [Net.point v], ∀ u ∈ N.order, v ≤ u ∧ u < v+1:=by simp [Net.point]
 have hapart:Net.Apart (v+1) (v+2) [Net.point v]:=
  apart_fresh (List.cons_ne_nil _ _) hrange (List.pairwise_singleton _ _)
 obtain ⟨g,hg,hshows⟩:=sandwich_spec hsort (shows_vertex v) hapart
 obtain ⟨G,hG,rfl⟩:=Option.map_eq_some_iff.1
  ((sandwichGraph_dag (.vertex (v+1)) (.vertex (v+2)) (.vertex v)).trans hg)
 have horder:∀ u ∈ (Net.bundle (v+1) (v+2) [Net.point v] hapart).order,
   u=v+1 ∨ u=v ∨ u=v+2 := by
  intro u hu
  simpa [Net.bundle,Net.point] using hu
 refine ⟨info₃,⟨G.dag,G⟩,Net.bundle (v+1) (v+2) [Net.point v] hapart, ?_,
  ((extends_set _ _).trans (extends_set _ _)).trans (extends_set _ _),hshows,
  fun u hu=>range_bundle (Nat.le_succ v) hrange hapart hu, ?_⟩
 · rw [transformBoth,transformBoth]
   simp only [Option.bind_eq_bind,Option.bind_some]
   have hdag:sandwichWithSourceAndSink topologicalSort (vertex (v+1)) (vertex (v+2))
     (vertex v)=some G.dag := hg
   have hboth:((some G.dag).bind fun notGraph=>(some G).bind fun graph=>
     some (ToLirResult.mk notGraph graph,info₃))=some (⟨G.dag,G⟩,info₃) := rfl
   rw [←hdag,←hG] at hboth
   exact hboth
 · intro info hext
   refine Flattens.of_shows hshows fun u hu=>?_
   have h₂:=(extends_set info₂ .notEnd).trans hext
   have h₁:=(extends_set info₁ (.notStart (.not_ id (.uBoolVar id' name)))).trans h₂
   rcases horder u hu with rfl | rfl | rfl
   · exact selectable_of_extends h₂
   · exact selectable_of_extends h₁
   · exact selectable_of_extends hext

theorem transformBothEach_spec {args:List IRExpr} (h:∀ e ∈ args, Sketches topologicalSort e)
  (nodeInfo:LirNodeInfo) :
  ∃ nodeInfo', ∃ cs : List (ToLirResult × Net LirId), cs.length=args.length ∧
   transformBothEach topologicalSort args nodeInfo=some (cs.map Prod.fst,nodeInfo') ∧
   Extends nodeInfo nodeInfo' ∧ (∀ c ∈ cs, Sketched nodeInfo.counter nodeInfo' c.1 c.2) ∧
   cs.Pairwise fun c d=>c.2.order.Disjoint d.2.order := by
 induction args generalizing nodeInfo with
 | nil=>exact ⟨nodeInfo,[],rfl,by rw [transformBothEach]; rfl,.refl nodeInfo,by simp,.nil⟩
 | cons e args ih=>
  obtain ⟨info₁,result,N,hc,hext₁,hsketched⟩:=h e List.mem_cons_self nodeInfo
  obtain ⟨info₂,cs,hlength,hcs,hext₂,hall,hpair⟩:=
   ih (fun e he=>h e (List.mem_cons_of_mem _ he)) info₁
  refine ⟨info₂,(result,N)::cs,congrArg (· + 1) hlength, ?_,hext₁.trans hext₂,
   fun d hd=>?_, ?_⟩
  · rw [transformBothEach]
    simp only [hc,hcs,Option.bind_eq_bind,Option.bind_some]
    rfl
  · rcases List.mem_cons.1 hd with rfl | hd
    · exact hsketched.mono le_rfl hext₂
    · exact (hall d hd).mono hext₁.counter (.refl info₂)
  · refine List.pairwise_cons.2 ⟨fun d hd v hv hv' =>?_,hpair⟩
    exact Nat.lt_irrefl v (lt_of_lt_of_le (hsketched.range v hv).2 ((hall d hd).range v hv').1)

theorem foldl_sketched (hsort:SortsDags topologicalSort) {lo:ℕ}
  {cs:List (ToLirResult × Net LirId)} (hcs:∀ c ∈ cs, Sketched lo nodeInfo c.1 c.2)
  (hpair:cs.Pairwise fun c d=>c.2.order.Disjoint d.2.order) {result:ToLirResult}
  {N:Net LirId} (h:Sketched lo nodeInfo result N)
  (hdisj:∀ c ∈ cs, N.order.Disjoint c.2.order) :
  ∃ g N', ((cs.map Prod.fst).map ToLirResult.graph).foldlM (makeAndGraph topologicalSort)
    result.graph=some g ∧
   Sketched lo nodeInfo ⟨g,((cs.map Prod.fst).map
    ToLirResult.noIntermediateBundlingNodeGraph).foldl .connect
     result.noIntermediateBundlingNodeGraph⟩ N' := by
 induction cs generalizing result N with
 | nil=>exact ⟨result.graph,N,rfl,h⟩
 | cons c cs ih=>
  obtain ⟨hc,hpair⟩:=List.pairwise_cons.1 hpair
  have hfirst:=hcs c List.mem_cons_self
  have hd:=hdisj c List.mem_cons_self
  obtain ⟨g₁,hg₁,hshows⟩:=makeAndGraph_spec hsort h.shows hfirst.shows hd
  have hsketched:Sketched lo nodeInfo ⟨g₁,.connect result.noIntermediateBundlingNodeGraph
    c.1.noIntermediateBundlingNodeGraph⟩ (Net.series N c.2 hd) :=
   ⟨hshows,fun v hv=>(List.mem_append.1 hv).elim (h.range v) (hfirst.range v),
    fun info hinfo=>(h.flattens info hinfo).series (hfirst.flattens info hinfo) hd⟩
  obtain ⟨g,N', hg,hrest⟩:=ih (fun d hd=>hcs d (List.mem_cons_of_mem c hd)) hpair hsketched
   fun d hd' =>List.disjoint_append_left.2 ⟨hdisj d (List.mem_cons_of_mem c hd'),hc d hd'⟩
  refine ⟨g,N', ?_,hrest⟩
  rw [List.map_cons,List.map_cons,List.foldlM_cons,hg₁]
  exact hg

theorem sketches_and (hsort:SortsDags topologicalSort) (id:ID) {args:List IRExpr}
  (hne:args ≠ []) (h:∀ e ∈ args, Sketches topologicalSort e) :
  Sketches topologicalSort (.and_ id args) := by
 intro nodeInfo
 obtain ⟨info,cs,hlength,hcs,hext,hall,hpair⟩:=transformBothEach_spec h nodeInfo
 cases cs with
 | nil=>exact absurd (List.length_eq_zero_iff.1 hlength.symm) hne
 | cons c cs=>
  obtain ⟨hc,hpair⟩:=List.pairwise_cons.1 hpair
  obtain ⟨g,N,hg,hsketched⟩:=foldl_sketched hsort
   (fun d hd=>hall d (List.mem_cons_of_mem c hd)) hpair (hall c List.mem_cons_self) hc
  refine ⟨info,_,N, ?_,hext,hsketched⟩
  rw [transformBoth,hcs]
  simp only [List.map_cons,hg,Option.bind_eq_bind,Option.bind_some]
  rfl

theorem sketches_or (hsort:SortsDags topologicalSort) (id:ID) {args:List IRExpr}
  (hne:args ≠ []) (h:∀ e ∈ args, Sketches topologicalSort e) :
  Sketches topologicalSort (.or_ id args) := by
 intro nodeInfo
 obtain ⟨info,cs,hlength,hcs,hext,hall,hpair⟩:=transformBothEach_spec h nodeInfo
 let s:=info.counter
 let info₁:=info.set .sourceWithOrAnno
 let info₂:=info₁.set .sink
 have hrange:∀ N ∈ cs.map Prod.snd, ∀ v ∈ N.order, nodeInfo.counter ≤ v ∧ v < s:=fun N hN=>by
  obtain ⟨c,hc,rfl⟩:=List.mem_map.1 hN
  exact (hall c hc).range
 have hapart:Net.Apart s (s+1) (cs.map Prod.snd):=by
  refine apart_fresh (fun hnil=>hne ?_) hrange (List.pairwise_map.2 hpair)
  rw [List.map_eq_nil_iff.1 hnil] at hlength
  exact List.length_eq_zero_iff.1 hlength.symm
 have hshown:List.Forall₂ Shows ((cs.map Prod.fst).map ToLirResult.graph)
   (cs.map Prod.snd) := by
  rw [List.map_map,List.forall₂_map_left_iff,List.forall₂_map_right_iff]
  exact List.forall₂_same.2 fun c hc=>(hall c hc).shows
 obtain ⟨g,hg,hshows⟩:=makeOrGraph_spec hsort hshown hapart
 have hext' : Extends info info₂:=(extends_set _ _).trans (extends_set _ _)
 refine ⟨info₂,⟨g,Graph.overlays ((cs.map Prod.fst).map
  ToLirResult.noIntermediateBundlingNodeGraph)⟩,
  Net.bundle s (s+1) (cs.map Prod.snd) hapart, ?_,
  hext.trans hext', hshows,fun v hv=>range_bundle hext.counter hrange hapart hv,
  fun info' hinfo=>?_⟩
 · rw [transformBoth]
   simp only [hcs,Option.bind_eq_bind,Option.bind_some]
   exact congrArg (fun x=>x.bind fun orGraph=>some (ToLirResult.mk orGraph (Graph.overlays
    ((cs.map Prod.fst).map ToLirResult.noIntermediateBundlingNodeGraph)),info₂)) hg
 · have hflat:List.Forall₂ (Flattens (selectable info'.context))
     ((cs.map Prod.fst).map ToLirResult.noIntermediateBundlingNodeGraph)
     (cs.map Prod.snd) := by
    rw [List.map_map,List.forall₂_map_left_iff,List.forall₂_map_right_iff]
    exact List.forall₂_same.2 fun c hc=>(hall c hc).flattens info' (hext'.trans hinfo)
   exact Flattens.bundle hflat (selectable_of_extends ((extends_set info₁ .sink).trans hinfo))
    (selectable_of_extends hinfo) hapart

theorem sketches_of_nnf (hsort:SortsDags topologicalSort) (h:Nnf e) :
  Sketches topologicalSort e := by
 induction h with
 | uBoolVar id name=>exact sketches_leaf rfl fun _=>by rw [transformBoth]
 | negated id id' name=>exact sketches_negated hsort id id' name
 | trueE id name=>exact sketches_leaf rfl fun _=>by rw [transformBoth]
 | falseE id name=>exact sketches_leaf rfl fun _=>by rw [transformBoth]
 | inertE id txt ctx=>exact sketches_leaf rfl fun _=>by rw [transformBoth]
 | app id fnName args=>exact sketches_app id fnName args
 | and_ id hne _ ih=>exact sketches_and hsort id hne ih
 | or_ id hne _ ih=>exact sketches_or hsort id hne ih

end Transform

end L4Ide.LadderSelection
