import L4Ide.LadderSelectionPaths

set_option autoImplicit false

/-!
# A selection picks the fully selected paths

The graph without bundling nodes, cut down to what is selected, has every row of edges between
the ends as a path, and the tracker keeps those that are paths of the ladder.
-/
namespace L4Ide.LadderSelection
open TwoTerminalGraphs AlgebraicGraphs Ladder VizExprToLir
open LadderWays LadderNets LadderPaths

section Transform
variable {topologicalSort:Dag LirId → Option (List LirId)}

/-! ## The graph that is drawn -/

mutual

theorem transform_of_both : ∀ (e:IRExpr) (nodeInfo:LirNodeInfo) (result:ToLirResult)
  (nodeInfo' : LirNodeInfo), transformBoth topologicalSort e nodeInfo=some (result,nodeInfo') →
   transform topologicalSort e nodeInfo=some (result.graph,nodeInfo')
 | .uBoolVar _ _, nodeInfo, result, nodeInfo', h=>by
  rw [transformBoth,Option.some.injEq,Prod.mk.injEq] at h
  rw [transform,←h.1,←h.2]
 | .trueE _ _, nodeInfo, result, nodeInfo', h=>by
  rw [transformBoth,Option.some.injEq,Prod.mk.injEq] at h
  rw [transform,←h.1,←h.2]
 | .falseE _ _, nodeInfo, result, nodeInfo', h=>by
  rw [transformBoth,Option.some.injEq,Prod.mk.injEq] at h
  rw [transform,←h.1,←h.2]
 | .inertE _ _ _, nodeInfo, result, nodeInfo', h=>by
  rw [transformBoth,Option.some.injEq,Prod.mk.injEq] at h
  rw [transform,←h.1,←h.2]
 | .not_ id e, nodeInfo, result, nodeInfo', h=>by
  rw [transformBoth] at h
  simp only [Option.bind_eq_bind,Option.bind_eq_some_iff] at h
  obtain ⟨⟨negand,info₁⟩,hnegand,notGraph,hnot,flat,_,hresult⟩:=h
  obtain ⟨rfl,rfl⟩:=Prod.mk.inj (Option.some.inj hresult)
  rw [transform,transform_of_both e nodeInfo negand info₁ hnegand]
  simp only [Option.bind_eq_bind,Option.bind_some,hnot]
  rfl
 | .and_ _ args, nodeInfo, result, nodeInfo', h=>by
  rw [transformBoth] at h
  simp only [Option.bind_eq_bind,Option.bind_eq_some_iff] at h
  obtain ⟨⟨results,info₁⟩,hresults,h⟩:=h
  rw [transform,transformEach_of_both args nodeInfo results info₁ hresults]
  cases results with
  | nil=>exact absurd h.symm (Option.some_ne_none _)
  | cons first rest=>
   simp only [Option.bind_eq_some_iff] at h
   obtain ⟨combined,hcombined,hresult⟩:=h
   obtain ⟨rfl,rfl⟩:=Prod.mk.inj (Option.some.inj hresult)
   simp only [Option.bind_eq_bind,Option.bind_some,List.map_cons,hcombined]
   rfl
 | .or_ _ args, nodeInfo, result, nodeInfo', h=>by
  rw [transformBoth] at h
  simp only [Option.bind_eq_bind,Option.bind_eq_some_iff] at h
  obtain ⟨⟨results,info₁⟩,hresults,orGraph,hor,hresult⟩:=h
  obtain ⟨rfl,rfl⟩:=Prod.mk.inj (Option.some.inj hresult)
  rw [transform,transformEach_of_both args nodeInfo results info₁ hresults]
  simp only [Option.bind_eq_bind,Option.bind_some,hor]
  rfl
 | .app _ fnName args, nodeInfo, result, nodeInfo', h=>by
  rw [transformBoth] at h
  simp only [Option.bind_eq_bind,Option.bind_eq_some_iff] at h
  obtain ⟨⟨graphs,info₁⟩,hgraphs,hresult⟩:=h
  obtain ⟨rfl,rfl⟩:=Prod.mk.inj (Option.some.inj hresult)
  rw [transform,hgraphs]
  rfl

theorem transformEach_of_both : ∀ (args:List IRExpr) (nodeInfo:LirNodeInfo)
  (results:List ToLirResult) (nodeInfo' : LirNodeInfo),
   transformBothEach topologicalSort args nodeInfo=some (results,nodeInfo') →
    transformEach topologicalSort args nodeInfo =
     some (results.map ToLirResult.graph,nodeInfo')
 | [], nodeInfo, results, nodeInfo', h=>by
  rw [transformBothEach,Option.some.injEq,Prod.mk.injEq] at h
  rw [transformEach,←h.1,←h.2]
  rfl
 | arg::args, nodeInfo, results, nodeInfo', h=>by
  rw [transformBothEach] at h
  simp only [Option.bind_eq_bind,Option.bind_eq_some_iff] at h
  obtain ⟨⟨result,info₁⟩,hresult,⟨rest,info₂⟩,hrest,h⟩:=h
  obtain ⟨rfl,rfl⟩:=Prod.mk.inj (Option.some.inj h)
  rw [transformEach,transform_of_both arg nodeInfo result info₁ hresult]
  simp only [Option.bind_eq_bind,Option.bind_some,
   transformEach_of_both args info₁ rest info₂ hrest]
  rfl

end

/-! ## The graph that is looked into -/

/-- Between its ends, the graph of a whole ladder without intermediate bundling nodes. -/
def capGraph (s t:LirId) (g:Graph LirId) : Graph LirId :=
 .connect (.connect (.vertex s) g) (.vertex t)

section Cap
variable {sel:LirId → Bool} {g:Graph LirId} {N:Net LirId} {s t:LirId}

theorem dag_capGraph :
  (capGraph s t g).dag=connect (connect (vertex s) g.dag) (vertex t) := rfl

theorem mem_keys_capGraph {v:LirId} :
  v ∈ (capGraph s t g).dag.keys ↔ v=s ∨ v ∈ g.dag.keys ∨ v=t := by
 rw [dag_capGraph,mem_keys_connect,mem_keys_connect,mem_keys_vertex,mem_keys_vertex,or_assoc]

theorem edge_capGraph {a b:LirId} :
  (capGraph s t g).dag.Edge a b ↔ g.dag.Edge a b ∨ (a=s ∧ b ∈ g.dag.keys) ∨
   ((a=s ∨ a ∈ g.dag.keys) ∧ b=t) := by
 rw [dag_capGraph,edge_connect,edge_connect,mem_keys_connect,mem_keys_vertex,
  mem_keys_vertex]
 have hs:=not_edge_vertex s a b
 have ht:=not_edge_vertex t a b
 tauto

/-- The nodes that are kept, in the order of the ladder. -/
def kept (sel keep:LirId → Bool) (N:Net LirId) : List LirId :=
 N.order.filter fun v=>sel v && keep v

def KeptEdge (keep:LirId → Bool) (g:Graph LirId) (a b:LirId) : Prop :=
 g.dag.Edge a b ∧ keep a=true ∧ keep b=true

theorem Flattens.mem_kept (h:Flattens sel g N) {keep:LirId → Bool} {v:LirId} :
  v ∈ kept sel keep N ↔ v ∈ g.dag.keys ∧ keep v=true := by
 rw [kept,List.mem_filter,Bool.and_eq_true,h.keys,and_assoc]

theorem Flattens.between (h:Flattens sel g N) (keep:LirId → Bool)
  (hapart:Net.Apart s t [N]) : Net.Between s t (kept sel keep N) (KeptEdge keep g) where
 nodup:=N.nodup.filter _
 sorted:=(h.sorted.imp fun {_ _} hab hba=>hab hba.1).filter _
 irrefl a ha := h.irrefl a ha.1
 edge_mem a b hab :=
  ⟨h.mem_kept.2 ⟨(g.dag.neighbors_mem a b hab.1).1,hab.2.1⟩,
   h.mem_kept.2 ⟨(g.dag.neighbors_mem a b hab.1).2,hab.2.2⟩⟩
 ends:=hapart.ends
 source hs := hapart.source N (List.mem_singleton_self N) (List.mem_filter.1 hs).1
 sink ht := hapart.sink N (List.mem_singleton_self N) (List.mem_filter.1 ht).1

theorem edge_capped {order:List LirId} {E:LirId → LirId → Prop}
  (h:Net.Between s t order E) {a b:LirId} :
  (Net.capped s t order E h).edge a b ↔
   E a b ∨ (a=s ∧ (b ∈ order ∨ b=t)) ∨ (a ∈ order ∧ b=t) := by
 constructor
 · rintro (hb | hab | ha)
   · exact Or.inr (Or.inl ⟨rfl,hb⟩)
   · exact Or.inl hab
   · exact Or.inr (Or.inr ⟨ha,rfl⟩)
 · rintro (hab | ⟨rfl,hb⟩ | ⟨ha,rfl⟩)
   · exact .inside hab
   · exact .enter hb
   · exact .leave ha

theorem Flattens.shows_capGraph (h:Flattens sel g N) (hapart:Net.Apart s t [N]) :
  Shows (capGraph s t g).dag (Net.capped s t _ _ (h.between (fun _=>true) hapart)) where
 keys v := by
  rw [mem_keys_capGraph,Net.capped,List.mem_cons,List.mem_append,List.mem_singleton,
   h.mem_kept,and_iff_left rfl]
 edge a b := by
  rw [edge_capGraph,edge_capped,h.mem_kept,h.mem_kept,KeptEdge]
  tauto

theorem Flattens.shows_induce (h:Flattens sel g N) (keep:LirId → Bool)
  (hapart:Net.Apart s t [N]) {predicate:LirId → Bool}
  (hpredicate:∀ v, predicate v=true ↔ keep v=true ∨ v=s ∨ v=t) :
  Shows ((capGraph s t g).induce predicate)
   (Net.capped s t _ _ (h.between keep hapart)) where
 keys v := by
  have hends:(v=s ∨ v=t) → v ∉ g.dag.keys:=by
   rintro (rfl | rfl) hv
   · exact hapart.source N (List.mem_singleton_self N) ((h.keys v).1 hv).1
   · exact hapart.sink N (List.mem_singleton_self N) ((h.keys v).1 hv).1
  rw [mem_keys_induce,mem_keys_capGraph,hpredicate,Net.capped,List.mem_cons,
   List.mem_append,List.mem_singleton,h.mem_kept]
  tauto
 edge a b := by
  have hnotSource:s ∉ g.dag.keys:=fun hs=>
   hapart.source N (List.mem_singleton_self N) ((h.keys s).1 hs).1
  have hnotSink:t ∉ g.dag.keys:=fun ht=>
   hapart.sink N (List.mem_singleton_self N) ((h.keys t).1 ht).1
  have hmem:g.dag.Edge a b → a ∈ g.dag.keys ∧ b ∈ g.dag.keys:=g.dag.neighbors_mem a b
  have hne:g.dag.Edge a b → b ≠ a:=fun hab heq=>h.irrefl a (heq ▸ hab)
  have hends:s ≠ t:=hapart.ends
  rw [edge_induce,edge_capGraph,hpredicate,hpredicate,edge_capped,h.mem_kept,h.mem_kept,
   KeptEdge]
  constructor
  · rintro ⟨hab | ⟨rfl,hb⟩ | ⟨rfl | ha,rfl⟩,hpa,hpb,hba⟩
    · obtain ⟨ha,hb⟩:=hmem hab
      refine Or.inl ⟨hab,hpa.resolve_right ?_,hpb.resolve_right ?_⟩
      · rintro (rfl | rfl)
        · exact hnotSource ha
        · exact hnotSink ha
      · rintro (rfl | rfl)
        · exact hnotSource hb
        · exact hnotSink hb
    · refine Or.inr (Or.inl ⟨rfl,Or.inl ⟨hb,hpb.resolve_right ?_⟩⟩)
      rintro (rfl | rfl)
      · exact hnotSource hb
      · exact hnotSink hb
    · exact Or.inr (Or.inl ⟨rfl,Or.inr rfl⟩)
    · refine Or.inr (Or.inr ⟨⟨ha,hpa.resolve_right ?_⟩,rfl⟩)
      rintro (rfl | rfl)
      · exact hnotSource ha
      · exact hnotSink ha
  · rintro (⟨hab,ha,hb⟩ | ⟨rfl,⟨hb,hkeep⟩ | rfl⟩ | ⟨⟨ha,hkeep⟩,rfl⟩)
    · exact ⟨Or.inl hab,Or.inl ha,Or.inl hb,hne hab⟩
    · exact ⟨Or.inr (Or.inl ⟨rfl,hb⟩),Or.inr (Or.inl rfl),Or.inl hkeep,
       fun heq=>hnotSource (heq ▸ hb)⟩
    · exact ⟨Or.inr (Or.inr ⟨Or.inl rfl,rfl⟩),Or.inr (Or.inl rfl),Or.inr (Or.inr rfl),
       hends.symm⟩
    · exact ⟨Or.inr (Or.inr ⟨Or.inr ha,rfl⟩),Or.inl hkeep,Or.inr (Or.inr rfl),
       fun heq=>hnotSink (heq ▸ ha)⟩

end Cap

/-! ## A whole ladder -/

theorem isVertexAt_vertex {s v:LirId} : isVertexAt (vertex s) v=true ↔ v=s := by
 rw [isVertexAt,vertex,beq_iff_eq,List.cons.injEq,and_iff_left rfl,eq_comm]

theorem not_bundling_of_selectable {context:LirId → Option LirNode} {v:LirId}
  (h:selectable context v=true) : bundling context v=false := by
 rw [selectable] at h
 rw [bundling]
 cases hnode:context v with
 | none=>rfl
 | some node=>
  rw [hnode] at h
  cases node with
  | sourceNoAnno=>exact absurd h Bool.false_ne_true
  | sourceWithOrAnno=>exact absurd h Bool.false_ne_true
  | sink=>exact absurd h Bool.false_ne_true
  | _=>rfl

/-- Both graphs of a whole ladder, between the source `s` and the sink `t`. -/
structure WholeLadder (info:LirNodeInfo) (result:ToLirResult) (s t:LirId) (g:Graph LirId)
  (N:Net LirId) (hapart:Net.Apart s t [N]) : Prop where
 shows : Shows result.graph (Net.bundle s t [N] hapart)
 flattens : Flattens (selectable info.context) g N
 flat : result.noIntermediateBundlingNodeGraph=capGraph s t g
 source : selectable info.context s=false
 sink : selectable info.context t=false

theorem Flattens.makeNoIntermediateBundlingNodeDag (hsort:SortsDags topologicalSort)
  {context:LirId → Option LirNode} {g:Graph LirId} {N:Net LirId} {s t:LirId}
  (h:Flattens (selectable context) g N) (hapart:Net.Apart s t [N]) :
  makeNoIntermediateBundlingNodeDag topologicalSort context (capGraph s t g) =
   some (capGraph s t g) := by
 have hshows:=h.shows_capGraph hapart
 have hsource:getSource topologicalSort (capGraph s t g).dag=some (vertex s):=
  hshows.getSource hsort
 have hsink:getSink topologicalSort (capGraph s t g).dag=some (vertex t):=
  hshows.getSink hsort
 have hnone:((capGraph s t g).dag.keys.filter fun v=>
   !isVertexAt (vertex s) v && !isVertexAt (vertex t) v).any (bundling context)=false := by
  rw [List.any_eq_false]
  intro v hv
  obtain ⟨hv,hends⟩:=List.mem_filter.1 hv
  rw [Bool.and_eq_true,Bool.not_eq_true', Bool.not_eq_true', ← Bool.not_eq_true,
   ← Bool.not_eq_true,isVertexAt_vertex,isVertexAt_vertex] at hends
  have hmem:=((mem_keys_capGraph.1 hv).resolve_left hends.1).resolve_right hends.2
  rw [not_bundling_of_selectable ((h.keys v).1 hmem).2]
  exact Bool.false_ne_true
 rw [LadderSelection.makeNoIntermediateBundlingNodeDag,hsource]
 simp only [Option.bind_eq_bind,Option.bind_some,hsink,hnone]
 rfl

theorem toLirBoth_spec (hsort:SortsDags topologicalSort) {e:IRExpr} (h:Nnf e)
  (nodeInfo:LirNodeInfo) :
  ∃ result info s t g, ∃ N : Net LirId, ∃ hapart : Net.Apart s t [N],
   toLirBoth topologicalSort e nodeInfo=some (result,info) ∧
   toLir topologicalSort e nodeInfo=some (result.graph,info) ∧
   WholeLadder info result s t g N hapart := by
 let s:=nodeInfo.counter
 let info₁:=nodeInfo.set .sourceNoAnno
 let info₂:=info₁.set .sink
 obtain ⟨info,middle,N,hmiddle,hext,hsketched⟩:=sketches_of_nnf hsort h info₂
 have hs:s ∉ N.order:=fun hmem=>
  Nat.not_succ_le_self s ((Nat.le_succ (s+1)).trans (hsketched.range s hmem).1)
 have ht:s+1 ∉ N.order:=fun hmem=>
  Nat.not_succ_le_self (s+1) (hsketched.range (s+1) hmem).1
 have hapart:=apart_singleton (Nat.ne_of_lt (Nat.lt_succ_self s)) hs ht
 obtain ⟨dag,hdag,hshows⟩:=sandwich_spec hsort hsketched.shows hapart
 have hflat:=hsketched.flattens info (.refl info)
 have hfinal:=hflat.makeNoIntermediateBundlingNodeDag hsort hapart
 refine ⟨⟨dag,capGraph s (s+1) middle.noIntermediateBundlingNodeGraph⟩,info,s,s+1,
  middle.noIntermediateBundlingNodeGraph,N,hapart, ?_, ?_,hshows,hflat,rfl,
  selectable_of_extends ((extends_set info₁ .sink).trans hext),selectable_of_extends hext⟩
 · rw [toLirBoth,hmiddle]
   have hboth:((some dag).bind fun dag=>(some (capGraph s (s+1)
     middle.noIntermediateBundlingNodeGraph)).bind fun final=>
      some (ToLirResult.mk dag final,info)) =
     some (⟨dag,capGraph s (s+1) middle.noIntermediateBundlingNodeGraph⟩,info) := rfl
   rw [←hdag,←hfinal] at hboth
   exact hboth
 · rw [toLir,transform_of_both e info₂ middle info hmiddle]
   exact congrArg (fun x=>x.bind fun dag=>some (dag,info)) hdag

/-! ## The tracker -/

theorem mapM_of_eq_some {A B:Type} {f:A → Option B} {g:A → B} {l:List A}
  (h:∀ a ∈ l, f a=some (g a)) : l.mapM f=some (l.map g) := by
 induction l with
 | nil=>rfl
 | cons a l ih=>
  rw [List.mapM_cons,h a List.mem_cons_self,ih fun b hb=>h b (List.mem_cons_of_mem a hb)]
  rfl

def keyOf (sel:LirId → Bool) (s t:LirId) (p:List LirId) : List LirId :=
 p.filter fun v=>isVertexAt (vertex s) v || isVertexAt (vertex t) v || sel v

def pathOf (sel:LirId → Bool) (s t:LirId) (paths:List (List LirId)) (k:List LirId) :
  Option (List LirId) :=
 (paths.filter fun p=>keyOf sel s t p=k).getLast?

def allSelected (sel:LirId → Bool) (selected p:List LirId) : Bool :=
 p.all fun v=>!sel v || selected.contains v

section Key
variable {sel:LirId → Bool} {g:Graph LirId} {N:Net LirId} {s t:LirId}
 {selected p:List LirId}

theorem keyOf_path (hapart:Net.Apart s t [N]) {q:List LirId} (hq:N.Path q) :
  keyOf sel s t (s::(q ++ [t]))=s::(q.filter sel ++ [t]) := by
 have hmid:keyOf sel s t q=q.filter sel:=by
  refine List.filter_congr fun v hv=>?_
  have hv:=hq.mem v hv
  have hs:isVertexAt (vertex s) v=false:=by
   rw [←Bool.not_eq_true,isVertexAt_vertex]
   rintro rfl
   exact hapart.source N (List.mem_singleton_self N) hv
  have ht:isVertexAt (vertex t) v=false:=by
   rw [←Bool.not_eq_true,isVertexAt_vertex]
   rintro rfl
   exact hapart.sink N (List.mem_singleton_self N) hv
  rw [hs,ht,Bool.false_or,Bool.false_or]
 rw [keyOf,List.filter_cons_of_pos,List.filter_append,List.filter_cons_of_pos]
 · exact congrArg (fun l=>s::(l ++ [t])) hmid
 · rw [isVertexAt_vertex.2 rfl,Bool.or_true,Bool.true_or]
 · rw [isVertexAt_vertex.2 rfl,Bool.true_or,Bool.true_or]

theorem Flattens.keyOf_injective (h:Flattens sel g N) (hapart:Net.Apart s t [N])
  {p p' : List LirId} (hp:(Net.bundle s t [N] hapart).Path p)
  (hp' : (Net.bundle s t [N] hapart).Path p') (heq:keyOf sel s t p=keyOf sel s t p') :
  p=p' := by
 obtain ⟨M,hM,q,hq,rfl⟩:=(Net.path_bundle hapart).1 hp
 obtain ⟨M', hM', q', hq', rfl⟩:=(Net.path_bundle hapart).1 hp'
 rw [List.mem_singleton.1 hM] at hq
 rw [List.mem_singleton.1 hM'] at hq'
 rw [keyOf_path hapart hq,keyOf_path hapart hq', List.cons.injEq] at heq
 rw [h.injective q q' hq hq' (List.append_cancel_right heq.2)]

theorem Flattens.path_keyOf (h:Flattens sel g N) (hapart:Net.Apart s t [N])
  (hs:sel s=false) (ht:sel t=false)
  (hp:(Net.bundle s t [N] hapart).Path p) :
  (Net.capped s t _ _ (h.between selected.contains hapart)).Path (keyOf sel s t p) ↔
   allSelected sel selected p=true := by
 obtain ⟨M,hM,q,hq,rfl⟩:=(Net.path_bundle hapart).1 hp
 rw [List.mem_singleton.1 hM] at hq
 rw [keyOf_path hapart hq,allSelected,List.all_cons,List.all_append,List.all_cons,
  List.all_nil,hs,ht,Bool.not_false,Bool.true_or,Bool.true_or,Bool.true_and,
  Bool.and_true,Bool.and_true,List.all_eq_true]
 constructor
 · intro hpath v hv
   cases hsel:sel v with
   | false=>rfl
   | true=>
    have hmem:=hpath.mem v (List.mem_cons_of_mem s
     (List.mem_append_left [t] (List.mem_filter.2 ⟨hv,hsel⟩)))
    rcases List.mem_cons.1 hmem with rfl | hmem
    · exact absurd (hs.symm.trans hsel) Bool.false_ne_true
    rcases List.mem_append.1 hmem with hmem | hmem
    · exact (h.mem_kept.1 hmem).2
    · rw [List.mem_singleton.1 hmem,ht] at hsel
      exact absurd hsel Bool.false_ne_true
 · intro hall
   have hkeep:∀ v ∈ q.filter sel, selected.contains v=true:=fun v hv=>by
    have hv' :=hall v (List.mem_filter.1 hv).1
    rwa [(List.mem_filter.1 hv).2,Bool.not_true,Bool.false_or] at hv'
   have hmem:∀ v ∈ q.filter sel, v ∈ kept sel selected.contains N:=fun v hv=>
    h.mem_kept.2 ⟨h.mem_keys hq v hv,hkeep v hv⟩
   refine Net.path_capped _ hmem ?_
   exact List.IsChain.imp_of_mem_imp (fun a b ha hb hab=>⟨hab,hkeep a ha,hkeep b hb⟩)
    (h.chain q hq)

theorem mem_of_pathOf {paths:List (List LirId)} {k:List LirId}
  (h:pathOf sel s t paths k=some p) : p ∈ paths ∧ keyOf sel s t p=k := by
 obtain ⟨hmem,hkey⟩:=List.mem_filter.1 (List.mem_of_getLast? h)
 exact ⟨hmem,of_decide_eq_true hkey⟩

theorem pathOf_keyOf {paths:List (List LirId)}
  (hinj:∀ p' ∈ paths, keyOf sel s t p' = keyOf sel s t p → p' = p) (hp:p ∈ paths) :
  pathOf sel s t paths (keyOf sel s t p)=some p := by
 have hmem:p ∈ paths.filter fun p' =>keyOf sel s t p' = keyOf sel s t p:=
  List.mem_filter.2 ⟨hp,decide_eq_true rfl⟩
 cases hlast:pathOf sel s t paths (keyOf sel s t p) with
 | none=>
  rw [List.getLast?_eq_none_iff.1 hlast] at hmem
  exact absurd hmem List.not_mem_nil
 | some p' =>
  obtain ⟨hp', hkey⟩:=mem_of_pathOf hlast
  rw [hinj p' hp' hkey]

theorem perm_filterMap_pathOf {paths keys:List (List LirId)} (hpaths:paths.Nodup)
  (hkeys:keys.Nodup)
  (hinj:∀ p ∈ paths, ∀ p' ∈ paths, keyOf sel s t p' = keyOf sel s t p → p' = p)
  {selects:List LirId → Bool}
  (hselects:∀ p ∈ paths, keyOf sel s t p ∈ keys ↔ selects p=true) :
  (keys.filterMap (pathOf sel s t paths)).Perm (paths.filter selects) := by
 have hfound:(keys.filterMap (pathOf sel s t paths)).Nodup:=by
  refine hkeys.filterMap fun k k' p hk hk' =>?_
  rw [←(mem_of_pathOf hk).2,←(mem_of_pathOf hk').2]
 refine (List.perm_ext_iff_of_nodup hfound (hpaths.filter _)).2 fun p=>?_
 rw [List.mem_filterMap,List.mem_filter]
 constructor
 · rintro ⟨k,hk,hfind⟩
   obtain ⟨hp,rfl⟩:=mem_of_pathOf hfind
   exact ⟨hp,(hselects p hp).1 hk⟩
 · rintro ⟨hp,hsel⟩
   exact ⟨_,(hselects p hp).2 hsel,pathOf_keyOf (hinj p hp) hp⟩

end Key

def trackerOf (sel:LirId → Bool) (s t:LirId) (g:Graph LirId) (paths:List (List LirId)) :
  LadderNodeSelectionTracker :=
 ⟨capGraph s t g,paths.map fun p=>(keyOf sel s t p,pathFromValues p)⟩

theorem trackerOf_get (sel:LirId → Bool) (s t:LirId) (g:Graph LirId)
  (paths:List (List LirId)) (k:List LirId) :
  (trackerOf sel s t g paths).get k=(pathOf sel s t paths k).map pathFromValues := by
 rw [LadderNodeSelectionTracker.get,trackerOf,List.filter_map,List.getLast?_map,
  Option.map_map]
 rfl

namespace WholeLadder
variable {info:LirNodeInfo} {result:ToLirResult} {s t:LirId} {g:Graph LirId}
 {N:Net LirId} {hapart:Net.Apart s t [N]} {paths:List (List LirId)}

theorem make_tracker (h:WholeLadder info result s t g N hapart)
  (hsort:SortsDags topologicalSort)
  (hpaths:getBarePaths topologicalSort result.graph=some paths)
  (hmem:∀ p, p ∈ paths ↔ (Net.bundle s t [N] hapart).Path p) :
  LadderNodeSelectionTracker.make topologicalSort info.context result =
   some (trackerOf (selectable info.context) s t g paths) := by
 have hsource:getSource topologicalSort result.graph=some (vertex s):=
  h.shows.getSource hsort
 have hsink:getSink topologicalSort result.graph=some (vertex t):=h.shows.getSink hsort
 have hentry:∀ p ∈ paths, linPathToPathInNoIntermediateBundlingNodeDag topologicalSort
   info.context result.graph (pathFromValues p) =
    some (keyOf (selectable info.context) s t p) := fun p hp=>by
  rw [linPathToPathInNoIntermediateBundlingNodeDag,
   getTopSort_pathFromValues hsort ((hmem p).1 hp).nodup,hsource,hsink]
  rfl
 have hentries:=mapM_of_eq_some
  (f := fun p=>(linPathToPathInNoIntermediateBundlingNodeDag topologicalSort info.context
   result.graph (pathFromValues p)).bind fun k=>some (k,pathFromValues p))
  (g := fun p=>(keyOf (selectable info.context) s t p,pathFromValues p))
  fun p hp=>by rw [hentry p hp]; rfl
 rw [LadderNodeSelectionTracker.make,getAllPaths,hpaths]
 simp only [Option.bind_eq_bind,Option.bind_some,Option.pure_def,List.mapM_map]
 rw [h.flat,trackerOf]
 exact congrArg (fun x=>x.bind fun entries=>some
  (LadderNodeSelectionTracker.mk (capGraph s t g) entries)) hentries

theorem found (h:WholeLadder info result s t g N hapart) (hsort:SortsDags topologicalSort)
  (hpaths:paths.Nodup) (hmem:∀ p, p ∈ paths ↔ (Net.bundle s t [N] hapart).Path p)
  (selected:List LirId) :
  ∃ linPaths, (trackerOf (selectable info.context) s t g paths).findCorrespondingLinPaths
    topologicalSort selected=some linPaths ∧
   linPaths.Perm ((paths.filter (allSelected (selectable info.context) selected)).map
    pathFromValues) := by
 have hcap:=h.flattens.shows_capGraph hapart
 have hsource:getSource topologicalSort (capGraph s t g).dag=some (vertex s):=
  hcap.getSource hsort
 have hsink:getSink topologicalSort (capGraph s t g).dag=some (vertex t):=
  hcap.getSink hsort
 have hinduce:Shows ((capGraph s t g).induce fun v=>
   selected.contains v || isVertexAt (vertex s) v || isVertexAt (vertex t) v)
   (Net.capped s t _ _ (h.flattens.between selected.contains hapart)) :=
  h.flattens.shows_induce selected.contains hapart fun v=>by
   rw [Bool.or_eq_true,Bool.or_eq_true,isVertexAt_vertex,isVertexAt_vertex,or_assoc]
 obtain ⟨keys,hkeys,hnodup,hmemKeys⟩:=getBarePaths_spec hsort hinduce
 have hget:keys.mapM (fun k=>(getTopSort topologicalSort (pathFromValues k)).bind fun k=>
   some ((trackerOf (selectable info.context) s t g paths).get k)) =
    some (keys.map fun k=>(pathOf (selectable info.context) s t paths k).map
     pathFromValues) :=
  mapM_of_eq_some fun k hk=>by
   rw [getTopSort_pathFromValues hsort ((hmemKeys k).1 hk).nodup,Option.bind_some,
    trackerOf_get]
 have hfound:(keys.map fun k=>(pathOf (selectable info.context) s t paths k).map
   pathFromValues).filterMap id =
    (keys.filterMap (pathOf (selectable info.context) s t paths)).map pathFromValues := by
  rw [List.filterMap_map,List.map_filterMap]
  rfl
 refine ⟨_, ?_,(perm_filterMap_pathOf hpaths hnodup
  (fun p hp p' hp' =>h.flattens.keyOf_injective hapart ((hmem p').1 hp') ((hmem p).1 hp))
  fun p hp=>(hmemKeys _).trans
   (h.flattens.path_keyOf hapart h.source h.sink ((hmem p).1 hp))).map pathFromValues⟩
 rw [LadderNodeSelectionTracker.findCorrespondingLinPaths,trackerOf,hsource]
 simp only [Option.bind_eq_bind,Option.bind_some,hsink,getAllPaths,hkeys,Option.pure_def,
  List.mapM_map]
 rw [←hfound]
 exact congrArg (fun x=>x.bind fun found=>some (found.filterMap id)) hget

end WholeLadder

/-- Whatever is selected on a ladder in normal form, what is found are the paths of the ladder
whose selectable nodes are all selected, each once. -/
theorem selection_exact (hsort:SortsDags topologicalSort) {e:IRExpr} (h:Nnf e)
  (nodeInfo:LirNodeInfo) :
  ∃ result info tracker source sink, ∃ paths : List (List LirId),
   toLirBoth topologicalSort e nodeInfo=some (result,info) ∧
   toLir topologicalSort e nodeInfo=some (result.graph,info) ∧
   AlgebraicGraphs.getSource topologicalSort result.graph=some (vertex source) ∧
   AlgebraicGraphs.getSink topologicalSort result.graph=some (vertex sink) ∧
   getAllPaths topologicalSort result.graph=some (paths.map pathFromValues) ∧
   (∀ p, p ∈ paths ↔ Walk result.graph.Edge sink source p) ∧ paths.Nodup ∧
   (∀ p ∈ paths, getTopSort topologicalSort (pathFromValues p)=some p) ∧
   LadderNodeSelectionTracker.make topologicalSort info.context result=some tracker ∧
   ∀ selected, ∃ linPaths,
    tracker.findCorrespondingLinPaths topologicalSort selected=some linPaths ∧
    linPaths.Perm ((paths.filter fun p=>p.all fun v=>
     !selectable info.context v || selected.contains v).map pathFromValues) := by
 obtain ⟨result,info,s,t,g,N,hapart,hboth,hlir,hwhole⟩:=toLirBoth_spec hsort h nodeInfo
 obtain ⟨paths,hpaths,hnodup,hmem⟩:=getBarePaths_spec hsort hwhole.shows
 have hedge:result.graph.Edge=(Net.bundle s t [N] hapart).edge:=by
  funext a b
  exact propext (hwhole.shows.edge a b)
 refine ⟨result,info,trackerOf (selectable info.context) s t g paths,s,t,paths,hboth,hlir,
  hwhole.shows.getSource hsort,hwhole.shows.getSink hsort, ?_,fun p=>?_,hnodup,
  fun p hp=>getTopSort_pathFromValues hsort ((hmem p).1 hp).nodup,
  hwhole.make_tracker hsort hpaths hmem,hwhole.found hsort hnodup hmem⟩
 · rw [getAllPaths,hpaths]
   rfl
 · rw [hmem,hedge]
   rfl

theorem selection_exact_eligible : ∃ result info tracker, ∃ paths : List (List LirId),
  toLirBoth firstTopSort eligible ⟨0,fun _=>none⟩=some (result,info) ∧
  LadderNodeSelectionTracker.make firstTopSort info.context result=some tracker ∧
  ∀ selected, ∃ linPaths,
   tracker.findCorrespondingLinPaths firstTopSort selected=some linPaths ∧
   linPaths.Perm ((paths.filter fun p=>p.all fun v=>
    !selectable info.context v || selected.contains v).map pathFromValues) := by
 obtain ⟨result,info,tracker,_,_,paths,hboth,_,_,_,_,_,_,_,hmake,hfound⟩:=
  selection_exact sortsDags_firstTopSort nnf_eligible ⟨0,fun _=>none⟩
 exact ⟨result,info,tracker,paths,hboth,hmake,hfound⟩

end Transform

end L4Ide.LadderSelection
