import L4Ide.VizExprToLir
import L4Ide.FuelledComputation

set_option autoImplicit false

/-!
# The graphs of ladders as two-terminal graphs

Joining the graphs of ladders joins the two-terminal graphs they show, and what stands in
one-to-one correspondence with the paths of the parts does so with the paths of the whole.
-/
namespace L4Ide.LadderNets
open TwoTerminalGraphs AlgebraicGraphs VizExprToLir FuelledComputation

structure Shows (g:Dag LirId) (N:Net LirId) : Prop where
 keys : ∀ v, v ∈ g.keys ↔ v ∈ N.order
 edge : ∀ a b, g.Edge a b ↔ N.edge a b

theorem Shows.isTopSort {g:Dag LirId} {N:Net LirId} (h:Shows g N) : IsTopSort g N.order := by
 refine ⟨(List.perm_ext_iff_of_nodup N.nodup g.keys_nodup).2 fun v=>(h.keys v).symm,
  fun v _ hv=>N.irrefl v ((h.edge v v).1 hv), ?_⟩
 exact N.sorted.imp fun {a b} hab hba=>hab ((h.edge b a).1 hba)

section Terminals
variable {topologicalSort:Dag LirId → Option (List LirId)} (hsort:SortsDags topologicalSort)
 {g:Dag LirId} {N:Net LirId}
include hsort

theorem Shows.exists_topSort (h:Shows g N) : ∃ l, getTopSort topologicalSort g=some l ∧
  l.head? = some N.source ∧ l.getLast? = some N.sink := by
 obtain ⟨l,hl⟩:=hsort.total g N.order h.isTopSort
 obtain ⟨hperm,_,hsorted⟩:=hsort.sorted g l hl
 have hmem:∀ v, v ∈ l ↔ v ∈ N.order:=fun v=>hperm.mem_iff.trans (h.keys v)
 have hpair:l.Pairwise fun a b=>¬N.edge b a:=
  hsorted.imp fun {a b} hab hba=>hab ((h.edge b a).2 hba)
 exact ⟨l,hl,Net.source_of_sorted hmem hpair,Net.sink_of_sorted hmem hpair⟩

theorem Shows.getSource (h:Shows g N) :
  AlgebraicGraphs.getSource topologicalSort g=some (vertex N.source) := by
 obtain ⟨l,hl,hhead,_⟩:=h.exists_topSort hsort
 cases l with
 | nil=>exact absurd hhead (Option.some_ne_none _).symm
 | cons v l=>
  rw [AlgebraicGraphs.getSource,hl,←Option.some.inj hhead]
  rfl

theorem Shows.getSink (h:Shows g N) :
  AlgebraicGraphs.getSink topologicalSort g=some (vertex N.sink) := by
 obtain ⟨l,hl,_,hlast⟩:=h.exists_topSort hsort
 simp only [AlgebraicGraphs.getSink,hl,hlast,Option.bind_eq_bind,Option.bind_some]
 rfl

variable {s t:LirId} {gs:List (Dag LirId)} {Ns:List (Net LirId)}

theorem sandwich_spec (h:Shows g N) (hapart:Net.Apart s t [N]) :
  ∃ g', sandwichWithSourceAndSink topologicalSort (vertex s) (vertex t) g=some g' ∧
   Shows g' (Net.bundle s t [N] hapart) := by
 refine ⟨_,by rw [sandwichWithSourceAndSink,h.getSource hsort,h.getSink hsort]; rfl, ?_, ?_⟩
 · intro v
   simp only [mem_keys_overlay,mem_keys_connect,mem_keys_vertex,h.keys,Net.bundle,
    List.flatMap_cons,List.flatMap_nil,List.append_nil,List.mem_cons,List.mem_append,
    List.not_mem_nil,or_false]
   constructor
   · rintro (((rfl | rfl) | hv) | (rfl | rfl))
     · exact Or.inl rfl
     · exact Or.inr (Or.inl N.source_mem)
     · exact Or.inr (Or.inl hv)
     · exact Or.inr (Or.inl N.sink_mem)
     · exact Or.inr (Or.inr rfl)
   · rintro (rfl | hv | rfl)
     · exact Or.inl (Or.inl (Or.inl rfl))
     · exact Or.inl (Or.inr hv)
     · exact Or.inr (Or.inr rfl)
 · intro a b
   simp only [edge_overlay,edge_connect,mem_keys_vertex,not_edge_vertex,h.edge,false_or]
   constructor
   · rintro ((⟨rfl,rfl⟩ | hab) | ⟨rfl,rfl⟩)
     · exact .enter (List.mem_singleton_self N)
     · exact .inside (List.mem_singleton_self N) hab
     · exact .leave (List.mem_singleton_self N)
   · rintro (hN | ⟨hN,hab⟩ | hN)
     · exact Or.inl (Or.inl ⟨rfl,by rw [List.mem_singleton.1 hN]⟩)
     · exact Or.inl (Or.inr (List.mem_singleton.1 hN ▸ hab))
     · exact Or.inr ⟨by rw [List.mem_singleton.1 hN],rfl⟩

theorem makeAndGraph_spec {g' : Dag LirId} {N' : Net LirId} (h:Shows g N) (h' : Shows g' N')
  (hdisj:N.order.Disjoint N'.order) :
  ∃ g'', makeAndGraph topologicalSort g g' = some g'' ∧ Shows g'' (Net.series N N' hdisj) := by
 refine ⟨_,by rw [makeAndGraph,h'.getSource hsort,h.getSink hsort]; rfl, ?_, ?_⟩
 · intro v
   simp only [mem_keys_overlay,mem_keys_connect,mem_keys_vertex,h.keys,h'.keys,Net.series,
    List.mem_append]
   constructor
   · rintro (((rfl | rfl) | hv) | hv)
     · exact Or.inl N.sink_mem
     · exact Or.inr N'.source_mem
     · exact Or.inl hv
     · exact Or.inr hv
   · rintro (hv | hv)
     · exact Or.inl (Or.inr hv)
     · exact Or.inr hv
 · intro a b
   simp only [edge_overlay,edge_connect,mem_keys_vertex,not_edge_vertex,h.edge,h'.edge,
    false_or,Net.series]
   tauto

theorem leftEdges_spec
  (h:List.Forall₂ Shows gs Ns) (overallSource:Dag LirId) :
  (gs.mapM fun child=>do
   return connect overallSource (← AlgebraicGraphs.getSource topologicalSort child)) =
   some (Ns.map fun N=>connect overallSource (vertex N.source)) := by
 induction h with
 | nil=>rfl
 | cons hg _ ih=>
  rw [List.mapM_cons,ih,hg.getSource hsort]
  rfl

theorem rightEdges_spec
  (h:List.Forall₂ Shows gs Ns) (overallSink:Dag LirId) :
  (gs.mapM fun child=>do
   return connect (← AlgebraicGraphs.getSink topologicalSort child) overallSink) =
   some (Ns.map fun N=>connect (vertex N.sink) overallSink) := by
 induction h with
 | nil=>rfl
 | cons hg _ ih=>
  rw [List.mapM_cons,ih,hg.getSink hsort]
  rfl

theorem makeOrGraph_spec
  (h:List.Forall₂ Shows gs Ns) (hapart:Net.Apart s t Ns) :
  ∃ g', makeOrGraph topologicalSort (vertex s) (vertex t) gs=some g' ∧
   Shows g' (Net.bundle s t Ns hapart) := by
 refine ⟨_,by rw [makeOrGraph,leftEdges_spec hsort h,rightEdges_spec hsort h]; rfl, ?_, ?_⟩
 · intro v
   simp only [mem_keys_overlays,List.mem_cons,List.mem_append,List.mem_map,Net.bundle,
    List.mem_flatMap,List.not_mem_nil,or_false]
   constructor
   · rintro ⟨x,rfl | (⟨N,hN,rfl⟩ | hx) | ⟨N,hN,rfl⟩,hv⟩
     · exact Or.inl (mem_keys_vertex.1 hv)
     · rcases mem_keys_connect.1 hv with hv | hv
       · exact Or.inl (mem_keys_vertex.1 hv)
       · exact Or.inr (Or.inl ⟨N,hN,mem_keys_vertex.1 hv ▸ N.source_mem⟩)
     · obtain ⟨N,hN,hg⟩:=forall₂_mem_left h hx
       exact Or.inr (Or.inl ⟨N,hN,(hg.keys v).1 hv⟩)
     · rcases mem_keys_connect.1 hv with hv | hv
       · exact Or.inr (Or.inl ⟨N,hN,mem_keys_vertex.1 hv ▸ N.sink_mem⟩)
       · exact Or.inr (Or.inr (mem_keys_vertex.1 hv))
   · rintro (rfl | ⟨N,hN,hv⟩ | rfl)
     · exact ⟨_,Or.inl rfl,mem_keys_vertex.2 rfl⟩
     · obtain ⟨x,hx,hg⟩:=forall₂_mem_right h hN
       exact ⟨x,Or.inr (Or.inl (Or.inr hx)),(hg.keys v).2 hv⟩
     · obtain ⟨N,hN⟩:=List.exists_mem_of_ne_nil Ns hapart.ne_nil
       exact ⟨_,Or.inr (Or.inr ⟨N,hN,rfl⟩),mem_keys_connect.2 (Or.inr (mem_keys_vertex.2 rfl))⟩
 · intro a b
   simp only [edge_overlays,List.mem_cons,List.mem_append,List.mem_map]
   constructor
   · rintro ⟨x,rfl | (⟨N,hN,rfl⟩ | hx) | ⟨N,hN,rfl⟩,hab⟩
     · exact absurd hab (not_edge_vertex s a b)
     · simp only [edge_connect,not_edge_vertex,mem_keys_vertex,false_or] at hab
       obtain ⟨rfl,rfl⟩:=hab
       exact .enter hN
     · obtain ⟨N,hN,hg⟩:=forall₂_mem_left h hx
       exact .inside hN ((hg.edge a b).1 hab)
     · simp only [edge_connect,not_edge_vertex,mem_keys_vertex,false_or] at hab
       obtain ⟨rfl,rfl⟩:=hab
       exact .leave hN
   · rintro (hN | ⟨hN,hab⟩ | hN)
     · exact ⟨_,Or.inr (Or.inl (Or.inl ⟨_,hN,rfl⟩)),by simp⟩
     · obtain ⟨x,hx,hg⟩:=forall₂_mem_right h hN
       exact ⟨x,Or.inr (Or.inl (Or.inr hx)),(hg.edge a b).2 hab⟩
     · exact ⟨_,Or.inr (Or.inr ⟨_,hN,rfl⟩),by simp⟩

end Terminals

structure Pairs {A B:Type} (P:A → Prop) (Q:B → Prop) (R:A → B → Prop) : Prop where
 left : ∀ a b, R a b → P a
 right : ∀ a b, R a b → Q b
 total : ∀ a, P a → ∃ b, R a b
 onto : ∀ b, Q b → ∃ a, R a b
 functional : ∀ a b b', R a b → R a b' → b=b'
 injective : ∀ a a' b, R a b → R a' b → a=a'

namespace Pairs
variable {A B C:Type} {P:A → Prop} {P' : B → Prop} {M N:Net LirId}
 {R:A → List LirId → Prop} {R' : B → List LirId → Prop}

theorem exists_bijOn (h:Pairs P N.Path R) : ∃ f : A → List LirId,
  Set.BijOn f {a | P a} {p | N.Path p} ∧ ∀ a, P a → R a (f a) := by
 classical
 have hf:∀ a, ∃ p, P a → R a p:=by
  intro a
  by_cases ha:P a
  · obtain ⟨p,hp⟩:=h.total a ha
    exact ⟨p,fun _=>hp⟩
  · exact ⟨[],fun hc=>absurd hc ha⟩
 choose f hf using hf
 refine ⟨f,⟨fun a ha=>h.right a _ (hf a ha),fun a ha a' ha' heq=>?_,fun p hp=>?_⟩,hf⟩
 · exact h.injective a a' (f a) (hf a ha) (heq ▸ hf a' ha')
 · obtain ⟨a,hap⟩:=h.onto p hp
   exact ⟨a,h.left a p hap,h.functional a _ _ (hf a (h.left a p hap)) hap⟩

theorem point (a:A) (v:LirId) :
  Pairs (fun x=>x=a) (Net.point v).Path fun x p=>x=a ∧ p=[v] where
 left _ _ h := h.1
 right _ _ h := Net.path_point.2 h.2
 total _ h := ⟨[v],h,rfl⟩
 onto _ h := ⟨a,rfl,Net.path_point.1 h⟩
 functional _ _ _ h h' := h.2.trans h'.2.symm
 injective _ _ _ h h' := h.1.trans h'.1.symm

variable {s t:LirId} {cs:List C}

theorem sandwich (h:Pairs P N.Path R) (hapart:Net.Apart s t [N]) :
  Pairs P (Net.bundle s t [N] hapart).Path fun a p=>∃ q, R a q ∧ p=s::(q ++ [t]) where
 left a p hp := by
  obtain ⟨q,hq,_⟩:=hp
  exact h.left a q hq
 right a p hp := by
  obtain ⟨q,hq,rfl⟩:=hp
  exact (Net.path_bundle hapart).2 ⟨N,List.mem_singleton_self N,q,h.right a q hq,rfl⟩
 total a ha := by
  obtain ⟨q,hq⟩:=h.total a ha
  exact ⟨_,q,hq,rfl⟩
 onto p hp := by
  obtain ⟨M,hM,q,hq,rfl⟩:=(Net.path_bundle hapart).1 hp
  obtain ⟨a,ha⟩:=h.onto q (List.mem_singleton.1 hM ▸ hq)
  exact ⟨a,q,ha,rfl⟩
 functional a p p' hp hp' := by
  obtain ⟨q,hq,rfl⟩:=hp
  obtain ⟨q', hq', rfl⟩:=hp'
  rw [h.functional a q q' hq hq']
 injective a a' p hp hp' := by
  obtain ⟨q,hq,rfl⟩:=hp
  obtain ⟨q', hq', heq⟩:=hp'
  obtain rfl:=List.append_cancel_right (List.cons.inj heq).2
  exact h.injective a a' q hq hq'

theorem series (h:Pairs P M.Path R) (h' : Pairs P' N.Path R') (hdisj:M.order.Disjoint N.order) :
  Pairs (fun x:A × B=>P x.1 ∧ P' x.2) (Net.series M N hdisj).Path
   fun x p=>∃ p₁ p₂, R x.1 p₁ ∧ R' x.2 p₂ ∧ p=p₁ ++ p₂ where
 left x p hx := by
  obtain ⟨p₁,p₂,h₁,h₂,_⟩:=hx
  exact ⟨h.left _ _ h₁,h'.left _ _ h₂⟩
 right x p hx := by
  obtain ⟨p₁,p₂,h₁,h₂,rfl⟩:=hx
  exact (Net.path_series M N hdisj).2 ⟨p₁,p₂,h.right _ _ h₁,h'.right _ _ h₂,rfl⟩
 total x hx := by
  obtain ⟨p₁,h₁⟩:=h.total _ hx.1
  obtain ⟨p₂,h₂⟩:=h'.total _ hx.2
  exact ⟨p₁ ++ p₂,p₁,p₂,h₁,h₂,rfl⟩
 onto p hp := by
  obtain ⟨p₁,p₂,h₁,h₂,rfl⟩:=(Net.path_series M N hdisj).1 hp
  obtain ⟨a,ha⟩:=h.onto p₁ h₁
  obtain ⟨b,hb⟩:=h'.onto p₂ h₂
  exact ⟨(a,b),p₁,p₂,ha,hb,rfl⟩
 functional x p q hp hq := by
  obtain ⟨p₁,p₂,h₁,h₂,rfl⟩:=hp
  obtain ⟨q₁,q₂,h₁', h₂', rfl⟩:=hq
  rw [h.functional _ _ _ h₁ h₁', h'.functional _ _ _ h₂ h₂']
 injective x y p hp hq := by
  obtain ⟨p₁,p₂,h₁,h₂,rfl⟩:=hp
  obtain ⟨q₁,q₂,h₁', h₂', heq⟩:=hq
  obtain ⟨rfl,rfl⟩:=Net.append_inj_of_disjoint hdisj (h.right _ _ h₁).mem
   (h'.right _ _ h₂).mem (h.right _ _ h₁').mem (h'.right _ _ h₂').mem heq
  exact Prod.ext (h.injective _ _ _ h₁ h₁') (h'.injective _ _ _ h₂ h₂')

theorem relabel (h:Pairs P N.Path R) {f:A → B} (hf:f.Injective)
  (hP:∀ b, P' b ↔ ∃ a, f a=b ∧ P a) :
  Pairs P' N.Path fun b p=>∃ a, f a=b ∧ R a p where
 left b p hb := by
  obtain ⟨a,rfl,ha⟩:=hb
  exact (hP _).2 ⟨a,rfl,h.left a p ha⟩
 right b p hb := by
  obtain ⟨a,_,ha⟩:=hb
  exact h.right a p ha
 total b hb := by
  obtain ⟨a,rfl,ha⟩:=(hP b).1 hb
  obtain ⟨p,hp⟩:=h.total a ha
  exact ⟨p,a,rfl,hp⟩
 onto p hp := by
  obtain ⟨a,ha⟩:=h.onto p hp
  exact ⟨f a,a,rfl,ha⟩
 functional b p q hp hq := by
  obtain ⟨a,rfl,ha⟩:=hp
  obtain ⟨a', heq,ha'⟩:=hq
  exact h.functional a p q ha (hf heq ▸ ha')
 injective b b' p hp hq := by
  obtain ⟨a,rfl,ha⟩:=hp
  obtain ⟨a', rfl,ha'⟩:=hq
  rw [h.injective a a' p ha ha']

theorem index_of_shared {net:C → Net LirId}
  (hdisj:(cs.map net).Pairwise fun M N=>M.order.Disjoint N.order) {i j:ℕ} {c d:C}
  (hi:cs[i]? = some c) (hj:cs[j]? = some d) {v:LirId} (hc:v ∈ (net c).order)
  (hd:v ∈ (net d).order) : i=j := by
 obtain ⟨hilt,rfl⟩:=List.getElem?_eq_some_iff.1 hi
 obtain ⟨hjlt,rfl⟩:=List.getElem?_eq_some_iff.1 hj
 have hpair:=List.pairwise_iff_getElem.1 (List.pairwise_map.1 hdisj)
 rcases Nat.lt_trichotomy i j with hlt | heq | hlt
 · exact absurd hd fun hd=>hpair i j hilt hjlt hlt hc hd
 · exact heq
 · exact absurd hc fun hc=>hpair j i hjlt hilt hlt hd hc

theorem bundle {P:C → A → Prop} {net:C → Net LirId}
  {R:C → A → List LirId → Prop} (h:∀ c ∈ cs, Pairs (P c) (net c).Path (R c))
  (hapart:Net.Apart s t (cs.map net)) :
  Pairs (fun x:ℕ × A=>∃ c, cs[x.1]? = some c ∧ P c x.2)
   (Net.bundle s t (cs.map net) hapart).Path
   fun x p=>∃ c q, cs[x.1]? = some c ∧ R c x.2 q ∧ p=s::(q ++ [t]) where
 left x p hx := by
  obtain ⟨c,q,hc,hq,_⟩:=hx
  exact ⟨c,hc,(h c (List.mem_of_getElem? hc)).left _ _ hq⟩
 right x p hx := by
  obtain ⟨c,q,hc,hq,rfl⟩:=hx
  have hmem:=List.mem_of_getElem? hc
  exact (Net.path_bundle hapart).2
   ⟨net c,List.mem_map_of_mem hmem,q,(h c hmem).right _ _ hq,rfl⟩
 total x hx := by
  obtain ⟨c,hc,ha⟩:=hx
  obtain ⟨q,hq⟩:=(h c (List.mem_of_getElem? hc)).total _ ha
  exact ⟨_,c,q,hc,hq,rfl⟩
 onto p hp := by
  obtain ⟨N,hN,q,hq,rfl⟩:=(Net.path_bundle hapart).1 hp
  obtain ⟨c,hmem,rfl⟩:=List.mem_map.1 hN
  obtain ⟨i,hc⟩:=List.mem_iff_getElem?.1 hmem
  obtain ⟨a,ha⟩:=(h c hmem).onto q hq
  exact ⟨(i,a),c,q,hc,ha,rfl⟩
 functional x p p' hp hp' := by
  obtain ⟨c,q,hc,hq,rfl⟩:=hp
  obtain ⟨d,q', hd,hq', rfl⟩:=hp'
  obtain rfl:=Option.some.inj (hc.symm.trans hd)
  rw [(h c (List.mem_of_getElem? hc)).functional _ _ _ hq hq']
 injective x y p hp hp' := by
  obtain ⟨c,q,hc,hq,rfl⟩:=hp
  obtain ⟨d,q', hd,hq', heq⟩:=hp'
  obtain rfl:=List.append_cancel_right (List.cons.inj heq).2
  have hpath:=(h c (List.mem_of_getElem? hc)).right _ _ hq
  have hpath' :=(h d (List.mem_of_getElem? hd)).right _ _ hq'
  have hi:=index_of_shared hapart.disjoint hc hd (hpath.mem _ (Walk.head_mem hpath))
   (hpath'.mem _ (Walk.head_mem hpath))
  rw [hi] at hc
  obtain rfl:=Option.some.inj (hc.symm.trans hd)
  exact Prod.ext hi ((h c (List.mem_of_getElem? hc)).injective _ _ _ hq hq')

end Pairs

end L4Ide.LadderNets
