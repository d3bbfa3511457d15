import Mathlib.Data.Finset.Card
import Mathlib.Data.Finset.Union
import Mathlib.Data.List.Dedup
import Mathlib.Logic.Relation

set_option autoImplicit false

/-!
# Strongly connected components

A graph is a list of nodes, each with its key and the keys of the nodes it points to; keys of no
node are passed over. What is reached from a key is grown from its successors as often as there
are nodes.
-/
namespace L4Ide.StronglyConnected
open Relation

inductive SCC (A:Type) where
 | acyclicSCC (a:A)
 | cyclicSCC (members:List A)

section Graph
variable {A K:Type} [DecidableEq K]

def keys (g:List (A × K × List K)) : List K := g.map fun v=>v.2.1

def successors (g:List (A × K × List K)) (k:K) : Finset K :=
 match g.find? fun v=>v.2.1=k with
 | some v=>(v.2.2.filter fun l=>l ∈ keys g).toFinset
 | none=>∅

def Points (g:List (A × K × List K)) (a b:K) : Prop := b ∈ successors g a

def grow (g:List (A × K × List K)) (s:Finset K) : Finset K := s ∪ s.biUnion (successors g)

def reached (g:List (A × K × List K)) (k:K) : Finset K :=
 (grow g)^[g.length] (successors g k)

def classOf (g:List (A × K × List K)) (a:K) : List K :=
 (keys g).filter fun b=>a=b ∨ b ∈ reached g a ∧ a ∈ reached g b

def classes (g:List (A × K × List K)) : List (List K) := ((keys g).map (classOf g)).dedup

def membersOf (g:List (A × K × List K)) (c:List K) : List A :=
 (g.filter fun v=>v.2.1 ∈ c).map Prod.fst

def component (g:List (A × K × List K)) (c:List K) : SCC A :=
 match g.filter fun v=>v.2.1 ∈ c with
 | [v]=>if v.2.1 ∈ v.2.2 then .cyclicSCC [v.1] else .acyclicSCC v.1
 | members=>.cyclicSCC (members.map Prod.fst)

def SCC.cyclic : SCC A → Option (List A)
 | .acyclicSCC _=>none
 | .cyclicSCC members=>some members

def stronglyConnComp (g:List (A × K × List K)) : List (SCC A) :=
 (classes g).map (component g)

variable {g:List (A × K × List K)}

theorem successors_subset (k:K) : successors g k ⊆ (keys g).toFinset := by
 intro l hl
 unfold successors at hl
 split at hl
 · simpa using (List.mem_filter.1 (List.mem_toFinset.1 hl)).2
 · simp at hl

theorem subset_grow (s:Finset K) : s ⊆ grow g s := Finset.subset_union_left

variable {s:Finset K} {a b:K} {c:List K}

theorem mem_grow_of_points (ha:a ∈ s) (h:Points g a b) :
  b ∈ grow g s :=
 Finset.mem_union_right _ (Finset.mem_biUnion.2 ⟨a,ha,h⟩)

theorem grow_subset (hs:s ⊆ (keys g).toFinset) :
  grow g s ⊆ (keys g).toFinset :=
 Finset.union_subset hs (Finset.biUnion_subset.2 fun k _=>successors_subset k)

theorem iterate_grow_subset (hs:s ⊆ (keys g).toFinset) (n:ℕ) :
  (grow g)^[n] s ⊆ (keys g).toFinset := by
 induction n with
 | zero=>exact hs
 | succ n ih=>
  rw [Function.iterate_succ_apply']
  exact grow_subset ih

theorem iterate_grow_stable_or (s:Finset K) (n:ℕ) :
  grow g ((grow g)^[n] s)=(grow g)^[n] s ∨ n+1 ≤ ((grow g)^[n+1] s).card := by
 have hround:∀ t : Finset K, grow g t=t ∨ t.card+1 ≤ (grow g t).card:=by
  intro t
  by_cases heq:grow g t=t
  · exact Or.inl heq
  · exact Or.inr (Finset.card_lt_card ((subset_grow t).ssubset_of_ne (Ne.symm heq)))
 induction n with
 | zero=>
  refine (hround s).imp id fun h=>?_
  change 0+1 ≤ (grow g s).card
  omega
 | succ n ih=>
  rcases ih with h | h
  · left
    rw [Function.iterate_succ_apply', h,h]
  · refine (hround ((grow g)^[n+1] s)).imp id fun h' =>?_
    rw [Function.iterate_succ_apply']
    omega

theorem reached_closed {c:K} (hb:b ∈ reached g a) (h:Points g b c) :
  c ∈ reached g a := by
 have hstable:grow g (reached g a)=reached g a:=by
  refine (iterate_grow_stable_or (successors g a) g.length).resolve_right fun hlarge=>?_
  have hle:=Finset.card_le_card (iterate_grow_subset (successors_subset (g := g) a) (g.length+1))
  have hkeys:(keys g).toFinset.card ≤ g.length:=
   (List.toFinset_card_le _).trans (le_of_eq (List.length_map _))
  omega
 rw [←hstable]
 exact mem_grow_of_points hb h

theorem transGen_of_mem_iterate (n:ℕ) (h:b ∈ (grow g)^[n] (successors g a)) :
  TransGen (Points g) a b := by
 induction n generalizing b with
 | zero=>exact .single h
 | succ n ih=>
  rw [Function.iterate_succ_apply'] at h
  rcases Finset.mem_union.1 h with h | h
  · exact ih h
  · obtain ⟨c,hc,hb⟩:=Finset.mem_biUnion.1 h
    exact (ih hc).tail hb

theorem mem_reached : b ∈ reached g a ↔ TransGen (Points g) a b := by
 constructor
 · exact transGen_of_mem_iterate g.length
 · intro h
   induction h with
   | single h=>
    have hmono:∀ n, successors g a ⊆ (grow g)^[n] (successors g a):=by
     intro n
     induction n with
     | zero=>exact fun _ h=>h
     | succ n ih=>
      rw [Function.iterate_succ_apply']
      exact ih.trans (subset_grow _)
    exact hmono g.length h
   | tail _ hstep ih=>exact reached_closed ih hstep

theorem mem_keys_of_points (h:Points g a b) : b ∈ keys g :=
 List.mem_toFinset.1 (successors_subset a h)

theorem mem_classOf : b ∈ classOf g a ↔
  b ∈ keys g ∧ (a=b ∨ TransGen (Points g) a b ∧ TransGen (Points g) b a) := by
 rw [classOf,List.mem_filter,decide_eq_true_iff,mem_reached,mem_reached]

theorem classOf_eq (h:b ∈ classOf g a) : classOf g a=classOf g b := by
 obtain ⟨-,hab⟩:=mem_classOf.1 h
 rcases hab with rfl | ⟨hab,hba⟩
 · rfl
 · refine List.filter_congr fun c _=>decide_eq_decide.2 ?_
   rw [mem_reached,mem_reached,mem_reached,mem_reached]
   constructor
   · rintro (rfl | ⟨hac,hca⟩)
     · exact Or.inr ⟨hba,hab⟩
     · exact Or.inr ⟨hba.trans hac,hca.trans hab⟩
   · rintro (rfl | ⟨hbc,hcb⟩)
     · exact Or.inr ⟨hab,hba⟩
     · exact Or.inr ⟨hab.trans hbc,hcb.trans hba⟩

theorem mem_classes : c ∈ classes g ↔ ∃ a ∈ keys g, classOf g a=c := by
 rw [classes,List.mem_dedup,List.mem_map]

theorem self_mem_classOf (h:a ∈ keys g) : a ∈ classOf g a :=
 mem_classOf.2 ⟨h,Or.inl rfl⟩

theorem classes_disjoint : (classes g).Pairwise fun c d=>∀ a ∈ c, a ∉ d := by
 refine (List.nodup_dedup _).imp_of_mem fun hc hd hne a hac had=>hne ?_
 obtain ⟨b,-,rfl⟩:=mem_classes.1 hc
 obtain ⟨b', -,rfl⟩:=mem_classes.1 hd
 rw [classOf_eq hac,classOf_eq had]

theorem successors_eq (hg:(keys g).Nodup) {v:A × K × List K} (hv:v ∈ g) {k:K} :
  Points g v.2.1 k ↔ k ∈ v.2.2 ∧ k ∈ keys g := by
 have hfind:g.find? (fun w=>w.2.1=v.2.1)=some v:=by
  obtain ⟨w,hw⟩ : ∃ w, g.find? (fun w=>w.2.1=v.2.1)=some w:=
   Option.isSome_iff_exists.1 (List.find?_isSome.2 ⟨v,hv,by simp⟩)
  have hkey:w.2.1=v.2.1:=by simpa using List.find?_some hw
  rw [hw,List.inj_on_of_nodup_map hg (List.mem_of_find?_eq_some hw) hv hkey]
 rw [Points,successors,hfind]
 simp

theorem points_iff (hg:(keys g).Nodup) :
  Points g a b ↔ (∃ v ∈ g, v.2.1=a ∧ b ∈ v.2.2) ∧ b ∈ keys g := by
 constructor
 · intro h
   have hb:=mem_keys_of_points h
   rw [Points,successors] at h
   split at h
   · next v hv=>
     have hkey:v.2.1=a:=by simpa using List.find?_some hv
     have hdep:b ∈ v.2.2:=(List.mem_filter.1 (List.mem_toFinset.1 h)).1
     exact ⟨⟨v,List.mem_of_find?_eq_some hv,hkey,hdep⟩,hb⟩
   · simp at h
 · rintro ⟨⟨v,hv,rfl,hdep⟩,hb⟩
   exact (successors_eq hg hv).2 ⟨hdep,hb⟩

theorem component_cyclic (hg:(keys g).Nodup) (hc:c ∈ classes g) :
  (component g c).cyclic =
   if ∀ a ∈ c, a ∈ reached g a then some (membersOf g c) else none := by
 obtain ⟨a,ha,rfl⟩:=mem_classes.1 hc
 have hself:(∀ b ∈ classOf g a, b ∈ reached g b) ↔ TransGen (Points g) a a:=by
  refine ⟨fun h=>mem_reached.1 (h a (self_mem_classOf ha)),fun h b hb=>mem_reached.2 ?_⟩
  rcases (mem_classOf.1 hb).2 with rfl | ⟨hab,hba⟩
  · exact h
  · exact hba.trans hab
 obtain ⟨v,hv,rfl⟩:=List.mem_map.1 ha
 have hmem:v ∈ g.filter fun w=>w.2.1 ∈ classOf g v.2.1:=
  List.mem_filter.2 ⟨hv,by simpa using self_mem_classOf ha⟩
 unfold component
 split
 · next w hfilter=>
   rw [hfilter,List.mem_singleton] at hmem
   subst hmem
   have hloop:v.2.1 ∈ v.2.2 ↔ TransGen (Points g) v.2.1 v.2.1:=by
    refine ⟨fun h=>.single ((successors_eq hg hv).2 ⟨h,ha⟩),fun h=>?_⟩
    obtain ⟨b,hb,hback⟩:=TransGen.head'_iff.1 h
    have hbk:=mem_keys_of_points hb
    have hbclass:b ∈ classOf g v.2.1:=by
     rcases reflTransGen_iff_eq_or_transGen.1 hback with heq | hback
     · exact heq ▸ self_mem_classOf ha
     · exact mem_classOf.2 ⟨hbk,Or.inr ⟨.single hb,hback⟩⟩
    obtain ⟨w,hw,hwb⟩:=List.mem_map.1 hbk
    have hwmem:w ∈ g.filter fun w=>w.2.1 ∈ classOf g v.2.1:=
     List.mem_filter.2 ⟨hw,by simpa [hwb] using hbclass⟩
    rw [hfilter,List.mem_singleton] at hwmem
    have hbv:b=v.2.1:=by rw [←hwb,hwmem]
    rw [hbv] at hb
    exact ((successors_eq hg hv).1 hb).1
   simp only [hself,←hloop,membersOf,hfilter,List.map_cons,List.map_nil]
   split <;> rfl
 · next hfilter=>
   have hcyc:TransGen (Points g) v.2.1 v.2.1:=by
    by_contra hno
    refine hfilter v ?_
    have hall:∀ w ∈ g, w.2.1 ∈ classOf g v.2.1 → w=v:=by
     intro w hw hwc
     rcases (mem_classOf.1 hwc).2 with heq | ⟨hvw,hwv⟩
     · exact List.inj_on_of_nodup_map hg hw hv heq.symm
     · exact absurd (hvw.trans hwv) hno
    have hnodup:(g.filter fun w=>w.2.1 ∈ classOf g v.2.1).Nodup:=
     (List.Nodup.of_map _ hg).filter _
    refine List.perm_singleton.1
     ((List.perm_ext_iff_of_nodup hnodup (List.nodup_singleton v)).2 fun w=>?_)
    rw [List.mem_singleton]
    constructor
    · intro hw
      exact hall w (List.mem_filter.1 hw).1 (by simpa using (List.mem_filter.1 hw).2)
    · exact fun hw=>hw ▸ hmem
   rw [if_pos (hself.2 hcyc)]
   rfl

theorem cyclic_stronglyConnComp (hg:(keys g).Nodup) :
  (stronglyConnComp g).filterMap SCC.cyclic =
   ((classes g).filter fun c=>∀ a ∈ c, a ∈ reached g a).map (membersOf g) := by
 rw [stronglyConnComp,List.filterMap_map,←List.filterMap_eq_map,←List.filterMap_eq_filter,
  List.filterMap_filterMap]
 refine List.filterMap_congr fun c hc=>?_
 rw [Function.comp_apply,component_cyclic hg hc,Option.guard]
 simp only [decide_eq_true_eq]
 split <;> rfl

end Graph

variable {K:Type}

theorem exists_rank {r:K → K → Prop} (targets:Finset K)
  (htargets:∀ a b, r a b → b ∈ targets) (h:∀ a, ¬ TransGen r a a) :
  ∃ rank : K → ℕ, ∀ a b, r a b → rank b < rank a := by
 classical
 refine ⟨fun a=>(targets.filter fun b=>TransGen r a b).card,fun a b hab=>?_⟩
 refine Finset.card_lt_card (Finset.ssubset_iff_of_subset ?_ |>.2 ⟨b, ?_, ?_⟩)
 · intro c hc
   obtain ⟨hc,hbc⟩:=Finset.mem_filter.1 hc
   exact Finset.mem_filter.2 ⟨hc,hbc.head hab⟩
 · exact Finset.mem_filter.2 ⟨htargets a b hab,.single hab⟩
 · exact fun hb=>h b (Finset.mem_filter.1 hb).2

theorem pairwise_of_isChain {r:K → K → Prop} {l:List K} (h:l.IsChain r) :
  l.Pairwise (TransGen r) :=
 (h.imp fun _ _=>TransGen.single).pairwise

theorem exists_isChain {r:K → K → Prop} {a b:K} (h:TransGen r a b) :
  ∃ l, List.IsChain r (a::l ++ [b]) := by
 induction h using TransGen.head_induction_on with
 | single h=>exact ⟨[],by simpa using h⟩
 | head hstep _ ih=>
  obtain ⟨l,hl⟩:=ih
  exact ⟨_::l,by simpa using ⟨hstep,hl⟩⟩

end L4Ide.StronglyConnected
