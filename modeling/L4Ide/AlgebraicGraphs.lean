import Mathlib.Data.List.Permutation
import L4Ide.TwoTerminalGraphs

set_option autoImplicit false

/-!
# Algebraic graphs

Directed graphs kept as adjacency maps, built by `overlay` and `connect`, with what is read off a
topological order: a source, a sink, and every path from the one to the other.
-/
namespace L4Ide.AlgebraicGraphs
open TwoTerminalGraphs

/-- An adjacency map: the vertices and their sets of neighbors, in the order of insertion. -/
structure Dag (α:Type) where
 keys : List α
 neighbors : α → List α
 keys_nodup : keys.Nodup
 neighbors_nodup : ∀ v, (neighbors v).Nodup
 neighbors_mem : ∀ v, ∀ w ∈ neighbors v, v ∈ keys ∧ w ∈ keys

variable {α:Type}

/-- An edge of the graph. -/
def Dag.Edge (g:Dag α) (a b:α) : Prop := b ∈ g.neighbors a

def empty : Dag α where
 keys:=[]
 neighbors _ := []
 keys_nodup:=List.nodup_nil
 neighbors_nodup _ := List.nodup_nil
 neighbors_mem _ _ h := absurd h List.not_mem_nil

def vertex (value:α) : Dag α where
 keys:=[value]
 neighbors _ := []
 keys_nodup:=List.nodup_singleton value
 neighbors_nodup _ := List.nodup_nil
 neighbors_mem _ _ h := absurd h List.not_mem_nil

@[simp]
theorem not_edge_empty (a b:α) : ¬(empty:Dag α).Edge a b := List.not_mem_nil

@[simp]
theorem not_edge_vertex (v a b:α) : ¬(vertex v).Edge a b := List.not_mem_nil

variable {v a b:α} {g x y:Dag α} {p l:List α} {graphs:List (Dag α)}

@[simp]
theorem mem_keys_vertex {u:α} : u ∈ (vertex v).keys ↔ u=v := List.mem_singleton

/-- Every vertex once, and no edge from a later to an earlier one or to itself. -/
def IsTopSort (g:Dag α) (l:List α) : Prop :=
 l.Perm g.keys ∧ (∀ v ∈ l, v ∉ g.neighbors v) ∧ l.Pairwise fun a b=>a ∉ g.neighbors b

/-- A topological sort of the library: an order where there is one, and never anything else. -/
structure SortsDags (topologicalSort:Dag α → Option (List α)) : Prop where
 sorted : ∀ g l, topologicalSort g=some l → IsTopSort g l
 total : ∀ g l, IsTopSort g l → ∃ l', topologicalSort g=some l'

def Ends (g:Dag α) (v:α) (p:List α) : Prop := ∃ t, g.neighbors t=[] ∧ Walk g.Edge t v p

theorem Ends.head (h:Ends g v p) : p.head? = some v := by
 obtain ⟨t,_,h⟩:=h
 cases h with
 | last=>rfl
 | step _ _=>rfl

theorem mapM_paths {f:α → Option (List (List α))} {Q:α → List α → Prop} {vs:List α}
  (hvs:vs.Nodup) (hhead:∀ v p, Q v p → p.head? = some v)
  (hf:∀ v ∈ vs, ∃ ps, f v=some ps ∧ ps.Nodup ∧ ∀ p, p ∈ ps ↔ Q v p) :
  ∃ pss, vs.mapM f=some pss ∧ pss.flatten.Nodup ∧ ∀ p, p ∈ pss.flatten ↔ ∃ v ∈ vs, Q v p := by
 induction vs with
 | nil=>exact ⟨[],rfl,List.nodup_nil,fun p=>by simp⟩
 | cons v vs ih=>
  obtain ⟨hv,hvs⟩:=List.nodup_cons.1 hvs
  obtain ⟨ps,hps,hnodup,hmem⟩:=hf v List.mem_cons_self
  obtain ⟨pss,hpss,hnodup', hmem'⟩:=ih hvs fun w hw=>hf w (List.mem_cons_of_mem v hw)
  refine ⟨ps::pss, ?_, ?_,fun p=>?_⟩
  · rw [List.mapM_cons,hps,hpss]
    rfl
  · rw [List.flatten_cons]
    refine List.nodup_append'.2 ⟨hnodup,hnodup', fun p hp hp' =>?_⟩
    obtain ⟨w,hw,hq⟩:=(hmem' p).1 hp'
    have heq:=(hhead v p ((hmem p).1 hp)).symm.trans (hhead w p hq)
    exact hv (Option.some.inj heq ▸ hw)
  · rw [List.flatten_cons,List.mem_append,hmem,hmem', List.exists_mem_cons_iff]

theorem ends_iff (hne:g.neighbors v ≠ []) :
  Ends g v p ↔ ∃ q, (∃ w ∈ g.neighbors v, Ends g w q) ∧ v::q=p := by
 constructor
 · rintro ⟨t,ht,h⟩
   cases h with
   | last=>exact absurd ht hne
   | @step _ w q hvw hq=>exact ⟨q,⟨w,hvw,t,ht,hq⟩,rfl⟩
 · rintro ⟨q,⟨w,hw,t,ht,hq⟩,rfl⟩
   exact ⟨t,ht,.step hw hq⟩

/-- The paths from a vertex to where no edge leaves; a path has no more vertices than the graph. -/
def getAllPathsFromVertex (g:Dag α) : ℕ → α → Option (List (List α))
 | 0, _=>none
 | fuel+1, v=>
  if g.neighbors v=[] then some [[v]]
  else do
   let pathsFromNeighbors ← (g.neighbors v).mapM (getAllPathsFromVertex g fuel)
   return pathsFromNeighbors.flatten.map fun path=>v::path

/-- From a vertex of a dag, with fuel for the vertices after it, every path is found once. -/
theorem getAllPathsFromVertex_spec (hl:IsTopSort g l) (fuel:ℕ)
  {pre post:List α} (hv:l=pre ++ v::post) (hfuel:post.length < fuel) :
  ∃ ps, getAllPathsFromVertex g fuel v=some ps ∧ ps.Nodup ∧ ∀ p, p ∈ ps ↔ Ends g v p := by
 induction fuel generalizing pre post v with
 | zero=>exact absurd hfuel (Nat.not_lt_zero _)
 | succ fuel ih=>
  by_cases hne:g.neighbors v=[]
  · refine ⟨[[v]],by rw [getAllPathsFromVertex,if_pos hne],List.nodup_singleton _,fun p=>?_⟩
    rw [List.mem_singleton]
    constructor
    · rintro rfl
      exact ⟨v,hne,.last⟩
    · rintro ⟨t,_,h⟩
      cases h with
      | last=>rfl
      | step hvw _=>exact absurd hvw (List.eq_nil_iff_forall_not_mem.1 hne _)
  · have hlater:∀ w ∈ g.neighbors v, w ∈ post:=by
     intro w hw
     have hmem:w ∈ l:=hl.1.mem_iff.2 (g.neighbors_mem v w hw).2
     rw [hv] at hmem
     rcases List.mem_append.1 hmem with hmem | hmem
     · have hpair:=hl.2.2
       rw [hv] at hpair
       exact absurd hw ((List.pairwise_append.1 hpair).2.2 w hmem v List.mem_cons_self)
     · rcases List.mem_cons.1 hmem with heq | hmem
       · have hself:=hl.2.1 v (hv ▸ List.mem_append_right pre List.mem_cons_self)
         exact absurd (heq ▸ hw) hself
       · exact hmem
    obtain ⟨pss,hpss,hnodup,hmem⟩:=mapM_paths (Q := Ends g) (g.neighbors_nodup v)
     (fun w p=>Ends.head) (f := getAllPathsFromVertex g fuel) fun w hw=>by
      obtain ⟨pre', post', hpost⟩:=List.append_of_mem (hlater w hw)
      have hsplit:l=(pre ++ v::pre') ++ w::post' :=by
       rw [hv,hpost,List.append_assoc,List.cons_append]
      rw [hpost,List.length_append,List.length_cons] at hfuel
      exact ih hsplit (by omega)
    refine ⟨pss.flatten.map fun path=>v::path, ?_, ?_,fun p=>?_⟩
    · rw [getAllPathsFromVertex,if_neg hne,hpss]
      rfl
    · exact hnodup.map fun p q h=>(List.cons.inj h).2
    · rw [ends_iff hne,List.mem_map]
      simp only [hmem]

/-- `b` comes right after `a` in the list. -/
def Next : List α → α → α → Prop
 | x::y::rest, a, b=>(a=x ∧ b=y) ∨ Next (y::rest) a b
 | _, _, _=>False

theorem Next.mem (h:Next p a b) : a ∈ p ∧ b ∈ p.tail := by
 induction p with
 | nil=>exact h.elim
 | cons x p ih=>
  cases p with
  | nil=>exact h.elim
  | cons y rest=>
   rcases h with ⟨rfl,rfl⟩ | h
   · exact ⟨List.mem_cons_self,List.mem_cons_self⟩
   · exact ⟨List.mem_cons_of_mem x (ih h).1,List.mem_cons_of_mem y (ih h).2⟩

theorem exists_next (x:α) (h:b ∈ p) : ∃ a, Next (x::p) a b := by
 induction p generalizing x with
 | nil=>exact absurd h List.not_mem_nil
 | cons y p ih=>
  rcases List.mem_cons.1 h with rfl | h
  · exact ⟨x,Or.inl ⟨rfl,rfl⟩⟩
  · obtain ⟨a,ha⟩:=ih y h
    exact ⟨a,Or.inr ha⟩

theorem Next.irrefl (hp:p.Nodup) (a:α) : ¬Next p a a := by
 induction p with
 | nil=>exact id
 | cons x p ih=>
  cases p with
  | nil=>exact id
  | cons y rest=>
   rintro (⟨rfl,hay⟩ | h)
   · exact (List.nodup_cons.1 hp).1 (hay ▸ List.mem_cons_self)
   · exact ih (List.nodup_cons.1 hp).2 h

theorem Next.sorted (hp:p.Nodup) : p.Pairwise fun a b=>¬Next p b a := by
 induction p with
 | nil=>exact List.Pairwise.nil
 | cons x p ih=>
  obtain ⟨hx,hp⟩:=List.nodup_cons.1 hp
  refine List.pairwise_cons.2 ⟨fun b _ h=>hx h.mem.2, ?_⟩
  refine (ih hp).imp_of_mem fun {a b} ha hb hab h=>?_
  cases p with
  | nil=>exact h
  | cons y rest=>
   rcases h with ⟨rfl,_⟩ | h
   · exact hx hb
   · exact hab h

theorem eq_of_next_sorted (hp:p.Nodup) (hperm:l.Perm p)
  (hl:l.Pairwise fun a b=>¬Next p b a) : l=p := by
 induction p generalizing l with
 | nil=>exact hperm.eq_nil
 | cons x p ih=>
  cases l with
  | nil=>exact absurd hperm.symm.eq_nil (List.cons_ne_nil x p)
  | cons c l=>
   obtain ⟨hfirst,hrest⟩:=List.pairwise_cons.1 hl
   have hc:c=x:=by
    by_contra hne
    have hmem:c ∈ p:=
     (List.mem_cons.1 (hperm.mem_iff.1 List.mem_cons_self)).resolve_left hne
    obtain ⟨a,ha⟩:=exists_next x hmem
    have hac:a ∈ c::l:=hperm.mem_iff.2 ha.mem.1
    rcases List.mem_cons.1 hac with heq | hal
    · exact Next.irrefl hp c (heq ▸ ha)
    · exact hfirst a hal ha
   subst hc
   rw [ih (List.nodup_cons.1 hp).2 hperm.cons_inv]
   refine hrest.imp fun {a b} hab h=>hab ?_
   cases p with
   | nil=>exact h
   | cons y rest=>exact Or.inr h

variable [DecidableEq α]

def setUnion (set1 set2:List α) : List α := set1 ++ set2.filter fun v=>v ∉ set1

@[simp]
theorem mem_setUnion {set1 set2:List α} :
  v ∈ setUnion set1 set2 ↔ v ∈ set1 ∨ v ∈ set2 := by
 simp only [setUnion,List.mem_append,List.mem_filter,decide_eq_true_eq]
 tauto

theorem nodup_setUnion {set1 set2:List α} (h1:set1.Nodup) (h2:set2.Nodup) :
  (setUnion set1 set2).Nodup := by
 refine List.nodup_append'.2 ⟨h1,h2.filter _,fun v hv hv' =>?_⟩
 exact of_decide_eq_true (List.mem_filter.1 hv').2 hv

def graphUnion (x y:Dag α) : Dag α where
 keys:=setUnion x.keys y.keys
 neighbors v := setUnion (x.neighbors v) (y.neighbors v)
 keys_nodup:=nodup_setUnion x.keys_nodup y.keys_nodup
 neighbors_nodup v := nodup_setUnion (x.neighbors_nodup v) (y.neighbors_nodup v)
 neighbors_mem v w h := by
  rcases mem_setUnion.1 h with h | h
  · exact ⟨mem_setUnion.2 (Or.inl (x.neighbors_mem v w h).1),
     mem_setUnion.2 (Or.inl (x.neighbors_mem v w h).2)⟩
  · exact ⟨mem_setUnion.2 (Or.inr (y.neighbors_mem v w h).1),
     mem_setUnion.2 (Or.inr (y.neighbors_mem v w h).2)⟩

def overlay (x y:Dag α) : Dag α := graphUnion x y

/-- The union, and an edge from every vertex of `x` to every vertex of `y`. -/
def makeDirectedConnectAdjacencyMap (x y:Dag α) : Dag α where
 keys:=(graphUnion x y).keys
 neighbors v :=
  if v ∈ x.keys then setUnion ((graphUnion x y).neighbors v) y.keys
  else (graphUnion x y).neighbors v
 keys_nodup:=(graphUnion x y).keys_nodup
 neighbors_nodup v := by
  split
  · exact nodup_setUnion ((graphUnion x y).neighbors_nodup v) y.keys_nodup
  · exact (graphUnion x y).neighbors_nodup v
 neighbors_mem v w h := by
  split at h
  · rename_i hv
    rcases mem_setUnion.1 h with h | h
    · exact (graphUnion x y).neighbors_mem v w h
    · exact ⟨mem_setUnion.2 (Or.inl hv),mem_setUnion.2 (Or.inr h)⟩
  · exact (graphUnion x y).neighbors_mem v w h

def connect (x y:Dag α) : Dag α := makeDirectedConnectAdjacencyMap x y

def overlays (graphs:List (Dag α)) : Dag α := graphs.foldl overlay empty

def pathFromVertices : List (Dag α) → Dag α
 | []=>empty
 | [v]=>v
 | v::w::rest=>(List.zipWith connect (w::rest) rest).foldl overlay (connect v w)

def pathFromValues (vertices:List α) : Dag α := pathFromVertices (vertices.map vertex)

@[simp]
theorem mem_keys_overlay :
  v ∈ (overlay x y).keys ↔ v ∈ x.keys ∨ v ∈ y.keys := mem_setUnion

@[simp]
theorem edge_overlay :
  (overlay x y).Edge a b ↔ x.Edge a b ∨ y.Edge a b := mem_setUnion

@[simp]
theorem mem_keys_connect :
  v ∈ (connect x y).keys ↔ v ∈ x.keys ∨ v ∈ y.keys := mem_setUnion

@[simp]
theorem edge_connect :
  (connect x y).Edge a b ↔ x.Edge a b ∨ y.Edge a b ∨ (a ∈ x.keys ∧ b ∈ y.keys) := by
 rw [Dag.Edge,connect,makeDirectedConnectAdjacencyMap]
 by_cases ha:a ∈ x.keys
 · simp [ha,graphUnion,Dag.Edge,or_assoc]
 · simp [ha,graphUnion,Dag.Edge]

theorem mem_keys_foldl :
  v ∈ (graphs.foldl overlay g).keys ↔ v ∈ g.keys ∨ ∃ x ∈ graphs, v ∈ x.keys := by
 induction graphs generalizing g with
 | nil=>simp
 | cons x graphs ih=>simp [ih,or_assoc]

theorem edge_foldl :
  (graphs.foldl overlay g).Edge a b ↔ g.Edge a b ∨ ∃ x ∈ graphs, x.Edge a b := by
 induction graphs generalizing g with
 | nil=>simp
 | cons x graphs ih=>simp [ih,or_assoc]

theorem mem_keys_overlays :
  v ∈ (overlays graphs).keys ↔ ∃ x ∈ graphs, v ∈ x.keys := by
 rw [overlays,mem_keys_foldl]
 exact or_iff_right List.not_mem_nil

theorem edge_overlays :
  (overlays graphs).Edge a b ↔ ∃ x ∈ graphs, x.Edge a b := by
 rw [overlays,edge_foldl]
 exact or_iff_right (not_edge_empty a b)

instance (g:Dag α) (l:List α) : Decidable (IsTopSort g l) := by
 unfold IsTopSort
 infer_instance

section TopSort
variable (topologicalSort:Dag α → Option (List α))

/-- Fails where the graph is not a dag. -/
def getTopSort (g:Dag α) : Option (List α) := topologicalSort g

def getSource (g:Dag α) : Option (Dag α) := do
 match ← getTopSort topologicalSort g with
 | []=>return empty
 | v::_=>return vertex v

def getSink (g:Dag α) : Option (Dag α) := do
 match (← getTopSort topologicalSort g).getLast? with
 | none=>return empty
 | some v=>return vertex v

def getBarePaths (g:Dag α) : Option (List (List α)) := do
 match (← getSource topologicalSort g).keys with
 | []=>return []
 | v::_=>getAllPathsFromVertex g g.keys.length v

def getAllPaths (g:Dag α) : Option (List (Dag α)) := do
 return (← getBarePaths topologicalSort g).map pathFromValues

end TopSort

theorem edge_zipWith :
  (∃ g ∈ List.zipWith connect (p.map vertex) (p.tail.map vertex), g.Edge a b) ↔ Next p a b := by
 induction p with
 | nil=>simp [Next]
 | cons x p ih=>
  cases p with
  | nil=>simp [Next]
  | cons y rest=>simpa [Next] using or_congr_right ih

theorem mem_keys_zipWith {x:α} :
  (v=x ∨ ∃ g ∈ List.zipWith connect ((x::p).map vertex) (p.map vertex), v ∈ g.keys) ↔
   v ∈ x::p := by
 induction p generalizing x with
 | nil=>simp
 | cons y rest ih=>
  rw [List.mem_cons,←@ih y]
  simp only [List.map_cons,List.zipWith_cons_cons,List.exists_mem_cons_iff,mem_keys_connect,
   mem_keys_vertex]
  tauto

theorem mem_keys_pathFromValues : v ∈ (pathFromValues p).keys ↔ v ∈ p := by
 cases p with
 | nil=>exact Iff.rfl
 | cons x p=>
  cases p with
  | nil=>simp [pathFromValues,pathFromVertices]
  | cons y rest=>
   rw [←mem_keys_zipWith]
   simp [pathFromValues,pathFromVertices,mem_keys_foldl,or_assoc]

theorem edge_pathFromValues : (pathFromValues p).Edge a b ↔ Next p a b := by
 cases p with
 | nil=>simp [pathFromValues,pathFromVertices,Next]
 | cons x p=>
  cases p with
  | nil=>simp [pathFromValues,pathFromVertices,Next]
  | cons y rest=>
   rw [←edge_zipWith]
   simp [pathFromValues,pathFromVertices,edge_foldl]

theorem isTopSort_pathFromValues (hp:p.Nodup) :
  IsTopSort (pathFromValues p) l ↔ l=p := by
 have hkeys:(pathFromValues p).keys.Perm p:=
  (List.perm_ext_iff_of_nodup (pathFromValues p).keys_nodup hp).2 fun _=>
   mem_keys_pathFromValues
 have hedge:∀ a b, b ∈ (pathFromValues p).neighbors a ↔ Next p a b:=
  fun _ _=>edge_pathFromValues
 simp only [IsTopSort,hedge]
 constructor
 · rintro ⟨hperm,_,hsorted⟩
   exact eq_of_next_sorted hp (hperm.trans hkeys) hsorted
 · rintro rfl
   exact ⟨hkeys.symm,fun v _=>Next.irrefl hp v,Next.sorted hp⟩

theorem getTopSort_pathFromValues {topologicalSort:Dag α → Option (List α)}
  (hsort:SortsDags topologicalSort) (hp:p.Nodup) :
  getTopSort topologicalSort (pathFromValues p)=some p := by
 obtain ⟨l,hl⟩:=hsort.total _ p ((isTopSort_pathFromValues hp).2 rfl)
 rw [getTopSort,hl,(isTopSort_pathFromValues hp).1 (hsort.sorted _ l hl)]

end L4Ide.AlgebraicGraphs
