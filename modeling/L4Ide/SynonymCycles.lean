import Mathlib.Data.List.Lex
import Mathlib.Data.List.Sort
import Mathlib.Data.Nat.Basic
import L4Ide.StronglyConnected
import L4Ide.TypeMeaning

set_option autoImplicit false

/-!
# Cyclic type synonyms

Once every body is resolved, the synonyms of a module that are in a cycle lose their bodies, and
each cycle is reported. A program is its modules in the order in which they are checked.
-/
namespace L4Ide.SynonymCycles
open Syntax Unify StronglyConnected Relation

structure CheckInfo where
 names : List Resolved
 checkEntity : CheckEntity

structure DeclChecked (A:Type) where
 payload : A
 publicNames : List CheckInfo

structure CyclicTypeSynonyms where
 whileCheckingDeclare : Name
 names : List Name

abbrev Synonym := Unique × Name × List Unique

mutual

def bodyHeads : RType → List Resolved
 | .type=>[]
 | .tyApp n ts=>n::bodyHeadsEach ts
 | .fun_ onts t=>bodyHeadsArgs onts ++ bodyHeads t
 | .forall_ _ t=>bodyHeads t
 | .infVar _ _=>[]

def bodyHeadsEach : List RType → List Resolved
 | []=>[]
 | t::ts=>bodyHeads t ++ bodyHeadsEach ts

def bodyHeadsArgs : List (Option Resolved × RType) → List Resolved
 | []=>[]
 | (_,t)::onts=>bodyHeads t ++ bodyHeadsArgs onts

end

def synonymOf (ci:CheckInfo) : Option Synonym :=
 match ci.names, ci.checkEntity with
 | r::_, .knownType _ (some body)=>
  some (r.getUnique,r.getOriginal,(bodyHeads body).map Resolved.getUnique)
 | _, _=>none

section Decls
variable {A:Type}

def synonyms (decls:List (DeclChecked A)) : List Synonym :=
 decls.flatMap fun d=>d.publicNames.filterMap synonymOf

def indexed (decls:List (DeclChecked A)) : List (ℕ × Synonym) :=
 (List.range (synonyms decls).length).zip (synonyms decls)

def graph (decls:List (DeclChecked A)) : List ((ℕ × Synonym) × Unique × List Unique) :=
 (indexed decls).map fun ix=>(ix,ix.2.1,ix.2.2.2)

/-- Each cycle's members in declaration order, the cycles in the order of their first members. -/
def cycles (decls:List (DeclChecked A)) : List (List Synonym) :=
 ((((stronglyConnComp (graph decls)).filterMap SCC.cyclic).map fun members=>
  members.insertionSort fun ix jx=>ix.1 ≤ jx.1).insertionSort fun c d=>
   c.map Prod.fst ≤ d.map Prod.fst).map fun c=>c.map Prod.snd

def report : List Synonym → Option CyclicTypeSynonyms
 | []=>none
 | (u,firstName,deps)::cyc=>
  some ⟨firstName,((u,firstName,deps)::cyc).map fun s=>s.2.1⟩

def cyclic (decls:List (DeclChecked A)) : List Unique :=
 (cycles decls).flatMap fun cyc=>cyc.map Prod.fst

def unbody (cyclic:List Unique) (ci:CheckInfo) : CheckInfo :=
 match ci.names, ci.checkEntity with
 | r::_, .knownType ps (some _)=>
  if r.getUnique ∈ cyclic then { ci with checkEntity:=.knownType ps none } else ci
 | _, _=>ci

def quarantine (cyclic:List Unique) (d:DeclChecked A) : DeclChecked A :=
 { d with publicNames:=d.publicNames.map (unbody cyclic) }

def quarantineResolvedSynonymCycles (decls:List (DeclChecked A)) :
  List CyclicTypeSynonyms × List (DeclChecked A) :=
 ((cycles decls).filterMap report,decls.map (quarantine (cyclic decls)))

end Decls

/-- The body of the one synonym applies the other. -/
def Mentions (ss:List Synonym) (a b:Unique) : Prop :=
 b ∈ ss.map Prod.fst ∧ ∃ s ∈ ss, s.1=a ∧ b ∈ s.2.2

/-- From a synonym through bodies back to it. -/
def IsCycle (ss:List Synonym) (us:List Unique) : Prop :=
 ∃ u rest, us=u::rest ∧ List.IsChain (Mentions ss) (u::rest ++ [u])

def OnCycle (ss:List Synonym) (u:Unique) : Prop := ∃ us, IsCycle ss us ∧ u ∈ us

/-- The declarations of a module: all spellings of a name share its unique. -/
structure Declarations (A:Type) where
 decls : List (DeclChecked A)
 shared : ∀ d ∈ decls, ∀ ci ∈ d.publicNames, ∀ r ∈ ci.names, ∀ r' ∈ ci.names,
  r.getUnique=r'.getUnique

/-- Modules in the order in which they are checked: none names a synonym of a later one. -/
structure Program (A:Type) where
 modules : List (Declarations A)
 distinct : ((modules.flatMap fun m=>synonyms m.decls).map Prod.fst).Nodup
 earlier : modules.Pairwise fun m later=>
  ∀ s ∈ synonyms m.decls, ∀ u ∈ s.2.2, u ∉ (synonyms later.decls).map Prod.fst

section Program
variable {A:Type} (P:Program A)

/-- All synonyms as they are declared. -/
def Program.declared : List Synonym := P.modules.flatMap fun m=>synonyms m.decls

/-- The synonyms that still have a body. -/
def Program.kept : List Synonym :=
 P.modules.flatMap fun m=>synonyms (quarantineResolvedSynonymCycles m.decls).2

def Program.errors : List CyclicTypeSynonyms :=
 P.modules.flatMap fun m=>(quarantineResolvedSynonymCycles m.decls).1

end Program

end L4Ide.SynonymCycles

/-!
## What is left is acyclic

The cycles of a module are the classes of its graph, in another order; a cycle of a program lies
in one module, since no module names a synonym of a later one.
-/
namespace L4Ide.SynonymCycles
open Syntax Unify StronglyConnected Relation

def Joined (ss:List Synonym) (a b:Unique) : Prop :=
 TransGen (Mentions ss) a b ∧ TransGen (Mentions ss) b a

theorem Mentions.mono {ss ss' : List Synonym} (h:∀ s ∈ ss, s ∈ ss') {a b:Unique} :
  Mentions ss a b → Mentions ss' a b := by
 rintro ⟨hb,s,hs,heq⟩
 obtain ⟨t,ht,rfl⟩:=List.mem_map.1 hb
 exact ⟨List.mem_map_of_mem (h t ht),s,h s hs,heq⟩

theorem transGen_mono {ss ss' : List Synonym} (h:∀ s ∈ ss, s ∈ ss') {a b:Unique}
  (hab:TransGen (Mentions ss) a b) : TransGen (Mentions ss') a b :=
 hab.lift id fun _ _=>Mentions.mono h

theorem Joined.mono {ss ss' : List Synonym} (h:∀ s ∈ ss, s ∈ ss') {a b:Unique}
  (hab:Joined ss a b) : Joined ss' a b :=
 ⟨transGen_mono h hab.1,transGen_mono h hab.2⟩

theorem mem_of_transGen {ss:List Synonym} {a b:Unique} (h:TransGen (Mentions ss) a b) :
  b ∈ ss.map Prod.fst := by
 cases h with
 | single h=>exact h.1
 | tail _ h=>exact h.1

theorem mem_source_of_transGen {ss:List Synonym} {a b:Unique}
  (h:TransGen (Mentions ss) a b) : a ∈ ss.map Prod.fst := by
 have hsource:∀ c, Mentions ss a c → a ∈ ss.map Prod.fst:=by
  rintro c ⟨-,s,hs,rfl,-⟩
  exact List.mem_map_of_mem hs
 cases h using TransGen.head_induction_on with
 | single h=>exact hsource b h
 | head h _=>exact hsource _ h

theorem Joined.self {ss:List Synonym} {a b:Unique} (h:Joined ss a b) :
  TransGen (Mentions ss) b b := h.2.trans h.1

theorem IsCycle.joined {ss:List Synonym} {us:List Unique} (h:IsCycle ss us) {u v:Unique}
  (hu:u ∈ us) (hv:v ∈ us) : Joined ss u v := by
 obtain ⟨a,rest,rfl,hchain⟩:=h
 have hpairs:=pairwise_of_isChain hchain
 rw [List.cons_append,List.pairwise_cons,List.pairwise_append] at hpairs
 obtain ⟨hfrom,-,-,hto⟩:=hpairs
 have haa:TransGen (Mentions ss) a a:=hfrom a (by simp)
 have hmember:∀ w ∈ a::rest, Joined ss a w:=by
  intro w hw
  rcases List.mem_cons.1 hw with rfl | hw
  · exact ⟨haa,haa⟩
  · exact ⟨hfrom w (by simp [hw]),hto w hw a (by simp)⟩
 exact ⟨(hmember u hu).2.trans (hmember v hv).1,(hmember v hv).2.trans (hmember u hu).1⟩

theorem onCycle_iff {ss:List Synonym} {u:Unique} :
  OnCycle ss u ↔ TransGen (Mentions ss) u u := by
 constructor
 · rintro ⟨us,hus,hu⟩
   exact (hus.joined hu hu).1
 · intro h
   obtain ⟨l,hl⟩:=exists_isChain h
   exact ⟨u::l,⟨u,l,rfl,hl⟩,List.mem_cons_self⟩

/-! ### One module -/

section Module
variable {A:Type} {decls:List (DeclChecked A)}

theorem map_snd_indexed : (indexed decls).map Prod.snd=synonyms decls :=
 List.map_snd_zip (by simp)

theorem keys_graph : keys (graph decls)=(synonyms decls).map Prod.fst := by
 rw [←map_snd_indexed,keys,graph,List.map_map,List.map_map]
 rfl

variable (hdistinct:((synonyms decls).map Prod.fst).Nodup)
include hdistinct

theorem points_graph (a b:Unique) :
  Points (graph decls) a b ↔ Mentions (synonyms decls) a b := by
 rw [points_iff (keys_graph ▸ hdistinct),keys_graph,Mentions,and_comm,←map_snd_indexed]
 refine and_congr_right fun _=>?_
 simp only [graph,List.mem_map,exists_exists_and_eq_and]

theorem transGen_points : TransGen (Points (graph decls))=TransGen (Mentions (synonyms decls)) :=
 congrArg TransGen (funext₂ fun a b=>propext (points_graph hdistinct a b))

omit hdistinct in
theorem mem_membersOf {c:List Unique} (hc:c ∈ classes (graph decls)) (u:Unique) :
  u ∈ (membersOf (graph decls) c).map (fun ix=>ix.2.1) ↔ u ∈ c := by
 have hmap:(membersOf (graph decls) c).map (fun ix=>ix.2.1) =
   (keys (graph decls)).filter (· ∈ c) := by
  rw [membersOf,keys,graph,List.filter_map,List.map_map,List.map_map,List.map_map,
   List.filter_map]
  rfl
 rw [hmap,List.mem_filter,decide_eq_true_iff]
 refine ⟨And.right,fun h=>⟨?_,h⟩⟩
 obtain ⟨a,-,rfl⟩:=mem_classes.1 hc
 exact (mem_classOf.1 h).1

def declaredIn (decls:List (DeclChecked A)) (c:List Unique) : List Synonym :=
 ((membersOf (graph decls) c).insertionSort fun ix jx=>ix.1 ≤ jx.1).map Prod.snd

omit hdistinct in
theorem declaredIn_perm (c:List Unique) :
  (declaredIn decls c).Perm ((membersOf (graph decls) c).map Prod.snd) :=
 (List.perm_insertionSort _ _).map _

omit hdistinct in
theorem mem_declaredIn {c:List Unique} (hc:c ∈ classes (graph decls)) (u:Unique) :
  u ∈ (declaredIn decls c).map Prod.fst ↔ u ∈ c := by
 rw [←mem_membersOf hc]
 refine ((declaredIn_perm c).map Prod.fst).mem_iff.trans ?_
 rw [List.map_map]
 rfl

def cyclicClasses (decls:List (DeclChecked A)) : List (List Unique) :=
 (classes (graph decls)).filter fun c=>∀ a ∈ c, a ∈ reached (graph decls) a

theorem cycles_perm : (cycles decls).Perm ((cyclicClasses decls).map (declaredIn decls)) := by
 refine ((List.perm_insertionSort _ _).map _).trans (List.Perm.of_eq ?_)
 rw [cyclic_stronglyConnComp (keys_graph ▸ hdistinct),List.map_map,List.map_map]
 rfl

theorem mem_cyclicClasses {c:List Unique} (h:c ∈ cyclicClasses decls) :
  ∃ a ∈ c, ∀ u, u ∈ c ↔ Joined (synonyms decls) a u := by
 obtain ⟨hclass,hall⟩:=List.mem_filter.1 h
 obtain ⟨a,ha,rfl⟩:=mem_classes.1 hclass
 have hself:TransGen (Mentions (synonyms decls)) a a:=by
  rw [←transGen_points hdistinct]
  exact mem_reached.1 (of_decide_eq_true hall a (self_mem_classOf ha))
 refine ⟨a,self_mem_classOf ha,fun u=>?_⟩
 rw [mem_classOf,transGen_points hdistinct,keys_graph]
 constructor
 · rintro ⟨-,rfl | hau⟩
   · exact ⟨hself,hself⟩
   · exact hau
 · exact fun hau=>⟨mem_of_transGen hau.1,Or.inr hau⟩

theorem mem_cycles {cyc:List Synonym} (h:cyc ∈ cycles decls) :
  ∃ a ∈ cyc.map Prod.fst, ∀ u, u ∈ cyc.map Prod.fst ↔ Joined (synonyms decls) a u := by
 obtain ⟨c,hc,rfl⟩:=List.mem_map.1 ((cycles_perm hdistinct).mem_iff.1 h)
 obtain ⟨a,hac,ha⟩:=mem_cyclicClasses hdistinct hc
 have hmem:=mem_declaredIn (List.mem_filter.1 hc).1
 exact ⟨a,(hmem a).2 hac,fun u=>(hmem u).trans (ha u)⟩

theorem mem_synonyms_of_mem_cycles {cyc:List Synonym} (h:cyc ∈ cycles decls) {s:Synonym}
  (hs:s ∈ cyc) : s ∈ synonyms decls := by
 obtain ⟨c,-,rfl⟩:=List.mem_map.1 ((cycles_perm hdistinct).mem_iff.1 h)
 obtain ⟨ix,hix,rfl⟩:=List.mem_map.1 ((declaredIn_perm c).mem_iff.1 hs)
 obtain ⟨v,hv,rfl⟩:=List.mem_map.1 hix
 obtain ⟨jx,hjx,rfl⟩:=List.mem_map.1 (List.mem_filter.1 hv).1
 rw [←map_snd_indexed]
 exact List.mem_map_of_mem hjx

theorem exists_cycle {a:Unique} (h:TransGen (Mentions (synonyms decls)) a a) :
  ∃ cyc ∈ cycles decls, a ∈ cyc.map Prod.fst := by
 have ha:a ∈ keys (graph decls):=keys_graph ▸ mem_of_transGen h
 have hclass:=mem_classes.2 ⟨a,ha,rfl⟩
 have hmem:classOf (graph decls) a ∈ cyclicClasses decls:=by
  refine List.mem_filter.2 ⟨hclass,decide_eq_true fun b hb=>mem_reached.2 ?_⟩
  rw [transGen_points hdistinct]
  rcases (mem_classOf.1 hb).2 with rfl | ⟨hab,hba⟩
  · exact h
  · rw [transGen_points hdistinct] at hab hba
    exact hba.trans hab
 exact ⟨_,(cycles_perm hdistinct).mem_iff.2 (List.mem_map_of_mem hmem),
  (mem_declaredIn hclass a).2 (self_mem_classOf ha)⟩

theorem cycles_disjoint :
  (cycles decls).Pairwise fun c d=>∀ u ∈ c.map Prod.fst, u ∉ d.map Prod.fst := by
 refine (List.Perm.pairwise_iff (fun h u hu hu' =>h u hu' hu) (cycles_perm hdistinct)).2 ?_
 rw [List.pairwise_map]
 refine (classes_disjoint.filter _).imp_of_mem fun hc hd hcd u hu hu' =>?_
 rw [mem_declaredIn (List.mem_filter.1 hc).1] at hu
 rw [mem_declaredIn (List.mem_filter.1 hd).1] at hu'
 exact hcd u hu hu'

theorem mem_cyclic {u:Unique} :
  u ∈ cyclic decls ↔ TransGen (Mentions (synonyms decls)) u u := by
 rw [cyclic,List.mem_flatMap]
 constructor
 · rintro ⟨cyc,hcyc,hu⟩
   obtain ⟨a,-,ha⟩:=mem_cycles hdistinct hcyc
   exact ((ha u).1 hu).self
 · exact exists_cycle hdistinct

omit hdistinct in
theorem synonymOf_unbody (us:List Unique) (ci:CheckInfo) :
  synonymOf (unbody us ci)=(synonymOf ci).filter fun s=>s.1 ∉ us := by
 obtain ⟨names,entity⟩:=ci
 cases names with
 | nil=>rfl
 | cons r names=>
  cases entity with
  | knownType ps body=>
   cases body with
   | none=>rfl
   | some body=>
    by_cases h:r.getUnique ∈ us
    · simp [unbody,synonymOf,Option.filter,h]
    · simp [unbody,synonymOf,Option.filter,h]
  | knownTerm=>rfl
  | knownSection=>rfl
  | knownTypeVariable=>rfl

omit hdistinct in
theorem synonyms_quarantined :
  synonyms (quarantineResolvedSynonymCycles decls).2 =
   (synonyms decls).filter fun s=>s.1 ∉ cyclic decls := by
 unfold quarantineResolvedSynonymCycles synonyms
 rw [List.flatMap_map,List.filter_flatMap]
 refine List.flatMap_congr fun d _=>?_
 rw [quarantine,List.filterMap_map,List.filter_filterMap]
 exact List.filterMap_congr fun ci _=>synonymOf_unbody _ ci

end Module

/-! ### Modules one after the other -/

section Parts
variable {ss1 ss2:List Synonym}
 (hdistinct:((ss1 ++ ss2).map Prod.fst).Nodup)
 (hearlier:∀ s ∈ ss1, ∀ u ∈ s.2.2, u ∉ ss2.map Prod.fst)


include hdistinct hearlier in
theorem transGen_first {a b:Unique} (ha:a ∈ ss1.map Prod.fst)
  (h:TransGen (Mentions (ss1 ++ ss2)) a b) : TransGen (Mentions ss1) a b := by
 have hstep:∀ {c d}, c ∈ ss1.map Prod.fst → Mentions (ss1 ++ ss2) c d → Mentions ss1 c d:=by
  rintro c d hc ⟨hd,s,hs,rfl,hdep⟩
  have hs1:s ∈ ss1:=by
   refine (List.mem_append.1 hs).resolve_right fun hs2=>?_
   rw [List.map_append] at hdistinct
   exact List.disjoint_of_nodup_append hdistinct hc (List.mem_map_of_mem hs2)
  rw [List.map_append] at hd
  exact ⟨(List.mem_append.1 hd).resolve_right (hearlier s hs1 d hdep),s,hs1,rfl,hdep⟩
 induction h with
 | single h=>exact .single (hstep ha h)
 | tail _ h ih=>exact ih.tail (hstep (mem_of_transGen ih) h)

include hearlier in
theorem transGen_later {a b:Unique} (hb:b ∈ ss2.map Prod.fst)
  (h:TransGen (Mentions (ss1 ++ ss2)) a b) : TransGen (Mentions ss2) a b := by
 have hstep:∀ {c d}, d ∈ ss2.map Prod.fst → Mentions (ss1 ++ ss2) c d → Mentions ss2 c d:=by
  rintro c d hd ⟨-,s,hs,rfl,hdep⟩
  exact ⟨hd,s,(List.mem_append.1 hs).resolve_left fun hs1=>hearlier s hs1 d hdep hd,rfl,hdep⟩
 induction h using TransGen.head_induction_on with
 | single h=>exact .single (hstep hb h)
 | head h _ ih=>exact .head (hstep (mem_source_of_transGen ih) h) ih

include hdistinct hearlier in
theorem joined_append {a b:Unique} :
  Joined (ss1 ++ ss2) a b ↔ Joined ss1 a b ∨ Joined ss2 a b := by
 constructor
 · rintro ⟨hab,hba⟩
   have ha:=mem_of_transGen hba
   have hb:=mem_of_transGen hab
   rw [List.map_append,List.mem_append] at ha hb
   rcases ha with ha | ha
   · have hab' :=transGen_first hdistinct hearlier ha hab
     exact Or.inl ⟨hab', transGen_first hdistinct hearlier (mem_of_transGen hab') hba⟩
   · have hba' :=transGen_later hearlier ha hba
     exact Or.inr ⟨transGen_later hearlier (mem_source_of_transGen hba') hab,hba'⟩
 · rintro (h | h)
   · exact h.mono fun s=>List.mem_append_left ss2
   · exact h.mono fun s=>List.mem_append_right ss1

end Parts

theorem joined_flatMap {A:Type} {ms:List (Declarations A)}
  (hdistinct:((ms.flatMap fun m=>synonyms m.decls).map Prod.fst).Nodup)
  (hearlier:ms.Pairwise fun m later=>
   ∀ s ∈ synonyms m.decls, ∀ u ∈ s.2.2, u ∉ (synonyms later.decls).map Prod.fst)
  {a b:Unique} :
  Joined (ms.flatMap fun m=>synonyms m.decls) a b ↔
   ∃ m ∈ ms, Joined (synonyms m.decls) a b := by
 induction ms with
 | nil=>
  refine ⟨fun h=>?_,fun h=>?_⟩
  · exact absurd (mem_of_transGen h.1) (by simp)
  · simp at h
 | cons m ms ih=>
  rw [List.flatMap_cons] at hdistinct ⊢
  rw [List.pairwise_cons] at hearlier
  have hfirst:∀ s ∈ synonyms m.decls, ∀ u ∈ s.2.2,
    u ∉ (ms.flatMap fun m=>synonyms m.decls).map Prod.fst := by
   intro s hs u hu hmem
   rw [List.map_flatMap,List.mem_flatMap] at hmem
   obtain ⟨later,hlater,hmem⟩:=hmem
   exact hearlier.1 later hlater s hs u hu hmem
  have hrest:((ms.flatMap fun m=>synonyms m.decls).map Prod.fst).Nodup:=by
   rw [List.map_append] at hdistinct
   exact hdistinct.of_append_right
  rw [joined_append hdistinct hfirst,ih hrest hearlier.2]
  simp

/-! ### A program -/

section Program
variable {A:Type} (P:Program A)

def Program.cycles : List (List Synonym) := P.modules.flatMap fun m=>SynonymCycles.cycles m.decls

variable {P}

theorem mem_declared {m:Declarations A} (hm:m ∈ P.modules) {s:Synonym}
  (hs:s ∈ synonyms m.decls) : s ∈ P.declared :=
 List.mem_flatMap.2 ⟨m,hm,hs⟩

theorem distinct_module {m:Declarations A} (hm:m ∈ P.modules) :
  ((synonyms m.decls).map Prod.fst).Nodup := by
 have h:=P.distinct
 rw [List.map_flatMap] at h
 exact (List.nodup_flatMap.1 h).1 m hm

theorem module_unique {m m' : Declarations A} (hm:m ∈ P.modules) (hm' : m' ∈ P.modules)
  {u:Unique} (hu:u ∈ (synonyms m.decls).map Prod.fst)
  (hu' : u ∈ (synonyms m'.decls).map Prod.fst) : m=m' := by
 have h:=P.distinct
 rw [List.map_flatMap] at h
 by_contra hne
 have hsymm:Std.Symm (Function.onFun List.Disjoint
   fun m : Declarations A=>(synonyms m.decls).map Prod.fst) := ⟨fun _ _ h=>h.symm⟩
 exact (List.nodup_flatMap.1 h).2.forall hm hm' hne hu hu'

theorem joined_declared {a b:Unique} :
  Joined P.declared a b ↔ ∃ m ∈ P.modules, Joined (synonyms m.decls) a b :=
 joined_flatMap P.distinct P.earlier

theorem joined_module {m:Declarations A} (hm:m ∈ P.modules) {a b:Unique}
  (ha:a ∈ (synonyms m.decls).map Prod.fst) :
  Joined P.declared a b ↔ Joined (synonyms m.decls) a b := by
 rw [joined_declared]
 refine ⟨fun h=>?_,fun h=>⟨m,hm,h⟩⟩
 obtain ⟨m', hm', h⟩:=h
 rwa [module_unique hm hm' ha (mem_of_transGen h.2)]

theorem onCycle_module {m:Declarations A} (hm:m ∈ P.modules) {u:Unique}
  (hu:u ∈ (synonyms m.decls).map Prod.fst) :
  OnCycle P.declared u ↔ u ∈ cyclic m.decls := by
 rw [onCycle_iff,mem_cyclic (distinct_module hm)]
 have h:=joined_module hm (b := u) hu
 exact ⟨fun hu=>(h.1 ⟨hu,hu⟩).1,fun hu=>(h.2 ⟨hu,hu⟩).1⟩

theorem mem_kept {s:Synonym} :
  s ∈ P.kept ↔ s ∈ P.declared ∧ ¬OnCycle P.declared s.1 := by
 rw [Program.kept,Program.declared,List.mem_flatMap,List.mem_flatMap]
 constructor
 · rintro ⟨m,hm,hs⟩
   rw [synonyms_quarantined,List.mem_filter,decide_eq_true_iff] at hs
   exact ⟨⟨m,hm,hs.1⟩,fun h=>hs.2 ((onCycle_module hm (List.mem_map_of_mem hs.1)).1 h)⟩
 · rintro ⟨⟨m,hm,hs⟩,hno⟩
   refine ⟨m,hm, ?_⟩
   rw [synonyms_quarantined,List.mem_filter,decide_eq_true_iff]
   exact ⟨hs,fun h=>hno ((onCycle_module hm (List.mem_map_of_mem hs)).2 h)⟩

theorem kept_acyclic (u:Unique) : ¬TransGen (Mentions P.kept) u u := by
 intro h
 obtain ⟨s,hs,rfl⟩:=List.mem_map.1 (mem_of_transGen h)
 have hcycle:TransGen (Mentions P.declared) s.1 s.1:=
  transGen_mono (fun t ht=>(mem_kept.1 ht).1) h
 exact (mem_kept.1 hs).2 (onCycle_iff.2 hcycle)

theorem joined_of_mem_cycles {cyc:List Synonym} (h:cyc ∈ P.cycles) :
  ∃ a ∈ cyc.map Prod.fst, ∀ u, u ∈ cyc.map Prod.fst ↔ Joined P.declared a u := by
 obtain ⟨m,hm,hcyc⟩:=List.mem_flatMap.1 h
 obtain ⟨a,hac,ha⟩:=mem_cycles (distinct_module hm) hcyc
 refine ⟨a,hac,fun u=>(ha u).trans (joined_module hm ?_).symm⟩
 exact mem_of_transGen ((ha a).1 hac).1

theorem exists_mem_cycles {u:Unique} (h:OnCycle P.declared u) :
  ∃ cyc ∈ P.cycles, u ∈ cyc.map Prod.fst := by
 have hjoined:Joined P.declared u u:=⟨onCycle_iff.1 h,onCycle_iff.1 h⟩
 obtain ⟨m,hm,hu⟩:=joined_declared.1 hjoined
 obtain ⟨cyc,hcyc,hmem⟩:=exists_cycle (distinct_module hm) hu.1
 exact ⟨cyc,List.mem_flatMap.2 ⟨m,hm,hcyc⟩,hmem⟩

theorem program_cycles_disjoint :
  P.cycles.Pairwise fun c d=>∀ u ∈ c.map Prod.fst, u ∉ d.map Prod.fst := by
 have hmem:∀ m ∈ P.modules, ∀ cyc ∈ cycles m.decls, ∀ u ∈ cyc.map Prod.fst,
   u ∈ (synonyms m.decls).map Prod.fst := by
  intro m hm cyc hcyc u hu
  obtain ⟨a,-,ha⟩:=mem_cycles (distinct_module hm) hcyc
  exact mem_of_transGen ((ha u).1 hu).1
 have h:=P.distinct
 rw [List.map_flatMap,List.nodup_flatMap] at h
 refine List.pairwise_flatMap.2 ⟨fun m hm=>cycles_disjoint (distinct_module hm), ?_⟩
 refine h.2.imp_of_mem fun hm hm' hdisjoint c hc d hd u hu hu' =>?_
 exact hdisjoint (hmem _ hm c hc u hu) (hmem _ hm' d hd u hu')

/-- In one of the cycles that are reported, and in no other. -/
def ReportedOnce (P:Program A) (us:List Unique) : Prop :=
 ∃ before cyc after, P.cycles=before ++ cyc::after ∧ (∀ u ∈ us, u ∈ cyc.map Prod.fst) ∧
  ∀ other ∈ before ++ after, ∀ u ∈ us, u ∉ other.map Prod.fst

theorem reportedOnce {us:List Unique} (h:IsCycle P.declared us) : ReportedOnce P us := by
 obtain ⟨u,hu⟩ : ∃ u, u ∈ us:=by
  obtain ⟨u,rest,rfl,-⟩:=h
  exact ⟨u,List.mem_cons_self⟩
 obtain ⟨cyc,hcyc,hmem⟩:=exists_mem_cycles ⟨us,h,hu⟩
 obtain ⟨a,hac,ha⟩:=joined_of_mem_cycles hcyc
 have hall:∀ v ∈ us, v ∈ cyc.map Prod.fst:=by
  intro v hv
  have huv:=h.joined hu hv
  have hau:=(ha u).1 hmem
  exact (ha v).2 ⟨hau.1.trans huv.1,huv.2.trans hau.2⟩
 obtain ⟨before,after,heq⟩:=List.append_of_mem hcyc
 have hdisjoint:=program_cycles_disjoint (P := P)
 rw [heq,List.pairwise_append,List.pairwise_cons] at hdisjoint
 obtain ⟨-,⟨hafter,-⟩,hbefore⟩:=hdisjoint
 refine ⟨before,cyc,after,heq,hall,fun other hother v hv hv' =>?_⟩
 rcases List.mem_append.1 hother with hother | hother
 · exact hbefore other hother cyc List.mem_cons_self v hv' (hall v hv)
 · exact hafter other hother v (hall v hv) hv'

theorem errors_eq : P.errors.map some=P.cycles.map report := by
 have hne:∀ cyc ∈ P.cycles, ∃ e, report cyc=some e:=by
  intro cyc hcyc
  obtain ⟨a,ha,-⟩:=joined_of_mem_cycles hcyc
  cases cyc with
  | nil=>simp at ha
  | cons s cyc=>exact ⟨_,rfl⟩
 have herrors:P.errors=P.cycles.filterMap report:=by
  rw [Program.cycles,List.filterMap_flatMap]
  rfl
 rw [herrors]
 generalize P.cycles=cycs at hne
 induction cycs with
 | nil=>rfl
 | cons cyc cycs ih=>
  obtain ⟨e,he⟩:=hne cyc List.mem_cons_self
  rw [List.filterMap_cons_some he,List.map_cons,List.map_cons,he,
   ih fun c hc=>hne c (List.mem_cons_of_mem _ hc)]

theorem reported_members {cyc:List Synonym} (h:cyc ∈ P.cycles) {s t:Synonym}
  (hs:s ∈ cyc) (ht:t ∈ cyc) : s ∈ P.declared ∧ Joined P.declared s.1 t.1 := by
 obtain ⟨a,-,ha⟩:=joined_of_mem_cycles h
 obtain ⟨m,hm,hcyc⟩:=List.mem_flatMap.1 h
 have has:=(ha s.1).1 (List.mem_map_of_mem hs)
 have hat:=(ha t.1).1 (List.mem_map_of_mem ht)
 exact ⟨mem_declared hm (mem_synonyms_of_mem_cycles (distinct_module hm) hcyc hs),
  has.2.trans hat.1,hat.2.trans has.1⟩

end Program

end L4Ide.SynonymCycles
