import L4Ide.LadderAtoms
import Mathlib.Data.Finset.Basic
import L4Ide.LadderQuestions

set_option autoImplicit false

/-!
# The editor's query plan

Answers given by label are matched to the boxes of a ladder, and the query of the ladder under
them says what is determined and which boxes are still needed.
-/
namespace L4Ide.EditorQueryPlan
open Std (TreeMap)
open Syntax Transform Ladder LadderAtoms BooleanDecisionQuery

section Texts

def isSpace (c:Char) : Bool :=
 c.toNat=32 ∨ (9 ≤ c.toNat ∧ c.toNat ≤ 13) ∨ c.toNat ∈ [0xa0,0x1680,0x202f,0x205f,0x3000] ∨
  (0x2000 ≤ c.toNat ∧ c.toNat ≤ 0x200a)

def strip (t:List Char) : List Char :=
 ((t.dropWhile isSpace).reverse.dropWhile isSpace).reverse

/-- What comes before the first occurrence of a text, and the rest from there on. -/
def breakOn (pat:List Char) : List Char → List Char × List Char
 | []=>([],[])
 | c::cs=>
  if pat.isPrefixOf (c::cs) then ([],c::cs)
  else ((c::(breakOn pat cs).1),(breakOn pat cs).2)

def stripBackticks (t:List Char) : List Char :=
 match t with
 | '`' :: rest=>if rest.getLast? = some '`' then rest.dropLast else t
 | _=>t

/-- The container and the field of a label such as `i's field`. -/
def parseProjectionLabel (lbl:String) : Option (String × String) :=
 match breakOn "'s ".toList lbl.toList with
 | (_,[])=>none
 | (container0,r)=>
  let field:=stripBackticks (strip (r.drop 3))
  if strip container0=[] ∨ field=[] then none
  else some (String.ofList (strip container0),String.ofList field)

def backticked (k:String) : String := "`" ++ k ++ "`"

end Texts

structure InputRef where
 rootUnique : ℤ
 path : List String
 deriving DecidableEq, Repr

/-- What the plan reads beside the ladder: the rule's parameters in the order of their numbers,
    the inputs that a variable's and another expression's box rest on in the end, the identifier
    of a box, and the number that a text is. -/
structure Planner where
 paramsByUnique : List (ℤ × String)
 variableRefs : Unique → Finset InputRef
 exprRefs : RExpr → Finset InputRef
 stableAtomId : String → Finset InputRef → String
 readUnique : String → Option ℤ

def Planner.refs (pl:Planner) : RExpr → Finset InputRef
 | .app r [] _=>pl.variableRefs r.getUnique
 | e=>pl.exprRefs e

/-- A compiled query with the labels and the inputs of the boxes: of two labels of a box the first
    counts, and inputs are put together. -/
structure CachedDecisionQuery where
 varLabelByUnique : List (ℤ × String)
 varInputRefsByUnique : List (ℤ × Finset InputRef)
 compiled : CompiledDecisionQuery ℤ

structure QueryAtom where
 unique : ℤ
 atomId : String
 label : String
 inputRefs : Finset InputRef

structure QueryPlanResponse where
 determined : Option Bool
 stillNeeded : List QueryAtom
 ranked : List QueryAtom

section Plan
variable (pl:Planner) (cached:CachedDecisionQuery)

def uniques : List ℤ := (cached.varLabelByUnique.map Prod.fst).eraseDups

def labelOf (u:ℤ) : Option String := cached.varLabelByUnique.lookup u

def inputRefsOf (u:ℤ) : Finset InputRef :=
 (cached.varInputRefsByUnique.filter fun p=>p.1=u).foldr (fun p refs=>p.2 ∪ refs) ∅

def atomIdOf (u:ℤ) : String :=
 (labelOf cached u).elim (toString u) fun lbl=>pl.stableAtomId lbl (inputRefsOf cached u)

def labelToUniques0 (k:String) : List ℤ :=
 (uniques cached).filter fun u=>labelOf cached u=some k

def projectionKey (lbl:String) : Option String :=
 (parseProjectionLabel lbl).map fun (container,field)=>container ++ "." ++ field

def projectionLabelToUniques (k:String) : List ℤ :=
 (uniques cached).filter fun u=>(labelOf cached u).bind projectionKey=some k

def labelToUniques (k:String) : Option (List ℤ) :=
 if labelToUniques0 cached k ≠ [] then some (labelToUniques0 cached k)
 else if projectionLabelToUniques cached k ≠ [] then some (projectionLabelToUniques cached k)
 else none

def uniqueByAtomId (k:String) : Option ℤ :=
 ((uniques cached).filter fun u=>atomIdOf pl cached u=k).max?

def labelled (k:String) : Option (List ℤ) :=
 labelToUniques cached k <|> labelToUniques cached (backticked k)

def tryMatchKey (k:String) : Option (List ℤ) :=
 labelled cached k <|> pure <$> pl.readUnique k <|> pure <$> uniqueByAtomId pl cached k

def paramUniqueByLabel (lbl:String) : Option ℤ :=
 (pl.paramsByUnique.reverse.find? fun p=>p.2=lbl).map Prod.fst

def candidateInputRefsForKey (k:String) : List InputRef :=
 let (containerLabel,rest):=breakOn ['.'] k.toList
 match paramUniqueByLabel pl (String.ofList containerLabel) with
 | none=>[]
 | some rootUnique=>
  match rest with
  | []=>[⟨rootUnique,[]⟩]
  | _::raw=>
   let singletonRef:InputRef:=⟨rootUnique,[String.ofList raw]⟩
   let segmented:InputRef:=
    ⟨rootUnique,((raw.splitOn '.').filter (· ≠ [])).map String.ofList⟩
   if singletonRef=segmented then [singletonRef] else [singletonRef,segmented]

def keyToLeafUniques (k:String) : List ℤ :=
 (uniques cached).filter fun u=>
  (candidateInputRefsForKey pl k).any fun ref=>inputRefsOf cached u = {ref}

def knownBindings (flattenedLabelBindings:List (String × Bool)) : TreeMap ℤ Bool :=
 TreeMap.ofList (flattenedLabelBindings.flatMap fun (k,b)=>
  ((tryMatchKey pl cached k).getD [] ++ keyToLeafUniques pl cached k).map fun u=>(u,b))

def atomOf (u:ℤ) : QueryAtom where
 unique:=u
 atomId:=atomIdOf pl cached u
 label:=(labelOf cached u).getD (toString u)
 inputRefs:=inputRefsOf cached u

def queryPlan (flattenedLabelBindings:List (String × Bool)) : Option QueryPlanResponse := do
 let res ← queryDecision cached.compiled (knownBindings pl cached flattenedLabelBindings)
 return {
  determined:=res.determined
  stillNeeded:=res.support.toList.map (atomOf pl cached)
  ranked:=res.ranked.map (atomOf pl cached) }

end Plan

/-- The query of the ladder that is drawn of an expression. -/
def cachedQuery (dr:Drawer) (pl:Planner) (e:RExpr) (x:IRExpr) :
  Option CachedDecisionQuery := do
 let (boolExpr,labels,order0):=vizExprToBoolExpr x
 let compiled ← compileDecisionQuery order0.eraseDups boolExpr
 return {
  varLabelByUnique:=labels
  varInputRefsByUnique:=((leaves x).zip (sources dr e)).map fun (nm,src)=>
   (nm.unique,pl.refs src)
  compiled }

end L4Ide.EditorQueryPlan

/-!
## What a query plan answers

A plan is about the formula that its ladder asks, under the answers that the keys bind, and boxes
of one expression are bound by the same keys.
-/
namespace L4Ide.EditorQueryPlanAnswers
open Std (TreeMap)
open Syntax Transform Ladder LadderAtoms EditorQueryPlan BooleanDecisionQuery
open FormulaCopies TransformFormulas LadderQuestions

section Tables
variable {dr:Drawer} {pl:Planner} {cached:CachedDecisionQuery} {f:Formula Atom Scope}

structure Entered (dr:Drawer) (pl:Planner) (cached:CachedDecisionQuery)
  (f:Formula Atom Scope) : Prop where
 label : ∀ a ∈ f.atoms, ∀ k, a.box = .asks k → labelOf cached k=some (boxLabel dr a.source)
 refs : ∀ a ∈ f.atoms, ∀ k, a.box = .asks k → inputRefsOf cached k=pl.refs a.source
 uniques : ∀ k, k ∈ uniques cached ↔ ∃ a ∈ f.atoms, a.box = .asks k

theorem lookup_of_mem {l:List (ID × String)} {k:ID} {lbl:String} (hmem:(k,lbl) ∈ l)
  (hone:∀ lbl', (k,lbl') ∈ l → lbl' = lbl) : l.lookup k=some lbl := by
 induction l with
 | nil=>cases hmem
 | cons p l ih=>
  obtain ⟨k', lbl'⟩:=p
  by_cases hk:k=k'
  · subst hk
    rw [List.lookup_cons_self,hone lbl' List.mem_cons_self]
  · have hne:(k == k')=false:=by simpa using hk
    rw [List.lookup_cons,hne]
    dsimp only
    refine ih ?_ fun lbl' h=>hone lbl' (List.mem_cons_of_mem _ h)
    rcases List.mem_cons.1 hmem with heq | hmem
    · exact absurd (Prod.mk.inj heq).1 hk
    · exact hmem

theorem inputRefs_eq {l:List (ID × Finset InputRef)} {k:ID} {refs:Finset InputRef}
  (hmem:(k,refs) ∈ l) (hone:∀ refs', (k,refs') ∈ l → refs' = refs) :
  (l.filter fun p=>p.1=k).foldr (fun p acc=>p.2 ∪ acc) ∅ = refs := by
 have hall:∀ p ∈ l.filter fun p=>p.1=k, p.2=refs:=by
  rintro ⟨k', refs'⟩ hp
  obtain ⟨hp,hk⟩:=List.mem_filter.1 hp
  have hk' : k' = k:=by simpa using hk
  exact hone refs' (hk' ▸ hp)
 have hsome:(k,refs) ∈ l.filter fun p=>p.1=k:=
  List.mem_filter.2 ⟨hmem,by simp⟩
 have fold:∀ m : List (ID × Finset InputRef), (∀ p ∈ m, p.2=refs) →
   m.foldr (fun p acc=>p.2 ∪ acc) ∅ = if m=[] then ∅ else refs := by
  intro m hm
  induction m with
  | nil=>rfl
  | cons p m ih=>
   rw [List.foldr_cons,ih fun q hq=>hm q (List.mem_cons_of_mem _ hq),
    hm p List.mem_cons_self]
   by_cases hnil:m=[]
   · simp [hnil]
   · simp [hnil]
 rw [fold _ hall,if_neg (List.ne_nil_of_mem hsome)]

end Tables

mutual

theorem vars_vizExprToBoolExpr : ∀ x : IRExpr,
  (vizExprToBoolExpr x).1.vars=(vizExprToBoolExpr x).2.2
 | .trueE _ _=>rfl
 | .falseE _ _=>rfl
 | .uBoolVar _ _=>rfl
 | .app _ _ _=>rfl
 | .not_ _ x=>vars_vizExprToBoolExpr x
 | .and_ _ xs=>vars_vizExprsToBoolExprs xs
 | .or_ _ xs=>vars_vizExprsToBoolExprs xs
 | .inertE _ _ .inertCtxAnd=>rfl
 | .inertE _ _ .inertCtxOr=>rfl
 | .inertE _ _ .inertCtxNone=>rfl

theorem vars_vizExprsToBoolExprs : ∀ xs : List IRExpr,
  varsAll (vizExprsToBoolExprs xs).1=(vizExprsToBoolExprs xs).2.2
 | []=>rfl
 | x::xs=>by
  simp only [vizExprsToBoolExprs,varsAll,vars_vizExprToBoolExpr x,
   vars_vizExprsToBoolExprs xs]

end

section Plans
variable {dr:Drawer} {pl:Planner}

structure Planned (dr:Drawer) (f:Formula Atom Scope) (bound:ID → Option Bool)
  (p:QueryPlanResponse) : Prop where
 determined_iff : ∀ b, p.determined=some b ↔
  ∀ σ, Answered bound σ → (f.eval fun a=>a.box.value σ)=b
 needed_iff : ∀ lbl, lbl ∈ p.stillNeeded.map QueryAtom.label ↔
  ∃ a ∈ f.atoms, ∃ k, a.box = .asks k ∧
   Needs bound (fun σ=>f.eval fun a=>a.box.value σ) k ∧ boxLabel dr a.source=lbl

def known (pl:Planner) (cached:CachedDecisionQuery) (bindings:List (String × Bool)) (k:ID) :
  Option Bool :=
 (knownBindings pl cached bindings)[k]?

structure Queried (dr:Drawer) (pl:Planner) (e:RExpr) (cached:CachedDecisionQuery)
  (f:Formula Atom Scope) : Prop where
 fill : fill Atom.source f=e
 whole : ∀ a ∈ f.atoms, isConnective a.source=false
 fits : ∀ a ∈ f.atoms, Fits a
 value : ∀ σ, (vizExprToBoolExpr (go dr e 1).1).1.eval σ=f.eval fun a=>a.box.value σ
 own : (f.atoms.filterMap Atom.ownNumber).Nodup
 same : ∀ a ∈ f.atoms, ∀ b ∈ f.atoms, ∀ k, a.box = .asks k → b.box = .asks k →
  (a=b ∧ isName a.source=false) ∨ ∃ r1 ty1 r2 ty2, a.source = .app r1 [] ty1 ∧
   b.source = .app r2 [] ty2 ∧ r1.getUnique=r2.getUnique ∧ r1.getOriginal=r2.getOriginal
 entered : Entered dr pl cached f
 planned : ∀ bindings, ∃ p, queryPlan pl cached bindings=some p ∧
  Planned dr f (known pl cached bindings) p

def cachedOf (dr:Drawer) (pl:Planner) (e:RExpr) (compiled:CompiledDecisionQuery ℤ) :
  CachedDecisionQuery where
 varLabelByUnique:=(vizExprToBoolExpr (go dr e 1).1).2.1
 varInputRefsByUnique:=((leaves (go dr e 1).1).zip (sources dr e)).map fun (nm,src)=>
  (nm.unique,pl.refs src)
 compiled:=compiled

section Cached
variable {e:RExpr} {f:Formula Atom Scope} {compiled:CompiledDecisionQuery ℤ}
 (hf:Asks dr none e 1 (fun σ=>(vizExprToBoolExpr (go dr e 1).1).1.eval σ)
  (vizExprToBoolExpr (go dr e 1).1).2.1 (vizExprToBoolExpr (go dr e 1).1).2.2
  ((leaves (go dr e 1).1).zip (sources dr e)) f)
include hf

theorem mem_varLabelByUnique {k:ID} {lbl:String} :
  (k,lbl) ∈ (cachedOf dr pl e compiled).varLabelByUnique ↔
   ∃ a ∈ f.atoms, a.box = .asks k ∧ boxLabel dr a.source=lbl := by
 rw [cachedOf,hf.labels]
 exact mem_labels

theorem entered_cachedOf (hn:Named dr e) : Entered dr pl (cachedOf dr pl e compiled) f := by
 have hboxes:∀ p ∈ (leaves (go dr e 1).1).zip (sources dr e), p.2 ∈ sources dr e:=
  fun p hp=>(List.of_mem_zip hp).2
 have hdist:=(distinguishes_iff dr e 1).2 hn.toApartNumbers
 refine ⟨fun a ha k hk=>?_,fun a ha k hk=>?_,fun k=>?_⟩
 · refine lookup_of_mem ((mem_varLabelByUnique hf).2 ⟨a,ha,hk,rfl⟩) fun lbl' h=>?_
   obtain ⟨b,hb,hkb,rfl⟩:=(mem_varLabelByUnique hf).1 h
   rcases hf.same hn hboxes ha hb hk hkb with ⟨rfl,-⟩ | ⟨r1,ty1,r2,ty2,h1,h2,-,hname⟩
   · rfl
   · rw [h1,h2,boxLabel,boxLabel,hname]
 · obtain ⟨nm,hnm,hu⟩:=hf.drawn a ha k hk
   refine inputRefs_eq (List.mem_map.2 ⟨(nm,a.source),hnm,by rw [←hu]⟩) fun refs' h=>?_
   obtain ⟨⟨nm', src⟩,hmem,heq⟩:=List.mem_map.1 h
   obtain ⟨hu', rfl⟩:=Prod.mk.inj heq
   rcases hdist.2 _ hmem _ hnm (hu'.trans hu.symm) with heq | ⟨r1,ty1,r2,ty2,h1,h2,hun⟩
   · exact congrArg pl.refs heq
   · dsimp only at h1 h2
     rw [h1,h2,Planner.refs,Planner.refs,hun]
 · rw [uniques,List.mem_eraseDups,List.mem_map]
   constructor
   · rintro ⟨⟨k', lbl⟩,h,rfl⟩
     obtain ⟨a,ha,hk,-⟩:=(mem_varLabelByUnique hf).1 h
     exact ⟨a,ha,hk⟩
   · rintro ⟨a,ha,hk⟩
     exact ⟨(k,boxLabel dr a.source),(mem_varLabelByUnique hf).2 ⟨a,ha,hk,rfl⟩,rfl⟩

theorem planned_of_answers (hentered:Entered dr pl (cachedOf dr pl e compiled) f)
  {bindings:TreeMap ℤ Bool} {determined:Option Bool} {support:Std.TreeSet ℤ}
  (hans:Answers (vizExprToBoolExpr (go dr e 1).1).1 bindings determined support)
  (ranked:List QueryAtom) :
  Planned dr f (fun k=>bindings[k]?)
   ⟨determined,support.toList.map (atomOf pl (cachedOf dr pl e compiled)),ranked⟩ := by
 refine ⟨fun b=>?_,fun lbl=>?_⟩
 · refine (hans.determined_iff b).trans (forall_congr' fun σ=>?_)
   rw [hf.value]
   exact Iff.rfl
 · simp only [List.map_map,List.mem_map,Std.TreeSet.mem_toList,Function.comp]
   constructor
   · rintro ⟨k,hk,hlbl⟩
     obtain ⟨hopen,σ,τ,hσ,hτ,hne⟩:=(hans.mem_support_iff k).1 hk
     rw [hf.value,hf.value] at hne
     have hneeds:Needs (fun k=>bindings[k]?) (fun σ=>f.eval fun a=>a.box.value σ) k:=
      ⟨TreeMap.getElem?_eq_none hopen,σ,τ,hσ,hτ,hne⟩
     obtain ⟨a,ha,hbox⟩:=hneeds.exists_atom
     refine ⟨a,ha,k,hbox,hneeds, ?_⟩
     rw [←hlbl,atomOf,hentered.label a ha k hbox,Option.getD_some]
   · rintro ⟨a,ha,k,hk,⟨hopen,σ,τ,hσ,hτ,hne⟩,rfl⟩
     refine ⟨k,(hans.mem_support_iff k).2 ⟨fun hmem=>?_,σ,τ,hσ,hτ, ?_⟩, ?_⟩
     · rw [TreeMap.mem_iff_isSome_getElem?,show bindings[k]? = none from hopen] at hmem
       cases hmem
     · rwa [hf.value,hf.value]
     · rw [atomOf,hentered.label a ha k hk,Option.getD_some]

end Cached

theorem exists_queried (pl:Planner) {e:RExpr} (hi:impliesFree e=true) (hn:Named dr e) :
  ∃ cached f, cachedQuery dr pl e (go dr e 1).1=some cached ∧ Queried dr pl e cached f := by
 obtain ⟨f,hf⟩:=@asked_go dr e 1 hi
 have hvars:∀ v ∈ (vizExprToBoolExpr (go dr e 1).1).1.vars,
   v ∈ (vizExprToBoolExpr (go dr e 1).1).2.2.eraseDups := by
  intro v hv
  rw [vars_vizExprToBoolExpr] at hv
  exact List.mem_eraseDups.2 hv
 obtain ⟨compiled,hcomp,-⟩:=compileDecisionQuery_spec _ _ hvars
 have hentered:Entered dr pl (cachedOf dr pl e compiled) f:=entered_cachedOf hf hn
 refine ⟨cachedOf dr pl e compiled,f, ?_,hf.fill,hf.whole,hf.fits,hf.value,hf.nodup_own,
  fun a ha b hb k hka hkb=>hf.same hn (fun p hp=>(List.of_mem_zip hp).2) ha hb hka hkb,
  hentered,fun bindings=>?_⟩
 · simp only [cachedQuery,hcomp,Option.bind_eq_bind,Option.bind_some]
   rfl
 · obtain ⟨compiled', n,support,impacts,hcomp', hquery,hans,-⟩:=
    queryDecision_spec _ _ hvars (knownBindings pl (cachedOf dr pl e compiled) bindings)
   obtain rfl : compiled' = compiled:=Option.some.inj (hcomp'.symm.trans hcomp)
   refine ⟨_, ?_,planned_of_answers hf hentered hans
    ((compiled'.rankedVars (TreeMap.ofList impacts) support).map
     (atomOf pl (cachedOf dr pl e compiled')))⟩
   have hquery' : queryDecision (cachedOf dr pl e compiled').compiled
     (knownBindings pl (cachedOf dr pl e compiled') bindings)=_ := hquery
   rw [queryPlan,hquery']
   rfl

end Plans

/-! ## What the keys bind -/

section Keys
variable {dr:Drawer} {pl:Planner}

def keyed (pl:Planner) (cached:CachedDecisionQuery) (k:String) : List ℤ :=
 (tryMatchKey pl cached k).getD [] ++ keyToLeafUniques pl cached k

theorem getElem?_insertMany_block (t:TreeMap ℤ Bool) (us:List ℤ) (b:Bool) (u:ℤ) :
  (t.insertMany (us.map fun u=>(u,b)))[u]? = if u ∈ us then some b else t[u]? := by
 induction us generalizing t with
 | nil=>simp
 | cons v us ih=>
  rw [List.map_cons,TreeMap.insertMany_cons,ih,TreeMap.getElem?_insert]
  by_cases hu:u ∈ us
  · simp [hu]
  · by_cases hv:v=u
    · simp [hv]
    · simp [hu,hv,Ne.symm hv]

theorem known_append (cached:CachedDecisionQuery) (bindings:List (String × Bool)) (q:String × Bool)
  (u:ℤ) : known pl cached (bindings ++ [q]) u =
   if u ∈ keyed pl cached q.1 then some q.2 else known pl cached bindings u := by
 simp only [known,knownBindings,List.flatMap_append,List.flatMap_cons,List.flatMap_nil,
  List.append_nil,TreeMap.ofList_eq_insertMany_empty,TreeMap.insertMany_append]
 exact getElem?_insertMany_block _ _ _ u

theorem known_congr {c c' : CachedDecisionQuery} {u u' : ℤ} {bindings:List (String × Bool)}
  (h:∀ q ∈ bindings, u ∈ keyed pl c q.1 ↔ u' ∈ keyed pl c' q.1) :
  known pl c bindings u=known pl c' bindings u' := by
 induction bindings using List.reverseRecOn with
 | nil=>simp [known,knownBindings]
 | append_singleton bindings q ih=>
  rw [known_append,known_append,ih fun q' hq=>h q' (List.mem_append_left _ hq),
   if_congr (h q (List.mem_append_right _ List.mem_cons_self)) rfl rfl]

def labelsOf (dr:Drawer) (f:Formula Atom Scope) : Set String :=
 { lbl | ∃ a ∈ f.atoms, ∃ k, a.box = .asks k ∧ boxLabel dr a.source=lbl }

def Hits (labels:Set String) (key lbl:String) : Prop :=
 lbl=key ∨ key ∉ labels ∧ projectionKey lbl=some key

variable {cached:CachedDecisionQuery} {f:Formula Atom Scope}

theorem mem_filter_uniques (h:Entered dr pl cached f) {P:ℤ → Bool} {k:ℤ} :
  k ∈ (uniques cached).filter P ↔ (∃ a ∈ f.atoms, a.box = .asks k) ∧ P k=true := by
 rw [List.mem_filter,h.uniques]

theorem mem_labelToUniques0 (h:Entered dr pl cached f) {key:String} {k:ℤ} :
  k ∈ labelToUniques0 cached key ↔
   ∃ a ∈ f.atoms, a.box = .asks k ∧ boxLabel dr a.source=key := by
 rw [labelToUniques0,mem_filter_uniques h,decide_eq_true_eq]
 constructor
 · rintro ⟨⟨a,ha,hk⟩,hlbl⟩
   rw [h.label a ha k hk] at hlbl
   exact ⟨a,ha,hk,Option.some.inj hlbl⟩
 · rintro ⟨a,ha,hk,rfl⟩
   exact ⟨⟨a,ha,hk⟩,h.label a ha k hk⟩

theorem mem_projectionLabelToUniques (h:Entered dr pl cached f) {key:String} {k:ℤ} :
  k ∈ projectionLabelToUniques cached key ↔
   ∃ a ∈ f.atoms, a.box = .asks k ∧ projectionKey (boxLabel dr a.source)=some key := by
 rw [projectionLabelToUniques,mem_filter_uniques h,decide_eq_true_eq]
 constructor
 · rintro ⟨⟨a,ha,hk⟩,hlbl⟩
   rw [h.label a ha k hk,Option.bind_some] at hlbl
   exact ⟨a,ha,hk,hlbl⟩
 · rintro ⟨a,ha,hk,hlbl⟩
   refine ⟨⟨a,ha,hk⟩, ?_⟩
   rw [h.label a ha k hk,Option.bind_some,hlbl]

structure Finds (dr:Drawer) (f:Formula Atom Scope) (found:Option (List ℤ))
  (hits:String → Prop) : Prop where
 isSome : found.isSome=true ↔ ∃ lbl ∈ labelsOf dr f, hits lbl
 mem_iff : ∀ a ∈ f.atoms, ∀ k, a.box = .asks k →
  (k ∈ found.getD [] ↔ hits (boxLabel dr a.source))

theorem labelToUniques_finds (h:Entered dr pl cached f) (key:String) :
  Finds dr f (labelToUniques cached key) (Hits (labelsOf dr f) key) := by
 have hlabel:∀ a ∈ f.atoms, ∀ b ∈ f.atoms, ∀ k, a.box = .asks k → b.box = .asks k →
   boxLabel dr a.source=boxLabel dr b.source := by
  intro a ha b hb k hka hkb
  exact Option.some.inj ((h.label a ha k hka).symm.trans (h.label b hb k hkb))
 have hlabels:key ∈ labelsOf dr f ↔ labelToUniques0 cached key ≠ []:=by
  rw [ne_eq,List.eq_nil_iff_forall_not_mem]
  simp only [mem_labelToUniques0 h,labelsOf,Set.mem_ofPred_eq,not_forall,not_not]
  constructor
  · rintro ⟨a,ha,k,hk,hlbl⟩
    exact ⟨k,a,ha,hk,hlbl⟩
  · rintro ⟨k,a,ha,hk,hlbl⟩
    exact ⟨a,ha,k,hk,hlbl⟩
 unfold labelToUniques
 by_cases hexact:labelToUniques0 cached key ≠ []
 · have hkey:=hlabels.2 hexact
   rw [if_pos hexact]
   refine ⟨⟨fun _=>⟨key,hkey,.inl rfl⟩,fun _=>rfl⟩,fun a ha k hk=>?_⟩
   rw [Option.getD_some,mem_labelToUniques0 h]
   constructor
   · rintro ⟨b,hb,hkb,rfl⟩
     exact .inl (hlabel a ha b hb k hk hkb)
   · rintro (hlbl | ⟨hno,-⟩)
     · exact ⟨a,ha,hk,hlbl⟩
     · exact absurd hkey hno
 · have hkey:key ∉ labelsOf dr f:=fun hmem=>hexact (hlabels.1 hmem)
   have hproj:∀ a ∈ f.atoms, ∀ k, a.box = .asks k →
     (k ∈ projectionLabelToUniques cached key ↔
      Hits (labelsOf dr f) key (boxLabel dr a.source)) := by
    intro a ha k hk
    rw [mem_projectionLabelToUniques h]
    constructor
    · rintro ⟨b,hb,hkb,hlbl⟩
      rw [hlabel b hb a ha k hkb hk] at hlbl
      exact .inr ⟨hkey,hlbl⟩
    · rintro (hlbl | ⟨-,hlbl⟩)
      · exact absurd ⟨a,ha,k,hk,hlbl⟩ hkey
      · exact ⟨a,ha,hk,hlbl⟩
   rw [if_neg hexact]
   by_cases hnone:projectionLabelToUniques cached key ≠ []
   · rw [if_pos hnone]
     refine ⟨⟨fun _=>?_,fun _=>rfl⟩,hproj⟩
     obtain ⟨k,hk⟩:=List.exists_mem_of_ne_nil _ hnone
     obtain ⟨a,ha,hbox,hlbl⟩:=(mem_projectionLabelToUniques h).1 hk
     exact ⟨_,⟨a,ha,k,hbox,rfl⟩,.inr ⟨hkey,hlbl⟩⟩
   · rw [if_neg hnone]
     rw [not_not] at hnone
     rw [hnone] at hproj
     refine ⟨⟨fun hsome=>?_, ?_⟩,hproj⟩
     · cases hsome
     · rintro ⟨lbl,⟨a,ha,k,hk,rfl⟩,hhits⟩
       cases (hproj a ha k hk).2 hhits

/-- The labels that a key is matched with: those that it hits, or those that it hits in
    backticks. -/
def Matched (labels:Set String) (key lbl:String) : Prop :=
 Hits labels key lbl ∨
  (¬∃ lbl' ∈ labels, Hits labels key lbl') ∧ Hits labels (backticked key) lbl

theorem labelled_finds (h:Entered dr pl cached f) (key:String) :
  Finds dr f (labelled cached key) (Matched (labelsOf dr f) key) := by
 have h1:=labelToUniques_finds h key
 have h2:=labelToUniques_finds h (backticked key)
 unfold labelled
 cases hfound:labelToUniques cached key with
 | some us=>
  rw [hfound] at h1
  obtain ⟨lbl,hlbl,hhits⟩:=h1.isSome.1 rfl
  refine ⟨⟨fun _=>⟨lbl,hlbl,.inl hhits⟩,fun _=>rfl⟩,fun a ha k hk=>?_⟩
  refine (h1.mem_iff a ha k hk).trans ⟨.inl,fun hmatch=>?_⟩
  exact hmatch.elim id fun hno=>absurd ⟨lbl,hlbl,hhits⟩ hno.1
 | none=>
  rw [hfound] at h1
  have hno:¬∃ lbl' ∈ labelsOf dr f, Hits (labelsOf dr f) key lbl' :=by
   intro hex
   cases h1.isSome.2 hex
  refine ⟨⟨fun hsome=>?_, ?_⟩,fun a ha k hk=>?_⟩
  · obtain ⟨lbl,hlbl,hhits⟩:=h2.isSome.1 hsome
    exact ⟨lbl,hlbl,.inr ⟨hno,hhits⟩⟩
  · rintro ⟨lbl,hlbl,hhits | ⟨-,hhits⟩⟩
    · exact absurd ⟨lbl,hlbl,hhits⟩ hno
    · exact h2.isSome.2 ⟨lbl,hlbl,hhits⟩
  · refine (h2.mem_iff a ha k hk).trans ⟨fun hhits=>.inr ⟨hno,hhits⟩, ?_⟩
    rintro (hhits | ⟨-,hhits⟩)
    · exact absurd ⟨_,⟨a,ha,k,hk,rfl⟩,hhits⟩ hno
    · exact hhits

/-- A key that names a label, or else neither a number nor the identifier of a box. -/
def ByLabel (pl:Planner) (cached:CachedDecisionQuery) (key:String) : Prop :=
 labelled cached key=none → pl.readUnique key=none ∧ uniqueByAtomId pl cached key=none

theorem uniqueByAtomId_eq_none (h:Entered dr pl cached f) {key:String} :
  uniqueByAtomId pl cached key=none ↔ ∀ a ∈ f.atoms, ∀ k, a.box = .asks k →
   pl.stableAtomId (boxLabel dr a.source) (pl.refs a.source) ≠ key := by
 have hid:∀ a ∈ f.atoms, ∀ k, a.box = .asks k → atomIdOf pl cached k =
   pl.stableAtomId (boxLabel dr a.source) (pl.refs a.source) := by
  intro a ha k hk
  rw [atomIdOf,h.label a ha k hk,h.refs a ha k hk,Option.elim_some]
 rw [uniqueByAtomId,List.max?_eq_none_iff,List.eq_nil_iff_forall_not_mem]
 constructor
 · intro hno a ha k hk heq
   refine hno k ((mem_filter_uniques h).2 ⟨⟨a,ha,hk⟩, ?_⟩)
   rw [hid a ha k hk,heq,decide_eq_true_eq]
 · intro hno k hmem
   obtain ⟨⟨a,ha,hk⟩,heq⟩:=(mem_filter_uniques h).1 hmem
   rw [hid a ha k hk,decide_eq_true_eq] at heq
   exact hno a ha k hk heq

theorem tryMatchKey_of_byLabel {key:String} (hkey:ByLabel pl cached key) :
  (tryMatchKey pl cached key).getD []=(labelled cached key).getD [] := by
 unfold tryMatchKey
 cases hl:labelled cached key with
 | some us=>rfl
 | none=>
  obtain ⟨h1,h2⟩:=hkey hl
  rw [h1,h2]
  rfl

variable {cached' : CachedDecisionQuery} {f' : Formula Atom Scope}

def SameSources (f f' : Formula Atom Scope) : Prop :=
 ∀ e, (∃ a ∈ f.atoms, ∃ k, a.box = .asks k ∧ a.source=e) ↔
  ∃ a ∈ f'.atoms, ∃ k, a.box = .asks k ∧ a.source=e

theorem SameSources.labelsOf_eq (h:SameSources f f') : labelsOf dr f=labelsOf dr f' := by
 ext lbl
 constructor
 · rintro ⟨a,ha,k,hk,rfl⟩
   obtain ⟨b,hb,j,hj,hs⟩:=(h a.source).1 ⟨a,ha,k,hk,rfl⟩
   exact ⟨b,hb,j,hj,by rw [hs]⟩
 · rintro ⟨a,ha,k,hk,rfl⟩
   obtain ⟨b,hb,j,hj,hs⟩:=(h a.source).2 ⟨a,ha,k,hk,rfl⟩
   exact ⟨b,hb,j,hj,by rw [hs]⟩

theorem SameSources.byLabel (hs:SameSources f f') (h:Entered dr pl cached f)
  (h' : Entered dr pl cached' f') {key:String} (hkey:ByLabel pl cached key) :
  ByLabel pl cached' key := by
 intro hnone
 have hnone' : labelled cached key=none:=by
  rw [←Option.not_isSome_iff_eq_none,(labelled_finds h key).isSome,hs.labelsOf_eq,
   ← (labelled_finds h' key).isSome,hnone]
  decide
 obtain ⟨h1,h2⟩:=hkey hnone'
 refine ⟨h1,(uniqueByAtomId_eq_none h').2 fun a ha k hk=>?_⟩
 obtain ⟨b,hb,j,hj,hsrc⟩:=(hs a.source).2 ⟨a,ha,k,hk,rfl⟩
 rw [←hsrc]
 exact (uniqueByAtomId_eq_none h).1 h2 b hb j hj

theorem SameSources.keyed_iff (hs:SameSources f f') (h:Entered dr pl cached f)
  (h' : Entered dr pl cached' f') {key:String} (hkey:ByLabel pl cached key) {a b:Atom}
  (ha:a ∈ f.atoms) (hb:b ∈ f'.atoms) (hsrc:a.source=b.source) {k k' : ℤ}
  (hk:a.box = .asks k) (hk' : b.box = .asks k') :
  k ∈ keyed pl cached key ↔ k' ∈ keyed pl cached' key := by
 have hleaf:k ∈ keyToLeafUniques pl cached key ↔ k' ∈ keyToLeafUniques pl cached' key:=by
  rw [keyToLeafUniques,keyToLeafUniques,mem_filter_uniques h,mem_filter_uniques h',
   h.refs a ha k hk,h'.refs b hb k' hk', hsrc]
  exact and_congr_left fun _=>⟨fun _=>⟨b,hb,hk'⟩,fun _=>⟨a,ha,hk⟩⟩
 have hlabel:k ∈ (labelled cached key).getD [] ↔ k' ∈ (labelled cached' key).getD []:=by
  rw [(labelled_finds h key).mem_iff a ha k hk,(labelled_finds h' key).mem_iff b hb k' hk',
   hs.labelsOf_eq,hsrc]
 rw [keyed,keyed,List.mem_append,List.mem_append,tryMatchKey_of_byLabel hkey,
  tryMatchKey_of_byLabel (hs.byLabel h h' hkey),hleaf,hlabel]

end Keys

end L4Ide.EditorQueryPlanAnswers
