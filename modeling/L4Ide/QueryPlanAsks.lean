import L4Ide.BooleanDecisionQueryCorrect
import L4Ide.InputRefsClosed
import L4Ide.QueryPlan
import Mathlib.Algebra.Order.BigOperators.Group.List
import Mathlib.Tactic.Linarith
import Mathlib.Tactic.Positivity

set_option autoImplicit false

/-!
# What is left unasked

An atom that is still needed is asked for under each of its keys that is not answered, unless the
key is a whole container whose needed atoms all have a key of one of its parts.
-/
namespace L4Ide.QueryPlan
open Std (TreeMap TreeSet)
open BooleanDecisionQuery (BoolExpr DecisionQueryResult VarImpact Answers queryDecision
 compileDecisionQuery)
open InputRefs (IntMap InputRef)

/-! ### The atoms of a key -/

section Map

theorem askOrder_eq {k k' : AskKey} : askOrder k k' = .eq ↔ k=k' := by
 exact Std.LawfulEqCmp.compare_eq_iff_eq

variable {k:AskKey} {l:List (AskKey × QueryAtom)} {m:AskMap}

theorem mem_addAsks {a:QueryAtom} :
  a ∈ ((l.foldl addAsk m)[k]?).getD [] ↔ (k,a) ∈ l ∨ a ∈ (m[k]?).getD [] := by
 induction l generalizing m with
 | nil=>simp
 | cons e l ih=>
  obtain ⟨k', a'⟩:=e
  rw [List.foldl_cons,ih,addAsk,TreeMap.getElem?_insert]
  by_cases heq:k' = k
  · subst heq
    simp only [askOrder_eq,if_true,Option.getD_some,List.mem_cons,Prod.mk.injEq,true_and]
    tauto
  · simp only [askOrder_eq,heq,if_false,List.mem_cons,Prod.mk.injEq,Ne.symm heq,false_and,
     false_or]

theorem addAsks_ne_nil
  (h:m[k]? ≠ some []) : (l.foldl addAsk m)[k]? ≠ some [] := by
 induction l generalizing m with
 | nil=>exact h
 | cons e l ih=>
  refine ih ?_
  rw [addAsk,TreeMap.getElem?_insert]
  split
  · simp
  · exact h

end Map

/-! ### Containers that are left out -/

section Containers

variable {m0:AskMap}

def Covered (m0:AskMap) (c:String) : Prop :=
 ∀ a ∈ (m0[((c,[]) : AskKey)]?).getD [], ∃ path, path ≠ [] ∧
  ∃ b ∈ (m0[((c,path) : AskKey)]?).getD [], b.unique=a.unique

def Part (m0:AskMap) (c:String) (k:AskKey) : Prop :=
 k.1=c ∧ k.2 ≠ [] ∧ (m0[k]?).isSome

variable {c:String} {emptyAtoms as:List QueryAtom} {m:AskMap} {k:AskKey}

theorem covered_iff {otherKeys:List AskKey}
  (hempty:m0[((c,[]) : AskKey)]? = some emptyAtoms)
  (hother:∀ k, k ∈ otherKeys ↔ Part m0 c k) :
  Covered m0 c ↔ emptyAtoms.all fun a=>
   (otherKeys.flatMap fun k=>((m0[k]?).getD []).map (·.unique)).contains a.unique := by
 rw [Covered,hempty,Option.getD_some,List.all_eq_true]
 refine forall₂_congr fun a _=>?_
 rw [List.contains_iff_mem,List.mem_flatMap]
 constructor
 · rintro ⟨path,hpath,b,hb,heq⟩
   refine ⟨(c,path),(hother _).mpr ⟨rfl,hpath, ?_⟩,List.mem_map.mpr ⟨b,hb,heq⟩⟩
   cases hk:m0[((c,path) : AskKey)]? with
   | none=>simp [hk] at hb
   | some as=>rfl
 · rintro ⟨⟨c', path⟩,hk,hmem⟩
   obtain ⟨rfl,hpath,_⟩:=(hother _).mp hk
   obtain ⟨b,hb,heq⟩:=List.mem_map.mp hmem
   exact ⟨path,hpath,b,hb,heq⟩

theorem not_covered_of_no_part
  (hempty:m0[((c,[]) : AskKey)]? = some emptyAtoms) (hne:emptyAtoms ≠ [])
  (hnone:∀ k, ¬ Part m0 c k) : ¬ Covered m0 c := by
 intro h
 obtain ⟨a,as,rfl⟩:=List.exists_cons_of_ne_nil hne
 obtain ⟨path,hpath,b,hb,_⟩:=h a (by simp [hempty])
 refine hnone (c,path) ⟨rfl,hpath, ?_⟩
 cases hk:m0[((c,path) : AskKey)]? with
 | none=>simp [hk] at hb
 | some as=>rfl

theorem dropContainer_spec (hne:∀ k : AskKey, m0[k]? ≠ some [])
  (hparts:∀ k : AskKey, k.2 ≠ [] → m[k]? = m0[k]?)
  (hsub:∀ k : AskKey, m0[k]? = none → m[k]? = none)
  (c:String) :
  (dropContainer m0 m c)[k]? = some as ↔ m[k]? = some as ∧ ¬ (k=(c,[]) ∧ Covered m0 c) := by
 have hother:∀ k : AskKey, k ∈ m.keys.filter (fun k=>k.1=c ∧ k.2 ≠ []) ↔ Part m0 c k:=by
  intro k
  rw [List.mem_filter,TreeMap.mem_keys,TreeMap.mem_iff_isSome_getElem?,decide_eq_true_iff]
  constructor
  · rintro ⟨hk,rfl,hpath⟩
    exact ⟨rfl,hpath,hparts k hpath ▸ hk⟩
  · rintro ⟨rfl,hpath,hk⟩
    exact ⟨hparts k hpath ▸ hk,rfl,hpath⟩
 rw [dropContainer]
 cases hempty:m0[((c,[]) : AskKey)]? with
 | none=>
  refine ⟨fun h=>⟨h, ?_⟩,And.left⟩
  rintro ⟨rfl,_⟩
  rw [hsub _ hempty] at h
  cases h
 | some emptyAtoms=>
  have hcovered:=covered_iff hempty hother
  simp only
  split
  · next hnil=>
    have hnot:¬ Covered m0 c:=by
     refine not_covered_of_no_part hempty (fun h=>hne _ (h ▸ hempty)) fun k hk=>?_
     rw [←hother,hnil] at hk
     cases hk
    simp [hnot]
  split
  · next hall=>
    simp only [TreeMap.getElem?_erase,askOrder_eq]
    by_cases hk:(c,[])=k
    · simp [←hk,hcovered.mpr hall]
    · simp [hk,Ne.symm hk]
  · next hall=>
    have hnot:¬ Covered m0 c:=fun h=>hall (hcovered.mp h)
    simp [hnot]

theorem dropContainers_spec (hne:∀ k : AskKey, m0[k]? ≠ some []) (cs:List String)
  (hparts:∀ k : AskKey, k.2 ≠ [] → m[k]? = m0[k]?)
  (hsub:∀ k : AskKey, m0[k]? = none → m[k]? = none) :
  (cs.foldl (dropContainer m0) m)[k]? = some as ↔
   m[k]? = some as ∧ ¬ (k.2=[] ∧ k.1 ∈ cs ∧ Covered m0 k.1) := by
 induction cs generalizing m with
 | nil=>simp
 | cons c cs ih=>
  have hstep:∀ {k:AskKey} {as:List QueryAtom}, (dropContainer m0 m c)[k]? = some as ↔
    m[k]? = some as ∧ ¬ (k=(c,[]) ∧ Covered m0 c) := dropContainer_spec hne hparts hsub c
  rw [List.foldl_cons,ih,hstep]
  · obtain ⟨c', path⟩:=k
    by_cases hc:c' = c
    · subst hc
      simp only [Prod.mk.injEq,true_and,List.mem_cons,true_or]
      tauto
    · simp only [Prod.mk.injEq,hc,false_and,not_false_eq_true,and_true,List.mem_cons,
       false_or]
  · intro k hk
    refine Option.ext fun as=>?_
    rw [hstep,hparts k hk]
    refine ⟨And.left,fun h=>⟨h, ?_⟩⟩
    rintro ⟨rfl,_⟩
    exact hk rfl
  · intro k hk
    refine Option.eq_none_iff_forall_ne_some.mpr fun as has=>?_
    have:=(hstep.mp has).1
    rw [hsub k hk] at this
    cases this

end Containers

/-! ### Scores -/

section Scores

variable {res:DecisionQueryResult ℤ}

def Shrinks (res:DecisionQueryResult ℤ) : Prop :=
 ∀ (u:ℤ) (vi:VarImpact ℤ), res.impact[u]? = some vi →
  vi.ifTrue.support.size ≤ res.support.size ∧ vi.ifFalse.support.size ≤ res.support.size

theorem impactScoreFor_nonneg (h:Shrinks res) (u:ℤ) : 0 ≤ impactScoreFor res u := by
 rw [impactScoreFor]
 split
 · exact le_refl 0
 · next vi hvi=>
   obtain ⟨htrue,hfalse⟩:=h u vi hvi
   have htrue' : (vi.ifTrue.support.size : ℚ) ≤ res.support.size:=by exact_mod_cast htrue
   have hfalse' : (vi.ifFalse.support.size : ℚ) ≤ res.support.size:=by exact_mod_cast hfalse
   refine add_nonneg ?_ (div_nonneg ?_ (le_max_of_le_left zero_le_one))
   · split
     · exact zero_le_two
     · exact le_refl 0
   · simp only [List.map_cons,List.map_nil,List.sum_cons,List.sum_nil]
     linarith

theorem score_pos (h:Shrinks res) {w:QueryAtom → ℕ} {as:List QueryAtom} (hne:as ≠ []) :
  0 < (as.map fun a=>1 / max 1 (w a:ℚ)*(1+impactScoreFor res a.unique)).sum := by
 have hpos:∀ a, 0 < 1 / max 1 (w a:ℚ)*(1+impactScoreFor res a.unique):=by
  intro a
  have hscore:=impactScoreFor_nonneg h a.unique
  have hw:(0 : ℚ) < max 1 (w a:ℚ):=lt_max_of_lt_left one_pos
  positivity
 refine List.sum_pos _ (fun x hx=>?_) (by simpa using hne)
 obtain ⟨a,_,rfl⟩:=List.mem_map.mp hx
 exact hpos a

end Scores

/-! ### The plan's asks and inputs -/

section Plan

variable {host:Host} {name:String} {paramsByUnique:TreeMap ℤ String}
 {cached:CachedDecisionQuery} {res:DecisionQueryResult ℤ}

variable {a:QueryAtom} {k:AskKey}

theorem mem_stillNeededAtoms :
  a ∈ stillNeededAtoms host name paramsByUnique cached res ↔
   ∃ u ∈ res.support, atomOf host name paramsByUnique cached u=a := by
 simp only [stillNeededAtoms,atomsOfSet,List.mem_map,TreeSet.mem_toList]

theorem mem_askAtomsMap0 :
  a ∈ ((askAtomsMap0 host name paramsByUnique cached res)[k]?).getD [] ↔
   a ∈ stillNeededAtoms host name paramsByUnique cached res ∧
    k ∈ askKeyDepsForAtom paramsByUnique cached a.unique := by
 rw [askAtomsMap0,mem_addAsks]
 simp only [List.mem_flatMap,List.mem_map,TreeSet.mem_toList,Prod.mk.injEq,
  TreeMap.getElem?_emptyc,Option.getD_none,List.not_mem_nil,or_false]
 constructor
 · rintro ⟨b,hb,k', hk', rfl,rfl⟩
   exact ⟨hb,hk'⟩
 · rintro ⟨ha,hk⟩
   exact ⟨a,ha,k,hk,rfl,rfl⟩

theorem askAtomsMap0_ne_nil (k:AskKey) :
  (askAtomsMap0 host name paramsByUnique cached res)[k]? ≠ some [] :=
 addAsks_ne_nil (by simp)

variable (paramsByUnique cached) in
/-- The key is a whole container, and every needed atom under it is under a part of it too. -/
def LeftToParts (needed:List QueryAtom) (k:AskKey) : Prop :=
 k.2=[] ∧ ∀ a ∈ needed, k ∈ askKeyDepsForAtom paramsByUnique cached a.unique →
  ∃ path, path ≠ [] ∧ (k.1,path) ∈ askKeyDepsForAtom paramsByUnique cached a.unique

theorem covered_askAtomsMap0 {c:String} :
  Covered (askAtomsMap0 host name paramsByUnique cached res) c ↔
   LeftToParts paramsByUnique cached (stillNeededAtoms host name paramsByUnique cached res)
    (c,[]) := by
 simp only [Covered,LeftToParts,mem_askAtomsMap0,true_and,and_imp]
 refine forall₃_congr fun a ha _=>exists_congr fun path=>and_congr_right fun _=>?_
 constructor
 · rintro ⟨b,⟨hb,hk⟩,heq⟩
   exact heq ▸ hk
 · exact fun hk=>⟨a,⟨ha,hk⟩,rfl⟩

theorem getElem?_askAtomsMap {as:List QueryAtom} :
  (askAtomsMap host name paramsByUnique cached res)[k]? = some as ↔
   (askAtomsMap0 host name paramsByUnique cached res)[k]? = some as ∧
    ¬ LeftToParts paramsByUnique cached (stillNeededAtoms host name paramsByUnique cached res)
     k := by
 rw [askAtomsMap,dropContainers_spec askAtomsMap0_ne_nil _ (fun _ _=>rfl) fun _ h=>h]
 refine and_congr_right fun hk=>not_congr ?_
 have hmem:k.1 ∈ (TreeSet.ofList ((askAtomsMap0 host name paramsByUnique cached res).keys.map
   Prod.fst)).toList := by
  rw [TreeSet.mem_toList,TreeSet.mem_ofList,List.contains_iff_mem]
  refine List.mem_map_of_mem ?_
  rw [TreeMap.mem_keys,TreeMap.mem_iff_isSome_getElem?,hk]
  rfl
 obtain ⟨c,path⟩:=k
 constructor
 · rintro ⟨rfl,_,hcovered⟩
   exact covered_askAtomsMap0.mp hcovered
 · intro hleft
   have hpath:path=[]:=hleft.1
   subst hpath
   exact ⟨rfl,hmem,covered_askAtomsMap0.mpr hleft⟩

theorem mem_asksRanked {answered:TreeSet AskKey askOrder} {ask:QueryAsk} :
  ask ∈ asksRanked host name paramsByUnique cached res answered ↔
   ∃ k as, (askAtomsMap host name paramsByUnique cached res)[k]? = some as ∧
    0 < askScore paramsByUnique cached res as ∧ k ∉ answered ∧
    ask=⟨k.1,pathText k.2,k.2,k.1 ++ (pathText k.2).elim "" fun t=> "." ++ t,
     askScore paramsByUnique cached res as,as⟩ := by
 simp only [asksRanked,List.mem_map,List.mem_filter,List.mem_mergeSort,
  decide_eq_true_eq]
 constructor
 · rintro ⟨_,⟨⟨⟨k,as⟩,hmem,rfl⟩,hscore,hk⟩,rfl⟩
   exact ⟨k,as,TreeMap.mem_toList_iff_getElem?_eq_some.mp hmem,hscore,hk,rfl⟩
 · rintro ⟨k,as,hmem,hscore,hk,rfl⟩
   exact ⟨_,⟨⟨(k,as),TreeMap.mem_toList_iff_getElem?_eq_some.mpr hmem,rfl⟩,hscore,hk⟩,rfl⟩

/-- A needed atom is asked for under any key of it that is open and not left to its parts. -/
theorem exists_ask (h:Shrinks res) {answered:TreeSet AskKey askOrder}
  (ha:a ∈ stillNeededAtoms host name paramsByUnique cached res)
  (hk:k ∈ askKeyDepsForAtom paramsByUnique cached a.unique) (hopen:k ∉ answered)
  (hkept:¬ LeftToParts paramsByUnique cached
   (stillNeededAtoms host name paramsByUnique cached res) k) :
  ∃ ask ∈ asksRanked host name paramsByUnique cached res answered,
   (ask.container,ask.path)=k ∧ a ∈ ask.atoms := by
 have hmem:=mem_askAtomsMap0.mpr ⟨ha,hk⟩
 cases has:(askAtomsMap0 host name paramsByUnique cached res)[k]? with
 | none=>simp [has] at hmem
 | some as=>
  rw [has,Option.getD_some] at hmem
  have hscore:0 < askScore paramsByUnique cached res as:=
   score_pos h (List.ne_nil_of_mem hmem)
  exact ⟨_,mem_asksRanked.mpr
   ⟨k,as,getElem?_askAtomsMap.mpr ⟨has,hkept⟩,hscore,hopen,rfl⟩,rfl,hmem⟩

theorem exists_input (h:Shrinks res)
  (ha:a ∈ stillNeededAtoms host name paramsByUnique cached res) {p:ℤ} {label:String}
  (hp:paramsByUnique[p]? = some label) (hroot:∃ ref ∈ a.inputRefs, ref.rootUnique=p) :
  ∃ input ∈ inputsRanked host name paramsByUnique cached res,
   input.inputLabel=label ∧ a ∈ input.atoms := by
 have hmem:a ∈ atomsOfInput host name paramsByUnique cached res p:=by
  refine List.mem_filter.mpr ⟨ha, ?_⟩
  obtain ⟨u,_,rfl⟩:=mem_stillNeededAtoms.mp ha
  obtain ⟨ref,href,rfl⟩:=hroot
  rw [List.contains_iff_mem,atomParamDeps,List.mem_eraseDups,List.mem_filter]
  refine ⟨List.mem_map_of_mem href, ?_⟩
  rw [TreeMap.contains_eq_isSome_getElem?,hp]
  rfl
 have hscore:0 < inputScore host name paramsByUnique cached res p:=
  score_pos h (List.ne_nil_of_mem hmem)
 refine ⟨⟨p,label,inputScore host name paramsByUnique cached res p,_⟩, ?_,rfl,hmem⟩
 simp only [inputsRanked,List.mem_map,List.mem_filter,List.mem_mergeSort,decide_eq_true_eq]
 exact ⟨((p,label),_),
  ⟨⟨(p,label),TreeMap.mem_toList_iff_getElem?_eq_some.mpr hp,rfl⟩,hscore⟩,rfl⟩

theorem label_of_input {input:QueryInput}
  (h:input ∈ inputsRanked host name paramsByUnique cached res) :
  ∃ p : ℤ, paramsByUnique[p]? = some input.inputLabel := by
 simp only [inputsRanked,List.mem_map,List.mem_filter,List.mem_mergeSort] at h
 obtain ⟨_,⟨⟨e,he,rfl⟩,_⟩,rfl⟩:=h
 exact ⟨e.1,TreeMap.mem_toList_iff_getElem?_eq_some.mp he⟩

theorem key_of_ask {answered:TreeSet AskKey askOrder} {ask:QueryAsk}
  (h:ask ∈ asksRanked host name paramsByUnique cached res answered) :
  (ask.container,ask.path) ∉ answered ∧
   ∃ a ∈ stillNeededAtoms host name paramsByUnique cached res,
    (ask.container,ask.path) ∈ askKeyDepsForAtom paramsByUnique cached a.unique := by
 obtain ⟨k,as,has,_,hopen,rfl⟩:=mem_asksRanked.mp h
 have hmap:=(getElem?_askAtomsMap.mp has).1
 have hne:as ≠ []:=by
  rintro rfl
  exact askAtomsMap0_ne_nil k hmap
 obtain ⟨a,as,rfl⟩:=List.exists_cons_of_ne_nil hne
 have hmem:=mem_askAtomsMap0.mp (show a ∈ _ by rw [hmap]; simp)
 exact ⟨hopen,a,hmem⟩

theorem asks_nodup (answered:TreeSet AskKey askOrder) :
  ((asksRanked host name paramsByUnique cached res answered).map fun ask=>
   (ask.container,ask.path)).Nodup := by
 have hkeys:((askAtomsMap host name paramsByUnique cached res).toList.map Prod.fst).Nodup:=by
  refine List.Pairwise.map _ (fun e e' h heq=>h ?_) TreeMap.distinct_keys_toList
  exact askOrder_eq.mpr heq
 simp only [asksRanked,List.map_map]
 refine (List.filter_sublist.map _).nodup (((List.mergeSort_perm _ _).map _).nodup_iff.mpr ?_)
 rw [List.map_map]
 exact hkeys

end Plan

/-! ### Nothing is left unasked -/

section Query

variable {V:Type} [Ord V] [Std.TransOrd V] [Std.LawfulEqOrd V]

theorem nodup_toList (s:TreeSet V) : s.toList.Nodup := by
 refine TreeSet.distinct_toList.imp fun {a b} h heq=>h ?_
 rw [heq]
 exact Std.ReflCmp.compare_self

theorem size_le_of_subset {s t:TreeSet V} (h:∀ x ∈ s, x ∈ t) : s.size ≤ t.size := by
 rw [←TreeSet.length_toList,←TreeSet.length_toList]
 refine (List.subperm_of_subset (nodup_toList s) fun x hx=>?_).length_le
 rw [TreeSet.mem_toList] at hx ⊢
 exact h x hx

theorem answers_shrink {e:BoolExpr V} {bindings:TreeMap V Bool} {v:V} {b:Bool}
  {d d' : Option Bool} {s s' : TreeSet V} (hv:v ∉ bindings) (h:Answers e bindings d s)
  (h' : Answers e (bindings.insert v b) d' s') : ∀ x ∈ s', x ∈ s := by
 intro x hx
 obtain ⟨hbound,σ,τ,hσ,hτ,hne⟩:=(h'.mem_support_iff x).mp hx
 refine (h.mem_support_iff x).mpr ⟨fun hmem=>hbound ?_,σ,τ,fun w c hw=>hσ w c ?_,hτ,hne⟩
 · exact TreeMap.mem_insert.mpr (.inr hmem)
 · rw [TreeMap.getElem?_insert,if_neg]
   · exact hw
   · intro heq
     rw [Std.LawfulEqOrd.eq_of_compare heq] at hv
     exact hv (TreeMap.mem_iff_isSome_getElem?.mpr (by rw [hw]; rfl))

variable {host:Host} {name:String} {paramsByUnique:TreeMap ℤ String}
 {cached:CachedDecisionQuery}

theorem exists_query {order:List ℤ} {e:BoolExpr ℤ}
  (hcompiled:compileDecisionQuery order e=some cached.compiled)
  (horder:∀ v ∈ e.vars, v ∈ order) (bindings:TreeMap ℤ Bool) :
  ∃ res, queryDecision cached.compiled bindings=some res ∧ Shrinks res ∧
   Answers e bindings res.determined res.support := by
 obtain ⟨compiled,n,support,impacts,hcomp,hquery,hanswers,hfst,hall⟩:=
  BooleanDecisionQuery.queryDecision_spec order e horder bindings
 obtain rfl:=Option.some.inj (hcompiled.symm.trans hcomp)
 refine ⟨_,hquery,fun u vi hvi=>?_,hanswers⟩
 have hmem:=BooleanDecisionQuery.mem_of_getElem?_ofList hvi
 have hu:u ∈ support:=by
  rw [←TreeSet.mem_toList,←hfst]
  exact List.mem_map_of_mem hmem
 have hbound:=((hanswers.mem_support_iff u).mp hu).1
 obtain ⟨htrue,hfalse⟩:=hall u vi hmem
 exact ⟨size_le_of_subset (answers_shrink hbound hanswers htrue),
  size_le_of_subset (answers_shrink hbound hanswers hfalse)⟩

/-- The atom has a key that is not answered: one it is asked under, other than a whole container
left to its parts, or a parameter that it refers to. -/
def Askable (paramsByUnique:TreeMap ℤ String) (cached:CachedDecisionQuery)
  (bindings:List (String × Bool)) (needed:List QueryAtom) (a:QueryAtom) : Prop :=
 (∃ k ∈ askKeyDepsForAtom paramsByUnique cached a.unique, k ∉ answeredAskKeys bindings ∧
  ¬ LeftToParts paramsByUnique cached needed k) ∨
 ∃ ref ∈ a.inputRefs, ∃ label, paramsByUnique[ref.rootUnique]? = some label ∧
  (label,[]) ∉ answeredAskKeys bindings

/-- The atom stands in the plan where the answers leave something to ask. -/
def Asked (bindings:List (String × Bool)) (plan:QueryPlanResponse) (a:QueryAtom) : Prop :=
 (∃ ask ∈ plan.asks, a ∈ ask.atoms ∧ (ask.container,ask.path) ∉ answeredAskKeys bindings) ∨
 ∃ input ∈ plan.inputs, a ∈ input.atoms ∧ (input.inputLabel,[]) ∉ answeredAskKeys bindings

/-- What is still needed and can be asked is asked, under keys that all differ; with no asks left,
every key of every needed atom is answered or left to the parts of its container. -/
theorem queryPlan_asks {order:List ℤ} {e:BoolExpr ℤ}
  (hcompiled:compileDecisionQuery order e=some cached.compiled)
  (horder:∀ v ∈ e.vars, v ∈ order) (bindings:List (String × Bool)) :
  ∃ plan, queryPlan host name paramsByUnique cached bindings=some plan ∧
   (∀ a ∈ plan.stillNeeded, Askable paramsByUnique cached bindings plan.stillNeeded a →
    Asked bindings plan a) ∧
   (plan.asks.map fun ask=>(ask.container,ask.path)).Nodup ∧
   (plan.asks=[] → ∀ a ∈ plan.stillNeeded,
    ∀ k ∈ askKeyDepsForAtom paramsByUnique cached a.unique,
     k ∈ answeredAskKeys bindings ∨
      LeftToParts paramsByUnique cached plan.stillNeeded k) := by
 obtain ⟨res,hquery,hshrinks,_⟩:=exists_query hcompiled horder
  (knownBindings host name paramsByUnique cached bindings)
 refine ⟨_,by rw [queryPlan,hquery]; rfl,fun a ha haskable=>?_,asks_nodup _, ?_⟩
 · obtain ⟨k,hk,hopen,hkept⟩ | ⟨ref,href,label,hlabel,hopen⟩:=haskable
   · obtain ⟨ask,hask,heq,hmem⟩:=exists_ask hshrinks ha hk hopen hkept
     exact .inl ⟨ask,hask,hmem,heq ▸ hopen⟩
   · obtain ⟨input,hinput,heq,hmem⟩:=exists_input hshrinks ha hlabel ⟨ref,href,rfl⟩
     exact .inr ⟨input,hinput,hmem,heq ▸ hopen⟩
 · intro hempty a ha k hk
   by_contra hnot
   obtain ⟨hopen,hkept⟩:=not_or.mp hnot
   obtain ⟨ask,hask,_⟩:=exists_ask hshrinks ha hk hopen hkept
   have hnone:ask ∈ ([] : List QueryAsk):=hempty ▸ hask
   cases hnone

end Query

/-! ### An atom of two inputs -/

theorem mem_refsByUnique {cached:CachedDecisionQuery}
  (hclosed:InputRefsClosed.Closed cached.toCachedDecisionQuery) {u:ℤ}
  (hu:u ∈ InputRefs.allUniques cached.toCachedDecisionQuery) {r:InputRef ℤ} :
  r ∈ refsByUnique cached u ↔ InputRefsClosed.Reaches cached.toCachedDecisionQuery u r := by
 obtain ⟨memo,hmemo,heach⟩:=hclosed
 obtain ⟨s,hs,hreach⟩:=heach u hu
 simp only [refsByUnique,hmemo,Option.getD_some,IntMap.findWithDefault,hs,List.mem_map,
  Finset.mem_sort,Finset.mem_image,←hreach]
 constructor
 · rintro ⟨p,⟨r', hr', rfl⟩,rfl⟩
   exact hr'
 · exact fun hr=>⟨_,⟨r,hr,rfl⟩,rfl⟩

/-- `g` of two parameters, which no diagram looks into. -/
def bothQuery (compiled:BooleanDecisionQuery.CompiledDecisionQuery ℤ) : CachedDecisionQuery where
 varLabelByUnique:=.fromList [(1,"g OF p, q")]
 varDepsByUnique:=.empty
 varInputRefsByUnique:=.fromList [(1,{⟨7,[]⟩,⟨8,[]⟩})]
 compiled:=compiled

def bothParams : TreeMap ℤ String := TreeMap.ofList [((7 : ℤ),"p"),(8,"q")]

def bothHost : Host where
 generateNamed _ := "c3a5c1d7-2f0e-5f0b-9d4e-6b1c8a7f2e10"
 readInt _ := none

section Both

variable {compiled:BooleanDecisionQuery.CompiledDecisionQuery ℤ}

theorem deps_both (u:ℤ) : (bothQuery compiled).deps u = ∅ := rfl

theorem closed_both : InputRefsClosed.Closed (bothQuery compiled).toCachedDecisionQuery := by
 refine InputRefsClosed.closed_of_unobstructed
  (InputRefsClosed.unobstructed_of_acyclic fun u d hd=>?_)
 rw [deps_both] at hd
 simp at hd

theorem mem_refs_both {r:InputRef ℤ} :
  r ∈ refsByUnique (bothQuery compiled) 1 ↔ r=⟨7,[]⟩ ∨ r=⟨8,[]⟩ := by
 have hone:(1 : ℤ) ∈ InputRefs.allUniques (bothQuery compiled).toCachedDecisionQuery:=by
  simp [InputRefs.allUniques,bothQuery,IntMap.fromList,IntMap.insert]
 rw [mem_refsByUnique closed_both hone]
 constructor
 · intro h
   obtain h | ⟨d,hd,_⟩:=h.cases
   · have hrefs:(bothQuery compiled).directRefs 1 = {⟨7,[]⟩,⟨8,[]⟩}:=rfl
     simpa [hrefs] using h
   · rw [deps_both] at hd
     simp at hd
 · intro h
   refine .direct ?_
   have hrefs:(bothQuery compiled).directRefs 1 = {⟨7,[]⟩,⟨8,[]⟩}:=rfl
   simpa [hrefs] using h

theorem entries_both : entries (bothQuery compiled).varLabelByUnique=[(1,"g OF p, q")] := by
 have hkeys:(bothQuery compiled).varLabelByUnique.keys = {1}:=rfl
 rw [entries,hkeys,Finset.sort_singleton]
 rfl

theorem mem_keys_both {k:AskKey} :
  k ∈ askKeyDepsForAtom bothParams (bothQuery compiled) 1 ↔ k=("p",[]) ∨ k=("q",[]) := by
 have hlabel:
   ((bothQuery compiled).varLabelByUnique.lookup 1).bind parseProjectionLabel=none := by
  change parseProjectionLabel "g OF p, q" = none
  decide +kernel
 have hp:rootLabel bothParams (bothQuery compiled) 7=some "p":=by
  rfl
 have hq:rootLabel bothParams (bothQuery compiled) 8=some "q":=by
  rfl
 rw [askKeyDepsForAtom,TreeSet.mem_ofList,List.contains_iff_mem,hlabel,Option.elim_none,
  List.append_nil,List.mem_filterMap]
 constructor
 · rintro ⟨r,hr,heq⟩
   obtain rfl | rfl:=mem_refs_both.mp hr
   · rw [hp] at heq
     exact .inl (Option.some.inj heq).symm
   · rw [hq] at heq
     exact .inr (Option.some.inj heq).symm
 · rintro (rfl | rfl)
   · exact ⟨_,mem_refs_both.mpr (.inl rfl),by rw [hp]; rfl⟩
   · exact ⟨_,mem_refs_both.mpr (.inr rfl),by rw [hq]; rfl⟩

theorem leaf_both (ref:InputRef ℤ) : leafUniquesByInputRef (bothQuery compiled) ref=none := by
 have hall:InputRefs.allUniques (bothQuery compiled).toCachedDecisionQuery = {1}:=rfl
 rw [leafUniquesByInputRef,hall,Finset.sort_singleton,List.flatMap_singleton]
 split
 · next r hr=>
   have hrefs:∀ r', r' = ⟨7,[]⟩ ∨ r' = ⟨8,[]⟩ → r' = r:=by
    intro r' hr'
    rw [←mem_refs_both,hr,List.mem_singleton] at hr'
    exact hr'
   have heq:=(hrefs ⟨7,[]⟩ (.inl rfl)).trans (hrefs ⟨8,[]⟩ (.inr rfl)).symm
   cases heq
 · rfl

theorem tryMatchKey_both {k:String} (h:k = "p" ∨ k = "q") :
  tryMatchKey bothHost "f" bothParams (bothQuery compiled) k=none := by
 have hlabels:∀ lbl, labelToUniques (bothQuery compiled) lbl =
   fromListWith [("g OF p, q",[(1 : ℤ)])] lbl := by
  intro lbl
  have hparse:parseProjectionLabel "g OF p, q" = none:=by decide +kernel
  simp only [labelToUniques,entries_both,List.map_cons,List.map_nil,List.filterMap_cons,
   List.filterMap_nil,hparse,Option.map_none]
  cases fromListWith [("g OF p, q",[(1 : ℤ)])] lbl <;> rfl
 have hid:∀ lbl, uniqueByAtomId bothHost "f" bothParams (bothQuery compiled) lbl =
   fromList [("c3a5c1d7-2f0e-5f0b-9d4e-6b1c8a7f2e10",(1 : ℤ))] lbl := by
  intro lbl
  rw [uniqueByAtomId,entries_both]
  rfl
 rw [tryMatchKey,hlabels,hlabels,hid]
 obtain rfl | rfl:=h <;> decide +kernel

theorem known_both {bindings:List (String × Bool)} (h:∀ e ∈ bindings, e.1 = "p" ∨ e.1 = "q") :
  1 ∉ knownBindings bothHost "f" bothParams (bothQuery compiled) bindings := by
 rw [knownBindings,TreeMap.mem_ofList,List.contains_iff_mem,List.mem_map]
 rintro ⟨⟨u,b⟩,hmem,rfl⟩
 obtain ⟨e,he,hu⟩:=List.mem_flatMap.mp hmem
 have hleaf:keyToLeafUniques bothParams (bothQuery compiled) e.1=[]:=by
  rw [keyToLeafUniques]
  simp only [leaf_both,Option.getD_none]
  rw [List.flatMap_eq_nil_iff.mpr fun _ _=>rfl,List.eraseDups_nil]
 rw [tryMatchKey_both (h e he),hleaf] at hu
 simp at hu

theorem query_both {bindings:TreeMap ℤ Bool} (h:1 ∉ bindings) {res:DecisionQueryResult ℤ}
  (hanswers:Answers (.bVar 1) bindings res.determined res.support) :
  res.determined=none ∧ ∀ u, u ∈ res.support ↔ u=1 := by
 have hagrees:∀ b, BooleanDecisionQuery.Agrees bindings fun u=>if u=1 then b else
   (bindings[u]?).getD false := by
  intro b u c hu
  have hne:u ≠ 1:=by
   rintro rfl
   exact h (TreeMap.mem_iff_isSome_getElem?.mpr (by rw [hu]; rfl))
  simp only [hne,if_false,hu,Option.getD_some]
 have heval:∀ σ : ℤ → Bool, (BoolExpr.bVar 1).eval σ=σ 1:=fun _=>rfl
 constructor
 · refine Option.eq_none_iff_forall_ne_some.mpr fun b hb=>?_
   have hall:=(hanswers.determined_iff b).mp hb _ (hagrees !b)
   simp [heval] at hall
 · intro u
   rw [hanswers.mem_support_iff]
   constructor
   · rintro ⟨_,σ,τ,_,hτ,hne⟩
     by_contra hu
     exact hne (by rw [heval,heval,hτ 1 (Ne.symm hu)])
   · rintro rfl
     refine ⟨h,_,fun u=>if u=1 then true else (bindings[u]?).getD false,hagrees false,
      fun y hy=>?_, ?_⟩
     · simp [hy]
     · simp [heval]

end Both

/-- Both inputs of an atom are answered; it is still needed, and nothing is asked. -/
theorem queryPlan_both : ∃ compiled, compileDecisionQuery [1] (.bVar 1)=some compiled ∧
  ∃ plan, queryPlan bothHost "f" bothParams (bothQuery compiled) [("p",true),("q",true)] =
    some plan ∧ plan.determined=none ∧ plan.asks=[] ∧
   ∃ a ∈ plan.stillNeeded, a.inputRefs ≠ [] ∧ ¬ Asked [("p",true),("q",true)] plan a := by
 obtain ⟨compiled,hcompiled,_⟩:=
  BooleanDecisionQuery.compileDecisionQuery_spec [(1 : ℤ)] (.bVar 1) (by simp [BoolExpr.vars])
 obtain ⟨res,hquery,_,hanswers⟩:=@exists_query (bothQuery compiled) [1] _ hcompiled
  (by simp [BoolExpr.vars])
  (knownBindings bothHost "f" bothParams (bothQuery compiled) [("p",true),("q",true)])
 obtain ⟨hdetermined,hsupport⟩:=query_both (known_both (by simp)) hanswers
 have hp:(("p",[]) : AskKey) ∈ answeredAskKeys [("p",true),("q",true)]:=by
  decide +kernel
 have hq:(("q",[]) : AskKey) ∈ answeredAskKeys [("p",true),("q",true)]:=by
  decide +kernel
 have hasks:asksRanked bothHost "f" bothParams (bothQuery compiled) res
   (answeredAskKeys [("p",true),("q",true)])=[] := by
  refine List.eq_nil_iff_forall_not_mem.mpr fun ask hask=>?_
  obtain ⟨hopen,a,ha,hkey⟩:=key_of_ask hask
  obtain ⟨u,hu,rfl⟩:=mem_stillNeededAtoms.mp ha
  obtain rfl:=(hsupport u).mp hu
  obtain hk | hk:=mem_keys_both.mp hkey
  · exact hopen (hk ▸ hp)
  · exact hopen (hk ▸ hq)
 refine ⟨compiled,hcompiled,_,by rw [queryPlan,hquery]; rfl,hdetermined,hasks,
  atomOf bothHost "f" bothParams (bothQuery compiled) 1,
  mem_stillNeededAtoms.mpr ⟨1,(hsupport 1).mpr rfl,rfl⟩, ?_, ?_⟩
 · exact List.ne_nil_of_mem (mem_refs_both.mpr (.inl rfl))
 · rintro (⟨ask,hask,_⟩ | ⟨input,hinput,_,hopen⟩)
   · change ask ∈ asksRanked bothHost "f" bothParams (bothQuery compiled) res _ at hask
     rw [hasks] at hask
     cases hask
   · obtain ⟨p,hlabel⟩:=label_of_input hinput
     have hmem:=BooleanDecisionQuery.mem_of_getElem?_ofList hlabel
     simp only [List.mem_cons,Prod.mk.injEq,List.not_mem_nil,or_false] at hmem
     obtain ⟨_,heq⟩ | ⟨_,heq⟩:=hmem
     · rw [heq] at hopen
       exact hopen hp
     · rw [heq] at hopen
       exact hopen hq

/-- With one of the inputs answered, the atom is asked under the other. -/
theorem queryPlan_asks_both : ∃ compiled, compileDecisionQuery [1] (.bVar 1)=some compiled ∧
  ∃ plan, queryPlan bothHost "f" bothParams (bothQuery compiled) [("p",true)]=some plan ∧
   ∃ a ∈ plan.stillNeeded, Asked [("p",true)] plan a := by
 obtain ⟨compiled,hcompiled,_⟩:=
  BooleanDecisionQuery.compileDecisionQuery_spec [(1 : ℤ)] (.bVar 1) (by simp [BoolExpr.vars])
 obtain ⟨res,hquery,_,hanswers⟩:=@exists_query (bothQuery compiled) [1] _ hcompiled
  (by simp [BoolExpr.vars])
  (knownBindings bothHost "f" bothParams (bothQuery compiled) [("p",true)])
 have hsupport:=(query_both (known_both (by simp)) hanswers).2
 obtain ⟨plan,hplan,hasked,_⟩:=@queryPlan_asks bothHost "f" bothParams (bothQuery compiled)
  [1] _ hcompiled (by simp [BoolExpr.vars]) [("p",true)]
 have hneeded:plan.stillNeeded =
   stillNeededAtoms bothHost "f" bothParams (bothQuery compiled) res := by
  rw [queryPlan,hquery] at hplan
  rw [←Option.some.inj hplan]
 have hmem:atomOf bothHost "f" bothParams (bothQuery compiled) 1 ∈ plan.stillNeeded:=by
  rw [hneeded]
  exact mem_stillNeededAtoms.mpr ⟨1,(hsupport 1).mpr rfl,rfl⟩
 refine ⟨compiled,hcompiled,plan,hplan,_,hmem,hasked _ hmem (.inl ⟨("q",[]), ?_⟩)⟩
 refine ⟨mem_keys_both.mpr (.inr rfl),by decide +kernel,fun hleft=>?_⟩
 obtain ⟨path,hpath,hkey⟩:=hleft.2 _ hmem (mem_keys_both.mpr (.inr rfl))
 obtain hk | hk:=mem_keys_both.mp hkey <;> exact hpath (congrArg Prod.snd hk)

end L4Ide.QueryPlan
