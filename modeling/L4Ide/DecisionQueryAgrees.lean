import L4Ide.DecisionQuery
import L4Ide.BooleanDecisionQueryCorrect

set_option autoImplicit false

/-!
# The two query engines agree

The ladder's query compiles to the nodes that the query planner's compiles to, and keeps a diagram
that stands for the ladder whatever it was asked before. What both answer is fixed by the
assignments alone.
-/
namespace L4Ide.DecisionQueryAgrees
open Std (TreeMap TreeSet)
open Ladder Robdd DecisionQuery
open BooleanDecisionQuery (BoolExpr BoolFun Bdd Op Represents Answers Agrees varsAll pull
 assignment compile_built compileAll_built apply_built neg_built)

abbrev boolExpr (e:IRExpr) : BoolExpr ℤ := (vizExprToBoolExpr e).1

abbrev boolExprs (es:List IRExpr) : List (BoolExpr ℤ) := (vizExprsToBoolExprs es).1

/-! ## Compilation -/

section Compile
variable (index:TreeMap ℤ ℕ)

mutual

theorem compile_eq : ∀ (e:IRExpr) (r:ROBDD), containsApp e=false → r.toBdd.Wf →
  (∀ v ∈ (boolExpr e).vars, ∃ i, index[v]? = some i) →
  compile index e r=(BooleanDecisionQuery.compile index (boolExpr e) r.toBdd).map r.keep
 | .trueE _ _, _, _, _, _=>rfl
 | .falseE _ _, _, _, _, _=>rfl
 | .uBoolVar _ name, r, _, _, h=>by
  obtain ⟨i,hidx⟩:=h name.unique (List.mem_singleton_self _)
  simp only [compile,boolExpr,vizExprToBoolExpr,BooleanDecisionQuery.compile,hidx]
  rfl
 | .not_ _ negand, r, happ, hw, h=>by
  obtain ⟨p,eq1,b1⟩:=compile_built index (boolExpr negand) hw h
  have ih:=compile_eq negand r happ hw h
  simp only [compile,boolExpr,vizExprToBoolExpr,BooleanDecisionQuery.compile] at ih ⊢
  rw [ih,eq1]
  rfl
 | .and_ _ args, r, happ, hw, h=>
  reduce_eq .opAnd args 1 r happ hw (BooleanDecisionQuery.represents_one r.toBdd) h
 | .or_ _ args, r, happ, hw, h=>
  reduce_eq .opOr args 0 r happ hw (BooleanDecisionQuery.represents_zero r.toBdd) h
 | .inertE _ _ .inertCtxAnd, _, _, _, _=>rfl
 | .inertE _ _ .inertCtxOr, _, _, _, _=>rfl
 | .inertE _ _ .inertCtxNone, _, _, _, _=>rfl

theorem reduce_eq (op:Op) : ∀ (es:List IRExpr) (acc:ℕ) (r:ROBDD) {f:BoolFun},
  containsAppEach es=false → r.toBdd.Wf → Represents r.toBdd acc f →
  (∀ v ∈ varsAll (boolExprs es), ∃ i, index[v]? = some i) →
  reduce index op es acc r =
   (BooleanDecisionQuery.compileAll index op (boolExprs es) acc r.toBdd).map r.keep
 | [], _, _, _, _, _, _, _=>rfl
 | e::es, acc, r, f, happ, hw, hacc, h=>by
  obtain ⟨hhead,htail⟩:=Bool.or_eq_false_iff.1 happ
  have he:∀ v ∈ (boolExpr e).vars, ∃ i, index[v]? = some i:=
   fun v hv=>h v (List.mem_append_left _ hv)
  have hes:∀ v ∈ varsAll (boolExprs es), ∃ i, index[v]? = some i:=
   fun v hv=>h v (List.mem_append_right _ hv)
  obtain ⟨⟨n,bdd1⟩,eq1,b1⟩:=compile_built index (boolExpr e) hw he
  obtain ⟨⟨acc', bdd2⟩,eq2,b2⟩:=apply_built op b1.wf (hacc.mono b1.extends_) b1.represents
  have ih:=reduce_eq op es acc' (r.keep (acc', bdd2)).2 htail b2.wf b2.represents hes
  have happly:apply op acc n (r.keep (n,bdd1)).2=some (r.keep (acc', bdd2)):=by
   rw [apply_eq op b1.wf (hacc.mono b1.extends_) b1.represents]
   exact congrArg (Option.map _) eq2
  simp only [boolExprs,vizExprsToBoolExprs,reduce,BooleanDecisionQuery.compileAll,
   compile_eq e r hhead hw he,eq1,Option.map_some,Option.bind_eq_bind,Option.bind_some]
  change ((apply op acc n (r.keep (n,bdd1)).2).bind fun p=>reduce index op es p.1 p.2) =
   ((BooleanDecisionQuery.apply op acc n bdd1).bind fun p=>
    BooleanDecisionQuery.compileAll index op (boolExprs es) p.1 p.2).map r.keep
  rw [happly,eq2]
  exact ih

end

end Compile

mutual

theorem collectVarOrderGo_spec : ∀ (e:IRExpr) (out:List ℤ), containsApp e=false →
  out.Nodup → ∃ out', collectVarOrderGo e out=some out' ∧ out'.Nodup ∧
   ∀ v, v ∈ out' ↔ v ∈ out ∨ v ∈ (boolExpr e).vars
 | .trueE _ _, out, _, hd=>⟨out,rfl,hd,fun v=>(or_iff_left List.not_mem_nil).symm⟩
 | .falseE _ _, out, _, hd=>⟨out,rfl,hd,fun v=>(or_iff_left List.not_mem_nil).symm⟩
 | .uBoolVar _ name, out, _, hd=>by
  by_cases h:name.unique ∈ out
  · refine ⟨out,by rw [collectVarOrderGo,if_pos h],hd,fun v=>?_⟩
    refine (or_iff_left_of_imp fun hv=>?_).symm
    rwa [List.mem_singleton.1 hv]
  · refine ⟨out ++ [name.unique],by rw [collectVarOrderGo,if_neg h], ?_,fun v=>
     List.mem_append⟩
    exact List.nodup_append.2 ⟨hd,List.nodup_singleton _,fun a ha b hb hab=>
     h (List.mem_singleton.1 hb ▸ hab ▸ ha)⟩
 | .not_ _ negand, out, happ, hd=>collectVarOrderGo_spec negand out happ hd
 | .and_ _ args, out, happ, hd=>collectVarOrderEach_spec args out happ hd
 | .or_ _ args, out, happ, hd=>collectVarOrderEach_spec args out happ hd
 | .inertE _ _ .inertCtxAnd, out, _, hd=>
  ⟨out,rfl,hd,fun v=>(or_iff_left List.not_mem_nil).symm⟩
 | .inertE _ _ .inertCtxOr, out, _, hd=>
  ⟨out,rfl,hd,fun v=>(or_iff_left List.not_mem_nil).symm⟩
 | .inertE _ _ .inertCtxNone, out, _, hd=>
  ⟨out,rfl,hd,fun v=>(or_iff_left List.not_mem_nil).symm⟩

theorem collectVarOrderEach_spec : ∀ (es:List IRExpr) (out:List ℤ),
  containsAppEach es=false → out.Nodup → ∃ out', collectVarOrderEach es out=some out' ∧
   out'.Nodup ∧ ∀ v, v ∈ out' ↔ v ∈ out ∨ v ∈ varsAll (boolExprs es)
 | [], out, _, hd=>⟨out,rfl,hd,fun v=>(or_iff_left List.not_mem_nil).symm⟩
 | e::es, out, happ, hd=>by
  obtain ⟨hhead,htail⟩:=Bool.or_eq_false_iff.1 happ
  obtain ⟨out1,eq1,hd1,hmem1⟩:=collectVarOrderGo_spec e out hhead hd
  obtain ⟨out2,eq2,hd2,hmem2⟩:=collectVarOrderEach_spec es out1 htail hd1
  refine ⟨out2,by rw [collectVarOrderEach,eq1,Option.bind_some,eq2],hd2,fun v=>?_⟩
  rw [hmem2,hmem1,or_assoc]
  exact or_congr_right List.mem_append.symm

end

/-! ## Sorted supports -/

theorem nodup_eraseDups : ∀ l : List ℤ, l.eraseDups.Nodup
 | []=>List.nodup_nil
 | a::l=>by
  rw [List.eraseDups_cons,List.nodup_cons]
  refine ⟨fun h=>?_,nodup_eraseDups _⟩
  have hmem:=List.mem_eraseDups.1 h
  simp at hmem
 termination_by l=>l.length
 decreasing_by exact Nat.lt_succ_of_le (List.length_filter_le _ l)

theorem uniqSorted_eq (l:List ℤ) : uniqSorted l=(TreeSet.ofList l).toList := by
 have hset:(TreeSet.ofList l).toList.Pairwise fun a b=>a < b:=
  TreeSet.ordered_toList.imp fun h=>compare_lt_iff_lt.1 h
 refine @List.Perm.eq_of_pairwise _ (fun a b=>a ≤ b) _ _ (fun a b _ _=>le_antisymm) ?_
  (hset.imp fun h=>h.le) ?_
 · refine (List.pairwise_mergeSort (fun a b c hab hbc=>?_) (fun a b=>?_) _).imp
    fun h=>of_decide_eq_true h
   · have hab:=of_decide_eq_true hab
     have hbc:=of_decide_eq_true hbc
     exact decide_eq_true (hab.trans hbc)
   · rcases le_total a b with h | h
     · simp [h]
     · simp [h]
 · refine (List.mergeSort_perm _ _).trans ?_
   refine (List.perm_ext_iff_of_nodup (nodup_eraseDups l) (hset.imp fun h=>h.ne)).2 fun a=>?_
   rw [List.mem_eraseDups,TreeSet.mem_toList,TreeSet.mem_ofList,List.contains_iff_mem]

/-- An outcome of the ladder's query is right for the expression under the bindings. -/
def Meets (e:BoolExpr ℤ) (bindings:TreeMap ℤ Bool) (o:QueryOutcome) : Prop :=
 ∃ s : TreeSet ℤ, o.support=s.toList ∧ Answers e bindings o.determined s

theorem toList_congr {K:Type} [Ord K] [Std.TransOrd K] [Std.LawfulEqOrd K] {s t:TreeSet K}
  (h:∀ x, x ∈ s ↔ x ∈ t) : s.toList=t.toList :=
 TreeSet.equiv_iff_toList_eq.1 (TreeSet.Equiv.of_forall_mem_iff h)

theorem Meets.unique {e:BoolExpr ℤ} {bindings:TreeMap ℤ Bool} {o:QueryOutcome}
  {determined:Option Bool} {support:TreeSet ℤ} (ho:Meets e bindings o)
  (h:Answers e bindings determined support) :
  o.determined=determined ∧ o.support=support.toList := by
 obtain ⟨s,hs,hans⟩:=ho
 constructor
 · apply Option.ext
   intro b
   rw [hans.determined_iff,h.determined_iff]
 · rw [hs]
   apply toList_congr
   intro x
   rw [hans.mem_support_iff,h.mem_support_iff]

/-! ## What a query keeps -/

/-- The query stands for the expression, read through the indices of the order. -/
structure Serves (c:CompiledDecisionQuery) (order:List ℤ) (e:BoolExpr ℤ) : Prop where
 varOrder : c.varOrder=order
 index : c.uniqueToVarIndex=TreeMap.ofList order.zipIdx
 wf : c.bdd.Wf
 root : Represents c.bdd.toBdd c.root fun ρ=>e.eval (pull c.uniqueToVarIndex ρ)

def twin (c:CompiledDecisionQuery) : BooleanDecisionQuery.CompiledDecisionQuery ℤ where
 varOrder:=c.varOrder
 vToIdx:=c.uniqueToVarIndex
 idxToV:=TreeMap.ofList (c.varOrder.zipIdx.map Prod.swap)
 root:=c.root
 bdd:=c.bdd.toBdd

theorem compileDecisionQuery_serves {expr:IRExpr} {order:List ℤ}
  (happ:containsApp expr=false) (horder:∀ v ∈ (boolExpr expr).vars, v ∈ order) :
  ∃ c, compileDecisionQuery expr order=some c ∧ Serves c order (boolExpr expr) := by
 have hidx:∀ v ∈ (boolExpr expr).vars, ∃ i, (TreeMap.ofList order.zipIdx)[v]? = some i:=
  fun v hv=>BooleanDecisionQuery.exists_vToIdx (horder v hv)
 have hw:emptyRobdd.toBdd.Wf:=BooleanDecisionQuery.emptyBdd_wf
 obtain ⟨p,eq,b⟩:=compile_built (TreeMap.ofList order.zipIdx) (boolExpr expr) hw hidx
 have hkept:=emptyRobdd_wf.keep b
 have hcomp:=compile_eq (TreeMap.ofList order.zipIdx) expr emptyRobdd happ hw hidx
 rw [eq] at hcomp
 let c:CompiledDecisionQuery:=
  { varOrder:=order
    uniqueToVarIndex:=TreeMap.ofList order.zipIdx
    root:=p.1
    bdd:=(emptyRobdd.keep p).2 }
 refine ⟨c, ?_,⟨rfl,rfl,hkept.wf,hkept.represents⟩⟩
 simp only [compileDecisionQuery,hcomp,Option.map_some,Option.bind_eq_bind,Option.bind_some]
 rfl

section Serve
variable {c:CompiledDecisionQuery} {order:List ℤ} {e:BoolExpr ℤ} (hs:Serves c order e)
 (he:∀ v ∈ e.vars, v ∈ order)
include hs

theorem Serves.indexed : (twin c).Indexed order where
 vToIdx:=hs.index
 idxToV := by
  rw [twin,hs.varOrder]

include he

theorem Serves.outcome {bindings:TreeMap ℤ Bool} {r:ROBDD} (hw:r.toBdd.Wf) {n:ℕ}
  (hn:Represents r.toBdd n fun ρ=>e.eval (assignment c.uniqueToVarIndex bindings ρ)) :
  ∃ o, outcomeFromRestricted c n r=some o ∧ Meets e bindings o := by
 obtain ⟨o,ho,hans⟩:=BooleanDecisionQuery.answers_of_represents hs.indexed he hw hn
 obtain ⟨vars,hvars,hmem⟩:=support_spec hw hn
 obtain ⟨idxs,hidxs,hmem'⟩:=BooleanDecisionQuery.support_spec hw hn
 have hsame:vars.toList=idxs.toList:=toList_congr fun x=>(hmem x).trans (hmem' x).symm
 have hread:(fun i:ℕ=>c.varOrder[i]?) = fun i=>(twin c).idxToV[i]?:=by
  funext i
  apply Option.ext
  intro v
  exact BooleanDecisionQuery.idxToV_iff.symm
 have houtcome:o=⟨BooleanDecisionQuery.determinedFromRoot n,(twin c).supportVs idxs⟩:=by
  simp only [BooleanDecisionQuery.CompiledDecisionQuery.outcomeOf,hidxs,Option.bind_eq_bind,
   Option.bind_some] at ho
  exact (Option.some.inj ho).symm
 have hdet:isDeterminedId n=BooleanDecisionQuery.determinedFromRoot n:=by
  rcases n with _ | _ | n
  · rfl
  · rfl
  · rfl
 refine ⟨⟨isDeterminedId n,((twin c).supportVs idxs).toList⟩, ?_,(twin c).supportVs idxs,rfl, ?_⟩
 · rw [outcomeFromRestricted,supportFromRestricted,hvars,Option.map_some,uniqSorted_eq,hsame,
    hread]
   rfl
 · rw [houtcome] at hans
   rw [hdet]
   exact hans

/-- Each variable of the support is tried both ways, and the diagram stays what it was. -/
theorem Serves.impacts {bindings:TreeMap ℤ Bool} {n:ℕ} (us:List ℤ)
  (hus:∀ u ∈ us, u ∉ bindings ∧ ∃ i, c.uniqueToVarIndex[u]? = some i)
  (impact:TreeMap ℤ VarImpact) {r:ROBDD} (hw:r.Wf)
  (hn:Represents r.toBdd n fun ρ=>e.eval (assignment c.uniqueToVarIndex bindings ρ)) :
  ∃ impact' r', DecisionQuery.impacts c n us impact r=some (impact', r') ∧ r'.Wf ∧
   r.toBdd.Extends r'.toBdd ∧ (∀ u, u ∈ impact' ↔ u ∈ impact ∨ u ∈ us) ∧
   ∀ u vi, impact'[u]? = some vi → impact[u]? = some vi ∨
    Meets e (bindings.insert u true) vi.ifTrue ∧
    Meets e (bindings.insert u false) vi.ifFalse := by
 induction us generalizing impact r with
 | nil=>exact ⟨impact,r,rfl,hw,.refl _,fun u=>by simp,fun u vi h=>Or.inl h⟩
 | cons u us ih=>
  obtain ⟨hfree,i,hidx⟩:=hus u List.mem_cons_self
  have htry:∀ (b:Bool) {r:ROBDD}, r.Wf →
    (Represents r.toBdd n fun ρ=>e.eval (assignment c.uniqueToVarIndex bindings ρ)) →
    ∃ p, restrict n (TreeMap.ofList [(i,b)]) r=some p ∧
     Kept r (fun ρ=>e.eval (assignment c.uniqueToVarIndex (bindings.insert u b) ρ)) p := by
   intro b r hw hn
   obtain ⟨p,hp,hkept⟩:=restrict_kept (TreeMap.ofList [(i,b)]) hw hn
   refine ⟨p,hp,hkept.congr fun ρ=>?_⟩
   have hone:override (TreeMap.ofList [(i,b)]) ρ=Function.update ρ i b:=by
    funext j
    rw [override,TreeMap.ofList_singleton,TreeMap.getElem?_insert]
    by_cases hj:j=i
    · subst hj
      simp
    · simp [hj,Ne.symm hj]
   have hassign:=hs.indexed.assignment_insert hidx hfree ρ b
   exact congrArg e.eval ((congrArg _ hone).trans hassign)
  obtain ⟨⟨withTrue,r1⟩,eq1,k1⟩:=htry true hw hn
  obtain ⟨⟨withFalse,r2⟩,eq2,k2⟩:=htry false k1.wf (hn.mono k1.extends_)
  obtain ⟨ifTrue,eqT,hT⟩:=hs.outcome he k2.wf.bdd (k1.represents.mono k2.extends_)
  obtain ⟨ifFalse,eqF,hF⟩:=hs.outcome he k2.wf.bdd k2.represents
  have hext:=k1.extends_.trans k2.extends_
  obtain ⟨impact', r', eq,hw', hext', hmem,hall⟩:=ih
   (fun v hv=>hus v (List.mem_cons_of_mem _ hv)) (impact.insert u ⟨ifTrue,ifFalse⟩) k2.wf
   (hn.mono hext)
  refine ⟨impact', r', ?_,hw', hext.trans hext', fun v=>?_,fun v vi hv=>?_⟩
  · simp only [DecisionQuery.impacts,hidx,eq1,eq2,eqT,eqF,eq,Option.bind_eq_bind,
     Option.bind_some]
  · rw [hmem,TreeMap.mem_insert,Std.compare_eq_iff_eq,List.mem_cons]
    tauto
  · rcases hall v vi hv with h | h
    · rw [TreeMap.getElem?_insert] at h
      split_ifs at h with heq
      · obtain rfl:=Std.LawfulEqOrd.eq_of_compare heq
        obtain rfl:=Option.some.inj h
        exact Or.inr ⟨hT,hF⟩
      · exact Or.inl h
    · exact Or.inr h

theorem Serves.query (bindings:TreeMap ℤ Bool) :
  ∃ result c', DecisionQuery.query c bindings=some (result,c') ∧ Serves c' order e ∧
   Meets e bindings ⟨result.determined,result.support⟩ ∧
   result.ranked=rank c result.support result.impact ∧
   (∀ u, u ∈ result.impact ↔ u ∈ result.support) ∧
   ∀ u vi, result.impact[u]? = some vi →
    Meets e (bindings.insert u true) vi.ifTrue ∧
    Meets e (bindings.insert u false) vi.ifFalse := by
 obtain ⟨⟨n,r1⟩,eq1,k1⟩:=restrict_kept (idxBindings c bindings) hs.wf hs.root
 have hn:Represents r1.toBdd n fun ρ=>
   e.eval (assignment c.uniqueToVarIndex bindings ρ) := by
  refine k1.represents.congr fun ρ=>e.eval_congr fun v hv=>?_
  obtain ⟨i,hidx⟩:=hs.indexed.exists_idx (he v hv)
  have hbound:(idxBindings c bindings)[i]? = bindings[v]?:=
   hs.indexed.getElem?_idxBindings bindings hidx
  have hidx:c.uniqueToVarIndex[v]? = some i:=hidx
  simp only [pull,assignment,override,hidx,hbound]
 obtain ⟨o,ho,hmeets⟩:=hs.outcome he k1.wf.bdd hn
 obtain ⟨support,hsupp,rfl⟩:=Option.map_eq_some_iff.1 ho
 have hfree:∀ u ∈ support, u ∉ bindings ∧ ∃ i, c.uniqueToVarIndex[u]? = some i:=by
  intro u hu
  obtain ⟨s,hsame,hans⟩:=hmeets
  obtain ⟨hb,σ,τ,-,hτ,hne⟩:=(hans.mem_support_iff u).1 (TreeSet.mem_toList.1 (hsame ▸ hu))
  refine ⟨hb,hs.indexed.exists_idx (he u ?_)⟩
  by_contra hu
  refine hne (e.eval_congr fun v hv=>hτ v ?_)
  rintro rfl
  exact hu hv
 obtain ⟨impact,r2,eq2,hw2,hext,hmem,hall⟩:=hs.impacts he support hfree ∅ k1.wf hn
 let result:DecisionQueryResult:=
  { determined:=isDeterminedId n
    support
    ranked:=rank c support impact
    impact
    stats:={ nodes:=r2.nextId,support:=support.length } }
 refine ⟨result,{ c with bdd:=r2 }, ?_,⟨hs.varOrder,hs.index,hw2,
  hs.root.mono (k1.extends_.trans hext)⟩,hmeets,rfl,fun u=>?_,fun u vi h=>?_⟩
 · simp only [DecisionQuery.query,eq1,hsupp,eq2,Option.bind_eq_bind,Option.bind_some]
   rfl
 · exact (hmem u).trans (or_iff_right TreeMap.not_mem_emptyc)
 · rcases hall u vi h with h | h
   · simp at h
   · exact h

theorem Serves.queries (earlier:List (TreeMap ℤ Bool)) :
  ∃ c', DecisionQuery.queries earlier c=some c' ∧ Serves c' order e := by
 induction earlier generalizing c with
 | nil=>exact ⟨c,rfl,hs⟩
 | cons bindings earlier ih=>
  obtain ⟨result,c1,eq1,hs1,-⟩:=hs.query he bindings
  obtain ⟨c2,eq2,hs2⟩:=ih hs1
  refine ⟨c2, ?_,hs2⟩
  simp only [DecisionQuery.queries,eq1,eq2,Option.bind_eq_bind,Option.bind_some]

end Serve

/-! ## Agreement -/

structure SameOutcome (o:QueryOutcome) (p:BooleanDecisionQuery.QueryOutcome ℤ) : Prop where
 determined : o.determined=p.determined
 support : o.support=p.support.toList

/-- Two results say the same: the answer, the support in order, the ranking, and what either
    value of a variable of the support would settle. -/
structure SameResult (q:DecisionQueryResult) (r:BooleanDecisionQuery.DecisionQueryResult ℤ) :
  Prop where
 determined : q.determined=r.determined
 support : q.support=r.support.toList
 ranked : q.ranked=r.ranked
 impact : ∀ u ∈ q.support, ∃ vi wi, q.impact[u]? = some vi ∧ r.impact[u]? = some wi ∧
  SameOutcome vi.ifTrue wi.ifTrue ∧ SameOutcome vi.ifFalse wi.ifFalse
 noImpact : ∀ u, u ∉ q.support → q.impact[u]? = none ∧ r.impact[u]? = none

theorem rank_eq {c:CompiledDecisionQuery} {compiled:BooleanDecisionQuery.CompiledDecisionQuery ℤ}
  (hindex:c.uniqueToVarIndex=compiled.vToIdx) {support:TreeSet ℤ}
  {impact:TreeMap ℤ VarImpact} {impactMap:TreeMap ℤ (BooleanDecisionQuery.VarImpact ℤ)}
  (hcount:∀ u ∈ support, determinableCount impact u =
   BooleanDecisionQuery.determinableCount impactMap u) :
  rank c support.toList impact=compiled.rankedVars impactMap support := by
 have hscore:∀ u ∈ support, score c impact u =
   (-(BooleanDecisionQuery.determinableCount impactMap u : ℤ),compiled.level u) := by
  intro u hu
  rw [score,hcount u hu,hindex]
  rfl
 have hcompare:∀ a ∈ support, ∀ b ∈ support,
   (if (score c impact a).1 ≠ (score c impact b).1 then
    decide ((score c impact a).1 ≤ (score c impact b).1)
   else decide ((score c impact a).2 ≤ (score c impact b).2)) =
   decide (BooleanDecisionQuery.determinableCount impactMap b <
     BooleanDecisionQuery.determinableCount impactMap a ∨
    BooleanDecisionQuery.determinableCount impactMap b =
     BooleanDecisionQuery.determinableCount impactMap a ∧
    compiled.level a ≤ compiled.level b) := by
  intro a ha b hb
  rw [hscore a ha,hscore b hb]
  by_cases hab:BooleanDecisionQuery.determinableCount impactMap a =
    BooleanDecisionQuery.determinableCount impactMap b
  · simp [hab]
  · have hne:(-(BooleanDecisionQuery.determinableCount impactMap a : ℤ)) ≠
      -(BooleanDecisionQuery.determinableCount impactMap b : ℤ) := by omega
    rw [if_pos hne,decide_eq_decide]
    omega
 rw [rank,BooleanDecisionQuery.CompiledDecisionQuery.rankedVars]
 refine (List.map_id _).symm.trans ((List.map_mergeSort fun a ha b hb=>?_).trans
  (congrArg (fun l=>List.mergeSort l _) (List.map_id _)))
 exact hcompare a (TreeSet.mem_toList.1 ha) b (TreeSet.mem_toList.1 hb)

theorem query_agrees (expr:IRExpr) (happ:containsApp expr=false) (order:List ℤ)
  (horder:∀ v ∈ (boolExpr expr).vars, v ∈ order) (earlier:List (TreeMap ℤ Bool))
  (bindings:TreeMap ℤ Bool) :
  ∃ c c' c'' result compiled result', compileDecisionQuery expr order=some c ∧
   queries earlier c=some c' ∧ query c' bindings=some (result,c'') ∧
   BooleanDecisionQuery.compileDecisionQuery order (vizExprToBoolExpr expr).1=some compiled ∧
   BooleanDecisionQuery.queryDecision compiled bindings=some result' ∧
   SameResult result result' := by
 obtain ⟨c,hc,hs⟩:=compileDecisionQuery_serves happ horder
 obtain ⟨c', hc', hs'⟩:=hs.queries horder earlier
 obtain ⟨result,c'', hq,-,hmeets,hranked,hmem,hall⟩:=hs'.query horder bindings
 obtain ⟨compiled,n,support,impacts,hcomp,hquery,hans,hfst,himp⟩:=
  BooleanDecisionQuery.queryDecision_spec order (boolExpr expr) horder bindings
 obtain ⟨compiled', hcomp', hindexed,-⟩:=
  BooleanDecisionQuery.compileDecisionQuery_spec order (boolExpr expr) horder
 obtain rfl:=Option.some.inj (hcomp.symm.trans hcomp')
 obtain ⟨hdet,hsupp⟩:=hmeets.unique hans
 have hkeys:∀ u, u ∈ TreeMap.ofList impacts ↔ u ∈ support:=by
  intro u
  rw [TreeMap.mem_ofList,List.contains_iff_mem,hfst,TreeSet.mem_toList]
 have hsupp:result.support=support.toList:=hsupp
 have hlisted:∀ u, u ∈ result.support ↔ u ∈ support:=by
  intro u
  rw [hsupp,TreeSet.mem_toList]
 have himpact:∀ u ∈ result.support, ∃ vi wi, result.impact[u]? = some vi ∧
   (TreeMap.ofList impacts)[u]? = some wi ∧ SameOutcome vi.ifTrue wi.ifTrue ∧
   SameOutcome vi.ifFalse wi.ifFalse := by
  intro u hu
  have hvi:=TreeMap.getElem?_eq_some_getElem ((hmem u).2 hu)
  have hwi:=TreeMap.getElem?_eq_some_getElem ((hkeys u).2 ((hlisted u).1 hu))
  obtain ⟨hT,hF⟩:=hall u _ hvi
  obtain ⟨hT', hF'⟩:=himp u _ (BooleanDecisionQuery.mem_of_getElem?_ofList hwi)
  exact ⟨_,_,hvi,hwi,⟨(hT.unique hT').1,(hT.unique hT').2⟩,
   ⟨(hF.unique hF').1,(hF.unique hF').2⟩⟩
 refine ⟨c,c', c'', result,compiled,_,hc,hc', hq,hcomp,hquery,
  ⟨hdet,hsupp, ?_,himpact,fun u hu=>⟨?_, ?_⟩⟩⟩
 · rw [hranked,hsupp]
   refine rank_eq (hs'.index.trans hindexed.vToIdx.symm) fun u hu=>?_
   obtain ⟨vi,wi,hvi,hwi,hT,hF⟩:=himpact u ((hlisted u).2 hu)
   simp only [determinableCount,BooleanDecisionQuery.determinableCount,hvi,hwi,hT.determined,
    hF.determined]
 · exact TreeMap.getElem?_eq_none fun h=>hu ((hmem u).1 h)
 · exact TreeMap.getElem?_eq_none fun h=>hu ((hlisted u).2 ((hkeys u).1 h))

/-- `a AND NOT (b OR "as the case may be" OR a)`. -/
def caseRule : IRExpr :=
 .and_ 1 [.uBoolVar 2 ⟨20,"a"⟩,.not_ 3 (.or_ 4 [.uBoolVar 5 ⟨10,"b"⟩,
  .inertE 6 "as the case may be" .inertCtxOr,.uBoolVar 7 ⟨20,"a"⟩])]

theorem containsApp_caseRule : containsApp caseRule=false := rfl

theorem vars_caseRule : ∀ v ∈ (boolExpr caseRule).vars, v ∈ [(20 : ℤ),10] := by
 decide +kernel

theorem query_agrees_caseRule :
  containsApp caseRule=false ∧ (∀ v ∈ (boolExpr caseRule).vars, v ∈ [(20 : ℤ),10]) ∧
   ∃ c c' c'' result compiled result', compileDecisionQuery caseRule [20,10]=some c ∧
    queries [TreeMap.ofList [((20 : ℤ),true)]] c=some c' ∧
    query c' (TreeMap.ofList [((10 : ℤ),true)])=some (result,c'') ∧
    BooleanDecisionQuery.compileDecisionQuery [20,10] (vizExprToBoolExpr caseRule).1 =
     some compiled ∧
    BooleanDecisionQuery.queryDecision compiled (TreeMap.ofList [((10 : ℤ),true)])=some result' ∧
    SameResult result result' := by
 have hquery:=query_agrees caseRule containsApp_caseRule [20,10] vars_caseRule
  [TreeMap.ofList [((20 : ℤ),true)]] (TreeMap.ofList [((10 : ℤ),true)])
 exact ⟨containsApp_caseRule,vars_caseRule,hquery⟩

end L4Ide.DecisionQueryAgrees
