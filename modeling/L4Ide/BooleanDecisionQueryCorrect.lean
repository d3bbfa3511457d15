import L4Ide.BooleanDecisionQueryStore
import Mathlib.Data.List.Induction

set_option autoImplicit false

/-!
# Query plans are sound and complete

The compiled diagram represents the expression read through the variable
indices, a restriction represents it under the bindings, and canonicity turns
the two reads of the root into answers about every assignment.
-/
namespace L4Ide.BooleanDecisionQuery
open Std (TreeMap TreeSet)
open DecisionTree.Tree (DependsOn)

section Eval
variable {V:Type}

mutual
def BoolExpr.eval (σ:V → Bool) : BoolExpr V → Bool
 | .bTrue=>true
 | .bFalse=>false
 | .bVar v=>σ v
 | .bNot e=>!e.eval σ
 | .bAnd es=>evalAll σ es
 | .bOr es=>evalAny σ es

def evalAll (σ:V → Bool) : List (BoolExpr V) → Bool
 | []=>true
 | e::es=>e.eval σ && evalAll σ es

def evalAny (σ:V → Bool) : List (BoolExpr V) → Bool
 | []=>false
 | e::es=>e.eval σ || evalAny σ es
end

mutual
def BoolExpr.vars : BoolExpr V → List V
 | .bTrue=>[]
 | .bFalse=>[]
 | .bVar v=>[v]
 | .bNot e=>e.vars
 | .bAnd es=>varsAll es
 | .bOr es=>varsAll es

def varsAll : List (BoolExpr V) → List V
 | []=>[]
 | e::es=>e.vars ++ varsAll es
end

mutual
theorem BoolExpr.eval_congr {σ τ:V → Bool} :
  ∀ e : BoolExpr V, (∀ v ∈ e.vars, σ v=τ v) → e.eval σ=e.eval τ
 | .bTrue, _=>rfl
 | .bFalse, _=>rfl
 | .bVar v, h=>h v (List.mem_singleton_self v)
 | .bNot e, h=>congrArg not (e.eval_congr h)
 | .bAnd es, h=>(eval_congr_all es h).1
 | .bOr es, h=>(eval_congr_all es h).2

theorem eval_congr_all {σ τ:V → Bool} :
  ∀ es : List (BoolExpr V), (∀ v ∈ varsAll es, σ v=τ v) →
   evalAll σ es=evalAll τ es ∧ evalAny σ es=evalAny τ es
 | [], _=>⟨rfl,rfl⟩
 | e::es, h=>by
  have he:=e.eval_congr fun v hv=>h v (List.mem_append_left _ hv)
  have hes:=eval_congr_all es fun v hv=>h v (List.mem_append_right _ hv)
  simp only [evalAll,evalAny,he,hes.1,hes.2,and_self]
end

end Eval

/-! ## The index tables -/

section Table
variable {K B:Type} [Ord K] [Std.TransOrd K] [Std.LawfulEqOrd K]

variable {l:List (K × B)}

theorem mem_of_getElem?_ofList {k:K} {b:B} (h:(TreeMap.ofList l)[k]? = some b) : (k,b) ∈ l := by
 induction l using List.reverseRecOn with
 | nil=>simp [TreeMap.ofList_nil] at h
 | append_singleton l p ih=>
  rw [TreeMap.ofList_eq_insertMany_empty,TreeMap.insertMany_append,
   TreeMap.insertMany_list_singleton,TreeMap.getElem?_insert] at h
  split_ifs at h with hc
  · obtain rfl : p.2=b:=Option.some.inj h
    have hk:p.1=k:=Std.LawfulEqOrd.eq_of_compare hc
    simp [←hk]
  · exact List.mem_append_left _ (ih h)

theorem exists_getElem?_ofList {k:K} {b:B} (h:(k,b) ∈ l) :
  ∃ c, (TreeMap.ofList l)[k]? = some c := by
 induction l using List.reverseRecOn with
 | nil=>simp at h
 | append_singleton l p ih=>
  rw [TreeMap.ofList_eq_insertMany_empty,TreeMap.insertMany_append,
   TreeMap.insertMany_list_singleton,TreeMap.getElem?_insert]
  split_ifs with hc
  · exact ⟨_,rfl⟩
  · rcases List.mem_append.1 h with h | h
    · exact ih h
    · obtain rfl : (k,b)=p:=by simpa using h
      exact absurd Std.ReflOrd.compare_self hc

theorem getElem?_ofList_iff (hl:∀ k b c, (k,b) ∈ l → (k,c) ∈ l → b=c) (k:K) (b:B) :
  (TreeMap.ofList l)[k]? = some b ↔ (k,b) ∈ l := by
 refine ⟨mem_of_getElem?_ofList,fun h=>?_⟩
 obtain ⟨c,hc⟩:=exists_getElem?_ofList h
 rw [hc,hl k c b (mem_of_getElem?_ofList hc) h]

end Table

theorem idxToV_iff {V:Type} {order:List V} {v:V} {i:ℕ} :
  (TreeMap.ofList (order.zipIdx.map Prod.swap))[i]? = some v ↔ order[i]? = some v := by
 have hmem:∀ j w, (j,w) ∈ order.zipIdx.map Prod.swap ↔ order[j]? = some w:=by
  intro j w
  rw [←List.mem_zipIdx_iff_getElem? (x := (w,j)),List.mem_map]
  constructor
  · rintro ⟨p,hp,heq⟩
    rwa [←Prod.swap_swap p,heq] at hp
  · exact fun h=>⟨(w,j),h,rfl⟩
 rw [getElem?_ofList_iff,hmem]
 intro k b c hb hc
 exact Option.some.inj (((hmem k b).1 hb).symm.trans ((hmem k c).1 hc))

section Index
variable {V:Type} [Ord V] [Std.TransOrd V] [Std.LawfulEqOrd V]

theorem getElem?_of_vToIdx {order:List V} {v:V} {i:ℕ}
  (h:(TreeMap.ofList order.zipIdx)[v]? = some i) : order[i]? = some v :=
 List.mem_zipIdx_iff_getElem?.1 (mem_of_getElem?_ofList h)

theorem exists_vToIdx {order:List V} {v:V} (h:v ∈ order) :
  ∃ i, (TreeMap.ofList order.zipIdx)[v]? = some i := by
 obtain ⟨i,hi⟩:=List.mem_iff_getElem?.1 h
 exact exists_getElem?_ofList (List.mem_zipIdx_iff_getElem?.2 (show order[(v,i).2]? = _ from hi))

def pull (vToIdx:TreeMap V ℕ) (ρ:ℕ → Bool) (v:V) : Bool :=
 match vToIdx[v]? with
 | some i=>ρ i
 | none=>false

/-- The bindings, and elsewhere the assignment of the indices. -/
def assignment (vToIdx:TreeMap V ℕ) (bindings:TreeMap V Bool) (ρ:ℕ → Bool) (v:V) : Bool :=
 bindings[v]?.getD (pull vToIdx ρ v)

end Index

/-! ## Compilation and restriction -/

section Compile
variable {V:Type} [Ord V]

mutual
theorem compile_built (vToIdx:TreeMap V ℕ) :
  ∀ (e:BoolExpr V) {bdd:Bdd}, bdd.Wf → (∀ v ∈ e.vars, ∃ i, vToIdx[v]? = some i) →
   ∃ p, compile vToIdx e bdd=some p ∧ Built bdd (fun ρ=>e.eval (pull vToIdx ρ)) p
 | .bTrue, _, hw, _=>⟨_,rfl,.of_represents hw (represents_one _)⟩
 | .bFalse, _, hw, _=>⟨_,rfl,.of_represents hw (represents_zero _)⟩
 | .bVar v, bdd, hw, h=>by
  obtain ⟨i,hidx⟩:=h v (List.mem_singleton_self v)
  refine ⟨var i bdd,by simp only [compile,hidx],(var_built hw i).congr fun ρ=>?_⟩
  simp only [BoolExpr.eval,pull,hidx]
 | .bNot e, bdd, hw, h=>by
  obtain ⟨⟨n,bdd1⟩,eq1,b1⟩:=compile_built vToIdx e hw h
  obtain ⟨p,eq2,b2⟩:=neg_built b1.wf b1.represents
  refine ⟨p, ?_,b2.trans b1.extends_⟩
  simp only [compile,eq1,Option.bind_eq_bind,Option.bind_some,eq2]
 | .bAnd es, bdd, hw, h=>by
  obtain ⟨p,eq,b⟩:=compileAll_built vToIdx .opAnd es hw (represents_one bdd) h
  refine ⟨p,by simp only [compile,eq],b.congr fun ρ=>?_⟩
  simp only [BoolExpr.eval,Bool.true_and]
 | .bOr es, bdd, hw, h=>by
  obtain ⟨p,eq,b⟩:=compileAll_built vToIdx .opOr es hw (represents_zero bdd) h
  refine ⟨p,by simp only [compile,eq],b.congr fun ρ=>?_⟩
  simp only [BoolExpr.eval,Bool.false_or]

theorem compileAll_built (vToIdx:TreeMap V ℕ) (op:Op) :
  ∀ (es:List (BoolExpr V)) {acc:ℕ} {bdd:Bdd} {f:BoolFun}, bdd.Wf →
   Represents bdd acc f → (∀ v ∈ varsAll es, ∃ i, vToIdx[v]? = some i) →
   ∃ p, compileAll vToIdx op es acc bdd=some p ∧ Built bdd (fun ρ=>match op with
    | .opAnd=>f ρ && evalAll (pull vToIdx ρ) es
    | .opOr=>f ρ || evalAny (pull vToIdx ρ) es) p
 | [], acc, bdd, f, hw, hacc, _=>by
  refine ⟨_,rfl,.of_represents hw (hacc.congr fun ρ=>?_)⟩
  cases op
  · simp only [evalAll,Bool.and_true]
  · simp only [evalAny,Bool.or_false]
 | e::es, acc, bdd, f, hw, hacc, h=>by
  obtain ⟨⟨n,bdd1⟩,eq1,b1⟩:=
   compile_built vToIdx e hw fun v hv=>h v (List.mem_append_left _ hv)
  obtain ⟨⟨acc', bdd2⟩,eq2,b2⟩:=
   apply_built op b1.wf (hacc.mono b1.extends_) b1.represents
  obtain ⟨p,eq3,b3⟩:=compileAll_built vToIdx op es b2.wf b2.represents
   fun v hv=>h v (List.mem_append_right _ hv)
  refine ⟨p, ?_,(b3.trans (b1.extends_.trans b2.extends_)).congr fun ρ=>?_⟩
  · simp only [compileAll,eq1,eq2,eq3,Option.bind_eq_bind,Option.bind_some]
  · cases op
    · simp only [evalAll,opEval,Bool.and_assoc]
    · simp only [evalAny,opEval,Bool.or_assoc]
end

end Compile

theorem foldlM_restrictVar_built (l:List (ℕ × Bool)) {n:ℕ} {bdd:Bdd} {f:BoolFun}
  (hw:bdd.Wf) (hn:Represents bdd n f) :
  ∃ p, l.foldlM (fun acc vb=>restrictVar vb.1 vb.2 acc.1 acc.2) (n,bdd)=some p ∧
   Built bdd (fun ρ=>f (l.foldr (fun vb σ=>Function.update σ vb.1 vb.2) ρ)) p := by
 induction l generalizing n bdd f with
 | nil=>exact ⟨_,rfl,.of_represents hw hn⟩
 | cons vb l ih=>
  obtain ⟨⟨n1,bdd1⟩,eq1,b1⟩:=restrictVar_built vb.1 vb.2 hw hn
  obtain ⟨p,eq2,b2⟩:=ih b1.wf b1.represents
  refine ⟨p, ?_,b2.trans b1.extends_⟩
  simp only [List.foldlM_cons,eq1,Option.bind_eq_bind,Option.bind_some,eq2]

theorem foldr_update_apply {l:List (ℕ × Bool)} (hl:∀ k b c, (k,b) ∈ l → (k,c) ∈ l → b=c)
  (ρ:ℕ → Bool) (i:ℕ) :
  (∀ b, (i,b) ∈ l → l.foldr (fun vb σ=>Function.update σ vb.1 vb.2) ρ i=b) ∧
   ((∀ b, (i,b) ∉ l) → l.foldr (fun vb σ=>Function.update σ vb.1 vb.2) ρ i=ρ i) := by
 induction l with
 | nil=>exact ⟨fun b h=>absurd h List.not_mem_nil,fun _=>rfl⟩
 | cons vb l ih=>
  have ih:=ih fun k b c hb hc=>
   hl k b c (List.mem_cons_of_mem _ hb) (List.mem_cons_of_mem _ hc)
  obtain ⟨v,b⟩:=vb
  simp only [List.foldr_cons]
  by_cases hv:i=v
  · subst hv
    rw [Function.update_self]
    exact ⟨fun c hc=>hl i b c List.mem_cons_self hc,
     fun h=>absurd List.mem_cons_self (h b)⟩
  · rw [Function.update_of_ne hv]
    refine ⟨fun c hc=>ih.1 c ?_,fun h=>ih.2 fun c hc=>h c (List.mem_cons_of_mem _ hc)⟩
    rcases List.mem_cons.1 hc with heq | hc
    · exact absurd (congrArg Prod.fst heq) hv
    · exact hc

theorem restrictMany_built (bindings:TreeMap ℕ Bool) {n:ℕ} {bdd:Bdd} {f:BoolFun}
  (hw:bdd.Wf) (hn:Represents bdd n f) :
  ∃ p, restrictMany bindings n bdd=some p ∧
   Built bdd (fun ρ=>f fun i=>bindings[i]?.getD (ρ i)) p := by
 obtain ⟨p,eq,b⟩:=foldlM_restrictVar_built bindings.toList hw hn
 refine ⟨p, ?_,b.congr fun ρ=>congrArg f (funext fun i=>?_)⟩
 · rw [restrictMany,TreeMap.foldlM_eq_foldlM_toList]
   exact eq
 · have hfun:∀ k b c, (k,b) ∈ bindings.toList → (k,c) ∈ bindings.toList → b=c:=by
    intro k b c hb hc
    rw [TreeMap.mem_toList_iff_getElem?_eq_some] at hb hc
    exact Option.some.inj (hb.symm.trans hc)
   have happly:=foldr_update_apply hfun ρ i
   cases hb:bindings[i]? with
   | some b=>exact happly.1 b (TreeMap.mem_toList_iff_getElem?_eq_some.2 hb)
   | none=>
    refine happly.2 fun b hmem=>?_
    rw [TreeMap.mem_toList_iff_getElem?_eq_some,hb] at hmem
    exact absurd hmem (by simp)

section Query
variable {V:Type} [Ord V]

/-- The total assignment extends the bindings. -/
def Agrees (bindings:TreeMap V Bool) (σ:V → Bool) : Prop :=
 ∀ v b, bindings[v]? = some b → σ v=b

/-- What a query says of the expression under the bindings: the value that every
    extension has, and the unbound variables that alone can change it. -/
structure Answers (e:BoolExpr V) (bindings:TreeMap V Bool) (determined:Option Bool)
  (support:TreeSet V) : Prop where
 determined_iff : ∀ b, determined=some b ↔ ∀ σ, Agrees bindings σ → e.eval σ=b
 mem_support_iff : ∀ x, x ∈ support ↔ x ∉ bindings ∧
  ∃ σ τ, Agrees bindings σ ∧ (∀ y, y ≠ x → τ y=σ y) ∧ e.eval τ ≠ e.eval σ

structure CompiledDecisionQuery.Indexed (compiled:CompiledDecisionQuery V) (order:List V) :
  Prop where
 vToIdx : compiled.vToIdx=TreeMap.ofList order.zipIdx
 idxToV : compiled.idxToV=TreeMap.ofList (order.zipIdx.map Prod.swap)

theorem assignment_agrees (vToIdx:TreeMap V ℕ) (bindings:TreeMap V Bool) (ρ:ℕ → Bool) :
  Agrees bindings (assignment vToIdx bindings ρ) := by
 intro v b h
 simp only [assignment,h,Option.getD_some]

variable [Std.TransOrd V]

variable {bindings:TreeMap V Bool} {x:V} {i:ℕ}

theorem assignment_update {vToIdx:TreeMap V ℕ}
  (hx:vToIdx[x]? = some i) (hb:x ∉ bindings) (ρ:ℕ → Bool) (c:Bool) :
  assignment vToIdx bindings (Function.update ρ i c) x=c := by
 have hnone:bindings[x]? = none:=TreeMap.getElem?_eq_none hb
 simp only [assignment,pull,hnone,hx,Option.getD_none,Function.update_self]

variable [Std.LawfulEqOrd V]

section Indexed
variable {compiled:CompiledDecisionQuery V} {order:List V} (hi:compiled.Indexed order)
include hi

variable {v:V} {i:ℕ}

theorem CompiledDecisionQuery.Indexed.exists_idx (hv:v ∈ order) :
  ∃ i, compiled.vToIdx[v]? = some i := by
 rw [hi.vToIdx]
 exact exists_vToIdx hv

theorem CompiledDecisionQuery.Indexed.idxToV_of_vToIdx
  (h:compiled.vToIdx[v]? = some i) : compiled.idxToV[i]? = some v := by
 rw [hi.vToIdx] at h
 rw [hi.idxToV,idxToV_iff]
 exact getElem?_of_vToIdx h

theorem CompiledDecisionQuery.Indexed.eq_of_vToIdx {w:V}
  (hv:compiled.vToIdx[v]? = some i) (hw:compiled.vToIdx[w]? = some i) : v=w :=
 Option.some.inj ((hi.idxToV_of_vToIdx hv).symm.trans (hi.idxToV_of_vToIdx hw))

theorem CompiledDecisionQuery.Indexed.exists_assignment {bindings:TreeMap V Bool} {σ:V → Bool}
  (hσ:Agrees bindings σ) :
  ∃ ρ, ∀ v ∈ order, assignment compiled.vToIdx bindings ρ v=σ v := by
 refine ⟨fun i=>compiled.idxToV[i]?.elim false σ,fun v hv=>?_⟩
 obtain ⟨i,hidx⟩:=hi.exists_idx hv
 cases hb:bindings[v]? with
 | some b=>rw [hσ v b hb,assignment,hb,Option.getD_some]
 | none=>
  simp only [assignment,pull,hb,hidx,hi.idxToV_of_vToIdx hidx,Option.getD_none,
   Option.elim_some]

theorem CompiledDecisionQuery.Indexed.assignment_update_of_ne {bindings:TreeMap V Bool} {x y:V}
  (hx:compiled.vToIdx[x]? = some i) (hne:y ≠ x) (ρ:ℕ → Bool) (c:Bool) :
  assignment compiled.vToIdx bindings (Function.update ρ i c) y =
   assignment compiled.vToIdx bindings ρ y := by
 unfold assignment pull
 split
 · rename_i j hj
   have hij:j ≠ i:=fun h=>hne (hi.eq_of_vToIdx (h ▸ hj) hx)
   rw [Function.update_of_ne hij]
 · rfl

end Indexed

theorem mem_supportVs {compiled:CompiledDecisionQuery V} {s:TreeSet ℕ} :
  x ∈ compiled.supportVs s ↔ ∃ i ∈ s, compiled.idxToV[i]? = some x := by
 classical
 simp only [CompiledDecisionQuery.supportVs,TreeSet.mem_ofList,List.contains_iff_mem,
  List.mem_filterMap,TreeSet.mem_toList]

theorem answers_of_represents {compiled:CompiledDecisionQuery V} {order:List V}
  (hi:compiled.Indexed order) {e:BoolExpr V} (he:∀ v ∈ e.vars, v ∈ order)
  {bdd:Bdd} (hw:bdd.Wf) {n:ℕ}
  (hn:Represents bdd n fun ρ=>e.eval (assignment compiled.vToIdx bindings ρ)) :
  ∃ o, compiled.outcomeOf n bdd=some o ∧ Answers e bindings o.determined o.support := by
 obtain ⟨s,hs,hmem⟩:=support_spec hw hn
 refine ⟨⟨determinedFromRoot n,compiled.supportVs s⟩, ?_,⟨fun b=>?_,fun x=>?_⟩⟩
 · simp only [CompiledDecisionQuery.outcomeOf,hs,Option.bind_eq_bind,Option.bind_some]
   rfl
 · rw [determinedFromRoot_spec hw hn]
   constructor
   · intro h σ hσ
     obtain ⟨ρ,hρ⟩:=hi.exists_assignment hσ
     rw [←h ρ]
     exact e.eval_congr fun v hv=>(hρ v (he v hv)).symm
   · exact fun h ρ=>h _ (assignment_agrees _ _ ρ)
 · rw [mem_supportVs]
   constructor
   · rintro ⟨i,hsi,hix⟩
     obtain ⟨ρ,hρ⟩:=(hmem i).1 hsi
     -- some variable of the expression reads the index, and it is the one listed there
     obtain ⟨v,hv,hidx,hb⟩ : ∃ v ∈ e.vars, compiled.vToIdx[v]? = some i ∧ v ∉ bindings:=by
      by_contra hno
      refine hρ (e.eval_congr fun v hv=>?_)
      unfold assignment pull
      split
      · rename_i j hj
        by_cases hji:j=i
        · subst hji
          have hbound:v ∈ bindings:=by
           by_contra hb
           exact hno ⟨v,hv,hj,hb⟩
          simp only [TreeMap.getElem?_eq_some_getElem hbound,Option.getD_some]
        · rw [Function.update_of_ne hji,Function.update_of_ne hji]
      · rfl
     obtain rfl : v=x:=Option.some.inj ((hi.idxToV_of_vToIdx hidx).symm.trans hix)
     refine ⟨hb,_,_,assignment_agrees _ _ (Function.update ρ i false),fun y hy=>?_,hρ⟩
     rw [hi.assignment_update_of_ne hidx hy,hi.assignment_update_of_ne hidx hy]
   · rintro ⟨hx,σ,τ,hσ,hτ,hne⟩
     have hxe:x ∈ e.vars:=by
      by_contra hxe
      refine hne (e.eval_congr fun v hv=>hτ v ?_)
      rintro rfl
      exact hxe hv
     obtain ⟨i,hidx⟩:=hi.exists_idx (he x hxe)
     obtain ⟨ρ,hρ⟩:=hi.exists_assignment hσ
     have eval_of:∀ υ : V → Bool, (∀ y, y ≠ x → υ y=σ y) →
       e.eval (assignment compiled.vToIdx bindings (Function.update ρ i (υ x)))=e.eval υ := by
      intro υ hυ
      refine e.eval_congr fun v hv=>?_
      by_cases hvx:v=x
      · rw [hvx,assignment_update hidx hx]
      · rw [hi.assignment_update_of_ne hidx hvx,hρ v (he v hv),hυ v hvx]
     refine ⟨i,(hmem i).2 ⟨ρ,fun heq=>hne ?_⟩,hi.idxToV_of_vToIdx hidx⟩
     rw [←eval_of τ hτ,←eval_of σ fun _ _=>rfl]
     cases τ x <;> cases σ x <;> first | rfl | exact heq | exact heq.symm

/-! ## The query -/

theorem compileDecisionQuery_spec (order:List V) (e:BoolExpr V) (he:∀ v ∈ e.vars, v ∈ order) :
  ∃ compiled, compileDecisionQuery order e=some compiled ∧ compiled.Indexed order ∧
   compiled.bdd.Wf ∧
   Represents compiled.bdd compiled.root fun ρ=>e.eval (pull compiled.vToIdx ρ) := by
 have hidx:∀ v ∈ e.vars, ∃ i, (TreeMap.ofList order.zipIdx)[v]? = some i:=
  fun v hv=>exists_vToIdx (he v hv)
 obtain ⟨p,eq,b⟩:=compile_built (TreeMap.ofList order.zipIdx) e emptyBdd_wf hidx
 let compiled:CompiledDecisionQuery V:=
  { varOrder:=order
    vToIdx:=TreeMap.ofList order.zipIdx
    idxToV:=TreeMap.ofList (order.zipIdx.map Prod.swap)
    root:=p.1
    bdd:=p.2 }
 refine ⟨compiled, ?_,⟨rfl,rfl⟩,b.wf,b.represents⟩
 simp only [compileDecisionQuery,eq,Option.bind_eq_bind,Option.bind_some]
 rfl

theorem mem_idxBindings {compiled:CompiledDecisionQuery V} {k:ℕ} {b:Bool} :
  (k,b) ∈ (bindings.toList.filterMap fun (v,b)=>
   compiled.vToIdx[v]?.map fun idx=>(idx,b)) ↔
    ∃ w : V, bindings[w]? = some b ∧ compiled.vToIdx[w]? = some k := by
 simp only [List.mem_filterMap,Prod.exists,TreeMap.mem_toList_iff_getElem?_eq_some,
  Option.map_eq_some_iff,Prod.mk.injEq]
 constructor
 · rintro ⟨w,c,hw,j,hj,rfl,rfl⟩
   exact ⟨w,hw,hj⟩
 · rintro ⟨w,hw,hk⟩
   exact ⟨w,b,hw,k,hk,rfl,rfl⟩

theorem CompiledDecisionQuery.Indexed.getElem?_idxBindings {compiled:CompiledDecisionQuery V}
  {order:List V} (hi:compiled.Indexed order) (bindings:TreeMap V Bool) {v:V}
  (h:compiled.vToIdx[v]? = some i) :
  (compiled.idxBindings bindings)[i]? = bindings[v]? := by
 refine Option.ext fun b=>?_
 rw [CompiledDecisionQuery.idxBindings,getElem?_ofList_iff,mem_idxBindings]
 · constructor
   · rintro ⟨w,hw,hk⟩
     rwa [hi.eq_of_vToIdx h hk]
   · exact fun hb=>⟨v,hb,h⟩
 · intro k b c hb hc
   obtain ⟨w,hw,hk⟩:=mem_idxBindings.1 hb
   obtain ⟨w', hw', hk'⟩:=mem_idxBindings.1 hc
   obtain rfl:=hi.eq_of_vToIdx hk hk'
   exact Option.some.inj (hw.symm.trans hw')

theorem CompiledDecisionQuery.Indexed.assignment_insert {compiled:CompiledDecisionQuery V}
  {order:List V} (hi:compiled.Indexed order)
  (hx:compiled.vToIdx[x]? = some i) (hb:x ∉ bindings) (ρ:ℕ → Bool) (c:Bool) :
  assignment compiled.vToIdx bindings (Function.update ρ i c) =
   assignment compiled.vToIdx (bindings.insert x c) ρ := by
 funext y
 by_cases hy:y=x
 · subst hy
   rw [assignment_update hx hb,assignment,TreeMap.getElem?_insert_self,Option.getD_some]
 · have hne:¬compare x y = .eq:=fun h=>hy (Std.LawfulEqOrd.eq_of_compare h).symm
   rw [hi.assignment_update_of_ne hx hy,assignment,assignment,TreeMap.getElem?_insert,
    if_neg hne]

theorem impactOf_answers {compiled:CompiledDecisionQuery V} {order:List V}
  (hi:compiled.Indexed order) {e:BoolExpr V} (he:∀ v ∈ e.vars, v ∈ order)
  {bdd:Bdd} (hw:bdd.Wf) {n:ℕ}
  (hn:Represents bdd n fun ρ=>e.eval (assignment compiled.vToIdx bindings ρ))
  (hx:compiled.vToIdx[x]? = some i) (hb:x ∉ bindings) :
  ∃ vi, compiled.impactOf n bdd x=some vi ∧
   Answers e (bindings.insert x true) vi.ifTrue.determined vi.ifTrue.support ∧
   Answers e (bindings.insert x false) vi.ifFalse.determined vi.ifFalse.support := by
 have outcome:∀ c, ∃ p o, restrictVar i c n bdd=some p ∧
   compiled.outcomeOf p.1 p.2=some o ∧ Answers e (bindings.insert x c) o.determined o.support := by
  intro c
  obtain ⟨p,eq,b⟩:=restrictVar_built i c hw hn
  have hrep:Represents p.2 p.1 fun ρ=>
    e.eval (assignment compiled.vToIdx (bindings.insert x c) ρ) :=
   b.represents.congr fun ρ=>by rw [hi.assignment_insert hx hb]
  obtain ⟨o,ho,hans⟩:=answers_of_represents hi he b.wf hrep
  exact ⟨p,o,eq,ho,hans⟩
 obtain ⟨pT,oT,eqT,houtT,hansT⟩:=outcome true
 obtain ⟨pF,oF,eqF,houtF,hansF⟩:=outcome false
 refine ⟨⟨oT,oF⟩, ?_,hansT,hansF⟩
 simp only [CompiledDecisionQuery.impactOf,hx,eqT,eqF,houtT,houtF,Option.bind_eq_bind,
  Option.bind_some]
 rfl

theorem mapM_pair_spec {A B:Type} {f:A → Option B} {P:A → B → Prop} (l:List A)
  (h:∀ a ∈ l, ∃ b, f a=some b ∧ P a b) :
  ∃ ps, (l.mapM fun a=>do let b ← f a; return (a,b))=some ps ∧ ps.map Prod.fst=l ∧
   ∀ a b, (a,b) ∈ ps → P a b := by
 induction l with
 | nil=>exact ⟨[],rfl,rfl,fun a b h=>absurd h List.not_mem_nil⟩
 | cons a l ih=>
  obtain ⟨b,hb,hP⟩:=h a List.mem_cons_self
  obtain ⟨ps,hps,hfst,hall⟩:=ih fun a ha=>h a (List.mem_cons_of_mem _ ha)
  refine ⟨(a,b)::ps, ?_,by rw [List.map_cons,hfst], ?_⟩
  · rw [List.mapM_cons,hb,hps]
    rfl
  · rintro a' b' hmem
    rcases List.mem_cons.1 hmem with heq | hmem
    · obtain ⟨rfl,rfl⟩:=Prod.mk.inj heq
      exact hP
    · exact hall a' b' hmem

/-- A query of a compiled expression, by the node of the restricted diagram and its impacts. -/
theorem queryDecision_spec (order:List V) (e:BoolExpr V) (he:∀ v ∈ e.vars, v ∈ order)
  (bindings:TreeMap V Bool) :
  ∃ (compiled:CompiledDecisionQuery V) (n:NodeId) (support:TreeSet V)
   (impacts:List (V × VarImpact V)), compileDecisionQuery order e=some compiled ∧
   queryDecision compiled bindings=some
    { determined:=determinedFromRoot n
      support
      ranked:=compiled.rankedVars (TreeMap.ofList impacts) support
      impact:=TreeMap.ofList impacts } ∧
   Answers e bindings (determinedFromRoot n) support ∧
   impacts.map Prod.fst=support.toList ∧
   ∀ v vi, (v,vi) ∈ impacts →
    Answers e (bindings.insert v true) vi.ifTrue.determined vi.ifTrue.support ∧
    Answers e (bindings.insert v false) vi.ifFalse.determined vi.ifFalse.support := by
 obtain ⟨compiled,hcomp,hi,hw,hroot⟩:=compileDecisionQuery_spec order e he
 obtain ⟨⟨n,bdd1⟩,heq,b⟩:=restrictMany_built (compiled.idxBindings bindings) hw hroot
 have hn:Represents bdd1 n fun ρ=>e.eval (assignment compiled.vToIdx bindings ρ):=by
  refine b.represents.congr fun ρ=>e.eval_congr fun v hv=>?_
  obtain ⟨i,hidx⟩:=hi.exists_idx (he v hv)
  simp only [pull,assignment,hidx,hi.getElem?_idxBindings bindings hidx]
 obtain ⟨o,ho,hans⟩:=answers_of_represents hi he b.wf hn
 obtain ⟨s,hs,rfl⟩ : ∃ s, support n bdd1=some s ∧
   o=⟨determinedFromRoot n,compiled.supportVs s⟩ := by
  cases hs:support n bdd1 with
  | none=>simp [CompiledDecisionQuery.outcomeOf,hs] at ho
  | some s=>
   refine ⟨s,rfl,Option.some.inj (ho.symm.trans ?_)⟩
   simp only [CompiledDecisionQuery.outcomeOf,hs,Option.bind_eq_bind,Option.bind_some]
   rfl
 obtain ⟨impacts,himp,hfst,hall⟩:=mapM_pair_spec (compiled.supportVs s).toList
  fun v hv=>by
   have hmem:=TreeSet.mem_toList.1 hv
   obtain ⟨hb,-⟩:=(hans.mem_support_iff v).1 hmem
   obtain ⟨i,-,hix⟩:=mem_supportVs.1 hmem
   have hvo:v ∈ order:=by
    rw [hi.idxToV,idxToV_iff] at hix
    exact List.mem_of_getElem? hix
   obtain ⟨j,hj⟩:=hi.exists_idx hvo
   exact impactOf_answers hi he b.wf hn hj hb
 refine ⟨compiled,n,compiled.supportVs s,impacts,hcomp, ?_,hans,hfst,hall⟩
 simp only [Option.bind_eq_bind] at himp
 simp only [queryDecision,heq,hs,himp,Option.bind_eq_bind,Option.bind_some]
 rfl

theorem queryDecision_answers (order:List V) (e:BoolExpr V) (he:∀ v ∈ e.vars, v ∈ order)
  (bindings:TreeMap V Bool) :
  ∃ compiled r, compileDecisionQuery order e=some compiled ∧
   queryDecision compiled bindings=some r ∧
   Answers e bindings r.determined r.support ∧
   (∀ v, v ∈ r.impact ↔ v ∈ r.support) ∧
   ∀ v vi, r.impact[v]? = some vi →
    Answers e (bindings.insert v true) vi.ifTrue.determined vi.ifTrue.support ∧
    Answers e (bindings.insert v false) vi.ifFalse.determined vi.ifFalse.support := by
 obtain ⟨compiled,n,support,impacts,hcomp,hquery,hans,hfst,hall⟩:=
  queryDecision_spec order e he bindings
 refine ⟨compiled,_,hcomp,hquery,hans,fun v=>?_,fun v vi hvi=>?_⟩
 · classical
   rw [TreeMap.mem_ofList,List.contains_iff_mem,hfst,TreeSet.mem_toList]
 · exact hall v vi (mem_of_getElem?_ofList hvi)

/-- `NOT a OR (b AND a)` under `a = True` is still open, and only `b` is needed. -/
theorem queryDecision_answers_implication :
  (∀ v ∈ (BoolExpr.bOr [.bNot (.bVar 0),.bAnd [.bVar 1,.bVar 0]]).vars, v ∈ [1,0]) ∧
   ∃ compiled r,
    compileDecisionQuery [1,0] (.bOr [.bNot (.bVar 0),.bAnd [.bVar 1,.bVar 0]]) =
     some compiled ∧
    queryDecision compiled (TreeMap.ofList [((0 : ℕ),true)])=some r ∧
    Answers (.bOr [.bNot (.bVar 0),.bAnd [.bVar 1,.bVar 0]]) (TreeMap.ofList [(0,true)])
     r.determined r.support := by
 have hvars:∀ v ∈ (BoolExpr.bOr [.bNot (.bVar 0),.bAnd [.bVar 1,.bVar 0]]).vars,
   v ∈ [1,0] := by decide
 obtain ⟨compiled,r,hcomp,hquery,hans,-⟩:=
  queryDecision_answers [1,0] _ hvars (TreeMap.ofList [((0 : ℕ),true)])
 exact ⟨hvars,compiled,r,hcomp,hquery,hans⟩

end Query

end L4Ide.BooleanDecisionQuery
