import L4Ide.UnifyOutcomes

set_option autoImplicit false

/-!
# Unification finds the most general solution

Each function of the unifier has the outcome of the equation it is given.
-/
namespace L4Ide.UnificationCorrect
open Syntax Unify TypeMeaning TypeKinds TriangularSystems UnifyOutcomes

variable {env:CheckEnv} {ar:Unique → ℕ} {plain:Bool}

def Equal (env:CheckEnv) (t1 t2:RType) (V:ℤ → TypeTerm) : Prop := den env V t1=den env V t2

def Rigid (env:CheckEnv) : RType → Prop
 | .tyApp c _=>env.synonym c.getUnique=none
 | .infVar _ _=>False
 | _=>True

theorem forall_mem_zip_iff {A B:Type} {g:A → B} {as bs:List A} (hlen:as.length=bs.length) :
  (∀ p ∈ as.zip bs, g p.1=g p.2) ↔ as.map g=bs.map g := by
 induction as generalizing bs with
 | nil=>
  obtain rfl:=List.length_eq_zero_iff.1 hlen.symm
  simp
 | cons a as ih=>
  cases bs with
  | nil=>cases hlen
  | cons b bs=>
   rw [List.zip_cons_cons,List.forall_mem_cons,ih (Nat.succ.inj hlen),List.map_cons,
    List.map_cons,List.cons.injEq]

variable {t:RType} {st st': CheckState}

theorem outcome_bindChecked (hwf:WellFormed env ar plain) {steps:ℕ} {i:ℤ}
  {b:Bool} (hst:Good env ar plain st.substitution)
  (hi:st.substitution i=none) (ht:WellKinded ar plain t)
  (hvar:∀ rn j, t = .infVar rn j → st.substitution j=none ∧ j ≠ i)
  (h:bindChecked steps i t st=some (b,st')) :
  Outcome env ar plain st (fun V=>V i=den env V t) b st' := by
 simp only [bindChecked,Option.bind_eq_bind,Option.bind_eq_some_iff,Prod.exists] at h
 obtain ⟨t', s1,happly,h⟩:=h
 have happ:=applySubst_spec hst ht happly
 split at h
 · next hocc=>
   obtain ⟨rfl,rfl⟩:=Prod.mk.inj (Option.some.inj h)
   refine ⟨happ.good,fun j=>(happ.compresses.none_iff j).2,
    fun V=>(happ.compresses.solves_iff V).2,⟨[],(List.append_nil _).symm⟩,
    fun hb=>(Bool.false_ne_true hb).elim,fun hb=>(Bool.false_ne_true hb).elim,
    fun _ hp V hV heq=>?_⟩
   subst hp
   -- what the variable occurs in is not a variable: it would be the same one
   have hnot:∀ rn j, t' ≠ .infVar rn j:=by
    rintro rn j rfl
    by_cases hex:∃ rn j, t = .infVar rn j
    · obtain ⟨rn', k,rfl⟩:=hex
      obtain ⟨hk,hne⟩:=hvar rn' k rfl
      obtain ⟨-,rfl⟩:=Type'.infVar.inj (applySubst_unbound happly hk)
      exact hne (List.mem_singleton.1 hocc).symm
    · exact applySubst_not_infVar happly (fun rn k heq=>hex ⟨rn,k,heq⟩) rn j rfl
   exact ne_den_of_occurs hwf happ.wellKinded hocc hnot V (heq.trans (happ.den V hV).symm)
 · next hocc=>
   obtain ⟨rfl,rfl⟩:=Prod.mk.inj (Option.some.inj h)
   have hi1:s1 i=none:=(happ.compresses.none_iff i).1 hi
   have hden:∀ V, Solves (types env) V st.substitution →
     (V i=den env V t' ↔ V i=den env V t) := fun V hV=>by rw [happ.den V hV]
   refine ⟨⟨acyclic_update happ.good.acyclic (happ.compresses.resolved_iff.1 happ.resolved) hocc,
     fun j u hj=>?_⟩,fun j hj=>?_,fun V hV=>?_,⟨[],(List.append_nil _).symm⟩,
    fun _ _ V hV=>?_,fun _ V hV hE=>?_,fun hb=>by cases hb⟩
   · dsimp only at hj
     by_cases hji:j=i
     · rw [hji,Function.update_self] at hj
       exact Option.some.inj hj ▸ happ.wellKinded
     · rw [Function.update_of_ne hji] at hj
       exact happ.good.wellKinded j u hj
   · dsimp only at hj
     by_cases hji:j=i
     · exact hji ▸ hi
     · rw [Function.update_of_ne hji] at hj
       exact (happ.compresses.none_iff j).2 hj
   · exact (happ.compresses.solves_iff V).2 ((solves_update hi1).1 hV).1
   · obtain ⟨hV1,heq⟩:=(solves_update hi1).1 hV
     exact (hden V ((happ.compresses.solves_iff V).2 hV1)).1 heq
   · exact (solves_update hi1).2 ⟨(happ.compresses.solves_iff V).1 hV,(hden V hV).2 hE⟩

theorem equal_of_sameUnderSubstitution {steps:ℕ} {t1 t2:RType} {st:CheckState}
  (hst:Good env ar plain st.substitution) (ht1:WellKinded ar plain t1)
  (ht2:WellKinded ar plain t2) (h:sameUnderSubstitution env steps t1 t2 st=some true)
  {V:ℤ → TypeTerm} (hV:Solves (types env) V st.substitution) : Equal env t1 t2 V := by
 unfold sameUnderSubstitution at h
 split at h
 · obtain rfl:=of_decide_eq_true (Option.some.inj h)
   rfl
 · split_ifs at h with hnil hsame hsyn
   · obtain ⟨rfl,rfl,hn⟩:=hnil
     rw [Equal,den_tyApp,den_tyApp,hn]
   · exact den_eq_of_plainTypeEqUnder hst ht1 ht2 h V hV
   all_goals cases h
 · cases h

theorem den_of_rigid (hwf:WellFormed env ar plain) (V:ℤ → TypeTerm) :
  Rigid env t → den env V t =
   match t with
   | .type=>.type
   | .tyApp c ts=>.app c.getUnique (ts.map (den env V))
   | .fun_ onts t=>.fun_ ((onts.map Prod.snd).map (den env V)) (den env V t)
   | .forall_ ns t=>.forall_ ns (den env V t)
   | .infVar _ i=>V i := by
 intro ht
 cases t with
 | tyApp c ts=>exact den_of_not_synonym hwf.acyclic V ht ts
 | fun_ onts t=>exact den_fun V onts t
 | _=>rfl

theorem outcome_pairs {f:RType → RType → CheckState → Option (Bool × CheckState)}
  (hf:∀ {t1 t2 st b st'}, Good env ar plain st.substitution → WellKinded ar plain t1 →
   WellKinded ar plain t2 → f t1 t2 st=some (b,st') →
   Outcome env ar plain st (Equal env t1 t2) b st') {ts1 ts2:List RType}
  (h1:∀ t ∈ ts1, WellKinded ar plain t) (h2:∀ t ∈ ts2, WellKinded ar plain t)
  {rs:List Bool} (hst:Good env ar plain st.substitution)
  (h:Unify.traverse (fun (a,b)=>f a b) (ts1.zip ts2) st=some (rs,st')) :
  Outcome env ar plain st (fun V=>∀ p ∈ ts1.zip ts2, Equal env p.1 p.2 V) (rs.all id) st' := by
 refine outcome_traverse (ts1.zip ts2) (fun p hp st b st' hst hf' =>?_) hst h
 obtain ⟨hp1,hp2⟩:=List.of_mem_zip hp
 exact hf hst (h1 _ hp1) (h2 _ hp2) hf'

section Recursion
variable {unifyFuel:ℕ → RType → RType → CheckState → Option (Bool × CheckState)} {fuel:ℕ}

variable {t1 t2 t:RType} {st st': CheckState} {b:Bool}

theorem outcome_unifyBase (hwf:WellFormed env ar plain)
  (hf:∀ {t1 t2 st b st'}, Good env ar plain st.substitution → WellKinded ar plain t1 →
   WellKinded ar plain t2 → unifyFuel fuel t1 t2 st=some (b,st') →
   Outcome env ar plain st (Equal env t1 t2) b st')
  (hst:Good env ar plain st.substitution) (ht1:WellKinded ar plain t1)
  (ht2:WellKinded ar plain t2) (hr1:Rigid env t1) (hr2:Rigid env t2)
  (h:unifyBase unifyFuel fuel t1 t2 st=some (b,st')) :
  Outcome env ar plain st (Equal env t1 t2) b st' := by
 unfold unifyBase at h
 split at h
 · next n1 ts1 n2 ts2=>
   simp only [Option.bind_eq_bind,Option.bind_eq_some_iff,Prod.exists] at h
   obtain ⟨rs,st1,hrs,heq⟩:=h
   obtain ⟨rfl,rfl⟩:=Prod.mk.inj (Option.some.inj heq)
   have hout:=outcome_pairs hf (wellKindedEach_iff.1 ht1.2.2) (wellKindedEach_iff.1 ht2.2.2)
    hst hrs
   by_cases hn:n1.getUnique=n2.getUnique
   · rw [decide_eq_true hn,Bool.true_and]
     refine hout.congr fun V _=>?_
     have hlen:ts1.length=ts2.length:=by rw [ht1.2.1,ht2.2.1,hn]
     rw [Equal,den_of_rigid hwf V hr1,den_of_rigid hwf V hr2]
     dsimp only
     rw [hn,TypeTerm.app.injEq,←forall_mem_zip_iff hlen]
     exact ⟨fun h=>⟨rfl,h⟩,fun h=>h.2⟩
   · rw [decide_eq_false hn,Bool.false_and]
     refine hout.fail fun _ V heq=>hn ?_
     rw [Equal,den_of_rigid hwf V hr1,den_of_rigid hwf V hr2] at heq
     exact (TypeTerm.app.inj heq).1
 · next onts1 u1 onts2 u2=>
   split at h
   · next hlen=>
     simp only [Option.bind_eq_bind,Option.bind_eq_some_iff,Prod.exists] at h
     obtain ⟨rs,st1,hrs,r,st2,hr,heq⟩:=h
     obtain ⟨rfl,rfl⟩:=Prod.mk.inj (Option.some.inj heq)
     have h1:=outcome_pairs hf (wellKindedArgs_iff.1 ht1.1) (wellKindedArgs_iff.1 ht2.1) hst hrs
     rw [Bool.and_comm]
     refine (h1.and (hf h1.good ht1.2 ht2.2 hr)).congr fun V _=>?_
     have hlen' : (onts1.map Prod.snd).length=(onts2.map Prod.snd).length:=by
      rw [List.length_map,List.length_map,hlen]
     rw [Equal,Equal,den_fun,den_fun,TypeTerm.fun_.injEq,←forall_mem_zip_iff hlen']
     rfl
   · next hlen=>
     obtain ⟨rfl,rfl⟩:=Prod.mk.inj (Option.some.inj h)
     refine .stay hst (fun hb=>by cases hb) fun _ _ V _ heq=>hlen ?_
     rw [Equal,den_fun,den_fun] at heq
     simpa using congrArg List.length (TypeTerm.fun_.inj heq).1
 · obtain ⟨rfl,rfl⟩:=Prod.mk.inj (Option.some.inj h)
   exact .stay hst (fun _ _ _=>rfl) fun hb=>by cases hb
 · next happ hfun htype=>
   obtain ⟨rfl,rfl⟩:=Prod.mk.inj (Option.some.inj h)
   refine .stay hst (fun hb=>by cases hb) fun _ hp V _ heq=>?_
   rw [Equal,den_of_rigid hwf V hr1,den_of_rigid hwf V hr2] at heq
   subst hp
   cases t1 <;> cases t2
   case tyApp.tyApp=>exact happ _ _ _ _ rfl rfl
   case fun_.fun_=>exact hfun _ _ _ _ rfl rfl
   case type.type=>exact htype rfl rfl
   case forall_.forall_=>cases ht1.1
   all_goals first | exact hr1 | exact hr2 | cases heq

theorem tryExpandTypeSynonym_eq (n:Resolved) (ts:List RType) (st:CheckState) :
  (∃ ps b, env.synonym n.getUnique=some (ps,b) ∧ tryExpandTypeSynonym env n ts st =
   (some (substituteType ((ps.map Resolved.getUnique).zip ts) b),st)) ∨
  (env.synonym n.getUnique=none ∧ ∃ es, tryExpandTypeSynonym env n ts st =
   (none,{ st with errors:=st.errors ++ es })) := by
 have hnil:({ st with errors:=st.errors ++ [] } : CheckState)=st:=by rw [List.append_nil]
 unfold tryExpandTypeSynonym getEntityInfo CheckEnv.synonym
 cases hl:env.entityInfo.lookup n.getUnique with
 | none=>
  refine .inr ⟨rfl, ?_⟩
  by_cases ho:isOutOfScope n
  · exact ⟨[],by simp [ho]⟩
  · exact ⟨[.missingEntityInfo n],by simp [ho,CheckState.addError]⟩
 | some ce=>
  cases ce with
  | knownType params syn=>
   cases syn with
   | none=>exact .inr ⟨rfl,[],by rw [hnil]⟩
   | some b=>exact .inl ⟨params,b,rfl,rfl⟩
  | _=>exact .inr ⟨rfl,[],by rw [hnil]⟩

theorem outcome_tryExpand (hwf:WellFormed env ar plain)
  {E:(ℤ → TypeTerm) → Prop} {kSuccess:RType → CheckState → Option (Bool × CheckState)}
  {kFail:CheckState → Option (Bool × CheckState)} (hst:Good env ar plain st.substitution)
  (ht:WellKinded ar plain t) (hvar:∀ rn i, t ≠ .infVar rn i)
  (hsuccess:∀ t', WellKinded ar plain t' → (∀ V, den env V t' = den env V t) →
   kSuccess t' st=some (b,st') → Outcome env ar plain st E b st')
  (hfail:Rigid env t → ∀ st1 : CheckState, st1.substitution=st.substitution →
   kFail st1=some (b,st') → Outcome env ar plain st1 E b st')
  (h:tryExpand env fuel t st kSuccess kFail=some (b,st')) :
  Outcome env ar plain st E b st' := by
 unfold tryExpand at h
 cases t with
 | tyApp n ts=>
  dsimp only at h
  obtain ⟨ps,body,hsyn,heq⟩ | ⟨hsyn,es,heq⟩:=tryExpandTypeSynonym_eq n ts st
  · rw [heq] at h
    dsimp only at h
    split at h
    · obtain ⟨rfl,rfl⟩:=Prod.mk.inj (Option.some.inj h)
      exact .addError hst _
    · refine hsuccess _ ?_ (fun V=>?_) h
      · exact wellKinded_substituteType
         (fun u a ha=>wellKindedEach_iff.1 ht.2.2 a (lookup_zip_mem ha)) body
         (hwf.wellKinded _ _ _ hsyn)
      · exact (den_of_synonym hwf.acyclic V hsyn (hwf.closed _ _ _ hsyn) ts).symm
  · rw [heq] at h
    have hout:=hfail hsyn { st with errors:=st.errors ++ es } rfl h
    refine hout.after_errors ?_ ⟨es, ?_⟩ <;> rfl
 | infVar rn i=>exact absurd rfl (hvar rn i)
 | _=>exact hfail trivial st rfl h

theorem outcome_expandAndUnify (hwf:WellFormed env ar plain)
  (hf:∀ {fuel t1 t2 st b st'}, Good env ar plain st.substitution → WellKinded ar plain t1 →
   WellKinded ar plain t2 → unifyFuel fuel t1 t2 st=some (b,st') →
   Outcome env ar plain st (Equal env t1 t2) b st')
  (hst:Good env ar plain st.substitution) (ht1:WellKinded ar plain t1)
  (ht2:WellKinded ar plain t2) (hvar1:∀ rn i, t1 ≠ .infVar rn i)
  (hvar2:∀ rn i, t2 ≠ .infVar rn i)
  (h:expandAndUnify env unifyFuel fuel t1 t2 st=some (b,st')) :
  Outcome env ar plain st (Equal env t1 t2) b st' := by
 refine outcome_tryExpand hwf hst ht1 hvar1 (fun t1' ht1' hden h1=>?_)
  (fun hr1 st1 hst1 h1=>?_) h
 · refine (hf hst ht1' ht2 h1).congr fun V _=>?_
   rw [Equal,Equal,hden]
 · rw [←hst1] at hst
   refine outcome_tryExpand hwf hst ht2 hvar2 (fun t2' ht2' hden h2=>?_)
    (fun hr2 st2 hst2 h2=>?_) h1
   · refine (hf hst ht1 ht2' h2).congr fun V _=>?_
     rw [Equal,Equal,hden]
   · rw [←hst2] at hst
     exact outcome_unifyBase hwf hf hst ht1 ht2 hr1 hr2 h2

theorem not_poisoned (ht:WellKinded ar plain t) : poisoned t=false := by
 cases t with
 | tyApp c ts=>exact ht.1
 | _=>rfl

theorem outcome_unify' (hwf:WellFormed env ar plain)
  (hf:∀ {fuel t1 t2 st b st'}, Good env ar plain st.substitution → WellKinded ar plain t1 →
   WellKinded ar plain t2 → unifyFuel fuel t1 t2 st=some (b,st') →
   Outcome env ar plain st (Equal env t1 t2) b st') {steps:ℕ}
  (hst:Good env ar plain st.substitution)
  (ht1:WellKinded ar plain t1) (ht2:WellKinded ar plain t2)
  (hw1:∀ rn i, t1 = .infVar rn i → st.substitution i=none)
  (hw2:∀ rn i, t2 = .infVar rn i → st.substitution i=none)
  (h:unify' env unifyFuel steps fuel t1 t2 st=some (b,st')) :
  Outcome env ar plain st (Equal env t1 t2) b st' := by
 unfold unify' at h
 simp only [Option.bind_eq_bind,Option.bind_eq_some_iff] at h
 obtain ⟨same,hsame,h⟩:=h
 cases same with
 | true=>
  obtain ⟨rfl,rfl⟩:=Prod.mk.inj (Option.some.inj h)
  exact .stay hst (fun _ V hV=>equal_of_sameUnderSubstitution hst ht1 ht2 hsame hV)
   fun hb=>by cases hb
 | false=>
  rw [if_neg Bool.false_ne_true] at h
  by_cases hvar1:∃ rn i, t1 = .infVar rn i
  · obtain ⟨rn1,i1,rfl⟩:=hvar1
    refine (outcome_bindChecked hwf hst (hw1 rn1 i1 rfl) ht2 (fun rn2 i2 heq=>?_) h)
    subst heq
    refine ⟨hw2 rn2 i2 rfl,fun hi=>?_⟩
    rw [hi,sameUnderSubstitution,decide_eq_true rfl] at hsame
    cases hsame
  · by_cases hvar2:∃ rn i, t2 = .infVar rn i
    · obtain ⟨rn2,i2,rfl⟩:=hvar2
      have hbind:bindChecked steps i2 t1 st=some (b,st'):=by
       cases t1 with
       | infVar rn1 i1=>exact absurd ⟨rn1,i1,rfl⟩ hvar1
       | _=>exact h
      refine (outcome_bindChecked hwf hst (hw2 rn2 i2 rfl) ht1 (fun rn1 i1 heq=>?_)
       hbind).congr fun V _=>eq_comm
      exact absurd ⟨rn1,i1,heq⟩ hvar1
    · have hvar1' : ∀ rn i, t1 ≠ .infVar rn i:=fun rn i heq=>hvar1 ⟨rn,i,heq⟩
      have hvar2' : ∀ rn i, t2 ≠ .infVar rn i:=fun rn i heq=>hvar2 ⟨rn,i,heq⟩
      have hexpand:expandAndUnify env unifyFuel fuel t1 t2 st=some (b,st'):=by
       split at h
       · exact absurd rfl (hvar1' _ _)
       · exact absurd rfl (hvar2' _ _)
       · rw [not_poisoned ht1,not_poisoned ht2] at h
         exact h
      exact outcome_expandAndUnify hwf hf hst ht1 ht2 hvar1' hvar2' hexpand

end Recursion

/-- What unification leaves is a most general solution, and it fails only where there is none. -/
theorem outcome_unifyFuel (hwf:WellFormed env ar plain) {steps:ℕ} :
  ∀ {fuel:ℕ} {t1 t2:RType} {st:CheckState} {b:Bool} {st' : CheckState},
   Good env ar plain st.substitution → WellKinded ar plain t1 → WellKinded ar plain t2 →
   unifyFuel env steps fuel t1 t2 st=some (b,st') →
   Outcome env ar plain st (Equal env t1 t2) b st' := by
 induction steps with
 | zero=>exact fun _ _ _ h=>by cases h
 | succ steps ih=>
  intro fuel t1 t2 st b st' hst ht1 ht2 h
  simp only [unifyFuel,Option.bind_eq_bind,Option.bind_eq_some_iff] at h
  obtain ⟨u1,hu1,u2,hu2,h⟩:=h
  obtain ⟨hk1,hden1,hw1⟩:=walkHeadIn_spec hst ht1 hu1
  obtain ⟨hk2,hden2,hw2⟩:=walkHeadIn_spec hst ht2 hu2
  refine (outcome_unify' hwf ih hst hk1 hk2 hw1 hw2 h).congr fun V hV=>?_
  rw [Equal,Equal,hden1 V hV,hden2 V hV]

end L4Ide.UnificationCorrect
