import L4Ide.TypeKinds

set_option autoImplicit false

/-!
# What unification does to a substitution

An outcome relates the state before and after a step to the equation that the step solves.
Outcomes compose, and each function of the unifier has one.
-/
namespace L4Ide.UnifyOutcomes
open Syntax Unify TypeMeaning TypeKinds TriangularSystems

variable {env:CheckEnv} {ar:Unique → ℕ} {plain:Bool}

structure Good (env:CheckEnv) (ar:Unique → ℕ) (plain:Bool) (s:Substitution) : Prop where
 acyclic : Acyclic (types env) s
 wellKinded : ∀ i t, s i=some t → WellKinded ar plain t

variable {s:Substitution} {t t' : RType} {A:Type}

theorem walkHeadIn_spec (hs:Good env ar plain s) {steps:ℕ}
  (ht:WellKinded ar plain t) (h:walkHeadIn s steps t=some t') :
  WellKinded ar plain t' ∧ (∀ V, Solves (types env) V s → den env V t' = den env V t) ∧
   ∀ rn i, t' = .infVar rn i → s i=none := by
 induction steps generalizing t with
 | zero=>cases h
 | succ steps ih=>
  cases t with
  | infVar rn i=>
   rw [walkHeadIn] at h
   cases hi:s i with
   | none=>
    rw [hi] at h
    obtain rfl:=Option.some.inj h
    refine ⟨ht,fun _ _=>rfl,fun rn' j heq=>?_⟩
    obtain ⟨-,rfl⟩:=Type'.infVar.inj heq
    exact hi
   | some u=>
    rw [hi] at h
    obtain ⟨hk,hden,hvar⟩:=ih (hs.wellKinded i u hi) h
    exact ⟨hk,fun V hV=>(hden V hV).trans (hV i u hi).symm,hvar⟩
  | _=>
   obtain rfl:=Option.some.inj h
   exact ⟨ht,fun _ _=>rfl,fun _ _ heq=>by cases heq⟩

structure Applied (env:CheckEnv) (ar:Unique → ℕ) (plain:Bool) (s:Substitution)
  (t t' : RType) : Prop where
 resolved : Resolved (types env) s t'
 wellKinded : WellKinded ar plain t'
 den : ∀ V, Solves (types env) V s → TypeMeaning.den env V t' = TypeMeaning.den env V t

theorem Applied.of_compresses {s1:Substitution} (hc:Compresses (types env) s s1)
  (h:Applied env ar plain s1 t t') : Applied env ar plain s t t' :=
 ⟨hc.resolved_iff.2 h.resolved,h.wellKinded,fun V hV=>h.den V ((hc.solves_iff V).1 hV)⟩

structure Application (env:CheckEnv) (ar:Unique → ℕ) (plain:Bool) (s:Substitution)
  (t t' : RType) (s' : Substitution) : Prop extends Applied env ar plain s t t' where
 compresses : Compresses (types env) s s'
 good : Good env ar plain s'

theorem traverse_application {f:A → Substitution → Option (A × Substitution)} (type:A → RType)
  (hf:∀ a s a' s', Good env ar plain s → WellKinded ar plain (type a) → f a s=some (a', s') →
   Application env ar plain s (type a) (type a') s') (as:List A) :
  ∀ s as' s', Good env ar plain s → (∀ a ∈ as, WellKinded ar plain (type a)) →
   Unify.traverse f as s=some (as', s') →
   Compresses (types env) s s' ∧ Good env ar plain s' ∧
    List.Forall₂ (fun a a' =>Applied env ar plain s (type a) (type a')) as as' := by
 induction as with
 | nil=>
  intro s as' s' hs _ h
  obtain ⟨rfl,rfl⟩:=Prod.mk.inj (Option.some.inj h)
  exact ⟨.refl hs.acyclic,hs,.nil⟩
 | cons a as ih=>
  intro s as' s' hs hk h
  simp only [Unify.traverse,Option.bind_eq_bind,Option.bind_eq_some_iff,Prod.exists] at h
  obtain ⟨b,s1,hb,bs,s2,hbs,heq⟩:=h
  obtain ⟨rfl,rfl⟩:=Prod.mk.inj (Option.some.inj heq)
  have h1:=hf a s b s1 hs (hk a List.mem_cons_self) hb
  obtain ⟨hc,hg,hall⟩:=ih s1 bs s2 h1.good (fun a ha=>hk a (List.mem_cons_of_mem _ ha)) hbs
  exact ⟨h1.compresses.trans hc,hg,
   .cons h1.toApplied (hall.imp fun _ _ h=>h.of_compresses h1.compresses)⟩

theorem resolved_each {ts:List RType}
  (h:∀ t ∈ ts, Resolved (types env) s t) : ∀ j ∈ infVarsEach ts, s j=none := by
 induction ts with
 | nil=>exact fun j hj=>by cases hj
 | cons t ts ih=>
  intro j hj
  rcases List.mem_append.1 hj with hj | hj
  · exact h t List.mem_cons_self j hj
  · exact ih (fun t ht=>h t (List.mem_cons_of_mem _ ht)) j hj

theorem resolved_args {onts:List (Option Resolved × RType)}
  (h:∀ p ∈ onts, Resolved (types env) s p.2) : ∀ j ∈ infVarsArgs onts, s j=none := by
 induction onts with
 | nil=>exact fun j hj=>by cases hj
 | cons p onts ih=>
  obtain ⟨n,t⟩:=p
  intro j hj
  rcases List.mem_append.1 hj with hj | hj
  · exact h (n,t) List.mem_cons_self j hj
  · exact ih (fun p hp=>h p (List.mem_cons_of_mem _ hp)) j hj

theorem map_den_eq {type:A → RType} {as as' : List A}
  (h:List.Forall₂ (fun a a' =>Applied env ar plain s (type a) (type a')) as as')
  {V:ℤ → TypeTerm} (hV:Solves (types env) V s) :
  (as'.map type).map (den env V)=(as.map type).map (den env V) := by
 induction h with
 | nil=>rfl
 | cons hab _ ih=>rw [List.map_cons,List.map_cons,List.map_cons,List.map_cons,ih,hab.den V hV]

theorem applied_of_mem {type:A → RType} {as as' : List A}
  (h:List.Forall₂ (fun a a' =>Applied env ar plain s (type a) (type a')) as as') {a' : A}
  (ha' : a' ∈ as') : Resolved (types env) s (type a') ∧ WellKinded ar plain (type a') := by
 induction h with
 | nil=>cases ha'
 | cons hab _ ih=>
  rcases List.mem_cons.1 ha' with rfl | ha'
  · exact ⟨hab.resolved,hab.wellKinded⟩
  · exact ih ha'

/-- What applies a substitution gives a type with nothing bound in it, and the same solutions. -/
theorem applySubst_spec {steps:ℕ} :
  ∀ {t:RType} {s:Substitution} {t' : RType} {s' : Substitution}, Good env ar plain s →
   WellKinded ar plain t → applySubst steps t s=some (t', s') →
   Application env ar plain s t t' s' := by
 induction steps with
 | zero=>exact fun _ _ h=>by cases h
 | succ steps ih=>
  intro t s t' s' hs ht h
  cases t with
  | type=>
   obtain ⟨rfl,rfl⟩:=Prod.mk.inj (Option.some.inj h)
   have hresolved:Resolved (types env) s .type:=fun j hj=>by cases hj
   exact ⟨⟨hresolved,trivial,fun _ _=>rfl⟩,.refl hs.acyclic,hs⟩
  | tyApp c ts=>
   simp only [applySubst,Option.bind_eq_bind,Option.bind_eq_some_iff,Prod.exists] at h
   obtain ⟨ts', s1,hts,heq⟩:=h
   obtain ⟨rfl,rfl⟩:=Prod.mk.inj (Option.some.inj heq)
   obtain ⟨hc,hlen,hkinds⟩:=ht
   obtain ⟨hcomp,hgood,hall⟩:=traverse_application id
    (fun a s a' s' hs ha h=>ih hs ha h) ts s ts' s1 hs (wellKindedEach_iff.1 hkinds) hts
   refine ⟨⟨resolved_each fun t ht=>(applied_of_mem hall ht).1,⟨hc, ?_, ?_⟩,fun V hV=>?_⟩,
    hcomp,hgood⟩
   · rw [←hlen,hall.length_eq]
   · exact wellKindedEach_iff.2 fun t ht=>(applied_of_mem hall ht).2
   · have hmap:=map_den_eq hall hV
     rw [List.map_id,List.map_id] at hmap
     rw [den_tyApp,den_tyApp,hmap]
  | fun_ onts t=>
   simp only [applySubst,Option.bind_eq_bind,Option.bind_eq_some_iff,Prod.exists] at h
   obtain ⟨onts', s1,honts,u,s2,hu,heq⟩:=h
   obtain ⟨rfl,rfl⟩:=Prod.mk.inj (Option.some.inj heq)
   obtain ⟨hk1,hk2⟩:=ht
   have honts' : ∀ p ∈ onts, WellKinded ar plain p.2:=fun p hp=>
    wellKindedArgs_iff.1 hk1 p.2 (List.mem_map.2 ⟨p,hp,rfl⟩)
   obtain ⟨hcomp,hgood,hall⟩:=traverse_application Prod.snd
    (fun a s a' s' hs ha h=>by
     obtain ⟨n,a⟩:=a
     simp only [Option.bind_eq_some_iff,Prod.exists] at h
     obtain ⟨b,s1,hb,heq⟩:=h
     obtain ⟨rfl,rfl⟩:=Prod.mk.inj (Option.some.inj heq)
     exact ih hs ha hb) onts s onts' s1 hs honts' honts
   have hres:=ih hgood hk2 hu
   have hres' :=hres.toApplied.of_compresses hcomp
   refine ⟨⟨fun j hj=>?_,⟨?_,hres.wellKinded⟩,fun V hV=>?_⟩,
    hcomp.trans hres.compresses,hres.good⟩
   · rcases List.mem_append.1 hj with hj | hj
     · exact resolved_args (fun p hp=>(applied_of_mem hall hp).1) j hj
     · exact hres'.resolved j hj
   · refine wellKindedArgs_iff.2 fun t ht=>?_
     obtain ⟨p,hp,rfl⟩:=List.mem_map.1 ht
     exact (applied_of_mem hall hp).2
   · rw [den_fun,den_fun,map_den_eq hall hV,hres'.den V hV]
  | forall_ ns t=>
   simp only [applySubst,Option.bind_eq_bind,Option.bind_eq_some_iff,Prod.exists] at h
   obtain ⟨u,s1,hu,heq⟩:=h
   obtain ⟨rfl,rfl⟩:=Prod.mk.inj (Option.some.inj heq)
   have hres:=ih hs ht.2 hu
   refine ⟨⟨hres.resolved,⟨ht.1,hres.wellKinded⟩,fun V hV=>?_⟩,hres.compresses,hres.good⟩
   rw [den_forall,den_forall,hres.den V hV]
  | infVar rn i=>
   rw [applySubst] at h
   cases hi:s i with
   | none=>
    rw [hi] at h
    obtain ⟨rfl,rfl⟩:=Prod.mk.inj (Option.some.inj h)
    refine ⟨⟨fun j hj=>?_,trivial,fun _ _=>rfl⟩,.refl hs.acyclic,hs⟩
    rw [List.mem_singleton.1 hj,hi]
   | some u=>
    rw [hi] at h
    simp only [Option.bind_eq_bind,Option.bind_eq_some_iff,Prod.exists] at h
    obtain ⟨u', s1,hu,heq⟩:=h
    obtain ⟨rfl,rfl⟩:=Prod.mk.inj (Option.some.inj heq)
    have hres:=ih hs (hs.wellKinded i u hi) hu
    have hden:∀ V, Solves (types env) V s → den env V u' = den env V (.infVar rn i):=
     fun V hV=>(hres.den V hV).trans (hV i u hi).symm
    obtain ⟨w,hw⟩ : ∃ w, s1 i=some w:=by
     refine Option.ne_none_iff_exists'.1 fun hnone=>?_
     rw [(hres.compresses.none_iff i).2 hnone] at hi
     cases hi
    have hupdate:Compresses (types env) s1 (Function.update s1 i (some u')):=by
     refine compresses_update hres.good.acyclic hw (hres.compresses.resolved_iff.1 hres.resolved)
      fun V hV=>?_
     exact (hden V ((hres.compresses.solves_iff V).2 hV)).trans (hV i w hw)
    refine ⟨⟨hres.resolved,hres.wellKinded,hden⟩,hres.compresses.trans hupdate,
     hupdate.acyclic,fun j v hj=>?_⟩
    by_cases hji:j=i
    · rw [hji,Function.update_self] at hj
      exact Option.some.inj hj ▸ hres.wellKinded
    · rw [Function.update_of_ne hji] at hj
      exact hres.good.wellKinded j v hj

theorem applySubst_not_infVar {steps:ℕ} {s' : Substitution}
  (h:applySubst steps t s=some (t', s')) (ht:∀ rn i, t ≠ .infVar rn i) (rn:RawName)
  (i:ℤ) : t' ≠ .infVar rn i := by
 rintro rfl
 cases steps with
 | zero=>cases h
 | succ steps=>
  cases t with
  | infVar rn j=>exact ht rn j rfl
  | type=>cases h
  | _=>simp [applySubst,Option.bind_eq_some_iff] at h

theorem applySubst_unbound {steps:ℕ} {rn:RawName} {i:ℤ} {s' : Substitution}
  (h:applySubst steps (.infVar rn i) s=some (t', s')) (hi:s i=none) :
  t' = .infVar rn i := by
 cases steps with
 | zero=>cases h
 | succ steps=>
  rw [applySubst,hi] at h
  exact (Prod.mk.inj (Option.some.inj h)).1.symm

theorem map_eq_of_alike {B:Type} {eq:A → A → Option Bool} {g:A → B} {as bs:List A}
  (hlen:as.length=bs.length) (h:alike eq as bs=some true)
  (heq:∀ a ∈ as, ∀ b ∈ bs, eq a b=some true → g a=g b) : as.map g=bs.map g := by
 induction as generalizing bs with
 | nil=>
  obtain rfl:=List.length_eq_zero_iff.1 hlen.symm
  rfl
 | cons a as ih=>
  cases bs with
  | nil=>cases hlen
  | cons b bs=>
   simp only [alike,Option.bind_eq_bind,Option.bind_eq_some_iff] at h
   obtain ⟨r,hr,rs,hrs,hand⟩:=h
   obtain ⟨rfl,rfl⟩:=(Bool.and_eq_true_iff ..).1 (Option.some.inj hand)
   rw [List.map_cons,List.map_cons,heq a List.mem_cons_self b List.mem_cons_self hr,
    ih (Nat.succ.inj hlen) hrs fun a ha b hb=>
     heq a (List.mem_cons_of_mem _ ha) b (List.mem_cons_of_mem _ hb)]

theorem den_eq_of_plainTypeEqUnder (hs:Good env ar plain s) {steps:ℕ} :
  ∀ {t1 t2:RType}, WellKinded ar plain t1 → WellKinded ar plain t2 →
   plainTypeEqUnder s steps t1 t2=some true → ∀ V, Solves (types env) V s →
    den env V t1=den env V t2 := by
 induction steps with
 | zero=>exact fun _ _ h=>by cases h
 | succ steps ih=>
  intro t1 t2 ht1 ht2 h V hV
  simp only [plainTypeEqUnder,Option.bind_eq_bind,Option.bind_eq_some_iff] at h
  obtain ⟨u1,hu1,u2,hu2,h⟩:=h
  obtain ⟨hk1,hden1,-⟩:=walkHeadIn_spec hs ht1 hu1
  obtain ⟨hk2,hden2,-⟩:=walkHeadIn_spec hs ht2 hu2
  rw [←hden1 V hV,←hden2 V hV]
  cases u1 <;> cases u2
  case type.type=>rfl
  case tyApp.tyApp n1 ts1 n2 ts2=>
   simp only [Option.bind_eq_some_iff] at h
   obtain ⟨r,hr,h⟩:=h
   obtain ⟨⟨hn,hlen⟩,rfl⟩ : (n1.getUnique=n2.getUnique ∧ ts1.length=ts2.length) ∧ r=true:=by
    simpa using Option.some.inj h
   rw [den_tyApp,den_tyApp,hn,map_eq_of_alike hlen hr fun a ha b hb hab=>
    ih (wellKindedEach_iff.1 hk1.2.2 a ha) (wellKindedEach_iff.1 hk2.2.2 b hb) hab V hV]
  case fun_.fun_ onts1 t1 onts2 t2=>
   simp only [Option.bind_eq_some_iff] at h
   obtain ⟨r,hr,r', hr', h⟩:=h
   obtain ⟨⟨hlen,rfl⟩,rfl⟩ : (onts1.length=onts2.length ∧ r=true) ∧ r' = true:=by
    simpa using Option.some.inj h
   have hlen' : (onts1.map Prod.snd).length=(onts2.map Prod.snd).length:=by
    rw [List.length_map,List.length_map,hlen]
   rw [den_fun,den_fun,ih hk1.2 hk2.2 hr' V hV,map_eq_of_alike hlen' hr fun a ha b hb hab=>
    ih (wellKindedArgs_iff.1 hk1.1 a ha) (wellKindedArgs_iff.1 hk2.1 b hb) hab V hV]
  case infVar.infVar rn1 i1 rn2 i2=>
   obtain rfl : i1=i2:=by simpa using h
   rfl
  all_goals cases h

/-- What a step makes of a state when it is to solve an equation. Only where types are plain
    does a failure show that there was no solution. -/
structure Outcome (env:CheckEnv) (ar:Unique → ℕ) (plain:Bool) (st:CheckState)
  (E:(ℤ → TypeTerm) → Prop) (b:Bool) (st' : CheckState) : Prop where
 good : Good env ar plain st'.substitution
 bound : ∀ i, st'.substitution i=none → st.substitution i=none
 old : ∀ V, Solves (types env) V st'.substitution → Solves (types env) V st.substitution
 errors : ∃ es, st'.errors=st.errors ++ es
 sound : b=true → st'.errors=st.errors → ∀ V, Solves (types env) V st'.substitution → E V
 general : b=true → ∀ V, Solves (types env) V st.substitution → E V →
  Solves (types env) V st'.substitution
 refuted : b=false → plain=true → ∀ V, Solves (types env) V st.substitution → ¬E V

section Rules
variable {st st1 st' : CheckState} {E E1 E2:(ℤ → TypeTerm) → Prop} {b b1 b2:Bool}

theorem Outcome.congr (h:Outcome env ar plain st E1 b st')
  (hE:∀ V, Solves (types env) V st.substitution → (E1 V ↔ E2 V)) :
  Outcome env ar plain st E2 b st' :=
 ⟨h.good,h.bound,h.old,h.errors,fun hb he V hV=>(hE V (h.old V hV)).1 (h.sound hb he V hV),
  fun hb V hV hEV=>h.general hb V hV ((hE V hV).2 hEV),
  fun hb hp V hV hEV=>h.refuted hb hp V hV ((hE V hV).2 hEV)⟩

theorem Outcome.stay (hst:Good env ar plain st.substitution)
  (htrue:b=true → ∀ V, Solves (types env) V st.substitution → E V)
  (hfalse:b=false → plain=true → ∀ V, Solves (types env) V st.substitution → ¬E V) :
  Outcome env ar plain st E b st :=
 ⟨hst,fun _ h=>h,fun _ h=>h,⟨[],(List.append_nil _).symm⟩,fun hb _=>htrue hb,
  fun _ _ hV _=>hV,hfalse⟩

theorem Outcome.fail (h:Outcome env ar plain st E1 b st')
  (hE:plain=true → ∀ V, ¬E V) : Outcome env ar plain st E false st' :=
 ⟨h.good,h.bound,h.old,h.errors,fun hb=>(Bool.false_ne_true hb).elim,
  fun hb=>(Bool.false_ne_true hb).elim,fun _ hp V _=>hE hp V⟩

theorem Outcome.and (h1:Outcome env ar plain st E1 b1 st1)
  (h2:Outcome env ar plain st1 E2 b2 st') :
  Outcome env ar plain st (fun V=>E1 V ∧ E2 V) (b1 && b2) st' := by
 obtain ⟨es1,hes1⟩:=h1.errors
 obtain ⟨es2,hes2⟩:=h2.errors
 refine ⟨h2.good,fun i hi=>h1.bound i (h2.bound i hi),fun V hV=>h1.old V (h2.old V hV),
  ⟨es1 ++ es2,by rw [hes2,hes1,List.append_assoc]⟩,fun hb he V hV=>?_,fun hb V hV hE=>?_,
  fun hb hp V hV hE=>?_⟩
 · obtain ⟨hb1,hb2⟩:=(Bool.and_eq_true_iff ..).1 hb
   rw [hes2,hes1,List.append_assoc] at he
   obtain ⟨rfl,rfl⟩:=List.append_eq_nil_iff.1 (List.append_right_eq_self.1 he)
   rw [List.append_nil] at hes1 hes2
   exact ⟨h1.sound hb1 hes1 V (h2.old V hV),h2.sound hb2 hes2 V hV⟩
 · obtain ⟨hb1,hb2⟩:=(Bool.and_eq_true_iff ..).1 hb
   exact h2.general hb2 V (h1.general hb1 V hV hE.1) hE.2
 · cases hb1:b1 with
   | false=>exact h1.refuted hb1 hp V hV hE.1
   | true=>
    rw [hb1,Bool.true_and] at hb
    exact h2.refuted hb hp V (h1.general hb1 V hV hE.1) hE.2

theorem Outcome.after_errors (hsub:st1.substitution=st.substitution)
  (herr:∃ es, st1.errors=st.errors ++ es) (h:Outcome env ar plain st1 E b st') :
  Outcome env ar plain st E b st' := by
 obtain ⟨es1,hes1⟩:=herr
 obtain ⟨es,hes⟩:=h.errors
 refine ⟨h.good,hsub ▸ h.bound,hsub ▸ h.old,⟨es1 ++ es,by rw [hes,hes1,List.append_assoc]⟩,
  fun hb he=>h.sound hb ?_,hsub ▸ h.general,hsub ▸ h.refuted⟩
 rw [hes,hes1,List.append_assoc] at he
 obtain ⟨rfl,rfl⟩:=List.append_eq_nil_iff.1 (List.append_right_eq_self.1 he)
 rw [hes,List.append_nil]

theorem Outcome.addError (hst:Good env ar plain st.substitution) (e:CheckError) :
  Outcome env ar plain st E true (st.addError e) := by
 refine ⟨hst,fun _ h=>h,fun _ h=>h,⟨[e],rfl⟩,fun _ he=>?_,fun _ _ hV _=>hV,
  fun hb=>(Bool.false_ne_true hb.symm).elim⟩
 cases List.append_right_eq_self.1 he

theorem outcome_traverse {A:Type} {f:A → CheckState → Option (Bool × CheckState)}
  {Eq:A → (ℤ → TypeTerm) → Prop} (as:List A)
  (hf:∀ a ∈ as, ∀ st b st', Good env ar plain st.substitution → f a st=some (b,st') →
   Outcome env ar plain st (Eq a) b st') :
  ∀ {st:CheckState} {rs:List Bool} {st' : CheckState}, Good env ar plain st.substitution →
   Unify.traverse f as st=some (rs,st') →
   Outcome env ar plain st (fun V=>∀ a ∈ as, Eq a V) (rs.all id) st' := by
 induction as with
 | nil=>
  intro st rs st' hst h
  obtain ⟨rfl,rfl⟩:=Prod.mk.inj (Option.some.inj h)
  exact .stay hst (fun _ _ _ a ha=>absurd ha List.not_mem_nil) fun hb=>by cases hb
 | cons a as ih=>
  intro st rs st' hst h
  simp only [Unify.traverse,Option.bind_eq_bind,Option.bind_eq_some_iff,Prod.exists] at h
  obtain ⟨b,st1,hb,bs,st2,hbs,heq⟩:=h
  obtain ⟨rfl,rfl⟩:=Prod.mk.inj (Option.some.inj heq)
  have h1:=hf a List.mem_cons_self st b st1 hst hb
  have h2:=ih (fun a ha=>hf a (List.mem_cons_of_mem _ ha)) h1.good hbs
  refine (h1.and h2).congr fun V _=>?_
  rw [List.forall_mem_cons]

end Rules

end L4Ide.UnifyOutcomes
