import L4Ide.UnificationCorrect
import L4Ide.SubstitutionApplies

set_option autoImplicit false

/-!
# Unification on types

What unification says about choices of types for the variables.
-/
namespace L4Ide.UnificationMostGeneral
open Syntax Unify TypeMeaning TypeKinds TriangularSystems UnifyOutcomes UnificationCorrect
 SubstitutionApplies

section Choices
variable (θ:ℤ → RType)

mutual

def instantiate : RType → RType
 | .type=>.type
 | .tyApp c ts=>.tyApp c (instantiateEach ts)
 | .fun_ onts t=>.fun_ (instantiateArgs onts) (instantiate t)
 | .forall_ ns t=>.forall_ ns (instantiate t)
 | .infVar _ i=>θ i

def instantiateEach : List RType → List RType
 | []=>[]
 | t::ts=>instantiate t::instantiateEach ts

def instantiateArgs : List (Option Resolved × RType) → List (Option Resolved × RType)
 | []=>[]
 | (n,t)::onts=>(n,instantiate t)::instantiateArgs onts

end

variable {θ} {env:CheckEnv}

mutual

theorem den_instantiate :
  ∀ t : RType, den env .var (instantiate θ t)=den env (fun i=>den env .var (θ i)) t
 | .type=>rfl
 | .tyApp c ts=>by
  rw [instantiate,den_tyApp,den_tyApp,map_den_instantiate ts]
 | .fun_ onts t=>by
  rw [instantiate,den_fun,den_fun,den_instantiate t,map_den_instantiateArgs onts]
 | .forall_ ns t=>by
  rw [instantiate,den_forall,den_forall,den_instantiate t]
 | .infVar _ i=>rfl

theorem map_den_instantiate : ∀ ts : List RType,
  (instantiateEach θ ts).map (den env .var)=ts.map (den env fun i=>den env .var (θ i))
 | []=>rfl
 | t::ts=>by
  rw [instantiateEach,List.map_cons,List.map_cons,den_instantiate t,map_den_instantiate ts]

theorem map_den_instantiateArgs : ∀ onts : List (Option Resolved × RType),
  ((instantiateArgs θ onts).map Prod.snd).map (den env .var) =
   (onts.map Prod.snd).map (den env fun i=>den env .var (θ i))
 | []=>rfl
 | (n,t)::onts=>by
  rw [instantiateArgs,List.map_cons,List.map_cons,List.map_cons,List.map_cons,
   den_instantiate t,map_den_instantiateArgs onts]

end

end Choices

variable (env:CheckEnv)

/-- Each bound variable is chosen as the substitution says. -/
def Extends (θ:ℤ → RType) (s:Substitution) : Prop :=
 ∀ i t, s i=some t → Same env (θ i) (instantiate θ t)

def Unifies (θ:ℤ → RType) (t1 t2:RType) : Prop :=
 Same env (instantiate θ t1) (instantiate θ t2)

variable {env} {θ:ℤ → RType} {s:Substitution} {ar:Unique → ℕ} {plain:Bool}

theorem extends_iff :
  Extends env θ s ↔ Solves (types env) (fun i=>den env .var (θ i)) s :=
 forall₃_congr fun _ t _=>by rw [Same,den_instantiate]; rfl

theorem unifies_iff {t1 t2:RType} :
  Unifies env θ t1 t2 ↔ Equal env t1 t2 fun i=>den env .var (θ i) := by
 rw [Unifies,Same,den_instantiate,den_instantiate,Equal]

theorem den_of_resolved {W:ℤ → TypeTerm} (hW:∀ i, s i=none → W i = .var i) {t:RType}
  (ht:Resolved (types env) s t) : den env W t=den env .var t :=
 (types env).den_congr fun j hj=>hW j (ht j hj)

theorem same_of_solved (hs:Good env ar plain s) {t1 t2:RType} (ht1:WellKinded ar plain t1)
  (ht2:WellKinded ar plain t2) (h:∀ V, Solves (types env) V s → Equal env t1 t2 V)
  {n1 n2:ℕ} {u1 u2:RType} {s1 s2:Substitution} (h1:applySubst n1 t1 s=some (u1,s1))
  (h2:applySubst n2 t2 s=some (u2,s2)) : Same env u1 u2 := by
 obtain ⟨W,hW,hvar⟩:=exists_solves hs.acyclic TypeTerm.var
 have happ1:=applySubst_spec hs ht1 h1
 have happ2:=applySubst_spec hs ht2 h2
 calc den env .var u1=den env W u1 := (den_of_resolved hvar happ1.resolved).symm
  _ = den env W t1 := happ1.den W hW
  _ = den env W t2 := h W hW
  _ = den env W u2 := (happ2.den W hW).symm
  _ = den env .var u2 := den_of_resolved hvar happ2.resolved

/-- What unification without an error leaves of a substitution. -/
structure MostGeneral (env:CheckEnv) (t1 t2:RType) (s s' : Substitution) : Prop where
 acyclic : Acyclic (types env) s'
 applies : ∀ t, ∃ n u s1, applySubst n t s' = some (u,s1)
 unified : ∀ n1 n2 u1 u2 s1 s2, applySubst n1 t1 s' = some (u1,s1) →
  applySubst n2 t2 s' = some (u2,s2) → Same env u1 u2
 kept : ∀ i t, s i=some t → ∃ t', s' i=some t' ∧
  ∀ θ, Extends env θ s' → Same env (instantiate θ t') (instantiate θ t)
 factors : ∀ θ, Extends env θ s → Unifies env θ t1 t2 → ∀ rn i n u s1,
  applySubst n (.infVar rn i) s' = some (u,s1) → Same env (θ i) (instantiate θ u)

/-- Unification finds a most general solution; where types are plain it fails only if there is no
    solution. -/
theorem unify_mostGeneral (hwf:WellFormed env ar plain) {steps:ℕ} {t1 t2:RType}
  {st st' : CheckState} {b:Bool} (hacyclic:Acyclic (types env) st.substitution)
  (hkinds:∀ i t, st.substitution i=some t → WellKinded ar plain t)
  (ht1:WellKinded ar plain t1) (ht2:WellKinded ar plain t2)
  (h:unify env steps t1 t2 st=some (b,st')) :
  (b=true → st'.errors=st.errors →
   MostGeneral env t1 t2 st.substitution st'.substitution) ∧
  (b=false → plain=true → ∀ θ, Extends env θ st.substitution → ¬Unifies env θ t1 t2) := by
 have hout:=outcome_unifyFuel hwf ⟨hacyclic,hkinds⟩ ht1 ht2 h
 refine ⟨fun hb herr=>?_,fun hb hp θ hθ hunifies=>?_⟩
 · refine ⟨hout.good.acyclic,exists_applySubst hout.good.acyclic, ?_,fun i t hi=>?_, ?_⟩
   · intro n1 n2 u1 u2 s1 s2 h1 h2
     exact same_of_solved hout.good ht1 ht2 (hout.sound hb herr) h1 h2
   · have hbound:st'.substitution i ≠ none:=fun hnone=>by
      rw [hout.bound i hnone] at hi
      cases hi
     obtain ⟨t', ht'⟩:=Option.ne_none_iff_exists'.1 hbound
     refine ⟨t', ht', fun θ hθ=>?_⟩
     have hV:=extends_iff.1 hθ
     rw [Same,den_instantiate,den_instantiate]
     exact (hV i t' ht').symm.trans (hout.old _ hV i t hi)
   · intro θ hθ hunifies rn i n u s1 happly
     have hV:=hout.general hb _ (extends_iff.1 hθ) (unifies_iff.1 hunifies)
     have hvar:WellKinded ar plain (.infVar rn i):=trivial
     rw [Same,den_instantiate]
     exact ((applySubst_spec hout.good hvar happly).den _ hV).symm
 · exact hout.refuted hb hp _ (extends_iff.1 hθ) (unifies_iff.1 hunifies)

def uniqueOf (i:ℤ) : Unique := ⟨'c', i,"main"⟩

def named (n:String) (i:ℤ) : Resolved := .def_ (uniqueOf i) ⟨.normalName n⟩

def aliasName : Resolved := named "Alias" 0
def listName : Resolved := named "LIST" 1
def numberName : Resolved := named "NUMBER" 2
def paramName : Resolved := named "a" 3

def param : RType := .tyApp paramName []
def variableType : RType := .infVar (.normalName "t") 0

/-- A synonym with one parameter, beside two ordinary types. -/
def aliasEnv (body:RType) : CheckEnv :=
 ⟨[(uniqueOf 0,.knownType [paramName] (some body)),(uniqueOf 1,.knownType [paramName] none),
  (uniqueOf 2,.knownType [] none)]⟩

def aliasArity (u:Unique) : ℕ := if u=uniqueOf 0 ∨ u=uniqueOf 1 then 1 else 0

def fresh : CheckState := ⟨fun _=>none,[]⟩

theorem synonym_aliasEnv {body:RType} {u:Unique} {ps:List Resolved} {b:RType}
  (h:(aliasEnv body).synonym u=some (ps,b)) : u=uniqueOf 0 ∧ ps=[paramName] ∧ b=body := by
 by_cases h0:u=uniqueOf 0
 · subst h0
   obtain ⟨rfl,rfl⟩:=Prod.mk.inj (Option.some.inj h)
   exact ⟨rfl,rfl,rfl⟩
 · by_cases h1:u=uniqueOf 1
   · subst h1
     cases h
   · by_cases h2:u=uniqueOf 2
     · subst h2
       cases h
     · simp [CheckEnv.synonym,aliasEnv,List.lookup_cons,beq_false_of_ne h0,beq_false_of_ne h1,
        beq_false_of_ne h2] at h

theorem wellFormed_aliasEnv {body:RType} (hheads:uniqueOf 0 ∉ heads body)
  (hk:WellKinded aliasArity plain body) (hclosed:infVars body=[])
  (hused:plain=true → uniqueOf 3 ∈ names body)
  (hbare:plain=true → ∀ c, body ≠ .tyApp c []) :
  WellFormed (aliasEnv body) aliasArity plain where
 acyclic := by
  refine ⟨fun _=>0,fun u ps b h w hw hw' =>?_⟩
  obtain ⟨-,-,rfl⟩:=synonym_aliasEnv h
  obtain ⟨⟨ps', b'⟩,hsyn⟩:=Option.isSome_iff_exists.1 hw'
  exact absurd ((synonym_aliasEnv hsyn).1 ▸ hw) hheads
 wellKinded u ps b h := by
  obtain ⟨-,-,rfl⟩:=synonym_aliasEnv h
  exact hk
 closed u ps b h := by
  obtain ⟨-,-,rfl⟩:=synonym_aliasEnv h
  exact hclosed
 proper hp u ps b h := by
  obtain ⟨rfl,rfl,rfl⟩:=synonym_aliasEnv h
  refine ⟨List.nodup_singleton _,rfl,fun p hp' =>?_,fun c hc=>absurd hc (hbare hp c)⟩
  rw [List.mem_singleton.1 hp']
  exact hused hp

theorem good_fresh : Acyclic (types env) fresh.substitution :=
 ⟨fun _=>⟨_,fun _ h=>by obtain ⟨_,h,-⟩ := h; cases h⟩⟩

def listOf (t:RType) : RType := .tyApp listName [t]
def aliasOf (t:RType) : RType := .tyApp aliasName [t]
def number : RType := .tyApp numberName []

theorem wellKinded_listOf {t:RType} (ht:WellKinded aliasArity plain t) :
  WellKinded aliasArity plain (listOf t) := ⟨rfl,rfl,ht,trivial⟩

theorem wellKinded_aliasOf {t:RType} (ht:WellKinded aliasArity plain t) :
  WellKinded aliasArity plain (aliasOf t) := ⟨rfl,rfl,ht,trivial⟩

theorem wellFormed_listAlias : WellFormed (aliasEnv (listOf param)) aliasArity true :=
 wellFormed_aliasEnv (by decide) (wellKinded_listOf ⟨rfl,rfl,trivial⟩) rfl
  (fun _=>by decide) fun _ c h=>by cases h

/-- An alias of lists of a variable, with lists of numbers. -/
theorem unify_mostGeneral_alias :
  ∃ st', unify (aliasEnv (listOf param)) 5 (aliasOf variableType) (listOf number) fresh =
   some (true,st') ∧
   MostGeneral (aliasEnv (listOf param)) (aliasOf variableType) (listOf number)
    fresh.substitution st'.substitution := by
 have hrun:unify (aliasEnv (listOf param)) 5 (aliasOf variableType) (listOf number) fresh =
   some (true,⟨Function.update (fun _=>none) 0 (some number),[]⟩) := rfl
 have hvariable:WellKinded aliasArity true variableType:=trivial
 have hnumber:WellKinded aliasArity true number:=⟨rfl,rfl,trivial⟩
 refine ⟨_,hrun,(unify_mostGeneral wellFormed_listAlias good_fresh (fun _ _ h=>?_)
  (wellKinded_aliasOf hvariable) (wellKinded_listOf hnumber) hrun).1 rfl rfl⟩
 cases h

/-- A variable and an alias of it are the same for every choice, but the variable occurs in the
    alias. -/
theorem unify_misses_alias : ¬ ∀ (env:CheckEnv) (ar:Unique → ℕ) (steps:ℕ) (t1 t2:RType)
  (st st' : CheckState), WellFormed env ar false → Acyclic (types env) st.substitution →
   (∀ i t, st.substitution i=some t → WellKinded ar false t) → WellKinded ar false t1 →
   WellKinded ar false t2 → unify env steps t1 t2 st=some (false,st') →
   ∀ θ, Extends env θ st.substitution → ¬Unifies env θ t1 t2 := by
 intro h
 have hwf:WellFormed (aliasEnv param) aliasArity false:=
  wellFormed_aliasEnv (by decide) ⟨rfl,rfl,trivial⟩ rfl (fun hp=>by cases hp)
   fun hp=>by cases hp
 refine h (aliasEnv param) aliasArity 5 variableType (aliasOf variableType) fresh fresh hwf
  good_fresh (fun _ _ h=>by cases h) trivial (wellKinded_aliasOf trivial) rfl (fun _=>.type)
  (fun _ _ h=>by cases h) ?_
 have hsyn:(aliasEnv param).synonym aliasName.getUnique=some ([paramName],param):=rfl
 exact (den_of_synonym hwf.acyclic .var hsyn rfl [.type]).symm

end L4Ide.UnificationMostGeneral
