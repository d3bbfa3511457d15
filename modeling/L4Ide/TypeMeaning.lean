import L4Ide.Unify
import L4Ide.TriangularSystems
import Mathlib.Algebra.Order.BigOperators.Group.List
import Mathlib.Algebra.Order.Group.Nat

set_option autoImplicit false

/-!
# What types mean

A type without its synonyms: the body of each stands where it was applied. Two types are the
same when they mean the same.
-/
namespace L4Ide.TypeMeaning
open Syntax Unify TriangularSystems

inductive TypeTerm where
 | type
 | app (u:Unique) (ts:List TypeTerm)
 | fun_ (ts:List TypeTerm) (t:TypeTerm)
 | forall_ (ns:List Resolved) (t:TypeTerm)
 | var (i:ℤ)

mutual

def TypeTerm.size : TypeTerm → ℕ
 | .type=>1
 | .app _ ts=>1+sizeEach ts
 | .fun_ ts t=>1+sizeEach ts+TypeTerm.size t
 | .forall_ _ t=>1+TypeTerm.size t
 | .var _=>1

def sizeEach : List TypeTerm → ℕ
 | []=>0
 | t::ts=>TypeTerm.size t+sizeEach ts

end

theorem size_le_sizeEach {t:TypeTerm} {ts:List TypeTerm} (h:t ∈ ts) :
  TypeTerm.size t ≤ sizeEach ts := by
 induction ts with
 | nil=>cases h
 | cons u ts ih=>
  rw [sizeEach]
  rcases List.mem_cons.1 h with rfl | h
  · exact Nat.le_add_right _ _
  · exact (ih h).trans (Nat.le_add_left _ _)

section Meaning
variable (D:Unique → List TypeTerm → TypeTerm)

mutual

/-- What a type means, given what names make of their arguments and what parameters and
    variables stand for. Parameters do not reach into a quantified type. -/
def meaning (ρ:Unique → Option TypeTerm) (V:ℤ → TypeTerm) : RType → TypeTerm
 | .type=>.type
 | .tyApp c []=>(ρ c.getUnique).getD (D c.getUnique [])
 | .tyApp c (t::ts)=>D c.getUnique (meaning ρ V t::meaningEach ρ V ts)
 | .fun_ onts t=>.fun_ (meaningArgs ρ V onts) (meaning ρ V t)
 | .forall_ ns t=>.forall_ ns (meaning (fun _=>none) V t)
 | .infVar _ i=>V i

def meaningEach (ρ:Unique → Option TypeTerm) (V:ℤ → TypeTerm) : List RType → List TypeTerm
 | []=>[]
 | t::ts=>meaning ρ V t::meaningEach ρ V ts

def meaningArgs (ρ:Unique → Option TypeTerm) (V:ℤ → TypeTerm) :
  List (Option Resolved × RType) → List TypeTerm
 | []=>[]
 | (_,t)::onts=>meaning ρ V t::meaningArgs ρ V onts

end

variable {D}

theorem meaningEach_eq (ρ:Unique → Option TypeTerm) (V:ℤ → TypeTerm) (ts:List RType) :
  meaningEach D ρ V ts=ts.map (meaning D ρ V) := by
 induction ts with
 | nil=>rfl
 | cons t ts ih=>rw [meaningEach,ih,List.map_cons]

theorem meaningArgs_eq (ρ:Unique → Option TypeTerm) (V:ℤ → TypeTerm)
  (onts:List (Option Resolved × RType)) :
  meaningArgs D ρ V onts=(onts.map Prod.snd).map (meaning D ρ V) := by
 induction onts with
 | nil=>rfl
 | cons p onts ih=>
  obtain ⟨n,t⟩:=p
  rw [meaningArgs,ih,List.map_cons,List.map_cons]

theorem meaning_tyApp (V:ℤ → TypeTerm) (c:Resolved) (ts:List RType) :
  meaning D (fun _=>none) V (.tyApp c ts) =
   D c.getUnique (ts.map (meaning D (fun _=>none) V)) := by
 cases ts with
 | nil=>rfl
 | cons t ts=>rw [meaning,meaningEach_eq,List.map_cons]

mutual

theorem meaning_congr_vars {V W:ℤ → TypeTerm} : ∀ (t:RType) (ρ:Unique → Option TypeTerm),
  (∀ i ∈ infVars t, V i=W i) → meaning D ρ V t=meaning D ρ W t
 | .type, _, _=>rfl
 | .tyApp _ [], _, _=>rfl
 | .tyApp c (t::ts), ρ, h=>by
  rw [infVars,infVarsEach] at h
  rw [meaning,meaning,meaning_congr_vars t ρ fun i hi=>h i (List.mem_append_left _ hi),
   meaningEach_congr_vars ts ρ fun i hi=>h i (List.mem_append_right _ hi)]
 | .fun_ onts t, ρ, h=>by
  rw [infVars] at h
  rw [meaning,meaning,meaningArgs_congr_vars onts ρ fun i hi=>h i (List.mem_append_left _ hi),
   meaning_congr_vars t ρ fun i hi=>h i (List.mem_append_right _ hi)]
 | .forall_ ns t, ρ, h=>by
  rw [meaning,meaning,meaning_congr_vars t _ h]
 | .infVar _ i, _, h=>h i List.mem_cons_self

theorem meaningEach_congr_vars {V W:ℤ → TypeTerm} :
  ∀ (ts:List RType) (ρ:Unique → Option TypeTerm),
   (∀ i ∈ infVarsEach ts, V i=W i) → meaningEach D ρ V ts=meaningEach D ρ W ts
 | [], _, _=>rfl
 | t::ts, ρ, h=>by
  rw [infVarsEach] at h
  rw [meaningEach,meaningEach,meaning_congr_vars t ρ fun i hi=>h i (List.mem_append_left _ hi),
   meaningEach_congr_vars ts ρ fun i hi=>h i (List.mem_append_right _ hi)]

theorem meaningArgs_congr_vars {V W:ℤ → TypeTerm} :
  ∀ (onts:List (Option Resolved × RType)) (ρ:Unique → Option TypeTerm),
   (∀ i ∈ infVarsArgs onts, V i=W i) → meaningArgs D ρ V onts=meaningArgs D ρ W onts
 | [], _, _=>rfl
 | (_,t)::onts, ρ, h=>by
  rw [infVarsArgs] at h
  rw [meaningArgs,meaningArgs,meaning_congr_vars t ρ fun i hi=>h i (List.mem_append_left _ hi),
   meaningArgs_congr_vars onts ρ fun i hi=>h i (List.mem_append_right _ hi)]

end

mutual

def heads : RType → List Unique
 | .type=>[]
 | .tyApp c ts=>c.getUnique::headsEach ts
 | .fun_ onts t=>headsArgs onts ++ heads t
 | .forall_ _ t=>heads t
 | .infVar _ _=>[]

def headsEach : List RType → List Unique
 | []=>[]
 | t::ts=>heads t ++ headsEach ts

def headsArgs : List (Option Resolved × RType) → List Unique
 | []=>[]
 | (_,t)::onts=>heads t ++ headsArgs onts

end

mutual

theorem meaning_congr_heads {E:Unique → List TypeTerm → TypeTerm} {V:ℤ → TypeTerm} :
  ∀ (t:RType) (ρ:Unique → Option TypeTerm),
   (∀ u ∈ heads t, D u=E u) → meaning D ρ V t=meaning E ρ V t
 | .type, _, _=>rfl
 | .tyApp c [], ρ, h=>by
  rw [meaning,meaning,h c.getUnique List.mem_cons_self]
 | .tyApp c (t::ts), ρ, h=>by
  rw [heads,headsEach] at h
  rw [meaning,meaning,h c.getUnique List.mem_cons_self,
   meaning_congr_heads t ρ fun u hu=>h u (List.mem_cons_of_mem _ (List.mem_append_left _ hu)),
   meaningEach_congr_heads ts ρ fun u hu=>
    h u (List.mem_cons_of_mem _ (List.mem_append_right _ hu))]
 | .fun_ onts t, ρ, h=>by
  rw [heads] at h
  rw [meaning,meaning,
   meaningArgs_congr_heads onts ρ fun u hu=>h u (List.mem_append_left _ hu),
   meaning_congr_heads t ρ fun u hu=>h u (List.mem_append_right _ hu)]
 | .forall_ ns t, ρ, h=>by
  rw [meaning,meaning,meaning_congr_heads t _ h]
 | .infVar _ i, _, _=>rfl

theorem meaningEach_congr_heads {E:Unique → List TypeTerm → TypeTerm} {V:ℤ → TypeTerm} :
  ∀ (ts:List RType) (ρ:Unique → Option TypeTerm),
   (∀ u ∈ headsEach ts, D u=E u) → meaningEach D ρ V ts=meaningEach E ρ V ts
 | [], _, _=>rfl
 | t::ts, ρ, h=>by
  rw [headsEach] at h
  rw [meaningEach,meaningEach,
   meaning_congr_heads t ρ fun u hu=>h u (List.mem_append_left _ hu),
   meaningEach_congr_heads ts ρ fun u hu=>h u (List.mem_append_right _ hu)]

theorem meaningArgs_congr_heads {E:Unique → List TypeTerm → TypeTerm} {V:ℤ → TypeTerm} :
  ∀ (onts:List (Option Resolved × RType)) (ρ:Unique → Option TypeTerm),
   (∀ u ∈ headsArgs onts, D u=E u) → meaningArgs D ρ V onts=meaningArgs E ρ V onts
 | [], _, _=>rfl
 | (_,t)::onts, ρ, h=>by
  rw [headsArgs] at h
  rw [meaningArgs,meaningArgs,
   meaning_congr_heads t ρ fun u hu=>h u (List.mem_append_left _ hu),
   meaningArgs_congr_heads onts ρ fun u hu=>h u (List.mem_append_right _ hu)]

end

/-- What the parameters of a substitution stand for, and otherwise what they stood for. -/
def through (D:Unique → List TypeTerm → TypeTerm) (ρ:Unique → Option TypeTerm)
  (V:ℤ → TypeTerm) (m:Arguments) (u:Unique) : Option TypeTerm :=
 match m.lookup u with
 | some a=>some (meaning D ρ V a)
 | none=>ρ u

mutual

theorem meaning_substituteType (m:Arguments) {V:ℤ → TypeTerm} (ρ:Unique → Option TypeTerm) :
  ∀ t : RType, meaning D ρ V (substituteType m t)=meaning D (through D ρ V m) V t
 | .type=>rfl
 | .tyApp c []=>by
  rw [substituteType,meaning,through]
  cases m.lookup c.getUnique with
  | none=>rfl
  | some a=>rfl
 | .tyApp c (t::ts)=>by
  rw [substituteType,meaning,meaning,meaning_substituteType m ρ t,
   meaningEach_substituteEach m ρ ts]
 | .fun_ onts t=>by
  rw [substituteType,meaning,meaning,meaning_substituteType m ρ t,
   meaningArgs_substituteArgs m ρ onts]
 | .forall_ ns t=>rfl
 | .infVar _ i=>rfl

theorem meaningEach_substituteEach (m:Arguments) {V:ℤ → TypeTerm}
  (ρ:Unique → Option TypeTerm) : ∀ ts : List RType,
   meaningEach D ρ V (substituteEach m ts)=meaningEach D (through D ρ V m) V ts
 | []=>rfl
 | t::ts=>by
  rw [substituteEach,meaningEach,meaningEach,meaning_substituteType m ρ t,
   meaningEach_substituteEach m ρ ts]

theorem meaningArgs_substituteArgs (m:Arguments) {V:ℤ → TypeTerm}
  (ρ:Unique → Option TypeTerm) : ∀ onts : List (Option Resolved × RType),
   meaningArgs D ρ V (substituteArgs m onts)=meaningArgs D (through D ρ V m) V onts
 | []=>rfl
 | (n,t)::onts=>by
  rw [substituteArgs,meaningArgs,meaningArgs,meaning_substituteType m ρ t,
   meaningArgs_substituteArgs m ρ onts]

end

end Meaning

section Synonyms
variable (env:CheckEnv)

def argumentsOf (ps:List Resolved) (args:List TypeTerm) (u:Unique) : Option TypeTerm :=
 (((ps.map Resolved.getUnique).zip args).reverse.find? fun p=>p.1=u).map Prod.snd

/-- What a name makes of its arguments when synonyms are unfolded so many times. -/
def unfolds : ℕ → Unique → List TypeTerm → TypeTerm
 | 0, u, args=>.app u args
 | k+1, u, args=>
  match env.synonym u with
  | none=>.app u args
  | some (ps,b)=>meaning (unfolds k) (argumentsOf ps args) .var b

def AcyclicSynonyms : Prop :=
 ∃ rank : Unique → ℕ, ∀ u ps b, env.synonym u=some (ps,b) →
  ∀ w ∈ heads b, (env.synonym w).isSome=true → rank w < rank u

variable {env}

theorem unfolds_stable {rank:Unique → ℕ} (hrank:∀ u ps b, env.synonym u=some (ps,b) →
   ∀ w ∈ heads b, (env.synonym w).isSome=true → rank w < rank u) (k:ℕ) :
  ∀ u, ((env.synonym u).isSome=true → rank u < k) → unfolds env (k+1) u=unfolds env k u := by
 induction k with
 | zero=>
  intro u hu
  funext args
  cases hs:env.synonym u with
  | none=>simp only [unfolds,hs]
  | some pb=>
   rw [hs] at hu
   exact absurd (hu rfl) (Nat.not_lt_zero _)
 | succ k ih=>
  intro u hu
  funext args
  rw [unfolds]
  conv_rhs=>rw [unfolds]
  cases hs:env.synonym u with
  | none=>rfl
  | some pb=>
   obtain ⟨ps,b⟩:=pb
   rw [hs] at hu
   refine meaning_congr_heads b _ fun w hw=>ih w fun hw' =>?_
   have h1:=hrank u ps b hs w hw hw'
   have h2:=hu rfl
   omega

theorem mem_of_synonym {u:Unique} (h:(env.synonym u).isSome=true) :
  ∃ ce, (u,ce) ∈ env.entityInfo := by
 unfold CheckEnv.synonym at h
 split at h
 · next params t heq=>
   obtain ⟨l1,l2,hl,-⟩:=List.lookup_eq_some_iff.1 heq
   exact ⟨_,hl ▸ List.mem_append_right _ List.mem_cons_self⟩
 · cases h

theorem exists_unfolds_stable (h:AcyclicSynonyms env) :
  ∃ k, ∀ u, unfolds env (k+1) u=unfolds env k u := by
 obtain ⟨rank,hrank⟩:=h
 refine ⟨(env.entityInfo.map fun p=>rank p.1+1).sum,fun u=>
  unfolds_stable hrank _ u fun hu=>?_⟩
 obtain ⟨ce,hmem⟩:=mem_of_synonym hu
 have hle:rank u+1 ≤ (env.entityInfo.map fun p=>rank p.1+1).sum:=
  List.le_sum_of_mem (List.mem_map.2 ⟨(u,ce),hmem,rfl⟩)
 omega

open scoped Classical in
noncomputable def depth (env:CheckEnv) : ℕ :=
 if h : ∃ k, ∀ u, unfolds env (k+1) u=unfolds env k u then h.choose else 0

noncomputable def unfold (env:CheckEnv) : Unique → List TypeTerm → TypeTerm :=
 unfolds env (depth env)

theorem unfold_eq (h:AcyclicSynonyms env) (u:Unique) (args:List TypeTerm) :
  unfold env u args =
   match env.synonym u with
   | none=>.app u args
   | some (ps,b)=>meaning (unfold env) (argumentsOf ps args) .var b := by
 have hex:=exists_unfolds_stable h
 have hstable:unfolds env (depth env+1) u=unfolds env (depth env) u:=by
  rw [depth,dif_pos hex]
  exact hex.choose_spec u
 rw [unfold,←hstable]
 rfl

noncomputable def den (env:CheckEnv) (V:ℤ → TypeTerm) (t:RType) : TypeTerm :=
 meaning (unfold env) (fun _=>none) V t

/-- Types with what they mean. -/
noncomputable def types (env:CheckEnv) : Language ℤ RType TypeTerm where
 vars:=infVars
 den:=den env
 den_congr h := meaning_congr_vars _ _ h

def Same (env:CheckEnv) (t1 t2:RType) : Prop := den env .var t1=den env .var t2

theorem den_fun (V:ℤ → TypeTerm) (onts:List (Option Resolved × RType)) (t:RType) :
  den env V (.fun_ onts t) = .fun_ ((onts.map Prod.snd).map (den env V)) (den env V t) := by
 rw [den,meaning,meaningArgs_eq]
 rfl

theorem den_forall (V:ℤ → TypeTerm) (ns:List Resolved) (t:RType) :
  den env V (.forall_ ns t) = .forall_ ns (den env V t) := rfl

theorem den_tyApp (V:ℤ → TypeTerm) (c:Resolved) (ts:List RType) :
  den env V (.tyApp c ts)=unfold env c.getUnique (ts.map (den env V)) :=
 meaning_tyApp V c ts

theorem den_of_not_synonym (h:AcyclicSynonyms env) (V:ℤ → TypeTerm) {c:Resolved}
  (hc:env.synonym c.getUnique=none) (ts:List RType) :
  den env V (.tyApp c ts) = .app c.getUnique (ts.map (den env V)) := by
 rw [den_tyApp,unfold_eq h,hc]

theorem find?_zip_map {A:Type} (g:A → TypeTerm) (us:List Unique) (as:List A) (u:Unique) :
  (((us.zip (as.map g)).reverse.find? fun p=>p.1=u).map Prod.snd) =
   (((us.zip as).reverse.find? fun p=>p.1=u).map Prod.snd).map g := by
 have hzip:us.zip (as.map g)=(us.zip as).map fun p=>(p.1,g p.2):=by
  rw [List.zip_map_right]
  rfl
 rw [hzip,←List.map_reverse,List.find?_map,Option.map_map,Option.map_map]
 rfl

theorem through_zip (D:Unique → List TypeTerm → TypeTerm) (V:ℤ → TypeTerm)
  (ps:List Resolved) (ts:List RType) :
  through D (fun _=>none) V ((ps.map Resolved.getUnique).zip ts) =
   argumentsOf ps (ts.map (meaning D (fun _=>none) V)) := by
 funext u
 rw [argumentsOf,find?_zip_map,through,Arguments.lookup]
 cases (((ps.map Resolved.getUnique).zip ts).reverse.find? fun p=>p.1=u) with
 | none=>rfl
 | some p=>rfl

theorem den_of_synonym (h:AcyclicSynonyms env) (V:ℤ → TypeTerm) {c:Resolved}
  {ps:List Resolved} {b:RType} (hc:env.synonym c.getUnique=some (ps,b))
  (hb:infVars b=[]) (ts:List RType) :
  den env V (.tyApp c ts) =
   den env V (substituteType ((ps.map Resolved.getUnique).zip ts) b) := by
 rw [den_tyApp,unfold_eq h,hc,den,meaning_substituteType]
 dsimp only
 have hparams:=through_zip (unfold env) V ps ts
 rw [hparams]
 refine meaning_congr_vars b _ fun i hi=>?_
 rw [hb] at hi
 cases hi

end Synonyms

end L4Ide.TypeMeaning
