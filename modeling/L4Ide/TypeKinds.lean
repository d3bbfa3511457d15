import L4Ide.TypeMeaning
import Mathlib.Data.List.Nodup

set_option autoImplicit false

/-!
# Well-kinded types

Each name is applied to as many types as it takes. Where synonyms use all their parameters, a
type is larger than the variables that occur in it.
-/
namespace L4Ide.TypeKinds
open Syntax Unify TypeMeaning

section Kinds
variable (ar:Unique → ℕ) (plain:Bool)

mutual

/-- Names that resolved, with as many arguments as they take; a plain type quantifies nothing. -/
def WellKinded : RType → Prop
 | .type=>True
 | .tyApp c ts=>isOutOfScope c=false ∧ ts.length=ar c.getUnique ∧ WellKindedEach ts
 | .fun_ onts t=>WellKindedArgs onts ∧ WellKinded t
 | .forall_ _ t=>plain=false ∧ WellKinded t
 | .infVar _ _=>True

def WellKindedEach : List RType → Prop
 | []=>True
 | t::ts=>WellKinded t ∧ WellKindedEach ts

def WellKindedArgs : List (Option Resolved × RType) → Prop
 | []=>True
 | (_,t)::onts=>WellKinded t ∧ WellKindedArgs onts

end

variable {ar plain}

theorem wellKindedEach_iff {ts:List RType} :
  WellKindedEach ar plain ts ↔ ∀ t ∈ ts, WellKinded ar plain t := by
 induction ts with
 | nil=>simp [WellKindedEach]
 | cons t ts ih=>rw [WellKindedEach,ih,List.forall_mem_cons]

theorem wellKindedArgs_iff {onts:List (Option Resolved × RType)} :
  WellKindedArgs ar plain onts ↔ ∀ t ∈ onts.map Prod.snd, WellKinded ar plain t := by
 induction onts with
 | nil=>simp [WellKindedArgs]
 | cons p onts ih=>
  obtain ⟨n,t⟩:=p
  rw [WellKindedArgs,ih,List.map_cons,List.forall_mem_cons]

theorem length_substituteEach (m:Arguments) (ts:List RType) :
  (substituteEach m ts).length=ts.length := by
 induction ts with
 | nil=>rfl
 | cons t ts ih=>rw [substituteEach,List.length_cons,List.length_cons,ih]

section Substitution
variable {m:Arguments}

mutual

theorem wellKinded_substituteType (hm:∀ u a, m.lookup u=some a → WellKinded ar plain a) :
  ∀ t : RType, WellKinded ar plain t →
  WellKinded ar plain (substituteType m t)
 | .type, _=>trivial
 | .tyApp c [], h=>by
  rw [substituteType]
  cases ha:m.lookup c.getUnique with
  | none=>exact h
  | some a=>exact hm _ a ha
 | .tyApp c (t::ts), ⟨hc,hlen,h⟩=>by
  rw [substituteType]
  refine ⟨hc, ?_,wellKinded_substituteType hm t h.1,wellKindedEach_substituteEach hm ts h.2⟩
  rw [←hlen,List.length_cons,List.length_cons,length_substituteEach]
 | .fun_ onts t, ⟨h1,h2⟩=>
  ⟨wellKindedArgs_substituteArgs hm onts h1,wellKinded_substituteType hm t h2⟩
 | .forall_ _ _, h=>h
 | .infVar _ _, h=>h

theorem wellKindedEach_substituteEach (hm:∀ u a, m.lookup u=some a → WellKinded ar plain a) :
  ∀ ts : List RType, WellKindedEach ar plain ts →
  WellKindedEach ar plain (substituteEach m ts)
 | [], _=>trivial
 | t::ts, ⟨h1,h2⟩=>⟨wellKinded_substituteType hm t h1,wellKindedEach_substituteEach hm ts h2⟩

theorem wellKindedArgs_substituteArgs (hm:∀ u a, m.lookup u=some a → WellKinded ar plain a) :
  ∀ onts : List (Option Resolved × RType),
  WellKindedArgs ar plain onts → WellKindedArgs ar plain (substituteArgs m onts)
 | [], _=>trivial
 | (_,t)::onts, ⟨h1,h2⟩=>
  ⟨wellKinded_substituteType hm t h1,wellKindedArgs_substituteArgs hm onts h2⟩

end

end Substitution

end Kinds

theorem lookup_zip_mem {us:List Unique} {ts:List RType} {u:Unique} {a:RType}
  (h:Arguments.lookup (us.zip ts) u=some a) : a ∈ ts := by
 obtain ⟨p,hp,rfl⟩:=Option.map_eq_some_iff.1 h
 exact (List.of_mem_zip (List.mem_reverse.1 (List.mem_of_find?_eq_some hp))).2

mutual

/-- What the variables and the parameters of a plain type stand for. -/
def inside (ρ:Unique → Option TypeTerm) (V:ℤ → TypeTerm) : RType → List TypeTerm
 | .type=>[]
 | .tyApp c []=>(ρ c.getUnique).toList
 | .tyApp _ (t::ts)=>inside ρ V t ++ insideEach ρ V ts
 | .fun_ onts t=>insideArgs ρ V onts ++ inside ρ V t
 | .forall_ _ _=>[]
 | .infVar _ i=>[V i]

def insideEach (ρ:Unique → Option TypeTerm) (V:ℤ → TypeTerm) : List RType → List TypeTerm
 | []=>[]
 | t::ts=>inside ρ V t ++ insideEach ρ V ts

def insideArgs (ρ:Unique → Option TypeTerm) (V:ℤ → TypeTerm) :
  List (Option Resolved × RType) → List TypeTerm
 | []=>[]
 | (_,t)::onts=>inside ρ V t ++ insideArgs ρ V onts

end

def Bare (ρ:Unique → Option TypeTerm) : RType → Prop
 | .infVar _ _=>True
 | .tyApp c []=>(ρ c.getUnique).isSome=true
 | _=>False

def Grows (ar:Unique → ℕ) (D:Unique → List TypeTerm → TypeTerm) : Prop :=
 ∀ u args, args.length=ar u → ∀ a ∈ args, a.size < (D u args).size

section Size
variable {ar:Unique → ℕ} {D:Unique → List TypeTerm → TypeTerm}

mutual

theorem size_inside (hD:Grows ar D) {ρ:Unique → Option TypeTerm} {V:ℤ → TypeTerm} :
  ∀ t : RType, WellKinded ar true t → ∀ x ∈ inside ρ V t,
   x.size ≤ (meaning D ρ V t).size ∧ (¬Bare ρ t → x.size < (meaning D ρ V t).size)
 | .type, _, x, hx=>by cases hx
 | .tyApp c [], _, x, hx=>by
  rw [inside,Option.mem_toList] at hx
  refine ⟨?_,fun hbare=>?_⟩
  · rw [meaning,Option.mem_def.1 hx,Option.getD_some]
  · refine absurd ?_ hbare
    rw [Bare,Option.mem_def.1 hx]
    rfl
 | .tyApp c (t::ts), ⟨_,hlen,h1,h2⟩, x, hx=>by
  have hlt:x.size < (meaning D ρ V (.tyApp c (t::ts))).size:=by
   rw [meaning]
   have hargs:(meaning D ρ V t::meaningEach D ρ V ts).length=ar c.getUnique:=by
    rw [←hlen,meaningEach_eq,List.length_cons,List.length_map,List.length_cons]
   rcases List.mem_append.1 hx with hx | hx
   · exact (size_inside hD t h1 x hx).1.trans_lt (hD _ _ hargs _ List.mem_cons_self)
   · obtain ⟨y,hy,hle⟩:=size_insideEach hD ts h2 x hx
     exact hle.trans_lt (hD _ _ hargs _ (List.mem_cons_of_mem _ hy))
  exact ⟨hlt.le,fun _=>hlt⟩
 | .fun_ onts t, ⟨h1,h2⟩, x, hx=>by
  have hlt:x.size < (meaning D ρ V (.fun_ onts t)).size:=by
   rw [meaning,TypeTerm.size]
   rcases List.mem_append.1 hx with hx | hx
   · obtain ⟨y,hy,hle⟩:=size_insideArgs hD onts h1 x hx
     have:=size_le_sizeEach hy
     omega
   · have:=(size_inside hD t h2 x hx).1
     omega
  exact ⟨hlt.le,fun _=>hlt⟩
 | .forall_ _ _, h, _, _=>by cases h.1
 | .infVar _ i, _, x, hx=>by
  obtain rfl:=List.mem_singleton.1 hx
  exact ⟨le_rfl,fun hbare=>absurd trivial hbare⟩

theorem size_insideEach (hD:Grows ar D) {ρ:Unique → Option TypeTerm} {V:ℤ → TypeTerm} :
  ∀ ts : List RType, WellKindedEach ar true ts → ∀ x ∈ insideEach ρ V ts,
   ∃ y ∈ meaningEach D ρ V ts, x.size ≤ y.size
 | [], _, x, hx=>by cases hx
 | t::ts, ⟨h1,h2⟩, x, hx=>by
  rcases List.mem_append.1 hx with hx | hx
  · exact ⟨_,List.mem_cons_self,(size_inside hD t h1 x hx).1⟩
  · obtain ⟨y,hy,hle⟩:=size_insideEach hD ts h2 x hx
    exact ⟨y,List.mem_cons_of_mem _ hy,hle⟩

theorem size_insideArgs (hD:Grows ar D) {ρ:Unique → Option TypeTerm} {V:ℤ → TypeTerm} :
  ∀ onts : List (Option Resolved × RType), WellKindedArgs ar true onts →
   ∀ x ∈ insideArgs ρ V onts, ∃ y ∈ meaningArgs D ρ V onts, x.size ≤ y.size
 | [], _, x, hx=>by cases hx
 | (_,t)::onts, ⟨h1,h2⟩, x, hx=>by
  rcases List.mem_append.1 hx with hx | hx
  · exact ⟨_,List.mem_cons_self,(size_inside hD t h1 x hx).1⟩
  · obtain ⟨y,hy,hle⟩:=size_insideArgs hD onts h2 x hx
    exact ⟨y,List.mem_cons_of_mem _ hy,hle⟩

end

end Size

mutual

/-- The names that a type has by themselves. -/
def names : RType → List Unique
 | .type=>[]
 | .tyApp c []=>[c.getUnique]
 | .tyApp _ (t::ts)=>names t ++ namesEach ts
 | .fun_ onts t=>namesArgs onts ++ names t
 | .forall_ _ _=>[]
 | .infVar _ _=>[]

def namesEach : List RType → List Unique
 | []=>[]
 | t::ts=>names t ++ namesEach ts

def namesArgs : List (Option Resolved × RType) → List Unique
 | []=>[]
 | (_,t)::onts=>names t ++ namesArgs onts

end

mutual

theorem inside_of_name {ρ:Unique → Option TypeTerm} {V:ℤ → TypeTerm} {u:Unique}
  {a:TypeTerm} (ha:ρ u=some a) : ∀ t : RType, u ∈ names t → a ∈ inside ρ V t
 | .type, h=>by cases h
 | .tyApp c [], h=>by
  obtain rfl:=List.mem_singleton.1 h
  rw [inside,ha]
  exact List.mem_cons_self
 | .tyApp _ (t::ts), h=>by
  rcases List.mem_append.1 h with h | h
  · exact List.mem_append_left _ (inside_of_name ha t h)
  · exact List.mem_append_right _ (insideEach_of_name ha ts h)
 | .fun_ onts t, h=>by
  rcases List.mem_append.1 h with h | h
  · exact List.mem_append_left _ (insideArgs_of_name ha onts h)
  · exact List.mem_append_right _ (inside_of_name ha t h)
 | .forall_ _ _, h=>by cases h
 | .infVar _ _, h=>by cases h

theorem insideEach_of_name {ρ:Unique → Option TypeTerm} {V:ℤ → TypeTerm} {u:Unique}
  {a:TypeTerm} (ha:ρ u=some a) : ∀ ts : List RType, u ∈ namesEach ts → a ∈ insideEach ρ V ts
 | [], h=>by cases h
 | t::ts, h=>by
  rcases List.mem_append.1 h with h | h
  · exact List.mem_append_left _ (inside_of_name ha t h)
  · exact List.mem_append_right _ (insideEach_of_name ha ts h)

theorem insideArgs_of_name {ρ:Unique → Option TypeTerm} {V:ℤ → TypeTerm} {u:Unique}
  {a:TypeTerm} (ha:ρ u=some a) :
  ∀ onts : List (Option Resolved × RType), u ∈ namesArgs onts → a ∈ insideArgs ρ V onts
 | [], h=>by cases h
 | (_,t)::onts, h=>by
  rcases List.mem_append.1 h with h | h
  · exact List.mem_append_left _ (inside_of_name ha t h)
  · exact List.mem_append_right _ (insideArgs_of_name ha onts h)

end

mutual

theorem inside_of_var {ar:Unique → ℕ} {ρ:Unique → Option TypeTerm} {V:ℤ → TypeTerm} {i:ℤ} :
  ∀ t : RType, WellKinded ar true t → i ∈ infVars t → V i ∈ inside ρ V t
 | .type, _, h=>by cases h
 | .tyApp _ [], _, h=>by cases h
 | .tyApp _ (t::ts), ⟨_,_,h1,h2⟩, h=>by
  rcases List.mem_append.1 h with h | h
  · exact List.mem_append_left _ (inside_of_var t h1 h)
  · exact List.mem_append_right _ (insideEach_of_var ts h2 h)
 | .fun_ onts t, ⟨h1,h2⟩, h=>by
  rcases List.mem_append.1 h with h | h
  · exact List.mem_append_left _ (insideArgs_of_var onts h1 h)
  · exact List.mem_append_right _ (inside_of_var t h2 h)
 | .forall_ _ _, hk, _=>by cases hk.1
 | .infVar _ j, _, h=>by
  obtain rfl:=List.mem_singleton.1 h
  exact List.mem_cons_self

theorem insideEach_of_var {ar:Unique → ℕ} {ρ:Unique → Option TypeTerm} {V:ℤ → TypeTerm}
  {i:ℤ} : ∀ ts : List RType, WellKindedEach ar true ts → i ∈ infVarsEach ts →
   V i ∈ insideEach ρ V ts
 | [], _, h=>by cases h
 | t::ts, ⟨h1,h2⟩, h=>by
  rcases List.mem_append.1 h with h | h
  · exact List.mem_append_left _ (inside_of_var t h1 h)
  · exact List.mem_append_right _ (insideEach_of_var ts h2 h)

theorem insideArgs_of_var {ar:Unique → ℕ} {ρ:Unique → Option TypeTerm} {V:ℤ → TypeTerm}
  {i:ℤ} : ∀ onts : List (Option Resolved × RType), WellKindedArgs ar true onts →
   i ∈ infVarsArgs onts → V i ∈ insideArgs ρ V onts
 | [], _, h=>by cases h
 | (_,t)::onts, ⟨h1,h2⟩, h=>by
  rcases List.mem_append.1 h with h | h
  · exact List.mem_append_left _ (inside_of_var t h1 h)
  · exact List.mem_append_right _ (insideArgs_of_var onts h2 h)

end

/-- Synonyms that use each of their parameters, in more than the parameter itself. -/
def ProperSynonyms (env:CheckEnv) (ar:Unique → ℕ) : Prop :=
 ∀ u ps b, env.synonym u=some (ps,b) →
  (ps.map Resolved.getUnique).Nodup ∧ ps.length=ar u ∧
   (∀ p ∈ ps.map Resolved.getUnique, p ∈ names b) ∧
   ∀ c, b = .tyApp c [] → c.getUnique ∉ ps.map Resolved.getUnique

/-- The synonyms of a checked program. -/
structure WellFormed (env:CheckEnv) (ar:Unique → ℕ) (plain:Bool) : Prop where
 acyclic : AcyclicSynonyms env
 wellKinded : ∀ u ps b, env.synonym u=some (ps,b) → WellKinded ar plain b
 closed : ∀ u ps b, env.synonym u=some (ps,b) → infVars b=[]
 proper : plain=true → ProperSynonyms env ar

section Proper
variable {env:CheckEnv} {ar:Unique → ℕ}

theorem mem_of_argumentsOf {ps:List Resolved} {args:List TypeTerm} {u:Unique}
  {a:TypeTerm} (h:argumentsOf ps args u=some a) :
  (u,a) ∈ (ps.map Resolved.getUnique).zip args := by
 obtain ⟨p,hp,rfl⟩:=Option.map_eq_some_iff.1 h
 obtain rfl : p.1=u:=by simpa using List.find?_some hp
 exact List.mem_reverse.1 (List.mem_of_find?_eq_some hp)

theorem argumentsOf_of_mem {ps:List Resolved} {args:List TypeTerm}
  (hnodup:(ps.map Resolved.getUnique).Nodup)
  (hlen:(ps.map Resolved.getUnique).length=args.length) {u:Unique} {a:TypeTerm}
  (h:(u,a) ∈ (ps.map Resolved.getUnique).zip args) : argumentsOf ps args u=some a := by
 cases harg:argumentsOf ps args u with
 | none=>
  have hnone:=List.find?_eq_none.1 (Option.map_eq_none_iff.1 harg) (u,a) (List.mem_reverse.2 h)
  exact absurd (decide_eq_true rfl) hnone
 | some b=>
  have hkeys:(((ps.map Resolved.getUnique).zip args).map Prod.fst).Nodup:=by
   rw [List.map_fst_zip hlen.le]
   exact hnodup
  have heq:=List.inj_on_of_nodup_map hkeys (mem_of_argumentsOf harg) h rfl
  rw [(Prod.mk.inj heq).2]

theorem not_bare {ps:List Resolved} {args:List TypeTerm} {b:RType} (hclosed:infVars b=[])
  (hbare:∀ c, b = .tyApp c [] → c.getUnique ∉ ps.map Resolved.getUnique) :
  ¬Bare (argumentsOf ps args) b := by
 intro hb
 cases b with
 | infVar rn i=>cases hclosed
 | tyApp c ts=>
  cases ts with
  | nil=>
   obtain ⟨a,ha⟩:=Option.isSome_iff_exists.1 hb
   exact hbare c rfl (List.of_mem_zip (mem_of_argumentsOf ha)).1
  | cons t ts=>exact hb
 | _=>exact hb

/-- A proper synonym makes more than each of its arguments is, however far it is unfolded. -/
theorem grows_unfolds (h:WellFormed env ar true) (k:ℕ) : Grows ar (unfolds env k) := by
 induction k with
 | zero=>
  intro u args _ a ha
  have:=size_le_sizeEach ha
  rw [unfolds,TypeTerm.size]
  omega
 | succ k ih=>
  intro u args hlen a ha
  rw [unfolds]
  cases hs:env.synonym u with
  | none=>
   have:=size_le_sizeEach ha
   dsimp only
   rw [TypeTerm.size]
   omega
  | some pb=>
   obtain ⟨ps,b⟩:=pb
   obtain ⟨hnodup,hps,hused,hbare⟩:=h.proper rfl u ps b hs
   have hzip:(ps.map Resolved.getUnique).length=args.length:=by
    rw [List.length_map,hps,hlen]
   obtain ⟨i,hi,rfl⟩:=List.getElem_of_mem ha
   have hip:i < (ps.map Resolved.getUnique).length:=hzip ▸ hi
   have harg:=argumentsOf_of_mem (a := args[i]) hnodup hzip
    (List.mem_iff_getElem.2 ⟨i,by rw [List.length_zip,hzip,min_self]; exact hi,
     List.getElem_zip⟩)
   have hin:args[i] ∈ inside (argumentsOf ps args) .var b:=
    inside_of_name harg b (hused _ (List.getElem_mem hip))
   refine (size_inside ih b (h.wellKinded u ps b hs) _ hin).2 fun hb=>?_
   exact not_bare (h.closed u ps b hs) hbare hb

theorem grows_unfold (h:WellFormed env ar true) : Grows ar (unfold env) := grows_unfolds h _

theorem ne_den_of_occurs (h:WellFormed env ar true) {t:RType} (ht:WellKinded ar true t)
  {i:ℤ} (hi:i ∈ infVars t) (hvar:∀ rn j, t ≠ .infVar rn j) (V:ℤ → TypeTerm) :
  V i ≠ den env V t := by
 have hin:V i ∈ inside (fun _=>none) V t:=inside_of_var t ht hi
 have hlt:=(size_inside (grows_unfold h) t ht _ hin).2 fun hb=>by
  cases t with
  | infVar rn j=>exact hvar rn j rfl
  | tyApp c ts=>
   cases ts with
   | nil=>cases hb
   | cons t ts=>exact hb
  | _=>exact hb
 exact fun heq=>hlt.ne (congrArg TypeTerm.size heq)

end Proper

end L4Ide.TypeKinds
