import L4Ide.SynonymCycles

set_option autoImplicit false

/-!
# Expansion comes to an end

A type is weighed by its meaning in which every synonym keeps its expansion beside its
arguments. Expanding one anywhere in the type leaves a part of that meaning.
-/
namespace L4Ide.SynonymCycles
open Syntax Unify TypeMeaning StronglyConnected Relation

/-- One synonym is expanded, somewhere in a type. -/
inductive Expands (env:CheckEnv) : RType → RType → Prop where
 | head (c:Resolved) (ts:List RType) (t' : RType) (st:CheckState)
   (h:(tryExpandTypeSynonym env c ts st).1=some t') : Expands env (.tyApp c ts) t'
 | argument (c:Resolved) (before after:List RType) {t t' : RType} (h:Expands env t t') :
   Expands env (.tyApp c (before ++ t::after)) (.tyApp c (before ++ t' :: after))
 | parameter (before after:List (Option Resolved × RType)) (n:Option Resolved) {t t' : RType}
   (result:RType) (h:Expands env t t') :
   Expands env (.fun_ (before ++ (n,t)::after) result)
    (.fun_ (before ++ (n,t')::after) result)
 | result (onts:List (Option Resolved × RType)) {t t' : RType} (h:Expands env t t') :
   Expands env (.fun_ onts t) (.fun_ onts t')
 | quantified (ns:List Resolved) {t t' : RType} (h:Expands env t t') :
   Expands env (.forall_ ns t) (.forall_ ns t')

section Weight
variable (env:CheckEnv)

/-- What a name makes of its arguments; a synonym keeps its expansion beside them. -/
def recorded : ℕ → Unique → List TypeTerm → TypeTerm
 | 0, u, args=>.app u args
 | k+1, u, args=>
  match env.synonym u with
  | none=>.app u args
  | some (ps,b)=>.app u (meaning (recorded k) (argumentsOf ps args) .var b::args)

variable {env}

theorem recorded_stable {rank:Unique → ℕ} (hrank:∀ u ps b, env.synonym u=some (ps,b) →
   ∀ w ∈ heads b, (env.synonym w).isSome=true → rank w < rank u) (k:ℕ) :
  ∀ u, ((env.synonym u).isSome=true → rank u < k) →
   recorded env (k+1) u=recorded env k u := by
 induction k with
 | zero=>
  intro u hu
  funext args
  cases hs:env.synonym u with
  | none=>simp only [recorded,hs]
  | some pb=>
   rw [hs] at hu
   exact absurd (hu rfl) (Nat.not_lt_zero _)
 | succ k ih=>
  intro u hu
  funext args
  rw [recorded]
  conv_rhs=>rw [recorded]
  cases hs:env.synonym u with
  | none=>rfl
  | some pb=>
   obtain ⟨ps,b⟩:=pb
   rw [hs] at hu
   dsimp only
   rw [meaning_congr_heads b _ fun w hw=>ih w fun hw' =>?_]
   have h1:=hrank u ps b hs w hw hw'
   have h2:=hu rfl
   omega

theorem exists_recorded_stable (h:AcyclicSynonyms env) :
  ∃ k, ∀ u, recorded env (k+1) u=recorded env k u := by
 obtain ⟨rank,hrank⟩:=h
 refine ⟨(env.entityInfo.map fun p=>rank p.1+1).sum,fun u=>
  recorded_stable hrank _ u fun hu=>?_⟩
 obtain ⟨ce,hmem⟩:=mem_of_synonym hu
 have hle:rank u+1 ≤ (env.entityInfo.map fun p=>rank p.1+1).sum:=
  List.le_sum_of_mem (List.mem_map.2 ⟨(u,ce),hmem,rfl⟩)
 omega

theorem sizeEach_map_le {B:Type} {f g:B → TypeTerm} {l:List B}
  (h:∀ x ∈ l, (f x).size ≤ (g x).size) : sizeEach (l.map f) ≤ sizeEach (l.map g) := by
 induction l with
 | nil=>exact Nat.le_refl _
 | cons x l ih=>
  have hx:=h x List.mem_cons_self
  have hl:=ih fun y hy=>h y (List.mem_cons_of_mem x hy)
  rw [List.map_cons,List.map_cons,sizeEach,sizeEach]
  omega

def Monotone (D:Unique → List TypeTerm → TypeTerm) : Prop :=
 ∀ (u:Unique) (pairs:List (TypeTerm × TypeTerm)), (∀ p ∈ pairs, p.1.size ≤ p.2.size) →
  (D u (pairs.map Prod.fst)).size ≤ (D u (pairs.map Prod.snd)).size

section Sizes
variable {D:Unique → List TypeTerm → TypeTerm} {V:ℤ → TypeTerm}

mutual

theorem size_meaning_le (hD:Monotone D) : ∀ (t:RType) (σ:Unique → Option (TypeTerm × TypeTerm)),
  (∀ u p, σ u=some p → p.1.size ≤ p.2.size) →
  (meaning D (fun u=>(σ u).map Prod.fst) V t).size ≤
   (meaning D (fun u=>(σ u).map Prod.snd) V t).size
 | .type, _, _=>Nat.le_refl _
 | .tyApp c [], σ, h=>by
  rw [meaning,meaning]
  cases hc:σ c.getUnique with
  | none=>exact Nat.le_refl _
  | some p=>exact h _ p hc
 | .tyApp c (t::ts), σ, h=>by
  have hall:∀ a ∈ t::ts, (meaning D (fun u=>(σ u).map Prod.fst) V a).size ≤
    (meaning D (fun u=>(σ u).map Prod.snd) V a).size :=
   List.forall_mem_cons.2 ⟨size_meaning_le hD t σ h,size_meaningEach_le hD ts σ h⟩
  have hpairs:=hD c.getUnique ((t::ts).map fun a=>
   (meaning D (fun u=>(σ u).map Prod.fst) V a,meaning D (fun u=>(σ u).map Prod.snd) V a))
   (List.forall_mem_map.2 hall)
  rw [List.map_map,List.map_map] at hpairs
  rw [meaning,meaning,meaningEach_eq,meaningEach_eq]
  exact hpairs
 | .fun_ onts t, σ, h=>by
  have ht:=size_meaning_le hD t σ h
  have honts:=sizeEach_map_le (List.forall_mem_map.2 (size_meaningArgs_le hD onts σ h))
  rw [meaning,meaning,meaningArgs_eq,meaningArgs_eq,TypeTerm.size,TypeTerm.size]
  omega
 | .forall_ _ t, _, _=>Nat.le_refl _
 | .infVar _ _, _, _=>Nat.le_refl _

theorem size_meaningEach_le (hD:Monotone D) : ∀ (ts:List RType) (σ:Unique → Option (TypeTerm × TypeTerm)),
  (∀ u p, σ u=some p → p.1.size ≤ p.2.size) → ∀ a ∈ ts,
  (meaning D (fun u=>(σ u).map Prod.fst) V a).size ≤
   (meaning D (fun u=>(σ u).map Prod.snd) V a).size
 | [], _, _=>List.forall_mem_nil _
 | t::ts, σ, h=>
  List.forall_mem_cons.2 ⟨size_meaning_le hD t σ h,size_meaningEach_le hD ts σ h⟩

theorem size_meaningArgs_le (hD:Monotone D) : ∀ (onts:List (Option Resolved × RType))
  (σ:Unique → Option (TypeTerm × TypeTerm)), (∀ u p, σ u=some p → p.1.size ≤ p.2.size) →
  ∀ ont ∈ onts, (meaning D (fun u=>(σ u).map Prod.fst) V ont.2).size ≤
   (meaning D (fun u=>(σ u).map Prod.snd) V ont.2).size
 | [], _, _=>List.forall_mem_nil _
 | (_,t)::onts, σ, h=>
  List.forall_mem_cons.2 ⟨size_meaning_le hD t σ h,size_meaningArgs_le hD onts σ h⟩

end

end Sizes

def expansionOf (env:CheckEnv) (k:ℕ) (u:Unique) (args:List TypeTerm) : List TypeTerm :=
 match env.synonym u with
 | none=>[]
 | some (ps,b)=>[meaning (recorded env k) (argumentsOf ps args) .var b]

theorem recorded_succ (k:ℕ) (u:Unique) (args:List TypeTerm) :
  recorded env (k+1) u args = .app u (expansionOf env k u args ++ args) := by
 rw [recorded,expansionOf]
 cases env.synonym u with
 | none=>rfl
 | some pb=>rfl

theorem size_expansionOf_le {k:ℕ} (hk:Monotone (recorded env k)) (u:Unique)
  (pairs:List (TypeTerm × TypeTerm)) (h:∀ p ∈ pairs, p.1.size ≤ p.2.size) :
  sizeEach (expansionOf env k u (pairs.map Prod.fst)) ≤
   sizeEach (expansionOf env k u (pairs.map Prod.snd)) := by
 unfold expansionOf
 cases env.synonym u with
 | none=>exact Nat.le_refl _
 | some pb=>
  obtain ⟨ps,b⟩:=pb
  have hargs:∀ g : TypeTerm × TypeTerm → TypeTerm, argumentsOf ps (pairs.map g) = fun v=>
    ((((ps.map Resolved.getUnique).zip pairs).reverse.find? fun p=>p.1=v).map
     Prod.snd).map g := by
   intro g
   funext v
   exact find?_zip_map g _ pairs v
  simp only [hargs,sizeEach,Nat.add_zero]
  refine size_meaning_le hk b _ fun v p hp=>h p ?_
  obtain ⟨q,hq,rfl⟩:=Option.map_eq_some_iff.1 hp
  exact (List.of_mem_zip (List.mem_reverse.1 (List.mem_of_find?_eq_some hq))).2

theorem sizeEach_append (l l' : List TypeTerm) :
  sizeEach (l ++ l')=sizeEach l+sizeEach l' := by
 induction l with
 | nil=>simp [sizeEach]
 | cons t l ih=>rw [List.cons_append,sizeEach,sizeEach,ih,Nat.add_assoc]

theorem recorded_monotone (k:ℕ) : Monotone (recorded env k) := by
 induction k with
 | zero=>
  intro u pairs h
  have hsizes:=sizeEach_map_le h
  rw [recorded,recorded,TypeTerm.size,TypeTerm.size]
  omega
 | succ k ih=>
  intro u pairs h
  have hsizes:=sizeEach_map_le h
  have hexpansion:=size_expansionOf_le ih u pairs h
  rw [recorded_succ,recorded_succ,TypeTerm.size,TypeTerm.size,sizeEach_append,
   sizeEach_append]
  omega

theorem size_recorded_lt (k:ℕ) (u:Unique) (before after:List TypeTerm) {a a' : TypeTerm}
  (h:a'.size < a.size) :
  (recorded env (k+1) u (before ++ a' :: after)).size <
   (recorded env (k+1) u (before ++ a::after)).size := by
 have hpairs:∀ p ∈ before.map (fun t=>(t,t)) ++ (a', a)::after.map fun t=>(t,t),
   p.1.size ≤ p.2.size := by
  intro p hp
  simp only [List.mem_append,List.mem_map,List.mem_cons] at hp
  obtain ⟨t,-,rfl⟩ | rfl | ⟨t,-,rfl⟩:=hp
  · exact Nat.le_refl _
  · exact h.le
  · exact Nat.le_refl _
 have hmono:Monotone (recorded env k):=recorded_monotone k
 have hexpansion:=size_expansionOf_le hmono u _ hpairs
 simp only [List.map_append,List.map_cons,List.map_map,Function.comp_def,List.map_id'] at hexpansion
 simp only [recorded_succ,TypeTerm.size,sizeEach_append,sizeEach]
 omega

theorem synonym_of_tryExpand {c:Resolved} {ts:List RType} {st:CheckState} {t' : RType}
  (h:(tryExpandTypeSynonym env c ts st).1=some t') :
  ∃ ps b, env.synonym c.getUnique=some (ps,b) ∧
   t' = substituteType ((ps.map Resolved.getUnique).zip ts) b := by
 unfold tryExpandTypeSynonym getEntityInfo at h
 unfold CheckEnv.synonym
 cases hc:env.entityInfo.lookup c.getUnique with
 | none=>
  by_cases hscope:isOutOfScope c=true
  · simp [hc,hscope] at h
  · simp [hc,hscope] at h
 | some ce=>
  rw [hc] at h
  split at h
  · next ps b st1 heq=>
    obtain ⟨hce,-⟩:=Prod.mk.inj heq
    rw [Option.some.inj hce]
    exact ⟨ps,b,rfl,(Option.some.inj h).symm⟩
  · simp at h

def weight (env:CheckEnv) (k:ℕ) (t:RType) : ℕ :=
 (meaning (recorded env k) (fun _=>none) .var t).size

theorem weight_lt {k:ℕ} (hk:∀ u, recorded env (k+1) u=recorded env k u) {t t' : RType}
  (h:Expands env t t') : weight env k t' < weight env k t := by
 induction h with
 | head c ts t' st h=>
  obtain ⟨ps,b,hc,rfl⟩:=synonym_of_tryExpand h
  rw [weight,weight,meaning_tyApp,←hk,recorded_succ,expansionOf,hc,
   meaning_substituteType,through_zip]
  simp only [TypeTerm.size,sizeEach_append,sizeEach]
  omega
 | argument c before after h ih=>
  rw [weight,weight,meaning_tyApp,meaning_tyApp,←hk,List.map_append,List.map_append,
   List.map_cons,List.map_cons]
  exact size_recorded_lt k _ _ _ ih
 | parameter before after n result h ih=>
  unfold weight at ih ⊢
  rw [meaning,meaning,meaningArgs_eq,meaningArgs_eq,TypeTerm.size,TypeTerm.size]
  simp only [List.map_append,List.map_cons,sizeEach_append,sizeEach]
  omega
 | result onts h ih=>
  unfold weight at ih ⊢
  rw [meaning,meaning,TypeTerm.size,TypeTerm.size]
  omega
 | quantified ns h ih=>
  unfold weight at ih ⊢
  rw [meaning,meaning,TypeTerm.size,TypeTerm.size]
  omega

end Weight

theorem expands_wellFounded {env:CheckEnv} (h:AcyclicSynonyms env) :
  WellFounded fun t' t=>Expands env t t' := by
 obtain ⟨k,hk⟩:=exists_recorded_stable h
 exact Subrelation.wf (fun hstep=>weight_lt hk hstep) (InvImage.wf (weight env k) wellFounded_lt)

mutual

theorem heads_eq : ∀ t : RType, heads t=(bodyHeads t).map Resolved.getUnique
 | .type=>rfl
 | .tyApp c ts=>by rw [heads,bodyHeads,List.map_cons,headsEach_eq ts]
 | .fun_ onts t=>by rw [heads,bodyHeads,List.map_append,headsArgs_eq onts,heads_eq t]
 | .forall_ _ t=>by rw [heads,bodyHeads,heads_eq t]
 | .infVar _ _=>rfl

theorem headsEach_eq : ∀ ts : List RType,
  headsEach ts=(bodyHeadsEach ts).map Resolved.getUnique
 | []=>rfl
 | t::ts=>by rw [headsEach,bodyHeadsEach,List.map_append,heads_eq t,headsEach_eq ts]

theorem headsArgs_eq : ∀ onts : List (Option Resolved × RType),
  headsArgs onts=(bodyHeadsArgs onts).map Resolved.getUnique
 | []=>rfl
 | (_,t)::onts=>by
  rw [headsArgs,bodyHeadsArgs,List.map_append,heads_eq t,headsArgs_eq onts]

end

def extendEnv (cis:List CheckInfo) (env:CheckEnv) : CheckEnv :=
 ⟨cis.foldl (fun info ci=>ci.names.foldl (fun info r=>(r.getUnique,ci.checkEntity)::info)
  info) env.entityInfo⟩

section Scopes
variable {A:Type} (P:Program A)

/-- A synonym's body is only known from the declarations of a module, once they are quarantined. -/
def Kept (ci:CheckInfo) : Prop :=
 ∀ ps b, ci.checkEntity = .knownType ps (some b) → ∃ m ∈ P.modules,
  ∃ d ∈ (quarantineResolvedSynonymCycles m.decls).2, ci ∈ d.publicNames

/-- What is known somewhere in a program. -/
structure Scope where
 env : CheckEnv
 kept : ∀ u ps b, (u,.knownType ps (some b)) ∈ env.entityInfo → ∃ ci, Kept P ci ∧
  ci.checkEntity = .knownType ps (some b) ∧ ∃ r ∈ ci.names, r.getUnique=u

variable {P}

theorem mem_extendEnv {cis:List CheckInfo} {env:CheckEnv} {u:Unique} {ce:CheckEntity}
  (h:(u,ce) ∈ (extendEnv cis env).entityInfo) :
  (u,ce) ∈ env.entityInfo ∨
   ∃ ci ∈ cis, ci.checkEntity=ce ∧ ∃ r ∈ ci.names, r.getUnique=u := by
 have hnames:∀ (entity:CheckEntity) (names:List Resolved)
   (info:List (Unique × CheckEntity)),
   (u,ce) ∈ names.foldl (fun info r=>(r.getUnique,entity)::info) info →
   (u,ce) ∈ info ∨ entity=ce ∧ ∃ r ∈ names, r.getUnique=u := by
  intro entity names
  induction names with
  | nil=>exact fun _ h=>Or.inl h
  | cons r names ih=>
   intro info h
   rcases ih _ h with h | ⟨heq,r', hr', hu⟩
   · rcases List.mem_cons.1 h with heq | h
     · obtain ⟨rfl,rfl⟩:=Prod.mk.inj heq
       exact Or.inr ⟨rfl,r,List.mem_cons_self,rfl⟩
     · exact Or.inl h
   · exact Or.inr ⟨heq,r', List.mem_cons_of_mem r hr', hu⟩
 obtain ⟨info⟩:=env
 unfold extendEnv at h
 induction cis generalizing info with
 | nil=>exact Or.inl h
 | cons ci cis ih=>
  rcases ih _ h with h | ⟨ci', hci', h⟩
  · exact (hnames _ _ _ h).imp_right fun h=>⟨ci,List.mem_cons_self,h⟩
  · exact Or.inr ⟨ci', List.mem_cons_of_mem ci hci', h⟩

/-- What is made known in a scope: declarations of a module, or names without a body. -/
def Scope.extend (S:Scope P) (cis:List CheckInfo) (h:∀ ci ∈ cis, Kept P ci) : Scope P where
 env:=extendEnv cis S.env
 kept u ps b hmem := by
  rcases mem_extendEnv hmem with hmem | ⟨ci,hci,heq,hu⟩
  · exact S.kept u ps b hmem
  · exact ⟨ci,h ci hci,heq,hu⟩

/-- The declarations of a module are known once its cycles are quarantined. -/
def Scope.withDeclares (S:Scope P) (m:Declarations A) (hm:m ∈ P.modules) : Scope P :=
 S.extend ((quarantineResolvedSynonymCycles m.decls).2.flatMap DeclChecked.publicNames) <| by
  intro ci hci ps b _
  obtain ⟨d,hd,hci⟩:=List.mem_flatMap.1 hci
  exact ⟨m,hm,d,hd,hci⟩

theorem names_unbody (us:List Unique) (ci:CheckInfo) : (unbody us ci).names=ci.names := by
 unfold unbody
 split
 · split <;> rfl
 · rfl

theorem Kept.mem_kept {ci:CheckInfo} (h:Kept P ci) {ps:List Resolved} {b:RType}
  (hci:ci.checkEntity = .knownType ps (some b)) {r:Resolved} (hr:r ∈ ci.names) :
  ∃ s ∈ P.kept, s.1=r.getUnique ∧ s.2.2=heads b := by
 obtain ⟨m,hm,d,hd,hmem⟩:=h ps b hci
 obtain ⟨d0,hd0,rfl⟩:=List.mem_map.1 hd
 obtain ⟨ci0,hci0,rfl⟩:=List.mem_map.1 hmem
 cases hnames:(unbody (cyclic m.decls) ci0).names with
 | nil=>simp [hnames] at hr
 | cons r0 names=>
  have hsynonym:synonymOf (unbody (cyclic m.decls) ci0) =
    some (r0.getUnique,r0.getOriginal,heads b) := by
   rw [synonymOf,hnames,hci,heads_eq]
  have hshared:r0.getUnique=r.getUnique:=by
   have hr0:r0 ∈ (unbody (cyclic m.decls) ci0).names:=hnames ▸ List.mem_cons_self
   rw [names_unbody] at hr hr0
   exact m.shared d0 hd0 ci0 hci0 r0 hr0 r hr
  refine ⟨(r0.getUnique,r0.getOriginal,heads b),
   List.mem_flatMap.2 ⟨m,hm,List.mem_flatMap.2 ⟨_,hd, ?_⟩⟩,hshared,rfl⟩
  exact List.mem_filterMap.2 ⟨_,hmem,hsynonym⟩

theorem Scope.mem_kept (S:Scope P) {u:Unique} {ps:List Resolved} {b:RType}
  (h:S.env.synonym u=some (ps,b)) : ∃ s ∈ P.kept, s.1=u ∧ s.2.2=heads b := by
 have hmem:(u,CheckEntity.knownType ps (some b)) ∈ S.env.entityInfo:=by
  unfold CheckEnv.synonym at h
  split at h
  · next params t heq=>
    obtain ⟨rfl,rfl⟩:=Prod.mk.inj (Option.some.inj h)
    obtain ⟨l1,l2,hl,-⟩:=List.lookup_eq_some_iff.1 heq
    exact hl ▸ List.mem_append_right _ List.mem_cons_self
  · cases h
 obtain ⟨ci,hkept,hci,r,hr,rfl⟩:=S.kept u ps b hmem
 exact hkept.mem_kept hci hr

theorem Scope.acyclic (S:Scope P) : AcyclicSynonyms S.env := by
 obtain ⟨rank,hrank⟩:=exists_rank ((P.kept.map Prod.fst).toFinset)
  (fun a b h=>List.mem_toFinset.2 h.1) kept_acyclic
 refine ⟨rank,fun u ps b hu w hw hw' =>hrank u w ?_⟩
 obtain ⟨⟨ps', b'⟩,hb'⟩:=Option.isSome_iff_exists.1 hw'
 obtain ⟨s,hs,hsu,hdeps⟩:=S.mem_kept hu
 obtain ⟨s', hs', rfl,-⟩:=S.mem_kept hb'
 exact ⟨List.mem_map_of_mem hs', s,hs,hsu,hdeps ▸ hw⟩

/-- What is left of the synonyms of a program is acyclic, each cycle is reported once, and
    expanding what is left comes to an end. -/
theorem quarantine_acyclic (P:Program A) :
  (∀ u, ¬TransGen (Mentions P.kept) u u) ∧
  (∀ s ∈ P.declared, s ∉ P.kept ↔ OnCycle P.declared s.1) ∧
  (P.errors.map some=P.cycles.map report ∧
   (∀ us, IsCycle P.declared us → ReportedOnce P us) ∧
   ∀ cyc ∈ P.cycles, ∀ s ∈ cyc, ∀ t ∈ cyc,
    s ∈ P.declared ∧ TransGen (Mentions P.declared) s.1 t.1) ∧
  ∀ S : Scope P, WellFounded fun t' t=>Expands S.env t t' := by
 refine ⟨kept_acyclic,fun s hs=>?_,⟨errors_eq,fun us h=>reportedOnce h, ?_⟩,fun S=>?_⟩
 · rw [SynonymCycles.mem_kept]
   tauto
 · intro cyc hcyc s hs t ht
   have hmembers:=reported_members hcyc hs ht
   exact ⟨hmembers.1,hmembers.2.1⟩
 · exact expands_wellFounded S.acyclic

end Scopes

section Example

def named (i:ℤ) (n:String) (uri:String) : Resolved :=
 .def_ ⟨'t', i,uri⟩ ⟨.normalName n⟩

def synonymDecl (r:Resolved) (b:RType) : DeclChecked Unit :=
 ⟨(),[⟨[r],.knownType [] (some b)⟩]⟩

/-- `Rate` and `Table` name each other in one module; in the next one `Loop` names itself and
    `Rates` names `Rate`. -/
def twoModules : Program Unit where
 modules :=
  [{ decls :=
    [synonymDecl (named 0 "Year" "a") (.tyApp (named 9 "NUMBER" "builtin") []),
     synonymDecl (named 1 "Rate" "a") (.fun_ [(none,.tyApp (named 0 "Year" "a") [])]
      (.tyApp (named 2 "Table" "a") [])),
     synonymDecl (named 2 "Table" "a") (.tyApp (named 8 "LIST" "builtin")
      [.tyApp (named 1 "Rate" "a") []])]
     shared:=by decide +kernel },
   { decls :=
     [synonymDecl (named 0 "Loop" "b") (.tyApp (named 0 "Loop" "b") []),
      synonymDecl (named 1 "Rates" "b") (.tyApp (named 8 "LIST" "builtin")
       [.tyApp (named 1 "Rate" "a") []])]
     shared:=by decide +kernel }]
 distinct:=by decide +kernel
 earlier:=by decide +kernel

theorem quarantine_acyclic_twoModules :
  twoModules.errors.map (fun e=>e.names.map nameToText)=[["Rate","Table"],["Loop"]] ∧
  twoModules.kept.map (fun s=>nameToText s.2.1)=["Year","Rates"] ∧
  ∀ u, ¬TransGen (Mentions twoModules.kept) u u :=
 ⟨by decide +kernel,by decide +kernel,(quarantine_acyclic twoModules).1⟩

end Example

end L4Ide.SynonymCycles
