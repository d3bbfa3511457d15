import L4Ide.PartialEval
import L4Ide.DecisionQueryAgrees

set_option autoImplicit false

/-!
# What the ladder's analysis gets right

The rewritten ladder and the inputs that matter are right under every completion of the values
given. The evaluation decides a ladder just when its value does not rest on two occurrences of an
open variable having the same value, and it is then that the analysis is of one piece.
-/
namespace L4Ide.PartialEvalConsistent
open Std (TreeMap)
open Ladder DecisionQuery DecisionQueryAgrees PartialEval
open BooleanDecisionQuery (BoolExpr Answers Agrees evalAll evalAny varsAll)

def truth (σ:ℤ → Bool) (e:IRExpr) : Bool := (boolExpr e).eval σ

def Completes (α:Assignment) (σ:ℤ → Bool) : Prop :=
 ∀ u b, α[u]?.bind toBinding=some b → σ u=b

theorem evalAll_boolExprs (σ:ℤ → Bool) (es:List IRExpr) :
  evalAll σ (boolExprs es)=es.all (truth σ) := by
 induction es with
 | nil=>rfl
 | cons e es ih=>simp only [boolExprs,vizExprsToBoolExprs,evalAll,List.all_cons,truth,ih]

theorem evalAny_boolExprs (σ:ℤ → Bool) (es:List IRExpr) :
  evalAny σ (boolExprs es)=es.any (truth σ) := by
 induction es with
 | nil=>rfl
 | cons e es ih=>simp only [boolExprs,vizExprsToBoolExprs,evalAny,List.any_cons,truth,ih]

theorem truth_and (σ:ℤ → Bool) (id:ID) (es:List IRExpr) :
  truth σ (.and_ id es)=es.all (truth σ) := evalAll_boolExprs σ es

theorem truth_or (σ:ℤ → Bool) (id:ID) (es:List IRExpr) :
  truth σ (.or_ id es)=es.any (truth σ) := evalAny_boolExprs σ es

theorem truth_not (σ:ℤ → Bool) (id:ID) (e:IRExpr) :
  truth σ (.not_ id e) = !truth σ e := rfl

/-! ## Restriction -/

section Restrict
variable {σ:ℤ → Bool}

variable {e:IRExpr}

theorem truth_of_isTrueE (h:isTrueE e=true) : truth σ e=true := by
 cases e with
 | trueE id name=>rfl
 | _=>exact absurd h Bool.false_ne_true

theorem truth_of_isFalseE (h:isFalseE e=true) : truth σ e=false := by
 cases e with
 | falseE id name=>rfl
 | _=>exact absurd h Bool.false_ne_true

theorem truth_restrictNot (id:ID) (e:IRExpr) : truth σ (restrictNot id e) = !truth σ e := by
 cases e with
 | not_ id' e=>exact (Bool.not_not _).symm
 | _=>rfl

theorem all_filter_true (es:List IRExpr) :
  (es.filter fun x=>!isTrueE x).all (truth σ)=es.all (truth σ) := by
 induction es with
 | nil=>rfl
 | cons e es ih=>
  cases h:isTrueE e with
  | true=>simp [h,ih,truth_of_isTrueE h]
  | false=>simp [h,ih]

theorem any_filter_false (es:List IRExpr) :
  (es.filter fun x=>!isFalseE x).any (truth σ)=es.any (truth σ) := by
 induction es with
 | nil=>rfl
 | cons e es ih=>
  cases h:isFalseE e with
  | true=>simp [h,ih,truth_of_isFalseE h]
  | false=>simp [h,ih]

theorem truth_restrictAnd (id:ID) (es:List IRExpr) :
  truth σ (restrictAnd id es)=es.all (truth σ) := by
 unfold restrictAnd
 split_ifs with h
 · obtain ⟨e,he,hfalse⟩:=List.any_eq_true.1 h
   refine (List.all_eq_false.2 ⟨e,he, ?_⟩).symm
   rw [truth_of_isFalseE hfalse]
   exact Bool.false_ne_true
 · rw [←all_filter_true es]
   split
   · rename_i hnil
     rw [hnil]
     rfl
   · rename_i x hone
     rw [hone,List.all_cons,List.all_nil,Bool.and_true]
   · exact truth_and σ id _

theorem truth_restrictOr (id:ID) (es:List IRExpr) :
  truth σ (restrictOr id es)=es.any (truth σ) := by
 unfold restrictOr
 split_ifs with h
 · obtain ⟨e,he,htrue⟩:=List.any_eq_true.1 h
   exact (List.any_eq_true.2 ⟨e,he,truth_of_isTrueE htrue⟩).symm
 · rw [←any_filter_false es]
   split
   · rename_i hnil
     rw [hnil]
     rfl
   · rename_i x hone
     rw [hone,List.any_cons,List.any_nil,Bool.or_false]
   · exact truth_or σ id _

mutual

theorem truth_restrictExpr {α:Assignment} (hσ:Completes α σ) :
  ∀ e : IRExpr, truth σ (restrictExpr α e)=truth σ e
 | .uBoolVar id name=>by
  unfold restrictExpr
  split
  · rename_i h
    exact (hσ name.unique true (by rw [h]; rfl)).symm
  · rename_i h
    exact (hσ name.unique false (by rw [h]; rfl)).symm
  · rfl
 | .trueE _ _=>rfl
 | .falseE _ _=>rfl
 | .not_ id negand=>by
  rw [restrictExpr,truth_restrictNot,truth_restrictExpr hσ negand,truth_not]
 | .and_ id args=>by
  rw [restrictExpr,truth_restrictAnd,(truth_restrictEach hσ args).1,truth_and]
 | .or_ id args=>by
  rw [restrictExpr,truth_restrictOr,(truth_restrictEach hσ args).2,truth_or]
 | .app _ _ _=>rfl
 | .inertE _ _ _=>rfl

theorem truth_restrictEach {α:Assignment} (hσ:Completes α σ) : ∀ es : List IRExpr,
  (restrictEach α es).all (truth σ)=es.all (truth σ) ∧
   (restrictEach α es).any (truth σ)=es.any (truth σ)
 | []=>⟨rfl,rfl⟩
 | e::es=>by
  obtain ⟨hall,hany⟩:=truth_restrictEach hσ es
  simp only [restrictEach,List.all_cons,List.any_cons,truth_restrictExpr hσ e,hall,hany,
   and_self]

end

end Restrict

/-! ## Evaluation -/

mutual

/-- A value the ladder has when every occurrence of an open variable is read on its own. -/
inductive Reads (α:Assignment) : IRExpr → Bool → Prop where
 | trueE (id:ID) (name:VName) : Reads α (.trueE id name) true
 | falseE (id:ID) (name:VName) : Reads α (.falseE id name) false
 | uBoolVar (id:ID) (name:VName) (b:Bool)
   (h:∀ c, α[name.unique]?.bind toBinding=some c → b=c) : Reads α (.uBoolVar id name) b
 | not_ (id:ID) {e:IRExpr} {b:Bool} (h:Reads α e b) : Reads α (.not_ id e) (!b)
 | and_ (id:ID) {es:List IRExpr} {bs:List Bool} (h:ReadsEach α es bs) :
   Reads α (.and_ id es) (bs.all fun b=>b)
 | or_ (id:ID) {es:List IRExpr} {bs:List Bool} (h:ReadsEach α es bs) :
   Reads α (.or_ id es) (bs.any fun b=>b)
 | inertAnd (id:ID) (txt:String) : Reads α (.inertE id txt .inertCtxAnd) true
 | inertOr (id:ID) (txt:String) : Reads α (.inertE id txt .inertCtxOr) false
 | inertNone (id:ID) (txt:String) : Reads α (.inertE id txt .inertCtxNone) true

inductive ReadsEach (α:Assignment) : List IRExpr → List Bool → Prop where
 | nil : ReadsEach α [] []
 | cons {e:IRExpr} {es:List IRExpr} {b:Bool} {bs:List Bool} (h:Reads α e b)
   (ht:ReadsEach α es bs) : ReadsEach α (e::es) (b::bs)

end

def ofBool : Bool → UBoolVal
 | true=>.trueV
 | false=>.falseV

def Allows (v:UBoolVal) (b:Bool) : Prop := v ≠ ofBool !b

instance (v:UBoolVal) (b:Bool) : Decidable (Allows v b) := inferInstanceAs (Decidable (_ ≠ _))

/-- The value of a connective that `a` decides, over values that are all there. -/
def chainValue (a:Bool) (vs:List UBoolVal) : UBoolVal :=
 if ofBool a ∈ vs then ofBool a else if ∀ v ∈ vs, v=ofBool !a then ofBool !a else .unknownV

theorem exists_allowed (v:UBoolVal) : ∃ b, Allows v b := by
 cases v with
 | trueV=>exact ⟨true,by decide⟩
 | falseV=>exact ⟨false,by decide⟩
 | unknownV=>exact ⟨true,by decide⟩

theorem someVal_map (v:UBoolVal) (vs:List UBoolVal) :
  someVal v (vs.map some)=some (decide (v ∈ vs)) := by
 induction vs with
 | nil=>rfl
 | cons w vs ih=>
  by_cases h:w=v
  · simp [someVal,h]
  · simp [someVal,h,ih,Ne.symm h]

theorem all_map_some (v:UBoolVal) (vs:List UBoolVal) :
  ((vs.map some).all fun w=>decide (w=some v))=decide (∀ w ∈ vs, w=v) := by
 rw [Bool.eq_iff_iff]
 simp

theorem evalAndChain_map (vs:List UBoolVal) :
  evalAndChain (vs.map some)=some (chainValue false vs) := by
 simp only [evalAndChain,someVal_map,all_map_some,chainValue,ofBool,Option.bind_eq_bind,
  Option.bind_some,decide_eq_true_eq,Bool.not_false]
 split_ifs <;> rfl

theorem evalOrChain_map (vs:List UBoolVal) :
  evalOrChain (vs.map some)=some (chainValue true vs) := by
 simp only [evalOrChain,someVal_map,all_map_some,chainValue,ofBool,Option.bind_eq_bind,
  Option.bind_some,decide_eq_true_eq,Bool.not_true]
 split_ifs <;> rfl

theorem exists_allowed_each (vs:List UBoolVal) : ∃ bs, List.Forall₂ Allows vs bs := by
 induction vs with
 | nil=>exact ⟨[],.nil⟩
 | cons v vs ih=>
  obtain ⟨b,hb⟩:=exists_allowed v
  obtain ⟨bs,hbs⟩:=ih
  exact ⟨b::bs,.cons hb hbs⟩

variable {a:Bool} {vs:List UBoolVal} {v:UBoolVal} {α:Assignment} {σ:ℤ → Bool} {u:ℤ}
 {d:Option Bool}

/-- One operand that may decide the connective is enough for some reading to be decided by it. -/
theorem exists_mem_allowed :
  (∃ bs, List.Forall₂ Allows vs bs ∧ a ∈ bs) ↔ ∃ v ∈ vs, Allows v a := by
 induction vs with
 | nil=>simp
 | cons v vs ih=>
  constructor
  · rintro ⟨bs,hbs,ha⟩
    cases hbs with
    | cons hv hvs=>
     rcases List.mem_cons.1 ha with rfl | ha
     · exact ⟨v,List.mem_cons_self,hv⟩
     · obtain ⟨w,hw,hwa⟩:=ih.1 ⟨_,hvs,ha⟩
       exact ⟨w,List.mem_cons_of_mem _ hw,hwa⟩
  · rintro ⟨w,hw,hwa⟩
    rcases List.mem_cons.1 hw with rfl | hw
    · obtain ⟨bs,hbs⟩:=exists_allowed_each vs
      exact ⟨a::bs,.cons hwa hbs,List.mem_cons_self⟩
    · obtain ⟨b,hb⟩:=exists_allowed v
      obtain ⟨bs,hbs,ha⟩:=ih.2 ⟨w,hw,hwa⟩
      exact ⟨b::bs,.cons hb hbs,List.mem_cons_of_mem _ ha⟩

theorem exists_notMem_allowed :
  (∃ bs, List.Forall₂ Allows vs bs ∧ a ∉ bs) ↔ ∀ v ∈ vs, Allows v !a := by
 induction vs with
 | nil=>simp
 | cons v vs ih=>
  rw [List.forall_mem_cons,←ih]
  constructor
  · rintro ⟨bs,hbs,ha⟩
    cases hbs with
    | @cons _ b _ bs hv hvs=>
     rw [List.mem_cons,not_or] at ha
     have hb:b = !a:=by
      cases a <;> cases b <;> simp_all
     exact ⟨hb ▸ hv,bs,hvs,ha.2⟩
  · rintro ⟨hv,bs,hbs,ha⟩
    refine ⟨(!a)::bs,.cons hv hbs, ?_⟩
    rw [List.mem_cons,not_or]
    exact ⟨by cases a <;> simp,ha⟩

theorem allows_ofBool (a:Bool) : Allows (ofBool a) a := by cases a <;> decide

theorem not_allows_ofBool (a:Bool) : ¬Allows (ofBool !a) a := fun h=>h rfl

theorem allows_unknown (b:Bool) : Allows .unknownV b := by cases b <;> decide

theorem allows_not : Allows v (!a) ↔ v ≠ ofBool a := by
 rw [Allows,Bool.not_not]

theorem chainValue_allows (a:Bool) (vs:List UBoolVal) (c:Bool) :
  (∃ bs, List.Forall₂ Allows vs bs ∧ (if a ∈ bs then a else !a)=c) ↔
   Allows (chainValue a vs) c := by
 by_cases hc:c=a
 · subst hc
   have hleft:(∃ bs, List.Forall₂ Allows vs bs ∧ (if c ∈ bs then c else !c)=c) ↔
     ∃ bs, List.Forall₂ Allows vs bs ∧ c ∈ bs := by
    refine exists_congr fun bs=>and_congr_right fun _=>?_
    by_cases h:c ∈ bs <;> simp [h]
   rw [hleft,exists_mem_allowed]
   unfold chainValue
   split_ifs with hmem hall
   · exact iff_of_true ⟨_,hmem,allows_ofBool c⟩ (allows_ofBool c)
   · refine iff_of_false ?_ (not_allows_ofBool c)
     rintro ⟨v,hv,hallows⟩
     exact hallows (hall v hv)
   · refine iff_of_true ?_ (allows_unknown c)
     by_contra hno
     refine hall fun v hv=>?_
     by_contra hne
     exact hno ⟨v,hv,hne⟩
 · obtain rfl : c = !a:=by cases a <;> cases c <;> simp_all
   have hleft:(∃ bs, List.Forall₂ Allows vs bs ∧ (if a ∈ bs then a else !a) = !a) ↔
     ∃ bs, List.Forall₂ Allows vs bs ∧ a ∉ bs := by
    refine exists_congr fun bs=>and_congr_right fun _=>?_
    by_cases h:a ∈ bs <;> simp [h]
   rw [hleft,exists_notMem_allowed,allows_not]
   unfold chainValue
   split_ifs with hmem hall
   · refine iff_of_false (fun hno=>?_) fun hne=>hne rfl
     exact allows_not.1 (hno _ hmem) rfl
   · refine iff_of_true (fun v hv=>allows_not.2 ?_) (by cases a <;> decide)
     rintro rfl
     exact hmem hv
   · refine iff_of_true (fun v hv=>allows_not.2 ?_) (by cases a <;> decide)
     rintro rfl
     exact hmem hv

theorem all_eq_ite (bs:List Bool) : (bs.all fun b=>b) = if false ∈ bs then false else !false := by
 induction bs with
 | nil=>rfl
 | cons b bs ih=>cases b <;> simp_all

theorem any_eq_ite (bs:List Bool) : (bs.any fun b=>b) = if true ∈ bs then true else !true := by
 induction bs with
 | nil=>rfl
 | cons b bs ih=>cases b <;> simp_all

section Eval
variable {α:Assignment} (evalApp:ID → List UBoolVal → EvalAppReply)

variable {e:IRExpr} {es:List IRExpr} {vs:List UBoolVal}

theorem reads_iff_of_const {c:Bool} (h:Reads α e c)
  (hone:∀ b, Reads α e b → b=c) (b:Bool) : Reads α e b ↔ Allows (ofBool c) b := by
 constructor
 · intro hb
   rw [hone b hb]
   exact allows_ofBool c
 · intro hb
   have hbc:b=c:=by
    by_contra hne
    obtain rfl : c = !b:=by cases b <;> cases c <;> simp_all
    exact not_allows_ofBool b hb
   exact hbc ▸ h

theorem reads_not_iff {id:ID} {b:Bool} :
  Reads α (.not_ id e) b ↔ Reads α e !b := by
 constructor
 · intro h
   cases h with
   | not_ _ h=>rwa [Bool.not_not]
 · intro h
   exact Bool.not_not b ▸ Reads.not_ id h

theorem readsEach_iff
  (h:List.Forall₂ (fun e v=>∀ b, Reads α e b ↔ Allows v b) es vs) (bs:List Bool) :
  ReadsEach α es bs ↔ List.Forall₂ Allows vs bs := by
 induction h generalizing bs with
 | nil=>
  constructor
  · rintro ⟨⟩
    exact .nil
  · rintro ⟨⟩
    exact .nil
 | cons hev _ ih=>
  constructor
  · rintro (_ | ⟨hb,hbs⟩)
    exact .cons ((hev _).1 hb) ((ih _).1 hbs)
  · rintro (_ | ⟨hb,hbs⟩)
    exact .cons ((hev _).2 hb) ((ih _).2 hbs)

theorem reads_and_iff {id:ID}
  (h:List.Forall₂ (fun e v=>∀ b, Reads α e b ↔ Allows v b) es vs) (c:Bool) :
  Reads α (.and_ id es) c ↔ Allows (chainValue false vs) c := by
 rw [←chainValue_allows]
 constructor
 · rintro ⟨⟩
   rename_i bs hbs
   exact ⟨bs,(readsEach_iff h bs).1 hbs,(all_eq_ite bs).symm⟩
 · rintro ⟨bs,hbs,rfl⟩
   exact all_eq_ite bs ▸ Reads.and_ id ((readsEach_iff h bs).2 hbs)

theorem reads_or_iff {id:ID}
  (h:List.Forall₂ (fun e v=>∀ b, Reads α e b ↔ Allows v b) es vs) (c:Bool) :
  Reads α (.or_ id es) c ↔ Allows (chainValue true vs) c := by
 rw [←chainValue_allows]
 constructor
 · rintro ⟨⟩
   rename_i bs hbs
   exact ⟨bs,(readsEach_iff h bs).1 hbs,(any_eq_ite bs).symm⟩
 · rintro ⟨bs,hbs,rfl⟩
   exact any_eq_ite bs ▸ Reads.or_ id ((readsEach_iff h bs).2 hbs)

mutual

/-- The evaluation leaves open what some reading of the occurrences on their own gives. -/
theorem eval_reads : ∀ e : IRExpr, containsApp e=false → (∀ v ∈ (boolExpr e).vars, v ∈ α) →
  ∃ v, eval_ evalApp α e=some (some v) ∧ ∀ b, Reads α e b ↔ Allows v b
 | .trueE id name, _, _=>
  ⟨.trueV,rfl,reads_iff_of_const (.trueE id name) (by rintro _ ⟨⟩; rfl)⟩
 | .falseE id name, _, _=>
  ⟨.falseV,rfl,reads_iff_of_const (.falseE id name) (by rintro _ ⟨⟩; rfl)⟩
 | .uBoolVar id name, _, hα=>by
  have hmem:=hα name.unique (List.mem_singleton_self _)
  obtain ⟨v,hv⟩ : ∃ v, α[name.unique]? = some v:=⟨_,TreeMap.getElem?_eq_some_getElem hmem⟩
  refine ⟨v,by rw [eval_,hv],fun b=>?_⟩
  have hreads:Reads α (.uBoolVar id name) b ↔ ∀ c, toBinding v=some c → b=c:=by
   constructor
   · rintro ⟨⟩
     rename_i h
     rw [hv] at h
     exact h
   · intro h
     exact .uBoolVar id name b (by rw [hv]; exact h)
  rw [hreads]
  cases v <;> cases b <;> decide
 | .not_ id negand, happ, hα=>by
  obtain ⟨v,eq,hv⟩:=eval_reads negand happ hα
  refine ⟨negate v,by simp only [eval_,eq,Option.bind_eq_bind,Option.bind_some,
   Option.pure_def],fun b=>?_⟩
  rw [reads_not_iff,hv]
  cases v <;> cases b <;> decide
 | .and_ id args, happ, hα=>by
  obtain ⟨vs,eq,hvs⟩:=evalEach_reads args happ hα
  exact ⟨_,by simp only [eval_,eq,evalAndChain_map,Option.bind_eq_bind,Option.bind_some,
   Option.pure_def],
   reads_and_iff hvs⟩
 | .or_ id args, happ, hα=>by
  obtain ⟨vs,eq,hvs⟩:=evalEach_reads args happ hα
  exact ⟨_,by simp only [eval_,eq,evalOrChain_map,Option.bind_eq_bind,Option.bind_some,
   Option.pure_def],
   reads_or_iff hvs⟩
 | .inertE id txt .inertCtxOr, _, _=>
  ⟨.falseV,rfl,reads_iff_of_const (.inertOr id txt) (by rintro _ ⟨⟩; rfl)⟩
 | .inertE id txt .inertCtxAnd, _, _=>
  ⟨.trueV,rfl,reads_iff_of_const (.inertAnd id txt) (by rintro _ ⟨⟩; rfl)⟩
 | .inertE id txt .inertCtxNone, _, _=>
  ⟨.trueV,rfl,reads_iff_of_const (.inertNone id txt) (by rintro _ ⟨⟩; rfl)⟩

theorem evalEach_reads : ∀ es : List IRExpr, containsAppEach es=false →
  (∀ v ∈ varsAll (boolExprs es), v ∈ α) →
  ∃ vs : List UBoolVal, evalEach evalApp α es=some (vs.map some) ∧
   List.Forall₂ (fun e v=>∀ b, Reads α e b ↔ Allows v b) es vs
 | [], _, _=>⟨[],rfl,.nil⟩
 | e::es, happ, hα=>by
  obtain ⟨hhead,htail⟩:=Bool.or_eq_false_iff.1 happ
  obtain ⟨v,eq,hv⟩:=eval_reads e hhead fun u hu=>hα u (List.mem_append_left _ hu)
  obtain ⟨vs,eqs,hvs⟩:=evalEach_reads es htail fun u hu=>hα u (List.mem_append_right _ hu)
  refine ⟨v::vs, ?_,.cons hv hvs⟩
  simp only [evalEach,eq,eqs,Option.bind_eq_bind,Option.bind_some,List.map_cons]
  rfl

end

end Eval

mutual

theorem reads_truth {α:Assignment} {σ:ℤ → Bool} (hσ:Completes α σ) :
  ∀ e : IRExpr, containsApp e=false → Reads α e (truth σ e)
 | .trueE id name, _=>.trueE id name
 | .falseE id name, _=>.falseE id name
 | .uBoolVar id name, _=>.uBoolVar id name _ fun c h=>hσ name.unique c h
 | .not_ id negand, happ=>.not_ id (reads_truth hσ negand happ)
 | .and_ id args, happ=>by
  have h:=Reads.and_ id (readsEach_truth hσ args happ)
  rw [List.all_map] at h
  exact truth_and σ id args ▸ h
 | .or_ id args, happ=>by
  have h:=Reads.or_ id (readsEach_truth hσ args happ)
  rw [List.any_map] at h
  exact truth_or σ id args ▸ h
 | .inertE id txt .inertCtxAnd, _=>.inertAnd id txt
 | .inertE id txt .inertCtxOr, _=>.inertOr id txt
 | .inertE id txt .inertCtxNone, _=>.inertNone id txt

theorem readsEach_truth {α:Assignment} {σ:ℤ → Bool} (hσ:Completes α σ) :
  ∀ es : List IRExpr, containsAppEach es=false → ReadsEach α es (es.map (truth σ))
 | [], _=>.nil
 | e::es, happ=>by
  obtain ⟨hhead,htail⟩:=Bool.or_eq_false_iff.1 happ
  exact .cons (reads_truth hσ e hhead) (readsEach_truth hσ es htail)

end

/-! ## What matters -/

theorem getElem?_bindingsOf (α:Assignment) (u:ℤ) :
  (bindingsOf α)[u]? = α[u]?.bind toBinding := by
 have hmem:∀ k b, (k,b) ∈ (α.toList.filterMap fun p=>(toBinding p.2).map fun b=>(p.1,b)) ↔
   α[k]?.bind toBinding=some b := by
  intro k b
  simp only [List.mem_filterMap,Prod.exists,TreeMap.mem_toList_iff_getElem?_eq_some,
   Option.map_eq_some_iff,Prod.mk.injEq,Option.bind_eq_some_iff]
  constructor
  · rintro ⟨w,v,hv,c,hc,rfl,rfl⟩
    exact ⟨v,hv,hc⟩
  · rintro ⟨v,hv,hc⟩
    exact ⟨k,v,hv,b,hc,rfl,rfl⟩
 apply Option.ext
 intro b
 rw [bindingsOf,BooleanDecisionQuery.getElem?_ofList_iff,hmem]
 intro k b c hb hc
 exact Option.some.inj (((hmem k b).1 hb).symm.trans ((hmem k c).1 hc))

theorem agrees_bindingsOf :
  Agrees (bindingsOf α) σ ↔ Completes α σ :=
 forall_congr' fun u=>forall_congr' fun b=>by rw [getElem?_bindingsOf]

theorem notMem_bindingsOf :
  u ∉ bindingsOf α ↔ isUnassigned α u=true := by
 rw [isUnassigned,←getElem?_bindingsOf,TreeMap.mem_iff_isSome_getElem?]
 cases (bindingsOf α)[u]? <;> simp

def Matters (α:Assignment) (e:IRExpr) (u:ℤ) : Prop :=
 ∃ σ τ, Completes α σ ∧ (∀ y, y ≠ u → τ y=σ y) ∧ truth τ e ≠ truth σ e

theorem constant_of_no_support {e:BoolExpr ℤ} {bindings:TreeMap ℤ Bool}
  {s:Std.TreeSet ℤ} (h:Answers e bindings d s) (hempty:∀ x, x ∉ s) {τ:ℤ → Bool}
  (hσ:Agrees bindings σ) (hτ:Agrees bindings τ) : e.eval σ=e.eval τ := by
 have hmix:∀ l : List ℤ, e.eval (fun v=>if v ∈ l then τ v else σ v)=e.eval σ:=by
  intro l
  induction l with
  | nil=>simp
  | cons x l ih=>
   rw [←ih]
   have hagrees:Agrees bindings fun v=>if v ∈ l then τ v else σ v:=by
    intro v b hb
    dsimp only
    split_ifs
    · exact hτ v b hb
    · exact hσ v b hb
   by_contra hne
   have hother:∀ y, y ≠ x → (if y ∈ x::l then τ y else σ y) = if y ∈ l then τ y else σ y:=by
    intro y hy
    simp [hy]
   by_cases hx:x ∈ bindings
   · refine hne (e.eval_congr fun v _=>?_)
     by_cases hv:v=x
     · subst hv
       have hb:=TreeMap.getElem?_eq_some_getElem hx
       simp [hτ v _ hb,hσ v _ hb]
     · exact hother v hv
   · exact hempty x ((h.mem_support_iff x).2 ⟨hx,_,_,hagrees,hother,hne⟩)
 rw [←hmix e.vars]
 exact e.eval_congr fun v hv=>if_pos hv

theorem mem_uniqSorted {l:List ℤ} : u ∈ uniqSorted l ↔ u ∈ l := by
 rw [uniqSorted,List.mem_mergeSort,List.mem_eraseDups]

/-! ## The analysis -/

structure Ready (z:PartialEvalAnalyzer) (expr:IRExpr) (order:List ℤ) : Prop where
 expr_eq : z.expr=expr
 order_eq : z.allVarsInOrder=order
 serves : ∃ c, z.compiled=some c ∧ Serves c order (boolExpr expr)

structure ReadsOff (expr:IRExpr) (order:List ℤ) (α:Assignment) (v:UBoolVal)
  (support:Std.TreeSet ℤ) (a:PartialEvalAnalysis) : Prop where
 overall : a.overallResult=v
 determined : a.isDetermined=isDeterminedValue v
 stillNeeded : ∀ u, u ∈ a.stillNeeded ↔ (u ∈ order ∧ isUnassigned α u) ∧ u ∈ support
 dontCare : ∀ u, u ∈ a.dontCare ↔ (u ∈ order ∧ isUnassigned α u) ∧ u ∉ support
 next : a.next ≠ [] ↔ ∃ u, u ∈ support
 restricted : a.restrictedExpr=restrictExpr α expr

section Analysis
variable {expr:IRExpr} {order:List ℤ} (evalApp:ID → List UBoolVal → EvalAppReply)

theorem newAnalyzer_ready (happ:containsApp expr=false)
  (horder:∀ v ∈ (boolExpr expr).vars, v ∈ order) :
  ∃ z, newAnalyzer expr order=some z ∧ Ready z expr order := by
 obtain ⟨c,hc,hs⟩:=compileDecisionQuery_serves happ horder
 refine ⟨⟨expr,order,some c⟩, ?_,⟨rfl,rfl,c,rfl,hs⟩⟩
 rw [newAnalyzer,happ,if_neg Bool.false_ne_true,hc]
 rfl

variable {z:PartialEvalAnalyzer}

theorem Ready.evalAndAnalyze (hz:Ready z expr order)
  (happ:containsApp expr=false) (horder:∀ v ∈ (boolExpr expr).vars, v ∈ order)
  {α:Assignment} (hα:∀ v ∈ (boolExpr expr).vars, v ∈ α) :
  ∃ v d support a z', (∀ b, Reads α expr b ↔ Allows v b) ∧
   Answers (boolExpr expr) (bindingsOf α) d support ∧
   PartialEval.evalAndAnalyze evalApp z α=some (a,z') ∧ Ready z' expr order ∧
   ReadsOff expr order α v support a := by
 obtain ⟨v,heval,hv⟩:=eval_reads evalApp expr happ hα
 obtain ⟨c,hc,hs⟩:=hz.serves
 obtain ⟨q,c', hq,hs', ⟨support,hsupp,hans⟩,hranked,-⟩:=hs.query horder (bindingsOf α)
 have hsupp:q.support=support.toList:=hsupp
 have hmem:∀ u, u ∈ q.support ↔ u ∈ support:=by
  intro u
  rw [hsupp,Std.TreeSet.mem_toList]
 have hopen:∀ u ∈ support, u ∈ order ∧ isUnassigned α u=true:=by
  intro u hu
  obtain ⟨hb,σ,τ,-,hτ,hne⟩:=(hans.mem_support_iff u).1 hu
  refine ⟨horder u ?_,notMem_bindingsOf.1 hb⟩
  by_contra hno
  refine hne ((boolExpr expr).eval_congr fun w hw=>hτ w ?_)
  rintro rfl
  exact hno hw
 have hrankedMem:∀ u, u ∈ q.ranked ↔ u ∈ support:=by
  intro u
  rw [hranked,rank,List.mem_mergeSort,hmem]
 let notAsked:=order.filter (isUnassigned α)
 let rankedStillNeeded:=q.ranked.filter fun u=>u ∈ q.support ∧ u ∈ notAsked
 let a:PartialEvalAnalysis:=
  { overallResult:=v
    isDetermined:=isDeterminedValue v
    notAsked:=uniqSorted notAsked
    next:=rankedStillNeeded.take 1
    stillNeeded:=uniqSorted (notAsked.filter fun u=>u ∈ q.support)
    dontCare:=uniqSorted (notAsked.filter fun u=>u ∉ q.support)
    ranked:=rankedStillNeeded
    restrictedExpr:=restrictExpr α expr
    bddStats:=some q.stats
    usedBdd:=true }
 have hnext:rankedStillNeeded.take 1 ≠ [] ↔ ∃ u, u ∈ support:=by
  have htake:rankedStillNeeded.take 1 ≠ [] ↔ rankedStillNeeded ≠ []:=by
   cases rankedStillNeeded <;> simp
  have hmember:rankedStillNeeded ≠ [] ↔ ∃ u, u ∈ rankedStillNeeded:=by
   refine ⟨List.exists_mem_of_ne_nil _, ?_⟩
   rintro ⟨u,hu⟩
   exact List.ne_nil_of_mem hu
  rw [htake,hmember]
  refine exists_congr fun u=>?_
  simp only [rankedStillNeeded,notAsked,List.mem_filter,hrankedMem,hmem,decide_eq_true_eq]
  exact ⟨fun h=>h.1,fun h=>⟨h,h,hopen u h⟩⟩
 have hanalyze:PartialEval.evalAndAnalyze evalApp z α =
   some (a,{ z with compiled:=some c' }) := by
  simp only [PartialEval.evalAndAnalyze,analyze,supportOf,hz.expr_eq,heval,hc,hq,
   hz.order_eq,
   Option.bind_eq_bind,Option.bind_some,Option.pure_def,Option.isSome_some]
  rfl
 refine ⟨v,q.determined,support,a,_,hv,hans,hanalyze,
  ⟨hz.expr_eq,hz.order_eq,c', rfl,hs'⟩,rfl,rfl,fun u=>?_,fun u=>?_,hnext,rfl⟩
 · simp only [a,notAsked,mem_uniqSorted,List.mem_filter,hmem,decide_eq_true_eq]
 · simp only [a,notAsked,mem_uniqSorted,List.mem_filter,hmem,decide_eq_true_eq]

theorem Ready.analyses (hz:Ready z expr order)
  (happ:containsApp expr=false) (horder:∀ v ∈ (boolExpr expr).vars, v ∈ order)
  (earlier:List Assignment) (hearlier:∀ α ∈ earlier, ∀ v ∈ (boolExpr expr).vars, v ∈ α) :
  ∃ z', PartialEval.analyses evalApp earlier z=some z' ∧ Ready z' expr order := by
 induction earlier generalizing z with
 | nil=>exact ⟨z,rfl,hz⟩
 | cons α earlier ih=>
  obtain ⟨v,d,support,a,z1,-,-,eq,hz1,-⟩:=
   hz.evalAndAnalyze evalApp happ horder (hearlier α List.mem_cons_self)
  obtain ⟨z2,eq2,hz2⟩:=ih hz1 fun β hβ=>hearlier β (List.mem_cons_of_mem _ hβ)
  refine ⟨z2, ?_,hz2⟩
  simp only [PartialEval.analyses,eq,eq2,Option.bind_eq_bind,Option.bind_some]

end Analysis

/-- The value is `b` under every completion. -/
def Settled (α:Assignment) (e:IRExpr) (b:Bool) : Prop :=
 ∀ σ, Completes α σ → truth σ e=b

/-- The analysis is of one piece: the rewritten ladder means the same, the open variables are
    split by whether they matter, the result is determined just when every completion agrees on
    it, and it is open just when there is something to ask next. -/
structure Consistent (expr:IRExpr) (order:List ℤ) (α:Assignment) (a:PartialEvalAnalysis) :
  Prop where
 restricted : ∀ σ, Completes α σ → truth σ a.restrictedExpr=truth σ expr
 stillNeeded : ∀ u, u ∈ a.stillNeeded ↔ (u ∈ order ∧ isUnassigned α u) ∧ Matters α expr u
 dontCare : ∀ u, u ∈ a.dontCare ↔ (u ∈ order ∧ isUnassigned α u) ∧ ¬Matters α expr u
 overall : ∀ b, a.overallResult=ofBool b ↔ Settled α expr b
 next : a.isDetermined=false ↔ a.next ≠ []

theorem consistent_of_readsOff {expr:IRExpr} {order:List ℤ}
  {support:Std.TreeSet ℤ} {a:PartialEvalAnalysis}
  (happ:containsApp expr=false) (hv:∀ b, Reads α expr b ↔ Allows v b)
  (hans:Answers (boolExpr expr) (bindingsOf α) d support)
  (ha:ReadsOff expr order α v support a) :
  Consistent expr order α a ↔ ∀ b, Settled α expr b → ∀ c, Reads α expr c → c=b := by
 have hmatters:∀ u, isUnassigned α u=true → (u ∈ support ↔ Matters α expr u):=by
  intro u hu
  rw [hans.mem_support_iff,and_iff_right (notMem_bindingsOf.2 hu),Matters]
  exact exists_congr fun σ=>exists_congr fun τ=>and_congr_left' agrees_bindingsOf
 have honly:∀ b, v=ofBool b ↔ ∀ c, Reads α expr c → c=b:=by
  intro b
  simp only [hv]
  cases v <;> cases b <;> decide
 have hsettled:(∃ b, Settled α expr b) ↔ ∀ u, u ∉ support:=by
  constructor
  · rintro ⟨b,hb⟩ u hu
    obtain ⟨hfree,σ,τ,hσ,hτ,hne⟩:=(hans.mem_support_iff u).1 hu
    have hτ' : Agrees (bindingsOf α) τ:=by
     intro w c hw
     have hwu:w ≠ u:=by
      rintro rfl
      exact hfree (TreeMap.mem_iff_isSome_getElem?.2 (by rw [hw]; rfl))
     rw [hτ w hwu]
     exact hσ w c hw
    exact hne ((hb τ (agrees_bindingsOf.1 hτ')).trans (hb σ (agrees_bindingsOf.1 hσ)).symm)
  · intro hempty
    have hσ0:Agrees (bindingsOf α) fun u=>(bindingsOf α)[u]?.getD false:=by
     intro u b hb
     simp only [hb,Option.getD_some]
    exact ⟨_,fun σ hσ=>constant_of_no_support hans hempty (agrees_bindingsOf.2 hσ) hσ0⟩
 constructor
 · intro hcons b hb
   exact (honly b).1 (ha.overall.symm.trans ((hcons.overall b).2 hb))
 · intro hlocal
   have hoverall:∀ b, v=ofBool b ↔ Settled α expr b:=by
    intro b
    rw [honly]
    exact ⟨fun h σ hσ=>h _ (reads_truth hσ expr happ),hlocal b⟩
   refine ⟨fun σ hσ=>?_,fun u=>?_,fun u=>?_,fun b=>?_, ?_⟩
   · rw [ha.restricted,truth_restrictExpr hσ]
   · rw [ha.stillNeeded]
     exact and_congr_right fun h=>hmatters u h.2
   · rw [ha.dontCare]
     exact and_congr_right fun h=>not_congr (hmatters u h.2)
   · rw [ha.overall]
     exact hoverall b
   · have hopen:isDeterminedValue v=false ↔ ¬∃ b, v=ofBool b:=by
      cases v <;> decide
     rw [ha.determined,hopen,ha.next,exists_congr hoverall,hsettled]
     simp only [not_forall,not_not]

/-- The analysis of a ladder without calls is of one piece just when its value, where every
    completion agrees on it, does not rest on two occurrences of an open variable being read
    alike. -/
theorem analysis_consistent_iff (evalApp:ID → List UBoolVal → EvalAppReply) (expr:IRExpr)
  (happ:containsApp expr=false) (order:List ℤ)
  (horder:∀ v ∈ (boolExpr expr).vars, v ∈ order) (earlier:List Assignment)
  (hearlier:∀ α ∈ earlier, ∀ v ∈ (boolExpr expr).vars, v ∈ α) (α:Assignment)
  (hα:∀ v ∈ (boolExpr expr).vars, v ∈ α) :
  ∃ z z' a z'', newAnalyzer expr order=some z ∧ analyses evalApp earlier z=some z' ∧
   evalAndAnalyze evalApp z' α=some (a,z'') ∧
   (Consistent expr order α a ↔ ∀ b, Settled α expr b → ∀ c, Reads α expr c → c=b) := by
 obtain ⟨z,hnew,hz⟩:=newAnalyzer_ready happ horder
 obtain ⟨z', hrun,hz'⟩:=hz.analyses evalApp happ horder earlier hearlier
 obtain ⟨v,d,support,a,z'', hv,hans,heq,-,ha⟩:=hz'.evalAndAnalyze evalApp happ horder hα
 exact ⟨z,z', a,z'', hnew,hrun,heq,consistent_of_readsOff happ hv hans ha⟩

def givenA : Assignment := TreeMap.ofList [((20 : ℤ),UBoolVal.trueV),(10,.unknownV)]

theorem covers_caseRule : ∀ v ∈ (boolExpr caseRule).vars, v ∈ givenA := by
 decide +kernel

theorem analysis_consistent_iff_caseRule :
  containsApp caseRule=false ∧ (∀ v ∈ (boolExpr caseRule).vars, v ∈ [(20 : ℤ),10]) ∧
   (∀ v ∈ (boolExpr caseRule).vars, v ∈ givenA) ∧
   ∃ z z' a z'', newAnalyzer caseRule [20,10]=some z ∧
    analyses (fun _ _=>.refused) [givenA] z=some z' ∧
    evalAndAnalyze (fun _ _=>.refused) z' givenA=some (a,z'') ∧
    (Consistent caseRule [20,10] givenA a ↔
     ∀ b, Settled givenA caseRule b → ∀ c, Reads givenA caseRule c → c=b) := by
 have hanalysis:=analysis_consistent_iff (fun _ _=>.refused) caseRule containsApp_caseRule
  [20,10] vars_caseRule [givenA] (fun α hα=>List.mem_singleton.1 hα ▸ covers_caseRule) givenA
  covers_caseRule
 exact ⟨containsApp_caseRule,vars_caseRule,covers_caseRule,hanalysis⟩

/-- `x OR NOT x`. -/
def eitherWay : IRExpr := .or_ 1 [.uBoolVar 2 ⟨5,"x"⟩,.not_ 3 (.uBoolVar 4 ⟨5,"x"⟩)]

def openX : Assignment := TreeMap.ofList [((5 : ℤ),UBoolVal.unknownV)]

theorem settled_eitherWay : Settled openX eitherWay true := by
 intro σ _
 rw [eitherWay,truth_or]
 simp [truth,boolExpr,vizExprToBoolExpr,BoolExpr.eval]

theorem reads_eitherWay : Reads openX eitherWay false := by
 have hopen:∀ b c : Bool, openX[(5 : ℤ)]?.bind toBinding=some c → b=c:=by
  intro b c h
  simp [openX,TreeMap.ofList_singleton,toBinding] at h
 exact .or_ 1 (.cons (.uBoolVar 2 _ false (hopen false))
  (.cons (.not_ 3 (.uBoolVar 4 _ true (hopen true))) .nil))

/-- With `x` open, every completion makes `x OR NOT x` true, and the analysis is not of one piece:
    it finds nothing to ask and no result. -/
theorem analysis_misses_eitherWay :
  ∃ z a z'', newAnalyzer eitherWay [5]=some z ∧
   evalAndAnalyze (fun _ _=>.refused) z openX=some (a,z'') ∧
   Settled openX eitherWay true ∧ ¬Consistent eitherWay [5] openX a := by
 have happ:containsApp eitherWay=false:=rfl
 have hvars:∀ v ∈ (boolExpr eitherWay).vars, v ∈ [(5 : ℤ)]:=by decide +kernel
 have hα:∀ v ∈ (boolExpr eitherWay).vars, v ∈ openX:=by decide +kernel
 obtain ⟨z,hnew,hz⟩:=newAnalyzer_ready happ hvars
 obtain ⟨v,d,support,a,z'', hv,hans,heq,-,ha⟩:=
  hz.evalAndAnalyze (fun _ _=>.refused) happ hvars hα
 refine ⟨z,a,z'', hnew,heq,settled_eitherWay,fun hcons=>?_⟩
 exact Bool.false_ne_true ((consistent_of_readsOff happ hv hans ha).1 hcons true settled_eitherWay
  false reads_eitherWay)

end L4Ide.PartialEvalConsistent
