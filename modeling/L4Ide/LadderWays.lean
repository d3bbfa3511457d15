import L4Ide.VizExprToLir
import L4Ide.PartialEvalConsistent
import L4Ide.FuelledComputation

set_option autoImplicit false

/-!
# The ways through a ladder

A way chooses one argument of every disjunction met and all arguments of every conjunction. A
ladder in negation normal form is true just where all leaves of one of its ways are, whether it is
read as a formula or evaluated as the drawing evaluates it.
-/
namespace L4Ide.LadderWays
open Syntax (InertContext)
open Ladder VizExprToLir PartialEval PartialEvalConsistent FuelledComputation

/-- Negations stand at variables only, and no connective is without arguments. -/
inductive Nnf : IRExpr → Prop
 | uBoolVar (id:ID) (name:VName) : Nnf (.uBoolVar id name)
 | negated (id id' : ID) (name:VName) : Nnf (.not_ id (.uBoolVar id' name))
 | trueE (id:ID) (name:VName) : Nnf (.trueE id name)
 | falseE (id:ID) (name:VName) : Nnf (.falseE id name)
 | inertE (id:ID) (txt:String) (ctx:InertContext) : Nnf (.inertE id txt ctx)
 | app (id:ID) (fnName:VName) (args:List IRExpr) : Nnf (.app id fnName args)
 | and_ (id:ID) {args:List IRExpr} : args ≠ [] → (∀ e ∈ args, Nnf e) → Nnf (.and_ id args)
 | or_ (id:ID) {args:List IRExpr} : args ≠ [] → (∀ e ∈ args, Nnf e) → Nnf (.or_ id args)

inductive Way where
 | leaf (e:IRExpr)
 | all (ways:List Way)
 | one (i:ℕ) (way:Way)

def isLeaf : IRExpr → Bool
 | .and_ _ _=>false
 | .or_ _ _=>false
 | _=>true

/-- All arguments of a conjunction, one of a disjunction, and a leaf as it is. -/
inductive IsWay : IRExpr → Way → Prop
 | leaf {e:IRExpr} : isLeaf e=true → IsWay e (.leaf e)
 | all {id:ID} {args:List IRExpr} {ways:List Way} :
   List.Forall₂ IsWay args ways → IsWay (.and_ id args) (.all ways)
 | one {id:ID} {args:List IRExpr} {i:ℕ} {e:IRExpr} {way:Way} :
   args[i]? = some e → IsWay e way → IsWay (.or_ id args) (.one i way)

mutual

/-- The leaves chosen, in order. -/
def Way.leaves : Way → List IRExpr
 | .leaf e=>[e]
 | .all ways=>leavesAll ways
 | .one _ way=>way.leaves

def leavesAll : List Way → List IRExpr
 | []=>[]
 | way::ways=>way.leaves ++ leavesAll ways

end

theorem leavesAll_append (ws vs:List Way) : leavesAll (ws ++ vs)=leavesAll ws ++ leavesAll vs := by
 induction ws with
 | nil=>rfl
 | cons w ws ih=>rw [List.cons_append,leavesAll,leavesAll,ih,List.append_assoc]

def varParts : IRExpr → Option (ID × VName)
 | .uBoolVar id name=>some (id,name)
 | _=>none

/-- What a leaf of a ladder looks like in a drawing. -/
def leafOf : IRExpr → Option Leaf
 | .uBoolVar id name=>some ⟨false,.uBoolVar id name⟩
 | .not_ _ (.uBoolVar id name)=>some ⟨true,.uBoolVar id name⟩
 | .trueE _ name=>some ⟨false,.trueExpr name⟩
 | .falseE _ name=>some ⟨false,.falseExpr name⟩
 | .inertE _ txt ctx=>some ⟨false,.inertExpr txt ctx⟩
 | .app _ fnName args=>some ⟨false,.app fnName (args.filterMap varParts)⟩
 | _=>none

variable {e:IRExpr} {w:Way} {v:UBoolVal} {bools:List (Option UBoolVal)}
 {evalApp:ID → List UBoolVal → EvalAppReply}

theorem leafOf_holds (h:Nnf e) (hleaf:isLeaf e=true) (σ:ℤ → Bool) :
  ∃ leaf, leafOf e=some leaf ∧ leaf.holds σ=truth σ e := by
 cases h with
 | uBoolVar id name=>exact ⟨_,rfl,Bool.false_bne _⟩
 | negated id id' name=>exact ⟨_,rfl,Bool.true_bne _⟩
 | trueE id name=>exact ⟨_,rfl,rfl⟩
 | falseE id name=>exact ⟨_,rfl,rfl⟩
 | inertE id txt ctx=>
  cases ctx with
  | inertCtxAnd=>exact ⟨_,rfl,rfl⟩
  | inertCtxOr=>exact ⟨_,rfl,rfl⟩
  | inertCtxNone=>exact ⟨_,rfl,rfl⟩
 | app id fnName args=>exact ⟨_,rfl,Bool.false_bne _⟩
 | and_ id hne hargs=>exact absurd hleaf Bool.false_ne_true
 | or_ id hne hargs=>exact absurd hleaf Bool.false_ne_true

theorem mem_leavesAll {ws:List Way} {x:IRExpr} :
  x ∈ leavesAll ws ↔ ∃ w ∈ ws, x ∈ w.leaves := by
 induction ws with
 | nil=>simp [leavesAll]
 | cons w ws ih=>simp [leavesAll,ih]

theorem isWay_leaf (hleaf:isLeaf e=true) : IsWay e w ↔ w = .leaf e := by
 constructor
 · intro h
   cases h with
   | leaf _=>rfl
   | all _=>exact absurd hleaf Bool.false_ne_true
   | one _ _=>exact absurd hleaf Bool.false_ne_true
 · rintro rfl
   exact .leaf hleaf

theorem leaf_leaves (h:Nnf e) (hleaf:isLeaf e=true) (hw:IsWay e w) :
  ∀ x ∈ w.leaves, Nnf x ∧ isLeaf x=true := by
 rw [(isWay_leaf hleaf).1 hw]
 intro x hx
 rw [List.mem_singleton.1 hx]
 exact ⟨h,hleaf⟩

theorem leaves_nnf (h:Nnf e) (hw:IsWay e w) :
  ∀ x ∈ w.leaves, Nnf x ∧ isLeaf x=true := by
 induction h generalizing w with
 | uBoolVar id name=>exact leaf_leaves (.uBoolVar id name) rfl hw
 | negated id id' name=>exact leaf_leaves (.negated id id' name) rfl hw
 | trueE id name=>exact leaf_leaves (.trueE id name) rfl hw
 | falseE id name=>exact leaf_leaves (.falseE id name) rfl hw
 | inertE id txt ctx=>exact leaf_leaves (.inertE id txt ctx) rfl hw
 | app id fnName args=>exact leaf_leaves (.app id fnName args) rfl hw
 | and_ id hne hargs ih=>
  cases hw with
  | leaf hleaf=>exact absurd hleaf Bool.false_ne_true
  | all hws=>
   intro x hx
   obtain ⟨w,hw,hx⟩:=mem_leavesAll.1 hx
   obtain ⟨e,he,hew⟩:=forall₂_mem_right hws hw
   exact ih e he hew x hx
 | or_ id hne hargs ih=>
  cases hw with
  | leaf hleaf=>exact absurd hleaf Bool.false_ne_true
  | one hi hw=>
   intro x hx
   exact ih _ (List.mem_of_getElem? hi) hw x hx

theorem truth_iff_leaf (hleaf:isLeaf e=true) (σ:ℤ → Bool) :
  truth σ e=true ↔ ∃ w, IsWay e w ∧ ∀ x ∈ w.leaves, truth σ x=true := by
 simp only [isWay_leaf hleaf,exists_eq_left]
 rw [Way.leaves,List.forall_mem_singleton]

theorem truth_iff_way (h:Nnf e) (σ:ℤ → Bool) :
  truth σ e=true ↔ ∃ w, IsWay e w ∧ ∀ x ∈ w.leaves, truth σ x=true := by
 induction h with
 | uBoolVar id name=>exact truth_iff_leaf rfl σ
 | negated id id' name=>exact truth_iff_leaf rfl σ
 | trueE id name=>exact truth_iff_leaf rfl σ
 | falseE id name=>exact truth_iff_leaf rfl σ
 | inertE id txt ctx=>exact truth_iff_leaf rfl σ
 | app id fnName args=>exact truth_iff_leaf rfl σ
 | @and_ id args hne hargs ih=>
  rw [truth_and,List.all_eq_true]
  constructor
  · intro htrue
    obtain ⟨ws,hws⟩:=exists_forall₂ fun e he=>(ih e he).1 (htrue e he)
    refine ⟨.all ws,.all (hws.imp fun _ _ h=>h.1),fun x hx=>?_⟩
    obtain ⟨w,hw,hx⟩:=mem_leavesAll.1 hx
    obtain ⟨e,_,_,hall⟩:=forall₂_mem_right hws hw
    exact hall x hx
  · rintro ⟨w,hw,hall⟩ e he
    cases hw with
    | leaf hleaf=>exact absurd hleaf Bool.false_ne_true
    | all hws=>
     obtain ⟨w,hw,hew⟩:=forall₂_mem_left hws he
     exact (ih e he).2 ⟨w,hew,fun x hx=>hall x (mem_leavesAll.2 ⟨w,hw,hx⟩)⟩
 | @or_ id args hne hargs ih=>
  rw [truth_or,List.any_eq_true]
  constructor
  · rintro ⟨e,he,htrue⟩
    obtain ⟨i,hi⟩:=List.mem_iff_getElem?.1 he
    obtain ⟨w,hw,hall⟩:=(ih e he).1 htrue
    exact ⟨.one i w,.one hi hw,hall⟩
  · rintro ⟨w,hw,hall⟩
    cases hw with
    | leaf hleaf=>exact absurd hleaf Bool.false_ne_true
    | @one _ _ i e w hi hw=>
     have he:=List.mem_of_getElem? hi
     exact ⟨e,he,(ih e he).2 ⟨w,hw,hall⟩⟩

theorem someVal_spec {b:Bool} (h:someVal v bools=some b) :
  if b then some v ∈ bools else ∀ x ∈ bools, ∃ w, x=some w ∧ w ≠ v := by
 induction bools with
 | nil=>
  rw [←Option.some.inj h]
  exact fun x hx=>absurd hx List.not_mem_nil
 | cons x bools ih=>
  cases x with
  | none=>exact absurd h (Option.some_ne_none b).symm
  | some w=>
   rw [someVal] at h
   by_cases hw:w=v
   · rw [if_pos hw] at h
     rw [←Option.some.inj h,hw]
     exact List.mem_cons_self
   · rw [if_neg hw] at h
     have hrest:=ih h
     cases b with
     | true=>exact List.mem_cons_of_mem _ hrest
     | false=>
      intro y hy
      rcases List.mem_cons.1 hy with rfl | hy
      · exact ⟨w,rfl,hw⟩
      · exact hrest y hy

theorem evalAndChain_spec (h:evalAndChain bools=some v) :
  (v = .trueV ∧ ∀ x ∈ bools, x=some .trueV) ∨
   (v ≠ .trueV ∧ ∃ w, w ≠ .trueV ∧ some w ∈ bools) := by
 obtain ⟨b,hb,h⟩:=Option.bind_eq_some_iff.1 h
 have hspec:=someVal_spec hb
 cases b with
 | true=>
  obtain rfl:=Option.some.inj h
  exact Or.inr ⟨by decide,.falseV,by decide,hspec⟩
 | false=>
  by_cases hall:∀ x ∈ bools, x=some .trueV
  · have hval:bools.all (fun x=>x=some .trueV)=true:=
     List.all_eq_true.2 fun x hx=>decide_eq_true (hall x hx)
    simp only [Bool.false_eq_true,if_false,hval,if_true] at h
    exact Or.inl ⟨(Option.some.inj h).symm,hall⟩
  · have hval:bools.all (fun x=>x=some .trueV) ≠ true:=fun hc=>
     hall fun x hx=>of_decide_eq_true (List.all_eq_true.1 hc x hx)
    simp only [Bool.false_eq_true,if_false,hval] at h
    obtain rfl:=Option.some.inj h
    push Not at hall
    obtain ⟨x,hx,hne⟩:=hall
    obtain ⟨w,rfl,_⟩:=hspec x hx
    exact Or.inr ⟨by decide,w,fun hw=>hne (by rw [hw]),hx⟩

theorem evalOrChain_spec (h:evalOrChain bools=some v) :
  (v = .trueV ∧ some .trueV ∈ bools) ∨
   (v ≠ .trueV ∧ ∀ x ∈ bools, ∃ w, x=some w ∧ w ≠ .trueV) := by
 obtain ⟨b,hb,h⟩:=Option.bind_eq_some_iff.1 h
 have hspec:=someVal_spec hb
 cases b with
 | true=>exact Or.inl ⟨(Option.some.inj h).symm,hspec⟩
 | false=>
  refine Or.inr ⟨?_,hspec⟩
  rw [←Option.some.inj h]
  split_ifs <;> decide

theorem evalEach_eq {assignment:Assignment} {args:List IRExpr}
  (h:evalEach evalApp assignment args=some bools) :
  List.Forall₂ (fun e b=>eval_ evalApp assignment e=some b) args bools := by
 induction args generalizing bools with
 | nil=>
  rw [evalEach,Option.some.injEq] at h
  exact h ▸ .nil
 | cons e args ih=>
  simp only [evalEach,Option.bind_eq_bind,Option.bind_eq_some_iff] at h
  obtain ⟨b,hb,bs,hbs,heq⟩:=h
  obtain rfl:=Option.some.inj heq
  exact .cons hb (ih hbs)

theorem eval_iff_leaf {assignment:Assignment} (hleaf:isLeaf e=true)
  (h:eval_ evalApp assignment e=some (some v)) :
  v = .trueV ↔ ∃ w, IsWay e w ∧
   ∀ x ∈ w.leaves, eval_ evalApp assignment x=some (some .trueV) := by
 simp only [isWay_leaf hleaf,exists_eq_left]
 rw [Way.leaves,List.forall_mem_singleton,h,Option.some.injEq,Option.some.injEq]

/-- Where the evaluation of a ladder ends with a value, the value is true just where all leaves of
one of its ways are evaluated to true. -/
theorem eval_iff_way {assignment:Assignment}
  (h:Nnf e) (hv:eval_ evalApp assignment e=some (some v)) :
  v = .trueV ↔ ∃ w, IsWay e w ∧
   ∀ x ∈ w.leaves, eval_ evalApp assignment x=some (some .trueV) := by
 induction h generalizing v with
 | uBoolVar id name=>exact eval_iff_leaf rfl hv
 | negated id id' name=>exact eval_iff_leaf rfl hv
 | trueE id name=>exact eval_iff_leaf rfl hv
 | falseE id name=>exact eval_iff_leaf rfl hv
 | inertE id txt ctx=>exact eval_iff_leaf rfl hv
 | app id fnName args=>exact eval_iff_leaf rfl hv
 | @and_ id args hne hargs ih=>
  simp only [eval_,Option.bind_eq_bind,Option.bind_eq_some_iff] at hv
  obtain ⟨bools,hbools,u,hu,heq⟩:=hv
  obtain rfl:=Option.some.inj (Option.some.inj heq)
  have heach:=evalEach_eq hbools
  constructor
  · intro htrue
    have hall:=((evalAndChain_spec hu).resolve_right fun hno=>hno.1 htrue).2
    have hway:∀ e ∈ args, ∃ w, IsWay e w ∧
      ∀ x ∈ w.leaves, eval_ evalApp assignment x=some (some .trueV) := by
     intro e he
     obtain ⟨b,hb,heb⟩:=forall₂_mem_left heach he
     rw [hall b hb] at heb
     exact (ih e he heb).1 rfl
    obtain ⟨ws,hws⟩:=exists_forall₂ hway
    refine ⟨.all ws,.all (hws.imp fun _ _ h=>h.1),fun x hx=>?_⟩
    obtain ⟨w,hw,hx⟩:=mem_leavesAll.1 hx
    obtain ⟨e,_,_,hall⟩:=forall₂_mem_right hws hw
    exact hall x hx
  · rintro ⟨w,hw,hall⟩
    cases hw with
    | leaf hleaf=>exact absurd hleaf Bool.false_ne_true
    | all hws=>
     rcases evalAndChain_spec hu with hyes | ⟨_,w,hne,hw⟩
     · exact hyes.1
     · obtain ⟨e,he,hew⟩:=forall₂_mem_right heach hw
       obtain ⟨w', hw', hway⟩:=forall₂_mem_left hws he
       refine absurd ((ih e he hew).2 ⟨w', hway,fun x hx=>?_⟩) hne
       exact hall x (mem_leavesAll.2 ⟨w', hw', hx⟩)
 | @or_ id args hne hargs ih=>
  simp only [eval_,Option.bind_eq_bind,Option.bind_eq_some_iff] at hv
  obtain ⟨bools,hbools,u,hu,heq⟩:=hv
  obtain rfl:=Option.some.inj (Option.some.inj heq)
  have heach:=evalEach_eq hbools
  constructor
  · intro htrue
    have hmem:=((evalOrChain_spec hu).resolve_right fun hno=>hno.1 htrue).2
    obtain ⟨e,he,heb⟩:=forall₂_mem_right heach hmem
    obtain ⟨i,hi⟩:=List.mem_iff_getElem?.1 he
    obtain ⟨w,hw,hall⟩:=(ih e he heb).1 rfl
    exact ⟨.one i w,.one hi hw,hall⟩
  · rintro ⟨w,hw,hall⟩
    cases hw with
    | leaf hleaf=>exact absurd hleaf Bool.false_ne_true
    | @one _ _ i e w hi hw=>
     have he:=List.mem_of_getElem? hi
     rcases evalOrChain_spec hu with hyes | ⟨_,hno⟩
     · exact hyes.1
     · obtain ⟨b,hb,heb⟩:=forall₂_mem_left heach he
       obtain ⟨u', rfl,hne⟩:=hno b hb
       exact absurd ((ih e he heb).2 ⟨w,hw,hall⟩) hne

end L4Ide.LadderWays
