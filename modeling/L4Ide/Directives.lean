import L4Ide.Machine

set_option autoImplicit false

/-!
# Directives

A directive's expression is evaluated and its answer is read to normal form, one reference after
another. What an evaluation went through is kept beside what it came to; it came to nothing when
the steps it may take run out.
-/
namespace L4Ide.Directives
open Syntax Environment ValueLazy Machine

structure Ran (R H A:Type) where
 entered : List (Config R)
 result : Option (Except (EvalException R) A × EvalState R H)

def Action (R H A:Type) := EvalState R H → Ran R H A

namespace Action
variable {R H A B:Type}

def pure (a:A) : Action R H A := fun s=>⟨[],some (.ok a,s)⟩

def bind (x:Action R H A) (f:A → Action R H B) : Action R H B := fun s=>
 match (x s).result with
 | none=>⟨(x s).entered,none⟩
 | some (.error e,s')=>⟨(x s).entered,some (.error e,s')⟩
 | some (.ok a,s')=>⟨(x s).entered ++ (f a s').entered,(f a s').result⟩

instance : Monad (Action R H) where
 pure:=pure
 bind:=bind

def traverse (f:A → Action R H B) : List A → Action R H (List B)
 | []=>pure []
 | a::as=>bind (f a) fun b=>bind (traverse f as) fun bs=>pure (b::bs)

def tryEval (x:Action R H A) : Action R H (Except (EvalException R) A) := fun s=>
 ⟨(x s).entered,(x s).result.map fun r=>(.ok r.1,r.2)⟩

end Action

section Parts
variable {R:Type}

mutual

/-- The references of a value, in order; those of environments are not among them. -/
def refs : Value R → List R
 | .valCons r1 r2=>[r1,r2]
 | .valObligation _ party _ due _ _=>refsOfParty party ++ refsOfDue due
 | .valROp _ _ l r=>refsOfParty l ++ refsOfParty r
 | .valPartialTernary _ r1=>[r1]
 | .valPartialTernary2 _ r1 r2=>[r1,r2]
 | .valConstructor _ rs=>rs
 | .valBreached (.deadlineMissed evParty evAct _ party _ _)=>[evParty,evAct,party]
 | .valBreached (.explicitBreach party reason)=>party.toList ++ reason.toList
 | _=>[]

def refsOfParty : RExpr ⊕ Value R → List R
 | .inl _=>[]
 | .inr val=>refs val

def refsOfDue : Option RExpr ⊕ Value R → List R
 | .inl _=>[]
 | .inr val=>refs val

end

/-- A value and what its references were read as, or what is below the depth of reading. -/
inductive NF (R:Type) where
 | mkNF (val:Value R) (parts:List (NF R))
 | omitted

mutual

def reachesOmitted : NF R → Bool
 | .omitted=>true
 | .mkNF _ parts=>anyReachesOmitted parts

def anyReachesOmitted : List (NF R) → Bool
 | []=>false
 | v::vs=>reachesOmitted v || anyReachesOmitted vs

end

end Parts

inductive AssertKind where
 | notAnAssert
 | assertHolds
 | assertRefuses (wanted:Option String)

structure EvalDirective (R:Type) where
 assertKind : AssertKind
 expr : RExpr
 env : Env R

inductive AssertionOutcome (R:Type) where
 | holds
 | fails
 | failsBecause (reason:String)
 | refused (r:Refusal)
 | errored (e:EvalException R)

inductive ReductionOutcome (R:Type) where
 | reduced (v:NF R)
 | reducedRefused (r:Refusal)
 | reducedErrored (e:EvalException R)

inductive EvalDirectiveValue (R:Type) where
 | assertion (outcome:AssertionOutcome R)
 | reduction (outcome:ReductionOutcome R)

def maximumStackSize : ℕ := 200

section Evaluation
variable {R H:Type} (rt:Runtime R H)

/-- Step by step, for at most so many steps. -/
def runConfig : ℕ → Config R → Action R H (Value R)
 | 0, _=>fun _=>⟨[],none⟩
 | _+1, .doneMachine whnf=>Action.pure whnf
 | steps+1, c=>fun s=>
  match step rt c s with
  | .ok c' s' =>
   ⟨c::(runConfig steps c' s').entered,(runConfig steps c' s').result⟩
  | .error e s' =>⟨[c],some (.error e,s')⟩

def nfAux (steps:ℕ) : ℕ → Value R → Action R H (NF R)
 | 0, _=>pure .omitted
 | depth+1, val=>do
  let parts ← Action.traverse (fun r=>do
   let w ← runConfig rt steps (.evalRefMachine r)
   nfAux steps depth w) (refs val)
  pure (.mkNF val parts)

def nf (steps:ℕ) (whnf:Value R) : Action R H (NF R) :=
 nfAux rt steps (maximumStackSize+1) whnf

def nfAnswer (answerInJust:Bool) (steps:ℕ) (whnf:Value R) : Action R H (NF R) :=
 match whnf with
 | .valConstructor con [r]=>
  if answerInJust && con.getUnique=justUnique then do
   let inner ← runConfig rt steps (.evalRefMachine r)
   let v ← nf rt steps inner
   pure (.mkNF (.valConstructor con [r]) [v])
  else nf rt steps whnf
 | _=>nf rt steps whnf

def evaluate (answerInJust:Bool) (steps:ℕ) (d:EvalDirective R) : Action R H (NF R) := do
 let whnf ← runConfig rt steps (.forwardMachine d.env d.expr)
 nfAnswer rt answerInJust steps whnf

def quoted (t:String) : String := "\"" ++ t ++ "\""

/-- What a refusal is to `#ASSERT REFUSED`. -/
def refusalVerdict (wanted:Option String) (ref:Refusal) : AssertionOutcome R :=
 match wanted with
 | none=>.holds
 | some text=>
  if text ≠ ref.message then
   .failsBecause ("expected the refusal " ++ quoted text ++ ", got " ++ quoted ref.message)
  else .holds

def outcome (kind:AssertKind) (v:Except (EvalException R) (NF R)) : EvalDirectiveValue R :=
 match kind with
 | .notAnAssert=>
  .reduction <| match v with
   | .error (.refusalException ref)=>.reducedRefused ref
   | .error exc=>.reducedErrored exc
   | .ok nfv=>.reduced nfv
 | .assertHolds=>
  .assertion <| match v with
   | .error (.refusalException ref)=>.refused ref
   | .error exc=>.errored exc
   | .ok (.mkNF (.valAssumed a) _)=>.errored (.userEvalException (.stuck a))
   | .ok (.mkNF val _)=>if boolView val=some true then .holds else .fails
   | .ok .omitted=>.fails
 | .assertRefuses wanted=>
  .assertion <| match v with
   | .error (.refusalException ref)=>refusalVerdict wanted ref
   | .error exc=>.errored exc
   | .ok (.mkNF (.valAssumed a) _)=>.errored (.userEvalException (.stuck a))
   | .ok nfv=>
    if reachesOmitted nfv then .errored (.userEvalException .valueTooDeep)
    else .failsBecause "expected a refusal, but the expression produced a value"

def nfDirective (answerInJust:Bool) (steps:ℕ) (d:EvalDirective R) :
  Action R H (EvalDirectiveValue R) := do
 let v ← (evaluate rt answerInJust steps d).tryEval
 pure (outcome d.assertKind v)

end Evaluation

end L4Ide.Directives
