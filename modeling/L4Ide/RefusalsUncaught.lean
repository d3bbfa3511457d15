import L4Ide.CallByName
import L4Ide.Directives

set_option autoImplicit false

/-!
# Refusals are not caught

Raising unwinds the stack without asking any frame, and nothing that runs a part of a directive
goes on after an exception: once a REFUSE is reduced it is the last thing the evaluation enters.
-/
namespace L4Ide.Directives
open Syntax Environment ValueLazy Machine

section Machine
variable {R H:Type} (rt:Runtime R H)

/-- The machine is about to reduce a REFUSE with this reason. -/
def Reduces (txt:String) (c:Config R) : Prop :=
 ∃ env, c = .forwardMachine env (.refuse (.lit (.stringLit txt)))

theorem step_refuse {txt:String} {c:Config R} (h:Reduces txt c) (s:EvalState R H) :
  step rt c s = .error (.refusalException ⟨txt⟩) ⟨unwindStack rt s.stack s.heap,[]⟩ := by
 obtain ⟨env,rfl⟩:=h
 rfl

end Machine

section Uncaught
variable {R H A B:Type}

def Uncaught (x:Action R H A) : Prop :=
 ∀ s, ∀ c ∈ (x s).entered, ∀ txt, Reduces txt c →
  (∃ front, (x s).entered=front ++ [c]) ∧
  ∃ s', (x s).result=some (.error (.refusalException ⟨txt⟩),s') ∧ s'.stack=[]

theorem uncaught_pure (a:A) : Uncaught (Action.pure a : Action R H A) := by
 intro s c hc
 cases hc

theorem uncaught_bind {x:Action R H A} {f:A → Action R H B} (hx:Uncaught x)
  (hf:∀ a, Uncaught (f a)) : Uncaught (Action.bind x f) := by
 intro s c hc txt htxt
 unfold Action.bind at hc ⊢
 cases hresult:(x s).result with
 | none=>
  rw [hresult] at hc
  obtain ⟨-,s', hraised,-⟩:=hx s c hc txt htxt
  cases hresult.symm.trans hraised
 | some r=>
  obtain ⟨r,s1⟩:=r
  rw [hresult] at hc
  cases r with
  | error e=>
   obtain ⟨hlast,s', hraised,hstack⟩:=hx s c hc txt htxt
   obtain ⟨he,rfl⟩:=Prod.mk.inj (Option.some.inj (hresult.symm.trans hraised))
   obtain rfl:=Except.error.inj he
   exact ⟨hlast,s1,rfl,hstack⟩
  | ok a=>
   rcases List.mem_append.1 hc with hc | hc
   · obtain ⟨-,s', hraised,-⟩:=hx s c hc txt htxt
     have hr:=(Prod.mk.inj (Option.some.inj (hresult.symm.trans hraised))).1
     cases hr
   · obtain ⟨⟨front,hfront⟩,hraised⟩:=hf a s1 c hc txt htxt
     exact ⟨⟨(x s).entered ++ front,by dsimp only; rw [hfront,List.append_assoc]⟩,hraised⟩

theorem uncaught_traverse {f:A → Action R H B} (hf:∀ a, Uncaught (f a)) (l:List A) :
  Uncaught (Action.traverse f l) := by
 induction l with
 | nil=>exact uncaught_pure []
 | cons a l ih=>
  exact uncaught_bind (hf a) fun b=>uncaught_bind ih fun bs=>uncaught_pure (b::bs)

section Evaluation
variable (rt:Runtime R H)

def afterStep (rest:Config R → Action R H (Value R)) (c:Config R) :
  EStateM.Result (EvalException R) (EvalState R H) (Config R) → Ran R H (Value R)
 | .ok c' s' =>⟨c::(rest c' s').entered,(rest c' s').result⟩
 | .error e s' =>⟨[c],some (.error e,s')⟩

theorem uncaught_runConfig (steps:ℕ) (c:Config R) : Uncaught (runConfig rt steps c) := by
 induction steps generalizing c with
 | zero=>
  intro s c' hc'
  cases hc'
 | succ steps ih=>
  have hstep:Uncaught (fun s=>afterStep (runConfig rt steps) c (step rt c s)):=by
   intro s c' hc' txt htxt
   dsimp only at hc' ⊢
   cases hresult:step rt c s with
   | ok c1 s1=>
    rw [hresult] at hc'
    rcases List.mem_cons.1 hc' with rfl | hc'
    · cases (step_refuse rt htxt s).symm.trans hresult
    · obtain ⟨⟨front,hfront⟩,hraised⟩:=ih c1 s1 c' hc' txt htxt
      exact ⟨⟨c::front,by rw [afterStep,hfront,List.cons_append]⟩,hraised⟩
   | error e s1=>
    rw [hresult] at hc'
    obtain rfl:=List.mem_singleton.1 hc'
    obtain ⟨rfl,rfl⟩:=EStateM.Result.error.inj ((step_refuse rt htxt s).symm.trans hresult)
    exact ⟨⟨[],rfl⟩,_,rfl,rfl⟩
  cases c with
  | doneMachine val=>exact uncaught_pure val
  | forwardMachine env e=>exact hstep
  | matchBranchesMachine clauses r env branches=>exact hstep
  | matchPatternMachine r env p=>exact hstep
  | backwardMachine val=>exact hstep
  | evalRefMachine r=>exact hstep

theorem uncaught_nfAux (steps depth:ℕ) (val:Value R) :
  Uncaught (nfAux rt steps depth val) := by
 induction depth generalizing val with
 | zero=>exact uncaught_pure NF.omitted
 | succ depth ih=>
  refine uncaught_bind (uncaught_traverse (fun r=>?_) (refs val)) fun parts=>uncaught_pure _
  exact uncaught_bind (uncaught_runConfig rt steps _) ih

theorem uncaught_nfAnswer (answerInJust:Bool) (steps:ℕ) (whnf:Value R) :
  Uncaught (nfAnswer rt answerInJust steps whnf) := by
 have hnf:=uncaught_nfAux rt steps (maximumStackSize+1)
 unfold nfAnswer
 split
 · split
   · exact uncaught_bind (uncaught_runConfig rt steps _) fun inner=>
      uncaught_bind (hnf inner) fun v=>uncaught_pure _
   · exact hnf _
 · exact hnf _

theorem uncaught_evaluate (answerInJust:Bool) (steps:ℕ) (d:EvalDirective R) :
  Uncaught (evaluate rt answerInJust steps d) :=
 uncaught_bind (uncaught_runConfig rt steps _) (uncaught_nfAnswer rt answerInJust steps)

/-- The outcome of a directive in which something refuses. -/
def refusedOutcome (kind:AssertKind) (r:Refusal) : EvalDirectiveValue R :=
 match kind with
 | .notAnAssert=>.reduction (.reducedRefused r)
 | .assertHolds=>.assertion (.refused r)
 | .assertRefuses wanted=>.assertion (refusalVerdict wanted r)

theorem outcome_refusal (kind:AssertKind) (r:Refusal) :
  outcome kind (.error (.refusalException r))=(refusedOutcome kind r:EvalDirectiveValue R) := by
 cases kind <;> rfl

/-- Once a REFUSE is reduced inside a directive, nothing else is entered, no frame is left and the
    outcome is what the refusal with this reason is to the directive. -/
theorem refusal_uncaught (answerInJust:Bool) (steps:ℕ) (d:EvalDirective R)
  (s:EvalState R H) (c:Config R) (hc:c ∈ (nfDirective rt answerInJust steps d s).entered)
  (txt:String) (htxt:Reduces txt c) :
  (∃ front, (nfDirective rt answerInJust steps d s).entered=front ++ [c]) ∧
  ∃ s', (nfDirective rt answerInJust steps d s).result =
   some (.ok (refusedOutcome d.assertKind ⟨txt⟩),s') ∧ s'.stack=[] := by
 have hran:nfDirective rt answerInJust steps d s =
   ⟨(evaluate rt answerInJust steps d s).entered,
    (evaluate rt answerInJust steps d s).result.map fun r=>
     (.ok (outcome d.assertKind r.1),r.2)⟩ := by
  change Action.bind (evaluate rt answerInJust steps d).tryEval
   (fun v=>Action.pure (outcome d.assertKind v)) s=_
  unfold Action.bind Action.tryEval
  cases (evaluate rt answerInJust steps d s).result with
  | none=>rfl
  | some r=>simp [Action.pure]
 rw [hran] at hc ⊢
 obtain ⟨hlast,s', hraised,hstack⟩:=
  uncaught_evaluate rt answerInJust steps d s c hc txt htxt
 refine ⟨hlast,s', ?_,hstack⟩
 dsimp only
 rw [hraised,Option.map_some,outcome_refusal]

end Evaluation

end Uncaught

section Example
open CallByName

/-- One more than a number that is refused: a frame waits for the number. -/
def oneMore (kind:AssertKind) : EvalDirective Closure :=
 ⟨kind,.plus (.refuse (.lit (.stringLit "no rate is known"))) (.lit (.numericLit 1)),[]⟩

theorem oneMore_entered (kind:AssertKind) :
  .forwardMachine [] (.refuse (.lit (.stringLit "no rate is known"))) ∈
   (nfDirective (runtime default default) false 2 (oneMore kind) ⟨(),[]⟩).entered :=
 List.mem_cons_of_mem _ List.mem_cons_self

theorem refusal_uncaught_oneMore :
  ∃ s', (nfDirective (runtime default default) false 2 (oneMore .assertHolds) ⟨(),[]⟩).result =
   some (.ok (.assertion (.refused ⟨"no rate is known"⟩)),s') ∧ s'.stack=[] :=
 (refusal_uncaught (runtime default default) false 2 (oneMore .assertHolds) ⟨(),[]⟩ _
  (oneMore_entered .assertHolds) "no rate is known" ⟨[],rfl⟩).2

/-- A directive that expects a refusal is satisfied by it. -/
theorem assertRefused_holds :
  ¬∀ (d:EvalDirective Closure) (c:Config Closure) (txt:String),
   c ∈ (nfDirective (runtime default default) false 2 d ⟨(),[]⟩).entered → Reduces txt c →
   ∃ s', (nfDirective (runtime default default) false 2 d ⟨(),[]⟩).result =
     some (.ok (.reduction (.reducedRefused ⟨txt⟩)),s') ∨
    (nfDirective (runtime default default) false 2 d ⟨(),[]⟩).result =
     some (.ok (.assertion (.refused ⟨txt⟩)),s') := by
 intro h
 obtain ⟨s', hs' | hs'⟩:=h (oneMore (.assertRefuses none)) _ "no rate is known"
  (oneMore_entered _) ⟨[],rfl⟩
 · cases hs'
 · cases hs'

end Example

end L4Ide.Directives
