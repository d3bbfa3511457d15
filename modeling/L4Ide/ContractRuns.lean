import L4Ide.MachineLocality
import L4Ide.CallByName
import L4Ide.DeterministicRuns

set_option autoImplicit false

/-!
# Runs of a contract

What the frames of an obligation do with one event, and what a contract does with a list of
events, as relations between values; the machine applied to a contract computes them.
-/
namespace L4Ide.ContractRuns
open Syntax Environment ValueLazy Machine MachineLogic MachineLocality CallByName StateTransition
open DeterministicRuns

instance unlimited_runtime (host:Host) (printer:Printer) :
  Unlimited (runtime host printer) := ⟨rfl⟩

variable (host:Host) (printer:Printer)

/-- The configuration returns the value. -/
def Evaluates (c:Config Closure) (v:Value Closure) : Prop :=
 Returns (runtime host printer) c () v ()

def Mismatches (r:Closure) (env:Env Closure) (p:Pattern Resolved) : Prop :=
 Fails (runtime host printer) (.matchPatternMachine r env p) () ()

/-- An expression that may have been evaluated has the value. -/
def HasValue (env:Env Closure) : MaybeEvaluated Closure → Value Closure → Prop
 | .inl e, v=>Evaluates host printer (.forwardMachine env e) v
 | .inr w, v=>w=v

def Compares (v1 v2:Value Closure) (b:Bool) : Prop :=
 ∃ c k v, runBinOpEquals (runtime host printer) v1 v2 ⟨(),[]⟩ = .ok c ⟨(),k⟩ ∧
  Reaches (next (runtime host printer)) (c,⟨(),k⟩) (.backwardMachine v,⟨(),[]⟩) ∧
  boolView v=some b

structure Obligation where
 env : Env Closure
 party : MaybeEvaluated Closure
 act : RAction Resolved
 due : MaybeEvaluated' (Option RExpr) Closure
 followup : RExpr
 lest : Option RExpr

def Obligation.toValue (o:Obligation) : Value Closure :=
 .valObligation o.env o.party o.act o.due o.followup o.lest

/-- The time within which the obligation is due. -/
def IsDue (o:Obligation) (d:ℚ) : Prop :=
 match o.due with
 | .inl none=>False
 | .inl (some e)=>Evaluates host printer (.forwardMachine o.env e) (.valNumber d)
 | .inr v=>v = .valNumber d

inductive Outcome where
 | stays (party:Value Closure) (due:MaybeEvaluated' (Option RExpr) Closure)
 | moves (env:Env Closure) (e:RExpr)
 | breaches (reason:ReasonForBreach Closure)

def partyClosure (env:Env Closure) : MaybeEvaluated Closure → Option Closure
 | .inl (.app n [] _)=>lookupTerm env n
 | .inl e=>some (.suspended e env)
 | .inr v=>some (.whnf v)

def lateOutcome (o:Obligation) (evParty evAct:Closure) (stamp deadline:ℚ) : Option Outcome :=
 match o.act.modal with
 | .dMustNot | .dMay=>some (.moves o.env o.followup)
 | .dMust | .dDo=>
  match o.lest with
  | some lestFollowup=>some (.moves o.env lestFollowup)
  | none=>(partyClosure o.env o.party).map fun party=>
    .breaches (.deadlineMissed evParty evAct stamp party o.act deadline)

def performedOutcome (o:Obligation) (party evParty:Value Closure) (evAct:Closure)
  (stampVal:Value Closure) (henceEnv:Env Closure) : Option Outcome :=
 match o.act.modal with
 | .dMust | .dMay | .dDo=>some (.moves (o.env ++ henceEnv) o.followup)
 | .dMustNot=>
  match o.lest, stampVal with
  | some lestFollowup, _=>some (.moves (o.env ++ henceEnv) lestFollowup)
  | none, .valNumber stamp=>
   some (.breaches (.deadlineMissed (.whnf evParty) evAct stamp (.whnf party) o.act stamp))
  | none, _=>none

structure EventRead where
 evParty : Closure
 evAct : Closure
 stampVal : Value Closure
 timeVal : Value Closure

def Reads (time e:Closure) (ev:EventRead) : Prop :=
 ∃ v evTime, Evaluates host printer (.evalRefMachine e) v ∧
  eventCView v=some (ev.evParty,ev.evAct,evTime) ∧
  Evaluates host printer (.evalRefMachine evTime) ev.stampVal ∧
  Evaluates host printer (.evalRefMachine time) ev.timeVal

inductive InTime (o:Obligation) (ev:EventRead) :
  MaybeEvaluated' (Option RExpr) Closure → Prop where
 | noDue (h:o.due = .inl none) : InTime o ev (.inl none)
 | due (d stamp t:ℚ) (hd:IsDue host printer o d) (hs:ev.stampVal = .valNumber stamp)
   (ht:ev.timeVal = .valNumber t) (h:stamp ≤ t+d) :
   InTime o ev (.inr (.valNumber (d-(stamp-t))))

/-- The event is by the party of the obligation, its action has the pattern of the
obligation and the proviso holds. -/
def Performs (o:Obligation) (ev:EventRead) (party evParty:Value Closure)
  (henceEnv:Env Closure) : Prop :=
 HasValue host printer o.env o.party party ∧
 Evaluates host printer (.evalRefMachine ev.evParty) evParty ∧
 Compares host printer party evParty true ∧
 Evaluates host printer (.matchPatternMachine ev.evAct o.env o.act.action)
  (.valEnvironment henceEnv) ∧
 ∃ v, Evaluates host printer
  (.forwardMachine (o.env ++ henceEnv) (o.act.provided.getD trueExpr)) v ∧
  boolView v=some true

/-- The event is by another party, or another action, or the proviso does not hold. -/
def Passes (o:Obligation) (ev:EventRead) (party:Value Closure) : Prop :=
 HasValue host printer o.env o.party party ∧
 ∃ evParty, Evaluates host printer (.evalRefMachine ev.evParty) evParty ∧
  (Compares host printer party evParty false ∨
   Compares host printer party evParty true ∧
    (Mismatches host printer ev.evAct o.env o.act.action ∨
     ∃ henceEnv, Evaluates host printer (.matchPatternMachine ev.evAct o.env o.act.action)
       (.valEnvironment henceEnv) ∧
      ∃ v, Evaluates host printer
       (.forwardMachine (o.env ++ henceEnv) (o.act.provided.getD trueExpr)) v ∧
       boolView v=some false))

/-- What the frames of the obligation make of an event; the time is that of the event. -/
inductive Scrutinised (o:Obligation) (time e:Closure) : Value Closure → Outcome → Prop where
 | late (ev:EventRead) (d stamp t:ℚ) (out:Outcome) (hev:Reads host printer time e ev)
   (hd:IsDue host printer o d) (hs:ev.stampVal = .valNumber stamp)
   (ht:ev.timeVal = .valNumber t) (h:stamp > t+d)
   (hout:lateOutcome o ev.evParty ev.evAct stamp (t+d)=some out) :
   Scrutinised o time e ev.stampVal out
 | passes (ev:EventRead) (due' : MaybeEvaluated' (Option RExpr) Closure)
   (party:Value Closure) (hev:Reads host printer time e ev)
   (hin:InTime host printer o ev due') (hp:Passes host printer o ev party) :
   Scrutinised o time e ev.stampVal (.stays party due')
 | performs (ev:EventRead) (due' : MaybeEvaluated' (Option RExpr) Closure)
   (party evParty:Value Closure) (henceEnv:Env Closure) (out:Outcome)
   (hev:Reads host printer time e ev) (hin:InTime host printer o ev due')
   (hp:Performs host printer o ev party evParty henceEnv)
   (hout:performedOutcome o party evParty ev.evAct ev.stampVal henceEnv=some out) :
   Scrutinised o time e ev.stampVal out

def isFunction : Value Closure → Bool
 | .valClosure .. | .valUnappliedConstructor _ | .valUnaryBuiltinFun _ | .valBinaryBuiltinFun _
 | .valTernaryBuiltinFun _ | .valPartialTernary .. | .valPartialTernary2 ..=>true
 | _=>false

/-- Applying a value to a time and a list of events, as the machine does. -/
def Applies (c:Value Closure) (t es:Closure) (v:Value Closure) : Prop :=
 Reaches (next (runtime host printer)) (.backwardMachine c,⟨(),[.app1 [t,es] none]⟩)
  (.doneMachine v,⟨(),[]⟩)

inductive Applied : Value Closure → Closure → Closure → Value Closure → Prop where
 | fulfilled (c:Value Closure) (t es:Closure) (h:fulfilView c=true) :
   Applied c t es valFulfilled
 | breached (reason:ReasonForBreach Closure) (t es:Closure) :
   Applied (.valBreached reason) t es (.valBreached reason)
 | ended (o:Obligation) (t es:Closure)
   (hes:Evaluates host printer (.evalRefMachine es) .valNil) :
   Applied o.toValue t es o.toValue
 | stays (o:Obligation) (t es e es' : Closure) (stampVal party:Value Closure)
   (due' : MaybeEvaluated' (Option RExpr) Closure) (v:Value Closure)
   (hes:Evaluates host printer (.evalRefMachine es) (.valCons e es'))
   (he:Scrutinised host printer o t e stampVal (.stays party due'))
   (hrest:Applied { o with party:=.inr party,due:=due' }.toValue (.whnf stampVal) es' v) :
   Applied o.toValue t es v
 | moves (o:Obligation) (t es e es' : Closure) (stampVal:Value Closure) (env:Env Closure)
   (followup:RExpr) (c v:Value Closure)
   (hes:Evaluates host printer (.evalRefMachine es) (.valCons e es'))
   (he:Scrutinised host printer o t e stampVal (.moves env followup))
   (hc:Evaluates host printer (.forwardMachine env followup) c)
   (hrest:Applied c (.whnf stampVal) es' v) : Applied o.toValue t es v
 | breaches (o:Obligation) (t es e es' : Closure) (stampVal:Value Closure)
   (reason:ReasonForBreach Closure)
   (hes:Evaluates host printer (.evalRefMachine es) (.valCons e es'))
   (he:Scrutinised host printer o t e stampVal (.breaches reason)) :
   Applied o.toValue t es (.valBreached reason)
 | rOrFulfilled (env:Env Closure) (l r:MaybeEvaluated Closure) (t es:Closure)
   (c1 v1:Value Closure) (h1:HasValue host printer env l c1) (hv1:Applied c1 t es v1)
   (hf:fulfilView v1=true) : Applied (.valROp env .valROr l r) t es valFulfilled
 | rOp (env:Env Closure) (op:RBinOp) (l r:MaybeEvaluated Closure) (t es:Closure)
   (c1 v1 c2 v2:Value Closure) (h1:HasValue host printer env l c1)
   (hv1:Applied c1 t es v1) (hop:¬ (op = .valROr ∧ fulfilView v1=true))
   (h2:HasValue host printer env r c2) (hv2:Applied c2 t es v2) :
   Applied (.valROp env op l r) t es (combine env op v1 v2)
 | function (c v:Value Closure) (t es:Closure) (h:isFunction c=true)
   (hv:Applies host printer c t es v) : Applied c t es v

section Forward
variable {host printer}

def Obligation.scrutiny (o:Obligation) : Scrutiny Closure :=
 { act:=o.act,followup:=o.followup,lest:=o.lest,env:=o.env }

def Obligation.frame (o:Obligation) (t:Closure) : Frame Closure :=
 .contractFrame (.contract1 { o.scrutiny with party:=o.party,due:=o.due,time:=t })

def afterEvent (o:Obligation) (stampVal:Value Closure) (es:Closure)
  (K:List (Frame Closure)) : Outcome → Config Closure × EvalState Closure Unit
 | .stays party due' =>
  (.evalRefMachine es,
   ⟨(),{ o with party:=.inr party,due:=due' }.frame (.whnf stampVal)::K⟩)
 | .moves env e=>(.forwardMachine env e,⟨(),.app1 [.whnf stampVal,es] none::K⟩)
 | .breaches reason=>(.backwardMachine (.valBreached reason),⟨(),K⟩)

abbrev Goes (host:Host) (printer:Printer) (p q:Config Closure × EvalState Closure Unit) :
  Prop :=
 Reaches (next (runtime host printer)) p q

variable {v:Value Closure} {b:Bool} {o:Obligation} {t es:Closure} {ev:EventRead}
 {due' : MaybeEvaluated' (Option RExpr) Closure}

theorem Evaluates.goes {c:Config Closure} (h:Evaluates host printer c v)
  (K:List (Frame Closure)) : Goes host printer (c,⟨(),K⟩) (.backwardMachine v,⟨(),K⟩) :=
 Returns.reaches h K

theorem HasValue.goes {env:Env Closure} {m:MaybeEvaluated Closure}
  (h:HasValue host printer env m v) {p:Config Closure × EvalState Closure Unit}
  {K:List (Frame Closure)}
  (hp:∀ c s, maybeEvaluate env m ⟨(),K⟩=EStateM.Result.ok c s →
   next (runtime host printer) p=some (c,s)) :
  Goes host printer p (.backwardMachine v,⟨(),K⟩) := by
 cases m with
 | inl e=>exact .head (hp _ _ rfl) (Evaluates.goes h K)
 | inr w=>
  obtain rfl : w=v:=h
  exact .single (hp _ _ rfl)

theorem Compares.goes {v1 v2:Value Closure} (h:Compares host printer v1 v2 b)
  (K:List (Frame Closure)) :
  ∃ v, boolView v=some b ∧ ∀ p, next (runtime host printer) p =
   continued (runBinOpEquals (runtime host printer) v1 v2 ⟨(),K⟩) → Goes host printer p (.backwardMachine v,⟨(),K⟩) := by
 obtain ⟨c,k,v,hrun,hgoes,hv⟩:=h
 refine ⟨v,hv,fun p hp=>?_⟩
 have hblind:=(leads_quiet (inferInstance:Leads (quietLogic (runtime host printer))
  (runBinOpEquals (runtime host printer) v1 v2))).1 () [] K
 rw [List.nil_append] at hblind
 rw [hblind,hrun] at hp
 exact .head hp (reaches_append K hgoes (by simp))

theorem next_backward (v:Value Closure) (f:Frame Closure) (K:List (Frame Closure)) :
  next (runtime host printer) (.backwardMachine v,⟨(),f::K⟩) =
   continued (backwardFrame (runtime host printer) v f ⟨(),K⟩) :=
 rfl

theorem next_contract (v:Value Closure) (f:ContractFrame Closure) (K:List (Frame Closure)) :
  next (runtime host printer) (.backwardMachine v,⟨(),.contractFrame f::K⟩) =
   continued (backwardContractFrame (runtime host printer) v f ⟨(),K⟩) :=
 rfl

theorem next_contract2 {evParty evAct evTime:Closure}
  (f:ScrutinizeEvent Closure) (K:List (Frame Closure))
  (h:eventCView v=some (evParty,evAct,evTime)) :
  next (runtime host printer) (.backwardMachine v,⟨(),.contractFrame (.contract2 f)::K⟩) =
   some (.evalRefMachine evTime,⟨(),.contractFrame (.contract3
    { f with evParty:=evParty,evAct:=evAct,evTime:=evTime })::K⟩) := by
 simp only [next_contract,backwardContractFrame,backwardContract2,h]
 rfl

theorem Reads.goes {e:Closure} (h:Reads host printer t e ev) (K:List (Frame Closure)) :
  Goes host printer (.backwardMachine (.valCons e es),⟨(),o.frame t::K⟩)
   (.backwardMachine ev.timeVal,⟨(),.contractFrame (.contract4
    { o.scrutiny with party:=o.party,due:=o.due,evParty:=ev.evParty
                      evAct:=ev.evAct,evTime:=ev.stampVal,events:=es
                      time := t })::K⟩) := by
 obtain ⟨v,evTime,hv,hview,hstamp,htime⟩:=h
 refine .head rfl ((hv.goes _).trans ?_)
 refine .head (next_contract2 _ _ hview) ((hstamp.goes _).trans ?_)
 exact .head rfl (htime.goes _)

def timing (o:Obligation) (ev:EventRead) (es:Closure) : CheckTiming Closure :=
 { o.scrutiny with party:=o.party,due:=o.due,evParty:=ev.evParty,evAct:=ev.evAct
                   evTime:=ev.stampVal,events:=es,time:=ev.timeVal }

def checkTiming (o:Obligation) (ev:EventRead) (es:Closure) : Frame Closure :=
 .contractFrame (.contract5 (timing o ev es))

def scrutinizeDue (o:Obligation) (ev:EventRead) (t es:Closure) : Frame Closure :=
 .contractFrame (.contract4
  { o.scrutiny with party:=o.party,due:=o.due,evParty:=ev.evParty,evAct:=ev.evAct
                    evTime:=ev.stampVal,events:=es,time:=t })

theorem IsDue.goes {d:ℚ} (h:IsDue host printer o d)
  (t es:Closure) (K:List (Frame Closure)) :
  Goes host printer (.backwardMachine ev.timeVal,⟨(),scrutinizeDue o ev t es::K⟩)
   (.backwardMachine (.valNumber d),⟨(),checkTiming o ev es::K⟩) := by
 obtain ⟨env,party,act,due,followup,lest⟩:=o
 cases due with
 | inr v=>
  obtain rfl : v = .valNumber d:=h
  exact .single rfl
 | inl e=>
  cases e with
  | none=>exact h.elim
  | some e=>
   have he:Evaluates host printer (.forwardMachine env e) (.valNumber d):=h
   exact .head rfl (he.goes _)

theorem partyReference_eq {env:Env Closure} {party:MaybeEvaluated Closure} {r:Closure}
  (h:partyClosure env party=some r) (s:EvalState Closure Unit) :
  partyReference (runtime host printer) env party s = .ok r s := by
 unfold partyClosure at h
 split at h
 · simp only [partyReference,allocate_,expectTerm,h]
   rfl
 · next e hne=>
   obtain rfl:=Option.some.inj h
   change allocate_ (runtime host printer) env e s=_
   unfold allocate_
   split
   · exact absurd rfl (hne _ _)
   · rfl
 · obtain rfl:=Option.some.inj h
   rfl

theorem next_checkTiming {stamp t:ℚ} (d:ℚ) (es:Closure)
  (K:List (Frame Closure)) (hs:ev.stampVal = .valNumber stamp)
  (ht:ev.timeVal = .valNumber t) :
  next (runtime host printer)
   (.backwardMachine (.valNumber d),⟨(),checkTiming o ev es::K⟩) =
   continued ((if stamp > t+d then
     deadlinePassed (runtime host printer) (timing o ev es) stamp (t+d)
    else deadlineAhead (runtime host printer) (timing o ev es) (d-(stamp-t)) :
     Eval Closure Unit (Config Closure)) ⟨(),K⟩) := by
 obtain ⟨evParty,evAct,stampVal,timeVal⟩:=ev
 obtain rfl : stampVal = .valNumber stamp:=hs
 obtain rfl : timeVal = .valNumber t:=ht
 rfl

theorem next_late {d stamp t:ℚ} {out:Outcome}
  (es:Closure) (K:List (Frame Closure)) (hs:ev.stampVal = .valNumber stamp)
  (ht:ev.timeVal = .valNumber t) (h:stamp > t+d)
  (hout:lateOutcome o ev.evParty ev.evAct stamp (t+d)=some out) :
  next (runtime host printer)
   (.backwardMachine (.valNumber d),⟨(),checkTiming o ev es::K⟩) =
   some (afterEvent o ev.stampVal es K out) := by
 rw [next_checkTiming d es K hs ht,if_pos h]
 obtain ⟨env,party,act,due,followup,lest⟩:=o
 simp only [lateOutcome] at hout
 simp only [deadlinePassed,timing,Obligation.scrutiny]
 cases hm:act.modal with
 | dMustNot | dMay=>
  obtain rfl:=Option.some.inj (hm ▸ hout)
  rfl
 | dMust | dDo=>
  simp only [hm] at hout
  cases lest with
  | some lestFollowup=>
   obtain rfl:=Option.some.inj hout
   rfl
  | none=>
   obtain ⟨r,hr,rfl⟩:=Option.map_eq_some_iff.1 hout
   dsimp only
   rw [bind_ok (partyReference_eq hr _)]
   rfl

def partyWHNF (o:Obligation) (ev:EventRead) (due' : MaybeEvaluated' (Option RExpr) Closure)
  (es:Closure) : PartyWHNF Closure :=
 { o.scrutiny with due:=due', evParty:=ev.evParty,evAct:=ev.evAct,events:=es
                   time:=ev.stampVal }

theorem InTime.goes (h:InTime host printer o ev due')
  {party:Value Closure} (hp:HasValue host printer o.env o.party party) (t es:Closure)
  (K:List (Frame Closure)) :
  Goes host printer (.backwardMachine ev.timeVal,⟨(),scrutinizeDue o ev t es::K⟩)
   (.backwardMachine party,
    ⟨(),.contractFrame (.contract6 (partyWHNF o ev due' es))::K⟩) := by
 cases h with
 | noDue h=>
  refine hp.goes fun c s hrun=>?_
  obtain ⟨env,party,act,due,followup,lest⟩:=o
  obtain rfl : due = .inl none:=h
  exact congrArg continued hrun
 | due d stamp t' hd hs ht h=>
  refine (hd.goes t es K).trans (hp.goes fun c s hrun=>?_)
  rw [next_checkTiming d es K hs ht,if_neg (not_lt.2 h)]
  exact congrArg continued hrun

theorem Compares.contract7 {v1 v2:Value Closure} (h:Compares host printer v1 v2 b)
  (f:PartyEqual Closure) (hf:f.party=v1) (K:List (Frame Closure)) :
  ∃ v, boolView v=some b ∧
   Goes host printer (.backwardMachine v2,⟨(),.contractFrame (.contract7 f)::K⟩)
    (.backwardMachine v,⟨(),.contractFrame (.contract8 { f with evParty:=v2 })::K⟩) := by
 obtain ⟨v,hv,hgoes⟩:=h.goes (.contractFrame (.contract8 { f with evParty:=v2 })::K)
 refine ⟨v,hv,hgoes _ ?_⟩
 subst hf
 rfl

def scrutinizeParty (o:Obligation) (ev:EventRead) (party evParty:Value Closure)
  (due' : MaybeEvaluated' (Option RExpr) Closure) (es:Closure) : ScrutinizeParty Closure :=
 { o.scrutiny with party:=party,due:=due', evParty:=evParty,evAct:=ev.evAct
                   events:=es,time:=ev.stampVal }

theorem goes_compared {party evParty:Value Closure}
  (hin:InTime host printer o ev due') (hp:HasValue host printer o.env o.party party)
  (hev:Evaluates host printer (.evalRefMachine ev.evParty) evParty)
  (hc:Compares host printer party evParty b) (t es:Closure) (K:List (Frame Closure)) :
  ∃ v, boolView v=some b ∧
   Goes host printer (.backwardMachine ev.timeVal,⟨(),scrutinizeDue o ev t es::K⟩)
    (.backwardMachine v,⟨(),.contractFrame
     (.contract8 (scrutinizeParty o ev party evParty due' es))::K⟩) := by
 obtain ⟨v,hv,hgoes⟩:=hc.contract7
  { partyWHNF o ev due' es with party:=party } rfl K
 refine ⟨v,hv,(hin.goes hp t es K).trans (.head rfl ((hev.goes _).trans hgoes))⟩

/-- The guard of the event, to which a mismatch unwinds, and the frame that waits for the match. -/
def actionFrames (f:ScrutinizeParty Closure) : List (Frame Closure) :=
 [.contractFrame (.contract9 { f with }),.contractFrame (.contract11 { f with })]

theorem next_contract8_true (hv:boolView v=some true)
  (f:ScrutinizeParty Closure) (K:List (Frame Closure)) :
  next (runtime host printer) (.backwardMachine v,⟨(),.contractFrame (.contract8 f)::K⟩) =
   some (.matchPatternMachine f.evAct f.env f.act.action,⟨(),actionFrames f ++ K⟩) := by
 simp only [next_contract,backwardContractFrame,backwardContract8,hv]
 rfl

def nextEvent (f:ScrutinizeParty Closure) (K:List (Frame Closure)) :
  Config Closure × EvalState Closure Unit :=
 (.evalRefMachine f.events,⟨(),.contractFrame (.contract1
  { f with party:=.inr f.party,time:=.whnf f.time })::K⟩)

theorem next_contract8_false (hv:boolView v=some false)
  (f:ScrutinizeParty Closure) (K:List (Frame Closure)) :
  next (runtime host printer) (.backwardMachine v,⟨(),.contractFrame (.contract8 f)::K⟩) =
   some (nextEvent f K) := by
 simp only [next_contract,backwardContractFrame,backwardContract8,hv]
 rfl

def actionsFrame (f:ScrutinizeParty Closure) (henceEnv:Env Closure) :
  ScrutinizeActions Closure :=
 { f with henceEnv:=henceEnv }

theorem goes_proviso {f:ScrutinizeParty Closure} {henceEnv:Env Closure} {w:Value Closure}
  (hv:boolView v=some true)
  (hm:Evaluates host printer (.matchPatternMachine f.evAct f.env f.act.action)
   (.valEnvironment henceEnv))
  (hw:Evaluates host printer
   (.forwardMachine (f.env ++ henceEnv) (f.act.provided.getD trueExpr)) w)
  (K:List (Frame Closure)) :
  Goes host printer (.backwardMachine v,⟨(),.contractFrame (.contract8 f)::K⟩)
   (.backwardMachine w,⟨(),.contractFrame (.contract10 (actionsFrame f henceEnv)) ::
    .contractFrame (.contract11 { f with })::K⟩) := by
 refine .head (next_contract8_true hv f K) ((hm.goes _).trans ?_)
 exact .head rfl (hw.goes _)

theorem next_contract10_false (hv:boolView v=some false)
  (f:ScrutinizeActions Closure) (K:List (Frame Closure)) :
  next (runtime host printer) (.backwardMachine v,⟨(),.contractFrame (.contract10 f)::K⟩) =
   some (.evalRefMachine f.events,⟨(),.contractFrame (.contract1
    { f with party:=.inr f.party,time:=.whnf f.time })::K⟩) := by
 simp only [next_contract,backwardContractFrame,backwardContract10,hv]
 rfl

theorem next_performed {party evParty:Value Closure} {henceEnv:Env Closure} {out:Outcome}
  (hv:boolView v=some true) (es:Closure) (K:List (Frame Closure))
  (hout:performedOutcome o party evParty ev.evAct ev.stampVal henceEnv=some out) :
  next (runtime host printer) (.backwardMachine v,⟨(),.contractFrame
   (.contract10 (actionsFrame (scrutinizeParty o ev party evParty due' es) henceEnv))::K⟩) =
   some (afterEvent o ev.stampVal es K out) := by
 obtain ⟨env,oparty,act,due,followup,lest⟩:=o
 obtain ⟨evp,evAct,stampVal,timeVal⟩:=ev
 simp only [performedOutcome] at hout
 simp only [next_contract,backwardContractFrame,backwardContract10,hv,actionPerformed,
  actionsFrame,scrutinizeParty,Obligation.scrutiny]
 cases hm:act.modal with
 | dMust | dMay | dDo=>
  obtain rfl:=Option.some.inj (hm ▸ hout)
  rfl
 | dMustNot=>
  simp only [hm] at hout
  cases lest with
  | some lestFollowup=>
   obtain rfl:=Option.some.inj hout
   rfl
  | none=>
   cases stampVal with
   | valNumber stamp=>
    obtain rfl:=Option.some.inj hout
    rfl
   | _=>cases hout

/-- The frames below are the given ones, or a guard that lets values pass lies above them. -/
def Guards (host:Host) (printer:Printer) (K' K:List (Frame Closure)) : Prop :=
 ∀ v, Goes host printer (.backwardMachine v,⟨(),K'⟩) (.backwardMachine v,⟨(),K⟩)

theorem guards_refl (K:List (Frame Closure)) : Guards host printer K K := fun _=>.refl

theorem guards_contract11 (f:ActionDoesntMatch Closure) (K:List (Frame Closure)) :
  Guards host printer (.contractFrame (.contract11 f)::K) K :=
 fun _=>.single rfl

theorem Passes.goes {party:Value Closure}
  (h:Passes host printer o ev party) (hin:InTime host printer o ev due') (t es:Closure)
  (K:List (Frame Closure)) :
  ∃ K', Guards host printer K' K ∧
   Goes host printer (.backwardMachine ev.timeVal,⟨(),scrutinizeDue o ev t es::K⟩)
    (afterEvent o ev.stampVal es K' (.stays party due')) := by
 obtain ⟨hp,evParty,hev,hcases⟩:=h
 rcases hcases with hc | ⟨hc,hmis | ⟨henceEnv,hm,w,hw,hview⟩⟩
 · obtain ⟨v,hv,hgoes⟩:=goes_compared hin hp hev hc t es K
   exact ⟨K,guards_refl K,hgoes.tail (next_contract8_false hv _ K)⟩
 · obtain ⟨v,hv,hgoes⟩:=goes_compared hin hp hev hc t es K
   obtain ⟨c1,s1,hrun,hstep,hc1⟩:=hmis.reaches
    (actionFrames (scrutinizeParty o ev party evParty due' es) ++ K)
   refine ⟨K,guards_refl K,(hgoes.tail (next_contract8_true hv _ K)).trans (hrun.tail ?_)⟩
   exact next_of_step hc1 (hstep.trans rfl)
 · obtain ⟨v,hv,hgoes⟩:=goes_compared hin hp hev hc t es K
   have hproviso:=goes_proviso (f := scrutinizeParty o ev party evParty due' es) hv hm hw K
   exact ⟨_,guards_contract11 _ K,(hgoes.trans hproviso).tail (next_contract10_false hview _ _)⟩

theorem Scrutinised.goes {e:Closure} {stampVal:Value Closure}
  {out:Outcome} (h:Scrutinised host printer o t e stampVal out) (es:Closure)
  (K:List (Frame Closure)) :
  ∃ K', Guards host printer K' K ∧
   Goes host printer (.backwardMachine (.valCons e es),⟨(),o.frame t::K⟩)
    (afterEvent o stampVal es K' out) := by
 cases h with
 | late ev d stamp t' out hev hd hs ht h hout=>
  refine ⟨K,guards_refl K,(hev.goes K).trans ?_⟩
  exact (hd.goes t es K).tail (next_late es K hs ht h hout)
 | passes ev due' party hev hin hp=>
  obtain ⟨K', hK', hgoes⟩:=hp.goes hin t es K
  exact ⟨K', hK', (hev.goes K).trans hgoes⟩
 | performs ev due' party evParty henceEnv out hev hin hp hout=>
  obtain ⟨hparty,hevParty,hc,hm,w,hw,hview⟩:=hp
  obtain ⟨v,hv,hgoes⟩:=goes_compared hin hparty hevParty hc t es K
  have hproviso:=goes_proviso (f := scrutinizeParty o ev party evParty due' es) hv hm hw K
  have hperformed:=(hgoes.trans hproviso).tail (next_performed hview es _ hout)
  exact ⟨_,guards_contract11 _ K,(hev.goes K).trans hperformed⟩

theorem goes_obligation
  (hes:Evaluates host printer (.evalRefMachine es) v) (K:List (Frame Closure)) :
  Goes host printer (.backwardMachine o.toValue,⟨(),.app1 [t,es] none::K⟩)
   (.backwardMachine v,⟨(),o.frame t::K⟩) :=
 .head rfl (hes.goes _)

theorem goes_events {K:List (Frame Closure)}
  (h:Goes host printer (.backwardMachine o.toValue,⟨(),.app1 [t,es] none::K⟩)
   (.backwardMachine v,⟨(),K⟩)) :
  Goes host printer (.evalRefMachine es,⟨(),o.frame t::K⟩) (.backwardMachine v,⟨(),K⟩) := by
 rcases Relation.ReflTransGen.cases_head h with heq | ⟨q,hq,hrest⟩
 · have hlength:=congrArg (fun p=>p.2.stack.length) heq
   simp at hlength
 · obtain rfl:=Option.some.inj hq
   exact hrest

theorem next_fulfilled {c:Value Closure} (h:fulfilView c=true) (rs:List Closure)
  (K:List (Frame Closure)) :
  next (runtime host printer) (.backwardMachine c,⟨(),.app1 rs none::K⟩) =
   some (.backwardMachine valFulfilled,⟨(),K⟩) := by
 simp only [next_backward,backwardFrame,backwardApp1,h]
 rfl

theorem next_rOp (op:RBinOp) (l r:MaybeEvaluated Closure) (t es:Closure)
  (env:Env Closure) (K:List (Frame Closure)) :
  next (runtime host printer) (.backwardMachine (.valROp env op l r),
   ⟨(),.app1 [t,es] none::K⟩) =
   continued (maybeEvaluate env l ⟨(),.app1 [t,es] none :: .contractFrame
    (.rBinOp1 { op:=op,rexpr2:=r,args:=[t,es],env:=env })::K⟩) :=
 rfl

theorem next_rBinOp1 {op:RBinOp} (h:¬ (op = .valROr ∧ fulfilView v=true))
  (r:MaybeEvaluated Closure) (args:List Closure) (env:Env Closure)
  (K:List (Frame Closure)) :
  next (runtime host printer) (.backwardMachine v,⟨(),.contractFrame
   (.rBinOp1 { op:=op,rexpr2:=r,args:=args,env:=env })::K⟩) =
   continued (maybeEvaluate env r ⟨(),.app1 args none ::
    .contractFrame (.rBinOp2 { op := op,rval1 := v,env := env })::K⟩) := by
 simp only [next_contract,backwardContractFrame,backwardRBinOp1,if_neg h]
 rfl

theorem next_rOrFulfilled (h:fulfilView v=true)
  (r:MaybeEvaluated Closure) (args:List Closure) (env:Env Closure)
  (K:List (Frame Closure)) :
  next (runtime host printer) (.backwardMachine v,⟨(),.contractFrame
   (.rBinOp1 { op:=.valROr,rexpr2:=r,args:=args,env:=env })::K⟩) =
   some (.backwardMachine valFulfilled,⟨(),K⟩) := by
 simp only [next_contract,backwardContractFrame,backwardRBinOp1,h,and_self,if_true]
 rfl

theorem suits_app1 (c:Value Closure) (t es:Closure) :
  MachineHandlers.Suits (.backwardMachine c) [.app1 [t,es] none] :=
 ⟨⟨fun h=>by simp [isPatternFrame] at h,trivial⟩,by simp,by simp⟩

theorem Applied.goes {c:Value Closure}
  (h:Applied host printer c t es v) (K:List (Frame Closure)) :
  Goes host printer (.backwardMachine c,⟨(),.app1 [t,es] none::K⟩)
   (.backwardMachine v,⟨(),K⟩) := by
 induction h generalizing K with
 | fulfilled c t es h=>exact .single (next_fulfilled h _ K)
 | breached reason t es=>exact .single rfl
 | ended o t es hes=>exact (goes_obligation hes K).tail rfl
 | stays o t es e es' stampVal party due' v hes he hrest ih=>
  obtain ⟨K', hK', hgoes⟩:=he.goes es' K
  refine ((goes_obligation hes K).trans hgoes).trans ?_
  exact (goes_events (ih K')).trans (hK' v)
 | moves o t es e es' stampVal env followup c v hes he hc hrest ih=>
  obtain ⟨K', hK', hgoes⟩:=he.goes es' K
  refine ((goes_obligation hes K).trans hgoes).trans ?_
  exact (hc.goes _).trans ((ih K').trans (hK' v))
 | breaches o t es e es' stampVal reason hes he=>
  obtain ⟨K', hK', hgoes⟩:=he.goes es' K
  exact ((goes_obligation hes K).trans hgoes).trans (hK' _)
 | rOrFulfilled env l r t es c1 v1 h1 hv1 hf ih1=>
  refine (HasValue.goes h1 fun c s hrun=>?_).trans
   ((ih1 _).tail (next_rOrFulfilled hf r [t,es] env K))
  rw [next_rOp,hrun]
  rfl
 | rOp env op l r t es c1 v1 c2 v2 h1 hv1 hop h2 hv2 ih1 ih2=>
  have hsecond:Goes host printer (.backwardMachine v1,⟨(),.contractFrame
    (.rBinOp1 { op:=op,rexpr2:=r,args:=[t,es],env:=env })::K⟩)
    (.backwardMachine c2,⟨(),.app1 [t,es] none ::
     .contractFrame (.rBinOp2 { op:=op,rval1:=v1,env:=env })::K⟩) :=
   HasValue.goes h2 fun c s hrun=>by
    rw [next_rBinOp1 hop,hrun]
    rfl
  refine (HasValue.goes h1 fun c s hrun=>?_).trans
   ((ih1 _).trans (hsecond.trans ((ih2 _).tail rfl)))
  rw [next_rOp,hrun]
  rfl
 | function c v t es h hv=>
  have hback:=(reaches_done_iff (suits_app1 c t es)).1 hv
  exact reaches_append K hback (by simp)

end Forward

end L4Ide.ContractRuns
