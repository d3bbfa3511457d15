import L4Ide.ResidualSimilarity

set_option autoImplicit false

/-!
# Residuals

Applying a contract to some events and its residual to the rest does what applying it to all
of them does, but for the blame of a RAND whose operands are breached at one time.
-/
namespace L4Ide.Residuation
open Syntax ValueLazy Machine CallByName ContractRuns ContractInversion OperatorStatus
open AbsoluteDeadlines ResidualSimilarity

section Events
variable (host:Host) (printer:Printer)

/-- The reference stands for the list of events. -/
inductive IsEvents : Closure → List Closure → Prop where
 | nil (es:Closure) (h:Evaluates host printer (.evalRefMachine es) .valNil) : IsEvents es []
 | cons (es e es' : Closure) (l:List Closure)
   (h:Evaluates host printer (.evalRefMachine es) (.valCons e es')) (hl:IsEvents es' l) :
   IsEvents es (e::l)

def HappensAt (e:Closure) (q:ℚ) : Prop :=
 ∃ v evParty evAct evTime, Evaluates host printer (.evalRefMachine e) v ∧
  eventCView v=some (evParty,evAct,evTime) ∧ IsTime host printer evTime q

/-- The stamps of the events do not decrease, from one time to another. -/
inductive Elapses : ℚ → List Closure → ℚ → Prop where
 | nil (q:ℚ) : Elapses q [] q
 | cons (q q' q'' : ℚ) (e:Closure) (l:List Closure) (he:HappensAt host printer e q')
   (hq:q ≤ q') (hl:Elapses q' l q'') : Elapses q (e::l) q''

end Events

section Contracts
variable (host:Host) (printer:Printer)

/-- A contract that has met no event. -/
def Fresh (c:Value Closure) : Prop :=
 (∃ o : Obligation, c=o.toValue) ∨ (∃ env op e1 e2, c = .valROp env op (.inl e1) (.inl e2)) ∨
  fulfilView c=true ∨ isExplicit c=true

/-- What an operand that has not been evaluated comes to is a contract that has met no event. -/
def IsOperand : MaybeEvaluated Closure → Value Closure → Prop
 | .inl _, c=>Fresh c
 | .inr _, _=>True

/-- A run in which HENCE, LEST and the operands are contracts, and no operand of a RAND comes to
an explicit BREACH. -/
inductive Contractual : Value Closure → Closure → Closure → Value Closure → Prop where
 | fulfilled (c:Value Closure) (t es:Closure) (h:fulfilView c=true) :
   Contractual c t es valFulfilled
 | breached (reason:ReasonForBreach Closure) (t es:Closure) :
   Contractual (.valBreached reason) t es (.valBreached reason)
 | ended (o:Obligation) (t es:Closure)
   (hes:Evaluates host printer (.evalRefMachine es) .valNil) :
   Contractual o.toValue t es o.toValue
 | stays (o:Obligation) (t es e es' : Closure) (stampVal party:Value Closure)
   (due' : MaybeEvaluated' (Option RExpr) Closure) (v:Value Closure)
   (hes:Evaluates host printer (.evalRefMachine es) (.valCons e es'))
   (he:Scrutinised host printer o t e stampVal (.stays party due'))
   (hrest:Contractual { o with party:=.inr party,due:=due' }.toValue
    (.whnf stampVal) es' v) :
   Contractual o.toValue t es v
 | moves (o:Obligation) (t es e es' : Closure) (stampVal:Value Closure) (env:Env Closure)
   (followup:RExpr) (c v:Value Closure)
   (hes:Evaluates host printer (.evalRefMachine es) (.valCons e es'))
   (he:Scrutinised host printer o t e stampVal (.moves env followup))
   (hc:Evaluates host printer (.forwardMachine env followup) c) (hfresh:Fresh c)
   (hrest:Contractual c (.whnf stampVal) es' v) : Contractual o.toValue t es v
 | breaches (o:Obligation) (t es e es' : Closure) (stampVal:Value Closure)
   (reason:ReasonForBreach Closure)
   (hes:Evaluates host printer (.evalRefMachine es) (.valCons e es'))
   (he:Scrutinised host printer o t e stampVal (.breaches reason)) :
   Contractual o.toValue t es (.valBreached reason)
 | rOrFulfilled (env:Env Closure) (l r:MaybeEvaluated Closure) (t es:Closure)
   (c1 v1:Value Closure) (h1:HasValue host printer env l c1) (hl:IsOperand l c1)
   (hv1:Contractual c1 t es v1) (hf:fulfilView v1=true) :
   Contractual (.valROp env .valROr l r) t es valFulfilled
 | rOp (env:Env Closure) (op:RBinOp) (l r:MaybeEvaluated Closure) (t es:Closure)
   (c1 v1 c2 v2:Value Closure) (h1:HasValue host printer env l c1) (hl:IsOperand l c1)
   (hv1:Contractual c1 t es v1) (hop:¬ (op = .valROr ∧ fulfilView v1=true))
   (h2:HasValue host printer env r c2) (hr:IsOperand r c2)
   (hv2:Contractual c2 t es v2)
   (hexplicit:op = .valRAnd → isExplicit v1=false ∧ isExplicit v2=false) :
   Contractual (.valROp env op l r) t es (combine env op v1 v2)

/-- The deadlines that the contract has missed so far were missed by then. -/
inductive Timely (clock:ℚ) : Value Closure → Prop where
 | other (v:Value Closure) (h:deadlineStamp v=none) (hr:∀ env op l r, v ≠ .valROp env op l r) :
   Timely clock v
 | breached (v:Value Closure) (s:ℚ) (h:deadlineStamp v=some s) (hs:s ≤ clock) :
   Timely clock v
 | rOp (env:Env Closure) (op:RBinOp) (l r:MaybeEvaluated Closure)
   (hl:∀ a, l = .inr a → Timely clock a) (hr:∀ b, r = .inr b → Timely clock b) :
   Timely clock (.valROp env op l r)

end Contracts

variable {host:Host} {printer:Printer}

theorem fresh_obligation (o:Obligation) : Fresh o.toValue := .inl ⟨o,rfl⟩

variable {c v:Value Closure} {t es e:Closure} {l:List Closure} {q q' s:ℚ}

theorem Fresh.timely (h:Fresh c) (clock:ℚ) : Timely clock c := by
 rcases h with ⟨o,rfl⟩ | ⟨env,op,e1,e2,rfl⟩ | h | h
 · exact .other _ rfl (by simp [Obligation.toValue])
 · exact .rOp env op _ _ (by simp) (by simp)
 · refine .other c ?_ (by rintro env op l r rfl; cases h)
   cases c with
   | valBreached reason=>cases h
   | _=>rfl
 · refine .other c ?_ (by rintro env op l r rfl; cases h)
   cases hs:deadlineStamp c with
   | none=>rfl
   | some s=>
    rw [isExplicit_of_deadlineStamp hs] at h
    cases h

theorem Contractual.applied
  (h:Contractual host printer c t es v) : Applied host printer c t es v := by
 induction h with
 | fulfilled c t es h=>exact .fulfilled c t es h
 | breached reason t es=>exact .breached reason t es
 | ended o t es hes=>exact .ended o t es hes
 | stays o t es e es' stampVal party due' v hes he _ ih=>
  exact .stays o t es e es' stampVal party due' v hes he ih
 | moves o t es e es' stampVal env followup c v hes he hc _ _ ih=>
  exact .moves o t es e es' stampVal env followup c v hes he hc ih
 | breaches o t es e es' stampVal reason hes he=>
  exact .breaches o t es e es' stampVal reason hes he
 | rOrFulfilled env l r t es c1 v1 h1 _ _ hf ih=>
  exact .rOrFulfilled env l r t es c1 v1 h1 ih hf
 | rOp env op l r t es c1 v1 c2 v2 h1 _ _ hop h2 _ _ _ ih1 ih2=>
  exact .rOp env op l r t es c1 v1 c2 v2 h1 ih1 hop h2 ih2

theorem isEvents_nil (h:IsEvents host printer es []) :
  Evaluates host printer (.evalRefMachine es) .valNil := by
 cases h with
 | nil es h=>exact h

theorem IsEvents.tail {es' : Closure} (h:IsEvents host printer es l)
  (hes:Evaluates host printer (.evalRefMachine es) (.valCons e es')) :
  ∃ l', l=e::l' ∧ IsEvents host printer es' l' := by
 cases h with
 | nil es h=>cases evaluates_unique h hes
 | cons es e2 es2 l' h hl=>
  obtain ⟨rfl,rfl⟩:=Value.valCons.inj (evaluates_unique h hes)
  exact ⟨l', rfl,hl⟩

theorem IsEvents.head (h:IsEvents host printer es (e::l)) :
  ∃ es', Evaluates host printer (.evalRefMachine es) (.valCons e es') ∧
   IsEvents host printer es' l := by
 cases h with
 | cons es e es' l h hl=>exact ⟨es', h,hl⟩

theorem Elapses.le (h:Elapses host printer q l q') : q ≤ q' := by
 induction h with
 | nil=>exact le_rfl
 | cons q q' q'' e l he hq _ ih=>exact hq.trans ih

theorem happensAt_unique (h:HappensAt host printer e q)
  (h' : HappensAt host printer e q') : q=q' := by
 obtain ⟨v,evParty,evAct,evTime,hv,hview,ht⟩:=h
 obtain ⟨v', evParty', evAct', evTime', hv', hview', ht'⟩:=h'
 obtain rfl:=evaluates_unique hv hv'
 obtain ⟨-,-,rfl⟩ : evParty=evParty' ∧ evAct=evAct' ∧ evTime=evTime' :=by
  simpa using hview.symm.trans hview'
 exact Value.valNumber.inj (evaluates_unique ht ht')

theorem reads_happensAt {ev:EventRead} (h:Reads host printer t e ev) :
  HappensAt host printer e q ↔ ev.stampVal = .valNumber q := by
 obtain ⟨v,evTime,hv,hview,hstamp,-⟩:=h
 constructor
 · rintro ⟨v', evParty', evAct', evTime', hv', hview', ht'⟩
   obtain rfl:=evaluates_unique hv hv'
   obtain ⟨-,-,rfl⟩ : ev.evParty=evParty' ∧ ev.evAct=evAct' ∧ evTime=evTime' :=by
    simpa using hview.symm.trans hview'
   exact evaluates_unique hstamp ht'
 · intro heq
   rw [heq] at hstamp
   exact ⟨v,_,_,evTime,hv,hview,hstamp⟩

theorem scrutinised_stamp {o:Obligation} {stampVal:Value Closure}
  {out:Outcome} (h:Scrutinised host printer o t e stampVal out)
  (he:HappensAt host printer e q) : stampVal = .valNumber q := by
 cases h with
 | late ev d s q' out hev=>exact (reads_happensAt hev).1 he
 | passes ev due party hev=>exact (reads_happensAt hev).1 he
 | performs ev due party evParty henceEnv out hev=>exact (reads_happensAt hev).1 he

theorem scrutinised_breach {o:Obligation} {stampVal:Value Closure}
  {reason:ReasonForBreach Closure}
  (h:Scrutinised host printer o t e stampVal (.breaches reason))
  (hs:deadlineStamp (.valBreached reason)=some s) : HappensAt host printer e s := by
 cases h with
 | late ev d stamp q out hev hd hst ht hlate hout=>
  rw [reads_happensAt hev,hst]
  unfold lateOutcome at hout
  split at hout
  · cases hout
  · cases hout
  all_goals
   split at hout
   · cases hout
   · obtain ⟨party,-,heq⟩:=Option.map_eq_some_iff.1 hout
     obtain rfl:=Outcome.breaches.inj heq
     rw [Option.some.inj hs]
 | performs ev due party evParty henceEnv out hev hin hp hout=>
  rw [reads_happensAt hev]
  unfold performedOutcome at hout
  split at hout
  · cases hout
  · cases hout
  · cases hout
  · split at hout
    · cases hout
    · next stamp _ hst=>
      obtain rfl:=Outcome.breaches.inj (Option.some.inj hout)
      rw [hst,Option.some.inj hs]
    · cases hout

section Inversion

theorem contractual_cons {o:Obligation} {t es e es' : Closure} {stampVal v:Value Closure}
  {out:Outcome} (h:Contractual host printer o.toValue t es v)
  (hes:Evaluates host printer (.evalRefMachine es) (.valCons e es'))
  (he:Scrutinised host printer o t e stampVal out) :
  (∃ party due', out = .stays party due' ∧ Contractual host printer
   { o with party:=.inr party,due:=due' }.toValue (.whnf stampVal) es' v) ∨
  (∃ env followup c, out = .moves env followup ∧ Fresh c ∧
   Evaluates host printer (.forwardMachine env followup) c ∧
   Contractual host printer c (.whnf stampVal) es' v) ∨
  ∃ reason, out = .breaches reason ∧ v = .valBreached reason := by
 generalize hc:o.toValue=c at h
 cases h with
 | fulfilled c t es hf=>
  subst hc
  cases hf
 | breached | rOrFulfilled | rOp=>cases hc
 | ended o' t es hnil=>cases evaluates_unique hes hnil
 | stays o' t es e2 es2 stampVal' party due' v hes' he' hrest=>
  obtain rfl:=toValue_inj hc
  obtain ⟨rfl,rfl⟩:=Value.valCons.inj (evaluates_unique hes hes')
  obtain ⟨rfl,rfl⟩:=scrutinised_unique he he'
  exact .inl ⟨party,due', rfl,hrest⟩
 | moves o' t es e2 es2 stampVal' env followup c v hes' he' hc' hfresh hrest=>
  obtain rfl:=toValue_inj hc
  obtain ⟨rfl,rfl⟩:=Value.valCons.inj (evaluates_unique hes hes')
  obtain ⟨rfl,rfl⟩:=scrutinised_unique he he'
  exact .inr (.inl ⟨env,followup,c,rfl,hfresh,hc', hrest⟩)
 | breaches o' t es e2 es2 stampVal' reason hes' he' =>
  obtain rfl:=toValue_inj hc
  obtain ⟨rfl,rfl⟩:=Value.valCons.inj (evaluates_unique hes hes')
  obtain ⟨rfl,rfl⟩:=scrutinised_unique he he'
  exact .inr (.inr ⟨reason,rfl,rfl⟩)

theorem contractual_rOp {env:Env Closure} {op:RBinOp} {l r:MaybeEvaluated Closure}
  {t es:Closure} {v:Value Closure}
  (h:Contractual host printer (.valROp env op l r) t es v) :
  (op = .valROr ∧ v=valFulfilled ∧ ∃ c1 v1, HasValue host printer env l c1 ∧ IsOperand l c1 ∧
   Contractual host printer c1 t es v1 ∧ fulfilView v1=true) ∨
  ∃ c1 v1 c2 v2, v=combine env op v1 v2 ∧ HasValue host printer env l c1 ∧ IsOperand l c1 ∧
   Contractual host printer c1 t es v1 ∧ ¬ (op = .valROr ∧ fulfilView v1=true) ∧
   HasValue host printer env r c2 ∧ IsOperand r c2 ∧ Contractual host printer c2 t es v2 ∧
   (op = .valRAnd → isExplicit v1=false ∧ isExplicit v2=false) := by
 generalize hc:Value.valROp env op l r=c at h
 cases h with
 | fulfilled c t es hf=>
  subst hc
  cases hf
 | breached | ended | stays | moves | breaches=>cases hc
 | rOrFulfilled env' l' r' t es c1 v1 h1 hl hv1 hf=>
  obtain ⟨rfl,rfl,rfl,rfl⟩:=Value.valROp.inj hc
  exact .inl ⟨rfl,rfl,c1,v1,h1,hl,hv1,hf⟩
 | rOp env' op' l' r' t es c1 v1 c2 v2 h1 hl hv1 hop h2 hr hv2 hexplicit=>
  obtain ⟨rfl,rfl,rfl,rfl⟩:=Value.valROp.inj hc
  exact .inr ⟨c1,v1,c2,v2,rfl,h1,hl,hv1,hop,h2,hr,hv2,hexplicit⟩

end Inversion

theorem Contractual.stamp_mem
  (h:Contractual host printer c t es v) (hl:IsEvents host printer es l) (hc:Fresh c)
  (hs:deadlineStamp v=some s) : ∃ e ∈ l, HappensAt host printer e s := by
 induction h generalizing l with
 | fulfilled c t es h=>cases hs
 | breached reason t es=>
  rcases hc with ⟨o,hc⟩ | ⟨env,op,e1,e2,hc⟩ | hc | hc
  · cases hc
  · cases hc
  · cases hc
  · rw [isExplicit_of_deadlineStamp hs] at hc
    cases hc
 | ended o t es hes=>cases hs
 | stays o t es e es' stampVal party due' v hes he _ ih=>
  obtain ⟨l', rfl,hl'⟩:=hl.tail hes
  obtain ⟨e', he', hat⟩:=ih hl' (fresh_obligation _) hs
  exact ⟨e', List.mem_cons_of_mem _ he', hat⟩
 | moves o t es e es' stampVal env followup c v hes he hc' hfresh _ ih=>
  obtain ⟨l', rfl,hl'⟩:=hl.tail hes
  obtain ⟨e', he', hat⟩:=ih hl' hfresh hs
  exact ⟨e', List.mem_cons_of_mem _ he', hat⟩
 | breaches o t es e es' stampVal reason hes he=>
  obtain ⟨l', rfl,hl'⟩:=hl.tail hes
  exact ⟨e,List.mem_cons_self,scrutinised_breach he hs⟩
 | rOrFulfilled=>cases hs
 | rOp env op l1 r1 t es c1 v1 c2 v2 h1 hl1 _ hop h2 hr1 _ _ ih1 ih2=>
  obtain ⟨⟨e1,rfl⟩,e2,rfl⟩ : (∃ e1, l1 = .inl e1) ∧ ∃ e2, r1 = .inl e2:=by
   rcases hc with ⟨o,hc⟩ | ⟨env,op,e1,e2,hc⟩ | hc | hc
   · cases hc
   · obtain ⟨-,-,rfl,rfl⟩:=Value.valROp.inj hc
     exact ⟨⟨e1,rfl⟩,e2,rfl⟩
   · cases hc
   · cases hc
  rcases deadlineStamp_combine hs with hs | hs
  · exact ih1 hl hl1 hs
  · exact ih2 hl hr1 hs

/-- What a contract comes to is read off the events, not off their reference or that of the
time. -/
theorem Contractual.congr {t' es' : Closure}
  (h:Contractual host printer c t es v) (hl:IsEvents host printer es l)
  (hl' : IsEvents host printer es' l)
  (ht:∀ w, Evaluates host printer (.evalRefMachine t) w →
   Evaluates host printer (.evalRefMachine t') w) :
  Applied host printer c t' es' v := by
 have hreads:∀ {t t' e:Closure} {ev:EventRead},
   (∀ w, Evaluates host printer (.evalRefMachine t) w →
    Evaluates host printer (.evalRefMachine t') w) →
   Reads host printer t e ev → Reads host printer t' e ev := by
  rintro t t' e ev ht ⟨w,evTime,hw,hview,hstamp,htime⟩
  exact ⟨w,evTime,hw,hview,hstamp,ht _ htime⟩
 have hscrut:∀ {o:Obligation} {t t' e:Closure} {stampVal:Value Closure} {out:Outcome},
   (∀ w, Evaluates host printer (.evalRefMachine t) w →
    Evaluates host printer (.evalRefMachine t') w) →
   Scrutinised host printer o t e stampVal out →
   Scrutinised host printer o t' e stampVal out := by
  intro o t t' e stampVal out ht h
  cases h with
  | late ev d stamp q out hev hd hs hq hlate hout=>
   exact .late ev d stamp q out (hreads ht hev) hd hs hq hlate hout
  | passes ev due' party hev hin hp=>exact .passes ev due' party (hreads ht hev) hin hp
  | performs ev due' party evParty henceEnv out hev hin hp hout=>
   exact .performs ev due' party evParty henceEnv out (hreads ht hev) hin hp hout
 induction h generalizing t' es' l with
 | fulfilled c t es h=>exact .fulfilled c t' es' h
 | breached reason t es=>exact .breached reason t' es'
 | ended o t es hes=>
  obtain rfl : l=[]:=by
   cases hl with
   | nil=>rfl
   | cons es e es2 l h hl=>cases evaluates_unique h hes
  exact .ended o t' es' (isEvents_nil hl')
 | stays o t es e es2 stampVal party due' v hes he _ ih=>
  obtain ⟨l2,rfl,hl2⟩:=hl.tail hes
  obtain ⟨es3,hes3,hl3⟩:=hl'.head
  exact .stays o t' es' e es3 stampVal party due' v hes3 (hscrut ht he)
   (ih hl2 hl3 fun w hw=>hw)
 | moves o t es e es2 stampVal env followup c v hes he hc hfresh _ ih=>
  obtain ⟨l2,rfl,hl2⟩:=hl.tail hes
  obtain ⟨es3,hes3,hl3⟩:=hl'.head
  exact .moves o t' es' e es3 stampVal env followup c v hes3 (hscrut ht he) hc
   (ih hl2 hl3 fun w hw=>hw)
 | breaches o t es e es2 stampVal reason hes he=>
  obtain ⟨l2,rfl,hl2⟩:=hl.tail hes
  obtain ⟨es3,hes3,hl3⟩:=hl'.head
  exact .breaches o t' es' e es3 stampVal reason hes3 (hscrut ht he)
 | rOrFulfilled env l1 r1 t es c1 v1 h1 hl1 _ hf ih=>
  exact .rOrFulfilled env l1 r1 t' es' c1 v1 h1 (ih hl hl' ht) hf
 | rOp env op l1 r1 t es c1 v1 c2 v2 h1 hl1 _ hop h2 hr1 _ _ ih1 ih2=>
  exact .rOp env op l1 r1 t' es' c1 v1 c2 v2 h1 (ih1 hl hl' ht) hop h2 (ih2 hl hl' ht)

/-- What the residual of a contract does with the rest of the events, where the contract comes
to the value on all of them. -/
structure Resumes (host:Host) (printer:Printer) (t2 es2:Closure) (hi lo:ℚ)
  (v r v' : Value Closure) : Prop where
 applied : Applied host printer r t2 es2 v'
 similar : Similar (hi=lo) v v'
 early : ∀ s, deadlineStamp r=some s → s ≤ hi
 later : status r ≠ .breached → ∀ s, deadlineStamp v' = some s → lo ≤ s

section Operators
variable {t2 es2:Closure} {hi lo:ℚ} {env:Env Closure} {v1 v2 r1 r2 v1' v2' : Value Closure}

theorem resumes_decided {v r:Value Closure} (hr:status r = .breached ∨ r=valFulfilled)
  (hsim:Similar (hi=lo) v r) (hearly:∀ s, deadlineStamp r=some s → s ≤ hi) :
  Resumes host printer t2 es2 hi lo v r r := by
 rcases hr with hr | rfl
 · obtain ⟨reason,rfl⟩:=(status_breached_iff r).1 hr
   exact ⟨.breached reason t2 es2,hsim,hearly,fun h=>absurd hr h⟩
 · exact ⟨.fulfilled _ t2 es2 rfl,hsim,hearly,fun _ s hs=>by cases hs⟩

theorem Resumes.eq_of_breached (h:Resumes host printer t2 es2 hi lo v1 r1 v1')
  (hb:status r1 = .breached) : v1' = r1 := by
 obtain ⟨reason,rfl⟩:=(status_breached_iff r1).1 hb
 exact applied_unique h.applied (.breached reason t2 es2)

theorem Resumes.eq_of_fulfilled (h:Resumes host printer t2 es2 hi lo v1 r1 v1')
  (hf:fulfilView r1=true) : v1' = valFulfilled :=
 applied_unique h.applied (.fulfilled r1 t2 es2 hf)

theorem Resumes.fulfilled (h:Resumes host printer t2 es2 hi lo v1 r1 v1')
  (hf:fulfilView r1=true) : fulfilView v1=true := by
 rw [h.similar.fulfilView_eq,h.eq_of_fulfilled hf]
 rfl

theorem Resumes.deadline (h:Resumes host printer t2 es2 hi lo v1 r1 v1')
  (hexplicit:isExplicit v1=false) (hb:status r1 = .breached) :
  ∃ s, deadlineStamp r1=some s ∧ deadlineStamp v1=some s := by
 rw [h.similar.deadlineStamp_eq,h.eq_of_breached hb]
 rw [h.similar.isExplicit_eq,h.eq_of_breached hb] at hexplicit
 obtain ⟨reason,rfl⟩:=(status_breached_iff r1).1 hb
 cases reason with
 | explicitBreach=>cases hexplicit
 | deadlineMissed _ _ s=>exact ⟨s,rfl,rfl⟩

theorem not_breached_of_explicit {v:Value Closure} (hs:deadlineStamp v=none)
  (hx:isExplicit v=false) : status v ≠ .breached := by
 intro hb
 obtain ⟨reason,rfl⟩:=(status_breached_iff v).1 hb
 cases reason <;> simp [deadlineStamp,isExplicit] at hs hx

theorem resumes_waits {op:RBinOp} (h1:Resumes host printer t2 es2 hi lo v1 r1 v1')
  (h2:Resumes host printer t2 es2 hi lo v2 r2 v2')
  (hop:¬ (op = .valROr ∧ fulfilView v1=true))
  (hlater:∀ s, deadlineStamp (combine env op v1' v2')=some s → lo ≤ s) :
  Resumes host printer t2 es2 hi lo (combine env op v1 v2) (.valROp env op (.inr r1) (.inr r2))
   (combine env op v1' v2') := by
 rw [h1.similar.fulfilView_eq] at hop
 refine ⟨?_,combine_similar env op h1.similar h2.similar,fun s hs=>?_,fun _=>hlater⟩
 · exact .rOp env op _ _ t2 es2 r1 v1' r2 v2' rfl h1.applied hop rfl h2.applied
 · cases hs

theorem resumes_rAnd (hle:hi ≤ lo) (h1:Resumes host printer t2 es2 hi lo v1 r1 v1')
  (h2:Resumes host printer t2 es2 hi lo v2 r2 v2') (hx1:isExplicit v1=false)
  (hx2:isExplicit v2=false) :
  ∃ v', Resumes host printer t2 es2 hi lo (combine env .valRAnd v1 v2)
   (combine env .valRAnd r1 r2) v' := by
 have hearly:∀ s, deadlineStamp (combine env .valRAnd r1 r2)=some s → s ≤ hi:=by
  intro s hs
  rcases deadlineStamp_combine hs with hs | hs
  · exact h1.early s hs
  · exact h2.early s hs
 by_cases hb1:status r1 = .breached
 · obtain ⟨s1,hs1,hv1⟩:=h1.deadline hx1 hb1
   have hbreached:status (combine env .valRAnd r1 r2) = .breached:=
    ((status_combine_rAnd env r1 r2).1).2 (.inl hb1)
   refine ⟨_,resumes_decided (.inl hbreached) ?_ hearly⟩
   have hsim1:Similar (hi=lo) v1 r1:=h1.eq_of_breached hb1 ▸ h1.similar
   by_cases hb2:status r2 = .breached
   · exact combine_similar env .valRAnd hsim1 (h2.eq_of_breached hb2 ▸ h2.similar)
   · have hs2:deadlineStamp r2=none:=by
      cases hs2:deadlineStamp r2 with
      | none=>rfl
      | some s2=>exact absurd (status_of_deadlineStamp hs2) hb2
     rw [combine_rAnd_left hb1 (.inr hs2)]
     cases hv2:deadlineStamp v2 with
     | none=>
      rw [combine_rAnd_left (status_of_deadlineStamp hv1) (.inr hv2)]
      exact hsim1
     | some s2=>
      -- the other operand missed its deadline in the rest of the events
      have hlo:lo ≤ s2:=h2.later hb2 s2 (h2.similar.deadlineStamp_eq ▸ hv2)
      have hhi:s1 ≤ hi:=h1.early s1 hs1
      rw [combine_deadlines hv1 hv2]
      simp only
      rw [if_pos (by linarith)]
      exact hsim1
 · by_cases hb2:status r2 = .breached
   · obtain ⟨s2,hs2,hv2⟩:=h2.deadline hx2 hb2
     have hsim2:Similar (hi=lo) v2 r2:=h2.eq_of_breached hb2 ▸ h2.similar
     have hhi:s2 ≤ hi:=h2.early s2 hs2
     rw [combine_rAnd_right hb1 hb2] at hearly ⊢
     refine ⟨r2,resumes_decided (.inl hb2) ?_ hearly⟩
     cases hv1:deadlineStamp v1 with
     | none=>
      rw [combine_rAnd_right (not_breached_of_explicit hv1 hx1) (status_of_deadlineStamp hv2)]
      exact hsim2
     | some s1=>
      have hlo:lo ≤ s1:=h1.later hb1 s1 (h1.similar.deadlineStamp_eq ▸ hv1)
      rw [combine_deadlines hv1 hv2]
      simp only
      split
      · next hle12=>
        -- both miss their deadlines at the stamp at which the events are cut
        have heq:s1=s2:=by linarith
        exact .tied v1 r2 s1 (by linarith) hv1 (heq ▸ hs2)
      · exact hsim2
   · by_cases hf:fulfilView r1=true ∧ fulfilView r2=true
     · rw [combine_fulfilled hf.1 hf.2,combine_fulfilled (h1.fulfilled hf.1) (h2.fulfilled hf.2)]
       exact ⟨_,resumes_decided (.inr rfl) (.refl _) fun s hs=>by cases hs⟩
     · rw [combine_rAnd_waits hb1 hb2 hf]
       refine ⟨_,resumes_waits h1 h2 (by simp) fun s hs=>?_⟩
       rcases deadlineStamp_combine hs with hs | hs
       · exact h1.later hb1 s hs
       · exact h2.later hb2 s hs

theorem Resumes.later_of_rOr {r:Value Closure} {s:ℚ}
  (h:Resumes host printer t2 es2 hi lo v1 r v1') (hr:deadlineStamp r=none)
  (hs:deadlineStamp v1' = some s) : lo ≤ s := by
 refine h.later (fun hb=>?_) s hs
 rw [h.eq_of_breached hb,hr] at hs
 cases hs

theorem resumes_rOr (h1:Resumes host printer t2 es2 hi lo v1 r1 v1')
  (h2:Resumes host printer t2 es2 hi lo v2 r2 v2') (hv1:fulfilView v1=false)
  (hr1:fulfilView r1=false) :
  ∃ v', Resumes host printer t2 es2 hi lo (combine env .valROr v1 v2)
   (combine env .valROr r1 r2) v' := by
 by_cases hf2:fulfilView r2=true
 · rw [combine_rOr_fulfilled (.inr hf2),combine_rOr_fulfilled (.inr (h2.fulfilled hf2))]
   exact ⟨_,resumes_decided (.inr rfl) (.refl _) fun s hs=>by cases hs⟩
 by_cases hs:deadlineStamp r1=none ∨ deadlineStamp r2=none
 · rw [combine_rOr_waits hr1 (by simpa using hf2) hs]
   refine ⟨_,resumes_waits h1 h2 (by simp [hv1]) fun s hstamp=>?_⟩
   by_cases hs' : deadlineStamp v1' = none ∨ deadlineStamp v2' = none
   · -- ROR comes to a deadline only where both operands do
     exfalso
     by_cases hf:fulfilView v1' = true ∨ fulfilView v2' = true
     · rw [combine_rOr_fulfilled hf] at hstamp
       cases hstamp
     · rw [not_or,Bool.not_eq_true,Bool.not_eq_true] at hf
       rw [combine_rOr_waits hf.1 hf.2 hs'] at hstamp
       cases hstamp
   · obtain ⟨s1,s2,hs1,hs2⟩:=eq_none_or_eq_some hs'
     rw [combine_deadlines hs1 hs2] at hstamp
     simp only at hstamp
     rcases hs with hs | hs
     · have hlo:=h1.later_of_rOr hs hs1
       split at hstamp
       · next hle=>
         rw [hs2] at hstamp
         linarith [Option.some.inj hstamp]
       · rw [hs1] at hstamp
         linarith [Option.some.inj hstamp]
     · have hlo:=h2.later_of_rOr hs hs2
       split at hstamp
       · rw [hs2] at hstamp
         linarith [Option.some.inj hstamp]
       · next hlt=>
         rw [hs1] at hstamp
         linarith [Option.some.inj hstamp,not_le.1 hlt]
 · obtain ⟨s1,s2,hs1,hs2⟩:=eq_none_or_eq_some hs
   have hb1:=status_of_deadlineStamp hs1
   have hb2:=status_of_deadlineStamp hs2
   have hb:status (combine env .valROr r1 r2) = .breached:=by
    rw [combine_deadlines hs1 hs2]
    simp only
    split <;> assumption
   refine ⟨_,resumes_decided (.inl hb) ?_ fun s hstamp=>?_⟩
   · exact combine_similar env .valROr (h1.eq_of_breached hb1 ▸ h1.similar)
      (h2.eq_of_breached hb2 ▸ h2.similar)
   · rcases deadlineStamp_combine hstamp with hstamp | hstamp
     · exact h1.early s hstamp
     · exact h2.early s hstamp

/-- The first operand of ROR is fulfilled by the rest of the events, if not the second before. -/
theorem resumes_rOr_fulfilled (h1:Resumes host printer t2 es2 hi lo v1 r1 v1')
  (hv1:fulfilView v1=true) (hr1:fulfilView r1=false) :
  ∃ v', Resumes host printer t2 es2 hi lo valFulfilled (combine env .valROr r1 r2) v' := by
 have hv1' : fulfilView v1' = true:=h1.similar.fulfilView_eq ▸ hv1
 have hs1:deadlineStamp r1=none:=by
  cases hs1:deadlineStamp r1 with
  | none=>rfl
  | some s=>
   rw [h1.eq_of_breached (status_of_deadlineStamp hs1),hr1] at hv1'
   cases hv1'
 by_cases hf2:fulfilView r2=true
 · rw [combine_rOr_fulfilled (.inr hf2)]
   exact ⟨_,resumes_decided (.inr rfl) (.refl _) fun s hs=>by cases hs⟩
 · rw [combine_rOr_waits hr1 (by simpa using hf2) (.inl hs1)]
   refine ⟨valFulfilled, ?_,.refl _,fun s hs=>(by cases hs),fun _ s hs=>(by cases hs)⟩
   exact .rOrFulfilled env _ _ t2 es2 r1 v1' rfl h1.applied hv1'

end Operators

theorem Timely.left {clock:ℚ} {env:Env Closure} {op:RBinOp} {l r:MaybeEvaluated Closure}
  (h:Timely clock (.valROp env op l r))
  (hc:HasValue host printer env l c) (hl:IsOperand l c) : Timely clock c := by
 cases l with
 | inl e=>exact Fresh.timely hl clock
 | inr a=>
  obtain rfl : a=c:=hc
  cases h with
  | other v h hr=>exact absurd rfl (hr _ _ _ _)
  | breached v s h=>cases h
  | rOp env op l r hl hr=>exact hl a rfl

theorem Timely.right {clock:ℚ} {env:Env Closure} {op:RBinOp} {l r:MaybeEvaluated Closure}
  (h:Timely clock (.valROp env op l r))
  (hc:HasValue host printer env r c) (hr:IsOperand r c) : Timely clock c := by
 cases r with
 | inl e=>exact Fresh.timely hr clock
 | inr a=>
  obtain rfl : a=c:=hc
  cases h with
  | other v h hr=>exact absurd rfl (hr _ _ _ _)
  | breached v s h=>cases h
  | rOp env op l r hl hr=>exact hr a rfl

theorem Contractual.not_function
  (h:Contractual host printer c t es v) : isFunction c=false := by
 cases h with
 | fulfilled c t es h=>
  cases c with
  | valConstructor=>rfl
  | _=>cases h
 | _=>rfl

theorem applied_resumes {t2 es2:Closure} {hi lo:ℚ} {l2:List Closure}
  (ht2:IsTime host printer t2 hi) (hes2:IsEvents host printer es2 l2) (hle:hi ≤ lo)
  (hlo:∀ e ∈ l2, ∀ q, HappensAt host printer e q → lo ≤ q) {r:Value Closure}
  {es1:Closure} (h:Applied host printer c t es1 r) :
  ∀ {es12:Closure} {v:Value Closure} {l1:List Closure} {clock:ℚ},
   IsEvents host printer es1 l1 → IsEvents host printer es12 (l1 ++ l2) →
   IsTime host printer t clock → Elapses host printer clock l1 hi → Timely clock c →
   Contractual host printer c t es12 v → ∃ v', Resumes host printer t2 es2 hi lo v r v' := by
 induction h with
 | fulfilled c t es hf=>
  intro es12 v l1 clock hl1 hl12 ht hel htimely hfull
  obtain rfl:=applied_unique hfull.applied (.fulfilled c t es12 hf)
  exact ⟨_,resumes_decided (.inr rfl) (.refl _) fun s hs=>by cases hs⟩
 | breached reason t es=>
  intro es12 v l1 clock hl1 hl12 ht hel htimely hfull
  obtain rfl:=applied_unique hfull.applied (.breached reason t es12)
  refine ⟨_,resumes_decided (.inl rfl) (.refl _) fun s hs=>?_⟩
  cases htimely with
  | other v h hr=>
   rw [h] at hs
   cases hs
  | breached v s' h hs' =>
   obtain rfl:=Option.some.inj (hs.symm.trans h)
   exact hs'.trans hel.le
 | ended o t es hes=>
  intro es12 v l1 clock hl1 hl12 ht hel htimely hfull
  cases hl1 with
  | cons es e es' l h hl=>cases evaluates_unique h hes
  | nil es h=>
   cases hel with
   | nil=>
    refine ⟨v,hfull.congr hl12 hes2 fun w hw=>?_,.refl v,fun s hs=>(by cases hs), ?_⟩
    · obtain rfl:=evaluates_unique ht hw
      exact ht2
    · intro _ s hs
      obtain ⟨e,he,hat⟩:=hfull.stamp_mem hl12 (fresh_obligation o) hs
      exact hlo e he s hat
 | stays o t es e es' stampVal party due' r hes he hrest ih=>
  intro es12 v l1 clock hl1 hl12 ht hel htimely hfull
  obtain ⟨l1', rfl,hl1'⟩:=hl1.tail hes
  obtain ⟨es12', hes12,hl12'⟩:=hl12.head
  cases hel with
  | cons q q' q'' e l hat hq hel' =>
   obtain rfl:=scrutinised_stamp he hat
   rcases contractual_cons hfull hes12 he with
    ⟨party', due2,heq,hv⟩ | ⟨env,followup,c,heq,-⟩ | ⟨reason,heq,-⟩
   · obtain ⟨rfl,rfl⟩:=Outcome.stays.inj heq
     exact ih hl1' hl12' (isTime_whnf q') hel' ((fresh_obligation _).timely q') hv
   · cases heq
   · cases heq
 | moves o t es e es' stampVal env followup c r hes he hc hrest ih=>
  intro es12 v l1 clock hl1 hl12 ht hel htimely hfull
  obtain ⟨l1', rfl,hl1'⟩:=hl1.tail hes
  obtain ⟨es12', hes12,hl12'⟩:=hl12.head
  cases hel with
  | cons q q' q'' e l hat hq hel' =>
   obtain rfl:=scrutinised_stamp he hat
   rcases contractual_cons hfull hes12 he with
    ⟨party', due2,heq,-⟩ | ⟨env', followup', c', heq,hfresh,hc', hv⟩ | ⟨reason,heq,-⟩
   · cases heq
   · obtain ⟨rfl,rfl⟩:=Outcome.moves.inj heq
     obtain rfl:=evaluates_unique hc hc'
     exact ih hl1' hl12' (isTime_whnf q') hel' (hfresh.timely q') hv
   · cases heq
 | breaches o t es e es' stampVal reason hes he=>
  intro es12 v l1 clock hl1 hl12 ht hel htimely hfull
  obtain ⟨l1', rfl,hl1'⟩:=hl1.tail hes
  obtain ⟨es12', hes12,hl12'⟩:=hl12.head
  cases hel with
  | cons q q' q'' e l hat hq hel' =>
   rcases contractual_cons hfull hes12 he with
    ⟨party', due2,heq,-⟩ | ⟨env', followup', c', heq,-⟩ | ⟨reason', heq,rfl⟩
   · cases heq
   · cases heq
   · obtain rfl:=Outcome.breaches.inj heq
     refine ⟨_,resumes_decided (.inl rfl) (.refl _) fun s hs=>?_⟩
     rw [happensAt_unique (scrutinised_breach he hs) hat]
     exact hel'.le
 | rOrFulfilled env l r t es c1 r1 h1 hr1 hf ih=>
  intro es12 v l1 clock hl1 hl12 ht hel htimely hfull
  rcases contractual_rOp hfull with
   ⟨-,rfl,c1', v1,h1', hl1', hv1,hfv1⟩ | ⟨c1', v1,c2,v2,rfl,h1', hl1', hv1,hop,-⟩
  · exact ⟨_,resumes_decided (.inr rfl) (.refl _) fun s hs=>by cases hs⟩
  · obtain rfl:=hasValue_unique h1 h1'
    obtain ⟨v1', hres⟩:=ih hl1 hl12 ht hel (htimely.left h1' hl1') hv1
    exact absurd ⟨rfl,hres.fulfilled hf⟩ hop
 | rOp env op l r t es c1 r1 c2 r2 h1 hr1 hop h2 hr2 ih1 ih2=>
  intro es12 v l1 clock hl1 hl12 ht hel htimely hfull
  rcases contractual_rOp hfull with ⟨rfl,rfl,c1', v1,h1', hl1', hv1,hfv1⟩ |
   ⟨c1', v1,c2', v2,rfl,h1', hl1', hv1,hop', h2', hl2', hv2,hexplicit⟩
  · obtain rfl:=hasValue_unique h1 h1'
    obtain ⟨v1', hres1⟩:=ih1 hl1 hl12 ht hel (htimely.left h1' hl1') hv1
    have hr1:fulfilView r1=false:=by simpa using hop
    exact resumes_rOr_fulfilled hres1 hfv1 hr1
  · obtain rfl:=hasValue_unique h1 h1'
    obtain rfl:=hasValue_unique h2 h2'
    obtain ⟨v1', hres1⟩:=ih1 hl1 hl12 ht hel (htimely.left h1' hl1') hv1
    obtain ⟨v2', hres2⟩:=ih2 hl1 hl12 ht hel (htimely.right h2' hl2') hv2
    cases op with
    | valRAnd=>
     obtain ⟨hx1,hx2⟩:=hexplicit rfl
     exact resumes_rAnd hle hres1 hres2 hx1 hx2
    | valROr=>exact resumes_rOr hres1 hres2 (by simpa using hop') (by simpa using hop)
 | function c r t es hfun hr=>
  intro es12 v l1 clock hl1 hl12 ht hel htimely hfull
  rw [hfull.not_function] at hfun
  cases hfun

theorem Elapses.stamp_le
  (h:Elapses host printer q l q') (he:e ∈ l) (hs:HappensAt host printer e s) : q ≤ s := by
 induction h with
 | nil q=>cases he
 | cons q q1 q2 e1 l hat hq hl ih=>
  rcases List.mem_cons.1 he with rfl | he
  · rwa [happensAt_unique hs hat]
  · exact hq.trans (ih he)

/-- The first of the events happens at the time. -/
def StartsAt (host:Host) (printer:Printer) (q:ℚ) (l:List Closure) : Prop :=
 ∃ e l', l=e::l' ∧ HappensAt host printer e q

section Tie

def truth : Env Closure := [(Environment.trueUnique,.whnf trueVal)]

def action : Resolved := .def_ ⟨'x', 0,""⟩ ⟨.normalName "x"⟩

def prohibition (party:String) (due:ℚ) : RExpr :=
 .regulative (.mkDeonton (.lit (.stringLit party)) (.mkAction .dMustNot (.patVar action) none)
  (some (.lit (.numericLit due))) none none)

def duty (party:String) (due:ℚ) : RExpr :=
 .regulative (.mkDeonton (.lit (.stringLit party)) (.mkAction .dMust (.patVar action) none)
  (some (.lit (.numericLit due))) none none)

def tieContract : Value Closure :=
 .valROp truth .valRAnd (.inl (prohibition "A" 10)) (.inl (duty "B" 3))

def eventAt (party:String) (stamp:ℚ) : Closure :=
 .whnf (valEvent (.whnf (.valString party)) (.whnf .valNil) (.whnf (.valNumber stamp)))

def eventList : List Closure → Closure
 | []=>.whnf .valNil
 | e::es=>.whnf (.valCons e (eventList es))

theorem isEvents_eventList (l:List Closure) : IsEvents default default (eventList l) l := by
 induction l with
 | nil=>exact .nil _ (.single rfl)
 | cons e l ih=>exact .cons _ e _ l (.single rfl) ih

theorem happensAt_eventAt (party:String) (stamp:ℚ) :
  HappensAt default default (eventAt party stamp) stamp :=
 ⟨_,_,_,_,.single rfl,rfl,.single rfl⟩

def obligation (modal:DeonticModal) (party:MaybeEvaluated Closure)
  (due:MaybeEvaluated' (Option RExpr) Closure) : Obligation where
 env:=truth
 party:=party
 act:=.mkAction modal (.patVar action) none
 due:=due
 followup:=fulfilExpr
 lest:=none

def reading (party:String) (stamp now:ℚ) : EventRead :=
 ⟨.whnf (.valString party),.whnf .valNil,.valNumber stamp,.valNumber now⟩

theorem compares_strings (s1 s2:String) :
  Compares default default (.valString s1) (.valString s2) (s1 == s2) := by
 refine ⟨_,[],valBool (s1 == s2),rfl,.refl, ?_⟩
 cases s1 == s2 <;> rfl

theorem reads_eventAt (party:String) (stamp now:ℚ) :
  Reads default default (.whnf (.valNumber now)) (eventAt party stamp)
   (reading party stamp now) :=
 ⟨_,_,.single rfl,rfl,.single rfl,.single rfl⟩

theorem passes_obligation {modal:DeonticModal} {party:MaybeEvaluated Closure}
  {due:MaybeEvaluated' (Option RExpr) Closure} {p q:String} (stamp now:ℚ)
  (hp:HasValue default default truth party (.valString p)) (hpq:(p == q)=false) :
  Passes default default (obligation modal party due) (reading q stamp now) (.valString p) :=
 ⟨hp,.valString q,.single rfl,.inl (hpq ▸ compares_strings p q)⟩

theorem performs_obligation {modal:DeonticModal} {party:MaybeEvaluated Closure}
  {due:MaybeEvaluated' (Option RExpr) Closure} {p:String} (stamp now:ℚ)
  (hp:HasValue default default truth party (.valString p)) :
  Performs default default (obligation modal party due) (reading p stamp now) (.valString p)
   (.valString p) [(action.getUnique,.whnf .valNil)] := by
 have hcompares:=compares_strings p p
 rw [beq_self_eq_true] at hcompares
 refine ⟨hp,.single rfl,hcompares,.single rfl,trueVal, ?_,rfl⟩
 exact .head rfl (.head rfl .refl)

def prohibitionA : Obligation :=
 obligation .dMustNot (.inl (.lit (.stringLit "A"))) (.inl (some (.lit (.numericLit 10))))

def prohibitionLeft : Obligation :=
 obligation .dMustNot (.inr (.valString "A")) (.inr (.valNumber (10-(5-0))))

def dutyB : Obligation :=
 obligation .dMust (.inl (.lit (.stringLit "B"))) (.inl (some (.lit (.numericLit 3))))

theorem hasValue_prohibitionA :
  HasValue default default truth (.inl (prohibition "A" 10)) prohibitionA.toValue :=
 .single rfl

theorem hasValue_dutyB : HasValue default default truth (.inl (duty "B" 3)) dutyB.toValue :=
 .single rfl

def tieEvents : List Closure := [eventAt "B" 5,eventAt "A" 5]

def breachOf (party:Closure) (evParty:String) (modal:DeonticModal) (deadline:ℚ) :
  Value Closure :=
 .valBreached (.deadlineMissed (.whnf (.valString evParty)) (.whnf .valNil) 5 party
  (.mkAction modal (.patVar action) none) deadline)

theorem prohibition_passes : Scrutinised default default prohibitionA
  (.whnf (.valNumber 0)) (eventAt "B" 5) (.valNumber 5)
  (.stays (.valString "A") (.inr (.valNumber (10-(5-0))))) :=
 .passes (reading "B" 5 0) _ _ (reads_eventAt "B" 5 0)
  (.due 10 5 0 (.single rfl) rfl rfl (by norm_num)) (passes_obligation 5 0 (.single rfl) (by decide))

theorem prohibition_performed : Scrutinised default default prohibitionLeft
  (.whnf (.valNumber 5)) (eventAt "A" 5) (.valNumber 5)
  (.breaches (.deadlineMissed (.whnf (.valString "A")) (.whnf .valNil) 5 (.whnf (.valString "A"))
   (.mkAction .dMustNot (.patVar action) none) 5)) :=
 .performs (reading "A" 5 5) _ _ _ _ _ (reads_eventAt "A" 5 5)
  (.due (10-(5-0)) 5 5 rfl rfl rfl (by norm_num)) (performs_obligation 5 5 rfl) rfl

theorem duty_late : Scrutinised default default dutyB
  (.whnf (.valNumber 0)) (eventAt "B" 5) (.valNumber 5)
  (.breaches (.deadlineMissed (.whnf (.valString "B")) (.whnf .valNil) 5
   (.suspended (.lit (.stringLit "B")) truth) (.mkAction .dMust (.patVar action) none) (0+3))) :=
 .late (reading "B" 5 0) 3 5 0 _ (reads_eventAt "B" 5 0) (.single rfl) rfl rfl (by norm_num) rfl

theorem prohibition_run : Contractual default default prohibitionA.toValue
  (.whnf (.valNumber 0)) (eventList tieEvents)
  (breachOf (.whnf (.valString "A")) "A" .dMustNot 5) :=
 .stays _ _ _ _ (eventList [eventAt "A" 5]) _ _ _ _ (.single rfl) prohibition_passes
  (.breaches _ _ _ _ (eventList []) _ _ (.single rfl) prohibition_performed)

theorem duty_run (l:List Closure) : Contractual default default dutyB.toValue
  (.whnf (.valNumber 0)) (eventList (eventAt "B" 5::l))
  (breachOf (.suspended (.lit (.stringLit "B")) truth) "B" .dMust (0+3)) :=
 .breaches _ _ _ _ (eventList l) _ _ (.single rfl) duty_late

theorem combine_tie : combine truth .valRAnd
  (breachOf (.whnf (.valString "A")) "A" .dMustNot 5)
  (breachOf (.suspended (.lit (.stringLit "B")) truth) "B" .dMust (0+3)) =
  breachOf (.whnf (.valString "A")) "A" .dMustNot 5 := by
 rw [breachOf,breachOf,combine_deadlines rfl rfl]
 simp only [le_refl,if_true]

theorem tie_run : Contractual default default tieContract (.whnf (.valNumber 0))
  (eventList tieEvents) (breachOf (.whnf (.valString "A")) "A" .dMustNot 5) := by
 have hrun:=Contractual.rOp truth .valRAnd _ _ (.whnf (.valNumber 0)) (eventList tieEvents)
  _ _ _ _ hasValue_prohibitionA (fresh_obligation prohibitionA) prohibition_run (by simp)
  hasValue_dutyB (fresh_obligation dutyB) (duty_run [eventAt "A" 5]) fun _=>⟨rfl,rfl⟩
 rwa [combine_tie] at hrun

theorem tie_first : Applies default default tieContract (.whnf (.valNumber 0))
  (eventList [eventAt "B" 5])
  (breachOf (.suspended (.lit (.stringLit "B")) truth) "B" .dMust (0+3)) := by
 rw [applies_iff]
 have hfirst:Applied default default prohibitionA.toValue (.whnf (.valNumber 0))
   (eventList [eventAt "B" 5]) prohibitionLeft.toValue :=
  .stays _ _ _ _ (eventList []) _ _ _ _ (.single rfl) prohibition_passes
   (.ended prohibitionLeft _ _ (.single rfl))
 have hrun:=Applied.rOp truth .valRAnd _ _ (.whnf (.valNumber 0))
  (eventList [eventAt "B" 5]) _ _ _ _ hasValue_prohibitionA hfirst (by simp) hasValue_dutyB
  (duty_run []).applied
 rwa [combine_rAnd_right (by decide) rfl] at hrun

theorem tie_elapses (stamp:ℚ) (party:String) (l:List Closure) (q finish:ℚ)
  (hq:q ≤ stamp) (hl:Elapses default default stamp l finish) :
  Elapses default default q (eventAt party stamp::l) finish :=
 .cons q stamp finish _ l (happensAt_eventAt party stamp) hq hl

end Tie

end L4Ide.Residuation
