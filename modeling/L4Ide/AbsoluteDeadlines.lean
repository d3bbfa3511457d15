import L4Ide.ContractInversion

set_option autoImplicit false

/-!
# Deadlines of obligations

An obligation keeps a clock and the time within which it is due, and moves both with every
event it passes over. What it comes to is told here by the deadline alone, which stays.
-/
namespace L4Ide.AbsoluteDeadlines
open Syntax ValueLazy Machine MachineLocality CallByName StateTransition
open DeterministicRuns ContractRuns ContractInversion

variable (host:Host) (printer:Printer)

/-- The reference stands for the number. -/
def IsTime (t:Closure) (q:ℚ) : Prop :=
 Evaluates host printer (.evalRefMachine t) (.valNumber q)

def Continues (env:Env Closure) (e:RExpr) (stamp:ℚ) (es:Closure) (v:Value Closure) :
  Prop :=
 ∃ c, Evaluates host printer (.forwardMachine env e) c ∧
  Applies host printer c (.whnf (.valNumber stamp)) es v

/-- The action in time: HENCE for a duty or a permission, LEST or a breach for a prohibition. -/
inductive OnPerformance (o:Obligation) (party evParty:Value Closure) (evAct:Closure)
  (stamp:ℚ) (henceEnv:Env Closure) (es:Closure) : Value Closure → Prop where
 | hence (v:Value Closure) (hm:o.act.modal = .dMust ∨ o.act.modal = .dDo ∨ o.act.modal = .dMay)
   (hv:Continues host printer (o.env ++ henceEnv) o.followup stamp es v) :
   OnPerformance o party evParty evAct stamp henceEnv es v
 | lest (v:Value Closure) (lest:RExpr) (hm:o.act.modal = .dMustNot)
   (hl:o.lest=some lest) (hv:Continues host printer (o.env ++ henceEnv) lest stamp es v) :
   OnPerformance o party evParty evAct stamp henceEnv es v
 | breach (hm:o.act.modal = .dMustNot) (hl:o.lest=none) :
   OnPerformance o party evParty evAct stamp henceEnv es
    (.valBreached (.deadlineMissed (.whnf evParty) evAct stamp (.whnf party) o.act stamp))

/-- The deadline passes: LEST or a breach by the party for a duty, HENCE otherwise. -/
inductive OnExpiry (o:Obligation) (evParty evAct:Closure) (stamp deadline:ℚ)
  (es:Closure) : Value Closure → Prop where
 | hence (v:Value Closure) (hm:o.act.modal = .dMustNot ∨ o.act.modal = .dMay)
   (hv:Continues host printer o.env o.followup stamp es v) :
   OnExpiry o evParty evAct stamp deadline es v
 | lest (v:Value Closure) (lest:RExpr) (hm:o.act.modal = .dMust ∨ o.act.modal = .dDo)
   (hl:o.lest=some lest) (hv:Continues host printer o.env lest stamp es v) :
   OnExpiry o evParty evAct stamp deadline es v
 | breach (party:Closure) (hm:o.act.modal = .dMust ∨ o.act.modal = .dDo) (hl:o.lest=none)
   (hp:partyClosure o.env o.party=some party) :
   OnExpiry o evParty evAct stamp deadline es
    (.valBreached (.deadlineMissed evParty evAct stamp party o.act deadline))

/-- After an event at the stamp that it passes over. -/
def Obligation.after (o:Obligation) (party:Value Closure) (deadline stamp:ℚ) : Obligation :=
 { o with party:=.inr party,due:=.inr (.valNumber (deadline-stamp)) }

/-- What an obligation comes to by the deadline. -/
inductive Follows (deadline:ℚ) : Obligation → Closure → Closure → Value Closure → Prop where
 | ended (o:Obligation) (t es:Closure)
   (hes:Evaluates host printer (.evalRefMachine es) .valNil) :
   Follows deadline o t es o.toValue
 | other (o:Obligation) (t es e es' : Closure) (ev:EventRead) (stamp:ℚ)
   (party v:Value Closure) (hes:Evaluates host printer (.evalRefMachine es) (.valCons e es'))
   (hev:Reads host printer t e ev) (hs:ev.stampVal = .valNumber stamp)
   (hin:stamp ≤ deadline) (hp:Passes host printer o ev party)
   (hv:Follows deadline (Obligation.after o party deadline stamp)
    (.whnf (.valNumber stamp)) es' v) : Follows deadline o t es v
 | performed (o:Obligation) (t es e es' : Closure) (ev:EventRead) (stamp:ℚ)
   (party evParty:Value Closure) (henceEnv:Env Closure) (v:Value Closure)
   (hes:Evaluates host printer (.evalRefMachine es) (.valCons e es'))
   (hev:Reads host printer t e ev) (hs:ev.stampVal = .valNumber stamp)
   (hin:stamp ≤ deadline) (hp:Performs host printer o ev party evParty henceEnv)
   (hv:OnPerformance host printer o party evParty ev.evAct stamp henceEnv es' v) :
   Follows deadline o t es v
 | expired (o:Obligation) (t es e es' : Closure) (ev:EventRead) (stamp:ℚ)
   (v:Value Closure) (hes:Evaluates host printer (.evalRefMachine es) (.valCons e es'))
   (hev:Reads host printer t e ev) (hs:ev.stampVal = .valNumber stamp)
   (hlate:deadline < stamp)
   (hv:OnExpiry host printer o ev.evParty ev.evAct stamp deadline es' v) :
   Follows deadline o t es v

variable {host printer}

variable {v:Value Closure} {o:Obligation} {t e es:Closure} {ev:EventRead}

theorem evaluates_unique {c:Config Closure} {v' : Value Closure}
  (h:Evaluates host printer c v) (h' : Evaluates host printer c v') : v=v' := by
 have hdone:=reaches_end_unique (h.tail rfl : Goes host printer _ (delivered v))
  (h'.tail rfl : Goes host printer _ (delivered v')) rfl rfl
 exact Config.doneMachine.inj (congrArg Prod.fst hdone)

theorem isTime_whnf (q:ℚ) : IsTime host printer (.whnf (.valNumber q)) q := .single rfl

theorem isDue_unique {d d' : ℚ} (h:IsDue host printer o d)
  (h' : IsDue host printer o d') : d=d' := by
 obtain ⟨env,party,act,due,followup,lest⟩:=o
 cases due with
 | inr v=>exact Value.valNumber.inj (Eq.trans (Eq.symm h) h')
 | inl due=>
  cases due with
  | none=>exact h.elim
  | some e=>exact Value.valNumber.inj (evaluates_unique h h')

theorem reads_time {q q' : ℚ} (h:Reads host printer t e ev)
  (ht:IsTime host printer t q) (hq:ev.timeVal = .valNumber q') : q' = q := by
 obtain ⟨v,evTime,-,-,-,htime⟩:=h
 rw [hq] at htime
 exact Value.valNumber.inj (evaluates_unique htime ht)

structure Running (host:Host) (printer:Printer) (deadline:ℚ) (o:Obligation)
  (t:Closure) (clock:ℚ) : Prop where
 time : IsTime host printer t clock
 due : IsDue host printer o (deadline-clock)

theorem Running.after (o:Obligation) (party:Value Closure) (deadline stamp:ℚ) :
  Running host printer deadline (Obligation.after o party deadline stamp)
   (.whnf (.valNumber stamp)) stamp :=
 ⟨isTime_whnf stamp,rfl⟩

theorem Running.inTime_iff {deadline clock:ℚ}
  (h:Running host printer deadline o t clock) (hev:Reads host printer t e ev)
  {due' : MaybeEvaluated' (Option RExpr) Closure} :
  InTime host printer o ev due' ↔ ∃ stamp, ev.stampVal = .valNumber stamp ∧
   ev.timeVal = .valNumber clock ∧ stamp ≤ deadline ∧
   due' = .inr (.valNumber (deadline-stamp)) := by
 constructor
 · intro hin
   cases hin with
   | noDue hnone=>
    have hd:=h.due
    unfold IsDue at hd
    rw [hnone] at hd
    exact hd.elim
   | due d stamp q hd hs ht hle=>
    have hd' : d=deadline-clock:=isDue_unique hd h.due
    have hq:q=clock:=reads_time hev h.time ht
    subst hd' hq
    refine ⟨stamp,hs,ht,by linarith, ?_⟩
    rw [show deadline-q-(stamp-q)=deadline-stamp by ring]
 · rintro ⟨stamp,hs,ht,hle,rfl⟩
   have hin:InTime host printer o ev
     (.inr (.valNumber (deadline-clock-(stamp-clock)))) :=
    .due (deadline-clock) stamp clock h.due hs ht (by linarith)
   rwa [show deadline-clock-(stamp-clock)=deadline-stamp by ring] at hin

theorem expiry_of_duty {evParty evAct:Closure} {stamp deadline:ℚ}
  {out:Outcome} (hm:o.act.modal = .dMust ∨ o.act.modal = .dDo)
  (hout:(match o.lest with
   | some lestFollowup=>some (Outcome.moves o.env lestFollowup)
   | none=>(partyClosure o.env o.party).map fun party=>
    .breaches (.deadlineMissed evParty evAct stamp party o.act deadline))=some out)
  (hv:(∃ env e, out = .moves env e ∧ Continues host printer env e stamp es v) ∨
   ∃ reason, out = .breaches reason ∧ v = .valBreached reason) :
  OnExpiry host printer o evParty evAct stamp deadline es v := by
 cases hl:o.lest with
 | some lest=>
  simp only [hl] at hout
  obtain rfl:=Option.some.inj hout
  rcases hv with ⟨env,e,heq,hv⟩ | ⟨reason,heq,-⟩
  · obtain ⟨rfl,rfl⟩:=Outcome.moves.inj heq
    exact .lest v lest hm hl hv
  · cases heq
 | none=>
  simp only [hl] at hout
  obtain ⟨party,hp,rfl⟩:=Option.map_eq_some_iff.1 hout
  rcases hv with ⟨env,e,heq,-⟩ | ⟨reason,heq,rfl⟩
  · cases heq
  · obtain rfl:=Outcome.breaches.inj heq
    exact .breach party hm hl hp

theorem lateOutcome_expiry {evParty evAct:Closure} {stamp deadline:ℚ}
  :
  OnExpiry host printer o evParty evAct stamp deadline es v ↔
   ∃ out, lateOutcome o evParty evAct stamp deadline=some out ∧
    ((∃ env e, out = .moves env e ∧ Continues host printer env e stamp es v) ∨
     ∃ reason, out = .breaches reason ∧ v = .valBreached reason) := by
 constructor
 · intro h
   cases h with
   | hence v hm hv=>
    refine ⟨.moves o.env o.followup, ?_,.inl ⟨_,_,rfl,hv⟩⟩
    rcases hm with hm | hm <;> simp only [lateOutcome,hm]
   | lest v lest hm hl hv=>
    refine ⟨.moves o.env lest, ?_,.inl ⟨_,_,rfl,hv⟩⟩
    rcases hm with hm | hm <;> simp only [lateOutcome,hm,hl]
   | breach party hm hl hp=>
    refine ⟨_, ?_,.inr ⟨_,rfl,rfl⟩⟩
    rcases hm with hm | hm <;> simp only [lateOutcome,hm,hl,hp] <;> rfl
 · rintro ⟨out,hout,hv⟩
   unfold lateOutcome at hout
   have hfree:∀ (hm:o.act.modal = .dMustNot ∨ o.act.modal = .dMay),
     some (Outcome.moves o.env o.followup)=some out →
     OnExpiry host printer o evParty evAct stamp deadline es v := by
    intro hm hout
    obtain rfl:=Option.some.inj hout
    rcases hv with ⟨env,e,heq,hv⟩ | ⟨reason,heq,-⟩
    · obtain ⟨rfl,rfl⟩:=Outcome.moves.inj heq
      exact .hence v hm hv
    · cases heq
   cases hm:o.act.modal with
   | dMustNot=>exact hfree (.inl hm) (by rwa [hm] at hout)
   | dMay=>exact hfree (.inr hm) (by rwa [hm] at hout)
   | dMust=>exact expiry_of_duty (.inl hm) (by rwa [hm] at hout) hv
   | dDo=>exact expiry_of_duty (.inr hm) (by rwa [hm] at hout) hv

theorem performedOutcome_performance {party evParty:Value Closure}
  {evAct:Closure} {stamp:ℚ} {henceEnv:Env Closure} :
  OnPerformance host printer o party evParty evAct stamp henceEnv es v ↔
   ∃ out, performedOutcome o party evParty evAct (.valNumber stamp) henceEnv=some out ∧
    ((∃ env e, out = .moves env e ∧ Continues host printer env e stamp es v) ∨
     ∃ reason, out = .breaches reason ∧ v = .valBreached reason) := by
 constructor
 · intro h
   cases h with
   | hence v hm hv=>
    refine ⟨.moves (o.env ++ henceEnv) o.followup, ?_,.inl ⟨_,_,rfl,hv⟩⟩
    rcases hm with hm | hm | hm <;> simp only [performedOutcome,hm]
   | lest v lest hm hl hv=>
    refine ⟨.moves (o.env ++ henceEnv) lest, ?_,.inl ⟨_,_,rfl,hv⟩⟩
    simp only [performedOutcome,hm,hl]
   | breach hm hl=>
    refine ⟨_, ?_,.inr ⟨_,rfl,rfl⟩⟩
    simp only [performedOutcome,hm,hl]
 · rintro ⟨out,hout,hv⟩
   unfold performedOutcome at hout
   have hduty:∀ (hm:o.act.modal = .dMust ∨ o.act.modal = .dDo ∨ o.act.modal = .dMay),
     some (Outcome.moves (o.env ++ henceEnv) o.followup)=some out →
     OnPerformance host printer o party evParty evAct stamp henceEnv es v := by
    intro hm hout
    obtain rfl:=Option.some.inj hout
    rcases hv with ⟨env,e,heq,hv⟩ | ⟨reason,heq,-⟩
    · obtain ⟨rfl,rfl⟩:=Outcome.moves.inj heq
      exact .hence v hm hv
    · cases heq
   cases hm:o.act.modal with
   | dMust=>exact hduty (.inl hm) (by rwa [hm] at hout)
   | dDo=>exact hduty (.inr (.inl hm)) (by rwa [hm] at hout)
   | dMay=>exact hduty (.inr (.inr hm)) (by rwa [hm] at hout)
   | dMustNot=>
    rw [hm] at hout
    cases hl:o.lest with
    | some lest=>
     simp only [hl] at hout
     obtain rfl:=Option.some.inj hout
     rcases hv with ⟨env,e,heq,hv⟩ | ⟨reason,heq,-⟩
     · obtain ⟨rfl,rfl⟩:=Outcome.moves.inj heq
       exact .lest v lest hm hl hv
     · cases heq
    | none=>
     simp only [hl] at hout
     obtain rfl:=Option.some.inj hout
     rcases hv with ⟨env,e,heq,-⟩ | ⟨reason,heq,rfl⟩
     · cases heq
     · obtain rfl:=Outcome.breaches.inj heq
       exact .breach hm hl

theorem toValue_inj {o' : Obligation} (h:o.toValue=o'.toValue) : o=o' := by
 obtain ⟨env,party,act,due,followup,lest⟩:=o
 obtain ⟨env', party', act', due', followup', lest'⟩:=o'
 simp only [Obligation.toValue,Value.valObligation.injEq] at h
 simp only [Obligation.mk.injEq]
 exact h

theorem scrutinised_follows {es' : Closure} {stampVal:Value Closure}
  {out:Outcome} {deadline clock:ℚ} (h:Running host printer deadline o t clock)
  (hes:Evaluates host printer (.evalRefMachine es) (.valCons e es'))
  (hs:Scrutinised host printer o t e stampVal out)
  (hstays:∀ party stamp, out = .stays party (.inr (.valNumber (deadline-stamp))) →
   stampVal = .valNumber stamp → Follows host printer deadline
    (Obligation.after o party deadline stamp) (.whnf (.valNumber stamp)) es' v)
  (hmoves:∀ env e, out = .moves env e → ∃ c, Evaluates host printer (.forwardMachine env e) c ∧
   Applies host printer c (.whnf stampVal) es' v)
  (hbreach:∀ reason, out = .breaches reason → v = .valBreached reason) :
  Follows host printer deadline o t es v := by
 have houtcome:∀ stamp, stampVal = .valNumber stamp →
   (∀ party due', out ≠ .stays party due') →
   (∃ env e, out = .moves env e ∧ Continues host printer env e stamp es' v) ∨
    ∃ reason, out = .breaches reason ∧ v = .valBreached reason := by
  intro stamp hstamp hne
  cases out with
  | stays party due' =>exact absurd rfl (hne party due')
  | moves env e=>
   obtain ⟨c,hc,hv⟩:=hmoves env e rfl
   exact .inl ⟨env,e,rfl,c,hc,hstamp ▸ hv⟩
  | breaches reason=>exact .inr ⟨reason,rfl,hbreach reason rfl⟩
 cases hs with
 | late ev d stamp q out hev hd hs ht hlate hout=>
  have hq:=reads_time hev h.time ht
  have hdeadline:q+d=deadline:=by
   have hd' : d=deadline-clock:=isDue_unique hd h.due
   linarith
  rw [hdeadline] at hout hlate
  refine .expired o t es e es' ev stamp v hes hev hs hlate (lateOutcome_expiry.2 ⟨out,hout, ?_⟩)
  refine houtcome stamp hs fun party due' heq=>?_
  subst heq
  unfold lateOutcome at hout
  split at hout <;> try split at hout
  all_goals simp at hout
 | passes ev due' party hev hin hp=>
  obtain ⟨stamp,hs,ht,hle,rfl⟩:=(h.inTime_iff hev).1 hin
  exact .other o t es e es' ev stamp party v hes hev hs hle hp (hstays party stamp rfl hs)
 | performs ev due' party evParty henceEnv out hev hin hp hout=>
  obtain ⟨stamp,hs,ht,hle,rfl⟩:=(h.inTime_iff hev).1 hin
  rw [hs] at hout
  refine .performed o t es e es' ev stamp party evParty henceEnv v hes hev hs hle hp
   (performedOutcome_performance.2 ⟨out,hout,houtcome stamp hs fun party due' heq=>?_⟩)
  subst heq
  unfold performedOutcome at hout
  split at hout <;> try split at hout
  all_goals simp at hout

theorem follows_of_applied {deadline clock:ℚ} (h:Applied host printer o.toValue t es v)
  (hrun:Running host printer deadline o t clock) :
  Follows host printer deadline o t es v := by
 suffices ∀ c t es v, Applied host printer c t es v → ∀ (o:Obligation) clock, c=o.toValue →
   Running host printer deadline o t clock → Follows host printer deadline o t es v from
  this _ _ _ _ h o clock rfl hrun
 intro c t es v happ
 induction happ with
 | fulfilled c t es hf=>
  rintro o clock rfl -
  cases hf
 | breached | rOrFulfilled | rOp=>
  intro o clock heq
  cases heq
 | function c v t es hfun hv=>
  rintro o clock rfl -
  cases hfun
 | ended o t es hes=>
  intro o' clock heq hrun
  obtain rfl:=toValue_inj heq
  exact .ended o t es hes
 | stays o t es e es' stampVal party due' v hes he hrest ih=>
  intro o' clock heq hrun
  obtain rfl:=toValue_inj heq
  refine scrutinised_follows hrun hes he (fun party' stamp hout hs=>?_)
   (fun env e hout=>by cases hout) fun reason hout=>by cases hout
  obtain ⟨rfl,rfl⟩:=Outcome.stays.inj hout
  subst hs
  exact ih _ stamp rfl (Running.after o party deadline stamp)
 | moves o t es e es' stampVal env followup c v hes he hc hrest ih=>
  intro o' clock heq hrun
  obtain rfl:=toValue_inj heq
  refine scrutinised_follows hrun hes he (fun party stamp hout=>by cases hout)
   (fun env' e' hout=>?_) fun reason hout=>by cases hout
  obtain ⟨rfl,rfl⟩:=Outcome.moves.inj hout
  exact ⟨c,hc,(applies_iff _ _ _ _).2 hrest⟩
 | breaches o t es e es' stampVal reason hes he=>
  intro o' clock heq hrun
  obtain rfl:=toValue_inj heq
  refine scrutinised_follows hrun hes he (fun party stamp hout=>by cases hout)
   (fun env' e' hout=>by cases hout) fun reason' hout=>?_
  obtain rfl:=Outcome.breaches.inj hout
  rfl

theorem applied_of_outcome {es' : Closure} {out:Outcome} {stamp:ℚ}
  (hes:Evaluates host printer (.evalRefMachine es) (.valCons e es'))
  (hs:Scrutinised host printer o t e (.valNumber stamp) out)
  (hv:(∃ env e, out = .moves env e ∧ Continues host printer env e stamp es' v) ∨
   ∃ reason, out = .breaches reason ∧ v = .valBreached reason) :
  Applied host printer o.toValue t es v := by
 rcases hv with ⟨env,followup,rfl,c,hc,hv⟩ | ⟨reason,rfl,rfl⟩
 · exact .moves o t es e es' _ env followup c v hes hs hc ((applies_iff _ _ _ _).1 hv)
 · exact .breaches o t es e es' _ reason hes hs

theorem applied_of_follows {deadline clock:ℚ} (h:Follows host printer deadline o t es v)
  (hrun:Running host printer deadline o t clock) :
  Applied host printer o.toValue t es v := by
 induction h generalizing clock with
 | ended o t es hes=>exact .ended o t es hes
 | other o t es e es' ev stamp party v hes hev hs hin hp hv ih=>
  obtain ⟨-,-,-,-,-,htime⟩:=id hev
  have hclock:ev.timeVal = .valNumber clock:=evaluates_unique htime hrun.time
  have hpass:=Scrutinised.passes ev _ party hev
   ((hrun.inTime_iff hev).2 ⟨stamp,hs,hclock,hin,rfl⟩) hp
  rw [hs] at hpass
  exact .stays o t es e es' _ party _ v hes hpass (ih (Running.after o party deadline stamp))
 | performed o t es e es' ev stamp party evParty henceEnv v hes hev hs hin hp hv=>
  obtain ⟨-,-,-,-,-,htime⟩:=id hev
  have hclock:ev.timeVal = .valNumber clock:=evaluates_unique htime hrun.time
  obtain ⟨out,hout,hv⟩:=performedOutcome_performance.1 hv
  have hperf:=Scrutinised.performs ev _ party evParty henceEnv out hev
   ((hrun.inTime_iff hev).2 ⟨stamp,hs,hclock,hin,rfl⟩) hp (hs.symm ▸ hout)
  rw [hs] at hperf
  exact applied_of_outcome hes hperf hv
 | expired o t es e es' ev stamp v hes hev hs hlate hv=>
  obtain ⟨-,-,-,-,-,htime⟩:=id hev
  have hclock:ev.timeVal = .valNumber clock:=evaluates_unique htime hrun.time
  have hdeadline:clock+(deadline-clock)=deadline:=by ring
  obtain ⟨out,hout,hv⟩:=lateOutcome_expiry.1 hv
  have hexp:=Scrutinised.late ev (deadline-clock) stamp clock out hev hrun.due hs hclock
   (hdeadline.symm ▸ hlate) (hdeadline.symm ▸ hout)
  rw [hs] at hexp
  exact applied_of_outcome hes hexp hv

structure Scrutinising where
 obligation : Obligation
 time : Closure
 events : Closure

def Scrutinising.state (s:Scrutinising) (K:List (Frame Closure)) : State :=
 (.evalRefMachine s.events,⟨(),s.obligation.frame s.time::K⟩)

inductive PassesOver (host:Host) (printer:Printer) : Scrutinising → Scrutinising → Prop where
 | event (o:Obligation) (t es e es' : Closure) (stampVal party:Value Closure)
   (due' : MaybeEvaluated' (Option RExpr) Closure)
   (hes:Evaluates host printer (.evalRefMachine es) (.valCons e es'))
   (he:Scrutinised host printer o t e stampVal (.stays party due')) :
   PassesOver host printer ⟨o,t,es⟩
    ⟨{ o with party:=.inr party,due:=due' },.whnf stampVal,es'⟩

variable {s s' : Scrutinising}

theorem PassesOver.goes (h:PassesOver host printer s s') (K:List (Frame Closure)) :
  ∃ K', Guards host printer K' K ∧ Goes host printer (s.state K) (s'.state K') := by
 cases h with
 | event o t es e es' stampVal party due' hes he=>
  obtain ⟨K', hK', hgoes⟩:=he.goes es' K
  exact ⟨K', hK', (hes.goes _).trans hgoes⟩

theorem PassesOver.running {deadline clock:ℚ} (h:PassesOver host printer s s')
  (hs:Running host printer deadline s.obligation s.time clock) :
  ∃ clock', Running host printer deadline s'.obligation s'.time clock' := by
 cases h with
 | event o t es e es' stampVal party due' hes he=>
  cases he with
  | late ev d stamp q out hev hd hst ht hlate hout=>
   unfold lateOutcome at hout
   split at hout <;> try split at hout
   all_goals simp at hout
  | performs ev due' party evParty henceEnv out hev hin hp hout=>
   unfold performedOutcome at hout
   split at hout <;> try split at hout
   all_goals simp at hout
  | passes ev due' party hev hin hp=>
   obtain ⟨stamp,hstamp,-,-,rfl⟩:=(hs.inTime_iff hev).1 hin
   rw [hstamp]
   exact ⟨stamp,Running.after o party deadline stamp⟩

theorem passesOver_run {deadline clock:ℚ}
  (h:Relation.ReflTransGen (PassesOver host printer) s s')
  (hs:Running host printer deadline s.obligation s.time clock) :
  (∀ K, ∃ K', Guards host printer K' K ∧ Goes host printer (s.state K) (s'.state K')) ∧
   ∃ clock', Running host printer deadline s'.obligation s'.time clock' := by
 induction h with
 | refl=>exact ⟨fun K=>⟨K,guards_refl K,.refl⟩,clock,hs⟩
 | @tail r r' _ hr ih=>
  obtain ⟨hgoes,clock', hrun⟩:=ih
  refine ⟨fun K=>?_,hr.running hrun⟩
  obtain ⟨K1,hK1,h1⟩:=hgoes K
  obtain ⟨K2,hK2,h2⟩:=hr.goes K1
  exact ⟨K2,fun v=>(hK2 v).trans (hK1 v),h1.trans h2⟩

theorem Running.treats {deadline clock stamp:ℚ}
  (h:Running host printer deadline s.obligation s.time clock)
  (hes:Evaluates host printer (.evalRefMachine s.events) (.valCons e es))
  (hev:Reads host printer s.time e ev) (hs:ev.stampVal = .valNumber stamp)
  (K:List (Frame Closure)) :
  ∃ q, Goes host printer (s.state K) q ∧ next (runtime host printer) q =
   continued ((if stamp > deadline then
     deadlinePassed (runtime host printer) (timing s.obligation ev es) stamp deadline
    else
     deadlineAhead (runtime host printer) (timing s.obligation ev es) (deadline-stamp) :
     Eval Closure Unit (Config Closure)) ⟨(),K⟩) := by
 obtain ⟨-,-,-,-,-,htime⟩:=id hev
 have hclock:ev.timeVal = .valNumber clock:=evaluates_unique htime h.time
 have hgoes:=(hes.goes (s.obligation.frame s.time::K)).trans (hev.goes K)
 refine ⟨_,hgoes.trans (h.due.goes s.time es K), ?_⟩
 rw [next_checkTiming (deadline-clock) es K hs hclock,
  show clock+(deadline-clock)=deadline by ring,
  show deadline-clock-(stamp-clock)=deadline-stamp by ring]

/-- However many events an obligation passes over, its clock and the time left add up to the
deadline, and the machine takes the next event for late exactly if it is after the deadline. -/
def KeepsDeadline (host:Host) (printer:Printer) (o:Obligation) (t es:Closure)
  (deadline:ℚ) : Prop :=
 ∀ s, Relation.ReflTransGen (PassesOver host printer) ⟨o,t,es⟩ s →
  (∀ K, ∃ K', Guards host printer K' K ∧
   Goes host printer (Scrutinising.state ⟨o,t,es⟩ K) (s.state K')) ∧
  ∃ clock left, IsTime host printer s.time clock ∧ IsDue host printer s.obligation left ∧
   clock+left=deadline ∧
   ∀ e es' ev stamp K, Evaluates host printer (.evalRefMachine s.events) (.valCons e es') →
    Reads host printer s.time e ev → ev.stampVal = .valNumber stamp →
    ∃ q, Goes host printer (s.state K) q ∧ next (runtime host printer) q =
     continued ((if stamp > deadline then
       deadlinePassed (runtime host printer) (timing s.obligation ev es') stamp deadline
      else
       deadlineAhead (runtime host printer) (timing s.obligation ev es')
        (deadline-stamp) : Eval Closure Unit (Config Closure)) ⟨(),K⟩)

/-- The deadline stays where it was when the obligation started, and what the obligation comes
to is what its modal says of the first event that is late or performs it. -/
theorem obligation_deadline (host:Host) (printer:Printer) (o:Obligation) (t es:Closure)
  (start d:ℚ) (ht:IsTime host printer t start) (hd:IsDue host printer o d) :
  KeepsDeadline host printer o t es (start+d) ∧
  ∀ v, Applies host printer o.toValue t es v ↔ Follows host printer (start+d) o t es v := by
 have hrun:Running host printer (start+d) o t start:=
  ⟨ht,by rwa [show start+d-start=d by ring]⟩
 refine ⟨fun s hs=>?_,fun v=>?_⟩
 · obtain ⟨hgoes,clock,hclock⟩:=passesOver_run hs hrun
   refine ⟨hgoes,clock,start+d-clock,hclock.time,hclock.due,by ring, ?_⟩
   intro e es' ev stamp K hes hev hst
   exact hclock.treats hes hev hst K
 · rw [applies_iff]
   exact ⟨fun h=>follows_of_applied h hrun,fun h=>applied_of_follows h hrun⟩

/-- A permission to anyone, within two weeks. -/
def twoWeeks : Obligation where
 env:=[]
 party:=.inr (.valString "tenant")
 act:=.mkAction .dMay (.patLit (.stringLit "leave")) none
 due:=.inr (.valNumber 14)
 followup:=fulfilExpr
 lest:=none

theorem obligation_deadline_twoWeeks :
  KeepsDeadline default default twoWeeks (.whnf (.valNumber 3)) (.whnf .valNil) (3+14) ∧
  ∀ v, Applies default default twoWeeks.toValue (.whnf (.valNumber 3)) (.whnf .valNil) v ↔
   Follows default default (3+14) twoWeeks (.whnf (.valNumber 3)) (.whnf .valNil) v :=
 obligation_deadline default default twoWeeks (.whnf (.valNumber 3)) (.whnf .valNil) 3 14
  (isTime_whnf 3) rfl

end L4Ide.AbsoluteDeadlines
