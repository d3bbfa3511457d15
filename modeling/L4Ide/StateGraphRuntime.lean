import L4Ide.StateGraphDrawing
import L4Ide.AbsoluteDeadlines

set_option autoImplicit false

/-!
# State graphs and the contract runtime

What the graph draws out of the state of an obligation, beside what the machine does that
runs the obligation: a match in time or the passing of the deadline, and what follows.
-/
namespace L4Ide.StateGraphRuntime
open Syntax Environment ValueLazy Machine CallByName ContractRuns ContractInversion
open AbsoluteDeadlines StateGraphExtraction StateGraphDrawing

section Runtime
variable (host:Host) (printer:CallByName.Printer)

def obligationOf (env:Env Closure) (d:Deonton Resolved) : Obligation where
 env:=env
 party:=.inl d.party
 act:=d.action
 due:=.inl d.due
 followup:=d.hence.getD fulfilExpr
 lest:=d.lest

/-- Some events that the obligation passes over, and then one that decides it. -/
inductive Takes (o:Obligation) : Way → Outcome → Prop where
 | performance (t es:Closure) (s:Scrutinising) (e es' : Closure) (ev:EventRead)
   (due' : MaybeEvaluated' (Option RExpr) Closure) (party evParty:Value Closure)
   (henceEnv:Env Closure) (out:Outcome)
   (hs:Relation.ReflTransGen (PassesOver host printer) ⟨o,t,es⟩ s)
   (hes:Evaluates host printer (.evalRefMachine s.events) (.valCons e es'))
   (hev:Reads host printer s.time e ev) (hin:InTime host printer s.obligation ev due')
   (hp:Performs host printer s.obligation ev party evParty henceEnv)
   (hout:performedOutcome s.obligation party evParty ev.evAct ev.stampVal henceEnv =
    some out) : Takes o .performance out
 | deadline (t es:Closure) (s:Scrutinising) (e es' : Closure) (ev:EventRead)
   (d stamp q:ℚ) (out:Outcome)
   (hs:Relation.ReflTransGen (PassesOver host printer) ⟨o,t,es⟩ s)
   (hes:Evaluates host printer (.evalRefMachine s.events) (.valCons e es'))
   (hev:Reads host printer s.time e ev) (hd:IsDue host printer s.obligation d)
   (hst:ev.stampVal = .valNumber stamp) (hq:ev.timeVal = .valNumber q)
   (hlate:stamp > q+d)
   (hout:lateOutcome s.obligation ev.evParty ev.evAct stamp (q+d)=some out) :
   Takes o .deadline out

inductive Arrives : Outcome → Next → Prop where
 | fulfilled (env:Env Closure) (e:RExpr) (c:Value Closure)
   (hc:Evaluates host printer (.forwardMachine env e) c) (hf:fulfilView c=true) :
   Arrives (.moves env e) .fulfilled
 | breach (env:Env Closure) (e:RExpr) (reason:ReasonForBreach Closure)
   (hc:Evaluates host printer (.forwardMachine env e) (.valBreached reason)) :
   Arrives (.moves env e) .breach
 | breaches (reason:ReasonForBreach Closure) : Arrives (.breaches reason) .breach
 | obligation (env:Env Closure) (d:Deonton Resolved)
   (hc:Evaluates host printer (.forwardMachine env (.regulative d))
    (obligationOf env d).toValue) : Arrives (.moves env (.regulative d)) (.obligation d)

def EvaluatorTakes (env:Env Closure) (d:Deonton Resolved) (w:Way) (next:Next) : Prop :=
 ∃ out, Takes host printer (obligationOf env d) w out ∧ Arrives host printer out next

/-- The transitions out of the state are what the machine does, labelled by how it does it. -/
def Agrees (g:StateGraph) (root:Deonton Resolved) (s:StateId) (env:Env Closure)
  (d:Deonton Resolved) : Prop :=
 (∀ w next, (∃ tr ∈ g.sgTransitions, tr.transFrom=s ∧ wayOf tr.transLabel=w ∧
   Stands g root tr.transTo next) ↔ EvaluatorTakes host printer env d w next) ∧
  ∀ tr ∈ g.sgTransitions, tr.transFrom=s → ∃ next, Stands g root tr.transTo next

def IsBound (env:Env Closure) : Option RExpr → Prop
 | some (.app n [] _)=>∃ r, lookupTerm env n=some r
 | _=>True

/-- The names of the obligation are bound, FULFILLED to what it says. -/
structure Scoped (env:Env Closure) (d:Deonton Resolved) : Prop where
 fulfilled : ∃ r v, env.lookup fulfilUnique=some r ∧
  Evaluates host printer (.evalRefMachine r) v ∧ fulfilView v=true
 party : IsBound env (some d.party)
 breach : ∀ party reason, d.hence=some (.breach party reason) ∨
  d.lest=some (.breach party reason) → IsBound env party ∧ IsBound env reason

/-- Some event is the action of the obligation, by its party. -/
def Performable (env:Env Closure) (d:Deonton Resolved) : Prop :=
 (∃ ev party evParty henceEnv,
  Performs host printer (obligationOf env d) ev party evParty henceEnv) ∧
  (d.due=none ∨ ∃ q, IsDue host printer (obligationOf env d) q)

def Expirable (env:Env Closure) (d:Deonton Resolved) : Prop :=
 ∃ q, IsDue host printer (obligationOf env d) q

end Runtime

def followsTo : Expr Resolved → Next
 | .breach _ _=>.breach
 | .regulative d=>.obligation d
 | _=>.fulfilled

def henceNext (d:Deonton Resolved) : Next :=
 match d.hence with
 | some e=>followsTo e
 | none=>.fulfilled

def lestNext (d:Deonton Resolved) : Next :=
 match d.lest with
 | some e=>followsTo e
 | none=>.breach

def onPerformance (d:Deonton Resolved) : Next :=
 match d.action.modal with
 | .dMustNot=>lestNext d
 | .dMust | .dMay | .dDo=>henceNext d

def onDeadline (d:Deonton Resolved) : Next :=
 match d.action.modal with
 | .dMustNot | .dMay=>henceNext d
 | .dMust | .dDo=>lestNext d

variable {host:Host} {printer:CallByName.Printer} {env env' : Env Closure}
variable {d:Deonton Resolved}

theorem evaluates_regulative (host:Host) (printer:CallByName.Printer) (env:Env Closure) (d:Deonton Resolved) :
  Evaluates host printer (.forwardMachine env (.regulative d)) (obligationOf env d).toValue := by
 obtain ⟨party,action,due,hence,lest⟩:=d
 exact .single rfl

variable {n:Resolved} {e:Expr Resolved} {o:Obligation}

theorem lookupTerm_append {r:Closure} (h:lookupTerm env n=some r) :
  lookupTerm (env ++ env') n=some r := by
 unfold lookupTerm at h ⊢
 rw [List.lookup_append,h]
 rfl

theorem IsBound.append {e:Option RExpr} (h:IsBound env e) : IsBound (env ++ env') e := by
 unfold IsBound at h ⊢
 split
 · next n ty=>
   obtain ⟨r,hr⟩:=h
   exact ⟨r,lookupTerm_append hr⟩
 · trivial

theorem Scoped.append (h:Scoped host printer env d) : Scoped host printer (env ++ env') d where
 fulfilled := by
  obtain ⟨r,v,hr,hv,hf⟩:=h.fulfilled
  exact ⟨r,v,by rw [List.lookup_append,hr]; rfl,hv,hf⟩
 party:=h.party.append
 breach party reason he := ⟨(h.breach party reason he).1.append,(h.breach party reason he).2.append⟩

theorem allocateMaybe_ok (host:Host) (printer:CallByName.Printer) {e:Option RExpr} (h:IsBound env e) (s:EvalState Closure Unit) :
  ∃ r, allocateMaybe (runtime host printer) env e s = .ok r s := by
 have hallocate:∀ e', IsBound env (some e') →
   ∃ r, allocate_ (runtime host printer) env e' s = .ok r s := by
  intro e' h
  unfold allocate_
  split
  · next n ty=>
    obtain ⟨r,hr⟩:=h
    refine ⟨r, ?_⟩
    unfold expectTerm
    rw [hr]
    rfl
  · exact ⟨_,rfl⟩
 cases e with
 | none=>exact ⟨none,rfl⟩
 | some e' =>
  obtain ⟨r,hr⟩:=hallocate e' h
  refine ⟨some r, ?_⟩
  unfold allocateMaybe
  exact MachineLocality.bind_ok hr

theorem evaluates_breach (host:Host) (printer:CallByName.Printer) {party reason:Option RExpr} (hp:IsBound env party)
  (hr:IsBound env reason) :
  ∃ r, Evaluates host printer (.forwardMachine env (.breach party reason)) (.valBreached r) := by
 obtain ⟨p,hp⟩:=allocateMaybe_ok host printer hp ⟨(),[]⟩
 obtain ⟨q,hq⟩:=allocateMaybe_ok host printer hr ⟨(),[]⟩
 refine ⟨.explicitBreach p q,.single ?_⟩
 have hstep:forwardExpr (runtime host printer) env (.breach party reason) ⟨(),[]⟩ =
   .ok (.backwardMachine (.valBreached (.explicitBreach p q))) ⟨(),[]⟩ := by
  simp only [forwardExpr]
  rw [MachineLocality.bind_ok hp,MachineLocality.bind_ok hq]
  rfl
 exact MachineLocality.next_of_step (by simp) hstep

theorem evaluates_fulfilled (h:Scoped host printer env d)
  (hn:n.getUnique=fulfilUnique) (ty:Option (Type' Resolved)) :
  ∃ v, Evaluates host printer (.forwardMachine env (.app n [] ty)) v ∧ fulfilView v=true := by
 obtain ⟨r,v,hr,hv,hf⟩:=h.fulfilled
 refine ⟨v,.head ?_ hv,hf⟩
 have hstep:forwardExpr (runtime host printer) env (.app n [] ty) ⟨(),[]⟩ =
   .ok (.evalRefMachine r) ⟨(),[]⟩ := by
  simp only [forwardExpr,expectTerm,lookupTerm]
  rw [hn,hr]
  rfl
 exact MachineLocality.next_of_step (by simp) hstep

theorem arrives_fulfilled_iff (h:Scoped host printer env d)
  (hn:n.getUnique=fulfilUnique) (ty:Option (Type' Resolved)) (next:Next) :
  Arrives host printer (.moves env (.app n [] ty)) next ↔ next = .fulfilled := by
 obtain ⟨v,hv,hf⟩:=evaluates_fulfilled h hn ty
 constructor
 · intro ha
   cases ha with
   | fulfilled=>rfl
   | breach _ _ reason hc=>
    obtain rfl:=evaluates_unique hv hc
    cases hf
 · rintro rfl
   exact .fulfilled env _ v hv hf

theorem arrives_iff (h:Scoped host printer env d) (he:Sequenced e)
  (hbound:∀ party reason, e = .breach party reason → IsBound env party ∧ IsBound env reason)
  (next:Next) : Arrives host printer (.moves env e) next ↔ next=followsTo e := by
 cases he with
 | fulfilled n ty hu ho=>exact arrives_fulfilled_iff h hu ty next
 | breach party reason=>
  obtain ⟨hp,hr⟩:=hbound party reason rfl
  obtain ⟨r,hv⟩:=evaluates_breach host printer hp hr
  constructor
  · intro ha
    cases ha with
    | fulfilled _ _ c hc hf=>
     obtain rfl:=evaluates_unique hv hc
     cases hf
    | breach=>rfl
  · rintro rfl
    exact .breach env _ r hv
 | regulative d' =>
  have hv:=evaluates_regulative host printer env d'
  constructor
  · intro ha
    cases ha with
    | fulfilled _ _ c hc hf=>
     obtain rfl:=evaluates_unique hv hc
     cases hf
    | breach _ _ reason hc=>cases evaluates_unique hv hc
    | obligation=>rfl
  · rintro rfl
    exact .obligation env d' hv

theorem arrives_hence (h:Scoped host printer env d) (hd:Sequenced (.regulative d))
  (next:Next) :
  Arrives host printer (.moves env (d.hence.getD fulfilExpr)) next ↔ next=henceNext d := by
 cases hd with
 | regulative d hh hl=>
  cases he:d.hence with
  | none=>
   simp only [henceNext,he]
   exact arrives_fulfilled_iff h rfl none next
  | some e=>
   simp only [henceNext,he]
   refine arrives_iff h (hh e he) (fun party reason heq=>?_) next
   subst heq
   exact h.breach party reason (.inl he)

theorem arrives_lest (h:Scoped host printer env d) (hd:Sequenced (.regulative d))
  (he:d.lest=some e) (next:Next) :
  Arrives host printer (.moves env e) next ↔ next=lestNext d := by
 cases hd with
 | regulative d hh hl=>
  simp only [lestNext,he]
  refine arrives_iff h (hl e he) (fun party reason heq=>?_) next
  subst heq
  exact h.breach party reason (.inr he)

theorem arrives_breaches (reason:ReasonForBreach Closure) (next:Next) :
  Arrives host printer (.breaches reason) next ↔ next = .breach := by
 constructor
 · intro ha
   cases ha
   rfl
 · rintro rfl
   exact .breaches reason

/-- What an obligation keeps while it passes over events. -/
structure Kept (host:Host) (printer:CallByName.Printer) (o o' : Obligation) : Prop where
 env : o'.env=o.env
 act : o'.act=o.act
 followup : o'.followup=o.followup
 lest : o'.lest=o.lest
 party : ∀ v, HasValue host printer o.env o'.party v → HasValue host printer o.env o.party v
 due : ∀ d, IsDue host printer o' d → ∃ d', IsDue host printer o d'
 noDue : o'.due = .inl none → o.due = .inl none

theorem passesOver_stays {s s' : Scrutinising} (h:PassesOver host printer s s') :
  Kept host printer s.obligation s'.obligation := by
 cases h with
 | event o t es e es' stampVal party due' hes he=>
  have hkept:∀ ev, InTime host printer o ev due' → HasValue host printer o.env o.party party →
    Kept host printer o { o with party:=.inr party,due:=due' } := by
   intro ev hin hparty
   refine ⟨rfl,rfl,rfl,rfl,fun v hv=>?_,fun d hd=>?_,fun hnone=>?_⟩
   · obtain rfl : party=v:=hv
     exact hparty
   · cases hin with
     | noDue hn=>exact hd.elim
     | due d' stamp q hd' =>exact ⟨d', hd'⟩
   · cases hin with
     | noDue hn=>exact hn
     | due d' stamp q hd' =>cases hnone
  cases he with
  | late ev d stamp q out hev hd hst ht hlate hout=>
   unfold lateOutcome at hout
   split at hout <;> try split at hout
   all_goals simp at hout
  | performs ev due' party evParty henceEnv out hev hin hp hout=>
   unfold performedOutcome at hout
   split at hout <;> try split at hout
   all_goals simp at hout
  | passes ev due' party hev hin hp=>exact hkept ev hin hp.1

theorem Kept.trans {o1 o2:Obligation} (h1:Kept host printer o o1)
  (h2:Kept host printer o1 o2) : Kept host printer o o2 where
 env:=h2.env.trans h1.env
 act:=h2.act.trans h1.act
 followup:=h2.followup.trans h1.followup
 lest:=h2.lest.trans h1.lest
 party v hv := h1.party v (h1.env ▸ h2.party v (h1.env.symm ▸ hv))
 due d hd := by
  obtain ⟨d1,hd1⟩:=h2.due d hd
  exact h1.due d1 hd1
 noDue h := h1.noDue (h2.noDue h)

theorem passesOver_kept {s s' : Scrutinising}
  (h:Relation.ReflTransGen (PassesOver host printer) s s') :
  Kept host printer s.obligation s'.obligation := by
 induction h with
 | refl=>exact ⟨rfl,rfl,rfl,rfl,fun v hv=>hv,fun d hd=>⟨d,hd⟩,fun h=>h⟩
 | tail _ hstep ih=>exact ih.trans (passesOver_stays hstep)

theorem arrives_performed {party evParty:Value Closure} {evAct:Closure}
  {stampVal:Value Closure} {henceEnv:Env Closure} {out:Outcome}
  (h:Scoped host printer env d) (hd:Sequenced (.regulative d))
  (ho:o.env=env ∧ o.act=d.action ∧ o.followup=d.hence.getD fulfilExpr ∧ o.lest=d.lest)
  (hout:performedOutcome o party evParty evAct stampVal henceEnv=some out) (next:Next) :
  Arrives host printer out next ↔ next=onPerformance d := by
 obtain ⟨rfl,hact,hfollowup,hlest⟩:=ho
 unfold performedOutcome at hout
 rw [hact,hfollowup,hlest] at hout
 unfold onPerformance
 cases hm:d.action.modal with
 | dMust | dMay | dDo=>
  simp only [hm] at hout
  obtain rfl:=Option.some.inj hout
  exact arrives_hence h.append hd next
 | dMustNot=>
  simp only [hm] at hout
  cases hl:d.lest with
  | some e=>
   simp only [hl] at hout
   obtain rfl:=Option.some.inj hout
   exact arrives_lest h.append hd hl next
  | none=>
   cases stampVal with
   | valNumber stamp=>
    simp only [hl] at hout
    obtain rfl:=Option.some.inj hout
    simp only [lestNext,hl]
    exact arrives_breaches _ next
   | _=>simp [hl] at hout

theorem arrives_late {evParty evAct:Closure} {stamp deadline:ℚ}
  {out:Outcome} (h:Scoped host printer env d) (hd:Sequenced (.regulative d))
  (ho:o.env=env ∧ o.act=d.action ∧ o.followup=d.hence.getD fulfilExpr ∧ o.lest=d.lest)
  (hout:lateOutcome o evParty evAct stamp deadline=some out) (next:Next) :
  Arrives host printer out next ↔ next=onDeadline d := by
 obtain ⟨rfl,hact,hfollowup,hlest⟩:=ho
 unfold lateOutcome at hout
 rw [hact,hfollowup,hlest] at hout
 unfold onDeadline
 cases hm:d.action.modal with
 | dMustNot | dMay=>
  simp only [hm] at hout
  obtain rfl:=Option.some.inj hout
  exact arrives_hence h hd next
 | dMust | dDo=>
  simp only [hm] at hout
  cases hl:d.lest with
  | some e=>
   simp only [hl] at hout
   obtain rfl:=Option.some.inj hout
   exact arrives_lest h hd hl next
  | none=>
   simp only [hl] at hout
   obtain ⟨party,-,rfl⟩:=Option.map_eq_some_iff.1 hout
   simp only [lestNext,hl]
   exact arrives_breaches _ next

def singleEvent (evParty evAct:Closure) (stamp:ℚ) : Closure :=
 .whnf (valEvent evParty evAct (.whnf (.valNumber stamp)))

theorem reads_singleEvent (evParty evAct:Closure) (stamp q:ℚ) :
  Reads host printer (.whnf (.valNumber q)) (singleEvent evParty evAct stamp)
   ⟨evParty,evAct,.valNumber stamp,.valNumber q⟩ :=
 ⟨_,_,.single rfl,rfl,.single rfl,.single rfl⟩

theorem performable_takes (h:Performable host printer env d) :
  ∃ out, Takes host printer (obligationOf env d) .performance out := by
 obtain ⟨⟨ev,party,evParty,henceEnv,hp⟩,hdue⟩:=h
 have hin:∃ stamp due', InTime host printer (obligationOf env d)
   ⟨ev.evParty,ev.evAct,.valNumber stamp,.valNumber 0⟩ due' := by
  rcases hdue with hnone | ⟨q,hq⟩
  · exact ⟨0,_,.noDue (by rw [obligationOf,hnone])⟩
  · exact ⟨0+q,_,.due q (0+q) 0 hq rfl rfl le_rfl⟩
 obtain ⟨stamp,due', hin⟩:=hin
 have hout:∃ out, performedOutcome (obligationOf env d) party evParty ev.evAct
   (.valNumber stamp) henceEnv=some out := by
  unfold performedOutcome
  split
  · exact ⟨_,rfl⟩
  · exact ⟨_,rfl⟩
  · exact ⟨_,rfl⟩
  · split
    · exact ⟨_,rfl⟩
    · exact ⟨_,rfl⟩
    · next hne=>exact absurd rfl (hne stamp)
 obtain ⟨out,hout⟩:=hout
 exact ⟨out,.performance (.whnf (.valNumber 0))
  (.whnf (.valCons (singleEvent ev.evParty ev.evAct stamp) (.whnf .valNil))) _ _ _
  ⟨ev.evParty,ev.evAct,.valNumber stamp,.valNumber 0⟩ due' party evParty henceEnv out .refl
  (.single rfl) (reads_singleEvent _ _ stamp 0) hin hp hout⟩

theorem expirable_takes (hscoped:Scoped host printer env d) (h:Expirable host printer env d) :
  ∃ out, Takes host printer (obligationOf env d) .deadline out := by
 obtain ⟨q,hq⟩:=h
 have hparty:∃ r, partyClosure env (.inl d.party)=some r:=by
  have hbound:=hscoped.party
  unfold partyClosure
  split
  · next n ty heq=>
    rw [Sum.inl.inj heq] at hbound
    exact hbound
  · exact ⟨_,rfl⟩
  · next heq=>cases heq
 obtain ⟨r,hr⟩:=hparty
 have hout:∃ out, lateOutcome (obligationOf env d) (.whnf .valNil) (.whnf .valNil) (0+q+1)
   (0+q)=some out := by
  unfold lateOutcome
  split
  · exact ⟨_,rfl⟩
  · exact ⟨_,rfl⟩
  all_goals
   split
   · exact ⟨_,rfl⟩
   · exact ⟨_,by rw [obligationOf,hr]; rfl⟩
 obtain ⟨out,hout⟩:=hout
 exact ⟨out,.deadline (.whnf (.valNumber 0))
  (.whnf (.valCons (singleEvent (.whnf .valNil) (.whnf .valNil) (0+q+1)) (.whnf .valNil)))
  _ _ _ _ q (0+q+1) 0 out .refl (.single rfl) (reads_singleEvent _ _ (0+q+1) 0) hq rfl
  rfl (by linarith) hout⟩

theorem evaluatorTakes_iff (hscoped:Scoped host printer env d)
  (hd:Sequenced (.regulative d)) (w:Way) (next:Next) :
  EvaluatorTakes host printer env d w next ↔
   (w = .performance ∧ Performable host printer env d ∧ next=onPerformance d) ∨
   (w = .deadline ∧ Expirable host printer env d ∧ next=onDeadline d) := by
 constructor
 · rintro ⟨out,htakes,ha⟩
   cases htakes with
   | performance t es s e es' ev due' party evParty henceEnv out hs hes hev hin hp hout=>
    have hkept:=passesOver_kept hs
    have hnext:=(arrives_performed hscoped hd ⟨hkept.env,hkept.act,hkept.followup,
     hkept.lest⟩ hout next).1 ha
    refine .inl ⟨rfl,⟨⟨ev,party,evParty,henceEnv, ?_⟩, ?_⟩,hnext⟩
    · obtain ⟨hparty,hevp,hc,hm,v,hv,hb⟩:=hp
      rw [hkept.env] at hparty
      rw [hkept.env,hkept.act] at hm hv
      exact ⟨hkept.party party hparty,hevp,hc,hm,v,hv,hb⟩
    · cases hin with
      | noDue hnone=>exact .inl (Sum.inl.inj (hkept.noDue hnone))
      | due q stamp t' hq=>exact .inr (hkept.due q hq)
   | deadline t es s e es' ev q stamp t' out hs hes hev hq hst ht hlate hout=>
    have hkept:=passesOver_kept hs
    have hnext:=(arrives_late hscoped hd ⟨hkept.env,hkept.act,hkept.followup,
     hkept.lest⟩ hout next).1 ha
    exact .inr ⟨rfl,hkept.due q hq,hnext⟩
 · rintro (⟨rfl,hperf,rfl⟩ | ⟨rfl,hexp,rfl⟩)
   · obtain ⟨out,htakes⟩:=performable_takes hperf
     refine ⟨out,htakes, ?_⟩
     cases htakes with
     | performance t es s e es' ev due' party evParty henceEnv out hs hes hev hin hp hout=>
      have hkept:=passesOver_kept hs
      exact (arrives_performed hscoped hd ⟨hkept.env,hkept.act,hkept.followup,
       hkept.lest⟩ hout _).2 rfl
   · obtain ⟨out,htakes⟩:=expirable_takes hscoped hexp
     refine ⟨out,htakes, ?_⟩
     cases htakes with
     | deadline t es s e es' ev q stamp t' out hs hes hev hq hst ht hlate hout=>
      have hkept:=passesOver_kept hs
      exact (arrives_late hscoped hd ⟨hkept.env,hkept.act,hkept.followup,
       hkept.lest⟩ hout _).2 rfl

/-- A FULFILLED written out in the HENCE or the LEST is drawn as a state of its own. -/
def NamesFulfilled (e:Option (Expr Resolved)) : Prop :=
 ∃ n ty, e=some (.app n [] ty)

/-- When the graph draws the obligation as the machine runs it. -/
structure Drawable (host:Host) (printer:CallByName.Printer) (env:Env Closure)
  (d:Deonton Resolved) : Prop where
 hence : ¬ NamesFulfilled d.hence
 lest : ¬ NamesFulfilled d.lest
 performable : Performable host printer env d
 expirable : Expirable host printer env d ↔ d.lest ≠ none ∨ d.action.modal = .dMust
 may : d.action.modal = .dMay → d.lest ≠ none → henceNext d=lestNext d
 mustNot : d.action.modal = .dMustNot → henceNext d=lestNext d

theorem targetOf_eq (he:Sequenced e) (hn:¬ NamesFulfilled (some e)) :
  targetOf e=some (followsTo e) := by
 cases he with
 | fulfilled n ty=>exact absurd ⟨n,ty,rfl⟩ hn
 | breach=>rfl
 | regulative=>rfl

theorem targetOf_named (he:Sequenced e) (hn:NamesFulfilled (some e)) :
  targetOf e=none := by
 obtain ⟨n,ty,heq⟩:=hn
 obtain rfl:=Option.some.inj heq
 cases he with
 | fulfilled _ _ hu ho=>simp [targetOf,isFulfilled_fulfilName ho]

theorem Sequenced.hence (hd:Sequenced (.regulative d)) (he:d.hence=some e) : Sequenced e := by
 cases hd with
 | regulative _ hh _=>exact hh e he

theorem Sequenced.lest (hd:Sequenced (.regulative d)) (he:d.lest=some e) : Sequenced e := by
 cases hd with
 | regulative _ _ hl=>exact hl e he

theorem henceDrawn_eq (hd:Sequenced (.regulative d)) (hn:¬ NamesFulfilled d.hence) :
  henceDrawn d=some (henceNext d) := by
 unfold henceDrawn henceNext
 cases he:d.hence with
 | none=>rfl
 | some e=>exact targetOf_eq (Sequenced.hence hd he) (he ▸ hn)

theorem lestDrawn_timeout (hd:Sequenced (.regulative d)) (hn:¬ NamesFulfilled d.lest)
  (h:d.lest ≠ none ∨ d.action.modal = .dMust) :
  lestDrawn d=some (timeout,some (lestNext d)) := by
 unfold lestDrawn lestNext
 cases hl:d.lest with
 | some e=>simp only [targetOf_eq (Sequenced.lest hd hl) (hl ▸ hn)]
 | none=>simp only [h.resolve_left fun hne=>hne hl]

theorem lestDrawn_violation (hl:d.lest=none) (hm:d.action.modal = .dMustNot) :
  lestDrawn d=some (violation,some (lestNext d)) := by
 unfold lestDrawn lestNext
 simp only [hl,hm]

theorem lestDrawn_none (h:¬ (d.lest ≠ none ∨ d.action.modal = .dMust))
  (hm:d.action.modal ≠ .dMustNot) : lestDrawn d=none := by
 unfold lestDrawn
 cases hl:d.lest with
 | some e=>exact absurd (.inl (by simp [hl])) h
 | none=>
  cases hmodal:d.action.modal with
  | dMust=>exact absurd (.inr hmodal) h
  | dMustNot=>exact absurd hmodal hm
  | dMay | dDo=>rfl

theorem draws_none (hd:Sequenced (.regulative d)) :
  (∀ w, ¬ Draws d w none) ↔ ¬ NamesFulfilled d.hence ∧ ¬ NamesFulfilled d.lest := by
 constructor
 · intro h
   constructor
   · rintro ⟨n,ty,he⟩
     refine h .performance (.inl ⟨rfl, ?_⟩)
     unfold henceDrawn
     rw [he]
     exact targetOf_named (Sequenced.hence hd he) ⟨n,ty,rfl⟩
   · rintro ⟨n,ty,he⟩
     refine h .deadline (.inr ⟨timeout, ?_,rfl⟩)
     unfold lestDrawn
     rw [he]
     simp only [targetOf_named (Sequenced.lest hd he) ⟨n,ty,rfl⟩]
 · rintro ⟨hh,hl⟩ w (⟨-,hnone⟩ | ⟨label,hlabel,-⟩)
   · rw [henceDrawn_eq hd hh] at hnone
     cases hnone
   · by_cases hlest:d.lest ≠ none ∨ d.action.modal = .dMust
     · simp [lestDrawn_timeout hd hl hlest] at hlabel
     · by_cases hm:d.action.modal = .dMustNot
       · have hnone:d.lest=none:=by_contra fun h=>hlest (.inl h)
         simp [lestDrawn_violation hnone hm] at hlabel
       · simp [lestDrawn_none hlest hm] at hlabel

theorem draws_performance (hd:Sequenced (.regulative d)) (hh:¬ NamesFulfilled d.hence)
  (hl:¬ NamesFulfilled d.lest) (next:Next) :
  Draws d .performance (some next) ↔ next=henceNext d ∨
   (d.lest=none ∧ d.action.modal = .dMustNot ∧ next=lestNext d) := by
 have hhence:(Way.performance = .performance ∧ henceDrawn d=some next) ↔
   next=henceNext d := by
  rw [henceDrawn_eq hd hh]
  simp [eq_comm]
 refine or_congr hhence ?_
 by_cases hlest:d.lest ≠ none ∨ d.action.modal = .dMust
 · rw [lestDrawn_timeout hd hl hlest]
   constructor
   · rintro ⟨label,hlabel,hw⟩
     obtain ⟨rfl,-⟩:=Prod.mk.inj (Option.some.inj hlabel)
     cases hw
   · rintro ⟨h1,h2,-⟩
     rcases hlest with hlest | hlest
     · exact absurd h1 hlest
     · rw [h2] at hlest
       cases hlest
 · have hnone:d.lest=none:=by_contra fun h=>hlest (.inl h)
   by_cases hm:d.action.modal = .dMustNot
   · rw [lestDrawn_violation hnone hm]
     constructor
     · rintro ⟨label,hlabel,-⟩
       obtain ⟨-,hnext⟩:=Prod.mk.inj (Option.some.inj hlabel)
       exact ⟨hnone,hm,(Option.some.inj hnext).symm⟩
     · rintro ⟨-,-,rfl⟩
       exact ⟨violation,rfl,wayOf_violation.symm⟩
   · rw [lestDrawn_none hlest hm]
     simp [hm]

theorem draws_deadline (hd:Sequenced (.regulative d)) (hl:¬ NamesFulfilled d.lest)
  (next:Next) :
  Draws d .deadline (some next) ↔
   (d.lest ≠ none ∨ d.action.modal = .dMust) ∧ next=lestNext d := by
 constructor
 · rintro (⟨hw,-⟩ | ⟨label,hlabel,hw⟩)
   · cases hw
   · by_cases hlest:d.lest ≠ none ∨ d.action.modal = .dMust
     · rw [lestDrawn_timeout hd hl hlest] at hlabel
       obtain ⟨-,hnext⟩:=Prod.mk.inj (Option.some.inj hlabel)
       exact ⟨hlest,(Option.some.inj hnext).symm⟩
     · have hnone:d.lest=none:=by_contra fun h=>hlest (.inl h)
       by_cases hm:d.action.modal = .dMustNot
       · rw [lestDrawn_violation hnone hm] at hlabel
         obtain ⟨rfl,-⟩:=Prod.mk.inj (Option.some.inj hlabel)
         rw [wayOf_violation] at hw
         cases hw
       · rw [lestDrawn_none hlest hm] at hlabel
         cases hlabel
 · rintro ⟨hlest,rfl⟩
   exact .inr ⟨timeout,lestDrawn_timeout hd hl hlest,rfl⟩

theorem draws_iff_takes (hscoped:Scoped host printer env d) (hd:Sequenced (.regulative d))
  (hh:¬ NamesFulfilled d.hence) (hl:¬ NamesFulfilled d.lest) :
  (∀ w next, Draws d w (some next) ↔ EvaluatorTakes host printer env d w next) ↔
   Drawable host printer env d := by
 have hperformance:∀ next, EvaluatorTakes host printer env d .performance next ↔
   Performable host printer env d ∧ next=onPerformance d := fun next=>by
  simp [evaluatorTakes_iff hscoped hd]
 have hdeadline:∀ next, EvaluatorTakes host printer env d .deadline next ↔
   Expirable host printer env d ∧ next=onDeadline d := fun next=>by
  simp [evaluatorTakes_iff hscoped hd]
 constructor
 · intro h
   have hp:=fun next=>(draws_performance hd hh hl next).symm.trans
    ((h .performance next).trans (hperformance next))
   have ht:=fun next=>(draws_deadline hd hl next).symm.trans
    ((h .deadline next).trans (hdeadline next))
   have hhence:=(hp (henceNext d)).1 (.inl rfl)
   refine ⟨hh,hl,hhence.1,⟨fun he=>((ht _).2 ⟨he,rfl⟩).1,
    fun he=>((ht (lestNext d)).1 ⟨he,rfl⟩).1⟩,fun hm hlest=>?_,fun hm=>?_⟩
   · have hlate:=((ht (lestNext d)).1 ⟨.inl hlest,rfl⟩).2
     rw [onDeadline,hm] at hlate
     exact hlate.symm
   · have hdone:=hhence.2
     rw [onPerformance,hm] at hdone
     exact hdone
 · intro h w next
   cases w with
   | performance=>
    rw [draws_performance hd hh hl,hperformance]
    simp only [h.performable,true_and]
    cases hm:d.action.modal with
    | dMust | dMay | dDo=>simp [onPerformance,hm]
    | dMustNot=>
     simp only [onPerformance,hm,h.mustNot hm,true_and]
     exact ⟨fun h=>h.elim id fun h=>h.2,.inl⟩
   | deadline=>
    rw [draws_deadline hd hl,hdeadline,h.expirable]
    cases hm:d.action.modal with
    | dMust | dDo=>simp only [onDeadline,hm]
    | dMustNot=>simp only [onDeadline,hm,h.mustNot hm]
    | dMay=>
     simp only [onDeadline,hm,reduceCtorEq,or_false]
     constructor
     · rintro ⟨hlest,hnext⟩
       exact ⟨hlest,by rw [hnext,h.may hm hlest]⟩
     · rintro ⟨hlest,hnext⟩
       exact ⟨hlest,by rw [hnext,h.may hm hlest]⟩

theorem stateOf_sequenced {g:StateGraph} {root:Deonton Resolved} {s:StateId}
  (hroot:Sequenced (.regulative root)) (hs:StateOf g root s d) :
  Sequenced (.regulative d) := by
 induction hs with
 | initial=>exact hroot
 | hence d d' tr _ hd _ _ ih=>exact Sequenced.hence ih hd
 | lest d d' tr _ hd _ _ ih=>exact Sequenced.lest ih hd

/-- The graph agrees with the runtime exactly in the states of the drawable obligations. -/
theorem agrees_iff_drawable (host:Host) (printer:CallByName.Printer)
  (pr:StateGraphExtraction.Printer) (name:String) (root d:Deonton Resolved) (s:StateId)
  (env:Env Closure) (hroot:Sequenced (.regulative root))
  (hs:StateOf (runExtraction pr name (.regulative root)) root s d)
  (hscoped:Scoped host printer env d) :
  Agrees host printer (runExtraction pr name (.regulative root)) root s env d ↔
   Drawable host printer env d := by
 have hd:=stateOf_sequenced hroot hs
 obtain ⟨hdraws,htotal⟩:=draws_iff pr name hroot hs
 have hagrees:Agrees host printer (runExtraction pr name (.regulative root)) root s env d ↔
   (∀ w next, Draws d w (some next) ↔ EvaluatorTakes host printer env d w next) ∧
    ¬ NamesFulfilled d.hence ∧ ¬ NamesFulfilled d.lest := by
  unfold Agrees
  rw [htotal,draws_none hd]
  simp only [hdraws]
 rw [hagrees]
 constructor
 · rintro ⟨h,hh,hl⟩
   exact (draws_iff_takes hscoped hd hh hl).1 h
 · intro h
   exact ⟨(draws_iff_takes hscoped hd h.hence h.lest).2 h,h.hence,h.lest⟩

def deed : Resolved := .def_ ⟨'q', 1,""⟩ ⟨.normalName "deed"⟩

/-- A payment due within three days of the start. -/
def payment (hence lest:Option (Expr Resolved)) : Deonton Resolved :=
 .mkDeonton (.lit (.stringLit "seller")) (.mkAction .dMust (.patVar deed) none)
  (some (.lit (.numericLit 3))) hence lest

def builtins : Env Closure :=
 [(fulfilUnique,.whnf valFulfilled),(trueUnique,.whnf trueVal)]

theorem scoped_payment (hence:Option (Expr Resolved))
  (h:∀ party reason, hence ≠ some (.breach party reason)) :
  Scoped default default builtins (payment hence none) where
 fulfilled:=⟨.whnf valFulfilled,valFulfilled,rfl,.single rfl,rfl⟩
 party:=trivial
 breach party reason := by
  rintro (he | he)
  · exact absurd he (h party reason)
  · cases he

theorem compares_seller : Compares default default (.valString "seller") (.valString "seller")
  true :=
 ⟨_,[],trueVal,rfl,.refl,rfl⟩

theorem performable_payment (hence:Option (Expr Resolved)) :
  Performable default default builtins (payment hence none) := by
 refine ⟨⟨⟨.whnf (.valString "seller"),.whnf .valNil,.valNumber 0,.valNumber 0⟩,
  .valString "seller",.valString "seller",[(deed.getUnique,.whnf .valNil)],.single rfl,
  .single rfl,compares_seller,.single rfl,trueVal,.head rfl (.head rfl .refl),rfl⟩,
  .inr ⟨3,.single rfl⟩⟩

theorem drawable_payment : Drawable default default builtins (payment none none) where
 hence := by
  rintro ⟨n,ty,h⟩
  cases h
 lest := by
  rintro ⟨n,ty,h⟩
  cases h
 performable:=performable_payment none
 expirable:=⟨fun _=>.inr rfl,fun _=>⟨3,.single rfl⟩⟩
 may h := by cases h
 mustNot h := by cases h

theorem sequenced_payment (hence:Option (Expr Resolved))
  (h:∀ e, hence=some e → Sequenced e) : Sequenced (.regulative (payment hence none)) :=
 .regulative _ h fun _ he=>by cases he

theorem agrees_iff_drawable_payment :
  Agrees default default (runExtraction ⟨fun _=> "",fun _=> ""⟩ "sale"
   (.regulative (payment none none))) (payment none none) 0 builtins (payment none none) :=
 (agrees_iff_drawable default default ⟨fun _=> "",fun _=> ""⟩ "sale" (payment none none)
  (payment none none) 0 builtins (sequenced_payment none (by simp)) .initial
  (scoped_payment none (by simp))).2 drawable_payment

/-- The payment whose HENCE is written out as FULFILLED goes to a state that is not the terminal. -/
theorem payment_fulfilled_disagrees : ¬ ∀ (host:Host) (printer:CallByName.Printer)
  (pr:StateGraphExtraction.Printer) (name:String) (root d:Deonton Resolved) (s:StateId)
  (env:Env Closure), Sequenced (.regulative root) →
  StateOf (runExtraction pr name (.regulative root)) root s d → Scoped host printer env d →
  Performable host printer env d →
  Agrees host printer (runExtraction pr name (.regulative root)) root s env d := by
 intro hall
 have hroot:Sequenced (.regulative (payment (some fulfilExpr) none)):=
  sequenced_payment _ fun e he=>Option.some.inj he ▸ .fulfilled fulfilRef none rfl rfl
 have hagrees:=hall default default ⟨fun _=> "",fun _=> ""⟩ "sale" _ _ 0 builtins hroot
  .initial (scoped_payment _ (by simp [fulfilExpr])) (performable_payment _)
 have hnone:=(draws_iff ⟨fun _=> "",fun _=> ""⟩ "sale" hroot .initial).2.1 hagrees.2
 exact ((draws_none hroot).1 hnone).1 ⟨fulfilRef,none,rfl⟩

end L4Ide.StateGraphRuntime
