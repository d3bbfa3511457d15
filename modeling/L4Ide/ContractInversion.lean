import L4Ide.ContractRuns

set_option autoImplicit false

/-!
# What a contract came to, from its run

A run of the machine that applies a contract and delivers a value is taken apart frame by
frame, so what the machine delivers is what the relation says.
-/
namespace L4Ide.ContractInversion
open Syntax Environment ValueLazy Machine MachineLogic MachineHandlers MachineLocality CallByName
open StateTransition DeterministicRuns ContractRuns

abbrev State := Config Closure × EvalState Closure Unit

variable {host:Host} {printer:Printer} {p:State} {w:Value Closure}

def delivered (w:Value Closure) : State := (.doneMachine w,⟨(),[]⟩)

/-- A state met after the first one in a run that delivers the value. -/
abbrev Met (host:Host) (printer:Printer) (p:State) (w:Value Closure) (q:State) : Prop :=
 Later (next (runtime host printer)) p (delivered w) q

variable {c:Config Closure} {v:Value Closure} {f:Frame Closure} {K:List (Frame Closure)}
 {q:State} {e t es:Closure} {o:Obligation} {ev:EventRead}

theorem met_next {s:EvalState Closure Unit}
  {r:Option State} (h:Met host printer p w (c,s)) (hc:∀ v, c ≠ .doneMachine v)
  (hr:next (runtime host printer) (c,s)=r) :
  ∃ q, r=some q ∧ Met host printer p w q := by
 cases r with
 | none=>exact absurd h (not_later_of_none hr fun heq=>hc w (congrArg Prod.fst heq))
 | some q=>exact ⟨q,rfl,h.step hr rfl⟩

theorem met_frame {r:Option State} (h:Met host printer p w (.backwardMachine v,⟨(),f::K⟩))
  (hr:continued (backwardFrame (runtime host printer) v f ⟨(),K⟩)=r) :
  ∃ q, r=some q ∧ Met host printer p w q :=
 met_next h (by simp) ((next_backward v f K).trans hr)

theorem met_step (h:Met host printer p w (.backwardMachine v,⟨(),f::K⟩))
  (hr:continued (backwardFrame (runtime host printer) v f ⟨(),K⟩)=some q) :
  Met host printer p w q := by
 obtain ⟨q', heq,hq'⟩:=met_frame h hr
 exact Option.some.inj heq ▸ hq'

theorem met_evaluates
  (h:Met host printer p w (c,⟨(),K⟩)) (hK:K ≠ []) (hc:∀ v, c ≠ .doneMachine v)
  (hp:∀ r env pat, c ≠ .matchPatternMachine r env pat) :
  ∃ v, Evaluates host printer c v ∧
   Met host printer p w (.backwardMachine v,⟨(),K⟩) := by
 obtain ⟨v,_,hv,hrest⟩:=returns_of_done hK hc hp h.2
 exact ⟨v,hv,h.reaches (hv.reaches K) hrest⟩

theorem met_forces {r:Closure} (h:Met host printer p w (.evalRefMachine r,⟨(),f::K⟩)) :
  ∃ v, Evaluates host printer (.evalRefMachine r) v ∧
   Met host printer p w (.backwardMachine v,⟨(),f::K⟩) :=
 met_evaluates h (by simp) (by simp) (by simp)

theorem met_forward {env:Env Closure} {e:RExpr}
  (h:Met host printer p w (.forwardMachine env e,⟨(),f::K⟩)) :
  ∃ v, Evaluates host printer (.forwardMachine env e) v ∧
   Met host printer p w (.backwardMachine v,⟨(),f::K⟩) :=
 met_evaluates h (by simp) (by simp) (by simp)

theorem met_hasValue {env:Env Closure} {m:MaybeEvaluated Closure}
  (hq:continued (maybeEvaluate env m ⟨(),f::K⟩)=some q)
  (h:Met host printer p w q) :
  ∃ v, HasValue host printer env m v ∧
   Met host printer p w (.backwardMachine v,⟨(),f::K⟩) := by
 cases m with
 | inl e=>
  obtain rfl:=Option.some.inj hq
  exact met_forward h
 | inr v=>
  obtain rfl:=Option.some.inj hq
  exact ⟨v,rfl,h⟩

theorem met_matches {r:Closure} {env:Env Closure} {pat:Pattern Resolved}
  (h:Met host printer p w (.matchPatternMachine r env pat,⟨(),f::K⟩)) :
  (∃ v, Evaluates host printer (.matchPatternMachine r env pat) v ∧
   Met host printer p w (.backwardMachine v,⟨(),f::K⟩)) ∨
  Mismatches host printer r env pat ∧
   ∃ c s, unwindToMatch (runtime host printer) (f::K) ⟨(),f::K⟩ = .ok c s ∧
    Met host printer p w (c,s) := by
 rcases matches_of_done (by simp) h.2 with ⟨v,_,hv,hrest⟩ | ⟨_,c,s,hfails,hunwind,hrest⟩
 · exact .inl ⟨v,hv,h.reaches (hv.reaches _) hrest⟩
 · refine .inr ⟨hfails,c,s,hunwind, ?_⟩
   obtain ⟨c1,s1,hrun,hstep,hc1⟩:=hfails.reaches (f::K)
   exact h.reaches (hrun.tail (next_of_step hc1 (hstep.trans hunwind))) hrest

theorem met_compares {v1 v2:Value Closure}
  (hq:continued (runBinOpEquals (runtime host printer) v1 v2 ⟨(),f::K⟩)=some q)
  (h:Met host printer p w q) :
  ∃ v, Met host printer p w (.backwardMachine v,⟨(),f::K⟩) ∧
   ∀ b, boolView v=some b → Compares host printer v1 v2 b := by
 have hblind:=(leads_quiet (inferInstance:Leads (quietLogic (runtime host printer))
  (runBinOpEquals (runtime host printer) v1 v2))).1 () [] (f::K)
 have hsuits:=(inferInstance:Leads (pushLogic (runtime host printer))
  (runBinOpEquals (runtime host printer) v1 v2)).holds ⟨(),[]⟩ trivial
 rw [List.nil_append] at hblind
 rw [hblind] at hq
 cases hrun:runBinOpEquals (runtime host printer) v1 v2 ⟨(),[]⟩ with
 | error e s=>
  rw [hrun] at hq
  cases hq
 | ok c s=>
  obtain ⟨⟨⟩,k⟩:=s
  rw [hrun] at hq hsuits
  obtain rfl:=Option.some.inj hq
  rcases reaches_done_split (by simp) hsuits.live h.2 with
   ⟨v,_,hlocal,hrest⟩ | ⟨c1,s1,s2,hlocal,hstep,-⟩
  · have hgoes:=reaches_append (f::K) hlocal (by simp)
    exact ⟨v,h.reaches hgoes hrest,fun b hb=>⟨c,k,v,hrun,hlocal,hb⟩⟩
  · exact absurd hstep (not_unhandled hsuits hlocal)

theorem met_reads
  (h:Met host printer p w (.backwardMachine (.valCons e es),⟨(),o.frame t::K⟩)) :
  ∃ ev, Reads host printer t e ev ∧
   Met host printer p w (.backwardMachine ev.timeVal,⟨(),scrutinizeDue o ev t es::K⟩) := by
 obtain ⟨v,hv,h⟩:=met_forces (met_step h rfl)
 cases hview:eventCView v with
 | none=>
  obtain ⟨q,hq,-⟩:=met_frame (r := none) h (by
   simp only [backwardFrame,backwardContractFrame,backwardContract2,hview]
   rfl)
  cases hq
 | some parts=>
  obtain ⟨evParty,evAct,evTime⟩:=parts
  obtain ⟨stampVal,hstamp,h⟩:=met_forces (met_step h (by
   simp only [backwardFrame,backwardContractFrame,backwardContract2,hview]
   rfl))
  obtain ⟨timeVal,htime,h⟩:=met_forces (met_step h rfl)
  exact ⟨⟨evParty,evAct,stampVal,timeVal⟩,⟨v,evTime,hv,hview,hstamp,htime⟩,h⟩

theorem met_due
  (h:Met host printer p w (.backwardMachine ev.timeVal,⟨(),scrutinizeDue o ev t es::K⟩)) :
  (o.due = .inl none ∧ ∃ q, continued (maybeEvaluate o.env o.party
    ⟨(),.contractFrame (.contract6 (partyWHNF o ev (.inl none) es))::K⟩)=some q ∧
   Met host printer p w q) ∨
  ∃ v, (∀ d, v = .valNumber d → IsDue host printer o d) ∧
   Met host printer p w (.backwardMachine v,⟨(),checkTiming o ev es::K⟩) := by
 obtain ⟨env,party,act,due,followup,lest⟩:=o
 cases due with
 | inr v=>exact .inr ⟨v,fun d hd=>hd,met_step h rfl⟩
 | inl due=>
  cases due with
  | some e=>
   obtain ⟨v,hv,h⟩:=met_forward (met_step h rfl)
   refine .inr ⟨v,fun d hd=>?_,h⟩
   subst hd
   exact hv
  | none=>exact .inl ⟨rfl,met_frame h rfl⟩

theorem assertTime_error (host:Host) (printer:Printer)
  (h:∀ q, v ≠ .valNumber q) (s:EvalState Closure Unit) :
  ∃ e s', assertTime (runtime host printer) v s = .error e s' := by
 cases v with
 | valNumber q=>exact absurd rfl (h q)
 | _=>exact ⟨_,_,rfl⟩

theorem met_numbers
  (h:Met host printer p w (.backwardMachine v,⟨(),checkTiming o ev es::K⟩)) :
  ∃ d stamp t, v = .valNumber d ∧ ev.stampVal = .valNumber stamp ∧
   ev.timeVal = .valNumber t := by
 obtain ⟨evParty,evAct,stampVal,timeVal⟩:=ev
 have herror:∀ e s', backwardFrame (runtime host printer) v
   (checkTiming o ⟨evParty,evAct,stampVal,timeVal⟩ es) ⟨(),K⟩ ≠ .error e s' := by
  intro e s' heq
  obtain ⟨q,hq,-⟩:=met_frame h (congrArg continued heq)
  cases hq
 have hstamp:∃ stamp, stampVal = .valNumber stamp:=by
  by_contra hne
  obtain ⟨e,s', he⟩:=assertTime_error host printer (fun q hq=>hne ⟨q,hq⟩) ⟨(),K⟩
  exact herror e s' (bind_error he)
 obtain ⟨stamp,rfl⟩:=hstamp
 have hdue:∃ d, v = .valNumber d:=by
  by_contra hne
  obtain ⟨e,s', he⟩:=assertTime_error host printer (fun q hq=>hne ⟨q,hq⟩) ⟨(),K⟩
  exact herror e s' ((bind_ok rfl).trans (bind_error he))
 obtain ⟨d,rfl⟩:=hdue
 have htime:∃ t, timeVal = .valNumber t:=by
  by_contra hne
  obtain ⟨e,s', he⟩:=assertTime_error host printer (fun q hq=>hne ⟨q,hq⟩) ⟨(),K⟩
  exact herror e s' ((bind_ok rfl).trans ((bind_ok rfl).trans (bind_error he)))
 obtain ⟨t,rfl⟩:=htime
 exact ⟨d,stamp,t,rfl,rfl,rfl⟩

theorem met_late {d stamp t:ℚ} (hs:ev.stampVal = .valNumber stamp)
  (ht:ev.timeVal = .valNumber t) (hlate:stamp > t+d)
  (h:Met host printer p w (.backwardMachine (.valNumber d),⟨(),checkTiming o ev es::K⟩)) :
  ∃ out, lateOutcome o ev.evParty ev.evAct stamp (t+d)=some out ∧
   Met host printer p w (afterEvent o ev.stampVal es K out) := by
 suffices ∃ out, lateOutcome o ev.evParty ev.evAct stamp (t+d)=some out by
  obtain ⟨out,hout⟩:=this
  exact ⟨out,hout,h.step (next_late es K hs ht hlate hout) rfl⟩
 obtain ⟨env,party,act,due,followup,lest⟩:=o
 simp only [lateOutcome]
 cases hm:act.modal with
 | dMustNot | dMay=>exact ⟨_,rfl⟩
 | dMust | dDo=>
  cases lest with
  | some lestFollowup=>exact ⟨_,rfl⟩
  | none=>
   cases hparty:partyClosure env party with
   | some r=>exact ⟨_,rfl⟩
   | none=>
    exfalso
    unfold partyClosure at hparty
    split at hparty
    · next n ty=>
      obtain ⟨q,hq,-⟩:=met_next (r := none) h (by simp) (by
       rw [next_checkTiming d es K hs ht,if_pos hlate]
       simp only [deadlinePassed,timing,Obligation.scrutiny,hm,partyReference,allocate_,
        expectTerm,hparty]
       rfl)
      cases hq
    · cases hparty
    · cases hparty

theorem met_timing (hev:Reads host printer t e ev)
  (h:Met host printer p w (.backwardMachine ev.timeVal,⟨(),scrutinizeDue o ev t es::K⟩)) :
  (∃ out, Scrutinised host printer o t e ev.stampVal out ∧
   Met host printer p w (afterEvent o ev.stampVal es K out)) ∨
  ∃ due' party, InTime host printer o ev due' ∧ HasValue host printer o.env o.party party ∧
   Met host printer p w (.backwardMachine party,
    ⟨(),.contractFrame (.contract6 (partyWHNF o ev due' es))::K⟩) := by
 rcases met_due h with ⟨hnone,q,hq,hmet⟩ | ⟨v,hdue,hmet⟩
 · obtain ⟨party,hparty,hmet⟩:=met_hasValue hq hmet
   exact .inr ⟨_,party,.noDue hnone,hparty,hmet⟩
 · obtain ⟨d,stamp,t', rfl,hs,ht⟩:=met_numbers hmet
   by_cases hlate:stamp > t' + d
   · obtain ⟨out,hout,hmet⟩:=met_late hs ht hlate hmet
     exact .inl ⟨out,.late ev d stamp t' out hev (hdue d rfl) hs ht hlate hout,hmet⟩
   · obtain ⟨q,hq,hmet⟩:=met_next hmet (by simp) (next_checkTiming d es K hs ht)
     rw [if_neg hlate] at hq
     obtain ⟨party,hparty,hmet⟩:=met_hasValue hq hmet
     exact .inr ⟨_,party,.due d stamp t' (hdue d rfl) hs ht (not_lt.1 hlate),hparty,hmet⟩

def Leaves (host:Host) (printer:Printer) (w:Value Closure) (K' K:List (Frame Closure)) :
  Prop :=
 ∀ v, Goes host printer (.backwardMachine v,⟨(),K'⟩) (delivered w) →
  Goes host printer (.backwardMachine v,⟨(),K⟩) (delivered w)

theorem leaves_refl (K:List (Frame Closure)) : Leaves host printer w K K := fun _ h=>h

theorem leaves_contract11 (f:ActionDoesntMatch Closure) (K:List (Frame Closure)) :
  Leaves host printer w (.contractFrame (.contract11 f)::K) K :=
 fun _ h=>reaches_step rfl rfl h

theorem met_boolean (f:ScrutinizeParty Closure)
  (h:Met host printer p w (.backwardMachine v,⟨(),.contractFrame (.contract8 f)::K⟩)) :
  ∃ b, boolView v=some b := by
 cases hview:boolView v with
 | some b=>exact ⟨b,rfl⟩
 | none=>
  obtain ⟨q,hq,-⟩:=met_frame (r := none) h (by
   simp only [backwardFrame,backwardContractFrame,backwardContract8,hview]
   rfl)
  cases hq

theorem met_proviso (f:ScrutinizeActions Closure)
  (h:Met host printer p w (.backwardMachine v,⟨(),.contractFrame (.contract10 f)::K⟩)) :
  ∃ b, boolView v=some b := by
 cases hview:boolView v with
 | some b=>exact ⟨b,rfl⟩
 | none=>
  obtain ⟨q,hq,-⟩:=met_frame (r := none) h (by
   simp only [backwardFrame,backwardContractFrame,backwardContract10,hview]
   rfl)
  cases hq

theorem met_environment (f:ScrutinizeEnvironment Closure)
  (h:Met host printer p w (.backwardMachine v,⟨(),.contractFrame (.contract9 f)::K⟩)) :
  ∃ henceEnv, v = .valEnvironment henceEnv := by
 cases v with
 | valEnvironment henceEnv=>exact ⟨henceEnv,rfl⟩
 | _=>
  obtain ⟨q,hq,-⟩:=met_frame (r := none) h rfl
  cases hq

theorem met_performed {party evParty:Value Closure}
  {due' : MaybeEvaluated' (Option RExpr) Closure} {henceEnv:Env Closure}
  (hv:boolView v=some true) (es:Closure) (K:List (Frame Closure))
  (h:Met host printer p w (.backwardMachine v,⟨(),.contractFrame
   (.contract10 (actionsFrame (scrutinizeParty o ev party evParty due' es) henceEnv))::K⟩)) :
  ∃ out, performedOutcome o party evParty ev.evAct ev.stampVal henceEnv=some out ∧
   Met host printer p w (afterEvent o ev.stampVal es K out) := by
 suffices ∃ out, performedOutcome o party evParty ev.evAct ev.stampVal henceEnv=some out by
  obtain ⟨out,hout⟩:=this
  exact ⟨out,hout,h.step (next_performed hv es K hout) rfl⟩
 obtain ⟨env,oparty,act,due,followup,lest⟩:=o
 obtain ⟨evp,evAct,stampVal,timeVal⟩:=ev
 simp only [performedOutcome]
 cases hm:act.modal with
 | dMust | dMay | dDo=>exact ⟨_,rfl⟩
 | dMustNot=>
  cases lest with
  | some lestFollowup=>exact ⟨_,rfl⟩
  | none=>
   cases stampVal with
   | valNumber stamp=>exact ⟨_,rfl⟩
   | _=>
    exfalso
    obtain ⟨q,hq,-⟩:=met_frame (r := none) h (by
     simp only [backwardFrame,backwardContractFrame,backwardContract10,hv,
      actionPerformed,actionsFrame,scrutinizeParty,Obligation.scrutiny,hm]
     rfl)
    cases hq

theorem met_party {due' : MaybeEvaluated' (Option RExpr) Closure} {party:Value Closure}
  (hev:Reads host printer t e ev) (hin:InTime host printer o ev due')
  (hparty:HasValue host printer o.env o.party party)
  (h:Met host printer p w (.backwardMachine party,
   ⟨(),.contractFrame (.contract6 (partyWHNF o ev due' es))::K⟩)) :
  ∃ out K', Scrutinised host printer o t e ev.stampVal out ∧ Leaves host printer w K' K ∧
   Met host printer p w (afterEvent o ev.stampVal es K' out) := by
 obtain ⟨evParty,hevParty,h⟩:=met_forces (met_step h rfl)
 obtain ⟨q,hq,h⟩:=met_frame h rfl
 obtain ⟨v,h,hcompares⟩:=met_compares (f := .contractFrame
  (.contract8 (scrutinizeParty o ev party evParty due' es))) (K := K) hq h
 obtain ⟨b,hb⟩:=met_boolean _ h
 have hc:=hcompares b hb
 cases b with
 | false=>
  refine ⟨_,K,.passes ev due' party hev hin ⟨hparty,evParty,hevParty,.inl hc⟩,
   leaves_refl K, ?_⟩
  exact h.step (next_contract8_false hb _ K) rfl
 | true=>
  have h:=h.step (next_contract8_true hb _ K) rfl
  rcases met_matches h with ⟨v2,hmatch,h⟩ | ⟨hmis,c,s,hunwind,h⟩
  · obtain ⟨henceEnv,rfl⟩:=met_environment _ h
    obtain ⟨v3,hproviso,h⟩:=met_forward (met_step h rfl)
    obtain ⟨b,hb3⟩:=met_proviso
     (actionsFrame (scrutinizeParty o ev party evParty due' es) henceEnv) h
    cases b with
    | false=>
     have hp:Passes host printer o ev party:=
      ⟨hparty,evParty,hevParty,.inr ⟨hc,.inr ⟨henceEnv,hmatch,v3,hproviso,hb3⟩⟩⟩
     have hmet:=h.step (next_contract10_false hb3 _ _) rfl
     exact ⟨_,_,.passes ev due' party hev hin hp,leaves_contract11 _ K,hmet⟩
    | true=>
     obtain ⟨out,hout,hmet⟩:=met_performed hb3 es _ h
     have hp:Performs host printer o ev party evParty henceEnv:=
      ⟨hparty,hevParty,hc,hmatch,v3,hproviso,hb3⟩
     have hs:=Scrutinised.performs ev due' party evParty henceEnv out hev hin hp hout
     exact ⟨out,_,hs,leaves_contract11 _ K,hmet⟩
  · obtain ⟨rfl,rfl⟩:=EStateM.Result.ok.inj hunwind
    exact ⟨_,K,.passes ev due' party hev hin ⟨hparty,evParty,hevParty,.inr ⟨hc,.inl hmis⟩⟩,
     leaves_refl K,h⟩

theorem met_scrutinised
  (h:Met host printer p w (.backwardMachine (.valCons e es),⟨(),o.frame t::K⟩)) :
  ∃ stampVal out K', Scrutinised host printer o t e stampVal out ∧
   Leaves host printer w K' K ∧ Met host printer p w (afterEvent o stampVal es K' out) := by
 obtain ⟨ev,hev,h⟩:=met_reads h
 rcases met_timing hev h with ⟨out,hout,hmet⟩ | ⟨due', party,hin,hparty,hmet⟩
 · exact ⟨ev.stampVal,out,K,hout,leaves_refl K,hmet⟩
 · obtain ⟨out,K', hs,hK', hmet⟩:=met_party hev hin hparty hmet
   exact ⟨ev.stampVal,out,K', hs,hK', hmet⟩

/-- What a run shows of a contract that it applies, or of an obligation that it runs. -/
def Shows (host:Host) (printer:Printer) (w:Value Closure) (q:State) : Prop :=
 (∀ c t es K, q=(.backwardMachine c,⟨(),.app1 [t,es] none::K⟩) →
  ∃ v, Applied host printer c t es v ∧
   Goes host printer (.backwardMachine v,⟨(),K⟩) (delivered w)) ∧
 ∀ (o:Obligation) t es K, q=(.evalRefMachine es,⟨(),o.frame t::K⟩) →
  ∃ v, Applied host printer o.toValue t es v ∧
   Goes host printer (.backwardMachine v,⟨(),K⟩) (delivered w)

theorem met_start
  (hrun:Goes host printer (c,⟨(),f::K⟩) (delivered w)) (hc:∀ v, c ≠ .doneMachine v)
  (hb:∀ v, c ≠ .backwardMachine v) (hp:∀ r env pat, c ≠ .matchPatternMachine r env pat) :
  ∃ v, Evaluates host printer c v ∧
   Met host printer (c,⟨(),f::K⟩) w (.backwardMachine v,⟨(),f::K⟩) := by
 obtain ⟨v,_,hv,hrest⟩:=returns_of_done (by simp) hc hp hrun
 refine ⟨v,hv, ?_,hrest⟩
 rcases reaches_eq_or_step (hv.reaches (f::K)) with heq | h
 · exact absurd (congrArg Prod.fst heq).symm (hb v)
 · exact h

theorem shows_obligation
  (hrun:Goes host printer (.evalRefMachine es,⟨(),o.frame t::K⟩) (delivered w))
  (ih:∀ q, Met host printer (.evalRefMachine es,⟨(),o.frame t::K⟩) w q →
   Shows host printer w q) :
  ∃ v, Applied host printer o.toValue t es v ∧
   Goes host printer (.backwardMachine v,⟨(),K⟩) (delivered w) := by
 obtain ⟨v,hes,h⟩:=met_start hrun (by simp) (by simp) (by simp)
 cases v with
 | valNil=>
  have hmet:=met_step (q := (.backwardMachine o.toValue,⟨(),K⟩)) h rfl
  exact ⟨o.toValue,.ended o t es hes,hmet.2⟩
 | valCons e es' =>
  obtain ⟨stampVal,out,K', hs,hK', hmet⟩:=met_scrutinised h
  cases out with
  | stays party due' =>
   obtain ⟨v,hv,hrest⟩:=(ih _ hmet).2 _ _ _ _ rfl
   exact ⟨v,.stays o t es e es' stampVal party due' v hes hs hv,hK' v hrest⟩
  | moves env followup=>
   obtain ⟨c,hc,hmet⟩:=met_forward hmet
   obtain ⟨v,hv,hrest⟩:=(ih _ hmet).1 _ _ _ _ rfl
   exact ⟨v,.moves o t es e es' stampVal env followup c v hes hs hc hv,hK' v hrest⟩
  | breaches reason=>
   exact ⟨_,.breaches o t es e es' stampVal reason hes hs,hK' _ hmet.2⟩
 | _=>
  obtain ⟨q,hq,-⟩:=met_frame (r := none) h rfl
  cases hq

theorem shows_rOp {env:Env Closure} {op:RBinOp} {l r:MaybeEvaluated Closure}
  (hrun:Goes host printer (.backwardMachine (.valROp env op l r),
   ⟨(),.app1 [t,es] none::K⟩) (delivered w))
  (ih:∀ q, Met host printer (.backwardMachine (.valROp env op l r),
   ⟨(),.app1 [t,es] none::K⟩) w q → Shows host printer w q) :
  ∃ v, Applied host printer (.valROp env op l r) t es v ∧
   Goes host printer (.backwardMachine v,⟨(),K⟩) (delivered w) := by
 obtain ⟨q,hq⟩ : ∃ q, continued (maybeEvaluate env l ⟨(),.app1 [t,es] none :: .contractFrame
   (.rBinOp1 { op := op,rexpr2 := r,args := [t,es],env := env })::K⟩)=some q := by
  cases l <;> exact ⟨_,rfl⟩
 have hmet:=later_first ((next_rOp op l r t es env K).trans hq) rfl hrun
 obtain ⟨c1,h1,hmet⟩:=met_hasValue hq hmet
 obtain ⟨v1,hv1,hrest⟩:=(ih _ hmet).1 _ _ _ _ rfl
 have hmet:Met host printer _ w (.backwardMachine v1,⟨(),.contractFrame
   (.rBinOp1 { op:=op,rexpr2:=r,args:=[t,es],env:=env })::K⟩) :=
  hmet.reaches (hv1.goes _) hrest
 by_cases hop:op = .valROr ∧ fulfilView v1=true
 · obtain ⟨rfl,hf⟩:=hop
   have hmet:=hmet.step (next_rOrFulfilled hf r [t,es] env K) rfl
   exact ⟨_,.rOrFulfilled env l r t es c1 v1 h1 hv1 hf,hmet.2⟩
 · obtain ⟨q2,hq2,hmet⟩:=met_next hmet (by simp) (next_rBinOp1 hop r [t,es] env K)
   obtain ⟨c2,h2,hmet⟩:=met_hasValue hq2 hmet
   obtain ⟨v2,hv2,hrest⟩:=(ih _ hmet).1 _ _ _ _ rfl
   have hmet:=(hmet.reaches (hv2.goes _) hrest).step
    (r := (.backwardMachine (combine env op v1 v2),⟨(),K⟩)) rfl rfl
   exact ⟨_,.rOp env op l r t es c1 v1 c2 v2 h1 hv1 hop h2 hv2,hmet.2⟩

theorem shows_function {c:Value Closure} (hc:isFunction c=true)
  (hrun:Goes host printer (.backwardMachine c,⟨(),.app1 [t,es] none::K⟩) (delivered w)) :
  ∃ v, Applied host printer c t es v ∧
   Goes host printer (.backwardMachine v,⟨(),K⟩) (delivered w) := by
 cases K with
 | nil=>
  have hback:=(reaches_done_iff (suits_app1 c t es)).1 hrun
  exact ⟨w,.function c w t es hc hrun,.single rfl⟩
 | cons f K=>
  rcases reaches_done_split (k := [.app1 [t,es] none]) (K := f::K) (by simp) (by simp) hrun
   with ⟨v,_,hlocal,hrest⟩ | ⟨c1,s1,s2,hlocal,hstep,-⟩
  · exact ⟨v,.function c v t es hc (hlocal.tail rfl),hrest⟩
  · exact absurd hstep (not_unhandled (suits_app1 c t es) hlocal)

theorem shows_applied {c:Value Closure}
  (hrun:Goes host printer (.backwardMachine c,⟨(),.app1 [t,es] none::K⟩) (delivered w))
  (ih:∀ q, Met host printer (.backwardMachine c,⟨(),.app1 [t,es] none::K⟩) w q →
   Shows host printer w q) :
  ∃ v, Applied host printer c t es v ∧
   Goes host printer (.backwardMachine v,⟨(),K⟩) (delivered w) := by
 by_cases hfun:isFunction c=true
 · exact shows_function hfun hrun
 by_cases hf:fulfilView c=true
 · exact ⟨_,.fulfilled c t es hf,reaches_step (next_fulfilled hf _ K) rfl hrun⟩
 have hstuck:next (runtime host printer)
   (.backwardMachine c,⟨(),.app1 [t,es] none::K⟩) ≠ none := by
  intro hnone
  rcases Relation.ReflTransGen.cases_head hrun with heq | ⟨q,hq,-⟩
  · exact absurd (congrArg Prod.fst heq) (by simp [delivered])
  · rw [Option.mem_def,hnone] at hq
    cases hq
 cases c with
 | valObligation env party act due followup lest=>
  exact (ih _ (later_first rfl rfl hrun)).2 ⟨env,party,act,due,followup,lest⟩ _ _ _ rfl
 | valROp env op l r=>exact shows_rOp hrun ih
 | valBreached reason=>exact ⟨_,.breached reason t es,reaches_step rfl rfl hrun⟩
 | valConstructor n rs=>
  refine absurd ?_ hstuck
  simp only [next_backward,backwardFrame,backwardApp1,hf]
  rfl
 | valClosure | valNullaryBuiltinFun | valUnaryBuiltinFun | valBinaryBuiltinFun
 | valTernaryBuiltinFun | valPartialTernary | valPartialTernary2 | valUnappliedConstructor=>
  first | exact absurd rfl hfun | exact absurd rfl hstuck
 | _=>exact absurd rfl hstuck

theorem run_shows (q:State) (hrun:Goes host printer q (delivered w)) :
  Shows host printer w q := by
 refine run_induction (f := next (runtime host printer)) (z := delivered w) rfl ?_ q hrun
 intro q hq ih
 refine ⟨fun c t es K heq=>?_,fun o t es K heq=>?_⟩
 · subst heq
   exact shows_applied hq fun q hq=>ih q hq.1 hq.2
 · subst heq
   exact shows_obligation hq fun q hq=>ih q hq.1 hq.2

theorem applies_iff (c:Value Closure) (t es:Closure) (v:Value Closure) :
  Applies host printer c t es v ↔ Applied host printer c t es v := by
 constructor
 · intro h
   obtain ⟨v', hv', hrest⟩:=(run_shows _ h).1 c t es [] rfl
   have hdone:Goes host printer (.backwardMachine v', ⟨(),[]⟩) (delivered v'):=.single rfl
   have heq:=reaches_end_unique hrest hdone rfl rfl
   obtain rfl : v=v' :=Config.doneMachine.inj (congrArg Prod.fst heq)
   exact hv'
 · intro h
   exact (h.goes []).tail rfl

theorem applied_unique {c v' : Value Closure}
  (h:Applied host printer c t es v) (h' : Applied host printer c t es v') : v=v' := by
 have heq:=reaches_end_unique ((applies_iff c t es v).2 h) ((applies_iff c t es v').2 h') rfl rfl
 exact Config.doneMachine.inj (congrArg Prod.fst heq)

end L4Ide.ContractInversion
