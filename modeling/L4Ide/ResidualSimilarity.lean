import L4Ide.OperatorStatus
import L4Ide.AbsoluteDeadlines

set_option autoImplicit false

/-!
# Results that differ in blame

An event has one effect on an obligation, and operators keep apart only what differs in more
than the reason of a breach at one stamp.
-/
namespace L4Ide.ResidualSimilarity
open Syntax ValueLazy Machine CallByName StateTransition DeterministicRuns MachineLocality
open ContractRuns ContractInversion OperatorStatus AbsoluteDeadlines

variable {host:Host} {printer:Printer}

section Unique

theorem hasValue_unique {env:Env Closure} {m:MaybeEvaluated Closure} {v v' : Value Closure}
  (h:HasValue host printer env m v) (h' : HasValue host printer env m v') : v=v' := by
 cases m with
 | inl e=>exact evaluates_unique h h'
 | inr w=>exact Eq.trans (Eq.symm h) h'

theorem compares_unique {v1 v2:Value Closure} {b b' : Bool} (h:Compares host printer v1 v2 b)
  (h' : Compares host printer v1 v2 b') : b=b' := by
 obtain ⟨c,k,v,hrun,hgoes,hv⟩:=h
 obtain ⟨c', k', v', hrun', hgoes', hv'⟩:=h'
 rw [hrun] at hrun'
 obtain ⟨rfl,heq⟩:=EStateM.Result.ok.inj hrun'
 obtain rfl:=(EvalState.mk.inj heq).2
 have hdone:=reaches_end_unique (hgoes.tail rfl : Goes host printer _ (delivered v))
  (hgoes'.tail rfl : Goes host printer _ (delivered v')) rfl rfl
 obtain rfl:=Config.doneMachine.inj (congrArg Prod.fst hdone)
 exact Option.some.inj (hv.symm.trans hv')

theorem not_mismatches {r:Closure} {env:Env Closure} {p:Pattern Resolved}
  {v:Value Closure} (h:Evaluates host printer (.matchPatternMachine r env p) v) :
  ¬ Mismatches host printer r env p := by
 rintro ⟨c1,s1,s2,hrun,hstep,-⟩
 have hnone:next (runtime host printer) (c1,s1)=none:=by
  cases c1 with
  | doneMachine w=>rfl
  | _=>simp only [next,hstep,continued]
 have hdone:=reaches_end_unique (h.tail rfl : Goes host printer _ (delivered v)) hrun rfl hnone
 obtain rfl : c1 = .doneMachine v:=(congrArg Prod.fst hdone).symm
 cases hstep

variable {t e:Closure} {ev:EventRead} {o:Obligation}
 {due': MaybeEvaluated' (Option RExpr) Closure}

theorem reads_unique {ev ev' : EventRead} (h:Reads host printer t e ev)
  (h' : Reads host printer t e ev') : ev=ev' := by
 obtain ⟨evParty,evAct,stampVal,timeVal⟩:=ev
 obtain ⟨evParty', evAct', stampVal', timeVal'⟩:=ev'
 obtain ⟨v,evTime,hv,hview,hstamp,htime⟩:=h
 obtain ⟨v', evTime', hv', hview', hstamp', htime'⟩:=h'
 obtain rfl:=evaluates_unique hv hv'
 obtain ⟨rfl,rfl,rfl⟩ : evParty=evParty' ∧ evAct=evAct' ∧ evTime=evTime' :=by
  have heq:=hview.symm.trans hview'
  simpa using heq
 rw [show stampVal=stampVal' from evaluates_unique hstamp hstamp',
  show timeVal=timeVal' from evaluates_unique htime htime']

theorem inTime_unique
  {due: MaybeEvaluated' (Option RExpr) Closure} (h:InTime host printer o ev due)
  (h' : InTime host printer o ev due') : due=due' := by
 have hnone:∀ d, o.due = .inl none → ¬ IsDue host printer o d:=by
  intro d hnone hd
  unfold IsDue at hd
  rw [hnone] at hd
  exact hd
 cases h with
 | noDue hn=>
  cases h' with
  | noDue=>rfl
  | due d _ _ hd=>exact absurd hd (hnone d hn)
 | due d stamp t hd hs ht hle=>
  cases h' with
  | noDue hn=>exact absurd hd (hnone d hn)
  | due d' stamp' t' hd' hs' ht' hle' =>
   obtain rfl:=isDue_unique hd hd'
   obtain rfl:=Value.valNumber.inj (hs.symm.trans hs')
   obtain rfl:=Value.valNumber.inj (ht.symm.trans ht')
   rfl

theorem not_inTime_of_late {d stamp t:ℚ}
  (hd:IsDue host printer o d)
  (hs:ev.stampVal = .valNumber stamp) (ht:ev.timeVal = .valNumber t) (h:stamp > t+d) :
  ¬ InTime host printer o ev due' := by
 intro hin
 cases hin with
 | noDue hn=>
  unfold IsDue at hd
  rw [hn] at hd
  exact hd
 | due d' stamp' t' hd' hs' ht' hle' =>
  obtain rfl:=isDue_unique hd hd'
  obtain rfl:=Value.valNumber.inj (hs.symm.trans hs')
  obtain rfl:=Value.valNumber.inj (ht.symm.trans ht')
  linarith

theorem performs_unique {party party' evParty evParty' : Value Closure}
  {henceEnv henceEnv' : Env Closure} (h:Performs host printer o ev party evParty henceEnv)
  (h' : Performs host printer o ev party' evParty' henceEnv') :
  party=party' ∧ evParty=evParty' ∧ henceEnv=henceEnv' := by
 obtain ⟨hp,hev,-,hm,-⟩:=h
 obtain ⟨hp', hev', -,hm', -⟩:=h'
 exact ⟨hasValue_unique hp hp', evaluates_unique hev hev',
  Value.valEnvironment.inj (evaluates_unique hm hm')⟩

theorem not_passes_of_performs {party party' evParty:Value Closure}
  {henceEnv:Env Closure} (h:Performs host printer o ev party evParty henceEnv) :
  ¬ Passes host printer o ev party' := by
 obtain ⟨hp,hev,hc,hm,v,hv,hb⟩:=h
 rintro ⟨hp', evParty', hev', hcases⟩
 obtain rfl:=hasValue_unique hp hp'
 obtain rfl:=evaluates_unique hev hev'
 rcases hcases with hc' | ⟨-,hmis | ⟨henceEnv', hm', v', hv', hb'⟩⟩
 · cases compares_unique hc hc'
 · exact not_mismatches hm hmis
 · obtain rfl:=Value.valEnvironment.inj (evaluates_unique hm hm')
   obtain rfl:=evaluates_unique hv hv'
   rw [hb] at hb'
   cases hb'

theorem scrutinised_unique {stamp stamp' : Value Closure}
  {out out' : Outcome} (h:Scrutinised host printer o t e stamp out)
  (h' : Scrutinised host printer o t e stamp' out') : stamp=stamp' ∧ out=out' := by
 cases h with
 | late ev d s q out hev hd hs ht hlate hout=>
  cases h' with
  | late ev' d' s' q' out' hev' hd' hs' ht' hlate' hout' =>
   obtain rfl:=reads_unique hev hev'
   obtain rfl:=isDue_unique hd hd'
   obtain rfl:=Value.valNumber.inj (hs.symm.trans hs')
   obtain rfl:=Value.valNumber.inj (ht.symm.trans ht')
   exact ⟨rfl,Option.some.inj (hout.symm.trans hout')⟩
  | passes ev' due' party hev' hin hp=>
   obtain rfl:=reads_unique hev hev'
   exact absurd hin (not_inTime_of_late hd hs ht hlate)
  | performs ev' due' party evParty henceEnv out' hev' hin hp hout' =>
   obtain rfl:=reads_unique hev hev'
   exact absurd hin (not_inTime_of_late hd hs ht hlate)
 | passes ev due party hev hin hp=>
  cases h' with
  | late ev' d' s' q' out' hev' hd' hs' ht' hlate' hout' =>
   obtain rfl:=reads_unique hev hev'
   exact absurd hin (not_inTime_of_late hd' hs' ht' hlate')
  | passes ev' due' party' hev' hin' hp' =>
   obtain rfl:=reads_unique hev hev'
   rw [inTime_unique hin hin', hasValue_unique hp.1 hp'.1]
   exact ⟨rfl,rfl⟩
  | performs ev' due' party' evParty henceEnv out' hev' hin' hp' hout' =>
   obtain rfl:=reads_unique hev hev'
   exact absurd hp (not_passes_of_performs hp')
 | performs ev due party evParty henceEnv out hev hin hp hout=>
  cases h' with
  | late ev' d' s' q' out' hev' hd' hs' ht' hlate' hout' =>
   obtain rfl:=reads_unique hev hev'
   exact absurd hin (not_inTime_of_late hd' hs' ht' hlate')
  | passes ev' due' party' hev' hin' hp' =>
   obtain rfl:=reads_unique hev hev'
   exact absurd hp' (not_passes_of_performs hp)
  | performs ev' due' party' evParty' henceEnv' out' hev' hin' hp' hout' =>
   obtain rfl:=reads_unique hev hev'
   obtain ⟨rfl,rfl,rfl⟩:=performs_unique hp hp'
   exact ⟨rfl,Option.some.inj (hout.symm.trans hout')⟩

end Unique

section Similar

/-- The same result, but for the reason of a breach at a stamp where the reason is open. -/
inductive Similar (tie:Prop) : Value Closure → Value Closure → Prop where
 | refl (v:Value Closure) : Similar tie v v
 | tied (v v' : Value Closure) (s:ℚ) (h:tie) (hv:deadlineStamp v=some s)
   (hv' : deadlineStamp v' = some s) : Similar tie v v'
 | rOp (env:Env Closure) (op:RBinOp) (a a' b b' : Value Closure) (ha:Similar tie a a')
   (hb:Similar tie b b') :
   Similar tie (.valROp env op (.inr a) (.inr b)) (.valROp env op (.inr a') (.inr b'))

variable {tie:Prop} {v v' v1 v2 v1' v2' : Value Closure}

theorem Similar.eq (h:Similar tie v v') (htie:¬ tie) : v=v' := by
 induction h with
 | refl=>rfl
 | tied v v' s ht=>exact absurd ht htie
 | rOp env op a a' b b' _ _ iha ihb=>rw [iha,ihb]

theorem Similar.mono {tie' : Prop} (h:Similar tie v v') (htie:tie → tie') :
  Similar tie' v v' := by
 induction h with
 | refl v=>exact .refl v
 | tied v v' s ht hv hv' =>exact .tied v v' s (htie ht) hv hv'
 | rOp env op a a' b b' _ _ iha ihb=>exact .rOp env op a a' b b' iha ihb

theorem Similar.deadlineStamp_eq (h:Similar tie v v') : deadlineStamp v=deadlineStamp v' := by
 cases h with
 | refl=>rfl
 | tied v v' s ht hv hv' =>rw [hv,hv']
 | rOp=>rfl

variable {s:ℚ}

theorem isExplicit_of_deadlineStamp (h:deadlineStamp v=some s) :
  isExplicit v=false := by
 obtain ⟨_,_,_,_,_,rfl⟩:=deadlineStamp_eq_some h
 rfl

theorem Similar.isExplicit_eq (h:Similar tie v v') : isExplicit v=isExplicit v' := by
 cases h with
 | refl=>rfl
 | tied v v' s ht hv hv' =>
  rw [isExplicit_of_deadlineStamp hv,isExplicit_of_deadlineStamp hv']
 | rOp=>rfl

theorem Similar.status_eq (h:Similar tie v v') : status v=status v' := by
 cases h with
 | refl=>rfl
 | tied v v' s ht hv hv' =>rw [status_of_deadlineStamp hv,status_of_deadlineStamp hv']
 | rOp=>rfl

theorem Similar.fulfilView_eq (h:Similar tie v v') : fulfilView v=fulfilView v' := by
 rw [Bool.eq_iff_iff,←status_fulfilled_iff,←status_fulfilled_iff,h.status_eq]

theorem eq_none_or_eq_some {o1 o2:Option ℚ} (h:¬ (o1=none ∨ o2=none)) :
  ∃ s1 s2, o1=some s1 ∧ o2=some s2 := by
 cases o1 with
 | none=>exact absurd (.inl rfl) h
 | some s1=>
  cases o2 with
  | none=>exact absurd (.inr rfl) h
  | some s2=>exact ⟨s1,s2,rfl,rfl⟩

theorem combine_similar (env:Env Closure) (op:RBinOp) (h1:Similar tie v1 v1')
  (h2:Similar tie v2 v2') : Similar tie (combine env op v1 v2) (combine env op v1' v2') := by
 by_cases hs:deadlineStamp v1=none ∨ deadlineStamp v2=none
 · have hs' : deadlineStamp v1' = none ∨ deadlineStamp v2' = none:=by
    rwa [←h1.deadlineStamp_eq,←h2.deadlineStamp_eq]
   cases op with
   | valRAnd=>
    by_cases hb1:status v1 = .breached
    · rw [combine_rAnd_left hb1 hs,combine_rAnd_left (h1.status_eq ▸ hb1) hs']
      exact h1
    · have hb1' : status v1' ≠ .breached:=h1.status_eq ▸ hb1
      by_cases hb2:status v2 = .breached
      · rw [combine_rAnd_right hb1 hb2,combine_rAnd_right hb1' (h2.status_eq ▸ hb2)]
        exact h2
      · have hb2' : status v2' ≠ .breached:=h2.status_eq ▸ hb2
        by_cases hf:fulfilView v1=true ∧ fulfilView v2=true
        · rw [combine_fulfilled hf.1 hf.2,
           combine_fulfilled (h1.fulfilView_eq ▸ hf.1) (h2.fulfilView_eq ▸ hf.2)]
          exact .refl _
        · rw [combine_rAnd_waits hb1 hb2 hf,
           combine_rAnd_waits hb1' hb2' (by rwa [←h1.fulfilView_eq,←h2.fulfilView_eq])]
          exact .rOp env _ _ _ _ _ h1 h2
   | valROr=>
    by_cases hf:fulfilView v1=true ∨ fulfilView v2=true
    · rw [combine_rOr_fulfilled hf,combine_rOr_fulfilled
       (by rwa [←h1.fulfilView_eq,←h2.fulfilView_eq])]
      exact .refl _
    · rw [not_or,Bool.not_eq_true,Bool.not_eq_true] at hf
      rw [combine_rOr_waits hf.1 hf.2 hs,combine_rOr_waits (h1.fulfilView_eq ▸ hf.1)
       (h2.fulfilView_eq ▸ hf.2) hs']
      exact .rOp env _ _ _ _ _ h1 h2
 · obtain ⟨s1,s2,hs1,hs2⟩:=eq_none_or_eq_some hs
   rw [combine_deadlines hs1 hs2,combine_deadlines (h1.deadlineStamp_eq ▸ hs1)
    (h2.deadlineStamp_eq ▸ hs2)]
   cases op <;> simp only <;> split <;> assumption

theorem deadlineStamp_combine {env:Env Closure} {op:RBinOp}
  (h:deadlineStamp (combine env op v1 v2)=some s) :
  deadlineStamp v1=some s ∨ deadlineStamp v2=some s := by
 by_cases hs:deadlineStamp v1=none ∨ deadlineStamp v2=none
 · have hres:status (combine env op v1 v2) = .breached:=status_of_deadlineStamp h
   cases op with
   | valRAnd=>
    by_cases hb1:status v1 = .breached
    · rw [combine_rAnd_left hb1 hs] at h
      exact .inl h
    · by_cases hb2:status v2 = .breached
      · rw [combine_rAnd_right hb1 hb2] at h
        exact .inr h
      · rw [(status_combine_rAnd env v1 v2).1] at hres
        rcases hres with hres | hres
        · exact absurd hres hb1
        · exact absurd hres hb2
   | valROr=>
    by_cases hf:fulfilView v1=true ∨ fulfilView v2=true
    · rw [combine_rOr_fulfilled hf] at h
      cases h
    · rw [not_or,Bool.not_eq_true,Bool.not_eq_true] at hf
      rw [combine_rOr_waits hf.1 hf.2 hs] at h
      cases h
 · obtain ⟨s1,s2,hs1,hs2⟩:=eq_none_or_eq_some hs
   rw [combine_deadlines hs1 hs2] at h
   cases op <;> simp only at h <;> split at h <;> simp [h]

end Similar

end L4Ide.ResidualSimilarity
