import L4Ide.ContractInversion

set_option autoImplicit false

/-!
# The status of RAND and ROR

What an operator comes to, told by what its operands come to on the same events.
-/
namespace L4Ide.OperatorStatus
open Syntax ValueLazy Machine CallByName ContractRuns ContractInversion

inductive Status where
 | fulfilled
 | breached
 | residual
 deriving DecidableEq, Repr

def status (v:Value Closure) : Status :=
 if fulfilView v then .fulfilled
 else
  match v with
  | .valBreached _=>.breached
  | _=>.residual

/-- RAND is breached by either operand and fulfilled by both; ROR the other way round. -/
def StatusLaw : RBinOp → Status → Status → Status → Prop
 | .valRAnd, s1, s2, s=>
  (s = .breached ↔ s1 = .breached ∨ s2 = .breached) ∧
   (s = .fulfilled ↔ s1 = .fulfilled ∧ s2 = .fulfilled)
 | .valROr, s1, s2, s=>
  (s = .fulfilled ↔ s1 = .fulfilled ∨ s2 = .fulfilled) ∧
   (s = .breached ↔ s1 = .breached ∧ s2 = .breached)

def isExplicit : Value Closure → Bool
 | .valBreached (.explicitBreach _ _)=>true
 | _=>false

/-- Both are breached, and not both by their deadlines. -/
def MixedBreach (v1 v2:Value Closure) : Prop :=
 status v1 = .breached ∧ status v2 = .breached ∧ (isExplicit v1=true ∨ isExplicit v2=true)

theorem status_fulfilled_iff (v:Value Closure) : status v = .fulfilled ↔ fulfilView v=true := by
 unfold status
 split
 · simp_all
 · split <;> simp_all

theorem status_breached_iff (v:Value Closure) :
  status v = .breached ↔ ∃ reason, v = .valBreached reason := by
 cases v with
 | valBreached reason=>exact ⟨fun _=>⟨reason,rfl⟩,fun _=>rfl⟩
 | _=>
  unfold status
  split <;> simp

theorem status_valFulfilled : status valFulfilled = .fulfilled := rfl

theorem status_valROp (env:Env Closure) (op:RBinOp) (l r:MaybeEvaluated Closure) :
  status (.valROp env op l r) = .residual := rfl

section Combine
variable {env:Env Closure} {op:RBinOp} {v1 v2:Value Closure}

def deadlineStamp : Value Closure → Option ℚ
 | .valBreached (.deadlineMissed _ _ stamp _ _ _)=>some stamp
 | _=>none

theorem deadlineStamp_eq_some {v:Value Closure} {s:ℚ} (h:deadlineStamp v=some s) :
  ∃ evParty evAct party act d, v = .valBreached (.deadlineMissed evParty evAct s party act d) := by
 unfold deadlineStamp at h
 split at h
 · next evParty evAct stamp party act d=>
   obtain rfl:=Option.some.inj h
   exact ⟨evParty,evAct,party,act,d,rfl⟩
 · cases h

theorem status_of_deadlineStamp {v:Value Closure} {s:ℚ} (h:deadlineStamp v=some s) :
  status v = .breached := by
 obtain ⟨_,_,_,_,_,rfl⟩:=deadlineStamp_eq_some h
 rfl

theorem not_fulfilled_of_breached {v:Value Closure} (h:status v = .breached) :
  fulfilView v=false := by
 obtain ⟨reason,rfl⟩:=(status_breached_iff v).1 h
 rfl

theorem combine_deadlines {s1 s2:ℚ} (h1:deadlineStamp v1=some s1)
  (h2:deadlineStamp v2=some s2) :
  combine env op v1 v2 =
   match op with
   | .valRAnd=>if s1 ≤ s2 then v1 else v2
   | .valROr=>if s1 ≤ s2 then v2 else v1 := by
 obtain ⟨_,_,_,_,_,rfl⟩:=deadlineStamp_eq_some h1
 obtain ⟨_,_,_,_,_,rfl⟩:=deadlineStamp_eq_some h2
 unfold combine
 cases op <;> simp only <;> split <;> rfl

theorem combine_eq_other (h:deadlineStamp v1=none ∨ deadlineStamp v2=none) :
  combine env op v1 v2=combineOther env op v1 v2 := by
 unfold combine
 split
 · rcases h with h | h <;> cases h
 · rfl

theorem combine_fulfilled (h1:fulfilView v1=true) (h2:fulfilView v2=true) :
  combine env op v1 v2=valFulfilled := by
 have hnone:deadlineStamp v1=none:=by
  cases v1 with
  | valBreached reason=>cases h1
  | _=>rfl
 rw [combine_eq_other (.inl hnone)]
 unfold combineOther
 rw [if_pos (by rw [h1,h2,Bool.and_self])]

theorem combine_rAnd_left (hb:status v1 = .breached)
  (h:deadlineStamp v1=none ∨ deadlineStamp v2=none) :
  combine env .valRAnd v1 v2=v1 := by
 obtain ⟨reason,rfl⟩:=(status_breached_iff v1).1 hb
 rw [combine_eq_other h,combineOther,not_fulfilled_of_breached hb,Bool.and_false]
 rfl

theorem combine_rAnd_right (h1:status v1 ≠ .breached) (hb:status v2 = .breached) :
  combine env .valRAnd v1 v2=v2 := by
 have hnone:deadlineStamp v1=none:=by
  cases hs:deadlineStamp v1 with
  | none=>rfl
  | some s=>exact absurd (status_of_deadlineStamp hs) h1
 obtain ⟨reason,rfl⟩:=(status_breached_iff v2).1 hb
 rw [combine_eq_other (.inl hnone)]
 unfold combineOther
 rw [if_neg (by rw [not_fulfilled_of_breached hb,Bool.false_and]; simp)]
 cases v1 with
 | valBreached reason1=>exact absurd rfl h1
 | _=>rfl

theorem combineOther_waits (h1:status v1 ≠ .breached) (h2:status v2 ≠ .breached) :
  combineOther env .valRAnd v1 v2 =
   if fulfilView v2 && fulfilView v1 then valFulfilled
   else .valROp env .valRAnd (.inr v1) (.inr v2) := by
 unfold combineOther
 split
 · rfl
 · split
   · exact absurd rfl h1
   · exact absurd rfl h2
   · simp

theorem combine_rAnd_waits (h1:status v1 ≠ .breached) (h2:status v2 ≠ .breached)
  (hf:¬ (fulfilView v1=true ∧ fulfilView v2=true)) :
  combine env .valRAnd v1 v2 = .valROp env .valRAnd (.inr v1) (.inr v2) := by
 have hnone:deadlineStamp v1=none:=by
  cases hs:deadlineStamp v1 with
  | none=>rfl
  | some s=>exact absurd (status_of_deadlineStamp hs) h1
 rw [combine_eq_other (.inl hnone),combineOther_waits h1 h2,if_neg]
 rw [Bool.and_eq_true]
 exact fun h=>hf ⟨h.2,h.1⟩

theorem combineOther_rOr :
  combineOther env .valROr v1 v2 =
   if fulfilView v1 || fulfilView v2 then valFulfilled
   else .valROp env .valROr (.inr v1) (.inr v2) := by
 unfold combineOther
 cases h1:fulfilView v1 <;> cases h2:fulfilView v2 <;> simp [h1,h2]

theorem combine_rOr_fulfilled (h:fulfilView v1=true ∨ fulfilView v2=true) :
  combine env .valROr v1 v2=valFulfilled := by
 have hnone:deadlineStamp v1=none ∨ deadlineStamp v2=none:=by
  by_contra hne
  rw [not_or,←ne_eq,←ne_eq,Option.ne_none_iff_exists', Option.ne_none_iff_exists'] at hne
  obtain ⟨⟨s1,hs1⟩,s2,hs2⟩:=hne
  rcases h with h | h
  · rw [not_fulfilled_of_breached (status_of_deadlineStamp hs1)] at h
    cases h
  · rw [not_fulfilled_of_breached (status_of_deadlineStamp hs2)] at h
    cases h
 rw [combine_eq_other hnone,combineOther_rOr,if_pos]
 rwa [Bool.or_eq_true]

theorem combine_rOr_waits (h1:fulfilView v1=false) (h2:fulfilView v2=false)
  (h:deadlineStamp v1=none ∨ deadlineStamp v2=none) :
  combine env .valROr v1 v2 = .valROp env .valROr (.inr v1) (.inr v2) := by
 rw [combine_eq_other h,combineOther_rOr,h1,h2]
 rfl

theorem status_combine_rAnd (env:Env Closure) (v1 v2:Value Closure) :
  StatusLaw .valRAnd (status v1) (status v2) (status (combine env .valRAnd v1 v2)) := by
 by_cases h1:status v1 = .breached
 · have hb:status (combine env .valRAnd v1 v2) = .breached:=by
    cases hs1:deadlineStamp v1 with
    | none=>rw [combine_rAnd_left h1 (.inl hs1),h1]
    | some s1=>
     cases hs2:deadlineStamp v2 with
     | none=>rw [combine_rAnd_left h1 (.inr hs2),h1]
     | some s2=>
      rw [combine_deadlines hs1 hs2]
      simp only
      split
      · exact h1
      · exact status_of_deadlineStamp hs2
   simp [StatusLaw,h1,hb]
 · by_cases h2:status v2 = .breached
   · simp [StatusLaw,combine_rAnd_right h1 h2,h1,h2]
   · by_cases hf:fulfilView v1=true ∧ fulfilView v2=true
     · rw [combine_fulfilled hf.1 hf.2,(status_fulfilled_iff _).2 hf.1,
        (status_fulfilled_iff _).2 hf.2,status_valFulfilled]
       simp [StatusLaw]
     · rw [combine_rAnd_waits h1 h2 hf,status_valROp]
       rw [←status_fulfilled_iff,←status_fulfilled_iff] at hf
       simp [StatusLaw,h1,h2,hf]

theorem mixedBreach_iff (v1 v2:Value Closure) :
  MixedBreach v1 v2 ↔ status v1 = .breached ∧ status v2 = .breached ∧
   (deadlineStamp v1=none ∨ deadlineStamp v2=none) := by
 have hkind:∀ v, status v = .breached → (isExplicit v=true ↔ deadlineStamp v=none):=by
  intro v hv
  obtain ⟨reason,rfl⟩:=(status_breached_iff v).1 hv
  cases reason <;> simp [isExplicit,deadlineStamp]
 constructor
 · rintro ⟨h1,h2,hx⟩
   exact ⟨h1,h2,by rwa [←hkind v1 h1,←hkind v2 h2]⟩
 · rintro ⟨h1,h2,hx⟩
   exact ⟨h1,h2,by rwa [hkind v1 h1,hkind v2 h2]⟩

theorem status_combine_rOr (env:Env Closure) (v1 v2:Value Closure) :
  StatusLaw .valROr (status v1) (status v2) (status (combine env .valROr v1 v2)) ↔
   ¬ MixedBreach v1 v2 := by
 rw [mixedBreach_iff]
 by_cases hf:fulfilView v1=true ∨ fulfilView v2=true
 · rw [combine_rOr_fulfilled hf,status_valFulfilled]
   rw [←status_fulfilled_iff,←status_fulfilled_iff] at hf
   rcases hf with hf | hf <;> simp [StatusLaw,hf]
 · rw [not_or,Bool.not_eq_true,Bool.not_eq_true] at hf
   have h1:status v1 ≠ .fulfilled:=by rw [ne_eq,status_fulfilled_iff,hf.1]; simp
   have h2:status v2 ≠ .fulfilled:=by rw [ne_eq,status_fulfilled_iff,hf.2]; simp
   by_cases hs:deadlineStamp v1=none ∨ deadlineStamp v2=none
   · rw [combine_rOr_waits hf.1 hf.2 hs,status_valROp]
     simp [StatusLaw,h1,h2,hs]
   · rw [not_or,←ne_eq,←ne_eq,Option.ne_none_iff_exists', Option.ne_none_iff_exists'] at hs
     obtain ⟨⟨s1,hs1⟩,s2,hs2⟩:=hs
     have hb1:=status_of_deadlineStamp hs1
     have hb2:=status_of_deadlineStamp hs2
     have hb:status (combine env .valROr v1 v2) = .breached:=by
      rw [combine_deadlines hs1 hs2]
      simp only
      split
      · exact hb2
      · exact hb1
     simp [StatusLaw,hb,hb1,hb2,hs1,hs2]

theorem combine_residual (env:Env Closure) (op:RBinOp) (v1 v2:Value Closure)
  (h:status (combine env op v1 v2) = .residual) :
  combine env op v1 v2 = .valROp env op (.inr v1) (.inr v2) := by
 cases op with
 | valRAnd=>
  obtain ⟨hb,hf⟩:=status_combine_rAnd env v1 v2
  rw [h,←not_iff_not,not_or] at hb
  rw [h,←not_iff_not,status_fulfilled_iff,status_fulfilled_iff] at hf
  have hb:=hb.1 (by simp)
  exact combine_rAnd_waits hb.1 hb.2 (hf.1 (by simp))
 | valROr=>
  by_cases hf:fulfilView v1=true ∨ fulfilView v2=true
  · rw [combine_rOr_fulfilled hf,status_valFulfilled] at h
    cases h
  · rw [not_or,Bool.not_eq_true,Bool.not_eq_true] at hf
    refine combine_rOr_waits hf.1 hf.2 ?_
    by_contra hs
    rw [not_or,←ne_eq,←ne_eq,Option.ne_none_iff_exists', Option.ne_none_iff_exists'] at hs
    obtain ⟨⟨s1,hs1⟩,s2,hs2⟩:=hs
    rw [combine_deadlines hs1 hs2] at h
    simp only at h
    split at h
    · rw [status_of_deadlineStamp hs2] at h
      cases h
    · rw [status_of_deadlineStamp hs1] at h
      cases h

end Combine

variable {host:Host} {printer:Printer}

theorem applies_rOp {env:Env Closure} (op:RBinOp) {l r:MaybeEvaluated Closure}
  {c1 c2:Value Closure} {t es:Closure} {v1 v2:Value Closure}
  (h1:HasValue host printer env l c1) (h2:HasValue host printer env r c2)
  (hv1:Applies host printer c1 t es v1) (hv2:Applies host printer c2 t es v2) :
  Applies host printer (.valROp env op l r) t es
   (if op = .valROr ∧ fulfilView v1=true then valFulfilled else combine env op v1 v2) := by
 rw [applies_iff] at hv1 hv2 ⊢
 split
 · next hop=>
   obtain ⟨rfl,hf⟩:=hop
   exact .rOrFulfilled env l r t es c1 v1 h1 hv1 hf
 · next hop=>exact .rOp env op l r t es c1 v1 c2 v2 h1 hv1 hop h2 hv2

/-- An operator obeys its law on the events exactly where it is no ROR whose operands are both
breached, one of them at least by an explicit BREACH; otherwise it waits, with its operands. -/
theorem statusLaw_iff (host:Host) (printer:Printer) (env:Env Closure) (op:RBinOp)
  (l r:MaybeEvaluated Closure) (c1 c2:Value Closure) (t es:Closure)
  (v1 v2:Value Closure) (h1:HasValue host printer env l c1)
  (h2:HasValue host printer env r c2) (hv1:Applies host printer c1 t es v1)
  (hv2:Applies host printer c2 t es v2) :
  ∃ v, (∀ v', Applies host printer (.valROp env op l r) t es v' ↔ v' = v) ∧
   (status v = .residual → v = .valROp env op (.inr v1) (.inr v2)) ∧
   (StatusLaw op (status v1) (status v2) (status v) ↔ ¬ (op = .valROr ∧ MixedBreach v1 v2)) := by
 have happ:=applies_rOp op h1 h2 hv1 hv2
 refine ⟨_,fun v' =>⟨fun h=>?_,fun h=>h ▸ happ⟩, ?_, ?_⟩
 · exact applied_unique ((applies_iff _ _ _ _).1 h) ((applies_iff _ _ _ _).1 happ)
 · split
   · simp [status_valFulfilled]
   · exact combine_residual env op v1 v2
 · split
   · next hop=>
     obtain ⟨rfl,hf⟩:=hop
     rw [(status_fulfilled_iff v1).2 hf,status_valFulfilled]
     simp [StatusLaw,MixedBreach,(status_fulfilled_iff v1).2 hf]
   · cases op with
     | valRAnd=>simp [status_combine_rAnd]
     | valROr=>simp [status_combine_rOr]

/-- A BREACH that names nobody. -/
def bareBreach : Value Closure := .valBreached (.explicitBreach none none)

theorem bareBreach_applies (t es:Closure) :
  Applies default default bareBreach t es bareBreach :=
 (applies_iff bareBreach t es bareBreach).2 (.breached _ t es)

theorem hasValue_bareBreach :
  HasValue default default [] (.inl (.breach none none)) bareBreach :=
 .single rfl

theorem statusLaw_rAnd_bareBreach :
  ∃ v, (∀ v', Applies default default (.valROp [] .valRAnd (.inl (.breach none none))
     (.inl (.breach none none))) (.whnf (.valNumber 0)) (.whnf .valNil) v' ↔ v' = v) ∧
   (status v = .residual → v = .valROp [] .valRAnd (.inr bareBreach) (.inr bareBreach)) ∧
   (StatusLaw .valRAnd (status bareBreach) (status bareBreach) (status v) ↔
    ¬ (RBinOp.valRAnd = .valROr ∧ MixedBreach bareBreach bareBreach)) :=
 statusLaw_iff default default [] .valRAnd _ _ bareBreach bareBreach _ _ bareBreach bareBreach
  hasValue_bareBreach hasValue_bareBreach (bareBreach_applies _ _) (bareBreach_applies _ _)

/-- BREACH ROR BREACH, applied to no events, waits. -/
theorem bareBreach_rOr_waits : ¬ ∀ (env:Env Closure) (op:RBinOp) (l r:MaybeEvaluated Closure)
  (c1 c2:Value Closure) (t es:Closure) (v1 v2 v:Value Closure),
  HasValue default default env l c1 → HasValue default default env r c2 →
  Applies default default c1 t es v1 → Applies default default c2 t es v2 →
  Applies default default (.valROp env op l r) t es v →
  StatusLaw op (status v1) (status v2) (status v) := by
 intro hall
 have happ:=applies_rOp .valROr hasValue_bareBreach hasValue_bareBreach
  (bareBreach_applies (.whnf (.valNumber 0)) (.whnf .valNil)) (bareBreach_applies _ _)
 have hlaw:=hall _ _ _ _ _ _ _ _ _ _ _ hasValue_bareBreach hasValue_bareBreach
  (bareBreach_applies _ _) (bareBreach_applies _ _) happ
 exact absurd (hlaw.2.2 ⟨rfl,rfl⟩) (by decide)

end L4Ide.OperatorStatus
