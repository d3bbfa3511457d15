import L4Ide.MachineHandlers

set_option autoImplicit false

/-!
# A step looks only at the top of the stack

On a machine without a limit on its frames, a computation does the same whatever
lies below its own frames, until it returns a value to them or gives up a pattern match.
-/
namespace L4Ide.MachineLocality
open Syntax Environment ValueLazy Machine MachineLogic MachineHandlers StateTransition

variable {R H A B:Type} {rt:Runtime R H}

def extend (rt:Runtime R H) (K:List (Frame R)) :
  EStateM.Result (EvalException R) (EvalState R H) A →
   EStateM.Result (EvalException R) (EvalState R H) A
 | .ok a s=>.ok a ⟨s.heap,s.stack ++ K⟩
 | .error e s=>.error e ⟨unwindStack rt K s.heap,[]⟩

/-- As `extend`, but a failed pattern match unwinds the frames below. -/
def resume (rt:Runtime R H) (K:List (Frame R)) :
  EStateM.Result (EvalException R) (EvalState R H) (Config R) →
   EStateM.Result (EvalException R) (EvalState R H) (Config R)
 | .ok c s=>.ok c ⟨s.heap,s.stack ++ K⟩
 | .error (.internalEvalException .unhandledPatternMatch) s=>unwindToMatch rt K s
 | .error e s=>.error e ⟨unwindStack rt K s.heap,[]⟩

/-- Blind to the frames below, and no failed pattern match comes out of it. -/
def Quiet (rt:Runtime R H) (x:Eval R H A) : Prop :=
 (∀ h k K, x ⟨h,k ++ K⟩=extend rt K (x ⟨h,k⟩)) ∧ ∀ s s', x s ≠ .error unhandled s'

/-- Blind to the frames below, but for a failed pattern match. -/
class Local (rt:Runtime R H) (x:Eval R H (Config R)) : Prop where
 blind : ∀ h k K, x ⟨h,k ++ K⟩=resume rt K (x ⟨h,k⟩)

theorem resume_eq_extend {K:List (Frame R)}
  {r:EStateM.Result (EvalException R) (EvalState R H) (Config R)}
  (h:∀ s, r ≠ .error unhandled s) : resume rt K r=extend rt K r := by
 cases r with
 | ok c s=>rfl
 | error e s=>
  have he:e ≠ unhandled:=fun heq=>h s (by rw [heq])
  cases e with
  | internalEvalException e=>
   cases e with
   | unhandledPatternMatch=>exact absurd rfl he
   | runtimeScopeError n=>rfl
   | runtimeTypeError msg=>rfl
  | userEvalException e=>rfl
  | refusalException r=>rfl

variable {x:Eval R H A} {f:A → Eval R H B}

variable {s s': EvalState R H} {e:EvalException R}

theorem bind_ok {a:A} (h:x s = .ok a s') : (x >>= f) s=f a s' := by
 simp only [bind,EStateM.bind,h]

theorem bind_error
  (h:x s = .error e s') : (x >>= f) s = .error e s' := by
 simp only [bind,EStateM.bind,h]

theorem quiet_pure (a:A) : Quiet rt (pure a:Eval R H A) :=
 ⟨fun _ _ _=>rfl,fun _ _ h=>by cases h⟩

theorem quiet_bind (hx:Quiet rt x) (hf:∀ a, Quiet rt (f a)) : Quiet rt (x >>= f) := by
 refine ⟨fun h k K=>?_,fun s s' heq=>?_⟩
 · have hk:=hx.1 h k K
   cases hrun:x ⟨h,k⟩ with
   | ok a s=>
    rw [hrun] at hk
    rw [bind_ok hk,bind_ok hrun]
    exact (hf a).1 s.heap s.stack K
   | error e s=>
    rw [hrun] at hk
    rw [bind_error hk,bind_error hrun]
    rfl
 · cases hrun:x s with
   | ok a t=>
    rw [bind_ok hrun] at heq
    exact (hf a).2 t s' heq
   | error e t=>
    rw [bind_error hrun] at heq
    have he:e=unhandled:=(EStateM.Result.error.inj heq).1
    exact hx.2 s t (by rw [hrun,he])

theorem unwindStack_append (k K:List (Frame R)) (h:H) :
  unwindStack rt (k ++ K) h=unwindStack rt K (unwindStack rt k h) := by
 induction k generalizing h with
 | nil=>rfl
 | cons f k ih=>exact ih _

theorem quiet_raise (he:e ≠ unhandled) :
  Quiet rt (raiseException rt e:Eval R H A) := by
 refine ⟨fun h k K=>?_,fun s s' heq=>?_⟩
 · simp only [raiseException,extend,unwindStack_append]
 · simp only [raiseException,EStateM.Result.error.injEq] at heq
   exact he heq.1

theorem quiet_onHeap (op:H → A × H) : Quiet rt (onHeap op:Eval R H A) :=
 ⟨fun _ _ _=>rfl,fun _ _ h=>by cases h⟩

/-- The machine has no limit on its frames. -/
class Unlimited (rt:Runtime R H) : Prop where
 depth : rt.maximumFrameDepth=none

section Functions
variable [hrt:Unlimited rt]

theorem stackIsFull_false (size:ℕ) : stackIsFull rt size=false := by
 simp [stackIsFull,hrt.depth]

theorem pushFrame_ok (f:Frame R) (s:EvalState R H) :
  pushFrame rt f s = .ok () ⟨s.heap,f::s.stack⟩ := by
 simp [pushFrame,stackIsFull_false]

theorem quiet_pushFrame (f:Frame R) : Quiet rt (pushFrame rt f) := by
 refine ⟨fun h k K=>?_,fun s s' heq=>?_⟩
 · rw [pushFrame_ok,pushFrame_ok]
   rfl
 · rw [pushFrame_ok] at heq
   cases heq

def quietLogic (rt:Runtime R H) [Unlimited rt] : Logic rt where
 does:=Quiet rt
 leads:=Quiet rt
 doesPure:=quiet_pure
 doesBind _ _ := quiet_bind
 doesRaise _ := quiet_raise
 doesAllocateRecursive _ _ := quiet_onHeap _
 doesAllocateValue _ := quiet_onHeap _
 doesEvalRecLocalDecls _ _ := quiet_onHeap _
 doesPush f _ _ := quiet_pushFrame f
 leadsBind _ _ := quiet_bind
 leadsRaise _ := quiet_raise
 leadsForward _ _ := quiet_pure _
 leadsBranches _ _ _ _ := quiet_pure _
 leadsBackward _ := quiet_pure _
 leadsRef _ := quiet_pure _

theorem does_quiet {x:Eval R H A} (h:Does (quietLogic rt) x) : Quiet rt x := h.holds

variable {x:Eval R H (Config R)} {s s': EvalState R H}

theorem leads_quiet (h:Leads (quietLogic rt) x) : Quiet rt x := h.holds

omit hrt in
theorem Quiet.local (hx:Quiet rt x) : Local rt x where
 blind h k K := by
  rw [resume_eq_extend (hx.2 _)]
  exact hx.1 h k K

instance (priority := low) (x:Eval R H (Config R)) [hx:Leads (quietLogic rt) x] :
  Local rt x := (leads_quiet hx).local

instance (f:Frame R) : Does (quietLogic rt) (pushFrame rt f) := ⟨quiet_pushFrame f⟩

instance (op:H → A × H) : Does (quietLogic rt) (onHeap op:Eval R H A) := ⟨quiet_onHeap op⟩

instance (r:R) (env:Env R) (p:Pattern Resolved) :
  Local rt (continuePattern r env p:Eval R H (Config R)) := (quiet_pure _).local

instance (x:Eval R H A) (f:A → Eval R H (Config R)) [hx:Does (quietLogic rt) x]
  [hf:∀ a, Local rt (f a)] : Local rt (x >>= f) where
 blind h k K := by
  have hk:=(does_quiet hx).1 h k K
  cases hrun:x ⟨h,k⟩ with
  | ok a s=>
   rw [hrun] at hk
   rw [bind_ok hk,bind_ok hrun]
   exact (hf a).blind s.heap s.stack K
  | error e s=>
   have hne:∀ t, (.error e s : EStateM.Result _ _ (Config R)) ≠ .error unhandled t:=by
    intro t heq
    have he:e=unhandled:=(EStateM.Result.error.inj heq).1
    exact (does_quiet hx).2 _ s (by rw [hrun,he])
   rw [hrun] at hk
   rw [bind_error hk,bind_error hrun,resume_eq_extend hne]
   rfl

omit hrt in
theorem unwindToMatch_heap (k:List (Frame R)) (h:s'.heap=s.heap) :
  unwindToMatch rt k s' = unwindToMatch rt k s := by
 induction k with
 | nil=>simp only [unwindToMatch,h]
 | cons f k ih=>
  cases f with
  | considerWhen1 g r e bs env=>simp only [unwindToMatch,h]
  | contractFrame g=>
   cases g with
   | contract11 g=>simp only [unwindToMatch,h]
   | _=>exact ih
  | _=>exact ih

theorem unwindToMatch_append (k K:List (Frame R)) (h:s'.heap=s.heap) :
  unwindToMatch rt (k ++ K) s' = resume rt K (unwindToMatch rt k s) := by
 induction k with
 | nil=>exact unwindToMatch_heap K h
 | cons f k ih=>
  cases f with
  | considerWhen1 g r e bs env=>
   simp only [List.cons_append,unwindToMatch,h]
   rfl
  | contractFrame g=>
   cases g with
   | contract11 g=>
    simp only [List.cons_append,unwindToMatch,h]
    exact (inferInstance:Local rt (do
     let newTime ← allocateValue rt g.time
     pushFrame rt (.contractFrame
      (.contract1 { g with party:=.inr g.party,time:=newTime }))
     continueRef g.events : Eval R H (Config R))).blind s.heap k K
   | _=>exact ih
  | _=>exact ih

instance : Local rt (patternMatchFailure rt) where
 blind h k K := 
  unwindToMatch_append k K (rfl:(⟨h,k ++ K⟩ : EvalState R H).heap=(⟨h,k⟩ : EvalState R H).heap)

instance (n:Resolved) (env:Env R) (ps:List (Pattern Resolved)) (val:Value R) :
  Local rt (backwardPatApp0 rt n env ps val) := by
 unfold backwardPatApp0
 split <;> try infer_instance
 split <;> try infer_instance
 split <;> try infer_instance
 split <;> infer_instance

instance (envs:List (Env R)) (env:Env R) (rps:List (R × Pattern Resolved)) :
  Local rt (backwardPatApp1 rt envs env rps) := by
 unfold backwardPatApp1
 split <;> infer_instance

instance (f:ScrutinizeParty R) (val:Value R) : Local rt (backwardContract8 rt f val) := by
 unfold backwardContract8 pushCFrame
 split <;> infer_instance

theorem local_backwardFrame (val:Value R) (f:Frame R) : Local rt (backwardFrame rt val f) := by
 cases hp:isPatternFrame f
 · cases hu:isUpdateFrame f
   · cases h8:isPartyFrame f
     · exact (leads_quiet (leads_backwardFrame (quietLogic rt) val f hp hu h8)).local
     · unfold isPartyFrame at h8
       split at h8
       · simp only [backwardFrame,backwardContractFrame]
         infer_instance
       · cases h8
   · cases f <;> try cases hu
     simp only [backwardFrame]
     infer_instance
 · cases f <;> try cases hp
   all_goals simp only [backwardFrame]
   all_goals first | infer_instance | (split <;> infer_instance)

instance (clauses:Option PmGroup) (r:R) (env:Env R) (bs:List (Branch Resolved)) :
  Local rt (matchBranches rt clauses r env bs) := by
 unfold matchBranches
 split <;> try infer_instance
 refine ⟨fun h k K=>?_⟩
 exact (inferInstance:Local rt (userException rt _:Eval R H (Config R))).blind h k K

instance (r:R) (env:Env R) (p:Pattern Resolved) : Local rt (matchPattern rt r env p) := by
 unfold matchPattern
 split <;> try infer_instance
 split <;> infer_instance

theorem quiet_evalRef (r:R) : Quiet rt (evalRef rt r) := by
 refine quiet_bind (quiet_onHeap _) fun poked=>?_
 split
 · exact leads_quiet inferInstance
 · exact leads_quiet inferInstance
 · exact quiet_bind (quiet_pushFrame _) fun _=>quiet_pure _

end Functions

section Runs
variable [hrt:Unlimited rt]

variable {c c' : Config R} {s:EvalState R H} {h h' : H} {k k' K:List (Frame R)} {v:Value R}

variable {s': EvalState R H} {p:Config R × EvalState R H}

omit hrt in
theorem next_of_step (hc:∀ v, c ≠ .doneMachine v)
  (h:step rt c s = .ok c' s') : next rt (c,s)=some (c', s') := by
 cases c with
 | doneMachine v=>exact absurd rfl (hc v)
 | _=>simp only [next,h,continued]

omit hrt in
theorem step_of_next (h:next rt (c,s)=some (c', s')) :
  (∀ v, c ≠ .doneMachine v) ∧ step rt c s = .ok c' s' := by
 have hc:∀ v, c ≠ .doneMachine v:=by
  rintro v rfl
  simp [next] at h
 refine ⟨hc, ?_⟩
 cases hstep:step rt c s with
 | ok c'' s'' =>
  rw [next_of_step hc hstep] at h
  simp only [Option.some.injEq,Prod.mk.injEq] at h
  rw [h.1,h.2]
 | error e s'' =>
  exfalso
  cases c with
  | doneMachine v=>exact hc v rfl
  | _=>simp [next,hstep,continued] at h

theorem step_append (K:List (Frame R))
  (hc:∀ v, c ≠ .doneMachine v) (hk:∀ v, c = .backwardMachine v → k ≠ []) :
  step rt c ⟨h,k ++ K⟩=resume rt K (step rt c ⟨h,k⟩) := by
 cases c with
 | forwardMachine env e=>exact (inferInstance:Local rt (forwardExpr rt env e)).blind h k K
 | matchBranchesMachine g r env bs=>
  exact (inferInstance:Local rt (matchBranches rt g r env bs)).blind h k K
 | matchPatternMachine r env p=>
  exact (inferInstance:Local rt (matchPattern rt r env p)).blind h k K
 | evalRefMachine r=>exact (quiet_evalRef r).local.blind h k K
 | doneMachine v=>exact absurd rfl (hc v)
 | backwardMachine v=>
  cases k with
  | nil=>exact absurd rfl (hk v rfl)
  | cons f k=>exact (local_backwardFrame v f).blind h k K

omit hrt in
theorem step_backward_nil (v:Value R) (h:H) :
  step rt (.backwardMachine v) ⟨h,[]⟩ = .ok (.doneMachine v) ⟨h,[]⟩ := rfl

theorem next_append (K:List (Frame R))
  (hnext:next rt (c,⟨h,k⟩)=some (c', ⟨h', k'⟩)) (hc' : ∀ v, c' ≠ .doneMachine v) :
  next rt (c,⟨h,k ++ K⟩)=some (c', ⟨h', k' ++ K⟩) := by
 obtain ⟨hc,hstep⟩:=step_of_next hnext
 have hk:∀ v, c = .backwardMachine v → k ≠ []:=by
  rintro v rfl rfl
  rw [step_backward_nil] at hstep
  exact hc' v (EStateM.Result.ok.inj hstep).1.symm
 refine next_of_step hc ?_
 rw [step_append K hc hk,hstep]
 rfl

theorem reaches_append (K:List (Frame R))
  (hrun:Reaches (next rt) (c,⟨h,k⟩) (c', ⟨h', k'⟩)) (hc' : ∀ v, c' ≠ .doneMachine v) :
  Reaches (next rt) (c,⟨h,k ++ K⟩) (c', ⟨h', k' ++ K⟩) := by
 suffices ∀ p, Reaches (next rt) (c,⟨h,k⟩) p → (∀ v, p.1 ≠ .doneMachine v) →
   Reaches (next rt) (c,⟨h,k ++ K⟩) (p.1,⟨p.2.heap,p.2.stack ++ K⟩) from
  this _ hrun hc'
 intro p hp
 induction hp with
 | refl=>exact fun _=>.refl
 | @tail p q hpq hq ih=>
  intro hdone
  have hp:∀ v, p.1 ≠ .doneMachine v:=by
   intro v hv
   obtain ⟨c1,s1⟩:=p
   rw [show c1 = .doneMachine v from hv] at hq
   cases hq
  exact (ih hp).tail (next_append K hq hdone)

def Returns (rt:Runtime R H) (c:Config R) (h:H) (v:Value R) (h' : H) : Prop :=
 Reaches (next rt) (c,⟨h,[]⟩) (.backwardMachine v,⟨h', []⟩)

/-- The computation, started on no frames of its own, gives up a pattern match. -/
def Fails (rt:Runtime R H) (c:Config R) (h h' : H) : Prop :=
 ∃ c1 s1 s', Reaches (next rt) (c,⟨h,[]⟩) (c1,s1) ∧
  step rt c1 s1 = .error unhandled s' ∧ s'.heap=h'

theorem Returns.reaches (hr:Returns rt c h v h')
  (K:List (Frame R)) : Reaches (next rt) (c,⟨h,K⟩) (.backwardMachine v,⟨h', K⟩) :=
 reaches_append K hr (by simp)

theorem Fails.reaches (hf:Fails rt c h h') (K:List (Frame R)) :
  ∃ c1 s1, Reaches (next rt) (c,⟨h,K⟩) (c1,s1) ∧
   step rt c1 s1=unwindToMatch rt K ⟨h', K⟩ ∧ ∀ v, c1 ≠ .doneMachine v := by
 obtain ⟨c1,s1,s', hrun,hstep,rfl⟩:=hf
 have hc:∀ v, c1 ≠ .doneMachine v:=by
  rintro v rfl
  cases hstep
 have hk:∀ v, c1 = .backwardMachine v → s1.stack ≠ []:=by
  rintro v rfl hnil
  obtain ⟨h1,k1⟩:=s1
  obtain rfl : k1=[]:=hnil
  rw [step_backward_nil] at hstep
  cases hstep
 refine ⟨c1,⟨s1.heap,s1.stack ++ K⟩,reaches_append K hrun hc, ?_,hc⟩
 rw [step_append K hc hk,hstep]
 exact unwindToMatch_heap K rfl

/-- What a run above some frames comes to: it returns to them or gives up to them. -/
def ComesTo (rt:Runtime R H) (c:Config R) (h:H) (k K:List (Frame R))
  (p:Config R × EvalState R H) : Prop :=
 (∃ w h', Reaches (next rt) (c,⟨h,k⟩) (.backwardMachine w,⟨h', []⟩) ∧
  Reaches (next rt) (.backwardMachine w,⟨h', K⟩) p) ∨
 ∃ c1 s1 s2, Reaches (next rt) (c,⟨h,k⟩) (c1,s1) ∧ step rt c1 s1 = .error unhandled s2 ∧
  ∃ c2 s3, unwindToMatch rt K ⟨s2.heap,K⟩ = .ok c2 s3 ∧ Reaches (next rt) (c2,s3) p

omit hrt in
theorem ComesTo.head
  (hnext:next rt (c,⟨h,k⟩)=some (c', ⟨h', k'⟩))
  (hp:ComesTo rt c' h' k' K p) : ComesTo rt c h k K p := by
 rcases hp with ⟨w,h2,hrun,hrest⟩ | ⟨c1,s1,s2,hrun,hrest⟩
 · exact .inl ⟨w,h2,.head hnext hrun,hrest⟩
 · exact .inr ⟨c1,s1,s2,.head hnext hrun,hrest⟩

/-- A run that delivers a value from above some frames returns to them or gives up to them. -/
theorem reaches_done_split (hK:K ≠ []) (hc:∀ v, c ≠ .doneMachine v)
  (hrun:Reaches (next rt) (c,⟨h,k ++ K⟩) (.doneMachine v,⟨h', []⟩)) :
  ComesTo rt c h k K (.doneMachine v,⟨h', []⟩) := by
 suffices ∀ p : Config R × EvalState R H, Reaches (next rt) p (.doneMachine v,⟨h', []⟩) →
   ∀ c h k, p=(c,⟨h,k ++ K⟩) → (∀ v, c ≠ .doneMachine v) →
   ComesTo rt c h k K (.doneMachine v,⟨h', []⟩) from
  this _ hrun c h k rfl hc
 intro p hp
 induction hp using Relation.ReflTransGen.head_induction_on with
 | refl=>
  intro c h k heq hc
  exact absurd (congrArg Prod.fst heq).symm (hc v)
 | @head p q hpq hq ih=>
  rintro c h k rfl hc
  by_cases hret:∃ w, c = .backwardMachine w ∧ k=[]
  · obtain ⟨w,rfl,rfl⟩:=hret
    exact .inl ⟨w,h,.refl,Relation.ReflTransGen.head hpq hq⟩
  have hk:∀ w, c = .backwardMachine w → k ≠ []:=fun w hw hnil=>hret ⟨w,hw,hnil⟩
  obtain ⟨c1,s1⟩:=q
  have hstep:=(step_of_next hpq).2
  rw [step_append K hc hk] at hstep
  cases hlocal:step rt c ⟨h,k⟩ with
  | ok c2 s2=>
   rw [hlocal] at hstep
   simp only [resume,EStateM.Result.ok.injEq] at hstep
   obtain ⟨rfl,rfl⟩:=hstep
   -- a value is delivered only where no frame is left
   have hc2:∀ w, c2 ≠ .doneMachine w:=by
    rintro w rfl
    rcases Relation.ReflTransGen.cases_head hq with heq | ⟨q,hq', -⟩
    · have:=congrArg (fun p=>p.2.stack) heq
      simp only [List.append_eq_nil_iff] at this
      exact hK this.2
    · cases hq'
   exact (ih c2 s2.heap s2.stack rfl hc2).head (next_of_step hc hlocal)
  | error e s2=>
   have he:e=unhandled:=by
    by_contra hne
    rw [hlocal,resume_eq_extend (by
     intro s heq
     exact hne (EStateM.Result.error.inj heq).1)] at hstep
    cases hstep
   subst he
   rw [hlocal] at hstep
   refine .inr ⟨c,⟨h,k⟩,s2,.refl,hlocal,c1,s1, ?_,hq⟩
   rw [←hstep]
   exact unwindToMatch_heap K rfl

omit hrt in
theorem step_backward (v:Value R) (hs:s.stack=[]) :
  step rt (.backwardMachine v) s = .ok (.doneMachine v) s := by
 obtain ⟨h,k⟩:=s
 cases hs
 rfl

omit hrt in
theorem reaches_suits {q:Config R × EvalState R H} (hp:Suits p.1 p.2.stack)
  (hrun:Reaches (next rt) p q) :
  Suits q.1 q.2.stack ∨ ∃ v, q.1 = .doneMachine v ∧ q.2.stack=[] ∧
   Reaches (next rt) p (.backwardMachine v,q.2) := by
 induction hrun with
 | refl=>exact .inl hp
 | @tail q r hpq hqr ih=>
  obtain ⟨hq,hstep⟩:=step_of_next hqr
  rcases ih with ih | ⟨v,hv,-⟩
  · by_cases hb:∃ v, q.1 = .backwardMachine v ∧ q.2.stack=[]
    · obtain ⟨v,hv,hs⟩:=hb
      obtain ⟨c,s⟩:=q
      obtain rfl : c = .backwardMachine v:=hv
      rw [step_backward v hs] at hstep
      obtain ⟨hr1,hr2⟩:=EStateM.Result.ok.inj hstep
      exact .inr ⟨v,hr1.symm,hr2 ▸ hs,hr2 ▸ hpq⟩
    · have hsuits:=step_suits rt ih fun v hv hs=>hb ⟨v,hv,hs⟩
      rw [hstep] at hsuits
      exact .inl hsuits
  · exact absurd hv (hq v)

omit hrt in
theorem not_unhandled {c1:Config R} {s1 s2:EvalState R H}
  (hc:Suits c k) (hrun:Reaches (next rt) (c,⟨h,k⟩) (c1,s1)) :
  step rt c1 s1 ≠ .error unhandled s2 := by
 intro hstep
 rcases reaches_suits (p := (c,⟨h,k⟩)) hc hrun with hsuits | ⟨v,hv,-⟩
 · by_cases hb:∃ v, c1 = .backwardMachine v ∧ s1.stack=[]
   · obtain ⟨v,rfl,hs⟩:=hb
     rw [step_backward v hs] at hstep
     cases hstep
   · have hne:=step_suits rt hsuits fun v hv hs=>hb ⟨v,hv,hs⟩
     rw [hstep] at hne
     exact hne rfl
 · obtain rfl : c1 = .doneMachine v:=hv
   cases hstep

theorem suits_nil (hc:∀ v, c ≠ .doneMachine v)
  (hp:∀ r env p, c ≠ .matchPatternMachine r env p) : Suits c [] :=
 ⟨trivial,hc,fun r env p heq=>absurd heq (hp r env p)⟩

omit hrt in
theorem reaches_done_iff (hc:Suits c k) :
  Reaches (next rt) (c,⟨h,k⟩) (.doneMachine v,⟨h', []⟩) ↔
   Reaches (next rt) (c,⟨h,k⟩) (.backwardMachine v,⟨h', []⟩) := by
 constructor
 · intro hrun
   rcases reaches_suits (p := (c,⟨h,k⟩)) hc hrun with hsuits | ⟨w,hw,-,hback⟩
   · exact absurd rfl (hsuits.live v)
   · obtain rfl : v=w:=Config.doneMachine.inj hw
     exact hback
 · intro hrun
   exact hrun.tail rfl

theorem returns_of_done
  (hK:K ≠ []) (hc:∀ v, c ≠ .doneMachine v) (hp:∀ r env p, c ≠ .matchPatternMachine r env p)
  (hrun:Reaches (next rt) (c,⟨h,K⟩) (.doneMachine v,⟨h', []⟩)) :
  ∃ w h1, Returns rt c h w h1 ∧
   Reaches (next rt) (.backwardMachine w,⟨h1,K⟩) (.doneMachine v,⟨h', []⟩) := by
 rcases reaches_done_split (k := []) hK hc hrun with hret | ⟨c1,s1,s2,hlocal,hstep,-⟩
 · exact hret
 · exact absurd hstep (not_unhandled (suits_nil hc hp) hlocal)

theorem matches_of_done {r:R} {env:Env R} {p:Pattern Resolved} (hK:K ≠ [])
  (hrun:Reaches (next rt) (.matchPatternMachine r env p,⟨h,K⟩) (.doneMachine v,⟨h', []⟩)) :
  (∃ w h1, Returns rt (.matchPatternMachine r env p) h w h1 ∧
   Reaches (next rt) (.backwardMachine w,⟨h1,K⟩) (.doneMachine v,⟨h', []⟩)) ∨
  ∃ h1 c2 s2, Fails rt (.matchPatternMachine r env p) h h1 ∧
   unwindToMatch rt K ⟨h1,K⟩ = .ok c2 s2 ∧
   Reaches (next rt) (c2,s2) (.doneMachine v,⟨h', []⟩) := by
 rcases reaches_done_split (k := []) hK (by simp) hrun with
  hret | ⟨c1,s1,s2,hlocal,hstep,c2,s3,hunwind,hrest⟩
 · exact .inl hret
 · exact .inr ⟨s2.heap,c2,s3,⟨c1,s1,s2,hlocal,hstep,rfl⟩,hunwind,hrest⟩

end Runs

end L4Ide.MachineLocality
