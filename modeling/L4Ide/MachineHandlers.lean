import L4Ide.MachineLogic

set_option autoImplicit false

/-!
# A pattern match has its handler on the stack

Between a frame that waits for a pattern and the CONSIDER or the event that the pattern is
of there are only frames of that pattern, so a failed match never goes unhandled.
-/
namespace L4Ide.MachineHandlers
open Syntax Environment ValueLazy Machine MachineLogic

variable {R H A B:Type} {rt:Runtime R H}

def isHandler : Frame R → Bool
 | .considerWhen1 ..=>true
 | .contractFrame (.contract11 _)=>true
 | _=>false

def isPassed : Frame R → Bool
 | .contractFrame (.contract9 _)=>true
 | f=>isPatternFrame f

def Awaits : List (Frame R) → Prop
 | []=>False
 | f::k=>isHandler f=true ∨ isPassed f=true ∧ Awaits k

def Guarded : List (Frame R) → Prop
 | []=>True
 | f::k=>(isPatternFrame f=true → Awaits k) ∧ Guarded k

structure Suits (c:Config R) (k:List (Frame R)) : Prop where
 guarded : Guarded k
 live : ∀ v, c ≠ .doneMachine v
 awaits : ∀ r env p, c = .matchPatternMachine r env p → Awaits k

/-- Started on such a stack, the computation ends on one that suits, or raises. -/
def Yields (P:List (Frame R) → Prop) (x:Eval R H (Config R)) : Prop :=
 ∀ s, P s.stack → match x s with
  | .ok c s' =>Suits c s'.stack
  | .error e _=>e ≠ unhandled

def Pushes (x:Eval R H A) : Prop :=
 ∀ s, match x s with
  | .ok _ s' =>∃ k, s'.stack=k ++ s.stack ∧ ∀ f ∈ k, isPatternFrame f=false
  | .error e _=>e ≠ unhandled

variable {k:List (Frame R)} {P:List (Frame R) → Prop} {f:Frame R}

theorem guarded_append {K:List (Frame R)} (hk:∀ f ∈ k, isPatternFrame f=false)
  (hK:Guarded K) : Guarded (k ++ K) := by
 induction k with
 | nil=>exact hK
 | cons f k ih=>
  refine ⟨fun hp=>?_,ih fun g hg=>hk g (by simp [hg])⟩
  rw [hk f (by simp)] at hp
  cases hp

theorem pushes_pure (a:A) : Pushes (pure a:Eval R H A) := fun s=>⟨[],rfl,by simp⟩

theorem pushes_bind (x:Eval R H A) (f:A → Eval R H B) (hx:Pushes x)
  (hf:∀ a, Pushes (f a)) : Pushes (x >>= f) := by
 intro s
 have hxs:=hx s
 simp only [bind,EStateM.bind]
 cases hrun:x s with
 | ok a s1=>
  rw [hrun] at hxs
  obtain ⟨k1,hk1,hplain1⟩:=hxs
  have hfs:=hf a s1
  dsimp only
  cases hrun2:f a s1 with
  | ok b s2=>
   rw [hrun2] at hfs
   obtain ⟨k2,hk2,hplain2⟩:=hfs
   refine ⟨k2 ++ k1,by rw [hk2,hk1,List.append_assoc],fun g hg=>?_⟩
   rcases List.mem_append.1 hg with hg | hg
   · exact hplain2 g hg
   · exact hplain1 g hg
  | error e s2=>
   rw [hrun2] at hfs
   exact hfs
 | error e s1=>
  rw [hrun] at hxs
  exact hxs

theorem pushes_push (f:Frame R) (hf:isPatternFrame f=false) : Pushes (pushFrame rt f) := by
 intro s
 by_cases hfull:stackIsFull rt s.stack.length=true
 · simp only [pushFrame,if_pos hfull]
   exact fun h=>by cases h
 · simp only [pushFrame,if_neg hfull]
   exact ⟨[f],rfl,by simpa using hf⟩

theorem yields_mono {Q:List (Frame R) → Prop} {x:Eval R H (Config R)} (hx:Yields Q x)
  (h:∀ k, P k → Q k) : Yields P x :=
 fun s hs=>hx s (h _ hs)

theorem yields_pure {c:Config R} (h:∀ k, P k → Suits c k) :
  Yields P (pure c:Eval R H (Config R)) :=
 fun s hs=>h s.stack hs

theorem yields_raise {e:EvalException R} (he:e ≠ unhandled) :
  Yields P (raiseException rt e) :=
 fun _ _=>he

theorem yields_push {x:Unit → Eval R H (Config R)}
  (h:Yields (fun k' =>∃ k, k' = f::k ∧ P k) (x ())) :
  Yields P (pushFrame rt f >>= x) := by
 intro s hs
 simp only [bind,EStateM.bind]
 by_cases hfull:stackIsFull rt s.stack.length=true
 · simp only [pushFrame,if_pos hfull]
   exact fun h=>by cases h
 · simp only [pushFrame,if_neg hfull]
   exact h ⟨s.heap,f::s.stack⟩ ⟨s.stack,rfl,hs⟩

theorem yields_bind {x:Eval R H A} {f:A → Eval R H (Config R)} (hx:∀ s, match x s with
   | .ok _ s' =>s'.stack=s.stack
   | .error e _=>e ≠ unhandled)
  (hf:∀ a, Yields P (f a)) : Yields P (x >>= f) := by
 intro s hs
 have hxs:=hx s
 simp only [bind,EStateM.bind]
 cases hrun:x s with
 | ok a s1=>
  rw [hrun] at hxs
  exact hf a s1 (hxs ▸ hs)
 | error e s1=>
  rw [hrun] at hxs
  exact hxs

/-- Pushing only frames that are of no pattern, and not leading to a pattern. -/
def pushLogic (rt:Runtime R H) : Logic rt where
 does:=Pushes
 leads:=Yields Guarded
 doesPure:=pushes_pure
 doesBind:=pushes_bind
 doesRaise _ he _ := he
 doesAllocateRecursive _ _ s := ⟨[],rfl,by simp⟩
 doesAllocateValue _ s := ⟨[],rfl,by simp⟩
 doesEvalRecLocalDecls _ _ s := ⟨[],rfl,by simp⟩
 doesPush f hf _ := pushes_push f hf
 leadsBind x f hx hf := by
  intro s hs
  have hxs:=hx s
  simp only [bind,EStateM.bind]
  cases hrun:x s with
  | ok a s1=>
   rw [hrun] at hxs
   obtain ⟨k,hk,hplain⟩:=hxs
   exact hf a s1 (hk ▸ guarded_append hplain hs)
  | error e s1=>
   rw [hrun] at hxs
   exact hxs
 leadsRaise _ he := yields_raise he
 leadsForward _ _ := yields_pure fun _ hk=>⟨hk,by simp,by simp⟩
 leadsBranches _ _ _ _ := yields_pure fun _ hk=>⟨hk,by simp,by simp⟩
 leadsBackward _ := yields_pure fun _ hk=>⟨hk,by simp,by simp⟩
 leadsRef _ := yields_pure fun _ hk=>⟨hk,by simp,by simp⟩

theorem yields_leads (rt:Runtime R H) {x:Eval R H (Config R)}
  [hx:Leads (pushLogic rt) x] (h:∀ k, P k → Guarded k) : Yields P x :=
 yields_mono hx.holds h

def Matching (k:List (Frame R)) : Prop := Awaits k ∧ Guarded k

theorem yields_continuePattern (r:R) (env:Env R) (p:Pattern Resolved) :
  Yields Matching (continuePattern r env p:Eval R H (Config R)) :=
 yields_pure fun _ hk=>⟨hk.2,by simp,fun _ _ _ _=>hk.1⟩

theorem matching_cons (hf:isPatternFrame f=true) (hk:Matching k) : Matching (f::k) := by
 refine ⟨.inr ⟨?_,hk.1⟩,fun _=>hk.1,hk.2⟩
 unfold isPassed
 split
 · rfl
 · exact hf

theorem matching_handler (hf:isHandler f=true) (hk:Guarded k) : Matching (f::k) := by
 refine ⟨.inl hf,fun hp=>?_,hk⟩
 cases f <;> simp_all [isHandler,isPatternFrame]

theorem yields_pushPattern {x:Unit → Eval R H (Config R)}
  (hf:isPatternFrame f=true) (h:Yields Matching (x ())) :
  Yields Matching (pushFrame rt f >>= x) := by
 refine yields_push (yields_mono h ?_)
 rintro k' ⟨k,rfl,hk⟩
 exact matching_cons hf hk

theorem yields_unwindToMatch (hk:Matching k) (s:EvalState R H) :
  match unwindToMatch rt k s with
  | .ok c s' =>Suits c s'.stack
  | .error e _=>e ≠ unhandled := by
 induction k with
 | nil=>exact hk.1.elim
 | cons f k ih=>
  have hrest:isHandler f=false → Matching k:=by
   intro hf
   rcases hk.1 with h | h
   · rw [h] at hf
     cases hf
   · exact ⟨h.2,hk.2.2⟩
  cases f with
  | considerWhen1 g r e bs env=>
   exact (inferInstance:Leads (pushLogic rt) (continueBranches g r env bs)).holds
    ⟨s.heap,k⟩ hk.2.2
  | contractFrame g=>
   cases g with
   | contract11 g=>
    have h:Leads (pushLogic rt) (do
     let newTime ← allocateValue rt g.time
     pushFrame rt (.contractFrame
      (.contract1 { g with party:=.inr g.party,time:=newTime }))
     continueRef g.events) := inferInstance
    exact h.holds ⟨s.heap,k⟩ hk.2.2
   | _=>exact ih (hrest rfl)
  | _=>exact ih (hrest rfl)

theorem yields_patternMatchFailure : Yields Matching (patternMatchFailure rt) :=
 fun s hs=>yields_unwindToMatch hs s

theorem yields_expectEnvironment {doing:String} {val:Value R}
  {f:Env R → Eval R H (Config R)} (hf:∀ env, Yields P (f env)) :
  Yields P (expectEnvironment rt doing val >>= f) := by
 refine yields_bind (fun s=>?_) hf
 cases val <;> first | rfl | exact fun h=>by cases h

theorem yields_patternFrame (val:Value R) (hf:isPatternFrame f=true) :
  Yields Matching (backwardFrame rt val f) := by
 have hguard:∀ k : List (Frame R), Matching k → Guarded k:=fun _ hk=>hk.2
 cases f with
 | patNil0=>
  simp only [backwardFrame]
  split
  · exact yields_leads rt hguard
  · exact yields_patternMatchFailure
 | patCons0 p1 env p2=>
  simp only [backwardFrame]
  split
  · exact yields_pushPattern rfl (yields_continuePattern _ _ _)
  · exact yields_patternMatchFailure
 | patCons1 r env p2=>
  simp only [backwardFrame]
  exact yields_expectEnvironment fun env1=>yields_pushPattern rfl (yields_continuePattern _ _ _)
 | patCons2 env1=>
  simp only [backwardFrame]
  exact yields_expectEnvironment fun env2=>yields_leads rt hguard
 | patLit0 env lit=>
  refine yields_pushPattern rfl (yields_leads rt hguard)
 | patLit1 lit=>
  exact yields_pushPattern rfl (yields_leads rt hguard)
 | patLit2=>
  simp only [backwardFrame]
  split
  · exact yields_leads rt hguard
  · exact yields_patternMatchFailure
  · exact yields_leads rt hguard
 | patApp0 n env ps=>
  simp only [backwardFrame]
  unfold backwardPatApp0
  split
  · split
    · split
      · split
        · exact yields_leads rt hguard
        · exact yields_pushPattern rfl (yields_continuePattern _ _ _)
      · exact yields_leads rt hguard
    · exact yields_patternMatchFailure
  · exact yields_patternMatchFailure
 | patApp1 envs rps=>
  simp only [backwardFrame]
  refine yields_expectEnvironment fun env=>?_
  unfold backwardPatApp1
  split
  · exact yields_leads rt hguard
  · exact yields_pushPattern rfl (yields_continuePattern _ _ _)
 | _=>cases hf

theorem yields_contract8 (f:ScrutinizeParty R) (val:Value R) :
  Yields Guarded (backwardContract8 rt f val) := by
 unfold backwardContract8
 split
 · refine yields_push (yields_push (yields_mono (yields_continuePattern _ _ _) ?_))
   rintro k' ⟨k,rfl,k0,rfl,hk⟩
   refine ⟨.inr ⟨rfl,.inl rfl⟩, ?_, ?_,hk⟩ <;> exact fun h=>by cases h
 · exact yields_leads rt fun _ h=>h
 · exact yields_leads rt fun _ h=>h

theorem yields_backwardFrame (val:Value R) (f:Frame R) :
  Yields (fun k=>Guarded (f::k)) (backwardFrame rt val f) := by
 have hguard:∀ k : List (Frame R), Guarded (f::k) → Guarded k:=fun _ hk=>hk.2
 cases hp:isPatternFrame f
 · cases hu:isUpdateFrame f
   · cases h8:isPartyFrame f
     · have h:=leads_backwardFrame (pushLogic rt) val f hp hu h8
       exact yields_leads rt hguard
     · unfold isPartyFrame at h8
       split at h8
       · exact yields_mono (yields_contract8 _ val) hguard
       · cases h8
   · cases f <;> try cases hu
     exact yields_bind (fun _=>rfl) fun _=>yields_leads rt hguard
 · exact yields_mono (yields_patternFrame val hp) fun k hk=>⟨hk.1 hp,hk.2⟩

theorem yields_matchBranches (g:Option PmGroup) (r:R) (env:Env R)
  (bs:List (Branch Resolved)) : Yields Guarded (matchBranches rt g r env bs) := by
 unfold matchBranches
 split
 · exact fun _ _ h=>by cases h
 · exact yields_leads rt fun _ h=>h
 · refine yields_push (yields_mono (yields_continuePattern _ _ _) ?_)
   rintro k' ⟨k,rfl,hk⟩
   exact matching_handler rfl hk

theorem yields_matchPattern (r:R) (env:Env R) (p:Pattern Resolved) :
  Yields Matching (matchPattern rt r env p) := by
 have hguard:∀ k : List (Frame R), Matching k → Guarded k:=fun _ hk=>hk.2
 unfold matchPattern
 split
 · exact yields_leads rt hguard
 · split
   · exact yields_pushPattern rfl (yields_leads rt hguard)
   · exact yields_pushPattern rfl (yields_leads rt hguard)
 · exact yields_pushPattern rfl (yields_leads rt hguard)
 · exact yields_pushPattern rfl (yields_leads rt hguard)
 · exact yields_pushPattern rfl (yields_leads rt hguard)

theorem yields_evalRef (r:R) : Yields Guarded (evalRef rt r) := by
 refine yields_bind (fun _=>rfl) fun poked=>?_
 split
 · exact yields_leads rt fun _ h=>h
 · exact yields_leads rt fun _ h=>h
 · refine yields_push (yields_leads rt ?_)
   rintro k' ⟨k,rfl,hk⟩
   exact ⟨fun h=>(by cases h),hk⟩

theorem step_suits (rt:Runtime R H) {c:Config R} {s:EvalState R H} (h:Suits c s.stack)
  (hb:∀ v, c = .backwardMachine v → s.stack ≠ []) :
  match step rt c s with
  | .ok c' s' =>Suits c' s'.stack
  | .error e _=>e ≠ unhandled := by
 cases c with
 | forwardMachine env e=>
  exact (inferInstance:Leads (pushLogic rt) (forwardExpr rt env e)).holds s h.guarded
 | matchBranchesMachine g r env bs=>exact yields_matchBranches g r env bs s h.guarded
 | matchPatternMachine r env p=>
  exact yields_matchPattern r env p s ⟨h.awaits r env p rfl,h.guarded⟩
 | backwardMachine val=>
  obtain ⟨heap,stack⟩:=s
  cases stack with
  | nil=>exact absurd rfl (hb val rfl)
  | cons f k=>exact yields_backwardFrame val f ⟨heap,k⟩ h.guarded
 | evalRefMachine r=>exact yields_evalRef r s h.guarded
 | doneMachine val=>exact absurd rfl (h.live val)

end L4Ide.MachineHandlers
