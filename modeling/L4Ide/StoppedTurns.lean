import L4Ide.ChatTurns

set_option autoImplicit false

/-!
# Stopping a turn

What holds over every run of the turns and the user: which calls can still start after a stop,
and what becomes of every approval and question that is raised.
-/
namespace L4Ide.StoppedTurns
open PendingInteractions ToolPermissions ChatTurns

/-! ## What a run is asked for -/

/-- No call of the turn starts after its stop. -/
def StopsRespected (log:List LogEntry) : Prop :=
 ∀ before after turnId call, log=before ++ .stopped turnId::after →
  .started turnId call ∉ after

def waiting (p:Pending) : List ℕ :=
 (p.approvals ++ p.questions).map fun entry=>entry.2.promise

def raisedPromise : LogEntry → Option ℕ
 | .raised promise=>some promise
 | _=>none

def settledPromise : LogEntry → Option ℕ
 | .settled promise=>some promise
 | _=>none

def raisedOf (log:List LogEntry) : List ℕ := log.filterMap raisedPromise

def settledOf (log:List LogEntry) : List ℕ := log.filterMap settledPromise

/-- Every promise raised is waiting or has been settled, and that once. -/
structure SettledOnce (s:State) : Prop where
 raised_nodup : (raisedOf s.log).Nodup
 perm : (waiting s.pending ++ settledOf s.log).Perm (raisedOf s.log)

/-- Of a stopped turn nothing is waiting. -/
def NothingWaits (s:State) : Prop :=
 ∀ turnId, .stopped turnId ∈ s.log →
  ∀ entry ∈ s.pending.approvals ++ s.pending.questions, entry.2.ctx.turnId ≠ turnId

/-- What a stop leaves to the other turns: their approvals and questions, and the early
    decisions that no conversation of the stopped turn accounts for. -/
def OthersKept (turnId:String) (p p' : Pending) : Prop :=
 (p'.approvals=p.approvals.filter fun entry=>!decide (entry.2.ctx.turnId=turnId)) ∧
  (p'.questions=p.questions.filter fun entry=>!decide (entry.2.ctx.turnId=turnId)) ∧
  ∀ entry ∈ p.early, (∀ conversationId, entry.2.conversationId=some conversationId →
   conversationId ∉ p.conversationsOf turnId) → entry ∈ p'.early

/-! ## When a run gives it -/

/-- The turn can be stopped for good: it can be aborted, its response has not arrived as a
    whole, every call in its queue is one that the dispatcher refuses by itself, and no call
    is between its approval and its start. -/
def Stoppable (host:Host) (policy:PermissionPolicy) : Phase → Prop
 | .loading=>False
 | .between=>True
 | .streaming _ complete=>complete=false
 | .round queued current=>
  (∀ call ∈ queued, refused host policy call=true) ∧
   match current with
   | some (.decided _ .allow)=>False
   | some (.snapshotting _)=>False
   | _=>True
 | .ended=>True

instance decidableStoppable (host:Host) (policy:PermissionPolicy) :
  (phase:Phase) → Decidable (Stoppable host policy phase)
 | .loading=>inferInstanceAs (Decidable False)
 | .between=>inferInstanceAs (Decidable True)
 | .streaming _ complete=>inferInstanceAs (Decidable (complete=false))
 | .round queued none=>
  inferInstanceAs (Decidable ((∀ call ∈ queued, refused host policy call=true) ∧ True))
 | .round queued (some (.decided _ .allow))=>
  inferInstanceAs (Decidable ((∀ call ∈ queued, refused host policy call=true) ∧ False))
 | .round queued (some (.decided _ .deny))=>
  inferInstanceAs (Decidable ((∀ call ∈ queued, refused host policy call=true) ∧ True))
 | .round queued (some (.snapshotting _))=>
  inferInstanceAs (Decidable ((∀ call ∈ queued, refused host policy call=true) ∧ False))
 | .round queued (some (.awaitingApproval _ _))=>
  inferInstanceAs (Decidable ((∀ call ∈ queued, refused host policy call=true) ∧ True))
 | .round queued (some (.executing _))=>
  inferInstanceAs (Decidable ((∀ call ∈ queued, refused host policy call=true) ∧ True))
 | .round queued (some (.asking _ _))=>
  inferInstanceAs (Decidable ((∀ call ∈ queued, refused host policy call=true) ∧ True))
 | .ended=>inferInstanceAs (Decidable True)

def queueOf : Phase → List ToolCall
 | .round queued _=>queued
 | _=>[]

def nextCall : Phase → Option ToolCall
 | .round (call::_) none=>some call
 | _=>none

def startingCall : Phase → Option ToolCall
 | .round _ (some (.snapshotting call))=>some call
 | _=>none

def stoppedTurn : LogEntry → Option String
 | .stopped turnId=>some turnId
 | _=>none

/-- What is asked of a step in the state before it. -/
def Careful (host:Host) (s:State) : Action → Prop
 | .stop turnId=>∀ turn ∈ s.turns turnId, Stoppable host s.policy turn.phase
 | .start turnId _ _=>.stopped turnId ∉ s.log
 | .setPermission policy=>∀ entry ∈ s.log, ∀ turnId ∈ stoppedTurn entry,
  ∀ turn ∈ s.turns turnId, ∀ call ∈ queueOf turn.phase, refused host policy call=true
 | .takeCall turnId=>∀ turn ∈ s.turns turnId, ∀ call ∈ nextCall turn.phase,
  gate host s.policy call = .gated .ask → s.pending.approvals.lookup call.callId=none
 | .startTool turnId=>∀ turn ∈ s.turns turnId, ∀ call ∈ startingCall turn.phase,
  (questionOf host call).isSome → s.pending.questions.lookup call.callId=none
 | _=>True

instance decidableCareful (host:Host) (s:State) :
  (action:Action) → Decidable (Careful host s action)
 | .stop turnId=>
  inferInstanceAs (Decidable (∀ turn ∈ s.turns turnId, Stoppable host s.policy turn.phase))
 | .start turnId _ _=>inferInstanceAs (Decidable (.stopped turnId ∉ s.log))
 | .setPermission policy=>inferInstanceAs (Decidable (∀ entry ∈ s.log,
   ∀ turnId ∈ stoppedTurn entry, ∀ turn ∈ s.turns turnId, ∀ call ∈ queueOf turn.phase,
    refused host policy call=true))
 | .takeCall turnId=>inferInstanceAs (Decidable (∀ turn ∈ s.turns turnId,
   ∀ call ∈ nextCall turn.phase, gate host s.policy call = .gated .ask →
    s.pending.approvals.lookup call.callId=none))
 | .startTool turnId=>inferInstanceAs (Decidable (∀ turn ∈ s.turns turnId,
   ∀ call ∈ startingCall turn.phase, (questionOf host call).isSome →
    s.pending.questions.lookup call.callId=none))
 | .register _=>inferInstanceAs (Decidable True)
 | .openStream _=>inferInstanceAs (Decidable True)
 | .metadata _ _=>inferInstanceAs (Decidable True)
 | .toolCall _ _=>inferInstanceAs (Decidable True)
 | .bodyComplete _=>inferInstanceAs (Decidable True)
 | .streamEnds _ _=>inferInstanceAs (Decidable True)
 | .streamFails _=>inferInstanceAs (Decidable True)
 | .resume _=>inferInstanceAs (Decidable True)
 | .toolEnds _=>inferInstanceAs (Decidable True)
 | .endRound _=>inferInstanceAs (Decidable True)
 | .finish _=>inferInstanceAs (Decidable True)
 | .decide _ _ _=>inferInstanceAs (Decidable True)
 | .answer _ _=>inferInstanceAs (Decidable True)
 | .newMessage _=>inferInstanceAs (Decidable True)

/-- Every step of the run is careful in the state in which it is taken. -/
def CarefulRun (host:Host) : List Action → State → Prop
 | [], _=>True
 | action::actions, s=>Careful host s action ∧
  match step host action s with
  | none=>True
  | some s' =>CarefulRun host actions s'

instance decidableCarefulRun (host:Host) :
  (actions:List Action) → (s:State) → Decidable (CarefulRun host actions s)
 | [], _=>inferInstanceAs (Decidable True)
 | action::actions, s=>
  have : Decidable (match step host action s with
    | none=>True
    | some s' =>CarefulRun host actions s') :=
   match step host action s with
   | none=>inferInstanceAs (Decidable True)
   | some s' =>decidableCarefulRun host actions s'
  inferInstanceAs (Decidable (_ ∧ _))

/-! ## The invariant -/

/-- A stopped turn starts no call from here on. -/
structure Quiet (host:Host) (policy:PermissionPolicy) (turn:Turn) : Prop where
 aborted : turn.aborted=true ∨ turn.phase = .ended
 stoppable : Stoppable host policy turn.phase
 not_waiting : ∀ queued current, turn.phase = .round queued (some current) →
  (∀ call promise, current ≠ .awaitingApproval call promise) ∧
   ∀ call promise, current ≠ .asking call promise

structure Linked (turnId:String) (p:Pending) (turn:Turn) : Prop where
 approval : ∀ queued call promise, turn.phase = .round queued (some (.awaitingApproval call promise)) →
  ∃ conversationId, (call.callId,⟨promise,⟨conversationId,turnId⟩⟩) ∈ p.approvals
 question : ∀ queued call promise, turn.phase = .round queued (some (.asking call promise)) →
  ∃ conversationId, (call.callId,⟨promise,⟨conversationId,turnId⟩⟩) ∈ p.questions

structure Inv (host:Host) (s:State) : Prop where
 respected : StopsRespected s.log
 quiet : ∀ turnId, .stopped turnId ∈ s.log → ∀ turn, s.turns turnId=some turn →
  Quiet host s.policy turn
 linked : ∀ turnId turn, s.turns turnId=some turn → Linked turnId s.pending turn
 approval_keys : (s.pending.approvals.map Prod.fst).Nodup
 question_keys : (s.pending.questions.map Prod.fst).Nodup
 nothing_waits : NothingWaits s
 once : SettledOnce s
 fresh : ∀ promise ∈ raisedOf s.log, promise < s.nextPromise

/-! ## Logs -/

theorem raisedOf_append (log log' : List LogEntry) :
  raisedOf (log ++ log')=raisedOf log ++ raisedOf log' := List.filterMap_append

theorem settledOf_append (log log' : List LogEntry) :
  settledOf (log ++ log')=settledOf log ++ settledOf log' := List.filterMap_append

theorem raisedOf_settled (settled:List Settled) :
  raisedOf (settled.map fun x=>.settled x.promise)=[] := by
 unfold raisedOf
 rw [List.filterMap_map,List.filterMap_eq_nil_iff]
 intro x _
 rfl

theorem settledOf_settled (settled:List Settled) :
  settledOf (settled.map fun x=>.settled x.promise)=settled.map Settled.promise := by
 unfold settledOf
 rw [List.filterMap_map,←List.filterMap_eq_map]
 rfl

/-- What is logged next keeps the stops respected when it starts no call of a stopped turn. -/
theorem StopsRespected.append {log new:List LogEntry} (h:StopsRespected log)
  (hnew:∀ turnId call, .started turnId call ∈ new → .stopped turnId ∉ log)
  (hstop:∀ turnId, .stopped turnId ∈ new → new=[.stopped turnId]) :
  StopsRespected (log ++ new) := by
 intro before after turnId call heq hmem
 rcases List.append_eq_append_iff.mp heq with ⟨mid,rfl,hmid⟩ | ⟨mid,rfl,hmid⟩
 · cases mid with
   | nil=>
    have hone:=hstop turnId (by rw [List.nil_append] at hmid; rw [hmid]; exact List.mem_cons_self)
    rw [List.nil_append] at hmid
    rw [hone] at hmid
    cases hmid
    cases hmem
   | cons x mid=>
    have hone:=hstop turnId (by rw [hmid]; simp)
    rw [hone] at hmid
    simp at hmid
 · cases mid with
   | nil=>
    rw [List.nil_append] at hmid
    have hone:=hstop turnId (by rw [←hmid]; exact List.mem_cons_self)
    rw [hone] at hmid
    cases hmid
    cases hmem
   | cons x mid=>
    rw [List.cons_append] at hmid
    obtain ⟨rfl,rfl⟩:=List.cons.inj hmid
    rcases List.mem_append.mp hmem with hmem | hmem
    · exact h before mid turnId call rfl hmem
    · exact hnew turnId call hmem (by simp)

/-! ## Settling -/

/-- Entries that leave the pending interactions are the ones that are settled. -/
structure Removes (p p' : Pending) (settled:List Settled) : Prop where
 approvals : List.Sublist p'.approvals p.approvals
 questions : List.Sublist p'.questions p.questions
 settled_approval : ∀ entry ∈ p.approvals, entry ∈ p'.approvals ∨
  ∃ decision, .approval entry.2.promise decision ∈ settled
 settled_question : ∀ entry ∈ p.questions, entry ∈ p'.questions ∨
  entry.2.promise ∈ settled.map Settled.promise
 perm : (waiting p' ++ settled.map Settled.promise).Perm (waiting p)

theorem removes_cancelWhere (matching:ToolCallContext → Bool) (p:Pending) :
  Removes p (p.cancelWhere matching).1 (p.cancelWhere matching).2 := by
 have hsplit:∀ m : JsMap Waiting,
   ((m.filter fun entry=>!matching entry.2.ctx) ++
    m.filter fun entry=>matching entry.2.ctx).Perm m := by
  intro m
  apply List.perm_append_comm.trans
  exact List.filter_append_perm (fun entry=>matching entry.2.ctx) m
 refine ⟨List.filter_sublist,List.filter_sublist, ?_, ?_, ?_⟩
 · intro entry hentry
   cases hmatch:matching entry.2.ctx with
   | false=>exact Or.inl (List.mem_filter.mpr ⟨hentry,by simp [hmatch]⟩)
   | true=>
    refine Or.inr ⟨.deny, ?_⟩
    apply List.mem_append_left
    exact List.mem_map.mpr ⟨entry,List.mem_filter.mpr ⟨hentry,hmatch⟩,rfl⟩
 · intro entry hentry
   cases hmatch:matching entry.2.ctx with
   | false=>exact Or.inl (List.mem_filter.mpr ⟨hentry,by simp [hmatch]⟩)
   | true=>
    refine Or.inr (List.mem_map.mpr ⟨.question entry.2.promise "", ?_,rfl⟩)
    apply List.mem_append_right
    exact List.mem_map.mpr ⟨entry,List.mem_filter.mpr ⟨hentry,hmatch⟩,rfl⟩
 · have hsettled:(p.cancelWhere matching).2.map Settled.promise =
     ((p.approvals.filter fun entry=>matching entry.2.ctx) ++
      p.questions.filter fun entry=>matching entry.2.ctx).map
       fun entry=>entry.2.promise := by
    unfold Pending.cancelWhere
    simp only [List.map_append,List.map_map]
    rfl
   rw [hsettled]
   unfold waiting
   rw [←List.map_append]
   apply List.Perm.map
   dsimp only [Pending.cancelWhere]
   have ha:=hsplit p.approvals
   have hq:=hsplit p.questions
   refine List.Perm.trans ?_ (ha.append hq)
   rw [List.append_assoc,List.append_assoc]
   apply List.Perm.append_left
   rw [←List.append_assoc,←List.append_assoc]
   exact List.perm_append_comm.append_right _

variable {p:Pending}

theorem removes_of_early {p₁ p' : Pending} {settled:List Settled}
  (ha:p₁.approvals=p.approvals) (hq:p₁.questions=p.questions)
  (h:Removes p₁ p' settled) : Removes p p' settled := by
 have hw:waiting p₁=waiting p:=by
  unfold waiting
  rw [ha,hq]
 exact ⟨ha ▸ h.approvals,hq ▸ h.questions,ha ▸ h.settled_approval,hq ▸ h.settled_question,
  hw ▸ h.perm⟩

theorem removes_cancelTurn (turnId:String) (p:Pending) :
  Removes p (p.cancelTurn turnId).1 (p.cancelTurn turnId).2 := by
 refine removes_of_early ?_ ?_ (removes_cancelWhere _ _)
 · rfl
 · rfl

theorem removes_cancelConversation (conversationId:String) (p:Pending) :
  Removes p (p.cancelConversation conversationId).1 (p.cancelConversation conversationId).2 := by
 refine removes_of_early ?_ ?_ (removes_cancelWhere _ _)
 · rfl
 · rfl

/-- With distinct keys, deleting one takes away the entry that is found under it, and no
    other. -/
theorem delete_perm {m:JsMap Waiting} (hm:(m.map Prod.fst).Nodup) {key:String} {w:Waiting}
  (h:m.lookup key=some w) :
  (∀ entry ∈ m, entry ∈ JsMap.delete key m ∨ entry=(key,w)) ∧
   (JsMap.delete key m ++ [(key,w)]).Perm m := by
 induction m with
 | nil=>cases h
 | cons first m ih=>
  obtain ⟨k,v⟩:=first
  obtain ⟨hk,hrest⟩:=List.nodup_cons.mp hm
  rw [List.lookup_cons] at h
  by_cases heq:key=k
  · subst heq
    rw [beq_self_eq_true] at h
    cases h
    have hsame:JsMap.delete key ((key,w)::m)=m:=by
     unfold JsMap.delete
     rw [List.filter_cons_of_neg (by simp),List.filter_eq_self]
     intro entry hentry
     have hne:entry.1 ≠ key:=by
      intro hkey
      exact hk (List.mem_map.mpr ⟨entry,hentry,hkey⟩)
     simp [hne]
    rw [hsame]
    constructor
    · intro entry hentry
      rcases List.mem_cons.mp hentry with rfl | hentry
      · exact Or.inr rfl
      · exact Or.inl hentry
    · exact List.perm_append_singleton (key,w) m
  · rw [beq_false_of_ne heq] at h
    obtain ⟨hmem,hperm⟩:=ih hrest h
    have hstep:JsMap.delete key ((k,v)::m)=(k,v)::JsMap.delete key m:=by
     unfold JsMap.delete
     rw [List.filter_cons_of_pos (by simpa using fun hkey:k=key=>heq hkey.symm)]
    rw [hstep]
    constructor
    · intro entry hentry
      rcases List.mem_cons.mp hentry with rfl | hentry
      · exact Or.inl List.mem_cons_self
      · rcases hmem entry hentry with hkept | hkept
        · exact Or.inl (List.mem_cons_of_mem _ hkept)
        · exact Or.inr hkept
    · exact hperm.cons (k,v)

theorem removes_decide (hp:(p.approvals.map Prod.fst).Nodup) (callId:String)
  (decision:Decision) (conversationId:Option String) :
  Removes p (p.decide callId decision conversationId).1
   (p.decide callId decision conversationId).2 := by
 unfold Pending.decide
 cases hlook:p.approvals.lookup callId with
 | none=>
  refine ⟨List.Sublist.refl _,List.Sublist.refl _,fun _ h=>Or.inl h,fun _ h=>Or.inl h, ?_⟩
  simp [waiting]
 | some w=>
  obtain ⟨hmem,hperm⟩:=delete_perm hp hlook
  refine ⟨List.filter_sublist,List.Sublist.refl _, ?_,fun _ h=>Or.inl h, ?_⟩
  · intro entry hentry
    rcases hmem entry hentry with hkept | rfl
    · exact Or.inl hkept
    · exact Or.inr ⟨decision,List.mem_singleton.mpr rfl⟩
  · have hmap:=(hperm.append_right p.questions).map fun entry=>entry.2.promise
    apply List.Perm.trans _ hmap
    unfold waiting
    simp only [List.map_append,List.map_cons,List.map_nil,Settled.promise,List.append_assoc]
    apply List.Perm.append_left
    exact List.perm_append_comm

theorem removes_answer (hp:(p.questions.map Prod.fst).Nodup) (callId text:String) :
  Removes p (p.answer callId text).1 (p.answer callId text).2 := by
 unfold Pending.answer
 cases hlook:p.questions.lookup callId with
 | none=>
  refine ⟨List.Sublist.refl _,List.Sublist.refl _,fun _ h=>Or.inl h,fun _ h=>Or.inl h, ?_⟩
  simp [waiting]
 | some w=>
  obtain ⟨hmem,hperm⟩:=delete_perm hp hlook
  refine ⟨List.Sublist.refl _,List.filter_sublist,fun _ h=>Or.inl h, ?_, ?_⟩
  · intro entry hentry
    rcases hmem entry hentry with hkept | rfl
    · exact Or.inl hkept
    · exact Or.inr (List.mem_singleton.mpr rfl)
  · have hmap:=(hperm.append_left p.approvals).map fun entry=>entry.2.promise
    apply List.Perm.trans _ hmap
    unfold waiting
    simp only [List.map_append,List.map_cons,List.map_nil,Settled.promise,List.append_assoc]
    exact List.Perm.refl _

/-! ## Turns when promises settle -/

section Settle

variable {host:Host} {policy:PermissionPolicy} {turn:Turn} {settled:List Settled}

variable {current:CallPhase}

theorem settle_of_not_waiting (ha:∀ call promise, current ≠ .awaitingApproval call promise)
  (hq:∀ call promise, current ≠ .asking call promise) : current.settle settled=current := by
 cases current with
 | awaitingApproval call promise=>exact absurd rfl (ha call promise)
 | asking call promise=>exact absurd rfl (hq call promise)
 | decided call decision=>rfl
 | snapshotting call=>rfl
 | executing call=>rfl

theorem Quiet.settle (h:Quiet host policy turn) : turn.settle settled=turn := by
 obtain ⟨conversationId,aborted,phase⟩:=turn
 cases phase with
 | round queued current=>
  cases current with
  | none=>rfl
  | some current=>
   obtain ⟨ha,hq⟩:=h.not_waiting queued current rfl
   dsimp only [Turn.settle]
   rw [settle_of_not_waiting ha hq]
 | loading=>rfl
 | between=>rfl
 | streaming calls complete=>rfl
 | ended=>rfl

theorem settle_phase {queued:List ToolCall}
  (h:(turn.settle settled).phase = .round queued (some current)) :
  ∃ before, turn.phase = .round queued (some before) ∧ current=before.settle settled := by
 obtain ⟨conversationId,aborted,phase⟩:=turn
 cases phase with
 | round queued' before=>
  cases before with
  | none=>cases h
  | some before=>
   cases h
   exact ⟨before,rfl,rfl⟩
 | loading=>cases h
 | between=>cases h
 | streaming calls complete=>cases h
 | ended=>cases h

theorem settle_awaiting {call:ToolCall} {promise:ℕ}
  (h:CallPhase.awaitingApproval call promise=current.settle settled) :
  current = .awaitingApproval call promise ∧
   ∀ decision, .approval promise decision ∉ settled := by
 cases current with
 | awaitingApproval call' promise' =>
  dsimp only [CallPhase.settle] at h
  split at h
  · cases h
  · rename_i hallow
    split at h
    · cases h
    · rename_i hdeny
      cases h
      refine ⟨rfl, ?_⟩
      intro decision
      cases decision with
      | allow=>exact hallow
      | deny=>exact hdeny
 | asking call' promise' =>
  dsimp only [CallPhase.settle] at h
  split at h
  · cases h
  · cases h
 | decided call' decision=>cases h
 | snapshotting call' =>cases h
 | executing call' =>cases h

theorem settle_asking {call:ToolCall} {promise:ℕ}
  (h:CallPhase.asking call promise=current.settle settled) :
  current = .asking call promise ∧ promise ∉ settled.map Settled.promise := by
 cases current with
 | awaitingApproval call' promise' =>
  dsimp only [CallPhase.settle] at h
  split at h
  · cases h
  · split at h
    · cases h
    · cases h
 | asking call' promise' =>
  dsimp only [CallPhase.settle] at h
  split at h
  · cases h
  · rename_i hnot
    cases h
    exact ⟨rfl,hnot⟩
 | decided call' decision=>cases h
 | snapshotting call' =>cases h
 | executing call' =>cases h

theorem Linked.settle {turnId:String} {p p' : Pending} (h:Linked turnId p turn)
  (hr:Removes p p' settled) : Linked turnId p' (turn.settle settled) := by
 constructor
 · intro queued call promise hphase
   obtain ⟨before,hbefore,hcurrent⟩:=settle_phase hphase
   obtain ⟨rfl,hnone⟩:=settle_awaiting hcurrent
   obtain ⟨conversationId,hentry⟩:=h.approval queued call promise hbefore
   rcases hr.settled_approval _ hentry with hkept | ⟨decision,hsettled⟩
   · exact ⟨conversationId,hkept⟩
   · exact absurd hsettled (hnone decision)
 · intro queued call promise hphase
   obtain ⟨before,hbefore,hcurrent⟩:=settle_phase hphase
   obtain ⟨rfl,hnone⟩:=settle_asking hcurrent
   obtain ⟨conversationId,hentry⟩:=h.question queued call promise hbefore
   rcases hr.settled_question _ hentry with hkept | hsettled
   · exact ⟨conversationId,hkept⟩
   · exact absurd hsettled hnone

end Settle

section Steps

variable {host:Host} {s:State}

theorem not_started_of_settled (settled:List Settled) (turnId:String) (call:ToolCall) :
  LogEntry.started turnId call ∉ settled.map fun x=>LogEntry.settled x.promise := by
 intro hmem
 obtain ⟨x,-,hx⟩:=List.mem_map.mp hmem
 cases hx

theorem not_stopped_of_settled (settled:List Settled) (turnId:String) :
  LogEntry.stopped turnId ∉ settled.map fun x=>LogEntry.settled x.promise := by
 intro hmem
 obtain ⟨x,-,hx⟩:=List.mem_map.mp hmem
 cases hx

theorem Inv.settle (h:Inv host s) {result:Pending × List Settled}
  (hr:Removes s.pending result.1 result.2) : Inv host (s.settle result) := by
 have hstopped:∀ turnId, .stopped turnId ∈ (s.settle result).log → .stopped turnId ∈ s.log:=by
  intro turnId hmem
  rcases List.mem_append.mp hmem with hmem | hmem
  · exact hmem
  · exact absurd hmem (not_stopped_of_settled result.2 turnId)
 have hraised:raisedOf (s.settle result).log=raisedOf s.log:=by
  unfold State.settle
  rw [raisedOf_append,raisedOf_settled,List.append_nil]
 refine ⟨?_, ?_, ?_, ?_, ?_, ?_,⟨?_, ?_⟩, ?_⟩
 · apply h.respected.append
   · intro turnId call hmem
     exact absurd hmem (not_started_of_settled result.2 turnId call)
   · intro turnId hmem
     exact absurd hmem (not_stopped_of_settled result.2 turnId)
 · intro turnId hmem turn hturn
   obtain ⟨turn₀,hturn₀,rfl⟩:=Option.map_eq_some_iff.mp hturn
   have hquiet:=h.quiet turnId (hstopped turnId hmem) turn₀ hturn₀
   rw [hquiet.settle]
   exact hquiet
 · intro turnId turn hturn
   obtain ⟨turn₀,hturn₀,rfl⟩:=Option.map_eq_some_iff.mp hturn
   exact (h.linked turnId turn₀ hturn₀).settle hr
 · exact h.approval_keys.sublist (hr.approvals.map Prod.fst)
 · exact h.question_keys.sublist (hr.questions.map Prod.fst)
 · intro turnId hmem entry hentry
   apply h.nothing_waits turnId (hstopped turnId hmem)
   exact (hr.approvals.append hr.questions).subset hentry
 · rw [hraised]
   exact h.once.raised_nodup
 · rw [hraised]
   unfold State.settle
   rw [settledOf_append,settledOf_settled]
   apply List.Perm.trans _ h.once.perm
   apply List.Perm.trans _ (hr.perm.append_right (settledOf s.log))
   rw [List.append_assoc]
   apply List.Perm.append_left
   exact List.perm_append_comm
 · rw [hraised]
   exact h.fresh

/-- What a step adds to the log and to the pending interactions, the turns apart. -/
structure Extends (s s' : State) (new:List LogEntry) : Prop where
 turns : s'.turns=s.turns
 policy : s'.policy=s.policy
 log : s'.log=s.log ++ new
 no_stop : ∀ turnId, .stopped turnId ∉ new
 starts : ∀ turnId call, .started turnId call ∈ new → .stopped turnId ∉ s.log
 approvals : ∀ entry ∈ s.pending.approvals, entry ∈ s'.pending.approvals
 questions : ∀ entry ∈ s.pending.questions, entry ∈ s'.pending.questions
 approval_keys : (s'.pending.approvals.map Prod.fst).Nodup
 question_keys : (s'.pending.questions.map Prod.fst).Nodup
 added : ∀ entry ∈ s'.pending.approvals ++ s'.pending.questions,
  entry ∈ s.pending.approvals ++ s.pending.questions ∨
   .stopped entry.2.ctx.turnId ∉ s.log
 once : SettledOnce s'
 fresh : ∀ promise ∈ raisedOf s'.log, promise < s'.nextPromise

variable {s' : State} {m:JsMap Waiting} {queued:List ToolCall}

theorem Inv.extend (h:Inv host s) (new:List LogEntry)
  (he:Extends s s' new) : Inv host s' := by
 have hstopped:∀ turnId, .stopped turnId ∈ s'.log → .stopped turnId ∈ s.log:=by
  intro turnId hmem
  rw [he.log] at hmem
  rcases List.mem_append.mp hmem with hmem | hmem
  · exact hmem
  · exact absurd hmem (he.no_stop turnId)
 refine ⟨?_, ?_, ?_,he.approval_keys,he.question_keys, ?_,he.once,he.fresh⟩
 · rw [he.log]
   exact h.respected.append he.starts fun turnId hmem=>absurd hmem (he.no_stop turnId)
 · intro turnId hmem turn hturn
   rw [he.turns] at hturn
   rw [he.policy]
   exact h.quiet turnId (hstopped turnId hmem) turn hturn
 · intro turnId turn hturn
   rw [he.turns] at hturn
   have hlinked:=h.linked turnId turn hturn
   constructor
   · intro queued call promise hphase
     obtain ⟨conversationId,hentry⟩:=hlinked.approval queued call promise hphase
     exact ⟨conversationId,he.approvals _ hentry⟩
   · intro queued call promise hphase
     obtain ⟨conversationId,hentry⟩:=hlinked.question queued call promise hphase
     exact ⟨conversationId,he.questions _ hentry⟩
 · intro turnId hmem entry hentry
   rcases he.added entry hentry with hold | hnew
   · exact h.nothing_waits turnId (hstopped turnId hmem) entry hold
   · rintro rfl
     exact hnew (hstopped _ hmem)

theorem Inv.setTurn (h:Inv host s) {turnId:String} {turn' : Turn}
  (hquiet:.stopped turnId ∈ s.log → Quiet host s.policy turn')
  (hlinked:Linked turnId s.pending turn') : Inv host (s.setTurn turnId (some turn')) := by
 refine ⟨h.respected, ?_, ?_,h.approval_keys,h.question_keys,h.nothing_waits,
  ⟨h.once.raised_nodup,h.once.perm⟩,h.fresh⟩
 · intro t hmem turn hturn
   by_cases heq:t=turnId
   · subst heq
     obtain rfl : turn' = turn:=by simpa [State.setTurn] using hturn
     exact hquiet hmem
   · exact h.quiet t hmem turn (by simpa [State.setTurn,heq] using hturn)
 · intro t turn hturn
   by_cases heq:t=turnId
   · subst heq
     obtain rfl : turn' = turn:=by simpa [State.setTurn] using hturn
     exact hlinked
   · exact h.linked t turn (by simpa [State.setTurn,heq] using hturn)

theorem Inv.noteStarted (h:Inv host s) {turnId:String} (hnot:.stopped turnId ∉ s.log)
  (call:ToolCall) : Inv host (s.note [.started turnId call]) := by
 have hraised:raisedOf (s.log ++ [.started turnId call])=raisedOf s.log:=by
  rw [raisedOf_append]
  exact List.append_nil _
 have hsettled:settledOf (s.log ++ [.started turnId call])=settledOf s.log:=by
  rw [settledOf_append]
  exact List.append_nil _
 apply h.extend [.started turnId call]
 refine ⟨rfl,rfl,rfl, ?_, ?_,fun _ he=>he,fun _ he=>he,h.approval_keys,
  h.question_keys,fun _ he=>Or.inl he,⟨?_, ?_⟩, ?_⟩
 · intro t hmem
   simp at hmem
 · intro t c hmem
   obtain ⟨rfl,-⟩ : t=turnId ∧ c=call:=by simpa using hmem
   exact hnot
 · change (raisedOf (s.log ++ [.started turnId call])).Nodup
   rw [hraised]
   exact h.once.raised_nodup
 · change (waiting s.pending ++ settledOf (s.log ++ [.started turnId call])).Perm
    (raisedOf (s.log ++ [.started turnId call]))
   rw [hraised,hsettled]
   exact h.once.perm
 · change ∀ promise ∈ raisedOf (s.log ++ [.started turnId call]), promise < s.nextPromise
   rw [hraised]
   exact h.fresh

theorem Inv.not_raised (h:Inv host s) : s.nextPromise ∉ raisedOf s.log :=
 fun hmem=>Nat.lt_irrefl _ (h.fresh _ hmem)

theorem Inv.raise (h:Inv host s) {p:Pending} {new:List LogEntry}
  (hnew:∀ entry ∈ new, entry = .settled s.nextPromise)
  (ha:∀ entry ∈ s.pending.approvals, entry ∈ p.approvals)
  (hq:∀ entry ∈ s.pending.questions, entry ∈ p.questions)
  (hakeys:(p.approvals.map Prod.fst).Nodup) (hqkeys:(p.questions.map Prod.fst).Nodup)
  (hadded:∀ entry ∈ p.approvals ++ p.questions,
   entry ∈ s.pending.approvals ++ s.pending.questions ∨ .stopped entry.2.ctx.turnId ∉ s.log)
  (hperm:(waiting p ++ settledOf new).Perm (waiting s.pending ++ [s.nextPromise])) :
  Inv host ((s.raise p).note new) := by
 have hlog:((s.raise p).note new).log=s.log ++ (.raised s.nextPromise::new):=by
  change (s.log ++ [.raised s.nextPromise]) ++ new=_
  rw [List.append_assoc]
  rfl
 have hraisednew:raisedOf new=[]:=by
  unfold raisedOf
  rw [List.filterMap_eq_nil_iff]
  intro entry hentry
  rw [hnew entry hentry]
  rfl
 have hraised:raisedOf ((s.raise p).note new).log=raisedOf s.log ++ [s.nextPromise]:=by
  rw [hlog,raisedOf_append]
  change raisedOf s.log ++ s.nextPromise::raisedOf new=_
  rw [hraisednew]
 have hsettled:settledOf ((s.raise p).note new).log=settledOf s.log ++ settledOf new:=by
  rw [hlog,settledOf_append]
  rfl
 apply h.extend (.raised s.nextPromise::new)
 refine ⟨rfl,rfl,hlog, ?_, ?_,ha,hq,hakeys,hqkeys,hadded,⟨?_, ?_⟩, ?_⟩
 · intro t hmem
   rcases List.mem_cons.mp hmem with hmem | hmem
   · cases hmem
   · cases hnew _ hmem
 · intro t c hmem
   rcases List.mem_cons.mp hmem with hmem | hmem
   · cases hmem
   · cases hnew _ hmem
 · rw [hraised]
   apply List.Nodup.append h.once.raised_nodup (List.nodup_singleton _)
   rw [List.disjoint_singleton]
   exact h.not_raised
 · rw [hraised,hsettled]
   change (waiting p ++ (settledOf s.log ++ settledOf new)).Perm _
   have hswap:(waiting p ++ (settledOf s.log ++ settledOf new)).Perm
     (waiting p ++ (settledOf new ++ settledOf s.log)) := List.perm_append_comm.append_left _
   have hnext:(waiting p ++ (settledOf new ++ settledOf s.log)).Perm
     (waiting s.pending ++ [s.nextPromise] ++ settledOf s.log) := by
    rw [←List.append_assoc]
    exact hperm.append_right _
   have hback:(waiting s.pending ++ [s.nextPromise] ++ settledOf s.log).Perm
     (waiting s.pending ++ settledOf s.log ++ [s.nextPromise]) := by
    rw [List.append_assoc,List.append_assoc]
    exact List.perm_append_comm.append_left _
   exact ((hswap.trans hnext).trans hback).trans (h.once.perm.append_right _)
 · rw [hraised]
   intro promise hmem
   rcases List.mem_append.mp hmem with hmem | hmem
   · exact Nat.lt_succ_of_lt (h.fresh promise hmem)
   · rw [List.mem_singleton.mp hmem]
     exact Nat.lt_succ_self _

theorem note_nil (s:State) : s.note []=s := by
 unfold State.note
 rw [List.append_nil]

theorem setPhase_eq {turnId:String} {turn:Turn} (hturn:s.turns turnId=some turn)
  (phase:Phase) :
  s.setPhase turnId phase=s.setTurn turnId (some { turn with phase:=phase }) := by
 unfold State.setPhase
 rw [hturn]
 rfl

structure Moves (host:Host) (policy:PermissionPolicy) (turnId:String) (turn turn' : Turn) :
  Prop where
 linked : ∀ p, Linked turnId p turn'
 quiet : Quiet host policy turn → Quiet host policy turn'

theorem linked_of_not_waiting {turnId:String} {p:Pending} {turn:Turn}
  (h:∀ queued current, turn.phase = .round queued (some current) →
   (∀ call promise, current ≠ .awaitingApproval call promise) ∧
    ∀ call promise, current ≠ .asking call promise) : Linked turnId p turn := by
 constructor
 · intro queued call promise hphase
   exact absurd rfl ((h queued _ hphase).1 call promise)
 · intro queued call promise hphase
   exact absurd rfl ((h queued _ hphase).2 call promise)

theorem moves_phase {policy:PermissionPolicy} {turnId:String} {turn:Turn} {phase:Phase}
  (hover:turn.phase ≠ .ended)
  (hwait:∀ queued current, phase = .round queued (some current) →
   (∀ call promise, current ≠ .awaitingApproval call promise) ∧
    ∀ call promise, current ≠ .asking call promise)
  (hstop:turn.aborted=true → Stoppable host policy turn.phase → Stoppable host policy phase) :
  Moves host policy turnId turn { turn with phase:=phase } := by
 refine ⟨fun p=>linked_of_not_waiting hwait, ?_⟩
 intro hquiet
 have haborted:turn.aborted=true:=hquiet.aborted.resolve_right hover
 exact ⟨Or.inl haborted,hstop haborted hquiet.stoppable,hwait⟩

theorem gate_of_refused {policy:PermissionPolicy} {call:ToolCall}
  (h:refused host policy call=true) :
  gate host policy call ≠ .gated .ask ∧ gate host policy call ≠ .gated .always := by
 unfold refused at h
 constructor
 · intro hgate
   rw [hgate] at h
   cases h
 · intro hgate
   rw [hgate] at h
   cases h

theorem admitted_not_waiting (host:Host) (queued:List ToolCall) (call:ToolCall)
  (queued' : List ToolCall) (current:CallPhase)
  (h:admitted host queued call = .round queued' (some current)) :
  (∀ call promise, current ≠ .awaitingApproval call promise) ∧
   ∀ call promise, current ≠ .asking call promise := by
 unfold admitted at h
 split at h
 · cases h
 · cases h
   constructor
   · intro call promise heq
     cases heq
   · intro call promise heq
     cases heq

/-- What a step of a turn can be: a move on its own, an approval asked for, or a tool that
    starts. -/
theorem turnStep_cases {action:Action} {turnId:String} {turn:Turn}
  (hturn:s.turns turnId=some turn) (h:turnStep host action turnId turn s=some s') :
  (∃ turn', s' = s.setTurn turnId (some turn') ∧ Moves host s.policy turnId turn turn') ∨
  (∃ t queued call, action = .takeCall t ∧ turn.phase = .round (call::queued) none ∧
   gate host s.policy call = .gated .ask ∧ s' = dispatch host turnId turn queued call s) ∨
  ∃ t queued call, action = .startTool t ∧
   turn.phase = .round queued (some (.snapshotting call)) ∧
    s' = execute host turnId turn queued call s := by
 have hmove:∀ phase, Moves host s.policy turnId turn { turn with phase:=phase } →
   some (s.setPhase turnId phase)=some s' →
    ∃ turn', s' = s.setTurn turnId (some turn') ∧ Moves host s.policy turnId turn turn' := by
  intro phase hmoves heq
  exact ⟨_,(Option.some.inj heq).symm.trans (setPhase_eq hturn phase),hmoves⟩
 have hmoveTo:∀ phase, some (s.setPhase turnId phase)=some s' → turn.phase ≠ .ended →
   (∀ queued current, phase = .round queued (some current) →
    (∀ call promise, current ≠ .awaitingApproval call promise) ∧
     ∀ call promise, current ≠ .asking call promise) →
   (turn.aborted=true → Stoppable host s.policy turn.phase → Stoppable host s.policy phase) →
    ∃ turn', s' = s.setTurn turnId (some turn') ∧ Moves host s.policy turnId turn turn' :=
  fun phase heq hover hwait hstop=>hmove phase (moves_phase hover hwait hstop) heq
 have hidle:∀ phase, some (s.setPhase turnId phase)=some s' → turn.phase ≠ .ended →
   (∀ queued current, phase ≠ .round queued (some current)) →
   (turn.aborted=true → Stoppable host s.policy turn.phase → Stoppable host s.policy phase) →
    ∃ turn', s' = s.setTurn turnId (some turn') ∧ Moves host s.policy turnId turn turn' :=
  fun phase heq hover hnone hstop=>
   hmoveTo phase heq hover (fun queued current h=>absurd h (hnone queued current)) hstop
 unfold turnStep at h
 split at h
 -- the turn is registered
 · rename_i hphase
   rw [hphase] at hidle
   exact Or.inl (hidle _ h (by simp) (by simp) (fun _ hstop=>hstop.elim))
 -- a stream opens
 · rename_i hphase
   rw [hphase] at hidle
   exact Or.inl (hidle _ h (by simp) (by simp) (fun _ _=>rfl))
 -- the conversation becomes known
 · rename_i hphase
   refine Or.inl ⟨_,(Option.some.inj h).symm, ?_, ?_⟩
   · intro p
     apply linked_of_not_waiting
     intro queued current heq
     rw [hphase] at heq
     cases heq
   · exact fun hquiet=>⟨hquiet.aborted,hquiet.stoppable,hquiet.not_waiting⟩
 -- a frame of a tool call
 · rename_i hphase
   rw [hphase] at hidle
   exact Or.inl (hidle _ h (by simp) (by simp) (fun _ hstop=>hstop))
 -- the body has arrived
 · rename_i hphase
   rw [hphase] at hidle
   split at h
   · cases h
   · rename_i haborted
     exact Or.inl (hidle _ h (by simp) (by simp) (fun hab _=>absurd hab haborted))
 -- the response ends with tool calls
 · rename_i hphase
   rw [hphase] at hidle
   refine Or.inl (hidle _ h (by simp) ?_ (fun _ hstop=>nomatch hstop))
   intro queued current heq
   split at heq
   · cases heq
   · cases heq
 -- the response ends
 · rename_i hphase
   rw [hphase] at hidle
   exact Or.inl (hidle _ h (by simp) (by simp) (fun _ _=>trivial))
 · rename_i hphase
   rw [hphase] at hidle
   exact Or.inl (hidle _ h (by simp) (by simp) (fun _ _=>trivial))
 · rename_i hphase
   rw [hphase] at hidle
   exact Or.inl (hidle _ h (by simp) (by simp) (fun _ _=>trivial))
 -- a call is taken from the queue
 · rename_i call queued hphase
   rw [hphase] at hidle hmoveTo
   have hrefused:Stoppable host s.policy (.round (call::queued) none) →
     refused host s.policy call=true ∧ Stoppable host s.policy (.round queued none) := by
    intro hstop
    exact ⟨hstop.1 call List.mem_cons_self,
     fun c hc=>hstop.1 c (List.mem_cons_of_mem call hc),trivial⟩
   cases hgate:gate host s.policy call with
   | statusUpdate=>
    unfold dispatch at h
    rw [hgate] at h
    exact Or.inl (hidle _ h (by simp) (by simp) fun _ hstop=>(hrefused hstop).2)
   | unknown=>
    unfold dispatch at h
    rw [hgate] at h
    exact Or.inl (hidle _ h (by simp) (by simp) fun _ hstop=>(hrefused hstop).2)
   | gated permission=>
    cases permission with
    | never=>
     unfold dispatch at h
     rw [hgate] at h
     exact Or.inl (hidle _ h (by simp) (by simp) fun _ hstop=>(hrefused hstop).2)
    | always=>
     unfold dispatch at h
     rw [hgate] at h
     refine Or.inl (hmoveTo _ h (by simp) (admitted_not_waiting host queued call) ?_)
     intro _ hstop
     exact absurd hgate (gate_of_refused (hrefused hstop).1).2
    | ask=>
     exact Or.inr (Or.inl ⟨_,queued,call,rfl,hphase,hgate,(Option.some.inj h).symm⟩)
 -- the dispatcher goes on after the decision
 · rename_i queued call hphase
   rw [hphase] at hmoveTo
   exact Or.inl (hmoveTo _ h (by simp) (admitted_not_waiting host queued call)
    fun _ hstop=>hstop.2.elim)
 · rename_i hphase
   rw [hphase] at hidle
   exact Or.inl (hidle _ h (by simp) (by simp) fun _ hstop=>⟨hstop.1,trivial⟩)
 -- a tool starts
 · rename_i queued call hphase
   exact Or.inr (Or.inr ⟨_,queued,call,rfl,hphase,(Option.some.inj h).symm⟩)
 -- a tool ends
 · rename_i hphase
   rw [hphase] at hidle
   exact Or.inl (hidle _ h (by simp) (by simp) fun _ hstop=>⟨hstop.1,trivial⟩)
 -- the round ends
 · rename_i hphase
   rw [hphase] at hidle
   refine Or.inl (hidle _ h (by simp) ?_ ?_)
   · intro queued current heq
     split at heq
     · cases heq
     · cases heq
   · intro haborted _
     rw [if_pos haborted]
     trivial
 -- the turn is finished
 · rename_i hphase
   rw [hphase] at hidle
   exact Or.inl (hidle _ h (by simp) (by simp) fun _ _=>trivial)
 · cases h

theorem notMem_keys_of_lookup {key:String} (h:m.lookup key=none) :
  key ∉ m.map Prod.fst := by
 intro hmem
 obtain ⟨entry,hentry,rfl⟩:=List.mem_map.mp hmem
 have hne:=List.lookup_eq_none_iff.mp h entry hentry
 simp at hne

theorem set_of_lookup_none {key:String} (h:m.lookup key=none)
  (w:Waiting) : JsMap.set key w m=m ++ [(key,w)] := by
 unfold JsMap.set
 rw [if_neg]
 rw [List.any_eq_true]
 rintro ⟨entry,hentry,hkey⟩
 exact notMem_keys_of_lookup h (List.mem_map.mpr ⟨entry,hentry,by simpa using hkey⟩)

theorem nodup_keys_append {key:String} (hm:(m.map Prod.fst).Nodup)
  (h:m.lookup key=none) (w:Waiting) : ((m ++ [(key,w)]).map Prod.fst).Nodup := by
 rw [List.map_append]
 apply List.Nodup.append hm (List.nodup_singleton key)
 rw [List.disjoint_comm]
 intro k hk
 rw [List.mem_singleton.mp hk]
 exact notMem_keys_of_lookup h

/-- An approval is raised, or an early decision taken, by a turn that is not stopped. -/
theorem Inv.dispatchAsk (h:Inv host s) {turnId:String} {turn:Turn}
  {call:ToolCall} (hturn:s.turns turnId=some turn)
  (hphase:turn.phase = .round (call::queued) none)
  (hgate:gate host s.policy call = .gated .ask)
  (hfree:s.pending.approvals.lookup call.callId=none) :
  Inv host (dispatch host turnId turn queued call s) := by
 have hnot:.stopped turnId ∉ s.log:=by
  intro hmem
  have hstop:=(h.quiet turnId hmem turn hturn).stoppable
  rw [hphase] at hstop
  exact (gate_of_refused (hstop.1 call List.mem_cons_self)).1 hgate
 unfold dispatch Pending.requestApproval
 rw [hgate]
 cases hearly:s.pending.early.lookup call.callId with
 | some early=>
  have hraise:Inv host ((s.raise { s.pending with
    early := JsMap.delete call.callId s.pending.early }).note [.settled s.nextPromise]) := by
   apply h.raise
   · intro entry hentry
     exact List.mem_singleton.mp hentry
   · exact fun _ he=>he
   · exact fun _ he=>he
   · exact h.approval_keys
   · exact h.question_keys
   · exact fun _ he=>Or.inl he
   · exact List.Perm.refl _
  have hturn' : ((s.raise { s.pending with
    early:=JsMap.delete call.callId s.pending.early }).note
     [.settled s.nextPromise]).turns turnId=some turn := hturn
  dsimp only
  rw [setPhase_eq hturn']
  apply hraise.setTurn
  · intro hmem
    exfalso
    change _ ∈ (s.log ++ [LogEntry.raised s.nextPromise]) ++ [LogEntry.settled s.nextPromise]
     at hmem
    simp [hnot] at hmem
  · apply linked_of_not_waiting
    intro q current heq
    cases heq
    constructor
    · intro c promise heq
      cases heq
    · intro c promise heq
      cases heq
 | none=>
  have hset:=set_of_lookup_none hfree ⟨s.nextPromise,turn.context turnId⟩
  have hraise:Inv host (s.raise { s.pending with
    approvals:=JsMap.set call.callId ⟨s.nextPromise,turn.context turnId⟩
     s.pending.approvals }) := by
   rw [hset,←note_nil (State.raise _ s)]
   apply h.raise
   · exact fun _ he=>nomatch he
   · exact fun _ he=>List.mem_append_left _ he
   · exact fun _ he=>he
   · exact nodup_keys_append h.approval_keys hfree _
   · exact h.question_keys
   · intro entry hentry
     rcases List.mem_append.mp hentry with hentry | hentry
     · rcases List.mem_append.mp hentry with hentry | hentry
       · exact Or.inl (List.mem_append_left _ hentry)
       · right
         rw [List.mem_singleton.mp hentry]
         exact hnot
     · exact Or.inl (List.mem_append_right _ hentry)
   · have hnil:settledOf []=[]:=rfl
     rw [hnil,List.append_nil]
     unfold waiting
     simp only [List.map_append,List.map_cons,List.map_nil,List.append_assoc]
     apply List.Perm.append_left
     exact List.perm_append_comm
  have hturn' : (s.raise { s.pending with
    approvals:=JsMap.set call.callId ⟨s.nextPromise,turn.context turnId⟩
     s.pending.approvals }).turns turnId=some turn := hturn
  dsimp only
  rw [setPhase_eq hturn']
  apply hraise.setTurn
  · intro hmem
    exfalso
    change _ ∈ s.log ++ [LogEntry.raised s.nextPromise] at hmem
    simp [hnot] at hmem
  · constructor
    · intro q c promise heq
      cases heq
      refine ⟨turn.conversationId.getD turnId, ?_⟩
      change _ ∈ JsMap.set call.callId ⟨s.nextPromise,turn.context turnId⟩ s.pending.approvals
      rw [hset]
      exact List.mem_append_right _ List.mem_cons_self
    · intro q c promise heq
      cases heq

theorem Inv.execute (h:Inv host s) {turnId:String} {turn:Turn}
  {call:ToolCall} (hturn:s.turns turnId=some turn)
  (hphase:turn.phase = .round queued (some (.snapshotting call)))
  (hfree:(questionOf host call).isSome → s.pending.questions.lookup call.callId=none) :
  Inv host (execute host turnId turn queued call s) := by
 have hnot:.stopped turnId ∉ s.log:=by
  intro hmem
  have hstop:=(h.quiet turnId hmem turn hturn).stoppable
  rw [hphase] at hstop
  exact hstop.2
 have hnoted:=h.noteStarted hnot call
 have hnot' : .stopped turnId ∉ (s.note [.started turnId call]).log:=by
  intro hmem
  change _ ∈ s.log ++ [LogEntry.started turnId call] at hmem
  simp [hnot] at hmem
 unfold ChatTurns.execute
 cases hquestion:questionOf host call with
 | none=>
  have hturn' : (s.note [.started turnId call]).turns turnId=some turn:=hturn
  dsimp only
  rw [setPhase_eq hturn']
  apply hnoted.setTurn
  · exact fun hmem=>absurd hmem hnot'
  · apply linked_of_not_waiting
    intro q current heq
    cases heq
    constructor
    · intro c promise heq
      cases heq
    · intro c promise heq
      cases heq
 | some question=>
  have hlook:s.pending.questions.lookup call.callId=none:=
   hfree (by rw [hquestion]; rfl)
  have hset:=set_of_lookup_none hlook ⟨s.nextPromise,turn.context turnId⟩
  have hraise:Inv host ((s.note [.started turnId call]).raise
    (s.pending.askUser call.callId (turn.context turnId) s.nextPromise)) := by
   unfold Pending.askUser
   rw [hset,←note_nil (State.raise _ _)]
   apply hnoted.raise
   · exact fun _ he=>nomatch he
   · exact fun _ he=>he
   · exact fun _ he=>List.mem_append_left _ he
   · exact h.approval_keys
   · exact nodup_keys_append h.question_keys hlook _
   · intro entry hentry
     rcases List.mem_append.mp hentry with hentry | hentry
     · exact Or.inl (List.mem_append_left _ hentry)
     · rcases List.mem_append.mp hentry with hentry | hentry
       · exact Or.inl (List.mem_append_right _ hentry)
       · right
         rw [List.mem_singleton.mp hentry]
         exact hnot'
   · have hnil:settledOf []=[]:=rfl
     rw [hnil,List.append_nil]
     unfold waiting
     simp only [List.map_append,List.map_cons,List.map_nil,List.append_assoc]
     exact List.Perm.refl _
  have hturn' : ((s.note [.started turnId call]).raise
    (s.pending.askUser call.callId (turn.context turnId) s.nextPromise)).turns turnId =
     some turn := hturn
  dsimp only
  rw [setPhase_eq hturn']
  apply hraise.setTurn
  · intro hmem
    exfalso
    change _ ∈ (s.note [.started turnId call]).log ++ [LogEntry.raised s.nextPromise] at hmem
    rcases List.mem_append.mp hmem with hmem | hmem
    · exact hnot' hmem
    · simp at hmem
  · constructor
    · intro q c promise heq
      cases heq
    · intro q c promise heq
      cases heq
      refine ⟨turn.conversationId.getD turnId, ?_⟩
      change _ ∈ JsMap.set call.callId ⟨s.nextPromise,turn.context turnId⟩ s.pending.questions
      rw [hset]
      exact List.mem_append_right _ List.mem_cons_self

theorem Inv.turnStep (h:Inv host s) {action:Action} {turnId:String} {turn:Turn}
  (haction:action.turn=some turnId) (hturn:s.turns turnId=some turn)
  (hcareful:Careful host s action) (hstep:turnStep host action turnId turn s=some s') :
  Inv host s' := by
 rcases turnStep_cases hturn hstep with ⟨turn', rfl,hmoves⟩ |
  ⟨t,queued,call,rfl,hphase,hgate,rfl⟩ | ⟨t,queued,call,rfl,hphase,rfl⟩
 · exact h.setTurn (fun hmem=>hmoves.quiet (h.quiet turnId hmem turn hturn))
    (hmoves.linked s.pending)
 · obtain rfl : t=turnId:=Option.some.inj haction
   have hnext:call ∈ nextCall turn.phase:=by
    rw [hphase]
    rfl
   exact h.dispatchAsk hturn hphase hgate (hcareful turn hturn call hnext hgate)
 · obtain rfl : t=turnId:=Option.some.inj haction
   have hstart:call ∈ startingCall turn.phase:=by
    rw [hphase]
    rfl
   exact h.execute hturn hphase (hcareful turn hturn call hstart)

theorem Inv.start (h:Inv host s) {turnId:String} (conversationId:Option String)
  (loads:Bool) (hnot:.stopped turnId ∉ s.log) :
  Inv host (s.setTurn turnId
   (some ⟨conversationId,false,if loads then .loading else .between⟩)) := by
 apply h.setTurn
 · exact fun hmem=>absurd hmem hnot
 · apply linked_of_not_waiting
   intro queued current heq
   dsimp only at heq
   split at heq
   · cases heq
   · cases heq

theorem Inv.setPermission (h:Inv host s) {policy:PermissionPolicy}
  (hcareful:Careful host s (.setPermission policy)) : Inv host { s with policy:=policy } := by
 refine ⟨h.respected, ?_,h.linked,h.approval_keys,h.question_keys,h.nothing_waits,
  ⟨h.once.raised_nodup,h.once.perm⟩,h.fresh⟩
 intro turnId hmem turn hturn
 have hquiet:=h.quiet turnId hmem turn hturn
 refine ⟨hquiet.aborted, ?_,hquiet.not_waiting⟩
 have hstop:=hquiet.stoppable
 cases hphase:turn.phase with
 | loading=>
  rw [hphase] at hstop
  exact hstop
 | between=>trivial
 | streaming calls complete=>
  rw [hphase] at hstop
  exact hstop
 | round queued current=>
  rw [hphase] at hstop
  have hqueue:queueOf turn.phase=queued:=by
   rw [hphase]
   rfl
  exact ⟨fun call hcall=>hcareful _ hmem turnId rfl turn hturn call (hqueue ▸ hcall),
   hstop.2⟩
 | ended=>trivial

def Past : CallPhase → Prop
 | .decided _ decision=>decision = .deny
 | .executing _=>True
 | _=>False

theorem past_of_cancelTurn {turnId:String} {turn:Turn}
  {current:CallPhase} (hlinked:Linked turnId s.pending turn)
  (hphase:turn.phase = .round queued (some current))
  (hstop:Stoppable host s.policy turn.phase) :
  Past (current.settle (s.pending.cancelTurn turnId).2) := by
 rw [hphase] at hstop
 cases current with
 | awaitingApproval call promise=>
  obtain ⟨conversationId,hentry⟩:=hlinked.approval queued call promise hphase
  have hdeny:.approval promise .deny ∈ (s.pending.cancelTurn turnId).2:=by
   apply List.mem_append_left
   exact List.mem_map.mpr ⟨_,List.mem_filter.mpr ⟨hentry,decide_eq_true rfl⟩,rfl⟩
  have hallow:.approval promise .allow ∉ (s.pending.cancelTurn turnId).2:=by
   intro hmem
   rcases List.mem_append.mp hmem with hmem | hmem
   · obtain ⟨entry,-,heq⟩:=List.mem_map.mp hmem
     cases heq
   · obtain ⟨entry,-,heq⟩:=List.mem_map.mp hmem
     cases heq
  dsimp only [CallPhase.settle]
  rw [if_neg hallow,if_pos hdeny]
  rfl
 | asking call promise=>
  obtain ⟨conversationId,hentry⟩:=hlinked.question queued call promise hphase
  have hskip:promise ∈ (s.pending.cancelTurn turnId).2.map Settled.promise:=by
   refine List.mem_map.mpr ⟨.question promise "", ?_,rfl⟩
   apply List.mem_append_right
   exact List.mem_map.mpr ⟨_,List.mem_filter.mpr ⟨hentry,decide_eq_true rfl⟩,rfl⟩
  dsimp only [CallPhase.settle]
  rw [if_pos hskip]
  trivial
 | decided call decision=>
  cases decision with
  | allow=>exact hstop.2.elim
  | deny=>rfl
 | snapshotting call=>exact hstop.2.elim
 | executing call=>trivial

theorem quiet_of_past {policy:PermissionPolicy} {conversationId:Option String}
  {current:CallPhase} (h:Past current)
  (hqueued:∀ call ∈ queued, refused host policy call=true) :
  Quiet host policy ⟨conversationId,true,.round queued (some current)⟩ := by
 refine ⟨Or.inl rfl,⟨hqueued, ?_⟩, ?_⟩
 · cases current with
   | decided call decision=>
    obtain rfl : decision = .deny:=h
    trivial
   | executing call=>trivial
   | awaitingApproval call promise=>exact h.elim
   | asking call promise=>exact h.elim
   | snapshotting call=>exact h.elim
 · intro queued' current' heq
   cases heq
   constructor
   · rintro call promise rfl
     exact h
   · rintro call promise rfl
     exact h

/-- The turn that is stopped: what it waited for is denied or skipped, and it is aborted. -/
theorem quiet_of_stop {turnId:String} {turn:Turn} (hlinked:Linked turnId s.pending turn)
  (hstop:Stoppable host s.policy turn.phase) :
  Quiet host s.policy (turn.settle (s.pending.cancelTurn turnId).2).abort := by
 have hpast:∀ queued current, turn.phase = .round queued (some current) →
   Past (current.settle (s.pending.cancelTurn turnId).2) :=
  fun _ _ hphase=>past_of_cancelTurn hlinked hphase hstop
 obtain ⟨conversationId,aborted,phase⟩:=turn
 cases phase with
 | loading=>exact hstop.elim
 | between=>exact ⟨Or.inl rfl,trivial,fun _ _ heq=>nomatch heq⟩
 | streaming calls complete=>exact ⟨Or.inl rfl,hstop,fun _ _ heq=>nomatch heq⟩
 | ended=>exact ⟨Or.inr rfl,trivial,fun _ _ heq=>nomatch heq⟩
 | round queued current=>
  cases current with
  | none=>exact ⟨Or.inl rfl,hstop,fun _ _ heq=>nomatch heq⟩
  | some current=>exact quiet_of_past (hpast queued current rfl) hstop.1

theorem abort_phase (turn:Turn) : turn.abort.phase=turn.phase := by
 unfold Turn.abort
 split <;> rfl

theorem Inv.stop (h:Inv host s) {turnId:String}
  (hcareful:Careful host s (.stop turnId)) : Inv host (s.stop turnId) := by
 have hsettle:Inv host (s.settle (s.pending.cancelTurn turnId)):=
  h.settle (removes_cancelTurn turnId s.pending)
 have hnone:∀ entry ∈ (s.pending.cancelTurn turnId).1.approvals ++
   (s.pending.cancelTurn turnId).1.questions, entry.2.ctx.turnId ≠ turnId := by
  intro entry hentry heq
  rcases List.mem_append.mp hentry with hentry | hentry
  · have hkept:=(List.mem_filter.mp hentry).2
    simp [heq] at hkept
  · have hkept:=(List.mem_filter.mp hentry).2
    simp [heq] at hkept
 have hlog:(s.stop turnId).log=(s.settle (s.pending.cancelTurn turnId)).log ++
   [.stopped turnId] := rfl
 have hraised:raisedOf (s.stop turnId).log =
   raisedOf (s.settle (s.pending.cancelTurn turnId)).log := by
  rw [hlog,raisedOf_append]
  exact List.append_nil _
 have hsettled:settledOf (s.stop turnId).log =
   settledOf (s.settle (s.pending.cancelTurn turnId)).log := by
  rw [hlog,settledOf_append]
  exact List.append_nil _
 have hturns:∀ t turn, (s.stop turnId).turns t=some turn →
   ∃ turn₀, s.turns t=some turn₀ ∧
    turn = if t=turnId then (turn₀.settle (s.pending.cancelTurn turnId).2).abort
     else turn₀.settle (s.pending.cancelTurn turnId).2 := by
  intro t turn hturn
  by_cases heq:t=turnId
  · subst heq
    have hturn' : ((s.turns t).map (Turn.settle (s.pending.cancelTurn t).2)).map Turn.abort =
      some turn := by simpa [State.stop,State.setTurn,State.note,State.settle] using hturn
    obtain ⟨turn₁,hturn₁,rfl⟩:=Option.map_eq_some_iff.mp hturn'
    obtain ⟨turn₀,hturn₀,rfl⟩:=Option.map_eq_some_iff.mp hturn₁
    exact ⟨turn₀,hturn₀,by rw [if_pos rfl]⟩
  · have hturn' : (s.turns t).map (Turn.settle (s.pending.cancelTurn turnId).2) =
      some turn := by
     simpa [State.stop,State.setTurn,State.note,State.settle,heq] using hturn
    obtain ⟨turn₀,hturn₀,rfl⟩:=Option.map_eq_some_iff.mp hturn'
    exact ⟨turn₀,hturn₀,by rw [if_neg heq]⟩
 refine ⟨?_, ?_, ?_,hsettle.approval_keys,hsettle.question_keys, ?_,⟨?_, ?_⟩, ?_⟩
 · rw [hlog]
   apply hsettle.respected.append
   · intro t call hmem
     simp at hmem
   · intro t hmem
     rw [List.mem_singleton.mp hmem]
 · intro t hmem turn hturn
   obtain ⟨turn₀,hturn₀,rfl⟩:=hturns t turn hturn
   by_cases heq:t=turnId
   · subst heq
     rw [if_pos rfl]
     exact quiet_of_stop (h.linked t turn₀ hturn₀) (hcareful turn₀ hturn₀)
   · rw [if_neg heq]
     have hold:.stopped t ∈ s.log:=by
      rw [hlog] at hmem
      rcases List.mem_append.mp hmem with hmem | hmem
      · rcases List.mem_append.mp hmem with hmem | hmem
        · exact hmem
        · exact absurd hmem (not_stopped_of_settled _ t)
      · simp [heq] at hmem
     have hquiet:=h.quiet t hold turn₀ hturn₀
     rw [hquiet.settle]
     exact hquiet
 · intro t turn hturn
   obtain ⟨turn₀,hturn₀,rfl⟩:=hturns t turn hturn
   have hlinked:=(h.linked t turn₀ hturn₀).settle (removes_cancelTurn turnId s.pending)
   split
   · refine ⟨?_, ?_⟩
     · rw [abort_phase]
       exact hlinked.approval
     · rw [abort_phase]
       exact hlinked.question
   · exact hlinked
 · intro t hmem entry hentry
   rw [hlog] at hmem
   rcases List.mem_append.mp hmem with hmem | hmem
   · exact hsettle.nothing_waits t hmem entry hentry
   · obtain rfl : t=turnId:=by simpa using hmem
     exact hnone entry hentry
 · rw [hraised]
   exact hsettle.once.raised_nodup
 · rw [hraised,hsettled]
   exact hsettle.once.perm
 · rw [hraised]
   exact hsettle.fresh

theorem Inv.step (h:Inv host s) {action:Action}
  (hcareful:Careful host s action) (hstep:step host action s=some s') : Inv host s' := by
 unfold ChatTurns.step at hstep
 cases haction:action.turn with
 | some turnId=>
  rw [haction] at hstep
  obtain ⟨turn,hturn,hstep⟩:=Option.bind_eq_some_iff.mp hstep
  exact h.turnStep haction hturn hcareful hstep
 | none=>
  rw [haction] at hstep
  dsimp only at hstep
  split at hstep
  · split at hstep
    · cases hstep
    · cases hstep
      exact h.start _ _ hcareful
  · cases hstep
    exact h.settle (removes_decide h.approval_keys _ _ _)
  · cases hstep
    exact h.settle (removes_answer h.question_keys _ _)
  · cases hstep
    exact h.settle (removes_cancelConversation _ _)
  · cases hstep
    exact h.setPermission hcareful
  · cases hstep
    exact h.stop hcareful
  · cases hstep

theorem inv_initial (host:Host) (policy:PermissionPolicy) : Inv host (initial policy) := by
 refine ⟨?_, ?_, ?_,List.nodup_nil,List.nodup_nil, ?_,⟨List.nodup_nil,List.Perm.refl _⟩, ?_⟩
 · intro before after turnId call heq
   cases before with
   | nil=>cases heq
   | cons x before=>cases heq
 · intro turnId hmem
   cases hmem
 · intro turnId turn hturn
   cases hturn
 · intro turnId hmem
   cases hmem
 · intro promise hmem
   cases hmem

theorem Inv.run (h:Inv host s) {actions:List Action}
  (hcareful:CarefulRun host actions s) (hrun:run host actions s=some s') :
  Inv host s' := by
 induction actions generalizing s with
 | nil=>
  cases hrun
  exact h
 | cons action actions ih=>
  unfold ChatTurns.run at hrun
  rw [List.foldlM_cons] at hrun
  obtain ⟨s₁,hstep,hrest⟩:=Option.bind_eq_some_iff.mp hrun
  obtain ⟨hfirst,hcareful⟩:=hcareful
  rw [hstep] at hcareful
  exact ih (h.step hfirst hstep) hcareful hrest

/-! ## Other turns -/

theorem othersKept_cancelTurn (turnId:String) (p:Pending) :
  OthersKept turnId p (p.cancelTurn turnId).1 := by
 refine ⟨rfl,rfl, ?_⟩
 intro entry hentry hother
 apply List.mem_filter.mpr
 refine ⟨hentry, ?_⟩
 cases hconversation:entry.2.conversationId with
 | none=>rfl
 | some conversationId=>
  have hnot:=hother conversationId hconversation
  simpa [hconversation] using hnot

theorem Inv.cancelled_elsewhere (h:Inv host s) {turnId other:String} (hne:other ≠ turnId)
  {entry:String × Waiting} (hentry:entry ∈ s.pending.approvals ++ s.pending.questions)
  (hother:entry.2.ctx.turnId=other) :
  entry.2.promise ∉ (s.pending.cancelTurn turnId).2.map Settled.promise := by
 intro hmem
 have hnodup:(waiting s.pending).Nodup:=
  (h.once.perm.nodup_iff.mpr h.once.raised_nodup).of_append_left
 obtain ⟨cancelled,hcancelled,hturn,hpromise⟩ :
   ∃ cancelled ∈ s.pending.approvals ++ s.pending.questions,
    cancelled.2.ctx.turnId=turnId ∧ cancelled.2.promise=entry.2.promise := by
  obtain ⟨x,hx,hxp⟩:=List.mem_map.mp hmem
  rcases List.mem_append.mp hx with hx | hx
  · obtain ⟨cancelled,hcancelled,rfl⟩:=List.mem_map.mp hx
    obtain ⟨hmem,hmatch⟩:=List.mem_filter.mp hcancelled
    exact ⟨cancelled,List.mem_append_left _ hmem,of_decide_eq_true hmatch,hxp⟩
  · obtain ⟨cancelled,hcancelled,rfl⟩:=List.mem_map.mp hx
    obtain ⟨hmem,hmatch⟩:=List.mem_filter.mp hcancelled
    exact ⟨cancelled,List.mem_append_right _ hmem,of_decide_eq_true hmatch,hxp⟩
 have hsame:cancelled=entry:=
  List.inj_on_of_nodup_map hnodup hcancelled hentry hpromise
 exact hne (by rw [←hother,←hsame,hturn])

theorem Inv.stop_other (h:Inv host s) {turnId other:String} (hne:other ≠ turnId) :
  (s.stop turnId).turns other=s.turns other := by
 have hturns:(s.stop turnId).turns other =
   (s.turns other).map (Turn.settle (s.pending.cancelTurn turnId).2) := by
  simp [State.stop,State.setTurn,State.note,State.settle,hne]
 rw [hturns]
 cases hturn:s.turns other with
 | none=>rfl
 | some turn=>
  have hlinked:=h.linked other turn hturn
  rw [Option.map_some]
  congr 1
  obtain ⟨conversationId,aborted,phase⟩:=turn
  cases phase with
  | round queued current=>
   cases current with
   | none=>rfl
   | some current=>
    dsimp only [Turn.settle]
    cases current with
    | awaitingApproval call promise=>
     obtain ⟨conv,hentry⟩:=hlinked.approval queued call promise rfl
     have hnot:=h.cancelled_elsewhere hne (List.mem_append_left _ hentry) rfl
     have hnone:∀ decision,
       .approval promise decision ∉ (s.pending.cancelTurn turnId).2 := by
      intro decision hmem
      exact hnot (List.mem_map.mpr ⟨_,hmem,rfl⟩)
     dsimp only [CallPhase.settle]
     rw [if_neg (hnone .allow),if_neg (hnone .deny)]
    | asking call promise=>
     obtain ⟨conv,hentry⟩:=hlinked.question queued call promise rfl
     have hnot:=h.cancelled_elsewhere hne (List.mem_append_right _ hentry) rfl
     dsimp only [CallPhase.settle]
     rw [if_neg hnot]
    | decided call decision=>rfl
    | snapshotting call=>rfl
    | executing call=>rfl
  | loading=>rfl
  | between=>rfl
  | streaming calls complete=>rfl
  | ended=>rfl

end Steps

/-- Reads the arguments of the calls below. -/
def plainHost : Host where
 isSpace c := c.isWhitespace
 parse json :=
  if json = "\x7b\"path\":\"a.l4\"\x7d" then some { CallArgs.none with path:=some "a.l4" }
  else if json = "\x7b\"path\":\"b.l4\"\x7d" then some { CallArgs.none with path:=some "b.l4" }
  else none
 requiresWriteApproval _ := false

def createA : ToolCall := ⟨"call-a","fs__create_file","\x7b\"path\":\"a.l4\"\x7d"⟩

def createB : ToolCall := ⟨"call-b","fs__create_file","\x7b\"path\":\"b.l4\"\x7d"⟩

def readA : ToolCall := ⟨"call-r","fs__read_file","\x7b\"path\":\"a.l4\"\x7d"⟩

def askToCreate : PermissionPolicy
 | .fsCreate=>.ask
 | category=>defaultPermissions category

/-- A response with two calls, up to where the first one runs. -/
def firstRuns (first second:ToolCall) : List Action :=
 [.start "t1" (some "conv") false,.openStream "t1",.toolCall "t1" first,.toolCall "t1" second,
  .bodyComplete "t1",.streamEnds "t1" .toolCalls,.takeCall "t1",.startTool "t1"]

/-- A turn whose only call is approved, runs, and is cut short by a stop. -/
def stoppedWhileRunning : List Action :=
 [.start "t1" (some "conv") false,.openStream "t1",.toolCall "t1" createA,.bodyComplete "t1",
  .streamEnds "t1" .toolCalls,.takeCall "t1",.decide "call-a" .allow none,.resume "t1",
  .startTool "t1",.stop "t1",.toolEnds "t1",.endRound "t1"]

theorem not_respected {log:List LogEntry} (before after:List LogEntry) (turnId:String)
  (call:ToolCall) (hlog:log=before ++ .stopped turnId::after)
  (hmem:.started turnId call ∈ after) : ¬StopsRespected log :=
 fun h=>h before after turnId call hlog hmem

end L4Ide.StoppedTurns
