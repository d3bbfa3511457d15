import L4Ide.AdmissibleRuns
import L4Ide.ChatPipeline
import Mathlib.Data.List.Nodup

set_option autoImplicit false

/-!
# What becomes of queued messages and tool results

The messages that a turn accepts, the requests that carry them and the events that announce them,
and the results that the requests bring for the calls of the model.
-/
namespace L4Ide.ChatPipelineKept
open ToolPermissions (ToolCall)
open ChatTurns (FinishReason mergeCall)
open AdmissibleRuns ChatPipeline

/-! ## The property -/

def handed (s:State) : List QueuedUserMessage :=
 s.requests.flatMap fun r=>injected r.messages

def batch (s:State) : List QueuedUserMessage :=
 match s.phase with
 | .assembling=>s.activeParams.merged
 | .saving messages | .opening messages=>injected messages
 | _=>[]

def announced (s:State) : List String := s.events.flatMap Event.consumed

/-- The user was told of an error, an abort or another end that is not a stop. -/
def failed (s:State) : Bool := s.events.any Event.failure

def ends : Phase → Bool
 | .returned true _ | .over_=>true
 | _=>false

/-- Each call that is owed a result has one, nothing else has, and they stand before the rest. -/
structure Answered (r:Request) : Prop where
 once : ∀ id, (answeredCalls r.messages).count id = if id ∈ r.owed then 1 else 0
 before : ∃ results rest, r.messages=results ++ rest ∧
  (∀ m ∈ results, m.callId?.isSome) ∧ ∀ m ∈ rest, m.callId? = none

structure Kept (s:State) : Prop where
 inOrder : handed s <+: s.accepted
 announcedInOrder : announced s <+: s.accepted.map QueuedUserMessage.injectionId
 /-- Unless the turn failed, each message is handed over, on its way, or still in the queue. -/
 whole : failed s=false → handed s ++ batch s ++ s.queue=s.accepted ∧
  announced s=(handed s ++ batch s).map QueuedUserMessage.injectionId
 emptied : ends s.phase=true → failed s=false → s.queue=[]
 answered : ∀ r ∈ s.requests, Answered r

/-! ## The condition -/

/-- Nothing is queued when a response ends for tool calls and has none, nor after that. -/
def Met (s:State) : Action → Prop
 | .ended=>∀ frames, s.phase = .streaming frames [] .toolCalls → s.queue=[]
 | .inject _=>∀ leftover, s.phase = .returned true leftover → failed s=true
 | _=>True

/-! ## The calls of a round -/

def Covers (frames ids:List String) : Prop := ids.Nodup ∧ ∀ id, id ∈ ids ↔ id ∈ frames

theorem covers_nil : Covers [] [] := ⟨List.nodup_nil,fun _=>Iff.rfl⟩

theorem callIds_mergeCall (call:ToolCall) (calls:List ToolCall) :
  (mergeCall call calls).map ToolCall.callId =
   if call.callId ∈ calls.map ToolCall.callId then calls.map ToolCall.callId
   else calls.map ToolCall.callId ++ [call.callId] := by
 have hany:(calls.any fun known=>known.callId=call.callId)=true ↔
   call.callId ∈ calls.map ToolCall.callId := by
  simp only [List.any_eq_true,decide_eq_true_eq,List.mem_map]
 unfold mergeCall
 by_cases hknown:call.callId ∈ calls.map ToolCall.callId
 · rw [if_pos (hany.mpr hknown),if_pos hknown,List.map_map]
   apply List.map_congr_left
   intro known _
   change (if known.callId=call.callId then _ else known).callId=_
   split <;> rfl
 · rw [if_neg fun h=>hknown (hany.mp h),if_neg hknown,List.map_append]
   rfl

theorem Covers.mergeCall {frames:List String} {calls:List ToolCall}
  (h:Covers frames (calls.map ToolCall.callId)) (call:ToolCall) :
  Covers (frames ++ [call.callId]) ((mergeCall call calls).map ToolCall.callId) := by
 have ⟨hnodup,hmem⟩:=h
 rw [callIds_mergeCall]
 by_cases hknown:call.callId ∈ calls.map ToolCall.callId
 · rw [if_pos hknown]
   refine ⟨hnodup, ?_⟩
   intro id
   rw [List.mem_append,List.mem_singleton,hmem]
   constructor
   · exact Or.inl
   · intro hid
     cases hid with
     | inl hid=>exact hid
     | inr hid=>exact hid ▸ (hmem _).mp hknown
 · rw [if_neg hknown]
   constructor
   · apply List.Nodup.append hnodup (List.nodup_singleton _)
     intro id hid hnew
     rw [List.mem_singleton] at hnew
     exact hknown (hnew ▸ hid)
   · intro id
     rw [List.mem_append,List.mem_append,hmem]

def Results (messages:List AiChatMessage) : Prop := ∀ m ∈ messages, m.callId?.isSome

theorem answered_of_covers {owed:List String} {results rest:List AiChatMessage}
  (h:Covers owed (answeredCalls results)) (hresults:Results results)
  (hrest:∀ m ∈ rest, m.callId? = none) : Answered ⟨results ++ rest,owed⟩ := by
 have ⟨hnodup,hmem⟩:=h
 constructor
 · intro id
   have hnone:answeredCalls rest=[]:=List.filterMap_eq_nil_iff.mpr hrest
   change (List.filterMap _ (results ++ rest)).count id=_
   rw [List.filterMap_append]
   change (answeredCalls results ++ answeredCalls rest).count id=_
   rw [hnone,List.append_nil]
   by_cases hid:id ∈ answeredCalls results
   · rw [List.count_eq_one_of_mem hnodup hid,if_pos ((hmem id).mp hid)]
   · rw [List.count_eq_zero_of_not_mem hid,if_neg fun howed=>hid ((hmem id).mpr howed)]
 · exact ⟨results,rest,rfl,hresults,hrest⟩

/-! ## The invariant -/

def ToolsKept (s:State) : Prop :=
 match s.phase with
 | .loading | .nudging | .closing _=>s.owed=[] ∧ s.prependedToolResults=[]
 | .assembling=>
  Covers s.owed (answeredCalls s.prependedToolResults) ∧ Results s.prependedToolResults
 | .saving messages | .opening messages=>
  Answered ⟨messages,s.owed⟩ ∧ s.prependedToolResults=[]
 | .streaming frames calls _=>
  (s.owed=[] ∧ s.prependedToolResults=[]) ∧ Covers frames (calls.map ToolCall.callId)
 | .round queued results=>s.prependedToolResults=[] ∧ Results results ∧
  Covers s.owed (answeredCalls results ++ queued.map ToolCall.callId)
 | .roundClosing _ results | .returned false results=>
  Results results ∧ Covers s.owed (answeredCalls results)
 | .returned true _ | .over_=>True

structure Inv (s:State) : Prop where
 /-- Some of the messages accepted have left the queue, and they are announced. -/
 drained : ∃ drained, drained ++ s.queue=s.accepted ∧
  announced s=drained.map QueuedUserMessage.injectionId ∧ handed s <+: drained ∧
  (failed s=false → handed s ++ batch s=drained)
 failing : failed s=true → s.phase = .closing .other ∨ ends s.phase=true
 emptied : ends s.phase=true → failed s=false → s.queue=[]
 answered : ∀ r ∈ s.requests, Answered r
 tools : ToolsKept s
 /-- A retry has no message of the user. -/
 retry : s.activeParams.continueTurn=true → s.activeParams.merged=[]
 unmerged : s.phase = .loading → s.activeParams.merged=[]

variable {s:State}

theorem Inv.kept (h:Inv s) : Kept s := by
 have ⟨drained,haccepted,hannounced,hhanded,hwhole⟩:=h.drained
 refine { h with inOrder:=?_,announcedInOrder:=?_,whole:=?_ }
 · rw [←haccepted]
   exact hhanded.trans (List.prefix_append _ _)
 · rw [hannounced,←haccepted,List.map_append]
   exact List.prefix_append _ _
 · intro hfailed
   rw [hwhole hfailed]
   exact ⟨haccepted,hannounced⟩

theorem inv_initial (text:String) (continueTurn:Bool) : Inv (initial text continueTurn) where
 drained:=⟨[],rfl,rfl,List.prefix_rfl,fun _=>rfl⟩
 failing h := by cases h
 emptied h := by cases h
 answered r hr := by cases hr
 tools:=⟨rfl,rfl⟩
 retry _ := rfl
 unmerged _ := rfl

/-! ## Parts of a step -/

theorem announced_emit (event:Event) (s:State) :
  announced (s.emit event)=announced s ++ event.consumed := by
 change (s.events ++ [event]).flatMap Event.consumed=_
 rw [List.flatMap_append,List.flatMap_singleton]
 rfl

theorem failed_emit (event:Event) (s:State) :
  failed (s.emit event)=(failed s || event.failure) := by
 change (s.events ++ [event]).any Event.failure=_
 rw [List.any_append,List.any_cons,List.any_nil,Bool.or_false]
 rfl

theorem Inv.going (h:Inv s) (hclosing:s.phase ≠ .closing .other)
  (hends:ends s.phase=false) : failed s=false := by
 by_contra hfailed
 cases h.failing (Bool.not_eq_false _ ▸ hfailed) with
 | inl hphase=>exact hclosing hphase
 | inr hphase=>
  rw [hends] at hphase
  cases hphase

theorem Inv.goto (h:Inv s) (phase:Phase) (owed:List String)
  (results:List AiChatMessage) (hfailed:failed s=false) (hends:ends phase=false)
  (hloading:phase ≠ .loading)
  (hbatch:batch { s with phase:=phase } = batch s)
  (htools:ToolsKept
   { s with phase:=phase,owed:=owed,prependedToolResults:=results }) :
  Inv { s with phase:=phase,owed:=owed,prependedToolResults:=results } := by
 have ⟨drained,haccepted,hannounced,hhanded,hwhole⟩:=h.drained
 refine { h with
  drained:=⟨drained,haccepted,hannounced,hhanded,fun hfailed=>?_⟩
  failing:=fun htrue=>?_
  emptied:=fun hphase=>?_
  tools:=htools
  unmerged:=fun hphase=>absurd hphase hloading }
 · rw [←hwhole hfailed]
   exact congrArg (handed s ++ ·) hbatch
 · have htrue:failed s=true:=htrue
   rw [hfailed] at htrue
   cases htrue
 · have hphase:ends phase=true:=hphase
   rw [hends] at hphase
   cases hphase

theorem Inv.fail (h:Inv s) {event:Event} (hevent:event.failure=true)
  (hconsumed:event.consumed=[]) {phase:Phase}
  (hphase:phase = .closing .other ∨ ends phase=true)
  (htools:ToolsKept { s.emit event with phase:=phase }) :
  Inv { s.emit event with phase:=phase } := by
 have ⟨drained,haccepted,hannounced,hhanded,_⟩:=h.drained
 have hfailed:failed (s.emit event)=true:=by
  rw [failed_emit,hevent,Bool.or_true]
 have hsame:announced (s.emit event)=announced s:=by
  rw [announced_emit,hconsumed,List.append_nil]
 refine { h with
  drained:=⟨drained,haccepted,hsame.trans hannounced,hhanded,fun hfalse=>?_⟩
  failing:=fun _=>hphase
  emptied:=fun _ hfalse=>?_
  tools:=htools
  unmerged:=fun hloading=>?_ }
 · cases hfailed.symm.trans hfalse
 · cases hfailed.symm.trans hfalse
 · have hloading:phase = .loading:=hloading
   rw [hloading] at hphase
   cases hphase with
   | inl hclosing=>cases hclosing
   | inr hends=>cases hends

theorem Inv.stop (h:Inv s) (hfailed:failed s=false) (hbatch:batch s=[])
  {terminate:Bool} {leftover:List AiChatMessage} (hempty:terminate=true → s.queue=[])
  (htools:ToolsKept { s with phase:=.returned terminate leftover }) :
  Inv { s.emit (.done .stop) with phase:=.returned terminate leftover } := by
 have ⟨drained,haccepted,hannounced,hhanded,hwhole⟩:=h.drained
 have hquiet:failed (s.emit (.done .stop))=false:=by
  rw [failed_emit,hfailed]
  rfl
 have hsame:announced (s.emit (.done .stop))=announced s:=by
  rw [announced_emit]
  exact List.append_nil _
 refine { h with
  drained:=⟨drained,haccepted,hsame.trans hannounced,hhanded,fun _=>?_⟩
  failing:=fun htrue=>?_
  emptied:=fun hends _=>?_
  tools:=htools
  unmerged:=fun hloading=>by cases hloading }
 · rw [←hwhole hfailed,hbatch]
   rfl
 · cases hquiet.symm.trans htrue
 · cases terminate with
   | true=>exact hempty rfl
   | false=>cases hends

theorem injected_results {messages:List AiChatMessage} (h:Results messages) :
  injected messages=[] := by
 apply List.flatMap_eq_nil_iff.mpr
 intro m hm
 cases m with
 | tool callId content=>rfl
 | system content=>cases h _ hm
 | user content merged=>cases h _ hm

theorem injected_append (messages more:List AiChatMessage) :
  injected (messages ++ more)=injected messages ++ injected more := List.flatMap_append

theorem injected_assemble (h:Inv s) (systems:List String) :
  injected (s.assemble systems)=s.activeParams.merged := by
 have hsystems:injected (systems.map AiChatMessage.system)=[]:=by
  apply List.flatMap_eq_nil_iff.mpr
  intro m hm
  have ⟨content,_,heq⟩:=List.mem_map.mp hm
  rw [←heq]
  rfl
 unfold State.assemble
 rw [injected_append,hsystems,List.nil_append]
 cases hretry:s.activeParams.continueTurn with
 | true=>exact (h.retry hretry).symm
 | false=>exact List.append_nil _

theorem callId_assemble (s:State) (systems:List String) :
  ∀ m ∈ s.assemble systems, m.callId? = none := by
 intro m hm
 cases List.mem_append.mp hm with
 | inl hsystem=>
  have ⟨content,_,heq⟩:=List.mem_map.mp hsystem
  exact heq ▸ rfl
 | inr huser=>
  cases hretry:s.activeParams.continueTurn with
  | true=>
   rw [hretry] at huser
   cases huser
  | false=>
   rw [hretry] at huser
   exact List.mem_singleton.mp huser ▸ rfl

/-! ## Steps -/

section Steps
variable {s:State}

theorem Inv.assembled (h:Inv s) {systems:List String} (hphase:s.phase = .assembling) :
  Inv (step (.assembled (some systems)) s) := by
 have htools:=h.tools
 unfold ToolsKept at htools
 rw [hphase] at htools
 have hgoing:failed s=false:=
  h.going (by rw [hphase]; nofun) (by rw [hphase]; rfl)
 have hanswered:Answered ⟨s.prependedToolResults ++ s.assemble systems,s.owed⟩:=
  answered_of_covers htools.1 htools.2 (callId_assemble s systems)
 have hinjected:injected (s.prependedToolResults ++ s.assemble systems) =
   batch s := by
  rw [injected_append,injected_results htools.2,List.nil_append,injected_assemble h]
  unfold batch
  rw [hphase]
 simp only [step,hphase]
 by_cases hfirst:s.first=true
 · rw [if_pos hfirst]
   exact h.goto (.opening _) s.owed [] hgoing rfl nofun hinjected ⟨hanswered,rfl⟩
 · rw [if_neg hfirst]
   exact h.goto (.saving _) s.owed [] hgoing rfl nofun hinjected ⟨hanswered,rfl⟩

theorem Inv.opened (h:Inv s) {messages:List AiChatMessage}
  (hphase:s.phase = .opening messages) :
  Inv (step .opened s) := by
 have htools:=h.tools
 unfold ToolsKept at htools
 rw [hphase] at htools
 have ⟨drained,haccepted,hannounced,hhanded,hwhole⟩:=h.drained
 have hgoing:failed s=false:=
  h.going (by rw [hphase]; nofun) (by rw [hphase]; rfl)
 have hbatch:batch s=injected messages:=by
  unfold batch
  rw [hphase]
 simp only [step,hphase]
 have hhanded' : (s.requests ++ [(⟨messages,s.owed⟩ : Request)]).flatMap
   (fun r=>injected r.messages)=drained := by
  rw [←hwhole hgoing,hbatch,List.flatMap_append,List.flatMap_singleton]
  rfl
 refine { h with
  drained:=⟨drained,haccepted,hannounced, ?_,fun _=>?_⟩
  failing:=fun htrue=>?_
  emptied:=fun hends=>by cases hends
  answered:=?_
  tools:=⟨⟨rfl,htools.2⟩,covers_nil⟩
  unmerged:=fun hloading=>by cases hloading }
 · exact hhanded' ▸ List.prefix_rfl
 · change List.flatMap _ _ ++ []=drained
   rw [hhanded', List.append_nil]
 · cases hgoing.symm.trans htrue
 · intro r hr
   cases List.mem_append.mp hr with
   | inl hold=>exact h.answered r hold
   | inr hnew=>exact List.mem_singleton.mp hnew ▸ htools.1

theorem Inv.endStream (h:Inv s) {frames:List String} {calls:List ToolCall}
  {reason:FinishReason}
  (hphase:s.phase = .streaming frames calls reason)
  (hmet:reason = .toolCalls → calls=[] → s.queue=[]) :
  Inv (s.endStream frames calls reason) := by
 have htools:=h.tools
 unfold ToolsKept at htools
 rw [hphase] at htools
 have hgoing:failed s=false:=
  h.going (by rw [hphase]; nofun) (by rw [hphase]; rfl)
 have hbatch:batch s=[]:=by
  unfold batch
  rw [hphase]
 cases reason with
 | stop=>
  cases hqueue:s.queue.isEmpty with
  | true=>
   simp only [State.endStream,hqueue,if_true]
   exact h.goto .nudging s.owed s.prependedToolResults hgoing rfl nofun hbatch.symm htools.1
  | false=>
   simp only [State.endStream,hqueue,Bool.false_eq_true,if_false]
   exact h.goto (.closing .stop) s.owed s.prependedToolResults hgoing rfl nofun hbatch.symm
    htools.1
 | other=>
  exact h.goto (.closing .other) s.owed s.prependedToolResults hgoing rfl nofun hbatch.symm
   htools.1
 | toolCalls=>
  cases calls with
  | nil=>exact h.stop hgoing hbatch (fun _=>hmet rfl rfl) trivial
  | cons call calls=>
   have hnone:Results []:=by
    intro m hm
    cases hm
   exact h.goto (.round (call::calls) []) frames s.prependedToolResults hgoing rfl nofun
    hbatch.symm ⟨htools.1.2,hnone,htools.2⟩

theorem Inv.callDone (h:Inv s) {call:ToolCall} {queued:List ToolCall}
  {results:List AiChatMessage}
  (hphase:s.phase = .round (call::queued) results) (content:String) :
  Inv (step (.callDone content) s) := by
 have htools:=h.tools
 unfold ToolsKept at htools
 rw [hphase] at htools
 have ⟨hprepended,hresults,hcovers⟩:=htools
 have hgoing:failed s=false:=
  h.going (by rw [hphase]; nofun) (by rw [hphase]; rfl)
 have hbatch:batch s=[]:=by
  unfold batch
  rw [hphase]
 have hresults' : Results (results ++ [.tool call.callId content]):=by
  intro m hm
  cases List.mem_append.mp hm with
  | inl hold=>exact hresults m hold
  | inr hnew=>exact List.mem_singleton.mp hnew ▸ rfl
 have hcovers' : Covers s.owed (answeredCalls (results ++ [.tool call.callId content]) ++
   queued.map ToolCall.callId) := by
  have hids:answeredCalls (results ++ [.tool call.callId content]) =
    answeredCalls results ++ [call.callId] := List.filterMap_append
  rw [hids,List.append_assoc]
  exact hcovers
 cases queued with
 | cons next queued=>
  simp only [step,hphase,List.isEmpty_cons,Bool.false_eq_true,if_false]
  exact h.goto (.round (next::queued) _) s.owed s.prependedToolResults hgoing rfl nofun
   hbatch.symm ⟨hprepended,hresults', hcovers'⟩
 | nil=>
  rw [List.map_nil,List.append_nil] at hcovers'
  simp only [step,hphase,List.isEmpty_nil,if_true,State.endRound]
  by_cases haborted:s.aborted=true
  · rw [if_pos haborted]
    exact h.goto (.roundClosing true _) s.owed s.prependedToolResults hgoing rfl nofun
     hbatch.symm ⟨hresults', hcovers'⟩
  · rw [if_neg haborted]
    by_cases hqueue:s.queue.isEmpty=true
    · rw [if_pos hqueue]
      have hanswered:Answered ⟨results ++ [.tool call.callId content] ++ [],s.owed⟩:=
       answered_of_covers hcovers' hresults' nofun
      rw [List.append_nil] at hanswered
      have hsame:=(injected_results hresults').trans hbatch.symm
      exact h.goto (.opening _) s.owed s.prependedToolResults hgoing rfl nofun hsame
       ⟨hanswered,hprepended⟩
    · rw [if_neg hqueue]
      exact h.goto (.roundClosing false _) s.owed s.prependedToolResults hgoing rfl nofun
       hbatch.symm ⟨hresults', hcovers'⟩

theorem Inv.afterSubTurn (h:Inv s) {terminate:Bool} {leftover:List AiChatMessage}
  (hphase:s.phase = .returned terminate leftover) :
  Inv (s.afterSubTurn terminate leftover) := by
 have htools:=h.tools
 unfold ToolsKept at htools
 rw [hphase] at htools
 have ⟨drained,haccepted,hannounced,hhanded,hwhole⟩:=h.drained
 have hbatch:batch s=[]:=by
  unfold batch
  rw [hphase]
 unfold State.afterSubTurn
 by_cases hover:(terminate || s.queue.isEmpty)=true
 · rw [if_pos hover]
   refine { h with
    drained:=⟨drained,haccepted,hannounced,hhanded,fun hfailed=>?_⟩
    failing:=fun _=>Or.inr rfl
    emptied:=fun _ hfailed=>?_
    tools:=trivial
    unmerged:=fun hloading=>by cases hloading }
   · rw [←hwhole hfailed,hbatch]
     rfl
   · cases terminate with
     | true=>exact h.emptied (by rw [hphase]; rfl) hfailed
     | false=>exact List.isEmpty_iff.mp hover
 · rw [if_neg hover]
   have hterminate:terminate=false:=by
    cases terminate with
    | true=>exact absurd rfl hover
    | false=>rfl
   subst hterminate
   have hgoing:failed s=false:=
    h.going (by rw [hphase]; nofun) (by rw [hphase]; rfl)
   have hquiet:failed
     (s.emit (.queueConsumed (s.queue.map QueuedUserMessage.injectionId)))=false := by
    rw [failed_emit,hgoing]
    rfl
   refine { h with
    drained:=⟨drained ++ s.queue, ?_, ?_, ?_,fun _=>?_⟩
    failing:=fun htrue=>?_
    emptied:=fun hends=>by cases hends
    tools:=⟨htools.2,htools.1⟩
    retry:=fun hretry=>by cases hretry
    unmerged:=fun hloading=>by cases hloading }
   · exact (List.append_nil _).trans haccepted
   · have hsame:=announced_emit
      (.queueConsumed (s.queue.map QueuedUserMessage.injectionId)) s
     rw [List.map_append,←hannounced]
     exact hsame
   · exact hhanded.trans (List.prefix_append _ _)
   · rw [←hwhole hgoing,hbatch,List.append_nil]
     rfl
   · cases hquiet.symm.trans htrue

theorem Inv.inject (h:Inv s) {message:QueuedUserMessage} (hmet:Met s (.inject message))
  (hover:s.phase ≠ .over_) :
  Inv { s with queue:=s.queue ++ [message],accepted:=s.accepted ++ [message] } := by
 have ⟨drained,haccepted,hannounced,hhanded,hwhole⟩:=h.drained
 refine { h with
  drained:=⟨drained, ?_,hannounced,hhanded,hwhole⟩
  emptied:=fun hends hfailed=>?_
  tools:=h.tools }
 · rw [←haccepted,List.append_assoc]
 · have hends:ends s.phase=true:=hends
   have hfailed:failed s=false:=hfailed
   cases hphase:s.phase with
   | returned terminate leftover=>
    rw [hphase] at hends
    cases terminate with
    | true=>cases hfailed.symm.trans (hmet leftover hphase)
    | false=>cases hends
   | over_=>exact absurd hphase hover
   | _=>
    rw [hphase] at hends
    cases hends

theorem Inv.threw (h:Inv s) :
  Inv { s.emit s.outcomeOfThrow with phase:=.returned true [] } := by
 apply h.fail
 · unfold State.outcomeOfThrow
   cases s.aborted <;> rfl
 · unfold State.outcomeOfThrow
   cases s.aborted <;> rfl
 · exact Or.inr rfl
 · trivial

theorem Inv.register (h:Inv s) (hphase:s.phase = .loading) :
  Inv { s with phase:=.assembling } := by
 have htools:=h.tools
 unfold ToolsKept at htools
 rw [hphase] at htools
 have ⟨howed,hprepended⟩:=htools
 apply h.goto .assembling s.owed s.prependedToolResults
  (h.going (by rw [hphase]; nofun) (by rw [hphase]; rfl)) rfl nofun
 · unfold batch
   rw [hphase]
   exact h.unmerged hphase
 · refine ⟨?_, ?_⟩
   · change Covers s.owed (answeredCalls s.prependedToolResults)
     rw [howed,hprepended]
     exact covers_nil
   · intro m hm
     have hm:m ∈ s.prependedToolResults:=hm
     rw [hprepended] at hm
     cases hm

end Steps

theorem Inv.step (h:Inv s) {action:Action} (hmet:Met s action) :
  Inv (step action s) := by
 have htools:=h.tools
 unfold ToolsKept at htools
 cases action with
 | inject message=>
  cases hphase:s.phase with
  | loading=>
   simp only [ChatPipeline.step,hphase]
   exact h
  | over_=>
   simp only [ChatPipeline.step,hphase]
   exact h
  | _=>
   have hinject:=h.inject hmet (by rw [hphase]; nofun)
   rw [hphase] at hinject
   simp only [ChatPipeline.step,hphase]
   exact hinject
 | abort=>exact { h with tools:=h.tools }
 | register=>
  cases hphase:s.phase with
  | loading=>
   simp only [ChatPipeline.step,hphase]
   exact h.register hphase
  | _=>
   simp only [ChatPipeline.step,hphase]
   exact h
 | assembled systems=>
  cases hphase:s.phase with
  | assembling=>
   cases systems with
   | none=>
    simp only [ChatPipeline.step,hphase]
    exact h.fail rfl rfl (Or.inr rfl) trivial
   | some systems=>exact h.assembled hphase
  | _=>
   cases systems <;> simp only [ChatPipeline.step,hphase] <;> exact h
 | saved=>
  cases hphase:s.phase with
  | saving messages=>
   rw [hphase] at htools
   simp only [ChatPipeline.step,hphase]
   apply h.goto (.opening messages) s.owed s.prependedToolResults
    (h.going (by rw [hphase]; nofun) (by rw [hphase]; rfl)) rfl nofun _ htools
   unfold batch
   rw [hphase]
  | _=>
   simp only [ChatPipeline.step,hphase]
   exact h
 | opened=>
  cases hphase:s.phase with
  | opening messages=>exact h.opened hphase
  | _=>
   simp only [ChatPipeline.step,hphase]
   exact h
 | toolCall call=>
  cases hphase:s.phase with
  | streaming frames calls reason=>
   rw [hphase] at htools
   simp only [ChatPipeline.step,hphase]
   apply h.goto (.streaming _ _ reason) s.owed s.prependedToolResults
    (h.going (by rw [hphase]; nofun) (by rw [hphase]; rfl)) rfl nofun _
    ⟨htools.1,htools.2.mergeCall call⟩
   unfold batch
   rw [hphase]
  | _=>
   simp only [ChatPipeline.step,hphase]
   exact h
 | done reason=>
  cases hphase:s.phase with
  | streaming frames calls reason' =>
   rw [hphase] at htools
   simp only [ChatPipeline.step,hphase]
   apply h.goto (.streaming frames calls reason) s.owed s.prependedToolResults
    (h.going (by rw [hphase]; nofun) (by rw [hphase]; rfl)) rfl nofun _ htools
   unfold batch
   rw [hphase]
  | _=>
   simp only [ChatPipeline.step,hphase]
   exact h
 | errorFrame=>
  cases hphase:s.phase with
  | streaming frames calls reason=>
   rw [hphase] at htools
   simp only [ChatPipeline.step,hphase]
   exact h.fail rfl rfl (Or.inl rfl) htools.1
  | _=>
   simp only [ChatPipeline.step,hphase]
   exact h
 | ended=>
  cases hphase:s.phase with
  | streaming frames calls reason=>
   simp only [ChatPipeline.step,hphase]
   apply h.endStream hphase
   intro hreason hcalls
   exact hmet frames (by rw [hphase,hreason,hcalls])
  | _=>
   simp only [ChatPipeline.step,hphase]
   exact h
 | nudged nudge=>
  cases hphase:s.phase with
  | nudging=>
   rw [hphase] at htools
   have hgoing:=h.going (by rw [hphase]; nofun) (by rw [hphase]; rfl)
   have hbatch:batch s=[]:=by
    unfold batch
    rw [hphase]
   cases nudge with
   | none=>
    simp only [ChatPipeline.step,hphase]
    exact h.goto (.closing .stop) s.owed s.prependedToolResults hgoing rfl nofun hbatch.symm
     htools
   | some nudge=>
    simp only [ChatPipeline.step,hphase]
    have hnone:Results []:=nofun
    have hcovers:Covers s.owed (answeredCalls []):=by
     rw [htools.1]
     exact covers_nil
    have hanswered:Answered ⟨[] ++ [.user nudge []],s.owed⟩:=by
     apply answered_of_covers hcovers hnone
     intro m hm
     exact List.mem_singleton.mp hm ▸ rfl
    exact h.goto (.opening _) s.owed s.prependedToolResults hgoing rfl nofun hbatch.symm
     ⟨hanswered,htools.2⟩
  | _=>
   cases nudge <;> simp only [ChatPipeline.step,hphase] <;> exact h
 | callDone content=>
  cases hphase:s.phase with
  | round queued results=>
   cases queued with
   | nil=>
    simp only [ChatPipeline.step,hphase]
    exact h
   | cons call queued=>exact h.callDone hphase content
  | _=>
   simp only [ChatPipeline.step,hphase]
   exact h
 | closed=>
  cases hphase:s.phase with
  | closing reason=>
   rw [hphase] at htools
   simp only [ChatPipeline.step,hphase]
   cases reason with
   | stop=>
    have hgoing:=h.going (by rw [hphase]; nofun) (by rw [hphase]; rfl)
    have hbatch:batch s=[]:=by
     unfold batch
     rw [hphase]
    have hcovers:Covers s.owed (answeredCalls []):=by
     rw [htools.1]
     exact covers_nil
    have htools' : ToolsKept { s with phase:=.returned false [] }:=⟨nofun,hcovers⟩
    exact h.stop hgoing hbatch nofun htools'
   | other=>exact h.fail rfl rfl (Or.inr rfl) trivial
   | toolCalls=>exact h.fail rfl rfl (Or.inr rfl) trivial
  | roundClosing aborted results=>
   rw [hphase] at htools
   cases aborted with
   | true=>
    simp only [ChatPipeline.step,hphase]
    exact h.fail rfl rfl (Or.inr rfl) trivial
   | false=>
    simp only [ChatPipeline.step,hphase]
    have hgoing:=h.going (by rw [hphase]; nofun) (by rw [hphase]; rfl)
    have hbatch:batch s=[]:=by
     unfold batch
     rw [hphase]
    have htools' : ToolsKept { s with phase:=.returned false results }:=htools
    exact h.stop hgoing hbatch nofun htools'
  | _=>
   simp only [ChatPipeline.step,hphase]
   exact h
 | threw=>
  cases hphase:s.phase with
  | opening messages=>
   simp only [ChatPipeline.step,hphase]
   exact h.threw
  | streaming frames calls reason=>
   simp only [ChatPipeline.step,hphase]
   exact h.threw
  | closing reason=>
   simp only [ChatPipeline.step,hphase]
   exact h.threw
  | round queued results=>
   simp only [ChatPipeline.step,hphase]
   exact h.threw
  | roundClosing aborted results=>
   simp only [ChatPipeline.step,hphase]
   exact h.threw
  | _=>
   simp only [ChatPipeline.step,hphase]
   exact h
 | returned=>
  cases hphase:s.phase with
  | returned terminate leftover=>
   simp only [ChatPipeline.step,hphase]
   exact h.afterSubTurn hphase
  | _=>
   simp only [ChatPipeline.step,hphase]
   exact h

theorem met_of_kept (h:Inv s) {action:Action} (hkept:Kept (step action s)) :
  Met s action := by
 cases action with
 | ended=>
  intro frames hphase
  have hgoing:failed s=false:=
   h.going (by rw [hphase]; nofun) (by rw [hphase]; rfl)
  have hemptied:=hkept.emptied
  simp only [step,hphase] at hemptied
  apply hemptied rfl
  change failed (s.emit (.done .stop))=false
  rw [failed_emit,hgoing]
  rfl
 | inject message=>
  intro leftover hphase
  by_contra hfailed
  have hemptied:=hkept.emptied
  simp only [step,hphase] at hemptied
  have hnone:s.queue ++ [message]=[]:=hemptied rfl (Bool.not_eq_true _ ▸ hfailed)
  cases List.append_eq_nil_iff.mp hnone with
  | intro _ hmessage=>cases hmessage
 | _=>trivial

/-- In every state of a run no message and no result is lost or duplicated exactly when nothing is
queued as a response ends for tool calls that it does not have, nor after that. -/
theorem queued_kept_iff (text:String) (continueTurn:Bool) (actions:List Action) :
  (∀ taken, taken <+: actions → Kept (run step taken (initial text continueTurn))) ↔
   Admissible step Met actions (initial text continueTurn) := by
 apply Iff.symm
 exact admissible_iff_each (I := Inv) (P := Kept) (fun _ h=>h.kept)
  (fun _ _ h hmet=>h.step hmet) (fun _ _ h hkept=>met_of_kept h hkept) actions
  (inv_initial text continueTurn)

/-! ## A message that is dropped -/

/-- A message comes while the model responds, and the response ends for tool calls that it does not
have. -/
def dropped : List Action :=
 [.register,.assembled (some []),.opened,.inject ⟨"i1","And then?"⟩,.done .toolCalls,.ended,
  .returned]

theorem not_kept_dropped : ¬ Kept (run step dropped (initial "Go" false)) := by
 intro h
 have hemptied:=h.emptied
 have hqueue:(run step dropped (initial "Go" false)).queue=[⟨"i1","And then?"⟩]:=by
  decide +kernel
 rw [hqueue] at hemptied
 cases hemptied (by decide +kernel) (by decide +kernel)

end L4Ide.ChatPipelineKept
