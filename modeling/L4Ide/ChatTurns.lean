import L4Ide.PendingInteractions
import L4Ide.ToolPermissions

set_option autoImplicit false

/-!
# Turns of the chat service

The chat service runs each turn on its own: it streams the model's response, runs the tool
calls of the response one after another through the dispatcher, and goes on. All turns share
the pending interactions. A step is what one of them, or the user, does between two points
where a turn waits; any step that is possible may come next.
-/
namespace L4Ide.ChatTurns
open PendingInteractions ToolPermissions

inductive CallPhase
 /-- The approval is raised and the turn waits for it. -/
 | awaitingApproval (call:ToolCall) (promise:ℕ)
 /-- The decision is made; the dispatcher has not gone on yet. -/
 | decided (call:ToolCall) (decision:Decision)
 /-- Let through, with the file being read for the later diff. -/
 | snapshotting (call:ToolCall)
 /-- The tool is running. -/
 | executing (call:ToolCall)
 /-- `meta__ask_user` is running and waits for the answer. -/
 | asking (call:ToolCall) (promise:ℕ)
 deriving DecidableEq

inductive Phase
 /-- The stored conversation is read, and the turn cannot be aborted yet. -/
 | loading
 /-- Nothing of the turn runs tools or reads a response: messages are assembled or stored. -/
 | between
 /-- The response is read. `complete` when its body has arrived as a whole. -/
 | streaming (pendingCalls:List ToolCall) (complete:Bool)
 /-- The tool calls of a response are run: those that are queued, after the current one. -/
 | round (queued:List ToolCall) (current:Option CallPhase)
 | ended
 deriving DecidableEq

structure Turn where
 /-- The id of the conversation, known from the start or from the first response. -/
 conversationId : Option String
 aborted : Bool
 phase : Phase
 deriving DecidableEq

inductive LogEntry
 | started (turnId:String) (call:ToolCall)
 | stopped (turnId:String)
 | raised (promise:ℕ)
 | settled (promise:ℕ)
 deriving DecidableEq

structure State where
 turns : String → Option Turn
 pending : Pending
 policy : PermissionPolicy
 nextPromise : ℕ
 /-- What has happened, the latest last. -/
 log : List LogEntry

def State.setTurn (turnId:String) (turn:Option Turn) (s:State) : State :=
 { s with turns:=fun t=>if t=turnId then turn else s.turns t }

def State.setPhase (turnId:String) (phase:Phase) (s:State) : State :=
 s.setTurn turnId ((s.turns turnId).map fun turn=>{ turn with phase:=phase })

def State.note (entries:List LogEntry) (s:State) : State := { s with log:=s.log ++ entries }

/-- A promise is made, and the pending interactions are what they are with it. -/
def State.raise (pending:Pending) (s:State) : State :=
 { s with
   pending:=pending
   nextPromise:=s.nextPromise+1
   log:=s.log ++ [.raised s.nextPromise] }

def CallPhase.settle (settled:List Settled) : CallPhase → CallPhase
 | .awaitingApproval call promise=>
  if .approval promise .allow ∈ settled then .decided call .allow
  else if .approval promise .deny ∈ settled then .decided call .deny
  else .awaitingApproval call promise
 | .asking call promise=>
  if promise ∈ settled.map Settled.promise then .executing call
  else .asking call promise
 | current=>current

def Turn.settle (settled:List Settled) (turn:Turn) : Turn :=
 match turn.phase with
 | .round queued (some current)=>
  { turn with phase:=.round queued (some (current.settle settled)) }
 | _=>turn

/-- Put the new pending interactions in place and let the settled calls go on. -/
def State.settle (result:Pending × List Settled) (s:State) : State :=
 { s with
   pending:=result.1
   turns:=fun t=>(s.turns t).map (Turn.settle result.2)
   log:=s.log ++ result.2.map fun settled=>.settled settled.promise }

def Turn.context (turnId:String) (turn:Turn) : ToolCallContext :=
 ⟨turn.conversationId.getD turnId,turnId⟩

def admitted (host:Host) (queued:List ToolCall) (call:ToolCall) : Phase :=
 match parseArgs host call.argsJson with
 | none=>.round queued none
 | some _=>.round queued (some (.snapshotting call))

/-- `ToolDispatcher.run` up to where it first waits. -/
def dispatch (host:Host) (turnId:String) (turn:Turn) (queued:List ToolCall)
  (call:ToolCall) (s:State) : State :=
 match gate host s.policy call with
 | .statusUpdate=>s.setPhase turnId (.round queued none)
 | .unknown=>s.setPhase turnId (.round queued none)
 | .gated .never=>s.setPhase turnId (.round queued none)
 | .gated .always=>s.setPhase turnId (admitted host queued call)
 | .gated .ask=>
  match s.pending.requestApproval call.callId (turn.context turnId) s.nextPromise with
  | (pending,some decision)=>
   ((s.raise pending).note [.settled s.nextPromise]).setPhase turnId
    (.round queued (some (.decided call decision)))
  | (pending,none)=>
   (s.raise pending).setPhase turnId
    (.round queued (some (.awaitingApproval call s.nextPromise)))

def questionOf (host:Host) (call:ToolCall) : Option String :=
 if call.name = "meta__ask_user" then (argsOrNull host call.argsJson).question else none

def execute (host:Host) (turnId:String) (turn:Turn) (queued:List ToolCall)
  (call:ToolCall) (s:State) : State :=
 match questionOf host call with
 | none=>
  (s.note [.started turnId call]).setPhase turnId (.round queued (some (.executing call)))
 | some _=>
  ((s.note [.started turnId call]).raise
   (s.pending.askUser call.callId (turn.context turnId) s.nextPromise)).setPhase turnId
    (.round queued (some (.asking call s.nextPromise)))

/-- A frame for a call that is known replaces its arguments and name, another adds a call. -/
def mergeCall (call:ToolCall) (pendingCalls:List ToolCall) : List ToolCall :=
 if pendingCalls.any fun known=>known.callId=call.callId then
  pendingCalls.map fun known=>
   if known.callId=call.callId then
    { known with
      name:=if call.name = "" then known.name else call.name
      argsJson:=if call.argsJson = "" then known.argsJson else call.argsJson }
   else known
 else pendingCalls ++ [call]

inductive FinishReason
 | toolCalls
 | stop
 /-- A length cap, an error or an abort. -/
 | other
 deriving DecidableEq

/-- `ChatService.abort`: only a turn that is registered and not ended has a controller. -/
def Turn.abort (turn:Turn) : Turn :=
 match turn.phase with
 | .loading=>turn
 | .ended=>turn
 | _=>{ turn with aborted:=true }

inductive Action
 | start (turnId:String) (conversationId:Option String) (loads:Bool)
 | register (turnId:String)
 | openStream (turnId:String)
 | metadata (turnId conversationId:String)
 | toolCall (turnId:String) (call:ToolCall)
 | bodyComplete (turnId:String)
 | streamEnds (turnId:String) (finishReason:FinishReason)
 | streamFails (turnId:String)
 | takeCall (turnId:String)
 | resume (turnId:String)
 | startTool (turnId:String)
 | toolEnds (turnId:String)
 | endRound (turnId:String)
 | finish (turnId:String)
 | decide (callId:String) (decision:Decision) (conversationId:Option String)
 | answer (callId text:String)
 | newMessage (conversationId:String)
 | setPermission (policy:PermissionPolicy)
 | stop (turnId:String)

def turnStep (host:Host) (action:Action) (turnId:String) (turn:Turn) (s:State) :
  Option State :=
 match action, turn.phase with
 | .register _, .loading=>some (s.setPhase turnId .between)
 | .openStream _, .between=>some (s.setPhase turnId (.streaming [] false))
 | .metadata _ conversationId, .streaming _ _=>
  some (s.setTurn turnId (some { turn with conversationId:=some conversationId }))
 | .toolCall _ call, .streaming calls complete=>
  some (s.setPhase turnId (.streaming (mergeCall call calls) complete))
 -- An aborted request delivers nothing more than what has arrived.
 | .bodyComplete _, .streaming calls false=>
  if turn.aborted then none else some (s.setPhase turnId (.streaming calls true))
 | .streamEnds _ .toolCalls, .streaming calls true=>
  some (s.setPhase turnId (if calls=[] then .ended else .round calls none))
 | .streamEnds _ .stop, .streaming _ true=>some (s.setPhase turnId .between)
 | .streamEnds _ .other, .streaming _ true=>some (s.setPhase turnId .ended)
 | .streamFails _, .streaming _ _=>some (s.setPhase turnId .ended)
 | .takeCall _, .round (call::queued) none=>some (dispatch host turnId turn queued call s)
 | .resume _, .round queued (some (.decided call .allow))=>
  some (s.setPhase turnId (admitted host queued call))
 | .resume _, .round queued (some (.decided _ .deny))=>
  some (s.setPhase turnId (.round queued none))
 | .startTool _, .round queued (some (.snapshotting call))=>
  some (execute host turnId turn queued call s)
 | .toolEnds _, .round queued (some (.executing _))=>
  some (s.setPhase turnId (.round queued none))
 -- The signal is looked at once the whole round is done.
 | .endRound _, .round [] none=>
  some (s.setPhase turnId (if turn.aborted then .ended else .between))
 | .finish _, .between=>some (s.setPhase turnId .ended)
 | _, _=>none

def Action.turn : Action → Option String
 | .register t=>some t
 | .openStream t=>some t
 | .metadata t _=>some t
 | .toolCall t _=>some t
 | .bodyComplete t=>some t
 | .streamEnds t _=>some t
 | .streamFails t=>some t
 | .takeCall t=>some t
 | .resume t=>some t
 | .startTool t=>some t
 | .toolEnds t=>some t
 | .endRound t=>some t
 | .finish t=>some t
 | _=>none

/-- The user presses stop: `cancelTurn`, then `abort`. -/
def State.stop (turnId:String) (s:State) : State :=
 let cancelled:=s.settle (s.pending.cancelTurn turnId)
 (cancelled.setTurn turnId ((cancelled.turns turnId).map Turn.abort)).note [.stopped turnId]

def step (host:Host) (action:Action) (s:State) : Option State :=
 match action.turn with
 | some turnId=>(s.turns turnId).bind fun turn=>turnStep host action turnId turn s
 | none=>
  match action with
  | .start turnId conversationId loads=>
   if (s.turns turnId).isSome then none
   else some (s.setTurn turnId
    (some ⟨conversationId,false,if loads then .loading else .between⟩))
  | .decide callId decision conversationId=>
   some (s.settle (s.pending.decide callId decision conversationId))
  | .answer callId text=>some (s.settle (s.pending.answer callId text))
  | .newMessage conversationId=>some (s.settle (s.pending.cancelConversation conversationId))
  | .setPermission policy=>some { s with policy:=policy }
  | .stop turnId=>some (s.stop turnId)
  | _=>none

def run (host:Host) (actions:List Action) (s:State) : Option State :=
 actions.foldlM (fun s action=>step host action s) s

def initial (policy:PermissionPolicy) : State := ⟨fun _=>none,Pending.empty,policy,0,[]⟩

end L4Ide.ChatTurns
