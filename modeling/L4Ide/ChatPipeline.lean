import L4Ide.ChatTurns

set_option autoImplicit false

/-!
# The pipeline of a chat turn

One call of `ChatService.start`: its sub-turns, their requests, and the messages that the user adds
while the model works. A step is what runs between two awaits.
-/
namespace L4Ide.ChatPipeline
open ToolPermissions (ToolCall)
open ChatTurns (FinishReason mergeCall)

structure QueuedUserMessage where
 injectionId : String
 text : String
 deriving DecidableEq

inductive AiChatMessage
 | system (content:String)
 /-- What the user said, or a nudge, with the queued messages that it was merged from. -/
 | user (content:String) (merged:List QueuedUserMessage)
 | tool (callId content:String)
 deriving DecidableEq

def AiChatMessage.merged : AiChatMessage → List QueuedUserMessage
 | .user _ merged=>merged
 | _=>[]

def AiChatMessage.callId? : AiChatMessage → Option String
 | .tool callId _=>some callId
 | _=>none

def injected (messages:List AiChatMessage) : List QueuedUserMessage :=
 messages.flatMap AiChatMessage.merged

def answeredCalls (messages:List AiChatMessage) : List String :=
 messages.filterMap AiChatMessage.callId?

structure Params where
 text : String
 continueTurn : Bool
 merged : List QueuedUserMessage

def mergedText (drained:List QueuedUserMessage) : String :=
 "\n\n".intercalate ((drained.map QueuedUserMessage.text).filter fun text=>0 < text.length)

def mergeQueuedAsParams (drained:List QueuedUserMessage) : Params :=
 ⟨mergedText drained,false,drained⟩

inductive Event
 | queueConsumed (injectionIds:List String)
 | done (finishReason:FinishReason)
 | error
 deriving DecidableEq

def Event.failure : Event → Bool
 | .error=>true
 | .done reason=>reason ≠ .stop
 | .queueConsumed _=>false

def Event.consumed : Event → List String
 | .queueConsumed ids=>ids
 | _=>[]

inductive Phase
 /-- The stored conversation is read; no message is accepted yet. -/
 | loading
 | assembling
 /-- The user's message of a later sub-turn is stored. -/
 | saving (messages:List AiChatMessage)
 /-- The tools are listed. -/
 | opening (messages:List AiChatMessage)
 /-- `frames` are the ids of all tool calls that came. -/
 | streaming (frames:List String) (pendingCalls:List ToolCall) (finishReason:FinishReason)
 | nudging
 /-- The reply is stored before its end is told. -/
 | closing (finishReason:FinishReason)
 | round (queued:List ToolCall) (toolMessages:List AiChatMessage)
 | roundClosing (aborted:Bool) (toolMessages:List AiChatMessage)
 /-- The sub-turn is over. -/
 | returned (terminate:Bool) (leftoverToolMessages:List AiChatMessage)
 | over_
 deriving DecidableEq

structure Request where
 messages : List AiChatMessage
 owed : List String

structure State where
 phase : Phase
 first : Bool
 activeParams : Params
 prependedToolResults : List AiChatMessage
 aborted : Bool
 /-- What is left in it at the end is dropped. -/
 queue : List QueuedUserMessage
 requests : List Request
 events : List Event
 /-- The messages that `inject` accepted. -/
 accepted : List QueuedUserMessage
 /-- The ids of the calls of the round that no request answered yet. -/
 owed : List String

inductive Action
 | register
 /-- The context messages of the request, or nothing when they cannot be assembled. -/
 | assembled (systems:Option (List String))
 | saved
 | opened
 | toolCall (call:ToolCall)
 | done (finishReason:FinishReason)
 | errorFrame
 | ended
 | nudged (nudge:Option String)
 | callDone (content:String)
 | closed
 | threw
 | returned
 | inject (message:QueuedUserMessage)
 | abort
 deriving DecidableEq

namespace State

def emit (event:Event) (s:State) : State := { s with events:=s.events ++ [event] }

/-- `assembleMessages`: a retry adds no message of the user. -/
def assemble (systems:List String) (s:State) : List AiChatMessage :=
 systems.map .system ++
  if s.activeParams.continueTurn then []
  else [.user s.activeParams.text s.activeParams.merged]

def endStream (frames:List String) (pendingCalls:List ToolCall) (finishReason:FinishReason)
  (s:State) : State :=
 match finishReason with
 | .stop=>{ s with phase:=if s.queue.isEmpty then .nudging else .closing .stop }
 | .other=>{ s with phase:=.closing .other }
 | .toolCalls=>
  if pendingCalls.isEmpty then
   { s.emit (.done .stop) with phase:=.returned true [] }
  else { s with phase:=.round pendingCalls [],owed:=frames }

def endRound (toolMessages:List AiChatMessage) (s:State) : State :=
 { s with
   phase :=
    if s.aborted then .roundClosing true toolMessages
    else if s.queue.isEmpty then .opening toolMessages
    else .roundClosing false toolMessages }

/-- The loop of `start` after a sub-turn. -/
def afterSubTurn (terminate:Bool) (leftoverToolMessages:List AiChatMessage) (s:State) :
  State :=
 if terminate || s.queue.isEmpty then { s with phase:=.over_ }
 else
  { s.emit (.queueConsumed (s.queue.map QueuedUserMessage.injectionId)) with
    phase:=.assembling
    first:=false
    activeParams:=mergeQueuedAsParams s.queue
    prependedToolResults:=leftoverToolMessages
    queue:=[] }

def outcomeOfThrow (s:State) : Event := if s.aborted then .done .other else .error

end State

@[simp]
def step (action:Action) (s:State) : State :=
 match action, s.phase with
 | .inject _, .loading | .inject _, .over_=>s
 | .inject message, _=>
  { s with queue:=s.queue ++ [message],accepted:=s.accepted ++ [message] }
 | .abort, _=>{ s with aborted:=true }
 | .register, .loading=>{ s with phase:=.assembling }
 | .assembled none, .assembling=>{ s.emit .error with phase:=.over_ }
 | .assembled (some systems), .assembling=>
  let messages:=s.prependedToolResults ++ s.assemble systems
  { s with
    phase:=if s.first then .opening messages else .saving messages
    prependedToolResults:=[] }
 | .saved, .saving messages=>{ s with phase:=.opening messages }
 | .opened, .opening messages=>
  { s with
    phase:=.streaming [] [] .stop
    requests:=s.requests ++ [⟨messages,s.owed⟩]
    owed:=[] }
 | .toolCall call, .streaming frames calls reason=>
  { s with phase:=.streaming (frames ++ [call.callId]) (mergeCall call calls) reason }
 | .done reason, .streaming frames calls _=>{ s with phase:=.streaming frames calls reason }
 | .errorFrame, .streaming _ _ _=>{ s.emit .error with phase:=.closing .other }
 | .ended, .streaming frames calls reason=>s.endStream frames calls reason
 | .nudged (some nudge), .nudging=>{ s with phase:=.opening [.user nudge []] }
 | .nudged none, .nudging=>{ s with phase:=.closing .stop }
 | .closed, .closing reason=>
  { s.emit (.done reason) with phase:=.returned (reason ≠ .stop) [] }
 | .callDone content, .round (call::queued) toolMessages=>
  let toolMessages:=toolMessages ++ [.tool call.callId content]
  if queued.isEmpty then s.endRound toolMessages
  else { s with phase:=.round queued toolMessages }
 | .closed, .roundClosing true _=>
  { s.emit (.done .other) with phase:=.returned true [] }
 | .closed, .roundClosing false toolMessages=>
  { s.emit (.done .stop) with phase:=.returned false toolMessages }
 | .threw, .opening _ | .threw, .streaming _ _ _ | .threw, .closing _ | .threw, .round _ _
 | .threw, .roundClosing _ _=>
  { s.emit s.outcomeOfThrow with phase:=.returned true [] }
 | .returned, .returned terminate leftover=>s.afterSubTurn terminate leftover
 | _, _=>s

def initial (text:String) (continueTurn:Bool) : State where
 phase:=.loading
 first:=true
 activeParams:=⟨text,continueTurn,[]⟩
 prependedToolResults:=[]
 aborted:=false
 queue:=[]
 requests:=[]
 events:=[]
 accepted:=[]
 owed:=[]

end L4Ide.ChatPipeline
