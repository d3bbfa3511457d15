import L4Ide.AdmissibleRuns
import L4Ide.InterleavedComponents

set_option autoImplicit false

/-!
# The conversation store

Writes to the stored conversations of the agent's users. The writes to a conversation id run
one after another; each looks up the user's directory again when it reads and when it saves. A
step is what a write does between two points where it waits.
-/
namespace L4Ide.ConversationWrites
open InterleavedComponents

abbrev JsText := List UInt16

structure ChatMessage where
 role : String
 content : String
 deriving DecidableEq

structure AiConversation where
 orgId : String
 userId : String
 model : String
 title : JsText
 createdAt : String
 lastActiveAt : String
 messages : List ChatMessage
 extensionVersion : Option String
 deploymentId : Option String
 apiBaseUrl : Option String
 deriving DecidableEq

inductive File
 | conversation (conv:AiConversation)
 /-- A text that does not parse. -/
 | unreadable
 deriving DecidableEq

structure Append where
 orgId : String
 userId : String
 model : String
 titleHint : JsText
 messages : List ChatMessage
 extensionVersion : Option String
 deploymentId : Option String
 apiBaseUrl : Option String

inductive Operation
 | appendMessages (a:Append)
 /-- The change may raise an error. -/
 | update (change:AiConversation → Option AiConversation)
 | setTitle (title:JsText) (replacing:Option JsText)
 | delete

def isDelete : Operation → Bool
 | .delete=>true
 | _=>false

def isNameChar (c:Char) : Bool := c.isAlphanum || c == '_' || c == '-'

def isPlainName (s:String) : Bool := !s.toList.isEmpty && s.toList.all isNameChar

def isSafeId (id:String) : Bool := isPlainName id && decide (id.toList.length < 128)

def baseDir (userKey:Option String) : Option String := userKey.filter isPlainName

def present (o:Option String) : Option String := o.filter fun s=>s ≠ ""

def blank (a:Append) (now:String) : AiConversation where
 orgId:=a.orgId
 userId:=a.userId
 model:=a.model
 title:=a.titleHint.take 80
 createdAt:=now
 lastActiveAt:=now
 messages:=[]
 extensionVersion:=present a.extensionVersion
 deploymentId:=present a.deploymentId
 apiBaseUrl:=present a.apiBaseUrl

inductive Plan
 | save (created:Bool) (conv:AiConversation)
 | nothing
 | raises

def plan (op:Operation) (loaded:Option AiConversation) (now:String) : Plan :=
 match op, loaded with
 | .appendMessages a, none=>
  .save true { blank a now with messages:=a.messages,lastActiveAt:=now }
 | .appendMessages a, some conv=>
  .save false { conv with messages:=conv.messages ++ a.messages,lastActiveAt:=now }
 | .update change, some conv=>
  match change conv with
  | some changed=>.save false changed
  | none=>.raises
 | .setTitle title replacing, some conv=>
  if replacing.isSome ∧ replacing ≠ some conv.title then .nothing
  else .save false { conv with title:=title }
 | _, _=>.nothing

/-- A call, and the user whose directory was current when it was made. -/
structure Call where
 op : Operation
 user : Option String

inductive Phase
 | idle
 /-- The file is being read, under this user where there was one. -/
 | reading (user:Option String)
 | saving (user:Option String) (created:Bool) (conv:AiConversation) (now:String)
 | writing (user:Option String) (target:String) (created:Bool) (conv:AiConversation)
   (now:String)
 | removing (user:Option String)
 deriving DecidableEq

structure Done where
 call : Call
 now : String
 success : Bool

/-- A write that reached the disk: under whom the conversation was read, under whom it was
    written, and whether it was begun anew over a file that was there. -/
structure Write where
 readUnder : Option String
 target : String
 created : Bool
 existed : Bool
 deriving DecidableEq

structure Slot where
 files : String → Option File
 /-- All calls, those that are not done, and those that are, in their order. -/
 called : List Call
 queue : List Call
 done : List Done
 phase : Phase
 writes : List Write

def Slot.empty : Slot := ⟨fun _=>none,[],[],[],.idle,[]⟩

def Slot.finish (success:Bool) (now:String) (s:Slot) : Slot :=
 match s.queue with
 | []=>s
 | call::rest=>
  { s with queue:=rest,done:=s.done ++ [⟨call,now,success⟩],phase:=.idle }

def Slot.setFile (user:String) (file:Option File) (s:Slot) : Slot :=
 { s with files:=fun u=>if u=user then file else s.files u }

/-- `load`: a file that is not there, one that cannot be read and one that does not parse are
    not told apart. -/
def load (id:String) (user:Option String) (fails:Bool) (s:Slot) : Option AiConversation :=
 if isSafeId id && !fails then
  match user.bind s.files with
  | some (.conversation conv)=>some conv
  | _=>none
 else none

/-- A call is put in order behind those before it; a delete that has no directory to look in
    ends at once. -/
def enqueue (id:String) (userKey:Option String) (op:Operation) (s:Slot) : Slot :=
 let call:Call:=⟨op,baseDir userKey⟩
 if isDelete op && (!isSafeId id || call.user.isNone) then s
 else { s with called:=s.called ++ [call],queue:=s.queue ++ [call] }

def beginNext (userKey:Option String) (s:Slot) : Slot :=
 match s.phase, s.queue with
 | .idle, call::_=>
  { s with phase:=if isDelete call.op then .removing call.user else .reading (baseDir userKey) }
 | _, _=>s

def readFile (id:String) (fails:Bool) (now:String) (s:Slot) : Slot :=
 match s.phase, s.queue with
 | .reading user, call::_=>
  match plan call.op (load id user fails s) now with
  | .save created conv=>{ s with phase:=.saving user created conv now }
  | .nothing=>s.finish true now
  | .raises=>s.finish false now
 | _, _=>s

def save (id:String) (userKey:Option String) (s:Slot) : Slot :=
 match s.phase with
 | .saving user created conv now=>
  if isSafeId id then
   match baseDir userKey with
   | some target=>{ s with phase:=.writing user target created conv now }
   -- No user key: the save is dropped with a warning.
   | none=>s.finish true now
  else s.finish false now
 | _=>s

def write (ok:Bool) (s:Slot) : Slot :=
 match s.phase with
 | .writing user target created conv now=>
  if ok then
   let written:Write:=⟨user,target,created,(s.files target).isSome⟩
   ({ s with writes:=s.writes ++ [written] }.setFile target
    (some (.conversation conv))).finish true now
  else s.finish false now
 | .removing (some user)=>
  if ok && (s.files user).isSome then (s.setFile user none).finish true ""
  else s.finish false ""
 | .removing none=>s.finish false ""
 | _=>s

inductive SlotAction
 | call (op:Operation)
 | begin
 | read (fails:Bool) (now:String)
 | save
 | write (ok:Bool)

def slotStep (id:String) (userKey:Option String) (action:SlotAction) (s:Slot) : Slot :=
 match action with
 | .call op=>enqueue id userKey op s
 | .begin=>beginNext userKey s
 | .read fails now=>readFile id fails now s
 | .save=>save id userKey s
 | .write ok=>write ok s

structure State where
 userKey : Option String
 conversations : Family String Slot Slot.empty

inductive Action
 | switchUser (userKey:Option String)
 | on (id:String) (action:SlotAction)

def step (action:Action) (s:State) : State :=
 match action with
 | .switchUser userKey=>{ s with userKey:=userKey }
 | .on id action=>
  { s with
    conversations :=
     s.conversations.put id (slotStep id s.userKey action (s.conversations.get id)) }

end L4Ide.ConversationWrites
