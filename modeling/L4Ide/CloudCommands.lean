import Mathlib.Data.Nat.Init
import L4Ide.AdmissibleRuns

set_option autoImplicit false

/-!
# Commands of a cloud session

A harness reads the numbered command files of its session, dispatches them, runs the queued ones one
at a time, and records in `commands.done` up to where they were handled.
-/
namespace L4Ide.CloudCommands

inductive Payload
 | message (turnId:String)
 | inject (turnId:String) (injectionId:Option String)
 | abort (turnId:String)
 | answer
 | rollback
 | mcpCredentials
 | stop
 | applyBundle
 | addFiles
 deriving DecidableEq

structure CloudCommand where
 id : ℕ
 payload : Payload
 deriving DecidableEq

def isQueued : Payload → Bool
 | .message _ | .rollback | .applyBundle | .addFiles=>true
 | _=>false

def turnOf : Payload → Option String
 | .message turnId=>some turnId
 | _=>none

def COMMAND_GRACE_MS : ℕ := 15000

def COMMAND_TRANSIENT_GRACE_MS : ℕ := 60000

def TRANSIENT_ERRNOS : List String :=
 ["ESTALE","EIO","EAGAIN","EBUSY","EINTR","ETIMEDOUT","ENOTCONN","EHOSTDOWN",
  "EHOSTUNREACH","ECONNRESET"]

/-- What reading a command file gives. -/
inductive Reading
 | error (code:String)
 | missing
 | halfWritten
 | invalid
 | command (cmd:CloudCommand)
 deriving DecidableEq

inductive ReadResult
 | wait
 | skip
 | command (cmd:CloudCommand)
 deriving DecidableEq

structure Reader where
 highWater : ℕ
 /-- Every command up to here has been handled. -/
 done : ℕ
 /-- Every command up to here has been handed out. -/
 delivered : ℕ
 /-- Numbers above `done` that were handled out of order. -/
 handledAbove : List ℕ
 stuckSince : Option (ℕ × ℕ)
 deriving DecidableEq

namespace Reader

def opened (stored:ℕ) : Reader := ⟨stored,stored,stored,[],none⟩

/-- Wait for a command up to a grace period from its first failed read, then skip it. -/
def stuck (n graceMs now:ℕ) (r:Reader) : ReadResult × Reader :=
 match r.stuckSince with
 | none=>(.wait,{ r with stuckSince:=some (n,now) })
 | some (m,since)=>
  if m ≠ n then (.wait,{ r with stuckSince:=some (n,now) })
  else if now-since < graceMs then (.wait,r)
  else (.skip,{ r with stuckSince:=none })

def read (n now:ℕ) (reading:Reading) (r:Reader) : ReadResult × Reader :=
 match reading with
 | .error code=>
  if code ∈ TRANSIENT_ERRNOS then r.stuck n COMMAND_TRANSIENT_GRACE_MS now
  else (.skip,{ r with stuckSince:=none })
 | .missing=>r.stuck n COMMAND_GRACE_MS now
 | .halfWritten=>r.stuck n COMMAND_GRACE_MS now
 | .invalid=>(.skip,r)
 | .command cmd=>
  if cmd.id ≠ n then (.skip,r) else (.command cmd,{ r with stuckSince:=none })

/-- `done` moves over the numbers that are handled above it. -/
def advance : ℕ → ℕ → List ℕ → ℕ × List ℕ
 | 0, next, above=>(next,above)
 | fuel+1, next, above=>
  if next+1 ∈ above then advance fuel (next+1) (above.filter (· ≠ next+1))
  else (next,above)

/-- Whether `commands.done` is written, and the reader after. -/
def markHandled (n:ℕ) (r:Reader) : Bool × Reader :=
 if n ≤ r.done then (false,r)
 else
  let above:=n::r.handledAbove
  let moved:=advance above.length r.done above
  (decide (r.done < moved.1),{ r with done:=moved.1,handledAbove:=moved.2 })

def markHandledThrough (n:ℕ) (r:Reader) : Bool × Reader :=
 let next:=max r.done (min n r.delivered)
 (decide (r.done < next),
  { r with done:=next,handledAbove:=r.handledAbove.filter fun k=>n < k })

end Reader

inductive Phase
 | running
 | stopping
 deriving DecidableEq

/-- Who waits for a write of `commands.done`. -/
inductive Waiter
 | poll
 | dispatch
 | stop (cmd:CloudCommand)
 | turn
 | action
 | background
 deriving DecidableEq

inductive Tick
 | idle
 /-- The commands read so far. -/
 | polling (out:List CloudCommand)
 | skipping (out:List CloudCommand)
 | dispatching (rest:List CloudCommand)
 | acting (cmd:CloudCommand) (rest:List CloudCommand)
 | recording (rest:List CloudCommand)
 deriving DecidableEq

inductive Work
 | idle
 /-- A message that is recorded before its turn starts. -/
 | recording (cmd:CloudCommand)
 | preparing (cmd:CloudCommand)
 | active (cmd:CloudCommand)
 | ending (cmd:CloudCommand)
 | acting (cmd:CloudCommand)
 /-- The action is done and is being recorded. -/
 | closing (cmd:CloudCommand)
 deriving DecidableEq

inductive Fate
 | executed (n:ℕ)
 | discardedThrough (n:ℕ)
 | aborted (n:ℕ)
 | passedOver (n:ℕ)
 /-- The run ended when the message was recorded and its turn about to start. -/
 | interrupted (n:ℕ)
 /-- The turn did not start because the message could not be recorded. -/
 | unrecorded (n:ℕ)
 /-- An inject that waits as a turn of its own behind another command. -/
 | queuedBehind (n:ℕ)
 deriving DecidableEq

structure Read where
 number : ℕ
 now : ℕ
 reading : Reading
 deriving DecidableEq

structure History where
 start : ℕ
 reads : List Read
 passed : List ℕ
 /-- Read by a poll that failed before it handed them out. -/
 dropped : List ℕ
 handedOut : List ℕ
 dispatched : List ℕ
 deriving DecidableEq

structure State where
 /-- What `commands.done` holds. -/
 stored : ℕ
 phase : Phase
 reader : Reader
 tick : Tick
 work : Work
 queue : List CloudCommand
 /-- Who waits for the writes of `commands.done`, the first to be written first. -/
 writes : List Waiter
 /-- The number that is being written. -/
 writing : Option ℕ
 history : History
 fates : List Fate
 deriving DecidableEq

namespace State

/-- A run of the harness opens its reader. -/
def opened (stored:ℕ) (fates:List Fate) : State :=
 ⟨stored,.running,.opened stored,.idle,.idle,[],[],none,⟨stored,[],[],[],[],[]⟩,fates⟩

def fresh : State := opened 0 []

def settle (fate:Fate) (s:State) : State := { s with fates:=s.fates ++ [fate] }

/-- `markHandled`: whether the caller waits for a write. -/
def markHandled (n:ℕ) (waiter:Waiter) (s:State) : Bool × State :=
 let marked:=s.reader.markHandled n
 (marked.1,
  { s with
    reader:=marked.2
    writes:=if marked.1 then s.writes ++ [waiter] else s.writes })

def startTurn (cmd:CloudCommand) (s:State) : State :=
 { s with work:=.preparing cmd }.settle (.executed cmd.id)

def runQueued (cmd:CloudCommand) (s:State) : State :=
 match cmd.payload with
 | .message _=>
  let marked:=s.markHandled cmd.id .turn
  if marked.1 then { marked.2 with work:=.recording cmd } else marked.2.startTurn cmd
 | _=>{ s with work:=.acting cmd }.settle (.executed cmd.id)

def drain (s:State) : State :=
 match s.work, s.queue with
 | .idle, next::rest=>
  let taken:State:={ s with queue:=rest }
  if s.phase = .running then taken.runQueued next else taken
 | _, _=>s

def finishWork (s:State) : State := { s with work:=.idle }.drain

def shutdown (s:State) : State := { s with phase:=.stopping,queue:=[] }

def activeTurn (s:State) : Option String :=
 match s.work with
 | .active cmd=>turnOf cmd.payload
 | _=>none

def enqueue (cmd:CloudCommand) (s:State) : State := { s with queue:=s.queue ++ [cmd] }.drain

def injected (id:ℕ) (turnId:String) (injectionId:Option String) : CloudCommand :=
 let name:=turnId ++ "." ++ injectionId.getD ("inj-" ++ toString id)
 ⟨id,.message (String.ofList (name.toList.take 128))⟩

def inject (id:ℕ) (turnId:String) (injectionId:Option String) (s:State) : State :=
 if s.activeTurn=some turnId then s.settle (.executed id)
 else if s.work = .idle then s.enqueue (injected id turnId injectionId)
 else (s.settle (.queuedBehind id)).enqueue (injected id turnId injectionId)

def abort (id:ℕ) (turnId:String) (s:State) : State :=
 let told:=s.settle (.executed id)
 match s.queue.find? fun c=>turnOf c.payload=some turnId with
 | none=>told
 | some cmd=>
  ({ told with queue:=s.queue.erase cmd }.settle (.aborted cmd.id) |>.markHandled cmd.id
   .background).2

def endDispatch (id:ℕ) (rest:List CloudCommand) (s:State) : State :=
 let marked:=s.markHandled id .dispatch
 { marked.2 with tick:=if marked.1 then .recording rest else .dispatching rest }

def dispatchStop (cmd:CloudCommand) (rest:List CloudCommand) (s:State) : State :=
 let marked:=s.reader.markHandledThrough cmd.id
 let dropped:State:=
  { s with queue:=[],reader:=marked.2 }.settle (.discardedThrough cmd.id)
 if marked.1 then { dropped with writes:=s.writes ++ [.stop cmd],tick:=.recording rest }
 else { dropped.shutdown with tick:=.dispatching rest }

def dispatch (cmd:CloudCommand) (rest:List CloudCommand) (s:State) : State :=
 let noted:State:=
  { s with history:={ s.history with dispatched:=s.history.dispatched ++ [cmd.id] } }
 match cmd.payload with
 | .inject turnId injectionId=>(noted.inject cmd.id turnId injectionId).endDispatch cmd.id rest
 | .abort turnId=>(noted.abort cmd.id turnId).endDispatch cmd.id rest
 | .answer | .mcpCredentials=>
  { noted with tick:=.acting cmd rest }.settle (.executed cmd.id)
 | .stop=>noted.dispatchStop cmd rest
 | .message _ | .rollback | .applyBundle | .addFiles=>
  { noted with tick:=.dispatching rest }.enqueue cmd

end State

/-- `commands.seq` is read; none where it is not a number. -/
def poll (seq:Option ℕ) (s:State) : State :=
 match s.phase, s.tick with
 | .running, .idle=>
  { s with
    reader:={ s.reader with highWater:=max s.reader.highWater (seq.getD 0) }
    tick:=.polling [] }
 | _, _=>s

def readNext (now:ℕ) (reading:Reading) (s:State) : State :=
 match s.tick with
 | .polling out=>
  if s.reader.delivered < s.reader.highWater then
   let n:=s.reader.delivered+1
   let result:=s.reader.read n now reading
   let noted:State:=
    { s with
      reader:=result.2
      history:={ s.history with reads:=s.history.reads ++ [⟨n,now,reading⟩] } }
   match result.1 with
   | .wait=>{ noted with
     tick:=.dispatching out
     history:={ noted.history with
      handedOut:=noted.history.handedOut ++ out.map CloudCommand.id } }
   | .command cmd=>{ noted with
     reader:={ result.2 with delivered:=n }
     tick:=.polling (out ++ [cmd]) }
   | .skip=>
    let skipped:State:=
     { noted with
       reader:={ result.2 with delivered:=n }
       history:={ noted.history with passed:=noted.history.passed ++ [n] } }.settle
       (.passedOver n)
    let marked:=skipped.markHandled n .poll
    { marked.2 with tick:=if marked.1 then .skipping out else .polling out }
  else s
 | _=>s

/-- The poll has read up to the highest number, and hands out its commands. -/
def polled (s:State) : State :=
 match s.tick with
 | .polling out=>
  if s.reader.delivered < s.reader.highWater then s
  else
   { s with
     tick:=.dispatching out
     history:={ s.history with handedOut:=s.history.handedOut ++ out.map CloudCommand.id } }
 | _=>s

def dispatchNext (s:State) : State :=
 match s.tick with
 | .dispatching (cmd::rest)=>
  if s.phase = .running then s.dispatch cmd rest else { s with tick:=.idle }
 | .dispatching []=>{ s with tick:=.idle }
 | _=>s

def acted (s:State) : State :=
 match s.tick with
 | .acting cmd rest=>s.endDispatch cmd.id rest
 | _=>s

def workOn (s:State) : State :=
 match s.work with
 | .preparing cmd=>{ s with work:=.active cmd }
 | .active cmd=>{ s with work:=.ending cmd }
 | .ending _=>s.finishWork
 | .acting cmd=>
  let marked:=s.markHandled cmd.id .action
  if marked.1 then { marked.2 with work:=.closing cmd } else marked.2.finishWork
 | _=>s

def beginWrite (s:State) : State :=
 match s.writes, s.writing with
 | _::_, none=>{ s with writing:=some s.reader.done }
 | _, _=>s

/-- What the one who waited does then. -/
def resume (waiter:Waiter) (ok:Bool) (s:State) : State :=
 match waiter with
 | .poll=>
  match s.tick with
  | .skipping out=>
   if ok then { s with tick:=.polling out }
   else
    { s with
      tick:=.idle
      history:={ s.history with
       dropped:=s.history.dropped ++ out.map CloudCommand.id } }
  | _=>s
 | .dispatch=>
  match s.tick with
  | .recording rest=>{ s with tick:=if ok then .dispatching rest else .idle }
  | _=>s
 | .stop cmd=>
  match s.tick with
  | .recording rest=>
   if ok then { s.shutdown with tick:=.dispatching rest } else s.endDispatch cmd.id rest
  | _=>s
 | .turn=>
  match s.work with
  | .recording cmd=>
   if ok then s.startTurn cmd else (s.settle (.unrecorded cmd.id)).finishWork
  | _=>s
 | .action=>
  match s.work with
  | .closing _=>s.finishWork
  | _=>s
 | .background=>s

def endWrite (ok:Bool) (s:State) : State :=
 match s.writes, s.writing with
 | waiter::rest, some n=>
  resume waiter ok
   { s with stored:=if ok then n else s.stored,writes:=rest,writing:=none }
 | _, _=>s

def restart (s:State) : State :=
 match s.work with
 | .recording cmd=>.opened s.stored (s.fates ++ [.interrupted cmd.id])
 | _=>.opened s.stored s.fates

inductive Action
 | poll (seq:Option ℕ)
 | readNext (now:ℕ) (reading:Reading)
 | polled
 | dispatchNext
 | acted
 | workOn
 | beginWrite
 | endWrite (ok:Bool)
 | shutdown
 | restart
 deriving DecidableEq

def step (action:Action) (s:State) : State :=
 match action with
 | .poll seq=>poll seq s
 | .readNext now reading=>readNext now reading s
 | .polled=>polled s
 | .dispatchNext=>dispatchNext s
 | .acted=>acted s
 | .workOn=>workOn s
 | .beginWrite=>beginWrite s
 | .endWrite ok=>endWrite ok s
 | .shutdown=>s.shutdown
 | .restart=>restart s

end L4Ide.CloudCommands
