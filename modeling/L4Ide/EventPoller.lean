import L4Ide.AssociationList

set_option autoImplicit false

/-!
# The event poller of the cloud client

The sessions that a window watches, the poll in flight, and what the listener is given. A log is
known by its length: its events have the numbers 1, 2, 3 and so on. A cursor is the number of events
before it.
-/
namespace L4Ide.EventPoller
open AssociationList

inductive SessionState
 | starting
 | busy
 | running
 | waiting
 | sleeping
 | parked
 deriving DecidableEq

def POLL_BUSY_MS : ℕ := 1000
def POLL_IDLE_MS : ℕ := 5000
def POLL_GRACE_MS : ℕ := 90000
def BACKOFF_MS : List ℕ := [2000,5000,10000,30000]
def MAX_EVENT_STREAMS : ℕ := 10
def CURSOR_START : ℕ := 0

structure Watched where
 cursor : ℕ
 state : Option SessionState
 graceUntil : ℕ
 gen : ℕ
 deriving DecidableEq

structure Tracked where
 lastSeq : ℕ
 replaying : Bool
 state : Option SessionState
 /-- A start runs, or a sent message waits for its answer. -/
 owed : Bool
 /-- What the listener was given since the session was opened. -/
 given : List ℕ
 /-- The length of the log when the session was opened, until it is closed. -/
 opened : Option ℕ
 /-- An answer since then said that it is gone. -/
 gone : Bool
 /-- How often it was opened. -/
 opens : ℕ

def untracked : Tracked := ⟨0,false,none,false,[],none,false,0⟩

section Poller

variable {Sid:Type}

inductive Answer
 | events (first count:ℕ) (more:Bool) (state:SessionState)
 | gone

structure Request (Sid:Type) where
 sid : Sid
 cursor : ℕ
 gen : ℕ
 /-- How often the session had been opened. -/
 opens : ℕ

structure Poll (Sid:Type) where
 requests : List (Request Sid)
 answers : Sid → Option Answer
 /-- What is still to be handled, once all requests are settled. -/
 streams : Option (List (Sid × Answer))
 more : Bool
 failed : Bool

def Poll.request [DecidableEq Sid] (p:Poll Sid) (sid:Sid) : Option (Request Sid) :=
 p.requests.find? fun r=>r.sid=sid

structure State (Sid:Type) where
 now : ℕ
 log : Sid → ℕ
 watched : List (Sid × Watched)
 timer : Option ℕ
 poll : Option (Poll Sid)
 again : Bool
 failures : ℕ
 disposed : Bool
 tracked : Sid → Tracked
 viewing : Option Sid

def initial : State Sid where
 now:=0
 log _ := 0
 watched:=[]
 timer:=none
 poll:=none
 again:=false
 failures:=0
 disposed:=false
 tracked _ := untracked
 viewing:=none

def intervalFor (w:Watched) (now:ℕ) : Option ℕ :=
 match w.state with
 | some .busy | some .starting=>some POLL_BUSY_MS
 | some .running | some .waiting=>some POLL_IDLE_MS
 | _=>if now < w.graceUntil then some POLL_BUSY_MS else none

namespace State

def nextDelay (s:State Sid) : Option ℕ :=
 s.watched.foldl (fun delay e=>
  match delay,intervalFor e.2 s.now with
  | some a,some b=>some (min a b)
  | none,b=>b
  | a,none=>a) none

def schedule (delay:Option ℕ) (s:State Sid) : State Sid :=
 if s.disposed then s
 else if s.poll.isSome then (if delay=some 0 then { s with again:=true } else s)
 else
  match delay, s.timer with
  | none, _=>s
  | some ms, none=>{ s with timer:=some (s.now+ms) }
  | some ms, some due=>if due ≤ s.now+ms then s else { s with timer:=some (s.now+ms) }

variable [DecidableEq Sid]

def entry (sid:Sid) (s:State Sid) : Option Watched := s.watched.lookup sid

def setEntry (sid:Sid) (w:Option Watched) (s:State Sid) : State Sid :=
 { s with watched:=alter sid id (fun _=>w) s.watched }

def track (sid:Sid) (f:Tracked → Tracked) (s:State Sid) : State Sid :=
 { s with tracked:=Function.update s.tracked sid (f (s.tracked sid)) }

def nextGen (sid:Sid) (reset:Bool) (s:State Sid) : ℕ :=
 ((s.entry sid).elim 0 Watched.gen) + if reset then 1 else 0

def watch (sid:Sid) (cursor:Option ℕ) (state:Option SessionState) (s:State Sid) :
  State Sid :=
 let prev:=s.entry sid
 (s.setEntry sid (some
  { cursor:=cursor.getD (prev.elim CURSOR_START Watched.cursor)
    state:=state <|> prev.bind Watched.state
    graceUntil:=s.now+POLL_GRACE_MS
    gen:=s.nextGen sid cursor.isSome })).schedule (some 0)

def unwatch (sid:Sid) (s:State Sid) : State Sid := s.setEntry sid none

def poke (sid:Sid) (state:Option SessionState) (s:State Sid) : State Sid :=
 match s.entry sid with
 | none=>s.watch sid none state
 | some w=>
  (s.setEntry sid (some
   { w with graceUntil:=s.now+POLL_GRACE_MS,state:=state <|> w.state })).schedule (some 0)

def endReplay (sid:Sid) (s:State Sid) : State Sid :=
 s.track sid fun t=>{ t with replaying:=false }

def close (sid:Sid) (s:State Sid) : State Sid :=
 ((s.unwatch sid).endReplay sid).track sid fun t=>{ t with opened:=none }

def releaseIfIdle (sid:Sid) (s:State Sid) : State Sid :=
 let t:=s.tracked sid
 if s.viewing=some sid ∨ (s.entry sid).isNone then s
 else if t.state ≠ some .sleeping ∧ t.state ≠ some .parked then s
 else if t.owed then s
 else s.close sid

def setState (sid:Sid) (state:SessionState) (s:State Sid) : State Sid :=
 if (s.tracked sid).state=some state then s
 else
  let changed:=s.track sid fun t=>{ t with state:=some state }
  if state = .sleeping ∨ state = .parked then changed.releaseIfIdle sid else changed

def setViewing (sid:Option Sid) (s:State Sid) : State Sid :=
 let seen:={ s with viewing:=sid }
 match s.viewing with
 | some prev=>if sid=some prev then seen else seen.releaseIfIdle prev
 | none=>seen

/-- `open`, once the session has been read. -/
def opened (sid:Sid) (state:SessionState) (s:State Sid) : State Sid :=
 let fresh:=(s.setViewing (some sid)).track sid fun t=>
  { t with replaying:=true,lastSeq:=0,given:=[],opened:=some (s.log sid),
           gone:=false,opens:=t.opens+1 }
 (fresh.setState sid state).watch sid (some CURSOR_START) (some state)

def giveEvent (t:Tracked) (seq:ℕ) : Tracked :=
 if seq ≤ t.lastSeq then t else { t with lastSeq:=seq,given:=t.given ++ [seq] }

def handleStream (sid:Sid) (answer:Answer) (s:State Sid) : State Sid :=
 match answer with
 | .gone=>(s.endReplay sid).track sid fun t=>{ t with gone:=true }
 | .events first count more state=>
  let given:=s.track sid fun t=>(List.range' (first+1) count).foldl giveEvent t
  let known:=given.setState sid state
  if !more && (known.tracked sid).replaying then known.endReplay sid else known

/-- The poll begins: each session that is due is asked for from its cursor. -/
def startPoll (s:State Sid) : State Sid :=
 if s.poll.isSome ∨ s.disposed then s
 else
  let due:=s.watched.filter fun e=>(intervalFor e.2 s.now).isSome
  { s with
    again:=false
    poll:=some
     { requests:=due.map fun e=>⟨e.1,e.2.cursor,e.2.gen,(s.tracked e.1).opens⟩
       answers:=fun _=>none
       streams:=none
       more:=false
       failed:=false } }

def fire (s:State Sid) : State Sid :=
 match s.timer with
 | some due=>if due ≤ s.now then { s with timer:=none }.startPoll else s
 | none=>s

/-- The server reads a log for a request: so many events after its cursor, as far as there are any. -/
def read (sid:Sid) (count:ℕ) (state:SessionState) (s:State Sid) : State Sid :=
 match s.poll with
 | none=>s
 | some p=>
  match p.request sid with
  | none=>s
  | some r=>
   let n:=min count (s.log sid-r.cursor)
   let answer:=.events r.cursor n (decide (r.cursor+n < s.log sid)) state
   { s with poll:=some { p with answers:=Function.update p.answers sid (some answer) } }

def lose (sid:Sid) (s:State Sid) : State Sid :=
 match s.poll with
 | none=>s
 | some p=>{ s with poll:=some { p with answers:=Function.update p.answers sid (some .gone) } }

def settle (outcomes:List (Option (List Sid))) (s:State Sid) : State Sid :=
 match s.poll with
 | none=>s
 | some p=>
  let batches:=p.requests.toChunks MAX_EVENT_STREAMS
  if p.streams.isSome ∨ outcomes.length ≠ batches.length then s
  else
   let streams:=(batches.zip outcomes).flatMap fun e=>
    ((e.2.getD []).filter fun sid=>e.1.any fun r=>r.sid=sid).filterMap fun sid=>
     (p.answers sid).map fun answer=>(sid,answer)
   { s with poll:=some { p with streams:=some streams,failed:=outcomes.any Option.isNone } }

def handle (s:State Sid) : State Sid :=
 match s.poll with
 | none=>s
 | some p=>
  match p.streams with
  | none=>s
  | some []=>s
  | some ((sid,answer)::streams)=>
   let rest:={ p with streams:=some streams }
   let gen:=(p.request sid).map Request.gen
   match s.entry sid with
   | none=>{ s with poll:=some rest }
   | some w=>
    if gen=some w.gen then
     match answer with
     | .gone=>({ s with poll:=some rest }.unwatch sid).handleStream sid answer
     | .events first count more state=>
      ({ s with poll:=some { rest with more:=p.more || more } }.setEntry sid
       (some { w with cursor:=first+count,state:=some state })).handleStream sid answer
    else { s with poll:=some rest }

def finish (s:State Sid) : State Sid :=
 match s.poll with
 | none=>s
 | some p=>
  match p.streams with
  | some []=>
   let idle:={ s with poll:=none }
   if p.failed then
    let ms:=BACKOFF_MS.getD (min s.failures (BACKOFF_MS.length-1)) 0
    { idle with failures:=s.failures+1 }.schedule
      (if s.watched=[] then none else some ms)
   else { idle with failures:=0 }.schedule
    (if p.more || s.again then some 0 else s.nextDelay)
  | _=>s

def dispose (s:State Sid) : State Sid :=
 { s with
   disposed:=true,timer:=none,watched:=[]
   tracked:=fun sid=>{ s.tracked sid with opened:=none } }

end State

inductive Action (Sid:Type)
 | append (sid:Sid)
 | tick (ms:ℕ)
 | owe (sid:Sid) (owed:Bool)
 | opened (sid:Sid) (state:SessionState)
 | close (sid:Sid)
 | setViewing (sid:Option Sid)
 /-- A state that another request has brought. -/
 | setState (sid:Sid) (state:SessionState)
 | poke (sid:Sid) (state:Option SessionState)
 | fire
 | read (sid:Sid) (count:ℕ) (state:SessionState)
 | lose (sid:Sid)
 | settle (outcomes:List (Option (List Sid)))
 | handle
 | finish
 | dispose

variable [DecidableEq Sid]

def step (action:Action Sid) (s:State Sid) : State Sid :=
 match action with
 | .append sid=>{ s with log:=Function.update s.log sid (s.log sid+1) }
 | .tick ms=>{ s with now:=s.now+ms }
 | .owe sid owed=>s.track sid fun t=>{ t with owed }
 | .opened sid state=>s.opened sid state
 | .close sid=>s.close sid
 | .setViewing sid=>s.setViewing sid
 | .setState sid state=>s.setState sid state
 | .poke sid state=>s.poke sid state
 | .fire=>s.fire
 | .read sid count state=>s.read sid count state
 | .lose sid=>s.lose sid
 | .settle outcomes=>s.settle outcomes
 | .handle=>s.handle
 | .finish=>s.finish
 | .dispose=>s.dispose

end Poller

end L4Ide.EventPoller
