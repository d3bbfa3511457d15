import L4Ide.AiStreamEvents

set_option autoImplicit false

/-!
# The stream that survives transport failures

A turn's stream is read frame by frame; when the transport fails the client asks for the frames
after the last one that it handled, and goes on.
-/
namespace L4Ide.ResilientStream
open StreamingUtf8 DelimitedStream AiStreamEvents

def MAX_REATTACHES : ℕ := 5

structure Received where
 events : List AiStreamEvent
 lastEventId : ℤ

section Reading

-- `JSON.parse`, where it does not throw
variable (parse:List Char → Option Json)

def handle (received:Received) (rawFrame:List Char) : Received :=
 match parseFrame rawFrame with
 | none=>received
 | some frame=>
  ⟨received.events ++ interpretFrame parse frame,frame.id.getD received.lastEventId⟩

/-- The frames that are whole; `fuel` is the length of the buffer. -/
def drain : ℕ → List Char → Received → List Char × Received
 | 0, buffer, received=>(buffer,received)
 | fuel+1, buffer, received=>
  match firstMatch boundaryLength buffer with
  | none=>(buffer,received)
  | some (index,length)=>
   drain fuel (buffer.drop (index+length)) (handle parse received (buffer.take index))

structure Reader where
 decoder : TextDecoder
 buffer : List Char
 received : Received

def readChunk (s:Reader) (chunk:List UInt8) : Reader :=
 let decoded:=TextDecoder.decode chunk s.decoder
 let buffer:=s.buffer ++ decoded.2
 let drained:=drain parse buffer.length buffer s.received
 ⟨decoded.1,drained.1,drained.2⟩

def parseSse (chunks:List (List UInt8)) (closed:Bool) (received:Received) : Received :=
 let s:=chunks.foldl (readChunk parse) ⟨.new,[],received⟩
 if closed && decide (trim s.buffer ≠ []) then handle parse s.received s.buffer else s.received

end Reading

inductive Failure
 | aiError (message code:Json) (status:ℕ)
 | transport (message:List Char)

def Failure.isAiError : Failure → Bool
 | .aiError ..=>true
 | .transport _=>false

inductive Refusal
 | signedOut
 | http (status:ℕ) (body:List Char)

def isInvalidCredentialsBody (body:List Char) : Bool :=
 decide ("invalid-credentials".toList <:+: body)

def httpStatusToCode (status:ℕ) (body:List Char) : String :=
 if status=401 then "unauthenticated"
 else if status=403 then if isInvalidCredentialsBody body then "unauthenticated" else "forbidden"
 else if status=404 then "not_found"
 else if status=429 then "rate_limited"
 else if 500 ≤ status then "upstream_error"
 else "request_failed"

section Refusals

variable (parse:List Char → Option Json)

def errorField (name:String) (body:List Char) : Option Value := do
 let parsed ← parse body
 let error ← property "error" parsed
 optionalProperty name error

def extractErrorMessage (body:List Char) : Value :=
 (errorField parse "message" body).getD
  (if body=[] then none else some (.str (body.take 200)))

def extractErrorCode (body:List Char) : Value := (errorField parse "code" body).getD none

def refusalError (reattach:Bool) : Refusal → Failure
 | .signedOut=>.aiError
   (.str "No Legalese Cloud session found. Sign in from the sidebar to use AI chat.".toList)
   (.str "unauthenticated".toList) 401
 | .http status body=>
  if reattach && status == 404 then
   .aiError (.str "Turn not found or expired".toList) (.str "not_found".toList) 404
  else
   .aiError (nullish (extractErrorMessage parse body) (.str ("HTTP " ++ toString status).toList))
    (nullish (extractErrorCode parse body) (.str (httpStatusToCode status body).toList)) status

end Refusals

/-- A frame that the service stamps with its id, and the line ends after it. -/
structure ServerFrame where
 raw : List Char
 separator : List Char
 id : ℤ
 positive : 0 < id
 whole : firstMatch boundaryLength (raw ++ separator)=some (raw.length,separator.length)
 unmarked : (raw ++ separator).head? ≠ some BOM
 carries : ∀ frame ∈ parseFrame raw, frame.id=some id

/-- The frames of a turn. -/
structure TurnLog where
 frames : List ServerFrame
 increasing : frames.Pairwise fun f g=>f.id < g.id

structure Keepalive (parse:List Char → Option Json) where
 raw : List Char
 separator : List Char
 whole : firstMatch boundaryLength (raw ++ separator)=some (raw.length,separator.length)
 unmarked : (raw ++ separator).head? ≠ some BOM
 silent : ∀ frame ∈ parseFrame raw, frame.id=none ∧ interpretFrame parse frame=[]

inductive Item (parse:List Char → Option Json)
 | frame (f:ServerFrame)
 | keepalive (k:Keepalive parse)

section Serving

variable {parse:List Char → Option Json}

def Item.raw : Item parse → List Char
 | .frame f=>f.raw
 | .keepalive k=>k.raw

def Item.separator : Item parse → List Char
 | .frame f=>f.separator
 | .keepalive k=>k.separator

def interleave (pad:ℕ → List (Keepalive parse)) : ℕ → List ServerFrame → List (Item parse)
 | i, []=>(pad i).map .keepalive
 | i, f::frames=>(pad i).map .keepalive ++ .frame f::interleave pad (i+1) frames

/-- The bytes that are sent. -/
def body (items:List (Item parse)) : List UInt8 :=
 TextDecoder.encode (items.flatMap fun i=>i.raw ++ i.separator)

/-- Bytes cut into chunks of these sizes, and what remains. -/
def cut : List ℕ → List UInt8 → List (List UInt8) × List UInt8
 | [], bytes=>([],bytes)
 | n::sizes, bytes=>(bytes.take n::(cut sizes (bytes.drop n)).1,(cut sizes (bytes.drop n)).2)

/-- The frames that are replayed: those after the requested id, or all. -/
def TurnLog.after (log:TurnLog) : Option ℤ → List ServerFrame
 | none=>log.frames
 | some since=>log.frames.filter fun f=>since < f.id

end Serving

/-- What becomes of a request: the transport fails after some of the bytes, the service refuses it,
    or all is sent and the stream is closed. -/
inductive Link (parse:List Char → Option Json)
 | drops (message:List Char) (sizes:List ℕ) (pad:ℕ → List (Keepalive parse))
  (aborted abortedInBackoff:Bool)
 | refuses (refusal:Refusal)
 | completes (sizes:List ℕ) (pad:ℕ → List (Keepalive parse))

/-- The `since` that a reattach asks for. -/
def requestedId (lastEventId:ℤ) : Option ℤ := if 0 < lastEventId then some lastEventId else none

section Requests

variable {parse:List Char → Option Json}

namespace Link

def aborted : Link parse → Bool
 | .drops _ _ _ aborted _=>aborted
 | _=>false

def abortedInBackoff : Link parse → Bool
 | .drops _ _ _ _ aborted=>aborted
 | _=>false

/-- The chunks that arrive, and the error that ends them. -/
def response (link:Link parse) (reattach:Bool) (frames:List ServerFrame) :
  List (List UInt8) × Option Failure :=
 match link with
 | .drops message sizes pad _ _=>
  ((cut sizes (body (interleave pad 0 frames))).1,some (.transport message))
 | .refuses refusal=>([],some (refusalError parse reattach refusal))
 | .completes sizes pad=>
  let chunks:=cut sizes (body (interleave pad 0 frames))
  (chunks.1 ++ [chunks.2],none)

end Link

structure Run where
 events : List AiStreamEvent
 thrown : Option Failure

/-- Request number `i` and the reattaches after it. -/
def streamFrom (log:TurnLog) (links:ℕ → Link parse) : ℕ → ℕ → Received → Run
 | left, i, received=>
  let response:=(links i).response (decide (0 < i)) (log.after (requestedId received.lastEventId))
  let after:=parseSse parse response.1 response.2.isNone received
  match response.2 with
  | none=>⟨after.events,none⟩
  | some err=>
   if (links i).aborted || err.isAiError then ⟨after.events,some err⟩
   else
    match left with
    | 0=>⟨after.events,some err⟩
    | left+1=>
     if (links i).abortedInBackoff then ⟨after.events,some err⟩
     -- the call of `reattach` only makes the generator: what it throws comes out of the loop
     else streamFrom log links left (i+1) after

def streamResilient (log:TurnLog) (links:ℕ → Link parse) : Run :=
 streamFrom log links MAX_REATTACHES 0 ⟨[],0⟩

end Requests

end L4Ide.ResilientStream
