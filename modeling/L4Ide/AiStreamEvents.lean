import Mathlib.Data.Rat.Init
import Mathlib.Algebra.Ring.Nat
import Mathlib.Data.Int.Notation
import L4Ide.StreamingUtf8
import L4Ide.DelimitedStream

set_option autoImplicit false

/-!
# Frames of the AI service's stream and their events

How the client cuts the text of a response into frames, reads a frame's fields, and turns its data
into the events that a chat turn consumes.
-/
namespace L4Ide.AiStreamEvents
open DelimitedStream

inductive Json
 | null
 | bool (value:Bool)
 | num (value:ℚ)
 | str (value:List Char)
 | arr (elements:List Json)
 | obj (fields:List (String × Json))

/-- A value that may be undefined. -/
abbrev Value := Option Json

def property (name:String) : Value → Option Value
 | none=>none
 | some .null=>none
 | some (.obj fields)=>some (fields.lookup name)
 | some _=>some none

/-- A property after `?.`. -/
def optionalProperty (name:String) : Value → Option Value
 | none=>some none
 | some .null=>some none
 | some value=>property name (some value)

/-- The element at index 0 after `?.`. -/
def optionalFirst : Value → Value
 | some (.arr elements)=>elements.head?
 | some (.str text)=>text.head?.map fun c=>.str [c]
 | some (.obj fields)=>fields.lookup "0"
 | _=>none

def truthy : Value → Bool
 | none=>false
 | some .null=>false
 | some (.bool value)=>value
 | some (.num value)=>value ≠ 0
 | some (.str value)=>value ≠ []
 | some _=>true

/-- `value ?? fallback`. -/
def nullish (value:Value) (fallback:Json) : Json :=
 match value with
 | none=>fallback
 | some .null=>fallback
 | some value=>value

/-- What a `for … of` goes through; other values are a type error. -/
def iterate : Json → Option (List Json)
 | .arr elements=>some elements
 | .str text=>some (text.map fun c=>.str [c])
 | _=>none

def isWhiteSpace (c:Char) : Bool :=
 c.toNat ∈ [0x20,0xA0,0x1680,0x2028,0x2029,0x202F,0x205F,0x3000,0xFEFF] ∨
  (0x09 ≤ c.toNat ∧ c.toNat ≤ 0x0D) ∨ (0x2000 ≤ c.toNat ∧ c.toNat ≤ 0x200A)

def trimStart (text:List Char) : List Char := text.dropWhile isWhiteSpace

def trim (text:List Char) : List Char := (trimStart (trimStart text).reverse).reverse

/-- The number nearest to a natural one, ties to even; none past the largest. -/
def toNumber (n:ℕ) : Option ℕ :=
 let unit:=2 ^ (n.log2-52)
 let rest:=n % unit
 let rounded:=
  if unit < 2*rest ∨ 2*rest=unit ∧ n / unit % 2=1 then (n / unit+1)*unit
  else n / unit*unit
 if rounded < 2 ^ 1024 then some rounded else none

/-- `Number.parseInt` in base ten, where the result is finite. -/
def parseInt (text:List Char) : Option ℤ :=
 let negative:=(trimStart text).head? = some '-'
 let digits:=
  match trimStart text with
  | '-' :: rest=>rest.takeWhile Char.isDigit
  | '+' :: rest=>rest.takeWhile Char.isDigit
  | rest=>rest.takeWhile Char.isDigit
 if digits=[] then none
 else
  (toNumber (digits.foldl (fun n c=>10*n+(c.toNat - '0'.toNat)) 0)).map fun n=>
   if negative then -(n:ℤ) else n

/-- The length of `\r?\n\r?\n` at the start of a text. -/
def boundaryLength : List Char → Option ℕ
 | '\r' :: '\n' :: '\r' :: '\n' :: _=>some 4
 | '\r' :: '\n' :: '\n' :: _=>some 3
 | '\n' :: '\r' :: '\n' :: _=>some 3
 | '\n' :: '\n' :: _=>some 2
 | _=>none

structure SseFrame where
 event : Option (List Char)
 data : List Char
 id : Option ℤ
 deriving DecidableEq

structure Fields where
 event : Option (List Char)
 id : Option ℤ
 dataLines : List (List Char)

def readLine (fields:Fields) (line:List Char) : Fields :=
 if "event:".toList.isPrefixOf line then
  { fields with event:=some (trim (line.drop "event:".toList.length)) }
 else if "data:".toList.isPrefixOf line then
  { fields with
    dataLines:=fields.dataLines ++ [trimStart (line.drop "data:".toList.length)] }
 else if "id:".toList.isPrefixOf line then
  match parseInt (trim (line.drop "id:".toList.length)) with
  | some n=>{ fields with id:=some n }
  | none=>fields
 else fields

def parseFrame (raw:List Char) : Option SseFrame :=
 let fields:=(raw.splitOn '\n').foldl readLine ⟨none,none,[]⟩
 if fields.dataLines=[] then none
 else some ⟨fields.event,['\n'].intercalate fields.dataLines,fields.id⟩

inductive AiStreamEvent
 | metadata (conversationId model version:Value)
 | textDelta (text:Value)
 | thinkingDelta (text:Value)
 | toolActivity (tool status label message input output ruleId deploymentId error sources:Value)
 | toolCall (callId name:Value) (argsJson:Json)
 | done (finishReason:Value) (usage:Option (Json × Json))
 | error (message:Json) (code:Value)

structure Emission where
 events : List AiStreamEvent
 threw : Bool

namespace Emission

def ofOption : Option (List AiStreamEvent) → Emission
 | some events=>⟨events,false⟩
 | none=>⟨[],true⟩

def andThen (first second:Emission) : Emission :=
 if first.threw then first else ⟨first.events ++ second.events,second.threw⟩

def forEach (emit:Json → Option (List AiStreamEvent)) : List Json → Emission
 | []=>⟨[],false⟩
 | value::values=>(ofOption (emit value)).andThen (forEach emit values)

end Emission

section Interpretation

-- `JSON.parse`, where it does not throw
variable (parse:List Char → Option Json)

def metadataEvents (data:List Char) : Option (List AiStreamEvent) := do
 let payload ← parse data
 let conversationId ← property "conversationId" payload
 let model ← property "model" payload
 let version ← property "version" payload
 if truthy conversationId && truthy model then some [.metadata conversationId model version]
 else some []

def thinkingEvents (data:List Char) : Option (List AiStreamEvent) := do
 let payload ← parse data
 let text ← property "text" payload
 if truthy text then some [.thinkingDelta text] else some []

def errorEvents (data:List Char) : Option (List AiStreamEvent) := do
 let payload ← parse data
 let message ← property "message" payload
 let code ← property "code" payload
 some [.error (nullish message (.str "Upstream LLM call failed".toList)) code]

def activityEvents (activity:Json) : Option (List AiStreamEvent) := do
 let tool ← property "tool" activity
 let status ← property "status" activity
 let label ← property "label" activity
 let message ← property "message" activity
 let input ← property "input" activity
 let output ← property "output" activity
 let ruleId ← property "ruleId" activity
 let deploymentId ← property "deploymentId" activity
 let error ← property "error" activity
 let sources ← property "sources" activity
 some [.toolActivity tool status label message input output ruleId deploymentId error sources]

def activities (data:List Char) : Option (List Json) := do
 let payload ← parse data
 let activities ← property "activities" payload
 iterate (nullish activities (.arr []))

def toolCallEvents (call:Json) : Option (List AiStreamEvent) := do
 let id ← property "id" call
 let function ← property "function" call
 let name ← optionalProperty "name" function
 if truthy id && truthy name then
  let arguments ← property "arguments" function
  some [.toolCall id name (nullish arguments (.str "\x7b\x7d".toList))]
 else some []

def contentEvents (choice:Value) : Option (List AiStreamEvent) := do
 let delta ← property "delta" choice
 let content ← optionalProperty "content" delta
 if truthy content then some [.textDelta content] else some []

def toolCalls (choice:Value) : Option (List Json) := do
 let delta ← property "delta" choice
 let calls ← optionalProperty "tool_calls" delta
 if truthy calls then calls.bind iterate else some []

def doneEvents (chunk choice:Value) : Option (List AiStreamEvent) := do
 let finishReason ← property "finish_reason" choice
 if truthy finishReason then
  let usage ← property "usage" chunk
  if truthy usage then
   let promptTokens ← property "prompt_tokens" usage
   let completionTokens ← property "completion_tokens" usage
   some [.done finishReason (some (nullish promptTokens (.num 0),nullish completionTokens (.num 0)))]
  else some [.done finishReason none]
 else some []

def choiceOf (data:List Char) : Option Value := do
 let chunk ← parse data
 let choices ← property "choices" chunk
 some (optionalFirst choices)

/-- The events of an OpenAI-compatible chunk, up to where something throws. -/
def chunkEvents (data:List Char) : List AiStreamEvent :=
 match choiceOf parse data with
 | none=>[]
 | some choice=>
  if truthy choice then
   let calls:Emission:=
    match toolCalls choice with
    | none=>⟨[],true⟩
    | some calls=>Emission.forEach toolCallEvents calls
   (((Emission.ofOption (contentEvents choice)).andThen calls).andThen
    (Emission.ofOption (doneEvents (parse data) choice))).events
  else []

def interpretFrame (frame:SseFrame) : List AiStreamEvent :=
 if frame.data = "[DONE]".toList then []
 else if frame.event=some "metadata".toList then (metadataEvents parse frame.data).getD []
 else if frame.event=some "thinking_delta".toList then (thinkingEvents parse frame.data).getD []
 else if frame.event=some "error".toList then
  (errorEvents parse frame.data).getD [.error (.str "Upstream LLM call failed".toList) none]
 else if frame.event=some "tool_activity".toList then
  match activities parse frame.data with
  | none=>[]
  | some activities=>(Emission.forEach activityEvents activities).events
 else chunkEvents parse frame.data

end Interpretation

def boundaries : List (List Char) :=
 [['\r', '\n', '\r', '\n'],['\r', '\n', '\n'],['\n', '\r', '\n'],['\n', '\n']]

theorem exists_boundary {text:List Char} {length:ℕ} (h:boundaryLength text=some length) :
  ∃ pattern ∈ boundaries, ∃ tail, text=pattern ++ tail := by
 unfold boundaryLength at h
 split at h
 · exact ⟨['\r', '\n', '\r', '\n'],by decide,_,rfl⟩
 · exact ⟨['\r', '\n', '\n'],by decide,_,rfl⟩
 · exact ⟨['\n', '\r', '\n'],by decide,_,rfl⟩
 · exact ⟨['\n', '\n'],by decide,_,rfl⟩
 · cases h

theorem boundaryLength_append {pattern:List Char} (h:pattern ∈ boundaries) (rest:List Char) :
  boundaryLength (pattern ++ rest) ≠ none := by
 simp only [boundaries,List.mem_cons,List.not_mem_nil,or_false] at h
 rcases h with rfl | rfl | rfl | rfl
 · exact Option.some_ne_none 4
 · exact Option.some_ne_none 3
 · exact Option.some_ne_none 3
 · exact Option.some_ne_none 2

theorem firstMatch_inits : ∀ {pattern:List Char}, pattern ∈ boundaries → ∀ t ∈ pattern.inits,
  boundaryLength t=none → firstMatch boundaryLength t=none := by
 decide +kernel

theorem delimiter_boundary : Delimiter boundaryLength where
 bounds := by
  intro text length h
  unfold boundaryLength at h
  split at h
  · simp only [Option.some.injEq] at h
    simp only [List.length_cons]
    omega
  · simp only [Option.some.injEq] at h
    simp only [List.length_cons]
    omega
  · simp only [Option.some.injEq] at h
    simp only [List.length_cons]
    omega
  · simp only [Option.some.injEq] at h
    simp only [List.length_cons]
    omega
  · cases h
 keeps := by
  intro text length more h
  unfold boundaryLength at h
  split at h
  · exact h
  · exact h
  · exact h
  · exact h
  · cases h
 late := by
  intro text more hnone hsome
  cases hlength:boundaryLength (text ++ more) with
  | none=>exact absurd hlength hsome
  | some length=>
   have ⟨pattern,hpattern,tail,heq⟩:=exists_boundary hlength
   exact firstMatch_eq_none_of_cut heq (boundaryLength_append hpattern)
    (firstMatch_inits hpattern) hnone

end L4Ide.AiStreamEvents
