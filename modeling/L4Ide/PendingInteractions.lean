import Mathlib.Data.List.Basic
import Mathlib.Data.List.Nodup
import Mathlib.Data.List.Perm.Basic

set_option autoImplicit false

/-!
# Interactions that wait for the user

The book-keeping for tool approvals and questions: what is waiting, under which call and in
which turn, and the decisions that were made before anyone asked. A promise is known by its
number; what an operation settles is returned with the new state.
-/
namespace L4Ide.PendingInteractions

inductive Decision
 | allow
 | deny
 deriving DecidableEq

structure ToolCallContext where
 conversationId : String
 turnId : String
 deriving DecidableEq

/-- An approval or a question that is waiting: its promise and where it was raised. -/
structure Waiting where
 promise : ℕ
 ctx : ToolCallContext
 deriving DecidableEq

structure Early where
 decision : Decision
 conversationId : Option String
 deriving DecidableEq

/-- A map in insertion order; setting a key that is present keeps its place. -/
abbrev JsMap (V:Type) := List (String × V)

section JsMap

variable {V:Type}

def JsMap.set (key:String) (value:V) (m:JsMap V) : JsMap V :=
 if m.any fun entry=>entry.1=key then
  m.map fun entry=>if entry.1=key then (key,value) else entry
 else m ++ [(key,value)]

def JsMap.delete (key:String) (m:JsMap V) : JsMap V :=
 m.filter fun entry=>entry.1 ≠ key

end JsMap

structure Pending where
 approvals : JsMap Waiting
 questions : JsMap Waiting
 early : JsMap Early
 deriving DecidableEq

inductive Settled
 | approval (promise:ℕ) (decision:Decision)
 | question (promise:ℕ) (answer:String)
 deriving DecidableEq

def Settled.promise : Settled → ℕ
 | .approval p _=>p
 | .question p _=>p

namespace Pending

def empty : Pending := ⟨[],[],[]⟩

/-- Wait for the user's decision on a tool call: a decision made before is taken and
    settles the new promise at once. -/
def requestApproval (callId:String) (ctx:ToolCallContext) (promise:ℕ) (p:Pending) :
  Pending × Option Decision :=
 match p.early.lookup callId with
 | some early=>({ p with early:=JsMap.delete callId p.early },some early.decision)
 | none=>({ p with approvals:=JsMap.set callId ⟨promise,ctx⟩ p.approvals },none)

/-- Record the user's decision; one on which nobody waits is kept for later. -/
def decide (callId:String) (decision:Decision) (conversationId:Option String)
  (p:Pending) : Pending × List Settled :=
 match p.approvals.lookup callId with
 | none=>({ p with early:=JsMap.set callId ⟨decision,conversationId⟩ p.early },[])
 | some pending=>
  ({ p with approvals:=JsMap.delete callId p.approvals },
   [.approval pending.promise decision])

def askUser (callId:String) (ctx:ToolCallContext) (promise:ℕ) (p:Pending) : Pending :=
 { p with questions:=JsMap.set callId ⟨promise,ctx⟩ p.questions }

def answer (callId:String) (text:String) (p:Pending) : Pending × List Settled :=
 match p.questions.lookup callId with
 | none=>(p,[])
 | some pending=>
  ({ p with questions:=JsMap.delete callId p.questions },[.question pending.promise text])

def cancelWhere (matching:ToolCallContext → Bool) (p:Pending) : Pending × List Settled :=
 ({ p with
   approvals:=p.approvals.filter fun entry=>!matching entry.2.ctx
   questions:=p.questions.filter fun entry=>!matching entry.2.ctx },
  (p.approvals.filter fun entry=>matching entry.2.ctx).map
    (fun entry=>.approval entry.2.promise .deny) ++
   (p.questions.filter fun entry=>matching entry.2.ctx).map
    fun entry=>.question entry.2.promise "")

/-- Cancel what a conversation raised, and drop the early decisions attributed to it. -/
def cancelConversation (conversationId:String) (p:Pending) : Pending × List Settled :=
 cancelWhere (fun ctx=>ctx.conversationId=conversationId)
  { p with early:=p.early.filter fun entry=>entry.2.conversationId ≠ some conversationId }

def conversationsOf (turnId:String) (p:Pending) : List String :=
 ((p.approvals ++ p.questions).filter fun entry=>entry.2.ctx.turnId=turnId).map
  fun entry=>entry.2.ctx.conversationId

/-- Cancel what a turn raised, and drop the early decisions attributed to a conversation in
    which something of the turn was waiting. -/
def cancelTurn (turnId:String) (p:Pending) : Pending × List Settled :=
 cancelWhere (fun ctx=>ctx.turnId=turnId)
  { p with
    early:=p.early.filter fun entry=>
     match entry.2.conversationId with
     | none=>true
     | some conversationId=>!(p.conversationsOf turnId).elem conversationId }

def cancelAll (p:Pending) : Pending × List Settled :=
 cancelWhere (fun _=>true) { p with early:=[] }

end Pending

end L4Ide.PendingInteractions
