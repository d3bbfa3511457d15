import L4Ide.Syntax

set_option autoImplicit false

/-!
# Extraction of state graphs from regulative rules

Every obligation leaves its state by a HENCE and a LEST transition. The builder
threads a counter, the states and the transitions, both newest first, and shares
one state for each kind of terminal. Texts in labels come from a printer.
-/
namespace L4Ide.StateGraphExtraction
open Syntax

abbrev StateId := ℕ

inductive StateType where
 | initialState
 | intermediateState
 | terminalFulfilled
 | terminalBreach
 deriving DecidableEq, Repr

structure ContractState where
 stateId : StateId
 stateName : String
 stateType : StateType
 deriving DecidableEq, Repr

structure TransitionLabel where
 labelParty : Option String
 labelModal : Option DeonticModal
 labelAction : String
 labelDeadline : Option String
 labelGuard : Option String
 deriving DecidableEq, Repr

inductive TransitionType where
 | henceTransition
 | lestTransition
 deriving DecidableEq, Repr

structure Transition where
 transFrom : StateId
 transTo : StateId
 transLabel : TransitionLabel
 transType : TransitionType
 deriving DecidableEq, Repr

structure StateGraph where
 sgName : String
 sgStates : List ContractState
 sgTransitions : List Transition
 sgInitialState : StateId
 deriving DecidableEq, Repr

structure ExtractState where
 esNextId : StateId
 esStates : List ContractState
 esTransitions : List Transition

/-- The layout of expressions and literals, which only labels and names of
    states hold. -/
structure Printer where
 prettyExpr : Expr Resolved → String
 prettyLit : Lit → String

def resolvedToText (r:Resolved) : String := nameToText r.getOriginal

def newState (name:String) (stype:StateType) (st:ExtractState) : StateId × ExtractState :=
 (st.esNextId,
  { st with
    esNextId:=st.esNextId+1
    esStates:=⟨st.esNextId,name,stype⟩::st.esStates })

def addTransition (fromId toId:StateId) (label:TransitionLabel) (ttype:TransitionType)
  (st:ExtractState) : ExtractState :=
 { st with esTransitions:=⟨fromId,toId,label,ttype⟩::st.esTransitions }

def getTerminalState (name:String) (stype:StateType) (st:ExtractState) :
  StateId × ExtractState :=
 match st.esStates.find? fun s=>s.stateName == name && s.stateType == stype with
 | some s=>(s.stateId,st)
 | none=>newState name stype st

inductive Terminal where
 | fulfilled
 | breach
 deriving DecidableEq, Repr

def Terminal.name : Terminal → String
 | .fulfilled=> "Fulfilled"
 | .breach=> "Breach"

def Terminal.type : Terminal → StateType
 | .fulfilled=>.terminalFulfilled
 | .breach=>.terminalBreach

def Terminal.state (t:Terminal) (st:ExtractState) : StateId × ExtractState :=
 getTerminalState t.name t.type st

/-- A transition from `fromState` into a terminal. -/
def Terminal.link (t:Terminal) (fromState:StateId) (label:TransitionLabel)
  (ttype:TransitionType) (st:ExtractState) : ExtractState :=
 let (toId,st1):=t.state st
 addTransition fromState toId label ttype st1

def isFulfilled (name:Resolved) : Bool := resolvedToText name == "Fulfilled"

inductive Target where
 | targetFulfilled
 | targetBreach
 | targetDeonton (d:Deonton Resolved)
 | targetOther

def classifyTarget : Expr Resolved → Target
 | .app name [] _=>if isFulfilled name then .targetFulfilled else .targetOther
 | .breach _ _=>.targetBreach
 | .refuse _=>.targetOther
 | .regulative obl=>.targetDeonton obl
 | .where_ e _=>classifyTarget e
 | .letIn _ e=>classifyTarget e
 | _=>.targetOther

section Extract
variable (pr:Printer)

def prettyPattern : Pattern Resolved → String
 | .patVar n=>resolvedToText n
 | .patApp n args _=>resolvedToText n ++ if args.isEmpty then "" else " ..."
 | .patCons h _ _=>prettyPattern h ++ " ..."
 | .patExpr e=>pr.prettyExpr e
 | .patLit l=>pr.prettyLit l

def modalText : DeonticModal → String
 | .dMust=> "must"
 | .dMay=> "may"
 | .dMustNot=> "must not"
 | .dDo=> "do"

def describeDeonton (d:Deonton Resolved) : String :=
 pr.prettyExpr d.party ++ " " ++ modalText d.action.modal ++ " " ++ prettyPattern pr d.action.action

def deontonLabel (d:Deonton Resolved) : TransitionLabel where
 labelParty:=some (pr.prettyExpr d.party)
 labelModal:=some d.action.modal
 labelAction:=prettyPattern pr d.action.action
 labelDeadline:=d.due.map pr.prettyExpr
 labelGuard:=d.action.provided.map pr.prettyExpr

def actionLabel (text:String) : TransitionLabel := ⟨none,none,text,none,none⟩

mutual

def extractExpr (mFromState:Option StateId) : Expr Resolved → ExtractState → ExtractState
 | .regulative obl, st=>extractDeonton mFromState obl st
 | .rAnd e1 e2, st=>extractExpr mFromState e2 (extractExpr mFromState e1 st)
 | .rOr e1 e2, st=>extractExpr mFromState e2 (extractExpr mFromState e1 st)
 | .where_ e _, st=>extractExpr mFromState e st
 | .letIn _ e, st=>extractExpr mFromState e st
 | .app name [] _, st=>if isFulfilled name then (Terminal.fulfilled.state st).2 else st
 | .breach _ _, st=>(Terminal.breach.state st).2
 | .refuse _, st=>st
 | _, st=>st

def extractDeonton (mFromState:Option StateId) : Deonton Resolved → ExtractState → ExtractState
 | .mkDeonton party action due hence lest, st=>
  let label:=deontonLabel pr (.mkDeonton party action due hence lest)
  let (fromState,st0):=match mFromState with
   | some sid=>(sid,st)
   | none=>newState "initial" .initialState st
  let st1:=match hence with
   | some henceExpr=>extractTarget fromState label .henceTransition "next" henceExpr st0
   | none=>Terminal.fulfilled.link fromState label .henceTransition st0
  match lest with
  | some lestExpr=>
   extractTarget fromState (actionLabel "timeout") .lestTransition "failure" lestExpr st1
  | none=>
   match action.modal with
   | .dMay=>st1
   | .dMust=>Terminal.breach.link fromState (actionLabel "timeout") .lestTransition st1
   | .dMustNot=>Terminal.breach.link fromState (actionLabel "violation") .lestTransition st1
   | .dDo=>st1

/-- The transition into a HENCE or a LEST expression, and the expression from
    there on. Bindings around the expression are looked through, as
    `classifyTarget` does. -/
def extractTarget (fromState:StateId) (label:TransitionLabel) (ttype:TransitionType)
  (otherName:String) : Expr Resolved → ExtractState → ExtractState
 | .app name [] _, st=>
  if isFulfilled name then Terminal.fulfilled.link fromState label ttype st
  else
   -- a name that is no terminal adds nothing from its own state on
   let (next,st1):=newState otherName .intermediateState st
   addTransition fromState next label ttype st1
 | .breach _ _, st=>Terminal.breach.link fromState label ttype st
 | .regulative obl, st=>
  let (next,st1):=newState (describeDeonton pr obl) .intermediateState st
  extractDeonton (some next) obl (addTransition fromState next label ttype st1)
 | .where_ e _, st=>extractTarget fromState label ttype otherName e st
 | .letIn _ e, st=>extractTarget fromState label ttype otherName e st
 | .rAnd e1 e2, st=>
  let (next,st1):=newState otherName .intermediateState st
  extractExpr (some next) e2
   (extractExpr (some next) e1 (addTransition fromState next label ttype st1))
 | .rOr e1 e2, st=>
  let (next,st1):=newState otherName .intermediateState st
  extractExpr (some next) e2
   (extractExpr (some next) e1 (addTransition fromState next label ttype st1))
 | _, st=>
  let (next,st1):=newState otherName .intermediateState st
  addTransition fromState next label ttype st1

end

def runExtraction (name:String) (expr:Expr Resolved) : StateGraph :=
 let finalState:=extractExpr pr none expr ⟨0,[],[]⟩
 { sgName:=name
   sgStates:=finalState.esStates.reverse
   sgTransitions:=finalState.esTransitions.reverse
   sgInitialState:=0 }

end Extract

def findRegulativeExpr : Expr Resolved → Option (Expr Resolved)
 | .regulative d=>some (.regulative d)
 | .rAnd e1 e2=>some (.rAnd e1 e2)
 | .rOr e1 e2=>some (.rOr e1 e2)
 | .where_ e _=>findRegulativeExpr e
 | .letIn _ e=>findRegulativeExpr e
 | _=>none

end L4Ide.StateGraphExtraction
