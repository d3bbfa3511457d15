import L4Ide.ValueLazy
import Mathlib.Computability.StateTransition
import Mathlib.Data.Rat.Floor

set_option autoImplicit false

/-!
# The lazy machine

One step of the machine, written once for every store of thunks: `Runtime` is what
the machine asks of its store and of its host.
-/
namespace L4Ide.Machine
open Syntax Environment ValueLazy

/-- A value without references, as a builtin of the host takes and returns it. -/
inductive Datum where
 | number (q:ℚ)
 | string (s:String)
 | date (day:ℤ)
 | time (tod:TimeOfDay)
 | dateTime (utc:UTCTime) (tz:String)
 | nil
 | cons (hd tl:Datum)
 | con (n:Resolved) (fields:List Datum)
 deriving Inhabited

inductive HostFault where
 | runtimeTypeError (msg:String)
 | userError (msg:String)
 deriving Inhabited

abbrev HostResult := Except HostFault Datum

/-- Clock, text, calendar, floating point and network functions. -/
structure Host where
 prettyRatio : ℚ → String
 showDouble : ℚ → String
 formatDateIso : ℤ → String
 formatDateParts : ℤ → ℤ → ℤ → String
 formatTimeOfDay : TimeOfDay → String
 formatDateTimeIso : UTCTime → String → String
 evalNullaryBuiltin : NullaryBuiltinFun → HostResult
 runUnary : UnaryBuiltinFun → Option (Type' Resolved) → Datum → HostResult
 runTernary : TernaryBuiltinFun → Datum → Datum → Datum → HostResult
 runBinary : BinOp → Datum → Datum → HostResult
 entityInfo : Unique → Option (Option (Type' Resolved))
 deriving Inhabited

inductive Poked (R:Type) where
 | whnf (val:Value R)
 | blackhole (e:RExpr)
 | enter (e:RExpr) (env:Env R)

/-- The store of thunks with its operations, the limit on frames, the printer and the host. -/
structure Runtime (R H:Type) where
 allocateRecursive : RExpr → Env R → H → R × H
 allocateValue : Value R → H → R × H
 evalRecLocalDecls : Env R → List (LocalDecl Resolved) → H → Env R × H
 readThunk : R → H → Option (Value R)
 pokeThunk : R → H → Poked R × H
 updateThunkToWHNF : R → Value R → H → H
 unwindThunk : R → H → H
 maximumFrameDepth : Option ℕ
 prettyLayout : Value R → String
 prettyReference : R → String
 host : Host

structure EvalState (R H:Type) where
 heap : H
 stack : List (Frame R)

abbrev Eval (R H A:Type) := EStateM (EvalException R) (EvalState R H) A

section Primitives
variable {R H A:Type} (rt:Runtime R H)

/-- If the frame is an `updateThunk` frame, take the thunk's blackhole mark back. -/
def unwindThunk : Frame R → H → H
 | .updateThunk rf, h=>rt.unwindThunk rf h
 | _, h=>h

def unwindStack : List (Frame R) → H → H
 | [], h=>h
 | f::fs, h=>unwindStack fs (unwindThunk rt f h)

def raiseException (e:EvalException R) : Eval R H A :=
 fun s=>.error e ⟨unwindStack rt s.stack s.heap,[]⟩

def internalException (e:InternalEvalException) : Eval R H A :=
 raiseException rt (.internalEvalException e)

def runtimeTypeError (msg:String) : Eval R H A :=
 internalException rt (.runtimeTypeError msg)

def userException (e:UserEvalException R) : Eval R H A :=
 raiseException rt (.userEvalException e)

def stuckOnAssumed (n:Resolved) : Eval R H A := userException rt (.stuck n)

def refuseWith (r:Refusal) : Eval R H A := raiseException rt (.refusalException r)

def stackIsFull (size:ℕ) : Bool :=
 match rt.maximumFrameDepth with
 | none=>false
 | some depth=>decide (depth ≤ size)

def pushFrame (f:Frame R) : Eval R H Unit := fun s=>
 if stackIsFull rt s.stack.length then userException rt .stackOverflow s
 else .ok () ⟨s.heap,f::s.stack⟩

def withPoppedFrame (k:Option (Frame R) → Eval R H A) : Eval R H A := fun s=>
 match s.stack with
 | []=>k none s
 | f::fs=>k (some f) ⟨s.heap,fs⟩

def onHeap (op:H → A × H) : Eval R H A := fun s=>.ok (op s.heap).1 ⟨(op s.heap).2,s.stack⟩

def continueExpr (env:Env R) (e:RExpr) : Eval R H (Config R) := pure (.forwardMachine env e)

def continueBranches (clauses:Option PmGroup) (r:R) (env:Env R)
  (branches:List (Branch Resolved)) : Eval R H (Config R) :=
 pure (.matchBranchesMachine clauses r env branches)

def continuePattern (r:R) (env:Env R) (p:Pattern Resolved) : Eval R H (Config R) :=
 pure (.matchPatternMachine r env p)

def continueBackward (val:Value R) : Eval R H (Config R) := pure (.backwardMachine val)

def continueRef (r:R) : Eval R H (Config R) := pure (.evalRefMachine r)

def continueDone (val:Value R) : Eval R H (Config R) := pure (.doneMachine val)

def consideredClauses : Option PmSynthetic → Option PmGroup
 | some (.pmConsider g _ _)=>some g
 | _=>none

def lookupTerm (env:Env R) (n:Resolved) : Option R := env.lookup n.getUnique

def expectTerm (env:Env R) (n:Resolved) : Eval R H R :=
 match lookupTerm env n with
 | none=>internalException rt (.runtimeScopeError n)
 | some rf=>pure rf

def allocateValue (val:Value R) : Eval R H R := onHeap (rt.allocateValue val)

def allocate_ (env:Env R) : RExpr → Eval R H R
 | .app n [] _=>expectTerm rt env n
 | e=>onHeap (rt.allocateRecursive e env)

def maybeEvaluate (env:Env R) : MaybeEvaluated R → Eval R H (Config R)
 | .inl e=>continueExpr env e
 | .inr val=>continueBackward val

def isQuantifier (otn:OptionallyTypedName Resolved) : Bool :=
 match otn.type with
 | some .type=>true
 | _=>false

def matchGivens' (ns:List Resolved) (f:Frame R) (rs:List R) : Eval R H (Env R) := do
 if ns.length=rs.length then
  pure (List.zipWith (fun n r=>(n.getUnique,r)) ns rs).reverse
 else
  pushFrame rt f
  runtimeTypeError rt "given signatures' values' lengths do not match"

def matchGivens (givens:GivenSig Resolved) (f:Frame R) (rs:List R) : Eval R H (Env R) :=
 matchGivens' rt ((givens.filter fun otn=>!isQuantifier otn).map (·.name)) f rs

/-- Unwinds the stack until it finds the enclosing pattern match and then resumes. -/
def unwindToMatch : List (Frame R) → Eval R H (Config R)
 | [], s=>internalException rt .unhandledPatternMatch ⟨s.heap,[]⟩
 | .considerWhen1 clauses scrutinee _ branches env::fs, s=>
  continueBranches clauses scrutinee env branches ⟨s.heap,fs⟩
 | .contractFrame (.contract11 g)::fs, s=>
  (do
   let newTime ← allocateValue rt g.time
   pushFrame rt (.contractFrame (.contract1 { g with party:=.inr g.party,time:=newTime }))
   continueRef g.events : Eval R H (Config R)) ⟨s.heap,fs⟩
 | _::fs, s=>unwindToMatch fs s

def patternMatchFailure : Eval R H (Config R) := fun s=>unwindToMatch rt s.stack s

end Primitives

section Forward
variable {R H:Type} (rt:Runtime R H)

def desugarMultiWayIf : List (RExpr × RExpr) → RExpr → RExpr
 | [], o=>o
 | (c,f)::es', o=>.ifThenElse c f (desugarMultiWayIf es' o)

def desugarEvent : Event Resolved → RExpr
 | .mkEvent party act timestamp=>.app eventCRef [party,act,timestamp] none

def runLit : Lit → Value R
 | .numericLit q=>.valNumber q
 | .stringLit s=>.valString s

def allocateMaybe (env:Env R) : Option RExpr → Eval R H (Option R)
 | none=>pure none
 | some e=>do
  let r ← allocate_ rt env e
  pure (some r)

def pushBinOp1 (op:BinOp) (env:Env R) (e1 e2:RExpr) : Eval R H (Config R) := do
 pushFrame rt (.binOp1 op e2 env)
 continueExpr env e1

def forwardExpr (env:Env R) : RExpr → Eval R H (Config R)
 | .rAnd e1 e2=>continueBackward (.valROp env .valRAnd (.inl e1) (.inl e2))
 | .rOr e1 e2=>continueBackward (.valROp env .valROr (.inl e1) (.inl e2))
 | .and e1 e2=>continueExpr env (.ifThenElse e1 e2 falseExpr)
 | .or e1 e2=>continueExpr env (.ifThenElse e1 trueExpr e2)
 | .implies e1 e2=>continueExpr env (.ifThenElse e1 e2 trueExpr)
 | .not e=>continueExpr env (.ifThenElse e falseExpr trueExpr)
 | .equals e1 e2=>pushBinOp1 rt .binOpEquals env e1 e2
 | .plus e1 e2=>pushBinOp1 rt .binOpPlus env e1 e2
 | .minus e1 e2=>pushBinOp1 rt .binOpMinus env e1 e2
 | .times e1 e2=>pushBinOp1 rt .binOpTimes env e1 e2
 | .dividedBy e1 e2=>pushBinOp1 rt .binOpDividedBy env e1 e2
 | .modulo e1 e2=>pushBinOp1 rt .binOpModulo env e1 e2
 | .leq e1 e2=>pushBinOp1 rt .binOpLeq env e1 e2
 | .geq e1 e2=>pushBinOp1 rt .binOpGeq env e1 e2
 | .lt e1 e2=>pushBinOp1 rt .binOpLt env e1 e2
 | .gt e1 e2=>pushBinOp1 rt .binOpGt env e1 e2
 | .proj e l=>continueExpr env (.app l [e] none)
 | .cons e1 e2=>do
  let rf1 ← allocate_ rt env e1
  let rf2 ← allocate_ rt env e2
  continueBackward (.valCons rf1 rf2)
 | .lam givens e=>continueBackward (.valClosure givens e env)
 | .app n [] _=>do
  let rf ← expectTerm rt env n
  continueRef rf
 | .app n (e::es) expected=>do
  let rs ← (e::es).mapM (allocate_ rt env)
  pushFrame rt (.app1 rs expected)
  continueExpr env (.var n)
 | .appNamed n [] _ expected=>continueExpr env (.app n [] expected)
 | .appNamed _ (_::_) none _=>
  runtimeTypeError rt "named application where the order of arguments is not resolved"
 | .appNamed n (ne::nes) (some order) expected=>
  -- move expressions into order, drop names
  let es:=((order.zip (ne::nes)).mergeSort fun a b=>a.1 ≤ b.1).map fun p=>p.2.2
  continueExpr env (.app n es expected)
 | .ifThenElse e1 e2 e3=>do
  pushFrame rt (.ifThenElse1 e2 e3 env)
  continueExpr env e1
 | .multiWayIf es e=>continueExpr env (desugarMultiWayIf es e)
 | .consider e branches generated=>do
  let rf ← allocate_ rt env e
  continueBranches (consideredClauses generated) rf env branches
 | .lit l=>continueBackward (runLit l)
 | .percent e=>do
  pushFrame rt (.unaryBuiltin0 .unaryPercent none)
  continueExpr env e
 | .list []=>continueBackward .valNil
 | .list (e::es)=>continueExpr env (.cons e (.list es))
 | .where_ e ds=>do
  let env' ← onHeap (rt.evalRecLocalDecls env ds)
  continueExpr (env' ++ env) e
 | .letIn ds e=>do
  let env' ← onHeap (rt.evalRecLocalDecls env ds)
  continueExpr (env' ++ env) e
 | .regulative (.mkDeonton party action due followup lest)=>
  continueBackward
   (.valObligation env (.inl party) action (.inl due) (followup.getD fulfilExpr) lest)
 | .event ev=>continueExpr env (desugarEvent ev)
 | .fetch e=>do
  pushFrame rt (.unaryBuiltin0 .unaryFetch none)
  continueExpr env e
 | .env e=>do
  pushFrame rt (.unaryBuiltin0 .unaryEnv none)
  continueExpr env e
 | .post e1 e2 e3=>do
  pushFrame rt (.post1 e2 e3 env)
  continueExpr env e1
 | .concat []=>continueBackward (.valString "")
 | .concat (e::es)=>do
  pushFrame rt (.concatFrame [] es env)
  continueExpr env e
 | .asString e=>do
  pushFrame rt .asStringFrame
  continueExpr env e
 | .breach party reason=>do
  let partyRef ← allocateMaybe rt env party
  let reasonRef ← allocateMaybe rt env reason
  continueBackward (.valBreached (.explicitBreach partyRef reasonRef))
 | .refuse (.lit (.stringLit txt))=>refuseWith rt ⟨txt⟩
 | .refuse _=>runtimeTypeError rt "the message of a REFUSE is not a string literal"
 | .inert _ ctx=>
  match ctx with
  | .inertCtxAnd=>continueBackward (valBool true)
  | .inertCtxOr=>continueBackward (valBool false)
  | .inertCtxNone=>continueBackward (valBool true)

end Forward

section Builtins
variable {R H:Type} (rt:Runtime R H)

inductive AtomKind where
 | string
 | number
 | date
 | time
 | dateTime

/-- The value as a datum, where it is of the kind; a number also serves as a date. -/
def atomOf : AtomKind → Value R → Option Datum
 | .string, .valString s=>some (.string s)
 | .number, .valNumber q=>some (.number q)
 | .date, .valDate d=>some (.date d)
 | .date, .valNumber q=>some (.number q)
 | .time, .valTime t=>some (.time t)
 | .dateTime, .valDateTime u tz=>some (.dateTime u tz)
 | _, _=>none

def AtomKind.expected : AtomKind → String
 | .string=> "expected a STRING but got: "
 | .number=> "expected a NUMBER but got: "
 | .date=> "expected a DATE but got: "
 | .time=> "Expected TIME value but got: "
 | .dateTime=> "Expected DATETIME value but got: "

def expectAtom (kind:AtomKind) (val:Value R) : Eval R H Datum :=
 match atomOf kind val with
 | some d=>pure d
 | none=>runtimeTypeError rt (kind.expected ++ rt.prettyLayout val)

def expectNumber : Value R → Eval R H ℚ
 | .valNumber q=>pure q
 | val=>runtimeTypeError rt ("expected a NUMBER but got: " ++ rt.prettyLayout val)

def expectString : Value R → Eval R H String
 | .valString s=>pure s
 | val=>runtimeTypeError rt ("expected a STRING but got: " ++ rt.prettyLayout val)

def isInteger (q:ℚ) : Option ℤ := if q.den=1 then some q.num else none

def expectInteger (op:BinOp) (q:ℚ) : Eval R H ℤ :=
 match isInteger q with
 | none=>userException rt (.notAnInteger op q)
 | some i=>pure i

def expectIntegerNamed (label:String) (q:ℚ) : Eval R H ℤ :=
 match isInteger q with
 | some i=>pure i
 | none=>runtimeTypeError rt
   ("Expected an integer " ++ label ++ " but got: " ++ rt.host.prettyRatio q)

def expect1 : List R → Eval R H R
 | [x]=>pure x
 | xs=>runtimeTypeError rt ("Expected 1 argument, but got " ++ toString xs.length)

def expect2 : List R → Eval R H (R × R)
 | [x,y]=>pure (x,y)
 | xs=>runtimeTypeError rt ("Expected 2 arguments, but got " ++ toString xs.length)

def expect3 : List R → Eval R H (R × R × R)
 | [x,y,z]=>pure (x,y,z)
 | xs=>runtimeTypeError rt ("Expected 3 arguments, but got " ++ toString xs.length)

mutual

def allocateDatum : Datum → Eval R H (Value R)
 | .number q=>pure (.valNumber q)
 | .string s=>pure (.valString s)
 | .date d=>pure (.valDate d)
 | .time t=>pure (.valTime t)
 | .dateTime u tz=>pure (.valDateTime u tz)
 | .nil=>pure .valNil
 | .cons hd tl=>do
  let hdVal ← allocateDatum hd
  let hdRef ← allocateValue rt hdVal
  let tlVal ← allocateDatum tl
  let tlRef ← allocateValue rt tlVal
  pure (.valCons hdRef tlRef)
 | .con n fields=>do
  let rs ← allocateData fields
  pure (.valConstructor n rs)

def allocateData : List Datum → Eval R H (List R)
 | []=>pure []
 | d::ds=>do
  let val ← allocateDatum d
  let r ← allocateValue rt val
  let rs ← allocateData ds
  pure (r::rs)

end

def runHost : HostResult → Eval R H (Config R)
 | .error (.runtimeTypeError msg)=>runtimeTypeError rt msg
 | .error (.userError msg)=>userException rt (.userError msg)
 | .ok d=>do
  let val ← allocateDatum rt d
  continueBackward val

def unaryKind : UnaryBuiltinFun → AtomKind
 | .unaryStringLength | .unaryToUpper | .unaryToLower | .unaryTrim | .unaryFetch | .unaryEnv
 | .unaryJsonEncode | .unaryJsonDecode | .unaryDateValue | .unaryTimeValue | .unaryToString
 | .unaryToNumber | .unaryToDate | .unaryToTime | .unaryToDatetime=>.string
 | .unaryDateSerial | .unaryDateDay | .unaryDateMonth | .unaryDateYear=>.date
 | .unaryTimeHour | .unaryTimeMinute | .unaryTimeSecond | .unaryTimeToSerial=>.time
 | .unaryDatetimeDate | .unaryDatetimeTime | .unaryDatetimeSerial | .unaryDatetimeTzName=>
  .dateTime
 | .unaryIsInteger | .unaryRound | .unaryCeiling | .unaryFloor | .unaryPercent | .unarySqrt
 | .unaryLn | .unaryLog10 | .unarySin | .unaryCos | .unaryTan | .unaryAsin | .unaryAcos
 | .unaryAtan | .unaryDateFromSerial | .unaryTimeFromSerial=>.number

def ternaryKinds : TernaryBuiltinFun → AtomKind × AtomKind × AtomKind
 | .ternarySubstring=>(.string,.number,.number)
 | .ternaryReplace | .ternaryPost=>(.string,.string,.string)
 | .ternaryDateFromDMY | .ternaryTimeFromHMS=>(.number,.number,.number)
 | .ternaryDatetimeFromDTZ=>(.date,.time,.string)

def runTernaryBuiltin (fn:TernaryBuiltinFun) (val1 val2 val3:Value R) :
  Eval R H (Config R) := do
 let d1 ← expectAtom rt (ternaryKinds fn).1 val1
 let d2 ← expectAtom rt (ternaryKinds fn).2.1 val2
 let d3 ← expectAtom rt (ternaryKinds fn).2.2 val3
 runHost rt (rt.host.runTernary fn d1 d2 d3)

def runPost (val1 val2 val3:Value R) : Eval R H (Config R) :=
 runTernaryBuiltin rt .ternaryPost val1 val2 val3

def runConcat (vals:List (Value R)) : Eval R H (Config R) := do
 let strings ← vals.mapM (expectString rt)
 continueBackward (.valString (String.join strings))

def isDateConstructor (con:Resolved) : Bool :=
 (nameToText con.getActual).toUpper == "DATE"

def coerceToString (val:Value R) : Eval R H (Config R) :=
 let incompatible:Eval R H (Config R):=userException rt (.userError
  ("AS STRING/TOSTRING can only convert NUMBER, BOOLEAN, DATE, TIME, DATETIME, or STRING to STRING, but found: "
   ++ rt.prettyLayout val))
 match boolView val with
 | some b=>continueBackward (.valString (if b then "TRUE" else "FALSE"))
 | none=>
  match val with
  | .valNumber n=>continueBackward (.valString (rt.host.prettyRatio n))
  | .valString s=>continueBackward (.valString s)
  | .valDate day=>continueBackward (.valString (rt.host.formatDateIso day))
  | .valTime tod=>continueBackward (.valString (rt.host.formatTimeOfDay tod))
  | .valDateTime utc tz=>continueBackward (.valString (rt.host.formatDateTimeIso utc tz))
  | .valConstructor con fields=>
   if isDateConstructor con then
    match fields with
    | [dayRef,monthRef,yearRef]=>do
     pushFrame rt (.toStringDate1 monthRef yearRef)
     continueRef dayRef
    | _=>runtimeTypeError rt
      "DATE values must have three fields (day, month, year) for string conversion"
   else incompatible
  | _=>incompatible

def runDateToString (dayNum monthNum yearNum:ℚ) : Eval R H (Config R) := do
 let dayInt ← expectIntegerNamed rt "day" dayNum
 let monthInt ← expectIntegerNamed rt "month" monthNum
 let yearInt ← expectIntegerNamed rt "year" yearNum
 continueBackward (.valString (rt.host.formatDateParts yearInt monthInt dayInt))

def escapeJson (s:String) : String :=
 String.join (s.toList.map fun c=>
  if c = '"' then "\\\""
  else if c = '\\' then "\\\\"
  else if c = '\n' then "\\n"
  else if c = '\r' then "\\r"
  else if c = '\t' then "\\t"
  else String.singleton c)

def extractFieldNames : Type' Resolved → List String
 | .forall_ _ t=>extractFieldNames t
 | .fun_ args _=>args.filterMap fun a=>a.1.map fun n=>nameToText n.getActual
 | _=>[]

/-- Encode an L4 value to JSON string; lists and constructors with fields need frames. -/
def encodeValueToJson (val:Value R) : Eval R H String :=
 match boolView val with
 | some b=>pure (if b then "true" else "false")
 | none=>
  match val with
  | .valString s=>pure ("\"" ++ escapeJson s ++ "\"")
  | .valNumber n=>pure (if n.den=1 then toString n.num else rt.host.showDouble n)
  | .valNil=>pure "[]"
  | .valCons _ _=>runtimeTypeError rt
    "Internal error: ValCons should be handled by frame-based evaluation in runBuiltin"
  | .valConstructor con []=>
   let name:=nameToText con.getActual
   if name = "NOTHING" then pure "null"
   else if name = "TRUE" then pure "true"
   else if name = "FALSE" then pure "false"
   else pure ("\"" ++ escapeJson name ++ "\"")
  | .valConstructor con _=>runtimeTypeError rt
    ("Internal error: Constructor encoding should be handled in runBuiltin, not encodeValueToJson: "
     ++ nameToText con.getActual)
  | val=>runtimeTypeError rt ("Cannot encode value to JSON: " ++ rt.prettyLayout val)

def encodeFields (con:Resolved) (fields:List R) : Eval R H (Config R) :=
 let conName:=nameToText con.getActual
 match rt.host.entityInfo con.getUnique with
 | none=>runtimeTypeError rt ("Cannot find constructor in entity info: " ++ conName)
 | some none=>runtimeTypeError rt
   ("Expected constructor term but got different entity type for: " ++ conName)
 | some (some conType)=>
  let fieldNames:=extractFieldNames conType
  match fieldNames, fields with
  | [], [field]=>do
   pushFrame rt (.jsonEncodeConstructorFrame [] conName [])
   pushFrame rt (.unaryBuiltin0 .unaryJsonEncode none)
   continueRef field
  | _, _=>
   if fieldNames.length ≠ fields.length then
    runtimeTypeError rt ("Field count mismatch for constructor " ++ conName ++ ": expected "
     ++ toString fieldNames.length ++ " but got " ++ toString fields.length)
   else
    match fieldNames.zip fields with
    | []=>do
     let jsonStr ← encodeValueToJson rt (.valString conName)
     continueBackward (.valString jsonStr)
    | (fn,fr)::rest=>do
     pushFrame rt (.jsonEncodeConstructorFrame [] fn rest)
     pushFrame rt (.unaryBuiltin0 .unaryJsonEncode none)
     continueRef fr

def runJsonEncode : Value R → Eval R H (Config R)
 | .valCons headRef tailRef=>do
  pushFrame rt (.jsonEncodeListFrame [] tailRef false)
  continueRef headRef
 | .valNil=>continueBackward (.valString "[]")
 | .valConstructor con fields=>
  let name:=nameToText con.getActual
  match fields with
  | []=>
   if name = "NOTHING" then continueBackward (.valString "null")
   else if name = "TRUE" then continueBackward (.valString "true")
   else if name = "FALSE" then continueBackward (.valString "false")
   else encodeFields rt con []
  | [field]=>
   if name = "JUST" then do
    pushFrame rt (.unaryBuiltin0 .unaryJsonEncode none)
    continueRef field
   else encodeFields rt con [field]
  | fields=>encodeFields rt con fields
 | val=>do
  let jsonStr ← encodeValueToJson rt val
  continueBackward (.valString jsonStr)

def runBuiltin (val:Value R) (op:UnaryBuiltinFun) (ty:Option (Type' Resolved)) :
  Eval R H (Config R) :=
 match op with
 | .unaryJsonEncode=>runJsonEncode rt val
 | .unaryToString=>coerceToString rt val
 | .unaryIsInteger=>do
  let q ← expectNumber rt val
  continueBackward (valBool (isInteger q).isSome)
 | .unaryCeiling=>do
  let q ← expectNumber rt val
  continueBackward (.valNumber ⌈q⌉)
 | .unaryFloor=>do
  let q ← expectNumber rt val
  continueBackward (.valNumber ⌊q⌋)
 | .unaryPercent=>do
  let q ← expectNumber rt val
  continueBackward (.valNumber (q / 100))
 | op=>do
  let d ← expectAtom rt (unaryKind op) val
  runHost rt (rt.host.runUnary op ty d)

def runBinOpEquals : Value R → Value R → Eval R H (Config R)
 | .valNumber num1, .valNumber num2=>continueBackward (valBool (num1=num2))
 | .valString str1, .valString str2=>continueBackward (valBool (str1=str2))
 | .valDate d1, .valDate d2=>continueBackward (valBool (d1=d2))
 | .valTime t1, .valTime t2=>continueBackward (valBool (t1=t2))
 | .valDateTime u1 _, .valDateTime u2 _=>continueBackward (valBool (u1=u2))
 | .valNil, .valNil=>continueBackward (valBool true)
 | .valCons r1 rs1, .valCons r2 rs2=>do
  pushFrame rt (.eqConstructor1 r2 [(rs1,rs2)])
  continueRef r1
 | .valNil, .valCons _ _=>continueBackward (valBool false)
 | .valCons _ _, .valNil=>continueBackward (valBool false)
 | .valConstructor n1 rs1, .valConstructor n2 rs2=>
  if sameResolved n1 n2 && rs1.length == rs2.length then
   match rs1.zip rs2 with
   | []=>continueBackward (valBool true)
   | (r1,r2)::rss=>do
    pushFrame rt (.eqConstructor1 r2 rss)
    continueRef r1
  else continueBackward (valBool false)
 | .valAssumed r, _=>stuckOnAssumed rt r
 | v1, v2=>userException rt (.equalityOnUnsupportedType v1 v2)

def compareValues (val1 val2:Value R) : Option Ordering :=
 match boolView val1, boolView val2 with
 | some b1, some b2=>some (compare b1 b2)
 | _, _=>
  match val1, val2 with
  | .valNumber num1, .valNumber num2=>some (compareOfLessAndEq num1 num2)
  | .valString str1, .valString str2=>some (compareOfLessAndEq str1 str2)
  | .valDate d1, .valDate d2=>some (compareOfLessAndEq d1 d2)
  | .valTime t1, .valTime t2=>
   some ((compareOfLessAndEq t1.todHour t2.todHour).then
    ((compareOfLessAndEq t1.todMin t2.todMin).then (compareOfLessAndEq t1.todSec t2.todSec)))
  | .valDateTime u1 _, .valDateTime u2 _=>
   some ((compareOfLessAndEq u1.utctDay u2.utctDay).then
    (compareOfLessAndEq u1.utctDayTime u2.utctDayTime))
  | _, _=>none

def runInvalidBinOp : Value R → Value R → Eval R H (Config R)
 | .valAssumed r, _=>stuckOnAssumed rt r
 | _, .valAssumed r=>stuckOnAssumed rt r
 | _, _=>runtimeTypeError rt "running bin op with invalid operation / value combination"

def runComparison (holds:Ordering → Bool) (val1 val2:Value R) : Eval R H (Config R) :=
 match compareValues val1 val2 with
 | some o=>continueBackward (valBool (holds o))
 | none=>runInvalidBinOp rt val1 val2

def runBinOp : BinOp → Value R → Value R → Eval R H (Config R)
 | .binOpPlus, .valNumber num1, .valNumber num2=>continueBackward (.valNumber (num1+num2))
 | .binOpMinus, .valNumber num1, .valNumber num2=>continueBackward (.valNumber (num1-num2))
 | .binOpTimes, .valNumber num1, .valNumber num2=>continueBackward (.valNumber (num1*num2))
 | .binOpDividedBy, .valNumber num1, .valNumber num2=>
  if num2 ≠ 0 then continueBackward (.valNumber (num1 / num2))
  else userException rt (.divisionByZero .binOpDividedBy)
 | .binOpModulo, .valNumber num1, .valNumber num2=>do
  let n1 ← expectInteger rt .binOpModulo num1
  let n2 ← expectInteger rt .binOpModulo num2
  if n2 ≠ 0 then continueBackward (.valNumber (n1.fmod n2))
  else userException rt (.divisionByZero .binOpModulo)
 | .binOpExponent, .valNumber b, .valNumber x=>
  runHost rt (rt.host.runBinary .binOpExponent (.number b) (.number x))
 | .binOpTrunc, .valNumber v, .valNumber digits=>
  runHost rt (rt.host.runBinary .binOpTrunc (.number v) (.number digits))
 | .binOpEquals, val1, val2=>runBinOpEquals rt val1 val2
 | .binOpLeq, val1, val2=>runComparison rt (fun o=>o.isLE) val1 val2
 | .binOpGeq, val1, val2=>runComparison rt (fun o=>o.isGE) val1 val2
 | .binOpLt, val1, val2=>runComparison rt (fun o=>o.isLT) val1 val2
 | .binOpGt, val1, val2=>runComparison rt (fun o=>o.isGT) val1 val2
 | .binOpContains, .valString h, .valString n=>
  runHost rt (rt.host.runBinary .binOpContains (.string h) (.string n))
 | .binOpStartsWith, .valString t, .valString p=>
  runHost rt (rt.host.runBinary .binOpStartsWith (.string t) (.string p))
 | .binOpEndsWith, .valString t, .valString s=>
  runHost rt (rt.host.runBinary .binOpEndsWith (.string t) (.string s))
 | .binOpIndexOf, .valString h, .valString n=>
  runHost rt (rt.host.runBinary .binOpIndexOf (.string h) (.string n))
 | .binOpSplit, .valString t, .valString d=>
  runHost rt (rt.host.runBinary .binOpSplit (.string t) (.string d))
 | .binOpCharAt, .valString t, .valNumber i=>
  runHost rt (rt.host.runBinary .binOpCharAt (.string t) (.number i))
 | _, val1, val2=>runInvalidBinOp rt val1 val2

end Builtins

section Contract
variable {R H:Type} (rt:Runtime R H)

def pushCFrame (f:ContractFrame R) : Eval R H Unit := pushFrame rt (.contractFrame f)

def tryNextEvent (frame:ScrutinizeEvents R) (events:R) : Eval R H (Config R) := do
 pushCFrame rt (.contract1 frame)
 continueRef events

def continueWithFollowup (env:Env R) (followup:RExpr) (events time:R) :
  Eval R H (Config R) := do
 pushFrame rt (.app1 [time,events] none)
 continueExpr env followup

def assertTime : Value R → Eval R H ℚ
 | .valNumber i=>pure i
 | val=>runtimeTypeError rt ("expected a NUMBER but got: " ++ rt.prettyLayout val)

def partyReference (env:Env R) : MaybeEvaluated R → Eval R H R
 | .inl e=>allocate_ rt env e
 | .inr val=>allocateValue rt val

def backwardContract1 (f:ScrutinizeEvents R) : Value R → Eval R H (Config R)
 | .valCons e es=>do
  pushCFrame rt (.contract2 { f with events:=es })
  continueRef e
 | .valNil=>continueBackward (.valObligation f.env f.party f.act f.due f.followup f.lest)
 | val=>runtimeTypeError rt
   ("expected LIST EVENT but found: " ++ rt.prettyLayout val ++
    " when scrutinizing regulative events")

def backwardContract2 (f:ScrutinizeEvent R) (val:Value R) : Eval R H (Config R) :=
 match eventCView val with
 | some (evParty,evAct,evTime)=>do
  pushCFrame rt (.contract3 { f with evParty:=evParty,evAct:=evAct,evTime:=evTime })
  continueRef evTime
 | none=>runtimeTypeError rt
   ("expected an EVENT but found: " ++ rt.prettyLayout val ++
    " when scrutinizing a regulative event")

def backwardContract3 (f:CurrentTimeWHNF R) (val:Value R) : Eval R H (Config R) := do
 pushCFrame rt (.contract4 { f with evTime:=val })
 continueRef f.time

def backwardContract4 (f:ScrutinizeDue R) (val:Value R) : Eval R H (Config R) :=
 match f.due with
 | .inr due' =>do
  pushCFrame rt (.contract5 { f with time:=val })
  continueBackward due'
 | .inl (some due')=>do
  pushCFrame rt (.contract5 { f with time:=val })
  continueExpr f.env due'
 | .inl none=>do
  -- the timing step is skipped, so the time of the event becomes the current time here
  pushCFrame rt (.contract6 { f with time:=f.evTime })
  maybeEvaluate f.env f.party

def deadlinePassed (f:CheckTiming R) (stamp deadline:ℚ) : Eval R H (Config R) :=
 match f.act.modal with
 | .dMustNot | .dMay=>do
  let time ← allocateValue rt f.evTime
  continueWithFollowup rt f.env f.followup f.events time
 | .dMust | .dDo=>
  match f.lest with
  | none=>do
   let partyR ← partyReference rt f.env f.party
   continueBackward
    (.valBreached (.deadlineMissed f.evParty f.evAct stamp partyR f.act deadline))
  | some lestFollowup=>do
   let time ← allocateValue rt f.evTime
   continueWithFollowup rt f.env lestFollowup f.events time

def deadlineAhead (f:CheckTiming R) (newDue:ℚ) : Eval R H (Config R) := do
 pushCFrame rt (.contract6 { f with time:=f.evTime,due:=.inr (.valNumber newDue) })
 maybeEvaluate f.env f.party

def backwardContract5 (f:CheckTiming R) (val:Value R) : Eval R H (Config R) := do
 let stamp ← assertTime rt f.evTime
 let due' ← assertTime rt val
 let time' ← assertTime rt f.time
 if stamp > time' + due' then deadlinePassed rt f stamp (time' + due')
 else deadlineAhead rt f (due' - (stamp-time'))

def backwardContract6 (f:PartyWHNF R) (val:Value R) : Eval R H (Config R) := do
 pushCFrame rt (.contract7 { f with party:=val })
 continueRef f.evParty

def backwardContract7 (f:PartyEqual R) (val:Value R) : Eval R H (Config R) := do
 pushCFrame rt (.contract8 { f with evParty:=val })
 runBinOpEquals rt f.party val

def backwardContract8 (f:ScrutinizeParty R) (val:Value R) : Eval R H (Config R) :=
 match boolView val with
 | some true=>do
  pushCFrame rt (.contract11 { f with })
  pushCFrame rt (.contract9 { f with })
  continuePattern f.evAct f.env f.act.action
 | some false=>do
  let newTime ← allocateValue rt f.time
  tryNextEvent rt { f with party:=.inr f.party,time:=newTime } f.events
 | none=>runtimeTypeError rt ("expected BOOLEAN but found: " ++ rt.prettyLayout val)

def backwardContract9 (f:ScrutinizeEnvironment R) : Value R → Eval R H (Config R)
 | .valEnvironment henceEnv=>do
  pushCFrame rt (.contract10 { f with henceEnv:=henceEnv })
  continueExpr (f.env ++ henceEnv) (f.act.provided.getD trueExpr)
 | val=>runtimeTypeError rt ("expected environment but found: " ++ rt.prettyLayout val)

def actionPerformed (f:ScrutinizeActions R) : Eval R H (Config R) :=
 match f.act.modal with
 | .dMustNot=>
  match f.lest with
  | some lestFollowup=>do
   let time ← allocateValue rt f.time
   continueWithFollowup rt (f.env ++ f.henceEnv) lestFollowup f.events time
  | none=>do
   let stamp ← assertTime rt f.time
   let evPartyRef ← allocateValue rt f.evParty
   let partyRef ← allocateValue rt f.party
   continueBackward
    (.valBreached (.deadlineMissed evPartyRef f.evAct stamp partyRef f.act stamp))
 | .dMust | .dMay | .dDo=>do
  let time ← allocateValue rt f.time
  continueWithFollowup rt (f.env ++ f.henceEnv) f.followup f.events time

def backwardContract10 (f:ScrutinizeActions R) (val:Value R) : Eval R H (Config R) :=
 match boolView val with
 | some true=>actionPerformed rt f
 | some false=>do
  let newTime ← allocateValue rt f.time
  tryNextEvent rt { f with party:=.inr f.party,time:=newTime } f.events
 | none=>runtimeTypeError rt ("expected BOOLEAN but found: " ++ rt.prettyLayout val)

def backwardRBinOp1 (f:RBinOp1 R) (val:Value R) : Eval R H (Config R) :=
 if f.op = .valROr ∧ fulfilView val=true then continueBackward valFulfilled
 else do
  pushCFrame rt (.rBinOp2 { f with rval1:=val })
  pushFrame rt (.app1 f.args none)
  maybeEvaluate f.env f.rexpr2

def combineOther (env:Env R) (op:RBinOp) (rval1 val:Value R) : Value R :=
 if fulfilView val && fulfilView rval1 then valFulfilled
 else
  match op, rval1, val with
  | .valRAnd, .valBreached reason, _=>.valBreached reason
  | .valRAnd, _, .valBreached reason=>.valBreached reason
  | op, rval1, val=>
   if op = .valROr ∧ fulfilView val=true then valFulfilled
   else if op = .valROr ∧ fulfilView rval1=true then valFulfilled
   else .valROp env op (.inr rval1) (.inr val)

/-- What an operator returns on the results of its operands, tried in this order. -/
def combine (env:Env R) (op:RBinOp) (rval1 val:Value R) : Value R :=
 match rval1, val with
 | .valBreached b1@(.deadlineMissed _ _ vt _ _ _), .valBreached b2@(.deadlineMissed _ _ vt' _ _ _)=>
  .valBreached (if vt ≤ vt' then
   match op with
   | .valRAnd=>b1
   | .valROr=>b2
  else
   match op with
   | .valROr=>b1
   | .valRAnd=>b2)
 | rval1, val=>combineOther env op rval1 val

def backwardRBinOp2 (f:RBinOp2 R) (val:Value R) : Eval R H (Config R) :=
 continueBackward (combine f.env f.op f.rval1 val)

def backwardContractFrame (val:Value R) : ContractFrame R → Eval R H (Config R)
 | .contract1 f=>backwardContract1 rt f val
 | .contract2 f=>backwardContract2 rt f val
 | .contract3 f=>backwardContract3 rt f val
 | .contract4 f=>backwardContract4 rt f val
 | .contract5 f=>backwardContract5 rt f val
 | .contract6 f=>backwardContract6 rt f val
 | .contract7 f=>backwardContract7 rt f val
 | .contract8 f=>backwardContract8 rt f val
 | .contract9 f=>backwardContract9 rt f val
 | .contract10 f=>backwardContract10 rt f val
 -- a guard, which only matters when a pattern match failure unwinds to it
 | .contract11 _=>continueBackward val
 | .rBinOp1 f=>backwardRBinOp1 rt f val
 | .rBinOp2 f=>backwardRBinOp2 f val

end Contract

section Backward
variable {R H:Type} (rt:Runtime R H)

def backwardApp1 (rs:List R) (ty:Option (Type' Resolved)) (val:Value R) :
  Eval R H (Config R) :=
 if fulfilView val then continueBackward valFulfilled
 else
  match val with
  | .valClosure givens e env' =>do
   let env'' ← matchGivens rt givens (.app1 rs ty) rs
   continueExpr (env'' ++ env') e
  | .valUnappliedConstructor r=>continueBackward (.valConstructor r rs)
  | .valObligation env party act due followup lest=>
   match rs with
   | [time,events]=>do
    pushCFrame rt (.contract1
     { act:=act,followup:=followup,lest:=lest,env:=env
       party:=party,due:=due,time:=time })
    continueRef events
   | rs' =>runtimeTypeError rt
     ("expected a time stamp, and a list of events but found: " ++
      String.join (rs'.map rt.prettyReference))
  | .valROp env op rexpr1 rexpr2=>do
   -- make sure to reassemble the operation after returning
   pushCFrame rt (.rBinOp1 { op:=op,rexpr2:=rexpr2,args:=rs,env:=env })
   pushFrame rt (.app1 rs ty)
   maybeEvaluate env rexpr1
  | .valUnaryBuiltinFun fn=>do
   let r ← expect1 rt rs
   pushFrame rt (.unaryBuiltin0 fn ty)
   continueRef r
  | .valBinaryBuiltinFun fn=>do
   let (x,y) ← expect2 rt rs
   if fn = .binOpCons then
    continueBackward (.valCons x y)
   else
    pushFrame rt (.binBuiltin1 fn y)
    continueRef x
  | .valTernaryBuiltinFun fn=>do
   let (x,y,z) ← expect3 rt rs
   pushFrame rt (.ternaryBuiltin1 fn y z)
   continueRef x
  | .valPartialTernary fn arg1=>do
   let (y,z) ← expect2 rt rs
   pushFrame rt (.ternaryBuiltin1 fn y z)
   continueRef arg1
  | .valPartialTernary2 fn arg1 arg2=>do
   let z ← expect1 rt rs
   pushFrame rt (.ternaryBuiltin1 fn arg2 z)
   continueRef arg1
  | .valBreached r=>continueBackward (.valBreached r)
  | .valAssumed r=>stuckOnAssumed rt r
  | res=>runtimeTypeError rt ("expected a function but found: " ++ rt.prettyLayout res)

def backwardIfThenElse1 (e2 e3:RExpr) (env:Env R) (val:Value R) : Eval R H (Config R) :=
 match boolView val with
 | some true=>continueExpr env e2
 | some false=>continueExpr env e3
 | none=>
  match val with
  | .valAssumed r=>stuckOnAssumed rt r
  | val=>runtimeTypeError rt
    ("expected a BOOLEAN but found: " ++ rt.prettyLayout val ++
     " when evaluating IF-THEN-ELSE")

def expectEnvironment (doing:String) : Value R → Eval R H (Env R)
 | .valEnvironment env=>pure env
 | val=>runtimeTypeError rt
   ("expected an environment but found: " ++ rt.prettyLayout val ++ doing)

def backwardPatApp0 (n:Resolved) (env:Env R) (ps:List (Pattern Resolved)) :
  Value R → Eval R H (Config R)
 | .valConstructor n' rfs=>
  if sameResolved n n' then
   if rfs.length=ps.length then
    match rfs.zip ps with
    | []=>continueBackward (.valEnvironment [])
    | (r,p)::rps=>do
     pushFrame rt (.patApp1 [] rps)
     continuePattern r env p
   else runtimeTypeError rt "pattern for constructor has the wrong number of arguments"
  else patternMatchFailure rt
 | _=>patternMatchFailure rt

def backwardPatApp1 (envs:List (Env R)) (env:Env R) :
  List (R × Pattern Resolved) → Eval R H (Config R)
 | []=>continueBackward (.valEnvironment (env::envs).flatten)
 | (r,p)::rps' =>do
  pushFrame rt (.patApp1 (env::envs) rps')
  continuePattern r env p

def backwardJsonEncodeList (acc:List String) (tailRef:R) (expectingTail:Bool)
  (val:Value R) : Eval R H (Config R) :=
 if expectingTail then
  match val with
  | .valNil=>continueBackward (.valString ("[" ++ ",".intercalate acc.reverse ++ "]"))
  | .valCons headRef nextTailRef=>do
   pushFrame rt (.jsonEncodeListFrame acc nextTailRef false)
   continueRef headRef
  | _=>runtimeTypeError rt "Expected list (ValNil or ValCons) for tail"
 else
  match val with
  | .valNil=>do
   pushFrame rt (.jsonEncodeListFrame ("[]" :: acc) tailRef true)
   continueRef tailRef
  | .valCons elemHeadRef elemTailRef=>do
   pushFrame rt (.jsonEncodeNestedFrame acc tailRef)
   pushFrame rt (.jsonEncodeListFrame [] elemTailRef false)
   continueRef elemHeadRef
  | val=>do
   let elemRef ← allocateValue rt val
   pushFrame rt (.jsonEncodeNestedFrame acc tailRef)
   pushFrame rt (.unaryBuiltin0 .unaryJsonEncode none)
   continueRef elemRef

def backwardJsonEncodeConstructor (acc:List (String × String)) (field encoded:String) :
  List (String × R) → Eval R H (Config R)
 | []=>
  let allPairs:=((field,encoded)::acc).reverse
  let jsonFields:=allPairs.map fun p=> "\"" ++ p.1 ++ "\":" ++ p.2
  continueBackward (.valString ("\x7b" ++ ",".intercalate jsonFields ++ "\x7d"))
 | (nextFieldName,nextFieldRef)::rest=>do
  pushFrame rt (.jsonEncodeConstructorFrame ((field,encoded)::acc) nextFieldName rest)
  pushFrame rt (.unaryBuiltin0 .unaryJsonEncode none)
  continueRef nextFieldRef

def backwardFrame (val:Value R) : Frame R → Eval R H (Config R)
 | .binOp1 op e2 env=>do
  pushFrame rt (.binOp2 op val)
  continueExpr env e2
 | .binOp2 op val1=>runBinOp rt op val1 val
 | .post1 e2 e3 env=>do
  pushFrame rt (.post2 val e3 env)
  continueExpr env e2
 | .post2 val1 e3 env=>do
  pushFrame rt (.post3 val1 val)
  continueExpr env e3
 | .post3 val1 val2=>runPost rt val1 val2 val
 | .binBuiltin1 op r=>do
  pushFrame rt (.binBuiltin2 op val)
  continueRef r
 | .binBuiltin2 op val1=>runBinOp rt op val1 val
 | .app1 rs ty=>backwardApp1 rt rs ty val
 | .ifThenElse1 e2 e3 env=>backwardIfThenElse1 rt e2 e3 env val
 | .considerWhen1 _ _ e _ env=>do
  let env' ← expectEnvironment rt " when evaluating WHEN" val
  continueExpr (env' ++ env) e
 | .patNil0=>
  match val with
  | .valNil=>continueBackward (.valEnvironment [])
  | _=>patternMatchFailure rt
 | .patCons0 p1 env p2=>
  match val with
  | .valCons rf1 rf2=>do
   pushFrame rt (.patCons1 rf2 env p2)
   continuePattern rf1 env p1
  | _=>patternMatchFailure rt
 | .patCons1 rf2 env p2=>do
  let env1 ← expectEnvironment rt " when matching FOLLOWED BY" val
  pushFrame rt (.patCons2 env1)
  continuePattern rf2 env p2
 | .patCons2 env1=>do
  let env2 ← expectEnvironment rt " when matching FOLLOWED BY" val
  continueBackward (.valEnvironment (env2 ++ env1))
 | .patApp0 n env ps=>backwardPatApp0 rt n env ps val
 | .patApp1 envs rps=>do
  let env ← expectEnvironment rt " when matching constructor" val
  backwardPatApp1 rt envs env rps
 | .patLit0 env lit=>do
  pushFrame rt (.patLit1 val)
  continueExpr env lit
 | .patLit1 lit=>do
  pushFrame rt .patLit2
  runBinOpEquals rt lit val
 | .patLit2=>
  match boolView val with
  | some true=>continueBackward (.valEnvironment [])
  | some false=>patternMatchFailure rt
  | none=>runtimeTypeError rt
    ("expected a boolean but found: " ++ rt.prettyLayout val ++
     " while matching literal pattern")
 | .eqConstructor1 rf rfs=>do
  pushFrame rt (.eqConstructor2 val rfs)
  continueRef rf
 | .eqConstructor2 val1 rfs=>do
  pushFrame rt (.eqConstructor3 rfs)
  runBinOpEquals rt val1 val
 | .eqConstructor3 rfs=>
  match boolView val with
  | some false=>continueBackward (valBool false)
  | some true=>
   match rfs with
   | []=>continueBackward (valBool true)
   | (r1,r2)::rfs' =>do
    pushFrame rt (.eqConstructor1 r2 rfs')
    continueRef r1
  | none=>runtimeTypeError rt
    ("expected a BOOLEAN but found: " ++ rt.prettyLayout val ++ " when testing equality")
 | .unaryBuiltin0 fn ty=>runBuiltin rt val fn ty
 | .ternaryBuiltin1 fn ref2 ref3=>do
  pushFrame rt (.ternaryBuiltin2 fn val ref3)
  continueRef ref2
 | .ternaryBuiltin2 fn val1 ref3=>do
  pushFrame rt (.ternaryBuiltin3 fn val1 val)
  continueRef ref3
 | .ternaryBuiltin3 fn val1 val2=>runTernaryBuiltin rt fn val1 val2 val
 | .concatFrame acc [] _=>runConcat rt (val::acc).reverse
 | .concatFrame acc (e::es) env=>do
  pushFrame rt (.concatFrame (val::acc) es env)
  continueExpr env e
 | .asStringFrame=>coerceToString rt val
 | .toStringDate1 monthRef yearRef=>do
  let dayNum ← expectNumber rt val
  pushFrame rt (.toStringDate2 dayNum yearRef)
  continueRef monthRef
 | .toStringDate2 dayNum yearRef=>do
  let monthNum ← expectNumber rt val
  pushFrame rt (.toStringDate3 dayNum monthNum)
  continueRef yearRef
 | .toStringDate3 dayNum monthNum=>do
  let yearNum ← expectNumber rt val
  runDateToString rt dayNum monthNum yearNum
 | .jsonEncodeListFrame acc tailRef expectingTail=>
  backwardJsonEncodeList rt acc tailRef expectingTail val
 | .jsonEncodeNestedFrame acc tailRef=>
  match val with
  | .valString encodedJson=>do
   pushFrame rt (.jsonEncodeListFrame (encodedJson::acc) tailRef true)
   continueRef tailRef
  | _=>runtimeTypeError rt "Expected ValString from element encoding"
 | .jsonEncodeConstructorFrame acc field remaining=>
  match val with
  | .valString encodedJson=>backwardJsonEncodeConstructor rt acc field encodedJson remaining
  | _=>runtimeTypeError rt "Expected ValString from field encoding"
 | .updateThunk rf=>do
  onHeap fun h=>((),rt.updateThunkToWHNF rf val h)
  continueBackward val
 | .contractFrame f=>backwardContractFrame rt val f

def backward (val:Value R) : Eval R H (Config R) :=
 withPoppedFrame fun
  | none=>continueDone val
  | some f=>backwardFrame rt val f

end Backward

section Step
variable {R H:Type} (rt:Runtime R H)

def matchBranches (clauses:Option PmGroup) (scrutinee:R) (env:Env R) :
  List (Branch Resolved) → Eval R H (Config R)
 | []=>fun s=>
  userException rt (.nonExhaustivePatterns clauses
   (match rt.readThunk scrutinee s.heap with
    | some val=>.inr val
    | none=>.inl scrutinee)) s
 | .mkBranch .otherwise e::_=>continueExpr env e
 | .mkBranch (.when p) e::branches=>do
  pushFrame rt (.considerWhen1 clauses scrutinee e branches env)
  continuePattern scrutinee env p

def matchPattern (scrutinee:R) (env:Env R) : Pattern Resolved → Eval R H (Config R)
 | .patVar n=>continueBackward (.valEnvironment [(n.getUnique,scrutinee)])
 | .patApp n ps _=>do
  -- pattern for the empty list
  if ps.isEmpty ∧ n.getUnique=emptyUnique then
   pushFrame rt .patNil0
  else
   pushFrame rt (.patApp0 n env ps)
  continueRef scrutinee
 | .patCons p1 p2 _=>do
  pushFrame rt (.patCons0 p1 env p2)
  continueRef scrutinee
 | .patExpr e=>do
  pushFrame rt (.patLit0 env e)
  continueRef scrutinee
 | .patLit l=>do
  pushFrame rt (.patLit1 (runLit l))
  continueRef scrutinee

def whnfConfig : Value R → Eval R H (Config R)
 | .valNullaryBuiltinFun fn=>runHost rt (rt.host.evalNullaryBuiltin fn)
 | val=>continueBackward val

def evalRef (rf:R) : Eval R H (Config R) := do
 let poked ← onHeap (rt.pokeThunk rf)
 match poked with
 | .whnf val=>whnfConfig rt val
 | .blackhole e=>userException rt (.blackholeForced e)
 | .enter e env=>do
  pushFrame rt (.updateThunk rf)
  continueExpr env e

/-- One round of `runConfig`. -/
def step : Config R → Eval R H (Config R)
 | .forwardMachine env e=>forwardExpr rt env e
 | .matchBranchesMachine clauses scrutinee env branches=>
  matchBranches rt clauses scrutinee env branches
 | .matchPatternMachine r env p=>matchPattern rt r env p
 | .backwardMachine val=>backward rt val
 | .evalRefMachine r=>evalRef rt r
 | .doneMachine val=>continueDone val

def continued : EStateM.Result (EvalException R) (EvalState R H) (Config R) →
  Option (Config R × EvalState R H)
 | .ok c s=>some (c,s)
 | .error _ _=>none

/-- The next state of a run: none when a value is delivered or an exception raised. -/
def next (c:Config R × EvalState R H) : Option (Config R × EvalState R H) :=
 match c.1 with
 | .doneMachine _=>none
 | c' =>continued (step rt c' c.2)

end Step

end L4Ide.Machine
