import L4Ide.Environment

set_option autoImplicit false

/-!
# Values and frames of the lazy machine

Everything here is over a type `R` of references: addresses of a heap, or closures.
-/
namespace L4Ide.ValueLazy
open Syntax Environment

inductive BinOp where
 | binOpPlus
 | binOpMinus
 | binOpTimes
 | binOpDividedBy
 | binOpModulo
 | binOpCons
 | binOpEquals
 | binOpLeq
 | binOpGeq
 | binOpLt
 | binOpGt
 | binOpExponent
 | binOpContains
 | binOpStartsWith
 | binOpEndsWith
 | binOpIndexOf
 | binOpSplit
 | binOpCharAt
 | binOpTrunc
 deriving DecidableEq, Repr

inductive NullaryBuiltinFun where
 | nullaryTodaySerial
 | nullaryNowSerial
 | nullaryTimezone
 | nullaryCurrentTime
 deriving DecidableEq, Repr

inductive UnaryBuiltinFun where
 | unaryIsInteger
 | unaryRound
 | unaryCeiling
 | unaryFloor
 | unaryPercent
 | unarySqrt
 | unaryLn
 | unaryLog10
 | unarySin
 | unaryCos
 | unaryTan
 | unaryAsin
 | unaryAcos
 | unaryAtan
 | unaryStringLength
 | unaryToUpper
 | unaryToLower
 | unaryTrim
 | unaryFetch
 | unaryEnv
 | unaryJsonEncode
 | unaryJsonDecode
 | unaryDateValue
 | unaryDateSerial
 | unaryDateFromSerial
 | unaryDateDay
 | unaryDateMonth
 | unaryDateYear
 | unaryTimeValue
 | unaryToString
 | unaryToNumber
 | unaryToDate
 | unaryTimeHour
 | unaryTimeMinute
 | unaryTimeSecond
 | unaryTimeToSerial
 | unaryTimeFromSerial
 | unaryToTime
 | unaryDatetimeDate
 | unaryDatetimeTime
 | unaryDatetimeSerial
 | unaryDatetimeTzName
 | unaryToDatetime
 deriving DecidableEq, Repr

inductive TernaryBuiltinFun where
 | ternarySubstring
 | ternaryReplace
 | ternaryPost
 | ternaryDateFromDMY
 | ternaryTimeFromHMS
 | ternaryDatetimeFromDTZ
 deriving DecidableEq, Repr

structure TimeOfDay where
 todHour : ℤ
 todMin : ℤ
 todSec : ℚ
 deriving DecidableEq, Repr

structure UTCTime where
 utctDay : ℤ
 utctDayTime : ℚ
 deriving DecidableEq, Repr

inductive RBinOp where
 | valROr
 | valRAnd
 deriving DecidableEq, Repr

abbrev RExpr := Expr Resolved

/-- A map from names to references; an earlier entry hides a later one. -/
abbrev Env (R:Type) := List (Unique × R)

inductive ReasonForBreach (R:Type) where
 | deadlineMissed (evParty evAct:R) (stamp:ℚ) (party:R) (act:RAction Resolved)
   (deadline:ℚ)
 | explicitBreach (party reason:Option R)

/-- A value in weak head normal form; an `Env` is spelled out for closures to nest in it. -/
inductive Value (R:Type) where
 | valNumber (q:ℚ)
 | valString (s:String)
 | valDate (day:ℤ)
 | valTime (tod:TimeOfDay)
 | valDateTime (utc:UTCTime) (tz:String)
 | valNil
 | valCons (r1 r2:R)
 | valClosure (givens:GivenSig Resolved) (e:RExpr) (env:List (Unique × R))
 | valObligation (env:List (Unique × R)) (party:RExpr ⊕ Value R) (act:RAction Resolved)
   (due:Option RExpr ⊕ Value R) (followup:RExpr) (lest:Option RExpr)
 | valROp (env:List (Unique × R)) (op:RBinOp) (l r:RExpr ⊕ Value R)
 | valNullaryBuiltinFun (fn:NullaryBuiltinFun)
 | valUnaryBuiltinFun (fn:UnaryBuiltinFun)
 | valBinaryBuiltinFun (fn:BinOp)
 | valTernaryBuiltinFun (fn:TernaryBuiltinFun)
 | valPartialTernary (fn:TernaryBuiltinFun) (r1:R)
 | valPartialTernary2 (fn:TernaryBuiltinFun) (r1 r2:R)
 | valUnappliedConstructor (n:Resolved)
 | valConstructor (n:Resolved) (rs:List R)
 | valAssumed (n:Resolved)
 | valEnvironment (env:List (Unique × R))
 | valBreached (reason:ReasonForBreach R)

abbrev MaybeEvaluated' (A R:Type) := A ⊕ Value R

abbrev MaybeEvaluated (R:Type) := MaybeEvaluated' RExpr R

section Views
variable {R:Type}

def falseExpr : RExpr := .var falseRef

def falseVal : Value R := .valConstructor falseRef []

def trueExpr : RExpr := .var trueRef

def trueVal : Value R := .valConstructor trueRef []

def fulfilExpr : RExpr := .var fulfilRef

def valFulfilled : Value R := .valConstructor fulfilRef []

def valEvent (party act time:R) : Value R := .valConstructor eventCRef [party,act,time]

def valBool : Bool → Value R
 | false=>falseVal
 | true=>trueVal

def boolView : Value R → Option Bool
 | .valConstructor n []=>
  if sameResolved n trueRef then some true
  else if sameResolved n falseRef then some false
  else none
 | _=>none

def fulfilView : Value R → Bool
 | .valConstructor n []=>sameResolved n fulfilRef
 | _=>false

def eventCView : Value R → Option (R × R × R)
 | .valConstructor n [party,act,time]=>
  if sameResolved n eventCRef then some (party,act,time) else none
 | _=>none

end Views

structure Scrutiny (R:Type) where
 act : RAction Resolved
 followup : RExpr
 lest : Option RExpr
 env : Env R

structure ScrutinizeEvents (R:Type) extends Scrutiny R where
 party : MaybeEvaluated R
 due : MaybeEvaluated' (Option RExpr) R
 time : R

structure ScrutinizeEvent (R:Type) extends Scrutiny R where
 party : MaybeEvaluated R
 due : MaybeEvaluated' (Option RExpr) R
 events : R
 time : R

structure CurrentTimeWHNF (R:Type) extends Scrutiny R where
 party : MaybeEvaluated R
 due : MaybeEvaluated' (Option RExpr) R
 evParty : R
 evAct : R
 evTime : R
 events : R
 time : R

structure ScrutinizeDue (R:Type) extends Scrutiny R where
 party : MaybeEvaluated R
 due : MaybeEvaluated' (Option RExpr) R
 evParty : R
 evAct : R
 evTime : Value R
 events : R
 time : R

structure CheckTiming (R:Type) extends Scrutiny R where
 party : MaybeEvaluated R
 due : MaybeEvaluated' (Option RExpr) R
 evParty : R
 evAct : R
 evTime : Value R
 events : R
 time : Value R

structure PartyWHNF (R:Type) extends Scrutiny R where
 due : MaybeEvaluated' (Option RExpr) R
 evParty : R
 evAct : R
 events : R
 time : Value R

structure PartyEqual (R:Type) extends Scrutiny R where
 party : Value R
 due : MaybeEvaluated' (Option RExpr) R
 evParty : R
 evAct : R
 events : R
 time : Value R

structure ScrutinizeParty (R:Type) extends Scrutiny R where
 party : Value R
 due : MaybeEvaluated' (Option RExpr) R
 evParty : Value R
 evAct : R
 events : R
 time : Value R

structure ScrutinizeEnvironment (R:Type) extends Scrutiny R where
 party : Value R
 due : MaybeEvaluated' (Option RExpr) R
 evParty : Value R
 evAct : R
 events : R
 time : Value R

structure ScrutinizeActions (R:Type) extends Scrutiny R where
 party : Value R
 due : MaybeEvaluated' (Option RExpr) R
 evParty : Value R
 evAct : R
 events : R
 time : Value R
 henceEnv : Env R

structure ActionDoesntMatch (R:Type) extends Scrutiny R where
 party : Value R
 due : MaybeEvaluated' (Option RExpr) R
 evParty : Value R
 evAct : R
 events : R
 time : Value R

structure RBinOp1 (R:Type) where
 op : RBinOp
 rexpr2 : MaybeEvaluated R
 args : List R
 env : Env R

structure RBinOp2 (R:Type) where
 op : RBinOp
 rval1 : Value R
 env : Env R

inductive ContractFrame (R:Type) where
 | contract1 (f:ScrutinizeEvents R)
 | contract2 (f:ScrutinizeEvent R)
 | contract3 (f:CurrentTimeWHNF R)
 | contract4 (f:ScrutinizeDue R)
 | contract5 (f:CheckTiming R)
 | contract6 (f:PartyWHNF R)
 | contract7 (f:PartyEqual R)
 | contract8 (f:ScrutinizeParty R)
 | contract9 (f:ScrutinizeEnvironment R)
 | contract10 (f:ScrutinizeActions R)
 | contract11 (f:ActionDoesntMatch R)
 | rBinOp1 (f:RBinOp1 R)
 | rBinOp2 (f:RBinOp2 R)

inductive Frame (R:Type) where
 | binOp1 (op:BinOp) (e2:RExpr) (env:Env R)
 | binOp2 (op:BinOp) (val1:Value R)
 | post1 (e2 e3:RExpr) (env:Env R)
 | post2 (val1:Value R) (e3:RExpr) (env:Env R)
 | post3 (val1 val2:Value R)
 | app1 (rs:List R) (ty:Option (Type' Resolved))
 | ifThenElse1 (e2 e3:RExpr) (env:Env R)
 | considerWhen1 (clauses:Option PmGroup) (scrutinee:R) (e:RExpr)
   (branches:List (Branch Resolved)) (env:Env R)
 | patNil0
 | patCons0 (p1:Pattern Resolved) (env:Env R) (p2:Pattern Resolved)
 | patCons1 (rf2:R) (env:Env R) (p2:Pattern Resolved)
 | patCons2 (env1:Env R)
 | patLit0 (env:Env R) (lit:RExpr)
 | patLit1 (lit:Value R)
 | patLit2
 | patApp0 (n:Resolved) (env:Env R) (ps:List (Pattern Resolved))
 | patApp1 (envs:List (Env R)) (rps:List (R × Pattern Resolved))
 | eqConstructor1 (rf:R) (rfs:List (R × R))
 | eqConstructor2 (val1:Value R) (rfs:List (R × R))
 | eqConstructor3 (rfs:List (R × R))
 | unaryBuiltin0 (fn:UnaryBuiltinFun) (ty:Option (Type' Resolved))
 | binBuiltin1 (op:BinOp) (r:R)
 | binBuiltin2 (op:BinOp) (val1:Value R)
 | ternaryBuiltin1 (fn:TernaryBuiltinFun) (ref2 ref3:R)
 | ternaryBuiltin2 (fn:TernaryBuiltinFun) (val1:Value R) (ref3:R)
 | ternaryBuiltin3 (fn:TernaryBuiltinFun) (val1 val2:Value R)
 | updateThunk (rf:R)
 | contractFrame (f:ContractFrame R)
 | concatFrame (acc:List (Value R)) (es:List RExpr) (env:Env R)
 | asStringFrame
 | toStringDate1 (monthRef yearRef:R)
 | toStringDate2 (dayNum:ℚ) (yearRef:R)
 | toStringDate3 (dayNum monthNum:ℚ)
 | jsonEncodeListFrame (acc:List String) (tail:R) (expectingTail:Bool)
 | jsonEncodeNestedFrame (acc:List String) (tail:R)
 | jsonEncodeConstructorFrame (acc:List (String × String)) (field:String)
   (remaining:List (String × R))

inductive InternalEvalException where
 | runtimeScopeError (n:Resolved)
 | runtimeTypeError (msg:String)
 | unhandledPatternMatch

inductive UserEvalException (R:Type) where
 | blackholeForced (e:RExpr)
 | equalityOnUnsupportedType (v1 v2:Value R)
 | nonExhaustivePatterns (clauses:Option PmGroup) (scrutinee:R ⊕ Value R)
 | stackOverflow
 | divisionByZero (op:BinOp)
 | notAnInteger (op:BinOp) (n:ℚ)
 | stuck (n:Resolved)
 | userError (msg:String)
 | valueTooDeep

structure Refusal where
 message : String

inductive EvalException (R:Type) where
 | internalEvalException (e:InternalEvalException)
 | userEvalException (e:UserEvalException R)
 | refusalException (r:Refusal)

inductive Config (R:Type) where
 | forwardMachine (env:Env R) (e:RExpr)
 | matchBranchesMachine (clauses:Option PmGroup) (scrutinee:R) (env:Env R)
   (branches:List (Branch Resolved))
 | matchPatternMachine (r:R) (env:Env R) (p:Pattern Resolved)
 | backwardMachine (val:Value R)
 | evalRefMachine (r:R)
 | doneMachine (val:Value R)

end L4Ide.ValueLazy
