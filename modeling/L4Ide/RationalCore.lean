import L4Ide.NearestInteger
import Mathlib.Data.Rat.Floor

set_option autoImplicit false

/-!
# The exact rational core

The arithmetic of the compiled code's runtime on pairs of big integers, with the numerals that it
reads and the operators built on it, and the evaluator's operators on rationals.
-/
namespace L4Ide.RationalCore

structure Ratio where
 num : ℤ
 den : ℤ
 deriving DecidableEq

def bgcdLoop (a b:ℤ) : ℤ :=
 if b=0 then a else bgcdLoop b (a.tmod b)
termination_by b.natAbs
decreasing_by
 rename_i h
 rw [Int.natAbs_tmod]
 exact Nat.mod_lt _ (Int.natAbs_pos.mpr h)

def bgcd (a b:ℤ) : ℤ := bgcdLoop (if a < 0 then -a else a) (if b < 0 then -b else b)

def makeRat (num den:ℤ) : Except String Ratio :=
 if den=0 then .error "rational: zero denominator"
 else
  let num' :=if den < 0 then -num else num
  let den' :=if den < 0 then -den else den
  if num' = 0 then .ok ⟨0,1⟩
  else
   let g:=bgcd num' den'
   .ok ⟨num'.tdiv g,den'.tdiv g⟩

def fromInt (i:ℤ) : Ratio := ⟨i,1⟩

def ratAdd (a b:Ratio) : Except String Ratio :=
 makeRat (a.num*b.den+b.num*a.den) (a.den*b.den)

def ratSub (a b:Ratio) : Except String Ratio :=
 makeRat (a.num*b.den-b.num*a.den) (a.den*b.den)

def ratMul (a b:Ratio) : Except String Ratio := makeRat (a.num*b.num) (a.den*b.den)

def ratDiv (a b:Ratio) : Except String Ratio :=
 if b.num=0 then .error "rational: division by zero"
 else makeRat (a.num*b.den) (a.den*b.num)

def ratNeg (a:Ratio) : Ratio := ⟨-a.num,a.den⟩

def ratAbs (a:Ratio) : Ratio := if a.num < 0 then ⟨-a.num,a.den⟩ else a

def ratFloor (a:Ratio) : Ratio :=
 let q:=a.num.tdiv a.den
 fromInt (if a.num < 0 ∧ a.num.tmod a.den ≠ 0 then q-1 else q)

def ratCeil (a:Ratio) : Ratio :=
 let q:=a.num.tdiv a.den
 fromInt (if a.num > 0 ∧ a.num.tmod a.den ≠ 0 then q+1 else q)

def ratRound (a:Ratio) : Ratio :=
 let neg:=a.num < 0
 let num:=if neg then -a.num else a.num
 let q:=num.tdiv a.den
 let rem2:=num.tmod a.den*2
 let q:=if rem2 > a.den ∨ rem2=a.den ∧ q % 2=1 then q+1 else q
 fromInt (if neg then -q else q)

def ratTrunc (a:Ratio) : Ratio := fromInt (a.num.tdiv a.den)

def prettyRatio (r:Ratio) : String :=
 if r.den=1 then toString r.num else toString r.num ++ " / " ++ toString r.den

def notAnInteger (r:Ratio) : String :=
 "Expected an Integer but got the fractional number: \n" ++ prettyRatio r ++
  "\nDuring the evaluation of the operation:\nMODULO"

def ratMod (a b:Ratio) : Except String Ratio :=
 if a.den ≠ 1 then .error (notAnInteger a)
 else if b.den ≠ 1 then .error (notAnInteger b)
 else if b.num=0 then .error "Division by zero in the operation:\nMODULO"
 else
  let r:=a.num.tmod b.num
  .ok (fromInt (if r ≠ 0 ∧ ¬(r < 0 ↔ b.num < 0) then r+b.num else r))

def ratCmp (a b:Ratio) : ℤ :=
 let l:=a.num*b.den
 let r:=b.num*a.den
 if l < r then -1 else if l > r then 1 else 0

def ratMin (a b:Ratio) : Ratio := if ratCmp a b ≤ 0 then a else b

def ratMax (a b:Ratio) : Ratio := if ratCmp a b ≥ 0 then a else b

/-- What `trim` takes off. -/
def isSpace (c:Char) : Bool :=
 c.toNat ∈ [9,10,11,12,13,32,160,5760,8232,8233,8239,8287,12288,65279] ||
  (8192 ≤ c.toNat && c.toNat ≤ 8202)

def trim (text:List Char) : List Char :=
 ((text.dropWhile isSpace).reverse.dropWhile isSpace).reverse

def splitSign : List Char → Option Char × List Char
 | '+' :: rest=>(some '+',rest)
 | '-' :: rest=>(some '-',rest)
 | text=>(none,text)

def digitsValue (digits:List Char) : ℕ :=
 digits.foldl (fun n c=>10*n+(c.toNat-48)) 0

/-- `BigInt` of the text of an integer, also `parseInt` of it. -/
def bigInt (text:List Char) : ℤ :=
 match splitSign text with
 | (some '-',digits)=> -digitsValue digits
 | (_,digits)=>digitsValue digits

/-- `[+-]?\d+` -/
def isInteger (text:List Char) : Bool :=
 !(splitSign text).2.isEmpty && (splitSign text).2.all Char.isDigit

structure Groups where
 sign : Option Char
 int : List Char
 frac : List Char
 exp : Option (List Char)

/-- `(?:[eE]([+-]?\d+))?$` -/
def matchExponent : List Char → Option (Option (List Char))
 | []=>some none
 | c::text=>if (c = 'e' ∨ c = 'E') ∧ isInteger text then some (some text) else none

/-- `(\d*)(?:\.(\d*))?`, and the text after it. -/
def splitDigits (text:List Char) : List Char × List Char × List Char :=
 let (int,text):=text.span Char.isDigit
 match text with
 | '.' :: text=>
  let (frac,text):=text.span Char.isDigit
  (int,frac,text)
 | _=>(int,[],text)

/-- `^([+-]?)(\d*)(?:\.(\d*))?(?:[eE]([+-]?\d+))?$` -/
def matchDecimal (text:List Char) : Option Groups :=
 let (sign,text):=splitSign text
 let (int,frac,text):=splitDigits text
 (matchExponent text).map fun exp=>⟨sign,int,frac,exp⟩

/-- From `2 ^ 53` on `parseInt` rounds, and the power of ten is out of the range of big integers. -/
def maxExponent : ℕ := 2 ^ 53

def ratFromDecimalString (stringify:String → String) (s:String) : Except String Ratio :=
 let str:=trim s.toList
 if '/' ∈ str then
  let (numTxt,rest):=str.span (· ≠ '/')
  let denTxt:=rest.drop 1
  if isInteger numTxt && isInteger denTxt then makeRat (bigInt numTxt) (bigInt denTxt)
  else .error ("rational: bad rational literal " ++ stringify s)
 else
  match matchDecimal str with
  | none=>.error ("rational: bad decimal literal " ++ stringify s)
  | some m=>
   if m.int.isEmpty && m.frac.isEmpty then
    .error ("rational: bad decimal literal " ++ stringify s)
   else
    let sign:ℤ:=if m.sign=some '-' then -1 else 1
    let exp:=m.exp.elim 0 bigInt
    if maxExponent ≤ exp.natAbs then .error "Maximum BigInt size exceeded"
    else
     let num:ℤ:=digitsValue (m.int ++ m.frac)
     let den:ℤ:=10 ^ m.frac.length
     if 0 ≤ exp then makeRat (sign*(num*10 ^ exp.natAbs)) den
     else makeRat (sign*num) (den*10 ^ exp.natAbs)

def l4Trunc (v digits:Ratio) : Except String Ratio := do
 let digitsInt:=(ratRound digits).num
 let factor ← makeRat (10 ^ digitsInt.natAbs) 1
 if 0 ≤ digitsInt then
  ratDiv (ratTrunc (← ratMul v factor)) factor
 else
  ratMul (ratTrunc (← ratDiv v factor)) factor

/-- Haskell's `round`: the nearest integer, and the even one of two. -/
def haskellRound (q:ℚ) : ℤ := NearestInteger.halfEven q

/-- Haskell's `truncate`: toward zero. -/
def haskellTruncate (q:ℚ) : ℤ := if 0 ≤ q then ⌊q⌋ else ⌈q⌉

inductive EvalException
 | notAnInteger (q:ℚ)
 | divisionByZero
 deriving DecidableEq

def expectInteger (q:ℚ) : Except EvalException ℤ :=
 if q.den=1 then .ok q.num else .error (.notAnInteger q)

def runModulo (num1 num2:ℚ) : Except EvalException ℚ := do
 let n1 ← expectInteger num1
 let n2 ← expectInteger num2
 if n2 ≠ 0 then .ok (n1.fmod n2) else .error .divisionByZero

def runTrunc (value digits:ℚ) : ℚ :=
 let digitsInt:=haskellRound digits
 let factor:ℚ:=10 ^ digitsInt.natAbs
 if 0 ≤ digitsInt then haskellTruncate (value*factor) / factor
 else haskellTruncate (value / factor)*factor

end L4Ide.RationalCore
