import Mathlib.Algebra.Order.Floor.Ring
import Mathlib.Algebra.Order.Round
import Mathlib.Data.Rat.Floor
import Mathlib.Tactic.FieldSimp
import Mathlib.Tactic.Linarith

set_option autoImplicit false

/-!
# Date serials

A day is its modified Julian day number, a time of day its number of picoseconds. A serial is
split towards zero into days and a fraction of a day.
-/
namespace L4Ide.DateSerials

abbrev Day := ℤ

def isLeapYear (year:ℤ) : Bool :=
 year % 4=0 && (year % 400=0 || ¬year % 100=0)

def clip (low high x:ℤ) : ℤ := max low (min high x)

def monthLengths (isLeap:Bool) : List ℤ :=
 [31,if isLeap then 29 else 28,31,30,31,30,31,31,30,31,30,31]

def monthAndDayToDayOfYear (isLeap:Bool) (month day:ℤ) : ℤ :=
 let month' :=clip 1 12 month
 let day' :=clip 1 ((monthLengths isLeap).getD (month' - 1).toNat 31) day
 let k:=if month' ≤ 2 then 0 else if isLeap then -1 else -2
 (367*month' - 362) / 12+k+day'

def fromOrdinalDate (year day:ℤ) : Day :=
 let y:=year-1
 clip 1 (if isLeapYear year then 366 else 365) day+365*y+y / 4-y / 100+y / 400-678576

def fromGregorian (year month day:ℤ) : Day :=
 fromOrdinalDate year (monthAndDayToDayOfYear (isLeapYear year) month day)

def addDays (n:ℤ) (day:Day) : Day := day+n

def diffDays (a b:Day) : ℤ := a-b

/-- A number of picoseconds. -/
@[ext] structure Pico where
 units : ℤ
 deriving DecidableEq

def resolution : ℚ := 10 ^ 12

def Pico.toRational (p:Pico) : ℚ := p.units / resolution

def Pico.fromRational (r:ℚ) : Pico := ⟨⌊r*resolution⌋⟩

abbrev DiffTime := Pico

structure UTCTime where
 utctDay : Day
 utctDayTime : DiffTime
 deriving DecidableEq

/-- The day first, then the time of day. -/
def UTCTime.before (a b:UTCTime) : Bool :=
 a.utctDay < b.utctDay || a.utctDay=b.utctDay && a.utctDayTime.units < b.utctDayTime.units

def properFraction (r:ℚ) : ℤ × ℚ := (r.num.tdiv r.den,r-r.num.tdiv r.den)

def secondsPerDay : ℚ := 86400

def l4EpochDay : Day := fromGregorian 0 1 1

def dayNumberFromDay (day:Day) : ℤ := diffDays day l4EpochDay-1

def diffTimeFraction (dt:DiffTime) : ℚ :=
 let seconds:=Pico.fromRational dt.toRational
 seconds.toRational / secondsPerDay

def utcDatestamp (time:UTCTime) : ℚ :=
 dayNumberFromDay time.utctDay+diffTimeFraction time.utctDayTime

def serialToUTCTime (serial:ℚ) : UTCTime :=
 let (wholeDays,fraction):=properFraction serial
 let day:=addDays (wholeDays+1) l4EpochDay
 let seconds:=Pico.fromRational (fraction*secondsPerDay)
 ⟨day,Pico.fromRational seconds.toRational⟩

inductive WHNF where
 | valNumber (n:ℚ)
 | valString (s:String)
 | valDate (day:Day)
 | valDateTime (utc:UTCTime) (tzName:String)
 deriving DecidableEq

inductive EvalException where
 | expectedNumber (v:WHNF)
 | expectedDate (v:WHNF)
 | expectedDateTime (v:WHNF)
 deriving DecidableEq

def expectNumber : WHNF → Except EvalException ℚ
 | .valNumber n=>.ok n
 | v=>.error (.expectedNumber v)

def expectDateValue : WHNF → Except EvalException Day
 | .valDate d=>.ok d
 | .valNumber serial=>.ok (serialToUTCTime serial).utctDay
 | v=>.error (.expectedDate v)

def expectDateTimeValue : WHNF → Except EvalException (UTCTime × String)
 | .valDateTime utc tzName=>.ok (utc,tzName)
 | v=>.error (.expectedDateTime v)

inductive UnaryBuiltinFun where
 | dateSerial
 | dateFromSerial
 | datetimeSerial

def runBuiltin (es:WHNF) : UnaryBuiltinFun → Except EvalException WHNF
 | .dateSerial=>do
  let day ← expectDateValue es
  return .valNumber (dayNumberFromDay day)
 | .dateFromSerial=>do
  let serial ← expectNumber es
  return .valDate (serialToUTCTime serial).utctDay
 | .datetimeSerial=>do
  let (utc,_) ← expectDateTimeValue es
  return .valNumber (utcDatestamp utc)

end L4Ide.DateSerials
