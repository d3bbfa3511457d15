import Mathlib.Data.List.TakeWhile
import Mathlib.Algebra.Ring.Int.Defs
import Mathlib.Algebra.Ring.Nat

set_option autoImplicit false

/-!
# Deployment versions

The version `MAJOR.BREAKING.RUNNING` of a deployment: how its counters are read back from the
text of the previous one and raised. The counters are 64-bit integers.
-/
namespace L4Ide.DeploymentVersions

abbrev Text := String

def toInt (z:ℤ) : ℤ := z.bmod (2 ^ 64)

/-- The digits at the front, as `Text.Read.decimal` reads them. -/
def readInt (t:List Char) : ℤ := toInt (Nat.ofDigitChars 10 (t.takeWhile Char.isDigit) 0)

def showInt (z:ℤ) : List Char :=
 if z < 0 then '-' :: Nat.toDigits 10 z.natAbs else Nat.toDigits 10 z.natAbs

/-- The components BREAKING and RUNNING of a version; nothing is counted in a malformed one. -/
def parseVersionCounts (v:Text) : ℤ × ℤ :=
 match v.toList.splitOn '.' with
 | _::b::r::_=>(readInt b,readInt r)
 | _=>(0,0)

def nextCounts (mPrev:Option Text) (isBreaking:Bool) : ℤ × ℤ :=
 match mPrev with
 | none=>(0,0)
 | some prev=>
  let counts:=parseVersionCounts prev
  (toInt (counts.1 + if isBreaking then 1 else 0),toInt (counts.2+1))

def nextDeploymentVersion (major:ℤ) (mPrev:Option Text) (isBreaking:Bool) : Text :=
 let counts:=nextCounts mPrev isBreaking
 String.ofList (['.'].intercalate [showInt major,showInt counts.1,showInt counts.2])

def running (v:Text) : ℤ := (parseVersionCounts v).2

theorem toInt_lt (z:ℤ) : toInt z < 2 ^ 63 := by
 have h:=Int.bmod_lt (x := z) (m := 2 ^ 64) (by decide)
 unfold toInt
 omega

theorem le_toInt (z:ℤ) : -2 ^ 63 ≤ toInt z := by
 have h:=Int.le_bmod (x := z) (m := 2 ^ 64) (by decide)
 unfold toInt
 omega

theorem toInt_of_lt {z:ℤ} (hge : -2 ^ 63 ≤ z) (hlt:z < 2 ^ 63) : toInt z=z := by
 apply Int.bmod_eq_of_le <;> omega

theorem takeWhile_toDigits (n:ℕ) :
  (Nat.toDigits 10 n).takeWhile Char.isDigit=Nat.toDigits 10 n := by
 apply List.takeWhile_eq_self_iff.mpr
 intro c hc
 exact Nat.isDigit_of_mem_toDigits (by decide) (by decide) hc

theorem readInt_toDigits (n:ℕ) : readInt (Nat.toDigits 10 n)=toInt n := by
 rw [readInt,takeWhile_toDigits,Nat.ofDigitChars_ten_toDigits]

theorem readInt_showInt (z:ℤ) : readInt (showInt z) = if z < 0 then 0 else toInt z := by
 unfold showInt
 split
 · simp [readInt,toInt]
 · rename_i h
   rw [readInt_toDigits,Int.natAbs_of_nonneg (by omega)]

theorem dot_not_mem_showInt (z:ℤ) : '.' ∉ showInt z := by
 have hdigits:∀ n : ℕ, '.' ∉ Nat.toDigits 10 n:=by
  intro n hmem
  exact absurd (Nat.isDigit_of_mem_toDigits (by decide) (by decide) hmem) (by decide)
 unfold showInt
 split
 · intro hmem
   rcases List.mem_cons.mp hmem with heq | htail
   · cases heq
   · exact hdigits _ htail
 · exact hdigits _

theorem parse_next (major:ℤ) (mPrev:Option Text) (isBreaking:Bool) :
  parseVersionCounts (nextDeploymentVersion major mPrev isBreaking) =
   (readInt (showInt (nextCounts mPrev isBreaking).1),
    readInt (showInt (nextCounts mPrev isBreaking).2)) := by
 have hsplit:(['.'].intercalate [showInt major,showInt (nextCounts mPrev isBreaking).1,
   showInt (nextCounts mPrev isBreaking).2]).splitOn '.' =
   [showInt major,showInt (nextCounts mPrev isBreaking).1,
    showInt (nextCounts mPrev isBreaking).2] := by
  apply List.splitOn_intercalate
  · intro l hl
    simp only [List.mem_cons,List.not_mem_nil,or_false] at hl
    rcases hl with rfl | rfl | rfl <;> exact dot_not_mem_showInt _
  · simp
 unfold parseVersionCounts nextDeploymentVersion
 dsimp only
 rw [String.toList_ofList,hsplit]

theorem running_first (major:ℤ) (isBreaking:Bool) :
  running (nextDeploymentVersion major none isBreaking)=0 := by
 rw [running,parse_next]
 simp [nextCounts,readInt_showInt,toInt]

theorem first_eq (major:ℤ) :
  nextDeploymentVersion major none false=String.ofList (showInt major ++ ".0.0".toList) := by
 have hzero:showInt 0=['0']:=by decide
 simp [nextDeploymentVersion,nextCounts,hzero,List.intercalate]

theorem next_ne_empty (major:ℤ) (mPrev:Option Text) (isBreaking:Bool) :
  nextDeploymentVersion major mPrev isBreaking ≠ "" := by
 intro h
 have hlist:=congrArg String.toList h
 simp [nextDeploymentVersion,List.intercalate] at hlist

theorem readInt_range (t:List Char) : -2 ^ 63 ≤ readInt t ∧ readInt t < 2 ^ 63 := by
 unfold readInt
 exact ⟨le_toInt _,toInt_lt _⟩

theorem running_range (v:Text) : -2 ^ 63 ≤ running v ∧ running v < 2 ^ 63 := by
 unfold running parseVersionCounts
 split
 · dsimp only
   exact readInt_range _
 · decide

theorem running_lt_next (major:ℤ) (prev:Text) (isBreaking:Bool)
  (h:running prev ≠ 2 ^ 63-1) :
  running prev < running (nextDeploymentVersion major (some prev) isBreaking) := by
 obtain ⟨hge,hlt⟩:=running_range prev
 have hcount:(nextCounts (some prev) isBreaking).2=running prev+1:=by
  have heq:(nextCounts (some prev) isBreaking).2=toInt (running prev+1):=by
   simp only [nextCounts,running]
  rw [heq]
  apply toInt_of_lt <;> omega
 have hnext:running (nextDeploymentVersion major (some prev) isBreaking) =
   readInt (showInt (running prev+1)) := by
  rw [running,parse_next,hcount]
 rw [hnext,readInt_showInt]
 split
 · omega
 · have heq:toInt (running prev+1)=running prev+1:=by
    apply toInt_of_lt <;> omega
   rw [heq]
   omega

end L4Ide.DeploymentVersions
