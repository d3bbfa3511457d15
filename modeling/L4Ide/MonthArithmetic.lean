import L4Ide.DayDate

set_option autoImplicit false

/-!
# Month arithmetic

Months and years added to a date, and the ends of months.
-/
namespace L4Ide.MonthArithmetic
open Calendar DayDate

def addMonths (date:ℤ) (months:ℚ) : Except Exception ℤ :=
 let totalMonths:=dateMonth date + ⌊months⌋
 let newYear:=dateYear date + ⌊((totalMonths-1:ℤ):ℚ) / 12⌋
 let newMonth:=(totalMonths-1) % 12+1
 let lastDay:=daysInMonth newMonth newYear
 let clampedDay:=if lastDay < dateDay date then lastDay else dateDay date
 dateFromDMY clampedDay newMonth newYear

def addYears (date:ℤ) (years:ℚ) : Except Exception ℤ := addMonths date ((⌊years⌋ * 12:ℤ):ℚ)

def ensureWhole (label:String) (value:ℚ) : String ⊕ ℚ :=
 if value = ⌊value⌋ then .inr value else .inl (label ++ " must be an integer.")

def excelEDate (startDate:ℤ) (months:ℚ) : Except Exception (String ⊕ ℤ) :=
 match ensureWhole "EDATE months" months with
 | .inl err=>.ok (.inl err)
 | .inr monthsInt => do
  let totalMonths:=dateMonth startDate-1+monthsInt
  let yearOffset:=⌊totalMonths / 12⌋
  let newMonthBase:=⌊totalMonths⌋ % 12+1
  let newYear:=dateYear startDate+yearOffset
  let daysInTarget:=daysInMonth newMonthBase newYear
  let newDay:=if dateDay startDate ≤ daysInTarget then dateDay startDate else daysInTarget
  return .inr (← date newDay newMonthBase newYear)

def excelEOMonth (startDate:ℤ) (months:ℚ) : Except Exception (String ⊕ ℤ) := do
 match ← excelEDate startDate (months+1) with
 | .inl err=>return .inl err
 | .inr nextMonthFirst=>return .inr (dateFromSerial ((dateSerial nextMonthFirst-1:ℤ):ℚ))

/-- A day of a month, or its last one. -/
def clamped (M day:ℤ) : ℤ := monthFirst M+min day (monthLength M)-1

def lastOf (M:ℤ) : ℤ := monthFirst M+monthLength M-1

theorem monthOf_eq (d:ℤ) : monthOf d=12*dateYear d+dateMonth d-1 := rfl

variable (d n:ℤ)

theorem addMonths_eq : addMonths d n = .ok (clamped (monthOf d+n) (dateDay d)) := by
 obtain ⟨hm,hm',hd,-⟩:=toGregorian_spec d
 have hlength:=monthLength_bounds (monthOf d+n)
 have hyear:dateYear d + ⌊((dateMonth d+n-1:ℤ):ℚ) / 12⌋ = (monthOf d+n) / 12:=by
  have hdiv:=Rat.floor_intCast_div_natCast (dateMonth d+n-1) 12
  rw [show ((12:ℕ):ℚ)=12 by rfl] at hdiv
  rw [hdiv,monthOf_eq]
  omega
 have hmonth:(dateMonth d+n-1) % 12=(monthOf d+n) % 12:=by
  rw [monthOf_eq]
  omega
 have hdays:daysInMonth (((monthOf d+n) % 12+1:ℤ):ℚ) (((monthOf d+n) / 12:ℤ):ℚ) =
   monthLength (monthOf d+n) := by
  rw [daysInMonth_eq]
  congr 1
  omega
 rw [addMonths,Int.floor_intCast,hyear,hmonth,hdays,clamped]
 have hday:(if monthLength (monthOf d+n) < dateDay d then monthLength (monthOf d+n)
   else dateDay d)=min (dateDay d) (monthLength (monthOf d+n)) := by
  omega
 rw [hday]
 apply dateFromDMY_eq
 · unfold dateDay
   omega
 · omega

theorem addYears_eq (k:ℤ) : addYears d k=addMonths d ((12*k:ℤ):ℚ) := by
 rw [addYears,Int.floor_intCast,mul_comm]

theorem ensureWhole_intCast (label:String) : ensureWhole label n = .inr (n:ℚ) := by
 rw [ensureWhole,Int.floor_intCast,if_pos rfl]

theorem excelEDate_eq : excelEDate d n = .ok (.inr (clamped (monthOf d+n) (dateDay d))) := by
 have htotal:(dateMonth d:ℚ)-1+n=((dateMonth d-1+n:ℤ):ℚ):=by push_cast; rfl
 have hdiv:=Rat.floor_intCast_div_natCast (dateMonth d-1+n) 12
 rw [show ((12:ℕ):ℚ)=12 by rfl] at hdiv
 have hyear:dateYear d+(dateMonth d-1+n) / (12:ℕ)=(monthOf d+n) / 12:=by
  rw [monthOf_eq]
  omega
 have hmonth:(dateMonth d-1+n) % 12=(monthOf d+n) % 12:=by
  rw [monthOf_eq]
  omega
 have hlength:daysInMonth (((monthOf d+n) % 12+1:ℤ):ℚ) (((monthOf d+n) / 12:ℤ):ℚ) =
   monthLength (monthOf d+n) := by
  rw [daysInMonth_eq]
  congr 1
  omega
 have hday:(if dateDay d ≤ monthLength (monthOf d+n) then dateDay d
   else monthLength (monthOf d+n))=min (dateDay d) (monthLength (monthOf d+n)) := by
  omega
 rw [excelEDate,ensureWhole_intCast]
 dsimp only
 rw [htotal,hdiv,Int.floor_intCast,hyear,hmonth,hlength,hday,date_eq (by omega)]
 dsimp only [bind,Except.bind,pure,Except.pure]
 rw [clamped,show 12*((monthOf d+n) / 12)+((monthOf d+n) % 12+1)-1=monthOf d+n by omega]

theorem excelEOMonth_eq :
  excelEOMonth d n = .ok (.inr (clamped (monthOf d+n+1) (dateDay d)-1)) := by
 have h:=excelEDate_eq d (n+1)
 push_cast at h
 rw [excelEOMonth,h]
 dsimp only [bind,Except.bind,pure,Except.pure]
 rw [dateSerial_eq,dateFromSerial_eq,add_assoc]
 congr 2
 omega

theorem monthOf_mono {d d':ℤ} (h:d ≤ d') : monthOf d ≤ monthOf d' := by
 obtain ⟨-,-,hd,-,heq⟩:=toGregorian_spec d
 obtain ⟨-,-,-,hd',heq'⟩:=toGregorian_spec d'
 by_contra hlt
 have hle:=monthFirst_strictMono.monotone (Int.add_one_le_of_lt (lt_of_not_ge hlt))
 rw [monthFirst_succ] at hle
 omega

theorem clamped_mono {d d' n n':ℤ} (h:d ≤ d') (hn:n ≤ n') :
  clamped (monthOf d+n) (dateDay d) ≤ clamped (monthOf d' + n') (dateDay d') := by
 obtain ⟨-,-,hd,-,heq⟩:=toGregorian_spec d
 obtain ⟨-,-,hd',-,heq'⟩:=toGregorian_spec d'
 have hlength:=monthLength_bounds (monthOf d' + n')
 have hmonth:=monthOf_mono h
 unfold clamped dateDay
 rcases eq_or_lt_of_le (add_le_add hmonth hn) with hsame | hlt
 · rw [show monthOf d=monthOf d' by omega] at heq
   rw [hsame]
   omega
 · have hle:=monthFirst_strictMono.monotone (Int.add_one_le_of_lt hlt)
   rw [monthFirst_succ] at hle
   omega

/-- Month arithmetic from a date clamps to the end of the month. -/
structure Clamps : Prop where
 months : addMonths d n = .ok (clamped (monthOf d+n) (dateDay d))
 edate : excelEDate d n = .ok (.inr (clamped (monthOf d+n) (dateDay d)))
 eomonth : excelEOMonth d n = .ok (.inr (lastOf (monthOf d+n)))
 years : ∀ k:ℤ, addYears d k=addMonths d ((12*k:ℤ):ℚ)
 monotone : ∀ d' n':ℤ, d ≤ d' → n ≤ n' →
  clamped (monthOf d+n) (dateDay d) ≤ clamped (monthOf d' + n') (dateDay d')

/-- Months and years are added as meant, and the end of a month is right from its first day only. -/
theorem month_arithmetic :
  addMonths d n = .ok (clamped (monthOf d+n) (dateDay d)) ∧
  excelEDate d n = .ok (.inr (clamped (monthOf d+n) (dateDay d))) ∧
  (∀ k:ℤ, addYears d k=addMonths d ((12*k:ℤ):ℚ)) ∧
  (∀ d' n':ℤ, d ≤ d' → n ≤ n' →
   clamped (monthOf d+n) (dateDay d) ≤ clamped (monthOf d' + n') (dateDay d')) ∧
  toGregorian (clamped (monthOf d+n) (dateDay d))=((monthOf d+n) / 12,
   (monthOf d+n) % 12+1,min (dateDay d) (monthLength (monthOf d+n))) ∧
  (Clamps d n ↔ dateDay d=1) := by
 have hd:=(toGregorian_spec d).2.2.1
 have hlength:=monthLength_bounds (monthOf d+n)
 have hnext:=monthLength_bounds (monthOf d+n+1)
 have hsucc:=monthFirst_succ (monthOf d+n)
 refine ⟨addMonths_eq d n,excelEDate_eq d n,addYears_eq d,fun d' n'=>clamped_mono,
  toGregorian_eq (by unfold dateDay; omega) (by omega),⟨fun h=>?_,fun h=>?_⟩⟩
 · have hend:=(excelEOMonth_eq d n).symm.trans h.eomonth
   simp only [Except.ok.injEq,Sum.inr.injEq] at hend
   unfold clamped lastOf at hend
   unfold dateDay at hend ⊢
   omega
 · refine ⟨addMonths_eq d n,excelEDate_eq d n,?_,addYears_eq d,fun d' n'=>clamped_mono⟩
   rw [excelEOMonth_eq,h,clamped,lastOf]
   congr 2
   omega

/-- From 31 January 2024 the end of the month comes out as 28 February. -/
theorem eomonth_late : ¬∀ d n:ℤ, Clamps d n := by
 intro h
 have hend:=(excelEOMonth_eq 60340 0).symm.trans (h 60340 0).eomonth
 simp only [Except.ok.injEq,Sum.inr.injEq] at hend
 revert hend
 decide

end L4Ide.MonthArithmetic
