import L4Ide.WorkingDays

set_option autoImplicit false

/-!
# Week numbers

The weeks of the date library, against those of ISO 8601.
-/
namespace L4Ide.WeekNumbers
open Calendar DayDate WorkingDays

def month (month year:ℚ) : Except Exception ℤ := do
 return dateFromSerial (dateSerial (← date 1 month year))

def year (year:ℚ) : Except Exception ℤ := month 1 year

def weekdayOf1stDayOfYear (y:ℚ) : Except Exception ℤ := do
 return weekdayOf (dateSerial (← year y))

/-- The Monday of a week of a year. -/
def week (week y:ℚ) : Except Exception ℤ := do
 let w:=⌊week⌋
 let o:=(7+2+(← weekdayOf1stDayOfYear y)) % 7
 return plusDays (← year y) (3-7-o+w*7)

def weekOfDays (days:ℤ) : ℤ :=
 let w:=weekdayOf days
 if w=0 then dateFromSerial ((days-(7-1):ℤ):ℚ) else dateFromSerial ((days-w+1:ℤ):ℚ)

def weekOf (date:ℤ) : ℤ := weekOfDays (dateSerial date)

def weeksInYear (year:ℚ) : ℤ :=
 let y:=⌊year⌋ - 1
 let k:=y % 100
 let j:=⌊(y:ℚ) / 100⌋
 let h:=(37+k + ⌊(k:ℚ) / 4⌋ + ⌊(j:ℚ) / 4⌋ + 5*j) % 7
 if h=5 ∨ h=4 ∧ isLeapYear year then 53 else 52

def weekOfTheYear (date:ℤ) : Except Exception ℤ := do
 let s:=monthsSinceYearStartToDays (dateMonth date) (dateYear date)+(dateDay date-1)
 let w:=(7+2+(← weekdayOf1stDayOfYear (dateYear date))) % 7
 let n:=⌈((s+w-2:ℤ):ℚ) / 7⌉
 return if n=53 ∧ weeksInYear (dateYear date)=52 then 1
  else if n=0 then weeksInYear ((dateYear date-1:ℤ):ℚ)
  else n

def weekOfTheYearOfDays (days:ℚ) : Except Exception ℤ := weekOfTheYear (dateFromSerial days)

def theWeekAfter (date:ℤ) : ℤ :=
 let days:=dateSerial date
 let d:=7-weekdayOf days+1
 if 7 < d then dateFromSerial ((days+d-7:ℤ):ℚ) else dateFromSerial ((days+d:ℤ):ℚ)

def theWeekBefore (date:ℤ) : ℤ := plusDays (theWeekAfter date) (-(7*2))

def monday (d:ℤ) : ℤ := d-(d+2) % 7

def fourthOfJanuary (y:ℤ) : ℤ := monthFirst (12*y)+3

/-- The week is counted in the year of its Thursday, from the one of the fourth of January. -/
def isoWeek (d:ℤ) : ℤ :=
 1+(monday d-monday (fourthOfJanuary (dateYear (monday d+3)))) / 7

theorem weekOf_eq (d:ℤ) : weekOf d=monday d := by
 rw [weekOf,weekOfDays,weekdayOf,dateSerial_eq,dateFromSerial_eq,dateFromSerial_eq,monday]
 omega

theorem theWeekAfter_eq (d:ℤ) : theWeekAfter d=monday d+7 := by
 rw [theWeekAfter,weekdayOf,dateSerial_eq,dateFromSerial_eq,dateFromSerial_eq,monday]
 omega

theorem year_eq (y:ℤ) : year y = .ok (yearStart y) := by
 have h:=date_eq (m := 1) (by decide) 1 y
 rw [Int.cast_one,show 12*y+1-1=12*y by omega,monthFirst_year] at h
 rw [year,month,h]
 dsimp only [bind,Except.bind,pure,Except.pure]
 rw [dateFromSerial_eq,dateSerial_eq]
 congr 1
 omega

theorem weekday_eq (y:ℤ) :
  weekdayOf1stDayOfYear y = .ok ((yearStart y+3) % 7) := by
 rw [weekdayOf1stDayOfYear,year_eq]
 dsimp only [bind,Except.bind,pure,Except.pure]
 rw [weekdayOf,dateSerial_eq]
 congr 1
 omega

theorem week_eq (w y:ℤ) : week w y = .ok (monday (fourthOfJanuary y)+7*(w-1)) := by
 rw [week,weekday_eq,year_eq,Int.floor_intCast]
 dsimp only [bind,Except.bind,pure,Except.pure]
 rw [plusDays_eq,fourthOfJanuary,monthFirst_year,monday]
 congr 1
 omega

theorem dateYear_eq {y d:ℤ} (h:yearStart y ≤ d) (h':d < yearStart (y+1)) : dateYear d=y := by
 rw [yearStart_succ] at h'
 have hparts:=@toOrdinalDate_eq y (d-yearStart y+1) (by omega) (by omega)
 rw [show yearStart y+(d-yearStart y+1)-1=d by omega] at hparts
 change (toOrdinalDate d).1=y
 rw [hparts]

theorem dateYear_bounds (d:ℤ) :
  yearStart (dateYear d) ≤ d ∧ d < yearStart (dateYear d)+yearLength (dateYear d) := by
 obtain ⟨h,hlow,hhigh⟩:=toOrdinalDate_spec d
 change yearStart (toOrdinalDate d).1 ≤ d ∧
  d < yearStart (toOrdinalDate d).1+yearLength (toOrdinalDate d).1
 omega

theorem zeller (y:ℤ) : (37+(y-1) % 100+(y-1) % 100 / 4+(y-1) / 100 / 4 +
  5*((y-1) / 100)) % 7=(yearStart y+4) % 7 := by
 obtain ⟨j,hj⟩ : ∃ j, (y-1) / 100=j:=⟨_,rfl⟩
 obtain ⟨k,hk⟩ : ∃ k, (y-1) % 100=k:=⟨_,rfl⟩
 have hy:y-1=100*j+k:=by omega
 have h4:(y-1) / 4=25*j+k / 4:=by omega
 have h400:(y-1) / 400=j / 4:=by omega
 rw [yearStart,hj,hk,h4,h400,hy]
 omega

theorem floor_div (n:ℤ) (k:ℕ) : ⌊(n:ℚ) / k⌋ = n / k := Rat.floor_intCast_div_natCast n k

theorem weeksInYear_eq (y:ℤ) : weeksInYear y =
  (yearLength y+(yearStart y+5) % 7) / 7 := by
 have h100:⌊((y-1:ℤ):ℚ) / 100⌋ = (y-1) / 100:=floor_div (y-1) 100
 have h4:⌊(((y-1) % 100:ℤ):ℚ) / 4⌋ = (y-1) % 100 / 4:=floor_div ((y-1) % 100) 4
 have h400:⌊(((y-1) / 100:ℤ):ℚ) / 4⌋ = (y-1) / 100 / 4:=floor_div ((y-1) / 100) 4
 rw [weeksInYear,Int.floor_intCast,h100,h4,h400,zeller,isLeapYear_intCast,yearLength]
 cases DateSerials.isLeapYear y
 · simp
   omega
 · simp
   omega

/-- Weeks counted in the year of the day itself: 0 for the last week of the year before. -/
theorem week_number {y d:ℤ} (h:dateYear d=y) (n:ℤ)
  (hn:n=1+(monday d-monday (fourthOfJanuary y)) / 7) :
  weekOfTheYear d = .ok (if n=53 ∧ weeksInYear y=52 then 1
   else if n=0 then weeksInYear ((y-1:ℤ):ℚ) else n) := by
 obtain ⟨hm,-,-,-,hd⟩:=toGregorian_spec d
 have hsince:monthsSinceYearStartToDays (dateMonth d) (dateYear d)+(dateDay d-1) =
   d-yearStart (dateYear d) := by
  have hmonths:=monthsSince_eq (m := dateMonth d) hm (dateYear d)
  change d=monthFirst (12*dateYear d+dateMonth d-1)+dateDay d-1 at hd
  rw [hmonths,monthFirst_year]
  omega
 have hceil:∀ x:ℤ, ⌈(x:ℚ) / 7⌉ = -(-x / 7):=fun x=>Rat.ceil_intCast_div_natCast x 7
 have hweek:-(-(d-yearStart y+(7+2+(yearStart y+3) % 7) % 7-2) / 7)=n:=by
  rw [hn,fourthOfJanuary,monthFirst_year,monday,monday]
  omega
 rw [weekOfTheYear,hsince,weekday_eq]
 dsimp only [bind,Except.bind,pure,Except.pure]
 rw [hceil,h,hweek]

theorem weekOfTheYear_eq (d:ℤ) : weekOfTheYear d = .ok (isoWeek d) := by
 obtain ⟨hstart,hend⟩:=dateYear_bounds d
 obtain ⟨y,hy⟩ : ∃ y, dateYear d=y:=⟨_,rfl⟩
 rw [hy] at hstart hend
 have hlength:=yearLength_bounds y
 have hnumber:=week_number hy _ rfl
 have hweeks:=weeksInYear_eq y
 have hsucc:=yearStart_succ y
 have hbefore:=yearStart_succ (y-1)
 have hbefore':=yearLength_bounds (y-1)
 have hweeks':=weeksInYear_eq (y-1)
 rw [sub_add_cancel] at hbefore
 rw [hnumber,isoWeek,fourthOfJanuary,fourthOfJanuary,monthFirst_year,monthFirst_year]
 congr 1
 rcases lt_trichotomy (monday d+3) (yearStart y) with hlt | heq | hlt
 · -- the week of the last Thursday of the year before
   have hyear:dateYear (monday d+3)=y-1:=by
    apply dateYear_eq
    · unfold monday at hlt ⊢
      omega
    · rwa [sub_add_cancel]
   rw [hyear,hweeks']
   unfold monday at hlt ⊢
   omega
 · have hyear:dateYear (monday d+3)=y:=dateYear_eq heq.ge (by omega)
   rw [hyear,hweeks]
   unfold monday at heq ⊢
   omega
 · by_cases hnext:monday d+3 < yearStart (y+1)
   · rw [dateYear_eq hlt.le hnext,hweeks]
     rw [hsucc] at hnext
     unfold monday at hlt hnext ⊢
     omega
   · -- the week of the first Thursday of the next year
     have hyear:dateYear (monday d+3)=y+1:=by
      have hnext':=yearStart_succ (y+1)
      have hlength':=yearLength_bounds (y+1)
      apply dateYear_eq
      · exact not_lt.1 hnext
      · unfold monday at hnext ⊢
        omega
     rw [hyear,hweeks,hsucc]
     rw [hsucc] at hnext
     unfold monday at hnext ⊢
     omega

theorem weeksInYear_iso {y d:ℤ} (h:toGregorian d=(y,12,28)) : weeksInYear y=isoWeek d := by
 obtain ⟨-,-,-,-,hd⟩:=toGregorian_spec d
 have hmonth:monthOf d=12*y+11:=by
  rw [monthOf,h]
  dsimp only
  omega
 have hlast:d=yearStart y+yearLength y-4:=by
  have hnext:=monthFirst_succ (12*y+11)
  have hlength:=monthLength_eq (12*y+11)
  rw [show (12*y+11) % 12+1=12 by omega] at hlength
  rw [show 12*y+11+1=12*(y+1) by omega,monthFirst_year,yearStart_succ,hlength] at hnext
  rw [hmonth,h] at hd
  simp at hnext hd
  omega
 have hlength:=yearLength_bounds y
 have hsucc:=yearStart_succ y
 have hyear:dateYear (monday d+3)=y:=by
  apply dateYear_eq <;> unfold monday <;> omega
 rw [weeksInYear_eq,isoWeek,hyear,fourthOfJanuary,monthFirst_year,hlast]
 unfold monday
 omega

/-- Weeks start on Mondays and are numbered as the standard says. -/
theorem weeks_iso :
  (∀ d, (weekOf d+2) % 7=0 ∧ weekOf d ≤ d ∧ d < weekOf d+7 ∧
   weekOfTheYear d = .ok (isoWeek d) ∧
   theWeekAfter d=weekOf d+7 ∧ theWeekBefore d=weekOf d-7) ∧
  (∀ y:ℤ, (∀ d, toGregorian d=(y,12,28) → weeksInYear y=isoWeek d) ∧
   ∀ w:ℤ, 1 ≤ w → w ≤ weeksInYear y →
    week w y = .ok (weekOf (fourthOfJanuary y)+7*(w-1))) ∧
  ∀ n:ℤ, weekOfDays n=weekOf (dateFromSerial n) ∧
   weekOfTheYearOfDays n=weekOfTheYear (dateFromSerial n) := by
 refine ⟨fun d=>⟨?_,?_,?_,weekOfTheYear_eq d,?_,?_⟩,
  fun y=>⟨fun d=>weeksInYear_iso,fun w _ _=>?_⟩,fun n=>⟨?_,rfl⟩⟩
 · rw [weekOf_eq,monday]
   omega
 · rw [weekOf_eq,monday]
   omega
 · rw [weekOf_eq,monday]
   omega
 · rw [theWeekAfter_eq,weekOf_eq]
 · rw [theWeekBefore,plusDays_eq,theWeekAfter_eq,weekOf_eq]
   omega
 · rw [week_eq,weekOf_eq]
 · rw [weekOf,dateSerial_eq,dateFromSerial_eq,sub_add_cancel]

/-- 2020 has 53 weeks. -/
theorem weeks_iso_2020 : weeksInYear (2020:ℤ)=isoWeek 59211 :=
 (weeks_iso.2.1 2020).1 59211 (by decide)

end L4Ide.WeekNumbers
