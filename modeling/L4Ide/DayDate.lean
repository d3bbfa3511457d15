import L4Ide.Calendar

set_option autoImplicit false

/-!
# The date library

Constructors of dates, the lengths of months and years, and the months of a date.
-/
namespace L4Ide.DayDate
open DateSerials Calendar

inductive Exception where
 | internal (label:String)
 | user (message:String)
 | refusal (reason:String)
 deriving DecidableEq

def expectWhole (label:String) (n:ℚ) : Except Exception ℤ :=
 if n.den=1 then .ok n.num else .error (.internal label)

def dateFromDMY (d m y:ℚ) : Except Exception ℤ := do
 let dInt ← expectWhole "DATE_FROM_DMY expects integer day" d
 let mInt ← expectWhole "DATE_FROM_DMY expects integer month" m
 let yInt ← expectWhole "DATE_FROM_DMY expects integer year" y
 match fromGregorianValid yInt mInt dInt with
 | some day=>.ok day
 | none=>.error (.user ("DATE_FROM_DMY produced an invalid date from day=" ++ toString dInt ++
   ", month=" ++ toString mInt ++ ", year=" ++ toString yInt))

def dateSerial (date:ℤ) : ℤ := dayNumberFromDay date

def dateFromSerial (serial:ℚ) : ℤ := (serialToUTCTime serial).utctDay

def dateYear (date:ℤ) : ℤ := (toGregorian date).1

def dateMonth (date:ℤ) : ℤ := (toGregorian date).2.1

def dateDay (date:ℤ) : ℤ := (toGregorian date).2.2

def isLeapYear (year:ℚ) : Bool :=
 let y:=⌊year⌋
 y % 4=0 && ¬y % 100=0 || y % 400=0

def daysInMonth (month year:ℚ) : ℤ :=
 let m:=1+(⌊month⌋ - 1) - ⌊(month-1) / 12⌋ * 12
 let y:=⌊year⌋ + ⌊month / 12⌋
 if m=4 ∨ m=6 ∨ m=9 ∨ m=11 then 30
 else if m=2 then if isLeapYear y then 29 else 28
 else 31

def daysOfMonths (year:ℚ) : ℕ → ℤ
 | 0=>0
 | m+1=>daysInMonth (m+1) year+daysOfMonths year m

def monthsSinceYearStartToDays (month year:ℚ) : ℤ := daysOfMonths year (⌊month⌋ - 1).toNat

def yearsToDays (year:ℚ) : ℚ :=
 let y:ℚ:=⌊year-1⌋
 year*365 + ⌊y / 4⌋ - ⌊y / 100⌋ + ⌊y / 400⌋

def monthOfDays (year c:ℤ) : ℕ → ℤ → ℤ
 | 0, i=>i
 | fuel+1, i =>
  if i < 12 ∧ monthsSinceYearStartToDays (i+1) year < c then monthOfDays year c fuel (i+1) else i

def monthOfTheYear (date:ℤ) : ℤ :=
 monthOfDays (dateYear date) (monthsSinceYearStartToDays (dateMonth date+1) (dateYear date)) 12 1

def date (day month year:ℚ) : Except Exception ℤ := do
 let jan1 ← dateFromDMY 1 1 year
 let jan1serial:=dateSerial jan1
 let monthDays:=monthsSinceYearStartToDays month year
 return dateFromSerial (jan1serial+monthDays+day-1)

def ymd (year month day:ℚ) : Except Exception ℤ :=
 if 1 ≤ month ∧ month ≤ 12 ∧ ⌊month⌋ = month then
  if ⌊year⌋ = year then do
   let candidate ← date day month year
   if dateYear candidate=year ∧ dateMonth candidate=month ∧ dateDay candidate=day then
    .ok candidate
   else .error (.refusal "YMD: that month has no such day in that year")
  else .error (.refusal "YMD: the year is not a whole number")
 else .error (.refusal "YMD: the month is not a whole number from 1 to 12")

theorem dateSerial_eq (d:ℤ) : dateSerial d=d+678940 := by
 have hepoch:l4EpochDay=(-678941:ℤ):=by decide
 rw [dateSerial,dayNumberFromDay,diffDays,hepoch]
 omega

theorem properFraction_intCast (n:ℤ) : (properFraction n).1=n := by
 rw [properFraction,Rat.num_intCast,Rat.den_intCast]
 exact Int.tdiv_one n

theorem dateFromSerial_eq (n:ℤ) : dateFromSerial n=n-678940 := by
 have hepoch:l4EpochDay=(-678941:ℤ):=by decide
 have hday:dateFromSerial n=addDays ((properFraction n).1+1) l4EpochDay:=rfl
 rw [hday,properFraction_intCast,addDays,hepoch]
 omega

theorem expectWhole_intCast (label:String) (n:ℤ) : expectWhole label n = .ok n := by
 rw [expectWhole,if_pos (Rat.den_intCast n),Rat.num_intCast]

theorem dateFromDMY_eq {M d:ℤ} (h:1 ≤ d) (h':d ≤ monthLength M) :
  dateFromDMY d ((M % 12+1:ℤ):ℚ) ((M / 12:ℤ):ℚ) = .ok (monthFirst M+d-1) := by
 obtain ⟨k,hk⟩:=Int.eq_ofNat_of_zero_le (Int.emod_nonneg M (show (12:ℤ) ≠ 0 by decide))
 have hk' : k < 12 := by omega
 have hM:12*(M / 12)+k=M:=by omega
 have hvalid:=@fromGregorianValid_eq (M / 12) d k hk' h (by rwa [hM])
 rw [hM,←hk] at hvalid
 rw [dateFromDMY,expectWhole_intCast,expectWhole_intCast,expectWhole_intCast]
 dsimp only [bind,Except.bind]
 rw [hvalid]

theorem isLeapYear_intCast (y:ℤ) : isLeapYear y=DateSerials.isLeapYear y := by
 rw [Bool.eq_iff_iff,isLeapYear_iff,isLeapYear]
 simp
 omega

theorem monthLength_eq (M:ℤ) : monthLength M =
  if M % 12+1=4 ∨ M % 12+1=6 ∨ M % 12+1=9 ∨ M % 12+1=11 then 30
  else if M % 12+1=2 then if DateSerials.isLeapYear (M / 12) then 29 else 28
  else 31 := by
 have hall:∀ leap, ∀ k:ℕ, k < 12 → (monthLengths leap).getD k 31 =
   if (k:ℤ)+1=4 ∨ (k:ℤ)+1=6 ∨ (k:ℤ)+1=9 ∨ (k:ℤ)+1=11 then 30
   else if (k:ℤ)+1=2 then if leap then 29 else 28
   else 31 := by decide
 rw [monthLength,hall _ _ (by omega),Int.toNat_of_nonneg (by omega)]

theorem daysInMonth_eq (m y:ℤ) : daysInMonth m y=monthLength (12*y+m-1) := by
 have hbefore:⌊((m:ℚ)-1) / 12⌋ = (m-1) / 12:=by
  exact_mod_cast Rat.floor_intCast_div_natCast (m-1) 12
 have hyear:⌊(m:ℚ) / 12⌋ = m / 12:=by
  exact_mod_cast Rat.floor_intCast_div_natCast m 12
 rw [daysInMonth,hbefore,hyear,Int.floor_intCast,Int.floor_intCast,isLeapYear_intCast,
  monthLength_eq,show 1+(m-1)-(m-1) / 12*12=(12*y+m-1) % 12+1 by omega]
 by_cases h:(12*y+m-1) % 12+1=2
 · rw [show (12*y+m-1) / 12=y+m / 12 by omega]
 · simp [h]

theorem daysOfMonths_eq (y:ℤ) (k:ℕ) :
  daysOfMonths y k=monthFirst (12*y+k)-monthFirst (12*y) := by
 induction k with
 | zero=>simp [daysOfMonths]
 | succ k ih =>
  have hlength:=daysInMonth_eq (k+1) y
  have hsucc:=monthFirst_succ (12*y+k)
  rw [show 12*y+((k:ℤ)+1)-1=12*y+k by omega] at hlength
  rw [daysOfMonths,ih]
  push_cast at hlength ⊢
  rw [hlength,show 12*y+((k:ℤ)+1)=12*y+k+1 by omega,hsucc]
  omega

theorem monthsSince_eq {m:ℤ} (h:1 ≤ m) (y:ℤ) :
  monthsSinceYearStartToDays m y=monthFirst (12*y+m-1)-monthFirst (12*y) := by
 rw [monthsSinceYearStartToDays,Int.floor_intCast,daysOfMonths_eq,Int.toNat_of_nonneg (by omega),
  ← add_sub_assoc]

theorem yearsToDays_eq (y:ℤ) : yearsToDays y=dateSerial (monthFirst (12*y)) := by
 have hfloor:⌊(y:ℚ)-1⌋ = y-1:=by
  exact_mod_cast Int.floor_intCast (R := ℚ) (y-1)
 have hdiv:∀ k:ℕ, ⌊((y-1:ℤ):ℚ) / k⌋ = (y-1) / k:=fun k =>
  Rat.floor_intCast_div_natCast (y-1) k
 have h4:=hdiv 4
 have h100:=hdiv 100
 have h400:=hdiv 400
 push_cast at h4 h100 h400
 rw [yearsToDays,hfloor]
 push_cast
 rw [h4,h100,h400,monthFirst_year,dateSerial_eq]
 have hyear:yearStart y+678940=y*365+(y-1) / 4-(y-1) / 100+(y-1) / 400:=by
  unfold yearStart
  omega
 rw [hyear]
 push_cast
 rfl

theorem jan1_eq (y:ℤ) : dateFromDMY 1 1 y = .ok (monthFirst (12*y)) := by
 have hlength:=monthLength_bounds (12*y)
 have h:=dateFromDMY_eq (M := 12*y) (d := 1) (by omega) (by omega)
 rw [show 12*y % 12=0 by omega,show 12*y / 12=y by omega] at h
 simpa using h

theorem date_eq {m:ℤ} (h:1 ≤ m) (n y:ℤ) :
  date n m y = .ok (monthFirst (12*y+m-1)+n-1) := by
 rw [date,jan1_eq]
 dsimp only [bind,Except.bind,pure,Except.pure]
 rw [monthsSince_eq h,dateSerial_eq]
 have hserial:=dateFromSerial_eq (monthFirst (12*y)+678940 +
  (monthFirst (12*y+m-1)-monthFirst (12*y))+n-1)
 push_cast at hserial ⊢
 rw [hserial]
 congr 1
 omega

theorem monthOfDays_eq {y m i:ℤ} {fuel:ℕ} (hi:1 ≤ i) (him:i ≤ m) (hm:m ≤ 12)
  (hfuel:m-i ≤ fuel) :
  monthOfDays y (monthsSinceYearStartToDays (m+1) y) fuel i=m := by
 induction fuel generalizing i with
 | zero =>
  rw [monthOfDays]
  omega
 | succ fuel ih =>
  have hsince:∀ j:ℤ, 1 ≤ j → monthsSinceYearStartToDays (j+1) y =
    monthFirst (12*y+j)-monthFirst (12*y) := by
   intro j hj
   have h:=monthsSince_eq (m := j+1) (by omega) y
   rw [show 12*y+(j+1)-1=12*y+j by omega] at h
   exact_mod_cast h
  have hlt:monthsSinceYearStartToDays (i+1) y < monthsSinceYearStartToDays (m+1) y ↔ i < m:=by
   rw [hsince i hi,hsince m (by omega),sub_lt_sub_iff_right,monthFirst_strictMono.lt_iff_lt]
   omega
  rw [monthOfDays]
  by_cases h:i < m
  · rw [if_pos ⟨by omega,hlt.2 h⟩]
    exact ih (by omega) (by omega) (by omega)
  · rw [if_neg fun h'=>h (hlt.1 h'.2)]
    omega

theorem monthOfTheYear_eq (d:ℤ) : monthOfTheYear d=dateMonth d := by
 obtain ⟨hm,hm',-⟩:=toGregorian_spec d
 exact monthOfDays_eq (by decide) hm hm' (by unfold dateMonth; omega)

theorem date_parts (d:ℤ) : date (dateDay d) (dateMonth d) (dateYear d) = .ok d := by
 obtain ⟨hm,-,-,-,hd⟩:=toGregorian_spec d
 rw [dateMonth,date_eq hm]
 exact congrArg _ hd.symm

theorem ymd_eq_ok_iff (y m n:ℚ) (d:ℤ) :
  ymd y m n = .ok d ↔ dateYear d=y ∧ dateMonth d=m ∧ dateDay d=n := by
 constructor
 · intro h
   rw [ymd] at h
   split at h
   · split at h
     · cases hdate:date n m y with
       | error e=>simp [hdate,bind,Except.bind] at h
       | ok candidate =>
        rw [hdate] at h
        dsimp only [bind,Except.bind] at h
        split at h
        · cases h
          assumption
        · cases h
     · cases h
   · cases h
 · rintro ⟨rfl,rfl,rfl⟩
   obtain ⟨hm,hm',-⟩:=toGregorian_spec d
   rw [ymd,if_pos ⟨by exact_mod_cast hm,by exact_mod_cast hm',by rw [Int.floor_intCast]⟩,
    if_pos (by rw [Int.floor_intCast]),date_parts]
   simp [bind,Except.bind]

theorem ymd_refuses {y m n:ℚ} {e:Exception} (h:ymd y m n = .error e) : ∃ reason, e = .refusal reason := by
 rw [ymd] at h
 split at h
 · split at h
   · rename_i hyear
     rw [←hyear,date,jan1_eq] at h
     dsimp only [bind,Except.bind,pure,Except.pure] at h
     split at h <;> cases h
     exact ⟨_,rfl⟩
   · cases h
     exact ⟨_,rfl⟩
 · cases h
   exact ⟨_,rfl⟩

/-- The constructors follow the calendar: months and days that do not exist roll forward, lengths are
those of the months and years, and a date is made of its parts or refused. -/
theorem constructors_gregorian :
  (∀ y m n:ℤ, 1 ≤ m → date n m y = .ok (monthFirst (12*y+m-1)+(n-1)) ∧
   toGregorian (monthFirst (12*y+m-1))=(y+(m-1) / 12,(m-1) % 12+1,1) ∧
   daysInMonth m y=monthFirst (12*y+m)-monthFirst (12*y+m-1) ∧
   monthsSinceYearStartToDays m y=monthFirst (12*y+m-1)-monthFirst (12*y)) ∧
  (∀ y:ℤ, dateFromDMY 1 1 y = .ok (monthFirst (12*y)) ∧
   yearsToDays y=dateSerial (monthFirst (12*y))) ∧
  (∀ d, monthOfTheYear d=dateMonth d) ∧
  ∀ y m n:ℚ, (∀ d:ℤ, ymd y m n = .ok d ↔ dateYear d=y ∧ dateMonth d=m ∧ dateDay d=n) ∧
   ∀ e, ymd y m n = .error e → ∃ reason, e = .refusal reason := by
 refine ⟨fun y m n h=>⟨?_,?_,?_,monthsSince_eq h y⟩,fun y=>⟨jan1_eq y,yearsToDays_eq y⟩,
  monthOfTheYear_eq,fun y m n=>⟨ymd_eq_ok_iff y m n,fun e=>ymd_refuses⟩⟩
 · rw [date_eq h,add_sub_assoc]
 · have hlength:=monthLength_bounds (12*y+m-1)
   have hfirst:=toGregorian_eq (M := 12*y+m-1) (d := 1) (by omega) (by omega)
   rw [add_sub_cancel_right] at hfirst
   rw [hfirst,show (12*y+m-1) / 12=y+(m-1) / 12 by omega,
    show (12*y+m-1) % 12=(m-1) % 12 by omega]
 · have hsucc:=monthFirst_succ (12*y+m-1)
   rw [sub_add_cancel] at hsucc
   rw [daysInMonth_eq,hsucc]
   omega

/-- The second month of the next year. -/
theorem constructors_gregorian_roll : date 31 14 2023 = .ok (monthFirst 24289+30) := by
 simpa using (constructors_gregorian.1 2023 14 31 (by decide)).1

end L4Ide.DayDate
