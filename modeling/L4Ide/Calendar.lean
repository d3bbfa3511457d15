import Mathlib
import L4Ide.DateSerials

set_option autoImplicit false

/-!
# The Gregorian calendar

Years and months as intervals of days, and the parts of a day.
-/
namespace L4Ide.Calendar
open DateSerials

def toOrdinalDate (day:ℤ) : ℤ × ℤ :=
 let a:=day+678575
 let quadcent:=a / 146097
 let b:=a % 146097
 let cent:=min (b / 36524) 3
 let c:=b-cent*36524
 let quad:=c / 1461
 let d:=c % 1461
 let y:=min (d / 365) 3
 (quadcent*400+cent*100+quad*4+y+1,d-y*365+1)

def findMonthDay : List ℤ → ℤ → ℤ × ℤ
 | n::ns, yd=>if n < yd then
   let (m,d):=findMonthDay ns (yd-n)
   (m+1,d)
  else (1,yd)
 | [], yd=>(1,yd)

def dayOfYearToMonthAndDay (isLeap:Bool) (yd:ℤ) : ℤ × ℤ :=
 findMonthDay (monthLengths isLeap) (clip 1 (if isLeap then 366 else 365) yd)

/-- The year, the month and the day of the month. -/
def toGregorian (day:ℤ) : ℤ × ℤ × ℤ :=
 let (year,yd):=toOrdinalDate day
 (year,dayOfYearToMonthAndDay (isLeapYear year) yd)

def fromGregorianValid (year month day:ℤ) : Option Day :=
 if 1 ≤ month ∧ month ≤ 12 ∧ 1 ≤ day ∧
  day ≤ (monthLengths (isLeapYear year)).getD (month-1).toNat 31 then
  some (fromGregorian year month day)
 else none

def yearStart (year:ℤ) : ℤ :=
 365*(year-1)+(year-1) / 4-(year-1) / 100+(year-1) / 400-678575

def yearLength (year:ℤ) : ℤ := if isLeapYear year then 366 else 365

theorem isLeapYear_iff (year:ℤ) :
  isLeapYear year=true ↔ year % 4=0 ∧ (year % 400=0 ∨ ¬year % 100=0) := by
 simp [isLeapYear]

theorem yearStart_succ (year:ℤ) : yearStart (year+1)=yearStart year+yearLength year := by
 unfold yearStart yearLength
 split
 · rename_i h
   rw [isLeapYear_iff] at h
   omega
 · rename_i h
   rw [isLeapYear_iff] at h
   omega

theorem yearLength_bounds (year:ℤ) : 365 ≤ yearLength year ∧ yearLength year ≤ 366 := by
 unfold yearLength
 split <;> omega

theorem yearStart_strictMono : StrictMono yearStart := by
 apply strictMono_int_of_lt_succ
 intro year
 rw [yearStart_succ]
 have:=yearLength_bounds year
 omega

theorem yearStart_cycle {q c k y:ℤ} (hc:0 ≤ c ∧ c ≤ 3) (hk:0 ≤ k ∧ k ≤ 24) (hy:0 ≤ y ∧ y ≤ 3) :
  yearStart (q*400+c*100+k*4+y+1) =
   q*146097+c*36524+k*1461+y*365-678575 := by
 unfold yearStart
 omega

theorem yearLength_cycle {q c k y:ℤ} (hc:0 ≤ c ∧ c ≤ 3) (hk:0 ≤ k ∧ k ≤ 24) (hy:0 ≤ y ∧ y ≤ 3) :
  yearLength (q*400+c*100+k*4+y+1) =
   if y=3 ∧ (k < 24 ∨ c=3) then 366 else 365 := by
 unfold yearLength
 refine if_congr ?_ rfl rfl
 rw [isLeapYear_iff]
 omega

theorem toOrdinalDate_spec (day:ℤ) :
  day=yearStart (toOrdinalDate day).1+(toOrdinalDate day).2-1 ∧
   1 ≤ (toOrdinalDate day).2 ∧ (toOrdinalDate day).2 ≤ yearLength (toOrdinalDate day).1 := by
 obtain ⟨a,ha⟩ : ∃ a, a=day+678575:=⟨_,rfl⟩
 obtain ⟨q,hq⟩ : ∃ q, q=a / 146097:=⟨_,rfl⟩
 obtain ⟨c,hc⟩ : ∃ c, c=min (a % 146097 / 36524) 3:=⟨_,rfl⟩
 obtain ⟨r,hr⟩ : ∃ r, r=a % 146097-c*36524:=⟨_,rfl⟩
 obtain ⟨k,hk⟩ : ∃ k, k=r / 1461:=⟨_,rfl⟩
 obtain ⟨y,hy⟩ : ∃ y, y=min (r % 1461 / 365) 3:=⟨_,rfl⟩
 have heq:toOrdinalDate day=(q*400+c*100+k*4+y+1,r % 1461-y*365+1):=by
  rw [toOrdinalDate,hy,hk,hr,hc,hq,ha]
 have hcs:0 ≤ c ∧ c ≤ 3:=by omega
 have hrs:0 ≤ r ∧ r ≤ 36524 ∧ (c < 3 → r < 36524):=by omega
 have hks:0 ≤ k ∧ k ≤ 24:=by omega
 have hys:0 ≤ y ∧ y ≤ 3:=by omega
 rw [heq]
 dsimp only
 rw [yearStart_cycle hcs hks hys,yearLength_cycle hcs hks hys]
 refine ⟨by omega,by omega,?_⟩
 split <;> omega

theorem toOrdinalDate_eq {year yd:ℤ} (h:1 ≤ yd) (h':yd ≤ yearLength year) :
  toOrdinalDate (yearStart year+yd-1)=(year,yd) := by
 obtain ⟨heq,hlow,hhigh⟩:=toOrdinalDate_spec (yearStart year+yd-1)
 generalize toOrdinalDate (yearStart year+yd-1)=parts at heq hlow hhigh ⊢
 obtain ⟨y,d⟩:=parts
 dsimp only at heq hlow hhigh
 have hyear:y=year:=by
  rcases lt_trichotomy y year with hlt | rfl | hlt
  · have hle:=yearStart_strictMono.monotone (Int.add_one_le_of_lt hlt)
    rw [yearStart_succ] at hle
    omega
  · rfl
  · have hle:=yearStart_strictMono.monotone (Int.add_one_le_of_lt hlt)
    rw [yearStart_succ] at hle
    omega
 subst hyear
 rw [show d=yd by omega]

/-- Months counted from January of the year 0. -/
def monthFirst (M:ℤ) : ℤ :=
 yearStart (M / 12)+((monthLengths (isLeapYear (M / 12))).take (M % 12).toNat).sum

def monthLength (M:ℤ) : ℤ := (monthLengths (isLeapYear (M / 12))).getD (M % 12).toNat 31

theorem sum_monthLengths (leap:Bool) :
  (monthLengths leap).sum = if leap then 366 else 365 := by
 cases leap <;> rfl

theorem monthLengths_pos {leap:Bool} {n:ℤ} (h:n ∈ monthLengths leap) : 28 ≤ n ∧ n ≤ 31 := by
 cases leap <;> simp [monthLengths] at h <;> omega

theorem monthLength_bounds (M:ℤ) : 28 ≤ monthLength M ∧ monthLength M ≤ 31 := by
 have hlt:(M % 12).toNat < (monthLengths (isLeapYear (M / 12))).length:=by
  rw [show (monthLengths (isLeapYear (M / 12))).length=12 by rfl]
  omega
 rw [monthLength,List.getD_eq_getElem _ _ hlt]
 exact monthLengths_pos (List.getElem_mem hlt)

theorem monthFirst_succ (M:ℤ) : monthFirst (M+1)=monthFirst M+monthLength M := by
 have hlength:(monthLengths (isLeapYear (M / 12))).length=12:=rfl
 have hlt:(M % 12).toNat < (monthLengths (isLeapYear (M / 12))).length:=by omega
 have hsum:=List.sum_take_succ (monthLengths (isLeapYear (M / 12))) (M % 12).toNat hlt
 rw [monthFirst,monthFirst,monthLength,List.getD_eq_getElem _ _ hlt,add_assoc,←hsum]
 by_cases h:M % 12=11
 · have hall:(monthLengths (isLeapYear (M / 12))).take ((M % 12).toNat+1) =
    monthLengths (isLeapYear (M / 12)):=List.take_of_length_le (by omega)
   rw [show (M+1) / 12=M / 12+1 by omega,show ((M+1) % 12).toNat=0 by omega,
    yearStart_succ,hall,sum_monthLengths]
   simp [yearLength]
 · rw [show (M+1) / 12=M / 12 by omega,
    show ((M+1) % 12).toNat=(M % 12).toNat+1 by omega]

theorem monthFirst_strictMono : StrictMono monthFirst := by
 apply strictMono_int_of_lt_succ
 intro M
 rw [monthFirst_succ]
 have:=monthLength_bounds M
 omega

theorem monthFirst_year (year:ℤ) : monthFirst (12*year)=yearStart year := by
 rw [monthFirst,show 12*year / 12=year by omega,show (12*year % 12).toNat=0 by omega]
 simp

theorem findMonthDay_spec {ns:List ℤ} {yd:ℤ} (h:1 ≤ yd) (h':yd ≤ ns.sum) :
  ∃ k:ℕ, k < ns.length ∧ findMonthDay ns yd=((k:ℤ)+1,yd-(ns.take k).sum) ∧
   1 ≤ yd-(ns.take k).sum ∧ yd-(ns.take k).sum ≤ ns.getD k 31 := by
 induction ns generalizing yd with
 | nil =>
  rw [List.sum_nil] at h'
  omega
 | cons n ns ih =>
  rw [List.sum_cons] at h'
  by_cases hn:n < yd
  · obtain ⟨k,hk,heq,hlow,hhigh⟩:=@ih (yd-n) (by omega) (by omega)
    refine ⟨k+1,Nat.succ_lt_succ hk,?_,?_,?_⟩
    · rw [findMonthDay,if_pos hn,heq,List.take_succ_cons,List.sum_cons]
      simp [sub_sub]
    · rw [List.take_succ_cons,List.sum_cons]
      omega
    · rw [List.take_succ_cons,List.sum_cons,List.getD_cons_succ]
      omega
  · refine ⟨0,Nat.succ_pos _,?_,?_,?_⟩
    · rw [findMonthDay,if_neg hn]
      simp
    · simpa using h
    · simpa using hn

/-- The month of a day. -/
def monthOf (day:ℤ) : ℤ := 12*(toGregorian day).1+(toGregorian day).2.1-1

theorem toGregorian_spec (day:ℤ) :
  1 ≤ (toGregorian day).2.1 ∧ (toGregorian day).2.1 ≤ 12 ∧ 1 ≤ (toGregorian day).2.2 ∧
   (toGregorian day).2.2 ≤ monthLength (monthOf day) ∧
   day=monthFirst (monthOf day)+(toGregorian day).2.2-1 := by
 obtain ⟨heq,hlow,hhigh⟩:=toOrdinalDate_spec day
 have hparts:toGregorian day=((toOrdinalDate day).1,
   dayOfYearToMonthAndDay (isLeapYear (toOrdinalDate day).1) (toOrdinalDate day).2):=rfl
 generalize toOrdinalDate day=parts at heq hlow hhigh hparts
 obtain ⟨year,yd⟩:=parts
 dsimp only at heq hlow hhigh hparts
 have hclip:clip 1 (if isLeapYear year then 366 else 365) yd=yd:=by
  unfold yearLength at hhigh
  unfold clip
  omega
 obtain ⟨k,hk,hfind,hone,hlength⟩:=@findMonthDay_spec (monthLengths (isLeapYear year)) _ hlow
  (by rw [sum_monthLengths]; exact hhigh)
 have hk' : k < 12:=hk
 have hmonth:monthOf day=12*year+k:=by
  rw [monthOf,hparts,dayOfYearToMonthAndDay,hclip,hfind]
  dsimp only
  omega
 rw [hmonth,monthLength,monthFirst,hparts,dayOfYearToMonthAndDay,hclip,hfind,
  show (12*year+k) / 12=year by omega,show ((12*year+k) % 12).toNat=k by omega]
 dsimp only
 refine ⟨by omega,by omega,hone,hlength,?_⟩
 omega

theorem toGregorian_eq {M d:ℤ} (h:1 ≤ d) (h':d ≤ monthLength M) :
  toGregorian (monthFirst M+d-1)=(M / 12,M % 12+1,d) := by
 obtain ⟨hm,hm',hd,hd',heq⟩:=toGregorian_spec (monthFirst M+d-1)
 have hmonth:monthOf (monthFirst M+d-1)=M:=by
  rcases lt_trichotomy (monthOf (monthFirst M+d-1)) M with hlt | heq | hlt
  · have hle:=monthFirst_strictMono.monotone (Int.add_one_le_of_lt hlt)
    rw [monthFirst_succ] at hle
    omega
  · exact heq
  · have hle:=monthFirst_strictMono.monotone (Int.add_one_le_of_lt hlt)
    rw [monthFirst_succ] at hle
    omega
 rw [hmonth] at heq
 have hyear:=hmonth
 unfold monthOf at hyear
 generalize toGregorian (monthFirst M+d-1)=parts at *
 obtain ⟨y,m,n⟩:=parts
 dsimp only at *
 rw [Prod.mk.injEq,Prod.mk.injEq]
 omega

theorem monthAndDayToDayOfYear_eq {leap:Bool} {k:ℕ} {d:ℤ} (hk:k < 12) (h:1 ≤ d)
  (h':d ≤ (monthLengths leap).getD k 31) :
  monthAndDayToDayOfYear leap (k+1) d=((monthLengths leap).take k).sum+d := by
 have hmonth:clip 1 12 ((k:ℤ)+1)=k+1:=by
  unfold clip
  omega
 rw [monthAndDayToDayOfYear,hmonth,show ((k:ℤ)+1-1).toNat=k by omega]
 have hday:clip 1 ((monthLengths leap).getD k 31) d=d:=by
  unfold clip
  omega
 rw [hday]
 have hstart:∀ leap, ∀ k:ℕ, k < 12 → (367*((k:ℤ)+1)-362) / 12 +
   (if (k:ℤ)+1 ≤ 2 then 0 else if leap then -1 else -2) =
   ((monthLengths leap).take k).sum := by decide
 rw [hstart leap k hk]

theorem fromGregorianValid_eq {year d:ℤ} {k:ℕ} (hk:k < 12) (h:1 ≤ d)
  (h':d ≤ monthLength (12*year+k)) :
  fromGregorianValid year (k+1) d=some (monthFirst (12*year+k)+d-1) := by
 have hyear:(12*year+k) / 12=year:=by omega
 have hmonth:((12*year+k) % 12).toNat=k:=by omega
 rw [monthLength,hyear,hmonth] at h'
 rw [fromGregorianValid,show ((k:ℤ)+1-1).toNat=k by omega,if_pos (by omega),fromGregorian,
  monthAndDayToDayOfYear_eq hk h h',monthFirst,hyear,hmonth,fromOrdinalDate]
 have hsum:0 ≤ ((monthLengths (isLeapYear year)).take k).sum ∧
   ((monthLengths (isLeapYear year)).take k).sum+(monthLengths (isLeapYear year)).getD k 31 ≤
    if isLeapYear year then 366 else 365 := by
  have hall:∀ leap, ∀ k:ℕ, k < 12 → 0 ≤ ((monthLengths leap).take k).sum ∧
    ((monthLengths leap).take k).sum+(monthLengths leap).getD k 31 ≤
     if leap then 366 else 365 := by decide
  exact hall _ k hk
 have hclip:clip 1 (if isLeapYear year then 366 else 365)
   (((monthLengths (isLeapYear year)).take k).sum+d) =
   ((monthLengths (isLeapYear year)).take k).sum+d := by
  unfold clip
  omega
 have hday:((monthLengths (isLeapYear year)).take k).sum+d+365*(year-1)+(year-1) / 4 -
   (year-1) / 100+(year-1) / 400-678576 =
   yearStart year+((monthLengths (isLeapYear year)).take k).sum+d-1 := by
  unfold yearStart
  omega
 rw [hclip]
 exact congrArg some hday

end L4Ide.Calendar
