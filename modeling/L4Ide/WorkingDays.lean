import L4Ide.MonthArithmetic
import Mathlib.Data.Nat.Count

set_option autoImplicit false

/-!
# Working days

The days that the spreadsheet functions count, against those that are neither on a weekend nor
holidays.
-/
namespace L4Ide.WorkingDays
open DayDate MonthArithmetic

def weekdayOf (days:ℤ) : ℤ := days % 7

def isWeekend (date:ℤ) : Bool :=
 let w:=weekdayOf (dateSerial date)
 w=6 || w=0

def plusDays (date n:ℤ) : ℤ := dateFromSerial ((dateSerial date+n:ℤ):ℚ)

def containsDay (day:ℤ) : List ℤ → Bool
 | []=>false
 | x::xs=>if x=day then true else containsDay day xs

/-- What follows the first `NOT` is all that is negated. -/
def isWorkday (holidayDays:List ℤ) (date:ℤ) : Bool :=
 !(isWeekend date && !containsDay (dateSerial date) holidayDays)

variable (holidays:List ℤ)

def walk (direction:ℤ) : ℕ → ℤ → ℕ → Option ℤ
 | 0, _, _=>none
 | fuel+1, date, remaining =>
  if remaining=0 then some date
  else
   let nextDate:=plusDays date direction
   let stepConsumed:=if isWorkday (holidays.map dateSerial) nextDate then 1 else 0
   walk direction fuel nextDate (remaining-stepConsumed)

def direction (n:ℚ) : ℤ := if n < 0 then -1 else 1

def excelWorkday (fuel:ℕ) (startDate:ℤ) (days:ℚ) : Option (String ⊕ ℤ) :=
 match ensureWhole "WORKDAY days" days with
 | .inl err=>some (.inl err)
 | .inr normalized =>
  (walk holidays (direction normalized) fuel startDate ⌊normalized⌋.natAbs).map .inr

def countBusiness (current target:ℤ) : ℤ :=
 if dateSerial target < dateSerial current then 0
 else
  (if isWorkday (holidays.map dateSerial) current then 1 else 0) +
   countBusiness (plusDays current 1) target
 termination_by (target+1-current).toNat
 decreasing_by
  rename_i h
  rw [dateSerial_eq,dateSerial_eq] at h
  rw [plusDays,dateFromSerial_eq,dateSerial_eq]
  omega

def excelNetworkDays (startDate endDate:ℤ) : String ⊕ ℤ :=
 let startDay:=dateSerial startDate
 let endDay:=dateSerial endDate
 let minDate:=if startDay ≤ endDay then startDate else endDate
 let maxDate:=if startDay ≤ endDay then endDate else startDate
 let directionSign:=if startDay ≤ endDay then 1 else -1
 .inr (directionSign*countBusiness holidays minDate maxDate)

def Weekday (d:ℤ) : Prop := (d+2) % 7+1 < 6

def Working (d:ℤ) : Prop := Weekday d ∧ d ∉ holidays

instance (d:ℤ) : Decidable (Weekday d) := inferInstanceAs (Decidable (_ < _))

instance (d:ℤ) : Decidable (Working holidays d) := inferInstanceAs (Decidable (_ ∧ _))

/-- How many of `k` days have a property. -/
def among (p:ℤ → Prop) [DecidablePred p] (first step:ℤ) (k:ℕ) : ℕ :=
 Nat.count (fun i:ℕ=>p (first+step*i)) k

/-- Holidays are skipped, counting and walking. -/
structure SkipsHolidays (a b n:ℤ) : Prop where
 networkDays : excelNetworkDays holidays a b =
  .inr ((if b < a then -1 else 1)*among (Working holidays) (min a b) 1 (max a b-min a b+1).toNat)
 workday : ∃ d, (∃ enough, ∀ fuel, enough ≤ fuel → excelWorkday holidays fuel a n=some (.inr d)) ∧
  (n=0 → d=a) ∧
  (n ≠ 0 → Working holidays d ∧ ∃ k:ℕ, d=a+direction n*(k+1) ∧
   among (Working holidays) (a+direction n) (direction n) (k+1)=n.natAbs) ∧
  (0 < n → excelNetworkDays holidays (plusDays a 1) d = .inr n)

/-- No holiday is counted. -/
structure NoHolidayMet (a b n:ℤ) : Prop where
 span : ∀ h ∈ holidays, h < min a b ∨ max a b < h
 walked : ∀ h ∈ holidays, ∀ k:ℕ, h=a+direction n*(k+1) →
  n.natAbs ≤ among Weekday (a+direction n) (direction n) k

def Counted (d:ℤ) : Prop := Weekday d ∨ d ∈ holidays

instance (d:ℤ) : Decidable (Counted holidays d) := inferInstanceAs (Decidable (_ ∨ _))

theorem plusDays_eq (d n:ℤ) : plusDays d n=d+n := by
 rw [plusDays,dateFromSerial_eq,dateSerial_eq]
 omega

theorem isWeekend_iff (d:ℤ) : isWeekend d=true ↔ ¬Weekday d := by
 rw [isWeekend,dateSerial_eq,weekdayOf,Weekday]
 simp only [Bool.or_eq_true,decide_eq_true_eq]
 omega

theorem containsDay_iff (d:ℤ) : containsDay (dateSerial d) (holidays.map dateSerial)=true ↔
  d ∈ holidays := by
 induction holidays with
 | nil=>simp [containsDay]
 | cons h hs ih =>
  rw [List.map_cons,containsDay,List.mem_cons,←ih]
  by_cases heq:d=h
  · simp [heq]
  · rw [if_neg (by rw [dateSerial_eq,dateSerial_eq]; omega)]
    simp [heq]

theorem isWorkday_iff (d:ℤ) :
  isWorkday (holidays.map dateSerial) d=true ↔ Counted holidays d := by
 have hweekend:=isWeekend_iff d
 have hholiday:=containsDay_iff holidays d
 rw [isWorkday,Counted]
 by_cases hw:Weekday d
 · simp [hw,(Bool.eq_false_iff.2 (hweekend.not.2 (not_not.2 hw)))]
 · simp [hw,hweekend.2 hw,hholiday]

theorem among_add (p:ℤ → Prop) [DecidablePred p] (first step:ℤ) (j k:ℕ) :
  among p first step (j+k)=among p first step j+among p (first+step*j) step k := by
 rw [among,Nat.count_add]
 congr 2
 funext i
 rw [Nat.cast_add,mul_add,add_assoc]

theorem among_one (p:ℤ → Prop) [DecidablePred p] (first step:ℤ) :
  among p first step 1 = if p first then 1 else 0 := by
 rw [among,Nat.count_succ,Nat.count_zero]
 simp

theorem among_congr {p q:ℤ → Prop} [DecidablePred p] [DecidablePred q] {first step:ℤ} {k:ℕ}
  (h:∀ i:ℕ, i < k → (p (first+step*i) ↔ q (first+step*i))) :
  among p first step k=among q first step k :=
 le_antisymm (Nat.count_mono_left fun i hi=>(h i hi).1) (Nat.count_mono_left fun i hi=>(h i hi).2)

theorem among_eq_iff {p q:ℤ → Prop} [DecidablePred p] [DecidablePred q] (hpq:∀ d, p d → q d)
  (first step:ℤ) (k:ℕ) : among p first step k=among q first step k ↔
   ∀ i:ℕ, i < k → q (first+step*i) → p (first+step*i) := by
 refine ⟨fun h=>?_,fun h=>among_congr fun i hi=>⟨hpq _,h i hi⟩⟩
 induction k with
 | zero=>exact fun i hi=>absurd hi (Nat.not_lt_zero i)
 | succ k ih =>
  rw [among_add,among_add,among_one,among_one] at h
  have hle:among p first step k ≤ among q first step k:=Nat.count_mono_left fun i _=>hpq _
  by_cases hq:q (first+step*k)
  · by_cases hp:p (first+step*k)
    · rw [if_pos hp,if_pos hq] at h
      intro i hi
      rcases Nat.lt_succ_iff_lt_or_eq.1 hi with hi | rfl
      · exact ih (by omega) i hi
      · exact fun _=>hp
    · rw [if_neg hp,if_pos hq] at h
      omega
  · rw [if_neg fun hp=>hq (hpq _ hp),if_neg hq] at h
    intro i hi
    rcases Nat.lt_succ_iff_lt_or_eq.1 hi with hi | rfl
    · exact ih (by omega) i hi
    · exact fun h'=>absurd h' hq

theorem countBusiness_eq (current target:ℤ) : countBusiness holidays current target =
  among (Counted holidays) current 1 (target+1-current).toNat := by
 induction hk:(target+1-current).toNat generalizing current with
 | zero =>
  rw [countBusiness,if_pos (by rw [dateSerial_eq,dateSerial_eq]; omega)]
  rfl
 | succ k ih =>
  rw [countBusiness,if_neg (by rw [dateSerial_eq,dateSerial_eq]; omega),plusDays_eq,ih _ (by omega),
   Nat.add_comm k,among_add,among_one]
  have hwork:=isWorkday_iff holidays current
  by_cases hc:Counted holidays current
  · simp [hc,hwork.2 hc]
  · simp [hc,Bool.eq_false_iff.2 (hwork.not.2 hc)]

section Walks

variable {dir date:ℤ} {fuel r:ℕ}

theorem walk_succ : walk holidays dir (fuel+1) date (r+1) =
  walk holidays dir fuel (date+dir) (if Counted holidays (date+dir) then r else r+1) := by
 have hwork:=isWorkday_iff holidays (date+dir)
 rw [walk,if_neg (Nat.succ_ne_zero r),plusDays_eq]
 by_cases hc:Counted holidays (date+dir)
 · simp [hc,hwork.2 hc]
 · simp [hc,Bool.eq_false_iff.2 (hwork.not.2 hc)]

theorem walk_to {j:ℕ} (hnone:∀ i:ℕ, i < j → ¬Counted holidays (date+dir+dir*i))
  (hj:Counted holidays (date+dir+dir*j)) : walk holidays dir (fuel+(j+1)) date (r+1) =
   walk holidays dir fuel (date+dir+dir*j) r := by
 induction j generalizing date with
 | zero =>
  rw [Nat.cast_zero,mul_zero,add_zero] at hj
  rw [Nat.zero_add,walk_succ,if_pos hj,Nat.cast_zero,mul_zero,add_zero]
 | succ j ih =>
  have hfirst:=hnone 0 (Nat.succ_pos j)
  rw [Nat.cast_zero,mul_zero,add_zero] at hfirst
  have hshift:∀ i:ℕ, date+dir+dir+dir*i=date+dir+dir*((i+1:ℕ):ℤ):=by
   intro i
   push_cast
   ring
  rw [←hshift] at hj
  rw [←Nat.add_assoc fuel (j+1) 1,walk_succ,if_neg hfirst,
   ih (fun i hi=>by rw [hshift]; exact hnone (i+1) (Nat.succ_lt_succ hi)) hj,hshift]

theorem exists_counted (hdir:dir=1 ∨ dir = -1) : ∃ j:ℕ, Counted holidays (date+dir*j) := by
 by_contra hnone
 have h0:¬Weekday date:=fun h=>hnone ⟨0,.inl (by simpa using h)⟩
 have h1:¬Weekday (date+dir*1):=fun h=>hnone ⟨1,.inl (by simpa using h)⟩
 have h2:¬Weekday (date+dir*2):=fun h=>hnone ⟨2,.inl (by simpa using h)⟩
 unfold Weekday at h0 h1 h2
 rcases hdir with rfl | rfl <;> omega

theorem walk_spec (hdir:dir=1 ∨ dir = -1) (r:ℕ) (date:ℤ) :
  ∃ k:ℕ, (∀ fuel, k < fuel → walk holidays dir fuel date r=some (date+dir*k)) ∧
   among (Counted holidays) (date+dir) dir k=r ∧ (r=0 → k=0) ∧
   (r ≠ 0 → ∃ j, k=j+1 ∧ Counted holidays (date+dir+dir*(j:ℕ))) := by
 induction r generalizing date with
 | zero =>
  refine ⟨0,fun fuel hfuel=>?_,rfl,fun _=>rfl,fun h=>absurd rfl h⟩
  obtain ⟨fuel,rfl⟩:=Nat.exists_eq_succ_of_ne_zero hfuel.ne'
  simp [walk]
 | succ r ih =>
  have hex:=@exists_counted holidays dir (date+dir) hdir
  have hj:=Nat.find_spec hex
  have hnone:=fun (i:ℕ) hi=>Nat.find_min hex (m := i) hi
  generalize Nat.find hex=j at hj hnone
  obtain ⟨k,hwalk,hcount,hzero,hlast⟩:=ih (date+dir+dir*j)
  have hshift:∀ i:ℕ, date+dir+dir*j+dir+dir*i=date+dir+dir*((j+1+i:ℕ):ℤ):=by
   intro i
   push_cast
   ring
  refine ⟨j+1+k,fun fuel hfuel=>?_,?_,fun h=>absurd h (Nat.succ_ne_zero r),fun _=>?_⟩
  · obtain ⟨fuel,rfl⟩:=Nat.exists_eq_add_of_le' (show j+1 ≤ fuel by omega)
    rw [walk_to holidays hnone hj,hwalk fuel (by omega)]
    congr 1
    push_cast
    ring
  · have hskip:among (Counted holidays) (date+dir) dir j=0:=
     Nat.count_iff_forall_not.2 hnone
    have hnext:date+dir+dir*((j+1:ℕ):ℤ)=date+dir+dir*j+dir:=by
     push_cast
     ring
    rw [among_add,among_add,hskip,among_one,if_pos hj,hnext,hcount,Nat.zero_add,Nat.add_comm]
  · by_cases hr:r=0
    · exact ⟨j,by rw [hzero hr],hj⟩
    · obtain ⟨i,rfl,hi⟩:=hlast hr
      exact ⟨j+1+i,rfl,by rwa [←hshift]⟩

end Walks

variable (a b n:ℤ)

theorem direction_eq : direction n = if n < 0 then -1 else 1 := by
 rw [direction]
 exact if_congr (by exact_mod_cast Iff.rfl) rfl rfl

theorem excelWorkday_eq (fuel:ℕ) : excelWorkday holidays fuel a n =
  (walk holidays (direction n) fuel a n.natAbs).map .inr := by
 rw [excelWorkday,ensureWhole_intCast]
 simp only [Int.floor_intCast]

theorem excelNetworkDays_eq : excelNetworkDays holidays a b =
  .inr ((if b < a then -1 else 1) *
   among (Counted holidays) (min a b) 1 (max a b-min a b+1).toNat) := by
 rw [excelNetworkDays,dateSerial_eq,dateSerial_eq]
 by_cases h:b < a
 · rw [if_neg (by omega),if_neg (by omega),if_neg (by omega),if_pos h,countBusiness_eq,
    min_eq_right h.le,max_eq_left h.le,show a+1-b=a-b+1 by omega]
 · rw [if_pos (by omega),if_pos (by omega),if_pos (by omega),if_neg h,countBusiness_eq,
    min_eq_left (by omega),max_eq_right (by omega),show b+1-a=b-a+1 by omega]

theorem Working.counted {d:ℤ} (h:Working holidays d) : Counted holidays d := .inl h.1

theorem networkDays_iff : excelNetworkDays holidays a b =
  .inr ((if b < a then -1 else 1) *
   among (Working holidays) (min a b) 1 (max a b-min a b+1).toNat) ↔
  ∀ h ∈ holidays, h < min a b ∨ max a b < h := by
 have hcancel:∀ x y:ℕ, ((if b < a then -1 else 1:ℤ)*x=(if b < a then -1 else 1)*y) ↔ x=y:=by
  intro x y
  split <;> omega
 rw [excelNetworkDays_eq,Sum.inr.injEq,hcancel,eq_comm,
  among_eq_iff fun d=>Working.counted holidays]
 constructor
 · intro hskip h hmem
   by_contra hin
   have hat:min a b+1*((h-min a b).toNat:ℤ)=h:=by omega
   have hwork:=hskip (h-min a b).toNat (by omega)
   rw [hat] at hwork
   exact (hwork (.inr hmem)).2 hmem
 · intro hspan i hi hcounted
   have hnot:min a b+1*(i:ℤ) ∉ holidays:=fun hmem => by
    rcases hspan _ hmem with h | h <;> omega
   exact ⟨hcounted.resolve_right hnot,hnot⟩

/-- The walk ends on the right day where it meets no holiday before it has met enough weekdays. -/
theorem walked_iff {k:ℕ}
  (hcount:among (Counted holidays) (a+direction n) (direction n) (k+1)=n.natAbs)
  (hlast:Counted holidays (a+direction n+direction n*k)) :
  among (Working holidays) (a+direction n) (direction n) (k+1)=n.natAbs ↔
   ∀ h ∈ holidays, ∀ j:ℕ, h=a+direction n*(j+1) →
    n.natAbs ≤ among Weekday (a+direction n) (direction n) j := by
 have hsplit:=among_add (Counted holidays) (a+direction n) (direction n) k 1
 rw [among_one,if_pos hlast,hcount] at hsplit
 have hat:∀ j:ℕ, a+direction n*((j:ℤ)+1)=a+direction n+direction n*j:=by
  intro j
  ring
 rw [←hcount,among_eq_iff fun d=>Working.counted holidays,hcount]
 constructor
 · rintro hskip h hmem j rfl
   have hbeyond:k+1 ≤ j:=by
    by_contra hle
    have hwork:=hskip j (by omega)
    rw [←hat] at hwork
    exact (hwork (.inr hmem)).2 hmem
   have hsame:among Weekday (a+direction n) (direction n) (k+1)=n.natAbs:=by
    rw [←hcount]
    refine among_congr fun i hi=>⟨.inl,fun h=>(hskip i hi h).1⟩
   rw [←hsame]
   exact Nat.count_monotone _ hbeyond
 · intro hmet i hi hcounted
   have hnot:a+direction n+direction n*(i:ℤ) ∉ holidays:=by
    intro hmem
    have hle:=hmet _ hmem i (hat i).symm
    have hweekdays:among Weekday (a+direction n) (direction n) i ≤
      among (Counted holidays) (a+direction n) (direction n) i :=
     Nat.count_mono_left fun _ _=>.inl
    have hmono:among (Counted holidays) (a+direction n) (direction n) i ≤
      among (Counted holidays) (a+direction n) (direction n) k :=
     Nat.count_monotone _ (Nat.lt_succ_iff.1 hi)
    omega
   exact ⟨hcounted.resolve_right hnot,hnot⟩

theorem workday_ends : ∃ k:ℕ, (∀ fuel, k < fuel →
   excelWorkday holidays fuel a n=some (.inr (a+direction n*k))) ∧
  (n=0 → k=0) ∧
  (n ≠ 0 → ∃ j, k=j+1 ∧ Counted holidays (a+direction n+direction n*(j:ℕ))) ∧
  among (Counted holidays) (a+direction n) (direction n) k=n.natAbs ∧
  (0 < n → excelNetworkDays holidays (plusDays a 1) (a+direction n*k) = .inr n) := by
 obtain ⟨k,hwalk,hcount,hzero,hlast⟩:=@walk_spec holidays (direction n)
  (by rw [direction_eq]; split <;> simp) n.natAbs a
 refine ⟨k,fun fuel hfuel=>?_,fun h=>hzero (Int.natAbs_eq_zero.2 h),
  fun h=>hlast (Int.natAbs_ne_zero.2 h),hcount,fun hpos=>?_⟩
 · rw [excelWorkday_eq,hwalk fuel hfuel]
   rfl
 · obtain ⟨j,rfl,-⟩:=hlast (Int.natAbs_ne_zero.2 hpos.ne')
   have hdir:direction n=1:=by rw [direction_eq,if_neg (by omega)]
   rw [hdir] at hcount ⊢
   rw [plusDays_eq,excelNetworkDays_eq,if_neg (by push_cast; omega),min_eq_left (by push_cast; omega),
    max_eq_right (by push_cast; omega),
    show (a+1*((j+1:ℕ):ℤ)-(a+1)+1).toNat=j+1 by push_cast; omega,hcount,one_mul]
   exact congrArg _ (Int.natAbs_of_nonneg hpos.le)

/-- Holidays are skipped exactly where none is met: on a weekend they are counted as working days, and
on a weekday as well. -/
theorem holidays_skipped : SkipsHolidays holidays a b n ↔ NoHolidayMet holidays a b n := by
 obtain ⟨k,hends,hzero,hlast,hcount,hagain⟩:=workday_ends holidays a n
 constructor
 · rintro ⟨hnetwork,d,⟨enough,hd⟩,-,hwork,-⟩
   refine ⟨(networkDays_iff holidays a b).1 hnetwork,?_⟩
   by_cases hn:n=0
   · intro h _ j _
     rw [hn]
     exact Nat.zero_le _
   · have heq:=(hd (max enough (k+1)) (le_max_left _ _)).symm.trans
      (hends (max enough (k+1)) (le_max_right enough (k+1)))
     obtain ⟨j,rfl,hj⟩:=hlast hn
     obtain ⟨-,i,hi,hmatch⟩:=hwork hn
     rw [Option.some.injEq,Sum.inr.injEq] at heq
     have hij:i=j:=by
      rw [heq] at hi
      push_cast at hi
      rw [direction_eq] at hi
      split at hi <;> omega
     rw [hij] at hmatch
     exact (walked_iff holidays a n hcount hj).1 hmatch
 · rintro ⟨hspan,hmet⟩
   refine ⟨(networkDays_iff holidays a b).2 hspan,_,⟨k+1,hends⟩,fun h=>?_,fun hn=>?_,hagain⟩
   · rw [hzero h]
     simp
   · obtain ⟨j,rfl,hj⟩:=hlast hn
     have hmatch:=(walked_iff holidays a n hcount hj).2 hmet
     have hskip:=(among_eq_iff (fun d=>Working.counted holidays) _ _ _).1 (hmatch.trans hcount.symm)
     have hat:a+direction n*((j+1:ℕ):ℤ)=a+direction n+direction n*j:=by
      push_cast
      ring
     refine ⟨?_,j,by push_cast; rfl,hmatch⟩
     rw [hat]
     exact hskip j (Nat.lt_succ_self j) hj

/-- Friday 26 January 2024 is listed, and is counted. -/
theorem holiday_counted : ¬∀ holidays a b n, SkipsHolidays holidays a b n := by
 intro h
 have hspan:=(networkDays_iff [60335] 60310 60340).1 (h [60335] 60310 60340 0).networkDays
 exact absurd (hspan 60335 List.mem_cons_self) (by decide)

end L4Ide.WorkingDays
