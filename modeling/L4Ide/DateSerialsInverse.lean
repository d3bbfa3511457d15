import L4Ide.DateSerials

set_option autoImplicit false

/-!
# Serials there and back

Splitting towards zero leaves a fraction of the serial's own sign: what is below zero and not a
whole number gets a time of day before midnight. The datestamp and the order do not depend on it.
-/
namespace L4Ide.DateSerials

theorem resolution_pos : (0 : ℚ) < resolution := by norm_num [resolution]

theorem secondsPerDay_pos : (0 : ℚ) < secondsPerDay := by norm_num [secondsPerDay]

theorem fromRational_toRational (p:Pico) : Pico.fromRational p.toRational=p := by
 ext
 rw [Pico.fromRational,Pico.toRational,div_mul_cancel₀ _ resolution_pos.ne', Int.floor_intCast]

theorem properFraction_of_nonneg {s:ℚ} (h:0 ≤ s) :
  properFraction s=(⌊s⌋,s - ⌊s⌋) := by
 rw [properFraction,Int.tdiv_eq_ediv_of_nonneg (Rat.num_nonneg.2 h),←Rat.floor_def']

theorem properFraction_of_neg {s:ℚ} (h:s < 0) :
  properFraction s=(⌈s⌉,s - ⌈s⌉) := by
 have hdiv:s.num.tdiv s.den = ⌈s⌉:=by
  have hneg:(-s).num.tdiv (-s).den = ⌊-s⌋:=by
   rw [Int.tdiv_eq_ediv_of_nonneg (Rat.num_nonneg.2 (by linarith)),←Rat.floor_def']
  rw [Rat.num_neg_eq_neg_num,Rat.den_neg_eq_den,Int.neg_tdiv] at hneg
  rw [←Int.neg_neg ⌈s⌉,←Int.floor_neg,←hneg,Int.neg_neg]
 rw [properFraction,hdiv]

theorem properFraction_add (s:ℚ) : (properFraction s).1+(properFraction s).2=s := by
 rw [properFraction]
 ring

theorem fraction_bounds (s:ℚ) : -1 < (properFraction s).2 ∧ (properFraction s).2 < 1 := by
 rcases le_or_gt 0 s with h | h
 · rw [properFraction_of_nonneg h]
   have hle:=Int.floor_le s
   have hlt:=Int.lt_floor_add_one s
   constructor <;> dsimp only <;> linarith
 · rw [properFraction_of_neg h]
   have hle:=Int.le_ceil s
   have hlt:=Int.ceil_lt_add_one s
   constructor <;> dsimp only <;> linarith

theorem fraction_nonneg_iff (s:ℚ) :
  0 ≤ (properFraction s).2 ↔ 0 ≤ s ∨ ∃ n : ℤ, s=n := by
 rcases le_or_gt 0 s with h | h
 · rw [properFraction_of_nonneg h]
   have hle:=Int.floor_le s
   exact iff_of_true (by dsimp only; linarith) (Or.inl h)
 · rw [properFraction_of_neg h]
   constructor
   · intro hfraction
     exact Or.inr ⟨⌈s⌉,le_antisymm (Int.le_ceil s) (by dsimp only at hfraction; linarith)⟩
   · rintro (hs | ⟨n,rfl⟩)
     · exact absurd hs (not_le.2 h)
     · simp

theorem wholeDays_mono {s t:ℚ} (h:s ≤ t) : (properFraction s).1 ≤ (properFraction t).1 := by
 rcases le_or_gt 0 s with hs | hs
 · rw [properFraction_of_nonneg hs,properFraction_of_nonneg (hs.trans h)]
   exact Int.floor_mono h
 · rw [properFraction_of_neg hs]
   rcases le_or_gt 0 t with ht | ht
   · rw [properFraction_of_nonneg ht]
     have hceil:⌈s⌉ ≤ 0:=Int.ceil_le.2 (by simpa using hs.le)
     exact hceil.trans (Int.floor_nonneg.2 ht)
   · rw [properFraction_of_neg ht]
     exact Int.ceil_mono h

/-- The smallest difference the clock shows, in days. -/
def clockResolution : ℚ := 1 / (resolution*secondsPerDay)

theorem clockResolution_pos : 0 < clockResolution :=
 one_div_pos.2 (mul_pos resolution_pos secondsPerDay_pos)

/-- Within a day. -/
def ValidTime (t:UTCTime) : Prop :=
 0 ≤ t.utctDayTime.toRational ∧ t.utctDayTime.toRational < secondsPerDay

/-- The serial, up to what the clock shows. -/
def Close (s:ℚ) : Prop :=
 s-clockResolution < utcDatestamp (serialToUTCTime s) ∧ utcDatestamp (serialToUTCTime s) ≤ s

theorem serialToUTCTime_eq (s:ℚ) :
  serialToUTCTime s=⟨l4EpochDay+((properFraction s).1+1),
   Pico.fromRational ((properFraction s).2*secondsPerDay)⟩ := by
 rw [serialToUTCTime]
 dsimp only
 rw [fromRational_toRational,addDays]

theorem validTime_iff (s:ℚ) :
  ValidTime (serialToUTCTime s) ↔ 0 ≤ s ∨ ∃ n : ℤ, s=n := by
 have hscale:(0 : ℚ) < secondsPerDay*resolution:=mul_pos secondsPerDay_pos resolution_pos
 rw [ValidTime,serialToUTCTime_eq,←fraction_nonneg_iff,Pico.toRational,Pico.fromRational,
  mul_assoc]
 dsimp only
 generalize hf:(properFraction s).2=f
 have hbound:f < 1:=hf ▸ (fraction_bounds s).2
 constructor
 · rintro ⟨h,-⟩
   have hfloor:(0 : ℚ) ≤ ⌊f*(secondsPerDay*resolution)⌋:=by
    by_contra hneg
    exact absurd h (not_le.2 (div_neg_of_neg_of_pos (not_le.1 hneg) resolution_pos))
   have hle:=Int.floor_le (f*(secondsPerDay*resolution))
   exact nonneg_of_mul_nonneg_left (hfloor.trans hle) hscale
 · intro h
   have hfloor:(0 : ℤ) ≤ ⌊f*(secondsPerDay*resolution)⌋:=
    Int.floor_nonneg.2 (mul_nonneg h hscale.le)
   refine ⟨div_nonneg (by exact_mod_cast hfloor) resolution_pos.le, ?_⟩
   rw [div_lt_iff₀ resolution_pos]
   have hle:=Int.floor_le (f*(secondsPerDay*resolution))
   have hlt:=mul_lt_mul_of_pos_right hbound hscale
   linarith

theorem close (s:ℚ) : Close s := by
 have hscale:(0 : ℚ) < secondsPerDay*resolution:=mul_pos secondsPerDay_pos resolution_pos
 have hstamp:utcDatestamp (serialToUTCTime s)=(properFraction s).1 +
   ⌊(properFraction s).2*(secondsPerDay*resolution)⌋ / (secondsPerDay*resolution) := by
  rw [utcDatestamp,serialToUTCTime_eq,diffTimeFraction,dayNumberFromDay,diffDays]
  dsimp only
  rw [fromRational_toRational,Pico.toRational,Pico.fromRational,mul_assoc,div_div,
   mul_comm resolution]
  push_cast
  ring
 have hadd:=properFraction_add s
 rw [Close,hstamp,clockResolution,mul_comm resolution]
 generalize (properFraction s).1=d at hadd
 generalize (properFraction s).2=f at hadd
 have hle:=Int.floor_le (f*(secondsPerDay*resolution))
 have hlt:=Int.lt_floor_add_one (f*(secondsPerDay*resolution))
 rw [←div_le_iff₀ hscale] at hle
 rw [←lt_div_iff₀ hscale,add_div] at hlt
 constructor <;> linarith

theorem before_of_add_le {s t:ℚ} (h:s+clockResolution ≤ t) :
  (serialToUTCTime s).before (serialToUTCTime t)=true := by
 have hscale:(0 : ℚ) < resolution*secondsPerDay:=mul_pos resolution_pos secondsPerDay_pos
 have hdays:=wholeDays_mono (show s ≤ t by linarith [clockResolution_pos])
 rw [UTCTime.before,serialToUTCTime_eq,serialToUTCTime_eq]
 simp only [Bool.or_eq_true,Bool.and_eq_true,decide_eq_true_eq]
 rcases hdays.lt_or_eq with hlt | heq
 · left
   linarith
 · right
   refine ⟨by rw [heq], ?_⟩
   have hs:=properFraction_add s
   have ht:=properFraction_add t
   rw [heq] at hs
   have hfractions:(properFraction s).2+clockResolution ≤ (properFraction t).2:=by linarith
   have hunits:(properFraction s).2*secondsPerDay*resolution+1 ≤
     (properFraction t).2*secondsPerDay*resolution := by
    have hmul:=mul_le_mul_of_nonneg_right hfractions hscale.le
    rw [add_mul,clockResolution,one_div_mul_cancel hscale.ne'] at hmul
    linarith
   have hfloor:=Int.floor_mono hunits
   rw [Int.floor_add_one] at hfloor
   exact Int.lt_of_add_one_le hfloor

theorem dateFromSerial_dateSerial (d:Day) :
  (do let v ← runBuiltin (.valDate d) .dateSerial; runBuiltin v .dateFromSerial) =
   .ok (.valDate d) := by
 have hday:(serialToUTCTime (dayNumberFromDay d)).utctDay=d:=by
  rw [serialToUTCTime_eq,properFraction,Rat.num_intCast,Rat.den_intCast]
  dsimp only
  rw [Nat.cast_one,Int.tdiv_one,dayNumberFromDay,diffDays]
  ring
 exact congrArg (fun day=>Except.ok (WHNF.valDate day)) hday

/-- Days come back from their serials, every serial from its time, and times are in the order of
    their serials; the time is one of the day unless the serial is negative and not whole. -/
theorem serials_inverse_iff (d:Day) (s:ℚ) :
  (do let v ← runBuiltin (.valDate d) .dateSerial; runBuiltin v .dateFromSerial) =
   .ok (.valDate d) ∧
  Close s ∧
  (ValidTime (serialToUTCTime s) ∧ Close s ↔ 0 ≤ s ∨ ∃ n : ℤ, s=n) ∧
  ∀ t, s+clockResolution ≤ t → (serialToUTCTime s).before (serialToUTCTime t)=true := by
 refine ⟨dateFromSerial_dateSerial d,close s,?_,fun t h=>before_of_add_le h⟩
 rw [←validTime_iff]
 exact and_iff_left (close s)

theorem serials_inverse_half :
  serialToUTCTime (3 / 2)=⟨l4EpochDay+2,⟨43200*10 ^ 12⟩⟩ ∧
  (serialToUTCTime (1 / 2)).before (serialToUTCTime (3 / 2))=true := by
 refine ⟨by decide +kernel,(serials_inverse_iff l4EpochDay (1 / 2)).2.2.2 (3 / 2) ?_⟩
 norm_num [clockResolution,resolution,secondsPerDay]

/-- Half a day before serial zero is the noon before the midnight at which its day begins. -/
theorem minusHalf_not_validTime :
  serialToUTCTime (-1 / 2)=⟨l4EpochDay+1,⟨-43200*10 ^ 12⟩⟩ ∧
  ¬∀ s, ValidTime (serialToUTCTime s) ∧ Close s := by
 refine ⟨by decide +kernel,fun h=>?_⟩
 have hvalid:=(h (-1 / 2)).1.1
 rw [show serialToUTCTime (-1 / 2)=⟨l4EpochDay+1,⟨-43200*10 ^ 12⟩⟩ by decide +kernel,
  Pico.toRational] at hvalid
 norm_num [resolution] at hvalid

end L4Ide.DateSerials
