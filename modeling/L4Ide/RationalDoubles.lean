import L4Ide.DoubleRounding
import L4Ide.RationalCore
import Mathlib.Data.Nat.Log
import L4Ide.RationalCoreExact

set_option autoImplicit false

/-!
# Rationals as doubles

How the runtime turns an exact rational into a double: a mantissa of 53 bits by division, and its
product with a power of two.
-/
namespace L4Ide.RationalDoubles
open NearestInteger DoubleRounding RationalCore

/-- The length of `x.toString(2)`. -/
def bitLen (x:ℤ) : ℤ := if x=0 then 0 else Nat.log 2 x.natAbs+1

def scale (n d e:ℤ) : ℤ × ℤ :=
 if 0 ≤ e then (n,d*2 ^ e.toNat) else (n*2 ^ (-e).toNat,d)

def mantissa (n d:ℤ) : ℤ × ℤ :=
 let e:=bitLen n-bitLen d-53
 let (num,den):=scale n d e
 let mant:=num.tdiv den
 let e:=if 2 ^ 53 ≤ mant then e+1 else if mant < 2 ^ 52 then e-1 else e
 let (num,den):=scale n d e
 let mant:=num.tdiv den
 let twice:=num.tmod den*2
 if den < twice ∨ twice=den ∧ mant % 2=1 then
  if mant+1=2 ^ 53 then (2 ^ 52,e+1) else (mant+1,e)
 else (mant,e)

/-- `Math.pow(2, e)`. -/
def mathPow (e:ℤ) : Double := roundDouble (2 ^ e)

def product (a:ℤ) : Double → Double
 | .finite p=>roundDouble (a*p)
 | .infinite negative=>.infinite (negative != (a < 0))

def ratToDouble (r:Ratio) : Double :=
 if r.num=0 then .finite 0
 else
  let sign:ℤ:=if r.num < 0 then -1 else 1
  let n:=if r.num < 0 then -r.num else r.num
  let (mant,e):=mantissa n r.den
  product (sign*mant) (mathPow e)

end L4Ide.RationalDoubles

/-!
## Which doubles rationals become

The mantissa and the exponent of the runtime against correct rounding, and the doubles that its
product with a power of two gives.
-/
namespace L4Ide.RationalDoublesNearest
open NearestInteger DoubleRounding RationalCore RationalCoreExact RationalDoubles

/-! ## The mantissa -/

theorem bitLen_spec {x:ℤ} (h:0 < x) :
  (2 : ℚ) ^ (bitLen x-1) ≤ x ∧ (x:ℚ) < 2 ^ bitLen x := by
 have hnat:(x.natAbs : ℚ)=x:=by rw [Nat.cast_natAbs,abs_of_pos h]
 have hne:x.natAbs ≠ 0:=by omega
 have hlen:bitLen x=(Nat.log 2 x.natAbs : ℤ)+1:=if_neg (ne_of_gt h)
 rw [hlen,add_sub_cancel_right]
 constructor
 · rw [zpow_natCast,←hnat]
   exact_mod_cast Nat.pow_log_le_self 2 hne
 · rw [←hnat]
   exact_mod_cast Nat.lt_pow_succ_log_self one_lt_two x.natAbs

variable {x q:ℚ} {n d e:ℤ}

theorem scale_spec (hn:0 < n) (hd:0 < d) (e:ℤ) :
  0 < (scale n d e).1 ∧ 0 < (scale n d e).2 ∧
   ((scale n d e).1 : ℚ) / (scale n d e).2=(n / d : ℚ) / 2 ^ e := by
 have hd' : (d:ℚ) ≠ 0:=by exact_mod_cast ne_of_gt hd
 unfold scale
 by_cases he:0 ≤ e
 · rw [if_pos he]
   refine ⟨hn,by positivity, ?_⟩
   push_cast
   rw [←zpow_natCast,Int.toNat_of_nonneg he,div_div]
 · rw [if_neg he]
   refine ⟨by positivity,hd, ?_⟩
   push_cast
   rw [←zpow_natCast,Int.toNat_of_nonneg (by omega),zpow_neg,div_div,mul_comm (d:ℚ),
    ← div_div,div_eq_mul_inv (n:ℚ) (2 ^ e)]

theorem le_tdiv_iff (hn:0 < n) (hd:0 < d) (e:ℤ) (k:ℕ) :
  2 ^ k ≤ (scale n d e).1.tdiv (scale n d e).2 ↔ (2 : ℚ) ^ (e+k) ≤ n / d := by
 have ⟨hnum,hden,heq⟩:=scale_spec hn hd e
 have hden' : (0 : ℚ) < (scale n d e).2:=by exact_mod_cast hden
 rw [Int.tdiv_eq_ediv_of_nonneg hnum.le,Int.le_ediv_iff_mul_le hden,zpow_add₀ two_ne_zero,
  mul_comm ((2 : ℚ) ^ e),←le_div_iff₀ (two_zpow_pos e),←heq,le_div_iff₀ hden']
 exact_mod_cast Iff.rfl

theorem guess_spec (hn:0 < n) (hd:0 < d) :
  (2 : ℚ) ^ (bitLen n-bitLen d-53+52) ≤ n / d ∧
   (n / d : ℚ) < 2 ^ (bitLen n-bitLen d-53+54) := by
 have ⟨hn1,hn2⟩:=bitLen_spec hn
 have ⟨hd1,hd2⟩:=bitLen_spec hd
 have hd' : (0 : ℚ) < d:=by exact_mod_cast hd
 constructor
 · rw [le_div_iff₀ hd']
   calc (2 : ℚ) ^ (bitLen n-bitLen d-53+52)*d
     ≤ 2 ^ (bitLen n-bitLen d-53+52)*2 ^ bitLen d :=
      mul_le_mul_of_nonneg_left hd2.le (two_zpow_pos _).le
    _ = 2 ^ (bitLen n-1) := by
     rw [←zpow_add₀ two_ne_zero]
     congr 1
     ring
    _ ≤ n := hn1
 · rw [div_lt_iff₀ hd']
   calc (n:ℚ) < 2 ^ bitLen n := hn2
    _ = 2 ^ (bitLen n-bitLen d-53+54)*2 ^ (bitLen d-1) := by
     rw [←zpow_add₀ two_ne_zero]
     congr 1
     ring
    _ ≤ 2 ^ (bitLen n-bitLen d-53+54)*d :=
     mul_le_mul_of_nonneg_left hd1 (two_zpow_pos _).le

def exponent (x:ℚ) : ℤ := Int.log 2 x-52

def significand (x:ℚ) : ℤ := halfEven (x / 2 ^ exponent x)

theorem exponent_spec (h:0 < x) :
  2 ^ (exponent x+52) ≤ x ∧ x < 2 ^ (exponent x+53) := by
 unfold exponent
 constructor
 · rw [sub_add_cancel]
   exact zpow_log_le h
 · have hlt:=lt_zpow_log x
   have hsame:Int.log 2 x-52+53=Int.log 2 x+1:=by ring
   rw [hsame]
   exact hlt

theorem exponent_eq (h:2 ^ (e+52) ≤ x) (h' : x < 2 ^ (e+53)) :
  exponent x=e := by
 unfold exponent
 have hsame:e+53=e+52+1:=by ring
 rw [log_eq h (hsame ▸ h')]
 ring

theorem mantissa_eq (hn:0 < n) (hd:0 < d) :
  mantissa n d =
   if significand (n / d)=2 ^ 53 then (2 ^ 52,exponent (n / d)+1)
   else (significand (n / d),exponent (n / d)) := by
 have ⟨hlow,hhigh⟩:=guess_spec hn hd
 unfold mantissa
 dsimp only
 generalize bitLen n-bitLen d-53=e at hlow hhigh
 have hexp:(if 2 ^ 53 ≤ (scale n d e).1.tdiv (scale n d e).2 then e+1
   else if (scale n d e).1.tdiv (scale n d e).2 < 2 ^ 52 then e-1 else e) =
    exponent (n / d : ℚ) := by
  by_cases hbig:2 ^ 53 ≤ (scale n d e).1.tdiv (scale n d e).2
  · rw [if_pos hbig]
    have hlow' :=(le_tdiv_iff hn hd e 53).mp hbig
    symm
    apply exponent_eq
    · have hsame:e+1+52=e+(53 : ℕ):=by push_cast; ring
      rw [hsame]
      exact hlow'
    · have hsame:e+1+53=e+54:=by ring
      rw [hsame]
      exact hhigh
  · have hnot:=mt (le_tdiv_iff hn hd e 53).mpr hbig
    have hsmall:¬ (scale n d e).1.tdiv (scale n d e).2 < 2 ^ 52:=
     not_lt.mpr ((le_tdiv_iff hn hd e 52).mpr hlow)
    rw [if_neg hbig,if_neg hsmall]
    exact (exponent_eq hlow (not_le.mp hnot)).symm
 rw [hexp]
 have ⟨hnum,hden,heq⟩:=scale_spec hn hd (exponent (n / d : ℚ))
 have hround:significand (n / d : ℚ) =
   if (scale n d (exponent (n / d : ℚ))).2 <
     (scale n d (exponent (n / d : ℚ))).1.tmod (scale n d (exponent (n / d : ℚ))).2*2 ∨
    (scale n d (exponent (n / d : ℚ))).1.tmod (scale n d (exponent (n / d : ℚ))).2*2 =
     (scale n d (exponent (n / d : ℚ))).2 ∧
    (scale n d (exponent (n / d : ℚ))).1.tdiv (scale n d (exponent (n / d : ℚ))).2 % 2=1
   then (scale n d (exponent (n / d : ℚ))).1.tdiv (scale n d (exponent (n / d : ℚ))).2+1
   else (scale n d (exponent (n / d : ℚ))).1.tdiv (scale n d (exponent (n / d : ℚ))).2 := by
  apply halfEven_eq
  rw [Int.tdiv_eq_ediv_of_nonneg hnum.le,Int.tmod_eq_emod_of_nonneg hnum.le,←heq]
  exact nearest_div _ hden
 generalize hE:exponent (n / d : ℚ)=E at *
 by_cases hup:(scale n d E).2 < (scale n d E).1.tmod (scale n d E).2*2 ∨
   (scale n d E).1.tmod (scale n d E).2*2=(scale n d E).2 ∧
    (scale n d E).1.tdiv (scale n d E).2 % 2=1
 · rw [if_pos hup] at hround ⊢
   rw [hround]
 · rw [if_neg hup] at hround ⊢
   rw [hround,if_neg]
   intro hcarry
   have hbig:=(le_tdiv_iff hn hd E 53).mp hcarry.ge
   have hpos:(0 : ℚ) < n / d:=lt_of_lt_of_le (two_zpow_pos _) hlow
   have hlt:=(exponent_spec hpos).2
   rw [hE] at hlt
   exact absurd hlt (not_lt.mpr hbig)

/-! ## The property -/

/-- `mant * 2 ^ e` is the nearest value of 53 bits. -/
structure MantissaOf (x:ℚ) (mant e:ℤ) : Prop where
 low : 2 ^ 52 ≤ mant
 high : mant < 2 ^ 53
 near : |x-mant*2 ^ e| ≤ 2 ^ e / 2
 tie : |x-mant*2 ^ e| = 2 ^ e / 2 → Even mant
 nearest : ∀ k e' : ℤ, |k| < 2 ^ 53 → |x-mant*2 ^ e| ≤ |x-k*2 ^ e'|

structure Correct (q:ℚ) : Prop where
 mantissa : q ≠ 0 → MantissaOf |q| (mantissa |q.num| q.den).1 (mantissa |q.num| q.den).2
 /-- A finite double is returned when it is the nearest one. -/
 double : ∀ v, roundDouble q = .finite v → ratToDouble (ofRat q) = .finite v

/-- At most half of the least double, or nearest to a normal double by its mantissa. -/
def Normal (q:ℚ) : Prop :=
 |q| ≤ 2 ^ (-1075 : ℤ) ∨ 2 ^ (-1022 : ℤ)-2 ^ (-1076 : ℤ) ≤ |q|

/-! ## The significand -/

theorem significand_bounds (h:0 < x) :
  2 ^ 52 ≤ significand x ∧ significand x ≤ 2 ^ 53 := by
 have ⟨hlow,hhigh⟩:=exponent_spec h
 constructor
 · apply le_halfEven
   rw [le_div_iff₀ (two_zpow_pos _)]
   rw [zpow_add₀ two_ne_zero,mul_comm] at hlow
   exact_mod_cast hlow
 · apply halfEven_le
   rw [div_le_iff₀ (two_zpow_pos _)]
   rw [zpow_add₀ two_ne_zero,mul_comm] at hhigh
   exact_mod_cast hhigh.le

theorem mantissaOf_significand (h:0 < x) (hcarry:significand x ≠ 2 ^ 53) :
  MantissaOf x (significand x) (exponent x) := by
 have ⟨hlow,hhigh⟩:=significand_bounds h
 have hnearest:Nearest (x / 2 ^ exponent x) (significand x):=nearest_halfEven _
 have ⟨hnear,htie⟩:=half_quantum hnearest
 refine ⟨hlow,lt_of_le_of_ne hhigh hcarry,hnear,htie,fun k e' hk=>?_⟩
 apply nearest_bits hnearest hk
 right
 rw [abs_of_pos h]
 exact (exponent_spec h).1

theorem mantissaOf_carry (h:0 < x) (hcarry:significand x=2 ^ 53) :
  MantissaOf x (2 ^ 52) (exponent x+1) := by
 have hnearest:Nearest (x / 2 ^ exponent x) (2 ^ 53):=hcarry ▸ nearest_halfEven _
 have hpos:=two_zpow_pos (exponent x)
 have hvalue:((2 ^ 52 : ℤ) : ℚ)*2 ^ (exponent x+1)=((2 ^ 53 : ℤ) : ℚ)*2 ^ exponent x:=by
  rw [zpow_add_one₀ two_ne_zero]
  push_cast
  ring
 have ⟨hhalf,_⟩:=half_quantum hnearest
 have hdouble:(2 : ℚ) ^ (exponent x+1)=2*2 ^ exponent x:=by
  rw [zpow_add_one₀ two_ne_zero,mul_comm]
 refine ⟨le_refl _,by norm_num, ?_,fun _=>by decide,fun k e' hk=>?_⟩
 · rw [hvalue,hdouble]
   linarith
 · rw [hvalue]
   apply nearest_bits hnearest hk
   right
   rw [abs_of_pos h]
   exact (exponent_spec h).1

theorem mantissa_abs (hq:q ≠ 0) :
  mantissa |q.num| q.den =
   if significand |q| = 2 ^ 53 then (2 ^ 52,exponent |q| + 1)
   else (significand |q|,exponent |q|) := by
 have hnum:0 < |q.num|:=abs_pos.mpr (Rat.num_ne_zero.mpr hq)
 have habs:((|q.num| : ℤ) : ℚ) / (q.den : ℤ) = |q|:=by
  conv_rhs=>rw [←num_div q]
  rw [abs_div,Int.cast_abs,abs_of_pos (by exact_mod_cast q.den_pos : (0 : ℚ) < (q.den : ℤ))]
 have hmantissa:=mantissa_eq hnum (den_pos q)
 rw [habs] at hmantissa
 exact hmantissa

theorem mantissaOf_mantissa (hq:q ≠ 0) :
  MantissaOf |q| (mantissa |q.num| q.den).1 (mantissa |q.num| q.den).2 := by
 rw [mantissa_abs hq]
 by_cases hcarry:significand |q| = 2 ^ 53
 · rw [if_pos hcarry]
   exact mantissaOf_carry (abs_pos.mpr hq) hcarry
 · rw [if_neg hcarry]
   exact mantissaOf_significand (abs_pos.mpr hq) hcarry

/-! ## Powers of two and signs -/

theorem mathPow_of_le (h:e ≤ -1075) : mathPow e = .finite 0 := by
 have hlog:Int.log 2 |(2 : ℚ) ^ e| = e:=by
  rw [abs_of_pos (two_zpow_pos e)]
  exact Int.log_zpow one_lt_two e
 have hquantum:quantum (2 ^ e : ℚ) = -1074:=by
  unfold quantum
  rw [hlog]
  omega
 have hzero:halfEven ((2 : ℚ) ^ e / 2 ^ (-1074 : ℤ))=0:=by
  rw [halfEven_eq_zero,←zpow_sub₀ two_ne_zero,abs_of_pos (two_zpow_pos _),one_div,
   ← zpow_neg_one]
  exact zpow_le_zpow_right₀ one_le_two (by omega)
 unfold mathPow roundDouble
 rw [hquantum,hzero,Int.cast_zero,zero_mul]
 exact if_pos (by norm_num)

theorem mathPow_of_mem (h : -1074 ≤ e) (h' : e ≤ 971) : mathPow e = .finite (2 ^ e) := by
 apply roundDouble_of_isDouble
 exact ⟨1,e,by norm_num,h,h', by norm_num⟩

def signOf (q:ℚ) : ℤ := if q.num < 0 then -1 else 1

theorem signOf_mul_abs (q:ℚ) : (signOf q:ℚ) * |q| = q := by
 unfold signOf
 by_cases h:q < 0
 · rw [if_pos (Rat.num_neg.mpr h),abs_of_neg h]
   push_cast
   ring
 · rw [if_neg (mt Rat.num_neg.mp h),abs_of_nonneg (not_lt.mp h),Int.cast_one,one_mul]

theorem abs_signOf (q:ℚ) : |signOf q| = 1 := by
 unfold signOf
 split <;> rfl

theorem ratToDouble_eq (hq:q ≠ 0) :
  ratToDouble (ofRat q) =
   product (signOf q*(mantissa |q.num| q.den).1) (mathPow (mantissa |q.num| q.den).2) := by
 have habs:(if q.num < 0 then -q.num else q.num) = |q.num|:=by
  by_cases h:q.num < 0
  · rw [if_pos h,abs_of_neg h]
  · rw [if_neg h,abs_of_nonneg (not_lt.mp h)]
 unfold ratToDouble
 rw [num_ofRat,den_ofRat,if_neg (Rat.num_ne_zero.mpr hq),habs]
 rfl

theorem halfEven_sign (q y:ℚ) : halfEven ((signOf q:ℚ)*y)=signOf q*halfEven y := by
 unfold signOf
 split
 · rw [Int.cast_neg,Int.cast_one,neg_one_mul,neg_one_mul,halfEven_neg]
 · rw [Int.cast_one,one_mul,one_mul]

theorem mantissa_value (hq:q ≠ 0) :
  ((mantissa |q.num| q.den).1 : ℚ)*2 ^ (mantissa |q.num| q.den).2 =
   significand |q| * 2 ^ exponent |q| := by
 rw [mantissa_abs hq]
 by_cases hcarry:significand |q| = 2 ^ 53
 · rw [if_pos hcarry,hcarry,zpow_add_one₀ two_ne_zero]
   push_cast
   ring
 · rw [if_neg hcarry]

theorem ratToDouble_of_mem (hq:q ≠ 0) (h : -1074 ≤ (mantissa |q.num| q.den).2)
  (h' : (mantissa |q.num| q.den).2 ≤ 971) :
  ratToDouble (ofRat q) = .finite (signOf q*(significand |q| * 2 ^ exponent |q|)) := by
 have hmantissa:=mantissaOf_mantissa hq
 rw [ratToDouble_eq hq,mathPow_of_mem h h', ← mantissa_value hq,←mul_assoc,←Int.cast_mul]
 apply roundDouble_of_isDouble
 refine ⟨_,_, ?_,h,h', rfl⟩
 rw [abs_mul,abs_signOf,one_mul,abs_of_nonneg (by linarith [hmantissa.low])]
 exact hmantissa.high

theorem ratToDouble_of_le (hq:q ≠ 0) (h:(mantissa |q.num| q.den).2 ≤ -1075) :
  ratToDouble (ofRat q) = .finite 0 := by
 rw [ratToDouble_eq hq,mathPow_of_le h]
 change roundDouble (_*0)=_
 rw [mul_zero]
 exact roundDouble_zero

theorem roundDouble_of_exponent (h : -1074 ≤ exponent |q|) {v:ℚ}
  (hv:roundDouble q = .finite v) : v=signOf q*(significand |q| * 2 ^ exponent |q|) := by
 have hquantum:quantum q=exponent |q|:=by
  unfold quantum
  unfold exponent at h ⊢
  omega
 have hround:halfEven (q / 2 ^ exponent |q|)=signOf q*significand |q|:=by
  have hsign:=halfEven_sign q (|q| / 2 ^ exponent |q|)
  rw [←mul_div_assoc,signOf_mul_abs] at hsign
  exact hsign
 unfold roundDouble at hv
 rw [hquantum,hround] at hv
 dsimp only at hv
 split at hv
 · cases hv
   push_cast
   ring
 · cases hv

theorem roundDouble_of_exponent_lt (h:exponent |q| < -1074) :
  roundDouble q = .finite (signOf q*(halfEven (|q| / 2 ^ (-1074 : ℤ))*2 ^ (-1074 : ℤ))) := by
 have hquantum:quantum q = -1074:=by
  unfold quantum
  unfold exponent at h
  omega
 have hround:halfEven (q / 2 ^ (-1074 : ℤ)) =
   signOf q*halfEven (|q| / 2 ^ (-1074 : ℤ)) := by
  have hsign:=halfEven_sign q (|q| / 2 ^ (-1074 : ℤ))
  rw [←mul_div_assoc,signOf_mul_abs] at hsign
  exact hsign
 have hle:=significand_le q
 rw [hquantum] at hle
 have hfinite:|((halfEven (q / 2 ^ (-1074 : ℤ)) : ℤ) : ℚ)*2 ^ (-1074 : ℤ)| < 2 ^ 1024:=by
  rw [abs_mul,abs_of_pos (two_zpow_pos _)]
  have hle' : |((halfEven (q / 2 ^ (-1074 : ℤ)) : ℤ) : ℚ)| ≤ 2 ^ (53 : ℤ):=by exact_mod_cast hle
  calc _ ≤ (2 : ℚ) ^ (53 : ℤ)*2 ^ (-1074 : ℤ) :=
     mul_le_mul_of_nonneg_right hle' (two_zpow_pos _).le
   _ = 2 ^ (-1021 : ℤ) := (zpow_add₀ two_ne_zero _ _).symm
   _ < 2 ^ (1024 : ℤ) := zpow_lt_zpow_right₀ one_lt_two (by norm_num)
   _ = 2 ^ 1024 := zpow_natCast 2 1024
 unfold roundDouble
 rw [hquantum]
 refine (if_pos hfinite).trans ?_
 rw [hround,Int.cast_mul,mul_assoc]

/-! ## The condition -/

theorem least_normal : (2 : ℚ) ^ (-1022 : ℤ)=2 ^ 53*2 ^ (-1075 : ℤ) ∧
  (2 : ℚ) ^ (-1076 : ℤ)=2 ^ (-1075 : ℤ) / 2 := by
 constructor
 · rw [←zpow_natCast,←zpow_add₀ two_ne_zero]
   norm_num
 · rw [div_eq_mul_inv,←zpow_sub_one₀ two_ne_zero]
   norm_num

theorem significand_carry_iff (h:exponent x = -1075) (hpos:0 < x) :
  significand x=2 ^ 53 ↔ 2 ^ (-1022 : ℤ)-2 ^ (-1076 : ℤ) ≤ x := by
 have ⟨hleast,hhalf⟩:=least_normal
 have hquantum:=two_zpow_pos (-1075)
 rw [hleast,hhalf]
 constructor
 · intro hcarry
   have hnearest:Nearest (x / 2 ^ (-1075 : ℤ)) (2 ^ 53):=by
    rw [←hcarry,←h]
    exact nearest_halfEven _
   have hbound:=(abs_le.mp (half_quantum hnearest).1).1
   rw [Int.cast_pow,Int.cast_ofNat] at hbound
   linarith
 · intro hlow
   have hhigh:=(exponent_spec hpos).2
   rw [h] at hhigh
   have hsame:(2 : ℚ) ^ (-1075+53 : ℤ)=2 ^ 53*2 ^ (-1075 : ℤ):=by
    rw [←hleast]
    norm_num
   rw [hsame] at hhigh
   unfold significand
   rw [h]
   apply halfEven_eq
   have hle:x / 2 ^ (-1075 : ℤ) < 2 ^ 53:=(div_lt_iff₀ hquantum).mpr hhigh
   have hge:2 ^ 53-1 / 2 ≤ x / 2 ^ (-1075 : ℤ):=by
    rw [le_div_iff₀ hquantum]
    linarith
   refine ⟨?_,fun _=>by decide⟩
   rw [abs_le,Int.cast_pow,Int.cast_ofNat]
   constructor
   · linarith
   · linarith

/-- The exponent reaches the least one of normal doubles from half a quantum below it on. -/
theorem exponent_mantissa (hq:q ≠ 0) :
  -1074 ≤ (mantissa |q.num| q.den).2 ↔ 2 ^ (-1022 : ℤ)-2 ^ (-1076 : ℤ) ≤ |q| := by
 have hpos:=abs_pos.mpr hq
 have ⟨hlow,hhigh⟩:=exponent_spec hpos
 have hsmall:=two_zpow_pos (-1076)
 rw [mantissa_abs hq]
 by_cases hnormal:-1074 ≤ exponent |q|
 · constructor
   · intro _
     have hpow:(2 : ℚ) ^ (-1022 : ℤ) ≤ 2 ^ (exponent |q| + 52):=
      zpow_le_zpow_right₀ one_le_two (by omega)
     linarith
   · intro _
     split
     · dsimp only
       omega
     · exact hnormal
 · by_cases hlast:exponent |q| = -1075
   · rw [←significand_carry_iff hlast hpos,hlast]
     by_cases hcarry:significand |q| = 2 ^ 53
     · rw [if_pos hcarry]
       exact iff_of_true (by norm_num) hcarry
     · rw [if_neg hcarry]
       exact iff_of_false (by norm_num) hcarry
   · have hpow:(2 : ℚ) ^ (exponent |q| + 53) ≤ 2 ^ (-1023 : ℤ):=
      zpow_le_zpow_right₀ one_le_two (by omega)
     have hdouble:(2 : ℚ) ^ (-1022 : ℤ)=2 ^ (-1023 : ℤ)+2 ^ (-1023 : ℤ):=by
      rw [←two_mul,←zpow_one_add₀ two_ne_zero]
      norm_num
     have hless:(2 : ℚ) ^ (-1076 : ℤ) ≤ 2 ^ (-1023 : ℤ):=
      zpow_le_zpow_right₀ one_le_two (by norm_num)
     constructor
     · intro h
       split at h
       · dsimp only at h
         omega
       · exact absurd h hnormal
     · intro h
       linarith

theorem exponent_le_mantissa (hq:q ≠ 0) :
  exponent |q| ≤ (mantissa |q.num| q.den).2 ∧
   ((mantissa |q.num| q.den).2=exponent |q| ∨ significand |q| = 2 ^ 53 ∧
    (mantissa |q.num| q.den).2=exponent |q| + 1) := by
 rw [mantissa_abs hq]
 by_cases hcarry:significand |q| = 2 ^ 53
 · rw [if_pos hcarry]
   exact ⟨by omega,Or.inr ⟨hcarry,rfl⟩⟩
 · rw [if_neg hcarry]
   exact ⟨le_refl _,Or.inl rfl⟩

theorem double_of_normal {v:ℚ} (hq:q ≠ 0) (h : -1074 ≤ (mantissa |q.num| q.den).2)
  (hv:roundDouble q = .finite v) : ratToDouble (ofRat q) = .finite v := by
 have ⟨_,hexp⟩:=exponent_le_mantissa hq
 have hvalue:v=signOf q*(significand |q| * 2 ^ exponent |q|):=by
  by_cases hnormal:-1074 ≤ exponent |q|
  · exact roundDouble_of_exponent hnormal hv
  · -- the significand was carried into the normal range
    have hcarry:=hexp.resolve_left fun heq=>hnormal (heq ▸ h)
    have hlast:exponent |q| = -1075:=by omega
    have hnearest:Nearest (|q| / 2 ^ (-1075 : ℤ)) (2 ^ 53):=by
     rw [←hcarry.1,←hlast]
     exact nearest_halfEven _
    have hscaled:|q| / 2 ^ (-1074 : ℤ) = |q| / 2 ^ (-1075 : ℤ) / 2:=by
     rw [div_div,←zpow_add_one₀ two_ne_zero]
     norm_num
    have hround:halfEven (|q| / 2 ^ (-1074 : ℤ))=2 ^ 52:=by
     apply halfEven_eq
     rw [hscaled]
     generalize |q| / 2 ^ (-1075 : ℤ)=y at hnearest
     have hbounds:=abs_le.mp hnearest.1
     push_cast at hbounds
     refine ⟨?_,fun _=>by decide⟩
     rw [abs_le]
     push_cast
     constructor
     · linarith [hbounds.1]
     · linarith [hbounds.2]
    rw [roundDouble_of_exponent_lt (by omega),hround] at hv
    cases hv
    rw [hcarry.1,hlast]
    have hpow:(2 : ℚ) ^ (-1074 : ℤ)=2 ^ (-1075 : ℤ)*2:=by
     rw [←zpow_add_one₀ two_ne_zero]
     norm_num
    rw [hpow,Int.cast_pow,Int.cast_ofNat,Int.cast_pow,Int.cast_ofNat]
    ring
 have hmantissa:=mantissaOf_mantissa hq
 have hfinite:=(isDouble_roundDouble hv).abs_lt
 have hsize:(mantissa |q.num| q.den).2 ≤ 971:=by
  rw [hvalue,abs_mul,←mantissa_value hq,←Int.cast_abs,abs_signOf,Int.cast_one,one_mul,
   abs_mul,abs_of_pos (two_zpow_pos _)] at hfinite
  have hlow:(2 : ℚ) ^ (52 : ℤ) ≤ |((mantissa |q.num| q.den).1 : ℚ)|:=by
   rw [←Int.cast_abs]
   exact_mod_cast hmantissa.low.trans (le_abs_self _)
  have hlt:(2 : ℚ) ^ (52+(mantissa |q.num| q.den).2) < 2 ^ (1024 : ℤ):=by
   rw [zpow_add₀ two_ne_zero,zpow_ofNat 2 1024]
   exact lt_of_le_of_lt (mul_le_mul_of_nonneg_right hlow (two_zpow_pos _).le) hfinite
  have hexponents:=(zpow_lt_zpow_iff_right₀ one_lt_two).mp hlt
  omega
 rw [hvalue]
 exact ratToDouble_of_mem hq h hsize

/-- Below the normal range zero is returned, which is nearest up to half of the least double. -/
theorem double_of_subnormal (hq:q ≠ 0) (h:(mantissa |q.num| q.den).2 ≤ -1075) :
  (∀ v, roundDouble q = .finite v → ratToDouble (ofRat q) = .finite v) ↔
   |q| ≤ 2 ^ (-1075 : ℤ) := by
 have ⟨hexp,_⟩:=exponent_le_mantissa hq
 have hround:=roundDouble_of_exponent_lt (q := q) (by omega)
 have hsign:(signOf q:ℚ) ≠ 0:=by
  have habs:=abs_signOf q
  intro hzero
  rw [Int.cast_eq_zero.mp hzero] at habs
  cases habs
 have hzero:(signOf q*(halfEven (|q| / 2 ^ (-1074 : ℤ))*2 ^ (-1074 : ℤ)) : ℚ)=0 ↔
   |q| ≤ 2 ^ (-1075 : ℤ) := by
  rw [mul_eq_zero_iff_left hsign,mul_eq_zero_iff_right (ne_of_gt (two_zpow_pos _)),
   Int.cast_eq_zero,halfEven_eq_zero,abs_div,abs_abs,abs_of_pos (two_zpow_pos _),
   div_le_iff₀ (two_zpow_pos _),one_div,←zpow_neg_one,←zpow_add₀ two_ne_zero]
  norm_num
 rw [←hzero,ratToDouble_of_le hq h]
 constructor
 · intro hall
   exact (Double.finite.inj (hall _ hround)).symm
 · intro hv v hfinite
   rw [hround,hv] at hfinite
   exact hfinite

/-- The mantissa is right for every rational, and the double for those whose nearest double is
normal, zero or infinite. -/
theorem correct_iff (q:ℚ) : Correct q ↔ Normal q := by
 by_cases hq:q=0
 · rw [hq]
   refine iff_of_true ⟨fun h=>absurd rfl h,fun v hv=>?_⟩ (Or.inl ?_)
   · rw [roundDouble_zero] at hv
     exact hv
   · rw [abs_zero]
     exact (two_zpow_pos _).le
 · have hmantissa:=mantissaOf_mantissa hq
   by_cases h:-1074 ≤ (mantissa |q.num| q.den).2
   · refine iff_of_true ⟨fun _=>hmantissa,fun v hv=>double_of_normal hq h hv⟩ (Or.inr ?_)
     exact (exponent_mantissa hq).mp h
   · have hdouble:=double_of_subnormal hq (by omega)
     have hlow:=(exponent_mantissa hq).not.mp h
     constructor
     · exact fun hcorrect=>Or.inl (hdouble.mp hcorrect.double)
     · intro hnormal
       exact ⟨fun _=>hmantissa,hdouble.mpr (hnormal.resolve_right hlow)⟩

/-! ## A subnormal double -/

theorem half_least_normal :
  roundDouble (2 ^ (-1023 : ℤ)) = .finite (2 ^ (-1023 : ℤ)) ∧
   ratToDouble (ofRat (2 ^ (-1023 : ℤ))) = .finite 0 := by
 have hne:(2 : ℚ) ^ (-1023 : ℤ) ≠ 0:=ne_of_gt (two_zpow_pos _)
 constructor
 · apply roundDouble_of_isDouble
   refine ⟨2 ^ 51,-1074,by norm_num,by norm_num,by norm_num, ?_⟩
   rw [Int.cast_pow,Int.cast_ofNat,←zpow_natCast,←zpow_add₀ two_ne_zero]
   norm_num
 · apply ratToDouble_of_le hne
   by_contra h
   have hlow:=(exponent_mantissa hne).mp (by omega)
   rw [abs_of_pos (two_zpow_pos _)] at hlow
   have hdouble:(2 : ℚ) ^ (-1022 : ℤ)=2 ^ (-1023 : ℤ)+2 ^ (-1023 : ℤ):=by
    rw [←two_mul,←zpow_one_add₀ two_ne_zero]
    norm_num
   have hless:(2 : ℚ) ^ (-1076 : ℤ) < 2 ^ (-1023 : ℤ):=
    zpow_lt_zpow_right₀ one_lt_two (by norm_num)
   linarith

theorem not_correct_half_least_normal : ¬ Correct (2 ^ (-1023 : ℤ)) := by
 intro h
 have ⟨hround,hreturned⟩:=half_least_normal
 have hzero:=Double.finite.inj ((h.double _ hround).symm.trans hreturned)
 exact ne_of_gt (two_zpow_pos _) hzero

end L4Ide.RationalDoublesNearest
