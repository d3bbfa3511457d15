import L4Ide.NearestInteger
import Mathlib.Data.Int.Log
import Mathlib.Data.Rat.Floor

set_option autoImplicit false

/-!
# Rounding to doubles

Rationals rounded to the nearest double, subnormal ones included, half to even.
-/
namespace L4Ide.DoubleRounding
open NearestInteger

inductive Double
 | finite (v:ℚ)
 | infinite (negative:Bool)
 deriving DecidableEq

def quantum (x:ℚ) : ℤ := max (Int.log 2 |x| - 52) (-1074)

def roundDouble (x:ℚ) : Double :=
 let v:ℚ:=halfEven (x / 2 ^ quantum x)*2 ^ quantum x
 if |v| < 2 ^ 1024 then .finite v else .infinite (x < 0)

def IsDouble (v:ℚ) : Prop := ∃ m e : ℤ, |m| < 2 ^ 53 ∧ -1074 ≤ e ∧ e ≤ 971 ∧ v=m*2 ^ e

theorem two_zpow_pos (e:ℤ) : (0 : ℚ) < 2 ^ e := zpow_pos two_pos e

variable {x v:ℚ} {e m:ℤ}

theorem log_eq (h:2 ^ e ≤ x) (h' : x < 2 ^ (e+1)) : Int.log 2 x=e := by
 have hpos:0 < x:=lt_of_lt_of_le (two_zpow_pos e) h
 have hle:=(Int.zpow_le_iff_le_log (b := 2) one_lt_two hpos).mp h
 have hlt:=(Int.lt_zpow_iff_log_lt (b := 2) one_lt_two hpos).mp h'
 omega

theorem zpow_log_le (h:0 < x) : (2 : ℚ) ^ Int.log 2 x ≤ x :=
 Int.zpow_log_le_self (b := 2) one_lt_two h

theorem lt_zpow_log (x:ℚ) : x < (2 : ℚ) ^ (Int.log 2 x+1) :=
 Int.lt_zpow_succ_log_self (b := 2) one_lt_two x

theorem abs_div_quantum_lt (x:ℚ) : |x| / 2 ^ quantum x < 2 ^ 53 := by
 rw [div_lt_iff₀ (two_zpow_pos _)]
 apply lt_of_lt_of_le (lt_zpow_log |x|)
 rw [←zpow_natCast,←zpow_add₀ two_ne_zero]
 apply zpow_le_zpow_right₀ one_le_two
 unfold quantum
 omega

theorem distance_scale (x:ℚ) (e k:ℤ) : |x-k*2 ^ e| = |x / 2 ^ e-k| * 2 ^ e := by
 rw [←abs_of_pos (two_zpow_pos e),←abs_mul,abs_of_pos (two_zpow_pos e),sub_mul,
  div_mul_cancel₀ x (ne_of_gt (two_zpow_pos e))]

theorem half_quantum (h:Nearest (x / 2 ^ e) m) :
  |x-m*2 ^ e| ≤ 2 ^ e / 2 ∧ (|x-m*2 ^ e| = 2 ^ e / 2 → Even m) := by
 have hhalf:(2 : ℚ) ^ e / 2=1 / 2*2 ^ e:=by ring
 rw [distance_scale,hhalf]
 constructor
 · exact mul_le_mul_of_nonneg_right h.1 (two_zpow_pos e).le
 · exact fun htie=>h.2 (mul_right_cancel₀ (ne_of_gt (two_zpow_pos e)) htie)

theorem nearest_grid (h:Nearest (x / 2 ^ e) m) (k:ℤ) :
  |x-m*2 ^ e| ≤ |x-k*2 ^ e| := by
 rw [distance_scale,distance_scale]
 exact mul_le_mul_of_nonneg_right (h.le k) (two_zpow_pos e).le

/-- No value of 53 bits is nearer than the nearest multiple of a quantum, when the quantum is the
least one or `x` has all 53 bits. -/
theorem nearest_bits (h:Nearest (x / 2 ^ e) m) {k e' : ℤ} (hk:|k| < 2 ^ 53)
  (hbits:e ≤ e' ∨ 2 ^ (e+52) ≤ |x|) : |x-m*2 ^ e| ≤ |x-k*2 ^ e'| := by
 by_cases he:e ≤ e'
 · have hmultiple:(k:ℚ)*2 ^ e' = ((k*2 ^ (e' - e).toNat : ℤ) : ℚ)*2 ^ e:=by
    push_cast
    rw [←zpow_natCast,Int.toNat_of_nonneg (by omega),mul_assoc,←zpow_add₀ two_ne_zero,
     sub_add_cancel]
   rw [hmultiple]
   exact nearest_grid h _
 · -- a value with a smaller quantum is farther than the least value of 53 bits
   have hx:=hbits.resolve_left he
   have hsmall:|(k:ℚ)*2 ^ e'| ≤ 2 ^ (e+52):=by
    rw [abs_mul,abs_of_pos (two_zpow_pos e')]
    have hk' : |(k:ℚ)| ≤ 2 ^ (53 : ℤ):=by exact_mod_cast hk.le
    calc |(k:ℚ)| * 2 ^ e' ≤ 2 ^ (53 : ℤ)*2 ^ e' :=
       mul_le_mul_of_nonneg_right hk' (two_zpow_pos e').le
     _ = 2 ^ (53+e') := (zpow_add₀ two_ne_zero _ _).symm
     _ ≤ 2 ^ (e+52) := zpow_le_zpow_right₀ one_le_two (by omega)
   have hfar:|x| - 2 ^ (e+52) ≤ |x-k*2 ^ e'|:=by
    have habs:=abs_sub_abs_le_abs_sub x (k*2 ^ e')
    linarith
   have hpow:((2 ^ 52 : ℤ) : ℚ)*2 ^ e=2 ^ (e+52):=by
    rw [zpow_add₀ two_ne_zero,mul_comm]
    norm_num
   have hnear:|x-m*2 ^ e| ≤ |x| - 2 ^ (e+52):=by
    cases le_total 0 x with
    | inl hpos=>
     rw [abs_of_nonneg hpos] at hx ⊢
     have hgrid:=nearest_grid h (2 ^ 52)
     rw [hpow,abs_of_nonneg (sub_nonneg.mpr hx)] at hgrid
     exact hgrid
    | inr hneg=>
     rw [abs_of_nonpos hneg] at hx ⊢
     have hgrid:=nearest_grid h (-2 ^ 52)
     have hnonpos:x+2 ^ (e+52) ≤ 0:=by linarith
     rw [Int.cast_neg,neg_mul,hpow,sub_neg_eq_add,abs_of_nonpos hnonpos] at hgrid
     linarith
   exact hnear.trans hfar

theorem significand_le (x:ℚ) : |halfEven (x / 2 ^ quantum x)| ≤ 2 ^ 53 := by
 have hlt:|x / 2 ^ quantum x| < 2 ^ 53:=by
  rw [abs_div,abs_of_pos (two_zpow_pos _)]
  exact abs_div_quantum_lt x
 have hbounds:=abs_lt.mp hlt
 apply abs_le.mpr
 constructor
 · apply le_halfEven
   push_cast
   linarith [hbounds.1]
 · apply halfEven_le
   push_cast
   linarith [hbounds.2]

theorem zpow_quantum_le (hx:x ≠ 0) (h : -1074 < quantum x) :
  2 ^ (quantum x+52) ≤ |x| := by
 have hlog:quantum x=Int.log 2 |x| - 52:=by
  unfold quantum at h ⊢
  omega
 rw [hlog,sub_add_cancel]
 exact zpow_log_le (abs_pos.mpr hx)

theorem le_significand (hx:x ≠ 0) (h : -1074 < quantum x) :
  2 ^ 52 ≤ |halfEven (x / 2 ^ quantum x)| := by
 have hle:(2 : ℚ) ^ 52 ≤ |x| / 2 ^ quantum x:=by
  rw [le_div_iff₀ (two_zpow_pos _)]
  have hlow:=zpow_quantum_le hx h
  rw [zpow_add₀ two_ne_zero,mul_comm] at hlow
  exact_mod_cast hlow
 cases le_total 0 x with
 | inl hpos=>
  rw [abs_of_nonneg hpos] at hle
  have hcast:((2 ^ 52 : ℤ) : ℚ) ≤ x / 2 ^ quantum x:=by
   push_cast
   linarith
  exact (le_halfEven hcast).trans (le_abs_self _)
 | inr hneg=>
  rw [abs_of_nonpos hneg,neg_div] at hle
  have hcast:((2 ^ 52 : ℤ) : ℚ) ≤ -(x / 2 ^ quantum x):=by
   push_cast
   linarith
  have hbound:=le_halfEven hcast
  rw [halfEven_neg] at hbound
  exact hbound.trans (neg_le_abs _)

theorem roundDouble_zero : roundDouble 0 = .finite 0 := by
 unfold roundDouble
 have hzero:halfEven (0 : ℚ)=0:=halfEven_eq_zero.mpr (by norm_num)
 rw [zero_div,hzero,Int.cast_zero,zero_mul]
 exact if_pos (by norm_num)

theorem isDouble_roundDouble (h:roundDouble x = .finite v) : IsDouble v := by
 by_cases hx:x=0
 · rw [hx,roundDouble_zero] at h
   cases h
   exact ⟨0,0,by norm_num,by norm_num,by norm_num,by norm_num⟩
 unfold roundDouble at h
 dsimp only at h
 split at h
 · rename_i hfinite
   cases h
   have hle:=significand_le x
   have hmin:-1074 ≤ quantum x:=le_max_right _ _
   generalize hm:halfEven (x / 2 ^ quantum x)=m at hle hfinite
   -- the exponent is bounded by the size of the value
   have hexp:∀ k : ℕ, 2 ^ k ≤ |m| → quantum x+k < 1024:=by
    intro k hk
    have hk' : (2 : ℚ) ^ (k:ℤ) ≤ |(m:ℚ)|:=by exact_mod_cast hk
    rw [abs_mul,abs_of_pos (two_zpow_pos _)] at hfinite
    have hlt:(2 : ℚ) ^ (quantum x+k) < 2 ^ (1024 : ℤ):=by
     rw [zpow_add₀ two_ne_zero,mul_comm]
     exact lt_of_le_of_lt (mul_le_mul_of_nonneg_right hk' (two_zpow_pos _).le)
      (by exact_mod_cast hfinite)
    exact (zpow_lt_zpow_iff_right₀ one_lt_two).mp hlt
   by_cases hcarry:|m| = 2 ^ 53
   · have hbound:=hexp 53 hcarry.ge
     have hhalf:(m:ℚ)*2 ^ quantum x=((m / 2 : ℤ) : ℚ)*2 ^ (quantum x+1):=by
      have hdvd:m=m / 2*2:=by
       have habs:=abs_eq (by norm_num:(0 : ℤ) ≤ 2 ^ 53) |>.mp hcarry
       omega
      have hcast:(m:ℚ)=((m / 2 : ℤ) : ℚ)*2:=by exact_mod_cast hdvd
      rw [zpow_add_one₀ two_ne_zero,mul_comm _ (2 : ℚ),←mul_assoc,←hcast]
     refine ⟨m / 2,quantum x+1, ?_,by omega,by omega,hhalf⟩
     have habs:=abs_eq (by norm_num:(0 : ℤ) ≤ 2 ^ 53) |>.mp hcarry
     apply abs_lt.mpr
     omega
   · refine ⟨m,quantum x,lt_of_le_of_ne hle hcarry,hmin, ?_,rfl⟩
     by_cases hleast:-1074 < quantum x
     · have hbound:=hexp 52 (hm ▸ le_significand hx hleast)
       omega
     · omega
 · cases h

theorem IsDouble.abs_lt (h:IsDouble v) : |v| < 2 ^ 1024 := by
 have ⟨m,e,hm,_,he,heq⟩:=h
 have hm' : |(m:ℚ)| < 2 ^ 53:=by exact_mod_cast hm
 rw [heq,abs_mul,abs_of_pos (two_zpow_pos e)]
 calc |(m:ℚ)| * 2 ^ e < 2 ^ 53*2 ^ e := mul_lt_mul_of_pos_right hm' (two_zpow_pos e)
  _ ≤ 2 ^ 53*2 ^ (971 : ℤ) :=
   mul_le_mul_of_nonneg_left (zpow_le_zpow_right₀ one_le_two he) (by positivity)
  _ = 2 ^ 1024 := by
   rw [←zpow_natCast,←zpow_natCast,←zpow_add₀ two_ne_zero]
   norm_num

theorem roundDouble_of_isDouble (h:IsDouble v) : roundDouble v = .finite v := by
 by_cases hv:v=0
 · rw [hv]
   exact roundDouble_zero
 have ⟨m,e,hm,hmin,_,heq⟩:=h
 have hm' : |(m:ℚ)| < 2 ^ (53 : ℤ):=by exact_mod_cast hm
 have hle:quantum v ≤ e:=by
  by_contra hlt
  have hlow:=zpow_quantum_le hv (by omega)
  rw [heq,abs_mul,abs_of_pos (two_zpow_pos e),←heq] at hlow
  have hhigh:|(m:ℚ)| * 2 ^ e < 2 ^ (53+e):=by
   rw [zpow_add₀ two_ne_zero]
   exact mul_lt_mul_of_pos_right hm' (two_zpow_pos e)
  have hexp:=(zpow_lt_zpow_iff_right₀ one_lt_two).mp (lt_of_le_of_lt hlow hhigh)
  omega
 have hint:v / 2 ^ quantum v=((m*2 ^ (e-quantum v).toNat : ℤ) : ℚ):=by
  rw [div_eq_iff (ne_of_gt (two_zpow_pos _))]
  push_cast
  rw [←zpow_natCast,Int.toNat_of_nonneg (by omega),mul_assoc,←zpow_add₀ two_ne_zero,
   sub_add_cancel]
  exact heq
 have hnearest:halfEven (v / 2 ^ quantum v)=m*2 ^ (e-quantum v).toNat:=by
  rw [hint]
  exact halfEven_eq (nearest_intCast _)
 unfold roundDouble
 rw [hnearest,←hint,div_mul_cancel₀ _ (ne_of_gt (two_zpow_pos _))]
 exact if_pos h.abs_lt

end L4Ide.DoubleRounding
