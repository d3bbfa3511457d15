import L4Ide.RationalCore
import Mathlib.Data.List.TakeWhile
import Mathlib.Tactic.FieldSimp
import Mathlib.Tactic.Ring

set_option autoImplicit false

/-!
# The rational core is exact

Each operation of the runtime on canonical pairs gives the canonical pair of the exact result.
-/
namespace L4Ide.RationalCoreExact
open NearestInteger RationalCore

def ofRat (q:ℚ) : Ratio := ⟨q.num,q.den⟩

@[simp] theorem num_ofRat (q:ℚ) : (ofRat q).num=q.num := rfl

@[simp] theorem den_ofRat (q:ℚ) : (ofRat q).den=q.den := rfl

def Canonical (r:Ratio) : Prop := 0 < r.den ∧ Int.gcd r.num r.den=1

theorem canonical_iff (r:Ratio) : Canonical r ↔ ∃ q, r=ofRat q := by
 constructor
 · intro ⟨hden,hgcd⟩
   have hnat:(r.den.natAbs : ℤ)=r.den:=Int.natAbs_of_nonneg (le_of_lt hden)
   refine ⟨⟨r.num,r.den.natAbs,by omega,hgcd⟩, ?_⟩
   unfold ofRat
   rw [hnat]
 · intro ⟨q,hq⟩
   rw [hq]
   exact ⟨Int.natCast_pos.mpr q.den_pos,q.reduced⟩

/-! ## Canonical pairs -/

theorem bgcdLoop_eq (a b:ℤ) (ha:0 ≤ a) (hb:0 ≤ b) : bgcdLoop a b=Int.gcd a b := by
 induction a, b using bgcdLoop.induct with
 | case1 a=>rw [bgcdLoop,if_pos rfl,Int.gcd_zero_right,Int.natAbs_of_nonneg ha]
 | case2 a b hne ih=>
  have hstep:Int.gcd b (a.tmod b)=Int.gcd a b:=by
   unfold Int.gcd
   rw [Int.natAbs_tmod,Nat.gcd_comm,←Nat.gcd_rec,Nat.gcd_comm]
  rw [bgcdLoop,if_neg hne,ih hb (Int.tmod_nonneg b ha),hstep]

theorem bgcd_eq (a b:ℤ) : bgcd a b=Int.gcd a b := by
 unfold bgcd
 rw [bgcdLoop_eq]
 · split <;> split <;> simp only [Int.neg_gcd,Int.gcd_neg]
 · split <;> omega
 · split <;> omega

theorem makeRat_eq (num:ℤ) {den:ℤ} (h:den ≠ 0) : makeRat num den = .ok (ofRat (num / den)) := by
 have hpos:∀ n d : ℤ, 0 < d → n ≠ 0 →
   (⟨n.tdiv (bgcd n d),d.tdiv (bgcd n d)⟩ : Ratio)=ofRat (n / d) := by
  intro n d hd _
  have hdne:d ≠ 0:=ne_of_gt hd
  have hdvdn:=Int.gcd_dvd_left n d
  have hdvdd:=Int.gcd_dvd_right n d
  have hg:(0 : ℤ) < Int.gcd n d:=Int.natCast_pos.mpr (Int.gcd_pos_of_ne_zero_right n hdne)
  unfold ofRat
  rw [Rat.intCast_div_eq_divInt,Rat.num_divInt,Rat.den_divInt,if_neg hdne,bgcd_eq,
   Int.sign_eq_one_of_pos hd,one_mul,Int.gcd_comm d n,Int.tdiv_eq_ediv_of_dvd hdvdn,
   Int.tdiv_eq_ediv_of_dvd hdvdd,Int.natCast_div,Int.natAbs_of_nonneg (le_of_lt hd)]
 unfold makeRat
 rw [if_neg h]
 dsimp only
 by_cases hneg:den < 0
 · rw [if_pos hneg,if_pos hneg]
   by_cases hzero:-num=0
   · have hnum:num=0:=by omega
     rw [if_pos hzero,hnum,Int.cast_zero,zero_div]
     rfl
   · rw [if_neg hzero,hpos (-num) (-den) (by omega) hzero]
     congr 2
     push_cast
     rw [neg_div_neg_eq]
 · rw [if_neg hneg,if_neg hneg]
   by_cases hzero:num=0
   · rw [if_pos hzero,hzero,Int.cast_zero,zero_div]
     rfl
   · rw [if_neg hzero,hpos num den (by omega) hzero]

theorem den_ne_zero (q:ℚ) : ((q.den : ℤ) : ℚ) ≠ 0 := by exact_mod_cast q.den_nz

theorem num_div (q:ℚ) : (q.num : ℚ) / (q.den : ℤ)=q := by exact_mod_cast Rat.num_div_den q

theorem den_mul_ne_zero (p q:ℚ) : (p.den*q.den : ℤ) ≠ 0 := by
 exact_mod_cast Nat.mul_ne_zero p.den_nz q.den_nz

theorem ratAdd_eq (p q:ℚ) : ratAdd (ofRat p) (ofRat q) = .ok (ofRat (p+q)) := by
 refine (makeRat_eq _ (den_mul_ne_zero p q)).trans ?_
 have hp:=den_ne_zero p
 have hq:=den_ne_zero q
 conv_rhs=>rw [←num_div p,←num_div q]
 congr 2
 push_cast [num_ofRat,den_ofRat] at hp hq ⊢
 field_simp

theorem ratSub_eq (p q:ℚ) : ratSub (ofRat p) (ofRat q) = .ok (ofRat (p-q)) := by
 refine (makeRat_eq _ (den_mul_ne_zero p q)).trans ?_
 have hp:=den_ne_zero p
 have hq:=den_ne_zero q
 conv_rhs=>rw [←num_div p,←num_div q]
 congr 2
 push_cast [num_ofRat,den_ofRat] at hp hq ⊢
 field_simp

theorem ratMul_eq (p q:ℚ) : ratMul (ofRat p) (ofRat q) = .ok (ofRat (p*q)) := by
 refine (makeRat_eq _ (den_mul_ne_zero p q)).trans ?_
 conv_rhs=>rw [←num_div p,←num_div q]
 congr 2
 push_cast [num_ofRat,den_ofRat]
 rw [div_mul_div_comm]

theorem ratDiv_eq (p q:ℚ) : ratDiv (ofRat p) (ofRat q) =
  if q=0 then .error "rational: division by zero" else .ok (ofRat (p / q)) := by
 unfold ratDiv
 by_cases hq:q=0
 · have hnum:(ofRat q).num=0:=Rat.num_eq_zero.mpr hq
   rw [if_pos hnum,if_pos hq]
 · have hnum:(ofRat q).num ≠ 0:=fun h=>hq (Rat.num_eq_zero.mp h)
   have hden:(ofRat p).den*(ofRat q).num ≠ 0:=
    mul_ne_zero (Int.natCast_ne_zero.mpr p.den_nz) hnum
   rw [if_neg hnum,if_neg hq,makeRat_eq _ hden]
   conv_rhs=>rw [←num_div p,←num_div q]
   congr 2
   have hnum' : ((ofRat q).num : ℚ) ≠ 0:=Int.cast_ne_zero.mpr hnum
   push_cast
   rw [div_div_div_eq]
   rfl

theorem ratNeg_eq (q:ℚ) : ratNeg (ofRat q)=ofRat (-q) := by
 unfold ratNeg ofRat
 rw [Rat.num_neg_eq_neg_num,Rat.den_neg_eq_den]

theorem ratAbs_eq (q:ℚ) : ratAbs (ofRat q)=ofRat |q| := by
 unfold ratAbs
 rw [num_ofRat]
 by_cases h:q < 0
 · rw [if_pos (Rat.num_neg.mpr h),abs_of_neg h]
   exact ratNeg_eq q
 · rw [if_neg fun hnum=>h (Rat.num_neg.mp hnum),abs_of_nonneg (not_lt.mp h)]

/-! ## Order -/

def orderOf (p q:ℚ) : ℤ := if p < q then -1 else if q < p then 1 else 0

theorem ratCmp_eq (p q:ℚ) : ratCmp (ofRat p) (ofRat q)=orderOf p q := by
 unfold ratCmp orderOf
 simp only [Rat.lt_iff]
 rfl

theorem ratMin_eq (p q:ℚ) : ratMin (ofRat p) (ofRat q)=ofRat (min p q) := by
 unfold ratMin
 rw [ratCmp_eq]
 unfold orderOf
 by_cases hlt:p < q
 · rw [if_pos hlt,if_pos (by decide),min_eq_left hlt.le]
 · by_cases hgt:q < p
   · rw [if_neg hlt,if_pos hgt,if_neg (by decide),min_eq_right hgt.le]
   · have heq:p=q:=le_antisymm (not_lt.mp hgt) (not_lt.mp hlt)
     rw [heq,min_self,ite_self]

theorem ratMax_eq (p q:ℚ) : ratMax (ofRat p) (ofRat q)=ofRat (max p q) := by
 unfold ratMax
 rw [ratCmp_eq]
 unfold orderOf
 by_cases hlt:p < q
 · rw [if_pos hlt,if_neg (by decide),max_eq_right hlt.le]
 · by_cases hgt:q < p
   · rw [if_neg hlt,if_pos hgt,if_pos (by decide),max_eq_left hgt.le]
   · have heq:p=q:=le_antisymm (not_lt.mp hgt) (not_lt.mp hlt)
     rw [heq,max_self,ite_self]

/-! ## Rounding -/

theorem fromInt_eq (i:ℤ) : fromInt i=ofRat i := rfl

variable {d e:ℤ} {p:Char → Bool} {a b:List Char} {r:Ratio}

theorem tdiv_sub_one (n:ℤ) (hd:0 < d) :
  (if n < 0 ∧ n.tmod d ≠ 0 then n.tdiv d-1 else n.tdiv d)=n / d := by
 have hdvd:n.tmod d ≠ 0 ↔ ¬ d ∣ n:=not_congr Int.dvd_iff_tmod_eq_zero.symm
 simp only [hdvd,Int.tdiv_eq_ediv,Int.sign_eq_one_of_pos hd]
 by_cases hneg:n < 0
 · by_cases h:d ∣ n
   · rw [if_neg (by simp [h]),if_pos (Or.inr h),add_zero]
   · rw [if_pos ⟨hneg,h⟩,if_neg (by simp [h,hneg]),add_sub_cancel_right]
 · rw [if_neg (by simp [hneg]),if_pos (Or.inl (not_lt.mp hneg)),add_zero]

theorem tdiv_add_one (n:ℤ) (hd:0 < d) :
  (if n > 0 ∧ n.tmod d ≠ 0 then n.tdiv d+1 else n.tdiv d) = -(-n / d) := by
 rw [←tdiv_sub_one (-n) hd,Int.neg_tdiv,Int.neg_tmod]
 by_cases h:n > 0 ∧ n.tmod d ≠ 0
 · rw [if_pos h,if_pos ⟨by omega,by omega⟩]
   ring
 · rw [if_neg h,if_neg (by omega),neg_neg]

theorem den_pos (q:ℚ) : (0 : ℤ) < q.den := Int.natCast_pos.mpr q.den_pos

theorem ratFloor_eq (q:ℚ) : ratFloor (ofRat q)=ofRat ⌊q⌋ := by
 rw [←fromInt_eq,Rat.floor_def', ← tdiv_sub_one q.num (den_pos q)]
 rfl

theorem ratCeil_eq (q:ℚ) : ratCeil (ofRat q)=ofRat ⌈q⌉ := by
 rw [←fromInt_eq,Rat.ceil_def', ← tdiv_add_one q.num (den_pos q)]
 rfl

theorem ratTrunc_eq (q:ℚ) : ratTrunc (ofRat q)=ofRat (haskellTruncate q) := by
 rw [←fromInt_eq]
 apply congrArg fromInt
 change q.num.tdiv q.den=_
 unfold haskellTruncate
 by_cases h:0 ≤ q
 · rw [if_pos h,Rat.floor_def', Int.tdiv_eq_ediv_of_nonneg (Rat.num_nonneg.mpr h)]
 · have hneg:0 ≤ -q.num:=by
    have hnum:=Rat.num_neg.mpr (not_le.mp h)
    omega
   rw [if_neg h,Rat.ceil_def', ← Int.tdiv_eq_ediv_of_nonneg hneg,Int.neg_tdiv,neg_neg]

theorem ratRound_eq (q:ℚ) : ratRound (ofRat q)=ofRat (haskellRound q) := by
 rw [←fromInt_eq]
 apply congrArg fromInt
 apply Nearest.unique (x := q) _ (nearest_halfEven q)
 rw [num_ofRat,den_ofRat]
 by_cases hneg:q.num < 0
 · have habs:0 ≤ -q.num:=by omega
   have hx:q = -(((-q.num : ℤ) : ℚ) / (q.den : ℤ)):=by
    rw [Int.cast_neg,neg_div,neg_neg,num_div]
   rw [if_pos hneg,if_pos hneg,Int.tdiv_eq_ediv_of_nonneg habs,
    Int.tmod_eq_emod_of_nonneg habs]
   conv_lhs=>rw [hx]
   exact (nearest_div (-q.num) (den_pos q)).neg
 · rw [if_neg hneg,if_neg hneg,Int.tdiv_eq_ediv_of_nonneg (not_lt.mp hneg),
    Int.tmod_eq_emod_of_nonneg (not_lt.mp hneg)]
   conv_lhs=>rw [←num_div q]
   exact nearest_div q.num (den_pos q)

/-! ## Operators -/

theorem tmod_add_divisor (a b:ℤ) :
  (if a.tmod b ≠ 0 ∧ ¬(a.tmod b < 0 ↔ b < 0) then a.tmod b+b else a.tmod b)=a.fmod b := by
 rw [Int.fmod_eq_tmod]
 by_cases hdvd:b ∣ a
 · have hzero:a.tmod b=0:=Int.dvd_iff_tmod_eq_zero.mp hdvd
   rw [if_neg (by simp [hzero]),if_pos hdvd,add_zero]
 · have hne:a.tmod b ≠ 0:=fun h=>hdvd (Int.dvd_iff_tmod_eq_zero.mpr h)
   rw [if_neg hdvd]
   by_cases ha:0 ≤ a
   · have hsign:0 ≤ a.tmod b:=Int.tmod_nonneg b ha
     rw [if_pos ha]
     by_cases hb:0 ≤ b
     · rw [if_neg (by omega),if_pos hb,add_zero]
     · rw [if_pos (by omega),if_neg hb]
   · have hsign:a.tmod b ≤ 0:=by
      have hnonneg:=Int.tmod_nonneg b (a := -a) (by omega)
      rw [Int.neg_tmod] at hnonneg
      omega
     rw [if_neg ha]
     by_cases hb:0 ≤ b
     · rw [if_pos (by omega),if_pos hb]
       omega
     · rw [if_neg (by omega),if_neg hb]
       omega

def modText : EvalException → String
 | .notAnInteger q=>notAnInteger (ofRat q)
 | .divisionByZero=> "Division by zero in the operation:\nMODULO"

theorem ratMod_eq (p q:ℚ) :
  ratMod (ofRat p) (ofRat q)=((runModulo p q).map ofRat).mapError modText := by
 have hden:∀ r : ℚ, (ofRat r).den=1 ↔ r.den=1:=fun r=>Nat.cast_eq_one
 unfold ratMod runModulo expectInteger
 by_cases hp:p.den=1
 · rw [if_neg (not_not.mpr ((hden p).mpr hp)),if_pos hp]
   by_cases hq:q.den=1
   · rw [if_neg (not_not.mpr ((hden q).mpr hq)),if_pos hq]
     by_cases hzero:q.num=0
     · rw [num_ofRat,if_pos hzero]
       simp only [hzero]
       rfl
     · rw [num_ofRat,if_neg hzero,num_ofRat]
       dsimp only
       rw [tmod_add_divisor]
       simp only [bind,Except.bind,if_pos hzero]
       rfl
   · rw [if_pos ((hden q).not.mpr hq),if_neg hq]
     rfl
 · rw [if_pos ((hden p).not.mpr hp),if_neg hp]
   rfl

theorem l4Trunc_eq (v digits:ℚ) :
  l4Trunc (ofRat v) (ofRat digits) = .ok (ofRat (runTrunc v digits)) := by
 have hpow:∀ k : ℕ, (10 : ℚ) ^ k ≠ 0:=fun k=>pow_ne_zero k (by norm_num)
 have hfactor:∀ k : ℕ, makeRat (10 ^ k) 1 = .ok (ofRat (10 ^ k)):=by
  intro k
  rw [makeRat_eq _ one_ne_zero]
  congr 2
  push_cast
  rw [div_one]
 unfold l4Trunc runTrunc
 rw [ratRound_eq]
 simp only [num_ofRat,Rat.num_intCast,hfactor,ratMul_eq,ratDiv_eq,ratTrunc_eq,bind,
  Except.bind,if_neg (hpow _)]
 split <;> rfl

/-! ## Numerals -/

inductive IntegerText : List Char → ℤ → Prop
 | plain {digits:List Char} (h:digits ≠ [] ∧ ∀ c ∈ digits, c.isDigit) :
  IntegerText digits (digitsValue digits)
 | plus {digits:List Char} (h:digits ≠ [] ∧ ∀ c ∈ digits, c.isDigit) :
  IntegerText ('+' :: digits) (digitsValue digits)
 | minus {digits:List Char} (h:digits ≠ [] ∧ ∀ c ∈ digits, c.isDigit) :
  IntegerText ('-' :: digits) (-digitsValue digits)

inductive ExponentText : List Char → ℤ → Prop
 | none : ExponentText [] 0
 | some {c:Char} {text:List Char} {i:ℤ} (hc:c = 'e' ∨ c = 'E') (h:IntegerText text i) :
  ExponentText (c::text) i

inductive PointText : List Char → List Char → List Char → Prop
 | whole {int:List Char} (hint:∀ c ∈ int, c.isDigit) : PointText int int []
 | point {int frac:List Char} (hint:∀ c ∈ int, c.isDigit) (hfrac:∀ c ∈ frac, c.isDigit) :
  PointText (int ++ '.' :: frac) int frac

inductive Denotes : List Char → ℚ → Prop
 | ratio {a b:List Char} {m n:ℤ} (ha:IntegerText a m) (hb:IntegerText b n) (hn:n ≠ 0) :
  Denotes (a ++ '/' :: b) (m / n)
 | decimal {sign:Option Char} {digits int frac exponent:List Char} {e:ℤ}
  (hsign:sign ∈ [none,some '+',some '-']) (hdigits:PointText digits int frac)
  (hsome:int ++ frac ≠ []) (he:ExponentText exponent e) :
  Denotes (sign.toList ++ digits ++ exponent)
   ((if sign=some '-' then -1 else 1) *
    (digitsValue int+digitsValue frac / 10 ^ frac.length)*10 ^ e)

theorem integerText_iff (text:List Char) (i:ℤ) :
  IntegerText text i ↔ isInteger text=true ∧ bigInt text=i := by
 have hdigits:∀ digits : List Char, (!digits.isEmpty && digits.all Char.isDigit)=true ↔
   digits ≠ [] ∧ ∀ c ∈ digits, c.isDigit := by
  intro digits
  rw [Bool.and_eq_true,List.all_eq_true]
  cases digits <;> simp
 have hplain:∀ digits : List Char, digits ≠ [] ∧ (∀ c ∈ digits, c.isDigit) →
   splitSign digits=(none,digits) := by
  intro digits h
  unfold splitSign
  split
  · exact absurd (h.2 '+' List.mem_cons_self) (by decide)
  · exact absurd (h.2 '-' List.mem_cons_self) (by decide)
  · rfl
 unfold isInteger bigInt
 constructor
 · intro h
   cases h with
   | plain h=>
    rw [hplain _ h]
    exact ⟨(hdigits _).mpr h,rfl⟩
   | plus h=>exact ⟨(hdigits _).mpr h,rfl⟩
   | minus h=>exact ⟨(hdigits _).mpr h,rfl⟩
 · intro ⟨hinteger,hvalue⟩
   rw [←hvalue]
   unfold splitSign at hinteger ⊢
   split at hinteger
   · exact .plus ((hdigits _).mp hinteger)
   · exact .minus ((hdigits _).mp hinteger)
   · exact .plain ((hdigits _).mp hinteger)

theorem exponentText_iff (text:List Char) (e:ℤ) :
  ExponentText text e ↔ ∃ exp, matchExponent text=some exp ∧ exp.elim 0 bigInt=e := by
 constructor
 · intro h
   cases h with
   | none=>exact ⟨none,rfl,rfl⟩
   | some hc h=>
    have ⟨hinteger,hvalue⟩:=(integerText_iff _ _).mp h
    exact ⟨some _,if_pos ⟨hc,hinteger⟩,hvalue⟩
 · intro ⟨exp,hmatch,hvalue⟩
   unfold matchExponent at hmatch
   split at hmatch
   · cases hmatch
     exact hvalue ▸ .none
   · split at hmatch
     · rename_i hc
       cases hmatch
       exact .some hc.1 ((integerText_iff _ _).mpr ⟨hc.2,hvalue⟩)
     · cases hmatch

theorem span_append {digits rest:List Char} (hdigits:∀ c ∈ digits, p c)
  (hrest:∀ c ∈ rest.head?, ¬ p c) : (digits ++ rest).span p=(digits,rest) := by
 rw [List.span_eq_takeWhile_dropWhile,List.takeWhile_append_of_pos hdigits,
  List.dropWhile_append_of_pos hdigits]
 cases rest with
 | nil=>rw [List.takeWhile_nil,List.dropWhile_nil,List.append_nil]
 | cons c rest=>
  have hc:=hrest c rfl
  rw [List.takeWhile_cons_of_neg hc,List.dropWhile_cons_of_neg hc,List.append_nil]

theorem span_spec {text digits rest:List Char}
  (h:text.span p=(digits,rest)) : text=digits ++ rest ∧ ∀ c ∈ digits, p c := by
 rw [List.span_eq_takeWhile_dropWhile] at h
 cases h
 exact ⟨List.takeWhile_append_dropWhile.symm,fun c hc=>List.mem_takeWhile_imp hc⟩

theorem splitDigits_append {digits int frac rest:List Char} (h:PointText digits int frac)
  (hrest:∀ c ∈ rest.head?, ¬ c.isDigit ∧ c ≠ '.') :
  splitDigits (digits ++ rest)=(int,frac,rest) := by
 unfold splitDigits
 cases h with
 | whole hint=>
  rw [span_append hint fun c hc=>(hrest c hc).1]
  dsimp only
  split
  · exact absurd rfl (hrest '.' rfl).2
  · rfl
 | point hint hfrac=>
  have hhead:∀ c ∈ ('.' :: (frac ++ rest)).head?, ¬ c.isDigit:=by
   intro c hc
   cases hc
   decide
  rw [List.append_assoc,List.cons_append,span_append hint hhead]
  change ((int,((frac ++ rest).span Char.isDigit).1,((frac ++ rest).span Char.isDigit).2) :
   List Char × List Char × List Char)=_
  rw [span_append hfrac fun c hc=>(hrest c hc).1]

theorem splitDigits_spec {text int frac rest:List Char}
  (h:splitDigits text=(int,frac,rest)) :
  ∃ digits, text=digits ++ rest ∧ PointText digits int frac := by
 unfold splitDigits at h
 cases hspan:text.span Char.isDigit with
 | mk int' text' =>
  have ⟨htext,hint⟩:=span_spec hspan
  rw [hspan] at h
  dsimp only at h
  split at h
  · rename_i after
    cases hafter:after.span Char.isDigit with
    | mk frac' rest' =>
     have ⟨hrest,hfrac⟩:=span_spec hafter
     rw [hafter] at h
     cases h
     refine ⟨_, ?_,.point hint hfrac⟩
     rw [List.append_assoc,List.cons_append,←hrest]
     exact htext
  · cases h
    exact ⟨_,htext,.whole hint⟩

theorem head_exponentText {text:List Char} (h:ExponentText text e) :
  ∀ c ∈ text.head?, ¬ c.isDigit ∧ c ≠ '.' := by
 intro c hc
 cases h with
 | none=>cases hc
 | some hletter h=>
  cases hc
  cases hletter with
  | inl heq=>rw [heq]; decide
  | inr heq=>rw [heq]; decide

theorem splitSign_append {sign:Option Char} {text:List Char}
  (hsign:sign ∈ [none,some '+',some '-']) (htext:∀ c ∈ text.head?, c ≠ '+' ∧ c ≠ '-') :
  splitSign (sign.toList ++ text)=(sign,text) := by
 simp only [List.mem_cons,List.not_mem_nil,or_false] at hsign
 cases hsign with
 | inl hnone=>
  rw [hnone]
  change splitSign text=_
  unfold splitSign
  split
  · exact absurd rfl (htext '+' rfl).1
  · exact absurd rfl (htext '-' rfl).2
  · rfl
 | inr hsome=>
  cases hsome with
  | inl hplus=>rw [hplus]; rfl
  | inr hminus=>rw [hminus]; rfl

theorem sign_splitSign (text:List Char) :
  (splitSign text).1 ∈ [none,some '+',some '-'] ∧
   text=(splitSign text).1.toList ++ (splitSign text).2 := by
 unfold splitSign
 split
 · exact ⟨by simp,rfl⟩
 · exact ⟨by simp,rfl⟩
 · exact ⟨by simp,rfl⟩

def groupsValue (g:Groups) : ℚ :=
 (if g.sign=some '-' then -1 else 1) *
  (digitsValue g.int+digitsValue g.frac / 10 ^ g.frac.length)*10 ^ g.exp.elim 0 bigInt

theorem denotes_of_matchDecimal {text:List Char} {g:Groups} (h:matchDecimal text=some g)
  (hsome:g.int ++ g.frac ≠ []) : Denotes text (groupsValue g) := by
 unfold matchDecimal at h
 have ⟨hsign,htext⟩:=sign_splitSign text
 cases hdigits:splitDigits (splitSign text).2 with
 | mk int rest=>
  have ⟨frac,exponent⟩:=rest
  have ⟨digits,heq,hpoint⟩:=splitDigits_spec hdigits
  simp only [hdigits] at h
  have ⟨exp,hexp,hg⟩:=Option.map_eq_some_iff.mp h
  rw [←hg] at hsome ⊢
  have hdenotes:Denotes ((splitSign text).1.toList ++ digits ++ exponent)
    (groupsValue ⟨(splitSign text).1,int,frac,exp⟩) :=
   .decimal hsign hpoint hsome ((exponentText_iff exponent _).mpr ⟨exp,hexp,rfl⟩)
  rw [List.append_assoc,←heq,←htext] at hdenotes
  exact hdenotes

theorem slash_not_mem_integerText {text:List Char} {i:ℤ} (h:IntegerText text i) :
  '/' ∉ text := by
 have hdigits:∀ digits : List Char, (∀ c ∈ digits, c.isDigit) → '/' ∉ digits:=by
  intro digits h hmem
  exact absurd (h _ hmem) (by decide)
 cases h with
 | plain h=>exact hdigits _ h.2
 | plus h=>exact List.not_mem_cons_of_ne_of_not_mem (by decide) (hdigits _ h.2)
 | minus h=>exact List.not_mem_cons_of_ne_of_not_mem (by decide) (hdigits _ h.2)

theorem matchDecimal_of_decimal {sign:Option Char} {digits int frac exponent:List Char}
  (hsign:sign ∈ [none,some '+',some '-']) (hdigits:PointText digits int frac)
  (hsome:int ++ frac ≠ []) (he:ExponentText exponent e) :
  ∃ exp, matchDecimal (sign.toList ++ digits ++ exponent)=some ⟨sign,int,frac,exp⟩ ∧
   exp.elim 0 bigInt=e := by
 have ⟨exp,hexp,hvalue⟩:=(exponentText_iff exponent e).mp he
 have hhead:∀ c ∈ (digits ++ exponent).head?, c ≠ '+' ∧ c ≠ '-' :=by
  intro c hc
  have hdigit:∀ d : Char, d.isDigit → d ≠ '+' ∧ d ≠ '-' :=by
   intro d hd
   constructor
   · intro heq
     rw [heq] at hd
     cases hd
   · intro heq
     rw [heq] at hd
     cases hd
  cases hdigits with
  | whole hint=>
   cases digits with
   | nil=>exact absurd rfl hsome
   | cons d digits=>
    cases hc
    exact hdigit _ (hint _ List.mem_cons_self)
  | point hint hfrac=>
   cases int with
   | nil=>
    cases hc
    decide
   | cons d int=>
    cases hc
    exact hdigit _ (hint _ List.mem_cons_self)
 refine ⟨exp, ?_,hvalue⟩
 unfold matchDecimal
 rw [List.append_assoc,splitSign_append hsign hhead]
 dsimp only
 rw [splitDigits_append hdigits (head_exponentText he)]
 dsimp only
 rw [hexp]
 rfl

theorem digitsValue_append (a b:List Char) :
  digitsValue (a ++ b)=digitsValue a*10 ^ b.length+digitsValue b := by
 have hfold:∀ (l:List Char) (n:ℕ),
   l.foldl (fun n c=>10*n+(c.toNat-48)) n=n*10 ^ l.length+digitsValue l := by
  intro l
  induction l with
  | nil=>
   intro n
   rw [List.foldl_nil,List.length_nil,pow_zero,mul_one]
   rfl
  | cons c l ih=>
   intro n
   have hone:digitsValue (c::l)=(c.toNat-48)*10 ^ l.length+digitsValue l:=by
    calc digitsValue (c::l)=l.foldl _ (10*0+(c.toNat-48)) := rfl
     _ = _ := by rw [ih,mul_zero,zero_add]
   rw [List.foldl_cons,ih,hone,List.length_cons]
   ring
 unfold digitsValue
 rw [List.foldl_append]
 exact hfold b _

theorem makeRat_groups (g:Groups) :
  (if 0 ≤ g.exp.elim 0 bigInt then
   makeRat ((if g.sign=some '-' then -1 else 1) *
    ((digitsValue (g.int ++ g.frac) : ℤ)*10 ^ (g.exp.elim 0 bigInt).natAbs))
     (10 ^ g.frac.length)
  else
   makeRat ((if g.sign=some '-' then -1 else 1)*(digitsValue (g.int ++ g.frac) : ℤ))
    (10 ^ g.frac.length*10 ^ (g.exp.elim 0 bigInt).natAbs)) =
   .ok (ofRat (groupsValue g)) := by
 have hten:(10 : ℚ) ≠ 0:=by norm_num
 have hpow:∀ k : ℕ, (10 : ℤ) ^ k ≠ 0:=fun k=>pow_ne_zero k (by norm_num)
 unfold groupsValue
 rw [digitsValue_append]
 generalize g.exp.elim 0 bigInt=e
 split
 · rename_i he
   have hnat:(10 : ℚ) ^ e=10 ^ e.natAbs:=by
    rw [←zpow_natCast,Int.natAbs_of_nonneg he]
   rw [makeRat_eq _ (hpow _),hnat]
   congr 2
   push_cast
   field_simp
 · rename_i he
   have hnat:(10 : ℚ) ^ e=(10 ^ e.natAbs)⁻¹:=by
    rw [←zpow_natCast,←zpow_neg,Int.ofNat_natAbs_of_nonpos (by omega),neg_neg]
   rw [makeRat_eq _ (mul_ne_zero (hpow _) (hpow _)),hnat]
   congr 2
   push_cast
   field_simp

theorem slash_not_mem_decimal {sign:Option Char} {digits int frac exponent:List Char}
  (hsign:sign ∈ [none,some '+',some '-']) (hdigits:PointText digits int frac)
  (he:ExponentText exponent e) : '/' ∉ sign.toList ++ digits ++ exponent := by
 have hall:∀ l : List Char, (∀ c ∈ l, c.isDigit) → '/' ∉ l:=by
  intro l h hmem
  exact absurd (h _ hmem) (by decide)
 rw [List.mem_append,List.mem_append,not_or,not_or]
 refine ⟨⟨?_, ?_⟩, ?_⟩
 · simp only [List.mem_cons,List.not_mem_nil,or_false] at hsign
   intro hmem
   cases hsign with
   | inl hnone=>
    rw [hnone] at hmem
    cases hmem
   | inr hsome=>
    cases hsome with
    | inl hplus=>exact absurd (hplus ▸ hmem) (by decide)
    | inr hminus=>exact absurd (hminus ▸ hmem) (by decide)
 · cases hdigits with
   | whole hint=>exact hall _ hint
   | point hint hfrac=>
    rw [List.mem_append,List.mem_cons,not_or,not_or]
    exact ⟨hall _ hint,by decide,hall _ hfrac⟩
 · cases he with
   | none=>exact List.not_mem_nil
   | some hc h=>
    apply List.not_mem_cons_of_ne_of_not_mem _ (slash_not_mem_integerText h)
    intro heq
    cases hc with
    | inl hc=>exact absurd (heq.trans hc) (by decide)
    | inr hc=>exact absurd (heq.trans hc) (by decide)

theorem span_slash (ha : '/' ∉ a) :
  (a ++ '/' :: b).span (fun c=>decide (c ≠ '/'))=(a,'/' :: b) := by
 apply span_append
 · intro c hc
   exact decide_eq_true fun heq=>ha (heq ▸ hc)
 · intro c hc
   cases hc
   decide

theorem denotes_slash (ha : '/' ∉ a)
  (hinteger:(isInteger a && isInteger b)=true) (hr:makeRat (bigInt a) (bigInt b) = .ok r) :
  (∃ q, Denotes (a ++ '/' :: b) q) ∧ ∀ q, Denotes (a ++ '/' :: b) q → r=ofRat q := by
 have ⟨hinta,hintb⟩:=(Bool.and_eq_true _ _).mp hinteger
 have hn:bigInt b ≠ 0:=by
  intro hzero
  unfold makeRat at hr
  rw [if_pos hzero] at hr
  cases hr
 rw [makeRat_eq _ hn] at hr
 cases hr
 constructor
 · exact ⟨_,.ratio ((integerText_iff a _).mpr ⟨hinta,rfl⟩)
    ((integerText_iff b _).mpr ⟨hintb,rfl⟩) hn⟩
 · intro q hq
   generalize htext:a ++ '/' :: b=text at hq
   cases hq with
   | @ratio a' b' m n ha' hb' hn' =>
    have hsame:=span_slash ha (b := b)
    rw [htext,span_slash (slash_not_mem_integerText ha')] at hsame
    cases hsame
    rw [((integerText_iff _ _).mp ha').2,((integerText_iff _ _).mp hb').2]
   | decimal hsign hdigits hsome he=>
    have hmem: '/' ∈ a ++ '/' :: b:=by simp
    exact absurd (htext ▸ hmem) (slash_not_mem_decimal hsign hdigits he)

theorem ratFromDecimalString_spec {stringify:String → String} {s:String}
  (h:ratFromDecimalString stringify s = .ok r) :
  (∃ q, Denotes (trim s.toList) q) ∧ ∀ q, Denotes (trim s.toList) q → r=ofRat q := by
 unfold ratFromDecimalString at h
 dsimp only at h
 generalize trim s.toList=str at h ⊢
 by_cases hslash: '/' ∈ str
 · rw [if_pos hslash] at h
   have ⟨a,b,hstr,ha⟩:=List.eq_append_cons_of_mem hslash
   rw [hstr,span_slash ha] at h
   rw [hstr]
   dsimp only at h
   split at h
   · rename_i hinteger
     exact denotes_slash ha hinteger h
   · cases h
 · rw [if_neg hslash] at h
   cases hmatch:matchDecimal str with
   | none=>
    rw [hmatch] at h
    cases h
   | some g=>
    rw [hmatch] at h
    dsimp only at h
    split at h
    · cases h
    · rename_i hempty
      have hsome:g.int ++ g.frac ≠ []:=by
       intro hnil
       have ⟨hint,hfrac⟩:=List.append_eq_nil_iff.mp hnil
       rw [hint,hfrac] at hempty
       exact hempty rfl
      split at h
      · cases h
      · rw [makeRat_groups] at h
        cases h
        refine ⟨⟨_,denotes_of_matchDecimal hmatch hsome⟩,fun q hq=>?_⟩
        cases hq with
        | ratio ha hb hn=>exact absurd (by simp) hslash
        | decimal hsign hdigits hsome' he=>
         have ⟨exp,hexp,hvalue⟩:=matchDecimal_of_decimal hsign hdigits hsome' he
         cases hmatch.symm.trans hexp
         rw [←hvalue]
         rfl

/-! ## All of it -/

structure Exact : Prop where
 canonical : ∀ r, Canonical r ↔ ∃ q, r=ofRat q
 add : ∀ p q, ratAdd (ofRat p) (ofRat q) = .ok (ofRat (p+q))
 sub : ∀ p q, ratSub (ofRat p) (ofRat q) = .ok (ofRat (p-q))
 mul : ∀ p q, ratMul (ofRat p) (ofRat q) = .ok (ofRat (p*q))
 div : ∀ p q, ratDiv (ofRat p) (ofRat q) =
  if q=0 then .error "rational: division by zero" else .ok (ofRat (p / q))
 neg : ∀ q, ratNeg (ofRat q)=ofRat (-q)
 abs : ∀ q, ratAbs (ofRat q)=ofRat |q|
 min : ∀ p q, ratMin (ofRat p) (ofRat q)=ofRat (min p q)
 max : ∀ p q, ratMax (ofRat p) (ofRat q)=ofRat (max p q)
 cmp : ∀ p q, ratCmp (ofRat p) (ofRat q)=orderOf p q
 floor : ∀ q, ratFloor (ofRat q)=ofRat ⌊q⌋
 ceil : ∀ q, ratCeil (ofRat q)=ofRat ⌈q⌉
 trunc : ∀ q, ratTrunc (ofRat q)=ofRat (haskellTruncate q)
 round : ∀ q, ratRound (ofRat q)=ofRat (haskellRound q)
 mod : ∀ p q, ratMod (ofRat p) (ofRat q)=((runModulo p q).map ofRat).mapError modText
 /-- `TRUNC`, with the number of digits rounded. -/
 l4Trunc : ∀ v digits, l4Trunc (ofRat v) (ofRat digits) = .ok (ofRat (runTrunc v digits))
 numerals : ∀ stringify s r, ratFromDecimalString stringify s = .ok r →
  (∃ q, Denotes (trim s.toList) q) ∧ ∀ q, Denotes (trim s.toList) q → r=ofRat q

/-- The rational core is exact, and the operators on it agree with the evaluator's. -/
theorem exact_rationalCore : Exact where
 canonical:=canonical_iff
 add:=ratAdd_eq
 sub:=ratSub_eq
 mul:=ratMul_eq
 div:=ratDiv_eq
 neg:=ratNeg_eq
 abs:=ratAbs_eq
 min:=ratMin_eq
 max:=ratMax_eq
 cmp:=ratCmp_eq
 floor:=ratFloor_eq
 ceil:=ratCeil_eq
 trunc:=ratTrunc_eq
 round:=ratRound_eq
 mod:=ratMod_eq
 l4Trunc:=l4Trunc_eq
 numerals _ _ _ h := ratFromDecimalString_spec h

end L4Ide.RationalCoreExact
