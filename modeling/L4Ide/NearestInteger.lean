import Mathlib.Algebra.Order.Field.Basic
import Mathlib.Algebra.Order.Floor.Ring
import Mathlib.Algebra.Order.Ring.Int
import Mathlib.Algebra.Ring.Int.Parity
import Mathlib.Tactic.FieldSimp
import Mathlib.Tactic.Linarith
import Mathlib.Tactic.Ring

set_option autoImplicit false

/-!
# Nearest integers

Rounding to the nearest integer, and to the even one of two that are equally near.
-/
namespace L4Ide.NearestInteger

section Fields

variable {K:Type} [Field K] [LinearOrder K] [IsStrictOrderedRing K]

/-- `r` is nearest to `x`, and even when `x` is half way to the next. -/
def Nearest (x:K) (r:ℤ) : Prop := |x-r| ≤ 1 / 2 ∧ (|x-r| = 1 / 2 → Even r)

theorem Nearest.unique {x:K} {r r' : ℤ} (h:Nearest x r) (h' : Nearest x r') : r=r' := by
 have ⟨hle,heven⟩:=h
 have ⟨hle', heven'⟩:=h'
 have hbound:=abs_le.mp hle
 have hbound' :=abs_le.mp hle'
 have hlow:-1 ≤ r-r' :=by
  have hcast:(-1 : K) ≤ ((r-r' : ℤ) : K):=by
   push_cast
   linarith [hbound.1,hbound.2,hbound'.1,hbound'.2]
  exact_mod_cast hcast
 have hhigh:r-r' ≤ 1:=by
  have hcast:((r-r' : ℤ) : K) ≤ 1:=by
   push_cast
   linarith [hbound.1,hbound.2,hbound'.1,hbound'.2]
  exact_mod_cast hcast
 by_contra hne
 -- two nearest integers are next to each other, with `x` half way: one of them is odd
 have hsides:r=r' + 1 ∨ r' = r+1:=by omega
 cases hsides with
 | inl heq=>
  have hcast:(r:K)=r' + 1:=by exact_mod_cast heq
  have hx:x-r = -(1 / 2):=by linarith [hbound.1,hbound'.2]
  have hx' : x-r' = 1 / 2:=by linarith
  have he:=heven (by rw [hx,abs_neg,abs_of_pos one_half_pos])
  have he' :=heven' (by rw [hx', abs_of_pos one_half_pos])
  rw [heq,Int.even_add_one] at he
  exact he he'
 | inr heq=>
  have hcast:(r' : K)=r+1:=by exact_mod_cast heq
  have hx' : x-r' = -(1 / 2):=by linarith [hbound'.1,hbound.2]
  have hx:x-r=1 / 2:=by linarith
  have he' :=heven' (by rw [hx', abs_neg,abs_of_pos one_half_pos])
  have he:=heven (by rw [hx,abs_of_pos one_half_pos])
  rw [heq,Int.even_add_one] at he'
  exact he' he

omit [IsStrictOrderedRing K] in
theorem Nearest.neg {x:K} {r:ℤ} (h:Nearest x r) : Nearest (-x) (-r) := by
 have hsame:|(-x)-((-r : ℤ) : K)| = |x-r|:=by
  rw [←abs_neg]
  congr 1
  push_cast
  ring
 unfold Nearest
 rw [hsame]
 exact ⟨h.1,fun hhalf=>(h.2 hhalf).neg⟩

theorem nearest_intCast (r:ℤ) : Nearest (r:K) r := by
 unfold Nearest
 rw [sub_self,abs_zero]
 exact ⟨one_half_pos.le,fun h=>absurd h.symm (ne_of_gt one_half_pos)⟩

theorem nearest_of_part {x:K} {q:ℤ} {part:K} (hx:x=q+part) (hnonneg:0 ≤ part)
  (hlt:part < 1) :
  Nearest x (if 1 / 2 < part ∨ part=1 / 2 ∧ q % 2=1 then q+1 else q) := by
 split
 · rename_i hup
   have hhalf:1 / 2 ≤ part:=hup.elim le_of_lt fun h=>h.1.ge
   have habs:|x-((q+1 : ℤ) : K)| = 1-part:=by
    rw [←abs_neg,abs_of_nonneg] <;> push_cast <;> linarith
   unfold Nearest
   rw [habs]
   refine ⟨by linarith,fun heq=>?_⟩
   have hpart:part=1 / 2:=by linarith
   have hodd:q % 2=1:=(hup.resolve_left fun h=>absurd hpart (ne_of_gt h)).2
   rw [Int.even_iff]
   omega
 · rename_i hdown
   rw [not_or,not_and] at hdown
   have habs:|x-(q:K)| = part:=by
    rw [hx,add_sub_cancel_left,abs_of_nonneg hnonneg]
   unfold Nearest
   rw [habs]
   refine ⟨not_lt.mp hdown.1,fun heq=>?_⟩
   have heven:=hdown.2 heq
   rw [Int.even_iff]
   omega

theorem nearest_div (n:ℤ) {d:ℤ} (hd:0 < d) :
  Nearest ((n:K) / d) (if d < n % d*2 ∨ n % d*2=d ∧ n / d % 2=1 then n / d+1
   else n / d) := by
 have hd' : (0 : K) < d:=by exact_mod_cast hd
 have hdiv:(n:K)=(n / d : ℤ)*d+(n % d : ℤ):=by
  exact_mod_cast (Int.ediv_mul_add_emod n d).symm
 have hx:(n:K) / d=(n / d : ℤ)+((n % d : ℤ) : K) / d:=by
  rw [hdiv,add_div,mul_div_assoc,div_self (ne_of_gt hd'),mul_one]
 have hlt:((n % d : ℤ) : K) / d < 1:=by
  rw [div_lt_one hd']
  exact_mod_cast Int.emod_lt_of_pos n hd
 have hnonneg:0 ≤ ((n % d : ℤ) : K) / d:=
  div_nonneg (by exact_mod_cast Int.emod_nonneg n (ne_of_gt hd)) hd'.le
 have hmore:(1 / 2 : K) < ((n % d : ℤ) : K) / d ↔ d < n % d*2:=by
  rw [div_lt_div_iff₀ two_pos hd', one_mul]
  exact_mod_cast Iff.rfl
 have hsame:((n % d : ℤ) : K) / d=1 / 2 ↔ n % d*2=d:=by
  rw [div_eq_div_iff (ne_of_gt hd') two_ne_zero,one_mul]
  exact_mod_cast Iff.rfl
 have hnearest:=nearest_of_part hx hnonneg hlt
 simp only [hmore,hsame] at hnearest
 exact hnearest

theorem Nearest.le {x:K} {r:ℤ} (h:Nearest x r) (k:ℤ) : |x-r| ≤ |x-k| := by
 by_cases hk:k=r
 · rw [hk]
 · have hone:(1 : K) ≤ |(k:K)-r|:=by
    have hint:1 ≤ |k-r|:=Int.one_le_abs (sub_ne_zero.mpr hk)
    exact_mod_cast hint
   have htriangle:|(k:K)-r| ≤ |x-r| + |x-k|:=by
    have hsplit:(k:K)-r=(x-r)-(x-k):=by ring
    rw [hsplit]
    exact abs_sub _ _
   linarith [h.1]

omit [IsStrictOrderedRing K] in
theorem nearest_zero {x:K} (h:|x| ≤ 1 / 2) : Nearest x 0 := by
 unfold Nearest
 rw [Int.cast_zero,sub_zero]
 exact ⟨h,fun _=>Int.even_iff.mpr rfl⟩

section Floors

variable [FloorRing K]

def halfEven (x:K) : ℤ :=
 if Int.fract x < 1 / 2 then ⌊x⌋
 else if 1 / 2 < Int.fract x then ⌊x⌋ + 1
 else if 2 ∣ ⌊x⌋ then ⌊x⌋ else ⌊x⌋ + 1

theorem nearest_halfEven (x:K) : Nearest x (halfEven x) := by
 have hnearest:=nearest_of_part (Int.floor_add_fract x).symm (Int.fract_nonneg x)
  (Int.fract_lt_one x)
 have hsame:halfEven x =
   if 1 / 2 < Int.fract x ∨ Int.fract x=1 / 2 ∧ ⌊x⌋ % 2=1 then ⌊x⌋ + 1 else ⌊x⌋ := by
  unfold halfEven
  by_cases hlt:Int.fract x < 1 / 2
  · rw [if_pos hlt,if_neg]
    intro h
    cases h with
    | inl h=>exact lt_asymm h hlt
    | inr h=>exact ne_of_lt hlt h.1
  · rw [if_neg hlt]
    by_cases hgt:1 / 2 < Int.fract x
    · rw [if_pos hgt,if_pos (Or.inl hgt)]
    · have heq:Int.fract x=1 / 2:=le_antisymm (not_lt.mp hgt) (not_lt.mp hlt)
      rw [if_neg hgt]
      by_cases heven:2 ∣ ⌊x⌋
      · rw [if_pos heven,if_neg]
        intro h
        have hodd:=(h.resolve_left hgt).2
        omega
      · rw [if_neg heven,if_pos (Or.inr ⟨heq,by omega⟩)]
 rw [hsame]
 exact hnearest

theorem halfEven_eq {x:K} {r:ℤ} (h:Nearest x r) : halfEven x=r :=
 (nearest_halfEven x).unique h

theorem halfEven_neg (x:K) : halfEven (-x) = -halfEven x := halfEven_eq (nearest_halfEven x).neg

theorem halfEven_eq_zero {x:K} : halfEven x=0 ↔ |x| ≤ 1 / 2 := by
 constructor
 · intro h
   have hnearest:=(nearest_halfEven x).1
   rw [h,Int.cast_zero,sub_zero] at hnearest
   exact hnearest
 · exact fun h=>halfEven_eq (nearest_zero h)

theorem le_halfEven {x:K} {k:ℤ} (h:(k:K) ≤ x) : k ≤ halfEven x := by
 by_contra hlt
 have hcast:(halfEven x:K) ≤ k-1:=by exact_mod_cast Int.le_sub_one_of_lt (not_le.mp hlt)
 have hbound:=(nearest_halfEven x).le k
 rw [abs_of_nonneg (sub_nonneg.mpr h),abs_of_nonneg (by linarith)] at hbound
 linarith

theorem halfEven_le {x:K} {k:ℤ} (h:x ≤ k) : halfEven x ≤ k := by
 have hneg:-k ≤ halfEven (-x):=by
  apply le_halfEven
  push_cast
  linarith
 rw [halfEven_neg] at hneg
 omega

end Floors

end Fields

end L4Ide.NearestInteger
