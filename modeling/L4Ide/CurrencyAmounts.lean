import L4Ide.DecimalTexts
import Mathlib.Data.Rat.Floor

set_option autoImplicit false

/-!
# Currency amounts

What the currency library writes for a number of minor units. Numbers that are not whole are
printed through doubles, by a parameter.
-/
namespace L4Ide.CurrencyAmounts
open DecimalTexts

abbrev Text := List Char

def currencies : List (Text×ℕ) :=
 [("USD".toList,2),("EUR".toList,2),("GBP".toList,2),("JPY".toList,0),("CHF".toList,2),
  ("CAD".toList,2),("AUD".toList,2),("CNY".toList,2),("HKD".toList,2),("SGD".toList,2),
  ("INR".toList,2),("BRL".toList,2),("MXN".toList,2),("SEK".toList,2),("NZD".toList,2),
  ("KRW".toList,0)]

def decimalPlacesForCurrency (currencyCode:Text) : Text⊕ℚ :=
 match currencies.lookup currencyCode with
 | some decimals=>.inr decimals
 | none=>.inl ("Unknown currency code: ".toList++currencyCode)

def powerOf10 (exponent:ℚ) : ℚ :=
 if exponent=0 then 1 else if exponent=1 then 10 else if exponent=2 then 100
 else if exponent=3 then 1000 else 100

section
variable (formatDouble:ℚ → Text)

def numberToString (n:ℚ) : Text := if n.den=1 then showInt n.num else formatDouble n

/-- Whole numbers only, and no division by zero. -/
def modulo (a b:ℚ) : Option ℚ :=
 if a.den=1 ∧ b.den=1 ∧ b≠0 then some (a.num.fmod b.num) else none

def padLeft : ℕ → Text → ℚ → Text → Option Text
 | 0, _, _, _=>none
 | fuel+1, str, targetLen, padChar=>
  if targetLen ≤ str.length then some str else padLeft fuel (padChar++str) targetLen padChar

def formatNumber (fuel:ℕ) (units decs:ℚ) : Option Text := do
 if decs=0 then return numberToString formatDouble units
 let divisor:=powerOf10 decs
 let majorUnits:ℚ:=⌊units/divisor⌋
 let minorPart ← modulo units divisor
 let paddedMinor ← padLeft fuel (numberToString formatDouble minorPart) decs ['0']
 return numberToString formatDouble majorUnits ++ ['.'] ++ paddedMinor

def money (fuel:ℕ) (minorUnits:ℚ) (currencyCode:Text) : Option (Text⊕Text) :=
 match decimalPlacesForCurrency currencyCode with
 | .inl err=>some (.inl err)
 | .inr decimals=>
  if minorUnits≠⌊minorUnits⌋ then some (.inl "Minor units must be an integer".toList)
  else (formatNumber formatDouble fuel minorUnits decimals).map fun number=>
   .inr (number++[' ']++currencyCode)
end

def majorToMinorUnits (majorUnits:ℚ) (currencyCode:Text) : Text⊕ℚ :=
 match decimalPlacesForCurrency currencyCode with
 | .inl err=>.inl err
 | .inr decimals=>.inr ⌊majorUnits*powerOf10 decimals⌋

def minorToMajorUnits (minorUnits:ℚ) (currencyCode:Text) : Text⊕ℚ :=
 match decimalPlacesForCurrency currencyCode with
 | .inl err=>.inl err
 | .inr decimals=>.inr (minorUnits/powerOf10 decimals)

/-- The numeral has so many digits after its point, and its value is the amount. -/
def Written (numeral:Text) (u:ℤ) (d:ℕ) : Prop :=
 ∃ digits,numeral=(if u<0 then '-'::digits else digits) ∧
  readUnsigned digits=some (|(u:ℚ)|/10 ^ d) ∧
  (digits.dropWhile (· ≠ '.')).length=if d=0 then 0 else d+1

variable {formatDouble:ℚ → Text} {code:Text} {d:ℕ}

theorem decimals_cases (h:decimalPlacesForCurrency code=.inr d) : d=0 ∨ d=2 := by
 have hall:∀ p ∈ currencies,p.2=0 ∨ p.2=2:=by simp [currencies]
 rw [decimalPlacesForCurrency] at h
 cases hlook:currencies.lookup code with
 | none=>rw [hlook] at h;cases h
 | some n=>
  rw [hlook] at h
  obtain rfl:n=d:=by exact_mod_cast Sum.inr.inj h
  obtain ⟨l1,l2,heq,-⟩:=List.lookup_eq_some_iff.mp hlook
  exact hall (code,n) (by rw [heq];simp)

theorem lastDigits_two (n:ℕ) : lastDigits 2 n=[Nat.digitChar (n/10 % 10),Nat.digitChar (n % 10)] := rfl

theorem padLeft_two {fuel m:ℕ} (hm:m<100) :
    padLeft (fuel+2) (Nat.toDigits 10 m) 2 ['0']=some (lastDigits 2 m) := by
 rw [lastDigits_two]
 by_cases h:m<10
 · rw [Nat.toDigits_of_lt_base h,padLeft,if_neg (by norm_num),padLeft,if_pos (by norm_num),
    Nat.div_eq_of_lt h,Nat.mod_eq_of_lt h]
   rfl
 · rw [Nat.toDigits_of_base_le (by decide) (by omega),
    Nat.toDigits_of_lt_base (show m/10<10 by omega),padLeft,if_pos (by norm_num),
    Nat.mod_eq_of_lt (show m/10<10 by omega)]
   rfl

theorem numberToString_int (n:ℤ) : numberToString formatDouble n=showInt n := by
 rw [numberToString,if_pos (Rat.den_intCast n),Rat.num_intCast]

theorem formatNumber_zero (fuel:ℕ) (u:ℤ) : formatNumber formatDouble fuel u 0=some (showInt u) := by
 rw [formatNumber,if_pos rfl,numberToString_int]
 rfl

theorem formatNumber_two (fuel:ℕ) (u:ℤ) : formatNumber formatDouble (fuel+2) u 2=
    some (showInt (u/100) ++ '.'::lastDigits 2 (u % 100).toNat) := by
 have hfloor:⌊(u:ℚ)/100⌋=u/100:=by exact_mod_cast Rat.floor_intCast_div_natCast u 100
 have hmod:modulo u 100=some ((u % 100:ℤ):ℚ):=by
  rw [modulo,if_pos ⟨Rat.den_intCast u,by decide,by norm_num⟩]
  exact congrArg some (by exact_mod_cast Int.fmod_eq_emod_of_nonneg u (by decide))
 have hm:(u % 100).toNat<100:=by omega
 have hminor:showInt (u % 100)=Nat.toDigits 10 (u % 100).toNat:=by
  rw [showInt,if_neg (by omega)]
  congr 1
  omega
 have hpow:powerOf10 2=100:=by norm_num [powerOf10]
 simp only [formatNumber,hpow,hfloor,hmod,numberToString_int,hminor,Option.bind_eq_bind,
  Option.bind_some,padLeft_two hm]
 norm_num

theorem not_point {c:Char} (hc:c.isDigit=true) : decide (c ≠ '.')=true := by
 rw [decide_eq_true_eq]
 rintro rfl
 exact absurd hc (by decide)

theorem drop_point {ds fs:Text} (hds:∀ c ∈ ds,c.isDigit=true) :
    ((ds ++ '.'::fs).dropWhile (· ≠ '.')).length=fs.length+1 := by
 rw [List.dropWhile_append_of_pos fun c hc=>not_point (hds c hc)]
 simp

theorem money_int {fuel:ℕ} {u:ℤ} {number:Text} (hd:decimalPlacesForCurrency code=.inr d)
    (h:formatNumber formatDouble fuel u d=some number) :
    money formatDouble fuel u code=some (.inr (number++[' ']++code)) := by
 simp only [money,hd,Int.floor_intCast,ne_eq,not_true_eq_false,if_false,h,Option.map_some]

theorem written_zero (u:ℤ) : Written (showInt u) u 0 := by
 have hds:∀ c ∈ Nat.toDigits 10 u.natAbs,c.isDigit=true:=fun c hc=>isDigit_toDigits hc
 refine ⟨Nat.toDigits 10 u.natAbs,rfl,?_,?_⟩
 · rw [readUnsigned_digits Nat.toDigits_ne_nil hds,Nat.ofDigitChars_ten_toDigits,pow_zero,div_one,
    Nat.cast_natAbs,Int.cast_abs]
 · rw [List.dropWhile_eq_nil_iff.mpr fun c hc=>not_point (hds c hc)]
   rfl

theorem reads_two (k m:ℕ) (hm:m<100) :
    readUnsigned (Nat.toDigits 10 k ++ '.'::lastDigits 2 m)=some (((100*k+m:ℕ):ℚ)/10 ^ 2) := by
 have hlast:lastDigits 2 m=lastDigits 2 (100*k+m):=by
  rw [lastDigits_two,lastDigits_two,show (100*k+m)/10 % 10=m/10 % 10 by omega,
   show (100*k+m) % 10=m % 10 by omega]
 rw [readUnsigned_point Nat.toDigits_ne_nil (fun c hc=>isDigit_toDigits hc) (by simp [lastDigits])
  (isDigit_lastDigits 2 m),length_lastDigits,Nat.ofDigitChars_append,Nat.ofDigitChars_ten_toDigits,
  hlast]
 have:=ofDigitChars_lastDigits 2 (100*k+m)
 rw [show (100*k+m)/10 ^ 2=k by omega] at this
 rw [this]

/-- The whole part is rounded down, so the cents of a negative amount count the wrong way. -/
theorem written_two (u:ℤ) :
    Written (showInt (u/100) ++ '.'::lastDigits 2 (u % 100).toNat) u 2 ↔ 0 ≤ u ∨ u % 100=0 := by
 have hds:∀ c ∈ Nat.toDigits 10 (u/100).natAbs,c.isDigit=true:=fun c hc=>isDigit_toDigits hc
 have hm:(u % 100).toNat<100:=by omega
 have hread:=reads_two (u/100).natAbs (u % 100).toNat hm
 have habs:(|(u:ℚ)|)=((u.natAbs:ℕ):ℚ):=by rw [Nat.cast_natAbs,Int.cast_abs]
 have hvalue:readUnsigned (Nat.toDigits 10 (u/100).natAbs ++ '.'::lastDigits 2 (u % 100).toNat)=
   some (|(u:ℚ)|/10 ^ 2) ↔ 100*(u/100).natAbs+(u % 100).toNat=u.natAbs:=by
  rw [hread,habs,Option.some.injEq,div_left_inj' (by norm_num)]
  exact Nat.cast_inj
 have hlength:=@drop_point _ (lastDigits 2 (u % 100).toNat) hds
 by_cases hu:u<0
 · rw [showInt,if_pos (by omega),List.cons_append]
   constructor
   · rintro ⟨digits,heq,hd,-⟩
     rw [if_pos hu] at heq
     obtain rfl:=List.tail_eq_of_cons_eq heq
     have:=hvalue.mp hd
     omega
   · intro h
     exact ⟨_,(if_pos hu).symm,hvalue.mpr (by omega),hlength⟩
 · rw [showInt,if_neg (by omega)]
   exact ⟨fun _=>.inl (by omega),fun _=>⟨_,(if_neg hu).symm,hvalue.mpr (by omega),hlength⟩⟩

theorem money_written {number:Text} {u:ℤ} {fuel:ℕ} (hd:decimalPlacesForCurrency code=.inr d)
    (h:formatNumber formatDouble fuel u d=some number) :
    (∃ numeral,money formatDouble fuel u code=some (.inr (numeral++[' ']++code)) ∧
     Written numeral u d) ↔ Written number u d := by
 rw [money_int hd h]
 refine ⟨fun ⟨numeral,heq,hw⟩=>?_,fun hw=>⟨number,rfl,hw⟩⟩
 have heq:=Sum.inr.inj (Option.some.inj heq)
 rwa [List.append_cancel_right (List.append_cancel_right heq)]

theorem amounts_written (formatDouble:ℚ → Text) :
    (∀ (u:ℤ) (code:Text) (d fuel:ℕ),decimalPlacesForCurrency code=.inr d →
     ((∃ numeral,money formatDouble (fuel+2) u code=some (.inr (numeral++[' ']++code)) ∧
       Written numeral u d) ↔ 0 ≤ u ∨ d=0 ∨ u % 10 ^ d=0)) ∧
    (∀ (x:ℚ) (code:Text) (fuel:ℕ),x.den≠1 →
     ∃ err,money formatDouble fuel x code=some (.inl err)) ∧
    ∀ (u:ℤ) (code:Text) (d:ℕ),decimalPlacesForCurrency code=.inr d →
     ∃ major,minorToMajorUnits u code=.inr major ∧ majorToMinorUnits major code=.inr u := by
 refine ⟨fun u code d fuel hd=>?_,fun x code fuel hx=>?_,fun u code d hd=>?_⟩
 · rcases decimals_cases hd with rfl | rfl
   · exact (money_written hd (by exact_mod_cast formatNumber_zero (fuel+2) u)).trans
      (iff_of_true (written_zero u) (.inr (.inl rfl)))
   · rw [money_written hd (by exact_mod_cast formatNumber_two fuel u),written_two]
     norm_num
 · rw [money]
   split
   · exact ⟨_,rfl⟩
   · rw [if_pos fun heq=>hx (by rw [heq];exact Rat.den_intCast _)]
     exact ⟨_,rfl⟩
 · have hne:powerOf10 d≠0:=by rcases decimals_cases hd with rfl | rfl <;> norm_num [powerOf10]
   refine ⟨u/powerOf10 d,by rw [minorToMajorUnits,hd],?_⟩
   rw [majorToMinorUnits,hd]
   simp only [div_mul_cancel₀ _ hne,Int.floor_intCast]

/-- Half a dollar owed is written as one and a half. -/
theorem half_dollar_owed : ¬∃ numeral,
    money (fun _=>[]) 2 (-50) "USD".toList=some (.inr (numeral++[' ']++"USD".toList)) ∧
    Written numeral (-50) 2 := by
 have h:=(@money_written (fun _=>[]) "USD".toList 2 _ (-50) 2 rfl
  (by exact_mod_cast formatNumber_two 0 (-50))).not.mpr
  ((written_two (-50)).not.mpr (by decide))
 exact_mod_cast h
end L4Ide.CurrencyAmounts
