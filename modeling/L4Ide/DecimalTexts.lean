import Mathlib.Algebra.Field.Rat
import Mathlib.Algebra.Group.Nat.Defs
import Mathlib.Algebra.GroupWithZero.Nat
import Mathlib.Data.Char
import Mathlib.Data.List.TakeWhile
import Mathlib.Tactic.FieldSimp
import Mathlib.Tactic.Ring

set_option autoImplicit false

/-!
# Decimal texts

Whole numbers with their thousands grouped by commas, numbers in scientific form
written out in full, and what such a text is read as.
-/
namespace L4Ide.DecimalTexts

def chunksOfThree {α:Type} : List α → List (List α)
 | a::b::c::rest=>[a,b,c]::chunksOfThree rest
 | []=>[]
 | l=>[l]

def showInt (n:ℤ) : List Char :=
 if n < 0 then '-' :: Nat.toDigits 10 n.natAbs else Nat.toDigits 10 n.natAbs

def groupInt (n:ℤ) : List Char :=
 let ds:=Nat.toDigits 10 n.natAbs
 let grouped:=(List.intercalate [','] (chunksOfThree ds.reverse)).reverse
 if n < 0 then '-' :: grouped else grouped

structure Scientific where
 coefficient : ℤ
 base10Exponent : ℤ
 deriving DecidableEq, Repr

def Scientific.toRational (s:Scientific) : ℚ :=
 if 0 ≤ s.base10Exponent then (s.coefficient : ℚ)*10 ^ s.base10Exponent.toNat
 else (s.coefficient : ℚ) / 10 ^ (-s.base10Exponent).toNat

def lastDigits : ℕ → ℕ → List Char
 | 0, _=>[]
 | k+1, n=>lastDigits k (n / 10) ++ [Nat.digitChar (n % 10)]

def Scientific.magnitude (s:Scientific) : List Char :=
 let n:=s.coefficient.natAbs
 if 0 ≤ s.base10Exponent then Nat.toDigits 10 (n*10 ^ s.base10Exponent.toNat) ++ ['.','0']
 else
  let k:=(-s.base10Exponent).toNat
  Nat.toDigits 10 (n / 10 ^ k) ++ '.' :: lastDigits k n

/-- `formatScientific Fixed Nothing`. -/
def formatScientific (s:Scientific) : List Char :=
 if s.coefficient < 0 then '-' :: s.magnitude else s.magnitude

def readUnsigned (cs:List Char) : Option ℚ :=
 let whole:=cs.takeWhile Char.isDigit
 match cs.dropWhile Char.isDigit with
 | []=>if whole=[] then none else some ((Nat.ofDigitChars 10 whole 0 : ℕ) : ℚ)
 | c::frac=>
  if c = '.' ∧ whole ≠ [] ∧ frac ≠ [] ∧ frac.all Char.isDigit then
   some (((Nat.ofDigitChars 10 (whole ++ frac) 0 : ℕ) : ℚ) / 10 ^ frac.length)
  else none

def readNumber (cs:List Char) : Option ℚ :=
 match cs.filter (· ≠ ',') with
 | []=>none
 | c::rest=>if c = '-' then (readUnsigned rest).map (- ·) else readUnsigned (c::rest)

theorem isDigit_toDigits {n:ℕ} {c:Char} (hc:c ∈ Nat.toDigits 10 n) : c.isDigit=true :=
 Nat.isDigit_of_mem_toDigits (by decide) (by decide) hc

theorem isDigit_lastDigits (k n:ℕ) : ∀ c ∈ lastDigits k n, c.isDigit=true := by
 induction k generalizing n with
 | zero=>simp [lastDigits]
 | succ k ih=>
  intro c hc
  rcases List.mem_append.1 hc with hc | hc
  · exact ih _ c hc
  · rw [List.mem_singleton.1 hc,Nat.isDigit_digitChar]
    exact decide_eq_true (Nat.mod_lt n (by decide))

theorem length_lastDigits (k n:ℕ) : (lastDigits k n).length=k := by
 induction k generalizing n with
 | zero=>rfl
 | succ k ih=>simp [lastDigits,ih]

theorem ofDigitChars_lastDigits (k n:ℕ) :
  Nat.ofDigitChars 10 (lastDigits k n) (n / 10 ^ k)=n := by
 induction k generalizing n with
 | zero=>simp [lastDigits]
 | succ k ih=>
  have hdiv:n / 10 ^ (k+1)=n / 10 / 10 ^ k:=by
   rw [Nat.div_div_eq_div_mul,pow_succ,mul_comm]
  rw [lastDigits,Nat.ofDigitChars_append,hdiv,ih (n / 10),
   Nat.ofDigitChars_cons_digitChar_of_lt_ten (Nat.mod_lt n (by decide)),Nat.ofDigitChars_nil,
   Nat.div_add_mod]

variable {ds cs:List Char} {q:ℚ}

theorem readUnsigned_digits (hne:ds ≠ []) (hds:∀ c ∈ ds, c.isDigit=true) :
  readUnsigned ds=some ((Nat.ofDigitChars 10 ds 0 : ℕ) : ℚ) := by
 have htake:ds.takeWhile Char.isDigit=ds:=by
  have h:(ds ++ []).takeWhile Char.isDigit=ds ++ List.takeWhile Char.isDigit []:=
   List.takeWhile_append_of_pos hds
  simpa using h
 have hdrop:ds.dropWhile Char.isDigit=[]:=by
  have h:(ds ++ []).dropWhile Char.isDigit=List.dropWhile Char.isDigit []:=
   List.dropWhile_append_of_pos hds
  simpa using h
 simp only [readUnsigned,htake,hdrop,if_neg hne]

theorem readUnsigned_point {fs:List Char} (hne:ds ≠ []) (hds:∀ c ∈ ds, c.isDigit=true)
  (hfne:fs ≠ []) (hfs:∀ c ∈ fs, c.isDigit=true) :
  readUnsigned (ds ++ '.' :: fs) =
   some (((Nat.ofDigitChars 10 (ds ++ fs) 0 : ℕ) : ℚ) / 10 ^ fs.length) := by
 have hpoint:('.' : Char).isDigit=false:=by decide
 have htake:(ds ++ '.' :: fs).takeWhile Char.isDigit=ds:=by
  rw [List.takeWhile_append_of_pos hds,List.takeWhile_cons_of_neg (by simp [hpoint]),
   List.append_nil]
 have hdrop:(ds ++ '.' :: fs).dropWhile Char.isDigit = '.' :: fs:=by
  rw [List.dropWhile_append_of_pos hds,List.dropWhile_cons_of_neg (by simp [hpoint])]
 simp only [readUnsigned,htake,hdrop]
 exact if_pos ⟨trivial,hne,hfne,List.all_eq_true.2 hfs⟩

theorem readNumber_signed {t:List Char} (negative:Prop) [Decidable negative]
  (ht:t.filter (· ≠ ',')=ds) (hhead:ds.head? ≠ some '-')
  (hread:readUnsigned ds=some q) :
  readNumber (if negative then '-' :: t else t)=some (if negative then -q else q) := by
 by_cases hn:negative
 · have hfilter:('-' :: t).filter (· ≠ ',') = '-' :: ds:=by
    rw [List.filter_cons_of_pos (by decide),ht]
   simp only [if_pos hn,readNumber,hfilter,if_true,hread,Option.map_some]
 · simp only [if_neg hn,readNumber,ht]
   cases ds with
   | nil=>simp [readUnsigned] at hread
   | cons c rest=>
    have hc:c ≠ '-' :=fun h=>hhead (by rw [h]; rfl)
    simp only [if_neg hc,hread]

theorem no_comma (hds:∀ c ∈ ds, c.isDigit=true) :
  ds.filter (· ≠ ',')=ds := by
 refine List.filter_eq_self.2 fun c hc=>?_
 have hdigit:=hds c hc
 simp only [decide_eq_true_eq]
 rintro rfl
 exact absurd hdigit (by decide)

theorem head_digit (hds:∀ c ∈ ds, c.isDigit=true) :
  ds.head? ≠ some '-' := by
 intro h
 exact absurd (hds '-' (List.mem_of_head? h)) (by decide)

theorem filter_grouped (hds:∀ c ∈ ds, c.isDigit=true) :
  (List.intercalate [','] (chunksOfThree ds)).filter (· ≠ ',')=ds := by
 induction ds using chunksOfThree.induct with
 | case1 a b c rest ih=>
  have hrest:∀ x ∈ rest, x.isDigit=true:=fun x hx=>hds x (by simp [hx])
  have hfirst:[a,b,c].filter (· ≠ ',')=[a,b,c]:=
   no_comma fun x hx=>hds x (by simp at hx ⊢; tauto)
  have ih:=ih hrest
  rw [chunksOfThree]
  cases hchunks:chunksOfThree rest with
  | nil=>
   rw [hchunks] at ih
   have hnil:rest=[]:=by simpa using ih.symm
   rw [hnil]
   simpa using hfirst
  | cons d ds=>
   rw [hchunks] at ih
   rw [List.intercalate_cons_cons,List.filter_append,List.filter_append,ih,hfirst]
   rfl
 | case2=>rfl
 | case3 l h h' =>
  cases l with
  | nil=>rfl
  | cons a l=>
   cases l with
   | nil=>simpa [chunksOfThree] using no_comma hds
   | cons b l=>
    cases l with
    | nil=>simpa [chunksOfThree] using no_comma hds
    | cons c rest=>exact absurd rfl (h a b c rest)

theorem natAbs_signed (n:ℤ) :
  (if n < 0 then -((n.natAbs : ℕ) : ℚ) else ((n.natAbs : ℕ) : ℚ))=n := by
 have habs:((n.natAbs : ℕ) : ℤ) = |n|:=Int.natCast_natAbs n
 have hcast:((n.natAbs : ℕ) : ℚ)=((|n| : ℤ) : ℚ):=by rw [←habs]; simp
 by_cases hn:n < 0
 · rw [if_pos hn,hcast,abs_of_neg hn]
   simp
 · rw [if_neg hn,hcast,abs_of_nonneg (not_lt.1 hn)]

theorem readNumber_showInt (n:ℤ) : readNumber (showInt n)=some (n:ℚ) := by
 have hds:∀ c ∈ Nat.toDigits 10 n.natAbs, c.isDigit=true:=fun c hc=>isDigit_toDigits hc
 rw [showInt,readNumber_signed (n < 0) (no_comma hds) (head_digit hds)
  (readUnsigned_digits Nat.toDigits_ne_nil hds),Nat.ofDigitChars_ten_toDigits,natAbs_signed]

theorem readNumber_groupInt (n:ℤ) : readNumber (groupInt n)=some (n:ℚ) := by
 have hds:∀ c ∈ Nat.toDigits 10 n.natAbs, c.isDigit=true:=fun c hc=>isDigit_toDigits hc
 have hgrouped:(List.intercalate [','] (chunksOfThree
   (Nat.toDigits 10 n.natAbs).reverse)).reverse.filter (· ≠ ',') =
   Nat.toDigits 10 n.natAbs := by
  rw [List.filter_reverse,filter_grouped fun c hc=>hds c (List.mem_reverse.1 hc),
   List.reverse_reverse]
 rw [groupInt,readNumber_signed (n < 0) hgrouped (head_digit hds)
  (readUnsigned_digits Nat.toDigits_ne_nil hds),Nat.ofDigitChars_ten_toDigits,natAbs_signed]

theorem readUnsigned_magnitude (s:Scientific) :
  readUnsigned s.magnitude =
   some (if 0 ≤ s.base10Exponent then
     ((s.coefficient.natAbs : ℕ) : ℚ)*10 ^ s.base10Exponent.toNat
    else ((s.coefficient.natAbs : ℕ) : ℚ) / 10 ^ (-s.base10Exponent).toNat) := by
 by_cases he:0 ≤ s.base10Exponent
 · have hzero:Nat.ofDigitChars 10 ['0'] (s.coefficient.natAbs*10 ^ s.base10Exponent.toNat) =
     10*(s.coefficient.natAbs*10 ^ s.base10Exponent.toNat) := rfl
   have hdigit:∀ c ∈ ['0'], c.isDigit=true:=List.forall_mem_singleton.2 (by decide)
   simp only [Scientific.magnitude,if_pos he]
   rw [readUnsigned_point Nat.toDigits_ne_nil (fun c hc=>isDigit_toDigits hc)
    (List.cons_ne_nil _ _) hdigit,Nat.ofDigitChars_append,Nat.ofDigitChars_ten_toDigits,hzero]
   push_cast
   simp only [List.length_singleton,pow_one]
   exact congrArg some (mul_div_cancel_left₀ _ (by norm_num))
 · have hlast:=ofDigitChars_lastDigits (-s.base10Exponent).toNat s.coefficient.natAbs
   have hne:lastDigits (-s.base10Exponent).toNat s.coefficient.natAbs ≠ []:=by
    intro h
    have:=length_lastDigits (-s.base10Exponent).toNat s.coefficient.natAbs
    rw [h,List.length_nil] at this
    omega
   simp only [Scientific.magnitude,if_neg he]
   rw [readUnsigned_point Nat.toDigits_ne_nil (fun c hc=>isDigit_toDigits hc) hne
    (isDigit_lastDigits _ _),Nat.ofDigitChars_append,Nat.ofDigitChars_ten_toDigits,hlast,
    length_lastDigits]

theorem magnitude_digits (s:Scientific) :
  ∀ c ∈ s.magnitude, c.isDigit=true ∨ c = '.' := by
 intro c hc
 rw [Scientific.magnitude] at hc
 split at hc
 · rcases List.mem_append.1 hc with hc | hc
   · exact .inl (isDigit_toDigits hc)
   · rcases List.mem_cons.1 hc with hc | hc
     · exact .inr hc
     · exact .inl (by rw [List.mem_singleton.1 hc]; decide)
 · rcases List.mem_append.1 hc with hc | hc
   · exact .inl (isDigit_toDigits hc)
   · rcases List.mem_cons.1 hc with hc | hc
     · exact .inr hc
     · exact .inl (isDigit_lastDigits _ _ c hc)

theorem readNumber_formatScientific (s:Scientific) :
  readNumber (formatScientific s)=some s.toRational := by
 have hcomma:s.magnitude.filter (· ≠ ',')=s.magnitude:=by
  refine List.filter_eq_self.2 fun c hc=>?_
  simp only [decide_eq_true_eq]
  rintro rfl
  exact absurd (magnitude_digits s _ hc) (by decide)
 have hhead:s.magnitude.head? ≠ some '-' :=by
  intro h
  exact absurd (magnitude_digits s '-' (List.mem_of_head? h)) (by decide)
 rw [formatScientific,
  readNumber_signed (s.coefficient < 0) hcomma hhead (readUnsigned_magnitude s)]
 refine congrArg some ?_
 have habs:=natAbs_signed s.coefficient
 by_cases hneg:s.coefficient < 0
 · rw [if_pos hneg] at habs ⊢
   rw [Scientific.toRational,←habs]
   split <;> ring
 · rw [if_neg hneg] at habs ⊢
   rw [Scientific.toRational,←habs]

theorem readUnsigned_chars (h:readUnsigned cs=some q) :
  ∀ c ∈ cs, c.isDigit=true ∨ c = '.' := by
 intro c hc
 rw [readUnsigned] at h
 have happend:cs.takeWhile Char.isDigit ++ cs.dropWhile Char.isDigit=cs:=
  List.takeWhile_append_dropWhile
 rw [←happend] at hc
 rcases List.mem_append.1 hc with hc | hc
 · exact .inl (List.mem_takeWhile_imp hc)
 · cases hdrop:cs.dropWhile Char.isDigit with
   | nil=>simp [hdrop] at hc
   | cons d frac=>
    simp only [hdrop] at h hc
    split at h
    · rename_i hd
      rcases List.mem_cons.1 hc with rfl | hc
      · exact .inr hd.1
      · exact .inl (List.all_eq_true.1 hd.2.2.2 c hc)
    · cases h

theorem readNumber_chars (h:readNumber cs=some q) :
  ∀ c ∈ cs, c.isDigit=true ∨ c = '.' ∨ c = ',' ∨ c = '-' := by
 intro c hc
 by_cases hcomma:c = ','
 · exact .inr (.inr (.inl hcomma))
 have hmem:c ∈ cs.filter (· ≠ ','):=List.mem_filter.2 ⟨hc,by simpa using hcomma⟩
 rw [readNumber] at h
 have hunsigned:∀ {ds:List Char} {x:ℚ}, readUnsigned ds=some x → c ∈ ds →
   c.isDigit=true ∨ c = '.' ∨ c = ',' ∨ c = '-' := fun hd hcd=>
  (readUnsigned_chars hd c hcd).imp_right .inl
 cases hfilter:cs.filter (· ≠ ',') with
 | nil=>
  rw [hfilter] at hmem
  cases hmem
 | cons d rest=>
  rw [hfilter] at hmem
  simp only [hfilter] at h
  split at h
  · rename_i hd
    rcases List.mem_cons.1 hmem with rfl | hmem
    · exact .inr (.inr (.inr hd))
    · obtain ⟨x,hx,-⟩:=Option.map_eq_some_iff.1 h
      exact hunsigned hx hmem
  · exact hunsigned h hmem

end L4Ide.DecimalTexts
