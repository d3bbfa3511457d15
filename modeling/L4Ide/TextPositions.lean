import Mathlib.Data.Int.Notation
import Mathlib.Data.List.GetD

set_option autoImplicit false

/-!
# Text positions

Offsets in a text of UTF-16 units, and lines and characters.
-/
namespace L4Ide.TextPositions

abbrev Text := List UInt16

structure LspPosition where
 line : ℤ
 character : ℤ
 deriving DecidableEq

/-- The starts of the lines after a given one, a line feed being skipped with its return. -/
def startsFrom : ℕ → Text → List ℕ
 | _, []=>[]
 | i, [c]=>if c=13 ∨ c=10 then [i+1] else []
 | i, c::d::cs=>
  if c=13 then if d=10 then (i+2)::startsFrom (i+2) cs else (i+1)::startsFrom (i+1) (d::cs)
  else if c=10 then (i+1)::startsFrom (i+1) (d::cs)
  else startsFrom (i+1) (d::cs)

def lineStarts (text:Text) : List ℕ := 0::startsFrom 0 text

def lineEnd (text:Text) (starts:List ℕ) (line:ℕ) : ℕ :=
 match starts[line+1]? with
 | none=>text.length
 | some next=>
  let stop:=if 0<next ∧ text[next-1]?=some 10 then next-1 else next
  if 0<stop ∧ text[stop-1]?=some 13 then stop-1 else stop

def bisect (starts:List ℕ) (clamped lo hi:ℕ) : ℕ :=
 if lo<hi then
  let mid:=(lo+hi+1)/2
  if starts.getD mid 0 ≤ clamped then bisect starts clamped mid hi
  else bisect starts clamped lo (mid-1)
 else lo
 termination_by hi-lo

def positionAt (text:Text) (offset:ℤ) : LspPosition :=
 let clamped:=(max 0 (min offset text.length)).toNat
 let starts:=lineStarts text
 let lo:=bisect starts clamped 0 (starts.length-1)
 ⟨lo,(min clamped (lineEnd text starts lo):ℕ)-(starts.getD lo 0:ℕ)⟩

def offsetAt (text:Text) (position:LspPosition) : ℤ :=
 let starts:=lineStarts text
 if position.line<0 then 0
 else if position.line ≥ starts.length then text.length
 else
  let lineStart:=starts.getD position.line.toNat 0
  min (lineStart+max 0 position.character) (lineEnd text starts position.line.toNat)

/-- A line ends with this unit: a line feed, or a return that no line feed follows. -/
def Ends (text:Text) (i:ℕ) : Prop :=
 text[i]?=some 10 ∨ text[i]?=some 13 ∧ text[i+1]?≠some 10

theorem exists_ends (i k:ℕ) (c:UInt16) (cs:Text) : (∃ j,i=k+j+1 ∧ Ends (c::cs) j) ↔
    i=k+1 ∧ Ends (c::cs) 0 ∨ ∃ j,i=k+1+j+1 ∧ Ends cs j := by
 constructor
 · rintro ⟨j,hi,hj⟩
   cases j with
   | zero=>exact .inl ⟨hi,hj⟩
   | succ j=>exact .inr ⟨j,by omega,hj⟩
 · rintro (⟨hi,h⟩ | ⟨j,hi,hj⟩)
   · exact ⟨0,hi,h⟩
   · exact ⟨j+1,by omega,hj⟩

theorem mem_startsFrom (i k:ℕ) (cs:Text) : i ∈ startsFrom k cs ↔ ∃ j,i=k+j+1 ∧ Ends cs j := by
 fun_induction startsFrom k cs with
 | case1 k=>simp [Ends]
 | case2 k c hc=>
  rw [exists_ends]
  rcases hc with rfl | rfl <;> simp [Ends]
 | case3 k c hc=>
  rw [exists_ends]
  simp only [not_or] at hc
  simp [Ends,hc]
 | case4 k cs ih=>
  rw [List.mem_cons,propext ih,exists_ends i k,exists_ends i (k+1)]
  simp [Ends]
 | case5 k d cs hd ih=>
  rw [List.mem_cons,propext ih,exists_ends i k]
  simp [Ends,hd]
 | case6 k d cs _ ih=>
  rw [List.mem_cons,propext ih,exists_ends i k]
  simp [Ends]
 | case7 k c d cs h13 h10 ih=>
  rw [propext ih,exists_ends i k]
  simp [Ends,h13,h10]

theorem mem_lineStarts {i:ℕ} {text:Text} :
    i ∈ lineStarts text ↔ i=0 ∨ ∃ j,i=j+1 ∧ Ends text j := by
 simp only [lineStarts,List.mem_cons,mem_startsFrom,Nat.zero_add]

theorem pairwise_startsFrom (k:ℕ) (cs:Text) : (startsFrom k cs).Pairwise (· < ·) := by
 have hcons:∀ k cs,(startsFrom k cs).Pairwise (· < ·) → (k::startsFrom k cs).Pairwise (· < ·):=
  fun k cs h=>List.pairwise_cons.mpr ⟨fun i hi=>by
   obtain ⟨j,rfl,-⟩:=(mem_startsFrom i k cs).mp hi
   omega,h⟩
 fun_induction startsFrom k cs with
 | case1=>exact .nil
 | case2=>exact List.pairwise_singleton _ _
 | case3=>exact .nil
 | case4 k cs ih=>exact hcons _ _ ih
 | case5 k d cs _ ih=>exact hcons _ _ ih
 | case6 k d cs _ ih=>exact hcons _ _ ih
 | case7 k c d cs _ _ ih=>exact ih

theorem start_lt {text:Text} {a b:ℕ} (hab:a<b) (hb:b<(lineStarts text).length) :
    (lineStarts text).getD a 0<(lineStarts text).getD b 0 := by
 have hsorted:(lineStarts text).Pairwise (· < ·):=List.pairwise_cons.mpr ⟨fun i hi=>by
  obtain ⟨j,rfl,-⟩:=(mem_startsFrom i 0 text).mp hi
  omega,pairwise_startsFrom 0 text⟩
 rw [List.getD_eq_getElem _ 0 (Nat.lt_trans hab hb),List.getD_eq_getElem _ 0 hb]
 exact List.pairwise_iff_getElem.mp hsorted a b _ hb hab

theorem not_between {text:Text} {k m:ℕ} (hk:k<(lineStarts text).length) (hm:m ∈ lineStarts text)
    (hlo:(lineStarts text).getD k 0 < m) :
    k+1<(lineStarts text).length ∧ (lineStarts text).getD (k+1) 0 ≤ m := by
 obtain ⟨a,ha,rfl⟩:=List.mem_iff_getElem.mp hm
 rw [←List.getD_eq_getElem _ 0 ha] at hlo ⊢
 have hak:k<a:=Nat.lt_of_not_le fun hle=>by
  rcases Nat.lt_or_eq_of_le hle with hlt | rfl
  · exact Nat.lt_asymm hlo (start_lt hlt hk)
  · exact Nat.lt_irrefl _ hlo
 rcases Nat.lt_or_eq_of_le (Nat.succ_le_of_lt hak) with hlt | rfl
 · exact ⟨Nat.lt_trans hlt ha,Nat.le_of_lt (start_lt hlt ha)⟩
 · exact ⟨ha,Nat.le_refl _⟩

theorem bisect_spec (text:Text) (c lo hi:ℕ) (hlo:lo ≤ hi) (hhi:hi<(lineStarts text).length)
    (h1:(lineStarts text).getD lo 0 ≤ c)
    (h2:∀ k,hi<k → k<(lineStarts text).length → c<(lineStarts text).getD k 0) :
    let r:=bisect (lineStarts text) c lo hi
    r<(lineStarts text).length ∧ (lineStarts text).getD r 0 ≤ c ∧
     ∀ k,r<k → k<(lineStarts text).length → c<(lineStarts text).getD k 0 := by
 fun_induction bisect (lineStarts text) c lo hi with
 | case1 lo hi hlt mid hmid ih=>exact ih (by omega) hhi hmid h2
 | case2 lo hi hlt mid hmid ih=>
  refine ih (by omega) (by omega) h1 fun k hk hklen=>?_
  rcases Nat.lt_or_eq_of_le (show mid ≤ k by omega) with hlt | rfl
  · exact Nat.lt_trans (Nat.lt_of_not_le hmid) (start_lt hlt hklen)
  · exact Nat.lt_of_not_le hmid
 | case3 lo hi hge=>
  obtain rfl:lo=hi:=by omega
  exact ⟨hhi,h1,h2⟩

theorem getElem?_start {text:Text} {k:ℕ} (hk:k<(lineStarts text).length) :
    (lineStarts text)[k]?=some ((lineStarts text).getD k 0) ∧
    (lineStarts text).getD k 0 ∈ lineStarts text := by
 rw [List.getD_eq_getElem _ 0 hk,List.getElem?_eq_getElem hk]
 exact ⟨rfl,List.getElem_mem hk⟩

/-- A line ends with the text, before its terminator of one unit, or before a pair. -/
theorem lineEnd_cases {text:Text} {k s e:ℕ} (hk:k<(lineStarts text).length)
    (hs:s=(lineStarts text).getD k 0) (he:e=lineEnd text (lineStarts text) k) : s ≤ e ∧
    (¬k+1<(lineStarts text).length ∧ e=text.length ∨
     k+1<(lineStarts text).length ∧ (lineStarts text).getD (k+1) 0=e+1 ∧
      (text[e]?=some 10 ∨ text[e]?=some 13) ∧
      ¬(text[e]?=some 10 ∧ 0<e ∧ text[e-1]?=some 13) ∨
     k+1<(lineStarts text).length ∧ (lineStarts text).getD (k+1) 0=e+2 ∧
      text[e]?=some 13 ∧ text[e+1]?=some 10) := by
 have hstart:=mem_lineStarts.mp (hs ▸ (getElem?_start hk).2)
 by_cases hk1:k+1<(lineStarts text).length
 · have hlt:=start_lt (Nat.lt_succ_self k) hk1
   obtain ⟨hnext,hmem⟩:=getElem?_start hk1
   rw [←hs] at hlt
   rw [lineEnd,hnext] at he
   generalize (lineStarts text).getD (k+1) 0=n at *
   rcases mem_lineStarts.mp hmem with rfl | ⟨j,rfl,h10 | ⟨h13,hnot⟩⟩
   · omega
   · by_cases hpair:0<j ∧ text[j-1]?=some 13
     · obtain rfl:e=j-1:=by simpa [h10,hpair] using he
       -- the pair lies within the line, as no line starts between its units
       have hsj:s≠j:=by
        rintro rfl
        rcases hstart with h0 | ⟨i,rfl,h | ⟨-,h⟩⟩
        · omega
        · simp [h] at hpair
        · exact h h10
       rw [show j-1+1=j by omega]
       exact ⟨by omega,.inr (.inr ⟨hk1,by omega,hpair.2,h10⟩)⟩
     · obtain rfl:e=j:=by simpa [h10,hpair] using he
       exact ⟨by omega,.inr (.inl ⟨hk1,rfl,.inl h10,fun h=>hpair h.2⟩)⟩
   · obtain rfl:e=j:=by simpa [h13] using he
     exact ⟨by omega,.inr (.inl ⟨hk1,rfl,.inr h13,fun h=>by simp [h13] at h⟩)⟩
 · rw [lineEnd,List.getElem?_eq_none (Nat.le_of_not_lt hk1)] at he
   refine ⟨?_,.inl ⟨hk1,he⟩⟩
   rcases hstart with rfl | ⟨j,rfl,h | ⟨h,-⟩⟩
   · omega
   all_goals
    have:=(List.getElem?_eq_some_iff.mp h).1
    change e=text.length at he
    omega

theorem lineEnd_le {text:Text} {k e:ℕ} (hk:k<(lineStarts text).length)
    (he:e=lineEnd text (lineStarts text) k) : e ≤ text.length := by
 rcases (lineEnd_cases hk rfl he).2 with ⟨-,h⟩ | ⟨-,-,h | h,-⟩ | ⟨-,-,h,-⟩
 · exact Nat.le_of_eq h
 all_goals exact Nat.le_of_lt (List.getElem?_eq_some_iff.mp h).1

/-- So many units from a start hold no terminator, and the text ends there or one follows. -/
def LineLength (text:Text) (s n:ℕ) : Prop :=
 (∀ i<n,∃ c,text[s+i]?=some c ∧ c≠10 ∧ c≠13) ∧ ∀ c,text[s+n]?=some c → c=10 ∨ c=13

theorem LineLength.unique {text:Text} {s m n:ℕ} (hm:LineLength text s m)
    (hn:LineLength text s n) : m=n := by
 have hle:∀ {m n},LineLength text s m → LineLength text s n → m ≤ n:=fun {m n} hm hn=>
  Nat.le_of_not_lt fun hlt=>by
   obtain ⟨c,hc,h10,h13⟩:=hm.1 n hlt
   exact (hn.2 c hc).elim h10 h13
 exact Nat.le_antisymm (hle hm hn) (hle hn hm)

theorem lineLength_lineEnd {text:Text} {k s e:ℕ} (hk:k<(lineStarts text).length)
    (hs:s=(lineStarts text).getD k 0) (he:e=lineEnd text (lineStarts text) k) :
    LineLength text s (e-s) := by
 obtain ⟨hse,hcases⟩:=lineEnd_cases hk hs he
 have hlen:=lineEnd_le hk he
 have hends:∀ i,s ≤ i → Ends text i →
   k+1<(lineStarts text).length ∧ (lineStarts text).getD (k+1) 0 ≤ i+1:=fun i hi h=>
  not_between hk (mem_lineStarts.mpr (.inr ⟨i,rfl,h⟩)) (by omega)
 refine ⟨fun i hi=>?_,fun c hc=>?_⟩
 · refine ⟨text[s+i],List.getElem?_eq_getElem (by omega),fun h10=>?_,fun h13=>?_⟩
   · have h10:text[s+i]?=some 10:=h10 ▸ List.getElem?_eq_getElem (by omega)
     have:=hends (s+i) (by omega) (.inl h10)
     omega
   · have hunit:text[s+i]?=some 13:=h13 ▸ List.getElem?_eq_getElem (by omega)
     by_cases h10:text[s+i+1]?=some 10
     · have:=hends (s+i+1) (by omega) (.inl h10)
       rcases hcases with ⟨h,-⟩ | ⟨-,hn,-,h⟩ | ⟨-,hn,-⟩
       · omega
       · obtain rfl:e=s+i+1:=by omega
         exact h ⟨h10,Nat.succ_pos _,hunit⟩
       · omega
     · have:=hends (s+i) (by omega) (.inr ⟨hunit,h10⟩)
       omega
 · rw [show s+(e-s)=e by omega] at hc
   rcases hcases with ⟨-,rfl⟩ | ⟨-,-,h | h,-⟩ | ⟨-,-,h,-⟩
   · simp at hc
   all_goals simp_all

instance : LE LspPosition :=
 ⟨fun p q=>p.line<q.line ∨ p.line=q.line ∧ p.character ≤ q.character⟩

/-- The line found is the last one that starts no later than the offset. -/
theorem positionAt_eq (text:Text) (o:ℤ) : ∃ r s e c:ℕ,c=max 0 (min o text.length) ∧
    r<(lineStarts text).length ∧ s=(lineStarts text).getD r 0 ∧
    e=lineEnd text (lineStarts text) r ∧ s ≤ c ∧
    (∀ k,r<k → k<(lineStarts text).length → c<(lineStarts text).getD k 0) ∧
    positionAt text o=⟨r,(min c e:ℕ)-(s:ℕ)⟩ := by
 have hpos:0<(lineStarts text).length:=Nat.succ_pos _
 obtain ⟨hr,hle,hlt⟩:=bisect_spec text (max 0 (min o text.length)).toNat 0
  ((lineStarts text).length-1) (Nat.zero_le _) (by omega) (Nat.zero_le _) fun k hk hk'=>by omega
 exact ⟨_,_,_,_,Int.toNat_of_nonneg (by omega),hr,rfl,rfl,hle,hlt,rfl⟩

theorem offsetAt_line {text:Text} {r:ℕ} (hr:r<(lineStarts text).length) (x:ℤ) :
    offsetAt text ⟨r,x⟩=min (((lineStarts text).getD r 0:ℕ)+max 0 x)
     (lineEnd text (lineStarts text) r:ℕ) := by
 rw [offsetAt,if_neg (show ¬(r:ℤ)<0 by omega),if_neg (show ¬(r:ℤ) ≥ _ by omega)]
 rfl

/-- The offset is between the two units of a pair. -/
def InsidePair (text:Text) (o:ℤ) : Prop :=
 ∃ i:ℕ,o=i+1 ∧ text[i]?=some 13 ∧ text[i+1]?=some 10

theorem offsetAt_positionAt {text:Text} {o:ℤ} (h0:0 ≤ o) (hlen:o ≤ text.length)
    (hpair:¬InsidePair text o) : offsetAt text (positionAt text o)=o := by
 obtain ⟨r,s,e,c,hc,hr,hs,he,hsc,hlater,heq⟩:=positionAt_eq text o
 obtain ⟨hse,hcases⟩:=lineEnd_cases hr hs he
 have hce:c ≤ e:=Nat.le_of_not_lt fun hlt=>by
  rcases hcases with ⟨-,h⟩ | ⟨hr1,hn,-⟩ | ⟨hr1,hn,h13,h10⟩
  · omega
  · have:=hlater (r+1) (Nat.lt_succ_self r) hr1
    omega
  · have:=hlater (r+1) (Nat.lt_succ_self r) hr1
    exact hpair ⟨e,by omega,h13,h10⟩
 rw [heq,offsetAt_line hr,←hs,←he]
 omega

theorem positionAt_offsetAt {text:Text} {r n:ℕ} {x:ℤ} (hr:r<(lineStarts text).length)
    (hn:LineLength text ((lineStarts text).getD r 0) n) (h0:0 ≤ x) (hx:x ≤ n) :
    positionAt text (offsetAt text ⟨r,x⟩)=⟨r,x⟩ := by
 obtain ⟨hse,hcases⟩:=lineEnd_cases hr rfl rfl
 obtain rfl:=hn.unique (lineLength_lineEnd hr rfl rfl)
 have hlen:=lineEnd_le hr rfl
 obtain ⟨r',s',e',c,hc,hr',hs',he',hsc,hlater,heq⟩:=positionAt_eq text (offsetAt text ⟨r,x⟩)
 rw [offsetAt_line hr] at hc
 obtain rfl:r'=r:=by
  rcases Nat.lt_trichotomy r' r with hlt | rfl | hlt
  · have:=hlater r hlt hr
    omega
  · rfl
  · have hr1:r+1<(lineStarts text).length:=by omega
    have hle:(lineStarts text).getD (r+1) 0 ≤ (lineStarts text).getD r' 0:=by
     rcases Nat.lt_or_eq_of_le (Nat.succ_le_of_lt hlt) with hlt' | rfl
     · exact Nat.le_of_lt (start_lt hlt' hr')
     · exact Nat.le_refl _
    rcases hcases with ⟨h,-⟩ | ⟨-,hn,-⟩ | ⟨-,hn,-⟩ <;> omega
 rw [heq,LspPosition.mk.injEq]
 omega

theorem positionAt_mono {text:Text} {o o':ℤ} (h:o ≤ o') : positionAt text o ≤ positionAt text o' := by
 obtain ⟨r,s,e,c,hc,hr,hs,he,hsc,hlater,heq⟩:=positionAt_eq text o
 obtain ⟨r',s',e',c',hc',hr',hs',he',hsc',hlater',heq'⟩:=positionAt_eq text o'
 rw [heq,heq']
 rcases Nat.lt_trichotomy r r' with hlt | rfl | hlt
 · exact .inl (by simpa using hlt)
 · exact .inr ⟨rfl,by change ((min c e:ℕ):ℤ)-s ≤ (min c' e':ℕ)-s';omega⟩
 · have:=hlater' r hlt hr
   omega

theorem offsets_and_positions (text:Text) :
    (∀ o o':ℤ,o ≤ o' → positionAt text o ≤ positionAt text o') ∧
    (∀ o:ℤ,0 ≤ o → o ≤ text.length → ¬InsidePair text o →
     offsetAt text (positionAt text o)=o) ∧
    (∀ i,i ∈ lineStarts text ↔ i=0 ∨ ∃ j,i=j+1 ∧ Ends text j) ∧
    ∀ (p:LspPosition) (s n:ℕ),0 ≤ p.line → (lineStarts text)[p.line.toNat]?=some s →
     LineLength text s n → 0 ≤ p.character → p.character ≤ n →
     positionAt text (offsetAt text p)=p := by
 refine ⟨fun _ _=>positionAt_mono,fun _=>offsetAt_positionAt,fun _=>mem_lineStarts,?_⟩
 rintro ⟨line,character⟩ s n hline hs hn h0 hle
 obtain ⟨r,rfl⟩:=Int.eq_ofNat_of_zero_le hline
 obtain ⟨hr,rfl⟩:=List.getElem?_eq_some_iff.mp hs
 rw [←List.getD_eq_getElem _ 0 hr] at hn
 exact positionAt_offsetAt hr hn h0 hle
end L4Ide.TextPositions
