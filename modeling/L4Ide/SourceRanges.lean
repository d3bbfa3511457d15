import Mathlib

set_option autoImplicit false

/-!
# Source ranges

The annotations that the parser appends, and the lookup of the smallest interval around a position.
-/
namespace L4Ide.SourceRanges

structure SrcPos where
 line : ℤ
 column : ℤ
 deriving DecidableEq

/-- Lines first, then columns, as derived. -/
instance : LE SrcPos := ⟨fun p q=>p.line<q.line ∨ p.line=q.line ∧ p.column ≤ q.column⟩
instance : DecidableLE SrcPos := fun p q=>
 inferInstanceAs (Decidable (p.line<q.line ∨ p.line=q.line ∧ p.column ≤ q.column))

structure SrcRange where
 start : SrcPos
 stop : SrcPos
 length : ℤ
 moduleUri : String
 deriving DecidableEq

/-! ### Appending annotations -/

inductive NodeVisibility where
 | hidden | visible
 deriving DecidableEq

structure ConcreteSyntaxNode_ (T:Type) where
 tokens : List T
 range : Option SrcRange
 visibility : NodeVisibility
 deriving DecidableEq

structure CsnCluster_ (T:Type) where
 payload : ConcreteSyntaxNode_ T
 trailing : ConcreteSyntaxNode_ T
 deriving DecidableEq

inductive AnnoElement_ (T:Type) where
 | annoHole (range:Option SrcRange)
 | annoCsn (range:Option SrcRange) (cluster:CsnCluster_ T)
 deriving DecidableEq

structure Anno_ (T E:Type) where
 extra : E
 range : Option SrcRange
 payload : List (AnnoElement_ T)
 deriving DecidableEq

section
variable {T E:Type}

def rangeOfAnnoElement : AnnoElement_ T → Option SrcRange
 | .annoHole srcRange=>srcRange
 | .annoCsn srcRange _=>srcRange

def rangeOf (elements:List (AnnoElement_ T)) : Option SrcRange :=
 let rs:=elements.filterMap rangeOfAnnoElement
 match rs.head?, rs.getLast? with
 | some h, some l=>some ⟨h.start,l.stop,(rs.map SrcRange.length).sum,l.moduleUri⟩
 | _, _=>none

variable [Monoid E]

def fixAnnoSrcRange (ann:Anno_ T E) : Anno_ T E := { ann with range:=rangeOf ann.payload }

def mkAnno (es:List (AnnoElement_ T)) : Anno_ T E := fixAnnoSrcRange ⟨1,none,es⟩

def emptyAnno : Anno_ T E := mkAnno []

def isEmptyAnno [DecidableEq E] (ann:Anno_ T E) : Bool :=
 ann.range.isNone && ann.payload.isEmpty && decide (ann.extra=1)

instance [DecidableEq E] : Append (Anno_ T E) where
 append a b:=
  if isEmptyAnno a then b
  else if isEmptyAnno b then a
  else if a.range=b.range then ⟨a.extra*b.extra,a.range,a.payload++b.payload⟩
  -- no range is known to be right for two different ones
  else ⟨1,none,a.payload++b.payload⟩

variable [DecidableEq E] (a b c:Anno_ T E)

theorem append_def : a++b=if isEmptyAnno a then b else if isEmptyAnno b then a
    else if a.range=b.range then ⟨a.extra*b.extra,a.range,a.payload++b.payload⟩
    else ⟨1,none,a.payload++b.payload⟩ := rfl

theorem isEmptyAnno_iff : isEmptyAnno a=true ↔ a=emptyAnno := by
 obtain ⟨e,r,m⟩:=a
 simp [isEmptyAnno,emptyAnno,mkAnno,fixAnnoSrcRange,rangeOf,and_comm]

@[simp] theorem empty_append : emptyAnno++a=a := by
 rw [append_def,if_pos ((isEmptyAnno_iff _).mpr rfl)]

@[simp] theorem append_empty : a++emptyAnno=a := by
 rw [append_def,if_pos ((isEmptyAnno_iff (emptyAnno:Anno_ T E)).mpr rfl)]
 split
 · next h=>exact ((isEmptyAnno_iff a).mp h).symm
 · rfl

theorem payload_append : (a++b).payload=a.payload++b.payload := by
 rw [append_def]
 split
 · next h=>rw [(isEmptyAnno_iff a).mp h];rfl
 split
 · next h=>rw [(isEmptyAnno_iff b).mp h];exact (List.append_nil _).symm
 split <;> rfl

/-- Annotations of one range join like their parts, empty ones included. -/
theorem append_same (h:a.range=b.range) :
    a++b=⟨a.extra*b.extra,a.range,a.payload++b.payload⟩ := by
 rw [append_def]
 split
 · next ha=>
   rw [(isEmptyAnno_iff a).mp ha] at h ⊢
   change b=⟨1*b.extra,none,[]++b.payload⟩
   rw [one_mul,show none=b.range from h]
   rfl
 split
 · next hb=>
   rw [(isEmptyAnno_iff b).mp hb]
   change a=⟨a.extra*1,a.range,a.payload++[]⟩
   rw [mul_one,List.append_nil]
 · rfl

theorem append_differs (ha:a.range.isSome) (hb:b.range.isSome) (h:a.range≠b.range) :
    a++b=⟨1,none,a.payload++b.payload⟩ := by
 have hne:∀ d:Anno_ T E,d.range.isSome → ¬isEmptyAnno d=true:=fun d hd he=>by
  rw [(isEmptyAnno_iff d).mp he] at hd
  cases hd
 rw [append_def,if_neg (hne a ha),if_neg (hne b hb),if_neg h]

/-- An annotation without a range or extra swallows those of what is appended to it. -/
theorem none_append {m:List (AnnoElement_ T)} (hm:m≠[]) (hc:c.range.isSome) :
    (⟨1,none,m⟩:Anno_ T E)++c=⟨1,none,m++c.payload⟩ := by
 rw [append_def,if_neg (by simp [isEmptyAnno,hm]),
  if_neg (fun he=>by rw [(isEmptyAnno_iff c).mp he] at hc;cases hc),
  if_neg (fun he:none=c.range=>by rw [←he] at hc;cases hc)]

theorem append_none {m:List (AnnoElement_ T)} (hm:m≠[]) (hc:c.range.isSome) :
    c++(⟨1,none,m⟩:Anno_ T E)=⟨1,none,c.payload++m⟩ := by
 rw [append_def,if_neg (fun he=>by rw [(isEmptyAnno_iff c).mp he] at hc;cases hc),
  if_neg (by simp [isEmptyAnno,hm]),if_neg (fun he:c.range=none=>by rw [he] at hc;cases hc)]

/-- All three annotations have a range, and neither neighbouring pair is without payload. -/
def Located : Prop :=
 a.range.isSome ∧ b.range.isSome ∧ c.range.isSome ∧
  a.payload++b.payload≠[] ∧ b.payload++c.payload≠[]

theorem assoc_same (h1:a.range=b.range) (h2:b.range=c.range) : a++b++c=a++(b++c) := by
 have hab:=append_same a b h1
 have hbc:=append_same b c h2
 rw [append_same (a++b) c (by rw [hab];exact h1.trans h2),
  append_same a (b++c) (by rw [hbc];exact h1),hab,hbc]
 simp only [mul_assoc,List.append_assoc]

theorem assoc_located (h:Located a b c) : a++b++c=a++(b++c) := by
 obtain ⟨ha,hb,hc,hab,hbc⟩:=h
 by_cases h1:a.range=b.range <;> by_cases h2:b.range=c.range
 · exact assoc_same a b c h1 h2
 · have h:=append_same a b h1
   rw [append_differs b c hb hc h2,append_none a hbc ha,append_differs (a++b) c (by rwa [h]) hc
    (fun he=>h2 (h1.symm.trans (by rwa [h] at he))),payload_append,List.append_assoc]
 · have h:=append_same b c h2
   rw [append_differs a b ha hb h1,none_append c hab hc,append_differs a (b++c) ha (by rwa [h])
    (fun he=>h1 (by rwa [h] at he)),payload_append,List.append_assoc]
 · rw [append_differs a b ha hb h1,append_differs b c hb hc h2,none_append c hab hc,
    append_none a hbc ha,List.append_assoc]

end

def wordRange (start stop:ℤ) : SrcRange := ⟨⟨1,start⟩,⟨1,stop⟩,stop-start,"file:///a.l4"⟩

structure Interval (V:Type) where
 low : V
 high : V
 deriving DecidableEq

abbrev IntervalMap (V A:Type) := List (Interval V×A)

section
variable {V A:Type}

def IntervalMap.empty : IntervalMap V A := []

def IntervalMap.insert (iv:Interval V) (val:A) (xs:IntervalMap V A) : IntervalMap V A :=
 (iv,val)::xs

def Interval.contains [LE V] (iv:Interval V) (p:V) : Prop := iv.low ≤ p ∧ p ≤ iv.high

instance [LE V] [DecidableLE V] (iv:Interval V) (p:V) : Decidable (iv.contains p) :=
 inferInstanceAs (Decidable (_ ∧ _))

def search [LE V] [DecidableLE V] (p:V) (xs:IntervalMap V A) : List (Interval V×A) :=
 xs.filter fun e=>e.1.contains p
end

def minus (x y:SrcPos) : SrcPos := ⟨x.line-y.line,x.column-y.column⟩

def intervalToSrcRange (uri:String) (len:ℤ) (iv:Interval SrcPos) : SrcRange :=
 ⟨iv.low,iv.high,len,uri⟩

def intervalToRange0 (uri:String) (iv:Interval SrcPos) : SrcRange := intervalToSrcRange uri 0 iv

def extent (iv:Interval SrcPos) : SrcPos := minus iv.high iv.low

variable {A:Type}

/-- The first of the intervals around the position when sorted, stably, by extent. -/
def smallestContaining (nuri:String) (sp:SrcPos) (info:IntervalMap SrcPos A) :
  Option (SrcRange×A) :=
 ((search sp info).mergeSort fun x y=>extent x.1 ≤ extent y.1).head?.map fun e=>
  (intervalToRange0 nuri e.1,e.2)

theorem SrcPos.le_def (p q:SrcPos) : p ≤ q ↔ p.line<q.line ∨ p.line=q.line ∧ p.column ≤ q.column :=
 Iff.rfl

theorem SrcPos.le_trans' {p q r:SrcPos} (h1:p ≤ q) (h2:q ≤ r) : p ≤ r := by
 rw [SrcPos.le_def] at *
 omega

theorem SrcPos.le_total' (p q:SrcPos) : p ≤ q ∨ q ≤ p := by
 simp only [SrcPos.le_def]
 omega

/-- One interval lies in another and is not the same. -/
def Interval.StrictlyInside (i j:Interval SrcPos) : Prop :=
 j.low ≤ i.low ∧ i.high ≤ j.high ∧ i≠j

theorem extent_strict {i j:Interval SrcPos} (h:i.StrictlyInside j) : ¬extent j ≤ extent i := by
 obtain ⟨⟨⟨a,b⟩,⟨c,d⟩⟩,⟨⟨a',b'⟩,⟨c',d'⟩⟩⟩:=i,j
 obtain ⟨h1,h2,h3⟩:=h
 simp only [SrcPos.le_def,extent,minus,ne_eq,Interval.mk.injEq,SrcPos.mk.injEq] at *
 omega

theorem sorted_search (sp:SrcPos) (info:IntervalMap SrcPos A) :
    ((search sp info).mergeSort fun x y=>extent x.1 ≤ extent y.1).Pairwise
     fun x y=>decide (extent x.1 ≤ extent y.1)=true := by
 refine List.pairwise_mergeSort (fun x y z hxy hyz=>?_) (fun x y=>?_) _
 · exact decide_eq_true (SrcPos.le_trans' (of_decide_eq_true hxy) (of_decide_eq_true hyz))
 · rw [Bool.or_eq_true,decide_eq_true_eq,decide_eq_true_eq]
   exact SrcPos.le_total' _ _

theorem mem_search {sp:SrcPos} {info:IntervalMap SrcPos A} {e:Interval SrcPos×A} :
    e ∈ search sp info ↔ e ∈ info ∧ e.1.contains sp := by
 rw [search,List.mem_filter,decide_eq_true_eq]

def inserted (ivs:List (Interval SrcPos×A)) : IntervalMap SrcPos A :=
 ivs.foldl (fun m e=>m.insert e.1 e.2) .empty

theorem mem_foldl_insert (ivs m:List (Interval SrcPos×A)) (e:Interval SrcPos×A) :
    e ∈ ivs.foldl (fun m e=>IntervalMap.insert e.1 e.2 m) m ↔ e ∈ ivs ∨ e ∈ m := by
 induction ivs generalizing m with
 | nil=>simp
 | cons iv ivs ih=>
  rw [List.foldl_cons,ih,IntervalMap.insert,List.mem_cons,List.mem_cons]
  tauto

theorem smallest_containing (nuri:String) (sp:SrcPos) (ivs:List (Interval SrcPos×A)) :
    (smallestContaining nuri sp (inserted ivs)=none ↔ ∀ e ∈ ivs,¬e.1.contains sp) ∧
    ∀ result,smallestContaining nuri sp (inserted ivs)=some result →
     ∃ iv,(iv,result.2) ∈ ivs ∧ result.1=intervalToRange0 nuri iv ∧ iv.contains sp ∧
      ∀ e ∈ ivs,e.1.contains sp → ¬e.1.StrictlyInside iv := by
 have hmem:∀ e,e ∈ search sp (inserted ivs) ↔ e ∈ ivs ∧ e.1.contains sp:=fun e=>by
  rw [mem_search,inserted,mem_foldl_insert,IntervalMap.empty,List.mem_nil_iff,or_false]
 have hsort:=sorted_search sp (inserted ivs)
 have hmem':∀ e,e ∈ (search sp (inserted ivs)).mergeSort (fun x y=>extent x.1 ≤ extent y.1) ↔
   e ∈ ivs ∧ e.1.contains sp:=fun e=>List.mem_mergeSort.trans (hmem e)
 unfold smallestContaining
 generalize (search sp (inserted ivs)).mergeSort (fun x y=>extent x.1 ≤ extent y.1)=es at *
 cases es with
 | nil=>
  refine ⟨⟨fun _ e he hc=>?_,fun _=>rfl⟩,fun _ h=>by cases h⟩
  exact List.not_mem_nil ((hmem' e).mpr ⟨he,hc⟩)
 | cons x es=>
  obtain ⟨hx,hxc⟩:=(hmem' x).mp List.mem_cons_self
  refine ⟨⟨fun h=>(by cases h),fun h=>absurd hxc (h x hx)⟩,?_⟩
  rintro _ ⟨⟩
  refine ⟨x.1,hx,rfl,hxc,fun e he hc hstrict=>?_⟩
  -- the head comes no later than anything the sort keeps
  rcases List.mem_cons.mp ((hmem' e).mpr ⟨he,hc⟩) with rfl | hlater
  · exact hstrict.2.2 rfl
  · exact extent_strict hstrict (of_decide_eq_true ((List.pairwise_cons.mp hsort).1 e hlater))
end L4Ide.SourceRanges
