import L4Ide.NodeWorkspace
import Mathlib.Data.List.Sort

set_option autoImplicit false

/-!
# Lists of text edits

What a list of edits makes of a text, against the text in which every range is replaced at once.
-/
namespace L4Ide.WorkspaceEdits
open NodeWorkspace State

/-! ### Replacing every range at once -/

def insertedAt (edits:List TextEdit) (o:ℕ) : Text :=
 (edits.filter fun e=>e.startOffset=(o:ℤ) ∧ e.endOffset=(o:ℤ)).flatMap TextEdit.newText

def replacementAt (edits:List TextEdit) (o:ℕ) : Text :=
 (edits.filter fun e=>e.startOffset=(o:ℤ) ∧ (o:ℤ) < e.endOffset).flatMap TextEdit.newText

def keptAt (text:Text) (edits:List TextEdit) (o:ℕ) : Text :=
 if ∃ e ∈ edits, e.startOffset ≤ (o:ℤ) ∧ (o:ℤ) < e.endOffset then [] else text[o]?.toList

def pieceAt (text:Text) (edits:List TextEdit) (o:ℕ) : Text :=
 insertedAt edits o ++ replacementAt edits o ++ keptAt text edits o

def replaced (text:Text) (edits:List TextEdit) : Text :=
 (List.range (text.length+1)).flatMap (pieceAt text edits)

structure InText (text:Text) (e:TextEdit) : Prop where
 start : 0 ≤ e.startOffset
 ordered : e.startOffset ≤ e.endOffset
 stop : e.endOffset ≤ text.length

def Apart (a b:TextEdit) : Prop :=
 a.endOffset ≤ b.startOffset ∨ b.endOffset ≤ a.startOffset

structure Separate (text:Text) (edits:List TextEdit) : Prop where
 inText : ∀ e ∈ edits, InText text e
 apart : edits.Pairwise Apart

def InsertedBefore (a b:TextEdit) : Prop :=
 a.startOffset=b.startOffset ∧ a.endOffset=b.startOffset ∧ b.startOffset < b.endOffset

instance (a b:TextEdit) : Decidable (InsertedBefore a b) := inferInstanceAs (Decidable (_ ∧ _))

def NoInsertionBefore (edits:List TextEdit) : Prop := edits.Pairwise fun a b=>¬InsertedBefore a b

variable {text tail:Text} {edits:List TextEdit} {e:TextEdit}

theorem Apart.symm {a b:TextEdit} (h:Apart a b) : Apart b a := Or.symm h

/-! ### Edits from the last to the first -/

theorem spliced_append {limit:ℤ} (h:limit ≤ text.length) :
  spliced (text ++ tail) limit edits=(spliced text limit edits).map (· ++ tail) := by
 induction edits generalizing text limit with
 | nil=>rfl
 | cons e edits ih=>
  unfold spliced
  by_cases hbad:e.startOffset < 0 ∨ e.endOffset < e.startOffset ∨ limit < e.endOffset
  · rw [if_pos hbad,if_pos hbad]
    rfl
  · rw [if_neg hbad,if_neg hbad,←ih]
    · rw [List.take_append_of_le_length (by omega),List.drop_append_of_le_length (by omega)]
      simp only [List.append_assoc]
    · simp only [List.length_append,List.length_take]
      omega

theorem spliced_cons (h:InText text e) :
  spliced text text.length (e::edits) =
   (spliced (text.take e.startOffset.toNat) (text.take e.startOffset.toNat).length edits).map
    (· ++ (e.newText ++ text.drop e.endOffset.toNat)) := by
 have ⟨hstart,hordered,hstop⟩:=h
 have hlength:((text.take e.startOffset.toNat).length : ℤ)=e.startOffset:=by
  rw [List.length_take]
  omega
 rw [spliced,if_neg (by omega),List.append_assoc,hlength,spliced_append (by omega)]

def Descending (edits:List TextEdit) : Prop :=
 edits.Pairwise fun a b=>b.endOffset ≤ a.startOffset

theorem flatMap_getElem (text:Text) (t:ℕ) :
  (List.range (text.length+1)).flatMap (fun o=>if o < t then [] else text[o]?.toList) =
   text.drop t := by
 induction text generalizing t with
 | nil=>simp
 | cons c text ih=>
  rw [List.length_cons,List.range_succ_eq_map,List.flatMap_cons,List.flatMap_map]
  cases t with
  | zero=>simpa using ih 0
  | succ t=>simpa using ih t

theorem range_split {s n:ℕ} (h:s ≤ n) :
  List.range (n+1)=List.range s ++ s::(List.range (n-s)).map (s+1 + ·) := by
 have heq:n+1=s+1+(n-s):=by omega
 rw [heq,List.range_add,List.range_succ,List.append_assoc]
 rfl

theorem replaced_nil : replaced text []=text := by
 have hpiece:pieceAt text [] = fun o=>if o < 0 then [] else text[o]?.toList:=by
  funext o
  simp [pieceAt,insertedAt,replacementAt,keptAt]
 rw [replaced,hpiece,flatMap_getElem,List.drop_zero]

theorem flatMap_filter_concat (edits:List TextEdit) (e:TextEdit) (p:TextEdit → Bool) :
  ((edits ++ [e]).filter p).flatMap TextEdit.newText =
   (edits.filter p).flatMap TextEdit.newText ++ if p e then e.newText else [] := by
 rw [List.filter_append,List.flatMap_append,List.filter_singleton]
 by_cases h:p e=true <;> simp [h]

theorem flatMap_filter_nil {p:TextEdit → Bool} (h:∀ e ∈ edits, p e=false) :
  (edits.filter p).flatMap TextEdit.newText=[] := by
 have hnil:edits.filter p=[]:=List.filter_eq_nil_iff.2 fun e he=>by simp [h e he]
 rw [hnil]
 rfl

theorem keptAt_concat (text:Text) (edits:List TextEdit) (e:TextEdit) (o:ℕ) :
  keptAt text (edits ++ [e]) o =
   if e.startOffset ≤ (o:ℤ) ∧ (o:ℤ) < e.endOffset then [] else keptAt text edits o := by
 unfold keptAt
 by_cases h:e.startOffset ≤ (o:ℤ) ∧ (o:ℤ) < e.endOffset
 · rw [if_pos h,if_pos ⟨e,by simp,h⟩]
 · rw [if_neg h]
   simp [h,or_and_right,exists_or]

theorem keptAt_ended {o:ℕ} (h:∀ e ∈ edits, e.endOffset ≤ (o:ℤ)) :
  keptAt text edits o=text[o]?.toList := by
 rw [keptAt,if_neg]
 rintro ⟨e,he,-,hstop⟩
 exact absurd (h e he) (by omega)

section LastEdit

variable {o:ℕ}

theorem pieceAt_before (ho:(o:ℤ) < e.startOffset) :
  pieceAt text (edits ++ [e]) o=pieceAt (text.take e.startOffset.toNat) edits o := by
 have hkept:keptAt text edits o=keptAt (text.take e.startOffset.toNat) edits o:=by
  rw [keptAt,keptAt,List.getElem?_take_of_lt (by omega)]
 rw [pieceAt,pieceAt,insertedAt,replacementAt,flatMap_filter_concat,flatMap_filter_concat,
  keptAt_concat,if_neg (by simp; omega),if_neg (by simp; omega),if_neg (by omega),hkept]
 simp only [List.append_nil]
 rfl

variable (hbefore:∀ e' ∈ edits, e'.endOffset ≤ e.startOffset)
include hbefore

theorem pieceAt_start (h:InText text e) (ho:(o:ℤ)=e.startOffset) :
  pieceAt text (edits ++ [e]) o=pieceAt (text.take e.startOffset.toNat) edits o ++
   (e.newText ++ if (o:ℤ) < e.endOffset then [] else text[o]?.toList) := by
 have hended:∀ e' ∈ edits, e'.endOffset ≤ (o:ℤ):=fun e' he' =>ho ▸ hbefore e' he'
 have hreplacement:replacementAt edits o=[]:=
  flatMap_filter_nil fun e' he' =>by
   have:=hended e' he'
   simp
   omega
 have hend:(text.take e.startOffset.toNat)[o]? = none:=
  List.getElem?_eq_none (by rw [List.length_take]; omega)
 rw [pieceAt,pieceAt,keptAt_ended hended,hend,keptAt_concat,keptAt_ended hended,hreplacement]
 have hinserted:insertedAt (edits ++ [e]) o ++ replacementAt (edits ++ [e]) o =
   insertedAt edits o ++ e.newText := by
  have hordered:=h.ordered
  rw [insertedAt,replacementAt,flatMap_filter_concat,flatMap_filter_concat]
  change insertedAt edits o ++ _ ++ (replacementAt edits o ++ _)=_
  rw [hreplacement]
  by_cases hstop:(o:ℤ) < e.endOffset
  · simp [←ho,hstop,hstop.ne']
  · have heq:e.endOffset=(o:ℤ):=by omega
    simp [←ho,heq]
 rw [hinserted,←ho]
 simp

theorem pieceAt_after (hedits:∀ e' ∈ edits, InText text e') (ho:e.startOffset < o) :
  pieceAt text (edits ++ [e]) o = if (o:ℤ) < e.endOffset then [] else text[o]?.toList := by
 have hstarts:∀ e' ∈ edits ++ [e], e'.startOffset < (o:ℤ):=by
  intro e' he'
  rcases List.mem_append.1 he' with he' | he'
  · have:=hbefore e' he'
    have:=(hedits e' he').ordered
    omega
  · rwa [List.mem_singleton.1 he']
 have hinserted:insertedAt (edits ++ [e]) o=[]:=
  flatMap_filter_nil fun e' he' =>by
   have:=hstarts e' he'
   simp
   omega
 have hreplacement:replacementAt (edits ++ [e]) o=[]:=
  flatMap_filter_nil fun e' he' =>by
   have:=hstarts e' he'
   simp
   omega
 have hended:∀ e' ∈ edits, e'.endOffset ≤ (o:ℤ):=fun e' he' =>(hbefore e' he').trans ho.le
 rw [pieceAt,hinserted,hreplacement,keptAt_concat,keptAt_ended hended]
 simp [ho.le]

theorem replaced_concat (h:InText text e) (hedits:∀ e' ∈ edits, InText text e') :
  replaced text (edits ++ [e])=replaced (text.take e.startOffset.toNat) edits ++
   (e.newText ++ text.drop e.endOffset.toNat) := by
 have ⟨hstart,hordered,hstop⟩:=h
 have hlength:(text.take e.startOffset.toNat).length=e.startOffset.toNat:=by
  rw [List.length_take]
  omega
 have hsplit:=range_split (show e.startOffset.toNat ≤ text.length by omega)
 have hdrop:=flatMap_getElem text e.endOffset.toNat
 have hnil:(List.range e.startOffset.toNat).flatMap
   (fun o=>if o < e.endOffset.toNat then [] else text[o]?.toList)=[] := by
  rw [List.flatMap_eq_nil_iff]
  intro o ho
  rw [if_pos (by have := List.mem_range.1 ho; omega)]
 have hbefores:(List.range e.startOffset.toNat).flatMap (pieceAt text (edits ++ [e])) =
   (List.range e.startOffset.toNat).flatMap (pieceAt (text.take e.startOffset.toNat) edits) :=
  List.flatMap_congr fun o ho=>pieceAt_before (by have := List.mem_range.1 ho; omega)
 have hafters:(List.range (text.length-e.startOffset.toNat)).flatMap
   (fun i=>pieceAt text (edits ++ [e]) (e.startOffset.toNat+1+i)) =
   (List.range (text.length-e.startOffset.toNat)).flatMap fun i=>
    if e.startOffset.toNat+1+i < e.endOffset.toNat then []
    else text[e.startOffset.toNat+1+i]?.toList := by
  refine List.flatMap_congr fun i hi=>?_
  rw [pieceAt_after hbefore hedits (by omega)]
  refine if_congr ?_ rfl rfl
  omega
 have hcase:((e.startOffset.toNat : ℕ) : ℤ) < e.endOffset ↔
   e.startOffset.toNat < e.endOffset.toNat := by omega
 rw [hsplit,List.flatMap_append,List.flatMap_cons,List.flatMap_map,hnil,List.nil_append] at hdrop
 rw [replaced,hsplit,List.flatMap_append,List.flatMap_cons,List.flatMap_map,hbefores,
  pieceAt_start hbefore h (by omega),hafters,←hdrop,if_congr hcase rfl rfl,replaced,hlength,
  List.range_succ,List.flatMap_append]
 simp only [List.append_assoc,List.flatMap_cons,List.flatMap_nil,List.append_nil]

end LastEdit

theorem inText_take (h:InText text e) (e' : TextEdit) :
  InText (text.take e.startOffset.toNat) e' ↔ InText text e' ∧ e'.endOffset ≤ e.startOffset := by
 have ⟨hstart,hordered,hstop⟩:=h
 have hlength:((text.take e.startOffset.toNat).length : ℤ)=e.startOffset:=by
  rw [List.length_take]
  omega
 constructor
 · intro h'
   have hend:=h'.stop
   rw [hlength] at hend
   exact ⟨⟨h'.start,h'.ordered,by omega⟩,hend⟩
 · intro ⟨h',hend⟩
   exact ⟨h'.start,h'.ordered,by rwa [hlength]⟩

/-- Edits from the last to the first are made where each is in the text, and each ends before
the last one starts. -/
theorem spliced_eq_some_iff {result:Text} :
  spliced text text.length edits=some result ↔
   (∀ e ∈ edits, InText text e) ∧ Descending edits ∧ result=replaced text edits.reverse := by
 induction edits generalizing text result with
 | nil=>
  rw [spliced,List.reverse_nil,replaced_nil,Option.some.injEq]
  simp [Descending,eq_comm]
 | cons e edits ih=>
  by_cases h:InText text e
  · rw [spliced_cons h,Option.map_eq_some_iff,List.reverse_cons,Descending,List.pairwise_cons]
    constructor
    · rintro ⟨r,hr,rfl⟩
      obtain ⟨hedits,hdescending,rfl⟩:=ih.1 hr
      have hin:=fun e' he' =>(inText_take h e').1 (hedits e' he')
      refine ⟨?_,⟨fun e' he' =>(hin e' he').2,hdescending⟩,?_⟩
      · simpa using ⟨h,fun e' he' =>(hin e' he').1⟩
      · symm
        apply replaced_concat
        · simpa using fun e' he' =>(hin e' he').2
        · exact h
        · simpa using fun e' he' =>(hin e' he').1
    · rintro ⟨hedits,⟨hbefore,hdescending⟩,rfl⟩
      have hin:∀ e' ∈ edits, InText text e':=
       fun e' he' =>hedits e' (List.mem_cons_of_mem _ he')
      refine ⟨_,ih.2 ⟨fun e' he' =>(inText_take h e').2 ⟨hin e' he',hbefore e' he'⟩,hdescending,
       rfl⟩,?_⟩
      symm
      apply replaced_concat
      · simpa using hbefore
      · exact h
      · simpa using hin
  · have hbad:e.startOffset < 0 ∨ e.endOffset < e.startOffset ∨ (text.length : ℤ) < e.endOffset:=by
     by_contra hgood
     exact h ⟨by omega,by omega,by omega⟩
    rw [spliced,if_pos hbad]
    constructor
    · intro hnone
      cases hnone
    · intro ⟨hedits,_⟩
      exact absurd (hedits e List.mem_cons_self) h

/-! ### The order of the list -/

def sorted (edits:List TextEdit) : List TextEdit :=
 edits.mergeSort fun a b=>b.startOffset ≤ a.startOffset

theorem mem_sorted : e ∈ sorted edits ↔ e ∈ edits := List.mem_mergeSort

theorem sorted_desc (edits:List TextEdit) :
  (sorted edits).Pairwise fun a b=>b.startOffset ≤ a.startOffset := by
 have h:=@List.pairwise_mergeSort _ (fun a b : TextEdit=>b.startOffset ≤ a.startOffset)
  (by simp only [decide_eq_true_eq]; omega) (by simp only [Bool.or_eq_true,decide_eq_true_eq]; omega)
  edits
 simpa [sorted] using h

theorem sublist_sorted {l:List TextEdit} (hl:l.Pairwise fun a b=>b.startOffset ≤ a.startOffset)
  (hsub:List.Sublist l edits) : List.Sublist l (sorted edits) := by
 apply List.sublist_mergeSort _ _ _ hsub
 · simp only [decide_eq_true_eq]
   omega
 · simp only [Bool.or_eq_true,decide_eq_true_eq]
   omega
 · simpa using hl

theorem filter_sorted {p:TextEdit → Bool}
  (hp:∀ a b, p a=true → p b=true → a.startOffset=b.startOffset) :
  (sorted edits).filter p=edits.filter p := by
 have hpairwise:(edits.filter p).Pairwise fun a b=>b.startOffset ≤ a.startOffset:=by
  rw [List.pairwise_iff_forall_sublist]
  intro a b hab
  have ha:=List.mem_filter.1 (hab.subset List.mem_cons_self)
  have hb:=List.mem_filter.1 (hab.subset (List.mem_cons_of_mem _ List.mem_cons_self))
  exact (hp a b ha.2 hb.2).ge
 have hfiltered:=(sublist_sorted hpairwise List.filter_sublist).filter p
 rw [List.filter_filter] at hfiltered
 simp only [Bool.and_self] at hfiltered
 exact (hfiltered.eq_of_length ((List.mergeSort_perm _ _).filter p).length_eq.symm).symm

theorem descending_sorted (hordered:∀ e ∈ edits, e.startOffset ≤ e.endOffset) :
  Descending (sorted edits) ↔ edits.Pairwise Apart ∧ NoInsertionBefore edits := by
 have hperm:(sorted edits).Perm edits:=List.mergeSort_perm _ _
 constructor
 · intro h
   refine ⟨(hperm.pairwise_iff Apart.symm).1 (h.imp fun hab=>.inr hab),?_⟩
   refine List.pairwise_iff_forall_sublist.2 fun {a b} hab ⟨hstart,_,hlong⟩=>?_
   have hsorted:=sublist_sorted (l := [a,b]) (by simp [hstart]) hab
   have:=List.pairwise_iff_forall_sublist.1 h hsorted
   omega
 · rintro ⟨hapart,hfirst⟩
   refine List.pairwise_iff_forall_sublist.2 fun {a b} hab=>?_
   have hdesc:=List.pairwise_iff_forall_sublist.1 (sorted_desc edits) hab
   have ha:=hordered a (mem_sorted.1 (hab.subset List.mem_cons_self))
   have:=List.pairwise_iff_forall_sublist.1 ((hperm.pairwise_iff Apart.symm).2 hapart) hab
   rcases this with hclose | hclose
   · -- only an insertion ends before one that starts no later
     have hsame:=(hab.filter fun e=>e.startOffset=b.startOffset)
     have heq:a.startOffset=b.startOffset:=by omega
     rw [filter_sorted (by simp; omega)] at hsame
     have hpair:List.Sublist [a,b] edits:=by
      have:=hsame.trans List.filter_sublist
      simpa [heq] using this
     have:=List.pairwise_iff_forall_sublist.1 hfirst hpair
     by_contra hlong
     exact this ⟨heq,by omega,by omega⟩
   · exact hclose

theorem filter_reverse_sorted {p:TextEdit → Bool}
  (hp:∀ a b, p a=true → p b=true → a.startOffset=b.startOffset) :
  (sorted edits).reverse.filter p=edits.reverse.filter p := by
 rw [List.filter_reverse,List.filter_reverse,filter_sorted hp]

theorem replaced_reverse_sorted (text:Text) (edits:List TextEdit) :
  replaced text (sorted edits).reverse=replaced text edits.reverse := by
 have hpiece:pieceAt text (sorted edits).reverse=pieceAt text edits.reverse:=by
  funext o
  have hkept:keptAt text (sorted edits).reverse o=keptAt text edits.reverse o:=by
   simp only [keptAt,List.mem_reverse,mem_sorted]
  rw [pieceAt,pieceAt,hkept,insertedAt,insertedAt,replacementAt,replacementAt,
   filter_reverse_sorted (by simp; omega),filter_reverse_sorted (by simp; omega)]
 rw [replaced,replaced,hpiece]

/-- A list of edits is made where nothing overlaps and no insertion comes before a range that
starts there; insertions at one offset come out in reverse. -/
theorem edited_eq_some_iff {result:Text} :
  edited text edits=some result ↔
   Separate text edits ∧ NoInsertionBefore edits ∧ result=replaced text edits.reverse := by
 have h:=@spliced_eq_some_iff text (sorted edits) result
 rw [replaced_reverse_sorted] at h
 refine h.trans ⟨?_,?_⟩
 · rintro ⟨hin,hdescending,hresult⟩
   have hin' :=fun e he=>hin e (mem_sorted.2 he)
   obtain ⟨hapart,hfirst⟩:=(descending_sorted fun e he=>(hin' e he).ordered).1 hdescending
   exact ⟨⟨hin',hapart⟩,hfirst,hresult⟩
 · rintro ⟨⟨hin,hapart⟩,hfirst,hresult⟩
   exact ⟨fun e he=>hin e (mem_sorted.1 he),
    (descending_sorted fun e he=>(hin e he).ordered).2 ⟨hapart,hfirst⟩,hresult⟩

/-! ### Insertions in reverse -/

theorem flatMap_inj {l:List ℕ} {f g:ℕ → Text} (hlength:∀ o ∈ l, (f o).length=(g o).length)
  (h:l.flatMap f=l.flatMap g) : ∀ o ∈ l, f o=g o := by
 induction l with
 | nil=>simp
 | cons o l ih=>
  rw [List.flatMap_cons,List.flatMap_cons] at h
  obtain ⟨hfirst,hlater⟩:=List.append_inj h (hlength o List.mem_cons_self)
  have hrest:=ih (fun o' ho' =>hlength o' (List.mem_cons_of_mem _ ho')) hlater
  simpa using ⟨hfirst,hrest⟩

theorem length_insertedAt_reverse (edits:List TextEdit) (o:ℕ) :
  (insertedAt edits.reverse o).length=(insertedAt edits o).length := by
 rw [insertedAt,insertedAt,List.filter_reverse]
 exact ((List.reverse_perm _).flatMap_right _).length_eq

theorem replacementAt_reverse (h:edits.Pairwise Apart) (o:ℕ) :
  replacementAt edits.reverse o=replacementAt edits o := by
 have hshort:(edits.filter fun e=>e.startOffset=(o:ℤ) ∧ (o:ℤ) < e.endOffset).reverse =
   edits.filter fun e=>e.startOffset=(o:ℤ) ∧ (o:ℤ) < e.endOffset := by
  cases hfilter:edits.filter fun e=>e.startOffset=(o:ℤ) ∧ (o:ℤ) < e.endOffset with
  | nil=>rfl
  | cons a rest=>
   cases rest with
   | nil=>rfl
   | cons b rest=>
    have hmem:∀ e ∈ a::b::rest, e.startOffset=(o:ℤ) ∧ (o:ℤ) < e.endOffset:=by
     intro e he
     rw [←hfilter] at he
     simpa using (List.mem_filter.1 he).2
    have ha:=hmem a (by simp)
    have hb:=hmem b (by simp)
    have hpair:=(h.filter fun e=>e.startOffset=(o:ℤ) ∧ (o:ℤ) < e.endOffset)
    rw [hfilter] at hpair
    rcases List.rel_of_pairwise_cons hpair List.mem_cons_self with h | h <;> omega
 rw [replacementAt,replacementAt,List.filter_reverse,hshort]

/-- Reversing the list changes nothing where the insertions at each offset read the same. -/
theorem replaced_reverse_iff (h:Separate text edits) :
  replaced text edits.reverse=replaced text edits ↔
   ∀ o, insertedAt edits.reverse o=insertedAt edits o := by
 have hpiece:∀ o, pieceAt text edits.reverse o =
   insertedAt edits.reverse o ++ (replacementAt edits o ++ keptAt text edits o) := by
  intro o
  have hkept:keptAt text edits.reverse o=keptAt text edits o:=by
   simp only [keptAt,List.mem_reverse]
  rw [pieceAt,hkept,replacementAt_reverse h.apart,List.append_assoc]
 constructor
 · intro heq o
   by_cases ho:o ∈ List.range (text.length+1)
   · have hsame:=flatMap_inj (fun o' _=>by
      rw [hpiece,pieceAt,List.append_assoc,List.length_append,length_insertedAt_reverse,
       ← List.length_append]) heq o ho
     rw [hpiece,pieceAt,List.append_assoc] at hsame
     exact List.append_cancel_right hsame
   · have hnone:∀ e ∈ edits, decide (e.startOffset=(o:ℤ) ∧ e.endOffset=(o:ℤ))=false:=by
      intro e he
      have:=(h.inText e he).stop
      rw [List.mem_range] at ho
      simp
      omega
     rw [insertedAt,insertedAt,flatMap_filter_nil hnone,
      flatMap_filter_nil fun e he=>hnone e (List.mem_reverse.1 he)]
 · intro hread
   refine List.flatMap_congr fun o ho=>?_
   rw [hpiece,hread,pieceAt,List.append_assoc]

/-! ### The files of a list -/

section Files
open LinkedTree

variable {files:Files} {p:List String} {c c' : Text} {host:Host} {s:State}

theorem walk_update (h:files p=some (.file c)) (follow:Bool)
  (jump:List String → Path → Resolution String) (current:List String) (path:Path) :
  walk (Function.update files p (some (.file c'))) follow jump current path =
   walk files follow jump current path := by
 induction path generalizing current with
 | nil=>rfl
 | cons step path ih=>
  cases step with
  | up=>exact ih _
  | down n=>
   unfold walk
   by_cases hp:current ++ [n]=p
   · rw [hp,Function.update_self,h]
   · rw [Function.update_of_ne hp]
     split <;> first | rfl | exact ih _

theorem resolve_update (h:files p=some (.file c)) (follow:Bool) (links:ℕ)
  (current:List String) (path:Path) :
  resolve (Function.update files p (some (.file c'))) follow links current path =
   resolve files follow links current path := by
 induction links generalizing current path with
 | zero=>exact walk_update h follow _ current path
 | succ links ih=>
  have hjump:resolve (Function.update files p (some (.file c'))) follow links =
    resolve files follow links := by
   funext current path
   exact ih current path
  rw [resolve,hjump]
  exact walk_update h follow _ current path

def fileAt (files:Files) (path:Path) : Option (List String) :=
 match lstat files path with
 | .ok (p,.file _)=>some p
 | _=>none

theorem fileAt_eq_some {path:Path} :
  fileAt files path=some p ↔
   resolve files false MAX_LINKS [] path = .found p ∧ ∃ c, entryAt files p=some (.file c) := by
 unfold fileAt lstat
 cases resolve files false MAX_LINKS [] path with
 | found q=>
  dsimp only
  by_cases hq:q=p
  · rw [hq]
    cases entryAt files p with
    | none=>simp
    | some entry=>cases entry <;> simp
  · cases entryAt files q with
    | none=>simp [hq]
    | some entry=>cases entry <;> simp [hq]
 | missing=>simp
 | notDirectory=>simp
 | loop=>simp

theorem files_of_entryAt (h:entryAt files p=some (.file c)) : files p=some (.file c) := by
 cases p with
 | nil=>cases h
 | cons n p=>exact h

theorem fileAt_content {path:Path} (h:fileAt files path=some p) :
  ∃ c, files p=some (.file c) ∧ lstat files path = .ok (p,.file c) := by
 obtain ⟨hpath,c,hentry⟩:=fileAt_eq_some.1 h
 refine ⟨c,files_of_entryAt hentry,?_⟩
 rw [lstat,hpath]
 dsimp only
 rw [hentry]

theorem fileAt_update (h:entryAt files p=some (.file c)) (path:Path) :
  fileAt (Function.update files p (some (.file c'))) path=fileAt files path := by
 apply Option.ext
 intro q
 have hentry:(∃ d, entryAt (Function.update files p (some (.file c'))) q=some (.file d)) ↔
   ∃ d, entryAt files q=some (.file d) := by
  cases q with
  | nil=>exact Iff.rfl
  | cons n q=>
   by_cases hq:n::q=p
   · subst hq
     exact iff_of_true ⟨c',Function.update_self ..⟩ ⟨c,h⟩
   · simp [entryAt,Function.update_of_ne hq]
 rw [fileAt_eq_some,fileAt_eq_some,resolve_update (files_of_entryAt h),hentry]

theorem writeResults_eq {results:List (Path × Text)}
  (h:∀ r ∈ results, (fileAt s.files r.1).isSome) :
  ∃ files, writeResults results s=({ s with files },.done) ∧
   ∀ q, ((∀ r ∈ results, fileAt s.files r.1 ≠ some q) → files q=s.files q) ∧
    ∀ before r after, results=before ++ r::after → fileAt s.files r.1=some q →
     (∀ r' ∈ after, fileAt s.files r'.1 ≠ some q) → files q=some (.file r.2) := by
 induction results generalizing s with
 | nil=>
  refine ⟨s.files,rfl,fun q=>⟨fun _=>rfl,fun before r after hnil=>?_⟩⟩
  cases before <;> cases hnil
 | cons r results ih=>
  obtain ⟨p,hp⟩:=Option.isSome_iff_exists.1 (h r List.mem_cons_self)
  obtain ⟨-,c,hentry⟩:=fileAt_eq_some.1 hp
  obtain ⟨c₁,-,hlstat⟩:=fileAt_content hp
  have hat:=@fileAt_update _ _ _ r.2 hentry
  have hwrite:overwrite s.files r.1 r.2=some (Function.update s.files p (some (.file r.2))):=by
   rw [overwrite,hlstat]
  obtain ⟨files,hrest,hq⟩:=ih (s := { s with files:=Function.update s.files p (some (.file r.2)) })
   fun r' hr' =>by
    simpa only [hat] using h r' (List.mem_cons_of_mem _ hr')
  simp only [hat] at hq
  refine ⟨files,?_,fun q=>⟨fun hnone=>?_,fun before r' after hsplit hplace hlast=>?_⟩⟩
  · rw [writeResults,hwrite]
    exact hrest
  · rw [(hq q).1 fun r' hr' =>hnone r' (List.mem_cons_of_mem _ hr')]
    apply Function.update_of_ne
    rintro rfl
    exact hnone r List.mem_cons_self hp
  · cases before with
    | nil=>
     obtain ⟨rfl,rfl⟩:=List.cons.inj hsplit
     rw [(hq q).1 hlast,←Option.some.inj (hp.symm.trans hplace),Function.update_self]
    | cons first before=>
     exact (hq q).2 before r' after (List.cons.inj hsplit).2 hplace hlast

def uris (edits:List TextEdit) : List Text := (edits.map TextEdit.uri).eraseDups

def under (edits:List TextEdit) (uri:Text) : List TextEdit := edits.filter fun e=>e.uri=uri

def place (host:Host) (s:State) (uri:Text) : Option (List String) :=
 (s.pathForUri host uri).bind (fileAt s.files)

def editsOf (host:Host) (edits:List TextEdit) (s:State) (p:List String) : List TextEdit :=
 edits.filter fun e=>place host s e.uri=some p

/-- The agent may write each file of the list, and read it. -/
def Editable (host:Host) (edits:List TextEdit) (s:State) : Prop :=
 ∀ i uri, (uris edits)[i]? = some uri → ∃ path, s.pathForUri host uri=some path ∧
  s.assertWritable (host.fence i) path false=true ∧ (s.readFile path).isSome

def resultOf (host:Host) (edits:List TextEdit) (s:State) (uri:Text) : Option (Path × Text) :=
 (s.pathForUri host uri).bind fun path=>
  (s.readFile path).bind fun text=>(edited text (under edits uri)).map (path,·)

theorem editResults_eq_some_iff {i:ℕ} {us:List Text} {results:List (Path × Text)} :
  editResults host edits s i us=some results ↔
   (∀ k uri, us[k]? = some uri → ∀ path, s.pathForUri host uri=some path →
    s.assertWritable (host.fence (i+k)) path false=true) ∧
   us.map (resultOf host edits s)=results.map some := by
 induction us generalizing i results with
 | nil=>
  rw [editResults]
  cases results <;> simp
 | cons uri us ih=>
  have hindex:(∀ k uri', (uri::us)[k]? = some uri' → ∀ path, s.pathForUri host uri' = some path →
    s.assertWritable (host.fence (i+k)) path false=true) ↔
    (∀ path, s.pathForUri host uri=some path →
     s.assertWritable (host.fence i) path false=true) ∧
    ∀ k uri', us[k]? = some uri' → ∀ path, s.pathForUri host uri' = some path →
     s.assertWritable (host.fence (i+1+k)) path false=true := by
   constructor
   · intro h
     refine ⟨h 0 uri rfl,fun k uri' hk=>?_⟩
     rw [Nat.add_assoc,Nat.add_comm 1 k]
     exact h (k+1) uri' hk
   · rintro ⟨hfirst,hlater⟩ k uri' hk
     cases k with
     | zero=>exact Option.some.inj hk ▸ hfirst
     | succ k=>
      rw [Nat.add_comm k 1,←Nat.add_assoc]
      exact hlater k uri' hk
  rw [hindex,editResults,List.map_cons,resultOf]
  cases hpath:s.pathForUri host uri with
  | none=>cases results <;> simp
  | some path=>
   dsimp only [Option.bind_some]
   by_cases hwritable:s.assertWritable (host.fence i) path false=true
   · rw [if_pos hwritable]
     cases htext:s.readFile path with
     | none=>cases results <;> simp
     | some text=>
      dsimp only [Option.bind_some]
      have hunder:edits.filter (fun e=>e.uri=uri)=under edits uri:=rfl
      rw [hunder]
      cases edited text (under edits uri) with
      | none=>cases results <;> simp
      | some text' =>
       have htail:=fun rest=>@ih (i+1) rest
       cases results with
       | nil=>cases editResults host edits s (i+1) us <;> simp
       | cons r results=>
        have hrest:=htail results
        cases heq:editResults host edits s (i+1) us with
        | none=>
         rw [heq] at hrest
         simp_all
        | some rest=>
         rw [heq,Option.some.injEq] at hrest
         simp only [Option.some.injEq,List.cons.injEq,List.map_cons,hrest]
         simp [hwritable,and_left_comm]
   · simp [hwritable]

theorem readFile_fileAt {path:Path} {text:Text} (h:s.readFile path=some text) :
  ∃ p, fileAt s.files path=some p ∧ s.files p=some (.file text) := by
 unfold readFile at h
 split at h
 · rename_i p content _ hlstat
   split at h
   · cases h
   · cases h
     have hp:fileAt s.files path=some p:=by rw [fileAt,hlstat]
     obtain ⟨c,hfiles,hlstat'⟩:=fileAt_content hp
     cases hlstat.symm.trans hlstat'
     exact ⟨p,hp,hfiles⟩
 · cases h

theorem mem_uris {uri:Text} : uri ∈ uris edits ↔ ∃ e ∈ edits, e.uri=uri := by
 rw [uris,List.mem_eraseDups,List.mem_map]

theorem Editable.document (h:Editable host edits s) {uri:Text} (huri:uri ∈ uris edits) :
  ∃ path p text, s.pathForUri host uri=some path ∧ s.readFile path=some text ∧
   place host s uri=some p ∧ s.files p=some (.file text) := by
 obtain ⟨i,hi⟩:=List.mem_iff_getElem?.1 huri
 obtain ⟨path,hpath,-,hread⟩:=h i uri hi
 obtain ⟨text,htext⟩:=Option.isSome_iff_exists.1 hread
 obtain ⟨p,hp,hfile⟩:=readFile_fileAt htext
 exact ⟨path,p,text,hpath,htext,by rw [place,hpath]; exact hp,hfile⟩

def EachEdited (host:Host) (edits:List TextEdit) (s:State) : Prop :=
 ∀ uri ∈ uris edits, ∀ p text, place host s uri=some p → s.files p=some (.file text) →
  Separate text (under edits uri) ∧ NoInsertionBefore (under edits uri)

theorem map_eq_filterMap {α β:Type} {f:α → Option β} {l:List α}
  (h:∀ a ∈ l, (f a).isSome) : l.map f=(l.filterMap f).map some := by
 induction l with
 | nil=>rfl
 | cons a l ih=>
  obtain ⟨b,hb⟩:=Option.isSome_iff_exists.1 (h a List.mem_cons_self)
  rw [List.map_cons,List.filterMap_cons_some hb,List.map_cons,hb,
   ih fun a' ha' =>h a' (List.mem_cons_of_mem _ ha')]

theorem resultOf_eq (h:Editable host edits s) (heach:EachEdited host edits s) {uri:Text}
  (huri:uri ∈ uris edits) : ∃ path p text, s.files p=some (.file text) ∧
   fileAt s.files path=some p ∧ place host s uri=some p ∧
   resultOf host edits s uri=some (path,replaced text (under edits uri).reverse) := by
 obtain ⟨path,p,text,hpath,htext,hplace,hfile⟩:=h.document huri
 have ⟨hseparate,hfirst⟩:=heach uri huri p text hplace hfile
 refine ⟨path,p,text,hfile,?_,hplace,?_⟩
 · rwa [place,hpath] at hplace
 · rw [resultOf,hpath,Option.bind_some,htext,Option.bind_some,
    edited_eq_some_iff.2 ⟨hseparate,hfirst,rfl⟩]
   rfl

theorem applyEdits_failed (h:¬(Editable host edits s ∧ EachEdited host edits s)) :
  applyEdits host edits s=(s,.failed) := by
 have hnone:editResults host edits s 0 (uris edits)=none:=by
  rw [Option.eq_none_iff_forall_ne_some]
  intro results hresults
  obtain ⟨hwritable,hmap⟩:=editResults_eq_some_iff.1 hresults
  have hsome:∀ (i:ℕ) uri, (uris edits)[i]? = some uri → (resultOf host edits s uri).isSome:=by
   intro i uri hi
   have hat:=congrArg (·[i]?) hmap
   simp only [List.getElem?_map,hi,Option.map_some] at hat
   cases hr:results[i]? with
   | none=>simp [hr] at hat
   | some r=>
    rw [hr] at hat
    rw [Option.some.inj hat]
    rfl
  apply h
  constructor
  · intro i uri hi
    have:=hsome i uri hi
    unfold resultOf at this
    cases hpath:s.pathForUri host uri with
    | none=>simp [hpath] at this
    | some path=>
     refine ⟨path,rfl,?_,?_⟩
     · simpa using hwritable i uri hi path hpath
     · cases htext:s.readFile path with
       | none=>simp [hpath,htext] at this
       | some text=>rfl
  · intro uri huri p text hplace hfile
    obtain ⟨i,hi⟩:=List.mem_iff_getElem?.1 huri
    obtain ⟨r,hr⟩:=Option.isSome_iff_exists.1 (hsome i uri hi)
    rw [resultOf,Option.bind_eq_some_iff] at hr
    obtain ⟨path,hpath,hr⟩:=hr
    obtain ⟨text',htext,hr⟩:=Option.bind_eq_some_iff.1 hr
    obtain ⟨result,hedited,-⟩:=Option.map_eq_some_iff.1 hr
    obtain ⟨p',hp',hfile'⟩:=readFile_fileAt htext
    rw [place,hpath,Option.bind_some,hp'] at hplace
    cases hplace
    cases hfile.symm.trans hfile'
    have:=edited_eq_some_iff.1 hedited
    exact ⟨this.1,this.2.1⟩
 rw [uris] at hnone
 rw [applyEdits,hnone]

theorem applyEdits_done (h:Editable host edits s) (heach:EachEdited host edits s) :
  ∃ files, applyEdits host edits s=({ s with files },.done) ∧
   ∀ q, ((∀ uri ∈ uris edits, place host s uri ≠ some q) → files q=s.files q) ∧
    ∀ before uri after, uris edits=before ++ uri::after → place host s uri=some q →
     (∀ u ∈ after, place host s u ≠ some q) → ∀ text, s.files q=some (.file text) →
      files q=some (.file (replaced text (under edits uri).reverse)) := by
 have hresult:=fun uri huri=>@resultOf_eq _ _ _ h heach uri huri
 have hplace:∀ uri ∈ uris edits, ∀ r, resultOf host edits s uri=some r →
   place host s uri=fileAt s.files r.1 ∧ (fileAt s.files r.1).isSome := by
  intro uri huri r hr
  obtain ⟨path,p,text,-,hat,hplace,heq⟩:=hresult uri huri
  cases hr.symm.trans heq
  exact ⟨hplace.trans hat.symm,by rw [hat]; rfl⟩
 have hsome:editResults host edits s 0 (uris edits) =
   some ((uris edits).filterMap (resultOf host edits s)) := by
  rw [editResults_eq_some_iff]
  constructor
  · intro k uri hk path hpath
    obtain ⟨path',hpath',hwritable,-⟩:=h k uri hk
    cases hpath.symm.trans hpath'
    simpa using hwritable
  · apply map_eq_filterMap
    intro uri huri
    obtain ⟨path,p,text,-,-,-,heq⟩:=hresult uri huri
    rw [heq]
    rfl
 obtain ⟨files,hwrite,hfiles⟩:=@writeResults_eq s
  ((uris edits).filterMap (resultOf host edits s)) fun r hr=>by
   obtain ⟨uri,huri,heq⟩:=List.mem_filterMap.1 hr
   exact (hplace uri huri r heq).2
 refine ⟨files,?_,fun q=>⟨fun hnone=>(hfiles q).1 fun r hr=>?_,?_⟩⟩
 · rw [uris] at hsome
   rw [applyEdits,hsome]
   exact hwrite
 · obtain ⟨uri,huri,heq⟩:=List.mem_filterMap.1 hr
   rw [←(hplace uri huri r heq).1]
   exact hnone uri huri
 · intro before uri after hsplit hq hlast text htext
   have hmem:∀ u ∈ uri::after, u ∈ uris edits:=fun u hu=>by
    rw [hsplit]
    exact List.mem_append_right _ hu
   obtain ⟨path,p,text',hfile,hat,hplace',heq⟩:=hresult uri (hmem uri List.mem_cons_self)
   cases hq.symm.trans hplace'
   cases htext.symm.trans hfile
   refine (hfiles q).2 (before.filterMap (resultOf host edits s))
    (path,replaced text (under edits uri).reverse)
    (after.filterMap (resultOf host edits s)) ?_ hat ?_
   · rw [hsplit,List.filterMap_append,List.filterMap_cons_some heq]
   · intro r' hr'
     obtain ⟨u,hu,heq'⟩:=List.mem_filterMap.1 hr'
     rw [←(hplace u (hmem u (List.mem_cons_of_mem _ hu)) r' heq').1]
     exact hlast u hu

/-! ### All at once, or nothing -/

def AllSeparate (host:Host) (edits:List TextEdit) (s:State) : Prop :=
 ∀ p text, s.files p=some (.file text) → Separate text (editsOf host edits s p)

def replacedFiles (host:Host) (edits:List TextEdit) (s:State) : Files := fun p=>
 match s.files p with
 | some (.file text)=>some (.file (replaced text (editsOf host edits s p)))
 | entry=>entry

/-- Every file has all its ranges replaced at once, or nothing is done. -/
structure AllAtOnce (host:Host) (edits:List TextEdit) (s:State) : Prop where
 done : Editable host edits s → AllSeparate host edits s →
  applyEdits host edits s=({ s with files:=replacedFiles host edits s },.done)
 failed : ¬(Editable host edits s ∧ AllSeparate host edits s) →
  applyEdits host edits s=(s,.failed)

def LastUri (host:Host) (edits:List TextEdit) (s:State) (p:List String) (uri:Text) : Prop :=
 ∃ before after, uris edits=before ++ uri::after ∧ place host s uri=some p ∧
  ∀ u ∈ after, place host s u ≠ some p

/-- A file has one URI, under which the insertions at each offset read the same in reverse; or it
has several, and the last of them, read in reverse, says what all say. -/
def SameText (host:Host) (edits:List TextEdit) (s:State) (p:List String) (text:Text) :
  Prop :=
 if ∀ e ∈ editsOf host edits s p, ∀ e' ∈ editsOf host edits s p, e.uri=e'.uri then
  ∀ o, insertedAt (editsOf host edits s p).reverse o=insertedAt (editsOf host edits s p) o
 else ∀ uri, LastUri host edits s p uri →
  replaced text (under edits uri).reverse=replaced text (editsOf host edits s p)

structure Unambiguous (host:Host) (edits:List TextEdit) (s:State) : Prop where
 /-- No insertion is listed before a range that starts where it is. -/
 order : AllSeparate host edits s → ∀ uri ∈ uris edits, NoInsertionBefore (under edits uri)
 text : AllSeparate host edits s → ∀ p text, s.files p=some (.file text) →
  SameText host edits s p text
 /-- An overlap is seen under one URI. -/
 seen : ¬AllSeparate host edits s → ¬EachEdited host edits s

theorem under_sublist {uri:Text} (hplace:place host s uri=some p) :
  (under edits uri).Sublist (editsOf host edits s p) := by
 have heq:under edits uri=(editsOf host edits s p).filter fun e=>e.uri=uri:=by
  rw [editsOf,List.filter_filter,under]
  refine List.filter_congr fun e _=>?_
  by_cases he:e.uri=uri
  · simp [he,hplace]
  · simp [he]
 rw [heq]
 exact List.filter_sublist

theorem Separate.sublist {edits' : List TextEdit} (h:Separate text edits)
  (hsub:edits'.Sublist edits) : Separate text edits' :=
 ⟨fun e he=>h.inText e (hsub.subset he),h.apart.sublist hsub⟩

theorem eachEdited (hall:AllSeparate host edits s)
  (hfirst:∀ uri ∈ uris edits, NoInsertionBefore (under edits uri)) : EachEdited host edits s :=
 fun uri huri p text hplace hfile=>
  ⟨(hall p text hfile).sublist (under_sublist hplace),hfirst uri huri⟩

theorem exists_last {α:Type} {P:α → Prop} {l:List α} (h:∃ a ∈ l, P a) :
  ∃ before a after, l=before ++ a::after ∧ P a ∧ ∀ b ∈ after, ¬P b := by
 induction l with
 | nil=>simp at h
 | cons a l ih=>
  by_cases hl:∃ b ∈ l, P b
  · obtain ⟨before,b,after,rfl,hb⟩:=ih hl
    exact ⟨a::before,b,after,rfl,hb⟩
  · have ha:P a:=by
     obtain ⟨b,hb,hP⟩:=h
     rcases List.mem_cons.1 hb with rfl | hb
     · exact hP
     · exact absurd ⟨b,hb,hP⟩ hl
    exact ⟨[],a,l,rfl,ha,fun b hb hP=>hl ⟨b,hb,hP⟩⟩

theorem lastUri_exists (he:e ∈ editsOf host edits s p) : ∃ uri, LastUri host edits s p uri := by
 have hmem:=List.mem_filter.1 he
 obtain ⟨before,uri,after,hsplit,huri,hlast⟩:=
  exists_last (P := fun uri=>place host s uri=some p)
   ⟨e.uri,mem_uris.2 ⟨e,hmem.1,rfl⟩,by simpa using hmem.2⟩
 exact ⟨uri,before,after,hsplit,huri,hlast⟩

theorem LastUri.mem {uri:Text} (h:LastUri host edits s p uri) : uri ∈ uris edits := by
 obtain ⟨before,after,hsplit,-⟩:=h
 rw [hsplit]
 exact List.mem_append_right _ List.mem_cons_self

theorem sameText_iff {text:Text} (hall:Separate text (editsOf host edits s p)) :
  SameText host edits s p text ↔ ∀ uri, LastUri host edits s p uri →
   replaced text (under edits uri).reverse=replaced text (editsOf host edits s p) := by
 by_cases hone:∀ e ∈ editsOf host edits s p, ∀ e' ∈ editsOf host edits s p, e.uri=e'.uri
 · have hunder:∀ uri, LastUri host edits s p uri → under edits uri=editsOf host edits s p:=by
    intro uri hlast
    obtain ⟨e,he,rfl⟩:=mem_uris.1 hlast.mem
    obtain ⟨-,-,-,hplace,-⟩:=hlast
    refine List.filter_congr fun e' he' =>?_
    rw [decide_eq_decide]
    constructor
    · intro heq
      rwa [heq]
    · intro heq
      exact hone e' (List.mem_filter.2 ⟨he',by simpa using heq⟩) e
       (List.mem_filter.2 ⟨he,by simpa using hplace⟩)
   rw [SameText,if_pos hone,←replaced_reverse_iff hall]
   constructor
   · intro heq uri hlast
     rwa [hunder uri hlast]
   · intro heq
     cases hedits:editsOf host edits s p with
     | nil=>rfl
     | cons e rest=>
      obtain ⟨uri,hlast⟩:=lastUri_exists (e := e) (by rw [hedits]; exact List.mem_cons_self)
      rw [←hedits,←heq uri hlast,hunder uri hlast]
 · rw [SameText,if_neg hone]

theorem replacedFiles_file {text:Text} (h:s.files p=some (.file text)) :
  replacedFiles host edits s p=some (.file (replaced text (editsOf host edits s p))) := by
 rw [replacedFiles,h]

theorem replacedFiles_other (h:∀ uri ∈ uris edits, place host s uri ≠ some p) :
  replacedFiles host edits s p=s.files p := by
 have hnil:editsOf host edits s p=[]:=
  List.filter_eq_nil_iff.2 fun e he=>by simpa using h e.uri (mem_uris.2 ⟨e,he,rfl⟩)
 unfold replacedFiles
 split
 · rename_i text hfile
   rw [hnil,replaced_nil,hfile]
 · rfl

theorem AllAtOnce.unambiguous (h:AllAtOnce host edits s) (hedit:Editable host edits s) :
  Unambiguous host edits s := by
 have hdone:AllSeparate host edits s → EachEdited host edits s:=by
  intro hall
  by_contra heach
  have hfailed:=applyEdits_failed fun hboth=>heach hboth.2
  rw [h.done hedit hall] at hfailed
  have houtput:=congrArg Prod.snd hfailed
  cases houtput
 refine ⟨fun hall uri huri=>?_,fun hall p text hfile=>?_,fun hall heach=>?_⟩
 · obtain ⟨path,p,text,-,-,hplace,hfile⟩:=hedit.document huri
   exact (hdone hall uri huri p text hplace hfile).2
 · rw [sameText_iff (hall p text hfile)]
   rintro uri ⟨before,after,hsplit,hplace,hlast⟩
   obtain ⟨files,heq,hfiles⟩:=applyEdits_done hedit (hdone hall)
   have hsame:=(h.done hedit hall).symm.trans heq
   have hq:=(hfiles p).2 before uri after hsplit hplace hlast text hfile
   have hreplaced:=@replacedFiles_file edits _ host _ _ hfile
   have hat:replacedFiles host edits s=files:=congrArg (State.files ∘ Prod.fst) hsame
   rw [hat,hq] at hreplaced
   simpa using hreplaced
 · obtain ⟨files,heq,-⟩:=applyEdits_done hedit heach
   rw [h.failed fun hboth=>hall hboth.2] at heq
   have houtput:=congrArg Prod.snd heq
   cases houtput

theorem Unambiguous.done (h:Unambiguous host edits s) (hedit:Editable host edits s)
  (hall:AllSeparate host edits s) :
  applyEdits host edits s=({ s with files:=replacedFiles host edits s },.done) := by
 obtain ⟨files,heq,hfiles⟩:=applyEdits_done hedit (eachEdited hall (h.order hall))
 have hsame:files=replacedFiles host edits s:=by
  funext q
  by_cases hsome:∃ uri ∈ uris edits, place host s uri=some q
  · obtain ⟨before,uri,after,hsplit,huri,hlast⟩:=exists_last hsome
    have hmem:uri ∈ uris edits:=by
     rw [hsplit]
     exact List.mem_append_right _ List.mem_cons_self
    obtain ⟨path,p,text,-,-,hplace,hfile⟩:=hedit.document hmem
    cases huri.symm.trans hplace
    rw [(hfiles q).2 before uri after hsplit huri hlast text hfile,replacedFiles_file hfile,
     (sameText_iff (hall q text hfile)).1 (h.text hall q text hfile) uri
      ⟨before,after,hsplit,huri,hlast⟩]
  · have hnone:∀ uri ∈ uris edits, place host s uri ≠ some q:=
     fun uri huri hq=>hsome ⟨uri,huri,hq⟩
    rw [(hfiles q).1 hnone,replacedFiles_other hnone]
 rw [heq,hsame]

theorem allAtOnce_iff :
  AllAtOnce host edits s ↔ (Editable host edits s → Unambiguous host edits s) := by
 constructor
 · exact fun h=>h.unambiguous
 · intro h
   refine ⟨fun hedit hall=>(h hedit).done hedit hall,fun hnot=>?_⟩
   refine applyEdits_failed fun ⟨hedit,heach⟩=>?_
   exact (h hedit).seen (fun hall=>hnot ⟨hedit,hall⟩) heach

end Files

def twice : State where
 root:=[]
 realRoot:=[]
 cwd:=[]
 turn:=none
 copied:=[]
 files:=fun p=>
  if p=["data"] then some .directory else if p=["data","a"] then some (.file ['x']) else none

def insertions : List TextEdit :=
 [⟨"/data/a".toList,0,0,['1']⟩,⟨"/data/a".toList,0,0,['2']⟩]

def anyHost : Host := ⟨fun _=>none,fun _=>true⟩

theorem insertions_editable : Editable anyHost insertions twice := by
 have huris:uris insertions=["/data/a".toList]:=by decide
 rintro i uri hi
 rw [huris] at hi
 cases i with
 | zero=>
  cases hi
  exact ⟨LinkedTree.steps ["data","a"],by decide,by decide,by decide⟩
 | succ i=>cases hi

theorem insertions_separate : AllSeparate anyHost insertions twice := by
 intro p text hfile
 have hp:p=["data","a"] ∧ text=['x']:=by
  simp only [twice] at hfile
  split at hfile
  · cases hfile
  · split at hfile
    · cases hfile
      exact ⟨by assumption,rfl⟩
    · cases hfile
 rw [hp.1,hp.2,show editsOf anyHost insertions twice ["data","a"]=insertions by rfl]
 refine ⟨fun e he=>?_,?_⟩
 · rcases List.mem_pair.1 he with rfl | rfl <;> exact ⟨by decide,by decide,by decide⟩
 · exact List.pairwise_pair.2 (.inl (by decide))

end L4Ide.WorkspaceEdits
