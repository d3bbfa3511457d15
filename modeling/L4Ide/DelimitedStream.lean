import Mathlib.Data.List.Infix

set_option autoImplicit false

/-!
# Splitting a text as it arrives

A text is split at the leftmost matches of a delimiter. The pieces of what has arrived are the first
pieces of the whole text, and what is left over goes on with what arrives next.
-/
namespace L4Ide.DelimitedStream

section Splitting

variable {α:Type}

/-- Where the leftmost match begins, and its length; `m` gives the length of a match at the start. -/
def firstMatch (m:List α → Option ℕ) : List α → Option (ℕ × ℕ)
 | []=>none
 | a::text=>
  match m (a::text) with
  | some length=>some (0,length)
  | none=>(firstMatch m text).map fun found=>(found.1+1,found.2)

/-- More text changes no match, and begins none before a match that is already there. -/
structure Delimiter (m:List α → Option ℕ) : Prop where
 bounds : ∀ {text:List α} {length:ℕ}, m text=some length → 0 < length ∧ length ≤ text.length
 keeps : ∀ {text:List α} {length:ℕ} (more:List α), m text=some length →
  m (text ++ more)=some length
 late : ∀ {text more:List α}, m text=none → m (text ++ more) ≠ none → firstMatch m text=none

inductive Splits (m:List α → Option ℕ) : List α → List (List α) → List α → Prop
 | rest {text:List α} : firstMatch m text=none → Splits m text [] text
 | piece {text rest:List α} {pieces:List (List α)} {index length:ℕ} :
  firstMatch m text=some (index,length) → Splits m (text.drop (index+length)) pieces rest →
  Splits m text (text.take index::pieces) rest

variable {m:List α → Option ℕ}

namespace Delimiter

theorem firstMatch_bounds (h:Delimiter m) {text:List α} {index length:ℕ}
  (hfound:firstMatch m text=some (index,length)) :
  0 < length ∧ index+length ≤ text.length := by
 induction text generalizing index with
 | nil=>cases hfound
 | cons a text ih=>
  unfold firstMatch at hfound
  cases hmatch:m (a::text) with
  | some n=>
   simp only [hmatch,Option.some.injEq,Prod.mk.injEq] at hfound
   have hbounds:=h.bounds hmatch
   omega
  | none=>
   simp only [hmatch,Option.map_eq_some_iff,Prod.mk.injEq] at hfound
   have ⟨found,hrest,hindex,hlength⟩:=hfound
   have hfound' : firstMatch m text=some (found.1,length):=by rw [hrest,←hlength]
   have hbounds:=ih hfound'
   rw [List.length_cons]
   omega

theorem firstMatch_append (h:Delimiter m) {text:List α} {found:ℕ × ℕ}
  (hfound:firstMatch m text=some found) (more:List α) :
  firstMatch m (text ++ more)=some found := by
 induction text generalizing found with
 | nil=>cases hfound
 | cons a text ih=>
  have hcons:=hfound
  unfold firstMatch at hcons
  rw [List.cons_append]
  unfold firstMatch
  cases hmatch:m (a::text) with
  | some n=>
   have hkeeps:=h.keeps more hmatch
   rw [List.cons_append] at hkeeps
   simp only [hmatch] at hcons
   simp only [hkeeps]
   exact hcons
  | none=>
   have hnone:m (a::(text ++ more))=none:=by
    by_contra hne
    rw [h.late hmatch (by rwa [List.cons_append])] at hfound
    cases hfound
   simp only [hmatch,Option.map_eq_some_iff] at hcons
   have ⟨found', hrest,heq⟩:=hcons
   simp only [hnone,ih hrest,Option.map_some,heq]

end Delimiter

theorem firstMatch_eq_none_of_cut {pattern text more tail:List α}
  (heq:text ++ more=pattern ++ tail) (hmatch:∀ rest, m (pattern ++ rest) ≠ none)
  (hinits:∀ t ∈ pattern.inits, m t=none → firstMatch m t=none) (hnone:m text=none) :
  firstMatch m text=none := by
 have htext:text <+: pattern ++ tail:=⟨more,heq⟩
 cases List.prefix_or_prefix_of_prefix htext (List.prefix_append pattern tail) with
 | inl hle=>exact hinits text ((List.mem_inits _ _).mpr hle) hnone
 | inr hge=>
  have ⟨rest,hrest⟩:=hge
  exact absurd (hrest ▸ hnone) (hmatch rest)

namespace Splits

theorem unique {text rest rest' : List α} {pieces pieces' : List (List α)}
  (h:Splits m text pieces rest) (h' : Splits m text pieces' rest') :
  pieces=pieces' ∧ rest=rest' := by
 induction h generalizing pieces' rest' with
 | rest hnone=>
  cases h' with
  | rest=>exact ⟨rfl,rfl⟩
  | piece hfound=>simp [hnone] at hfound
 | piece hfound _ ih=>
  cases h' with
  | rest hnone=>simp [hnone] at hfound
  | piece hfound' hrest' =>
   rw [hfound,Option.some.injEq,Prod.mk.injEq] at hfound'
   have ⟨hindex,hlength⟩:=hfound'
   subst hindex hlength
   have ⟨hpieces,hrest⟩:=ih hrest'
   exact ⟨by rw [hpieces],hrest⟩

theorem firstMatch_rest {text rest:List α} {pieces:List (List α)} (h:Splits m text pieces rest) :
  firstMatch m rest=none := by
 induction h with
 | rest hnone=>exact hnone
 | piece _ _ ih=>exact ih

theorem append (h:Delimiter m) {text rest more rest' : List α} {pieces pieces' : List (List α)}
  (htext:Splits m text pieces rest) (hmore:Splits m (rest ++ more) pieces' rest') :
  Splits m (text ++ more) (pieces ++ pieces') rest' := by
 induction htext with
 | rest=>exact hmore
 | @piece text rest pieces index length hfound _ ih=>
  have hle:=(h.firstMatch_bounds hfound).2
  have htail:Splits m ((text ++ more).drop (index+length)) (pieces ++ pieces') rest' :=by
   rw [List.drop_append_of_le_length hle]
   exact ih hmore
  have hpiece:=Splits.piece (h.firstMatch_append hfound more) htail
  rw [List.take_append_of_le_length (by omega)] at hpiece
  exact hpiece

end Splits

/-- The pieces, found one after another; `fuel` bounds their number. -/
def split (m:List α → Option ℕ) : ℕ → List α → List (List α) × List α
 | 0, text=>([],text)
 | fuel+1, text=>
  match firstMatch m text with
  | none=>([],text)
  | some (index,length)=>
   let rest:=split m fuel (text.drop (index+length))
   (text.take index::rest.1,rest.2)

theorem splits_split (h:Delimiter m) {fuel:ℕ} {text:List α} (hfuel:text.length ≤ fuel) :
  Splits m text (split m fuel text).1 (split m fuel text).2 := by
 induction fuel generalizing text with
 | zero=>
  have hnil:text=[]:=List.length_eq_zero_iff.mp (Nat.le_zero.mp hfuel)
  subst hnil
  exact .rest rfl
 | succ fuel ih=>
  unfold split
  cases hfound:firstMatch m text with
  | none=>exact .rest hfound
  | some found=>
   have ⟨index,length⟩:=found
   have hbounds:=h.firstMatch_bounds hfound
   apply Splits.piece hfound
   apply ih
   rw [List.length_drop]
   omega

theorem prefix_of_append (h:Delimiter m) {text rest more whole:List α}
  {pieces pieces' : List (List α)} (htext:Splits m text pieces rest)
  (hwhole:Splits m (text ++ more) pieces' whole) : pieces <+: pieces' := by
 have hmore:=splits_split h (Nat.le_refl (rest ++ more).length)
 exact ⟨_,((htext.append h hmore).unique hwhole).1⟩

/-- Texts that each end with their first match are the pieces of their concatenation. -/
theorem splits_flatMap (h:Delimiter m) {ι:Type} (piece separator:ι → List α) (items:List ι)
  (hitems:∀ i ∈ items,
   firstMatch m (piece i ++ separator i)=some ((piece i).length,(separator i).length)) :
  Splits m (items.flatMap fun i=>piece i ++ separator i) (items.map piece) [] := by
 induction items with
 | nil=>exact .rest rfl
 | cons i items ih=>
  have hrest:=ih fun j hj=>hitems j (List.mem_cons_of_mem _ hj)
  have hfound:=h.firstMatch_append (hitems i List.mem_cons_self)
   (items.flatMap fun i=>piece i ++ separator i)
  have htail:(piece i ++ separator i ++ items.flatMap fun i=>piece i ++ separator i).drop
    ((piece i).length+(separator i).length)=items.flatMap fun i=>piece i ++ separator i :=
   List.drop_left' List.length_append
  have hpiece:=Splits.piece hfound (htail ▸ hrest)
  rw [List.append_assoc,List.take_left' rfl,←List.append_assoc] at hpiece
  exact hpiece

end Splitting

end L4Ide.DelimitedStream
