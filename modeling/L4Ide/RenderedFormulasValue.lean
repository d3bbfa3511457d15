import L4Ide.RenderedFormulas

set_option autoImplicit false

/-!
# The value of a rendered formula

Each operand is bracketed as far as its place asks, so a formula reads as an
expression of the same value.
-/
namespace L4Ide.RenderedFormulas
open Syntax ArithmeticNotation DecimalTexts

variable {r:ℚ} {t:Text} {a b e:Expr Resolved} {u v:List Char}

theorem readNumber_prettyRatio (host:Host) (hr:LiteralExact host (.lit (.numericLit r))) :
  readNumber (prettyRatio host r)=some r := by
 rw [prettyRatio]
 by_cases hden:r.den=1
 · rw [if_pos hden,readNumber_showInt,(Rat.den_eq_one_iff r).1 hden]
 · rw [if_neg hden,readNumber_formatScientific,hr.resolve_left hden]

theorem readNumber_groupedInt {t:List Char} (ht:groupedInt r=some t) :
  readNumber t=some r := by
 rw [groupedInt] at ht
 split at ht
 · rename_i hr
   cases ht
   rw [readNumber_groupInt,(Rat.den_eq_one_iff r).1 hr.1]
 · cases ht

theorem readNumber_numText (host:Host)
  (hr:LiteralExact host (.lit (.numericLit r))) : readNumber (numText host r)=some r := by
 rw [numText]
 cases hgroup:groupedInt r with
 | none=>exact readNumber_prettyRatio host hr
 | some t=>exact readNumber_groupedInt hgroup

@[simp] theorem arithSign_node (s:Sign) (a b:Expr Resolved) :
  arithSign (node s a b)=some s := by
 cases s <;> rfl

@[simp] theorem go_node (host:Host) (s:Sign) (a b:Expr Resolved) :
  go host (node s a b)=operation s a b (go host a) (go host b) := by
 cases s <;> rfl

@[simp] theorem value_node (σ:List Char → ℚ) (naming:Resolved → List Char) (s:Sign)
  (a b:Expr Resolved) :
  value σ naming (node s a b) =
   (value σ naming a).bind fun x=>(value σ naming b).bind fun y=>s.run x y := by
 cases s <;> rfl

theorem everywhere_node {p:Expr Resolved → Prop} {s:Sign}
  (h:Everywhere p (node s a b)) : Everywhere p a ∧ Everywhere p b := by
 cases s <;> exact h.2

def Shown (l:Level) (t:Text) (f:Formula Atom) : Prop := Phrase l (t.map Word.mark) f

theorem shown_bracketed {l:Level} {f:Formula Atom} (h:Shown l t f) :
  Shown .term (bracketed t) f := by
 have h' :=Phrase.bracketed h.sum
 simpa [Shown,bracketed,Word.mark] using h'

theorem mark_signWord (s:Sign) : (signWord s).mark = .sign s := by
 cases s <;> rfl

def formulaLevel (e:Expr Resolved) : Level :=
 match arithSign e with
 | some .plus | some .minus=>.sum
 | some .times | some .dividedBy=>.product false
 | some .modulo=>.product true
 | none=>.term

def formulaRank (e:Expr Resolved) : ℕ :=
 match arithSign e with
 | some s=>if s.tight then 2 else 1
 | none=>4

section Sides
variable {x:Expr Resolved} {t:Text} {f:Formula Atom}

theorem shown_besideSum (h:Shown (formulaLevel x) t f) :
  Shown .sum (besideSum x (wrap 1 (formulaRank x) t)) f := by
 have hwrap:wrap 1 (formulaRank x) t=t:=by
  rw [wrap,formulaRank]
  cases arithSign x with
  | none=>rfl
  | some s=>cases s <;> rfl
 rw [hwrap,besideSum]
 split
 · exact (shown_bracketed h).sum
 · exact h.sum

theorem shown_besideSum_strict (h:Shown (formulaLevel x) t f) :
  ∃ m, Shown (.product m) (besideSum x (wrap 2 (formulaRank x) t)) f := by
 rw [besideSum,formulaRank]
 rw [formulaLevel] at h
 cases hx:arithSign x with
 | none=>exact ⟨false,by rw [hx] at h; exact .factor false h⟩
 | some s=>
  rw [hx] at h
  cases s with
  | plus=>exact ⟨false,.factor false (shown_bracketed h)⟩
  | minus=>exact ⟨false,.factor false (shown_bracketed h)⟩
  | times=>exact ⟨false,h⟩
  | dividedBy=>exact ⟨false,h⟩
  | modulo=>exact ⟨false,.factor false (shown_bracketed h)⟩

theorem shown_side (isMod:Bool) (h:Shown (formulaLevel x) t f) :
  Shown (.product isMod) (side isMod x 2 (formulaRank x) t) f := by
 rw [side,mixesMod,formulaRank]
 rw [formulaLevel] at h
 cases hx:arithSign x with
 | none=>rw [hx] at h; exact .factor isMod h
 | some s=>
  rw [hx] at h
  cases s with
  | plus=>exact .factor isMod (shown_bracketed h)
  | minus=>exact .factor isMod (shown_bracketed h)
  | times=>
   cases isMod with
   | false=>exact h
   | true=>exact .factor true (shown_bracketed h)
  | dividedBy=>
   cases isMod with
   | false=>exact h
   | true=>exact .factor true (shown_bracketed h)
  | modulo=>
   cases isMod with
   | false=>exact .factor false (shown_bracketed h)
   | true=>exact h

theorem shown_side_strict (isMod:Bool) (h:Shown (formulaLevel x) t f) :
  Shown .term (side isMod x 3 (formulaRank x) t) f := by
 rw [side,mixesMod,formulaRank]
 rw [formulaLevel] at h
 cases hx:arithSign x with
 | none=>rw [hx] at h; exact h
 | some s=>
  rw [hx] at h
  cases s <;> cases isMod <;> exact shown_bracketed h

end Sides

theorem operation_shown (s:Sign) {ta tb:Text} {f g:Formula Atom}
  (ha:Shown (formulaLevel a) ta f) (hb:Shown (formulaLevel b) tb g) :
  ∃ t h, operation s a b (some (formulaRank a,ta)) (some (formulaRank b,tb)) =
    some (formulaRank (node s a b),t) ∧
   Shown (formulaLevel (node s a b)) t h ∧ h.Same (.sign s f g) := by
 cases s with
 | plus=>
  obtain ⟨h,hh,hsame⟩:=plus_sum (shown_besideSum ha) (shown_besideSum hb)
  exact ⟨_,h,rfl,by simpa [Shown,mark_signWord,formulaLevel] using hh,hsame⟩
 | minus=>
  obtain ⟨m,hm⟩:=shown_besideSum_strict hb
  have hh:=Phrase.plus .minus rfl (shown_besideSum ha) hm
  exact ⟨_,_,rfl,by simpa [Shown,mark_signWord,formulaLevel] using hh,fun v=>rfl⟩
 | times=>
  obtain ⟨h,hh,hsame⟩:=times_product (shown_side false ha) (shown_side false hb)
  exact ⟨_,h,rfl,by simpa [Shown,mark_signWord,formulaLevel] using hh,hsame⟩
 | dividedBy=>
  have hh:=Phrase.times .dividedBy rfl rfl (shown_side false ha) (shown_side_strict false hb)
  exact ⟨_,_,rfl,by simpa [Shown,mark_signWord,formulaLevel] using hh,fun v=>rfl⟩
 | modulo=>
  have hh:=Phrase.times .modulo rfl rfl (shown_side true ha) (shown_side_strict true hb)
  exact ⟨_,_,rfl,by simpa [Shown,mark_signWord,formulaLevel] using hh,fun v=>rfl⟩

theorem inertWord_shown (t:List Char) :
  ∃ a, Shown .term [inertWord t] (.leaf a) ∧
   ∀ σ, atomValue σ a=some ((readNumber t).getD (σ t)) := by
 cases ht:readNumber t with
 | none=>
  refine ⟨.name t, ?_,fun σ=>rfl⟩
  rw [Shown,inertWord,ht]
  exact .leaf _
 | some q=>
  refine ⟨.number t, ?_,fun σ=>ht⟩
  rw [Shown,inertWord,ht]
  exact .leaf _

theorem go_shown (host:Host) (he:Arithmetic e)
  (hp:Everywhere PercentOnTerm e) (hl:Everywhere (LiteralExact host) e) :
  ∃ t f, go host e=some (formulaRank e,t) ∧ Shown (formulaLevel e) t f ∧
   ∀ σ, f.value (atomValue σ)=value σ resolvedText e := by
 induction he with
 | @sign s a b _ _ iha ihb=>
  obtain ⟨ta,f,hga,hfa,hva⟩:=iha (everywhere_node hp).1 (everywhere_node hl).1
  obtain ⟨tb,g,hgb,hfb,hvb⟩:=ihb (everywhere_node hp).2 (everywhere_node hl).2
  obtain ⟨t,h,hop,hshown,hsame⟩:=operation_shown s hfa hfb
  refine ⟨t,h, ?_,hshown,fun σ=>?_⟩
  · rw [go_node,hga,hgb,hop]
  · rw [hsame,Formula.value,hva,hvb,value_node]
 | @percent a _ ih=>
  obtain ⟨t,f,hgo,hf,hv⟩:=ih hp.2 hl.2
  have hterm:arithSign a=none:=hp.1
  rw [formulaLevel,hterm] at hf
  refine ⟨t ++ [percentWord],.percent f, ?_, ?_,fun σ=>?_⟩
  · rw [go,hgo]
    rfl
  · have h' :=Phrase.percent hf
    change Phrase .term ((t ++ [percentWord]).map Word.mark) (.percent f)
    simpa [percentWord,Word.mark] using h'
  · rw [Formula.value,hv,value]
 | number r=>
  exact ⟨_,.leaf (.number (numText host r)),rfl,.leaf _,
   fun σ=>readNumber_numText host hl⟩
 | name n ty=>exact ⟨_,.leaf (.name (resolvedText n)),rfl,.leaf _,fun σ=>rfl⟩
 | phrase t ctx=>
  obtain ⟨a,hshown,hv⟩:=inertWord_shown t.toList
  exact ⟨_,.leaf a,rfl,hshown,hv⟩

theorem formulaText_value (host:Host) (he:Arithmetic e)
  (hp:Everywhere PercentOnTerm e) (hl:Everywhere (LiteralExact host) e)
  (ht:formulaText host e=some t) :
  ∃ f, readText t=some f ∧ ∀ σ, f.value (atomValue σ)=value σ resolvedText e := by
 obtain ⟨u,f,hgo,hf,hv⟩:=go_shown host he hp hl
 rw [formulaText,hgo] at ht
 split at ht
 · cases ht
   exact ⟨f,read_phrase hf.sum,hv⟩
 · cases ht

theorem balanced_append {d k:ℕ} (hu:balanced k u=true) :
  balanced (d+k) (u ++ v)=balanced d v := by
 induction u generalizing k with
 | nil=>
  have hk:k=0:=by simpa [balanced] using hu
  rw [hk]
  rfl
 | cons c cs ih=>
  rw [List.cons_append]
  simp only [balanced] at hu ⊢
  split at hu
  · rename_i hc
    rw [if_pos hc,←ih hu,Nat.add_assoc]
  · rename_i hc
    rw [if_neg hc]
    split at hu
    · rename_i hc'
      obtain ⟨hk,hcs⟩:=Bool.and_eq_true_iff.1 hu
      have hk:0 < k:=of_decide_eq_true hk
      rw [if_pos hc', ← ih hcs,decide_eq_true (by omega:0 < d+k),Bool.true_and]
      congr 1
      omega
    · rename_i hc'
      rw [if_neg hc', ih hu]

theorem balanced_short {k:ℕ} (hu:balanced (k+1) u=true) :
  balanced k (u ++ v)=false := by
 induction u generalizing k with
 | nil=>simp [balanced] at hu
 | cons c cs ih=>
  rw [List.cons_append]
  simp only [balanced] at hu ⊢
  split at hu
  · rename_i hc
    rw [if_pos hc,ih hu]
  · rename_i hc
    rw [if_neg hc]
    split at hu
    · rename_i hc'
      obtain ⟨-,hcs⟩:=Bool.and_eq_true_iff.1 hu
      rw [if_pos hc']
      cases k with
      | zero=>rfl
      | succ j=>simp [ih hcs]
    · rename_i hc'
      rw [if_neg hc', ih hu]

theorem balanced_both (hu:balanced 0 u=true) (hv:balanced 0 v=true) :
  balanced 0 (u ++ v)=true := by
 have h:=balanced_append (d := 0) (v := v) hu
 rw [Nat.add_zero] at h
 rw [h,hv]

theorem balanced_plain (hu:∀ c ∈ u, c ≠ '(' ∧ c ≠ ')') :
  balanced 0 u=true := by
 induction u with
 | nil=>rfl
 | cons c cs ih=>
  have hc:=hu c (List.mem_cons_self ..)
  simp [balanced,hc.1,hc.2,ih fun x hx=>hu x (List.mem_cons_of_mem _ hx)]

theorem spell_append (t u:Text) : spell (t ++ u)=spell t ++ spell u := List.flatMap_append

theorem spell_cons (w:Word) (t:Text) : spell (w::t)=w.text ++ spell t :=
 List.flatMap_cons

@[simp] theorem spell_nil : spell []=[] := rfl

theorem uncons_spell {rest:Text} {c:Char} (h:uncons t=some (c,rest)) :
  spell t=c::spell rest := by
 induction t with
 | nil=>cases h
 | cons w ws ih=>
  rw [uncons] at h
  rw [spell_cons]
  split at h
  · rename_i hw
    rw [hw,ih h,List.nil_append]
  · rename_i hw
    cases h
    rw [hw]
    rfl
  · rename_i _ hw
    cases h
    rw [hw,spell_cons]
    rfl

theorem unsnoc_spell {init:Text} {c:Char} (h:unsnoc t=some (init,c)) :
  spell t=spell init ++ [c] := by
 induction t generalizing init with
 | nil=>cases h
 | cons w ws ih=>
  rw [unsnoc] at h
  rw [spell_cons]
  split at h
  · rename_i hws
    cases h
    rw [ih hws,spell_cons,List.append_assoc]
  · rename_i hws
    have hnil:∀ {us:Text}, unsnoc us=none → spell us=[]:=by
     intro us
     induction us with
     | nil=>intro _; rfl
     | cons u us ihu=>
      intro hus
      rw [unsnoc] at hus
      split at hus
      · cases hus
      · rename_i hrest
        split at hus
        · rename_i hu
          rw [spell_cons,ihu hrest,List.reverse_eq_nil_iff.1 hu]
          rfl
        · cases hus
        · cases hus
    rw [hnil hws,List.append_nil]
    split at h
    · cases h
    · rename_i hw
      cases h
      rw [←List.reverse_reverse w.text,hw]
      rfl
    · rename_i _ hw
      cases h
      rw [←List.reverse_reverse w.text,hw,List.reverse_cons,spell_cons,spell_nil,
       List.append_nil]

theorem unbracketed_eq_self
  (h:∀ inner : List Char, spell t = '(' :: (inner ++ [')']) → balanced 0 inner=false) :
  unbracketed t=t := by
 rw [unbracketed]
 cases hu:uncons t with
 | none=>rfl
 | some p=>
  obtain ⟨c,rest⟩:=p
  cases hs:unsnoc rest with
  | none=>simp only [hs]
  | some q=>
   obtain ⟨inner,c'⟩:=q
   simp only [hs]
   refine if_neg ?_
   rintro ⟨rfl,rfl,hbalanced⟩
   have hspell:=h (spell inner) (by rw [uncons_spell hu,unsnoc_spell hs])
   rw [hspell] at hbalanced
   cases hbalanced

theorem unbracketed_of_split (ht:spell t=u ++ v)
  (hu:balanced 0 u=true) (hune:u ≠ []) (hvne:v ≠ []) : unbracketed t=t := by
 refine unbracketed_eq_self fun inner hinner=>?_
 obtain ⟨c,us,rfl⟩:=List.exists_cons_of_ne_nil hune
 obtain ⟨vs,x,rfl⟩ : ∃ vs x, v=vs ++ [x]:=⟨_,_,(List.dropLast_append_getLast hvne).symm⟩
 rw [ht,List.cons_append,←List.append_assoc] at hinner
 obtain ⟨hc,htail⟩:=List.cons.inj hinner
 have hinit:=(List.append_inj' htail rfl).1
 have hus:balanced 1 us=true:=by
  rw [hc] at hu
  simpa [balanced] using hu
 rw [←hinit]
 exact balanced_short hus

theorem unbracketed_of_head (h:(spell t).head? ≠ some '(') : unbracketed t=t :=
 unbracketed_eq_self fun inner hinner=>absurd (by rw [hinner]; rfl) h

theorem unbracketed_of_last (h:(spell t).getLast? ≠ some ')') :
  unbracketed t=t :=
 unbracketed_eq_self fun inner hinner=>by
  rw [hinner,←List.cons_append,List.getLast?_append_cons] at h
  exact absurd rfl h

theorem number_plain {t:List Char} {q:ℚ} (h:readNumber t=some q) :
  ∀ c ∈ t, c ≠ '(' ∧ c ≠ ')' := by
 intro c hc
 have hchars:=readNumber_chars h c hc
 constructor
 · rintro rfl
   exact absurd hchars (by decide)
 · rintro rfl
   exact absurd hchars (by decide)

theorem balanced_bracketed (ht:balanced 0 (spell t)=true) :
  balanced 0 (spell (bracketed t))=true := by
 have h:=balanced_append (d := 1) (v := [')']) ht
 rw [Nat.add_zero] at h
 rw [bracketed,spell_cons,spell_append]
 exact h

theorem balanced_wrap {p q:ℕ} (ht:balanced 0 (spell t)=true) :
  balanced 0 (spell (wrap p q t))=true := by
 rw [wrap]
 split
 · exact balanced_bracketed ht
 · exact ht

theorem balanced_besideSum {x:Expr Resolved} (ht:balanced 0 (spell t)=true) :
  balanced 0 (spell (besideSum x t))=true := by
 rw [besideSum]
 split
 · exact balanced_bracketed ht
 · exact ht

theorem balanced_side {m:Bool} {x:Expr Resolved} {q px:ℕ}
  (ht:balanced 0 (spell t)=true) : balanced 0 (spell (side m x q px t))=true := by
 rw [side]
 split
 · exact balanced_bracketed ht
 · exact balanced_wrap ht

theorem operation_split {s:Sign} {pa pb p:ℕ} {ta tb:Text}
  (ha:balanced 0 (spell ta)=true) (hb:balanced 0 (spell tb)=true)
  (h:operation s a b (some (pa,ta)) (some (pb,tb))=some (p,t)) :
  ∃ u v, t=u ++ signWord s::v ∧ balanced 0 (spell u)=true ∧
   balanced 0 (spell v)=true := by
 cases s with
 | plus=>
  cases h
  exact ⟨_,_,rfl,balanced_besideSum (balanced_wrap ha),balanced_besideSum (balanced_wrap hb)⟩
 | minus=>
  cases h
  exact ⟨_,_,rfl,balanced_besideSum (balanced_wrap ha),balanced_besideSum (balanced_wrap hb)⟩
 | times=>
  cases h
  exact ⟨_,_,rfl,balanced_side ha,balanced_side hb⟩
 | dividedBy=>
  cases h
  exact ⟨_,_,rfl,balanced_side ha,balanced_side hb⟩
 | modulo=>
  cases h
  exact ⟨_,_,rfl,balanced_side ha,balanced_side hb⟩

theorem balanced_sign (s:Sign) : balanced 0 (signWord s).text=true := by
 cases s <;> decide

theorem go_balanced (host:Host) (he:Arithmetic e)
  (hp:Everywhere PercentOnTerm e) (hl:Everywhere (LiteralExact host) e)
  (hb:Everywhere BracketsMatch e) :
  ∀ p t, go host e=some (p,t) → balanced 0 (spell t)=true := by
 induction he with
 | @sign s a b ha' hb' iha ihb=>
  intro p t h
  obtain ⟨ta,f,hga,-⟩:=go_shown host ha' (everywhere_node hp).1 (everywhere_node hl).1
  obtain ⟨tb,g,hgb,-⟩:=go_shown host hb' (everywhere_node hp).2 (everywhere_node hl).2
  have hta:=iha (everywhere_node hp).1 (everywhere_node hl).1 (everywhere_node hb).1 _ _ hga
  have htb:=ihb (everywhere_node hp).2 (everywhere_node hl).2 (everywhere_node hb).2 _ _ hgb
  rw [go_node,hga,hgb] at h
  obtain ⟨u,v,rfl,hu,hv⟩:=operation_split hta htb h
  rw [spell_append,spell_cons]
  exact balanced_both hu (balanced_both (balanced_sign s) hv)
 | @percent a ha' ih=>
  intro p t h
  obtain ⟨ta,f,hga,-⟩:=go_shown host ha' hp.2 hl.2
  rw [go,hga] at h
  cases h
  rw [spell_append]
  exact balanced_both (ih hp.2 hl.2 hb.2 _ _ hga) rfl
 | number r=>
  intro p t h
  cases h
  rw [spell_cons,spell_nil,List.append_nil]
  exact balanced_plain (number_plain (readNumber_numText host hl))
 | name n ty=>
  intro p t h
  cases h
  rw [spell_cons,spell_nil,List.append_nil]
  exact hb
 | phrase t' ctx=>
  intro p t h
  cases h
  rw [spell_cons,spell_nil,List.append_nil,inertWord]
  split <;> exact hb.1

theorem unbracketed_formula (host:Host) (he:Arithmetic e)
  (hp:Everywhere PercentOnTerm e) (hl:Everywhere (LiteralExact host) e)
  (hb:Everywhere BracketsMatch e) (ht:formulaText host e=some t) :
  unbracketed t=t := by
 rw [formulaText] at ht
 split at ht
 · rename_i hsign
   obtain ⟨⟨p,u⟩,hgo,rfl⟩:=Option.map_eq_some_iff.1 ht
   cases he with
   | @sign s a b ha' hb' =>
    obtain ⟨ta,f,hga,-⟩:=go_shown host ha' (everywhere_node hp).1 (everywhere_node hl).1
    obtain ⟨tb,g,hgb,-⟩:=go_shown host hb' (everywhere_node hp).2 (everywhere_node hl).2
    have hta:=go_balanced host ha' (everywhere_node hp).1 (everywhere_node hl).1
     (everywhere_node hb).1 _ _ hga
    have htb:=go_balanced host hb' (everywhere_node hp).2 (everywhere_node hl).2
     (everywhere_node hb).2 _ _ hgb
    rw [go_node,hga,hgb] at hgo
    obtain ⟨u', v,rfl,hu,hv⟩:=operation_split hta htb hgo
    obtain ⟨c,cs,hsplit,hc⟩ : ∃ c cs, (signWord s).text=[c] ++ cs ∧
      balanced 0 [c]=true ∧ cs ≠ [] := by
     cases s <;> exact ⟨' ',_,rfl,rfl,List.cons_ne_nil _ _⟩
    refine unbracketed_of_split (u := spell u' ++ [c]) (v := cs ++ spell v) ?_
     (balanced_both hu hc.1) (by simp) (by simp [hc.2])
    rw [spell_append,spell_cons,hsplit]
    simp
   | percent _=>cases hsign
   | number _=>cases hsign
   | name _ _=>cases hsign
   | phrase _ _=>cases hsign
 · cases ht

end L4Ide.RenderedFormulas
