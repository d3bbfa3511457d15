import L4Ide.WorkspaceTools

set_option autoImplicit false

/-!
# Edits anchored by a text

Which occurrence of the old text an edit replaces, against the one that it is meant for.
-/
namespace L4Ide.AnchoredEdits
open WorkspaceTools

variable {needle text old new:Text} {crlf:Bool} {anchor o:ℕ}

def OccursAt (needle text:Text) (o:ℕ) : Prop := needle <+: text.drop o

theorem occursAt_drop {i j:ℕ} : OccursAt needle (text.drop i) j ↔ OccursAt needle text (i+j) := by
 rw [OccursAt,OccursAt,List.drop_drop]

theorem not_occursAt_nil (h:needle ≠ []) : ¬OccursAt needle [] o := by
 simpa [OccursAt] using h

theorem indexOf_some (h:indexOf needle text=some o) :
  OccursAt needle text o ∧ ∀ j < o, ¬OccursAt needle text j := by
 induction text generalizing o with
 | nil =>
  rw [indexOf] at h
  split at h
  · cases h
    subst needle
    exact ⟨List.nil_prefix,fun j hj=>absurd hj (Nat.not_lt_zero j)⟩
  · cases h
 | cons c rest ih =>
  rw [indexOf] at h
  split at h
  · rename_i hstarts
    cases h
    exact ⟨List.isPrefixOf_iff_prefix.1 hstarts,fun j hj=>absurd hj (Nat.not_lt_zero j)⟩
  · rename_i hstarts
    obtain ⟨k,hk,rfl⟩:=Option.map_eq_some_iff.1 h
    have ⟨hoccurs,hfirst⟩:=ih hk
    refine ⟨hoccurs,fun j hj=>?_⟩
    cases j with
    | zero=>exact fun h'=>hstarts (List.isPrefixOf_iff_prefix.2 h')
    | succ j=>exact hfirst j (by omega)

theorem indexOf_none (hneedle:needle ≠ []) (h:indexOf needle text=none) (o:ℕ) :
  ¬OccursAt needle text o := by
 induction text generalizing o with
 | nil=>
  intro h'
  rw [OccursAt,List.drop_nil] at h'
  exact hneedle (List.prefix_nil.1 h')
 | cons c rest ih =>
  rw [indexOf] at h
  split at h
  · cases h
  · rename_i hstarts
    cases o with
    | zero=>exact fun h'=>hstarts (List.isPrefixOf_iff_prefix.2 h')
    | succ o=>exact ih (Option.map_eq_none_iff.1 h) o

theorem indexOf_eq (hneedle:needle ≠ []) (hoccurs:OccursAt needle text o)
  (hfirst:∀ j < o, ¬OccursAt needle text j) : indexOf needle text=some o := by
 cases h:indexOf needle text with
 | none=>exact absurd hoccurs (indexOf_none hneedle h o)
 | some k =>
  have ⟨hk,hbefore⟩:=indexOf_some h
  rcases Nat.lt_trichotomy k o with hlt | rfl | hlt
  · exact absurd hk (hfirst k hlt)
  · rfl
  · exact absurd hoccurs (hbefore o hlt)

theorem countOccurrences_skip (skip:ℕ) (text:Text) :
  countOccurrences needle skip text=countOccurrences needle 0 (text.drop skip) := by
 induction text generalizing skip with
 | nil=>cases skip <;> simp [countOccurrences]
 | cons c rest ih =>
  cases skip with
  | zero=>rfl
  | succ skip=>exact ih skip

theorem countOccurrences_eq (h:needle ≠ []) (text:Text) :
  countOccurrences needle 0 text=(indexOf needle text).elim 0 fun k=>
   1+countOccurrences needle 0 (text.drop (k+needle.length)) := by
 induction text with
 | nil=>
  rw [indexOf,if_neg h]
  rfl
 | cons c rest ih =>
  rw [countOccurrences,indexOf]
  split
  · obtain ⟨n,hn⟩:=Nat.exists_eq_succ_of_ne_zero (List.length_pos_iff.2 h).ne'
    rw [countOccurrences_skip,hn]
    simp
  · rw [ih]
    cases indexOf needle rest with
    | none=>rfl
    | some k =>
     rw [Option.map_some,Option.elim_some,Option.elim_some,Nat.add_right_comm,List.drop_succ_cons]

theorem countOccurrences_one (h:needle ≠ []) :
  countOccurrences needle 0 text=1 ↔
   ∃ k, indexOf needle text=some k ∧ ∀ j, k+needle.length ≤ j → ¬OccursAt needle text j := by
 rw [countOccurrences_eq h]
 cases indexOf needle text with
 | none=>simp
 | some k =>
  rw [Option.elim_some]
  have hlater:countOccurrences needle 0 (text.drop (k+needle.length))=0 ↔
    ∀ j, k+needle.length ≤ j → ¬OccursAt needle text j := by
   rw [countOccurrences_eq h]
   cases hindex:indexOf needle (text.drop (k+needle.length)) with
   | none =>
    refine iff_of_true rfl fun j hj hoccurs=>indexOf_none h hindex (j-(k+needle.length)) ?_
    rwa [occursAt_drop,Nat.add_sub_cancel' hj]
   | some i =>
    refine iff_of_false (by simp) fun hnone=>hnone _ (Nat.le_add_right _ i) ?_
    exact occursAt_drop.1 (indexOf_some hindex).1
  simp only [Option.some.injEq,exists_eq_left',←hlater]
  omega

theorem takeWhile_length_mono {α:Type} {p q:α → Bool} (h:∀ a, p a=true → q a=true)
  (l:List α) : (l.takeWhile p).length ≤ (l.takeWhile q).length := by
 induction l with
 | nil=>simp
 | cons a l ih =>
  by_cases ha:p a=true
  · simpa [ha,h a ha] using ih
  · simp [ha]

theorem line_mono (text:Text) {i j:ℕ} (h:i ≤ j) :
  (positionAt text i).line ≤ (positionAt text j).line := by
 apply Nat.sub_le_sub_right
 apply takeWhile_length_mono
 simp only [decide_eq_true_eq]
 omega

theorem linesFrom_cr {start i:ℕ} {rest:Text} (h:∀ rest', rest ≠ '\n' :: rest') :
  linesFrom start i ('\r' :: rest)=(start,i)::linesFrom (i+1) (i+1) rest := by
 cases rest with
 | nil=>rfl
 | cons c rest =>
  rw [linesFrom]
  exact h

theorem linesFrom_other {start i:ℕ} {c:Char} (hcr:c ≠ '\r') (hlf:c ≠ '\n') (rest:Text) :
  linesFrom start i (c::rest)=linesFrom start (i+1) rest := by
 rw [linesFrom] <;> simp [hcr,hlf]

theorem linesFrom_newline (a rest:Text) (start i:ℕ) (h:start ≤ i) :
  ∃ l, l ≠ [] ∧ (∀ line ∈ l, line.1 ≤ i+a.length) ∧
   linesFrom start i (a ++ '\n' :: rest) =
    l ++ linesFrom (i+a.length+1) (i+a.length+1) rest := by
 induction hn:a.length using Nat.strong_induction_on generalizing a start i with
 | _ n ih =>
  subst hn
  cases a with
  | nil=>exact ⟨[(start,i)],by simp,by simpa using h,rfl⟩
  | cons c a =>
   rw [List.cons_append,List.length_cons]
   by_cases hlf:c = '\n'
   · obtain ⟨l,-,hl,heq⟩:=ih a.length (Nat.lt_succ_self _) a (i+1) (i+1) (Nat.le_refl _) rfl
     refine ⟨(start,i)::l,by simp,?_,?_⟩
     · rintro line (_ | ⟨_,hline⟩)
       · exact h.trans (Nat.le_add_right _ _)
       · have:=hl line hline
         omega
     · rw [hlf,linesFrom,heq,List.cons_append]
       simp only [Nat.add_assoc,Nat.add_comm 1]
   by_cases hcr:c = '\r'
   · rw [hcr]
     cases a with
     | nil=>exact ⟨[(start,i)],by simp,by simpa using Nat.le_succ_of_le h,rfl⟩
     | cons d a =>
      by_cases hd:d = '\n'
      · obtain ⟨l,-,hl,heq⟩:=ih a.length (by simp only [List.length_cons]; omega) a (i+2) (i+2) (Nat.le_refl _) rfl
        refine ⟨(start,i)::l,by simp,?_,?_⟩
        · rintro line (_ | ⟨_,hline⟩)
          · exact h.trans (Nat.le_add_right _ _)
          · have:=hl line hline
            simp only [List.length_cons]
            omega
        · have hat:i+((d::a).length+1)+1=i+2+a.length+1:=by
           rw [List.length_cons]
           omega
          rw [hat,hd,List.cons_append,linesFrom,heq,List.cons_append]
      · obtain ⟨l,-,hl,heq⟩ :=
         ih (d::a).length (Nat.lt_succ_self _) (d::a) (i+1) (i+1) (Nat.le_refl _) rfl
        refine ⟨(start,i)::l,by simp,?_,?_⟩
        · rintro line (_ | ⟨_,hline⟩)
          · exact h.trans (Nat.le_add_right _ _)
          · have:=hl line hline
            omega
        · have hat:i+((d::a).length+1)+1=i+1+(d::a).length+1:=by omega
          rw [hat,linesFrom_cr (by simp [hd]),heq,List.cons_append]
   · obtain ⟨l,hne,hl,heq⟩ :=
      ih a.length (Nat.lt_succ_self _) a start (i+1) (Nat.le_succ_of_le h) rfl
     refine ⟨l,hne,fun line hline=>?_,?_⟩
     · have:=hl line hline
       omega
     · rw [linesFrom_other hcr hlf,heq]
       simp only [Nat.add_assoc,Nat.add_comm 1]

theorem linesFrom_head (start i:ℕ) (text:Text) :
  ∃ stop rest, linesFrom start i text=(start,stop)::rest := by
 induction text generalizing i with
 | nil=>exact ⟨i,[],rfl⟩
 | cons c text ih =>
  by_cases hlf:c = '\n'
  · exact ⟨i,_,by rw [hlf,linesFrom]⟩
  by_cases hcr:c = '\r'
  · rw [hcr]
    cases text with
    | nil=>exact ⟨i,_,rfl⟩
    | cons d text =>
     by_cases hd:d = '\n'
     · exact ⟨i,_,by rw [hd,linesFrom]⟩
     · exact ⟨i,_,linesFrom_cr (by simp [hd])⟩
  · rw [linesFrom_other hcr hlf]
    exact ih (i+1)

theorem takeWhile_lines {n S c:ℕ} (h:afterLines (eol crlf) n text=some S) {start i:ℕ}
  (hstart:start ≤ i) (hc:i+S ≤ c) :
  n+1 ≤ ((linesFrom start i text).takeWhile fun line=>line.1 ≤ c).length := by
 induction n generalizing text S start i with
 | zero =>
  obtain ⟨stop,rest,heq⟩:=linesFrom_head start i text
  have hle:start ≤ c:=by omega
  simp [heq,hle]
 | succ n ih =>
  rw [afterLines] at h
  cases hk:indexOf (eol crlf) text with
  | none=>simp [hk] at h
  | some k =>
   rw [hk] at h
   obtain ⟨S',hS',rfl⟩:=Option.map_eq_some_iff.1 h
   obtain ⟨tail,htail⟩:=(indexOf_some hk).1
   have hrest:text.drop (k+(eol crlf).length)=tail:=by
    rw [←List.drop_drop,←htail,List.drop_left]
   have hk' : (text.take k).length=k := by
    have hne:text.drop k ≠ []:=by
     rw [←htail]
     cases crlf <;> simp [eol]
    rw [List.length_take]
    have:=List.drop_eq_nil_iff.not.1 hne
    omega
   obtain ⟨a,ha,heq⟩ : ∃ a, a.length+1=k+(eol crlf).length ∧ text=a ++ '\n' :: tail := by
    refine ⟨text.take k ++ (eol crlf).dropLast,?_,?_⟩
    · cases crlf <;> simp [eol,hk']
    · conv_lhs=>rw [←List.take_append_drop k text,←htail]
      cases crlf <;> simp [eol]
   obtain ⟨l,hne,hl,hlines⟩:=linesFrom_newline a tail start i hstart
   rw [hrest] at hS'
   have hlater:=ih hS' (Nat.le_refl (i+a.length+1)) (by omega)
   rw [heq,hlines,List.takeWhile_append_of_pos,List.length_append]
   · have:=List.length_pos_iff.2 hne
     omega
   · intro line hline
     have:=hl line hline
     exact decide_eq_true (by omega)

theorem line_of_afterLines {n S:ℕ} (h:afterLines (eol crlf) n text=some S) (hS:S ≤ o)
  (ho:o ≤ text.length) : n ≤ (positionAt text o).line := by
 have hlines:=takeWhile_lines (c := min o text.length) h (Nat.le_refl 0) (by omega)
 exact Nat.le_sub_of_add_le hlines

/-- Where an edit finds its text. -/
def found (crlf:Bool) (text old:Text) (anchor:ℕ) : Option ℕ :=
 match afterLines (eol crlf) anchor text with
 | none=>none
 | some offset =>
  if anchor=0 ∧ countOccurrences (withEol crlf old) 0 (text.drop offset) ≠ 1 then none
  else (indexOf (withEol crlf old) (text.drop offset)).map (offset + ·)

/-- The text with one range replaced. -/
def splice (crlf:Bool) (text old new:Text) (o:ℕ) : Text :=
 text.take o ++ withEol crlf new ++ text.drop (o+(withEol crlf old).length)

theorem replaced_eq (crlf:Bool) (text old new:Text) (anchor:ℕ) :
  replaced crlf text old new anchor =
   (found crlf text old anchor).map (splice crlf text old new) := by
 unfold replaced found
 cases afterLines (eol crlf) anchor text with
 | none=>rfl
 | some offset =>
  dsimp only
  split
  · rfl
  · rw [Option.map_map]
    rfl

/-- The only occurrence, or the first that starts on a line after the anchor. -/
def Intended (crlf:Bool) (text old:Text) (anchor o:ℕ) : Prop :=
 OccursAt (withEol crlf old) text o ∧
  if anchor=0 then ∀ o', OccursAt (withEol crlf old) text o' → o' = o
  else anchor ≤ (positionAt text o).line ∧
   ∀ o', OccursAt (withEol crlf old) text o' → anchor ≤ (positionAt text o').line → o ≤ o'

/-- With no anchor, a text that occurs again occurs after the end of its first occurrence. With one,
there is no occurrence on a later line before the document's own line endings have been counted, or
none after that. -/
def Clear (crlf:Bool) (text old:Text) (anchor:ℕ) : Prop :=
 if anchor=0 then ∀ o o', OccursAt (withEol crlf old) text o → OccursAt (withEol crlf old) text o' →
  o < o' → ∃ first later, (∀ j < first, ¬OccursAt (withEol crlf old) text j) ∧
   OccursAt (withEol crlf old) text first ∧ OccursAt (withEol crlf old) text later ∧
   first+(withEol crlf old).length ≤ later
 else ∀ S, afterLines (eol crlf) anchor text=some S →
  ∀ o o', OccursAt (withEol crlf old) text o → anchor ≤ (positionAt text o).line → o < S →
   OccursAt (withEol crlf old) text o' → o' < S

theorem withEol_ne_nil (h:old ≠ []) : withEol crlf old ≠ [] := by
 fun_cases withEol crlf old <;> cases crlf <;> simp_all [eol]

theorem OccursAt.lt (h:OccursAt needle text o) (hneedle:needle ≠ []) : o < text.length := by
 by_contra hlt
 rw [OccursAt,List.drop_eq_nil_of_le (by omega)] at h
 exact hneedle (List.prefix_nil.1 h)

theorem found_unanchored (h:old ≠ []) :
  found crlf text old 0=some o ↔ OccursAt (withEol crlf old) text o ∧
   (∀ j < o, ¬OccursAt (withEol crlf old) text j) ∧
   ∀ j, o+(withEol crlf old).length ≤ j → ¬OccursAt (withEol crlf old) text j := by
 have hneedle:=@withEol_ne_nil old crlf h
 rw [found,afterLines]
 dsimp only
 rw [List.drop_zero]
 constructor
 · intro hfound
   split at hfound
   · cases hfound
   · rename_i hcount
     obtain ⟨k,hk,rfl⟩:=Option.map_eq_some_iff.1 hfound
     rw [Nat.zero_add]
     simp only [true_and,ne_eq,not_not] at hcount
     obtain ⟨k',hk',hnone⟩:=(countOccurrences_one hneedle).1 hcount
     cases hk.symm.trans hk'
     exact ⟨(indexOf_some hk).1,(indexOf_some hk).2,hnone⟩
 · intro ⟨hoccurs,hfirst,hlater⟩
   have hindex:=indexOf_eq hneedle hoccurs hfirst
   rw [if_neg (by simpa using (countOccurrences_one hneedle).2 ⟨o,hindex,hlater⟩),hindex]
   simp

theorem found_anchored (h:old ≠ []) (hanchor:anchor ≠ 0) :
  found crlf text old anchor=some o ↔ ∃ S, afterLines (eol crlf) anchor text=some S ∧ S ≤ o ∧
   OccursAt (withEol crlf old) text o ∧
   ∀ j, S ≤ j → j < o → ¬OccursAt (withEol crlf old) text j := by
 have hneedle:=@withEol_ne_nil old crlf h
 unfold found
 cases hS:afterLines (eol crlf) anchor text with
 | none=>simp
 | some S =>
  dsimp only
  rw [if_neg (by simp [hanchor])]
  simp only [Option.some.injEq,exists_eq_left']
  constructor
  · intro hfound
    obtain ⟨k,hk,rfl⟩:=Option.map_eq_some_iff.1 hfound
    obtain ⟨hoccurs,hfirst⟩:=indexOf_some hk
    refine ⟨Nat.le_add_right _ _,occursAt_drop.1 hoccurs,fun j hj hlt h'=>?_⟩
    refine hfirst (j-S) (by omega) ?_
    rwa [occursAt_drop,Nat.add_sub_cancel' hj]
  · intro ⟨hle,hoccurs,hfirst⟩
    have hindex:indexOf (withEol crlf old) (text.drop S)=some (o-S):=by
     apply indexOf_eq hneedle
     · rwa [occursAt_drop,Nat.add_sub_cancel' hle]
     · intro j hj h'
       exact hfirst (S+j) (Nat.le_add_right _ _) (by omega) (occursAt_drop.1 h')
    rw [hindex,Option.map_some,Nat.add_sub_cancel' hle]

theorem found_occurs (h:old ≠ []) (hfound:found crlf text old anchor=some o) :
  OccursAt (withEol crlf old) text o := by
 by_cases hanchor:anchor=0
 · rw [hanchor] at hfound
   exact ((found_unanchored h).1 hfound).1
 · obtain ⟨S,-,-,hoccurs,-⟩:=(found_anchored h hanchor).1 hfound
   exact hoccurs

theorem exists_first {P:ℕ → Prop} (h:∃ o, P o) : ∃ o, P o ∧ ∀ j < o, ¬P j := by
 classical
 exact ⟨Nat.find h,Nat.find_spec h,fun j hj=>Nat.find_min h hj⟩

theorem clear_unanchored (h:old ≠ []) :
  (∀ o, found crlf text old 0=some o → Intended crlf text old 0 o) ↔ Clear crlf text old 0 := by
 rw [Clear,if_pos rfl]
 constructor
 · intro hmeets o o' ho ho' hlt
   obtain ⟨first,hfirst,hbefore⟩:=exists_first ⟨o,ho⟩
   by_contra hnone
   have hfound:found crlf text old 0=some first:=
    (found_unanchored h).2 ⟨hfirst,hbefore,fun j hj hoccurs =>
     hnone ⟨first,j,hbefore,hfirst,hoccurs,hj⟩⟩
   have honly:=(hmeets first hfound).2
   rw [if_pos rfl] at honly
   have:=honly o ho
   have:=honly o' ho'
   omega
 · intro hclear o hfound
   obtain ⟨hoccurs,hbefore,hlater⟩:=(found_unanchored h).1 hfound
   refine ⟨hoccurs,?_⟩
   rw [if_pos rfl]
   intro o' ho'
   by_contra hne
   have hlt:o < o':=
    Nat.lt_of_le_of_ne (Nat.le_of_not_lt fun hlt=>hbefore o' hlt ho') (Ne.symm hne)
   obtain ⟨first,later,hfirst,hat,hlast,hend⟩:=hclear o o' hoccurs ho' hlt
   have heq:first=o:=Nat.le_antisymm
    (Nat.le_of_not_lt fun hlt=>hfirst o hlt hoccurs) (Nat.le_of_not_lt fun hlt=>hbefore first hlt hat)
   exact hlater later (heq ▸ hend) hlast

theorem clear_anchored (h:old ≠ []) (hanchor:anchor ≠ 0) :
  (∀ o, found crlf text old anchor=some o → Intended crlf text old anchor o) ↔
   Clear crlf text old anchor := by
 have hneedle:=@withEol_ne_nil old crlf h
 rw [Clear,if_neg hanchor]
 constructor
 · intro hmeets S hS o o' ho hline hlt ho'
   by_contra hle
   obtain ⟨k,⟨hk,hat⟩,hfirst⟩ :=
    exists_first (P := fun j=>S ≤ j ∧ OccursAt (withEol crlf old) text j) ⟨o',by omega,ho'⟩
   have hfound:found crlf text old anchor=some k:=
    (found_anchored h hanchor).2 ⟨S,hS,hk,hat,fun j hj hjk hoccurs=>hfirst j hjk ⟨hj,hoccurs⟩⟩
   have hintended:=(hmeets k hfound).2
   rw [if_neg hanchor] at hintended
   have:=hintended.2 o ho hline
   omega
 · intro hclear o hfound
   obtain ⟨S,hS,hle,hoccurs,hfirst⟩:=(found_anchored h hanchor).1 hfound
   refine ⟨hoccurs,?_⟩
   rw [if_neg hanchor]
   refine ⟨line_of_afterLines hS hle (hoccurs.lt hneedle).le,fun o' ho' hline=>?_⟩
   by_contra hlt
   by_cases hS' : S ≤ o'
   · exact hfirst o' hS' (by omega) ho'
   · have:=hclear S hS o' o ho' hline (by omega) hoccurs
     omega

/-- An edit that is made replaces one occurrence and nothing else. It is the occurrence meant exactly
where the text is clear. -/
theorem edit_changes_intended (crlf:Bool) (text old:Text) (anchor:ℕ) :
  (∀ host files path item change, applyOneEdit host files path item=some change →
   ∃ old new text o, Json.string? (item.field "old")=some old ∧ old ≠ "" ∧
    Json.string? (item.field "new")=some new ∧ readDocument files path=some text ∧
    found (host.crlf text) text old.toList (anchorLine (item.field "startLine"))=some o ∧
    OccursAt (withEol (host.crlf text) old.toList) text o ∧
    change.apply files =
     Function.update files path (some (.file (splice (host.crlf text) text old.toList new.toList o)))) ∧
  (∀ host files path item i items, applyOneEdit host files path item=none →
   applyEdits host path i (item::items) files=[]) ∧
  (old ≠ [] →
   ((∀ o, found crlf text old anchor=some o → Intended crlf text old anchor o) ↔
    Clear crlf text old anchor)) := by
 refine ⟨fun host files path item change h=>?_,
  fun host files path item i items h=>by rw [applyEdits,h],fun h=>?_⟩
 · unfold applyOneEdit at h
   split at h
   · rename_i old new hold hnew
     split at h
     · cases h
     · rename_i hne
       split at h
       · cases h
       · rename_i text htext
         rw [replaced_eq] at h
         cases ho:found (host.crlf text) text old.toList (anchorLine (item.field "startLine")) with
         | none=>simp [ho] at h
         | some o =>
          simp only [ho,Option.map_some] at h
          split at h
          · cases h
            exact ⟨old,new,text,o,hold,hne,hnew,htext,ho,found_occurs (by simpa using hne) ho,rfl⟩
          · cases h
   · cases h
 · by_cases hanchor:anchor=0
   · rw [hanchor]
     exact clear_unanchored h
   · exact clear_anchored h hanchor

theorem edit_changes_intended_once :
  found false ['a'] ['a'] 0=some 0 ∧ Intended false ['a'] ['a'] 0 0 := by
 refine ⟨by decide,((edit_changes_intended false ['a'] ['a'] 0).2.2 (by decide)).2 ?_ 0 (by decide)⟩
 rw [Clear,if_pos rfl]
 intro o o' _ ho' hlt
 have:=ho'.lt (withEol_ne_nil (by decide))
 exact absurd this (by simp only [List.length_singleton]; omega)

/-- The two occurrences overlap. -/
theorem overlap_not_seen : ¬∀ crlf text old anchor, old ≠ [] →
 ∀ o, found crlf text old anchor=some o → Intended crlf text old anchor o := by
 intro h
 have hintended:=(h false "aaa".toList "aa".toList 0 (by decide) 0 (by decide)).2
 rw [if_pos rfl] at hintended
 exact absurd (hintended 1 ⟨[],by decide⟩) (by decide)

end L4Ide.AnchoredEdits
