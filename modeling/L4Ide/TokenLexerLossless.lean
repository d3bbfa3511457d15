import L4Ide.TokenLexer

set_option autoImplicit false

/-!
# Nothing is lost between a text and its tokens

Whatever a payload is read from is what the payload is displayed as; the raw tokens therefore
tile the text, and the positions they are given run on from one token to the next.
-/
namespace L4Ide.TokenLexer
open ConsumingParsers ConsumingParsers.Parser

/-! ### Tables -/

section Tables

variable {α:Type} {table:Table α}

variable {t:Text} {k:α}

lemma mem_of_lookup (h:table.lookup t=some k) : (t,k) ∈ table := by
 rw [Table.lookup,Option.map_eq_some_iff] at h
 obtain ⟨entry,hfind,rfl⟩:=h
 have hkey:=List.find?_some hfind
 have hmem:=List.mem_of_find?_eq_some hfind
 rw [decide_eq_true_eq] at hkey
 rw [←hkey]
 exact hmem

lemma mem_toAscList {entry:Text × α} : entry ∈ table.toAscList ↔ entry ∈ table :=
 List.mem_insertionSort _

lemma mem_toDescList {entry:Text × α} : entry ∈ table.toDescList ↔ entry ∈ table := by
 rw [Table.toDescList,List.mem_reverse,mem_toAscList]

lemma inverseCompleteLookup_eq_some [DecidableEq α] (hnodup:(table.map Prod.snd).Nodup)
  (h:(t,k) ∈ table) : inverseCompleteLookup k table=some t := by
 rw [inverseCompleteLookup]
 cases hfind:table.toAscList.find? fun entry=>entry.2=k with
 | none=>
  rw [List.find?_eq_none] at hfind
  simpa using hfind (t,k) (mem_toAscList.mpr h)
 | some entry=>
  have hkey:=List.find?_some hfind
  have hmem:=(mem_toAscList).mp (List.mem_of_find?_eq_some hfind)
  rw [decide_eq_true_eq] at hkey
  rw [List.inj_on_of_nodup_map hnodup hmem h hkey,Option.map_some]

lemma isSome_inverseCompleteLookup [DecidableEq α] (h:k ∈ table.map Prod.snd) :
  (inverseCompleteLookup k table).isSome := by
 obtain ⟨entry,hmem,rfl⟩:=List.mem_map.mp h
 rw [inverseCompleteLookup,Option.isSome_map,List.find?_isSome]
 exact ⟨entry,(mem_toAscList).mpr hmem,by simp⟩

end Tables

lemma directives_nodup : (directives.map Prod.snd).Nodup := by decide

lemma symbols_nodup : (symbols.map Prod.snd).Nodup := by decide

lemma keywords_nodup : (keywords.map Prod.snd).Nodup := by decide +kernel

lemma operators_nodup : (operators.map Prod.snd).Nodup := by decide

/-! ### What each payload is read from -/

/-- The token is displayed as the text it was read from, which is not empty. -/
def Spells (_:ℕ) (tt:TokenType) (t:Text) : Prop := displayTokenType tt=some t ∧ t ≠ []

def Verbatim (_:ℕ) (a t:Text) : Prop := a=t ∧ t ≠ []

lemma reads_string (w:String) : Reads (string w) fun _ a t=>a=w.toList ∧ t=w.toList :=
 reads_chunk

lemma reads_char (c:Char) : Reads (char c) fun _ a t=>a=c ∧ t=[c] := by
 refine reads_satisfy.mono ?_
 rintro o a t ⟨rfl,ha⟩
 have:=beq_iff_eq.mp ha
 exact ⟨this,by rw [this]⟩

lemma reads_restOfLine : Reads restOfLine fun _ a t=>a=t := reads_takeWhileP

section Annotations

lemma reads_langTag : Reads langTag fun _ l t=>t = ':' :: l.tag := by
 refine Reads.attempt ((reads_char ':').bind_map reads_takeWhile1P ?_)
 rintro o a u b v ⟨_,rfl⟩ ⟨rfl,_⟩
 rfl

lemma reads_optional_langTag : Reads (optional langTag) fun _ l t=>t=langTagSuffix l := by
 refine (reads_langTag).optional.mono ?_
 rintro o l t (⟨l,rfl,rfl⟩ | ⟨rfl,rfl⟩) <;> rfl

lemma reads_lineNlgAnno :
  Reads lineNlgAnno fun _ r t=>t=toNlgAnno r.1 r.2.1 r.2.2 := by
 refine (reads_string _).bind (S := fun _ _ r v=>∃ mtag t, r=(mtag,t,.lineAnno) ∧
  v=langTagSuffix mtag ++ t) (fun _=>?_) ?_
 · refine (reads_optional_langTag).bind_map reads_restOfLine ?_
   rintro o mtag u t v rfl rfl
   exact ⟨mtag,t,rfl,rfl⟩
 · rintro o a u r v ⟨_,rfl⟩ ⟨mtag,t,rfl,rfl⟩
   simp only [toNlgAnno,List.append_assoc]

lemma reads_escaped (escapable:Char → Bool) : Reads (escaped escapable) Verbatim := by
 refine Reads.attempt ((reads_char _).bind_map (f := fun b c=>[b,c]) reads_satisfy ?_)
 rintro o a u b v ⟨rfl,rfl⟩ ⟨rfl,_⟩
 exact ⟨rfl,by simp⟩

lemma reads_singleton (c:Char) : Reads (List.singleton <$> char c) Verbatim := by
 refine (reads_char c).map ?_
 rintro o a t ⟨rfl,rfl⟩
 exact ⟨rfl,by simp⟩

lemma reads_loneGt : Reads loneGt Verbatim := by
 refine Reads.attempt (reads_notFollowedBy.bind (fun _=>reads_singleton '>') ?_)
 rintro o a u b v rfl h
 exact h

lemma Reads.enclosed {α:Type} {opening:Lexer α} {piece:Lexer Text} {closing:Lexer α}
  {oh ch:Text} (ho:Reads opening fun _ _ t=>t=oh) (hpiece:Reads piece Verbatim)
  (hc:Reads closing fun _ _ t=>t=ch) :
  Reads (do
   let _ ← opening
   let anno ← many piece
   let _ ← closing
   pure (anno.flatten,AnnoType.inlineAnno))
   fun _ r t=>r.2 = .inlineAnno ∧ t=oh ++ r.1 ++ ch := by
 refine ho.bind (S := fun _ _ r t=>r.2 = .inlineAnno ∧ t=r.1 ++ ch) (fun _=>?_) ?_
 · refine hpiece.many.bind_map hc (f := fun anno _=>(anno.flatten,AnnoType.inlineAnno)) ?_
   rintro o anno u _ v hanno rfl
   exact ⟨rfl,by rw [hanno.flatten fun _ _ _ h=>h.1]⟩
 · rintro o _ u r v rfl ⟨hr,rfl⟩
   exact ⟨hr,by rw [List.append_assoc]⟩

lemma reads_inlineNlgAnno :
  Reads inlineNlgAnno fun _ r t=>t=toNlgAnno none r.1 r.2 := by
 refine Reads.mono (Reads.enclosed ((reads_char '[').mono fun _ _ _ h=>h.2)
  ((reads_escaped _).orElse ((reads_takeWhile1P).orElse (reads_singleton _)))
  ((reads_char ']').mono fun _ _ _ h=>h.2)) ?_
 rintro o r t ⟨hr,rfl⟩
 rw [hr]
 rfl

lemma reads_nlgAnnotation :
  Reads nlgAnnotation fun _ r t=>t=toNlgAnno r.1 r.2.1 r.2.2 :=
 (reads_lineNlgAnno).orElse (reads_inlineNlgAnno.map fun _ _ _ h=>h)

lemma reads_inlineRefAnno : Reads inlineRefAnno fun _ r t=>t=toRefAnno r.1 r.2 := by
 refine Reads.mono (Reads.enclosed ((reads_string "<<").mono fun _ _ _ h=>h.2)
  ((reads_escaped _).orElse ((reads_takeWhile1P).orElse ((reads_singleton _).orElse reads_loneGt)))
  ((reads_string ">>").mono fun _ _ _ h=>h.2)) ?_
 rintro o r t ⟨hr,rfl⟩
 rw [hr]
 rfl

lemma reads_lineAnno (herald:String) :
  Reads (lineAnno herald) fun _ r t=>r.2 = .lineAnno ∧ t=herald.toList ++ r.1 := by
 refine (reads_string herald).bind_map reads_restOfLine ?_
 rintro o _ u a v ⟨_,rfl⟩ rfl
 exact ⟨rfl,rfl⟩

lemma reads_lineAnno_fst (herald:String) :
  Reads (Prod.fst <$> lineAnno herald) fun _ a t=>t=herald.toList ++ a :=
 (reads_lineAnno herald).map fun _ _ _ h=>h.2

lemma reads_refAnnotation : Reads refAnnotation fun _ r t=>t=toRefAnno r.1 r.2 := by
 refine Reads.orElse ((reads_lineAnno "@ref").mono ?_) reads_inlineRefAnno
 rintro o r t ⟨hr,rfl⟩
 rw [hr]
 rfl

lemma reads_langAnnotation : Reads langAnnotation fun _ r t=>t = "@lang".toList ++ r.2 := by
 refine Reads.attempt ((reads_string _).bind (S := fun _ _ r t=>r.2=t) (fun _=>?_) ?_)
 · refine (reads_takeWhile1P).bind (S := fun sp _ r t=>r.2=sp ++ t) (fun sp=>?_) ?_
   · refine (reads_takeWhile1P).bind_map
      (f := fun tag rest=>(LangTag.mk tag,sp ++ tag ++ rest)) reads_restOfLine ?_
     rintro o tag u rest v ⟨rfl,_⟩ rfl
     exact List.append_assoc _ _ _
   · rintro o sp u r v ⟨rfl,_⟩ h
     exact h
 · rintro o _ u r v ⟨_,rfl⟩ rfl
   rfl

lemma toNlgAnno_ne_nil (mtag:Option LangTag) (t:Text) (type:AnnoType) :
  toNlgAnno mtag t type ≠ [] := by
 cases type <;> simp [toNlgAnno]

lemma toRefAnno_ne_nil (t:Text) (type:AnnoType) : toRefAnno t type ≠ [] := by
 cases type <;> simp [toRefAnno,toAnno]

lemma reads_annotationsPayload :
  Reads annotationsPayload fun o a t=>Spells o (.tAnnotations a) t := by
 refine reads_asum fun p hp=>?_
 simp only [List.mem_cons,List.not_mem_nil,or_false] at hp
 obtain rfl | rfl | rfl | rfl | rfl | rfl | rfl:=hp
 · refine (reads_lineAnno_fst _).map fun o a t h=>?_
   exact ⟨by rw [h]; rfl,by simp [h]⟩
 · refine (reads_lineAnno_fst _).map fun o a t h=>?_
   exact ⟨by rw [h]; rfl,by simp [h]⟩
 · refine ( reads_langAnnotation).map fun o a t h=>?_
   exact ⟨by rw [h]; rfl,by simp [h]⟩
 · refine (reads_lineAnno_fst _).map fun o a t h=>?_
   exact ⟨by rw [h]; rfl,by simp [h]⟩
 · refine (reads_lineAnno_fst _).map fun o a t h=>?_
   exact ⟨by rw [h]; rfl,by simp [h]⟩
 · refine ( reads_nlgAnnotation).map fun o a t h=>?_
   exact ⟨by rw [h]; rfl,by rw [h]; exact toNlgAnno_ne_nil _ _ _⟩
 · refine ( reads_refAnnotation).map fun o a t h=>?_
   exact ⟨by rw [h]; rfl,by rw [h]; exact toRefAnno_ne_nil _ _⟩

end Annotations

section Comments

lemma reads_lineComment : Reads lineComment Verbatim := by
 refine Reads.bind_map (f := fun herald rest=>herald ++ rest)
  (R := Verbatim) (Reads.orElse ?_ ?_) reads_restOfLine ?_
 · refine (reads_string _).mono ?_
   rintro o a t ⟨rfl,rfl⟩
   exact ⟨rfl,by decide⟩
 · refine (reads_string _).mono ?_
   rintro o a t ⟨rfl,rfl⟩
   exact ⟨rfl,by decide⟩
 · rintro o a u b v ⟨rfl,hne⟩ rfl
   exact ⟨rfl,by simp [hne]⟩

lemma reads_delimitedComment {inner:Lexer Text} (hinner:Reads inner Verbatim)
  {opening:String} (closing:String) (hne:opening.toList ≠ []) :
  Reads (delimitedComment inner opening closing) Verbatim := by
 refine (reads_string opening).bind_map (f := fun b r=>b ++ r.1.flatten ++ r.2)
  (hinner.manyTill (reads_string closing)) ?_
 rintro o b u r w ⟨rfl,rfl⟩ ⟨v,e,rfl,hall,he,rfl⟩
 exact ⟨by rw [hall.flatten fun _ _ _ h=>h.1,he,List.append_assoc],by simp [hne]⟩

lemma reads_blockComment : Reads blockComment Verbatim := by
 refine reads_fixed fun nested hnested=>?_
 have hinner:Reads (nested <|> List.singleton <$> anySingle) Verbatim:=by
  refine hnested.orElse (reads_anySingle.map fun o a t h=>?_)
  rw [h]
  exact ⟨rfl,by simp⟩
 exact (reads_delimitedComment hinner _ (by decide)).orElse
  (reads_delimitedComment hinner _ (by decide))

end Comments

variable {directive:TDirectives} {pt:PosToken} {pts:List PosToken} {t u input:Text} {o:ℕ}
 {pst:PosState}

lemma displayTokenType_directive (h:directive ≠ .tDirectiveContinue) :
  displayTokenType (.tDirectives directive) =
   (inverseCompleteLookup directive directives).map fun t=> "#".toList ++ t := by
 cases directive with
 | tDirectiveContinue=>exact absurd rfl h
 | _=>rfl

lemma directives_ne_continue : ∀ entry ∈ directives, entry.2 ≠ .tDirectiveContinue := by decide

lemma reads_directiveLiteral :
  Reads directiveLiteral fun o d t=>Spells o (.tDirectives d) t := by
 refine (reads_string "#").bind (S := fun _ _ d t=>
  displayTokenType (.tDirectives d)=some ("#".toList ++ t)) (fun _=>?_) ?_
 · refine Reads.orElse (reads_asum fun p hp=>?_) (reads_lookAhead.map ?_)
   · obtain ⟨entry,hentry,rfl⟩:=List.mem_map.mp hp
     refine reads_chunk.map ?_
     rintro o a t ⟨rfl,rfl⟩
     have hmem:=(mem_toDescList).mp hentry
     rw [displayTokenType_directive (directives_ne_continue entry hmem),
      inverseCompleteLookup_eq_some directives_nodup hmem,Option.map_some]
   · rintro o a t rfl
     rfl
 · rintro o a u d v ⟨_,rfl⟩ h
   exact ⟨h,by simp⟩

section Literals

lemma reads_digits : Reads digits Verbatim := by
 refine reads_satisfy.bind (S := fun d0 _ a t=>a=d0::t) (fun d0=>?_) ?_
 · refine reads_takeWhileP.bind (S := fun rest _ a t=>a=d0::rest ∧ t=[]) (fun rest=>?_) ?_
   · split
     · exact reads_fail
     · exact reads_pure fun _=>⟨rfl,rfl⟩
   · rintro o rest u a v rfl ⟨rfl,rfl⟩
     rw [List.append_nil]
 · rintro o d0 u a v ⟨rfl,_⟩ rfl
   exact ⟨rfl,by simp⟩

lemma reads_decimal : Reads decimal fun _ r t=>r.1=t ∧ t ≠ [] :=
 (reads_digits).map fun _ _ _ h=>h

lemma Reads.negated {α:Type} {neg:α → α} {p:Lexer (Text × α)}
  (hp:Reads p fun _ r t=>r.1=t ∧ t ≠ []) :
  Reads (negated neg p) fun _ r t=>r.1=t ∧ t ≠ [] := by
 refine (reads_string "-").bind_map (f := fun x r=>(x ++ r.1,neg r.2)) hp ?_
 rintro o x u r v ⟨rfl,rfl⟩ ⟨rfl,_⟩
 exact ⟨rfl,by simp⟩

lemma reads_dotDecimal (c' : ℤ) : Reads (dotDecimal c') fun _ r t=>t = '.' :: r.2.2 := by
 refine reads_satisfy.bind_map (f := fun _ s=>(s.foldl digitsStep c',
  (s.filter (· != '_')).length,s)) reads_digits ?_
 rintro o a u s v ⟨rfl,ha⟩ ⟨rfl,_⟩
 rw [beq_iff_eq.mp ha]
 rfl

lemma reads_float : Reads float fun _ r t=>r.1=t ∧ t ≠ [] := by
 refine (reads_decimal).bind (S := fun whole _ r t=>r.1=whole.1 ++ t) (fun whole=>?_) ?_
 · refine (reads_dotDecimal whole.2).map fun o r t h=>?_
   rw [h,List.append_assoc]
   rfl
 · rintro o whole u r v ⟨rfl,hne⟩ h
   exact ⟨h,by simp [hne]⟩

variable (host:Host)

lemma reads_stringLiteral : Reads (stringLiteral host) fun _ r t=>r.1=t ∧ t ≠ [] := by
 obtain ⟨R,hR,_⟩:=host.charLiteral_consumes
 refine Reads.mono (Reads.slice ((reads_char '"').bind_map (f := fun _ r=>r.1)
  (T := fun _ _ t=>t ≠ []) (hR.manyTill (reads_char '"')) ?_)) fun _ _ _ h=>h
 rintro o a u r v ⟨_,rfl⟩ _
 simp

lemma reads_literalPayload :
  Reads (literalPayload host) fun o l t=>Spells o (.tLiterals l) t := by
 refine reads_asum fun p hp=>?_
 simp only [List.mem_cons,List.not_mem_nil,or_false] at hp
 obtain rfl | rfl | rfl:=hp
 · refine Reads.map (Reads.attempt ((Reads.negated reads_float).orElse reads_float)) ?_
   rintro o r t ⟨rfl,hne⟩
   exact ⟨rfl,hne⟩
 · refine Reads.map (Reads.attempt ((Reads.negated reads_decimal).orElse reads_decimal)) ?_
   rintro o r t ⟨rfl,hne⟩
   exact ⟨rfl,hne⟩
 · refine (reads_stringLiteral host).map ?_
   rintro o r t ⟨rfl,hne⟩
   exact ⟨rfl,hne⟩

end Literals

section Payloads

variable (host:Host)

lemma reads_quoted : Reads (quoted host) fun _ a t=>t=Char.ofNat 96::a ++ [Char.ofNat 96] := by
 refine (reads_char _).bind (S := fun _ _ a t=>t=a ++ [Char.ofNat 96]) (fun _=>?_) ?_
 · refine (reads_takeWhile1P).bind_map (f := fun t _=>t) (reads_char _) ?_
   rintro o a u _ v ⟨rfl,_⟩ ⟨_,rfl⟩
   rfl
 · rintro o _ u a v ⟨_,rfl⟩ rfl
   rfl

lemma reads_identifiersPayload :
  Reads (identifiersPayload host) fun o i t=>Spells o (.tIdentifiers i) t := by
 refine reads_asum fun p hp=>?_
 simp only [List.mem_cons,List.not_mem_nil,or_false] at hp
 obtain rfl | rfl:=hp
 · refine (reads_string _).map ?_
   rintro o a t ⟨_,rfl⟩
   exact ⟨rfl,by decide⟩
 · refine (reads_quoted host).map ?_
   rintro o a t rfl
   exact ⟨rfl,by simp⟩

lemma reads_spacesPayload : Reads (spacesPayload host) fun o a t=>Spells o (.tSpaces a) t := by
 refine reads_asum fun p hp=>?_
 simp only [List.mem_cons,List.not_mem_nil,or_false] at hp
 obtain rfl | rfl | rfl:=hp
 · refine reads_takeWhile1P.map ?_
   rintro o a t ⟨rfl,hne⟩
   exact ⟨rfl,hne⟩
 · refine (reads_lineComment).map ?_
   rintro o a t ⟨rfl,hne⟩
   exact ⟨rfl,hne⟩
 · refine (reads_blockComment).map ?_
   rintro o a t ⟨rfl,hne⟩
   exact ⟨rfl,hne⟩

lemma symbols_ne_nil : ∀ entry ∈ symbols, entry.1 ≠ [] := by decide

lemma reads_symbolsPayload : Reads symbolsPayload fun o a t=>Spells o (.tSymbols a) t := by
 refine reads_asum fun p hp=>?_
 obtain ⟨entry,hentry,rfl⟩:=List.mem_map.mp hp
 have hmem:=(mem_toAscList).mp ((List.mem_insertionSort _).mp hentry)
 refine reads_chunk.map ?_
 rintro o a t ⟨rfl,rfl⟩
 exact ⟨inverseCompleteLookup_eq_some symbols_nodup hmem,symbols_ne_nil entry hmem⟩

lemma reads_operatorsPayload :
  Reads operatorsPayload fun o a t=>Spells o (.tOperators a) t := by
 refine reads_takeWhile1P.bind (S := fun s _ a t=>(s,a) ∈ operators ∧ t=[]) (fun s=>?_) ?_
 · cases hlookup:operators.lookup s with
   | none=>exact reads_fail
   | some operator=>exact reads_pure fun _=>⟨mem_of_lookup hlookup,rfl⟩
 · rintro o s u a v ⟨rfl,hne⟩ ⟨hmem,rfl⟩
   rw [List.append_nil]
   exact ⟨inverseCompleteLookup_eq_some operators_nodup hmem,hne⟩

lemma reads_identifier : Reads (identifier host) Verbatim := by
 refine reads_satisfy.bind_map (f := fun c rest=>c::rest) reads_takeWhileP ?_
 rintro o c u rest v ⟨rfl,_⟩ rfl
 exact ⟨rfl,by simp⟩

lemma reads_identifierOrKeyword : Reads (identifierOrKeyword host) Spells := by
 refine (reads_identifier host).map ?_
 rintro o i t ⟨rfl,hne⟩
 cases hlookup:keywords.lookup i with
 | none=>exact ⟨rfl,hne⟩
 | some keyword=>
  exact ⟨inverseCompleteLookup_eq_some keywords_nodup (mem_of_lookup hlookup),hne⟩

/-! ### The alternative that is never taken -/

variable {s:Input Char}

lemma operatorString_of_operatorsPayload (h:operatorsPayload s = .error false) :
  ∃ c, operatorString s = .error c := by
 cases hs:operatorString s with
 | error c=>exact ⟨c,rfl⟩
 | ok a n=>
  obtain ⟨t,rest,hahead,rfl,rfl,hne⟩:=reads_takeWhile1P s a n hs
  have hpos:=List.length_pos_iff.mpr hne
  rw [operatorsPayload,bind_apply_ok hs] at h
  cases hlookup:operators.lookup a with
  | none=>
   simp only [hlookup] at h
   simp [Parser.fail,Reply.after,hpos] at h
  | some operator=>
   simp only [hlookup] at h
   cases h

lemma operatorString_dead
  (h:(TokenType.tOperators <$> operatorsPayload) s = .error false) :
  ∃ c, ((fun t=>TokenType.tSymbols (.tOtherSymbolic t)) <$> operatorString) s = .error c := by
 cases hs:operatorsPayload s with
 | ok a n=>
  rw [map_apply_ok hs] at h
  cases h
 | error c=>
  rw [map_apply_error hs] at h
  cases h
  obtain ⟨c,hc⟩:=operatorString_of_operatorsPayload hs
  exact ⟨c,map_apply_error hc⟩

lemma reads_tokenPayload : Reads (tokenPayload host) Spells := by
 refine Reads.orElse ((reads_literalPayload host).map fun _ _ _ h=>h) ?_
 refine Reads.orElse ((reads_identifiersPayload host).map fun _ _ _ h=>h) ?_
 refine Reads.orElse (reads_directiveLiteral.map fun _ _ _ h=>h) ?_
 refine Reads.orElse (reads_annotationsPayload.map fun _ _ _ h=>h) ?_
 refine Reads.orElse ((reads_spacesPayload host).map fun _ _ _ h=>h) ?_
 refine Reads.orElse (reads_symbolsPayload.map fun _ _ _ h=>h) ?_
 refine Reads.orElse_dead (reads_operatorsPayload.map fun _ _ _ h=>h) ?_
  fun _=>operatorString_dead
 exact (reads_identifierOrKeyword host).orElse reads_fail

lemma reads_nlgString : Reads (nlgString host) Verbatim := by
 have hpieces:=((reads_escaped isNlgEscapable).orElse
  ((reads_takeWhile1P (f := fun c=>!(c == '\\' || c == ']' || c == '%') &&
   !host.isSpace c)).orElse (reads_singleton '\\'))).many1
 refine hpieces.map ?_
 rintro o as t ⟨a,u,v,rfl,w,rfl,⟨rfl,hne⟩,hall⟩
 rw [List.flatten_cons,hall.flatten fun _ _ _ h=>h.1]
 exact ⟨rfl,by simp [hne]⟩

lemma reads_nlgTokenPayload : Reads (nlgTokenPayload host) Spells := by
 refine reads_asum fun p hp=>?_
 simp only [List.mem_cons,List.not_mem_nil,or_false] at hp
 obtain rfl | rfl | rfl | rfl | rfl | rfl | rfl | rfl:=hp
 · refine (reads_char '%').map ?_
   rintro o a t ⟨_,rfl⟩
   exact ⟨inverseCompleteLookup_eq_some symbols_nodup (by decide),by simp⟩
 · refine reads_takeWhile1P.map ?_
   rintro o a t ⟨rfl,hne⟩
   exact ⟨rfl,hne⟩
 · refine (reads_quoted host).map ?_
   rintro o a t rfl
   exact ⟨rfl,by simp⟩
 · refine (reads_identifier host).map ?_
   rintro o a t ⟨rfl,hne⟩
   exact ⟨rfl,hne⟩
 · refine (reads_char '[').map ?_
   rintro o a t ⟨_,rfl⟩
   exact ⟨inverseCompleteLookup_eq_some symbols_nodup (by decide),by simp⟩
 · refine (reads_char ']').map ?_
   rintro o a t ⟨_,rfl⟩
   exact ⟨inverseCompleteLookup_eq_some symbols_nodup (by decide),by simp⟩
 · refine (reads_string "@nlg").bind_map
    (f := fun _ mtag=>TokenType.tAnnotations (.tNlgPrefix mtag)) reads_optional_langTag ?_
   rintro o a u mtag v ⟨_,rfl⟩ rfl
   exact ⟨rfl,by simp⟩
 · refine (reads_nlgString host).map ?_
   rintro o a t ⟨rfl,hne⟩
   exact ⟨rfl,hne⟩

/-! ### Raw tokens tile the text -/

def Stands (o:ℕ) (rtok:RawToken) (t:Text) : Prop :=
 rtok.start=o ∧ rtok.stop=o+t.length ∧ Spells o rtok.payload t

lemma reads_located {payload:Lexer TokenType} (hp:Reads payload Spells) :
  Reads (located payload) Stands := by
 refine reads_getOffset.bind (S := fun start o rtok t=>rtok.start=start ∧
  rtok.stop=o+t.length ∧ Spells o rtok.payload t) (fun start=>?_) ?_
 · refine hp.bind_map (f := RawToken.mk start) reads_getOffset ?_
   rintro o tt u stop v hspells ⟨rfl,rfl⟩
   rw [List.append_nil]
   exact ⟨rfl,rfl,hspells⟩
 · rintro o start u rtok v ⟨rfl,rfl⟩ h
   exact h

lemma reads_rawTokens : Reads (rawTokens host) (ReadAll Stands) :=
 (reads_located (reads_tokenPayload host)).many

lemma reads_rawNlgTokens : Reads (rawNlgTokens host) (ReadAll Stands) :=
 (reads_located (reads_nlgTokenPayload host)).many

lemma readAll_of_parse {raw:Lexer (List RawToken)} (hraw:Reads raw (ReadAll Stands))
  {input:Text} {rtoks:List RawToken} (h:parse raw input=some rtoks) :
  ReadAll Stands 0 rtoks input := by
 rw [parse] at h
 split at h
 · next hok=>
   cases h
   exact hraw.whole hok
 · cases h

end Payloads

/-! ### Positions -/

/-- The tokens begin at `p`, each where the one before it ends. -/
def Contiguous : SrcPos → List PosToken → Prop
 | _, []=>True
 | p, pt::pts=>pt.range.start=p ∧ Contiguous pt.range.stop pts

/-- The texts the tokens are displayed as, one after another, if each has one. -/
def displayPosTokens : List PosToken → Option Text
 | []=>some []
 | pt::pts=>do
  let t ← displayPosToken pt
  let u ← displayPosTokens pts
  pure (t ++ u)

lemma displayPosTokens_cons
  (h:displayPosToken pt=some t) (hs:displayPosTokens pts=some u) :
  displayPosTokens (pt::pts)=some (t ++ u) := by
 rw [displayPosTokens,h,hs]
 rfl

lemma isSome_of_displayPosTokens
  (h:displayPosTokens pts=some u) (hpt:pt ∈ pts) :
  (displayPosToken pt).isSome := by
 induction pts generalizing u with
 | nil=>simp at hpt
 | cons pt' pts ih=>
  rw [displayPosTokens,Option.bind_eq_bind,Option.bind_eq_some_iff] at h
  obtain ⟨t,ht,h⟩:=h
  obtain ⟨u', hu', _⟩:=Option.bind_eq_some_iff.mp h
  obtain rfl | hpt:=List.mem_cons.mp hpt
  · rw [ht]
    rfl
  · exact ih hu' hpt

lemma displayTokenType_copied (column:ℕ) (pts:List PosToken) (tt:TokenType) :
  displayTokenType (copied column pts tt)=displayTokenType tt := by
 rw [copied.eq_def]
 split
 · cases findMatchingToken column pts with
   | none=>rfl
   | some original=>rfl
 · rfl

def At (o:ℕ) (input:Text) (pst:PosState) : Prop :=
 pst.pstateOffset=o ∧ pst.pstateInput=input

lemma reachOffsetNoLine_self (h:At o input pst) :
  reachOffsetNoLine o pst=pst := by
 obtain ⟨rfl,rfl⟩:=h
 simp [reachOffsetNoLine]

lemma reachOffsetNoLine_at (h:At o (t ++ input) pst) :
  At (o+t.length) input (reachOffsetNoLine (o+t.length) pst) := by
 obtain ⟨rfl,hinput⟩:=h
 simp [At,reachOffsetNoLine,hinput]

/-- What the positioned tokens of a tiled text are, from where the text begins. -/
structure Lossless (p:SrcPos) (input:Text) (pts:List PosToken) : Prop where
 displayed : displayPosTokens pts=some input
 length : (pts.map fun pt=>pt.range.length).sum=input.length
 contiguous : Contiguous p pts

lemma lossless_posTokensFrom (uri:Text) {rtoks:List RawToken}
  (h:ReadAll Stands o rtoks input) (ts:TokenState) (hat:At o input ts.posState) :
  Lossless ts.posState.pstateSourcePos input (posTokensFrom uri ts rtoks) := by
 induction h generalizing ts with
 | nil=>exact ⟨rfl,rfl,trivial⟩
 | @cons o rtok rtoks t input head tail ih=>
  obtain ⟨hstart,hstop,hdisplay,_⟩:=head
  have hself:=reachOffsetNoLine_self hat
  have hnext:=reachOffsetNoLine_at hat
  rw [←hstart] at hself
  rw [←hstop] at hnext
  have hstate:(posTokenStep uri ts rtok).2.posState =
    reachOffsetNoLine rtok.stop ts.posState := by
   rw [posTokenStep,hself]
  have hrest:=ih (posTokenStep uri ts rtok).2 (by rw [hstate]; exact hstop ▸ hnext)
  rw [posTokensFrom]
  refine ⟨displayPosTokens_cons ?_ hrest.displayed, ?_, ?_, ?_⟩
  · rw [displayPosToken,posTokenStep,displayTokenType_copied,hdisplay]
  · rw [List.map_cons,List.sum_cons,hrest.length,List.length_append]
    simp only [posTokenStep,hstart,hstop]
    omega
  · rw [posTokenStep,hself]
  · have hend:(posTokenStep uri ts rtok).1.range.stop =
      (posTokenStep uri ts rtok).2.posState.pstateSourcePos := rfl
    rw [hend]
    exact hrest.contiguous

/-! ### The unrollings suffice -/

/-! ### The lexer is lossless -/

lemma lossless_of_parse {raw:Lexer (List RawToken)} (hraw:Reads raw (ReadAll Stands))
  (sourcePosOffset:Option SrcPos) {uri:Text}
  (h:(parse raw input).map (mkPosTokens sourcePosOffset uri input)=some pts) :
  Lossless (sourcePosOffset.getD ⟨1,1⟩) input pts := by
 obtain ⟨rtoks,hparse,rfl⟩:=Option.map_eq_some_iff.mp h
 have hall:=readAll_of_parse hraw hparse
 cases sourcePosOffset with
 | none=>exact lossless_posTokensFrom uri hall (initialTokenState input) ⟨rfl,rfl⟩
 | some offset=>
  exact lossless_posTokensFrom uri hall { initialTokenState input with
   posState:={ initialPosState input with pstateSourcePos:=offset } } ⟨rfl,rfl⟩

/-- A token of a parse error: it stood where it was not expected, in a module or in one of its
annotations, or it was expected and did not stand there. -/
inductive Reported (host:Host) (uri:Text) : PosToken → Prop
 | unexpected {input:Text} {pts:List PosToken} {pt:PosToken}
   (lexed:execLexer host uri input=some pts) (mem:pt ∈ pts) : Reported host uri pt
 | annotation {offset:SrcPos} {input:Text} {pts:List PosToken} {pt:PosToken}
   (lexed:execNlgLexer host offset uri input=some pts) (mem:pt ∈ pts) :
   Reported host uri pt
 | expected {tt:TokenType} (asked:expected tt) : Reported host uri (trivialToken uri tt)

lemma mem_keywords (keyword:TKeywords) : keyword ∈ keywords.map Prod.snd := by
 cases keyword <;> decide

lemma mem_directives (h:directive ≠ .tDirectiveContinue) :
  directive ∈ directives.map Prod.snd := by
 cases directive <;> simp_all [directives]

lemma mem_symbols : ∀ symbol ∈ expectedSymbols, symbol ∈ symbols.map Prod.snd := by decide

lemma mem_operators : ∀ operator ∈ expectedOperators, operator ∈ operators.map Prod.snd := by
 decide

lemma isSome_of_expected {tt:TokenType} (h:expected tt) : (displayTokenType tt).isSome := by
 cases tt with
 | tKeywords keyword=>exact isSome_inverseCompleteLookup (mem_keywords keyword)
 | tDirectives directive=>
  by_cases hcontinue:directive = .tDirectiveContinue
  · rw [hcontinue]
    rfl
  · rw [displayTokenType_directive hcontinue,Option.isSome_map]
    exact isSome_inverseCompleteLookup (mem_directives hcontinue)
 | tSymbols symbol=>
  exact isSome_inverseCompleteLookup (mem_symbols symbol (of_decide_eq_true h))
 | tOperators operator=>
  exact isSome_inverseCompleteLookup (mem_operators operator (of_decide_eq_true h))
 | tIdentifiers identifier=>cases identifier <;> rfl
 | tLiterals literal=>cases h
 | tSpaces spaces=>cases h
 | tAnnotations annotation=>cases h
 | realTCopy original=>cases h

/-- The tokens of every accepted text are displayed as that text, are as long as it is and
follow one another in it; and every token a parse error can name is displayed. -/
theorem execLexer_lossless (host:Host) (uri:Text) :
  (∀ input pts, execLexer host uri input=some pts → Lossless ⟨1,1⟩ input pts) ∧
  (∀ offset input pts, execNlgLexer host offset uri input=some pts →
   Lossless offset input pts) ∧
  ∀ pt, Reported host uri pt → (displayPosToken pt).isSome := by
 have hlexer:∀ input pts, execLexer host uri input=some pts → Lossless ⟨1,1⟩ input pts:=
  fun input pts h=>lossless_of_parse (reads_rawTokens host) none h
 have hnlg:∀ offset input pts, execNlgLexer host offset uri input=some pts →
   Lossless offset input pts :=
  fun offset input pts h=>lossless_of_parse (reads_rawNlgTokens host) (some offset) h
 refine ⟨hlexer,hnlg,fun pt hpt=>?_⟩
 cases hpt with
 | unexpected lexed mem=>exact isSome_of_displayPosTokens (hlexer _ _ lexed).displayed mem
 | annotation lexed mem=>exact isSome_of_displayPosTokens (hnlg _ _ _ lexed).displayed mem
 | expected asked=>exact isSome_of_expected asked

/-- A host for which only ASCII is classified and a string literal has no escapes. -/
def asciiHost : Host where
 isSpace:=Char.isWhitespace
 isAlpha:=Char.isAlpha
 isAlphaNum:=Char.isAlphanum
 isPrint c := ' ' ≤ c
 charLiteral:=satisfy fun c=>c != '"' && c != '\\'
 charLiteral_consumes := by
  refine ⟨_,reads_satisfy, ?_⟩
  rintro o a t ⟨rfl,_⟩
  simp

theorem execLexer_lossless_copied :
  (∃ pts, execLexer asciiHost [] "DECIDE x IS 1_0.5\n ^ -- as above".toList=some pts ∧
   Lossless ⟨1,1⟩ "DECIDE x IS 1_0.5\n ^ -- as above".toList pts) ∧
  (∃ pts, execNlgLexer asciiHost ⟨4,2⟩ [] "@nlg:he 50\\% of %x%".toList=some pts ∧
   Lossless ⟨4,2⟩ "@nlg:he 50\\% of %x%".toList pts) ∧
  (displayPosToken (trivialToken [] (.tSymbols .tComma))).isSome := by
 have hlexed:(execLexer asciiHost [] "DECIDE x IS 1_0.5\n ^ -- as above".toList).isSome:=by
  decide +kernel
 have hnlg:(execNlgLexer asciiHost ⟨4,2⟩ [] "@nlg:he 50\\% of %x%".toList).isSome:=by
  decide +kernel
 obtain ⟨pts,hpts⟩:=Option.isSome_iff_exists.mp hlexed
 obtain ⟨pts', hpts'⟩:=Option.isSome_iff_exists.mp hnlg
 exact ⟨⟨pts,hpts,(execLexer_lossless asciiHost []).1 _ pts hpts⟩,
  ⟨pts', hpts', (execLexer_lossless asciiHost []).2.1 _ _ pts' hpts'⟩,
  (execLexer_lossless asciiHost []).2.2 _ (.expected (by decide))⟩

end L4Ide.TokenLexer
