import L4Ide.TokenLexerLossless
import L4Ide.WorkspaceEdits
import L4Ide.WorkspaceTools
import Mathlib.Data.List.TakeWhile

set_option autoImplicit false

/-!
# The edits of a rename

The text that each occurrence of a name is replaced with, as the lexer reads it.
-/
namespace L4Ide.RenameEdits
open ConsumingParsers ConsumingParsers.Parser TokenLexer
open WorkspaceTools hiding Text

/-! ### A name as the lexer reads it -/

/-- What `Data.Char` says of the characters of a bare identifier. -/
structure AsciiClasses (host:TokenLexer.Host) : Prop where
 isSpace : ∀ c, isWord c=true ∨ c=backtick → host.isSpace c=false
 isAlpha : ∀ c, isWord c=true → host.isAlpha c=c.isAlpha
 isAlphaNum : ∀ c, isWord c=true → host.isAlphaNum c=(c != '_')

def nameOf : TIdentifiers → Option Text
 | .tIdentifier text=>some text
 | .tQuoted text=>some text
 | .tGenitive=>none

def Lexes (host:TokenLexer.Host) (text name:Text) : Prop :=
 ∃ token, parse (rawTokens host) text=some [⟨0,.tIdentifiers token,text.length⟩] ∧
  nameOf token=some name

def starts (c:Char) : Bool := isWord c && !c.isDigit

variable {host:TokenLexer.Host} {s:Input Char} {f:Char → Bool}

theorem starts_ne {c d:Char} (hd:starts d=false) (hc:starts c=true) : (c == d)=false := by
 rw [beq_eq_false_iff_ne]
 intro heq
 rw [heq,hd] at hc
 cases hc

theorem starts_isDigit {c:Char} (hc:starts c=true) : isDigit c=false := by
 rw [starts,Bool.and_eq_true,Bool.not_eq_true'] at hc
 exact hc.2

theorem refuses_char {d:Char} (hs:s.ahead.head?.all f=true) (hd:f d=false) :
  Refuses (char d) s := by
 refine refuses_satisfy hs fun c hc=>?_
 rw [beq_eq_false_iff_ne]
 intro heq
 rw [heq,hd] at hc
 cases hc

theorem refuses_string {w:String} (hs:s.ahead.head?.all f=true)
  (hw:w.toList.head?.all f=false) : Refuses (string w) s := refuses_chunk hs hw

theorem refuses_digits (hs:s.ahead.head?.all f=true) (hf:∀ c, f c=true → isDigit c=false) :
  Refuses digits s := (refuses_satisfy hs hf).bind

theorem refuses_negated {α:Type} {neg:α → α} {p:Lexer (Text × α)}
  (hs:s.ahead.head?.all f=true) (hf:f '-' = false) : Refuses (negated neg p) s := by
 refine (refuses_string hs ?_).bind
 exact hf

theorem refuses_literalPayload (hs:s.ahead.head?.all f=true)
  (hf:∀ c, f c=true → isDigit c=false) (hminus:f '-' = false) (hquote:f '"' = false) :
  Refuses (literalPayload host) s := by
 have hdecimal:Refuses decimal s:=(refuses_digits hs hf).map
 refine refuses_asum fun p hp=>?_
 simp only [List.mem_cons,List.not_mem_nil,or_false] at hp
 rcases hp with rfl | rfl | rfl
 · exact ((refuses_negated hs hminus).orElse hdecimal.bind).attempt.map
 · exact ((refuses_negated hs hminus).orElse hdecimal).attempt.map
 · exact (refuses_char hs hquote).bind.slice.map

theorem refuses_annotationsPayload (hs:s.ahead.head?.all starts=true) :
  Refuses annotationsPayload s := by
 have hherald (w:String) (hw:w.toList.head?.all starts=false) : Refuses (lineAnno w) s:=
  (refuses_string hs hw).bind
 refine refuses_asum fun p hp=>?_
 simp only [List.mem_cons,List.not_mem_nil,or_false] at hp
 rcases hp with rfl | rfl | rfl | rfl | rfl | rfl | rfl
 · exact (hherald _ (by decide)).map.map
 · exact (hherald _ (by decide)).map.map
 · exact ((refuses_string hs (by decide)).bind).attempt.map
 · exact (hherald _ (by decide)).map.map
 · exact (hherald _ (by decide)).map.map
 · exact (((refuses_string hs (by decide)).bind).orElse (refuses_char hs (by decide)).bind.map).map
 · exact ((hherald _ (by decide)).orElse (refuses_string hs (by decide)).bind).map

theorem refuses_blockComment (hs:s.ahead.head?.all starts=true) : Refuses blockComment s :=
 Refuses.orElse (refuses_string hs (by decide)).bind (refuses_string hs (by decide)).bind

theorem refuses_spacesPayload (hs:s.ahead.head?.all starts=true) (hhost:AsciiClasses host) :
  Refuses (spacesPayload host) s := by
 refine refuses_asum fun p hp=>?_
 simp only [List.mem_cons,List.not_mem_nil,or_false] at hp
 rcases hp with rfl | rfl | rfl
 · refine (refuses_takeWhile1P hs fun c hc=>hhost.isSpace c (.inl ?_)).map
   rw [starts,Bool.and_eq_true] at hc
   exact hc.1
 · exact (((refuses_string hs (by decide)).orElse (refuses_string hs (by decide))).bind).map
 · exact (refuses_blockComment hs).map

theorem symbols_start : ∀ entry ∈ symbols, entry.1.head?.all starts=false := by
 decide +kernel

theorem refuses_symbolsPayload (hs:s.ahead.head?.all starts=true) : Refuses symbolsPayload s := by
 refine refuses_asum fun p hp=>?_
 obtain ⟨entry,hentry,rfl⟩:=List.mem_map.1 hp
 rw [List.mem_insertionSort,mem_toAscList] at hentry
 exact (refuses_chunk hs (symbols_start entry hentry)).map

theorem operator_starts {c:Char} (hc:starts c=true) : isOperatorChar c=false := by
 have hall:("=<>+-*/:~&|%§".toList.all fun d=>!starts d)=true:=by decide
 rw [isOperatorChar,List.contains_eq_mem,decide_eq_false_iff_not]
 intro hmem
 have hnot:=List.all_eq_true.1 hall c hmem
 rw [hc] at hnot
 cases hnot

theorem refuses_directiveLiteral (hs:s.ahead.head?.all starts=true) :
  Refuses directiveLiteral s := (refuses_string hs (by decide)).bind

/-- Only the last of the alternatives may begin with a letter or an underscore. -/
theorem tokenPayload_starts (hs:s.ahead.head?.all starts=true) (hhost:AsciiClasses host) :
  tokenPayload host s=asum [identifierOrKeyword host] s := by
 have hoperator:Refuses operatorString s:=refuses_takeWhile1P hs fun c hc=>operator_starts hc
 have hquoted:Refuses (identifiersPayload host) s:=by
  refine refuses_asum fun p hp=>?_
  simp only [List.mem_cons,List.not_mem_nil,or_false] at hp
  rcases hp with rfl | rfl
  · exact (refuses_string hs (by decide)).map
  · exact (refuses_char hs (by decide)).bind.map
 have hliteral:Refuses (literalPayload host) s:=
  refuses_literalPayload hs (fun c hc=>starts_isDigit hc) (by decide) (by decide)
 exact (orElse_of_refuses hliteral.map).trans <| (orElse_of_refuses hquoted.map).trans <|
  (orElse_of_refuses (refuses_directiveLiteral hs).map).trans <|
  (orElse_of_refuses (refuses_annotationsPayload hs).map).trans <|
  (orElse_of_refuses (refuses_spacesPayload hs hhost).map).trans <|
  (orElse_of_refuses (refuses_symbolsPayload hs).map).trans <|
  (orElse_of_refuses (p := TokenType.tOperators <$> operatorsPayload) hoperator.bind.map).trans <|
  orElse_of_refuses hoperator.map

/-! ### A text as one token -/

theorem refuses_end (host:TokenLexer.Host) (hhost:AsciiClasses host) (o:ℕ) :
  Refuses (tokenPayload host) ⟨o,[]⟩ := by
 rw [Refuses,tokenPayload_starts rfl hhost]
 rfl

theorem located_eq (host:TokenLexer.Host) (s:Input Char) :
  located (tokenPayload host) s=Reply.after 0 ((do
   let payload ← tokenPayload host
   RawToken.mk s.offset payload <$> getOffset : Lexer RawToken) s) := bind_apply_ok rfl

theorem located_ok {payload:TokenType} {n:ℕ} (h:tokenPayload host s = .ok payload n) :
  located (tokenPayload host) s = .ok ⟨s.offset,payload,s.offset+n⟩ n := by
 have hoffset:(RawToken.mk s.offset payload <$> getOffset : Lexer RawToken) (s.advance n) =
   .ok ⟨s.offset,payload,s.offset+n⟩ 0 := map_apply_ok rfl
 rw [located_eq,bind_apply_ok h,hoffset,Reply.after,Reply.after,Nat.zero_add,Nat.add_zero]

theorem located_error {consumed:Bool} (h:tokenPayload host s = .error consumed) :
  located (tokenPayload host) s = .error consumed := by
 rw [located_eq,bind_apply_error h]
 simp [Reply.after]

theorem parse_token {text:Text} {payload:TokenType} (hhost:AsciiClasses host)
  (h:tokenPayload host ⟨0,text⟩ = .ok payload text.length) (hne:text ≠ []) :
  parse (rawTokens host) text=some [⟨0,payload,text.length⟩] := by
 have hlocated:=located_ok h
 rw [Nat.zero_add] at hlocated
 have hmany:rawTokens host ⟨0,text⟩ = .ok [⟨0,payload,text.length⟩] text.length:=
  many_one hlocated (List.length_pos_iff.2 hne) rfl (located_error (refuses_end host hhost _))
 have hall:(do let rtoks ← rawTokens host; eof; pure rtoks : Lexer (List RawToken)) ⟨0,text⟩ =
   .ok [⟨0,payload,text.length⟩] text.length := by
  rw [bind_apply_ok hmany,Input.advance,List.drop_length]
  rfl
 rw [parse,hall]

theorem parse_none {text:Text} (h:∀ payload n, tokenPayload host ⟨0,text⟩ ≠ .ok payload n)
  (hne:text ≠ []) : parse (rawTokens host) text=none := by
 have hall:∃ consumed, (do let rtoks ← rawTokens host; eof; pure rtoks : Lexer (List RawToken))
   ⟨0,text⟩ = .error consumed := by
  cases hpayload:tokenPayload host ⟨0,text⟩ with
  | ok payload n=>exact absurd hpayload (h payload n)
  | error consumed=>
   cases consumed with
   | true=>exact ⟨true,bind_apply_error (many_fails (located_error hpayload))⟩
   | false=>
    have hmany:rawTokens host ⟨0,text⟩ = .ok [] 0:=many_none (located_error hpayload)
    refine ⟨false,?_⟩
    rw [bind_apply_ok hmany]
    have heof:eof (Input.advance ⟨0,text⟩ 0) = .error false:=by
     simp [eof,Input.advance,hne]
    rw [bind_apply_error heof]
    rfl
 obtain ⟨consumed,hall⟩:=hall
 rw [parse,hall]

/-! ### Bare and quoted names -/

theorem starts_of_bare {name:Text} (h:isBareIdent name=true) :
  ∃ c rest, name=c::rest ∧ starts c=true ∧ ∀ c ∈ name, isWord c=true := by
 cases name with
 | nil=>cases h
 | cons c rest=>
  rw [isBareIdent,Bool.and_eq_true,List.all_eq_true] at h
  refine ⟨c,rest,rfl,?_,h.2⟩
  rw [starts,Bool.and_eq_true]
  exact ⟨h.2 c List.mem_cons_self,h.1⟩

/-- A bare name is lexed as a name where it does not begin with an underscore and is no
keyword. -/
theorem lexes_bare_iff (hhost:AsciiClasses host) {name:Text} (h:isBareIdent name=true) :
  Lexes host name name ↔ name.head? ≠ some '_' ∧ keywords.lookup name=none := by
 obtain ⟨c,rest,rfl,hc,hword⟩:=starts_of_bare h
 have hpayload:=tokenPayload_starts (s := ⟨0,c::rest⟩) hc hhost
 have hcword:=hword c List.mem_cons_self
 by_cases hunderscore:c = '_'
 · subst hunderscore
   have hrefuses:Refuses (identifier host) ⟨0,'_' :: rest⟩:=by
    refine Refuses.bind ?_
    simp [Refuses,satisfy,hhost.isAlpha '_' (by decide)]
   have hnone:parse (rawTokens host) ('_' :: rest)=none:=by
    have hkeyword:Refuses (identifierOrKeyword host) ⟨0,'_' :: rest⟩:=hrefuses.map
    refine parse_none (fun payload n hok=>?_) (List.cons_ne_nil _ _)
    rw [hpayload,refuses_asum (by simpa using hkeyword)] at hok
    cases hok
   simp [Lexes,hnone]
 · have halpha:host.isAlpha c=true:=by
    rw [hhost.isAlpha c hcword]
    simp only [starts,isWord,Bool.and_eq_true,Bool.not_eq_true',decide_eq_true_eq] at hc
    grind
   have htake:rest.takeWhile (fun x=>host.isAlphaNum x || x == '_')=rest:=by
    refine List.takeWhile_eq_self_iff.2 fun x hx=>?_
    rw [hhost.isAlphaNum x (hword x (List.mem_cons_of_mem _ hx))]
    by_cases hx' : x = '_' <;> simp [hx']
   have hidentifier:identifier host ⟨0,c::rest⟩ = .ok (c::rest) (rest.length+1):=by
    have hfirst:satisfy host.isAlpha ⟨0,c::rest⟩ = .ok c 1:=by simp [satisfy,halpha]
    rw [identifier,bind_apply_ok hfirst,map_apply_ok (a := rest) (n := rest.length)]
    · rw [Reply.after,Nat.add_comm]
    · simp [takeWhileP,Input.advance,htake]
   have hok:tokenPayload host ⟨0,c::rest⟩ = .ok
     ((keywords.lookup (c::rest)).elim (.tIdentifiers (.tIdentifier (c::rest)))
      TokenType.tKeywords) (rest.length+1) := by
    refine hpayload.trans (orElse_of_ok ((map_apply_ok hidentifier).trans ?_))
    cases keywords.lookup (c::rest) <;> rfl
   have hparse:=parse_token hhost hok (List.cons_ne_nil _ _)
   rw [Lexes,hparse]
   cases hlookup:keywords.lookup (c::rest) with
   | none=>simp [hunderscore,nameOf]
   | some keyword=>simp

def quote (name:Text) : Text := backtick::name ++ [backtick]

abbrev prints (host:TokenLexer.Host) : Char → Bool := fun c=>host.isPrint c && c != Char.ofNat 96

theorem quoted_ok {name:Text} (hne:name ≠ []) (hbacktick:backtick ∉ name)
  (hprint:∀ c ∈ name, host.isPrint c=true) :
  quoted host ⟨0,quote name⟩ = .ok name (quote name).length := by
 have hprints:∀ c ∈ name, prints host c=true:=by
  intro c hc
  rw [prints,hprint c hc,Bool.true_and,bne_iff_ne]
  intro heq
  rw [heq] at hc
  exact hbacktick hc
 have htake:(name ++ [backtick]).takeWhile (prints host) =
   name := by
  rw [List.takeWhile_append_of_pos hprints]
  simp [backtick]
 have hopen:char (Char.ofNat 96) ⟨0,quote name⟩ = .ok backtick 1:=rfl
 have hname:takeWhile1P (prints host) ⟨1,name ++ [backtick]⟩ =
   .ok name name.length := by
  simp [takeWhile1P,htake,hne]
 have hclose:char (Char.ofNat 96) ⟨1+name.length,[backtick]⟩ = .ok backtick 1:=rfl
 have hadvance:Input.advance ⟨0,quote name⟩ 1=⟨1,name ++ [backtick]⟩:=rfl
 have hadvance' : Input.advance ⟨1,name ++ [backtick]⟩ name.length =
   ⟨1+name.length,[backtick]⟩ := by
  rw [Input.advance,List.drop_left]
 rw [TokenLexer.quoted,bind_apply_ok hopen,hadvance,bind_apply_ok hname,hadvance',
  bind_apply_ok hclose]
 simp [Reply.after,quote,pure,Parser.pure]
 omega

theorem quoted_fails {name:Text} (hbacktick:backtick ∉ name)
  (hprint:¬∀ c ∈ name, host.isPrint c=true) : quoted host ⟨0,quote name⟩ = .error true := by
 obtain ⟨c,post,hdrop⟩ : ∃ c post, name.dropWhile (prints host) =
   c::post := by
  refine List.exists_cons_of_ne_nil fun hnil=>hprint fun c hc=>?_
  have hboth:=List.dropWhile_eq_nil_iff.1 hnil c hc
  rw [prints,Bool.and_eq_true] at hboth
  exact hboth.1
 have hstop:=List.head?_dropWhile_not (prints host) name
 rw [hdrop,List.head?_cons] at hstop
 obtain ⟨pre,hpre⟩ : ∃ pre, pre=name.takeWhile (prints host):=
  ⟨_,rfl⟩
 have hname:name=pre ++ c::post:=by
  rw [hpre,←hdrop,List.takeWhile_append_dropWhile]
 have hc:c ≠ Char.ofNat 96:=by
  intro heq
  rw [hname,heq] at hbacktick
  exact hbacktick (by simp [backtick])
 have hahead:name ++ [backtick]=pre ++ c::(post ++ [backtick]):=by simp [hname]
 have htake:(name ++ [backtick]).takeWhile (prints host) =
   pre := by
  have hprints:∀ x ∈ pre, prints host x=true:=by
   rw [hpre]
   exact fun x hx=>List.mem_takeWhile_imp hx
  have hnot:prints host c=false:=hstop
  rw [hahead,List.takeWhile_append_of_pos hprints,List.takeWhile_cons_of_neg (by rw [hnot]; decide),
   List.append_nil]
 have hopen:char (Char.ofNat 96) ⟨0,quote name⟩ = .ok backtick 1:=rfl
 have hadvance:Input.advance ⟨0,quote name⟩ 1=⟨1,name ++ [backtick]⟩:=rfl
 rw [TokenLexer.quoted,bind_apply_ok hopen,hadvance]
 by_cases hempty:pre=[]
 · have hnothing:Refuses (takeWhile1P (prints host))
    ⟨1,name ++ [backtick]⟩ := by
    simp [Refuses,takeWhile1P,htake,hempty]
   rw [bind_apply_error hnothing]
   rfl
 · have htext:takeWhile1P (prints host)
    ⟨1,name ++ [backtick]⟩ = .ok pre pre.length := by
    simp [takeWhile1P,htake,hempty]
   have hclose:Refuses (char (Char.ofNat 96))
     (Input.advance ⟨1,name ++ [backtick]⟩ pre.length) := by
    rw [Input.advance,hahead,List.drop_left]
    simp [Refuses,char,satisfy,hc]
   rw [bind_apply_ok htext,bind_apply_error hclose]
   simp [Reply.after]

theorem tokenPayload_quote (host:TokenLexer.Host) (name:Text) :
  (∀ text n, quoted host ⟨0,quote name⟩ = .ok text n →
    tokenPayload host ⟨0,quote name⟩ = .ok (.tIdentifiers (.tQuoted text)) n) ∧
   (quoted host ⟨0,quote name⟩ = .error true →
    tokenPayload host ⟨0,quote name⟩ = .error true) := by
 have hs:(quote name).head?.all (· == backtick)=true:=by simp [quote]
 have hliteral:Refuses (literalPayload host) ⟨0,quote name⟩:=by
  refine refuses_literalPayload hs (fun c hc=>?_) (by decide) (by decide)
  rw [beq_iff_eq.1 hc]
  decide
 have hgenitive:Refuses (string "'s") ⟨0,quote name⟩:=refuses_string hs (by decide)
 refine ⟨fun text n hok=>?_,fun hfails=>?_⟩
 · have hidentifier:identifiersPayload host ⟨0,quote name⟩ = .ok (.tQuoted text) n:=
    (orElse_of_refuses hgenitive.map).trans (orElse_of_ok (map_apply_ok hok))
   exact (orElse_of_refuses hliteral.map).trans (orElse_of_ok (map_apply_ok hidentifier))
 · have hidentifier:identifiersPayload host ⟨0,quote name⟩ = .error true:=
    (orElse_of_refuses hgenitive.map).trans (orElse_of_fails (map_apply_error hfails))
   exact (orElse_of_refuses hliteral.map).trans (orElse_of_fails (map_apply_error hidentifier))

/-- A quoted name is lexed as a name where all of it is printable. -/
theorem lexes_quoted_iff (hhost:AsciiClasses host) {name:Text} (hne:name ≠ [])
  (hbacktick:backtick ∉ name) :
  Lexes host (quote name) name ↔ ∀ c ∈ name, host.isPrint c=true := by
 have hquote:quote name ≠ []:=List.cons_ne_nil _ _
 constructor
 · intro ⟨token,hparse,_⟩
   by_contra hprint
   have herror:=(tokenPayload_quote host name).2 (quoted_fails hbacktick hprint)
   rw [parse_none (fun payload n hok=>by rw [herror] at hok; cases hok) hquote] at hparse
   cases hparse
 · intro hprint
   have hok:=(tokenPayload_quote host name).1 _ _ (quoted_ok hne hbacktick hprint)
   exact ⟨.tQuoted name,parse_token hhost hok hquote,rfl⟩

/-! ### The edits -/

/-- The edits of a rename in one document, in the order in which they are handed on. -/
def renameEdits (oldName newName uri text:Text) (locations:List Location) :
  List NodeWorkspace.TextEdit :=
 ((locations.filter (isOldName oldName text)).mergeSort fun a b=>!isAfter b a).map fun location=>
  ⟨uri,offsetAt text location.start,offsetAt text location.stop,
   renderReplacement (textInRange text location.start location.stop) newName
    (!isBareIdent newName)⟩

theorem renameIn_eq (oldName newName uri text:Text) (locations:List Location) :
  renameIn oldName newName text locations =
   (renameEdits oldName newName uri text locations).foldl (fun renamed e=>
    renamed.take e.startOffset.toNat ++ e.newText ++ renamed.drop e.endOffset.toNat) text := by
 simp [renameIn,renameEdits,List.foldl_map]

def existing (text:Text) (e:NodeWorkspace.TextEdit) : Text :=
 (text.take e.endOffset.toNat).drop e.startOffset.toNat

structure RewritesName (host:TokenLexer.Host) (oldName newName text:Text)
  (edits:List NodeWorkspace.TextEdit) : Prop where
 disjoint : edits.Pairwise WorkspaceEdits.Apart
 old : ∀ e ∈ edits, existing text e=oldName ∨ existing text e=quote oldName
 only : NodeWorkspace.State.edited text edits=some (WorkspaceEdits.replaced text edits)
 lexed : ∀ e ∈ edits, Lexes host e.newText newName

def Nameable (host:TokenLexer.Host) (existing newName:Text) : Prop :=
 if existing.head? = some backtick ∧ existing.getLast? = some backtick ∨
  isBareIdent newName=false then ∀ c ∈ newName, host.isPrint c=true
 else newName.head? ≠ some '_' ∧ keywords.lookup newName=none

structure Renamable (host:TokenLexer.Host) (oldName newName text:Text)
  (locations:List Location) : Prop where
 disjoint : (locations.filter (isOldName oldName text)).Pairwise fun a b=>
  offsetAt text a.stop ≤ offsetAt text b.start ∨ offsetAt text b.stop ≤ offsetAt text a.start
 old : ∀ l ∈ locations, isOldName oldName text l=true →
  textInRange text l.start l.stop=oldName ∨ textInRange text l.start l.stop=quote oldName
 named : ∀ l ∈ locations, isOldName oldName text l=true →
  Nameable host (textInRange text l.start l.stop) newName

theorem validate_spec {raw:Option Json} {name:Text} (h:validateRefactorName raw=some name) :
  name ≠ [] ∧ backtick ∉ name := by
 unfold validateRefactorName at h
 split at h
 · cases h
 · dsimp only at h
   split at h
   · cases h
   · rename_i hok
     rw [←Option.some.inj h]
     exact ⟨fun hnil=>hok (.inl hnil),fun hmem=>hok (.inr (.inl hmem))⟩

theorem linesFrom_le (start i:ℕ) (text:Text) :
  ∀ line ∈ linesFrom start i text, line.2 ≤ i+text.length := by
 fun_induction linesFrom start i text <;> grind

theorem offsetAt_le (text:Text) (position:Position) : offsetAt text position ≤ text.length := by
 unfold offsetAt
 split
 · exact Nat.le_refl _
 · rename_i line hline
   have hle:=linesFrom_le 0 0 text line (List.mem_of_getElem? hline)
   omega

variable {oldName newName text:Text} {locations:List Location}

/-- The range of an accepted location is not empty. -/
theorem range_lt (hold:oldName ≠ []) {l:Location} (hl:isOldName oldName text l=true) :
  offsetAt text l.start < offsetAt text l.stop := by
 rw [isOldName,decide_eq_true_eq] at hl
 by_contra hle
 have hnil:textInRange text l.start l.stop=[]:=by
  rw [textInRange,List.drop_eq_nil_iff,List.length_take]
  omega
 rw [hnil] at hl
 exact hold hl.symm

theorem lexes_replacement (hhost:AsciiClasses host) (hne:newName ≠ [])
  (hbacktick:backtick ∉ newName) (existing:Text) :
  Lexes host (renderReplacement existing newName (!isBareIdent newName)) newName ↔
   Nameable host existing newName := by
 unfold renderReplacement Nameable
 by_cases hquoted:existing.head? = some backtick ∧ existing.getLast? = some backtick ∨
   isBareIdent newName=false
 · rw [if_pos (by simpa using hquoted),if_pos hquoted]
   exact lexes_quoted_iff hhost hne hbacktick
 · rw [if_neg (by simpa using hquoted),if_neg hquoted]
   exact lexes_bare_iff hhost (by simpa using fun h=>hquoted (.inr h))

theorem mem_renameEdits {uri:Text} {P:NodeWorkspace.TextEdit → Prop} :
  (∀ e ∈ renameEdits oldName newName uri text locations, P e) ↔
   ∀ l ∈ locations, isOldName oldName text l=true →
    P ⟨uri,offsetAt text l.start,offsetAt text l.stop,
     renderReplacement (textInRange text l.start l.stop) newName (!isBareIdent newName)⟩ := by
 simp only [renameEdits,List.forall_mem_map,List.mem_mergeSort,List.mem_filter,and_imp]

theorem disjoint_renameEdits (oldName newName uri text:Text) (locations:List Location) :
  (renameEdits oldName newName uri text locations).Pairwise WorkspaceEdits.Apart ↔
   (locations.filter (isOldName oldName text)).Pairwise fun a b=>
    offsetAt text a.stop ≤ offsetAt text b.start ∨
     offsetAt text b.stop ≤ offsetAt text a.start := by
 rw [renameEdits,List.pairwise_map,
  (List.mergeSort_perm _ _).pairwise_iff fun h=>WorkspaceEdits.Apart.symm h]
 simp [WorkspaceEdits.Apart]

/-- Ranges that are not empty and do not overlap are replaced, and nothing else. -/
theorem only_replaced {edits:List NodeWorkspace.TextEdit}
  (hin:∀ e ∈ edits, WorkspaceEdits.InText text e ∧ e.startOffset < e.endOffset)
  (hapart:edits.Pairwise WorkspaceEdits.Apart) :
  NodeWorkspace.State.edited text edits=some (WorkspaceEdits.replaced text edits) := by
 have hseparate:WorkspaceEdits.Separate text edits:=⟨fun e he=>(hin e he).1,hapart⟩
 have hnone (edits':List NodeWorkspace.TextEdit) (hsub:∀ e ∈ edits', e ∈ edits) (o:ℕ) :
   WorkspaceEdits.insertedAt edits' o=[] := by
  rw [WorkspaceEdits.insertedAt,List.filter_eq_nil_iff.2,List.flatMap_nil]
  intro e he
  have hlt:=(hin e (hsub e he)).2
  simp only [decide_eq_true_eq]
  omega
 refine WorkspaceEdits.edited_eq_some_iff.2 ⟨hseparate,?_,?_⟩
 · refine List.Pairwise.imp_of_mem (fun ha _ _ hbefore=>?_) hapart
   obtain ⟨hstart,hend,-⟩:=hbefore
   have hlt:=(hin _ ha).2
   omega
 · refine ((WorkspaceEdits.replaced_reverse_iff hseparate).2 fun o=>?_).symm
   rw [hnone edits.reverse (fun e he=>List.mem_reverse.1 he),hnone edits fun e he=>he]

theorem rewritesName_iff (hhost:AsciiClasses host) (hold:oldName ≠ []) (hne:newName ≠ [])
  (hbacktick:backtick ∉ newName) (uri:Text) :
  RewritesName host oldName newName text (renameEdits oldName newName uri text locations) ↔
   Renamable host oldName newName text locations := by
 have hexisting (l:Location) (newText:Text) : existing text
   ⟨uri,offsetAt text l.start,offsetAt text l.stop,newText⟩=textInRange text l.start l.stop := rfl
 constructor
 · intro h
   have hlexed:=mem_renameEdits.1 h.lexed
   exact ⟨(disjoint_renameEdits _ _ _ _ _).1 h.disjoint,mem_renameEdits.1 h.old,
    fun l hl hname=>(lexes_replacement hhost hne hbacktick _).1 (hlexed l hl hname)⟩
 · intro h
   have hapart:=(disjoint_renameEdits oldName newName uri text locations).2 h.disjoint
   refine ⟨hapart,mem_renameEdits.2 h.old,only_replaced (mem_renameEdits.2 ?_) hapart,
    mem_renameEdits.2 fun l hl hname=>?_⟩
   · intro l hl hname
     have hlt:=range_lt hold hname
     have hle:=offsetAt_le text l.stop
     exact ⟨⟨by simp,by simp; omega,by simpa using hle⟩,by simpa using hlt⟩
   · exact (lexes_replacement hhost hne hbacktick _).2 (h.named l hl hname)

theorem asciiClasses : AsciiClasses asciiHost where
 isSpace c hc := by
  change c.isWhitespace=false
  have hspaces:([' ','\t','\r','\n'].all fun d=>!isWord d && d != backtick)=true:=by decide
  rw [←Bool.not_eq_true]
  intro hspace
  have hmem:c ∈ [' ','\t','\r','\n']:=by simpa [Char.isWhitespace,or_assoc] using hspace
  have hnot:=List.all_eq_true.1 hspaces c hmem
  rw [Bool.and_eq_true,Bool.not_eq_true',bne_iff_ne] at hnot
  rcases hc with hc | hc
  · exact Bool.false_ne_true (hnot.1.symm.trans hc)
  · exact hnot.2 hc
 isAlpha _ _ := rfl
 isAlphaNum c hc := by
  change c.isAlphanum=_
  by_cases hunderscore:c = '_'
  · rw [hunderscore]
    rfl
  · simp only [isWord,decide_eq_true_eq] at hc
    rw [bne_iff_ne.2 hunderscore,Char.isAlphanum,Bool.or_eq_true]
    rcases hc with hc | hc | hc
    · exact .inl hc
    · exact .inr hc
    · exact absurd hc hunderscore

end L4Ide.RenameEdits
