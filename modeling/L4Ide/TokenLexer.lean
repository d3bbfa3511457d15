import Mathlib.Algebra.Group.Nat.Defs
import Mathlib.Algebra.GroupWithZero.Nat
import Mathlib.Data.Char
import Mathlib.Data.List.Lex
import Mathlib.Data.List.Sort
import Mathlib.Data.Rat.Init
import L4Ide.ConsumingParsers

set_option autoImplicit false

/-!
# The lexer

Every token keeps what is needed to write it back: its raw text, or a decoded payload that is
spelled again through the table it was read with. The host's character classes and its reader
of one character of a string literal are parameters; texts are lists of characters.
-/
namespace L4Ide.TokenLexer
open ConsumingParsers ConsumingParsers.Parser

abbrev Text := List Char

abbrev Lexer (α:Type) := Parser Char α

/-! ### Tokens -/

inductive AnnoType where
 | inlineAnno | lineAnno
 deriving DecidableEq, Repr

structure LangTag where
 tag : Text
 deriving DecidableEq, Repr

inductive TDirectives where
 | tLazyEvalDirective | tLazyEvalTraceDirective | tCheckDirective | tContractDirective
 | tAssertDirective | tDirectiveContinue
 deriving DecidableEq, Repr

inductive TAnnotations where
 | tNlg (tag:Option LangTag) (text:Text) (type:AnnoType)
 | tRefSrc (text:Text)
 | tRefMap (text:Text)
 | tRef (text:Text) (type:AnnoType)
 | tNlgString (text:Text)
 | tNlgPrefix (tag:Option LangTag)
 | tDesc (text:Text)
 | tExport (text:Text)
 | tLang (tag:LangTag) (raw:Text)
 deriving DecidableEq, Repr

inductive TIdentifiers where
 | tIdentifier (text:Text)
 | tQuoted (text:Text)
 | tGenitive
 deriving DecidableEq, Repr

/-- `tCopy` is a copy token for which no token has been found to copy. -/
inductive TSymbols where
 | tRefOpen | tRefClose | tNlgOpen | tNlgClose | tParagraph | tPOpen | tPClose | tCOpen | tCClose
 | tComma | tSemicolon | tDot | tEllipsis | tEllipsisOr | tColon | tPercent | tCopy
 | tOtherSymbolic (text:Text)
 deriving DecidableEq, Repr

inductive TKeywords where
 | tKGiven | tKGiveth | tKGives | tKDecide | tKExact | tKMeans | tKDeclare | tKIf | tKBranch
 | tKThen | tKElse | tKOtherwise | tKAnd | tKOr | tKRAnd | tKROr | tKNot | tKIs | tKHas | tKOne
 | tKOf | tKWith | tKA | tKAn | tKThe | tKYield | tKConsider | tKWhere | tKList | tKAssume
 | tKWhen | tKType | tKParty | tKDo | tKDoes | tKMust | tKMay | tKShant | tKBreach | tKRefuse
 | tKRefused | tKBecause | tKProvided | tKWithin | tKHence | tKLest | tKFunction | tKFrom | tKTo
 | tKEquals | tKImplies | tKPlus | tKMinus | tKTimes | tKDivided | tKModulo | tKBy | tKGreater
 | tKLess | tKThan | tKAbove | tKBelow | tKAt | tKStarting | tKLeast | tKMost | tKFollowed
 | tKFor | tKAll | tKAka | tKImport | tKFetch | tKPost | tKEnv | tKConcat | tKAs | tKLet | tKIn
 | tKBe | tKMean | tKUnless
 deriving DecidableEq, Repr

inductive TOperators where
 | tTimes | tPlus | tMinus | tGreaterEquals | tLessEquals | tGreaterThan | tLessThan | tEquals
 | tEqualsEquals | tNotEquals | tAnd | tOr | tImplies | tDividedBy
 deriving DecidableEq, Repr

inductive TSpaces where
 | tSpace (text:Text)
 | tLineComment (text:Text)
 | tBlockComment (text:Text)
 | eof
 deriving DecidableEq, Repr

inductive TLiterals where
 | tIntLit (raw:Text) (value:ℤ)
 | tRationalLit (raw:Text) (value:ℚ)
 | tStringLit (raw decoded:Text)
 deriving DecidableEq

/-- A copy token that carries the token it copies has a constructor of its own. -/
inductive TokenType where
 | tDirectives (directive:TDirectives)
 | tLiterals (literal:TLiterals)
 | tSpaces (spaces:TSpaces)
 | tKeywords (keyword:TKeywords)
 | tAnnotations ( annotation : TAnnotations)
 | tSymbols (symbol:TSymbols)
 | tIdentifiers (identifier:TIdentifiers)
 | tOperators (operator:TOperators)
 | realTCopy (original:TokenType)
 deriving DecidableEq

/-! ### Tables -/

abbrev Table (α:Type) := List (Text × α)

section Table

variable {α:Type}

def Table.lookup (t:Text) (table:Table α) : Option α :=
 (table.find? fun entry=>entry.1=t).map Prod.snd

def Table.toAscList (table:Table α) : List (Text × α) :=
 table.insertionSort fun e f=>e.1 ≤ f.1

def Table.toDescList (table:Table α) : List (Text × α) := table.toAscList.reverse

def inverseCompleteLookup [DecidableEq α] (k:α) (table:Table α) : Option Text :=
 (table.toAscList.find? fun entry=>entry.2=k).map Prod.fst

end Table

def directives : Table TDirectives :=
 [("EVALTRACE".toList,.tLazyEvalTraceDirective),("EVAL".toList,.tLazyEvalDirective),
  ("CHECK".toList,.tCheckDirective),("TRACE".toList,.tContractDirective),
  ("ASSERT".toList,.tAssertDirective)]

def symbols : Table TSymbols :=
 [("^".toList,.tCopy),("(".toList,.tPOpen),(")".toList,.tPClose),("\x7b".toList,.tCOpen),
  ("\x7d".toList,.tCClose),("<<".toList,.tRefOpen),(">>".toList,.tRefClose),
  ("[".toList,.tNlgOpen),("]".toList,.tNlgClose),("§".toList,.tParagraph),
  (",".toList,.tComma),(";".toList,.tSemicolon),(".".toList,.tDot),
  ("...".toList,.tEllipsis),("..".toList,.tEllipsisOr),("%".toList,.tPercent),
  (":".toList,.tColon)]

def keywords : Table TKeywords :=
 [("GIVEN".toList,.tKGiven),("GIVETH".toList,.tKGiveth),("GIVES".toList,.tKGives),
  ("DECIDE".toList,.tKDecide),("EXACTLY".toList,.tKExact),("MEANS".toList,.tKMeans),
  ("DECLARE".toList,.tKDeclare),("IF".toList,.tKIf),("BRANCH".toList,.tKBranch),
  ("THEN".toList,.tKThen),("ELSE".toList,.tKElse),("OTHERWISE".toList,.tKOtherwise),
  ("AND".toList,.tKAnd),("OR".toList,.tKOr),("RAND".toList,.tKRAnd),
  ("ROR".toList,.tKROr),("NOT".toList,.tKNot),("IS".toList,.tKIs),("ONE".toList,.tKOne),
  ("OF".toList,.tKOf),("WITH".toList,.tKWith),("A".toList,.tKA),("AN".toList,.tKAn),
  ("HAS".toList,.tKHas),("THE".toList,.tKThe),("YIELD".toList,.tKYield),
  ("CONSIDER".toList,.tKConsider),("WHERE".toList,.tKWhere),("LIST".toList,.tKList),
  ("ASSUME".toList,.tKAssume),("WHEN".toList,.tKWhen),("TYPE".toList,.tKType),
  ("PARTY".toList,.tKParty),("DO".toList,.tKDo),("DOES".toList,.tKDoes),
  ("MUST".toList,.tKMust),("MAY".toList,.tKMay),("SHANT".toList,.tKShant),
  ("BREACH".toList,.tKBreach),("REFUSE".toList,.tKRefuse),("REFUSED".toList,.tKRefused),
  ("BECAUSE".toList,.tKBecause),("PROVIDED".toList,.tKProvided),
  ("WITHIN".toList,.tKWithin),("HENCE".toList,.tKHence),("LEST".toList,.tKLest),
  ("FUNCTION".toList,.tKFunction),("FROM".toList,.tKFrom),("TO".toList,.tKTo),
  ("EQUALS".toList,.tKEquals),("IMPLIES".toList,.tKImplies),("PLUS".toList,.tKPlus),
  ("MINUS".toList,.tKMinus),("TIMES".toList,.tKTimes),("DIVIDED".toList,.tKDivided),
  ("MODULO".toList,.tKModulo),("BY".toList,.tKBy),("GREATER".toList,.tKGreater),
  ("LESS".toList,.tKLess),("THAN".toList,.tKThan),("ABOVE".toList,.tKAbove),
  ("BELOW".toList,.tKBelow),("AT".toList,.tKAt),("STARTING".toList,.tKStarting),
  ("LEAST".toList,.tKLeast),("MOST".toList,.tKMost),("FOLLOWED".toList,.tKFollowed),
  ("FOR".toList,.tKFor),("ALL".toList,.tKAll),("AKA".toList,.tKAka),
  ("IMPORT".toList,.tKImport),("FETCH".toList,.tKFetch),("POST".toList,.tKPost),
  ("ENV".toList,.tKEnv),("CONCAT".toList,.tKConcat),("AS".toList,.tKAs),
  ("LET".toList,.tKLet),("IN".toList,.tKIn),("BE".toList,.tKBe),("MEAN".toList,.tKMean),
  ("UNLESS".toList,.tKUnless)]

def operators : Table TOperators :=
 [("*".toList,.tTimes),("+".toList,.tPlus),("-".toList,.tMinus),
  (">=".toList,.tGreaterEquals),("<=".toList,.tLessEquals),(">".toList,.tGreaterThan),
  ("<".toList,.tLessThan),("=".toList,.tEquals),("==".toList,.tEqualsEquals),
  ("&&".toList,.tAnd),("||".toList,.tOr),("=>".toList,.tImplies),("/".toList,.tDividedBy)]

/-! ### Display -/

def toAnno (lh oh ch t:Text) : AnnoType → Text
 | .inlineAnno=>oh ++ t ++ ch
 | .lineAnno=>lh ++ t

def toRefAnno : Text → AnnoType → Text := toAnno "@ref".toList "<<".toList ">>".toList

def langTagSuffix : Option LangTag → Text
 | none=>[]
 | some l=> ":".toList ++ l.tag

def toNlgAnno (mtag:Option LangTag) (t:Text) : AnnoType → Text
 | .inlineAnno=> "[".toList ++ t ++ "]".toList
 | .lineAnno=> "@nlg".toList ++ langTagSuffix mtag ++ t

def displayTokenType : TokenType → Option Text
 | .tSpaces (.tSpace t) | .tSpaces (.tLineComment t) | .tSpaces (.tBlockComment t)=>some t
 | .tSpaces .eof=>some []
 | .tLiterals (.tIntLit t _) | .tLiterals (.tRationalLit t _)
 | .tLiterals (.tStringLit t _)=>some t
 | .tAnnotations (.tNlg mtag t type)=>some (toNlgAnno mtag t type)
 | .tAnnotations (.tRef t type)=>some (toRefAnno t type)
 | .tAnnotations (.tRefSrc t)=>some ("@ref-src".toList ++ t)
 | .tAnnotations (.tRefMap t)=>some ("@ref-map".toList ++ t)
 | .tAnnotations (.tNlgString t)=>some t
 | .tAnnotations (.tNlgPrefix mtag)=>some ("@nlg".toList ++ langTagSuffix mtag)
 | .tAnnotations (.tDesc t)=>some ("@desc".toList ++ t)
 | .tAnnotations (.tExport t)=>some ("@export".toList ++ t)
 | .tAnnotations (.tLang _ raw)=>some ("@lang".toList ++ raw)
 | .tIdentifiers .tGenitive=>some "'s".toList
 | .tIdentifiers (.tIdentifier t)=>some t
 | .tIdentifiers (.tQuoted t)=>some ([Char.ofNat 96] ++ t ++ [Char.ofNat 96])
 | .tDirectives .tDirectiveContinue=>some "#".toList
 | .tDirectives directive=>
  (inverseCompleteLookup directive directives).map fun t=> "#".toList ++ t
 | .tKeywords keyword=>inverseCompleteLookup keyword keywords
 -- the copied token is not looked at
 | .realTCopy _=>inverseCompleteLookup .tCopy symbols
 | .tSymbols symbol=>inverseCompleteLookup symbol symbols
 | .tOperators operator=>inverseCompleteLookup operator operators

/-! ### Annotations -/

/-- Character classes and the reader of a string literal's character, which never stands still. -/
structure Host where
 isSpace : Char → Bool
 isAlpha : Char → Bool
 isAlphaNum : Char → Bool
 isPrint : Char → Bool
 charLiteral : Lexer Char
 charLiteral_consumes : Consumes charLiteral

def string (w:String) : Lexer Text := chunk w.toList

def char (c:Char) : Lexer Char := satisfy (· == c)

def isDigit (c:Char) : Bool := '0' ≤ c && c ≤ '9'

def isLangTagChar (c:Char) : Bool :=
 ('a' ≤ c && c ≤ 'z') || ('A' ≤ c && c ≤ 'Z') || isDigit c || c == '-'

def restOfLine : Lexer Text := takeWhileP (· != '\n')

def langTag : Lexer LangTag := attempt do
 let _ ← char ':'
 LangTag.mk <$> takeWhile1P isLangTagChar

def lineNlgAnno : Lexer (Option LangTag × Text × AnnoType) := do
 let _ ← string "@nlg"
 let mtag ← optional langTag
 let t ← restOfLine
 pure (mtag,t,.lineAnno)

def isNlgEscapable (c:Char) : Bool := c == '\\' || c == '%' || c == ']' || c == '['

def isRefEscapable (c:Char) : Bool := c == '\\' || c == '>'

def escaped (escapable:Char → Bool) : Lexer Text := attempt do
 let backslash ← char '\\'
 let c ← satisfy escapable
 pure [backslash,c]

def loneBackslash : Lexer Text := List.singleton <$> char '\\'

def inlineNlgAnno : Lexer (Text × AnnoType) := do
 let _ ← char '['
 let anno ← many (escaped isNlgEscapable <|>
  takeWhile1P (fun c=>c != '\\' && c != ']') <|> loneBackslash)
 let _ ← char ']'
 pure (anno.flatten,.inlineAnno)

def nlgAnnotation : Lexer (Option LangTag × Text × AnnoType) :=
 lineNlgAnno <|> (fun anno=>(none,anno.1,anno.2)) <$> inlineNlgAnno

def loneGt : Lexer Text := attempt do
 let _ ← notFollowedBy (string ">>")
 List.singleton <$> char '>'

def inlineRefAnno : Lexer (Text × AnnoType) := do
 let _ ← string "<<"
 let anno ← many (escaped isRefEscapable <|>
  takeWhile1P (fun c=>c != '\\' && c != '>') <|> loneBackslash <|> loneGt)
 let _ ← string ">>"
 pure (anno.flatten,.inlineAnno)

def lineAnno (herald:String) : Lexer (Text × AnnoType) := do
 let _ ← string herald
 (fun t=>(t,.lineAnno)) <$> restOfLine

def refAnnotation : Lexer (Text × AnnoType) := lineAnno "@ref" <|> inlineRefAnno

def refSrcAnnotation : Lexer Text := Prod.fst <$> lineAnno "@ref-src"

def refMapAnnotation : Lexer Text := Prod.fst <$> lineAnno "@ref-map"

def langAnnotation : Lexer (LangTag × Text) := attempt do
 let _ ← string "@lang"
 let sp ← takeWhile1P (· == ' ')
 let tag ← takeWhile1P isLangTagChar
 let rest ← restOfLine
 pure (⟨tag⟩,sp ++ tag ++ rest)

def descAnnotation : Lexer Text := Prod.fst <$> lineAnno "@desc"

def exportAnnotation : Lexer Text := Prod.fst <$> lineAnno "@export"

def annotationsPayload : Lexer TAnnotations := asum
 [.tRefSrc <$> refSrcAnnotation,
  .tRefMap <$> refMapAnnotation,
  (fun r=>.tLang r.1 r.2) <$> langAnnotation,
  .tDesc <$> descAnnotation,
  .tExport <$> exportAnnotation,
  (fun r=>.tNlg r.1 r.2.1 r.2.2) <$> nlgAnnotation,
  (fun r=>.tRef r.1 r.2) <$> refAnnotation]

/-! ### Comments and directives -/

def lineComment : Lexer Text := do
 let herald ← string "--" <|> string "//"
 (fun rest=>herald ++ rest) <$> restOfLine

def delimitedComment (inner:Lexer Text) (opening closing:String) : Lexer Text := do
 let b ← string opening
 (fun r=>b ++ r.1.flatten ++ r.2) <$> manyTill inner (string closing)

def blockCommentStep (blockComment:Lexer Text) : Lexer Text :=
 let inner:=blockComment <|> List.singleton <$> anySingle
 delimitedComment inner "\x7b-" "-\x7d" <|> delimitedComment inner "/*" "*/"

def blockComment : Lexer Text := fixed blockCommentStep

def directiveLiteral : Lexer TDirectives := do
 let _ ← string "#"
 asum (directives.toDescList.map fun entry=>(fun _=>entry.2) <$> chunk entry.1) <|>
  (fun _=>.tDirectiveContinue) <$> lookAhead (char ' ')

/-! ### Literals -/

def digitsStep (a:ℤ) (c:Char) : ℤ :=
 if c = '_' then a else a*10+((c.toNat - '0'.toNat : ℕ) : ℤ)

/-- A digit, then digits and separators, the last of which is no separator. -/
def digits : Lexer Text := do
 let d0 ← satisfy isDigit
 let rest ← takeWhileP fun c=>isDigit c || c == '_'
 if (d0::rest).getLast? = some '_' then fail else pure (d0::rest)

def decimal : Lexer (Text × ℤ) := (fun s=>(s,s.foldl digitsStep 0)) <$> digits

def negated {α:Type} (neg:α → α) (p:Lexer (Text × α)) : Lexer (Text × α) := do
 let x ← string "-"
 (fun r=>(x ++ r.1,neg r.2)) <$> p

def integerLiteral : Lexer (Text × ℤ) := negated (- ·) decimal <|> decimal

/-- The coefficient goes on from `c'`; the exponent counts the digits. -/
def dotDecimal (c' : ℤ) : Lexer (ℤ × ℕ × Text) := do
 let _ ← satisfy (· == '.')
 (fun s=>(s.foldl digitsStep c', (s.filter (· != '_')).length,s)) <$> digits

def float : Lexer (Text × ℚ) := do
 let whole ← decimal
 (fun r=>(whole.1 ++ ".".toList ++ r.2.2,mkRat r.1 (10 ^ r.2.1))) <$> dotDecimal whole.2

def rationalLiteral : Lexer (Text × ℚ) := negated (- ·) float <|> float

section Payloads

variable (host:Host)

def stringLiteral : Lexer (Text × Text) := slice do
 let _ ← char '"'
 Prod.fst <$> manyTill host.charLiteral (char '"')

def literalPayload : Lexer TLiterals := asum
 [(fun r=>.tRationalLit r.1 r.2) <$> attempt rationalLiteral,
  (fun r=>.tIntLit r.1 r.2) <$> attempt integerLiteral,
  (fun r=>.tStringLit r.1 r.2) <$> stringLiteral host]

/-! ### The other payloads -/

def quoted : Lexer Text := do
 let _ ← char (Char.ofNat 96)
 let t ← takeWhile1P fun c=>host.isPrint c && c != Char.ofNat 96
 let _ ← char (Char.ofNat 96)
 pure t

def identifiersPayload : Lexer TIdentifiers := asum
 [(fun _=>.tGenitive) <$> string "'s",
  .tQuoted <$> quoted host]

def whitespace : Lexer Text := takeWhile1P host.isSpace

def spacesPayload : Lexer TSpaces := asum
 [.tSpace <$> whitespace host,
  .tLineComment <$> lineComment,
  .tBlockComment <$> blockComment]

def symbolsPayload : Lexer TSymbols :=
 asum ((symbols.toAscList.insertionSort fun e f=>f.1.length ≤ e.1.length).map
  fun entry=>(fun _=>entry.2) <$> chunk entry.1)

def isOperatorChar (c:Char) : Bool := "=<>+-*/:~&|%§".toList.contains c

def operatorString : Lexer Text := takeWhile1P isOperatorChar

/-- The run is consumed before it is looked up: one that is no operator is an error for good. -/
def operatorsPayload : Lexer TOperators := do
 let s ← operatorString
 match operators.lookup s with
 | some operator=>pure operator
 | none=>fail

def identifier : Lexer Text := do
 let c ← satisfy host.isAlpha
 List.cons c <$> takeWhileP fun x=>host.isAlphaNum x || x == '_'

def identifierOrKeyword : Lexer TokenType :=
 (fun i=>match keywords.lookup i with
  | none=>.tIdentifiers (.tIdentifier i)
  | some keyword=>.tKeywords keyword) <$> identifier host

def tokenPayload : Lexer TokenType := asum
 [.tLiterals <$> literalPayload host,
  .tIdentifiers <$> identifiersPayload host,
  .tDirectives <$> directiveLiteral,
  .tAnnotations <$> annotationsPayload,
  .tSpaces <$> spacesPayload host,
  .tSymbols <$> symbolsPayload,
  .tOperators <$> operatorsPayload,
  (fun s=>.tSymbols (.tOtherSymbolic s)) <$> operatorString,
  identifierOrKeyword host]

def nlgString : Lexer Text :=
 List.flatten <$> many1 (escaped isNlgEscapable <|>
  takeWhile1P (fun c=>!(c == '\\' || c == ']' || c == '%') && !host.isSpace c) <|>
  loneBackslash)

def nlgTokenPayload : Lexer TokenType := asum
 [(fun _=>.tSymbols .tPercent) <$> satisfy (· == '%'),
  (fun t=>.tSpaces (.tSpace t)) <$> whitespace host,
  (fun t=>.tIdentifiers (.tQuoted t)) <$> quoted host,
  (fun t=>.tIdentifiers (.tIdentifier t)) <$> identifier host,
  (fun _=>.tSymbols .tNlgOpen) <$> char '[',
  (fun _=>.tSymbols .tNlgClose) <$> char ']',
  (do
   let _ ← string "@nlg"
   (fun mtag=>.tAnnotations (.tNlgPrefix mtag)) <$> optional langTag),
  (fun t=>.tAnnotations (.tNlgString t)) <$> nlgString host]

end Payloads

/-! ### Raw tokens and their positions -/

structure RawToken where
 start : ℕ
 payload : TokenType
 stop : ℕ
 deriving DecidableEq

def located (payload:Lexer TokenType) : Lexer RawToken := do
 let start ← getOffset
 let tt ← payload
 RawToken.mk start tt <$> getOffset

def rawTokens (host:Host) : Lexer (List RawToken) := many (located (tokenPayload host))

def rawNlgTokens (host:Host) : Lexer (List RawToken) := many (located (nlgTokenPayload host))

structure SrcPos where
 line : ℕ
 column : ℕ
 deriving DecidableEq, Repr

structure SrcRange where
 start : SrcPos
 stop : SrcPos
 length : ℕ
 moduleUri : Text
 deriving DecidableEq, Repr

structure PosToken where
 range : SrcRange
 payload : TokenType
 deriving DecidableEq

structure PosState where
 pstateInput : Text
 pstateOffset : ℕ
 pstateSourcePos : SrcPos
 pstateTabWidth : ℕ

def initialPosState (txt:Text) : PosState := ⟨txt,0,⟨1,1⟩,8⟩

def advancePos (tabWidth:ℕ) (p:SrcPos) (c:Char) : SrcPos :=
 if c = '\n' then ⟨p.line+1,1⟩
 else if c = '\t' then ⟨p.line,p.column+tabWidth-(p.column-1) % tabWidth⟩
 else ⟨p.line,p.column+1⟩

def reachOffsetNoLine (o:ℕ) (pst:PosState) : PosState where
 pstateInput:=pst.pstateInput.drop (o-pst.pstateOffset)
 pstateOffset:=max pst.pstateOffset o
 pstateSourcePos:=(pst.pstateInput.take (o-pst.pstateOffset)).foldl
  (advancePos pst.pstateTabWidth) pst.pstateSourcePos
 pstateTabWidth:=pst.pstateTabWidth

/-- The tokens of the line so far, and of the line before it that was not all space. -/
structure TokenState where
 posState : PosState
 currentLine : ℕ
 currentLineToks : List PosToken
 prevLineToks : List PosToken

def initialTokenState (txt:Text) : TokenState := ⟨initialPosState txt,0,[],[]⟩

def computedPayload (pt:PosToken) : TokenType :=
 match pt.payload with
 | .realTCopy original=>original
 | other=>other

def isSpaceToken (t:PosToken) : Bool :=
 match computedPayload t with
 | .tSpaces _=>true
 | _=>false

def findMatchingToken (c:ℕ) (pts:List PosToken) : Option TokenType :=
 (pts.find? fun pt=>pt.range.start.column == c).map computedPayload

def enterLine (line:ℕ) (ts:TokenState) : TokenState :=
 if line=ts.currentLine then ts
 else { ts with
  currentLine:=line
  currentLineToks:=[]
  prevLineToks :=
   if ts.currentLineToks.all isSpaceToken then ts.prevLineToks else ts.currentLineToks }

def copied (column:ℕ) (prevLineToks:List PosToken) : TokenType → TokenType
 | .tSymbols .tCopy=>
  match findMatchingToken column prevLineToks with
  | some original=>.realTCopy original
  | none=>.tSymbols .tCopy
 | other=>other

def posTokenStep (uri:Text) (ts:TokenState) (rtok:RawToken) : PosToken × TokenState :=
 let pstStart:=reachOffsetNoLine rtok.start ts.posState
 let pstEnd:=reachOffsetNoLine rtok.stop pstStart
 let ts' :={ enterLine pstStart.pstateSourcePos.line ts with posState:=pstEnd }
 let pt:PosToken:=
  { range:=⟨pstStart.pstateSourcePos,pstEnd.pstateSourcePos,rtok.stop-rtok.start,uri⟩
    payload:=copied pstStart.pstateSourcePos.column ts'.prevLineToks rtok.payload }
 (pt,{ ts' with currentLineToks:=pt::ts'.currentLineToks })

def posTokensFrom (uri:Text) (ts:TokenState) : List RawToken → List PosToken
 | []=>[]
 | rtok::rtoks=>
  (posTokenStep uri ts rtok).1::posTokensFrom uri (posTokenStep uri ts rtok).2 rtoks

def mkPosTokens (sourcePosOffset:Option SrcPos) (uri txt:Text) (rtoks:List RawToken) :
  List PosToken :=
 let startTokenState:=initialTokenState txt
 let tokenSt:=match sourcePosOffset with
  | none=>startTokenState
  | some offset=>
   { startTokenState with
     posState:={ startTokenState.posState with pstateSourcePos:=offset } }
 posTokensFrom uri tokenSt rtoks

/-- The tokens of a text that is read to its end; a text that is not has none. -/
def parse (rawTokens:Lexer (List RawToken)) (input:Text) : Option (List RawToken) :=
 match (do let rtoks ← rawTokens; eof; pure rtoks : Lexer (List RawToken)) ⟨0,input⟩ with
 | .ok rtoks _=>some rtoks
 | .error _=>none

def execLexer (host:Host) (uri input:Text) : Option (List PosToken) :=
 (parse (rawTokens host) input).map (mkPosTokens none uri input)

def execNlgLexer (host:Host) (offset:SrcPos) (uri input:Text) : Option (List PosToken) :=
 (parse (rawNlgTokens host) input).map (mkPosTokens (some offset) uri input)

def displayPosToken (pt:PosToken) : Option Text := displayTokenType pt.payload

/-- The token the parser says it was expecting. -/
def trivialToken (uri:Text) (tt:TokenType) : PosToken := ⟨⟨⟨0,0⟩,⟨0,0⟩,0,uri⟩,tt⟩

def expectedSymbols : List TSymbols :=
 [.tNlgOpen,.tNlgClose,.tPercent,.tSemicolon,.tParagraph,.tComma,.tColon,.tPOpen,.tPClose,
  .tEllipsis,.tEllipsisOr]

def expectedOperators : List TOperators :=
 [.tEquals,.tOr,.tAnd,.tImplies,.tLessEquals,.tGreaterEquals,.tLessThan,.tGreaterThan,
  .tPlus,.tMinus,.tTimes,.tDividedBy]

/-- The tokens the parser asks for by name: any keyword and directive, and these. -/
def expected : TokenType → Bool
 | .tKeywords _ | .tDirectives _=>true
 | .tSymbols symbol=>symbol ∈ expectedSymbols
 | .tOperators operator=>operator ∈ expectedOperators
 | .tIdentifiers identifier=>identifier ∈ [.tIdentifier "TIMEZONE".toList,.tGenitive]
 | _=>false

end L4Ide.TokenLexer
