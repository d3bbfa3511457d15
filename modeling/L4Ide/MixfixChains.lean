import L4Ide.SourceAnnotations

set_option autoImplicit false

/-!
# Chains of mixfix keywords

An operand is followed by at most one postfix operator, or by keywords with operands of their own.
Whether a keyword is postfix or infix is seen from what follows it on its line. The base
expressions, the names and the sentences of annotations are read by parsers of the grammar.
-/
namespace L4Ide.MixfixChains
open ConsumingParsers ConsumingParsers.Parser TokenLexer SourceAnnotations

inductive RawName where
 | normalName (text:Text)
 | qualifiedName (qualifiers:List Text) (text:Text)
 | preDef (text:Text)
 deriving DecidableEq

structure Name where
 anno : Anno
 rawName : RawName
 deriving DecidableEq

/-- `N` is what nodes of the other kinds keep below their annotation. -/
inductive Expr (N:Type) where
 | app (anno:Anno) (name:Name) (args:List (Expr N))
 | appNamed (anno:Anno) (name:Name) (rest:N)
 | percent (anno:Anno) (e:Expr N)
 | asString (anno:Anno) (e:Expr N)
 | proj (anno:Anno) (e:Expr N) (field:Name)
 | node (anno:Anno) (rest:N)

section Expr
variable {N:Type}

def Expr.getAnno : Expr N → Anno
 | .app anno _ _=>anno
 | .appNamed anno _ _=>anno
 | .percent anno _=>anno
 | .asString anno _=>anno
 | .proj anno _ _=>anno
 | .node anno _=>anno

def Expr.setAnno (anno:Anno) : Expr N → Expr N
 | .app _ name args=>.app anno name args
 | .appNamed _ name rest=>.appNamed anno name rest
 | .percent _ e=>.percent anno e
 | .asString _ e=>.asString anno e
 | .proj _ e field=>.proj anno e field
 | .node _ rest=>.node anno rest

def Expr.rangeOf (e:Expr N) : Option SrcRange := e.getAnno.rangeOf

def Name.rangeOf (n:Name) : Option SrcRange := n.anno.rangeOf

def exprNameRange : Expr N → Option SrcRange
 | .app _ n _=>n.anno.range
 | .appNamed _ n _=>n.anno.range
 | _=>none

def exprRangeWithName (e:Expr N) : Option SrcRange :=
 (e.rangeOf.or e.getAnno.range).or (exprNameRange e)

end Expr

structure ExprLineInfo where
 exprEndLine : ℕ
 exprIndentColumn : Option ℕ
 deriving DecidableEq

def defaultExprLineInfo : ExprLineInfo := ⟨0,none⟩

def mkExprLineInfo (rng:SrcRange) : ExprLineInfo := ⟨rng.stop.line,some rng.start.column⟩

def exprLineInfoWithFallback (fallback:ExprLineInfo) (range:Option SrcRange)
  (fallbackIndent:Option ℕ) : ExprLineInfo :=
 match range with
 | none=>{ fallback with exprIndentColumn:=fallback.exprIndentColumn.or fallbackIndent }
 | some rng=>mkExprLineInfo rng

def isQuotedIdentifierToken (t:PosToken) : Bool :=
 match t.payload with
 | .tIdentifiers (.tQuoted _)=>true
 | _=>false

def keywordAlignedWith (allowNextLine:Bool) (info:ExprLineInfo) (tok:SrcPos) : Bool :=
 tok.line == info.exprEndLine
  || (allowNextLine
    && info.exprIndentColumn.any fun indent=>
       tok.column == indent
        && (info.exprEndLine == 0 || tok.line == info.exprEndLine+1))

abbrev TokenParser (A:Type) := Parser PosToken A

/-- The parsers that are not told apart here; `nlgTokens` are the tokens a sentence is made of, if
it is well formed. -/
structure Grammar (N:Type) where
 nlgTokens : PosToken → Option (List PosToken)
 name : TokenParser Name
 literalOrName : TokenParser (Expr N)
 parenExpr : TokenParser (Expr N)
 baseExpr' : TokenParser (Expr N)

structure MixfixHintRegistry where
 keywordUniverse : List RawName

def hasMixfixHints (hints:MixfixHintRegistry) : Bool := !hints.keywordUniverse.isEmpty

def isKnownMixfixKeyword (kw:RawName) (hints:MixfixHintRegistry) : Bool :=
 hints.keywordUniverse.contains kw

def guard (b:Bool) : TokenParser Unit := if b then pure () else Parser.fail

def ofOption {A:Type} : Option A → TokenParser A
 | none=>Parser.fail
 | some a=>pure a

def spaces : TokenParser (List PosToken) := takeWhileP isSpaceToken

def isAnnotation (t:PosToken) : Bool :=
 match t.payload with
 | .tAnnotations (.tLang _ _) | .tAnnotations (.tRefSrc _) | .tAnnotations (.tRefMap _)=>true
 | .tAnnotations (.tDesc _) | .tAnnotations (.tExport _)=>true
 | .tAnnotations (.tNlg _ _ _) | .tAnnotations (.tRef _ _)=>true
 | _=>false

section Tokens
variable {N:Type} (G:Grammar N)

def annotationTokens (t:PosToken) : Option (List PosToken) :=
 match t.payload with
 | .tAnnotations (.tNlg _ _ _)=>G.nlgTokens t
 | _=>some [t]

def annotation : TokenParser CsnCluster := do
 let t ← satisfy isAnnotation
 let trailingTokens ← spaces
 let original ← ofOption (annotationTokens G t)
 return epaToHiddenCluster ⟨original,trailingTokens,(),[]⟩

def spaceOrAnnotations : TokenParser (Lexeme Unit) := do
 let ws ← spaces
 let hiddenClusters ← many ( annotation G)
 return ⟨ws,(),hiddenClusters⟩

def lexeme {A:Type} (p:TokenParser A) : TokenParser (Lexeme A) := do
 let a ← p
 let wsOrAnnotation ← spaceOrAnnotations G
 return ⟨ wsOrAnnotation.trailingTokens,a, wsOrAnnotation.hiddenClusters⟩

def plainToken (tt:TokenType) : TokenParser PosToken :=
 satisfy fun t=>computedPayload t == tt

def spacedToken_ (tt:TokenType) : TokenParser (Lexeme PosToken) := lexeme G (plainToken tt)

def tokenWith {A:Type} (cond:TokenType → Option A) : TokenParser (PosToken × A) := fun s=>
 match s.ahead with
 | []=>.error false
 | t::_=>
  match cond (computedPayload t) with
  | none=>.error false
  | some a=>.ok (t,a) 1

def spacedToken {A:Type} (cond:TokenType → Option A) : TokenParser (Epa A) :=
 lexToEpa' <$> lexeme G (tokenWith cond)

def quotedText : TokenType → Option Text
 | .tIdentifiers (.tQuoted text)=>some text
 | _=>none

def identifierText : TokenType → Option Text
 | .tIdentifiers (.tIdentifier text)=>some text
 | _=>none

def peekToken : TokenParser PosToken := lookAhead do
 let _ ← spaceOrAnnotations G
 anySingle

def peekNextTokenLayout : TokenParser ExprLineInfo := do
 let tok ← peekToken G
 return ⟨tok.range.start.line,some tok.range.start.column⟩

def keywordName : TokenParser (Epa Name) :=
 Epa.map (fun text=>⟨emptyAnno,.normalName text⟩) <$>
  (spacedToken G quotedText <|> spacedToken G identifierText)

def postfixAfter (lineAwareOps:ExprLineInfo → TokenParser (Expr N → Expr N))
  (regularOps:TokenParser (Expr N → Expr N)) (a:Expr N) : TokenParser (Expr N) := do
 let exprRange:=a.rangeOf.or a.getAnno.range
 let exprInfo:=exprLineInfoWithFallback defaultExprLineInfo exprRange none
 match ← optional (attempt (lineAwareOps exprInfo) <|> attempt regularOps) with
 | none=>return a
 | some f=>return f a

/-- Where an operand ends, as the postfix operators see it. -/
def postfixLineInfo (a:Expr N) : ExprLineInfo :=
 exprLineInfoWithFallback defaultExprLineInfo (a.rangeOf.or a.getAnno.range) none

def opToken (t:TokenType) : TokenParser Anno :=
 (fun l=>mkSimpleEpaAnno (lexToEpa l)) <$> spacedToken_ G t

def postfixAsType : TokenParser (Expr N → Expr N) := do
 let asAnno ← opToken G (.tKeywords .tKAs)
 let articleLex ← optional (spacedToken_ G (.tKeywords .tKA) <|> spacedToken_ G (.tKeywords .tKAn))
 let typename ← G.name
 let articleAnno:=match articleLex with
  | none=>emptyAnno
  | some l=>mkSimpleEpaAnno (lexToEpa l)
 let op:=asAnno ++ (articleAnno ++ typename.anno)
 return fun l=>.asString (fixAnnoSrcRange (mkHoleAnnoFor l.rangeOf ++ op)) l

def regularPostfixOperator : TokenParser (Expr N → Expr N) :=
 (fun op l=>.percent (fixAnnoSrcRange
  (mkHoleAnnoFor (Expr.rangeOf l) ++ mkSimpleEpaAnno (lexToEpa op))) l) <$>
   spacedToken_ G (.tSymbols .tPercent)
  <|> postfixAsType G

variable (hints:MixfixHintRegistry)

/-- The guards of a postfix keyword, and whether it is on the line its argument ends on. -/
def mixfixPostfixHead (exprLineInfo:ExprLineInfo) : TokenParser (Epa Name × Bool) := do
 let allowNextLine:=hasMixfixHints hints
 let nextTok ← peekToken G
 let allowWithToken:=allowNextLine || isQuotedIdentifierToken nextTok
 let tokStart:=nextTok.range.start
 let sameLine:=tokStart.line == exprLineInfo.exprEndLine
 guard (keywordAlignedWith allowWithToken exprLineInfo tokStart)
 let eN ← keywordName G
 guard (!hasMixfixHints hints || isKnownMixfixKeyword eN.payload.rawName hints)
 return (eN,sameLine)

/-- A keyword on the next line is postfix only if what follows it is further to the left. -/
def allowsPostfixNewline (exprLineInfo:ExprLineInfo) (nextAfterKeyword:Option PosToken) :
  Bool :=
 match exprLineInfo.exprIndentColumn, nextAfterKeyword with
 | _, none=>true
 | some indent, some peekTok=>decide (peekTok.range.start.column < indent)
 | _, _=>false

def newlineGuard (exprLineInfo:ExprLineInfo) (sameLine:Bool) : TokenParser Unit :=
 if sameLine then pure ()
 else do
  let nextAfterKeyword ← optional (peekToken G)
  guard (allowsPostfixNewline exprLineInfo nextAfterKeyword)

def mixfixPostfixOpWith (notFollowedByOperand:ℕ → TokenParser Unit)
  (exprLineInfo:ExprLineInfo) : TokenParser (Expr N → Expr N) := attempt do
 let (eN,sameLine) ← mixfixPostfixHead G hints exprLineInfo
 newlineGuard G exprLineInfo sameLine
 notFollowedByOperand exprLineInfo.exprEndLine
 return fun l=>.app (fixAnnoSrcRange (mkAnno [.annoHole none] ++
  (mkHoleAnnoFor l.rangeOf ++ mkSimpleEpaAnno eN))) eN.payload [l]

structure InfixAhead (N:Type) where
 keyword : Epa Name
 operandLayout : ExprLineInfo
 operand : Expr N

def infixAhead (exprLineInfo:ExprLineInfo) : TokenParser (InfixAhead N) := attempt do
 let (kw,sameLine) ← mixfixPostfixHead G hints exprLineInfo
 guard sameLine
 let tok ← lookAhead anySingle
 guard (tok.range.start.line == exprLineInfo.exprEndLine)
 let operandLayout ← peekNextTokenLayout G
 let operand ← G.baseExpr'
 return ⟨kw,operandLayout,operand⟩

def postfixOrInfix (a:Expr N) : TokenParser (Expr N × Option (InfixAhead N)) := do
 match ← optional (infixAhead G hints (postfixLineInfo a)) with
 | some ahead=>return (a,some ahead)
 | none=>
  let a' ← postfixAfter (mixfixPostfixOpWith G hints fun _=>pure ())
   (regularPostfixOperator G) a
  return (a', none)

def baseExprStep : TokenParser (Expr N × Option (InfixAhead N)) := do
 let a ← G.baseExpr'
 postfixOrInfix G hints a

def advanceInfo (layout:ExprLineInfo) (exprNode:Expr N) : ExprLineInfo :=
 exprLineInfoWithFallback layout (exprRangeWithName exprNode) none

def pairToArgs (pair:Epa Name × Expr N) : List (Expr N) :=
 [.app (mkSimpleEpaAnno pair.1) pair.1.payload [],pair.2]

/-- The tokens of a keyword in front of an expression, out of the expression's own range. -/
def prependHiddenEpa (kw:Epa Name) (e:Expr N) : Expr N :=
 e.setAnno { e.getAnno with
  payload:=(epaToHiddenCluster kw::kw.hiddenClusters).map mkCluster ++ e.getAnno.payload }

def buildChain (firstExpr:Expr N) (firstKeyword:Epa Name) (firstArg:Expr N)
  (moreKwArgs:List (Epa Name × Expr N)) : Expr N :=
 let allArgs:=firstExpr::prependHiddenEpa firstKeyword firstArg ::
  moreKwArgs.flatMap pairToArgs
 .app (mkAnno [.annoHole none,.annoHole (rangeOfAll (allArgs.map Expr.rangeOf))])
  firstKeyword.payload allArgs

variable (nextLineOk:Bool)

def mixfixKeywordAligned (anchorInfo:ExprLineInfo) : TokenParser (Epa Name) := do
 let allowNextLine:=nextLineOk && hasMixfixHints hints
 let tok ← peekToken G
 let allowWithToken:=allowNextLine || (nextLineOk && isQuotedIdentifierToken tok)
 guard (keywordAlignedWith allowWithToken anchorInfo tok.range.start)
 let kw ← keywordName G
 guard (!hasMixfixHints hints || isKnownMixfixKeyword kw.payload.rawName hints)
 return kw

/-- The next keywords with their operands; each call but the last reads one. -/
def gatherChain : ℕ → ExprLineInfo → Option (InfixAhead N) →
  TokenParser (List (Epa Name × Expr N))
 | 0, _, _=>Parser.fail
 | fuel+1, _, some ahead=>do
  let (arg,ahead') ← postfixOrInfix G hints ahead.operand
  let nextInfo:=advanceInfo ahead.operandLayout arg
  List.cons (ahead.keyword,arg) <$> gatherChain fuel nextInfo ahead'
 | fuel+1, info, none=>do
  let mNext ← optional <| attempt do
   let kw ← mixfixKeywordAligned G hints nextLineOk info
   let argLayout ← peekNextTokenLayout G
   let (arg,ahead) ← baseExprStep G hints
   return ((kw,arg),advanceInfo argLayout arg,ahead)
  match mNext with
  | none=>return []
  | some (pair,nextInfo,ahead)=>List.cons pair <$> gatherChain fuel nextInfo ahead

def mixfixChainCont (fuel:ℕ) (prevInfo:ExprLineInfo) :
  TokenParser (Epa Name × Expr N × List (Epa Name × Expr N)) := do
 let firstKw ← mixfixKeywordAligned G hints nextLineOk prevInfo
 let firstArgLayout ← peekNextTokenLayout G
 let (firstArg,ahead) ← baseExprStep G hints
 let rest ← gatherChain G hints nextLineOk fuel (advanceInfo firstArgLayout firstArg) ahead
 return (firstKw,firstArg,rest)

def mixfixChainFrom (fuel:ℕ) (ahead:InfixAhead N) :
  TokenParser (Epa Name × Expr N × List (Epa Name × Expr N)) := do
 let (firstArg,ahead') ← postfixOrInfix G hints ahead.operand
 let rest ← gatherChain G hints nextLineOk fuel (advanceInfo ahead.operandLayout firstArg) ahead'
 return (ahead.keyword,firstArg,rest)

def chainWithin (fuel:ℕ) : TokenParser (Expr N) := do
 let firstLayoutHint ← peekNextTokenLayout G
 let (firstExpr,firstAhead) ← baseExprStep G hints
 let firstExprInfo:=exprLineInfoWithFallback firstLayoutHint (exprRangeWithName firstExpr) none
 let mChain ← match firstAhead with
  | some ahead=>some <$> mixfixChainFrom G hints nextLineOk fuel ahead
  | none=>optional (attempt (mixfixChainCont G hints nextLineOk fuel firstExprInfo))
 match mChain with
 | none=>return firstExpr
 | some (firstKeyword,firstArg,moreKwArgs)=>
  return buildChain firstExpr firstKeyword firstArg moreKwArgs

/-- A chain has no more keywords than there are tokens ahead. -/
def mixfixChainExprNextLine : TokenParser (Expr N) := fun s=>
 chainWithin G hints nextLineOk (s.ahead.length+2) s

def genitive : TokenType := .tIdentifiers .tGenitive

/-- Stands in for the look-ahead that parses a whole operand. -/
def genitiveAhead (_:ℕ) : TokenParser Unit := do
 let _ ← lookAhead (plainToken genitive)
 return ()

def genitiveField : TokenParser (Lexeme PosToken × Name) := do
 let gen ← spacedToken_ G genitive
 return (gen,←G.name)

def projectField (e:Expr N) (field:Lexeme PosToken × Name) : Expr N :=
 .proj (fixAnnoSrcRange (mkHoleAnnoFor e.rangeOf ++
  (mkSimpleEpaAnno (lexToEpa field.1) ++ mkHoleAnnoFor field.2.rangeOf))) e field.2

section Heads
variable (operandTest:ℕ → TokenParser Unit)

def projectionHeadWith : TokenParser (Expr N) := do
 let a ← G.literalOrName
 postfixAfter (mixfixPostfixOpWith G hints operandTest) (regularPostfixOperator G) a

def projectionWith : TokenParser (Expr N) := do
 let e ← projectionHeadWith G hints operandTest
 let fields ← many1 (genitiveField G)
 return fields.foldl projectField e

def projectionsAfterWith (e:Expr N) : TokenParser (Expr N) := do
 let a ← postfixAfter (mixfixPostfixOpWith G hints operandTest)
  (regularPostfixOperator G) e
 let fields ← many1 (genitiveField G)
 return fields.foldl projectField a

def parenExprOrProjectionWith : TokenParser (Expr N) := do
 let e ← G.parenExpr
 let projected ← optional (attempt (projectionsAfterWith G hints operandTest e))
 return projected.getD e

end Heads

def projection : TokenParser (Expr N) := projectionWith G hints genitiveAhead

def parenExprOrProjection : TokenParser (Expr N) :=
 parenExprOrProjectionWith G hints genitiveAhead

/-- No operand on this line, as found out by parsing one. -/
def notFollowedByOperand (endLine:ℕ) : TokenParser Unit := Parser.notFollowedBy do
 let tok ← lookAhead anySingle
 guard (tok.range.start.line == endLine)
 G.baseExpr'

/-- A base expression and its postfix operator, after which an infix operand is parsed again. -/
def plainBaseExpr : TokenParser (Expr N) := do
 let a ← G.baseExpr'
 postfixAfter (mixfixPostfixOpWith G hints (notFollowedByOperand G)) (regularPostfixOperator G) a

def plainGatherChain : ℕ → ExprLineInfo → TokenParser (List (Epa Name × Expr N))
 | 0, _=>Parser.fail
 | fuel+1, info=>do
  let mNext ← optional <| attempt do
   let kw ← mixfixKeywordAligned G hints nextLineOk info
   let argLayout ← peekNextTokenLayout G
   let arg ← plainBaseExpr G hints
   return ((kw,arg),advanceInfo argLayout arg)
  match mNext with
  | none=>return []
  | some (pair,nextInfo)=>List.cons pair <$> plainGatherChain fuel nextInfo

def plainChainCont (fuel:ℕ) (prevInfo:ExprLineInfo) :
  TokenParser (Epa Name × Expr N × List (Epa Name × Expr N)) := do
 let firstKw ← mixfixKeywordAligned G hints nextLineOk prevInfo
 let firstArgLayout ← peekNextTokenLayout G
 let firstArg ← plainBaseExpr G hints
 let rest ← plainGatherChain G hints nextLineOk fuel (advanceInfo firstArgLayout firstArg)
 return (firstKw,firstArg,rest)

def plainChainWithin (fuel:ℕ) : TokenParser (Expr N) := do
 let firstLayoutHint ← peekNextTokenLayout G
 let firstExpr ← plainBaseExpr G hints
 let firstExprInfo:=exprLineInfoWithFallback firstLayoutHint (exprRangeWithName firstExpr) none
 match ← optional (attempt (plainChainCont G hints nextLineOk fuel firstExprInfo)) with
 | none=>return firstExpr
 | some (firstKeyword,firstArg,moreKwArgs)=>
  return buildChain firstExpr firstKeyword firstArg moreKwArgs

/-- The chain parser that decides by a negative look-ahead and then parses the operand. -/
def plainChainExprNextLine : TokenParser (Expr N) := fun s=>
 plainChainWithin G hints nextLineOk (s.ahead.length+2) s

end Tokens

end L4Ide.MixfixChains
