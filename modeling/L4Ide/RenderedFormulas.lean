import L4Ide.ArithmeticNotation
import L4Ide.DecimalTexts
import L4Ide.Syntax

set_option autoImplicit false

/-!
# Rendered formulas

How the document writer prints arithmetic: a formula with signs and brackets, or,
for a long chain, a list of operands. A text is kept as the words it is made of.
-/
namespace L4Ide.RenderedFormulas
open Syntax ArithmeticNotation DecimalTexts

inductive Kind where
 | number
 | name
 | quoted
 | sign (s:Sign)
 | percent
 | opening
 | closing
 deriving DecidableEq, Repr

structure Word where
 kind : Kind
 text : List Char
 deriving DecidableEq, Repr

abbrev Text := List Word

def spell (t:Text) : List Char := t.flatMap Word.text

def signWord : Sign → Word
 | .plus=>⟨.sign .plus,[' ','+',' ']⟩
 | .minus=>⟨.sign .minus,[' ','−',' ']⟩
 | .times=>⟨.sign .times,[' ','×',' ']⟩
 | .dividedBy=>⟨.sign .dividedBy,[' ','÷',' ']⟩
 | .modulo=>⟨.sign .modulo,[' ','m', 'o', 'd', ' ']⟩

def bracketed (t:Text) : Text := ⟨.opening,['(']⟩::(t ++ [⟨.closing,[')']⟩])

def percentWord : Word := ⟨.percent,['%']⟩

structure Host where
 /-- `fromFloatDigits` of the nearest double. -/
 fromFloatDigits : ℚ → Scientific
 /-- An expression that is not arithmetic, in words. -/
 prose : Expr Resolved → List Char
 condText : Expr Resolved → Text
 /-- The rewriting of an expression that is not arithmetic. -/
 rewriteRest : Expr Resolved → Expr Resolved
 /-- Whether a call with arguments ends without a closing word. -/
 callEndsOpen : Resolved → List (Expr Resolved) → Bool

def resolvedText (n:Resolved) : List Char := (nameToText n.getActual).toList

def nameIs (t:String) (r:Resolved) : Bool := nameToText r.getActual == t

def groupedInt (r:ℚ) : Option (List Char) :=
 if r.den=1 ∧ 10000 ≤ r.num.natAbs then some (groupInt r.num) else none

def prettyRatio (host:Host) (r:ℚ) : List Char :=
 if r.den=1 then showInt r.num else formatScientific (host.fromFloatDigits r)

def numText (host:Host) (r:ℚ) : List Char :=
 (groupedInt r).getD (prettyRatio host r)

def inertWord (t:List Char) : Word :=
 if (readNumber t).isSome then ⟨.number,t⟩ else ⟨.name,t⟩

def builtinBinFunctions : List (String × (Expr Resolved → Expr Resolved → Expr Resolved)) :=
 [("__PLUS__",.plus),("__MINUS__",.minus),("__TIMES__",.times),
  ("__DIVIDE__",.dividedBy),("__MODULO__",.modulo),("__LT__",.lt),("__LEQ__",.leq),
  ("__GT__",.gt),("__GEQ__",.geq),("__AND__",.and),("__OR__",.or),
  ("__IMPLIES__",.implies),("__CONS__",.cons),("__EQUALS__",.equals)]

def builtinUnaryFunctions : List (String × (Expr Resolved → Expr Resolved)) :=
 [("__NOT__",.not)]

def carameliseNode : Expr Resolved → Expr Resolved
 | .app n [e1,e2] ty=>
  ((builtinBinFunctions.lookup (nameToText n.getActual)).map fun f=>f e1 e2).getD
   (.app n [e1,e2] ty)
 | .app n [e1] ty=>
  ((builtinUnaryFunctions.lookup (nameToText n.getActual)).map fun f=>f e1).getD
   (.app n [e1] ty)
 | e=>e

def arithSign (e:Expr Resolved) : Option Sign :=
 match carameliseNode e with
 | .plus _ _=>some .plus
 | .minus _ _=>some .minus
 | .times _ _=>some .times
 | .dividedBy _ _=>some .dividedBy
 | .modulo _ _=>some .modulo
 | _=>none

def wrap (parentP childP:ℕ) (t:Text) : Text :=
 if childP < parentP then bracketed t else t

def besideSum (x:Expr Resolved) (t:Text) : Text :=
 if arithSign x=some .modulo then bracketed t else t

def bin (p:ℕ) (s:Sign) (a b:Expr Resolved) (ra rb:Option (ℕ × Text)) :
  Option (ℕ × Text) := do
 let (pa,ta) ← ra
 let (pb,tb) ← rb
 some (p,besideSum a (wrap p pa ta) ++ signWord s::besideSum b (wrap p pb tb))

def binRight (p:ℕ) (s:Sign) (a b:Expr Resolved) (ra rb:Option (ℕ × Text)) :
  Option (ℕ × Text) := do
 let (pa,ta) ← ra
 let (pb,tb) ← rb
 some (p,besideSum a (wrap p pa ta) ++ signWord s::besideSum b (wrap (p+1) pb tb))

def mixesMod (isMod:Bool) (x:Expr Resolved) : Bool :=
 match arithSign x with
 | some .modulo=>!isMod
 | some .times=>isMod
 | some .dividedBy=>isMod
 | _=>false

def side (isMod:Bool) (x:Expr Resolved) (q px:ℕ) (tx:Text) : Text :=
 if mixesMod isMod x then bracketed tx else wrap q px tx

def multiplicative (isMod:Bool) (p:ℕ) (s:Sign) (strictRight:Bool) (a b:Expr Resolved)
  (ra rb:Option (ℕ × Text)) : Option (ℕ × Text) := do
 let (pa,ta) ← ra
 let (pb,tb) ← rb
 some (p,side isMod a p pa ta ++
  signWord s::side isMod b (if strictRight then p+1 else p) pb tb)

def operation : Sign → Expr Resolved → Expr Resolved → Option (ℕ × Text) →
  Option (ℕ × Text) → Option (ℕ × Text)
 | .plus=>bin 1 .plus
 | .minus=>binRight 1 .minus
 | .times=>multiplicative false 2 .times false
 | .dividedBy=>multiplicative false 2 .dividedBy true
 | .modulo=>multiplicative true 2 .modulo true

def possessiveOf (t:List Char) : List Char :=
 let s:=if t.getLast? = some (Char.ofNat 96) then t.dropLast else t
 let lastWord:=(s.reverse.takeWhile (· ≠ ' ')).reverse
 if lastWord=['i', 't'] then t ++ ['s']
 else if ['s', 's'].isSuffixOf s then t ++ ['\'', 's']
 else if ['s'].isSuffixOf s then t ++ ['\'']
 else t ++ ['\'', 's']

def go (host:Host) : Expr Resolved → Option (ℕ × Text)
 | .plus a b=>operation .plus a b (go host a) (go host b)
 | .minus a b=>operation .minus a b (go host a) (go host b)
 | .times a b=>operation .times a b (go host a) (go host b)
 | .dividedBy a b=>operation .dividedBy a b (go host a) (go host b)
 | .modulo a b=>operation .modulo a b (go host a) (go host b)
 | .lit (.numericLit r)=>some (4,[⟨.number,numText host r⟩])
 | .percent x=>(go host x).map fun r=>(4,r.2 ++ [percentWord])
 | .app n [] _=>some (4,[⟨.name,resolvedText n⟩])
 | .app n [a,b] ty=>
  match arithSign (.app n [a,b] ty) with
  | some s=>operation s a b (go host a) (go host b)
  | none=>some (4,[⟨.name,host.prose (.app n [a,b] ty)⟩])
 | .inert t _=>some (4,[inertWord t.toList])
 -- A refusal has no arithmetic reading.
 | .refuse _=>none
 | .proj a n=>(go host a).map fun r=>
  (4,[⟨.name,possessiveOf (spell r.2) ++ ' ' :: resolvedText n⟩])
 | e=>some (4,[⟨.name,host.prose e⟩])

def formulaText (host:Host) (e:Expr Resolved) : Option Text :=
 if (arithSign e).isSome then (go host e).map Prod.snd else none

def opensAtEnd (host:Host) : Expr Resolved → Bool
 | .app n (a::as) _=>host.callEndsOpen n (a::as)
 | .appNamed _ _ _ _ | .ifThenElse _ _ _ | .multiWayIf _ _ | .consider _ _ _=>true
 | _=>false

def operand (host:Host) (o o' : Expr Resolved) : Expr Resolved :=
 if opensAtEnd host (carameliseNode o) then
  .inert (String.ofList ('(' :: (host.prose o' ++ [')']))) .inertCtxNone
 else o'

def rewriteExpr (host:Host) : Expr Resolved → Expr Resolved
 | .plus a b=>.plus (operand host a (rewriteExpr host a)) (operand host b (rewriteExpr host b))
 | .minus a b=>
  .minus (operand host a (rewriteExpr host a)) (operand host b (rewriteExpr host b))
 | .times a b=>
  .times (operand host a (rewriteExpr host a)) (operand host b (rewriteExpr host b))
 | .dividedBy a b=>
  .dividedBy (operand host a (rewriteExpr host a)) (operand host b (rewriteExpr host b))
 | .modulo a b=>
  .modulo (operand host a (rewriteExpr host a)) (operand host b (rewriteExpr host b))
 | .percent x=>.percent (rewriteExpr host x)
 -- The implicit computed-field self.
 | .app n [] ty=>if nameIs "_self" n then .inert "it" .inertCtxNone else .app n [] ty
 | .lit (.numericLit r)=>
  match groupedInt r with
  | some t=>.inert (String.ofList t) .inertCtxNone
  | none=>.lit (.numericLit r)
 | .inert t ctx=>.inert t ctx
 | e=>host.rewriteRest e

def simpleLinearizer (host:Host) : Expr Resolved → Text
 | .lit (.numericLit r)=>[⟨.number,prettyRatio host r⟩]
 | .app n [] _=>[⟨.quoted,Char.ofNat 96::(resolvedText n ++ [Char.ofNat 96])⟩]
 | .inert t _=>[inertWord t.toList]
 | .percent x=>simpleLinearizer host x ++ [percentWord]
 | e=>[⟨.name,host.prose e⟩]

def inlineProse (host:Host) (e:Expr Resolved) : Text :=
 let rewritten:=rewriteExpr host e
 (formulaText host rewritten).getD (simpleLinearizer host rewritten)

def isLogic : Expr Resolved → Bool
 | .and _ _ | .or _ _ | .not _ | .equals _ _ | .geq _ _ | .leq _ _ | .gt _ _ | .lt _ _=>true
 | _=>false

def leafText (host:Host) (e:Expr Resolved) : Text :=
 if isLogic (carameliseNode e) then host.condText e else inlineProse host e

def uncons : Text → Option (Char × Text)
 | []=>none
 | w::ws=>
  match w.text with
  | []=>uncons ws
  | [c]=>some (c,ws)
  | c::cs=>some (c,⟨w.kind,cs⟩::ws)

def unsnoc : Text → Option (Text × Char)
 | []=>none
 | w::ws=>
  match unsnoc ws with
  | some (init,c)=>some (w::init,c)
  | none=>
   match w.text.reverse with
   | []=>none
   | [c]=>some ([],c)
   | c::cs=>some ([⟨w.kind,cs.reverse⟩],c)

def balanced : ℕ → List Char → Bool
 | d, []=>d == 0
 | d, c::cs=>
  if c = '(' then balanced (d+1) cs
  else if c = ')' then decide (0 < d) && balanced (d-1) cs
  else balanced d cs

def unbracketed (t:Text) : Text :=
 match uncons t with
 | some (c,rest)=>
  match unsnoc rest with
  | some (inner,c')=>if c = '(' ∧ c' = ')' ∧ balanced 0 (spell inner) then inner else t
  | none=>t
 | none=>t

def flattenChain (step:Sign → Bool) (identityOp:Sign) :
  Expr Resolved → List (Sign × Expr Resolved) → List (Sign × Expr Resolved)
 | .plus a b, acc=>
  if step .plus then flattenChain step identityOp a ((.plus,b)::acc)
  else (identityOp,.plus a b)::acc
 | .minus a b, acc=>
  if step .minus then flattenChain step identityOp a ((.minus,b)::acc)
  else (identityOp,.minus a b)::acc
 | .times a b, acc=>
  if step .times then flattenChain step identityOp a ((.times,b)::acc)
  else (identityOp,.times a b)::acc
 | .dividedBy a b, acc=>
  if step .dividedBy then flattenChain step identityOp a ((.dividedBy,b)::acc)
  else (identityOp,.dividedBy a b)::acc
 | .app n [a,b] ty, acc=>
  match arithSign (.app n [a,b] ty) with
  | some s=>
   if step s then flattenChain step identityOp a ((s,b)::acc)
   else (identityOp,.app n [a,b] ty)::acc
  | none=>(identityOp,.app n [a,b] ty)::acc
 | e, acc=>(identityOp,e)::acc

def additiveStep : Sign → Bool
 | .plus | .minus=>true
 | _=>false

def multStep : Sign → Bool
 | .times | .dividedBy=>true
 | _=>false

def arithChainMinTerms : ℕ := 4

structure Chain where
 lead : String
 items : List Text
 deriving DecidableEq, Repr

def opWord : Sign → Word
 | .minus=>⟨.sign .minus,['m', 'i', 'n', 'u', 's', ' ']⟩
 | .plus=>⟨.sign .plus,['p', 'l', 'u', 's', ' ']⟩
 | .dividedBy=>⟨.sign .dividedBy,['d', 'i', 'v', 'i', 'd', 'e', 'd', ' ','b', 'y', ' ']⟩
 | s=>⟨.sign s,['t', 'i', 'm', 'e', 's', ' ']⟩

def chainLine (host:Host) (e:Expr Resolved) : Text := unbracketed (leafText host e)

/-- The first line stands alone; in a mixed chain the others begin with a word. -/
def chainLines (host:Host) (uniform:Bool) : List (Sign × Expr Resolved) → List Text
 | []=>[]
 | (_,t)::rest=>chainLine host t::rest.map fun p=>
   if uniform then chainLine host p.2 else opWord p.1::chainLine host p.2

def chain (host:Host) (terms:List (Sign × Expr Resolved)) (firstOp:Sign)
  (uniformLead:String) : Option Chain :=
 if terms.length < arithChainMinTerms then none
 else
  let uniform:=terms.all fun p=>p.1 == firstOp
  some ⟨if uniform then uniformLead else "the following",chainLines host uniform terms⟩

def arithChainClause (host:Host) (e:Expr Resolved) : Option Chain :=
 match arithSign e with
 | some .plus | some .minus=>
  chain host (flattenChain additiveStep .plus e []) .plus "the sum of the following"
 | some .times | some .dividedBy=>
  chain host (flattenChain multStep .times e []) .times "the product of the following"
 | _=>none

inductive Atom where
 | number (t:List Char)
 | name (t:List Char)
 deriving DecidableEq, Repr

def Word.mark (w:Word) : Mark Atom :=
 match w.kind with
 | .number=>.leaf (.number w.text)
 | .name=>.leaf (.name w.text)
 | .quoted=>.leaf (.name w.text.tail.dropLast)
 | .sign s=>.sign s
 | .percent=>.percent
 | .opening=>.opening
 | .closing=>.closing

def readText (t:Text) : Option (Formula Atom) := read (t.map Word.mark)

def readLine (lead:String) (line:Text) : Option (Sign × Formula Atom) :=
 if lead = "the sum of the following" then (readText line).map fun f=>(.plus,f)
 else if lead = "the product of the following" then (readText line).map fun f=>(.times,f)
 else
  match line with
  | ⟨.sign s,_⟩::rest=>(readText rest).map fun f=>(s,f)
  | _=>none

/-- Each line is one operand of what the lines before it come to. -/
def readChain (c:Chain) : Option (Formula Atom) :=
 match c.items with
 | []=>none
 | first::rest=>do
  let f ← readText first
  rest.foldlM (fun f line=>(readLine c.lead line).map fun p=>.sign p.1 f p.2) f

/-- What an atom is worth when names are worth what the valuation says. -/
def atomValue (σ:List Char → ℚ) : Atom → Option ℚ
 | .number t=>readNumber t
 | .name t=>some (σ t)

/-- The value of an arithmetic expression whose names are said as `naming` says. -/
def value (σ:List Char → ℚ) (naming:Resolved → List Char) : Expr Resolved → Option ℚ
 | .plus a b=>(value σ naming a).bind fun x=>(value σ naming b).bind fun y=>Sign.plus.run x y
 | .minus a b=>
  (value σ naming a).bind fun x=>(value σ naming b).bind fun y=>Sign.minus.run x y
 | .times a b=>
  (value σ naming a).bind fun x=>(value σ naming b).bind fun y=>Sign.times.run x y
 | .dividedBy a b=>
  (value σ naming a).bind fun x=>(value σ naming b).bind fun y=>Sign.dividedBy.run x y
 | .modulo a b=>
  (value σ naming a).bind fun x=>(value σ naming b).bind fun y=>Sign.modulo.run x y
 | .percent a=>(value σ naming a).map (· / 100)
 | .lit (.numericLit r)=>some r
 | .app n [] _=>some (σ (naming n))
 | .inert t _=>some ((readNumber t.toList).getD (σ t.toList))
 | _=>none

/-- The computed-field self is said as "it". -/
def phrase (n:Resolved) : List Char :=
 if nameIs "_self" n then ['i', 't'] else resolvedText n

def node : Sign → Expr Resolved → Expr Resolved → Expr Resolved
 | .plus=>.plus
 | .minus=>.minus
 | .times=>.times
 | .dividedBy=>.dividedBy
 | .modulo=>.modulo

inductive Arithmetic : Expr Resolved → Prop where
 | sign (s:Sign) {a b:Expr Resolved} (ha:Arithmetic a) (hb:Arithmetic b) :
   Arithmetic (node s a b)
 | percent {a:Expr Resolved} (ha:Arithmetic a) : Arithmetic (.percent a)
 | number (r:ℚ) : Arithmetic (.lit (.numericLit r))
 | name (n:Resolved) (ty:Option (Type' Resolved)) : Arithmetic (.app n [] ty)
 | phrase (t:String) (ctx:InertContext) : Arithmetic (.inert t ctx)

/-- At every node of an arithmetic expression. -/
def Everywhere (p:Expr Resolved → Prop) : Expr Resolved → Prop
 | .plus a b=>p (.plus a b) ∧ Everywhere p a ∧ Everywhere p b
 | .minus a b=>p (.minus a b) ∧ Everywhere p a ∧ Everywhere p b
 | .times a b=>p (.times a b) ∧ Everywhere p a ∧ Everywhere p b
 | .dividedBy a b=>p (.dividedBy a b) ∧ Everywhere p a ∧ Everywhere p b
 | .modulo a b=>p (.modulo a b) ∧ Everywhere p a ∧ Everywhere p b
 | .percent a=>p (.percent a) ∧ Everywhere p a
 | e=>p e

def PercentOnTerm : Expr Resolved → Prop
 | .percent a=>arithSign a=none
 | _=>True

def LiteralExact (host:Host) : Expr Resolved → Prop
 | .lit (.numericLit r)=>r.den=1 ∨ (host.fromFloatDigits r).toRational=r
 | _=>True

/-- The brackets in a name match; those of a phrase are not round the whole of it. -/
def BracketsMatch : Expr Resolved → Prop
 | .app n [] _=>balanced 0 (resolvedText n)=true
 | .inert t _=>balanced 0 t.toList=true ∧
   unbracketed [inertWord t.toList]=[inertWord t.toList]
 | _=>True

end L4Ide.RenderedFormulas
