import Mathlib.Data.Rat.Defs

set_option autoImplicit false

/-!
# Abstract syntax

Names, types, patterns, regulative and ordinary expressions, over a type of
names. Annotations are dropped, except the type that inference left on an
application or a pattern and the mark of a CONSIDER that clauses were compiled to.
-/
namespace L4Ide.Syntax

inductive RawName where
 | normalName (n:String)
 | qualifiedName (q:String) (qs:List String) (n:String)
 | preDef (n:String)
 deriving DecidableEq, Repr

structure Name where
 raw : RawName
 deriving DecidableEq, Repr

structure Unique where
 sort : Char
 unique : ℤ
 moduleUri : String
 deriving DecidableEq, Repr

inductive Resolved where
 | def_ (u:Unique) (n:Name)
 | ref (r:Name) (u:Unique) (o:Name)
 | outOfScope (u:Unique) (n:Name)
 deriving DecidableEq, Repr

def Resolved.getOriginal : Resolved → Name
 | .def_ _ n=>n
 | .ref _ _ o=>o
 | .outOfScope _ n=>n

def Resolved.getActual : Resolved → Name
 | .def_ _ n=>n
 | .ref r _ _=>r
 | .outOfScope _ n=>n

def Resolved.getUnique : Resolved → Unique
 | .def_ u _=>u
 | .ref _ u _=>u
 | .outOfScope u _=>u

def rawNameToText : RawName → String
 | .normalName n=>n
 | .preDef n=>n
 | .qualifiedName q qs n=>String.intercalate "." (q::(qs ++ [n]))

def nameToText (n:Name) : String := rawNameToText n.raw

def sameResolved (r1 r2:Resolved) : Bool := r1.getUnique == r2.getUnique

inductive Type' (n:Type) where
 | type
 | tyApp (c:n) (ts:List (Type' n))
 | fun_ (args:List (Option n × Type' n)) (result:Type' n)
 | forall_ (ns:List n) (t:Type' n)
 | infVar (r:RawName) (i:ℤ)

structure OptionallyTypedName (n:Type) where
 name : n
 type : Option (Type' n)

abbrev GivenSig (n:Type) := List (OptionallyTypedName n)

structure TypeSig (n:Type) where
 given : GivenSig n
 giveth : Option (Type' n)

/-- The head of a definition, its parameters and its other names. -/
structure AppForm (n:Type) where
 head : n
 args : List n
 aka : Option (List n)

structure Assume (n:Type) where
 typeSig : TypeSig n
 appForm : AppForm n
 type : Option (Type' n)

inductive Lit where
 | numericLit (q:ℚ)
 | stringLit (s:String)
 deriving DecidableEq, Repr

inductive InertContext where
 | inertCtxAnd
 | inertCtxOr
 | inertCtxNone
 deriving DecidableEq, Repr

inductive DeonticModal where
 | dMust
 | dMay
 | dMustNot
 | dDo
 deriving DecidableEq, Repr

structure PmGroup where
 groupHead : RawName
 clauseCount : ℕ
 deriving DecidableEq, Repr

inductive PmSynthetic where
 | pmConsider (g:PmGroup) (input:ℕ) (typed:Bool)
 | pmFallthrough (g:PmGroup)
 | pmUnreachable (g:PmGroup)
 deriving DecidableEq, Repr

mutual

inductive Expr (n:Type) where
 | and (e1 e2:Expr n)
 | or (e1 e2:Expr n)
 | rAnd (e1 e2:Expr n)
 | rOr (e1 e2:Expr n)
 | implies (e1 e2:Expr n)
 | equals (e1 e2:Expr n)
 | not (e:Expr n)
 | plus (e1 e2:Expr n)
 | minus (e1 e2:Expr n)
 | times (e1 e2:Expr n)
 | dividedBy (e1 e2:Expr n)
 | modulo (e1 e2:Expr n)
 | cons (e1 e2:Expr n)
 | leq (e1 e2:Expr n)
 | geq (e1 e2:Expr n)
 | lt (e1 e2:Expr n)
 | gt (e1 e2:Expr n)
 | proj (e:Expr n) (l:n)
 | lam (givens:GivenSig n) (e:Expr n)
 | app (f:n) (es:List (Expr n)) (expected:Option (Type' n))
 | appNamed (f:n) (es:List (n × Expr n)) (order:Option (List ℤ))
   (expected:Option (Type' n))
 | ifThenElse (e1 e2 e3:Expr n)
 | multiWayIf (es:List (Expr n × Expr n)) (e:Expr n)
 | regulative (d:Deonton n)
 | consider (e:Expr n) (branches:List (Branch n)) (generated:Option PmSynthetic)
 | lit (l:Lit)
 | percent (e:Expr n)
 | list (es:List (Expr n))
 | where_ (e:Expr n) (ds:List (LocalDecl n))
 | letIn (ds:List (LocalDecl n)) (e:Expr n)
 | event (ev:Event n)
 | fetch (e:Expr n)
 | env (e:Expr n)
 | post (e1 e2 e3:Expr n)
 | concat (es:List (Expr n))
 | asString (e:Expr n)
 | breach (party reason:Option (Expr n))
 | refuse (msg:Expr n)
 | inert (txt:String) (ctx:InertContext)

inductive Deonton (n:Type) where
 | mkDeonton (party:Expr n) (action:RAction n) (due hence lest:Option (Expr n))

inductive RAction (n:Type) where
 | mkAction (modal:DeonticModal) (action:Pattern n) (provided:Option (Expr n))

inductive Event (n:Type) where
 | mkEvent (party action timestamp:Expr n)

inductive Branch (n:Type) where
 | mkBranch (lhs:BranchLhs n) (e:Expr n)

inductive BranchLhs (n:Type) where
 | when (p:Pattern n)
 | otherwise

inductive Pattern (n:Type) where
 | patVar (x:n)
 | patApp (c:n) (ps:List (Pattern n)) (info:Option (Type' n))
 | patCons (p1 p2:Pattern n) (info:Option (Type' n))
 | patExpr (e:Expr n)
 | patLit (l:Lit)

inductive Decide (n:Type) where
 | mkDecide (typeSig:TypeSig n) (appForm:AppForm n) (e:Expr n)
   (generated:Option PmSynthetic)

inductive LocalDecl (n:Type) where
 | localDecide (d:Decide n)
 | localAssume (a:Assume n)

end

/-- A field of a record or a constructor; a computed field has an expression. -/
structure TypedName (n:Type) where
 name : n
 type : Type' n
 computed : Option (Expr n)

structure ConDecl (n:Type) where
 name : n
 fields : List (TypedName n)

inductive TypeDecl (n:Type) where
 | recordDecl (con:Option n) (fields:List (TypedName n))
 | enumDecl (cons:List (ConDecl n))
 | synonymDecl (t:Type' n)

structure Declare (n:Type) where
 typeSig : TypeSig n
 appForm : AppForm n
 decl : TypeDecl n

section Accessors
variable {n:Type}

def RAction.modal : RAction n → DeonticModal
 | .mkAction modal _ _=>modal

def RAction.action : RAction n → Pattern n
 | .mkAction _ action _=>action

def RAction.provided : RAction n → Option (Expr n)
 | .mkAction _ _ provided=>provided

def Deonton.party : Deonton n → Expr n
 | .mkDeonton party _ _ _ _=>party

def Deonton.action : Deonton n → RAction n
 | .mkDeonton _ action _ _ _=>action

def Deonton.due : Deonton n → Option (Expr n)
 | .mkDeonton _ _ due _ _=>due

def Deonton.hence : Deonton n → Option (Expr n)
 | .mkDeonton _ _ _ hence _=>hence

def Deonton.lest : Deonton n → Option (Expr n)
 | .mkDeonton _ _ _ _ lest=>lest

/-- A name on its own is an application to no argument. -/
abbrev Expr.var (x:n) : Expr n := .app x [] none

end Accessors

end L4Ide.Syntax
