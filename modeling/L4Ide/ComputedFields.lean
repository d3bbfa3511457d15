import L4Ide.Syntax
import Mathlib.Data.List.Basic
import L4Ide.ScopedTrees

set_option autoImplicit false

/-!
# Computed fields

A computed field of a record becomes a definition over the record, in which the bare names of the
other fields are read from the argument.
-/
namespace L4Ide.ComputedFields
open Syntax

def localName : LocalDecl Name → Option RawName
 | .localDecide (.mkDecide _ af _ _)=>some af.head.raw
 | .localAssume _=>none

def localDeclNames (ds:List (LocalDecl Name)) : List RawName := ds.filterMap localName

def givenSigNames (sig:GivenSig Name) : List RawName := sig.map fun g=>g.name.raw

mutual

def patternNames : Pattern Name → List RawName
 | .patApp _ ps _=>patternsNames ps
 | .patVar x=>[x.raw]
 | _=>[]

def patternsNames : List (Pattern Name) → List RawName
 | []=>[]
 | p::ps=>patternNames p ++ patternsNames ps

end

def branchLhsNames : BranchLhs Name → List RawName
 | .when p=>patternNames p
 | .otherwise=>[]

def difference (flds boundNames:List RawName) : List RawName :=
 flds.filter fun x=>!boundNames.contains x

section Rewriting
variable (self:Name)

mutual

@[simp] def go (flds:List RawName) : Expr Name → Expr Name
 | .app n args expected=>
  if args.isEmpty && flds.contains n.raw then .proj (.var self) n
  else .app n (goAll flds args) expected
 | .and e1 e2=>.and (go flds e1) (go flds e2)
 | .or e1 e2=>.or (go flds e1) (go flds e2)
 | .rAnd e1 e2=>.rAnd (go flds e1) (go flds e2)
 | .rOr e1 e2=>.rOr (go flds e1) (go flds e2)
 | .implies e1 e2=>.implies (go flds e1) (go flds e2)
 | .equals e1 e2=>.equals (go flds e1) (go flds e2)
 | .not e=>.not (go flds e)
 | .plus e1 e2=>.plus (go flds e1) (go flds e2)
 | .minus e1 e2=>.minus (go flds e1) (go flds e2)
 | .times e1 e2=>.times (go flds e1) (go flds e2)
 | .dividedBy e1 e2=>.dividedBy (go flds e1) (go flds e2)
 | .modulo e1 e2=>.modulo (go flds e1) (go flds e2)
 | .cons e1 e2=>.cons (go flds e1) (go flds e2)
 | .leq e1 e2=>.leq (go flds e1) (go flds e2)
 | .geq e1 e2=>.geq (go flds e1) (go flds e2)
 | .lt e1 e2=>.lt (go flds e1) (go flds e2)
 | .gt e1 e2=>.gt (go flds e1) (go flds e2)
 | .proj e n=>.proj (go flds e) n
 | .ifThenElse c t e=>.ifThenElse (go flds c) (go flds t) (go flds e)
 | .multiWayIf gs e=>.multiWayIf (goGuarded flds gs) (go flds e)
 | .consider e bs generated=>.consider (go flds e) (goBranches flds bs) generated
 | .where_ e locals=>
  let flds' :=difference flds (localDeclNames locals)
  .where_ (go flds' e) (goLocals flds' locals)
 | .letIn locals e=>
  let flds' :=difference flds (localDeclNames locals)
  .letIn (goLocals flds' locals) (go flds' e)
 | .lam sig e=>.lam sig (go (difference flds (givenSigNames sig)) e)
 | .list es=>.list (goAll flds es)
 | .concat es=>.concat (goAll flds es)
 | .percent e=>.percent (go flds e)
 | .asString e=>.asString (go flds e)
 | .appNamed n nes order expected=>.appNamed n (goNamed flds nes) order expected
 | .lit l=>.lit l
 | .fetch e=>.fetch (go flds e)
 | .env e=>.env (go flds e)
 | .post u h b=>.post (go flds u) (go flds h) (go flds b)
 | .breach mp mr=>.breach (goOption flds mp) (goOption flds mr)
 | .refuse msg=>.refuse (go flds msg)
 -- left as they are
 | .event ev=>.event ev
 | .regulative d=>.regulative d
 | .inert txt ctx=>.inert txt ctx

@[simp] def goAll (flds:List RawName) : List (Expr Name) → List (Expr Name)
 | []=>[]
 | e::es=>go flds e::goAll flds es

@[simp] def goOption (flds:List RawName) : Option (Expr Name) → Option (Expr Name)
 | none=>none
 | some e=>some (go flds e)

@[simp] def goGuarded (flds:List RawName) : List (Expr Name × Expr Name) → List (Expr Name × Expr Name)
 | []=>[]
 | (c,e)::gs=>(go flds c,go flds e)::goGuarded flds gs

@[simp] def goBranch (flds:List RawName) : Branch Name → Branch Name
 | .mkBranch lhs e=>.mkBranch lhs (go (difference flds (branchLhsNames lhs)) e)

@[simp] def goBranches (flds:List RawName) : List (Branch Name) → List (Branch Name)
 | []=>[]
 | b::bs=>goBranch flds b::goBranches flds bs

@[simp] def goDecide (flds:List RawName) : Decide Name → Decide Name
 | .mkDecide ts af body generated=>.mkDecide ts af (go flds body) generated

@[simp] def goLocal (flds:List RawName) : LocalDecl Name → LocalDecl Name
 | .localDecide d=>.localDecide (goDecide flds d)
 | .localAssume a=>.localAssume a

@[simp] def goLocals (flds:List RawName) : List (LocalDecl Name) → List (LocalDecl Name)
 | []=>[]
 | d::ds=>goLocal flds d::goLocals flds ds

@[simp] def goNamed (flds:List RawName) : List (Name × Expr Name) → List (Name × Expr Name)
 | []=>[]
 | (n,e)::nes=>(n,go flds e)::goNamed flds nes

end

def rewriteFieldRefs (fields:List RawName) (e:Expr Name) : Expr Name := go self fields e

end Rewriting

def selfName : Name := ⟨.normalName "_self"⟩

/-- The other fields of the record. -/
def siblingNames (allFields:List (TypedName Name)) (fieldName:Name) : List RawName :=
 (allFields.filter fun sib=>sib.name.raw ≠ fieldName.raw).map fun sib=>sib.name.raw

def makeComputedDecide (appForm:AppForm Name) (typeParams:GivenSig Name)
  (allFields:List (TypedName Name)) (field:TypedName Name) : Option (Decide Name) :=
 field.computed.map fun meansExpr=>
  let recordType:=Type'.tyApp appForm.head (appForm.args.map fun n=>.tyApp n [])
  let selfParam:OptionallyTypedName Name:=⟨selfName,some recordType⟩
  .mkDecide ⟨typeParams ++ [selfParam],some field.type⟩ ⟨field.name,[selfName],none⟩
   (rewriteFieldRefs selfName (siblingNames allFields field.name) meansExpr) none

end L4Ide.ComputedFields

namespace L4Ide.ComputedFieldScopes
open Syntax ComputedFields ScopedTrees

structure Use where
 name : Name
 bare : Bool

structure Place where
 /-- The rewriting goes into it. -/
 entered : Bool
 /-- The names that the rewriting leaves alone in it. -/
 removed : List RawName
 /-- The names that are bound in it. -/
 bound : List RawName
 removed_bound : ∀ x ∈ removed, x ∈ bound

def unseen (entered:Bool) (bound:List RawName) : Place := ⟨entered,[],bound,by simp⟩

def plain : Place := unseen true []

def outside : Place := unseen false []

inductive Construct where
 | and | or | rAnd | rOr | implies | equals | not
 | plus | minus | times | dividedBy | modulo | cons
 | leq | geq | lt | gt
 | proj (l:Name)
 | lam (givens:GivenSig Name)
 | app (expected:Option (Type' Name))
 | appNamed (names:List Name) (order:Option (List ℤ)) (expected:Option (Type' Name))
 | ifThenElse | multiWayIf | guarded
 | regulative | action (modal:DeonticModal) | event
 | consider (generated:Option PmSynthetic)
 | when | otherwise
 | patVar (x:Name)
 | patApp (c:Name) (info:Option (Type' Name))
 | patCons (info:Option (Type' Name))
 | patExpr
 | patLit (l:Lit)
 | lit (l:Lit)
 | percent | list | where_ | letIn
 | localDecide (sig:TypeSig Name) (af:AppForm Name) (generated:Option PmSynthetic)
 | localAssume (a:Assume Name)
 | fetch | env | post | concat | asString | breach | absent | refuse
 | inert (txt:String) (ctx:InertContext)

abbrev ScopeTree := Scoped Place Use Construct

abbrev Branches := Parts Place Use Construct

def appFormNames (af:AppForm Name) : List RawName :=
 af.head.raw::(af.aka.getD []).map fun n=>n.raw

def localBound : LocalDecl Name → List RawName
 | .localDecide (.mkDecide _ af _ _)=>appFormNames af
 | .localAssume a=>appFormNames a.appForm

def localsBound (ds:List (LocalDecl Name)) : List RawName := ds.flatMap localBound

def parameters (ts:TypeSig Name) (af:AppForm Name) : List RawName :=
 (af.args.map fun n=>n.raw) ++ givenSigNames ts.given

section Scopes
variable (con:RawName → Bool)

mutual

def patternBound : Pattern Name → List RawName
 | .patVar x=>[x.raw]
 | .patApp c ps _=>if ps.isEmpty then (if con c.raw then [] else [c.raw]) else patternsBound ps
 | .patCons p1 p2 _=>patternBound p1 ++ patternBound p2
 | .patExpr _=>[]
 | .patLit _=>[]

def patternsBound : List (Pattern Name) → List RawName
 | []=>[]
 | p::ps=>patternBound p ++ patternsBound ps

end

lemma localDeclNames_bound (ds:List (LocalDecl Name)) :
  ∀ x ∈ localDeclNames ds, x ∈ localsBound ds := by
 intro x hx
 obtain ⟨d,hd,heq⟩:=List.mem_filterMap.mp hx
 refine List.mem_flatMap.mpr ⟨d,hd, ?_⟩
 cases d with
 | localDecide d=>
  cases d
  simp only [localName,Option.some.injEq] at heq
  simp [localBound,appFormNames,heq]
 | localAssume a=>simp [localName] at heq

mutual

theorem patternNames_bound : ∀ (p:Pattern Name), ∀ x ∈ patternNames p, x ∈ patternBound con p
 | .patVar y, x, hx=>by simpa [patternNames,patternBound] using hx
 | .patApp c [] info, x, hx=>by simp [patternNames,patternsNames] at hx
 | .patApp c (p::ps) info, x, hx=>by
  simpa [patternBound] using patternsNames_bound (p::ps) x (by simpa [patternNames] using hx)
 | .patCons p1 p2 info, x, hx=>by simp [patternNames] at hx
 | .patExpr e, x, hx=>by simp [patternNames] at hx
 | .patLit l, x, hx=>by simp [patternNames] at hx

theorem patternsNames_bound : ∀ (ps:List (Pattern Name)), ∀ x ∈ patternsNames ps,
  x ∈ patternsBound con ps
 | [], x, hx=>by simp [patternsNames] at hx
 | p::ps, x, hx=>by
  rw [patternsNames,List.mem_append] at hx
  rw [patternsBound,List.mem_append]
  exact hx.imp (patternNames_bound p x) (patternsNames_bound ps x)

end

def localsPlace (ds:List (LocalDecl Name)) : Place :=
 ⟨true,localDeclNames ds,localsBound ds,localDeclNames_bound ds⟩

def givensPlace (sig:GivenSig Name) : Place :=
 ⟨true,givenSigNames sig,givenSigNames sig,fun _ hx=>hx⟩

def branchPlace (p:Pattern Name) : Place :=
 ⟨true,patternNames p,patternBound con p,patternNames_bound con p⟩

def parametersPlace (ts:TypeSig Name) (af:AppForm Name) : Place :=
 unseen true (parameters ts af)

/-- What a regulative rule's action binds, in its condition and what follows on it. -/
def followupPlace (p:Pattern Name) : Place := unseen false (patternBound con p)

@[simp] def parts : List (Place × ScopeTree) → Branches
 | []=>.nil
 | (b,t)::ts=>.cons b t (parts ts)

@[simp] def unary (c:Construct) (t:ScopeTree) : ScopeTree := .node c (parts [(plain,t)])

@[simp] def binary (c:Construct) (t1 t2:ScopeTree) : ScopeTree := .node c (parts [(plain,t1),(plain,t2)])

@[simp] def ternary (c:Construct) (t1 t2 t3:ScopeTree) : ScopeTree :=
 .node c (parts [(plain,t1),(plain,t2),(plain,t3)])

mutual

@[simp] def tree : Expr Name → ScopeTree
 | .and e1 e2=>binary .and (tree e1) (tree e2)
 | .or e1 e2=>binary .or (tree e1) (tree e2)
 | .rAnd e1 e2=>binary .rAnd (tree e1) (tree e2)
 | .rOr e1 e2=>binary .rOr (tree e1) (tree e2)
 | .implies e1 e2=>binary .implies (tree e1) (tree e2)
 | .equals e1 e2=>binary .equals (tree e1) (tree e2)
 | .not e=>unary .not (tree e)
 | .plus e1 e2=>binary .plus (tree e1) (tree e2)
 | .minus e1 e2=>binary .minus (tree e1) (tree e2)
 | .times e1 e2=>binary .times (tree e1) (tree e2)
 | .dividedBy e1 e2=>binary .dividedBy (tree e1) (tree e2)
 | .modulo e1 e2=>binary .modulo (tree e1) (tree e2)
 | .cons e1 e2=>binary .cons (tree e1) (tree e2)
 | .leq e1 e2=>binary .leq (tree e1) (tree e2)
 | .geq e1 e2=>binary .geq (tree e1) (tree e2)
 | .lt e1 e2=>binary .lt (tree e1) (tree e2)
 | .gt e1 e2=>binary .gt (tree e1) (tree e2)
 | .proj e l=>unary (.proj l) (tree e)
 | .lam givens e=>.node (.lam givens) (parts [(givensPlace givens,tree e)])
 | .app f es expected=>
  if es.isEmpty then .var ⟨f,true⟩
  else .node (.app expected) (.cons plain (.var ⟨f,false⟩) (treeAll es))
 | .appNamed f es order expected=>
  .node (.appNamed (es.map Prod.fst) order expected)
   (.cons plain (.var ⟨f,false⟩) (treeNamed es))
 | .ifThenElse e1 e2 e3=>ternary .ifThenElse (tree e1) (tree e2) (tree e3)
 | .multiWayIf gs e=>.node .multiWayIf (.cons plain (tree e) (treeGuarded gs))
 | .regulative d=>treeDeonton d
 | .consider e bs generated=>
  .node (.consider generated) (.cons plain (tree e) (treeBranches bs))
 | .lit l=>.node (.lit l) .nil
 | .percent e=>unary .percent (tree e)
 | .list es=>.node .list (treeAll es)
 | .where_ e ds=>
  .node .where_ (.cons (localsPlace ds) (tree e) (treeLocals (localsPlace ds) ds))
 | .letIn ds e=>
  .node .letIn (.cons (localsPlace ds) (tree e) (treeLocals (localsPlace ds) ds))
 | .event (.mkEvent party action timestamp)=>
  .node .event (parts [(outside,tree party),(outside,tree action),(outside,tree timestamp)])
 | .fetch e=>unary .fetch (tree e)
 | .env e=>unary .env (tree e)
 | .post e1 e2 e3=>ternary .post (tree e1) (tree e2) (tree e3)
 | .concat es=>.node .concat (treeAll es)
 | .asString e=>unary .asString (tree e)
 | .breach party reason=>binary .breach (treeOption party) (treeOption reason)
 | .refuse msg=>unary .refuse (tree msg)
 | .inert txt ctx=>.node (.inert txt ctx) .nil

@[simp] def treeAll : List (Expr Name) → Branches
 | []=>.nil
 | e::es=>.cons plain (tree e) (treeAll es)

@[simp] def treeOption : Option (Expr Name) → ScopeTree
 | none=>.node .absent .nil
 | some e=>tree e

@[simp] def treeNamed : List (Name × Expr Name) → Branches
 | []=>.nil
 | (_,e)::es=>.cons plain (tree e) (treeNamed es)

@[simp] def treeGuarded : List (Expr Name × Expr Name) → Branches
 | []=>.nil
 | (c,e)::gs=>.cons plain (binary .guarded (tree c) (tree e)) (treeGuarded gs)

@[simp] def treeDeonton : Deonton Name → ScopeTree
 | .mkDeonton party action due hence lest=>
  .node .regulative (parts [(outside,tree party),(outside,treeAction action),
   (outside,treeOption due),(followupPlace con action.action,treeOption hence),
   (outside,treeOption lest)])

@[simp] def treeAction : RAction Name → ScopeTree
 | .mkAction modal p provided=>.node (.action modal)
   (parts [(outside,treePattern p),(followupPlace con p,treeOption provided)])

@[simp] def treeBranch : Branch Name → ScopeTree
 | .mkBranch (.when p) e=>
  .node .when (parts [(outside,treePattern p),(branchPlace con p,tree e)])
 | .mkBranch .otherwise e=>unary .otherwise (tree e)

@[simp] def treeBranches : List (Branch Name) → Branches
 | []=>.nil
 | b::bs=>.cons plain (treeBranch b) (treeBranches bs)

@[simp] def treePattern : Pattern Name → ScopeTree
 | .patVar x=>.node (.patVar x) .nil
 | .patApp c ps info=>.node (.patApp c info) (treePatterns ps)
 | .patCons p1 p2 info=>binary (.patCons info) (treePattern p1) (treePattern p2)
 | .patExpr e=>unary .patExpr (tree e)
 | .patLit l=>.node (.patLit l) .nil

@[simp] def treePatterns : List (Pattern Name) → Branches
 | []=>.nil
 | p::ps=>.cons plain (treePattern p) (treePatterns ps)

@[simp] def treeDecide : Decide Name → ScopeTree
 | .mkDecide ts af body generated=>
  .node (.localDecide ts af generated) (parts [(parametersPlace ts af,tree body)])

@[simp] def treeLocal : LocalDecl Name → ScopeTree
 | .localDecide d=>treeDecide d
 | .localAssume a=>.node (.localAssume a) .nil

@[simp] def treeLocals (b:Place) : List (LocalDecl Name) → Branches
 | []=>.nil
 | d::ds=>.cons b (treeLocal d) (treeLocals b ds)

end

end Scopes

end L4Ide.ComputedFieldScopes
