import L4Ide.Environment

set_option autoImplicit false

/-!
# Missing clauses of a clause group

The rows of patterns that no clause of a group matches, by specialisation and
the default matrix. The first tier analyses every row; when it gives up, the
second analyses the rows without a number or a piece of text.
-/
namespace L4Ide.CoverageAnalysis
open Syntax Environment

/-- What the evaluator compares: `1` and `1.0` are one key. -/
inductive LitKey where
 | litNum (q:ℚ)
 | litStr (t:String)
 deriving DecidableEq, Repr

def litKey : Lit → LitKey
 | .numericLit r=>.litNum r
 | .stringLit t=>.litStr t

inductive CoveragePattern where
 | covWild
 | covCon (c:Resolved) (ps:List CoveragePattern)
 | covLit (k:LitKey) (lit:Lit)

abbrev Row := List CoveragePattern

abbrev Families := Unique → Option (List (Resolved × ℕ))

def booleanFamily : List (Resolved × ℕ) :=
 [(.def_ trueUnique trueName,0),(.def_ falseUnique falseName,0)]

/-- A record whose constructor has no name is built by the name of the type. -/
def declFamilies (decl:Declare Resolved) : List (List (Resolved × ℕ)) :=
 match decl.decl with
 | .recordDecl con fields=>[[(con.getD decl.appForm.head,fields.length)]]
 | .enumDecl cons=>[cons.map fun c=>(c.name,c.fields.length)]
 | .synonymDecl _=>[]

def allFamilies (decls:List (Declare Resolved)) : List (List (Resolved × ℕ)) :=
 booleanFamily::decls.flatMap declFamilies

/-- Where two families name one constructor, the later is kept. -/
def constructorFamilies (decls:List (Declare Resolved)) : Families := fun u=>
 (((allFamilies decls).flatMap fun family=>
  family.map fun f=>(f.1.getUnique,family)).reverse).lookup u

mutual

def CoveragePattern.hasLit : CoveragePattern → Bool
 | .covLit _ _=>true
 | .covCon _ ps=>anyHasLit ps
 | .covWild=>false

def anyHasLit : Row → Bool
 | []=>false
 | p::ps=>p.hasLit || anyHasLit ps

end

def CoveragePattern.isWild : CoveragePattern → Bool
 | .covWild=>true
 | _=>false

def conHeads (rows:List Row) : List (Resolved × ℕ) :=
 rows.filterMap fun
  | .covCon c ps::_=>some (c,ps.length)
  | _=>none

def litHeads (rows:List Row) : List (LitKey × Lit) :=
 rows.filterMap fun
  | .covLit k lit::_=>some (k,lit)
  | _=>none

def dropWildcard : Row → Option Row
 | .covWild::rest=>some rest
 | _=>none

def specialise (c:Resolved) (a:ℕ) : Row → Option Row
 | .covCon c' ps::rest=>if sameResolved c c' then some (ps ++ rest) else none
 | .covWild::rest=>some (List.replicate a .covWild ++ rest)
 | _=>none

def specialiseLit (k:LitKey) : Row → Option Row
 | .covLit k' _::rest=>if k' = k then some rest else none
 | .covWild::rest=>some rest
 | _=>none

def nubOrdOn {A K:Type} [DecidableEq K] (f:A → K) : List A → List A
 | []=>[]
 | a::as=>a::(nubOrdOn f as).filter fun b=>f b ≠ f a

def maxMissingClauses : ℕ := 64

def clauseMatrixFuel : ℕ := 10000

abbrev Fuelled := StateT ℕ Option

/-- One column of the analysis; `go` analyses the matrices it leaves. -/
def uncoveredStep (families:Families) (go:ℕ → List Row → Fuelled (List Row)) :
  ℕ → List Row → Fuelled (List Row)
 | 0, rows=>pure (if rows.isEmpty then [[]] else [])
 | m+1, rows=>
  if rows.any fun row=>row.all CoveragePattern.isWild then pure []
  else
   match conHeads rows, litHeads rows with
   | [], []=>do
    let missing ← go m (rows.filterMap dropWildcard)
    return missing.map (.covWild :: ·)
   -- type checking forbids a column of both
   | _::_, _::_=>failure
   | (c0,a0)::heads, []=>do
    let family ← families c0.getUnique
    guard (((c0,a0)::heads).all fun h=>
     family.any fun f=>sameResolved h.1 f.1 && h.2 == f.2)
    let named:=fun c : Resolved=>((c0,a0)::heads).any fun h=>sameResolved c h.1
    let missingBelow ← (if family.all fun f=>named f.1 then pure []
     else go m (rows.filterMap dropWildcard) : Fuelled (List Row))
    let blocks ← family.mapM fun f=>
     if named f.1 then do
      let missing ← go (f.2+m) (rows.filterMap (specialise f.1 f.2))
      return missing.map fun w=>.covCon f.1 (w.take f.2)::w.drop f.2
     else
      return missingBelow.map fun w=>.covCon f.1 (List.replicate f.2 .covWild)::w
    return blocks.flatten
   | [], lits=>do
    let others ← go m (rows.filterMap dropWildcard)
    let perKey ← (nubOrdOn Prod.fst lits).mapM fun l=>do
     let missing ← go m (rows.filterMap (specialiseLit l.1))
     return missing.map (.covLit l.1 l.2 :: ·)
    return perKey.flatten ++ others.map (.covWild :: ·)

/-- Every call spends a unit of fuel, so the fuel bounds the depth as well. -/
def go (families:Families) : ℕ → ℕ → List Row → Fuelled (List Row)
 | 0, _, _=>failure
 | depth+1, m, rows=>do
  let fuel ← get
  guard (0 < fuel)
  set (fuel-1)
  let result ← uncoveredStep families (go families depth) m rows
  guard (result.length ≤ maxMissingClauses)
  return result

def run (families:Families) (n:ℕ) (rows:List Row) : Option (List Row) :=
 (go families (clauseMatrixFuel+1) n rows).run' clauseMatrixFuel

def exactTier (families:Families) (n:ℕ) (leftOut:Bool) (rows0:List Row) :
  Option (List Row) := do
 guard (!leftOut)
 run families n rows0

def coarseTier (families:Families) (n:ℕ) (leftOut:Bool) (rows0:List Row) :
  Option (List Row) := do
 guard (leftOut || rows0.any anyHasLit)
 run families n (rows0.filter fun row=>!anyHasLit row)

def uncoveredRows (families:Families) (n:ℕ) (leftOut:Bool) (rows0:List Row) :
  Option (List Row) :=
 exactTier families n leftOut rows0 <|> coarseTier families n leftOut rows0

end L4Ide.CoverageAnalysis
