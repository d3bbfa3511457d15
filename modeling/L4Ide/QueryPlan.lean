import L4Ide.BooleanDecisionQuery
import L4Ide.InputRefs
import Mathlib.Algebra.BigOperators.Group.List.Basic
import Mathlib.Algebra.Field.Rat
import Mathlib.Algebra.Order.Ring.Rat
import Mathlib.Data.List.Lex
import Mathlib.Data.Prod.Lex
import Mathlib.Data.String.Basic

set_option autoImplicit false

/-!
# The query plan

What a decision still needs under some answers, and which inputs to ask for: the parameters, and
the keys of a container and a path that the needed atoms are known by. Scores are rationals. How
uniques are read from text and how names are hashed is the host's.
-/
namespace L4Ide.QueryPlan
open Std (TreeMap TreeSet)
open BooleanDecisionQuery (CompiledDecisionQuery DecisionQueryResult queryDecision)
open InputRefs (IntMap InputRef inputRefsClosureByUnique)

def breakOnList (needle:List Char) : List Char → List Char × List Char
 | []=>([],[])
 | c::t=>
  if needle.isPrefixOf (c::t) then ([],c::t)
  else ((c::(breakOnList needle t).1),(breakOnList needle t).2)

def breakOn (needle t:String) : String × String :=
 (String.ofList (breakOnList needle.toList t.toList).1,
  String.ofList (breakOnList needle.toList t.toList).2)

def isSpace (c:Char) : Bool :=
 c == ' ' || (9 ≤ c.toNat && c.toNat ≤ 13) || c.toNat == 0xA0 || c.toNat == 0x1680 ||
  (0x2000 ≤ c.toNat && c.toNat ≤ 0x200A) || c.toNat == 0x202F || c.toNat == 0x205F ||
  c.toNat == 0x3000

def strip (t:String) : String :=
 String.ofList ((t.toList.dropWhile isSpace).reverse.dropWhile isSpace).reverse

def backtick : Char := Char.ofNat 96

def stripBackticks (t:String) : String :=
 match t.toList with
 | c::rest=>
  if c=backtick ∧ rest.getLast? = some backtick then String.ofList rest.dropLast else t
 | []=>t

def drop (n:ℕ) (t:String) : String := String.ofList (t.toList.drop n)

def splitOnDots (t:String) : List String := (t.toList.splitOn '.').map String.ofList

structure CachedDecisionQuery extends InputRefs.CachedDecisionQuery ℤ where
 compiled : CompiledDecisionQuery ℤ

structure QueryAtom where
 unique : ℤ
 atomId : String
 label : String
 inputRefs : List (InputRef ℤ)
 deriving DecidableEq

structure QueryOutcome where
 determined : Option Bool
 support : List QueryAtom

structure QueryImpact where
 ifTrue : QueryOutcome
 ifFalse : QueryOutcome

structure QueryInput where
 inputUnique : ℤ
 inputLabel : String
 score : ℚ
 atoms : List QueryAtom

structure QueryAsk where
 container : String
 key : Option String
 path : List String
 label : String
 score : ℚ
 atoms : List QueryAtom

structure QueryPlanResponse where
 determined : Option Bool
 stillNeeded : List QueryAtom
 ranked : List QueryAtom
 inputs : List QueryInput
 asks : List QueryAsk
 impact : TreeMap ℤ QueryImpact
 impactByAtomId : String → Option QueryImpact
 note : String

abbrev AskKey := String × List String

def askOrder : AskKey → AskKey → Ordering :=
 compareLex (compareOn Prod.fst) (compareOn Prod.snd)

instance : Std.TransCmp askOrder :=
 inferInstanceAs (Std.TransCmp (compareLex (compareOn Prod.fst) (compareOn Prod.snd)))

instance : Std.LawfulEqCmp askOrder where
 eq_of_compare {a b} h := by
  simp only [askOrder,compareLex,Ordering.then_eq_eq,compareOn] at h
  exact Prod.ext (Std.LawfulEqOrd.eq_of_compare h.1) (Std.LawfulEqOrd.eq_of_compare h.2)

/-- Hashing of names, and reading a number. -/
structure Host where
 generateNamed : String → String
 readInt : String → Option ℤ

def entries {V:Type} (m:IntMap ℤ V) : List (ℤ × V) :=
 (m.keys.sort (· ≤ ·)).filterMap fun u=>(m.lookup u).map fun v=>(u,v)

/-- A map by lookup alone, in which what comes later goes before what was there. -/
def fromListWith {K V:Type} [DecidableEq K] (l:List (K × List V)) : K → Option (List V) :=
 l.foldl (fun m e=>Function.update m e.1 (some (e.2 ++ (m e.1).getD []))) fun _=>none

/-- A map by lookup alone, in which the later of two counts. -/
def fromList {K V:Type} [DecidableEq K] (l:List (K × V)) : K → Option V :=
 l.foldl (fun m e=>Function.update m e.1 (some e.2)) fun _=>none

section Labels

variable (host:Host) (name:String) (paramsByUnique:TreeMap ℤ String)
 (cached:CachedDecisionQuery)

def refsByUnique (u:ℤ) : List (InputRef ℤ) :=
 let refs:=((inputRefsClosureByUnique cached.toCachedDecisionQuery).getD .empty).findWithDefault
  ∅ u
 ((refs.image fun r=>toLex (r.rootUnique,r.path)).sort (· ≤ ·)).map fun p=>
  ⟨(ofLex p).1,(ofLex p).2⟩

def rootLabel (u:ℤ) : Option String :=
 paramsByUnique[u]? <|> cached.varLabelByUnique.lookup u

def renderInputRef (ref:InputRef ℤ) : String :=
 (rootLabel paramsByUnique cached ref.rootUnique).getD (toString ref.rootUnique) ++
  match ref.path with
  | []=> ""
  | xs=> "." ++ ".".intercalate xs

def stableAtomId (u:ℤ) (lbl:String) : String :=
 let refs:=((refsByUnique cached u).map (renderInputRef paramsByUnique cached)).mergeSort
 host.generateNamed ("|".intercalate ([name,lbl] ++
  if refs=[] then [] else ["refs=" ++ ";".intercalate refs]))

def atomIdByUnique (u:ℤ) : Option String :=
 (cached.varLabelByUnique.lookup u).map (stableAtomId host name paramsByUnique cached u)

def parseProjectionLabel (lbl:String) : Option (String × String) :=
 let (container0,r):=breakOn "'s " lbl
 if r = "" then none
 else
  let field:=stripBackticks (strip (drop 3 r))
  if strip container0 = "" ∨ field = "" then none else some (strip container0,field)

def segments (raw:String) : List String := (splitOnDots raw).filter (· ≠ "")

def pathsOf (raw:String) : List (List String) :=
 if [raw]=segments raw then [[raw]] else [[raw],segments raw]

def answeredKeysOf (k:String) : List AskKey :=
 let (containerLabel,rest):=breakOn "." k
 if rest = "" then [(containerLabel,[])]
 else (pathsOf (drop 1 rest)).map fun path=>(containerLabel,path)

def answeredAskKeys (bindings:List (String × Bool)) : TreeSet AskKey askOrder :=
 TreeSet.ofList (bindings.flatMap fun e=>answeredKeysOf e.1) askOrder

def leafUniquesByInputRef : InputRef ℤ → Option (List ℤ) :=
 fromListWith (((InputRefs.allUniques cached.toCachedDecisionQuery).sort (· ≤ ·)).flatMap fun u=>
  match refsByUnique cached u with
  | [ref]=>[(ref,[u])]
  | _=>[])

def paramUniqueByLabel : String → Option ℤ :=
 fromList (paramsByUnique.toList.map fun e=>(e.2,e.1))

def uniqueByAtomId : String → Option ℤ :=
 fromList ((entries cached.varLabelByUnique).filterMap fun e=>
  (atomIdByUnique host name paramsByUnique cached e.1).map fun aid=>(aid,e.1))

def candidateInputRefsForKey (k:String) : List (InputRef ℤ) :=
 let (containerLabel,rest):=breakOn "." k
 match paramUniqueByLabel paramsByUnique containerLabel with
 | none=>[]
 | some rootUnique=>
  if rest = "" then [⟨rootUnique,[]⟩]
  else (pathsOf (drop 1 rest)).map fun path=>⟨rootUnique,path⟩

def labelToUniques (lbl:String) : Option (List ℤ) :=
 fromListWith ((entries cached.varLabelByUnique).map fun e=>(e.2,[e.1])) lbl <|>
  fromListWith ((entries cached.varLabelByUnique).filterMap fun e=>
   (parseProjectionLabel e.2).map fun p=>(p.1 ++ "." ++ p.2,[e.1])) lbl

def keyToLeafUniques (k:String) : List ℤ :=
 ((candidateInputRefsForKey paramsByUnique k).flatMap fun ref=>
  (leafUniquesByInputRef cached ref).getD []).eraseDups

/-- A key is a label, with its backticks or without, a unique or an atom's id. -/
def tryMatchKey (k:String) : Option (List ℤ) :=
 labelToUniques cached k <|>
  labelToUniques cached (String.singleton backtick ++ k ++ String.singleton backtick) <|>
  (host.readInt k).map (fun u=>[u]) <|>
  (uniqueByAtomId host name paramsByUnique cached k).map fun u=>[u]

def knownBindings (bindings:List (String × Bool)) : TreeMap ℤ Bool :=
 TreeMap.ofList (bindings.flatMap fun e=>
  ((tryMatchKey host name paramsByUnique cached e.1).getD []).map (fun u=>(u,e.2)) ++
   (keyToLeafUniques paramsByUnique cached e.1).map fun u=>(u,e.2))

end Labels

section Plan

variable (host:Host) (name:String) (paramsByUnique:TreeMap ℤ String)
 (cached:CachedDecisionQuery) (res:DecisionQueryResult ℤ)

def atomOf (u:ℤ) : QueryAtom where
 unique:=u
 atomId:=(atomIdByUnique host name paramsByUnique cached u).getD (toString u)
 label:=(cached.varLabelByUnique.lookup u).getD (toString u)
 inputRefs:=refsByUnique cached u

def atomsOfSet (s:TreeSet ℤ) : List QueryAtom :=
 s.toList.map (atomOf host name paramsByUnique cached)

/-- Two points if an answer may settle the decision, and the share of atoms that answers spare. -/
def impactScoreFor (u:ℤ) : ℚ :=
 match res.impact[u]? with
 | none=>0
 | some vi=>
  let outcomes:=[vi.ifTrue,vi.ifFalse]
  let shrink:=(outcomes.map fun o=>(res.support.size : ℚ)-(o.support.size : ℚ)).sum
  (if outcomes.any fun o=>o.determined.isSome then 2 else 0) +
   shrink / max 1 (res.support.size : ℚ)

def impactJson : TreeMap ℤ QueryImpact :=
 res.impact.map fun _ vi=>
  { ifTrue:=⟨vi.ifTrue.determined,atomsOfSet host name paramsByUnique cached vi.ifTrue.support⟩
    ifFalse :=
     ⟨vi.ifFalse.determined,atomsOfSet host name paramsByUnique cached vi.ifFalse.support⟩ }

def impactByAtomIdJson : String → Option QueryImpact :=
 fromList ((impactJson host name paramsByUnique cached res).toList.filterMap fun e=>
  (atomIdByUnique host name paramsByUnique cached e.1).map fun aid=>(aid,e.2))

def atomParamDeps (u:ℤ) : List ℤ :=
 (((refsByUnique cached u).map (·.rootUnique)).filter fun r=>paramsByUnique.contains r).eraseDups

def stillNeededAtoms : List QueryAtom := atomsOfSet host name paramsByUnique cached res.support

def atomsOfInput (p:ℤ) : List QueryAtom :=
 (stillNeededAtoms host name paramsByUnique cached res).filter fun a=>
  (atomParamDeps paramsByUnique cached a.unique).contains p

def inputScore (p:ℤ) : ℚ :=
 ((atomsOfInput host name paramsByUnique cached res p).map fun a=>
  1 / max 1 ((atomParamDeps paramsByUnique cached a.unique).length : ℚ) *
   (1+impactScoreFor res a.unique)).sum

def inputsRanked : List QueryInput :=
 let scores:=paramsByUnique.toList.map fun e=>
  (e,inputScore host name paramsByUnique cached res e.1)
 let sorted:=scores.mergeSort fun x y=>y.2 < x.2 ∨ y.2=x.2 ∧ x.1.2 ≤ y.1.2
 (sorted.filter fun x=>0 < x.2).map fun x=>
  { inputUnique:=x.1.1
    inputLabel:=x.1.2
    score:=x.2
    atoms:=atomsOfInput host name paramsByUnique cached res x.1.1 }

/-- The keys of an atom's references whose root has a label, and those its own label speaks of. -/
def askKeyDepsForAtom (u:ℤ) : TreeSet AskKey askOrder :=
 TreeSet.ofList ((refsByUnique cached u).filterMap (fun ref=>
   (rootLabel paramsByUnique cached ref.rootUnique).map fun lbl=>(lbl,ref.path)) ++
  ((cached.varLabelByUnique.lookup u).bind parseProjectionLabel).elim [] fun p=>
   (pathsOf p.2).map fun path=>(p.1,path)) askOrder

abbrev AskMap := TreeMap AskKey (List QueryAtom) askOrder

def addAsk (m:AskMap) (e:AskKey × QueryAtom) : AskMap :=
 m.insert e.1 (e.2::(m[e.1]?).getD [])

def askAtomsMap0 : AskMap :=
 ((stillNeededAtoms host name paramsByUnique cached res).flatMap fun a=>
  (askKeyDepsForAtom paramsByUnique cached a.unique).toList.map fun askKey=>
   (askKey,a)).foldl addAsk ∅

/-- A container that is asked for as a whole is left out where its parts' atoms are all of its. -/
def dropContainer (m0 m:AskMap) (containerLabel:String) : AskMap :=
 let otherKeys:=m.keys.filter fun k=>k.1=containerLabel ∧ k.2 ≠ []
 match m0[((containerLabel,[]) : AskKey)]? with
 | none=>m
 | some emptyAtoms=>
  if otherKeys=[] then m
  else
   let otherAtoms:=otherKeys.flatMap fun k=>((m0[k]?).getD []).map (·.unique)
   if emptyAtoms.all fun a=>otherAtoms.contains a.unique then m.erase (containerLabel,[])
   else m

def askAtomsMap : AskMap :=
 let m0:=askAtomsMap0 host name paramsByUnique cached res
 (TreeSet.ofList (m0.keys.map Prod.fst)).toList.foldl (dropContainer m0) m0

def askScore (atoms:List QueryAtom) : ℚ :=
 (atoms.map fun a=>
  1 / max 1 ((askKeyDepsForAtom paramsByUnique cached a.unique).size : ℚ) *
   (1+impactScoreFor res a.unique)).sum

def pathText : List String → Option String
 | []=>none
 | xs=>some (".".intercalate xs)

def asksRanked (answeredAskKeys:TreeSet AskKey askOrder) : List QueryAsk :=
 let scores:=(askAtomsMap host name paramsByUnique cached res).toList.map fun e=>
  (e,askScore paramsByUnique cached res e.2)
 let sorted:=scores.mergeSort fun x y=>
  y.2 < x.2 ∨ y.2=x.2 ∧ (askOrder x.1.1 y.1.1).isLE
 (sorted.filter fun x=>0 < x.2 ∧ x.1.1 ∉ answeredAskKeys).map fun x=>
  { container:=x.1.1.1
    key:=pathText x.1.1.2
    path:=x.1.1.2
    label:=x.1.1.1 ++ (pathText x.1.1.2).elim "" fun t=> "." ++ t
    score:=x.2
    atoms:=x.1.2 }

end Plan

def noteTxt : String :=
 "StillNeeded/ranked are boolean atoms from ladder visualization; these may be derived " ++
 "predicates rather than original user inputs. Bindings are matched by atom label (including " ++
 "dotted labels for nested fields), atom unique (as a decimal string), or atomId (a stable " ++
 "UUIDv5 derived from function name, atom label, and input refs). `inputs` ranks function " ++
 "parameters using a simple dependency-based heuristic. `asks` ranks askable keys; for record " ++
 "parameters this includes projected field paths discovered via `Proj`."

/-- The plan, unless the diagram's engine has an internal error. -/
def queryPlan (host:Host) (name:String) (paramsByUnique:TreeMap ℤ String)
  (cached:CachedDecisionQuery) (flattenedLabelBindings:List (String × Bool)) :
  Option QueryPlanResponse := do
 let res ← queryDecision cached.compiled
  (knownBindings host name paramsByUnique cached flattenedLabelBindings)
 return {
  determined:=res.determined
  stillNeeded:=stillNeededAtoms host name paramsByUnique cached res
  ranked:=res.ranked.map (atomOf host name paramsByUnique cached)
  inputs:=inputsRanked host name paramsByUnique cached res
  asks:=asksRanked host name paramsByUnique cached res (answeredAskKeys flattenedLabelBindings)
  impact:=impactJson host name paramsByUnique cached res
  impactByAtomId:=impactByAtomIdJson host name paramsByUnique cached res
  note:=noteTxt }

end L4Ide.QueryPlan
