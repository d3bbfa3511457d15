import L4Ide.Syntax

set_option autoImplicit false

/-!
# Unification

Types are unified under a substitution that is read at their heads. A variable is bound to a type
with the substitution applied, unless it occurs there, and synonyms are expanded as far as the
fuel goes. What follows the substitution to its end takes a number of steps, and is `none` when
they run out.
-/
namespace L4Ide.Unify
open Syntax

abbrev RType := Type' Resolved

abbrev Substitution := ℤ → Option RType

inductive CheckEntity where
 | knownType (params:List Resolved) (synonym:Option RType)
 | knownTerm
 | knownSection
 | knownTypeVariable

structure CheckEnv where
 entityInfo : List (Unique × CheckEntity)

inductive CheckError where
 | missingEntityInfo (r:Resolved)
 | synonymExpansionLimit (limit:ℕ) (r:Resolved)

structure CheckState where
 substitution : Substitution
 errors : List CheckError

def CheckState.addError (st:CheckState) (e:CheckError) : CheckState :=
 { st with errors:=st.errors ++ [e] }

def isOutOfScope : Resolved → Bool
 | .outOfScope _ _=>true
 | _=>false

def traverse {A B S:Type} (f:A → S → Option (B × S)) : List A → S → Option (List B × S)
 | [], s=>some ([],s)
 | a::rest, s=>do
  let (b,s1) ← f a s
  let (bs,s2) ← traverse f rest s1
  return (b::bs,s2)

mutual

def infVars : RType → List ℤ
 | .type=>[]
 | .tyApp _ ts=>infVarsEach ts
 | .fun_ onts t=>infVarsArgs onts ++ infVars t
 | .forall_ _ t=>infVars t
 | .infVar _ i=>[i]

def infVarsEach : List RType → List ℤ
 | []=>[]
 | t::ts=>infVars t ++ infVarsEach ts

def infVarsArgs : List (Option Resolved × RType) → List ℤ
 | []=>[]
 | (_,t)::onts=>infVars t ++ infVarsArgs onts

end

/-- Parameters with their arguments; of two parameters with one name the later counts. -/
abbrev Arguments := List (Unique × RType)

def Arguments.lookup (m:Arguments) (u:Unique) : Option RType :=
 (m.reverse.find? fun p=>p.1=u).map Prod.snd

mutual

def substituteType (m:Arguments) : RType → RType
 | .type=>.type
 | .tyApp r []=>(m.lookup r.getUnique).getD (.tyApp r [])
 | .tyApp r (t::ts)=>.tyApp r (substituteType m t::substituteEach m ts)
 | .fun_ onts t=>.fun_ (substituteArgs m onts) (substituteType m t)
 | .forall_ ns t=>.forall_ ns t
 | .infVar rn i=>.infVar rn i

def substituteEach (m:Arguments) : List RType → List RType
 | []=>[]
 | t::ts=>substituteType m t::substituteEach m ts

def substituteArgs (m:Arguments) : List (Option Resolved × RType) → List (Option Resolved × RType)
 | []=>[]
 | (n,t)::onts=>(n,substituteType m t)::substituteArgs m onts

end

/-- The substitution applied to its end; what it finds of a variable it writes back. -/
def applySubst : ℕ → RType → Substitution → Option (RType × Substitution)
 | 0, _, _=>none
 | _+1, .type, s=>some (.type,s)
 | steps+1, .tyApp n ts, s=>do
  let (ts', s1) ← traverse (applySubst steps) ts s
  return (.tyApp n ts', s1)
 | steps+1, .fun_ onts t, s=>do
  let (onts', s1) ← traverse (fun (n,u) s=>do
   let (u', s1) ← applySubst steps u s
   return ((n,u'),s1)) onts s
  let (t', s2) ← applySubst steps t s1
  return (.fun_ onts' t', s2)
 | steps+1, .forall_ ns t, s=>do
  let (t', s1) ← applySubst steps t s
  return (.forall_ ns t', s1)
 | steps+1, .infVar rn i, s=>
  match s i with
  | none=>some (.infVar rn i,s)
  | some t=>do
   let (t', s1) ← applySubst steps t s
   return (t', Function.update s1 i (some t'))

def walkHeadIn (s:Substitution) : ℕ → RType → Option RType
 | 0, _=>none
 | steps+1, .infVar rn i=>
  match s i with
  | none=>some (.infVar rn i)
  | some t=>walkHeadIn s steps t
 | _+1, t=>some t

def alike {A:Type} (eq:A → A → Option Bool) : List A → List A → Option Bool
 | a::as, b::bs=>do
  let r ← eq a b
  let rs ← alike eq as bs
  return r && rs
 | _, _=>some true

def plainTypeEqUnder (s:Substitution) : ℕ → RType → RType → Option Bool
 | 0, _, _=>none
 | steps+1, a, b=>do
  match ← walkHeadIn s (steps+1) a, ← walkHeadIn s (steps+1) b with
  | .type, .type=>return true
  | .tyApp n1 ts1, .tyApp n2 ts2=>
   let r ← alike (plainTypeEqUnder s steps) ts1 ts2
   return n1.getUnique=n2.getUnique && ts1.length=ts2.length && r
  | .fun_ onts1 t1, .fun_ onts2 t2=>
   let r ← alike (plainTypeEqUnder s steps) (onts1.map Prod.snd) (onts2.map Prod.snd)
   let r' ← plainTypeEqUnder s steps t1 t2
   return onts1.length=onts2.length && r && r'
  | .infVar _ i1, .infVar _ i2=>return i1=i2
  | _, _=>return false

def synonymExpansionFuel : ℕ := 1000

section Unifier
variable (env:CheckEnv)

def CheckEnv.synonym (u:Unique) : Option (List Resolved × RType) :=
 match env.entityInfo.lookup u with
 | some (.knownType params (some t))=>some (params,t)
 | _=>none

/-- A name that is not known is reported, unless it is one that did not resolve. -/
def getEntityInfo (r:Resolved) (st:CheckState) : Option CheckEntity × CheckState :=
 match env.entityInfo.lookup r.getUnique with
 | some ce=>(some ce,st)
 | none=>if isOutOfScope r then (none,st) else (none,st.addError (.missingEntityInfo r))

def tryExpandTypeSynonym (r:Resolved) (args:List RType) (st:CheckState) :
  Option RType × CheckState :=
 match getEntityInfo env r st with
 | (some (.knownType params (some t)),st1)=>
  (some (substituteType ((params.map Resolved.getUnique).zip args) t),st1)
 | (_,st1)=>(none,st1)

def isExpandableSynonym (r:Resolved) : Bool := (env.synonym r.getUnique).isSome

/-- Two types are one where asking is worth it: the same variable, or the same synonym. -/
def sameUnderSubstitution (steps:ℕ) (t1 t2:RType) (st:CheckState) : Option Bool :=
 match t1, t2 with
 | .infVar _ i1, .infVar _ i2=>some (i1=i2)
 | .tyApp n1 ts1, .tyApp n2 ts2=>
  if ts1=[] ∧ ts2=[] ∧ n1.getUnique=n2.getUnique then some true
  else if n1.getUnique=n2.getUnique ∧ ts1.length=ts2.length then
   if isExpandableSynonym env n1 then plainTypeEqUnder st.substitution steps t1 t2
   else some false
  else some false
 | _, _=>some false

def bind (i:ℤ) (t:RType) (st:CheckState) : Bool × CheckState :=
 (true,{ st with substitution:=Function.update st.substitution i (some t) })

def bindChecked (steps:ℕ) (i:ℤ) (t:RType) (st:CheckState) :
  Option (Bool × CheckState) := do
 let (t', s1) ← applySubst steps t st.substitution
 let st1:={ st with substitution:=s1 }
 if i ∈ infVars t' then return (false,st1) else return bind i t' st1

section Recursion
variable (unifyFuel:ℕ → RType → RType → CheckState → Option (Bool × CheckState))

def unifyBase (fuel:ℕ) (t1 t2:RType) (st:CheckState) : Option (Bool × CheckState) :=
 match t1, t2 with
 | .tyApp n1 ts1, .tyApp n2 ts2=>do
  let (rs,st1) ← traverse (fun (a,b)=>unifyFuel fuel a b) (ts1.zip ts2) st
  return (n1.getUnique=n2.getUnique && rs.all id,st1)
 | .fun_ onts1 t1, .fun_ onts2 t2=>
  if onts1.length=onts2.length then do
   let (rs,st1) ← traverse (fun (a,b)=>unifyFuel fuel a b)
    ((onts1.map Prod.snd).zip (onts2.map Prod.snd)) st
   let (r,st2) ← unifyFuel fuel t1 t2 st1
   return (r && rs.all id,st2)
  else some (false,st)
 | .type, .type=>some (true,st)
 | _, _=>some (false,st)

/-- A synonym is expanded before what comes next, at the cost of one unit of fuel. -/
def tryExpand (fuel:ℕ) (t:RType) (st:CheckState)
  (kSuccess:RType → CheckState → Option (Bool × CheckState))
  (kFail:CheckState → Option (Bool × CheckState)) : Option (Bool × CheckState) :=
 match t with
 | .tyApp n ts=>
  match tryExpandTypeSynonym env n ts st with
  | (some t', st1)=>
   if fuel=0 then some (true,st1.addError (.synonymExpansionLimit synonymExpansionFuel n))
   else kSuccess t' st1
  | (none,st1)=>kFail st1
 | _=>kFail st

def expandAndUnify (fuel:ℕ) (t1 t2:RType) (st:CheckState) : Option (Bool × CheckState) :=
 tryExpand env fuel t1 st (fun t1' =>unifyFuel (fuel-1) t1' t2) fun st=>
  tryExpand env fuel t2 st (fun t2' =>unifyFuel (fuel-1) t1 t2') fun st=>
   unifyBase unifyFuel fuel t1 t2 st

def poisoned : RType → Bool
 | .tyApp r _=>isOutOfScope r
 | _=>false

def unify' (steps fuel:ℕ) (t1 t2:RType) (st:CheckState) : Option (Bool × CheckState) := do
 if ← sameUnderSubstitution env steps t1 t2 st then return (true,st)
 match t1, t2 with
 | .infVar _ i1, t2' =>bindChecked steps i1 t2' st
 | t1', .infVar _ i2=>bindChecked steps i2 t1' st
 | t1', t2' =>
  if poisoned t1' || poisoned t2' then return (true,st)
  else expandAndUnify env unifyFuel fuel t1' t2' st

end Recursion

def unifyFuel : ℕ → ℕ → RType → RType → CheckState → Option (Bool × CheckState)
 | 0, _, _, _, _=>none
 | steps+1, fuel, t1, t2, st=>do
  let t1' ← walkHeadIn st.substitution (steps+1) t1
  let t2' ← walkHeadIn st.substitution (steps+1) t2
  unify' env (unifyFuel steps) steps fuel t1' t2' st

def unify (steps:ℕ) (t1 t2:RType) (st:CheckState) : Option (Bool × CheckState) :=
 unifyFuel env steps synonymExpansionFuel t1 t2 st

end Unifier

end L4Ide.Unify
