import L4Ide.FunctionSchema
import Mathlib.Data.Rat.Defs

set_option autoImplicit false

/-!
# The compatibility gate

What the update of a deployment reports as breaking, and what the schemas on both sides accept.
-/
namespace L4Ide.Compatibility
open FunctionSchema

/-- What counts of a deployed or an incoming function. -/
structure FnIface where
 ifName : String
 ifParams : Parameters
 ifReturnType : String
 ifReturnSchema : Option Parameter
 params_ordered : ifParams.Ordered
 return_ordered : ∀ p, ifReturnSchema=some p → p.Ordered

inductive Dir where
 | in_
 | out
 deriving DecidableEq, Repr

def kindOf : Dir → String
 | .in_=> "parameter"
 | .out=> "return value"

def subject (fn:String) (dir:Dir) (loc:String) : String :=
 fn ++ " " ++ kindOf dir ++ if loc = "" then "" else " " ++ loc

def childLoc (loc k:String) : String := if loc = "" then k else loc ++ "." ++ k

def itemsLoc (loc:String) : String := if loc = "" then "[]" else loc ++ "[]"

section Diff
variable (dir:Dir) (fn loc:String)

def formatMsgs (oFmt nFmt:String) : List String :=
 if oFmt ≠ nFmt ∧ ¬ (oFmt = "" ∧ nFmt = "") then
  [subject fn dir loc ++ " format changed from " ++ nonEmpty oFmt ++ " to " ++ nonEmpty nFmt]
 else []
where
 nonEmpty (t:String) : String := if t = "" then "none" else t

def enumMsgs (oEnum nEnum:List String) : List String :=
 if oEnum ≠ [] ∧ nEnum ≠ [] then
  match dir with
  | .in_=>
   let dropped:=oEnum.filter fun v=>v ∉ nEnum
   if dropped ≠ [] then
    [subject fn dir loc ++ " no longer accepts " ++ String.intercalate ", " dropped]
   else []
  | .out=>
   let added:=nEnum.filter fun v=>v ∉ oEnum
   if added ≠ [] then
    [subject fn dir loc ++ " may now return new values " ++ String.intercalate ", " added]
   else []
 else if dir = .in_ ∧ oEnum=[] ∧ nEnum ≠ [] then
  [subject fn dir loc ++ " is now restricted to a fixed set of values"]
 else if dir = .out ∧ oEnum ≠ [] ∧ nEnum=[] then
  [subject fn dir loc ++ " is no longer limited to a fixed set of values"]
 else []

def reqMsg (oldReq newReq:List String) (k:String) : List String :=
 match dir with
 | .in_=>
  if k ∈ newReq ∧ k ∉ oldReq then [subject fn dir (childLoc loc k) ++ " is now required"] else []
 | .out=>
  if k ∈ oldReq ∧ k ∉ newReq then
   [subject fn dir (childLoc loc k) ++ " may now be absent from the result"]
  else []

def checkNew (oldProps:TextMap Parameter) (newReq:List String) (k:String) : List String :=
 if k ∈ oldProps.keys then []
 else if dir = .in_ ∧ k ∈ newReq then
  [fn ++ " has a new required parameter " ++ childLoc loc k]
 else []

end Diff

section Nodes
variable (dir:Dir) (fn:String)

mutual

def diffNode (loc:String) : Parameter → Parameter → List String
 | ⟨oldType,oldFormat,oldEnum,oldProperties,oldItems,oldRequired⟩, new=>
  if oldType ≠ "" ∧ new.parameterType ≠ "" ∧ oldType ≠ new.parameterType then
   [subject fn dir loc ++ " type changed from " ++ oldType ++ " to " ++ new.parameterType]
  else
   formatMsgs dir fn loc (oldFormat.getD "") (new.parameterFormat.getD "") ++
   enumMsgs dir fn loc oldEnum new.parameterEnum ++
   (match oldProperties,new.parameterProperties with
    | none,none=>[]
    | none,some newProps=>(TextMap.keys newProps).flatMap
      (checkNew dir fn loc [] (new.parameterRequired.getD []))
    | some oldProps,newProps=>
      checkOld loc (oldRequired.getD []) (newProps.getD []) (new.parameterRequired.getD [])
       oldProps ++
      (TextMap.keys (newProps.getD [])).flatMap
       (checkNew dir fn loc oldProps (new.parameterRequired.getD []))) ++
   match oldItems, new.parameterItems with
   | some oi, some ni=>diffNode (itemsLoc loc) oi ni
   | _, _=>[]

def checkOld (loc:String) (oldReq:List String) (newProps:List (String × Parameter))
  (newReq:List String) : List (String × Parameter) → List String
 | []=>[]
 | (k,ov)::rest=>
  (match newProps.lookup k with
   | none=>[subject fn dir (childLoc loc k) ++
     if dir = .in_ then " removed" else " no longer returned"]
   | some nv=>reqMsg dir fn loc oldReq newReq k ++ diffNode (childLoc loc k) ov nv) ++
  checkOld loc oldReq newProps newReq rest

end

def diffObject (loc:String) (oldProps:TextMap Parameter) (oldReq:List String)
  (newProps:TextMap Parameter) (newReq:List String) : List String :=
 checkOld dir fn loc oldReq newProps newReq oldProps ++
  newProps.keys.flatMap (checkNew dir fn loc oldProps newReq)

end Nodes

def returnTypeChanged (old new:FnIface) : Prop :=
 old.ifReturnType ≠ "" ∧ new.ifReturnType ≠ "" ∧ old.ifReturnType ≠ new.ifReturnType

instance (old new:FnIface) : Decidable (returnTypeChanged old new) :=
 inferInstanceAs (Decidable (_ ∧ _ ∧ _))

def diffFn (old new:FnIface) : List String :=
 (if returnTypeChanged old new then
  [old.ifName ++ " return type changed from " ++ old.ifReturnType ++ " to " ++ new.ifReturnType]
 else []) ++
 diffObject .in_ old.ifName "" old.ifParams.parameterMap old.ifParams.required
  new.ifParams.parameterMap new.ifParams.required ++
 if returnTypeChanged old new then []
 else
  match old.ifReturnSchema, new.ifReturnSchema with
  | some os, some ns=>diffNode .out old.ifName "" os ns
  | _, _=>[]

/-- The incoming function of a name; of several the last one. -/
def newByName (new:List FnIface) (name:String) : Option FnIface :=
 new.reverse.find? fun f=>f.ifName=name

def detectBreakingChanges (old new:List FnIface) : List String :=
 (old.flatMap fun o=>
  match newByName new o.ifName with
  | some n=>diffFn o n
  | none=>[]) ++
 (old.filter fun o=>(newByName new o.ifName).isNone).map fun o=>
  "rule " ++ o.ifName ++ " removed"

inductive Json where
 | null
 | bool (b:Bool)
 | number (q:ℚ)
 | string (s:String)
 | array (vs:List Json)
 | object (fields:List (String × Json))

/-- What the names of types and formats say of a value; the empty name says nothing. -/
structure Reading where
 typeAccepts : String → Json → Prop
 formatAccepts : String → Json → Prop
 returnAccepts : String → Json → Prop

variable (r:Reading)

/-- The value has the schema; an optional property may be left out or null. -/
inductive Valid : Parameter → Json → Prop where
 | mk (p:Parameter) (j:Json)
   (htype:p.parameterType ≠ "" → r.typeAccepts p.parameterType j)
   (hformat:p.parameterFormat.getD "" ≠ "" → r.formatAccepts (p.parameterFormat.getD "") j)
   (henum:p.parameterEnum ≠ [] → ∃ s ∈ p.parameterEnum, j = .string s)
   (hrequired:∀ fields, j = .object fields → ∀ k ∈ p.parameterRequired.getD [],
    ∃ v, fields.lookup k=some v)
   (hproperties:∀ fields props, j = .object fields → p.parameterProperties=some props →
    ∀ k q v, props.lookup k=some q → fields.lookup k=some v →
     (v = .null → k ∈ p.parameterRequired.getD []) → Valid q v)
   (hitems:∀ vs q, j = .array vs → p.parameterItems=some q → ∀ v ∈ vs, Valid q v) :
   Valid p j

inductive Declared : Parameter → Json → Prop where
 | mk (p:Parameter) (j:Json)
   (hkeys:∀ fields props, j = .object fields → p.parameterProperties=some props →
    ∀ k v, fields.lookup k=some v → k ∈ TextMap.keys props)
   (hproperties:∀ fields props, j = .object fields → p.parameterProperties=some props →
    ∀ k q v, props.lookup k=some q → fields.lookup k=some v → Declared q v)
   (hitems:∀ vs q, j = .array vs → p.parameterItems=some q → ∀ v ∈ vs, Declared q v) :
   Declared p j

/-- The parameters as the schema of one object. -/
def Parameters.schema (ps:Parameters) : Parameter where
 parameterType:="object"
 parameterFormat:=none
 parameterEnum:=[]
 parameterProperties:=some ps.parameterMap
 parameterItems:=none
 parameterRequired:=some ps.required

structure ValidResult (f:FnIface) (j:Json) : Prop where
 type : f.ifReturnType ≠ "" → r.returnAccepts f.ifReturnType j
 schema : ∀ p, f.ifReturnSchema=some p → Valid r p j

end L4Ide.Compatibility
