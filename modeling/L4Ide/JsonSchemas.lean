import L4Ide.AssociationList
import L4Ide.Environment

set_option autoImplicit false

/-!
# JSON schemas

The schema of an exported function's parameters, with a definition for each declared type that is
met. The annotations with descriptions are a function of the name at whose definition they stand.
-/
namespace L4Ide.JsonSchemas
open Syntax Environment AssociationList

inductive SchemaType where
 | sString (desc:Option String)
 | sNumber (desc:Option String)
 | sInteger (desc:Option String)
 | sBoolean (desc:Option String)
 | sNull
 | sArray (items:SchemaType) (desc:Option String)
 | sObject (props:List (String × SchemaType × Bool)) (desc:Option String)
 | sRef (refName:String) (desc:Option String)
 | sOneOf (options:List SchemaType) (desc:Option String)
 | sEnum (values:List String) (desc:Option String)
 | sConst (value:String) (desc:Option String)
 | sAnyOf (options:List SchemaType) (desc:Option String)
 | sStringFormat (fmt:String) (desc:Option String)

abbrev Property := String × SchemaType × Bool

abbrev Defs := String → Option SchemaType

structure JsonSchema where
 schemaTitle : String
 schemaDescription : Option String
 schemaType : SchemaType
 schemaDefs : Defs

abbrev Descriptions := Unique → Option String

def resolvedToText (r:Resolved) : String := nameToText r.getActual

mutual

inductive Section where
 | mkSection (decls:List TopDecl)

inductive TopDecl where
 | declare (decl:Declare Resolved)
 | section_ (sub:Section)
 | other

end

/-- `Map.fromList`: of two entries with one key the later one counts. -/
def fromList (entries:List (String × Declare Resolved)) : List (String × Declare Resolved) :=
 entries.foldl (fun m e=>alter e.1 (fun _=>e.1) (fun _=>some e.2) m) []

def getDeclName (decl:Declare Resolved) : String := resolvedToText decl.appForm.head

mutual

def collectDeclares : Section → List (String × Declare Resolved)
 | .mkSection decls=>fromList (collectDecls decls)

def collectDecls : List TopDecl → List (String × Declare Resolved)
 | []=>[]
 | .declare decl::decls=>(getDeclName decl,decl)::collectDecls decls
 | .section_ sub::decls=>collectDeclares sub ++ collectDecls decls
 | .other::decls=>collectDecls decls

end

structure ExportedParam where
 paramName : String
 paramType : Option (Type' Resolved)
 paramDescription : Option String
 paramRequired : Bool

structure ExportedFunction where
 exportName : String
 exportDescription : String
 exportParams : List ExportedParam

def isMaybeType : Option (Type' Resolved) → Bool
 | some (.tyApp name [_])=>name.getUnique=maybeUnique
 | _=>false

def getTypeDesc (typeDesc:Descriptions) : Type' Resolved → Option String
 | .tyApp name _=>typeDesc name.getUnique
 | _=>none

/-- `buildTypeDescMap`: the descriptions of the module's own types. -/
def typeDescMap (annDesc:Descriptions) (declares:List (String × Declare Resolved)) :
  Descriptions := fun u=>
 if declares.any fun e=>e.2.appForm.head.getUnique=u then annDesc u else none

def toParam (annDesc typeDesc:Descriptions) (given:OptionallyTypedName Resolved) :
  ExportedParam where
 paramName:=resolvedToText given.name
 paramType:=given.type
 paramDescription:=annDesc given.name.getUnique <|> given.type.bind (getTypeDesc typeDesc)
 paramRequired:=!isMaybeType given.type

/-- `buildExportedFunction`, from the GIVENs with the ASSUMEs that the body refers to. -/
def buildExportedFunction (annDesc:Descriptions) (mod:Section) (name description:String)
  (givens:List (OptionallyTypedName Resolved)) : ExportedFunction where
 exportName:=name
 exportDescription:=description
 exportParams:=givens.map (toParam annDesc (typeDescMap annDesc (collectDeclares mod)))

def addDescription (st:SchemaType) : Option String → SchemaType
 | none=>st
 | some desc=>
  match st with
  | .sRef refName _=>.sRef refName (some desc)
  | .sString _=>.sString (some desc)
  | .sNumber _=>.sNumber (some desc)
  | .sInteger _=>.sInteger (some desc)
  | .sBoolean _=>.sBoolean (some desc)
  | .sArray items _=>.sArray items (some desc)
  | .sObject props _=>.sObject props (some desc)
  | .sOneOf options _=>.sOneOf options (some desc)
  | .sEnum values _=>.sEnum values (some desc)
  | .sConst value _=>.sConst value (some desc)
  | .sAnyOf options _=>.sAnyOf options (some desc)
  | .sStringFormat fmt _=>.sStringFormat fmt (some desc)
  | .sNull=>.sNull

/-- What the names that the schemas know stand for. -/
inductive Known where
 | plain (schema:SchemaType)
 | listOf (inner:Type' Resolved)
 | nullable (inner:Type' Resolved)

def known (typeName:String) : List (Type' Resolved) → Option Known
 | []=>
  if typeName = "Number" then some (.plain (.sNumber none))
  else if typeName = "String" then some (.plain (.sString none))
  else if typeName = "Boolean" then some (.plain (.sBoolean none))
  else if typeName = "Integer" then some (.plain (.sInteger none))
  else if typeName = "Date" then some (.plain (.sStringFormat "date" none))
  else if typeName = "DateTime" then some (.plain (.sStringFormat "date-time" none))
  else none
 | [inner]=>
  if typeName = "List" then some (.listOf inner)
  else if typeName = "Optional" ∨ typeName = "Maybe" then some (.nullable inner)
  else none
 | _=>none

def isMaybeOrOptionalType : Type' Resolved → Bool
 | .tyApp name [_]=>resolvedToText name = "Maybe" ∨ resolvedToText name = "Optional"
 | _=>false

section Schemas
variable (annDesc:Descriptions) (convert:Type' Resolved → Defs → Option (SchemaType × Defs))

def addFields : List (TypedName Resolved) → Defs → Option (List Property × Defs)
 | [], defs=>some ([],defs)
 | field::fields, defs=>do
  let acc ← addFields fields defs
  let schema ← convert field.type acc.2
  some ((resolvedToText field.name,addDescription schema.1 (annDesc field.name.getUnique),
   !isMaybeOrOptionalType field.type)::acc.1,schema.2)

def buildOptions : List (ConDecl Resolved) → Defs → Option (List SchemaType × Defs)
 | [], defs=>some ([],defs)
 | con::cons, defs=>do
  let acc ← buildOptions cons defs
  let props ← addFields annDesc convert con.fields acc.2
  some (.sObject (("tag",.sConst (resolvedToText con.name) none,true)::props.1) none::acc.1,
   props.2)

def enumToJsonSchema (desc:Option String) (cons:List (ConDecl Resolved)) (defs:Defs) :
  Option (SchemaType × Defs) :=
 if cons.any fun con=>!con.fields.isEmpty then do
  let options ← buildOptions annDesc convert cons defs
  some (.sOneOf options.1 desc,options.2)
 else some (.sEnum (cons.map fun con=>resolvedToText con.name) desc,defs)

def declareToJsonSchema (decl:Declare Resolved) (defs:Defs) : Option (SchemaType × Defs) :=
 let desc:=annDesc decl.appForm.head.getUnique
 match decl.decl with
 | .recordDecl _ fields=>do
  let props ← addFields annDesc convert fields defs
  some (.sObject props.1 desc,props.2)
 | .enumDecl cons=>enumToJsonSchema annDesc convert desc cons defs
 | .synonymDecl ty=>do
  let schema ← convert ty defs
  some (addDescription schema.1 desc,schema.2)

end Schemas

section Types
variable (annDesc:Descriptions) (ctxDeclares:List (String × Declare Resolved))

/-- Nothing where the fuel, which bounds the depth of the recursion, does not suffice. -/
def typeToJsonSchema : ℕ → Type' Resolved → Defs → Option (SchemaType × Defs)
 | 0, _, _=>none
 | _+1, .type, defs=>some (.sString none,defs)
 | fuel+1, .tyApp name args, defs=>
  let typeName:=resolvedToText name
  match known typeName args with
  | some (.plain schema)=>some (schema,defs)
  | some (.listOf inner)=>do
   let innerSchema ← typeToJsonSchema fuel inner defs
   some (.sArray innerSchema.1 none,innerSchema.2)
  | some (.nullable inner)=>do
   let innerSchema ← typeToJsonSchema fuel inner defs
   some (.sAnyOf [innerSchema.1,.sNull] none,innerSchema.2)
  | none=>
   match ctxDeclares.lookup typeName with
   | some decl=>
    if (defs typeName).isSome then some (.sRef typeName none,defs)
    else do
     -- the placeholder ends the recursion of a type that refers to itself
     let placeholder:=Function.update defs typeName (some (.sString none))
     let declSchema ←
      declareToJsonSchema annDesc (typeToJsonSchema fuel) decl placeholder
     some (.sRef typeName none,Function.update declSchema.2 typeName (some declSchema.1))
   | none=>some (.sRef typeName none,defs)
 | fuel+1, .fun_ _ retTy, defs=>typeToJsonSchema fuel retTy defs
 | fuel+1, .forall_ _ inner, defs=>typeToJsonSchema fuel inner defs
 | _+1, .infVar _ _, defs=>some (.sString none,defs)

def addParams (fuel:ℕ) : List ExportedParam → Defs → Option (List Property × Defs)
 | [], defs=>some ([],defs)
 | param::params, defs=>do
  let acc ← addParams fuel params defs
  match param.paramType with
  | none=>
   some ((param.paramName,.sString param.paramDescription,param.paramRequired)::acc.1,acc.2)
  | some ty=>
   let schema ← typeToJsonSchema annDesc ctxDeclares fuel ty acc.2
   some ((param.paramName,addDescription schema.1 param.paramDescription,
    param.paramRequired)::acc.1,schema.2)

def generateJsonSchema (fuel:ℕ) (exported:ExportedFunction) : Option JsonSchema := do
 let params ← addParams annDesc ctxDeclares fuel exported.exportParams fun _=>none
 some
  { schemaTitle:=exported.exportName
    schemaDescription :=
     if exported.exportDescription = "" then none else some exported.exportDescription
    schemaType:=.sObject params.1 none
    schemaDefs:=params.2 }

end Types

end L4Ide.JsonSchemas
