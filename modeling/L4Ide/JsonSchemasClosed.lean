import L4Ide.JsonSchemas
import Mathlib.Data.List.Forall2

set_option autoImplicit false

/-!
# Closed and typed schemas

Which schemas describe a function's parameters, and for which functions the generated one does.
-/
namespace L4Ide.JsonSchemasClosed
open Syntax Environment JsonSchemas

/-! ## Schemas that describe types -/

abbrev Declares := List (String × Declare Resolved)

def builtinTypes : List Unique :=
 [booleanUnique,numberUnique,dateUnique,stringUnique,listUnique,maybeUnique]

def owner (declares:Declares) (name:String) : Option Unique :=
 (declares.lookup name).map fun decl=>decl.appForm.head.getUnique

/-- A builtin type has its own JSON type, a declared type its own definition. -/
inductive Describes (declares:Declares) : Type' Resolved → SchemaType → Prop
 | boolean {n:Resolved} {d:Option String} : n.getUnique=booleanUnique →
  Describes declares (.tyApp n []) (.sBoolean d)
 | number {n:Resolved} {d:Option String} : n.getUnique=numberUnique →
  Describes declares (.tyApp n []) (.sNumber d)
 | date {n:Resolved} {d:Option String} : n.getUnique=dateUnique →
  Describes declares (.tyApp n []) (.sStringFormat "date" d)
 | string {n:Resolved} {d:Option String} : n.getUnique=stringUnique →
  Describes declares (.tyApp n []) (.sString d)
 | list {n:Resolved} {inner:Type' Resolved} {items:SchemaType} {d:Option String} :
  n.getUnique=listUnique → Describes declares inner items →
  Describes declares (.tyApp n [inner]) (.sArray items d)
 | maybe {n:Resolved} {inner:Type' Resolved} {schema:SchemaType} {d:Option String} :
  n.getUnique=maybeUnique → Describes declares inner schema →
  Describes declares (.tyApp n [inner]) (.sAnyOf [schema,.sNull] d)
 | declared {n:Resolved} {args:List (Type' Resolved)} {name:String} {d:Option String} :
  n.getUnique ∉ builtinTypes → owner declares name=some n.getUnique →
  Describes declares (.tyApp n args) (.sRef name d)

section Definitions
variable (R:Type' Resolved → SchemaType → Prop) (required:Type' Resolved → Bool)

structure FieldSchema (field:TypedName Resolved) (prop:Property) : Prop where
 name : prop.1=resolvedToText field.name
 type : R field.type prop.2.1
 required : prop.2.2=required field.type

def OptionSchema (con:ConDecl Resolved) (schema:SchemaType) : Prop :=
 ∃ props d tag, schema = .sObject (("tag",.sConst (resolvedToText con.name) tag,true)::props) d ∧
  List.Forall₂ (FieldSchema R required) con.fields props

/-- The schema of a declared type, over what describes a type and which fields are required. -/
def SchemaOf (decl:Declare Resolved) (schema:SchemaType) : Prop :=
 match decl.decl with
 | .recordDecl _ fields=>
  ∃ props d, schema = .sObject props d ∧ List.Forall₂ (FieldSchema R required) fields props
 | .enumDecl cons=>
  if cons.any fun con=>!con.fields.isEmpty then
   ∃ options d, schema = .sOneOf options d ∧ List.Forall₂ (OptionSchema R required) cons options
  else ∃ d, schema = .sEnum (cons.map fun con=>resolvedToText con.name) d
 | .synonymDecl ty=>R ty schema

structure ParamSchema (param:ExportedParam) (prop:Property) : Prop where
 name : prop.1=param.paramName
 type : ∀ ty ∈ param.paramType, R ty prop.2.1
 untyped : param.paramType=none → ∃ d, prop.2.1 = .sString d
 required : prop.2.2=param.paramRequired

end Definitions

mutual

/-- The names that a schema refers to. -/
def refs : SchemaType → List String
 | .sRef name _=>[name]
 | .sArray items _=>refs items
 | .sObject props _=>refsProps props
 | .sOneOf options _=>refsOptions options
 | .sAnyOf options _=>refsOptions options
 | _=>[]

def refsProps : List Property → List String
 | []=>[]
 | (_,schema,_)::props=>refs schema ++ refsProps props

def refsOptions : List SchemaType → List String
 | []=>[]
 | schema::options=>refs schema ++ refsOptions options

end

def Refers (schema:JsonSchema) (name:String) : Prop :=
 name ∈ refs schema.schemaType ∨
  ∃ key definition, schema.schemaDefs key=some definition ∧ name ∈ refs definition

def isRequired (ty:Type' Resolved) : Bool := !isMaybeType (some ty)

/-- Every reference names a definition, each definition is that of one declared type, and the types
of parameters and fields are described. -/
structure ClosedAndTyped (declares:Declares) (givens:List (OptionallyTypedName Resolved))
  (schema:JsonSchema) : Prop where
 params : ∃ props d, schema.schemaType = .sObject props d ∧
  List.Forall₂ (fun given prop=>prop.1=resolvedToText given.name ∧
   ∀ ty ∈ given.type, Describes declares ty prop.2.1 ∧ prop.2.2=isRequired ty) givens props
 definitions : ∀ name definition, schema.schemaDefs name=some definition →
  ∃ decl, declares.lookup name=some decl ∧
   SchemaOf (Describes declares) isRequired decl definition
 closed : ∀ name, Refers schema name → (schema.schemaDefs name).isSome

/-! ## Types that are reached -/

def fieldTypes (decl:Declare Resolved) : List (Type' Resolved) :=
 match decl.decl with
 | .recordDecl _ fields=>fields.map TypedName.type
 | .enumDecl cons=>cons.flatMap fun con=>con.fields.map TypedName.type
 | .synonymDecl ty=>[ty]

inductive Reached (declares:Declares) (givens:List (OptionallyTypedName Resolved)) :
  Type' Resolved → Prop
 | param {given:OptionallyTypedName Resolved} {ty:Type' Resolved} : given ∈ givens →
  given.type=some ty → Reached declares givens ty
 | field {n:Resolved} {args:List (Type' Resolved)} {decl:Declare Resolved}
  {ty:Type' Resolved} : Reached declares givens (.tyApp n args) →
  declares.lookup (resolvedToText n)=some decl → ty ∈ fieldTypes decl →
  Reached declares givens ty

/-- A type that the module itself declares under the name it is written by, which is none of those
that the schemas know. -/
def OwnType (declares:Declares) (ty:Type' Resolved) : Prop :=
 ∃ n args decl, ty = .tyApp n args ∧ n.getUnique ∉ builtinTypes ∧
  known (resolvedToText n) args=none ∧ declares.lookup (resolvedToText n)=some decl ∧
   decl.appForm.head.getUnique=n.getUnique

/-- The builtin types are written by their names. -/
def builtinName (u:Unique) : Option String :=
 if u=booleanUnique then some "BOOLEAN"
 else if u=numberUnique then some "NUMBER"
 else if u=dateUnique then some "DATE"
 else if u=stringUnique then some "STRING"
 else if u=listUnique then some "LIST"
 else if u=maybeUnique then some "MAYBE"
 else none

/-! ## What is generated -/

section Generation

variable {annDesc:Descriptions} {declares:Declares}

inductive Shape : Type' Resolved → SchemaType → Prop
 | type {d:Option String} : Shape .type (.sString d)
 | plain {n:Resolved} {args:List (Type' Resolved)} {schema:SchemaType}
  (d:Option String) : known (resolvedToText n) args=some (.plain schema) →
  Shape (.tyApp n args) (addDescription schema d)
 | listOf {n:Resolved} {args:List (Type' Resolved)} {inner:Type' Resolved}
  {items:SchemaType} {d:Option String} :
  known (resolvedToText n) args=some (.listOf inner) → Shape inner items →
  Shape (.tyApp n args) (.sArray items d)
 | nullable {n:Resolved} {args:List (Type' Resolved)} {inner:Type' Resolved}
  {schema:SchemaType} {d:Option String} :
  known (resolvedToText n) args=some (.nullable inner) → Shape inner schema →
  Shape (.tyApp n args) (.sAnyOf [schema,.sNull] d)
 | named {n:Resolved} {args:List (Type' Resolved)} {d:Option String} :
  known (resolvedToText n) args=none → Shape (.tyApp n args) (.sRef (resolvedToText n) d)
 | fun_ {args:List (Option Resolved × Type' Resolved)} {result:Type' Resolved}
  {schema:SchemaType} : Shape result schema → Shape (.fun_ args result) schema
 | forall_ {ns:List Resolved} {inner:Type' Resolved} {schema:SchemaType} :
  Shape inner schema → Shape (.forall_ ns inner) schema
 | infVar {r:RawName} {i:ℤ} {d:Option String} : Shape (.infVar r i) (.sString d)

theorem addDescription_addDescription (schema:SchemaType) (d d' : Option String) :
  ∃ d'', addDescription (addDescription schema d) d' = addDescription schema d'' := by
 cases d' with
 | none=>exact ⟨d,rfl⟩
 | some text=>
  refine ⟨some text, ?_⟩
  cases d with
  | none=>rfl
  | some other=>cases schema <;> rfl

variable {ty:Type' Resolved} {defs defs' : Defs} {fuel:ℕ}
 {convert' : Type' Resolved → Defs → Option (SchemaType × Defs)}

theorem Shape.addDescription {schema:SchemaType} (h:Shape ty schema)
  (desc:Option String) : Shape ty (addDescription schema desc) := by
 induction h with
 | type=>cases desc <;> exact .type
 | @plain n args schema d hknown=>
  have ⟨d', heq⟩:=addDescription_addDescription schema d desc
  exact heq ▸ .plain d' hknown
 | listOf hknown hinner=>cases desc <;> exact .listOf hknown hinner
 | nullable hknown hinner=>cases desc <;> exact .nullable hknown hinner
 | named hknown=>cases desc <;> exact .named hknown
 | fun_ _ ih=>exact .fun_ ih
 | forall_ _ ih=>exact .forall_ ih
 | infVar=>cases desc <;> exact .infVar

theorem refs_addDescription (schema:SchemaType) (desc:Option String) :
  refs (addDescription schema desc)=refs schema := by
 cases desc with
 | none=>rfl
 | some text=>cases schema <;> rfl

def Covers (declares:Declares) (defs:Defs) (names:List String) : Prop :=
 ∀ name ∈ names, (declares.lookup name).isSome → (defs name).isSome

def Grows (defs defs' : Defs) : Prop := ∀ name, (defs name).isSome → (defs' name).isSome

def codeRequired (ty:Type' Resolved) : Bool := !isMaybeOrOptionalType ty

/-- Definitions that have been collected for types with a property, where some are in progress. -/
structure Collected (declares:Declares) (Q:Type' Resolved → Prop) (P:String → Prop)
  (defs:Defs) : Prop where
 made : ∀ name schema, defs name=some schema → ¬P name →
  ∃ decl, declares.lookup name=some decl ∧ SchemaOf Shape codeRequired decl schema ∧
   Covers declares defs (refs schema)
 asked : ∀ name, (defs name).isSome → ∃ n args, name=resolvedToText n ∧ Q (.tyApp n args) ∧
  known name args=none ∧ (declares.lookup name).isSome

structure Traversed (declares:Declares) (Q:Type' Resolved → Prop) : Prop where
 listOf : ∀ n args inner, Q (.tyApp n args) →
  known (resolvedToText n) args=some (.listOf inner) → Q inner
 nullable : ∀ n args inner, Q (.tyApp n args) →
  known (resolvedToText n) args=some (.nullable inner) → Q inner
 field : ∀ n args decl ty, Q (.tyApp n args) → known (resolvedToText n) args=none →
  declares.lookup (resolvedToText n)=some decl → ty ∈ fieldTypes decl → Q ty
 result : ∀ args result, Q (.fun_ args result) → Q result
 inner : ∀ ns inner, Q (.forall_ ns inner) → Q inner

structure Extends (declares:Declares) (Q:Type' Resolved → Prop) (P:String → Prop)
  (defs defs' : Defs) (names:List String) : Prop where
 collected : Collected declares Q P defs'
 grows : Grows defs defs'
 covers : Covers declares defs' names

def Converts (declares:Declares) (Q:Type' Resolved → Prop)
  (convert:Type' Resolved → Defs → Option (SchemaType × Defs)) : Prop :=
 ∀ {P:String → Prop} {ty:Type' Resolved} {defs:Defs} {result:SchemaType × Defs}, Q ty →
  Collected declares Q P defs → (∀ name, P name → (defs name).isSome) →
  convert ty defs=some result →
  Shape ty result.1 ∧ Extends declares Q P defs result.2 (refs result.1)

theorem Grows.trans {defs'' : Defs} (h:Grows defs defs') (h' : Grows defs' defs'') :
  Grows defs defs'' :=
 fun name hname=>h' name (h name hname)

theorem Covers.grow {names:List String} (h:Covers declares defs names)
  (hgrows:Grows defs defs') : Covers declares defs' names :=
 fun name hmem hdeclared=>hgrows name (h name hmem hdeclared)

theorem covers_append {names names' : List String} (h:Covers declares defs names)
  (h' : Covers declares defs names') : Covers declares defs (names ++ names') := by
 intro name hmem hdeclared
 cases List.mem_append.mp hmem with
 | inl hmem=>exact h name hmem hdeclared
 | inr hmem=>exact h' name hmem hdeclared

variable {Q:Type' Resolved → Prop} {P:String → Prop}
 {convert:Type' Resolved → Defs → Option (SchemaType × Defs)}

theorem Extends.refl (h:Collected declares Q P defs) : Extends declares Q P defs defs [] :=
 ⟨h,fun _ hname=>hname,fun _ hmem=>by cases hmem⟩

theorem addFields_spec (hconvert:Converts declares Q convert) {fields:List (TypedName Resolved)}
  {result:List Property × Defs} (hQ:∀ field ∈ fields, Q field.type)
  (hdefs:Collected declares Q P defs) (hP:∀ name, P name → (defs name).isSome)
  (h:addFields annDesc convert fields defs=some result) :
  List.Forall₂ (FieldSchema Shape codeRequired) fields result.1 ∧
   Extends declares Q P defs result.2 (refsProps result.1) := by
 induction fields generalizing result with
 | nil=>
  cases h
  exact ⟨.nil,.refl hdefs⟩
 | cons field fields ih=>
  unfold addFields at h
  have ⟨acc,hacc,hschema⟩:=Option.bind_eq_some_iff.mp h
  have ⟨schema,hconverted,hresult⟩:=Option.bind_eq_some_iff.mp hschema
  have ⟨hfields,hextends⟩:=ih (fun f hmem=>hQ f (List.mem_cons_of_mem _ hmem)) hacc
  have ⟨hshape,hfirst⟩:=hconvert (hQ field List.mem_cons_self) hextends.collected
   (fun name hname=>hextends.grows name (hP name hname)) hconverted
  cases hresult
  refine ⟨.cons ⟨rfl,hshape.addDescription _,rfl⟩ hfields,hfirst.collected,
   hextends.grows.trans hfirst.grows, ?_⟩
  rw [refsProps,refs_addDescription]
  exact covers_append hfirst.covers (hextends.covers.grow hfirst.grows)

theorem buildOptions_spec (hconvert:Converts declares Q convert) {cons:List (ConDecl Resolved)}
  {result:List SchemaType × Defs}
  (hQ:∀ con ∈ cons, ∀ field ∈ con.fields, Q field.type)
  (hdefs:Collected declares Q P defs) (hP:∀ name, P name → (defs name).isSome)
  (h:buildOptions annDesc convert cons defs=some result) :
  List.Forall₂ (OptionSchema Shape codeRequired) cons result.1 ∧
   Extends declares Q P defs result.2 (refsOptions result.1) := by
 induction cons generalizing result with
 | nil=>
  cases h
  exact ⟨.nil,.refl hdefs⟩
 | cons con cons ih=>
  unfold buildOptions at h
  have ⟨acc,hacc,hprops⟩:=Option.bind_eq_some_iff.mp h
  have ⟨props,hadded,hresult⟩:=Option.bind_eq_some_iff.mp hprops
  have ⟨hcons,hextends⟩:=ih (fun c hmem=>hQ c (List.mem_cons_of_mem _ hmem)) hacc
  have ⟨hfields,hfirst⟩:=addFields_spec hconvert (hQ con List.mem_cons_self)
   hextends.collected (fun name hname=>hextends.grows name (hP name hname)) hadded
  cases hresult
  refine ⟨.cons ⟨props.1,none,none,rfl,hfields⟩ hcons,hfirst.collected,
   hextends.grows.trans hfirst.grows, ?_⟩
  rw [refsOptions]
  exact covers_append hfirst.covers (hextends.covers.grow hfirst.grows)

theorem declareToJsonSchema_spec (hconvert:Converts declares Q convert) {decl:Declare Resolved}
  {result:SchemaType × Defs} (hQ:∀ ty ∈ fieldTypes decl, Q ty)
  (hdefs:Collected declares Q P defs) (hP:∀ name, P name → (defs name).isSome)
  (h:declareToJsonSchema annDesc convert decl defs=some result) :
  SchemaOf Shape codeRequired decl result.1 ∧ Extends declares Q P defs result.2 (refs result.1) := by
 unfold declareToJsonSchema at h
 unfold SchemaOf
 unfold fieldTypes at hQ
 cases hdecl:decl.decl with
 | recordDecl con fields=>
  rw [hdecl] at h hQ
  have ⟨props,hadded,hresult⟩:=Option.bind_eq_some_iff.mp h
  have ⟨hfields,hextends⟩:=addFields_spec hconvert
   (fun field hmem=>hQ _ (List.mem_map_of_mem hmem)) hdefs hP hadded
  cases hresult
  exact ⟨⟨props.1,_,rfl,hfields⟩,hextends⟩
 | enumDecl cons=>
  rw [hdecl] at h hQ
  dsimp only at h ⊢
  unfold enumToJsonSchema at h
  split at h
  · rename_i hpayloads
    rw [if_pos hpayloads]
    have ⟨options,hbuilt,hresult⟩:=Option.bind_eq_some_iff.mp h
    have ⟨hoptions,hextends⟩:=buildOptions_spec hconvert
     (fun con hmem field hfield=>
      hQ _ (List.mem_flatMap.mpr ⟨con,hmem,List.mem_map_of_mem hfield⟩)) hdefs hP hbuilt
    cases hresult
    exact ⟨⟨options.1,_,rfl,hoptions⟩,hextends⟩
  · rename_i hnone
    rw [if_neg hnone]
    cases h
    exact ⟨⟨_,rfl⟩,.refl hdefs⟩
 | synonymDecl ty=>
  rw [hdecl] at h hQ
  have ⟨schema,hconverted,hresult⟩:=Option.bind_eq_some_iff.mp h
  have ⟨hshape,hextends⟩:=hconvert (hQ ty List.mem_cons_self) hdefs hP hconverted
  cases hresult
  refine ⟨hshape.addDescription _,hextends.collected,hextends.grows, ?_⟩
  rw [refs_addDescription]
  exact hextends.covers

theorem known_plain_refs {text:String} {args:List (Type' Resolved)} {schema:SchemaType}
  (h:known text args=some (.plain schema)) : refs schema=[] := by
 unfold known at h
 split at h
 · split_ifs at h
   all_goals
    cases h
    rfl
 · split_ifs at h
   all_goals cases h
 · cases h

theorem mem_of_known {text:String} {args:List (Type' Resolved)} {inner:Type' Resolved}
  (h:known text args=some (.listOf inner) ∨ known text args=some (.nullable inner)) :
  inner ∈ args := by
 unfold known at h
 split at h
 · split_ifs at h
   all_goals
    cases h with
    | inl h=>cases h
    | inr h=>cases h
 · split_ifs at h
   all_goals
    cases h with
    | inl h=>
     cases h
     try exact List.mem_cons_self
    | inr h=>
     cases h
     try exact List.mem_cons_self
 · cases h with
   | inl h=>cases h
   | inr h=>cases h

theorem Collected.placeholder {n:Resolved} {args:List (Type' Resolved)}
  (h:Collected declares Q P defs) (hQ:Q (.tyApp n args))
  (hknown:known (resolvedToText n) args=none) {decl:Declare Resolved}
  (hdecl:declares.lookup (resolvedToText n)=some decl) (schema:SchemaType) :
  Collected declares Q (fun name=>P name ∨ name=resolvedToText n)
   (Function.update defs (resolvedToText n) (some schema)) where
 made := by
  intro name definition hname hnot
  have hne:name ≠ resolvedToText n:=fun heq=>hnot (.inr heq)
  rw [Function.update_of_ne hne] at hname
  have ⟨own,hown,hschema,hcovers⟩:=h.made name definition hname fun hP=>hnot (.inl hP)
  refine ⟨own,hown,hschema,hcovers.grow fun key hkey=>?_⟩
  by_cases heq:key=resolvedToText n
  · simp [heq]
  · rwa [Function.update_of_ne heq]
 asked := by
  intro name hname
  by_cases heq:name=resolvedToText n
  · exact ⟨n,args,heq,hQ,heq ▸ hknown,by simp [heq,hdecl]⟩
  · rw [Function.update_of_ne heq] at hname
    exact h.asked name hname

theorem isSome_update {key name:String} {schema:SchemaType}
  (h:(defs name).isSome) : (Function.update defs key (some schema) name).isSome := by
 by_cases heq:name=key
 · simp [heq]
 · rwa [Function.update_of_ne heq]

/-- The definition of a type takes its place when its declaration has been gone through. -/
theorem Collected.define {key:String} {decl:Declare Resolved}
  {schema:SchemaType} (h:Collected declares Q (fun name=>P name ∨ name=key) defs)
  (hdecl:declares.lookup key=some decl) (hkey:(defs key).isSome)
  (hschema:SchemaOf Shape codeRequired decl schema)
  (hcovers:Covers declares defs (refs schema)) :
  Collected declares Q P (Function.update defs key (some schema)) where
 made := by
  intro name definition hname hnot
  by_cases heq:name=key
  · rw [heq,Function.update_self,Option.some.injEq] at hname
    subst hname
    exact ⟨decl,heq ▸ hdecl,hschema,hcovers.grow fun _=>isSome_update⟩
  · rw [Function.update_of_ne heq] at hname
    have hnot' : ¬(P name ∨ name=key):=fun hor=>hor.elim hnot heq
    have ⟨own,hown,hmade,hcovered⟩:=h.made name definition hname hnot'
    exact ⟨own,hown,hmade,hcovered.grow fun _=>isSome_update⟩
 asked := by
  intro name hname
  by_cases heq:name=key
  · exact h.asked name (heq ▸ hkey)
  · rw [Function.update_of_ne heq] at hname
    exact h.asked name hname

theorem typeToJsonSchema_spec (hQ:Traversed declares Q) (fuel:ℕ) :
  Converts declares Q (typeToJsonSchema annDesc declares fuel) := by
 induction fuel with
 | zero=>
  intro P ty defs result _ _ _ h
  cases h
 | succ fuel ih=>
  intro P ty defs result hty hdefs hP h
  cases ty with
  | type=>
   cases h
   exact ⟨.type,.refl hdefs⟩
  | infVar r i=>
   cases h
   exact ⟨.infVar,.refl hdefs⟩
  | fun_ args ty=>
   have ⟨hshape,hextends⟩:=ih (hQ.result args ty hty) hdefs hP h
   exact ⟨.fun_ hshape,hextends⟩
  | forall_ ns ty=>
   have ⟨hshape,hextends⟩:=ih (hQ.inner ns ty hty) hdefs hP h
   exact ⟨.forall_ hshape,hextends⟩
  | tyApp n args=>
   unfold typeToJsonSchema at h
   dsimp only at h
   cases hknown:known (resolvedToText n) args with
   | some name=>
    rw [hknown] at h
    cases name with
    | plain schema=>
     cases h
     refine ⟨.plain none hknown,hdefs,fun _ hname=>hname, ?_⟩
     rw [known_plain_refs hknown]
     exact fun _ hmem=>by cases hmem
    | listOf inner=>
     have ⟨converted,hconverted,hresult⟩:=Option.bind_eq_some_iff.mp h
     have ⟨hshape,hextends⟩:=ih (hQ.listOf n args inner hty hknown) hdefs hP hconverted
     cases hresult
     exact ⟨.listOf hknown hshape,hextends.collected,hextends.grows,hextends.covers⟩
    | nullable inner=>
     have ⟨converted,hconverted,hresult⟩:=Option.bind_eq_some_iff.mp h
     have ⟨hshape,hextends⟩:=ih (hQ.nullable n args inner hty hknown) hdefs hP hconverted
     cases hresult
     refine ⟨.nullable hknown hshape,hextends.collected,hextends.grows, ?_⟩
     change Covers declares converted.2 (refs converted.1 ++ ([] ++ []))
     rw [List.append_nil,List.append_nil]
     exact hextends.covers
   | none=>
    rw [hknown] at h
    dsimp only at h
    cases hdecl:declares.lookup (resolvedToText n) with
    | none=>
     rw [hdecl] at h
     cases h
     refine ⟨.named hknown,hdefs,fun _ hname=>hname,fun name hmem hdeclared=>?_⟩
     rw [List.mem_singleton.mp hmem,hdecl] at hdeclared
     cases hdeclared
    | some decl=>
     rw [hdecl] at h
     dsimp only at h
     split at h
     · rename_i hdefined
       cases h
       refine ⟨.named hknown,hdefs,fun _ hname=>hname,fun name hmem _=>?_⟩
       rw [List.mem_singleton.mp hmem]
       exact hdefined
     · have ⟨declared,hdeclared,hresult⟩:=Option.bind_eq_some_iff.mp h
       have hplaceholder:=hdefs.placeholder hty hknown hdecl (.sString none)
       have hprogress:∀ name, P name ∨ name=resolvedToText n →
         (Function.update defs (resolvedToText n) (some (.sString none)) name).isSome := by
        intro name hname
        cases hname with
        | inl hname=>exact isSome_update (hP name hname)
        | inr heq=>simp [heq]
       have ⟨hschema,hextends⟩:=declareToJsonSchema_spec ih
        (fun ty hmem=>hQ.field n args decl ty hty hknown hdecl hmem) hplaceholder hprogress
        hdeclared
       have hkey:=hextends.grows _ (hprogress _ (.inr rfl))
       cases hresult
       refine ⟨.named hknown,hextends.collected.define hdecl hkey hschema hextends.covers,
        fun name hname=>?_,fun name hmem _=>?_⟩
       · exact isSome_update (hextends.grows name (isSome_update hname))
       · exact isSome_update (List.mem_singleton.mp hmem ▸ hkey)

theorem addParams_spec (hQ:Traversed declares Q) {params:List ExportedParam}
  {result:List Property × Defs}
  (hparams:∀ param ∈ params, ∀ ty ∈ param.paramType, Q ty) (hdefs:Collected declares Q P defs)
  (hP:∀ name, P name → (defs name).isSome)
  (h:addParams annDesc declares fuel params defs=some result) :
  List.Forall₂ (ParamSchema Shape) params result.1 ∧
   Extends declares Q P defs result.2 (refsProps result.1) := by
 induction params generalizing result with
 | nil=>
  cases h
  exact ⟨.nil,.refl hdefs⟩
 | cons param params ih=>
  unfold addParams at h
  have ⟨acc,hacc,hrest⟩:=Option.bind_eq_some_iff.mp h
  have ⟨hall,hextends⟩:=ih (fun p hmem=>hparams p (List.mem_cons_of_mem _ hmem)) hacc
  cases hty:param.paramType with
  | none=>
   rw [hty] at hrest
   cases hrest
   refine ⟨.cons ⟨rfl, ?_,fun _=>⟨_,rfl⟩,rfl⟩ hall,hextends.collected,hextends.grows,
    hextends.covers⟩
   intro ty hmem
   rw [hty] at hmem
   cases hmem
  | some ty=>
   rw [hty] at hrest
   have ⟨schema,hconverted,hresult⟩:=Option.bind_eq_some_iff.mp hrest
   have hasked:Q ty:=hparams param List.mem_cons_self ty hty
   have ⟨hshape,hfirst⟩:=typeToJsonSchema_spec hQ fuel hasked hextends.collected
    (fun name hname=>hextends.grows name (hP name hname)) hconverted
   cases hresult
   refine ⟨.cons ⟨rfl, ?_, ?_,rfl⟩ hall,hfirst.collected,hextends.grows.trans hfirst.grows, ?_⟩
   · intro ty' hmem
     rw [hty] at hmem
     cases hmem
     exact hshape.addDescription _
   · intro hnone
     rw [hty] at hnone
     cases hnone
   · rw [refsProps,refs_addDescription]
     exact covers_append hfirst.covers (hextends.covers.grow hfirst.grows)

/-! ## Termination -/

theorem addFields_mono
  (h:∀ ty defs result, convert ty defs=some result → convert' ty defs=some result)
  {fields:List (TypedName Resolved)} {result:List Property × Defs}
  (hfields:addFields annDesc convert fields defs=some result) :
  addFields annDesc convert' fields defs=some result := by
 induction fields generalizing result with
 | nil=>exact hfields
 | cons field fields ih=>
  unfold addFields at hfields ⊢
  have ⟨acc,hacc,hschema⟩:=Option.bind_eq_some_iff.mp hfields
  have ⟨schema,hconverted,hresult⟩:=Option.bind_eq_some_iff.mp hschema
  rw [ih hacc,Option.bind_eq_bind,Option.bind_some,h _ _ _ hconverted]
  exact hresult

theorem buildOptions_mono
  (h:∀ ty defs result, convert ty defs=some result → convert' ty defs=some result)
  {cons:List (ConDecl Resolved)} {result:List SchemaType × Defs}
  (hcons:buildOptions annDesc convert cons defs=some result) :
  buildOptions annDesc convert' cons defs=some result := by
 induction cons generalizing result with
 | nil=>exact hcons
 | cons con cons ih=>
  unfold buildOptions at hcons ⊢
  have ⟨acc,hacc,hprops⟩:=Option.bind_eq_some_iff.mp hcons
  have ⟨props,hadded,hresult⟩:=Option.bind_eq_some_iff.mp hprops
  rw [ih hacc,Option.bind_eq_bind,Option.bind_some,addFields_mono h hadded]
  exact hresult

theorem declareToJsonSchema_mono
  (h:∀ ty defs result, convert ty defs=some result → convert' ty defs=some result)
  {decl:Declare Resolved} {result:SchemaType × Defs}
  (hdeclared:declareToJsonSchema annDesc convert decl defs=some result) :
  declareToJsonSchema annDesc convert' decl defs=some result := by
 unfold declareToJsonSchema at hdeclared ⊢
 cases hdecl:decl.decl with
 | recordDecl con fields=>
  rw [hdecl] at hdeclared
  have ⟨props,hadded,hresult⟩:=Option.bind_eq_some_iff.mp hdeclared
  dsimp only
  rw [addFields_mono h hadded]
  exact hresult
 | enumDecl cons=>
  rw [hdecl] at hdeclared
  dsimp only at hdeclared ⊢
  unfold enumToJsonSchema at hdeclared ⊢
  split at hdeclared
  · rename_i hpayloads
    rw [if_pos hpayloads]
    have ⟨options,hbuilt,hresult⟩:=Option.bind_eq_some_iff.mp hdeclared
    rw [buildOptions_mono h hbuilt]
    exact hresult
  · rename_i hnone
    rw [if_neg hnone]
    exact hdeclared
 | synonymDecl ty=>
  rw [hdecl] at hdeclared
  have ⟨schema,hconverted,hresult⟩:=Option.bind_eq_some_iff.mp hdeclared
  dsimp only
  rw [h _ _ _ hconverted]
  exact hresult

theorem typeToJsonSchema_succ
  {result:SchemaType × Defs} (h:typeToJsonSchema annDesc declares fuel ty defs=some result) :
  typeToJsonSchema annDesc declares (fuel+1) ty defs=some result := by
 induction fuel generalizing ty defs result with
 | zero=>cases h
 | succ fuel ih=>
  cases ty with
  | type=>exact h
  | infVar r i=>exact h
  | fun_ args ty=>exact ih h
  | forall_ ns ty=>exact ih h
  | tyApp n args=>
   rw [typeToJsonSchema] at h ⊢
   dsimp only at h ⊢
   cases hknown:known (resolvedToText n) args with
   | some name=>
    rw [hknown] at h
    cases name with
    | plain schema=>exact h
    | listOf inner=>
     have ⟨converted,hconverted,hresult⟩:=Option.bind_eq_some_iff.mp h
     dsimp only
     rw [ih hconverted]
     exact hresult
    | nullable inner=>
     have ⟨converted,hconverted,hresult⟩:=Option.bind_eq_some_iff.mp h
     dsimp only
     rw [ih hconverted]
     exact hresult
   | none=>
    rw [hknown] at h
    dsimp only at h ⊢
    cases hdecl:declares.lookup (resolvedToText n) with
    | none=>
     rw [hdecl] at h
     exact h
    | some decl=>
     rw [hdecl] at h
     dsimp only at h ⊢
     split at h
     · rename_i hdefined
       rw [if_pos hdefined]
       exact h
     · rename_i hmissing
       rw [if_neg hmissing]
       have ⟨declared,hdeclared,hresult⟩:=Option.bind_eq_some_iff.mp h
       rw [declareToJsonSchema_mono (fun _ _ _=>ih) hdeclared]
       exact hresult

theorem typeToJsonSchema_mono {fuel' : ℕ} (hle:fuel ≤ fuel') {result:SchemaType × Defs}
  (h:typeToJsonSchema annDesc declares fuel ty defs=some result) :
  typeToJsonSchema annDesc declares fuel' ty defs=some result := by
 induction hle with
 | refl=>exact h
 | step _ ih=>exact typeToJsonSchema_succ ih

/-- The declared types that are not defined yet. -/
def missing (declares:Declares) (defs:Defs) : ℕ :=
 (declares.filter fun e=>(defs e.1).isNone).length

theorem missing_le (h:Grows defs defs') :
  missing declares defs' ≤ missing declares defs := by
 apply List.Sublist.length_le
 apply List.monotone_filter_right
 intro e he
 cases hname:defs e.1 with
 | none=>rfl
 | some schema=>
  have hgrown:=h e.1 (by simp [hname])
  cases hname' : defs' e.1 with
  | none=>simp [hname'] at hgrown
  | some schema' =>simp [hname'] at he

theorem missing_update {key:String} {decl:Declare Resolved}
  (hdecl:declares.lookup key=some decl) (hkey:¬(defs key).isSome) (schema:SchemaType) :
  missing declares (Function.update defs key (some schema)) < missing declares defs := by
 have hle:∀ rest : Declares,
   missing rest (Function.update defs key (some schema)) ≤ missing rest defs :=
  fun rest=>missing_le fun _=>isSome_update
 induction declares with
 | nil=>cases hdecl
 | cons e declares ih=>
  have hrest:=hle declares
  unfold missing at hrest ih ⊢
  rw [AssociationList.lookup_cons_ite] at hdecl
  by_cases heq:key=e.1
  · have hnone:(defs e.1).isNone=true:=by
     cases hname:defs key with
     | none=>rw [←heq,hname]; rfl
     | some schema' =>simp [hname] at hkey
    rw [←heq] at hnone
    rw [List.filter_cons,List.filter_cons,←heq,Function.update_self,hnone]
    exact Nat.lt_succ_of_le hrest
  · have hne:(key == e.1)=false:=beq_false_of_ne heq
    rw [hne] at hdecl
    have hlt:=ih hdecl
    rw [List.filter_cons,List.filter_cons,Function.update_of_ne (Ne.symm heq)]
    split
    · exact Nat.succ_lt_succ hlt
    · exact hlt

/-- With some fuel, every type is converted while no more types than a bound are missing. -/
def Terminates (annDesc:Descriptions) (declares:Declares) (bound:ℕ) : Prop :=
 ∀ {P:String → Prop} {defs:Defs} (ty:Type' Resolved),
  Collected declares (fun _=>True) P defs → (∀ name, P name → (defs name).isSome) →
  missing declares defs ≤ bound →
  ∃ fuel result, typeToJsonSchema annDesc declares fuel ty defs=some result

theorem traversed_true : Traversed declares fun _=>True :=
 ⟨fun _ _ _ _ _=>trivial,fun _ _ _ _ _=>trivial,fun _ _ _ _ _ _ _ _=>trivial,
  fun _ _ _=>trivial,fun _ _ _=>trivial⟩

section Bounded

variable {bound:ℕ} {defs:Defs}

theorem addFields_terminates (h:Terminates annDesc declares bound)
  (fields:List (TypedName Resolved)) (hdefs:Collected declares (fun _=>True) P defs)
  (hP:∀ name, P name → (defs name).isSome) (hbound:missing declares defs ≤ bound) :
  ∃ fuel result, addFields annDesc (typeToJsonSchema annDesc declares fuel) fields defs =
   some result := by
 induction fields with
 | nil=>exact ⟨0,_,rfl⟩
 | cons field fields ih=>
  have ⟨fuel,acc,hacc⟩:=ih
  have ⟨_,hextends⟩:=addFields_spec (typeToJsonSchema_spec traversed_true fuel)
   (fun _ _=>trivial) hdefs hP hacc
  have ⟨fuel', schema,hschema⟩:=h field.type hextends.collected
   (fun name hname=>hextends.grows name (hP name hname))
   (Nat.le_trans (missing_le hextends.grows) hbound)
  refine ⟨max fuel fuel', Option.isSome_iff_exists.mp ?_⟩
  have hall:=addFields_mono (fun _ _ _=>typeToJsonSchema_mono (Nat.le_max_left fuel fuel')) hacc
  have hfirst:=typeToJsonSchema_mono (Nat.le_max_right fuel fuel') hschema
  rw [addFields,hall,Option.bind_eq_bind,Option.bind_some,hfirst]
  rfl

theorem buildOptions_terminates (h:Terminates annDesc declares bound)
  (cons:List (ConDecl Resolved)) (hdefs:Collected declares (fun _=>True) P defs)
  (hP:∀ name, P name → (defs name).isSome) (hbound:missing declares defs ≤ bound) :
  ∃ fuel result, buildOptions annDesc (typeToJsonSchema annDesc declares fuel) cons defs =
   some result := by
 induction cons with
 | nil=>exact ⟨0,_,rfl⟩
 | cons con cons ih=>
  have ⟨fuel,acc,hacc⟩:=ih
  have ⟨_,hextends⟩:=buildOptions_spec (typeToJsonSchema_spec traversed_true fuel)
   (fun _ _ _ _=>trivial) hdefs hP hacc
  have ⟨fuel', props,hprops⟩:=addFields_terminates h con.fields hextends.collected
   (fun name hname=>hextends.grows name (hP name hname))
   (Nat.le_trans (missing_le hextends.grows) hbound)
  refine ⟨max fuel fuel', Option.isSome_iff_exists.mp ?_⟩
  have hall:=buildOptions_mono (fun _ _ _=>typeToJsonSchema_mono (Nat.le_max_left fuel fuel')) hacc
  have hfirst:=addFields_mono (fun _ _ _=>typeToJsonSchema_mono (Nat.le_max_right fuel fuel')) hprops
  rw [buildOptions,hall,Option.bind_eq_bind,Option.bind_some,hfirst]
  rfl

theorem declareToJsonSchema_terminates (h:Terminates annDesc declares bound)
  (decl:Declare Resolved) (hdefs:Collected declares (fun _=>True) P defs)
  (hP:∀ name, P name → (defs name).isSome) (hbound:missing declares defs ≤ bound) :
  ∃ fuel result, declareToJsonSchema annDesc (typeToJsonSchema annDesc declares fuel) decl defs =
   some result := by
 unfold declareToJsonSchema
 cases decl.decl with
 | recordDecl con fields=>
  have ⟨fuel,props,hprops⟩:=addFields_terminates h fields hdefs hP hbound
  exact ⟨fuel,_,by dsimp only; rw [hprops]; rfl⟩
 | enumDecl cons=>
  dsimp only
  unfold enumToJsonSchema
  by_cases hpayloads:(cons.any fun con=>!con.fields.isEmpty)=true
  · have ⟨fuel,options,hoptions⟩:=buildOptions_terminates h cons hdefs hP hbound
    exact ⟨fuel,_,by rw [if_pos hpayloads,hoptions]; rfl⟩
  · exact ⟨0,_,if_neg hpayloads⟩
 | synonymDecl ty=>
  have ⟨fuel,schema,hschema⟩:=h ty hdefs hP hbound
  exact ⟨fuel,_,by dsimp only; rw [hschema]; rfl⟩

/-- A declared type is gone into with fewer types missing, any other with a smaller type. -/
theorem typeToJsonSchema_smaller (hsmaller:∀ b < bound, Terminates annDesc declares b)
  (hdefs:Collected declares (fun _=>True) P defs) (hP:∀ name, P name → (defs name).isSome)
  (hbound:missing declares defs ≤ bound) :
  (ty:Type' Resolved) →
   ∃ fuel result, typeToJsonSchema annDesc declares fuel ty defs=some result
 | .type=>⟨1,_,rfl⟩
 | .infVar _ _=>⟨1,_,rfl⟩
 | .fun_ _ ty=>by
  have ⟨fuel,result,h⟩:=typeToJsonSchema_smaller hsmaller hdefs hP hbound ty
  exact ⟨fuel+1,result,h⟩
 | .forall_ _ ty=>by
  have ⟨fuel,result,h⟩:=typeToJsonSchema_smaller hsmaller hdefs hP hbound ty
  exact ⟨fuel+1,result,h⟩
 | .tyApp n args=>by
  have hargs:∀ inner ∈ args,
    ∃ fuel result, typeToJsonSchema annDesc declares fuel inner defs=some result :=
   fun inner hmem=>typeToJsonSchema_smaller hsmaller hdefs hP hbound inner
  cases hknown:known (resolvedToText n) args with
  | some name=>
   cases name with
   | plain schema=>exact ⟨1,_,by rw [typeToJsonSchema]; dsimp only; rw [hknown]⟩
   | listOf inner=>
    have ⟨fuel,result,h⟩:=hargs inner (mem_of_known (.inl hknown))
    exact ⟨fuel+1,_,by rw [typeToJsonSchema]; dsimp only; rw [hknown]; dsimp only; rw [h]; rfl⟩
   | nullable inner=>
    have ⟨fuel,result,h⟩:=hargs inner (mem_of_known (.inr hknown))
    exact ⟨fuel+1,_,by rw [typeToJsonSchema]; dsimp only; rw [hknown]; dsimp only; rw [h]; rfl⟩
  | none=>
   cases hdecl:declares.lookup (resolvedToText n) with
   | none=>
    exact ⟨1,_,by rw [typeToJsonSchema]; dsimp only; rw [hknown]; dsimp only; rw [hdecl]⟩
   | some decl=>
    by_cases hdefined:(defs (resolvedToText n)).isSome
    · exact ⟨1,_,by
       rw [typeToJsonSchema]; dsimp only; rw [hknown]; dsimp only; rw [hdecl]
       exact if_pos hdefined⟩
    · have hplaceholder:=hdefs.placeholder trivial hknown hdecl (.sString none)
      have hprogress:∀ name, P name ∨ name=resolvedToText n →
        (Function.update defs (resolvedToText n) (some (.sString none)) name).isSome := by
       intro name hname
       cases hname with
       | inl hname=>exact isSome_update (hP name hname)
       | inr heq=>simp [heq]
      have hlt:=missing_update hdecl hdefined (.sString none)
      have ⟨fuel,declared,h⟩:=declareToJsonSchema_terminates
       (hsmaller _ (Nat.lt_of_lt_of_le hlt hbound)) decl hplaceholder hprogress (Nat.le_refl _)
      exact ⟨fuel+1,_,by
       rw [typeToJsonSchema]; dsimp only; rw [hknown]; dsimp only; rw [hdecl]; dsimp only
       rw [if_neg hdefined,h]; rfl⟩

end Bounded

theorem terminates (bound:ℕ) : Terminates annDesc declares bound := by
 induction bound using Nat.strong_induction_on with
 | _ bound ih=>
  intro P defs ty hdefs hP hbound
  exact typeToJsonSchema_smaller ih hdefs hP hbound ty

theorem addParams_mono {fuel' : ℕ} (hle:fuel ≤ fuel') {params:List ExportedParam}
  {result:List Property × Defs}
  (h:addParams annDesc declares fuel params defs=some result) :
  addParams annDesc declares fuel' params defs=some result := by
 induction params generalizing result with
 | nil=>exact h
 | cons param params ih=>
  unfold addParams at h ⊢
  have ⟨acc,hacc,hrest⟩:=Option.bind_eq_some_iff.mp h
  rw [ih hacc,Option.bind_eq_bind,Option.bind_some]
  cases hty:param.paramType with
  | none=>
   rw [hty] at hrest
   exact hrest
  | some ty=>
   rw [hty] at hrest
   have ⟨schema,hconverted,hresult⟩:=Option.bind_eq_some_iff.mp hrest
   dsimp only
   rw [typeToJsonSchema_mono hle hconverted]
   exact hresult

theorem collected_empty (declares:Declares) (Q:Type' Resolved → Prop) :
  Collected declares Q (fun _=>False) fun _=>none where
 made := by
  intro name schema h
  cases h
 asked := by
  intro name h
  cases h

theorem addParams_terminates (params:List ExportedParam) :
  ∃ fuel result, addParams annDesc declares fuel params (fun _=>none)=some result := by
 induction params with
 | nil=>exact ⟨0,_,rfl⟩
 | cons param params ih=>
  have ⟨fuel,acc,hacc⟩:=ih
  cases hty:param.paramType with
  | none=>
   refine ⟨fuel,Option.isSome_iff_exists.mp ?_⟩
   rw [addParams,hacc,Option.bind_eq_bind,Option.bind_some,hty]
   rfl
  | some ty=>
   have ⟨_,hextends⟩:=addParams_spec traversed_true (fun _ _ _ _=>trivial)
    (collected_empty declares _) (fun _ h=>h.elim) hacc
   have hbound:Terminates annDesc declares (missing declares acc.2):=terminates _
   have ⟨fuel', schema,hschema⟩:=
    hbound ty hextends.collected (fun _ h=>h.elim) (Nat.le_refl _)
   refine ⟨max fuel fuel', Option.isSome_iff_exists.mp ?_⟩
   rw [addParams,addParams_mono (Nat.le_max_left fuel fuel') hacc,Option.bind_eq_bind,
    Option.bind_some,hty]
   dsimp only
   rw [typeToJsonSchema_mono (Nat.le_max_right fuel fuel') hschema]
   rfl

theorem generateJsonSchema_terminates (annDesc:Descriptions) (declares:Declares)
  (exported:ExportedFunction) :
  ∃ fuel schema, generateJsonSchema annDesc declares fuel exported=some schema := by
 have ⟨fuel,params,hparams⟩:=@addParams_terminates annDesc declares exported.exportParams
 exact ⟨fuel,_,by rw [generateJsonSchema,hparams]; rfl⟩

end Generation

/-! ## When the schema is closed and typed -/

section Conditions

variable {annDesc:Descriptions} {declares:Declares}
 {givens:List (OptionallyTypedName Resolved)}

variable {n:Resolved} {ty:Type' Resolved} {props:List Property}
 {R R' : Type' Resolved → SchemaType → Prop} {required' : Type' Resolved → Bool}

theorem Shape.eq_sRef {args:List (Type' Resolved)} {schema:SchemaType}
  (h:Shape (.tyApp n args) schema) (hknown:known (resolvedToText n) args=none) :
  ∃ d, schema = .sRef (resolvedToText n) d := by
 cases h with
 | plain d hplain=>simp [hknown] at hplain
 | listOf hlist=>simp [hknown] at hlist
 | nullable hnull=>simp [hknown] at hnull
 | @named n args d _=>exact ⟨d,rfl⟩

theorem Shape.known_eq_none {args:List (Type' Resolved)} {schema:SchemaType}
  {name:String} {d:Option String} (h:Shape (.tyApp n args) schema)
  (hschema:schema = .sRef name d) :
  known (resolvedToText n) args=none ∧ name=resolvedToText n := by
 cases h with
 | @plain n args known d' hplain=>
  have hrefs:=congrArg refs hschema
  rw [refs_addDescription,known_plain_refs hplain] at hrefs
  cases hrefs
 | listOf hlist=>cases hschema
 | nullable hnull=>cases hschema
 | named hnone=>
  cases hschema
  exact ⟨hnone,rfl⟩

def knownNames : List String :=
 ["Number","String","Boolean","Integer","Date","DateTime","List","Optional","Maybe"]

theorem known_eq_none {text:String} (h:text ∉ knownNames) (args:List (Type' Resolved)) :
  known text args=none := by
 have hne:∀ name ∈ knownNames, text ≠ name:=fun name hmem heq=>h (heq ▸ hmem)
 unfold known
 split
 · rw [if_neg (hne "Number" (by decide)),if_neg (hne "String" (by decide)),
    if_neg (hne "Boolean" (by decide)),if_neg (hne "Integer" (by decide)),
    if_neg (hne "Date" (by decide)),if_neg (hne "DateTime" (by decide))]
 · have hneither:¬(text = "Optional" ∨ text = "Maybe"):=
    not_or.mpr ⟨hne "Optional" (by decide),hne "Maybe" (by decide)⟩
   rw [if_neg (hne "List" (by decide)),if_neg hneither]
 · rfl

theorem known_builtin {u:Unique} (hu:n.getUnique=u) (hmem:u ∈ builtinTypes)
  (hspelled:∀ text ∈ builtinName n.getUnique, resolvedToText n=text)
  (args:List (Type' Resolved)) : known (resolvedToText n) args=none := by
 have hnames:∀ u ∈ builtinTypes, ∃ text ∈ builtinName u, text ∉ knownNames:=by decide
 have ⟨text,hname,hunknown⟩:=hnames u hmem
 rw [hspelled text (hu ▸ hname)]
 exact known_eq_none hunknown args

/-- What a schema looks like and what it describes tell that the type is one of the module's own. -/
theorem ownType_of_describes {args:List (Type' Resolved)} {schema:SchemaType}
  (hspelled:∀ text ∈ builtinName n.getUnique, resolvedToText n=text)
  (hshape:Shape (.tyApp n args) schema) (h:Describes declares (.tyApp n args) schema) :
  OwnType declares (.tyApp n args) ∧ resolvedToText n ∈ refs schema := by
 have hbuiltin:∀ u ∈ builtinTypes, n.getUnique=u →
   ∃ d, schema = .sRef (resolvedToText n) d := by
  intro u hmem hu
  exact hshape.eq_sRef (known_builtin hu hmem hspelled args)
 cases h with
 | boolean hu=>
  have ⟨d,hd⟩:=hbuiltin _ (by decide) hu
  cases hd
 | number hu=>
  have ⟨d,hd⟩:=hbuiltin _ (by decide) hu
  cases hd
 | date hu=>
  have ⟨d,hd⟩:=hbuiltin _ (by decide) hu
  cases hd
 | string hu=>
  have ⟨d,hd⟩:=hbuiltin _ (by decide) hu
  cases hd
 | list hu _=>
  have ⟨d,hd⟩:=hbuiltin _ (by decide) hu
  cases hd
 | maybe hu _=>
  have ⟨d,hd⟩:=hbuiltin _ (by decide) hu
  cases hd
 | declared hnot howner=>
  have ⟨hknown,hname⟩:=hshape.known_eq_none rfl
  subst hname
  have ⟨decl,hdecl,hunique⟩:=Option.map_eq_some_iff.mp howner
  exact ⟨⟨n,args,decl,rfl,hnot,hknown,hdecl,hunique⟩,List.mem_cons_self⟩

theorem tyApp_of_describes {schema:SchemaType}
  (h:Describes declares ty schema) : ∃ n args, ty = .tyApp n args := by
 cases h with
 | boolean=>exact ⟨_,_,rfl⟩
 | number=>exact ⟨_,_,rfl⟩
 | date=>exact ⟨_,_,rfl⟩
 | string=>exact ⟨_,_,rfl⟩
 | list=>exact ⟨_,_,rfl⟩
 | maybe=>exact ⟨_,_,rfl⟩
 | declared=>exact ⟨_,_,rfl⟩

theorem describes_of_ownType {schema:SchemaType}
  (hown:OwnType declares ty) (h:Shape ty schema) :
  Describes declares ty schema ∧ ∀ name ∈ refs schema, (declares.lookup name).isSome := by
 have ⟨n,args,decl,hty,hbuiltin,hknown,hdecl,hunique⟩:=hown
 subst hty
 cases h with
 | plain d hplain=>simp [hknown] at hplain
 | listOf hlist=>simp [hknown] at hlist
 | nullable hnull=>simp [hknown] at hnull
 | named=>
  refine ⟨.declared hbuiltin (by simp [owner,hdecl,hunique]),fun name hmem=>?_⟩
  rw [List.mem_singleton.mp hmem,hdecl]
  rfl

theorem isMaybeOrOptionalType_known {args:List (Type' Resolved)}
  (h:known (resolvedToText n) args=none) : isMaybeOrOptionalType (.tyApp n args)=false := by
 unfold isMaybeOrOptionalType
 split
 · rename_i heq
   cases heq
   unfold known at h
   dsimp only at h
   split_ifs at h with hlist hneither
   exact decide_eq_false fun hor=>hneither hor.symm
 · rfl

theorem required_of_ownType (hown:OwnType declares ty) :
  codeRequired ty=isRequired ty := by
 have ⟨n,args,decl,hty,hbuiltin,hknown,_⟩:=hown
 subst hty
 have hmaybe:isMaybeType (some (.tyApp n args))=false:=by
  unfold isMaybeType
  split
  · rename_i heq
    cases heq
    exact decide_eq_false fun hu=>hbuiltin (hu ▸ by decide)
  · rfl
 rw [codeRequired,isRequired,isMaybeOrOptionalType_known hknown,hmaybe]

theorem fields_described {fields:List (TypedName Resolved)}
  (hown:∀ field ∈ fields, OwnType declares field.type)
  (h:List.Forall₂ (FieldSchema Shape codeRequired) fields props) :
  List.Forall₂ (FieldSchema (Describes declares) isRequired) fields props ∧
   ∀ name ∈ refsProps props, (declares.lookup name).isSome := by
 induction h with
 | nil=>exact ⟨.nil,fun _ hmem=>by cases hmem⟩
 | @cons field prop fields props hfield _ ih=>
  have hfirst:=hown field List.mem_cons_self
  have ⟨hrest,hdeclared⟩:=ih fun f hmem=>hown f (List.mem_cons_of_mem _ hmem)
  have ⟨hdescribes,hrefs⟩:=describes_of_ownType hfirst hfield.type
  have hrequired:=hfield.required.trans (required_of_ownType hfirst)
  refine ⟨.cons ⟨hfield.name,hdescribes,hrequired⟩ hrest,fun name hmem=>?_⟩
  cases List.mem_append.mp hmem with
  | inl hmem=>exact hrefs name hmem
  | inr hmem=>exact hdeclared name hmem

theorem options_described {cons:List (ConDecl Resolved)} {options:List SchemaType}
  (hown:∀ con ∈ cons, ∀ field ∈ con.fields, OwnType declares field.type)
  (h:List.Forall₂ (OptionSchema Shape codeRequired) cons options) :
  List.Forall₂ (OptionSchema (Describes declares) isRequired) cons options ∧
   ∀ name ∈ refsOptions options, (declares.lookup name).isSome := by
 induction h with
 | nil=>exact ⟨.nil,fun _ hmem=>by cases hmem⟩
 | @cons con option cons options hoption _ ih=>
  have ⟨hrest,hdeclared⟩:=ih fun c hmem=>hown c (List.mem_cons_of_mem _ hmem)
  have ⟨props,d,tag,hschema,hfields⟩:=hoption
  have ⟨hdescribed,hrefs⟩:=fields_described (hown con List.mem_cons_self) hfields
  refine ⟨.cons ⟨props,d,tag,hschema,hdescribed⟩ hrest,fun name hmem=>?_⟩
  cases List.mem_append.mp hmem with
  | inl hmem=>
   rw [hschema] at hmem
   exact hrefs name hmem
  | inr hmem=>exact hdeclared name hmem

theorem schemaOf_described {decl:Declare Resolved} {schema:SchemaType}
  (hown:∀ ty ∈ fieldTypes decl, OwnType declares ty)
  (h:SchemaOf Shape codeRequired decl schema) :
  SchemaOf (Describes declares) isRequired decl schema ∧
   ∀ name ∈ refs schema, (declares.lookup name).isSome := by
 unfold SchemaOf at h ⊢
 unfold fieldTypes at hown
 cases hdecl:decl.decl with
 | recordDecl con fields=>
  rw [hdecl] at h hown
  have ⟨props,d,hschema,hfields⟩:=h
  have ⟨hdescribed,hrefs⟩:=
   fields_described (fun field hmem=>hown _ (List.mem_map_of_mem hmem)) hfields
  subst hschema
  exact ⟨⟨props,d,rfl,hdescribed⟩,hrefs⟩
 | enumDecl cons=>
  rw [hdecl] at h hown
  dsimp only at h ⊢
  split at h
  · rename_i hpayloads
    rw [if_pos hpayloads]
    have ⟨options,d,hschema,hoptions⟩:=h
    have ⟨hdescribed,hrefs⟩:=options_described (fun con hmem field hfield=>
     hown _ (List.mem_flatMap.mpr ⟨con,hmem,List.mem_map_of_mem hfield⟩)) hoptions
    subst hschema
    exact ⟨⟨options,d,rfl,hdescribed⟩,hrefs⟩
  · rename_i hnone
    rw [if_neg hnone]
    have ⟨d,hschema⟩:=h
    subst hschema
    exact ⟨⟨d,rfl⟩,fun _ hmem=>by cases hmem⟩
 | synonymDecl ty=>
  rw [hdecl] at h hown
  exact describes_of_ownType (hown ty List.mem_cons_self) h

theorem fieldSchema_common {required:Type' Resolved → Bool} {fields:List (TypedName Resolved)}
  (h:List.Forall₂ (FieldSchema R required) fields props)
  (h' : List.Forall₂ (FieldSchema R' required') fields props) {field:TypedName Resolved}
  (hmem:field ∈ fields) :
  ∃ schema, R field.type schema ∧ R' field.type schema ∧ refs schema ⊆ refsProps props := by
 induction h with
 | nil=>cases hmem
 | @cons first prop fields props hfirst _ ih=>
  cases h' with
  | cons hfirst' hrest' =>
   cases List.mem_cons.mp hmem with
   | inl heq=>
    subst heq
    exact ⟨prop.2.1,hfirst.type,hfirst'.type,List.subset_append_left _ _⟩
   | inr hmem=>
    have ⟨schema,hR,hR', hrefs⟩:=ih hrest' hmem
    exact ⟨schema,hR,hR', List.Subset.trans hrefs (List.subset_append_right _ _)⟩

theorem optionSchema_common {required:Type' Resolved → Bool} {cons:List (ConDecl Resolved)}
  {options:List SchemaType} (h:List.Forall₂ (OptionSchema R required) cons options)
  (h' : List.Forall₂ (OptionSchema R' required') cons options) {con:ConDecl Resolved}
  (hmem:con ∈ cons) {field:TypedName Resolved} (hfield:field ∈ con.fields) :
  ∃ schema, R field.type schema ∧ R' field.type schema ∧ refs schema ⊆ refsOptions options := by
 induction h with
 | nil=>cases hmem
 | @cons first option cons options hfirst _ ih=>
  cases h' with
  | cons hfirst' hrest' =>
   cases List.mem_cons.mp hmem with
   | inl heq=>
    subst heq
    have ⟨props,d,tag,hschema,hfields⟩:=hfirst
    have ⟨props', d', tag', hschema', hfields'⟩:=hfirst'
    subst hschema
    cases hschema'
    have ⟨schema,hR,hR', hrefs⟩:=fieldSchema_common hfields hfields' hfield
    exact ⟨schema,hR,hR', List.Subset.trans hrefs (List.subset_append_left _ _)⟩
   | inr hmem=>
    have ⟨schema,hR,hR', hrefs⟩:=ih hrest' hmem
    exact ⟨schema,hR,hR', List.Subset.trans hrefs (List.subset_append_right _ _)⟩

theorem schemaOf_common
  {required:Type' Resolved → Bool} {decl:Declare Resolved} {schema:SchemaType}
  (h:SchemaOf R required decl schema) (h' : SchemaOf R' required' decl schema)
  (hmem:ty ∈ fieldTypes decl) :
  ∃ inner, R ty inner ∧ R' ty inner ∧ refs inner ⊆ refs schema := by
 unfold SchemaOf at h h'
 unfold fieldTypes at hmem
 cases hdecl:decl.decl with
 | recordDecl con fields=>
  rw [hdecl] at h h' hmem
  have ⟨field,hfield,heq⟩:=List.mem_map.mp hmem
  have ⟨props,d,hschema,hfields⟩:=h
  have ⟨props', d', hschema', hfields'⟩:=h'
  subst hschema heq
  cases hschema'
  exact fieldSchema_common hfields hfields' hfield
 | enumDecl cons=>
  rw [hdecl] at h h' hmem
  have ⟨con,hcon,hin⟩:=List.mem_flatMap.mp hmem
  have ⟨field,hfield,heq⟩:=List.mem_map.mp hin
  dsimp only at h h'
  split at h
  · rename_i hpayloads
    rw [if_pos hpayloads] at h'
    have ⟨options,d,hschema,hoptions⟩:=h
    have ⟨options', d', hschema', hoptions'⟩:=h'
    subst hschema heq
    cases hschema'
    exact optionSchema_common hoptions hoptions' hcon hfield
  · rename_i hnone
    refine absurd (List.any_eq_true.mpr ⟨con,hcon, ?_⟩) hnone
    cases hfields:con.fields with
    | nil=>
     rw [hfields] at hfield
     cases hfield
    | cons first rest=>rfl
 | synonymDecl synonym=>
  rw [hdecl] at h h' hmem
  rw [List.mem_singleton.mp hmem]
  exact ⟨schema,h,h', List.Subset.refl _⟩

theorem params_described (typeDesc:Descriptions)
  (hown:∀ given ∈ givens, ∀ ty ∈ given.type, OwnType declares ty)
  (h:List.Forall₂ (ParamSchema Shape) (givens.map (toParam annDesc typeDesc)) props) :
  List.Forall₂ (fun given prop=>prop.1=resolvedToText given.name ∧
   ∀ ty ∈ given.type, Describes declares ty prop.2.1 ∧ prop.2.2=isRequired ty) givens props ∧
   ∀ name ∈ refsProps props, (declares.lookup name).isSome := by
 rw [List.forall₂_map_left_iff] at h
 induction h with
 | nil=>exact ⟨.nil,fun _ hmem=>by cases hmem⟩
 | @cons given prop givens props hparam _ ih=>
  have ⟨hrest,hdeclared⟩:=ih fun g hmem=>hown g (List.mem_cons_of_mem _ hmem)
  have hdescribes:=fun ty hty=>
   describes_of_ownType (hown given List.mem_cons_self ty hty) (hparam.type ty hty)
  refine ⟨.cons ⟨hparam.name,fun ty hty=>⟨(hdescribes ty hty).1, ?_⟩⟩ hrest,fun name hmem=>?_⟩
  · rw [hparam.required,toParam,isRequired,Option.mem_def.mp hty]
  · cases List.mem_append.mp hmem with
    | inr hmem=>exact hdeclared name hmem
    | inl hmem=>
     cases hty:given.type with
     | some ty=>exact (hdescribes ty hty).2 name hmem
     | none=>
      have ⟨d,hschema⟩:=hparam.untyped hty
      rw [hschema] at hmem
      cases hmem

theorem param_common (typeDesc:Descriptions)
  (h:List.Forall₂ (ParamSchema Shape) (givens.map (toParam annDesc typeDesc)) props)
  (h' : List.Forall₂ (fun given prop=>prop.1=resolvedToText given.name ∧
   ∀ ty ∈ given.type, Describes declares ty prop.2.1 ∧ prop.2.2=isRequired ty) givens props)
  {given:OptionallyTypedName Resolved} (hmem:given ∈ givens)
  (hty:given.type=some ty) :
  ∃ schema, Shape ty schema ∧ Describes declares ty schema ∧ refs schema ⊆ refsProps props := by
 rw [List.forall₂_map_left_iff] at h
 induction h with
 | nil=>cases hmem
 | @cons first prop givens props hparam _ ih=>
  cases h' with
  | cons hfirst' hrest' =>
   cases List.mem_cons.mp hmem with
   | inl heq=>
    subst heq
    exact ⟨prop.2.1,hparam.type ty hty,(hfirst'.2 ty hty).1,List.subset_append_left _ _⟩
   | inr hmem=>
    have ⟨schema,hshape,hdescribes,hrefs⟩:=ih hrest' hmem
    exact ⟨schema,hshape,hdescribes,List.Subset.trans hrefs (List.subset_append_right _ _)⟩

theorem traversed_reached (hown:∀ ty, Reached declares givens ty → OwnType declares ty) :
  Traversed declares (Reached declares givens) where
 listOf := by
  intro n args inner hreached hknown
  have ⟨m,args', decl,hty,_,hnone,_⟩:=hown _ hreached
  cases hty
  simp [hnone] at hknown
 nullable := by
  intro n args inner hreached hknown
  have ⟨m,args', decl,hty,_,hnone,_⟩:=hown _ hreached
  cases hty
  simp [hnone] at hknown
 field:=fun n args decl ty hreached _ hdecl hmem=>.field hreached hdecl hmem
 result := by
  intro args result hreached
  have ⟨m,args', decl,hty,_⟩:=hown _ hreached
  cases hty
 inner := by
  intro ns inner hreached
  have ⟨m,args', decl,hty,_⟩:=hown _ hreached
  cases hty

theorem generateJsonSchema_params {fuel:ℕ} {exported:ExportedFunction} {schema:JsonSchema}
  (h:generateJsonSchema annDesc declares fuel exported=some schema) :
  ∃ props, schema.schemaType = .sObject props none ∧
   addParams annDesc declares fuel exported.exportParams (fun _=>none) =
    some (props,schema.schemaDefs) := by
 unfold generateJsonSchema at h
 have ⟨params,hparams,hschema⟩:=Option.bind_eq_some_iff.mp h
 cases hschema
 exact ⟨params.1,rfl,hparams⟩

theorem closedAndTyped_of_ownTypes {typeDesc:Descriptions} {fuel:ℕ} {name description:String}
  {schema:JsonSchema} (hown:∀ ty, Reached declares givens ty → OwnType declares ty)
  (h:generateJsonSchema annDesc declares fuel
   ⟨name,description,givens.map (toParam annDesc typeDesc)⟩=some schema) :
  ClosedAndTyped declares givens schema := by
 have ⟨props,htype,hparams⟩:=generateJsonSchema_params h
 have hasked:∀ param ∈ givens.map (toParam annDesc typeDesc), ∀ ty ∈ param.paramType,
   Reached declares givens ty := by
  intro param hmem ty hty
  have ⟨given,hgiven,heq⟩:=List.mem_map.mp hmem
  subst heq
  exact .param hgiven hty
 have ⟨hshapes,hextends⟩:=addParams_spec (traversed_reached hown) hasked
  (collected_empty declares _) (fun _ hfalse=>hfalse.elim) hparams
 have hgivens:∀ given ∈ givens, ∀ ty ∈ given.type, OwnType declares ty:=
  fun given hmem ty hty=>hown ty (.param hmem hty)
 have hdefinition:∀ key definition, schema.schemaDefs key=some definition →
   ∃ decl, declares.lookup key=some decl ∧
    SchemaOf (Describes declares) isRequired decl definition ∧
     ∀ name ∈ refs definition, (schema.schemaDefs name).isSome := by
  intro key definition hkey
  have ⟨decl,hdecl,hmade,hcovers⟩:=hextends.collected.made key definition hkey fun hfalse=>hfalse
  have ⟨n,args,hname,hreached,_⟩:=hextends.collected.asked key (by simp [hkey])
  have ⟨hdescribed,hdeclared⟩:=schemaOf_described
   (fun ty hmem=>hown ty (.field hreached (hname ▸ hdecl) hmem)) hmade
  exact ⟨decl,hdecl,hdescribed,fun name hmem=>hcovers name hmem (hdeclared name hmem)⟩
 have ⟨hdescribed,hdeclared⟩:=params_described typeDesc hgivens hshapes
 refine ⟨⟨props,none,htype,hdescribed⟩, ?_, ?_⟩
 · intro key definition hkey
   have ⟨decl,hdecl,hdescribed,_⟩:=hdefinition key definition hkey
   exact ⟨decl,hdecl,hdescribed⟩
 · intro key hrefers
   cases hrefers with
   | inl hmem=>
    rw [htype] at hmem
    exact hextends.covers key hmem (hdeclared key hmem)
   | inr hmem=>
    have ⟨other,definition,hother,hmem⟩:=hmem
    have ⟨_,_,_,hclosed⟩:=hdefinition other definition hother
    exact hclosed key hmem

/-- The schema of an exported function is closed and typed if and only if every type that is reached
from its parameters is one that the module itself declares under the name it is written by. -/
theorem closedAndTyped_iff (annDesc:Descriptions) (mod:Section) (name description:String)
  (givens:List (OptionallyTypedName Resolved))
  (hspelled:∀ n args, Reached (collectDeclares mod) givens (.tyApp n args) →
   ∀ text ∈ builtinName n.getUnique, resolvedToText n=text) :
  (∃ fuel schema, generateJsonSchema annDesc (collectDeclares mod) fuel
    (buildExportedFunction annDesc mod name description givens)=some schema ∧
   ClosedAndTyped (collectDeclares mod) givens schema) ↔
  ∀ ty, Reached (collectDeclares mod) givens ty → OwnType (collectDeclares mod) ty := by
 constructor
 · intro ⟨fuel,schema,hgenerated,hclosed⟩ ty hreached
   have ⟨props,htype,hparams⟩:=generateJsonSchema_params hgenerated
   have ⟨hshapes,hextends⟩:=addParams_spec traversed_true (fun _ _ _ _=>trivial)
    (collected_empty _ _) (fun _ hfalse=>hfalse.elim) hparams
   have ⟨props', d,htype', hdescribed⟩:=hclosed.params
   rw [htype,SchemaType.sObject.injEq] at htype'
   rw [←htype'.1] at hdescribed
   have hstep:∀ ty inner, Reached (collectDeclares mod) givens ty → Shape ty inner →
     Describes (collectDeclares mod) ty inner →
     (∀ name ∈ refs inner, (schema.schemaDefs name).isSome) →
     OwnType (collectDeclares mod) ty ∧
      ∀ n args, ty = .tyApp n args → (schema.schemaDefs (resolvedToText n)).isSome := by
    intro ty inner hreached hshape hdescribes hdefined
    have ⟨n,args,heq⟩:=tyApp_of_describes hdescribes
    subst heq
    have ⟨hown,hmem⟩:=ownType_of_describes (hspelled n args hreached) hshape hdescribes
    refine ⟨hown,fun m args' heq=>?_⟩
    cases heq
    exact hdefined _ hmem
   suffices hboth : OwnType (collectDeclares mod) ty ∧
     ∀ n args, ty = .tyApp n args → (schema.schemaDefs (resolvedToText n)).isSome from hboth.1
   induction hreached with
   | @param given ty hmem hty=>
    have ⟨inner,hshape,hdescribes,hrefs⟩:=param_common _ hshapes hdescribed hmem hty
    apply hstep ty inner (.param hmem hty) hshape hdescribes
    exact fun name hname=>hclosed.closed name (.inl (htype ▸ hrefs hname))
   | @field n args decl ty hreached hdecl hmem ih=>
    have ⟨definition,hdefinition⟩:=Option.isSome_iff_exists.mp (ih.2 n args rfl)
    have ⟨own,hown,hdescribed⟩:=hclosed.definitions _ definition hdefinition
    have ⟨made,hmade,hgenerated,_⟩:=
     hextends.collected.made _ definition hdefinition fun hfalse=>hfalse
    rw [hdecl,Option.some.injEq] at hown hmade
    subst hown hmade
    have ⟨inner,hshape,hdescribes,hrefs⟩:=schemaOf_common hgenerated hdescribed hmem
    apply hstep ty inner (.field hreached hdecl hmem) hshape hdescribes
    exact fun name hname=>hclosed.closed name (.inr ⟨_,definition,hdefinition,hrefs hname⟩)
 · intro hown
   have ⟨fuel,schema,hgenerated⟩:=generateJsonSchema_terminates annDesc (collectDeclares mod)
    (buildExportedFunction annDesc mod name description givens)
   exact ⟨fuel,schema,hgenerated,closedAndTyped_of_ownTypes hown hgenerated⟩

end Conditions

/-! ## Some functions -/

def named (i:ℤ) (text:String) : Resolved := .def_ ⟨'d', i,"walls"⟩ ⟨.normalName text⟩

def declared (head:Resolved) (decl:TypeDecl Resolved) : Declare Resolved :=
 ⟨⟨[],none⟩,⟨head,[],none⟩,decl⟩

def colour : Resolved := named 1 "Colour"
def wall : Resolved := named 2 "Wall"

def colourDecl : Declare Resolved :=
 declared colour (.enumDecl [⟨named 3 "red",[]⟩,⟨named 4 "white",[]⟩])

def wallDecl : Declare Resolved :=
 declared wall (.enumDecl [⟨named 5 "free",[⟨named 6 "paint",.tyApp colour [],none⟩]⟩,
  ⟨named 7 "shared",[⟨named 8 "beside",.tyApp wall [],none⟩]⟩])

def walls : Section := .mkSection [.declare colourDecl,.section_ (.mkSection [.declare wallDecl])]

def givenWall : OptionallyTypedName Resolved := ⟨named 9 "w",some (.tyApp wall [])⟩

theorem reached_walls {ty:Type' Resolved} (h:Reached (collectDeclares walls) [givenWall] ty) :
  ty = .tyApp wall [] ∨ ty = .tyApp colour [] := by
 induction h with
 | param hmem hty=>
  rw [List.mem_singleton.mp hmem] at hty
  cases hty
  exact .inl rfl
 | @field n args decl ty hreached hdecl hmem ih=>
  cases ih with
  | inl heq=>
   cases heq
   have hwall:wallDecl=decl:=Option.some.inj hdecl
   subst hwall
   have hfields:ty ∈ [.tyApp colour [],.tyApp wall []]:=hmem
   cases List.mem_cons.mp hfields with
   | inl heq=>exact .inr heq
   | inr hin=>exact .inl (List.mem_singleton.mp hin)
  | inr heq=>
   cases heq
   have hcolour:colourDecl=decl:=Option.some.inj hdecl
   subst hcolour
   cases hmem

theorem closedAndTyped_walls : ∃ fuel schema,
  generateJsonSchema (fun _=>none) (collectDeclares walls) fuel
    (buildExportedFunction (fun _=>none) walls "paint" "" [givenWall])=some schema ∧
   ClosedAndTyped (collectDeclares walls) [givenWall] schema := by
 apply (closedAndTyped_iff _ walls _ _ _ _).mpr
 · intro ty hreached
   cases reached_walls hreached with
   | inl heq=>
    exact ⟨wall,[],wallDecl,heq,by decide,known_eq_none (by decide) [],rfl,rfl⟩
   | inr heq=>
    exact ⟨colour,[],colourDecl,heq,by decide,known_eq_none (by decide) [],rfl,rfl⟩
 · intro n args hreached text htext
   cases reached_walls hreached with
   | inl heq=>
    cases heq
    cases htext
   | inr heq=>
    cases heq
    cases htext

def number : Resolved := .ref (preDef "NUMBER") numberUnique (preDef "NUMBER")

def givenNumber : OptionallyTypedName Resolved := ⟨named 1 "n",some (.tyApp number [])⟩

/-- The schema of a number is a reference to a definition that is not there. -/
theorem number_dangles :
  (∃ schema, generateJsonSchema (fun _=>none) [] 1
    (buildExportedFunction (fun _=>none) (.mkSection []) "cubed" "" [givenNumber]) =
     some schema ∧
   schema.schemaType = .sObject [("n",.sRef "NUMBER" none,true)] none ∧
    schema.schemaDefs "NUMBER" = none) ∧
  ¬∃ fuel schema, generateJsonSchema (fun _=>none) [] fuel
    (buildExportedFunction (fun _=>none) (.mkSection []) "cubed" "" [givenNumber]) =
     some schema ∧
   ClosedAndTyped [] [givenNumber] schema := by
 refine ⟨⟨_,rfl,rfl,rfl⟩,fun ⟨fuel,schema,hgenerated,hclosed⟩=>?_⟩
 have ⟨props,htype,hparams⟩:=generateJsonSchema_params hgenerated
 have ⟨hshapes,_⟩:=addParams_spec traversed_true (fun _ _ _ _=>trivial)
  (collected_empty _ _) (fun _ hfalse=>hfalse.elim) hparams
 have ⟨props', d,htype', hdescribed⟩:=hclosed.params
 rw [htype,SchemaType.sObject.injEq] at htype'
 rw [←htype'.1] at hdescribed
 have ⟨inner,hshape,hdescribes,_⟩:=
  param_common _ hshapes hdescribed List.mem_cons_self rfl
 have ⟨d', hinner⟩:=hshape.eq_sRef (known_eq_none (by decide) [])
 subst hinner
 cases hdescribes with
 | declared hnot=>exact hnot (by decide)

end L4Ide.JsonSchemasClosed
