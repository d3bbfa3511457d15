import Mathlib.Data.Finset.Sort
import Mathlib.Data.String.Basic
import L4Ide.Syntax

set_option autoImplicit false

/-!
# Import resolution

The modules that a module imports are looked up, parsed and checked one after the other, each
after its own imports and in an environment put together from their results. What was resolved
for one import is kept for the next.
-/
namespace L4Ide.ImportResolution
open Syntax (RawName Unique)

abbrev NormalizedUri := String

structure Name (A:Type) where
 anno : A
 rawName : RawName
 deriving DecidableEq

structure Import (A:Type) where
 name : Name A
 uri : Option NormalizedUri

structure Module (A B:Type) where
 imports : List (Import A)
 body : B

def rawNameToText : RawName → String
 | .normalName n=>n
 | .preDef n=>n
 | .qualifiedName q qs n=>String.intercalate "." (q::qs ++ [n])

def extractImportNames {A B:Type} (parsed:Module A B) : List String :=
 parsed.imports.map fun i=>rawNameToText i.name.rawName

structure MixfixRegistry (S:Type) where
 byCanonicalName : RawName → List S
 byFirstKeyword : RawName → List RawName
 keywordUniverse : RawName → Bool

structure CheckInfo (A E:Type) where
 names : List (Unique × Name A)
 checkEntity : E

structure CheckEnv (A E S:Type) where
 moduleUri : NormalizedUri
 environment : RawName → List Unique
 entityInfo : Unique → Option (Name A × E)
 mixfixRegistry : MixfixRegistry S

structure Outcome (A E S R:Type) where
 report : R
 topEnv : List (CheckInfo A E)
 localMixfixRegistry : MixfixRegistry S

structure CheckResult (A E S R:Type) where
 report : R
 environment : RawName → List Unique
 entityInfo : Unique → Option (Name A × E)
 mixfixRegistry : MixfixRegistry S

structure Frontend (A E S R B:Type) where
 emptyAnno : A
 execProgramParser : NormalizedUri → String → Except (List String) (Module A B)
 initialEnvironment : RawName → List Unique
 initialEntityInfo : Unique → Option (Name A × E)
 checkProgram : CheckEnv A E S → Module A B → Outcome A E S R
 /-- An entity with the substitution of a check applied to it. -/
 applyFinalSubstitution : R → NormalizedUri → Name A × E → Name A × E

def listUnion {X:Type} [DecidableEq X] (xs ys:List X) : List X :=
 xs ++ ys.eraseDups.filter fun y=>y ∉ xs

section Environments
variable {A E S R B:Type} [DecidableEq S]

def unionMixfixRegistry (r1 r2:MixfixRegistry S) : MixfixRegistry S where
 byCanonicalName n := listUnion (r1.byCanonicalName n) (r2.byCanonicalName n)
 byFirstKeyword n := listUnion (r1.byFirstKeyword n) (r2.byFirstKeyword n)
 keywordUniverse n := r1.keywordUniverse n || r2.keywordUniverse n

def unionImportedCheckEnv (accEnv:CheckEnv A E S) (depEnvironment:RawName → List Unique)
  (depEntityInfo:Unique → Option (Name A × E)) (depMixfixRegistry:MixfixRegistry S) :
  CheckEnv A E S where
 moduleUri:=accEnv.moduleUri
 environment n := listUnion (accEnv.environment n) (depEnvironment n)
 entityInfo u := (accEnv.entityInfo u).or (depEntityInfo u)
 mixfixRegistry:=unionMixfixRegistry accEnv.mixfixRegistry depMixfixRegistry

def goResolved (ce:E) (e:CheckEnv A E S) (a:Unique × Name A) : CheckEnv A E S :=
 { e with
   environment:=Function.update e.environment a.2.rawName
    (a.1::e.environment a.2.rawName)
   entityInfo:=Function.update e.entityInfo a.1 (some (a.2,ce)) }

def extendEnv (cis:List (CheckInfo A E)) (env:CheckEnv A E S) : CheckEnv A E S :=
 cis.foldl (fun e ci=>ci.names.foldl (goResolved ci.checkEntity) e) env

def emptyMixfixRegistry : MixfixRegistry S := ⟨fun _=>[],fun _=>[],fun _=>false⟩

variable (fe:Frontend A E S R B)

def initialCheckEnv (moduleUri:NormalizedUri) : CheckEnv A E S :=
 ⟨moduleUri,fe.initialEnvironment,fe.initialEntityInfo,emptyMixfixRegistry⟩

def doCheckProgramWithDependencies (checkEnv:CheckEnv A E S) (program:Module A B) :
  CheckResult A E S R :=
 let outcome:=fe.checkProgram checkEnv program
 let env:=extendEnv outcome.topEnv checkEnv
 { report:=outcome.report
   environment:=env.environment
   entityInfo:=env.entityInfo
   mixfixRegistry:=unionMixfixRegistry outcome.localMixfixRegistry env.mixfixRegistry }

end Environments

structure ResolvedImport (A E S R B:Type) where
 riModuleName : String
 riUri : NormalizedUri
 riSource : String
 riParsed : Module A B
 riTypeChecked : CheckResult A E S R

inductive ImportResolutionError where
 | moduleNotFound (modName:String) (searched:List String)
 | parseError (modName:String) (messages:List String)
 | cyclicImport (modules:List String)
 deriving DecidableEq, Repr

def moduleNameToProjectUri (modName:String) : NormalizedUri := "project:/" ++ modName ++ ".l4"

section Resolve
variable {A E S R B:Type} [DecidableEq A] [DecidableEq S] (fe:Frontend A E S R B)

def combineOne (accEnv:CheckEnv A E S) (ri:ResolvedImport A E S R B) : CheckEnv A E S :=
 let r:=ri.riTypeChecked
 let resolvedEntityInfo:=fun u=>
  (r.entityInfo u).map (fe.applyFinalSubstitution r.report ri.riUri)
 unionImportedCheckEnv accEnv r.environment resolvedEntityInfo r.mixfixRegistry

def combineResolvedImports (uri:NormalizedUri) (imports:List (ResolvedImport A E S R B)) :
  CheckEnv A E S :=
 imports.foldl (combineOne fe) (initialCheckEnv fe uri)

def updateImport (imported:List (Name A × NormalizedUri)) (i:Import A) : Import A :=
 match imported.find? fun p=>p.1=i.name with
 | some p=>{ i with uri:=some p.2 }
 | none=>i

def updateModuleImports (imports:List (ResolvedImport A E S R B)) (parsed:Module A B) :
  Module A B :=
 let importMapping:=imports.map fun ri=>
  (Name.mk fe.emptyAnno (.normalName ri.riModuleName),ri.riUri)
 { parsed with imports:=parsed.imports.map (updateImport importMapping) }

def deduplicateResolved :
  List String → List (ResolvedImport A E S R B) → List (ResolvedImport A E S R B)
 | _, []=>[]
 | seen, ri::ris=>
  if ri.riModuleName ∈ seen then deduplicateResolved seen ris
  else ri::deduplicateResolved (ri.riModuleName::seen) ris

abbrev Resolved (A E S R B:Type) := String → Option (ResolvedImport A E S R B)

/-- Of several records with one name, a map keeps the last. -/
def fromList (ris:List (ResolvedImport A E S R B)) : Resolved A E S R B := fun modName=>
 ris.reverse.find? fun ri=>ri.riModuleName=modName

/-- What a resolution comes to. -/
abbrev Answer (A E S R B:Type) := Except ImportResolutionError (List (ResolvedImport A E S R B))

variable (lookupModule:String → Option String)

/-- One import after the other; `resolveTransitive` resolves the imports of a module. -/
def resolveEach
  (resolveTransitive:Finset String → Resolved A E S R B → List String → Option (Answer A E S R B))
  (inProgress:Finset String) : Resolved A E S R B → List String → Option (Answer A E S R B)
 | _, []=>some (.ok [])
 | resolved, modName::rest=>
  match resolved modName with
  | some cached=>(resolveEach resolveTransitive inProgress resolved rest).map
    fun restResult=>restResult.map fun ris=>cached::ris
  | none=>
   if modName ∈ inProgress then
    some (.error (.cyclicImport (inProgress.sort (· ≤ ·) ++ [modName])))
   else
    match lookupModule modName with
    | none=>
     some (.error (.moduleNotFound modName ["embedded libraries","project VFS"]))
    | some source=>
     let uri:=moduleNameToProjectUri modName
     match fe.execProgramParser uri source with
     | .error parseErrors=>some (.error (.parseError modName parseErrors))
     | .ok parsed=>do
      match ← resolveTransitive (insert modName inProgress) resolved
        (extractImportNames parsed) with
      | .error err=>return .error err
      | .ok transitiveResolved=>
       let depEnv:=combineResolvedImports fe uri transitiveResolved
       let updatedParsed:=updateModuleImports fe transitiveResolved parsed
       let tcResult:=doCheckProgramWithDependencies fe depEnv updatedParsed
       let thisResolved:=⟨modName,uri,source,parsed,tcResult⟩
       let newResolved:Resolved A E S R B:=Function.update
        (fun k=>(resolved k).or (fromList transitiveResolved k)) modName
        (some thisResolved)
       match ← resolveEach resolveTransitive inProgress newResolved rest with
       | .error err=>return .error err
       | .ok restResolved=>
        return .ok (deduplicateResolved []
         (thisResolved::(transitiveResolved ++ restResolved)))

def resolveImports : ℕ → Finset String → Resolved A E S R B → List String → Option (Answer A E S R B)
 | 0=>resolveEach fe lookupModule fun _ _ _=>none
 | fuel+1=>resolveEach fe lookupModule (resolveImports fuel)

/-- The resolution of the imports of a module that nothing else imported. -/
def resolveRoot (fuel:ℕ) (importNames:List String) : Option (Answer A E S R B) :=
 resolveImports fe lookupModule fuel ∅ (fun _=>none) importNames

end Resolve

end L4Ide.ImportResolution
