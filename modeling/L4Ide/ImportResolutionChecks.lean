import L4Ide.ImportResolution
import L4Ide.FuelledComputation
import Mathlib.Logic.Relation

set_option autoImplicit false

/-!
# What imported modules are checked to

A module is checked with the records of the modules it imports. The record it gets is a function of
the module and of those it reaches, and what it offers is what these declare.
-/
namespace L4Ide.ImportResolutionChecks
open Syntax (RawName Unique)
open ImportResolution FuelledComputation
open Relation (ReflTransGen TransGen)

variable {A E S R B:Type}

/-! ## Records without repetition -/

variable {ris:List (ResolvedImport A E S R B)} {r:ResolvedImport A E S R B} {m:String}

theorem mem_deduplicateResolved {seen:List String} (h:r ∈ deduplicateResolved seen ris) :
  r ∈ ris ∧ r.riModuleName ∉ seen := by
 induction ris generalizing seen with
 | nil=>exact absurd h List.not_mem_nil
 | cons ri ris ih=>
  rw [deduplicateResolved] at h
  split_ifs at h with hseen
  · exact ⟨List.mem_cons_of_mem ri (ih h).1,(ih h).2⟩
  · rcases List.mem_cons.1 h with rfl | h
    · exact ⟨List.mem_cons_self,hseen⟩
    · exact ⟨List.mem_cons_of_mem ri (ih h).1,fun hc=>(ih h).2 (List.mem_cons_of_mem _ hc)⟩

theorem exists_mem_deduplicateResolved {seen:List String}
  (h:r ∈ ris) (hseen:r.riModuleName ∉ seen) :
  ∃ r' ∈ deduplicateResolved seen ris, r'.riModuleName=r.riModuleName := by
 induction ris generalizing seen with
 | nil=>exact absurd h List.not_mem_nil
 | cons ri ris ih=>
  rw [deduplicateResolved]
  split_ifs with hri
  · rcases List.mem_cons.1 h with rfl | h
    · exact absurd hri hseen
    · exact ih h hseen
  · by_cases heq:r.riModuleName=ri.riModuleName
    · exact ⟨ri,List.mem_cons_self,heq.symm⟩
    · have hmem:=(List.mem_cons.1 h).resolve_left fun hc=>heq (by rw [hc])
      have hseen' : r.riModuleName ∉ ri.riModuleName::seen:=fun hc=>
       (List.mem_cons.1 hc).elim heq hseen
      obtain ⟨r', hr', hname⟩:=ih hmem hseen'
      exact ⟨r', List.mem_cons_of_mem ri hr', hname⟩

theorem nodup_deduplicateResolved (seen:List String) (ris:List (ResolvedImport A E S R B)) :
  ((deduplicateResolved seen ris).map ResolvedImport.riModuleName).Nodup := by
 induction ris generalizing seen with
 | nil=>exact List.nodup_nil
 | cons ri ris ih=>
  rw [deduplicateResolved]
  split_ifs with hri
  · exact ih seen
  · refine List.nodup_cons.2 ⟨fun hmem=>?_,ih _⟩
    obtain ⟨r,hr,heq⟩:=List.mem_map.1 hmem
    exact (mem_deduplicateResolved hr).2 (heq ▸ List.mem_cons_self)

/-! ## Records by name -/

theorem mem_fromList (h:fromList ris m=some r) : r ∈ ris ∧ r.riModuleName=m := by
 have hmem:=List.mem_of_find?_eq_some h
 exact ⟨List.mem_reverse.1 hmem,
  of_decide_eq_true (List.find?_some (p := fun r : ResolvedImport A E S R B=>
   decide (r.riModuleName=m)) h)⟩

theorem isSome_fromList (h:∃ r ∈ ris, r.riModuleName=m) : (fromList ris m).isSome=true := by
 obtain ⟨r,hr,hname⟩:=h
 exact List.find?_isSome.2 ⟨r,List.mem_reverse.2 hr,decide_eq_true hname⟩

def newResolved (resolved:Resolved A E S R B) (transitive:List (ResolvedImport A E S R B))
  (this:ResolvedImport A E S R B) : Resolved A E S R B :=
 Function.update (fun k=>(resolved k).or (fromList transitive k)) this.riModuleName (some this)

theorem isSome_newResolved {resolved:Resolved A E S R B}
  {transitive:List (ResolvedImport A E S R B)} {this:ResolvedImport A E S R B} :
  (newResolved resolved transitive this m).isSome=true ↔ m=this.riModuleName ∨
   (resolved m).isSome=true ∨ ∃ r ∈ transitive, r.riModuleName=m := by
 by_cases hm:m=this.riModuleName
 · subst hm
   simp [newResolved]
 · rw [newResolved,Function.update_of_ne hm,Option.isSome_or,Bool.or_eq_true_iff]
   simp only [hm,false_or]
   refine or_congr_right ⟨fun h=>?_,isSome_fromList⟩
   obtain ⟨r,hr⟩:=Option.isSome_iff_exists.1 h
   exact ⟨r,mem_fromList hr⟩

/-! ## The graph of modules -/

section Graph
variable (fe:Frontend A E S R B) (lookupModule:String → Option String)

def Parses (m source:String) (parsed:Module A B) : Prop :=
 lookupModule m=some source ∧
  fe.execProgramParser (moduleNameToProjectUri m) source = .ok parsed

def Imports (m m' : String) : Prop :=
 ∃ source parsed, Parses fe lookupModule m source parsed ∧ m' ∈ extractImportNames parsed

/-- An error names a module that is reached and cannot be resolved. -/
def Fails (names:List String) : ImportResolutionError → Prop
 | .moduleNotFound m _=>
  (∃ n ∈ names, ReflTransGen (Imports fe lookupModule) n m) ∧ lookupModule m=none
 | .parseError m messages=>(∃ n ∈ names, ReflTransGen (Imports fe lookupModule) n m) ∧
  ∃ source, lookupModule m=some source ∧
   fe.execProgramParser (moduleNameToProjectUri m) source = .error messages
 | .cyclicImport _=>∃ n ∈ names, ∃ m, ReflTransGen (Imports fe lookupModule) n m ∧
  TransGen (Imports fe lookupModule) m m

variable {fe lookupModule}

variable {m:String}

theorem Parses.unique {source source' : String} {parsed parsed' : Module A B}
  (h:Parses fe lookupModule m source parsed) (h' : Parses fe lookupModule m source' parsed') :
  source=source' ∧ parsed=parsed' := by
 obtain rfl:=Option.some.inj (h.1.symm.trans h'.1)
 exact ⟨rfl,Except.ok.inj (h.2.symm.trans h'.2)⟩

theorem Fails.of_imports {source:String} {parsed:Module A B} {rest:List String}
  (hparses:Parses fe lookupModule m source parsed) {err:ImportResolutionError}
  (h:Fails fe lookupModule (extractImportNames parsed) err) :
  Fails fe lookupModule (m::rest) err := by
 have hreach:∀ {m'}, (∃ n ∈ extractImportNames parsed,
   ReflTransGen (Imports fe lookupModule) n m') →
   ∃ n ∈ m::rest, ReflTransGen (Imports fe lookupModule) n m' := by
  rintro m' ⟨n,hn,hreach⟩
  exact ⟨m,List.mem_cons_self,.head ⟨source,parsed,hparses,hn⟩ hreach⟩
 cases err with
 | moduleNotFound m' searched=>exact ⟨hreach h.1,h.2⟩
 | parseError m' messages=>exact ⟨hreach h.1,h.2⟩
 | cyclicImport modules=>
  obtain ⟨n,hn,m', hn', hcycle⟩:=h
  obtain ⟨n,hn,hn'⟩:=hreach ⟨n,hn,hn'⟩
  exact ⟨n,hn,m', hn', hcycle⟩

theorem Fails.cons {rest:List String} {err:ImportResolutionError}
  (h:Fails fe lookupModule rest err) : Fails fe lookupModule (m::rest) err := by
 cases err with
 | moduleNotFound m' searched=>
  obtain ⟨⟨n,hn,hreach⟩,hnone⟩:=h
  exact ⟨⟨n,List.mem_cons_of_mem m hn,hreach⟩,hnone⟩
 | parseError m' messages=>
  obtain ⟨⟨n,hn,hreach⟩,hparse⟩:=h
  exact ⟨⟨n,List.mem_cons_of_mem m hn,hreach⟩,hparse⟩
 | cyclicImport modules=>
  obtain ⟨n,hn,hcycle⟩:=h
  exact ⟨n,List.mem_cons_of_mem m hn,hcycle⟩

end Graph

/-! ## Locations of imports -/

section Locations
variable [DecidableEq A] {fe:Frontend A E S R B}

theorem updateImport_eq {ris:List (ResolvedImport A E S R B)} {i:Import A}
  (hris:∀ r ∈ ris, r.riUri=moduleNameToProjectUri r.riModuleName)
  (hnamed:∃ r ∈ ris, r.riModuleName=rawNameToText i.name.rawName) :
  updateImport (ris.map fun ri=>(Name.mk fe.emptyAnno (.normalName ri.riModuleName),ri.riUri)) i =
   if i.name=⟨fe.emptyAnno,.normalName (rawNameToText i.name.rawName)⟩ then
    { i with uri:=some (moduleNameToProjectUri (rawNameToText i.name.rawName)) }
   else i := by
 rw [updateImport]
 cases hfind:(ris.map fun ri=>(Name.mk fe.emptyAnno (.normalName ri.riModuleName),
   ri.riUri)).find? fun p=>p.1=i.name with
 | none=>
  obtain ⟨r,hr,hname⟩:=hnamed
  have hne:=List.find?_eq_none.1 hfind _ (List.mem_map_of_mem hr)
  rw [hname] at hne
  rw [if_neg fun heq=>hne (decide_eq_true heq.symm)]
 | some p=>
  obtain ⟨r,hr,rfl⟩:=List.mem_map.1 (List.mem_of_find?_eq_some hfind)
  have heq:=of_decide_eq_true
   (List.find?_some (p := fun p : Name A × NormalizedUri=>p.1=i.name) hfind)
  have htext:rawNameToText i.name.rawName=r.riModuleName:=by
   rw [←heq]
   rfl
  rw [htext,if_pos heq.symm,hris r hr]

theorem updateModuleImports_eq {parsed:Module A B} {ris deps:List (ResolvedImport A E S R B)}
  (hris:∀ r ∈ ris, r.riUri=moduleNameToProjectUri r.riModuleName)
  (hdeps:∀ r ∈ deps, r.riUri=moduleNameToProjectUri r.riModuleName)
  (hnamed:∀ n ∈ extractImportNames parsed, ∃ r ∈ ris, r.riModuleName=n)
  (hnamed' : ∀ n ∈ extractImportNames parsed, ∃ r ∈ deps, r.riModuleName=n) :
  updateModuleImports fe ris parsed=updateModuleImports fe deps parsed := by
 have himports:∀ i ∈ parsed.imports,
   updateImport (ris.map fun ri=>(Name.mk fe.emptyAnno (.normalName ri.riModuleName),ri.riUri))
    i=updateImport (deps.map fun ri=>
     (Name.mk fe.emptyAnno (.normalName ri.riModuleName),ri.riUri)) i := by
  intro i hi
  have hn:rawNameToText i.name.rawName ∈ extractImportNames parsed:=List.mem_map_of_mem hi
  rw [updateImport_eq hris (hnamed _ hn),updateImport_eq hdeps (hnamed' _ hn)]
 rw [updateModuleImports,updateModuleImports,List.map_congr_left himports]

end Locations

/-! ## What an environment offers -/

inductive Fact (S:Type) where
 | candidate (n:RawName) (u:Unique)
 | entity (u:Unique)
 | canonicalName (n:RawName) (sig:S)
 | firstKeyword (n n' : RawName)
 | keyword (n:RawName)

def MixfixOffers (r:MixfixRegistry S) : Fact S → Prop
 | .canonicalName n sig=>sig ∈ r.byCanonicalName n
 | .firstKeyword n n' =>n' ∈ r.byFirstKeyword n
 | .keyword n=>r.keywordUniverse n=true
 | _=>False

def Offers (environment:RawName → List Unique) (entityInfo:Unique → Option (Name A × E))
  (mixfixRegistry:MixfixRegistry S) : Fact S → Prop
 | .candidate n u=>u ∈ environment n
 | .entity u=>(entityInfo u).isSome=true
 | f=>MixfixOffers mixfixRegistry f

def EnvOffers (env:CheckEnv A E S) : Fact S → Prop :=
 Offers env.environment env.entityInfo env.mixfixRegistry

def ResultOffers (r:CheckResult A E S R) : Fact S → Prop :=
 Offers r.environment r.entityInfo r.mixfixRegistry

def OutcomeDeclares (o:Outcome A E S R) : Fact S → Prop
 | .candidate n u=>∃ ci ∈ o.topEnv, ∃ a ∈ ci.names, a.1=u ∧ a.2.rawName=n
 | .entity u=>∃ ci ∈ o.topEnv, ∃ a ∈ ci.names, a.1=u
 | f=>MixfixOffers o.localMixfixRegistry f

theorem envOffers_goResolved (ce:E) (env:CheckEnv A E S) (a:Unique × Name A) (f:Fact S) :
  EnvOffers (goResolved ce env a) f ↔
   EnvOffers env f ∨ f = .candidate a.2.rawName a.1 ∨ f = .entity a.1 := by
 cases f with
 | candidate n u=>
  by_cases hn:n=a.2.rawName
  · subst hn
    simp [EnvOffers,Offers,goResolved,or_comm]
  · simp [EnvOffers,Offers,goResolved,hn]
 | entity u=>
  by_cases hu:u=a.1
  · subst hu
    simp [EnvOffers,Offers,goResolved]
  · simp [EnvOffers,Offers,goResolved,hu]
 | canonicalName n sig=>simp [EnvOffers,Offers,goResolved]
 | firstKeyword n n' =>simp [EnvOffers,Offers,goResolved]
 | keyword n=>simp [EnvOffers,Offers,goResolved]

theorem envOffers_extendEnv (cis:List (CheckInfo A E)) (env:CheckEnv A E S) (f:Fact S) :
  EnvOffers (extendEnv cis env) f ↔ EnvOffers env f ∨ ∃ ci ∈ cis, ∃ a ∈ ci.names,
   f = .candidate a.2.rawName a.1 ∨ f = .entity a.1 := by
 have hnames:∀ (names:List (Unique × Name A)) (ce:E) (env:CheckEnv A E S),
   EnvOffers (names.foldl (goResolved ce) env) f ↔ EnvOffers env f ∨ ∃ a ∈ names,
    f = .candidate a.2.rawName a.1 ∨ f = .entity a.1 := by
  intro names ce
  induction names with
  | nil=>intro env; simp
  | cons a names ih=>intro env; simp [ih,envOffers_goResolved,or_assoc]
 rw [extendEnv]
 induction cis generalizing env with
 | nil=>simp
 | cons ci cis ih=>simp [ih,hnames,or_assoc]

theorem mixfixRegistry_extendEnv (cis:List (CheckInfo A E)) (env:CheckEnv A E S) :
  (extendEnv cis env).mixfixRegistry=env.mixfixRegistry := by
 have hnames:∀ (names:List (Unique × Name A)) (ce:E) (env:CheckEnv A E S),
   (names.foldl (goResolved ce) env).mixfixRegistry=env.mixfixRegistry := by
  intro names ce
  induction names with
  | nil=>exact fun _=>rfl
  | cons a names ih=>exact fun env=>ih (goResolved ce env a)
 rw [extendEnv]
 induction cis generalizing env with
 | nil=>rfl
 | cons ci cis ih=>exact (ih _).trans (hnames ci.names ci.checkEntity env)

theorem mem_listUnion {X:Type} [DecidableEq X] {xs ys:List X} {x:X} :
  x ∈ listUnion xs ys ↔ x ∈ xs ∨ x ∈ ys := by
 simp only [listUnion,List.mem_append,List.mem_filter,List.mem_eraseDups,decide_eq_true_eq]
 tauto

theorem listUnion_of_subset {X:Type} [DecidableEq X] {xs ys:List X} (h:∀ y ∈ ys, y ∈ xs) :
  listUnion xs ys=xs := by
 have hnil:ys.eraseDups.filter (fun y=>y ∉ xs)=[]:=
  List.filter_eq_nil_iff.2 fun y hy=>by
   simp [h y (List.mem_eraseDups.1 hy)]
 rw [listUnion,hnil,List.append_nil]

variable [DecidableEq S] {fe:Frontend A E S R B}

theorem mixfixOffers_union (r1 r2:MixfixRegistry S) (f:Fact S) :
  MixfixOffers (unionMixfixRegistry r1 r2) f ↔ MixfixOffers r1 f ∨ MixfixOffers r2 f := by
 cases f with
 | candidate n u=>exact (or_self_iff).symm
 | entity u=>exact (or_self_iff).symm
 | canonicalName n sig=>exact mem_listUnion
 | firstKeyword n n' =>exact mem_listUnion
 | keyword n=>exact Bool.or_eq_true_iff

theorem envOffers_combineOne (env:CheckEnv A E S) (ri:ResolvedImport A E S R B) (f:Fact S) :
  EnvOffers (combineOne fe env ri) f ↔ EnvOffers env f ∨ ResultOffers ri.riTypeChecked f := by
 cases f with
 | candidate n u=>exact mem_listUnion
 | entity u=>
  simp [EnvOffers,ResultOffers,Offers,combineOne,unionImportedCheckEnv,Option.isSome_or]
 | canonicalName n sig=>
  exact mixfixOffers_union env.mixfixRegistry ri.riTypeChecked.mixfixRegistry (.canonicalName n sig)
 | firstKeyword n n' =>
  exact mixfixOffers_union env.mixfixRegistry ri.riTypeChecked.mixfixRegistry (.firstKeyword n n')
 | keyword n=>
  exact mixfixOffers_union env.mixfixRegistry ri.riTypeChecked.mixfixRegistry (.keyword n)

theorem unionMixfixRegistry_of_offers {r1 r2:MixfixRegistry S}
  (h:∀ f, MixfixOffers r2 f → MixfixOffers r1 f) : unionMixfixRegistry r1 r2=r1 := by
 have hcanonical:∀ n, listUnion (r1.byCanonicalName n) (r2.byCanonicalName n) =
   r1.byCanonicalName n := fun n=>
  listUnion_of_subset fun sig hsig=>h (.canonicalName n sig) hsig
 have hfirst:∀ n, listUnion (r1.byFirstKeyword n) (r2.byFirstKeyword n) =
   r1.byFirstKeyword n := fun n=>
  listUnion_of_subset fun n' hn' =>h (.firstKeyword n n') hn'
 have hkeyword:∀ n, (r1.keywordUniverse n || r2.keywordUniverse n)=r1.keywordUniverse n:=by
  intro n
  cases h2:r2.keywordUniverse n with
  | false=>exact Bool.or_false _
  | true=>rw [show r1.keywordUniverse n=true from h (.keyword n) h2,Bool.or_true]
 simp only [unionMixfixRegistry,hcanonical,hfirst,hkeyword]

theorem combineOne_of_offers {env:CheckEnv A E S} {ri:ResolvedImport A E S R B}
  (h:∀ f, ResultOffers ri.riTypeChecked f → EnvOffers env f) : combineOne fe env ri=env := by
 have henvironment:∀ n, listUnion (env.environment n) (ri.riTypeChecked.environment n) =
   env.environment n := fun n=>listUnion_of_subset fun u hu=>h (.candidate n u) hu
 have hentity:∀ u, (env.entityInfo u).or ((ri.riTypeChecked.entityInfo u).map
   (fe.applyFinalSubstitution ri.riTypeChecked.report ri.riUri))=env.entityInfo u := by
  intro u
  cases henv:env.entityInfo u with
  | some info=>rfl
  | none=>
   cases hri:ri.riTypeChecked.entityInfo u with
   | none=>rfl
   | some info=>
    have hoffers:(env.entityInfo u).isSome=true:=
     h (.entity u) (by rw [ResultOffers,Offers,hri]; rfl)
    rw [henv] at hoffers
    exact absurd hoffers Bool.false_ne_true
 have hmixfix:unionMixfixRegistry env.mixfixRegistry ri.riTypeChecked.mixfixRegistry =
   env.mixfixRegistry := by
  refine unionMixfixRegistry_of_offers fun f hf=>?_
  cases f with
  | candidate n u=>exact hf
  | entity u=>exact hf.elim
  | canonicalName n sig=>exact h (.canonicalName n sig) hf
  | firstKeyword n n' =>exact h (.firstKeyword n n') hf
  | keyword n=>exact h (.keyword n) hf
 simp only [combineOne,unionImportedCheckEnv,henvironment,hentity,hmixfix]

theorem envOffers_foldl (env:CheckEnv A E S) (ris:List (ResolvedImport A E S R B)) (f:Fact S) :
  EnvOffers (ris.foldl (combineOne fe) env) f ↔
   EnvOffers env f ∨ ∃ ri ∈ ris, ResultOffers ri.riTypeChecked f := by
 induction ris generalizing env with
 | nil=>simp
 | cons ri ris ih=>simp [ih,envOffers_combineOne,or_assoc]

theorem foldl_of_offers {env:CheckEnv A E S}
  (h:∀ ri ∈ ris, ∀ f, ResultOffers ri.riTypeChecked f → EnvOffers env f) :
  ris.foldl (combineOne fe) env=env := by
 induction ris with
 | nil=>rfl
 | cons ri ris ih=>
  rw [List.foldl_cons,combineOne_of_offers (h ri List.mem_cons_self)]
  exact ih fun r hr=>h r (List.mem_cons_of_mem ri hr)

theorem resultOffers_doCheck (env:CheckEnv A E S) (program:Module A B) (f:Fact S) :
  ResultOffers (doCheckProgramWithDependencies fe env program) f ↔
   EnvOffers env f ∨ OutcomeDeclares (fe.checkProgram env program) f := by
 have hmixfix:∀ f, MixfixOffers (doCheckProgramWithDependencies fe env program).mixfixRegistry f ↔
   MixfixOffers env.mixfixRegistry f ∨
    MixfixOffers (fe.checkProgram env program).localMixfixRegistry f := by
  intro f
  rw [doCheckProgramWithDependencies,mixfixOffers_union,mixfixRegistry_extendEnv,or_comm]
 cases f with
 | candidate n u=>
  refine (envOffers_extendEnv _ env (.candidate n u)).trans (or_congr_right ?_)
  simp only [Fact.candidate.injEq,reduceCtorEq,or_false,OutcomeDeclares]
  exact ⟨fun ⟨ci,hci,a,ha,hn,hu⟩=>⟨ci,hci,a,ha,hu.symm,hn.symm⟩,
   fun ⟨ci,hci,a,ha,hu,hn⟩=>⟨ci,hci,a,ha,hn.symm,hu.symm⟩⟩
 | entity u=>
  refine (envOffers_extendEnv _ env (.entity u)).trans (or_congr_right ?_)
  simp only [Fact.entity.injEq,reduceCtorEq,false_or,OutcomeDeclares]
  exact ⟨fun ⟨ci,hci,a,ha,hu⟩=>⟨ci,hci,a,ha,hu.symm⟩,
   fun ⟨ci,hci,a,ha,hu⟩=>⟨ci,hci,a,ha,hu.symm⟩⟩
 | canonicalName n sig=>exact hmixfix (.canonicalName n sig)
 | firstKeyword n n' =>exact hmixfix (.firstKeyword n n')
 | keyword n=>exact hmixfix (.keyword n)

/-! ## What a module is checked to -/

section Checked
variable [DecidableEq A] (fe) (lookupModule:String → Option String)

/-- The record of a module whose imports have these records. -/
def record (m source:String) (parsed:Module A B) (deps:List (ResolvedImport A E S R B)) :
  ResolvedImport A E S R B :=
 let uri:=moduleNameToProjectUri m
 ⟨m,uri,source,parsed,doCheckProgramWithDependencies fe (combineResolvedImports fe uri deps)
  (updateModuleImports fe deps parsed)⟩

/-- A module is checked with the records of the modules it imports itself, in the order written. -/
inductive ChecksTo : String → ResolvedImport A E S R B → Prop
 | mk {m source:String} {parsed:Module A B} {deps:List (ResolvedImport A E S R B)} :
   Parses fe lookupModule m source parsed →
   (extractImportNames parsed).length=deps.length →
   (∀ p ∈ (extractImportNames parsed).zip deps, ChecksTo p.1 p.2) →
   ChecksTo m (record fe m source parsed deps)

/-- What the modules themselves declare, each checked after its imports. -/
def Declares (m:String) (f:Fact S) : Prop :=
 ∃ source parsed deps, Parses fe lookupModule m source parsed ∧
  List.Forall₂ (ChecksTo fe lookupModule) (extractImportNames parsed) deps ∧
  OutcomeDeclares (fe.checkProgram (combineResolvedImports fe (moduleNameToProjectUri m) deps)
   (updateModuleImports fe deps parsed)) f

variable {fe lookupModule}

variable {m:String} {r:ResolvedImport A E S R B}

theorem checksTo_iff :
  ChecksTo fe lookupModule m r ↔ ∃ source parsed deps, Parses fe lookupModule m source parsed ∧
   List.Forall₂ (ChecksTo fe lookupModule) (extractImportNames parsed) deps ∧
   r=record fe m source parsed deps := by
 constructor
 · intro h
   cases h with
   | mk hparses hlen hdeps=>
    exact ⟨_,_,_,hparses,List.forall₂_iff_zip.2 ⟨hlen,fun h=>hdeps _ h⟩,rfl⟩
 · rintro ⟨source,parsed,deps,hparses,hdeps,rfl⟩
   obtain ⟨hlen,hzip⟩:=List.forall₂_iff_zip.1 hdeps
   exact .mk hparses hlen fun p hp=>hzip hp

theorem ChecksTo.name (h:ChecksTo fe lookupModule m r) :
  r.riModuleName=m ∧ r.riUri=moduleNameToProjectUri m := by
 cases h with
 | mk _ _ _=>exact ⟨rfl,rfl⟩

theorem ChecksTo.rec_imports {P:String → ResolvedImport A E S R B → Prop}
  (step:∀ m source parsed deps, Parses fe lookupModule m source parsed →
   List.Forall₂ (ChecksTo fe lookupModule) (extractImportNames parsed) deps →
   List.Forall₂ P (extractImportNames parsed) deps → P m (record fe m source parsed deps))
  (h:ChecksTo fe lookupModule m r) : P m r := by
 induction h with
 | mk hparses hlen hdeps ih=>
  exact step _ _ _ _ hparses (List.forall₂_iff_zip.2 ⟨hlen,fun h=>hdeps _ h⟩)
   (List.forall₂_iff_zip.2 ⟨hlen,fun h=>ih _ h⟩)

theorem ChecksTo.unique {r' : ResolvedImport A E S R B}
  (h:ChecksTo fe lookupModule m r) (h' : ChecksTo fe lookupModule m r') : r=r' := by
 revert r'
 refine ChecksTo.rec_imports (P := fun m r=>∀ {r'}, ChecksTo fe lookupModule m r' → r=r')
  (fun m source parsed deps hparses _ ih r' h' =>?_) h
 obtain ⟨source', parsed', deps', hparses', hdeps', rfl⟩:=checksTo_iff.1 h'
 obtain ⟨rfl,rfl⟩:=hparses.unique hparses'
 rw [forall₂_unique ih hdeps' fun _ _ _ hd hd' =>hd hd']

theorem ChecksTo.acc
  (h:ChecksTo fe lookupModule m r) : Acc (fun x y=>Imports fe lookupModule y x) m := by
 refine ChecksTo.rec_imports (P := fun m _=>Acc (fun x y=>Imports fe lookupModule y x) m)
  (fun m source parsed deps hparses _ ih=>⟨_,fun x hx=>?_⟩) h
 obtain ⟨source', parsed', hparses', hmem⟩:=hx
 obtain ⟨rfl,rfl⟩:=hparses.unique hparses'
 obtain ⟨d,_,hacc⟩:=forall₂_mem_left ih hmem
 exact hacc

theorem ChecksTo.acyclic
  (h:ChecksTo fe lookupModule m r) : ¬TransGen (Imports fe lookupModule) m m := by
 have hacc:=h.acc.transGen
 induction hacc with
 | intro m _ ih=>
  intro hcycle
  have hswap:TransGen (fun x y=>Imports fe lookupModule y x) m m:=
   Relation.transGen_swap.2 hcycle
  exact ih m hswap h hcycle

theorem declares_iff {source:String} {parsed:Module A B}
  {deps:List (ResolvedImport A E S R B)} (hparses:Parses fe lookupModule m source parsed)
  (hdeps:List.Forall₂ (ChecksTo fe lookupModule) (extractImportNames parsed) deps) (f:Fact S) :
  Declares fe lookupModule m f ↔ OutcomeDeclares
   (fe.checkProgram (combineResolvedImports fe (moduleNameToProjectUri m) deps)
    (updateModuleImports fe deps parsed)) f := by
 constructor
 · rintro ⟨source', parsed', deps', hparses', hdeps', hdeclares⟩
   obtain ⟨rfl,rfl⟩:=hparses.unique hparses'
   obtain rfl:=forall₂_unique hdeps hdeps' fun _ _ _ h h' =>h.unique h'
   exact hdeclares
 · exact fun hdeclares=>⟨source,parsed,deps,hparses,hdeps,hdeclares⟩

/-- What a checked module offers comes from where every check begins, or is declared by the module
or one it reaches. -/
theorem ChecksTo.offers (h:ChecksTo fe lookupModule m r) (f:Fact S) :
  ResultOffers r.riTypeChecked f ↔ EnvOffers (initialCheckEnv fe m) f ∨
   ∃ m', ReflTransGen (Imports fe lookupModule) m m' ∧ Declares fe lookupModule m' f := by
 refine ChecksTo.rec_imports (P := fun m r=>ResultOffers r.riTypeChecked f ↔
  EnvOffers (initialCheckEnv fe m) f ∨ ∃ m', ReflTransGen (Imports fe lookupModule) m m' ∧
   Declares fe lookupModule m' f) (fun m source parsed deps hparses hdeps ih=>?_) h
 rw [record,resultOffers_doCheck,combineResolvedImports,envOffers_foldl]
 constructor
 · rintro ((hinit | ⟨d,hd,hoffers⟩) | hdeclares)
   · exact Or.inl hinit
   · obtain ⟨n,hn,hiff⟩:=forall₂_mem_right ih hd
     rcases hiff.1 hoffers with hinit | ⟨m', hreach,hdeclares⟩
     · exact Or.inl hinit
     · exact Or.inr ⟨m', .head ⟨source,parsed,hparses,hn⟩ hreach,hdeclares⟩
   · exact Or.inr ⟨m,.refl,(declares_iff hparses hdeps f).2 hdeclares⟩
 · rintro (hinit | ⟨m', hreach,hdeclares⟩)
   · exact Or.inl (Or.inl hinit)
   · rcases Relation.ReflTransGen.cases_head hreach with rfl | ⟨n,himp,hreach⟩
     · exact Or.inr ((declares_iff hparses hdeps f).1 hdeclares)
     · obtain ⟨source', parsed', hparses', hn⟩:=himp
       obtain ⟨rfl,rfl⟩:=hparses.unique hparses'
       obtain ⟨d,hd,hiff⟩:=forall₂_mem_left ih hn
       exact Or.inl (Or.inr ⟨d,hd,hiff.2 (Or.inr ⟨m', hreach,hdeclares⟩)⟩)

/-- The environment a module is checked in offers what the modules it imports, directly or not,
declare. -/
theorem env_offers {source:String} {parsed:Module A B}
  {deps:List (ResolvedImport A E S R B)} (hparses:Parses fe lookupModule m source parsed)
  (hdeps:List.Forall₂ (ChecksTo fe lookupModule) (extractImportNames parsed) deps)
  (uri:NormalizedUri) (f:Fact S) :
  EnvOffers (combineResolvedImports fe uri deps) f ↔ EnvOffers (initialCheckEnv fe uri) f ∨
   ∃ m', TransGen (Imports fe lookupModule) m m' ∧ Declares fe lookupModule m' f := by
 rw [combineResolvedImports,envOffers_foldl]
 constructor
 · rintro (hinit | ⟨d,hd,hoffers⟩)
   · exact Or.inl hinit
   · obtain ⟨n,hn,hchecks⟩:=forall₂_mem_right hdeps hd
     rcases (hchecks.offers f).1 hoffers with hinit | ⟨m', hreach,hdeclares⟩
     · exact Or.inl hinit
     · exact Or.inr ⟨m', TransGen.head' ⟨source,parsed,hparses,hn⟩ hreach,hdeclares⟩
 · rintro (hinit | ⟨m', hreach,hdeclares⟩)
   · exact Or.inl hinit
   · obtain ⟨n,himp,hreach⟩:=TransGen.head'_iff.1 hreach
     obtain ⟨source', parsed', hparses', hn⟩:=himp
     obtain ⟨rfl,rfl⟩:=hparses.unique hparses'
     obtain ⟨d,hd,hchecks⟩:=forall₂_mem_left hdeps hn
     exact Or.inr ⟨d,hd,(hchecks.offers f).2 (Or.inr ⟨m', hreach,hdeclares⟩)⟩

theorem foldl_deduplicateResolved {seen:List String} {ris:List (ResolvedImport A E S R B)}
  {env:CheckEnv A E S} (hris:∀ r ∈ ris, ChecksTo fe lookupModule r.riModuleName r)
  (hseen:∀ r ∈ ris, r.riModuleName ∈ seen → ∀ f, ResultOffers r.riTypeChecked f →
   EnvOffers env f) :
  (deduplicateResolved seen ris).foldl (combineOne fe) env=ris.foldl (combineOne fe) env := by
 induction ris generalizing seen env with
 | nil=>rfl
 | cons ri ris ih=>
  have hris' : ∀ r ∈ ris, ChecksTo fe lookupModule r.riModuleName r:=
   fun r hr=>hris r (List.mem_cons_of_mem ri hr)
  rw [deduplicateResolved]
  split_ifs with hri
  · rw [List.foldl_cons,combineOne_of_offers (hseen ri List.mem_cons_self hri)]
    exact ih hris' fun r hr=>hseen r (List.mem_cons_of_mem ri hr)
  · rw [List.foldl_cons,List.foldl_cons]
    refine ih hris' fun r hr hmem f hoffers=>(envOffers_combineOne env ri f).2 ?_
    rcases List.mem_cons.1 hmem with heq | hmem
    · have hri' :=hris ri List.mem_cons_self
      rw [←heq] at hri'
      rw [hri'.unique (hris' r hr)]
      exact Or.inr hoffers
    · exact Or.inl (hseen r (List.mem_cons_of_mem ri hr) hmem f hoffers)

end Checked

end L4Ide.ImportResolutionChecks
