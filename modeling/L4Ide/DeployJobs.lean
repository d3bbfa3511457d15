import L4Ide.AdmissibleRuns
import L4Ide.BundleStore
import L4Ide.Compatibility
import L4Ide.DeploymentVersions
import L4Ide.InterleavedComponents

set_option autoImplicit false

/-!
# Deploy jobs

The control plane of the service: deployments are created, updated, deleted and loaded by jobs
that run beside each other. What is shared about a deployment id is its entry in the registry
and its directories in the store. A step is what one job does between two points where another
can come in between.
-/
namespace L4Ide.DeployJobs
open BundleStore FunctionSchema Compatibility InterleavedComponents

abbrev DeploymentId := Text

/-- The part of a compiled function that the gate looks at. -/
structure Function where
 name : Text
 parameters : Parameters
 returnType : Text
 returnSchema : Option Parameter
 params_ordered : parameters.Ordered
 return_ordered : ∀ p, returnSchema=some p → p.Ordered

structure FunctionSummary where
 fsName : Text
 fsParameters : Parameters
 fsReturnType : Text
 fsReturnSchema : Option Parameter
 params_ordered : fsParameters.Ordered
 return_ordered : ∀ p, fsReturnSchema=some p → p.Ordered

def ifaceFromFunction (f:Function) : FnIface :=
 ⟨f.name,f.parameters,f.returnType,f.returnSchema,f.params_ordered,f.return_ordered⟩

def ifaceFromSummary (s:FunctionSummary) : FnIface :=
 ⟨s.fsName,s.fsParameters,s.fsReturnType,s.fsReturnSchema,s.params_ordered,
  s.return_ordered⟩

structure DeploymentMetadata where
 metaFunctions : List FunctionSummary
 metaVersion : Text
 metaDescription : Option Text
 metaServiceVersion : Text
 metaDeploymentVersion : Text

inductive DeploymentState
 | pending (cached:Option DeploymentMetadata)
 | compiling
 | ready (fns:List Function) (metadata:DeploymentMetadata)
 | failed (err:Text)

abbrev SourceFiles := FilePath → Option Text

def putFile (files:SourceFiles) (e:FilePath × Text) : SourceFiles :=
 fun p=>if p=e.1 then some e.2 else files p

def filesOf (entries:List (FilePath × Text)) : SourceFiles :=
 entries.foldl putFile fun _=>none

/-- The directory of a deployment: its `sources` and its `metadata.json`, where they are. -/
structure Directory where
 sources : Option SourceFiles
 metadata : Option StoredMetadata

def Directory.withMetadata (stored:StoredMetadata) (dir:Directory) : Directory :=
 { dir with metadata:=some stored }

def emptyDirectory : Directory := ⟨none,none⟩

/-- The directory after its sources were written to; both are created where they are missing. -/
def withSources (f:SourceFiles → SourceFiles) (target:Option Directory) : Option Directory :=
 let dir:=target.getD emptyDirectory
 some { dir with sources:=some (f (dir.sources.getD fun _=>none)) }

def isL4 (path:FilePath) : Bool :=
 takeExtension ((path.splitOn '/').getLastD []) = ".l4".toList

def l4Files (sources:Option SourceFiles) : SourceFiles :=
 fun p=>if isL4 p then sources.bind fun files=>files p else none

inductive Removal
 | sources
 | metadata
 | directory
 deriving DecidableEq

/-- One step of `removeDirectoryRecursive`, and what remains to be done after it. -/
def removeEntry : Removal → Option Directory → Option (Option Directory × Option Removal)
 | .sources, some dir=>some (some { dir with sources:=none },some .metadata)
 | .metadata, some dir=>some (some { dir with metadata:=none },some .directory)
 | .directory, some ⟨none,none⟩=>some (none,none)
 | _, _=>none

/-- `renameDirectory`: what it moves onto may only be an empty directory. -/
def renameOnto : Option Directory → Option Directory → Option Directory
 | some dir, none=>some dir
 | some dir, some ⟨none,none⟩=>some dir
 | _, _=>none

inductive CompileResult
 | compiled (fns:List Function) (metadata:DeploymentMetadata)
 | refused (err:Text)
 | raised (err:Text)

/-- The compiler and the settings of a service. -/
structure Service where
 compile : DeploymentId → SourceFiles → CompileResult
 computeVersion : SourceFiles → Text
 serviceMajor : ℤ
 serviceVersion : Text
 maxDeployments : ℕ

/-- What a deploy job is given: the sources, the metadata to store and, for an update, the
    interfaces that it may not break. -/
structure Request where
 sources : List (FilePath × Text)
 stored : StoredMetadata
 gate : Option (List FnIface)

structure Result where
 fns : List Function
 metadata : DeploymentMetadata
 stored : StoredMetadata

inductive SaveStage
 | creating
 | writing (left:List (FilePath × Text))
 | metadata
 | swapping
 | removing (r:Removal)
 | moving
 | registering

inductive Task
 /-- A deploy job, before its compilation. -/
 | compiling (r:Request)
 /-- Compiled and let through by the gate; the version is computed next. -/
 | versioning (r:Request) (fns:List Function) (metadata:DeploymentMetadata)
 | saving (r:Request) (result:Result) (stage:SaveStage)
 /-- A lazy load. `origin` is the job that the loaded bundle is from. -/
 | loadingSources
 | loadingMetadata (sources:SourceFiles) (origin:Option ℕ)
 | loadCompiling (sources:SourceFiles) (stored:StoredMetadata) (origin:Option ℕ)
 | loadRegistering (fns:List Function) (metadata:DeploymentMetadata)
   (backfill:Option StoredMetadata) (origin:Option ℕ)
 | loadFailing (err:Text)
 | backfilling (stored:StoredMetadata)
 /-- A delete. -/
 | checkingStore
 | removing (r:Removal)
 | unregistering
 | ended

structure Job where
 since : ℕ
 task : Task

inductive Event
 | accepted (job:ℕ)
 /-- The stored bundle is now the job's. -/
 | saved (job:ℕ)
 /-- The deployment is made ready, from the bundle of the job `origin`. -/
 | ready (job:ℕ) (origin:Option ℕ)
 | applied (job:ℕ) (version:Text)
 | deleted
 deriving DecidableEq

/-- What there is of a deployment id; its jobs are numbered in the order of their acceptance. -/
structure Slot where
 entry : Option DeploymentState
 target : Option Directory
 temp : Option Directory
 jobs : List Job
 log : List Event

def Slot.empty : Slot := ⟨none,none,none,[],[]⟩

def stateDescription : DeploymentState → Option Text
 | .ready _ metadata=>metadata.metaDescription
 | .pending (some metadata)=>metadata.metaDescription
 | _=>none

def currentIfaces : DeploymentState → Option (List FnIface)
 | .ready fns _=>some (fns.map ifaceFromFunction)
 | .pending (some metadata)=>some (metadata.metaFunctions.map ifaceFromSummary)
 | _=>none

/-- An upload: its sources by ascending path, its description and its time. -/
structure Upload where
 sources : List (FilePath × Text)
 description : Option Text
 now : Text

def Slot.accept (task:Task) (s:Slot) : Slot :=
 { s with
   jobs:=s.jobs ++ [⟨s.log.length,task⟩]
   log:=s.log ++ [.accepted s.jobs.length] }

def storedMetadata (svc:Service) (upload:Upload) (description:Option Text) :
  StoredMetadata where
 smVersion:=svc.computeVersion (filesOf upload.sources)
 smCreatedAt:=upload.now
 smDescription:=description
 smServiceVersion:=none
 smDeploymentVersion:=none

/-- `POST`: without a gate, but for a new id only while there is room. -/
def postDeployment (svc:Service) (full:Bool) (upload:Upload) (s:Slot) : Slot :=
 let request:Request:=⟨upload.sources,storedMetadata svc upload upload.description,none⟩
 match s.entry with
 | some (.ready _ existing)=>
  if existing.metaVersion=svc.computeVersion (filesOf upload.sources) then s
  else s.accept (.compiling request)
 | some _=>s.accept (.compiling request)
 | none=>if full then s else s.accept (.compiling request)

/-- `PUT`: gated by the interface that is deployed now. -/
def putDeployment (svc:Service) (upload:Upload) (s:Slot) : Slot :=
 match s.entry with
 | none=>s
 | some state=>
  s.accept (.compiling ⟨upload.sources,
   storedMetadata svc upload (upload.description.or (stateDescription state)),
   some ((currentIfaces state).getD [])⟩)

def deleteDeployment (s:Slot) : Slot :=
 match s.entry with
 | none=>s
 | some _=>s.accept .checkingStore

/-- A request for a deployment that is pending makes it compile; of several the first does. -/
def triggerCompilationIfPending (s:Slot) : Slot :=
 match s.entry with
 | some (.pending _)=>{ s with entry:=some .compiling }.accept .loadingSources
 | _=>s

def Slot.setTask (n:ℕ) (task:Task) (s:Slot) : Slot :=
 { s with jobs:=s.jobs.modify n fun job=>{ job with task:=task } }

def Slot.note (events:List Event) (s:Slot) : Slot := { s with log:=s.log ++ events }

def breaking (gate:Option (List FnIface)) (fns:List Function) : List String :=
 match gate with
 | none=>[]
 | some old=>detectBreakingChanges old (fns.map ifaceFromFunction)

def prevMetadata : Option DeploymentState → Option DeploymentMetadata
 | some (.ready _ metadata)=>some metadata
 | some (.pending (some metadata))=>some metadata
 | _=>none

/-- The result of a deploy job, with the version after the one that the registry holds. -/
def deployResult (svc:Service) (entry:Option DeploymentState) (r:Request)
  (fns:List Function) (metadata:DeploymentMetadata) : Result :=
 let prev:=prevMetadata entry
 let isBreaking:=match prev with
  | none=>false
  | some pm=>!(detectBreakingChanges (pm.metaFunctions.map ifaceFromSummary)
    (fns.map ifaceFromFunction)).isEmpty
 let version:=DeploymentVersions.nextDeploymentVersion svc.serviceMajor
  (prev.map DeploymentMetadata.metaDeploymentVersion) isBreaking
 { fns:=fns
   metadata :=
    { metadata with
      metaDescription:=r.stored.smDescription
      metaServiceVersion:=svc.serviceVersion
      metaDeploymentVersion:=version }
   stored :=
    { r.stored with
      smServiceVersion:=some svc.serviceVersion
      smDeploymentVersion:=some version } }

/-- `saveBundle`, then the entry of the registry; a save that fails ends the job. -/
def saveStep (n:ℕ) (r:Request) (result:Result) (stage:SaveStage) (s:Slot) : Slot :=
 match stage with
 | .creating=>
  { s with temp:=withSources id s.temp }.setTask n (.saving r result (.writing r.sources))
 | .writing (e::left)=>
  { s with temp:=withSources (putFile · e) s.temp }.setTask n
    (.saving r result (.writing left))
 | .writing []=>s.setTask n (.saving r result .metadata)
 | .metadata=>
  match s.temp with
  | some dir=>
   { s with temp:=some (dir.withMetadata result.stored) }.setTask n
     (.saving r result .swapping)
  | none=>s.setTask n .ended
 | .swapping=>
  s.setTask n (.saving r result (if s.target.isSome then .removing .sources else .moving))
 | .removing removal=>
  match removeEntry removal s.target with
  | some (target,some next)=>
   { s with target:=target }.setTask n (.saving r result (.removing next))
  | some (target,none)=>{ s with target:=target }.setTask n (.saving r result .moving)
  | none=>s.setTask n .ended
 | .moving=>
  match renameOnto s.temp s.target with
  | some dir=>
   ({ s with target:=some dir,temp:=none }.note [.saved n]).setTask n
    (.saving r result .registering)
  | none=>s.setTask n .ended
 | .registering=>
  ({ s with entry:=some (.ready result.fns result.metadata) }.note
   [.ready n (some n),.applied n result.metadata.metaDeploymentVersion]).setTask n .ended

def lastSaved (log:List Event) : Option ℕ :=
 log.reverse.findSome? fun event=>
  match event with
  | .saved job=>some job
  | _=>none

/-- The version to go on with: versions from before there were versions start anew. -/
def depVersion (svc:Service) (stored:StoredMetadata) : Text :=
 let storedVersion:=stored.smDeploymentVersion.getD ""
 if storedVersion = "" then String.ofList (DeploymentVersions.showInt svc.serviceMajor ++ ".0.0".toList)
 else storedVersion

def svcVersion (svc:Service) (stored:StoredMetadata) : Text :=
 match stored.smServiceVersion with
 | some v=>if v = "" then svc.serviceVersion else v
 | none=>svc.serviceVersion

def loadedMetadata (svc:Service) (stored:StoredMetadata) (metadata:DeploymentMetadata) :
  DeploymentMetadata :=
 { metadata with
   metaDescription:=stored.smDescription
   metaServiceVersion:=svcVersion svc stored
   metaDeploymentVersion:=depVersion svc stored }

def backfilled (svc:Service) (stored:StoredMetadata) : Option StoredMetadata :=
 if stored.smDeploymentVersion.getD "" = "" then
  some
   { stored with
     smServiceVersion:=some (svcVersion svc stored)
     smDeploymentVersion:=some (depVersion svc stored) }
 else none

def taskStep (svc:Service) (d:DeploymentId) (n:ℕ) (task:Task) (s:Slot) : Slot :=
 match task with
 | .compiling r=>
  match svc.compile d (filesOf r.sources) with
  | .compiled fns metadata=>
   if breaking r.gate fns=[] then s.setTask n (.versioning r fns metadata)
   else s.setTask n .ended
  | .refused _=>s.setTask n .ended
  | .raised _=>s.setTask n .ended
 | .versioning r fns metadata=>
  s.setTask n (.saving r (deployResult svc s.entry r fns metadata) .creating)
 | .saving r result stage=>saveStep n r result stage s
 | .loadingSources=>
  s.setTask n (.loadingMetadata (l4Files (s.target.bind Directory.sources)) (lastSaved s.log))
 | .loadingMetadata sources origin=>
  match s.target.bind Directory.metadata with
  | some stored=>s.setTask n (.loadCompiling sources stored origin)
  | none=>s.setTask n (.loadFailing "Failed to decode metadata")
 | .loadCompiling sources stored origin=>
  match svc.compile d sources with
  | .compiled fns metadata=>
   s.setTask n (.loadRegistering fns (loadedMetadata svc stored metadata)
    (backfilled svc stored) origin)
  | .refused err=>s.setTask n (.loadFailing err)
  | .raised err=>s.setTask n (.loadFailing err)
 | .loadRegistering fns metadata backfill origin=>
  ({ s with entry:=some (.ready fns metadata) }.note [.ready n origin]).setTask n
   (match backfill with
    | some stored=>.backfilling stored
    | none=>.ended)
 | .loadFailing err=>{ s with entry:=some (.failed err) }.setTask n .ended
 | .backfilling stored=>
  { s with target:=s.target.map (Directory.withMetadata stored) }.setTask n .ended
 | .checkingStore=>
  s.setTask n (if s.target.isSome then .removing .sources else .unregistering)
 | .removing removal=>
  match removeEntry removal s.target with
  | some (target,some next)=>{ s with target:=target }.setTask n (.removing next)
  | some (target,none)=>{ s with target:=target }.setTask n .unregistering
  | none=>s.setTask n .ended
 | .unregistering=>({ s with entry:=none }.note [.deleted]).setTask n .ended
 | .ended=>s

/-- The next step of the job does not go through: a limit is hit or a file operation fails. -/
def taskFailure (n:ℕ) (task:Task) (s:Slot) : Slot :=
 match task with
 | .compiling _=>s.setTask n .ended
 | .saving _ _ .creating=>s.setTask n .ended
 | .saving _ _ (.writing _)=>s.setTask n .ended
 | .saving _ _ .metadata=>s.setTask n .ended
 | .saving _ _ (.removing _)=>s.setTask n .ended
 | .saving _ _ .moving=>s.setTask n .ended
 | .loadingSources=>s.setTask n (.loadFailing "load failed")
 | .loadingMetadata _ _=>s.setTask n (.loadFailing "load failed")
 | .loadCompiling _ _ _=>s.setTask n (.loadFailing "Compilation timed out or exceeded memory limit")
 | .backfilling _=>s.setTask n .ended
 | .removing _=>s.setTask n .ended
 | _=>s

inductive Action
 | post (upload:Upload)
 | put (upload:Upload)
 | delete
 | request
 | step (n:ℕ)
 | fail (n:ℕ)

def slotStep (svc:Service) (full:Bool) (d:DeploymentId) (action:Action) (s:Slot) : Slot :=
 match action with
 | .post upload=>postDeployment svc full upload s
 | .put upload=>putDeployment svc upload s
 | .delete=>deleteDeployment s
 | .request=>triggerCompilationIfPending s
 | .step n=>
  match s.jobs[n]? with
  | some job=>taskStep svc d n job.task s
  | none=>s
 | .fail n=>
  match s.jobs[n]? with
  | some job=>taskFailure n job.task s
  | none=>s

abbrev State := Family DeploymentId Slot Slot.empty

def Slot.registered (s:Slot) : Bool := s.entry.isSome

/-- How many deployments the registry holds. -/
def State.size (s:State) : ℕ := s.count Slot.registered

def step (svc:Service) (action:DeploymentId × Action) (s:State) : State :=
 s.put action.1
  (slotStep svc (decide (svc.maxDeployments ≤ s.size)) action.1 action.2 (s.get action.1))

end L4Ide.DeployJobs
