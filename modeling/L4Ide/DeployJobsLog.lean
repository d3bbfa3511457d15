import L4Ide.DeployJobs

set_option autoImplicit false

/-!
# What the log of a deployment id tells

The job that the stored bundle is from, the one that the ready deployment is from, and the
versions that were applied since the last deletion.
-/
namespace L4Ide.DeployJobsLog
open DeployJobs DeploymentVersions

variable {log:List Event}

def madeFrom (log:List Event) : Option ℕ :=
 (log.reverse.findSome? fun event=>
  match event with
  | .ready _ origin=>some origin
  | _=>none).join

/-- The version was applied, and the deployment has not been deleted since. -/
def Live (log:List Event) (v:Text) : Prop :=
 ∃ before n middle, log=before ++ .applied n v::middle ∧ .deleted ∉ middle

/-- Of two jobs applied one after the other, with no deletion in between, the later one has
    the larger running counter. -/
def Increasing (log:List Event) : Prop :=
 ∀ before middle after n m v w,
  log=before ++ .applied n v::(middle ++ .applied m w::after) → .deleted ∉ middle →
   running v < running w

/-- What was accepted before a deletion makes nothing ready after it. -/
def StaysDeleted (log:List Event) : Prop :=
 ∀ before after n origin, log=before ++ .deleted::after → .accepted n ∈ before →
  .ready n origin ∉ after

theorem lastSaved_append (event:Event) :
  lastSaved (log ++ [event]) =
   match event with
   | .saved job=>some job
   | _=>lastSaved log := by
 cases event <;> simp [lastSaved]

theorem madeFrom_append (event:Event) :
  madeFrom (log ++ [event]) =
   match event with
   | .ready _ origin=>origin
   | _=>madeFrom log := by
 cases event <;> simp [madeFrom]

theorem append_singleton_eq {α:Type} {xs before after:List α} {x y:α}
  (h:xs ++ [x]=before ++ y::after) :
  (after=[] ∧ x=y ∧ xs=before) ∨ ∃ rest, after=rest ++ [x] ∧ xs=before ++ y::rest := by
 rcases List.eq_nil_or_concat after with rfl | ⟨rest,z,rfl⟩
 · obtain ⟨hxs,hx⟩:=List.append_inj' h rfl
   exact Or.inl ⟨rfl,(List.cons.inj hx).1,hxs⟩
 · have h' : xs ++ [x]=(before ++ y::rest) ++ [z]:=by
    rw [h,List.concat_eq_append,List.append_assoc,List.cons_append]
   obtain ⟨hxs,hx⟩:=List.append_inj' h' rfl
   obtain rfl:=(List.cons.inj hx).1
   exact Or.inr ⟨rest,List.concat_eq_append,hxs⟩

theorem live_append {event:Event} {v:Text} :
  Live (log ++ [event]) v ↔ (∃ n, event = .applied n v) ∨ (event ≠ .deleted ∧ Live log v) := by
 constructor
 · rintro ⟨before,n,middle,heq,hnot⟩
   rcases append_singleton_eq heq with ⟨-,hevent,-⟩ | ⟨rest,rfl,hlog⟩
   · exact Or.inl ⟨n,hevent⟩
   · refine Or.inr ⟨?_,before,n,rest,hlog, ?_⟩
     · rintro rfl
       exact hnot (List.mem_append_right _ List.mem_cons_self)
     · exact fun hmem=>hnot (List.mem_append_left _ hmem)
 · rintro (⟨n,rfl⟩ | ⟨hne,before,n,middle,rfl,hnot⟩)
   · exact ⟨log,n,[],rfl,List.not_mem_nil⟩
   · refine ⟨before,n,middle ++ [event],by simp, ?_⟩
     intro hmem
     rcases List.mem_append.mp hmem with hmem | hmem
     · exact hnot hmem
     · exact hne (List.mem_singleton.mp hmem).symm

theorem live_of_append {event:Event} {v:Text} (hevent:∀ n w, event ≠ .applied n w)
  (h:Live (log ++ [event]) v) : Live log v := by
 rw [live_append] at h
 rcases h with ⟨n,heq⟩ | ⟨-,h⟩
 · exact absurd heq (hevent n v)
 · exact h

theorem Increasing.append (h:Increasing log) {event:Event}
  (hnew:∀ n v, event = .applied n v → ∀ u, Live log u → running u < running v) :
  Increasing (log ++ [event]) := by
 intro before middle after n m v w heq hnot
 have heq' : log ++ [event]=(before ++ .applied n v::middle) ++ .applied m w::after:=by
  rw [heq,List.append_assoc,List.cons_append]
 rcases append_singleton_eq heq' with ⟨-,hevent,hlog⟩ | ⟨rest,-,hlog⟩
 · exact hnew m w hevent v ⟨before,n,middle,hlog,hnot⟩
 · apply h before middle rest n m v w
   · rw [hlog,List.append_assoc,List.cons_append]
   · exact hnot

theorem StaysDeleted.append (h:StaysDeleted log) {event:Event}
  (hnew:∀ n origin, event = .ready n origin → ∀ before after,
   log=before ++ .deleted::after → .accepted n ∉ before) :
  StaysDeleted (log ++ [event]) := by
 intro before after n origin heq haccepted hmem
 rcases append_singleton_eq heq with ⟨rfl,-,-⟩ | ⟨rest,rfl,hlog⟩
 · cases hmem
 · rcases List.mem_append.mp hmem with hmem | hmem
   · exact h before rest n origin hlog haccepted hmem
   · exact hnew n origin (List.mem_singleton.mp hmem).symm before rest hlog haccepted

/-- A job that was accepted as entry number `since` of the log, with no deletion from there on,
    was accepted before no deletion. -/
theorem not_accepted_before {n since:ℕ} (hfresh:.accepted n ∉ log.take since)
  (hundeleted:.deleted ∉ log.drop since) (before after:List Event)
  (hlog:log=before ++ .deleted::after) : .accepted n ∉ before := by
 intro hmem
 subst hlog
 by_cases hle:before.length ≤ since
 · apply hfresh
   rw [List.take_append]
   apply List.mem_append_left
   rwa [List.take_of_length_le hle]
 · apply hundeleted
   rw [List.drop_append]
   apply List.mem_append_right
   have hzero:since-before.length=0:=by omega
   rw [hzero]
   exact List.mem_cons_self

end L4Ide.DeployJobsLog

namespace L4Ide.DeployJobsConsistent
open BundleStore Compatibility DeployJobs DeployJobsLog InterleavedComponents AdmissibleRuns
open DeploymentVersions (running)

variable (svc:Service) (d:DeploymentId)

/-- The functions and the metadata are what the directory's sources compile to, all of them or
    those that a load reads, under the description and the version that are stored. -/
structure MadeOf (dir:Directory) (fns:List Function) (metadata:DeploymentMetadata)
  (files:SourceFiles) (stored:StoredMetadata) (compiled:DeploymentMetadata) : Prop where
 sources : dir.sources=some files ∨ files=l4Files dir.sources
 keeps : dir.metadata=some stored
 compiles : svc.compile d files = .compiled fns compiled
 stamped : metadata=loadedMetadata svc stored compiled

/-- No job is running. -/
def Quiet (s:Slot) : Prop := ∀ job ∈ s.jobs, job.task = .ended

/-- A ready deployment and the stored bundle are from the same job. -/
def SameJob (s:Slot) : Prop :=
 ∀ fns metadata, s.entry=some (.ready fns metadata) → ∃ dir job, s.target=some dir ∧
  lastSaved s.log=some job ∧ madeFrom s.log=some job ∧
  ∃ files stored compiled, MadeOf svc d dir fns metadata files stored compiled

/-- An update that is about to be applied does not break the interface that is deployed. -/
def GateHolds (s:Slot) : Prop :=
 ∀ job r result, job ∈ s.jobs → job.task = .saving r result .registering → r.gate.isSome →
  ∀ old, s.entry.bind currentIfaces=some old →
   detectBreakingChanges old (result.fns.map ifaceFromFunction)=[]

def Task.inSection : Task → Bool
 | .compiling _=>false
 | .versioning _ _ _=>false
 | .checkingStore=>false
 | .ended=>false
 | _=>true

def Free (s:Slot) : Prop := ∀ job ∈ s.jobs, Task.inSection job.task=false

def storedVersion (target:Option Directory) : Option Text :=
 (target.bind Directory.metadata).bind StoredMetadata.smDeploymentVersion

/-- What a deploy job was accepted on still holds, and nothing else is being written. -/
structure MayApply (s:Slot) (since:ℕ) (r:Request) : Prop where
 free : Free s
 /-- No save of the id was cut short before. -/
 clean : s.temp=none
 /-- The deployment has not been deleted since the job was accepted. -/
 present : .deleted ∉ s.log.drop since
 /-- The interface that the gate was given is still the deployed one. -/
 gate : ∀ old, r.gate=some old → (s.entry.bind currentIfaces).getD []=old
 /-- The registry knows the version that is stored. -/
 version : ∀ v, storedVersion s.target=some v →
  (prevMetadata s.entry).map DeploymentMetadata.metaDeploymentVersion=some v
 /-- The running counter has not reached the largest integer. -/
 counter : ∀ pm, prevMetadata s.entry=some pm → running pm.metaDeploymentVersion ≠ 2 ^ 63-1

/-- A failing step that leaves a directory half removed or not yet replaced. -/
def Task.failsBadly : Task → Bool
 | .saving _ _ (.removing _)=>true
 | .saving _ _ .moving=>true
 | .removing _=>true
 | _=>false

def CarefulSlot (s:Slot) : Action → Prop
 | .request=>∀ cached, s.entry=some (.pending cached) → Free s
 | .step n=>∀ job, s.jobs[n]? = some job →
  (job.task = .checkingStore → Free s) ∧
   ∀ r fns metadata, job.task = .versioning r fns metadata → MayApply s job.since r
 | .fail n=>∀ job, s.jobs[n]? = some job → Task.failsBadly job.task=false
 | _=>True

def Task.applying : Task → Bool
 | .saving _ _ _=>true
 | _=>false

def claimed (s:Slot) : Bool := s.entry.isSome || s.jobs.any fun job=>Task.applying job.task

/-- Beside that, a new id takes a place only while one is left that no other is about to take. -/
def Careful (s:State) (action:DeploymentId × Action) : Prop :=
 CarefulSlot (s.get action.1) action.2 ∧
  ∀ n job r fns metadata, action.2 = .step n → (s.get action.1).jobs[n]? = some job →
   job.task = .versioning r fns metadata → (s.get action.1).entry=none →
    s.count claimed < svc.maxDeployments

/-- What stands in the log of an id whose bundle was stored before the start. -/
def startLog (state:DeploymentState) (dir:Directory) : List DeployJobs.Event :=
 [.accepted 0,.saved 0] ++ ((storedVersion (some dir)).toList.map fun v=>.applied 0 v) ++
  match state with
  | .ready _ _=>[.ready 0 (some 0)]
  | _=>[]

def startSlot (state:DeploymentState) (dir:Directory) : Slot :=
 ⟨some state,some dir,none,[⟨0,.ended⟩],startLog state dir⟩

def StartsAs (dir:Directory) : DeploymentState → Prop
 | .pending _=>True
 | .compiling=>False
 | .ready fns metadata=>
  ∃ files stored compiled, MadeOf svc d dir fns metadata files stored compiled
 | .failed _=>True

structure Started (s:State) : Prop where
 slots : ∀ d, s.get d=Slot.empty ∨
  ∃ state dir, StartsAs svc d dir state ∧ s.get d=startSlot state dir
 room : s.count Slot.registered ≤ svc.maxDeployments

end L4Ide.DeployJobsConsistent
