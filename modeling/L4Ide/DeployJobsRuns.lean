import L4Ide.DeployJobsProgress

set_option autoImplicit false

/-!
# Runs of deploy jobs

In every careful run the registry and the store stay consistent; runs in which jobs come in
between each other's writing parts break each of the properties.
-/
namespace L4Ide.DeployJobsRuns
open BundleStore Compatibility DeployJobs DeployJobsLog DeployJobsConsistent DeployJobsSteps
open DeployJobsProgress InterleavedComponents AdmissibleRuns
open DeploymentVersions (running)

variable {svc:Service} {d:DeploymentId} {s:Slot} {n:ℕ}

/-! ## The number of deployments -/

theorem claimed_iff : claimed s=true ↔
  s.entry.isSome=true ∨ ∃ job ∈ s.jobs, Task.applying job.task=true := by
 unfold claimed
 rw [Bool.or_eq_true,List.any_eq_true]

theorem claimed_of_entry (h:s.entry.isSome=true) : claimed s=true :=
 claimed_iff.mpr (Or.inl h)

theorem claimed_of_setTask {s' : Slot} {task:Task} (hentry:s'.entry.isSome → s.entry.isSome)
  (hjobs:s'.jobs=s.jobs) (htask:Task.applying task=false)
  (h:claimed (s'.setTask n task)=true) : claimed s=true := by
 rw [claimed_iff] at h ⊢
 rcases h with h | ⟨job,hmem,happlying⟩
 · exact Or.inl (hentry h)
 · obtain ⟨m,hjob⟩:=List.mem_iff_getElem?.mp hmem
   rcases job_setTask hjob with ⟨rfl,old,-,rfl⟩ | ⟨-,hjob⟩
   · rw [htask] at happlying
     cases happlying
   · rw [hjobs] at hjob
     exact Or.inr ⟨job,List.mem_of_getElem? hjob,happlying⟩

theorem claimed_of_accept {s' : Slot} {task:Task} (hentry:s'.entry.isSome → s.entry.isSome)
  (hjobs:s'.jobs=s.jobs) (htask:Task.applying task=false)
  (h:claimed (s'.accept task)=true) : claimed s=true := by
 rw [claimed_iff] at h ⊢
 rcases h with h | ⟨job,hmem,happlying⟩
 · exact Or.inl (hentry h)
 · change job ∈ s'.jobs ++ _ at hmem
   rcases List.mem_append.mp hmem with hmem | hmem
   · rw [hjobs] at hmem
     exact Or.inr ⟨job,hmem,happlying⟩
   · rw [List.mem_singleton.mp hmem,htask] at happlying
     cases happlying

theorem claimed_of_taskStep (h:Inv svc d s) {since:ℕ} {task:Task}
  (hjob:s.jobs[n]? = some ⟨since,task⟩)
  (hnew:∀ r fns metadata, task = .versioning r fns metadata → s.entry.isSome=true)
  (hclaimed:claimed (taskStep svc d n task s)=true) : claimed s=true := by
 have hfacts:=h.facts n _ hjob
 have hloading:Loading (view s) → claimed s=true:=by
  intro hloading
  apply claimed_of_entry
  have hentry:s.entry=some .compiling:=hloading.entry
  rw [hentry]
  rfl
 cases task with
 | compiling r=>
  unfold taskStep at hclaimed
  dsimp only at hclaimed
  split at hclaimed
  · split at hclaimed <;> exact claimed_of_setTask id rfl rfl hclaimed
  · exact claimed_of_setTask id rfl rfl hclaimed
  · exact claimed_of_setTask id rfl rfl hclaimed
 | versioning r fns metadata=>exact claimed_of_entry (hnew r fns metadata rfl)
 | saving r result stage=>
  exact claimed_iff.mpr (Or.inr ⟨_,List.mem_of_getElem? hjob,rfl⟩)
 | loadingSources=>exact hloading hfacts
 | loadingMetadata sources origin=>exact hloading hfacts.1
 | loadCompiling sources stored origin=>exact hloading hfacts.1
 | loadRegistering fns metadata backfill origin=>exact hloading hfacts.1
 | loadFailing err=>exact hloading hfacts
 | backfilling stored=>exact claimed_of_entry hfacts.1
 | checkingStore=>
  apply claimed_of_setTask id rfl ?_ hclaimed
  split <;> rfl
 | removing removal=>
  unfold taskStep at hclaimed
  dsimp only at hclaimed
  split at hclaimed
  · exact claimed_of_setTask id rfl rfl hclaimed
  · exact claimed_of_setTask id rfl rfl hclaimed
  · exact claimed_of_setTask id rfl rfl hclaimed
 | unregistering=>
  change claimed (({ s with entry:=none }.note [.deleted]).setTask n .ended)=true at hclaimed
  refine claimed_of_setTask ?_ ?_ rfl hclaimed
  · intro hentry
    cases hentry
  · rfl
 | ended=>exact hclaimed

theorem claimed_of_taskFailure (h:Inv svc d s) {since:ℕ} {task:Task}
  (hjob:s.jobs[n]? = some ⟨since,task⟩)
  (hclaimed:claimed (taskFailure n task s)=true) : claimed s=true := by
 have hfacts:=h.facts n _ hjob
 have hloading:Loading (view s) → claimed s=true:=by
  intro hloading
  apply claimed_of_entry
  have hentry:s.entry=some .compiling:=hloading.entry
  rw [hentry]
  rfl
 cases task with
 | compiling r=>exact claimed_of_setTask id rfl rfl hclaimed
 | versioning r fns metadata=>exact hclaimed
 | saving r result stage=>
  exact claimed_iff.mpr (Or.inr ⟨_,List.mem_of_getElem? hjob,rfl⟩)
 | loadingSources=>exact hloading hfacts
 | loadingMetadata sources origin=>exact hloading hfacts.1
 | loadCompiling sources stored origin=>exact hloading hfacts.1
 | loadRegistering fns metadata backfill origin=>exact hclaimed
 | loadFailing err=>exact hclaimed
 | backfilling stored=>exact claimed_of_entry hfacts.1
 | checkingStore=>exact hclaimed
 | removing removal=>exact claimed_of_setTask id rfl rfl hclaimed
 | unregistering=>exact hclaimed
 | ended=>exact hclaimed

theorem claimed_of_slotStep (h:Inv svc d s) {full:Bool} {action:Action}
  (hnew:∀ (m:ℕ) (job:Job) (r:Request) (fns:List Function)
   (metadata:DeploymentMetadata), action = .step m → s.jobs[m]? = some job →
    job.task = .versioning r fns metadata → s.entry.isSome=true)
  (hclaimed:claimed (slotStep svc full d action s)=true) : claimed s=true := by
 cases action with
 | post upload=>
  unfold slotStep postDeployment at hclaimed
  dsimp only at hclaimed
  split at hclaimed
  · split at hclaimed
    · exact hclaimed
    · exact claimed_of_accept id rfl rfl hclaimed
  · exact claimed_of_accept id rfl rfl hclaimed
  · split at hclaimed
    · exact hclaimed
    · exact claimed_of_accept id rfl rfl hclaimed
 | put upload=>
  unfold slotStep putDeployment at hclaimed
  dsimp only at hclaimed
  split at hclaimed
  · exact hclaimed
  · exact claimed_of_accept id rfl rfl hclaimed
 | delete=>
  unfold slotStep deleteDeployment at hclaimed
  dsimp only at hclaimed
  split at hclaimed
  · exact hclaimed
  · exact claimed_of_accept id rfl rfl hclaimed
 | request=>
  unfold slotStep triggerCompilationIfPending at hclaimed
  dsimp only at hclaimed
  split at hclaimed
  · rename_i hentry
    apply claimed_of_entry
    rw [hentry]
    rfl
  · exact hclaimed
 | step m=>
  unfold slotStep at hclaimed
  dsimp only at hclaimed
  split at hclaimed
  · rename_i job hjob
    exact claimed_of_taskStep h hjob (fun r fns metadata=>hnew m job r fns metadata rfl hjob)
     hclaimed
  · exact hclaimed
 | fail m=>
  unfold slotStep at hclaimed
  dsimp only at hclaimed
  split at hclaimed
  · rename_i job hjob
    exact claimed_of_taskFailure h hjob hclaimed
  · exact hclaimed

/-! ## The start -/

theorem increasing_nil : Increasing [] := by
 intro before middle after n m v w heq
 simp at heq

theorem staysDeleted_of_notMem {log:List DeployJobs.Event} (h:.deleted ∉ log) : StaysDeleted log := by
 rintro before after n origin rfl
 exact absurd (List.mem_append_right _ List.mem_cons_self) h

theorem not_live_nil (v:Text) : ¬Live [] v := by
 rintro ⟨before,n,middle,heq,-⟩
 simp at heq

theorem inv_empty : Inv svc d Slot.empty where
 exclusive _ _ _ _ h := by cases h
 settled _ := ⟨fun _ _ h=>(by cases h),fun u h=>absurd h (not_live_nil u)⟩
 facts _ _ h := by cases h
 since_le _ h := by cases h
 fresh _ _ h := by cases h
 numbered _ _ := List.not_mem_nil
 undeleted _ h := by cases h
 writer h := by cases h
 increasing:=increasing_nil
 staysDeleted:=staysDeleted_of_notMem List.not_mem_nil

theorem startLog_forms (state:DeploymentState) (dir:Directory) :
  ∃ versions readied, startLog state dir=[.accepted 0] ++ [.saved 0] ++ versions ++ readied ∧
   (versions=[] ∨ ∃ v, storedVersion (some dir)=some v ∧ versions=[.applied 0 v]) ∧
   (readied=[.ready 0 (some 0)] ∨
    (readied=[] ∧ ∀ fns metadata, state ≠ .ready fns metadata)) := by
 refine ⟨_,_,rfl, ?_, ?_⟩
 · cases storedVersion (some dir) with
   | none=>exact Or.inl rfl
   | some v=>exact Or.inr ⟨v,rfl,rfl⟩
 · cases state with
   | ready fns metadata=>exact Or.inl rfl
   | pending cached=>exact Or.inr ⟨rfl,by simp⟩
   | compiling=>exact Or.inr ⟨rfl,by simp⟩
   | failed err=>exact Or.inr ⟨rfl,by simp⟩

theorem increasing_startLog (state:DeploymentState) (dir:Directory) :
  Increasing (startLog state dir) := by
 have hbase:Increasing ([.accepted 0] ++ [.saved 0]):=by
  apply Increasing.append
  · apply increasing_nil.append
    intro n v heq
    cases heq
  · intro n v heq
    cases heq
 have hnone:∀ u, ¬Live ([DeployJobs.Event.accepted 0] ++ [.saved 0]) u:=by
  intro u hlive
  have hfirst:=@live_of_append [.accepted 0] (.saved 0) u (by simp) hlive
  exact not_live_nil u (@live_of_append [] (.accepted 0) u (by simp) hfirst)
 obtain ⟨versions,readied,heq,hversions,hreadied⟩:=startLog_forms state dir
 rw [heq]
 have hmiddle:Increasing ([.accepted 0] ++ [.saved 0] ++ versions):=by
  rcases hversions with rfl | ⟨v,-,rfl⟩
  · rwa [List.append_nil]
  · apply hbase.append
    intro n w _ u hlive
    exact absurd hlive (hnone u)
 rcases hreadied with rfl | ⟨rfl,-⟩
 · apply hmiddle.append
   intro n v heq
   cases heq
 · rwa [List.append_nil]

theorem live_startLog {state:DeploymentState} {dir:Directory} {u:Text}
  (h:Live (startLog state dir) u) : storedVersion (some dir)=some u := by
 obtain ⟨before,n,middle,heq,-⟩:=h
 have hmem:DeployJobs.Event.applied n u ∈ startLog state dir:=by
  rw [heq]
  exact List.mem_append_right _ List.mem_cons_self
 obtain ⟨versions,readied,hlog,hversions,hreadied⟩:=startLog_forms state dir
 rw [hlog] at hmem
 have hversions' : DeployJobs.Event.applied n u ∈ versions:=by
  rcases hreadied with rfl | ⟨rfl,-⟩ <;> simpa using hmem
 rcases hversions with rfl | ⟨v,hstored,rfl⟩
 · cases hversions'
 · cases List.mem_singleton.mp hversions'
   exact hstored

theorem lastSaved_startLog (state:DeploymentState) (dir:Directory) :
  lastSaved (startLog state dir)=some 0 := by
 obtain ⟨versions,readied,heq,hversions,hreadied⟩:=startLog_forms state dir
 rw [heq]
 rcases hversions with rfl | ⟨v,-,rfl⟩ <;> rcases hreadied with rfl | ⟨rfl,-⟩ <;> rfl

theorem settled_startSlot {state:DeploymentState} {dir:Directory}
  (h:StartsAs svc d dir state) : Settled svc d (view (startSlot state dir)) := by
 constructor
 · intro fns metadata heq
   have hstate:state = .ready fns metadata:=Option.some.inj heq
   subst hstate
   refine ⟨dir,0,rfl,lastSaved_startLog (.ready fns metadata) dir, ?_,h⟩
   obtain ⟨versions,readied,hlog,hversions,hreadied⟩:=
    startLog_forms (.ready fns metadata) dir
   change madeFrom (startLog (.ready fns metadata) dir)=some 0
   rw [hlog]
   rcases hreadied with rfl | ⟨-,hnot⟩
   · exact madeFrom_append _
   · exact absurd rfl (hnot fns metadata)
 · exact fun u hlive=>⟨u,live_startLog hlive,le_rfl⟩

theorem inv_startSlot {state:DeploymentState} {dir:Directory}
  (h:StartsAs svc d dir state) : Inv svc d (startSlot state dir) := by
 have honly:∀ job ∈ (startSlot state dir).jobs, job=⟨0,.ended⟩:=
  fun job hmem=>List.mem_singleton.mp hmem
 have hended:∀ job ∈ (startSlot state dir).jobs, Task.inSection job.task=false:=by
  intro job hmem
  rw [honly job hmem]
  rfl
 obtain ⟨versions,readied,hlog,hversions,hreadied⟩:=startLog_forms state dir
 constructor
 · intro m k job other hjob hother hin
   rw [hended job (List.mem_of_getElem? hjob)] at hin
   cases hin
 · exact fun _=>settled_startSlot h
 · intro m job hjob
   rw [honly job (List.mem_of_getElem? hjob)]
   trivial
 · intro job hmem
   rw [honly job hmem]
   exact Nat.zero_le _
 · intro m job hjob
   rw [honly job (List.mem_of_getElem? hjob)]
   exact List.not_mem_nil
 · intro m hm hmem
   change DeployJobs.Event.accepted m ∈ startLog state dir at hmem
   change 1 ≤ m at hm
   rw [hlog] at hmem
   rcases hversions with rfl | ⟨v,-,rfl⟩ <;> rcases hreadied with rfl | ⟨rfl,-⟩ <;>
    simp at hmem <;> omega
 · intro job hmem hready
   have hin:=inSection_of_makesReady hready
   rw [hended job hmem] at hin
   cases hin
 · intro _
   change (lastSaved (startLog state dir)).isSome
   rw [lastSaved_startLog]
   rfl
 · exact increasing_startLog state dir
 · apply staysDeleted_of_notMem
   change DeployJobs.Event.deleted ∉ startLog state dir
   rw [hlog]
   rcases hversions with rfl | ⟨v,-,rfl⟩ <;> rcases hreadied with rfl | ⟨rfl,-⟩ <;> simp

/-! ## Runs -/

section Runs

variable (svc)

/-- What holds in every state of a careful run. -/
structure Kept (s:State) : Prop where
 slots : ∀ d, Inv svc d (s.get d)
 room : s.count claimed ≤ svc.maxDeployments

variable {svc}

theorem Kept.started {s:State} (h:Started svc s) : Kept svc s where
 slots d := by
  rcases h.slots d with heq | ⟨state,dir,hstarts,heq⟩
  · rw [heq]
    exact inv_empty
  · rw [heq]
    exact inv_startSlot hstarts
 room := by
  apply le_trans (Family.count_le_count ?_) h.room
  intro d hclaimed
  rcases h.slots d with heq | ⟨state,dir,-,heq⟩
  · rw [heq] at hclaimed
    cases hclaimed
  · rw [heq]
    rfl

theorem Kept.step {s:State} (h:Kept svc s) {action:DeploymentId × Action}
  (hcareful:Careful svc s action) : Kept svc (step svc action s) := by
 obtain ⟨hslot,hroom⟩:=hcareful
 constructor
 · apply Family.forall_get_put h.slots
   exact inv_slotStep (h.slots action.1) _ hslot
 · by_cases hnew:∃ (m:ℕ) (job:Job) (r:Request) (fns:List Function)
     (metadata:DeploymentMetadata), action.2 = .step m ∧
     (s.get action.1).jobs[m]? = some job ∧ job.task = .versioning r fns metadata ∧
      (s.get action.1).entry=none
   · obtain ⟨m,job,r,fns,metadata,hstep,hjob,htask,hentry⟩:=hnew
     have hlt:=hroom m job r fns metadata hstep hjob htask hentry
     have hle:=Family.count_put_le_succ (p := claimed) rfl s action.1
      (slotStep svc (decide (svc.maxDeployments ≤ s.size)) action.1 action.2 (s.get action.1))
     exact le_trans hle hlt
   · apply le_trans (Family.count_put_le rfl s ?_) h.room
     intro hclaimed
     apply claimed_of_slotStep (h.slots action.1) ?_ hclaimed
     intro m job r fns metadata hstep hjob htask
     by_contra hnone
     exact hnew ⟨m,job,r,fns,metadata,hstep,hjob,htask,
      Option.not_isSome_iff_eq_none.mp hnone⟩

theorem gateHolds_of_inv (h:Inv svc d s) : GateHolds s := by
 intro job r result hmem htask hgate old hold
 obtain ⟨m,hjob⟩:=List.mem_iff_getElem?.mp hmem
 have hfacts:=h.facts m job hjob
 rw [htask] at hfacts
 obtain ⟨gate,hsome⟩:=Option.isSome_iff_exists.mp hgate
 have hsame:=hfacts.1.gate gate hsome
 have hcompatible:=hfacts.1.compatible
 change (s.entry.bind currentIfaces).getD []=gate at hsame
 rw [hold,Option.getD_some] at hsame
 rw [hsame]
 unfold breaking at hcompatible
 rwa [hsome] at hcompatible

theorem sameJob_of_inv (h:Inv svc d s) (hquiet:Quiet s) : SameJob svc d s := by
 have hfree:Free s:=by
  intro job hmem
  rw [hquiet job hmem]
  rfl
 exact (h.settled hfree).agrees

end Runs

/-- In every careful run no update is applied that breaks what is deployed, a ready deployment
    and the stored bundle are from the same job whenever no job runs, the running counter
    rises, nothing that was deleted is made ready again, and there is room for what is
    registered. -/
theorem deployments_consistent (svc:Service) (actions:List (DeploymentId × Action)) (s:State)
  (hstarted:Started svc s)
  (hcareful:Admissible (step svc) (Careful svc) actions s) :
  (∀ d, GateHolds ((run (step svc) actions s).get d) ∧
   (Quiet ((run (step svc) actions s).get d) →
    SameJob svc d ((run (step svc) actions s).get d)) ∧
   Increasing ((run (step svc) actions s).get d).log ∧
   StaysDeleted ((run (step svc) actions s).get d).log) ∧
   State.size (run (step svc) actions s) ≤ svc.maxDeployments := by
 have hkept:Kept svc (run (step svc) actions s):=by
  apply hcareful.invariant
  · exact fun _ _ h hadmits=>h.step hadmits
  · exact Kept.started hstarted
 constructor
 · intro d
   have hinv:=hkept.slots d
   exact ⟨gateHolds_of_inv hinv,sameJob_of_inv hinv,hinv.increasing,hinv.staysDeleted⟩
 · apply le_trans (Family.count_le_count ?_) hkept.room
   exact fun _ hregistered=>claimed_of_entry hregistered

/-! ## Runs of a small service -/

theorem ordered_nil : FunctionSchema.Parameters.Ordered ⟨[],[]⟩ :=
 ⟨List.Pairwise.nil,fun _ _ h=>absurd h List.not_mem_nil⟩

theorem ordered_none (p:FunctionSchema.Parameter) (h:none=some p) : p.Ordered :=
 absurd h.symm (Option.some_ne_none _)

def plainFunction (name:Text) : Function where
 name:=name
 parameters:=⟨[],[]⟩
 returnType:=""
 returnSchema:=none
 params_ordered:=ordered_nil
 return_ordered:=ordered_none

def mainFile : FilePath := "main.l4".toList

/-- A service for one deployment, whose compiler finds one function in the text `f`. -/
def smallService : Service where
 compile _ files :=
  .compiled (if files mainFile=some "f" then [plainFunction "f"] else [])
   ⟨[],(files mainFile).getD "",none,"",""⟩
 computeVersion files := (files mainFile).getD ""
 serviceMajor:=1
 serviceVersion:="1.5.79"
 maxDeployments:=1

def upload (content:Text) : Upload := ⟨[(mainFile,content)],none,"now"⟩

def steps (d:DeploymentId) (n count:ℕ) : List (DeploymentId × Action) :=
 List.replicate count (d,.step n)

def carefulFirst (s:State) (action:DeploymentId × Action) : Bool :=
 let slot:=s.get action.1
 let free:=slot.jobs.all fun job=>!Task.inSection job.task
 match action.2 with
 | .request=>free
 | .fail _=>false
 | .step n=>
  match slot.jobs[n]? with
  | none=>true
  | some job=>
   match job.task with
   | .checkingStore=>free
   | .versioning r _ _=>
    free && slot.temp.isNone && !(slot.log.drop job.since).elem .deleted && r.gate.isNone &&
     slot.target.isNone && (prevMetadata slot.entry).isNone &&
      decide (s.count claimed < smallService.maxDeployments)
   | _=>true
 | _=>true

theorem careful_of_first {s:State} {action:DeploymentId × Action}
  (h:carefulFirst s action=true) : Careful smallService s action := by
 obtain ⟨d,action⟩:=action
 have hfree:((s.get d).jobs.all fun job=>!Task.inSection job.task)=true → Free (s.get d):=by
  intro hall job hmem
  have hjob:=List.all_eq_true.mp hall job hmem
  rwa [Bool.not_eq_true'] at hjob
 cases action with
 | post upload=>exact ⟨trivial,fun _ _ _ _ _ heq=>nomatch heq⟩
 | put upload=>exact ⟨trivial,fun _ _ _ _ _ heq=>nomatch heq⟩
 | delete=>exact ⟨trivial,fun _ _ _ _ _ heq=>nomatch heq⟩
 | request=>exact ⟨fun _ _=>hfree h,fun _ _ _ _ _ heq=>nomatch heq⟩
 | fail n=>cases h
 | step n=>
  have hversioning:∀ (job:Job) (r:Request) (fns:List Function)
    (metadata:DeploymentMetadata), (s.get d).jobs[n]? = some job →
    job.task = .versioning r fns metadata →
    MayApply (s.get d) job.since r ∧ s.count claimed < smallService.maxDeployments := by
   intro job r fns metadata hjob htask
   unfold carefulFirst at h
   dsimp only at h
   rw [hjob] at h
   dsimp only at h
   rw [htask] at h
   simp only [Bool.and_eq_true,decide_eq_true_eq,Option.isNone_iff_eq_none,
    Bool.not_eq_true', List.elem_eq_contains,List.contains_eq_mem,decide_eq_false_iff_not] at h
   obtain ⟨⟨⟨⟨⟨⟨hall,htemp⟩,hpresent⟩,hgate⟩,htarget⟩,hprev⟩,hroom⟩:=h
   refine ⟨⟨hfree hall,htemp,hpresent, ?_, ?_, ?_⟩,hroom⟩
   · intro old hold
     rw [hgate] at hold
     cases hold
   · intro v hv
     rw [htarget] at hv
     cases hv
   · intro pm hpm
     rw [hprev] at hpm
     cases hpm
  constructor
  · intro job hjob
    refine ⟨?_,fun r fns metadata htask=>(hversioning job r fns metadata hjob htask).1⟩
    intro htask
    unfold carefulFirst at h
    dsimp only at h
    rw [hjob] at h
    dsimp only at h
    rw [htask] at h
    exact hfree h
  · intro m job r fns metadata heq hjob htask _
    cases heq
    exact (hversioning job r fns metadata hjob htask).2

def allCarefulFirst : List (DeploymentId × Action) → State → Bool
 | [], _=>true
 | action::actions, s=>
  carefulFirst s action && allCarefulFirst actions (step smallService action s)

theorem admissible_of_first {actions:List (DeploymentId × Action)} {s:State}
  (h:allCarefulFirst actions s=true) :
  Admissible (step smallService) (Careful smallService) actions s := by
 induction actions generalizing s with
 | nil=>trivial
 | cons action actions ih=>
  obtain ⟨hfirst,hrest⟩:=Bool.and_eq_true_iff.mp h
  exact ⟨careful_of_first hfirst,ih hrest⟩

theorem started_empty : Started svc Family.start where
 slots _ := Or.inl rfl
 room:=Nat.zero_le _

/-- A deployment is created, deleted, and created anew. -/
def createdTwice : List (DeploymentId × Action) :=
 [("d",.post (upload "f"))] ++ steps "d" 0 9 ++ [("d",.delete)] ++ steps "d" 1 5 ++
  [("d",.post (upload "g"))] ++ steps "d" 2 9

theorem deployments_consistent_createdTwice :
  (∀ d, GateHolds ((run (step smallService) createdTwice Family.start).get d) ∧
   (Quiet ((run (step smallService) createdTwice Family.start).get d) →
    SameJob smallService d ((run (step smallService) createdTwice Family.start).get d)) ∧
   Increasing ((run (step smallService) createdTwice Family.start).get d).log ∧
   StaysDeleted ((run (step smallService) createdTwice Family.start).get d).log) ∧
   State.size (run (step smallService) createdTwice Family.start) ≤ 1 :=
 deployments_consistent smallService createdTwice Family.start started_empty
  (admissible_of_first (by decide +kernel))

def breaksLive (s:Slot) : Bool :=
 s.jobs.any fun job=>
  match job.task with
  | .saving r result .registering=>
   match r.gate, s.entry.bind currentIfaces with
   | some _, some old=>
    !(detectBreakingChanges old (result.fns.map ifaceFromFunction)).isEmpty
   | _, _=>false
  | _=>false

theorem not_gateHolds (h:breaksLive s=true) : ¬GateHolds s := by
 intro hgate
 obtain ⟨job,hmem,hbreaks⟩:=List.any_eq_true.mp h
 split at hbreaks
 · rename_i r result htask
   split at hbreaks
   · rename_i gate old hsome hold
     rw [hgate job r result hmem htask (by rw [hsome]; rfl) old hold] at hbreaks
     cases hbreaks
   · cases hbreaks
 · cases hbreaks

def isEnded (job:Job) : Bool :=
 match job.task with
 | .ended=>true
 | _=>false

theorem quiet_of_isEnded (h:s.jobs.all isEnded=true) : Quiet s := by
 intro job hmem
 have hended:=List.all_eq_true.mp h job hmem
 unfold isEnded at hended
 split at hended
 · assumption
 · cases hended

def isReady (s:Slot) : Bool :=
 match s.entry with
 | some (.ready _ _)=>true
 | _=>false

theorem not_sameJob (hready:isReady s=true) (h:lastSaved s.log ≠ madeFrom s.log) :
  ¬SameJob svc d s := by
 intro hsame
 unfold isReady at hready
 split at hready
 · rename_i fns metadata hentry
   obtain ⟨dir,job,-,hsaved,hmade,-⟩:=hsame fns metadata hentry
   exact h (hsaved.trans hmade.symm)
 · cases hready

theorem not_increasing {log:List DeployJobs.Event} (before middle after:List DeployJobs.Event)
  (n m:ℕ) (v:Text)
  (hlog:log=before ++ .applied n v::(middle ++ .applied m v::after))
  (hnot:.deleted ∉ middle) : ¬Increasing log :=
 fun h=>lt_irrefl _ (h before middle after n m v v hlog hnot)

theorem not_staysDeleted {log:List DeployJobs.Event} (before after:List DeployJobs.Event) (n:ℕ)
  (origin:Option ℕ) (hlog:log=before ++ .deleted::after) (haccepted:.accepted n ∈ before)
  (hready:.ready n origin ∈ after) : ¬StaysDeleted log :=
 fun h=>h before after n origin hlog haccepted hready

/-- An update is accepted while no function is deployed; before it is applied, another job
    deploys one, which the update leaves out. -/
def gateOutrun : List (DeploymentId × Action) :=
 [("d",.post (upload ""))] ++ steps "d" 0 9 ++
  [("d",.put (upload "g")),("d",.post (upload "f"))] ++ steps "d" 2 12 ++ steps "d" 1 11

/-- Between the save and the registration of one job, another one saves and registers. -/
def registeredLate : List (DeploymentId × Action) :=
 [("d",.post (upload "f")),("d",.post (upload "g"))] ++ steps "d" 0 8 ++ steps "d" 1 12 ++
  steps "d" 0 1

/-- A deployment is deleted while an update of it is compiling. -/
def deletedMeanwhile : List (DeploymentId × Action) :=
 [("d",.post (upload "f"))] ++ steps "d" 0 9 ++
  [("d",.put (upload "f")),("d",.delete)] ++ steps "d" 2 5 ++ steps "d" 1 9

/-- Two new deployments are accepted before either is registered. -/
def acceptedTogether : List (DeploymentId × Action) :=
 [("a",.post (upload "f")),("b",.post (upload "f"))] ++ steps "a" 0 9 ++ steps "b" 0 9

theorem jobs_interfere :
  ¬GateHolds ((run (step smallService) gateOutrun Family.start).get "d") ∧
   (Quiet ((run (step smallService) registeredLate Family.start).get "d") ∧
    ¬SameJob smallService "d" ((run (step smallService) registeredLate Family.start).get "d")) ∧
   ¬Increasing ((run (step smallService) registeredLate Family.start).get "d").log ∧
   ¬StaysDeleted ((run (step smallService) deletedMeanwhile Family.start).get "d").log ∧
   smallService.maxDeployments < State.size (run (step smallService) acceptedTogether Family.start) := by
 refine ⟨?_,⟨?_, ?_⟩, ?_, ?_, ?_⟩
 · exact not_gateHolds (by decide +kernel)
 · exact quiet_of_isEnded (by decide +kernel)
 · exact not_sameJob (by decide +kernel) (by decide +kernel)
 · exact not_increasing [.accepted 0,.accepted 1,.saved 0,.saved 1,.ready 1 (some 1)]
    [.ready 0 (some 0)] [] 1 0 "1.0.0" (by decide +kernel) (by decide)
 · exact not_staysDeleted
    [.accepted 0,.saved 0,.ready 0 (some 0),.applied 0 "1.0.0",.accepted 1,.accepted 2]
    [.saved 1,.ready 1 (some 1),.applied 1 "1.0.0"] 1 (some 1) (by decide +kernel)
    (by decide) (by decide)
 · decide +kernel

end L4Ide.DeployJobsRuns
