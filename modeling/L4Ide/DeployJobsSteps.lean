import L4Ide.DeployJobsLog

set_option autoImplicit false

/-!
# Steps of deploy jobs

Every careful step keeps what the jobs of an id rely on.
-/
namespace L4Ide.DeployJobsSteps
open BundleStore Compatibility DeployJobs DeployJobsLog DeployJobsConsistent
open DeploymentVersions (running nextDeploymentVersion)

section Definitions

variable (svc:Service) (d:DeploymentId)

structure View where
 entry : Option DeploymentState
 target : Option Directory
 temp : Option Directory
 saved : Option ℕ
 made : Option ℕ
 live : Text → Prop

def view (s:Slot) : View :=
 ⟨s.entry,s.target,s.temp,lastSaved s.log,madeFrom s.log,Live s.log⟩

def Counted (v:View) : Prop :=
 ∀ u, v.live u → ∃ w, storedVersion v.target=some w ∧ running u ≤ running w

def Agrees (v:View) : Prop :=
 ∀ fns metadata, v.entry=some (.ready fns metadata) → ∃ dir job, v.target=some dir ∧
  v.saved=some job ∧ v.made=some job ∧
  ∃ files stored compiled, MadeOf svc d dir fns metadata files stored compiled

structure Settled (v:View) : Prop where
 agrees : Agrees svc d v
 counted : Counted v

structure Applicable (v:View) (r:Request) (result:Result) : Prop where
 made : ∃ compiled, svc.compile d (filesOf r.sources) = .compiled result.fns compiled ∧
  result.metadata=loadedMetadata svc result.stored compiled
 version : result.stored.smDeploymentVersion=some result.metadata.metaDeploymentVersion
 gate : ∀ old, r.gate=some old → (v.entry.bind currentIfaces).getD []=old
 compatible : breaking r.gate result.fns=[]
 counts : ∀ u, v.live u → running u < running result.metadata.metaDeploymentVersion

def bundle (r:Request) (result:Result) : Directory :=
 ⟨some (filesOf r.sources),some result.stored⟩

def RemovalReady (target:Option Directory) : Removal → Prop
 | .sources=>target.isSome
 | .metadata=>∃ dir, target=some dir ∧ dir.sources=none
 | .directory=>target=some emptyDirectory

def StageFacts (v:View) (n:ℕ) (r:Request) (result:Result) : SaveStage → Prop
 | .creating=>v.temp=none ∧ Settled svc d v
 | .writing left=>
  (∃ written, written ++ left=r.sources ∧ v.temp=some ⟨some (filesOf written),none⟩) ∧
   Settled svc d v
 | .metadata=>v.temp=some ⟨some (filesOf r.sources),none⟩ ∧ Settled svc d v
 | .swapping=>v.temp=some (bundle r result) ∧ Settled svc d v
 | .removing removal=>v.temp=some (bundle r result) ∧ RemovalReady v.target removal
 | .moving=>v.temp=some (bundle r result) ∧ v.target=none
 | .registering=>v.target=some (bundle r result) ∧ v.saved=some n

structure Loading (v:View) : Prop where
 entry : v.entry=some .compiling
 counted : Counted v

def Facts (v:View) (n:ℕ) : Task → Prop
 | .compiling _=>True
 | .versioning r fns metadata=>
  svc.compile d (filesOf r.sources) = .compiled fns metadata ∧ breaking r.gate fns=[]
 | .saving r result stage=>Applicable svc d v r result ∧ StageFacts svc d v n r result stage
 | .loadingSources=>Loading v
 | .loadingMetadata sources origin=>
  Loading v ∧ sources=l4Files (v.target.bind Directory.sources) ∧ origin=v.saved
 | .loadCompiling sources stored origin=>
  Loading v ∧ origin=v.saved ∧
   ∃ dir, v.target=some dir ∧ dir.metadata=some stored ∧ sources=l4Files dir.sources
 | .loadRegistering fns metadata backfill origin=>
  Loading v ∧ origin=v.saved ∧ ∃ dir stored compiled, v.target=some dir ∧
   MadeOf svc d dir fns metadata (l4Files dir.sources) stored compiled ∧
   backfill=backfilled svc stored
 | .loadFailing _=>Loading v
 | .backfilling stored=>
  v.entry.isSome ∧ Settled svc d v ∧
   Settled svc d { v with target:=v.target.map (Directory.withMetadata stored) }
 | .checkingStore=>True
 | .removing removal=>RemovalReady v.target removal
 | .unregistering=>v.target=none
 | .ended=>True

def Task.makesReady : Task → Bool
 | .removing _=>false
 | .unregistering=>false
 | task=>Task.inSection task

structure Inv (s:Slot) : Prop where
 exclusive : ∀ (n m:ℕ) (job other:Job), s.jobs[n]? = some job → s.jobs[m]? = some other →
  Task.inSection job.task=true → Task.inSection other.task=true → n=m
 settled : Free s → Settled svc d (view s)
 facts : ∀ (n:ℕ) (job:Job), s.jobs[n]? = some job → Facts svc d (view s) n job.task
 since_le : ∀ job ∈ s.jobs, job.since ≤ s.log.length
 fresh : ∀ (n:ℕ) (job:Job), s.jobs[n]? = some job → .accepted n ∉ s.log.take job.since
 numbered : ∀ n, s.jobs.length ≤ n → .accepted n ∉ s.log
 undeleted : ∀ job ∈ s.jobs, Task.makesReady job.task=true → .deleted ∉ s.log.drop job.since
 writer : s.target.isSome → (lastSaved s.log).isSome
 increasing : Increasing s.log
 staysDeleted : StaysDeleted s.log

end Definitions

variable {svc:Service} {d:DeploymentId} {s:Slot} {n:ℕ} {job:Job}

theorem view_setTask (task:Task) : view (s.setTask n task)=view s := rfl

theorem live_accepted (log:List DeployJobs.Event) (m:ℕ) :
  Live (log ++ [.accepted m])=Live log := by
 funext v
 apply propext
 rw [live_append]
 simp

theorem view_accept (task:Task) : view (s.accept task)=view s := by
 unfold view Slot.accept
 simp only [lastSaved_append,madeFrom_append,live_accepted]

theorem facts_outside {v v' : View} {m m' : ℕ} {task:Task}
  (hout:Task.inSection task=false) (h:Facts svc d v m task) : Facts svc d v' m' task := by
 cases task with
 | compiling r=>trivial
 | versioning r fns metadata=>exact h
 | checkingStore=>trivial
 | ended=>trivial
 | saving r result stage=>cases hout
 | loadingSources=>cases hout
 | loadingMetadata sources origin=>cases hout
 | loadCompiling sources stored origin=>cases hout
 | loadRegistering fns metadata backfill origin=>cases hout
 | loadFailing err=>cases hout
 | backfilling stored=>cases hout
 | removing removal=>cases hout
 | unregistering=>cases hout

theorem inSection_of_makesReady {task:Task} (h:Task.makesReady task=true) :
  Task.inSection task=true := by
 cases task with
 | removing removal=>rfl
 | unregistering=>rfl
 | _=>exact h

theorem getElem?_setTask (task:Task) (m:ℕ) :
  (s.setTask n task).jobs[m]? =
   if n=m then s.jobs[m]?.map fun job=>{ job with task:=task } else s.jobs[m]? := by
 unfold Slot.setTask
 dsimp only
 rw [List.getElem?_modify]
 split
 · rfl
 · cases s.jobs[m]? <;> rfl

theorem job_setTask {task:Task} {m:ℕ} {other:Job}
  (h:(s.setTask n task).jobs[m]? = some other) :
  (n=m ∧ ∃ old, s.jobs[n]? = some old ∧ other=⟨old.since,task⟩) ∨
   (n ≠ m ∧ s.jobs[m]? = some other) := by
 rw [getElem?_setTask] at h
 split at h
 · rename_i heq
   subst heq
   obtain ⟨old,hold,hother⟩:=Option.map_eq_some_iff.mp h
   exact Or.inl ⟨rfl,old,hold,hother.symm⟩
 · rename_i hne
   exact Or.inr ⟨hne,h⟩

theorem getElem?_setTask_self (task:Task) (hjob:s.jobs[n]? = some job) :
  (s.setTask n task).jobs[n]? = some ⟨job.since,task⟩ := by
 rw [getElem?_setTask,if_pos rfl,hjob]
 rfl

theorem length_setTask (task:Task) : (s.setTask n task).jobs.length=s.jobs.length :=
 List.length_modify _ _ _

theorem mem_of_getElem? {jobs:List Job} (h:jobs[n]? = some job) : job ∈ jobs :=
 List.mem_of_getElem? h

theorem not_free (hjob:s.jobs[n]? = some job) (hin:Task.inSection job.task=true) :
  ¬Free s := by
 intro hfree
 have h:=hfree job (List.mem_of_getElem? hjob)
 rw [hin] at h
 cases h

namespace Inv

theorem others_outside (h:Inv svc d s) (hjob:s.jobs[n]? = some job)
  (hhold:Task.inSection job.task=true ∨ Free s) {m:ℕ} {other:Job} (hne:n ≠ m)
  (hother:s.jobs[m]? = some other) : Task.inSection other.task=false := by
 rcases hhold with hin | hfree
 · by_contra hcontra
   rw [Bool.not_eq_false] at hcontra
   exact hne (h.exclusive n m job other hjob hother hin hcontra)
 · exact hfree other (List.mem_of_getElem? hother)

theorem work (h:Inv svc d s) (hjob:s.jobs[n]? = some job)
  (hhold:Task.inSection job.task=true ∨ Free s) {s' : Slot} (events:List DeployJobs.Event)
  {task:Task} (hjobs:s'.jobs=s.jobs) (hlog:s'.log=s.log ++ events)
  (hfacts:Facts svc d (view s') n task)
  (hsettled:Task.inSection task=false → Settled svc d (view s'))
  (hundeleted:Task.makesReady task=true → .deleted ∉ s'.log.drop job.since)
  (haccepted:∀ m, .accepted m ∉ events)
  (hwriter:s'.target.isSome → (lastSaved s'.log).isSome) (hincreasing:Increasing s'.log)
  (hstays:StaysDeleted s'.log) : Inv svc d (s'.setTask n task) := by
 have hjob' : s'.jobs[n]? = some job:=by rw [hjobs,hjob]
 have hbefore:∀ {m:ℕ} {other:Job}, n ≠ m → s'.jobs[m]? = some other →
   Task.inSection other.task=false := by
  intro m other hne hother
  rw [hjobs] at hother
  exact h.others_outside hjob hhold hne hother
 constructor
 · intro m k one two hone htwo hin hin'
   rcases job_setTask hone with ⟨rfl,-⟩ | ⟨hne,hone⟩
   · rcases job_setTask htwo with ⟨rfl,-⟩ | ⟨hne,htwo⟩
     · rfl
     · rw [hbefore hne htwo] at hin'
       cases hin'
   · rw [hbefore hne hone] at hin
     cases hin
 · intro hfree
   apply hsettled
   exact hfree _ (List.mem_of_getElem? (getElem?_setTask_self task hjob'))
 · intro m other hother
   rcases job_setTask hother with ⟨rfl,old,-,rfl⟩ | ⟨hne,hother⟩
   · exact hfacts
   · apply facts_outside (hbefore hne hother)
     rw [hjobs] at hother
     exact h.facts m other hother
 · intro other hmem
   have hle:s.log.length ≤ s'.log.length:=by
    rw [hlog,List.length_append]
    omega
   obtain ⟨m,hother⟩:=List.mem_iff_getElem?.mp hmem
   rcases job_setTask hother with ⟨rfl,old,hold,rfl⟩ | ⟨hne,hother⟩
   · rw [hjobs] at hold
     exact le_trans (h.since_le old (List.mem_of_getElem? hold)) hle
   · rw [hjobs] at hother
     exact le_trans (h.since_le other (List.mem_of_getElem? hother)) hle
 · have hold:∀ {m:ℕ} {other:Job}, s.jobs[m]? = some other →
     .accepted m ∉ s'.log.take other.since := by
    intro m other hother
    rw [hlog,List.take_append_of_le_length (h.since_le other (List.mem_of_getElem? hother))]
    exact h.fresh m other hother
   intro m other hother
   rcases job_setTask hother with ⟨rfl,old,hold', rfl⟩ | ⟨hne,hother⟩
   · rw [hjobs] at hold'
     exact @hold n old hold'
   · rw [hjobs] at hother
     exact hold hother
 · intro m hm hmem
   rw [length_setTask,hjobs] at hm
   change DeployJobs.Event.accepted m ∈ s'.log at hmem
   rw [hlog] at hmem
   rcases List.mem_append.mp hmem with hmem | hmem
   · exact h.numbered m hm hmem
   · exact haccepted m hmem
 · intro other hmem hin
   obtain ⟨m,hother⟩:=List.mem_iff_getElem?.mp hmem
   rcases job_setTask hother with ⟨rfl,old,hold,rfl⟩ | ⟨hne,hother⟩
   · rw [hjob'] at hold
     obtain rfl:=Option.some.inj hold
     exact hundeleted hin
   · have hin' :=inSection_of_makesReady hin
     rw [hbefore hne hother] at hin'
     cases hin'
 · exact hwriter
 · exact hincreasing
 · exact hstays

theorem quietly (h:Inv svc d s) (hjob:s.jobs[n]? = some job)
  (hin:Task.inSection job.task=true) {s' : Slot} {task:Task} (hjobs:s'.jobs=s.jobs)
  (hready:Task.makesReady task=true → Task.makesReady job.task=true)
  (hlog:s'.log=s.log) (hfacts:Facts svc d (view s') n task)
  (hsettled:Task.inSection task=false → Settled svc d (view s'))
  (hwriter:s'.target.isSome → s.target.isSome) : Inv svc d (s'.setTask n task) := by
 have hlog' : s'.log=s.log ++ []:=by rw [hlog,List.append_nil]
 apply h.work hjob (Or.inl hin) [] hjobs hlog' hfacts hsettled
 · intro hmakes
   rw [hlog]
   exact h.undeleted job (List.mem_of_getElem? hjob) (hready hmakes)
 · exact fun m=>List.not_mem_nil
 · intro hsome
   rw [hlog]
   exact h.writer (hwriter hsome)
 · rw [hlog]
   exact h.increasing
 · rw [hlog]
   exact h.staysDeleted

theorem outside (h:Inv svc d s) (hjob:s.jobs[n]? = some job)
  (hout:Task.inSection job.task=false) {task:Task} (hout' : Task.inSection task=false)
  (hfacts:Facts svc d (view s) n task) : Inv svc d (s.setTask n task) := by
 have hback:∀ {m:ℕ} {other:Job}, (s.setTask n task).jobs[m]? = some other →
   Task.inSection other.task=true → s.jobs[m]? = some other := by
  intro m other hother hin
  rcases job_setTask hother with ⟨rfl,old,-,rfl⟩ | ⟨-,hother⟩
  · rw [hout'] at hin
    cases hin
  · exact hother
 constructor
 · intro m k one two hone htwo hin hin'
   exact h.exclusive m k one two (hback hone hin) (hback htwo hin') hin hin'
 · intro hfree
   rw [view_setTask]
   apply h.settled
   intro other hmem
   obtain ⟨m,hother⟩:=List.mem_iff_getElem?.mp hmem
   by_cases hnm:n=m
   · subst hnm
     rw [hjob] at hother
     obtain rfl:=Option.some.inj hother
     exact hout
   · apply hfree other
     apply List.mem_of_getElem? (i := m)
     rw [getElem?_setTask,if_neg hnm,hother]
 · intro m other hother
   rw [view_setTask]
   rcases job_setTask hother with ⟨rfl,old,-,rfl⟩ | ⟨-,hother⟩
   · exact hfacts
   · exact h.facts m other hother
 · intro other hmem
   obtain ⟨m,hother⟩:=List.mem_iff_getElem?.mp hmem
   rcases job_setTask hother with ⟨rfl,old,hold,rfl⟩ | ⟨-,hother⟩
   · exact h.since_le old (List.mem_of_getElem? hold)
   · exact h.since_le other (List.mem_of_getElem? hother)
 · intro m other hother
   rcases job_setTask hother with ⟨rfl,old,hold,rfl⟩ | ⟨-,hother⟩
   · exact h.fresh n old hold
   · exact h.fresh m other hother
 · intro m hm
   rw [length_setTask] at hm
   exact h.numbered m hm
 · intro other hmem hin
   obtain ⟨m,hother⟩:=List.mem_iff_getElem?.mp hmem
   exact h.undeleted other
    (List.mem_of_getElem? (hback hother (inSection_of_makesReady hin))) hin
 · exact h.writer
 · exact h.increasing
 · exact h.staysDeleted

/-- A job is accepted; one that writes from its first step on, only while no other does. -/
theorem accept (h:Inv svc d s) {s' : Slot} {task:Task} (hjobs:s'.jobs=s.jobs)
  (hlog:s'.log=s.log) (htarget:s'.target=s.target)
  (hhold:Task.inSection task=true → Free s)
  (hfacts:∀ m, Facts svc d (view s') m task)
  (hothers:∀ (m:ℕ) (other:Job), s.jobs[m]? = some other →
   Facts svc d (view s') m other.task)
  (hsettled:Task.inSection task=false → Free s → Settled svc d (view s')) :
  Inv svc d (s'.accept task) := by
 have hcases:∀ {m:ℕ} {other:Job}, (s'.accept task).jobs[m]? = some other →
   s.jobs[m]? = some other ∨ (m=s.jobs.length ∧ other=⟨s.log.length,task⟩) := by
  intro m other hother
  change (s'.jobs ++ [⟨s'.log.length,task⟩])[m]? = some other at hother
  rw [hjobs,hlog] at hother
  by_cases hlt:m < s.jobs.length
  · rw [List.getElem?_append_left hlt] at hother
    exact Or.inl hother
  · rw [List.getElem?_append_right (by omega)] at hother
    rw [List.getElem?_singleton] at hother
    split at hother
    · exact Or.inr ⟨by omega,(Option.some.inj hother).symm⟩
    · cases hother
 have hlog' : (s'.accept task).log=s.log ++ [.accepted s.jobs.length]:=by
  change s'.log ++ _=_
  rw [hlog,hjobs]
 have hview:view (s'.accept task)=view s' :=view_accept task
 have hkept:∀ {other:Job}, other ∈ s.jobs → other ∈ (s'.accept task).jobs:=by
  intro other hmem
  change other ∈ s'.jobs ++ _
  rw [hjobs]
  exact List.mem_append_left _ hmem
 constructor
 · intro m k one two hone htwo hin hin'
   rcases hcases hone with hone | ⟨rfl,rfl⟩
   · rcases hcases htwo with htwo | ⟨rfl,rfl⟩
     · exact h.exclusive m k one two hone htwo hin hin'
     · exact absurd (hhold hin') (not_free hone hin)
   · rcases hcases htwo with htwo | ⟨rfl,rfl⟩
     · exact absurd (hhold hin) (not_free htwo hin')
     · rfl
 · intro hfree
   rw [hview]
   apply hsettled
   · apply hfree ⟨s.log.length,task⟩
     change _ ∈ s'.jobs ++ _
     rw [hlog]
     exact List.mem_append_right _ List.mem_cons_self
   · exact fun other hmem=>hfree other (hkept hmem)
 · intro m other hother
   rw [hview]
   rcases hcases hother with hother | ⟨rfl,rfl⟩
   · exact hothers m other hother
   · exact hfacts _
 · intro other hmem
   obtain ⟨m,hother⟩:=List.mem_iff_getElem?.mp hmem
   rw [hlog', List.length_append]
   rcases hcases hother with hother | ⟨rfl,rfl⟩
   · have hle:=h.since_le other (List.mem_of_getElem? hother)
     omega
   · dsimp only
     omega
 · intro m other hother
   rw [hlog']
   rcases hcases hother with hother | ⟨rfl,rfl⟩
   · rw [List.take_append_of_le_length (h.since_le other (List.mem_of_getElem? hother))]
     exact h.fresh m other hother
   · rw [List.take_append_of_le_length le_rfl,List.take_length]
     exact h.numbered _ le_rfl
 · intro m hm hmem
   have hlength:(s'.accept task).jobs.length=s.jobs.length+1:=by
    change (s'.jobs ++ _).length=_
    rw [hjobs]
    simp
   rw [hlength] at hm
   rw [hlog'] at hmem
   rcases List.mem_append.mp hmem with hmem | hmem
   · exact h.numbered m (by omega) hmem
   · have heq:=List.mem_singleton.mp hmem
     injection heq with heq
     omega
 · intro other hmem hin hdeleted
   obtain ⟨m,hother⟩:=List.mem_iff_getElem?.mp hmem
   rw [hlog'] at hdeleted
   rcases hcases hother with hother | ⟨rfl,rfl⟩
   · have hmem' :=List.mem_of_getElem? hother
     rw [List.drop_append_of_le_length (h.since_le other hmem')] at hdeleted
     rcases List.mem_append.mp hdeleted with hdeleted | hdeleted
     · exact h.undeleted other hmem' hin hdeleted
     · cases List.mem_singleton.mp hdeleted
   · rw [List.drop_append_of_le_length le_rfl,List.drop_length] at hdeleted
     cases List.mem_singleton.mp hdeleted
 · intro hsome
   rw [hlog', lastSaved_append]
   apply h.writer
   rw [←htarget]
   exact hsome
 · rw [hlog']
   apply h.increasing.append
   intro m v heq
   cases heq
 · rw [hlog']
   apply h.staysDeleted.append
   intro m origin heq
   cases heq

theorem accept_outside (h:Inv svc d s) {task:Task} (hout:Task.inSection task=false)
  (hfacts:∀ m, Facts svc d (view s) m task) : Inv svc d (s.accept task) := by
 apply h.accept rfl rfl rfl
 · intro hin
   rw [hout] at hin
   cases hin
 · exact hfacts
 · exact h.facts
 · exact fun _=>h.settled

end Inv

theorem inv_post (h:Inv svc d s) (full:Bool) (upload:Upload) :
  Inv svc d (postDeployment svc full upload s) := by
 have haccept:∀ r, Inv svc d (s.accept (.compiling r)):=
  fun r=>h.accept_outside rfl fun _=>trivial
 unfold postDeployment
 split
 · split
   · exact h
   · exact haccept _
 · exact haccept _
 · split
   · exact h
   · exact haccept _

theorem inv_put (h:Inv svc d s) (upload:Upload) : Inv svc d (putDeployment svc upload s) := by
 unfold putDeployment
 split
 · exact h
 · exact h.accept_outside rfl fun _=>trivial

theorem inv_delete (h:Inv svc d s) : Inv svc d (deleteDeployment s) := by
 unfold deleteDeployment
 split
 · exact h
 · exact h.accept_outside rfl fun _=>trivial

theorem inv_request (h:Inv svc d s)
  (hfree:∀ cached, s.entry=some (.pending cached) → Free s) :
  Inv svc d (triggerCompilationIfPending s) := by
 unfold triggerCompilationIfPending
 split
 · rename_i cached hentry
   have hquiet:=hfree cached hentry
   have hloading:Loading (view { s with entry:=some .compiling }):=
    ⟨rfl,(h.settled hquiet).counted⟩
   apply @Inv.accept svc d s h { s with entry:=some .compiling } .loadingSources rfl rfl rfl
   · exact fun _=>hquiet
   · exact fun _=>hloading
   · intro m other hother
     exact facts_outside (hquiet other (List.mem_of_getElem? hother)) (h.facts m other hother)
   · intro hout
     cases hout
 · exact h

end L4Ide.DeployJobsSteps
