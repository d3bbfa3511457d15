import L4Ide.DeployJobsSteps

set_option autoImplicit false

/-!
# What each job does in its writing part

The stages of a save, of a lazy load and of a delete, each from what holds before it to what
holds after it.
-/
namespace L4Ide.DeployJobsProgress
open BundleStore Compatibility DeployJobs DeployJobsLog DeployJobsConsistent DeployJobsSteps
open DeploymentVersions (running nextDeploymentVersion)

variable {svc:Service} {d:DeploymentId} {s:Slot} {n:ℕ} {job:Job}

/-! ## Versions -/

theorem depVersion_ne_empty (stored:StoredMetadata) : depVersion svc stored ≠ "" := by
 unfold depVersion
 dsimp only
 split
 · rw [←DeploymentVersions.first_eq]
   exact DeploymentVersions.next_ne_empty _ _ _
 · assumption

theorem running_depVersion (stored:StoredMetadata)
  (h:stored.smDeploymentVersion.getD "" = "") : running (depVersion svc stored)=0 := by
 unfold depVersion
 dsimp only
 rw [if_pos h,←DeploymentVersions.first_eq,DeploymentVersions.running_first]

theorem depVersion_of_some {stored:StoredMetadata} {v:Text}
  (h:stored.smDeploymentVersion=some v) (hne:v ≠ "") : depVersion svc stored=v := by
 unfold depVersion
 dsimp only
 rw [h,Option.getD_some,if_neg hne]

theorem svcVersion_of_some {stored:StoredMetadata} {v:Text}
  (h:stored.smServiceVersion=some v) :
  svcVersion svc stored = if v = "" then svc.serviceVersion else v := by
 unfold svcVersion
 rw [h]

theorem serviceVersion_of_svcVersion {stored:StoredMetadata} (h:svcVersion svc stored = "") :
  svc.serviceVersion = "" := by
 cases hstored:stored.smServiceVersion with
 | none=>
  unfold svcVersion at h
  rwa [hstored] at h
 | some v=>
  rw [svcVersion_of_some hstored] at h
  split at h
  · exact h
  · contradiction

def versioned (svc:Service) (stored:StoredMetadata) : StoredMetadata :=
 { stored with
   smServiceVersion:=some (svcVersion svc stored)
   smDeploymentVersion:=some (depVersion svc stored) }

theorem loadedMetadata_versioned (stored:StoredMetadata) (compiled:DeploymentMetadata) :
  loadedMetadata svc (versioned svc stored) compiled=loadedMetadata svc stored compiled := by
 have hdep:depVersion svc (versioned svc stored)=depVersion svc stored:=
  depVersion_of_some rfl (depVersion_ne_empty stored)
 have hsvc:svcVersion svc (versioned svc stored)=svcVersion svc stored:=by
  rw [@svcVersion_of_some svc (versioned svc stored) (svcVersion svc stored) rfl]
  split
  · rename_i hempty
    rw [serviceVersion_of_svcVersion hempty,hempty]
  · rfl
 unfold loadedMetadata
 rw [hdep,hsvc]
 rfl

theorem deployResult_metadata (entry:Option DeploymentState) (r:Request)
  (fns:List Function) (compiled:DeploymentMetadata) :
  (deployResult svc entry r fns compiled).metadata =
   loadedMetadata svc (deployResult svc entry r fns compiled).stored compiled := by
 have hdep:depVersion svc (deployResult svc entry r fns compiled).stored =
   (deployResult svc entry r fns compiled).metadata.metaDeploymentVersion :=
  depVersion_of_some rfl (DeploymentVersions.next_ne_empty _ _ _)
 have hsvc:svcVersion svc (deployResult svc entry r fns compiled).stored =
   svc.serviceVersion := by
  rw [@svcVersion_of_some svc _ svc.serviceVersion rfl]
  split <;> rfl
 unfold loadedMetadata
 rw [hdep,hsvc]
 rfl

theorem live_lt_deployResult {v:View} {r:Request} {fns:List Function}
  {compiled:DeploymentMetadata} (hcounted:Counted v)
  (hversion:∀ w, storedVersion v.target=some w →
   (prevMetadata v.entry).map DeploymentMetadata.metaDeploymentVersion=some w)
  (hcounter:∀ pm, prevMetadata v.entry=some pm →
   running pm.metaDeploymentVersion ≠ 2 ^ 63-1) {u:Text} (hlive:v.live u) :
  running u < running (deployResult svc v.entry r fns compiled).metadata.metaDeploymentVersion := by
 obtain ⟨w,hstored,hle⟩:=hcounted u hlive
 obtain ⟨pm,hpm,rfl⟩:=Option.map_eq_some_iff.mp (hversion w hstored)
 have hlt:=DeploymentVersions.running_lt_next svc.serviceMajor pm.metaDeploymentVersion
  (!(detectBreakingChanges (pm.metaFunctions.map ifaceFromSummary)
   (fns.map ifaceFromFunction)).isEmpty) (hcounter pm hpm)
 have heq:(deployResult svc v.entry r fns compiled).metadata.metaDeploymentVersion =
   nextDeploymentVersion svc.serviceMajor (some pm.metaDeploymentVersion)
    (!(detectBreakingChanges (pm.metaFunctions.map ifaceFromSummary)
     (fns.map ifaceFromFunction)).isEmpty) := by
  unfold deployResult
  dsimp only
  rw [hpm]
  rfl
 rw [heq]
 omega

theorem applicable_deployResult {r:Request} {fns:List Function}
  {compiled:DeploymentMetadata} {since:ℕ} (hmay:MayApply s since r)
  (hcounted:Counted (view s)) (hcompile:svc.compile d (filesOf r.sources) = .compiled fns compiled)
  (hgate:breaking r.gate fns=[]) :
  Applicable svc d (view s) r (deployResult svc s.entry r fns compiled) where
 made:=⟨compiled,hcompile,deployResult_metadata _ _ _ _⟩
 version:=rfl
 gate:=hmay.gate
 compatible:=hgate
 counts _ hlive := live_lt_deployResult hcounted hmay.version hmay.counter hlive

/-! ## Removing a directory -/

theorem removeEntry_of_ready {target:Option Directory} {removal:Removal}
  (h:RemovalReady target removal) :
  (∃ target' next, removeEntry removal target=some (target', some next) ∧
   RemovalReady target' next ∧ target.isSome) ∨
   removeEntry removal target=some (none,none) := by
 cases removal with
 | sources=>
  obtain ⟨dir,rfl⟩:=Option.isSome_iff_exists.mp h
  exact Or.inl ⟨_,_,rfl,⟨_,rfl,rfl⟩,rfl⟩
 | metadata=>
  obtain ⟨dir,rfl,hsources⟩:=h
  refine Or.inl ⟨_,_,rfl, ?_,rfl⟩
  change some _=some _
  rw [hsources]
  rfl
 | directory=>
  change target=_ at h
  subst h
  exact Or.inr rfl

/-! ## Saving -/

theorem settled_temp {v:View} (h:Settled svc d v) (temp:Option Directory) :
  Settled svc d { v with temp:=temp } := ⟨h.agrees,h.counted⟩

theorem applicable_store {v v' : View} {r:Request} {result:Result}
  (h:Applicable svc d v r result) (hentry:v'.entry=v.entry)
  (hlive:∀ u, v'.live u → v.live u) : Applicable svc d v' r result where
 made:=h.made
 version:=h.version
 gate := by
  rw [hentry]
  exact h.gate
 compatible:=h.compatible
 counts u hu := h.counts u (hlive u hu)

section Save

variable {r:Request} {result:Result} {since:ℕ}

theorem inv_creating (h:Inv svc d s)
  (hjob:s.jobs[n]? = some ⟨since,.saving r result .creating⟩) :
  Inv svc d (saveStep n r result .creating s) := by
 obtain ⟨happlies,htemp,hsettled⟩:=h.facts n _ hjob
 change s.temp=none at htemp
 unfold saveStep
 refine h.quietly hjob rfl ?_ (fun _=>rfl) ?_ ?_ ?_ ?_
 · rfl
 · rfl
 · refine ⟨applicable_store happlies rfl fun _ hu=>hu,⟨[],rfl, ?_⟩,settled_temp hsettled _⟩
   change withSources id s.temp=_
   rw [htemp]
   rfl
 · intro hout
   cases hout
 · exact id

theorem inv_writing (h:Inv svc d s) {left:List (FilePath × Text)}
  (hjob:s.jobs[n]? = some ⟨since,.saving r result (.writing left)⟩) :
  Inv svc d (saveStep n r result (.writing left) s) := by
 obtain ⟨happlies,⟨written,hwritten,htemp⟩,hsettled⟩:=h.facts n _ hjob
 change s.temp=_ at htemp
 cases left with
 | nil=>
  rw [List.append_nil] at hwritten
  subst hwritten
  refine h.quietly hjob rfl ?_ (fun _=>rfl) ?_ ?_ ?_ ?_
  · rfl
  · rfl
  · exact ⟨happlies,htemp,hsettled⟩
  · intro hout
    cases hout
  · exact id
 | cons e left=>
  refine h.quietly hjob rfl ?_ (fun _=>rfl) ?_ ?_ ?_ ?_
  · rfl
  · rfl
  · refine ⟨applicable_store happlies rfl fun _ hu=>hu,⟨written ++ [e], ?_, ?_⟩,
     settled_temp hsettled _⟩
    · rw [←hwritten,List.append_assoc]
      rfl
    · change withSources (putFile · e) s.temp=_
      have hfiles:filesOf (written ++ [e])=putFile (filesOf written) e:=
       List.foldl_append
      rw [htemp,hfiles]
      rfl
  · intro hout
    cases hout
  · exact id

theorem inv_savingMetadata (h:Inv svc d s)
  (hjob:s.jobs[n]? = some ⟨since,.saving r result .metadata⟩) :
  Inv svc d (saveStep n r result .metadata s) := by
 obtain ⟨happlies,htemp,hsettled⟩:=h.facts n _ hjob
 change s.temp=_ at htemp
 unfold saveStep
 rw [htemp]
 refine h.quietly hjob rfl ?_ (fun _=>rfl) ?_ ?_ ?_ ?_
 · rfl
 · rfl
 · exact ⟨applicable_store happlies rfl fun _ hu=>hu,rfl,settled_temp hsettled _⟩
 · intro hout
   cases hout
 · exact id

theorem inv_swapping (h:Inv svc d s)
  (hjob:s.jobs[n]? = some ⟨since,.saving r result .swapping⟩) :
  Inv svc d (saveStep n r result .swapping s) := by
 obtain ⟨happlies,htemp,hsettled⟩:=h.facts n _ hjob
 refine h.quietly hjob rfl ?_ (fun _=>rfl) ?_ ?_ ?_ ?_
 · rfl
 · rfl
 · refine ⟨happlies, ?_⟩
   split
   · rename_i hsome
     exact ⟨htemp,hsome⟩
   · rename_i hnone
     exact ⟨htemp,Option.not_isSome_iff_eq_none.mp hnone⟩
 · intro hout
   cases hout
 · exact id

theorem inv_removingOld (h:Inv svc d s) {removal:Removal}
  (hjob:s.jobs[n]? = some ⟨since,.saving r result (.removing removal)⟩) :
  Inv svc d (saveStep n r result (.removing removal) s) := by
 obtain ⟨happlies,htemp,hready⟩:=h.facts n _ hjob
 have happlies' :=fun target=>@applicable_store svc d (view s)
  (view { s with target:=target }) r result happlies rfl fun _ hu=>hu
 rcases removeEntry_of_ready hready with ⟨target,next,heq,hnext,hsome⟩ | heq
 · unfold saveStep
   dsimp only
   change removeEntry removal s.target=_ at heq
   rw [heq]
   refine h.quietly hjob rfl ?_ (fun _=>rfl) ?_ ?_ ?_ ?_
   · rfl
   · rfl
   · exact ⟨happlies' target,htemp,hnext⟩
   · intro hout
     cases hout
   · exact fun _=>hsome
 · unfold saveStep
   dsimp only
   change removeEntry removal s.target=_ at heq
   rw [heq]
   refine h.quietly hjob rfl ?_ (fun _=>rfl) ?_ ?_ ?_ ?_
   · rfl
   · rfl
   · exact ⟨happlies' none,htemp,rfl⟩
   · intro hout
     cases hout
   · intro hsome
     cases hsome

theorem inv_renaming (h:Inv svc d s)
  (hjob:s.jobs[n]? = some ⟨since,.saving r result .moving⟩) :
  Inv svc d (saveStep n r result .moving s) := by
 obtain ⟨happlies,htemp,htarget⟩:=h.facts n _ hjob
 change s.temp=_ at htemp
 change s.target=_ at htarget
 unfold saveStep
 rw [htemp,htarget]
 have hlive:∀ u, Live (s.log ++ [DeployJobs.Event.saved n]) u → Live s.log u:=
  fun u=>live_of_append (by simp)
 refine h.work hjob (Or.inl rfl) [DeployJobs.Event.saved n] ?_ ?_ ?_ ?_ ?_ ?_ ?_ ?_ ?_
 · rfl
 · rfl
 · refine ⟨applicable_store happlies rfl hlive,rfl, ?_⟩
   exact lastSaved_append _
 · intro hout
   cases hout
 · intro _ hmem
   have hundeleted:=h.undeleted _ (List.mem_of_getElem? hjob) rfl
   change DeployJobs.Event.deleted ∈ (s.log ++ [DeployJobs.Event.saved n]).drop since at hmem
   rw [List.drop_append_of_le_length (h.since_le _ (List.mem_of_getElem? hjob))] at hmem
   rcases List.mem_append.mp hmem with hmem | hmem
   · exact hundeleted hmem
   · cases List.mem_singleton.mp hmem
 · intro m hmem
   cases List.mem_singleton.mp hmem
 · intro _
   change (lastSaved (s.log ++ [DeployJobs.Event.saved n])).isSome
   rw [lastSaved_append]
   rfl
 · apply h.increasing.append
   intro m v heq
   cases heq
 · apply h.staysDeleted.append
   intro m origin heq
   cases heq

theorem inv_registering (h:Inv svc d s)
  (hjob:s.jobs[n]? = some ⟨since,.saving r result .registering⟩) :
  Inv svc d (saveStep n r result .registering s) := by
 obtain ⟨happlies,htarget,hsaved⟩:=h.facts n _ hjob
 change s.target=_ at htarget
 change lastSaved s.log=_ at hsaved
 obtain ⟨compiled,hcompile,hstamped⟩:=happlies.made
 unfold saveStep
 have hlog:s.log ++ [DeployJobs.Event.ready n (some n),
   DeployJobs.Event.applied n result.metadata.metaDeploymentVersion] =
   s.log ++ [.ready n (some n)] ++ [.applied n result.metadata.metaDeploymentVersion] := by
  simp
 have hlive:∀ u, Live (s.log ++ [.ready n (some n)]) u → Live s.log u:=
  fun u=>live_of_append (by simp)
 refine h.work hjob (Or.inl rfl)
  [DeployJobs.Event.ready n (some n),
   DeployJobs.Event.applied n result.metadata.metaDeploymentVersion] ?_ ?_ ?_ ?_ ?_ ?_ ?_ ?_ ?_
 · rfl
 · rfl
 · trivial
 · intro _
   constructor
   · rintro fns metadata heq
     cases heq
     refine ⟨bundle r result,n,htarget, ?_, ?_,filesOf r.sources,result.stored,compiled,
      Or.inl rfl,rfl,hcompile,hstamped⟩
     · change lastSaved (s.log ++ _)=_
       rw [hlog,lastSaved_append,lastSaved_append,hsaved]
     · change madeFrom (s.log ++ _)=_
       rw [hlog,madeFrom_append,madeFrom_append]
   · intro u hu
     refine ⟨result.metadata.metaDeploymentVersion, ?_, ?_⟩
     · change storedVersion s.target=_
       rw [htarget]
       exact happlies.version
     · change Live (s.log ++ _) u at hu
       rw [hlog,live_append] at hu
       rcases hu with ⟨m,heq⟩ | ⟨-,hu⟩
       · injection heq with _ heq
         rw [heq]
       · exact le_of_lt (happlies.counts u (hlive u hu))
 · intro hin
   cases hin
 · intro m hmem
   simp at hmem
 · intro _
   change (lastSaved (s.log ++ _)).isSome
   rw [hlog,lastSaved_append,lastSaved_append,hsaved]
   rfl
 · change Increasing (s.log ++ _)
   rw [hlog]
   apply Increasing.append
   · apply h.increasing.append
     intro m v heq
     cases heq
   · intro m v heq u hu
     injection heq with _ heq
     rw [←heq]
     exact happlies.counts u (hlive u hu)
 · change StaysDeleted (s.log ++ _)
   rw [hlog]
   apply StaysDeleted.append
   · apply h.staysDeleted.append
     intro m origin heq before after hbefore
     injection heq with heq
     rw [←heq]
     have hmem:=List.mem_of_getElem? hjob
     exact not_accepted_before (h.fresh n _ hjob) (h.undeleted _ hmem rfl) before after hbefore
   · intro m origin heq
     cases heq

theorem inv_saveStep (h:Inv svc d s) {stage:SaveStage}
  (hjob:s.jobs[n]? = some ⟨since,.saving r result stage⟩) :
  Inv svc d (saveStep n r result stage s) := by
 cases stage with
 | creating=>exact inv_creating h hjob
 | writing left=>exact inv_writing h hjob
 | metadata=>exact inv_savingMetadata h hjob
 | swapping=>exact inv_swapping h hjob
 | removing removal=>exact inv_removingOld h hjob
 | moving=>exact inv_renaming h hjob
 | registering=>exact inv_registering h hjob

theorem inv_versioning (h:Inv svc d s) {fns:List Function} {compiled:DeploymentMetadata}
  (hjob:s.jobs[n]? = some ⟨since,.versioning r fns compiled⟩) (hmay:MayApply s since r) :
  Inv svc d (taskStep svc d n (.versioning r fns compiled) s) := by
 obtain ⟨hcompile,hgate⟩:=h.facts n _ hjob
 have hsettled:=h.settled hmay.free
 refine h.work hjob (Or.inr hmay.free) [] ?_ ?_ ?_ ?_ ?_ ?_ ?_ ?_ ?_
 · rfl
 · exact (List.append_nil _).symm
 · exact ⟨applicable_deployResult hmay hsettled.counted hcompile hgate,hmay.clean,hsettled⟩
 · intro hout
   cases hout
 · exact fun _=>hmay.present
 · exact fun m=>List.not_mem_nil
 · exact h.writer
 · exact h.increasing
 · exact h.staysDeleted

end Save

/-! ## Loading -/

section Load

variable {since:ℕ}

theorem inv_loadsOn (h:Inv svc d s) {task next:Task}
  (hjob:s.jobs[n]? = some ⟨since,task⟩) (hin:Task.inSection task=true)
  (hin' : Task.inSection next=true)
  (hready:Task.makesReady next=true → Task.makesReady task=true)
  (hfacts:Facts svc d (view s) n next) :
  Inv svc d (s.setTask n next) := by
 refine h.quietly hjob hin ?_ hready ?_ ?_ ?_ ?_
 · rfl
 · rfl
 · exact hfacts
 · intro hout
   rw [hin'] at hout
   cases hout
 · exact id

theorem inv_loadingSources (h:Inv svc d s) (hjob:s.jobs[n]? = some ⟨since,.loadingSources⟩) :
  Inv svc d (taskStep svc d n .loadingSources s) := by
 have hloading:Loading (view s):=h.facts n _ hjob
 exact inv_loadsOn h hjob rfl rfl id ⟨hloading,rfl,rfl⟩

theorem inv_loadingMetadata (h:Inv svc d s) {sources:SourceFiles} {origin:Option ℕ}
  (hjob:s.jobs[n]? = some ⟨since,.loadingMetadata sources origin⟩) :
  Inv svc d (taskStep svc d n (.loadingMetadata sources origin) s) := by
 obtain ⟨hloading,hsources,horigin⟩:=h.facts n _ hjob
 change sources=l4Files (s.target.bind Directory.sources) at hsources
 unfold taskStep
 dsimp only
 split
 · rename_i stored hstored
   obtain ⟨dir,htarget,hdir⟩:=Option.bind_eq_some_iff.mp hstored
   rw [htarget] at hsources
   exact inv_loadsOn h hjob rfl rfl id ⟨hloading,horigin,dir,htarget,hdir,hsources⟩
 · exact inv_loadsOn h hjob rfl rfl id hloading

theorem inv_loadCompiling (h:Inv svc d s) {sources:SourceFiles} {stored:StoredMetadata}
  {origin:Option ℕ} (hjob:s.jobs[n]? = some ⟨since,.loadCompiling sources stored origin⟩) :
  Inv svc d (taskStep svc d n (.loadCompiling sources stored origin) s) := by
 obtain ⟨hloading,horigin,dir,htarget,hdir,hsources⟩:=h.facts n _ hjob
 unfold taskStep
 dsimp only
 split
 · rename_i fns compiled hcompile
   rw [hsources] at hcompile
   exact inv_loadsOn h hjob rfl rfl id ⟨hloading,horigin,dir,stored,compiled,htarget,
    ⟨Or.inr rfl,hdir,hcompile,rfl⟩,rfl⟩
 · exact inv_loadsOn h hjob rfl rfl id hloading
 · exact inv_loadsOn h hjob rfl rfl id hloading

theorem counted_backfilled {v:View} (h:Counted v) {dir:Directory}
  {stored stored' : StoredMetadata} (htarget:v.target=some dir)
  (hdir:dir.metadata=some stored) (hbackfill:backfilled svc stored=some stored') :
  Counted { v with target:=v.target.map (Directory.withMetadata stored') } := by
 unfold backfilled at hbackfill
 split at hbackfill
 · rename_i hempty
   obtain rfl:=Option.some.inj hbackfill
   intro u hu
   obtain ⟨w,hw,hle⟩:=h u hu
   refine ⟨depVersion svc stored, ?_, ?_⟩
   · dsimp only
     rw [htarget]
     rfl
   · have hstored:stored.smDeploymentVersion=some w:=by
      rw [htarget] at hw
      change (dir.metadata.bind StoredMetadata.smDeploymentVersion)=some w at hw
      rwa [hdir] at hw
     rw [running_depVersion stored hempty]
     rw [hstored,Option.getD_some] at hempty
     subst hempty
     exact hle
 · cases hbackfill

theorem inv_loadRegistering (h:Inv svc d s) {fns:List Function}
  {metadata:DeploymentMetadata} {backfill:Option StoredMetadata} {origin:Option ℕ}
  (hjob:s.jobs[n]? = some ⟨since,.loadRegistering fns metadata backfill origin⟩) :
  Inv svc d (taskStep svc d n (.loadRegistering fns metadata backfill origin) s) := by
 obtain ⟨hloading,horigin,dir,stored,compiled,htarget,hmade,hbackfill⟩:=h.facts n _ hjob
 change s.target=_ at htarget
 change origin=lastSaved s.log at horigin
 obtain ⟨k,hsaved⟩:=Option.isSome_iff_exists.mp (h.writer (by rw [htarget]; rfl))
 have hcounted:Counted (view ({ s with entry:=some (.ready fns metadata) }.note
   [.ready n origin])) := by
  intro u hu
  exact hloading.counted u (live_of_append (by simp) hu)
 have hagrees:∀ target dir' stored', target=some dir' →
   MadeOf svc d dir' fns metadata (l4Files dir.sources) stored' compiled →
   Agrees svc d { view ({ s with entry:=some (.ready fns metadata) }.note
    [.ready n origin]) with target:=target } := by
  intro target dir' stored' htarget' hmade' fns' metadata' heq
  cases heq
  refine ⟨dir', k,htarget', ?_, ?_,_,_,_,hmade'⟩
  · change lastSaved (s.log ++ _)=_
    rw [lastSaved_append,hsaved]
  · change madeFrom (s.log ++ _)=_
    rw [madeFrom_append,horigin,hsaved]
 have hsettled:Settled svc d (view ({ s with entry:=some (.ready fns metadata) }.note
   [.ready n origin])) := ⟨hagrees s.target dir stored htarget hmade,hcounted⟩
 unfold taskStep
 refine h.work hjob (Or.inl rfl) [DeployJobs.Event.ready n origin] ?_ ?_ ?_ ?_ ?_ ?_ ?_ ?_ ?_
 · rfl
 · rfl
 · cases hcase:backfill with
   | none=>trivial
   | some stored' =>
    rw [hcase] at hbackfill
    refine ⟨rfl,hsettled, ?_,counted_backfilled hcounted htarget hmade.keeps hbackfill.symm⟩
    apply hagrees _ (dir.withMetadata stored') stored'
    · change s.target.map _=_
      rw [htarget]
      rfl
    · refine ⟨Or.inr rfl,rfl,hmade.compiles, ?_⟩
      rw [hmade.stamped]
      have hversioned:stored' = versioned svc stored:=by
       unfold backfilled at hbackfill
       split at hbackfill
       · exact Option.some.inj hbackfill
       · cases hbackfill
      rw [hversioned,loadedMetadata_versioned]
 · exact fun _=>hsettled
 · intro _ hmem
   change DeployJobs.Event.deleted ∈ (s.log ++ _).drop since at hmem
   rw [List.drop_append_of_le_length (h.since_le _ (List.mem_of_getElem? hjob))] at hmem
   rcases List.mem_append.mp hmem with hmem | hmem
   · exact h.undeleted _ (List.mem_of_getElem? hjob) rfl hmem
   · cases List.mem_singleton.mp hmem
 · intro m hmem
   cases List.mem_singleton.mp hmem
 · intro _
   change (lastSaved (s.log ++ _)).isSome
   rw [lastSaved_append,hsaved]
   rfl
 · apply h.increasing.append
   intro m v heq
   cases heq
 · apply h.staysDeleted.append
   intro m origin' heq before after hbefore
   injection heq with heq
   rw [←heq]
   have hmem:=List.mem_of_getElem? hjob
   exact not_accepted_before (h.fresh n _ hjob) (h.undeleted _ hmem rfl) before after hbefore

theorem inv_loadFailing (h:Inv svc d s) {err:Text}
  (hjob:s.jobs[n]? = some ⟨since,.loadFailing err⟩) :
  Inv svc d (taskStep svc d n (.loadFailing err) s) := by
 have hloading:Loading (view s):=h.facts n _ hjob
 unfold taskStep
 refine h.quietly hjob rfl ?_ (fun _=>rfl) ?_ ?_ ?_ ?_
 · rfl
 · rfl
 · trivial
 · intro _
   constructor
   · intro fns metadata heq
     cases heq
   · exact hloading.counted
 · exact id

theorem inv_backfilling (h:Inv svc d s) {stored:StoredMetadata}
  (hjob:s.jobs[n]? = some ⟨since,.backfilling stored⟩) :
  Inv svc d (taskStep svc d n (.backfilling stored) s) := by
 obtain ⟨-,-,hafter⟩:=h.facts n _ hjob
 unfold taskStep
 refine h.quietly hjob rfl ?_ (fun _=>rfl) ?_ ?_ ?_ ?_
 · rfl
 · rfl
 · trivial
 · exact fun _=>hafter
 · intro hsome
   rwa [Option.isSome_map] at hsome

end Load

/-! ## Deleting -/

section Delete

variable {since:ℕ}

theorem inv_checkingStore (h:Inv svc d s) (hjob:s.jobs[n]? = some ⟨since,.checkingStore⟩)
  (hfree:Free s) :
  Inv svc d (taskStep svc d n .checkingStore s) := by
 unfold taskStep
 refine h.work hjob (Or.inr hfree) [] ?_ ?_ ?_ ?_ ?_ ?_ ?_ ?_ ?_
 · rfl
 · exact (List.append_nil _).symm
 · split
   · assumption
   · rename_i hnone
     exact Option.not_isSome_iff_eq_none.mp hnone
 · intro hout
   split at hout <;> cases hout
 · intro hready
   split at hready <;> cases hready
 · exact fun m=>List.not_mem_nil
 · exact h.writer
 · exact h.increasing
 · exact h.staysDeleted

theorem inv_removing (h:Inv svc d s) {removal:Removal}
  (hjob:s.jobs[n]? = some ⟨since,.removing removal⟩) :
  Inv svc d (taskStep svc d n (.removing removal) s) := by
 have hready:RemovalReady s.target removal:=h.facts n _ hjob
 unfold taskStep
 dsimp only
 rcases removeEntry_of_ready hready with ⟨target,next,heq,hnext,hsome⟩ | heq
 · rw [heq]
   refine h.quietly hjob rfl ?_ id ?_ ?_ ?_ ?_
   · rfl
   · rfl
   · exact hnext
   · intro hout
     cases hout
   · exact fun _=>hsome
 · rw [heq]
   refine h.quietly hjob rfl ?_ id ?_ ?_ ?_ ?_
   · rfl
   · rfl
   · rfl
   · intro hout
     cases hout
   · intro hsome
     cases hsome

theorem inv_unregistering (h:Inv svc d s) (hjob:s.jobs[n]? = some ⟨since,.unregistering⟩) :
  Inv svc d (taskStep svc d n .unregistering s) := by
 have htarget:s.target=none:=h.facts n _ hjob
 unfold taskStep
 refine h.work hjob (Or.inl rfl) [DeployJobs.Event.deleted] ?_ ?_ ?_ ?_ ?_ ?_ ?_ ?_ ?_
 · rfl
 · rfl
 · trivial
 · intro _
   constructor
   · intro fns metadata heq
     cases heq
   · intro u hu
     rcases live_append.mp hu with ⟨m,heq⟩ | ⟨hne,-⟩
     · cases heq
     · exact absurd rfl hne
 · intro hin
   cases hin
 · intro m hmem
   cases List.mem_singleton.mp hmem
 · intro hsome
   change s.target.isSome at hsome
   rw [htarget] at hsome
   cases hsome
 · apply h.increasing.append
   intro m v heq
   cases heq
 · apply h.staysDeleted.append
   intro m origin heq
   cases heq

end Delete

/-! ## All steps -/

theorem inv_stops (h:Inv svc d s) {since:ℕ} {task:Task}
  (hjob:s.jobs[n]? = some ⟨since,task⟩)
  (hsettled:Task.inSection task=true → Settled svc d (view s)) :
  Inv svc d (s.setTask n .ended) := by
 cases hin:Task.inSection task with
 | false=>exact h.outside hjob hin rfl trivial
 | true=>
  refine h.quietly hjob hin ?_ ?_ ?_ ?_ ?_ ?_
  · rfl
  · intro hready
    cases hready
  · rfl
  · trivial
  · exact fun _=>hsettled hin
  · exact id

theorem inv_compiling (h:Inv svc d s) {since:ℕ} {r:Request}
  (hjob:s.jobs[n]? = some ⟨since,.compiling r⟩) :
  Inv svc d (taskStep svc d n (.compiling r) s) := by
 unfold taskStep
 dsimp only
 split
 · rename_i fns compiled hcompile
   split
   · rename_i hgate
     exact h.outside hjob rfl rfl ⟨hcompile,hgate⟩
   · exact h.outside hjob rfl rfl trivial
 · exact h.outside hjob rfl rfl trivial
 · exact h.outside hjob rfl rfl trivial

theorem inv_taskStep (h:Inv svc d s) {since:ℕ} {task:Task}
  (hjob:s.jobs[n]? = some ⟨since,task⟩) (hfree:task = .checkingStore → Free s)
  (hmay:∀ r fns metadata, task = .versioning r fns metadata → MayApply s since r) :
  Inv svc d (taskStep svc d n task s) := by
 cases task with
 | compiling r=>exact inv_compiling h hjob
 | versioning r fns metadata=>exact inv_versioning h hjob (hmay r fns metadata rfl)
 | saving r result stage=>exact inv_saveStep h hjob
 | loadingSources=>exact inv_loadingSources h hjob
 | loadingMetadata sources origin=>exact inv_loadingMetadata h hjob
 | loadCompiling sources stored origin=>exact inv_loadCompiling h hjob
 | loadRegistering fns metadata backfill origin=>exact inv_loadRegistering h hjob
 | loadFailing err=>exact inv_loadFailing h hjob
 | backfilling stored=>exact inv_backfilling h hjob
 | checkingStore=>exact inv_checkingStore h hjob (hfree rfl)
 | removing removal=>exact inv_removing h hjob
 | unregistering=>exact inv_unregistering h hjob
 | ended=>exact h

theorem inv_taskFailure (h:Inv svc d s) {since:ℕ} {task:Task}
  (hjob:s.jobs[n]? = some ⟨since,task⟩) (hfails:Task.failsBadly task=false) :
  Inv svc d (taskFailure n task s) := by
 have hfacts:=h.facts n _ hjob
 cases task with
 | compiling r=>
  apply inv_stops h hjob
  intro hin
  cases hin
 | versioning r fns metadata=>exact h
 | saving r result stage=>
  cases stage with
  | creating=>exact inv_stops h hjob fun _=>hfacts.2.2
  | writing left=>exact inv_stops h hjob fun _=>hfacts.2.2
  | metadata=>exact inv_stops h hjob fun _=>hfacts.2.2
  | swapping=>exact h
  | removing removal=>cases hfails
  | moving=>cases hfails
  | registering=>exact h
 | loadingSources=>exact inv_loadsOn h hjob rfl rfl id hfacts
 | loadingMetadata sources origin=>exact inv_loadsOn h hjob rfl rfl id hfacts.1
 | loadCompiling sources stored origin=>exact inv_loadsOn h hjob rfl rfl id hfacts.1
 | loadRegistering fns metadata backfill origin=>exact h
 | loadFailing err=>exact h
 | backfilling stored=>exact inv_stops h hjob fun _=>hfacts.2.1
 | checkingStore=>exact h
 | removing removal=>cases hfails
 | unregistering=>exact h
 | ended=>exact h

theorem inv_slotStep (h:Inv svc d s) (full:Bool) {action:Action}
  (hcareful:CarefulSlot s action) : Inv svc d (slotStep svc full d action s) := by
 cases action with
 | post upload=>exact inv_post h full upload
 | put upload=>exact inv_put h upload
 | delete=>exact inv_delete h
 | request=>exact inv_request h hcareful
 | step m=>
  unfold slotStep
  dsimp only
  split
  · rename_i job hjob
    obtain ⟨hfree,hmay⟩:=hcareful job hjob
    exact inv_taskStep h hjob hfree hmay
  · exact h
 | fail m=>
  unfold slotStep
  dsimp only
  split
  · rename_i job hjob
    exact inv_taskFailure h hjob (hcareful job hjob)
  · exact h

end L4Ide.DeployJobsProgress
