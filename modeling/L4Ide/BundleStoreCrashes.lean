import L4Ide.BundleStoreLoads

set_option autoImplicit false

/-!
# The bundle store over runs with crashes

A run is any sequence of saves, cut off anywhere or not, of deletions and of cleanups. When no
save is cut off between its first removal and its rename, or goes through on what an earlier
one left behind, every step changes the stored bundle of one deployment, from the old to the
new.
-/
namespace L4Ide.BundleStore
open DirectoryTree InterruptiblePrograms

/-! ## Runs -/

inductive Event
 | save (deployId:Text) (sources:List (FilePath × Text)) (metadata:StoredMetadata)
   (cut:Option ℕ)
 | cleanup
 | delete (deployId:Text)

/-- What an event makes of the store; a save may be cut off after any number of operations. -/
def Event.after (lib:Imports) : Event → Store → Store
 | .save deployId sources metadata none=>(saveBundle lib deployId sources metadata).last
 | .save deployId sources metadata (some k)=>
  (saveBundle lib deployId sources metadata).cutAt k
 | .cleanup=>cleanupStore.last
 | .delete deployId=>(deleteBundle lib deployId).last

def storeAfter (lib:Imports) (events:List Event) (s:Store) : Store :=
 events.foldl (fun s e=>e.after lib s) s

def endsInTmp (deployId:Text) : Bool := tmpSuffix.isSuffixOf deployId.toList

/-- A save is undisturbed when it is cut off before the swap, or goes through and finds no
    source in its temp directory. -/
def Event.Undisturbed (lib:Imports) (s:Store) : Event → Prop
 | .save deployId sources metadata cut=>
  endsInTmp deployId=false ∧
   ((∃ k, cut=some k ∧ k ≤ (writeBundle lib deployId sources metadata).length s) ∨
    (∀ k, cut=some k → (saveBundle lib deployId sources metadata).length s ≤ k) ∧
     ∀ p, s.contentAt (tmpName deployId :: "sources".toList::p)=none)
 | .cleanup=>True
 | .delete _=>True

/-- Every event of the run is undisturbed in the store in which it happens. -/
def Undisturbed (lib:Imports) : List Event → Store → Prop
 | [], _=>True
 | e::events, s=>e.Undisturbed lib s ∧ Undisturbed lib events (e.after lib s)

def completeBundle (sources:List (FilePath × Text)) (metadata:StoredMetadata) :
  SourceMap × StoredMetadata := (l4Sources (written sources),metadata)

def SameElsewhere (lib:Imports) (deployId:Text) (s s' : Store) : Prop :=
 ∀ other, other ≠ deployId → endsInTmp other=false →
  loadBundle lib other s' = loadBundle lib other s

/-- What an event may do to the stored bundles. -/
def Event.Atomic (lib:Imports) (s s' : Store) : Event → Prop
 | .save deployId sources metadata cut=>
  SameElsewhere lib deployId s s' ∧
   (loadBundle lib deployId s' = loadBundle lib deployId s ∨
    loadBundle lib deployId s' = .ok (completeBundle sources metadata)) ∧
   (cut=none → (saveBundle lib deployId sources metadata).result s = .ok () →
    loadBundle lib deployId s' = .ok (completeBundle sources metadata))
 | .cleanup=>∀ deployId, endsInTmp deployId=false →
  loadBundle lib deployId s' = loadBundle lib deployId s
 | .delete deployId=>
  SameElsewhere lib deployId s s' ∧ ∃ e, loadBundle lib deployId s' = .error e

section Steps

variable {lib:Imports} {deployId:Text} {sources:List (FilePath × Text)}
 {metadata:StoredMetadata} {s s' : Store}

theorem toList_ne_tmpName {other:Text} (h:endsInTmp other=false) :
  other.toList ≠ tmpName deployId := by
 intro heq
 have hsuffix:tmpSuffix <:+ other.toList:=heq ▸ List.suffix_append _ _
 rw [←List.isSuffixOf_iff_suffix] at hsuffix
 exact Bool.false_ne_true (h.symm.trans hsuffix)

theorem loads_same_of_outside (h:Outside (tmpName deployId) s s') (other:Text)
  (hother:endsInTmp other=false) : loadBundle lib other s' = loadBundle lib other s :=
 loadBundle_congr (h.same _ (toList_ne_tmpName hother))

variable (metadata) in
theorem outside_of_writes (hsafe:isSafeDeploymentId lib deployId=true)
  (hpaths:∀ source ∈ sources, isSafeRelativePath lib source.1=true) (hs:s.Distinct) :
  (∀ k, Outside (tmpName deployId) s
   ((writeBundle lib deployId sources metadata).cutAt k s)) ∧
  Outside (tmpName deployId) s ((writeBundle lib deployId sources metadata).last s) := by
 have hwithin:=staysWithin_writeBundle metadata (plain_of_safe hsafe) hpaths s
 have hstart:Outside (tmpName deployId) s s:=⟨hs,fun _ _=>rfl⟩
 exact ⟨fun k=>hwithin.cutAt hstart hstart k,hwithin.last hstart hstart⟩

theorem saveBundle_of_safe (hsafe:isSafeDeploymentId lib deployId=true)
  (hpaths:∀ source ∈ sources, isSafeRelativePath lib source.1=true) :
  saveBundle lib deployId sources metadata =
   writeBundle lib deployId sources metadata >>= fun _=>swapBundle deployId := by
 have hall:(sources.all fun source=>isSafeRelativePath lib source.1)=true:=
  List.all_eq_true.mpr hpaths
 unfold saveBundle
 rw [hsafe,hall]
 rfl

variable (metadata s) in
theorem saveBundle_refused (h:¬(isSafeDeploymentId lib deployId=true ∧
  ∀ source ∈ sources, isSafeRelativePath lib source.1=true)) :
  ∃ e, saveBundle lib deployId sources metadata s=([],.error e) := by
 unfold saveBundle
 cases hsafe:isSafeDeploymentId lib deployId with
 | false=>exact ⟨_,rfl⟩
 | true=>
  have hall:(sources.all fun source=>isSafeRelativePath lib source.1)=false:=by
   rw [Bool.eq_false_iff]
   intro hall
   exact h ⟨hsafe,List.all_eq_true.mp hall⟩
  rw [hall]
  exact ⟨_,rfl⟩

theorem written_of_writes (hsafe:isSafeDeploymentId lib deployId=true)
  (hpaths:∀ source ∈ sources, isSafeRelativePath lib source.1=true)
  (hclean:∀ p, s.contentAt (tmpName deployId :: "sources".toList::p)=none)
  (hok:(writeBundle lib deployId sources metadata).result s = .ok ())
  (heq:(writeBundle lib deployId sources metadata).last s=s') :
  ∃ d, s'.lookup (tmpName deployId)=some (.dir d) ∧
   (∀ p, d.contentAt ("sources".toList::p)=written sources p) ∧
   d.contentAt ["metadata.json".toList]=some (lib.encode metadata) := by
 obtain ⟨-,hend,-⟩:=triple_writeBundle metadata (plain_of_safe hsafe)
  hpaths s hclean
 obtain ⟨hsources,hmeta⟩:=hend () hok
 rw [heq] at hsources hmeta
 obtain ⟨e,he,hcontent⟩ : ∃ e, s'.lookup (tmpName deployId)=some e ∧
   (Entry.find ["metadata.json".toList] e).bind Entry.content=some (lib.encode metadata) := by
  rw [contentAt_cons] at hmeta
  exact Option.bind_eq_some_iff.mp hmeta
 cases e with
 | file t=>cases hcontent
 | dir d=>
  have hfind:s'.find [tmpName deployId]=some (.dir d):=by
   rw [Dir.find_singleton,he]
  refine ⟨d,he, ?_,hcontent⟩
  intro p
  rw [←hsources p]
  exact (Dir.contentAt_of_dir hfind ("sources".toList::p)).symm

theorem loads_of_renamed {s₁:Store} (hsafe:isSafeDeploymentId lib deployId=true)
  (hcodec:lib.decode (lib.encode metadata) = .ok metadata)
  (hout:Outside (tmpName deployId) s s₁)
  (hnew:∃ d, s₁.lookup (tmpName deployId)=some (.dir d) ∧
   (∀ p, d.contentAt ("sources".toList::p)=written sources p) ∧
   d.contentAt ["metadata.json".toList]=some (lib.encode metadata))
  (hrenamed:Renamed (tmpName deployId) deployId.toList s₁ s') :
  SameElsewhere lib deployId s s' ∧
   loadBundle lib deployId s' = .ok (completeBundle sources metadata) := by
 obtain ⟨d,hdir,hsources,hmeta⟩:=hnew
 have hfind:s'.find [deployId.toList]=some (.dir d):=by
  rw [Dir.find_singleton,hrenamed.moved,hdir]
 constructor
 · intro other hne hother
   apply loadBundle_congr
   have hlist:other.toList ≠ deployId.toList:=fun heq=>hne (String.toList_inj.mp heq)
   rw [hrenamed.same _ (toList_ne_tmpName hother) hlist,hout.same _ (toList_ne_tmpName hother)]
 · apply loadBundle_of_contents hsafe hrenamed.distinct hcodec
   · rw [←hmeta]
     exact Dir.contentAt_of_dir hfind ["metadata.json".toList]
   · intro p
     rw [←hsources p]
     exact Dir.contentAt_of_dir hfind ("sources".toList::p)

/-- A save that nobody cuts off puts the whole new bundle in place or changes only its temp
    directory. -/
theorem saveBundle_last (hs:s.Distinct) (hcodec:lib.decode (lib.encode metadata) = .ok metadata)
  (hclean:∀ p, s.contentAt (tmpName deployId :: "sources".toList::p)=none)
  (heq:(saveBundle lib deployId sources metadata).last s=s') :
  s'.Distinct ∧
  (((saveBundle lib deployId sources metadata).result s = .ok () ∧
    SameElsewhere lib deployId s s' ∧
    loadBundle lib deployId s' = .ok (completeBundle sources metadata)) ∨
   (∃ e, (saveBundle lib deployId sources metadata).result s = .error e) ∧
    Outside (tmpName deployId) s s') := by
 subst heq
 by_cases hguard:isSafeDeploymentId lib deployId=true ∧
   ∀ source ∈ sources, isSafeRelativePath lib source.1=true
 · obtain ⟨hsafe,hpaths⟩:=hguard
   obtain ⟨-,hout⟩:=outside_of_writes metadata hsafe hpaths hs
   rw [saveBundle_of_safe hsafe hpaths]
   cases hresult:(writeBundle lib deployId sources metadata).result s with
   | error e=>
    have hlast:(writeBundle lib deployId sources metadata >>= fun _=>
      swapBundle deployId).last s=(writeBundle lib deployId sources metadata).last s := by
     unfold Program.last
     rw [Program.bind_error hresult]
    have herror:(writeBundle lib deployId sources metadata >>= fun _=>
      swapBundle deployId).result s = .error e := by
     unfold Program.result
     rw [Program.bind_error hresult]
    rw [hlast]
    exact ⟨hout.distinct,Or.inr ⟨⟨e,herror⟩,hout⟩⟩
   | ok u=>
    have hnew:=written_of_writes hsafe hpaths hclean hresult rfl
    obtain ⟨d,hdir,-⟩:=id hnew
    rw [Program.result_bind_ok hresult,Program.last_bind_ok hresult]
    rcases swapBundle_cases (plain_of_safe hsafe) hout.distinct hdir with
     ⟨hok,hrenamed⟩ | ⟨⟨e,herror⟩,hsame⟩
    · exact ⟨hrenamed.distinct,Or.inl ⟨hok,loads_of_renamed hsafe hcodec hout hnew hrenamed⟩⟩
    · rw [hsame]
      exact ⟨hout.distinct,Or.inr ⟨⟨e,herror⟩,hout⟩⟩
 · obtain ⟨e,hrefused⟩:=saveBundle_refused metadata s hguard
   unfold Program.last Program.result
   rw [hrefused]
   exact ⟨hs,Or.inr ⟨⟨e,rfl⟩,hs,fun _ _=>rfl⟩⟩

theorem saveBundle_cut (hs:s.Distinct) {k:ℕ}
  (hk:k ≤ (writeBundle lib deployId sources metadata).length s) :
  Outside (tmpName deployId) s ((saveBundle lib deployId sources metadata).cutAt k s) := by
 by_cases hguard:isSafeDeploymentId lib deployId=true ∧
   ∀ source ∈ sources, isSafeRelativePath lib source.1=true
 · obtain ⟨hsafe,hpaths⟩:=hguard
   rw [saveBundle_of_safe hsafe hpaths,Program.cutAt_bind hk]
   exact (outside_of_writes metadata hsafe hpaths hs).1 k
 · obtain ⟨e,hrefused⟩:=saveBundle_refused metadata s hguard
   unfold Program.cutAt
   rw [hrefused,List.take_nil]
   exact ⟨hs,fun _ _=>rfl⟩

/-- Entries that are not temp directories are what they were. -/
structure Kept (s₀ s:Store) : Prop where
 distinct : s.Distinct
 same : ∀ m, tmpSuffix.isSuffixOf m=false → s.lookup m=s₀.lookup m

theorem Kept.outside {n:Name} {s₀:Store} (h:Kept s₀ s) (hn:tmpSuffix.isSuffixOf n=true)
  (hout:Outside n s s') : Kept s₀ s' := by
 refine ⟨hout.distinct, ?_⟩
 intro m hm
 have hne:m ≠ n:=by
  rintro rfl
  exact Bool.false_ne_true (hm.symm.trans hn)
 rw [hout.same m hne,h.same m hm]

theorem cleanupStore_kept (hs:s.Distinct) : Kept s (cleanupStore.last s) := by
 have hclean:Triple (Kept s) cleanupStore (fun _=>Kept s) (Kept s) (Kept s):=by
  unfold cleanupStore
  apply Triple.bind (Q := fun _=>Kept s) (triple_ask fun _ h=>h)
  intro entries
  apply triple_forM_const
  intro d hd
  have hsuffix:tmpSuffix.isSuffixOf d=true:=by simpa using (List.mem_filter.mp hd).2
  have hremove:Triple (Kept s) (removeDirectoryRecursive [d]) (fun _=>Kept s) (Kept s)
    (Kept s) := by
   apply triple_of_state
   intro s₁ hs₁
   have hwithin:StaysWithin d s₁ (removeDirectoryRecursive [d]):=
    staysWithin_removeDirectoryRecursive []
   apply hwithin.mono
   · rintro _ rfl
     exact ⟨hs₁.distinct,fun _ _=>rfl⟩
   · exact fun _ _ hout=>hs₁.outside hsuffix hout
   · exact fun _ hout=>hs₁.outside hsuffix hout
   · exact fun _ hout=>hs₁.outside hsuffix hout
  exact hremove.catchError fun _=>triple_pure fun _ h=>h
 have hstart:Kept s s:=⟨hs,fun _ _=>rfl⟩
 exact hclean.last hstart hstart

theorem cleanupStore_loads (hs:s.Distinct) (h:endsInTmp deployId=false) :
  loadBundle lib deployId (cleanupStore.last s)=loadBundle lib deployId s :=
 loadBundle_congr ((cleanupStore_kept hs).same _ h)

theorem deleteBundle_absent (h:isSafeDeploymentId lib deployId=false ∨
  doesDirectoryExist [deployId.toList] s=false) :
  (deleteBundle lib deployId).last s=s := by
 unfold deleteBundle
 cases hsafe:isSafeDeploymentId lib deployId with
 | false=>rfl
 | true=>
  have hnone:doesDirectoryExist [deployId.toList] s=false:=by
   rcases h with h | h
   · exact absurd (hsafe.symm.trans h).symm Bool.false_ne_true
   · exact h
  rw [if_pos rfl,resolve_plain (plain_of_safe hsafe)]
  unfold Program.last
  rw [Program.ask_bind,hnone]
  rfl

theorem deleteBundle_present {d:Dir Name Text} (hs:s.Distinct)
  (hsafe:isSafeDeploymentId lib deployId=true)
  (hdir:s.lookup deployId.toList=some (.dir d)) :
  (deleteBundle lib deployId).last s=(removeDirectoryRecursive [deployId.toList]).last s := by
 have hexists:doesDirectoryExist [deployId.toList] s=true:=by
  unfold doesDirectoryExist
  rw [Dir.find_singleton,hdir]
 obtain ⟨hresult,-⟩:=removeDirectoryRecursive_ok hs hdir
 have hok:(removeDirectoryRecursive [deployId.toList] >>= fun _=>
   (pure true:IOAction Bool)).result s = .ok true := by
  rw [Program.result_bind_ok hresult]
  rfl
 unfold deleteBundle
 rw [hsafe,if_pos rfl,resolve_plain (plain_of_safe hsafe)]
 unfold Program.last
 rw [Program.ask_bind,hexists]
 change (Program.catchError (removeDirectoryRecursive [deployId.toList] >>= fun _=>
   (pure true:IOAction Bool)) _ s).1.getLastD s=_
 rw [Program.catchError_ok hok,Program.passed_bind_ok hresult]
 change ((removeDirectoryRecursive [deployId.toList] s).1 ++ []).getLastD s=_
 rw [List.append_nil]

variable (lib deployId) in
theorem deleteBundle_last (hs:s.Distinct) :
  Outside deployId.toList s ((deleteBundle lib deployId).last s) ∧
   ∃ e, loadBundle lib deployId ((deleteBundle lib deployId).last s) = .error e := by
 have hstart:Outside deployId.toList s s:=⟨hs,fun _ _=>rfl⟩
 cases hsafe:isSafeDeploymentId lib deployId with
 | false=>
  rw [deleteBundle_absent (Or.inl hsafe)]
  refine ⟨hstart, ?_⟩
  unfold loadBundle
  rw [hsafe]
  exact ⟨_,rfl⟩
 | true=>
  by_cases hdir:∃ d, s.lookup deployId.toList=some (.dir d)
  · obtain ⟨d,hdir⟩:=hdir
    rw [deleteBundle_present hs hsafe hdir]
    obtain ⟨-,hnone⟩:=removeDirectoryRecursive_ok hs hdir
    refine ⟨(staysWithin_removeDirectoryRecursive []).last hstart hstart, ?_⟩
    apply loadBundle_absent
    intro d' hd'
    rw [hnone] at hd'
    cases hd'
  · have hnot:∀ d, s.lookup deployId.toList ≠ some (.dir d):=fun d hd=>hdir ⟨d,hd⟩
    have hnone:doesDirectoryExist [deployId.toList] s=false:=by
     unfold doesDirectoryExist
     rw [Dir.find_singleton]
     split
     · rename_i d hd
       exact absurd hd (hnot d)
     · rfl
    rw [deleteBundle_absent (Or.inr hnone)]
    exact ⟨hstart,loadBundle_absent hnot⟩

end Steps

section Atomicity

variable {lib:Imports}

/-- One undisturbed event: the store stays well-formed, and the stored bundles change
    atomically. -/
theorem Event.atomic {e:Event} {s:Store} (hs:s.Distinct)
  (hcodec:∀ deployId sources metadata cut, e = .save deployId sources metadata cut →
   lib.decode (lib.encode metadata) = .ok metadata)
  (h:e.Undisturbed lib s) : (e.after lib s).Distinct ∧ e.Atomic lib s (e.after lib s) := by
 cases e with
 | save deployId sources metadata cut=>
  obtain ⟨htmp,⟨k,rfl,hk⟩ | ⟨hthrough,hclean⟩⟩:=h
  · have hout:=saveBundle_cut hs hk
    refine ⟨hout.distinct, ?_, ?_, ?_⟩
    · intro other _ hother
      exact loads_same_of_outside hout other hother
    · exact Or.inl (loads_same_of_outside hout deployId htmp)
    · intro hcut
      cases hcut
  · have hafter:(saveBundle lib deployId sources metadata).last s =
      (Event.save deployId sources metadata cut).after lib s := by
     cases cut with
     | none=>rfl
     | some k=>exact (Program.cutAt_eq_last (hthrough k rfl)).symm
    obtain ⟨hdistinct,⟨-,hother,hload⟩ | ⟨⟨err,herror⟩,hout⟩⟩:=
     saveBundle_last hs (hcodec _ _ _ _ rfl) hclean hafter
    · exact ⟨hdistinct,hother,Or.inr hload,fun _ _=>hload⟩
    · refine ⟨hdistinct, ?_, ?_, ?_⟩
      · intro other _ hother
        exact loads_same_of_outside hout other hother
      · exact Or.inl (loads_same_of_outside hout deployId htmp)
      · intro _ hok
        rw [herror] at hok
        cases hok
 | cleanup=>exact ⟨(cleanupStore_kept hs).distinct,fun _ hid=>cleanupStore_loads hs hid⟩
 | delete deployId=>
  obtain ⟨hout,hgone⟩:=deleteBundle_last lib deployId hs
  refine ⟨hout.distinct, ?_,hgone⟩
  intro other hne _
  exact loadBundle_congr (hout.same _ fun heq=>hne (String.toList_inj.mp heq))

/-- The cut between the removal and the rename loses the bundle, whatever was stored. -/
theorem saveBundle_cut_before_rename {deployId:Text} {sources:List (FilePath × Text)}
  {metadata:StoredMetadata} {s:Store} (hs:s.Distinct) (htmp:endsInTmp deployId=false)
  (hclean:∀ p, s.contentAt (tmpName deployId :: "sources".toList::p)=none)
  (hold:doesDirectoryExist [deployId.toList] s=true)
  (hok:(saveBundle lib deployId sources metadata).result s = .ok ()) :
  ∃ e, loadBundle lib deployId (cleanupStore.last
   ((saveBundle lib deployId sources metadata).cutAt
    ((saveBundle lib deployId sources metadata).length s-1) s)) = .error e := by
 by_cases hguard:isSafeDeploymentId lib deployId=true ∧
   ∀ source ∈ sources, isSafeRelativePath lib source.1=true
 · obtain ⟨hsafe,hpaths⟩:=hguard
   obtain ⟨-,hout⟩:=outside_of_writes metadata hsafe hpaths hs
   rw [saveBundle_of_safe hsafe hpaths] at hok ⊢
   cases hresult:(writeBundle lib deployId sources metadata).result s with
   | error e=>
    unfold Program.result at hok
    rw [Program.bind_error hresult] at hok
    cases hok
   | ok u=>
    obtain ⟨d,hdir,-⟩:=written_of_writes hsafe hpaths hclean hresult rfl
    obtain ⟨old,hold⟩ : ∃ old, s.lookup deployId.toList=some (.dir old):=by
     unfold doesDirectoryExist at hold
     rw [Dir.find_singleton] at hold
     split at hold
     · rename_i old heq
       exact ⟨old,heq⟩
     · cases hold
    rw [←hout.same _ target_ne_tmp] at hold
    obtain ⟨passed,s', heq,houtside,hnone,-⟩:=
     swapBundle_replaces (plain_of_safe hsafe) hout.distinct hdir hold
    have hpassed:((writeBundle lib deployId sources metadata >>= fun _=>
      swapBundle deployId) s).1 =
       ((writeBundle lib deployId sources metadata s).1 ++ passed) ++ [s'] := by
     rw [Program.passed_bind_ok hresult,heq,List.append_assoc]
    have hcut:(writeBundle lib deployId sources metadata >>= fun _=>
      swapBundle deployId).cutAt ((writeBundle lib deployId sources metadata >>= fun _=>
       swapBundle deployId).length s-1) s =
        passed.getLastD ((writeBundle lib deployId sources metadata).last s) := by
     unfold Program.cutAt Program.length
     rw [hpassed,List.length_append,List.length_singleton,Nat.add_sub_cancel,
      List.take_left,getLastD_append]
     rfl
    rw [hcut]
    apply loadBundle_absent
    intro d' hd'
    rw [(cleanupStore_kept houtside.distinct).same _ htmp,hnone] at hd'
    cases hd'
 · obtain ⟨e,hrefused⟩:=saveBundle_refused metadata s hguard
   unfold Program.result at hok
   rw [hrefused] at hok
   cases hok

theorem run_atomic {events:List Event} {s:Store} (hs:s.Distinct)
  (hcodec:∀ deployId sources metadata cut, .save deployId sources metadata cut ∈ events →
   lib.decode (lib.encode metadata) = .ok metadata)
  (h:Undisturbed lib events s) (before after:List Event) (e:Event)
  (heq:events=before ++ e::after) :
  e.Atomic lib (storeAfter lib before s) (storeAfter lib (before ++ [e]) s) := by
 induction before generalizing events s with
 | nil=>
  subst heq
  refine (Event.atomic hs ?_ h.1).2
  intro deployId sources metadata cut he
  exact hcodec deployId sources metadata cut (he ▸ List.mem_cons_self)
 | cons first before ih=>
  subst heq
  have hfirst:(first.after lib s).Distinct:=by
   refine (Event.atomic hs ?_ h.1).1
   intro deployId sources metadata cut he
   exact hcodec deployId sources metadata cut (he ▸ List.mem_cons_self)
  refine ih hfirst ?_ h.2 rfl
  intro deployId sources metadata cut hmem
  exact hcodec deployId sources metadata cut (List.mem_cons_of_mem first hmem)

/-- In every undisturbed run every event is atomic, and no run with a cut between the removal
    and the rename can be spared: it loses the bundle. -/
theorem saves_atomic (lib:Imports) :
  (∀ events (s:Store), s.Distinct →
   (∀ deployId sources metadata cut, .save deployId sources metadata cut ∈ events →
    lib.decode (lib.encode metadata) = .ok metadata) →
   Undisturbed lib events s → ∀ before e after, events=before ++ e::after →
    e.Atomic lib (storeAfter lib before s) (storeAfter lib (before ++ [e]) s)) ∧
  ∀ (s:Store) deployId sources metadata, s.Distinct → endsInTmp deployId=false →
   (∀ p, s.contentAt (tmpName deployId :: "sources".toList::p)=none) →
   doesDirectoryExist [deployId.toList] s=true →
   (saveBundle lib deployId sources metadata).result s = .ok () →
   ∃ e, loadBundle lib deployId (cleanupStore.last
    ((saveBundle lib deployId sources metadata).cutAt
     ((saveBundle lib deployId sources metadata).length s-1) s)) = .error e :=
 ⟨fun _ _ hs hcodec h before e after heq=>run_atomic hs hcodec h before after e heq,
  fun _ _ _ _ hs htmp hclean hold hok=>saveBundle_cut_before_rename hs htmp hclean hold hok⟩

end Atomicity

/-! ## Stores on disk -/

def quoted (text:Text) : Text := "\"" ++ text ++ "\""

def encodeEarly (metadata:StoredMetadata) : Text :=
 "\x7b\"smVersion\":" ++ quoted metadata.smVersion ++ ",\"smCreatedAt\":" ++
  quoted metadata.smCreatedAt ++ ",\"smDescription\":null,\"smServiceVersion\":null" ++
  ",\"smDeploymentVersion\":null\x7d"

def firstMetadata : StoredMetadata := ⟨"v1","2024-01-01T00:00:00Z",none,none,none⟩

def secondMetadata : StoredMetadata := ⟨"v2","2024-02-01T00:00:00Z",none,none,none⟩

def earlyImports : Imports where
 isAlpha:=Char.isAlpha
 encode:=encodeEarly
 decode text :=
  if text=encodeEarly firstMetadata then .ok firstMetadata
  else if text=encodeEarly secondMetadata then .ok secondMetadata
  else .error "Error in $: parsing StoredMetadata failed"

def firstSources : List (FilePath × Text) := [("main.l4".toList,"DECIDE f IS TRUE")]

def secondSources : List (FilePath × Text) := [("main.l4".toList,"DECIDE g IS TRUE")]

/-- Two uploads whose second path goes through the first one's file: writing it fails. -/
def clashingSources : List (FilePath × Text) :=
 [("a.l4".toList,"DECIDE h IS TRUE"),("a.l4/b.l4".toList,"DECIDE k IS TRUE")]

def oneBundle : Store :=
 storeAfter earlyImports [.save "law" firstSources firstMetadata none] .empty

def loads (deployId:Text) (p:List Name) (s:Store) : Option Text :=
 match loadBundle earlyImports deployId s with
 | .ok bundle=>bundle.1 p
 | .error _=>none

theorem clean_of_absent {deployId:Text} {s:Store} (h:s.lookup (tmpName deployId)=none)
  (p:List Name) : s.contentAt (tmpName deployId :: "sources".toList::p)=none := by
 rw [contentAt_cons,h]
 rfl

def firstSave : Event := .save "law" firstSources firstMetadata none

def cutSave : Event := .save "law" secondSources secondMetadata (some 5)

theorem saves_atomic_law :
  cutSave.Atomic earlyImports (storeAfter earlyImports [firstSave] .empty)
   (storeAfter earlyImports ([firstSave] ++ [cutSave]) .empty) ∧
  ∃ e, loadBundle earlyImports "law" (cleanupStore.last
   ((saveBundle earlyImports "law" secondSources secondMetadata).cutAt
    ((saveBundle earlyImports "law" secondSources secondMetadata).length oneBundle-1)
    oneBundle)) = .error e := by
 have hfirst:earlyImports.decode (earlyImports.encode firstMetadata) = .ok firstMetadata:=by
  decide +kernel
 have hsecond:earlyImports.decode (earlyImports.encode secondMetadata) = .ok secondMetadata:=by
  decide +kernel
 have hclean:∀ p, oneBundle.contentAt (tmpName "law" :: "sources".toList::p)=none:=
  clean_of_absent (by decide +kernel)
 have hcut:5 ≤ (writeBundle earlyImports "law" secondSources secondMetadata).length
   (firstSave.after earlyImports .empty) := by
  decide +kernel
 have hcodec:∀ deployId sources metadata cut,
   .save deployId sources metadata cut ∈ [firstSave,cutSave,.cleanup] →
    earlyImports.decode (earlyImports.encode metadata) = .ok metadata := by
  intro deployId sources metadata cut hmem
  simp only [firstSave,cutSave,List.mem_cons,Event.save.injEq,List.not_mem_nil,or_false,
   reduceCtorEq] at hmem
  rcases hmem with ⟨-,-,rfl,-⟩ | ⟨-,-,rfl,-⟩
  · exact hfirst
  · exact hsecond
 have hundisturbed:Undisturbed earlyImports [firstSave,cutSave,.cleanup] .empty:=by
  have htmp:endsInTmp "law" = false:=by decide
  refine ⟨⟨htmp,Or.inr ⟨?_,clean_of_absent rfl⟩⟩,⟨htmp,Or.inl ⟨5,rfl,hcut⟩⟩,
   trivial,trivial⟩
  intro k hk
  cases hk
 exact ⟨(saves_atomic earlyImports).1 [firstSave,cutSave,.cleanup] .empty trivial hcodec
   hundisturbed [firstSave] cutSave [.cleanup] rfl,
  (saves_atomic earlyImports).2 oneBundle "law" secondSources secondMetadata
   (by decide +kernel) (by decide) hclean (by decide +kernel) (by decide +kernel)⟩

/-- A cut between the removal and the rename, and the cleanup after it, lose the old bundle; what
    a failed save left behind turns up in the next bundle; and a cleanup removes a deployment
    whose id ends as a temp directory does. -/
theorem saveBundle_not_atomic :
  (loads "law" ["main.l4".toList] oneBundle=some "DECIDE f IS TRUE" ∧
   (loadBundle earlyImports "law" (storeAfter earlyImports
    [.save "law" secondSources secondMetadata (some 153),.cleanup] oneBundle)).isOk=false) ∧
  ((saveBundle earlyImports "law" clashingSources secondMetadata).result oneBundle ≠ .ok () ∧
   loads "law" ["a.l4".toList] (storeAfter earlyImports
    [.save "law" clashingSources secondMetadata none,
     .save "law" secondSources secondMetadata none] oneBundle)=some "DECIDE h IS TRUE") ∧
  (loads "law.tmp" ["main.l4".toList] (storeAfter earlyImports
    [.save "law.tmp" secondSources secondMetadata none] oneBundle) =
     some "DECIDE g IS TRUE" ∧
   (loadBundle earlyImports "law.tmp" (storeAfter earlyImports
    [.save "law.tmp" secondSources secondMetadata none,.cleanup] oneBundle)).isOk=false) := by
 decide +kernel

end L4Ide.BundleStore
