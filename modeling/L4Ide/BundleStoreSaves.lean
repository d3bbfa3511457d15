import L4Ide.BundleStoreOperations

set_option autoImplicit false

/-!
# A save, part by part

What the temp directory holds when everything is written, and what the swap makes of it.
-/
namespace L4Ide.BundleStore
open DirectoryTree InterruptiblePrograms

theorem contentAt_of_file {p q:List Name} {s s' : Store} {t:Text}
  {f:Option (Entry Name Text) → Option (Option (Entry Name Text))}
  (h:s.alter f p=some s') (hnot:∀ d, s.find p ≠ some (.dir d))
  (hfile:s'.find p=some (.file t)) :
  s'.contentAt q = if q=p then some t else s.contentAt q := by
 by_cases hpre:p <+: q
 · obtain ⟨r,rfl⟩:=hpre
   cases r with
   | nil=>
    rw [List.append_nil,if_pos rfl]
    unfold Dir.contentAt
    rw [hfile]
    rfl
   | cons n r=>
    rw [if_neg (by simp)]
    unfold Dir.contentAt
    rw [Dir.find_append,Dir.find_append,hfile]
    cases hold:s.find p with
    | none=>rfl
    | some e=>
     cases e with
     | file t' =>rfl
     | dir d=>exact absurd hold (hnot d)
 · have hne:q ≠ p:=by
    rintro rfl
    exact hpre (List.prefix_refl q)
   rw [if_neg hne]
   exact Dir.contentAt_alter h hpre

theorem contentAt_of_created {p q:List Name} {s s' : Store}
  (h:s.alter createdDirectory p=some s') : s'.contentAt q=s.contentAt q := by
 by_cases hpre:p <+: q
 · obtain ⟨r,rfl⟩:=hpre
   have hfind:=Dir.find_alter h
   unfold Dir.contentAt
   rw [Dir.find_append,Dir.find_append]
   cases hold:s.find p with
   | none=>
    rw [hold] at hfind
    rw [←Option.some.inj hfind]
    cases r with
    | nil=>rfl
    | cons n r=>rfl
   | some e=>
    cases e with
    | file t=>simp [hold,createdDirectory] at hfind
    | dir d=>
     rw [hold] at hfind
     rw [←Option.some.inj hfind]
 · exact Dir.contentAt_alter h hpre

/-- Every file of the store holds what `m` says. -/
def Holds (m:List Name → Option Text) (s:Store) : Prop := ∀ q, s.contentAt q=m q

/-- `m` with one file written. -/
def wrote (p:List Name) (t:Text) (m:List Name → Option Text) : List Name → Option Text :=
 fun q=>if q=p then some t else m q

theorem triple_createDirectoryIfMissing (path:FilePath) (m:List Name → Option Text) :
  Triple (Holds m) (createDirectoryIfMissing path) (fun _=>Holds m) (fun _=>True)
   (fun _=>True) := by
 apply triple_forM_const
 intro p _
 apply triple_act
 · intro s s' hs heq
   split at heq
   · rename_i s₁ halter
     cases heq
     refine ⟨?_,trivial⟩
     intro q
     rw [contentAt_of_created halter]
     exact hs q
   · cases heq
 · exact fun _ _ _ _=>trivial

theorem triple_truncate (p:List Name) (m:List Name → Option Text) :
  Triple (Holds m) (change p truncated) (fun _=>Holds (wrote p "" m)) (fun _=>True)
   (fun _=>True) := by
 apply triple_act
 · intro s s' hs heq
   split at heq
   · rename_i s₁ halter
     cases heq
     have hfind:=Dir.find_alter halter
     refine ⟨?_,trivial⟩
     intro q
     rw [contentAt_of_file halter,hs q]
     · rfl
     · intro d hd
       rw [hd] at hfind
       cases hfind
     · cases hold:s.find p with
       | none=>
        rw [hold] at hfind
        exact (Option.some.inj hfind).symm
       | some e=>
        rw [hold] at hfind
        cases e with
        | file t=>exact (Option.some.inj hfind).symm
        | dir d=>cases hfind
   · cases heq
 · exact fun _ _ _ _=>trivial

theorem triple_append (p:List Name) (m:List Name → Option Text) (t:Text) (c:Char) :
  Triple (Holds (wrote p t m)) (change p (appended c))
   (fun _=>Holds (wrote p (t.push c) m)) (fun _=>True) (fun _=>True) := by
 apply triple_act
 · intro s s' hs heq
   split at heq
   · rename_i s₁ halter
     cases heq
     have hfind:=Dir.find_alter halter
     have hp:=hs p
     rw [wrote,if_pos rfl] at hp
     obtain ⟨e,hold,hcontent⟩:=Option.bind_eq_some_iff.mp hp
     cases e with
     | dir d=>cases hcontent
     | file t' =>
      cases hcontent
      rw [hold] at hfind
      refine ⟨?_,trivial⟩
      intro q
      rw [contentAt_of_file halter (fun d hd=>by simp [hold] at hd)
       (Option.some.inj hfind).symm,hs q]
      unfold wrote
      split <;> rfl
   · cases heq
 · exact fun _ _ _ _=>trivial

theorem triple_writeFile (path:FilePath) (content:Text) (m:List Name → Option Text) :
  Triple (Holds m) (writeFile path content)
   (fun _=>Holds (wrote (resolve path) content m)) (fun _=>True) (fun _=>True) := by
 unfold writeFile
 split
 · exact triple_raise fun _ _=>trivial
 · apply (triple_truncate (resolve path) m).bind
   intro _
   have hloop:Triple _ (content.toList.forM fun c=>change (resolve path) (appended c))
     _ (fun _=>True) (fun _=>True) := triple_forM
    (fun done=>Holds (wrote (resolve path) (String.ofList done) m)) content.toList []
    (fun before c _=>by
     have hone:=triple_append (resolve path) m (String.ofList before) c
     rwa [←String.append_singleton,String.singleton_eq_ofList,
      ← String.ofList_append] at hone)
   rwa [List.nil_append,String.ofList_toList] at hloop

/-- What the last of the sources with this path says. -/
def written (sources:List (FilePath × Text)) (p:List Name) : Option Text :=
 (sources.reverse.find? fun source=>resolve source.1=p).map Prod.snd

theorem written_concat (sources:List (FilePath × Text)) (source:FilePath × Text)
  (p:List Name) : written (sources ++ [source]) p =
   if p=resolve source.1 then some source.2 else written sources p := by
 unfold written
 rw [List.reverse_append,List.reverse_singleton,List.singleton_append,List.find?_cons]
 by_cases h:p=resolve source.1
 · simp [h]
 · have h' : resolve source.1 ≠ p:=fun heq=>h heq.symm
   simp [h,h']

section Writes

variable {lib:Imports} {deployId:Text} {sources:List (FilePath × Text)}
 (metadata:StoredMetadata)

theorem join_sources (h:Plain deployId.toList) {path:FilePath} (hpath:path.head? ≠ some '/') :
  join (join (tmpName deployId) "sources".toList) path =
   (tmpName deployId ++ '/' :: "sources".toList) ++ '/' :: path := by
 rw [join_plain (plain_tmpName h) (by decide),join_eq _ _ hpath]
 · simp
 · intro hlast
   have hs:('/' :: "sources".toList).getLast? = some 's' :=by decide
   rw [List.getLast?_append,hs] at hlast
   cases hlast

theorem plain_sources : Plain "sources".toList := ⟨by decide,by decide,by decide⟩

theorem plain_metadata : Plain "metadata.json".toList := ⟨by decide,by decide,by decide⟩

theorem sources_ne_metadata : "sources".toList ≠ "metadata.json".toList := by decide

theorem resolve_sourcesDir (h:Plain deployId.toList) :
  resolve (tmpName deployId ++ '/' :: "sources".toList) =
   [tmpName deployId,"sources".toList] := by
 rw [resolve_append,resolve_plain (plain_tmpName h),resolve_plain plain_sources]
 rfl

theorem resolve_source (h:Plain deployId.toList) {path:FilePath}
  (hpath:path.head? ≠ some '/') :
  resolve (join (join (tmpName deployId) "sources".toList) path) =
   tmpName deployId :: "sources".toList::resolve path := by
 rw [join_sources h hpath,resolve_append,resolve_sourcesDir h]
 rfl

theorem resolve_takeDirectory_source (h:Plain deployId.toList) {path:FilePath}
  (hpath:path.head? ≠ some '/') :
  ∃ p, resolve (takeDirectory (join (join (tmpName deployId) "sources".toList) path)) =
   tmpName deployId::p := by
 rw [join_sources h hpath]
 rcases takeDirectory_append (tmpName deployId ++ '/' :: "sources".toList) path with heq | ⟨b,heq⟩
 · rw [heq,resolve_sourcesDir h]
   exact ⟨_,rfl⟩
 · rw [heq,resolve_append,resolve_sourcesDir h]
   exact ⟨_,rfl⟩

theorem resolve_metadata (h:Plain deployId.toList) :
  resolve (join (tmpName deployId) "metadata.json".toList) =
   [tmpName deployId,"metadata.json".toList] := by
 rw [resolve_join (plain_tmpName h) (by decide),resolve_plain plain_metadata]

theorem staysWithin_writeBundle (h:Plain deployId.toList)
  (hsafe:∀ source ∈ sources, isSafeRelativePath lib source.1=true) (s₀:Store) :
  StaysWithin (tmpName deployId) s₀ (writeBundle lib deployId sources metadata) := by
 unfold writeBundle
 apply Triple.bind (Q := fun _=>Outside (tmpName deployId) s₀)
 · apply staysWithin_createDirectoryIfMissing
   exact resolve_join (plain_tmpName h) (by decide)
 · intro _
   apply Triple.bind (Q := fun _=>Outside (tmpName deployId) s₀)
   · apply triple_forM_const
     intro source hsource
     have hhead:=head_of_safeRelativePath (hsafe source hsource)
     obtain ⟨p,hp⟩:=resolve_takeDirectory_source h hhead
     apply (staysWithin_createDirectoryIfMissing hp).bind
     intro _
     exact staysWithin_writeFile (resolve_source h hhead)
   · intro _
     exact staysWithin_writeFile (resolve_metadata h)

/-- With no source in the temp directory before, exactly the sources and the metadata are in
    it. -/
theorem triple_writeBundle (h:Plain deployId.toList)
  (hsafe:∀ source ∈ sources, isSafeRelativePath lib source.1=true) :
  Triple (fun s:Store=>
    ∀ p, s.contentAt (tmpName deployId :: "sources".toList::p)=none)
   (writeBundle lib deployId sources metadata)
   (fun _ s=>
    (∀ p, s.contentAt (tmpName deployId :: "sources".toList::p)=written sources p) ∧
    s.contentAt [tmpName deployId,"metadata.json".toList]=some (lib.encode metadata))
   (fun _=>True) (fun _=>True) := by
 let J:List (FilePath × Text) → Store → Prop:=fun done s=>
  ∀ p, s.contentAt (tmpName deployId :: "sources".toList::p)=written done p
 unfold writeBundle
 apply Triple.bind (Q := fun _=>J [])
 · apply triple_of_state
   intro s hs
   have hcreate:=triple_createDirectoryIfMissing
    (join (tmpName deployId) "sources".toList) (fun q=>s.contentAt q)
   refine hcreate.mono (fun _ heq _=>by rw [heq]) ?_ (fun _ h=>h) fun _ h=>h
   intro _ s' hs' p
   exact (hs' _).trans (hs p)
 · intro _
   apply Triple.bind (Q := fun _=>J sources)
   · apply triple_forM J sources []
     intro before source hsource
     apply triple_of_state
     intro s hs
     have hhead:=head_of_safeRelativePath (hsafe source hsource)
     have hwrite:=(triple_createDirectoryIfMissing (takeDirectory
      (join (join (tmpName deployId) "sources".toList) source.1)) (fun q=>s.contentAt q)).bind
      fun _=>triple_writeFile (join (join (tmpName deployId) "sources".toList) source.1)
       source.2 _
     refine hwrite.mono (fun _ heq _=>by rw [heq]) ?_ (fun _ h=>h) fun _ h=>h
     intro _ s' hs' p
     apply (hs' _).trans
     rw [resolve_source h hhead,wrote,written_concat,hs p]
     simp only [List.cons.injEq,true_and]
   · intro _
     apply triple_of_state
     intro s hs
     have hwrite:=triple_writeFile (join (tmpName deployId) "metadata.json".toList)
      (lib.encode metadata) (fun q=>s.contentAt q)
     refine hwrite.mono (fun _ heq _=>by rw [heq]) ?_ (fun _ h=>h) fun _ h=>h
     intro _ s' hs'
     rw [resolve_metadata h] at hs'
     constructor
     · intro p
       apply (hs' _).trans
       rw [wrote,if_neg,hs p]
       intro heq
       exact sources_ne_metadata (List.cons.inj (List.cons.inj heq).2).1
     · apply (hs' _).trans
       rw [wrote,if_pos rfl]

end Writes

theorem forM_change_removed {l:List (List Name)} {s s' : Store}
  (h:Dir.removeEach l s=some s') :
  (l.forM fun p=>change p Dir.removed).result s = .ok () ∧
   (l.forM fun p=>change p Dir.removed).last s=s' := by
 induction l generalizing s with
 | nil=>
  cases h
  exact ⟨rfl,rfl⟩
 | cons p l ih=>
  unfold Dir.removeEach at h
  rw [List.foldlM_cons] at h
  obtain ⟨s₁,hone,hrest⟩:=Option.bind_eq_some_iff.mp h
  have hstep:change p Dir.removed s=([s₁],.ok ()):=by
   change s.alter Dir.removed p=some s₁ at hone
   apply Program.act_ok
   rw [hone]
  have hresult:(change p Dir.removed).result s = .ok ():=congrArg Prod.snd hstep
  have hlast:(change p Dir.removed).last s=s₁:=by
   unfold Program.last
   rw [hstep]
   rfl
  change (change p Dir.removed >>= fun _=>l.forM fun p=>change p Dir.removed).result s=_ ∧
   (change p Dir.removed >>= fun _=>l.forM fun p=>change p Dir.removed).last s=_
  rw [Program.result_bind_ok hresult,Program.last_bind_ok hresult,hlast]
  exact ih hrest

theorem removeDirectoryRecursive_ok {n:Name} {s:Store} {d:Dir Name Text}
  (hs:s.Distinct) (hlook:s.lookup n=some (.dir d)) :
  (removeDirectoryRecursive [n]).result s = .ok () ∧
   ((removeDirectoryRecursive [n]).last s).lookup n=none := by
 obtain ⟨s', hremove,hnone⟩:=Dir.removeEach_directory hs hlook
 have hask:(Program.ask fun s : Store=>s.find [n]).result s =
   (Except.ok (some (.dir d)) : Except Failure _) := by
  rw [←hlook,←Dir.find_singleton]
  rfl
 obtain ⟨hresult,hlast⟩:=forM_change_removed hremove
 unfold removeDirectoryRecursive
 rw [Program.result_bind_ok hask,Program.last_bind_ok hask]
 exact ⟨hresult,by rw [←hnone,←hlast]; rfl⟩

/-- The entry `tmp` is now under the name `target`, and nothing else has changed. -/
structure Renamed (tmp target:Name) (s s' : Store) : Prop where
 distinct : s'.Distinct
 moved : s'.lookup target=s.lookup tmp
 same : ∀ m, m ≠ tmp → m ≠ target → s'.lookup m=s.lookup m

theorem renameDirectory_ok {tmp target:Name} {s:Store} {d:Dir Name Text}
  (hs:s.Distinct) (hne:target ≠ tmp) (hdir:s.lookup tmp=some (.dir d))
  (hfree:s.lookup target=none) :
  ∃ s', renameDirectory [tmp] [target] s=([s'],.ok ()) ∧ Renamed tmp target s s' := by
 have hfree' : (s.erase tmp).lookup target=none:=by
  rw [Dir.lookup_erase,if_neg hne,hfree]
 refine ⟨(s.erase tmp).set target (some (.dir d)), ?_, ?_, ?_, ?_⟩
 · have hrename:(s.alter (fun _=>some none) [tmp]).bind
     (fun s' =>s'.alter (renamedOnto d) [target]) =
      some ((s.erase tmp).set target (some (.dir d))) := by
    change ((renamedOnto d) ((s.erase tmp).lookup target)).map _=_
    rw [hfree']
    rfl
   apply Program.act_ok
   rw [Dir.find_singleton,hdir]
   dsimp only
   rw [hrename]
 · apply (hs.erase tmp).set target
   intro e he
   cases he
   exact hs.lookup hdir
 · rw [Dir.lookup_set,if_pos rfl,hdir]
 · intro m htmp htarget
   rw [Dir.lookup_set,if_neg htarget,Dir.lookup_erase,if_neg htmp]

section Swap

variable {deployId:Text} {s:Store} {d:Dir Name Text}

theorem target_ne_tmp : deployId.toList ≠ tmpName deployId := by
 intro heq
 have hlen:=congrArg List.length heq
 simp [tmpName,tmpSuffix] at hlen

theorem swapBundle_eq (h:Plain deployId.toList) :
  swapBundle deployId s =
   if doesDirectoryExist [deployId.toList] s then
    (removeDirectoryRecursive [deployId.toList] >>= fun _=>
     renameDirectory [tmpName deployId] [deployId.toList]) s
   else renameDirectory [tmpName deployId] [deployId.toList] s := by
 unfold swapBundle
 rw [resolve_plain h,resolve_plain (plain_tmpName h)]
 rw [Program.ask_bind]
 split <;> rfl

theorem swapBundle_replaces {old:Dir Name Text} (h:Plain deployId.toList) (hs:s.Distinct)
  (hdir:s.lookup (tmpName deployId)=some (.dir d))
  (hold:s.lookup deployId.toList=some (.dir old)) :
  ∃ passed s', swapBundle deployId s=(passed ++ [s'],.ok ()) ∧
   Outside deployId.toList s (passed.getLastD s) ∧
   (passed.getLastD s).lookup deployId.toList=none ∧
   Renamed (tmpName deployId) deployId.toList s s' := by
 have hexists:doesDirectoryExist [deployId.toList] s=true:=by
  unfold doesDirectoryExist
  rw [Dir.find_singleton,hold]
 obtain ⟨hresult,hnone⟩:=removeDirectoryRecursive_ok hs hold
 have hout:Outside deployId.toList s ((removeDirectoryRecursive [deployId.toList]).last s):=
  (staysWithin_removeDirectoryRecursive []).last ⟨hs,fun _ _=>rfl⟩ ⟨hs,fun _ _=>rfl⟩
 have htmp:((removeDirectoryRecursive [deployId.toList]).last s).lookup (tmpName deployId) =
   some (.dir d) := by
  rw [hout.same _ target_ne_tmp.symm,hdir]
 obtain ⟨s', hrename,hrenamed⟩:=renameDirectory_ok hout.distinct target_ne_tmp htmp hnone
 refine ⟨(removeDirectoryRecursive [deployId.toList] s).1,s', ?_,hout,hnone, ?_⟩
 · rw [swapBundle_eq h,if_pos hexists,Program.bind_ok hresult,hrename]
 · refine ⟨hrenamed.distinct, ?_, ?_⟩
   · rw [hrenamed.moved,htmp,hdir]
   · intro m hm hm'
     rw [hrenamed.same m hm hm', hout.same m hm']

/-- The swap either puts the temp directory in place or, raising, leaves the store alone. -/
theorem swapBundle_cases (h:Plain deployId.toList) (hs:s.Distinct)
  (hdir:s.lookup (tmpName deployId)=some (.dir d)) :
  ((swapBundle deployId).result s = .ok () ∧
   Renamed (tmpName deployId) deployId.toList s ((swapBundle deployId).last s)) ∨
  (∃ e, (swapBundle deployId).result s = .error e) ∧ (swapBundle deployId).last s=s := by
 cases hold:s.lookup deployId.toList with
 | none=>
  left
  have hexists:doesDirectoryExist [deployId.toList] s=false:=by
   unfold doesDirectoryExist
   rw [Dir.find_singleton,hold]
  obtain ⟨s', hrename,hrenamed⟩:=renameDirectory_ok hs target_ne_tmp hdir hold
  unfold Program.result Program.last
  rw [swapBundle_eq h,hexists,if_neg Bool.false_ne_true,hrename]
  exact ⟨rfl,hrenamed⟩
 | some e=>
  cases e with
  | dir old=>
   left
   obtain ⟨passed,s', heq,-,-,hrenamed⟩:=swapBundle_replaces h hs hdir hold
   unfold Program.result Program.last
   rw [heq,List.getLastD_concat]
   exact ⟨rfl,hrenamed⟩
  | file t=>
   right
   have hexists:doesDirectoryExist [deployId.toList] s=false:=by
    unfold doesDirectoryExist
    rw [Dir.find_singleton,hold]
   have hrename:renameDirectory [tmpName deployId] [deployId.toList] s =
     ([],.error (.fileSystem [deployId.toList])) := by
    have hold' : (s.erase (tmpName deployId)).lookup deployId.toList=some (.file t):=by
     rw [Dir.lookup_erase,if_neg target_ne_tmp,hold]
    have hfail:(s.alter (fun _=>some none) [tmpName deployId]).bind
      (fun s' =>s'.alter (renamedOnto d) [deployId.toList])=none := by
     change ((renamedOnto d) ((s.erase (tmpName deployId)).lookup deployId.toList)).map _=_
     rw [hold']
     rfl
    apply Program.act_error
    rw [Dir.find_singleton,hdir]
    dsimp only
    rw [hfail]
   unfold Program.result Program.last
   rw [swapBundle_eq h,hexists,if_neg Bool.false_ne_true,hrename]
   exact ⟨⟨_,rfl⟩,rfl⟩

end Swap

end L4Ide.BundleStore
