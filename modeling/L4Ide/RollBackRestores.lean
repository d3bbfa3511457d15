import L4Ide.AdmissibleRuns
import L4Ide.AssociationList
import L4Ide.GitSync

set_option autoImplicit false

/-!
# What a roll back restores

The history of main over any run of the operations, and when rolling back a turn brings back the
files from before it.
-/
namespace L4Ide.RollBackRestores
open CommitGraph GitSync AdmissibleRuns

/-! ## Trees -/

theorem get_eq_none {tree:Tree} {path:String} (h:tree.has path=false) :
  tree.get path=none := Option.not_isSome_iff_eq_none.mp (Bool.eq_false_iff.mp h)

theorem get_cons (f:String × String) (tree:Tree) (path:String) :
  GitSync.Tree.get (f::tree) path = if path=f.1 then some f.2 else tree.get path := by
 unfold GitSync.Tree.get
 rw [List.lookup_cons]
 by_cases hpath:path=f.1
 · rw [if_pos hpath,beq_iff_eq.mpr hpath]
 · rw [if_neg hpath,beq_eq_false_iff_ne.mpr hpath]

theorem get_append (a b:Tree) (path:String) :
  GitSync.Tree.get (a ++ b) path=(a.get path).or (b.get path) := by
 induction a with
 | nil=>rfl
 | cons f a ih=>
  rw [List.cons_append,get_cons,get_cons,ih]
  split <;> rfl

theorem get_filter (keep:String → Bool) (tree:Tree) (path:String) :
  GitSync.Tree.get (tree.filter fun f=>keep f.1) path =
   if keep path then tree.get path else none :=
 AssociationList.lookup_filter_keys keep path tree

theorem get_overlay (top tree:Tree) (path:String) :
  (top.overlay tree).get path=(top.get path).or (tree.get path) := by
 unfold GitSync.Tree.overlay
 rw [get_append,get_filter fun p=>!top.has p]
 cases h:top.get path with
 | some blob=>rfl
 | none=>
  have hhas:top.has path=false:=by
   unfold GitSync.Tree.has
   rw [h]
   rfl
  rw [hhas]
  rfl

theorem mem_of_has {tree:Tree} {path:String} (h:tree.has path=true) :
  ∃ f ∈ tree, f.1=path := by
 have ⟨blob,hblob⟩:=Option.isSome_iff_exists.mp h
 have ⟨p,hp,hmem⟩:=AssociationList.mem_of_lookup hblob
 exact ⟨(p,blob),hmem,(beq_iff_eq.mp hp).symm⟩

theorem same_iff {a b:Tree} : a.same b=true ↔ ∀ path, a.get path=b.get path := by
 unfold GitSync.Tree.same
 rw [List.all_eq_true]
 constructor
 · intro h path
   by_cases ha:a.has path=true
   · have ⟨f,hf,hpath⟩:=mem_of_has ha
     exact hpath ▸ of_decide_eq_true (h f (List.mem_append_left _ hf))
   · by_cases hb:b.has path=true
     · have ⟨f,hf,hpath⟩:=mem_of_has hb
       exact hpath ▸ of_decide_eq_true (h f (List.mem_append_right _ hf))
     · rw [get_eq_none (Bool.eq_false_iff.mpr ha),get_eq_none (Bool.eq_false_iff.mpr hb)]
 · intro h f _
   exact decide_eq_true (h f.1)

/-! ## The property -/

variable (git:Git)

/-- The files of the repository are those of `parent`, the user is told once, and nothing is taken
out of the history of main. -/
structure RolledBack (s:State) (turnId:String) (parent:Commit) (s' : State) : Prop where
 restored : ∀ path, (treeOf s'.main).get path=(treeOf parent).get path
 told : ∃ sha, s'.events=s.events ++ [.rolledBack turnId sha]
 kept : s.main.history ⊆ s'.main.history

structure Kept (s:State) : Prop where
 rollback : ∀ turnId sha parent summary, .gitCommitted turnId sha parent summary ∈ s.events →
  ∀ stamp stamp', RolledBack s turnId parent (rollback git turnId stamp stamp' s)
 bundle : s.bundle=s.main
 /-- No operation takes anything out of the history of main. -/
 history : ∀ action, s.main.history ⊆ (step git action s).main.history
 /-- A bundle that an operation deletes is in main, or its conflict is reported. -/
 deleted : ∀ action file bundle, s.incoming.lookup file=some bundle →
  (step git action s).incoming.lookup file=none →
   bundle.tip.history ⊆ (step git action s).main.history ∨
    ∃ files, (step git action s).events=s.events ++ [.localMergeConflict files]

/-! ## The condition -/

def Newest (turnId:String) (main target:Commit) : Prop :=
 ∃ newer older, main.line=newer ++ target::older ∧ turnId ∈ target.info.trailers ∧
  ∀ c ∈ newer, turnId ∉ c.info.trailers

/-- An untracked file that the ignore files of `before` do not ignore. -/
def loose (before:Commit) (s:State) (path:String) : Option String :=
 if (addAll git s).index.has path ||
  git.ignored (restore (treeOf before) (addAll git s)).files.get path then none
 else s.files.get path

/-- The newest commit of the turn on the line of main was made on `before`, whose files, with the
loose ones, are those of `parent`; and there are files before or after the roll back. -/
def Restorable (s:State) (turnId:String) (parent:Commit) : Prop :=
 ∃ target before, Newest turnId s.main target ∧ target.parents.head? = some before ∧
  ((addAll git s).index ≠ [] ∨ treeOf before ≠ []) ∧
  ∀ path, (treeOf parent).get path=((treeOf before).get path).or (loose git before s path)

/-! ## Operations -/

theorem addAll_get (s:State) (path:String) :
  (addAll git s).index.get path =
   if s.index.has path || !git.ignored s.files.get path then s.files.get path else none :=
 get_filter (fun p=>s.index.has p || !git.ignored s.files.get p) s.files path

structure Commits (s s' : State) : Prop where
 index : s'.index=(addAll git s).index
 files : s'.files=s.files
 incoming : s'.incoming=s.incoming
 events : s'.events=s.events
 committed : ∀ path, (treeOf s'.main).get path=s'.index.get path
 history : s.main.history ⊆ s'.main.history
 bundle : s.bundle=s.main → s'.bundle=s'.main

theorem commits_commitChanges (subject:String) (trailers:List String) (stamp:String)
  (s:State) : Commits git s (commitChanges git subject trailers stamp s).1 := by
 unfold commitChanges
 by_cases hsame:(addAll git s).index.same (treeOf (addAll git s).main)=true
 · simp only [hsame,if_true]
   exact ⟨rfl,rfl,rfl,rfl,fun path=>(same_iff.mp hsame path).symm,List.Subset.refl _,
    fun h=>h⟩
 · simp only [hsame]
   refine ⟨rfl,rfl,rfl,rfl,fun _=>rfl, ?_,fun _=>rfl⟩
   exact Commit.history_subset _ (Commit.mem_history_parent List.mem_cons_self)

theorem restore_get (tree:Tree) (s:State) (path:String) :
  (restore tree s).files.get path =
   (tree.get path).or (if s.index.has path then none else s.files.get path) := by
 change (tree.overlay (s.files.filter fun f=>!s.index.has f.1)).get path=_
 rw [get_overlay,get_filter fun p=>!s.index.has p]
 cases s.index.has path <;> rfl

variable {s s' : State}

theorem restored_get (before:Commit) (h:Commits git s s') (path:String) :
  (addAll git (restore (treeOf before) s')).index.get path =
   ((treeOf before).get path).or (loose git before s path) := by
 have hrestored:restore (treeOf before) (addAll git s) =
   { restore (treeOf before) s' with
     main := s.main,bundle := s.bundle,incoming := s.incoming,events := s.events } := by
  unfold restore
  rw [h.index,h.files]
  rfl
 unfold loose
 rw [hrestored,addAll_get,restore_get,←h.index,←h.files]
 by_cases htree:(treeOf before).has path=true
 · have ⟨blob,hblob⟩:=Option.isSome_iff_exists.mp htree
   have hindex:(restore (treeOf before) s').index.has path=true:=htree
   rw [hindex,hblob]
   rfl
 · have hindex:(restore (treeOf before) s').index.has path=false:=
    Bool.eq_false_iff.mpr htree
   rw [get_eq_none (Bool.eq_false_iff.mpr htree),hindex,Option.none_or,Option.none_or,
    Bool.false_or]
   cases s'.index.has path with
   | true=>split <;> rfl
   | false=>cases git.ignored (restore (treeOf before) s').files.get path <;> rfl

theorem findTurnCommit_eq_some {turnId:String} {main target:Commit} :
  findTurnCommit turnId main=some target ↔ Newest turnId main target := by
 unfold findTurnCommit Newest
 rw [List.find?_eq_some_iff_append]
 constructor
 · intro ⟨htarget,newer,older,hline,hnewer⟩
   refine ⟨newer,older,hline,List.contains_iff_mem.mp htarget,fun c hc hmem=>?_⟩
   have hnot:=hnewer c hc
   rw [List.contains_iff_mem.mpr hmem] at hnot
   cases hnot
 · intro ⟨newer,older,hline,htarget,hnewer⟩
   refine ⟨List.contains_iff_mem.mpr htarget,newer,older,hline,fun c hc=>?_⟩
   rw [Bool.not_eq_true', Bool.eq_false_iff]
   exact fun hmem=>hnewer c hc (List.contains_iff_mem.mp hmem)

theorem not_rolledBack {turnId:String} {parent:Commit}
  (h:s'.events=s.events) : ¬ RolledBack s turnId parent s' := by
 intro ⟨_,⟨sha,htold⟩,_⟩
 rw [h] at htold
 have hlength:=congrArg List.length htold
 rw [List.length_append,List.length_singleton] at hlength
 omega

theorem rolledBack_found_iff {turnId:String} {target before:Commit}
  (hfind:findTurnCommit turnId s.main=some target)
  (hbefore:target.parents.head? = some before) (parent:Commit) (stamp stamp' : String) :
  RolledBack s turnId parent (rollback git turnId stamp stamp' s) ↔
   ((addAll git s).index ≠ [] ∨ treeOf before ≠ []) ∧
    ∀ path, (treeOf parent).get path =
     ((treeOf before).get path).or (loose git before s path) := by
 have hfirst:=commits_commitChanges git "Checkpoint before roll back" [] stamp s
 simp only [rollback,hfind,hbefore]
 generalize (commitChanges git "Checkpoint before roll back" [] stamp s).1=s₁ at hfirst ⊢
 rw [←hfirst.index]
 by_cases hempty:(s₁.index.isEmpty && (treeOf before).isEmpty)=true
 · rw [if_pos hempty]
   have ⟨hindex,htree⟩:=(Bool.and_eq_true _ _).mp hempty
   constructor
   · exact fun h=>absurd h (not_rolledBack hfirst.events)
   · intro ⟨hknown,_⟩
     cases hknown with
     | inl h=>exact absurd (List.isEmpty_iff.mp hindex) h
     | inr h=>exact absurd (List.isEmpty_iff.mp htree) h
 · rw [if_neg hempty]
   have hsecond:=commits_commitChanges git ("Roll back: " ++ target.info.subject) [] stamp'
    (restore (treeOf before) s₁)
   generalize (commitChanges git ("Roll back: " ++ target.info.subject) [] stamp'
    (restore (treeOf before) s₁)).1=s₂ at hsecond ⊢
   have hget:∀ path, (treeOf s₂.main).get path =
     ((treeOf before).get path).or (loose git before s path) := by
    intro path
    rw [hsecond.committed,hsecond.index,restored_get git before hfirst]
   constructor
   · intro ⟨hrestored,_,_⟩
     refine ⟨?_,fun path=>(hrestored path).symm.trans (hget path)⟩
     by_contra hnone
     rw [not_or,not_not,not_not] at hnone
     rw [hnone.1,hnone.2] at hempty
     exact hempty rfl
   · intro ⟨_,hparent⟩
     refine ⟨fun path=>(hget path).trans (hparent path).symm,⟨s₂.main, ?_⟩, ?_⟩
     · have hevents:s₂.events=s.events:=hsecond.events.trans hfirst.events
       change s₂.events ++ _=_
       rw [hevents]
     · exact List.Subset.trans hfirst.history hsecond.history

theorem rolledBack_iff (s:State) (turnId:String) (parent:Commit) (stamp stamp' : String) :
  RolledBack s turnId parent (rollback git turnId stamp stamp' s) ↔
   Restorable git s turnId parent := by
 cases hfind:findTurnCommit turnId s.main with
 | none=>
  have hsame:rollback git turnId stamp stamp' s=s:=by simp only [rollback,hfind]
  rw [hsame]
  constructor
  · exact fun h=>absurd h (not_rolledBack rfl)
  · intro ⟨target,_,hnewest,_⟩
    rw [findTurnCommit_eq_some.mpr hnewest] at hfind
    cases hfind
 | some target=>
  have hunique:∀ other, Newest turnId s.main other → other=target:=by
   intro other hother
   exact Option.some.inj ((findTurnCommit_eq_some.mpr hother).symm.trans hfind)
  cases hbefore:target.parents.head? with
  | none=>
   have hsame:rollback git turnId stamp stamp' s=s:=by
    simp only [rollback,hfind,hbefore]
   rw [hsame]
   constructor
   · exact fun h=>absurd h (not_rolledBack rfl)
   · intro ⟨other,before,hnewest,hhead,_⟩
     rw [hunique other hnewest,hbefore] at hhead
     cases hhead
  | some before=>
   rw [rolledBack_found_iff git hfind hbefore]
   constructor
   · exact fun h=>⟨target,before,findTurnCommit_eq_some.mp hfind,hbefore,h⟩
   · intro ⟨other,before', hnewest,hhead,h⟩
     rw [hunique other hnewest,hbefore] at hhead
     cases hhead
     exact h

/-! ## Runs -/

/-- Nothing is taken out of the history of main, and the bundle follows main. -/
structure Grows (s s' : State) : Prop where
 history : s.main.history ⊆ s'.main.history
 bundle : s.bundle=s.main → s'.bundle=s'.main

structure Keeps (s s' : State) : Prop extends Grows s s' where
 incoming : s'.incoming=s.incoming

theorem keeps_rfl : Keeps s s := ⟨⟨List.Subset.refl _,fun h=>h⟩,rfl⟩

theorem Keeps.trans {s'' : State} (h:Keeps s s') (h' : Keeps s' s'') : Keeps s s'' where
 history:=List.Subset.trans h.history h'.history
 bundle hbundle := h'.bundle (h.bundle hbundle)
 incoming:=h'.incoming.trans h.incoming

variable {git} in
theorem Commits.keeps (h:Commits git s s') : Keeps s s' :=
 ⟨⟨h.history,h.bundle⟩,h.incoming⟩

theorem keeps_afterTurn (turnId summary stamp:String) (s:State) :
  Keeps s (afterTurn git turnId summary stamp s) := by
 have hcommits:=commits_commitChanges git summary [turnId] stamp s
 unfold afterTurn
 generalize commitChanges git summary [turnId] stamp s=result at hcommits ⊢
 have ⟨s', committed⟩:=result
 cases committed with
 | none=>exact hcommits.keeps
 | some shas=>exact ⟨⟨hcommits.history,hcommits.bundle⟩,hcommits.incoming⟩

theorem keeps_onFilesAdded (added:Tree) (stamp:String) (s:State) :
  Keeps s (onFilesAdded git added stamp s) := by
 simp only [onFilesAdded]
 split
 · exact ⟨⟨List.Subset.refl _,fun h=>h⟩,rfl⟩
 · refine ⟨⟨?_,fun _=>rfl⟩,rfl⟩
   exact Commit.history_subset _ (Commit.mem_history_parent List.mem_cons_self)

theorem keeps_rollback (turnId stamp stamp' : String) (s:State) :
  Keeps s (rollback git turnId stamp stamp' s) := by
 have hfirst:=commits_commitChanges git "Checkpoint before roll back" [] stamp s
 unfold rollback
 split
 · exact keeps_rfl
 · rename_i target _
   split
   · exact keeps_rfl
   · rename_i before _
     dsimp only
     split
     · exact hfirst.keeps
     · have hsecond:=commits_commitChanges git ("Roll back: " ++ target.info.subject) [] stamp'
        (restore (treeOf before)
         (commitChanges git "Checkpoint before roll back" [] stamp s).1)
       exact hfirst.keeps.trans ⟨⟨hsecond.history,hsecond.bundle⟩,hsecond.incoming⟩

theorem mergeTip_history {tip:Commit} {stamp:String} (h:mergeTip git tip stamp s = .ok s') :
  s.main.history ⊆ s'.main.history ∧ tip.history ⊆ s'.main.history := by
 unfold mergeTip at h
 by_cases hdone:tip ∈ s.main.history
 · rw [if_pos hdone] at h
   cases h
   exact ⟨List.Subset.refl _,Commit.history_subset _ hdone⟩
 · rw [if_neg hdone] at h
   by_cases hforward:s.main ∈ tip.history
   · rw [if_pos hforward] at h
     cases h
     exact ⟨Commit.history_subset _ hforward,List.Subset.refl _⟩
   · rw [if_neg hforward] at h
     cases hmerge:git.merge s.main tip with
     | error files=>
      rw [hmerge] at h
      cases h
     | ok tree=>
      rw [hmerge] at h
      cases h
      constructor
      · exact Commit.history_subset _ (Commit.mem_history_parent List.mem_cons_self)
      · apply Commit.history_subset
        exact Commit.mem_history_parent (List.mem_cons_of_mem _ List.mem_cons_self)

theorem mergeTip_incoming {tip:Commit} {stamp:String}
  (h:mergeTip git tip stamp s = .ok s') : s'.incoming=s.incoming ∧ s'.events=s.events := by
 unfold mergeTip at h
 split at h
 · cases h
   exact ⟨rfl,rfl⟩
 · split at h
   · cases h
     exact ⟨rfl,rfl⟩
   · split at h
     · cases h
     · cases h
       exact ⟨rfl,rfl⟩

theorem lookup_removeIncoming (file other:String) (s:State) :
  (removeIncoming file s).incoming.lookup other =
   if other=file then none else s.incoming.lookup other := by
 change (s.incoming.filter fun b=>decide (b.1 ≠ file)).lookup other=_
 rw [AssociationList.lookup_filter_keys fun key=>decide (key ≠ file)]
 by_cases h:other=file
 · rw [if_pos h,if_neg (by simp [h])]
 · rw [if_neg h,if_pos (by simp [h])]

structure Merges (s:State) (file:String) (bundle:Bundle) (s' : State) : Prop where
 grows : Grows s s'
 others : ∀ other, other ≠ file → s'.incoming.lookup other=s.incoming.lookup other
 deleted : s'.incoming.lookup file=none → bundle.tip.history ⊆ s'.main.history ∨
  ∃ files, s'.events=s.events ++ [.localMergeConflict files]

theorem merges_applyBundle {file:String} {bundle:Bundle}
  (hbundle:s.incoming.lookup file=some bundle) (fetched:Bool) (stamp stamp' : String) :
  Merges s file bundle (applyBundle git file fetched stamp stamp' s) := by
 have hcommits:=
  commits_commitChanges git "Checkpoint before merging local changes" [] stamp s
 simp only [applyBundle,hbundle]
 by_cases hlarge:bundle.tooLarge=true
 · rw [if_pos hlarge]
   refine ⟨keeps_rfl.toGrows,fun _ _=>rfl,fun hnone=>?_⟩
   rw [hbundle] at hnone
   cases hnone
 · rw [if_neg hlarge]
   generalize (commitChanges git "Checkpoint before merging local changes" [] stamp s).1=s₁
    at hcommits ⊢
   cases fetched with
   | false=>
    rw [Bool.not_false,if_pos rfl]
    refine ⟨hcommits.keeps.toGrows,fun _ _=>by rw [hcommits.incoming],fun hnone=>?_⟩
    rw [hcommits.incoming,hbundle] at hnone
    cases hnone
   | true=>
    rw [Bool.not_true,if_neg Bool.false_ne_true]
    cases hmerge:mergeTip git bundle.tip stamp' s₁ with
    | error files=>
     refine ⟨⟨hcommits.history,hcommits.bundle⟩,fun other hother=>?_,fun _=>Or.inr ?_⟩
     · change (removeIncoming file _).incoming.lookup other=_
       rw [lookup_removeIncoming,if_neg hother]
       exact congrArg (List.lookup other) hcommits.incoming
     · refine ⟨files.take 1000, ?_⟩
       change s₁.events ++ _=_
       rw [hcommits.events]
    | ok s₂=>
     have ⟨hmain,htip⟩:=mergeTip_history git hmerge
     have ⟨hincoming,_⟩:=mergeTip_incoming git hmerge
     refine ⟨⟨?_,fun _=>rfl⟩,fun other hother=>?_,fun _=>Or.inl htip⟩
     · exact List.Subset.trans hcommits.history hmain
     · change (removeIncoming file _).incoming.lookup other=_
       rw [lookup_removeIncoming,if_neg hother]
       exact congrArg (List.lookup other) (hincoming.trans hcommits.incoming)
theorem Keeps.deleted (h:Keeps s s') {file:String} {bundle:Bundle}
  (hbundle:s.incoming.lookup file=some bundle) : s'.incoming.lookup file ≠ none := by
 rw [h.incoming,hbundle]
 nofun

theorem grows_step (action:Action) (s:State) : Grows s (step git action s) := by
 cases action with
 | write files=>exact ⟨List.Subset.refl _,fun h=>h⟩
 | push file bundle=>exact ⟨List.Subset.refl _,fun h=>h⟩
 | start=>exact ⟨List.Subset.refl _,fun _=>rfl⟩
 | afterTurn turnId summary stamp=>exact (keeps_afterTurn git turnId summary stamp s).toGrows
 | onFilesAdded added stamp=>exact (keeps_onFilesAdded git added stamp s).toGrows
 | beforeExit stamp=>
  exact (commits_commitChanges git "Checkpoint before sleep" [] stamp s).keeps.toGrows
 | applyBundle file fetched stamp stamp' =>
  cases hbundle:s.incoming.lookup file with
  | none=>
   simp only [step,applyBundle,hbundle]
   exact keeps_rfl.toGrows
  | some bundle=>exact (merges_applyBundle git hbundle fetched stamp stamp').grows
 | rollback turnId stamp stamp' =>exact (keeps_rollback git turnId stamp stamp' s).toGrows

theorem deleted_step (action:Action) {file:String} {bundle:Bundle}
  (hbundle:s.incoming.lookup file=some bundle)
  (hnone:(step git action s).incoming.lookup file=none) :
  bundle.tip.history ⊆ (step git action s).main.history ∨
   ∃ files, (step git action s).events=s.events ++ [.localMergeConflict files] := by
 cases action with
 | write files=>exact absurd hnone (by rw [step,hbundle]; nofun)
 | push other pushed=>
  change List.lookup file ((other,pushed)::s.incoming.filter fun b=>decide (b.1 ≠ other)) =
   none at hnone
  rw [AssociationList.lookup_cons_ite,
   AssociationList.lookup_filter_keys fun key=>decide (key ≠ other),hbundle] at hnone
  by_cases hfile:file=other
  · rw [if_pos (beq_iff_eq.mpr hfile)] at hnone
    cases hnone
  · rw [if_neg (by simp [hfile]),if_pos (by simp [hfile])] at hnone
    cases hnone
 | start=>exact absurd hnone (by rw [step,writeBundle,hbundle]; nofun)
 | afterTurn turnId summary stamp=>
  exact absurd hnone ((keeps_afterTurn git turnId summary stamp s).deleted hbundle)
 | onFilesAdded added stamp=>
  exact absurd hnone ((keeps_onFilesAdded git added stamp s).deleted hbundle)
 | beforeExit stamp=>
  have hkeeps:=(commits_commitChanges git "Checkpoint before sleep" [] stamp s).keeps
  exact absurd hnone (hkeeps.deleted hbundle)
 | applyBundle applied fetched stamp stamp' =>
  by_cases hfile:file=applied
  · rw [←hfile] at hnone ⊢
    exact (merges_applyBundle git hbundle fetched stamp stamp').deleted hnone
  · cases happlied:s.incoming.lookup applied with
    | none=>
     simp only [step,applyBundle,happlied,hbundle] at hnone
     cases hnone
    | some other=>
     have hothers:=(merges_applyBundle git happlied fetched stamp stamp').others file hfile
     cases hbundle.symm.trans (hothers.symm.trans hnone)
 | rollback turnId stamp stamp' =>
  exact absurd hnone ((keeps_rollback git turnId stamp stamp' s).deleted hbundle)

theorem bundle_run (actions:List Action) (main:Commit) (index files:Tree)
  (incoming:List (String × Bundle)) :
  (run (step git) actions (initial main index files incoming)).bundle =
   (run (step git) actions (initial main index files incoming)).main :=
 run_invariant (P := fun s=>s.bundle=s.main) (fun s action=>(grows_step git action s).bundle)
  actions rfl

/-- The newest commit of each turn on the line of main is the one that was told. -/
def Lined (s:State) : Prop :=
 ∀ turnId sha parent summary, .gitCommitted turnId sha parent summary ∈ s.events →
  Newest turnId s.main sha ∧ sha.parents.head? = some parent

/-- No turn is committed twice, and a fast-forward keeps main and its turns on the line. -/
def Orderly (s:State) : Action → Prop
 | .afterTurn turnId _ _=>
  ∀ sha parent summary, .gitCommitted turnId sha parent summary ∉ s.events
 | .applyBundle file _ stamp _=>∀ bundle, s.incoming.lookup file=some bundle →
  let main:=(commitChanges git "Checkpoint before merging local changes" [] stamp s).1.main
  main ∈ bundle.tip.history → bundle.tip ∉ main.history →
   ∃ newer, bundle.tip.line=newer ++ main.line ∧
    ∀ turnId sha parent summary, .gitCommitted turnId sha parent summary ∈ s.events →
     ∀ c ∈ newer, turnId ∉ c.info.trailers
 | _=>True

/-! ## A turn off the line -/

/-- A git without ignore files, in which no merge is needed. -/
def plainGit : Git := ⟨fun _ _=>false,fun _ _=>.error []⟩

def seed : Commit := .mk ⟨[],"Seed",[],""⟩ []

def turn : Commit := .mk ⟨[("data/a.l4","1")],"Add a",["t1"],""⟩ [seed]

def localCommit : Commit := .mk ⟨[("data/b.l4","2")],"Add b",[],""⟩ [seed]

def pulled : Commit :=
 .mk ⟨[("data/a.l4","1"),("data/b.l4","2")],"Merge branch 'main'",[],""⟩ [localCommit,turn]

/-- A turn is committed, and main is forwarded to the merge that the user made. -/
def forwarded : List Action :=
 [.write [("data/a.l4","1")],.afterTurn "t1" "Add a" "",.push "01.bundle" ⟨pulled,false⟩,
  .applyBundle "01.bundle" true "" ""]

theorem run_forwarded :
  .gitCommitted "t1" turn seed "Add a" ∈
    (run (step plainGit) forwarded (initial seed [] [] [])).events ∧
   (run (step plainGit) forwarded (initial seed [] [] [])).main=pulled ∧
   (treeOf (rollback plainGit "t1" "" ""
    (run (step plainGit) forwarded (initial seed [] [] []))).main).get "data/a.l4" =
     some "1" := by
 decide +kernel

end L4Ide.RollBackRestores
