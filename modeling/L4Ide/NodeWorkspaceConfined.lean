import L4Ide.AdmissibleRuns
import L4Ide.NodeWorkspace

set_option autoImplicit false

/-!
# The agent does not leave its workspace

Whatever links a tree has below the root, the operations read inside the root and outside of `.git`,
and change entries in `data/` and `tmp/` that no link leads to.
-/
namespace L4Ide.NodeWorkspaceConfined
open LinkedTree NodeWorkspace AdmissibleRuns

/-! ## What an operation may do -/

/-- Inside the real root, and outside of `.git`. -/
def Inside (s:State) (p:List String) : Prop :=
 ∃ rel, p=s.realRoot ++ rel ∧ ∀ part ∈ rel, isGitDir part=false

def isLink : Entry String Text → Bool
 | .link _ _=>true
 | _=>false

def Read (s:State) (path:Path) (content:Text) : Prop :=
 ∃ p, realpath s.files path = .ok p ∧ s.files p=some (.file content) ∧ Inside s p

def Shown (host:Host) (s:State) : Op → Output → Prop
 | .resolvePath _, .path p=>
  (∃ rel, p=s.root ++ rel ∧ ∀ part ∈ rel, isGitDir part=false) ∧
   ∀ real, realpath s.files (steps p) = .ok real → Inside s real
 | .stat path, .stat (some kind)=>
  ∃ p entry, lstat s.files path = .ok (p,entry) ∧ kind=kindOf entry ∧
   (Inside s p ∨ isLink entry=true ∧ ∃ real, realpath s.files path = .ok real ∧ Inside s real)
 | .readDirectory path, .entries listing=>
  ∃ p, realpath s.files path = .ok p ∧ Inside s p ∧
   ∀ n, listing n = if isGitDir n then none else (s.files (p ++ [n])).map kindOf
 | .readFile path, .text content=>Read s path content
 | .readDocument uri, .text content=>∃ path ∈ s.pathForUri host uri, Read s path content
 | _, _=>True

/-- Strictly inside `data/` or `tmp/`, or one of these directories itself. -/
def Changeable (root q:List String) : Prop :=
 ∃ top ∈ MODEL_WRITABLE_REPO_DIRS, ∃ rel, q=root ++ top::rel

structure Changes (root:List String) (before after:Files) : Prop where
 changeable : ∀ q, after q ≠ before q → Changeable root q
 /-- No directory is removed or replaced. -/
 kept : ∀ q, before q=some .directory → after q=some .directory
 /-- Only `data` and `tmp` themselves are made outside, and only where they are missing. -/
 made : ∀ top, after (root ++ [top]) ≠ before (root ++ [top]) →
  before (root ++ [top])=none ∧ after (root ++ [top])=some .directory
 /-- No link leads to a changed entry. -/
 real : ∀ q, after q ≠ before q → Directories after [] q.dropLast

structure Confined (host:Host) (s:State) (op:Op) : Prop where
 shown : Shown host s op (step host op s).2
 changes : Changes s.root s.files (step host op s).1.files

/-! ## Which operations are meant -/

/-- A path without `..`. -/
def Normal (path:Path) : Prop := .up ∉ path

/-- The paths of an operation are those that `resolvePath` and file URIs give. -/
def NormalOp (cwd:List String) : Op → Prop
 | .stat fsPath | .readDirectory fsPath | .readFile fsPath | .deleteFile fsPath=>Normal fsPath
 | .createFile fsPath _=>Normal fsPath
 | .readDocument uri=> "file:".toList.isPrefixOf uri=false → Normal (pathFrom cwd uri)
 | .applyEdits edits=>∀ e ∈ edits,
  "file:".toList.isPrefixOf e.uri=false → Normal (pathFrom cwd e.uri)
 | .resolvePath _ | .importFile _ _ | .setTurn _ | .ensureLayout=>True

/-- The root is a directory that no link leads to. -/
structure Placed (s:State) : Prop where
 real : s.realRoot=s.root
 directories : Directories s.files [] s.root

/-! ## Paths -/

section Paths

theorem normalize_steps (current p:List String) :
  normalize current (steps p)=current ++ p := by
 induction p generalizing current with
 | nil=>exact (List.append_nil current).symm
 | cons n p ih=>
  change normalize (current ++ [n]) (steps p)=_
  rw [ih,List.append_assoc,List.singleton_append]

theorem steps_append (p q:List String) : steps (p ++ q)=steps p ++ steps q := List.map_append

theorem Normal.eq_steps {path:Path} (h:Normal path) : path=steps (normalize [] path) := by
 suffices hsteps : ∃ p, path=steps p by
  have ⟨p,hp⟩:=hsteps
  rw [hp,normalize_steps,List.nil_append]
 induction path with
 | nil=>exact ⟨[],rfl⟩
 | cons step path ih=>
  have ⟨p,hp⟩:=ih fun hmem=>h (List.mem_cons_of_mem _ hmem)
  cases step with
  | up=>exact absurd List.mem_cons_self h
  | down n=>exact ⟨n::p,hp ▸ rfl⟩

theorem normal_steps (p:List String) : Normal (steps p) := by
 intro hmem
 have ⟨n,_,heq⟩:=List.mem_map.mp hmem
 cases heq

theorem relative_eq_some {root p rel:List String} : relative root p=some rel ↔ p=root ++ rel := by
 unfold relative
 split
 · rename_i hprefix
   have ⟨q,hq⟩:=List.isPrefixOf_iff_prefix.mp hprefix
   rw [←hq,List.drop_left,Option.some.injEq,List.append_cancel_left_eq]
 · rename_i hprefix
   refine ⟨nofun,fun h=>absurd ?_ hprefix⟩
   exact List.isPrefixOf_iff_prefix.mpr ⟨rel,h.symm⟩

theorem confined_eq_some {root p rel:List String} (h:confined root p=some rel) :
  p=root ++ rel ∧ ∀ part ∈ rel, isGitDir part=false := by
 unfold confined at h
 have ⟨hrel,hrest⟩:=Option.filter_eq_some_iff.mp h
 refine ⟨relative_eq_some.mp hrel,fun part hmem=>?_⟩
 have hgit:rel.any isGitDir=false:=by simpa using (Bool.and_eq_true_iff.mp hrest).2
 exact Bool.eq_false_iff.mpr (List.any_eq_false.mp hgit part hmem)

end Paths

/-! ## Reading -/

section Reading

variable {host:Host} {s:State}

variable {p:List String}

theorem nearest_found {real:List String} (h:realpath s.files (steps p) = .ok real)
  (missing:List String) : nearest s.files p.reverse missing=some (real ++ missing) := by
 cases hp:p.reverse with
 | nil=>
  have hnil:p=[]:=List.reverse_eq_nil_iff.mp hp
  rw [hnil] at h
  change realpath s.files []=_ at h
  rw [nearest,h]
 | cons n reversed=>
  rw [nearest,←hp,List.reverse_reverse,h]

theorem nearest_missing {n:String} {e:Errno}
  (h:realpath s.files (steps (p ++ [n])) = .error e) {located:List String}
  (hlocated:nearest s.files (p ++ [n]).reverse []=some located) :
  nearest s.files p.reverse [n]=some located := by
 rw [List.reverse_append,List.reverse_singleton,List.singleton_append,nearest,
  List.reverse_cons,List.reverse_reverse,h] at hlocated
 cases e with
 | enoent=>exact hlocated
 | enotdir=>exact hlocated
 | other=>cases hlocated

theorem realRelative_inside {real rel:List String} (h:s.realRelative p=some rel)
  (hreal:realpath s.files (steps p) = .ok real) : Inside s real := by
 unfold State.realRelative at h
 rw [nearest_found hreal,List.append_nil] at h
 have ⟨heq,hgit⟩:=confined_eq_some h
 exact ⟨rel,heq,hgit⟩

theorem assertInside_spec {path:Path} {rel:List String} (h:s.assertInside path=some rel) :
  (∃ written, normalize [] path=s.root ++ written ∧ ∀ part ∈ written, isGitDir part=false) ∧
   s.realRelative (normalize [] path)=some rel := by
 unfold State.assertInside at h
 dsimp only at h
 split at h
 · rename_i written hwritten
   exact ⟨⟨written,confined_eq_some hwritten⟩,h⟩
 · cases h

theorem assertInside_inside {path:Path} {rel real:List String} (hnormal:Normal path)
  (h:s.assertInside path=some rel) (hreal:realpath s.files path = .ok real) :
  Inside s real := by
 rw [hnormal.eq_steps] at hreal
 exact realRelative_inside (assertInside_spec h).2 hreal

theorem lstat_found {files:Files} {path:Path} {entry:Entry String Text}
  (h:lstat files path = .ok (p,entry)) :
  resolve files false MAX_LINKS [] path = .found p ∧ entryAt files p=some entry := by
 unfold lstat at h
 split at h
 · rename_i found hfound
   split at h
   · rename_i e hentry
     cases h
     exact ⟨hfound,hentry⟩
   · cases h
 · cases h
 · cases h
 · cases h

theorem realpath_of_lstat {files:Files} {path:Path}
  {entry:Entry String Text} (h:lstat files path = .ok (p,entry))
  (hlink:isLink entry=false) : realpath files path = .ok p := by
 have ⟨hfound,hentry⟩:=lstat_found h
 have hfollowed:resolve files true MAX_LINKS [] path = .found p:=by
  apply resolve_follow _ hfound
  intro fromRoot target hlinked
  rw [hentry] at hlinked
  cases hlinked
  exact Bool.noConfusion hlink
 unfold realpath
 rw [hfollowed]

theorem lstat_inside {path:Path} {rel:List String} {entry:Entry String Text}
  (hnormal:Normal path) (h:s.assertInside path=some rel)
  (hlstat:lstat s.files path = .ok (p,entry)) :
  Inside s p ∨ isLink entry=true ∧ ∃ real, realpath s.files path = .ok real ∧ Inside s real := by
 cases hlink:isLink entry with
 | false=>exact .inl (assertInside_inside hnormal h (realpath_of_lstat hlstat hlink))
 | true=>
  cases hreal:realpath s.files path with
  | ok real=>exact .inr ⟨rfl,real,rfl,assertInside_inside hnormal h hreal⟩
  | error e=>
   refine .inl ?_
   have ⟨hfound,hentry⟩:=lstat_found hlstat
   have hrelative:=(assertInside_spec h).2
   rw [hnormal.eq_steps] at hfound hreal
   generalize normalize [] path=absolute at hfound hreal hrelative
   unfold State.realRelative at hrelative
   cases List.eq_nil_or_concat absolute with
   | inl hnil=>
    rw [hnil] at hreal
    cases hreal
   | inr hconcat=>
    have ⟨q,n,hq⟩:=hconcat
    rw [List.concat_eq_append] at hq
    subst hq
    rw [steps_append] at hfound
    have ⟨directory,hdirectory,hp⟩:=resolve_dirname hfound
    have hparent:realpath s.files (steps q) = .ok directory:=by
     rw [realpath,hdirectory]
    have ⟨located,hlocated,hconfined⟩:=Option.bind_eq_some_iff.mp hrelative
    have hpopped:=nearest_missing hreal hlocated
    rw [nearest_found hparent,Option.some.injEq] at hpopped
    have ⟨heq,hgit⟩:=confined_eq_some hconfined
    exact ⟨rel,hp.trans (hpopped.trans heq),hgit⟩

theorem stat_shown {path:Path} {kind:Kind} (hnormal:Normal path)
  (h:s.stat path = .stat (some kind)) : Shown host s (.stat path) (.stat (some kind)) := by
 unfold State.stat at h
 split at h
 · rename_i rel p entry hinside hlstat
   cases h
   exact ⟨p,entry,hlstat,rfl,lstat_inside hnormal hinside hlstat⟩
 · cases h
 · cases h

theorem readFile_read {path:Path} {content:Text} (hnormal:Normal path)
  (h:s.readFile path=some content) : Read s path content := by
 unfold State.readFile at h
 split at h
 · rename_i rel p text hinside hlstat
   split at h
   · cases h
   · cases h
     have hreal:=realpath_of_lstat hlstat rfl
     refine ⟨p,hreal, ?_,assertInside_inside hnormal hinside hreal⟩
     have hentry:=(lstat_found hlstat).2
     cases p with
     | nil=>cases hentry
     | cons n p=>exact hentry
 · cases h

theorem resolvePath_shown (p:Text) : Shown host s (.resolvePath p) (s.resolvePath p) := by
 unfold State.resolvePath
 split
 · trivial
 · dsimp only
   split
   · rename_i rel located hrel hlocated
     refine ⟨⟨rel,confined_eq_some hrel⟩,fun real hreal=>?_⟩
     exact realRelative_inside hlocated hreal
   · trivial

theorem readDirectory_shown {path:Path} (hnormal:Normal path) :
  Shown host s (.readDirectory path) (s.readDirectory path) := by
 unfold State.readDirectory
 split
 · rename_i rel directory hinside hreal
   split
   · exact ⟨directory,hreal,assertInside_inside hnormal hinside hreal,fun n=>rfl⟩
   · trivial
 · trivial

theorem pathForUri_normal {uri:Text} {path:Path}
  (hnormal : "file:".toList.isPrefixOf uri=false → Normal (pathFrom s.cwd uri))
  (h:s.pathForUri host uri=some path) : Normal path := by
 unfold State.pathForUri at h
 split at h
 · have ⟨p,_,hp⟩:=Option.map_eq_some_iff.mp h
   exact hp ▸ normal_steps p
 · rename_i hfile
   cases h
   exact hnormal (Bool.eq_false_iff.mpr hfile)

theorem step_shown {op:Op} (hnormal:NormalOp s.cwd op) :
  Shown host s op (step host op s).2 := by
 cases op with
 | resolvePath p=>exact resolvePath_shown p
 | stat fsPath=>
  change Shown host s (.stat fsPath) (s.stat fsPath)
  cases hstat:s.stat fsPath with
  | stat kind=>
   cases kind with
   | none=>trivial
   | some kind=>exact stat_shown hnormal hstat
  | failed=>trivial
  | path p=>trivial
  | entries listing=>trivial
  | text content=>trivial
  | done=>trivial
 | readDirectory fsPath=>exact readDirectory_shown hnormal
 | readFile fsPath=>
  change Shown host s (.readFile fsPath) (State.shown (s.readFile fsPath))
  cases hread:s.readFile fsPath with
  | none=>trivial
  | some content=>exact readFile_read hnormal hread
 | readDocument uri=>
  change Shown host s (.readDocument uri) (State.shown (s.readDocument host uri))
  cases hread:s.readDocument host uri with
  | none=>trivial
  | some content=>
   have ⟨path,hpath,hcontent⟩:=Option.bind_eq_some_iff.mp hread
   exact ⟨path,hpath,readFile_read (pathForUri_normal hnormal hpath) hcontent⟩
 | createFile fsPath content=>trivial
 | applyEdits edits=>trivial
 | deleteFile fsPath=>trivial
 | importFile source repoRelPath=>trivial
 | setTurn turnId=>trivial
 | ensureLayout=>trivial

end Reading

/-! ## Changing -/

section Changing

variable {root:List String} {before middle after files:Files}

theorem Changes.refl (root:List String) (files:Files) : Changes root files files :=
 ⟨fun _ h=>absurd rfl h,fun _ h=>h,fun _ h=>absurd rfl h,fun _ h=>absurd rfl h⟩

theorem Changes.trans (h:Changes root before middle) (h' : Changes root middle after) :
  Changes root before after where
 changeable := by
  intro q hq
  by_cases heq:after q=middle q
  · exact h.changeable q (heq ▸ hq)
  · exact h'.changeable q heq
 kept:=fun q hq=>h'.kept q (h.kept q hq)
 made := by
  intro top hq
  by_cases hfirst:middle (root ++ [top])=before (root ++ [top])
  · rw [←hfirst] at hq ⊢
    exact h'.made top hq
  · have ⟨hnone,hdirectory⟩:=h.made top hfirst
    exact ⟨hnone,h'.kept _ hdirectory⟩
 real := by
  intro q hq
  by_cases heq:after q=middle q
  · exact (h.real q (heq ▸ hq)).of_eq h'.kept
  · exact h'.real q heq

/-- Strictly inside `data/` or `tmp/`. -/
def Below (rel:List String) : Prop :=
 ∃ top ∈ MODEL_WRITABLE_REPO_DIRS, ∃ n more, rel=top::n::more

theorem changes_update {rel:List String} (hbelow:Below rel)
  (hdirectories:Directories files [] (root ++ rel).dropLast)
  (hfile:files (root ++ rel) ≠ some .directory) (entry:Option (Entry String Text)) :
  Changes root files (Function.update files (root ++ rel) entry) := by
 have ⟨top,htop,n,more,hrel⟩:=hbelow
 have hkept:∀ q, files q=some .directory →
   Function.update files (root ++ rel) entry q=some .directory := by
  intro q hq
  rw [Function.update_of_ne]
  · exact hq
  · exact fun heq=>hfile (heq ▸ hq)
 have honly:∀ q, Function.update files (root ++ rel) entry q ≠ files q → q=root ++ rel:=by
  intro q hq
  by_contra hne
  exact hq (Function.update_of_ne hne _ _)
 refine ⟨fun q hq=>?_,hkept,fun t ht=>?_,fun q hq=>?_⟩
 · exact ⟨top,htop,n::more,hrel ▸ honly q hq⟩
 · have heq:=List.append_cancel_left (honly _ ht)
   rw [hrel] at heq
   cases heq
 · rw [honly q hq]
   exact hdirectories.of_eq hkept

/-! ### Directories -/

variable {p current:List String} {fsPath:Path}

theorem directory_of_directories (h:Directories files [] p) :
  entryAt files p=some .directory := by
 cases List.eq_nil_or_concat p with
 | inl hnil=>rw [hnil]; rfl
 | inr hconcat=>
  have ⟨q,n,hq⟩:=hconcat
  rw [List.concat_eq_append] at hq
  subst hq
  rw [entryAt_append]
  exact (Directories.append.mp h).2.1

theorem realpath_directories (h:Directories files [] p) :
  realpath files (steps p) = .ok p := by
 have hresolve:=resolve_directories true h MAX_LINKS []
 rw [List.append_nil,List.nil_append] at hresolve
 unfold realpath
 rw [hresolve]
 rfl

theorem lstat_directories (h:Directories files [] p) (n:String) :
  lstat files (steps (p ++ [n])) =
   match files (p ++ [n]) with
   | none=>.error .enoent
   | some entry=>.ok (p ++ [n],entry) := by
 have hresolve:=resolve_directories false h MAX_LINKS (steps [n])
 rw [List.nil_append,←steps_append] at hresolve
 have hlast:resolve files false MAX_LINKS p (steps [n])=_:=resolve_last MAX_LINKS p n
 unfold lstat
 rw [hresolve,hlast]
 cases hentry:files (p ++ [n]) with
 | none=>rfl
 | some entry=>simp [entryAt_append,hentry]

theorem parent_directories (h:Directories files [] p) (n:String) :
  parent files (steps (p ++ [n]))=some (p,n) := by
 have hlast:(steps (p ++ [n])).getLast? = some (.down n):=by simp [steps]
 have hinit:(steps (p ++ [n])).dropLast=steps p:=by simp [steps]
 unfold parent
 rw [hlast,hinit,realpath_directories h]
 simp [directory_of_directories h]

structure Made (files after:Files) (current parts:List String) : Prop where
 new : ∀ q, after q ≠ files q → files q=none ∧ after q=some .directory ∧
  Directories after [] q.dropLast ∧ ∃ done more, parts=done ++ more ∧ done ≠ [] ∧
   q=current ++ done

theorem Made.kept {parts:List String} (h:Made files after current parts)
  (q:List String) {entry:Entry String Text} (hq:files q=some entry) :
  after q=some entry := by
 by_contra hne
 have hchanged:after q ≠ files q:=fun heq=>hne (heq.trans hq)
 have hnone:=(h.new q hchanged).1
 rw [hq] at hnone
 cases hnone

theorem Made.below {parts:List String} {part:String}
  (h:Made files after (current ++ [part]) parts) : Made files after current (part::parts) where
 new := by
  intro q hq
  have ⟨hnone,hdirectory,hreal,done,more,hparts,_,hat⟩:=h.new q hq
  refine ⟨hnone,hdirectory,hreal,part::done,more,hparts ▸ rfl,List.cons_ne_nil _ _, ?_⟩
  rw [hat,List.append_assoc,List.singleton_append]

theorem Made.first {parts:List String} {part:String}
  (hfree:files (current ++ [part])=none) (hcurrent:Directories files [] current)
  (h:Made (Function.update files (current ++ [part]) (some .directory)) after
   (current ++ [part]) parts) : Made files after current (part::parts) where
 new := by
  intro q hq
  by_cases hat:q=current ++ [part]
  · have hdirectory:after (current ++ [part])=some .directory:=
     h.kept _ (Function.update_self _ _ _)
    have hkept:∀ p, files p=some .directory → after p=some .directory:=by
     intro p hp
     have hne:p ≠ current ++ [part]:=fun heq=>by simp [←heq,hp] at hfree
     exact h.kept p ((Function.update_of_ne hne _ _).trans hp)
    rw [hat]
    refine ⟨hfree,hdirectory, ?_,[part],parts,rfl,List.cons_ne_nil _ _,rfl⟩
    rw [List.dropLast_concat]
    exact hcurrent.of_eq hkept
  · have hsame:=Function.update_of_ne hat (some Entry.directory) files
    have hchanged:after q ≠ Function.update files (current ++ [part]) (some .directory) q:=by
     rw [hsame]
     exact hq
    have ⟨hnone,hrest⟩:=h.below.new q hchanged
    exact ⟨hsame ▸ hnone,hrest⟩

theorem ensureDir_spec (parts:List String) (h:Directories files [] current) :
  Made files (ensureDirNoFollow files current parts).1 current parts ∧
   ((ensureDirNoFollow files current parts).2=true →
    Directories (ensureDirNoFollow files current parts).1 [] (current ++ parts)) := by
 induction parts generalizing files current with
 | nil=>
  rw [List.append_nil]
  exact ⟨⟨fun q hq=>absurd rfl hq⟩,fun _=>h⟩
 | cons part parts ih=>
  unfold ensureDirNoFollow
  rw [lstat_directories h part]
  cases hentry:files (current ++ [part]) with
  | none=>
   dsimp only
   unfold mkdir
   rw [parent_directories h]
   dsimp only
   rw [if_pos hentry]
   dsimp only
   have hmade:Directories (Function.update files (current ++ [part]) (some .directory)) []
     (current ++ [part]) := by
    refine Directories.append.mpr ⟨h.of_eq fun q hq=>?_,Function.update_self _ _ _,trivial⟩
    have hne:q ≠ current ++ [part]:=fun heq=>by simp [←heq,hq] at hentry
    exact (Function.update_of_ne hne _ _).trans hq
   have ⟨hnew,hall⟩:=ih hmade
   rw [List.append_assoc,List.singleton_append] at hall
   exact ⟨hnew.first hentry h,hall⟩
  | some entry=>
   cases entry with
   | directory=>
    have hdirectories:Directories files [] (current ++ [part]):=
     Directories.append.mpr ⟨h,hentry,trivial⟩
    have ⟨hnew,hall⟩:=ih hdirectories
    rw [List.append_assoc,List.singleton_append] at hall
    exact ⟨hnew.below,hall⟩
   | file content=>exact ⟨⟨fun q hq=>absurd rfl hq⟩,fun hfalse=>by cases hfalse⟩
   | link fromRoot target=>
    exact ⟨⟨fun q hq=>absurd rfl hq⟩,fun hfalse=>by cases hfalse⟩
   | special=>exact ⟨⟨fun q hq=>absurd rfl hq⟩,fun hfalse=>by cases hfalse⟩

theorem Made.changes {top:String} {parts:List String} (h:Made files after root (top::parts))
  (htop:top ∈ MODEL_WRITABLE_REPO_DIRS) : Changes root files after where
 changeable := by
  intro q hq
  have ⟨_,_,_,done,more,hparts,hne,hat⟩:=h.new q hq
  cases done with
  | nil=>exact absurd rfl hne
  | cons first done=>
   rw [List.cons_append,List.cons.injEq] at hparts
   exact ⟨top,htop,done,hparts.1 ▸ hat⟩
 kept:=fun q hq=>h.kept q hq
 made:=fun t ht=>⟨(h.new _ ht).1,(h.new _ ht).2.1⟩
 real:=fun q hq=>(h.new q hq).2.2.1

/-! ### Checks -/

theorem assertNoLinks_linkFree {parts:List String} (h:Directories files [] current)
  (hchecked:State.assertNoLinks files current parts=true) : LinkFree files current parts := by
 induction parts generalizing current with
 | nil=>trivial
 | cons part parts ih=>
  unfold State.assertNoLinks at hchecked
  rw [lstat_directories h part] at hchecked
  unfold LinkFree
  cases hentry:files (current ++ [part]) with
  | none=>trivial
  | some entry=>
   rw [hentry] at hchecked
   cases entry with
   | directory=>exact ih (Directories.append.mpr ⟨h,hentry,trivial⟩) hchecked
   | link fromRoot target=>exact Bool.noConfusion hchecked
   | file content=>trivial
   | special=>trivial

theorem below_of_writable {rel:List String} (h:isModelWritableRepoPath rel=true) :
  Below rel := by
 have ⟨hlength,_,htop⟩:=of_decide_eq_true h
 cases rel with
 | nil=>exact absurd hlength (by decide)
 | cons top rel=>
  cases rel with
  | nil=>exact absurd hlength (by simp)
  | cons n more=>exact ⟨top,htop top rfl,n,more,rfl⟩

variable {s:State}

theorem assertWritable_spec (hplaced:Placed s) {fence linkAtEnd:Bool} {path:Path}
  (h:s.assertWritable fence path linkAtEnd=true) :
  ∃ rel, normalize [] path=s.root ++ rel ∧ Below rel ∧
   LinkFree s.files s.root (if linkAtEnd then rel.dropLast else rel) := by
 unfold State.assertWritable at h
 rw [Bool.and_eq_true] at h
 have h:=h.2
 split at h
 · exact Bool.noConfusion h
 · rename_i real hinside
   have ⟨⟨rel,hrel,_⟩,_⟩:=assertInside_spec hinside
   rw [hrel,List.drop_left,Bool.and_eq_true,Bool.and_eq_true] at h
   exact ⟨rel,hrel,below_of_writable h.1.2,
    assertNoLinks_linkFree hplaced.directories h.1.1⟩

/-! ### Operations -/

structure Moves (s s' : State) : Prop where
 root : s'.root=s.root
 realRoot : s'.realRoot=s.realRoot
 cwd : s'.cwd=s.cwd
 changes : Changes s.root s.files s'.files

theorem Moves.refl (s:State) : Moves s s := ⟨rfl,rfl,rfl,.refl _ _⟩

theorem Moves.trans {s' s'' : State} (h:Moves s s') (h' : Moves s' s'') : Moves s s'' :=
 ⟨h'.root.trans h.root,h'.realRoot.trans h.realRoot,h'.cwd.trans h.cwd,
  h.changes.trans (h.root ▸ h'.changes)⟩

theorem Moves.placed {s' : State} (h:Moves s s') (hplaced:Placed s) : Placed s' where
 real:=h.realRoot.trans (hplaced.real.trans h.root.symm)
 directories:=h.root ▸ hplaced.directories.of_eq h.changes.kept

theorem ensureBelow_spec (hplaced:Placed s) {top:String} (parts:List String)
  (htop:top ∈ MODEL_WRITABLE_REPO_DIRS) :
  Moves s (s.ensureBelow (s.root ++ top::parts)).1 ∧
   ((s.ensureBelow (s.root ++ top::parts)).2=true →
    Directories (s.ensureBelow (s.root ++ top::parts)).1.files [] (s.root ++ top::parts)) := by
 unfold State.ensureBelow
 rw [relative_eq_some.mpr rfl]
 dsimp only
 split
 · exact ⟨.refl s,fun h=>Bool.noConfusion h⟩
 · have ⟨hmade,hall⟩:=ensureDir_spec (top::parts) hplaced.directories
   exact ⟨⟨rfl,rfl,rfl,hmade.changes htop⟩,hall⟩

theorem dropLast_below {root rel:List String} (h:Below rel) :
  ∃ top ∈ MODEL_WRITABLE_REPO_DIRS, ∃ parts n, rel=rel.dropLast ++ [n] ∧
   (root ++ rel).dropLast=root ++ top::parts ∧
    root ++ rel=(root ++ rel).dropLast ++ [n] := by
 have ⟨top,htop,n,more,hrel⟩:=h
 cases List.eq_nil_or_concat (n::more) with
 | inl hnil=>cases hnil
 | inr hconcat=>
  have ⟨parts,last,heq⟩:=hconcat
  rw [List.concat_eq_append] at heq
  have hsplit:rel=(top::parts) ++ [last]:=by rw [hrel,heq,List.cons_append]
  refine ⟨top,htop,parts,last, ?_, ?_, ?_⟩
  · rw [hsplit,List.dropLast_concat]
  · rw [hsplit,←List.append_assoc,List.dropLast_concat]
  · rw [hsplit,←List.append_assoc,List.dropLast_concat]

/-- A file is created, or takes the place of one, below a directory that no link leads to. -/
theorem openCreate_spec {rel:List String} (hbelow:Below rel)
  (hdirectories:Directories files [] (root ++ rel).dropLast) {exclusive:Bool} {content:Text}
  (h:openCreate exclusive files (steps (root ++ rel)) content=some after) :
  Changes root files after := by
 have ⟨_,_,_,n,_,_,hpath⟩:=@dropLast_below root _ hbelow
 unfold openCreate at h
 rw [hpath,parent_directories hdirectories] at h
 dsimp only at h
 rw [←hpath] at h
 split at h
 · rename_i hnone
   cases h
   exact changes_update hbelow hdirectories (by simp [hnone]) _
 · rename_i hfile
   split at h
   · cases h
   · cases h
     exact changes_update hbelow hdirectories (by simp [hfile]) _
 · cases h

theorem unlink_spec {rel:List String} (hbelow:Below rel)
  (hdirectories:Directories files [] (root ++ rel).dropLast)
  (h:unlink files (steps (root ++ rel))=some after) : Changes root files after := by
 have ⟨_,_,_,n,_,_,hpath⟩:=@dropLast_below root _ hbelow
 unfold unlink at h
 rw [hpath,parent_directories hdirectories] at h
 dsimp only at h
 rw [←hpath] at h
 split at h
 · cases h
 · cases h
 · rename_i entry hnot hentry
   cases h
   exact changes_update hbelow hdirectories (fun hdirectory=>hnot (by simpa [hentry] using hdirectory)) _

theorem written_moves {files' : Option Files}
  (h:∀ after, files' = some after → Changes s.root s.files after) :
  Moves s (s.written files').1 := by
 unfold State.written
 cases files' with
 | none=>exact .refl s
 | some after=>exact ⟨rfl,rfl,rfl,h after rfl⟩

theorem create_moves (hplaced:Placed s) {rel:List String} (hbelow:Below rel)
  (exclusive:Bool) (content:Text) {made:State × Bool}
  (hmade:made=s.ensureBelow (s.root ++ rel).dropLast) :
  Moves s made.1 ∧ (made.2=true →
   ∀ after, openCreate exclusive made.1.files (steps (s.root ++ rel)) content=some after →
    Changes made.1.root made.1.files after) := by
 have ⟨top,htop,parts,n,_,hdropped,_⟩:=@dropLast_below s.root _ hbelow
 have ⟨hmoves,hall⟩:=ensureBelow_spec hplaced parts htop
 rw [hmade,hdropped]
 refine ⟨hmoves,fun hok after hafter=>?_⟩
 rw [hmoves.root]
 exact openCreate_spec hbelow (hdropped ▸ hall hok) hafter

theorem normalize_dropLast {path:Path} (hnormal:Normal path) :
  normalize [] path.dropLast=(normalize [] path).dropLast := by
 conv_lhs=>rw [hnormal.eq_steps]
 have hdropped:(steps (normalize [] path)).dropLast=steps (normalize [] path).dropLast:=
  List.map_dropLast.symm
 rw [hdropped,normalize_steps,List.nil_append]

variable {host:Host}

theorem createFile_moves (hplaced:Placed s) (hnormal:Normal fsPath)
  (content:Text) : Moves s (s.createFile host fsPath content).1 := by
 unfold State.createFile
 split
 · rename_i hwritable
   have ⟨rel,hrel,hbelow,_⟩:=assertWritable_spec hplaced hwritable
   have hpath:fsPath=steps (s.root ++ rel):=hrel ▸ hnormal.eq_steps
   have hcreate:=create_moves hplaced hbelow true content rfl
   rw [normalize_dropLast hnormal,hrel,hpath]
   dsimp only
   split
   · rename_i hok
     exact hcreate.1.trans (written_moves (hcreate.2 (Bool.and_eq_true_iff.mp hok).1))
   · exact hcreate.1
 · exact .refl s

theorem importFile_moves (hplaced:Placed s) (source:Option Text) (repoRelPath:Text) :
  Moves s (s.importFile host source repoRelPath).1 := by
 unfold State.importFile
 generalize normalize s.root (components repoRelPath)=destination
 dsimp only
 split
 · rename_i hwritable
   have ⟨rel,hrel,hbelow,_⟩:=assertWritable_spec hplaced hwritable
   rw [normalize_steps,List.nil_append] at hrel
   subst hrel
   cases source with
   | none=>exact .refl s
   | some content=>
    have hcreate:=create_moves hplaced hbelow false content rfl
    dsimp only
    split
    · exact .refl s
    · split
      · rename_i hok
        exact hcreate.1.trans (written_moves (hcreate.2 (Bool.and_eq_true_iff.mp hok).1))
      · exact hcreate.1
 · exact .refl s

theorem ensureLayout_moves (hplaced:Placed s) : Moves s (s.ensureLayout host).1 := by
 have hdata:=(ensureBelow_spec hplaced [] (List.mem_cons_self (a := REPO_DATA_DIR))).1
 unfold State.ensureLayout
 split
 · dsimp only
   split
   · have htmp:=(@ensureBelow_spec _ (hdata.placed hplaced) REPO_TMP_DIR []
      (List.mem_cons_of_mem _ List.mem_cons_self)).1
     rw [hdata.root] at htmp
     exact hdata.trans htmp
   · exact hdata
 · exact .refl s

/-! ### Deleting -/

theorem below_deletedCopyPath (turnId:String) (rel:List String) :
  Below (State.deletedCopyPath turnId rel) :=
 ⟨REPO_TMP_DIR,List.mem_cons_of_mem _ List.mem_cons_self,"deleted",_,rfl⟩

theorem copyBeforeDelete_moves (hplaced:Placed s) {copied:State}
  (h:s.copyBeforeDelete host fsPath=some copied) : Moves s copied := by
 unfold State.copyBeforeDelete at h
 split at h
 · rename_i turnId rel _ _
   have hbelow:=below_deletedCopyPath turnId rel
   split at h
   · cases h
     exact .refl s
   · split at h
     · cases h
     · dsimp only at h
       split at h
       · rename_i content _
         have hcreate:=create_moves hplaced hbelow true content rfl
         split at h
         · cases h
           exact .refl s
         · split at h
           · rename_i hok
             split at h
             · rename_i after hafter
               cases h
               have hchanges:=hcreate.2 (Bool.and_eq_true_iff.mp hok).1 after hafter
               exact hcreate.1.trans ⟨rfl,rfl,rfl,hchanges⟩
             · split at h
               · cases h
                 exact hcreate.1.trans ⟨rfl,rfl,rfl,.refl _ _⟩
               · cases h
                 exact hcreate.1
           · cases h
             exact hcreate.1
       · cases h
         exact .refl s
 · cases h
   exact .refl s

theorem directories_of_lstat (hplaced:Placed s) {rel:List String} (hbelow:Below rel)
  (hlinks:LinkFree s.files s.root rel.dropLast) {found:List String × Entry String Text}
  (h:lstat s.files (steps (s.root ++ rel)) = .ok found) :
  Directories s.files [] (s.root ++ rel).dropLast := by
 have ⟨_,_,_,n,hinit,_⟩:=@dropLast_below s.root _ hbelow
 have ⟨hfound,_⟩:=lstat_found h
 rw [hinit,steps_append,resolve_directories false hplaced.directories,List.nil_append,
  steps_append] at hfound
 have hbelowRoot:=resolve_linkFree hlinks hfound
 rw [hinit,←List.append_assoc,List.dropLast_concat]
 exact Directories.append.mpr ⟨hplaced.directories,hbelowRoot⟩

theorem deleteFile_moves (hplaced:Placed s) (hnormal:Normal fsPath) :
  Moves s (s.deleteFile host fsPath).1 := by
 unfold State.deleteFile
 split
 · rename_i hwritable
   have ⟨rel,hrel,hbelow,hlinks⟩:=assertWritable_spec hplaced hwritable
   have hpath:fsPath=steps (s.root ++ rel):=hrel ▸ hnormal.eq_steps
   split
   · exact .refl s
   · rename_i entry hentry
     split
     · rename_i copied hcopied
       have hmoves:=copyBeforeDelete_moves hplaced hcopied
       have hdirectories:=directories_of_lstat hplaced hbelow hlinks (hpath ▸ hentry)
       refine hmoves.trans (written_moves fun after hafter=>?_)
       rw [hpath,←hmoves.root] at hafter
       apply unlink_spec hbelow _ hafter
       exact hmoves.root ▸ hdirectories.of_eq hmoves.changes.kept
     · exact .refl s
   · exact .refl s
 · exact .refl s

/-! ### Edits -/

def Target (root:List String) (files:Files) (path:Path) : Prop :=
 ∃ rel, path=steps (root ++ rel) ∧ Below rel ∧ Directories files [] (root ++ rel).dropLast

theorem Target.kept {path:Path} (h:Target root before path)
  (hkept:∀ q, before q=some .directory → after q=some .directory) :
  Target root after path := by
 have ⟨rel,hpath,hbelow,hdirectories⟩:=h
 exact ⟨rel,hpath,hbelow,hdirectories.of_eq hkept⟩

theorem readFile_found {path:Path} {content:Text} (h:s.readFile path=some content) :
  ∃ found, lstat s.files path = .ok found := by
 unfold State.readFile at h
 split at h
 · rename_i rel p text hinside hlstat
   exact ⟨_,hlstat⟩
 · cases h

theorem editResults_targets (hplaced:Placed s) {edits:List TextEdit} {uris:List Text}
  (hnormal:∀ uri ∈ uris, ∀ path, s.pathForUri host uri=some path → Normal path) {i:ℕ}
  {results:List (Path × Text)} (h:State.editResults host edits s i uris=some results) :
  ∀ result ∈ results, Target s.root s.files result.1 := by
 induction uris generalizing i results with
 | nil=>
  cases h
  intro result hmem
  cases hmem
 | cons uri uris ih=>
  unfold State.editResults at h
  split at h
  · cases h
  · rename_i path hpath
    split at h
    · rename_i hwritable
      split at h
      · cases h
      · rename_i content hread
        split at h
        · rename_i text rest _ hrest
          cases h
          have ⟨rel,hrel,hbelow,hlinks⟩:=assertWritable_spec hplaced hwritable
          have heq:path=steps (s.root ++ rel):=
           hrel ▸ (hnormal uri List.mem_cons_self path hpath).eq_steps
          have ⟨found,hfound⟩:=readFile_found hread
          have hdirectories:=
           directories_of_lstat hplaced hbelow (LinkFree.dropLast hlinks) (heq ▸ hfound)
          intro result hmem
          cases List.mem_cons.mp hmem with
          | inl hfirst=>
           rw [hfirst]
           exact ⟨rel,heq,hbelow,hdirectories⟩
          | inr hlater=>
           exact ih (fun uri hmem=>hnormal uri (List.mem_cons_of_mem _ hmem)) hrest result hlater
        · cases h
    · cases h

theorem overwrite_spec {path:Path} (htarget:Target root files path) {content:Text}
  (h:overwrite files path content=some after) : Changes root files after := by
 have ⟨rel,hpath,hbelow,hdirectories⟩:=htarget
 have ⟨_,_,_,n,_,_,heq⟩:=@dropLast_below root _ hbelow
 unfold overwrite at h
 rw [hpath,heq,lstat_directories hdirectories n,←heq] at h
 cases hentry:files (root ++ rel) with
 | none=>simp [hentry] at h
 | some entry=>
  rw [hentry] at h
  cases entry with
  | file text=>
   cases h
   exact changes_update hbelow hdirectories (by simp [hentry]) _
  | directory=>cases h
  | link fromRoot target=>cases h
  | special=>cases h

theorem writeResults_moves {results:List (Path × Text)} {s:State}
  (htargets:∀ result ∈ results, Target s.root s.files result.1) :
  Moves s (State.writeResults results s).1 := by
 induction results generalizing s with
 | nil=>exact .refl s
 | cons result results ih=>
  have ⟨path,text⟩:=result
  unfold State.writeResults
  split
  · rename_i after hafter
    have hchanges:=overwrite_spec (htargets _ List.mem_cons_self) hafter
    have hfirst:Moves s { s with files:=after }:=⟨rfl,rfl,rfl,hchanges⟩
    apply hfirst.trans (ih _)
    intro result hmem
    exact (htargets result (List.mem_cons_of_mem _ hmem)).kept hchanges.kept
  · exact .refl s

theorem applyEdits_moves (hplaced:Placed s) {edits:List TextEdit}
  (hnormal:NormalOp s.cwd (.applyEdits edits)) : Moves s (s.applyEdits host edits).1 := by
 unfold State.applyEdits
 split
 · rename_i results hresults
   apply writeResults_moves
   apply editResults_targets hplaced _ hresults
   intro uri hmem path hpath
   have ⟨e,he,heq⟩:=List.mem_map.mp (List.mem_eraseDups.mp hmem)
   exact pathForUri_normal (heq ▸ hnormal e he) hpath
 · exact .refl s

theorem step_moves (hplaced:Placed s) {op:Op} (hnormal:NormalOp s.cwd op) :
  Moves s (step host op s).1 := by
 cases op with
 | resolvePath p=>exact .refl s
 | stat fsPath=>exact .refl s
 | readDirectory fsPath=>exact .refl s
 | readFile fsPath=>exact .refl s
 | readDocument uri=>exact .refl s
 | createFile fsPath content=>exact createFile_moves hplaced hnormal content
 | applyEdits edits=>exact applyEdits_moves hplaced hnormal
 | deleteFile fsPath=>exact deleteFile_moves hplaced hnormal
 | importFile source repoRelPath=>exact importFile_moves hplaced source repoRelPath
 | setTurn turnId=>exact ⟨rfl,rfl,rfl,.refl _ _⟩
 | ensureLayout=>exact ensureLayout_moves hplaced

end Changing

/-! ## Runs -/

section Runs

variable {s:State}

/-- The state after an operation of a run, each operation with its own checks of the lease. -/
def next (call:Host × Op) (s:State) : State := (step call.1 call.2 s).1

/-- However links lie in the tree, and after any operations, an operation shows only what is inside
and changes only what is in `data/` and `tmp/`. -/
theorem operations_confined (hplaced:Placed s) (calls:List (Host × Op))
  (hcalls:∀ call ∈ calls, NormalOp s.cwd call.2) (host:Host) {op:Op}
  (hop:NormalOp s.cwd op) : Confined host (run next calls s) op := by
 have hrun:Placed (run next calls s) ∧ (run next calls s).cwd=s.cwd:=by
  induction calls generalizing s with
  | nil=>exact ⟨hplaced,rfl⟩
  | cons call calls ih=>
   have hmoves:=@step_moves s call.1 hplaced _ (hcalls call List.mem_cons_self)
   have hrest:=@ih (next call s) (hmoves.placed hplaced)
   have hcwd:(next call s).cwd=s.cwd:=hmoves.cwd
   rw [hcwd] at hrest
   exact hrest (fun call hmem=>hcalls call (List.mem_cons_of_mem _ hmem)) hop
 have hnormal:NormalOp (run next calls s).cwd op:=hrun.2.symm ▸ hop
 exact ⟨step_shown hnormal,(step_moves hrun.1 hnormal).changes⟩

/-! ### Some trees -/

def host : Host := ⟨fun _=>none,fun _=>true⟩

def workspace (files:Files) : State := ⟨["repo"],["repo"],["repo"],some "1",[],files⟩

/-- A repository without anything in it. -/
def bare : Files := fun p=>if p=["repo"] then some .directory else none

/-- A link in `data/` to a directory outside, beside a file. -/
def linked : Files := fun p=>
 if p ∈ [["repo"],["repo","data"],["out"]] then some .directory
 else if p=["repo","data","l"] then some (.link true [.down "out"])
 else if p=["out","x"] ∨ p=["secret"] then some (.file ['s'])
 else none

def written : Path := steps ["repo","data","x"]

theorem operations_confined_linked :
  Placed (workspace linked) ∧
   Confined host (run next [(host,.createFile written ['a'])] (workspace linked))
    (.deleteFile written) ∧
    Confined host (run next [(host,.createFile written ['a'])] (workspace linked))
     (.readFile (steps ["repo","data","l","x"])) := by
 have hplaced:Placed (workspace linked):=⟨rfl,rfl,trivial⟩
 have hcalls:∀ call ∈ [(host,Op.createFile written ['a'])], NormalOp ["repo"] call.2:=by
  intro call hmem
  rw [List.mem_singleton.mp hmem]
  exact normal_steps _
 exact ⟨hplaced,operations_confined hplaced _ hcalls host (normal_steps _),
  operations_confined hplaced _ hcalls host (normal_steps _)⟩

/-- A missing `data/` is made, and a path with `..` behind a link reads a file outside. -/
theorem data_made_and_secret_read :
  ((step host (.createFile written ['a']) (workspace bare)).1.files ["repo","data"] ≠
    bare ["repo","data"] ∧ ¬ ∃ rel, Below rel ∧ ["repo","data"]=["repo"] ++ rel) ∧
   (workspace linked).readFile (steps ["repo","data","l"] ++ [.up,.down "secret"]) =
     some ['s'] ∧
    realpath linked (steps ["repo","data","l"] ++ [.up,.down "secret"]) = .ok ["secret"] ∧
     ¬ Inside (workspace linked) ["secret"] := by
 refine ⟨⟨by decide +kernel, ?_⟩,by decide +kernel,by decide +kernel, ?_⟩
 · intro ⟨rel,⟨top,_,n,more,hrel⟩,heq⟩
   rw [hrel] at heq
   simp at heq
 · intro ⟨rel,heq,_⟩
   simp [workspace] at heq

end Runs

end L4Ide.NodeWorkspaceConfined
