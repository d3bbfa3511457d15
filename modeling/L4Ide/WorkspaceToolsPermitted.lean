import Mathlib.Data.List.Dedup
import L4Ide.WorkspaceTools

set_option autoImplicit false

/-!
# A tool call does no more than it was allowed

What the tools of a call change falls under the categories that its permission was read from, and
lands in the files that were looked at, apart from a create that takes a numbered name and a rename.
-/
namespace L4Ide.WorkspaceToolsPermitted
open ToolPermissions WorkspaceTools

/-! ## What a call is allowed -/

def categories : Change → List PermissionCategory
 | .created _ _ content=>if content then [.fsCreate,.fsEdit] else [.fsCreate]
 | .rewritten _ _=>[.fsEdit]
 | .renamed _ _=>[.l4Refactor]
 | .removed _=>[.fsDelete]

/-- Something is set to `ask`, or is a file whose changes must be confirmed. -/
def NeedsApproval (host:ToolHost) (policy:PermissionPolicy) (change:Change) : Prop :=
 (∃ category ∈ categories change, policy category = .ask) ∨
  host.requiresWriteApproval change.path=true

structure Permitted (host:ToolHost) (policy:PermissionPolicy) (outcome:Outcome) : Prop where
 never : ∀ change ∈ outcome.changes, ∀ category ∈ categories change, policy category ≠ .never
 asked : ∀ change ∈ outcome.changes, NeedsApproval host policy change → outcome.approved=true

/-! ## When a call is not asked about -/

def PassesOver (host:ToolHost) (files:Files) (content:Text) (target:String) : Prop :=
 if (files target).isSome then hasContent files target content=false
 else host.createFile target = .lost

/-- A create with a content passes over its names from `start` on, and lands on the `n`th. -/
structure LandsOn (host:ToolHost) (files:Files) (requested:String) (content:Text)
  (start n:ℕ) (target:String) : Prop where
 from_start : start ≤ n
 passes : ∀ m, start ≤ m → m < n →
  ∃ taken ∈ createTarget host requested m, PassesOver host files content taken
 lands : createTarget host requested n=some target
 free : files target=none
 created : host.createFile target = .created

def SensitiveCreate (host:ToolHost) (files:Files) (args:Json) : Prop :=
 ∃ requested ∈ resolve host (args.field "path"), host.blocked requested=false ∧
  ∃ content, args.field "content" = some (.text content) ∧ '\x00' ∉ content.toList ∧
   ∃ n ≤ MAX_NAME_SUFFIX, ∃ target, LandsOn host files requested content.toList 0 n target ∧
    host.requiresWriteApproval target=true

def hasOldName (files:Files) (oldName:Text) (locations:List Location) (path:String) : Bool :=
 (readDocument files path).any fun text=>
  (locations.filter fun location=>location.path=path).any (isOldName oldName text)

def renamedFiles (files:Files) (oldName:Text) (locations:List Location) : List String :=
 (referencedFiles locations).filter (hasOldName files oldName locations)

structure Renames (host:ToolHost) (files:Files) (args:Json) (oldName:Text)
  (locations:List Location) : Prop where
 action : args.field "action" = some (.text "rename")
 names : validateRefactorName (args.field "oldName")=some oldName ∧
  ∃ newName, validateRefactorName (args.field "newName")=some newName ∧ oldName ≠ newName
 found : ∃ path ∈ resolve host (args.field "path"), ∃ text ∈ readDocument files path,
  (renameAnchor host path text oldName).bind (host.references path)=some locations
 readable : ∀ location ∈ locations, (readDocument files location.path).isSome=true
 applied : host.applyEdits (renamedFiles files oldName locations)=true

def SensitiveRename (host:ToolHost) (files:Files) (args:Json) : Prop :=
 ∃ oldName locations, Renames host files args oldName locations ∧
  ∃ path ∈ renamedFiles files oldName locations, host.requiresWriteApproval path=true

/-- Nothing of the call is asked about, but it changes a file that must be confirmed. -/
def Unasked (host:ToolHost) (policy:PermissionPolicy) (files:Files) (call:ToolCall) :
  Prop :=
 gate host.permissions policy call = .gated .always ∧
  (host.providers.any fun pre=>startsWith call.name pre)=false ∧
   ∃ args ∈ callArguments host call.argsJson,
    call.name = "fs__create_file" ∧ SensitiveCreate host files args ∨
     call.name = "l4__refactor" ∧ SensitiveRename host files args

/-! ## The gate -/

section Gate

variable {policy:PermissionPolicy} {host:ToolHost} {call:ToolCall}

def stricter (policy:PermissionPolicy) (worst:Option PermissionValue)
  (category:PermissionCategory) : Option PermissionValue :=
 match worst with
 | none=>some (policy category)
 | some w=>if strictness (policy category) > strictness w then some (policy category)
  else some w

variable {cs:List PermissionCategory} {p:PermissionValue}

theorem foldl_stricter {worst:Option PermissionValue}
  (h:cs.foldl (stricter policy) worst=some p) :
  (∀ w ∈ worst, strictness w ≤ strictness p) ∧
   ∀ c ∈ cs, strictness (policy c) ≤ strictness p := by
 induction cs generalizing worst with
 | nil=>
  refine ⟨?_,fun c hmem=>absurd hmem List.not_mem_nil⟩
  intro w hw
  rw [List.foldl_nil] at h
  cases Option.mem_unique hw h
  exact Nat.le_refl _
 | cons first cs ih=>
  have ⟨hworst,hcs⟩:=ih h
  have hfirst:strictness (policy first) ≤ strictness p ∧
    ∀ w ∈ worst, strictness w ≤ strictness p := by
   unfold stricter at hworst
   cases worst with
   | none=>exact ⟨hworst _ rfl,fun w hw=>absurd hw (Option.not_mem_none w)⟩
   | some w=>
    dsimp only at hworst
    split at hworst
    · have hle:=hworst _ rfl
      exact ⟨hle,fun v hv=>by cases hv; omega⟩
    · have hle:=hworst _ rfl
      exact ⟨by omega,fun v hv=>by cases hv; exact hle⟩
  refine ⟨hfirst.2, ?_⟩
  intro c hmem
  cases List.mem_cons.mp hmem with
  | inl heq=>exact heq ▸ hfirst.1
  | inr hmem=>exact hcs c hmem

theorem strictness_le
  (h:strictestPermission policy cs=some p) {c:PermissionCategory} (hmem:c ∈ cs) :
  strictness (policy c) ≤ strictness p := by
 have hfold:cs.foldl (stricter policy) none=some p:=h
 exact (foldl_stricter hfold).2 c hmem

theorem strictest_isSome (h:cs ≠ []) :
  (strictestPermission policy cs).isSome := by
 suffices hfold : ∀ w : PermissionValue, ∀ cs : List PermissionCategory,
   (cs.foldl (stricter policy) (some w)).isSome by
  cases cs with
  | nil=>exact absurd rfl h
  | cons c cs=>exact hfold (policy c) cs
 intro w cs
 induction cs generalizing w with
 | nil=>rfl
 | cons c cs ih=>
  rw [List.foldl_cons,stricter]
  split
  · exact ih _
  · exact ih _

theorem categoriesForCall_ne_nil {name:String} {category:PermissionCategory}
  (h:categoryForTool name=some category) (args:CallArgs) :
  categoriesForCall name args ≠ [] := by
 unfold categoriesForCall
 split
 · exact List.cons_ne_nil _ _
 · split
   · split
     · exact List.cons_ne_nil _ _
     · exact List.cons_ne_nil _ _
   · rw [h]
     exact List.cons_ne_nil _ _

theorem argsOrNull_permissions {args:Json} (h:callArguments host call.argsJson=some args) :
  argsOrNull host.permissions call.argsJson=args.readArgs := by
 unfold callArguments at h
 unfold argsOrNull parseArgs
 change (if call.argsJson.toList.all host.isSpace=true then some CallArgs.none
  else (host.parse call.argsJson).map Json.readArgs).getD CallArgs.none=_
 split at h
 · rename_i hspace
   rw [if_pos hspace]
   cases h
   rfl
 · rename_i hspace
   rw [if_neg hspace,h]
   rfl

/-- What a gated call is allowed: no category is set to `never`, and it is asked about or all are
set to `always` and no written path must be confirmed. -/
theorem gated_spec {args:Json} (hargs:callArguments host call.argsJson=some args)
  (hgate:gate host.permissions policy call = .gated p) (hp:p ≠ .never) :
  (∀ c ∈ categoriesForCall call.name args.readArgs, policy c ≠ .never) ∧
   (p = .always → (∀ c ∈ categoriesForCall call.name args.readArgs, policy c = .always) ∧
    ∀ path ∈ writtenPaths call.name args.readArgs,
     host.permissions.requiresWriteApproval path=false) := by
 unfold gate at hgate
 split at hgate
 · exact Gate.noConfusion hgate
 · split at hgate
   · exact Gate.noConfusion hgate
   · rename_i category hcategory
     dsimp only at hgate
     rw [argsOrNull_permissions hargs,Gate.gated.injEq] at hgate
     have hsome:(strictestPermission policy (categoriesForCall call.name args.readArgs)).isSome:=
      strictest_isSome (categoriesForCall_ne_nil hcategory args.readArgs)
     have ⟨w,hw⟩:=Option.isSome_iff_exists.mp hsome
     rw [hw,Option.getD_some] at hgate
     unfold withWriteApproval at hgate
     have hnever:w ≠ .never:=by
      intro heq
      rw [heq,if_neg fun hand=>PermissionValue.noConfusion hand.1] at hgate
      exact hp hgate.symm
     refine ⟨fun c hc heq=>?_,fun halways=>?_⟩
     · have hle:=strictness_le hw hc
       rw [heq] at hle
       cases w with
       | never=>exact hnever rfl
       | ask=>exact absurd hle (by decide)
       | always=>exact absurd hle (by decide)
     · rw [halways] at hgate
       split at hgate
       · exact PermissionValue.noConfusion hgate
       · rename_i hnot
         refine ⟨fun c hc=>?_,fun path hpath=>?_⟩
         · have hle:=strictness_le hw hc
           rw [hgate] at hle
           cases hc:policy c with
           | never=>exact absurd (hc ▸ hle) (by decide)
           | ask=>exact absurd (hc ▸ hle) (by decide)
           | always=>rfl
         · by_contra htrue
           refine hnot ⟨hgate,List.any_eq_true.mpr ⟨path,hpath, ?_⟩⟩
           exact Bool.not_eq_false _ ▸ htrue

end Gate

/-! ## The tools -/

section Tools

variable {host:ToolHost} {files:Files} {args:Json} {change:Change}

/-- The change lands in a file that the call names. -/
def Named (host:ToolHost) (paths:List String) (change:Change) : Prop :=
 ∃ path ∈ paths, host.resolvePath path=some change.path

theorem resolve_eq_some {value:Option Json} {r:String} :
  resolve host value=some r ↔
   ∃ path, Json.nonempty? value=some path ∧ host.resolvePath path=some r :=
 Option.bind_eq_some_iff

variable {paths:List String} {requested:String} {oldName:Text} {locations:List Location}

theorem named_of_resolve {value:Option Json} (h:resolve host value=some change.path)
  (hpaths:∀ path, Json.nonempty? value=some path → path ∈ paths) : Named host paths change := by
 have ⟨path,hvalue,hpath⟩:=(resolve_eq_some).mp h
 exact ⟨path,hpaths path hvalue,hpath⟩

/-! ### Creating -/

def CreatesFrom (host:ToolHost) (files:Files) (requested:String) (content:Text)
  (start count:ℕ) (change:Change) : Prop :=
 ∃ n < start+count, ∃ target, LandsOn host files requested content start n target ∧
  change = .created target content (decide (content ≠ []))

theorem createsFrom_pass {target:String} {content:Text} {start:ℕ} (count:ℕ)
  (htarget:createTarget host requested start=some target)
  (hpass:PassesOver host files content target) (hnot:host.createFile target ≠ .created ∨
   (files target).isSome) :
  CreatesFrom host files requested content start (count+1) change ↔
   CreatesFrom host files requested content (start+1) count change := by
 constructor
 · intro h
   have ⟨n,hlt,landed,hlands,hchange⟩:=h
   have hne:n ≠ start:=by
    intro heq
    have hsame:=hlands.lands
    rw [heq,htarget,Option.some.injEq] at hsame
    cases hnot with
    | inl hne=>exact hne (hsame ▸ hlands.created)
    | inr hsome=>simp [hsame ▸ hlands.free] at hsome
   have hle:=hlands.from_start
   exact ⟨n,by omega,landed,⟨by omega,fun m hm=>hlands.passes m (by omega),hlands.lands,
    hlands.free,hlands.created⟩,hchange⟩
 · intro h
   have ⟨n,hlt,landed,hlands,hchange⟩:=h
   have hle:=hlands.from_start
   refine ⟨n,by omega,landed,⟨by omega, ?_,hlands.lands,hlands.free,hlands.created⟩,hchange⟩
   intro m hm hmn
   cases Nat.eq_or_lt_of_le hm with
   | inl heq=>exact ⟨target,heq ▸ htarget,hpass⟩
   | inr hgt=>exact hlands.passes m hgt hmn

theorem createsFrom_stop {target:String} {content:Text} {start:ℕ} (count:ℕ)
  (htarget:createTarget host requested start=some target)
  (hstop:¬PassesOver host files content target) :
  CreatesFrom host files requested content start (count+1) change ↔
   files target=none ∧ host.createFile target = .created ∧
    change = .created target content (decide (content ≠ [])) := by
 constructor
 · intro h
   have ⟨n,hlt,landed,hlands,hchange⟩:=h
   have hsame:=hlands.lands
   cases Nat.eq_or_lt_of_le hlands.from_start with
   | inl heq=>
    rw [←heq,htarget,Option.some.injEq] at hsame
    exact hsame ▸ ⟨hlands.free,hlands.created,hchange⟩
   | inr hgt=>
    have ⟨taken,htaken,hpass⟩:=hlands.passes start (Nat.le_refl _) hgt
    rw [Option.mem_def,htarget,Option.some.injEq] at htaken
    exact absurd (htaken ▸ hpass) hstop
 · intro h
   exact ⟨start,by omega,target,⟨Nat.le_refl _,fun m hm hmn=>by omega,htarget,h.1,h.2.1⟩,
    h.2.2⟩

theorem mem_createTries_iff {content:Text} (start count:ℕ) :
  change ∈ (createTries host files requested content (List.range' start count)).changes ↔
   CreatesFrom host files requested content start count change := by
 induction count generalizing start with
 | zero=>
  refine ⟨fun h=>absurd h List.not_mem_nil, ?_⟩
  intro h
  have ⟨n,hlt,_,hlands,_⟩:=h
  have hle:=hlands.from_start
  omega
 | succ count ih=>
  rw [List.range'_succ,createTries]
  cases htarget:createTarget host requested start with
  | none=>
   refine ⟨fun h=>absurd h List.not_mem_nil, ?_⟩
   intro h
   have ⟨n,_,_,hlands,_⟩:=h
   cases Nat.eq_or_lt_of_le hlands.from_start with
   | inl heq=>
    have hnone:=hlands.lands
    simp [←heq,htarget] at hnone
   | inr hgt=>
    have ⟨taken,htaken,_⟩:=hlands.passes start (Nat.le_refl _) hgt
    simp [htarget] at htaken
  | some target=>
   dsimp only
   split
   · rename_i hsome
     split
     · rename_i hsame
       rw [createsFrom_stop count htarget (by simp [PassesOver,hsome,hsame])]
       refine ⟨fun h=>absurd h List.not_mem_nil, ?_⟩
       intro h
       simp [h.1] at hsome
     · rename_i hother
       have hpass:PassesOver host files content target:=by
        simpa [PassesOver,hsome] using hother
       rw [createsFrom_pass count htarget hpass (.inr hsome)]
       exact ih (start+1)
   · rename_i hfree
     have hnone:files target=none:=by simpa using hfree
     cases hcreate:host.createFile target with
     | created=>
      rw [createsFrom_stop count htarget (by simp [PassesOver,hfree,hcreate])]
      exact ⟨fun h=>⟨hnone,hcreate,List.mem_singleton.mp h⟩,
       fun h=>List.mem_singleton.mpr h.2.2⟩
     | lost=>
      have hpass:PassesOver host files content target:=by simp [PassesOver,hfree,hcreate]
      rw [createsFrom_pass count htarget hpass (.inl (by simp [hcreate]))]
      exact ih (start+1)
     | refused=>
      rw [createsFrom_stop count htarget (by simp [PassesOver,hfree,hcreate])]
      refine ⟨fun h=>absurd h List.not_mem_nil, ?_⟩
      intro h
      simp [hcreate] at h

theorem written_path {name:String} (hname:name = "fs__create_file" ∨ name = "fs__edit_file" ∨
  name = "fs__delete_file") {path:String}
  (hpath:Json.nonempty? (args.field "path")=some path) :
  path ∈ writtenPaths name args.readArgs := by
 unfold writtenPaths
 rw [if_pos hname]
 exact Option.mem_toList.mpr hpath

theorem isSome_nonempty (content:String) :
  (Json.nonempty? (some (.text content))).isSome=decide (content.toList ≠ []) := by
 by_cases hempty:content = ""
 · simp [Json.nonempty?,Json.string?,Option.filter,hempty]
 · have hlist:content.toList ≠ []:=fun h=>hempty (String.toList_eq_nil_iff.mp h)
   simp [Json.nonempty?,Json.string?,Option.filter,hempty,hlist]

theorem categoriesForCall_create {content:String} (target:String)
  (hcontent:args.field "content" = some (.text content)) :
  categoriesForCall "fs__create_file" args.readArgs =
   categories (.created target content.toList (decide (content.toList ≠ []))) := by
 unfold categoriesForCall categories
 rw [if_neg (by decide),if_pos rfl]
 change (if (Json.nonempty? (args.field "content")).isSome then _ else _)=_
 rw [hcontent,isSome_nonempty]

/-- A create writes what its categories say, in a file that it names or in a numbered one. -/
theorem mem_createFile (h:change ∈ (createFile host files args).changes) :
  (∀ c ∈ categories change, c ∈ categoriesForCall "fs__create_file" args.readArgs) ∧
   (host.requiresWriteApproval change.path=true →
    Named host (writtenPaths "fs__create_file" args.readArgs) change ∨
     SensitiveCreate host files args) := by
 unfold createFile at h
 split at h
 · exact absurd h List.not_mem_nil
 · rename_i requested hrequested
   split at h
   · exact absurd h List.not_mem_nil
   · rename_i hblocked
     split at h
     · split at h
       · exact absurd h List.not_mem_nil
       · cases List.mem_singleton.mp h
         refine ⟨?_,fun _=>.inl (named_of_resolve hrequested fun path=>written_path (.inl rfl))⟩
         intro c hc
         rw [List.mem_singleton.mp hc]
         unfold categoriesForCall
         rw [if_neg (by decide),if_pos rfl]
         split
         · exact List.mem_cons_self
         · exact List.mem_cons_self
     · rename_i content hcontent
       split at h
       · exact absurd h List.not_mem_nil
       · rename_i htext
         rw [List.range_eq_range', mem_createTries_iff] at h
         have ⟨n,hlt,target,hlands,hchange⟩:=h
         rw [hchange]
         refine ⟨?_,fun hsensitive=>.inr ⟨requested,hrequested,by simpa using hblocked,
          content,hcontent,htext,n,by omega,target,hlands,hsensitive⟩⟩
         rw [categoriesForCall_create target hcontent]
         exact fun c hc=>hc
     · exact absurd h List.not_mem_nil

theorem SensitiveCreate.creates (h:SensitiveCreate host files args) :
  ∃ change ∈ (createFile host files args).changes,
   host.requiresWriteApproval change.path=true := by
 have ⟨requested,hrequested,hblocked,content,hcontent,htext,n,hle,target,hlands,
  hsensitive⟩ := h
 refine ⟨.created target content.toList (decide (content.toList ≠ [])), ?_,hsensitive⟩
 unfold createFile
 rw [hrequested]
 dsimp only
 rw [hblocked,if_neg Bool.false_ne_true,hcontent]
 dsimp only
 rw [if_neg htext,List.range_eq_range', mem_createTries_iff]
 exact ⟨n,by omega,target,hlands,rfl⟩

/-! ### Editing, deleting and copying -/

/-- The change falls under the categories of its call, and lands in a file that the call names. -/
structure Covered (host:ToolHost) (name:String) (args:CallArgs) (change:Change) : Prop where
 categories : ∀ c ∈ categories change, c ∈ categoriesForCall name args
 named : Named host (writtenPaths name args) change

theorem applyOneEdit_spec {path:String} {item:Json}
  (h:applyOneEdit host files path item=some change) : ∃ text, change = .rewritten path text := by
 unfold applyOneEdit at h
 split at h
 · split at h
   · cases h
   · split at h
     · cases h
     · split at h
       · cases h
       · rename_i after _
         split at h
         · exact ⟨after,(Option.some.inj h).symm⟩
         · cases h
 · cases h

theorem mem_applyEdits {path:String} {i:ℕ} {items:List Json}
  (h:change ∈ applyEdits host path i items files) : ∃ text, change = .rewritten path text := by
 induction items generalizing i files with
 | nil=>exact absurd h List.not_mem_nil
 | cons item items ih=>
  unfold applyEdits at h
  split at h
  · exact absurd h List.not_mem_nil
  · rename_i first hfirst
    split at h
    · exact List.mem_singleton.mp h ▸ applyOneEdit_spec hfirst
    · cases List.mem_cons.mp h with
      | inl heq=>exact heq ▸ applyOneEdit_spec hfirst
      | inr hmem=>exact ih hmem

theorem mem_applySequence {path:String} {items:List Json} {sequence:EditSequence}
  (h:change ∈ (applySequence host files path items sequence).changes) :
  ∃ text, change = .rewritten path text := by
 unfold applySequence at h
 split at h
 · exact absurd h List.not_mem_nil
 · exact mem_applyEdits h

theorem mem_editFile (h:change ∈ (editFile host files args).changes) :
  Covered host "fs__edit_file" args.readArgs change := by
 unfold editFile at h
 split at h
 · exact absurd h List.not_mem_nil
 · rename_i path hpath
   have hrewritten:∃ text, change = .rewritten path text:=by
    split at h
    · exact absurd h List.not_mem_nil
    · split at h
      · exact absurd h List.not_mem_nil
      · split at h
        · exact mem_applySequence h
        · split at h
          · exact mem_applySequence h
          · have ⟨_,_,hedit⟩:=List.mem_filterMap.mp h
            exact applyOneEdit_spec hedit
   have ⟨text,hchange⟩:=hrewritten
   rw [hchange]
   refine ⟨fun c hc=>hc,named_of_resolve hpath fun p=>written_path (.inr (.inl rfl))⟩

theorem mem_deleteFile (h:change ∈ (deleteFile host files args).changes) :
  Covered host "fs__delete_file" args.readArgs change := by
 unfold deleteFile at h
 split at h
 · exact absurd h List.not_mem_nil
 · rename_i path hpath
   split at h
   · cases List.mem_singleton.mp h
     exact ⟨fun c hc=>hc,named_of_resolve hpath fun p=>written_path (.inr (.inr rfl))⟩
   · exact absurd h List.not_mem_nil

theorem copyTarget_spec {source target:String} {overwrite:Bool}
  (h:copyTarget host files source target overwrite=some change) :
  change.path=target ∧ ∀ c ∈ categories change, c = .fsCreate ∨ overwrite=true ∧ c = .fsEdit := by
 unfold copyTarget at h
 split at h
 · cases h
 · split at h
   · cases h
   · split at h
     · split at h
       · cases Option.some.inj h
         exact ⟨rfl,fun c hc=>.inl (List.mem_singleton.mp hc)⟩
       · cases h
     · split at h
       · cases h
       · rename_i hnot
         cases Option.some.inj h
         refine ⟨rfl,fun c hc=>.inr ⟨?_,List.mem_singleton.mp hc⟩⟩
         by_contra hoverwrite
         exact hnot (.inr (.inl hoverwrite))
     · cases h

theorem categoriesForCall_copy (args:CallArgs) :
  categoriesForCall "fs__copy_file" args =
   .fsCreate::((if args.overwrite then [.fsEdit] else []) ++
    if args.deleteSource then [.fsDelete] else []) :=
 if_pos rfl

theorem writtenPaths_copy (args:CallArgs) : writtenPaths "fs__copy_file" args =
  args.copyTo.toList ++ if args.deleteSource then args.copyFrom.toList else [] := by
 unfold writtenPaths
 rw [if_neg (by decide),if_pos rfl]

theorem mem_copyFile (h:change ∈ (copyFile host files args).changes) :
  Covered host "fs__copy_file" args.readArgs change := by
 unfold copyFile at h
 split at h
 · rename_i source target hsource htarget
   split at h
   · exact absurd h List.not_mem_nil
   · split at h
     · exact absurd h List.not_mem_nil
     · rename_i copied hcopied
       have ⟨hpath,hcategories⟩:=copyTarget_spec hcopied
       have hcopy:Covered host "fs__copy_file" args.readArgs copied:=by
        rw [←hpath] at htarget
        constructor
        · intro c hc
          rw [categoriesForCall_copy]
          cases hcategories c hc with
          | inl heq=>exact heq ▸ List.mem_cons_self
          | inr hedit=>
           have hoverwrite:args.readArgs.overwrite=true:=hedit.1
           rw [if_pos hoverwrite,hedit.2]
           exact List.mem_cons_of_mem _ List.mem_cons_self
        · apply named_of_resolve htarget
          intro path hvalue
          rw [writtenPaths_copy]
          exact List.mem_append_left _ (Option.mem_toList.mpr hvalue)
       split at h
       · rename_i hdelete
         have hdelete:args.readArgs.deleteSource=true:=hdelete
         have hremoved:Covered host "fs__copy_file" args.readArgs (.removed source):=by
          constructor
          · intro c hc
            rw [categoriesForCall_copy,if_pos hdelete]
            exact List.mem_cons_of_mem _ (List.mem_append_right _ hc)
          · apply named_of_resolve hsource
            intro path hvalue
            rw [writtenPaths_copy,if_pos hdelete]
            exact List.mem_append_right _ (Option.mem_toList.mpr hvalue)
         split at h
         · cases List.mem_cons.mp h with
           | inl heq=>exact heq ▸ hcopy
           | inr hmem=>exact List.mem_singleton.mp hmem ▸ hremoved
         · exact List.mem_singleton.mp h ▸ hcopy
       · exact List.mem_singleton.mp h ▸ hcopy
 · exact absurd h List.not_mem_nil

/-! ### Renaming -/

theorem renameFiles_spec {newName:Text} {changes:List Change}
  (h:renameFiles files oldName newName locations paths=some changes) :
  changes.map Change.path=paths.filter (hasOldName files oldName locations) ∧
   (∀ change ∈ changes, ∃ path text, change = .renamed path text) ∧
   ∀ path ∈ paths, (readDocument files path).isSome=true := by
 induction paths generalizing changes with
 | nil=>
  cases h
  exact ⟨rfl,fun _ hmem=>absurd hmem List.not_mem_nil,fun _ hmem=>absurd hmem List.not_mem_nil⟩
 | cons path paths ih=>
  unfold renameFiles at h
  split at h
  · rename_i text others htext hothers
    have ⟨hpaths,hrenamed,hreadable⟩:=ih hothers
    have hread:∀ p ∈ path::paths, (readDocument files p).isSome=true:=by
     intro p hp
     cases List.mem_cons.mp hp with
     | inl heq=>rw [heq,htext]; rfl
     | inr hp=>exact hreadable p hp
    dsimp only at h
    split at h
    · rename_i hmatches
      have hold:hasOldName files oldName locations path=true:=by
       rw [hasOldName,htext]
       exact hmatches
      cases h
      refine ⟨?_, ?_,hread⟩
      · rw [List.map_cons,List.filter_cons_of_pos hold,hpaths]
        rfl
      · intro change hmem
        cases List.mem_cons.mp hmem with
        | inl heq=>exact ⟨_,_,heq⟩
        | inr hmem=>exact hrenamed change hmem
    · rename_i hmatches
      have hold:¬hasOldName files oldName locations path=true:=by
       rw [hasOldName,htext]
       exact hmatches
      cases h
      refine ⟨?_,hrenamed,hread⟩
      rw [List.filter_cons_of_neg hold,hpaths]
  · cases h

theorem renameFiles_isSome {newName:Text}
  (h:∀ path ∈ paths, (readDocument files path).isSome=true) :
  ∃ changes, renameFiles files oldName newName locations paths=some changes := by
 induction paths with
 | nil=>exact ⟨[],rfl⟩
 | cons path paths ih=>
  have ⟨text,htext⟩:=Option.isSome_iff_exists.mp (h path List.mem_cons_self)
  have ⟨changes,hchanges⟩:=ih fun p hp=>h p (List.mem_cons_of_mem _ hp)
  unfold renameFiles
  rw [htext,hchanges]
  dsimp only
  split
  · exact ⟨_,rfl⟩
  · exact ⟨_,rfl⟩

theorem string?_eq_some {value:Option Json} {text:String}
  (h:Json.string? value=some text) : value=some (.text text) := by
 unfold Json.string? at h
 split at h
 · cases h
   rfl
 · cases h

theorem mem_referencedFiles {path:String} :
  path ∈ referencedFiles locations ↔ ∃ location ∈ locations, location.path=path := by
 unfold referencedFiles
 rw [List.mem_dedup,List.mem_map]

theorem mem_refactor (h:change ∈ (refactor host files args).changes) :
  (∃ path text, change = .renamed path text) ∧
   ∃ oldName locations, Renames host files args oldName locations ∧
    change.path ∈ renamedFiles files oldName locations := by
 unfold refactor at h
 split at h
 · rename_i action haction
   split at h
   · rename_i hrename
     unfold rename at h
     split at h
     · rename_i oldName newName hold hnew
       split at h
       · exact absurd h List.not_mem_nil
       · rename_i hdiffer
         split at h
         · exact absurd h List.not_mem_nil
         · rename_i path hpath
           split at h
           · exact absurd h List.not_mem_nil
           · rename_i text htext
             split at h
             · exact absurd h List.not_mem_nil
             · rename_i locations hlocations
               split at h
               · exact absurd h List.not_mem_nil
               · rename_i changes hchanges
                 have ⟨hpaths,hrenamed,hreadable⟩:=renameFiles_spec hchanges
                 have hpaths:changes.map Change.path=renamedFiles files oldName locations:=
                  hpaths
                 split at h
                 · exact absurd h List.not_mem_nil
                 · rename_i happlied
                   refine ⟨hrenamed change h,oldName,locations, ?_, ?_⟩
                   · exact {
                      action:=string?_eq_some (hrename ▸ haction)
                      names:=⟨hold,newName,hnew,hdiffer⟩
                      found:=⟨path,hpath,text,htext,hlocations⟩
                      readable:=fun location hmem=>
                       hreadable _ (mem_referencedFiles.mpr ⟨location,hmem,rfl⟩)
                      applied := by
                       rw [←hpaths]
                       by_contra hrefused
                       exact happlied (.inr hrefused) }
                   · rw [←hpaths]
                     exact List.mem_map_of_mem h
     · exact absurd h List.not_mem_nil
   · exact absurd h List.not_mem_nil
 · exact absurd h List.not_mem_nil

theorem Renames.changes (h:Renames host files args oldName locations) {path:String}
  (hmem:path ∈ renamedFiles files oldName locations) :
  ∃ change ∈ (refactor host files args).changes, change.path=path := by
 have ⟨hold,newName,hnew,hdiffer⟩:=h.names
 have ⟨anchored,hpath,text,htext,hfound⟩:=h.found
 have hreadable:∀ p ∈ referencedFiles locations, (readDocument files p).isSome=true:=by
  intro p hp
  have ⟨location,hlocation,heq⟩:=(mem_referencedFiles).mp hp
  exact heq ▸ h.readable location hlocation
 have ⟨changes,hchanges⟩ : ∃ changes,
   renameFiles files oldName newName locations (referencedFiles locations)=some changes :=
  renameFiles_isSome hreadable
 have hpaths:changes.map Change.path=renamedFiles files oldName locations:=
  (renameFiles_spec hchanges).1
 have hran:refactor host files args=⟨changes,true⟩:=by
  have hsome:¬(changes=[] ∨ ¬host.applyEdits (changes.map Change.path)=true):=by
   intro hor
   cases hor with
   | inl hnil=>
    rw [←hpaths,hnil] at hmem
    exact absurd hmem List.not_mem_nil
   | inr hrefused=>exact hrefused (hpaths ▸ h.applied)
  unfold refactor
  rw [h.action]
  change (if "rename" = "rename" then rename host files args else thrown)=_
  rw [if_pos rfl]
  unfold rename
  rw [hold,hnew]
  dsimp only
  rw [if_neg hdiffer,hpath]
  dsimp only
  rw [htext]
  dsimp only
  rw [hfound]
  dsimp only
  rw [hchanges]
  dsimp only
  rw [if_neg hsome]
 rw [hran]
 rw [←hpaths] at hmem
 have ⟨change,hchange,heq⟩:=List.mem_map.mp hmem
 exact ⟨change,hchange,heq⟩

/-! ### A call -/

/-- A tool changes what the categories of its call say, in the files that the call names, unless a
create lands on a numbered name or a rename goes through. -/
theorem mem_execute {name:String} (h:change ∈ (execute host files name args).changes) :
  (∀ c ∈ categories change, c ∈ categoriesForCall name args.readArgs) ∧
   (host.providers.any fun pre=>startsWith name pre)=false ∧
    (host.requiresWriteApproval change.path=true →
     Named host (writtenPaths name args.readArgs) change ∨
      name = "fs__create_file" ∧ SensitiveCreate host files args ∨
       name = "l4__refactor" ∧ SensitiveRename host files args) := by
 unfold execute at h
 split at h
 · exact absurd h List.not_mem_nil
 · rename_i hproviders
   have hproviders:=Bool.eq_false_iff.mpr hproviders
   split at h
   · rename_i hname
     have ⟨hcategories,hlands⟩:=mem_createFile h
     subst hname
     refine ⟨hcategories,hproviders,fun hsensitive=>?_⟩
     exact (hlands hsensitive).imp_right fun hcreate=>.inl ⟨rfl,hcreate⟩
   · split at h
     · rename_i hname
       have hcovered:=mem_editFile h
       subst hname
       exact ⟨hcovered.categories,hproviders,fun _=>.inl hcovered.named⟩
     · split at h
       · rename_i hname
         have hcovered:=mem_deleteFile h
         subst hname
         exact ⟨hcovered.categories,hproviders,fun _=>.inl hcovered.named⟩
       · split at h
         · rename_i hname
           have hcovered:=mem_copyFile h
           subst hname
           exact ⟨hcovered.categories,hproviders,fun _=>.inl hcovered.named⟩
         · split at h
           · rename_i hname
             have ⟨⟨path,text,hrenamed⟩,oldName,locations,hrenames,hmem⟩:=mem_refactor h
             subst hname
             refine ⟨?_,hproviders,fun hsensitive=>.inr (.inr ⟨rfl,oldName,locations,
              hrenames,change.path,hmem,hsensitive⟩)⟩
             rw [hrenamed]
             exact fun c hc=>hc
           · exact absurd h List.not_mem_nil

theorem execute_create (h:(host.providers.any fun pre=>startsWith "fs__create_file" pre)=false) :
  execute host files "fs__create_file" args=createFile host files args := by
 unfold execute
 rw [h,if_neg Bool.false_ne_true,if_pos rfl]

theorem execute_refactor (h:(host.providers.any fun pre=>startsWith "l4__refactor" pre)=false) :
  execute host files "l4__refactor" args=refactor host files args := by
 unfold execute
 rw [h,if_neg Bool.false_ne_true,if_neg (by decide),if_neg (by decide),if_neg (by decide),
  if_neg (by decide),if_pos rfl]

theorem mem_perform {call:ToolCall} {approved:Bool} :
  change ∈ (perform host files call approved).changes ↔
   ∃ args, callArguments host call.argsJson=some args ∧
    change ∈ (execute host files call.name args).changes := by
 unfold perform
 cases callArguments host call.argsJson with
 | none=>simp
 | some args=>simp

theorem perform_approved (call:ToolCall) (approved:Bool) :
  (perform host files call approved).approved=approved := by
 unfold perform
 split
 · rfl
 · rfl

variable {policy:PermissionPolicy} {call:ToolCall}

theorem perform_never {p:PermissionValue} (hgate:gate host.permissions policy call = .gated p)
  (hp:p ≠ .never) {approved:Bool}
  (h:change ∈ (perform host files call approved).changes) {c:PermissionCategory}
  (hc:c ∈ categories change) : policy c ≠ .never := by
 have ⟨args,hargs,hmem⟩:=(mem_perform).mp h
 have ⟨hcategories,_,_⟩:=mem_execute hmem
 exact (gated_spec hargs hgate hp).1 c (hcategories c hc)

/-- Nothing that a call changes needs the user, when all is set to `always` and nothing escapes. -/
theorem perform_always (hgate:gate host.permissions policy call = .gated .always)
  (hasked:¬Unasked host policy files call) {approved:Bool}
  (h:change ∈ (perform host files call approved).changes) :
  ¬NeedsApproval host policy change := by
 have ⟨args,hargs,hmem⟩:=(mem_perform).mp h
 have ⟨hcategories,hproviders,hlands⟩:=mem_execute hmem
 have ⟨hall,hwritten⟩:=(gated_spec hargs hgate PermissionValue.noConfusion).2 rfl
 intro hneeds
 cases hneeds with
 | inl hask=>
  have ⟨c,hc,heq⟩:=hask
  rw [hall c (hcategories c hc)] at heq
  exact PermissionValue.noConfusion heq
 | inr hsensitive=>
  cases hlands hsensitive with
  | inl hnamed=>
   have ⟨path,hpath,hresolved⟩:=hnamed
   have hfalse:=hwritten path hpath
   change (host.resolvePath path).any host.requiresWriteApproval=false at hfalse
   rw [hresolved,Option.any_some,hsensitive] at hfalse
   exact Bool.noConfusion hfalse
  | inr hescapes=>exact hasked ⟨hgate,hproviders,args,hargs,hescapes⟩

theorem Unasked.changes (h:Unasked host policy files call) (approved:Bool) :
  ∃ change ∈ (perform host files call approved).changes,
   host.requiresWriteApproval change.path=true := by
 have ⟨_,hproviders,args,hargs,hescapes⟩:=h
 cases hescapes with
 | inl hcreate=>
  rw [hcreate.1] at hproviders
  have ⟨change,hmem,hsensitive⟩:=hcreate.2.creates
  refine ⟨change,(mem_perform).mpr ⟨args,hargs, ?_⟩,hsensitive⟩
  rw [hcreate.1,execute_create hproviders]
  exact hmem
 | inr hrename=>
  rw [hrename.1] at hproviders
  have ⟨oldName,locations,hrenames,path,hpath,hsensitive⟩:=hrename.2
  have ⟨change,hmem,heq⟩:=hrenames.changes hpath
  refine ⟨change,(mem_perform).mpr ⟨args,hargs, ?_⟩,heq ▸ hsensitive⟩
  rw [hrename.1,execute_refactor hproviders]
  exact hmem

end Tools

/-- A workspace in which a file that must be confirmed uses a name of another. -/
def configured : ToolHost where
 isSpace c := c = ' '
 parse _ := some (.object [("action",.text "rename"),("path",.text "rules.l4"),
  ("oldName",.text "limit"),("newName",.text "cap")])
 providers:=["l4-rules__","vsmcp__"]
 resolvePath path := some ("/workspace/" ++ path)
 requiresWriteApproval path := startsWith path "/workspace/.claude/"
 normalize path := path
 crlf _ := false
 sameFile a b := a=b
 createFile _ := .created
 applyEdits _ := true
 deleteFile _ := true
 blocked _ := false
 sequence _ := none
 stops _ := false
 tokenType _ _ := none
 references _ _ := some [⟨"/workspace/rules.l4",⟨0,0⟩,⟨0,5⟩⟩,
  ⟨"/workspace/.claude/rules.l4",⟨1,0⟩,⟨1,5⟩⟩]

def configuredFiles : Files := fun path=>
 if path = "/workspace/rules.l4" then some (.file "limit".toList)
 else if path = "/workspace/.claude/rules.l4" then some (.file "IMPORT rules\nlimit".toList)
 else none

def renameCall : ToolCall := ⟨"call","l4__refactor","\x7b\x7d"⟩

theorem run_renameCall :
  run configured (fun _=>.always) configuredFiles .deny renameCall =
   ⟨false,[.renamed "/workspace/rules.l4" "cap".toList,
    .renamed "/workspace/.claude/rules.l4" "IMPORT rules\ncap".toList],true⟩ := by
 decide +kernel

end L4Ide.WorkspaceToolsPermitted
