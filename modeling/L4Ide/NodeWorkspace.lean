import Mathlib.Data.Int.Notation
import L4Ide.LinkedTree

set_option autoImplicit false

/-!
# The workspace of a cloud session

File operations of the agent, confined to the repository of its session: what they read of a tree,
and what they change in it.
-/
namespace L4Ide.NodeWorkspace
open LinkedTree

abbrev Text := List Char
abbrev Files := Tree String Text

/-- A path as it is written: absolute, without empty and `.` components. -/
abbrev Path := List (Step String)

/-- `path.resolve`, from an absolute path. -/
def normalize : List String → Path → List String
 | current, []=>current
 | current, .up::path=>normalize current.dropLast path
 | current, .down n::path=>normalize (current ++ [n]) path

def component (part:Text) : Option (Step String) :=
 if part=[] ∨ part=['.'] then none
 else if part=['.','.'] then some .up
 else some (.down (String.ofList part))

def components (text:Text) : Path := (text.splitOn '/').filterMap component

def pathFrom (directory:List String) (text:Text) : Path :=
 if text.head? = some '/' then components text else steps directory ++ components text

/-- `path.relative` where it leads down. -/
def relative (root path:List String) : Option (List String) :=
 if root.isPrefixOf path then some (path.drop root.length) else none

/-- `rel.startsWith('..')`. -/
def startsUp (rel:List String) : Bool :=
 rel.head?.any fun part=> "..".toList.isPrefixOf part.toList

def isGitDir (part:String) : Bool := part.toList.map Char.toLower = ".git".toList

/-- The path below the root, outside of `.git`. -/
def confined (root path:List String) : Option (List String) :=
 (relative root path).filter fun rel=>!startsUp rel && !rel.any isGitDir

def REPO_DATA_DIR : String := "data"
def REPO_TMP_DIR : String := "tmp"
def REPO_DELETED_DIR : List String := ["tmp","deleted"]
def MODEL_WRITABLE_REPO_DIRS : List String := [REPO_DATA_DIR,REPO_TMP_DIR]

/-- Strictly inside `data/` or `tmp/`. -/
def isModelWritableRepoPath (rel:List String) : Bool :=
 2 ≤ rel.length ∧
  (∀ part ∈ rel, part ≠ "" ∧ part ≠ "." ∧ part ≠ ".." ∧ '\x00' ∉ part.toList) ∧
   ∀ top ∈ rel.head?, top ∈ MODEL_WRITABLE_REPO_DIRS

def MAX_LINKS : ℕ := 40

inductive Errno
 | enoent
 | enotdir
 | other
 deriving DecidableEq

/-- Where a path really is. -/
def realpath (files:Files) (path:Path) : Except Errno (List String) :=
 match resolve files true MAX_LINKS [] path with
 | .found p=>.ok p
 | .missing=>.error .enoent
 | .notDirectory=>.error .enotdir
 | .loop=>.error .other

def lstat (files:Files) (path:Path) : Except Errno (List String × Entry String Text) :=
 match resolve files false MAX_LINKS [] path with
 | .found p=>
  match entryAt files p with
  | some entry=>.ok (p,entry)
  | none=>.error .enoent
 | .missing=>.error .enoent
 | .notDirectory=>.error .enotdir
 | .loop=>.error .other

/-- The directory of a path and the last name. -/
def parent (files:Files) (path:Path) : Option (List String × String) :=
 match path.getLast?, realpath files path.dropLast with
 | some (.down n), .ok directory=>
  if entryAt files directory=some .directory then some (directory,n) else none
 | _, _=>none

def mkdir (files:Files) (path:Path) : Option Files :=
 match parent files path with
 | some (directory,n)=>
  if files (directory ++ [n])=none then
   some (Function.update files (directory ++ [n]) (some .directory))
  else none
 | none=>none

def openCreate (exclusive:Bool) (files:Files) (path:Path) (content:Text) : Option Files :=
 match parent files path with
 | some (directory,n)=>
  match files (directory ++ [n]) with
  | none=>some (Function.update files (directory ++ [n]) (some (.file content)))
  | some (.file _)=>
   if exclusive then none
   else some (Function.update files (directory ++ [n]) (some (.file content)))
  | some _=>none
 | none=>none

def overwrite (files:Files) (path:Path) (content:Text) : Option Files :=
 match lstat files path with
 | .ok (p,.file _)=>some (Function.update files p (some (.file content)))
 | _=>none

def unlink (files:Files) (path:Path) : Option Files :=
 match parent files path with
 | some (directory,n)=>
  match files (directory ++ [n]) with
  | none=>none
  | some .directory=>none
  | some _=>some (Function.update files (directory ++ [n]) none)
 | none=>none

/-- `ensureDirNoFollow`: the directories from a base down, and whether all are there. -/
def ensureDirNoFollow : Files → List String → List String → Files × Bool
 | files, _, []=>(files,true)
 | files, current, part::parts=>
  match lstat files (steps (current ++ [part])) with
  | .ok (_,.directory)=>ensureDirNoFollow files (current ++ [part]) parts
  | .error .enoent=>
   match mkdir files (steps (current ++ [part])) with
   | some made=>ensureDirNoFollow made (current ++ [part]) parts
   | none=>(files,false)
  | _=>(files,false)

structure State where
 root : List String
 realRoot : List String
 /-- The directory of the process. -/
 cwd : List String
 turn : Option String
 copied : List (String × List String)
 files : Files

/-- What the host brings: file URIs, and the checks of the lease, the first one first. -/
structure Host where
 /-- `fileURLToPath`; nothing where it throws. -/
 fileURLToPath : Text → Option (List String)
 fence : ℕ → Bool

def MAX_READ_BYTES : ℕ := 10*1024*1024
def MAX_IMPORT_BYTES : ℕ := 10*1024*1024
def MAX_COPY_BYTES : ℕ := 50*1024*1024

def size (content:Text) : ℕ := content.foldl (fun n c=>n+c.utf8Size) 0

/-- The real path of the nearest existing ancestor, with the components that do not exist. -/
def nearest (files:Files) : List String → List String → Option (List String)
 | [], missing=>
  match realpath files [] with
  | .ok real=>some (real ++ missing)
  | .error _=>none
 | n::reversed, missing=>
  match realpath files (steps (n::reversed).reverse) with
  | .ok real=>some (real ++ missing)
  | .error .other=>none
  | .error _=>nearest files reversed (n::missing)

namespace State

def realRelative (absolute:List String) (s:State) : Option (List String) :=
 (nearest s.files absolute.reverse []).bind (confined s.realRoot)

/-- Inside the root and not in `.git`, as written and in reality. -/
def assertInside (path:Path) (s:State) : Option (List String) :=
 let absolute:=normalize [] path
 match confined s.root absolute with
 | some _=>s.realRelative absolute
 | none=>none

def assertNoLinks (files:Files) : List String → List String → Bool
 | _, []=>true
 | current, part::parts=>
  match lstat files (steps (current ++ [part])) with
  | .ok (_,.link _ _)=>false
  | .ok _=>assertNoLinks files (current ++ [part]) parts
  | .error .other=>false
  | .error _=>true

def assertWritable (fence:Bool) (path:Path) (linkAtEnd:Bool) (s:State) : Bool :=
 fence &&
  match s.assertInside path with
  | none=>false
  | some real=>
   let rel:=(normalize [] path).drop s.root.length
   assertNoLinks s.files s.root (if linkAtEnd then rel.dropLast else rel) &&
    isModelWritableRepoPath rel && isModelWritableRepoPath real

/-- `ensureDirNoFollow` from the root. -/
def ensureBelow (directory:List String) (s:State) : State × Bool :=
 match relative s.root directory with
 | some rel=>
  if startsUp rel then (s,false)
  else
   let made:=ensureDirNoFollow s.files s.root rel
   ({ s with files:=made.1 },made.2)
 | none=>(s,false)

def readFile (path:Path) (s:State) : Option Text :=
 match s.assertInside path, lstat s.files path with
 | some _, .ok (_,.file content)=>if MAX_READ_BYTES < size content then none else some content
 | _, _=>none

end State

structure TextEdit where
 uri : Text
 startOffset : ℤ
 endOffset : ℤ
 newText : Text

inductive Op
 | resolvePath (p:Text)
 | stat (fsPath:Path)
 | readDirectory (fsPath:Path)
 | readFile (fsPath:Path)
 | readDocument (uri:Text)
 | createFile (fsPath:Path) (content:Text)
 | applyEdits (edits:List TextEdit)
 | deleteFile (fsPath:Path)
 /-- A file from outside; none where it is no regular file. -/
 | importFile (source:Option Text) (repoRelPath:Text)
 | setTurn (turnId:Option String)
 | ensureLayout

structure Kind where
 isDirectory : Bool
 isFile : Bool
 deriving DecidableEq

def kindOf : Entry String Text → Kind
 | .directory=>⟨true,false⟩
 | .file _=>⟨false,true⟩
 | _=>⟨false,false⟩

inductive Output
 | failed
 | path (fsPath:List String)
 | stat (kind:Option Kind)
 /-- The kind of each listed name. -/
 | entries (listing:String → Option Kind)
 | text (content:Text)
 | done

namespace State

def resolvePath (p:Text) (s:State) : Output :=
 if p=[] ∨ '\x00' ∈ p then .failed
 else
  let absolute:=normalize [] (pathFrom s.root p)
  match confined s.root absolute, s.realRelative absolute with
  | some _, some _=>.path absolute
  | _, _=>.failed

def stat (fsPath:Path) (s:State) : Output :=
 match s.assertInside fsPath, lstat s.files fsPath with
 | some _, .ok (_,entry)=>.stat (some (kindOf entry))
 | some _, .error .enoent=>.stat none
 | _, _=>.failed

def readDirectory (fsPath:Path) (s:State) : Output :=
 match s.assertInside fsPath, realpath s.files fsPath with
 | some _, .ok directory=>
  if entryAt s.files directory=some .directory then
   .entries fun n=>if isGitDir n then none else (s.files (directory ++ [n])).map kindOf
  else .failed
 | _, _=>.failed

def shown (text:Option Text) : Output :=
 match text with
 | some content=>.text content
 | none=>.failed

def pathForUri (host:Host) (uri:Text) (s:State) : Option Path :=
 if "file:".toList.isPrefixOf uri then (host.fileURLToPath uri).map steps
 else some (pathFrom s.cwd uri)

def readDocument (host:Host) (uri:Text) (s:State) : Option Text :=
 (s.pathForUri host uri).bind fun path=>s.readFile path

/-- The state with other files, or an error. -/
def written (files:Option Files) (s:State) : State × Output :=
 match files with
 | some files=>({ s with files },.done)
 | none=>(s,.failed)

def createFile (host:Host) (fsPath:Path) (content:Text) (s:State) : State × Output :=
 if s.assertWritable (host.fence 0) fsPath false then
  let made:=s.ensureBelow (normalize [] fsPath.dropLast)
  if made.2 && made.1.assertWritable (host.fence 1) fsPath false then
   made.1.written (openCreate true made.1.files fsPath content)
  else (made.1,.failed)
 else (s,.failed)

def spliced : Text → ℤ → List TextEdit → Option Text
 | text, _, []=>some text
 | text, limit, e::edits=>
  if e.startOffset < 0 ∨ e.endOffset < e.startOffset ∨ limit < e.endOffset then none
  else spliced (text.take e.startOffset.toNat ++ e.newText ++ text.drop e.endOffset.toNat)
   e.startOffset edits

def edited (text:Text) (edits:List TextEdit) : Option Text :=
 spliced text text.length (edits.mergeSort fun a b=>b.startOffset ≤ a.startOffset)

def editResults (host:Host) (edits:List TextEdit) (s:State) :
  ℕ → List Text → Option (List (Path × Text))
 | _, []=>some []
 | i, uri::uris=>
  match s.pathForUri host uri with
  | none=>none
  | some path=>
   if s.assertWritable (host.fence i) path false then
    match s.readFile path with
    | none=>none
    | some text=>
     match edited text (edits.filter fun e=>e.uri=uri),
      editResults host edits s (i+1) uris with
     | some text, some results=>some ((path,text)::results)
     | _, _=>none
   else none

def writeResults : List (Path × Text) → State → State × Output
 | [], s=>(s,.done)
 | (path,text)::results, s=>
  match overwrite s.files path text with
  | some files=>writeResults results { s with files }
  | none=>(s,.failed)

def applyEdits (host:Host) (edits:List TextEdit) (s:State) : State × Output :=
 match editResults host edits s 0 (edits.map TextEdit.uri).eraseDups with
 | some results=>writeResults results s
 | none=>(s,.failed)

def deletedCopyPath (turnId:String) (pathUnderData:List String) : List String :=
 REPO_DELETED_DIR ++ ("t-" ++ turnId)::pathUnderData

def textLength (rel:List String) : ℕ := rel.foldl (fun n part=>n+part.length+1) 0-1

/-- Copy a file before it is deleted; none where the path cannot name a copy. -/
def copyBeforeDelete (host:Host) (fsPath:Path) (s:State) : Option State :=
 match s.turn, relative (s.root ++ [REPO_DATA_DIR]) (normalize [] fsPath) with
 | some turnId, some rel=>
  if rel=[] ∨ startsUp rel ∨ (turnId,rel) ∈ s.copied then some s
  else if 4096 < textLength rel then none
  else
   let destination:=s.root ++ deletedCopyPath turnId rel
   match lstat s.files fsPath with
   | .ok (_,.file content)=>
    if MAX_COPY_BYTES < size content then some s
    else
     let made:=s.ensureBelow destination.dropLast
     if made.2 && made.1.assertWritable (host.fence 1) (steps destination) false then
      match openCreate true made.1.files (steps destination) content with
      | some files=>some { made.1 with files,copied:=(turnId,rel)::s.copied }
      | none=>
       match lstat made.1.files (steps destination) with
       | .ok _=>some { made.1 with copied:=(turnId,rel)::s.copied }
       | .error _=>some made.1
     else some made.1
   | _=>some s
 | _, _=>some s

def deleteFile (host:Host) (fsPath:Path) (s:State) : State × Output :=
 if s.assertWritable (host.fence 0) fsPath true then
  match lstat s.files fsPath with
  | .ok (_,.directory)=>(s,.failed)
  | .ok _=>
   match s.copyBeforeDelete host fsPath with
   | some copied=>copied.written (unlink copied.files fsPath)
   | none=>(s,.failed)
  | .error _=>(s,.failed)
 else (s,.failed)

def isReplaceable : Except Errno (List String × Entry String Text) → Bool
 | .ok (_,.file _)=>true
 | .ok _=>false
 | .error _=>true

def importFile (host:Host) (source:Option Text) (repoRelPath:Text) (s:State) :
  State × Output :=
 let destination:=normalize s.root (components repoRelPath)
 if s.assertWritable (host.fence 0) (steps destination) false then
  match source, lstat s.files (steps destination) with
  | none, _=>(s,.failed)
  | some content, existing=>
   if !isReplaceable existing || MAX_IMPORT_BYTES < size content then (s,.failed)
   else
    let made:=s.ensureBelow destination.dropLast
    if made.2 && made.1.assertWritable (host.fence 1) (steps destination) false then
     made.1.written (openCreate false made.1.files (steps destination) content)
    else (made.1,.failed)
 else (s,.failed)

def isTurnId (turnId:String) : Bool :=
 0 < turnId.length ∧ turnId.length ≤ 128 ∧
  turnId.toList.all fun c=>c.isAlphanum ∨ c ∈ ['_', '.',':','-']

def ensureLayout (host:Host) (s:State) : State × Output :=
 if host.fence 0 then
  let made:=s.ensureBelow (s.root ++ [REPO_DATA_DIR])
  if made.2 then
   let both:=made.1.ensureBelow (s.root ++ [REPO_TMP_DIR])
   (both.1,if both.2 then .done else .failed)
  else (made.1,.failed)
 else (s,.failed)

end State

def step (host:Host) (op:Op) (s:State) : State × Output :=
 match op with
 | .resolvePath p=>(s,s.resolvePath p)
 | .stat fsPath=>(s,s.stat fsPath)
 | .readDirectory fsPath=>(s,s.readDirectory fsPath)
 | .readFile fsPath=>(s,State.shown (s.readFile fsPath))
 | .readDocument uri=>(s,State.shown (s.readDocument host uri))
 | .createFile fsPath content=>s.createFile host fsPath content
 | .applyEdits edits=>s.applyEdits host edits
 | .deleteFile fsPath=>s.deleteFile host fsPath
 | .importFile source repoRelPath=>s.importFile host source repoRelPath
 | .setTurn turnId=>({ s with turn:=turnId.filter State.isTurnId },.done)
 | .ensureLayout=>s.ensureLayout host

end L4Ide.NodeWorkspace
