import L4Ide.DirectoryTree
import L4Ide.InterruptiblePrograms

set_option autoImplicit false

/-!
# The bundle store

Saving, loading, deleting and cleaning up the stored bundles of deployments, as programs over
the directory of the store. Paths are those of a host whose only separator is `/`.
-/
namespace L4Ide.BundleStore
open DirectoryTree InterruptiblePrograms

abbrev Name := List Char
abbrev FilePath := List Char
abbrev Text := String

/-- The contents of the store's root directory. -/
abbrev Store := Dir Name Text

structure StoredMetadata where
 smVersion : Text
 smCreatedAt : Text
 smDescription : Option Text
 smServiceVersion : Option Text
 smDeploymentVersion : Option Text
 deriving DecidableEq

inductive Failure
 | userError (message:String)
 | fileSystem (path:List Name)
 deriving DecidableEq

/-- What the store takes from elsewhere: the letters of Unicode and the JSON text of metadata. -/
structure Imports where
 isAlpha : Char → Bool
 encode : StoredMetadata → Text
 decode : Text → Except String StoredMetadata

def isSeparatorChar (c:Char) : Bool := c == '/' || c == '\\'

def rooted (lib:Imports) : FilePath → Bool
 | []=>false
 | c::rest=>isSeparatorChar c || (rest.head? == some ':' && lib.isAlpha c)

def components (path:FilePath) : List FilePath := path.splitOnP isSeparatorChar

def isSafeRelativePath (lib:Imports) (path:FilePath) : Bool :=
 !path.isEmpty && !path.elem (Char.ofNat 0) && !rooted lib path &&
  !(components path).elem "..".toList

def isSafeDeploymentId (lib:Imports) (deployId:Text) : Bool :=
 let path:=deployId.toList
 isSafeRelativePath lib path && !path.any isSeparatorChar && path != ".".toList

/-- `a </> b` -/
def join (a b:FilePath) : FilePath :=
 if a=[] ∨ b.head? = some '/' then b
 else if a.getLast? = some '/' then a ++ b
 else a ++ '/' :: b

def takeDirectory (path:FilePath) : FilePath :=
 match path.reverse.dropWhile (· != '/') with
 | []=> ".".toList
 | _::rest=>rest.reverse

/-- The names that the host goes through for a path that is relative to the store's root. -/
def resolve (path:FilePath) : List Name :=
 (path.splitOn '/').filter fun n=>n != [] && n != ".".toList

/-- Does the path end in a separator or in `.`? Such a path cannot name a file. -/
def endsInDirectory (path:FilePath) : Bool :=
 match (path.splitOn '/').getLast? with
 | none=>true
 | some n=>n == [] || n == ".".toList

def takeExtension (name:Name) : Name :=
 let ext:=name.reverse.takeWhile (· != '.')
 if ext.length=name.length then [] else '.' :: ext.reverse

abbrev IOAction (A:Type) := Program Store Failure A

def change (path:List Name) (f:Option (Entry Name Text) → Option (Option (Entry Name Text))) :
  IOAction Unit :=
 .act fun s=>
  match s.alter f path with
  | some s' =>.ok s'
  | none=>.error (.fileSystem path)

def doesDirectoryExist (path:List Name) (s:Store) : Bool :=
 match s.find path with
 | some (.dir _)=>true
 | _=>false

def createdDirectory : Option (Entry Name Text) → Option (Option (Entry Name Text))
 | none=>some (some (.dir .empty))
 | some (.dir d)=>some (some (.dir d))
 | some (.file _)=>none

/-- `createDirectoryIfMissing True`: every directory on the way, from the outside in. -/
def createDirectoryIfMissing (path:FilePath) : IOAction Unit :=
 (resolve path).inits.tail.forM fun p=>change p createdDirectory

def truncated : Option (Entry Name Text) → Option (Option (Entry Name Text))
 | none=>some (some (.file ""))
 | some (.file _)=>some (some (.file ""))
 | some (.dir _)=>none

def appended (c:Char) : Option (Entry Name Text) → Option (Option (Entry Name Text))
 | some (.file t)=>some (some (.file (t.push c)))
 | _=>none

def writeFile (path:FilePath) (content:Text) : IOAction Unit :=
 if endsInDirectory path then .raise (.fileSystem (resolve path))
 else do
  change (resolve path) truncated
  content.toList.forM fun c=>change (resolve path) (appended c)

/-- `removeDirectoryRecursive`: each entry after what it contains. -/
def removeDirectoryRecursive (path:List Name) : IOAction Unit := do
 let entry ← Program.ask fun s=>s.find path
 match entry with
 | some (.dir d)=>
  (d.removals.map (path ++ ·) ++ [path]).forM fun p=>change p Dir.removed
 | _=>.raise (.fileSystem path)

def renamedOnto (d:Dir Name Text) :
  Option (Entry Name Text) → Option (Option (Entry Name Text))
 | none=>some (some (.dir d))
 | some (.dir .empty)=>some (some (.dir d))
 | _=>none

/-- `renameDirectory`, one atomic operation. -/
def renameDirectory (old new:List Name) : IOAction Unit :=
 .act fun s=>
  match s.find old with
  | some (.dir d)=>
   match (s.alter (fun _=>some none) old).bind fun s' =>s'.alter (renamedOnto d) new with
   | some s' =>.ok s'
   | none=>.error (.fileSystem new)
  | _=>.error (.fileSystem old)

def tmpSuffix : List Char := ".tmp".toList

def cleanupStore : IOAction Unit := do
 let entries ← Program.ask fun s : Store=>s.names
 let tmpDirs:=entries.filter fun d=>tmpSuffix.isSuffixOf d
 tmpDirs.forM fun d=>(removeDirectoryRecursive [d]).catchError fun _=>pure ()

/-- The name of the temp directory of a save. -/
def tmpName (deployId:Text) : Name := deployId.toList ++ tmpSuffix

def writeBundle (lib:Imports) (deployId:Text) (sources:List (FilePath × Text))
  (metadata:StoredMetadata) : IOAction Unit := do
 let tmpDir:=tmpName deployId
 createDirectoryIfMissing (join tmpDir "sources".toList)
 sources.forM fun source=>do
  let fullPath:=join (join tmpDir "sources".toList) source.1
  createDirectoryIfMissing (takeDirectory fullPath)
  writeFile fullPath source.2
 writeFile (join tmpDir "metadata.json".toList) (lib.encode metadata)

def swapBundle (deployId:Text) : IOAction Unit := do
 let targetDir:=resolve deployId.toList
 let tmpDir:=resolve (tmpName deployId)
 let targetExists ← Program.ask (doesDirectoryExist targetDir)
 if targetExists then do
  removeDirectoryRecursive targetDir
  renameDirectory tmpDir targetDir
 else
  renameDirectory tmpDir targetDir

/-- Save bundle sources and metadata; the sources are those of a map, by ascending path. -/
def saveBundle (lib:Imports) (deployId:Text) (sources:List (FilePath × Text))
  (metadata:StoredMetadata) : IOAction Unit :=
 if !isSafeDeploymentId lib deployId then
  .raise (.userError "saveBundle: the deployment id is not a plain name")
 else if !sources.all fun source=>isSafeRelativePath lib source.1 then
  .raise (.userError "saveBundle: a source path is not a safe relative path")
 else do
  writeBundle lib deployId sources metadata
  swapBundle deployId

abbrev SourceMap := List Name → Option Text

def SourceMap.singleton (p:List Name) (content:Text) : SourceMap := fun q=>
 if q=p then some content else none

/-- Left-biased, as `Map.unions` is. -/
def SourceMap.union (m m' : SourceMap) : SourceMap := fun p=>(m p).or (m' p)

/-- The map of a subdirectory, with the paths seen from the directory above. -/
def SourceMap.under (n:Name) (m:SourceMap) : SourceMap
 | []=>none
 | k::p=>if k=n then m p else none

def loadSourcesRecursive : Dir Name Text → SourceMap
 | .empty=>fun _=>none
 | .withFile n content rest=>
  if takeExtension n = ".l4".toList then
   (SourceMap.singleton [n] content).union (loadSourcesRecursive rest)
  else loadSourcesRecursive rest
 | .withDir n sub rest=>((loadSourcesRecursive sub).under n).union (loadSourcesRecursive rest)

def loadSources (path:List Name) (s:Store) : SourceMap :=
 match s.find path with
 | some (.dir d)=>loadSourcesRecursive d
 | _=>fun _=>none

/-- Load sources and metadata from a stored deployment. -/
def loadBundle (lib:Imports) (deployId:Text) (s:Store) :
  Except Failure (SourceMap × StoredMetadata) :=
 let did:=deployId.toList
 let metaFile:=resolve (join did "metadata.json".toList)
 if !isSafeDeploymentId lib deployId then
  .error (.userError ("Failed to decode metadata for " ++ deployId ++ ": no such deployment"))
 else
  match s.contentAt metaFile with
  | none=>.error (.fileSystem metaFile)
  | some text=>
   match lib.decode text with
   | .error err=>.error (.userError ("Failed to decode metadata for " ++ deployId ++ ": " ++ err))
   | .ok metadata=>.ok (loadSources (resolve (join did "sources".toList)) s,metadata)

/-- Delete a deployment's directory from the store; false if removal failed. -/
def deleteBundle (lib:Imports) (deployId:Text) : IOAction Bool := do
 let deployDir:=resolve deployId.toList
 let exist ← if isSafeDeploymentId lib deployId then
   Program.ask (doesDirectoryExist deployDir)
  else pure false
 if exist then
  Program.catchError
   (do
    removeDirectoryRecursive deployDir
    pure true)
   fun _=>pure false
 else pure true

end L4Ide.BundleStore
