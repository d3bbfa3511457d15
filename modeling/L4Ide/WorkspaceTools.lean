import Mathlib.Data.Rat.Floor
import Mathlib.Logic.Function.Basic
import L4Ide.ToolPermissions

set_option autoImplicit false

/-!
# The tools that change a workspace

What the tools of the agent make of the arguments of a call: the files that they create, rewrite and
remove, one after another.
-/
namespace L4Ide.WorkspaceTools
open ToolPermissions

inductive Json
 | null
 | bool (value:Bool)
 | number (value:ℚ)
 | text (value:String)
 | array (items:List Json)
 /-- The names are distinct. -/
 | object (fields:List (String × Json))

namespace Json

/-- A field of an object; none where it is undefined. -/
def field (name:String) : Json → Option Json
 | .object fields=>(fields.find? fun entry=>entry.1=name).map Prod.snd
 | _=>none

def truthy : Option Json → Bool
 | some .null=>false
 | some (.bool value)=>value
 | some (.number value)=>value ≠ 0
 | some (.text value)=>value ≠ ""
 | some (.array _)=>true
 | some (.object _)=>true
 | none=>false

def string? : Option Json → Option String
 | some (.text value)=>some value
 | _=>none

def nonempty? (value:Option Json) : Option String := (string? value).filter (· ≠ "")

def readArgs (args:Json) : CallArgs where
 path:=nonempty? (args.field "path")
 copyTo:=nonempty? (args.field "to")
 copyFrom:=nonempty? (args.field "from")
 overwrite:=truthy (args.field "overwrite")
 deleteSource:=truthy (args.field "deleteSource")
 content:=nonempty? (args.field "content")
 question:=nonempty? (args.field "question")

end Json

abbrev Text := List Char

inductive Entry
 | file (text:Text)
 | directory
 /-- A symbolic link to nothing. -/
 | dangling

/-- The entry at each resolved path. -/
abbrev Files := String → Option Entry

structure Position where
 line : ℕ
 character : ℕ
 deriving DecidableEq

structure Location where
 path : String
 start : Position
 stop : Position
 deriving DecidableEq

inductive Creation
 | created
 /-- Another created the file first. -/
 | lost
 | refused
 deriving DecidableEq

structure EditSequence where
 applied : ℕ
 stopped : Bool
 deriving DecidableEq

/-- The host of a call: the workspace and the language server. -/
structure ToolHost where
 isSpace : Char → Bool
 /-- `JSON.parse`; nothing when the text is no JSON. -/
 parse : String → Option Json
 /-- Prefixes of the tools that other providers run. -/
 providers : List String
 resolvePath : String → Option String
 requiresWriteApproval : String → Bool
 /-- `path.normalize`, as `path.join` applies it. -/
 normalize : String → String
 /-- Whether the lines of a document end with a carriage return and a line feed. -/
 crlf : Text → Bool
 sameFile : String → String → Bool
 createFile : String → Creation
 /-- Whether it applies edits to these files. -/
 applyEdits : List String → Bool
 deleteFile : String → Bool
 /-- Whether the turn may not touch the file any more. -/
 blocked : String → Bool
 sequence : String → Option EditSequence
 /-- Whether the check after an edit of a response stops the next one. -/
 stops : ℕ → Bool
 /-- The type of the token at a position, where the server classifies it. -/
 tokenType : String → Position → Option String
 references : String → Position → Option (List Location)

inductive Change
 /-- A new file, with a text of the call or with one of the tool's own. -/
 | created (path:String) (text:Text) (content:Bool)
 | rewritten (path:String) (text:Text)
 | renamed (path:String) (text:Text)
 | removed (path:String)
 deriving DecidableEq

def Change.path : Change → String
 | .created path _ _=>path
 | .rewritten path _=>path
 | .renamed path _=>path
 | .removed path=>path

def Change.apply : Change → Files → Files
 | .created path text _, files=>Function.update files path (some (.file text))
 | .rewritten path text, files=>Function.update files path (some (.file text))
 | .renamed path text, files=>Function.update files path (some (.file text))
 | .removed path, files=>Function.update files path none

structure Ran where
 changes : List Change
 ok : Bool
 deriving DecidableEq

def thrown : Ran := ⟨[],false⟩

/-- The file that an argument names. The empty path names none: it is refused, or is the root. -/
def resolve (host:ToolHost) (value:Option Json) : Option String :=
 (Json.nonempty? value).bind host.resolvePath

def readDocument (files:Files) (path:String) : Option Text :=
 match files path with
 | some (.file text)=>some text
 | _=>none

def MAX_NAME_SUFFIX : ℕ := 20

def FS_CREATE_FILE_SEED : Text := "// new file in progress ...\n".toList

def FS_CREATE_HTML_SEED : Text :=
 ("<!DOCTYPE html>\n<html lang=\"en\">\n  <head>\n    <meta charset=\"utf-8\" />\n" ++
  "    <meta name=\"viewport\" content=\"width=device-width, initial-scale=1\" />\n" ++
  "    <title>New document</title>\n    <style>\n      body \x7b\n" ++
  "        background-color: white;\n        font-family: serif;\n" ++
  "        font-size: 1rem;\n        color: black;\n        margin: 2rem;\n      \x7d\n" ++
  "    </style>\n  </head>\n  <body>New document in progress ...</body>\n</html>\n").toList

def splitPath (fsPath:String) : Text × Text :=
 let name:=(fsPath.toList.reverse.takeWhile (· ≠ '/')).reverse
 (fsPath.toList.take (fsPath.toList.length-name.length),name)

def splitName (name:Text) : Text × Text :=
 let ext:=name.reverse.takeWhile (· ≠ '.')
 let stem:=name.take (name.length-ext.length-1)
 if '.' ∉ name ∨ stem=[] ∨ name = "..".toList then (name,[])
 else (stem,'.' :: ext.reverse)

def isHtmlPath (fsPath:String) : Bool :=
 let ext:=(splitName (splitPath fsPath).2).2.map Char.toLower
 ext = ".html".toList ∨ ext = ".htm".toList

def isL4Path (fsPath:String) : Bool :=
 ".l4".toList.reverse.isPrefixOf (fsPath.toList.map Char.toLower).reverse

/-- `foo.l4` as `foo-3.l4`. -/
def numberedPath (host:ToolHost) (fsPath:String) (n:ℕ) : String :=
 let (directory,name):=splitPath fsPath
 let (stem,ext):=splitName name
 host.normalize (String.ofList (directory ++ stem ++ '-' :: (toString n).toList ++ ext))

/-- `\r\n` as `\n`. -/
def unixLines : Text → Text
 | '\r' :: '\n' :: rest=> '\n' :: unixLines rest
 | c::rest=>c::unixLines rest
 | []=>[]

def hasContent (files:Files) (path:String) (content:Text) : Bool :=
 match readDocument files path with
 | some text=>unixLines text=unixLines content
 | none=>false

/-- The file that the `n`th try of a create takes. -/
def createTarget (host:ToolHost) (requested:String) (n:ℕ) : Option String :=
 if n=0 then some requested else host.resolvePath (numberedPath host requested n)

def createTries (host:ToolHost) (files:Files) (requested:String) (content:Text) :
  List ℕ → Ran
 | []=>thrown
 | n::tries=>
  match createTarget host requested n with
  | none=>thrown
  | some target=>
   if (files target).isSome then
    if hasContent files target content then ⟨[],true⟩
    else createTries host files requested content tries
   else
    match host.createFile target with
    | .created=>⟨[.created target content (content ≠ [])],true⟩
    | .lost=>createTries host files requested content tries
    | .refused=>thrown

def createFile (host:ToolHost) (files:Files) (args:Json) : Ran :=
 match resolve host (args.field "path") with
 | none=>thrown
 | some requested=>
  if host.blocked requested then thrown
  else
   match args.field "content" with
   | none=>
    if (files requested).isSome ∨ host.createFile requested ≠ .created then thrown
    else
     let seed:=if isHtmlPath requested then FS_CREATE_HTML_SEED else FS_CREATE_FILE_SEED
     ⟨[.created requested seed false],true⟩
   | some (.text content)=>
    if '\x00' ∈ content.toList then thrown
    else createTries host files requested content.toList (List.range (MAX_NAME_SUFFIX+1))
   | some _=>thrown

def MAX_EDITS_PER_FILE : ℕ := 5

def eol (crlf:Bool) : Text := if crlf then ['\r', '\n'] else ['\n']

/-- Every line ending as the document's. -/
def withEol (crlf:Bool) : Text → Text
 | '\r' :: '\n' :: rest=>eol crlf ++ withEol crlf rest
 | '\n' :: rest=>eol crlf ++ withEol crlf rest
 | c::rest=>c::withEol crlf rest
 | []=>[]

def indexOf (needle:Text) : Text → Option ℕ
 | []=>if needle=[] then some 0 else none
 | c::rest=>
  if needle.isPrefixOf (c::rest) then some 0 else (indexOf needle rest).map (· + 1)

/-- Occurrences that do not overlap, where the next characters are still of the one before. -/
def countOccurrences (needle:Text) : ℕ → Text → ℕ
 | _, []=>0
 | skip+1, _::rest=>countOccurrences needle skip rest
 | 0, c::rest=>
  if needle.isPrefixOf (c::rest) then 1+countOccurrences needle (needle.length-1) rest
  else countOccurrences needle 0 rest

/-- Where the line after the first `n` lines starts. -/
def afterLines (ending:Text) : ℕ → Text → Option ℕ
 | 0, _=>some 0
 | n+1, text=>
  match indexOf ending text with
  | none=>none
  | some i=>(afterLines ending n (text.drop (i+ending.length))).map (· + (i+ending.length))

/-- The line after which an edit looks for its text. -/
def anchorLine : Option Json → ℕ
 | some (.number line)=>⌊line⌋.toNat
 | _=>0

def replaced (crlf:Bool) (text old new:Text) (anchor:ℕ) : Option Text :=
 let wanted:=withEol crlf old
 match afterLines (eol crlf) anchor text with
 | none=>none
 | some offset=>
  let window:=text.drop offset
  if anchor=0 ∧ countOccurrences wanted 0 window ≠ 1 then none
  else
   (indexOf wanted window).map fun hit=>
    text.take (offset+hit) ++ withEol crlf new ++ text.drop (offset+hit+wanted.length)

def applyOneEdit (host:ToolHost) (files:Files) (path:String) (item:Json) : Option Change :=
 match Json.string? (item.field "old"), Json.string? (item.field "new") with
 | some old, some new=>
  if old = "" then none
  else
   match readDocument files path with
   | none=>none
   | some text=>
    match replaced (host.crlf text) text old.toList new.toList
     (anchorLine (item.field "startLine")) with
    | none=>none
    | some after=>if host.applyEdits [path] then some (.rewritten path after) else none
 | _, _=>none

/-- The changes that a call asks for, in order; none where they are no list. -/
def editItems (args:Json) : Option (List Json) :=
 match args.field "edits" with
 | none=>some [args]
 | some (.array (item::items))=>some (item::items)
 | some _=>none

/-- Edits one at a time, to the first that fails or makes the file worse. -/
def applyEdits (host:ToolHost) (path:String) : ℕ → List Json → Files → List Change
 | _, [], _=>[]
 | i, item::items, files=>
  match applyOneEdit host files path item with
  | none=>[]
  | some change=>
   if isL4Path path ∧ host.stops i then [change]
   else change::applyEdits host path (i+1) items (change.apply files)

def applySequence (host:ToolHost) (files:Files) (path:String) (items:List Json)
  (sequence:EditSequence) : Ran :=
 if sequence.stopped ∨ MAX_EDITS_PER_FILE ≤ sequence.applied then thrown
 else
  let changes:=
   applyEdits host path 0 (items.take (MAX_EDITS_PER_FILE-sequence.applied)) files
  ⟨changes,changes ≠ []⟩

def editFile (host:ToolHost) (files:Files) (args:Json) : Ran :=
 match resolve host (args.field "path") with
 | none=>thrown
 | some path=>
  if host.blocked path then thrown
  else
   match editItems args with
   | none=>thrown
   | some items=>
    match host.sequence path with
    | some sequence=>applySequence host files path items sequence
    | none=>
     if items.length > 1 then applySequence host files path items ⟨0,false⟩
     else
      let changes:=(items.filterMap (applyOneEdit host files path))
      ⟨changes,changes ≠ []⟩

def deleteFile (host:ToolHost) (files:Files) (args:Json) : Ran :=
 match resolve host (args.field "path") with
 | none=>thrown
 | some path=>
  if (files path).isSome ∧ host.deleteFile path then ⟨[.removed path],true⟩ else thrown

def copyTarget (host:ToolHost) (files:Files) (source target:String) (overwrite:Bool) :
  Option Change :=
 match readDocument files source with
 | none=>none
 | some text=>
  if '\x00' ∈ text then none
  else
   match files target with
   | none=>
    if host.createFile target = .created then some (.created target text false) else none
   | some (.file _)=>
    if host.sameFile source target ∨ ¬overwrite ∨ ¬host.applyEdits [target] then none
    else some (.rewritten target text)
   | some _=>none

def copyFile (host:ToolHost) (files:Files) (args:Json) : Ran :=
 match resolve host (args.field "from"), resolve host (args.field "to") with
 | some source, some target=>
  if host.blocked target ∨ source=target then thrown
  else
   match copyTarget host files source target (Json.truthy (args.field "overwrite")) with
   | none=>thrown
   | some change=>
    if Json.truthy (args.field "deleteSource") then
     if host.deleteFile source then ⟨[change,.removed source],true⟩ else ⟨[change],false⟩
    else ⟨[change],true⟩
 | _, _=>thrown

def backtick : Char := Char.ofNat 96

def stripBackticks (name:Text) : Text :=
 ((name.dropWhile (· = backtick)).reverse.dropWhile (· = backtick)).reverse

def validateRefactorName (raw:Option Json) : Option Text :=
 match Json.string? raw with
 | none=>none
 | some text=>
  let name:=stripBackticks text.toList
  if name=[] ∨ backtick ∈ name ∨ '\r' ∈ name ∨ '\n' ∈ name ∨ '/' ∈ name ∨ '\\' ∈ name ∨
   "@".toList.isPrefixOf name ∨ "#".toList.isPrefixOf name ∨ "--".toList.isPrefixOf name then
   none
  else some name

def isWord (c:Char) : Bool := c.isAlpha ∨ c.isDigit ∨ c = '_'

/-- `BARE_IDENT_RE`. -/
def isBareIdent : Text → Bool
 | []=>false
 | c::rest=>!c.isDigit && (c::rest).all isWord

def IDENTIFIER_TOKEN_TYPES : List String :=
 ["variable","function","class","enum","enumMember","interface","struct","type",
  "typeParameter","parameter","property","method","namespace","event","label"]

/-- Where a text occurs, without overlaps; `before` is the character before. -/
def occurrencesFrom (needle:Text) (bounded:Bool) : ℕ → ℕ → Option Char → Text → List ℕ
 | _, _, _, []=>[]
 | skip+1, i, _, c::rest=>occurrencesFrom needle bounded skip (i+1) (some c) rest
 | 0, i, before, c::rest=>
  let after:=((c::rest).drop needle.length).head?
  if needle.isPrefixOf (c::rest) ∧
    (¬bounded ∨ ¬before.any isWord ∧ ¬after.any isWord) then
   i::occurrencesFrom needle bounded (needle.length-1) (i+1) (some c) rest
  else occurrencesFrom needle bounded 0 (i+1) (some c) rest

/-- Where the lines of a text start and end, from the start of the present one. -/
def linesFrom : ℕ → ℕ → Text → List (ℕ × ℕ)
 | start, i, '\r' :: '\n' :: rest=>(start,i)::linesFrom (i+2) (i+2) rest
 | start, i, '\r' :: rest=>(start,i)::linesFrom (i+1) (i+1) rest
 | start, i, '\n' :: rest=>(start,i)::linesFrom (i+1) (i+1) rest
 | start, i, _::rest=>linesFrom start (i+1) rest
 | start, i, []=>[(start,i)]

def lines (text:Text) : List (ℕ × ℕ) := linesFrom 0 0 text

def positionAt (text:Text) (offset:ℕ) : Position :=
 let clamped:=min offset text.length
 let before:=(lines text).takeWhile fun line=>line.1 ≤ clamped
 let line:=before.getLast?.getD (0,0)
 ⟨before.length-1,min clamped line.2-line.1⟩

def offsetAt (text:Text) (position:Position) : ℕ :=
 match (lines text)[position.line]? with
 | none=>text.length
 | some line=>min (line.1+position.character) line.2

def textInRange (text:Text) (start stop:Position) : Text :=
 (text.take (offsetAt text stop)).drop (offsetAt text start)

def findOccurrences (text oldName:Text) : List Position :=
 let long:=decide (2 ≤ oldName.length)
 let quoted:=(occurrencesFrom (backtick::oldName ++ [backtick]) false 0 0 none text).map fun i=>
  positionAt text (i + if long then 2 else 1)
 let bare:=if isBareIdent oldName then
   (occurrencesFrom oldName true 0 0 none text).map fun i=>
    positionAt text (i + if long then 1 else 0)
  else []
 quoted ++ bare

/-- The first place that is an identifier, or that the server does not classify. -/
def renameAnchor (host:ToolHost) (path:String) (text oldName:Text) : Option Position :=
 (findOccurrences text oldName).find? fun position=>
  (host.tokenType path position).all fun type=>type ∈ IDENTIFIER_TOKEN_TYPES

def isOldName (oldName text:Text) (location:Location) : Bool :=
 stripBackticks (textInRange text location.start location.stop)=oldName

def renderReplacement (existing newName:Text) (newNameNeedsBackticks:Bool) : Text :=
 if existing.head? = some backtick ∧ existing.getLast? = some backtick ∨ newNameNeedsBackticks then
  backtick::newName ++ [backtick]
 else newName

def isAfter (a b:Location) : Bool :=
 a.start.line > b.start.line ∨ a.start.line=b.start.line ∧ a.start.character > b.start.character

def renameIn (oldName newName text:Text) (locations:List Location) : Text :=
 let places:=(locations.filter (isOldName oldName text)).mergeSort fun a b=>!isAfter b a
 places.foldl (fun renamed location=>
  let start:=offsetAt text location.start
  let stop:=offsetAt text location.stop
  renamed.take start ++
   renderReplacement (textInRange text location.start location.stop) newName
    (!isBareIdent newName) ++ renamed.drop stop) text

def referencedFiles (locations:List Location) : List String :=
 (locations.map Location.path).dedup

def renameFiles (files:Files) (oldName newName:Text) (locations:List Location) :
  List String → Option (List Change)
 | []=>some []
 | path::paths=>
  match readDocument files path, renameFiles files oldName newName locations paths with
  | some text, some changes=>
   let own:=locations.filter fun location=>location.path=path
   if own.any (isOldName oldName text) then
    some (.renamed path (renameIn oldName newName text own)::changes)
   else some changes
  | _, _=>none

def rename (host:ToolHost) (files:Files) (args:Json) : Ran :=
 match validateRefactorName (args.field "oldName"),
  validateRefactorName (args.field "newName") with
 | some oldName, some newName=>
  if oldName=newName then ⟨[],true⟩
  else
   match resolve host (args.field "path") with
   | none=>thrown
   | some path=>
    match readDocument files path with
    | none=>thrown
    | some text=>
     match (renameAnchor host path text oldName).bind (host.references path) with
     | none=>thrown
     | some locations=>
      match renameFiles files oldName newName locations (referencedFiles locations) with
      | none=>thrown
      | some changes=>
       if changes=[] ∨ ¬host.applyEdits (changes.map Change.path) then thrown
       else ⟨changes,true⟩
 | _, _=>thrown

def refactor (host:ToolHost) (files:Files) (args:Json) : Ran :=
 match Json.string? (args.field "action") with
 | some action=>if action = "rename" then rename host files args else thrown
 | none=>thrown

def execute (host:ToolHost) (files:Files) (name:String) (args:Json) : Ran :=
 if host.providers.any fun pre=>startsWith name pre then ⟨[],true⟩
 else if name = "fs__create_file" then createFile host files args
 else if name = "fs__edit_file" then editFile host files args
 else if name = "fs__delete_file" then deleteFile host files args
 else if name = "fs__copy_file" then copyFile host files args
 else if name = "l4__refactor" then refactor host files args
 else ⟨[],true⟩

inductive Decision
 | allow
 | deny
 deriving DecidableEq

structure Outcome where
 /-- The user was asked about this very call and allowed it. -/
 approved : Bool
 changes : List Change
 ok : Bool
 deriving DecidableEq

def ToolHost.permissions (host:ToolHost) : ToolPermissions.Host where
 isSpace:=host.isSpace
 parse json := (host.parse json).map Json.readArgs
 requiresWriteApproval path := (host.resolvePath path).any host.requiresWriteApproval

def callArguments (host:ToolHost) (json:String) : Option Json :=
 if json.toList.all host.isSpace then some (.object []) else host.parse json

def perform (host:ToolHost) (files:Files) (call:ToolCall) (approved:Bool) : Outcome :=
 match callArguments host call.argsJson with
 | none=>⟨approved,[],false⟩
 | some args=>
  let ran:=execute host files call.name args
  ⟨approved,ran.changes,ran.ok⟩

/-- `ToolDispatcher.run`. -/
def run (host:ToolHost) (policy:PermissionPolicy) (files:Files) (decision:Decision)
  (call:ToolCall) : Outcome :=
 match gate host.permissions policy call with
 | .statusUpdate=>⟨false,[],true⟩
 | .unknown=>⟨false,[],false⟩
 | .gated .never=>⟨false,[],false⟩
 | .gated .ask=>
  if decision = .deny then ⟨false,[],false⟩ else perform host files call true
 | .gated .always=>perform host files call false

end L4Ide.WorkspaceTools
