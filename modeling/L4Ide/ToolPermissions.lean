import Mathlib.Data.List.Basic

set_option autoImplicit false

/-!
# Permissions of the agent's tools

The permission categories that a tool call needs, by its name and its arguments, and the
strictest permission among them.
-/
namespace L4Ide.ToolPermissions

inductive PermissionValue
 | never
 | ask
 | always
 deriving DecidableEq

inductive PermissionCategory
 | fsRead
 | fsCreate
 | fsEdit
 | fsDelete
 | l4Evaluate
 | l4Refactor
 | mcpL4Rules
 | mcpVscode
 | metaAskUser
 | metaStatusUpdate
 deriving DecidableEq

abbrev PermissionPolicy := PermissionCategory → PermissionValue

/-- Destructive calls are confirmed unless the user explicitly opts out. -/
def defaultPermissions : PermissionPolicy
 | .fsDelete=>.ask
 | _=>.always

/-- A call's arguments, as the tools read them: the flags by their truth, and the texts
    where they are texts and not empty. -/
structure CallArgs where
 path : Option String
 copyTo : Option String
 copyFrom : Option String
 overwrite : Bool
 deleteSource : Bool
 content : Option String
 question : Option String
 deriving DecidableEq

def CallArgs.none : CallArgs :=
 ⟨Option.none,Option.none,Option.none,false,false,Option.none,Option.none⟩

/-- What the host decides: how argument texts are read, and which files need confirmation. -/
structure Host where
 isSpace : Char → Bool
 /-- `JSON.parse`; nothing when the text is no JSON. -/
 parse : String → Option CallArgs
 /-- Whether a write to this path must be confirmed by the user; false for a path that
     does not resolve. -/
 requiresWriteApproval : String → Bool

structure ToolCall where
 callId : String
 name : String
 argsJson : String
 deriving DecidableEq

def parseArgs (host:Host) (json:String) : Option CallArgs :=
 if json.toList.all host.isSpace then some CallArgs.none else host.parse json

def argsOrNull (host:Host) (json:String) : CallArgs :=
 (parseArgs host json).getD CallArgs.none

def startsWith (s pre:String) : Bool := pre.toList.isPrefixOf s.toList

def categoryForTool (toolName:String) : Option PermissionCategory :=
 if toolName = "fs__read_file" then some .fsRead
 else if toolName = "fs__create_file" then some .fsCreate
 else if toolName = "fs__edit_file" then some .fsEdit
 else if toolName = "fs__delete_file" then some .fsDelete
 else if toolName = "fs__copy_file" then some .fsEdit
 else if toolName = "l4__evaluate" then some .l4Evaluate
 else if toolName = "l4__refactor" then some .l4Refactor
 else if toolName = "meta__ask_user" then some .metaAskUser
 else if toolName = "meta__post_status_update" then some .metaStatusUpdate
 else if startsWith toolName "l4-rules__" then some .mcpL4Rules
 else if startsWith toolName "vsmcp__" then some .mcpVscode
 else none

def categoriesForCall (toolName:String) (args:CallArgs) : List PermissionCategory :=
 if toolName = "fs__copy_file" then
  .fsCreate::((if args.overwrite then [.fsEdit] else []) ++
   if args.deleteSource then [.fsDelete] else [])
 else if toolName = "fs__create_file" then
  if args.content.isSome then [.fsCreate,.fsEdit] else [.fsCreate]
 else (categoryForTool toolName).toList

def strictness : PermissionValue → ℕ
 | .always=>0
 | .ask=>1
 | .never=>2

def strictestPermission (policy:PermissionPolicy) (categories:List PermissionCategory) :
  Option PermissionValue :=
 categories.foldl
  (fun worst category=>
   match worst with
   | none=>some (policy category)
   | some w=>if strictness (policy category) > strictness w then some (policy category)
    else some w)
  none

def writtenPaths (name:String) (args:CallArgs) : List String :=
 if name = "fs__create_file" ∨ name = "fs__edit_file" ∨ name = "fs__delete_file" then
  args.path.toList
 else if name = "fs__copy_file" then
  args.copyTo.toList ++ if args.deleteSource then args.copyFrom.toList else []
 else []

/-- `ask` in place of `always` when the call writes a file that must be confirmed. -/
def withWriteApproval (host:Host) (permission:PermissionValue) (name:String)
  (args:CallArgs) : PermissionValue :=
 if permission = .always ∧ (writtenPaths name args).any host.requiresWriteApproval then .ask
 else permission

inductive Gate
 | statusUpdate
 | unknown
 | gated (permission:PermissionValue)
 deriving DecidableEq

/-- The first part of `ToolDispatcher.run`: the name, then the strictest of what the call
    needs. -/
def gate (host:Host) (policy:PermissionPolicy) (call:ToolCall) : Gate :=
 if call.name = "meta__post_status_update" then .statusUpdate
 else
  match categoryForTool call.name with
  | none=>.unknown
  | some category=>
   let args:=argsOrNull host call.argsJson
   let permission:=(strictestPermission policy (categoriesForCall call.name args)).getD
    (policy category)
   .gated (withWriteApproval host permission call.name args)

/-- The dispatcher answers the call itself, without asking anyone and without running it. -/
def refused (host:Host) (policy:PermissionPolicy) (call:ToolCall) : Bool :=
 match gate host policy call with
 | .statusUpdate=>true
 | .unknown=>true
 | .gated permission=>permission = .never

end L4Ide.ToolPermissions
