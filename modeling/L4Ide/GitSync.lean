import L4Ide.CommitGraph

set_option autoImplicit false

/-!
# Git sync of a session

The repository of a cloud session between operations: the commits of its turns, files that the user
adds, bundles that are merged in, and roll backs. Ignore rules and three-way merges are git's.
-/
namespace L4Ide.GitSync
open CommitGraph

/-- Paths with their blobs. -/
abbrev Tree := List (String × String)

def Tree.get (tree:Tree) (path:String) : Option String := tree.lookup path

def Tree.has (tree:Tree) (path:String) : Bool := (tree.get path).isSome

/-- `git diff --quiet`. -/
def Tree.same (a b:Tree) : Bool := (a ++ b).all fun f=>a.get f.1=b.get f.1

/-- The files of `top`, and those of `tree` at other paths. -/
def Tree.overlay (top tree:Tree) : Tree := top ++ tree.filter fun f=>!top.has f.1

structure Info where
 tree : Tree
 subject : String
 /-- The values of its `Turn-Id` trailers. -/
 trailers : List String
 /-- The author, the dates and the rest of the message. -/
 stamp : String
 deriving DecidableEq

abbrev Commit := CommitGraph.Commit Info

def treeOf (c:Commit) : Tree := c.info.tree

structure Git where
 /-- Whether the ignore files of a work tree ignore a path. -/
 ignored : (String → Option String) → String → Bool
 /-- The tree of a merge, or the paths in conflict. -/
 merge : Commit → Commit → Except (List String) Tree

structure Bundle where
 tip : Commit
 tooLarge : Bool

inductive Event
 | gitCommitted (turnId:String) (sha parent:Commit) (summary:String)
 | rolledBack (turnId:String) (sha:Commit)
 | localMerged (sha:Commit)
 | localMergeConflict (files:List String)
 deriving DecidableEq

structure State where
 main : Commit
 index : Tree
 /-- The work tree, with its files that are not tracked. -/
 files : Tree
 /-- The tip of `main.bundle`. -/
 bundle : Commit
 incoming : List (String × Bundle)
 events : List Event

section Operations
variable (git:Git)

/-- `git add -A` leaves out what is ignored, unless it is tracked. -/
def addAll (s:State) : State :=
 { s with index:=s.files.filter fun f=>s.index.has f.1 || !git.ignored s.files.get f.1 }

def writeBundle (s:State) : State := { s with bundle:=s.main }

/-- The state after it, and the commit with its parent when there was something to commit. -/
def commitChanges (subject:String) (trailers:List String) (stamp:String) (s:State) :
  State × Option (Commit × Commit) :=
 let s:=addAll git s
 if s.index.same (treeOf s.main) then (s,none)
 else
  let sha:Commit:=.mk ⟨s.index,subject,trailers,stamp⟩ [s.main]
  (writeBundle { s with main:=sha },some (sha,s.main))

def State.emit (event:Event) (s:State) : State := { s with events:=s.events ++ [event] }

def afterTurn (turnId summary stamp:String) (s:State) : State :=
 match commitChanges git summary [turnId] stamp s with
 | (s,none)=>s
 | (s,some (sha,parent))=>s.emit (.gitCommitted turnId sha parent summary)

def onFilesAdded (added:Tree) (stamp:String) (s:State) : State :=
 let s:={ s with files:=added.overlay s.files }
 let refused:Tree:=added.filter fun f=>!s.index.has f.1 && git.ignored s.files.get f.1
 let staged:Tree:=added.filter fun f=>!refused.has f.1
 let s:={ s with index:=staged.overlay s.index }
 if !refused.isEmpty || added.all fun f=>s.index.get f.1=(treeOf s.main).get f.1 then s
 else
  let tree:=added.overlay (treeOf s.main)
  writeBundle { s with main:=.mk ⟨tree,"Add files from the user",[],stamp⟩ [s.main] }

def beforeExit (stamp:String) (s:State) : State :=
 (commitChanges git "Checkpoint before sleep" [] stamp s).1

/-- Index and work tree become a tree; untracked files stay where it has none. -/
def restore (tree:Tree) (s:State) : State :=
 { s with
   index:=tree
   files:=tree.overlay (s.files.filter fun f=>!s.index.has f.1) }

/-- `git merge`: nothing, a fast-forward, a merge commit, or a conflict. -/
def mergeTip (tip:Commit) (stamp:String) (s:State) : Except (List String) State :=
 if tip ∈ s.main.history then .ok s
 else if s.main ∈ tip.history then .ok (restore (treeOf tip) { s with main:=tip })
 else
  match git.merge s.main tip with
  | .error files=>.error files
  | .ok tree=>
   .ok (restore tree
    { s with main:=.mk ⟨tree,"Merge local changes",[],stamp⟩ [s.main,tip] })

def removeIncoming (file:String) (s:State) : State :=
 { s with incoming:=s.incoming.filter fun b=>b.1 ≠ file }

def applyBundle (file:String) (fetched:Bool) (stamp stamp' : String) (s:State) : State :=
 match s.incoming.lookup file with
 | none=>s
 | some bundle=>
  if bundle.tooLarge then s
  else
   let s:=(commitChanges git "Checkpoint before merging local changes" [] stamp s).1
   if !fetched then s
   else
    match mergeTip git bundle.tip stamp' s with
    | .error files=>removeIncoming file (s.emit (.localMergeConflict (files.take 1000)))
    | .ok s=>
     let s:=removeIncoming file (writeBundle s)
     s.emit (.localMerged s.main)

def findTurnCommit (turnId:String) (main:Commit) : Option Commit :=
 main.line.find? fun c=>c.info.trailers.contains turnId

def rollback (turnId stamp stamp' : String) (s:State) : State :=
 match findTurnCommit turnId s.main with
 | none=>s
 | some target=>
  match target.parents.head? with
  | none=>s
  | some parent=>
   let s:=(commitChanges git "Checkpoint before roll back" [] stamp s).1
   -- `git restore` fails when no path matches in the index nor in the tree
   if s.index.isEmpty && (treeOf parent).isEmpty then s
   else
    let s:=restore (treeOf parent) s
    let s:=(commitChanges git ("Roll back: " ++ target.info.subject) [] stamp' s).1
    s.emit (.rolledBack turnId s.main)

inductive Action
 /-- The agent or the user changes the work tree. -/
 | write (files:Tree)
 | push (file:String) (bundle:Bundle)
 | start
 | afterTurn (turnId summary stamp:String)
 | onFilesAdded (added:Tree) (stamp:String)
 | beforeExit (stamp:String)
 | applyBundle (file:String) (fetched:Bool) (stamp stamp' : String)
 | rollback (turnId stamp stamp' : String)

def step (action:Action) (s:State) : State :=
 match action with
 | .write files=>{ s with files }
 | .push file bundle=>{ s with incoming:=(file,bundle)::s.incoming.filter (·.1 ≠ file) }
 | .start=>writeBundle s
 | .afterTurn turnId summary stamp=>afterTurn git turnId summary stamp s
 | .onFilesAdded added stamp=>onFilesAdded git added stamp s
 | .beforeExit stamp=>beforeExit git stamp s
 | .applyBundle file fetched stamp stamp' =>applyBundle git file fetched stamp stamp' s
 | .rollback turnId stamp stamp' =>rollback git turnId stamp stamp' s

end Operations

/-- A repository as it is when the harness has started on it. -/
def initial (main:Commit) (index files:Tree) (incoming:List (String × Bundle)) : State where
 main
 index
 files
 bundle:=main
 incoming
 events:=[]

end L4Ide.GitSync
