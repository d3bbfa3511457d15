import L4Ide.Machine

set_option autoImplicit false

/-!
# The machine by name

A store without memory: a reference is the closure it stands for, and forcing it
evaluates the closure each time.
-/
namespace L4Ide.CallByName
open Syntax Environment ValueLazy Machine

inductive Closure where
 | suspended (e:RExpr) (env:List (Unique × Closure))
 | localDecl (env:List (Unique × Closure)) (decls:List (LocalDecl Resolved)) (u:Unique)
 | whnf (val:Value Closure)

def declHead : LocalDecl Resolved → Resolved
 | .localDecide (.mkDecide _ appForm _ _)=>appForm.head
 | .localAssume a=>a.appForm.head

/-- What a name of the declarations stands for, in the environment with them all. -/
def evalLocalDecl (env:Env Closure) : LocalDecl Resolved → Poked Closure
 | .localDecide (.mkDecide _ appForm e _)=>
  match appForm.args with
  | []=>.enter e env
  | args=>.whnf (.valClosure (args.map fun n=>⟨n,none⟩) e env)
 | .localAssume a=>.whnf (.valAssumed a.appForm.head)

def evalRecLocalDecls (env:Env Closure) (decls:List (LocalDecl Resolved)) : Env Closure :=
 decls.map fun d=>((declHead d).getUnique,.localDecl env decls (declHead d).getUnique)

/-- Forcing a closure; of two declarations of one name the later one counts. -/
def poke : Closure → Poked Closure
 | .suspended e env=>.enter e env
 | .whnf val=>.whnf val
 | .localDecl env decls u=>
  match decls.reverse.find? fun d=>(declHead d).getUnique=u with
  | some d=>evalLocalDecl (evalRecLocalDecls env decls ++ env) d
  | none=>.blackhole (.var (.outOfScope u ⟨.normalName ""⟩))

structure Printer where
 prettyLayout : Value Closure → String
 prettyReference : Closure → String
 deriving Inhabited

def runtime (host:Host) (printer:Printer) : Runtime Closure Unit where
 allocateRecursive e env _ := (.suspended e env,())
 allocateValue val _ := (.whnf val,())
 evalRecLocalDecls env decls _ := (evalRecLocalDecls env decls,())
 readThunk
  | .whnf val, _=>some val
  | _, _=>none
 pokeThunk r _ := (poke r,())
 updateThunkToWHNF _ _ _ := ()
 unwindThunk _ _ := ()
 maximumFrameDepth:=none
 prettyLayout:=printer.prettyLayout
 prettyReference:=printer.prettyReference
 host:=host

end L4Ide.CallByName
