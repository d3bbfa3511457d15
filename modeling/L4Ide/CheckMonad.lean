set_option autoImplicit false

/-!
# The monad of the type checker

Computations with several results, each after the diagnostics that it reported, and the ways in
which the checker chooses among them.
-/
namespace L4Ide.CheckMonad

inductive Severity where
 | sWarn
 | sError
 | sInfo
 deriving DecidableEq

section Checks
variable (Info Warning Failure Context:Type)

/-- The kinds of diagnostics; those that are errors are told apart no further than the checker's
    choices do. -/
inductive CheckError where
 | internalAmbiguityError
 | failure (e:Failure)
 | checkInfo (i:Info)
 | checkWarning (w:Warning)

structure CheckErrorWithContext where
 kind : CheckError Info Warning Failure
 context : Context

variable {Info Warning Failure Context}

def severity (d:CheckErrorWithContext Info Warning Failure Context) : Severity :=
 match d.kind with
 | .checkInfo _=>.sInfo
 | .checkWarning _=>.sWarn
 | _=>.sError

end Checks

inductive With (D A:Type) where
 | with_ (d:D) (w:With D A)
 | plain (a:A)

section Results
variable {D A B S:Type}

def With.map (f:A → B) : With D A → With D B
 | .with_ d w=>.with_ d (w.map f)
 | .plain a=>.plain (f a)

def distributeWith : With D (List (With D A × S)) → List (With D A × S)
 | .plain xs=>xs
 | .with_ d w=>(distributeWith w).map fun r=>(.with_ d r.1,r.2)

end Results

/-- The part of the environment that diagnostics are reported in, and the rest of it. -/
structure CheckEnv (Context Rest:Type) where
 errorContext : Context
 rest : Rest

section Computations
variable {Info Warning Failure Context Rest S A B:Type}

abbrev Result (Info Warning Failure Context S A:Type) :=
 With (CheckErrorWithContext Info Warning Failure Context) A × S

def Check (Info Warning Failure Context Rest S A:Type) :=
 CheckEnv Context Rest → S → List (Result Info Warning Failure Context S A)

def viableCandidate : With (CheckErrorWithContext Info Warning Failure Context) A → Bool
 | .plain _=>true
 | .with_ d w=>severity d != .sError && viableCandidate w

variable (m m1 m2:Check Info Warning Failure Context Rest S A)

def runCheck (e:CheckEnv Context Rest) (s:S) :
  List (Result Info Warning Failure Context S A) := m e s

def Check.pure (a:A) : Check Info Warning Failure Context Rest S A := fun _ s=>[(.plain a,s)]

def Check.bind (f:A → Check Info Warning Failure Context Rest S B) :
  Check Info Warning Failure Context Rest S B := fun e s=>
 (runCheck m e s).flatMap fun r=>distributeWith (r.1.map fun a=>runCheck (f a) e r.2)

def Check.with (d:CheckErrorWithContext Info Warning Failure Context) :
  Check Info Warning Failure Context Rest S Unit := fun _ s=>[(.with_ d (.plain ()),s)]

def Check.empty : Check Info Warning Failure Context Rest S A := fun _ _=>[]

def Check.alt : Check Info Warning Failure Context Rest S A := fun e s=>
 runCheck m1 e s ++ runCheck m2 e s

def choose (ms:List (Check Info Warning Failure Context Rest S A)) :
  Check Info Warning Failure Context Rest S A := ms.foldr Check.alt Check.empty

def orElse : Check Info Warning Failure Context Rest S A := fun e s=>
 match (runCheck m1 e s).filter fun r=>viableCandidate r.1 with
 | []=>runCheck m2 e s
 | xs=>xs

section Prune
variable (ctx:Context)

def pruneViable (a:Result Info Warning Failure Context S A) :
  List (Result Info Warning Failure Context S A) →
   List (Result Info Warning Failure Context S A)
 | []=>[a]
 | c::cs=>
  if viableCandidate c.1 then
   if cs.all fun r=>viableCandidate r.1 then
    [(.with_ ⟨.internalAmbiguityError,ctx⟩ a.1,a.2)]
   else [(c::cs).getLast (List.cons_ne_nil c cs)]
  else pruneViable a cs

def pruneFailed (a:Result Info Warning Failure Context S A) :
  List (Result Info Warning Failure Context S A) →
   List (Result Info Warning Failure Context S A)
 | []=>[a]
 | c::cs=>if viableCandidate c.1 then pruneViable ctx c cs else pruneFailed c cs

end Prune

def prune : Check Info Warning Failure Context Rest S A := fun e s=>
 match runCheck m e s with
 | []=>[]
 | [a]=>[a]
 | a::cs=>
  if viableCandidate a.1 then pruneViable e.errorContext a cs
  else pruneFailed e.errorContext a cs

section Softprune
variable (candidates:List (Result Info Warning Failure Context S A))

def softpruneViable (a:Result Info Warning Failure Context S A) :
  List (Result Info Warning Failure Context S A) →
   List (Result Info Warning Failure Context S A)
 | []=>[a]
 | c::cs=>if viableCandidate c.1 then candidates else softpruneViable a cs

def softpruneFailed (a:Result Info Warning Failure Context S A) :
  List (Result Info Warning Failure Context S A) →
   List (Result Info Warning Failure Context S A)
 | []=>[a]
 | c::cs=>if viableCandidate c.1 then softpruneViable candidates c cs else softpruneFailed c cs

end Softprune

def softprune : Check Info Warning Failure Context Rest S A := fun e s=>
 match runCheck m e s with
 | []=>[]
 | [a]=>[a]
 | a::cs=>
  if viableCandidate a.1 then softpruneViable (a::cs) a cs else softpruneFailed (a::cs) a cs

/-- The fallback is left out where exactly one candidate is viable and no error came before. -/
def forkWithLazyFallback (preambleErr:Bool)
  (cands:List (Check Info Warning Failure Context Rest S A))
  (fallback:Check Info Warning Failure Context Rest S A)
  (kont:A → Check Info Warning Failure Context Rest S B) :
  Check Info Warning Failure Context Rest S B := fun e s=>
 let ks:=runCheck ((choose cands).bind kont) e s
 match ks.filter fun r=>viableCandidate r.1 with
 | [_]=>if preambleErr then ks ++ runCheck (fallback.bind kont) e s else ks
 | _=>ks ++ runCheck (fallback.bind kont) e s

end Computations

end L4Ide.CheckMonad
