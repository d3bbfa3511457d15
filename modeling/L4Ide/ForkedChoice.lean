import Mathlib.Data.List.Basic
import L4Ide.CheckMonad

set_option autoImplicit false

/-!
# Forked choice with a lazy fallback

A fallback that always fails, left out where one candidate is viable, does not change what any of
the prunings keeps.
-/
namespace L4Ide.ForkedChoice
open CheckMonad

variable {Info Warning Failure Context Rest S A B:Type}

def viable (r:Result Info Warning Failure Context S A) : Bool := viableCandidate r.1

/-- Every outcome of the computation carries an error, whatever it starts from. -/
def Fails (m:Check Info Warning Failure Context Rest S A) : Prop :=
 ∀ e s, ∀ r ∈ runCheck m e s, viable r=false

section Failures

lemma not_viable_distributed {w:With (CheckErrorWithContext Info Warning Failure Context) A}
  (hw:viableCandidate w=false) (f:A → List (Result Info Warning Failure Context S B)) :
  ∀ r ∈ distributeWith (w.map f), viable r=false := by
 induction w with
 | plain a=>simp [viableCandidate] at hw
 | with_ d w ih=>
  intro r hr
  simp only [With.map,distributeWith,List.mem_map] at hr
  obtain ⟨r', hr', rfl⟩:=hr
  simp only [viable,viableCandidate,Bool.and_eq_false_iff] at hw ⊢
  exact hw.imp id fun hw=>ih hw r' hr'

variable {m:Check Info Warning Failure Context Rest S A}

lemma Fails.bind (hm:Fails m)
  (k:A → Check Info Warning Failure Context Rest S B) : Fails (m.bind k) := by
 intro e s r hr
 simp only [Check.bind,runCheck,List.mem_flatMap] at hr
 obtain ⟨r', hr', hr⟩:=hr
 exact not_viable_distributed (hm e s r' hr') _ r hr

lemma Fails.filter (hm:Fails m)
  (e:CheckEnv Context Rest) (s:S) : (runCheck m e s).filter viable=[] := by
 rw [List.filter_eq_nil_iff]
 intro r hr
 simp [hm e s r hr]

end Failures

lemma bind_alt (m1 m2:Check Info Warning Failure Context Rest S A)
  (k:A → Check Info Warning Failure Context Rest S B) (e:CheckEnv Context Rest) (s:S) :
  runCheck ((m1.alt m2).bind k) e s=runCheck (m1.bind k) e s ++ runCheck (m2.bind k) e s := by
 simp [runCheck,Check.bind,Check.alt]

section Kept
variable {m:Check Info Warning Failure Context Rest S A} {e:CheckEnv Context Rest} {s:S}
 {a:Result Info Warning Failure Context S A}

variable {cs:List (Result Info Warning Failure Context S A)}

lemma pruneViable_of_failures (ctx:Context) (a:Result Info Warning Failure Context S A)
  (hcs:cs.filter viable=[]) :
  pruneViable ctx a cs=[a] := by
 induction cs with
 | nil=>rfl
 | cons c cs ih=>
  rw [List.filter_eq_nil_iff] at hcs ih
  have hc:viableCandidate c.1=false:=by simpa [viable] using hcs c (by simp)
  have hrest:∀ r ∈ cs, ¬viable r=true:=fun r hr=>hcs r (by simp [hr])
  simp [pruneViable,hc,ih hrest]

lemma softpruneViable_of_failures (candidates:List (Result Info Warning Failure Context S A))
  (a:Result Info Warning Failure Context S A)
  (hcs:cs.filter viable=[]) :
  softpruneViable candidates a cs=[a] := by
 induction cs with
 | nil=>rfl
 | cons c cs ih=>
  rw [List.filter_eq_nil_iff] at hcs ih
  have hc:viableCandidate c.1=false:=by simpa [viable] using hcs c (by simp)
  have hrest:∀ r ∈ cs, ¬viable r=true:=fun r hr=>hcs r (by simp [hr])
  simp [softpruneViable,hc,ih hrest]

lemma filter_cons_singleton {c:Result Info Warning Failure Context S A}
  (h:(c::cs).filter viable=[a]) :
  viableCandidate c.1=true ∧ c=a ∧ cs.filter viable=[] ∨
   viableCandidate c.1=false ∧ cs.filter viable=[a] := by
 by_cases hc:viable c=true
 · rw [List.filter_cons_of_pos hc,List.cons.injEq] at h
   exact .inl ⟨hc,h⟩
 · rw [List.filter_cons_of_neg hc] at h
   exact .inr ⟨by simpa [viable] using hc,h⟩

lemma pruneFailed_of_one (ctx:Context) (c:Result Info Warning Failure Context S A)
  (h:cs.filter viable=[a]) :
  pruneFailed ctx c cs=[a] := by
 induction cs generalizing c with
 | nil=>simp at h
 | cons d cs ih=>
  obtain ⟨hd,rfl,hcs⟩ | ⟨hd,hcs⟩:=filter_cons_singleton h
  · simp [pruneFailed,hd,pruneViable_of_failures ctx d hcs]
  · simp [pruneFailed,hd,ih d hcs]

lemma softpruneFailed_of_one (candidates:List (Result Info Warning Failure Context S A))
  (c:Result Info Warning Failure Context S A)
  (h:cs.filter viable=[a]) :
  softpruneFailed candidates c cs=[a] := by
 induction cs generalizing c with
 | nil=>simp at h
 | cons d cs ih=>
  obtain ⟨hd,rfl,hcs⟩ | ⟨hd,hcs⟩:=filter_cons_singleton h
  · simp [softpruneFailed,hd,softpruneViable_of_failures candidates d hcs]
  · simp [softpruneFailed,hd,ih d hcs]

lemma prune_of_one (h:(runCheck m e s).filter viable=[a]) : runCheck (prune m) e s=[a] := by
 rcases hm : runCheck m e s with _ | ⟨c,_ | ⟨d,cs⟩⟩
 · simp [hm] at h
 · rw [hm] at h
   obtain ⟨-,rfl,-⟩ | ⟨-,hcs⟩:=filter_cons_singleton h
   · simp [prune,runCheck,show m e s=[c] from hm]
   · simp at hcs
 · rw [hm] at h
   have hrun:m e s=c::d::cs:=hm
   obtain ⟨hc,rfl,hcs⟩ | ⟨hc,hcs⟩:=filter_cons_singleton h
   · simp [prune,runCheck,hrun,hc,pruneViable_of_failures _ c hcs]
   · simp [prune,runCheck,hrun,hc,pruneFailed_of_one _ c hcs]

lemma softprune_of_one (h:(runCheck m e s).filter viable=[a]) :
  runCheck (softprune m) e s=[a] := by
 rcases hm : runCheck m e s with _ | ⟨c,_ | ⟨d,cs⟩⟩
 · simp [hm] at h
 · rw [hm] at h
   obtain ⟨-,rfl,-⟩ | ⟨-,hcs⟩:=filter_cons_singleton h
   · simp [softprune,runCheck,show m e s=[c] from hm]
   · simp at hcs
 · rw [hm] at h
   have hrun:m e s=c::d::cs:=hm
   obtain ⟨hc,rfl,hcs⟩ | ⟨hc,hcs⟩:=filter_cons_singleton h
   · simp [softprune,runCheck,hrun,hc,softpruneViable_of_failures _ c hcs]
   · simp [softprune,runCheck,hrun,hc,softpruneFailed_of_one _ c hcs]

lemma orElse_of_one (m2:Check Info Warning Failure Context Rest S A)
  (h:(runCheck m e s).filter viable=[a]) : runCheck (orElse m m2) e s=[a] := by
 have hrun:(runCheck m e s).filter (fun r=>viableCandidate r.1)=[a]:=h
 unfold orElse
 simp only [runCheck] at hrun ⊢
 rw [hrun]

end Kept

section Preamble

def reported (pre:List (CheckErrorWithContext Info Warning Failure Context))
  (m:Check Info Warning Failure Context Rest S A) :
  Check Info Warning Failure Context Rest S A :=
 pre.foldr (fun d m=>(Check.with d).bind fun _=>m) m

/-- The outcomes of a computation, each after the same diagnostics. -/
def after (pre:List (CheckErrorWithContext Info Warning Failure Context))
  (r:Result Info Warning Failure Context S A) : Result Info Warning Failure Context S A :=
 (pre.foldr With.with_ r.1,r.2)

lemma run_reported (pre:List (CheckErrorWithContext Info Warning Failure Context))
  (m:Check Info Warning Failure Context Rest S A) (e:CheckEnv Context Rest) (s:S) :
  runCheck (reported pre m) e s=(runCheck m e s).map (after pre) := by
 induction pre with
 | nil=>
  have hafter:(after [] : Result Info Warning Failure Context S A → _)=id:=rfl
  rw [hafter,List.map_id]
  rfl
 | cons d pre ih=>
  have hstep:runCheck (reported (d::pre) m) e s =
    (runCheck (reported pre m) e s).map fun r=>(.with_ d r.1,r.2) := by
   simp [reported,runCheck,Check.bind,Check.with,With.map,distributeWith]
  rw [hstep,ih,List.map_map]
  rfl

variable {pre:List (CheckErrorWithContext Info Warning Failure Context)}

lemma viable_after
  (hpre:∀ d ∈ pre, severity d ≠ .sError) (r:Result Info Warning Failure Context S A) :
  viable (after pre r)=viable r := by
 induction pre with
 | nil=>rfl
 | cons d pre ih=>
  have hd:severity d ≠ .sError:=hpre d (by simp)
  have hrest:viable (after pre r)=viable r:=ih fun d' hd' =>hpre d' (by simp [hd'])
  have hsev:(severity d != .sError)=true:=by simpa using hd
  simpa [viable,after,viableCandidate,hsev] using hrest

lemma filter_reported
  (hpre:∀ d ∈ pre, severity d ≠ .sError) (m:Check Info Warning Failure Context Rest S A)
  (e:CheckEnv Context Rest) (s:S) :
  (runCheck (reported pre m) e s).filter viable =
   ((runCheck m e s).filter viable).map (after pre) := by
 rw [run_reported,List.filter_map]
 congr 1
 exact List.filter_congr fun r _=>viable_after hpre r

end Preamble

section Lazy
variable (preambleErr:Bool) (cands:List (Check Info Warning Failure Context Rest S A))
 (fallback:Check Info Warning Failure Context Rest S A)
 (k:A → Check Info Warning Failure Context Rest S B)

/-- Either nothing is left out, or there is no error before and both have the same one viable
    outcome. -/
lemma fork_cases (hfallback:Fails fallback) (e:CheckEnv Context Rest) (s:S) :
  runCheck (forkWithLazyFallback preambleErr cands fallback k) e s =
    runCheck (((choose cands).alt fallback).bind k) e s ∨
   preambleErr=false ∧ ∃ a,
    (runCheck (forkWithLazyFallback preambleErr cands fallback k) e s).filter viable=[a] ∧
    (runCheck (((choose cands).alt fallback).bind k) e s).filter viable=[a] := by
 have hplain:=bind_alt (choose cands) fallback k e s
 have hnone:=(hfallback.bind k).filter e s
 rcases hks : (runCheck ((choose cands).bind k) e s).filter viable with _ | ⟨a,_ | ⟨b,rest⟩⟩
 · left
   rw [hplain]
   unfold viable at hks
   simp only [runCheck,forkWithLazyFallback] at hks ⊢
   rw [hks]
 · cases preambleErr with
   | true=>
    left
    rw [hplain]
    unfold viable at hks
    simp only [runCheck,forkWithLazyFallback] at hks ⊢
    simp [hks]
   | false=>
    right
    have hlazy:runCheck (forkWithLazyFallback false cands fallback k) e s =
      runCheck ((choose cands).bind k) e s := by
     unfold viable at hks
     simp only [runCheck,forkWithLazyFallback] at hks ⊢
     simp [hks]
    exact ⟨rfl,a,by rw [hlazy,hks],by rw [hplain,List.filter_append,hks,hnone]; rfl⟩
 · left
   rw [hplain]
   unfold viable at hks
   simp only [runCheck,forkWithLazyFallback] at hks ⊢
   rw [hks]

/-- After diagnostics without an error, or with the flag set for one, the prunings see no
    difference. -/
theorem forked_eq_chosen (pre:List (CheckErrorWithContext Info Warning Failure Context))
  (hpre:preambleErr=false → ∀ d ∈ pre, severity d ≠ .sError) (hfallback:Fails fallback)
  (e:CheckEnv Context Rest) (s:S) :
  let lazy:=reported pre (forkWithLazyFallback preambleErr cands fallback k)
  let plain:=reported pre (((choose cands).alt fallback).bind k)
  runCheck (softprune lazy) e s=runCheck (softprune plain) e s ∧
   runCheck (prune lazy) e s=runCheck (prune plain) e s ∧
   ∀ m2, runCheck (orElse lazy m2) e s=runCheck (orElse plain m2) e s := by
 intro lazy plain
 obtain hsame | ⟨herr,a,hlazy,hplain⟩:=fork_cases preambleErr cands fallback k hfallback e s
 · have hrun:runCheck lazy e s=runCheck plain e s:=by
    rw [run_reported,run_reported,hsame]
   simp only [runCheck] at hrun
   refine ⟨?_, ?_,fun m2=>?_⟩
   · simp only [softprune,runCheck,hrun]
   · simp only [prune,runCheck,hrun]
   · simp only [orElse,runCheck,hrun]
 · have hone:(runCheck lazy e s).filter viable=[after pre a]:=by
    rw [filter_reported (hpre herr),hlazy,List.map_singleton]
   have hone' : (runCheck plain e s).filter viable=[after pre a]:=by
    rw [filter_reported (hpre herr),hplain,List.map_singleton]
   exact ⟨(softprune_of_one hone).trans (softprune_of_one hone').symm,
    (prune_of_one hone).trans (prune_of_one hone').symm,
    fun m2=>(orElse_of_one m2 hone).trans (orElse_of_one m2 hone').symm⟩

end Lazy

/-- Two candidates of which one fails, and a fallback that reports an error and goes on. -/
theorem forked_eq_chosen_pair :
  let report:CheckErrorWithContext Unit Unit Unit Unit:=⟨.failure (),()⟩
  let bad:Check Unit Unit Unit Unit Unit Nat Nat:=(Check.with report).bind fun _=>.pure 1
  let good:Check Unit Unit Unit Unit Unit Nat Nat:=.pure 0
  let lazy:=reported [⟨.checkWarning (),()⟩]
   (forkWithLazyFallback false [bad,good] bad fun n=>.pure (n+1))
  let plain:=reported [⟨.checkWarning (),()⟩]
   (((choose [bad,good]).alt bad).bind fun n=>.pure (n+1))
  runCheck (softprune lazy) ⟨(),()⟩ 7=runCheck (softprune plain) ⟨(),()⟩ 7 ∧
   runCheck (prune lazy) ⟨(),()⟩ 7=runCheck (prune plain) ⟨(),()⟩ 7 ∧
   ∀ m2, runCheck (orElse lazy m2) ⟨(),()⟩ 7=runCheck (orElse plain m2) ⟨(),()⟩ 7 :=
 forked_eq_chosen false _ _ _ [⟨.checkWarning (),()⟩] (fun _ d hd=>by simp_all [severity])
  (fun e s r hr=>by
   obtain rfl : r=(.with_ ⟨.failure (),()⟩ (.plain 1),s):=List.mem_singleton.mp hr
   rfl) ⟨(),()⟩ 7

end L4Ide.ForkedChoice
