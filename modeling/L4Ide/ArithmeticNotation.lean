import Mathlib.Algebra.Field.Rat
import Mathlib.Tactic.Ring
import Mathlib.Tactic.FieldSimp

set_option autoImplicit false

/-!
# Arithmetic notation

Formulas over any leaves, and how a row of marks is read as one: brackets first,
a percent sign belongs to the term just before it, times, divided and mod bind
tighter than plus and minus, and equal levels go from left to right.
-/
namespace L4Ide.ArithmeticNotation

inductive Sign where
 | plus
 | minus
 | times
 | dividedBy
 | modulo
 deriving DecidableEq, Repr

def Sign.tight : Sign → Bool
 | .plus | .minus=>false
 | .times | .dividedBy | .modulo=>true

/-- The value of a sign between two numbers: nothing is divided by zero, and mod
    is between whole numbers, rounding down. -/
def Sign.run : Sign → ℚ → ℚ → Option ℚ
 | .plus, x, y=>some (x+y)
 | .minus, x, y=>some (x-y)
 | .times, x, y=>some (x*y)
 | .dividedBy, x, y=>if y ≠ 0 then some (x / y) else none
 | .modulo, x, y=>
  if x.den=1 ∧ y.den=1 ∧ y.num ≠ 0 then some (x.num.fmod y.num : ℤ) else none

inductive Formula (α:Type) where
 | leaf (a:α)
 | sign (s:Sign) (f g:Formula α)
 | percent (f:Formula α)
 deriving DecidableEq, Repr

namespace Formula
variable {α:Type}

def value (v:α → Option ℚ) : Formula α → Option ℚ
 | .leaf a=>v a
 | .sign s f g=>(f.value v).bind fun x=>(g.value v).bind fun y=>s.run x y
 | .percent f=>(f.value v).map (· / 100)

def Same (f g:Formula α) : Prop := ∀ v, f.value v=g.value v

variable {f f': Formula α} {s:Sign}

theorem Same.sign {g g': Formula α} (s:Sign) (hf:f.Same f') (hg:g.Same g') :
  (Formula.sign s f g).Same (.sign s f' g') := by
 intro v
 simp only [value,hf v,hg v]

theorem Same.percent (hf:f.Same f') :
  (Formula.percent f).Same (.percent f') := by
 intro v
 simp only [value,hf v]

theorem Same.trans {f g h:Formula α} (hfg:f.Same g) (hgh:g.Same h) : f.Same h :=
 fun v=>(hfg v).trans (hgh v)

theorem same_plus (f g w:Formula α) (hs:s.tight=false) :
  (Formula.sign s (.sign .plus f g) w).Same (.sign .plus f (.sign s g w)) := by
 intro v
 simp only [value]
 cases f.value v with
 | none=>rfl
 | some x=>
  cases g.value v with
  | none=>rfl
  | some y=>
   cases w.value v with
   | none=>rfl
   | some z=>
    cases s with
    | plus=>exact congrArg some (add_assoc x y z)
    | minus=>exact congrArg some (add_sub_assoc x y z)
    | times=>cases hs
    | dividedBy=>cases hs
    | modulo=>cases hs

theorem same_times (f g w:Formula α) (hs:s.tight=true) (hm:s ≠ .modulo) :
  (Formula.sign s (.sign .times f g) w).Same (.sign .times f (.sign s g w)) := by
 intro v
 simp only [value]
 cases f.value v with
 | none=>rfl
 | some x=>
  cases g.value v with
  | none=>rfl
  | some y=>
   cases w.value v with
   | none=>rfl
   | some z=>
    cases s with
    | plus=>cases hs
    | minus=>cases hs
    | times=>exact congrArg some (mul_assoc x y z)
    | dividedBy=>
     simp only [Option.bind_some,Sign.run]
     by_cases hz:z=0
     · simp [hz]
     · simp [hz,mul_div_assoc]
    | modulo=>exact absurd rfl hm

end Formula

inductive Mark (α:Type) where
 | leaf (a:α)
 | sign (s:Sign)
 | percent
 | opening
 | closing
 deriving DecidableEq, Repr

structure Frame (α:Type) where
 sum : Option (Formula α × Sign)
 product : Option (Formula α × Sign)

structure Reading (α:Type) where
 outer : List (Frame α)
 frame : Frame α
 term : Option (Formula α)

section Reader
variable {α:Type}

def joined : Option (Formula α × Sign) → Formula α → Formula α
 | none, f=>f
 | some (g,s), f=>.sign s g f

def Frame.close (fr:Frame α) (f:Formula α) : Formula α :=
 joined fr.sum (joined fr.product f)

def Frame.fresh : Frame α := ⟨none,none⟩

def Reading.start : Reading α := ⟨[],.fresh,none⟩

def Reading.step (r:Reading α) : Mark α → Option (Reading α)
 | .leaf a=>if r.term.isNone then some { r with term:=some (.leaf a) } else none
 | .percent=>r.term.map fun f=>{ r with term:=some (.percent f) }
 | .sign s=>r.term.map fun f=>
  if s.tight then
   { r with frame:=⟨r.frame.sum,some (joined r.frame.product f,s)⟩,term:=none }
  else { r with frame:=⟨some (r.frame.close f,s),none⟩,term:=none }
 | .opening=>if r.term.isNone then some ⟨r.frame::r.outer,.fresh,none⟩ else none
 | .closing=>
  match r.term, r.outer with
  | some f, fr::outer=>some ⟨outer,fr,some (r.frame.close f)⟩
  | _, _=>none

def Reading.run (r:Reading α) (ms:List (Mark α)) : Option (Reading α) :=
 ms.foldlM Reading.step r

def Reading.finish (r:Reading α) : Option (Formula α) :=
 if r.outer.isEmpty then r.term.map r.frame.close else none

def read (ms:List (Mark α)) : Option (Formula α) :=
 (Reading.start.run ms).bind Reading.finish

theorem Reading.run_append (r:Reading α) (ms ns:List (Mark α)) :
  r.run (ms ++ ns)=(r.run ms).bind fun r' =>r'.run ns := by
 simp [Reading.run,List.foldlM_append]

theorem Reading.run_cons (r:Reading α) (m:Mark α) (ms:List (Mark α)) :
  r.run (m::ms)=(r.step m).bind fun r' =>r'.run ms := by
 simp [Reading.run]

@[simp] theorem Reading.run_nil (r:Reading α) : r.run []=some r := rfl

end Reader

inductive Level where
 | term
 | product (mod:Bool)
 | sum
 deriving DecidableEq, Repr

inductive Phrase {α:Type} : Level → List (Mark α) → Formula α → Prop where
 | leaf (a:α) : Phrase .term [.leaf a] (.leaf a)
 | percent {ms:List (Mark α)} {f:Formula α} (h:Phrase .term ms f) :
   Phrase .term (ms ++ [.percent]) (.percent f)
 | bracketed {ms:List (Mark α)} {f:Formula α} (h:Phrase .sum ms f) :
   Phrase .term (.opening::(ms ++ [.closing])) f
 | factor {ms:List (Mark α)} {f:Formula α} (m:Bool) (h:Phrase .term ms f) :
   Phrase (.product m) ms f
 | times {ms ns:List (Mark α)} {f g:Formula α} {m:Bool} (s:Sign) (hs:s.tight=true)
   (hm:decide (s = .modulo)=m) (hf:Phrase (.product m) ms f) (hg:Phrase .term ns g) :
   Phrase (.product m) (ms ++ .sign s::ns) (.sign s f g)
 | summand {ms:List (Mark α)} {f:Formula α} {m:Bool} (h:Phrase (.product m) ms f) :
   Phrase .sum ms f
 | plus {ms ns:List (Mark α)} {f g:Formula α} {m:Bool} (s:Sign) (hs:s.tight=false)
   (hf:Phrase .sum ms f) (hg:Phrase (.product m) ns g) :
   Phrase .sum (ms ++ .sign s::ns) (.sign s f g)

section Phrases
variable {α:Type}

def Level.Open : Level → Reading α → Prop
 | .term, r=>r.term=none
 | .product _, r=>r.term=none ∧ r.frame.product=none
 | .sum, r=>r.term=none ∧ r.frame = .fresh

def Level.Left : Level → Reading α → Formula α → Reading α → Prop
 | .term, r, f, r' =>r' = { r with term:=some f }
 | .product _, r, f, r' =>r'.outer=r.outer ∧ r'.frame.sum=r.frame.sum ∧
   ∃ t, r'.term=some t ∧ joined r'.frame.product t=f
 | .sum, r, f, r' =>r'.outer=r.outer ∧ ∃ t, r'.term=some t ∧ r'.frame.close t=f

variable {l:Level} {ms ns:List (Mark α)} {f g:Formula α}

theorem run_phrase (h:Phrase l ms f) :
  ∀ r : Reading α, l.Open r → ∃ r', r.run ms=some r' ∧ l.Left r f r' := by
 induction h with
 | leaf a=>
  intro r hr
  have hterm:r.term=none:=hr
  exact ⟨{ r with term:=some (.leaf a) },by simp [Reading.run_cons,Reading.step,hterm],rfl⟩
 | @percent ms f _ ih=>
  intro r hr
  obtain ⟨r', hrun,hleft⟩:=ih r hr
  have hr' : r' = { r with term:=some f }:=hleft
  subst hr'
  refine ⟨{ r with term:=some (.percent f) }, ?_,rfl⟩
  rw [Reading.run_append,hrun,Option.bind_some,Reading.run_cons]
  rfl
 | @bracketed ms f _ ih=>
  intro r hr
  have hterm:r.term=none:=hr
  obtain ⟨r', hrun,houter,t,ht,hclose⟩:=ih ⟨r.frame::r.outer,.fresh,none⟩ ⟨rfl,rfl⟩
  refine ⟨{ r with term:=some f }, ?_,rfl⟩
  have hopen:r.step .opening=some ⟨r.frame::r.outer,.fresh,none⟩:=by
   simp [Reading.step,hterm]
  have hend:r'.step .closing=some { r with term:=some f }:=by
   simp only at houter
   simp [Reading.step,ht,houter,hclose]
  rw [Reading.run_cons,hopen,Option.bind_some,Reading.run_append,hrun,Option.bind_some,
   Reading.run_cons,hend]
  rfl
 | factor m _ ih=>
  intro r hr
  obtain ⟨hterm,hproduct⟩:=hr
  obtain ⟨r', hrun,hleft⟩:=ih r hterm
  have hr' : r' = _:=hleft
  subst hr'
  exact ⟨_,hrun,rfl,rfl,_,rfl,by simp [hproduct,joined]⟩
 | @times ms ns f g m s hs _ _ _ ihf ihg=>
  intro r hr
  obtain ⟨r₁,hrun₁,houter,hsum,t,ht,hjoined⟩:=ihf r hr
  have hstep:r₁.step (.sign s) =
    some { r₁ with frame:=⟨r₁.frame.sum,some (f,s)⟩,term:=none } := by
   simp [Reading.step,ht,hs,hjoined]
  obtain ⟨r₂,hrun₂,hleft⟩:=
   ihg { r₁ with frame:=⟨r₁.frame.sum,some (f,s)⟩,term:=none } rfl
  have hr₂:r₂=_:=hleft
  subst hr₂
  refine ⟨⟨r₁.outer,⟨r₁.frame.sum,some (f,s)⟩,some g⟩, ?_,houter,hsum,g,rfl,rfl⟩
  rw [Reading.run_append,hrun₁,Option.bind_some,Reading.run_cons,hstep,Option.bind_some]
  exact hrun₂
 | summand _ ih=>
  intro r hr
  obtain ⟨hterm,hframe⟩:=hr
  obtain ⟨r', hrun,houter,hsum,t,ht,hjoined⟩:=ih r ⟨hterm,by simp [hframe,Frame.fresh]⟩
  refine ⟨r', hrun,houter,t,ht, ?_⟩
  rw [Frame.close,hsum,hframe,hjoined]
  rfl
 | @plus ms ns f g m s hs _ _ ihf ihg=>
  intro r hr
  obtain ⟨r₁,hrun₁,houter,t,ht,hclose⟩:=ihf r hr
  have hstep:r₁.step (.sign s) =
    some { r₁ with frame:=⟨some (f,s),none⟩,term:=none } := by
   simp [Reading.step,ht,hs,hclose]
  obtain ⟨r₂,hrun₂,houter₂,hsum₂,u,hu,hjoined⟩:=
   ihg { r₁ with frame:=⟨some (f,s),none⟩,term:=none } ⟨rfl,rfl⟩
  refine ⟨r₂, ?_,houter₂.trans houter,u,hu, ?_⟩
  · rw [Reading.run_append,hrun₁,Option.bind_some,Reading.run_cons,hstep,Option.bind_some]
    exact hrun₂
  · rw [Frame.close,hsum₂,hjoined]
    rfl

theorem read_phrase (h:Phrase .sum ms f) :
  read ms=some f := by
 obtain ⟨r', hrun,houter,t,ht,hclose⟩:=run_phrase h .start ⟨rfl,rfl⟩
 have hempty:r'.outer=[]:=houter
 rw [read,hrun,Option.bind_some,Reading.finish,hempty,ht]
 simp [hclose]

theorem Phrase.sum (h:Phrase l ms f) :
  Phrase .sum ms f := by
 cases l with
 | term=>exact .summand (.factor false h)
 | product m=>exact .summand h
 | sum=>exact h

theorem plus_sum (hf:Phrase .sum ms f)
  (hg:Phrase .sum ns g) :
  ∃ h, Phrase .sum (ms ++ .sign .plus::ns) h ∧ h.Same (.sign .plus f g) := by
 generalize hl:Level.sum=l at hg
 induction hg with
 | leaf a=>cases hl
 | percent _ _=>cases hl
 | bracketed _ _=>cases hl
 | factor _ _ _=>cases hl
 | times _ _ _ _ _ _ _=>cases hl
 | summand hg _=>exact ⟨_,.plus .plus rfl hf hg,fun v=>rfl⟩
 | @plus ns₁ ns₂ g₁ g₂ m s hs _ hg₂ ih _=>
  obtain ⟨h,hh,hsame⟩:=ih rfl
  refine ⟨.sign s h g₂, ?_, ?_⟩
  · have:=Phrase.plus s hs hh hg₂
    simpa using this
  · exact (Formula.Same.sign s hsame fun v=>rfl).trans (Formula.same_plus f g₁ g₂ hs)

theorem times_product
  (hf:Phrase (.product false) ms f) (hg:Phrase (.product false) ns g) :
  ∃ h, Phrase (.product false) (ms ++ .sign .times::ns) h ∧ h.Same (.sign .times f g) := by
 generalize hl:Level.product false=l at hg
 induction hg with
 | leaf a=>cases hl
 | percent _ _=>cases hl
 | bracketed _ _=>cases hl
 | factor m hg _=>
  cases hl
  exact ⟨_,.times .times rfl rfl hf hg,fun v=>rfl⟩
 | @times ns₁ ns₂ g₁ g₂ m s hs hm _ hg₂ ih _=>
  cases hl
  obtain ⟨h,hh,hsame⟩:=ih rfl
  refine ⟨.sign s h g₂, ?_, ?_⟩
  · have:=Phrase.times s hs hm hh hg₂
    simpa using this
  · exact (Formula.Same.sign s hsame fun v=>rfl).trans
     (Formula.same_times f g₁ g₂ hs (by simpa using hm))
 | summand _ _=>cases hl
 | plus _ _ _ _ _ _=>cases hl

end Phrases

end L4Ide.ArithmeticNotation
