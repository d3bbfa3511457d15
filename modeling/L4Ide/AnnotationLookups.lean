import Mathlib.Data.List.Sort
import L4Ide.TokenLexer
import Mathlib.Data.List.TakeDrop
import Mathlib.Logic.Relation

set_option autoImplicit false

/-!
# Taking annotations

The sentences a name takes are split off the pending ones in one pass; the references a node
takes are the front of the pending ones, which are kept in the order in which they end. What a
syntax tree does to the pending references it does by asking for those before one of its nodes.
-/
namespace L4Ide.AnnotationLookups
open TokenLexer

def posLe (p q:SrcPos) : Bool := p.line < q.line || p.line=q.line && p.column ≤ q.column

structure SrcSpan where
 start : SrcPos
 stop : SrcPos
 deriving DecidableEq

def fromSrcRange (r:SrcRange) : SrcSpan := ⟨r.start,r.stop⟩

def subRangeOf (s1 s2:SrcSpan) : Bool := posLe s2.start s1.start && posLe s1.stop s2.stop

structure WithSpan (A:Type) where
 range : SrcSpan
 payload : A
 deriving DecidableEq

inductive UpperBound where
 | endOfFile
 | endPos (p:SrcPos)

inductive LowerBound where
 | startOfFile
 | startPos (p:SrcPos)

structure LocRange where
 rangeFrom : LowerBound
 rangeTo : UpperBound

def maxBound : ℕ := 2 ^ 63-1

def upperBoundToSrcSpan : UpperBound → SrcPos
 | .endOfFile=>⟨maxBound,maxBound⟩
 | .endPos p=>p

def lowerBoundToSrcSpan : LowerBound → SrcPos
 | .startOfFile=>⟨1,1⟩
 | .startPos p=>p

section Nlg
variable {N:Type}

def within (locRange:LocRange) (nlg:WithSpan N) : Bool :=
 subRangeOf nlg.range ⟨lowerBoundToSrcSpan locRange.rangeFrom,upperBoundToSrcSpan locRange.rangeTo⟩

/-- `taken` and `declined` are newest first, and so is `before`, the ones out of range up to the
    last one in range; `skipped` are the ones out of range at the front of `shared`. -/
def splitLoop (inside p:WithSpan N → Bool) (taken declined before:List (WithSpan N))
  (skipped:ℕ) (shared:List (WithSpan N)) :
  List (WithSpan N) → List (WithSpan N) × List (WithSpan N)
 | []=>(taken.reverse,declined.reverse ++ (before.reverse ++ shared))
 | n::ns=>
  if inside n then
   let before' :=(shared.take skipped).reverse ++ before
   if p n then splitLoop inside p (n::taken) declined before' 0 ns ns
   else splitLoop inside p taken (n::declined) before' 0 ns ns
  else splitLoop inside p taken declined before (skipped+1) shared ns

def splitNlgsInRange (locRange:LocRange) (p:WithSpan N → Bool) (nlgs0:List (WithSpan N)) :
  List (WithSpan N) × List (WithSpan N) :=
 splitLoop (within locRange) p [] [] [] 0 nlgs0 nlgs0

structure NlgS (N R:Type) where
 nlgs : List (WithSpan N)
 rest : R

def takeNlgCommentsWhere {R:Type} (p:WithSpan N → Bool) (locRange:LocRange) (s:NlgS N R) :
  List (WithSpan N) × NlgS N R :=
 let (taken,rest):=splitNlgsInRange locRange p s.nlgs
 (taken,{ s with nlgs:=rest })

end Nlg

structure Ref where
 range : Option SrcRange
 text : String
 deriving DecidableEq

inductive RefWarning where
 | refMissingLocation (r:Ref)
 | refNotAttached (r:WithSpan Ref)
 | refAfterCode (r:WithSpan Ref) (code:Option String)

structure RefS where
 refs : List (WithSpan Ref)
 refWarnings : List RefWarning

structure Anno where
 range : Option SrcRange
 refs : List Ref

def addRefs (rs:List Ref) (a:Anno) : Anno := { a with refs:=a.refs ++ rs }

def refPrecedesNode (nodeRange:SrcSpan) (ref:WithSpan Ref) : Bool :=
 let nodeStart:=nodeRange.start
 let refEnd:=ref.range.stop
 refEnd.line < nodeStart.line ||
  refEnd.line=nodeStart.line && refEnd.column ≤ nodeStart.column

def takeMatchingRefs (nodeRange:SrcSpan) (s:RefS) : List (WithSpan Ref) × RefS :=
 let (found,rest):=s.refs.span (refPrecedesNode nodeRange)
 (found,{ s with refs:=rest })

def sortByStart (rs:List (WithSpan Ref)) : List (WithSpan Ref) :=
 rs.insertionSort fun r r' =>posLe r.range.start r'.range.start

def sortByEnd (rs:List (WithSpan Ref)) : List (WithSpan Ref) :=
 rs.insertionSort fun r r' =>posLe r.range.stop r'.range.stop

/-- Every pending reference before the node is held on its annotation, in source order. -/
def attachRef (node:Option SrcSpan) (ann:Anno) (s:RefS) : Anno × RefS :=
 match node with
 | none=>(ann,s)
 | some nodeRange=>
  let (found,s'):=takeMatchingRefs nodeRange s
  match sortByStart found with
  | []=>(ann,s')
  | r::rs=>(addRefs ((r::rs).map WithSpan.payload) ann,s')

/-- What a traversal of a syntax tree does: it attaches to one node after another. -/
inductive Visit (A:Type) where
 | done (a:A)
 | attach (node:Option SrcSpan) (ann:Anno) (next:Anno → Visit A)

namespace Visit
variable {A B:Type}

def bind : Visit A → (A → Visit B) → Visit B
 | .done a, f=>f a
 | .attach node ann next, f=>.attach node ann fun ann' =>(next ann').bind f

instance : Monad Visit where
 pure:=.done
 bind:=bind

def runState : Visit A → RefS → A × RefS
 | .done a, s=>(a,s)
 | .attach node ann next, s=>
  let (ann', s'):=attachRef node ann s
  (next ann').runState s'

/-- One node is attached to. -/
def step : Visit A × RefS → Option (Visit A × RefS)
 | (.done _,_)=>none
 | (.attach node ann next,s)=>
  let (ann', s'):=attachRef node ann s
  some (next ann', s')

end Visit

class HasRef (A:Type) where
 addRef : A → Visit A

open HasRef (addRef)

def attachTo (node:Option SrcSpan) (ann:Anno) : Visit Anno := .attach node ann .done

def preprocessRefs (refs:List Ref) : List (WithSpan Ref) × List Ref :=
 refs.foldl (fun (located,missing) ref=>
  match ref.range with
  | none=>(located,ref::missing)
  | some r=>(⟨fromSrcRange r,ref⟩::located,missing)) ([],[])

/-- The references behind code on their line, each by where it starts, with that code. -/
abbrev TrailingRefs := SrcPos → Option (Option String)

def initialRefS (trailing:TrailingRefs) (refs0:List Ref) : RefS where
 refs:=sortByEnd ((preprocessRefs refs0).1.filter fun r=>(trailing r.range.start).isNone)
 refWarnings:=[]

def addRefCommentsToAst {A:Type} [HasRef A] (trailing:TrailingRefs) (refs0:List Ref)
  (ast:A) : A × RefS :=
 let (withSpan,missing):=preprocessRefs refs0
 let (ast', s'):=(addRef ast).runState (initialRefS trailing refs0)
 let afterCode:=withSpan.filterMap fun r=>
  (trailing r.range.start).map fun code=>(r.range.start,RefWarning.refAfterCode r code)
 let leftovers:=s'.refs.map fun r=>(r.range.start,RefWarning.refNotAttached r)
 let placed:=((afterCode ++ leftovers).insertionSort fun a b=>posLe a.1 b.1).map Prod.snd
 (ast', { refs:=[],refWarnings:=missing.map .refMissingLocation ++ placed })

structure Name where
 ann : Anno
 raw : String

def spanOf (ann:Anno) : Option SrcSpan := ann.range.map fromSrcRange

instance : HasRef Name where
 addRef n := do
  let ann' ← attachTo (spanOf n.ann) n.ann
  return { n with ann:=ann' }

/-- A variable, an operator between two operands, a function or a mixfix keyword with its
    operands. -/
inductive Expr where
 | var (ann:Anno) (v:Name)
 | plus (ann:Anno) (e1 e2:Expr)
 | app (ann:Anno) (n:Name) (ns:List Expr)

def Expr.ann : Expr → Anno
 | .var ann _=>ann
 | .plus ann _ _=>ann
 | .app ann _ _=>ann

def Expr.span (e:Expr) : Option SrcSpan := spanOf e.ann

def operandStartsBefore (expr a:Option SrcSpan) : Bool :=
 match a, expr with
 | some sa, some se=>!posLe se.start sa.start
 | _, _=>false

mutual

def addRefExpr : Expr → Visit Expr
 | .var ann v=>do
  let ann' ← attachTo (spanOf ann) ann
  return .var ann' (← addRef v)
 | .plus ann e1 e2=>do
  let ann' ← attachTo (spanOf ann) ann
  let e1' ← addRefExpr e1
  let e2' ← addRefExpr e2
  return .plus ann' e1' e2'
 -- The operands that start before the keyword come first, and the call takes the references
 -- before the first of them.
 | .app ann n ns=>do
  let isLeft:=fun a : Expr=>operandStartsBefore (spanOf ann) a.span
  let annAbove ← match ns with
   | []=>pure ann
   | l::_=>if isLeft l then attachTo l.span ann else pure ann
  let left:=(ns.takeWhile isLeft).length
  let ns' :=addRefEach ns
  let leftOperands' ← (ns'.take left).mapM id
  let ann' ← attachTo (spanOf ann) annAbove
  let n' ← addRef n
  let rest' ← (ns'.drop left).mapM id
  return .app ann' n' (leftOperands' ++ rest')

def addRefEach : List Expr → List (Visit Expr)
 | []=>[]
 | e::es=>addRefExpr e::addRefEach es

end

instance : HasRef Expr where
 addRef:=addRefExpr

end L4Ide.AnnotationLookups

namespace L4Ide.AnnotationLookups
open TokenLexer Relation

section Nlg
variable {N:Type} (inside p:WithSpan N → Bool)

theorem splitLoop_eq (ns taken declined before front:List (WithSpan N)) :
  splitLoop inside p taken declined before front.length (front ++ ns) ns =
   (taken.reverse ++ ns.filter (fun n=>inside n && p n),
    declined.reverse ++ ns.filter (fun n=>inside n && !p n) ++
     (before.reverse ++ front ++ ns.filter fun n=>!inside n)) := by
 induction ns generalizing taken declined before front with
 | nil=>simp [splitLoop]
 | cons n ns ih=>
  have hfront:((front ++ n::ns).take front.length).reverse ++ before =
    front.reverse ++ before := by
   rw [List.take_left]
  rw [splitLoop,hfront]
  by_cases hin:inside n=true
  · by_cases hp:p n=true
    · have hrest:=ih (n::taken) declined (front.reverse ++ before) []
      simp only [List.length_nil,List.nil_append] at hrest
      simp [hin,hp,hrest]
    · have hrest:=ih taken (n::declined) (front.reverse ++ before) []
      simp only [List.length_nil,List.nil_append] at hrest
      simp [hin,hp,hrest]
  · have hrest:=ih taken declined before (front ++ [n])
    simp only [List.length_append,List.length_singleton,List.append_assoc,
     List.singleton_append] at hrest
    simp [hin,hrest]

theorem splitNlgsInRange_eq (locRange:LocRange) (nlgs:List (WithSpan N)) :
  splitNlgsInRange locRange p nlgs =
   (nlgs.filter (fun n=>within locRange n && p n),
    nlgs.filter (fun n=>within locRange n && !p n) ++
     nlgs.filter fun n=>!within locRange n) := by
 have h:=splitLoop_eq (within locRange) p nlgs [] [] [] []
 simpa [splitNlgsInRange] using h

theorem splitNlgsInRange_perm (locRange:LocRange) (nlgs:List (WithSpan N)) :
  ((splitNlgsInRange locRange p nlgs).1 ++ (splitNlgsInRange locRange p nlgs).2).Perm nlgs := by
 have hin:=List.filter_append_perm p (nlgs.filter fun n=>within locRange n)
 simp only [List.filter_filter] at hin
 rw [splitNlgsInRange_eq,←List.append_assoc]
 refine (List.Perm.append_right _ ?_).trans (List.filter_append_perm _ nlgs)
 refine (List.Perm.of_eq ?_).trans hin
 simp only [Bool.and_comm]

end Nlg

theorem posLe_total (p q:SrcPos) : posLe p q=true ∨ posLe q p=true := by
 simp only [posLe,Bool.or_eq_true,Bool.and_eq_true,decide_eq_true_eq]
 omega

theorem posLe_trans {p q r:SrcPos} (h:posLe p q=true) (h' : posLe q r=true) :
  posLe p r=true := by
 simp only [posLe,Bool.or_eq_true,Bool.and_eq_true,decide_eq_true_eq] at h h' ⊢
 omega

/-- In the order in which they end. -/
def Sorted (rs:List (WithSpan Ref)) : Prop :=
 rs.Pairwise fun r r' =>posLe r.range.stop r'.range.stop

theorem sorted_sortByEnd (rs:List (WithSpan Ref)) : Sorted (sortByEnd rs) := by
 have htotal:Std.Total fun r r' : WithSpan Ref=>posLe r.range.stop r'.range.stop=true:=
  ⟨fun r r' =>posLe_total r.range.stop r'.range.stop⟩
 have htrans:IsTrans (WithSpan Ref) fun r r' =>posLe r.range.stop r'.range.stop=true:=
  ⟨fun _ _ _=>posLe_trans⟩
 exact List.pairwise_insertionSort _ rs

/-- What one node removes is what comes before it. -/
def RemovesExactly (s:RefS) : Prop :=
 ∀ nodeRange, takeMatchingRefs nodeRange s =
  (s.refs.filter (refPrecedesNode nodeRange),
   { s with refs:=s.refs.filter fun r=>!refPrecedesNode nodeRange r })

theorem span_eq_filter {A:Type} {p:A → Bool} {l:List A}
  (h:l.Pairwise fun a b=>p b=true → p a=true) :
  l.span p=(l.filter p,l.filter fun a=>!p a) := by
 rw [List.span_eq_takeWhile_dropWhile]
 induction l with
 | nil=>rfl
 | cons a l ih=>
  obtain ⟨hfirst,hrest⟩:=List.pairwise_cons.1 h
  obtain ⟨htake,hdrop⟩:=Prod.mk.inj (ih hrest)
  by_cases ha:p a=true
  · simp [ha,htake,hdrop]
  · have hnone:∀ b ∈ l, ¬p b=true:=fun b hb hpb=>ha (hfirst b hb hpb)
    have hall:(l.filter fun b=>!p b)=l:=
     List.filter_eq_self.2 fun b hb=>by simp [hnone b hb]
    simp [ha,List.filter_eq_nil_iff.2 hnone,hall]

theorem Sorted.removesExactly {s:RefS} (h:Sorted s.refs) : RemovesExactly s := by
 intro nodeRange
 have hspan:s.refs.span (refPrecedesNode nodeRange)=_:=
  span_eq_filter (h.imp fun hab hb=>posLe_trans hab hb)
 rw [takeMatchingRefs,hspan]

theorem Sorted.takeMatchingRefs {s:RefS} (h:Sorted s.refs) (nodeRange:SrcSpan) :
  Sorted (takeMatchingRefs nodeRange s).2.refs := by
 rw [h.removesExactly nodeRange]
 exact h.filter _

theorem Sorted.attachRef {s:RefS} (h:Sorted s.refs) (node:Option SrcSpan) (ann:Anno) :
  Sorted (attachRef node ann s).2.refs := by
 cases node with
 | none=>exact h
 | some nodeRange=>
  have hrest:=h.takeMatchingRefs nodeRange
  unfold AnnotationLookups.attachRef
  dsimp only
  split <;> exact hrest

section Runs
variable {A:Type}

/-- A traversal and what is pending. -/
abbrev Config (A:Type) := Visit A × RefS

def Step (c c' : Config A) : Prop := Visit.step c=some c'

/-- What is pending somewhere on the way through a tree. -/
def Reachable [HasRef A] (trailing:TrailingRefs) (refs0:List Ref) (ast:A) (s:RefS) : Prop :=
 ∃ v, ReflTransGen Step (HasRef.addRef ast,initialRefS trailing refs0) (v,s)

theorem sorted_step {c c' : Config A} (h:Sorted c.2.refs) (hstep:Step c c') :
  Sorted c'.2.refs := by
 obtain ⟨v,s⟩:=c
 cases v with
 | done a=>cases hstep
 | attach node ann next=>
  obtain rfl:=Option.some.inj hstep
  exact Sorted.attachRef h node ann

theorem sorted_run {c c' : Config A} (h:Sorted c.2.refs) (hrun:ReflTransGen Step c c') :
  Sorted c'.2.refs := by
 induction hrun with
 | refl=>exact h
 | tail _ hstep ih=>exact sorted_step ih hstep

theorem Reachable.sorted [HasRef A] {trailing:TrailingRefs} {refs0:List Ref} {ast:A}
  {s:RefS} (h:Reachable trailing refs0 ast s) : Sorted s.refs := by
 obtain ⟨v,hrun⟩:=h
 exact sorted_run (sorted_sortByEnd _) hrun

end Runs

/-- The one pass over the sentences and the look at the front of the references find what a
    partition finds, the latter wherever a traversal asks. -/
theorem lookups_partition :
  (∀ {N:Type} (locRange:LocRange) (p:WithSpan N → Bool) (nlgs:List (WithSpan N)),
   splitNlgsInRange locRange p nlgs =
    (nlgs.filter (fun n=>within locRange n && p n),
     nlgs.filter (fun n=>within locRange n && !p n) ++
      nlgs.filter fun n=>!within locRange n) ∧
   ((splitNlgsInRange locRange p nlgs).1 ++ (splitNlgsInRange locRange p nlgs).2).Perm nlgs) ∧
  (∀ s : RefS, Sorted s.refs → RemovesExactly s) ∧
  ∀ {A:Type} [HasRef A] (trailing:TrailingRefs) (refs0:List Ref) (ast:A) (s:RefS),
   Reachable trailing refs0 ast s → Sorted s.refs ∧ RemovesExactly s :=
 ⟨fun locRange p nlgs=>⟨splitNlgsInRange_eq p locRange nlgs,splitNlgsInRange_perm p locRange nlgs⟩,
  fun _ h=>h.removesExactly,
  fun _ _ _ _ h=>⟨h.sorted,h.sorted.removesExactly⟩⟩

section Example

def onLine (line start stop:ℕ) : Option SrcRange :=
 some ⟨⟨line,start⟩,⟨line,stop⟩,stop-start,[]⟩

def above : Ref := ⟨onLine 1 1 9,"Art. 1"⟩

def inside : Ref := ⟨onLine 2 8 14,"Art. 2"⟩

/-- `a PLUS <<Art. 2>> b` under a line that cites `Art. 1`. -/
def cited : Expr :=
 .plus ⟨onLine 2 1 16,[]⟩ (.var ⟨onLine 2 1 2,[]⟩ ⟨⟨onLine 2 1 2,[]⟩,"a"⟩)
  (.var ⟨onLine 2 15 16,[]⟩ ⟨⟨onLine 2 15 16,[]⟩,"b"⟩)

theorem lookups_partition_cited :
  (addRefCommentsToAst (fun _=>none) [inside,above] cited).1.ann.refs=[above] ∧
  (initialRefS (fun _=>none) [inside,above]).refs.map WithSpan.payload=[above,inside] ∧
  RemovesExactly (initialRefS (fun _=>none) [inside,above]) :=
 ⟨by decide +kernel,by decide +kernel,
  (lookups_partition.2.2 (fun _=>none) [inside,above] cited _ ⟨_,.refl⟩).2⟩

end Example

end L4Ide.AnnotationLookups
