import Mathlib.Data.List.Basic
import L4Ide.OperatorChains

set_option autoImplicit false

/-!
# The trees of operator chains

The trees that chains of operators are grouped into: which of two operators stands below the other,
by layout and by precedence.
-/
namespace L4Ide.OperatorTrees
open OperatorChains

/-- Operands, with the lines where they start, under operators. -/
inductive Grouping (A:Type) where
 | operand (a:A) (line:Nat)
 | node (o:Operator A) (l r:Grouping A)

section Trees
variable {A:Type}

@[simp] def Grouping.eval : Grouping A → A
 | .operand a _=>a
 | .node o l r=>o.op l.eval r.eval

/-- The line where the leftmost operand starts. -/
@[simp] def Grouping.start : Grouping A → Nat
 | .operand _ line=>line
 | .node _ l _=>l.start

/-- The operands and the operators in order. -/
@[simp] def Grouping.reading : Grouping A → List ((A × Nat) ⊕ Operator A)
 | .operand a line=>[.inl (a,line)]
 | .node o l r=>l.reading ++ .inr o::r.reading

@[simp] def Grouping.operators : Grouping A → List (Operator A)
 | .operand _ _=>[]
 | .node o l r=>l.operators ++ o::r.operators

/-- The operators on the way down to the leftmost operand. -/
@[simp] def Grouping.leftSpine : Grouping A → List (Operator A)
 | .operand _ _=>[]
 | .node o l _=>o::l.leftSpine

/-- The operators on the way down to the rightmost operand, with the lines where their left
    operands start. -/
@[simp] def Grouping.rightSpine : Grouping A → List (Nat × Operator A)
 | .operand _ _=>[]
 | .node o l r=>(l.start,o)::r.rightSpine

/-- The test of the parser for an operator and one before it whose left operand starts on the
    given line. -/
def tighter (y:Operator A) (x:Nat × Operator A) : Bool :=
 stronger y.line y.pos y.prio y.assoc x.1 x.2.pos x.2.prio x.2.assoc

/-- Every operator has been tested against those that it came next to. -/
@[simp] def Grouping.Layered : Grouping A → Prop
 | .operand _ _=>True
 | .node o l r=>(∀ z ∈ l.rightSpine, tighter o z=false) ∧
   (∀ y ∈ r.leftSpine, tighter y (l.start,o)=true) ∧ l.Layered ∧ r.Layered

/-- The operators and operands of a chain in the order of the source. -/
@[simp] def chainReading : List (Cont A) → List ((A × Nat) ⊕ Operator A)
 | []=>[]
 | c::efs=>.inr c.toOperator :: .inl (c.arg,c.line)::chainReading efs

def grouped (c:Cont A) : Cont (Grouping A) where
 op:=.node c.toOperator
 prio:=c.prio
 assoc:=c.assoc
 line:=c.line
 pos:=c.pos
 arg:=.operand c.arg c.line

end Trees

/-! ### Runs -/

section Runs
variable {A:Type}

/-- The stack of these left operands and their operators, the topmost first. -/
@[simp] def waiting : List (Grouping A × Operator A) → Stack (Grouping A)
 | []=>.end_
 | (t,o)::g=>.frame (waiting g) t (.node o) o.prio o.assoc t.start o.pos

@[simp] def evaluated : List (Grouping A × Operator A) → Stack A
 | []=>.end_
 | (t,o)::g=>.frame (evaluated g) t.eval o.op o.prio o.assoc t.start o.pos

lemma combine_run {Q:List (Grouping A × Operator A) → Grouping A → List (Cont A) → Prop}
  (hpush:∀ g t c efs, (∀ x ∈ g.head?, tighter c.toOperator (x.1.start,x.2)=true) →
   Q g t (c::efs) → Q ((t,c.toOperator)::g) (.operand c.arg c.line) efs)
  (hpop:∀ g t o t2 efs, (∀ c ∈ efs.head?, tighter c.toOperator (t.start,o)=false) →
   Q ((t,o)::g) t2 efs → Q g (.node o t t2) efs)
  (g:List (Grouping A × Operator A)) (t:Grouping A) (efs:List (Cont A)) (h:Q g t efs) :
  Q [] (combine (waiting g) t.start t (efs.map grouped)) [] := by
 induction efs generalizing g t with
 | nil=>
  induction g generalizing t with
  | nil=>simpa using h
  | cons f g ih=>
   obtain ⟨t1,o⟩:=f
   have hnext:=ih (.node o t1 t) (hpop g t1 o t [] (by simp) h)
   simpa  using hnext
 | cons c efs ihc=>
  induction g generalizing t with
  | nil=>
   have hnext:=ihc _ _ (hpush [] t c efs (by simp) h)
   simpa [grouped] using hnext
  | cons f g ih=>
   obtain ⟨t1,o⟩:=f
   rcases htest : tighter c.toOperator (t1.start,o) with _ | _
   · have hnext:=ih (.node o t1 t)
      (hpop g t1 o t (c::efs) (by simpa using htest) h)
     simp only [tighter] at htest
     simpa [grouped,htest] using hnext
   · have hnext:=ihc _ _ (hpush ((t1,o)::g) t c efs (by simpa using htest) h)
     simp only [tighter] at htest
     simpa [grouped,htest] using hnext

lemma combine_eval (g:List (Grouping A × Operator A)) (t:Grouping A) (efs:List (Cont A)) :
  combine (evaluated g) t.start t.eval efs =
   (combine (waiting g) t.start t (efs.map grouped)).eval := by
 induction efs generalizing g t with
 | nil=>
  induction g generalizing t with
  | nil=>simp
  | cons f g ih=>
   have hnext:=ih (.node f.2 f.1 t)
   simpa [Grouping.eval] using hnext
 | cons c efs ihc=>
  induction g generalizing t with
  | nil=>
   have hnext:=ihc [(t,c.toOperator)] (.operand c.arg c.line)
   simpa [grouped] using hnext
  | cons f g ih=>
   obtain ⟨t1,o⟩:=f
   rcases htest : tighter c.toOperator (t1.start,o) with _ | _
   · have hnext:=ih (.node o t1 t)
     simp only [tighter] at htest
     simpa [grouped,htest] using hnext
   · have hnext:=ihc ((t,c.toOperator)::(t1,o)::g) (.operand c.arg c.line)
     simp only [tighter] at htest
     simpa [grouped,htest] using hnext

/-- The tree of a chain. -/
def chainTree (l:Nat) (e:A) (efs:List (Cont A)) : Grouping A :=
 combine .end_ l (.operand e l) (efs.map grouped)

@[simp] def readingOfStack : List (Grouping A × Operator A) → List ((A × Nat) ⊕ Operator A)
 | []=>[]
 | (t,o)::g=>readingOfStack g ++ (t.reading ++ [.inr o])

lemma chainTree_reading (l:Nat) (e:A) (efs:List (Cont A)) :
  (chainTree l e efs).reading = .inl (e,l)::chainReading efs := by
 have hrun:=combine_run
  (Q := fun g t rest=>readingOfStack g ++ (t.reading ++ chainReading rest) =
   .inl (e,l)::chainReading efs)
  (fun g t c efs _ h=>by simpa using h) (fun g t o t2 efs _ h=>by simpa using h)
  [] (.operand e l) efs (by simp)
 simpa [chainTree] using hrun

/-- The operators on the stack have been tested against each other, and the lowest ones of the
    given operators above them against the topmost. -/
@[simp] def Tested : List (Grouping A × Operator A) → List (Operator A) → Prop
 | [], _=>True
 | (t,o)::g, above=>(∀ y ∈ above, tighter y (t.start,o)=true) ∧ t.Layered ∧
   (∀ z ∈ t.rightSpine, tighter o z=false) ∧ Tested g (o::t.leftSpine)

lemma chainTree_layered (l:Nat) (e:A) (efs:List (Cont A)) :
  (chainTree l e efs).Layered := by
 have hrun:=combine_run
  (Q := fun g t rest=>Tested g t.leftSpine ∧ t.Layered ∧
   ∀ c ∈ rest.head?, ∀ z ∈ t.rightSpine, tighter c.toOperator z=false)
  (fun g t c efs hc h=>by
   refine ⟨⟨by simp,h.2.1,h.2.2 c (by simp), ?_⟩,by simp,by simp⟩
   cases g with
   | nil=>simp
   | cons f g=>
    obtain ⟨habove,hrest⟩:=h.1
    refine ⟨?_,hrest⟩
    intro y hy
    obtain rfl | hy:=List.mem_cons.mp hy
    · exact hc f (by simp)
    · exact habove y hy)
  (fun g t o t2 efs hc h=>by
   obtain ⟨⟨habove,ht,hspine,hrest⟩,ht2,hnext⟩:=h
   refine ⟨by simpa using hrest,⟨hspine,habove,ht,ht2⟩, ?_⟩
   intro c hcmem z hz
   obtain rfl | hz:=List.mem_cons.mp hz
   · exact hc c hcmem
   · exact hnext c hcmem z hz)
  [] (.operand e l) efs (by simp)
 exact hrun.2.1

end Runs

/-! ### Precedence -/

section Precedence
variable {A:Type}

lemma prioStronger_false {yp xp:Int} {ya xa:Assoc} :
  prioStronger yp ya xp xa=false ↔
   yp < xp ∨ yp=xp ∧ ya = .assocLeft ∧ xa = .assocLeft := by
 rcases Int.lt_trichotomy yp xp with h | h | h
 · simp [prioStronger,h,Int.not_lt.mpr (Int.le_of_lt h),Int.ne_of_lt h]
 · cases ya <;> cases xa <;> simp [prioStronger,h,assocStronger]
 · simp [prioStronger,h,Int.not_lt.mpr (Int.le_of_lt h),Int.ne_of_gt h]

lemma prioStronger_true {yp xp:Int} {ya xa:Assoc} :
  prioStronger yp ya xp xa=true ↔
   xp < yp ∨ xp=yp ∧ (xa = .assocRight ∨ ya = .assocRight) := by
 rcases Int.lt_trichotomy yp xp with h | h | h
 · simp [prioStronger,Int.not_lt.mpr (Int.le_of_lt h),Int.ne_of_lt h,Int.ne_of_gt h]
 · cases ya <;> cases xa <;> simp [prioStronger,h,assocStronger]
 · simp [prioStronger,h]

/-- Every operator is the loosest of its tree; to the left of it stand equals only if they group to
    the left, and to the right of it only if it, or one of them, groups to the right. -/
@[simp] def Grouping.ByPrecedence : Grouping A → Prop
 | .operand _ _=>True
 | .node o l r=>
  (∀ x ∈ l.operators,
   o.prio < x.prio ∨ o.prio=x.prio ∧ o.assoc = .assocLeft ∧ x.assoc = .assocLeft) ∧
  (∀ x ∈ r.operators, o.prio < x.prio ∨ o.prio=x.prio ∧
   (o.assoc = .assocRight ∨
    ∃ z ∈ r.operators, z.prio=o.prio ∧ z.assoc = .assocRight)) ∧
  l.ByPrecedence ∧ r.ByPrecedence

/-- The lines where the operands start. -/
@[simp] def Grouping.lines : Grouping A → List Nat
 | .operand _ line=>[line]
 | .node _ l r=>l.lines ++ r.lines

def Plain (t:Grouping A) : Prop :=
 ∀ y ∈ t.operators, ∀ x ∈ t.operators, ∀ line ∈ t.lines,
  tighter y (line,x)=prioStronger y.prio y.assoc x.prio x.assoc

variable {o:Operator A} {l r t:Grouping A}

lemma Plain.parts (h:Plain (.node o l r)) :
  Plain l ∧ Plain r := by
 refine ⟨fun y hy x hx line hline=>?_,fun y hy x hx line hline=>?_⟩
 · exact h y (by simp [hy]) x (by simp [hx]) line (by simp [hline])
 · exact h y (by simp [hy]) x (by simp [hx]) line (by simp [hline])

lemma start_mem (t:Grouping A) : t.start ∈ t.lines := by
 induction t with
 | operand a line=>simp
 | node o l r ihl ihr=>simp [ihl]

lemma rightSpine_mem {z:Nat × Operator A} (hz:z ∈ t.rightSpine) :
  z.1 ∈ t.lines ∧ z.2 ∈ t.operators := by
 induction t with
 | operand a line=>simp at hz
 | node o l r ihl ihr=>
  obtain rfl | hz:=List.mem_cons.mp hz
  · exact ⟨by simp [start_mem l],by simp⟩
  · exact ⟨by simp [(ihr hz).1],by simp [(ihr hz).2]⟩

lemma leftSpine_mem {y:Operator A} (hy:y ∈ t.leftSpine) :
  y ∈ t.operators := by
 induction t with
 | operand a line=>simp at hy
 | node o l r ihl ihr=>
  obtain rfl | hy:=List.mem_cons.mp hy
  · simp
  · simp [ihl hy]

lemma root_le (h:(Grouping.node o l r).ByPrecedence) :
  ∀ x ∈ (Grouping.node o l r).operators, o.prio ≤ x.prio := by
 obtain ⟨hl,hr,-,-⟩:=h
 intro x hx
 simp only [Grouping.operators,List.mem_append,List.mem_cons] at hx
 obtain hx | rfl | hx:=hx
 · have:=hl x hx
   omega
 · exact Int.le_refl _
 · have:=hr x hx
   omega

/-- An operator that every operator on the right spine beats is looser than the whole tree. -/
lemma looser_left (hlayered:l.Layered) (hprec:l.ByPrecedence) (hplain:Plain l)
  (hspine:∀ z ∈ l.rightSpine,
   prioStronger o.prio o.assoc z.2.prio z.2.assoc=false) :
  ∀ x ∈ l.operators,
   o.prio < x.prio ∨ o.prio=x.prio ∧ o.assoc = .assocLeft ∧ x.assoc = .assocLeft := by
 cases l with
 | operand a line=>simp
 | node w a b=>
  have hroot:o.prio < w.prio ∨
    o.prio=w.prio ∧ o.assoc = .assocLeft ∧ w.assoc = .assocLeft :=
   prioStronger_false.mp (hspine (a.start,w) (by simp))
  intro x hx
  have hle:=root_le hprec x hx
  simp only [Grouping.operators,List.mem_append,List.mem_cons] at hx
  obtain hx | rfl | hx:=hx
  · have hleft:=hprec.1 x hx
    grind
  · exact hroot
  · rcases hroot with hlt | ⟨heq,hoassoc,hwassoc⟩
    · left
      omega
    · rcases hprec.2.1 x hx with hlt | ⟨-,hright⟩
      · left
        omega
      · -- the root of the right subtree is an equal that groups to the right
        exfalso
        obtain hright | ⟨z,hz,hzprio,hzassoc⟩:=hright
        · simp [hwassoc] at hright
        · cases b with
          | operand a' line=>simp at hz
          | node u a' b' =>
           have hu:tighter u (a.start,w)=true:=hlayered.2.1 u (by simp)
           rw [hplain u (by simp) w (by simp) a.start (by simp [start_mem])] at hu
           have hle' :=root_le hprec.2.2.2 z hz
           have hou:=prioStronger_false.mp (hspine (a'.start,u) (by simp))
           have hwu:=prioStronger_true.mp hu
           grind

lemma looser_right (hprec:r.ByPrecedence)
  (hspine:∀ y ∈ r.leftSpine, prioStronger y.prio y.assoc o.prio o.assoc=true) :
  ∀ x ∈ r.operators, o.prio < x.prio ∨ o.prio=x.prio ∧
   (o.assoc = .assocRight ∨
    ∃ z ∈ r.operators, z.prio=o.prio ∧ z.assoc = .assocRight) := by
 cases r with
 | operand a line=>simp
 | node w a b=>
  have hroot:=prioStronger_true.mp (hspine w (by simp))
  intro x hx
  have hle:=root_le hprec x hx
  rcases hroot with hlt | ⟨heq,hassoc⟩
  · left
    omega
  · rcases Int.lt_or_eq_of_le (heq ▸ hle : o.prio ≤ x.prio) with hlt | hx
    · exact .inl hlt
    · exact .inr ⟨hx,hassoc.imp id fun hw=>⟨w,by simp,heq.symm,hw⟩⟩

lemma byPrecedence_of_layered (ht:t.Layered) (hplain:Plain t) :
  t.ByPrecedence := by
 induction t with
 | operand a line=>trivial
 | node o l r ihl ihr=>
  obtain ⟨hl,hr,hlayl,hlayr⟩:=ht
  have hprecl:=ihl hlayl hplain.parts.1
  have hprecr:=ihr hlayr hplain.parts.2
  refine ⟨looser_left hlayl hprecl hplain.parts.1 fun z hz=>?_,
   looser_right hprecr fun y hy=>?_,hprecl,hprecr⟩
  · have hmem:=rightSpine_mem hz
    rw [←hplain o (by simp) z.2 (by simp [hmem.2]) z.1 (by simp [hmem.1])]
    exact hl z hz
  · rw [←hplain y (by simp [leftSpine_mem hy]) o (by simp) l.start (by simp [start_mem])]
    exact hr y hy

/-- Equals group the same way. -/
def Uniform (ops:List (Operator A)) : Prop :=
 ∀ x ∈ ops, ∀ y ∈ ops, x.prio=y.prio → x.assoc=y.assoc

lemma mem_operators :
  o ∈ t.operators ↔ .inr o ∈ t.reading := by
 induction t with
 | operand a line=>simp
 | node w l r ihl ihr=>simp [ihl,ihr]

/-- Of two trees with the same reading, one cannot have at its root what stands to the right of the
    root of the other. -/
lemma no_conflict {o' : Operator A} {l' r' : Grouping A}
  (h:(Grouping.node o l r).ByPrecedence) (h' : (Grouping.node o' l' r').ByPrecedence)
  (huniform:Uniform (Grouping.node o l r).operators) (ho:o ∈ l'.operators)
  (ho' : o' ∈ r.operators) : False := by
 rcases h'.1 o ho with hlt | ⟨heq,-,hleft⟩
 · have:=h.2.1 o' ho'
   omega
 · rcases h.2.1 o' ho' with hlt | ⟨-,hright | ⟨z,hz,hzprio,hzassoc⟩⟩
   · omega
   · simp [hleft] at hright
   · have:=huniform z (by simp [hz]) o (by simp) hzprio
     simp [hleft,hzassoc] at this

lemma byPrecedence_unique {t' : Grouping A} (hread:t.reading=t'.reading)
  (ht:t.ByPrecedence) (ht' : t'.ByPrecedence) (huniform:Uniform t.operators) : t=t' := by
 induction t generalizing t' with
 | operand a line=>
  cases t' with
  | operand a' line' =>simpa using hread
  | node o' l' r' =>
   have hmem:Sum.inr o' ∈ (Grouping.operand a line).reading:=by
    rw [hread]
    simp
   simp at hmem
 | node o l r ihl ihr=>
  cases t' with
  | operand a' line' =>
   have hmem:Sum.inr o ∈ (Grouping.operand a' line').reading:=by
    rw [←hread]
    simp
   simp at hmem
  | node o' l' r' =>
   have huniform' : Uniform (Grouping.node o' l' r').operators:=by
    intro x hx y hy
    rw [mem_operators,←hread,←mem_operators] at hx hy
    exact huniform x hx y hy
   simp only [Grouping.reading] at hread
   obtain ⟨as,hl,hr⟩ | ⟨as,hl,hr⟩:=List.append_eq_append_iff.mp hread
   · cases as with
     | nil=>
      simp only [List.nil_append,List.cons.injEq,Sum.inr.injEq,List.append_nil] at hl hr
      have hl' :=ihl hl.symm ht.2.2.1 ht'.2.2.1 fun x hx y hy=>
       huniform x (by simp [hx]) y (by simp [hy])
      have hr' :=ihr hr.2 ht.2.2.2 ht'.2.2.2 fun x hx y hy=>
       huniform x (by simp [hx]) y (by simp [hy])
      rw [hl', hr', hr.1]
     | cons i as=>
      simp only [List.cons_append,List.cons.injEq] at hr
      exact (no_conflict ht ht' huniform (mem_operators.mpr (by simp [hl,←hr.1]))
       (mem_operators.mpr (by simp [hr.2]))).elim
   · cases as with
     | nil=>
      simp only [List.nil_append,List.cons.injEq,Sum.inr.injEq,List.append_nil] at hl hr
      have hl' :=ihl hl ht.2.2.1 ht'.2.2.1 fun x hx y hy=>
       huniform x (by simp [hx]) y (by simp [hy])
      have hr' :=ihr hr.2.symm ht.2.2.2 ht'.2.2.2 fun x hx y hy=>
       huniform x (by simp [hx]) y (by simp [hy])
      rw [hl', hr', hr.1]
     | cons i as=>
      simp only [List.cons_append,List.cons.injEq] at hr
      exact (no_conflict ht' ht huniform' (mem_operators.mpr (by simp [hl,←hr.1]))
       (mem_operators.mpr (by simp [hr.2]))).elim

end Precedence

/-! ### Neighbours -/

section Neighbours
variable {A:Type}

structure Neighbours (A:Type) where
 /-- The line where the left operand of the left one starts. -/
 line : Nat
 left : Operator A
 right : Operator A
 /-- The right one stands below the left one, and binds tighter than it. -/
 rightBelow : Bool

@[simp] def Grouping.firstOp : Grouping A → Option (Operator A)
 | .operand _ _=>none
 | .node o l _=>l.firstOp.or (some o)

@[simp] def Grouping.lastOp : Grouping A → Option (Nat × Operator A)
 | .operand _ _=>none
 | .node o l r=>r.lastOp.or (some (l.start,o))

@[simp] def Grouping.neighbours : Grouping A → List (Neighbours A)
 | .operand _ _=>[]
 | .node o l r=>
  l.neighbours ++ ((l.lastOp.map fun z=>⟨z.1,z.2,o,false⟩).toList ++
   ((r.firstOp.map fun y=>⟨l.start,o,y,true⟩).toList ++ r.neighbours))

lemma firstOp_eq (t:Grouping A) : t.firstOp=t.operators.head? := by
 induction t with
 | operand a line=>rfl
 | node o l r ihl ihr=>
  cases h:l.operators <;> simp [ihl,h]

lemma lastOp_eq (t:Grouping A) : t.lastOp.map Prod.snd=t.operators.getLast? := by
 induction t with
 | operand a line=>rfl
 | node o l r ihl ihr=>
  rw [Grouping.operators,List.getLast?_append,List.getLast?_cons,←ihr]
  cases h:r.lastOp <;> simp [h]

lemma zip_tail_append (xs:List (Operator A)) (o:Operator A) (ys:List (Operator A)) :
  (xs ++ o::ys).zip (xs ++ o::ys).tail =
   xs.zip xs.tail ++ ((xs.getLast?.map fun x=>(x,o)).toList ++
    ((ys.head?.map fun y=>(o,y)).toList ++ ys.zip ys.tail)) := by
 induction xs with
 | nil=>cases ys <;> simp
 | cons x xs ih=>
  cases xs with
  | nil=>simpa using ih
  | cons x' xs=>simpa [List.getLast?_cons_cons] using ih

lemma neighbours_pairs (t:Grouping A) :
  (t.neighbours.map fun n=>(n.left,n.right))=t.operators.zip t.operators.tail := by
 induction t with
 | operand a line=>rfl
 | node o l r ihl ihr=>
  rw [Grouping.operators,zip_tail_append,←ihl,←ihr,←lastOp_eq,←firstOp_eq]
  simp only [Grouping.neighbours]
  cases l.lastOp <;> cases r.firstOp <;> simp

variable {t:Grouping A}

lemma firstOp_mem {y:Operator A} (hy:t.firstOp=some y) :
  y ∈ t.leftSpine := by
 induction t with
 | operand a line=>simp at hy
 | node o l r ihl ihr=>
  cases hl:l.firstOp with
  | none=>simp_all
  | some y' =>
   simp only [Grouping.firstOp,hl,Option.some_or,Option.some.injEq] at hy
   simp [ihl (hl.trans (congrArg some hy))]

lemma lastOp_mem {z:Nat × Operator A} (hz:t.lastOp=some z) :
  z ∈ t.rightSpine := by
 induction t with
 | operand a line=>simp at hz
 | node o l r ihl ihr=>
  cases hr:r.lastOp with
  | none=>simp_all
  | some z' =>
   simp only [Grouping.lastOp,hr,Option.some_or,Option.some.injEq] at hz
   simp [ihr (hr.trans (congrArg some hz))]

lemma mem_neighbours {o:Operator A} {l r:Grouping A} {n:Neighbours A} :
  n ∈ (Grouping.node o l r).neighbours ↔ n ∈ l.neighbours ∨
   (∃ z, l.lastOp=some z ∧ ⟨z.1,z.2,o,false⟩=n) ∨
   (∃ y, r.firstOp=some y ∧ ⟨l.start,o,y,true⟩=n) ∨ n ∈ r.neighbours := by
 simp only [Grouping.neighbours,List.mem_append,Option.mem_toList,
  Option.map_eq_some_iff]

lemma neighbours_tested (ht:t.Layered) :
  ∀ n ∈ t.neighbours, n.rightBelow=tighter n.right (n.line,n.left) := by
 induction t with
 | operand a line=>simp
 | node o l r ihl ihr=>
  obtain ⟨hl,hr,hlayl,hlayr⟩:=ht
  intro n hn
  obtain hn | ⟨z,hz,rfl⟩ | ⟨y,hy,rfl⟩ | hn:=mem_neighbours.mp hn
  · exact ihl hlayl n hn
  · exact (hl z (lastOp_mem hz)).symm
  · exact (hr y (firstOp_mem hy)).symm
  · exact ihr hlayr n hn

lemma tighter_of_pos {y:Operator A} {x:Nat × Operator A} (hline:x.1 ≠ y.line) :
  (x.2.pos < y.pos → tighter y x=true) ∧ (y.pos < x.2.pos → tighter y x=false) := by
 refine ⟨fun h=>?_,fun h=>?_⟩
 · simp [tighter,stronger,hline,h]
 · simp [tighter,stronger,hline,Nat.not_lt.mpr (Nat.le_of_lt h),Nat.ne_of_lt h]

/-! Lines in the order of the source -/

@[simp] def lineOf : (A × Nat) ⊕ Operator A → Nat
 | .inl a=>a.2
 | .inr o=>o.line

lemma start_reading (t:Grouping A) : ∃ a, .inl (a,t.start) ∈ t.reading := by
 induction t with
 | operand a line=>exact ⟨a,by simp⟩
 | node o l r ihl ihr=>
  obtain ⟨a,ha⟩:=ihl
  exact ⟨a,by simp [ha]⟩

lemma rightSpine_line (ht:(t.reading.map lineOf).Pairwise (· ≤ ·)) :
  ∀ z ∈ t.rightSpine, z.1 ≤ z.2.line := by
 induction t with
 | operand a line=>simp
 | node o l r ihl ihr=>
  rw [Grouping.reading,List.map_append,List.map_cons,List.pairwise_append,
   List.pairwise_cons] at ht
  obtain ⟨-,⟨-,hr⟩,hl⟩:=ht
  intro z hz
  obtain rfl | hz:=List.mem_cons.mp hz
  · obtain ⟨a,ha⟩:=start_reading l
    exact hl _ (List.mem_map_of_mem ha) _ (by simp)
  · exact ihr hr z hz

/-- With the lines in order, the left operand of the left neighbour starts no later than it ends. -/
lemma neighbours_lines (ht:(t.reading.map lineOf).Pairwise (· ≤ ·)) :
  ∀ n ∈ t.neighbours, n.line ≤ n.left.line ∧ n.left.line ≤ n.right.line := by
 induction t with
 | operand a line=>simp
 | node o l r ihl ihr=>
  have hspine:=rightSpine_line ht
  rw [Grouping.reading,List.map_append,List.map_cons,List.pairwise_append,
   List.pairwise_cons] at ht
  obtain ⟨hl,⟨ho,hr⟩,hlo⟩:=ht
  intro n hn
  obtain hn | ⟨z,hz,rfl⟩ | ⟨y,hy,rfl⟩ | hn:=mem_neighbours.mp hn
  · exact ihl hl n hn
  · have hmem:=lastOp_mem hz
    exact ⟨rightSpine_line hl z hmem,hlo _ (List.mem_map_of_mem (f := lineOf)
     (mem_operators.mp (rightSpine_mem hmem).2)) _ (by simp)⟩
  · exact ⟨hspine (l.start,o) (by simp),ho _ (List.mem_map_of_mem (f := lineOf)
     (mem_operators.mp (leftSpine_mem (firstOp_mem hy))))⟩
  · exact ihr hr n hn

end Neighbours

/-! ### Chains -/

section Chains
variable {A:Type} {l:Nat} {e:A} {efs:List (Cont A)}

lemma operators_eq (t:Grouping A) : t.operators=t.reading.filterMap Sum.getRight? := by
 induction t with
 | operand a line=>simp
 | node o l r ihl ihr=>simp [ihl,ihr]

lemma lines_eq (t:Grouping A) :
  t.lines=(t.reading.filterMap Sum.getLeft?).map Prod.snd := by
 induction t with
 | operand a line=>simp
 | node o l r ihl ihr=>simp [ihl,ihr,List.filterMap_cons]

lemma chainTree_operators :
  (chainTree l e efs).operators=efs.map Cont.toOperator := by
 have hchain:(chainReading efs).filterMap Sum.getRight? = efs.map Cont.toOperator:=by
  induction efs with
  | nil=>rfl
  | cons c efs ih=>simp [ih,List.filterMap_cons]
 rw [operators_eq,chainTree_reading,List.filterMap_cons]
 simpa using hchain

lemma chainTree_lines : (chainTree l e efs).lines=l::efs.map fun c=>c.line := by
 have hchain:((chainReading efs).filterMap Sum.getLeft?).map Prod.snd =
   efs.map fun c=>c.line := by
  induction efs with
  | nil=>rfl
  | cons c efs ih=>simp [ih,List.filterMap_cons]
 rw [lines_eq,chainTree_reading,List.filterMap_cons]
 simpa using hchain

lemma chainTree_plain
  (h:(∀ c ∈ efs, c.line=l) ∨ ∃ p, ∀ c ∈ efs, c.pos=p) : Plain (chainTree l e efs) := by
 intro y hy x hx line hline
 rw [chainTree_operators,List.mem_map] at hy hx
 rw [chainTree_lines,List.mem_cons,List.mem_map] at hline
 obtain ⟨cy,hcy,rfl⟩:=hy
 obtain ⟨cx,hcx,rfl⟩:=hx
 obtain hl | ⟨p,hp⟩:=h
 · have hlined:line=l:=by
    obtain rfl | ⟨c,hc,rfl⟩:=hline
    · rfl
    · exact hl c hc
   simp [tighter,stronger,hlined,hl cy hcy]
 · simp [tighter,stronger,hp cx hcx,hp cy hcy]

lemma chainReading_lines (h:(l::efs.map fun c=>c.line).Pairwise (· ≤ ·)) :
  ((chainTree l e efs).reading.map lineOf).Pairwise (· ≤ ·) := by
 rw [chainTree_reading,List.map_cons]
 induction efs generalizing l e with
 | nil=>simp
 | cons c efs ih=>
  rw [List.map_cons,List.pairwise_cons] at h
  have hrest:=ih (l := c.line) (e := c.arg) h.2
  have hle:l ≤ c.line:=h.1 c.line (by simp)
  simp only [chainReading,List.map_cons,lineOf,List.pairwise_cons,List.mem_cons] at hrest ⊢
  refine ⟨fun i hi=>?_,fun i hi=>?_,hrest⟩
  · obtain rfl | rfl | hi:=hi
    · exact hle
    · exact hle
    · exact Nat.le_trans hle (hrest.1 i hi)
  · obtain rfl | hi:=hi
    · exact Nat.le_refl _
    · exact hrest.1 i hi

/-- The tree reads as the chain; it is the one of the precedences on one line or in one column; and
    of neighbours on different lines the one further right binds tighter. -/
theorem combine_grouped (l:Nat) (e:A) (efs:List (Cont A)) :
  combine .end_ l e efs=(chainTree l e efs).eval ∧
   (chainTree l e efs).reading = .inl (e,l)::chainReading efs ∧
   (((∀ c ∈ efs, c.line=l) ∨ ∃ p, ∀ c ∈ efs, c.pos=p) →
    (chainTree l e efs).ByPrecedence ∧
     (Uniform (efs.map Cont.toOperator) → ∀ t : Grouping A,
      t.reading = .inl (e,l)::chainReading efs → t.ByPrecedence →
       t=chainTree l e efs)) ∧
   (chainTree l e efs).neighbours.map (fun n=>(n.left,n.right)) =
    (efs.map Cont.toOperator).zip (efs.map Cont.toOperator).tail ∧
   (∀ n ∈ (chainTree l e efs).neighbours,
    n.line ≠ n.right.line ∨
     (l::efs.map fun c=>c.line).Pairwise (· ≤ ·) ∧ n.left.line ≠ n.right.line →
    (n.left.pos < n.right.pos → n.rightBelow=true) ∧
     (n.right.pos < n.left.pos → n.rightBelow=false)) := by
 have hlayered:=chainTree_layered l e efs
 refine ⟨?_,chainTree_reading l e efs,fun hplain=>?_, ?_,fun n hn hline=>?_⟩
 · simpa [chainTree] using combine_eval [] (.operand e l) efs
 · have hprec:=byPrecedence_of_layered hlayered (chainTree_plain (e := e) hplain)
   refine ⟨hprec,fun huniform t hread ht=>?_⟩
   have hreads:=chainTree_reading l e efs
   rw [←chainTree_operators (l := l) (e := e)] at huniform
   exact (byPrecedence_unique (hreads.trans hread.symm) hprec ht huniform).symm
 · rw [neighbours_pairs,chainTree_operators]
 · have hstart:n.line ≠ n.right.line:=by
    obtain hline | ⟨hsorted,hline⟩:=hline
    · exact hline
    · have hle:=neighbours_lines (chainReading_lines (e := e) hsorted) n hn
      omega
   rw [neighbours_tested hlayered n hn]
   exact tighter_of_pos (x := (n.line,n.left)) hstart

/-- A product and a sum on one line, after a first operand on the line above: the sum stands below
    the product. -/
theorem sum_below_product :
  let efs:List (Cont Int):=
   [⟨⟨(· * ·),7,.assocLeft,2,3⟩,3⟩,⟨⟨(· + ·),6,.assocLeft,2,7⟩,4⟩]
  (∀ c ∈ efs, c.line=2) ∧ combine .end_ 1 2 efs=2*(3+4) ∧
   ¬(chainTree 1 2 efs).ByPrecedence := by
 simp [chainTree,stronger,prioStronger,grouped]

end Chains

end L4Ide.OperatorTrees
