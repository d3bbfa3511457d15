import L4Ide.Ladder
import Mathlib.Tactic.Ring

set_option autoImplicit false

/-!
# The atoms of a ladder

The boxes that the planner asks about, with the expression that each is drawn of, and when two
of them have one number.
-/
namespace L4Ide.LadderAtoms
open Syntax Environment Transform Ladder

mutual

/-- The names of the boxes that stand for a variable or an expression. -/
@[simp]
def leaves : IRExpr → List VName
 | .and_ _ xs | .or_ _ xs=>leavesEach xs
 | .not_ _ x=>leaves x
 | .uBoolVar _ nm=>[nm]
 | .app _ nm xs=>nm::leavesEach xs
 | .trueE _ _ | .falseE _ _ | .inertE _ _ _=>[]

@[simp]
def leavesEach : List IRExpr → List VName
 | []=>[]
 | x::xs=>leaves x ++ leavesEach xs

end

section Sources
variable (dr:Drawer)

def isVariable : RExpr → Bool
 | .app r [] _=>r.getUnique ≠ trueUnique ∧ r.getUnique ≠ falseUnique
 | _=>false

def isName : RExpr → Bool
 | .app _ [] _=>true
 | _=>false

mutual

/-- The expressions that the boxes stand for. -/
@[simp]
def sources : RExpr → List RExpr
 | .not e=>sources e
 | .and e1 e2 | .or e1 e2=>sources e1 ++ sources e2
 | .where_ e _=>sources e
 | .inert _ _=>[]
 | .app r [] ty=>if isVariable (.app r [] ty) then [.app r [] ty] else []
 | .app r (a::args) ty=>
  .app r (a::args) ty ::
   if (Expr.app r (a::args) ty::a::args).all dr.hasBooleanType then
    sources a ++ sourcesEach args
   else []
 | e=>[e]

@[simp]
def sourcesEach : List RExpr → List RExpr
 | []=>[]
 | e::es=>sources e ++ sourcesEach es

end

inductive Connective where
 | conjunction
 | disjunction
 deriving DecidableEq

mutual

/-- How many numbers an expression takes; within a connective of its own kind it draws no box. -/
@[simp]
def numbers (c:Option Connective) : RExpr → ℕ
 | .not e=>1+numbers none e
 | .and e1 e2=>(if c=some .conjunction then 0 else 1) +
   numbers (some .conjunction) e1+numbers (some .conjunction) e2
 | .or e1 e2=>(if c=some .disjunction then 0 else 1) +
   numbers (some .disjunction) e1+numbers (some .disjunction) e2
 | .where_ e _=>numbers none e
 | .inert _ _=>1
 | .app _ [] _=>1
 | .app r (a::args) ty=>
  if (Expr.app r (a::args) ty::a::args).all dr.hasBooleanType then
   1+numbers none a+numbersEach args
  else 2
 | _=>2

@[simp]
def numbersEach : List RExpr → ℕ
 | []=>0
 | e::es=>numbers none e+numbersEach es

end

mutual

/-- The numbers that the boxes of expressions other than variables ask under. -/
@[simp]
def numbersOf (c:Option Connective) : RExpr → ID → List ID
 | .not e, n=>numbersOf none e (n+1)
 | .and e1 e2, n=>
  let m:=if c=some .conjunction then n else n+1
  numbersOf (some .conjunction) e1 m ++
   numbersOf (some .conjunction) e2 (m+numbers dr (some .conjunction) e1)
 | .or e1 e2, n=>
  let m:=if c=some .disjunction then n else n+1
  numbersOf (some .disjunction) e1 m ++
   numbersOf (some .disjunction) e2 (m+numbers dr (some .disjunction) e1)
 | .where_ e _, n=>numbersOf none e n
 | .inert _ _, _=>[]
 | .app _ [] _, _=>[]
 | .app r (a::args) ty, n=>
  if (Expr.app r (a::args) ty::a::args).all dr.hasBooleanType then
   (n+1)::(numbersOf none a (n+1) ++ numbersOfEach args (n+1+numbers dr none a))
  else [n+2]
 | _, n=>[n+2]

@[simp]
def numbersOfEach : List RExpr → ID → List ID
 | [], _=>[]
 | e::es, n=>numbersOf none e n ++ numbersOfEach es (n+numbers dr none e)

end

end Sources

section Traverse
variable {dr:Drawer}

theorem traverse_map {A B:Type} (f:B → ID → IRExpr × ID) (g:A → B) (l:List A) :
  ∀ n, Ladder.traverse f (l.map g) n=Ladder.traverse (fun a=>f (g a)) l n := by
 induction l with
 | nil=>exact fun n=>rfl
 | cons a l ih=>
  intro n
  simp only [List.map_cons,Ladder.traverse,ih]

theorem traverse_attach (f:RExpr → ID → IRExpr × ID) (l:List RExpr) (n:ID) :
  Ladder.traverse (fun x:{ x // x ∈ l }=>f x.1) l.attach n=Ladder.traverse f l n := by
 rw [←traverse_map f (fun x:{ x // x ∈ l }=>x.1),List.attach_map_subtype_val]

theorem traverse_append {A:Type} (f:A → ID → IRExpr × ID) (l1 l2:List A) :
  ∀ n, Ladder.traverse f (l1 ++ l2) n =
   ((Ladder.traverse f l1 n).1 ++ (Ladder.traverse f l2 (Ladder.traverse f l1 n).2).1,
    (Ladder.traverse f l2 (Ladder.traverse f l1 n).2).2) := by
 induction l1 with
 | nil=>exact fun n=>rfl
 | cons a l1 ih=>
  intro n
  simp only [List.cons_append,Ladder.traverse,ih]

theorem go_not (e:RExpr) (n:ID) :
  go dr (.not e) n=(.not_ (n+1) (go dr e (n+1)).1,(go dr e (n+1)).2) := by
 rw [go]

theorem go_and (e1 e2:RExpr) (n:ID) :
  go dr (.and e1 e2) n =
   (.and_ (n+1) (Ladder.traverse (go dr) (scanAnd (.and e1 e2)) (n+1)).1,
    (Ladder.traverse (go dr) (scanAnd (.and e1 e2)) (n+1)).2) := by
 rw [go,traverse_attach]

theorem go_or (e1 e2:RExpr) (n:ID) :
  go dr (.or e1 e2) n =
   (.or_ (n+1) (Ladder.traverse (go dr) (scanOr (.or e1 e2)) (n+1)).1,
    (Ladder.traverse (go dr) (scanOr (.or e1 e2)) (n+1)).2) := by
 rw [go,traverse_attach]

theorem go_app (r:Resolved) (a:RExpr) (args:List RExpr) (ty:Option (Type' Resolved))
  (n:ID) :
  go dr (.app r (a::args) ty) n =
   if (Expr.app r (a::args) ty::a::args).all dr.hasBooleanType then
    (.app (n+1) ⟨n+1,dr.prettyExpr (.app r (a::args) ty)⟩
     (Ladder.traverse (go dr) (a::args) (n+1)).1,
     (Ladder.traverse (go dr) (a::args) (n+1)).2)
   else leafFromExpr dr (.app r (a::args) ty) n := by
 rw [go]
 · simp only [traverse_attach]
 · simp

end Traverse

/-- The boxes drawn of the expressions: a variable's has its number, the others these. -/
inductive Drawn : List RExpr → List ID → List VName → Prop where
 | nil : Drawn [] [] []
 | variable_ (r:Resolved) (ty:Option (Type' Resolved)) (nm:VName) (es:List RExpr)
   (ns:List ID) (nms:List VName) (hu:nm.unique=r.getUnique.unique) (h:Drawn es ns nms) :
   Drawn (.app r [] ty::es) ns (nm::nms)
 | leaf (e:RExpr) (nm:VName) (es:List RExpr) (ns:List ID) (nms:List VName)
   (hv:isName e=false) (h:Drawn es ns nms) :
   Drawn (e::es) (nm.unique::ns) (nm::nms)

theorem Drawn.append {es es' : List RExpr} {ns ns' : List ID} {nms nms' : List VName}
  (h:Drawn es ns nms) (h' : Drawn es' ns' nms') :
  Drawn (es ++ es') (ns ++ ns') (nms ++ nms') := by
 induction h with
 | nil=>exact h'
 | variable_ r ty nm es ns nms hu _ ih=>exact .variable_ r ty nm _ _ _ hu ih
 | leaf e nm es ns nms hv _ ih=>exact .leaf e nm _ _ _ hv ih

section Draws
variable {dr:Drawer}

def Draws (dr:Drawer) (c:Option Connective) (e:RExpr) (n:ID)
  (drawing:List IRExpr × ID) : Prop :=
 drawing.2=n+numbers dr c e ∧
  Drawn (sources dr e) (numbersOf dr c e n) (leavesEach drawing.1)

theorem leavesEach_append (xs ys:List IRExpr) :
  leavesEach (xs ++ ys)=leavesEach xs ++ leavesEach ys := by
 induction xs with
 | nil=>rfl
 | cons x xs ih=>simp only [List.cons_append,leavesEach,ih,List.append_assoc]

theorem draws_single {c:Option Connective} {e:RExpr}
  (hn:numbers dr c e=numbers dr none e) (hns:∀ n, numbersOf dr c e n=numbersOf dr none e n)
  (h:∀ n, Draws dr none e n ([(go dr e n).1],(go dr e n).2)) (n:ID) :
  Draws dr c e n (Ladder.traverse (go dr) [e] n) := by
 obtain ⟨hnum,hdrawn⟩:=h n
 refine ⟨?_, ?_⟩
 · rw [hn]
   exact hnum
 · rw [hns n]
   exact hdrawn

def join : Connective → RExpr → RExpr → RExpr
 | .conjunction, e1, e2=>.and e1 e2
 | .disjunction, e1, e2=>.or e1 e2

def scan : Connective → RExpr → List RExpr
 | .conjunction, e=>scanAnd e
 | .disjunction, e=>scanOr e

theorem scan_induction {motive:RExpr → Prop} (c:Connective)
  (leaf:∀ e, (∀ e1 e2, e=join c e1 e2 → False) → motive e)
  (both:∀ e1 e2, motive e1 → motive e2 → motive (join c e1 e2)) (e:RExpr) : motive e := by
 cases c with
 | conjunction=>
  induction e using scanAnd.induct with
  | case1 e1 e2 ih1 ih2=>exact both e1 e2 ih1 ih2
  | case2 e hne=>exact leaf e hne
 | disjunction=>
  induction e using scanOr.induct with
  | case1 e1 e2 ih1 ih2=>exact both e1 e2 ih1 ih2
  | case2 e hne=>exact leaf e hne

variable {c:Connective} {e:RExpr}

theorem scan_join (e1 e2:RExpr) : scan c (join c e1 e2)=scan c e1 ++ scan c e2 := by
 cases c <;> simp only [scan,join,scanAnd,scanOr]

theorem scan_leaf (hne:∀ e1 e2, e=join c e1 e2 → False) : scan c e=[e] := by
 cases c
 · rw [scan,scanAnd]
   exact hne
 · rw [scan,scanOr]
   exact hne

theorem sources_join (e1 e2:RExpr) : sources dr (join c e1 e2)=sources dr e1 ++ sources dr e2 := by
 cases c <;> simp only [sources,join]

theorem numbers_join (e1 e2:RExpr) :
  numbers dr (some c) (join c e1 e2)=numbers dr (some c) e1+numbers dr (some c) e2 ∧
  ∀ n, numbersOf dr (some c) (join c e1 e2) n =
   numbersOf dr (some c) e1 n ++ numbersOf dr (some c) e2 (n+numbers dr (some c) e1) := by
 cases c <;> simp [numbers,numbersOf,join]

theorem numbers_leaf (hne:∀ e1 e2, e=join c e1 e2 → False) :
  numbers dr (some c) e=numbers dr none e ∧
   ∀ n, numbersOf dr (some c) e n=numbersOf dr none e n := by
 cases e with
 | and e1 e2=>
  cases c with
  | conjunction=>exact (hne e1 e2 rfl).elim
  | disjunction=>simp [numbers,numbersOf]
 | or e1 e2=>
  cases c with
  | conjunction=>simp [numbers,numbersOf]
  | disjunction=>exact (hne e1 e2 rfl).elim
 | app r args ty=>cases args <;> simp [numbers,numbersOf]
 | _=>simp [numbers,numbersOf]

theorem draws_scan (e:RExpr)
  (h:∀ x ∈ scan c e, ∀ n, Draws dr none x n ([(go dr x n).1],(go dr x n).2)) :
  ∀ n, Draws dr (some c) e n (Ladder.traverse (go dr) (scan c e) n) := by
 induction e using scan_induction c with
 | both e1 e2 ih1 ih2=>
  intro n
  rw [scan_join] at h ⊢
  obtain ⟨hn1,hd1⟩:=ih1 (fun x hx=>h x (List.mem_append_left _ hx)) n
  obtain ⟨hn2,hd2⟩:=ih2 (fun x hx=>h x (List.mem_append_right _ hx))
   (Ladder.traverse (go dr) (scan c e1) n).2
  rw [traverse_append]
  refine ⟨?_, ?_⟩
  · change (Ladder.traverse (go dr) (scan c e2) (Ladder.traverse (go dr) (scan c e1) n).2).2=_
    rw [hn2,hn1,(numbers_join e1 e2).1]
    push_cast
    ring
  · rw [leavesEach_append,sources_join,(numbers_join e1 e2).2,←hn1]
    exact hd1.append hd2
 | leaf e hne=>
  rw [scan_leaf hne] at h ⊢
  exact draws_single (numbers_leaf hne).1 (numbers_leaf hne).2 (h e List.mem_cons_self)

theorem go_join (c:Connective) (e1 e2:RExpr) (n:ID) :
  leaves (go dr (join c e1 e2) n).1 =
   leavesEach (Ladder.traverse (go dr) (scan c (join c e1 e2)) (n+1)).1 ∧
  (go dr (join c e1 e2) n).2=(Ladder.traverse (go dr) (scan c (join c e1 e2)) (n+1)).2 := by
 cases c
 · rw [join,go_and]
   exact ⟨rfl,rfl⟩
 · rw [join,go_or]
   exact ⟨rfl,rfl⟩

theorem numbers_none (c:Connective) (e1 e2:RExpr) :
  numbers dr none (join c e1 e2)=1+numbers dr (some c) (join c e1 e2) ∧
  ∀ n, numbersOf dr none (join c e1 e2) n=numbersOf dr (some c) (join c e1 e2) (n+1) := by
 cases c <;> simp [numbers,numbersOf,join,Nat.add_assoc]

theorem draws_join (c:Connective) (e1 e2:RExpr) (n:ID)
  (h:∀ x ∈ scan c (join c e1 e2), ∀ n, Draws dr none x n ([(go dr x n).1],(go dr x n).2)) :
  Draws dr none (join c e1 e2) n ([(go dr (join c e1 e2) n).1],(go dr (join c e1 e2) n).2) := by
 obtain ⟨hn,hd⟩:=draws_scan (join c e1 e2) h (n+1)
 obtain ⟨hleaves,hnext⟩:=@go_join dr c e1 e2 n
 obtain ⟨hnumbers,hnumbersOf⟩:=@numbers_none dr c e1 e2
 refine ⟨?_, ?_⟩
 · rw [hnext,hn,hnumbers]
   push_cast
   ring
 · rw [leavesEach,hleaves,leavesEach,List.append_nil,hnumbersOf]
   exact hd

theorem draws_args (es:List RExpr)
  (h:∀ x ∈ es, ∀ n, Draws dr none x n ([(go dr x n).1],(go dr x n).2)) :
  ∀ n, (Ladder.traverse (go dr) es n).2=n+numbersEach dr es ∧
   Drawn (sourcesEach dr es) (numbersOfEach dr es n)
    (leavesEach (Ladder.traverse (go dr) es n).1) := by
 induction es with
 | nil=>
  intro n
  exact ⟨by simp [Ladder.traverse,numbersEach],.nil⟩
 | cons e es ih=>
  intro n
  obtain ⟨hn1,hd1⟩:=h e List.mem_cons_self n
  obtain ⟨hn2,hd2⟩:=ih (fun x hx=>h x (List.mem_cons_of_mem _ hx)) (go dr e n).2
  have hn1' : (go dr e n).2=n+numbers dr none e:=hn1
  rw [Ladder.traverse]
  refine ⟨?_, ?_⟩
  · change (Ladder.traverse (go dr) es (go dr e n).2).2=_
    rw [hn2,hn1']
    simp only [numbersEach]
    push_cast
    ring
  · simp only [sourcesEach,numbersOfEach,leavesEach,←hn1']
    simp only [leavesEach,List.append_nil] at hd1
    exact hd1.append hd2

theorem draws_leaf (e:RExpr) (n:ID) (hgo:go dr e n=leafFromExpr dr e n)
  (hn:numbers dr none e=2) (hns:numbersOf dr none e n=[n+2])
  (hs:sources dr e=[e]) (hv:isName e=false) :
  Draws dr none e n ([(go dr e n).1],(go dr e n).2) := by
 rw [hgo]
 refine ⟨by rw [hn]; rfl, ?_⟩
 rw [hns,hs]
 exact .leaf e ⟨n+2,dr.prettyExpr e⟩ [] [] [] hv .nil

theorem varOrConstant_drawn (r:Resolved) (ty:Option (Type' Resolved)) (vid:ID) :
  Drawn (sources dr (.app r [] ty)) [] (leaves (varOrConstant dr r vid)) := by
 unfold varOrConstant
 split
 · next htrue=>
   have hv:isVariable (.app r [] ty)=false:=by simp [isVariable,htrue]
   simp only [sources,hv]
   exact .nil
 · next htrue=>
   split
   · next hfalse=>
     have hv:isVariable (.app r [] ty)=false:=by simp [isVariable,hfalse]
     simp only [sources,hv]
     exact .nil
   · next hfalse=>
     have hv:isVariable (.app r [] ty)=true:=by simp [isVariable,htrue,hfalse]
     simp only [sources,hv,if_true]
     exact .variable_ r ty _ [] [] [] rfl .nil

theorem draws_go (e:RExpr) (n:ID) :
  Draws dr none e n ([(go dr e n).1],(go dr e n).2) := by
 cases e with
 | not e1=>
  obtain ⟨hn,hd⟩:=draws_go e1 (n+1)
  rw [go_not]
  refine ⟨?_, ?_⟩
  · change (go dr e1 (n+1)).2=n+((1+numbers dr none e1 : ℕ) : ℤ)
    rw [show (go dr e1 (n+1)).2=n+1+numbers dr none e1 from hn]
    push_cast
    ring
  · simp only [leavesEach,leaves,List.append_nil] at hd ⊢
    exact hd
 | and e1 e2=>exact draws_join .conjunction e1 e2 n fun x hx m=>draws_go x m
 | or e1 e2=>exact draws_join .disjunction e1 e2 n fun x hx m=>draws_go x m
 | where_ e1 ds=>
  have hgo:go dr (.where_ e1 ds) n=go dr e1 n:=by rw [go]
  rw [hgo]
  exact draws_go e1 n
 | inert txt ctx=>
  have hgo:(go dr (.inert txt ctx) n).2=n+1 ∧ leaves (go dr (.inert txt ctx) n).1=[]:=by
   rw [go]
   exact ⟨rfl,rfl⟩
  refine ⟨hgo.1, ?_⟩
  simp only [leavesEach,hgo.2]
  exact .nil
 | app r args ty=>
  cases args with
  | nil=>
   have hgo:go dr (.app r [] ty) n=(varOrConstant dr r (n+1),n+1):=by rw [go]
   rw [hgo]
   refine ⟨rfl, ?_⟩
   simp only [leavesEach,List.append_nil]
   exact varOrConstant_drawn r ty (n+1)
  | cons a args=>
   by_cases hall:(Expr.app r (a::args) ty::a::args).all dr.hasBooleanType=true
   · obtain ⟨hn,hd⟩:=draws_args (a::args)
      (fun x hx m=>draws_go x m) (n+1)
     rw [go_app,if_pos hall]
     refine ⟨?_, ?_⟩
     · change (Ladder.traverse (go dr) (a::args) (n+1)).2=_
       rw [hn]
       simp only [numbers,if_pos hall,numbersEach]
       push_cast
       ring
     · simp only [sources,numbersOf,if_pos hall,leavesEach,leaves,List.append_nil]
       exact .leaf (.app r (a::args) ty) ⟨n+1,_⟩ _ _ _ rfl hd
   · exact draws_leaf _ n (by rw [go_app,if_neg hall]) (by simp only [numbers,if_neg hall])
      (by simp only [numbersOf,if_neg hall]) (by simp only [sources,if_neg hall]) rfl
 | _=>exact draws_leaf _ n (by simp only [go]) rfl rfl rfl rfl
termination_by sizeOf e
decreasing_by
 · exact sizeOf_scanAnd_lt hx
 · exact sizeOf_scanOr_lt hx
 · simp
 · exact sizeOf_args_lt hx
 · simp only [Expr.where_.sizeOf_spec]
   omega

end Draws

section Numbers
variable {dr:Drawer}

def Between (n m:ID) (ns:List ID) : Prop :=
 ns.Pairwise (· < ·) ∧ ∀ k ∈ ns, n < k ∧ k ≤ m

theorem Between.append {n m l:ID} {ns ns' : List ID} (h:Between n m ns)
  (h' : Between m l ns') (hnm:n ≤ m) (hml:m ≤ l) : Between n l (ns ++ ns') := by
 refine ⟨List.pairwise_append.2 ⟨h.1,h'.1,fun a ha b hb=>?_⟩,fun k hk=>?_⟩
 · exact (h.2 a ha).2.trans_lt (h'.2 b hb).1
 · rcases List.mem_append.1 hk with hk | hk
   · exact ⟨(h.2 k hk).1,(h.2 k hk).2.trans hml⟩
   · exact ⟨hnm.trans_lt (h'.2 k hk).1,(h'.2 k hk).2⟩

theorem Between.mono {n n' m m' : ID} {ns:List ID} (h:Between n m ns) (hn:n' ≤ n)
  (hm:m ≤ m') : Between n' m' ns :=
 ⟨h.1,fun k hk=>⟨hn.trans_lt (h.2 k hk).1,(h.2 k hk).2.trans hm⟩⟩

theorem between_nil (n m:ID) : Between n m [] := ⟨.nil,by simp⟩

theorem between_leaf (n:ID) : Between n (n+(2 : ℕ)) [n+2] :=
 ⟨List.pairwise_singleton _ _,fun k hk=>by
  obtain rfl:=List.mem_singleton.1 hk
  exact ⟨lt_add_of_pos_right n (by decide),le_rfl⟩⟩

theorem le_add_numbers (n:ID) (k:ℕ) : n ≤ n+(k:ID) :=
 le_add_of_nonneg_right (Int.natCast_nonneg k)

theorem between_parts {n m:ID} {k1 k2 d:ℕ} {ns1 ns2:List ID} (hm:m=n+(d:ID))
  (h1:Between m (m+(k1:ID)) ns1)
  (h2:Between (m+(k1:ID)) (m+(k1:ID)+(k2:ID)) ns2) :
  Between n (n+((d+k1+k2 : ℕ) : ID)) (ns1 ++ ns2) := by
 subst hm
 have happend:=h1.append h2 (le_add_numbers _ _) (le_add_numbers _ _)
 refine happend.mono (le_add_numbers n d) (le_of_eq ?_)
 push_cast
 ring

theorem numbersOfEach_between (es:List RExpr)
  (h:∀ e ∈ es, ∀ n, Between n (n+numbers dr none e) (numbersOf dr none e n)) :
  ∀ n, Between n (n+numbersEach dr es) (numbersOfEach dr es n) := by
 induction es with
 | nil=>exact fun n=>between_nil _ _
 | cons e es ih=>
  intro n
  have hparts:=between_parts (n := n) (m := n) (d := 0) (by simp) (h e List.mem_cons_self n)
   (ih (fun e' he=>h e' (List.mem_cons_of_mem _ he)) _)
  rw [Nat.zero_add] at hparts
  exact hparts

theorem numbersOf_between (c:Option Connective) (e:RExpr) (n:ID) :
  Between n (n+numbers dr c e) (numbersOf dr c e n) := by
 cases e with
 | not e=>
  refine (numbersOf_between none e (n+1)).mono (le_add_numbers n 1) (le_of_eq ?_)
  simp only [numbers]
  push_cast
  ring
 | and e1 e2=>
  simp only [numbers,numbersOf]
  split
  · exact between_parts (d := 0) (by simp) (numbersOf_between _ e1 n) (numbersOf_between _ e2 _)
  · exact between_parts (d := 1) (by simp) (numbersOf_between _ e1 _) (numbersOf_between _ e2 _)
 | or e1 e2=>
  simp only [numbers,numbersOf]
  split
  · exact between_parts (d := 0) (by simp) (numbersOf_between _ e1 n) (numbersOf_between _ e2 _)
  · exact between_parts (d := 1) (by simp) (numbersOf_between _ e1 _) (numbersOf_between _ e2 _)
 | where_ e _=>exact numbersOf_between none e n
 | inert=>exact between_nil _ _
 | app r args ty=>
  cases args with
  | nil=>exact between_nil _ _
  | cons a args=>
   simp only [numbers,numbersOf]
   split
   · have hargs:=numbersOfEach_between (a::args)
      (fun x hx m=>numbersOf_between none x m) (n+1)
     have hfirst:Between n (n+1) [n+1]:=
      ⟨List.pairwise_singleton _ _,fun k hk=>by
       obtain rfl:=List.mem_singleton.1 hk
       exact ⟨lt_add_of_pos_right n (by decide),le_rfl⟩⟩
     refine (hfirst.append hargs (le_add_numbers n 1) (le_add_numbers _ _)).mono le_rfl
      (le_of_eq ?_)
     simp only [numbersEach]
     push_cast
     ring
   · exact between_leaf n
 | _=>exact between_leaf n
termination_by sizeOf e

end Numbers

section Collisions
variable (dr:Drawer)

/-- The two expressions are one expression, or occurrences of one variable. -/
def SameProposition (e1 e2:RExpr) : Prop :=
 e1=e2 ∨ ∃ r1 ty1 r2 ty2, e1 = .app r1 [] ty1 ∧ e2 = .app r2 [] ty2 ∧
  r1.getUnique=r2.getUnique

/-- Boxes of one number stand for one proposition. -/
def Distinguishes (x:IRExpr) (es:List RExpr) : Prop :=
 (leaves x).length=es.length ∧
  ∀ p ∈ (leaves x).zip es, ∀ q ∈ (leaves x).zip es, p.1.unique=q.1.unique →
   SameProposition p.2 q.2

/-- The numbers of different variables differ, from each other and from the numbers that the
    drawing takes for other boxes. -/
structure ApartNumbers (e:RExpr) (n:ID) : Prop where
 names : ∀ r1 ty1 r2 ty2, Expr.app r1 [] ty1 ∈ sources dr e → .app r2 [] ty2 ∈ sources dr e →
  r1.getUnique.unique=r2.getUnique.unique → r1.getUnique=r2.getUnique
 others : ∀ r ty, Expr.app r [] ty ∈ sources dr e → r.getUnique.unique ∉ numbersOf dr none e n

variable {dr} {es:List RExpr} {ns:List ID} {nms:List VName}

theorem Drawn.length (h:Drawn es ns nms) : nms.length=es.length := by
 induction h with
 | nil=>rfl
 | variable_ r ty nm es ns nms hu _ ih=>simp only [List.length_cons,ih]
 | leaf e nm es ns nms hv _ ih=>simp only [List.length_cons,ih]

theorem Drawn.of_mem (h:Drawn es ns nms) {p:VName × RExpr} (hp:p ∈ nms.zip es) :
  (∃ r ty, p.2 = .app r [] ty ∧ p.1.unique=r.getUnique.unique) ∨
   isName p.2=false ∧ p.1.unique ∈ ns := by
 induction h with
 | nil=>cases hp
 | variable_ r ty nm es ns nms hu _ ih=>
  rcases List.mem_cons.1 hp with rfl | hp
  · exact .inl ⟨r,ty,rfl,hu⟩
  · exact ih hp
 | leaf e nm es ns nms hv _ ih=>
  rcases List.mem_cons.1 hp with rfl | hp
  · exact .inr ⟨hv,List.mem_cons_self⟩
  · refine (ih hp).imp_right fun h=>⟨h.1,List.mem_cons_of_mem _ h.2⟩

theorem Drawn.of_source (h:Drawn es ns nms) {e:RExpr} (he:e ∈ es) :
  ∃ nm, (nm,e) ∈ nms.zip es := by
 obtain ⟨i,hi,rfl⟩:=List.getElem_of_mem he
 have hlt:i < (nms.zip es).length:=by
  rw [List.length_zip,h.length,min_self]
  exact hi
 refine ⟨nms.get ⟨i,h.length ▸ hi⟩, ?_⟩
 rw [List.get_eq_getElem]
 rw [←List.getElem_zip (h := hlt)]
 exact List.getElem_mem hlt

theorem Drawn.of_number (h:Drawn es ns nms) {k:ID} (hk:k ∈ ns) :
  ∃ p ∈ nms.zip es, isName p.2=false ∧ p.1.unique=k := by
 induction h with
 | nil=>cases hk
 | variable_ r ty nm es ns nms hu _ ih=>
  obtain ⟨p,hp,hrest⟩:=ih hk
  exact ⟨p,List.mem_cons_of_mem _ hp,hrest⟩
 | leaf e nm es ns nms hv _ ih=>
  rcases List.mem_cons.1 hk with rfl | hk
  · exact ⟨(nm,e),List.mem_cons_self,hv,rfl⟩
  · obtain ⟨p,hp,hrest⟩:=ih hk
    exact ⟨p,List.mem_cons_of_mem _ hp,hrest⟩

theorem Drawn.other_unique (h:Drawn es ns nms) (hns:ns.Pairwise (· < ·))
  {p q:VName × RExpr} (hp:p ∈ nms.zip es) (hq:q ∈ nms.zip es)
  (hpv:isName p.2=false) (hqv:isName q.2=false)
  (heq:p.1.unique=q.1.unique) : p=q := by
 induction h with
 | nil=>cases hp
 | variable_ r ty nm es ns nms hu _ ih=>
  rcases List.mem_cons.1 hp with rfl | hp
  · cases hpv
  · rcases List.mem_cons.1 hq with rfl | hq
    · cases hqv
    · exact ih hns hp hq
 | leaf e nm es ns nms hv hrest ih=>
  obtain ⟨hhead,htail⟩:=List.pairwise_cons.1 hns
  have hlater:∀ p' ∈ nms.zip es, isName p'.2=false → p'.1.unique ≠ nm.unique:=by
   intro p' hp' hv'
   rcases hrest.of_mem hp' with ⟨r,ty,hname,-⟩ | ⟨-,hmem⟩
   · rw [hname] at hv'
     cases hv'
   · exact (hhead _ hmem).ne'
  rcases List.mem_cons.1 hp with rfl | hp
  · rcases List.mem_cons.1 hq with rfl | hq
    · rfl
    · exact absurd heq.symm (hlater q hq hqv)
  · rcases List.mem_cons.1 hq with rfl | hq
    · exact absurd heq (hlater p hp hpv)
    · exact ih htail hp hq

theorem Drawn.sameProposition (h:Drawn es ns nms) (hns:ns.Pairwise (· < ·))
  (hvars:∀ r1 ty1 r2 ty2, Expr.app r1 [] ty1 ∈ es → .app r2 [] ty2 ∈ es →
   r1.getUnique.unique=r2.getUnique.unique → r1.getUnique=r2.getUnique)
  (hothers:∀ r ty, Expr.app r [] ty ∈ es → r.getUnique.unique ∉ ns)
  {p q:VName × RExpr} (hp:p ∈ nms.zip es) (hq:q ∈ nms.zip es)
  (heq:p.1.unique=q.1.unique) : SameProposition p.2 q.2 := by
 have hpe:=(List.of_mem_zip hp).2
 have hqe:=(List.of_mem_zip hq).2
 rcases h.of_mem hp with ⟨r1,ty1,he1,hu1⟩ | ⟨hv1,hn1⟩
 · rw [he1] at hpe
   rcases h.of_mem hq with ⟨r2,ty2,he2,hu2⟩ | ⟨hv2,hn2⟩
   · rw [he2] at hqe
     refine .inr ⟨r1,ty1,r2,ty2,he1,he2,hvars r1 ty1 r2 ty2 hpe hqe ?_⟩
     rw [←hu1,heq,hu2]
   · rw [←heq,hu1] at hn2
     exact absurd hn2 (hothers r1 ty1 hpe)
 · rcases h.of_mem hq with ⟨r2,ty2,he2,hu2⟩ | ⟨hv2,hn2⟩
   · rw [he2] at hqe
     rw [heq,hu2] at hn1
     exact absurd hn1 (hothers r2 ty2 hqe)
   · exact .inl (by rw [h.other_unique hns hp hq hv1 hv2 heq])

theorem Drawn.of_name (h:Drawn es ns nms) {r:Resolved} {ty:Option (Type' Resolved)}
  (he:Expr.app r [] ty ∈ es) :
  ∃ nm, (nm,Expr.app r [] ty) ∈ nms.zip es ∧ nm.unique=r.getUnique.unique := by
 obtain ⟨nm,hmem⟩:=h.of_source he
 refine ⟨nm,hmem, ?_⟩
 rcases h.of_mem hmem with ⟨r', ty', heq,hu⟩ | ⟨hv,-⟩
 · obtain ⟨rfl,-,rfl⟩:=Expr.app.inj heq
   exact hu
 · cases hv

theorem SameProposition.unique {r1 r2:Resolved} {ty1 ty2:Option (Type' Resolved)}
  (h:SameProposition (.app r1 [] ty1) (.app r2 [] ty2)) : r1.getUnique=r2.getUnique := by
 rcases h with heq | ⟨r1', ty1', r2', ty2', h1,h2,hu⟩
 · rw [(Expr.app.inj heq).1]
 · rw [(Expr.app.inj h1).1,(Expr.app.inj h2).1,hu]

theorem SameProposition.isName {e1 e2:RExpr} (h:SameProposition e1 e2) :
  isName e1=isName e2 := by
 rcases h with rfl | ⟨r1,ty1,r2,ty2,rfl,rfl,-⟩
 · rfl
 · rfl

theorem distinguishes_iff (dr:Drawer) (e:RExpr) (n:ID) :
  Distinguishes (go dr e n).1 (sources dr e) ↔ ApartNumbers dr e n := by
 obtain ⟨-,hdrawn⟩:=@draws_go dr e n
 simp only [leavesEach,List.append_nil] at hdrawn
 have hns:=(@numbersOf_between dr none e n).1
 constructor
 · rintro ⟨-,hsame⟩
   refine ⟨fun r1 ty1 r2 ty2 h1 h2 heq=>?_,fun r ty h hmem=>?_⟩
   · obtain ⟨nm1,hz1,hu1⟩:=hdrawn.of_name h1
     obtain ⟨nm2,hz2,hu2⟩:=hdrawn.of_name h2
     exact (hsame _ hz1 _ hz2 (by rw [hu1,hu2,heq])).unique
   · obtain ⟨nm,hz,hu⟩:=hdrawn.of_name h
     obtain ⟨q,hq,hname,hk⟩:=hdrawn.of_number hmem
     have h:=(hsame _ hz q hq (by rw [hu,hk])).isName
     rw [hname] at h
     cases h
 · intro h
   exact ⟨hdrawn.length,fun p hp q hq heq=>
    hdrawn.sameProposition hns h.names h.others hp hq heq⟩

end Collisions

mutual

theorem order_leaves : ∀ (x:IRExpr), ∀ v ∈ (vizExprToBoolExpr x).2.2,
  ∃ nm ∈ leaves x, nm.unique=v
 | .trueE _ _, v, hv=>by cases hv
 | .falseE _ _, v, hv=>by cases hv
 | .uBoolVar _ nm, v, hv=>⟨nm,List.mem_cons_self,(List.mem_singleton.1 hv).symm⟩
 | .app _ nm _, v, hv=>⟨nm,List.mem_cons_self,(List.mem_singleton.1 hv).symm⟩
 | .not_ _ x, v, hv=>order_leaves x v hv
 | .and_ _ xs, v, hv=>orders_leaves xs v hv
 | .or_ _ xs, v, hv=>orders_leaves xs v hv
 | .inertE _ _ .inertCtxAnd, v, hv=>by cases hv
 | .inertE _ _ .inertCtxOr, v, hv=>by cases hv
 | .inertE _ _ .inertCtxNone, v, hv=>by cases hv

theorem orders_leaves : ∀ (xs:List IRExpr), ∀ v ∈ (vizExprsToBoolExprs xs).2.2,
  ∃ nm ∈ leavesEach xs, nm.unique=v
 | [], v, hv=>by cases hv
 | x::xs, v, hv=>by
  rcases List.mem_append.1 hv with hv | hv
  · obtain ⟨nm,hnm,hu⟩:=order_leaves x v hv
    exact ⟨nm,List.mem_append_left _ hnm,hu⟩
  · obtain ⟨nm,hnm,hu⟩:=orders_leaves xs v hv
    exact ⟨nm,List.mem_append_right _ hnm,hu⟩

end

/-- The expression that is drawn of a body. -/
def drawnExpr (shouldSimplify:Bool) (body:RExpr) : RExpr :=
 if shouldSimplify then simplify body else body

theorem translateExpr_eq (dr:Drawer) (shouldSimplify:Bool) (body:RExpr) (n:ID) :
  translateExpr dr shouldSimplify body n=go dr (drawnExpr shouldSimplify body) n := by
 cases shouldSimplify <;> rfl

theorem translateDecide_body {dr:Drawer} {rt:ReadThrough} {shouldSimplify:Bool}
  {decide:Decide Resolved} {fd:FunDecl} {body:RExpr}
  (hbody:bodyDrawn dr rt decide = .ok body)
  (h:translateDecide dr rt shouldSimplify decide = .ok fd) :
  fd.body=(go dr (drawnExpr shouldSimplify body) 1).1 := by
 obtain ⟨typeSig,appForm,body0,generated⟩:=decide
 simp only [translateDecide,hbody,bind,Except.bind] at h
 split at h
 · cases h
 · obtain rfl:=Except.ok.inj h
   exact congrArg Prod.fst (translateExpr_eq dr shouldSimplify body 1)

/-- In the ladder of a rule two boxes have one number only for one proposition exactly when the
    numbers that the rule's variables got are apart from those that the drawing takes. -/
theorem translateDecide_distinguishes_iff (dr:Drawer) (rt:ReadThrough) (shouldSimplify:Bool)
  (decide:Decide Resolved) (fd:FunDecl) (body:RExpr)
  (hbody:bodyDrawn dr rt decide = .ok body)
  (h:translateDecide dr rt shouldSimplify decide = .ok fd) :
  Distinguishes fd.body (sources dr (drawnExpr shouldSimplify body)) ↔
   ApartNumbers dr (drawnExpr shouldSimplify body) 1 := by
 rw [translateDecide_body hbody h]
 exact distinguishes_iff dr _ 1

section Clash

def plainDrawer : Drawer := ⟨fun _=> "",fun _=> "",fun _=>true⟩

def asWritten : ReadThrough := ⟨some,id,fun _=>false,fun _=>false⟩

def checked (i:ℤ) : Resolved := .def_ ⟨'c', i,"file:///rule.l4"⟩ ⟨.normalName "x"⟩

/-- A comparison and a variable, by the number the type checker gave it. -/
def adultAnd (i:ℤ) : RExpr :=
 .and (.gt (.app (checked 0) [] none) (.lit (.numericLit 18))) (.app (checked i) [] none)

def rule (i:ℤ) : Decide Resolved :=
 .mkDecide ⟨[],none⟩ ⟨checked 100,[],none⟩ (adultAnd i) none

def ruleDecl (i:ℤ) : FunDecl :=
 ⟨1,mkPrettyVizName plainDrawer (checked 100),(go plainDrawer (adultAnd i) 1).1⟩

theorem bodyDrawn_rule (i:ℤ) : bodyDrawn plainDrawer asWritten (rule i) = .ok (adultAnd i) := rfl

theorem translateDecide_rule (i:ℤ) :
  translateDecide plainDrawer asWritten false (rule i) = .ok (ruleDecl i) := rfl

theorem sources_adultAnd (i:ℤ) : sources plainDrawer (adultAnd i) =
  [.gt (.app (checked 0) [] none) (.lit (.numericLit 18)),.app (checked i) [] none] := rfl

theorem numbersOf_adultAnd (i:ℤ) : numbersOf plainDrawer none (adultAnd i) 1=[4] := rfl

theorem translateDecide_distinguishes_iff_rule :
  Distinguishes (ruleDecl 40).body (sources plainDrawer (adultAnd 40)) := by
 refine (translateDecide_distinguishes_iff plainDrawer asWritten false (rule 40) (ruleDecl 40)
  (adultAnd 40) (bodyDrawn_rule 40) (translateDecide_rule 40)).2 ⟨?_, ?_⟩
 · intro r1 ty1 r2 ty2 h1 h2 _
   simp only [drawnExpr,Bool.false_eq_true,if_false,sources_adultAnd,List.mem_cons,
    reduceCtorEq,Expr.app.injEq,List.not_mem_nil,or_false,false_or] at h1 h2
   rw [h1.1,h2.1]
 · intro r ty h
   simp only [drawnExpr,Bool.false_eq_true,if_false,sources_adultAnd,List.mem_cons,
    reduceCtorEq,Expr.app.injEq,List.not_mem_nil,or_false,false_or] at h
   simp only [drawnExpr,Bool.false_eq_true,if_false,numbersOf_adultAnd,h.1,checked,
    Resolved.getUnique]
   decide

/-- A variable that the type checker numbered 4 is merged with the comparison beside it. -/
theorem rule_merges : ¬ ∀ (dr:Drawer) (rt:ReadThrough) (shouldSimplify:Bool)
  (decide:Decide Resolved) (fd:FunDecl) (body:RExpr),
  bodyDrawn dr rt decide = .ok body → translateDecide dr rt shouldSimplify decide = .ok fd →
  Distinguishes fd.body (sources dr (drawnExpr shouldSimplify body)) := by
 intro hall
 have h:=hall plainDrawer asWritten false (rule 4) (ruleDecl 4) (adultAnd 4) (bodyDrawn_rule 4)
  (translateDecide_rule 4)
 have hapart:=(distinguishes_iff plainDrawer (adultAnd 4) 1).1 h
 refine hapart.others (checked 4) none ?_ ?_
 · rw [sources_adultAnd]
   exact List.mem_cons_of_mem _ List.mem_cons_self
 · rw [numbersOf_adultAnd]
   exact List.mem_cons_self

end Clash

end L4Ide.LadderAtoms
