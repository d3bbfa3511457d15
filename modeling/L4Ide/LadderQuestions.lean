import L4Ide.LadderAtoms
import L4Ide.TransformFormulas
import L4Ide.BooleanDecisionQueryCorrect

set_option autoImplicit false

/-!
# What a ladder asks

The query of a ladder is the formula that the drawn expression is over the questions of its
boxes.
-/
namespace L4Ide.LadderQuestions
open Syntax Environment Transform Ladder LadderAtoms FormulaCopies TransformFormulas
open BooleanDecisionQuery (BoolExpr evalAll evalAny)

structure Atom where
 box : Box ID
 source : RExpr

def nameBox (r:Resolved) : Box ID :=
 if r.getUnique=trueUnique then .const true
 else if r.getUnique=falseUnique then .const false
 else .asks r.getUnique.unique

def Fits (a:Atom) : Prop :=
 match a.source with
 | .app r [] _=>a.box=nameBox r
 | .inert _ ctx=>a.box = .const (ctx ≠ .inertCtxOr)
 | _=>∃ k, a.box = .asks k

def Atom.number (a:Atom) : Option ID :=
 match a.box with
 | .asks k=>some k
 | .const _=>none

def Atom.ownNumber (a:Atom) : Option ID := if isName a.source then none else a.number

section Questions
variable (dr:Drawer)

def boxLabel : RExpr → String
 | .app r [] _=>dr.prettyName r.getOriginal
 | e=>dr.prettyExpr e

def Atom.labelled (a:Atom) : Option (ID × String) :=
 a.number.map fun k=>(k,boxLabel dr a.source)

/-- A query and its tables, read as the formula that the expression is over its boxes. -/
structure Asks (c:Option Connective) (e:RExpr) (n:ID) (value:(ID → Bool) → Bool)
  (labels:List (ID × String)) (order:List ID) (boxes:List (VName × RExpr))
  (f:Formula Atom Scope) : Prop where
 fill : fill Atom.source f=e
 whole : ∀ a ∈ f.atoms, isConnective a.source=false
 fits : ∀ a ∈ f.atoms, Fits a
 value : ∀ σ, value σ=f.eval fun a=>a.box.value σ
 labels : labels=f.atoms.filterMap (Atom.labelled dr)
 order : order=f.atoms.filterMap Atom.number
 own : (f.atoms.filterMap Atom.ownNumber).Sublist (numbersOf dr c e n)
 drawn : ∀ a ∈ f.atoms, ∀ k, a.box = .asks k → ∃ nm, (nm,a.source) ∈ boxes ∧ nm.unique=k

variable {dr}

theorem vizExprsToBoolExprs_append (xs ys:List IRExpr) :
  vizExprsToBoolExprs (xs ++ ys) =
   ((vizExprsToBoolExprs xs).1 ++ (vizExprsToBoolExprs ys).1,
    (vizExprsToBoolExprs xs).2.1 ++ (vizExprsToBoolExprs ys).2.1,
    (vizExprsToBoolExprs xs).2.2 ++ (vizExprsToBoolExprs ys).2.2) := by
 induction xs with
 | nil=>simp [vizExprsToBoolExprs]
 | cons x xs ih=>simp [vizExprsToBoolExprs,ih]

theorem evalAll_append {V:Type} (σ:V → Bool) (es es' : List (BoolExpr V)) :
  evalAll σ (es ++ es')=(evalAll σ es && evalAll σ es') := by
 induction es with
 | nil=>rfl
 | cons e es ih=>simp only [List.cons_append,evalAll,ih,Bool.and_assoc]

theorem evalAny_append {V:Type} (σ:V → Bool) (es es' : List (BoolExpr V)) :
  evalAny σ (es ++ es')=(evalAny σ es || evalAny σ es') := by
 induction es with
 | nil=>rfl
 | cons e es ih=>simp only [List.cons_append,evalAny,ih,Bool.or_assoc]

/-- Whether the ladder of an expression asks what the expression is made of. -/
def Asked (dr:Drawer) (e:RExpr) (n:ID) : Prop :=
 ∃ f, Asks dr none e n (fun σ=>(vizExprToBoolExpr (go dr e n).1).1.eval σ)
  (vizExprToBoolExpr (go dr e n).1).2.1 (vizExprToBoolExpr (go dr e n).1).2.2
  ((leaves (go dr e n).1).zip (sources dr e)) f

variable {e:RExpr} {n:ID}

theorem asked_atom (a:Atom) (hs:a.source=e)
  (hw:isConnective e=false) (hfits:Fits a)
  (hv:∀ σ, (vizExprToBoolExpr (go dr e n).1).1.eval σ=a.box.value σ)
  (hl:(vizExprToBoolExpr (go dr e n).1).2.1=[a].filterMap (Atom.labelled dr))
  (ho:(vizExprToBoolExpr (go dr e n).1).2.2=[a].filterMap Atom.number)
  (hown:([a].filterMap Atom.ownNumber).Sublist (numbersOf dr none e n))
  (hdrawn:∀ k, a.box = .asks k →
   ∃ nm, (nm,e) ∈ (leaves (go dr e n).1).zip (sources dr e) ∧ nm.unique=k) :
  Asked dr e n := by
 refine ⟨.atom a,hs, ?_, ?_,hv,hl,ho,hown, ?_⟩
 · intro b hb
   rw [List.mem_singleton.1 hb,hs]
   exact hw
 · intro b hb
   rw [List.mem_singleton.1 hb]
   exact hfits
 · intro b hb
   rw [List.mem_singleton.1 hb,hs]
   exact hdrawn

theorem asked_leaf (e:RExpr) (n:ID) (hgo:go dr e n=leafFromExpr dr e n)
  (hw:isConnective e=false) (hname:isName e=false)
  (hfits:∀ k, Fits ⟨.asks k,e⟩) (hlabel:boxLabel dr e=dr.prettyExpr e)
  (hns:numbersOf dr none e n=[n+2]) (hs:sources dr e=[e]) : Asked dr e n := by
 have hviz:vizExprToBoolExpr (go dr e n).1 =
   (.bVar (n+2),[(n+2,dr.prettyExpr e)],[n+2]) := by
  rw [hgo]
  rfl
 refine asked_atom ⟨.asks (n+2),e⟩ rfl hw (hfits _) (fun σ=>?_) ?_ ?_ ?_ fun k hk=>?_
 · rw [hviz]
   rfl
 · rw [hviz]
   simp [Atom.labelled,Atom.number,hlabel]
 · rw [hviz]
   simp [Atom.number]
 · rw [hns]
   simp [Atom.ownNumber,Atom.number,hname]
 · rw [hgo,hs]
   exact ⟨⟨n+2,dr.prettyExpr e⟩,List.mem_cons_self,Box.asks.inj hk⟩

theorem Asks.both {c c' : Option Connective} {e1 e2:RExpr} {n2:ID}
  {v1 v2 v:(ID → Bool) → Bool} {l1 l2:List (ID × String)} {o1 o2:List ID}
  {b1 b2 b:List (VName × RExpr)} {f1 f2:Formula Atom Scope}
  (h1:Asks dr c e1 n v1 l1 o1 b1 f1) (h2:Asks dr c e2 n2 v2 l2 o2 b2 f2) {f:Formula Atom Scope} {m:ID}
  (hfill:TransformFormulas.fill Atom.source f=e) (hatoms:f.atoms=f1.atoms ++ f2.atoms)
  (hv:∀ σ, v σ=f.eval fun a=>a.box.value σ)
  (hns:(numbersOf dr c e1 n ++ numbersOf dr c e2 n2).Sublist (numbersOf dr c' e m))
  (hb:b=b1 ++ b2) : Asks dr c' e m v (l1 ++ l2) (o1 ++ o2) b f where
 fill:=hfill
 whole a ha := (List.mem_append.1 (hatoms ▸ ha)).elim (h1.whole a) (h2.whole a)
 fits a ha := (List.mem_append.1 (hatoms ▸ ha)).elim (h1.fits a) (h2.fits a)
 value:=hv
 labels:=by rw [hatoms,List.filterMap_append,←h1.labels,←h2.labels]
 order:=by rw [hatoms,List.filterMap_append,←h1.order,←h2.order]
 own := by
  rw [hatoms,List.filterMap_append]
  exact (h1.own.append h2.own).trans hns
 drawn a ha k hk := by
  rw [hb]
  rcases List.mem_append.1 (hatoms ▸ ha) with ha | ha
  · obtain ⟨nm,hmem,hu⟩:=h1.drawn a ha k hk
    exact ⟨nm,List.mem_append_left _ hmem,hu⟩
  · obtain ⟨nm,hmem,hu⟩:=h2.drawn a ha k hk
    exact ⟨nm,List.mem_append_right _ hmem,hu⟩

def evalEach (σ:ID → Bool) : Connective → List (BoolExpr ID) → Bool
 | .conjunction=>evalAll σ
 | .disjunction=>evalAny σ

def joined : Connective → Formula Atom Scope → Formula Atom Scope → Formula Atom Scope
 | .conjunction=>.and
 | .disjunction=>.or

theorem evalEach_append (σ:ID → Bool) (c:Connective) (es es' : List (BoolExpr ID))
  {f1 f2:Formula Atom Scope} {s:Atom → Bool} (h1:evalEach σ c es=f1.eval s)
  (h2:evalEach σ c es' = f2.eval s) : evalEach σ c (es ++ es')=(joined c f1 f2).eval s := by
 cases c
 · rw [evalEach,evalAll_append]
   exact congrArg₂ _ h1 h2
 · rw [evalEach,evalAny_append]
   exact congrArg₂ _ h1 h2

theorem evalEach_singleton (σ:ID → Bool) (c:Connective) (x:BoolExpr ID) :
  evalEach σ c [x]=x.eval σ := by
 cases c <;> simp [evalEach,evalAll,evalAny]

theorem asks_scan (c:Connective) (e:RExpr) (h:∀ x ∈ scan c e, ∀ n, Asked dr x n) :
  ∀ n, ∃ f, Asks dr (some c) e n
   (fun σ=>evalEach σ c (vizExprsToBoolExprs (Ladder.traverse (go dr) (scan c e) n).1).1)
   (vizExprsToBoolExprs (Ladder.traverse (go dr) (scan c e) n).1).2.1
   (vizExprsToBoolExprs (Ladder.traverse (go dr) (scan c e) n).1).2.2
   ((leavesEach (Ladder.traverse (go dr) (scan c e) n).1).zip (sources dr e)) f := by
 induction e using scan_induction c with
 | both e1 e2 ih1 ih2=>
  intro n
  rw [scan_join] at h ⊢
  obtain ⟨f1,h1⟩:=ih1 (fun x hx=>h x (List.mem_append_left _ hx)) n
  obtain ⟨f2,h2⟩:=ih2 (fun x hx=>h x (List.mem_append_right _ hx))
   (Ladder.traverse (go dr) (scan c e1) n).2
  obtain ⟨hnext,hdrawn⟩:=draws_scan e1 (fun x _ m=>@draws_go dr x m) n
  rw [traverse_append,vizExprsToBoolExprs_append]
  refine ⟨joined c f1 f2,h1.both h2 ?_ ?_ (fun σ=>?_) ?_ ?_⟩
  · cases c <;> rw [joined,TransformFormulas.fill,h1.fill,h2.fill,join]
  · cases c <;> rfl
  · exact evalEach_append σ c _ _ (h1.value σ) (h2.value σ)
  · rw [hnext,(numbers_join e1 e2).2]
  · simp only [leavesEach_append,sources_join]
    exact List.zip_append hdrawn.length
 | leaf e hne=>
  intro n
  rw [scan_leaf hne] at h ⊢
  obtain ⟨f,hf⟩:=h e List.mem_cons_self n
  refine ⟨f,hf.fill,hf.whole,hf.fits,fun σ=>?_, ?_, ?_, ?_, ?_⟩
  · rw [←hf.value]
    exact evalEach_singleton σ c _
  · rw [←hf.labels]
    simp only [Ladder.traverse,vizExprsToBoolExprs,List.append_nil]
  · rw [←hf.order]
    simp only [Ladder.traverse,vizExprsToBoolExprs,List.append_nil]
  · rw [(numbers_leaf hne).2]
    exact hf.own
  · simp only [Ladder.traverse,leavesEach,List.append_nil]
    exact hf.drawn

theorem impliesFree_scan (c:Connective) (h:impliesFree e=true) :
  ∀ x ∈ scan c e, impliesFree x=true := by
 induction e using scan_induction c with
 | both e1 e2 ih1 ih2=>
  have hparts:(impliesFree e1 && impliesFree e2)=true:=by cases c <;> exact h
  obtain ⟨h1,h2⟩:=(Bool.and_eq_true _ _).mp hparts
  rw [scan_join]
  exact fun x hx=>(List.mem_append.1 hx).elim (ih1 h1 x) (ih2 h2 x)
 | leaf e hne=>
  intro x hx
  rw [scan_leaf hne] at hx
  rw [List.mem_singleton.1 hx]
  exact h

theorem asked_join (c:Connective) (e1 e2:RExpr)
  (h:∀ x ∈ scan c (join c e1 e2), ∀ n, Asked dr x n) : Asked dr (join c e1 e2) n := by
 obtain ⟨f,hf⟩:=asks_scan c (join c e1 e2) h (n+1)
 have hown:=hf.own
 rw [←(numbers_none c e1 e2).2] at hown
 cases c
 · simp only [join,Asked,go_and,vizExprToBoolExpr,leaves] at *
   exact ⟨f,hf.fill,hf.whole,hf.fits,hf.value,hf.labels,hf.order,hown,hf.drawn⟩
 · simp only [join,Asked,go_or,vizExprToBoolExpr,leaves] at *
   exact ⟨f,hf.fill,hf.whole,hf.fits,hf.value,hf.labels,hf.order,hown,hf.drawn⟩

theorem asked_name (r:Resolved) (ty:Option (Type' Resolved)) (n:ID) :
  Asked dr (.app r [] ty) n := by
 have hgo:go dr (.app r [] ty) n=(varOrConstant dr r (n+1),n+1):=by rw [go]
 have hown:([(⟨nameBox r,.app r [] ty⟩ : Atom)].filterMap Atom.ownNumber).Sublist
   (numbersOf dr none (.app r [] ty) n) := List.Sublist.refl _
 by_cases htrue:r.getUnique=trueUnique
 · have hbox:nameBox r = .const true:=by simp only [nameBox,htrue,if_true]
   refine asked_atom ⟨nameBox r,.app r [] ty⟩ rfl rfl rfl (fun σ=>?_) ?_ ?_ hown ?_
   all_goals simp only [hgo,hbox,varOrConstant,htrue,if_true,vizExprToBoolExpr,
    BoolExpr.eval,Box.value]
   · rfl
   · rfl
   · simp
 by_cases hfalse:r.getUnique=falseUnique
 · have hbox:nameBox r = .const false:=by
    simp only [nameBox,hfalse,if_true]
    simp [←hfalse,htrue]
   have hvar:varOrConstant dr r (n+1) = .falseE (n+1) (mkPrettyVizName dr r):=by
    simp only [varOrConstant,if_neg htrue,if_pos hfalse]
   refine asked_atom ⟨nameBox r,.app r [] ty⟩ rfl rfl rfl (fun σ=>?_) ?_ ?_ hown ?_
   all_goals simp only [hgo,hbox,hvar,vizExprToBoolExpr,BoolExpr.eval,Box.value]
   · rfl
   · rfl
   · simp
 have hbox:nameBox r = .asks r.getUnique.unique:=by
  simp only [nameBox,if_neg htrue,if_neg hfalse]
 have hvar:varOrConstant dr r (n+1) = .uBoolVar (n+1) (mkPrettyVizName dr r):=by
  simp only [varOrConstant,if_neg htrue,if_neg hfalse]
 refine asked_atom ⟨nameBox r,.app r [] ty⟩ rfl rfl rfl (fun σ=>?_) ?_ ?_ hown ?_
 · simp only [hgo,hbox,hvar,vizExprToBoolExpr,BoolExpr.eval,Box.value,mkPrettyVizName]
 · simp [hgo,hbox,hvar,vizExprToBoolExpr,Atom.labelled,Atom.number,boxLabel,
    mkPrettyVizName]
 · simp [hgo,hbox,hvar,vizExprToBoolExpr,Atom.number,mkPrettyVizName]
 · intro k hk
   have hv:isVariable (.app r [] ty)=true:=by simp [isVariable,htrue,hfalse]
   rw [hgo,hvar]
   simp only [sources,hv,if_true,leaves]
   exact ⟨_,List.mem_cons_self,Box.asks.inj (hbox.symm.trans hk)⟩

theorem asked_inert (txt:String) (ctx:InertContext) (n:ID) :
  Asked dr (.inert txt ctx) n := by
 have hgo:go dr (.inert txt ctx) n=(.inertE (n+1) txt (inertCtx ctx),n+1):=by rw [go]
 refine asked_atom ⟨.const (ctx ≠ .inertCtxOr),.inert txt ctx⟩ rfl rfl rfl (fun σ=>?_) ?_ ?_
  (List.Sublist.refl _) (by simp)
 all_goals rw [hgo]
 all_goals cases ctx <;> rfl

theorem asked_go (e:RExpr) (n:ID) : impliesFree e=true → Asked dr e n := by
 cases e with
 | not e1=>
  intro h
  obtain ⟨f,hf⟩:=asked_go e1 (n+1) h
  simp only [Asked,go_not,vizExprToBoolExpr,leaves,sources]
  refine ⟨.not f,by rw [TransformFormulas.fill,hf.fill],hf.whole,hf.fits,fun σ=>?_,
   hf.labels,hf.order,hf.own,hf.drawn⟩
  simp only [BoolExpr.eval,Formula.eval,hf.value]
 | and e1 e2=>
  exact fun h=>asked_join .conjunction e1 e2 fun x hx m=>
   asked_go x m (impliesFree_scan .conjunction h x hx)
 | or e1 e2=>
  exact fun h=>asked_join .disjunction e1 e2 fun x hx m=>
   asked_go x m (impliesFree_scan .disjunction h x hx)
 | where_ e1 ds=>
  intro h
  have hgo:go dr (.where_ e1 ds) n=go dr e1 n:=by rw [go]
  obtain ⟨f,hf⟩:=asked_go e1 n h
  simp only [Asked,hgo,sources]
  exact ⟨.within f ds,by rw [TransformFormulas.fill,hf.fill],hf.whole,hf.fits,hf.value,
   hf.labels,hf.order,hf.own,hf.drawn⟩
 | implies e1 e2=>exact fun h=>by cases h
 | inert txt ctx=>exact fun _=>asked_inert txt ctx n
 | app r args ty=>
  cases args with
  | nil=>exact fun _=>asked_name r ty n
  | cons a args=>
   intro _
   by_cases hall:(Expr.app r (a::args) ty::a::args).all dr.hasBooleanType=true
   · have hgo:vizExprToBoolExpr (go dr (.app r (a::args) ty) n).1 =
       (.bVar (n+1),[(n+1,dr.prettyExpr (.app r (a::args) ty))],[n+1]) := by
      rw [go_app,if_pos hall]
      rfl
     refine asked_atom ⟨.asks (n+1),.app r (a::args) ty⟩ rfl rfl ⟨_,rfl⟩ (fun σ=>?_)
      ?_ ?_ ?_ fun k hk=>?_
     · rw [hgo]
       rfl
     · rw [hgo]
       rfl
     · rw [hgo]
       rfl
     · simp only [numbersOf,if_pos hall]
       exact List.singleton_sublist.2 List.mem_cons_self
     · simp only [go_app,if_pos hall,leaves,sources]
       exact ⟨_,List.mem_cons_self,Box.asks.inj hk⟩
   · exact asked_leaf _ n (by rw [go_app,if_neg hall]) rfl rfl (fun k=>⟨k,rfl⟩) rfl
      (by simp only [numbersOf,if_neg hall]) (by simp only [sources,if_neg hall])
 | _=>
  exact fun _=>asked_leaf _ n (by simp only [go]) rfl rfl (fun k=>⟨k,rfl⟩) rfl rfl rfl
termination_by sizeOf e
decreasing_by
 · exact sizeOf_scanAnd_lt hx
 · exact sizeOf_scanOr_lt hx
 · simp
 · simp only [Expr.where_.sizeOf_spec]
   omega

end Questions

section Lists
variable {A B:Type}

theorem eq_of_filterMap {g:A → Option B} {l:List A} (h:(l.filterMap g).Nodup) {a b:A}
  (ha:a ∈ l) (hb:b ∈ l) {k:B} (hka:g a=some k) (hkb:g b=some k) : a=b := by
 induction l with
 | nil=>cases ha
 | cons c l ih=>
  have later:∀ d ∈ l, g d=some k → g c ≠ some k:=by
   intro d hd hkd hkc
   rw [List.filterMap_cons,hkc] at h
   exact (List.nodup_cons.1 h).1 (List.mem_filterMap.2 ⟨d,hd,hkd⟩)
  have hl:(l.filterMap g).Nodup:=by
   rw [List.filterMap_cons] at h
   split at h
   · exact h
   · exact (List.nodup_cons.1 h).2
  rcases List.mem_cons.1 ha with hac | ha
  · rcases List.mem_cons.1 hb with hbc | hb
    · rw [hac,hbc]
    · exact absurd (hac ▸ hka) (later b hb hkb)
  · rcases List.mem_cons.1 hb with hbc | hb
    · exact absurd (hbc ▸ hkb) (later a ha hka)
    · exact ih hl ha hb

end Lists

/-- The numbers of a rule's variables are apart, and each variable is written with one name. -/
structure Named (dr:Drawer) (e:RExpr) : Prop extends ApartNumbers dr e 1 where
 oneName : ∀ r1 ty1 r2 ty2, Expr.app r1 [] ty1 ∈ sources dr e → .app r2 [] ty2 ∈ sources dr e →
  r1.getUnique=r2.getUnique → r1.getOriginal=r2.getOriginal

section Asked
variable {dr:Drawer} {e:RExpr} {value:(ID → Bool) → Bool} {labels:List (ID × String)}
 {order:List ID} {boxes:List (VName × RExpr)} {f:Formula Atom Scope}

theorem Asks.nodup_own (h:Asks dr none e 1 value labels order boxes f) :
  (f.atoms.filterMap Atom.ownNumber).Nodup :=
 ((@numbersOf_between dr none e 1).1.imp fun hlt=>hlt.ne).sublist h.own

variable {a:Atom} {r:Resolved} {k:ID}

theorem fits_name (h:Fits a) {ty:Option (Type' Resolved)}
  (hs:a.source = .app r [] ty) : a.box=nameBox r := by
 obtain ⟨b,src⟩:=a
 dsimp only at hs
 subst hs
 exact h

theorem nameBox_asks (h:nameBox r = .asks k) :
  k=r.getUnique.unique := by
 unfold nameBox at h
 split at h
 · cases h
 · split at h
   · cases h
   · exact (Box.asks.inj h).symm

theorem exists_of_isName {src:RExpr} (h:isName src=true) :
  ∃ r ty, src = .app r [] ty := by
 cases src with
 | app r args ty=>
  cases args with
  | nil=>exact ⟨r,ty,rfl⟩
  | cons a args=>cases h
 | _=>cases h

theorem ownNumber_of_not_isName (h:isName a.source=false)
  (hk:a.box = .asks k) : a.ownNumber=some k := by
 simp only [Atom.ownNumber,h,Bool.false_eq_true,if_false,Atom.number,hk]

theorem Asks.same (h:Asks dr none e 1 value labels order boxes f) (hn:Named dr e)
  (hboxes:∀ p ∈ boxes, p.2 ∈ sources dr e) {b:Atom} (ha:a ∈ f.atoms) (hb:b ∈ f.atoms) (hka:a.box = .asks k)
  (hkb:b.box = .asks k) :
  (a=b ∧ isName a.source=false) ∨ ∃ r1 ty1 r2 ty2, a.source = .app r1 [] ty1 ∧
   b.source = .app r2 [] ty2 ∧ r1.getUnique=r2.getUnique ∧
   r1.getOriginal=r2.getOriginal := by
 have apart:∀ a ∈ f.atoms, ∀ b ∈ f.atoms, a.box = .asks k → b.box = .asks k →
   isName a.source=true → isName b.source=true := by
  intro a ha b hb hka hkb hname
  by_contra hne
  obtain ⟨r,ty,hs⟩:=exists_of_isName hname
  obtain ⟨nm,hnm,-⟩:=h.drawn a ha k hka
  have hmem:=hboxes _ hnm
  rw [hs] at hmem
  have hk:=nameBox_asks ((fits_name (h.fits a ha) hs).symm.trans hka)
  refine hn.others r ty hmem (h.own.subset (List.mem_filterMap.2 ⟨b,hb, ?_⟩))
  rw [←hk]
  exact ownNumber_of_not_isName (by simpa using hne) hkb
 cases hname:isName a.source with
 | false=>
  have hname' : isName b.source=false:=by
   by_contra htrue
   rw [apart b hb a ha hkb hka (by simpa using htrue)] at hname
   cases hname
  exact .inl ⟨eq_of_filterMap h.nodup_own ha hb (ownNumber_of_not_isName hname hka)
   (ownNumber_of_not_isName hname' hkb),rfl⟩
 | true=>
  obtain ⟨r1,ty1,hs1⟩:=exists_of_isName hname
  obtain ⟨r2,ty2,hs2⟩:=exists_of_isName (apart a ha b hb hka hkb hname)
  obtain ⟨nm1,hnm1,-⟩:=h.drawn a ha k hka
  obtain ⟨nm2,hnm2,-⟩:=h.drawn b hb k hkb
  have h1:=hboxes _ hnm1
  have h2:=hboxes _ hnm2
  rw [hs1] at h1
  rw [hs2] at h2
  have hk1:=nameBox_asks ((fits_name (h.fits a ha) hs1).symm.trans hka)
  have hk2:=nameBox_asks ((fits_name (h.fits b hb) hs2).symm.trans hkb)
  have hu:=hn.names r1 ty1 r2 ty2 h1 h2 (hk1.symm.trans hk2)
  exact .inr ⟨r1,ty1,r2,ty2,hs1,hs2,hu,hn.oneName r1 ty1 r2 ty2 h1 h2 hu⟩

theorem Atom.number_eq : a.number=some k ↔ a.box = .asks k := by
 unfold Atom.number
 cases a.box with
 | const b=>simp
 | asks j=>simp

theorem mem_labels {lbl:String} :
  (k,lbl) ∈ f.atoms.filterMap (Atom.labelled dr) ↔
   ∃ a ∈ f.atoms, a.box = .asks k ∧ boxLabel dr a.source=lbl := by
 simp only [List.mem_filterMap,Atom.labelled,Option.map_eq_some_iff,Atom.number_eq,
  Prod.mk.injEq]
 constructor
 · rintro ⟨a,ha,k', hk,rfl,rfl⟩
   exact ⟨a,ha,hk,rfl⟩
 · rintro ⟨a,ha,hk,rfl⟩
   exact ⟨a,ha,k,hk,rfl,rfl⟩

end Asked

end L4Ide.LadderQuestions
