import L4Ide.EditorQueryPlan

set_option autoImplicit false

/-!
# Query plans of simplified ladders

A rule is settled by the same answers whether or not its ladder was simplified first. What is
needed without simplification is needed with it, and nothing else unless a box was copied.
-/
namespace L4Ide.EditorQueryPlanSimplified
open Syntax Transform Ladder LadderAtoms EditorQueryPlan EditorQueryPlanAnswers
open FormulaCopies TransformFormulas LadderQuestions

def wholes : RExpr → List RExpr
 | .not e=>wholes e
 | .and e1 e2 | .or e1 e2=>wholes e1 ++ wholes e2
 | .where_ e _=>wholes e
 | e=>[e]

def isExpression : RExpr → Bool
 | .app _ [] _=>false
 | .inert _ _=>false
 | _=>true

/-- Simplification copies no expression. -/
def uncopied (body:RExpr) : Bool :=
 (wholes (simplify body)).countP isExpression=(wholes body).countP isExpression

theorem wholes_fill {A:Type} {φ:A → RExpr} (f:Formula A Scope)
  (hf:∀ a ∈ f.atoms, isConnective (φ a)=false) : wholes (fill φ f)=f.atoms.map φ := by
 induction f with
 | atom a=>
  have ha:=hf a List.mem_cons_self
  rw [fill,Formula.atoms,List.map_singleton]
  revert ha
  cases φ a <;> first | exact fun _=>rfl | exact fun h=>by cases h
 | not f ih=>exact ih hf
 | and f g ihf ihg=>
  rw [fill,wholes,ihf fun a ha=>hf a (List.mem_append_left _ ha),
   ihg fun a ha=>hf a (List.mem_append_right _ ha),Formula.atoms,List.map_append]
 | or f g ihf ihg=>
  rw [fill,wholes,ihf fun a ha=>hf a (List.mem_append_left _ ha),
   ihg fun a ha=>hf a (List.mem_append_right _ ha),Formula.atoms,List.map_append]
 | within f ds ih=>exact ih hf

theorem impliesFree_fill {A:Type} {φ:A → RExpr} (f:Formula A Scope)
  (hf:∀ a ∈ f.atoms, isConnective (φ a)=false) : impliesFree (fill φ f)=true := by
 induction f with
 | atom a=>
  have ha:=hf a List.mem_cons_self
  rw [fill]
  revert ha
  cases φ a <;> first | exact fun _=>rfl | exact fun h=>by cases h
 | not f ih=>exact ih hf
 | and f g ihf ihg=>
  rw [fill,impliesFree,ihf fun a ha=>hf a (List.mem_append_left _ ha),
   ihg fun a ha=>hf a (List.mem_append_right _ ha),Bool.and_self]
 | or f g ihf ihg=>
  rw [fill,impliesFree,ihf fun a ha=>hf a (List.mem_append_left _ ha),
   ihg fun a ha=>hf a (List.mem_append_right _ ha),Bool.and_self]
 | within f ds ih=>exact ih hf

theorem impliesFree_simplify {dr:Drawer} {pl:Planner} {body:RExpr}
  {c:CachedDecisionQuery} {f:Formula Atom Scope} (h:Queried dr pl body c f) :
  impliesFree (simplify body)=true := by
 obtain ⟨g,hfill,hg⟩:=simplify_fill f h.whole
 rw [h.fill] at hfill
 rw [hfill]
 exact impliesFree_fill g (hg.whole h.whole)

/-- Boxes of one expression are alike, but for the numbers of other expressions than names. -/
theorem box_of_fits {a b:Atom} (ha:Fits a) (hb:Fits b) (h:a.source=b.source) :
  (a.box=b.box ∧ isExpression a.source=false) ∨
   isExpression a.source=true ∧ ∃ k k', a.box = .asks k ∧ b.box = .asks k' := by
 obtain ⟨box,src⟩:=a
 obtain ⟨box', src'⟩:=b
 dsimp only at h
 subst h
 have other:isExpression src=true → (∃ k, box = .asks k) → (∃ k', box' = .asks k') →
   (box=box' ∧ isExpression src=false) ∨
    isExpression src=true ∧ ∃ k k', box = .asks k ∧ box' = .asks k' :=
  fun hsrc ⟨k,hk⟩ ⟨k', hk'⟩=>.inr ⟨hsrc,k,k', hk,hk'⟩
 cases src with
 | app r args ty=>
  cases args with
  | nil=>exact .inl ⟨Eq.trans ha (Eq.symm hb),rfl⟩
  | cons x args=>exact other rfl ha hb
 | inert txt ctx=>exact .inl ⟨Eq.trans ha (Eq.symm hb),rfl⟩
 | _=>exact other rfl ha hb

theorem isName_of_isExpression {e:RExpr} (h:isExpression e=true) : isName e=false := by
 cases e with
 | app r args ty=>
  cases args with
  | nil=>cases h
  | cons a args=>rfl
 | _=>rfl

section Pair
variable {dr:Drawer} {pl:Planner} {body:RExpr} {c c' : CachedDecisionQuery}
 {f f' : Formula Atom Scope}

theorem nodup_filter_of_filterMap {A B:Type} {g:A → Option B} {P:A → Bool} {l:List A}
  (h:(l.filterMap g).Nodup) (hP:∀ a ∈ l, P a=true → (g a).isSome=true) :
  (l.filter P).Nodup := by
 induction l with
 | nil=>exact List.nodup_nil
 | cons a l ih=>
  have hl:(l.filterMap g).Nodup:=by
   rw [List.filterMap_cons] at h
   split at h
   · exact h
   · exact (List.nodup_cons.1 h).2
  have hrest:=ih hl fun b hb=>hP b (List.mem_cons_of_mem _ hb)
  by_cases ha:P a=true
  · rw [List.filter_cons_of_pos ha]
    refine List.nodup_cons.2 ⟨fun hmem=>?_,hrest⟩
    obtain ⟨k,hk⟩:=Option.isSome_iff_exists.1 (hP a List.mem_cons_self ha)
    rw [List.filterMap_cons,hk] at h
    exact (List.nodup_cons.1 h).1 (List.mem_filterMap.2 ⟨a,(List.mem_filter.1 hmem).1,hk⟩)
  · rw [List.filter_cons_of_neg ha]
    exact hrest

theorem eq_of_box {e:RExpr} (h:Queried dr pl e c f) {a b:Atom} (ha:a ∈ f.atoms) (hb:b ∈ f.atoms) {k:ID}
  (hk:a.box = .asks k) (hk' : b.box = .asks k) (hsrc:isExpression a.source=true) :
  a=b := by
 rcases h.same a ha b hb k hk hk' with ⟨heq,-⟩ | ⟨r1,ty1,r2,ty2,h1,-⟩
 · exact heq
 · rw [h1] at hsrc
   cases hsrc

theorem ownNumber_of_isExpression {a:Atom} (hsrc:isExpression a.source=true) {k:ID}
  (hk:a.box = .asks k) : a.ownNumber=some k :=
 ownNumber_of_not_isName (isName_of_isExpression hsrc) hk

/-- The atoms of a rule's ladder, each paired with a copy in the simplified ladder. -/
structure Paired (f f' : Formula Atom Scope) (t:Formula (Atom × Atom) Scope) : Prop where
 rewrites : Rewrites f (t.map Prod.fst)
 snd : t.map Prod.snd=f'
 source : ∀ p ∈ t.atoms, p.1.source=p.2.source

theorem exists_paired (h:Queried dr pl body c f) (h' : Queried dr pl (simplify body) c' f') :
  ∃ t, Paired f f' t := by
 obtain ⟨g,hfill,hg⟩:=simplify_fill f h.whole
 rw [h.fill] at hfill
 obtain ⟨t,hfst,hsnd,hsource⟩:=exists_pairing g f' (hg.whole h.whole) h'.whole
  (hfill.symm.trans h'.fill.symm)
 exact ⟨t,hfst ▸ hg,hsnd,hsource⟩

variable (h:Queried dr pl body c f) (h' : Queried dr pl (simplify body) c' f')
 {t:Formula (Atom × Atom) Scope} (ht:Paired f f' t)

section Members
include ht

theorem Paired.mem_fst {p:Atom × Atom} (hp:p ∈ t.atoms) : p.1 ∈ f.atoms := by
 have hmem:p.1 ∈ (t.map Prod.fst).atoms:=by
  rw [Formula.atoms_map]
  exact List.mem_map_of_mem hp
 rw [←Formula.atoms_of_literals _ true] at hmem ⊢
 obtain ⟨l,hl,heq⟩:=List.mem_map.1 hmem
 exact List.mem_map.2 ⟨l,(ht.rewrites.literals true l).1 hl,heq⟩

theorem Paired.exists_fst {a:Atom} (ha:a ∈ f.atoms) : ∃ p ∈ t.atoms, p.1=a := by
 rw [←f.atoms_of_literals true] at ha
 obtain ⟨l,hl,rfl⟩:=List.mem_map.1 ha
 have hmem:=List.mem_map_of_mem (f := Prod.fst) ((ht.rewrites.literals true l).2 hl)
 rw [Formula.atoms_of_literals,Formula.atoms_map] at hmem
 obtain ⟨p,hp,heq⟩:=List.mem_map.1 hmem
 exact ⟨p,hp,heq⟩

theorem Paired.mem_snd {p:Atom × Atom} (hp:p ∈ t.atoms) : p.2 ∈ f'.atoms := by
 rw [←ht.snd,Formula.atoms_map]
 exact List.mem_map_of_mem hp

theorem Paired.exists_snd {b:Atom} (hb:b ∈ f'.atoms) : ∃ p ∈ t.atoms, p.2=b := by
 rw [←ht.snd,Formula.atoms_map] at hb
 exact List.mem_map.1 hb

theorem Paired.eval_fst (σ:ID → Bool) :
  (t.eval fun p=>p.1.box.value σ)=f.eval fun a=>a.box.value σ := by
 rw [←ht.rewrites.eval,Formula.eval_map]

theorem Paired.eval_snd (σ:ID → Bool) :
  (t.eval fun p=>p.2.box.value σ)=f'.eval fun a=>a.box.value σ := by
 rw [←ht.snd,Formula.eval_map]

end Members

include h h' ht

theorem Paired.box {p:Atom × Atom} (hp:p ∈ t.atoms) :
  (p.1.box=p.2.box ∧ isExpression p.1.source=false) ∨
   isExpression p.1.source=true ∧ ∃ k k', p.1.box = .asks k ∧ p.2.box = .asks k' :=
 box_of_fits (h.fits _ (ht.mem_fst hp)) (h'.fits _ (ht.mem_snd hp)) (ht.source p hp)

theorem Paired.exists_asks {p:Atom × Atom} (hp:p ∈ t.atoms) :
  (∃ k, p.1.box = .asks k) ↔ ∃ k, p.2.box = .asks k := by
 rcases ht.box h h' hp with ⟨heq,-⟩ | ⟨-,k,k', hk,hk'⟩
 · rw [heq]
 · exact ⟨fun _=>⟨k', hk'⟩,fun _=>⟨k,hk⟩⟩

theorem Paired.sameSources : SameSources f f' := by
 intro e
 constructor
 · rintro ⟨a,ha,k,hk,rfl⟩
   obtain ⟨p,hp,rfl⟩:=ht.exists_fst ha
   obtain ⟨k', hk'⟩:=(ht.exists_asks h h' hp).1 ⟨k,hk⟩
   exact ⟨p.2,ht.mem_snd hp,k', hk', (ht.source p hp).symm⟩
 · rintro ⟨b,hb,k,hk,rfl⟩
   obtain ⟨p,hp,rfl⟩:=ht.exists_snd hb
   obtain ⟨k', hk'⟩:=(ht.exists_asks h h' hp).2 ⟨k,hk⟩
   exact ⟨p.1,ht.mem_fst hp,k', hk', ht.source p hp⟩

theorem Paired.copies {bindings:List (String × Bool)} (hkeys:∀ q ∈ bindings, ByLabel pl c q.1) :
  Copies (fun p:Atom × Atom=>p.1.box) (fun p=>p.2.box) (known pl c bindings)
   (known pl c' bindings) t := by
 refine ⟨fun p hp=>?_,fun p hp q hq heq=>?_⟩
 · have hbound:∀ k k', p.1.box = .asks k → p.2.box = .asks k' →
     known pl c bindings k=known pl c' bindings k' := by
    intro k k' hk hk'
    exact known_congr fun q hq=>(ht.sameSources h h').keyed_iff h.entered h'.entered
     (hkeys q hq) (ht.mem_fst hp) (ht.mem_snd hp) (ht.source p hp) hk hk'
   cases hbox:p.1.box with
   | const b=>
    rcases ht.box h h' hp with ⟨heq,-⟩ | ⟨-,k,k', hk,-⟩
    · exact .inl ⟨b,rfl,heq ▸ hbox⟩
    · rw [hbox] at hk
      cases hk
   | asks k=>
    obtain ⟨k', hk'⟩:=(ht.exists_asks h h' hp).1 ⟨k,hbox⟩
    exact .inr ⟨k,k', rfl,hk', hbound k k' hbox hk'⟩
 · have atExpression:∀ p ∈ t.atoms, ∀ q ∈ t.atoms, p.2.box=q.2.box →
     isExpression p.1.source=true → p=q := by
    intro p hp q hq heq hsrc
    obtain ⟨-,k,k', -,hk'⟩:=(ht.box h h' hp).resolve_left fun hno=>by
     rw [hsrc] at hno
     cases hno.2
    have hsrc' : isExpression p.2.source=true:=by rwa [←ht.source p hp]
    have h2:p.2=q.2:=
     eq_of_box h' (ht.mem_snd hp) (ht.mem_snd hq) hk' (heq ▸ hk') hsrc'
    have hnodup:(t.atoms.filterMap fun p=>p.2.ownNumber).Nodup:=by
     have hown:=h'.own
     rw [←ht.snd,Formula.atoms_map,List.filterMap_map] at hown
     exact hown
    refine eq_of_filterMap hnodup hp hq (ownNumber_of_isExpression hsrc' hk') ?_
    rw [←h2]
    exact ownNumber_of_isExpression hsrc' hk'
   rcases ht.box h h' hp with ⟨hpp,-⟩ | ⟨hsrc,-⟩
   · rcases ht.box h h' hq with ⟨hqq,-⟩ | ⟨hsrc,-⟩
     · exact (hpp.trans heq).trans hqq.symm
     · rw [atExpression q hq p hp heq.symm hsrc]
   · rw [atExpression p hp q hq heq hsrc]

theorem Paired.oneSigned :
  OneSigned (fun p:Atom × Atom=>p.1.box) (fun p=>p.2.box) t := by
 intro l hl l' hl' heq hne
 have mem:∀ l ∈ t.literals true, l.1 ∈ t.atoms:=by
  intro l hl
  rw [←t.atoms_of_literals true]
  exact List.mem_map_of_mem hl
 have atExpression:∀ l ∈ t.literals true, ∀ l' ∈ t.literals true, l.1.1.box=l'.1.1.box →
   isExpression l.1.1.source=true → l.2=l'.2 := by
  intro l hl l' hl' heq hsrc
  have hp:=mem l hl
  obtain ⟨-,k,k', hk,-⟩:=(ht.box h h' hp).resolve_left fun hno=>by
   rw [hsrc] at hno
   cases hno.2
  have h1:l.1.1=l'.1.1:=
   eq_of_box h (ht.mem_fst hp) (ht.mem_fst (mem l' hl')) hk (heq ▸ hk) hsrc
  have hnodup:((f.literals true).filterMap fun l=>l.1.ownNumber).Nodup:=by
   have hown:=h.own
   rw [←f.atoms_of_literals true,List.filterMap_map] at hown
   exact hown
  have written:∀ l ∈ t.literals true, (l.1.1,l.2) ∈ f.literals true:=by
   intro l hl
   rw [←ht.rewrites.literals true,Formula.literals_map]
   exact List.mem_map_of_mem hl
  have hown:=ownNumber_of_isExpression hsrc hk
  have hsame:=eq_of_filterMap hnodup (written l hl) (written l' hl') hown
   (show (l'.1.1).ownNumber=some k by rw [←h1]; exact hown)
  exact (Prod.mk.inj hsame).2
 rcases ht.box h h' (mem l hl) with ⟨hpp,-⟩ | ⟨hsrc,-⟩
 · rcases ht.box h h' (mem l' hl') with ⟨hqq,-⟩ | ⟨hsrc,-⟩
   · exact (hpp.symm.trans heq).trans hqq
   · exact absurd (atExpression l' hl' l hl heq.symm hsrc).symm hne
 · exact absurd (atExpression l hl l' hl' heq hsrc) hne

theorem Paired.copy_unique (huncopied:uncopied body=true) :
  ∀ p ∈ t.atoms, ∀ q ∈ t.atoms, p.1.box=q.1.box → p.2.box=q.2.box := by
 have hcount:(t.atoms.filter fun p=>isExpression p.1.source).length =
   (f.atoms.filter fun a=>isExpression a.source).length := by
  have hbody:wholes body=f.atoms.map Atom.source:=by
   rw [←h.fill]
   exact wholes_fill f h.whole
  have hsimplified:wholes (simplify body)=t.atoms.map fun p=>p.1.source:=by
   rw [←h'.fill,wholes_fill f' h'.whole,←ht.snd,Formula.atoms_map,List.map_map]
   exact List.map_congr_left fun p hp=>(ht.source p hp).symm
  have heq:=of_decide_eq_true huncopied
  rw [hbody,hsimplified,List.countP_map,List.countP_map,List.countP_eq_length_filter,
   List.countP_eq_length_filter] at heq
  exact heq
 have hnodup:(f.atoms.filter fun a=>isExpression a.source).Nodup:=by
  refine nodup_filter_of_filterMap h.own fun a ha hsrc=>?_
  obtain ⟨-,k,-,hk,-⟩:=(box_of_fits (h.fits a ha) (h.fits a ha) rfl).resolve_left
   fun hno=>by
    rw [hsrc] at hno
    cases hno.2
  rw [ownNumber_of_isExpression hsrc hk]
  rfl
 have hperm:(f.atoms.filter fun a=>isExpression a.source).Perm
   ((t.atoms.filter fun p=>isExpression p.1.source).map Prod.fst) := by
  refine (hnodup.subperm fun a ha=>?_).perm_of_length_le (by rw [List.length_map,hcount])
  obtain ⟨ha,hsrc⟩:=List.mem_filter.1 ha
  obtain ⟨p,hp,rfl⟩:=ht.exists_fst ha
  exact List.mem_map_of_mem (List.mem_filter.2 ⟨hp,hsrc⟩)
 intro p hp q hq heq
 have atExpression:∀ p ∈ t.atoms, ∀ q ∈ t.atoms, p.1.box=q.1.box →
   isExpression p.1.source=true → p=q := by
  intro p hp q hq heq hsrc
  obtain ⟨-,k,k', hk,-⟩:=(ht.box h h' hp).resolve_left fun hno=>by
   rw [hsrc] at hno
   cases hno.2
  have h1:p.1=q.1:=eq_of_box h (ht.mem_fst hp) (ht.mem_fst hq) hk (heq ▸ hk) hsrc
  exact List.inj_on_of_nodup_map (hperm.nodup_iff.1 hnodup)
   (List.mem_filter.2 ⟨hp,hsrc⟩) (List.mem_filter.2 ⟨hq,h1 ▸ hsrc⟩) h1
 rcases ht.box h h' hp with ⟨hpp,-⟩ | ⟨hsrc,-⟩
 · rcases ht.box h h' hq with ⟨hqq,-⟩ | ⟨hsrc,-⟩
   · exact (hpp.symm.trans heq).trans hqq
   · rw [atExpression q hq p hp heq.symm hsrc]
 · rw [atExpression p hp q hq heq hsrc]

end Pair

section Contested

def namingDrawer : Drawer := ⟨nameToText,fun _=> "x > 18",fun _=>true⟩

def plainPlanner : Planner where
 paramsByUnique:=[]
 variableRefs u := {⟨u.unique,[]⟩}
 exprRefs _ := ∅
 stableAtomId lbl _ := lbl
 readUnique _ := none

def paidName : Resolved := .def_ ⟨'c', 40,"file:///rule.l4"⟩ ⟨.normalName "paid"⟩

def paid : RExpr := .app paidName [] none

def adult : RExpr := .gt (.app (checked 0) [] none) (.lit (.numericLit 18))

/-- Paid and not paid, or adult: it rests on the comparison only. -/
def contested : RExpr := .or (.and paid (.not paid)) adult

def contestedRule : Decide Resolved := .mkDecide ⟨[],none⟩ ⟨checked 100,[],none⟩ contested none

def contestedDecl (shouldSimplify:Bool) : FunDecl :=
 ⟨1,mkPrettyVizName namingDrawer (checked 100),
  (translateExpr namingDrawer shouldSimplify contested 1).1⟩

theorem simplify_contested :
  simplify contested = .and (.or paid adult) (.or (.not paid) adult) := by
 simp [contested,paid,adult,simplify,nnf,neg,cnf,distr]

theorem varOrConstant_paid (n:ID) :
  varOrConstant namingDrawer paidName n = .uBoolVar n ⟨40,"paid"⟩ := rfl

theorem prettyExpr_namingDrawer (e:RExpr) : namingDrawer.prettyExpr e = "x > 18" := rfl

theorem drawn_contested : (go namingDrawer contested 1).1 =
  .or_ 2 [.and_ 3 [.uBoolVar 4 ⟨40,"paid"⟩,.not_ 5 (.uBoolVar 6 ⟨40,"paid"⟩)],
   .uBoolVar 7 ⟨8,"x > 18"⟩] := by
 simp [contested,paid,adult,go_or,go_and,go_not,scanOr,scanAnd,Ladder.traverse,go,
  varOrConstant_paid,leafFromExpr,prettyExpr_namingDrawer]

theorem drawn_simplify_contested : (go namingDrawer (simplify contested) 1).1 =
  .and_ 2 [.or_ 3 [.uBoolVar 4 ⟨40,"paid"⟩,.uBoolVar 5 ⟨6,"x > 18"⟩],
   .or_ 7 [.not_ 8 (.uBoolVar 9 ⟨40,"paid"⟩),.uBoolVar 10 ⟨11,"x > 18"⟩]] := by
 rw [simplify_contested]
 simp [paid,adult,go_or,go_and,go_not,scanOr,scanAnd,Ladder.traverse,go,
  varOrConstant_paid,leafFromExpr,prettyExpr_namingDrawer]

theorem sources_simplify_contested :
  sources namingDrawer (simplify contested)=[paid,adult,paid,adult] := by
 rw [simplify_contested]
 rfl

theorem numbersOf_contested : numbersOf namingDrawer none contested 1=[8] := rfl

theorem numbersOf_simplify_contested :
  numbersOf namingDrawer none (simplify contested) 1=[6,11] := by
 rw [simplify_contested]
 rfl

theorem named_of_paid {e:RExpr}
  (hs:∀ r ty, Expr.app r [] ty ∈ sources namingDrawer e → r=paidName)
  (hn:(40 : ℤ) ∉ numbersOf namingDrawer none e 1) : Named namingDrawer e where
 names r1 ty1 r2 ty2 h1 h2 _ := by rw [hs r1 ty1 h1,hs r2 ty2 h2]
 others r ty h := by
  rw [hs r ty h]
  exact hn
 oneName r1 ty1 r2 ty2 h1 h2 _ := by rw [hs r1 ty1 h1,hs r2 ty2 h2]

theorem eq_paidName {es:List RExpr} (hes:∀ e ∈ es, e=paid ∨ e=adult) {r:Resolved}
  {ty:Option (Type' Resolved)} (h:Expr.app r [] ty ∈ es) : r=paidName := by
 rcases hes _ h with heq | heq
 · exact (Expr.app.inj heq).1
 · cases heq

theorem named_contested : Named namingDrawer contested :=
 named_of_paid (fun r ty h=>@eq_paidName [paid,paid,adult] (by simp) r ty h) (by
  rw [numbersOf_contested]
  decide)

theorem named_simplify_contested : Named namingDrawer (simplify contested) := by
 refine named_of_paid (fun r ty h=>?_) ?_
 · rw [sources_simplify_contested] at h
   exact eq_paidName (by simp) h
 · rw [numbersOf_simplify_contested]
   decide

theorem impliesFree_contested : impliesFree contested=true := rfl

theorem bodyDrawn_contested : bodyDrawn namingDrawer asWritten contestedRule = .ok contested := rfl

theorem translateDecide_contested (shouldSimplify:Bool) :
  translateDecide namingDrawer asWritten shouldSimplify contestedRule =
   .ok (contestedDecl shouldSimplify) := rfl

theorem exists_asks_paid {e:RExpr} {c:CachedDecisionQuery} {f:Formula Atom Scope}
  (h:Queried namingDrawer plainPlanner e c f) (hmem:paid ∈ wholes e) :
  ∃ a, (a ∈ f.atoms ∧ a.source=paid) ∧ a.box = .asks 40 := by
 rw [←h.fill,wholes_fill f h.whole] at hmem
 obtain ⟨a,ha,hs⟩:=List.mem_map.1 hmem
 exact ⟨a,⟨ha,hs⟩,fits_name (h.fits a ha) hs⟩

end Contested

end L4Ide.EditorQueryPlanSimplified
