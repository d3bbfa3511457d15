import L4Ide.Transform
import L4Ide.FormulaCopies

set_option autoImplicit false

/-!
# Normal forms of rule bodies as formulas

A body without implications is a formula over what it does not take apart. Its conjunctive normal
form is a formula of the same value over the same literals, perhaps copied.
-/
namespace L4Ide.TransformFormulas
open Syntax Transform FormulaCopies

abbrev Scope := List (LocalDecl Resolved)

def isConnective : RExpr → Bool
 | .not _ | .and _ _ | .or _ _ | .implies _ _ | .where_ _ _=>true
 | _=>false

/-- No implication among the connectives. -/
def impliesFree : RExpr → Bool
 | .not e=>impliesFree e
 | .and e1 e2 | .or e1 e2=>impliesFree e1 && impliesFree e2
 | .implies _ _=>false
 | .where_ e _=>impliesFree e
 | _=>true

section Fill
variable {A:Type} (φ:A → RExpr)

def fill : Formula A Scope → RExpr
 | .atom a=>φ a
 | .not f=>.not (fill f)
 | .and f g=>.and (fill f) (fill g)
 | .or f g=>.or (fill f) (fill g)
 | .within f ds=>.where_ (fill f) ds

variable {φ}

theorem exists_pairing {B:Type} {ψ:B → RExpr} (f:Formula A Scope) (g:Formula B Scope)
  (hf:∀ a ∈ f.atoms, isConnective (φ a)=false)
  (hg:∀ b ∈ g.atoms, isConnective (ψ b)=false) (heq:fill φ f=fill ψ g) :
  ∃ t : Formula (A × B) Scope, t.map Prod.fst=f ∧ t.map Prod.snd=g ∧
   ∀ p ∈ t.atoms, φ p.1=ψ p.2 := by
 induction f generalizing g with
 | atom a=>
  have ha:=hf a List.mem_cons_self
  cases g with
  | atom b=>
   refine ⟨.atom (a,b),rfl,rfl,fun p hp=>?_⟩
   rw [List.mem_singleton.1 hp]
   exact heq
  | _=>
   rw [fill] at heq
   rw [heq] at ha
   cases ha
 | not f ih=>
  cases g with
  | atom b=>
   have hb:=hg b List.mem_cons_self
   rw [show ψ b=fill ψ (.atom b) from rfl,←heq] at hb
   cases hb
  | not g=>
   obtain ⟨t,h1,h2,h⟩:=ih g hf hg (Expr.not.inj heq)
   exact ⟨.not t,congrArg Formula.not h1,congrArg Formula.not h2,h⟩
  | _=>cases heq
 | within f ds ih=>
  cases g with
  | atom b=>
   have hb:=hg b List.mem_cons_self
   rw [show ψ b=fill ψ (.atom b) from rfl,←heq] at hb
   cases hb
  | within g ds' =>
   obtain ⟨hbody,rfl⟩:=Expr.where_.inj heq
   obtain ⟨t,h1,h2,h⟩:=ih g hf hg hbody
   exact ⟨.within t ds,by rw [Formula.map,h1],by rw [Formula.map,h2],h⟩
  | _=>cases heq
 | and f f' ih ih' =>
  cases g with
  | atom b=>
   have hb:=hg b List.mem_cons_self
   rw [show ψ b=fill ψ (.atom b) from rfl,←heq] at hb
   cases hb
  | and g g' =>
   obtain ⟨heq1,heq2⟩:=Expr.and.inj heq
   obtain ⟨t,h1,h2,h⟩:=ih g (fun a ha=>hf a (List.mem_append_left _ ha))
    (fun b hb=>hg b (List.mem_append_left _ hb)) heq1
   obtain ⟨t', h1', h2', h'⟩:=ih' g' (fun a ha=>hf a (List.mem_append_right _ ha))
    (fun b hb=>hg b (List.mem_append_right _ hb)) heq2
   refine ⟨.and t t', by rw [Formula.map,h1,h1'],by rw [Formula.map,h2,h2'], ?_⟩
   exact fun p hp=>(List.mem_append.1 hp).elim (h p) (h' p)
  | _=>cases heq
 | or f f' ih ih' =>
  cases g with
  | atom b=>
   have hb:=hg b List.mem_cons_self
   rw [show ψ b=fill ψ (.atom b) from rfl,←heq] at hb
   cases hb
  | or g g' =>
   obtain ⟨heq1,heq2⟩:=Expr.or.inj heq
   obtain ⟨t,h1,h2,h⟩:=ih g (fun a ha=>hf a (List.mem_append_left _ ha))
    (fun b hb=>hg b (List.mem_append_left _ hb)) heq1
   obtain ⟨t', h1', h2', h'⟩:=ih' g' (fun a ha=>hf a (List.mem_append_right _ ha))
    (fun b hb=>hg b (List.mem_append_right _ hb)) heq2
   refine ⟨.or t t', by rw [Formula.map,h1,h1'],by rw [Formula.map,h2,h2'], ?_⟩
   exact fun p hp=>(List.mem_append.1 hp).elim (h p) (h' p)
  | _=>cases heq

structure Rewrites (f g:Formula A Scope) : Prop where
 eval : ∀ σ, g.eval σ=f.eval σ
 literals : ∀ p l, l ∈ g.literals p ↔ l ∈ f.literals p

theorem Rewrites.refl (f:Formula A Scope) : Rewrites f f := ⟨fun _=>rfl,fun _ _=>Iff.rfl⟩

variable {f g g' : Formula A Scope} {e e1 e2:RExpr}

theorem Rewrites.trans {h:Formula A Scope} (h1:Rewrites f g) (h2:Rewrites g h) :
  Rewrites f h :=
 ⟨fun σ=>(h2.eval σ).trans (h1.eval σ),fun p l=>(h2.literals p l).trans (h1.literals p l)⟩

theorem Rewrites.and {f' : Formula A Scope} (h:Rewrites f g) (h' : Rewrites f' g') :
  Rewrites (.and f f') (.and g g') where
 eval σ := by simp only [Formula.eval,h.eval,h'.eval]
 literals p l := by simp only [Formula.literals,List.mem_append,h.literals,h'.literals]

theorem Rewrites.or {f' : Formula A Scope} (h:Rewrites f g) (h' : Rewrites f' g') :
  Rewrites (.or f f') (.or g g') where
 eval σ := by simp only [Formula.eval,h.eval,h'.eval]
 literals p l := by simp only [Formula.literals,List.mem_append,h.literals,h'.literals]

theorem Rewrites.not (h:Rewrites f g) : Rewrites (.not f) (.not g) where
 eval σ := by simp only [Formula.eval,h.eval]
 literals p l := h.literals (!p) l

theorem Rewrites.within (h:Rewrites f g) (ds:Scope) :
  Rewrites (.within f ds) (.within g ds) :=
 ⟨h.eval,h.literals⟩

theorem neg_eq_not (h:isConnective e=false) : neg e = .not e := by
 cases e <;> first | rfl | cases h

theorem nnf_eq_self (h:isConnective e=false) : nnf e=e := by
 cases e <;> first | rfl | cases h

theorem cnf_eq_self (h:isConnective e=false) : cnf e=e := by
 cases e <;> rw [cnf] <;> intros <;> contradiction

theorem neg_fill (f:Formula A Scope) (hf:∀ a ∈ f.atoms, isConnective (φ a)=false) :
  ∃ g, neg (fill φ f)=fill φ g ∧ Rewrites (.not f) g := by
 induction f with
 | atom a=>exact ⟨.not (.atom a),neg_eq_not (hf a List.mem_cons_self),.refl _⟩
 | not f _=>
  exact ⟨f,rfl,fun σ=>by simp only [Formula.eval,Bool.not_not],
   fun p l=>by simp only [Formula.literals,Bool.not_not]⟩
 | and f f' ih ih' =>
  obtain ⟨g,h1,h⟩:=ih fun a ha=>hf a (List.mem_append_left _ ha)
  obtain ⟨g', h1', h'⟩:=ih' fun a ha=>hf a (List.mem_append_right _ ha)
  refine ⟨.or g g', by simp only [fill,neg,h1,h1'], ?_⟩
  exact ⟨fun σ=>by simp only [Formula.eval,h.eval,h'.eval,Bool.not_and],
   fun p l=>(h.or h').literals p l⟩
 | or f f' ih ih' =>
  obtain ⟨g,h1,h⟩:=ih fun a ha=>hf a (List.mem_append_left _ ha)
  obtain ⟨g', h1', h'⟩:=ih' fun a ha=>hf a (List.mem_append_right _ ha)
  refine ⟨.and g g', by simp only [fill,neg,h1,h1'], ?_⟩
  exact ⟨fun σ=>by simp only [Formula.eval,h.eval,h'.eval,Bool.not_or],
   fun p l=>(h.and h').literals p l⟩
 | within f ds ih=>
  obtain ⟨g,h1,h⟩:=ih hf
  exact ⟨.within g ds,by simp only [fill,neg,h1],h.eval,h.literals⟩

theorem Rewrites.whole (h:Rewrites f g) (hf:∀ a ∈ f.atoms, isConnective (φ a)=false) :
  ∀ a ∈ g.atoms, isConnective (φ a)=false := by
 intro a ha
 rw [←g.atoms_of_literals true] at ha
 obtain ⟨l,hl,rfl⟩:=List.mem_map.1 ha
 refine hf l.1 ?_
 rw [←f.atoms_of_literals true]
 exact List.mem_map_of_mem ((h.literals true l).1 hl)

theorem nnf_fill (f:Formula A Scope) (hf:∀ a ∈ f.atoms, isConnective (φ a)=false) :
  ∃ g, nnf (fill φ f)=fill φ g ∧ Rewrites f g := by
 induction f with
 | atom a=>exact ⟨.atom a,nnf_eq_self (hf a List.mem_cons_self),.refl _⟩
 | not f ih=>
  obtain ⟨g,h1,h⟩:=ih hf
  obtain ⟨g', h1', h'⟩:=neg_fill g (h.whole hf)
  exact ⟨g', by simp only [fill,nnf,h1,h1'],h.not.trans h'⟩
 | and f f' ih ih' =>
  obtain ⟨g,h1,h⟩:=ih fun a ha=>hf a (List.mem_append_left _ ha)
  obtain ⟨g', h1', h'⟩:=ih' fun a ha=>hf a (List.mem_append_right _ ha)
  exact ⟨.and g g', by simp only [fill,nnf,h1,h1'],h.and h'⟩
 | or f f' ih ih' =>
  obtain ⟨g,h1,h⟩:=ih fun a ha=>hf a (List.mem_append_left _ ha)
  obtain ⟨g', h1', h'⟩:=ih' fun a ha=>hf a (List.mem_append_right _ ha)
  exact ⟨.or g g', by simp only [fill,nnf,h1,h1'],h.or h'⟩
 | within f ds ih=>
  obtain ⟨g,h1,h⟩:=ih hf
  exact ⟨.within g ds,by simp only [fill,nnf,h1],h.within ds⟩

theorem Rewrites.or_and_left {a b e:Formula A Scope} (h:Rewrites (.or a e) g)
  (h' : Rewrites (.or b e) g') : Rewrites (.or (.and a b) e) (.and g g') where
 eval σ := by
  simp only [Formula.eval,h.eval,h'.eval,Bool.or_and_distrib_right]
 literals p l := by
  simp only [Formula.literals,List.mem_append,h.literals,h'.literals]
  tauto

theorem Rewrites.or_and_right {a b e:Formula A Scope} (h:Rewrites (.or e a) g)
  (h' : Rewrites (.or e b) g') : Rewrites (.or e (.and a b)) (.and g g') where
 eval σ := by
  simp only [Formula.eval,h.eval,h'.eval,Bool.or_and_distrib_left]
 literals p l := by
  simp only [Formula.literals,List.mem_append,h.literals,h'.literals]
  tauto

theorem distr_of_not_and (h1:∀ a b, e1 ≠ .and a b) (h2:∀ a b, e2 ≠ .and a b) :
  distr e1 e2 = .or e1 e2 := by
 rw [distr]
 · exact fun a b h=>h1 a b h
 · exact fun a b h=>h2 a b h

theorem distr_and_right {a b:RExpr} (h1:∀ a b, e1 ≠ .and a b) :
  distr e1 (.and a b) = .and (distr e1 a) (distr e1 b) := by
 rw [distr]
 exact fun a b h=>h1 a b h

theorem fill_ne_and (hf:∀ a ∈ f.atoms, isConnective (φ a)=false)
  (hand:∀ g g', f ≠ .and g g') : ∀ a b, fill φ f ≠ .and a b := by
 intro a b heq
 cases f with
 | and g g' =>exact hand g g' rfl
 | atom x=>
  have hx:=hf x List.mem_cons_self
  rw [show φ x = .and a b from heq] at hx
  cases hx
 | _=>cases heq

theorem distr_fill_right (f f' : Formula A Scope) (hf:∀ a b, fill φ f ≠ .and a b)
  (hf' : ∀ a ∈ f'.atoms, isConnective (φ a)=false) :
  ∃ g, distr (fill φ f) (fill φ f')=fill φ g ∧ Rewrites (.or f f') g := by
 have whole:(∀ g g', f' ≠ .and g g') →
   ∃ g, distr (fill φ f) (fill φ f')=fill φ g ∧ Rewrites (.or f f') g := fun hand=>
  ⟨.or f f', distr_of_not_and hf (fill_ne_and hf' hand),.refl _⟩
 induction f' with
 | and a b iha ihb=>
  have hfa:∀ x ∈ a.atoms, isConnective (φ x)=false:=
   fun x hx=>hf' x (List.mem_append_left _ hx)
  have hfb:∀ x ∈ b.atoms, isConnective (φ x)=false:=
   fun x hx=>hf' x (List.mem_append_right _ hx)
  obtain ⟨g,h1,h⟩:=iha hfa fun hand=>
   ⟨.or f a,distr_of_not_and hf (fill_ne_and hfa hand),.refl _⟩
  obtain ⟨g', h1', h'⟩:=ihb hfb fun hand=>
   ⟨.or f b,distr_of_not_and hf (fill_ne_and hfb hand),.refl _⟩
  exact ⟨.and g g', by simp only [fill,distr_and_right hf,h1,h1'],h.or_and_right h'⟩
 | atom x=>exact whole (by simp)
 | not x=>exact whole (by simp)
 | or x y=>exact whole (by simp)
 | within x d=>exact whole (by simp)

theorem distr_fill (f f' : Formula A Scope) (hf:∀ a ∈ f.atoms, isConnective (φ a)=false)
  (hf' : ∀ a ∈ f'.atoms, isConnective (φ a)=false) :
  ∃ g, distr (fill φ f) (fill φ f')=fill φ g ∧ Rewrites (.or f f') g := by
 induction f with
 | and a b iha ihb=>
  obtain ⟨g,h1,h⟩:=iha fun x hx=>hf x (List.mem_append_left _ hx)
  obtain ⟨g', h1', h'⟩:=ihb fun x hx=>hf x (List.mem_append_right _ hx)
  refine ⟨.and g g', ?_,h.or_and_left h'⟩
  simp only [fill]
  rw [distr,h1,h1']
 | atom x=>exact distr_fill_right _ f' (fill_ne_and hf (by simp)) hf'
 | not x=>exact distr_fill_right _ f' (fill_ne_and hf (by simp)) hf'
 | or x y=>exact distr_fill_right _ f' (fill_ne_and hf (by simp)) hf'
 | within x d=>exact distr_fill_right _ f' (fill_ne_and hf (by simp)) hf'

theorem Rewrites.and_assoc (f g h:Formula A Scope) :
  Rewrites (.and (.and f g) h) (.and f (.and g h)) where
 eval σ := by simp only [Formula.eval,Bool.and_assoc]
 literals p l := by simp only [Formula.literals,List.append_assoc]

theorem Rewrites.or_assoc (f g h:Formula A Scope) :
  Rewrites (.or (.or f g) h) (.or f (.or g h)) where
 eval σ := by simp only [Formula.eval,Bool.or_assoc]
 literals p l := by simp only [Formula.literals,List.append_assoc]

theorem cnf_and_of_ne (h:∀ a b, e1 ≠ .and a b) :
  cnf (.and e1 e2) = .and (cnf e1) (cnf e2) := by
 rw [cnf]
 exact fun a b heq=>h a b heq

theorem cnf_or_of_ne (h:∀ a b, e1 ≠ .or a b) :
  cnf (.or e1 e2)=distr (cnf e1) (cnf e2) := by
 rw [cnf]
 exact fun a b heq=>h a b heq

theorem fill_ne_or (hf:∀ a ∈ f.atoms, isConnective (φ a)=false)
  (hor:∀ g g', f ≠ .or g g') : ∀ a b, fill φ f ≠ .or a b := by
 intro a b heq
 cases f with
 | or g g' =>exact hor g g' rfl
 | atom x=>
  have hx:=hf x List.mem_cons_self
  rw [show φ x = .or a b from heq] at hx
  cases hx
 | _=>cases heq

theorem cnf_fill (f:Formula A Scope) (hf:∀ a ∈ f.atoms, isConnective (φ a)=false) :
  ∃ g, cnf (fill φ f)=fill φ g ∧ Rewrites f g := by
 cases f with
 | atom a=>exact ⟨.atom a,cnf_eq_self (hf a List.mem_cons_self),.refl _⟩
 | not f=>
  refine ⟨.not f, ?_,.refl _⟩
  simp only [fill]
  rw [cnf] <;> intros <;> contradiction
 | within f ds=>
  obtain ⟨g,h1,h⟩:=cnf_fill f hf
  refine ⟨.within g ds, ?_,h.within ds⟩
  simp only [fill]
  rw [cnf,h1]
 | and f f' =>
  have hl:∀ a ∈ f.atoms, isConnective (φ a)=false:=
   fun a ha=>hf a (List.mem_append_left _ ha)
  have hr:∀ a ∈ f'.atoms, isConnective (φ a)=false:=
   fun a ha=>hf a (List.mem_append_right _ ha)
  by_cases hand:∃ g g', f = .and g g'
  · obtain ⟨g,g', rfl⟩:=hand
    have hassoc:=Rewrites.and_assoc g g' f'
    obtain ⟨t,h1,h⟩:=cnf_fill (.and g (.and g' f')) (hassoc.whole hf)
    refine ⟨t, ?_,hassoc.trans h⟩
    simp only [fill] at h1 ⊢
    rw [cnf,h1]
  · obtain ⟨g,h1,h⟩:=cnf_fill f hl
    obtain ⟨g', h1', h'⟩:=cnf_fill f' hr
    refine ⟨.and g g', ?_,h.and h'⟩
    have hne:=fill_ne_and hl fun g g' heq=>hand ⟨g,g', heq⟩
    simp only [fill,cnf_and_of_ne hne,h1,h1']
 | or f f' =>
  have hl:∀ a ∈ f.atoms, isConnective (φ a)=false:=
   fun a ha=>hf a (List.mem_append_left _ ha)
  have hr:∀ a ∈ f'.atoms, isConnective (φ a)=false:=
   fun a ha=>hf a (List.mem_append_right _ ha)
  by_cases hor:∃ g g', f = .or g g'
  · obtain ⟨g,g', rfl⟩:=hor
    have hassoc:=Rewrites.or_assoc g g' f'
    obtain ⟨t,h1,h⟩:=cnf_fill (.or g (.or g' f')) (hassoc.whole hf)
    refine ⟨t, ?_,hassoc.trans h⟩
    simp only [fill] at h1 ⊢
    rw [cnf,h1]
  · obtain ⟨g,h1,h⟩:=cnf_fill f hl
    obtain ⟨g', h1', h'⟩:=cnf_fill f' hr
    obtain ⟨t,h2,ht⟩:=distr_fill g g' (h.whole hl) (h'.whole hr)
    refine ⟨t, ?_,(h.or h').trans ht⟩
    have hne:=fill_ne_or hl fun g g' heq=>hor ⟨g,g', heq⟩
    simp only [fill,cnf_or_of_ne hne,h1,h1', h2]
termination_by weight (fill φ f)
decreasing_by
 all_goals simp only [*,fill,weight]
 all_goals
  try have := weight_pos (fill φ g)
  omega

theorem simplify_fill (f:Formula A Scope) (hf:∀ a ∈ f.atoms, isConnective (φ a)=false) :
  ∃ g, simplify (fill φ f)=fill φ g ∧ Rewrites f g := by
 obtain ⟨g,h1,h⟩:=nnf_fill f hf
 obtain ⟨t,h2,ht⟩:=cnf_fill g (h.whole hf)
 exact ⟨t,by rw [simplify,h1,h2],h.trans ht⟩

end Fill

end L4Ide.TransformFormulas
