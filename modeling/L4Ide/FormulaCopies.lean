import Mathlib.Data.List.Basic
import Mathlib.Order.BooleanAlgebra.Basic
import Mathlib.Order.Lattice

set_option autoImplicit false

/-!
# Formulas whose atoms are copied

A formula is read twice, through the variables of its atoms and through copies of them. Where the
copies of a variable that occurs with both signs are one, the two readings are settled together,
and what the formula depends on, its copies depend on.
-/
namespace L4Ide.FormulaCopies

inductive Formula (A D:Type) where
 | atom (a:A)
 | not (f:Formula A D)
 | and (f g:Formula A D)
 | or (f g:Formula A D)
 | within (f:Formula A D) (d:D)

section Formulas
variable {A B D:Type}

@[simp]
def Formula.eval (σ:A → Bool) : Formula A D → Bool
 | .atom a=>σ a
 | .not f=>!f.eval σ
 | .and f g=>f.eval σ && g.eval σ
 | .or f g=>f.eval σ || g.eval σ
 | .within f _=>f.eval σ

@[simp]
def Formula.atoms : Formula A D → List A
 | .atom a=>[a]
 | .not f=>f.atoms
 | .and f g | .or f g=>f.atoms ++ g.atoms
 | .within f _=>f.atoms

/-- The atoms, each with the sign that it occurs with. -/
@[simp]
def Formula.literals (p:Bool) : Formula A D → List (A × Bool)
 | .atom a=>[(a,p)]
 | .not f=>f.literals !p
 | .and f g | .or f g=>f.literals p ++ g.literals p
 | .within f _=>f.literals p

@[simp]
def Formula.map (φ:A → B) : Formula A D → Formula B D
 | .atom a=>.atom (φ a)
 | .not f=>.not (f.map φ)
 | .and f g=>.and (f.map φ) (g.map φ)
 | .or f g=>.or (f.map φ) (g.map φ)
 | .within f d=>.within (f.map φ) d

theorem Formula.eval_map (φ:A → B) (σ:B → Bool) (f:Formula A D) :
  (f.map φ).eval σ=f.eval fun a=>σ (φ a) := by
 induction f with
 | atom a=>rfl
 | not f ih=>exact congrArg Bool.not ih
 | and f g ihf ihg=>simp only [Formula.map,Formula.eval,ihf,ihg]
 | or f g ihf ihg=>simp only [Formula.map,Formula.eval,ihf,ihg]
 | within f d ih=>exact ih

theorem Formula.atoms_map (φ:A → B) (f:Formula A D) : (f.map φ).atoms=f.atoms.map φ := by
 induction f with
 | atom a=>rfl
 | not f ih=>exact ih
 | and f g ihf ihg=>simp only [Formula.map,Formula.atoms,ihf,ihg,List.map_append]
 | or f g ihf ihg=>simp only [Formula.map,Formula.atoms,ihf,ihg,List.map_append]
 | within f d ih=>exact ih

theorem Formula.literals_map (φ:A → B) (f:Formula A D) (p:Bool) :
  (f.map φ).literals p=(f.literals p).map fun l=>(φ l.1,l.2) := by
 induction f generalizing p with
 | atom a=>rfl
 | not f ih=>exact ih !p
 | and f g ihf ihg=>simp only [Formula.map,Formula.literals,ihf,ihg,List.map_append]
 | or f g ihf ihg=>simp only [Formula.map,Formula.literals,ihf,ihg,List.map_append]
 | within f d ih=>exact ih p

theorem Formula.literals_not (f:Formula A D) (p:Bool) :
  f.literals (!p)=(f.literals p).map fun l=>(l.1,!l.2) := by
 induction f generalizing p with
 | atom a=>rfl
 | not f ih=>exact ih !p
 | and f g ihf ihg=>simp only [Formula.literals,ihf,ihg,List.map_append]
 | or f g ihf ihg=>simp only [Formula.literals,ihf,ihg,List.map_append]
 | within f d ih=>exact ih p

theorem Formula.atoms_of_literals (f:Formula A D) (p:Bool) :
  (f.literals p).map Prod.fst=f.atoms := by
 induction f generalizing p with
 | atom a=>rfl
 | not f ih=>exact ih !p
 | and f g ihf ihg=>simp only [Formula.literals,Formula.atoms,List.map_append,ihf,ihg]
 | or f g ihf ihg=>simp only [Formula.literals,Formula.atoms,List.map_append,ihf,ihg]
 | within f d ih=>exact ih p

theorem Formula.eval_congr {σ τ:A → Bool} {f:Formula A D} (h:∀ a ∈ f.atoms, σ a=τ a) :
  f.eval σ=f.eval τ := by
 induction f with
 | atom a=>exact h a List.mem_cons_self
 | not f ih=>exact congrArg Bool.not (ih h)
 | and f g ihf ihg=>
  simp only [Formula.eval,ihf fun a ha=>h a (List.mem_append_left _ ha),
   ihg fun a ha=>h a (List.mem_append_right _ ha)]
 | or f g ihf ihg=>
  simp only [Formula.eval,ihf fun a ha=>h a (List.mem_append_left _ ha),
   ihg fun a ha=>h a (List.mem_append_right _ ha)]
 | within f d ih=>exact ih h

def signed (p b:Bool) : Bool := if p then b else !b

theorem Formula.eval_of_literals {σ τ:A → Bool} (f:Formula A D) (p:Bool)
  (h:∀ l ∈ f.literals p, signed l.2 (σ l.1)=true → signed l.2 (τ l.1)=true)
  (hf:signed p (f.eval σ)=true) : signed p (f.eval τ)=true := by
 induction f generalizing p with
 | atom a=>exact h (a,p) List.mem_cons_self hf
 | not f ih=>
  have hflip:∀ b, signed p (!b)=signed (!p) b:=by
   cases p <;> simp [signed]
  rw [Formula.eval,hflip] at hf ⊢
  exact ih (!p) h hf
 | and f g ihf ihg=>
  have h1:=ihf p fun l hl=>h l (List.mem_append_left _ hl)
  have h2:=ihg p fun l hl=>h l (List.mem_append_right _ hl)
  cases p with
  | true=>
   simp only [signed,Formula.eval,if_true,Bool.and_eq_true] at *
   exact ⟨h1 hf.1,h2 hf.2⟩
  | false=>
   simp only [signed,Formula.eval,Bool.false_eq_true,if_false,Bool.not_and,
    Bool.or_eq_true] at *
   exact hf.imp h1 h2
 | or f g ihf ihg=>
  have h1:=ihf p fun l hl=>h l (List.mem_append_left _ hl)
  have h2:=ihg p fun l hl=>h l (List.mem_append_right _ hl)
  cases p with
  | true=>
   simp only [signed,Formula.eval,if_true,Bool.or_eq_true] at *
   exact hf.imp h1 h2
  | false=>
   simp only [signed,Formula.eval,Bool.false_eq_true,if_false,Bool.not_or,
    Bool.and_eq_true] at *
   exact ⟨h1 hf.1,h2 hf.2⟩
 | within f d ih=>exact ih p h hf

end Formulas

inductive Box (K:Type) where
 | const (b:Bool)
 | asks (k:K)
 deriving DecidableEq

def Box.value {K:Type} (σ:K → Bool) : Box K → Bool
 | .const b=>b
 | .asks k=>σ k

@[simp] theorem Box.value_asks {K:Type} (σ:K → Bool) (k:K) : (Box.asks k).value σ=σ k := rfl

section Copies
variable {A D K L:Type} {r:A → Box K} {s:A → Box L} {bound:K → Option Bool}
 {bound' : L → Option Bool} {f:Formula A D}

def Answered (bound:K → Option Bool) (σ:K → Bool) : Prop :=
 ∀ k b, bound k=some b → σ k=b

/-- The atoms of one question in the second reading are of one question in the first, which has
    the same answer. -/
structure Copies (r:A → Box K) (s:A → Box L) (bound:K → Option Bool)
  (bound' : L → Option Bool) (f:Formula A D) : Prop where
 paired : ∀ a ∈ f.atoms, (∃ b, r a = .const b ∧ s a = .const b) ∨
  ∃ k k', r a = .asks k ∧ s a = .asks k' ∧ bound k=bound' k'
 finer : ∀ a ∈ f.atoms, ∀ a' ∈ f.atoms, s a=s a' → r a=r a'

def OneSigned (r:A → Box K) (s:A → Box L) (f:Formula A D) : Prop :=
 ∀ l ∈ f.literals true, ∀ l' ∈ f.literals true, r l.1=r l'.1 → l.2 ≠ l'.2 → s l.1=s l'.1

theorem Copies.symm (h:Copies r s bound bound' f)
  (hr:∀ a ∈ f.atoms, ∀ a' ∈ f.atoms, r a=r a' → s a=s a') :
  Copies s r bound' bound f where
 paired a ha := (h.paired a ha).imp (fun ⟨b,h1,h2⟩=>⟨b,h2,h1⟩)
  fun ⟨k,k', h1,h2,h3⟩=>⟨k', k,h2,h1,h3.symm⟩
 finer:=hr

theorem Copies.pull (h:Copies r s bound bound' f) {σ:K → Bool} (hσ:Answered bound σ) :
  ∃ σ', Answered bound' σ' ∧ ∀ a ∈ f.atoms, (s a).value σ' = (r a).value σ := by
 classical
 refine ⟨fun k' =>(bound' k').getD (decide (∃ a ∈ f.atoms, s a = .asks k' ∧
  (r a).value σ=true)),fun k' b hb=>by simp only [hb,Option.getD_some],fun a ha=>?_⟩
 rcases h.paired a ha with ⟨b,hr,hs⟩ | ⟨k,k', hr,hs,hb⟩
 · rw [hr,hs]
   rfl
 · simp only [hs,Box.value_asks]
   cases hbound:bound' k' with
   | some b=>
    rw [hr,Option.getD_some]
    exact (hσ k b (hb.trans hbound)).symm
   | none=>
    rw [Option.getD_none]
    cases hval:(r a).value σ with
    | true=>exact decide_eq_true ⟨a,ha,hs,hval⟩
    | false=>
     refine decide_eq_false ?_
     rintro ⟨a', ha', hs', hval'⟩
     rw [h.finer a' ha' a ha (hs'.trans hs.symm),hval] at hval'
     cases hval'

theorem Copies.below (h:Copies r s bound bound' f) (hone:OneSigned r s f) {σ' : L → Bool}
  (hσ' : Answered bound' σ') :
  ∃ σ, Answered bound σ ∧
   ((f.eval fun a=>(r a).value σ)=true → (f.eval fun a=>(s a).value σ')=true) := by
 classical
 refine ⟨fun k=>(bound k).getD (decide (∀ l ∈ f.literals true, r l.1 = .asks k → l.2=true →
  (s l.1).value σ' = true)),fun k b hb=>by simp only [hb,Option.getD_some], ?_⟩
 refine f.eval_of_literals true fun l hl=>?_
 have ha:l.1 ∈ f.atoms:=by
  rw [←f.atoms_of_literals true]
  exact List.mem_map_of_mem hl
 rcases h.paired l.1 ha with ⟨b,hr,hs⟩ | ⟨k,k', hr,hs,hb⟩
 · rw [hr,hs]
   exact id
 · simp only [hr,Box.value_asks]
   cases hbound:bound k with
   | some b=>
    simp only [Option.getD_some,hs,Box.value_asks,hσ' k' b (hb.symm.trans hbound),imp_self]
   | none=>
    simp only [Option.getD_none]
    cases hsign:l.2 with
    | true=>
     intro hall
     exact of_decide_eq_true hall l hl hr hsign
    | false=>
     intro hall
     simp only [signed,Bool.false_eq_true,if_false,Bool.not_eq_true',
      decide_eq_false_iff_not] at hall ⊢
     by_contra htrue
     refine hall fun l' hl' hr' hsign' =>?_
     rw [←hone l hl l' hl' (hr.trans hr'.symm) (by rw [hsign,hsign']; decide)]
     simpa using htrue

theorem Copies.settled_iff (h:Copies r s bound bound' f) (hone:OneSigned r s f) (b:Bool) :
  (∀ σ, Answered bound σ → (f.eval fun a=>(r a).value σ)=b) ↔
   ∀ σ', Answered bound' σ' → (f.eval fun a=>(s a).value σ')=b := by
 constructor
 · intro hall σ' hσ'
   cases b with
   | true=>
    obtain ⟨σ,hσ,hle⟩:=h.below hone hσ'
    exact hle (hall σ hσ)
   | false=>
    have hnot:Copies r s bound bound' (.not f):=⟨h.paired,h.finer⟩
    have hone' : OneSigned r s (.not f):=by
     intro l hl l' hl' hr hne
     rw [Formula.literals,f.literals_not true] at hl hl'
     obtain ⟨m,hm,rfl⟩:=List.mem_map.1 hl
     obtain ⟨m', hm', rfl⟩:=List.mem_map.1 hl'
     exact hone m hm m' hm' hr fun heq=>hne (congrArg Bool.not heq)
    obtain ⟨σ,hσ,hle⟩:=hnot.below hone' hσ'
    simp only [Formula.eval,Bool.not_eq_true'] at hle
    exact hle (hall σ hσ)
 · intro hall σ hσ
   obtain ⟨σ', hσ', hval⟩:=h.pull hσ
   rw [←Formula.eval_congr hval]
   exact hall σ' hσ'

end Copies

section Needed
variable {K:Type}

def Needs (bound:K → Option Bool) (F:(K → Bool) → Bool) (k:K) : Prop :=
 bound k=none ∧
  ∃ σ τ, Answered bound σ ∧ (∀ y, y ≠ k → τ y=σ y) ∧ F τ ≠ F σ

theorem exists_needs {bound:K → Option Bool} {F:(K → Bool) → Bool} {σ τ:K → Bool}
  (hσ:Answered bound σ) (hτ:Answered bound τ) (l:List K)
  (hl:∀ υ, (∀ k ∈ l, υ k=τ k) → F υ=F τ) (hne:F τ ≠ F σ) :
  ∃ k ∈ l, τ k ≠ σ k ∧ Needs bound F k := by
 classical
 let mix:List K → K → Bool:=fun done k=>if k ∈ done then τ k else σ k
 have hmix:∀ done, Answered bound (mix done):=by
  intro done k b hb
  by_cases hk:k ∈ done
  · simp only [mix,hk,if_true,hτ k b hb]
  · simp only [mix,hk,if_false,hσ k b hb]
 -- the questions are answered anew one at a time
 have step:∀ done, (∀ k ∈ done, k ∈ l) → F (mix done) ≠ F σ →
   ∃ k ∈ l, τ k ≠ σ k ∧ Needs bound F k := by
  intro done
  induction done with
  | nil=>exact fun _ h=>absurd (congrArg F (funext fun k=>by simp [mix])) h
  | cons k done ih=>
   intro hin hdone
   by_cases heq:F (mix done)=F σ
   · have hk:τ k ≠ σ k:=by
      intro hsame
      refine hdone (Eq.trans (congrArg F (funext fun y=>?_)) heq)
      by_cases hy:y=k
      · simp [mix,hy,hsame]
      · simp [mix,hy]
     have hopen:bound k=none:=by
      cases hb:bound k with
      | none=>rfl
      | some b=>exact absurd ((hτ k b hb).trans (hσ k b hb).symm) hk
     refine ⟨k,hin k List.mem_cons_self,hk,hopen,mix done,mix (k::done),hmix done,
      fun y hy=>?_,by rwa [heq]⟩
     simp [mix,hy]
   · exact ih (fun y hy=>hin y (List.mem_cons_of_mem _ hy)) heq
 refine step l (fun _ h=>h) ?_
 rw [hl (mix l) fun k hk=>by simp [mix,hk]]
 exact hne

variable {A D L:Type} {r:A → Box K} {s:A → Box L} {bound:K → Option Bool}
 {bound' : L → Option Bool} {f:Formula A D}

theorem Needs.exists_atom {k:K}
  (h:Needs bound (fun σ=>f.eval fun a=>(r a).value σ) k) : ∃ a ∈ f.atoms, r a = .asks k := by
 obtain ⟨-,σ,τ,-,hτ,hne⟩:=h
 by_contra hno
 refine hne (Formula.eval_congr fun a ha=>?_)
 cases hr:r a with
 | const b=>rfl
 | asks y=>
  refine hτ y ?_
  rintro rfl
  exact hno ⟨a,ha,hr⟩

theorem Copies.needs (h:Copies r s bound bound' f) {k:K}
  (hk:Needs bound (fun σ=>f.eval fun a=>(r a).value σ) k) :
  ∃ a ∈ f.atoms, ∃ k', r a = .asks k ∧ s a = .asks k' ∧
   Needs bound' (fun σ=>f.eval fun a=>(s a).value σ) k' := by
 obtain ⟨hopen,σ,τ,hσ,hτ,hne⟩:=hk
 have hτ' : Answered bound τ:=by
  intro y b hb
  by_cases hy:y=k
  · rw [hy,hopen] at hb
    cases hb
  · rw [hτ y hy]
    exact hσ y b hb
 obtain ⟨σ1,hσ1,hval⟩:=h.pull hσ
 obtain ⟨τ1,hτ1,hval'⟩:=h.pull hτ'
 let asked:List L:=f.atoms.filterMap fun a=>
  match s a with
  | .asks k' =>some k'
  | .const _=>none
 have hasked:∀ {a k'}, a ∈ f.atoms → s a = .asks k' → k' ∈ asked:=by
  intro a k' ha hs
  refine List.mem_filterMap.2 ⟨a,ha, ?_⟩
  rw [hs]
 obtain ⟨k', hk', hdiff,hneeds⟩:=exists_needs
  (F := fun σ=>f.eval fun a=>(s a).value σ) hσ1 hτ1 asked
  (fun υ hυ=>Formula.eval_congr fun a ha=>by
   cases hs:s a with
   | const b=>rfl
   | asks k' =>exact hυ k' (hasked ha hs))
  (by
   simp only [Formula.eval_congr hval,Formula.eval_congr hval']
   exact hne)
 obtain ⟨a,ha,hsome⟩:=List.mem_filterMap.1 hk'
 have hs:s a = .asks k' :=by
  split at hsome
  · next heq=>rw [heq,Option.some.inj hsome]
  · cases hsome
 rcases h.paired a ha with ⟨b,-,hs'⟩ | ⟨k0,k1,hr,hs', -⟩
 · rw [hs] at hs'
   cases hs'
 · refine ⟨a,ha,k', ?_,hs,hneeds⟩
   -- the copy's answers differ, so those of the question do
   have h1:=hval a ha
   have h2:=hval' a ha
   rw [hs,hr] at h1 h2
   simp only [Box.value_asks] at h1 h2
   by_cases hk0:k0=k
   · rw [hr,hk0]
   · rw [h1,h2,hτ k0 hk0] at hdiff
     exact absurd rfl hdiff

end Needed

end L4Ide.FormulaCopies
