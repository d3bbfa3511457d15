import Mathlib.Order.WellFounded
import Mathlib.Logic.Function.Basic

set_option autoImplicit false

/-!
# Triangular systems of equations

Bindings of variables to terms over other variables, with no cycle. Each choice of the unbound
variables has one solution.
-/
namespace L4Ide.TriangularSystems

/-- Terms over variables, with values in which only the variables of a term count. -/
structure Language (K Term Value:Type) where
 vars : Term → List K
 den : (K → Value) → Term → Value
 den_congr : ∀ {V W:K → Value} {t:Term}, (∀ k ∈ vars t, V k=W k) → den V t=den W t

variable {K Term Value:Type} (L:Language K Term Value)

/-- A bound variable reads the variables of its term. -/
def Reads (s:K → Option Term) (j i:K) : Prop := ∃ t, s i=some t ∧ j ∈ L.vars t

def Acyclic (s:K → Option Term) : Prop := WellFounded (Reads L s)

def Solves (V:K → Value) (s:K → Option Term) : Prop := ∀ i t, s i=some t → V i=L.den V t

/-- Nothing in the term is bound. -/
def Resolved (s:K → Option Term) (t:Term) : Prop := ∀ j ∈ L.vars t, s j=none

variable {L} {s s' : K → Option Term} {V W:K → Value}

theorem Solves.unique (hs:Acyclic L s) (hV:Solves L V s) (hW:Solves L W s)
  (h:∀ i, s i=none → V i=W i) : V=W := by
 funext i
 induction i using hs.induction with
 | _ i ih=>
  cases hi:s i with
  | none=>exact h i hi
  | some t=>
   rw [hV i t hi,hW i t hi]
   exact L.den_congr fun j hj=>ih j ⟨t,hi,hj⟩

/-- The value of a bound variable is that of its term, where what the term reads is known. -/
noncomputable def solveStep (L:Language K Term Value) (s:K → Option Term) (V:K → Value) (i:K)
  (rec:∀ j, Reads L s j i → Value) : Value :=
 open scoped Classical in
 (s i).elim (V i) fun t=>L.den (fun j=>if h : Reads L s j i then rec j h else V j) t

theorem exists_solves (hs:Acyclic L s) (V:K → Value) :
  ∃ W, Solves L W s ∧ ∀ i, s i=none → W i=V i := by
 refine ⟨hs.fix (solveStep L s V),fun i t hi=>?_,fun i hi=>?_⟩
 · rw [hs.fix_eq,solveStep,hi,Option.elim_some]
   refine L.den_congr fun j hj=>?_
   rw [dif_pos ⟨t,hi,hj⟩]
 · rw [hs.fix_eq,solveStep,hi,Option.elim_none]

theorem solves_of_imp (hs:Acyclic L s) (hs' : Acyclic L s')
  (hnone:∀ i, s i=none ↔ s' i=none) (himp:∀ W, Solves L W s → Solves L W s')
  (hV:Solves L V s') : Solves L V s := by
 obtain ⟨W,hW,hWV⟩:=exists_solves hs V
 obtain rfl : V=W:=Solves.unique hs' hV (himp W hW) fun i hi=>(hWV i ((hnone i).2 hi)).symm
 exact hW

section Update
variable [DecidableEq K]

/-- Binding a variable to a term with no bound variable in it, nor itself, makes no cycle. -/
theorem acyclic_update (hs:Acyclic L s) {i:K} {t:Term} (ht:Resolved L s t)
  (hi:i ∉ L.vars t) : Acyclic L (Function.update s i (some t)) := by
 have stuck:∀ j ∈ L.vars t, Acc (Reads L (Function.update s i (some t))) j:=by
  intro j hj
  refine ⟨_,fun k hk=>?_⟩
  obtain ⟨u,hu,-⟩:=hk
  have hne:j ≠ i:=fun h=>hi (h ▸ hj)
  rw [Function.update_of_ne hne,ht j hj] at hu
  cases hu
 refine ⟨fun k=>?_⟩
 induction k using hs.induction with
 | _ k ih=>
  refine ⟨_,fun j hj=>?_⟩
  obtain ⟨u,hu,hju⟩:=hj
  by_cases hk:k=i
  · rw [hk,Function.update_self] at hu
    obtain rfl:=Option.some.inj hu
    exact stuck j hju
  · rw [Function.update_of_ne hk] at hu
    exact ih j ⟨u,hu,hju⟩

theorem solves_update {i:K} {t:Term} (hi:s i=none) :
  Solves L V (Function.update s i (some t)) ↔ Solves L V s ∧ V i=L.den V t := by
 constructor
 · intro h
   refine ⟨fun j u hj=>h j u ?_,h i t (Function.update_self ..)⟩
   have hne:j ≠ i:=by
    rintro rfl
    rw [hi] at hj
    cases hj
   rwa [Function.update_of_ne hne]
 · rintro ⟨h,ht⟩ j u hj
   by_cases hji:j=i
   · rw [hji,Function.update_self] at hj
     rw [hji,←Option.some.inj hj]
     exact ht
   · rw [Function.update_of_ne hji] at hj
     exact h j u hj

end Update

structure Compresses (L:Language K Term Value) (s s' : K → Option Term) : Prop where
 acyclic : Acyclic L s'
 none_iff : ∀ i, s i=none ↔ s' i=none
 solves_iff : ∀ V, Solves L V s ↔ Solves L V s'

theorem Compresses.refl (hs:Acyclic L s) : Compresses L s s :=
 ⟨hs,fun _=>Iff.rfl,fun _=>Iff.rfl⟩

theorem Compresses.trans {s'' : K → Option Term} (h:Compresses L s s')
  (h' : Compresses L s' s'') : Compresses L s s'' :=
 ⟨h'.acyclic,fun i=>(h.none_iff i).trans (h'.none_iff i),
  fun V=>(h.solves_iff V).trans (h'.solves_iff V)⟩

theorem Compresses.resolved_iff (h:Compresses L s s') {t:Term} :
  Resolved L s t ↔ Resolved L s' t :=
 forall₂_congr fun j _=>h.none_iff j

theorem compresses_update [DecidableEq K] (hs:Acyclic L s) {i:K} {t t' : Term}
  (hi:s i=some t) (ht' : Resolved L s t')
  (hden:∀ V, Solves L V s → L.den V t' = L.den V t) :
  Compresses L s (Function.update s i (some t')) := by
 have hacyclic:Acyclic L (Function.update s i (some t')):=by
  refine acyclic_update hs ht' fun hmem=>?_
  rw [ht' i hmem] at hi
  cases hi
 have hnone:∀ j, s j=none ↔ Function.update s i (some t') j=none:=by
  intro j
  by_cases hj:j=i
  · rw [hj,hi,Function.update_self]
    simp
  · rw [Function.update_of_ne hj]
 have himp:∀ V, Solves L V s → Solves L V (Function.update s i (some t')):=by
  intro V hV j u hj
  by_cases hji:j=i
  · rw [hji,Function.update_self] at hj
    rw [hji,←Option.some.inj hj,hden V hV]
    exact hV i t hi
  · rw [Function.update_of_ne hji] at hj
    exact hV j u hj
 exact ⟨hacyclic,hnone,fun V=>⟨himp V,solves_of_imp hs hacyclic hnone himp⟩⟩

end L4Ide.TriangularSystems
