import L4Ide.BooleanDecisionQuery
import L4Ide.DecisionTree
import Mathlib.Order.BoundedOrder.Lattice
import Mathlib.Order.MinMax

set_option autoImplicit false

/-!
# Canonicity of the hash-consed diagram

Every node of a well-formed store denotes one canonical decision tree, and no
two nodes denote the same tree. The operations keep the store well formed, only
add nodes, and return the node of the function they are named for.
-/
namespace L4Ide.BooleanDecisionQuery
open DecisionTree DecisionTree.Tree

abbrev BoolFun := (ℕ → Bool) → Bool

inductive Denotes (bdd:Bdd) : ℕ → DecisionTree.Tree ℕ → Prop where
 | zero : Denotes bdd 0 (leaf false)
 | one : Denotes bdd 1 (leaf true)
 | branch {n v lo hi:ℕ} {tl th:DecisionTree.Tree ℕ} (h:bdd.nodes n=some (.branch v lo hi))
   (hl:Denotes bdd lo tl) (hh:Denotes bdd hi th) : Denotes bdd n (node v tl th)

/-- The node `n` stands for the function `f`, through a canonical tree. -/
def Represents (bdd:Bdd) (n:ℕ) (f:BoolFun) : Prop :=
 ∃ t, Denotes bdd n t ∧ t.Canonical ∧ ∀ ρ, t.eval ρ=f ρ

structure Bdd.Wf (bdd:Bdd) : Prop where
 zero : bdd.nodes 0=some (.terminal false)
 one : bdd.nodes 1=some (.terminal true)
 two_le : 2 ≤ bdd.nextId
 fresh : ∀ n, bdd.nextId ≤ n → bdd.nodes n=none
 child : ∀ n v lo hi : ℕ, bdd.nodes n=some (.branch v lo hi) → lo < n ∧ hi < n
 unique : ∀ v lo hi n,
  bdd.uniqueTable (v,lo,hi)=some n ↔ bdd.nodes n=some (.branch v lo hi)
 represents : ∀ n, bdd.nodes n ≠ none → ∃ f, Represents bdd n f
 negMemo : ∀ n r, bdd.negMemo n=some r →
  ∃ f, Represents bdd n f ∧ Represents bdd r fun ρ=>!f ρ
 applyMemo : ∀ op a b r, bdd.applyMemo (op,a,b)=some r →
  ∃ f g, Represents bdd a f ∧ Represents bdd b g ∧
   Represents bdd r fun ρ=>opEval op (f ρ) (g ρ)

def Bdd.Extends (bdd bdd' : Bdd) : Prop :=
 ∀ n nd, bdd.nodes n=some nd → bdd'.nodes n=some nd

/-- An operation on `bdd` returned the node of `f` in a store that extends it. -/
structure Built (bdd:Bdd) (f:BoolFun) (p:NodeId × Bdd) : Prop where
 wf : p.2.Wf
 extends_ : bdd.Extends p.2
 represents : Represents p.2 p.1 f

theorem Bdd.Extends.refl (bdd:Bdd) : bdd.Extends bdd := fun _ _ h=>h

theorem Bdd.Extends.trans {a b c:Bdd} (h:a.Extends b) (h' : b.Extends c) : a.Extends c :=
 fun n nd hn=>h' n nd (h n nd hn)

variable {a b n x v lo hi r:ℕ} {f g:BoolFun} {p:NodeId × Bdd}

theorem Denotes.mono {bdd bdd' : Bdd} (he:bdd.Extends bdd') {t:DecisionTree.Tree ℕ}
  (h:Denotes bdd n t) : Denotes bdd' n t := by
 induction h with
 | zero=>exact .zero
 | one=>exact .one
 | branch hn _ _ ihl ihh=>exact .branch (he _ _ hn) ihl ihh

theorem Represents.mono {bdd bdd' : Bdd} (he:bdd.Extends bdd')
  (h:Represents bdd n f) : Represents bdd' n f := by
 obtain ⟨t,ht,hc,hf⟩:=h
 exact ⟨t,ht.mono he,hc,hf⟩

theorem Represents.congr {bdd:Bdd} (h:Represents bdd n f)
  (hfg:∀ ρ, f ρ=g ρ) : Represents bdd n g := by
 obtain ⟨t,ht,hc,hf⟩:=h
 exact ⟨t,ht,hc,fun ρ=>(hf ρ).trans (hfg ρ)⟩

theorem represents_zero (bdd:Bdd) : Represents bdd 0 fun _=>false :=
 ⟨leaf false,.zero,trivial,fun _=>rfl⟩

theorem represents_one (bdd:Bdd) : Represents bdd 1 fun _=>true :=
 ⟨leaf true,.one,trivial,fun _=>rfl⟩

section Wf
variable {bdd:Bdd} (hw:bdd.Wf)
include hw

variable {n:ℕ} {f:BoolFun}

theorem Bdd.Wf.denotes_unique {t u:DecisionTree.Tree ℕ} (ht:Denotes bdd n t)
  (hu:Denotes bdd n u) : t=u := by
 induction ht generalizing u with
 | zero=>
  cases hu with
  | zero=>rfl
  | branch h _ _=>simp [hw.zero] at h
 | one=>
  cases hu with
  | one=>rfl
  | branch h _ _=>simp [hw.one] at h
 | branch h _ _ ihl ihh=>
  cases hu with
  | zero=>simp [hw.zero] at h
  | one=>simp [hw.one] at h
  | branch h' hl' hh' =>
   rw [h] at h'
   obtain ⟨rfl,rfl,rfl⟩ : _ ∧ _ ∧ _:=by simpa using h'
   rw [ihl hl', ihh hh']

theorem Bdd.Wf.denotes_injective {a b:ℕ} {t:DecisionTree.Tree ℕ} (ha:Denotes bdd a t)
  (hb:Denotes bdd b t) : a=b := by
 induction ha generalizing b with
 | zero=>cases hb with
  | zero=>rfl
 | one=>cases hb with
  | one=>rfl
 | branch h _ _ ihl ihh=>
  cases hb with
  | branch h' hl' hh' =>
   cases ihl hl'
   cases ihh hh'
   have ha' :=(hw.unique _ _ _ _).2 h
   have hb' :=(hw.unique _ _ _ _).2 h'
   exact Option.some.inj (ha'.symm.trans hb')

theorem Bdd.Wf.represents_unique {g:BoolFun} (hf:Represents bdd n f)
  (hg:Represents bdd n g) (ρ:ℕ → Bool) : f ρ=g ρ := by
 obtain ⟨t,ht,_,hf⟩:=hf
 obtain ⟨u,hu,_,hg⟩:=hg
 rw [←hf,←hg,hw.denotes_unique ht hu]

theorem Bdd.Wf.represents_injective {a b:ℕ} {g:BoolFun} (ha:Represents bdd a f)
  (hb:Represents bdd b g) (h:∀ ρ, f ρ=g ρ) : a=b := by
 obtain ⟨t,ht,htc,hf⟩:=ha
 obtain ⟨u,hu,huc,hg⟩:=hb
 have htu:t=u:=htc.ext huc fun ρ=>by rw [hf,hg,h]
 exact hw.denotes_injective ht (htu ▸ hu)

theorem Bdd.Wf.eq_zero_iff (h:Represents bdd n f) :
  n=0 ↔ ∀ ρ, f ρ=false := by
 constructor
 · rintro rfl
   exact hw.represents_unique h (represents_zero bdd)
 · exact hw.represents_injective h (represents_zero bdd)

theorem Bdd.Wf.eq_one_iff (h:Represents bdd n f) :
  n=1 ↔ ∀ ρ, f ρ=true := by
 constructor
 · rintro rfl
   exact hw.represents_unique h (represents_one bdd)
 · exact hw.represents_injective h (represents_one bdd)

theorem Bdd.Wf.node_of_represents (h:Represents bdd n f) :
  ∃ nd, bdd.nodes n=some nd := by
 obtain ⟨t,ht,_,_⟩:=h
 cases ht with
 | zero=>exact ⟨_,hw.zero⟩
 | one=>exact ⟨_,hw.one⟩
 | branch h _ _=>exact ⟨_,h⟩

theorem Bdd.Wf.terminal_of_represents {b:Bool}
  (h:Represents bdd n f) (hn:bdd.nodes n=some (.terminal b)) :
  isTerminal n=true ∧ ∀ ρ, f ρ=b := by
 obtain ⟨t,ht,_,hf⟩:=h
 cases ht with
 | zero=>
  obtain rfl : false=b:=by simpa [hw.zero] using hn
  exact ⟨rfl,fun ρ=>(hf ρ).symm⟩
 | one=>
  obtain rfl : true=b:=by simpa [hw.one] using hn
  exact ⟨rfl,fun ρ=>(hf ρ).symm⟩
 | branch h _ _=>simp [hn] at h

/-- A branch splits its function on its variable; neither half depends on that
    variable or on an earlier one. -/
theorem Bdd.Wf.split {v lo hi:ℕ} (h:Represents bdd n f)
  (hn:bdd.nodes n=some (.branch v lo hi)) :
  ∃ fl fh, Represents bdd lo fl ∧ Represents bdd hi fh ∧
   (∀ ρ, f ρ = if ρ v then fh ρ else fl ρ) ∧
   (∀ x ≤ v, ¬DependsOn fl x) ∧ ∀ x ≤ v, ¬DependsOn fh x := by
 obtain ⟨t,ht,hc,hf⟩:=h
 cases ht with
 | zero=>simp [hw.zero] at hn
 | one=>simp [hw.one] at hn
 | branch h hl hh=>
  rw [h] at hn
  obtain ⟨rfl,rfl,rfl⟩ : _ ∧ _ ∧ _:=by simpa using hn
  obtain ⟨_,hal,hah,hcl,hch⟩:=hc
  refine ⟨_,_,⟨_,hl,hcl,fun _=>rfl⟩,⟨_,hh,hch,fun _=>rfl⟩,
   fun ρ=>(hf ρ).symm, ?_, ?_⟩
  · exact fun x hx hd=>absurd (hal x ((hcl.occurs_iff x).2 hd)) (not_lt.2 hx)
  · exact fun x hx hd=>absurd (hah x ((hch.occurs_iff x).2 hd)) (not_lt.2 hx)

end Wf

theorem not_dependsOn_map₂ (F:Bool → Bool → Bool) (hf:¬DependsOn f x) (hg:¬DependsOn g x) :
  ¬DependsOn (fun ρ=>F (f ρ) (g ρ)) x := by
 rintro ⟨ρ,hρ⟩
 have hf' : f (Function.update ρ x true)=f (Function.update ρ x false):=by
  by_contra hne
  exact hf ⟨ρ,hne⟩
 have hg' : g (Function.update ρ x true)=g (Function.update ρ x false):=by
  by_contra hne
  exact hg ⟨ρ,hne⟩
 exact hρ (by simp only [hf', hg'])

theorem update_eq_of_not_dependsOn (h:¬DependsOn f x) (ρ:ℕ → Bool)
  (b:Bool) : f (Function.update ρ x b)=f ρ := by
 have hall:∀ c d, f (Function.update ρ x c)=f (Function.update ρ x d):=by
  intro c d
  by_contra hne
  apply h
  refine ⟨ρ,fun heq=>hne ?_⟩
  cases c <;> cases d <;> simp_all
 rw [hall b (ρ x),Function.update_eq_self]

/-! ## Building nodes -/

theorem emptyBdd_wf : emptyBdd.Wf where
 zero:=rfl
 one:=rfl
 two_le:=le_refl 2
 fresh n hn := by
  have h1:n ≠ 1:=Nat.ne_of_gt (show 1 < n from hn)
  have h0:n ≠ 0:=Nat.ne_of_gt (Nat.lt_of_succ_lt (show 1 < n from hn))
  simp [emptyBdd,h0,h1]
 child n v lo hi h := by
  simp only [emptyBdd] at h
  split_ifs at h <;> simp at h
 unique v lo hi n := by
  refine iff_of_false (by simp [emptyBdd]) ?_
  simp only [emptyBdd]
  split_ifs <;> simp
 represents n hn := by
  by_cases h0:n=0
  · exact ⟨_,h0 ▸ represents_zero emptyBdd⟩
  by_cases h1:n=1
  · exact ⟨_,h1 ▸ represents_one emptyBdd⟩
  simp [emptyBdd,h0,h1] at hn
 negMemo n r h := by simp [emptyBdd] at h
 applyMemo op a b r h := by simp [emptyBdd] at h

theorem Built.of_represents {bdd:Bdd} (hw:bdd.Wf)
  (h:Represents bdd n f) : Built bdd f (n,bdd) :=
 ⟨hw,.refl bdd,h⟩

theorem Built.trans {a b:Bdd} (he:a.Extends b) (h:Built b f p) : Built a f p :=
 ⟨h.wf,he.trans h.extends_,h.represents⟩

theorem Built.congr {bdd:Bdd} (h:Built bdd f p) (hfg:∀ ρ, f ρ=g ρ) : Built bdd g p :=
 ⟨h.wf,h.extends_,h.represents.congr hfg⟩

/-- The node that `mk` adds, in the store it adds it to. -/
def Bdd.push (bdd:Bdd) (v:ℕ) (lo hi:ℕ) : Bdd :=
 { bdd with
   nodes:=Function.update bdd.nodes bdd.nextId (some (.branch v lo hi))
   uniqueTable:=Function.update bdd.uniqueTable (v,lo,hi) (some bdd.nextId)
   nextId:=bdd.nextId+1 }

theorem Bdd.Wf.lt_nextId {bdd:Bdd} (hw:bdd.Wf) {nd:Node}
  (h:bdd.nodes n=some nd) : n < bdd.nextId := by
 by_contra hn
 simp [hw.fresh n (not_lt.1 hn)] at h

theorem Bdd.Wf.extends_push {bdd:Bdd} (hw:bdd.Wf) (v:ℕ) (lo hi:ℕ) :
  bdd.Extends (bdd.push v lo hi) := by
 intro n nd h
 have hne:n ≠ bdd.nextId:=(hw.lt_nextId h).ne
 simpa [Bdd.push,Function.update_of_ne hne] using h

theorem Bdd.push_nodes_iff {bdd:Bdd} {nd:Node} :
  (bdd.push v lo hi).nodes n=some nd ↔
   (n=bdd.nextId ∧ nd = .branch v lo hi) ∨ (n ≠ bdd.nextId ∧ bdd.nodes n=some nd) := by
 by_cases h:n=bdd.nextId
 · subst h
   simp [Bdd.push,eq_comm]
 · simp [Bdd.push,h]

theorem Bdd.Wf.push_wf {bdd:Bdd} (hw:bdd.Wf)
  (hlo:bdd.nodes lo ≠ none) (hhi:bdd.nodes hi ≠ none)
  (hnew:bdd.uniqueTable (v,lo,hi)=none)
  (hf:Represents (bdd.push v lo hi) bdd.nextId f) : (bdd.push v lo hi).Wf where
 zero:=hw.extends_push v lo hi 0 _ hw.zero
 one:=hw.extends_push v lo hi 1 _ hw.one
 two_le:=hw.two_le.trans (Nat.le_succ _)
 fresh n hn := by
  have hlt:bdd.nextId < n:=hn
  have hold:=hw.fresh n hlt.le
  simpa [Bdd.push,Function.update_of_ne hlt.ne'] using hold
 child n w l r h := by
  rcases Bdd.push_nodes_iff.1 h with ⟨rfl,heq⟩ | ⟨_,h⟩
  · obtain ⟨rfl,rfl,rfl⟩ : _ ∧ _ ∧ _:=by simpa using heq
    obtain ⟨_,hl⟩:=Option.ne_none_iff_exists'.1 hlo
    obtain ⟨_,hr⟩:=Option.ne_none_iff_exists'.1 hhi
    exact ⟨hw.lt_nextId hl,hw.lt_nextId hr⟩
  · exact hw.child n w l r h
 unique w l r n := by
  have hfresh:=hw.fresh bdd.nextId le_rfl
  rw [Bdd.push_nodes_iff]
  by_cases heq:(w,l,r)=(v,lo,hi)
  · have hne:bdd.nodes n ≠ some (.branch w l r):=by
     intro hn
     have:=(hw.unique w l r n).2 hn
     rw [heq,hnew] at this
     simp at this
    obtain ⟨rfl,rfl,rfl⟩ : w=v ∧ l=lo ∧ r=hi:=by simpa using heq
    simp [Bdd.push,hne,eq_comm]
  · have hne:¬(w=v ∧ l=lo ∧ r=hi):=by simpa using heq
    have hkey:(bdd.push v lo hi).uniqueTable (w,l,r)=bdd.uniqueTable (w,l,r):=
     Function.update_of_ne heq _ _
    rw [hkey,hw.unique]
    constructor
    · intro hn
      exact Or.inr ⟨(hw.lt_nextId hn).ne,hn⟩
    · rintro (⟨_,heq'⟩ | ⟨_,hn⟩)
      · exact absurd (by simpa using heq') hne
      · exact hn
 represents n hn := by
  obtain ⟨nd,hnd⟩:=Option.ne_none_iff_exists'.1 hn
  rcases Bdd.push_nodes_iff.1 hnd with ⟨rfl,_⟩ | ⟨_,h⟩
  · exact ⟨f,hf⟩
  · obtain ⟨g,hg⟩:=hw.represents n (by simp [h])
    exact ⟨g,hg.mono (hw.extends_push v lo hi)⟩
 negMemo n r h := by
  obtain ⟨g,hn,hr⟩:=hw.negMemo n r h
  exact ⟨g,hn.mono (hw.extends_push v lo hi),hr.mono (hw.extends_push v lo hi)⟩
 applyMemo op a b r h := by
  obtain ⟨g,k,ha,hb,hr⟩:=hw.applyMemo op a b r h
  have he:=hw.extends_push v lo hi
  exact ⟨g,k,ha.mono he,hb.mono he,hr.mono he⟩

theorem mk_built {bdd:Bdd} (hw:bdd.Wf) {fl fh:BoolFun}
  (hlo:Represents bdd lo fl) (hhi:Represents bdd hi fh)
  (hfl:∀ x ≤ v, ¬DependsOn fl x) (hfh:∀ x ≤ v, ¬DependsOn fh x) :
  Built bdd (fun ρ=>if ρ v then fh ρ else fl ρ) (mk v lo hi bdd) := by
 have hnlo:=hw.node_of_represents hlo
 have hnhi:=hw.node_of_represents hhi
 obtain ⟨tl,htl,hcl,hel⟩:=hlo
 obtain ⟨th,hth,hch,heh⟩:=hhi
 have above:∀ {t:DecisionTree.Tree ℕ} {f:BoolFun}, t.Canonical → (∀ ρ, t.eval ρ=f ρ) →
   (∀ x ≤ v, ¬DependsOn f x) → Above v t := by
  intro t f hc he hf x hx
  by_contra hle
  have hd:=(hc.occurs_iff x).1 hx
  exact hf x (not_lt.1 hle) (by simpa only [he] using hd)
 have canonical:lo ≠ hi → (node v tl th).Canonical:=by
  intro hne
  refine ⟨?_,above hcl hel hfl,above hch heh hfh,hcl,hch⟩
  rintro rfl
  exact hne (hw.denotes_injective htl hth)
 have eval_eq:∀ ρ, (node v tl th).eval ρ = if ρ v then fh ρ else fl ρ:=by
  intro ρ
  rw [eval_node,hel,heh]
 unfold mk
 split_ifs with heq
 · subst heq
   have htt:=hw.denotes_unique htl hth
   subst htt
   refine .of_represents hw ⟨tl,htl,hcl,fun ρ=>?_⟩
   change tl.eval ρ = if ρ v then fh ρ else fl ρ
   rw [←hel,←heh,ite_self]
 · split
   · rename_i existing hex
     have hn:=(hw.unique v lo hi existing).1 hex
     exact .of_represents hw ⟨_,.branch hn htl hth,canonical heq,eval_eq⟩
   · rename_i hnew
     have he:=hw.extends_push v lo hi
     have hnode:(bdd.push v lo hi).nodes bdd.nextId=some (.branch v lo hi):=
      Function.update_self _ _ _
     have hrep:Represents (bdd.push v lo hi) bdd.nextId
       fun ρ=>if ρ v then fh ρ else fl ρ :=
      ⟨_,.branch hnode (htl.mono he) (hth.mono he),canonical heq,eval_eq⟩
     have hlo:bdd.nodes lo ≠ none:=Option.ne_none_iff_exists'.2 hnlo
     have hhi:bdd.nodes hi ≠ none:=Option.ne_none_iff_exists'.2 hnhi
     exact ⟨hw.push_wf hlo hhi hnew hrep,he,hrep⟩

theorem var_built {bdd:Bdd} (hw:bdd.Wf) (v:ℕ) : Built bdd (fun ρ=>ρ v) (var v bdd) := by
 have hconst:∀ b : Bool, ∀ x ≤ v, ¬DependsOn (fun _:ℕ → Bool=>b) x:=
  fun b x _ ⟨_,h⟩=>h rfl
 refine (mk_built hw (represents_zero bdd) (represents_one bdd) (hconst _) (hconst _)).congr ?_
 intro ρ
 cases ρ v <;> rfl

/-! ## The recursive operations -/

theorem rememberNeg_represents {bdd:Bdd} {m:ℕ}
  (h:Represents bdd m f) : Represents (bdd.rememberNeg n r) m f :=
 Represents.mono (show bdd.Extends (bdd.rememberNeg n r) from fun _ _ h=>h) h

theorem rememberApply_represents {bdd:Bdd} {op:Op} {m:ℕ}
  (h:Represents bdd m f) : Represents (bdd.rememberApply op a b r) m f :=
 Represents.mono (show bdd.Extends (bdd.rememberApply op a b r) from fun _ _ h=>h) h

theorem Bdd.Wf.rememberNeg {bdd:Bdd} (hw:bdd.Wf)
  (hn:Represents bdd n f) (hr:Represents bdd r fun ρ=>!f ρ) :
  (bdd.rememberNeg n r).Wf where
 zero:=hw.zero
 one:=hw.one
 two_le:=hw.two_le
 fresh:=hw.fresh
 child:=hw.child
 unique:=hw.unique
 represents m hm := (hw.represents m hm).imp fun _=>rememberNeg_represents
 negMemo m q h := by
  by_cases hm:m=n
  · subst hm
    obtain rfl : r=q:=by simpa [Bdd.rememberNeg] using h
    exact ⟨f,rememberNeg_represents hn,rememberNeg_represents hr⟩
  · have hold:bdd.negMemo m=some q:=by
     simpa [Bdd.rememberNeg,Function.update_of_ne hm] using h
    obtain ⟨g,hg,hq⟩:=hw.negMemo m q hold
    exact ⟨g,rememberNeg_represents hg,rememberNeg_represents hq⟩
 applyMemo op a b q h := by
  obtain ⟨g,k,ha,hb,hq⟩:=hw.applyMemo op a b q h
  exact ⟨g,k,rememberNeg_represents ha,rememberNeg_represents hb,rememberNeg_represents hq⟩

theorem Bdd.Wf.rememberApply {bdd:Bdd} (hw:bdd.Wf) {op:Op}
  (ha:Represents bdd a f) (hb:Represents bdd b g)
  (hr:Represents bdd r fun ρ=>opEval op (f ρ) (g ρ)) :
  (bdd.rememberApply op a b r).Wf where
 zero:=hw.zero
 one:=hw.one
 two_le:=hw.two_le
 fresh:=hw.fresh
 child:=hw.child
 unique:=hw.unique
 represents m hm := (hw.represents m hm).imp fun _=>rememberApply_represents
 negMemo m q h := by
  obtain ⟨k,hk,hq⟩:=hw.negMemo m q h
  exact ⟨k,rememberApply_represents hk,rememberApply_represents hq⟩
 applyMemo op' c d q h := by
  by_cases hkey:(op', c,d)=(op,a,b)
  · obtain ⟨rfl,rfl,rfl⟩ : op' = op ∧ c=a ∧ d=b:=by simpa using hkey
    obtain rfl : r=q:=by simpa [Bdd.rememberApply] using h
    exact ⟨f,g,rememberApply_represents ha,rememberApply_represents hb,
     rememberApply_represents hr⟩
  · have hold:bdd.applyMemo (op', c,d)=some q:=by
     simpa [Bdd.rememberApply,Function.update_of_ne hkey] using h
    obtain ⟨k,l,hc,hd,hq⟩:=hw.applyMemo op' c d q hold
    exact ⟨k,l,rememberApply_represents hc,rememberApply_represents hd,
     rememberApply_represents hq⟩

theorem Built.rememberNeg {bdd:Bdd} (h:Built bdd (fun ρ=>!f ρ) p) (hn:Represents bdd n f) :
  Built bdd (fun ρ=>!f ρ) (p.1,p.2.rememberNeg n p.1) where
 wf:=h.wf.rememberNeg (hn.mono h.extends_) h.represents
 extends_:=h.extends_
 represents:=rememberNeg_represents h.represents

theorem Built.rememberApply {bdd:Bdd} {op:Op} (h:Built bdd (fun ρ=>opEval op (f ρ) (g ρ)) p)
  (ha:Represents bdd a f) (hb:Represents bdd b g) :
  Built bdd (fun ρ=>opEval op (f ρ) (g ρ)) (p.1,p.2.rememberApply op a b p.1) where
 wf:=h.wf.rememberApply (ha.mono h.extends_) (hb.mono h.extends_) h.represents
 extends_:=h.extends_
 represents:=rememberApply_represents h.represents

theorem mk_built_of_children {bdd bdd1 bdd2:Bdd} {nlo nhi:ℕ} {fl fh:BoolFun}
  (hl:Built bdd fl (nlo,bdd1)) (hh:Built bdd1 fh (nhi,bdd2))
  (hfl:∀ x ≤ v, ¬DependsOn fl x) (hfh:∀ x ≤ v, ¬DependsOn fh x) :
  Built bdd (fun ρ=>if ρ v then fh ρ else fl ρ) (mk v nlo nhi bdd2) :=
 .trans (hl.extends_.trans hh.extends_)
  (mk_built hh.wf (hl.represents.mono hh.extends_) hh.represents hfl hfh)

theorem negFuel_built (fuel:ℕ) {bdd:Bdd} (hw:bdd.Wf)
  (hn:Represents bdd n f) (hfuel:n < fuel) :
  ∃ p, negFuel fuel n bdd=some p ∧ Built bdd (fun ρ=>!f ρ) p := by
 induction fuel generalizing n bdd f with
 | zero=>exact absurd hfuel (Nat.not_lt_zero n)
 | succ fuel ih=>
  unfold negFuel
  split
  · rename_i cached hc
    obtain ⟨g,hg,hr⟩:=hw.negMemo n cached hc
    have hgf:=hw.represents_unique hg hn
    exact ⟨_,rfl,.of_represents hw (hr.congr fun ρ=>by rw [hgf])⟩
  · split
    · rename_i hnone
      obtain ⟨nd,hnd⟩:=hw.node_of_represents hn
      simp [hnd] at hnone
    · rename_i hterm
      have hval:=(hw.terminal_of_represents hn hterm).2
      have hone:Built bdd (fun ρ=>!f ρ) (1,bdd):=
       .of_represents hw ((represents_one bdd).congr fun ρ=>by simp [hval])
      exact ⟨_,rfl,hone.rememberNeg hn⟩
    · rename_i hterm
      have hval:=(hw.terminal_of_represents hn hterm).2
      have hzero:Built bdd (fun ρ=>!f ρ) (0,bdd):=
       .of_represents hw ((represents_zero bdd).congr fun ρ=>by simp [hval])
      exact ⟨_,rfl,hzero.rememberNeg hn⟩
    · rename_i v lo hi hbranch
      obtain ⟨hlo,hhi⟩:=hw.child n v lo hi hbranch
      obtain ⟨fl,fh,hl,hh,hsplit,hfl,hfh⟩:=hw.split hn hbranch
      obtain ⟨⟨nlo,bdd1⟩,eq1,b1⟩:=ih hw hl (by omega)
      obtain ⟨⟨nhi,bdd2⟩,eq2,b2⟩:=ih b1.wf (hh.mono b1.extends_) (by omega)
      have hres:Built bdd (fun ρ=>!f ρ) (mk v nlo nhi bdd2):=by
       refine (mk_built_of_children b1 b2 ?_ ?_).congr fun ρ=>?_
       · exact fun x hx=>not_dependsOn_map₂ (fun a _=>!a) (hfl x hx) (hfl x hx)
       · exact fun x hx=>not_dependsOn_map₂ (fun a _=>!a) (hfh x hx) (hfh x hx)
       · rw [hsplit]
         split_ifs <;> rfl
      refine ⟨_, ?_,hres.rememberNeg hn⟩
      simp only [eq1,eq2,Option.bind_eq_bind,Option.bind_some]
      rfl

theorem neg_built {bdd:Bdd} (hw:bdd.Wf)
  (hn:Represents bdd n f) : ∃ p, neg n bdd=some p ∧ Built bdd (fun ρ=>!f ρ) p :=
 negFuel_built (n+1) hw hn (Nat.lt_succ_self n)

theorem opEval_self (op:Op) (b:Bool) : opEval op b b=b := by
 cases op <;> cases b <;> rfl

theorem Bdd.Wf.cofactors {bdd:Bdd} (hw:bdd.Wf) {top:ℕ} {an:Node}
  (ha:Represents bdd a f) (han:bdd.nodes a=some an) (htop:WithTop.some top ≤ an.topVar) :
  ∃ f0 f1, Represents bdd (an.cofactors a (WithTop.some top)).1 f0 ∧ Represents bdd (an.cofactors a (WithTop.some top)).2 f1 ∧
   (∀ ρ, f ρ = if ρ top then f1 ρ else f0 ρ) ∧
   (∀ x ≤ top, ¬DependsOn f0 x) ∧ (∀ x ≤ top, ¬DependsOn f1 x) ∧
   (an.cofactors a (WithTop.some top)).1 ≤ a ∧ (an.cofactors a (WithTop.some top)).2 ≤ a ∧
   (an.topVar=WithTop.some top → (an.cofactors a (WithTop.some top)).1 < a ∧ (an.cofactors a (WithTop.some top)).2 < a) := by
 cases an with
 | terminal b=>
  have hval:=(hw.terminal_of_represents ha han).2
  have hconst:∀ x ≤ top, ¬DependsOn f x:=by
   rintro x _ ⟨ρ,hρ⟩
   exact hρ (by rw [hval,hval])
  refine ⟨f,f,ha,ha,fun ρ=>by rw [ite_self],hconst,hconst,le_rfl,le_rfl, ?_⟩
  exact fun h=>absurd h WithTop.top_ne_coe
 | branch v lo hi=>
  obtain ⟨fl,fh,hl,hh,hsplit,hfl,hfh⟩:=hw.split ha han
  obtain ⟨hlo,hhi⟩:=hw.child a v lo hi han
  have hle:top ≤ v:=WithTop.coe_le_coe.1 htop
  by_cases heq:v=top
  · subst heq
    simp only [Node.cofactors,if_true]
    exact ⟨fl,fh,hl,hh,hsplit,hfl,hfh,hlo.le,hhi.le,fun _=>⟨hlo,hhi⟩⟩
  · have hne:WithTop.some v ≠ WithTop.some top:=fun h=>heq (WithTop.coe_injective h)
    have hlt:top < v:=lt_of_le_of_ne hle (Ne.symm heq)
    have hf:∀ x ≤ top, ¬DependsOn f x:=by
     rintro x hx ⟨ρ,hρ⟩
     have hxv:v ≠ x:=by omega
     apply hρ
     rw [hsplit,hsplit,Function.update_of_ne hxv,Function.update_of_ne hxv,
      update_eq_of_not_dependsOn (hfl x (by omega)),update_eq_of_not_dependsOn (hfl x (by omega)),
      update_eq_of_not_dependsOn (hfh x (by omega)),update_eq_of_not_dependsOn (hfh x (by omega))]
    simp only [Node.cofactors,if_neg hne]
    refine ⟨f,f,ha,ha,fun ρ=>by rw [ite_self],hf,hf,le_rfl,le_rfl, ?_⟩
    exact fun h=>absurd h hne

theorem Bdd.Wf.operands {bdd:Bdd} (hw:bdd.Wf) {top:ℕ} {an bn:Node}
  (ha:Represents bdd a f) (hb:Represents bdd b g) (han:bdd.nodes a=some an)
  (hbn:bdd.nodes b=some bn) (htop:min an.topVar bn.topVar=WithTop.some top) :
  ∃ f0 f1 g0 g1, Represents bdd (an.cofactors a (WithTop.some top)).1 f0 ∧
   Represents bdd (an.cofactors a (WithTop.some top)).2 f1 ∧
   Represents bdd (bn.cofactors b (WithTop.some top)).1 g0 ∧
   Represents bdd (bn.cofactors b (WithTop.some top)).2 g1 ∧
   (∀ ρ, f ρ = if ρ top then f1 ρ else f0 ρ) ∧ (∀ ρ, g ρ = if ρ top then g1 ρ else g0 ρ) ∧
   (∀ x ≤ top, ¬DependsOn f0 x) ∧ (∀ x ≤ top, ¬DependsOn f1 x) ∧
   (∀ x ≤ top, ¬DependsOn g0 x) ∧ (∀ x ≤ top, ¬DependsOn g1 x) ∧
   (an.cofactors a (WithTop.some top)).1+(bn.cofactors b (WithTop.some top)).1 < a+b ∧
   (an.cofactors a (WithTop.some top)).2+(bn.cofactors b (WithTop.some top)).2 < a+b := by
 have hta:WithTop.some top ≤ an.topVar:=htop ▸ min_le_left _ _
 have htb:WithTop.some top ≤ bn.topVar:=htop ▸ min_le_right _ _
 obtain ⟨f0,f1,ra0,ra1,hf,hf0,hf1,la0,la1,lta⟩:=hw.cofactors ha han hta
 obtain ⟨g0,g1,rb0,rb1,hg,hg0,hg1,lb0,lb1,ltb⟩:=hw.cofactors hb hbn htb
 refine ⟨f0,f1,g0,g1,ra0,ra1,rb0,rb1,hf,hg,hf0,hf1,hg0,hg1, ?_⟩
 rcases min_choice an.topVar bn.topVar with hm | hm
 · obtain ⟨h0,h1⟩:=lta (hm.symm.trans htop)
   exact ⟨Nat.add_lt_add_of_lt_of_le h0 lb0,Nat.add_lt_add_of_lt_of_le h1 lb1⟩
 · obtain ⟨h0,h1⟩:=ltb (hm.symm.trans htop)
   exact ⟨Nat.add_lt_add_of_le_of_lt la0 h0,Nat.add_lt_add_of_le_of_lt la1 h1⟩

theorem applyFuel_built (fuel:ℕ) (op:Op) {bdd:Bdd}
  (hw:bdd.Wf) (ha:Represents bdd a f) (hb:Represents bdd b g) (hfuel:a+b < fuel) :
  ∃ p, applyFuel fuel op a b bdd=some p ∧ Built bdd (fun ρ=>opEval op (f ρ) (g ρ)) p := by
 induction fuel generalizing a b bdd f g with
 | zero=>exact absurd hfuel (Nat.not_lt_zero _)
 | succ fuel ih=>
  unfold applyFuel
  split_ifs with heq hterm
  · subst heq
    have hfg:=hw.represents_unique ha hb
    refine ⟨_,rfl,.of_represents hw (ha.congr fun ρ=>?_)⟩
    rw [←hfg,opEval_self]
  · have terminal:∀ {c:ℕ}, isTerminal c=true →
      ∃ v, bdd.nodes c=some (.terminal v) := by
     intro c hc
     rcases (by simpa [isTerminal] using hc : c=0 ∨ c=1) with rfl | rfl
     · exact ⟨_,hw.zero⟩
     · exact ⟨_,hw.one⟩
    obtain ⟨hat,hbt⟩ : isTerminal a=true ∧ isTerminal b=true:=by simpa using hterm
    obtain ⟨av,hav⟩:=terminal hat
    obtain ⟨bv,hbv⟩:=terminal hbt
    have hf:=(hw.terminal_of_represents ha hav).2
    have hg:=(hw.terminal_of_represents hb hbv).2
    simp only [hav,hbv]
    split_ifs with hop
    · exact ⟨_,rfl,.of_represents hw ((represents_one bdd).congr fun ρ=>by rw [hf,hg,hop])⟩
    · have hop:opEval op av bv=false:=by simpa using hop
      exact ⟨_,rfl,.of_represents hw ((represents_zero bdd).congr fun ρ=>by rw [hf,hg,hop])⟩
  · split
    · rename_i cached hc
      obtain ⟨f', g', hf', hg', hr⟩:=hw.applyMemo op a b cached hc
      have hff:=hw.represents_unique hf' ha
      have hgg:=hw.represents_unique hg' hb
      exact ⟨_,rfl,.of_represents hw (hr.congr fun ρ=>by rw [hff,hgg])⟩
    · obtain ⟨an,han⟩:=hw.node_of_represents ha
      obtain ⟨bn,hbn⟩:=hw.node_of_represents hb
      simp only [han,hbn,Option.bind_eq_bind,Option.bind_some]
      split
      · rename_i htop
        obtain ⟨hta,htb⟩:=min_eq_top.1 (show min an.topVar bn.topVar = ⊤ from htop)
        have isTerm:∀ {c:ℕ} {cn:Node} {k:BoolFun}, Represents bdd c k →
          bdd.nodes c=some cn → cn.topVar = ⊤ → isTerminal c=true := by
         intro c cn k hc hcn ht
         cases cn with
         | terminal v=>exact (hw.terminal_of_represents hc hcn).1
         | branch v lo hi=>exact absurd ht (WithTop.coe_ne_top)
        exact absurd (by rw [isTerm ha han hta,isTerm hb hbn htb]; rfl) hterm
      · rename_i top htop
        obtain ⟨f0,f1,g0,g1,ra0,ra1,rb0,rb1,hf,hg,hf0,hf1,hg0,hg1,hlt⟩:=
         hw.operands ha hb han hbn htop
        have hle:a+b ≤ fuel:=Nat.lt_succ_iff.1 hfuel
        obtain ⟨⟨loRes,bdd1⟩,eq1,b1⟩:=ih hw ra0 rb0 (hlt.1.trans_le hle)
        obtain ⟨⟨hiRes,bdd2⟩,eq2,b2⟩:=
         ih b1.wf (ra1.mono b1.extends_) (rb1.mono b1.extends_) (hlt.2.trans_le hle)
        have hres:Built bdd (fun ρ=>opEval op (f ρ) (g ρ)) (mk top loRes hiRes bdd2):=by
         refine (mk_built_of_children b1 b2 ?_ ?_).congr fun ρ=>?_
         · exact fun x hx=>not_dependsOn_map₂ (opEval op) (hf0 x hx) (hg0 x hx)
         · exact fun x hx=>not_dependsOn_map₂ (opEval op) (hf1 x hx) (hg1 x hx)
         · rw [hf,hg]
           split_ifs <;> rfl
        refine ⟨_, ?_,hres.rememberApply ha hb⟩
        simp only [eq1,eq2,Option.bind_some]
        rfl

theorem apply_built (op:Op) {bdd:Bdd} (hw:bdd.Wf)
  (ha:Represents bdd a f) (hb:Represents bdd b g) :
  ∃ p, apply op a b bdd=some p ∧ Built bdd (fun ρ=>opEval op (f ρ) (g ρ)) p :=
 applyFuel_built (a+b+1) op hw ha hb (Nat.lt_succ_self _)

theorem not_dependsOn_restrict {val:Bool} (h:¬DependsOn f x) :
  ¬DependsOn (fun ρ=>f (Function.update ρ v val)) x := by
 rintro ⟨ρ,hρ⟩
 by_cases hx:x=v
 · subst hx
   simp at hρ
 · apply hρ
   simp only [Function.update_comm hx,update_eq_of_not_dependsOn h]

theorem restrictVarFuel_built (fuel v:ℕ) (val:Bool) {bdd:Bdd}
  (hw:bdd.Wf) (hn:Represents bdd n f) (hfuel:n < fuel) :
  ∃ p, restrictVarFuel fuel v val n bdd=some p ∧
   Built bdd (fun ρ=>f (Function.update ρ v val)) p := by
 induction fuel generalizing n bdd f with
 | zero=>exact absurd hfuel (Nat.not_lt_zero n)
 | succ fuel ih=>
  unfold restrictVarFuel
  split
  · rename_i hnone
    obtain ⟨nd,hnd⟩:=hw.node_of_represents hn
    simp [hnd] at hnone
  · rename_i b hterm
    have hval:=(hw.terminal_of_represents hn hterm).2
    exact ⟨_,rfl,.of_represents hw (hn.congr fun ρ=>by rw [hval,hval])⟩
  · rename_i w lo hi hbranch
    obtain ⟨hlo,hhi⟩:=hw.child n w lo hi hbranch
    obtain ⟨fl,fh,hl,hh,hsplit,hfl,hfh⟩:=hw.split hn hbranch
    split_ifs with hwv hval
    · subst hwv hval
      refine ⟨_,rfl,.of_represents hw (hh.congr fun ρ=>?_)⟩
      simp [hsplit,update_eq_of_not_dependsOn (hfh w le_rfl)]
    · subst hwv
      obtain rfl : val=false:=by simpa using hval
      refine ⟨_,rfl,.of_represents hw (hl.congr fun ρ=>?_)⟩
      simp [hsplit,update_eq_of_not_dependsOn (hfl w le_rfl)]
    · obtain ⟨⟨nlo,bdd1⟩,eq1,b1⟩:=ih hw hl (by omega)
      obtain ⟨⟨nhi,bdd2⟩,eq2,b2⟩:=ih b1.wf (hh.mono b1.extends_) (by omega)
      refine ⟨mk w nlo nhi bdd2,by simp [eq1,eq2], ?_⟩
      refine (mk_built_of_children b1 b2 ?_ ?_).congr fun ρ=>?_
      · exact fun x hx=>not_dependsOn_restrict (hfl x hx)
      · exact fun x hx=>not_dependsOn_restrict (hfh x hx)
      · rw [hsplit,Function.update_of_ne hwv]

theorem restrictVar_built (v:ℕ) (val:Bool) {bdd:Bdd} (hw:bdd.Wf) (hn:Represents bdd n f) :
  ∃ p, restrictVar v val n bdd=some p ∧
   Built bdd (fun ρ=>f (Function.update ρ v val)) p :=
 restrictVarFuel_built (n+1) v val hw hn (Nat.lt_succ_self n)

/-- Descending the diagram collects the variables of its tree. The nodes seen
    are all above the current one, so none of them is met again. -/
theorem supportGo_spec {bdd:Bdd} (hw:bdd.Wf) (fuel:ℕ) {t:DecisionTree.Tree ℕ}
  (ht:Denotes bdd n t) (hfuel:n < fuel) (seen:Std.TreeSet NodeId) (vars:Std.TreeSet ℕ)
  (hseen:∀ s ∈ seen, n < s) :
  ∃ r, supportGo bdd fuel seen vars n=some r ∧ ∀ x, x ∈ r ↔ x ∈ vars ∨ t.Occurs x := by
 induction fuel generalizing n t seen vars with
 | zero=>exact absurd hfuel (Nat.not_lt_zero n)
 | succ fuel ih=>
  unfold supportGo
  cases ht with
  | zero=>exact ⟨vars,by simp [isTerminal],by simp⟩
  | one=>exact ⟨vars,by simp [isTerminal],by simp⟩
  | @branch _ v lo hi tl th h hl hh=>
   obtain ⟨hlo,hhi⟩:=hw.child n v lo hi h
   have hterm:isTerminal n=false:=by
    have h0:n ≠ 0:=fun h0=>by simp [h0,hw.zero] at h
    have h1:n ≠ 1:=fun h1=>by simp [h1,hw.one] at h
    simp [isTerminal,h0,h1]
   have hnew:n ∉ seen:=fun hs=>lt_irrefl n (hseen n hs)
   have below:∀ m < n, ∀ s ∈ seen.insert n, m < s:=by
    intro m hm s hs
    rcases Std.TreeSet.mem_insert.1 hs with heq | hs
    · rwa [←Std.LawfulEqOrd.eq_of_compare heq]
    · exact hm.trans (hseen s hs)
   obtain ⟨r1,eq1,hr1⟩:=ih hl (by omega) (seen.insert n) (vars.insert v) (below lo hlo)
   obtain ⟨r2,eq2,hr2⟩:=ih hh (by omega) (seen.insert n) r1 (below hi hhi)
   refine ⟨r2,by simp [hterm,hnew,h,eq1,eq2],fun x=>?_⟩
   rw [hr2,hr1,Std.TreeSet.mem_insert,Std.compare_eq_iff_eq,occurs_node]
   tauto

theorem support_spec {bdd:Bdd} (hw:bdd.Wf) (hn:Represents bdd n f) :
  ∃ r, support n bdd=some r ∧ ∀ x, x ∈ r ↔ DependsOn f x := by
 obtain ⟨t,ht,hc,hf⟩:=hn
 obtain ⟨r,eq,hr⟩:=supportGo_spec hw (n+1) ht (Nat.lt_succ_self n) ∅ ∅ (by simp)
 refine ⟨r,eq,fun x=>?_⟩
 rw [hr,hc.occurs_iff]
 simp [hf]

theorem determinedFromRoot_spec {bdd:Bdd} (hw:bdd.Wf)
  (hn:Represents bdd n f) (b:Bool) : determinedFromRoot n=some b ↔ ∀ ρ, f ρ=b := by
 cases b with
 | false=>
  rw [←hw.eq_zero_iff hn]
  unfold determinedFromRoot
  split <;> simp_all
 | true=>
  rw [←hw.eq_one_iff hn]
  unfold determinedFromRoot
  split <;> simp_all

end L4Ide.BooleanDecisionQuery
