import L4Ide.UnifyOutcomes

set_option autoImplicit false

/-!
# Applying a substitution ends

What an acyclic substitution is applied to is done in some number of steps, although the
substitution changes on the way: it only gets terms in which nothing is bound.
-/
namespace L4Ide.SubstitutionApplies
open Syntax Unify TypeMeaning TriangularSystems UnifyOutcomes

variable {env:CheckEnv}

theorem traverse_mono {A B S:Type} {f g:A → S → Option (B × S)} (as:List A)
  (hfg:∀ a s r, f a s=some r → g a s=some r) :
  ∀ {s:S} {r:List B × S},
   Unify.traverse f as s=some r → Unify.traverse g as s=some r := by
 induction as with
 | nil=>exact fun h=>h
 | cons a as ih=>
  intro s r h
  simp only [Unify.traverse,Option.bind_eq_bind,Option.bind_eq_some_iff] at h ⊢
  obtain ⟨p,hp,q,hq,heq⟩:=h
  exact ⟨p,hfg a s p hp,q,ih hq,heq⟩

def applyArg (n:ℕ) : Option Resolved × RType → Substitution →
  Option ((Option Resolved × RType) × Substitution)
 | (m,u), s=>do
  let (u', s1) ← applySubst n u s
  return ((m,u'),s1)

theorem applySubst_fun (n:ℕ) (onts:List (Option Resolved × RType)) (t:RType)
  (s:Substitution) :
  applySubst (n+1) (.fun_ onts t) s =
   (Unify.traverse (applyArg n) onts s).bind fun p=>(applySubst n t p.2).bind fun q=>
    some (.fun_ p.1 q.1,q.2) := rfl

theorem applyArg_mono {n m:ℕ} (h:∀ {t:RType} {s:Substitution} {r:RType × Substitution},
   applySubst n t s=some r → applySubst m t s=some r) (p:Option Resolved × RType)
  (s:Substitution) (r:(Option Resolved × RType) × Substitution)
  (hr:applyArg n p s=some r) : applyArg m p s=some r := by
 simp only [applyArg,Option.bind_eq_bind,Option.bind_eq_some_iff] at hr ⊢
 obtain ⟨q,hq,heq⟩:=hr
 exact ⟨q,h hq,heq⟩

theorem applySubst_succ {n:ℕ} : ∀ {t:RType} {s:Substitution} {r:RType × Substitution},
  applySubst n t s=some r → applySubst (n+1) t s=some r := by
 induction n with
 | zero=>exact fun h=>by cases h
 | succ n ih=>
  intro t s r h
  cases t with
  | type=>exact h
  | tyApp c ts=>
   rw [applySubst] at h ⊢
   simp only [Option.bind_eq_bind,Option.bind_eq_some_iff] at h ⊢
   obtain ⟨p,hp,heq⟩:=h
   exact ⟨p,traverse_mono ts (fun _ _ _=>ih) hp,heq⟩
  | fun_ onts t=>
   rw [applySubst_fun] at h ⊢
   simp only [Option.bind_eq_some_iff] at h ⊢
   obtain ⟨p,hp,q,hq,heq⟩:=h
   exact ⟨p,traverse_mono onts (applyArg_mono ih) hp,q,ih hq,heq⟩
  | forall_ ns t=>
   rw [applySubst] at h ⊢
   simp only [Option.bind_eq_bind,Option.bind_eq_some_iff] at h ⊢
   obtain ⟨p,hp,heq⟩:=h
   exact ⟨p,ih hp,heq⟩
  | infVar rn i=>
   rw [applySubst] at h ⊢
   cases hi:s i with
   | none=>
    rw [hi] at h
    exact h
   | some u=>
    rw [hi] at h
    simp only [Option.bind_eq_bind,Option.bind_eq_some_iff] at h ⊢
    obtain ⟨p,hp,heq⟩:=h
    exact ⟨p,ih hp,heq⟩

theorem applySubst_mono {n m:ℕ} (hnm:n ≤ m) {t:RType} {s:Substitution}
  {r:RType × Substitution} (h:applySubst n t s=some r) : applySubst m t s=some r := by
 induction hnm with
 | refl=>exact h
 | step _ ih=>exact applySubst_succ ih

section Ends
variable (env) (s0:Substitution)

/-- As it was, but for bound variables that got a term with nothing bound in it. -/
def Compressed (s:Substitution) : Prop :=
 ∀ i, s i=s0 i ∨ s0 i ≠ none ∧ ∃ t, s i=some t ∧ Resolved (types env) s0 t

def Ends {A:Type} (f:ℕ → A → Substitution → Option (A × Substitution)) (Q:A → Prop) (a:A) :
  Prop :=
 ∀ s, Compressed env s0 s → ∃ n a' s', f n a s=some (a', s') ∧ Q a' ∧ Compressed env s0 s'

variable {env s0}

theorem Compressed.update {s:Substitution} (h:Compressed env s0 s) {i:ℤ} {t:RType}
  (hi:s0 i ≠ none) (ht:Resolved (types env) s0 t) :
  Compressed env s0 (Function.update s i (some t)) := by
 intro j
 by_cases hji:j=i
 · rw [hji,Function.update_self]
   exact .inr ⟨hi,t,rfl,ht⟩
 · rw [Function.update_of_ne hji]
   exact h j

theorem ends_traverse {A:Type} {f:ℕ → A → Substitution → Option (A × Substitution)}
  {Q:A → Prop} (hmono:∀ n m, n ≤ m → ∀ a s r, f n a s=some r → f m a s=some r)
  (as:List A) (h:∀ a ∈ as, Ends env s0 f Q a) :
  Ends env s0 (fun n=>Unify.traverse (f n)) (fun as' =>∀ a' ∈ as', Q a') as := by
 induction as with
 | nil=>exact fun s hs=>⟨0,[],s,rfl,fun a ha=>absurd ha List.not_mem_nil,hs⟩
 | cons a as ih=>
  intro s hs
  obtain ⟨n,a', s1,ha,hQ,hs1⟩:=h a List.mem_cons_self s hs
  obtain ⟨m,as', s2,has,hQs,hs2⟩:=ih (fun b hb=>h b (List.mem_cons_of_mem _ hb)) s1 hs1
  refine ⟨max n m,a' :: as', s2, ?_,List.forall_mem_cons.2 ⟨hQ,hQs⟩,hs2⟩
  have ha' :=hmono n _ (Nat.le_max_left n m) a s _ ha
  have has' :=traverse_mono as (hmono m _ (Nat.le_max_right n m)) has
  simp only [Unify.traverse,Option.bind_eq_bind,ha', has', Option.bind_some]
  rfl

theorem ends_arg {p:Option Resolved × RType}
  (h:Ends env s0 applySubst (Resolved (types env) s0) p.2) :
  Ends env s0 applyArg (fun p' =>Resolved (types env) s0 p'.2) p := by
 intro s hs
 obtain ⟨n,u', s', hu,hQ,hs'⟩:=h s hs
 refine ⟨n,(p.1,u'),s', ?_,hQ,hs'⟩
 rw [applyArg,hu]
 rfl

mutual

theorem ends_of_vars : ∀ t : RType,
  (∀ i ∈ infVars t, ∀ rn, Ends env s0 applySubst (Resolved (types env) s0) (.infVar rn i)) →
  Ends env s0 applySubst (Resolved (types env) s0) t
 | .type, _, s, hs=>by
  have hresolved:Resolved (types env) s0 .type:=fun j hj=>by cases hj
  exact ⟨1,.type,s,rfl,hresolved,hs⟩
 | .tyApp c ts, h, s, hs=>by
  have hmono:∀ n m, n ≤ m → ∀ (t:RType) s r, applySubst n t s=some r →
    applySubst m t s=some r := fun n m hnm t s r=>applySubst_mono hnm
  obtain ⟨n,ts', s', hts,hQ,hs'⟩:=ends_traverse hmono ts (endsEach_of_vars ts h) s hs
  refine ⟨n+1,.tyApp c ts', s', ?_,resolved_each hQ,hs'⟩
  dsimp only at hts
  rw [applySubst,hts]
  rfl
 | .fun_ onts t, h, s, hs=>by
  have hmono:∀ n m, n ≤ m → ∀ (p:Option Resolved × RType) s r, applyArg n p s=some r →
    applyArg m p s=some r := fun n m hnm=>applyArg_mono (applySubst_mono hnm)
  have hargs:=endsArgs_of_vars onts fun i hi=>h i (List.mem_append_left _ hi)
  obtain ⟨n,onts', s1,honts,hQ,hs1⟩:=
   ends_traverse hmono onts (fun p hp=>ends_arg (hargs p hp)) s hs
  obtain ⟨m,t', s2,ht,hQ', hs2⟩:=
   ends_of_vars t (fun i hi=>h i (List.mem_append_right _ hi)) s1 hs1
  refine ⟨max n m+1,.fun_ onts' t', s2, ?_,fun j hj=>?_,hs2⟩
  · have honts' :=traverse_mono onts (hmono n _ (Nat.le_max_left n m)) honts
    have ht' :=applySubst_mono (Nat.le_max_right n m) ht
    rw [applySubst_fun,honts', Option.bind_some,ht', Option.bind_some]
  · rcases List.mem_append.1 hj with hj | hj
    · exact resolved_args hQ j hj
    · exact hQ' j hj
 | .forall_ ns t, h, s, hs=>by
  obtain ⟨n,t', s', ht,hQ,hs'⟩:=ends_of_vars t h s hs
  refine ⟨n+1,.forall_ ns t', s', ?_,hQ,hs'⟩
  rw [applySubst,ht]
  rfl
 | .infVar rn i, h, s, hs=>h i List.mem_cons_self rn s hs

theorem endsEach_of_vars : ∀ ts : List RType,
  (∀ i ∈ infVarsEach ts, ∀ rn, Ends env s0 applySubst (Resolved (types env) s0) (.infVar rn i)) →
  ∀ t ∈ ts, Ends env s0 applySubst (Resolved (types env) s0) t
 | [], _, t, ht=>by cases ht
 | t::ts, h, u, hu=>by
  rcases List.mem_cons.1 hu with heq | hu
  · rw [heq]
    exact ends_of_vars t fun i hi=>h i (List.mem_append_left _ hi)
  · exact endsEach_of_vars ts (fun i hi=>h i (List.mem_append_right _ hi)) u hu

theorem endsArgs_of_vars : ∀ onts : List (Option Resolved × RType),
  (∀ i ∈ infVarsArgs onts, ∀ rn, Ends env s0 applySubst (Resolved (types env) s0) (.infVar rn i)) →
  ∀ p ∈ onts, Ends env s0 applySubst (Resolved (types env) s0) p.2
 | [], _, p, hp=>by cases hp
 | (n,t)::onts, h, p, hp=>by
  rcases List.mem_cons.1 hp with heq | hp
  · rw [heq]
    exact ends_of_vars t fun i hi=>h i (List.mem_append_left _ hi)
  · exact endsArgs_of_vars onts (fun i hi=>h i (List.mem_append_right _ hi)) p hp

end

theorem Compressed.eq_none {s:Substitution} (h:Compressed env s0 s) {i:ℤ} (hi:s0 i=none) :
  s i=none := by
 rcases h i with heq | ⟨hne,-⟩
 · rw [heq,hi]
 · exact absurd hi hne

theorem ends_unbound {i:ℤ} (hi:s0 i=none) (rn:RawName) :
  Ends env s0 applySubst (Resolved (types env) s0) (.infVar rn i) := by
 intro s hs
 refine ⟨1,.infVar rn i,s, ?_,fun j hj=>?_,hs⟩
 · rw [applySubst,hs.eq_none hi]
 · rw [List.mem_singleton.1 hj,hi]

theorem ends_infVar (h0:Acyclic (types env) s0) (i:ℤ) :
  ∀ rn, Ends env s0 applySubst (Resolved (types env) s0) (.infVar rn i) := by
 induction i using h0.induction with
 | _ i ih=>
  intro rn s hs
  cases hi:s0 i with
  | none=>exact ends_unbound hi rn s hs
  | some u0=>
   have hne:s0 i ≠ none:=by rw [hi]; exact Option.some_ne_none _
   obtain ⟨u,hu,hends⟩ : ∃ u, s i=some u ∧
     Ends env s0 applySubst (Resolved (types env) s0) u := by
    rcases hs i with heq | ⟨-,u,hu,hres⟩
    · exact ⟨u0,heq.trans hi,ends_of_vars u0 fun j hj=>ih j ⟨u0,hi,hj⟩⟩
    · exact ⟨u,hu,ends_of_vars u fun j hj rn=>ends_unbound (hres j hj) rn⟩
   obtain ⟨n,t', s', ht,hQ,hs'⟩:=hends s hs
   refine ⟨n+1,t', Function.update s' i (some t'), ?_,hQ,hs'.update hne hQ⟩
   rw [applySubst,hu]
   simp only [Option.bind_eq_bind,ht,Option.bind_some]
   rfl

end Ends

theorem exists_applySubst {s:Substitution} (hs:Acyclic (types env) s) (t:RType) :
  ∃ n t' s', applySubst n t s=some (t', s') := by
 obtain ⟨n,t', s', h,-⟩:=
  ends_of_vars t (fun i _ rn=>ends_infVar hs i rn) s fun i=>.inl rfl
 exact ⟨n,t', s', h⟩

end L4Ide.SubstitutionApplies
