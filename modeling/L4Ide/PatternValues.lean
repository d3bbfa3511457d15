import Mathlib.Data.List.Basic
import Mathlib.Data.List.Nodup
import Mathlib.Data.Set.Finite.Basic

set_option autoImplicit false

/-!
# Types and values that patterns take apart

The types of a program with what their values are made of, and what a domain of
values owes to them: a value of a data type is one constructor applied to values
of the constructor's argument types, a value of a literal type is one of endless
keys, and every type has a value. Values may be finite trees or infinite ones.
-/
namespace L4Ide.PatternValues

/-- What the values of a type are: applications of constructors, keys, or
    something that no pattern takes apart. -/
inductive Shape (C K T:Type) where
 | data (constructors:List (C × List T))
 | literal (keys:Set K)
 | other

structure Signature (C K T:Type) where
 shape : T → Shape C K T
 distinct : ∀ t cs, shape t = .data cs → (cs.map Prod.fst).Nodup
 endless : ∀ t ks, shape t = .literal ks → ks.Infinite

structure Values {C K T:Type} (sig:Signature C K T) where
 V : Type
 HasType : T → V → Prop
 con : C → List V → V
 key : K → V
 con_inj : ∀ c vs c' vs', con c vs=con c' vs' → c=c' ∧ vs=vs'
 key_inj : ∀ k k', key k=key k' → k=k'
 data_iff : ∀ t cs v, sig.shape t = .data cs →
  (HasType t v ↔ ∃ c ts vs, (c,ts) ∈ cs ∧ List.Forall₂ HasType ts vs ∧ v=con c vs)
 literal_iff : ∀ t ks v, sig.shape t = .literal ks → (HasType t v ↔ ∃ k ∈ ks, v=key k)
 inhabited : ∀ t, ∃ v, HasType t v

variable {C K T:Type} {sig:Signature C K T}

variable {t:T}

theorem Signature.args_unique {cs:List (C × List T)} (h:sig.shape t = .data cs)
  {c:C} {ts ts' : List T} (hc:(c,ts) ∈ cs) (hc' : (c,ts') ∈ cs) : ts=ts' := by
 have heq:=List.inj_on_of_nodup_map (sig.distinct t cs h) hc hc' rfl
 exact (Prod.mk.inj heq).2

theorem Signature.exists_fresh_key {ks:Set K} (h:sig.shape t = .literal ks)
  (taken:List K) : ∃ k ∈ ks, k ∉ taken := by
 classical
 obtain ⟨k,hk,hnot⟩:=(sig.endless t ks h).exists_notMem_finset taken.toFinset
 exact ⟨k,hk,fun hmem=>hnot (List.mem_toFinset.2 hmem)⟩

namespace Values
variable (M:Values sig)

abbrev AllHaveType : List T → List M.V → Prop := List.Forall₂ M.HasType

theorem exists_allHaveType (ts:List T) : ∃ vs, M.AllHaveType ts vs := by
 induction ts with
 | nil=>exact ⟨[],.nil⟩
 | cons t ts ih=>
  obtain ⟨v,hv⟩:=M.inhabited t
  obtain ⟨vs,hvs⟩:=ih
  exact ⟨v::vs,.cons hv hvs⟩

variable {M}

variable {t:T} {cs:List (C × List T)} {c:C} {ts us:List T} {vs:List M.V}

theorem hasType_con (h:sig.shape t = .data cs)
  (hc:(c,ts) ∈ cs) (hvs:M.AllHaveType ts vs) :
  M.HasType t (M.con c vs) :=
 (M.data_iff t cs _ h).2 ⟨c,ts,vs,hc,hvs,rfl⟩

theorem args_of_hasType_con (h:sig.shape t = .data cs)
  (hc:(c,ts) ∈ cs) (hv:M.HasType t (M.con c vs)) :
  M.AllHaveType ts vs := by
 obtain ⟨c', ts', vs', hc', hvs', heq⟩:=(M.data_iff t cs _ h).1 hv
 obtain ⟨rfl,rfl⟩:=M.con_inj _ _ _ _ heq
 rwa [sig.args_unique h hc hc']

theorem hasType_key {ks:Set K} (h:sig.shape t = .literal ks) {k:K} (hk:k ∈ ks) :
  M.HasType t (M.key k) :=
 (M.literal_iff t ks _ h).2 ⟨k,hk,rfl⟩

theorem AllHaveType.append {ws:List M.V} (h:M.AllHaveType ts vs)
  (h' : M.AllHaveType us ws) : M.AllHaveType (ts ++ us) (vs ++ ws) :=
 List.rel_append h h'

theorem AllHaveType.split (h:M.AllHaveType (ts ++ us) vs) :
  ∃ ws zs, vs=ws ++ zs ∧ M.AllHaveType ts ws ∧ M.AllHaveType us zs := by
 induction ts generalizing vs with
 | nil=>exact ⟨[],vs,rfl,.nil,h⟩
 | cons t ts ih=>
  cases h with
  | cons hv hvs=>
   obtain ⟨ws,zs,rfl,hws,hzs⟩:=ih hvs
   exact ⟨_::ws,zs,rfl,.cons hv hws,hzs⟩

end Values

/-- The finite values. -/
inductive Tree (C K:Type) where
 | con (c:C) (ts:List (Tree C K))
 | key (k:K)
 | other

namespace Tree

inductive HasType (sig:Signature C K T) : T → Tree C K → Prop where
 | con {t:T} {cs:List (C × List T)} {c:C} {ts:List T} {vs:List (Tree C K)}
   (hshape:sig.shape t = .data cs) (hc:(c,ts) ∈ cs)
   (hvs:List.Forall₂ (HasType sig) ts vs) : HasType sig t (.con c vs)
 | key {t:T} {ks:Set K} {k:K} (hshape:sig.shape t = .literal ks) (hk:k ∈ ks) :
   HasType sig t (.key k)
 | other {t:T} (hshape:sig.shape t = .other) : HasType sig t .other

variable {t:T} {v:Tree C K}

theorem hasType_data_iff {cs:List (C × List T)}
  (h:sig.shape t = .data cs) :
  HasType sig t v ↔
   ∃ c ts vs, (c,ts) ∈ cs ∧ List.Forall₂ (HasType sig) ts vs ∧ v = .con c vs := by
 constructor
 · intro hv
   cases hv with
   | con hshape hc hvs=>
    rw [h] at hshape
    cases hshape
    exact ⟨_,_,_,hc,hvs,rfl⟩
   | key hshape _=>simp [h] at hshape
   | other hshape=>simp [h] at hshape
 · rintro ⟨c,ts,vs,hc,hvs,rfl⟩
   exact .con h hc hvs

theorem hasType_literal_iff {ks:Set K} (h:sig.shape t = .literal ks) :
  HasType sig t v ↔ ∃ k ∈ ks, v = .key k := by
 constructor
 · intro hv
   cases hv with
   | con hshape _ _=>simp [h] at hshape
   | key hshape hk=>
    rw [h] at hshape
    cases hshape
    exact ⟨_,hk,rfl⟩
   | other hshape=>simp [h] at hshape
 · rintro ⟨k,hk,rfl⟩
   exact .key h hk

/-- Where every type has a finite value, the finite values are a domain of values. -/
def values (sig:Signature C K T) (inhabited:∀ t, ∃ v, HasType sig t v) : Values sig where
 V := Tree C K
 HasType := HasType sig
 con:=.con
 key:=.key
 con_inj _ _ _ _ h := Tree.con.inj h
 key_inj _ _ h := Tree.key.inj h
 data_iff _ _ _ h := hasType_data_iff h
 literal_iff _ _ _ h := hasType_literal_iff h
 inhabited:=inhabited

end Tree

end L4Ide.PatternValues
