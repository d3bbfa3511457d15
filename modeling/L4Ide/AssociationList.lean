import Mathlib.Data.Option.Basic
import Mathlib.Data.List.Basic

set_option autoImplicit false

/-!
# Association lists

Lists of pairs whose keys are compared by a Boolean equivalence. One traversal changes the entry of
a key, or adds one at the end.
-/
namespace L4Ide.AssociationList

section Lists

variable {K V W:Type} [BEq K]

def Once (list:List (K × V)) : Prop := list.Pairwise fun p q=>(p.1 == q.1)=false

instance (list:List (K × V)) : Decidable (Once list) :=
 inferInstanceAs (Decidable (list.Pairwise _))

/-- Change what is held under a key, if anything, at its first entry; `rename` gives the key that
the entry has afterwards. -/
def alter (key:K) (rename:K → K) (f:Option V → Option V) : List (K × V) → List (K × V)
 | []=>(f none).toList.map fun v=>(key,v)
 | (k,v)::rest=>
  if key == k then ((f (some v)).toList.map fun v' =>(rename k,v')) ++ rest
  else (k,v)::alter key rename f rest

/-- The values held under a key, in order. -/
def values (key:K) (list:List (K × V)) : List V :=
 (list.filter fun p=>key == p.1).map Prod.snd

theorem Once.map {list:List (K × V)} (h:Once list) {f:K × V → K × W}
  (hf:∀ p, (f p).1=p.1) : Once (list.map f) := by
 apply List.pairwise_map.mpr
 apply List.Pairwise.imp _ h
 intro p q hpq
 rwa [hf,hf]

theorem Once.filter {list:List (K × V)} (h:Once list) (p:K × V → Bool) :
  Once (list.filter p) :=
 List.Pairwise.filter p h

theorem lookup_cons_ite (key:K) (p:K × V) (list:List (K × V)) :
  (p::list).lookup key = if key == p.1 then some p.2 else list.lookup key := by
 rw [List.lookup_cons]
 cases key == p.1 with
 | true=>rfl
 | false=>rfl

theorem lookup_map (f:V → W) (key:K) (list:List (K × V)) :
  (list.map fun p=>(p.1,f p.2)).lookup key=(list.lookup key).map f := by
 induction list with
 | nil=>rfl
 | cons p list ih=>
  rw [List.map_cons,lookup_cons_ite,lookup_cons_ite,ih]
  cases key == p.1 with
  | true=>rfl
  | false=>rfl

theorem lookup_eq_none {key:K} {list:List (K × V)}
  (h:∀ p ∈ list, (key == p.1)=false) : list.lookup key=none := by
 induction list with
 | nil=>rfl
 | cons p list ih=>
  rw [List.lookup_cons,h p List.mem_cons_self]
  exact ih fun q hq=>h q (List.mem_cons_of_mem _ hq)

theorem mem_of_lookup {key:K} {list:List (K × V)} {v:V} (h:list.lookup key=some v) :
  ∃ k, (key == k)=true ∧ (k,v) ∈ list := by
 induction list with
 | nil=>cases h
 | cons p list ih=>
  rw [lookup_cons_ite] at h
  cases hkey:key == p.1 with
  | true=>
   rw [hkey] at h
   cases h
   exact ⟨p.1,hkey,List.mem_cons_self⟩
  | false=>
   rw [hkey] at h
   have ⟨k,hk,hmem⟩:=ih h
   exact ⟨k,hk,List.mem_cons_of_mem _ hmem⟩

theorem values_cons (key:K) (p:K × V) (list:List (K × V)) :
  values key (p::list)=(if key == p.1 then [p.2] else []) ++ values key list := by
 unfold values
 cases h:key == p.1 with
 | true=>simp [h]
 | false=>simp [h]

variable [EquivBEq K]

theorem lookup_congr {k k' : K} (h:(k == k')=true) (list:List (K × V)) :
  list.lookup k=list.lookup k' := by
 induction list with
 | nil=>rfl
 | cons p list ih=>rw [List.lookup_cons,List.lookup_cons,BEq.congr_left h,ih]

theorem not_beq_of_beq {k k' m:K} (h:(k == k')=true) (hm:(k' == m)=false) :
  (k == m)=false := by
 rw [BEq.congr_left h]
 exact hm

theorem lookup_of_mem {list:List (K × V)} (h:Once list) {p:K × V} (hp:p ∈ list) :
  list.lookup p.1=some p.2 := by
 induction list with
 | nil=>cases hp
 | cons q list ih=>
  have ⟨hfirst,hrest⟩:=List.pairwise_cons.mp h
  rw [lookup_cons_ite]
  cases List.mem_cons.mp hp with
  | inl heq=>rw [heq,if_pos BEq.rfl]
  | inr hmem=>
   rw [BEq.comm,hfirst p hmem]
   exact ih hrest hmem

theorem mem_alter {key:K} {rename:K → K} (hrename:∀ k, (key == k)=true → (key == rename k)=true)
  {f:Option V → Option V} {list:List (K × V)} {p:K × V} (h:p ∈ alter key rename f list) :
  (key == p.1)=true ∨ ∃ q ∈ list, q.1=p.1 := by
 induction list with
 | nil=>
  have ⟨v,_,hv⟩:=List.mem_map.mp h
  exact .inl (hv ▸ BEq.rfl)
 | cons q list ih=>
  unfold alter at h
  split at h
  · rename_i hkey
    cases List.mem_append.mp h with
    | inl hfirst=>
     have ⟨v,_,hv⟩:=List.mem_map.mp hfirst
     exact .inl (hv ▸ hrename _ hkey)
    | inr hrest=>exact .inr ⟨p,List.mem_cons_of_mem _ hrest,rfl⟩
  · cases List.mem_cons.mp h with
    | inl hfirst=>exact .inr ⟨q,List.mem_cons_self,hfirst ▸ rfl⟩
    | inr hrest=>
     cases ih hrest with
     | inl hkey=>exact .inl hkey
     | inr hmem=>
      have ⟨m,hm,heq⟩:=hmem
      exact .inr ⟨m,List.mem_cons_of_mem _ hm,heq⟩

section Alter

variable {key:K} {rename:K → K}

theorem Once.alter (hrename:∀ k, (key == k)=true → (key == rename k)=true)
  (f:Option V → Option V) {list:List (K × V)} (h:Once list) :
  Once (alter key rename f list) := by
 induction list with
 | nil=>
  unfold AssociationList.alter
  cases f none with
  | none=>exact List.Pairwise.nil
  | some v=>exact List.pairwise_singleton _ _
 | cons p list ih=>
  have ⟨hfirst,hrest⟩:=List.pairwise_cons.mp h
  unfold AssociationList.alter
  split
  · rename_i hkey
    cases f (some p.2) with
    | none=>exact hrest
    | some v=>
     refine List.pairwise_cons.mpr ⟨fun q hq=>?_,hrest⟩
     have hsame:(rename p.1 == p.1)=true:=BEq.trans (BEq.symm (hrename _ hkey)) hkey
     exact not_beq_of_beq hsame (hfirst q hq)
  · rename_i hkey
    refine List.pairwise_cons.mpr ⟨fun q hq=>?_,ih hrest⟩
    cases mem_alter hrename hq with
    | inl hq=>
     apply Bool.eq_false_iff.mpr
     intro hpq
     exact hkey (BEq.trans hq (BEq.symm hpq))
    | inr hq=>
     have ⟨m,hm,heq⟩:=hq
     exact heq ▸ hfirst m hm

theorem lookup_alter (hrename:∀ k, (key == k)=true → (key == rename k)=true)
  (f:Option V → Option V) {list:List (K × V)} (h:Once list) (k:K) :
  (alter key rename f list).lookup k =
   if k == key then f (list.lookup key) else list.lookup k := by
 induction list with
 | nil=>
  change List.lookup k ((f none).toList.map fun v=>(key,v)) = if k == key then f none else none
  cases f none with
  | none=>rw [ite_self]; rfl
  | some v=>exact lookup_cons_ite k (key,v) []
 | cons p list ih=>
  have ⟨hfirst,hrest⟩:=List.pairwise_cons.mp h
  unfold alter
  rw [lookup_cons_ite,lookup_cons_ite]
  cases hkey:key == p.1 with
  | true=>
   have hsame:(k == p.1)=(k == key):=(BEq.congr_right hkey).symm
   rw [if_pos rfl,if_pos rfl,hsame]
   cases hf:f (some p.2) with
   | none=>
    cases hk:k == key with
    | true=>
     rw [if_pos rfl]
     exact lookup_eq_none fun q hq=>not_beq_of_beq (hsame.trans hk) (hfirst q hq)
    | false=>rfl
   | some v=>
    change List.lookup k ((rename p.1,v)::list)=_
    rw [lookup_cons_ite,←BEq.congr_right (hrename _ hkey)]
    cases k == key with
    | true=>rfl
    | false=>rfl
  | false=>
   change List.lookup k (p::alter key rename f list)=_
   rw [lookup_cons_ite,ih hrest]
   cases hk:k == key with
   | true=>rw [not_beq_of_beq hk hkey]; rfl
   | false=>rfl

end Alter

section Folds

variable {X:Type} (f:X → Option V → Option V) {entries:List (K × X)}

theorem Once.foldl_alter {list:List (K × V)} (h:Once list) (entries:List (K × X)) :
  Once (entries.foldl (fun acc e=>AssociationList.alter e.1 (fun _=>e.1) (f e.2) acc) list) := by
 induction entries generalizing list with
 | nil=>exact h
 | cons e entries ih=>exact ih (h.alter (fun _ _=>BEq.rfl) (f e.2))

theorem lookup_foldl_alter (hentries:Once entries) {list:List (K × V)} (h:Once list) (k:K) :
  (entries.foldl (fun acc e=>alter e.1 (fun _=>e.1) (f e.2) acc) list).lookup k =
   (entries.lookup k).elim (list.lookup k) fun x=>f x (list.lookup k) := by
 induction entries generalizing list with
 | nil=>rfl
 | cons e entries ih=>
  have ⟨hfirst,hrest⟩:=List.pairwise_cons.mp hentries
  have hrename:∀ m, (e.1 == m)=true → (e.1 == e.1)=true:=fun _ _=>BEq.rfl
  rw [List.foldl_cons,ih hrest (h.alter hrename (f e.2)),lookup_alter hrename (f e.2) h,
   lookup_cons_ite]
  cases hk:k == e.1 with
  | true=>
   have hnone:entries.lookup k=none:=
    lookup_eq_none fun q hq=>not_beq_of_beq hk (hfirst q hq)
   rw [hnone,if_pos rfl,if_pos rfl,lookup_congr hk list]
   rfl
  | false=>rfl

end Folds

theorem lookup_filter (p:K → V → Bool) {k:K} (hp:∀ k' v, (k == k')=true → p k v=p k' v)
  {list:List (K × V)} (h:Once list) :
  (list.filter fun e=>p e.1 e.2).lookup k=(list.lookup k).filter (p k) := by
 induction list with
 | nil=>rfl
 | cons e list ih=>
  have ⟨hfirst,hrest⟩:=List.pairwise_cons.mp h
  rw [lookup_cons_ite,List.filter_cons]
  cases hk:k == e.1 with
  | true=>
   have hnone:list.lookup k=none:=
    lookup_eq_none fun q hq=>not_beq_of_beq hk (hfirst q hq)
   rw [if_pos rfl,Option.filter,hp e.1 e.2 hk]
   cases p e.1 e.2 with
   | true=>simp [lookup_cons_ite,hk]
   | false=>simp [ih hrest,hnone]
  | false=>
   cases p e.1 e.2 with
   | true=>simp [lookup_cons_ite,hk,ih hrest]
   | false=>simp [ih hrest]

end Lists

theorem lookup_filter_keys {K V:Type} [BEq K] [LawfulBEq K] (keep:K → Bool) (key:K)
  (list:List (K × V)) :
  (list.filter fun p=>keep p.1).lookup key = if keep key then list.lookup key else none := by
 induction list with
 | nil=>
  rw [List.filter_nil]
  split <;> rfl
 | cons p list ih=>
  rw [List.filter_cons,lookup_cons_ite]
  cases hkey:key == p.1 with
  | true=>
   rw [if_pos rfl,←beq_iff_eq.mp hkey]
   cases hkeep:keep key with
   | true=>rw [if_pos rfl,lookup_cons_ite,hkey,if_pos rfl,if_pos rfl]
   | false=>rw [if_neg Bool.false_ne_true,if_neg Bool.false_ne_true,ih,hkeep]; rfl
  | false=>
   rw [if_neg Bool.false_ne_true,←ih]
   split
   · rw [lookup_cons_ite,hkey,if_neg Bool.false_ne_true]
   · rfl

end L4Ide.AssociationList
