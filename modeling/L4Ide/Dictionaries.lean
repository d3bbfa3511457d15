import L4Ide.AssociationList
import Mathlib.Data.Set.Card

set_option autoImplicit false

/-!
# Dictionaries

The dictionaries of the prelude. `EQUALS` on keys is `==`.
-/
namespace L4Ide.Dictionaries
open AssociationList

structure Dictionary (K V:Type) where
 contents : List (K × V)
 deriving DecidableEq

section Operations

variable {K V W:Type}

def singleToDict (key:K) (value:V) : Dictionary K V := ⟨[(key,value)]⟩

def listToDict (pairs:List (K × V)) : Dictionary K V := ⟨pairs⟩

def fromList (pairs:List (K × V)) : Dictionary K V := listToDict pairs

def emptyDict : Dictionary K V := ⟨[]⟩

def dictSize (dict:Dictionary K V) : ℕ := go 0 dict.contents
where
 go : ℕ → List (K × V) → ℕ
  | acc, []=>acc
  | acc, _::xs=>go (acc+1) xs

def mapDict (f:V → W) (dict:Dictionary K V) : Dictionary K W :=
 ⟨dict.contents.map fun p=>(p.1,f p.2)⟩

def filterDict (pred:V → Bool) (dict:Dictionary K V) : Dictionary K V :=
 ⟨dict.contents.filter fun p=>pred p.2⟩

def dictFilterWithKey (pred:K → V → Bool) (dict:Dictionary K V) : Dictionary K V :=
 ⟨dict.contents.filter fun p=>pred p.1 p.2⟩

variable [BEq K]

def lookup (key:K) : List (K × V) → Option V
 | []=>none
 | (k,v)::xs=>if key == k then some v else lookup key xs

def dictLookup (key:K) (dict:Dictionary K V) : Option V := lookup key dict.contents

def dictMember (key:K) (dict:Dictionary K V) : Bool := (dictLookup key dict).isSome

def dictInsert (key:K) (value:V) (dict:Dictionary K V) : Dictionary K V :=
 ⟨alter key (fun _=>key) (fun _=>some value) dict.contents⟩

def dictInsertWith (combiner:V → V → V) (key:K) (value:V) (dict:Dictionary K V) :
  Dictionary K V :=
 ⟨alter key (fun _=>key) (fun v=>some (v.elim value (combiner value))) dict.contents⟩

def dictDelete (key:K) (dict:Dictionary K V) : Dictionary K V :=
 ⟨alter key (fun _=>key) (fun _=>none) dict.contents⟩

def dictAdjust (f:V → V) (key:K) (dict:Dictionary K V) : Dictionary K V :=
 ⟨alter key (fun _=>key) (Option.map f) dict.contents⟩

def dictUpdate (f:V → Option V) (key:K) (dict:Dictionary K V) : Dictionary K V :=
 ⟨alter key (fun _=>key) (fun v=>v.bind f) dict.contents⟩

def dictUnion (dict1 dict2:Dictionary K V) : Dictionary K V :=
 dict1.contents.foldl (fun acc p=>dictInsert p.1 p.2 acc) dict2

def dictUnionWith (combiner:V → V → V) (dict1 dict2:Dictionary K V) : Dictionary K V :=
 dict1.contents.foldl (fun acc p=>dictInsertWith combiner p.1 p.2 acc) dict2

def insertValue (key:K) (value:V) (dictPairs:List (K × List V)) : List (K × List V) :=
 alter key id (fun vs=>some (vs.getD [] ++ [value])) dictPairs

def groupPairs (pairs:List (K × V)) : List (K × List V) := go [] pairs
where
 go : List (K × List V) → List (K × V) → List (K × List V)
  | acc, []=>acc
  | acc, (key,value)::xs=>go (insertValue key value acc) xs

def fromListGrouped (pairs:List (K × V)) : Dictionary K (List V) := ⟨groupPairs pairs⟩

end Operations

/-- What a program builds a dictionary with. -/
inductive Built (K:Type) : Type → Type 1
 | emptyDict {V:Type} : Built K V
 | singleToDict {V:Type} (key:K) (value:V) : Built K V
 | fromList {V:Type} (pairs:List (K × V)) : Built K V
 | fromListGrouped {V:Type} (pairs:List (K × V)) : Built K (List V)
 | dictInsert {V:Type} (key:K) (value:V) (dict:Built K V) : Built K V
 | dictInsertWith {V:Type} (combiner:V → V → V) (key:K) (value:V) (dict:Built K V) :
  Built K V
 | dictDelete {V:Type} (key:K) (dict:Built K V) : Built K V
 | dictAdjust {V:Type} (f:V → V) (key:K) (dict:Built K V) : Built K V
 | dictUpdate {V:Type} (f:V → Option V) (key:K) (dict:Built K V) : Built K V
 | dictUnion {V:Type} (dict1 dict2:Built K V) : Built K V
 | dictUnionWith {V:Type} (combiner:V → V → V) (dict1 dict2:Built K V) : Built K V
 | mapDict {V W:Type} (f:V → W) (dict:Built K V) : Built K W
 | filterDict {V:Type} (pred:V → Bool) (dict:Built K V) : Built K V
 | dictFilterWithKey {V:Type} (pred:K → V → Bool) (dict:Built K V) : Built K V

def Built.dict {K:Type} [BEq K] : {V:Type} → Built K V → Dictionary K V
 | _, .emptyDict=>Dictionaries.emptyDict
 | _, .singleToDict key value=>Dictionaries.singleToDict key value
 | _, .fromList pairs=>Dictionaries.fromList pairs
 | _, .fromListGrouped pairs=>Dictionaries.fromListGrouped pairs
 | _, .dictInsert key value b=>Dictionaries.dictInsert key value b.dict
 | _, .dictInsertWith combiner key value b=>Dictionaries.dictInsertWith combiner key value b.dict
 | _, .dictDelete key b=>Dictionaries.dictDelete key b.dict
 | _, .dictAdjust f key b=>Dictionaries.dictAdjust f key b.dict
 | _, .dictUpdate f key b=>Dictionaries.dictUpdate f key b.dict
 | _, .dictUnion a b=>Dictionaries.dictUnion a.dict b.dict
 | _, .dictUnionWith combiner a b=>Dictionaries.dictUnionWith combiner a.dict b.dict
 | _, .mapDict f b=>Dictionaries.mapDict f b.dict
 | _, .filterDict pred b=>Dictionaries.filterDict pred b.dict
 | _, .dictFilterWithKey pred b=>Dictionaries.dictFilterWithKey pred b.dict

end L4Ide.Dictionaries

namespace L4Ide.DictionariesFinite
open AssociationList Dictionaries

section Maps

variable {K V:Type}

theorem go_eq_length (acc:ℕ) (list:List (K × V)) :
  dictSize.go acc list=acc+list.length := by
 induction list generalizing acc with
 | nil=>rfl
 | cons p list ih=>
  rw [dictSize.go,ih,List.length_cons]
  omega

/-- At the dictionary and at all that it is built from. -/
def Everywhere (P:{V:Type} → Built K V → Prop) : {V:Type} → Built K V → Prop
 | V, .emptyDict=>P (.emptyDict : Built K V)
 | _, .singleToDict key value=>P (.singleToDict key value)
 | _, .fromList pairs=>P (.fromList pairs)
 | _, .fromListGrouped pairs=>P (.fromListGrouped pairs)
 | _, .dictInsert key value b=>P (.dictInsert key value b) ∧ Everywhere P b
 | _, .dictInsertWith f key value b=>P (.dictInsertWith f key value b) ∧ Everywhere P b
 | _, .dictDelete key b=>P (.dictDelete key b) ∧ Everywhere P b
 | _, .dictAdjust f key b=>P (.dictAdjust f key b) ∧ Everywhere P b
 | _, .dictUpdate f key b=>P (.dictUpdate f key b) ∧ Everywhere P b
 | _, .dictUnion a b=>P (.dictUnion a b) ∧ Everywhere P a ∧ Everywhere P b
 | _, .dictUnionWith f a b=>P (.dictUnionWith f a b) ∧ Everywhere P a ∧ Everywhere P b
 | _, .mapDict f b=>P (.mapDict f b) ∧ Everywhere P b
 | _, .filterDict pred b=>P (.filterDict pred b) ∧ Everywhere P b
 | _, .dictFilterWithKey pred b=>P (.dictFilterWithKey pred b) ∧ Everywhere P b

theorem Everywhere.imp {P Q:{V:Type} → Built K V → Prop}
  (hPQ:∀ {V:Type} {b:Built K V}, Everywhere P b → Q b) {b:Built K V} (h:Everywhere P b) :
  Everywhere Q b := by
 induction b with
 | emptyDict=>exact hPQ h
 | singleToDict key value=>exact hPQ h
 | fromList pairs=>exact hPQ h
 | fromListGrouped pairs=>exact hPQ h
 | dictInsert key value b ih=>exact ⟨hPQ h,ih h.2⟩
 | dictInsertWith combiner key value b ih=>exact ⟨hPQ h,ih h.2⟩
 | dictDelete key b ih=>exact ⟨hPQ h,ih h.2⟩
 | dictAdjust f key b ih=>exact ⟨hPQ h,ih h.2⟩
 | dictUpdate f key b ih=>exact ⟨hPQ h,ih h.2⟩
 | dictUnion a b iha ihb=>exact ⟨hPQ h,iha h.2.1,ihb h.2.2⟩
 | dictUnionWith combiner a b iha ihb=>exact ⟨hPQ h,iha h.2.1,ihb h.2.2⟩
 | mapDict f b ih=>exact ⟨hPQ h,ih h.2⟩
 | filterDict pred b ih=>exact ⟨hPQ h,ih h.2⟩
 | dictFilterWithKey pred b ih=>exact ⟨hPQ h,ih h.2⟩

variable [BEq K]

theorem dictLookup_eq (k:K) (dict:Dictionary K V) : dictLookup k dict=dict.contents.lookup k := by
 have hlookup:∀ list : List (K × V), lookup k list=list.lookup k:=by
  intro list
  induction list with
  | nil=>rfl
  | cons p list ih=>rw [lookup,lookup_cons_ite,ih]
 exact hlookup dict.contents

theorem contents_dictUnion (a b:Dictionary K V) :
  (dictUnion a b).contents =
   a.contents.foldl (fun acc e=>alter e.1 (fun _=>e.1) (fun _=>some e.2) acc) b.contents := by
 unfold dictUnion
 induction a.contents generalizing b with
 | nil=>rfl
 | cons e entries ih=>exact ih _

theorem contents_dictUnionWith (combiner:V → V → V) (a b:Dictionary K V) :
  (dictUnionWith combiner a b).contents =
   a.contents.foldl (fun acc e=>
    alter e.1 (fun _=>e.1) (fun v=>some (v.elim e.2 (combiner e.2))) acc) b.contents := by
 unfold dictUnionWith
 induction a.contents generalizing b with
 | nil=>rfl
 | cons e entries ih=>exact ih _

def Law : {V:Type} → Built K V → Prop
 | V, .emptyDict=>∀ k, dictLookup k (emptyDict:Dictionary K V)=none
 | _, .singleToDict key value=>
  ∀ k, dictLookup k (singleToDict key value) = if k == key then some value else none
 | _, .fromList _=>True
 | _, .fromListGrouped pairs=>
  ∀ k, dictLookup k (fromListGrouped pairs) =
   if values k pairs=[] then none else some (values k pairs)
 | _, .dictInsert key value b=>
  ∀ k, dictLookup k (dictInsert key value b.dict) =
   if k == key then some value else dictLookup k b.dict
 | _, .dictInsertWith combiner key value b=>
  ∀ k, dictLookup k (dictInsertWith combiner key value b.dict) =
   if k == key then some ((dictLookup key b.dict).elim value (combiner value))
   else dictLookup k b.dict
 | _, .dictDelete key b=>
  ∀ k, dictLookup k (dictDelete key b.dict) = if k == key then none else dictLookup k b.dict
 | _, .dictAdjust f key b=>
  ∀ k, dictLookup k (dictAdjust f key b.dict) =
   if k == key then (dictLookup key b.dict).map f else dictLookup k b.dict
 | _, .dictUpdate f key b=>
  ∀ k, dictLookup k (dictUpdate f key b.dict) =
   if k == key then (dictLookup key b.dict).bind f else dictLookup k b.dict
 | _, .dictUnion a b=>
  ∀ k, dictLookup k (dictUnion a.dict b.dict)=(dictLookup k a.dict).or (dictLookup k b.dict)
 | _, .dictUnionWith combiner a b=>
  ∀ k, dictLookup k (dictUnionWith combiner a.dict b.dict) =
   (dictLookup k a.dict).elim (dictLookup k b.dict) fun v=>
    some ((dictLookup k b.dict).elim v (combiner v))
 | _, .mapDict f b=>∀ k, dictLookup k (mapDict f b.dict)=(dictLookup k b.dict).map f
 | _, .filterDict pred b=>
  ∀ k, dictLookup k (filterDict pred b.dict)=(dictLookup k b.dict).filter pred
 | _, .dictFilterWithKey pred b=>
  ∀ k, (∀ k' v, (k == k')=true → pred k v=pred k' v) →
   dictLookup k (dictFilterWithKey pred b.dict)=(dictLookup k b.dict).filter (pred k)

variable [EquivBEq K]

/-- Keys that equal each other are one key. -/
instance keySetoid : Setoid K where
 r a b := (a == b)=true
 iseqv:=⟨fun _=>BEq.rfl,BEq.symm,BEq.trans⟩

def keys (dict:Dictionary K V) : Set (Quotient (keySetoid (K := K))) :=
 {q | ∃ p ∈ dict.contents, ⟦p.1⟧ = q}

structure FiniteMap (dict:Dictionary K V) : Prop where
 once : Once dict.contents
 size : dictSize dict=(keys dict).ncard

/-- Each key occurs once, and the last operation does what it says. -/
def Correct {V:Type} (b:Built K V) : Prop := FiniteMap b.dict ∧ Law b

/-- `fromList` is given no key twice. -/
def GivenOnce : {V:Type} → Built K V → Prop
 | _, .fromList pairs=>Once pairs
 | _, _=>True

theorem keys_eq (dict:Dictionary K V) :
  keys dict = {q | q ∈ dict.contents.map fun p=>(⟦p.1⟧ : Quotient keySetoid)} := by
 ext q
 exact List.mem_map.symm

theorem nodup_keys {dict:Dictionary K V} (h:Once dict.contents) :
  (dict.contents.map fun p=>(⟦p.1⟧ : Quotient keySetoid)).Nodup := by
 apply List.pairwise_map.mpr
 apply List.Pairwise.imp _ h
 intro p q hpq heq
 exact Bool.eq_false_iff.mp hpq (Quotient.exact heq)

theorem finiteMap_of_once {dict:Dictionary K V} (h:Once dict.contents) : FiniteMap dict where
 once:=h
 size := by
  classical
  have hset:keys dict =
    ((dict.contents.map fun p=>(⟦p.1⟧ : Quotient keySetoid)).toFinset : Set _) := by
   rw [keys_eq,List.coe_toFinset]
  rw [dictSize,go_eq_length,Nat.zero_add,hset,Set.ncard_coe_finset,
   List.toFinset_card_of_nodup (nodup_keys h),List.length_map]

theorem dictLookup_alter {key:K} (f:Option V → Option V) {dict:Dictionary K V}
  (h:Once dict.contents) (k:K) :
  dictLookup k (⟨alter key (fun _=>key) f dict.contents⟩ : Dictionary K V) =
   if k == key then f (dictLookup key dict) else dictLookup k dict := by
 rw [dictLookup_eq,dictLookup_eq,dictLookup_eq]
 exact lookup_alter (fun _ _=>BEq.rfl) f h k

theorem dictLookup_dictUnion {a b:Dictionary K V} (ha:Once a.contents) (hb:Once b.contents)
  (k:K) : dictLookup k (dictUnion a b)=(dictLookup k a).or (dictLookup k b) := by
 rw [dictLookup_eq,dictLookup_eq,dictLookup_eq,contents_dictUnion,
  lookup_foldl_alter (fun x _=>some x) ha hb]
 cases a.contents.lookup k with
 | none=>rfl
 | some v=>rfl

theorem dictLookup_dictUnionWith (combiner:V → V → V) {a b:Dictionary K V}
  (ha:Once a.contents) (hb:Once b.contents) (k:K) :
  dictLookup k (dictUnionWith combiner a b) =
   (dictLookup k a).elim (dictLookup k b) fun v=>
    some ((dictLookup k b).elim v (combiner v)) := by
 rw [dictLookup_eq,dictLookup_eq,dictLookup_eq,contents_dictUnionWith]
 exact lookup_foldl_alter (fun x v=>some (v.elim x (combiner x))) ha hb k

theorem once_go {acc:List (K × List V)} (h:Once acc) (pairs:List (K × V)) :
  Once (groupPairs.go acc pairs) := by
 induction pairs generalizing acc with
 | nil=>exact h
 | cons p pairs ih=>exact ih (h.alter (fun _ hk=>hk) _)

theorem lookup_go {acc:List (K × List V)} (h:Once acc) (pairs:List (K × V)) (k:K) :
  (groupPairs.go acc pairs).lookup k =
   if values k pairs=[] then acc.lookup k
   else some ((acc.lookup k).getD [] ++ values k pairs) := by
 induction pairs generalizing acc with
 | nil=>rfl
 | cons p pairs ih=>
  have hrename:∀ m, (p.1 == m)=true → (p.1 == id m)=true:=fun _ hm=>hm
  have hinsert:(insertValue p.1 p.2 acc).lookup k =
    if k == p.1 then some ((acc.lookup p.1).getD [] ++ [p.2]) else acc.lookup k :=
   lookup_alter hrename _ h k
  have honce:Once (insertValue p.1 p.2 acc):=h.alter hrename _
  rw [groupPairs.go,ih honce,hinsert,values_cons]
  cases hk:k == p.1 with
  | true=>
   rw [lookup_congr hk acc]
   cases hvalues:values k pairs with
   | nil=>simp
   | cons v vs=>simp
  | false=>simp

theorem once_dict {b:Built K V} (h:Everywhere GivenOnce b) : Once b.dict.contents := by
 induction b with
 | emptyDict=>exact List.Pairwise.nil
 | singleToDict key value=>exact List.pairwise_singleton _ _
 | fromList pairs=>exact h
 | fromListGrouped pairs=>exact once_go List.Pairwise.nil pairs
 | dictInsert key value b ih=>exact (ih h.2).alter (fun _ _=>BEq.rfl) _
 | dictInsertWith combiner key value b ih=>exact (ih h.2).alter (fun _ _=>BEq.rfl) _
 | dictDelete key b ih=>exact (ih h.2).alter (fun _ _=>BEq.rfl) _
 | dictAdjust f key b ih=>exact (ih h.2).alter (fun _ _=>BEq.rfl) _
 | dictUpdate f key b ih=>exact (ih h.2).alter (fun _ _=>BEq.rfl) _
 | dictUnion a b iha ihb=>
  rw [Built.dict,contents_dictUnion]
  exact Once.foldl_alter (fun x _=>some x) (ihb h.2.2) _
 | dictUnionWith combiner a b iha ihb=>
  rw [Built.dict,contents_dictUnionWith]
  exact Once.foldl_alter (fun x v=>some (v.elim x (combiner x))) (ihb h.2.2) _
 | mapDict f b ih=>exact (ih h.2).map fun _=>rfl
 | filterDict pred b ih=>exact (ih h.2).filter _
 | dictFilterWithKey pred b ih=>exact (ih h.2).filter _

theorem law_of_once {b:Built K V} (h:Everywhere GivenOnce b) : Law b := by
 cases b with
 | emptyDict=>exact fun _=>rfl
 | singleToDict key value=>exact fun _=>rfl
 | fromList pairs=>trivial
 | fromListGrouped pairs=>
  intro k
  rw [dictLookup_eq]
  exact lookup_go List.Pairwise.nil pairs k
 | dictInsert key value b=>exact dictLookup_alter _ (once_dict h.2)
 | dictInsertWith combiner key value b=>
  intro k
  exact dictLookup_alter _ (once_dict h.2) k
 | dictDelete key b=>exact dictLookup_alter _ (once_dict h.2)
 | dictAdjust f key b=>exact dictLookup_alter _ (once_dict h.2)
 | dictUpdate f key b=>exact dictLookup_alter _ (once_dict h.2)
 | dictUnion a b=>exact dictLookup_dictUnion (once_dict h.2.1) (once_dict h.2.2)
 | dictUnionWith combiner a b=>
  exact dictLookup_dictUnionWith combiner (once_dict h.2.1) (once_dict h.2.2)
 | mapDict f b=>
  intro k
  rw [dictLookup_eq,dictLookup_eq]
  exact lookup_map f k _
 | filterDict pred b=>
  intro k
  rw [dictLookup_eq,dictLookup_eq]
  exact lookup_filter (fun _=>pred) (fun _ _ _=>rfl) (once_dict h.2)
 | dictFilterWithKey pred b=>
  intro k hpred
  rw [dictLookup_eq,dictLookup_eq]
  exact lookup_filter pred hpred (once_dict h.2)

/-- Dictionaries are finite maps, and their operations are those of maps, as long as no list that
`fromList` is given has a key twice. -/
theorem finiteMaps_iff (b:Built K V) : Everywhere Correct b ↔ Everywhere GivenOnce b := by
 constructor
 · apply Everywhere.imp
   intro V b h
   cases b with
   | fromList pairs=>exact h.1.once
   | _=>trivial
 · apply Everywhere.imp
   intro V b h
   exact ⟨finiteMap_of_once (once_dict h),law_of_once h⟩

end Maps

def given : Built ℕ Char := .fromList [(1,'a'),(2,'b')]

theorem finiteMaps_iff_given :
  Everywhere Correct (.dictUnion (.dictDelete 1 given) (.dictInsert 2 'c' .emptyDict)) := by
 apply (finiteMaps_iff _).mpr
 have honce:Once [(1,'a'),(2,'b')]:=by decide
 exact ⟨trivial,⟨trivial,honce⟩,trivial,trivial⟩

/-- A key given twice is counted twice, and is still there after it is deleted. -/
theorem dictDelete_leaves_key :
  dictSize (fromList [(1,'a'),(1,'b')])=2 ∧
   dictLookup 1 (dictDelete 1 (fromList [(1,'a'),(1,'b')]))=some 'b' ∧
    ¬Everywhere Correct (.dictDelete 1 (.fromList [(1,'a'),(1,'b')])) := by
 refine ⟨rfl,rfl,fun h=>?_⟩
 have honce:Once [(1,'a'),(1,'b')]:=h.2.1.once
 exact absurd honce (by decide)

end L4Ide.DictionariesFinite
