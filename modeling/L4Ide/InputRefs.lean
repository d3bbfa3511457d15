import Mathlib.Data.Finset.Sort
import Mathlib.Data.Finset.Union

set_option autoImplicit false

/-!
# Input references of a query's atoms

The inputs that an atom refers to, itself or through the atoms that it depends on, as the query
plan collects them. Uniques are compared by their numbers, whose order is all that matters.
-/
namespace L4Ide.InputRefs

structure IntMap (U V:Type) where
 keys : Finset U
 lookup : U → Option V
 mem_keys : ∀ u, u ∈ keys ↔ (lookup u).isSome

section Maps
variable {U V:Type}

def IntMap.findWithDefault (default:V) (u:U) (m:IntMap U V) : V := (m.lookup u).getD default

def IntMap.empty : IntMap U V := ⟨∅,fun _=>none,by simp⟩

variable [DecidableEq U]

def IntMap.insert (u:U) (v:V) (m:IntMap U V) : IntMap U V where
 keys:=Insert.insert u m.keys
 lookup:=Function.update m.lookup u (some v)
 mem_keys := by
  intro w
  rw [Finset.mem_insert,m.mem_keys]
  by_cases heq:w=u
  · rw [heq,Function.update_self]
    simp
  · rw [Function.update_of_ne heq]
    simp [heq]

def IntMap.fromList : List (U × V) → IntMap U V
 | []=>.empty
 | (u,v)::entries=>(fromList entries).insert u v

theorem IntMap.lookup_insert (u:U) (v:V) (m:IntMap U V) (w:U) :
  (m.insert u v).lookup w = if w=u then some v else m.lookup w := by
 by_cases heq:w=u
 · rw [if_pos heq,heq]
   exact Function.update_self _ _ _
 · rw [if_neg heq]
   exact Function.update_of_ne heq _ _

end Maps

structure InputRef (U:Type) where
 rootUnique : U
 path : List String
 deriving DecidableEq

structure CachedDecisionQuery (U:Type) where
 varLabelByUnique : IntMap U String
 varDepsByUnique : IntMap U (Finset U)
 varInputRefsByUnique : IntMap U (Finset (InputRef U))

section Closure
variable {U:Type}

def CachedDecisionQuery.deps (cached:CachedDecisionQuery U) (u:U) : Finset U :=
 cached.varDepsByUnique.findWithDefault ∅ u

def CachedDecisionQuery.directRefs (cached:CachedDecisionQuery U) (u:U) :
  Finset (InputRef U) :=
 cached.varInputRefsByUnique.findWithDefault ∅ u

variable [LinearOrder U] (cached:CachedDecisionQuery U)

def allUniques : Finset U :=
 cached.varLabelByUnique.keys ∪ cached.varDepsByUnique.keys ∪ cached.varInputRefsByUnique.keys ∪
  cached.varDepsByUnique.keys.biUnion cached.deps

abbrev Memo (U:Type) := IntMap U (Finset (InputRef U))

def unions (sets:List (Finset (InputRef U))) : Finset (InputRef U) := sets.foldr (· ∪ ·) ∅

/-- Depth first; a unique that is being visited has its direct references only. The fuel bounds the
    depth. -/
def go : ℕ → Memo U → Finset U → U → Option (Finset (InputRef U) × Memo U)
 | 0, _, _, _=>none
 | fuel+1, memo, visiting, u=>
  match memo.lookup u with
  | some s=>some (s,memo)
  | none=>
   if u ∈ visiting then some (cached.directRefs u,memo.insert u (cached.directRefs u))
   else do
    let (depSets,memo') ← ((cached.deps u).sort (· ≤ ·)).foldlM (fun (acc,memo0) d=>do
     let (childRefs,memo1) ← go fuel memo0 (insert u visiting) d
     pure (childRefs::acc,memo1)) ([],memo)
    let refs:=unions (cached.directRefs u::depSets)
    pure (refs,memo'.insert u refs)

def inputRefsClosureByUnique : Option (Memo U) :=
 ((allUniques cached).sort (· ≤ ·)).foldlM
  (fun memo u=>(go cached ((allUniques cached).card+1) memo ∅ u).map Prod.snd) .empty

end Closure

end L4Ide.InputRefs
