import Mathlib.Data.List.Sort
import Mathlib.Data.String.Basic

set_option autoImplicit false

/-!
# Function schemas

The schema of a function's arguments, with the maps of properties as lists in the order of
their keys.
-/
namespace L4Ide.FunctionSchema

abbrev TextMap (α:Type) := List (String × α)

section TextMap
variable {α β:Type}

def TextMap.keys (m:TextMap α) : List String := m.map Prod.fst

/-- Each key once, in order. -/
def TextMap.Ordered (m:TextMap α) : Prop := m.keys.Pairwise (· < ·)

variable {m:TextMap α} {k:String} {v:α}

theorem mem_of_lookup (h:m.lookup k=some v) :
  (k,v) ∈ m := by
 induction m with
 | nil=>cases h
 | cons e m ih=>
  obtain ⟨k', v'⟩:=e
  by_cases heq:k=k'
  · subst heq
    rw [List.lookup_cons_self] at h
    obtain rfl:=Option.some.inj h
    exact List.mem_cons_self
  · rw [List.lookup_cons,beq_false_of_ne heq] at h
    exact List.mem_cons_of_mem _ (ih h)

theorem mem_keys_of_lookup (h:m.lookup k=some v) :
  k ∈ m.keys :=
 List.mem_map_of_mem (mem_of_lookup h)

theorem lookup_of_mem_keys (h:k ∈ m.keys) :
  ∃ v, m.lookup k=some v := by
 induction m with
 | nil=>cases h
 | cons e m ih=>
  obtain ⟨k', v'⟩:=e
  by_cases heq:k=k'
  · subst heq
    exact ⟨v', List.lookup_cons_self⟩
  · rw [List.lookup_cons,beq_false_of_ne heq]
    exact ih ((List.mem_cons.1 h).resolve_left heq)

theorem lookup_of_mem (hm:m.Ordered) (h:(k,v) ∈ m) :
  m.lookup k=some v := by
 induction m with
 | nil=>cases h
 | cons e m ih=>
  obtain ⟨k', v'⟩:=e
  obtain ⟨hhead,htail⟩:=List.pairwise_cons.1 hm
  rcases List.mem_cons.1 h with heq | hmem
  · obtain ⟨rfl,rfl⟩:=Prod.mk.inj heq
    exact List.lookup_cons_self
  · have hlt:=hhead k (List.mem_map_of_mem hmem)
    rw [List.lookup_cons,beq_false_of_ne hlt.ne']
    exact ih htail hmem

end TextMap

structure Parameter where
 parameterType : String
 parameterFormat : Option String
 parameterEnum : List String
 parameterProperties : Option (List (String × Parameter))
 parameterItems : Option Parameter
 parameterRequired : Option (List String)

structure Parameters where
 parameterMap : TextMap Parameter
 required : List String

/-- The maps of properties are ordered at every depth. -/
inductive Parameter.Ordered : Parameter → Prop where
 | mk (p:Parameter)
   (hmap:∀ props, p.parameterProperties=some props → TextMap.Ordered props)
   (hprops:∀ props, p.parameterProperties=some props → ∀ k q, (k,q) ∈ props → q.Ordered)
   (hitems:∀ q, p.parameterItems=some q → q.Ordered) : p.Ordered

structure Parameters.Ordered (ps:Parameters) : Prop where
 map : ps.parameterMap.Ordered
 each : ∀ k q, (k,q) ∈ ps.parameterMap → q.Ordered

end L4Ide.FunctionSchema
