import Mathlib.Data.List.Basic

set_option autoImplicit false

/-!
# Commit graphs

A commit is determined by what it holds and by its parents, as its hash is. The history of a commit
is what a walk over all parents meets, its line what a walk over first parents meets.
-/
namespace L4Ide.CommitGraph

inductive Commit (α:Type)
 | mk (info:α) (parents:List (Commit α))

namespace Commit

variable {α:Type}

def info : Commit α → α
 | .mk info _=>info

def parents : Commit α → List (Commit α)
 | .mk _ parents=>parents

mutual

def decEq [DecidableEq α] : (a b:Commit α) → Decidable (a=b)
 | .mk i ps, .mk j qs=>
  have:=decEqAll ps qs
  decidable_of_iff (i=j ∧ ps=qs) (by rw [Commit.mk.injEq])

def decEqAll [DecidableEq α] : (as bs:List (Commit α)) → Decidable (as=bs)
 | [], []=>.isTrue rfl
 | [], _::_=>.isFalse nofun
 | _::_, []=>.isFalse nofun
 | a::as, b::bs=>
  have:=decEq a b
  have:=decEqAll as bs
  decidable_of_iff (a=b ∧ as=bs) (by rw [List.cons.injEq])

end

instance [DecidableEq α] : DecidableEq (Commit α) := decEq

mutual

def history : Commit α → List (Commit α)
 | .mk info parents=>.mk info parents::historyAll parents

def historyAll : List (Commit α) → List (Commit α)
 | []=>[]
 | c::cs=>c.history ++ historyAll cs

end

/-- The commit, its first parent, the first parent of that, and so on. -/
def line : Commit α → List (Commit α)
 | .mk info []=>[.mk info []]
 | .mk info (first::rest)=>.mk info (first::rest)::line first

theorem mem_historyAll {c:Commit α} {cs:List (Commit α)} :
  c ∈ historyAll cs ↔ ∃ d ∈ cs, c ∈ d.history := by
 induction cs with
 | nil=>
  constructor
  · intro h
    cases h
  · intro ⟨d,hd,_⟩
    cases hd
 | cons d cs ih=>
  change c ∈ d.history ++ historyAll cs ↔ _
  rw [List.mem_append,ih,List.exists_mem_cons_iff]

theorem mem_history {c d:Commit α} :
  c ∈ d.history ↔ c=d ∨ ∃ p ∈ d.parents, c ∈ p.history := by
 cases d with
 | mk info parents=>
  change c ∈ Commit.mk info parents::historyAll parents ↔ _
  rw [List.mem_cons,mem_historyAll]
  rfl

theorem mem_history_self (c:Commit α) : c ∈ c.history := mem_history.mpr (Or.inl rfl)

theorem mem_history_parent {c p:Commit α} (h:p ∈ c.parents) : p ∈ c.history :=
 mem_history.mpr (Or.inr ⟨p,h,mem_history_self p⟩)

mutual

theorem history_subset {c:Commit α} : (d:Commit α) → c ∈ d.history → c.history ⊆ d.history
 | .mk info parents=>by
  intro h
  change c ∈ Commit.mk info parents::historyAll parents at h
  cases List.mem_cons.mp h with
  | inl heq=>exact heq ▸ List.Subset.refl _
  | inr hmem=>exact List.subset_cons_of_subset _ (historyAll_subset parents hmem)

theorem historyAll_subset {c:Commit α} :
  (ds:List (Commit α)) → c ∈ historyAll ds → c.history ⊆ historyAll ds
 | []=>by
  intro h
  cases h
 | d::ds=>by
  intro h
  change c ∈ d.history ++ historyAll ds at h
  cases List.mem_append.mp h with
  | inl hfirst=>exact List.subset_append_of_subset_left _ (history_subset d hfirst)
  | inr hrest=>exact List.subset_append_of_subset_right _ (historyAll_subset ds hrest)

end

end Commit

end L4Ide.CommitGraph
