import Mathlib.Algebra.Order.Monoid.Unbundled.Basic
import Mathlib.Data.List.Basic

set_option autoImplicit false

/-!
# Exclusion by a lease

A holder begins an operation only while its lease outlasts the operation's margin, and a successor
comes only when the lease has run out: their operations never overlap.
-/
namespace L4Ide.LeaseExclusion

/-- `ops` are the times at which the operations under way began. -/
structure Exclusive {T:Type} [Preorder T] [Add T] (margin clock expiry:T) (ops:List T)
  (successor:Bool) : Prop where
 begun : ∀ t ∈ ops, t ≤ clock
 inTime : ∀ t ∈ ops, clock ≤ t+margin
 covered : ∀ t ∈ ops, t+margin < expiry
 succeeded : successor=true → expiry ≤ clock

namespace Exclusive

section Operations

variable {T:Type} [Preorder T] [Add T] {margin clock expiry:T} {ops:List T} {successor:Bool}

theorem ops_eq_nil (h:Exclusive margin clock expiry ops successor) (hsuccessor:successor=true) :
  ops=[] := by
 apply List.eq_nil_iff_forall_not_mem.mpr
 intro t ht
 have hlt:clock < clock:=
  (h.inTime t ht).trans_lt ((h.covered t ht).trans_le (h.succeeded hsuccessor))
 exact lt_irrefl clock hlt

theorem successor_eq_false (h:Exclusive margin clock expiry ops successor) {t:T}
  (ht:t ∈ ops) : successor=false := by
 by_contra hne
 rw [h.ops_eq_nil (by simpa using hne)] at ht
 exact List.not_mem_nil ht

theorem tick (h:Exclusive margin clock expiry ops successor) {later:T} (hle:clock ≤ later)
  (hinTime:∀ t ∈ ops, later ≤ t+margin) :
  Exclusive margin later expiry ops successor where
 begun:=fun t ht=>(h.begun t ht).trans hle
 inTime:=hinTime
 covered:=h.covered
 succeeded:=fun hsuccessor=>(h.succeeded hsuccessor).trans hle

theorem finish (h:Exclusive margin clock expiry ops successor) {rest:List T}
  (hsubset:rest ⊆ ops) : Exclusive margin clock expiry rest successor where
 begun:=fun t ht=>h.begun t (hsubset ht)
 inTime:=fun t ht=>h.inTime t (hsubset ht)
 covered:=fun t ht=>h.covered t (hsubset ht)
 succeeded:=h.succeeded

theorem renew (h:Exclusive margin clock expiry ops successor) {expiry' : T}
  (hcovered:∀ t ∈ ops, t+margin < expiry') (hsuccessor:successor=false) :
  Exclusive margin clock expiry' ops successor where
 begun:=h.begun
 inTime:=h.inTime
 covered:=hcovered
 succeeded:=fun hsome=>by simp [hsuccessor] at hsome

theorem create (h:Exclusive margin clock expiry ops successor) (hexpired:expiry ≤ clock) :
  Exclusive margin clock expiry ops true where
 begun:=h.begun
 inTime:=h.inTime
 covered:=h.covered
 succeeded:=fun _=>hexpired

end Operations

theorem start {T:Type} [Preorder T] [AddZeroClass T] [AddLeftMono T] {margin clock expiry:T}
  {ops:List T} {successor:Bool} (h:Exclusive margin clock expiry ops successor)
  (hmargin:0 ≤ margin) (hcovered:clock+margin < expiry) {more:List T}
  (hmore:∀ t ∈ more, t=clock ∨ t ∈ ops) : Exclusive margin clock expiry more successor where
 begun := by
  intro t ht
  cases hmore t ht with
  | inl heq=>exact heq.le
  | inr hmem=>exact h.begun t hmem
 inTime := by
  intro t ht
  cases hmore t ht with
  | inl heq=>exact heq ▸ le_add_of_nonneg_right hmargin
  | inr hmem=>exact h.inTime t hmem
 covered := by
  intro t ht
  cases hmore t ht with
  | inl heq=>exact heq ▸ hcovered
  | inr hmem=>exact h.covered t hmem
 succeeded:=h.succeeded

end Exclusive

end L4Ide.LeaseExclusion
