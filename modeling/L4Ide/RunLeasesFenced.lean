import Mathlib.Algebra.Order.Group.Nat
import L4Ide.RunLeases
import L4Ide.LeaseExclusion

set_option autoImplicit false

/-!
# The fence stays within the lease

While no write is checked between the moment at which a shorter lease is on disk and the return of
the write that put it there, the fence lets through only what the lease on disk covers.
-/
namespace L4Ide.RunLeasesFenced
open RunLeases AdmissibleRuns LeaseExclusion

/-! ## What a run is asked for -/

def ends : Event → Bool
 | .passed ..=>false
 | .refused=>true
 | .replaced expired=>expired

def letThrough : Event → Bool
 | .refused=>false
 | _=>true

/-- Every check that passed was covered by the lease then on disk, and nothing was let through
    after a refusal or the expired lease of a release. -/
structure Fenced (log:List Event) : Prop where
 covered : ∀ now expiry, .passed now expiry ∈ log → now+FENCE_MARGIN_MS < expiry
 order : log.Pairwise fun a b=>ends a=true → letThrough b=false

/-- No write is under way, and no lease is still to replace the one on disk. -/
def Silent (s:State) : Prop := s.writes=[] ∧ ∀ w ∈ s.writing, w.replaced=true

/-! ## When a run gives it -/

/-- The lease on disk has not lapsed where the armed one has not, and nothing is refused while a
    lease write may still replace the file. -/
def CarefulCheck (s:State) (w:LeaseWrite) : Prop :=
 if w.replaced then
  w.file.expiresAt-FENCE_MARGIN_MS ≤ s.clock → s.fence.lets s.clock=false
 else s.fence.lets s.clock=true

instance decidableCarefulCheck (s:State) (w:LeaseWrite) : Decidable (CarefulCheck s w) := by
 unfold CarefulCheck
 infer_instance

def Careful (s:State) : Action → Prop
 | .beginWrite _=>∀ w ∈ s.writing, CarefulCheck s w
 | _=>True

instance decidableCareful (s:State) : (action:Action) → Decidable (Careful s action)
 | .beginWrite _=>inferInstanceAs (Decidable (∀ w ∈ s.writing, CarefulCheck s w))
 | .tick _ | .boot | .start | .renew | .lookUp _ | .goOn _ | .set _ _ | .release | .beginLease
 | .replaceFile | .leaseReturns | .endWrite _ | .createNext=>inferInstanceAs (Decidable True)

/-- The next run is created only after the lease on disk has run out, and each write finishes
    within the margin of its check. -/
def Timely (s:State) : Action → Prop
 | .tick ms=>
  (∀ t ∈ s.writes, s.clock+ms ≤ t+FENCE_MARGIN_MS) ∧
   ∀ w ∈ s.writing, s.clock+ms ≤ w.checkedAt+FENCE_MARGIN_MS
 | .createNext=>leaseEnd s.lease ≤ s.clock
 | _=>True

instance decidableTimely (s:State) : (action:Action) → Decidable (Timely s action)
 | .tick ms=>inferInstanceAs (Decidable
   ((∀ t ∈ s.writes, s.clock+ms ≤ t+FENCE_MARGIN_MS) ∧
    ∀ w ∈ s.writing, s.clock+ms ≤ w.checkedAt+FENCE_MARGIN_MS))
 | .createNext=>inferInstanceAs (Decidable (leaseEnd s.lease ≤ s.clock))
 | .boot | .start | .renew | .lookUp _ | .goOn _ | .set _ _ | .release | .beginLease
 | .replaceFile | .leaseReturns | .beginWrite _ | .endWrite _=>inferInstanceAs (Decidable True)

/-- No write is under way when the expired lease of a release replaces the file. -/
def Quiet (s:State) : Action → Prop
 | .replaceFile=>∀ w ∈ s.writing, w.expired=true → s.writes=[]
 | _=>True

instance decidableQuiet (s:State) : (action:Action) → Decidable (Quiet s action)
 | .replaceFile=>inferInstanceAs (Decidable (∀ w ∈ s.writing, w.expired=true → s.writes=[]))
 | .tick _ | .boot | .start | .renew | .lookUp _ | .goOn _ | .set _ _ | .release | .beginLease
 | .leaseReturns | .beginWrite _ | .endWrite _ | .createNext=>inferInstanceAs (Decidable True)

/-- A harness that has not begun, with what the Sessions API left on disk. -/
structure Fresh (s:State) : Prop where
 fence : s.fence = .new
 queue : s.queue=[]
 writing : s.writing=none
 superseded : s.supersededWhy=none
 newer : s.newer=false
 writes : s.writes=[]
 log : s.log=[]

/-! ## The invariant -/

structure LeaseWritten (s:State) (w:LeaseWrite) : Prop where
 expiresAt : w.file.expiresAt=w.checkedAt + if w.expired then 0 else LEASE_TTL_MS
 checkedAt : w.checkedAt ≤ s.clock
 onDisk : w.replaced=true → s.lease = .valid w.file

structure Inv (s:State) : Prop where
 armed : s.fence.closed=false → (∀ w ∈ s.writing, w.replaced=false) →
  s.fence.validUntil=0 ∨ s.fence.validUntil=leaseEnd s.lease
 writing : ∀ w ∈ s.writing, LeaseWritten s w
 fenced : Fenced s.log
 unreplaced : ∀ e ∈ s.log, ends e=true → ∀ w ∈ s.writing, w.replaced=true
 ended : ∀ e ∈ s.log, ends e=true → s.fence.closed=false →
  ∃ w ∈ s.writing, w.replaced=true ∧ w.expired=true
 violated : s.fence.violated=true → s.fence.closed=true
 superseded : s.supersededWhy.isSome=true → s.fence.closed=true

variable {s:State}

theorem inv_fresh (h:Fresh s) : Inv s where
 armed:=fun _ _=>.inl (by rw [h.fence]; rfl)
 writing:=by simp [h.writing]
 fenced:=⟨by simp [h.log],by simp [h.log]⟩
 unreplaced:=by simp [h.log]
 ended:=by simp [h.log]
 violated:=fun hviolated=>by simp [h.fence,Fence.new] at hviolated
 superseded:=by simp [h.superseded]

theorem lets_iff {now:ℕ} {f:Fence} :
  f.lets now=true ↔ f.closed=false ∧ now+FENCE_MARGIN_MS < f.validUntil := by
 simp only [Fence.lets,Bool.and_eq_true,Bool.not_eq_true', decide_eq_true_eq]
 rw [Nat.lt_sub_iff_add_lt]

theorem leaseEnd_of_checkRun {run now validUntil:ℕ} {record:Stored RunRecordFile}
  {newer:Bool} {lease:Stored RunLeaseFile}
  (h:checkRun run record newer lease now = .ok validUntil) : validUntil=leaseEnd lease := by
 unfold checkRun at h
 split at h
 · cases h
 · cases h
 · split at h
   · cases h
   · split at h
     · cases h
     · cases h
     · split at h
       · cases h
       · cases h
         rfl

section Logs

theorem Fenced.append_passed {log:List Event} (h:Fenced log) {now expiry:ℕ}
  (hcovered:now+FENCE_MARGIN_MS < expiry) (hends:∀ e ∈ log, ends e=false) :
  Fenced (log ++ [.passed now expiry]) where
 covered := by
  intro now' expiry' hmem
  cases List.mem_append.mp hmem with
  | inl hmem=>exact h.covered now' expiry' hmem
  | inr hmem=>
   simp only [List.mem_singleton,Event.passed.injEq] at hmem
   omega
 order := by
  apply List.pairwise_append.mpr
  refine ⟨h.order,List.pairwise_singleton _ _, ?_⟩
  intro a ha _ _ hend
  simp [hends a ha] at hend

theorem Fenced.append_refused {log:List Event} (h:Fenced log) : Fenced (log ++ [.refused]) where
 covered := by
  intro now expiry hmem
  exact h.covered now expiry (by simpa using hmem)
 order := by
  apply List.pairwise_append.mpr
  refine ⟨h.order,List.pairwise_singleton _ _, ?_⟩
  intro _ _ b hb _
  rw [List.mem_singleton.mp hb]
  rfl

theorem Fenced.append_replaced {log:List Event} (h:Fenced log) (expired:Bool)
  (hends:∀ e ∈ log, ends e=false) : Fenced (log ++ [.replaced expired]) where
 covered := by
  intro now expiry hmem
  exact h.covered now expiry (by simpa using hmem)
 order := by
  apply List.pairwise_append.mpr
  refine ⟨h.order,List.pairwise_singleton _ _, ?_⟩
  intro a ha _ _ hend
  simp [hends a ha] at hend

end Logs

section Steps

variable {s:State}

namespace Inv

variable {s': State}

/-- Nothing but the clock, the lease's own data and what is not yet begun has changed. -/
theorem of_eq (h:Inv s) (hclock:s.clock ≤ s'.clock) (hfence:s'.fence=s.fence)
  (hwriting:s'.writing=s.writing) (hwhy:s'.supersededWhy=s.supersededWhy)
  (hlease:s'.lease=s.lease) (hlog:s'.log=s.log) : Inv s' where
 armed := by
  rw [hfence,hwriting,hlease]
  exact h.armed
 writing := by
  rw [hwriting]
  intro w hw
  have hwritten:=h.writing w hw
  refine ⟨hwritten.expiresAt,hwritten.checkedAt.trans hclock, ?_⟩
  rw [hlease]
  exact hwritten.onDisk
 fenced:=hlog ▸ h.fenced
 unreplaced := by
  rw [hlog,hwriting]
  exact h.unreplaced
 ended := by
  rw [hlog,hfence,hwriting]
  exact h.ended
 violated:=hfence ▸ h.violated
 superseded := by
  rw [hwhy,hfence]
  exact h.superseded

theorem of_closed (h:Inv s) (hclosed:s'.fence.closed=true)
  (hclock:s'.clock=s.clock) (hwriting:s'.writing=s.writing) (hlease:s'.lease=s.lease)
  (hlog:s'.log=s.log) : Inv s' where
 armed:=by simp [hclosed]
 writing := by
  rw [hwriting]
  intro w hw
  have hwritten:=h.writing w hw
  refine ⟨hwritten.expiresAt,hclock ▸ hwritten.checkedAt, ?_⟩
  rw [hlease]
  exact hwritten.onDisk
 fenced:=hlog ▸ h.fenced
 unreplaced := by
  rw [hlog,hwriting]
  exact h.unreplaced
 ended:=by simp [hclosed]
 violated:=fun _=>hclosed
 superseded:=fun _=>hclosed

/-! ### Checks -/

theorem covered_of_lets (h:Inv s) (hcareful:∀ w ∈ s.writing, CarefulCheck s w)
  (hlets:s.fence.lets s.clock=true) : s.clock+FENCE_MARGIN_MS < leaseEnd s.lease := by
 have ⟨hopen,hvalid⟩:=lets_iff.mp hlets
 by_cases hreplaced:∃ w ∈ s.writing, w.replaced=true
 · have ⟨w,hw,htrue⟩:=hreplaced
   have hcheck:=hcareful w hw
   rw [CarefulCheck,if_pos htrue] at hcheck
   rw [(h.writing w hw).onDisk htrue,leaseEnd]
   by_contra hlate
   have hfalse:=hcheck (by omega)
   simp [hlets] at hfalse
 · have harmed:=h.armed hopen (fun w hw=>by
    by_contra hne
    exact hreplaced ⟨w,hw,by simpa using hne⟩)
   cases harmed with
   | inl hzero=>omega
   | inr heq=>omega

theorem not_ends_of_lets (h:Inv s) (hcareful:∀ w ∈ s.writing, CarefulCheck s w)
  (hlets:s.fence.lets s.clock=true) : ∀ e ∈ s.log, ends e=false := by
 intro e he
 by_contra hne
 have ⟨hopen,_⟩:=lets_iff.mp hlets
 have ⟨w,hw,hreplaced,hexpired⟩:=h.ended e he (by simpa using hne) hopen
 have hcovered:=h.covered_of_lets hcareful hlets
 have hwritten:=h.writing w hw
 have hexpires:=hwritten.expiresAt
 have hchecked:=hwritten.checkedAt
 rw [hwritten.onDisk hreplaced,leaseEnd] at hcovered
 simp only [hexpired,if_true] at hexpires
 omega

theorem pass (h:Inv s) (hcareful:∀ w ∈ s.writing, CarefulCheck s w)
  (hlets:s.fence.lets s.clock=true) : Inv s.pass where
 armed:=h.armed
 writing:=fun w hw=>⟨(h.writing w hw).expiresAt,(h.writing w hw).checkedAt,
  (h.writing w hw).onDisk⟩
 fenced:=h.fenced.append_passed (h.covered_of_lets hcareful hlets)
  (h.not_ends_of_lets hcareful hlets)
 unreplaced := by
  intro e he hend
  cases List.mem_append.mp he with
  | inl hmem=>exact h.unreplaced e hmem hend
  | inr hmem=>
   rw [List.mem_singleton.mp hmem] at hend
   exact Bool.noConfusion hend
 ended := by
  intro e he hend
  cases List.mem_append.mp he with
  | inl hmem=>exact h.ended e hmem hend
  | inr hmem=>
   rw [List.mem_singleton.mp hmem] at hend
   exact Bool.noConfusion hend
 violated:=h.violated
 superseded:=h.superseded

theorem told_refused (h:Inv s) (hreplaced:∀ w ∈ s.writing, w.replaced=true)
  (hclosed:s'.fence.closed=true) (hclock:s'.clock=s.clock)
  (hwriting:s'.writing=s.writing) (hlease:s'.lease=s.lease)
  (hlog:s'.log=s.log ++ [.refused]) : Inv s' where
 armed:=by simp [hclosed]
 writing := by
  rw [hwriting]
  intro w hw
  have hwritten:=h.writing w hw
  refine ⟨hwritten.expiresAt,hclock ▸ hwritten.checkedAt, ?_⟩
  rw [hlease]
  exact hwritten.onDisk
 fenced:=hlog ▸ h.fenced.append_refused
 unreplaced := by
  rw [hwriting]
  exact fun _ _ _=>hreplaced
 ended:=by simp [hclosed]
 violated:=fun _=>hclosed
 superseded:=fun _=>hclosed

theorem refuse (h:Inv s) (what:String) (hreplaced:∀ w ∈ s.writing, w.replaced=true) :
  Inv (s.refuse what) := by
 unfold State.refuse
 by_cases hclosed:s.fence.closed=true
 · simp only [hclosed,Bool.true_or,if_true]
   exact h.told_refused hreplaced hclosed rfl rfl rfl rfl
 · have hopen:(s.fence.closed || s.fence.violated)=false:=by
    rw [Bool.or_eq_false_iff]
    exact ⟨eq_false_of_ne_true hclosed,eq_false_of_ne_true (mt h.violated hclosed)⟩
   have hwhy:s.supersededWhy.isSome=false:=eq_false_of_ne_true (mt h.superseded hclosed)
   simp only [hopen,State.supersede,hwhy,Bool.false_eq_true,if_false]
   exact h.told_refused hreplaced rfl rfl rfl rfl rfl

theorem supersede (h:Inv s) (why:String) : Inv (s.supersede why) := by
 unfold State.supersede
 split
 · exact h
 · exact h.of_closed rfl rfl rfl rfl rfl

/-! ### Lease writes -/

theorem of_writing_none (h:Inv s) (hfence:s'.fence=s.fence) (hwriting:s'.writing=none)
  (hwhy:s'.supersededWhy=s.supersededWhy) (hlease:s'.lease=s.lease)
  (hlog:s'.log=s.log) (hnone:∀ w ∈ s.writing, w.replaced=false) : Inv s' where
 armed := by
  rw [hfence,hlease]
  exact fun hclosed _=>h.armed hclosed hnone
 writing:=by simp [hwriting]
 fenced:=hlog ▸ h.fenced
 unreplaced:=by simp [hwriting]
 ended := by
  rw [hlog,hfence]
  intro e he hend hclosed
  have ⟨w,hw,hreplaced,_⟩:=h.ended e he hend hclosed
  simp [hnone w hw] at hreplaced
 violated:=hfence ▸ h.violated
 superseded := by
  rw [hwhy,hfence]
  exact h.superseded

theorem settle_closed (h:Inv s) (hclosed:s'.fence.closed=true)
  (hwriting:s'.writing=none) (hlog:s'.log=s.log) : Inv s' where
 armed:=by simp [hclosed]
 writing:=by simp [hwriting]
 fenced:=hlog ▸ h.fenced
 unreplaced:=by simp [hwriting]
 ended:=by simp [hclosed]
 violated:=fun _=>hclosed
 superseded:=fun _=>hclosed

theorem settle (h:Inv s) (expired:Bool) (hnone:∀ w ∈ s.writing, w.replaced=false) :
  Inv (s.settle expired) := by
 cases expired with
 | false=>exact h.of_writing_none rfl rfl rfl rfl rfl hnone
 | true=>exact h.settle_closed rfl rfl rfl

theorem beginLease (h:Inv s) : Inv (beginLease s) := by
 unfold RunLeases.beginLease
 split
 · rename_i expired rest hwriting hqueue
   have hnone:∀ w ∈ s.writing, CarefulCheck s w:=by simp [hwriting]
   have hnext:Inv { s with queue:=rest }:=h.of_eq le_rfl rfl rfl rfl rfl rfl
   dsimp only
   split
   · rename_i hlets
     have hpass:Inv ({ s with queue:=rest } : State).pass:=hnext.pass hnone hlets
     have hends:=h.not_ends_of_lets hnone hlets
     have hnot:∀ e ∈ ({ s with queue:=rest } : State).pass.log, ends e=false:=by
      intro e he
      cases List.mem_append.mp he with
      | inl hmem=>exact hends e hmem
      | inr hmem=>
       rw [List.mem_singleton.mp hmem]
       rfl
     exact {
      armed:=fun hclosed _=>hpass.armed hclosed (by
       intro w hw
       simp [State.pass,hwriting] at hw)
      writing := by
       intro w hw
       simp only [Option.mem_def,Option.some.injEq] at hw
       subst hw
       exact ⟨rfl,le_rfl,fun hreplaced=>by simp at hreplaced⟩
      fenced:=hpass.fenced
      unreplaced:=fun e he hend=>by simp [hnot e he] at hend
      ended:=fun e he hend=>by simp [hnot e he] at hend
      violated:=hpass.violated
      superseded:=hpass.superseded }
   · have hrefused:Inv (({ s with queue:=rest } : State).refuse "lease"):=
      hnext.refuse "lease" (by simp [hwriting])
     apply hrefused.settle
     intro w hw
     rw [(frame_refuse _ _).writing] at hw
     simp [hwriting] at hw
 · exact h

theorem replaceFile (h:Inv s) : Inv (replaceFile s) := by
 unfold RunLeases.replaceFile
 split
 · exact h
 · rename_i w hw
   split
   · exact h
   · rename_i hreplaced
     have hwritten:=h.writing w hw
     have hends:∀ e ∈ s.log, ends e=false:=by
      intro e he
      by_contra hne
      exact hreplaced (h.unreplaced e he (by simpa using hne) w hw)
     exact {
      armed:=fun _ hnone=>by simpa using hnone { w with replaced:=true } rfl
      writing := by
       intro w' hw'
       simp only [Option.mem_def,Option.some.injEq] at hw'
       subst hw'
       exact ⟨hwritten.expiresAt,hwritten.checkedAt,fun _=>rfl⟩
      fenced:=h.fenced.append_replaced w.expired hends
      unreplaced := by
       intro _ _ _ w' hw'
       simp only [Option.mem_def,Option.some.injEq] at hw'
       rw [←hw']
      ended := by
       intro e he hend _
       refine ⟨{ w with replaced:=true },rfl,rfl, ?_⟩
       cases List.mem_append.mp he with
       | inl hmem=>simp [hends e hmem] at hend
       | inr hmem=>
        rw [List.mem_singleton.mp hmem] at hend
        exact hend
      violated:=h.violated
      superseded:=h.superseded }

theorem renewed (h:Inv s) {w:LeaseWrite} (hw:w ∈ s.writing) (hreplaced:w.replaced=true)
  (hexpired:w.expired=false) :
  Inv ({ s with fence:=s.fence.renewed w.file.expiresAt }.settle w.expired) := by
 by_cases hclosed:s.fence.closed=true
 · apply h.settle_closed
   · simp [State.settle,Fence.renewed,hexpired,hclosed]
   · rfl
   · rfl
 · have hfence:s.fence.renewed w.file.expiresAt =
     { s.fence with validUntil:=w.file.expiresAt } := by
    simp [Fence.renewed,hclosed]
   rw [State.settle,hexpired,hfence]
   exact {
    armed:=fun _ _=>.inr (by
     dsimp only
     rw [(h.writing w hw).onDisk hreplaced,leaseEnd]
     rfl)
    writing:=by simp
    fenced:=h.fenced
    unreplaced:=by simp
    ended := by
     intro e he hend hopen
     have ⟨w', hw', _,hexpired'⟩:=h.ended e he hend hopen
     have heq:w' = w:=Option.some.inj (hw'.symm.trans hw)
     simp [heq,hexpired] at hexpired'
    violated:=h.violated
    superseded:=h.superseded }

theorem leaseReturns (h:Inv s) : Inv (leaseReturns s) := by
 unfold RunLeases.leaseReturns
 split
 · exact h
 · rename_i w hw
   split
   · rename_i hboth
     simp only [Bool.and_eq_true,Bool.not_eq_true'] at hboth
     exact h.renewed hw hboth.1 hboth.2
   · rename_i hnot
     cases hexpired:w.expired with
     | true=>exact h.settle_closed rfl rfl rfl
     | false=>
      apply h.settle
      intro w' hw'
      have heq:w' = w:=Option.some.inj (hw'.symm.trans hw)
      simpa [heq,hexpired] using hnot

/-! ### Other steps -/

theorem boot (h:Inv s) : Inv (boot s) := by
 unfold RunLeases.boot
 split
 · exact h
 · rename_i validUntil hcheck
   by_cases hclosed:s.fence.closed=true
   · apply h.of_closed
     · simp [Fence.renewed,hclosed]
     all_goals rfl
   · have hfence:s.fence.renewed validUntil = { s.fence with validUntil }:=by
      simp [Fence.renewed,hclosed]
     rw [hfence]
     exact {
      armed:=fun _ _=>.inr (leaseEnd_of_checkRun hcheck)
      writing:=fun w hw=>⟨(h.writing w hw).expiresAt,(h.writing w hw).checkedAt,
       (h.writing w hw).onDisk⟩
      fenced:=h.fenced
      unreplaced:=h.unreplaced
      ended:=h.ended
      violated:=h.violated
      superseded:=h.superseded }

theorem beginWrite (h:Inv s) (what:String) (hcareful:∀ w ∈ s.writing, CarefulCheck s w) :
  Inv (beginWrite what s) := by
 unfold RunLeases.beginWrite
 split
 · rename_i hlets
   exact (h.pass hcareful hlets).of_eq le_rfl rfl rfl rfl rfl rfl
 · rename_i hlets
   apply h.refuse
   intro w hw
   have hcheck:=hcareful w hw
   by_contra hne
   rw [CarefulCheck,if_neg hne] at hcheck
   exact hlets hcheck

theorem release (h:Inv s) : Inv (release s) := by
 unfold RunLeases.release
 split
 · exact h.of_eq le_rfl rfl rfl rfl rfl rfl
 · exact h.of_closed rfl rfl rfl rfl rfl

theorem set (h:Inv s) (state:HarnessLeaseState) (turnId:Option String) :
  Inv (set state turnId s) := by
 unfold RunLeases.set
 dsimp only
 split
 · exact h
 · split
   · exact h.of_eq le_rfl rfl rfl rfl rfl rfl
   · exact h.of_eq le_rfl rfl rfl rfl rfl rfl

theorem renew (h:Inv s) : Inv (renew s) := by
 unfold RunLeases.renew
 split
 · exact h.of_eq le_rfl rfl rfl rfl rfl rfl
 · exact h

theorem lookUp (h:Inv s) (fails:Bool) : Inv (lookUp fails s) := by
 unfold RunLeases.lookUp
 dsimp only
 split
 · exact h
 · split
   · exact h.of_eq le_rfl rfl rfl rfl rfl rfl
   · split
     · exact h.of_eq le_rfl rfl rfl rfl rfl rfl
     · exact h.of_eq le_rfl rfl rfl rfl rfl rfl

theorem goOn (h:Inv s) (newer:Bool) : Inv (goOn newer s) := by
 unfold RunLeases.goOn
 split
 · split
   · exact h
   · apply Inv.supersede
     exact h.of_eq le_rfl rfl rfl rfl rfl rfl
 · split
   · exact h
   · exact h.of_eq le_rfl rfl rfl rfl rfl rfl

theorem step (h:Inv s) {action:Action} (hcareful:Careful s action) :
  Inv (step action s) := by
 cases action with
 | tick ms=>exact h.of_eq (Nat.le_add_right _ _) rfl rfl rfl rfl rfl
 | boot=>exact h.boot
 | start=>exact h.of_eq le_rfl rfl rfl rfl rfl rfl
 | renew=>exact h.renew
 | lookUp fails=>exact h.lookUp fails
 | goOn newer=>exact h.goOn newer
 | set state turnId=>exact h.set state turnId
 | release=>exact h.release
 | beginLease=>exact h.beginLease
 | replaceFile=>exact h.replaceFile
 | leaseReturns=>exact h.leaseReturns
 | beginWrite what=>exact h.beginWrite what hcareful
 | endWrite checkedAt=>exact h.of_eq le_rfl rfl rfl rfl rfl rfl
 | createNext=>exact h.of_eq le_rfl rfl rfl rfl rfl rfl

end Inv

end Steps

/-! ## Two runs -/

/-- When the lease write under way was checked, as long as it may replace the file. -/
def pending (writing:Option LeaseWrite) : List ℕ :=
 ((writing.filter fun w=>!w.replaced).map LeaseWrite.checkedAt).toList

def Apart (s:State) : Prop :=
 Exclusive FENCE_MARGIN_MS s.clock (leaseEnd s.lease) (s.writes ++ pending s.writing) s.newer

theorem mem_pending {writing:Option LeaseWrite} {t:ℕ} :
  t ∈ pending writing ↔ ∃ w ∈ writing, w.replaced=false ∧ w.checkedAt=t := by
 cases writing with
 | none=>simp [pending]
 | some w=>
  cases hreplaced:w.replaced with
  | true=>simp [pending,Option.filter,hreplaced]
  | false=>
   simp only [pending,Option.filter,hreplaced,Bool.not_false,if_true,Option.map_some,
    Option.toList_some,List.mem_singleton,Option.mem_def,Option.some.injEq,
    exists_eq_left', true_and]
   exact eq_comm

section Apart

variable {s:State}

theorem Apart.of_frame (h:Apart s) {s' : State} (hframe:Frame s s') : Apart s' := by
 unfold Apart
 rw [hframe.clock,hframe.lease,hframe.writes,hframe.writing,hframe.newer]
 exact h

theorem Apart.silent (h:Apart s) (hnewer:s.newer=true) : Silent s := by
 have ⟨hwrites,hpending⟩:=List.append_eq_nil_iff.mp (h.ops_eq_nil hnewer)
 refine ⟨hwrites, ?_⟩
 intro w hw
 by_contra hne
 have hmem:w.checkedAt ∈ pending s.writing:=
  mem_pending.mpr ⟨w,hw,eq_false_of_ne_true hne,rfl⟩
 simp [hpending] at hmem

theorem Apart.tick (h:Apart s) {ms:ℕ} (htimely:Timely s (.tick ms)) :
  Apart (step (.tick ms) s) := by
 apply Exclusive.tick h (Nat.le_add_right _ _)
 intro t ht
 cases List.mem_append.mp ht with
 | inl hmem=>exact htimely.1 t hmem
 | inr hmem=>
  have ⟨w,hw,_,heq⟩:=mem_pending.mp hmem
  exact heq ▸ htimely.2 w hw

theorem Apart.beginWrite (h:Apart s) (hinv:Inv s) (what:String)
  (hcareful:∀ w ∈ s.writing, CarefulCheck s w) : Apart (beginWrite what s) := by
 unfold RunLeases.beginWrite
 split
 · rename_i hlets
   apply Exclusive.start (T := ℕ) h (Nat.zero_le _) (hinv.covered_of_lets hcareful hlets)
   intro t ht
   simp only [State.pass,List.append_assoc,List.mem_append,List.mem_singleton] at ht
   rw [List.mem_append]
   tauto
 · exact h.of_frame (frame_refuse _ _)

theorem Apart.beginLease (h:Apart s) (hinv:Inv s) : Apart (beginLease s) := by
 unfold RunLeases.beginLease
 split
 · rename_i expired rest hwriting hqueue
   dsimp only
   split
   · rename_i hlets
     apply Exclusive.start (T := ℕ) h (Nat.zero_le _) (hinv.covered_of_lets (by simp [hwriting]) hlets)
     intro t ht
     cases List.mem_append.mp ht with
     | inl hmem=>exact .inr (List.mem_append_left _ hmem)
     | inr hmem=>
      have ⟨w,hw,_,heq⟩:=mem_pending.mp hmem
      simp only [Option.mem_def,Option.some.injEq] at hw
      subst hw
      exact .inl heq.symm
   · have hframe:=frame_refuse "lease" { s with queue:=rest }
     apply Apart.of_frame h
     exact ⟨hframe.clock,hwriting.symm,hframe.lease,hframe.newer,hframe.writes⟩
 · exact h

theorem Apart.replaceFile (h:Apart s) (hinv:Inv s) (hquiet:Quiet s .replaceFile) :
  Apart (replaceFile s) := by
 unfold RunLeases.replaceFile
 split
 · exact h
 · rename_i w hw
   split
   · exact h
   · rename_i hreplaced
     have hmem:w.checkedAt ∈ s.writes ++ pending s.writing:=by
      apply List.mem_append_right
      exact mem_pending.mpr ⟨w,hw,eq_false_of_ne_true hreplaced,rfl⟩
     have hsubset:s.writes ++ pending (some { w with replaced:=true }) ⊆
       s.writes ++ pending s.writing := by
      simp [pending,Option.filter]
     have hfinish:=Exclusive.finish h hsubset
     apply hfinish.renew
     · intro t ht
       have hinTime:=h.inTime _ hmem
       have hexpires:=(hinv.writing w hw).expiresAt
       have hwrites:t ∈ s.writes:=by simpa [pending,Option.filter] using ht
       cases hexpired:w.expired with
       | true=>
        rw [hquiet w hw hexpired] at hwrites
        exact absurd hwrites List.not_mem_nil
       | false=>
        have hbegun:=h.begun t (List.mem_append_left _ hwrites)
        rw [hexpired] at hexpires
        dsimp only [leaseEnd]
        simp only [FENCE_MARGIN_MS,LEASE_TTL_MS,Bool.false_eq_true,if_false] at *
        omega
     · exact h.successor_eq_false hmem

theorem Apart.settle (h:Apart s) (expired:Bool) : Apart (s.settle expired) :=
 Exclusive.finish h (by simp [State.settle,pending])

theorem Apart.leaseReturns (h:Apart s) : Apart (leaseReturns s) := by
 unfold RunLeases.leaseReturns
 split
 · exact h
 · split
   · exact Exclusive.finish h (by simp [State.settle,pending])
   · exact h.settle _

theorem Apart.step (h:Apart s) (hinv:Inv s) {action:Action} (hcareful:Careful s action)
  (htimely:Timely s action) (hquiet:Quiet s action) : Apart (step action s) := by
 cases action with
 | tick ms=>exact h.tick htimely
 | boot=>exact h.of_frame (frame_boot s)
 | start=>exact h
 | renew=>exact h.of_frame (frame_renew s)
 | lookUp fails=>exact h.of_frame (frame_lookUp fails s)
 | goOn newer=>exact h.of_frame (frame_goOn newer s)
 | set state turnId=>exact h.of_frame (frame_set state turnId s)
 | release=>exact h.of_frame (frame_release s)
 | beginLease=>exact h.beginLease hinv
 | replaceFile=>exact h.replaceFile hinv hquiet
 | leaseReturns=>exact h.leaseReturns
 | beginWrite what=>exact h.beginWrite hinv what hcareful
 | endWrite checkedAt=>
  apply Exclusive.finish h
  intro t ht
  cases List.mem_append.mp ht with
  | inl hmem=>exact List.mem_append_left _ (List.mem_of_mem_erase hmem)
  | inr hmem=>exact List.mem_append_right _ hmem
 | createNext=>exact Exclusive.create h htimely

end Apart

/-! ## Runs -/

theorem inv_run {actions:List Action} (hfresh:Fresh s)
  (hcareful:Admissible step Careful actions s) : Inv (run step actions s) :=
 hcareful.invariant (fun _ _ h hadmits=>h.step hadmits) (inv_fresh hfresh)

theorem apart_fresh (h:Fresh s) : Apart s := by
 unfold Apart
 rw [h.writes,h.writing,h.newer]
 exact ⟨by simp [pending],by simp [pending],by simp [pending],by simp⟩

theorem apart_run {actions:List Action} (hfresh:Fresh s)
  (hcareful:Admissible step Careful actions s) (htimely:Admissible step Timely actions s)
  (hquiet:Admissible step Quiet actions s) : Apart (run step actions s) := by
 have hboth:Inv (run step actions s) ∧ Apart (run step actions s):=by
  apply (hcareful.and (htimely.and hquiet)).invariant (P := fun s=>Inv s ∧ Apart s)
  · intro s' action h hadmits
    exact ⟨h.1.step hadmits.1,h.2.step h.1 hadmits.1 hadmits.2.1 hadmits.2.2⟩
  · exact ⟨inv_fresh hfresh,apart_fresh hfresh⟩
 exact hboth.2

/-- Run 1 with the lease of three minutes that the Sessions API wrote. -/
def created : State where
 clock:=1000
 run:=1
 taskId:="task"
 fence:=.new
 state:=⟨.running,by decide⟩
 turnId:=none
 held:=false
 lookups:=⟨0,0,0⟩
 queue:=[]
 writing:=none
 supersededWhy:=none
 record:=.valid ⟨1,1000⟩
 lease:=.valid ⟨1,"sessions-api",.starting,none,181000⟩
 newer:=false
 writes:=[]
 log:=[]

def started : List Action := [.boot,.start,.beginLease,.replaceFile,.leaseReturns]

def renewal : List Action :=
 [.tick 30000,.renew,.lookUp false,.goOn false,.beginLease,.replaceFile,.leaseReturns]

/-- A write, a renewal, a release, and then the next run. -/
def wholeRun : List Action :=
 started ++ [.beginWrite "events",.tick 20,.endWrite 1000] ++ renewal ++
  [.release,.beginLease,.replaceFile,.leaseReturns,.createNext,.beginWrite "events"]

/-- A write is checked after the lease of the release is on disk. -/
def checkedAfterRelease : List Action :=
 started ++ [.release,.beginLease,.replaceFile,.beginWrite "workspace"]

/-- A renewal that stalls replaces the file after a write was refused. -/
def renewedAfterRefusal : List Action :=
 started ++ [.tick 30000,.renew,.lookUp false,.goOn false,.beginLease,.tick 50000,
  .beginWrite "events",.replaceFile]

/-- A write is under way when the lease of the release replaces the file. -/
def releasedMeanwhile : List Action :=
 started ++ [.beginWrite "workspace",.release,.beginLease,.replaceFile,.leaseReturns,
  .tick 10,.createNext]

end L4Ide.RunLeasesFenced
