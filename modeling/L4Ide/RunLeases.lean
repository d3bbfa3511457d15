import L4Ide.AdmissibleRuns

set_option autoImplicit false

/-!
# The lease of a run and its write fence

A run of the cloud harness renews its lease through the fence that every one of its writes asks.
-/
namespace L4Ide.RunLeases

def FENCE_MARGIN_MS : ℕ := 15000

def LEASE_TTL_MS : ℕ := 90000

inductive RunLeaseState
 | starting
 | running
 | busy
 | waiting
 deriving DecidableEq

def HarnessLeaseState : Type := {state:RunLeaseState // state ≠ .starting}
 deriving DecidableEq

structure RunRecordFile where
 run : ℕ
 createdAt : ℕ
 deriving DecidableEq

structure RunLeaseFile where
 run : ℕ
 taskId : String
 state : RunLeaseState
 turnId : Option String
 expiresAt : ℕ
 deriving DecidableEq

inductive Stored (α:Type)
 | missing
 | invalid
 | valid (content:α)
 deriving DecidableEq

def isLeaseLive (lease:RunLeaseFile) (now:ℕ) : Bool := decide (now < lease.expiresAt)

/-- When the lease on disk runs out; one that is not there or not valid has. -/
def leaseEnd : Stored RunLeaseFile → ℕ
 | .valid lease=>lease.expiresAt
 | _=>0

/-- The lease's expiry to arm the fence with, or the reason why the run may not start. -/
def checkRun (run:ℕ) (record:Stored RunRecordFile) (newerRunExists:Bool)
  (lease:Stored RunLeaseFile) (now:ℕ) : Except String ℕ :=
 match record with
 | .missing=>.error ("run " ++ toString run ++ " has no record")
 | .invalid=>.error ("run " ++ toString run ++ "'s record is invalid")
 | .valid _=>
  if newerRunExists then .error ("run " ++ toString (run+1) ++ " exists")
  else
   match lease with
   | .missing=>.error ("run " ++ toString run ++ " has no valid lease")
   | .invalid=>.error ("run " ++ toString run ++ " has no valid lease")
   | .valid lease=>
    if lease.expiresAt-FENCE_MARGIN_MS ≤ now then
     .error ("run " ++ toString run ++ "'s lease ran out before the harness started")
    else .ok lease.expiresAt

structure Fence where
 validUntil : ℕ
 closed : Bool
 violated : Bool
 deriving DecidableEq

namespace Fence

def new : Fence := ⟨0,false,false⟩

def renewed (expiresAt:ℕ) (f:Fence) : Fence :=
 if f.closed then f else { f with validUntil:=expiresAt }

def close (f:Fence) : Fence := { f with closed:=true }

def lets (now:ℕ) (f:Fence) : Bool :=
 !f.closed && decide (now < f.validUntil-FENCE_MARGIN_MS)

/-- The text with which a write is refused. -/
def refusal (what:String) (f:Fence) : String :=
 if f.closed then what ++ ": the run has ended"
 else what ++ ": the run's lease is no longer valid"

end Fence

structure LeaseWrite where
 file : RunLeaseFile
 expired : Bool
 checkedAt : ℕ
 replaced : Bool
 deriving DecidableEq

/-- What happened, in order: a check that passed with the clock and the end of the lease on disk,
    a check that was refused, a lease that replaced the one on disk. -/
inductive Event
 | passed (now expiry:ℕ)
 | refused
 | replaced (expired:Bool)
 deriving DecidableEq

/-- Renewals that look for a newer run: not answered, or answered and about to go on. -/
structure Lookups where
 asked : ℕ
 absent : ℕ
 present : ℕ
 deriving DecidableEq

structure State where
 clock : ℕ
 run : ℕ
 taskId : String
 fence : Fence
 state : HarnessLeaseState
 turnId : Option String
 held : Bool
 lookups : Lookups
 /-- The lease writes that wait for the one under way, the release's marked. -/
 queue : List Bool
 writing : Option LeaseWrite
 supersededWhy : Option String
 record : Stored RunRecordFile
 lease : Stored RunLeaseFile
 newer : Bool
 /-- When the other writes under way were checked. -/
 writes : List ℕ
 log : List Event
 deriving DecidableEq

namespace State

def supersede (why:String) (s:State) : State :=
 if s.supersededWhy.isSome then s
 else { s with supersededWhy:=some why,fence:=s.fence.close,held:=false }

def pass (s:State) : State :=
 { s with log:=s.log ++ [.passed s.clock (leaseEnd s.lease)] }

/-- A check is refused; the first one that was not after the end supersedes the run. -/
def refuse (what:String) (s:State) : State :=
 let told:State:={ s with log:=s.log ++ [.refused] }
 if s.fence.closed || s.fence.violated then told
 else { told with fence:={ s.fence with violated:=true } }.supersede (s.fence.refusal what)

def settle (expired:Bool) (s:State) : State :=
 { s with writing:=none,fence:=if expired then s.fence.close else s.fence }

def enqueue (expired:Bool) (s:State) : State := { s with queue:=s.queue ++ [expired] }

def leaseFile (expired:Bool) (s:State) : RunLeaseFile where
 run:=s.run
 taskId:=s.taskId
 state:=s.state.val
 turnId:=s.turnId.filter fun id=>id ≠ ""
 expiresAt:=s.clock + if expired then 0 else LEASE_TTL_MS

end State

def boot (s:State) : State :=
 match checkRun s.run s.record s.newer s.lease s.clock with
 | .error _=>s
 | .ok validUntil=>{ s with fence:=s.fence.renewed validUntil }

def start (s:State) : State := { s with held:=true }.enqueue false

def renew (s:State) : State :=
 if s.held then { s with lookups:={ s.lookups with asked:=s.lookups.asked+1 } } else s

def lookUp (fails:Bool) (s:State) : State :=
 if s.lookups.asked=0 then s
 else
  let asked:=s.lookups.asked-1
  if fails then { s with lookups:={ s.lookups with asked } }
  else if s.newer then
   { s with lookups:={ s.lookups with asked,present:=s.lookups.present+1 } }
  else { s with lookups:={ s.lookups with asked,absent:=s.lookups.absent+1 } }

def goOn (newer:Bool) (s:State) : State :=
 if newer then
  if s.lookups.present=0 then s
  else
   { s with
     lookups:={ s.lookups with present:=s.lookups.present-1 }
     held:=false }.supersede ("run " ++ toString (s.run+1) ++ " exists")
 else
  if s.lookups.absent=0 then s
  else
   { s with lookups:={ s.lookups with absent:=s.lookups.absent-1 } }.enqueue false

def set (state:HarnessLeaseState) (turnId:Option String) (s:State) : State :=
 if s.state=state ∧ s.turnId=turnId then s
 else
  let changed:State:=
   { s with state,turnId:=if state.val = .running then none else turnId }
  if s.held then changed.enqueue false else changed

def release (s:State) : State :=
 if s.held then { s with held:=false }.enqueue true
 else { s with held:=false,fence:=s.fence.close }

def beginLease (s:State) : State :=
 match s.writing, s.queue with
 | none, expired::rest=>
  let next:State:={ s with queue:=rest }
  if s.fence.lets s.clock then
   { next.pass with writing:=some ⟨s.leaseFile expired,expired,s.clock,false⟩ }
  else (next.refuse "lease").settle expired
 | _, _=>s

def replaceFile (s:State) : State :=
 match s.writing with
 | none=>s
 | some w=>
  if w.replaced then s
  else
   { s with
     lease:=.valid w.file
     writing:=some { w with replaced:=true }
     log:=s.log ++ [.replaced w.expired] }

/-- The lease write that replaced the file returns, or one that did not fails. -/
def leaseReturns (s:State) : State :=
 match s.writing with
 | none=>s
 | some w=>
  if w.replaced && !w.expired then
   { s with fence:=s.fence.renewed w.file.expiresAt }.settle w.expired
  else s.settle w.expired

def beginWrite (what:String) (s:State) : State :=
 if s.fence.lets s.clock then { s.pass with writes:=s.writes ++ [s.clock] }
 else s.refuse what

inductive Action
 | tick (ms:ℕ)
 | boot
 | start
 | renew
 | lookUp (fails:Bool)
 | goOn (newer:Bool)
 | set (state:HarnessLeaseState) (turnId:Option String)
 | release
 | beginLease
 | replaceFile
 | leaseReturns
 | beginWrite (what:String)
 | endWrite (checkedAt:ℕ)
 | createNext
 deriving DecidableEq

def step (action:Action) (s:State) : State :=
 match action with
 | .tick ms=>{ s with clock:=s.clock+ms }
 | .boot=>boot s
 | .start=>start s
 | .renew=>renew s
 | .lookUp fails=>lookUp fails s
 | .goOn newer=>goOn newer s
 | .set state turnId=>set state turnId s
 | .release=>release s
 | .beginLease=>beginLease s
 | .replaceFile=>replaceFile s
 | .leaseReturns=>leaseReturns s
 | .beginWrite what=>beginWrite what s
 | .endWrite checkedAt=>{ s with writes:=s.writes.erase checkedAt }
 | .createNext=>{ s with newer:=true }

structure Frame (s s' : State) : Prop where
 clock : s'.clock=s.clock
 writing : s'.writing=s.writing
 lease : s'.lease=s.lease
 newer : s'.newer=s.newer
 writes : s'.writes=s.writes

theorem frame_refl (s:State) : Frame s s := ⟨rfl,rfl,rfl,rfl,rfl⟩

theorem frame_supersede (why:String) (s:State) : Frame s (s.supersede why) := by
 unfold State.supersede
 split
 · exact frame_refl s
 · exact ⟨rfl,rfl,rfl,rfl,rfl⟩

theorem frame_refuse (what:String) (s:State) : Frame s (s.refuse what) := by
 unfold State.refuse
 dsimp only
 split
 · exact ⟨rfl,rfl,rfl,rfl,rfl⟩
 · have h:=frame_supersede (s.fence.refusal what)
    { s with log:=s.log ++ [.refused],fence:={ s.fence with violated:=true } }
   exact ⟨h.clock,h.writing,h.lease,h.newer,h.writes⟩

theorem frame_boot (s:State) : Frame s (boot s) := by
 unfold boot
 split
 · exact frame_refl s
 · exact ⟨rfl,rfl,rfl,rfl,rfl⟩

theorem frame_renew (s:State) : Frame s (renew s) := by
 unfold renew
 split
 · exact ⟨rfl,rfl,rfl,rfl,rfl⟩
 · exact frame_refl s

theorem frame_lookUp (fails:Bool) (s:State) : Frame s (lookUp fails s) := by
 unfold lookUp
 dsimp only
 split
 · exact frame_refl s
 · split
   · exact ⟨rfl,rfl,rfl,rfl,rfl⟩
   · split
     · exact ⟨rfl,rfl,rfl,rfl,rfl⟩
     · exact ⟨rfl,rfl,rfl,rfl,rfl⟩

theorem frame_goOn (newer:Bool) (s:State) : Frame s (goOn newer s) := by
 unfold goOn
 split
 · split
   · exact frame_refl s
   · have h:=frame_supersede ("run " ++ toString (s.run+1) ++ " exists")
      { s with lookups:={ s.lookups with present:=s.lookups.present-1 },held:=false }
     exact ⟨h.clock,h.writing,h.lease,h.newer,h.writes⟩
 · split
   · exact frame_refl s
   · exact ⟨rfl,rfl,rfl,rfl,rfl⟩

theorem frame_set (state:HarnessLeaseState) (turnId:Option String) (s:State) :
  Frame s (set state turnId s) := by
 unfold set
 dsimp only
 split
 · exact frame_refl s
 · split
   · exact ⟨rfl,rfl,rfl,rfl,rfl⟩
   · exact ⟨rfl,rfl,rfl,rfl,rfl⟩

theorem frame_release (s:State) : Frame s (release s) := by
 unfold release
 split
 · exact ⟨rfl,rfl,rfl,rfl,rfl⟩
 · exact ⟨rfl,rfl,rfl,rfl,rfl⟩

end L4Ide.RunLeases
