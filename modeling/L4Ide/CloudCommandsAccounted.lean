import Mathlib.Data.List.Basic
import L4Ide.CloudCommands

set_option autoImplicit false

/-!
# What is accounted for of the commands of a cloud session

The invariant of a harness: numbers are settled before they are handled, and handled before they are
recorded. Most steps are changes that settle numbers and then handle them.
-/
namespace L4Ide.CloudCommandsAccounted
open CloudCommands

/-! ## What a run is asked for -/

def settles : Fate → ℕ → Prop
 | .executed m, n=>n=m
 | .discardedThrough m, n=>n ≤ m
 | .aborted m, n=>n=m
 | .passedOver m, n=>n=m
 | .interrupted m, n=>n=m
 | .unrecorded m, n=>n=m
 | .queuedBehind m, n=>n=m

/-- The number is accounted for, or its turn starts as soon as it is recorded. -/
def Settled (s:State) (n:ℕ) : Prop :=
 (∃ fate ∈ s.fates, settles fate n) ∨ ∃ cmd, s.work = .recording cmd ∧ cmd.id=n

/-- A stop command discarded it. -/
def Discarded (s:State) (n:ℕ) : Prop := ∃ m, .discardedThrough m ∈ s.fates ∧ n ≤ m

def grace : Reading → Option ℕ
 | .error code=>if code ∈ TRANSIENT_ERRNOS then some COMMAND_TRANSIENT_GRACE_MS else none
 | .missing=>some COMMAND_GRACE_MS
 | .halfWritten=>some COMMAND_GRACE_MS
 | .invalid=>none
 | .command _=>none

def Unusable (n:ℕ) : Reading → Prop
 | .error code=>code ∉ TRANSIENT_ERRNOS
 | .invalid=>True
 | .command cmd=>cmd.id ≠ n
 | _=>False

/-- The file was unusable, or every read of it failed, over the grace period of the last. -/
def PassedFor (reads:List Read) (n:ℕ) : Prop :=
 (∃ r ∈ reads, r.number=n ∧ Unusable n r.reading) ∨
  (∀ r ∈ reads, r.number=n → (grace r.reading).isSome) ∧
   ∃ first ∈ reads, ∃ last ∈ reads, first.number=n ∧ last.number=n ∧
    ∃ graceMs ∈ grace last.reading, first.now+graceMs ≤ last.now

def out : Tick → List CloudCommand
 | .polling out=>out
 | .skipping out=>out
 | _=>[]

def rest : Tick → List CloudCommand
 | .dispatching rest=>rest
 | .acting _ rest=>rest
 | .recording rest=>rest
 | _=>[]

structure Kept (s:State) : Prop where
 order : s.history.handedOut.Pairwise (· < ·)
 passed : ∀ n ∈ s.history.passed, PassedFor s.history.reads n
 accounted : ∀ n, s.history.start < n → n ≤ s.reader.delivered →
  n ∈ s.history.handedOut ∨ n ∈ (out s.tick).map CloudCommand.id ∨ n ∈ s.history.passed ∨
   n ∈ s.history.dropped
 dropped : ∀ n ∈ s.history.dropped,
  n ∈ s.history.handedOut ∨ n ∈ s.history.passed ∨ s.stored < n ∨ Discarded s n
 settled : ∀ n, 0 < n → n ≤ s.stored → Settled s n
 dispatched : ∀ n ∈ s.history.handedOut,
  n ∈ s.history.dispatched ∨ s.stored < n ∨ Discarded s n

/-! ## The reader -/

section Readers

variable {r:Reader}

/-- Recorded as handled, below `done` or out of order. -/
def Handled (r:Reader) (n:ℕ) : Prop := n ≤ r.done ∨ n ∈ r.handledAbove

theorem advance_spec (fuel next:ℕ) (above:List ℕ) :
  next ≤ (Reader.advance fuel next above).1 ∧
   (∀ n, n ≤ (Reader.advance fuel next above).1 → n ≤ next ∨ n ∈ above) ∧
   ∀ n ∈ (Reader.advance fuel next above).2, n ∈ above := by
 induction fuel generalizing next above with
 | zero=>exact ⟨Nat.le_refl _,fun _ h=>.inl h,fun _ h=>h⟩
 | succ fuel ih=>
  unfold Reader.advance
  split
  · rename_i hmem
    have ⟨hle,hhandled,habove⟩:=ih (next+1) (above.filter (· ≠ next+1))
    refine ⟨by omega, ?_,fun n hn=>(List.mem_filter.mp (habove n hn)).1⟩
    intro n hn
    cases hhandled n hn with
    | inl hn=>
     cases Nat.le_succ_iff.mp hn with
     | inl hn=>exact .inl hn
     | inr hn=>exact .inr (hn ▸ hmem)
    | inr hn=>exact .inr (List.mem_filter.mp hn).1
  · exact ⟨Nat.le_refl _,fun _ h=>.inl h,fun _ h=>h⟩

structure Marks (r r' : Reader) (marked:ℕ → Prop) : Prop where
 done : r.done ≤ r'.done
 delivered : r'.delivered=r.delivered
 stuckSince : r'.stuckSince=r.stuckSince
 handled : ∀ n, Handled r' n → Handled r n ∨ marked n

theorem marks_markHandled (n:ℕ) (r:Reader) : Marks r (r.markHandled n).2 (· = n) := by
 unfold Reader.markHandled
 split
 · exact ⟨Nat.le_refl _,rfl,rfl,fun _ h=>.inl h⟩
 · have ⟨hle,hhandled,habove⟩:=
    advance_spec (n::r.handledAbove).length r.done (n::r.handledAbove)
   have hmem:∀ m ∈ n::r.handledAbove, Handled r m ∨ m=n:=by
    intro m hm
    cases List.mem_cons.mp hm with
    | inl heq=>exact .inr heq
    | inr hm=>exact .inl (.inr hm)
   refine ⟨hle,rfl,rfl, ?_⟩
   intro m hm
   cases hm with
   | inl hm=>
    cases hhandled m hm with
    | inl hm=>exact .inl (.inl hm)
    | inr hm=>exact hmem m hm
   | inr hm=>exact hmem m (habove m hm)

theorem marks_markHandledThrough (n:ℕ) (r:Reader) :
  Marks r (r.markHandledThrough n).2 (fun m=>m ≤ n ∧ m ≤ r.delivered) := by
 refine ⟨Nat.le_max_left _ _,rfl,rfl, ?_⟩
 intro m hm
 cases hm with
 | inl hm=>
  change m ≤ max r.done (min n r.delivered) at hm
  by_cases hle:m ≤ r.done
  · exact .inl (.inl hle)
  · exact .inr (by omega)
 | inr hm=>exact .inl (.inr (List.mem_filter.mp hm).1)

end Readers

/-! ## The invariant -/

/-- A command that is recorded once it has run, or whose discarding is being recorded. -/
def Acts (s:State) (cmd:CloudCommand) : Prop :=
 (∃ more, s.tick = .acting cmd more) ∨ s.work = .acting cmd ∨ .stop cmd ∈ s.writes

def readNumbers (s:State) : List ℕ :=
 s.history.handedOut ++ (out s.tick).map CloudCommand.id

structure Marked (s:State) (n:ℕ) : Prop where
 settled : Settled s n
 delivered : n ≤ s.reader.delivered
 read : n ∈ s.history.dispatched ∨ n ∈ s.history.passed ∨ Discarded s n
 dispatched : n ∈ readNumbers s → n ∈ s.history.dispatched ∨ Discarded s n

structure Inv (s:State) : Prop where
 stored : s.stored ≤ s.reader.done
 writing : ∀ n ∈ s.writing, n ≤ s.reader.done
 settled : ∀ n, 0 < n → Handled s.reader n → Settled s n
 handled : ∀ n, Handled s.reader n → n ≤ s.reader.delivered
 acts : ∀ cmd, Acts s cmd → Marked s cmd.id
 queue : ∀ cmd ∈ s.queue, cmd.id ∈ s.history.dispatched
 rest : ∀ cmd ∈ rest s.tick, cmd.id ∈ s.history.handedOut
 dispatched : ∀ n ∈ s.history.dispatched, n ∈ s.history.handedOut
 order : (readNumbers s).Pairwise (· < ·)
 delivered : ∀ n ∈ readNumbers s, n ≤ s.reader.delivered
 undone : ∀ n ∈ readNumbers s,
  n ∈ s.history.dispatched ∨ ¬Handled s.reader n ∨ Discarded s n
 reads : ∀ r ∈ s.history.reads, r.number ≤ s.reader.delivered+1
 failed : ∀ r ∈ s.history.reads, r.number=s.reader.delivered+1 → (grace r.reading).isSome
 stuck : ∀ since, s.reader.stuckSince=some (s.reader.delivered+1,since) →
  ∃ r ∈ s.history.reads, r.number=s.reader.delivered+1 ∧ r.now=since
 stuckLe : ∀ n since, s.reader.stuckSince=some (n,since) → n ≤ s.reader.delivered+1
 passed : ∀ n ∈ s.history.passed, n ≤ s.reader.delivered ∧ PassedFor s.history.reads n
 accounted : ∀ n, s.history.start < n → n ≤ s.reader.delivered →
  n ∈ readNumbers s ∨ n ∈ s.history.passed ∨ n ∈ s.history.dropped
 dropped : ∀ n ∈ s.history.dropped,
  n ∈ s.history.handedOut ∨ n ∈ s.history.passed ∨ ¬Handled s.reader n ∨ Discarded s n

theorem Inv.stored_lt {s:State} (h:Inv s) {n:ℕ} (hnot:¬Handled s.reader n) :
  s.stored < n := by
 have hdone:¬n ≤ s.reader.done:=fun hle=>hnot (.inl hle)
 have hstored:=h.stored
 omega

theorem Inv.kept {s:State} (h:Inv s) : Kept s where
 order:=(List.pairwise_append.mp h.order).1
 passed:=fun n hn=>(h.passed n hn).2
 accounted := by
  intro n hstart hdelivered
  cases h.accounted n hstart hdelivered with
  | inl hmem=>
   cases List.mem_append.mp hmem with
   | inl hmem=>exact .inl hmem
   | inr hmem=>exact .inr (.inl hmem)
  | inr hmem=>exact .inr (.inr hmem)
 settled:=fun n hpos hle=>h.settled n hpos (.inl (Nat.le_trans hle h.stored))
 dispatched := by
  intro n hn
  cases h.undone n (List.mem_append_left _ hn) with
  | inl hmem=>exact .inl hmem
  | inr hor=>
   cases hor with
   | inl hnot=>exact .inr (.inl (h.stored_lt hnot))
   | inr hdiscarded=>exact .inr (.inr hdiscarded)
 dropped:=fun n hn=>(h.dropped n hn).imp_right (.imp_right (.imp_left h.stored_lt))

/-! ## Changes beside the reading -/

structure Change (s s' : State) : Prop where
 stored : s'.stored=s.stored
 writing : s'.writing=s.writing
 done : s.reader.done ≤ s'.reader.done
 delivered : s'.reader.delivered=s.reader.delivered
 stuckSince : s'.reader.stuckSince=s.reader.stuckSince
 history : s'.history=s.history
 out : out s'.tick=out s.tick
 rest : ∀ cmd ∈ rest s'.tick, cmd ∈ rest s.tick
 fates : s.fates ⊆ s'.fates
 work : ∀ cmd, s.work = .recording cmd →
  s'.work = .recording cmd ∨ ∃ fate ∈ s'.fates, settles fate cmd.id
 handled : ∀ n, Handled s'.reader n → Handled s.reader n ∨ Marked s' n
 acts : ∀ cmd, Acts s' cmd → Acts s cmd ∨ Marked s' cmd.id
 queue : ∀ cmd ∈ s'.queue, cmd ∈ s.queue ∨ cmd.id ∈ s.history.dispatched

section Changes

variable {s s' s'' : State}

variable {n:ℕ} {cmd:CloudCommand}

theorem Discarded.mono (h:Discarded s n) (hfates:s.fates ⊆ s'.fates) :
  Discarded s' n := by
 have ⟨m,hmem,hle⟩:=h
 exact ⟨m,hfates hmem,hle⟩

theorem settled_executed (h:.executed n ∈ s.fates) : Settled s n := .inl ⟨_,h,rfl⟩

namespace Change

theorem settled (h:Change s s') {n:ℕ} (hsettled:Settled s n) : Settled s' n := by
 cases hsettled with
 | inl hfate=>
  have ⟨fate,hmem,hsettles⟩:=hfate
  exact .inl ⟨fate,h.fates hmem,hsettles⟩
 | inr hwork=>
  have ⟨cmd,hrecording,hid⟩:=hwork
  cases h.work cmd hrecording with
  | inl hstill=>exact .inr ⟨cmd,hstill,hid⟩
  | inr hfate=>exact .inl (hid ▸ hfate)

theorem readNumbers (h:Change s s') : readNumbers s' = readNumbers s := by
 unfold CloudCommandsAccounted.readNumbers
 rw [h.history,h.out]

theorem marked (h:Change s s') {n:ℕ} (hmarked:Marked s n) : Marked s' n where
 settled:=h.settled hmarked.settled
 delivered:=h.delivered ▸ hmarked.delivered
 read := by
  rw [h.history]
  exact hmarked.read.imp_right (.imp_right fun hdiscarded=>hdiscarded.mono h.fates)
 dispatched := by
  rw [h.readNumbers]
  intro hmem
  cases hmarked.dispatched hmem with
  | inl hmem=>exact .inl (h.history ▸ hmem)
  | inr hdiscarded=>exact .inr (hdiscarded.mono h.fates)

theorem trans (h:Change s s') (h' : Change s' s'') : Change s s'' where
 stored:=h'.stored.trans h.stored
 writing:=h'.writing.trans h.writing
 done:=Nat.le_trans h.done h'.done
 delivered:=h'.delivered.trans h.delivered
 stuckSince:=h'.stuckSince.trans h.stuckSince
 history:=h'.history.trans h.history
 out:=h'.out.trans h.out
 rest:=fun cmd hcmd=>h.rest cmd (h'.rest cmd hcmd)
 fates:=List.Subset.trans h.fates h'.fates
 work := by
  intro cmd hrecording
  cases h.work cmd hrecording with
  | inl hstill=>exact h'.work cmd hstill
  | inr hfate=>
   have ⟨fate,hmem,hsettles⟩:=hfate
   exact .inr ⟨fate,h'.fates hmem,hsettles⟩
 handled := by
  intro n hn
  cases h'.handled n hn with
  | inl hn=>
   cases h.handled n hn with
   | inl hn=>exact .inl hn
   | inr hmarked=>exact .inr (h'.marked hmarked)
  | inr hmarked=>exact .inr hmarked
 acts := by
  intro cmd hacts
  cases h'.acts cmd hacts with
  | inl hacts=>
   cases h.acts cmd hacts with
   | inl hacts=>exact .inl hacts
   | inr hmarked=>exact .inr (h'.marked hmarked)
  | inr hmarked=>exact .inr hmarked
 queue := by
  intro cmd hcmd
  cases h'.queue cmd hcmd with
  | inl hcmd=>exact h.queue cmd hcmd
  | inr hmem=>exact .inr (h.history ▸ hmem)

end Change

theorem Inv.change (h:Inv s) (hchange:Change s s') : Inv s' where
 stored := by
  rw [hchange.stored]
  exact Nat.le_trans h.stored hchange.done
 writing := by
  rw [hchange.writing]
  exact fun n hn=>Nat.le_trans (h.writing n hn) hchange.done
 settled := by
  intro n hpos hn
  cases hchange.handled n hn with
  | inl hn=>exact hchange.settled (h.settled n hpos hn)
  | inr hmarked=>exact hmarked.settled
 handled := by
  intro n hn
  cases hchange.handled n hn with
  | inl hn=>exact hchange.delivered ▸ h.handled n hn
  | inr hmarked=>exact hmarked.delivered
 acts := by
  intro cmd hacts
  cases hchange.acts cmd hacts with
  | inl hacts=>exact hchange.marked (h.acts cmd hacts)
  | inr hmarked=>exact hmarked
 queue := by
  rw [hchange.history]
  intro cmd hcmd
  cases hchange.queue cmd hcmd with
  | inl hcmd=>exact h.queue cmd hcmd
  | inr hmem=>exact hmem
 rest := by
  rw [hchange.history]
  exact fun cmd hcmd=>h.rest cmd (hchange.rest cmd hcmd)
 dispatched := by
  rw [hchange.history]
  exact h.dispatched
 order := by
  rw [hchange.readNumbers]
  exact h.order
 delivered := by
  rw [hchange.readNumbers,hchange.delivered]
  exact h.delivered
 undone := by
  rw [hchange.readNumbers]
  intro n hn
  cases h.undone n hn with
  | inl hmem=>exact .inl (hchange.history ▸ hmem)
  | inr hor=>
   cases hor with
   | inl hnot=>
    by_cases hhandled:Handled s'.reader n
    · cases hchange.handled n hhandled with
      | inl hold=>exact absurd hold hnot
      | inr hmarked=>
       cases hmarked.dispatched (hchange.readNumbers ▸ hn) with
       | inl hmem=>exact .inl hmem
       | inr hdiscarded=>exact .inr (.inr hdiscarded)
    · exact .inr (.inl hhandled)
   | inr hdiscarded=>exact .inr (.inr (hdiscarded.mono hchange.fates))
 reads := by
  rw [hchange.history,hchange.delivered]
  exact h.reads
 failed := by
  rw [hchange.history,hchange.delivered]
  exact h.failed
 stuck := by
  rw [hchange.history,hchange.delivered,hchange.stuckSince]
  exact h.stuck
 stuckLe := by
  rw [hchange.delivered,hchange.stuckSince]
  exact h.stuckLe
 passed := by
  rw [hchange.history,hchange.delivered]
  exact h.passed
 accounted := by
  rw [hchange.history,hchange.delivered,hchange.readNumbers]
  exact h.accounted
 dropped := by
  rw [hchange.history]
  intro n hn
  cases h.dropped n hn with
  | inl hmem=>exact .inl hmem
  | inr hor=>
   cases hor with
   | inl hmem=>exact .inr (.inl hmem)
   | inr hor=>
    cases hor with
    | inl hnot=>
     by_cases hhandled:Handled s'.reader n
     · cases hchange.handled n hhandled with
       | inl hold=>exact absurd hold hnot
       | inr hmarked=>
        have hread:=hchange.history ▸ hmarked.read
        exact (hread.imp_left (h.dispatched n)).imp_right (.imp_right .inr)
     · exact .inr (.inr (.inl hhandled))
    | inr hdiscarded=>exact .inr (.inr (.inr (hdiscarded.mono hchange.fates)))

/-! ### The steps of the harness -/

def NotRecording (s:State) : Prop := ∀ cmd, s.work ≠ .recording cmd

theorem change_of_reader (hreader:s'.reader=s.reader) (hstored:s'.stored=s.stored)
  (hwriting:s'.writing=s.writing) (hwrites:s'.writes=s.writes)
  (hhistory:s'.history=s.history) (hout:out s'.tick=out s.tick)
  (hrest:∀ cmd ∈ rest s'.tick, cmd ∈ rest s.tick) (hfates:s.fates ⊆ s'.fates)
  (hwork:∀ cmd, s.work = .recording cmd →
   s'.work = .recording cmd ∨ ∃ fate ∈ s'.fates, settles fate cmd.id)
  (hacts:∀ cmd, (∃ more, s'.tick = .acting cmd more) ∨ s'.work = .acting cmd →
   Acts s cmd ∨ Marked s' cmd.id)
  (hqueue:∀ cmd ∈ s'.queue, cmd ∈ s.queue ∨ cmd.id ∈ s.history.dispatched) :
  Change s s' where
 stored:=hstored
 writing:=hwriting
 done:=hreader ▸ Nat.le_refl _
 delivered:=by rw [hreader]
 stuckSince:=by rw [hreader]
 history:=hhistory
 out:=hout
 rest:=hrest
 fates:=hfates
 work:=hwork
 handled := by
  rw [hreader]
  exact fun _ h=>.inl h
 acts := by
  intro cmd h
  cases h with
  | inl htick=>exact hacts cmd (.inl htick)
  | inr hor=>
   cases hor with
   | inl hwork=>exact hacts cmd (.inr hwork)
   | inr hstop=>exact .inl (.inr (.inr (hwrites ▸ hstop)))
 queue:=hqueue

theorem change_settle (fate:Fate) (s:State) : Change s (s.settle fate) :=
 change_of_reader rfl rfl rfl rfl rfl rfl (fun _ h=>h) (List.subset_append_left _ _)
  (fun _ h=>.inl h) (fun _ h=>.inl (h.imp_right .inl)) (fun _ h=>.inl h)

theorem change_tick (t:Tick) (hout:out t=out s.tick) (hrest:∀ cmd ∈ rest t, cmd ∈ rest s.tick)
  (hacts:∀ cmd more, t ≠ .acting cmd more) : Change s { s with tick:=t } :=
 change_of_reader rfl rfl rfl rfl rfl hout hrest (fun _ h=>h) (fun _ h=>.inl h)
  (fun cmd h=>by
   cases h with
   | inl htick=>exact absurd htick.choose_spec (hacts cmd _)
   | inr hwork=>exact .inl (.inr (.inl hwork)))
  (fun _ h=>.inl h)

theorem change_work (w:Work) (hnot:NotRecording s) (hacts:∀ cmd, w ≠ .acting cmd) :
  Change s { s with work:=w } :=
 change_of_reader rfl rfl rfl rfl rfl rfl (fun _ h=>h) (fun _ h=>h)
  (fun cmd h=>absurd h (hnot cmd))
  (fun cmd h=>by
   cases h with
   | inl htick=>exact .inl (.inl htick)
   | inr hwork=>exact absurd hwork (hacts cmd))
  (fun _ h=>.inl h)

theorem change_queue (queue:List CloudCommand)
  (hqueue:∀ cmd ∈ queue, cmd ∈ s.queue ∨ cmd.id ∈ s.history.dispatched) :
  Change s { s with queue } :=
 change_of_reader rfl rfl rfl rfl rfl rfl (fun _ h=>h) (fun _ h=>h) (fun _ h=>.inl h)
  (fun _ h=>.inl (h.imp_right .inl)) hqueue

theorem change_shutdown (s:State) : Change s s.shutdown :=
 change_of_reader rfl rfl rfl rfl rfl rfl (fun _ h=>h) (fun _ h=>h) (fun _ h=>.inl h)
  (fun _ h=>.inl (h.imp_right .inl)) (fun _ h=>absurd h List.not_mem_nil)

theorem Marked.of_eq (h:Marked s n) (hfates:s'.fates=s.fates)
  (hwork:s'.work=s.work) (hdelivered:s'.reader.delivered=s.reader.delivered)
  (hdispatched:s'.history.dispatched=s.history.dispatched)
  (hpassed:s'.history.passed=s.history.passed) (hread:readNumbers s' = readNumbers s) :
  Marked s' n where
 settled := by
  unfold Settled
  rw [hfates,hwork]
  exact h.settled
 delivered:=hdelivered ▸ h.delivered
 read := by
  unfold Discarded
  rw [hdispatched,hpassed,hfates]
  exact h.read
 dispatched := by
  unfold Discarded
  rw [hdispatched,hfates,hread]
  exact h.dispatched

theorem marked_dispatched (hsettled:Settled s n) (hmem:n ∈ s.history.dispatched)
  (hle:n ≤ s.reader.delivered) : Marked s n :=
 ⟨hsettled,hle,.inl hmem,fun _=>.inl hmem⟩

theorem marked_executed (hfate:.executed n ∈ s.fates)
  (hmem:n ∈ s.history.dispatched) (hle:n ≤ s.reader.delivered) : Marked s n :=
 marked_dispatched (settled_executed hfate) hmem hle

theorem marked_discarded (h:Discarded s n) (hle:n ≤ s.reader.delivered) :
  Marked s n := by
 have ⟨m,hmem,hfor⟩:=h
 exact ⟨.inl ⟨_,hmem,hfor⟩,hle,.inr (.inr h),fun _=>.inr h⟩

theorem change_marks {marked:ℕ → Prop} (hmarks:Marks s.reader s'.reader marked)
  (hmarked:∀ n, marked n → Marked s' n) (hstored:s'.stored=s.stored)
  (hwriting:s'.writing=s.writing) (hhistory:s'.history=s.history)
  (hout:out s'.tick=out s.tick) (hrest:∀ cmd ∈ rest s'.tick, cmd ∈ rest s.tick)
  (hfates:s.fates ⊆ s'.fates)
  (hwork:∀ cmd, s.work = .recording cmd →
   s'.work = .recording cmd ∨ ∃ fate ∈ s'.fates, settles fate cmd.id)
  (hacts:∀ cmd, Acts s' cmd → Acts s cmd ∨ Marked s' cmd.id)
  (hqueue:∀ cmd ∈ s'.queue, cmd ∈ s.queue ∨ cmd.id ∈ s.history.dispatched) :
  Change s s' where
 stored:=hstored
 writing:=hwriting
 done:=hmarks.done
 delivered:=hmarks.delivered
 stuckSince:=hmarks.stuckSince
 history:=hhistory
 out:=hout
 rest:=hrest
 fates:=hfates
 work:=hwork
 handled:=fun n hn=>(hmarks.handled n hn).imp_right (hmarked n)
 acts:=hacts
 queue:=hqueue

theorem mem_writes_markHandled {waiter w:Waiter}
  (h:w ∈ (s.markHandled n waiter).2.writes) : w ∈ s.writes ∨ w=waiter := by
 unfold State.markHandled at h
 dsimp only at h
 split at h
 · cases List.mem_append.mp h with
   | inl h=>exact .inl h
   | inr h=>exact .inr (List.mem_singleton.mp h)
 · exact .inl h

theorem acts_markHandled {waiter:Waiter}
  (hwaiter:∀ cmd, waiter ≠ .stop cmd) (h:Acts (s.markHandled n waiter).2 cmd) :
  Acts s cmd := by
 cases h with
 | inl htick=>exact .inl htick
 | inr hor=>
  cases hor with
  | inl hwork=>exact .inr (.inl hwork)
  | inr hstop=>
   cases mem_writes_markHandled hstop with
   | inl hstop=>exact .inr (.inr hstop)
   | inr heq=>exact absurd heq.symm (hwaiter cmd)

theorem change_markHandled (hmarked:Marked s n) (waiter:Waiter)
  (hwaiter:∀ cmd, waiter ≠ .stop cmd) : Change s (s.markHandled n waiter).2 := by
 have hmarks:=marks_markHandled n s.reader
 apply change_marks hmarks
 · intro m hm
   subst hm
   exact ⟨hmarked.settled,Nat.le_trans hmarked.delivered (Nat.le_of_eq hmarks.delivered.symm),
    hmarked.read,hmarked.dispatched⟩
 · rfl
 · rfl
 · rfl
 · rfl
 · exact fun _ h=>h
 · exact fun _ h=>h
 · exact fun _ h=>.inl h
 · exact fun _ h=>.inl (acts_markHandled hwaiter h)
 · exact fun _ h=>.inl h

theorem change_startTurn (hwork:∀ c, s.work = .recording c → c=cmd) :
  Change s (s.startTurn cmd) := by
 apply change_of_reader
 case hwork=>
  intro c hrecording
  rw [hwork c hrecording]
  exact .inr ⟨_,List.mem_append_right _ List.mem_cons_self,rfl⟩
 case hfates=>exact List.subset_append_left _ _
 case hacts=>
  intro c h
  cases h with
  | inl htick=>exact .inl (.inl htick)
  | inr hacting=>cases hacting
 case hqueue=>exact fun _ h=>.inl h
 case hrest=>exact fun _ h=>h
 all_goals rfl

theorem change_unrecorded (hwork:s.work = .recording cmd) :
  Change s { s.settle (.unrecorded cmd.id) with work:=.idle } := by
 apply change_of_reader
 case hwork=>
  intro c hrecording
  rw [hwork,Work.recording.injEq] at hrecording
  exact .inr ⟨.unrecorded cmd.id,List.mem_append_right _ List.mem_cons_self,
   congrArg CloudCommand.id hrecording.symm⟩
 case hfates=>exact List.subset_append_left _ _
 case hacts=>
  intro c h
  cases h with
  | inl htick=>exact .inl (.inl htick)
  | inr hacting=>exact Work.noConfusion hacting
 case hqueue=>exact fun _ h=>.inl h
 case hrest=>exact fun _ h=>h
 all_goals rfl

theorem change_marked {w:Work} {fates:List Fate} (hnot:NotRecording s)
  (hfates:s.fates ⊆ fates) (hacts:∀ c, w ≠ .acting c)
  (hmarked:Marked { (s.markHandled cmd.id .turn).2 with work:=w,fates:=fates } cmd.id) :
  Change s { (s.markHandled cmd.id .turn).2 with work:=w,fates:=fates } := by
 apply change_marks (marks_markHandled cmd.id s.reader)
 case hmarked=>exact fun _ hm=>hm ▸ hmarked
 case hfates=>exact hfates
 case hwork=>exact fun c h=>absurd h (hnot c)
 case hacts=>
  intro c h
  cases h with
  | inl htick=>exact .inl (.inl htick)
  | inr hor=>
   cases hor with
   | inl hacting=>exact absurd hacting (hacts c)
   | inr hstop=>
    cases mem_writes_markHandled hstop with
    | inl hstop=>exact .inl (.inr (.inr hstop))
    | inr heq=>exact Waiter.noConfusion heq
 case hqueue=>exact fun _ h=>.inl h
 case hrest=>exact fun _ h=>h
 all_goals rfl

theorem change_runQueued (hnot:NotRecording s)
  (hmem:cmd.id ∈ s.history.dispatched) (hle:cmd.id ≤ s.reader.delivered) :
  Change s (s.runQueued cmd) := by
 have hdelivered:=(marks_markHandled cmd.id s.reader).delivered
 unfold State.runQueued
 split
 · dsimp only
   split
   · apply change_marked hnot (List.Subset.refl _) fun _=>Work.noConfusion
     exact marked_dispatched (.inr ⟨cmd,rfl,rfl⟩) hmem (hdelivered ▸ hle)
   · apply change_marked hnot (List.subset_append_left _ _) fun _=>Work.noConfusion
     exact marked_executed (List.mem_append_right _ List.mem_cons_self) hmem (hdelivered ▸ hle)
 · apply change_of_reader
   case hwork=>exact fun c h=>absurd h (hnot c)
   case hfates=>exact List.subset_append_left _ _
   case hacts=>
    intro c h
    cases h with
    | inl htick=>exact .inl (.inl htick)
    | inr hacting=>
     cases hacting
     exact .inr (marked_executed (List.mem_append_right _ List.mem_cons_self) hmem hle)
   case hqueue=>exact fun _ h=>.inl h
   case hrest=>exact fun _ h=>h
   all_goals rfl

/-! ### The queue -/

theorem Inv.dispatched_le (h:Inv s) (hmem:n ∈ s.history.dispatched) :
  n ≤ s.reader.delivered :=
 h.delivered n (List.mem_append_left _ (h.dispatched n hmem))

theorem Inv.drain (h:Inv s) : Inv s.drain := by
 unfold State.drain
 split
 · rename_i next rest hidle hqueue
   have hnext:next ∈ s.queue:=by
    rw [hqueue]
    exact List.mem_cons_self
   have htaken:Change s { s with queue:=rest }:=
    change_queue rest fun cmd hcmd=>.inl (by
     rw [hqueue]
     exact List.mem_cons_of_mem _ hcmd)
   dsimp only
   split
   · apply h.change
     apply htaken.trans
     apply change_runQueued
     · exact fun cmd hrecording=>by simp [hidle] at hrecording
     · exact h.queue next hnext
     · exact h.dispatched_le (h.queue next hnext)
   · exact h.change htaken
 · exact h

theorem Inv.finishWork (h:Inv s) (hnot:NotRecording s) : Inv s.finishWork :=
 Inv.drain (h.change (change_work .idle hnot fun _=>Work.noConfusion))

theorem Inv.enqueue (h:Inv s) (hmem:cmd.id ∈ s.history.dispatched) :
  Inv (s.enqueue cmd) := by
 apply Inv.drain
 apply h.change
 apply change_queue
 intro c hc
 cases List.mem_append.mp hc with
 | inl hc=>exact .inl hc
 | inr hc=>exact .inr (List.mem_singleton.mp hc ▸ hmem)

structure Rests (s:State) : Prop where
 idle : s.work = .idle → s.queue=[]
 stopping : s.phase = .stopping → s.queue=[]

theorem runQueued_work (cmd:CloudCommand) (s:State) : (s.runQueued cmd).work ≠ .idle := by
 unfold State.runQueued
 split
 · dsimp only
   split
   · exact Work.noConfusion
   · exact Work.noConfusion
 · exact Work.noConfusion

theorem runQueued_phase (cmd:CloudCommand) (s:State) : (s.runQueued cmd).phase=s.phase := by
 unfold State.runQueued
 split
 · dsimp only
   split
   · rfl
   · rfl
 · rfl

theorem rests_drain (hstopping:s.phase = .stopping → s.queue=[]) : Rests s.drain := by
 unfold State.drain
 split
 · rename_i next rest hidle hqueue
   have hrunning:s.phase = .running:=by
    cases hphase:s.phase with
    | running=>rfl
    | stopping=>simp [hstopping hphase] at hqueue
   dsimp only
   rw [if_pos hrunning]
   refine ⟨fun h=>absurd h (runQueued_work _ _), ?_⟩
   intro h
   rw [runQueued_phase] at h
   simp [hrunning] at h
 · rename_i hnot
   refine ⟨?_,hstopping⟩
   intro hidle
   cases hqueue:s.queue with
   | nil=>rfl
   | cons next rest=>exact absurd hqueue (hnot next rest hidle)

theorem Rests.finishWork (h:Rests s) : Rests s.finishWork := rests_drain h.stopping

theorem rests_enqueue (hrunning:s.phase = .running) (cmd:CloudCommand) :
  Rests (s.enqueue cmd) :=
 rests_drain fun h=>by simp [hrunning] at h

theorem rests_shutdown (s:State) : Rests s.shutdown := ⟨fun _=>rfl,fun _=>rfl⟩

theorem Rests.of_eq (h:Rests s) (hwork:s'.work=s.work) (hphase:s'.phase=s.phase)
  (hqueue:s'.queue=s.queue) : Rests s' := by
 refine ⟨?_, ?_⟩
 · rw [hwork,hqueue]
   exact h.idle
 · rw [hphase,hqueue]
   exact h.stopping

/-! ### Dispatching -/

def noted (id:ℕ) (s:State) : State :=
 { s with history:={ s.history with dispatched:=s.history.dispatched ++ [id] } }

theorem Marked.noted {id:ℕ} (h:Marked s n) : Marked (noted id s) n :=
 ⟨h.settled,h.delivered,h.read.imp_left (List.mem_append_left _),
  fun hmem=>(h.dispatched hmem).imp_left (List.mem_append_left _)⟩

theorem Inv.noted (h:Inv s) {id:ℕ} (hmem:id ∈ s.history.handedOut) : Inv (noted id s) where
 stored:=h.stored
 writing:=h.writing
 settled:=h.settled
 handled:=h.handled
 acts:=fun cmd hacts=>Marked.noted (h.acts cmd hacts)
 queue:=fun cmd hcmd=>List.mem_append_left _ (h.queue cmd hcmd)
 rest:=h.rest
 dispatched := by
  intro n hn
  cases List.mem_append.mp hn with
  | inl hn=>exact h.dispatched n hn
  | inr hn=>exact List.mem_singleton.mp hn ▸ hmem
 order:=h.order
 delivered:=h.delivered
 undone:=fun n hn=>(h.undone n hn).imp_left (List.mem_append_left _)
 dropped:=h.dropped
 reads:=h.reads
 failed:=h.failed
 stuck:=h.stuck
 stuckLe:=h.stuckLe
 passed:=h.passed
 accounted:=h.accounted

theorem change_endDispatch {id:ℕ} {more:List CloudCommand} (hmarked:Marked s id)
  (hout:out s.tick=[]) (hmore:∀ cmd ∈ more, cmd ∈ rest s.tick) :
  Change s (s.endDispatch id more) := by
 unfold State.endDispatch
 have hmark:=change_markHandled hmarked .dispatch fun _=>Waiter.noConfusion
 apply hmark.trans
 apply change_tick
 · split
   · exact hout.symm
   · exact hout.symm
 · split
   · exact hmore
   · exact hmore
 · intro cmd rest
   split
   · exact Tick.noConfusion
   · exact Tick.noConfusion

theorem settled_runQueued (cmd:CloudCommand) (s:State) : Settled (s.runQueued cmd) cmd.id := by
 unfold State.runQueued
 split
 · dsimp only
   split
   · exact .inr ⟨cmd,rfl,rfl⟩
   · exact settled_executed (List.mem_append_right _ List.mem_cons_self)
 · exact settled_executed (List.mem_append_right _ List.mem_cons_self)

theorem enqueue_of_idle (cmd:CloudCommand) (hidle:s.work = .idle) (hqueue:s.queue=[])
  (hrunning:s.phase = .running) :
  s.enqueue cmd=({ s with queue:=[] } : State).runQueued cmd := by
 unfold State.enqueue State.drain
 simp only [hqueue,hidle,hrunning,List.nil_append,if_true]

theorem enqueue_of_busy (cmd:CloudCommand) (hbusy:s.work ≠ .idle) :
  s.enqueue cmd = { s with queue:=s.queue ++ [cmd] } := by
 unfold State.enqueue State.drain
 split
 · rename_i hidle _
   exact absurd hidle hbusy
 · rfl

theorem drain_keeps (s:State) : s.drain.tick=s.tick ∧ s.drain.history=s.history ∧
  s.drain.reader.delivered=s.reader.delivered := by
 unfold State.drain
 split
 · dsimp only
   split
   · unfold State.runQueued
     split
     · dsimp only
       split
       · exact ⟨rfl,rfl,(marks_markHandled _ _).delivered⟩
       · exact ⟨rfl,rfl,(marks_markHandled _ _).delivered⟩
     · exact ⟨rfl,rfl,rfl⟩
   · exact ⟨rfl,rfl,rfl⟩
 · exact ⟨rfl,rfl,rfl⟩

structure Handles (s s' : State) (id:ℕ) : Prop where
 inv : Inv s'
 rests : Rests s'
 tick : s'.tick=s.tick
 marked : Marked s' id

theorem Handles.endDispatch {id:ℕ} {more:List CloudCommand} (h:Handles s s' id)
  (hout:out s.tick=[]) (hmore:∀ cmd ∈ more, cmd ∈ rest s.tick) :
  Inv (s'.endDispatch id more) ∧ Rests (s'.endDispatch id more) := by
 constructor
 · apply h.inv.change
   apply change_endDispatch h.marked
   · rw [h.tick]
     exact hout
   · rw [h.tick]
     exact hmore
 · exact h.rests.of_eq rfl rfl rfl

theorem handles_inject (h:Inv s) (hrests:Rests s) (hrunning:s.phase = .running) {id:ℕ}
  (hmem:id ∈ s.history.dispatched) (turnId:String) (injectionId:Option String) :
  Handles s (s.inject id turnId injectionId) id := by
 have hle:=h.dispatched_le hmem
 let cmd:=State.injected id turnId injectionId
 unfold State.inject
 split
 · refine ⟨h.change (change_settle _ s),hrests.of_eq rfl rfl rfl,rfl, ?_⟩
   exact marked_executed (List.mem_append_right _ List.mem_cons_self) hmem hle
 · split
   · rename_i hidle
     have hkeeps:=drain_keeps ({ s with queue:=s.queue ++ [cmd] } : State)
     refine ⟨h.enqueue hmem,rests_enqueue hrunning _,hkeeps.1, ?_⟩
     apply marked_dispatched
     · rw [enqueue_of_idle _ hidle (hrests.idle hidle) hrunning]
       exact settled_runQueued cmd _
     · exact hkeeps.2.1 ▸ hmem
     · exact hkeeps.2.2 ▸ hle
   · rename_i hbusy
     have hwaits:=h.change (change_settle (.queuedBehind id) s)
     have henqueue:(s.settle (.queuedBehind id)).enqueue cmd =
       { s.settle (.queuedBehind id) with queue:=s.queue ++ [cmd] } :=
      enqueue_of_busy cmd hbusy
     have hfate:.queuedBehind id ∈ s.fates ++ [.queuedBehind id]:=
      List.mem_append_right _ List.mem_cons_self
     refine ⟨hwaits.enqueue hmem,rests_drain fun hstops=>?_, ?_, ?_⟩
     · exact Phase.noConfusion (hrunning.symm.trans hstops)
     · rw [henqueue]
       rfl
     · rw [henqueue]
       exact marked_dispatched (.inl ⟨_,hfate,rfl⟩) hmem hle

theorem handles_abort (h:Inv s) (hrests:Rests s) {id:ℕ} (hmem:id ∈ s.history.dispatched)
  (turnId:String) : Handles s (s.abort id turnId) id := by
 have htold:Change s (s.settle (.executed id)):=change_settle _ s
 have hmarked:Marked (s.settle (.executed id)) id:=
  marked_executed (List.mem_append_right _ List.mem_cons_self) hmem (h.dispatched_le hmem)
 unfold State.abort
 dsimp only
 split
 · exact ⟨h.change htold,hrests.of_eq rfl rfl rfl,rfl,hmarked⟩
 · rename_i cmd hfind
   have hcmd:cmd ∈ s.queue:=List.mem_of_find?_eq_some hfind
   have herase:=change_queue (s := s.settle (.executed id)) (s.queue.erase cmd)
    fun c hc=>.inl (List.mem_of_mem_erase hc)
   have haborted:=change_settle (.aborted cmd.id)
    ({ s.settle (.executed id) with queue:=s.queue.erase cmd } : State)
   have habortedMarked:Marked (({ s.settle (.executed id) with
     queue:=s.queue.erase cmd } : State).settle (.aborted cmd.id)) cmd.id :=
    marked_dispatched
     (.inl ⟨.aborted cmd.id,List.mem_append_right _ List.mem_cons_self,rfl⟩)
     (h.queue cmd hcmd) (h.dispatched_le (h.queue cmd hcmd))
   have hmark:=change_markHandled habortedMarked .background fun _=>Waiter.noConfusion
   have hlater:=herase.trans (haborted.trans hmark)
   refine ⟨h.change (htold.trans hlater),⟨?_, ?_⟩,rfl,hlater.marked hmarked⟩
   · intro hidle
     have hnil:=hrests.idle hidle
     simp [hnil] at hcmd
   · intro hphase
     have hnil:=hrests.stopping hphase
     simp [hnil] at hcmd

theorem change_discard {writes:List Waiter} {phase:Phase} (t:Tick)
  (hle:cmd.id ≤ s.reader.delivered) (hout:out s.tick=out t)
  (hrest:∀ c ∈ rest t, c ∈ rest s.tick) (hnot:∀ c more, t ≠ .acting c more)
  (hwrites:∀ c, .stop c ∈ writes → .stop c ∈ s.writes ∨ c=cmd) :
  Change s { s with
   queue:=[],reader:=(s.reader.markHandledThrough cmd.id).2,phase:=phase,tick:=t
   writes := writes,fates := s.fates ++ [.discardedThrough cmd.id] } := by
 have hmarks:=marks_markHandledThrough cmd.id s.reader
 have hfate:Fate.discardedThrough cmd.id ∈ s.fates ++ [.discardedThrough cmd.id]:=
  List.mem_append_right _ List.mem_cons_self
 apply change_marks hmarks
 case hmarked=>
  exact fun n hn=>marked_discarded ⟨_,hfate,hn.1⟩ (hmarks.delivered ▸ hn.2)
 case hout=>exact hout.symm
 case hrest=>exact hrest
 case hfates=>exact List.subset_append_left _ _
 case hwork=>exact fun _ h=>.inl h
 case hacts=>
  intro c h
  cases h with
  | inl htick=>exact absurd htick.choose_spec (hnot c _)
  | inr hor=>
   cases hor with
   | inl hacting=>exact .inl (.inr (.inl hacting))
   | inr hstop=>
    cases hwrites c hstop with
    | inl hstop=>exact .inl (.inr (.inr hstop))
    | inr heq=>
     rw [heq]
     exact .inr (marked_discarded ⟨_,hfate,Nat.le_refl _⟩ (hmarks.delivered ▸ hle))
 case hqueue=>exact fun _ h=>absurd h List.not_mem_nil
 all_goals rfl

theorem change_dispatchStop {more:List CloudCommand}
  (hle:cmd.id ≤ s.reader.delivered) (hout:out s.tick=[])
  (hmore:∀ c ∈ more, c ∈ rest s.tick) : Change s (s.dispatchStop cmd more) := by
 unfold State.dispatchStop
 dsimp only
 split
 · apply change_discard (.recording more) hle hout hmore fun _ _=>Tick.noConfusion
   intro c hstop
   cases List.mem_append.mp hstop with
   | inl hstop=>exact .inl hstop
   | inr hstop=>exact .inr (Waiter.stop.inj (List.mem_singleton.mp hstop))
 · apply change_discard (.dispatching more) hle hout hmore fun _ _=>Tick.noConfusion
   exact fun _ hstop=>.inl hstop

theorem rests_dispatchStop (cmd:CloudCommand) (more:List CloudCommand) (s:State) :
  Rests (s.dispatchStop cmd more) := by
 unfold State.dispatchStop
 dsimp only
 split
 · exact ⟨fun _=>rfl,fun _=>rfl⟩
 · exact ⟨fun _=>rfl,fun _=>rfl⟩

theorem change_acting {more:List CloudCommand}
  (hmem:cmd.id ∈ s.history.dispatched) (hle:cmd.id ≤ s.reader.delivered)
  (hout:out s.tick=[]) (hmore:∀ c ∈ more, c ∈ rest s.tick) :
  Change s ({ s with tick:=.acting cmd more }.settle (.executed cmd.id)) := by
 apply change_of_reader
 case hout=>exact hout.symm
 case hrest=>exact hmore
 case hfates=>exact List.subset_append_left _ _
 case hwork=>exact fun _ h=>.inl h
 case hacts=>
  intro c h
  cases h with
  | inl htick=>
   have ⟨_,heq⟩:=htick
   cases heq
   exact .inr (marked_executed (List.mem_append_right _ List.mem_cons_self) hmem hle)
  | inr hacting=>exact .inl (.inr (.inl hacting))
 case hqueue=>exact fun _ h=>.inl h
 all_goals rfl

theorem inv_enqueue (h:Inv s) (hrunning:s.phase = .running)
  (hmem:cmd.id ∈ s.history.dispatched) {more:List CloudCommand} (hout:out s.tick=[])
  (hmore:∀ c ∈ more, c ∈ rest s.tick) :
  Inv ({ s with tick:=.dispatching more }.enqueue cmd) ∧
   Rests ({ s with tick:=.dispatching more }.enqueue cmd) := by
 have htick:Change s { s with tick:=.dispatching more }:=
  change_tick _ hout.symm hmore fun _ _=>Tick.noConfusion
 refine ⟨(h.change htick).enqueue hmem, ?_⟩
 apply rests_enqueue
 exact hrunning

theorem inv_dispatch (h:Inv s) (hrests:Rests s)
  {more:List CloudCommand} (htick:s.tick = .dispatching (cmd::more))
  (hrunning:s.phase = .running) :
  Inv (s.dispatch cmd more) ∧ Rests (s.dispatch cmd more) := by
 have hmem:cmd.id ∈ (noted cmd.id s).history.dispatched:=
  List.mem_append_right _ List.mem_cons_self
 have hcmd:cmd.id ∈ s.history.handedOut:=h.rest cmd (by
  rw [htick]
  exact List.mem_cons_self)
 have hnoted:Inv (noted cmd.id s):=h.noted hcmd
 have hrestsNoted:Rests (noted cmd.id s):=hrests.of_eq rfl rfl rfl
 have hout:out (noted cmd.id s).tick=[]:=by
  change out s.tick=[]
  rw [htick]
  rfl
 have hmore:∀ c ∈ more, c ∈ rest (noted cmd.id s).tick:=by
  change ∀ c ∈ more, c ∈ rest s.tick
  rw [htick]
  exact fun c hc=>List.mem_cons_of_mem _ hc
 have hle:=hnoted.dispatched_le hmem
 unfold State.dispatch
 cases hpayload:cmd.payload with
 | inject turnId injectionId=>
  exact (handles_inject hnoted hrestsNoted hrunning hmem turnId injectionId).endDispatch hout
   hmore
 | abort turnId=>exact (handles_abort hnoted hrestsNoted hmem turnId).endDispatch hout hmore
 | answer=>
  exact ⟨hnoted.change (change_acting hmem hle hout hmore),hrestsNoted.of_eq rfl rfl rfl⟩
 | mcpCredentials=>
  exact ⟨hnoted.change (change_acting hmem hle hout hmore),hrestsNoted.of_eq rfl rfl rfl⟩
 | stop=>
  exact ⟨hnoted.change (change_dispatchStop hle hout hmore),rests_dispatchStop _ _ _⟩
 | message _=>exact inv_enqueue hnoted hrunning hmem hout hmore
 | rollback=>exact inv_enqueue hnoted hrunning hmem hout hmore
 | applyBundle=>exact inv_enqueue hnoted hrunning hmem hout hmore
 | addFiles=>exact inv_enqueue hnoted hrunning hmem hout hmore

end Changes

end L4Ide.CloudCommandsAccounted
