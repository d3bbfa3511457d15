import L4Ide.CloudCommandsAccounted

set_option autoImplicit false

/-!
# No command of a cloud session is lost

In every run, every number that is recorded as handled is accounted for, and every command above it
is handed out again.
-/
namespace L4Ide.CloudCommandsKept
open CloudCommands CloudCommandsAccounted AdmissibleRuns

section Steps

variable {s:State}

/-! ## Reading -/

/-- What reading a file gives, with the reader after. -/
inductive Reads (n now:ℕ) (reading:Reading) (r:Reader) : ReadResult × Reader → Prop
 | waitFirst : (grace reading).isSome →
  Reads n now reading r (.wait,{ r with stuckSince:=some (n,now) })
 | waitMore {since:ℕ} : (grace reading).isSome → r.stuckSince=some (n,since) →
  Reads n now reading r (.wait,r)
 | skipLate {graceMs since:ℕ} : grace reading=some graceMs →
  r.stuckSince=some (n,since) → since+graceMs ≤ now →
  Reads n now reading r (.skip,{ r with stuckSince:=none })
 | skipUnusable {stuckSince:Option (ℕ × ℕ)} : Unusable n reading →
  stuckSince=none ∨ stuckSince=r.stuckSince →
  Reads n now reading r (.skip,{ r with stuckSince })
 | command {cmd:CloudCommand} : cmd.id=n →
  Reads n now reading r (.command cmd,{ r with stuckSince:=none })

theorem reads_stuck {n now graceMs:ℕ} {reading:Reading} {r:Reader}
  (hgrace:grace reading=some graceMs) (hpos:0 < graceMs) :
  Reads n now reading r (r.stuck n graceMs now) := by
 have hsome:(grace reading).isSome:=by rw [hgrace]; rfl
 unfold Reader.stuck
 split
 · exact .waitFirst hsome
 · rename_i m since hsince
   split
   · exact .waitFirst hsome
   · rename_i heq
     have heq:m=n:=Decidable.not_not.mp heq
     rw [heq] at hsince
     split
     · exact .waitMore hsome hsince
     · exact .skipLate hgrace hsince (by omega)

theorem reads_read (n now:ℕ) (reading:Reading) (r:Reader) :
  Reads n now reading r (r.read n now reading) := by
 unfold Reader.read
 cases reading with
 | error code=>
  dsimp only
  split
  · rename_i htransient
    exact reads_stuck (if_pos htransient) (by decide)
  · rename_i hother
    exact .skipUnusable hother (.inl rfl)
 | missing=>exact reads_stuck rfl (by decide)
 | halfWritten=>exact reads_stuck rfl (by decide)
 | invalid=>exact .skipUnusable trivial (.inr rfl)
 | command cmd=>
  dsimp only
  split
  · rename_i hne
    exact .skipUnusable hne (.inr rfl)
  · rename_i heq
    exact .command (Decidable.not_not.mp heq)

theorem passedFor_append {reads:List Read} {n:ℕ} (h:PassedFor reads n) {r:Read}
  (hne:r.number ≠ n) : PassedFor (reads ++ [r]) n := by
 cases h with
 | inl hunusable=>
  have ⟨r', hr', hfor⟩:=hunusable
  exact .inl ⟨r', List.mem_append_left _ hr', hfor⟩
 | inr hfailed=>
  have ⟨hall,first,hfirst,last,hlast,hfor⟩:=hfailed
  refine .inr ⟨?_,first,List.mem_append_left _ hfirst,last,List.mem_append_left _ hlast,hfor⟩
  intro r' hr' hnumber
  cases List.mem_append.mp hr' with
  | inl hr' =>exact hall r' hr' hnumber
  | inr hr' =>exact absurd (List.mem_singleton.mp hr' ▸ hnumber) hne

theorem inv_handOut (h:Inv s) {read:List CloudCommand} (hout:out s.tick=read) :
  Inv { s with
   tick:=.dispatching read
   history:={ s.history with
    handedOut := s.history.handedOut ++ read.map CloudCommand.id } } := by
 have hnumbers:readNumbers s=s.history.handedOut ++ read.map CloudCommand.id:=by
  rw [readNumbers,hout]
 have hnumbers' : readNumbers { s with
   tick:=.dispatching read
   history:={ s.history with
    handedOut := s.history.handedOut ++ read.map CloudCommand.id } } = readNumbers s := by
  rw [hnumbers]
  exact List.append_nil _
 exact {
  stored:=h.stored
  writing:=h.writing
  settled:=h.settled
  handled:=h.handled
  acts := by
   intro cmd hacts
   have hold:Acts s cmd:=by
    cases hacts with
    | inl htick=>exact Tick.noConfusion htick.choose_spec
    | inr hor=>exact .inr hor
   have hmarked:=h.acts cmd hold
   exact ⟨hmarked.settled,hmarked.delivered,hmarked.read,hnumbers' ▸ hmarked.dispatched⟩
  queue:=h.queue
  rest:=fun cmd hcmd=>List.mem_append_right _ (List.mem_map_of_mem hcmd)
  dispatched:=fun n hn=>List.mem_append_left _ (h.dispatched n hn)
  order:=hnumbers' ▸ h.order
  delivered:=hnumbers' ▸ h.delivered
  undone:=hnumbers' ▸ h.undone
  reads:=h.reads
  failed:=h.failed
  stuck:=h.stuck
  stuckLe:=h.stuckLe
  passed:=h.passed
  accounted:=hnumbers' ▸ h.accounted
  dropped:=fun n hn=>(h.dropped n hn).imp_left (List.mem_append_left _) }

theorem inv_wait (h:Inv s) {now:ℕ} {reading:Reading} {stuckSince:Option (ℕ × ℕ)}
  (hgrace:(grace reading).isSome)
  (hstuck:stuckSince=some (s.reader.delivered+1,now) ∨
   ∃ since, s.reader.stuckSince=some (s.reader.delivered+1,since) ∧
    stuckSince=s.reader.stuckSince) :
  Inv { s with
   reader:={ s.reader with stuckSince }
   history:={ s.history with
    reads:=s.history.reads ++ [⟨s.reader.delivered+1,now,reading⟩] } } where
 stored:=h.stored
 writing:=h.writing
 settled:=h.settled
 handled:=h.handled
 acts:=fun cmd hacts=>(h.acts cmd hacts).of_eq rfl rfl rfl rfl rfl rfl
 queue:=h.queue
 rest:=h.rest
 dispatched:=h.dispatched
 order:=h.order
 delivered:=h.delivered
 undone:=h.undone
 reads := by
  intro r hr
  cases List.mem_append.mp hr with
  | inl hr=>exact h.reads r hr
  | inr hr=>
   exact Nat.le_of_eq (congrArg Read.number (List.mem_singleton.mp hr))
 failed := by
  intro r hr hnumber
  cases List.mem_append.mp hr with
  | inl hr=>exact h.failed r hr hnumber
  | inr hr=>
   rw [List.mem_singleton.mp hr]
   exact hgrace
 stuck := by
  intro since hsince
  change stuckSince=_ at hsince
  cases hstuck with
  | inl hnow=>
   rw [hnow,Option.some.injEq,Prod.mk.injEq] at hsince
   exact ⟨_,List.mem_append_right _ List.mem_cons_self,rfl,hsince.2⟩
  | inr hold=>
   have ⟨_,_,heq⟩:=hold
   have ⟨r,hr,hfor⟩:=h.stuck since (heq ▸ hsince)
   exact ⟨r,List.mem_append_left _ hr,hfor⟩
 stuckLe := by
  intro n since hsince
  change stuckSince=_ at hsince
  cases hstuck with
  | inl hnow=>
   rw [hnow,Option.some.injEq,Prod.mk.injEq] at hsince
   exact Nat.le_of_eq hsince.1.symm
  | inr hold=>
   have ⟨_,_,heq⟩:=hold
   exact h.stuckLe n since (heq ▸ hsince)
 passed := by
  intro n hn
  have ⟨hle,hfor⟩:=h.passed n hn
  refine ⟨hle,passedFor_append hfor ?_⟩
  dsimp only
  omega
 accounted:=h.accounted
 dropped:=h.dropped

theorem inv_next (h:Inv s) (now:ℕ) (reading:Reading) {stuckSince:Option (ℕ × ℕ)}
  (tick:Tick) (passed:List ℕ) (fates:List Fate)
  (hstuck:stuckSince=none ∨ stuckSince=s.reader.stuckSince)
  (hacts:∀ cmd more, tick ≠ .acting cmd more) (hrest:rest tick=[])
  (hfates:s.fates ⊆ fates)
  (hpassed:∀ n ∈ passed, n ∈ s.history.passed ∨ n=s.reader.delivered+1 ∧
   PassedFor (s.history.reads ++ [⟨s.reader.delivered+1,now,reading⟩]) n)
  (hkept:s.history.passed ⊆ passed)
  (hnext:(out tick).map CloudCommand.id=(out s.tick).map CloudCommand.id ∧
    s.reader.delivered+1 ∈ passed ∨
   (out tick).map CloudCommand.id =
    (out s.tick).map CloudCommand.id ++ [s.reader.delivered+1]) :
  Inv { s with
   reader:={ s.reader with stuckSince,delivered:=s.reader.delivered+1 }
   tick:=tick
   history:={ s.history with
    reads:=s.history.reads ++ [⟨s.reader.delivered+1,now,reading⟩]
    passed:=passed }
   fates := fates } := by
 have hnumbers:∀ n, n ∈ s.history.handedOut ++ (out tick).map CloudCommand.id →
   n ∈ readNumbers s ∨ n=s.reader.delivered+1 := by
  intro n hn
  cases hnext with
  | inl hskip=>
   rw [hskip.1] at hn
   exact .inl hn
  | inr hread=>
   rw [hread,←List.append_assoc] at hn
   exact (List.mem_append.mp hn).imp_right List.mem_singleton.mp
 have hsettled:∀ n, Settled s n → Settled { s with
   reader:={ s.reader with stuckSince,delivered:=s.reader.delivered+1 }
   tick:=tick
   history:={ s.history with
    reads:=s.history.reads ++ [⟨s.reader.delivered+1,now,reading⟩]
    passed:=passed }
   fates := fates } n := by
  intro n hn
  cases hn with
  | inl hfate=>
   have ⟨fate,hmem,hfor⟩:=hfate
   exact .inl ⟨fate,hfates hmem,hfor⟩
  | inr hwork=>exact .inr hwork
 exact {
  stored:=h.stored
  writing:=h.writing
  settled:=fun n hpos hn=>hsettled n (h.settled n hpos hn)
  handled:=fun n hn=>Nat.le_succ_of_le (h.handled n hn)
  acts := by
   intro cmd hact
   have hold:Acts s cmd:=by
    cases hact with
    | inl htick=>exact absurd htick.choose_spec (hacts cmd _)
    | inr hor=>exact .inr hor
   have hmarked:=h.acts cmd hold
   refine ⟨hsettled _ hmarked.settled,Nat.le_succ_of_le hmarked.delivered, ?_, ?_⟩
   · exact hmarked.read.imp_right fun hread=>
      hread.imp (hkept ·) fun hdiscarded=>hdiscarded.mono hfates
   intro hmem
   cases hnumbers _ hmem with
   | inl hmem=>exact (hmarked.dispatched hmem).imp_right fun hdiscarded=>hdiscarded.mono hfates
   | inr heq=>
    have hle:=hmarked.delivered
    omega
  queue:=h.queue
  rest := by
   intro cmd hcmd
   change cmd ∈ rest tick at hcmd
   rw [hrest] at hcmd
   exact absurd hcmd List.not_mem_nil
  dispatched:=h.dispatched
  order := by
   change (s.history.handedOut ++ (out tick).map CloudCommand.id).Pairwise (· < ·)
   cases hnext with
   | inl hskip=>
    rw [hskip.1]
    exact h.order
   | inr hread=>
    rw [hread,←List.append_assoc]
    apply List.pairwise_append.mpr
    refine ⟨h.order,List.pairwise_singleton _ _, ?_⟩
    intro n hn m hm
    have hle:=h.delivered n hn
    rw [List.mem_singleton.mp hm]
    omega
  delivered := by
   intro n hn
   cases hnumbers n hn with
   | inl hn=>exact Nat.le_succ_of_le (h.delivered n hn)
   | inr heq=>exact Nat.le_of_eq heq
  undone := by
   intro n hn
   cases hnumbers n hn with
   | inl hn=>exact (h.undone n hn).imp_right (.imp_right fun hdiscarded=>hdiscarded.mono hfates)
   | inr heq=>
    refine .inr (.inl ?_)
    intro hhandled
    have hle:=h.handled n hhandled
    omega
  reads := by
   intro r hr
   cases List.mem_append.mp hr with
   | inl hr=>exact Nat.le_succ_of_le (h.reads r hr)
   | inr hr=>
    rw [List.mem_singleton.mp hr]
    exact Nat.le_succ _
  failed := by
   intro r hr hnumber
   change r.number=s.reader.delivered+1+1 at hnumber
   cases List.mem_append.mp hr with
   | inl hr=>
    have hle:=h.reads r hr
    omega
   | inr hr=>
    rw [List.mem_singleton.mp hr] at hnumber
    dsimp only at hnumber
    omega
  stuck := by
   intro since hsince
   change stuckSince=some (s.reader.delivered+1+1,since) at hsince
   cases hstuck with
   | inl hnone=>simp [hnone] at hsince
   | inr hold=>
    have hle:=h.stuckLe _ since (hold ▸ hsince)
    omega
  stuckLe := by
   intro n since hsince
   change stuckSince=some (n,since) at hsince
   cases hstuck with
   | inl hnone=>simp [hnone] at hsince
   | inr hold=>exact Nat.le_succ_of_le (h.stuckLe n since (hold ▸ hsince))
  passed := by
   intro n hn
   cases hpassed n hn with
   | inl hn=>
    have ⟨hle,hfor⟩:=h.passed n hn
    refine ⟨Nat.le_succ_of_le hle,passedFor_append hfor ?_⟩
    dsimp only
    omega
   | inr hnew=>exact ⟨Nat.le_of_eq hnew.1,hnew.2⟩
  accounted := by
   intro n hstart hle
   change n ∈ s.history.handedOut ++ (out tick).map CloudCommand.id ∨ n ∈ passed ∨
    n ∈ s.history.dropped
   cases Nat.le_succ_iff.mp hle with
   | inl hle=>
    cases h.accounted n hstart hle with
    | inl hn=>
     refine .inl ?_
     cases hnext with
     | inl hskip=>
      rw [hskip.1]
      exact hn
     | inr hread=>
      rw [hread,←List.append_assoc]
      exact List.mem_append_left _ hn
    | inr hn=>exact .inr (hn.imp_left (hkept ·))
   | inr heq=>
    cases hnext with
    | inl hskip=>exact .inr (.inl (heq ▸ hskip.2))
    | inr hread=>
     refine .inl ?_
     rw [hread,heq]
     exact List.mem_append_right _ (List.mem_append_right _ List.mem_cons_self)
  dropped:=fun n hn=>(h.dropped n hn).imp_right fun hor=>
   hor.imp (hkept ·) (.imp_right fun hdiscarded=>hdiscarded.mono hfates) }

def passOver (now:ℕ) (reading:Reading) (stuckSince:Option (ℕ × ℕ)) (s:State) : State :=
 { s with
   reader:={ s.reader with stuckSince,delivered:=s.reader.delivered+1 }
   history:={ s.history with
    reads:=s.history.reads ++ [⟨s.reader.delivered+1,now,reading⟩]
    passed:=s.history.passed ++ [s.reader.delivered+1] }
   fates:=s.fates ++ [.passedOver (s.reader.delivered+1)] }

theorem inv_skip (h:Inv s) (now:ℕ) (reading:Reading) {stuckSince:Option (ℕ × ℕ)}
  (hstuck:stuckSince=none ∨ stuckSince=s.reader.stuckSince)
  {read:List CloudCommand} (htick:s.tick = .polling read)
  (hfor:PassedFor (s.history.reads ++ [⟨s.reader.delivered+1,now,reading⟩])
   (s.reader.delivered+1)) :
  Inv ((passOver now reading stuckSince s).markHandled (s.reader.delivered+1) .poll).2 := by
 have hfate:.passedOver (s.reader.delivered+1) ∈ (passOver now reading stuckSince s).fates:=
  List.mem_append_right _ List.mem_cons_self
 have hpassed:Inv (passOver now reading stuckSince s):=by
  apply inv_next h now reading s.tick _ _ hstuck
  · intro cmd more heq
    rw [htick] at heq
    exact Tick.noConfusion heq
  · rw [htick]
    rfl
  · exact List.subset_append_left _ _
  · intro n hn
    cases List.mem_append.mp hn with
    | inl hn=>exact .inl hn
    | inr hn=>
     have heq:=List.mem_singleton.mp hn
     exact .inr ⟨heq,heq ▸ hfor⟩
  · exact List.subset_append_left _ _
  · exact .inl ⟨rfl,List.mem_append_right _ List.mem_cons_self⟩
 apply hpassed.change
 apply change_markHandled
 · refine ⟨.inl ⟨_,hfate,rfl⟩,Nat.le_refl _,
    .inr (.inl (List.mem_append_right _ List.mem_cons_self)), ?_⟩
   intro hmem
   have hle:=h.delivered _ hmem
   omega
 · exact fun _=>Waiter.noConfusion

theorem passedFor_unusable {reads:List Read} {n now:ℕ} {reading:Reading}
  (h:Unusable n reading) : PassedFor (reads ++ [⟨n,now,reading⟩]) n :=
 .inl ⟨⟨n,now,reading⟩,List.mem_append_right _ List.mem_cons_self,rfl,h⟩

/-- A number that is waited for since its first failed read is passed over late enough. -/
theorem passedFor_late (h:Inv s) {now graceMs since:ℕ} {reading:Reading}
  (hgrace:grace reading=some graceMs)
  (hsince:s.reader.stuckSince=some (s.reader.delivered+1,since))
  (hlate:since+graceMs ≤ now) :
  PassedFor (s.history.reads ++ [⟨s.reader.delivered+1,now,reading⟩])
   (s.reader.delivered+1) := by
 have ⟨first,hfirst,hnumber,hnow⟩:=h.stuck since hsince
 refine .inr ⟨?_,first,List.mem_append_left _ hfirst,
  ⟨s.reader.delivered+1,now,reading⟩,List.mem_append_right _ List.mem_cons_self,hnumber,
  rfl,graceMs,hgrace, ?_⟩
 · intro r hr heq
   cases List.mem_append.mp hr with
   | inl hr=>exact h.failed r hr heq
   | inr hr=>
    rw [List.mem_singleton.mp hr,hgrace]
    rfl
 · rw [hnow]
   exact hlate

theorem change_polling (marked:Bool) {read:List CloudCommand} (hout:read=out s.tick) :
  Change s { s with tick:=if marked then .skipping read else .polling read } := by
 cases marked with
 | false=>exact change_tick _ hout (fun _ h=>absurd h List.not_mem_nil) fun _ _=>Tick.noConfusion
 | true=>exact change_tick _ hout (fun _ h=>absurd h List.not_mem_nil) fun _ _=>Tick.noConfusion

theorem inv_readNext (h:Inv s) (now:ℕ) (reading:Reading) : Inv (readNext now reading s) := by
 unfold readNext
 split
 · rename_i read htick
   split
   · have hout:out s.tick=read:=by rw [htick]; rfl
     dsimp only
     generalize hresult:s.reader.read (s.reader.delivered+1) now reading=result
     have hreads:=reads_read (s.reader.delivered+1) now reading s.reader
     rw [hresult] at hreads
     cases hreads with
     | waitFirst hgrace=>exact inv_handOut (inv_wait h hgrace (.inl rfl)) hout
     | waitMore hgrace hsince=>
      exact inv_handOut (inv_wait h hgrace (.inr ⟨_,hsince,rfl⟩)) hout
     | skipLate hgrace hsince hlate=>
      have hskip:=inv_skip h now reading (.inl rfl) htick (passedFor_late h hgrace hsince hlate)
      apply hskip.change
      apply change_polling
      exact hout.symm
     | skipUnusable hunusable hstuck=>
      have hskip:=inv_skip h now reading hstuck htick (passedFor_unusable hunusable)
      apply hskip.change
      apply change_polling
      exact hout.symm
     | command hid=>
      rename_i cmd
      have hnext:=inv_next h now reading (.polling (read ++ [cmd])) s.history.passed s.fates
       (.inl rfl) (fun _ _=>Tick.noConfusion) rfl (List.Subset.refl _) (fun _ hn=>.inl hn)
       (List.Subset.refl _) (.inr (by
        change (read ++ [cmd]).map CloudCommand.id=_
        rw [List.map_append,hout,List.map_singleton,hid]))
      exact hnext
   · exact h
 · exact h

theorem rests_readNext (h:Rests s) (now:ℕ) (reading:Reading) :
  Rests (readNext now reading s) := by
 unfold readNext
 split
 · split
   · dsimp only
     split
     · exact h.of_eq rfl rfl rfl
     · exact h.of_eq rfl rfl rfl
     · exact h.of_eq rfl rfl rfl
   · exact h
 · exact h

theorem inv_poll (h:Inv s) (seq:Option ℕ) : Inv (poll seq s) := by
 unfold poll
 split
 · rename_i htick
   have hnone:Marks s.reader { s.reader with highWater:=max s.reader.highWater (seq.getD 0) }
     fun _=>False :=
    ⟨Nat.le_refl _,rfl,rfl,fun _ hn=>.inl hn⟩
   apply h.change
   apply change_marks hnone
   · exact fun _ hfalse=>hfalse.elim
   · rfl
   · rfl
   · rfl
   · rw [htick]
     rfl
   · exact fun _ hmem=>absurd hmem List.not_mem_nil
   · exact fun _ hmem=>hmem
   · exact fun _ hwork=>.inl hwork
   · intro cmd hacts
     cases hacts with
     | inl hacting=>exact Tick.noConfusion hacting.choose_spec
     | inr hor=>exact .inl (.inr hor)
   · exact fun _ hmem=>.inl hmem
 · exact h

theorem rests_poll (h:Rests s) (seq:Option ℕ) : Rests (poll seq s) := by
 unfold poll
 split
 · exact h.of_eq rfl rfl rfl
 · exact h

theorem inv_polled (h:Inv s) : Inv (polled s) := by
 unfold polled
 split
 · rename_i read htick
   split
   · exact h
   · apply inv_handOut h
     rw [htick]
     rfl
 · exact h

theorem rests_polled (h:Rests s) : Rests (polled s) := by
 unfold polled
 split
 · split
   · exact h
   · exact h.of_eq rfl rfl rfl
 · exact h

theorem change_idle (hout:out s.tick=[]) : Change s { s with tick:=.idle } :=
 change_tick _ hout.symm (fun _ hmem=>absurd hmem List.not_mem_nil) fun _ _=>Tick.noConfusion

theorem change_dispatching {more:List CloudCommand} (hout:out s.tick=[])
  (hmore:∀ cmd ∈ more, cmd ∈ rest s.tick) : Change s { s with tick:=.dispatching more } :=
 change_tick _ hout.symm hmore fun _ _=>Tick.noConfusion

theorem inv_dispatchNext (h:Inv s) (hrests:Rests s) :
  Inv (dispatchNext s) ∧ Rests (dispatchNext s) := by
 unfold dispatchNext
 split
 · rename_i cmd more htick
   split
   · rename_i hrunning
     exact inv_dispatch h hrests htick hrunning
   · refine ⟨h.change (change_idle ?_),hrests.of_eq rfl rfl rfl⟩
     rw [htick]
     rfl
 · rename_i htick
   refine ⟨h.change (change_idle ?_),hrests.of_eq rfl rfl rfl⟩
   rw [htick]
   rfl
 · exact ⟨h,hrests⟩

theorem inv_acted (h:Inv s) : Inv (acted s) := by
 unfold acted
 split
 · rename_i cmd more htick
   apply h.change
   apply change_endDispatch (h.acts cmd (.inl ⟨more,htick⟩))
   · rw [htick]
     rfl
   · rw [htick]
     exact fun _ hmem=>hmem
 · exact h

theorem rests_acted (h:Rests s) : Rests (acted s) := by
 unfold acted
 split
 · exact h.of_eq rfl rfl rfl
 · exact h

/-! ## The queued command -/

theorem inv_workOn (h:Inv s) : Inv (workOn s) := by
 unfold workOn
 split
 · rename_i cmd hwork
   apply h.change
   apply change_work
   · exact fun _ heq=>by simp [hwork] at heq
   · exact fun _=>Work.noConfusion
 · rename_i cmd hwork
   apply h.change
   apply change_work
   · exact fun _ heq=>by simp [hwork] at heq
   · exact fun _=>Work.noConfusion
 · rename_i hwork
   apply h.finishWork
   exact fun _ heq=>by simp [hwork] at heq
 · rename_i cmd hwork
   have hmark:=change_markHandled (h.acts cmd (.inr (.inl hwork))) .action
    fun _=>Waiter.noConfusion
   have hnot:NotRecording (s.markHandled cmd.id .action).2:=by
    intro c heq
    change s.work = .recording c at heq
    simp [hwork] at heq
   dsimp only
   split
   · apply h.change
     apply hmark.trans
     exact change_work _ hnot fun _=>Work.noConfusion
   · exact (h.change hmark).finishWork hnot
 · exact h

theorem rests_busy (h:Rests s) {w:Work} (hbusy:w ≠ .idle) : Rests { s with work:=w } :=
 ⟨fun hidle=>absurd hidle hbusy,h.stopping⟩

theorem rests_workOn (h:Rests s) : Rests (workOn s) := by
 unfold workOn
 split
 · exact rests_busy h Work.noConfusion
 · exact rests_busy h Work.noConfusion
 · exact h.finishWork
 · dsimp only
   split
   · exact ⟨fun hidle=>Work.noConfusion hidle,h.stopping⟩
   · exact rests_drain h.stopping
 · exact h

/-! ## Writes of `commands.done` -/

theorem inv_beginWrite (h:Inv s) : Inv (beginWrite s) := by
 unfold beginWrite
 split
 · exact { h with
    writing := by
     intro n hn
     exact Nat.le_of_eq (Option.mem_some.mp hn).symm
    acts:=fun cmd hacts=>(h.acts cmd hacts).of_eq rfl rfl rfl rfl rfl rfl }
 · exact h

theorem rests_beginWrite (h:Rests s) : Rests (beginWrite s) := by
 unfold beginWrite
 split
 · exact h.of_eq rfl rfl rfl
 · exact h

theorem numbers_of_handedOut {history:History} {n:ℕ}
  (hmem:n ∈ history.handedOut ++ ([] : List CloudCommand).map CloudCommand.id) :
  n ∈ history.handedOut ++ (out s.tick).map CloudCommand.id := by
 rw [List.map_nil,List.append_nil] at hmem
 exact List.mem_append_left _ hmem

theorem inv_dropped (h:Inv s) {read:List CloudCommand} (hout:out s.tick=read) :
  Inv { s with
   tick:=.idle
   history:={ s.history with
    dropped:=s.history.dropped ++ read.map CloudCommand.id } } where
 stored:=h.stored
 writing:=h.writing
 settled:=h.settled
 handled:=h.handled
 acts := by
  intro cmd hacts
  have hold:Acts s cmd:=by
   cases hacts with
   | inl htick=>exact Tick.noConfusion htick.choose_spec
   | inr hor=>exact .inr hor
  have hmarked:=h.acts cmd hold
  exact ⟨hmarked.settled,hmarked.delivered,hmarked.read,
   fun hmem=>hmarked.dispatched (numbers_of_handedOut hmem)⟩
 queue:=h.queue
 rest:=fun _ hmem=>absurd hmem List.not_mem_nil
 dispatched:=h.dispatched
 order := by
  change (s.history.handedOut ++ []).Pairwise (· < ·)
  rw [List.append_nil]
  exact (List.pairwise_append.mp h.order).1
 delivered:=fun n hn=>h.delivered n (numbers_of_handedOut hn)
 undone:=fun n hn=>h.undone n (numbers_of_handedOut hn)
 reads:=h.reads
 failed:=h.failed
 stuck:=h.stuck
 stuckLe:=h.stuckLe
 passed:=h.passed
 accounted := by
  intro n hstart hle
  cases h.accounted n hstart hle with
  | inl hmem=>
   cases List.mem_append.mp hmem with
   | inl hmem=>exact .inl (List.mem_append_left _ hmem)
   | inr hmem=>exact .inr (.inr (List.mem_append_right _ (hout ▸ hmem)))
  | inr hor=>exact .inr (hor.imp_right (List.mem_append_left _))
 dropped := by
  intro n hn
  cases List.mem_append.mp hn with
  | inl hn=>exact h.dropped n hn
  | inr hn=>
   cases h.undone n (List.mem_append_right _ (hout ▸ hn)) with
   | inl hmem=>exact .inl (h.dispatched n hmem)
   | inr hor=>exact .inr (.inr hor)

/-- The file after a write. -/
def written (n:ℕ) (ok:Bool) (others:List Waiter) (s:State) : State :=
 { s with stored:=if ok then n else s.stored,writes:=others,writing:=none }

theorem inv_written (h:Inv s) {waiter:Waiter} {others:List Waiter} {n:ℕ}
  (hwrites:s.writes=waiter::others) (hwriting:s.writing=some n) (ok:Bool) :
  Inv (written n ok others s) :=
 { h with
   stored := by
    change (if ok then n else s.stored) ≤ s.reader.done
    split
    · exact h.writing n hwriting
    · exact h.stored
   writing := by
    intro m hm
    exact absurd hm (Option.not_mem_none m)
   acts := by
    intro cmd hacts
    have hold:Acts s cmd:=by
     refine hacts.imp_right (.imp_right ?_)
     rw [hwrites]
     exact List.mem_cons_of_mem _
    exact (h.acts cmd hold).of_eq rfl rfl rfl rfl rfl rfl }

theorem inv_resume (h:Inv s) {waiter:Waiter} {ok:Bool}
  (hstop:∀ cmd, waiter = .stop cmd → Marked s cmd.id) : Inv (resume waiter ok s) := by
 cases waiter with
 | poll=>
  unfold resume
  dsimp only
  split
  · rename_i read htick
    have hout:out s.tick=read:=by rw [htick]; rfl
    split
    · exact h.change (change_polling false hout.symm)
    · exact inv_dropped h hout
  · exact h
 | dispatch=>
  unfold resume
  dsimp only
  split
  · rename_i more htick
    have hout:out s.tick=[]:=by rw [htick]; rfl
    apply h.change
    cases ok with
    | false=>exact change_idle hout
    | true=>exact change_dispatching hout (htick ▸ fun _ hmem=>hmem)
  · exact h
 | stop cmd=>
  unfold resume
  dsimp only
  split
  · rename_i more htick
    have hout:out s.tick=[]:=by rw [htick]; rfl
    have hmore:∀ c ∈ more, c ∈ rest s.tick:=htick ▸ fun _ hmem=>hmem
    split
    · apply h.change
      apply (change_shutdown s).trans
      exact change_dispatching hout hmore
    · exact h.change (change_endDispatch (hstop cmd rfl) hout hmore)
  · exact h
 | turn=>
  unfold resume
  dsimp only
  split
  · rename_i cmd hwork
    split
    · apply h.change
      apply change_startTurn
      intro c hrecording
      rw [hwork,Work.recording.injEq] at hrecording
      exact hrecording.symm
    · apply Inv.drain
      apply h.change
      exact change_unrecorded hwork
  · exact h
 | action=>
  unfold resume
  dsimp only
  split
  · rename_i hwork
    apply h.finishWork
    exact fun _ heq=>by simp [hwork] at heq
  · exact h
 | background=>exact h

theorem rests_resume (h:Rests s) (waiter:Waiter) (ok:Bool) : Rests (resume waiter ok s) := by
 unfold resume
 cases waiter with
 | poll=>
  dsimp only
  split
  · split
    · exact h.of_eq rfl rfl rfl
    · exact h.of_eq rfl rfl rfl
  · exact h
 | dispatch=>
  dsimp only
  split
  · exact h.of_eq rfl rfl rfl
  · exact h
 | stop cmd=>
  dsimp only
  split
  · split
    · exact (rests_shutdown s).of_eq rfl rfl rfl
    · exact h.of_eq rfl rfl rfl
  · exact h
 | turn=>
  dsimp only
  split
  · split
    · exact ⟨fun hidle=>Work.noConfusion hidle,h.stopping⟩
    · exact rests_drain h.stopping
  · exact h
 | action=>
  dsimp only
  split
  · exact h.finishWork
  · exact h
 | background=>exact h

theorem inv_endWrite (h:Inv s) (ok:Bool) : Inv (endWrite ok s) := by
 unfold endWrite
 split
 · rename_i waiter others n hwrites hwriting
   have hwritten:Inv (written n ok others s):=inv_written h hwrites hwriting ok
   apply inv_resume hwritten
   intro cmd heq
   have hacts:Acts s cmd:=by
    refine .inr (.inr ?_)
    rw [hwrites,heq]
    exact List.mem_cons_self
   exact (h.acts cmd hacts).of_eq rfl rfl rfl rfl rfl rfl
 · exact h

theorem rests_endWrite (h:Rests s) (ok:Bool) : Rests (endWrite ok s) := by
 unfold endWrite
 split
 · apply rests_resume
   exact h.of_eq rfl rfl rfl
 · exact h

/-! ## Runs -/

theorem inv_opened {stored:ℕ} {fates:List Fate}
  (hsettled:∀ n, 0 < n → n ≤ stored → ∃ fate ∈ fates, settles fate n) :
  Inv (State.opened stored fates) where
 stored:=Nat.le_refl _
 writing:=fun n hn=>absurd hn (Option.not_mem_none n)
 settled := by
  intro n hpos hn
  cases hn with
  | inl hle=>exact .inl (hsettled n hpos hle)
  | inr hmem=>exact absurd hmem List.not_mem_nil
 handled := by
  intro n hn
  cases hn with
  | inl hle=>exact hle
  | inr hmem=>exact absurd hmem List.not_mem_nil
 acts := by
  intro cmd hacts
  cases hacts with
  | inl htick=>exact Tick.noConfusion htick.choose_spec
  | inr hor=>
   cases hor with
   | inl hwork=>exact Work.noConfusion hwork
   | inr hstop=>exact absurd hstop List.not_mem_nil
 queue:=fun _ hmem=>absurd hmem List.not_mem_nil
 rest:=fun _ hmem=>absurd hmem List.not_mem_nil
 dispatched:=fun _ hmem=>absurd hmem List.not_mem_nil
 order:=List.Pairwise.nil
 delivered:=fun _ hmem=>absurd hmem List.not_mem_nil
 undone:=fun _ hmem=>absurd hmem List.not_mem_nil
 reads:=fun _ hmem=>absurd hmem List.not_mem_nil
 failed:=fun _ hmem=>absurd hmem List.not_mem_nil
 stuck:=fun _ hsince=>absurd hsince.symm (Option.some_ne_none _)
 stuckLe:=fun _ _ hsince=>absurd hsince.symm (Option.some_ne_none _)
 passed:=fun _ hmem=>absurd hmem List.not_mem_nil
 accounted:=fun _ hstart hle=>absurd hle (Nat.not_le_of_lt hstart)
 dropped:=fun _ hmem=>absurd hmem List.not_mem_nil

theorem inv_restart (h:Inv s) : Inv (restart s) := by
 have hstored:∀ n, 0 < n → n ≤ s.stored → Settled s n:=
  fun n hpos hle=>h.settled n hpos (.inl (Nat.le_trans hle h.stored))
 unfold restart
 split
 · rename_i cmd hwork
   apply inv_opened
   intro n hpos hle
   cases hstored n hpos hle with
   | inl hfate=>
    have ⟨fate,hmem,hfor⟩:=hfate
    exact ⟨fate,List.mem_append_left _ hmem,hfor⟩
   | inr hrecording=>
    have ⟨c,hc,hid⟩:=hrecording
    rw [hwork,Work.recording.injEq] at hc
    exact ⟨.interrupted cmd.id,List.mem_append_right _ List.mem_cons_self,(hc ▸ hid).symm⟩
 · rename_i hnot
   apply inv_opened
   intro n hpos hle
   cases hstored n hpos hle with
   | inl hfate=>exact hfate
   | inr hrecording=>
    have ⟨c,hc,_⟩:=hrecording
    exact absurd hc (hnot c)

theorem rests_opened (stored:ℕ) (fates:List Fate) : Rests (State.opened stored fates) :=
 ⟨fun _=>rfl,fun _=>rfl⟩

theorem rests_restart (s:State) : Rests (restart s) := by
 unfold restart
 split
 · exact rests_opened _ _
 · exact rests_opened _ _

theorem inv_step (s:State) (action:Action) (h:Inv s ∧ Rests s) :
  Inv (step action s) ∧ Rests (step action s) := by
 have ⟨hinv,hrests⟩:=h
 cases action with
 | poll seq=>exact ⟨inv_poll hinv seq,rests_poll hrests seq⟩
 | readNext now reading=>exact ⟨inv_readNext hinv now reading,rests_readNext hrests now reading⟩
 | polled=>exact ⟨inv_polled hinv,rests_polled hrests⟩
 | dispatchNext=>exact inv_dispatchNext hinv hrests
 | acted=>exact ⟨inv_acted hinv,rests_acted hrests⟩
 | workOn=>exact ⟨inv_workOn hinv,rests_workOn hrests⟩
 | beginWrite=>exact ⟨inv_beginWrite hinv,rests_beginWrite hrests⟩
 | endWrite ok=>exact ⟨inv_endWrite hinv ok,rests_endWrite hrests ok⟩
 | shutdown=>exact ⟨hinv.change (change_shutdown s),rests_shutdown s⟩
 | restart=>exact ⟨inv_restart hinv,rests_restart s⟩

end Steps

theorem inv_fresh : Inv State.fresh :=
 inv_opened fun _ hpos hle=>absurd hpos (Nat.not_lt_of_le hle)

/-- No command is lost, in any run. -/
theorem commands_kept (actions:List Action) : Kept (run step actions State.fresh) :=
 (run_invariant inv_step actions ⟨inv_fresh,rests_opened 0 []⟩).1.kept

/-- A second message is queued while the first is being started, and is aborted. -/
def queuedAbort : List Action :=
 [.poll (some 2),.readNext 0 (.command ⟨1,.message "first"⟩),
  .readNext 1 (.command ⟨2,.message "second"⟩),.polled,.dispatchNext,.dispatchNext,
  .dispatchNext,.beginWrite,.endWrite true,.poll (some 3),
  .readNext 2 (.command ⟨3,.abort "second"⟩),.polled,.dispatchNext,.beginWrite,
  .endWrite true]

theorem fates_queuedAbort :
  (run step queuedAbort State.fresh).fates=[.executed 1,.executed 3,.aborted 2] := by
 decide +kernel

/-- An aborted message is recorded without having been executed, discarded by a stop or passed
over. -/
theorem aborted_unexecuted :
  2 ≤ (run step queuedAbort State.fresh).stored ∧
   .executed 2 ∉ (run step queuedAbort State.fresh).fates ∧
   .passedOver 2 ∉ (run step queuedAbort State.fresh).fates ∧
   ¬Discarded (run step queuedAbort State.fresh) 2 := by
 refine ⟨by decide +kernel,by decide +kernel,by decide +kernel, ?_⟩
 intro h
 have ⟨m,hmem,_⟩:=h
 rw [fates_queuedAbort] at hmem
 simp at hmem

end L4Ide.CloudCommandsKept
