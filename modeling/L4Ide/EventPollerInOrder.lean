import L4Ide.AdmissibleRuns
import L4Ide.EventPoller

set_option autoImplicit false

/-!
# The client gives each event once and in order

What the listener is given of a session that is open is a prefix of its log, as long as no session
is opened under the generation of a request whose answer is still to come.
-/
namespace L4Ide.EventPollerInOrder
open AssociationList EventPoller AdmissibleRuns

section Orders

theorem schedule_fields {Sid:Type} (s:State Sid) (delay:Option ℕ) :
  (s.schedule delay).watched=s.watched ∧ (s.schedule delay).tracked=s.tracked ∧
   (s.schedule delay).log=s.log ∧ (s.schedule delay).poll=s.poll ∧
    (s.schedule delay).now=s.now ∧ (s.schedule delay).disposed=s.disposed := by
 unfold State.schedule
 split
 · exact ⟨rfl,rfl,rfl,rfl,rfl,rfl⟩
 · split
   · split
     · exact ⟨rfl,rfl,rfl,rfl,rfl,rfl⟩
     · exact ⟨rfl,rfl,rfl,rfl,rfl,rfl⟩
   · split
     · exact ⟨rfl,rfl,rfl,rfl,rfl,rfl⟩
     · exact ⟨rfl,rfl,rfl,rfl,rfl,rfl⟩
     · split
       · exact ⟨rfl,rfl,rfl,rfl,rfl,rfl⟩
       · exact ⟨rfl,rfl,rfl,rfl,rfl,rfl⟩

variable {Sid:Type} [DecidableEq Sid]

/-! ## The property -/

def inFlight (s:State Sid) (sid:Sid) : Option (Request Sid) :=
 s.poll.bind fun p=>
  if p.streams.elim true fun streams=>streams.any fun e=>e.1=sid then p.request sid else none

def Accepted (s:State Sid) (sid:Sid) (r:Request Sid) : Prop :=
 inFlight s sid=some r ∧ (s.entry sid).map Watched.gen=some r.gen

def Armed (s:State Sid) : Prop :=
 s.poll=none → s.disposed=false →
  ∀ sid w, s.entry sid=some w → (intervalFor w s.now).isSome → s.timer.isSome

structure InOrder (s:State Sid) : Prop where
 /-- What was given is a gap-free prefix of the log. -/
 given : ∀ sid L, (s.tracked sid).opened=some L →
  ∃ n ≤ s.log sid, (s.tracked sid).given=List.range' 1 n
 /-- No answer to a request from before the session was opened takes effect. -/
 fresh : ∀ sid r L, (s.tracked sid).opened=some L → Accepted s sid r →
  r.opens=(s.tracked sid).opens
 /-- The replay ends when the log at the time of the opening has been given. -/
 replayed : ∀ sid L, (s.tracked sid).opened=some L → (s.tracked sid).replaying=false →
  (s.tracked sid).gone=true ∨ ∀ seq, 1 ≤ seq → seq ≤ L → seq ∈ (s.tracked sid).given
 armed : Armed s

/-- A session is not opened under the generation of a request whose answer is still to come; the
two can only be the same when the session was unwatched since. -/
def admits (s:State Sid) : Action Sid → Prop
 | .opened sid _=>(inFlight s sid).map Request.gen ≠ some (s.nextGen sid true)
 | _=>True

instance (s:State Sid) (action:Action Sid) : Decidable (admits s action) := by
 cases action <;> unfold admits <;> infer_instance

/-! ## The invariant -/

/-- The outcome that a request for a session has, or the answer still to be handled. -/
def Answered (s:State Sid) (sid:Sid) (answer:Answer) : Prop :=
 ∃ p, s.poll=some p ∧ (p.answers sid=some answer ∨
  ∃ streams, p.streams=some streams ∧ (sid,answer) ∈ streams)

/-- An answer goes on from what was given, and one that is not cut short covers the opening. -/
def Fits (lastSeq log L:ℕ) : Answer → Prop
 | .gone=>True
 | .events first count more _=>
  first ≤ lastSeq ∧ first+count ≤ log ∧ (more=false → L ≤ first+count)

structure Followed (s:State Sid) (sid:Sid) : Prop where
 opens : ∀ r, inFlight s sid=some r → r.opens ≤ (s.tracked sid).opens
 given : ∀ L, (s.tracked sid).opened=some L →
  (s.tracked sid).given=List.range' 1 (s.tracked sid).lastSeq
 known : ∀ L, (s.tracked sid).opened=some L → (s.tracked sid).lastSeq ≤ s.log sid ∧ L ≤ s.log sid
 cursor : ∀ L, (s.tracked sid).opened=some L → ∀ w, s.entry sid=some w →
  w.cursor ≤ (s.tracked sid).lastSeq
 replayed : ∀ L, (s.tracked sid).opened=some L → (s.tracked sid).replaying=false →
  (s.tracked sid).gone=true ∨ L ≤ (s.tracked sid).lastSeq
 fresh : ∀ L, (s.tracked sid).opened=some L → ∀ r, inFlight s sid=some r →
  r.gen=s.nextGen sid false → r.opens=(s.tracked sid).opens
 asked : ∀ L, (s.tracked sid).opened=some L → ∀ r, inFlight s sid=some r →
  r.opens=(s.tracked sid).opens → r.cursor ≤ (s.tracked sid).lastSeq
 fits : ∀ L, (s.tracked sid).opened=some L → ∀ r, inFlight s sid=some r →
  r.opens=(s.tracked sid).opens → ∀ answer, Answered s sid answer →
   Fits (s.tracked sid).lastSeq (s.log sid) L answer

structure Inv (s:State Sid) : Prop where
 once : Once s.watched
 armed : Armed s
 session : ∀ sid, Followed s sid

variable {s s' : State Sid}

theorem Inv.inOrder (h:Inv s) : InOrder s where
 given sid L hopened :=
  ⟨_,((h.session sid).known L hopened).1,(h.session sid).given L hopened⟩
 fresh sid r L hopened haccepted := by
  apply (h.session sid).fresh L hopened r haccepted.1
  have hgen:=haccepted.2
  unfold State.nextGen
  cases hentry:s.entry sid with
  | none=>
   rw [hentry] at hgen
   cases hgen
  | some w=>
   rw [hentry] at hgen
   exact (Option.some.inj hgen).symm
 replayed sid L hopened hreplaying := by
  apply ((h.session sid).replayed L hopened hreplaying).imp_right
  intro hlast seq hfirst hseq
  rw [(h.session sid).given L hopened,List.mem_range'_1]
  omega
 armed:=h.armed

theorem Fits.mono {lastSeq lastSeq' log log' L:ℕ} {answer:Answer}
  (h:Fits lastSeq log L answer) (hlast:lastSeq ≤ lastSeq') (hlog:log ≤ log') :
  Fits lastSeq' log' L answer := by
 cases answer with
 | gone=>trivial
 | events first count more state=>exact ⟨Nat.le_trans h.1 hlast,Nat.le_trans h.2.1 hlog,h.2.2⟩

theorem inv_initial : Inv (initial:State Sid) where
 once:=List.Pairwise.nil
 armed _ _ sid w hentry := by cases hentry
 session sid :=
  { opens:=by intro r hr; cases hr
    given:=by intro L hopened; cases hopened
    known:=by intro L hopened; cases hopened
    cursor:=by intro L hopened; cases hopened
    replayed:=by intro L hopened; cases hopened
    fresh:=by intro L hopened; cases hopened
    asked:=by intro L hopened; cases hopened
    fits:=by intro L hopened; cases hopened }

/-! ## Steps that only leave things out -/

/-- What a step on a session keeps when it gives nothing, opens nothing and asks nothing. -/
structure KeepsAt (s s' : State Sid) (sid:Sid) : Prop where
 opened : ∀ L, (s'.tracked sid).opened=some L → (s.tracked sid).opened=some L
 given : (s'.tracked sid).given=(s.tracked sid).given
 lastSeq : (s'.tracked sid).lastSeq=(s.tracked sid).lastSeq
 opens : (s'.tracked sid).opens=(s.tracked sid).opens
 replaying : ∀ L, (s'.tracked sid).opened=some L →
  (s'.tracked sid).replaying=(s.tracked sid).replaying ∧
   (s'.tracked sid).gone=(s.tracked sid).gone
 log : s.log sid ≤ s'.log sid
 cursor : ∀ w, s'.entry sid=some w →
  w.cursor=0 ∨ ∃ w', s.entry sid=some w' ∧ w.cursor=w'.cursor
 nextGen : ∀ L, (s'.tracked sid).opened=some L → s'.nextGen sid false=s.nextGen sid false
 inFlight : ∀ r, inFlight s' sid=some r → inFlight s sid=some r
 answered : ∀ answer, Answered s' sid answer → Answered s sid answer ∨ answer = .gone

structure Keeps (s s' : State Sid) : Prop where
 once : Once s'.watched
 armed : Armed s → Armed s'
 session : ∀ sid, KeepsAt s s' sid

theorem KeepsAt.trans {s'' : State Sid} {sid:Sid} (h:KeepsAt s s' sid)
  (h' : KeepsAt s' s'' sid) : KeepsAt s s'' sid where
 opened L hL := h.opened L (h'.opened L hL)
 given:=h'.given.trans h.given
 lastSeq:=h'.lastSeq.trans h.lastSeq
 opens:=h'.opens.trans h.opens
 replaying L hL :=
  ⟨(h'.replaying L hL).1.trans (h.replaying L (h'.opened L hL)).1,
   (h'.replaying L hL).2.trans (h.replaying L (h'.opened L hL)).2⟩
 log:=Nat.le_trans h.log h'.log
 cursor w hw := by
  cases h'.cursor w hw with
  | inl hstart=>exact .inl hstart
  | inr hbefore=>
   have ⟨w', hw', heq⟩:=hbefore
   rw [heq]
   exact h.cursor w' hw'
 nextGen L hL := (h'.nextGen L hL).trans (h.nextGen L (h'.opened L hL))
 inFlight r hr := h.inFlight r (h'.inFlight r hr)
 answered answer hanswer := by
  cases h'.answered answer hanswer with
  | inl hbefore=>exact h.answered answer hbefore
  | inr hgone=>exact .inr hgone

theorem Keeps.trans {s'' : State Sid} (h:Keeps s s') (h' : Keeps s' s'') : Keeps s s'' where
 once:=h'.once
 armed hs := h'.armed (h.armed hs)
 session sid := (h.session sid).trans (h'.session sid)

theorem Followed.keeps {sid:Sid} (h:Followed s sid) (hk:KeepsAt s s' sid) :
  Followed s' sid where
 opens r hr := by
  rw [hk.opens]
  exact h.opens r (hk.inFlight r hr)
 given L hL := by
  rw [hk.given,hk.lastSeq]
  exact h.given L (hk.opened L hL)
 known L hL := by
  rw [hk.lastSeq]
  have hknown:=h.known L (hk.opened L hL)
  exact ⟨Nat.le_trans hknown.1 hk.log,Nat.le_trans hknown.2 hk.log⟩
 cursor L hL w hw := by
  rw [hk.lastSeq]
  cases hk.cursor w hw with
  | inl hstart=>
   rw [hstart]
   exact Nat.zero_le _
  | inr hbefore=>
   have ⟨w', hw', heq⟩:=hbefore
   rw [heq]
   exact h.cursor L (hk.opened L hL) w' hw'
 replayed L hL hreplaying := by
  have hsame:=hk.replaying L hL
  rw [hsame.1] at hreplaying
  rw [hsame.2,hk.lastSeq]
  exact h.replayed L (hk.opened L hL) hreplaying
 fresh L hL r hr hgen := by
  rw [hk.nextGen L hL] at hgen
  rw [hk.opens]
  exact h.fresh L (hk.opened L hL) r (hk.inFlight r hr) hgen
 asked L hL r hr hopens := by
  rw [hk.opens] at hopens
  rw [hk.lastSeq]
  exact h.asked L (hk.opened L hL) r (hk.inFlight r hr) hopens
 fits L hL r hr hopens answer hanswer := by
  rw [hk.opens] at hopens
  rw [hk.lastSeq]
  cases hk.answered answer hanswer with
  | inl hbefore=>
   have hfits:=h.fits L (hk.opened L hL) r (hk.inFlight r hr) hopens answer hbefore
   exact hfits.mono (Nat.le_refl _) hk.log
  | inr hgone=>
   rw [hgone]
   trivial

theorem Inv.keeps (h:Inv s) (hk:Keeps s s') : Inv s' where
 once:=hk.once
 armed:=hk.armed h.armed
 session sid := (h.session sid).keeps (hk.session sid)

/-! ## One session and the others -/

section Sessions

variable {s s' : State Sid} {sid:Sid}

theorem KeepsAt.of_fields (htracked:s'.tracked sid=s.tracked sid) (hlog:s'.log sid=s.log sid)
  (hentry:s'.entry sid=s.entry sid)
  (hinFlight:∀ r, EventPollerInOrder.inFlight s' sid=some r →
   EventPollerInOrder.inFlight s sid=some r)
  (hanswered:∀ answer, Answered s' sid answer → Answered s sid answer ∨ answer = .gone) :
  KeepsAt s s' sid where
 opened L hL := htracked ▸ hL
 given:=by rw [htracked]
 lastSeq:=by rw [htracked]
 opens:=by rw [htracked]
 replaying L hL := by rw [htracked]; exact ⟨rfl,rfl⟩
 log:=Nat.le_of_eq hlog.symm
 cursor w hw := .inr ⟨w,hentry ▸ hw,rfl⟩
 nextGen L hL := by unfold State.nextGen; rw [hentry]
 inFlight:=hinFlight
 answered:=hanswered

theorem KeepsAt.of_same (htracked:s'.tracked sid=s.tracked sid) (hlog:s'.log sid=s.log sid)
  (hentry:s'.entry sid=s.entry sid) (hpoll:s'.poll=s.poll) : KeepsAt s s' sid := by
 apply KeepsAt.of_fields htracked hlog hentry
 · intro r hr
   unfold EventPollerInOrder.inFlight at hr ⊢
   rwa [hpoll] at hr
 · intro answer hanswer
   unfold Answered at hanswer
   rw [hpoll] at hanswer
   exact .inl hanswer

theorem Armed.of_entries (h:Armed s) (hpoll:s'.poll=s.poll)
  (hdisposed:s'.disposed=s.disposed) (hnow:s'.now=s.now) (htimer:s'.timer=s.timer)
  (hentry:∀ sid w, s'.entry sid=some w → s.entry sid=some w) : Armed s' := by
 intro hidle hlive sid w hw hdue
 rw [hpoll] at hidle
 rw [hdisposed] at hlive
 rw [hnow] at hdue
 rw [htimer]
 exact h hidle hlive sid w (hentry sid w hw) hdue

theorem Keeps.refl (h:Once s.watched) : Keeps s s where
 once:=h
 armed hs := hs
 session _ := .of_same rfl rfl rfl rfl

theorem armed_schedule (s:State Sid) (ms:ℕ) : Armed (s.schedule (some ms)) := by
 intro hidle hlive sid w hw hdue
 have hfields:=schedule_fields s (some ms)
 rw [hfields.2.2.2.1] at hidle
 rw [hfields.2.2.2.2.2] at hlive
 unfold State.schedule
 rw [hlive,hidle]
 cases htimer:s.timer with
 | none=>rfl
 | some due=>
  simp only [Bool.false_eq_true,if_false,Option.isSome_none]
  split
  · rw [htimer]
    rfl
  · rfl

theorem keepsAt_schedule (s:State Sid) (delay:Option ℕ) (sid:Sid) :
  KeepsAt s (s.schedule delay) sid := by
 have hfields:=schedule_fields s delay
 apply KeepsAt.of_same
 · rw [hfields.2.1]
 · rw [hfields.2.2.1]
 · unfold State.entry
   rw [hfields.1]
 · exact hfields.2.2.2.1

theorem once_setEntry (h:Once s.watched) (sid:Sid) (w:Option Watched) :
  Once (s.setEntry sid w).watched :=
 h.alter (fun _ hk=>hk) _

theorem entry_setEntry (h:Once s.watched) (sid:Sid) (w:Option Watched) (sid' : Sid) :
  (s.setEntry sid w).entry sid' = if sid' = sid then w else s.entry sid' := by
 have hlookup:(alter sid id (fun _=>w) s.watched).lookup sid' = _:=
  lookup_alter (fun _ hk=>hk) _ h sid'
 simp only [beq_iff_eq] at hlookup
 exact hlookup

/-! ## The operations of the manager -/

theorem keepsAt_track (f:Tracked → Tracked) (sid sid' : Sid)
  (hgiven:(f (s.tracked sid)).given=(s.tracked sid).given)
  (hlast:(f (s.tracked sid)).lastSeq=(s.tracked sid).lastSeq)
  (hopens:(f (s.tracked sid)).opens=(s.tracked sid).opens)
  (hopened:∀ L, (f (s.tracked sid)).opened=some L → (s.tracked sid).opened=some L ∧
   (f (s.tracked sid)).replaying=(s.tracked sid).replaying ∧
    (f (s.tracked sid)).gone=(s.tracked sid).gone) :
  KeepsAt s (s.track sid f) sid' := by
 by_cases h:sid' = sid
 · subst h
   have htracked:(s.track sid' f).tracked sid' = f (s.tracked sid'):=
    Function.update_self sid' _ _
   constructor
   · intro L hL
     rw [htracked] at hL
     exact (hopened L hL).1
   · rw [htracked,hgiven]
   · rw [htracked,hlast]
   · rw [htracked,hopens]
   · intro L hL
     rw [htracked] at hL ⊢
     exact (hopened L hL).2
   · exact Nat.le_refl _
   · intro w hw
     exact .inr ⟨w,hw,rfl⟩
   · intro L hL
     rfl
   · intro r hr
     exact hr
   · intro answer hanswer
     exact .inl hanswer
 · apply KeepsAt.of_same
   · exact Function.update_of_ne h _ _
   · rfl
   · rfl
   · rfl

theorem keeps_track (h:Once s.watched) (f:Tracked → Tracked) (sid:Sid)
  (hgiven:(f (s.tracked sid)).given=(s.tracked sid).given)
  (hlast:(f (s.tracked sid)).lastSeq=(s.tracked sid).lastSeq)
  (hopens:(f (s.tracked sid)).opens=(s.tracked sid).opens)
  (hopened:∀ L, (f (s.tracked sid)).opened=some L → (s.tracked sid).opened=some L ∧
   (f (s.tracked sid)).replaying=(s.tracked sid).replaying ∧
    (f (s.tracked sid)).gone=(s.tracked sid).gone) :
  Keeps s (s.track sid f) where
 once:=h
 armed hs := hs
 session sid' := keepsAt_track f sid sid' hgiven hlast hopens hopened

theorem keeps_close (h:Once s.watched) (sid:Sid) : Keeps s (s.close sid) where
 once:=once_setEntry h sid none
 armed hs := by
  have hkept:∀ sid' w, (s.close sid).entry sid' = some w → s.entry sid' = some w:=by
   intro sid' w hw
   have hentry:=entry_setEntry h sid none sid'
   split at hentry
   · exact absurd (hentry.symm.trans hw) (by simp)
   · exact hentry.symm.trans hw
  exact hs.of_entries rfl rfl rfl rfl hkept
 session sid' := by
  have hentry:=entry_setEntry h sid none sid'
  by_cases hsid:sid' = sid
  · subst hsid
    have htracked:(s.close sid').tracked sid' =
      { s.tracked sid' with replaying:=false,opened:=none } := by
     unfold State.close State.endReplay State.track
     simp only [Function.update_self]
     rfl
    constructor
    · intro L hL
      rw [htracked] at hL
      cases hL
    · rw [htracked]
    · rw [htracked]
    · rw [htracked]
    · intro L hL
      rw [htracked] at hL
      cases hL
    · exact Nat.le_refl _
    · intro w hw
      rw [if_pos rfl] at hentry
      exact absurd (hentry.symm.trans hw) (by simp)
    · intro L hL
      rw [htracked] at hL
      cases hL
    · intro r hr
      exact hr
    · intro answer hanswer
      exact .inl hanswer
  · rw [if_neg hsid] at hentry
    apply KeepsAt.of_same
    · unfold State.close State.endReplay State.track
      simp only [Function.update_of_ne hsid]
      rfl
    · rfl
    · exact hentry
    · rfl

theorem keeps_releaseIfIdle (h:Once s.watched) (sid:Sid) : Keeps s (s.releaseIfIdle sid) := by
 unfold State.releaseIfIdle
 dsimp only
 split
 · exact .refl h
 · split
   · exact .refl h
   · split
     · exact .refl h
     · exact keeps_close h sid

theorem keeps_setState (h:Once s.watched) (sid:Sid) (state:SessionState) :
  Keeps s (s.setState sid state) := by
 have hchanged:Keeps s (s.track sid fun t=>{ t with state:=some state }):=by
  apply keeps_track h
  · rfl
  · rfl
  · rfl
  · intro L hL
    exact ⟨hL,rfl,rfl⟩
 unfold State.setState
 split
 · exact .refl h
 · dsimp only
   split
   · exact hchanged.trans (keeps_releaseIfIdle hchanged.once sid)
   · exact hchanged

theorem keeps_setViewing (h:Once s.watched) (sid:Option Sid) : Keeps s (s.setViewing sid) := by
 have hseen:Keeps s { s with viewing:=sid }:=
  { once:=h
    armed:=fun hs=>hs
    session:=fun _=>.of_same rfl rfl rfl rfl }
 unfold State.setViewing
 dsimp only
 split
 · split
   · exact hseen
   · exact hseen.trans (keeps_releaseIfIdle hseen.once _)
 · exact hseen

theorem keepsAt_setEntry (h:Once s.watched) (sid:Sid) (w:Watched)
  (hcursor:w.cursor=0 ∨ ∃ w', s.entry sid=some w' ∧ w.cursor=w'.cursor)
  (hgen:w.gen=s.nextGen sid false) (sid' : Sid) :
  KeepsAt s (s.setEntry sid (some w)) sid' := by
 have hentry:=entry_setEntry h sid (some w) sid'
 by_cases hsid:sid' = sid
 · subst hsid
   rw [if_pos rfl] at hentry
   constructor
   · intro L hL
     exact hL
   · rfl
   · rfl
   · rfl
   · intro L hL
     exact ⟨rfl,rfl⟩
   · exact Nat.le_refl _
   · intro w' hw'
     rw [hentry] at hw'
     cases hw'
     exact hcursor
   · intro L hL
     rw [←hgen]
     unfold State.nextGen
     rw [hentry]
     rfl
   · intro r hr
     exact hr
   · intro answer hanswer
     exact .inl hanswer
 · rw [if_neg hsid] at hentry
   exact .of_same rfl rfl hentry rfl

theorem keeps_poke (h:Once s.watched) (sid:Sid) (state:Option SessionState) :
  Keeps s (s.poke sid state) := by
 unfold State.poke
 cases hentry:s.entry sid with
 | none=>
  constructor
  · unfold State.watch
    dsimp only
    rw [(schedule_fields _ _).1]
    exact once_setEntry h sid _
  · intro _
    exact armed_schedule _ 0
  · intro sid'
    apply KeepsAt.trans (keepsAt_setEntry h sid _ _ rfl sid') (keepsAt_schedule _ _ sid')
    rw [hentry]
    exact .inl rfl
 | some w=>
  constructor
  · dsimp only
    rw [(schedule_fields _ _).1]
    exact once_setEntry h sid _
  · intro _
    exact armed_schedule _ 0
  · intro sid'
    apply KeepsAt.trans (keepsAt_setEntry h sid _ _ _ sid') (keepsAt_schedule _ _ sid')
    · exact .inr ⟨w,hentry,rfl⟩
    · unfold State.nextGen
      rw [hentry]
      rfl

theorem keeps_dispose (s:State Sid) : Keeps s s.dispose where
 once:=List.Pairwise.nil
 armed _ _ hlive := by cases hlive
 session sid :=
  { opened:=by intro L hL; cases hL
    given:=rfl
    lastSeq:=rfl
    opens:=rfl
    replaying:=by intro L hL; cases hL
    log:=Nat.le_refl _
    cursor:=by intro w hw; cases hw
    nextGen:=by intro L hL; cases hL
    inFlight:=fun _ hr=>hr
    answered:=fun _ hanswer=>.inl hanswer }

/-! ## The log and the clock -/

theorem keeps_append (h:Once s.watched) (sid:Sid) : Keeps s (step (.append sid) s) where
 once:=h
 armed hs := hs
 session sid' :=
  { opened:=fun _ hL=>hL
    given:=rfl
    lastSeq:=rfl
    opens:=rfl
    replaying:=fun _ _=>⟨rfl,rfl⟩
    log := by
     change s.log sid' ≤ Function.update s.log sid (s.log sid+1) sid'
     by_cases hsid:sid' = sid
     · rw [hsid,Function.update_self]
       exact Nat.le_succ _
     · exact Nat.le_of_eq (Function.update_of_ne hsid _ _).symm
    cursor:=fun w hw=>.inr ⟨w,hw,rfl⟩
    nextGen:=fun _ _=>rfl
    inFlight:=fun _ hr=>hr
    answered:=fun _ hanswer=>.inl hanswer }

variable {w:Watched} {r:Request Sid} {p:Poll Sid}

theorem intervalFor_isSome_of_le {now later:ℕ} (hnow:now ≤ later)
  (h:(intervalFor w later).isSome) : (intervalFor w now).isSome := by
 have hgrace:(if later < w.graceUntil then some POLL_BUSY_MS else none).isSome →
   (if now < w.graceUntil then some POLL_BUSY_MS else none).isSome := by
  intro hdue
  by_cases hlater:later < w.graceUntil
  · rw [if_pos (by omega)]
    rfl
  · rw [if_neg hlater] at hdue
    cases hdue
 unfold intervalFor at h ⊢
 cases hstate:w.state with
 | none=>
  rw [hstate] at h
  exact hgrace h
 | some state=>
  rw [hstate] at h
  cases state with
  | busy=>rfl
  | starting=>rfl
  | running=>rfl
  | waiting=>rfl
  | sleeping=>exact hgrace h
  | parked=>exact hgrace h

theorem keeps_tick (h:Once s.watched) (ms:ℕ) : Keeps s (step (.tick ms) s) where
 once:=h
 armed hs hidle hlive sid w hw hdue :=
  hs hidle hlive sid w hw (intervalFor_isSome_of_le (Nat.le_add_right _ _) hdue)
 session _ := .of_same rfl rfl rfl rfl

/-! ## The poll -/

theorem inFlight_eq_some :
  inFlight s sid=some r ↔ ∃ p, s.poll=some p ∧ p.request sid=some r ∧
   ∀ streams, p.streams=some streams → ∃ answer, (sid,answer) ∈ streams := by
 unfold inFlight
 cases s.poll with
 | none=>simp
 | some p=>
  cases hstreams:p.streams with
  | none=>simp [hstreams]
  | some streams=>simp [hstreams,and_comm]

theorem keeps_of_poll {p' : Poll Sid} (h:Once s.watched) (hp:s.poll=some p)
  (hrequests:p'.requests=p.requests)
  (hanswers:∀ sid answer, p'.answers sid=some answer →
   p.answers sid=some answer ∨ answer = .gone)
  (hstreams:∀ streams, p'.streams=some streams → ∀ e ∈ streams,
   p.answers e.1=some e.2 ∨ ∃ before, p.streams=some before ∧ e ∈ before)
  (hawaits:p'.streams=none → p.streams=none)
  (hkept:∀ streams before, p'.streams=some streams → p.streams=some before →
   ∀ e ∈ streams, e ∈ before) :
  Keeps s { s with poll:=some p' } where
 once:=h
 armed _ hidle := by cases hidle
 session sid := by
  apply KeepsAt.of_fields
  · rfl
  · rfl
  · rfl
  · intro r hr
    have ⟨q,hq,hrequest,hawait⟩:=(inFlight_eq_some).mp hr
    cases hq
    apply (inFlight_eq_some).mpr
    refine ⟨p,hp, ?_, ?_⟩
    · unfold Poll.request at hrequest ⊢
      rwa [hrequests] at hrequest
    · intro before hbefore
      cases hafter:p'.streams with
      | none=>
       rw [hawaits hafter] at hbefore
       cases hbefore
      | some streams=>
       have ⟨answer,hmem⟩:=hawait streams hafter
       exact ⟨answer,hkept streams before hafter hbefore _ hmem⟩
  · intro answer hanswer
    have ⟨q,hq,hcase⟩:=hanswer
    cases hq
    cases hcase with
    | inl hanswer=>
     cases hanswers sid answer hanswer with
     | inl hbefore=>exact .inl ⟨p,hp,.inl hbefore⟩
     | inr hgone=>exact .inr hgone
    | inr hmem=>
     have ⟨streams,hafter,hmem⟩:=hmem
     cases hstreams streams hafter _ hmem with
     | inl hbefore=>exact .inl ⟨p,hp,.inl hbefore⟩
     | inr hbefore=>
      have ⟨before,hbefore,hmem⟩:=hbefore
      exact .inl ⟨p,hp,.inr ⟨before,hbefore,hmem⟩⟩

theorem keeps_lose (h:Once s.watched) (sid:Sid) : Keeps s (s.lose sid) := by
 unfold State.lose
 cases hp:s.poll with
 | none=>exact .refl h
 | some p=>
  apply keeps_of_poll h hp
  · rfl
  · intro sid' answer hanswer
    dsimp only at hanswer
    by_cases hsid:sid' = sid
    · rw [hsid,Function.update_self] at hanswer
      cases hanswer
      exact .inr rfl
    · rw [Function.update_of_ne hsid] at hanswer
      exact .inl hanswer
  · intro streams hstreams e he
    exact .inr ⟨streams,hstreams,he⟩
  · exact id
  · intro streams before hafter hbefore e he
    have hsame:some streams=some before:=hafter.symm.trans hbefore
    cases hsame
    exact he

theorem keeps_settle (h:Once s.watched) (outcomes:List (Option (List Sid))) :
  Keeps s (s.settle outcomes) := by
 unfold State.settle
 cases hp:s.poll with
 | none=>exact .refl h
 | some p=>
  dsimp only
  split
  · exact .refl h
  · rename_i hopen
    have hnone:p.streams=none:=by
     cases hstreams:p.streams with
     | none=>rfl
     | some streams=>exact absurd (.inl (by rw [hstreams]; rfl)) hopen
    apply keeps_of_poll h hp
    · rfl
    · intro sid answer hanswer
      exact .inl hanswer
    · intro streams hstreams e he
      cases hstreams
      have ⟨batch,_,hbatch⟩:=List.mem_flatMap.mp he
      have ⟨sid,_,hsid⟩:=List.mem_filterMap.mp hbatch
      have ⟨answer,hanswer,heq⟩:=Option.map_eq_some_iff.mp hsid
      cases heq
      exact .inl hanswer
    · intro _
      exact hnone
    · intro streams before _ hbefore
      rw [hnone] at hbefore
      cases hbefore

theorem keeps_rest {e:Sid × Answer} {streams:List (Sid × Answer)}
  (h:Once s.watched) (hp:s.poll=some p) (hstreams:p.streams=some (e::streams))
  (more:Bool) : Keeps s { s with poll:=some { p with streams:=some streams,more } } := by
 apply keeps_of_poll h hp
 · rfl
 · intro sid answer hanswer
   exact .inl hanswer
 · intro streams' hstreams' e' he
   cases hstreams'
   exact .inr ⟨_,hstreams,List.mem_cons_of_mem _ he⟩
 · intro hnone
   cases hnone
 · intro streams' before hafter hbefore e' he
   cases hafter
   cases hstreams.symm.trans hbefore
   exact List.mem_cons_of_mem _ he

theorem keeps_idle (h:Once s.watched) (failures:ℕ) {delay:Option ℕ}
  (harmed:Armed ({ s with poll:=none,failures:=failures }.schedule delay)) :
  Keeps s ({ s with poll:=none,failures:=failures }.schedule delay) where
 once := by
  rw [(schedule_fields _ _).1]
  exact h
 armed _ := harmed
 session sid := by
  apply KeepsAt.trans _ (keepsAt_schedule _ delay sid)
  apply KeepsAt.of_fields
  · rfl
  · rfl
  · rfl
  · intro r hr
    cases hr
  · intro answer hanswer
    have ⟨p,hp,_⟩:=hanswer
    cases hp

theorem request_asked (h:Once s.watched) {due:Sid × Watched → Bool}
  (hrequests:p.requests=(s.watched.filter due).map fun e=>
   ⟨e.1,e.2.cursor,e.2.gen,(s.tracked e.1).opens⟩)
  (hr:p.request sid=some r) :
  r.opens=(s.tracked sid).opens ∧ ∃ w, s.entry sid=some w ∧ r.cursor=w.cursor := by
 have hsid:r.sid=sid:=by simpa using List.find?_some hr
 have hmem:=List.mem_of_find?_eq_some hr
 rw [hrequests] at hmem
 have ⟨e,he,heq⟩:=List.mem_map.mp hmem
 subst heq
 subst hsid
 exact ⟨rfl,e.2,lookup_of_mem h (List.mem_filter.mp he).1,rfl⟩

theorem inv_startPoll (honce:Once s.watched) (hsession:∀ sid, Followed s sid) :
  Inv s.startPoll := by
 unfold State.startPoll
 split
 · rename_i hbusy
   apply Inv.mk honce _ hsession
   intro hidle hlive
   rw [hidle,hlive] at hbusy
   cases hbusy with
   | inl h=>cases h
   | inr h=>cases h
 · constructor
   · exact honce
   · intro hidle
     cases hidle
   · intro sid
     have hs:=hsession sid
     constructor
     · intro r hr
       have ⟨p,hp,hrequest,_⟩:=(inFlight_eq_some).mp hr
       cases hp
       exact Nat.le_of_eq (request_asked honce rfl hrequest).1
     · exact hs.given
     · exact hs.known
     · exact hs.cursor
     · exact hs.replayed
     · intro L hL r hr _
       have ⟨p,hp,hrequest,_⟩:=(inFlight_eq_some).mp hr
       cases hp
       exact (request_asked honce rfl hrequest).1
     · intro L hL r hr _
       have ⟨p,hp,hrequest,_⟩:=(inFlight_eq_some).mp hr
       cases hp
       have ⟨w,hw,hcursor⟩:=(request_asked honce rfl hrequest).2
       rw [hcursor]
       exact hs.cursor L hL w hw
     · intro L hL r hr _ answer hanswer
       have ⟨p,hp,hcase⟩:=hanswer
       cases hp
       cases hcase with
       | inl hanswer=>cases hanswer
       | inr hmem=>
        have ⟨streams,hstreams,_⟩:=hmem
        cases hstreams

theorem Inv.fire (h:Inv s) : Inv s.fire := by
 unfold State.fire
 split
 · split
   · have hsession:∀ sid, Followed { s with timer:=none } sid:=by
      intro sid
      exact (h.session sid).keeps (.of_same rfl rfl rfl rfl)
     exact inv_startPoll h.once hsession
   · exact h
 · exact h

theorem inFlight_of_poll {p' : Poll Sid} (hp:s.poll=some p)
  (hr:inFlight { s with poll:=some p' } sid=some r) (hrequests:p'.requests=p.requests)
  (hstreams:p'.streams=p.streams) : inFlight s sid=some r := by
 unfold inFlight Poll.request at hr ⊢
 rw [hp]
 rwa [Option.bind_some,hrequests,hstreams] at hr

theorem Inv.record (h:Inv s) (hp:s.poll=some p)
  (hr:p.request sid=some r) {answer:Answer}
  (hfits:∀ L, (s.tracked sid).opened=some L → r.cursor ≤ (s.tracked sid).lastSeq →
   Fits (s.tracked sid).lastSeq (s.log sid) L answer) :
  Inv { s with
   poll := some { p with answers:=Function.update p.answers sid (some answer) } } := by
 constructor
 · exact h.once
 · intro hidle
   cases hidle
 · intro sid'
   have hs:=h.session sid'
   constructor
   · intro r' hr'
     exact hs.opens r' (inFlight_of_poll hp hr' rfl rfl)
   · exact hs.given
   · exact hs.known
   · exact hs.cursor
   · exact hs.replayed
   · intro L hL r' hr'
     exact hs.fresh L hL r' (inFlight_of_poll hp hr' rfl rfl)
   · intro L hL r' hr'
     exact hs.asked L hL r' (inFlight_of_poll hp hr' rfl rfl)
   · intro L hL r' hr' hopens answer' hanswer
     have hbefore:=hs.fits L hL r' (inFlight_of_poll hp hr' rfl rfl) hopens answer'
     have ⟨q,hq,hcase⟩:=hanswer
     cases hq
     cases hcase with
     | inr hmem=>exact hbefore ⟨p,hp,.inr hmem⟩
     | inl hanswer=>
      dsimp only at hanswer
      by_cases hsid:sid' = sid
      · subst hsid
        have hsame:r' = r:=by
         have ⟨q,hq,hrequest,_⟩:=(inFlight_eq_some).mp (inFlight_of_poll hp hr' rfl rfl)
         cases hp.symm.trans hq
         exact Option.some.inj (hrequest.symm.trans hr)
        rw [Function.update_self] at hanswer
        cases hanswer
        exact hfits L hL (hsame ▸ hs.asked L hL r' (inFlight_of_poll hp hr' rfl rfl) hopens)
      · rw [Function.update_of_ne hsid] at hanswer
        exact hbefore ⟨p,hp,.inl hanswer⟩

theorem Inv.read (h:Inv s) (sid:Sid) (count:ℕ) (state:SessionState) :
  Inv (s.read sid count state) := by
 unfold State.read
 split
 · exact h
 · rename_i p hp
   split
   · exact h
   · rename_i r hr
     apply h.record hp hr
     intro L hL hasked
     have hknown:=(h.session sid).known L hL
     refine ⟨hasked, ?_, ?_⟩
     · omega
     · intro hmore
       have hall:=of_decide_eq_false hmore
       omega

theorem Inv.gone (h:Inv s) (hbusy:s.poll ≠ none)
  (hfresh:∀ L, (s.tracked sid).opened=some L → ∀ r, inFlight s sid=some r →
   r.opens=(s.tracked sid).opens) : Inv ((s.unwatch sid).handleStream sid .gone) := by
 constructor
 · exact once_setEntry h.once sid none
 · intro hidle
   exact absurd hidle hbusy
 · intro sid'
   have hs:=h.session sid'
   have hentry:=entry_setEntry h.once sid none sid'
   by_cases hsid:sid' = sid
   · subst hsid
     have htracked:((s.unwatch sid').handleStream sid' .gone).tracked sid' =
       { s.tracked sid' with replaying:=false,gone:=true } := by
      unfold State.handleStream State.endReplay State.track
      simp only [Function.update_self]
      rfl
     constructor
     · rw [htracked]
       exact hs.opens
     · rw [htracked]
       exact hs.given
     · rw [htracked]
       exact hs.known
     · intro L _ w hw
       rw [if_pos rfl] at hentry
       exact absurd (hentry.symm.trans hw) (by simp)
     · rw [htracked]
       intro _ _ _
       exact .inl rfl
     · rw [htracked]
       intro L hL r hr _
       exact hfresh L hL r hr
     · rw [htracked]
       exact hs.asked
     · rw [htracked]
       exact hs.fits
   · rw [if_neg hsid] at hentry
     apply hs.keeps
     apply KeepsAt.of_same
     · unfold State.handleStream State.endReplay State.track
       simp only [Function.update_of_ne hsid]
       rfl
     · rfl
     · exact hentry
     · rfl

/-! ## Events -/

theorem foldl_giveEvent_same (seqs:List ℕ) (t:Tracked) :
  (seqs.foldl State.giveEvent t).opened=t.opened ∧
   (seqs.foldl State.giveEvent t).opens=t.opens ∧
    (seqs.foldl State.giveEvent t).replaying=t.replaying ∧
     (seqs.foldl State.giveEvent t).gone=t.gone := by
 induction seqs generalizing t with
 | nil=>exact ⟨rfl,rfl,rfl,rfl⟩
 | cons seq seqs ih=>
  rw [List.foldl_cons]
  unfold State.giveEvent
  split
  · exact ih t
  · exact ih _

/-- Events that go on from what was given are given once, those given before are passed over. -/
theorem foldl_giveEvent (count:ℕ) {first:ℕ} {t:Tracked} (hfirst:first ≤ t.lastSeq)
  (hgiven:t.given=List.range' 1 t.lastSeq) :
  ((List.range' (first+1) count).foldl State.giveEvent t).lastSeq =
    max t.lastSeq (first+count) ∧
   ((List.range' (first+1) count).foldl State.giveEvent t).given =
    List.range' 1 (max t.lastSeq (first+count)) := by
 induction count generalizing first t with
 | zero=>
  have hmax:max t.lastSeq (first+0)=t.lastSeq:=by omega
  rw [hmax]
  exact ⟨rfl,hgiven⟩
 | succ count ih=>
  rw [List.range'_succ,List.foldl_cons,State.giveEvent]
  split
  · have hmax:max t.lastSeq (first+(count+1))=max t.lastSeq (first+1+count):=by omega
    rw [hmax]
    exact ih (by omega) hgiven
  · have hlast:first=t.lastSeq:=by omega
    have hmax:max t.lastSeq (first+(count+1))=max (first+1) (first+1+count):=by omega
    rw [hmax]
    apply ih (Nat.le_refl _)
    rw [hgiven,←hlast,List.range'_concat,Nat.one_mul,Nat.add_comm 1 first]

theorem Followed.given_more (h:Followed s sid)
  (htracked:(s'.tracked sid).opened=(s.tracked sid).opened ∧
   (s'.tracked sid).opens=(s.tracked sid).opens ∧
    (s'.tracked sid).replaying=(s.tracked sid).replaying ∧
     (s'.tracked sid).gone=(s.tracked sid).gone)
  (hlog:s'.log sid=s.log sid) (hpoll:s'.poll=s.poll)
  (hgen:s'.nextGen sid false=s.nextGen sid false)
  (hmore:∀ L, (s.tracked sid).opened=some L →
   (s.tracked sid).lastSeq ≤ (s'.tracked sid).lastSeq ∧ (s'.tracked sid).lastSeq ≤ s.log sid ∧
    (s'.tracked sid).given=List.range' 1 (s'.tracked sid).lastSeq ∧
     ∀ w, s'.entry sid=some w → w.cursor ≤ (s'.tracked sid).lastSeq) :
  Followed s' sid := by
 have ⟨hopened,hopens,hreplaying,hgone⟩:=htracked
 have hinFlight:inFlight s' sid=inFlight s sid:=by
  unfold inFlight
  rw [hpoll]
 have hanswered:Answered s' sid=Answered s sid:=by
  unfold Answered
  rw [hpoll]
 constructor
 · rw [hinFlight,hopens]
   exact h.opens
 · rw [hopened]
   intro L hL
   exact (hmore L hL).2.2.1
 · rw [hopened,hlog]
   intro L hL
   exact ⟨(hmore L hL).2.1,(h.known L hL).2⟩
 · rw [hopened]
   intro L hL
   exact (hmore L hL).2.2.2
 · rw [hopened,hreplaying,hgone]
   intro L hL hover
   apply (h.replayed L hL hover).imp_right
   intro hlast
   exact Nat.le_trans hlast (hmore L hL).1
 · rw [hopened,hinFlight,hgen,hopens]
   exact h.fresh
 · rw [hopened,hinFlight,hopens]
   intro L hL r hr hsame
   exact Nat.le_trans (h.asked L hL r hr hsame) (hmore L hL).1
 · rw [hopened,hinFlight,hopens,hanswered,hlog]
   intro L hL r hr hsame answer hanswer
   exact (h.fits L hL r hr hsame answer hanswer).mono (hmore L hL).1 (Nat.le_refl _)

theorem Inv.given (h:Inv s) (hbusy:s.poll ≠ none) (hw:s.entry sid=some w)
  {first count:ℕ} {more:Bool} {state:SessionState}
  (hfits:∀ L, (s.tracked sid).opened=some L →
   Fits (s.tracked sid).lastSeq (s.log sid) L (.events first count more state)) :
  Inv ((s.setEntry sid (some { w with cursor:=first+count,state:=some state })).track sid
   fun t=>(List.range' (first+1) count).foldl State.giveEvent t) := by
 constructor
 · exact once_setEntry h.once sid _
 · intro hidle
   exact absurd hidle hbusy
 · intro sid'
   have hs:=h.session sid'
   have hentry:=entry_setEntry h.once sid
    (some { w with cursor:=first+count,state:=some state }) sid'
   by_cases hsid:sid' = sid
   · subst hsid
     rw [if_pos rfl] at hentry
     have htracked:((s.setEntry sid' (some
       { w with cursor:=first+count,state:=some state })).track sid' fun t=>
         (List.range' (first+1) count).foldl State.giveEvent t).tracked sid' =
       (List.range' (first+1) count).foldl State.giveEvent (s.tracked sid') :=
      Function.update_self _ _ _
     apply hs.given_more
     · rw [htracked]
       exact foldl_giveEvent_same _ _
     · rfl
     · rfl
     · change ((s.setEntry sid' _).entry sid').elim 0 Watched.gen+0 =
        (s.entry sid').elim 0 Watched.gen+0
       rw [hentry,hw]
       rfl
     · intro L hL
       have ⟨hlast,hgiven⟩:=foldl_giveEvent count (hfits L hL).1 (hs.given L hL)
       have hknown:=hs.known L hL
       have hend:=(hfits L hL).2.1
       rw [htracked,hlast]
       refine ⟨by omega,by omega,hgiven, ?_⟩
       intro w' hw'
       cases hentry.symm.trans hw'
       exact Nat.le_max_right _ _
   · rw [if_neg hsid] at hentry
     apply hs.keeps
     apply KeepsAt.of_same
     · exact Function.update_of_ne hsid _ _
     · rfl
     · exact hentry
     · rfl

theorem Inv.endReplay (h:Inv s)
  (hall:∀ L, (s.tracked sid).opened=some L → L ≤ (s.tracked sid).lastSeq) :
  Inv (s.endReplay sid) := by
 refine ⟨h.once,h.armed, ?_⟩
 intro sid'
 have hs:=h.session sid'
 by_cases hsid:sid' = sid
 · subst hsid
   have htracked:(s.endReplay sid').tracked sid' = { s.tracked sid' with replaying:=false }:=
    Function.update_self _ _ _
   constructor
   · rw [htracked]
     exact hs.opens
   · rw [htracked]
     exact hs.given
   · rw [htracked]
     exact hs.known
   · rw [htracked]
     exact hs.cursor
   · rw [htracked]
     intro L hL _
     exact .inr (hall L hL)
   · rw [htracked]
     exact hs.fresh
   · rw [htracked]
     exact hs.asked
   · rw [htracked]
     exact hs.fits
 · exact hs.keeps (.of_same (Function.update_of_ne hsid _ _) rfl rfl rfl)

theorem Inv.handleEvents (h:Inv s) (hbusy:s.poll ≠ none)
  (hw:s.entry sid=some w) {first count:ℕ} {more:Bool} {state:SessionState}
  (hfits:∀ L, (s.tracked sid).opened=some L →
   Fits (s.tracked sid).lastSeq (s.log sid) L (.events first count more state)) :
  Inv ((s.setEntry sid (some { w with cursor:=first+count,state:=some state })).handleStream
   sid (.events first count more state)) := by
 have hgiven:=h.given hbusy hw hfits
 have hknown:=keeps_setState hgiven.once sid state
 unfold State.handleStream
 dsimp only
 split
 · rename_i hover
   apply (hgiven.keeps hknown).endReplay
   intro L hL
   have hopened:=(hknown.session sid).opened L hL
   rw [(hknown.session sid).lastSeq]
   unfold State.track at hopened ⊢
   simp only [Function.update_self,State.setEntry] at hopened ⊢
   rw [(foldl_giveEvent_same _ _).1] at hopened
   have hall:=hfits L hopened
   rw [(foldl_giveEvent count hall.1 ((h.session sid).given L hopened)).1]
   have hmore:more=false:=by
    rw [Bool.and_eq_true] at hover
    simpa using hover.1
   exact Nat.le_trans (hall.2.2 hmore) (Nat.le_max_right _ _)
 · exact hgiven.keeps hknown

theorem Inv.handle (h:Inv s) : Inv s.handle := by
 unfold State.handle
 split
 · exact h
 · rename_i p hp
   split
   · exact h
   · exact h
   · rename_i sid answer streams hstreams
     have hrest:=h.keeps (keeps_rest h.once hp hstreams p.more)
     dsimp only
     split
     · exact hrest
     · rename_i w hw
       split
       · rename_i hgen
         have ⟨r,hr,hsame⟩:=Option.map_eq_some_iff.mp hgen
         have hcurrent:inFlight s sid=some r:=by
          apply (inFlight_eq_some).mpr
          refine ⟨p,hp,hr, ?_⟩
          intro before hbefore
          cases hstreams.symm.trans hbefore
          exact ⟨answer,List.mem_cons_self⟩
         have hfresh:∀ L, (s.tracked sid).opened=some L → r.opens=(s.tracked sid).opens:=by
          intro L hL
          apply (h.session sid).fresh L hL r hcurrent
          unfold State.nextGen
          rw [hw]
          exact hsame
         cases answer with
         | gone=>
          apply hrest.gone
          · exact Option.some_ne_none _
          · intro L hL r' hr'
            have hbefore:=((keeps_rest h.once hp hstreams p.more).session sid).inFlight r' hr'
            cases hcurrent.symm.trans hbefore
            exact hfresh L hL
         | events first count more state=>
          have hrest:=h.keeps (keeps_rest h.once hp hstreams (p.more || more))
          apply hrest.handleEvents
          · exact Option.some_ne_none _
          · exact hw
          · intro L hL
            apply (h.session sid).fits L hL r hcurrent (hfresh L hL)
            exact ⟨p,hp,.inr ⟨_,hstreams,List.mem_cons_self⟩⟩
       · exact hrest

/-! ## The end of a poll -/

theorem foldl_delay {K:Type} (l:List (K × Watched)) (now:ℕ) (delay:Option ℕ)
  (h:delay.isSome ∨ ∃ e ∈ l, (intervalFor e.2 now).isSome) :
  (l.foldl (fun delay e=>
   match delay,intervalFor e.2 now with
   | some a,some b=>some (min a b)
   | none,b=>b
   | a,none=>a) delay).isSome := by
 induction l generalizing delay with
 | nil=>
  cases h with
  | inl hdelay=>exact hdelay
  | inr hmem=>
   have ⟨_,hmem,_⟩:=hmem
   cases hmem
 | cons e l ih=>
  rw [List.foldl_cons]
  apply ih
  cases h with
  | inl hdelay=>
   have ⟨a,ha⟩:=Option.isSome_iff_exists.mp hdelay
   rw [ha]
   cases intervalFor e.2 now with
   | none=>exact .inl rfl
   | some b=>exact .inl rfl
  | inr hmem=>
   have ⟨e', hmem,hdue⟩:=hmem
   cases List.mem_cons.mp hmem with
   | inl heq=>
    have ⟨b,hb⟩:=Option.isSome_iff_exists.mp (heq ▸ hdue)
    rw [hb]
    cases delay with
    | none=>exact .inl rfl
    | some a=>exact .inl rfl
   | inr hmem=>exact .inr ⟨e', hmem,hdue⟩

theorem isSome_nextDelay (hw:s.entry sid=some w)
  (hdue:(intervalFor w s.now).isSome) : s.nextDelay.isSome := by
 have ⟨k,_,hmem⟩:=mem_of_lookup hw
 exact foldl_delay _ _ _ (.inr ⟨(k,w),hmem,hdue⟩)

theorem armed_schedule_of_due {delay:Option ℕ}
  (h:∀ sid w, s.entry sid=some w → (intervalFor w s.now).isSome → delay.isSome) :
  Armed (s.schedule delay) := by
 cases delay with
 | some ms=>exact armed_schedule s ms
 | none=>
  intro _ _ sid w hw hdue
  have hfields:=schedule_fields s none
  unfold State.entry at hw
  rw [hfields.1] at hw
  rw [hfields.2.2.2.2.1] at hdue
  exact absurd (h sid w hw hdue) (by simp)

theorem Inv.finish (h:Inv s) : Inv s.finish := by
 unfold State.finish
 split
 · exact h
 · rename_i p hp
   split
   · dsimp only
     split
     · apply h.keeps
       apply keeps_idle h.once
       apply armed_schedule_of_due
       intro sid w hw _
       split
       · rename_i hempty
         have hnone:s.watched.lookup sid=some w:=hw
         rw [hempty] at hnone
         cases hnone
       · rfl
     · apply h.keeps
       apply keeps_idle h.once
       apply armed_schedule_of_due
       intro sid w hw hdue
       split
       · rfl
       · exact isSome_nextDelay hw hdue
   · exact h

/-! ## Opening -/

structure Opens (s s' : State Sid) (sid:Sid) : Prop where
 once : Once s'.watched
 armed : Armed s'
 tracked : (s'.tracked sid).opened=some (s.log sid) ∧ (s'.tracked sid).given=[] ∧
  (s'.tracked sid).lastSeq=0 ∧ (s'.tracked sid).replaying=true ∧
   (s'.tracked sid).opens=(s.tracked sid).opens+1
 entry : ∃ w, s'.entry sid=some w ∧ w.cursor=0 ∧ w.gen=s.nextGen sid true
 log : s'.log sid=s.log sid
 poll : s'.poll=s.poll
 others : ∀ sid', sid' ≠ sid → KeepsAt s s' sid'

theorem releaseIfIdle_of_ne (h:Once s.watched) {sid' : Sid} (hsid:sid ≠ sid') :
  (s.releaseIfIdle sid').entry sid=s.entry sid ∧
   (s.releaseIfIdle sid').poll=s.poll ∧ (s.releaseIfIdle sid').log=s.log ∧
    (s.releaseIfIdle sid').viewing=s.viewing := by
 unfold State.releaseIfIdle
 dsimp only
 split
 · exact ⟨rfl,rfl,rfl,rfl⟩
 · split
   · exact ⟨rfl,rfl,rfl,rfl⟩
   · split
     · exact ⟨rfl,rfl,rfl,rfl⟩
     · exact ⟨(entry_setEntry h sid' none sid).trans (if_neg hsid),rfl,rfl,rfl⟩

theorem setViewing_fields (h:Once s.watched) (sid:Sid) :
  (s.setViewing (some sid)).entry sid=s.entry sid ∧
   (s.setViewing (some sid)).poll=s.poll ∧ (s.setViewing (some sid)).log=s.log ∧
    (s.setViewing (some sid)).viewing=some sid := by
 unfold State.setViewing
 dsimp only
 split
 · split
   · exact ⟨rfl,rfl,rfl,rfl⟩
   · rename_i hprev
     apply releaseIfIdle_of_ne (s := { s with viewing:=some sid }) h
     intro heq
     exact hprev (congrArg some heq)
 · exact ⟨rfl,rfl,rfl,rfl⟩

theorem setState_of_viewing (h:s.viewing=some sid) (state:SessionState) :
  s.setState sid state=s ∨
   s.setState sid state=s.track sid fun t=>{ t with state:=some state } := by
 unfold State.setState
 split
 · exact .inl rfl
 · dsimp only
   split
   · unfold State.releaseIfIdle
     dsimp only
     rw [if_pos (.inl h)]
     exact .inr rfl
   · exact .inr rfl

theorem track_track (s:State Sid) (sid:Sid) (f g:Tracked → Tracked) :
  (s.track sid f).track sid g=s.track sid (g ∘ f) := by
 unfold State.track
 simp only [Function.update_self,Function.update_idem]
 rfl

def afresh (log:ℕ) (state:Option SessionState) (t:Tracked) : Tracked :=
 { t with replaying:=true,lastSeq:=0,given:=[],opened:=some log,gone:=false,
          opens:=t.opens+1,state }

theorem opened_eq (h:Once s.watched) (sid:Sid) (state:SessionState) :
  ∃ st, s.opened sid state=((s.setViewing (some sid)).track sid (afresh (s.log sid) st)).watch
   sid (some CURSOR_START) (some state) := by
 have hviewing:=(setViewing_fields h sid).2.2.2
 let before:=((s.setViewing (some sid)).tracked sid).state
 let fresh:=(s.setViewing (some sid)).track sid fun t=>
  { t with replaying:=true,lastSeq:=0,given:=[],opened:=some (s.log sid),
           gone:=false,opens:=t.opens+1 }
 have hfresh:fresh=(s.setViewing (some sid)).track sid (afresh (s.log sid) before):=by
  unfold fresh State.track
  rfl
 have hopened:s.opened sid state =
   (fresh.setState sid state).watch sid (some CURSOR_START) (some state) := rfl
 cases setState_of_viewing (s := fresh) hviewing state with
 | inl hsame=>exact ⟨before,by rw [hopened,hsame,hfresh]⟩
 | inr hset=>exact ⟨some state,by rw [hopened,hset,hfresh,track_track]; rfl⟩

theorem opens_opened (h:Once s.watched) (sid:Sid) (state:SessionState) :
  Opens s (s.opened sid state) sid := by
 have hview:=keeps_setViewing h (some sid)
 have ⟨hentry,hpoll,hlog,_⟩:=setViewing_fields h sid
 have ⟨st,heq⟩:=opened_eq h sid state
 rw [heq]
 unfold State.watch
 dsimp only
 have hset:=entry_setEntry (s := (s.setViewing (some sid)).track sid (afresh (s.log sid) st))
  hview.once sid
 have hgen:((s.setViewing (some sid)).track sid (afresh (s.log sid) st)).nextGen sid true =
   s.nextGen sid true := by
  unfold State.nextGen
  change ((s.setViewing (some sid)).entry sid).elim 0 Watched.gen+1=_
  rw [hentry]
  rfl
 have htracked:((s.setViewing (some sid)).track sid (afresh (s.log sid) st)).tracked sid =
   afresh (s.log sid) st ((s.setViewing (some sid)).tracked sid) := Function.update_self _ _ _
 constructor
 · rw [(schedule_fields _ _).1]
   exact once_setEntry hview.once sid _
 · exact armed_schedule _ 0
 · rw [(schedule_fields _ _).2.1]
   unfold State.setEntry
   dsimp only
   rw [htracked,←(hview.session sid).opens]
   exact ⟨rfl,rfl,rfl,rfl,rfl⟩
 · unfold State.entry
   rw [(schedule_fields _ _).1]
   refine ⟨_,(hset _ sid).trans (if_pos rfl),rfl, ?_⟩
   exact hgen
 · rw [(schedule_fields _ _).2.2.1]
   exact congrFun hlog sid
 · rw [(schedule_fields _ _).2.2.2.1]
   exact hpoll
 · intro sid' hsid
   apply (hview.session sid').trans
   apply KeepsAt.trans _ (keepsAt_schedule _ _ sid')
   apply KeepsAt.of_same
   · exact Function.update_of_ne hsid _ _
   · rfl
   · exact (hset _ sid').trans (if_neg hsid)
   · rfl

theorem Inv.opened (h:Inv s) (sid:Sid) (state:SessionState)
  (hadmits:(inFlight s sid).map Request.gen ≠ some (s.nextGen sid true)) :
  Inv (s.opened sid state) := by
 have ho:=opens_opened h.once sid state
 have ⟨hopened,hgiven,hlast,hreplaying,hopens⟩:=ho.tracked
 have ⟨w,hw,hcursor,hgen⟩:=ho.entry
 have hinFlight:inFlight (s.opened sid state) sid=inFlight s sid:=by
  unfold inFlight
  rw [ho.poll]
 have hbefore:∀ r, inFlight s sid=some r → r.opens ≠ (s.tracked sid).opens+1:=by
  intro r hr
  have hle:=(h.session sid).opens r hr
  omega
 refine ⟨ho.once,ho.armed, ?_⟩
 intro sid'
 by_cases hsid:sid' = sid
 · subst hsid
   constructor
   · rw [hinFlight,hopens]
     intro r hr
     exact Nat.le_succ_of_le ((h.session sid').opens r hr)
   · rw [hgiven,hlast]
     intro _ _
     rfl
   · rw [hopened,hlast,ho.log]
     intro L hL
     cases hL
     exact ⟨Nat.zero_le _,Nat.le_refl _⟩
   · intro L _ w' hw'
     cases hw.symm.trans hw'
     rw [hcursor]
     exact Nat.zero_le _
   · rw [hreplaying]
     intro L _ hover
     cases hover
   · rw [hinFlight]
     intro L _ r hr hsame
     unfold State.nextGen at hsame
     rw [hw] at hsame
     refine absurd ?_ hadmits
     rw [hr,←hgen]
     exact congrArg some hsame
   · rw [hinFlight,hopens]
     intro L _ r hr hsame
     exact absurd hsame (hbefore r hr)
   · rw [hinFlight,hopens]
     intro L _ r hr hsame
     exact absurd hsame (hbefore r hr)
 · exact (h.session sid').keeps (ho.others sid' hsid)

/-- Opening a session under the generation of a request in flight has its answer accepted. -/
theorem admits_of_inOrder (h:Inv s) (action:Action Sid) (ho:InOrder (step action s)) :
  admits s action := by
 cases action with
 | opened sid state=>
  intro hsame
  have ⟨r,hr,hgen⟩:=Option.map_eq_some_iff.mp hsame
  have hopened:=opens_opened h.once sid state
  have ⟨hopen,_,_,_,hopens⟩:=hopened.tracked
  have ⟨w,hw,_,hwgen⟩:=hopened.entry
  have haccepted:Accepted (step (.opened sid state) s) sid r:=by
   constructor
   · change inFlight (s.opened sid state) sid=some r
     unfold inFlight at hr ⊢
     rw [hopened.poll]
     exact hr
   · change ((s.opened sid state).entry sid).map Watched.gen=some r.gen
     rw [hw,hgen,←hwgen]
     rfl
  have hfresh:r.opens=((s.opened sid state).tracked sid).opens:=
   ho.fresh sid r _ hopen haccepted
  have hle:=(h.session sid).opens r hr
  omega
 | append=>trivial
 | tick=>trivial
 | owe=>trivial
 | close=>trivial
 | setViewing=>trivial
 | setState=>trivial
 | poke=>trivial
 | fire=>trivial
 | read=>trivial
 | lose=>trivial
 | settle=>trivial
 | handle=>trivial
 | finish=>trivial
 | dispose=>trivial

theorem inv_step (s:State Sid) (action:Action Sid) (h:Inv s) (hadmits:admits s action) :
  Inv (step action s) := by
 cases action with
 | append sid=>exact h.keeps (keeps_append h.once sid)
 | tick ms=>exact h.keeps (keeps_tick h.once ms)
 | owe sid owed=>
  apply h.keeps
  exact keeps_track h.once (fun t=>{ t with owed }) sid rfl rfl rfl fun L hL=>⟨hL,rfl,rfl⟩
 | opened sid state=>exact h.opened sid state hadmits
 | close sid=>exact h.keeps (keeps_close h.once sid)
 | setViewing sid=>exact h.keeps (keeps_setViewing h.once sid)
 | setState sid state=>exact h.keeps (keeps_setState h.once sid state)
 | poke sid state=>exact h.keeps (keeps_poke h.once sid state)
 | fire=>exact h.fire
 | read sid count state=>exact h.read sid count state
 | lose sid=>exact h.keeps (keeps_lose h.once sid)
 | settle outcomes=>exact h.keeps (keeps_settle h.once outcomes)
 | handle=>exact h.handle
 | finish=>exact h.finish
 | dispose=>exact h.keeps (keeps_dispose s)

end Sessions

/-- The client gives each event once and in order, and no answer from before an opening takes
effect, in every state of a run exactly when no session is opened under the generation of a request
whose answer is still to come. -/
theorem inOrder_iff (actions:List (Action Sid)) :
  (∀ taken, taken <+: actions → InOrder (run step taken (initial:State Sid))) ↔
   Admissible step admits actions (initial:State Sid) :=
 (admissible_iff_each (fun _ h=>h.inOrder) inv_step
  (fun _ action h ho=>admits_of_inOrder h action ho) actions inv_initial).symm

end Orders

/-! ## A late answer to a session opened again -/

/-- A session whose log has two events is read to its end; the third event is asked for, and the
session is closed and opened again before the answer comes. -/
def reopened : List (Action Unit) :=
 [.append (),.append (),.opened () .busy,.fire,.read () 2 .busy,.settle [some [()]],.handle,
  .finish,.append (),.tick 1000,.fire,.read () 1 .busy,.close (),.opened () .busy,
  .settle [some [()]],.handle]

theorem given_reopened :
  ((run step reopened initial).tracked ()).given=[3] ∧
   ((run step reopened initial).tracked ()).replaying=false ∧
   ((run step reopened initial).tracked ()).opened=some 3 := by
 decide +kernel

theorem not_inOrder_reopened : ¬ InOrder (run step reopened initial) := by
 intro h
 have ⟨hgiven,_,hopened⟩:=given_reopened
 have ⟨n,_, hprefix⟩:=h.given () 3 hopened
 rw [hgiven] at hprefix
 cases n with
 | zero=>cases hprefix
 | succ n=>
  rw [List.range'_succ] at hprefix
  cases hprefix

end L4Ide.EventPollerInOrder
