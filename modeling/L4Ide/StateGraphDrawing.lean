import L4Ide.StateGraphReachability
import L4Ide.Environment
import Mathlib.Logic.Function.Basic

set_option autoImplicit false

/-!
# What the state graph of obligations in sequence draws

The transitions out of the state of an obligation are the ones for its HENCE and its LEST,
into states that stand for what these say.
-/
namespace L4Ide.StateGraphDrawing
open Syntax Environment StateGraphExtraction StateGraphReachability

/-- Obligations followed by obligations, FULFILLED or BREACH, to any depth. -/
inductive Sequenced : Expr Resolved → Prop where
 | fulfilled (n:Resolved) (ty:Option (Type' Resolved)) (hu:n.getUnique=fulfilUnique)
   (ho:n.getOriginal=fulfilName) : Sequenced (.app n [] ty)
 | breach (party reason:Option (Expr Resolved)) : Sequenced (.breach party reason)
 | regulative (d:Deonton Resolved) (hh:∀ e, d.hence=some e → Sequenced e)
   (hl:∀ e, d.lest=some e → Sequenced e) : Sequenced (.regulative d)

inductive Next where
 | fulfilled
 | breach
 | obligation (d:Deonton Resolved)

def Terminal.next : Terminal → Next
 | .fulfilled=>.fulfilled
 | .breach=>.breach

/-- What the graph makes of a HENCE or LEST; FULFILLED is drawn as any other name is. -/
def targetOf : Expr Resolved → Option Next
 | .breach _ _=>some .breach
 | .regulative d=>some (.obligation d)
 | .app name [] _=>if isFulfilled name then some .fulfilled else none
 | _=>none

def henceDrawn (d:Deonton Resolved) : Option Next :=
 match d.hence with
 | some e=>targetOf e
 | none=>some .fulfilled

def timeout : TransitionLabel := actionLabel "timeout"

def violation : TransitionLabel := actionLabel "violation"

def lestDrawn (d:Deonton Resolved) : Option (TransitionLabel × Option Next) :=
 match d.lest with
 | some e=>some (timeout,targetOf e)
 | none=>
  match d.action.modal with
  | .dMust=>some (timeout,some .breach)
  | .dMustNot=>some (violation,some .breach)
  | .dMay | .dDo=>none

abbrev Standing := StateId → Option Next

def outgoing (ts:List Transition) (s:StateId) : List Transition :=
 ts.filter fun tr=>tr.transFrom=s

section Drawn
variable (pr:Printer)

def NodeDrawn (stand:Standing) (s:StateId) (d:Deonton Resolved) (ts:List Transition) :
  Prop :=
 ∃ th, stand th=henceDrawn d ∧
  match lestDrawn d with
  | none=>ts=[⟨s,th,deontonLabel pr d,.henceTransition⟩]
  | some (label,next)=>∃ tl, stand tl=next ∧
   ts=[⟨s,tl,label,.lestTransition⟩,⟨s,th,deontonLabel pr d,.henceTransition⟩]

structure Drawing (st:ExtractState) (stand:Standing) : Prop where
 ids : ∀ c ∈ st.esStates, c.stateId < st.esNextId
 ends : ∀ tr ∈ st.esTransitions, tr.transFrom < st.esNextId ∧ tr.transTo < st.esNextId
 types : ∀ c ∈ st.esStates, ∀ t : Terminal,
  c.stateType=t.type ↔ stand c.stateId=some (Terminal.next t)
 beyond : ∀ i, st.esNextId ≤ i → stand i=none

/-- The builder has gone on from one open state; the new states are finished. -/
structure Grows (st st' : ExtractState) (stand stand' : Standing) (s:StateId) : Prop where
 drawing : Drawing st' stand'
 le : st.esNextId ≤ st'.esNextId
 keeps : ∀ i, i < st.esNextId → stand' i=stand i
 frame : ∀ i, i < st.esNextId → i ≠ s → outgoing st'.esTransitions i=outgoing st.esTransitions i
 closed : ∀ i, st.esNextId ≤ i → ∀ d, stand' i=some (.obligation d) →
  NodeDrawn pr stand' i d (outgoing st'.esTransitions i)

variable {pr}
variable {st st1 st2:ExtractState} {stand stand1 stand2:Standing} {s:StateId}

theorem outgoing_addTransition_self (a b:StateId) (label:TransitionLabel)
  (ttype:TransitionType) (st:ExtractState) :
  outgoing (addTransition a b label ttype st).esTransitions a =
   ⟨a,b,label,ttype⟩::outgoing st.esTransitions a := by
 simp [outgoing,addTransition]

variable {a i b:StateId} {d:Deonton Resolved} {ts:List Transition}

theorem outgoing_addTransition_other (h:i ≠ a) (b:StateId)
  (label:TransitionLabel) (ttype:TransitionType) (st:ExtractState) :
  outgoing (addTransition a b label ttype st).esTransitions i=outgoing st.esTransitions i := by
 simp [outgoing,addTransition,Ne.symm h]

theorem NodeDrawn.mono
  (h:NodeDrawn pr stand s d ts) (hstand:∀ tr ∈ ts, stand2 tr.transTo=stand tr.transTo) :
  NodeDrawn pr stand2 s d ts := by
 obtain ⟨th,hth,hts⟩:=h
 cases hl:lestDrawn d with
 | none=>
  simp only [hl] at hts
  subst hts
  refine ⟨th,(hstand _ List.mem_cons_self).trans hth, ?_⟩
  simp only [hl]
 | some p=>
  obtain ⟨label,next⟩:=p
  simp only [hl] at hts
  obtain ⟨tl,htl,rfl⟩:=hts
  refine ⟨th,(hstand _ (List.mem_cons_of_mem _ List.mem_cons_self)).trans hth, ?_⟩
  simp only [hl]
  exact ⟨tl,(hstand _ List.mem_cons_self).trans htl,rfl⟩

theorem mem_outgoing {tr:Transition} (h:tr ∈ outgoing ts s) :
  tr ∈ ts ∧ tr.transFrom=s := by
 simpa [outgoing] using h

theorem Grows.trans (h1:Grows pr st st1 stand stand1 s) (h2:Grows pr st1 st2 stand1 stand2 s)
  (hs:s < st.esNextId) : Grows pr st st2 stand stand2 s where
 drawing:=h2.drawing
 le:=h1.le.trans h2.le
 keeps i hi := (h2.keeps i (hi.trans_le h1.le)).trans (h1.keeps i hi)
 frame i hi hne := (h2.frame i (hi.trans_le h1.le) hne).trans (h1.frame i hi hne)
 closed i hi d hd := by
  by_cases hlt:i < st1.esNextId
  · have hne:i ≠ s:=(hs.trans_le hi).ne'
    rw [h2.keeps i hlt] at hd
    rw [h2.frame i hlt hne]
    refine (h1.closed i hi d hd).mono fun tr htr=>?_
    exact h2.keeps _ (h1.drawing.ends tr (mem_outgoing htr).1).2
  · exact h2.closed i (Nat.le_of_not_lt hlt) d hd

theorem Drawing.addTransition (h:Drawing st stand) (ha:a < st.esNextId)
  (hb:b < st.esNextId) (label:TransitionLabel) (ttype:TransitionType) :
  Drawing (addTransition a b label ttype st) stand where
 ids:=h.ids
 ends tr htr := by
  rcases List.mem_cons.1 htr with rfl | htr
  · exact ⟨ha,hb⟩
  · exact h.ends tr htr
 types:=h.types
 beyond:=h.beyond

theorem Grows.addTransition (h:Grows pr st st1 stand stand1 s) (hs:s < st.esNextId)
  (hb:b < st1.esNextId) (label:TransitionLabel) (ttype:TransitionType) :
  Grows pr st (addTransition s b label ttype st1) stand stand1 s where
 drawing:=h.drawing.addTransition (hs.trans_le h.le) hb label ttype
 le:=h.le
 keeps:=h.keeps
 frame i hi hne := (outgoing_addTransition_other hne b label ttype st1).trans (h.frame i hi hne)
 closed i hi d hd := by
  rw [outgoing_addTransition_other (hs.trans_le hi).ne']
  exact h.closed i hi d hd

theorem Drawing.no_outgoing (h:Drawing st stand) (hi:st.esNextId ≤ i) :
  outgoing st.esTransitions i=[] := by
 refine List.filter_eq_nil_iff.2 fun tr htr=>?_
 simp only [decide_eq_true_eq]
 exact ((h.ends tr htr).1.trans_le hi).ne

theorem Drawing.newState (h:Drawing st stand) (name:String) (stype:StateType)
  (next:Option Next) (hnext:∀ t : Terminal, stype=t.type ↔ next=some (Terminal.next t)) :
  Drawing (newState name stype st).2 (Function.update stand st.esNextId next) where
 ids c hc := by
  rcases List.mem_cons.1 hc with rfl | hc
  · exact Nat.lt_succ_self _
  · exact (h.ids c hc).trans (Nat.lt_succ_self _)
 ends tr htr := by
  have:=h.ends tr htr
  exact ⟨this.1.trans (Nat.lt_succ_self _),this.2.trans (Nat.lt_succ_self _)⟩
 types c hc t := by
  rcases List.mem_cons.1 hc with rfl | hc
  · rw [Function.update_self]
    exact hnext t
  · rw [Function.update_of_ne (h.ids c hc).ne]
    exact h.types c hc t
 beyond i hi := by
  have hlt:st.esNextId < i:=hi
  rw [Function.update_of_ne hlt.ne']
  exact h.beyond i hlt.le

theorem Grows.newState (pr:Printer) (h:Drawing st stand) (s:StateId) (name:String) (stype:StateType)
  (next:Option Next) (hnext:∀ t : Terminal, stype=t.type ↔ next=some (Terminal.next t))
  (hopen:∀ d, next ≠ some (.obligation d)) :
  Grows pr st (newState name stype st).2 stand (Function.update stand st.esNextId next) s where
 drawing:=h.newState name stype next hnext
 le:=Nat.le_succ _
 keeps i hi := Function.update_of_ne hi.ne _ _
 frame i hi hne := rfl
 closed i hi d hd := by
  by_cases heq:i=st.esNextId
  · rw [heq,Function.update_self] at hd
    exact absurd hd (hopen d)
  · rw [Function.update_of_ne heq,h.beyond i hi] at hd
    cases hd

theorem Grows.refl (h:Drawing st stand) (s:StateId) : Grows pr st st stand stand s where
 drawing:=h
 le:=le_rfl
 keeps _ _ := rfl
 frame _ _ _ := rfl
 closed i hi d hd := by
  rw [h.beyond i hi] at hd
  cases hd

theorem terminal_grows (pr:Printer) (h:Drawing st stand) (s:StateId) (t:Terminal) :
  ∃ stand', Grows pr st (t.state st).2 stand stand' s ∧ (t.state st).1 < (t.state st).2.esNextId ∧
   stand' (t.state st).1=some (Terminal.next t) ∧
   (t.state st).2.esTransitions=st.esTransitions := by
 unfold Terminal.state getTerminalState
 split
 · next c hfind=>
   have hc:=List.mem_of_find?_eq_some hfind
   have htype:=List.find?_some hfind
   simp only [Bool.and_eq_true,beq_iff_eq] at htype
   exact ⟨stand,.refl h s,h.ids c hc,(h.types c hc t).1 htype.2,rfl⟩
 · refine ⟨_,Grows.newState pr h s t.name t.type (some (Terminal.next t)) (fun t' =>?_)
    (fun d=>?_),Nat.lt_succ_self _,Function.update_self ..,rfl⟩
   · cases t <;> cases t' <;> simp [Terminal.type,Terminal.next]
   · cases t <;> simp [Terminal.next]

structure Goes (pr:Printer) (st st' : ExtractState) (stand stand' : Standing) (s:StateId)
  (label:TransitionLabel) (ttype:TransitionType) (next:Option Next) : Prop
  extends Grows pr st st' stand stand' s where
 goes : ∃ t, t < st'.esNextId ∧ stand' t=next ∧
  outgoing st'.esTransitions s=⟨s,t,label,ttype⟩::outgoing st.esTransitions s

theorem link_goes (h:Drawing st stand) (hs:s < st.esNextId) (t:Terminal)
  (label:TransitionLabel) (ttype:TransitionType) :
  ∃ stand', Goes pr st (t.link s label ttype st) stand stand' s label ttype
   (some (Terminal.next t)) := by
 obtain ⟨stand', hgrows,hlt,hstand,hts⟩:=terminal_grows pr h s t
 refine ⟨stand', hgrows.addTransition hs hlt label ttype,(t.state st).1,hlt,hstand, ?_⟩
 unfold Terminal.link
 rw [outgoing_addTransition_self,hts]

theorem intermediate_ne (next:Option Next) (hnext:∀ t : Terminal, next ≠ some (Terminal.next t))
  (t:Terminal) : StateType.intermediateState=t.type ↔ next=some (Terminal.next t) :=
 ⟨fun h=>(by cases t <;> cases h),fun h=>absurd h (hnext t)⟩

theorem isFulfilled_fulfilName {n:Resolved} (ho:n.getOriginal=fulfilName) :
  isFulfilled n=false := by
 unfold isFulfilled resolvedToText
 rw [ho]
 decide

theorem other_goes (h:Drawing st stand) (hs:s < st.esNextId) (name:String)
  (label:TransitionLabel) (ttype:TransitionType) :
  ∃ stand', Goes pr st
   (addTransition s st.esNextId label ttype (newState name .intermediateState st).2)
   stand stand' s label ttype none := by
 have hgrows:=Grows.newState pr h s name .intermediateState none
  (intermediate_ne none (by simp)) (by simp)
 refine ⟨_,hgrows.addTransition hs (Nat.lt_succ_self _) label ttype,st.esNextId,
  Nat.lt_succ_self _,Function.update_self .., ?_⟩
 rw [outgoing_addTransition_self]
 rfl

def DrawsTarget (pr:Printer) (e:Expr Resolved) : Prop :=
 ∀ (st:ExtractState) (stand:Standing) (s:StateId) (label:TransitionLabel)
  (ttype:TransitionType) (otherName:String), Drawing st stand → s < st.esNextId →
  ∃ stand', Goes pr st (extractTarget pr s label ttype otherName e st) stand stand' s label ttype
   (targetOf e)

theorem Goes.node {stand' : Standing} {st' : ExtractState}
  (h:Goes pr st st' stand stand' s (deontonLabel pr d) .henceTransition (henceDrawn d))
  (hnone:outgoing st.esTransitions s=[]) (hl:lestDrawn d=none) :
  NodeDrawn pr stand' s d (outgoing st'.esTransitions s) := by
 obtain ⟨th,hlt,hth,hts⟩:=h.goes
 refine ⟨th,hth, ?_⟩
 rw [hts,hnone]
 simp only [hl]

theorem Goes.node_lest {label:TransitionLabel} {next:Option Next}
  (h1:Goes pr st st1 stand stand1 s (deontonLabel pr d) .henceTransition (henceDrawn d))
  (h2:Goes pr st1 st2 stand1 stand2 s label .lestTransition next) (hs:s < st.esNextId)
  (hnone:outgoing st.esTransitions s=[]) (hl:lestDrawn d=some (label,next)) :
  Grows pr st st2 stand stand2 s ∧ NodeDrawn pr stand2 s d (outgoing st2.esTransitions s) := by
 obtain ⟨th,hlt,hth,hts⟩:=h1.goes
 obtain ⟨tl,hltl,htl,hts2⟩:=h2.goes
 refine ⟨h1.toGrows.trans h2.toGrows hs,th,(h2.keeps th hlt).trans hth, ?_⟩
 rw [hts2,hts,hnone]
 simp only [hl]
 exact ⟨tl,htl,rfl⟩

/-- What becomes of an obligation in time is drawn first, and what becomes of a late one after. -/
theorem deonton_hence {party:Expr Resolved} {action:RAction Resolved}
  {due hence lest:Option (Expr Resolved)}
  (hh:∀ e, hence=some e → DrawsTarget pr e) (h:Drawing st stand) (hs:s < st.esNextId)
  (hd:Deonton.mkDeonton party action due hence lest=d) :
  ∃ st1 stand1, Goes pr st st1 stand stand1 s (deontonLabel pr d) .henceTransition
   (henceDrawn d) ∧ extractDeonton pr (some s) d st =
    match lest with
    | some e=>extractTarget pr s timeout .lestTransition "failure" e st1
    | none=>
     match action.modal with
     | .dMay=>st1
     | .dMust=>Terminal.breach.link s timeout .lestTransition st1
     | .dMustNot=>Terminal.breach.link s violation .lestTransition st1
     | .dDo=>st1 := by
 subst hd
 cases hence with
 | some e=>
  obtain ⟨stand1,hgoes⟩:=hh e rfl st stand s
   (deontonLabel pr (.mkDeonton party action due (some e) lest)) .henceTransition "next" h hs
  exact ⟨_,stand1,hgoes,by cases lest <;> rfl⟩
 | none=>
  obtain ⟨stand1,hgoes⟩:=link_goes h hs .fulfilled
   (deontonLabel pr (.mkDeonton party action due none lest)) .henceTransition
  exact ⟨_,stand1,hgoes,by cases lest <;> rfl⟩

theorem deonton_grows (hh:∀ e, d.hence=some e → DrawsTarget pr e)
  (hl:∀ e, d.lest=some e → DrawsTarget pr e) (h:Drawing st stand) (hs:s < st.esNextId)
  (hnone:outgoing st.esTransitions s=[]) :
  ∃ stand', Grows pr st (extractDeonton pr (some s) d st) stand stand' s ∧
   NodeDrawn pr stand' s d (outgoing (extractDeonton pr (some s) d st).esTransitions s) := by
 obtain ⟨party,action,due,hence,lest⟩:=d
 generalize hd:Deonton.mkDeonton party action due hence lest=d at hh hl ⊢
 obtain ⟨st1,stand1,h1,heq⟩:=deonton_hence (by subst hd; exact hh) h hs hd
 have hs1:s < st1.esNextId:=hs.trans_le h1.le
 rw [heq]
 cases lest with
 | some e=>
  have hlest:lestDrawn d=some (timeout,targetOf e):=by subst hd; rfl
  obtain ⟨stand2,h2⟩:=hl e (by subst hd; rfl) st1 stand1 s timeout .lestTransition "failure"
   h1.drawing hs1
  exact ⟨stand2,h1.node_lest h2 hs hnone hlest⟩
 | none=>
  cases hm:action.modal with
  | dMay | dDo=>
   have hlest:lestDrawn d=none:=by subst hd; simp only [lestDrawn,Deonton.lest,Deonton.action,hm]
   exact ⟨stand1,h1.toGrows,h1.node hnone hlest⟩
  | dMust=>
   have hlest:lestDrawn d=some (timeout,some .breach):=by
    subst hd
    simp only [lestDrawn,Deonton.lest,Deonton.action,hm]
   obtain ⟨stand2,h2⟩:=link_goes h1.drawing hs1 .breach timeout .lestTransition
   exact ⟨stand2,h1.node_lest h2 hs hnone hlest⟩
  | dMustNot=>
   have hlest:lestDrawn d=some (violation,some .breach):=by
    subst hd
    simp only [lestDrawn,Deonton.lest,Deonton.action,hm]
   obtain ⟨stand2,h2⟩:=link_goes h1.drawing hs1 .breach violation .lestTransition
   exact ⟨stand2,h1.node_lest h2 hs hnone hlest⟩

theorem sequenced_drawsTarget (pr:Printer) {e:Expr Resolved} (he:Sequenced e) :
  DrawsTarget pr e := by
 induction he with
 | fulfilled n ty hu ho=>
  intro st stand s label ttype otherName h hs
  simp only [extractTarget,targetOf,isFulfilled_fulfilName ho]
  exact other_goes h hs otherName label ttype
 | breach party reason=>
  intro st stand s label ttype otherName h hs
  exact link_goes h hs .breach label ttype
 | regulative d _ _ ihh ihl=>
  intro st stand s label ttype otherName h hs
  have hnew:=h.newState (describeDeonton pr d) .intermediateState (some (.obligation d))
   (intermediate_ne _ fun t=>by cases t <;> simp [Terminal.next])
  have hlt:s < (newState (describeDeonton pr d) .intermediateState st).2.esNextId:=
   hs.trans (Nat.lt_succ_self _)
  have hdrawn:=hnew.addTransition hlt (Nat.lt_succ_self st.esNextId) label ttype
  have hnone:outgoing (addTransition s st.esNextId label ttype
    (newState (describeDeonton pr d) .intermediateState st).2).esTransitions
     st.esNextId=[] := by
   rw [outgoing_addTransition_other hs.ne']
   exact h.no_outgoing le_rfl
  obtain ⟨stand', hgrows,hnode⟩:=deonton_grows ihh ihl hdrawn
   (Nat.lt_succ_self _) hnone
  refine ⟨stand', ⟨hgrows.drawing,(Nat.le_succ _).trans hgrows.le,fun i hi=>?_,
   fun i hi hne=>?_,fun i hi d' hd' =>?_⟩,st.esNextId, ?_, ?_, ?_⟩
  · rw [hgrows.keeps i (hi.trans (Nat.lt_succ_self _)),Function.update_of_ne hi.ne]
  · refine (hgrows.frame i (hi.trans (Nat.lt_succ_self _)) hi.ne).trans ?_
    exact outgoing_addTransition_other hne _ _ _ _
  · by_cases heq:i=st.esNextId
    · subst heq
      rw [hgrows.keeps _ (Nat.lt_succ_self _),Function.update_self] at hd'
      obtain rfl:=Next.obligation.inj (Option.some.inj hd')
      exact hnode
    · exact hgrows.closed i (Nat.lt_of_le_of_ne hi (Ne.symm heq)) d' hd'
  · exact Nat.lt_of_lt_of_le (Nat.lt_succ_self _) hgrows.le
  · rw [hgrows.keeps _ (Nat.lt_succ_self _),Function.update_self]
    rfl
  · refine (hgrows.frame s hlt hs.ne).trans ?_
    exact outgoing_addTransition_self _ _ _ _ _

theorem start_drawing (d:Deonton Resolved) :
  Drawing (newState "initial" .initialState ⟨0,[],[]⟩).2
   (Function.update (fun _=>none) 0 (some (.obligation d))) := by
 have hempty:Drawing ⟨0,[],[]⟩ fun _=>none:=⟨by simp,by simp,by simp,by simp⟩
 refine hempty.newState "initial" .initialState _ fun t=>?_
 cases t <;> simp [Terminal.type,Terminal.next]

theorem sequenced_standing (pr:Printer) (name:String)
  (hd:Sequenced (.regulative d)) :
  ∃ stand : Standing, stand 0=some (.obligation d) ∧
   (∀ s d', stand s=some (.obligation d') → NodeDrawn pr stand s d'
    (outgoing (runExtraction pr name (.regulative d)).sgTransitions s).reverse) ∧
   ∀ c ∈ (runExtraction pr name (.regulative d)).sgStates, ∀ t : Terminal,
    c.stateType=t.type ↔ stand c.stateId=some (Terminal.next t) := by
 have hstart:=start_drawing d
 have hparts:(∀ e, d.hence=some e → DrawsTarget pr e) ∧
   ∀ e, d.lest=some e → DrawsTarget pr e := by
  cases hd with
  | regulative d hh hl=>
   exact ⟨fun e he=>sequenced_drawsTarget pr (hh e he),
    fun e he=>sequenced_drawsTarget pr (hl e he)⟩
 obtain ⟨stand,hgrows,hnode⟩:=deonton_grows hparts.1 hparts.2 hstart
  (Nat.lt_succ_self 0) rfl
 have hself:stand 0=some (.obligation d):=by
  rw [hgrows.keeps 0 (Nat.lt_succ_self 0),Function.update_self]
 have hrun:extractExpr pr none (.regulative d) ⟨0,[],[]⟩ =
   extractDeonton pr (some 0) d (newState "initial" .initialState ⟨0,[],[]⟩).2 := by
  obtain ⟨party,action,due,hence,lest⟩:=d
  rfl
 refine ⟨stand,hself,fun s d' hs=>?_,fun c hc=>?_⟩
 · unfold runExtraction outgoing
   rw [hrun,List.filter_reverse,List.reverse_reverse]
   by_cases h0:s=0
   · subst h0
     rw [hself] at hs
     obtain rfl:=Next.obligation.inj (Option.some.inj hs)
     exact hnode
   · exact hgrows.closed s (Nat.one_le_iff_ne_zero.2 h0) d' hs
 · unfold runExtraction at hc
   rw [hrun] at hc
   exact hgrows.drawing.types c (List.mem_reverse.1 hc)

end Drawn

section Graph
variable (g:StateGraph) (root:Deonton Resolved)

/-- The state of the graph that an obligation of the rule has. -/
inductive StateOf : StateId → Deonton Resolved → Prop where
 | initial : StateOf g.sgInitialState root
 | hence (d d' : Deonton Resolved) (tr:Transition) (h:StateOf tr.transFrom d)
   (hd:d.hence=some (.regulative d')) (htr:tr ∈ g.sgTransitions)
   (ht:tr.transType = .henceTransition) : StateOf tr.transTo d'
 | lest (d d' : Deonton Resolved) (tr:Transition) (h:StateOf tr.transFrom d)
   (hd:d.lest=some (.regulative d')) (htr:tr ∈ g.sgTransitions)
   (ht:tr.transType = .lestTransition) : StateOf tr.transTo d'

def Stands (s:StateId) : Next → Prop
 | .fulfilled=>∃ c ∈ g.sgStates, c.stateId=s ∧ c.stateType = .terminalFulfilled
 | .breach=>∃ c ∈ g.sgStates, c.stateId=s ∧ c.stateType = .terminalBreach
 | .obligation d=>StateOf g root s d

end Graph

inductive Way where
 | performance
 | deadline
 deriving DecidableEq, Repr

/-- A transition is labelled as taken on the deadline, or else on performance. -/
def wayOf (label:TransitionLabel) : Way :=
 if label=timeout then .deadline else .performance

theorem wayOf_deontonLabel (pr:Printer) (d:Deonton Resolved) :
  wayOf (deontonLabel pr d) = .performance :=
 if_neg (by simp [deontonLabel,timeout,actionLabel])

theorem wayOf_violation : wayOf violation = .performance := by decide

theorem targetOf_obligation {e:Expr Resolved} {d:Deonton Resolved}
  (h:targetOf e=some (.obligation d)) : e = .regulative d := by
 unfold targetOf at h
 split at h
 · cases h
 · rw [Next.obligation.inj (Option.some.inj h)]
 · split at h <;> cases h
 · cases h

section Rule
variable {pr:Printer} {name:String} {root d:Deonton Resolved} {s:StateId}
variable {stand:Standing} {ts:List Transition} {tr:Transition}

theorem NodeDrawn.cases (h:NodeDrawn pr stand s d ts) (htr:tr ∈ ts) :
  (tr.transType = .henceTransition ∧ tr.transLabel=deontonLabel pr d ∧
   stand tr.transTo=henceDrawn d) ∨
  tr.transType = .lestTransition ∧
   lestDrawn d=some (tr.transLabel,stand tr.transTo) := by
 obtain ⟨th,hth,hts⟩:=h
 cases hl:lestDrawn d with
 | none=>
  simp only [hl] at hts
  subst hts
  obtain rfl:=List.mem_singleton.1 htr
  exact .inl ⟨rfl,rfl,hth⟩
 | some p=>
  obtain ⟨label,next⟩:=p
  simp only [hl] at hts
  obtain ⟨tl,htl,rfl⟩:=hts
  rcases List.mem_cons.1 htr with rfl | htr
  · exact .inr ⟨rfl,by rw [htl]⟩
  · obtain rfl:=List.mem_singleton.1 htr
    exact .inl ⟨rfl,rfl,hth⟩

theorem NodeDrawn.hence (h:NodeDrawn pr stand s d ts) :
  ∃ tr ∈ ts, tr.transType = .henceTransition ∧ tr.transLabel=deontonLabel pr d ∧
   stand tr.transTo=henceDrawn d := by
 obtain ⟨th,hth,hts⟩:=h
 cases hl:lestDrawn d with
 | none=>
  simp only [hl] at hts
  subst hts
  exact ⟨_,List.mem_cons_self,rfl,rfl,hth⟩
 | some p=>
  simp only [hl] at hts
  obtain ⟨tl,htl,rfl⟩:=hts
  exact ⟨_,List.mem_cons_of_mem _ List.mem_cons_self,rfl,rfl,hth⟩

theorem NodeDrawn.lest {label:TransitionLabel} {next:Option Next}
  (h:NodeDrawn pr stand s d ts) (hl:lestDrawn d=some (label,next)) :
  ∃ tr ∈ ts, tr.transType = .lestTransition ∧ tr.transLabel=label ∧
   stand tr.transTo=next := by
 obtain ⟨th,hth,hts⟩:=h
 simp only [hl] at hts
 obtain ⟨tl,htl,rfl⟩:=hts
 exact ⟨_,List.mem_cons_self,rfl,rfl,htl⟩

variable {d': Deonton Resolved}

theorem henceDrawn_obligation
  (h:henceDrawn d=some (.obligation d')) : d.hence=some (.regulative d') := by
 unfold henceDrawn at h
 split at h
 · next e he=>rw [he,targetOf_obligation h]
 · cases h

theorem lestDrawn_obligation {label:TransitionLabel}
  (h:lestDrawn d=some (label,some (.obligation d'))) : d.lest=some (.regulative d') := by
 unfold lestDrawn at h
 split at h
 · next e he=>rw [he,targetOf_obligation (Prod.mk.inj (Option.some.inj h)).2]
 · split at h <;> cases h

theorem mem_reverse_outgoing {ts:List Transition} :
  tr ∈ (outgoing ts s).reverse ↔ tr ∈ ts ∧ tr.transFrom=s := by
 simp [outgoing]

theorem stateOf_drawn (pr:Printer) (name:String) (hroot:Sequenced (.regulative root))
  (hs:StateOf (runExtraction pr name (.regulative root)) root s d) :
  ∃ stand : Standing, NodeDrawn pr stand s d
   (outgoing (runExtraction pr name (.regulative root)).sgTransitions s).reverse ∧
   ∀ tr ∈ (runExtraction pr name (.regulative root)).sgTransitions, tr.transFrom=s →
    ∀ next, Stands (runExtraction pr name (.regulative root)) root tr.transTo next ↔
     stand tr.transTo=some next := by
 obtain ⟨stand,h0,hnodes,htypes⟩:=sequenced_standing pr name hroot
 have hstate:∀ s d, StateOf (runExtraction pr name (.regulative root)) root s d →
   stand s=some (.obligation d) := by
  intro s d hs
  induction hs with
  | initial=>exact h0
  | hence d d' tr _ hd htr ht ih=>
   rcases (hnodes _ d ih).cases (mem_reverse_outgoing.2 ⟨htr,rfl⟩) with ⟨-,-,hto⟩ | ⟨ht', -⟩
   · rw [hto,henceDrawn,hd]
     rfl
   · rw [ht] at ht'
     cases ht'
  | lest d d' tr _ hd htr ht ih=>
   rcases (hnodes _ d ih).cases (mem_reverse_outgoing.2 ⟨htr,rfl⟩) with ⟨ht', -⟩ | ⟨-,hto⟩
   · rw [ht] at ht'
     cases ht'
   · rw [lestDrawn,hd] at hto
     exact (Prod.mk.inj (Option.some.inj hto)).2.symm
 have hnode:=hnodes s d (hstate s d hs)
 refine ⟨stand,hnode, ?_⟩
 rintro tr htr rfl next
 obtain ⟨c,hc,hid⟩:=
  ((runExtraction_endpoints_distinct pr (.regulative root) name).1 tr htr).2
 have hterminal:∀ t : Terminal,
   (∃ c ∈ (runExtraction pr name (.regulative root)).sgStates, c.stateId=tr.transTo ∧
    c.stateType=t.type) ↔ stand tr.transTo=some (Terminal.next t) := by
  intro t
  constructor
  · rintro ⟨c', hc', hid', htype⟩
    rw [←hid']
    exact (htypes c' hc' t).1 htype
  · intro hst
    exact ⟨c,hc,hid,(htypes c hc t).2 (hid ▸ hst)⟩
 cases next with
 | fulfilled=>exact hterminal .fulfilled
 | breach=>exact hterminal .breach
 | obligation d' =>
  refine ⟨hstate tr.transTo d', fun hst=>?_⟩
  rcases hnode.cases (mem_reverse_outgoing.2 ⟨htr,rfl⟩) with ⟨ht,-,hto⟩ | ⟨ht,hto⟩
  · exact .hence d d' tr hs (henceDrawn_obligation (hto.symm.trans hst)) htr ht
  · rw [hst] at hto
    exact .lest d d' tr hs (lestDrawn_obligation hto) htr ht

def Draws (d:Deonton Resolved) (w:Way) (next:Option Next) : Prop :=
 (w = .performance ∧ henceDrawn d=next) ∨
  ∃ label, lestDrawn d=some (label,next) ∧ w=wayOf label

theorem draws_iff (pr:Printer) (name:String) (hroot:Sequenced (.regulative root))
  (hs:StateOf (runExtraction pr name (.regulative root)) root s d) :
  (∀ w next, (∃ tr ∈ (runExtraction pr name (.regulative root)).sgTransitions,
    tr.transFrom=s ∧ wayOf tr.transLabel=w ∧
    Stands (runExtraction pr name (.regulative root)) root tr.transTo next) ↔
   Draws d w (some next)) ∧
  ((∀ tr ∈ (runExtraction pr name (.regulative root)).sgTransitions, tr.transFrom=s →
    ∃ next, Stands (runExtraction pr name (.regulative root)) root tr.transTo next) ↔
   ∀ w, ¬ Draws d w none) := by
 obtain ⟨stand,hnode,hstands⟩:=stateOf_drawn pr name hroot hs
 have hdraws:∀ w next, (∃ tr ∈ (runExtraction pr name (.regulative root)).sgTransitions,
   tr.transFrom=s ∧ wayOf tr.transLabel=w ∧ stand tr.transTo=next) ↔ Draws d w next := by
  intro w next
  constructor
  · rintro ⟨tr,htr,hfrom,rfl,hto⟩
    rcases hnode.cases (mem_reverse_outgoing.2 ⟨htr,hfrom⟩) with ⟨-,hlabel,h⟩ | ⟨-,h⟩
    · exact .inl ⟨by rw [hlabel,wayOf_deontonLabel],h ▸ hto⟩
    · exact .inr ⟨tr.transLabel,by rw [h,hto],rfl⟩
  · rintro (⟨rfl,hnext⟩ | ⟨label,hl,rfl⟩)
    · obtain ⟨tr,htr,-,hlabel,hto⟩:=hnode.hence
      obtain ⟨htr,hfrom⟩:=mem_reverse_outgoing.1 htr
      exact ⟨tr,htr,hfrom,by rw [hlabel,wayOf_deontonLabel],hto.trans hnext⟩
    · obtain ⟨tr,htr,-,hlabel,hto⟩:=hnode.lest hl
      obtain ⟨htr,hfrom⟩:=mem_reverse_outgoing.1 htr
      exact ⟨tr,htr,hfrom,by rw [hlabel],hto⟩
 constructor
 · intro w next
   rw [←hdraws]
   constructor
   · rintro ⟨tr,htr,hfrom,hw,hst⟩
     exact ⟨tr,htr,hfrom,hw,(hstands tr htr hfrom next).1 hst⟩
   · rintro ⟨tr,htr,hfrom,hw,hst⟩
     exact ⟨tr,htr,hfrom,hw,(hstands tr htr hfrom next).2 hst⟩
 · constructor
   · intro hall w hw
     obtain ⟨tr,htr,hfrom,-,hto⟩:=(hdraws w none).2 hw
     obtain ⟨next,hnext⟩:=hall tr htr hfrom
     rw [(hstands tr htr hfrom next).1 hnext] at hto
     cases hto
   · intro hnone tr htr hfrom
     cases hto:stand tr.transTo with
     | none=>exact absurd ((hdraws _ none).1 ⟨tr,htr,hfrom,rfl,hto⟩) (hnone _)
     | some next=>exact ⟨next,(hstands tr htr hfrom next).2 hto⟩

end Rule

end L4Ide.StateGraphDrawing
