import L4Ide.StateGraphExtraction
import Mathlib.Data.List.Nodup
import Mathlib.Data.List.Range
import Mathlib.Logic.Relation

set_option autoImplicit false

/-!
# Reachability in extracted state graphs

The builder keeps its ids distinct, its transitions between known states, and
every intermediate state reachable from an entry. Entries are never the target
of a transition, so the whole graph is reachable from its first state exactly
when there is one entry, it comes first, and no terminal is left without a
transition into it.
-/
namespace L4Ide.StateGraphReachability
open Syntax StateGraphExtraction

def Edge (ts:List Transition) (a b:StateId) : Prop :=
 ∃ tr ∈ ts, tr.transFrom=a ∧ tr.transTo=b

def Reaches (ts:List Transition) : StateId → StateId → Prop :=
 Relation.ReflTransGen (Edge ts)

structure Sound (g:StateGraph) : Prop where
 reachable : ∀ c ∈ g.sgStates, Reaches g.sgTransitions g.sgInitialState c.stateId
 endpoints : ∀ tr ∈ g.sgTransitions, (∃ c ∈ g.sgStates, c.stateId=tr.transFrom) ∧
  ∃ c ∈ g.sgStates, c.stateId=tr.transTo
 distinct : (g.sgStates.map (·.stateId)).Nodup

/-! ## What an expression holds -/

mutual

/-- A terminal that stands where an obligation could, with no transition of its own. -/
def looseExpr (t:Terminal) : Expr Resolved → Bool
 | .regulative obl=>looseDeonton t obl
 | .rAnd e1 e2=>looseExpr t e1 || looseExpr t e2
 | .rOr e1 e2=>looseExpr t e1 || looseExpr t e2
 | .where_ e _=>looseExpr t e
 | .letIn _ e=>looseExpr t e
 | .app name [] _=>isFulfilled name && t == .fulfilled
 | .breach _ _=>t == .breach
 | _=>false

def looseDeonton (t:Terminal) : Deonton Resolved → Bool
 | .mkDeonton _ _ _ hence lest=>
  (match hence with
   | some e=>looseTarget t e
   | none=>false) ||
  match lest with
   | some e=>looseTarget t e
   | none=>false

def looseTarget (t:Terminal) : Expr Resolved → Bool
 | .regulative obl=>looseDeonton t obl
 | .rAnd e1 e2=>looseExpr t e1 || looseExpr t e2
 | .rOr e1 e2=>looseExpr t e1 || looseExpr t e2
 | .where_ e _=>looseTarget t e
 | .letIn _ e=>looseTarget t e
 | _=>false

end

mutual

def linkedExpr (t:Terminal) : Expr Resolved → Bool
 | .regulative obl=>linkedDeonton t obl
 | .rAnd e1 e2=>linkedExpr t e1 || linkedExpr t e2
 | .rOr e1 e2=>linkedExpr t e1 || linkedExpr t e2
 | .where_ e _=>linkedExpr t e
 | .letIn _ e=>linkedExpr t e
 | _=>false

def linkedDeonton (t:Terminal) : Deonton Resolved → Bool
 | .mkDeonton _ action _ hence lest=>
  (match hence with
   | some e=>linkedTarget t e
   | none=>t == .fulfilled) ||
  match lest with
   | some e=>linkedTarget t e
   | none=>t == .breach && (action.modal == .dMust || action.modal == .dMustNot)

def linkedTarget (t:Terminal) : Expr Resolved → Bool
 | .regulative obl=>linkedDeonton t obl
 | .rAnd e1 e2=>linkedExpr t e1 || linkedExpr t e2
 | .rOr e1 e2=>linkedExpr t e1 || linkedExpr t e2
 | .where_ e _=>linkedTarget t e
 | .letIn _ e=>linkedTarget t e
 | .app name [] _=>isFulfilled name && t == .fulfilled
 | .breach _ _=>t == .breach
 | _=>false

end

def obligations : Expr Resolved → ℕ
 | .regulative _=>1
 | .rAnd e1 e2=>obligations e1+obligations e2
 | .rOr e1 e2=>obligations e1+obligations e2
 | .where_ e _=>obligations e
 | .letIn _ e=>obligations e
 | _=>0

inductive Root where
 | obligation
 | terminal (t:Terminal)
 deriving DecidableEq, Repr

def firstRoot : Expr Resolved → Option Root
 | .regulative _=>some .obligation
 | .rAnd e1 e2=>(firstRoot e1).or (firstRoot e2)
 | .rOr e1 e2=>(firstRoot e1).or (firstRoot e2)
 | .where_ e _=>firstRoot e
 | .letIn _ e=>firstRoot e
 | .app name [] _=>if isFulfilled name then some (.terminal .fulfilled) else none
 | .breach _ _=>some (.terminal .breach)
 | _=>none

def OneEntry (e:Expr Resolved) : Prop :=
 match firstRoot e with
 | none=>True
 | some .obligation=>obligations e=1 ∧ ∀ t, looseExpr t e=true → linkedExpr t e=true
 | some (.terminal t)=>obligations e=0 ∧ ∀ t', looseExpr t' e=true → t' = t

/-! ## The invariant of the builder -/

def Live (st:ExtractState) (s:StateId) : Prop :=
 ∃ c ∈ st.esStates, c.stateId=s ∧
  (c.stateType = .initialState ∨ c.stateType = .intermediateState)

def HasTerminal (st:ExtractState) (t:Terminal) : Prop :=
 ∃ c ∈ st.esStates, c.stateType=t.type

def Linked (st:ExtractState) (t:Terminal) : Prop :=
 ∃ tr ∈ st.esTransitions, ∃ c ∈ st.esStates, c.stateId=tr.transTo ∧ c.stateType=t.type

def entries (st:ExtractState) : List ContractState :=
 st.esStates.filter (·.stateType == .initialState)

structure Core (st:ExtractState) : Prop where
 ids : st.esStates.map (·.stateId)=(List.range st.esNextId).reverse
 source : ∀ tr ∈ st.esTransitions, Live st tr.transFrom
 target : ∀ tr ∈ st.esTransitions, ∃ c ∈ st.esStates,
  c.stateId=tr.transTo ∧ c.stateType ≠ .initialState
 named : ∀ t : Terminal, ∀ c ∈ st.esStates, c.stateType=t.type → c.stateName=t.name
 shared : ∀ t : Terminal, ∀ c ∈ st.esStates, ∀ c' ∈ st.esStates,
  c.stateType=t.type → c'.stateType=t.type → c=c'

structure Inv (st:ExtractState) : Prop extends Core st where
 reached : ∀ c ∈ st.esStates, c.stateType = .intermediateState →
  ∃ i ∈ st.esStates, i.stateType = .initialState ∧ Reaches st.esTransitions i.stateId c.stateId

/-- What a part of the extraction did: which terminals it brought in, which of
    them it went to, and how many entries it made. -/
structure Extracts (st st' : ExtractState) (present linked:Terminal → Prop) (n:ℕ) : Prop where
 inv : Inv st'
 states : st.esStates ⊆ st'.esStates
 hasTerminal : ∀ t, HasTerminal st' t ↔ HasTerminal st t ∨ present t
 linked : ∀ t, Linked st' t ↔ Linked st t ∨ linked t
 entries : (entries st').length=(entries st).length+n

variable {a b s:StateId} {st st' : ExtractState} {c:ContractState}

theorem Reaches.mono {ts us:List Transition} (h:ts ⊆ us)
  (hr:Reaches ts a b) : Reaches us a b := by
 have hedge:∀ c d, Edge ts c d → Edge us c d:=by
  rintro c d ⟨tr,htr,hfrom,hto⟩
  exact ⟨tr,h htr,hfrom,hto⟩
 exact Relation.ReflTransGen.mono hedge a b hr

theorem Reaches.eq_or_edge {ts:List Transition} (h:Reaches ts a b) :
  b=a ∨ ∃ tr ∈ ts, tr.transTo=b := by
 rcases Relation.ReflTransGen.cases_tail h with heq | ⟨c,_,tr,htr,_,hto⟩
 · exact Or.inl heq
 · exact Or.inr ⟨tr,htr,hto⟩

theorem Live.mono (h:st.esStates ⊆ st'.esStates) (hs:Live st s) : Live st' s := by
 obtain ⟨c,hc,hid,htype⟩:=hs
 exact ⟨c,h hc,hid,htype⟩

theorem Extracts.refl (hinv:Inv st) :
  Extracts st st (fun _=>False) (fun _=>False) 0 where
 inv:=hinv
 states:=List.Subset.refl _
 hasTerminal _ := (iff_of_eq (or_false _)).symm
 linked _ := (iff_of_eq (or_false _)).symm
 entries:=rfl

theorem Extracts.trans {st1 st2:ExtractState} {p1 p2 l1 l2:Terminal → Prop} {n1 n2:ℕ}
  (h1:Extracts st st1 p1 l1 n1) (h2:Extracts st1 st2 p2 l2 n2) :
  Extracts st st2 (fun t=>p1 t ∨ p2 t) (fun t=>l1 t ∨ l2 t) (n1+n2) where
 inv:=h2.inv
 states:=List.Subset.trans h1.states h2.states
 hasTerminal t := by rw [h2.hasTerminal,h1.hasTerminal,or_assoc]
 linked t := by rw [h2.linked,h1.linked,or_assoc]
 entries:=by rw [h2.entries,h1.entries,Nat.add_assoc]

theorem Extracts.congr {p q l k:Terminal → Prop} {n m:ℕ}
  (h:Extracts st st' p l n) (hp:∀ t, p t ↔ q t) (hl:∀ t, l t ↔ k t) (hn:n=m) :
  Extracts st st' q k m where
 inv:=h.inv
 states:=h.states
 hasTerminal t := by rw [h.hasTerminal,hp]
 linked t := by rw [h.linked,hl]
 entries:=by rw [h.entries,hn]

theorem Core.lt_nextId (h:Core st) (hc:c ∈ st.esStates) : c.stateId < st.esNextId := by
 have hmem:c.stateId ∈ st.esStates.map (·.stateId):=List.mem_map_of_mem hc
 rwa [h.ids,List.mem_reverse,List.mem_range] at hmem

theorem Core.nodup (h:Core st) : (st.esStates.map (·.stateId)).Nodup := by
 rw [h.ids,List.nodup_reverse]
 exact List.nodup_range

theorem Core.eq_of_stateId (h:Core st) {d:ContractState}
  (hc:c ∈ st.esStates) (hd:d ∈ st.esStates) (heq:c.stateId=d.stateId) : c=d :=
 List.inj_on_of_nodup_map h.nodup hc hd heq

/-! ## What each operation of the builder does -/

theorem hasTerminal_newState (name:String) (stype:StateType) (st:ExtractState)
  (t:Terminal) :
  HasTerminal (newState name stype st).2 t ↔ stype=t.type ∨ HasTerminal st t := by
 simp [HasTerminal,newState]

theorem linked_newState (h:Core st) (name:String) (stype:StateType)
  (t:Terminal) : Linked (newState name stype st).2 t ↔ Linked st t := by
 constructor
 · rintro ⟨tr,htr,c,hc,hid,htype⟩
   obtain ⟨d,hd,hdid,_⟩:=h.target tr htr
   rcases List.mem_cons.1 hc with rfl | hc
   · exact absurd (hdid.trans hid.symm) (h.lt_nextId hd).ne
   · exact ⟨tr,htr,c,hc,hid,htype⟩
 · rintro ⟨tr,htr,c,hc,hid,htype⟩
   exact ⟨tr,htr,c,List.mem_cons_of_mem _ hc,hid,htype⟩

theorem linked_addTransition (a b:StateId) (label:TransitionLabel) (ttype:TransitionType)
  (st:ExtractState) (t:Terminal) :
  Linked (addTransition a b label ttype st) t ↔
   (∃ c ∈ st.esStates, c.stateId=b ∧ c.stateType=t.type) ∨ Linked st t := by
 simp [Linked,addTransition]

theorem Core.newState (h:Core st) (name:String) (stype:StateType)
  (hterm:∀ t : Terminal, stype=t.type → name=t.name ∧ ¬HasTerminal st t) :
  Core (newState name stype st).2 where
 ids := by
  simp only [StateGraphExtraction.newState,List.map_cons,List.range_succ,List.reverse_append,
   List.reverse_singleton,h.ids,List.singleton_append]
 source tr htr := (h.source tr htr).mono (List.subset_cons_self _ _)
 target tr htr := by
  obtain ⟨c,hc,hid,htype⟩:=h.target tr htr
  exact ⟨c,List.mem_cons_of_mem _ hc,hid,htype⟩
 named t c hc htype := by
  rcases List.mem_cons.1 hc with rfl | hc
  · exact (hterm t htype).1
  · exact h.named t c hc htype
 shared t c hc c' hc' htype htype' := by
  rcases List.mem_cons.1 hc with rfl | hc <;> rcases List.mem_cons.1 hc' with rfl | hc'
  · rfl
  · exact absurd ⟨c', hc', htype'⟩ (hterm t htype).2
  · exact absurd ⟨c,hc,htype⟩ (hterm t htype').2
  · exact h.shared t c hc c' hc' htype htype'

theorem Inv.newState (h:Inv st) (name:String) (stype:StateType)
  (hterm:∀ t : Terminal, stype=t.type → name=t.name ∧ ¬HasTerminal st t)
  (hreach:stype ≠ .intermediateState) : Inv (newState name stype st).2 where
 toCore:=h.toCore.newState name stype hterm
 reached c hc htype := by
  rcases List.mem_cons.1 hc with rfl | hc
  · exact absurd htype hreach
  · obtain ⟨i,hi,hitype,hr⟩:=h.reached c hc htype
    exact ⟨i,List.mem_cons_of_mem _ hi,hitype,hr⟩

theorem Core.addTransition (h:Core st) (ha:Live st a)
  (hb:∃ c ∈ st.esStates, c.stateId=b ∧ c.stateType ≠ .initialState)
  (label:TransitionLabel) (ttype:TransitionType) :
  Core (addTransition a b label ttype st) where
 ids:=h.ids
 source tr htr := by
  rcases List.mem_cons.1 htr with rfl | htr
  · exact ha
  · exact h.source tr htr
 target tr htr := by
  rcases List.mem_cons.1 htr with rfl | htr
  · exact hb
  · exact h.target tr htr
 named:=h.named
 shared:=h.shared

theorem Inv.addTransition (h:Inv st) (ha:Live st a)
  (hb:∃ c ∈ st.esStates, c.stateId=b ∧ c.stateType ≠ .initialState)
  (label:TransitionLabel) (ttype:TransitionType) :
  Inv (addTransition a b label ttype st) where
 toCore:=h.toCore.addTransition ha hb label ttype
 reached c hc htype := by
  obtain ⟨i,hi,hitype,hr⟩:=h.reached c hc htype
  exact ⟨i,hi,hitype,hr.mono (List.subset_cons_self _ _)⟩

theorem Inv.live_reached (h:Inv st) (hs:Live st s) :
  ∃ i ∈ st.esStates, i.stateType = .initialState ∧ Reaches st.esTransitions i.stateId s := by
 obtain ⟨c,hc,rfl,htype | htype⟩:=hs
 · exact ⟨c,hc,htype,Relation.ReflTransGen.refl⟩
 · exact h.reached c hc htype

theorem entry_extracts (h:Inv st) (name:String) :
  Extracts st (newState name .initialState st).2 (fun _=>False) (fun _=>False) 1 ∧
   Live (newState name .initialState st).2 st.esNextId := by
 have hterm:∀ t : Terminal, StateType.initialState ≠ t.type:=by
  intro t
  cases t <;> simp [Terminal.type]
 have hinv:Inv (newState name .initialState st).2:=
  h.newState name .initialState (fun t ht=>absurd ht (hterm t)) (by simp)
 refine ⟨⟨hinv,List.subset_cons_self _ _,fun t=>?_,fun t=>?_, ?_⟩, ?_⟩
 · rw [hasTerminal_newState,or_false,or_iff_right (hterm t)]
 · rw [linked_newState h.toCore,or_false]
 · simp [entries,newState]
 · exact ⟨_,List.mem_cons_self,rfl,Or.inl rfl⟩

theorem intermediate_extracts (h:Inv st) (hs:Live st s)
  (name:String) (label:TransitionLabel) (ttype:TransitionType) :
  Extracts st (addTransition s st.esNextId label ttype (newState name .intermediateState st).2)
   (fun _=>False) (fun _=>False) 0 ∧
   Live (addTransition s st.esNextId label ttype (newState name .intermediateState st).2)
    st.esNextId := by
 have hterm:∀ t : Terminal, StateType.intermediateState ≠ t.type:=by
  intro t
  cases t <;> simp [Terminal.type]
 have hcore:=h.toCore.newState name .intermediateState (fun t ht=>absurd ht (hterm t))
 have hsub:st.esStates ⊆ (newState name .intermediateState st).2.esStates:=
  List.subset_cons_self _ _
 have hnew:∃ c ∈ (newState name .intermediateState st).2.esStates,
   c.stateId=st.esNextId ∧ c.stateType = .intermediateState :=
  ⟨_,List.mem_cons_self,rfl,rfl⟩
 have htarget:∃ c ∈ (newState name .intermediateState st).2.esStates,
   c.stateId=st.esNextId ∧ c.stateType ≠ .initialState := by
  obtain ⟨c,hc,hid,htype⟩:=hnew
  exact ⟨c,hc,hid,by rw [htype]; simp⟩
 obtain ⟨c0,hc0,hid0,htype0⟩:=hnew
 refine ⟨⟨⟨hcore.addTransition (hs.mono hsub) htarget label ttype, ?_⟩,hsub,
  fun t=>?_,fun t=>?_, ?_⟩,⟨c0,hc0,hid0,Or.inr htype0⟩⟩
 · intro c hc htype
   -- the new state is one transition after `s`
   rcases List.mem_cons.1 hc with rfl | hc
   · obtain ⟨i,hi,hitype,hr⟩:=h.live_reached hs
     have hlast:Edge (addTransition s st.esNextId label ttype
       (newState name .intermediateState st).2).esTransitions s st.esNextId :=
      ⟨_,List.mem_cons_self,rfl,rfl⟩
     exact ⟨i,hsub hi,hitype,(hr.mono (List.subset_cons_self _ _)).tail hlast⟩
   · obtain ⟨i,hi,hitype,hr⟩:=h.reached c hc htype
     exact ⟨i,hsub hi,hitype,hr.mono (List.subset_cons_self _ _)⟩
 · change HasTerminal (newState name .intermediateState st).2 t ↔ _
   rw [hasTerminal_newState,or_false,or_iff_right (hterm t)]
 · rw [linked_addTransition,linked_newState h.toCore,or_false]
   refine or_iff_right ?_
   rintro ⟨c,hc,hid,htype⟩
   have heq:=hcore.eq_of_stateId hc hc0 (hid.trans hid0.symm)
   exact hterm t (htype0.symm.trans (heq ▸ htype))
 · simp [entries,newState,addTransition]

theorem terminal_extracts (h:Inv st) (t:Terminal) :
  Extracts st (t.state st).2 (fun u=>u=t) (fun _=>False) 0 ∧
   ∃ c ∈ (t.state st).2.esStates, c.stateId=(t.state st).1 ∧ c.stateType=t.type := by
 have hinj:∀ u : Terminal, t.type=u.type ↔ u=t:=by
  intro u
  cases t <;> cases u <;> simp [Terminal.type]
 unfold Terminal.state getTerminalState
 split
 · rename_i c hfind
   have hc:=List.mem_of_find?_eq_some hfind
   have htype:c.stateType=t.type:=by
    have hpred:=List.find?_some hfind
    simp only [Bool.and_eq_true,beq_iff_eq] at hpred
    exact hpred.2
   refine ⟨⟨h,List.Subset.refl _,fun u=>?_,fun u=>(iff_of_eq (or_false _)).symm,rfl⟩,
    c,hc,rfl,htype⟩
   refine (or_iff_left_of_imp ?_).symm
   rintro rfl
   exact ⟨c,hc,htype⟩
 · rename_i hfind
   have hno:¬HasTerminal st t:=by
    rintro ⟨c,hc,htype⟩
    have hpred:=List.find?_eq_none.1 hfind c hc
    simp [htype,h.named t c hc htype] at hpred
   have hterm:∀ u : Terminal, t.type=u.type → t.name=u.name ∧ ¬HasTerminal st u:=by
    intro u hu
    rw [(hinj u).1 hu]
    exact ⟨rfl,hno⟩
   refine ⟨⟨h.newState t.name t.type hterm ?_,List.subset_cons_self _ _,fun u=>?_,
    fun u=>?_, ?_⟩,_,List.mem_cons_self,rfl,rfl⟩
   · cases t <;> simp [Terminal.type]
   · rw [hasTerminal_newState,hinj,or_comm]
   · rw [linked_newState h.toCore,or_false]
   · cases t <;> simp [entries,newState,Terminal.type]

theorem link_extracts (h:Inv st) (hs:Live st s)
  (t:Terminal) (label:TransitionLabel) (ttype:TransitionType) :
  Extracts st (t.link s label ttype st) (fun u=>u=t) (fun u=>u=t) 0 := by
 obtain ⟨hst,c,hc,hid,htype⟩:=terminal_extracts h t
 have hne:c.stateType ≠ .initialState:=by
  rw [htype]
  cases t <;> simp [Terminal.type]
 unfold Terminal.link
 refine ⟨hst.inv.addTransition (hs.mono hst.states) ⟨c,hc,hid,hne⟩ label ttype,hst.states,
  hst.hasTerminal,fun u=>?_,hst.entries⟩
 rw [linked_addTransition,hst.linked,or_false,or_comm]
 refine or_congr_right ⟨?_, ?_⟩
 · rintro ⟨d,hd,hdid,hdtype⟩
   have heq:=hst.inv.eq_of_stateId hd hc (hdid.trans hid.symm)
   rw [heq,htype] at hdtype
   cases t <;> cases u <;> first | rfl | cases hdtype
 · rintro rfl
   exact ⟨c,hc,hid,htype⟩

/-! ## The extraction -/

theorem Extracts.seq {st1 st2:ExtractState} {f g f' g' : Terminal → Bool} {n n' : ℕ}
  (h1:Extracts st st1 (fun t=>f t=true ∨ g t=true) (fun t=>g t=true) n)
  (h2:Extracts st1 st2 (fun t=>f' t=true ∨ g' t=true) (fun t=>g' t=true) n') :
  Extracts st st2 (fun t=>(f t || f' t)=true ∨ (g t || g' t)=true)
   (fun t=>(g t || g' t)=true) (n+n') := by
 refine (h1.trans h2).congr (fun t=>?_) (fun t=>?_) rfl
 · simp only [Bool.or_eq_true]
   tauto
 · simp only [Bool.or_eq_true]

theorem isFulfilled_state_extracts (h:Inv st) (name:Resolved) :
  Extracts st (if isFulfilled name then (Terminal.fulfilled.state st).2 else st)
   (fun t=>(isFulfilled name && t == .fulfilled)=true) (fun _=>False) 0 := by
 split
 · rename_i hname
   refine (terminal_extracts h .fulfilled).1.congr (fun t=>?_) (fun _=>Iff.rfl) rfl
   simp [hname]
 · rename_i hname
   refine (Extracts.refl h).congr (fun t=>?_) (fun _=>Iff.rfl) rfl
   simp [hname]

theorem intermediate_then (h:Inv st) (hs:Live st s)
  (name:String) (label:TransitionLabel) (ttype:TransitionType) {p l:Terminal → Prop}
  (hthen:Inv (addTransition s st.esNextId label ttype (newState name .intermediateState st).2) →
   Live (addTransition s st.esNextId label ttype (newState name .intermediateState st).2)
    st.esNextId →
   Extracts (addTransition s st.esNextId label ttype (newState name .intermediateState st).2)
    st' p l 0) : Extracts st st' p l 0 := by
 obtain ⟨hnew,hlive⟩:=intermediate_extracts h hs name label ttype
 exact (hnew.trans (hthen hnew.inv hlive)).congr (fun _=>iff_of_eq (false_or _))
  (fun _=>iff_of_eq (false_or _)) rfl

theorem henceDefault_extracts (h:Inv st) (hs:Live st s)
  (label:TransitionLabel) (ttype:TransitionType) :
  Extracts st (Terminal.fulfilled.link s label ttype st)
   (fun t=>false=true ∨ (t == Terminal.fulfilled)=true)
   (fun t=>(t == Terminal.fulfilled)=true) 0 :=
 (link_extracts h hs .fulfilled label ttype).congr (by simp) (by simp) rfl

theorem lestDefault_extracts (h:Inv st) (hs:Live st s) (modal:DeonticModal) :
  Extracts st
   (match modal with
    | .dMay=>st
    | .dMust=>Terminal.breach.link s (actionLabel "timeout") .lestTransition st
    | .dMustNot=>Terminal.breach.link s (actionLabel "violation") .lestTransition st
    | .dDo=>st)
   (fun t=>false=true ∨
    (t == Terminal.breach && (modal == .dMust || modal == .dMustNot))=true)
   (fun t=>(t == Terminal.breach && (modal == .dMust || modal == .dMustNot))=true) 0 := by
 cases modal with
 | dMay=>exact (Extracts.refl h).congr (by simp) (by simp) rfl
 | dMust=>exact (link_extracts h hs .breach _ _).congr (by simp) (by simp) rfl
 | dMustNot=>exact (link_extracts h hs .breach _ _).congr (by simp) (by simp) rfl
 | dDo=>exact (Extracts.refl h).congr (by simp) (by simp) rfl

theorem start_inv : Inv ⟨0,[],[]⟩ where
 ids:=rfl
 source _ h := absurd h List.not_mem_nil
 target _ h := absurd h List.not_mem_nil
 named _ _ h := absurd h List.not_mem_nil
 shared _ _ h := absurd h List.not_mem_nil
 reached _ h := absurd h List.not_mem_nil

section Run
variable (pr:Printer)
include pr

mutual

theorem extractExpr_extracts (e:Expr Resolved) {st:ExtractState} {s:StateId}
  (h:Inv st) (hs:Live st s) :
  Extracts st (extractExpr pr (some s) e st)
   (fun t=>looseExpr t e=true ∨ linkedExpr t e=true)
   (fun t=>linkedExpr t e=true) 0 := by
 cases e with
 | regulative obl=>exact extractDeonton_extracts obl h hs
 | rAnd e1 e2=>
  have h1:=extractExpr_extracts e1 h hs
  exact h1.seq (extractExpr_extracts e2 h1.inv (hs.mono h1.states))
 | rOr e1 e2=>
  have h1:=extractExpr_extracts e1 h hs
  exact h1.seq (extractExpr_extracts e2 h1.inv (hs.mono h1.states))
 | where_ e ds=>exact extractExpr_extracts e h hs
 | letIn ds e=>exact extractExpr_extracts e h hs
 | app name es ty=>
  cases es with
  | nil=>
   refine (isFulfilled_state_extracts h name).congr (fun t=>?_) (fun t=>?_) rfl
   · simp [looseExpr,linkedExpr]
   · simp [linkedExpr]
  | cons a es=>
   refine (Extracts.refl h).congr (fun t=>?_) (fun t=>?_) rfl <;>
    simp [looseExpr,linkedExpr]
 | breach party reason=>
  refine (terminal_extracts h .breach).1.congr (fun t=>?_) (fun t=>?_) rfl <;>
   simp [looseExpr,linkedExpr]
 | _=>
  refine (Extracts.refl h).congr (fun t=>?_) (fun t=>?_) rfl <;>
   simp [looseExpr,linkedExpr]

theorem extractDeonton_extracts (d:Deonton Resolved) {st:ExtractState} {s:StateId}
  (h:Inv st) (hs:Live st s) :
  Extracts st (extractDeonton pr (some s) d st)
   (fun t=>looseDeonton t d=true ∨ linkedDeonton t d=true)
   (fun t=>linkedDeonton t d=true) 0 := by
 obtain ⟨party,action,due,hence,lest⟩:=d
 cases hence with
 | some henceExpr=>
  have h1:=extractTarget_extracts henceExpr
   (deontonLabel pr (.mkDeonton party action due (some henceExpr) lest)) .henceTransition "next"
   h hs
  cases lest with
  | some lestExpr=>
   exact h1.seq (extractTarget_extracts lestExpr _ _ _ h1.inv (hs.mono h1.states))
  | none=>exact h1.seq (lestDefault_extracts h1.inv (hs.mono h1.states) action.modal)
 | none=>
  have h1:=henceDefault_extracts h hs
   (deontonLabel pr (.mkDeonton party action due none lest)) .henceTransition
  cases lest with
  | some lestExpr=>
   exact h1.seq (extractTarget_extracts lestExpr _ _ _ h1.inv (hs.mono h1.states))
  | none=>exact h1.seq (lestDefault_extracts h1.inv (hs.mono h1.states) action.modal)

theorem extractTarget_extracts (e:Expr Resolved) {st:ExtractState} {s:StateId}
  (label:TransitionLabel) (ttype:TransitionType) (otherName:String)
  (h:Inv st) (hs:Live st s) :
  Extracts st (extractTarget pr s label ttype otherName e st)
   (fun t=>looseTarget t e=true ∨ linkedTarget t e=true)
   (fun t=>linkedTarget t e=true) 0 := by
 cases e with
 | regulative obl=>
  exact intermediate_then h hs _ label ttype fun hinv hlive=>
   extractDeonton_extracts obl hinv hlive
 | rAnd e1 e2=>
  refine intermediate_then h hs otherName label ttype fun hinv hlive=>?_
  have h1:=extractExpr_extracts e1 hinv hlive
  exact h1.seq (extractExpr_extracts e2 h1.inv (hlive.mono h1.states))
 | rOr e1 e2=>
  refine intermediate_then h hs otherName label ttype fun hinv hlive=>?_
  have h1:=extractExpr_extracts e1 hinv hlive
  exact h1.seq (extractExpr_extracts e2 h1.inv (hlive.mono h1.states))
 | where_ e ds=>exact extractTarget_extracts e label ttype otherName h hs
 | letIn ds e=>exact extractTarget_extracts e label ttype otherName h hs
 | breach party reason=>
  refine (link_extracts h hs .breach _ _).congr (fun t=>?_) (fun t=>?_) rfl <;>
   simp [looseTarget,linkedTarget]
 | app name es ty=>
  cases es with
  | nil=>
   by_cases hname:isFulfilled name=true
   · simp only [extractTarget,hname,if_true]
     refine (link_extracts h hs .fulfilled _ _).congr (fun t=>?_) (fun t=>?_) rfl <;>
      simp [looseTarget,linkedTarget,hname]
   · simp only [extractTarget,hname]
     refine (intermediate_extracts h hs _ _ _).1.congr (fun t=>?_) (fun t=>?_) rfl <;>
      simp [looseTarget,linkedTarget,hname]
  | cons a es=>
   refine (intermediate_extracts h hs _ _ _).1.congr (fun t=>?_) (fun t=>?_) rfl <;>
    simp [looseTarget,linkedTarget]
 | _=>
  refine (intermediate_extracts h hs _ _ _).1.congr (fun t=>?_) (fun t=>?_) rfl <;>
   simp [looseTarget,linkedTarget]

end

/-! ## Outside every HENCE and LEST -/

theorem extractDeonton_none (d:Deonton Resolved) (st:ExtractState) :
  extractDeonton pr none d st =
   extractDeonton pr (some st.esNextId) d (newState "initial" .initialState st).2 := by
 cases d
 rfl

theorem extractExpr_none_extracts (e:Expr Resolved) {st:ExtractState} (h:Inv st) :
  Extracts st (extractExpr pr none e st)
   (fun t=>looseExpr t e=true ∨ linkedExpr t e=true)
   (fun t=>linkedExpr t e=true) (obligations e) := by
 cases e with
 | regulative obl=>
  obtain ⟨hnew,hlive⟩:=entry_extracts h "initial"
  rw [extractExpr,extractDeonton_none]
  exact (hnew.trans (extractDeonton_extracts pr obl hnew.inv hlive)).congr
   (fun _=>iff_of_eq (false_or _)) (fun _=>iff_of_eq (false_or _)) rfl
 | rAnd e1 e2=>
  have h1:=extractExpr_none_extracts e1 h
  exact h1.seq (extractExpr_none_extracts e2 h1.inv)
 | rOr e1 e2=>
  have h1:=extractExpr_none_extracts e1 h
  exact h1.seq (extractExpr_none_extracts e2 h1.inv)
 | where_ e ds=>exact extractExpr_none_extracts e h
 | letIn ds e=>exact extractExpr_none_extracts e h
 | app name es ty=>
  cases es with
  | nil=>
   refine (isFulfilled_state_extracts h name).congr (fun t=>?_) (fun t=>?_) rfl
   · simp [looseExpr,linkedExpr]
   · simp [linkedExpr]
  | cons a es=>
   refine (Extracts.refl h).congr (fun t=>?_) (fun t=>?_) rfl <;>
    simp [looseExpr,linkedExpr]
 | breach party reason=>
  refine (terminal_extracts h .breach).1.congr (fun t=>?_) (fun t=>?_) rfl <;>
   simp [looseExpr,linkedExpr]
 | _=>
  refine (Extracts.refl h).congr (fun t=>?_) (fun t=>?_) rfl <;>
   simp [looseExpr,linkedExpr]

theorem extractExpr_of_firstRoot_none (e:Expr Resolved) (st:ExtractState)
  (h:firstRoot e=none) : extractExpr pr none e st=st := by
 cases e with
 | regulative obl=>simp [firstRoot] at h
 | rAnd e1 e2=>
  obtain ⟨h1,h2⟩:=Option.or_eq_none_iff.1 h
  rw [extractExpr,extractExpr_of_firstRoot_none e1 st h1,extractExpr_of_firstRoot_none e2 st h2]
 | rOr e1 e2=>
  obtain ⟨h1,h2⟩:=Option.or_eq_none_iff.1 h
  rw [extractExpr,extractExpr_of_firstRoot_none e1 st h1,extractExpr_of_firstRoot_none e2 st h2]
 | where_ e ds=>exact extractExpr_of_firstRoot_none e st h
 | letIn ds e=>exact extractExpr_of_firstRoot_none e st h
 | app name es ty=>
  cases es with
  | nil=>
   have hname:¬isFulfilled name=true:=fun hname=>by simp [firstRoot,hname] at h
   rw [extractExpr,if_neg hname]
  | cons a es=>rfl
 | breach party reason=>simp [firstRoot] at h
 | _=>rfl

def Root.type : Root → StateType
 | .obligation=>.initialState
 | .terminal t=>t.type

theorem extractExpr_first_state (e:Expr Resolved) {r:Root} (h:firstRoot e=some r) :
  ∃ c ∈ (extractExpr pr none e ⟨0,[],[]⟩).esStates, c.stateId=0 ∧ c.stateType=r.type := by
 have seq:∀ e1 e2 : Expr Resolved, (firstRoot e1).or (firstRoot e2)=some r →
   (firstRoot e1=some r → ∃ c ∈ (extractExpr pr none e1 ⟨0,[],[]⟩).esStates,
    c.stateId=0 ∧ c.stateType=r.type) →
   (firstRoot e2=some r → ∃ c ∈ (extractExpr pr none e2 ⟨0,[],[]⟩).esStates,
    c.stateId=0 ∧ c.stateType=r.type) →
   ∃ c ∈ (extractExpr pr none e2 (extractExpr pr none e1 ⟨0,[],[]⟩)).esStates,
    c.stateId=0 ∧ c.stateType=r.type := by
  intro e1 e2 h ih1 ih2
  cases h1:firstRoot e1 with
  | none=>
   rw [extractExpr_of_firstRoot_none pr e1 _ h1]
   exact ih2 (by simpa [h1] using h)
  | some r1=>
   obtain ⟨c,hc,hid,htype⟩:=ih1 (by simpa [h1] using h)
   have hinv:=(extractExpr_none_extracts pr e1 start_inv).inv
   exact ⟨c,(extractExpr_none_extracts pr e2 hinv).states hc,hid,htype⟩
 cases e with
 | regulative obl=>
  obtain rfl : Root.obligation=r:=by simpa [firstRoot] using h
  obtain ⟨hnew,hlive⟩:=entry_extracts start_inv "initial"
  rw [extractExpr,extractDeonton_none]
  exact ⟨_,(extractDeonton_extracts pr obl hnew.inv hlive).states List.mem_cons_self,rfl,rfl⟩
 | rAnd e1 e2=>
  exact seq e1 e2 h (fun h1=>extractExpr_first_state e1 h1)
   (fun h2=>extractExpr_first_state e2 h2)
 | rOr e1 e2=>
  exact seq e1 e2 h (fun h1=>extractExpr_first_state e1 h1)
   (fun h2=>extractExpr_first_state e2 h2)
 | where_ e ds=>exact extractExpr_first_state e h
 | letIn ds e=>exact extractExpr_first_state e h
 | app name es ty=>
  cases es with
  | nil=>
   by_cases hname:isFulfilled name=true
   · obtain rfl : Root.terminal .fulfilled=r:=by simpa [firstRoot,hname] using h
     rw [extractExpr,if_pos hname]
     exact ⟨_,List.mem_cons_self,rfl,rfl⟩
   · simp [firstRoot,hname] at h
  | cons a es=>simp [firstRoot] at h
 | breach party reason=>
  obtain rfl : Root.terminal .breach=r:=by simpa [firstRoot] using h
  exact ⟨_,List.mem_cons_self,rfl,rfl⟩
 | _=>simp [firstRoot] at h

end Run

/-! ## Soundness of a graph -/

theorem linked_of_edge (hc:c ∈ st.esStates) {t:Terminal}
  (htype:c.stateType=t.type) (htr:∃ tr ∈ st.esTransitions, tr.transTo=c.stateId) :
  Linked st t := by
 obtain ⟨tr,htr,hto⟩:=htr
 exact ⟨tr,htr,c,hc,hto.symm,htype⟩

section Graph
variable {st:ExtractState} (h:Inv st)
include h

theorem Inv.entry_eq_of_reaches {c:ContractState} (hc:c ∈ st.esStates)
  (htype:c.stateType = .initialState) {a:StateId} (hr:Reaches st.esTransitions a c.stateId) :
  c.stateId=a := by
 rcases hr.eq_or_edge with heq | ⟨tr,htr,hto⟩
 · exact heq
 · obtain ⟨d,hd,hid,hne⟩:=h.target tr htr
   rw [h.eq_of_stateId hd hc (hid.trans hto)] at hne
   exact absurd htype hne

theorem Inv.entry_of_edge {tr:Transition} (htr:tr ∈ st.esTransitions) :
  ∃ i ∈ entries st, Reaches st.esTransitions i.stateId tr.transFrom := by
 obtain ⟨i,hi,hitype,hr⟩:=h.live_reached (h.source tr htr)
 exact ⟨i,List.mem_filter.2 ⟨hi,by simp [hitype]⟩,hr⟩

theorem Inv.entries_nodup : (entries st).Nodup :=
 (List.Nodup.of_map _ h.nodup).filter _

end Graph

theorem stateType_cases (c:ContractState) : c.stateType = .initialState ∨
  c.stateType = .intermediateState ∨ ∃ t : Terminal, c.stateType=t.type := by
 cases hc:c.stateType with
 | initialState=>exact Or.inl rfl
 | intermediateState=>exact Or.inr (Or.inl rfl)
 | terminalFulfilled=>exact Or.inr (Or.inr ⟨.fulfilled,rfl⟩)
 | terminalBreach=>exact Or.inr (Or.inr ⟨.breach,rfl⟩)

/-- Every state of the builder is reached when there is one entry and it has id 0,
    provided each terminal has a transition into it. -/
theorem Inv.reaches_of_entry (h:Inv st) {c0:ContractState}
  (hentries:entries st=[c0]) (hlinked:∀ t, HasTerminal st t → Linked st t) :
  ∀ c ∈ st.esStates, Reaches st.esTransitions c0.stateId c.stateId := by
 intro c hc
 have only:∀ i ∈ st.esStates, i.stateType = .initialState → i=c0:=by
  intro i hi hitype
  have hmem:i ∈ entries st:=List.mem_filter.2 ⟨hi,by simp [hitype]⟩
  rwa [hentries,List.mem_singleton] at hmem
 rcases stateType_cases c with htype | htype | ⟨t,htype⟩
 · rw [only c hc htype]
   exact Relation.ReflTransGen.refl
 · obtain ⟨i,hi,hitype,hr⟩:=h.reached c hc htype
   rwa [only i hi hitype] at hr
 · obtain ⟨tr,htr,d,hd,hid,hdtype⟩:=hlinked t ⟨c,hc,htype⟩
   have heq:d=c:=h.shared t d hd c hc hdtype htype
   obtain ⟨i,hi,hr⟩:=h.entry_of_edge htr
   rw [hentries,List.mem_singleton] at hi
   rw [←hi,←heq,hid]
   exact hr.tail ⟨tr,htr,rfl,rfl⟩

section Final
variable (pr:Printer) (e:Expr Resolved)

abbrev finalState : ExtractState := extractExpr pr none e ⟨0,[],[]⟩

theorem finalState_extracts : Extracts ⟨0,[],[]⟩ (finalState pr e)
  (fun t=>looseExpr t e=true ∨ linkedExpr t e=true)
  (fun t=>linkedExpr t e=true) (obligations e) :=
 extractExpr_none_extracts pr e start_inv

theorem finalState_hasTerminal_iff (t:Terminal) :
  HasTerminal (finalState pr e) t ↔ looseExpr t e=true ∨ linkedExpr t e=true := by
 rw [(finalState_extracts pr e).hasTerminal]
 exact or_iff_right fun ⟨_,hc,_⟩=>List.not_mem_nil hc

theorem finalState_linked_iff (t:Terminal) :
  Linked (finalState pr e) t ↔ linkedExpr t e=true := by
 rw [(finalState_extracts pr e).linked]
 exact or_iff_right fun ⟨_,htr,_⟩=>List.not_mem_nil htr

theorem finalState_entries_length : (entries (finalState pr e)).length=obligations e := by
 rw [(finalState_extracts pr e).entries]
 exact Nat.zero_add _

theorem runExtraction_endpoints_distinct (name:String) :
  (∀ tr ∈ (runExtraction pr name e).sgTransitions,
   (∃ c ∈ (runExtraction pr name e).sgStates, c.stateId=tr.transFrom) ∧
   ∃ c ∈ (runExtraction pr name e).sgStates, c.stateId=tr.transTo) ∧
   ((runExtraction pr name e).sgStates.map (·.stateId)).Nodup := by
 have hinv:=(finalState_extracts pr e).inv
 constructor
 · intro tr htr
   have htr:=List.mem_reverse.1 htr
   obtain ⟨c,hc,hcid,_⟩:=hinv.source tr htr
   obtain ⟨d,hd,hdid,_⟩:=hinv.target tr htr
   exact ⟨⟨c,List.mem_reverse.2 hc,hcid⟩,⟨d,List.mem_reverse.2 hd,hdid⟩⟩
 · change ((finalState pr e).esStates.reverse.map (·.stateId)).Nodup
   rw [List.map_reverse,List.nodup_reverse]
   exact hinv.nodup

theorem entries_of_reaches {st:ExtractState} (h:Inv st)
  (hall:∀ c ∈ st.esStates, Reaches st.esTransitions 0 c.stateId) {c0:ContractState}
  (hc0:c0 ∈ st.esStates) (hid:c0.stateId=0) : ∀ i ∈ entries st, i=c0 := by
 intro i hi
 obtain ⟨hi,hitype⟩:=List.mem_filter.1 hi
 have hzero:=h.entry_eq_of_reaches hi (by simpa using hitype) (hall i hi)
 exact h.eq_of_stateId hi hc0 (hzero.trans hid.symm)

theorem oneEntry_of_reaches
  (hall:∀ c ∈ (finalState pr e).esStates, Reaches (finalState pr e).esTransitions 0 c.stateId) :
  OneEntry e := by
 have hinv:=(finalState_extracts pr e).inv
 unfold OneEntry
 split
 · trivial
 · rename_i hroot
   obtain ⟨c0,hc0,hid,htype⟩:=extractExpr_first_state pr e hroot
   have honly:=entries_of_reaches hinv hall hc0 hid
   constructor
   · have hmem:c0 ∈ entries (finalState pr e):=List.mem_filter.2 ⟨hc0,by simp [htype,Root.type]⟩
     have hnodup:=hinv.entries_nodup
     rw [←finalState_entries_length pr e]
     match hlist : entries (finalState pr e) with
     | []=>simp [hlist] at hmem
     | [_]=>rfl
     | a::b::rest=>
      have ha:=honly a (by simp [hlist])
      have hb:=honly b (by simp [hlist])
      simp [hlist,ha,hb] at hnodup
   · intro t hloose
     obtain ⟨c,hc,hctype⟩:=(finalState_hasTerminal_iff pr e t).2 (Or.inl hloose)
     rcases (hall c hc).eq_or_edge with hzero | hedge
     · have heq:=hinv.eq_of_stateId hc hc0 (hzero.trans hid.symm)
       rw [heq,htype] at hctype
       cases t <;> cases hctype
     · exact (finalState_linked_iff pr e t).1 (linked_of_edge hc hctype hedge)
 · rename_i t hroot
   obtain ⟨c0,hc0,hid,htype⟩:=extractExpr_first_state pr e hroot
   have honly:=entries_of_reaches hinv hall hc0 hid
   have hnone:entries (finalState pr e)=[]:=by
    refine List.eq_nil_iff_forall_not_mem.2 fun i hi=>?_
    have hitype:=(List.mem_filter.1 hi).2
    rw [honly i hi,htype] at hitype
    cases t <;> simp [Root.type,Terminal.type] at hitype
   constructor
   · rw [←finalState_entries_length pr e,hnone,List.length_nil]
   · intro t' hloose
     obtain ⟨c,hc,hctype⟩:=(finalState_hasTerminal_iff pr e t').2 (Or.inl hloose)
     rcases (hall c hc).eq_or_edge with hzero | ⟨tr,htr,_⟩
     · have heq:=hinv.eq_of_stateId hc hc0 (hzero.trans hid.symm)
       rw [heq,htype] at hctype
       cases t <;> cases t' <;> first | rfl | cases hctype
     · obtain ⟨i,hi,_⟩:=hinv.entry_of_edge htr
       simp [hnone] at hi

theorem reaches_of_oneEntry (hone:OneEntry e) :
  ∀ c ∈ (finalState pr e).esStates, Reaches (finalState pr e).esTransitions 0 c.stateId := by
 have hinv:=(finalState_extracts pr e).inv
 have hlength:=finalState_entries_length pr e
 unfold OneEntry at hone
 split at hone
 · rename_i hroot
   intro c hc
   rw [finalState,extractExpr_of_firstRoot_none pr e _ hroot] at hc
   exact absurd hc List.not_mem_nil
 · rename_i hroot
   obtain ⟨c0,hc0,hid,htype⟩:=extractExpr_first_state pr e hroot
   obtain ⟨d,hentries⟩:=List.length_eq_one_iff.1 (hlength.trans hone.1)
   have hmem:c0 ∈ entries (finalState pr e):=List.mem_filter.2 ⟨hc0,by simp [htype,Root.type]⟩
   rw [hentries,List.mem_singleton] at hmem
   rw [←hid]
   refine hinv.reaches_of_entry (hmem ▸ hentries) fun t ht=>?_
   rcases (finalState_hasTerminal_iff pr e t).1 ht with hloose | hlinked
   · exact (finalState_linked_iff pr e t).2 (hone.2 t hloose)
   · exact (finalState_linked_iff pr e t).2 hlinked
 · rename_i t hroot
   obtain ⟨c0,hc0,hid,htype⟩:=extractExpr_first_state pr e hroot
   have hnone:entries (finalState pr e)=[]:=List.length_eq_zero_iff.1 (hlength.trans hone.1)
   have noEntry:∀ i ∈ (finalState pr e).esStates, i.stateType ≠ .initialState:=by
    intro i hi hitype
    have hmem:i ∈ entries (finalState pr e):=List.mem_filter.2 ⟨hi,by simp [hitype]⟩
    simp [hnone] at hmem
   intro c hc
   rcases stateType_cases c with hctype | hctype | ⟨t', hctype⟩
   · exact absurd hctype (noEntry c hc)
   · obtain ⟨i,hi,hitype,_⟩:=hinv.reached c hc hctype
     exact absurd hitype (noEntry i hi)
   · rcases (finalState_hasTerminal_iff pr e t').1 ⟨c,hc,hctype⟩ with hloose | hlinked
     · have htt:=hone.2 t' hloose
       have heq:=hinv.shared t c hc c0 hc0 (htt ▸ hctype) htype
       rw [heq,hid]
       exact Relation.ReflTransGen.refl
     · obtain ⟨tr,htr,_⟩:=(finalState_linked_iff pr e t').2 hlinked
       obtain ⟨i,hi,_⟩:=hinv.entry_of_edge htr
       simp [hnone] at hi

theorem runExtraction_sound_iff (name:String) :
  Sound (runExtraction pr name e) ↔ OneEntry e := by
 have hedge:∀ a b, Edge (finalState pr e).esTransitions.reverse a b ↔
   Edge (finalState pr e).esTransitions a b := by
  intro a b
  simp only [Edge,List.mem_reverse]
 have hreaches:Reaches (finalState pr e).esTransitions.reverse =
   Reaches (finalState pr e).esTransitions :=
  congrArg Relation.ReflTransGen (funext fun a=>funext fun b=>propext (hedge a b))
 constructor
 · intro hsound
   refine oneEntry_of_reaches pr e fun c hc=>?_
   rw [←hreaches]
   exact hsound.reachable c (List.mem_reverse.2 hc)
 · intro hone
   obtain ⟨hendpoints,hdistinct⟩:=runExtraction_endpoints_distinct pr e name
   refine ⟨fun c hc=>?_,hendpoints,hdistinct⟩
   change Reaches (finalState pr e).esTransitions.reverse 0 c.stateId
   rw [hreaches]
   exact reaches_of_oneEntry pr e hone c (List.mem_reverse.1 hc)

end Final

def unprinted : Printer := ⟨fun _=> "",fun _=> ""⟩

def localName (text:String) (i:ℤ) : Resolved := .def_ ⟨'v', i,""⟩ ⟨.normalName text⟩

/-- A party must do one action, with every default. -/
def plainDuty : Expr Resolved :=
 .regulative (.mkDeonton (.var (localName "buyer" 0))
  (.mkAction .dMust (.patVar (localName "pay" 1)) none) none none none)

/-- The second operand of a RAND at the top has an entry of its own, state 3,
    which nothing goes into. -/
theorem runExtraction_rAnd_not_sound :
  findRegulativeExpr (.rAnd plainDuty plainDuty)=some (.rAnd plainDuty plainDuty) ∧
   ¬Sound (runExtraction unprinted "sale" (.rAnd plainDuty plainDuty)) := by
 refine ⟨rfl,fun hsound=>?_⟩
 have hstate:(⟨3,"initial",.initialState⟩ : ContractState) ∈
   (runExtraction unprinted "sale" (.rAnd plainDuty plainDuty)).sgStates := by decide
 rcases (hsound.reachable _ hstate).eq_or_edge with heq | ⟨tr,htr,hto⟩
 · simp [runExtraction] at heq
 · have hno:∀ tr ∈ (runExtraction unprinted "sale" (.rAnd plainDuty plainDuty)).sgTransitions,
     tr.transTo ≠ 3 := by decide
   exact hno tr htr hto

end L4Ide.StateGraphReachability
