import L4Ide.EvalTraces
import L4Ide.ThunkHeap

set_option autoImplicit false

/-!
# Traces and normal forms

What a trace recorded for an address is what the heap holds there in the end. The normal form read
from the records then agrees with the one the machine computes, as far as both go; it is finite
exactly where no recorded reference leads back to itself.
-/
namespace L4Ide.EvalTraces
open Syntax Environment ValueLazy Machine Directives ThunkHeap

section Heap
variable (host:Host) (printer:Printer) (maximumFrameDepth:Option ℕ)

def Holds (h:Heap) (rf:Address) (w:Value Address) : Prop :=
 ∃ val, h[rf]? = some (.whnf val) ∧
  ∀ s, whnfConfig (runtime host printer maximumFrameDepth) val s = .ok (.backwardMachine w) s

def RecordsFinal (m:TraceMap Address) (h:Heap) : Prop :=
 ∀ a w, recorded m a=some w → Holds host printer maximumFrameDepth h a w

variable {host printer maximumFrameDepth}

theorem Holds.persists {h h' : Heap} {rf:Address} {w:Value Address}
  (hw:Holds host printer maximumFrameDepth h rf w) (hp:Persists h h') :
  Holds host printer maximumFrameDepth h' rf w := by
 obtain ⟨val,hval,hforce⟩:=hw
 exact ⟨val,hp rf val hval,hforce⟩

theorem Holds.step {s:EvalState Address Heap} {rf:Address} {w:Value Address}
  (hw:Holds host printer maximumFrameDepth s.heap rf w) :
  step (runtime host printer maximumFrameDepth) (.evalRefMachine rf) s =
   .ok (.backwardMachine w) s := by
 obtain ⟨val,hval,hforce⟩:=hw
 refine (evalRef_eq host printer maximumFrameDepth rf s).trans ?_
 have hpoke:pokeThunk rf s.heap=(.whnf val,s.heap):=by simp only [pokeThunk,hval]
 rw [hpoke]
 exact hforce s

theorem runConfig_holds {steps:ℕ} {s s' : EvalState Address Heap} {rf:Address}
  {w v:Value Address} (hs:s.stack=[])
  (hw:Holds host printer maximumFrameDepth s.heap rf w)
  (h:(runConfig (runtime host printer maximumFrameDepth) steps (.evalRefMachine rf) s).result =
   some (.ok v,s')) : v=w ∧ s' = s := by
 cases steps with
 | zero=>cases h
 | succ steps=>
  rw [runConfig_ok (fun w hw=>by cases hw) hw.step] at h
  cases steps with
  | zero=>cases h
  | succ steps=>
   rw [runConfig_ok (fun w hw=>by cases hw) (MachineLocality.step_backward w hs)] at h
   cases steps with
   | zero=>cases h
   | succ steps=>
    cases h
    exact ⟨rfl,rfl⟩

end Heap

section Actions
variable {R H A B:Type}

theorem bind_result {x:Action R H A} {f:A → Action R H B} {s s' : EvalState R H} {b:B}
  (h:(x.bind f s).result=some (.ok b,s')) :
  ∃ a t, (x s).result=some (.ok a,t) ∧ (f a t).result=some (.ok b,s') := by
 unfold Action.bind at h
 cases hx:(x s).result with
 | none=>
  rw [hx] at h
  cases h
 | some r=>
  rw [hx] at h
  obtain ⟨r,t⟩:=r
  cases r with
  | error e=>cases h
  | ok a=>exact ⟨a,t,rfl,h⟩

end Actions

section Reading
variable {host:Host} {printer:Printer} {maximumFrameDepth:Option ℕ}

def readAndNF (host:Host) (printer:Printer) (maximumFrameDepth:Option ℕ) (steps depth:ℕ)
  (r:Address) : Action Address Heap (NF Address) := do
 let w ← runConfig (runtime host printer maximumFrameDepth) steps (.evalRefMachine r)
 nfAux (runtime host printer maximumFrameDepth) steps depth w

theorem nfAux_result {steps depth:ℕ} {val:Value Address} {s s' : EvalState Address Heap}
  {t:NF Address}
  (h:(nfAux (runtime host printer maximumFrameDepth) steps (depth+1) val s).result =
   some (.ok t,s')) :
  ∃ parts, ((Action.traverse (readAndNF host printer maximumFrameDepth steps depth)
   (refs val)) s).result=some (.ok parts,s') ∧ t = .mkNF val parts := by
 obtain ⟨parts,u,hparts,hlast⟩:=bind_result h
 cases hlast
 exact ⟨parts,hparts,rfl⟩

theorem nfAux_delivered (steps depth:ℕ) : ∀ (val:Value Address) (s:EvalState Address Heap)
  (t:NF Address) (s' : EvalState Address Heap), s.stack=[] →
   (nfAux (runtime host printer maximumFrameDepth) steps depth val s).result =
    some (.ok t,s') → Delivered s s' := by
 induction depth with
 | zero=>
  intro val s t s' hs h
  cases h
  exact ⟨.refl s.heap,hs⟩
 | succ depth ih=>
  intro val s t s' hs h
  obtain ⟨parts,hparts,-⟩:=nfAux_result h
  have htraverse:∀ (l:List Address) (s:EvalState Address Heap) (parts:List (NF Address))
    (s' : EvalState Address Heap), s.stack=[] →
     ((Action.traverse (readAndNF host printer maximumFrameDepth steps depth) l) s).result =
      some (.ok parts,s') → Delivered s s' := by
   intro l
   induction l with
   | nil=>
    intro s parts s' hs h
    cases h
    exact ⟨.refl s.heap,hs⟩
   | cons r l ihl=>
    intro s parts s' hs h
    obtain ⟨part,u,hpart,hrest⟩:=bind_result h
    obtain ⟨parts', u', hparts', hlast⟩:=bind_result hrest
    cases hlast
    obtain ⟨w,x,hw,hnf⟩:=bind_result hpart
    obtain ⟨heap,stack⟩:=s
    cases hs
    have hread:=runConfig_delivered steps _ _ _ _ (forcing_nil heap)
     (fun w hw=>by cases hw) hw
    have hnf' :=ih w x part u hread.finished hnf
    have hrest' :=ihl u parts' s' hnf'.finished hparts'
    exact ⟨(hread.persists.trans hnf'.persists).trans hrest'.persists,hrest'.finished⟩
  exact htraverse _ s parts s' hs hparts

end Reading

/-- The same, up to what either leaves out. -/
inductive Agree {R:Type} : NF R → NF R → Prop
 | omittedLeft (t:NF R) : Agree .omitted t
 | omittedRight (t:NF R) : Agree t .omitted
 | mkNF (val:Value R) {ps qs:List (NF R)} (parts:List.Forall₂ Agree ps qs) :
   Agree (.mkNF val ps) (.mkNF val qs)

section Agreement
variable {host:Host} {printer:Printer} {maximumFrameDepth:Option ℕ}
 {m:TraceMap Address} {h₀:Heap}

theorem nfAux_agrees (hm:Finished m)
  (hfinal:RecordsFinal host printer maximumFrameDepth m h₀) (steps depth:ℕ) :
  ∀ (calls:ℕ) (val:Value Address) (t:NF Address) (s:EvalState Address Heap)
   (u:NF Address) (s' : EvalState Address Heap),
   nfFromTrace m calls val=some t → s.stack=[] → Persists h₀ s.heap →
   (nfAux (runtime host printer maximumFrameDepth) steps depth val s).result =
    some (.ok u,s') → Agree t u := by
 induction depth with
 | zero=>
  intro calls val t s u s' ht hs hp h
  cases h
  exact .omittedRight t
 | succ depth ih=>
  intro calls val t s u s' ht hs hp h
  cases calls with
  | zero=>cases ht
  | succ calls=>
   obtain ⟨ps,hps,rfl⟩:=nfFromTrace_eq_some.1 ht
   obtain ⟨qs,hqs,rfl⟩:=nfAux_result h
   have htraverse:∀ (l:List Address) (ps qs:List (NF Address))
     (s:EvalState Address Heap), s.stack=[] → Persists h₀ s.heap →
     List.Forall₂ (fun a p=>nfOfAddress m calls a=some p) l ps →
     ((Action.traverse (readAndNF host printer maximumFrameDepth steps depth) l) s).result =
      some (.ok qs,s') → List.Forall₂ Agree ps qs := by
    intro l
    induction l with
    | nil=>
     intro ps qs s hs hp hps h
     cases hps
     cases h
     exact .nil
    | cons r l ihl=>
     intro ps qs s hs hp hps h
     obtain ⟨p,ps', hr,hps', rfl⟩:=List.forall₂_cons_left_iff.1 hps
     obtain ⟨q,x,hq,hrest⟩:=bind_result h
     obtain ⟨qs', y,hqs', hlast⟩:=bind_result hrest
     cases hlast
     obtain ⟨w,z,hw,hnf⟩:=bind_result hq
     obtain ⟨heap,stack⟩:=s
     cases hs
     have hread:=runConfig_delivered steps _ _ _ _ (forcing_nil heap)
      (fun w hw=>by cases hw) hw
     have hnf' :=nfAux_delivered steps depth w z q x hread.finished hnf
     have hpx:=(hp.trans hread.persists).trans hnf'.persists
     refine .cons ?_ (ihl ps' qs' x hnf'.finished hpx hps' hqs')
     obtain ⟨-,rfl⟩ | ⟨w', calls', -,hw', hval⟩:=nfOfAddress_of_recorded hm hr
     · exact .omittedLeft q
     · -- what was recorded is what is read
       obtain ⟨rfl,rfl⟩:=runConfig_holds (rfl:(⟨heap,[]⟩ : EvalState _ _).stack=[])
        ((hfinal r w' hw').persists hp) hw
       exact ih calls' w p _ q x hval rfl hp hnf
   exact .mkNF val (htraverse (refs val) ps qs s hs hp hps hqs)

/-- The normal form of a traced value is reached, and agrees with the one the machine computes,
exactly where no recorded reference that is reached leads back to itself. -/
theorem trace_value_agrees (host:Host) (printer:Printer) (maximumFrameDepth:Option ℕ)
  (actions:List (EvalTraceAction Address)) (m:TraceMap Address) (h:Heap)
  (hm:tracedHeap actions=some m)
  (hfinal:RecordsFinal host printer maximumFrameDepth m h) (val:Value Address) :
  ((∃ calls t, nfFromTrace m calls val=some t) ∧
   ∀ calls t, nfFromTrace m calls val=some t → ∀ steps u s',
    (nf (runtime host printer maximumFrameDepth) steps val ⟨h,[]⟩).result =
     some (.ok u,s') → Agree t u) ↔
   Acyclic m val := by
 have hfinished:=tracedHeap_finished hm
 constructor
 · rintro ⟨hterminates,-⟩
   exact (terminates_iff hfinished).1 hterminates
 · intro hacyclic
   refine ⟨(terminates_iff hfinished).2 hacyclic,fun calls t ht steps u s' hu=>?_⟩
   exact nfAux_agrees hfinished hfinal steps _ calls val t ⟨h,[]⟩ u s' ht rfl (.refl h) hu

end Agreement

section Ones

def quiet : Printer := ⟨fun _=> "",fun _=> ""⟩

def machine : Runtime Address Heap := runtime default quiet none

def onesName : Resolved := .def_ ⟨'d', 0,""⟩ ⟨.normalName "ones"⟩

def one : RExpr := .lit (.numericLit 1)

def onesBody : RExpr := .cons one (.var onesName)

/-- A list that is an element followed by itself. -/
def ones : RExpr :=
 .letIn [.localDecide (.mkDecide ⟨[],none⟩ ⟨onesName,[],none⟩ onesBody none)] (.var onesName)

def onesVal : Value Address := .valCons 1 0

/-- What the evaluation leaves: the list, and its element yet to be read. -/
def onesState : EvalState Address Heap :=
 ⟨[.whnf onesVal,.unevaluated false one [(onesName.getUnique,0)]],[]⟩

def onesHeap : Heap := [.whnf onesVal,.whnf (.valNumber 1)]

theorem ones_evaluated :
  (runConfig machine 10 (.forwardMachine [] ones) ⟨[],[]⟩).result =
   some (.ok onesVal,onesState) := rfl

theorem one_read : (runConfig machine 10 (.evalRefMachine 1) onesState).result =
  some (.ok (.valNumber 1),⟨onesHeap,[]⟩) := rfl

theorem one_read_again : (runConfig machine 10 (.evalRefMachine 1) ⟨onesHeap,[]⟩).result =
  some (.ok (.valNumber 1),⟨onesHeap,[]⟩) := rfl

theorem ones_read : (runConfig machine 10 (.evalRefMachine 0) ⟨onesHeap,[]⟩).result =
  some (.ok onesVal,⟨onesHeap,[]⟩) := rfl

theorem bind_apply {R H A B:Type} {x:Action R H A} {f:A → Action R H B}
  {s s' : EvalState R H} {a:A} (h:(x s).result=some (.ok a,s')) :
  ((x.bind f) s).result=(f a s').result := by
 unfold Action.bind
 rw [h]

theorem number_read (depth:ℕ) (q:ℚ) (s:EvalState Address Heap) :
  ∃ t, (nfAux machine 10 depth (.valNumber q) s).result=some (.ok t,s) := by
 cases depth with
 | zero=>exact ⟨_,rfl⟩
 | succ depth=>exact ⟨_,rfl⟩

theorem ones_parts {depth:ℕ} {s:EvalState Address Heap} {t:NF Address}
  (hone:(runConfig machine 10 (.evalRefMachine 1) s).result =
   some (.ok (.valNumber 1),⟨onesHeap,[]⟩))
  (hrest:(nfAux machine 10 depth onesVal ⟨onesHeap,[]⟩).result =
   some (.ok t,⟨onesHeap,[]⟩)) :
  ∃ u, (nfAux machine 10 (depth+1) onesVal s).result=some (.ok u,⟨onesHeap,[]⟩) := by
 obtain ⟨u,hu⟩:=number_read depth 1 ⟨onesHeap,[]⟩
 have hhead:(readAndNF default quiet none 10 depth 1 s).result =
   some (.ok u,⟨onesHeap,[]⟩) := (bind_apply hone).trans hu
 have htail:(readAndNF default quiet none 10 depth 0 ⟨onesHeap,[]⟩).result =
   some (.ok t,⟨onesHeap,[]⟩) := (bind_apply ones_read).trans hrest
 have hlast:(Action.traverse (readAndNF default quiet none 10 depth) [0]
   ⟨onesHeap,[]⟩).result=some (.ok [t],⟨onesHeap,[]⟩) := (bind_apply htail).trans rfl
 have hboth:(Action.traverse (readAndNF default quiet none 10 depth) [1,0] s).result =
   some (.ok [u,t],⟨onesHeap,[]⟩) :=
  (bind_apply hhead).trans ((bind_apply hlast).trans rfl)
 exact ⟨.mkNF onesVal [u,t],(bind_apply hboth).trans rfl⟩

theorem ones_nfAux (depth:ℕ) :
  ∃ t, (nfAux machine 10 depth onesVal ⟨onesHeap,[]⟩).result =
   some (.ok t,⟨onesHeap,[]⟩) := by
 induction depth with
 | zero=>exact ⟨_,rfl⟩
 | succ depth ih=>
  obtain ⟨t,ht⟩:=ih
  exact ones_parts one_read_again ht

def onesLookedUp : List (EvalTraceAction Address) :=
 [.setRef 1,.exit (.inr (.valNumber 1)),.pop,.setRef 0,.exit (.inr onesVal),.pop]

def onesEvaluated : List (EvalTraceAction Address) :=
 [.enter ones,.allocPre onesName 0,.enter (.var onesName),.setRef 0,.push,.enter onesBody,
  .alloc one 1,.exit (.inr onesVal),.pop,.exit (.inr onesVal),.pop]

def oneForced : List (EvalTraceAction Address) :=
 [.setRef 1,.push,.enter one,.exit (.inr (.valNumber 1)),.pop,
  .exit (.inr (.valNumber 1)),.pop]

def onesForced : List (EvalTraceAction Address) := [.setRef 0,.exit (.inr onesVal),.pop]

/-- The evaluation, the first look at the element and the list, and the levels below. -/
def onesActions : List (EvalTraceAction Address) :=
 onesEvaluated ++ (oneForced ++ (onesForced ++
  (List.replicate maximumStackSize onesLookedUp).flatten))

def onesSplit : SplitMap Address :=
 [(none,.inr [.enter ones,.allocPre onesName 0,.enter (.var onesName),.setRef 0,
   .exit (.inr onesVal),.pop]),
  (some 0,.inr [.push,.enter onesBody,.alloc one 1,.exit (.inr onesVal),.pop])]

def oneSplit : SplitMap Address :=
 (some 1,.inr [.push,.enter one,.exit (.inr (.valNumber 1)),.pop])::onesSplit

def onesMap : TraceMap Address :=
 [(some 1,.inr (.preTrace [(one,[])] (.inr (.valNumber 1)))),
  (none,.inr (.preTrace [(ones,[.prePlaceholder 0]),(.var onesName,[])] (.inr onesVal))),
  (some 0,.inr (.preTrace [(onesBody,[.prePlaceholder 1])] (.inr onesVal)))]

theorem splitFrom_evaluated (as:List (EvalTraceAction Address)) :
  splitEvalTraceActions (onesEvaluated ++ as)=splitFrom ⟨-1,[],onesSplit⟩ as := rfl

theorem splitFrom_oneForced (as:List (EvalTraceAction Address)) :
  splitFrom ⟨-1,[],onesSplit⟩ (oneForced ++ as)=splitFrom ⟨-1,[],oneSplit⟩ as := rfl

theorem splitFrom_onesForced (as:List (EvalTraceAction Address)) :
  splitFrom ⟨-1,[],oneSplit⟩ (onesForced ++ as)=splitFrom ⟨-1,[],oneSplit⟩ as := rfl

theorem splitFrom_lookedUp (n:ℕ) :
  splitFrom ⟨-1,[],oneSplit⟩ (List.replicate n onesLookedUp).flatten=some oneSplit := by
 induction n with
 | zero=>rfl
 | succ n ih=>
  rw [List.replicate_succ,List.flatten_cons]
  exact ih

theorem ones_tracedHeap : tracedHeap onesActions=some onesMap := by
 have hsplit:splitEvalTraceActions onesActions=some oneSplit:=by
  rw [onesActions,splitFrom_evaluated,splitFrom_oneForced,splitFrom_onesForced,
   splitFrom_lookedUp]
 rw [tracedHeap,hsplit]
 rfl

theorem holds_of_whnf {h:Heap} {rf:Address} {val:Value Address}
  (hval:h[rf]? = some (.whnf val)) (hplain:∀ fn, val ≠ .valNullaryBuiltinFun fn) :
  Holds default quiet none h rf val := by
 refine ⟨val,hval,fun s=>?_⟩
 cases val with
 | valNullaryBuiltinFun fn=>exact absurd rfl (hplain fn)
 | _=>rfl

theorem ones_recordsFinal : RecordsFinal default quiet none onesMap onesHeap := by
 intro a w hw
 have hkey:a ∈ [1,0]:=mem_keys_of_recorded hw
 obtain rfl | hkey:=List.mem_cons.1 hkey
 · cases hw
   exact holds_of_whnf rfl fun fn h=>by cases h
 · obtain rfl:=List.mem_singleton.1 hkey
   cases hw
   exact holds_of_whnf rfl fun fn h=>by cases h

theorem ones_cyclic : ¬ Acyclic onesMap onesVal := by
 intro h
 have hbelow:Below onesMap 0 0:=⟨onesVal,rfl,List.mem_cons_of_mem 1 List.mem_cons_self⟩
 exact h 0 (List.mem_cons_of_mem 1 List.mem_cons_self) 0 .refl (.single hbelow)

/-- The machine reads the list to its depth; from the trace its normal form has no end. -/
theorem ones_trace_endless :
  (runConfig machine 10 (.forwardMachine [] ones) ⟨[],[]⟩).result =
   some (.ok onesVal,onesState) ∧
  (∃ t, (nf machine 10 onesVal onesState).result=some (.ok t,⟨onesHeap,[]⟩)) ∧
  tracedHeap onesActions=some onesMap ∧
  RecordsFinal default quiet none onesMap onesHeap ∧
  ¬ ∃ calls t, nfFromTrace onesMap calls onesVal=some t := by
 refine ⟨ones_evaluated, ?_,ones_tracedHeap,ones_recordsFinal,fun h=>?_⟩
 · obtain ⟨t,ht⟩:=ones_nfAux maximumStackSize
   exact ones_parts one_read ht
 · exact ones_cyclic ((terminates_iff (tracedHeap_finished ones_tracedHeap)).1 h)

end Ones

section One

def oneActions : List (EvalTraceAction Address) :=
 [.enter (.list [one]),.enter (.cons one (.list [])),.alloc one 0,.alloc (.list []) 1,
  .exit (.inr (.valCons 0 1)),.pop,
  .setRef 0,.push,.enter one,.exit (.inr (.valNumber 1)),.pop,
  .exit (.inr (.valNumber 1)),.pop,
  .setRef 1,.push,.enter (.list []),.exit (.inr .valNil),.pop,.exit (.inr .valNil),.pop]

def oneHeap : Heap := [.whnf (.valNumber 1),.whnf .valNil]

def oneMap : TraceMap Address :=
 [(some 1,.inr (.preTrace [(.list [],[])] (.inr .valNil))),
  (some 0,.inr (.preTrace [(one,[])] (.inr (.valNumber 1)))),
  (none,.inr (.preTrace [(.list [one],[]),
   (.cons one (.list []),[.prePlaceholder 0,.prePlaceholder 1])] (.inr (.valCons 0 1))))]

theorem one_recordsFinal : RecordsFinal default quiet none oneMap oneHeap := by
 intro a w hw
 have hkey:a ∈ [1,0]:=mem_keys_of_recorded hw
 obtain rfl | hkey:=List.mem_cons.1 hkey
 · cases hw
   exact holds_of_whnf rfl fun fn h=>by cases h
 · obtain rfl:=List.mem_singleton.1 hkey
   cases hw
   exact holds_of_whnf rfl fun fn h=>by cases h

theorem one_acyclic : Acyclic oneMap (.valCons 0 1) :=
 (terminates_iff (tracedHeap_finished (rfl:tracedHeap oneActions=some oneMap))).1
  ⟨4,_,rfl⟩

theorem trace_value_agrees_one :
  (∃ calls t, nfFromTrace oneMap calls (.valCons 0 1)=some t) ∧
   ∀ calls t, nfFromTrace oneMap calls (.valCons 0 1)=some t → ∀ steps u s',
    (nf (runtime default quiet none) steps (.valCons 0 1) ⟨oneHeap,[]⟩).result =
     some (.ok u,s') → Agree t u :=
 (trace_value_agrees default quiet none oneActions oneMap oneHeap rfl one_recordsFinal
  (.valCons 0 1)).2 one_acyclic

end One

end L4Ide.EvalTraces
