import L4Ide.Directives
import Mathlib.Data.Fintype.Card
import Mathlib.Data.Set.Finite.List
import Mathlib.Logic.Relation

set_option autoImplicit false

/-!
# Traces of evaluations

An evaluation leaves a list of actions. They are split by the address they evaluate, each part
becomes a trace with places left open, and a value is made a normal form by looking its references
up among the parts.
-/
namespace L4Ide.EvalTraces
open Syntax Environment ValueLazy Machine Directives

abbrev Outcome (R:Type) := EvalException R ⊕ Value R

inductive EvalTraceAction (R:Type) where
 | enter (e:RExpr)
 | exit (v:Outcome R)
 | setRef (r:R)
 | alloc (e:RExpr) (r:R)
 | allocPre (n:Resolved) (r:R)
 | push
 | pop

/-- A trace with its results as they were, and with addresses where traces of others belong. -/
inductive EvalPreTrace (R:Type) where
 | preTrace (esubs:List (RExpr × List (EvalPreTrace R))) (result:Outcome R)
 | prePlaceholder (address:R)

section Split
variable {R:Type} [DecidableEq R]

structure AddressFrame (R:Type) where
 threshold : ℤ
 address : Option R
 actions : List (EvalTraceAction R)

def AddressFrame.snoc (f:AddressFrame R) (a:EvalTraceAction R) : AddressFrame R :=
 { f with actions:=f.actions ++ [a] }

abbrev SplitMap (R:Type) := List (Option R × (Value R ⊕ List (EvalTraceAction R)))

def insertIfMissing {A:Type} (k:Option R) (a:A) (m:List (Option R × A)) :
  List (Option R × A) :=
 if (m.lookup k).isSome then m else (k,a)::m

structure Splitting (R:Type) where
 depth : ℤ
 stack : List (AddressFrame R)
 recorded : SplitMap R

/-- An action, on top of the address it belongs to; an evaluated address is exited at once. -/
def splitAction (d1:ℤ) (top:AddressFrame R) (stack:List (AddressFrame R)) (m:SplitMap R)
  (a:EvalTraceAction R) (as:List (EvalTraceAction R)) : Splitting R :=
 match a, as with
 | .setRef r, .exit (.inr v)::_=>
  ⟨d1,top.snoc a::stack,insertIfMissing (some r) (.inl v) m⟩
 | .setRef r, _=>⟨d1,⟨d1+1,some r,[]⟩::top.snoc a::stack,m⟩
 | .push, _=>⟨d1+1,top.snoc a::stack,m⟩
 | .pop, _=>
  if d1=top.threshold then
   ⟨d1-1,stack,insertIfMissing top.address (.inr (top.snoc a).actions) m⟩
  else ⟨d1-1,top.snoc a::stack,m⟩
 | _, _=>⟨d1,top.snoc a::stack,m⟩

def restarts (d:ℤ) : EvalTraceAction R → Bool
 | .setRef _=>d == -1
 | _=>false

def splitFrom : Splitting R → List (EvalTraceAction R) → Option (SplitMap R)
 | ⟨d,[],m⟩, []=>if d = -1 then some m else none
 | ⟨_,_::_,_⟩, []=>none
 | ⟨d,top::stack,m⟩, a::as=>splitFrom (splitAction d top stack m a as) as
 | ⟨d,[],m⟩, a::as=>
  if restarts d a then splitFrom (splitAction 0 ⟨0,none,[]⟩ [] m a as) as else none

def splitEvalTraceActions (as:List (EvalTraceAction R)) : Option (SplitMap R) :=
 splitFrom ⟨0,[⟨0,none,[]⟩],[]⟩ as

end Split

section Build
variable {R:Type}

/-- The expressions of a frame with the traces below them, the latest first. -/
inductive PreTraceFrame (R:Type) where
 | preTraceFrame (esubs:List (RExpr × List (EvalPreTrace R))) (result:Option (Outcome R))
 | hiddenFrame

def addExprToFrame (e:RExpr) : PreTraceFrame R → Option (PreTraceFrame R)
 | .preTraceFrame esubs none=>some (.preTraceFrame ((e,[])::esubs) none)
 | .preTraceFrame _ (some _)=>none
 | .hiddenFrame=>some .hiddenFrame

def addResultToFrame (r:Outcome R) : PreTraceFrame R → Option (PreTraceFrame R)
 | .preTraceFrame esubs none=>some (.preTraceFrame esubs (some r))
 | .preTraceFrame _ (some _)=>none
 | .hiddenFrame=>some .hiddenFrame

def closeFrame : PreTraceFrame R → Option (EvalPreTrace R)
 | .preTraceFrame esubs (some v)=>
  some (.preTrace (esubs.map fun p=>(p.1,p.2.reverse)).reverse v)
 | .preTraceFrame _ none=>none
 | .hiddenFrame=>none

def addSubTraceToFrame (t:EvalPreTrace R) : PreTraceFrame R → Option (PreTraceFrame R)
 | .preTraceFrame [] none=>some .hiddenFrame
 | .preTraceFrame ((e,subs)::esubs) none=>
  some (.preTraceFrame ((e,t::subs)::esubs) none)
 | .preTraceFrame _ (some _)=>none
 | .hiddenFrame=>some .hiddenFrame

def buildFrom : List (PreTraceFrame R) → List (EvalTraceAction R) → Option (EvalPreTrace R)
 | stack, .push::as=>buildFrom (.preTraceFrame [] none::stack) as
 | frame::stack, .enter e::as=>do
  let frame' ← addExprToFrame e frame
  buildFrom (frame' :: stack) as
 | frame::stack, .exit v::as=>do
  let frame' ← addResultToFrame v frame
  buildFrom (frame' :: stack) as
 | frame::stack, .pop::as=>
  match closeFrame frame, stack with
  | none, _=>buildFrom stack as
  | some subtrace, []=>some subtrace
  | some subtrace, next::stack' =>do
   let next' ← addSubTraceToFrame subtrace next
   buildFrom (next' :: stack') as
 | frame::stack, .setRef _::as=>buildFrom (frame::stack) as
 | frame::stack, .alloc _ r::as=>do
  let frame' ← addSubTraceToFrame (.prePlaceholder r) frame
  buildFrom (frame' :: stack) as
 | frame::stack, .allocPre _ r::as=>do
  let frame' ← addSubTraceToFrame (.prePlaceholder r) frame
  buildFrom (frame' :: stack) as
 | [frame], []=>closeFrame frame
 | _, _=>none

def buildEvalPreTrace : List (EvalTraceAction R) → Option (EvalPreTrace R)
 | .enter e::as=>buildFrom [.preTraceFrame [] none] (.enter e::as)
 | .push::as=>buildFrom [] (.push::as)
 | _=>none

abbrev TraceMap (R:Type) := List (Option R × (Value R ⊕ EvalPreTrace R))

def buildEntry : Value R ⊕ List (EvalTraceAction R) → Option (Value R ⊕ EvalPreTrace R)
 | .inl w=>some (.inl w)
 | .inr as=>(buildEvalPreTrace as).map .inr

def buildEvalPreTraces : SplitMap R → Option (TraceMap R)
 | []=>some []
 | (k,entry)::m=>do
  let entry' ← buildEntry entry
  let m' ← buildEvalPreTraces m
  return (k,entry')::m'

end Build

section NormalForms
variable {R:Type} [DecidableEq R]

def tracedHeap (as:List (EvalTraceAction R)) : Option (TraceMap R) := do
 let m ← splitEvalTraceActions as
 buildEvalPreTraces m

variable (m:TraceMap R)

mutual

/-- The normal form of a value, if it is reached by calls so deep; what was not evaluated is
omitted. -/
def nfFromTrace : ℕ → Value R → Option (NF R)
 | 0, _=>none
 | depth+1, val=>((refs val).mapM (nfOfAddress depth)).map (.mkNF val)

def nfOfAddress : ℕ → R → Option (NF R)
 | 0, _=>none
 | depth+1, a=>
  match m.lookup (some a) with
  | none=>some .omitted
  | some (.inl w)=>nfFromTrace depth w
  | some (.inr t)=>extractVal depth t

def extractVal : ℕ → EvalPreTrace R → Option (NF R)
 | 0, _=>none
 | _+1, .preTrace _ (.inl _)=>some .omitted
 | depth+1, .preTrace _ (.inr v)=>nfFromTrace depth v
 | depth+1, .prePlaceholder a=>nfOfAddress depth a

end

end NormalForms

end L4Ide.EvalTraces

namespace L4Ide.EvalTraces
open Syntax Environment ValueLazy Machine Directives Relation

section Relations
variable {α:Type} {r:α → α → Prop} {x:α}

/-- Below `x` nothing lies below itself. -/
def AcyclicBelow (r:α → α → Prop) (x:α) : Prop :=
 ∀ a, ReflTransGen r a x → ¬ TransGen r a a

theorem acyclicBelow_of_acc (h:Acc r x) : AcyclicBelow r x := by
 induction h with
 | intro x _ ih=>
  intro a hax hcycle
  obtain rfl | ⟨b,hab,hbx⟩:=ReflTransGen.cases_tail hax
  · obtain ⟨c,hxc,hcx⟩:=TransGen.tail'_iff.1 hcycle
    exact ih c hcx c .refl (TransGen.head'_iff.2 ⟨_,hcx,hxc⟩)
  · exact ih b hbx a hab hcycle

/-- Where only finitely many elements have others below them, that is enough for an end. -/
theorem acc_of_acyclicBelow (keys:List α) (hkeys:∀ a b, r b a → a ∈ keys)
  (h:AcyclicBelow r x) : Acc r x := by
 let R:{a // a ∈ keys} → {a // a ∈ keys} → Prop:=fun b a=>
  ReflTransGen r a x ∧ TransGen r b a
 have htrans:IsTrans _ R:=⟨fun a b c hab hbc=>⟨hbc.1,hab.2.trans hbc.2⟩⟩
 have hirrefl:Std.Irrefl R:=⟨fun a haa=>h a haa.1 haa.2⟩
 have hfinite:Finite {a // a ∈ keys}:=keys.finite_toSet.to_subtype
 have hwf:WellFounded R:=Finite.wellFounded_of_trans_of_irrefl R
 have hall:∀ a : {a // a ∈ keys}, ReflTransGen r a x → Acc r a:=by
  intro a
  induction a using hwf.induction with
  | _ a ih=>
   intro hax
   refine ⟨_,fun b hba=>?_⟩
   by_cases hb:b ∈ keys
   · exact ih ⟨b,hb⟩ ⟨hax,.single hba⟩ (.head hba hax)
   · exact ⟨b,fun c hcb=>absurd (hkeys b c hcb) hb⟩
 by_cases hx:x ∈ keys
 · exact hall ⟨x,hx⟩ .refl
 · exact ⟨x,fun c hcx=>absurd (hkeys x c hcx) hx⟩

end Relations

section Lookup
variable {R:Type} [DecidableEq R]

def Finished (m:TraceMap R) : Prop :=
 ∀ k t, m.lookup k=some (.inr t) → ∃ esubs result, t = .preTrace esubs result

/-- The value recorded for an address, if it has one. -/
def recorded (m:TraceMap R) (a:R) : Option (Value R) :=
 match m.lookup (some a) with
 | some (.inl w)=>some w
 | some (.inr (.preTrace _ (.inr w)))=>some w
 | _=>none

/-- `b` is a reference of what is recorded for `a`. -/
def Below (m:TraceMap R) (b a:R) : Prop := ∃ w, recorded m a=some w ∧ b ∈ refs w

end Lookup

section Built
variable {R:Type}

variable {t:EvalPreTrace R}

theorem closeFrame_finished {frame:PreTraceFrame R}
  (h:closeFrame frame=some t) : ∃ esubs result, t = .preTrace esubs result := by
 cases frame with
 | hiddenFrame=>cases h
 | preTraceFrame esubs result=>
  cases result with
  | none=>cases h
  | some v=>
   cases h
   exact ⟨_,v,rfl⟩

theorem buildFrom_finished (as:List (EvalTraceAction R)) : ∀ (stack:List (PreTraceFrame R))
  (t:EvalPreTrace R), buildFrom stack as=some t →
   ∃ esubs result, t = .preTrace esubs result := by
 induction as with
 | nil=>
  intro stack t h
  cases stack with
  | nil=>cases h
  | cons frame stack=>
   cases stack with
   | nil=>exact closeFrame_finished h
   | cons next stack=>cases h
 | cons a as ih=>
  intro stack t h
  cases stack with
  | nil=>
   cases a with
   | push=>exact ih _ t h
   | _=>cases h
  | cons frame stack=>
   cases a with
   | push=>exact ih _ t h
   | setRef r=>exact ih _ t h
   | enter e=>
    obtain ⟨frame', -,hrest⟩:=Option.bind_eq_some_iff.1 h
    exact ih _ t hrest
   | exit v=>
    obtain ⟨frame', -,hrest⟩:=Option.bind_eq_some_iff.1 h
    exact ih _ t hrest
   | alloc e r=>
    obtain ⟨frame', -,hrest⟩:=Option.bind_eq_some_iff.1 h
    exact ih _ t hrest
   | allocPre n r=>
    obtain ⟨frame', -,hrest⟩:=Option.bind_eq_some_iff.1 h
    exact ih _ t hrest
   | pop=>
    cases hclose:closeFrame frame with
    | none=>
     simp only [buildFrom,hclose] at h
     exact ih _ t h
    | some subtrace=>
     cases stack with
     | nil=>
      simp only [buildFrom,hclose,Option.some.injEq] at h
      exact closeFrame_finished (h ▸ hclose)
     | cons next stack=>
      simp only [buildFrom,hclose] at h
      obtain ⟨next', -,hrest⟩:=Option.bind_eq_some_iff.1 h
      exact ih _ t hrest

theorem buildEvalPreTrace_finished {as:List (EvalTraceAction R)}
  (h:buildEvalPreTrace as=some t) : ∃ esubs result, t = .preTrace esubs result := by
 cases as with
 | nil=>cases h
 | cons a as=>
  cases a with
  | enter e=>exact buildFrom_finished _ _ t h
  | push=>exact buildFrom_finished _ _ t h
  | _=>cases h

theorem buildEvalPreTraces_finished : ∀ (split:SplitMap R) (m:TraceMap R),
  buildEvalPreTraces split=some m → ∀ k t, (k,.inr t) ∈ m →
   ∃ esubs result, t = .preTrace esubs result := by
 intro split
 induction split with
 | nil=>
  intro m h k t hmem
  cases h
  cases hmem
 | cons p split ih=>
  intro m h k t hmem
  obtain ⟨k', entry⟩:=p
  obtain ⟨entry', hentry,hrest⟩:=Option.bind_eq_some_iff.1 h
  obtain ⟨m', hm', hlast⟩:=Option.bind_eq_some_iff.1 hrest
  cases hlast
  obtain heq | hmem:=List.mem_cons.1 hmem
  · cases heq
    cases entry with
    | inl w=>cases hentry
    | inr as=>
     obtain ⟨t', ht', heq⟩:=Option.map_eq_some_iff.1 hentry
     cases heq
     exact buildEvalPreTrace_finished ht'
  · exact ih m' hm' k t hmem

end Built

section Depth
variable {R:Type} [DecidableEq R]

variable {A B:Type} {val:Value R} {t:NF R} {a:R}

theorem mem_of_lookup [BEq A] [LawfulBEq A] {k:A} {b:B} {m:List (A × B)}
  (h:m.lookup k=some b) : (k,b) ∈ m := by
 induction m with
 | nil=>cases h
 | cons p m ih=>
  rw [List.lookup_cons] at h
  cases hk:k == p.1 with
  | true=>
   rw [hk,Option.some.injEq] at h
   rw [beq_iff_eq] at hk
   subst hk h
   exact List.mem_cons_self
  | false=>
   rw [hk] at h
   exact List.mem_cons_of_mem p (ih h)

theorem tracedHeap_finished {as:List (EvalTraceAction R)} {m:TraceMap R}
  (h:tracedHeap as=some m) : Finished m := by
 obtain ⟨split,-,hbuild⟩:=Option.bind_eq_some_iff.1 h
 exact fun k t hlookup=>buildEvalPreTraces_finished split m hbuild k t (mem_of_lookup hlookup)

theorem mapM_eq_some_iff {f:A → Option B} {l:List A} {bs:List B} :
  l.mapM f=some bs ↔ List.Forall₂ (fun a b=>f a=some b) l bs := by
 induction l generalizing bs with
 | nil=>
  rw [List.mapM_nil,List.forall₂_nil_left_iff]
  exact ⟨fun h=>(Option.some.inj h).symm,fun h=>congrArg some h.symm⟩
 | cons a l ih=>
  rw [List.mapM_cons,List.forall₂_cons_left_iff]
  constructor
  · intro h
    obtain ⟨b,hb,hrest⟩:=Option.bind_eq_some_iff.1 h
    obtain ⟨bs', hbs', hlast⟩:=Option.bind_eq_some_iff.1 hrest
    cases hlast
    exact ⟨b,bs', hb,ih.1 hbs', rfl⟩
  · rintro ⟨b,bs', hb,hbs', rfl⟩
    rw [hb,ih.2 hbs']
    rfl

variable {m:TraceMap R}

theorem nfFromTrace_eq_some {depth:ℕ} :
  nfFromTrace m (depth+1) val=some t ↔
   ∃ parts, List.Forall₂ (fun a p=>nfOfAddress m depth a=some p) (refs val) parts ∧
    t = .mkNF val parts := by
 rw [nfFromTrace,Option.map_eq_some_iff]
 constructor
 · rintro ⟨parts,hparts,rfl⟩
   exact ⟨parts,mapM_eq_some_iff.1 hparts,rfl⟩
 · rintro ⟨parts,hparts,rfl⟩
   exact ⟨parts,mapM_eq_some_iff.2 hparts,rfl⟩

theorem deeper (depth:ℕ) :
  (∀ val t, nfFromTrace m depth val=some t → nfFromTrace m (depth+1) val=some t) ∧
  (∀ a t, nfOfAddress m depth a=some t → nfOfAddress m (depth+1) a=some t) ∧
  ∀ p t, extractVal m depth p=some t → extractVal m (depth+1) p=some t := by
 induction depth with
 | zero=>
  refine ⟨fun val t h=>?_,fun a t h=>?_,fun p t h=>?_⟩
  · cases h
  · cases h
  · cases h
 | succ depth ih=>
  obtain ⟨ihval,ihaddress,ihextract⟩:=ih
  refine ⟨fun val t h=>?_,fun a t h=>?_,fun p t h=>?_⟩
  · obtain ⟨parts,hparts,rfl⟩:=nfFromTrace_eq_some.1 h
    exact nfFromTrace_eq_some.2 ⟨parts,hparts.imp ihaddress,rfl⟩
  · rw [nfOfAddress] at h ⊢
    cases hlookup:m.lookup (some a) with
    | none=>
     rw [hlookup] at h
     exact h
    | some entry=>
     rw [hlookup] at h
     cases entry with
     | inl w=>exact ihval w t h
     | inr p=>exact ihextract p t h
  · cases p with
    | preTrace esubs result=>
     cases result with
     | inl e=>exact h
     | inr v=>exact ihval v t h
    | prePlaceholder a=>exact ihaddress a t h

theorem nfOfAddress_mono {depth depth' : ℕ} (hle:depth ≤ depth')
  (h:nfOfAddress m depth a=some t) : nfOfAddress m depth' a=some t := by
 induction hle with
 | refl=>exact h
 | step _ ih=>exact (deeper _).2.1 a t ih

theorem nfOfAddress_of_recorded (hm:Finished m) {depth:ℕ}
  (h:nfOfAddress m depth a=some t) :
  (recorded m a=none ∧ t = .omitted) ∨
   ∃ w depth', depth' < depth ∧ recorded m a=some w ∧ nfFromTrace m depth' w=some t := by
 cases depth with
 | zero=>cases h
 | succ depth=>
  rw [nfOfAddress] at h
  cases hlookup:m.lookup (some a) with
  | none=>
   rw [hlookup] at h
   cases h
   exact .inl ⟨by rw [recorded,hlookup],rfl⟩
  | some entry=>
   rw [hlookup] at h
   cases entry with
   | inl w=>
    exact .inr ⟨w,depth,Nat.lt_succ_self depth,by rw [recorded,hlookup],h⟩
   | inr p=>
    obtain ⟨esubs,result,rfl⟩:=hm _ p hlookup
    cases depth with
    | zero=>cases h
    | succ depth=>
     cases result with
     | inl e=>
      cases h
      exact .inl ⟨by rw [recorded,hlookup],rfl⟩
     | inr w=>exact .inr ⟨w,depth,by omega,by rw [recorded,hlookup],h⟩

theorem exists_nfOfAddress (hm:Finished m)
  (h:∀ w, recorded m a=some w → ∃ depth t, nfFromTrace m depth w=some t) :
  ∃ depth t, nfOfAddress m depth a=some t := by
 cases hlookup:m.lookup (some a) with
 | none=>exact ⟨1,.omitted,by rw [nfOfAddress,hlookup]⟩
 | some entry=>
  cases entry with
  | inl w=>
   obtain ⟨depth,t,ht⟩:=h w (by rw [recorded,hlookup])
   exact ⟨depth+1,t,by rw [nfOfAddress,hlookup]; exact ht⟩
  | inr p=>
   obtain ⟨esubs,result,rfl⟩:=hm _ p hlookup
   cases result with
   | inl e=>exact ⟨2,.omitted,by rw [nfOfAddress,hlookup]; rfl⟩
   | inr w=>
    obtain ⟨depth,t,ht⟩:=h w (by rw [recorded,hlookup])
    exact ⟨depth+2,t,by rw [nfOfAddress,hlookup]; exact ht⟩

theorem exists_parts {l:List R} (h:∀ a ∈ l, ∃ depth t, nfOfAddress m depth a=some t) :
  ∃ depth parts, List.Forall₂ (fun a p=>nfOfAddress m depth a=some p) l parts := by
 induction l with
 | nil=>exact ⟨0,[],.nil⟩
 | cons a l ih=>
  obtain ⟨depth,t,ht⟩:=h a List.mem_cons_self
  obtain ⟨depth', parts,hparts⟩:=ih fun b hb=>h b (List.mem_cons_of_mem a hb)
  exact ⟨max depth depth', t::parts,.cons (nfOfAddress_mono (le_max_left _ _) ht)
   (hparts.imp fun b p hb=>nfOfAddress_mono (le_max_right _ _) hb)⟩

def Terminates (m:TraceMap R) (val:Value R) : Prop :=
 ∃ depth t, nfFromTrace m depth val=some t

theorem terminates_of_parts
  (h:∀ a ∈ refs val, ∃ depth t, nfOfAddress m depth a=some t) : Terminates m val := by
 obtain ⟨depth,parts,hparts⟩:=exists_parts h
 exact ⟨depth+1,_,nfFromTrace_eq_some.2 ⟨parts,hparts,rfl⟩⟩

theorem address_terminates (hm:Finished m) (h:Acc (Below m) a) :
  ∃ depth t, nfOfAddress m depth a=some t := by
 induction h with
 | intro a _ ih=>
  exact exists_nfOfAddress hm fun w hw=>terminates_of_parts fun b hb=>ih b ⟨w,hw,hb⟩

theorem acc_of_nfOfAddress (hm:Finished m) (depth:ℕ) : ∀ (a:R) (t:NF R),
  nfOfAddress m depth a=some t → Acc (Below m) a := by
 induction depth using Nat.strong_induction_on with
 | _ depth ih=>
  intro a t h
  refine ⟨a,fun b hb=>?_⟩
  obtain ⟨w,hw,hmem⟩:=hb
  obtain ⟨hnone,-⟩ | ⟨w', depth', hlt,hw', hval⟩:=nfOfAddress_of_recorded hm h
  · rw [hw] at hnone
    cases hnone
  · rw [hw,Option.some.injEq] at hw'
    subst hw'
    cases depth' with
    | zero=>cases hval
    | succ depth' =>
     obtain ⟨parts,hparts,-⟩:=nfFromTrace_eq_some.1 hval
     obtain ⟨i,hi,hget⟩:=List.mem_iff_getElem.1 hmem
     have hpart:=List.Forall₂.get hparts hi (by rw [←hparts.length_eq]; exact hi)
     rw [List.get_eq_getElem,hget] at hpart
     exact ih depth' (by omega) b _ hpart

theorem terminates_iff_acc (hm:Finished m) :
  Terminates m val ↔ ∀ a ∈ refs val, Acc (Below m) a := by
 constructor
 · rintro ⟨depth,t,h⟩ a ha
   cases depth with
   | zero=>cases h
   | succ depth=>
    obtain ⟨parts,hparts,-⟩:=nfFromTrace_eq_some.1 h
    obtain ⟨i,hi,hget⟩:=List.mem_iff_getElem.1 ha
    have hpart:=List.Forall₂.get hparts hi (by rw [←hparts.length_eq]; exact hi)
    rw [List.get_eq_getElem,hget] at hpart
    exact acc_of_nfOfAddress hm depth a _ hpart
 · exact fun h=>terminates_of_parts fun a ha=>address_terminates hm (h a ha)

theorem mem_keys_of_recorded {w:Value R} (h:recorded m a=some w) :
  a ∈ m.filterMap Prod.fst := by
 rw [recorded] at h
 cases hlookup:m.lookup (some a) with
 | none=>
  rw [hlookup] at h
  cases h
 | some entry=>exact List.mem_filterMap.2 ⟨_,mem_of_lookup hlookup,rfl⟩

/-- No recorded reference that is reached from the value leads back to itself. -/
def Acyclic (m:TraceMap R) (val:Value R) : Prop :=
 ∀ a ∈ refs val, AcyclicBelow (Below m) a

theorem terminates_iff (hm:Finished m) :
  Terminates m val ↔ Acyclic m val := by
 rw [terminates_iff_acc hm]
 constructor
 · exact fun h a ha=>acyclicBelow_of_acc (h a ha)
 · intro h a ha
   refine acc_of_acyclicBelow (m.filterMap Prod.fst) (fun a b hba=>?_) (h a ha)
   obtain ⟨w,hw,-⟩:=hba
   exact mem_keys_of_recorded hw

end Depth

end L4Ide.EvalTraces
