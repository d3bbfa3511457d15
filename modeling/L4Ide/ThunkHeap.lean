import L4Ide.Machine
import L4Ide.MachineLocality
import L4Ide.Directives

set_option autoImplicit false

/-!
# The machine on a heap of thunks

A reference is an address. Its thunk is a value, or an expression that waits in its environment,
marked while it is being evaluated; once it is a value it stays that value.
-/
namespace L4Ide.ThunkHeap
open Syntax Environment ValueLazy Machine

abbrev Address := ℕ

inductive Thunk where
 | whnf (val:Value Address)
 | unevaluated (blackholed:Bool) (e:RExpr) (env:Env Address)

/-- The thunk of an address stands at its position. -/
abbrev Heap := List Thunk

def allocateRecursive (e:RExpr) (env:Env Address) (h:Heap) : Address × Heap :=
 (h.length,h ++ [.unevaluated false e env])

def allocateValue (val:Value Address) (h:Heap) : Address × Heap :=
 (h.length,h ++ [.whnf val])

/-! ### Local declarations -/

def declHead : LocalDecl Resolved → Resolved
 | .localDecide (.mkDecide _ appForm _ _)=>appForm.head
 | .localAssume a=>a.appForm.head

def preAllocateRef (r:Resolved) : Thunk := .unevaluated true (.var r) []

def preAllocate (names:List Resolved) (h:Heap) : Env Address × Heap :=
 ((names.zipIdx h.length).map fun p=>(p.1.getUnique,p.2)).reverse |>
  fun env' =>(env', h ++ names.map preAllocateRef)

def updateTerm (env:Env Address) (n:Resolved) (thunk:Thunk) (h:Heap) : Heap :=
 match lookupTerm env n with
 | none=>h
 | some rf=>h.set rf thunk

def localThunk (env:Env Address) : LocalDecl Resolved → Thunk
 | .localDecide (.mkDecide _ appForm e _)=>
  match appForm.args with
  | []=>.unevaluated false e env
  | args=>.whnf (.valClosure (args.map fun n=>⟨n,none⟩) e env)
 | .localAssume a=>.whnf (.valAssumed a.appForm.head)

def evalLocalDecl (env:Env Address) (h:Heap) (d:LocalDecl Resolved) : Heap :=
 updateTerm env (declHead d) (localThunk env d) h

def evalRecLocalDecls (env:Env Address) (decls:List (LocalDecl Resolved)) (h:Heap) :
  Env Address × Heap :=
 let allocated:=preAllocate (decls.map declHead) h
 (allocated.1,decls.foldl (evalLocalDecl (allocated.1 ++ env)) allocated.2)

/-! ### Forcing -/

def readThunk (rf:Address) (h:Heap) : Option (Value Address) :=
 match h[rf]? with
 | some (.whnf val)=>some val
 | _=>none

def pokeThunk (rf:Address) (h:Heap) : Poked Address × Heap :=
 match h[rf]? with
 | some (.whnf val)=>(.whnf val,h)
 | some (.unevaluated false e env)=>(.enter e env,h.set rf (.unevaluated true e env))
 | some (.unevaluated true e _)=>(.blackhole e,h)
 | none=>(.blackhole (.list []),h)

def updateThunkToWHNF (rf:Address) (val:Value Address) (h:Heap) : Heap :=
 h.set rf (.whnf val)

def unwindThunk (rf:Address) (h:Heap) : Heap :=
 match h[rf]? with
 | some (.unevaluated _ e env)=>h.set rf (.unevaluated false e env)
 | _=>h

structure Printer where
 prettyLayout : Value Address → String
 prettyReference : Address → String

/-- The machine with this limit on its frames. -/
def runtime (host:Host) (printer:Printer) (maximumFrameDepth:Option ℕ) :
  Runtime Address Heap where
 allocateRecursive:=allocateRecursive
 allocateValue:=allocateValue
 evalRecLocalDecls:=evalRecLocalDecls
 readThunk:=readThunk
 pokeThunk:=pokeThunk
 updateThunkToWHNF:=updateThunkToWHNF
 unwindThunk:=unwindThunk
 maximumFrameDepth:=maximumFrameDepth
 prettyLayout:=printer.prettyLayout
 prettyReference:=printer.prettyReference
 host:=host

end L4Ide.ThunkHeap

/-!
## A thunk that is a value stays that value

Every thunk that waits for its value is marked and waits once, so that only marked thunks are
written. A run therefore changes no thunk that is a value, nor does reading a value to normal form.
-/
namespace L4Ide.ThunkHeap
open Syntax Environment ValueLazy Machine MachineLogic MachineLocality

variable {A B:Type}

def updating : List (Frame Address) → List Address
 | []=>[]
 | .updateThunk rf::k=>rf::updating k
 | _::k=>updating k

structure Forcing (s:EvalState Address Heap) : Prop where
 marked : ∀ rf ∈ updating s.stack, ∃ e env, s.heap[rf]? = some (.unevaluated true e env)
 distinct : (updating s.stack).Nodup

def Persists (h h' : Heap) : Prop :=
 ∀ (rf:Address) (val:Value Address), h[rf]? = some (.whnf val) → h'[rf]? = some (.whnf val)

theorem Persists.refl (h:Heap) : Persists h h := fun _ _ hval=>hval

variable {h:Heap} {h': Heap} {f:Frame Address} {k:List (Frame Address)} {u:Unique} {rf:Address}

theorem Persists.trans {h h'': Heap} (hp:Persists h h') (hq:Persists h' h'') :
  Persists h h'' := fun rf val hval=>hq rf val (hp rf val hval)

def Keeps (x:Eval Address Heap A) : Prop :=
 ∀ s a s', Forcing s → x s = .ok a s' → Forcing s' ∧ Persists s.heap s'.heap

structure Rounds (x:Eval Address Heap (Config Address)) : Prop where
 keeps : Keeps x
 live : ∀ s c s', x s = .ok c s' → ∀ v, c ≠ .doneMachine v

theorem keeps_pure (a:A) : Keeps (pure a) := by
 intro s b s' hs h
 cases h
 exact ⟨hs,.refl s.heap⟩

theorem keeps_bind {x:Eval Address Heap A} {f:A → Eval Address Heap B} (hx:Keeps x)
  (hf:∀ a, Keeps (f a)) : Keeps (x >>= f) := by
 intro s b s' hs h
 cases hrun:x s with
 | error e t=>
  rw [bind_error hrun] at h
  cases h
 | ok a t=>
  rw [bind_ok hrun] at h
  obtain ⟨ht,hxt⟩:=hx s a t hs hrun
  obtain ⟨hs', hts⟩:=hf a t b s' ht h
  exact ⟨hs', hxt.trans hts⟩

theorem keeps_grow {op:Heap → A × Heap} (hop:∀ h, ∀ rf, rf < h.length → (op h).2[rf]? = h[rf]?) :
  Keeps (onHeap op) := by
 intro s a s' hs h
 obtain ⟨-,rfl⟩:=EStateM.Result.ok.inj h
 have hkept:∀ (rf:Address) (thunk:Thunk), s.heap[rf]? = some thunk → (op s.heap).2[rf]? = some thunk:=by
  intro rf thunk hthunk
  obtain ⟨hlt,-⟩:=List.getElem?_eq_some_iff.1 hthunk
  rw [hop s.heap rf hlt,hthunk]
 refine ⟨⟨fun rf hrf=>?_,hs.distinct⟩,fun rf val hval=>hkept rf _ hval⟩
 obtain ⟨e,env,hmarked⟩:=hs.marked rf hrf
 exact ⟨e,env,hkept rf _ hmarked⟩

theorem updating_cons (hf:isUpdateFrame f=false)
  (k:List (Frame Address)) : updating (f::k)=updating k := by
 cases f with
 | updateThunk rf=>cases hf
 | _=>rfl

theorem forcing_cons_iff (hf:isUpdateFrame f=false)
  : Forcing ⟨h,f::k⟩ ↔ Forcing ⟨h,k⟩ := by
 constructor
 · intro hs
   have hmarked:=hs.marked
   have hdistinct:=hs.distinct
   rw [updating_cons hf] at hmarked hdistinct
   exact ⟨hmarked,hdistinct⟩
 · intro hs
   refine ⟨?_, ?_⟩
   · rw [updating_cons hf]
     exact hs.marked
   · rw [updating_cons hf]
     exact hs.distinct

theorem Forcing.tail
  (hs:Forcing ⟨h,f::k⟩) : Forcing ⟨h,k⟩ := by
 cases f with
 | updateThunk rf=>
  exact ⟨fun a ha=>hs.marked a (List.mem_cons_of_mem rf ha),(List.nodup_cons.1 hs.distinct).2⟩
 | _=>exact (forcing_cons_iff rfl).1 hs

section Functions
variable {rt:Runtime Address Heap}

theorem keeps_raise (e:EvalException Address) : Keeps (raiseException rt e:Eval _ _ A) := by
 intro s a s' hs h
 cases h

theorem keeps_pushFrame {f:Frame Address} (hf:isUpdateFrame f=false) :
  Keeps (pushFrame rt f) := by
 intro s a s' hs h
 rw [pushFrame] at h
 split at h
 · cases h
 · cases h
   exact ⟨(forcing_cons_iff hf).2 hs,.refl s.heap⟩

end Functions

/-! ### Allocation -/

theorem allocateRecursive_old (e:RExpr) (env:Env Address) (h:Heap) (rf:Address)
  (hrf:rf < h.length) : (allocateRecursive e env h).2[rf]? = h[rf]? :=
 List.getElem?_append_left hrf

theorem allocateValue_old (val:Value Address) (h:Heap) (rf:Address) (hrf:rf < h.length) :
  (allocateValue val h).2[rf]? = h[rf]? :=
 List.getElem?_append_left hrf

theorem lookup_append_of_mem {env env' : Env Address}
  (h:(u,rf) ∈ env') : ∃ rf', (env' ++ env).lookup u=some rf' ∧ (u,rf') ∈ env' := by
 induction env' with
 | nil=>cases h
 | cons p env' ih=>
  obtain ⟨u', rf'⟩:=p
  rw [List.cons_append,List.lookup_cons]
  cases heq:u == u' with
  | true=>
   rw [beq_iff_eq] at heq
   subst heq
   exact ⟨rf', rfl,List.mem_cons_self⟩
  | false=>
   rw [beq_eq_false_iff_ne] at heq
   obtain hhd | htl:=List.mem_cons.1 h
   · exact absurd (congrArg Prod.fst hhd) heq
   · obtain ⟨rf'', hlookup,hmem⟩:=ih htl
     exact ⟨rf'', hlookup,List.mem_cons_of_mem _ hmem⟩

theorem preAllocate_new {names:List Resolved}
  (hmem:(u,rf) ∈ (preAllocate names h).1) : h.length ≤ rf := by
 rw [preAllocate] at hmem
 obtain ⟨⟨n,i⟩,hin,heq⟩:=List.mem_map.1 (List.mem_reverse.1 hmem)
 cases heq
 exact (List.le_snd_of_mem_zipIdx hin)

theorem preAllocate_mem {names:List Resolved} {n:Resolved} (hn:n ∈ names) :
  ∃ rf, (n.getUnique,rf) ∈ (preAllocate names h).1 := by
 rw [preAllocate]
 obtain ⟨i,hi,hget⟩:=List.mem_iff_getElem.1 hn
 refine ⟨h.length+i,List.mem_reverse.2 (List.mem_map.2 ⟨(n,h.length+i), ?_,rfl⟩)⟩
 exact List.mk_add_mem_zipIdx_iff_getElem?.2 (List.getElem?_eq_some_iff.2 ⟨hi,hget⟩)

theorem preAllocate_old (names:List Resolved) (h:Heap) (rf:Address) (hrf:rf < h.length) :
  (preAllocate names h).2[rf]? = h[rf]? :=
 List.getElem?_append_left hrf

theorem evalLocalDecl_old {names:List Resolved} {env:Env Address} {h: Heap}
  {d:LocalDecl Resolved} (hd:declHead d ∈ names) (rf:Address) (hrf:rf < h.length) :
  (evalLocalDecl ((preAllocate names h).1 ++ env) h' d)[rf]? = h'[rf]? := by
 obtain ⟨rf₁,hmem⟩:=preAllocate_mem (h := h) hd
 obtain ⟨rf₂,hlookup,hmem₂⟩ : ∃ rf₂, ((preAllocate names h).1 ++ env).lookup _=some rf₂ ∧ _:=
  lookup_append_of_mem hmem
 have hnew:=preAllocate_new hmem₂
 have hne:rf₂ ≠ rf:=Nat.ne_of_gt (Nat.lt_of_lt_of_le hrf hnew)
 rw [evalLocalDecl,updateTerm,lookupTerm,hlookup]
 exact List.getElem?_set_ne hne

theorem evalRecLocalDecls_old (env:Env Address) (decls:List (LocalDecl Resolved)) (h:Heap)
  (rf:Address) (hrf:rf < h.length) : (evalRecLocalDecls env decls h).2[rf]? = h[rf]? := by
 have hfold:∀ (ds:List (LocalDecl Resolved)) (h' : Heap), ds ⊆ decls →
   (ds.foldl (evalLocalDecl ((preAllocate (decls.map declHead) h).1 ++ env)) h')[rf]? =
    h'[rf]? := by
  intro ds
  induction ds with
  | nil=>exact fun _ _=>rfl
  | cons d ds ih=>
   intro h' hsub
   rw [List.foldl_cons,ih _ fun d' hd' =>hsub (List.mem_cons_of_mem d hd')]
   exact evalLocalDecl_old (List.mem_map_of_mem (hsub List.mem_cons_self)) rf hrf
 rw [evalRecLocalDecls,hfold decls _ (List.Subset.refl decls)]
 exact preAllocate_old _ h rf hrf

/-! ### A round of the machine -/

section Machine
variable {host:Host} {printer:Printer} {depth:Option ℕ}

theorem Rounds.bind {x:Eval Address Heap A} {f:A → Eval Address Heap (Config Address)}
  (hx:Keeps x) (hf:∀ a, Rounds (f a)) : Rounds (x >>= f) where
 keeps:=keeps_bind hx fun a=>(hf a).keeps
 live s c s' h := by
  cases hrun:x s with
  | error e t=>
   rw [bind_error hrun] at h
   cases h
  | ok a t=>
   rw [bind_ok hrun] at h
   exact (hf a).live t c s' h

theorem Rounds.of_pure {c:Config Address} (hc:∀ v, c ≠ .doneMachine v) :
  Rounds (pure c:Eval Address Heap (Config Address)) where
 keeps:=keeps_pure c
 live s c' s' h := by
  cases h
  exact hc

theorem Rounds.of_raise {rt:Runtime Address Heap} (e:EvalException Address) :
  Rounds (raiseException rt e) where
 keeps:=keeps_raise e
 live s c s' h := by cases h

def keepsLogic (host:Host) (printer:Printer) (depth:Option ℕ) :
  Logic (runtime host printer depth) where
 does:=Keeps
 leads:=Rounds
 doesPure:=keeps_pure
 doesBind _ _ := keeps_bind
 doesRaise e _ := keeps_raise e
 doesAllocateRecursive e env := keeps_grow (allocateRecursive_old e env)
 doesAllocateValue val := keeps_grow (allocateValue_old val)
 doesEvalRecLocalDecls env ds := keeps_grow (evalRecLocalDecls_old env ds)
 doesPush _ _ hu := keeps_pushFrame hu
 leadsBind _ _ := Rounds.bind
 leadsRaise e _ := Rounds.of_raise e
 leadsForward _ _ := Rounds.of_pure fun _ h=>by cases h
 leadsBranches _ _ _ _ := Rounds.of_pure fun _ h=>by cases h
 leadsBackward _ := Rounds.of_pure fun _ h=>by cases h
 leadsRef _ := Rounds.of_pure fun _ h=>by cases h

section Functions
variable (host printer depth)

theorem Rounds.of_leads {x:Eval Address Heap (Config Address)}
  (hx:Leads (keepsLogic host printer depth) x) : Rounds x := hx.holds

variable {f:Frame Address} {rf:Address} {h:Heap} {k:List (Frame Address)}

theorem does_pushFrame (hf:isUpdateFrame f=false) :
  Does (keepsLogic host printer depth) (pushFrame (runtime host printer depth) f) :=
 ⟨keeps_pushFrame hf⟩

theorem leads_pattern (r:Address) (env:Env Address) (p:Pattern Resolved) :
  Leads (keepsLogic host printer depth) (continuePattern r env p) :=
 ⟨Rounds.of_pure fun _ h=>by cases h⟩

theorem rounds_contract11 (g:ActionDoesntMatch Address) : Rounds (do
  let newTime ← Machine.allocateValue (runtime host printer depth) g.time
  pushFrame (runtime host printer depth) (.contractFrame
   (.contract1 { g with party:=.inr g.party,time:=newTime }))
  continueRef g.events : Eval Address Heap (Config Address)) :=
 Rounds.of_leads host printer depth inferInstance

theorem unwindToMatch_keeps (k:List (Frame Address)) (s:EvalState Address Heap)
  (c:Config Address) (s' : EvalState Address Heap) (hs:Forcing ⟨s.heap,k⟩)
  (h:unwindToMatch (runtime host printer depth) k s = .ok c s') :
  Forcing s' ∧ Persists s.heap s'.heap := by
 induction k with
 | nil=>cases h
 | cons f k ih=>
  cases f with
  | considerWhen1 clauses scrutinee e branches env=>
   cases h
   exact ⟨hs.tail,.refl s.heap⟩
  | contractFrame g=>
   cases g with
   | contract11 g=>
    exact (rounds_contract11 host printer depth g).keeps ⟨s.heap,k⟩ c s' hs.tail h
   | _=>exact ih hs.tail h
  | _=>exact ih hs.tail h

theorem unwindToMatch_live (k:List (Frame Address)) (s:EvalState Address Heap)
  (c:Config Address) (s' : EvalState Address Heap)
  (h:unwindToMatch (runtime host printer depth) k s = .ok c s') :
  ∀ v, c ≠ .doneMachine v := by
 induction k with
 | nil=>cases h
 | cons f k ih=>
  cases f with
  | considerWhen1 clauses scrutinee e branches env=>
   cases h
   exact fun v hv=>by cases hv
  | contractFrame g=>
   cases g with
   | contract11 g=>
    exact (rounds_contract11 host printer depth g).live ⟨s.heap,k⟩ c s' h
   | _=>exact ih h
  | _=>exact ih h

theorem rounds_patternMatchFailure :
  Rounds (patternMatchFailure (runtime host printer depth)) where
 keeps s c s' hs h := unwindToMatch_keeps host printer depth s.stack s c s' hs h
 live s c s' h := unwindToMatch_live host printer depth s.stack s c s' h

instance : Leads (keepsLogic host printer depth)
  (patternMatchFailure (runtime host printer depth)) :=
 ⟨rounds_patternMatchFailure host printer depth⟩

instance (r:Address) (env:Env Address) (p:Pattern Resolved) :
  Leads (keepsLogic host printer depth) (continuePattern r env p) :=
 leads_pattern host printer depth r env p

instance (n:Resolved) (env:Env Address) (ps:List (Pattern Resolved)) :
  Does (keepsLogic host printer depth)
   (pushFrame (runtime host printer depth) (.patApp0 n env ps)) :=
 does_pushFrame host printer depth rfl

instance (envs:List (Env Address)) (rps:List (Address × Pattern Resolved)) :
  Does (keepsLogic host printer depth)
   (pushFrame (runtime host printer depth) (.patApp1 envs rps)) :=
 does_pushFrame host printer depth rfl

instance : Does (keepsLogic host printer depth)
  (pushFrame (runtime host printer depth) .patNil0) :=
 does_pushFrame host printer depth rfl

instance (p1:Pattern Resolved) (env:Env Address) (p2:Pattern Resolved) :
  Does (keepsLogic host printer depth)
   (pushFrame (runtime host printer depth) (.patCons0 p1 env p2)) :=
 does_pushFrame host printer depth rfl

instance (rf2:Address) (env:Env Address) (p2:Pattern Resolved) :
  Does (keepsLogic host printer depth)
   (pushFrame (runtime host printer depth) (.patCons1 rf2 env p2)) :=
 does_pushFrame host printer depth rfl

instance (env1:Env Address) : Does (keepsLogic host printer depth)
  (pushFrame (runtime host printer depth) (.patCons2 env1)) :=
 does_pushFrame host printer depth rfl

instance (env:Env Address) (lit:RExpr) : Does (keepsLogic host printer depth)
  (pushFrame (runtime host printer depth) (.patLit0 env lit)) :=
 does_pushFrame host printer depth rfl

instance (lit:Value Address) : Does (keepsLogic host printer depth)
  (pushFrame (runtime host printer depth) (.patLit1 lit)) :=
 does_pushFrame host printer depth rfl

instance : Does (keepsLogic host printer depth)
  (pushFrame (runtime host printer depth) .patLit2) :=
 does_pushFrame host printer depth rfl

instance (n:Resolved) (env:Env Address) (ps:List (Pattern Resolved)) (val:Value Address) :
  Leads (keepsLogic host printer depth)
   (backwardPatApp0 (runtime host printer depth) n env ps val) := by
 unfold backwardPatApp0
 split <;> try infer_instance
 split <;> try infer_instance
 split <;> try infer_instance
 split <;> infer_instance

instance (envs:List (Env Address)) (env:Env Address)
  (rps:List (Address × Pattern Resolved)) :
  Leads (keepsLogic host printer depth)
   (backwardPatApp1 (runtime host printer depth) envs env rps) := by
 unfold backwardPatApp1
 split <;> infer_instance

instance (f:ScrutinizeParty Address) (val:Value Address) :
  Leads (keepsLogic host printer depth)
   (backwardContract8 (runtime host printer depth) f val) := by
 unfold backwardContract8 pushCFrame
 split <;> infer_instance

theorem rounds_backwardFrame (val:Value Address)
  (hu:isUpdateFrame f=false) :
  Rounds (backwardFrame (runtime host printer depth) val f) := by
 refine Rounds.of_leads host printer depth ?_
 cases hp:isPatternFrame f
 · cases h8:isPartyFrame f
   · exact leads_backwardFrame (keepsLogic host printer depth) val f hp hu h8
   · unfold isPartyFrame at h8
     split at h8
     · simp only [backwardFrame,backwardContractFrame]
       infer_instance
     · cases h8
 · cases f <;> try cases hp
   all_goals simp only [backwardFrame]
   all_goals first | infer_instance | (split <;> infer_instance)

theorem keeps_update {val:Value Address}
  (hs:Forcing ⟨h,.updateThunk rf::k⟩) :
  Forcing ⟨updateThunkToWHNF rf val h,k⟩ ∧ Persists h (updateThunkToWHNF rf val h) := by
 have hdistinct:=List.nodup_cons.1 hs.distinct
 refine ⟨⟨fun a ha=>?_,hdistinct.2⟩,fun a w hw=>?_⟩
 · obtain ⟨e,env,hmarked⟩:=hs.marked a (List.mem_cons_of_mem rf ha)
   have hne:rf ≠ a:=fun heq=>hdistinct.1 (heq ▸ ha)
   exact ⟨e,env,(List.getElem?_set_ne hne).trans hmarked⟩
 · obtain ⟨e,env,hmarked⟩:=hs.marked rf List.mem_cons_self
   have hne:rf ≠ a:=by
    rintro rfl
    cases hmarked.symm.trans hw
   exact (List.getElem?_set_ne hne).trans hw

theorem keeps_backward (val:Value Address) : Keeps (backward (runtime host printer depth) val) := by
 intro s c s' hs h
 obtain ⟨heap,stack⟩:=s
 cases stack with
 | nil=>
  cases h
  exact ⟨hs,.refl heap⟩
 | cons f k=>
  cases hu:isUpdateFrame f with
  | false=>exact (rounds_backwardFrame host printer depth val hu).keeps ⟨heap,k⟩ c s' hs.tail h
  | true=>
   cases f with
   | updateThunk rf=>
    cases h
    exact keeps_update hs
   | _=>cases hu

def forced (rf:Address) : Poked Address → Eval Address Heap (Config Address)
 | .whnf val=>whnfConfig (runtime host printer depth) val
 | .blackhole e=>userException (runtime host printer depth) (.blackholeForced e)
 | .enter e env=>do
  pushFrame (runtime host printer depth) (.updateThunk rf)
  continueExpr env e

theorem evalRef_eq (rf:Address) (s:EvalState Address Heap) :
  evalRef (runtime host printer depth) rf s =
   forced host printer depth rf (pokeThunk rf s.heap).1
    ⟨(pokeThunk rf s.heap).2,s.stack⟩ := by
 have hpoke:(onHeap ((runtime host printer depth).pokeThunk rf) :
   Eval Address Heap (Poked Address)) s =
    .ok (pokeThunk rf s.heap).1 ⟨(pokeThunk rf s.heap).2,s.stack⟩ := rfl
 refine (bind_ok hpoke).trans ?_
 cases (pokeThunk rf s.heap).1 with
 | whnf val=>rfl
 | blackhole e=>rfl
 | enter e env=>rfl

theorem forcing_enter {e:RExpr} {env:Env Address}
  (hs:Forcing ⟨h,k⟩)
  (hthunk:h[rf]? = some (.unevaluated false e env)) :
  Forcing ⟨h.set rf (.unevaluated true e env),.updateThunk rf::k⟩ ∧
   Persists h (h.set rf (.unevaluated true e env)) := by
 have hfree:rf ∉ updating k:=by
  intro hmem
  obtain ⟨e', env', hmarked⟩:=hs.marked rf hmem
  cases hthunk.symm.trans hmarked
 obtain ⟨hlt,-⟩:=List.getElem?_eq_some_iff.1 hthunk
 refine ⟨⟨fun a ha=>?_,List.nodup_cons.2 ⟨hfree,hs.distinct⟩⟩,fun a w hw=>?_⟩
 · obtain rfl | ha:=List.mem_cons.1 ha
   · exact ⟨e,env,List.getElem?_set_self hlt⟩
   · obtain ⟨e', env', hmarked⟩:=hs.marked a ha
     have hne:rf ≠ a:=fun heq=>hfree (heq ▸ ha)
     exact ⟨e', env', (List.getElem?_set_ne hne).trans hmarked⟩
 · have hne:rf ≠ a:=by
    rintro rfl
    cases hthunk.symm.trans hw
   exact (List.getElem?_set_ne hne).trans hw

theorem keeps_evalRef (rf:Address) : Keeps (evalRef (runtime host printer depth) rf) := by
 intro s c s' hs h
 rw [evalRef_eq] at h
 cases hthunk:s.heap[rf]? with
 | none=>
  simp only [pokeThunk,hthunk] at h
  cases h
 | some thunk=>
  cases thunk with
  | whnf val=>
   simp only [pokeThunk,hthunk] at h
   have hrounds:Rounds (whnfConfig (runtime host printer depth) val):=
    Rounds.of_leads host printer depth inferInstance
   exact hrounds.keeps s c s' hs h
  | unevaluated blackholed e env=>
   cases blackholed with
   | true=>
    simp only [pokeThunk,hthunk] at h
    cases h
   | false=>
    simp only [pokeThunk,hthunk,forced] at h
    cases hpush:pushFrame (runtime host printer depth) (.updateThunk rf)
      ⟨s.heap.set rf (.unevaluated true e env),s.stack⟩ with
    | error ex t=>
     rw [bind_error hpush] at h
     cases h
    | ok u t=>
     rw [bind_ok hpush] at h
     cases h
     rw [pushFrame] at hpush
     split at hpush
     · cases hpush
     · cases hpush
       exact forcing_enter hs hthunk

theorem rounds_matchBranches (clauses:Option PmGroup) (r:Address) (env:Env Address)
  (branches:List (Branch Resolved)) :
  Rounds (matchBranches (runtime host printer depth) clauses r env branches) := by
 unfold matchBranches
 split
 · refine ⟨fun s c s' _ h=>?_,fun s c s' h=>?_⟩
   · cases h
   · cases h
 · exact Rounds.of_leads host printer depth inferInstance
 · exact Rounds.of_leads host printer depth inferInstance

theorem rounds_matchPattern (r:Address) (env:Env Address) (p:Pattern Resolved) :
  Rounds (matchPattern (runtime host printer depth) r env p) := by
 refine Rounds.of_leads host printer depth ?_
 unfold matchPattern
 split <;> try infer_instance
 split <;> infer_instance

theorem keeps_step (c:Config Address) : Keeps (step (runtime host printer depth) c) := by
 cases c with
 | forwardMachine env e=>
  exact (Rounds.of_leads host printer depth
   (inferInstance:Leads _ (forwardExpr (runtime host printer depth) env e))).keeps
 | matchBranchesMachine clauses r env branches=>
  exact (rounds_matchBranches host printer depth clauses r env branches).keeps
 | matchPatternMachine r env p=>exact (rounds_matchPattern host printer depth r env p).keeps
 | backwardMachine val=>exact keeps_backward host printer depth val
 | evalRefMachine rf=>exact keeps_evalRef host printer depth rf
 | doneMachine val=>exact keeps_pure _

theorem forced_live (rf:Address) (p:Poked Address) (s:EvalState Address Heap)
  (c:Config Address) (s' : EvalState Address Heap)
  (h:forced host printer depth rf p s = .ok c s') : ∀ v, c ≠ .doneMachine v := by
 cases p with
 | whnf val=>
  have hrounds:Rounds (whnfConfig (runtime host printer depth) val):=
   Rounds.of_leads host printer depth inferInstance
  exact hrounds.live s c s' h
 | blackhole e=>cases h
 | enter e env=>
  rw [forced] at h
  cases hpush:pushFrame (runtime host printer depth) (.updateThunk rf) s with
  | error ex t=>
   rw [bind_error hpush] at h
   cases h
  | ok u t=>
   rw [bind_ok hpush] at h
   cases h
   exact fun v hv=>by cases hv

theorem step_done {c:Config Address} {s s' : EvalState Address Heap} {v:Value Address}
  (hc:∀ w, c ≠ .doneMachine w)
  (h:step (runtime host printer depth) c s = .ok (.doneMachine v) s') : s'.stack=[] := by
 cases c with
 | forwardMachine env e=>
  have hrounds:Rounds (forwardExpr (runtime host printer depth) env e):=
   Rounds.of_leads host printer depth inferInstance
  exact absurd rfl (hrounds.live s _ s' h v)
 | matchBranchesMachine clauses r env branches=>
  exact absurd rfl ((rounds_matchBranches host printer depth clauses r env branches).live s _ s' h v)
 | matchPatternMachine r env p=>
  exact absurd rfl ((rounds_matchPattern host printer depth r env p).live s _ s' h v)
 | backwardMachine val=>
  obtain ⟨heap,stack⟩:=s
  cases stack with
  | nil=>
   cases h
   rfl
  | cons f k=>
   cases hu:isUpdateFrame f with
   | false=>
    exact absurd rfl ((rounds_backwardFrame host printer depth val hu).live ⟨heap,k⟩ _ s' h v)
   | true=>
    cases f with
    | updateThunk rf=>cases h
    | _=>cases hu
 | evalRefMachine rf=>
  have hforced:=(evalRef_eq host printer depth rf s).symm.trans h
  exact absurd rfl (forced_live host printer depth _ _ _ _ _ hforced v)
 | doneMachine val=>exact absurd rfl (hc val)

end Functions

/-! ### Runs -/

section AnyStore
variable {R H:Type} {rt:Runtime R H}

variable {c:Config R} {s s': EvalState R H}

theorem runConfig_step (steps:ℕ) (hc:∀ w, c ≠ .doneMachine w)
  (s:EvalState R H) : Directives.runConfig rt (steps+1) c s =
   match step rt c s with
   | .ok c' s' =>⟨c::(Directives.runConfig rt steps c' s').entered,
     (Directives.runConfig rt steps c' s').result⟩
   | .error e s' =>⟨[c],some (.error e,s')⟩ := by
 cases c with
 | doneMachine w=>exact absurd rfl (hc w)
 | forwardMachine env e=>rfl
 | matchBranchesMachine clauses r env branches=>rfl
 | matchPatternMachine r env p=>rfl
 | backwardMachine val=>rfl
 | evalRefMachine rf=>rfl

theorem runConfig_error {steps:ℕ} {e:EvalException R}
  (hc:∀ w, c ≠ .doneMachine w) (h:step rt c s = .error e s') :
  (Directives.runConfig rt (steps+1) c s).result=some (.error e,s') := by
 rw [runConfig_step steps hc,h]

theorem runConfig_ok {steps:ℕ} {c c' : Config R}
  (hc:∀ w, c ≠ .doneMachine w) (h:step rt c s = .ok c' s') :
  (Directives.runConfig rt (steps+1) c s).result =
   (Directives.runConfig rt steps c' s').result := by
 rw [runConfig_step steps hc,h]

end AnyStore

section Runs
variable {host:Host} {printer:Printer} {depth:Option ℕ}

structure Delivered (s s' : EvalState Address Heap) : Prop where
 persists : Persists s.heap s'.heap
 finished : s'.stack=[]

theorem runConfig_delivered (steps:ℕ) : ∀ (c:Config Address) (s:EvalState Address Heap)
  (v:Value Address) (s' : EvalState Address Heap), Forcing s →
   (∀ w, c = .doneMachine w → s.stack=[]) →
   (Directives.runConfig (runtime host printer depth) steps c s).result=some (.ok v,s') →
    Delivered s s' := by
 induction steps with
 | zero=>
  intro c s v s' hs hdone h
  cases h
 | succ steps ih=>
  intro c s v s' hs hdone h
  by_cases hc:∃ w, c = .doneMachine w
  · obtain ⟨w,rfl⟩:=hc
    cases h
    exact ⟨.refl s.heap,hdone v rfl⟩
  · have hlive:∀ w, c ≠ .doneMachine w:=fun w hw=>hc ⟨w,hw⟩
    cases hstep:step (runtime host printer depth) c s with
    | error e t=>
     rw [runConfig_error hlive hstep] at h
     cases h
    | ok c' t=>
     rw [runConfig_ok hlive hstep] at h
     obtain ⟨ht,hpersists⟩:=keeps_step host printer depth c s c' t hs hstep
     obtain ⟨hrest,hfinished⟩:=ih c' t v s' ht (fun w hw=>by
      subst hw
      exact step_done host printer depth hlive hstep) h
     exact ⟨hpersists.trans hrest,hfinished⟩

theorem forcing_nil (h:Heap) : Forcing ⟨h,[]⟩ := by
 refine ⟨fun rf hrf=>?_,List.nodup_nil⟩
 cases hrf

end Runs

end Machine

end L4Ide.ThunkHeap
