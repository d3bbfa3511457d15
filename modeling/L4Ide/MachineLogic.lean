import L4Ide.Machine

set_option autoImplicit false

/-!
# Properties of every computation of the machine

A property of computations that the primitives have and that sequencing keeps holds of
every function of the machine outside pattern matching and the forcing of thunks: those
push only plain frames and do not lead to a pattern.
-/
namespace L4Ide.MachineLogic
open Syntax Environment ValueLazy Machine

variable {R H A B:Type}

def unhandled : EvalException R := .internalEvalException .unhandledPatternMatch

/-- A frame that waits for the environment of a pattern or the parts of one. -/
def isPatternFrame : Frame R → Bool
 | .patNil0 | .patCons0 .. | .patCons1 .. | .patCons2 .. | .patLit0 .. | .patLit1 .. | .patLit2
 | .patApp0 .. | .patApp1 ..=>true
 | _=>false

def isUpdateFrame : Frame R → Bool
 | .updateThunk _=>true
 | _=>false

class Plain (f:Frame R) : Prop where
 plain : isPatternFrame f=false ∧ isUpdateFrame f=false

/-- `does` is about the computations inside a step, `leads` about those that end it. -/
structure Logic (rt:Runtime R H) where
 does : {A:Type} → Eval R H A → Prop
 leads : Eval R H (Config R) → Prop
 doesPure : ∀ {A:Type} (a:A), does (pure a)
 doesBind : ∀ {A B:Type} (x:Eval R H A) (f:A → Eval R H B),
  does x → (∀ a, does (f a)) → does (x >>= f)
 doesRaise : ∀ {A:Type} (e:EvalException R), e ≠ unhandled →
  does (raiseException rt e:Eval R H A)
 doesAllocateRecursive : ∀ e env, does (onHeap (rt.allocateRecursive e env))
 doesAllocateValue : ∀ val, does (onHeap (rt.allocateValue val))
 doesEvalRecLocalDecls : ∀ env ds, does (onHeap (rt.evalRecLocalDecls env ds))
 doesPush : ∀ f, isPatternFrame f=false → isUpdateFrame f=false → does (pushFrame rt f)
 leadsBind : ∀ {A:Type} (x:Eval R H A) (f:A → Eval R H (Config R)),
  does x → (∀ a, leads (f a)) → leads (x >>= f)
 leadsRaise : ∀ e : EvalException R, e ≠ unhandled → leads (raiseException rt e)
 leadsForward : ∀ env e, leads (continueExpr env e)
 leadsBranches : ∀ g r env bs, leads (continueBranches g r env bs)
 leadsBackward : ∀ val, leads (continueBackward val)
 leadsRef : ∀ r, leads (continueRef r)

variable {rt:Runtime R H}

class Does (L:Logic rt) (x:Eval R H A) : Prop where
 holds : L.does x

class Leads (L:Logic rt) (x:Eval R H (Config R)) : Prop where
 holds : L.leads x

section PlainFrames

instance (op:BinOp) (e2:RExpr) (env:Env R) :
  Plain (.binOp1 op e2 env : Frame R) := ⟨rfl,rfl⟩

instance (op:BinOp) (v:Value R) : Plain (.binOp2 op v : Frame R) := ⟨rfl,rfl⟩

instance (e2 e3:RExpr) (env:Env R) : Plain (.post1 e2 e3 env : Frame R) := ⟨rfl,rfl⟩

instance (v:Value R) (e3:RExpr) (env:Env R) :
  Plain (.post2 v e3 env : Frame R) := ⟨rfl,rfl⟩

instance (v1 v2:Value R) : Plain (.post3 v1 v2 : Frame R) := ⟨rfl,rfl⟩

instance (rs:List R) (ty:Option (Type' Resolved)) :
  Plain (.app1 rs ty : Frame R) := ⟨rfl,rfl⟩

instance (e2 e3:RExpr) (env:Env R) : Plain (.ifThenElse1 e2 e3 env : Frame R) := ⟨rfl,rfl⟩

instance (g:Option PmGroup) (r:R) (e:RExpr) (bs:List (Branch Resolved)) (env:Env R) :
  Plain (.considerWhen1 g r e bs env : Frame R) := ⟨rfl,rfl⟩

instance (r:R) (rs:List (R × R)) : Plain (.eqConstructor1 r rs : Frame R) := ⟨rfl,rfl⟩

instance (v:Value R) (rs:List (R × R)) : Plain (.eqConstructor2 v rs : Frame R) := ⟨rfl,rfl⟩

instance (rs:List (R × R)) : Plain (.eqConstructor3 rs : Frame R) := ⟨rfl,rfl⟩

instance (fn:UnaryBuiltinFun) (ty:Option (Type' Resolved)) :
  Plain (.unaryBuiltin0 fn ty : Frame R) := ⟨rfl,rfl⟩

instance (op:BinOp) (r:R) : Plain (.binBuiltin1 op r : Frame R) := ⟨rfl,rfl⟩

instance (op:BinOp) (v:Value R) : Plain (.binBuiltin2 op v : Frame R) := ⟨rfl,rfl⟩

instance (fn:TernaryBuiltinFun) (r2 r3:R) :
  Plain (.ternaryBuiltin1 fn r2 r3 : Frame R) := ⟨rfl,rfl⟩

instance (fn:TernaryBuiltinFun) (v:Value R) (r3:R) :
  Plain (.ternaryBuiltin2 fn v r3 : Frame R) := ⟨rfl,rfl⟩

instance (fn:TernaryBuiltinFun) (v1 v2:Value R) :
  Plain (.ternaryBuiltin3 fn v1 v2 : Frame R) := ⟨rfl,rfl⟩

instance (f:ContractFrame R) : Plain (.contractFrame f : Frame R) := ⟨rfl,rfl⟩

instance (acc:List (Value R)) (es:List RExpr) (env:Env R) :
  Plain (.concatFrame acc es env : Frame R) := ⟨rfl,rfl⟩

instance : Plain (.asStringFrame : Frame R) := ⟨rfl,rfl⟩

instance (r1 r2:R) : Plain (.toStringDate1 r1 r2 : Frame R) := ⟨rfl,rfl⟩

instance (q:ℚ) (r:R) : Plain (.toStringDate2 q r : Frame R) := ⟨rfl,rfl⟩

instance (q1 q2:ℚ) : Plain (.toStringDate3 q1 q2 : Frame R) := ⟨rfl,rfl⟩

instance (acc:List String) (r:R) (b:Bool) :
  Plain (.jsonEncodeListFrame acc r b : Frame R) := ⟨rfl,rfl⟩

instance (acc:List String) (r:R) :
  Plain (.jsonEncodeNestedFrame acc r : Frame R) := ⟨rfl,rfl⟩

instance (acc:List (String × String)) (f:String) (rest:List (String × R)) :
  Plain (.jsonEncodeConstructorFrame acc f rest : Frame R) := ⟨rfl,rfl⟩

end PlainFrames

section Functions
variable (L:Logic rt)

instance (a:A) : Does L (pure a:Eval R H A) := ⟨L.doesPure a⟩

instance (x:Eval R H A) (f:A → Eval R H B) [hx:Does L x] [hf:∀ a, Does L (f a)] :
  Does L (x >>= f) :=
 ⟨L.doesBind x f hx.holds fun a=>(hf a).holds⟩

instance (x:Eval R H A) (f:A → Eval R H (Config R)) [hx:Does L x]
  [hf:∀ a, Leads L (f a)] : Leads L (x >>= f) :=
 ⟨L.leadsBind x f hx.holds fun a=>(hf a).holds⟩

instance (f:Frame R) [hf:Plain f] : Does L (pushFrame rt f) :=
 ⟨L.doesPush f hf.plain.1 hf.plain.2⟩

instance (e:RExpr) (env:Env R) : Does L (onHeap (rt.allocateRecursive e env)) :=
 ⟨L.doesAllocateRecursive e env⟩

instance (env:Env R) (ds:List (LocalDecl Resolved)) :
  Does L (onHeap (rt.evalRecLocalDecls env ds)) :=
 ⟨L.doesEvalRecLocalDecls env ds⟩

instance (val:Value R) : Does L (allocateValue rt val) := ⟨L.doesAllocateValue val⟩

theorem does_internal (e:InternalEvalException) (he:e ≠ .unhandledPatternMatch) :
  Does L (internalException rt e:Eval R H A) :=
 ⟨L.doesRaise _ fun h=>he (EvalException.internalEvalException.inj h)⟩

instance (e:UserEvalException R) : Does L (userException rt e:Eval R H A) :=
 ⟨L.doesRaise _ (by simp [unhandled])⟩

instance (e:UserEvalException R) : Leads L (userException rt e) :=
 ⟨L.leadsRaise _ (by simp [unhandled])⟩

instance (msg:String) : Does L (runtimeTypeError rt msg:Eval R H A) :=
 ⟨L.doesRaise _ (by simp [unhandled])⟩

instance (msg:String) : Leads L (runtimeTypeError rt msg) :=
 ⟨L.leadsRaise _ (by simp [unhandled])⟩

instance (n:Resolved) : Leads L (stuckOnAssumed rt n) :=
 ⟨L.leadsRaise _ (by simp [unhandled])⟩

instance (r:Refusal) : Leads L (refuseWith rt r) :=
 ⟨L.leadsRaise _ (by simp [unhandled])⟩

instance (env:Env R) (e:RExpr) : Leads L (continueExpr env e) := ⟨L.leadsForward env e⟩

instance (g:Option PmGroup) (r:R) (env:Env R) (bs:List (Branch Resolved)) :
  Leads L (continueBranches g r env bs) := ⟨L.leadsBranches g r env bs⟩

instance (val:Value R) : Leads L (continueBackward val) := ⟨L.leadsBackward val⟩

instance (r:R) : Leads L (continueRef r) := ⟨L.leadsRef r⟩

instance (env:Env R) (n:Resolved) : Does L (expectTerm rt env n) := by
 unfold expectTerm
 split
 · exact does_internal L _ (by simp)
 · infer_instance

instance (env:Env R) (e:RExpr) : Does L (allocate_ rt env e) := by
 unfold allocate_
 split <;> infer_instance

instance (env:Env R) (m:MaybeEvaluated R) : Leads L (maybeEvaluate (H := H) env m) := by
 unfold maybeEvaluate
 split <;> infer_instance

instance (f:B → Eval R H A) (l:List B) [hf:∀ b, Does L (f b)] : Does L (l.mapM f) := by
 induction l with
 | nil=>
  rw [List.mapM_nil]
  infer_instance
 | cons b l ih=>
  rw [List.mapM_cons]
  infer_instance

mutual

theorem does_allocateDatum : ∀ d : Datum, Does L (allocateDatum rt d)
 | .number _ | .string _ | .date _ | .time _ | .dateTime _ _ | .nil=>by
  unfold allocateDatum
  infer_instance
 | .cons hd tl=>by
  have hhd:=does_allocateDatum hd
  have htl:=does_allocateDatum tl
  unfold allocateDatum
  infer_instance
 | .con _ fields=>by
  have hfields:=does_allocateData fields
  unfold allocateDatum
  infer_instance

theorem does_allocateData : ∀ ds : List Datum, Does L (allocateData rt ds)
 | []=>by
  unfold allocateData
  infer_instance
 | d::ds=>by
  have hd:=does_allocateDatum d
  have hds:=does_allocateData ds
  unfold allocateData
  infer_instance

end

instance (f:ContractFrame R) : Does L (pushCFrame rt f) := by
 unfold pushCFrame
 infer_instance

instance (givens:GivenSig Resolved) (f:Frame R) [Plain f] (rs:List R) :
  Does L (matchGivens rt givens f rs) := by
 unfold matchGivens matchGivens'
 split <;> infer_instance

instance (op:BinOp) (env:Env R) (e1 e2:RExpr) : Leads L (pushBinOp1 rt op env e1 e2) := by
 unfold pushBinOp1
 infer_instance

instance (env:Env R) (e:Option RExpr) : Does L (allocateMaybe rt env e) := by
 unfold allocateMaybe
 split <;> infer_instance

instance (env:Env R) (e:RExpr) : Leads L (forwardExpr rt env e) := by
 unfold forwardExpr
 split <;> try infer_instance
 split <;> infer_instance

instance (kind:AtomKind) (val:Value R) : Does L (expectAtom rt kind val) := by
 unfold expectAtom
 split <;> infer_instance

instance (val:Value R) : Does L (expectNumber rt val) := by
 unfold expectNumber
 split <;> infer_instance

instance (val:Value R) : Does L (expectString rt val) := by
 unfold expectString
 split <;> infer_instance

instance (op:BinOp) (q:ℚ) : Does L (expectInteger rt op q) := by
 unfold expectInteger
 split <;> infer_instance

instance (label:String) (q:ℚ) : Does L (expectIntegerNamed rt label q) := by
 unfold expectIntegerNamed
 split <;> infer_instance

instance (rs:List R) : Does L (expect1 rt rs) := by
 unfold expect1
 split <;> infer_instance

instance (rs:List R) : Does L (expect2 rt rs) := by
 unfold expect2
 split <;> infer_instance

instance (rs:List R) : Does L (expect3 rt rs) := by
 unfold expect3
 split <;> infer_instance

instance (r:HostResult) : Leads L (runHost rt r) := by
 unfold runHost
 split <;> try infer_instance
 next d=>
  have hd:=does_allocateDatum L d
  infer_instance

instance (fn:TernaryBuiltinFun) (v1 v2 v3:Value R) :
  Leads L (runTernaryBuiltin rt fn v1 v2 v3) := by
 unfold runTernaryBuiltin
 infer_instance

instance (v1 v2 v3:Value R) : Leads L (runPost rt v1 v2 v3) := by
 unfold runPost
 infer_instance

instance (vals:List (Value R)) : Leads L (runConcat rt vals) := by
 unfold runConcat
 infer_instance

instance (val:Value R) : Leads L (coerceToString rt val) := by
 unfold coerceToString
 split <;> try infer_instance
 split <;> try infer_instance
 split <;> try infer_instance
 split <;> infer_instance

instance (d m y:ℚ) : Leads L (runDateToString rt d m y) := by
 unfold runDateToString
 infer_instance

instance (val:Value R) : Does L (encodeValueToJson rt val) := by
 unfold encodeValueToJson
 split <;> try infer_instance
 split <;> try infer_instance
 simp only []
 split <;> try infer_instance
 split <;> try infer_instance
 split <;> infer_instance

instance (con:Resolved) (fields:List R) : Leads L (encodeFields rt con fields) := by
 unfold encodeFields
 split <;> try infer_instance
 dsimp only
 split <;> try infer_instance
 split <;> try infer_instance
 split <;> infer_instance

instance (val:Value R) : Leads L (runJsonEncode rt val) := by
 unfold runJsonEncode
 split <;> try infer_instance
 dsimp only
 split
 · split <;> try infer_instance
   split <;> try infer_instance
   split <;> infer_instance
 · split <;> infer_instance
 · infer_instance

instance (val:Value R) (op:UnaryBuiltinFun) (ty:Option (Type' Resolved)) :
  Leads L (runBuiltin rt val op ty) := by
 unfold runBuiltin
 split <;> infer_instance

instance (v1 v2:Value R) : Leads L (runBinOpEquals rt v1 v2) := by
 unfold runBinOpEquals
 split <;> try infer_instance
 split <;> try infer_instance
 split <;> infer_instance

instance (v1 v2:Value R) : Leads L (runInvalidBinOp rt v1 v2) := by
 unfold runInvalidBinOp
 split <;> infer_instance

instance (holds:Ordering → Bool) (v1 v2:Value R) :
  Leads L (runComparison rt holds v1 v2) := by
 unfold runComparison
 split <;> infer_instance

instance (op:BinOp) (v1 v2:Value R) : Leads L (runBinOp rt op v1 v2) := by
 unfold runBinOp
 split <;> try infer_instance
 · split <;> infer_instance
 · have h:∀ n1 n2 : ℤ, Leads L (if n2 ≠ 0 then continueBackward (.valNumber (n1.fmod n2))
     else userException rt (.divisionByZero .binOpModulo) : Eval R H (Config R)) := by
    intro n1 n2
    split <;> infer_instance
   infer_instance

instance (frame:ScrutinizeEvents R) (events:R) : Leads L (tryNextEvent rt frame events) := by
 unfold tryNextEvent
 infer_instance

instance (env:Env R) (followup:RExpr) (events time:R) :
  Leads L (continueWithFollowup rt env followup events time) := by
 unfold continueWithFollowup
 infer_instance

instance (val:Value R) : Does L (assertTime rt val) := by
 unfold assertTime
 split <;> infer_instance

instance (env:Env R) (party:MaybeEvaluated R) : Does L (partyReference rt env party) := by
 unfold partyReference
 split <;> infer_instance

instance (f:ScrutinizeEvents R) (val:Value R) : Leads L (backwardContract1 rt f val) := by
 unfold backwardContract1
 split <;> infer_instance

instance (f:ScrutinizeEvent R) (val:Value R) : Leads L (backwardContract2 rt f val) := by
 unfold backwardContract2
 split <;> infer_instance

instance (f:ScrutinizeDue R) (val:Value R) : Leads L (backwardContract4 rt f val) := by
 unfold backwardContract4
 split <;> infer_instance

instance (f:CheckTiming R) (stamp deadline:ℚ) :
  Leads L (deadlinePassed rt f stamp deadline) := by
 unfold deadlinePassed
 split <;> try infer_instance
 all_goals split <;> infer_instance

instance (f:CheckTiming R) (newDue:ℚ) : Leads L (deadlineAhead rt f newDue) := by
 unfold deadlineAhead
 infer_instance

instance (f:CheckTiming R) (val:Value R) : Leads L (backwardContract5 rt f val) := by
 have h:∀ stamp due' time' : ℚ, Leads L (if stamp > time' + due' then
   deadlinePassed rt f stamp (time' + due')
  else deadlineAhead rt f (due' - (stamp-time'))) := by
  intro stamp due' time'
  split <;> infer_instance
 unfold backwardContract5
 infer_instance

instance (f:ScrutinizeEnvironment R) (val:Value R) :
  Leads L (backwardContract9 rt f val) := by
 unfold backwardContract9
 split <;> infer_instance

instance (f:ScrutinizeActions R) : Leads L (actionPerformed rt f) := by
 unfold actionPerformed
 split <;> try infer_instance
 split <;> infer_instance

instance (f:ScrutinizeActions R) (val:Value R) : Leads L (backwardContract10 rt f val) := by
 unfold backwardContract10
 split <;> infer_instance

instance (f:RBinOp1 R) (val:Value R) : Leads L (backwardRBinOp1 rt f val) := by
 unfold backwardRBinOp1
 split <;> infer_instance

instance (f:CurrentTimeWHNF R) (val:Value R) : Leads L (backwardContract3 rt f val) := by
 unfold backwardContract3
 infer_instance

instance (f:PartyWHNF R) (val:Value R) : Leads L (backwardContract6 rt f val) := by
 unfold backwardContract6
 infer_instance

instance (f:PartyEqual R) (val:Value R) : Leads L (backwardContract7 rt f val) := by
 unfold backwardContract7
 infer_instance

instance (f:RBinOp2 R) (val:Value R) : Leads L (backwardRBinOp2 (H := H) f val) := by
 unfold backwardRBinOp2
 infer_instance

instance (rs:List R) (ty:Option (Type' Resolved)) (val:Value R) :
  Leads L (backwardApp1 rt rs ty val) := by
 unfold backwardApp1
 split <;> try infer_instance
 split <;> try infer_instance
 · split <;> infer_instance
 · next fn _=>
   have h:∀ p : R × R, Leads L (match p with
     | (x,y)=>
      if fn = .binOpCons then continueBackward (.valCons x y)
      else do
       pushFrame rt (.binBuiltin1 fn y)
       continueRef x : Eval R H (Config R)) := by
    intro p
    dsimp only
    split <;> infer_instance
   infer_instance

instance (e2 e3:RExpr) (env:Env R) (val:Value R) :
  Leads L (backwardIfThenElse1 rt e2 e3 env val) := by
 unfold backwardIfThenElse1
 split <;> try infer_instance
 split <;> infer_instance

instance (doing:String) (val:Value R) : Does L (expectEnvironment rt doing val) := by
 unfold expectEnvironment
 split <;> infer_instance

instance (acc:List String) (tailRef:R) (expectingTail:Bool) (val:Value R) :
  Leads L (backwardJsonEncodeList rt acc tailRef expectingTail val) := by
 unfold backwardJsonEncodeList
 split <;> split <;> infer_instance

instance (acc:List (String × String)) (field encoded:String) (rest:List (String × R)) :
  Leads L (backwardJsonEncodeConstructor rt acc field encoded rest) := by
 unfold backwardJsonEncodeConstructor
 split <;> infer_instance

instance (val:Value R) : Leads L (whnfConfig rt val) := by
 unfold whnfConfig
 split <;> infer_instance

def isPartyFrame : Frame R → Bool
 | .contractFrame (.contract8 _)=>true
 | _=>false

theorem leads_backwardFrame (val:Value R) (f:Frame R) (hp:isPatternFrame f=false)
  (hu:isUpdateFrame f=false) (h8:isPartyFrame f=false) :
  Leads L (backwardFrame rt val f) := by
 cases f with
 | contractFrame g=>
  cases g with
  | contract8 g=>cases h8
  | _=>
   simp only [backwardFrame,backwardContractFrame]
   infer_instance
 | eqConstructor3 rfs=>
  simp only [backwardFrame]
  split <;> try infer_instance
  split <;> infer_instance
 | jsonEncodeNestedFrame acc r=>
  simp only [backwardFrame]
  split <;> infer_instance
 | jsonEncodeConstructorFrame acc field rest=>
  simp only [backwardFrame]
  split <;> infer_instance
 | concatFrame acc es env=>
  cases es with
  | nil=>
   simp only [backwardFrame]
   infer_instance
  | cons e es=>
   simp only [backwardFrame]
   infer_instance
 | patNil0=>cases hp
 | patCons0 p1 env p2=>cases hp
 | patCons1 r env p2=>cases hp
 | patCons2 env1=>cases hp
 | patLit0 env lit=>cases hp
 | patLit1 lit=>cases hp
 | patLit2=>cases hp
 | patApp0 n env ps=>cases hp
 | patApp1 envs rps=>cases hp
 | updateThunk r=>cases hu
 | _=>
  simp only [backwardFrame]
  infer_instance

end Functions

end L4Ide.MachineLogic
