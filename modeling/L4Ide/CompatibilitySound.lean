import L4Ide.Compatibility

set_option autoImplicit false

/-!
# What the compatibility gate promises

Where no change is reported, the arguments that the old schema accepts are accepted by the new
one and the results of the new schema by the old one, as far as both sides say something.
-/
namespace L4Ide.CompatibilitySound
open FunctionSchema Compatibility

section Messages
variable {dir:Dir} {fn loc:String}

theorem formatMsgs_eq_nil {oFmt nFmt:String} :
  formatMsgs dir fn loc oFmt nFmt=[] ↔ oFmt=nFmt := by
 unfold formatMsgs
 split
 · next h=>simp [h.1]
 · next h=>
   simp only [true_iff]
   by_contra hne
   exact h ⟨hne,fun he=>hne (he.1.trans he.2.symm)⟩

def EnumKept : Dir → List String → List String → Prop
 | .in_, oEnum, nEnum=>nEnum ≠ [] → oEnum ≠ [] ∧ ∀ v ∈ oEnum, v ∈ nEnum
 | .out, oEnum, nEnum=>oEnum ≠ [] → nEnum ≠ [] ∧ ∀ v ∈ nEnum, v ∈ oEnum

theorem enumMsgs_eq_nil {oEnum nEnum:List String} :
  enumMsgs dir fn loc oEnum nEnum=[] ↔ EnumKept dir oEnum nEnum := by
 unfold enumMsgs EnumKept
 cases dir with
 | in_=>
  by_cases ho:oEnum=[] <;> by_cases hn:nEnum=[]
  all_goals simp [ho,hn]
 | out=>
  by_cases ho:oEnum=[] <;> by_cases hn:nEnum=[]
  all_goals simp [ho,hn]

def ReqKept (k:String) : Dir → List String → List String → Prop
 | .in_, oldReq, newReq=>k ∈ newReq → k ∈ oldReq
 | .out, oldReq, newReq=>k ∈ oldReq → k ∈ newReq

variable {oldReq newReq:List String} {oldProps:TextMap Parameter}

theorem reqMsg_eq_nil {k:String} :
  reqMsg dir fn loc oldReq newReq k=[] ↔ ReqKept k dir oldReq newReq := by
 unfold reqMsg ReqKept
 cases dir <;> simp

theorem checkNew_eq_nil {k:String} :
  checkNew dir fn loc oldProps newReq k=[] ↔
   (dir = .in_ → k ∈ newReq → k ∈ oldProps.keys) := by
 unfold checkNew
 by_cases hk:k ∈ oldProps.keys <;> simp [hk]

theorem checkOld_eq_nil {newProps:TextMap Parameter} :
  checkOld dir fn loc oldReq newProps newReq oldProps=[] ↔
   ∀ k ov, (k,ov) ∈ oldProps → ∃ nv, newProps.lookup k=some nv ∧
    ReqKept k dir oldReq newReq ∧ diffNode dir fn (childLoc loc k) ov nv=[] := by
 induction oldProps with
 | nil=>simp [checkOld]
 | cons e rest ih=>
  obtain ⟨k,ov⟩:=e
  rw [checkOld,List.append_eq_nil_iff,ih]
  constructor
  · rintro ⟨hhead,htail⟩ k' ov' hmem
    rcases List.mem_cons.1 hmem with heq | hmem
    · obtain ⟨rfl,rfl⟩:=Prod.mk.inj heq
      split at hhead
      · cases hhead
      · next nv hnv=>
        obtain ⟨hreq,hnode⟩:=List.append_eq_nil_iff.1 hhead
        exact ⟨nv,hnv,reqMsg_eq_nil.1 hreq,hnode⟩
    · exact htail k' ov' hmem
  · intro h
    obtain ⟨nv,hnv,hreq,hnode⟩:=h k ov List.mem_cons_self
    refine ⟨?_,fun k' ov' hmem=>h k' ov' (List.mem_cons_of_mem _ hmem)⟩
    simp only [hnv,reqMsg_eq_nil.2 hreq,hnode,List.append_nil]

theorem diffObject_eq_nil {newProps:TextMap Parameter} :
  diffObject dir fn loc oldProps oldReq newProps newReq=[] ↔
   (∀ k ov, (k,ov) ∈ oldProps → ∃ nv, newProps.lookup k=some nv ∧
    ReqKept k dir oldReq newReq ∧ diffNode dir fn (childLoc loc k) ov nv=[]) ∧
   (dir = .in_ → ∀ k ∈ newProps.keys, k ∈ newReq → k ∈ oldProps.keys) := by
 unfold diffObject
 rw [List.append_eq_nil_iff,checkOld_eq_nil,List.flatMap_eq_nil_iff]
 refine and_congr_right fun _=>?_
 simp only [checkNew_eq_nil]
 exact ⟨fun h hdir k hk=>h k hk hdir,fun h k hk hdir=>h hdir k hk⟩

end Messages

structure NodeKept (dir:Dir) (fn loc:String) (old new:Parameter) : Prop where
 type : old.parameterType = "" ∨ new.parameterType = "" ∨ old.parameterType=new.parameterType
 format : old.parameterFormat.getD "" = new.parameterFormat.getD ""
 enum : EnumKept dir old.parameterEnum new.parameterEnum
 properties : (old.parameterProperties=none ∧ new.parameterProperties=none) ∨
  diffObject dir fn loc (old.parameterProperties.getD []) (old.parameterRequired.getD [])
   (new.parameterProperties.getD []) (new.parameterRequired.getD [])=[]
 items : ∀ oi ni, old.parameterItems=some oi → new.parameterItems=some ni →
  diffNode dir fn (itemsLoc loc) oi ni=[]

variable {fn loc:String}

theorem propertyMsgs_eq_nil {dir:Dir}
  {oldProperties newProperties:Option (TextMap Parameter)} {oldReq newReq:List String} :
  (match oldProperties,newProperties with
   | none,none=>[]
   | none,some newProps=>(TextMap.keys newProps).flatMap (checkNew dir fn loc [] newReq)
   | some oldProps,newProps=>
     checkOld dir fn loc oldReq (newProps.getD []) newReq oldProps ++
     (TextMap.keys (newProps.getD [])).flatMap (checkNew dir fn loc oldProps newReq))=[] ↔
   (oldProperties=none ∧ newProperties=none) ∨
    diffObject dir fn loc (oldProperties.getD []) oldReq (newProperties.getD []) newReq =
     [] := by
 cases oldProperties with
 | none=>
  cases newProperties with
  | none=>simp
  | some newProps=>simp [diffObject,checkOld]
 | some oldProps=>simp [diffObject]

theorem itemMsgs_eq_nil {dir:Dir} {oldItems newItems:Option Parameter} :
  (match oldItems,newItems with
   | some oi,some ni=>diffNode dir fn (itemsLoc loc) oi ni
   | _,_=>[])=[] ↔
   ∀ oi ni, oldItems=some oi → newItems=some ni →
    diffNode dir fn (itemsLoc loc) oi ni=[] := by
 cases oldItems with
 | none=>simp
 | some oi=>cases newItems <;> simp

theorem diffNode_eq_nil {dir:Dir} {old new:Parameter} :
  diffNode dir fn loc old new=[] ↔ NodeKept dir fn loc old new := by
 obtain ⟨oldType,oldFormat,oldEnum,oldProperties,oldItems,oldRequired⟩:=old
 rw [diffNode.eq_def]
 dsimp only
 by_cases htype:oldType ≠ "" ∧ new.parameterType ≠ "" ∧ oldType ≠ new.parameterType
 · rw [if_pos htype]
   refine ⟨fun h=>absurd h (List.cons_ne_nil _ _),fun h=>?_⟩
   rcases h.type with h | h | h
   · exact absurd h htype.1
   · exact absurd h htype.2.1
   · exact absurd h htype.2.2
 · have hsame:oldType = "" ∨ new.parameterType = "" ∨ oldType=new.parameterType:=by
    by_contra hne
    rw [not_or,not_or] at hne
    exact htype hne
   rw [if_neg htype,List.append_eq_nil_iff,List.append_eq_nil_iff,List.append_eq_nil_iff,
    formatMsgs_eq_nil,enumMsgs_eq_nil]
   refine (and_congr (and_congr Iff.rfl propertyMsgs_eq_nil) itemMsgs_eq_nil).trans ?_
   exact ⟨fun h=>⟨hsame,h.1.1.1,h.1.1.2,h.1.2,h.2⟩,
    fun h=>⟨⟨⟨h.format,h.enum⟩,h.properties⟩,h.items⟩⟩

/-- The side whose values there are: the old one for arguments, the new one for results. -/
def giving {α:Type} : Dir → α → α → α
 | .in_, old, _=>old
 | .out, _, new=>new

def taking {α:Type} : Dir → α → α → α
 | .in_, _, new=>new
 | .out, old, _=>old

/-- Where the gate compares two schemas, what the taking side says the giving side says too. -/
inductive Aligned : Dir → Parameter → Parameter → Prop where
 | mk (dir:Dir) (old new:Parameter)
   (htype:(giving dir old new).parameterType = "" → (taking dir old new).parameterType = "")
   (hrequired:∀ k ∈ (taking dir old new).parameterRequired.getD [],
    k ∈ TextMap.keys ((taking dir old new).parameterProperties.getD []) ∨
     k ∈ (giving dir old new).parameterRequired.getD [])
   (hproperties:dir = .in_ → old.parameterProperties=none → new.parameterProperties=none)
   (hitems:(giving dir old new).parameterItems=none →
    (taking dir old new).parameterItems=none)
   (heach:∀ k oq nq, List.lookup k (old.parameterProperties.getD [])=some oq →
    List.lookup k (new.parameterProperties.getD [])=some nq → Aligned dir oq nq)
   (hitem:∀ oi ni, old.parameterItems=some oi → new.parameterItems=some ni →
    Aligned dir oi ni) : Aligned dir old new

section Sound
variable {r:Reading} {dir:Dir} {fn loc:String} {old new:Parameter}

variable {k:String}

theorem NodeKept.common (h:NodeKept dir fn loc old new) {oq:Parameter}
  (ho:List.lookup k (old.parameterProperties.getD [])=some oq) :
  ∃ nq, List.lookup k (new.parameterProperties.getD [])=some nq ∧
   ReqKept k dir (old.parameterRequired.getD []) (new.parameterRequired.getD []) ∧
   diffNode dir fn (childLoc loc k) oq nq=[] := by
 rcases h.properties with ⟨hnone,-⟩ | hdiff
 · rw [hnone] at ho
   cases ho
 · exact (diffObject_eq_nil.1 hdiff).1 k oq (mem_of_lookup ho)

theorem NodeKept.required_in (h:NodeKept .in_ fn loc old new)
  (hk:k ∈ TextMap.keys (new.parameterProperties.getD []))
  (hreq:k ∈ new.parameterRequired.getD []) : k ∈ old.parameterRequired.getD [] := by
 rcases h.properties with ⟨-,hnone⟩ | hdiff
 · rw [hnone] at hk
   cases hk
 · obtain ⟨hold,hnew⟩:=diffObject_eq_nil.1 hdiff
   obtain ⟨oq,hoq⟩:=lookup_of_mem_keys (hnew rfl k hk hreq)
   obtain ⟨nq,-,hkept,-⟩:=hold k oq (mem_of_lookup hoq)
   exact hkept hreq

theorem NodeKept.required_out (h:NodeKept .out fn loc old new)
  (hk:k ∈ TextMap.keys (old.parameterProperties.getD []))
  (hreq:k ∈ old.parameterRequired.getD []) : k ∈ new.parameterRequired.getD [] := by
 obtain ⟨oq,hoq⟩:=lookup_of_mem_keys hk
 obtain ⟨nq,-,hkept,-⟩:=h.common hoq
 exact hkept hreq

theorem NodeKept.required (h:NodeKept dir fn loc old new)
  (hk:k ∈ TextMap.keys ((taking dir old new).parameterProperties.getD []))
  (hreq:k ∈ (taking dir old new).parameterRequired.getD []) :
  k ∈ (giving dir old new).parameterRequired.getD [] := by
 cases dir with
 | in_=>exact h.required_in hk hreq
 | out=>exact h.required_out hk hreq

theorem valid_taking (dir:Dir) {p:Parameter} {j:Json} (h:Valid r p j) :
  ∀ {fn loc:String} {old new:Parameter}, giving dir old new=p →
   diffNode dir fn loc old new=[] → Aligned dir old new → (dir = .in_ → Declared p j) →
   Valid r (taking dir old new) j := by
 induction h with
 | mk p j htype hformat henum hrequired hproperties hitems ihproperties ihitems=>
  intro fn loc old new hp hdiff haligned hdeclared
  have hkept:=diffNode_eq_nil.1 hdiff
  cases haligned with
  | mk _ _ atype arequired aproperties aitems aeach aitem=>
   subst hp
   refine .mk _ _ (fun hne=>?_) (fun hne=>?_) (fun hne=>?_) (fun fields hj k hk=>?_)
    (fun fields props hj hprops k q v hq hv hnull=>?_) (fun vs q hj hq v hv=>?_)
   · have hgiving:(giving dir old new).parameterType ≠ "":=fun he=>hne (atype he)
     have hsame:(taking dir old new).parameterType=(giving dir old new).parameterType:=by
      cases dir with
      | in_=>exact ((hkept.type.resolve_left hgiving).resolve_left hne).symm
      | out=>exact (hkept.type.resolve_left hne).resolve_left hgiving
     rw [hsame]
     exact htype hgiving
   · have hsame:(taking dir old new).parameterFormat.getD "" =
       (giving dir old new).parameterFormat.getD "" := by
      cases dir with
      | in_=>exact hkept.format.symm
      | out=>exact hkept.format
     rw [hsame] at hne ⊢
     exact hformat hne
   · have hsub:(giving dir old new).parameterEnum ≠ [] ∧
       ∀ v ∈ (giving dir old new).parameterEnum, v ∈ (taking dir old new).parameterEnum := by
      cases dir with
      | in_=>exact hkept.enum hne
      | out=>exact hkept.enum hne
     obtain ⟨s,hs,hj⟩:=henum hsub.1
     exact ⟨s,hsub.2 s hs,hj⟩
   · refine hrequired fields hj k ?_
     rcases arequired k hk with hkey | hreq
     · exact hkept.required hkey hk
     · exact hreq
   · cases dir with
     | in_=>
      -- a declared argument: the old schema has the property, so the new one keeps it
      cases hold:old.parameterProperties with
      | none=>exact absurd (aproperties rfl hold) (by simp [show new.parameterProperties=_ from hprops])
      | some oprops=>
       cases hdeclared rfl with
       | mk _ _ hkeys hdprops hditems=>
        obtain ⟨oq,hoq⟩:=lookup_of_mem_keys (hkeys fields oprops hj hold k v hv)
        have hoq' : List.lookup k (old.parameterProperties.getD [])=some oq:=by
         rw [hold]
         exact hoq
        obtain ⟨nq,hnq,hreq,hnode⟩:=hkept.common hoq'
        have hnq' : List.lookup k (new.parameterProperties.getD [])=some q:=by
         rw [show new.parameterProperties=_ from hprops]
         exact hq
        obtain rfl : nq=q:=Option.some.inj (hnq.symm.trans hnq')
        exact ihproperties fields oprops hj hold k oq v hoq hv
         (fun hn=>hreq (hnull hn)) rfl hnode (aeach k oq nq hoq' hnq)
         fun _=>hdprops fields oprops hj hold k oq v hoq hv
     | out=>
      have hoq:List.lookup k (old.parameterProperties.getD [])=some q:=by
       rw [show old.parameterProperties=_ from hprops]
       exact hq
      obtain ⟨nq,hnq,hreq,hnode⟩:=hkept.common hoq
      cases hnew:new.parameterProperties with
      | none=>
       rw [hnew] at hnq
       cases hnq
      | some nprops=>
       have hnq' : List.lookup k nprops=some nq:=by
        rw [hnew] at hnq
        exact hnq
       exact ihproperties fields nprops hj hnew k nq v hnq' hv
        (fun hn=>hreq (hnull hn)) rfl hnode (aeach k q nq hoq hnq) fun h=>by cases h
   · cases hgiving:(giving dir old new).parameterItems with
     | none=>
      rw [aitems hgiving] at hq
      cases hq
     | some gi=>
      have hdgi:dir = .in_ → Declared gi v:=fun hd=>by
       cases hdeclared hd with
       | mk _ _ hkeys hdprops hditems=>exact hditems vs gi hj hgiving v hv
      cases dir with
      | in_=>
       exact ihitems vs gi hj hgiving v hv rfl (hkept.items gi q hgiving hq)
        (aitem gi q hgiving hq) hdgi
      | out=>
       exact ihitems vs gi hj hgiving v hv rfl (hkept.items q gi hq hgiving)
        (aitem q gi hq hgiving) hdgi

end Sound

section Whole
variable (r:Reading)

/-- Callers of the old functions can go on with the new ones. -/
def SafeUpdate (old new:List FnIface) : Prop :=
 ∀ o ∈ old, ∃ n ∈ new, n.ifName=o.ifName ∧
  (∀ j, Valid r (Parameters.schema o.ifParams) j → Declared (Parameters.schema o.ifParams) j →
   Valid r (Parameters.schema n.ifParams) j) ∧
  ∀ j, ValidResult r n j → ValidResult r o j

structure AlignedFn (old new:FnIface) : Prop where
 params : Aligned .in_ (Parameters.schema old.ifParams) (Parameters.schema new.ifParams)
 returnType : new.ifReturnType = "" → old.ifReturnType = ""
 returnSchema : new.ifReturnSchema=none → old.ifReturnSchema=none
 results : ∀ os ns, old.ifReturnSchema=some os → new.ifReturnSchema=some ns →
  Aligned .out os ns

variable {r} {old new:FnIface}

theorem newByName_some {news:List FnIface} {name:String}
  (h:newByName news name=some new) : new ∈ news ∧ new.ifName=name := by
 have hname:=List.find?_some h
 exact ⟨List.mem_reverse.1 (List.mem_of_find?_eq_some h),of_decide_eq_true hname⟩

theorem diffFn_params (h:diffFn old new=[]) :
  diffObject .in_ old.ifName "" old.ifParams.parameterMap old.ifParams.required
   new.ifParams.parameterMap new.ifParams.required=[] :=
 (List.append_eq_nil_iff.1 (List.append_eq_nil_iff.1 h).1).2

theorem schema_kept (h:diffFn old new=[]) :
  diffNode .in_ old.ifName "" (Parameters.schema old.ifParams)
   (Parameters.schema new.ifParams)=[] :=
 diffNode_eq_nil.2 ⟨.inr (.inr rfl),rfl,fun hne=>absurd rfl hne,
  .inr (diffFn_params h),fun oi ni hoi=>by cases hoi⟩

theorem diffFn_result (h:diffFn old new=[]) (ha:AlignedFn old new) {j:Json}
  (hj:ValidResult r new j) : ValidResult r old j := by
 obtain ⟨hhead,htail⟩:=List.append_eq_nil_iff.1 h
 have hsame:¬ returnTypeChanged old new:=fun hc=>by
  have hmsg:=(List.append_eq_nil_iff.1 hhead).1
  rw [if_pos hc] at hmsg
  cases hmsg
 rw [if_neg hsame] at htail
 constructor
 · intro hne
   have hnew:new.ifReturnType ≠ "":=fun he=>hne (ha.returnType he)
   have heq:old.ifReturnType=new.ifReturnType:=by
    by_contra hdiff
    exact hsame ⟨hne,hnew,hdiff⟩
   rw [heq]
   exact hj.type hnew
 · intro os hos
   cases hns:new.ifReturnSchema with
   | none=>
    rw [ha.returnSchema hns] at hos
    cases hos
   | some ns=>
    rw [hos,hns] at htail
    exact valid_taking .out (hj.schema ns hns) rfl htail (ha.results os ns hos hns)
     fun h=>by cases h

theorem safeUpdate_of_detect {olds news:List FnIface} (h:detectBreakingChanges olds news=[])
  (ha:∀ o ∈ olds, ∀ n, newByName news o.ifName=some n → AlignedFn o n) :
  SafeUpdate r olds news := by
 intro o ho
 obtain ⟨hchanged,hremoved⟩:=List.append_eq_nil_iff.1 h
 cases hn:newByName news o.ifName with
 | none=>
  have hmem:o ∈ olds.filter fun o=>(newByName news o.ifName).isNone:=
   List.mem_filter.2 ⟨ho,by rw [hn]; rfl⟩
  rw [List.map_eq_nil_iff.1 hremoved] at hmem
  cases hmem
 | some n=>
  have hdiff:diffFn o n=[]:=by
   have hall:=List.flatMap_eq_nil_iff.1 hchanged o ho
   rw [hn] at hall
   exact hall
  obtain ⟨hmem,hname⟩:=newByName_some hn
  have haligned:=ha o ho n hn
  refine ⟨n,hmem,hname,fun j hj hd=>?_,fun j hj=>diffFn_result hdiff haligned hj⟩
  exact valid_taking .in_ hj rfl (schema_kept hdiff) haligned.params fun _=>hd

theorem enumKept_refl (dir:Dir) (vs:List String) : EnumKept dir vs vs := by
 cases dir <;> exact fun hne=>⟨hne,fun v hv=>hv⟩

theorem reqKept_refl (k:String) (dir:Dir) (req:List String) : ReqKept k dir req req := by
 cases dir <;> exact fun hk=>hk

theorem diffObject_refl {dir:Dir} {fn loc:String} {props:TextMap Parameter}
  {req:List String} (hm:props.Ordered)
  (hnodes:∀ k q, (k,q) ∈ props → ∀ loc, diffNode dir fn loc q q=[]) :
  diffObject dir fn loc props req props req=[] :=
 diffObject_eq_nil.2 ⟨fun k q hq=>⟨q,lookup_of_mem hm hq,reqKept_refl k dir req,
  hnodes k q hq (childLoc loc k)⟩,fun _ _ hk _=>hk⟩

theorem diffNode_refl {p:Parameter} (hp:p.Ordered) (dir:Dir) (fn:String) :
  ∀ loc, diffNode dir fn loc p p=[] := by
 induction hp with
 | mk p hmap hprops hitems ihprops ihitems=>
  intro loc
  refine diffNode_eq_nil.2 ⟨.inr (.inr rfl),rfl,enumKept_refl dir _, ?_,fun oi ni hoi hni=>?_⟩
  · cases hp:p.parameterProperties with
    | none=>exact .inl ⟨rfl,rfl⟩
    | some props=>
     exact .inr (diffObject_refl (hmap props hp) fun k q hq loc=>ihprops props hp k q hq loc)
  · obtain rfl:=Option.some.inj (hoi.symm.trans hni)
    exact ihitems oi hoi (itemsLoc loc)

theorem diffFn_refl (f:FnIface) : diffFn f f=[] := by
 have hsame:¬ returnTypeChanged f f:=fun h=>h.2.2 rfl
 unfold diffFn
 rw [if_neg hsame,if_neg hsame,List.nil_append,
  diffObject_refl f.params_ordered.map fun _ q hq loc=>
   diffNode_refl (f.params_ordered.each _ q hq) .in_ f.ifName loc]
 cases hs:f.ifReturnSchema with
 | none=>rfl
 | some p=>exact diffNode_refl (f.return_ordered p hs) .out f.ifName ""

theorem newByName_self {xs:List FnIface} (h:(xs.map (·.ifName)).Nodup) {f:FnIface}
  (hf:f ∈ xs) : newByName xs f.ifName=some f := by
 have hsome:(newByName xs f.ifName).isSome:=by
  refine List.find?_isSome.2 ⟨f,List.mem_reverse.2 hf,decide_eq_true rfl⟩
 obtain ⟨g,hg⟩:=Option.isSome_iff_exists.1 hsome
 obtain ⟨hmem,hname⟩:=newByName_some hg
 rw [hg,List.inj_on_of_nodup_map h hmem hf hname]

theorem detectBreakingChanges_self {xs:List FnIface} (h:(xs.map (·.ifName)).Nodup) :
  detectBreakingChanges xs xs=[] := by
 refine List.append_eq_nil_iff.2 ⟨List.flatMap_eq_nil_iff.2 fun f hf=>?_, ?_⟩
 · rw [newByName_self h hf]
   exact diffFn_refl f
 · rw [List.map_eq_nil_iff,List.filter_eq_nil_iff]
   intro f hf
   rw [newByName_self h hf]
   simp

end Whole

section Examples

/-- The names of types as JSON Schema has them. -/
def jsonSchema : Reading where
 typeAccepts
  | "boolean", j=>∃ b, j = .bool b
  | "number", j=>∃ q, j = .number q
  | "string", j=>∃ s, j = .string s
  | "array", j=>∃ vs, j = .array vs
  | "object", j=>∃ fields, j = .object fields
  | _, _=>True
 formatAccepts _ _ := True
 returnAccepts _ _ := True

def prim (t:String) : Parameter := ⟨t,none,[],none,none,none⟩

theorem prim_ordered (t:String) : (prim t).Ordered :=
 .mk _ (fun _ h=>by cases h) (fun _ h=>by cases h) fun _ h=>by cases h

def boolFn (schema:Option Parameter) (h:∀ p, schema=some p → p.Ordered) : FnIface where
 ifName:="f"
 ifParams:=⟨[],[]⟩
 ifReturnType:="BOOLEAN"
 ifReturnSchema:=schema
 params_ordered:=⟨.nil,fun _ _ h=>by cases h⟩
 return_ordered:=h

def described : FnIface :=
 boolFn (some (prim "boolean")) fun _ h=>Option.some.inj h ▸ prim_ordered "boolean"

def undescribed : FnIface := boolFn none fun _ h=>by cases h

theorem detect_undescribed : detectBreakingChanges [described] [undescribed]=[] := by
 simp [detectBreakingChanges,newByName,diffFn,returnTypeChanged,diffObject,checkOld,
  described,undescribed,boolFn,TextMap.keys]

theorem aligned_prim (dir:Dir) (t:String) : Aligned dir (prim t) (prim t) := by
 refine .mk _ _ _ (fun h=>?_) (fun k hk=>?_) (fun _ h=>h) (fun h=>?_)
  (fun k oq nq h=>by cases h) fun oi ni h=>by cases h
 · cases dir <;> exact h
 · cases dir <;> cases hk
 · cases dir <;> exact h

theorem alignedFn_described : AlignedFn described described where
 params:=.mk _ _ _ (fun h=>h) (fun k hk=>by cases hk) (fun _ h=>h) (fun h=>h)
  (fun k oq nq h=>by cases h) fun oi ni h=>by cases h
 returnType h := h
 returnSchema h := h
 results os ns hos hns := by
  obtain rfl:=Option.some.inj hos
  obtain rfl:=Option.some.inj hns
  exact aligned_prim .out "boolean"

end Examples

end L4Ide.CompatibilitySound
