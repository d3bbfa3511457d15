import L4Ide.SanitizedNames

set_option autoImplicit false

/-!
# The way back from sanitised names

Renaming each level of an argument object and then remapping it with one map for all levels
gives the object back, unless the levels share a sanitised name or one is not in the map.
-/
namespace L4Ide.SanitizedNamesRoundTrip
open FunctionSchema SanitizedNames SanitizedNamesText

def propsOf (s:Option Parameter) : TextMap Parameter := (s.bind (·.parameterProperties)).getD []

def itemsOf (s:Option Parameter) : Option Parameter := s.bind (·.parameterItems)

section Renaming
variable (u:Unicode)

mutual

def renameLiteral : Option Parameter → FnLiteral → FnLiteral
 | s, .fnObject ps=>.fnObject (renameFields (propsOf s) ps)
 | s, .fnArray vs=>.fnArray (renameElements (itemsOf s) vs)
 | _, v=>v

def renameFields (props:TextMap Parameter) :
  List (String × FnLiteral) → List (String × FnLiteral)
 | []=>[]
 | (k,v)::rest=>(finalOf u props.keys k,renameLiteral (props.lookup k) v) ::
   renameFields props rest

def renameElements (s:Option Parameter) : List FnLiteral → List FnLiteral
 | []=>[]
 | v::rest=>renameLiteral s v::renameElements s rest

end

def renameArguments (ps:Parameters) (args:List (String × Option FnLiteral)) :
  List (String × Option FnLiteral) :=
 args.map fun (k,v)=>(finalOf u ps.parameterMap.keys k,
  v.map (renameLiteral u (ps.parameterMap.lookup k)))

end Renaming

def IsScalar : FnLiteral → Prop
 | .fnObject _ | .fnArray _=>False
 | _=>True

inductive Over : Option Parameter → FnLiteral → Prop where
 | scalar (s:Option Parameter) (v:FnLiteral) (h:IsScalar v) : Over s v
 | array (s:Option Parameter) (vs:List FnLiteral) (h:∀ v ∈ vs, Over (itemsOf s) v) :
   Over s (.fnArray vs)
 | object (s:Option Parameter) (ps:List (String × FnLiteral))
   (hkeys:∀ e ∈ ps, e.1 ∈ (propsOf s).keys)
   (h:∀ e ∈ ps, Over ((propsOf s).lookup e.1) e.2) : Over s (.fnObject ps)

def OverArguments (ps:Parameters) (args:List (String × Option FnLiteral)) : Prop :=
 ∀ e ∈ args, e.1 ∈ ps.parameterMap.keys ∧
  ∀ v, e.2=some v → Over (ps.parameterMap.lookup e.1) v

/-- The schemas within the properties, at every depth of objects and arrays. -/
inductive Node (props:TextMap Parameter) : Parameter → Prop where
 | property (k:String) (p:Parameter) (h:props.lookup k=some p) : Node props p
 | nested (q p:Parameter) (k:String) (hq:Node props q)
   (h:(propsOf (some q)).lookup k=some p) : Node props p
 | items (q p:Parameter) (hq:Node props q) (h:q.parameterItems=some p) : Node props p

inductive Level (props:TextMap Parameter) : TextMap Parameter → Prop where
 | top : Level props props
 | nested (q:Parameter) (l:TextMap Parameter) (hq:Node props q)
   (hl:q.parameterProperties=some l) : Level props l

/-- The levels that the reverse map is collected from: not those of arrays in arrays. -/
inductive Collected : TextMap Parameter → TextMap Parameter → Prop where
 | here (props:TextMap Parameter) : Collected props props
 | nested (props inner l:TextMap Parameter) (k:String) (p:Parameter) (hp:(k,p) ∈ props)
   (h:p.parameterProperties=some inner) (hl:Collected inner l) : Collected props l
 | items (props inner l:TextMap Parameter) (k:String) (p q:Parameter) (hp:(k,p) ∈ props)
   (hq:p.parameterItems=some q) (h:q.parameterProperties=some inner)
   (hl:Collected inner l) : Collected props l

section Properties
variable (u:Unicode) (ps:Parameters)

/-- Every argument object comes back, and the names are names for tools. -/
structure RoundTrips : Prop where
 remap : ∀ args, OverArguments ps args →
  remapArguments (buildPropertyReverseMap u ps) (renameArguments u ps args)=args
 distinct : ∀ l, Level ps.parameterMap l → (l.keys.map (finalOf u l.keys)).Nodup
 short : ∀ l, Level ps.parameterMap l → ∀ o ∈ l.keys, (finalOf u l.keys o).length ≤ 64
 chars : ∀ l, Level ps.parameterMap l → ∀ o ∈ l.keys, ∀ c ∈ (finalOf u l.keys o).toList,
  IsToolChar c

/-- No name that is changed at a collected level is what another name is at any level, changed
    names are collected, and no letter or digit outside ASCII has room in a name. -/
structure Reversible : Prop where
 unmixed : ∀ l l', Level ps.parameterMap l → Collected ps.parameterMap l' →
  ∀ o ∈ l.keys, ∀ o' ∈ l'.keys, finalOf u l'.keys o' = finalOf u l.keys o →
   finalOf u l'.keys o' ≠ o' → o' = o
 collected : ∀ l, Level ps.parameterMap l → ∀ o ∈ l.keys, finalOf u l.keys o ≠ o →
  ∃ l', Collected ps.parameterMap l' ∧ o ∈ l'.keys ∧ finalOf u l'.keys o=finalOf u l.keys o
 ascii : ∀ l, Level ps.parameterMap l → ∀ o ∈ l.keys, ∀ pre post c,
  o.toList=pre ++ c::post → u.isAlphaNum c=true → c.isAlphanum=false →
   60 ≤ room u true pre

end Properties

section Final
variable {u:Unicode} {origs:List String} {o:String}

theorem lookup_map_self (f:String → String) (h:o ∈ origs) :
  (origs.map fun o=>(o,f o)).lookup o=some (f o) := by
 induction origs with
 | nil=>cases h
 | cons o' rest ih=>
  by_cases heq:o=o'
  · subst heq
    exact List.lookup_cons_self
  · rw [List.map_cons,List.lookup_cons,beq_false_of_ne heq]
    exact ih ((List.mem_cons.1 h).resolve_left heq)

theorem finalOf_cases (u:Unicode) (h:o ∈ origs) :
  finalOf u origs o=String.ofList (sanitizePropertyName u o) ∨
   finalOf u origs o=String.ofList (disambiguate (sanitizePropertyName u o) o) := by
 unfold finalOf sanitizePropertyNames
 rw [lookup_map_self _ h]
 simp only [Option.getD_some]
 split
 · exact .inl rfl
 · exact .inr rfl

theorem mem_sanitizePropertyNames {s:String} :
  (o,s) ∈ sanitizePropertyNames u origs ↔ o ∈ origs ∧ finalOf u origs o=s := by
 constructor
 · intro h
   obtain ⟨o', ho', heq⟩:=List.mem_map.1 h
   obtain ⟨rfl,rfl⟩:=Prod.mk.inj heq
   refine ⟨ho', ?_⟩
   unfold finalOf sanitizePropertyNames
   rw [lookup_map_self _ ho']
   rfl
 · rintro ⟨h,rfl⟩
   unfold finalOf sanitizePropertyNames
   rw [lookup_map_self _ h]
   exact List.mem_map.2 ⟨o,h,rfl⟩

theorem mem_thisLevel {s:String} :
  (s,o) ∈ thisLevel u origs ↔ o ∈ origs ∧ finalOf u origs o=s ∧ s ≠ o := by
 unfold thisLevel
 rw [List.mem_reverse,List.mem_filter,List.mem_map]
 constructor
 · rintro ⟨⟨e,he,heq⟩,hne⟩
   obtain ⟨rfl,rfl⟩:=Prod.mk.inj heq
   obtain ⟨ho,hs⟩:=mem_sanitizePropertyNames.1 he
   exact ⟨ho,hs,by simpa using hne⟩
 · rintro ⟨ho,hs,hne⟩
   exact ⟨⟨(o,s),mem_sanitizePropertyNames.2 ⟨ho,hs⟩,rfl⟩,by simpa using hne⟩

theorem length_finalOf (h:o ∈ origs) : (finalOf u origs o).length ≤ 64 := by
 rcases finalOf_cases u h with heq | heq
 · rw [heq,String.length_ofList]
   exact (length_sanitizePropertyName u o).trans (by decide)
 · rw [heq,String.length_ofList]
   exact length_disambiguate u o

theorem mem_finalOf {c:Char} (h:o ∈ origs) (hc:¬ IsToolChar c) :
  c ∈ (finalOf u origs o).toList ↔ u.isAlphaNum c=true ∧
   ∃ pre post, o.toList=pre ++ c::post ∧ room u true pre < 60 := by
 rw [←mem_sanitizePropertyName o hc]
 rcases finalOf_cases u h with heq | heq
 · rw [heq,String.toList_ofList]
 · rw [heq,String.toList_ofList,mem_disambiguate o hc]

theorem notMem_ascii {c:Char} (h:u.isAlphaNum c=true) (hc:c.isAlphanum=false) :
  ¬ IsToolChar c := by
 rintro (halnum | rfl | rfl)
 · rw [halnum] at hc
   cases hc
 · rw [u.ascii _ (by decide)] at h
   cases h
 · rw [u.ascii _ (by decide)] at h
   cases h

end Final

section Collecting
variable {u:Unicode} {s o:String}

variable {props:List (String × Parameter)} {p:Parameter}

theorem mem_collectFromParameters :
  (s,o) ∈ collectFromParameters u props ↔
   ∃ k p, (k,p) ∈ props ∧ (s,o) ∈ collectFromParameter u p := by
 induction props with
 | nil=>simp [collectFromParameters]
 | cons e rest ih=>
  obtain ⟨k,p⟩:=e
  rw [collectFromParameters,List.mem_append,ih]
  constructor
  · rintro (h | ⟨k', p', hmem,h⟩)
    · exact ⟨k,p,List.mem_cons_self,h⟩
    · exact ⟨k', p', List.mem_cons_of_mem _ hmem,h⟩
  · rintro ⟨k', p', hmem,h⟩
    rcases List.mem_cons.1 hmem with heq | hmem
    · obtain ⟨rfl,rfl⟩:=Prod.mk.inj heq
      exact .inl h
    · exact .inr ⟨k', p', hmem,h⟩

theorem mem_collectFromParameter :
  (s,o) ∈ collectFromParameter u p ↔
   (∃ inner, p.parameterProperties=some inner ∧ (s,o) ∈ buildNestedReverseMap u inner) ∨
   ∃ q inner, p.parameterItems=some q ∧ q.parameterProperties=some inner ∧
    (s,o) ∈ buildNestedReverseMap u inner := by
 obtain ⟨ptype,pformat,penum,properties,items,prequired⟩:=p
 rw [collectFromParameter.eq_def]
 dsimp only
 rw [List.mem_append]
 refine or_congr ?_ ?_
 · cases properties with
   | none=>simp
   | some inner=>simp [buildNestedReverseMap]
 · cases items with
   | none=>simp
   | some q=>
    obtain ⟨qtype,qformat,qenum,qproperties,qitems,qrequired⟩:=q
    cases qproperties with
    | none=>simp
    | some inner=>simp [buildNestedReverseMap]

theorem sizeOf_inner {inner:List (String × Parameter)} {k:String}
  (hp:(k,p) ∈ props) (h:p.parameterProperties=some inner) :
  sizeOf inner < sizeOf props := by
 have hlt:=List.sizeOf_lt_of_mem hp
 obtain ⟨ptype,pformat,penum,properties,items,prequired⟩:=p
 obtain rfl : properties=some inner:=h
 simp only [Prod.mk.sizeOf_spec,Parameter.mk.sizeOf_spec,Option.some.sizeOf_spec] at hlt
 omega

theorem sizeOf_inner_items {inner:List (String × Parameter)} {k:String}
  {q:Parameter} (hp:(k,p) ∈ props) (hq:p.parameterItems=some q)
  (h:q.parameterProperties=some inner) : sizeOf inner < sizeOf props := by
 have hlt:=List.sizeOf_lt_of_mem hp
 obtain ⟨ptype,pformat,penum,properties,items,prequired⟩:=p
 obtain rfl : items=some q:=hq
 obtain ⟨qtype,qformat,qenum,qproperties,qitems,qrequired⟩:=q
 obtain rfl : qproperties=some inner:=h
 simp only [Prod.mk.sizeOf_spec,Parameter.mk.sizeOf_spec,Option.some.sizeOf_spec] at hlt
 omega

theorem collected_of_mem (props:TextMap Parameter) (h:(s,o) ∈ buildNestedReverseMap u props) :
  ∃ l, Collected props l ∧ o ∈ l.keys ∧ finalOf u l.keys o=s ∧ s ≠ o := by
 rcases List.mem_append.1 h with h | h
 · exact ⟨props,.here props,mem_thisLevel.1 h⟩
 · obtain ⟨k,p,hp,hmem⟩:=mem_collectFromParameters.1 h
   rcases mem_collectFromParameter.1 hmem with ⟨inner,hinner,hin⟩ | ⟨q,inner,hq,hinner,hin⟩
   · have hdec:=sizeOf_inner hp hinner
     obtain ⟨l,hl,hrest⟩:=collected_of_mem inner hin
     exact ⟨l,.nested props inner l k p hp hinner hl,hrest⟩
   · have hdec:=sizeOf_inner_items hp hq hinner
     obtain ⟨l,hl,hrest⟩:=collected_of_mem inner hin
     exact ⟨l,.items props inner l k p q hp hq hinner hl,hrest⟩
termination_by sizeOf props

theorem mem_of_collected {props l:TextMap Parameter} (hl:Collected props l)
  (h:(s,o) ∈ thisLevel u l.keys) : (s,o) ∈ buildNestedReverseMap u props := by
 induction hl with
 | here props=>exact List.mem_append_left _ h
 | nested props inner l k p hp hinner _ ih=>
  exact List.mem_append_right _ (mem_collectFromParameters.2 ⟨k,p,hp,
   mem_collectFromParameter.2 (.inl ⟨inner,hinner,ih h⟩)⟩)
 | items props inner l k p q hp hq hinner _ ih=>
  exact List.mem_append_right _ (mem_collectFromParameters.2 ⟨k,p,hp,
   mem_collectFromParameter.2 (.inr ⟨q,inner,hq,hinner,ih h⟩)⟩)

end Collecting

theorem node_of_level {top props:TextMap Parameter} (h:Level top props) {k:String}
  {p:Parameter} (hp:props.lookup k=some p) : Node top p := by
 cases h with
 | top=>exact .property k p hp
 | nested q l hq hl=>
  refine .nested q p k hq ?_
  rw [propsOf,Option.bind_some,hl]
  exact hp

section Maps
variable {u:Unicode} {ps:Parameters}

theorem level_of_collected {props:TextMap Parameter} {l:TextMap Parameter}
  (hl:Collected props l) (hprops:Level ps.parameterMap props) (hord:TextMap.Ordered props)
  (heach:∀ k q, (k,q) ∈ props → q.Ordered) : Level ps.parameterMap l := by
 induction hl with
 | here=>exact hprops
 | nested props inner l k p hp hinner _ ih=>
  cases heach k p hp with
  | mk _ hmap hsub _=>
   exact ih (.nested p inner (node_of_level hprops (lookup_of_mem hord hp)) hinner)
    (hmap inner hinner) (hsub inner hinner)
 | items props inner l k p q hp hq hinner _ ih=>
  cases heach k p hp with
  | mk _ _ _ hitems=>
   cases hitems q hq with
   | mk _ hmap hsub _=>
    exact ih (.nested q inner (.items p q (node_of_level hprops (lookup_of_mem hord hp)) hq)
     hinner) (hmap inner hinner) (hsub inner hinner)

end Maps

section Remapping
variable {u:Unicode} {m:TextMap String} {top:TextMap Parameter}

def LeadsBack (u:Unicode) (m:TextMap String) (top:TextMap Parameter) : Prop :=
 ∀ l, Level top l → ∀ o ∈ l.keys, remapKey m (finalOf u l.keys o)=o

variable {s:Option Parameter} {ps:Parameters}

theorem remapElements_eq {vs:List FnLiteral}
  (h:∀ v ∈ vs, remapFnLiteralKeys m (renameLiteral u s v)=v) :
  remapElements m (renameElements u s vs)=vs := by
 induction vs with
 | nil=>rfl
 | cons v vs ih=>
  rw [renameElements,remapElements,h v List.mem_cons_self,
   ih fun v' hv=>h v' (List.mem_cons_of_mem _ hv)]

theorem remapFields_eq {props:TextMap Parameter} {ps:List (String × FnLiteral)}
  (hkeys:∀ e ∈ ps, remapKey m (finalOf u props.keys e.1)=e.1)
  (h:∀ e ∈ ps, remapFnLiteralKeys m (renameLiteral u (props.lookup e.1) e.2)=e.2) :
  remapFields m (renameFields u props ps)=ps := by
 induction ps with
 | nil=>rfl
 | cons e ps ih=>
  obtain ⟨k,v⟩:=e
  rw [renameFields,remapFields,hkeys (k,v) List.mem_cons_self,h (k,v) List.mem_cons_self,
   ih (fun e' he=>hkeys e' (List.mem_cons_of_mem _ he))
    fun e' he=>h e' (List.mem_cons_of_mem _ he)]

theorem renameLiteral_scalar {v:FnLiteral} (h:IsScalar v) :
  renameLiteral u s v=v ∧ remapFnLiteralKeys m v=v := by
 cases v with
 | fnArray | fnObject=>exact h.elim
 | _=>exact ⟨rfl,rfl⟩

theorem propsOf_level (hs:∀ q, s=some q → Node top q)
  {k:String} (hk:k ∈ (propsOf s).keys) : Level top (propsOf s) := by
 cases s with
 | none=>cases hk
 | some q=>
  cases hl:q.parameterProperties with
  | none=>simp [propsOf,hl,TextMap.keys] at hk
  | some l=>
   have hprops:propsOf (some q)=l:=by simp [propsOf,hl]
   rw [hprops]
   exact .nested q l (hs q rfl) hl

theorem literal_comes_back (hback:LeadsBack u m top) {v:FnLiteral}
  (h:Over s v) (hs:∀ q, s=some q → Node top q) :
  remapFnLiteralKeys m (renameLiteral u s v)=v := by
 induction h with
 | scalar s v hscalar=>
  obtain ⟨hrename,hremap⟩:=renameLiteral_scalar (u := u) (m := m) (s := s) hscalar
  rw [hrename,hremap]
 | array s vs _ ih=>
  rw [renameLiteral,remapFnLiteralKeys,remapElements_eq fun v hv=>ih v hv fun q hq=>?_]
  cases s with
  | none=>cases hq
  | some p=>exact .items p q (hs p rfl) hq
 | object s ps hkeys _ ih=>
  rw [renameLiteral,remapFnLiteralKeys,
   remapFields_eq (fun e he=>hback _ (propsOf_level hs (hkeys e he)) e.1 (hkeys e he))
    fun e he=>ih e he fun q hq=>?_]
  exact node_of_level (propsOf_level hs (hkeys e he)) hq

theorem node_comes_back
  (hall:∀ args, OverArguments ps args → remapArguments m (renameArguments u ps args)=args)
  {q:Parameter} (hq:Node ps.parameterMap q) :
  ∀ v, Over (some q) v → remapFnLiteralKeys m (renameLiteral u (some q) v)=v := by
 induction hq with
 | property k p h=>
  intro v hv
  have hargs:=hall [(k,some v)] fun e he=>by
   obtain rfl:=List.mem_singleton.1 he
   refine ⟨mem_keys_of_lookup h,fun v' hv' =>?_⟩
   obtain rfl:=Option.some.inj hv'
   rw [h]
   exact hv
  simp only [renameArguments,remapArguments,List.map_cons,List.map_nil,h,Option.map_some,
   List.cons.injEq,Prod.mk.injEq,Option.some.injEq,and_true] at hargs
  exact hargs.2
 | nested q p k _ h ih=>
  intro v hv
  have hobject:=ih (.fnObject [(k,v)]) (.object _ _
   (fun e he=>List.mem_singleton.1 he ▸ mem_keys_of_lookup h)
   fun e he=>by
    obtain rfl:=List.mem_singleton.1 he
    rw [h]
    exact hv)
  simp only [renameLiteral,renameFields,remapFnLiteralKeys,remapFields,h,
   FnLiteral.fnObject.injEq,List.cons.injEq,Prod.mk.injEq,and_true] at hobject
  exact hobject.2
 | items q p _ h ih=>
  intro v hv
  have hitems:itemsOf (some q)=some p:=h
  have harray:=ih (.fnArray [v]) (.array _ _ fun v' hv' =>by
   obtain rfl:=List.mem_singleton.1 hv'
   rw [hitems]
   exact hv)
  simp only [renameLiteral,renameElements,remapFnLiteralKeys,remapElements,hitems,
   FnLiteral.fnArray.injEq,List.cons.injEq,and_true] at harray
  exact harray

theorem leadsBack_of_comes_back
  (hall:∀ args, OverArguments ps args → remapArguments m (renameArguments u ps args)=args) :
  LeadsBack u m ps.parameterMap := by
 intro l hl o ho
 cases hl with
 | top=>
  have hargs:=hall [(o,none)] fun e he=>by
   obtain rfl:=List.mem_singleton.1 he
   exact ⟨ho,fun v' hv' =>by cases hv'⟩
  simp only [renameArguments,remapArguments,List.map_cons,List.map_nil,List.cons.injEq,
   Prod.mk.injEq,and_true] at hargs
  exact hargs.1
 | nested q l hq hprops=>
  have hlevel:propsOf (some q)=l:=by simp [propsOf,hprops]
  have hobject:=node_comes_back hall hq (.fnObject [(o,.fnUnknown)]) (.object _ _
   (fun e he=>by
    obtain rfl:=List.mem_singleton.1 he
    rw [hlevel]
    exact ho)
   fun e he=>by
    obtain rfl:=List.mem_singleton.1 he
    exact .scalar _ _ trivial)
  simp only [renameLiteral,renameFields,remapFnLiteralKeys,remapFields,hlevel,
   FnLiteral.fnObject.injEq,List.cons.injEq,Prod.mk.injEq,and_true] at hobject
  exact hobject

theorem arguments_come_back (hback:LeadsBack u m ps.parameterMap)
  (args:List (String × Option FnLiteral)) (h:OverArguments ps args) :
  remapArguments m (renameArguments u ps args)=args := by
 unfold remapArguments renameArguments
 rw [List.map_map]
 refine (List.map_congr_left fun e he=>?_).trans (List.map_id args)
 obtain ⟨k,v⟩:=e
 obtain ⟨hk,hv⟩:=h _ he
 have hkey:=hback _ .top k hk
 cases v with
 | none=>simp only [Function.comp_apply,hkey,Option.map_none,id_eq]
 | some v=>
  have hvalue:=literal_comes_back hback (hv v rfl) fun q hq=>.property k q hq
  simp only [Function.comp_apply,hkey,hvalue,Option.map_some,id_eq]

end Remapping

section Reversing
variable {u:Unicode} {ps:Parameters}

variable {m:TextMap String} {o:String} {l:TextMap Parameter}

theorem remapKey_eq {k:String} (h:m.lookup k=some o) :
  remapKey m k=o := by
 rw [remapKey,h]
 rfl

theorem remapKey_self {k:String} (h:m.lookup k=none) :
  remapKey m k=k := by
 rw [remapKey,h]
 rfl

theorem collected_changed {s:String} (h:(buildPropertyReverseMap u ps).lookup s=some o) :
  ∃ l, Collected ps.parameterMap l ∧ o ∈ l.keys ∧ finalOf u l.keys o=s ∧ s ≠ o :=
 collected_of_mem ps.parameterMap (mem_of_lookup h)

theorem lookup_changed (hl:Collected ps.parameterMap l)
  (ho:o ∈ l.keys) (hne:finalOf u l.keys o ≠ o) :
  ∃ o', (buildPropertyReverseMap u ps).lookup (finalOf u l.keys o)=some o' :=
 lookup_of_mem_keys (List.mem_map.2
  ⟨(finalOf u l.keys o,o),mem_of_collected hl (mem_thisLevel.2 ⟨ho,rfl,hne⟩),rfl⟩)

/-- The one map leads back at every level exactly when names are unmixed and collected. -/
theorem leadsBack_iff (hord:ps.Ordered) :
  LeadsBack u (buildPropertyReverseMap u ps) ps.parameterMap ↔
   (∀ l l', Level ps.parameterMap l → Collected ps.parameterMap l' →
    ∀ o ∈ l.keys, ∀ o' ∈ l'.keys, finalOf u l'.keys o' = finalOf u l.keys o →
     finalOf u l'.keys o' ≠ o' → o' = o) ∧
   ∀ l, Level ps.parameterMap l → ∀ o ∈ l.keys, finalOf u l.keys o ≠ o →
    ∃ l', Collected ps.parameterMap l' ∧ o ∈ l'.keys ∧
     finalOf u l'.keys o=finalOf u l.keys o := by
 constructor
 · intro hback
   refine ⟨fun l l' hl hl' o ho o' ho' heq hne=>?_,fun l hl o ho hne=>?_⟩
   · have hlevel' :=level_of_collected hl' .top hord.map hord.each
     have h' :=hback l' hlevel' o' ho'
     rw [heq,hback l hl o ho] at h'
     exact h'.symm
   · have h:=hback l hl o ho
     cases hlookup:(buildPropertyReverseMap u ps).lookup (finalOf u l.keys o) with
     | none=>
      rw [remapKey_self hlookup] at h
      exact absurd h hne
     | some o' =>
      rw [remapKey_eq hlookup] at h
      subst h
      obtain ⟨l', hl', ho', hfinal,-⟩:=collected_changed hlookup
      exact ⟨l', hl', ho', hfinal⟩
 · rintro ⟨hunmixed,hcollected⟩ l hl o ho
   cases hlookup:(buildPropertyReverseMap u ps).lookup (finalOf u l.keys o) with
   | none=>
    rw [remapKey_self hlookup]
    by_contra hne
    obtain ⟨l', hl', ho', hfinal⟩:=hcollected l hl o ho hne
    obtain ⟨o'', hsome⟩:=lookup_changed hl' ho' (hfinal ▸ hne)
    rw [hfinal,hlookup] at hsome
    cases hsome
   | some o' =>
    rw [remapKey_eq hlookup]
    obtain ⟨l', hl', ho', hfinal,hne⟩:=collected_changed hlookup
    exact hunmixed l l' hl hl' o ho o' ho' hfinal (hfinal ▸ hne)

theorem toolChars_iff (ho:o ∈ l.keys) :
  (∀ c ∈ (finalOf u l.keys o).toList, IsToolChar c) ↔
   ∀ pre post c, o.toList=pre ++ c::post → u.isAlphaNum c=true → c.isAlphanum=false →
    60 ≤ room u true pre := by
 constructor
 · intro h pre post c hname halnum hc
   have hnot:=notMem_ascii halnum hc
   by_contra hlt
   exact hnot (h c ((mem_finalOf ho hnot).2 ⟨halnum,pre,post,hname,Nat.lt_of_not_le hlt⟩))
 · intro h c hmem
   by_contra hnot
   obtain ⟨halnum,pre,post,hname,hlt⟩:=(mem_finalOf ho hnot).1 hmem
   have hc:c.isAlphanum=false:=Bool.eq_false_iff.2 fun hc=>hnot (.inl hc)
   exact absurd (h pre post c hname halnum hc) (Nat.not_le_of_lt hlt)

theorem nodup_of_leadsBack (hback:LeadsBack u m ps.parameterMap) (hl:Level ps.parameterMap l)
  (hkeys:l.keys.Nodup) : (l.keys.map (finalOf u l.keys)).Nodup := by
 refine List.Nodup.map_on (fun o ho o' ho' heq=>?_) hkeys
 rw [←hback l hl o ho,heq,hback l hl o' ho']

theorem level_ordered (hord:ps.Ordered) (hl:Level ps.parameterMap l) : TextMap.Ordered l := by
 have hnode:∀ q, Node ps.parameterMap q → q.Ordered:=by
  intro q hq
  induction hq with
  | property k p h=>exact hord.each k p (mem_of_lookup h)
  | nested q p k _ h ih=>
   cases ih with
   | mk _ _ hsub _=>
    cases hprops:q.parameterProperties with
    | none=>simp [propsOf,hprops] at h
    | some l=>
     have hlookup:List.lookup k l=some p:=by simpa [propsOf,hprops] using h
     exact hsub l hprops k p (mem_of_lookup hlookup)
  | items q p _ h ih=>
   cases ih with
   | mk _ _ _ hitems=>exact hitems p h
 cases hl with
 | top=>exact hord.map
 | nested q l hq hprops=>
  cases hnode q hq with
  | mk _ hmap _ _=>exact hmap l hprops

theorem nodup_keys (h:TextMap.Ordered l) : l.keys.Nodup :=
 List.Pairwise.imp (fun hlt=>hlt.ne) h

end Reversing

section Clash

theorem collisions_eq_nil {u:Unicode} {keys:List String} (context:String)
  (h:(keys.map fun k=>String.ofList (sanitizePropertyNameRaw u k)).Nodup) :
  collisions u context keys=[] := by
 unfold collisions
 simp only [List.map_eq_nil_iff,List.filter_eq_nil_iff,List.mem_map]
 rintro e ⟨san,-,rfl⟩
 simp only [List.length_reverse,decide_eq_true_eq,not_lt]
 rw [←List.countP_eq_length_filter]
 have hcount:=List.nodup_iff_count_le_one.1 h san
 rw [List.count,List.countP_map] at hcount
 refine le_trans (le_of_eq (List.countP_congr fun k _=>?_)) hcount
 simp

/-- Only the letters and digits of ASCII. -/
def plain : Unicode := ⟨Char.isAlphanum,fun _ _=>rfl⟩

def text : Parameter := ⟨"string",none,[],none,none,none⟩

def record (name:String) : Parameter := ⟨"object",none,[],some [(name,text)],none,none⟩

/-- A property beside a record that has a property of nearly the same name. -/
def clash : Parameters := ⟨[("foo bar",text),("z",record "foo-bar")],[]⟩

theorem text_ordered : text.Ordered :=
 .mk _ (fun _ h=>by cases h) (fun _ h=>by cases h) fun _ h=>by cases h

theorem record_ordered (name:String) : (record name).Ordered := by
 refine .mk _ (fun props h=>?_) (fun props h k q hq=>?_) fun _ h=>by cases h
 · obtain rfl:=Option.some.inj h
   exact List.pairwise_singleton _ _
 · obtain rfl:=Option.some.inj h
   obtain ⟨rfl,rfl⟩:=Prod.mk.inj (List.mem_singleton.1 hq)
   exact text_ordered

theorem clash_ordered : clash.Ordered where
 map := by
  have hlt:("foo bar" : String) < "z":=by decide
  simpa [TextMap.Ordered,TextMap.keys,clash] using hlt
 each k q hq := by
  simp only [clash,List.mem_cons,Prod.mk.injEq,List.not_mem_nil,or_false] at hq
  rcases hq with ⟨rfl,rfl⟩ | ⟨rfl,rfl⟩
  · exact text_ordered
  · exact record_ordered "foo-bar"

theorem clash_validates (context:String) :
  validateNoSanitizationCollisions plain context clash=[] := by
 have htop:collisions plain context ["foo bar","z"]=[]:=
  collisions_eq_nil context (by decide)
 have hinner:∀ context, collisions plain context ["foo-bar"]=[]:=fun context=>
  collisions_eq_nil context (List.nodup_singleton _)
 simp [validateNoSanitizationCollisions,checkPropertyMap,checkParameters,checkParameter,
  clash,record,text,TextMap.keys,htop,hinner]

/-- A property whose name needs no change. -/
def single : Parameters := ⟨[("age",text)],[]⟩

theorem single_level {l:TextMap Parameter} (h:Level single.parameterMap l) :
  l=single.parameterMap := by
 have hnode:∀ q, Node single.parameterMap q → q=text:=by
  intro q hq
  induction hq with
  | property k p h=>
   have hmem:=mem_of_lookup h
   simp only [single,List.mem_singleton,Prod.mk.injEq] at hmem
   exact hmem.2
  | nested q p k _ h ih=>
   subst ih
   cases h
  | items q p _ h ih=>
   subst ih
   cases h
 cases h with
 | top=>rfl
 | nested q l hq hl=>
  rw [hnode q hq] at hl
  cases hl

theorem single_ordered : single.Ordered where
 map:=List.pairwise_singleton _ _
 each k q hq := by
  obtain ⟨rfl,rfl⟩:=Prod.mk.inj (List.mem_singleton.1 hq)
  exact text_ordered

theorem single_kept {l:TextMap Parameter} (h:Level single.parameterMap l) {o:String}
  (ho:o ∈ l.keys) : finalOf plain l.keys o=o := by
 rw [single_level h] at ho ⊢
 obtain rfl:=List.mem_singleton.1 ho
 decide

theorem single_reversible : Reversible plain single where
 unmixed l l' _ hl' o _ o' ho' _ hne :=
  absurd (single_kept (level_of_collected hl' .top single_ordered.map single_ordered.each) ho')
   hne
 collected l hl o ho hne := absurd (single_kept hl ho) hne
 ascii l _ o _ pre post c _ halnum hc := by
  rw [show c.isAlphanum=true from halnum] at hc
  cases hc

end Clash

end L4Ide.SanitizedNamesRoundTrip
