import L4Ide.ComputedFields

set_option autoImplicit false

/-!
# Capture in computed fields

Which uses of names the rewriting of a computed field turns into projections, and when these are
the free ones.
-/
namespace L4Ide.ComputedFieldCapture
open Syntax ComputedFields ScopedTrees ComputedFieldScopes

section Rewriting
variable (fields:List RawName) (self:Name)

def projection (n:Name) : ScopeTree := unary (.proj n) (.var ⟨self,true⟩)

def Entered (path:List Place) : Prop := ∀ b ∈ path, b.entered=true

def Free (path:List Place) (x:RawName) : Prop := ∀ b ∈ path, x ∉ b.bound

def Rewrites (path:List Place) (u:Use) : Prop :=
 u.bare=true ∧ u.name.raw ∈ fields ∧ Entered path ∧ ∀ b ∈ path, u.name.raw ∉ b.removed

instance (path:List Place) (u:Use) : Decidable (Rewrites fields path u) :=
 inferInstanceAs (Decidable (_ ∧ _ ∧ (∀ b ∈ path, b.entered=true) ∧ _))

instance (path:List Place) (x:RawName) : Decidable (Free path x) :=
 inferInstanceAs (Decidable (∀ b ∈ path, x ∉ b.bound))

def rewritten (path:List Place) (u:Use) : ScopeTree :=
 if Rewrites fields path u then projection self u.name else .var u

/-- The free uses of a sibling's name on its own become projections from the record. -/
def freeRewritten (path:List Place) (u:Use) : ScopeTree :=
 if u.bare=true ∧ u.name.raw ∈ fields ∧ Free path u.name.raw then projection self u.name
 else .var u

end Rewriting

/-! ### The rewriting on the uses -/

section Uses
variable (con:RawName → Bool) {fields:List RawName} {self:Name}

/-- The names still to be rewritten below some places. -/
structure Agree (fields flds:List RawName) (path:List Place) : Prop where
 entered : Entered path
 mem_iff : ∀ x, x ∈ flds ↔ x ∈ fields ∧ ∀ b ∈ path, x ∉ b.removed

lemma Agree.nothing_removed {flds bound:List RawName} {path:List Place}
  (h:Agree fields flds path) : Agree fields flds (unseen true bound::path) where
 entered := by
  intro b hb
  obtain rfl | hb:=List.mem_cons.mp hb
  · rfl
  · exact h.entered b hb
 mem_iff x := by
  rw [h.mem_iff x]
  simp [unseen]

lemma Agree.plain {flds:List RawName} {path:List Place} (h:Agree fields flds path) :
  Agree fields flds (plain::path) := h.nothing_removed

lemma Agree.difference {flds:List RawName} {path:List Place} (h:Agree fields flds path)
  (b:Place) (hb:b.entered=true) :
  Agree fields (difference flds b.removed) (b::path) where
 entered := by
  intro b' hb'
  obtain rfl | hb' :=List.mem_cons.mp hb'
  · exact hb
  · exact h.entered b' hb'
 mem_iff x := by
  simp only [ComputedFields.difference,List.mem_filter,h.mem_iff x,List.forall_mem_cons,
   Bool.not_eq_true', List.contains_eq_mem,decide_eq_false_iff_not]
  tauto

lemma replace_outside (t:ScopeTree) {path:List Place} (h:¬Entered path) :
  t.replace (rewritten fields self) path=t := by
 have hvar:t.replace (rewritten fields self) path=t.replace (fun _ u=>.var u) path:=by
  refine Scoped.replace_congr t fun u hu=>?_
  have hnot:¬Rewrites fields u.1 u.2:=by
   rintro ⟨-,-,hentered,-⟩
   exact h fun b hb=>hentered b ((Scoped.uses_suffix t u hu).subset hb)
  simp [rewritten,hnot]
 rw [hvar,Scoped.replace_var]

lemma replace_not_entered (t:ScopeTree) {b:Place} (hb:b.entered=false)
  (path:List Place) : t.replace (rewritten fields self) (b::path)=t := by
 refine replace_outside t fun h=>?_
 have hentered:=h b (by simp)
 simp [hb] at hentered

lemma replace_below_outside (t:ScopeTree) (path:List Place) :
  t.replace (rewritten fields self) (outside::path)=t := replace_not_entered t rfl path

lemma replace_below_followup (t:ScopeTree) (p:Pattern Name) (path:List Place) :
  t.replace (rewritten fields self) (followupPlace con p::path)=t :=
 replace_not_entered t rfl path

lemma map_fst_goNamed (flds:List RawName) (nes:List (Name × Expr Name)) :
  (goNamed self flds nes).map Prod.fst=nes.map Prod.fst := by
 induction nes with
 | nil=>rfl
 | cons ne nes ih=>simp [goNamed,ih]

lemma localsPlace_goLocals (flds:List RawName) (ds:List (LocalDecl Name)) :
  localsPlace (goLocals self flds ds)=localsPlace ds := by
 have hsame:∀ d : LocalDecl Name, localName (goLocal self flds d)=localName d ∧
   localBound (goLocal self flds d)=localBound d := by
  intro d
  cases d with
  | localDecide d=>
   cases d
   simp [goLocal,goDecide,localName,localBound]
  | localAssume a=>simp [goLocal]
 induction ds with
 | nil=>rfl
 | cons d ds ih=>
  simp only [localsPlace,Place.mk.injEq,true_and,localDeclNames,localsBound] at ih ⊢
  simp [goLocals,List.filterMap_cons,(hsame d).1,(hsame d).2,ih.1,ih.2]

mutual

theorem tree_go : ∀ (e:Expr Name) {flds:List RawName} {path:List Place},
  Agree fields flds path →
   tree con (go self flds e)=(tree con e).replace (rewritten fields self) path
 | .and e1 e2, flds, path, h=>by
  simp [go,tree,binary,parts,tree_go e1 h.plain,tree_go e2 h.plain]
 | .or e1 e2, flds, path, h=>by
  simp [go,tree,binary,parts,tree_go e1 h.plain,tree_go e2 h.plain]
 | .rAnd e1 e2, flds, path, h=>by
  simp [go,tree,binary,parts,tree_go e1 h.plain,tree_go e2 h.plain]
 | .rOr e1 e2, flds, path, h=>by
  simp [go,tree,binary,parts,tree_go e1 h.plain,tree_go e2 h.plain]
 | .implies e1 e2, flds, path, h=>by
  simp [go,tree,binary,parts,tree_go e1 h.plain,tree_go e2 h.plain]
 | .equals e1 e2, flds, path, h=>by
  simp [go,tree,binary,parts,tree_go e1 h.plain,tree_go e2 h.plain]
 | .not e, flds, path, h=>by simp [go,tree,unary,parts,tree_go e h.plain]
 | .plus e1 e2, flds, path, h=>by
  simp [go,tree,binary,parts,tree_go e1 h.plain,tree_go e2 h.plain]
 | .minus e1 e2, flds, path, h=>by
  simp [go,tree,binary,parts,tree_go e1 h.plain,tree_go e2 h.plain]
 | .times e1 e2, flds, path, h=>by
  simp [go,tree,binary,parts,tree_go e1 h.plain,tree_go e2 h.plain]
 | .dividedBy e1 e2, flds, path, h=>by
  simp [go,tree,binary,parts,tree_go e1 h.plain,tree_go e2 h.plain]
 | .modulo e1 e2, flds, path, h=>by
  simp [go,tree,binary,parts,tree_go e1 h.plain,tree_go e2 h.plain]
 | .cons e1 e2, flds, path, h=>by
  simp [go,tree,binary,parts,tree_go e1 h.plain,tree_go e2 h.plain]
 | .leq e1 e2, flds, path, h=>by
  simp [go,tree,binary,parts,tree_go e1 h.plain,tree_go e2 h.plain]
 | .geq e1 e2, flds, path, h=>by
  simp [go,tree,binary,parts,tree_go e1 h.plain,tree_go e2 h.plain]
 | .lt e1 e2, flds, path, h=>by
  simp [go,tree,binary,parts,tree_go e1 h.plain,tree_go e2 h.plain]
 | .gt e1 e2, flds, path, h=>by
  simp [go,tree,binary,parts,tree_go e1 h.plain,tree_go e2 h.plain]
 | .proj e l, flds, path, h=>by simp [go,tree,unary,parts,tree_go e h.plain]
 | .lam givens e, flds, path, h=>by
  have hgivens:Agree fields (difference flds (givenSigNames givens))
   (givensPlace givens::path) := h.difference (givensPlace givens) rfl
  simp [go,tree,parts,tree_go e hgivens]
 | .app f [] expected, flds, path, h=>by
  by_cases hf:f.raw ∈ flds
  · have hrewrites:Rewrites fields path ⟨f,true⟩:=
     ⟨rfl,((h.mem_iff f.raw).mp hf).1,h.entered,((h.mem_iff f.raw).mp hf).2⟩
    simp [go,tree,hf,rewritten,hrewrites,projection,unary,parts]
  · have hrewrites:¬Rewrites fields path ⟨f,true⟩:=fun hr=>
     hf ((h.mem_iff f.raw).mpr ⟨hr.2.1,hr.2.2.2⟩)
    simp [go,goAll,tree,hf,rewritten,hrewrites]
 | .app f (e::es) expected, flds, path, h=>by
  simp [go,goAll,tree,treeAll,rewritten,Rewrites,tree_go e h.plain,tree_goAll es h]
 | .appNamed f es order expected, flds, path, h=>by
  simp [go,tree,rewritten,Rewrites,tree_goNamed es h,map_fst_goNamed]
 | .ifThenElse e1 e2 e3, flds, path, h=>by
  simp [go,tree,ternary,parts,tree_go e1 h.plain,tree_go e2 h.plain,tree_go e3 h.plain]
 | .multiWayIf gs e, flds, path, h=>by
  simp [go,tree,tree_go e h.plain,tree_goGuarded gs h]
 | .regulative d, flds, path, h=>by
  cases d
  simp [go,tree,treeDeonton,parts,replace_below_outside,replace_below_followup]
 | .consider e bs generated, flds, path, h=>by
  simp [go,tree,tree_go e h.plain,tree_goBranches bs h]
 | .lit l, flds, path, h=>by simp [go,tree]
 | .percent e, flds, path, h=>by simp [go,tree,unary,parts,tree_go e h.plain]
 | .list es, flds, path, h=>by simp [go,tree,tree_goAll es h]
 | .where_ e ds, flds, path, h=>by
  have hlocals:Agree fields (difference flds (localDeclNames ds)) (localsPlace ds::path):=
   h.difference (localsPlace ds) rfl
  simp [go,tree,localsPlace_goLocals,tree_go e hlocals,tree_goLocals ds hlocals]
 | .letIn ds e, flds, path, h=>by
  have hlocals:Agree fields (difference flds (localDeclNames ds)) (localsPlace ds::path):=
   h.difference (localsPlace ds) rfl
  simp [go,tree,localsPlace_goLocals,tree_go e hlocals,tree_goLocals ds hlocals]
 | .event ev, flds, path, h=>by
  cases ev
  simp [go,tree,parts,replace_below_outside]
 | .fetch e, flds, path, h=>by simp [go,tree,unary,parts,tree_go e h.plain]
 | .env e, flds, path, h=>by simp [go,tree,unary,parts,tree_go e h.plain]
 | .post e1 e2 e3, flds, path, h=>by
  simp [go,tree,ternary,parts,tree_go e1 h.plain,tree_go e2 h.plain,tree_go e3 h.plain]
 | .concat es, flds, path, h=>by simp [go,tree,tree_goAll es h]
 | .asString e, flds, path, h=>by simp [go,tree,unary,parts,tree_go e h.plain]
 | .breach mp mr, flds, path, h=>by
  simp [go,tree,binary,parts,tree_goOption mp h.plain,tree_goOption mr h.plain]
 | .refuse msg, flds, path, h=>by simp [go,tree,unary,parts,tree_go msg h.plain]
 | .inert txt ctx, flds, path, h=>by simp [go,tree]

theorem tree_goAll : ∀ (es:List (Expr Name)) {flds:List RawName} {path:List Place},
  Agree fields flds path →
   treeAll con (goAll self flds es)=(treeAll con es).replace (rewritten fields self) path
 | [], _, _, _=>rfl
 | e::es, flds, path, h=>by
  simp [goAll,treeAll,tree_go e h.plain,tree_goAll es h]

theorem tree_goOption : ∀ (me:Option (Expr Name)) {flds:List RawName} {path:List Place},
  Agree fields flds path →
   treeOption con (goOption self flds me) =
    (treeOption con me).replace (rewritten fields self) path
 | none, _, _, _=>rfl
 | some e, flds, path, h=>by simp [goOption,treeOption,tree_go e h]

theorem tree_goGuarded : ∀ (gs:List (Expr Name × Expr Name)) {flds:List RawName}
  {path:List Place}, Agree fields flds path →
   treeGuarded con (goGuarded self flds gs) =
    (treeGuarded con gs).replace (rewritten fields self) path
 | [], _, _, _=>rfl
 | (c,e)::gs, flds, path, h=>by
  simp [goGuarded,treeGuarded,binary,parts,tree_go c h.plain.plain,tree_go e h.plain.plain,
   tree_goGuarded gs h]

theorem tree_goBranch : ∀ (b:Branch Name) {flds:List RawName} {path:List Place},
  Agree fields flds path →
   treeBranch con (goBranch self flds b) =
    (treeBranch con b).replace (rewritten fields self) path
 | .mkBranch (.when p) e, flds, path, h=>by
  have hbranch:Agree fields (difference flds (patternNames p)) (branchPlace con p::path):=
   h.difference (branchPlace con p) rfl
  simp [goBranch,treeBranch,parts,branchLhsNames,replace_below_outside,tree_go e hbranch]
 | .mkBranch .otherwise e, flds, path, h=>by
  have hplain:Agree fields (difference flds []) (plain::path):=h.difference plain rfl
  simp [goBranch,treeBranch,unary,parts,branchLhsNames,tree_go e hplain]

theorem tree_goBranches : ∀ (bs:List (Branch Name)) {flds:List RawName} {path:List Place},
  Agree fields flds path →
   treeBranches con (goBranches self flds bs) =
    (treeBranches con bs).replace (rewritten fields self) path
 | [], _, _, _=>rfl
 | b::bs, flds, path, h=>by
  simp [goBranches,treeBranches,tree_goBranch b h.plain,tree_goBranches bs h]

theorem tree_goDecide : ∀ (d:Decide Name) {flds:List RawName} {path:List Place},
  Agree fields flds path →
   treeDecide con (goDecide self flds d) =
    (treeDecide con d).replace (rewritten fields self) path
 | .mkDecide ts af body generated, flds, path, h=>by
  have hparams:Agree fields flds (parametersPlace ts af::path):=h.nothing_removed
  simp [goDecide,treeDecide,parts,tree_go body hparams]

theorem tree_goLocal : ∀ (d:LocalDecl Name) {flds:List RawName} {path:List Place},
  Agree fields flds path →
   treeLocal con (goLocal self flds d) =
    (treeLocal con d).replace (rewritten fields self) path
 | .localDecide d, flds, path, h=>by simp [goLocal,treeLocal,tree_goDecide d h]
 | .localAssume a, flds, path, h=>by simp [goLocal,treeLocal]

theorem tree_goLocals : ∀ (ds:List (LocalDecl Name)) {flds:List RawName} {b:Place}
  {path:List Place}, Agree fields flds (b::path) →
   treeLocals con b (goLocals self flds ds) =
    (treeLocals con b ds).replace (rewritten fields self) path
 | [], _, _, _, _=>rfl
 | d::ds, flds, b, path, h=>by
  simp [goLocals,treeLocals,tree_goLocal d h,tree_goLocals ds h]

theorem tree_goNamed : ∀ (nes:List (Name × Expr Name)) {flds:List RawName}
  {path:List Place}, Agree fields flds path →
   treeNamed con (goNamed self flds nes) =
    (treeNamed con nes).replace (rewritten fields self) path
 | [], _, _, _=>rfl
 | (n,e)::nes, flds, path, h=>by
  simp [goNamed,treeNamed,tree_go e h.plain,tree_goNamed nes h]

end

lemma tree_rewriteFieldRefs (e:Expr Name) :
  tree con (rewriteFieldRefs self fields e)=(tree con e).replace (rewritten fields self) [] :=
 tree_go con e ⟨by simp [Entered],by simp⟩

end Uses

/-! ### Meanings -/

section Meanings
variable (con:RawName → Bool) (fields:List RawName) (self:Name)

def binds (b:Place) (u:Use) : Bool := b.bound.contains u.name.raw

/-- A projection means the selection of a field from the meaning of its record. -/
def Selects {D:Type} (interp:Construct → List ((Use → D) → D) → D) (select:Name → D → D) :
  Prop :=
 ∀ l v, interp (.proj l) [fun _=>v]=select l v

def siblingEnv {D:Type} (select:Name → D → D) (ρ:Use → D) : Use → D := fun u=>
 if u.bare=true ∧ u.name.raw ∈ fields then select u.name (ρ ⟨self,true⟩) else ρ u

/-- In every compositional meaning, the definition has the value of the body with the siblings'
    names bound to the record's fields. -/
def Evaluates (definition body:ScopeTree) : Prop :=
 ∀ (D:Type) (interp:Construct → List ((Use → D) → D) → D) (select:Name → D → D),
  Selects interp select → ∀ ρ : Use → D,
   definition.denote binds interp ρ =
    body.denote binds interp (siblingEnv fields self select ρ)

/-- The free uses of siblings' names on their own as projections from the record. -/
def replaceFree (t:ScopeTree) : ScopeTree := t.replace (freeRewritten fields self) []

/-- Every free use of a sibling's name on its own is in places that are gone into and that leave
    the record's name alone, and of a bound one that is gone into, the binding is seen. -/
def BindingsSeen (t:ScopeTree) : Prop :=
 ∀ u ∈ t.uses [], u.2.bare=true → u.2.name.raw ∈ fields →
  (Free u.1 u.2.name.raw → Entered u.1 ∧ Free u.1 self.raw) ∧
  (¬Free u.1 u.2.name.raw → Entered u.1 → ∃ b ∈ u.1, u.2.name.raw ∈ b.removed)

variable {fields self}

lemma any_binds (path:List Place) (u:Use) :
  (path.any fun b=>binds b u)=true ↔ ¬Free path u.name.raw := by
 simp [binds,Free]

lemma denote_projection {D:Type} {interp:Construct → List ((Use → D) → D) → D}
  {select:Name → D → D} (h:Selects interp select) (n:Name) (ρ:Use → D) :
  (projection self n).denote binds interp ρ=select n (ρ ⟨self,true⟩) := by
 have hself:(fun vals:Use → D=>extend binds plain vals ρ ⟨self,true⟩) =
   fun _=>ρ ⟨self,true⟩ := by
  funext vals
  simp [extend,binds,plain,unseen]
 rw [projection,unary,parts,parts,Scoped.denote,Parts.meanings,Parts.meanings]
 simp only [Scoped.denote,hself]
 exact h n _

/-! Names that a place binds, and names that it leaves alone -/

lemma extendAll_of_free {D:Type} {ρ:Use → D} {q:List (Place × (Use → D))} {u:Use}
  (h:Free (q.map Prod.fst) u.name.raw) : extendAll binds ρ q u=ρ u := by
 induction q with
 | nil=>rfl
 | cons bv q ih=>
  have hb:binds bv.1 u=false:=by
   have:=h bv.1 (by simp)
   simpa [binds] using this
  have hq:Free (q.map Prod.fst) u.name.raw:=fun b hb=>h b (by simp at hb ⊢; tauto)
  rw [extendAll,extend,hb,ih hq]
  rfl

lemma extendAll_of_bound {D:Type} (ρ ρ' : Use → D) {q:List (Place × (Use → D))} {u:Use}
  (h:¬Free (q.map Prod.fst) u.name.raw) : extendAll binds ρ q u=extendAll binds ρ' q u := by
 induction q with
 | nil=>simp [Free] at h
 | cons bv q ih=>
  rw [extendAll,extendAll,extend,extend]
  by_cases hb:binds bv.1 u=true
  · simp [hb]
  · have hq:¬Free (q.map Prod.fst) u.name.raw:=by
     intro hq
     refine h fun b hmem=>?_
     rw [List.map_cons,List.mem_cons] at hmem
     obtain rfl | hmem:=hmem
     · simpa [binds] using hb
     · exact hq b hmem
    simp [hb,ih hq]

lemma rewritten_eq {t:ScopeTree} (h:BindingsSeen fields self t) :
  ∀ u ∈ t.uses [], rewritten fields self u.1 u.2=freeRewritten fields self u.1 u.2 := by
 intro u hu
 have hiff:Rewrites fields u.1 u.2 ↔
   u.2.bare=true ∧ u.2.name.raw ∈ fields ∧ Free u.1 u.2.name.raw := by
  constructor
  · rintro ⟨hbare,hfield,hentered,hremoved⟩
    refine ⟨hbare,hfield, ?_⟩
    by_contra hbound
    obtain ⟨b,hb,hx⟩:=(h u hu hbare hfield).2 hbound hentered
    exact hremoved b hb hx
  · rintro ⟨hbare,hfield,hfree⟩
    refine ⟨hbare,hfield,((h u hu hbare hfield).1 hfree).1,fun b hb hx=>?_⟩
    exact hfree b hb (b.removed_bound _ hx)
 simp [rewritten,freeRewritten,hiff]

/-- Where the bindings are seen, what the rewriting leaves has the value of the body. -/
lemma evaluates_of_seen {t:ScopeTree} (h:BindingsSeen fields self t) :
  Evaluates fields self (t.replace (rewritten fields self) []) t := by
 intro D interp select hselects ρ
 have hmeans:∀ u ∈ t.uses [], ∀ q, u.1=q.map Prod.fst →
   Means binds interp (rewritten fields self) ρ (siblingEnv fields self select ρ) u q := by
  intro u hu q hq
  rw [Means,rewritten_eq h u hu,freeRewritten]
  split_ifs with hsibling
  · obtain ⟨hbare,hfield,hfree⟩:=hsibling
    have hself:=((h u hu hbare hfield).1 hfree).2
    rw [hq] at hfree hself
    rw [denote_projection hselects,extendAll_of_free (u := ⟨self,true⟩) hself,
     extendAll_of_free hfree]
    simp [siblingEnv,hbare,hfield]
  · rw [Scoped.denote]
    by_cases hfree:Free (q.map Prod.fst) u.2.name.raw
    · rw [extendAll_of_free hfree,extendAll_of_free hfree,siblingEnv,if_neg]
      exact fun hsib=>hsibling ⟨hsib.1,hsib.2,hq ▸ hfree⟩
    · exact extendAll_of_bound _ _ hfree
 refine Scoped.denote_replace binds interp t [] fun u hu q' hq' =>?_
 rw [List.append_nil] at hq' ⊢
 exact hmeans u hu q' hq'

def selectMark (l:Name) (v:Mark Use Construct) : Mark Use Construct :=
 .node (.proj l) (marks [v])

lemma selects_marks : Selects interpMarks selectMark := fun _ _=>rfl

lemma markAlong_eq (ρ:Use → Mark Use Construct) (path:List Place) (u:Use) :
  markAlong binds ρ path u = if Free path u.name.raw then ρ u else .bound u := by
 rw [markAlong_apply]
 by_cases h:Free path u.name.raw
 · rw [if_pos h,if_neg fun hany=>(any_binds path u).mp hany h]
 · rw [if_pos ((any_binds path u).mpr h),if_neg h]

/-- The marks of the names show every use that is rewritten although it is bound, left alone although
    it is free, or read from a record whose name is bound. -/
lemma seen_of_evaluates {t:ScopeTree}
  (h:Evaluates fields self (t.replace (rewritten fields self) []) t) :
  BindingsSeen fields self t := by
 have hmarks:=h (Mark Use Construct) interpMarks selectMark selects_marks .free
 intro u hu hbare hfield
 have huse:=@Scoped.marks_eq _ _ _ binds (rewritten fields self) .free
  (siblingEnv fields self selectMark .free) t [] hmarks u hu
 have hsibling:siblingEnv fields self selectMark .free u.2 =
   selectMark u.2.name (.free ⟨self,true⟩) := by
  simp [siblingEnv,hbare,hfield]
 rw [markAlong_eq,hsibling,rewritten] at huse
 constructor
 · intro hfree
   rw [if_pos hfree] at huse
   split_ifs at huse with hrewrites
   · rw [denote_projection selects_marks,markAlong_eq] at huse
     refine ⟨hrewrites.2.2.1, ?_⟩
     by_contra hself
     rw [if_neg hself] at huse
     simp [selectMark] at huse
   · rw [Scoped.denote,markAlong_eq,if_pos hfree] at huse
     simp [selectMark] at huse
 · intro hbound hentered
   by_contra hremoved
   have hrewrites:Rewrites fields u.1 u.2:=
    ⟨hbare,hfield,hentered,fun b hb hx=>hremoved ⟨b,hb,hx⟩⟩
   rw [if_neg hbound,if_pos hrewrites,denote_projection selects_marks] at huse
   simp [selectMark] at huse

end Meanings

/-! ### The definition of a computed field -/

section Definition
variable (con:RawName → Bool)

def fieldName (s:String) : Name := ⟨.normalName s⟩

def numberType : Type' Name := .tyApp (fieldName "NUMBER") []

/-- A person's age and scores, and a computed field that takes the scores apart under the name
    of the age. -/
def personFields (e:Expr Name) : List (TypedName Name) :=
 [⟨fieldName "age",numberType,none⟩,
  ⟨fieldName "scores",.tyApp (fieldName "LIST") [numberType],none⟩,
  ⟨fieldName "best",numberType,some e⟩]

def bestBody : Expr Name :=
 .consider (.var (fieldName "scores"))
  [.mkBranch (.when (.patCons (.patApp (fieldName "age") [] none)
    (.patApp (fieldName "rest") [] none) none)) (.var (fieldName "age")),
   .mkBranch .otherwise (.lit (.numericLit 0))] none

end Definition

end L4Ide.ComputedFieldCapture
