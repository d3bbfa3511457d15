import L4Ide.CoverageAnalysisExact
import Mathlib.Algebra.CharZero.Infinite
import Mathlib.Algebra.Order.Ring.Rat

set_option autoImplicit false

/-!
# The two tiers of the coverage analysis

The first tier's answer is exact. The second analyses the rows without a literal:
its rows complete the group, and each holds a value that no row matches, because
a value can avoid every key that the rows name.
-/
namespace L4Ide.CoverageAnalysisTiers
open Syntax Environment CoverageAnalysis PatternValues CoverageAnalysisExact

variable {T:Type} {sig:Sig T}

section Statement
variable (M:Values sig)

structure ExactlyMissing (ts:List T) (rows missing:List Row) : Prop where
 missing_iff : ∀ vs, M.AllHaveType ts vs →
  (¬MatchedBy M rows vs ↔ ∃ r ∈ missing, Stands M rows r vs)
 unique : ∀ vs, M.AllHaveType ts vs → ¬MatchedBy M rows vs →
  ∃! i : ℕ, ∃ r, missing[i]? = some r ∧ Stands M rows r vs
 empty_iff : missing=[] ↔ ∀ vs, M.AllHaveType ts vs → MatchedBy M rows vs

structure CoarselyMissing (ts:List T) (rows missing:List Row) : Prop where
 needed : ∀ r ∈ missing, ∃ vs, M.AllHaveType ts vs ∧ MatchesRow M r vs ∧ ¬MatchedBy M rows vs
 completes : ∀ vs, M.AllHaveType ts vs → MatchedBy M rows vs ∨ ∃ r ∈ missing, MatchesRow M r vs

end Statement

section Exact
variable {M:Values sig}

theorem exactlyMissing_of_covers {ts:List T} {rows missing:List Row}
  (h:Covers M ts rows missing) : ExactlyMissing M ts rows missing := by
 have hiff:∀ vs, M.AllHaveType ts vs →
   (¬MatchedBy M rows vs ↔ ∃ r ∈ missing, Stands M rows r vs) :=
  fun vs hvs=>(h.stands_iff vs hvs).symm
 refine ⟨hiff,fun vs hvs hno=>?_, ?_, ?_⟩
 · obtain ⟨r,hr,hs⟩:=(hiff vs hvs).1 hno
   obtain ⟨i,hi⟩:=List.mem_iff_getElem?.1 hr
   refine ⟨i,⟨r,hi,hs⟩, ?_⟩
   rintro j ⟨r', hj,hs'⟩
   obtain ⟨hilt,heqi⟩:=List.getElem?_eq_some_iff.1 hi
   obtain ⟨hjlt,heqj⟩:=List.getElem?_eq_some_iff.1 hj
   have hdisj:=List.pairwise_iff_getElem.1 h.disjoint
   rcases lt_trichotomy j i with hlt | heq | hgt
   · exact absurd ⟨heqj ▸ hs', heqi ▸ hs⟩ (hdisj j i hjlt hilt hlt vs)
   · exact heq
   · exact absurd ⟨heqi ▸ hs,heqj ▸ hs'⟩ (hdisj i j hilt hjlt hgt vs)
 · rintro rfl vs hvs
   by_contra hno
   obtain ⟨r,hr,-⟩:=(hiff vs hvs).1 hno
   exact List.not_mem_nil hr
 · intro hall
   refine List.eq_nil_iff_forall_not_mem.2 fun r hr=>?_
   obtain ⟨vs,hvs,hs⟩:=h.nonempty r hr
   exact (hiff vs hvs).2 ⟨r,hr,hs⟩ (hall vs hvs)

theorem matchesRow_of_stands {rows:List Row} {r:Row} {vs:List M.V}
  (h:Stands M rows r vs) : MatchesRow M r vs := by
 induction h with
 | nil=>trivial
 | wild _ _ ih=>exact ⟨trivial,ih⟩
 | con hlen _ ih=>
  obtain ⟨hps,hrest⟩:=(matchesRow_append hlen).1 ih
  exact ⟨⟨_,rfl,hps⟩,hrest⟩
 | lit _ ih=>exact ⟨rfl,ih⟩

theorem matchesRow_length {row:Row} {vs:List M.V} (h:MatchesRow M row vs) :
  vs.length=row.length := by
 induction row generalizing vs with
 | nil=>
  cases vs with
  | nil=>rfl
  | cons v vs=>exact h.elim
 | cons p ps ih=>
  cases vs with
  | nil=>exact h.elim
  | cons v vs=>rw [List.length_cons,List.length_cons,ih h.2]

abbrev LitFree (rows:List Row) : Prop := ∀ row ∈ rows, anyHasLit row=false

theorem litHeads_of_litFree {rows:List Row} (h:LitFree rows) : litHeads rows=[] := by
 refine List.filterMap_eq_nil_iff.2 fun row hrow=>?_
 have hfree:=h row hrow
 rcases row with _ | ⟨p,tail⟩
 · rfl
 · cases p with
   | covLit k l=>simp [anyHasLit,CoveragePattern.hasLit] at hfree
   | covWild=>rfl
   | covCon c ps=>rfl

mutual

theorem stands_of_matches : ∀ (p:CoveragePattern) {rows:List Row} {v:M.V} {rest:Row}
  {vs:List M.V}, LitFree rows → p.hasLit=false → Matches M p v →
  (∀ rows', LitFree rows' → Stands M rows' rest vs) → Stands M rows (p::rest) (v::vs)
 | .covWild, rows, v, rest, vs, hfree, _, _, hrest=>
  .wild (by simp [litHeads_of_litFree hfree])
   (hrest _ (filterMap_litFree dropWildcard_litFree hfree))
 | .covCon c ps, rows, v, rest, vs, hfree, hp, hm, hrest=>by
  obtain ⟨ws,rfl,hm⟩:=hm
  exact .con (matchesRow_length hm)
   (stands_of_matchesRow ps (filterMap_litFree (specialise_litFree c ps.length) hfree) hp hm hrest)
 | .covLit _ _, _, _, _, _, _, hp, _, _=>by simp [CoveragePattern.hasLit] at hp

theorem stands_of_matchesRow : ∀ (ps:Row) {rows:List Row} {ws:List M.V} {rest:Row}
  {vs:List M.V}, LitFree rows → anyHasLit ps=false → MatchesRow M ps ws →
  (∀ rows', LitFree rows' → Stands M rows' rest vs) → Stands M rows (ps ++ rest) (ws ++ vs)
 | [], rows, [], rest, vs, hfree, _, _, hrest=>hrest rows hfree
 | p::ps, rows, w::ws, rest, vs, hfree, hp, hm, hrest=>by
  obtain ⟨hp,hps⟩ : p.hasLit=false ∧ anyHasLit ps=false:=by simpa [anyHasLit] using hp
  exact stands_of_matches p hfree hp hm.1 fun rows' hfree' =>
   stands_of_matchesRow ps hfree' hps hm.2 hrest

end

end Exact

mutual

def patDepth : CoveragePattern → ℕ
 | .covWild=>0
 | .covCon _ ps=>rowDepth ps+1
 | .covLit _ _=>1

def rowDepth : Row → ℕ
 | []=>0
 | p::ps=>max (patDepth p) (rowDepth ps)

end

mutual

def patKeys : CoveragePattern → List LitKey
 | .covWild=>[]
 | .covCon _ ps=>rowKeys ps
 | .covLit k _=>[k]

def rowKeys : Row → List LitKey
 | []=>[]
 | p::ps=>patKeys p ++ rowKeys ps

end

section Avoid
variable (M:Values sig) (d:ℕ) (taken:List LitKey)

/-- No pattern of the type with a literal, of bounded depth and with its keys
    among the taken ones, matches the value. -/
def Avoids (t:T) (v:M.V) : Prop :=
 ∀ p, PatHasType sig t p → patDepth p ≤ d → (∀ k ∈ patKeys p, k ∈ taken) → p.hasLit=true →
  ¬Matches M p v

def RowAvoids (ts:List T) (vs:List M.V) : Prop :=
 ∀ row, RowHasType sig ts row → rowDepth row ≤ d → (∀ k ∈ rowKeys row, k ∈ taken) →
  anyHasLit row=true → ¬MatchesRow M row vs

variable {M d taken}

theorem rowAvoids_nil : RowAvoids M d taken [] [] := by
 intro row hrow _ _ hlit
 rcases row with _ | ⟨p,ps⟩
 · simp [anyHasLit] at hlit
 · exact hrow.elim

theorem RowAvoids.cons {t:T} {ts:List T} {v:M.V} {vs:List M.V}
  (hv:Avoids M d taken t v) (hvs:RowAvoids M d taken ts vs) :
  RowAvoids M d taken (t::ts) (v::vs) := by
 intro row hrow hdepth hkeys hlit hm
 rcases row with _ | ⟨p,ps⟩
 · exact hrow
 · obtain ⟨hp,hps⟩:=max_le_iff.1 hdepth
   rw [anyHasLit,Bool.or_eq_true] at hlit
   rcases hlit with hlit | hlit
   · exact hv p hrow.1 hp (fun k hk=>hkeys k (List.mem_append_left _ hk)) hlit hm.1
   · exact hvs ps hrow.2 hps (fun k hk=>hkeys k (List.mem_append_right _ hk)) hlit hm.2

theorem avoids_con {t:T} {cs:List (Unique × List T)} (hshape:sig.shape t = .data cs)
  {u:Unique} {args:List T} (hc:(u,args) ∈ cs) {ws:List M.V}
  (h:RowAvoids M d taken args ws) : Avoids M (d+1) taken t (M.con u ws) := by
 intro p hp hdepth hkeys hlit hm
 cases p with
 | covWild=>simp [CoveragePattern.hasLit] at hlit
 | covCon c ps=>
  obtain ⟨cs', args', hshape', hc', hps⟩:=hp
  obtain rfl : cs=cs' :=by simpa [hshape] using hshape'
  obtain ⟨ws', heq,hm⟩:=hm
  obtain ⟨rfl,rfl⟩:=M.con_inj _ _ _ _ heq
  obtain rfl:=sig.args_unique hshape hc hc'
  exact h ps hps (Nat.succ_le_succ_iff.1 hdepth) hkeys hlit hm
 | covLit k l=>
  obtain ⟨ks,hks,-⟩:=hp
  simp [hshape] at hks

theorem Avoids.mono {t:T} {v:M.V} (h:Avoids M (d+1) taken t v) : Avoids M d taken t v :=
 fun p hp hdepth=>h p hp (Nat.le_succ_of_le hdepth)

theorem exists_rowAvoids_of {ts:List T} (h:∀ t, ∃ v, M.HasType t v ∧ Avoids M d taken t v) :
  ∃ vs, M.AllHaveType ts vs ∧ RowAvoids M d taken ts vs := by
 induction ts with
 | nil=>exact ⟨[],.nil,rowAvoids_nil⟩
 | cons t ts ih=>
  obtain ⟨v,hv,hav⟩:=h t
  obtain ⟨vs,hvs,havs⟩:=ih
  exact ⟨v::vs,.cons hv hvs,RowAvoids.cons hav havs⟩

variable (M d taken)

theorem exists_avoids (t:T) : ∃ v, M.HasType t v ∧ Avoids M d taken t v := by
 induction d generalizing t with
 | zero=>
  obtain ⟨v,hv⟩:=M.inhabited t
  refine ⟨v,hv,fun p hp hdepth _ hlit=>?_⟩
  cases p with
  | covWild=>simp [CoveragePattern.hasLit] at hlit
  | covCon c ps=>simp [patDepth] at hdepth
  | covLit k l=>simp [patDepth] at hdepth
 | succ d ih=>
  obtain ⟨v,hv⟩:=M.inhabited t
  cases hshape:sig.shape t with
  | data cs=>
   obtain ⟨u,args,-,hc,-,-⟩:=(M.data_iff t cs v hshape).1 hv
   obtain ⟨ws,hws,havoid⟩:=exists_rowAvoids_of ih
   exact ⟨M.con u ws,M.hasType_con hshape hc hws,avoids_con hshape hc havoid⟩
  | literal ks=>
   obtain ⟨k,hk,hfresh⟩:=sig.exists_fresh_key hshape taken
   refine ⟨M.key k,M.hasType_key hshape hk,fun p hp _ hkeys hlit hm=>?_⟩
   cases p with
   | covWild=>simp [CoveragePattern.hasLit] at hlit
   | covCon c ps=>
    obtain ⟨cs,args,hcs,-⟩:=hp
    simp [hshape] at hcs
   | covLit k' l=>
    obtain rfl:=M.key_inj _ _ hm
    exact hfresh (hkeys k (List.mem_singleton_self k))
  | other=>
   refine ⟨v,hv,fun p hp _ _ hlit _=>?_⟩
   cases p with
   | covWild=>simp [CoveragePattern.hasLit] at hlit
   | covCon c ps=>
    obtain ⟨cs,args,hcs,-⟩:=hp
    simp [hshape] at hcs
   | covLit k l=>
    obtain ⟨ks,hks,-⟩:=hp
    simp [hshape] at hks

mutual

theorem exists_matches_avoids : ∀ (p:CoveragePattern) (t:T), PatHasType sig t p →
  p.hasLit=false → ∃ v, M.HasType t v ∧ Matches M p v ∧ Avoids M d taken t v
 | .covWild, t, _, _=>by
  obtain ⟨v,hv,havoid⟩:=exists_avoids M d taken t
  exact ⟨v,hv,trivial,havoid⟩
 | .covCon c ps, t, hp, hlit=>by
  obtain ⟨cs,args,hshape,hc,hps⟩:=hp
  obtain ⟨ws,hws,hm,havoid⟩:=exists_matchesRow_avoids ps args hps hlit
  exact ⟨_,M.hasType_con hshape hc hws,⟨ws,rfl,hm⟩,(avoids_con hshape hc havoid).mono⟩
 | .covLit _ _, _, _, hlit=>by simp [CoveragePattern.hasLit] at hlit

theorem exists_matchesRow_avoids : ∀ (r:Row) (ts:List T), RowHasType sig ts r →
  anyHasLit r=false →
  ∃ vs, M.AllHaveType ts vs ∧ MatchesRow M r vs ∧ RowAvoids M d taken ts vs
 | [], [], _, _=>⟨[],.nil,trivial,rowAvoids_nil⟩
 | p::ps, t::ts, hr, hlit=>by
  obtain ⟨hp,hps⟩ : p.hasLit=false ∧ anyHasLit ps=false:=by simpa [anyHasLit] using hlit
  obtain ⟨v,hv,hm,havoid⟩:=exists_matches_avoids p t hr.1 hp
  obtain ⟨vs,hvs,hms,havoids⟩:=exists_matchesRow_avoids ps ts hr.2 hps
  exact ⟨v::vs,.cons hv hvs,⟨hm,hms⟩,RowAvoids.cons havoid havoids⟩

end

end Avoid

theorem exists_depth_bound (rows:List Row) : ∃ d, ∀ row ∈ rows, rowDepth row ≤ d := by
 induction rows with
 | nil=>exact ⟨0,fun row h=>absurd h List.not_mem_nil⟩
 | cons row rows ih=>
  obtain ⟨d,hd⟩:=ih
  refine ⟨max (rowDepth row) d,fun r hr=>?_⟩
  rcases List.mem_cons.1 hr with rfl | hr
  · exact le_max_left _ _
  · exact (hd r hr).trans (le_max_right _ _)

section Tiers
variable (M:Values sig) {families:Families} (hlisted:ListedIn sig families)
include hlisted

theorem exactTier_missing {ts:List T} {leftOut:Bool} {rows missing:List Row}
  (hrows:∀ row ∈ rows, RowHasType sig ts row)
  (h:exactTier families ts.length leftOut rows=some missing) :
  ExactlyMissing M ts rows missing := by
 unfold exactTier at h
 cases leftOut with
 | true=>simp at h
 | false=>exact exactlyMissing_of_covers (run_covers M hlisted hrows (by simpa using h))

theorem coarseTier_missing {ts:List T} {leftOut:Bool} {rows missing:List Row}
  (hrows:∀ row ∈ rows, RowHasType sig ts row)
  (h:coarseTier families ts.length leftOut rows=some missing) :
  CoarselyMissing M ts rows missing := by
 have hrun:run families ts.length (rows.filter fun row=>!anyHasLit row)=some missing:=by
  unfold coarseTier at h
  obtain ⟨_,-,hrun⟩:=Option.bind_eq_some_iff.1 h
  exact hrun
 have hfree:LitFree (rows.filter fun row=>!anyHasLit row):=by
  intro row hrow
  simpa using (List.mem_filter.1 hrow).2
 have hcovers:=run_covers M hlisted (fun row hrow=>hrows row (List.mem_filter.1 hrow).1) hrun
 constructor
 · intro r hr
   obtain ⟨d,hd⟩:=exists_depth_bound rows
   obtain ⟨vs,hvs,hm,havoid⟩:=exists_matchesRow_avoids M d (rows.flatMap rowKeys) r ts
    (hcovers.typed r hr) (hcovers.litFree hfree r hr)
   refine ⟨vs,hvs,hm, ?_⟩
   rintro ⟨row,hrow,hmrow⟩
   cases hlit:anyHasLit row with
   | true=>
    exact havoid row (hrows row hrow) (hd row hrow)
     (fun k hk=>List.mem_flatMap.2 ⟨row,hrow,hk⟩) hlit hmrow
   | false=>
    have hs:Stands M (rows.filter fun row=>!anyHasLit row) r vs:=by
     have happend:=stands_of_matchesRow r hfree (hcovers.litFree hfree r hr) hm
      fun rows' _=>Stands.nil rows'
     simpa using happend
    refine (hcovers.stands_iff vs hvs).1 ⟨r,hr,hs⟩ ⟨row, ?_,hmrow⟩
    exact List.mem_filter.2 ⟨hrow,by simp [hlit]⟩
 · intro vs hvs
   by_cases hmatched:MatchedBy M (rows.filter fun row=>!anyHasLit row) vs
   · obtain ⟨row,hrow,hm⟩:=hmatched
     exact Or.inl ⟨row,(List.mem_filter.1 hrow).1,hm⟩
   · obtain ⟨r,hr,hs⟩:=(hcovers.stands_iff vs hvs).2 hmatched
     exact Or.inr ⟨r,hr,matchesRow_of_stands hs⟩

end Tiers

section Families
variable (sig) (decls:List (Declare Resolved))

/-- A family that knows a constructor of a type lists the constructors of the type. -/
def DeclaredBy : Prop :=
 ∀ family ∈ allFamilies decls, ∀ t cs u ts, sig.shape t = .data cs → (u,ts) ∈ cs →
  u ∈ family.map (fun f=>f.1.getUnique) →
  family.map (fun f=>(f.1.getUnique,f.2))=cs.map fun c=>(c.1,c.2.length)

variable {sig decls}

theorem mem_of_constructorFamilies {u:Unique} {family:List (Resolved × ℕ)}
  (h:constructorFamilies decls u=some family) :
  family ∈ allFamilies decls ∧ u ∈ family.map fun f=>f.1.getUnique := by
 obtain ⟨before,after,heq,-⟩:=List.lookup_eq_some_iff.1 h
 have hmem:(u,family) ∈ (allFamilies decls).flatMap fun family=>
   family.map fun f=>(f.1.getUnique,family) := by
  rw [←List.mem_reverse,heq]
  simp
 obtain ⟨family', hfamily,hin⟩:=List.mem_flatMap.1 hmem
 obtain ⟨f,hf,heq⟩:=List.mem_map.1 hin
 obtain ⟨rfl,rfl⟩:=Prod.mk.inj heq
 exact ⟨hfamily,List.mem_map_of_mem hf⟩

theorem constructorFamilies_listedIn (h:DeclaredBy sig decls) :
  ListedIn sig (constructorFamilies decls) := by
 intro t cs u ts family hshape hc hfamily
 obtain ⟨hmem,hu⟩:=mem_of_constructorFamilies hfamily
 exact h family hmem t cs u ts hshape hc hu

end Families

theorem uncoveredRows_missing (M:Values sig) {decls:List (Declare Resolved)}
  (hdecls:DeclaredBy sig decls) {ts:List T} {leftOut:Bool} {rows missing:List Row}
  (hrows:∀ row ∈ rows, RowHasType sig ts row)
  (h:uncoveredRows (constructorFamilies decls) ts.length leftOut rows=some missing) :
  (exactTier (constructorFamilies decls) ts.length leftOut rows=some missing ∧
    ExactlyMissing M ts rows missing) ∨
   (exactTier (constructorFamilies decls) ts.length leftOut rows=none ∧
    coarseTier (constructorFamilies decls) ts.length leftOut rows=some missing ∧
    CoarselyMissing M ts rows missing) := by
 have hlisted:=constructorFamilies_listedIn hdecls
 unfold uncoveredRows at h
 cases hexact:exactTier (constructorFamilies decls) ts.length leftOut rows with
 | some r=>
  obtain rfl : r=missing:=by simpa [hexact] using h
  exact Or.inl ⟨rfl,exactTier_missing M hlisted hrows hexact⟩
 | none=>
  have hcoarse:coarseTier (constructorFamilies decls) ts.length leftOut rows=some missing:=by
   simpa [hexact] using h
  exact Or.inr ⟨rfl,hcoarse,coarseTier_missing M hlisted hrows hcoarse⟩

section Loan

inductive LoanType where
 | boolean
 | number
 | loan
 deriving DecidableEq

def loanCon : Resolved := .def_ ⟨'d', 1,"loan"⟩ ⟨.normalName "Loan"⟩

def loanField (name:String) (i:ℤ) : TypedName Resolved :=
 ⟨.def_ ⟨'d', i,"loan"⟩ ⟨.normalName name⟩,.type,none⟩

def loanDeclare : Declare Resolved where
 typeSig:=⟨[],none⟩
 appForm:=⟨loanCon,[],none⟩
 decl:=.recordDecl none [loanField "secured" 2,loanField "amount" 3]

def loanShape : LoanType → Shape Unique LitKey LoanType
 | .boolean=>.data [(trueUnique,[]),(falseUnique,[])]
 | .number=>.literal (Set.range LitKey.litNum)
 | .loan=>.data [(loanCon.getUnique,[.boolean,.number])]

def loanSig : Sig LoanType where
 shape:=loanShape
 distinct t cs h := by
  cases t <;> cases h <;> decide
 endless t ks h := by
  cases t <;> cases h
  exact Set.infinite_range_of_injective fun q q' h=>LitKey.litNum.inj h

theorem loan_declaredBy : DeclaredBy loanSig [loanDeclare] := by
 intro family hfamily t cs u ts hshape hc hu
 have hfamilies:allFamilies [loanDeclare]=[booleanFamily,[(loanCon,2)]]:=rfl
 rw [hfamilies] at hfamily
 cases t <;> cases hshape <;> simp only [List.mem_cons,List.not_mem_nil,or_false] at hfamily hc
 · rcases hfamily with rfl | rfl
   · rfl
   · rcases hc with hc | hc <;> cases hc <;> exact absurd hu (by decide)
 · cases hc
   rcases hfamily with rfl | rfl
   · exact absurd hu (by decide)
   · rfl

theorem loan_inhabited (t:LoanType) : ∃ v, Tree.HasType loanSig t v := by
 have hboolean:Tree.HasType loanSig .boolean (.con trueUnique []):=
  .con rfl (List.mem_cons_self (a := (trueUnique,[]))) .nil
 have hnumber:Tree.HasType loanSig .number (.key (.litNum 0)):=.key rfl ⟨0,rfl⟩
 cases t with
 | boolean=>exact ⟨_,hboolean⟩
 | number=>exact ⟨_,hnumber⟩
 | loan=>exact ⟨_,.con rfl List.mem_cons_self (.cons hboolean (.cons hnumber .nil))⟩

def loanRow (secured:Resolved) (amount:CoveragePattern) : Row :=
 [.covCon loanCon [.covCon secured [],amount]]

def loanRows : List Row :=
 [loanRow (.def_ trueUnique trueName) (.covLit (.litNum 1) (.numericLit 1)),
  loanRow (.def_ falseUnique falseName) .covWild]

theorem loanRows_typed : ∀ row ∈ loanRows, RowHasType loanSig [.loan] row := by
 intro row hrow
 rcases List.mem_pair.1 hrow with rfl | rfl
 · exact ⟨⟨_,_,rfl,List.mem_cons_self,⟨_,_,rfl,List.mem_cons_self,trivial⟩,
    ⟨_,rfl,1,rfl⟩,trivial⟩,trivial⟩
 · exact ⟨⟨_,_,rfl,List.mem_cons_self,
    ⟨_,_,rfl,List.mem_cons_of_mem _ List.mem_cons_self,trivial⟩,trivial,trivial⟩,trivial⟩

def loanMissing : List Row := [loanRow (.def_ trueUnique trueName) .covWild]

theorem loan_uncoveredRows :
  uncoveredRows (constructorFamilies [loanDeclare]) [LoanType.loan].length false loanRows =
   some loanMissing := rfl

theorem uncoveredRows_missing_loan :
  (exactTier (constructorFamilies [loanDeclare]) [LoanType.loan].length false loanRows =
     some loanMissing ∧
    ExactlyMissing (Tree.values loanSig loan_inhabited) [.loan] loanRows loanMissing) ∨
   (exactTier (constructorFamilies [loanDeclare]) [LoanType.loan].length false loanRows=none ∧
    coarseTier (constructorFamilies [loanDeclare]) [LoanType.loan].length false loanRows =
     some loanMissing ∧
    CoarselyMissing (Tree.values loanSig loan_inhabited) [.loan] loanRows loanMissing) :=
 uncoveredRows_missing (Tree.values loanSig loan_inhabited) loan_declaredBy loanRows_typed
  loan_uncoveredRows

end Loan

end L4Ide.CoverageAnalysisTiers
