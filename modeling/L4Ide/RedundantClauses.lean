import L4Ide.CoverageAnalysisTiers
import L4Ide.CoverageAnalysisLimits

set_option autoImplicit false

/-!
# Redundant clauses

Whether the clauses above one match every value that it matches: the rows above are specialised to
its row, and the coverage analysis looks for what they leave.
-/
namespace L4Ide.RedundantClauses
open Syntax Environment CoverageAnalysis PatternValues FuelledComputation
open CoverageAnalysisExact CoverageAnalysisTiers CoverageAnalysisLimits

section Size

mutual

def patSize : CoveragePattern → ℕ
 | .covCon _ ps=>rowSize ps+1
 | _=>1

def rowSize : Row → ℕ
 | []=>0
 | p::ps=>patSize p+rowSize ps

end

lemma rowSize_append (ps qs:Row) : rowSize (ps ++ qs)=rowSize ps+rowSize qs := by
 induction ps with
 | nil=>simp [rowSize]
 | cons p ps ih=>
  rw [List.cons_append,rowSize,rowSize,ih]
  omega

end Size

abbrev byCon : Resolved → ℕ → Row → Option Row := specialise

abbrev byLit : LitKey → Row → Option Row := specialiseLit

def keepOpen : Row → Option Row
 | p::rest=>some (rest ++ [p])
 | []=>none

def specialiseToGo (n:ℕ) : Row → List Row → ℕ × List Row
 | [], rows=>(n,rows)
 | .covWild::qs, rows=>specialiseToGo (n+1) qs (rows.filterMap keepOpen)
 | .covCon c ps::qs, rows=>specialiseToGo n (ps ++ qs) (rows.filterMap (byCon c ps.length))
 | .covLit k _::qs, rows=>specialiseToGo n qs (rows.filterMap (byLit k))
termination_by qs=>rowSize qs
decreasing_by all_goals simp [rowSize_append,rowSize,patSize]

/-- The rows that can match a value which the given row matches, at the positions it leaves open. -/
def specialiseTo : Row → List Row → ℕ × List Row := specialiseToGo 0

def coveredBy (families:Families) (above:List Row) (row:Row) : Option Bool :=
 let (n,rows):=specialiseTo row above
 List.isEmpty <$> uncoveredRows families n false rows

/-! ### The values at the open positions -/

section Values
variable {T:Type} {sig:Sig T} (M:Values sig)

/-- The values that a vector has where the row is open. -/
inductive Expands : Row → List M.V → List M.V → Prop where
 | nil : Expands [] [] []
 | wild {qs:Row} {v:M.V} {vs ws:List M.V} (h:Expands qs vs ws) :
   Expands (.covWild::qs) (v::vs) (v::ws)
 | con {c:Resolved} {ps qs:Row} {us vs ws:List M.V} (hlen:us.length=ps.length)
   (h:Expands (ps ++ qs) (us ++ vs) ws) :
   Expands (.covCon c ps::qs) (M.con c.getUnique us::vs) ws
 | lit {k:LitKey} {l:Lit} {qs:Row} {vs ws:List M.V} (h:Expands qs vs ws) :
   Expands (.covLit k l::qs) (M.key k::vs) ws

inductive OpenTypes (sig:Sig T) : List T → Row → List T → Prop where
 | nil : OpenTypes sig [] [] []
 | wild {t:T} {ts us:List T} {qs:Row} (h:OpenTypes sig ts qs us) :
   OpenTypes sig (t::ts) (.covWild::qs) (t::us)
 | con {t:T} {ts us args:List T} {cs:List (Unique × List T)} {c:Resolved} {ps qs:Row}
   (hshape:sig.shape t = .data cs) (hc:(c.getUnique,args) ∈ cs)
   (hlen:args.length=ps.length) (h:OpenTypes sig (args ++ ts) (ps ++ qs) us) :
   OpenTypes sig (t::ts) (.covCon c ps::qs) us
 | lit {t:T} {ts us:List T} {ks:Set LitKey} {k:LitKey} {l:Lit} {qs:Row}
   (hshape:sig.shape t = .literal ks) (hk:k ∈ ks) (h:OpenTypes sig ts qs us) :
   OpenTypes sig (t::ts) (.covLit k l::qs) us

variable {M}

variable {row:Row} {vs ws:List M.V} {ts:List T}

lemma matchesRow_of_expands (h:Expands M row vs ws) :
  MatchesRow M row vs := by
 induction h with
 | nil=>trivial
 | wild h ih=>exact ⟨trivial,ih⟩
 | con hlen h ih=>
  have hsplit:=(matchesRow_append hlen).mp ih
  exact ⟨⟨_,rfl,hsplit.1⟩,hsplit.2⟩
 | lit h ih=>exact ⟨rfl,ih⟩

lemma exists_expands (h:MatchesRow M row vs) :
  ∃ ws, Expands M row vs ws := by
 induction hsize : rowSize row using Nat.strong_induction_on generalizing row vs with
 | _ size ih=>
  cases row with
  | nil=>
   cases vs with
   | nil=>exact ⟨[],.nil⟩
   | cons v vs=>exact h.elim
  | cons p qs=>
   cases vs with
   | nil=>exact h.elim
   | cons v vs=>
    obtain ⟨hp,hqs⟩:=h
    cases p with
    | covWild=>
     have hlt:rowSize qs < size:=by
      rw [←hsize]
      simp [rowSize,patSize]
     obtain ⟨ws,hws⟩:=ih _ hlt hqs rfl
     exact ⟨v::ws,.wild hws⟩
    | covCon c ps=>
     obtain ⟨us,rfl,hus⟩:=hp
     have hlen:=matchesRow_length hus
     have hlt:rowSize (ps ++ qs) < size:=by
      rw [←hsize,rowSize_append]
      simp [rowSize,patSize]
     obtain ⟨ws,hws⟩:=ih _ hlt ((matchesRow_append hlen).mpr ⟨hus,hqs⟩) rfl
     exact ⟨ws,.con hlen hws⟩
    | covLit k l=>
     have hlt:rowSize qs < size:=by
      rw [←hsize]
      simp [rowSize,patSize]
     obtain ⟨ws,hws⟩:=ih _ hlt hqs rfl
     obtain rfl : v=M.key k:=hp
     exact ⟨ws,.lit hws⟩

lemma matchesRow_iff_expands :
  MatchesRow M row vs ↔ ∃ ws, Expands M row vs ws :=
 ⟨exists_expands,fun ⟨_,hws⟩=>matchesRow_of_expands hws⟩

lemma exists_openTypes (h:RowHasType sig ts row) :
  ∃ us, OpenTypes sig ts row us := by
 induction hsize : rowSize row using Nat.strong_induction_on generalizing ts row with
 | _ size ih=>
  cases row with
  | nil=>
   cases ts with
   | nil=>exact ⟨[],.nil⟩
   | cons t ts=>exact h.elim
  | cons p qs=>
   cases ts with
   | nil=>exact h.elim
   | cons t ts=>
    obtain ⟨hp,hqs⟩:=h
    cases p with
    | covWild=>
     have hlt:rowSize qs < size:=by
      rw [←hsize]
      simp [rowSize,patSize]
     obtain ⟨us,hus⟩:=ih _ hlt hqs rfl
     exact ⟨t::us,.wild hus⟩
    | covCon c ps=>
     obtain ⟨cs,args,hshape,hc,hps⟩:=hp
     have hlt:rowSize (ps ++ qs) < size:=by
      rw [←hsize,rowSize_append]
      simp [rowSize,patSize]
     obtain ⟨us,hus⟩:=ih _ hlt (rowHasType_append hps hqs) rfl
     exact ⟨us,.con hshape hc (rowHasType_length hps).symm hus⟩
    | covLit k l=>
     obtain ⟨ks,hshape,hk⟩:=hp
     have hlt:rowSize qs < size:=by
      rw [←hsize]
      simp [rowSize,patSize]
     obtain ⟨us,hus⟩:=ih _ hlt hqs rfl
     exact ⟨us,.lit hshape hk hus⟩

lemma expands_typed {us:List T} (h:OpenTypes sig ts row us)
  (hvs:M.AllHaveType ts vs) (hws:Expands M row vs ws) : M.AllHaveType us ws := by
 induction h generalizing vs ws with
 | nil=>
  cases hws
  exact .nil
 | wild h ih=>
  cases hws with
  | wild hws=>
   cases hvs with
   | cons hv hvs=>exact .cons hv (ih hvs hws)
 | con hshape hc hlen h ih=>
  cases hws with
  | con _ hws=>
   cases hvs with
   | cons hv hvs=>exact ih ((Values.args_of_hasType_con hshape hc hv).append hvs) hws
 | lit hshape hk h ih=>
  cases hws with
  | lit hws=>
   cases hvs with
   | cons hv hvs=>exact ih hvs hws

/-- Whatever stands at the open positions, some vector that the row matches has it there. -/
lemma exists_matched {us:List T} (h:OpenTypes sig ts row us)
  (hws:M.AllHaveType us ws) : ∃ vs, M.AllHaveType ts vs ∧ Expands M row vs ws := by
 induction h generalizing ws with
 | nil=>
  cases hws
  exact ⟨[],.nil,.nil⟩
 | wild h ih=>
  cases hws with
  | cons hw hws=>
   obtain ⟨vs,hvs,hexp⟩:=ih hws
   exact ⟨_::vs,.cons hw hvs,.wild hexp⟩
 | con hshape hc hlen h ih=>
  obtain ⟨vs,hvs,hexp⟩:=ih hws
  obtain ⟨as,bs,rfl,has,hbs⟩:=hvs.split
  have hsame:=has.length_eq.symm.trans hlen
  exact ⟨_::bs,.cons (Values.hasType_con hshape hc has) hbs,.con hsame hexp⟩
 | lit hshape hk h ih=>
  obtain ⟨vs,hvs,hexp⟩:=ih hws
  exact ⟨_::vs,.cons (Values.hasType_key hshape hk) hvs,.lit hexp⟩

end Values

/-! ### Specialisation keeps matching -/

section Specialised
variable {T:Type} {sig:Sig T} {M:Values sig}

variable {ts us:List T} {row:Row}

lemma keepOpen_hasType {t:T} {rest:Row}
  (h:RowHasType sig (t::ts ++ us) row) (heq:keepOpen row=some rest) :
  RowHasType sig (ts ++ (us ++ [t])) rest := by
 cases row with
 | nil=>simp [keepOpen] at heq
 | cons p tail=>
  obtain rfl : tail ++ [p]=rest:=by simpa [keepOpen] using heq
  rw [←List.append_assoc]
  exact rowHasType_append h.2 ⟨h.1,trivial⟩

lemma matchedBy_keepOpen {rows:List Row}
  (hrows:∀ row ∈ rows, RowHasType sig ts row) {v:M.V} {vs:List M.V}
  (hlen:ts.length=vs.length+1) :
  MatchedBy M rows (v::vs) ↔ MatchedBy M (rows.filterMap keepOpen) (vs ++ [v]) := by
 refine matchedBy_filterMap fun row hrow=>?_
 have hrowlen:=rowHasType_length (hrows row hrow)
 cases row with
 | nil=>
  rw [hlen] at hrowlen
  simp at hrowlen
 | cons p tail=>
  have htail:vs.length=tail.length:=by
   rw [List.length_cons,hlen] at hrowlen
   omega
  simp only [keepOpen,Option.some.injEq,exists_eq_left', matchesRow_append htail,MatchesRow,
   and_true]
  exact and_comm

lemma specialiseToGo_typed (h:OpenTypes sig ts row us) (n:ℕ)
  (kept:List T) (rows:List Row) (hrows:∀ r ∈ rows, RowHasType sig (ts ++ kept) r) :
  (specialiseToGo n row rows).1=n+us.length ∧
   ∀ r ∈ (specialiseToGo n row rows).2, RowHasType sig (kept ++ us) r := by
 induction h generalizing n kept rows with
 | nil=>simpa [specialiseToGo] using hrows
 | @wild t ts us qs h ih=>
  have hnext:=ih (n+1) (kept ++ [t]) _
   (filterMap_hasType hrows fun _ _=>keepOpen_hasType)
  rw [specialiseToGo,hnext.1]
  refine ⟨by simp; omega, ?_⟩
  simpa using hnext.2
 | @con t ts us args cs c ps qs hshape hc hlen h ih=>
  have hnext:=ih n kept (rows.filterMap (byCon c ps.length))
   (filterMap_hasType hrows fun row rest hrow heq=>by
    rw [List.append_assoc]
    exact specialise_hasType hshape hc hrow (hlen.symm ▸ heq))
  rw [specialiseToGo]
  exact hnext
 | lit hshape hk h ih=>
  rw [specialiseToGo]
  exact ih n kept _ (filterMap_hasType hrows fun _ _=>specialiseLit_hasType)

/-- A vector that the row matches is matched by the rows above exactly where its values at the open
    positions are matched by the specialised ones. -/
lemma specialiseToGo_matched (h:OpenTypes sig ts row us) (n:ℕ)
  (kept:List T) (rows:List Row) (hrows:∀ r ∈ rows, RowHasType sig (ts ++ kept) r)
  {vs ws zs:List M.V} (hvs:M.AllHaveType ts vs) (hws:Expands M row vs ws)
  (hzs:M.AllHaveType kept zs) :
  MatchedBy M rows (vs ++ zs) ↔ MatchedBy M (specialiseToGo n row rows).2 (zs ++ ws) := by
 induction h generalizing n kept rows vs ws zs with
 | nil=>
  cases hws
  simp [specialiseToGo]
 | @wild t ts us qs h ih=>
  cases hws with
  | @wild _ v vs ws hws=>
   cases hvs with
   | cons hv hvs=>
    have hlen:(t::ts ++ kept).length=(vs ++ zs).length+1:=by
     simp [hvs.length_eq,hzs.length_eq]
    have hnext:=ih (n+1) (kept ++ [t]) _
     (filterMap_hasType hrows fun _ _=>keepOpen_hasType) hvs hws
     (hzs.append (.cons hv .nil))
    rw [List.cons_append,matchedBy_keepOpen hrows hlen,specialiseToGo]
    simpa using hnext
 | @con t ts us args cs c ps qs hshape hc hlen h ih=>
  cases hws with
  | @con _ _ _ as vs ws _ hws=>
   cases hvs with
   | cons hv hvs=>
    have has:=Values.args_of_hasType_con hshape hc hv
    have htyped:∀ r ∈ rows.filterMap (byCon c ps.length),
      RowHasType sig (args ++ ts ++ kept) r :=
     filterMap_hasType hrows fun row rest hrow heq=>by
      rw [List.append_assoc]
      exact specialise_hasType hshape hc hrow (hlen.symm ▸ heq)
    have hnext:=ih n kept _ htyped (has.append hvs) hws hzs
    rw [specialiseToGo,←hnext,List.cons_append,matchedBy_specialise hshape hc hrows has,
     hlen,List.append_assoc]
 | @lit t ts us ks k l qs hshape hk h ih=>
  cases hws with
  | lit hws=>
   cases hvs with
   | cons hv hvs=>
    rw [List.cons_append,matchedBy_specialiseLit hshape k hrows,specialiseToGo]
    exact ih n kept _ (filterMap_hasType hrows fun _ _=>specialiseLit_hasType) hvs hws hzs

end Specialised

/-! ### The answer -/

section Answer
variable {T:Type} {sig:Sig T} {M:Values sig} {decls:List (Declare Resolved)}

def Redundant (M:Values sig) (ts:List T) (above:List Row) (row:Row) : Prop :=
 ∀ vs, M.AllHaveType ts vs → MatchesRow M row vs → MatchedBy M above vs

variable {ts:List T} {row:Row}

lemma redundant_iff {us:List T} {above:List Row}
  (h:OpenTypes sig ts row us) (habove:∀ r ∈ above, RowHasType sig ts r) :
  Redundant M ts above row ↔
   ∀ ws, M.AllHaveType us ws → MatchedBy M (specialiseTo row above).2 ws := by
 have habove' : ∀ r ∈ above, RowHasType sig (ts ++ []) r:=by simpa using habove
 constructor
 · intro hred ws hws
   obtain ⟨vs,hvs,hexp⟩:=exists_matched h hws
   have hiff:=specialiseToGo_matched h 0 [] above habove' hvs hexp .nil
   rw [List.append_nil] at hiff
   exact hiff.mp (hred vs hvs (matchesRow_of_expands hexp))
 · intro hall vs hvs hm
   obtain ⟨ws,hexp⟩:=exists_expands hm
   have hiff:=specialiseToGo_matched h 0 [] above habove' hvs hexp .nil
   rw [List.append_nil] at hiff
   exact hiff.mpr (hall ws (expands_typed h hvs hexp))

lemma uncoveredRows_empty {families:Families} (hlisted:ListedIn sig families)
  {rows missing:List Row} (hrows:∀ r ∈ rows, RowHasType sig ts r)
  (h:uncoveredRows families ts.length false rows=some missing) :
  missing=[] ↔ ∀ vs, M.AllHaveType ts vs → MatchedBy M rows vs := by
 unfold uncoveredRows at h
 cases hexact:exactTier families ts.length false rows with
 | some r=>
  obtain rfl : r=missing:=by simpa [hexact] using h
  exact (exactTier_missing M hlisted hrows hexact).empty_iff
 | none=>
  have hcoarse:coarseTier families ts.length false rows=some missing:=by
   simpa [hexact] using h
  have hmissing:=coarseTier_missing M hlisted hrows hcoarse
  constructor
  · rintro rfl vs hvs
    simpa using hmissing.completes vs hvs
  · intro hall
    refine List.eq_nil_iff_forall_not_mem.mpr fun r hr=>?_
    obtain ⟨vs,hvs,-,hno⟩:=hmissing.needed r hr
    exact hno (hall vs hvs)

lemma not_redundant_iff {above:List Row} :
  ¬Redundant M ts above row ↔
   ∃ vs, M.AllHaveType ts vs ∧ MatchesRow M row vs ∧ ¬MatchedBy M above vs := by
 simp [Redundant]

lemma coveredBy_eq_some {families:Families} (hlisted:ListedIn sig families)
  {above:List Row} (hrow:RowHasType sig ts row)
  (habove:∀ r ∈ above, RowHasType sig ts r) {b:Bool}
  (h:coveredBy families above row=some b) : b=true ↔ Redundant M ts above row := by
 obtain ⟨us,hus⟩:=exists_openTypes hrow
 obtain ⟨hn,htyped⟩:=specialiseToGo_typed hus 0 [] above (by simpa using habove)
 obtain ⟨missing,hmissing,rfl⟩:=Option.map_eq_some_iff.mp h
 change uncoveredRows families (specialiseToGo 0 row above).1 false
  (specialiseToGo 0 row above).2=some missing at hmissing
 rw [hn,Nat.zero_add] at hmissing
 rw [redundant_iff hus habove,List.isEmpty_iff]
 exact uncoveredRows_empty hlisted htyped hmissing

end Answer

/-! ### Other limits -/

section Limits
variable {T:Type} {sig:Sig T} {M:Values sig}

def runWithin (cap fuel:ℕ) (families:Families) (n:ℕ) (rows:List Row) :
  Option (List Row) :=
 (goWithin cap families (fuel+1) n rows).run' fuel

def uncoveredRowsWithin (cap fuel:ℕ) (families:Families) (n:ℕ) (leftOut:Bool)
  (rows0:List Row) : Option (List Row) :=
 (do
  guard (!leftOut)
  runWithin cap fuel families n rows0) <|> do
  guard (leftOut || rows0.any anyHasLit)
  runWithin cap fuel families n (rows0.filter fun row=>!anyHasLit row)

/-- The test with other limits on the rows and on the steps. -/
def coveredByWithin (cap fuel:ℕ) (families:Families) (above:List Row) (row:Row) :
  Option Bool :=
 let (n,rows):=specialiseTo row above
 List.isEmpty <$> uncoveredRowsWithin cap fuel families n false rows

lemma coveredBy_eq (families:Families) (above:List Row) (row:Row) :
  coveredBy families above row =
   coveredByWithin maxMissingClauses clauseMatrixFuel families above row := by
 simp only [coveredBy,coveredByWithin,uncoveredRows,uncoveredRowsWithin,exactTier,coarseTier,
  run,runWithin,go_eq]

lemma goWithin_covers {families:Families} (hlisted:ListedIn sig families) (cap depth:ℕ)
  (ts:List T) (rows:List Row) (hrows:∀ r ∈ rows, RowHasType sig ts r) :
  Returns (goWithin cap families depth ts.length rows) (Covers M ts rows) := by
 induction depth generalizing ts rows with
 | zero=>exact returns_failure
 | succ depth ih=>
  rw [goWithin]
  refine (returns_true _).bind fun fuel _=>(returns_true _).bind fun _ _=>
   (returns_true _).bind fun _ _=>?_
  refine (uncoveredStep_covers M hlisted ih ts rows hrows).bind fun missing hm=>?_
  exact (returns_true _).bind fun _ _=>returns_pure hm

lemma exists_coveredByWithin {families:Families} (hlisted:ListedIn sig families)
  (hknown:Known sig families) {ts:List T} {row:Row} {above:List Row}
  (hrow:RowHasType sig ts row) (habove:∀ r ∈ above, RowHasType sig ts r) :
  ∃ L, ∀ cap fuel, L ≤ cap → L ≤ fuel →
   ∃ b, coveredByWithin cap fuel families above row=some b ∧
    (b=true ↔ Redundant M ts above row) := by
 obtain ⟨us,hus⟩:=exists_openTypes hrow
 obtain ⟨hn,htyped⟩:=specialiseToGo_typed hus 0 [] above (by simpa using habove)
 obtain ⟨L,hL⟩:=exists_answersWithin hlisted hknown htyped
 refine ⟨L,fun cap fuel hcap hfuel=>?_⟩
 obtain ⟨missing,fuel', hrun,-,-⟩:=hL cap (fuel+1) hcap (by omega) fuel hfuel
 have hmissing:uncoveredRowsWithin cap fuel families us.length false
   (specialiseToGo 0 row above).2=some missing := by
  have hrun' : runWithin cap fuel families us.length (specialiseToGo 0 row above).2 =
    some missing := by
   rw [runWithin,StateT.run', ← List.nil_append us]
   exact Option.map_eq_some_iff.mpr ⟨_,hrun,rfl⟩
  simp [uncoveredRowsWithin,hrun']
 have hcovers:=goWithin_covers (M := M) hlisted cap (fuel+1) _ _ htyped fuel missing fuel' hrun
 refine ⟨missing.isEmpty, ?_, ?_⟩
 · change List.isEmpty <$> uncoveredRowsWithin cap fuel families (specialiseToGo 0 row above).1
    false (specialiseToGo 0 row above).2=some missing.isEmpty
   rw [hn,Nat.zero_add]
   exact Option.map_eq_some_iff.mpr ⟨missing,hmissing,rfl⟩
 · rw [redundant_iff hus habove,List.isEmpty_iff]
   exact (exactlyMissing_of_covers hcovers).empty_iff

end Limits

/-- An answer is exact, only the limits keep the test from one, and specialisation keeps matching:
    a value vector that the row matches is matched above exactly where its values at the positions
    that the row leaves open are matched by the specialised rows. -/
theorem coveredBy_exact {T:Type} {sig:Sig T} (M:Values sig)
  {decls:List (Declare Resolved)} (hdecls:DeclaredBy sig decls) {ts:List T} {row:Row}
  {above:List Row} (hrow:RowHasType sig ts row)
  (habove:∀ r ∈ above, RowHasType sig ts r) :
  (∀ b, coveredBy (constructorFamilies decls) above row=some b →
   (b=true ↔ ∀ vs, M.AllHaveType ts vs → MatchesRow M row vs → MatchedBy M above vs) ∧
   (b=false ↔
    ∃ vs, M.AllHaveType ts vs ∧ MatchesRow M row vs ∧ ¬MatchedBy M above vs)) ∧
  (coveredBy (constructorFamilies decls) above row =
    coveredByWithin maxMissingClauses clauseMatrixFuel (constructorFamilies decls) above row ∧
   (Known sig (constructorFamilies decls) → ∃ L, ∀ cap fuel, L ≤ cap → L ≤ fuel →
    ∃ b, coveredByWithin cap fuel (constructorFamilies decls) above row=some b ∧
     (b=true ↔
      ∀ vs, M.AllHaveType ts vs → MatchesRow M row vs → MatchedBy M above vs))) ∧
  (∀ vs, MatchesRow M row vs ↔ ∃ ws, Expands M row vs ws) ∧
  (∀ rows, (∀ r ∈ rows, RowHasType sig ts r) → ∀ vs ws, M.AllHaveType ts vs →
   Expands M row vs ws → (MatchedBy M rows vs ↔ MatchedBy M (specialiseTo row rows).2 ws)) := by
 have hlisted:=constructorFamilies_listedIn hdecls
 refine ⟨fun b hb=>?_,⟨coveredBy_eq _ above row,fun hknown=>
  exists_coveredByWithin hlisted hknown hrow habove⟩,fun vs=>matchesRow_iff_expands,
  fun rows hrows vs ws hvs hws=>?_⟩
 · have hiff:=coveredBy_eq_some (M := M) hlisted hrow habove hb
   refine ⟨hiff, ?_⟩
   rw [←not_redundant_iff,←hiff]
   simp
 · obtain ⟨us,hus⟩:=exists_openTypes hrow
   have hmatched:=specialiseToGo_matched hus 0 [] rows (by simpa using hrows) hvs hws .nil
   rwa [List.append_nil] at hmatched

/-- An unsecured loan of 2, below the clauses for a secured loan of 1 and for any unsecured one. -/
theorem coveredBy_exact_loan :
  coveredBy (constructorFamilies [loanDeclare]) loanRows
    (loanRow (.def_ falseUnique falseName) (.covLit (.litNum 2) (.numericLit 2))) =
   some true ∧
  ∀ vs, (Tree.values loanSig loan_inhabited).AllHaveType [.loan] vs →
   MatchesRow (Tree.values loanSig loan_inhabited)
    (loanRow (.def_ falseUnique falseName) (.covLit (.litNum 2) (.numericLit 2))) vs →
   MatchedBy (Tree.values loanSig loan_inhabited) loanRows vs := by
 have hrow:RowHasType loanSig [.loan]
   (loanRow (.def_ falseUnique falseName) (.covLit (.litNum 2) (.numericLit 2))) :=
  ⟨⟨_,_,rfl,List.mem_cons_self,
   ⟨_,_,rfl,List.mem_cons_of_mem _ List.mem_cons_self,trivial⟩,
   ⟨_,rfl,2,rfl⟩,trivial⟩,trivial⟩
 have hspecialised:specialiseTo
   (loanRow (.def_ falseUnique falseName) (.covLit (.litNum 2) (.numericLit 2))) loanRows =
    (0,[[]]) := by
  simp only [specialiseTo,specialiseToGo,loanRow,List.cons_append,List.nil_append]
  rfl
 have hanswer:coveredBy (constructorFamilies [loanDeclare]) loanRows
   (loanRow (.def_ falseUnique falseName) (.covLit (.litNum 2) (.numericLit 2))) =
    some true := by
  rw [coveredBy,hspecialised]
  rfl
 exact ⟨hanswer,((coveredBy_exact (Tree.values loanSig loan_inhabited) loan_declaredBy hrow
  loanRows_typed).1 true hanswer).1.mp rfl⟩

/-! ### More constructors than rows are listed -/

section Codes

def code (i:ℕ) : Resolved := .def_ ⟨'c', i,"codes"⟩ ⟨.normalName "code"⟩

def codes : List Resolved := (List.range 66).map code

def codeDeclare : Declare Resolved where
 typeSig:=⟨[],none⟩
 appForm:=⟨.def_ ⟨'t', 0,"codes"⟩ ⟨.normalName "Code"⟩,[],none⟩
 decl:=.enumDecl (codes.map fun c=>⟨c,[]⟩)

lemma code_injective : Function.Injective fun i=>(code i).getUnique := by
 intro i j h
 simpa [code,Resolved.getUnique] using h

def codeSig : Sig Unit where
 shape _ := .data (codes.map fun c=>(c.getUnique,[]))
 distinct t cs h := by
  obtain rfl : codes.map (fun c=>(c.getUnique,[]))=cs:=by simpa using h
  simp only [codes,List.map_map]
  exact List.nodup_range.map code_injective
 endless t ks h := by simp at h

lemma code_inhabited (t:Unit) : ∃ v, Tree.HasType codeSig t v :=
 ⟨.con (code 0).getUnique [],.con rfl (List.mem_map_of_mem (List.mem_map_of_mem (by simp))) .nil⟩

lemma code_declaredBy : DeclaredBy codeSig [codeDeclare] := by
 intro family hfamily t cs u ts hshape hc hu
 obtain rfl : codes.map (fun c=>(c.getUnique,[]))=cs:=by simpa [codeSig] using hshape
 have hfamilies:allFamilies [codeDeclare]=[booleanFamily,codes.map fun c=>(c,0)]:=by
  simp [allFamilies,codeDeclare,declFamilies,List.map_map,Function.comp_def]
 rw [hfamilies,List.mem_pair] at hfamily
 obtain rfl | rfl:=hfamily
 · -- a truth value is no code
   obtain ⟨c,hcode,heq⟩:=List.mem_map.mp hc
   obtain ⟨i,-,rfl⟩:=List.mem_map.mp hcode
   obtain ⟨rfl,-⟩:=Prod.mk.inj heq
   simp [booleanFamily,code,Resolved.getUnique,trueUnique,falseUnique,builtinUnique] at hu
 · simp [List.map_map,Function.comp_def]

/-- A wildcard after one of sixty-six codes: most values are matched by no row above, and the test
    gives up. -/
theorem coveredBy_gives_up :
  DeclaredBy codeSig [codeDeclare] ∧
  (∀ r ∈ [[.covWild],[.covCon (code 0) []]], RowHasType codeSig [()] r) ∧
  coveredBy (constructorFamilies [codeDeclare]) [[.covCon (code 0) []]] [.covWild] ≠
   some false ∧
  ∃ vs, (Tree.values codeSig code_inhabited).AllHaveType [()] vs ∧
   MatchesRow (Tree.values codeSig code_inhabited) [.covWild] vs ∧
   ¬MatchedBy (Tree.values codeSig code_inhabited) [[.covCon (code 0) []]] vs := by
 refine ⟨code_declaredBy, ?_, ?_,[.con (code 1).getUnique []], ?_, ?_, ?_⟩
 · intro r hr
   obtain rfl | rfl:=List.mem_pair.mp hr
   · exact ⟨trivial,trivial⟩
   · exact ⟨⟨_,[],rfl,List.mem_map_of_mem (List.mem_map_of_mem (by simp)),trivial⟩,trivial⟩
 · have hspecialised:specialiseTo [.covWild] [[.covCon (code 0) []]] =
     (1,[[.covCon (code 0) []]]) := by
    simp [specialiseTo,specialiseToGo,keepOpen]
   have hnone:(uncoveredRows (constructorFamilies [codeDeclare]) 1 false
     [[.covCon (code 0) []]]).isNone=true := by
    decide +kernel
   rw [coveredBy,hspecialised]
   simp only [Option.isNone_iff_eq_none.mp hnone]
   simp
 · exact .cons (.con rfl (List.mem_map_of_mem (List.mem_map_of_mem (by simp))) .nil) .nil
 · exact ⟨trivial,trivial⟩
 · rintro ⟨row,hrow,hm⟩
   obtain rfl:=List.mem_singleton.mp hrow
   obtain ⟨vs,heq,-⟩:=hm.1
   have hunique:(code 1).getUnique=(code 0).getUnique:=(Tree.con.inj heq).1
   simp [code,Resolved.getUnique] at hunique

end Codes

end L4Ide.RedundantClauses
