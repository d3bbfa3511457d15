import L4Ide.CoverageAnalysis
import L4Ide.PatternValues
import L4Ide.FuelledComputation

set_option autoImplicit false

/-!
# The missing rows are exact

Each recursion of the analysis returns rows that split the values its matrix
leaves unmatched: a wildcard over numbers or text stands for the keys that the
rows reaching it do not name. One lemma for each way a column is taken apart,
and from them the matrix as a whole.
-/
namespace L4Ide.CoverageAnalysisExact
open Syntax CoverageAnalysis PatternValues FuelledComputation

variable {T:Type}

abbrev Sig (T:Type) := Signature Unique LitKey T

section Typing
variable (sig:Sig T)

mutual

def PatHasType : T → CoveragePattern → Prop
 | _, .covWild=>True
 | t, .covCon c ps=>∃ cs ts, sig.shape t = .data cs ∧ (c.getUnique,ts) ∈ cs ∧ RowHasType ts ps
 | t, .covLit k _=>∃ ks, sig.shape t = .literal ks ∧ k ∈ ks

def RowHasType : List T → Row → Prop
 | [], []=>True
 | t::ts, p::ps=>PatHasType t p ∧ RowHasType ts ps
 | _, _=>False

end

def ListedIn (families:Families) : Prop :=
 ∀ t cs u ts family, sig.shape t = .data cs → (u,ts) ∈ cs → families u=some family →
  family.map (fun f=>(f.1.getUnique,f.2))=cs.map fun c=>(c.1,c.2.length)

end Typing

section Matching
variable {sig:Sig T} (M:Values sig)

mutual

def Matches : CoveragePattern → M.V → Prop
 | .covWild, _=>True
 | .covCon c ps, v=>∃ vs, v=M.con c.getUnique vs ∧ MatchesRow ps vs
 | .covLit k _, v=>v=M.key k

def MatchesRow : Row → List M.V → Prop
 | [], []=>True
 | p::ps, v::vs=>Matches p v ∧ MatchesRow ps vs
 | _, _=>False

end

/-- What a missing row stands for, given the rows it was computed from: a
    wildcard is every value but the keys that rows name there. -/
inductive Stands : List Row → Row → List M.V → Prop where
 | nil (rows:List Row) : Stands rows [] []
 | wild {rows:List Row} {rest:Row} {v:M.V} {vs:List M.V}
   (hkey:∀ l ∈ litHeads rows, v ≠ M.key l.1)
   (hrest:Stands (rows.filterMap dropWildcard) rest vs) :
   Stands rows (.covWild::rest) (v::vs)
 | con {rows:List Row} {c:Resolved} {ps rest:Row} {ws vs:List M.V}
   (hlen:ws.length=ps.length)
   (hrest:Stands (rows.filterMap (specialise c ps.length)) (ps ++ rest) (ws ++ vs)) :
   Stands rows (.covCon c ps::rest) (M.con c.getUnique ws::vs)
 | lit {rows:List Row} {k:LitKey} {l:Lit} {rest:Row} {vs:List M.V}
   (hrest:Stands (rows.filterMap (specialiseLit k)) rest vs) :
   Stands rows (.covLit k l::rest) (M.key k::vs)

def MatchedBy (rows:List Row) (vs:List M.V) : Prop := ∃ row ∈ rows, MatchesRow M row vs

/-- The missing rows split the value vectors that the rows leave unmatched. -/
structure Covers (ts:List T) (rows missing:List Row) : Prop where
 typed : ∀ r ∈ missing, RowHasType sig ts r
 stands_iff : ∀ vs, M.AllHaveType ts vs →
  ((∃ r ∈ missing, Stands M rows r vs) ↔ ¬MatchedBy M rows vs)
 disjoint : missing.Pairwise fun r r' =>∀ vs, ¬(Stands M rows r vs ∧ Stands M rows r' vs)
 nonempty : ∀ r ∈ missing, ∃ vs, M.AllHaveType ts vs ∧ Stands M rows r vs
 litFree : (∀ row ∈ rows, anyHasLit row=false) → ∀ r ∈ missing, anyHasLit r=false

end Matching

/-! ## Typed rows -/

section Typed
variable {sig:Sig T}

variable {ts:List T}

variable {row:Row} {us:List T}

theorem rowHasType_length (h:RowHasType sig ts row) :
  row.length=ts.length := by
 induction ts generalizing row with
 | nil=>
  cases row with
  | nil=>rfl
  | cons p ps=>exact h.elim
 | cons t ts ih=>
  cases row with
  | nil=>exact h.elim
  | cons p ps=>simp [ih h.2]

theorem rowHasType_append {ps qs:Row} (h:RowHasType sig ts ps)
  (h' : RowHasType sig us qs) : RowHasType sig (ts ++ us) (ps ++ qs) := by
 induction ts generalizing ps with
 | nil=>
  cases ps with
  | nil=>exact h'
  | cons p ps=>exact h.elim
 | cons t ts ih=>
  cases ps with
  | nil=>exact h.elim
  | cons p ps=>exact ⟨h.1,ih h.2⟩

theorem rowHasType_split (h:RowHasType sig (ts ++ us) row) :
  RowHasType sig ts (row.take ts.length) ∧ RowHasType sig us (row.drop ts.length) := by
 induction ts generalizing row with
 | nil=>exact ⟨trivial,h⟩
 | cons t ts ih=>
  cases row with
  | nil=>exact h.elim
  | cons p ps=>exact ⟨⟨h.1,(ih h.2).1⟩,(ih h.2).2⟩

theorem rowHasType_wilds (ts:List T) : RowHasType sig ts (List.replicate ts.length .covWild) := by
 induction ts with
 | nil=>trivial
 | cons t ts ih=>exact ⟨trivial,ih⟩

end Typed

section Matching
variable {sig:Sig T} {M:Values sig}

variable {vs:List M.V}

theorem matchesRow_append {ps qs:Row} {ws:List M.V} (hlen:vs.length=ps.length) :
  MatchesRow M (ps ++ qs) (vs ++ ws) ↔ MatchesRow M ps vs ∧ MatchesRow M qs ws := by
 induction ps generalizing vs with
 | nil=>
  obtain rfl : vs=[]:=List.length_eq_zero_iff.1 hlen
  exact (iff_of_eq (true_and _)).symm
 | cons p ps ih=>
  cases vs with
  | nil=>simp at hlen
  | cons v vs=>
   have hlen:vs.length=ps.length:=Nat.succ.inj hlen
   change Matches M p v ∧ MatchesRow M (ps ++ qs) (vs ++ ws) ↔
    (Matches M p v ∧ MatchesRow M ps vs) ∧ MatchesRow M qs ws
   rw [ih hlen,and_assoc]

theorem matchesRow_wilds (vs:List M.V) :
  MatchesRow M (List.replicate vs.length .covWild) vs := by
 induction vs with
 | nil=>trivial
 | cons v vs ih=>exact ⟨trivial,ih⟩

theorem matchesRow_of_isWild {ts:List T} {row:Row}
  (hrow:RowHasType sig ts row) (hvs:M.AllHaveType ts vs)
  (hwild:row.all CoveragePattern.isWild=true) : MatchesRow M row vs := by
 induction hvs generalizing row with
 | nil=>
  cases row with
  | nil=>trivial
  | cons p ps=>exact hrow.elim
 | cons hv hvs ih=>
  cases row with
  | nil=>exact hrow.elim
  | cons p ps=>
   rw [List.all_cons,Bool.and_eq_true] at hwild
   refine ⟨?_,ih hrow.2 hwild.2⟩
   cases p with
   | covWild=>trivial
   | covCon c ps=>simp [CoveragePattern.isWild] at hwild
   | covLit k l=>simp [CoveragePattern.isWild] at hwild

end Matching

/-! ## What is left of a column -/

section Column
variable {sig:Sig T} {M:Values sig}

variable {row:Row} {t:T} {ts:List T} {f:Row → Option Row} {rows:List Row}
 {vs:List M.V}

theorem dropWildcard_eq_some {rest:Row} :
  dropWildcard row=some rest ↔ row = .covWild::rest := by
 rcases row with _ | ⟨p,ps⟩
 · simp [dropWildcard]
 · cases p <;> simp [dropWildcard]

theorem dropWildcard_hasType {rest:Row}
  (h:RowHasType sig (t::ts) row) (heq:dropWildcard row=some rest) :
  RowHasType sig ts rest := by
 rw [dropWildcard_eq_some] at heq
 subst heq
 exact h.2

variable {cs:List (Unique × List T)} {c:Resolved} {ws:List M.V}

theorem specialise_hasType {args:List T}
  (hshape:sig.shape t = .data cs) (hc:(c.getUnique,args) ∈ cs)
  {rest:Row} (h:RowHasType sig (t::ts) row)
  (heq:specialise c args.length row=some rest) : RowHasType sig (args ++ ts) rest := by
 rcases row with _ | ⟨p,tail⟩
 · simp [specialise] at heq
 cases p with
 | covWild=>
  obtain rfl : List.replicate args.length .covWild ++ tail=rest:=by simpa [specialise] using heq
  exact rowHasType_append (rowHasType_wilds args) h.2
 | covCon c' ps=>
  simp only [specialise] at heq
  split_ifs at heq with hsame
  obtain ⟨⟨cs', args', hshape', hc', hps⟩,htail⟩:=h
  obtain rfl : cs=cs' :=by simpa [hshape] using hshape'
  have hu:c.getUnique=c'.getUnique:=by simpa [sameResolved] using hsame
  obtain rfl:=sig.args_unique hshape hc (hu ▸ hc')
  obtain rfl : ps ++ tail=rest:=by simpa using heq
  exact rowHasType_append hps htail
 | covLit k l=>simp [specialise] at heq

theorem specialiseLit_hasType {k:LitKey} {rest:Row}
  (h:RowHasType sig (t::ts) row) (heq:specialiseLit k row=some rest) :
  RowHasType sig ts rest := by
 rcases row with _ | ⟨p,tail⟩
 · simp [specialiseLit] at heq
 cases p with
 | covWild=>
  obtain rfl : tail=rest:=by simpa [specialiseLit] using heq
  exact h.2
 | covCon c ps=>simp [specialiseLit] at heq
 | covLit k' l=>
  simp only [specialiseLit] at heq
  split_ifs at heq
  obtain rfl : tail=rest:=by simpa using heq
  exact h.2

theorem filterMap_hasType {us:List T} (hrows:∀ row ∈ rows, RowHasType sig ts row)
  (hf:∀ row rest, RowHasType sig ts row → f row=some rest → RowHasType sig us rest) :
  ∀ row ∈ rows.filterMap f, RowHasType sig us row := by
 intro rest hrest
 obtain ⟨row,hrow,heq⟩:=List.mem_filterMap.1 hrest
 exact hf row rest (hrows row hrow) heq

theorem filterMap_litFree
  (hf:∀ row rest, anyHasLit row=false → f row=some rest → anyHasLit rest=false)
  (hrows:∀ row ∈ rows, anyHasLit row=false) :
  ∀ row ∈ rows.filterMap f, anyHasLit row=false := by
 intro rest hrest
 obtain ⟨row,hrow,heq⟩:=List.mem_filterMap.1 hrest
 exact hf row rest (hrows row hrow) heq

theorem anyHasLit_append (ps qs:Row) :
  anyHasLit (ps ++ qs)=(anyHasLit ps || anyHasLit qs) := by
 induction ps with
 | nil=>rfl
 | cons p ps ih=>rw [List.cons_append,anyHasLit,ih,anyHasLit,Bool.or_assoc]

theorem anyHasLit_wilds (a:ℕ) : anyHasLit (List.replicate a .covWild)=false := by
 induction a with
 | zero=>rfl
 | succ a ih=>rw [List.replicate_succ,anyHasLit,ih]; rfl

theorem dropWildcard_litFree (row rest:Row) (h:anyHasLit row=false)
  (heq:dropWildcard row=some rest) : anyHasLit rest=false := by
 rw [dropWildcard_eq_some] at heq
 subst heq
 simpa [anyHasLit,CoveragePattern.hasLit] using h

theorem specialise_litFree (c:Resolved) (a:ℕ) (row rest:Row) (h:anyHasLit row=false)
  (heq:specialise c a row=some rest) : anyHasLit rest=false := by
 rcases row with _ | ⟨p,tail⟩
 · simp [specialise] at heq
 cases p with
 | covWild=>
  obtain rfl : List.replicate a .covWild ++ tail=rest:=by simpa [specialise] using heq
  rw [anyHasLit_append,anyHasLit_wilds]
  simpa [anyHasLit,CoveragePattern.hasLit] using h
 | covCon c' ps=>
  simp only [specialise] at heq
  split_ifs at heq
  obtain rfl : ps ++ tail=rest:=by simpa using heq
  rw [anyHasLit_append]
  simpa [anyHasLit,CoveragePattern.hasLit] using h
 | covLit k l=>simp [specialise] at heq

/-- Matching survives a way of taking a column apart that keeps exactly the rows
    that can match. -/
theorem matchedBy_filterMap
  (h:∀ row ∈ rows, MatchesRow M row vs ↔ ∃ rest, f row=some rest ∧ MatchesRow M rest ws) :
  MatchedBy M rows vs ↔ MatchedBy M (rows.filterMap f) ws := by
 constructor
 · rintro ⟨row,hrow,hm⟩
   obtain ⟨rest,heq,hm⟩:=(h row hrow).1 hm
   exact ⟨rest,List.mem_filterMap.2 ⟨row,hrow,heq⟩,hm⟩
 · rintro ⟨rest,hrest,hm⟩
   obtain ⟨row,hrow,heq⟩:=List.mem_filterMap.1 hrest
   exact ⟨row,hrow,(h row hrow).2 ⟨rest,heq,hm⟩⟩

theorem matchedBy_dropWildcard {v:M.V}
  (h:∀ row ∈ rows, ∀ p tail, row=p::tail → p = .covWild ∨ ¬Matches M p v) :
  MatchedBy M rows (v::vs) ↔ MatchedBy M (rows.filterMap dropWildcard) vs := by
 refine matchedBy_filterMap fun row hrow=>?_
 rcases row with _ | ⟨p,tail⟩
 · simp [MatchesRow,dropWildcard]
 · simp only [dropWildcard_eq_some]
   constructor
   · intro hm
     rcases h _ hrow p tail rfl with rfl | hno
     · exact ⟨tail,rfl,hm.2⟩
     · exact absurd hm.1 hno
   · rintro ⟨rest,heq,hm⟩
     obtain ⟨rfl,rfl⟩:=List.cons.inj heq
     exact ⟨trivial,hm⟩

theorem matchedBy_specialise {args:List T}
  (hshape:sig.shape t = .data cs) (hc:(c.getUnique,args) ∈ cs)
  (hrows:∀ row ∈ rows, RowHasType sig (t::ts) row)
  (hws:M.AllHaveType args ws) :
  MatchedBy M rows (M.con c.getUnique ws::vs) ↔
   MatchedBy M (rows.filterMap (specialise c args.length)) (ws ++ vs) := by
 refine matchedBy_filterMap fun row hrow=>?_
 have htyped:=hrows row hrow
 rcases row with _ | ⟨p,tail⟩
 · exact htyped.elim
 cases p with
 | covWild=>
  have hlen:ws.length=(List.replicate args.length CoveragePattern.covWild).length:=by
   rw [List.length_replicate,hws.length_eq]
  have hwilds:MatchesRow M (List.replicate args.length .covWild) ws:=by
   rw [hws.length_eq]
   exact matchesRow_wilds ws
  simp only [specialise,Option.some.injEq,exists_eq_left', matchesRow_append hlen]
  exact ⟨fun hm=>⟨hwilds,hm.2⟩,fun hm=>⟨trivial,hm.2⟩⟩
 | covCon c' ps=>
  obtain ⟨⟨cs', args', hshape', hc', hps⟩,_⟩:=htyped
  obtain rfl : cs=cs' :=by simpa [hshape] using hshape'
  by_cases hu:c.getUnique=c'.getUnique
  · obtain rfl:=sig.args_unique hshape hc (hu ▸ hc')
    have hlen:ws.length=ps.length:=by
     rw [rowHasType_length hps,hws.length_eq]
    have hsame:sameResolved c c' = true:=by simpa [sameResolved] using hu
    simp only [specialise,hsame,if_true,Option.some.injEq,exists_eq_left',
     matchesRow_append hlen]
    constructor
    · rintro ⟨⟨ws', heq,hm⟩,htail⟩
      obtain ⟨_,rfl⟩:=M.con_inj _ _ _ _ heq
      exact ⟨hm,htail⟩
    · rintro ⟨hm,htail⟩
      exact ⟨⟨ws,by rw [hu],hm⟩,htail⟩
  · have hsame:sameResolved c c' = false:=by simpa [sameResolved] using hu
    simp only [specialise,hsame]
    refine iff_of_false ?_ (by simp)
    rintro ⟨⟨ws', heq,_⟩,_⟩
    exact hu (M.con_inj _ _ _ _ heq).1
 | covLit k l=>
  obtain ⟨⟨ks,hks,_⟩,_⟩:=htyped
  simp [hshape] at hks

theorem matchedBy_specialiseLit {ks:Set LitKey} (hshape:sig.shape t = .literal ks) (k:LitKey)
  (hrows:∀ row ∈ rows, RowHasType sig (t::ts) row) :
  MatchedBy M rows (M.key k::vs) ↔ MatchedBy M (rows.filterMap (specialiseLit k)) vs := by
 refine matchedBy_filterMap fun row hrow=>?_
 have htyped:=hrows row hrow
 rcases row with _ | ⟨p,tail⟩
 · exact htyped.elim
 cases p with
 | covWild=>
  simp only [specialiseLit,Option.some.injEq,exists_eq_left']
  exact ⟨fun hm=>hm.2,fun hm=>⟨trivial,hm⟩⟩
 | covCon c ps=>
  obtain ⟨⟨cs,args,hcs,_⟩,_⟩:=htyped
  simp [hshape] at hcs
 | covLit k' l=>
  by_cases hk:k' = k
  · subst hk
    simp only [specialiseLit,if_true,Option.some.injEq,exists_eq_left']
    exact ⟨fun hm=>hm.2,fun hm=>⟨rfl,hm⟩⟩
  · simp only [specialiseLit,if_neg hk]
    refine iff_of_false ?_ (by simp)
    rintro ⟨heq,_⟩
    exact hk (M.key_inj _ _ heq).symm

end Column

/-! ## One column -/

section Cases
variable {sig:Sig T} {M:Values sig}

variable {rows:List Row} {ts:List T} {t:T} {v:M.V} {vs:List M.V}

theorem covers_zero (hrows:∀ row ∈ rows, RowHasType sig [] row) :
  Covers M [] rows (if rows.isEmpty then [[]] else []) := by
 rcases rows with _ | ⟨row,rows⟩
 · refine ⟨?_,fun vs hvs=>?_,List.pairwise_singleton _ _, ?_, ?_⟩
   · intro r hr
     rw [List.mem_singleton.1 hr]
     trivial
   · cases hvs
     refine iff_of_true ⟨[],List.mem_singleton_self _,.nil _⟩ ?_
     rintro ⟨row,hrow,_⟩
     exact absurd hrow List.not_mem_nil
   · intro r hr
     rw [List.mem_singleton.1 hr]
     exact ⟨[],.nil,.nil _⟩
   · intro _ r hr
     rw [List.mem_singleton.1 hr]
     rfl
 · refine ⟨by simp,fun vs hvs=>?_,.nil,by simp,by simp⟩
   cases hvs
   refine iff_of_false (by simp) (not_not.2 ⟨row,List.mem_cons_self, ?_⟩)
   have hrow:=hrows row List.mem_cons_self
   rcases row with _ | ⟨p,ps⟩
   · trivial
   · exact hrow.elim

theorem covers_nil (h:∀ vs, M.AllHaveType ts vs → MatchedBy M rows vs) : Covers M ts rows [] :=
 ⟨by simp,fun vs hvs=>iff_of_false (by simp) (not_not.2 (h vs hvs)),.nil,by simp,by simp⟩

theorem covers_wild {missing:List Row}
  (hheads:∀ row ∈ rows, ∀ p tail, row=p::tail → p = .covWild)
  (h:Covers M ts (rows.filterMap dropWildcard) missing) :
  Covers M (t::ts) rows (missing.map (.covWild :: ·)) := by
 have hlits:litHeads rows=[]:=by
  refine List.filterMap_eq_nil_iff.2 fun row hrow=>?_
  rcases row with _ | ⟨p,tail⟩
  · rfl
  · rw [hheads _ hrow p tail rfl]
 have stands:∀ r v vs, Stands M rows (.covWild::r) (v::vs) ↔
   Stands M (rows.filterMap dropWildcard) r vs := by
  intro r v vs
  constructor
  · intro hs
    cases hs with
    | wild _ hrest=>exact hrest
  · exact fun hs=>.wild (by simp [hlits]) hs
 refine ⟨?_, ?_, ?_, ?_, ?_⟩
 · intro r hr
   obtain ⟨r,hmem,rfl⟩:=List.mem_map.1 hr
   exact ⟨trivial,h.typed r hmem⟩
 · intro vs hvs
   cases hvs with
   | @cons _ v _ vs hv hvs=>
    rw [matchedBy_dropWildcard fun row hrow p tail heq=>Or.inl (hheads row hrow p tail heq),
     ← h.stands_iff vs hvs]
    simp only [List.mem_map,exists_exists_and_eq_and,stands]
 · refine List.pairwise_map.2 (h.disjoint.imp fun hdisj vs hs=>?_)
   rcases vs with _ | ⟨v,vs⟩
   · cases hs.1
   · exact hdisj vs ⟨(stands _ v vs).1 hs.1,(stands _ v vs).1 hs.2⟩
 · intro r hr
   obtain ⟨r,hmem,rfl⟩:=List.mem_map.1 hr
   obtain ⟨vs,hvs,hs⟩:=h.nonempty r hmem
   obtain ⟨v,hv⟩:=M.inhabited t
   exact ⟨v::vs,.cons hv hvs,(stands r v vs).2 hs⟩
 · intro hfree r hr
   obtain ⟨r,hmem,rfl⟩:=List.mem_map.1 hr
   have hfreeR:=h.litFree (filterMap_litFree dropWildcard_litFree hfree) r hmem
   simpa [anyHasLit,CoveragePattern.hasLit] using hfreeR

theorem covers_wilds (args:List T) {missing:List Row} (h:Covers M ts rows missing) :
  Covers M (args ++ ts) (rows.map (List.replicate args.length .covWild ++ ·))
   (missing.map (List.replicate args.length .covWild ++ ·)) := by
 induction args with
 | nil=>simpa using h
 | cons t args ih=>
  have hdrop:(rows.map (List.replicate (t::args).length CoveragePattern.covWild ++ ·)).filterMap
    dropWildcard=rows.map (List.replicate args.length .covWild ++ ·) := by
   simp [List.filterMap_map,Function.comp_def,List.replicate_succ,dropWildcard]
  have hheads:∀ row ∈ rows.map (List.replicate (t::args).length .covWild ++ ·),
    ∀ p tail, row=p::tail → p = .covWild := by
   intro row hrow p tail heq
   obtain ⟨r,-,rfl⟩:=List.mem_map.1 hrow
   simp [List.replicate_succ] at heq
   exact heq.1.symm
  have hwild:=covers_wild (t := t) hheads (hdrop ▸ ih)
  simpa [List.map_map,Function.comp_def,List.replicate_succ] using hwild

variable {c:Resolved} {family:List (Resolved × ℕ)} {blocks:List (List Row)}

theorem stands_con_iff {ps rest:Row}
  :
  Stands M rows (.covCon c ps::rest) (v::vs) ↔ ∃ ws, v=M.con c.getUnique ws ∧
   ws.length=ps.length ∧
   Stands M (rows.filterMap (specialise c ps.length)) (ps ++ rest) (ws ++ vs) := by
 constructor
 · intro h
   cases h with
   | con hlen hrest=>exact ⟨_,rfl,hlen,hrest⟩
 · rintro ⟨ws,rfl,hlen,hrest⟩
   exact .con hlen hrest

theorem stands_lit_iff {k:LitKey} {l:Lit} {rest:Row}
  :
  Stands M rows (.covLit k l::rest) (v::vs) ↔ v=M.key k ∧
   Stands M (rows.filterMap (specialiseLit k)) rest vs := by
 constructor
 · intro h
   cases h with
   | lit hrest=>exact ⟨rfl,hrest⟩
 · rintro ⟨rfl,hrest⟩
   exact .lit hrest

theorem stands_wild_iff {rest:Row} :
  Stands M rows (.covWild::rest) (v::vs) ↔ (∀ l ∈ litHeads rows, v ≠ M.key l.1) ∧
   Stands M (rows.filterMap dropWildcard) rest vs := by
 constructor
 · intro h
   cases h with
   | wild hkey hrest=>exact ⟨hkey,hrest⟩
 · exact fun h=>.wild h.1 h.2

theorem stands_regroup_iff {args:List T} {r:Row}
  (hr:RowHasType sig (args ++ ts) r) :
  Stands M rows (.covCon c (r.take args.length)::r.drop args.length) (v::vs) ↔
   ∃ ws, v=M.con c.getUnique ws ∧ ws.length=args.length ∧
    Stands M (rows.filterMap (specialise c args.length)) r (ws ++ vs) := by
 have hlen:(r.take args.length).length=args.length:=rowHasType_length (rowHasType_split hr).1
 rw [stands_con_iff,hlen,List.take_append_drop]

theorem exists_args {ts:List (Unique × List T)}
  (hfamily:family.map (fun f=>(f.1.getUnique,f.2))=ts.map fun c=>(c.1,c.2.length))
  {f:Resolved × ℕ} (hf:f ∈ family) :
  ∃ args, (f.1.getUnique,args) ∈ ts ∧ args.length=f.2 := by
 have hmem:(f.1.getUnique,f.2) ∈ ts.map fun c=>(c.1,c.2.length):=
  hfamily ▸ List.mem_map_of_mem hf
 obtain ⟨⟨u,args⟩,hc,heq⟩:=List.mem_map.1 hmem
 obtain ⟨rfl,hlen⟩:=Prod.mk.inj heq
 exact ⟨args,hc,hlen⟩

theorem covers_con {cs:List (Unique × List T)}
  (hshape:sig.shape t = .data cs)
  (hfamily:family.map (fun f=>(f.1.getUnique,f.2))=cs.map fun c=>(c.1,c.2.length))
  (hrows:∀ row ∈ rows, RowHasType sig (t::ts) row)
  (hblocks:List.Forall₂ (fun f block=>∀ args, (f.1.getUnique,args) ∈ cs →
   args.length=f.2 → ∃ missing,
    Covers M (args ++ ts) (rows.filterMap (specialise f.1 f.2)) missing ∧
    block=missing.map fun w=>.covCon f.1 (w.take f.2)::w.drop f.2) family blocks) :
  Covers M (t::ts) rows blocks.flatten := by
 have exists_constructor:∀ u args, (u,args) ∈ cs →
   ∃ f ∈ family, f.1.getUnique=u ∧ args.length=f.2 := by
  intro u args hc
  have hmem:(u,args.length) ∈ family.map fun f=>(f.1.getUnique,f.2):=
   hfamily ▸ List.mem_map_of_mem hc
  obtain ⟨f,hf,heq⟩:=List.mem_map.1 hmem
  obtain ⟨hu,hlen⟩:=Prod.mk.inj heq
  exact ⟨f,hf,hu,hlen.symm⟩
 have distinct:family.Pairwise fun f f' =>f.1.getUnique ≠ f'.1.getUnique:=by
  have hnodup:(family.map fun f=>f.1.getUnique).Nodup:=by
   have heq:family.map (fun f=>f.1.getUnique)=cs.map Prod.fst:=by
    simpa [Function.comp_def] using congrArg (List.map Prod.fst) hfamily
   rw [heq]
   exact sig.distinct t cs hshape
  exact List.pairwise_map.1 hnodup
 -- every missing row comes from the block of one constructor
 have from_block:∀ r ∈ blocks.flatten, ∃ f ∈ family, ∃ args, (f.1.getUnique,args) ∈ cs ∧
   args.length=f.2 ∧ ∃ missing,
    Covers M (args ++ ts) (rows.filterMap (specialise f.1 args.length)) missing ∧
    ∃ w ∈ missing, r = .covCon f.1 (w.take args.length)::w.drop args.length := by
  intro r hr
  obtain ⟨block,hblock,hr⟩:=List.mem_flatten.1 hr
  obtain ⟨f,hf,hcovers⟩:=forall₂_mem_right hblocks hblock
  obtain ⟨args,hc,hlen⟩:=exists_args hfamily hf
  obtain ⟨missing,hm,rfl⟩:=hcovers args hc hlen
  obtain ⟨w,hw,rfl⟩:=List.mem_map.1 hr
  refine ⟨f,hf,args,hc,hlen,missing, ?_,w,hw, ?_⟩ <;> rw [hlen]
  exact hm
 refine ⟨?_, ?_, ?_, ?_, ?_⟩
 · intro r hr
   obtain ⟨f,-,args,hc,-,missing,hm,w,hw,rfl⟩:=from_block r hr
   obtain ⟨htake,hdrop⟩:=rowHasType_split (hm.typed w hw)
   exact ⟨⟨cs,args,hshape,hc,htake⟩,hdrop⟩
 · intro vs hvs
   cases hvs with
   | @cons _ v _ vs hv hvs=>
    constructor
    · rintro ⟨r,hr,hs⟩
      obtain ⟨f,-,args,hc,-,missing,hm,w,hw,rfl⟩:=from_block r hr
      obtain ⟨ws,rfl,hlen,hs⟩:=(stands_regroup_iff (hm.typed w hw)).1 hs
      have hws:=M.args_of_hasType_con hshape hc hv
      rw [matchedBy_specialise hshape hc hrows hws]
      exact (hm.stands_iff _ (hws.append hvs)).1 ⟨w,hw,hs⟩
    · intro hno
      obtain ⟨u,args,ws,hc,hws,rfl⟩:=(M.data_iff t cs v hshape).1 hv
      obtain ⟨f,hf,rfl,hlen⟩:=exists_constructor u args hc
      obtain ⟨block,hblock,hcovers⟩:=forall₂_mem_left hblocks hf
      obtain ⟨missing,hm,rfl⟩:=hcovers args hc hlen
      rw [←hlen] at hm
      rw [matchedBy_specialise hshape hc hrows hws] at hno
      obtain ⟨w,hw,hs⟩:=(hm.stands_iff _ (Values.AllHaveType.append hws hvs)).2 hno
      refine ⟨_,List.mem_flatten.2 ⟨_,hblock,List.mem_map_of_mem hw⟩, ?_⟩
      rw [←hlen,stands_regroup_iff (hm.typed w hw)]
      exact ⟨ws,rfl,hws.length_eq.symm,hs⟩
 · refine List.pairwise_flatten.2 ⟨fun block hblock=>?_, ?_⟩
   · obtain ⟨f,hf,hcovers⟩:=forall₂_mem_right hblocks hblock
     obtain ⟨args,hc,hlen⟩:=exists_args hfamily hf
     obtain ⟨missing,hm,rfl⟩:=hcovers args hc hlen
     rw [←hlen] at hm ⊢
     refine List.pairwise_map.2 (hm.disjoint.imp_of_mem fun {w w'} hw hw' hdisj vs hs=>?_)
     rcases vs with _ | ⟨v,vs⟩
     · cases hs.1
     · obtain ⟨ws,rfl,-,hs1⟩:=(stands_regroup_iff (hm.typed w hw)).1 hs.1
       obtain ⟨ws', heq,-,hs2⟩:=(stands_regroup_iff (hm.typed w' hw')).1 hs.2
       obtain ⟨-,rfl⟩:=M.con_inj _ _ _ _ heq
       exact hdisj _ ⟨hs1,hs2⟩
   · have apart:family.Pairwise fun f f' =>
       f ∈ family ∧ f' ∈ family ∧ f.1.getUnique ≠ f'.1.getUnique :=
      distinct.imp_of_mem fun hf hf' hne=>⟨hf,hf', hne⟩
     refine pairwise_of_forall₂ hblocks apart ?_
     rintro f f' block block' ⟨hf,hf', hne⟩ hcovers hcovers' r hr r' hr' vs hs
     obtain ⟨args,hc,hlen⟩:=exists_args hfamily hf
     obtain ⟨args', hc', hlen'⟩:=exists_args hfamily hf'
     obtain ⟨missing,-,rfl⟩:=hcovers args hc hlen
     obtain ⟨missing', -,rfl⟩:=hcovers' args' hc' hlen'
     obtain ⟨w,-,rfl⟩:=List.mem_map.1 hr
     obtain ⟨w', -,rfl⟩:=List.mem_map.1 hr'
     rcases vs with _ | ⟨v,vs⟩
     · cases hs.1
     · obtain ⟨ws,rfl,-,-⟩:=stands_con_iff.1 hs.1
       obtain ⟨ws', heq,-,-⟩:=stands_con_iff.1 hs.2
       exact hne (M.con_inj _ _ _ _ heq).1
 · intro r hr
   obtain ⟨f,-,args,hc,-,missing,hm,w,hw,rfl⟩:=from_block r hr
   obtain ⟨zs,hzs,hs⟩:=hm.nonempty w hw
   obtain ⟨ws,vs,rfl,hws,hvs⟩:=hzs.split
   refine ⟨M.con f.1.getUnique ws::vs,.cons (M.hasType_con hshape hc hws) hvs, ?_⟩
   rw [stands_regroup_iff (hm.typed w hw)]
   exact ⟨ws,rfl,hws.length_eq.symm,hs⟩
 · intro hfree r hr
   obtain ⟨f,-,args,-,-,missing,hm,w,hw,rfl⟩:=from_block r hr
   have hw:=hm.litFree (filterMap_litFree (specialise_litFree f.1 args.length) hfree) w hw
   rw [←List.take_append_drop args.length w,anyHasLit_append] at hw
   simpa [anyHasLit,CoveragePattern.hasLit] using hw

theorem covers_lit {ks:Set LitKey} (hshape:sig.shape t = .literal ks)
  (hrows:∀ row ∈ rows, RowHasType sig (t::ts) row)
  {named:List (LitKey × Lit)} (hnamed:∀ l ∈ named, l ∈ litHeads rows)
  (hall:∀ l ∈ litHeads rows, ∃ l' ∈ named, l'.1=l.1)
  (hdistinct:named.Pairwise fun l l' =>l.1 ≠ l'.1) (hlits:litHeads rows ≠ [])
  {others:List Row} (hothers:Covers M ts (rows.filterMap dropWildcard) others)
  (hblocks:List.Forall₂ (fun l block=>∃ missing,
   Covers M ts (rows.filterMap (specialiseLit l.1)) missing ∧
   block=missing.map (.covLit l.1 l.2 :: ·)) named blocks) :
  Covers M (t::ts) rows (blocks.flatten ++ others.map (.covWild :: ·)) := by
 have key_mem:∀ row ∈ rows, ∀ k l tail, row = .covLit k l::tail → k ∈ ks:=by
  rintro row hrow k l tail rfl
  obtain ⟨⟨ks', hks', hk⟩,-⟩:=hrows _ hrow
  obtain rfl : ks=ks' :=by simpa [hshape] using hks'
  exact hk
 have head_mem:∀ l ∈ litHeads rows, ∃ row ∈ rows, ∃ tail, row = .covLit l.1 l.2::tail:=by
  intro l hl
  obtain ⟨row,hrow,heq⟩:=List.mem_filterMap.1 hl
  rcases row with _ | ⟨p,tail⟩
  · simp at heq
  · cases p with
    | covLit k lit=>
     obtain rfl : (k,lit)=l:=by simpa using heq
     exact ⟨_,hrow,tail,rfl⟩
    | covWild=>simp at heq
    | covCon c ps=>simp at heq
 have mem_head:∀ row ∈ rows, ∀ k l tail, row = .covLit k l::tail → (k,l) ∈ litHeads rows:=by
  rintro row hrow k l tail rfl
  exact List.mem_filterMap.2 ⟨_,hrow,rfl⟩
 have named_mem:∀ l ∈ named, l.1 ∈ ks:=by
  intro l hl
  obtain ⟨row,hrow,tail,heq⟩:=head_mem l (hnamed l hl)
  exact key_mem row hrow _ _ tail heq
 -- a key that no row names is matched by wildcards only
 have matchedBy_other:∀ k, (∀ l ∈ litHeads rows, M.key k ≠ M.key l.1) → ∀ vs,
   (MatchedBy M rows (M.key k::vs) ↔ MatchedBy M (rows.filterMap dropWildcard) vs) := by
  intro k hk vs
  refine matchedBy_dropWildcard fun row hrow p tail heq=>?_
  cases p with
  | covWild=>exact Or.inl rfl
  | covCon c ps=>
   subst heq
   obtain ⟨⟨cs,args,hcs,-⟩,-⟩:=hrows _ hrow
   simp [hshape] at hcs
  | covLit k' l=>exact Or.inr (hk _ (mem_head row hrow k' l tail heq))
 have from_block:∀ r ∈ blocks.flatten, ∃ l ∈ named, ∃ missing,
   Covers M ts (rows.filterMap (specialiseLit l.1)) missing ∧
   ∃ w ∈ missing, r = .covLit l.1 l.2::w := by
  intro r hr
  obtain ⟨block,hblock,hr⟩:=List.mem_flatten.1 hr
  obtain ⟨l,hl,missing,hm,rfl⟩:=forall₂_mem_right hblocks hblock
  obtain ⟨w,hw,rfl⟩:=List.mem_map.1 hr
  exact ⟨l,hl,missing,hm,w,hw,rfl⟩
 refine ⟨?_, ?_, ?_, ?_, ?_⟩
 · intro r hr
   rcases List.mem_append.1 hr with hr | hr
   · obtain ⟨l,hl,missing,hm,w,hw,rfl⟩:=from_block r hr
     exact ⟨⟨ks,hshape,named_mem l hl⟩,hm.typed w hw⟩
   · obtain ⟨w,hw,rfl⟩:=List.mem_map.1 hr
     exact ⟨trivial,hothers.typed w hw⟩
 · intro vs hvs
   cases hvs with
   | @cons _ v _ vs hv hvs=>
    obtain ⟨k,hk,rfl⟩:=(M.literal_iff t ks v hshape).1 hv
    constructor
    · rintro ⟨r,hr,hs⟩
      rcases List.mem_append.1 hr with hr | hr
      · obtain ⟨l,hl,missing,hm,w,hw,rfl⟩:=from_block r hr
        obtain ⟨heq,hrest⟩:=stands_lit_iff.1 hs
        obtain rfl:=M.key_inj _ _ heq
        rw [matchedBy_specialiseLit hshape l.1 hrows]
        exact (hm.stands_iff vs hvs).1 ⟨w,hw,hrest⟩
      · obtain ⟨w,hw,rfl⟩:=List.mem_map.1 hr
        obtain ⟨hkey,hs⟩:=stands_wild_iff.1 hs
        rw [matchedBy_other k hkey]
        exact (hothers.stands_iff vs hvs).1 ⟨w,hw,hs⟩
    · intro hno
      by_cases hkey:∀ l ∈ litHeads rows, M.key k ≠ M.key l.1
      · rw [matchedBy_other k hkey] at hno
        obtain ⟨w,hw,hs⟩:=(hothers.stands_iff vs hvs).2 hno
        exact ⟨_,List.mem_append_right _ (List.mem_map_of_mem hw),.wild hkey hs⟩
      · obtain ⟨l,hl,heq⟩ : ∃ l ∈ litHeads rows, M.key k=M.key l.1:=by
         by_contra hnone
         exact hkey fun l hl heq=>hnone ⟨l,hl,heq⟩
        obtain rfl:=M.key_inj _ _ heq
        obtain ⟨l', hl', hfst⟩:=hall l hl
        obtain ⟨block,hblock,missing,hm,rfl⟩:=forall₂_mem_left hblocks hl'
        rw [←hfst,matchedBy_specialiseLit hshape l'.1 hrows] at hno
        obtain ⟨w,hw,hs⟩:=(hm.stands_iff vs hvs).2 hno
        refine ⟨_,List.mem_append_left _ (List.mem_flatten.2
         ⟨_,hblock,List.mem_map_of_mem hw⟩), ?_⟩
        rw [←hfst]
        exact .lit hs
 · refine List.pairwise_append.2 ⟨List.pairwise_flatten.2 ⟨fun block hblock=>?_, ?_⟩, ?_, ?_⟩
   · obtain ⟨l,-,missing,hm,rfl⟩:=forall₂_mem_right hblocks hblock
     refine List.pairwise_map.2 (hm.disjoint.imp fun hdisj vs hs=>?_)
     rcases vs with _ | ⟨v,vs⟩
     · cases hs.1
     · exact hdisj vs ⟨(stands_lit_iff.1 hs.1).2,(stands_lit_iff.1 hs.2).2⟩
   · refine pairwise_of_forall₂ hblocks hdistinct ?_
     rintro l l' block block' hne ⟨missing,-,rfl⟩ ⟨missing', -,rfl⟩ r hr r' hr' vs hs
     obtain ⟨w,-,rfl⟩:=List.mem_map.1 hr
     obtain ⟨w', -,rfl⟩:=List.mem_map.1 hr'
     rcases vs with _ | ⟨v,vs⟩
     · cases hs.1
     · have heq:=(stands_lit_iff.1 hs.1).1.symm.trans (stands_lit_iff.1 hs.2).1
       exact hne (M.key_inj _ _ heq)
   · refine List.pairwise_map.2 (hothers.disjoint.imp fun hdisj vs hs=>?_)
     rcases vs with _ | ⟨v,vs⟩
     · cases hs.1
     · exact hdisj vs ⟨(stands_wild_iff.1 hs.1).2,(stands_wild_iff.1 hs.2).2⟩
   · intro r hr r' hr' vs hs
     obtain ⟨l,hl,missing,-,w,-,rfl⟩:=from_block r hr
     obtain ⟨w', -,rfl⟩:=List.mem_map.1 hr'
     rcases vs with _ | ⟨v,vs⟩
     · cases hs.1
     · exact (stands_wild_iff.1 hs.2).1 l (hnamed l hl) (stands_lit_iff.1 hs.1).1
 · intro r hr
   rcases List.mem_append.1 hr with hr | hr
   · obtain ⟨l,hl,missing,hm,w,hw,rfl⟩:=from_block r hr
     obtain ⟨vs,hvs,hs⟩:=hm.nonempty w hw
     exact ⟨_,.cons (M.hasType_key hshape (named_mem l hl)) hvs,.lit hs⟩
   · obtain ⟨w,hw,rfl⟩:=List.mem_map.1 hr
     obtain ⟨vs,hvs,hs⟩:=hothers.nonempty w hw
     obtain ⟨k,hk,hfresh⟩:=sig.exists_fresh_key hshape ((litHeads rows).map Prod.fst)
     refine ⟨_,.cons (M.hasType_key hshape hk) hvs,.wild (fun l hl heq=>hfresh ?_) hs⟩
     rw [M.key_inj _ _ heq]
     exact List.mem_map_of_mem hl
 · intro hfree
   -- a row that names a key is no row without a literal
   obtain ⟨l,hl⟩:=List.exists_mem_of_ne_nil _ hlits
   obtain ⟨row,hrow,tail,rfl⟩:=head_mem l hl
   have hlit:=hfree _ hrow
   simp [anyHasLit,CoveragePattern.hasLit] at hlit

end Cases

/-! ## The whole matrix -/

section Matrix
variable {sig:Sig T} (M:Values sig)

variable {A K:Type} {rows:List Row}

theorem nubOrdOn_subset [DecidableEq K] (f:A → K) (l:List A) :
  ∀ a ∈ nubOrdOn f l, a ∈ l := by
 induction l with
 | nil=>exact fun a h=>h
 | cons b l ih=>
  intro a ha
  rcases List.mem_cons.1 ha with rfl | ha
  · exact List.mem_cons_self
  · exact List.mem_cons_of_mem _ (ih a (List.mem_filter.1 ha).1)

theorem nubOrdOn_key [DecidableEq K] (f:A → K) (l:List A) :
  ∀ a ∈ l, ∃ b ∈ nubOrdOn f l, f b=f a := by
 induction l with
 | nil=>exact fun a h=>absurd h List.not_mem_nil
 | cons b l ih=>
  intro a ha
  by_cases hkey:f a=f b
  · exact ⟨b,List.mem_cons_self,hkey.symm⟩
  · rcases List.mem_cons.1 ha with rfl | ha
    · exact absurd rfl hkey
    · obtain ⟨c,hc,heq⟩:=ih a ha
      refine ⟨c,List.mem_cons_of_mem _ (List.mem_filter.2 ⟨hc, ?_⟩),heq⟩
      simpa [heq] using hkey

theorem nubOrdOn_pairwise [DecidableEq K] (f:A → K) (l:List A) :
  (nubOrdOn f l).Pairwise fun a b=>f a ≠ f b := by
 induction l with
 | nil=>exact .nil
 | cons b l ih=>
  refine List.pairwise_cons.2 ⟨fun a ha=>?_,ih.filter _⟩
  have hne:=(List.mem_filter.1 ha).2
  exact fun heq=>absurd heq.symm (by simpa using hne)

theorem head_wild_of_no_heads (hcon:conHeads rows=[])
  (hlit:litHeads rows=[]) : ∀ row ∈ rows, ∀ p tail, row=p::tail → p = .covWild := by
 rintro row hrow p tail rfl
 have hcon:=List.filterMap_eq_nil_iff.1 hcon _ hrow
 have hlit:=List.filterMap_eq_nil_iff.1 hlit _ hrow
 cases p with
 | covWild=>rfl
 | covCon c ps=>simp at hcon
 | covLit k l=>simp at hlit

theorem mem_conHeads {h:Resolved × ℕ} :
  h ∈ conHeads rows ↔ ∃ row ∈ rows, ∃ ps tail, row = .covCon h.1 ps::tail ∧ ps.length=h.2 := by
 constructor
 · intro hh
   obtain ⟨row,hrow,heq⟩:=List.mem_filterMap.1 hh
   rcases row with _ | ⟨p,tail⟩
   · simp at heq
   · cases p with
     | covCon c ps=>
      obtain rfl : (c,ps.length)=h:=by simpa using heq
      exact ⟨_,hrow,ps,tail,rfl,rfl⟩
     | covWild=>simp at heq
     | covLit k l=>simp at heq
 · rintro ⟨row,hrow,ps,tail,rfl,hlen⟩
   exact List.mem_filterMap.2 ⟨_,hrow,by simp [hlen]⟩

variable {ts:List T}

theorem specialise_of_not_named {t:T} {cs:List (Unique × List T)}
  (hshape:sig.shape t = .data cs)
  (hrows:∀ row ∈ rows, RowHasType sig (t::ts) row) {c:Resolved} (a:ℕ)
  (hc:∀ h ∈ conHeads rows, sameResolved c h.1=false) :
  rows.filterMap (specialise c a) =
   (rows.filterMap dropWildcard).map (List.replicate a .covWild ++ ·) := by
 rw [List.map_filterMap]
 refine List.filterMap_congr fun row hrow=>?_
 have htyped:=hrows row hrow
 rcases row with _ | ⟨p,tail⟩
 · rfl
 · cases p with
   | covWild=>rfl
   | covCon c' ps=>
    have hno:=hc (c', ps.length) (mem_conHeads.2 ⟨_,hrow,ps,tail,rfl,rfl⟩)
    simp [specialise,dropWildcard,hno]
   | covLit k l=>
    obtain ⟨⟨ks,hks,-⟩,-⟩:=htyped
    simp [hshape] at hks

variable {families:Families} (hlisted:ListedIn sig families)
include hlisted

theorem uncoveredStep_covers {go:ℕ → List Row → Fuelled (List Row)}
  (hgo:∀ ts rows, (∀ row ∈ rows, RowHasType sig ts row) →
   Returns (go ts.length rows) (Covers M ts rows))
  (ts:List T) (rows:List Row) (hrows:∀ row ∈ rows, RowHasType sig ts row) :
  Returns (uncoveredStep families go ts.length rows) (Covers M ts rows) := by
 cases ts with
 | nil=>exact returns_pure (covers_zero hrows)
 | cons t ts=>
  change Returns (uncoveredStep families go (ts.length+1) rows) (Covers M (t::ts) rows)
  rw [uncoveredStep]
  split_ifs with hall
  · obtain ⟨row,hrow,hwild⟩:=List.any_eq_true.1 hall
    exact returns_pure (covers_nil fun vs hvs=>
     ⟨row,hrow,matchesRow_of_isWild (hrows row hrow) hvs hwild⟩)
  have hdrop:∀ row ∈ rows.filterMap dropWildcard, RowHasType sig ts row:=
   filterMap_hasType hrows fun _ _=>dropWildcard_hasType
  split
  · rename_i hcon hlit
    refine (hgo ts _ hdrop).bind fun missing hm=>returns_pure ?_
    exact covers_wild (head_wild_of_no_heads hcon hlit) hm
  · exact returns_failure
  · rename_i c0 a0 heads hcon hlit
    obtain ⟨row0,hrow0,ps0,tail0,rfl,hlen0⟩:=
     mem_conHeads.1 (show (c0,a0) ∈ conHeads rows by rw [hcon]; exact List.mem_cons_self)
    obtain ⟨⟨cs,args0,hshape,hc0,hps0⟩,-⟩:=hrows _ hrow0
    refine (returns_lift _).bind fun family hfamily=>?_
    have hfam:=hlisted t cs c0.getUnique args0 family hshape hc0 hfamily
    refine (returns_true _).bind fun _ _=>?_
    have hbelow:Returns (if family.all (fun f=>((c0,a0)::heads).any fun h=>sameResolved f.1 h.1)
      then pure [] else go ts.length (rows.filterMap dropWildcard) : Fuelled (List Row))
      fun missingBelow=>∀ f ∈ family,
       ((c0,a0)::heads).any (fun h=>sameResolved f.1 h.1)=false →
       Covers M ts (rows.filterMap dropWildcard) missingBelow := by
     split_ifs with hnamed
     · refine returns_pure fun f hf hno=>?_
       have hyes:=List.all_eq_true.1 hnamed f hf
       simp [hno] at hyes
     · exact (hgo ts _ hdrop).mono fun missing hm _ _ _=>hm
    refine hbelow.bind fun missingBelow hbelow=>?_
    refine (returns_mapM family fun f hf=>?_).bind fun blocks hblocks=>returns_pure
     (covers_con hshape hfam hrows hblocks)
    obtain ⟨args,hc,hlen⟩:=exists_args hfam hf
    -- the argument types of a constructor are the ones its type declares
    have of_args:∀ block, (∃ missing,
      Covers M (args ++ ts) (rows.filterMap (specialise f.1 f.2)) missing ∧
      block=missing.map fun w=>.covCon f.1 (w.take f.2)::w.drop f.2) →
      ∀ args', (f.1.getUnique,args') ∈ cs → args'.length=f.2 → ∃ missing,
       Covers M (args' ++ ts) (rows.filterMap (specialise f.1 f.2)) missing ∧
       block=missing.map fun w=>.covCon f.1 (w.take f.2)::w.drop f.2 := by
     intro block h args' hc' _
     rwa [sig.args_unique hshape hc' hc]
    refine Returns.mono ?_ of_args
    split_ifs with hnamed
    · have htyped:∀ row ∈ rows.filterMap (specialise f.1 f.2), RowHasType sig (args ++ ts) row:=
       filterMap_hasType hrows fun row rest h heq=>
        specialise_hasType hshape hc h (hlen.symm ▸ heq)
      have hgo' :=hgo (args ++ ts) _ htyped
      rw [List.length_append,hlen] at hgo'
      exact hgo'.bind fun missing hm=>returns_pure ⟨missing,hm,rfl⟩
    · have hnot:((c0,a0)::heads).any (fun h=>sameResolved f.1 h.1)=false:=by
       simpa using hnamed
      refine returns_pure ⟨missingBelow.map (List.replicate args.length .covWild ++ ·), ?_, ?_⟩
      · rw [specialise_of_not_named hshape hrows f.2,←hlen]
        · exact covers_wilds args (hbelow f hf hnot)
        · intro h hh
          rw [hcon] at hh
          have hany:=List.any_eq_false.1 hnot h hh
          simpa using hany
      · simp [List.map_map,Function.comp_def,hlen]
  · rename_i hcon hne
    have hlits:litHeads rows ≠ []:=fun heq=>hne heq
    obtain ⟨l0,hl0⟩:=List.exists_mem_of_ne_nil _ hlits
    obtain ⟨ks,hshape⟩ : ∃ ks, sig.shape t = .literal ks:=by
     obtain ⟨row,hrow,heq⟩:=List.mem_filterMap.1 hl0
     have htyped:=hrows row hrow
     rcases row with _ | ⟨p,tail⟩
     · simp at heq
     · cases p with
       | covLit k l=>
        obtain ⟨⟨ks,hks,-⟩,-⟩:=htyped
        exact ⟨ks,hks⟩
       | covWild=>simp at heq
       | covCon c ps=>simp at heq
    refine (hgo ts _ hdrop).bind fun others hothers=>?_
    refine (returns_mapM (P := fun l block=>∃ missing,
     Covers M ts (rows.filterMap (specialiseLit l.1)) missing ∧
     block=missing.map (.covLit l.1 l.2 :: ·)) _ fun l hl=>?_).bind fun blocks hblocks=>
      returns_pure (covers_lit hshape hrows (nubOrdOn_subset _ _) (nubOrdOn_key _ _)
       (nubOrdOn_pairwise _ _) hlits hothers hblocks)
    have htyped:∀ row ∈ rows.filterMap (specialiseLit l.1), RowHasType sig ts row:=
     filterMap_hasType hrows fun _ _=>specialiseLit_hasType
    exact (hgo ts _ htyped).bind fun missing hm=>returns_pure ⟨missing,hm,rfl⟩

theorem go_covers (depth:ℕ) (ts:List T) (rows:List Row)
  (hrows:∀ row ∈ rows, RowHasType sig ts row) :
  Returns (go families depth ts.length rows) (Covers M ts rows) := by
 induction depth generalizing ts rows with
 | zero=>exact returns_failure
 | succ depth ih=>
  rw [go]
  refine (returns_true _).bind fun fuel _=>(returns_true _).bind fun _ _=>
   (returns_true _).bind fun _ _=>?_
  refine (uncoveredStep_covers M hlisted ih ts rows hrows).bind fun missing hm=>?_
  exact (returns_true _).bind fun _ _=>returns_pure hm

theorem run_covers {missing:List Row} (hrows:∀ row ∈ rows, RowHasType sig ts row)
  (h:run families ts.length rows=some missing) : Covers M ts rows missing := by
 have hcovers:=go_covers M hlisted (clauseMatrixFuel+1) ts rows hrows
 rw [run,StateT.run'] at h
 obtain ⟨⟨r,s'⟩,hrun,heq⟩:=Option.map_eq_some_iff.1 h
 obtain rfl : r=missing:=heq
 exact hcovers _ _ s' hrun

end Matrix

end L4Ide.CoverageAnalysisExact
