import L4Ide.CoverageAnalysisExact

set_option autoImplicit false

/-!
# The limits of the coverage analysis

Only the limits on its steps and its rows keep the analysis from an answer: over constructors that
it knows, it answers once they are large enough.
-/
namespace L4Ide.CoverageAnalysisLimits
open Syntax CoverageAnalysis PatternValues FuelledComputation CoverageAnalysisExact

def goWithin (cap:ℕ) (families:Families) : ℕ → ℕ → List Row → Fuelled (List Row)
 | 0, _, _=>failure
 | depth+1, m, rows=>do
  let fuel ← get
  guard (0 < fuel)
  set (fuel-1)
  let result ← uncoveredStep families (goWithin cap families depth) m rows
  guard (result.length ≤ cap)
  return result

lemma go_eq (families:Families) (depth:ℕ) :
  go families depth=goWithin maxMissingClauses families depth := by
 induction depth with
 | zero=>rfl
 | succ depth ih=>
  funext m rows
  rw [go,goWithin,ih]

section Weight

mutual

def patWeight : CoveragePattern → ℕ
 | .covWild=>0
 | .covCon _ ps=>rowWeight ps+1
 | .covLit _ _=>1

def rowWeight : Row → ℕ
 | []=>0
 | p::ps=>patWeight p+rowWeight ps

end

def weight : List Row → ℕ
 | []=>0
 | row::rows=>rowWeight row+weight rows

lemma rowWeight_append (ps qs:Row) : rowWeight (ps ++ qs)=rowWeight ps+rowWeight qs := by
 induction ps with
 | nil=>simp [rowWeight]
 | cons p ps ih=>
  rw [List.cons_append,rowWeight,rowWeight,ih]
  omega

lemma rowWeight_wilds (a:ℕ) : rowWeight (List.replicate a .covWild)=0 := by
 induction a with
 | zero=>rfl
 | succ a ih=>rw [List.replicate_succ,rowWeight,ih,patWeight]

lemma weight_filterMap_le {f:Row → Option Row}
  (hf:∀ row rest, f row=some rest → rowWeight rest ≤ rowWeight row) (rows:List Row) :
  weight (rows.filterMap f) ≤ weight rows := by
 induction rows with
 | nil=>simp [weight]
 | cons row rows ih=>
  simp only [weight] at ih ⊢
  cases heq:f row with
  | none=>
   rw [List.filterMap_cons_none heq]
   omega
  | some rest=>
   have hle:=hf row rest heq
   rw [List.filterMap_cons_some heq,weight]
   omega

variable {rows:List Row}

lemma weight_filterMap_lt {f:Row → Option Row}
  (hf:∀ row rest, f row=some rest → rowWeight rest ≤ rowWeight row)
  {row rest:Row} (hmem:row ∈ rows) (heq:f row=some rest)
  (hlt:rowWeight rest < rowWeight row) : weight (rows.filterMap f) < weight rows := by
 induction rows with
 | nil=>simp at hmem
 | cons row' rows ih=>
  obtain rfl | hmem:=List.mem_cons.mp hmem
  · have hle:=weight_filterMap_le hf rows
    simp only [weight,List.filterMap_cons_some heq]
    omega
  · have hrest:=ih hmem
    simp only [weight]
    cases heq' : f row' with
    | none=>
     rw [List.filterMap_cons_none heq']
     omega
    | some rest' =>
     have hle:=hf row' rest' heq'
     rw [List.filterMap_cons_some heq', weight]
     omega

lemma dropWildcard_weight (row rest:Row) (h:dropWildcard row=some rest) :
  rowWeight rest ≤ rowWeight row := by
 rw [dropWildcard_eq_some] at h
 simp [h,rowWeight]

lemma specialise_weight (c:Resolved) (a:ℕ) (row rest:Row)
  (h:specialise c a row=some rest) : rowWeight rest ≤ rowWeight row := by
 rcases row with _ | ⟨p,tail⟩
 · simp [specialise] at h
 cases p with
 | covWild=>
  obtain rfl : List.replicate a .covWild ++ tail=rest:=by simpa [specialise] using h
  simp [rowWeight_append,rowWeight_wilds,rowWeight]
 | covCon c' ps=>
  simp only [specialise] at h
  split_ifs at h
  obtain rfl : ps ++ tail=rest:=by simpa using h
  simp only [rowWeight_append,rowWeight,patWeight]
  omega
 | covLit k l=>simp [specialise] at h

lemma specialiseLit_weight (k:LitKey) (row rest:Row) (h:specialiseLit k row=some rest) :
  rowWeight rest ≤ rowWeight row := by
 rcases row with _ | ⟨p,tail⟩
 · simp [specialiseLit] at h
 cases p with
 | covWild=>
  obtain rfl : tail=rest:=by simpa [specialiseLit] using h
  simp [rowWeight]
 | covCon c ps=>simp [specialiseLit] at h
 | covLit k' l=>
  simp only [specialiseLit] at h
  split_ifs at h
  obtain rfl : tail=rest:=by simpa using h
  simp [rowWeight]

lemma specialise_lt {c:Resolved} (a:ℕ)
  (hnamed:(conHeads rows).any (fun h=>sameResolved c h.1)=true) :
  weight (rows.filterMap (specialise c a)) < weight rows := by
 obtain ⟨h,hh,hsame⟩:=List.any_eq_true.mp hnamed
 obtain ⟨row,hrow,ps,tail,rfl,hlen⟩:=mem_conHeads.mp hh
 have heq:specialise c a (.covCon h.1 ps::tail)=some (ps ++ tail):=by
  simp [specialise,hsame]
 refine weight_filterMap_lt (specialise_weight c a) hrow heq ?_
 · simp only [rowWeight_append,rowWeight,patWeight]
   omega

lemma specialiseLit_lt {l:LitKey × Lit} (hl:l ∈ litHeads rows) :
  weight (rows.filterMap (specialiseLit l.1)) < weight rows := by
 obtain ⟨row,hrow,heq⟩:=List.mem_filterMap.mp hl
 rcases row with _ | ⟨p,tail⟩
 · simp at heq
 cases p with
 | covWild=>simp at heq
 | covCon c ps=>simp at heq
 | covLit k l' =>
  obtain rfl : (k,l')=l:=by simpa using heq
  have htail:specialiseLit k (.covLit k l' :: tail)=some tail:=by simp [specialiseLit]
  exact weight_filterMap_lt (specialiseLit_weight k) hrow htail (by simp [rowWeight,patWeight])

end Weight

section Step
variable {T:Type} {sig:Sig T} {families:Families}

/-- Every constructor of a type of the program is known. -/
def Known (sig:Sig T) (families:Families) : Prop :=
 ∀ t cs u args, sig.shape t = .data cs → (u,args) ∈ cs → ∃ family, families u=some family

abbrev AtMost (L:ℕ) (rows:List Row) : Prop := rows.length ≤ L

lemma length_flatten_le {L:ℕ} {blocks:List (List Row)} (h:∀ b ∈ blocks, AtMost L b) :
  blocks.flatten.length ≤ blocks.length*L := by
 induction blocks with
 | nil=>simp
 | cons b blocks ih=>
  have hb:=h b (by simp)
  have hrest:=ih fun b' hb' =>h b' (by simp [hb'])
  rw [List.flatten_cons,List.length_append,List.length_cons,Nat.succ_mul]
  omega

/-- A matrix that a step of the analysis goes on with: fewer names, or as many and a column less. -/
structure Smaller (sig:Sig T) (ts:List T) (rows:List Row) (call:List T × List Row) :
  Prop where
 typed : ∀ r ∈ call.2, RowHasType sig call.1 r
 smaller : weight call.2 < weight rows ∨ call.1=ts ∧ weight call.2 ≤ weight rows

/-- The step answers where the matrices that it goes on with are answered, within a multiple of
    their bound. -/
def AnswersFrom (families:Families) (n:ℕ) (rows:List Row) (calls:List (List T × List Row))
  (N:ℕ) : Prop :=
 ∀ (next:ℕ → List Row → Fuelled (List Row)) (L:ℕ),
  (∀ c ∈ calls, Answers L (next c.1.length c.2) (AtMost L)) →
   Answers (N*L+N) (uncoveredStep families next n rows) (AtMost (N*L+N))

variable {t:T} {ts:List T} {rows:List Row}

lemma smaller_drop (hrows:∀ r ∈ rows, RowHasType sig (t::ts) r) :
  Smaller sig ts rows (ts,rows.filterMap dropWildcard) where
 typed:=filterMap_hasType hrows fun _ _=>dropWildcard_hasType
 smaller:=.inr ⟨rfl,weight_filterMap_le dropWildcard_weight rows⟩

lemma con_head_type
  (hrows:∀ r ∈ rows, RowHasType sig (t::ts) r) {h:Resolved × ℕ} (hh:h ∈ conHeads rows) :
  ∃ cs args, sig.shape t = .data cs ∧ (h.1.getUnique,args) ∈ cs ∧ args.length=h.2 := by
 obtain ⟨row,hrow,ps,tail,rfl,hlen⟩:=mem_conHeads.mp hh
 obtain ⟨⟨cs,args,hshape,hc,hps⟩,-⟩:=hrows _ hrow
 exact ⟨cs,args,hshape,hc,by rw [←rowHasType_length hps,hlen]⟩

lemma lit_head_type
  (hrows:∀ r ∈ rows, RowHasType sig (t::ts) r) {l:LitKey × Lit} (hl:l ∈ litHeads rows) :
  ∃ ks, sig.shape t = .literal ks := by
 obtain ⟨row,hrow,heq⟩:=List.mem_filterMap.mp hl
 have htyped:=hrows row hrow
 rcases row with _ | ⟨p,tail⟩
 · simp at heq
 cases p with
 | covLit k l=>
  obtain ⟨⟨ks,hks,-⟩,-⟩:=htyped
  exact ⟨ks,hks⟩
 | covWild=>simp at heq
 | covCon c ps=>simp at heq

lemma heads_listed (hrows:∀ r ∈ rows, RowHasType sig (t::ts) r) {cs:List (Unique × List T)}
  (hshape:sig.shape t = .data cs) {family:List (Resolved × ℕ)}
  (hfam:family.map (fun f=>(f.1.getUnique,f.2))=cs.map fun c=>(c.1,c.2.length)) :
  ((conHeads rows).all fun h=>
   family.any fun f=>sameResolved h.1 f.1 && h.2 == f.2)=true := by
 refine List.all_eq_true.mpr fun h hh=>?_
 obtain ⟨cs', args,hshape', hc,hlen⟩:=con_head_type hrows hh
 obtain rfl : cs=cs' :=by simpa [hshape] using hshape'
 have hmem:(h.1.getUnique,h.2) ∈ family.map fun f=>(f.1.getUnique,f.2):=by
  rw [hfam,←hlen]
  exact List.mem_map_of_mem hc
 obtain ⟨f,hf,heq⟩:=List.mem_map.mp hmem
 obtain ⟨hu,ha⟩:=Prod.mk.inj heq
 exact List.any_eq_true.mpr ⟨f,hf,by simp [sameResolved,hu,ha]⟩

lemma step_answers_con (hlisted:ListedIn sig families) (hknown:Known sig families)
  (hrows:∀ r ∈ rows, RowHasType sig (t::ts) r)
  {c0:Resolved} {a0:ℕ} {heads:List (Resolved × ℕ)}
  (hwild:(rows.any fun row=>row.all CoveragePattern.isWild)=false)
  (hcon:conHeads rows=(c0,a0)::heads) (hlit:litHeads rows=[]) :
  ∃ calls N, (∀ c ∈ calls, Smaller sig ts rows c) ∧
   AnswersFrom families (ts.length+1) rows calls N := by
 obtain ⟨cs,args0,hshape,hc0,-⟩:=
  con_head_type hrows (h := (c0,a0)) (by rw [hcon]; exact List.mem_cons_self)
 obtain ⟨family,hfamily⟩:=hknown t cs c0.getUnique args0 hshape hc0
 have hfam:=hlisted t cs c0.getUnique args0 family hshape hc0 hfamily
 have hguard:=heads_listed hrows hshape hfam
 -- one call for each constructor that some row names
 obtain ⟨branches,hbranches⟩ : ∃ branches, List.Forall₂ (fun (f:Resolved × ℕ)
   (call:List T × List Row)=>Smaller sig ts rows call ∧
    ((conHeads rows).any (fun h=>sameResolved f.1 h.1)=true →
     call.1.length=f.2+ts.length ∧ call.2=rows.filterMap (specialise f.1 f.2)))
   family branches := by
  refine exists_forall₂ fun f hf=>?_
  obtain ⟨args,hc,hlen⟩:=exists_args hfam hf
  by_cases hnamed:(conHeads rows).any (fun h=>sameResolved f.1 h.1)=true
  · refine ⟨(args ++ ts,rows.filterMap (specialise f.1 f.2)),⟨?_,.inl ?_⟩,
     fun _=>⟨by simp [hlen],rfl⟩⟩
    · exact filterMap_hasType hrows fun row rest hrow heq=>
       specialise_hasType hshape hc hrow (hlen.symm ▸ heq)
    · exact specialise_lt f.2 hnamed
  · exact ⟨(ts,rows.filterMap dropWildcard),smaller_drop hrows,fun h=>absurd h hnamed⟩
 refine ⟨(ts,rows.filterMap dropWildcard)::branches,family.length+1, ?_, ?_⟩
 · intro c hc
   obtain rfl | hc:=List.mem_cons.mp hc
   · exact smaller_drop hrows
   · obtain ⟨f,-,hcall⟩:=forall₂_mem_right hbranches hc
     exact hcall.1
 · intro next L hnext
   rw [uncoveredStep,hcon,hlit]
   rw [hcon] at hguard hbranches
   simp only [hwild,Bool.false_eq_true,if_false]
   have hbelow:Answers L (if family.all (fun f=>((c0,a0)::heads).any fun h=>
     sameResolved f.1 h.1) then pure [] else next ts.length (rows.filterMap dropWildcard) :
      Fuelled (List Row)) (AtMost L) := by
    split_ifs with hall
    · exact (answers_pure (P := AtMost L) (by simp)).mono (by omega) fun _ h=>h
    · exact hnext (ts,rows.filterMap dropWildcard) List.mem_cons_self
   have hblocks:∀ missingBelow, AtMost L missingBelow → ∀ f ∈ family,
     Answers L (if ((c0,a0)::heads).any (fun h=>sameResolved f.1 h.1) then do
       let missing ← next (f.2+ts.length) (rows.filterMap (specialise f.1 f.2))
       return missing.map fun w=>CoveragePattern.covCon f.1 (w.take f.2)::w.drop f.2
      else return missingBelow.map fun w=>
       CoveragePattern.covCon f.1 (List.replicate f.2 .covWild)::w :
      Fuelled (List Row)) (AtMost L) := by
    intro missingBelow hmissing f hf
    obtain ⟨call,hcall,-,hshapes⟩:=forall₂_mem_left hbranches hf
    split_ifs with hnamed
    · obtain ⟨hlen,hrows'⟩:=hshapes hnamed
      have hrun:=hnext call (List.mem_cons_of_mem _ hcall)
      rw [hlen,hrows'] at hrun
      refine (hrun.bind fun missing hm=>answers_pure (P := AtMost L) ?_).mono (by omega)
       fun _ h=>h
      simpa [AtMost] using hm
    · exact (answers_pure (P := AtMost L) (by simpa [AtMost] using hmissing)).mono (by omega)
       fun _ h=>h
   refine ((answers_lift hfamily (P := fun f=>f=family) rfl).bind fun f hf=>?_).mono
    (k := 0+(0+(L+(family.length*L+0)))) ?_ fun _ h=>h
   · subst hf
     refine (answers_guard hguard).bind fun _ _=>hbelow.bind fun missingBelow hmissing=>
      (answers_mapM f (hblocks missingBelow hmissing)).bind fun blocks hblocks=>
       answers_pure (P := AtMost ((f.length+1)*L+(f.length+1))) ?_
     have hlen:=length_flatten_le hblocks.2
     rw [hblocks.1] at hlen
     rw [AtMost,Nat.succ_mul]
     omega
   · rw [Nat.succ_mul]
     omega

lemma step_answers_lit (hrows:∀ r ∈ rows, RowHasType sig (t::ts) r)
  (hwild:(rows.any fun row=>row.all CoveragePattern.isWild)=false)
  (hcon:conHeads rows=[]) (hlit:litHeads rows ≠ []) :
  ∃ calls N, (∀ c ∈ calls, Smaller sig ts rows c) ∧
   AnswersFrom families (ts.length+1) rows calls N := by
 refine ⟨(ts,rows.filterMap dropWildcard) ::
  (nubOrdOn Prod.fst (litHeads rows)).map fun l=>(ts,rows.filterMap (specialiseLit l.1)),
  (nubOrdOn Prod.fst (litHeads rows)).length+1, ?_, ?_⟩
 · intro c hc
   obtain rfl | hc:=List.mem_cons.mp hc
   · exact smaller_drop hrows
   · obtain ⟨l,hl,rfl⟩:=List.mem_map.mp hc
     exact ⟨filterMap_hasType hrows fun _ _=>specialiseLit_hasType,
      .inl (specialiseLit_lt (nubOrdOn_subset _ _ l hl))⟩
 · intro next L hnext
   obtain ⟨l0,lits,hlits⟩:=List.exists_cons_of_ne_nil hlit
   rw [uncoveredStep,hcon,hlits]
   rw [hlits] at hnext
   simp only [hwild,Bool.false_eq_true,if_false]
   have hkeys:∀ l ∈ nubOrdOn Prod.fst (l0::lits), Answers L (do
     let missing ← next ts.length (rows.filterMap (specialiseLit l.1))
     return missing.map (CoveragePattern.covLit l.1 l.2 :: ·) : Fuelled (List Row))
     (AtMost L) := by
    intro l hl
    have hrun:=hnext (ts,rows.filterMap (specialiseLit l.1))
     (List.mem_cons_of_mem _ (List.mem_map.mpr ⟨l,hl,rfl⟩))
    refine (hrun.bind fun missing hm=>answers_pure (P := AtMost L) ?_).mono (by omega)
     fun _ h=>h
    simpa [AtMost] using hm
   refine ((hnext (ts,rows.filterMap dropWildcard) List.mem_cons_self).bind
    fun others hothers=>(answers_mapM _ hkeys).bind fun perKey hperKey=>
     answers_pure (P := AtMost (((nubOrdOn Prod.fst (l0::lits)).length+1)*L +
      ((nubOrdOn Prod.fst (l0::lits)).length+1))) ?_).mono ?_ fun _ h=>h
   · have hlen:=length_flatten_le hperKey.2
     rw [hperKey.1] at hlen
     rw [AtMost,Nat.succ_mul,List.length_append,List.length_map]
     have hothers' : others.length ≤ L:=hothers
     omega
   · rw [Nat.succ_mul]
     omega

lemma step_answers (hlisted:ListedIn sig families) (hknown:Known sig families)
  (hrows:∀ r ∈ rows, RowHasType sig (t::ts) r) :
  ∃ calls N, (∀ c ∈ calls, Smaller sig ts rows c) ∧
   AnswersFrom families (ts.length+1) rows calls N := by
 rcases hwild : rows.any (fun row=>row.all CoveragePattern.isWild) with _ | _
 · rcases hcon : conHeads rows with _ | ⟨⟨c0,a0⟩,heads⟩
   · by_cases hlit:litHeads rows=[]
     · refine ⟨[(ts,rows.filterMap dropWildcard)],1, ?_, ?_⟩
       · intro c hc
         obtain rfl:=List.mem_singleton.mp hc
         exact smaller_drop hrows
       · intro next L hnext
         rw [uncoveredStep,hcon,hlit]
         simp only [hwild,Bool.false_eq_true,if_false]
         have hrun:=hnext (ts,rows.filterMap dropWildcard) (by simp)
         refine (hrun.bind fun missing hm=>answers_pure (P := AtMost (1*L+1)) ?_).mono
          (by omega) fun _ h=>h
         have hm' : missing.length ≤ L:=hm
         rw [AtMost,List.length_map]
         omega
     · exact step_answers_lit hrows hwild hcon hlit
   · by_cases hlit:litHeads rows=[]
     · exact step_answers_con hlisted hknown hrows hwild hcon hlit
     · -- a column of both does not have a type
       obtain ⟨cs,args,hshape,-⟩:=
        con_head_type hrows (h := (c0,a0)) (by rw [hcon]; exact List.mem_cons_self)
       obtain ⟨l,hl⟩:=List.exists_mem_of_ne_nil _ hlit
       obtain ⟨ks,hks⟩:=lit_head_type hrows hl
       simp [hshape] at hks
 · refine ⟨[],1,by simp,fun next L _=>?_⟩
   rw [uncoveredStep]
   simp only [hwild,if_true]
   exact (answers_pure (P := AtMost (1*L+1)) (by simp)).mono (by omega) fun _ h=>h

end Step

section Run
variable {T:Type} {sig:Sig T} {families:Families}

def AnswersWithin (families:Families) (L n:ℕ) (rows:List Row) : Prop :=
 ∀ cap depth, L ≤ cap → L ≤ depth →
  Answers L (goWithin cap families depth n rows) (AtMost L)

variable {rows:List Row}

lemma AnswersWithin.mono {L L' n:ℕ} (h:AnswersWithin families L n rows)
  (hle:L ≤ L') : AnswersWithin families L' n rows := by
 intro cap depth hcap hdepth
 exact (h cap depth (by omega) (by omega)).mono hle fun r hr=>by
  have hr' : r.length ≤ L:=hr
  exact Nat.le_trans hr' hle

lemma exists_common_bound {calls:List (List T × List Row)}
  (h:∀ c ∈ calls, ∃ L, AnswersWithin families L c.1.length c.2) :
  ∃ L, ∀ c ∈ calls, AnswersWithin families L c.1.length c.2 := by
 induction calls with
 | nil=>exact ⟨0,by simp⟩
 | cons c calls ih=>
  obtain ⟨L,hL⟩:=h c (by simp)
  obtain ⟨L', hL'⟩:=ih fun c' hc' =>h c' (by simp [hc'])
  refine ⟨max L L', fun c' hc' =>?_⟩
  obtain rfl | hc' :=List.mem_cons.mp hc'
  · exact hL.mono (Nat.le_max_left L L')
  · exact (hL' c' hc').mono (Nat.le_max_right L L')

lemma goWithin_answers {cap depth n B:ℕ} (hcap:B ≤ cap)
  (h:Answers B (uncoveredStep families (goWithin cap families depth) n rows) (AtMost B)) :
  Answers (B+1) (goWithin cap families (depth+1) n rows) (AtMost (B+1)) := by
 intro fuel hfuel
 obtain ⟨r,fuel', hrun,hspent,hr⟩:=h (fuel-1) (by omega)
 have hr' : r.length ≤ B:=hr
 have hpos:0 < fuel:=by omega
 have hguard:r.length ≤ cap:=Nat.le_trans hr' hcap
 refine ⟨r,fuel', ?_,by omega,by rw [AtMost]; omega⟩
 rw [goWithin]
 simp [guard,hpos,hguard,hrun]

lemma exists_answersWithin (hlisted:ListedIn sig families) (hknown:Known sig families)
  {ts:List T} (hrows:∀ r ∈ rows, RowHasType sig ts r) :
  ∃ L, AnswersWithin families L ts.length rows := by
 -- fewer names below a constructor or a key, otherwise fewer columns
 induction hweight : weight rows using Nat.strong_induction_on generalizing ts rows with
 | _ w ihw=>
  induction ts generalizing rows w with
  | nil=>
   refine ⟨2,fun cap depth hcap hdepth=>?_⟩
   obtain ⟨depth,rfl⟩ : ∃ d, depth=d+1:=⟨depth-1,by omega⟩
   refine (goWithin_answers (B := 1) (by omega) ?_).mono (by omega) fun _ h=>h
   refine (answers_pure (P := AtMost 1) ?_).mono (by omega) fun _ h=>h
   split_ifs <;> simp
  | cons t ts ihts=>
   obtain ⟨calls,N,hcalls,hstep⟩:=step_answers hlisted hknown hrows
   obtain ⟨L,hL⟩ : ∃ L, ∀ c ∈ calls, AnswersWithin families L c.1.length c.2:=by
    refine exists_common_bound fun c hc=>?_
    obtain ⟨htyped,hlt | ⟨hts,hle⟩⟩:=hcalls c hc
    · exact ihw _ (hweight ▸ hlt) htyped rfl
    · rw [hts] at htyped ⊢
      exact ihts (weight c.2) (fun w' hw' ts' rows' htyped' heq' =>
       ihw w' (by omega) htyped' heq') htyped rfl
   refine ⟨N*L+N+L+1,fun cap depth hcap hdepth=>?_⟩
   obtain ⟨depth,rfl⟩ : ∃ d, depth=d+1:=⟨depth-1,by omega⟩
   have hrun:=hstep (goWithin cap families depth) L fun c hc=>
    hL c hc cap depth (by omega) (by omega)
   exact (goWithin_answers (by omega) hrun).mono (by omega) fun r hr=>by
    have hr' : r.length ≤ N*L+N+1:=hr
    rw [AtMost]
    omega

end Run

end L4Ide.CoverageAnalysisLimits
