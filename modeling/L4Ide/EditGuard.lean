import Mathlib

set_option autoImplicit false

/-!
# The brake on fix loops

How broken a file is, and the edits that it has had without getting closer to compiling.
-/
namespace L4Ide.EditGuard

inductive FileLevel where
 | parseFailure
 | errors
 | failedChecks
 | clean
 deriving DecidableEq

def FileLevel.rank : FileLevel → ℕ
 | .parseFailure=>0
 | .errors=>1
 | .failedChecks=>2
 | .clean=>3

structure L4FileState where
 level : FileLevel
 errors : ℕ
 warnings : ℕ
 pending : Bool
 firstErrorLine : Option ℤ
 deriving DecidableEq

def isWorse (before after:L4FileState) : Bool :=
 if after.level ≠ before.level then decide (after.level.rank < before.level.rank)
 else decide (before.errors < after.errors)

def madeProgress (before after:L4FileState) : Bool :=
 isWorse after before ||
  decide (before.level = .parseFailure ∧ after.level = .parseFailure ∧
   after.errors=before.errors ∧
   before.firstErrorLine.getD (-1) < after.firstErrorLine.getD (-1))

def L4FileState.compiles (s:L4FileState) : Bool :=
 decide (FileLevel.failedChecks.rank ≤ s.level.rank)

theorem rank_injective : Function.Injective FileLevel.rank := by
 intro a b h
 cases a <;> cases b <;> first | rfl | cases h

theorem isWorse_iff (a b:L4FileState) :
  isWorse a b=true ↔ b.level.rank < a.level.rank ∨ b.level=a.level ∧ a.errors < b.errors := by
 unfold isWorse
 by_cases h:b.level=a.level
 · simp [h]
 · simp [h]

theorem madeProgress_iff (a b:L4FileState) :
  madeProgress a b=true ↔ a.level.rank < b.level.rank ∨
   a.level=b.level ∧ (b.errors < a.errors ∨
    a.level = .parseFailure ∧ b.errors=a.errors ∧
     a.firstErrorLine.getD (-1) < b.firstErrorLine.getD (-1)) := by
 rw [madeProgress,Bool.or_eq_true,isWorse_iff,decide_eq_true_iff]
 constructor
 · rintro ((h | h) | ⟨ha,hb,h⟩)
   · exact .inl h
   · exact .inr ⟨h.1,.inl h.2⟩
   · exact .inr ⟨ha.trans hb.symm,.inr ⟨ha,h⟩⟩
 · rintro (h | ⟨hlevel,h | ⟨ha,h⟩⟩)
   · exact .inl (.inl h)
   · exact .inl (.inr ⟨hlevel,h⟩)
   · exact .inr ⟨ha,hlevel ▸ ha,h⟩

theorem not_madeProgress_self (a:L4FileState) : ¬madeProgress a a=true := by
 rw [madeProgress_iff]
 omega

theorem madeProgress_trans {a b c:L4FileState} (hab:madeProgress a b=true)
  (hbc:madeProgress b c=true) : madeProgress a c=true := by
 rw [madeProgress_iff] at hab hbc ⊢
 rcases hab with hab | ⟨hab,hab'⟩
 · left
   rcases hbc with hbc | ⟨hbc,-⟩
   · exact hab.trans hbc
   · rwa [←hbc]
 · rcases hbc with hbc | ⟨hbc,hbc'⟩
   · left
     rwa [hab]
   · right
     refine ⟨hab.trans hbc,?_⟩
     rcases hab' with h | ⟨hp,he,hl⟩
     · left
       rcases hbc' with h' | ⟨-,he',-⟩ <;> omega
     · rcases hbc' with h' | ⟨-,he',hl'⟩
       · left
         omega
       · exact .inr ⟨hp,by omega,by omega⟩

structure TrackedFile where
 relative : String
 baseline : Option L4FileState
 /-- Best state since the file last made progress. -/
 best : Option L4FileState
 brokenEdits : ℕ

/-- The tracked files of each turn, by URI. -/
abbrev Guard := String → String → Option TrackedFile

def MAX_BROKEN_EDITS : ℕ := 15

def track (turnId uri relative:String) (baseline:Option L4FileState) (g:Guard) : Guard :=
 fun t u=>if t=turnId ∧ u=uri ∧ (g turnId uri).isNone then
   some ⟨relative,baseline,baseline,0⟩
  else g t u

def blocked (turnId uri:String) (g:Guard) : Option String :=
 (g turnId uri).bind fun f=>
  if f.brokenEdits < MAX_BROKEN_EDITS then none
  else some (f.relative ++ " has had " ++ toString f.brokenEdits ++
   " edits in a row without getting closer to compiling, so no more edits to it were applied." ++
   " Stop and tell the user what is still wrong and what you tried.")

def TrackedFile.recordState (f:TrackedFile) (state:L4FileState) (applied:ℕ) : TrackedFile :=
 if state.compiles then { f with brokenEdits:=0,best:=some state }
 else match f.best with
  | none=>{ f with brokenEdits:=applied,best:=some state }
  | some best=>
   -- a new streak is measured from where it starts, not from a compiling file
   if best.compiles then { f with brokenEdits:=applied,best:=some state }
   else if madeProgress best state then { f with brokenEdits:=0,best:=some state }
   else { f with brokenEdits:=f.brokenEdits+applied }

def recordState (turnId uri:String) (state:L4FileState) (applied:ℕ) (g:Guard) : Guard :=
 fun t u=>if t=turnId ∧ u=uri then (g t u).map fun f=>f.recordState state applied
  else g t u

inductive Call where
 | track (turnId uri relative:String) (baseline:Option L4FileState)
 | recordState (turnId uri:String) (state:L4FileState) (applied:ℕ)

def step (g:Guard) : Call → Guard
 | .track turnId uri relative baseline=>track turnId uri relative baseline g
 | .recordState turnId uri state applied=>recordState turnId uri state applied g

def run (g:Guard) (calls:List Call) : Guard := calls.foldl step g

/-- The states recorded for a file, each with the edits applied before it. -/
def recorded (turnId uri:String) : List Call → List (L4FileState × ℕ)
 | []=>[]
 | .track _ _ _ _::calls=>recorded turnId uri calls
 | .recordState t u state applied::calls=>
  if t=turnId ∧ u=uri then (state,applied)::recorded turnId uri calls
  else recorded turnId uri calls

def TrackedFile.record (f:TrackedFile) (rs:List (L4FileState × ℕ)) : TrackedFile :=
 rs.foldl (fun f r=>f.recordState r.1 r.2) f

theorem step_tracked {g:Guard} {t u:String} {f:TrackedFile} (h:g t u=some f)
  (call:Call) : step g call t u=some (f.record (recorded t u [call])) := by
 cases call with
 | track turnId uri relative baseline=>
  simp only [step,track,recorded,TrackedFile.record,List.foldl_nil]
  by_cases heq:t=turnId ∧ u=uri
  · rw [←heq.1,←heq.2,h]
    simp
  · rw [if_neg fun hc=>heq ⟨hc.1,hc.2.1⟩,h]
 | recordState turnId uri state applied=>
  simp only [step,recordState,recorded]
  by_cases heq:t=turnId ∧ u=uri
  · rw [if_pos heq,if_pos ⟨heq.1.symm,heq.2.symm⟩,h]
    rfl
  · rw [if_neg heq,if_neg fun hc=>heq ⟨hc.1.symm,hc.2.symm⟩,h]
    rfl

theorem recorded_cons (t u:String) (call:Call) (calls:List Call) :
  recorded t u (call::calls)=recorded t u [call] ++ recorded t u calls := by
 cases call with
 | track turnId uri relative baseline=>rfl
 | recordState turnId uri state applied=>
  simp only [recorded]
  split <;> rfl

theorem run_tracked {g:Guard} {t u:String} {f:TrackedFile} (h:g t u=some f)
  (calls:List Call) : run g calls t u=some (f.record (recorded t u calls)) := by
 induction calls generalizing g f with
 | nil=>exact h
 | cons call calls ih=>
  have hstep:=ih (step_tracked h call)
  rw [recorded_cons,TrackedFile.record,List.foldl_append]
  exact hstep

theorem blocked_iff {g:Guard} {t u:String} {f:TrackedFile} (h:g t u=some f) :
  (blocked t u g).isSome ↔ MAX_BROKEN_EDITS ≤ f.brokenEdits := by
 rw [blocked,h,Option.bind_some]
 split <;> simp <;> omega

/-- The state is better than the best one so far: the file compiles, or gets closer to it. -/
def Improves (best:Option L4FileState) (s:L4FileState) : Prop :=
 s.compiles=true ∨ ∃ b, best=some b ∧ b.compiles=false ∧ madeProgress b s=true

theorem recordState_improves {f:TrackedFile} {s:L4FileState} (h:Improves f.best s) (n:ℕ) :
  f.recordState s n = { f with brokenEdits:=0,best:=some s } := by
 unfold TrackedFile.recordState
 rcases h with h | ⟨b,hb,hbroken,h⟩
 · simp [h]
 · by_cases hs:s.compiles=true
   · simp [hs]
   · simp [hs,hb,hbroken,h]

/-- No edits count while the file compiles, or before its first state is known. -/
def Settled (f:TrackedFile) : Prop :=
 (∀ b, f.best=some b → b.compiles=true) → f.brokenEdits=0

theorem recordState_stays {f:TrackedFile} {s:L4FileState} (hf:Settled f)
  (h:¬Improves f.best s) (n:ℕ) :
  ∃ b, f.recordState s n = { f with brokenEdits:=f.brokenEdits+n,best:=some b } ∧
   b.compiles=false ∧ (f.best=some b ∨ b=s ∧ ∀ b, f.best=some b → b.compiles=true) := by
 have hs:s.compiles=false:=by
  rw [←Bool.not_eq_true]
  exact fun hs=>h (.inl hs)
 unfold TrackedFile.recordState
 cases hb:f.best with
 | none=>
  have hzero:f.brokenEdits=0:=hf fun b hb' =>by
   rw [hb] at hb'
   cases hb'
  exact ⟨s,by simp [hs,hzero],hs,.inr ⟨rfl,fun b hb=>by cases hb⟩⟩
 | some b=>
  by_cases hc:b.compiles=true
  · have hall:∀ b', f.best=some b' → b'.compiles=true:=by
     intro b' hb'
     rwa [←Option.some.inj (hb.symm.trans hb')]
    exact ⟨s,by simp [hs,hc,hf hall],hs,.inr ⟨rfl,hb ▸ hall⟩⟩
  · rw [Bool.not_eq_true] at hc
    have hno:madeProgress b s=false:=by
     rw [←Bool.not_eq_true]
     exact fun hp=>h (.inr ⟨b,hb,hc,hp⟩)
    exact ⟨b,by simp [hs,hc,hno,←hb],hc,.inl rfl⟩

theorem Settled.recordState {f:TrackedFile} (hf:Settled f) (s:L4FileState) (n:ℕ) :
  Settled (f.recordState s n) := by
 by_cases h:Improves f.best s
 · rw [recordState_improves h]
   exact fun _=>rfl
 · obtain ⟨b,heq,hb,-⟩:=recordState_stays hf h n
   rw [heq]
   intro hall
   rw [hall b rfl] at hb
   cases hb

theorem Settled.record {f:TrackedFile} (hf:Settled f) (rs:List (L4FileState × ℕ)) :
  Settled (f.record rs) := by
 induction rs generalizing f with
 | nil=>exact hf
 | cons r rs ih=>exact ih (hf.recordState r.1 r.2)

theorem best_record {f:TrackedFile} (hf:Settled f) {b:L4FileState} (hb:f.best=some b)
  (hbroken:b.compiles=false) (rs:List (L4FileState × ℕ))
  (hrs:∀ r ∈ rs, r.1.compiles=false) :
  ∃ b', (f.record rs).best=some b' ∧ (b' = b ∨ madeProgress b b' = true) := by
 induction rs generalizing f b with
 | nil=>exact ⟨b,hb,.inl rfl⟩
 | cons r rs ih=>
  have hlater:=fun r' h=>hrs r' (List.mem_cons_of_mem r h)
  have hr:=hrs r List.mem_cons_self
  by_cases h:Improves f.best r.1
  · have hbest:(f.recordState r.1 r.2).best=some r.1:=by rw [recordState_improves h]
    obtain ⟨b',hb',hup⟩:=ih (hf.recordState r.1 r.2) hbest hr hlater
    have hprogress:madeProgress b r.1=true:=by
     rcases h with h | ⟨b₀,hb₀,-,h⟩
     · rw [h] at hr
       cases hr
     · rwa [Option.some.inj (hb.symm.trans hb₀)]
    refine ⟨b',hb',.inr ?_⟩
    rcases hup with rfl | hup
    · exact hprogress
    · exact madeProgress_trans hprogress hup
  · obtain ⟨b₀,heq,-,hsame | ⟨-,hall⟩⟩:=recordState_stays hf h r.2
    · refine ih (hf.recordState r.1 r.2) ?_ hbroken hlater
      rw [heq,←hsame,hb]
    · rw [hall b hb] at hbroken
      cases hbroken

/-- The best state improved with the last of the records before, and with none of those after. -/
def LastImproved (f:TrackedFile) (before after:List (L4FileState × ℕ)) : Prop :=
 (before=[] ∨ ∃ pre r, before=pre ++ [r] ∧ Improves (f.record pre).best r.1) ∧
  ∀ mid r post, after=mid ++ r::post → ¬Improves (f.record (before ++ mid)).best r.1

theorem record_concat (f:TrackedFile) (rs:List (L4FileState × ℕ)) (r:L4FileState × ℕ) :
  f.record (rs ++ [r])=(f.record rs).recordState r.1 r.2 := by
 rw [TrackedFile.record,List.foldl_append]
 rfl

theorem brokenEdits_record {f:TrackedFile} (hf:Settled f) (hzero:f.brokenEdits=0)
  (rs:List (L4FileState × ℕ)) : ∃ before after, rs=before ++ after ∧
   LastImproved f before after ∧ (f.record rs).brokenEdits=(after.map Prod.snd).sum := by
 induction rs using List.reverseRecOn with
 | nil=>
  refine ⟨[],[],rfl,⟨.inl rfl,fun mid r post h=>?_⟩,hzero⟩
  cases mid <;> cases h
 | append_singleton rs r ih=>
  rw [record_concat]
  by_cases h:Improves (f.record rs).best r.1
  · refine ⟨rs ++ [r],[],(List.append_nil _).symm,⟨.inr ⟨rs,r,rfl,h⟩,fun mid r' post h' =>?_⟩,?_⟩
    · cases mid <;> cases h'
    · rw [recordState_improves h]
      rfl
  · obtain ⟨before,after,rfl,⟨hbefore,hafter⟩,hsum⟩:=ih
    refine ⟨before,after ++ [r],List.append_assoc _ _ _,⟨hbefore,fun mid r' post h' =>?_⟩,?_⟩
    · rcases List.eq_nil_or_concat post with rfl | ⟨post,r'',rfl⟩
      · obtain ⟨rfl,heq⟩:=List.append_inj' h' rfl
        rwa [←(List.cons.inj heq).1]
      · rw [List.concat_eq_append,←List.cons_append,←List.append_assoc] at h'
        exact hafter mid r' post (List.append_inj_left' h' rfl)
    · obtain ⟨b,heq,-⟩:=recordState_stays (hf.record _) h r.2
      rw [heq,hsum,List.map_append,List.sum_append]
      rfl

/-- The states of the set that would be progress, weighed against the edits that are left. -/
def weight (S:Finset L4FileState) (b:L4FileState) (brokenEdits:ℕ) : ℕ :=
 (S.filter fun s=>madeProgress b s=true).card*(MAX_BROKEN_EDITS+1) +
  (MAX_BROKEN_EDITS-brokenEdits)

theorem weight_progress {S:Finset L4FileState} {b s:L4FileState} (hs:s ∈ S)
  (h:madeProgress b s=true) (n:ℕ) : weight S s 0 < weight S b n := by
 have hcard:(S.filter fun s' =>madeProgress s s' = true).card <
   (S.filter fun s' =>madeProgress b s' = true).card := by
  apply Finset.card_lt_card
  rw [Finset.ssubset_iff_of_subset fun s' hs' =>Finset.mem_filter.2
   ⟨(Finset.mem_filter.1 hs').1,madeProgress_trans h (Finset.mem_filter.1 hs').2⟩]
  exact ⟨s,Finset.mem_filter.2 ⟨hs,h⟩,
   fun hmem=>not_madeProgress_self s (Finset.mem_filter.1 hmem).2⟩
 unfold weight
 have hmul:=Nat.mul_le_mul_right (MAX_BROKEN_EDITS+1) hcard
 rw [Nat.succ_mul] at hmul
 omega

theorem exists_limit {S:Finset L4FileState} (k:ℕ) {f:TrackedFile} (hf:Settled f)
  {b:L4FileState} (hb:f.best=some b) (hbroken:b.compiles=false)
  (hk:weight S b f.brokenEdits ≤ k) (r:ℕ → L4FileState × ℕ)
  (hr:∀ n, (r n).1 ∈ S ∧ (r n).1.compiles=false ∧ 0 < (r n).2) :
  ∃ n, MAX_BROKEN_EDITS ≤ (f.record ((List.range n).map r)).brokenEdits := by
 induction k generalizing f b r with
 | zero=>
  refine ⟨0,?_⟩
  have hzero:MAX_BROKEN_EDITS-f.brokenEdits ≤ 0:=(Nat.le_add_left _ _).trans hk
  exact Nat.sub_eq_zero_iff_le.1 (Nat.le_zero.1 hzero)
 | succ k ih=>
  by_cases hlimit:MAX_BROKEN_EDITS ≤ f.brokenEdits
  · exact ⟨0,hlimit⟩
  obtain ⟨hmem,hstate,hedits⟩:=hr 0
  have hnext:∃ b', (f.recordState (r 0).1 (r 0).2).best=some b' ∧ b'.compiles=false ∧
    weight S b' (f.recordState (r 0).1 (r 0).2).brokenEdits ≤ k := by
   by_cases h:Improves f.best (r 0).1
   · refine ⟨(r 0).1,by rw [recordState_improves h],hstate,?_⟩
     rcases h with h' | ⟨b₀,hb₀,-,hprogress⟩
     · rw [h'] at hstate
       cases hstate
     · rw [←Option.some.inj (hb.symm.trans hb₀)] at hprogress
       have hlt:=weight_progress hmem hprogress f.brokenEdits
       rw [recordState_improves (.inr ⟨b,hb,hbroken,hprogress⟩)]
       exact Nat.le_of_lt_succ (hlt.trans_le hk)
   · obtain ⟨b₀,heq,-,hsame | ⟨-,hall⟩⟩:=recordState_stays hf h (r 0).2
     · refine ⟨b,by rw [heq,←hsame,hb],hbroken,?_⟩
       rw [heq]
       unfold weight at hk ⊢
       dsimp only
       omega
     · rw [hall b hb] at hbroken
       cases hbroken
  obtain ⟨b',hb',hbroken',hk'⟩:=hnext
  obtain ⟨n,hn⟩:=ih (hf.recordState _ _) hb' hbroken' hk' (fun n=>r (n+1)) fun n=>hr (n+1)
  refine ⟨n+1,?_⟩
  rw [List.range_succ_eq_map,List.map_cons,List.map_map]
  exact hn

theorem exists_blocked {f:TrackedFile} (hf:Settled f) (r:ℕ → L4FileState × ℕ)
  (hfinite:(Set.range fun n=>(r n).1).Finite) (hbroken:∀ n, (r n).1.compiles=false)
  (hedits:∀ n, 0 < (r n).2) :
  ∃ n, MAX_BROKEN_EDITS ≤ (f.record ((List.range n).map r)).brokenEdits := by
 have hmem:∀ n, (r n).1 ∈ hfinite.toFinset:=
  fun n=>hfinite.mem_toFinset.2 ⟨n,rfl⟩
 -- the first state starts the streak, if none is under way
 have hfirst:∃ b, (f.recordState (r 0).1 (r 0).2).best=some b ∧ b.compiles=false:=by
  by_cases h:Improves f.best (r 0).1
  · exact ⟨(r 0).1,by rw [recordState_improves h],hbroken 0⟩
  · obtain ⟨b,heq,hb,-⟩:=recordState_stays hf h (r 0).2
    exact ⟨b,by rw [heq],hb⟩
 obtain ⟨b,hb,hb'⟩:=hfirst
 obtain ⟨n,hn⟩:=exists_limit _ (hf.recordState _ _) hb hb' (Nat.le_refl _) (fun n=>r (n+1))
  fun n=>⟨hmem (n+1),hbroken (n+1),hedits (n+1)⟩
 refine ⟨n+1,?_⟩
 rw [List.range_succ_eq_map,List.map_cons,List.map_map]
 exact hn

def newFile (relative:String) (baseline:Option L4FileState) : TrackedFile :=
 ⟨relative,baseline,baseline,0⟩

theorem track_new {g:Guard} {t u:String} (h:g t u=none) (relative:String)
  (baseline:Option L4FileState) :
  track t u relative baseline g t u=some (newFile relative baseline) := by
 rw [track,if_pos ⟨rfl,rfl,by rw [h]; rfl⟩]
 rfl

theorem run_append (g:Guard) (calls later:List Call) :
  run g (calls ++ later)=run (run g calls) later :=
 List.foldl_append

/-- Progress is a strict order. Of a file that is tracked, in any run of the guard: from one broken
state to the next the best state only moves up; the file is blocked exactly where fifteen edits
were applied since the best state last improved; and finitely many broken states, over and over,
get it blocked. -/
theorem fix_loops_stop :
  (∀ a, ¬madeProgress a a=true) ∧
  (∀ a b c, madeProgress a b=true → madeProgress b c=true → madeProgress a c=true) ∧
  ∀ (g:Guard) (t u relative:String) (baseline:Option L4FileState), g t u=none →
   ∀ calls : List Call, ∃ f, run (track t u relative baseline g) calls t u=some f ∧
    (∀ b, f.best=some b → b.compiles=false → ∀ later,
     (∀ r ∈ recorded t u later, r.1.compiles=false) →
      ∃ f' b', run (track t u relative baseline g) (calls ++ later) t u=some f' ∧
       f'.best=some b' ∧ (b' = b ∨ madeProgress b b' = true)) ∧
    (∃ before after, recorded t u calls=before ++ after ∧
     LastImproved (newFile relative baseline) before after ∧
     ((blocked t u (run (track t u relative baseline g) calls)).isSome ↔
      15 ≤ (after.map Prod.snd).sum)) ∧
    ∀ r : ℕ → L4FileState × ℕ, (Set.range fun n=>(r n).1).Finite →
     (∀ n, (r n).1.compiles=false ∧ 0 < (r n).2) → ∃ n, ∀ later,
      recorded t u later=(List.range n).map r →
       (blocked t u (run (track t u relative baseline g) (calls ++ later))).isSome := by
 refine ⟨not_madeProgress_self,fun a b c=>madeProgress_trans,?_⟩
 intro g t u relative baseline hnew calls
 have hsettled:Settled (newFile relative baseline):=fun _=>rfl
 have hrun:=run_tracked (track_new hnew relative baseline) calls
 have hlater:∀ later, run (track t u relative baseline g) (calls ++ later) t u =
   some (((newFile relative baseline).record (recorded t u calls)).record (recorded t u later)) := by
  intro later
  rw [run_append]
  exact run_tracked hrun later
 refine ⟨_,hrun,?_,?_,?_⟩
 · intro b hb hbroken later hrs
   obtain ⟨b',hb',hup⟩:=best_record (hsettled.record _) hb hbroken _ hrs
   exact ⟨_,b',hlater later,hb',hup⟩
 · obtain ⟨before,after,hsplit,hlast,hsum⟩:=
    brokenEdits_record hsettled rfl (recorded t u calls)
   refine ⟨before,after,hsplit,hlast,?_⟩
   rw [blocked_iff hrun,hsum,MAX_BROKEN_EDITS]
 · intro r hfinite hr
   obtain ⟨n,hn⟩:=exists_blocked (hsettled.record (recorded t u calls)) r hfinite
    (fun n=>(hr n).1) fun n=>(hr n).2
   refine ⟨n,fun later heq=>?_⟩
   rw [blocked_iff (hlater later),heq]
   exact hn

/-- The same broken state, over and over. -/
theorem fix_loops_stop_same : ∃ n, ∀ later,
  recorded "turn" "file" later=(List.range n).map (fun _=>(⟨.errors,1,0,false,some 3⟩,1)) →
   (blocked "turn" "file"
    (run (track "turn" "file" "a.l4" none fun _ _=>none) ([] ++ later))).isSome := by
 obtain ⟨-,-,h⟩:=fix_loops_stop
 obtain ⟨f,-,-,-,h⟩:=h (fun _ _=>none) "turn" "file" "a.l4" none rfl []
 exact h (fun _=>(⟨.errors,1,0,false,some 3⟩,1)) (Set.finite_range_const) fun n=>
  ⟨rfl,Nat.one_pos⟩

end L4Ide.EditGuard
