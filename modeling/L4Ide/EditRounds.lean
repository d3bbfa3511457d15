import L4Ide.EditGuard

set_option autoImplicit false

/-!
# The edits of one response

Calls that edit files, one after another, with one progress for the calls to one file.
-/
namespace L4Ide.EditRounds
open EditGuard

variable {W Item:Type}

/-! ### Files and their checks -/

/-- What the tools ask of a world of files. -/
structure Host (W Item:Type) where
 isL4Path : String → Bool
 /-- The world after an edit; none where it fails. -/
 applyOneEdit : String → Item → W → Option W
 /-- None where the checker fails. -/
 getCheckedDiagnostics : String → W → Option L4FileState
 /-- Whether the values of a file can be compared. -/
 computeEditDiff : String → W → Bool

def MAX_EDITS_PER_FILE : ℕ := 5

structure EditSequence where
 applied : ℕ
 /-- Unset until the first edit reads it; then perhaps unknown. -/
 state : Option (Option L4FileState)
 stopped : Bool

inductive Event (W:Type) where
 | landed (uri:String) (before after:W)
 | failed (uri:String)

structure Outcome (W:Type) where
 events : List (Event W)
 world : W
 run : EditSequence
 applied : ℕ

variable (host:Host W Item)

def fileState (uri:String) (w:W) : Option L4FileState :=
 (host.getCheckedDiagnostics uri w).filter fun s=>!s.pending

def afterEdit (uri:String) (w:W) (run:EditSequence) : EditSequence :=
 if host.isL4Path uri then
  let state:=fileState host uri w
  ⟨run.applied+1,some state,
   state.all fun s=>run.state.any fun before=>before.any fun b=>isWorse b s⟩
 else { run with applied:=run.applied+1 }

def applyItems (uri:String) : List Item → W → EditSequence → Outcome W
 | [], w, run=>⟨[],w,run,0⟩
 | item::items, w, run=>
  match host.applyOneEdit uri item w with
  | none=>⟨[.failed uri],w,{ run with stopped:=true },0⟩
  | some w' =>
   let run':=afterEdit host uri w' run
   if run'.stopped then ⟨[.landed uri w w'],w',run',1⟩
   else
    let later:=applyItems uri items w' run'
    { later with events:=.landed uri w w' :: later.events,applied:=later.applied+1 }

def applySequence (uri:String) (items:List Item) (w:W) (run:EditSequence) : Outcome W :=
 if run.stopped ∨ MAX_EDITS_PER_FILE ≤ run.applied then ⟨[.failed uri],w,run,0⟩
 else
  let run:=if host.isL4Path uri ∧ run.state=none then
    { run with state:=some (fileState host uri w) }
   else run
  applyItems host uri (items.take (MAX_EDITS_PER_FILE-run.applied)) w run

/-- A list of edits may not be empty; one edit alone is not checked against the state before. -/
def fsEditFileDetailed (uri:String) (items:List Item) (sequence:Option EditSequence) (w:W) :
  Outcome W :=
 if items.isEmpty then ⟨[],w,sequence.getD ⟨0,none,false⟩,0⟩
 else match sequence, items with
  | none, [item]=>
   match host.applyOneEdit uri item w with
   | none=>⟨[.failed uri],w,⟨0,none,false⟩,0⟩
   | some w'=>⟨[.landed uri w w'],w',⟨0,none,false⟩,1⟩
  | sequence, items=>applySequence host uri items w (sequence.getD ⟨0,none,false⟩)

def reportL4File (uri:String) (o:Outcome W) : Option L4FileState :=
 if host.isL4Path uri ∧ o.applied ≠ 0 then
  (host.getCheckedDiagnostics uri o.world).filter fun s=>
   s.pending || 0 < s.errors || host.computeEditDiff uri o.world
 else none

/-! ### Responses -/

structure Call (W Item:Type) where
 uri : String
 items : List Item
 /-- Not denied by the settings or the user. -/
 allowed : Bool
 /-- What else happens before the call. -/
 elsewhere : W → W

structure Record (W:Type) where
 uri : String
 start : W
 /-- The sequence that its edits ran in. -/
 noted : Option EditSequence
 events : List (Event W)
 world : W
 /-- The edits that the guard is told of. -/
 reported : Option ℕ

structure Round (W:Type) where
 world : W
 guard : Guard
 sequences : String → Option EditSequence
 records : List (Record W)

def beginRound : List String → List String → (String → Option EditSequence) →
  String → Option EditSequence
 | [], _, sequences=>sequences
 | uri::uris, seen, sequences=>
  beginRound uris (uri::seen)
   (if uri ∈ seen then Function.update sequences uri (some ⟨0,none,false⟩) else sequences)

def editFile (turnId:String) (r:Round W) (call:Call W Item) : Round W :=
 let w:=call.elsewhere r.world
 if call.allowed=false then
  { r with world:=w,records:=r.records ++ [⟨call.uri,w,none,[],w,none⟩] }
 else if (blocked turnId call.uri r.guard).isSome then
  { r with world:=w,records:=r.records ++ [⟨call.uri,w,none,[.failed call.uri],w,none⟩] }
 else
  let noted:=r.sequences call.uri
  let guard:=if host.isL4Path call.uri then
    track turnId call.uri call.uri (host.getCheckedDiagnostics call.uri w) r.guard
   else r.guard
  let o:=fsEditFileDetailed host call.uri call.items noted w
  let report:=reportL4File host call.uri o
  ⟨o.world,report.elim guard fun state=>recordState turnId call.uri state o.applied guard,
   if noted.isSome then Function.update r.sequences call.uri (some o.run) else r.sequences,
   r.records ++ [⟨call.uri,w,noted,o.events,o.world,report.map fun _=>o.applied⟩]⟩

/-- A response, from a guard and a world. -/
def runResponse (turnId:String) (guard:Guard) (world:W) (calls:List (Call W Item)) : Round W :=
 calls.foldl (editFile host turnId)
  ⟨world,guard,beginRound (calls.map Call.uri) [] fun _=>none,[]⟩

/-! ### What is meant -/

def Event.lands (uri:String) : Event W → Bool
 | .landed u _ _=>u=uri
 | .failed _=>false

/-- An edit that failed, or left its file worse than it was, or in a state that is not known. -/
def Mistake (uri:String) : Event W → Prop
 | .failed u=>u=uri
 | .landed u before after=>u=uri ∧ host.isL4Path uri=true ∧
  (fileState host uri after=none ∨ ∃ b s, fileState host uri before=some b ∧
   fileState host uri after=some s ∧ isWorse b s=true)

/-- Nothing lands on a file after a mistake in it. -/
def Stops (events:List (Event W)) : Prop :=
 ∀ uri, events.Pairwise fun e e'=>Mistake host uri e → e'.lands uri=false

/-- The file is no better than it was after the edit before. -/
def Unimproved (r:Record W) : Prop :=
 ∀ run s b, r.noted=some run → run.state=some (some s) →
  fileState host r.uri r.start=some b → isWorse b s=false

variable {host} {uri:String} {items:List Item} {w w':W} {run:EditSequence}

/-! ### One call -/

/-- The edits of a file that landed. -/
def landings (uri:String) (events:List (Event W)) : ℕ := events.countP (Event.lands uri)

/-- The landed edits, each on the world that the one before left, lead from one to the other. -/
def Leads : W → List (Event W) → W → Prop
 | w, [], w'=>w=w'
 | w, .landed _ before after::events, w'=>before=w ∧ Leads after events w'
 | w, .failed _::events, w'=>Leads w events w'

/-- No further edit may land. -/
def EditSequence.Closed (run:EditSequence) : Prop :=
 run.stopped=true ∨ MAX_EDITS_PER_FILE ≤ run.applied

def Only (host:Host W Item) (uri:String) (events:List (Event W)) : Prop :=
 ∀ e ∈ events, ∀ v, v ≠ uri → e.lands v=false ∧ ¬Mistake host v e

def Stopping (host:Host W Item) (uri:String) (events:List (Event W)) : Prop :=
 events.Pairwise fun e e'=>Mistake host uri e → e'.lands uri=false

structure Advances (host:Host W Item) (uri:String) (w:W) (run:EditSequence) (o:Outcome W) :
  Prop where
 only : Only host uri o.events
 count : o.applied=landings uri o.events
 applied : o.run.applied=run.applied+o.applied
 leads : Leads w o.events o.world

/-- No edit follows a mistake, and none will. -/
structure Careful (host:Host W Item) (uri:String) (o:Outcome W) : Prop where
 stopping : Stopping host uri o.events
 closed : (∃ e ∈ o.events, Mistake host uri e) → o.run.Closed

/-- The state that is compared with is no worse than the state of the file. -/
def Fresh (host:Host W Item) (uri:String) (w:W) (run:EditSequence) : Prop :=
 host.isL4Path uri=true → ∀ b, fileState host uri w=some b →
  ∃ s, run.state=some (some s) ∧ isWorse b s=false

theorem isWorse_self (s:L4FileState) : isWorse s s=false := by
 rw [←Bool.not_eq_true,isWorse_iff]
 omega

theorem isWorse_of_unimproved {b s after:L4FileState} (h:isWorse b s=false)
  (hworse:isWorse b after=true) : isWorse s after=true := by
 rw [←Bool.not_eq_true,isWorse_iff] at h
 rw [isWorse_iff] at hworse ⊢
 rcases hworse with hworse | ⟨hlevel,hworse⟩
 · by_cases hs:s.level=b.level
   · exact .inl (hs ▸ hworse)
   · have hrank:=rank_injective.ne hs
     left
     omega
 · by_cases hs:s.level=b.level
   · right
     refine ⟨hlevel.trans hs.symm,?_⟩
     have herrors:¬b.errors < s.errors:=fun herrors=>h (.inr ⟨hs,herrors⟩)
     omega
   · have hrank:=rank_injective.ne hs
     left
     rw [hlevel]
     omega

theorem only_failed : Only host uri [.failed uri] := by
 intro e he v hv
 rw [List.mem_singleton.1 he]
 exact ⟨rfl,fun h=>hv h.symm⟩

theorem only_landed (before after:W) : Only host uri [.landed uri before after] := by
 intro e he v hv
 rw [List.mem_singleton.1 he]
 exact ⟨decide_eq_false fun h=>hv h.symm,fun h=>hv h.1.symm⟩

theorem Only.append {es es':List (Event W)} (h:Only host uri es) (h':Only host uri es') :
  Only host uri (es ++ es') := by
 intro e he
 rcases List.mem_append.1 he with he | he
 · exact h e he
 · exact h' e he

theorem afterEdit_applied : (afterEdit host uri w run).applied=run.applied+1 := by
 unfold afterEdit
 split <;> rfl

theorem applyItems_advances (items:List Item) (w:W) (run:EditSequence) :
  Advances host uri w run (applyItems host uri items w run) ∧
   (applyItems host uri items w run).applied ≤ items.length := by
 induction items generalizing w run with
 | nil=>exact ⟨⟨fun e he=>absurd he List.not_mem_nil,rfl,rfl,rfl⟩,Nat.le_refl 0⟩
 | cons item items ih=>
  unfold applyItems
  split
  · exact ⟨⟨only_failed,rfl,rfl,rfl⟩,Nat.zero_le _⟩
  · rename_i w' _
    dsimp only
    split
    · exact ⟨⟨only_landed w w',by simp [landings,Event.lands],afterEdit_applied,rfl,rfl⟩,
       Nat.succ_le_succ (Nat.zero_le _)⟩
    · obtain ⟨⟨honly,hcount,happlied,hleads⟩,hle⟩:=ih w' (afterEdit host uri w' run)
      refine ⟨⟨(only_landed w w').append honly,?_,?_,rfl,hleads⟩,Nat.succ_le_succ hle⟩
      · dsimp only
        rw [hcount,landings,landings,List.countP_cons_of_pos (by simp [Event.lands])]
      · dsimp only
        rw [happlied,afterEdit_applied]
        omega

/-- A mistake stops the rest. -/
theorem afterEdit_stopped (hfresh:Fresh host uri w run)
  (hmistake:Mistake host uri (.landed uri w w')) : (afterEdit host uri w' run).stopped=true := by
 obtain ⟨-,hl4,hmistake⟩:=hmistake
 rw [afterEdit,if_pos hl4]
 rcases hmistake with hunknown | ⟨b,s,hb,hs,hworse⟩
 · simp [hunknown]
 · obtain ⟨noted,hstate,hnoted⟩:=hfresh hl4 b hb
   simp [hs,hstate,isWorse_of_unimproved hnoted hworse]

theorem afterEdit_fresh : Fresh host uri w' (afterEdit host uri w' run) := by
 intro hl4 b hb
 rw [afterEdit,if_pos hl4]
 exact ⟨b,congrArg some hb,isWorse_self b⟩

theorem applyItems_careful (items:List Item) {w:W} {run:EditSequence}
  (hfresh:Fresh host uri w run) : Careful host uri (applyItems host uri items w run) := by
 induction items generalizing w run with
 | nil=>exact ⟨List.Pairwise.nil,fun ⟨e,he,_⟩=>by cases he⟩
 | cons item items ih=>
  unfold applyItems
  split
  · exact ⟨List.pairwise_singleton _ _,fun _=>.inl rfl⟩
  · rename_i w' _
    dsimp only
    have hstops:=@afterEdit_stopped W Item host uri w w' run hfresh
    split
    · rename_i hstop
      exact ⟨List.pairwise_singleton _ _,fun _=>.inl hstop⟩
    · rename_i hgo
      obtain ⟨hstopping,hclosed⟩:=ih afterEdit_fresh
      refine ⟨List.pairwise_cons.2 ⟨fun e' _ hmistake=>absurd (hstops hmistake) hgo,hstopping⟩,?_⟩
      rintro ⟨e,he,hmistake⟩
      rcases List.mem_cons.1 he with rfl | he
      · exact absurd (hstops hmistake) hgo
      · exact hclosed ⟨e,he,hmistake⟩

def Alert (run:EditSequence) : Prop := run.state=some none → run.Closed

theorem afterEdit_alert (hstate:host.isL4Path uri=false → Alert run) :
  Alert (afterEdit host uri w' run) := by
 unfold afterEdit
 split
 · intro h
   have hunknown:fileState host uri w' = none:=Option.some.inj h
   exact .inl (by simp [hunknown])
 · rename_i hl4
   intro h
   rcases hstate (Bool.eq_false_iff.2 hl4) h with hstopped | hroom
   · exact .inl hstopped
   · exact .inr (Nat.le_succ_of_le hroom)

theorem applyItems_alert {items:List Item} {w:W} {run:EditSequence} (h:items ≠ [])
  (hstate:host.isL4Path uri=false → Alert run) :
  Alert (applyItems host uri items w run).run := by
 induction items generalizing w run with
 | nil=>exact absurd rfl h
 | cons item items ih=>
  unfold applyItems
  split
  · exact fun _=>.inl rfl
  · rename_i w' _
    dsimp only
    split
    · exact afterEdit_alert hstate
    · cases items with
      | nil=>exact afterEdit_alert hstate
      | cons item' items=>
       exact ih (List.cons_ne_nil _ _) fun _=>afterEdit_alert hstate

/-- What is noted when the first edit is about to be applied. -/
def opened (host:Host W Item) (uri:String) (w:W) (run:EditSequence) : EditSequence :=
 if host.isL4Path uri ∧ run.state=none then { run with state:=some (fileState host uri w) }
 else run

theorem opened_applied : (opened host uri w run).applied=run.applied := by
 unfold opened
 split <;> rfl

theorem opened_fresh (hknown:∀ s b, run.state=some (some s) → fileState host uri w=some b →
   isWorse b s=false) (halert:run.state ≠ some none) :
  Fresh host uri w (opened host uri w run) := by
 intro hl4 b hb
 unfold opened
 cases hs:run.state with
 | none=>
  rw [if_pos ⟨hl4,rfl⟩]
  exact ⟨b,congrArg some hb,isWorse_self b⟩
 | some s=>
  rw [if_neg fun h=>by cases h.2]
  cases s with
  | none=>exact absurd hs halert
  | some s=>exact ⟨s,hs,hknown s b hs hb⟩

theorem applySequence_closed (h:run.Closed) (items:List Item) :
  applySequence host uri items w run=⟨[.failed uri],w,run,0⟩ := if_pos h

theorem applySequence_open (h:¬run.Closed) (items:List Item) :
  applySequence host uri items w run=applyItems host uri
   (items.take (MAX_EDITS_PER_FILE-run.applied)) w (opened host uri w run) := by
 have hopen:applySequence host uri items w run=applyItems host uri
   (items.take (MAX_EDITS_PER_FILE-(opened host uri w run).applied)) w (opened host uri w run) :=
  if_neg h
 rw [hopen,opened_applied]

theorem applySequence_advances (items:List Item) (w:W) (run:EditSequence) :
  Advances host uri w run (applySequence host uri items w run) := by
 by_cases h:run.Closed
 · rw [applySequence_closed h]
   exact ⟨only_failed,rfl,rfl,rfl⟩
 · rw [applySequence_open h]
   obtain ⟨honly,hcount,happlied,hleads⟩:=(@applyItems_advances W Item host uri
    (items.take (MAX_EDITS_PER_FILE-run.applied)) w (opened host uri w run)).1
   exact ⟨honly,hcount,by rw [happlied,opened_applied],hleads⟩

theorem applySequence_room (items:List Item) (w:W) (h:run.applied ≤ MAX_EDITS_PER_FILE) :
  (applySequence host uri items w run).run.applied ≤ MAX_EDITS_PER_FILE := by
 by_cases hclosed:run.Closed
 · rwa [applySequence_closed hclosed]
 · rw [applySequence_open hclosed]
   obtain ⟨⟨-,-,happlied,-⟩,hle⟩:=@applyItems_advances W Item host uri
    (items.take (MAX_EDITS_PER_FILE-run.applied)) w (opened host uri w run)
   rw [List.length_take] at hle
   rw [happlied,opened_applied]
   omega

theorem applySequence_careful (items:List Item) (halert:Alert run)
  (hknown:∀ s b, run.state=some (some s) → fileState host uri w=some b → isWorse b s=false) :
  Careful host uri (applySequence host uri items w run) := by
 by_cases h:run.Closed
 · rw [applySequence_closed h]
   exact ⟨List.pairwise_singleton _ _,fun _=>h⟩
 · rw [applySequence_open h]
   exact applyItems_careful _ (opened_fresh hknown fun hs=>h (halert hs))

theorem applySequence_alert (h:items ≠ []) (halert:Alert run) :
  Alert (applySequence host uri items w run).run := by
 by_cases hclosed:run.Closed
 · rwa [applySequence_closed hclosed]
 · rw [applySequence_open hclosed]
   apply applyItems_alert
   · rw [Ne,List.take_eq_nil_iff,not_or]
     exact ⟨fun hroom=>hclosed (.inr (Nat.le_of_sub_eq_zero hroom)),h⟩
   · intro hl4
     rw [opened,if_neg fun hopen=>by simp [hl4] at hopen]
     exact halert

/-! ### The tool -/

def fresh : EditSequence := ⟨0,none,false⟩

theorem alert_fresh : Alert fresh := fun h=>by cases h

theorem edit_nothing (sequence:Option EditSequence) :
  fsEditFileDetailed host uri [] sequence w=⟨[],w,sequence.getD fresh,0⟩ := rfl

theorem edit_shared (h:items ≠ []) :
  fsEditFileDetailed host uri items (some run) w=applySequence host uri items w run := by
 cases items with
 | nil=>exact absurd rfl h
 | cons item items=>rfl

theorem edit_failed {item:Item} (h:host.applyOneEdit uri item w=none) :
  fsEditFileDetailed host uri [item] none w=⟨[.failed uri],w,fresh,0⟩ := by
 simp [fsEditFileDetailed,h,fresh]

theorem edit_landed {item:Item} (h:host.applyOneEdit uri item w=some w') :
  fsEditFileDetailed host uri [item] none w=⟨[.landed uri w w'],w',fresh,1⟩ := by
 simp [fsEditFileDetailed,h,fresh]

theorem edit_batch (item item':Item) : fsEditFileDetailed host uri (item::item' :: items) none w =
  applySequence host uri (item::item' :: items) w fresh := rfl

structure Told (host:Host W Item) (uri:String) (w:W) (o:Outcome W) : Prop where
 only : Only host uri o.events
 count : o.applied=landings uri o.events
 leads : Leads w o.events o.world

theorem Advances.told {o:Outcome W} (h:Advances host uri w run o) : Told host uri w o :=
 ⟨h.only,h.count,h.leads⟩

/-- A call on a file that has no sequence is one edit, or starts a sequence of its own. -/
theorem edit_alone (items:List Item) (w:W) :
  Told host uri w (fsEditFileDetailed host uri items none w) ∧
   landings uri (fsEditFileDetailed host uri items none w).events ≤ MAX_EDITS_PER_FILE ∧
   Stopping host uri (fsEditFileDetailed host uri items none w).events := by
 cases items with
 | nil=>
  exact ⟨⟨fun e he=>absurd he List.not_mem_nil,rfl,rfl⟩,Nat.zero_le _,List.Pairwise.nil⟩
 | cons item items=>
  cases items with
  | nil=>
   cases hitem:host.applyOneEdit uri item w with
   | none=>
    rw [edit_failed hitem]
    exact ⟨⟨only_failed,rfl,rfl⟩,Nat.zero_le _,List.pairwise_singleton _ _⟩
   | some w' =>
    rw [edit_landed hitem]
    have hone:landings uri [Event.landed uri w w']=1:=by simp [landings,Event.lands]
    exact ⟨⟨only_landed w w',hone.symm,rfl,rfl⟩,hone.le.trans (by decide),
     List.pairwise_singleton _ _⟩
  | cons item' items=>
   rw [edit_batch]
   have h:=@applySequence_advances W Item host uri (item::item' :: items) w fresh
   have hroom:=@applySequence_room W Item host uri fresh (item::item' :: items) w (Nat.zero_le _)
   refine ⟨h.told,?_,(applySequence_careful _ alert_fresh fun s b hs=>by cases hs).stopping⟩
   rw [←h.count]
   rw [h.applied] at hroom
   exact (Nat.le_add_left _ _).trans hroom

theorem edit_told (items:List Item) (sequence:Option EditSequence) (w:W) :
  Told host uri w (fsEditFileDetailed host uri items sequence w) := by
 cases sequence with
 | none=>exact (edit_alone items w).1
 | some run=>
  by_cases h:items=[]
  · rw [h]
    exact ⟨fun e he=>absurd he List.not_mem_nil,rfl,rfl⟩
  · rw [edit_shared h]
    exact (applySequence_advances items w run).told

/-! ### The response -/

def eventsOf (r:Round W) : List (Event W) := r.records.flatMap Record.events

theorem beginRound_some {uris seen:List String} {sequences:String → Option EditSequence} {u:String}
  (h:∀ v run, sequences v=some run → run=fresh)
  (hrun:beginRound uris seen sequences u=some run) : run=fresh := by
 induction uris generalizing seen sequences with
 | nil=>exact h u run hrun
 | cons uri uris ih=>
  refine ih (fun v run' hv=>?_) hrun
  split at hv
  · by_cases heq:v=uri
    · rw [heq,Function.update_self] at hv
      exact (Option.some.inj hv).symm
    · rw [Function.update_of_ne heq] at hv
      exact h v run' hv
  · exact h v run' hv

/-- A file without a sequence is edited by one call at most. -/
theorem beginRound_none {uris seen:List String} {sequences:String → Option EditSequence} {u:String}
  (h:beginRound uris seen sequences u=none) :
  sequences u=none ∧ uris.count u ≤ 1 ∧ (u ∈ seen → u ∉ uris) := by
 induction uris generalizing seen sequences with
 | nil=>exact ⟨h,Nat.zero_le _,fun _=>List.not_mem_nil⟩
 | cons uri uris ih=>
  obtain ⟨hnone,hcount,hseen⟩:=ih h
  by_cases heq:uri=u
  · subst heq
    have hnew:uri ∉ seen:=by
     intro hmem
     rw [if_pos hmem,Function.update_self] at hnone
     cases hnone
    rw [if_neg hnew] at hnone
    have hlast:=hseen List.mem_cons_self
    rw [List.count_cons_self,List.count_eq_zero.2 hlast]
    exact ⟨hnone,Nat.le_refl 1,fun hmem=>absurd hmem hnew⟩
  · have hsame:sequences u=none:=by
     split at hnone
     · rwa [Function.update_of_ne (Ne.symm heq)] at hnone
     · exact hnone
    rw [List.count_cons_of_ne heq]
    refine ⟨hsame,hcount,fun hmem hin=>?_⟩
    rcases List.mem_cons.1 hin with rfl | hin
    · exact heq rfl
    · exact hseen (List.mem_cons_of_mem _ hmem) hin

/-- What holds of a file between two calls, with the files of the calls to come. -/
structure FileKept (host:Host W Item) (turnId:String) (rest:List String) (r:Round W) (u:String) :
  Prop where
 room : landings u (eventsOf r) ≤ MAX_EDITS_PER_FILE
 shared : ∀ run, r.sequences u=some run → run.applied=landings u (eventsOf r) ∧ Alert run ∧
  ((∀ rec ∈ r.records, Unimproved host rec) → (∃ e ∈ eventsOf r, Mistake host u e) →
   run.Closed ∨ (blocked turnId u r.guard).isSome)
 alone : r.sequences u=none → rest.count u ≤ 1 ∧
  (u ∈ rest → ∀ e ∈ eventsOf r, e.lands u=false ∧ ¬Mistake host u e)
 stopping : (∀ rec ∈ r.records, Unimproved host rec) → Stopping host u (eventsOf r)

variable {turnId u:String} {rest:List String} {r r':Round W} {rec:Record W}

theorem eventsOf_append (h:r'.records=r.records ++ [rec]) :
  eventsOf r' = eventsOf r ++ rec.events := by
 simp [eventsOf,h]

theorem unimproved_append (h:r'.records=r.records ++ [rec])
  (hall:∀ rec ∈ r'.records, Unimproved host rec) :
  (∀ rec ∈ r.records, Unimproved host rec) ∧ Unimproved host rec := by
 rw [h] at hall
 exact ⟨fun rec hrec=>hall rec (List.mem_append_left _ hrec),
  hall rec (List.mem_append_right _ List.mem_cons_self)⟩

theorem landings_append (es es':List (Event W)) :
  landings u (es ++ es')=landings u es+landings u es' := List.countP_append

theorem landings_quiet {es:List (Event W)} (h:∀ e ∈ es, e.lands u=false) : landings u es=0 :=
 List.countP_eq_zero.2 fun e he=>by simp [h e he]

theorem stopping_append {es es':List (Event W)} (hes:Stopping host u es) (hes':Stopping host u es')
  (h:(∃ e ∈ es, Mistake host u e) → ∀ e ∈ es', e.lands u=false) :
  Stopping host u (es ++ es') :=
 List.pairwise_append.2 ⟨hes,hes',fun e he e' he' hmistake=>h ⟨e,he,hmistake⟩ e' he'⟩

theorem stopping_quiet {es:List (Event W)} (h:∀ e ∈ es, e.lands u=false) :
  Stopping host u es :=
 List.Pairwise.imp_of_mem (fun _ he' _ _=>h _ he') (List.pairwise_of_forall fun _ _=>trivial)

/-- A call that does nothing to the file. -/
theorem FileKept.quiet {uri:String} (h:FileKept host turnId (uri::rest) r u)
  (hrecords:r'.records=r.records ++ [rec]) (hseq:r'.sequences u=r.sequences u)
  (hblocked:(blocked turnId u r.guard).isSome → (blocked turnId u r'.guard).isSome)
  (hes:∀ e ∈ rec.events, e.lands u=false ∧ ¬Mistake host u e) :
  FileKept host turnId rest r' u := by
 have hlands:∀ e ∈ rec.events, e.lands u=false:=fun e he=>(hes e he).1
 have hcount:landings u (eventsOf r')=landings u (eventsOf r):=by
  rw [eventsOf_append hrecords,landings_append,landings_quiet hlands,Nat.add_zero]
 refine ⟨hcount ▸ h.room,fun run hrun=>?_,fun hnone=>?_,fun hall=>?_⟩
 · obtain ⟨happlied,halert,hmistake⟩:=h.shared run (hseq ▸ hrun)
   refine ⟨hcount ▸ happlied,halert,fun hall ⟨e,he,hwrong⟩=>?_⟩
   rw [eventsOf_append hrecords] at he
   have hold:e ∈ eventsOf r:=(List.mem_append.1 he).resolve_right fun he=>(hes e he).2 hwrong
   exact (hmistake (unimproved_append hrecords hall).1 ⟨e,hold,hwrong⟩).imp_right hblocked
 · obtain ⟨hone,hbefore⟩:=h.alone (hseq ▸ hnone)
   refine ⟨List.count_le_count_cons.trans hone,fun hmem e he=>?_⟩
   rw [eventsOf_append hrecords] at he
   rcases List.mem_append.1 he with he | he
   · exact hbefore (List.mem_cons_of_mem _ hmem) e he
   · exact hes e he
 · rw [eventsOf_append hrecords]
   exact stopping_append (h.stopping (unimproved_append hrecords hall).1) (stopping_quiet hlands)
    fun _=>hlands

/-- A call that the guard refuses. -/
theorem FileKept.refused (h:FileKept host turnId (u::rest) r u)
  (hrecords:r'.records=r.records ++ [rec]) (hseq:r'.sequences u=r.sequences u)
  (hblocked:(blocked turnId u r'.guard).isSome) (hes:rec.events=[.failed u]) :
  FileKept host turnId rest r' u := by
 have hlands:∀ e ∈ rec.events, e.lands u=false:=by
  intro e he
  rw [hes,List.mem_singleton] at he
  rw [he]
  rfl
 have hcount:landings u (eventsOf r')=landings u (eventsOf r):=by
  rw [eventsOf_append hrecords,landings_append,landings_quiet hlands,Nat.add_zero]
 refine ⟨hcount ▸ h.room,fun run hrun=>?_,fun hnone=>?_,fun hall=>?_⟩
 · obtain ⟨happlied,halert,-⟩:=h.shared run (hseq ▸ hrun)
   exact ⟨hcount ▸ happlied,halert,fun _ _=>.inr hblocked⟩
 · have hlast:=(h.alone (hseq ▸ hnone)).1
   rw [List.count_cons_self] at hlast
   have hgone:rest.count u=0:=by omega
   exact ⟨hgone ▸ Nat.zero_le 1,fun hmem=>absurd hmem (List.count_eq_zero.1 hgone)⟩
 · rw [eventsOf_append hrecords]
   exact stopping_append (h.stopping (unimproved_append hrecords hall).1) (stopping_quiet hlands)
    fun _=>hlands

/-- The only call on a file. -/
theorem FileKept.only (h:FileKept host turnId (u::rest) r u)
  (hrecords:r'.records=r.records ++ [rec]) (hseq:r'.sequences u=r.sequences u)
  (hnone:r.sequences u=none) (hroom:landings u rec.events ≤ MAX_EDITS_PER_FILE)
  (hstopping:Stopping host u rec.events) : FileKept host turnId rest r' u := by
 obtain ⟨hlast,hbefore⟩:=h.alone hnone
 replace hbefore:=hbefore List.mem_cons_self
 rw [List.count_cons_self] at hlast
 have hgone:rest.count u=0:=by omega
 refine ⟨?_,fun run hrun=>?_,fun _=>?_,fun hall=>?_⟩
 · rw [eventsOf_append hrecords,landings_append,landings_quiet fun e he=>(hbefore e he).1,
    Nat.zero_add]
   exact hroom
 · rw [hseq,hnone] at hrun
   cases hrun
 · exact ⟨hgone ▸ Nat.zero_le 1,fun hmem=>absurd hmem (List.count_eq_zero.1 hgone)⟩
 · rw [eventsOf_append hrecords]
   exact stopping_append (h.stopping (unimproved_append hrecords hall).1) hstopping
    fun ⟨e,he,hmistake⟩=>absurd hmistake (hbefore e he).2

/-- A call whose edits run in a sequence. -/
theorem FileKept.ran (h:FileKept host turnId (u::rest) r u)
  (hrecords:r'.records=r.records ++ [rec]) (hrun:r.sequences u=some run) (hitems:items ≠ [])
  (hseq:r'.sequences u=some (applySequence host u items rec.start run).run)
  (hes:rec.events=(applySequence host u items rec.start run).events)
  (huri:rec.uri=u) (hnoted:rec.noted=some run)
  (hfree:¬(blocked turnId u r.guard).isSome) : FileKept host turnId rest r' u := by
 obtain ⟨happlied,halert,hbefore⟩:=h.shared run hrun
 have hadvances:=@applySequence_advances W Item host u items rec.start run
 have hcount:(applySequence host u items rec.start run).run.applied =
   landings u (eventsOf r') := by
  rw [eventsOf_append hrecords,landings_append,←happlied,hes,←hadvances.count]
  exact hadvances.applied
 have hcareful (hall:∀ rec ∈ r'.records, Unimproved host rec) :
   Careful host u (applySequence host u items rec.start run) := by
  refine applySequence_careful items halert fun s b hs hb=>?_
  exact (unimproved_append hrecords hall).2 run s b hnoted hs (huri ▸ hb)
 have hclosed (hall:∀ rec ∈ r'.records, Unimproved host rec)
   (hmistake:∃ e ∈ eventsOf r, Mistake host u e) : run.Closed :=
  (hbefore (unimproved_append hrecords hall).1 hmistake).resolve_right hfree
 refine ⟨hcount ▸ applySequence_room items rec.start (happlied ▸ h.room),fun run' hrun'=>?_,
  fun hnone=>?_,fun hall=>?_⟩
 · rw [hseq] at hrun'
   rw [←Option.some.inj hrun']
   refine ⟨hcount,applySequence_alert hitems halert,fun hall ⟨e,he,hmistake⟩=>.inl ?_⟩
   rw [eventsOf_append hrecords] at he
   rcases List.mem_append.1 he with he | he
   · have hold:=hclosed hall ⟨e,he,hmistake⟩
     rwa [applySequence_closed hold]
   · exact (hcareful hall).closed ⟨e,hes ▸ he,hmistake⟩
 · rw [hseq] at hnone
   cases hnone
 · rw [eventsOf_append hrecords,hes]
   refine stopping_append (h.stopping (unimproved_append hrecords hall).1) (hcareful hall).stopping
    fun hmistake e he=>?_
   rw [applySequence_closed (hclosed hall hmistake),List.mem_singleton] at he
   rw [he]
   rfl

variable {call:Call W Item}

theorem editFile_denied (h:call.allowed=false) : editFile host turnId r call =
  { r with
    world:=call.elsewhere r.world
    records:=r.records ++ [⟨call.uri,call.elsewhere r.world,none,[],
     call.elsewhere r.world,none⟩] } :=
 if_pos h

theorem editFile_blocked (h:¬call.allowed=false) (hb:(blocked turnId call.uri r.guard).isSome) :
  editFile host turnId r call =
   { r with
     world:=call.elsewhere r.world
     records:=r.records ++ [⟨call.uri,call.elsewhere r.world,none,[.failed call.uri],
      call.elsewhere r.world,none⟩] } :=
 (if_neg h).trans (if_pos hb)

theorem track_other {g:Guard} {uri relative:String} {baseline:Option L4FileState} (h:u ≠ uri) :
  track turnId uri relative baseline g turnId u=g turnId u := if_neg fun hu=>h hu.2.1

theorem recordState_other {g:Guard} {uri:String} {state:L4FileState} {n:ℕ} (h:u ≠ uri) :
  recordState turnId uri state n g turnId u=g turnId u := if_neg fun hu=>h hu.2

/-- A call that gets to the tool. -/
theorem editFile_runs (h:¬call.allowed=false) (hb:¬(blocked turnId call.uri r.guard).isSome) :
  ∃ guard reported o, o=fsEditFileDetailed host call.uri call.items (r.sequences call.uri)
    (call.elsewhere r.world) ∧
   (∀ u ≠ call.uri, guard turnId u=r.guard turnId u) ∧ (∀ n ∈ reported, n=o.applied) ∧
   editFile host turnId r call=⟨o.world,guard,
    if (r.sequences call.uri).isSome then Function.update r.sequences call.uri (some o.run)
    else r.sequences,
    r.records ++ [⟨call.uri,call.elsewhere r.world,r.sequences call.uri,o.events,o.world,
     reported⟩]⟩ := by
 refine ⟨_,_,_,rfl,fun u hu=>?_,fun n hn=>?_,(if_neg h).trans (if_neg hb)⟩
 · have htrack:(if host.isL4Path call.uri=true then track turnId call.uri call.uri
     (host.getCheckedDiagnostics call.uri (call.elsewhere r.world)) r.guard
     else r.guard) turnId u=r.guard turnId u := by
    split
    · exact track_other hu
    · rfl
   cases reportL4File host call.uri (fsEditFileDetailed host call.uri call.items
    (r.sequences call.uri) (call.elsewhere r.world)) with
   | none=>exact htrack
   | some state=>exact (recordState_other hu).trans htrack
 · obtain ⟨state,-,rfl⟩:=Option.map_eq_some_iff.1 hn
   rfl

theorem blocked_of_entry {g g':Guard} (h:g' turnId u=g turnId u) :
  blocked turnId u g' = blocked turnId u g := by
 rw [blocked,h,blocked]

/-- One call keeps what holds of every file. -/
theorem FileKept.step (h:FileKept host turnId (call.uri::rest) r u) :
  FileKept host turnId rest (editFile host turnId r call) u := by
 by_cases hdenied:call.allowed=false
 · rw [editFile_denied hdenied]
   exact h.quiet rfl rfl id fun e he=>absurd he List.not_mem_nil
 by_cases hblocked:(blocked turnId call.uri r.guard).isSome
 · rw [editFile_blocked hdenied hblocked]
   by_cases hu:u=call.uri
   · subst hu
     exact h.refused rfl rfl hblocked rfl
   · exact h.quiet rfl rfl id fun e he=>only_failed e he u hu
 obtain ⟨guard,reported,o,ho,hguard,-,heq⟩:=@editFile_runs W Item host _ r call hdenied hblocked
 have htold:=@edit_told W Item host call.uri call.items (r.sequences call.uri)
  (call.elsewhere r.world)
 rw [←ho] at htold
 rw [heq]
 by_cases hu:u=call.uri
 · subst hu
   cases hseq:r.sequences call.uri with
   | none=>
    obtain ⟨-,hroom,hstopping⟩:=@edit_alone W Item host call.uri call.items
     (call.elsewhere r.world)
    rw [hseq] at ho
    rw [←ho] at hroom hstopping
    exact h.only rfl rfl hseq hroom hstopping
   | some run=>
    rw [hseq] at ho
    have hnow:(if (some run).isSome then Function.update r.sequences call.uri (some o.run)
      else r.sequences) call.uri=some o.run := Function.update_self _ _ _
    by_cases hitems:call.items=[]
    · rw [hitems,edit_nothing] at ho
      refine h.quiet rfl ?_ (fun hb=>absurd hb hblocked) fun e he=>?_
      · rw [hseq]
        exact hnow.trans (by rw [ho]; rfl)
      · rw [ho] at he
        exact absurd he List.not_mem_nil
    · rw [edit_shared hitems] at ho
      exact h.ran rfl hseq hitems (hnow.trans (by rw [ho])) (by rw [ho]) rfl rfl hblocked
 · refine h.quiet rfl ?_ (fun hb=>?_) fun e he=>htold.only e he u hu
   · dsimp only
     split
     · exact Function.update_of_ne hu _ _
     · rfl
   · rwa [blocked_of_entry (hguard u hu)]

/-- Each call starts from where the one before and whatever happened since have left the world;
its landed edits are all that it changes, and all that the guard is told of. -/
def Traced : W → List (Call W Item) → List (Record W) → Prop
 | _, [], rs=>rs=[]
 | _, _::_, []=>False
 | w, call::calls, rec::rs=>rec.uri=call.uri ∧ rec.start=call.elsewhere w ∧
  Leads rec.start rec.events rec.world ∧
  (∀ n, rec.reported=some n → n=landings rec.uri rec.events) ∧ Traced rec.world calls rs

theorem editFile_traced (r:Round W) (call:Call W Item) :
  ∃ rec, (editFile host turnId r call).records=r.records ++ [rec] ∧
   (editFile host turnId r call).world=rec.world ∧ Traced r.world [call] [rec] := by
 by_cases hdenied:call.allowed=false
 · rw [editFile_denied hdenied]
   exact ⟨_,rfl,rfl,rfl,rfl,rfl,fun n hn=>(by cases hn),rfl⟩
 by_cases hblocked:(blocked turnId call.uri r.guard).isSome
 · rw [editFile_blocked hdenied hblocked]
   exact ⟨_,rfl,rfl,rfl,rfl,rfl,fun n hn=>(by cases hn),rfl⟩
 obtain ⟨guard,reported,o,ho,-,hreported,heq⟩:=@editFile_runs W Item host _ r call hdenied hblocked
 have htold:=@edit_told W Item host call.uri call.items (r.sequences call.uri)
  (call.elsewhere r.world)
 rw [←ho] at htold
 rw [heq]
 exact ⟨_,rfl,rfl,rfl,rfl,htold.leads,fun n hn=>(hreported n hn).trans htold.count,rfl⟩

theorem foldl_traced (calls:List (Call W Item)) (r:Round W) :
  ∃ rs, (calls.foldl (editFile host turnId) r).records=r.records ++ rs ∧
   Traced r.world calls rs := by
 induction calls generalizing r with
 | nil=>exact ⟨[],(List.append_nil _).symm,rfl⟩
 | cons call calls ih=>
  obtain ⟨rec,hrecords,hworld,huri,hstart,hleads,hreported,-⟩:=
   @editFile_traced W Item host turnId r call
  obtain ⟨rs,hrs,htraced⟩:=ih (editFile host turnId r call)
  rw [hworld] at htraced
  exact ⟨rec::rs,by rw [List.foldl_cons,hrs,hrecords,List.append_assoc]; rfl,
   huri,hstart,hleads,hreported,htraced⟩

theorem FileKept.begin (guard:Guard) (world:W) (uris:List String) (u:String) :
  FileKept host turnId uris ⟨world,guard,beginRound uris [] fun _=>none,[]⟩ u := by
 refine ⟨Nat.zero_le _,fun run hrun=>?_,fun hnone=>?_,fun _=>List.Pairwise.nil⟩
 · rw [beginRound_some (fun v run hv=>by cases hv) hrun]
   exact ⟨rfl,alert_fresh,fun _ ⟨e,he,_⟩=>absurd he List.not_mem_nil⟩
 · exact ⟨(beginRound_none hnone).2.1,fun _ e he=>absurd he List.not_mem_nil⟩

theorem FileKept.foldl (calls:List (Call W Item)) (r:Round W)
  (h:FileKept host turnId (calls.map Call.uri) r u) :
  FileKept host turnId [] (calls.foldl (editFile host turnId) r) u := by
 induction calls generalizing r with
 | nil=>exact h
 | cons call calls ih=>exact ih _ h.step

/-- At most five edits to a file land, they stay, and the guard is told how many they were; no
file is edited after a mistake, as long as no file gets better between its own edits. -/
theorem edits_of_response (host:Host W Item) (turnId:String) (guard:Guard) (world:W)
  (calls:List (Call W Item)) :
  (∀ uri, landings uri (eventsOf (runResponse host turnId guard world calls)) ≤
    MAX_EDITS_PER_FILE) ∧
   Traced world calls (runResponse host turnId guard world calls).records ∧
   ((∀ rec ∈ (runResponse host turnId guard world calls).records, Unimproved host rec) →
    Stops host (eventsOf (runResponse host turnId guard world calls))) := by
 have hkept (u:String) : FileKept host turnId [] (runResponse host turnId guard world calls) u:=
  FileKept.foldl calls _ (FileKept.begin guard world _ u)
 refine ⟨fun uri=>(hkept uri).room,?_,fun hall uri=>(hkept uri).stopping hall⟩
 obtain ⟨rs,hrs,htraced⟩:=@foldl_traced W Item host turnId calls
  ⟨world,guard,beginRound (calls.map Call.uri) [] fun _=>none,[]⟩
 rw [runResponse,hrs]
 exact htraced

/-- Every file has as many errors as the world says; an edit sets the world. -/
def counting : Host ℕ ℕ where
 isL4Path _ := true
 applyOneEdit _ item _ := some item
 getCheckedDiagnostics _ w := some ⟨if w=0 then .clean else .errors,w,0,false,none⟩
 computeEditDiff _ _ := true

theorem edits_of_response_counting :
  Stops counting (eventsOf (runResponse counting "turn" (fun _ _=>none) 3
   [⟨"rules.l4",[2],true,id⟩,⟨"rules.l4",[1,0],true,id⟩])) := by
 refine (edits_of_response counting "turn" (fun _ _=>none) 3 _).2.2 fun rec hrec run s b hrun hs=>?_
 have hrecords:(runResponse counting "turn" (fun _ _=>none) 3
   [⟨"rules.l4",[2],true,id⟩,⟨"rules.l4",[1,0],true,id⟩]).records =
  [⟨"rules.l4",3,some fresh,[.landed "rules.l4" 3 2],2,some 1⟩,
   ⟨"rules.l4",2,some ⟨1,some (some ⟨.errors,2,0,false,none⟩),false⟩,
    [.landed "rules.l4" 2 1,.landed "rules.l4" 1 0],0,some 2⟩] := by rfl
 rw [hrecords,List.mem_cons,List.mem_singleton] at hrec
 rcases hrec with rfl | rfl
 · rw [←Option.some.inj hrun] at hs
   cases hs
 · intro hb
   rw [←Option.some.inj hrun] at hs
   cases hs
   cases hb
   decide

/-- An edit to another file leaves one error, the next edit to the first makes two of it. -/
def response : List (Call ℕ ℕ) :=
 [⟨"rules.l4",[3],true,id⟩,⟨"imported.l4",[1],true,id⟩,⟨"rules.l4",[2],true,id⟩,
  ⟨"rules.l4",[0],true,id⟩]

theorem worse_than_just_before :
  ¬Stops counting (eventsOf (runResponse counting "turn" (fun _ _=>none) 3 response)) := by
 intro h
 have hevents:eventsOf (runResponse counting "turn" (fun _ _=>none) 3 response) =
   [.landed "rules.l4" 3 3,.landed "imported.l4" 3 1,.landed "rules.l4" 1 2,
    .landed "rules.l4" 2 0] := by rfl
 have hlater:=h "rules.l4"
 rw [hevents] at hlater
 have hlast:=(List.pairwise_cons.1 (List.pairwise_cons.1 (List.pairwise_cons.1 hlater).2).2).1
  _ List.mem_cons_self ⟨rfl,rfl,.inr ⟨_,_,rfl,rfl,by decide⟩⟩
 cases hlast

end L4Ide.EditRounds
