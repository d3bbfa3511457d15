import L4Ide.ConversationWrites

set_option autoImplicit false

/-!
# Stored conversations are kept

While no user change comes in between the call of a write, its read and its save, and no file
that is there fails to be read, every stored conversation is what its user's writes made of it.
-/
namespace L4Ide.ConversationWritesKept
open ConversationWrites InterleavedComponents AdmissibleRuns

/-! ## What a run is asked for -/

def effect (op:Operation) (now:String) : Option File → Option File
 | none=>
  match plan op none now with
  | .save _ conv=>some (.conversation conv)
  | _=>none
 | some (.conversation conv)=>
  match op with
  | .delete=>none
  | _=>
   match plan op (some conv) now with
   | .save _ changed=>some (.conversation changed)
   | _=>some (.conversation conv)
 | some .unreadable=>
  match op with
  | .delete=>none
  | _=>some .unreadable

/-- What a user's successful operations make of it, one after another. -/
def applied (user:String) (done:List Done) (file:Option File) : Option File :=
 (done.filter fun e=>e.success && e.call.user == some user).foldl
  (fun file e=>effect e.call.op e.now file) file

/-- The conversation is read and written under one user, and not begun anew over a file. -/
def Sound (w:Write) : Prop :=
 w.readUnder=some w.target ∧ ¬(w.created=true ∧ w.existed=true)

def goesOn : SlotAction → Prop
 | .call _=>False
 | .begin=>True
 | .read fails _=>fails=false
 | .save=>True
 | .write ok=>ok=true

/-- The writes that are called have all been done once some steps have gone through. -/
def Drains (id:String) (userKey:Option String) (s:Slot) : Prop :=
 ∃ more, (∀ action ∈ more, goesOn action) ∧
  (run (slotStep id userKey) more s).queue=[] ∧
  (run (slotStep id userKey) more s).done.map Done.call=s.called

/-! ## When a run gives it -/

def readingUser : Phase → Option String
 | .reading user=>user
 | _=>none

def savingUser : Phase → Option (Option String)
 | .saving user _ _ _=>some user
 | _=>none

/-- The user is the same when a write is called, when it reads and when it saves, and a file
    that is there can be read. -/
def CarefulSlot (userKey:Option String) (s:Slot) : SlotAction → Prop
 | .begin=>∀ call ∈ s.queue.head?, isDelete call.op=false →
  s.phase = .idle → baseDir userKey=call.user
 | .read fails _=>∀ user ∈ readingUser s.phase, (s.files user).isSome →
  fails=false ∧ s.files user ≠ some .unreadable
 | .save=>∀ user ∈ savingUser s.phase, baseDir userKey=user
 | _=>True

instance decidableCarefulSlot (userKey:Option String) (s:Slot) :
  (action:SlotAction) → Decidable (CarefulSlot userKey s action)
 | .begin=>inferInstanceAs (Decidable (∀ call ∈ s.queue.head?, isDelete call.op=false →
   s.phase = .idle → baseDir userKey=call.user))
 | .read fails _=>inferInstanceAs (Decidable (∀ user ∈ readingUser s.phase,
   (s.files user).isSome → fails=false ∧ s.files user ≠ some .unreadable))
 | .save=>inferInstanceAs (Decidable (∀ user ∈ savingUser s.phase, baseDir userKey=user))
 | .call _=>inferInstanceAs (Decidable True)
 | .write _=>inferInstanceAs (Decidable True)

def Careful (s:State) : Action → Prop
 | .switchUser _=>True
 | .on id action=>CarefulSlot s.userKey (s.conversations.get id) action

instance decidableCareful (s:State) : (action:Action) → Decidable (Careful s action)
 | .switchUser _=>inferInstanceAs (Decidable True)
 | .on id action=>
  inferInstanceAs (Decidable (CarefulSlot s.userKey (s.conversations.get id) action))

/-- Nothing is under way, and what is stored is stored under a safe id. -/
structure Resting (id:String) (s:Slot) : Prop where
 called : s.called=[]
 queue : s.queue=[]
 done : s.done=[]
 phase : s.phase = .idle
 writes : s.writes=[]
 safe : ∀ user, (s.files user).isSome → isSafeId id=true

/-! ## What a write relies on -/

/-- The conversation to be saved is what the operation makes of the stored one. -/
structure Prepared (s:Slot) (call:Call) (user:Option String) (created:Bool)
  (conv:AiConversation) (now:String) : Prop where
 kind : isDelete call.op=false
 same : call.user=user
 effect : ∀ u, user=some u →
  effect call.op now (s.files u)=some (.conversation conv) ∧
   (created=true → s.files u=none)

def PhaseFacts (id:String) (s:Slot) : Phase → Prop
 | .idle=>True
 | .reading user=>∃ call rest, s.queue=call::rest ∧ isDelete call.op=false ∧
  call.user=user
 | .saving user created conv now=>∃ call rest, s.queue=call::rest ∧
  Prepared s call user created conv now
 | .writing user target created conv now=>∃ call rest, s.queue=call::rest ∧
  isSafeId id=true ∧ user=some target ∧ Prepared s call user created conv now
 | .removing user=>∃ call rest, s.queue=call::rest ∧ isDelete call.op=true ∧
  call.user=user

structure Inv (id:String) (start:String → Option File) (s:Slot) : Prop where
 files : ∀ user, s.files user=applied user s.done (start user)
 order : s.done.map Done.call ++ s.queue=s.called
 phase : PhaseFacts id s s.phase
 writes : ∀ w ∈ s.writes, Sound w
 safe : ∀ user, (s.files user).isSome → isSafeId id=true

variable {id:String} {start:String → Option File} {s:Slot}

theorem applied_append (user:String) (done:List Done) (e:Done) (file:Option File) :
  applied user (done ++ [e]) file =
   if e.success=true ∧ e.call.user=some user then
    effect e.call.op e.now (applied user done file)
   else applied user done file := by
 unfold applied
 rw [List.filter_append,List.foldl_append]
 by_cases h:e.success=true ∧ e.call.user=some user
 · obtain ⟨hsuccess,huser⟩:=h
   simp [hsuccess,huser]
 · rw [if_neg h]
   have hfalse:(e.success && e.call.user == some user)=false:=by
    rw [Bool.eq_false_iff]
    intro htrue
    obtain ⟨hsuccess,huser⟩:=Bool.and_eq_true_iff.mp htrue
    exact h ⟨hsuccess,eq_of_beq huser⟩
   rw [List.filter_cons_of_neg (by rw [hfalse]; exact Bool.false_ne_true),List.filter_nil]
   rfl

theorem effect_of_plan {op:Operation} {now:String} {file:Option File}
  {loaded:Option AiConversation} (hkind:isDelete op=false)
  (hfile:file=loaded.map File.conversation) :
  effect op now file =
   match plan op loaded now with
   | .save _ conv=>some (.conversation conv)
   | _=>file := by
 subst hfile
 cases loaded with
 | none=>rfl
 | some conv=>cases op <;> first | rfl | cases hkind

theorem created_of_plan {op:Operation} {now:String} {loaded:Option AiConversation}
  {conv:AiConversation} (h:plan op loaded now = .save true conv) : loaded=none := by
 cases loaded with
 | none=>rfl
 | some conv' =>
  cases op with
  | appendMessages a=>simp [plan] at h
  | update change=>
   unfold plan at h
   dsimp only at h
   split at h <;> cases h
  | setTitle title replacing=>
   unfold plan at h
   dsimp only at h
   split at h <;> cases h
  | delete=>cases h

theorem effect_of_isDelete {op:Operation} (h:isDelete op=true) (now:String)
  (file:Option File) : effect op now file=none := by
 cases op with
 | delete=>
  cases file with
  | none=>rfl
  | some file=>cases file <;> rfl
 | appendMessages a=>cases h
 | update change=>cases h
 | setTitle title replacing=>cases h

/-! ## Steps -/

namespace Inv

theorem finish (h:Inv id start s) {call:Call} {rest:List Call}
  (hqueue:s.queue=call::rest) {success:Bool} {now:String}
  {files:String → Option File} {writes:List Write}
  (hfiles:∀ user, files user =
   if success=true ∧ call.user=some user then effect call.op now (s.files user)
   else s.files user)
  (hwrites:∀ w ∈ writes, Sound w) (hsafe:∀ user, (files user).isSome → isSafeId id=true) :
  Inv id start ({ s with files:=files,writes:=writes }.finish success now) := by
 unfold Slot.finish
 dsimp only
 rw [hqueue]
 constructor
 · intro user
   dsimp only
   rw [applied_append,←h.files user]
   exact hfiles user
 · dsimp only
   rw [List.map_append,List.append_assoc]
   have horder:=h.order
   rw [hqueue] at horder
   exact horder
 · trivial
 · exact hwrites
 · exact hsafe

theorem finish_unchanged (h:Inv id start s) {call:Call} {rest:List Call}
  (hqueue:s.queue=call::rest) {success:Bool} {now:String}
  (heffect:success=true → ∀ user, call.user=some user →
   effect call.op now (s.files user)=s.files user) :
  Inv id start (s.finish success now) := by
 apply h.finish hqueue ?_ h.writes h.safe
 intro user
 split
 · rename_i hcond
   exact (heffect hcond.1 user hcond.2).symm
 · rfl

theorem enqueue (h:Inv id start s) (userKey:Option String) (op:Operation) :
  Inv id start (enqueue id userKey op s) := by
 unfold ConversationWrites.enqueue
 dsimp only
 split
 · exact h
 · have hphase:∀ call, PhaseFacts id
     { s with queue:=s.queue ++ [call],called:=s.called ++ [call] }
     s.phase := by
    intro call
    have hold:=h.phase
    cases hcase:s.phase with
    | idle=>trivial
    | reading user=>
     rw [hcase] at hold
     obtain ⟨first,rest,hqueue,hfacts⟩:=hold
     exact ⟨first,rest ++ [call],by dsimp only; rw [hqueue]; rfl,hfacts⟩
    | saving user created conv now=>
     rw [hcase] at hold
     obtain ⟨first,rest,hqueue,hprepared⟩:=hold
     exact ⟨first,rest ++ [call],by dsimp only; rw [hqueue]; rfl,hprepared.kind,
      hprepared.same,hprepared.effect⟩
    | writing user target created conv now=>
     rw [hcase] at hold
     obtain ⟨first,rest,hqueue,hid,htarget,hprepared⟩:=hold
     exact ⟨first,rest ++ [call],by dsimp only; rw [hqueue]; rfl,hid,htarget,
      hprepared.kind,hprepared.same,hprepared.effect⟩
    | removing user=>
     rw [hcase] at hold
     obtain ⟨first,rest,hqueue,hfacts⟩:=hold
     exact ⟨first,rest ++ [call],by dsimp only; rw [hqueue]; rfl,hfacts⟩
   refine ⟨h.files, ?_,hphase _,h.writes,h.safe⟩
   dsimp only
   rw [←h.order,List.append_assoc]

theorem beginNext (h:Inv id start s) (userKey:Option String)
  (hcareful:CarefulSlot userKey s .begin) : Inv id start (beginNext userKey s) := by
 unfold ConversationWrites.beginNext
 split
 · rename_i call rest hphase hqueue
   refine ⟨h.files,h.order, ?_,h.writes,h.safe⟩
   dsimp only
   split
   · rename_i hdelete
     exact ⟨call,rest,hqueue,hdelete,rfl⟩
   · rename_i hkind
     rw [Bool.not_eq_true] at hkind
     refine ⟨call,rest,hqueue,hkind, ?_⟩
     exact (hcareful call (by rw [hqueue]; rfl) hkind hphase).symm
 · exact h

theorem loaded_eq (h:Inv id start s) {fails:Bool} {user:String}
  (hreads:(s.files user).isSome → fails=false ∧ s.files user ≠ some .unreadable) :
  s.files user=(load id (some user) fails s).map File.conversation := by
 cases hfile:s.files user with
 | none=>
  have hload:load id (some user) fails s=none:=by
   unfold load
   rw [Option.bind_some,hfile]
   split <;> rfl
  rw [hload]
  rfl
 | some file=>
  have hsome:(s.files user).isSome:=by
   rw [hfile]
   rfl
  obtain ⟨hfails,hreadable⟩:=hreads hsome
  cases file with
  | unreadable=>exact absurd hfile hreadable
  | conversation conv=>
   have hload:load id (some user) fails s=some conv:=by
    unfold load
    rw [h.safe user hsome,hfails,Option.bind_some,hfile]
    rfl
   rw [hload]
   rfl

theorem readFile (h:Inv id start s) (fails:Bool) (now:String)
  (hcareful:CarefulSlot none s (.read fails now)) :
  Inv id start (readFile id fails now s) := by
 unfold ConversationWrites.readFile
 split
 · rename_i user call rest hphase hqueue
   have hfacts:=h.phase
   rw [hphase] at hfacts
   obtain ⟨call', rest', hqueue', hkind,huser⟩:=hfacts
   rw [hqueue] at hqueue'
   obtain ⟨rfl,rfl⟩:=List.cons.inj hqueue'
   have hloaded:∀ u, user=some u →
     s.files u=(load id user fails s).map File.conversation := by
    rintro u rfl
    exact h.loaded_eq (hcareful u (by rw [hphase]; rfl))
   split
   · rename_i created conv hplan
     refine ⟨h.files,h.order,⟨call,rest,hqueue,hkind,huser, ?_⟩,h.writes,h.safe⟩
     intro u hu
     constructor
     · rw [effect_of_plan hkind (hloaded u hu),hplan]
     · intro hcreated
       rw [hcreated] at hplan
       rw [hloaded u hu,created_of_plan hplan]
       rfl
   · rename_i hplan
     apply h.finish_unchanged hqueue
     intro _ u hu
     rw [effect_of_plan hkind (hloaded u (huser.symm.trans hu)),hplan]
   · apply h.finish_unchanged hqueue
     intro htrue
     cases htrue
 · exact h

theorem save (h:Inv id start s) (userKey:Option String)
  (hcareful:CarefulSlot userKey s .save) : Inv id start (save id userKey s) := by
 unfold ConversationWrites.save
 split
 · rename_i user created conv now hphase
   have hsame:=hcareful user (by rw [hphase]; rfl)
   have hfacts:=h.phase
   rw [hphase] at hfacts
   obtain ⟨call,rest,hqueue,hprepared⟩:=hfacts
   split
   · rename_i hid
     split
     · rename_i target htarget
       refine ⟨h.files,h.order,⟨call,rest,hqueue,hid,hsame.symm.trans htarget, ?_⟩,
        h.writes,h.safe⟩
       exact ⟨hprepared.kind,hprepared.same,hprepared.effect⟩
     · rename_i hnone
       apply h.finish_unchanged hqueue
       intro _ u hu
       rw [hprepared.same,←hsame,hnone] at hu
       cases hu
   · apply h.finish_unchanged hqueue
     intro htrue
     cases htrue
 · exact h

theorem write (h:Inv id start s) (ok:Bool) : Inv id start (write ok s) := by
 have hfacts:=h.phase
 unfold ConversationWrites.write
 split
 · rename_i user target created conv now hphase
   rw [hphase] at hfacts
   obtain ⟨call,rest,hqueue,hid,htarget,hprepared⟩:=hfacts
   obtain ⟨heffect,hcreated⟩:=hprepared.effect target htarget
   split
   · apply h.finish hqueue
     · intro u
       by_cases hu:u=target
       · subst hu
         rw [if_pos rfl,if_pos ⟨rfl,hprepared.same.trans htarget⟩,heffect]
       · rw [if_neg hu,if_neg]
         rintro ⟨-,huser⟩
         rw [hprepared.same,htarget] at huser
         exact hu (Option.some.inj huser).symm
     · intro w hw
       rcases List.mem_append.mp hw with hw | hw
       · exact h.writes w hw
       · rw [List.mem_singleton.mp hw]
         refine ⟨htarget, ?_⟩
         rintro ⟨hc,hexisted⟩
         dsimp only at hexisted
         rw [hcreated hc] at hexisted
         cases hexisted
     · exact fun _ _=>hid
   · apply h.finish_unchanged hqueue
     intro htrue
     cases htrue
 · rename_i user hphase
   rw [hphase] at hfacts
   obtain ⟨call,rest,hqueue,hdelete,huser⟩:=hfacts
   split
   · apply h.finish hqueue
     · intro u
       by_cases hu:u=user
       · subst hu
         rw [if_pos rfl,if_pos ⟨rfl,huser⟩,effect_of_isDelete hdelete]
       · rw [if_neg hu,if_neg]
         rintro ⟨-,heq⟩
         rw [huser] at heq
         exact hu (Option.some.inj heq).symm
     · exact h.writes
     · intro u hsome
       split at hsome
       · cases hsome
       · exact h.safe u hsome
   · apply h.finish_unchanged hqueue
     intro htrue
     cases htrue
 · rename_i hphase
   rw [hphase] at hfacts
   obtain ⟨call,rest,hqueue,-⟩:=hfacts
   apply h.finish_unchanged hqueue
   intro htrue
   cases htrue
 · exact h

theorem step (h:Inv id start s) (userKey:Option String) {action:SlotAction}
  (hcareful:CarefulSlot userKey s action) : Inv id start (slotStep id userKey action s) := by
 cases action with
 | call op=>exact h.enqueue userKey op
 | begin=>exact h.beginNext userKey hcareful
 | read fails now=>exact h.readFile fails now hcareful
 | save=>exact h.save userKey hcareful
 | write ok=>exact h.write ok

end Inv

theorem inv_resting (h:Resting id s) : Inv id s.files s where
 files user := by
  rw [h.done]
  rfl
 order := by
  rw [h.done,h.queue,h.called]
  rfl
 phase := by
  rw [h.phase]
  trivial
 writes := by
  rw [h.writes]
  exact fun _ hmem=>absurd hmem List.not_mem_nil
 safe:=h.safe

/-! ## Draining -/

section Draining

variable {userKey:Option String}

def Ends (id:String) (userKey:Option String) (s:Slot) : Prop :=
 ∃ more, (∀ action ∈ more, goesOn action) ∧
  (run (slotStep id userKey) more s).queue=s.queue.tail ∧
  (run (slotStep id userKey) more s).phase = .idle ∧
  (run (slotStep id userKey) more s).called=s.called ∧
  ∃ now success, (run (slotStep id userKey) more s).done =
   s.done ++ (s.queue.take 1).map fun call=>⟨call,now,success⟩

theorem ends_of_finish {call:Call} {rest:List Call} {s' : Slot} (action:SlotAction)
  (hgoes:goesOn action) (hqueue:s.queue=call::rest) {success:Bool} {now:String}
  (hstep:slotStep id userKey action s=s'.finish success now) (hqueue' : s'.queue=s.queue)
  (hdone:s'.done=s.done) (hcalled:s'.called=s.called) : Ends id userKey s := by
 refine ⟨[action], ?_, ?_⟩
 · intro other hmem
   rwa [List.mem_singleton.mp hmem]
 · have hrun:run (slotStep id userKey) [action] s =
     { s' with queue:=rest,done:=s.done ++ [⟨call,now,success⟩],phase:=.idle } := by
    change slotStep id userKey action s=_
    rw [hstep]
    unfold Slot.finish
    rw [hqueue', hqueue,←hdone]
   rw [hrun,hqueue]
   exact ⟨rfl,rfl,hcalled,now,success,rfl⟩

theorem ends_of_step {s' : Slot} (action:SlotAction) (hgoes:goesOn action)
  (hstep:slotStep id userKey action s=s') (hqueue:s'.queue=s.queue)
  (hdone:s'.done=s.done) (hcalled:s'.called=s.called) (h:Ends id userKey s') :
  Ends id userKey s := by
 obtain ⟨more,hgoes', hqueue', hphase,hcalled', now,success,hdone'⟩:=h
 refine ⟨action::more, ?_, ?_⟩
 · intro other hmem
   rcases List.mem_cons.mp hmem with rfl | hmem
   · exact hgoes
   · exact hgoes' other hmem
 · rw [run_cons,hstep]
   rw [hqueue] at hqueue' hdone'
   rw [hdone] at hdone'
   exact ⟨hqueue', hphase,hcalled'.trans hcalled,now,success,hdone'⟩

theorem ends_of_writing {call:Call} {rest:List Call} (hqueue:s.queue=call::rest)
  {user:Option String} {target:String} {created:Bool} {conv:AiConversation}
  {now:String} (hphase:s.phase = .writing user target created conv now) :
  Ends id userKey s := by
 have hstep:slotStep id userKey (.write true) s=write true s:=rfl
 unfold write at hstep
 rw [hphase] at hstep
 exact ends_of_finish (.write true) rfl hqueue hstep rfl rfl rfl

theorem ends_of_saving {call:Call} {rest:List Call} (hqueue:s.queue=call::rest)
  {user:Option String} {created:Bool} {conv:AiConversation} {now:String}
  (hphase:s.phase = .saving user created conv now) : Ends id userKey s := by
 have hstep:slotStep id userKey .save s=save id userKey s:=rfl
 unfold save at hstep
 rw [hphase] at hstep
 dsimp only at hstep
 split at hstep
 · split at hstep
   · exact ends_of_step .save trivial hstep rfl rfl rfl (ends_of_writing hqueue rfl)
   · exact ends_of_finish .save trivial hqueue hstep rfl rfl rfl
 · exact ends_of_finish .save trivial hqueue hstep rfl rfl rfl

theorem ends_of_reading {call:Call} {rest:List Call} (hqueue:s.queue=call::rest)
  {user:Option String} (hphase:s.phase = .reading user) : Ends id userKey s := by
 have hstep:slotStep id userKey (.read false "") s=readFile id false "" s:=rfl
 unfold readFile at hstep
 rw [hphase,hqueue] at hstep
 dsimp only at hstep
 split at hstep
 · exact ends_of_step (.read false "") rfl hstep hqueue.symm rfl rfl (ends_of_saving rfl rfl)
 · exact ends_of_finish (.read false "") rfl hqueue hstep rfl rfl rfl
 · exact ends_of_finish (.read false "") rfl hqueue hstep rfl rfl rfl

theorem ends_of_removing {call:Call} {rest:List Call} (hqueue:s.queue=call::rest)
  {user:Option String} (hphase:s.phase = .removing user) : Ends id userKey s := by
 have hstep:slotStep id userKey (.write true) s=write true s:=rfl
 unfold write at hstep
 rw [hphase] at hstep
 cases user with
 | none=>exact ends_of_finish (.write true) rfl hqueue hstep rfl rfl rfl
 | some user=>
  dsimp only at hstep
  split at hstep
  · exact ends_of_finish (.write true) rfl hqueue hstep rfl rfl rfl
  · exact ends_of_finish (.write true) rfl hqueue hstep rfl rfl rfl

theorem ends_of_idle {call:Call} {rest:List Call} (hqueue:s.queue=call::rest)
  (hphase:s.phase = .idle) : Ends id userKey s := by
 have hstep:slotStep id userKey .begin s=beginNext userKey s:=rfl
 unfold beginNext at hstep
 rw [hphase,hqueue] at hstep
 dsimp only at hstep
 cases hkind:isDelete call.op with
 | true=>
  rw [hkind,if_pos rfl] at hstep
  exact ends_of_step .begin trivial hstep hqueue.symm rfl rfl (ends_of_removing rfl rfl)
 | false=>
  rw [hkind,if_neg Bool.false_ne_true] at hstep
  exact ends_of_step .begin trivial hstep hqueue.symm rfl rfl (ends_of_reading rfl rfl)

theorem ends_of_queue {call:Call} {rest:List Call} (hqueue:s.queue=call::rest) :
  Ends id userKey s := by
 cases hphase:s.phase with
 | idle=>exact ends_of_idle hqueue hphase
 | reading user=>exact ends_of_reading hqueue hphase
 | saving user created conv now=>exact ends_of_saving hqueue hphase
 | writing user target created conv now=>exact ends_of_writing hqueue hphase
 | removing user=>exact ends_of_removing hqueue hphase

theorem drains_of_order (horder:s.done.map Done.call ++ s.queue=s.called) :
  Drains id userKey s := by
 obtain ⟨queue,hqueue⟩ : ∃ queue, s.queue=queue:=⟨_,rfl⟩
 induction queue generalizing s with
 | nil=>
  rw [hqueue,List.append_nil] at horder
  exact ⟨[],fun _ hmem=>absurd hmem List.not_mem_nil,hqueue,horder⟩
 | cons call rest ih=>
  obtain ⟨first,hfirst,hqueue', -,hcalled,now,success,hdone⟩:=
   @ends_of_queue id s userKey call rest hqueue
  rw [hqueue] at hqueue' hdone
  have horder' : (run (slotStep id userKey) first s).done.map Done.call ++
    (run (slotStep id userKey) first s).queue =
     (run (slotStep id userKey) first s).called := by
   rw [hqueue', hcalled,hdone,←horder,hqueue]
   simp
  obtain ⟨more,hmore,hempty,hall⟩:=ih horder' hqueue'
  refine ⟨first ++ more, ?_, ?_, ?_⟩
  · intro action hmem
    rcases List.mem_append.mp hmem with hmem | hmem
    · exact hfirst action hmem
    · exact hmore action hmem
  · rw [run_append]
    exact hempty
  · rw [run_append,hall,hcalled]

end Draining

/-! ## Runs -/

/-- In every careful run each user's conversations are what the user's successful operations
    made of them, in the order of their calls; no conversation is written under another user
    than it was read under, or begun anew over a file; and what is queued can always be done. -/
theorem conversations_kept (actions:List Action) (s:State)
  (hresting:∀ id, Resting id (s.conversations.get id))
  (hcareful:Admissible step Careful actions s) (id:String) :
  (∀ user, ((run step actions s).conversations.get id).files user =
   applied user ((run step actions s).conversations.get id).done
    ((s.conversations.get id).files user)) ∧
   ((run step actions s).conversations.get id).done.map Done.call ++
    ((run step actions s).conversations.get id).queue =
     ((run step actions s).conversations.get id).called ∧
   (∀ w ∈ ((run step actions s).conversations.get id).writes, Sound w) ∧
   ∀ userKey, Drains id userKey ((run step actions s).conversations.get id) := by
 have hinv:∀ i, Inv i (s.conversations.get i).files
   ((run step actions s).conversations.get i) := by
  apply hcareful.invariant (P := fun s' =>
   ∀ i, Inv i (s.conversations.get i).files (s'.conversations.get i))
  · intro s' action h hadmits
    cases action with
    | switchUser userKey=>exact h
    | on i action=>
     exact Family.forall_get_put (P := fun j x=>Inv j (s.conversations.get j).files x) h
      ((h i).step s'.userKey hadmits)
  · exact fun i=>inv_resting (hresting i)
 exact ⟨(hinv id).files,(hinv id).order,(hinv id).writes,
  fun userKey=>drains_of_order (hinv id).order⟩

/-! ## Runs of one user -/

def firstMessage : Operation :=
 .appendMessages ⟨"org","user","model",[],[⟨"user","hello"⟩],none,none,none⟩

/-- All steps of one write. -/
def written (id:String) (op:Operation) : List Action :=
 [.on id (.call op),.on id .begin,.on id (.read false "now"),.on id .save,.on id (.write true)]

def signedIn : State := ⟨some "alice",Family.start⟩

theorem resting_signedIn (id:String) : Resting id (signedIn.conversations.get id) :=
 ⟨rfl,rfl,rfl,rfl,rfl,fun _ h=>nomatch h⟩

/-- A conversation is begun, named and deleted, and then another user signs in. -/
def wholeStory : List Action :=
 written "c1" firstMessage ++ written "c1" (.setTitle [104] none) ++
  [.on "c1" (.call .delete),.on "c1" .begin,.on "c1" (.write true),.switchUser (some "bob")] ++
  written "c1" firstMessage

theorem conversations_kept_wholeStory :
  (∀ user, ((run step wholeStory signedIn).conversations.get "c1").files user =
   applied user ((run step wholeStory signedIn).conversations.get "c1").done
    ((signedIn.conversations.get "c1").files user)) ∧
   ((run step wholeStory signedIn).conversations.get "c1").done.map Done.call ++
    ((run step wholeStory signedIn).conversations.get "c1").queue =
     ((run step wholeStory signedIn).conversations.get "c1").called ∧
   (∀ w ∈ ((run step wholeStory signedIn).conversations.get "c1").writes, Sound w) ∧
   ∀ userKey, Drains "c1" userKey ((run step wholeStory signedIn).conversations.get "c1") :=
 conversations_kept wholeStory signedIn resting_signedIn (by decide +kernel) "c1"

/-- The user changes between the read and the save of a write. -/
def switchedMeanwhile : List Action :=
 written "c1" firstMessage ++
  [.on "c1" (.call (.setTitle [104] none)),.on "c1" .begin,.on "c1" (.read false "later"),
   .switchUser (some "bob"),.on "c1" .save,.on "c1" (.write true)]

/-- The file of a conversation cannot be read when a message is added. -/
def unreadMeanwhile : List Action :=
 written "c1" firstMessage ++
  [.on "c1" (.call firstMessage),.on "c1" .begin,.on "c1" (.read true "later"),
   .on "c1" .save,.on "c1" (.write true)]

theorem conversation_misplaced :
  (∃ w ∈ ((run step switchedMeanwhile signedIn).conversations.get "c1").writes, ¬Sound w) ∧
   ((run step switchedMeanwhile signedIn).conversations.get "c1").files "alice" ≠
    applied "alice" ((run step switchedMeanwhile signedIn).conversations.get "c1").done none ∧
   (∃ w ∈ ((run step unreadMeanwhile signedIn).conversations.get "c1").writes, ¬Sound w) ∧
   ((run step unreadMeanwhile signedIn).conversations.get "c1").files "alice" ≠
    applied "alice" ((run step unreadMeanwhile signedIn).conversations.get "c1").done none := by
 refine ⟨⟨⟨some "alice","bob",false,false⟩, ?_, ?_⟩, ?_,
  ⟨⟨some "alice","alice",true,true⟩, ?_, ?_⟩, ?_⟩
 · decide +kernel
 · exact fun h=>absurd h.1 (by decide)
 · decide +kernel
 · decide +kernel
 · exact fun h=>h.2 ⟨rfl,rfl⟩
 · decide +kernel

end L4Ide.ConversationWritesKept
