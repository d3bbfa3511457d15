import L4Ide.AdmissibleRuns
import Mathlib.Data.Int.Notation
import Mathlib.Logic.Function.Basic

set_option autoImplicit false

/-!
# The key chain of the cloud agent

A key that is renewed at the start, by a timer and after a rejected request.
-/
namespace L4Ide.KeyChain
open AdmissibleRuns

variable {Key:Type}

/-! ### Renewals -/

inductive AgentKeyFailure where
 | invalid_key
 | chain_expired
 | chain_forked
 deriving DecidableEq

def parseAgentKeyError (error:String) : Option AgentKeyFailure :=
 if error = "invalid_key" then some .invalid_key
 else if error = "chain_expired" then some .chain_expired
 else if error = "chain_forked" then some .chain_forked
 else none

/-- An answer of the renew route, its body parsed as a renewal or as an error. -/
structure Response (Key:Type) where
 status : ℕ
 renewed : Option (Key × ℤ)
 error : Option String

inductive Outcome (Key:Type) where
 | ok (token:Key) (expiresAt:ℤ)
 | retry
 | failed (why:AgentKeyFailure)

def CHAIN_LOST : String := "chain_lost"

/-- What `tryRenew` makes of an answer; there is none where the request fails. -/
def outcome : Option (Response Key) → Outcome Key
 | none=>.retry
 | some res=>
  if 200 ≤ res.status ∧ res.status < 300 then res.renewed.elim .retry fun r=>.ok r.1 r.2
  else if res.error=some CHAIN_LOST then .failed .invalid_key
  else if 500 ≤ res.status ∨ res.status=429 then .retry
  else .failed ((res.error.bind parseAgentKeyError).getD .invalid_key)

def AGENT_KEY_LIFETIME_MS : ℤ := 900000

def AGENT_KEY_RENEW_BEFORE_MS : ℤ := 5*60*1000

/-- How long `setTimeout` waits. -/
def timeoutMs (delay:ℤ) : ℤ := if 1 ≤ delay ∧ delay ≤ 2147483647 then delay else 1

structure Config where
 retryDelays : List ℤ
 minInterval : ℤ

inductive Attempt where
 | sent (attempt:ℕ)
 | waiting (attempt:ℕ) (till:ℤ)

/-- Where a rejected request stands; a number is that of the renewal that it waits for. -/
inductive Request (Key:Type) where
 | idle
 | current (used:Key) (renewal:ℕ)
 | older (used:Key) (renewal:ℕ)
 | renewed (used:Key)
 /-- In `getAiAuthHeaders`, called for a rejected request or by anyone. -/
 | asking (used:Option Key) (renewal:ℕ)
 | fresh (used key:Key)
 | done

inductive Event (Key:Type) where
 | started
 | requested
 | answered
 | renewed (time:ℤ)
 | ended
 | gave (key:Key)
 | ending
 | resent (id:ℕ) (used key:Key)
 deriving DecidableEq

structure State (Key:Type) where
 now : ℤ
 key : Key
 expiresAt : ℤ
 ended : Option (AgentKeyFailure × Bool)
 renewing : Option Attempt
 timer : Option ℤ
 stopped : Bool
 lastRenewedAt : Option ℤ
 /-- How the renewals so far came out. -/
 results : List Bool
 /-- The renewals after which the next is scheduled. -/
 scheduling : List ℕ
 requests : ℕ → Request Key
 /-- Every key so far, of the chain or of a request. -/
 seen : List Key
 /-- What happened, the last first. -/
 log : List (Event Key)

def initial (initialKey:Key) (now:ℤ) : State Key :=
 ⟨now,initialKey,now+AGENT_KEY_LIFETIME_MS,none,none,none,false,none,[],[],fun _=>.idle,
  [initialKey],[]⟩

def State.tell (e:Event Key) (s:State Key) : State Key := { s with log:=e::s.log }

def State.go (id:ℕ) (request:Request Key) (s:State Key) : State Key :=
 { s with requests:=Function.update s.requests id request }

def State.settle (ok:Bool) (s:State Key) : State Key :=
 { s with renewing:=none,results:=s.results ++ [ok] }

def untilRenewAllowed (cfg:Config) (s:State Key) : ℤ :=
 s.lastRenewedAt.elim 0 fun last=>last+cfg.minInterval-s.now

def schedule (cfg:Config) (soon:Bool) (s:State Key) : State Key :=
 if s.ended.isSome ∨ s.stopped then { s with timer:=none }
 else
  let earliest:=max (untilRenewAllowed cfg s) 0
  let due:=if soon then earliest
   else max earliest (s.expiresAt-AGENT_KEY_RENEW_BEFORE_MS-s.now)
  { s with timer:=some (s.now+timeoutMs due) }

theorem schedule_eq (cfg:Config) (soon:Bool) (s:State Key) :
  ∃ timer, schedule cfg soon s = { s with timer:=timer } ∧ (s.stopped=true → timer=none) := by
 unfold schedule
 split
 · exact ⟨none,rfl,fun _=>rfl⟩
 · rename_i h
   exact ⟨_,rfl,fun hstopped=>absurd (.inr hstopped) h⟩

def finish (ended:AgentKeyFailure × Bool) (s:State Key) : State Key :=
 if s.ended.isSome then s else { s with ended:=some ended,timer:=none }.tell .ended

theorem finish_settle (ended:AgentKeyFailure × Bool) (ok:Bool) (s:State Key) :
  (finish ended s).settle ok=finish ended (s.settle ok) := by
 unfold finish State.settle
 split <;> rfl

def renew (s:State Key) : State Key :=
 if s.ended.isSome ∨ s.renewing.isSome then s
 else { s with renewing:=some (.sent 0) }.tell .started |>.tell .requested

theorem renew_requests (s:State Key) : (renew s).requests=s.requests := by
 unfold renew
 split <;> rfl

theorem renew_seen (s:State Key) : (renew s).seen=s.seen := by
 unfold renew
 split <;> rfl

theorem renew_results (s:State Key) : (renew s).results=s.results := by
 unfold renew
 split <;> rfl

def renewAndSchedule (s:State Key) : State Key :=
 if s.ended.isSome then s
 else { renew s with scheduling:=s.results.length::s.scheduling }

def renewOnce (cfg:Config) (attempt:ℕ) (res:Option (Response Key)) (s:State Key) : State Key :=
 match outcome res with
 | .ok token expiresAt=>
  ({ s with
    key:=token
    expiresAt:=expiresAt
    lastRenewedAt:=some s.now
    seen:=token::s.seen }.tell (.renewed s.now)).settle true
 | .failed why=>(finish (why,true) s).settle false
 | .retry=>
  match cfg.retryDelays[attempt]? with
  | none=>(finish (.invalid_key,false) s).settle false
  | some delay=>
   if s.expiresAt ≤ s.now+delay then (finish (.invalid_key,false) s).settle false
   else { s with renewing:=some (.waiting attempt (s.now+timeoutMs delay)) }

def retry (attempt:ℕ) (s:State Key) : State Key :=
 if s.stopped then s.settle false
 else { s with renewing:=some (.sent (attempt+1)) }.tell .requested

def renewAfterUnauthorized [DecidableEq Key] (cfg:Config) (id:ℕ) (used:Key) (s:State Key) :
  State Key :=
 if s.ended.isSome then s.go id .done
 else if used ≠ s.key then
  s.go id (if s.renewing.isSome then .older used s.results.length else .renewed used)
 else if 0 < untilRenewAllowed cfg s then (schedule cfg true s).go id .done
 else (renew s).go id (.current used s.results.length)

/-- The rest of `getAiAuthHeaders`. -/
def give (id:ℕ) (used:Option Key) (s:State Key) : State Key :=
 if s.ended.isSome then s.go id .done
 else (s.go id (used.elim .done fun used=>.fresh used s.key)).tell (.gave s.key)

def getAiAuthHeaders (id:ℕ) (used:Option Key) (s:State Key) : State Key :=
 if s.renewing.isSome then s.go id (.asking used s.results.length) else give id used s

/-- A request goes on where it waited. -/
def resume (id:ℕ) (s:State Key) : State Key :=
 match s.requests id with
 | .current used n=>(s.results[n]?).elim s fun ok=>s.go id (if ok then .renewed used else .done)
 | .older used n=>
  if n < s.results.length then s.go id (if s.ended.isSome then .done else .renewed used) else s
 | .renewed used=>getAiAuthHeaders id (some used) s
 | .asking used n=>if n < s.results.length then give id used s else s
 | .fresh used key=>(s.go id .done).tell (.resent id used key)
 | _=>s

inductive Action (Key:Type) where
 | tick (ms:ℕ)
 | start
 | fire
 | answer (res:Option (Response Key))
 | retry
 | reschedule (renewal:ℕ)
 | rejected (id:ℕ) (used:Key)
 | headers (id:ℕ)
 | resume (id:ℕ)
 | ending

/-- What cannot happen changes nothing. -/
def step [DecidableEq Key] (cfg:Config) (action:Action Key) (s:State Key) : State Key :=
 match action with
 | .tick ms=>{ s with now:=s.now+ms }
 | .start=>renewAndSchedule s
 | .fire=>
  if s.timer.any fun due=>due ≤ s.now then renewAndSchedule { s with timer:=none } else s
 | .answer res=>
  match s.renewing with
  | some (.sent attempt)=>renewOnce cfg attempt res (s.tell .answered)
  | _=>s
 | .retry=>
  match s.renewing with
  | some (.waiting attempt till)=>if till ≤ s.now then retry attempt s else s
  | _=>s
 | .reschedule n=>
  if n ∈ s.scheduling ∧ n < s.results.length then
   schedule cfg false { s with scheduling:=s.scheduling.erase n }
  else s
 | .rejected id used=>
  match s.requests id with
  | .idle=>renewAfterUnauthorized cfg id used { s with seen:=used::s.seen }
  | _=>s
 | .headers id=>
  match s.requests id with
  | .idle=>getAiAuthHeaders id none s
  | _=>s
 | .resume id=>resume id s
 | .ending=>if s.stopped then s else { s with timer:=none,stopped:=true }.tell .ending

/-! ### What is meant -/

def Final : Event Key → Event Key → Prop
 | .ended, .ended=>False
 | .gave _, .ended=>False
 | _, _=>True

def Follows (cfg:Config) : Event Key → Event Key → Prop
 | .renewed time, .renewed time'=>time' + cfg.minInterval ≤ time
 | .started, .ending=>False
 | .resent id _ _, .resent id' _ _=>id ≠ id'
 | _, _=>True

/-- Renewals far enough apart and none after the end; a request is sent again once, with another
key. -/
structure Obeys (cfg:Config) (log:List (Event Key)) : Prop where
 follows : log.Pairwise (Follows cfg)
 another : ∀ id used key, .resent id used key ∈ log → key ≠ used

def Due (cfg:Config) (s:State Key) : Prop :=
 ∀ last, s.lastRenewedAt=some last → last+cfg.minInterval ≤ s.now

/-- A timer fires, and the chain starts, when a renewal is due; no request that needs one is
rejected after the end; and keys are new. -/
def Meets (cfg:Config) (s:State Key) : Action Key → Prop
 | .start=>s.ended.isSome ∨ s.renewing.isSome ∨ s.stopped=false ∧ Due cfg s
 | .fire=>s.ended.isSome ∨ s.renewing.isSome ∨ Due cfg s
 | .rejected _ used=>s.stopped=true → s.ended.isSome ∨ s.renewing.isSome ∨ used ≠ s.key ∨
  0 < untilRenewAllowed cfg s
 | .answer res=>∀ token expiresAt, outcome res = .ok token expiresAt → token ∉ s.seen
 | _=>True

variable {cfg:Config} {s:State Key} {e e' : Event Key} {id:ℕ}

theorem final_of_ne (h:e' ≠ .ended) : Final e e' := by
 cases e <;> cases e' <;> trivial

/-! ### Renewals apart, and requests sent again -/

/-- A key that a request was rejected with is not the key that it is sent again with. -/
def Sound (key:Key) (seen:List Key) (results:List Bool) : Request Key → Prop
 | .current used n=>used ∈ seen ∧ (results[n]? = some true → used ≠ key)
 | .older used _=>used ∈ seen ∧ used ≠ key
 | .renewed used=>used ∈ seen ∧ used ≠ key
 | .asking (some used) _=>used ∈ seen ∧ used ≠ key
 | .fresh used key=>key ≠ used
 | _=>True

structure Kept (cfg:Config) (s:State Key) : Prop where
 follows : s.log.Pairwise (Follows cfg)
 last : ∀ time, .renewed time ∈ s.log →
  ∃ last, s.lastRenewedAt=some last ∧ time ≤ last ∧ last ≤ s.now
 due : s.renewing.isSome → ∀ time, .renewed time ∈ s.log → time+cfg.minInterval ≤ s.now
 ending : .ending ∈ s.log → s.stopped=true
 timer : s.stopped=true → s.timer=none
 sound : ∀ id, Sound s.key s.seen s.results (s.requests id)
 resent : ∀ id used key, .resent id used key ∈ s.log → s.requests id = .done ∧ key ≠ used

/-- Events that the others do not look back at. -/
def Event.quiet : Event Key → Bool
 | .renewed _=>false
 | .ending=>false
 | .resent _ _ _=>false
 | _=>true

theorem mem_of_quiet {log:List (Event Key)} (he:e.quiet=true) (he':e'.quiet=false)
  (h:e' ∈ e::log) : e' ∈ log :=
 List.mem_of_ne_of_mem (fun heq=>by rw [heq,he] at he'; cases he') h

theorem Kept.tell (h:Kept cfg s) (he:e.quiet=true) (hfollows:∀ e' ∈ s.log, Follows cfg e e') :
  Kept cfg (s.tell e) where
 follows:=List.pairwise_cons.2 ⟨hfollows,h.follows⟩
 last time hmem := h.last time (mem_of_quiet he rfl hmem)
 due hrenewing time hmem := h.due hrenewing time (mem_of_quiet he rfl hmem)
 ending hmem := h.ending (mem_of_quiet he rfl hmem)
 timer:=h.timer
 sound:=h.sound
 resent id used key hmem := h.resent id used key (mem_of_quiet he rfl hmem)

theorem Kept.go (h:Kept cfg s) {request:Request Key} (hid:s.requests id ≠ .done)
  (hrequest:Sound s.key s.seen s.results request) : Kept cfg (s.go id request) where
 follows:=h.follows
 last:=h.last
 due:=h.due
 ending:=h.ending
 timer:=h.timer
 sound id' := by
  simp only [State.go]
  by_cases heq:id' = id
  · rwa [heq,Function.update_self]
  · rw [Function.update_of_ne heq]
    exact h.sound id'
 resent id' used key hmem := by
  obtain ⟨hdone,hother⟩:=h.resent id' used key hmem
  have hne:id' ≠ id:=fun heq=>hid (heq ▸ hdone)
  simp only [State.go]
  rw [Function.update_of_ne hne]
  exact ⟨hdone,hother⟩

theorem Kept.sent (h:Kept cfg s) (hdue:Due cfg s) (attempt:Attempt) :
  Kept cfg { s with renewing:=some attempt } where
 follows:=h.follows
 last:=h.last
 due _ time hmem := by
  obtain ⟨last,hlast,htime,-⟩:=h.last time hmem
  have hlong:=hdue last hlast
  dsimp only
  omega
 ending:=h.ending
 timer:=h.timer
 sound:=h.sound
 resent:=h.resent

theorem Kept.again (h:Kept cfg s) (hrenewing:s.renewing.isSome) (attempt:Attempt) :
  Kept cfg { s with renewing:=some attempt } :=
 ⟨h.follows,h.last,fun _=>h.due hrenewing,h.ending,h.timer,h.sound,h.resent⟩

theorem Kept.timed (h:Kept cfg s) {timer:Option ℤ} (htimer:s.stopped=true → timer=none) :
  Kept cfg { s with timer:=timer } :=
 ⟨h.follows,h.last,h.due,h.ending,htimer,h.sound,h.resent⟩

theorem Kept.renew (h:Kept cfg s)
  (hfree:s.ended.isSome ∨ s.renewing.isSome ∨ s.stopped=false ∧ Due cfg s) :
  Kept cfg (renew s) := by
 unfold KeyChain.renew
 split
 · exact h
 · rename_i hnew
   obtain ⟨hstopped,hdue⟩ : s.stopped=false ∧ Due cfg s:=by
    rcases hfree with hfree | hfree | hfree
    · exact absurd (.inl hfree) hnew
    · exact absurd (.inr hfree) hnew
    · exact hfree
   refine ((h.sent hdue (.sent 0)).tell (e := .started) rfl fun e' he'=>?_).tell rfl
    fun _ _=>trivial
   have hending:e' ≠ .ending:=by
    intro heq
    have hend:=h.ending (heq ▸ he')
    rw [hstopped] at hend
    cases hend
   cases e' <;> trivial

theorem Kept.settle (h:Kept cfg s) : Kept cfg (s.settle false) where
 follows:=h.follows
 last:=h.last
 due hnone := by cases hnone
 ending:=h.ending
 timer:=h.timer
 resent:=h.resent
 sound id := by
  have hsound:=h.sound id
  simp only [State.settle]
  revert hsound
  cases s.requests id with
  | current used n=>
   refine fun hused=>⟨hused.1,fun hok=>hused.2 ?_⟩
   by_cases hn:n < s.results.length
   · rwa [List.getElem?_append_left hn] at hok
   · rw [List.getElem?_append_right (by omega)] at hok
     have hfalse:=List.mem_of_getElem? hok
     simp at hfalse
  | asking used n=>cases used <;> exact fun hused=>hused
  | _=>exact fun hused=>hused

/-- A new key. -/
theorem Kept.renewed (h:Kept cfg s) (hrenewing:s.renewing.isSome) {token:Key}
  (hnew:token ∉ s.seen) (expiresAt:ℤ) :
  Kept cfg (({ s with
    key:=token
    expiresAt:=expiresAt
    lastRenewedAt:=some s.now
    seen:=token::s.seen }.tell (.renewed s.now)).settle true) where
 follows := by
  refine List.pairwise_cons.2 ⟨fun e' he'=>?_,h.follows⟩
  cases e' with
  | renewed time=>exact h.due hrenewing time he'
  | _=>trivial
 last time hmem := by
  refine ⟨s.now,rfl,?_,Int.le_refl _⟩
  rcases List.mem_cons.1 hmem with heq | hmem
  · exact Int.le_of_eq (Event.renewed.inj heq)
  · obtain ⟨last,-,htime,hnow⟩:=h.last time hmem
    exact Int.le_trans htime hnow
 due hnone := by cases hnone
 ending hmem := h.ending (List.mem_of_ne_of_mem (by simp) hmem)
 timer:=h.timer
 resent id used key hmem := h.resent id used key (List.mem_of_ne_of_mem (by simp) hmem)
 sound id := by
  have hsound:=h.sound id
  have hother {used:Key} (hused:used ∈ s.seen) : used ∈ token::s.seen ∧ used ≠ token:=
   ⟨List.mem_cons_of_mem _ hused,fun heq=>hnew (heq ▸ hused)⟩
  simp only [State.settle,State.tell]
  revert hsound
  cases s.requests id with
  | current used n=>exact fun hused=>⟨(hother hused.1).1,fun _=>(hother hused.1).2⟩
  | older used n=>exact fun hused=>hother hused.1
  | renewed used=>exact fun hused=>hother hused.1
  | asking used n=>
   cases used with
   | none=>exact fun hused=>hused
   | some used=>exact fun hused=>hother hused.1
  | _=>exact fun hused=>hused

/-- A key that a request was rejected with. -/
theorem Kept.met (h:Kept cfg s) (used:Key) : Kept cfg { s with seen:=used::s.seen } where
 follows:=h.follows
 last:=h.last
 due:=h.due
 ending:=h.ending
 timer:=h.timer
 resent:=h.resent
 sound id := by
  have hsound:=h.sound id
  dsimp only
  revert hsound
  cases s.requests id with
  | current used n=>exact fun hused=>⟨List.mem_cons_of_mem _ hused.1,hused.2⟩
  | older used n=>exact fun hused=>⟨List.mem_cons_of_mem _ hused.1,hused.2⟩
  | renewed used=>exact fun hused=>⟨List.mem_cons_of_mem _ hused.1,hused.2⟩
  | asking used n=>
   cases used with
   | none=>exact fun hused=>hused
   | some used=>exact fun hused=>⟨List.mem_cons_of_mem _ hused.1,hused.2⟩
  | _=>exact fun hused=>hused

theorem Kept.resend (h:Kept cfg s) {used key:Key} (hid:s.requests id = .fresh used key)
  (hother:key ≠ used) : Kept cfg ((s.go id .done).tell (.resent id used key)) := by
 have h' : Kept cfg (s.go id .done):=h.go (by simp [hid]) trivial
 refine ⟨List.pairwise_cons.2 ⟨fun e' he'=>?_,h'.follows⟩,
  fun time hmem=>h'.last time (List.mem_of_ne_of_mem (by simp) hmem),
  fun hrenewing time hmem=>h'.due hrenewing time (List.mem_of_ne_of_mem (by simp) hmem),
  fun hmem=>h'.ending (List.mem_of_ne_of_mem (by simp) hmem),h'.timer,h'.sound,
  fun id' used' key' hmem=>?_⟩
 · cases e' with
   | resent id' used' key' =>
    intro heq
    have hdone:=(h.resent id' used' key' he').1
    rw [←heq,hid] at hdone
    cases hdone
   | _=>trivial
 · rcases List.mem_cons.1 hmem with heq | hmem
   · obtain ⟨hid',hused,hkey⟩:=Event.resent.inj heq
     rw [hid',hused,hkey]
     exact ⟨Function.update_self _ _ _,hother⟩
   · exact h'.resent id' used' key' hmem

theorem Kept.end (h:Kept cfg s) :
  Kept cfg ({ s with timer:=none,stopped:=true }.tell .ending) where
 follows:=List.pairwise_cons.2 ⟨fun _ _=>trivial,h.follows⟩
 last time hmem := h.last time (List.mem_of_ne_of_mem (by simp) hmem)
 due hrenewing time hmem := h.due hrenewing time (List.mem_of_ne_of_mem (by simp) hmem)
 ending _ := rfl
 timer _ := rfl
 sound:=h.sound
 resent id used key hmem := h.resent id used key (List.mem_of_ne_of_mem (by simp) hmem)

theorem Kept.finish (h:Kept cfg s) (ended:AgentKeyFailure × Bool) : Kept cfg (finish ended s) := by
 unfold KeyChain.finish
 split
 · exact h
 · have h' : Kept cfg { s with ended:=some ended,timer:=none }:=
    ⟨h.follows,h.last,h.due,h.ending,fun _=>rfl,h.sound,h.resent⟩
   exact h'.tell rfl fun _ _=>trivial

theorem Kept.schedule (h:Kept cfg s) (soon:Bool) : Kept cfg (schedule cfg soon s) := by
 obtain ⟨timer,heq,htimer⟩:=schedule_eq cfg soon s
 rw [heq]
 exact h.timed htimer

theorem Kept.renewAndSchedule (h:Kept cfg s)
  (hfree:s.ended.isSome ∨ s.renewing.isSome ∨ s.stopped=false ∧ Due cfg s) :
  Kept cfg (renewAndSchedule s) := by
 unfold KeyChain.renewAndSchedule
 split
 · exact h
 · have h':=h.renew hfree
   exact ⟨h'.follows,h'.last,h'.due,h'.ending,h'.timer,h'.sound,h'.resent⟩

theorem Kept.renewOnce (h:Kept cfg s) (hrenewing:s.renewing.isSome) (attempt:ℕ)
  {res:Option (Response Key)} (hnew:∀ token expiresAt, outcome res = .ok token expiresAt →
   token ∉ s.seen) : Kept cfg (renewOnce cfg attempt res (s.tell .answered)) := by
 have h' : Kept cfg (s.tell .answered):=h.tell rfl fun _ _=>trivial
 unfold KeyChain.renewOnce
 split
 · rename_i token expiresAt hok
   exact h'.renewed hrenewing (hnew token expiresAt hok) expiresAt
 · exact (h'.finish _).settle
 · split
   · exact (h'.finish _).settle
   · split
     · exact (h'.finish _).settle
     · exact h'.again hrenewing _

theorem Kept.give (h:Kept cfg s) {used:Option Key} (hid:s.requests id ≠ .done)
  (hused:∀ key, used=some key → key ≠ s.key) : Kept cfg (give id used s) := by
 unfold KeyChain.give
 split
 · exact h.go hid trivial
 · refine (h.go hid ?_).tell rfl fun _ _=>trivial
   cases used with
   | none=>trivial
   | some key=>exact (hused key rfl).symm

theorem Kept.getAiAuthHeaders (h:Kept cfg s) {used:Option Key} (hid:s.requests id ≠ .done)
  (hused:∀ key, used=some key → key ∈ s.seen ∧ key ≠ s.key) :
  Kept cfg (getAiAuthHeaders id used s) := by
 unfold KeyChain.getAiAuthHeaders
 split
 · refine h.go hid ?_
   cases used with
   | none=>trivial
   | some key=>exact hused key rfl
 · exact h.give hid fun key hkey=>(hused key hkey).2

theorem Kept.resume (h:Kept cfg s) (id:ℕ) : Kept cfg (resume id s) := by
 have hsound:=h.sound id
 unfold KeyChain.resume
 split
 · rename_i used n hid
   rw [hid] at hsound
   have hdone:s.requests id ≠ .done:=by simp [hid]
   cases hok:s.results[n]? with
   | none=>exact h
   | some ok=>
    refine h.go hdone ?_
    cases ok with
    | false=>trivial
    | true=>exact ⟨hsound.1,hsound.2 hok⟩
 · rename_i used n hid
   rw [hid] at hsound
   split
   · refine h.go (by simp [hid]) ?_
     split
     · trivial
     · exact hsound
   · exact h
 · rename_i used hid
   rw [hid] at hsound
   exact h.getAiAuthHeaders (by simp [hid]) fun key hkey=>Option.some.inj hkey ▸ hsound
 · rename_i used n hid
   rw [hid] at hsound
   split
   · refine h.give (by simp [hid]) fun key hkey=>?_
     rw [hkey] at hsound
     exact hsound.2
   · exact h
 · rename_i used key hid
   rw [hid] at hsound
   exact h.resend hid hsound
 · exact h

theorem kept_initial (cfg:Config) (initialKey:Key) (now:ℤ) : Kept cfg (initial initialKey now) where
 follows:=List.Pairwise.nil
 last _ hmem := absurd hmem List.not_mem_nil
 due hnone := by cases hnone
 ending hmem := absurd hmem List.not_mem_nil
 timer hstopped := by cases hstopped
 sound _ := trivial
 resent _ _ _ hmem := absurd hmem List.not_mem_nil

/-! ### One request at a time, and one end -/

variable [DecidableEq Key]

def inFlight : Option Attempt → ℕ
 | some (.sent _)=>1
 | _=>0

structure Single (s:State Key) : Prop where
 flight : s.log.count .requested=s.log.count .answered+inFlight s.renewing
 final : .ended ∈ s.log → s.ended.isSome
 once : s.log.Pairwise Final

theorem Single.tell (h:Single s) (hflight:e ≠ .requested ∧ e ≠ .answered) (he:e ≠ .ended)
  (hfinal:∀ e' ∈ s.log, Final e e') : Single (s.tell e) := by
 refine ⟨?_,fun hmem=>?_,List.pairwise_cons.2 ⟨hfinal,h.once⟩⟩
 · simp only [State.tell]
   rw [List.count_cons_of_ne hflight.1,List.count_cons_of_ne hflight.2]
   exact h.flight
 · exact h.final ((List.mem_cons.1 hmem).resolve_left fun heq=>he heq.symm)

theorem Single.open (h:Single s) (hended:¬s.ended.isSome) : ∀ e' ∈ s.log, e' ≠ .ended :=
 fun _ he' heq=>hended (h.final (heq ▸ he'))

theorem Single.requested (h:Single s) (hnone:inFlight s.renewing=0) (attempt:ℕ) :
  Single ({ s with renewing:=some (.sent attempt) }.tell .requested) := by
 refine ⟨?_,fun hmem=>h.final (List.mem_of_ne_of_mem (by simp) hmem),
  List.pairwise_cons.2 ⟨fun _ _=>trivial,h.once⟩⟩
 have hflight:=h.flight
 rw [hnone,Nat.add_zero] at hflight
 simp only [State.tell]
 rw [List.count_cons_self,List.count_cons_of_ne (by simp),hflight]
 rfl

theorem Single.answered (h:Single s) {attempt:ℕ} (hsent:s.renewing=some (.sent attempt))
  {renewing:Option Attempt} (hnone:inFlight renewing=0) :
  Single { s.tell .answered with renewing:=renewing } := by
 refine ⟨?_,fun hmem=>h.final (List.mem_of_ne_of_mem (by simp) hmem),
  List.pairwise_cons.2 ⟨fun _ _=>trivial,h.once⟩⟩
 have hflight:=h.flight
 rw [hsent] at hflight
 simp only [State.tell]
 rw [List.count_cons_self,List.count_cons_of_ne (by simp),hnone,hflight]
 rfl

theorem Single.renew (h:Single s) : Single (renew s) := by
 unfold KeyChain.renew
 split
 · exact h
 · rename_i hfree
   rw [not_or,Option.not_isSome_iff_eq_none,Option.not_isSome_iff_eq_none] at hfree
   have hstarted:Single (s.tell .started):=h.tell (by simp) (by simp) fun _ _=>trivial
   exact hstarted.requested (by rw [State.tell,hfree.2]; rfl) 0

theorem Single.finish (h:Single s) (ended:AgentKeyFailure × Bool) : Single (finish ended s) := by
 unfold KeyChain.finish
 split
 · exact h
 · rename_i hended
   refine ⟨?_,fun _=>rfl,
    List.pairwise_cons.2 ⟨fun _ he'=>final_of_ne (h.open hended _ he'),h.once⟩⟩
   simp only [State.tell]
   rw [List.count_cons_of_ne (by simp),List.count_cons_of_ne (by simp)]
   exact h.flight

theorem Single.schedule (h:Single s) (soon:Bool) : Single (schedule cfg soon s) := by
 obtain ⟨timer,heq,-⟩:=schedule_eq cfg soon s
 rw [heq]
 exact ⟨h.flight,h.final,h.once⟩

theorem Single.renewAndSchedule (h:Single s) : Single (renewAndSchedule s) := by
 unfold KeyChain.renewAndSchedule
 split
 · exact h
 · exact ⟨h.renew.flight,h.renew.final,h.renew.once⟩

theorem Single.renewOnce (h:Single s) {attempt:ℕ} (hsent:s.renewing=some (.sent attempt))
  (res:Option (Response Key)) : Single (renewOnce cfg attempt res (s.tell .answered)) := by
 have hsettled (ok:Bool) : Single ((s.tell .answered).settle ok):=by
  have h' : Single { s.tell .answered with renewing:=none }:=h.answered hsent rfl
  exact ⟨h'.flight,h'.final,h'.once⟩
 unfold KeyChain.renewOnce
 split
 · have h' :=(hsettled true).tell (e := .renewed s.now) (by simp) (by simp) fun _ _=>trivial
   exact ⟨h'.flight,h'.final,h'.once⟩
 · rw [finish_settle]
   exact (hsettled false).finish _
 · split
   · rw [finish_settle]
     exact (hsettled false).finish _
   · split
     · rw [finish_settle]
       exact (hsettled false).finish _
     · exact h.answered hsent rfl

theorem Single.go (h:Single s) (id:ℕ) (request:Request Key) : Single (s.go id request) :=
 ⟨h.flight,h.final,h.once⟩

theorem Single.give (h:Single s) (id:ℕ) (used:Option Key) : Single (give id used s) := by
 unfold KeyChain.give
 split
 · exact h.go id _
 · rename_i hended
   exact (h.go id _).tell (by simp) (by simp) fun _ he'=>final_of_ne (h.open hended _ he')

theorem Single.getAiAuthHeaders (h:Single s) (id:ℕ) (used:Option Key) :
  Single (getAiAuthHeaders id used s) := by
 unfold KeyChain.getAiAuthHeaders
 split
 · exact h.go id _
 · exact h.give id used

theorem Single.renewAfterUnauthorized (h:Single s) (id:ℕ) (used:Key) :
  Single (renewAfterUnauthorized cfg id used s) := by
 unfold KeyChain.renewAfterUnauthorized
 split
 · exact h.go id _
 split
 · exact h.go id _
 split
 · exact (h.schedule true).go id _
 · exact h.renew.go id _

theorem Single.resume (h:Single s) (id:ℕ) : Single (resume id s) := by
 unfold KeyChain.resume
 split
 · rename_i used n _
   cases s.results[n]? with
   | none=>exact h
   | some ok=>exact h.go id _
 · split
   · exact h.go id _
   · exact h
 · exact h.getAiAuthHeaders id _
 · split
   · exact h.give id _
   · exact h
 · exact (h.go id _).tell (by simp) (by simp) fun _ _=>trivial
 · exact h

theorem Single.step (h:Single s) (action:Action Key) : Single (step cfg action s) := by
 cases action with
 | tick ms=>exact ⟨h.flight,h.final,h.once⟩
 | start=>exact h.renewAndSchedule
 | fire=>
  simp only [KeyChain.step]
  split
  · have h' : Single { s with timer:=none }:=⟨h.flight,h.final,h.once⟩
    exact h'.renewAndSchedule
  · exact h
 | answer res=>
  simp only [KeyChain.step]
  split
  · rename_i hsent
    exact h.renewOnce hsent res
  · exact h
 | retry=>
  simp only [KeyChain.step]
  split
  · rename_i hwaiting
    have hnone:inFlight s.renewing=0:=by rw [hwaiting]; rfl
    split
    · unfold KeyChain.retry
      split
      · refine ⟨?_,h.final,h.once⟩
        have hflight:=h.flight
        rwa [hnone] at hflight
      · exact h.requested hnone _
    · exact h
  · exact h
 | reschedule n=>
  simp only [KeyChain.step]
  split
  · have h' : Single { s with scheduling:=s.scheduling.erase n }:=⟨h.flight,h.final,h.once⟩
    exact h'.schedule false
  · exact h
 | rejected id used=>
  simp only [KeyChain.step]
  split
  · have h' : Single { s with seen:=used::s.seen }:=⟨h.flight,h.final,h.once⟩
    exact h'.renewAfterUnauthorized id used
  · exact h
 | headers id=>
  simp only [KeyChain.step]
  split
  · exact h.getAiAuthHeaders id none
  · exact h
 | resume id=>exact h.resume id
 | ending=>
  simp only [KeyChain.step]
  split
  · exact h
  · have h' : Single { s with timer:=none,stopped:=true }:=⟨h.flight,h.final,h.once⟩
    exact h'.tell (by simp) (by simp) fun _ _=>trivial

/-! ### Runs -/

theorem Kept.renewAfterUnauthorized (h:Kept cfg s) {used:Key} (hid:s.requests id = .idle)
  (hseen:used ∈ s.seen) (hmeets:s.stopped=true → s.ended.isSome ∨ s.renewing.isSome ∨
   used ≠ s.key ∨ 0 < untilRenewAllowed cfg s) :
  Kept cfg (renewAfterUnauthorized cfg id used s) := by
 have hdone:s.requests id ≠ .done:=by simp [hid]
 unfold KeyChain.renewAfterUnauthorized
 split
 · exact h.go hdone trivial
 rename_i hended
 split
 · rename_i hused
   refine h.go hdone ?_
   split
   · exact ⟨hseen,hused⟩
   · exact ⟨hseen,hused⟩
 rename_i hused
 split
 · obtain ⟨timer,heq,htimer⟩:=schedule_eq cfg true s
   rw [heq]
   exact (h.timed htimer).go hdone trivial
 rename_i hallowed
 have hfree:s.ended.isSome ∨ s.renewing.isSome ∨ s.stopped=false ∧ Due cfg s:=by
  by_cases hrenewing:s.renewing.isSome
  · exact .inr (.inl hrenewing)
  refine .inr (.inr ⟨?_,fun last hlast=>?_⟩)
  · rw [←Bool.not_eq_true]
    intro hstopped
    rcases hmeets hstopped with h | h | h | h
    · exact hended h
    · exact hrenewing h
    · exact hused h
    · exact hallowed h
  · rw [untilRenewAllowed,hlast,Option.elim_some] at hallowed
    omega
 refine (h.renew hfree).go (by rwa [renew_requests]) ?_
 rw [Sound,renew_seen,renew_results]
 exact ⟨hseen,fun hok=>by simp at hok⟩

theorem Kept.step (h:Kept cfg s) {action:Action Key} (hmeets:Meets cfg s action) :
  Kept cfg (step cfg action s) := by
 cases action with
 | tick ms=>
  refine ⟨h.follows,fun time hmem=>?_,fun hrenewing time hmem=>?_,h.ending,h.timer,h.sound,
   h.resent⟩
  · obtain ⟨last,hlast,htime,hnow⟩:=h.last time hmem
    exact ⟨last,hlast,htime,Int.le_trans hnow (by simp only [KeyChain.step]; omega)⟩
  · exact Int.le_trans (h.due hrenewing time hmem) (by simp only [KeyChain.step]; omega)
 | start=>exact h.renewAndSchedule hmeets
 | fire=>
  simp only [KeyChain.step]
  split
  · rename_i hfires
    refine (h.timed fun _=>rfl).renewAndSchedule ?_
    refine hmeets.imp_right (Or.imp_right fun hdue=>⟨?_,hdue⟩)
    rw [←Bool.not_eq_true]
    intro hstopped
    rw [h.timer hstopped] at hfires
    cases hfires
  · exact h
 | answer res=>
  simp only [KeyChain.step]
  split
  · rename_i hsent
    exact h.renewOnce (by rw [hsent]; rfl) _ hmeets
  · exact h
 | retry=>
  simp only [KeyChain.step]
  split
  · rename_i hwaiting
    split
    · unfold KeyChain.retry
      split
      · exact h.settle
      · exact (h.again (by rw [hwaiting]; rfl) _).tell rfl fun _ _=>trivial
    · exact h
  · exact h
 | reschedule n=>
  simp only [KeyChain.step]
  split
  · have h' : Kept cfg { s with scheduling:=s.scheduling.erase n }:=
     ⟨h.follows,h.last,h.due,h.ending,h.timer,h.sound,h.resent⟩
    exact h'.schedule false
  · exact h
 | rejected id used=>
  simp only [KeyChain.step]
  split
  · rename_i hid
    exact (h.met used).renewAfterUnauthorized hid List.mem_cons_self hmeets
  · exact h
 | headers id=>
  simp only [KeyChain.step]
  split
  · rename_i hid
    exact h.getAiAuthHeaders (by simp [hid]) fun key hkey=>by cases hkey
  · exact h
 | resume id=>exact h.resume id
 | ending=>
  simp only [KeyChain.step]
  split
  · exact h
  · exact h.end

/-- At most one request is under way and the chain ends once, after which no key is given; and
where timers and requests meet their conditions, renewals keep apart. -/
theorem renewals_of_chain (cfg:Config) (initialKey:Key) (now:ℤ) (actions:List (Action Key)) :
  ((run (step cfg) actions (initial initialKey now)).log.count .requested ≤
    (run (step cfg) actions (initial initialKey now)).log.count .answered+1 ∧
   (run (step cfg) actions (initial initialKey now)).log.Pairwise Final) ∧
  (Admissible (step cfg) (Meets cfg) actions (initial initialKey now) →
   Obeys cfg (run (step cfg) actions (initial initialKey now)).log) := by
 have hsingle:Single (run (step cfg) actions (initial initialKey now)):=
  run_invariant (fun _ action h=>h.step action) actions
   ⟨rfl,fun hmem=>absurd hmem List.not_mem_nil,List.Pairwise.nil⟩
 refine ⟨⟨?_,hsingle.once⟩,fun hrun=>?_⟩
 · rw [hsingle.flight]
   unfold inFlight
   split <;> omega
 · have hkept:=hrun.invariant (fun _ _ h hmeets=>Kept.step h hmeets)
    (kept_initial cfg initialKey now)
   exact ⟨hkept.follows,fun id used key hmem=>(hkept.resent id used key hmem).2⟩

def chain : Config := ⟨[2000,5000,10000,20000,30000],60000⟩

/-- A renewal at the start; a request is rejected a second before the timer is due. -/
def rejectedLate : List (Action ℕ) :=
 [.start,.answer (some ⟨200,some (1,900000),none⟩),.reschedule 0,.tick 599000,.rejected 0 1,
  .answer (some ⟨200,some (2,1499000),none⟩)]

theorem renewals_of_chain_rejected :
  Obeys chain (run (step chain) rejectedLate (initial 0 0)).log := by
 refine (renewals_of_chain chain 0 0 rejectedLate).2 ⟨?_,?_,trivial,trivial,?_,?_,trivial⟩
 · exact .inr (.inr ⟨rfl,fun last hlast=>by cases hlast⟩)
 · intro token expiresAt hok
   cases hok
   decide
 · intro hstopped
   cases hstopped
 · intro token expiresAt hok
   cases hok
   decide

/-- The timer fires a second after. -/
theorem renewals_too_close : ¬Obeys chain
  (run (step chain) (rejectedLate ++ [.tick 1000,.fire,.answer (some ⟨200,some (3,1500000),none⟩)])
   (initial 0 0)).log := by
 intro h
 have hlog:(run (step chain)
   (rejectedLate ++ [.tick 1000,.fire,.answer (some ⟨200,some (3,1500000),none⟩)])
   (initial 0 0)).log=[.renewed 600000,.answered,.requested,.started,.renewed 599000,.answered,
    .requested,.started,.renewed 0,.answered,.requested,.started] := by rfl
 have hfollows:=h.follows
 rw [hlog] at hfollows
 have hclose:(599000:ℤ)+60000 ≤ 600000:=
  (List.pairwise_cons.1 hfollows).1 (.renewed 599000) (by simp)
 omega

end L4Ide.KeyChain
