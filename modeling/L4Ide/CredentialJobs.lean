import L4Ide.EventPoller
import L4Ide.McpTransfer
import Mathlib.Logic.Function.Basic

set_option autoImplicit false

/-!
# The credentials of a cloud session

The stored record of one session, the jobs that seal credentials to its harness, and the prompts
whose files are sent. A step is what runs between two awaits.
-/
namespace L4Ide.CredentialJobs
open EventPoller (SessionState)
open McpTransfer

structure SessionFilesRecord where
 sent : String → Option String
 localFolder : Option String
 mcp : Option (List McpServerRef)

def emptyRecord : SessionFilesRecord := ⟨fun _=>none,none,none⟩

structure Tracked where
 state : Option SessionState
 lastSeq : ℕ
 publicKey : Option String
 credentialsSentTo : Option String
 mcpAuthHandled : ℕ
 mcpReported : List String
 mcpSent : String → Option String
 mcpSignIn : List String
 mcpServers : Option (List McpServerRef)

abbrev Headers := List (String × String)

structure Fetched where
 name : String
 headers : Headers
 refreshed : Bool
 deriving DecidableEq

structure Collecting where
 servers : List McpServerRef
 /-- The servers whose tokens are refreshed. -/
 reported : List String
 locals : CloudServers
 remaining : List McpServerRef
 credentials : List Fetched
 unauthorized : List String
 withoutHeaders : List String

inductive Stage
 /-- It waits for `session.json`. -/
 | listing
 | collecting (c:Collecting)
 | posting (send:List Fetched)
 /-- It is over, and still registered. -/
 | over_

structure Job where
 key : String
 stage : Stage

structure Post where
 key : String
 servers : List Fetched
 enabled : List LocalMcpServer
 owed : List String
 lastSent : String → Option Headers

inductive Prompt
 /-- It looks for the local folder, with a copy of the record from before. -/
 | locating (copy:SessionFilesRecord)
 | located (copy:SessionFilesRecord)
 | uploading (copy:SessionFilesRecord) (batch:List (String × String))

structure State where
 enabled : List LocalMcpServer
 record : Option SessionFilesRecord
 tracked : Tracked
 /-- `credentialJobs` has a job for the session. -/
 registered : Bool
 jobs : List Job
 prompts : List Prompt
 posts : List Post
 /-- The servers that the first record with servers had. -/
 pinned : Option (List McpServerRef)
 /-- The hash last recorded for each path. -/
 known : String → Option String
 /-- The keys that the session published while it ran. -/
 published : List String
 /-- The servers reported that no command answered since and that need no sign-in. -/
 owed : List String
 /-- The headers last sent for each server. -/
 lastSent : String → Option Headers

inductive Event
 | sessionState (state:SessionState) (publicKey:Option String)
 /-- The reason is `mcp`. -/
 | authRequired (server:Option String)
 | other

def live : SessionState → Bool
 | .running | .busy | .waiting=>true
 | _=>false

def isSealingPublicKey (value:String) : Bool :=
 value.toList.all isNameChar && value.length*6 / 8=32

def publishedKey (state:SessionState) (publicKey:Option String) : Option String :=
 if state = .running then publicKey.filter isSealingPublicKey else none

namespace State

def handleEvent (seq:ℕ) (event:Event) (s:State) : State :=
 match event with
 | .sessionState state publicKey=>
  match publishedKey state publicKey with
  | some key=>{ s with tracked.publicKey:=some key,published:=key::s.published }
  | none=>
   if live state then s else { s with tracked.publicKey:=none }
 | .authRequired server=>
  if s.tracked.mcpAuthHandled < seq then
   { s with
     tracked.mcpAuthHandled := seq
     tracked.credentialsSentTo := none
     tracked.mcpReported := server.elim s.tracked.mcpReported fun name=>s.tracked.mcpReported.insert name
     owed:=server.elim s.owed fun name=>s.owed.insert name }
  else s
 | .other=>s

theorem handleEvent_published {state:SessionState} {publicKey:Option String} {key:String}
  (h:publishedKey state publicKey=some key) (seq:ℕ) (s:State) :
  s.handleEvent seq (.sessionState state publicKey) =
   { s with tracked.publicKey := some key,published := key::s.published } := by
 simp only [handleEvent,h]

theorem handleEvent_unpublished {state:SessionState} {publicKey:Option String}
  (h:publishedKey state publicKey=none) (seq:ℕ) (s:State) :
  s.handleEvent seq (.sessionState state publicKey) =
   if live state then s else { s with tracked.publicKey := none } := by
 simp only [handleEvent,h]

theorem handleEvent_handled {seq:ℕ} {s:State} (h:¬ s.tracked.mcpAuthHandled < seq)
  (server:Option String) : s.handleEvent seq (.authRequired server)=s := by
 simp only [handleEvent,h,if_false]

theorem handleEvent_reported {seq:ℕ} {s:State} (h:s.tracked.mcpAuthHandled < seq)
  (server:Option String) : s.handleEvent seq (.authRequired server) =
   { s with
     tracked.mcpAuthHandled := seq
     tracked.credentialsSentTo := none
     tracked.mcpReported := server.elim s.tracked.mcpReported fun name=>s.tracked.mcpReported.insert name
     owed := server.elim s.owed fun name=>s.owed.insert name } := by
 simp only [handleEvent,h,if_true]

def takeEvent (s:State) (e:ℕ × Event) : State :=
 if e.1 ≤ s.tracked.lastSeq then s
 else { s with tracked.lastSeq:=e.1 }.handleEvent e.1 e.2

/-- The servers credentials may go to; those listed when there are none yet. -/
def trustedMcpServers (listed:List McpServerRef) (s:State) : List McpServerRef × State :=
 match s.record.bind SessionFilesRecord.mcp with
 | some trusted=>(trusted,s)
 | none=>
  (listed,
   { s with
     record:=some { s.record.getD emptyRecord with mcp:=some listed }
     pinned:=some (s.pinned.getD listed) })

/-- What is left once the next servers that no local server stands for are passed over. -/
def passForeign (locals:CloudServers) (rs:List McpServerRef) : List McpServerRef :=
 rs.dropWhile fun r=>(locals.localId r).isNone

theorem passForeign_suffix (locals:CloudServers) (rs:List McpServerRef) :
  passForeign locals rs <:+ rs := List.dropWhile_suffix _

theorem mem_passForeign {locals:CloudServers} {rs:List McpServerRef} {r:McpServerRef}
  (hr:r ∈ rs) (hlocal:(locals.localId r).isSome) : r ∈ passForeign locals rs := by
 unfold passForeign
 induction rs with
 | nil=>cases hr
 | cons q rs ih=>
  rw [List.dropWhile_cons]
  by_cases hq:(locals.localId q).isNone=true
  · rw [if_pos hq]
    cases List.mem_cons.mp hr with
    | inl heq=>
     rw [←heq,Option.isNone_iff_eq_none] at hq
     rw [hq] at hlocal
     cases hlocal
    | inr hr=>exact ih hr
  · rw [if_neg hq]
    exact hr

theorem next_passForeign {locals:CloudServers} {rs:List McpServerRef} {r:McpServerRef}
  (h:(passForeign locals rs).head? = some r) : (locals.localId r).isSome := by
 unfold passForeign at h
 induction rs with
 | nil=>cases h
 | cons q rs ih=>
  rw [List.dropWhile_cons] at h
  by_cases hq:(locals.localId q).isNone=true
  · rw [if_pos hq] at h
    exact ih h
  · rw [if_neg hq] at h
    cases h
    exact Option.isSome_iff_ne_none.mpr fun hnone=>hq (Option.isNone_iff_eq_none.mpr hnone)

end State

section Jobs
variable (localeCompare:String → String → Bool)

def collectFrom (listed:List McpServerRef) (s:State) : Stage × State :=
 let (trusted,s):=s.trustedMcpServers listed
 let servers:=listed.filter fun r=>trusted.contains r
 if servers.isEmpty then (.over_,s)
 else
  let locals:=cloudMcpServers localeCompare s.enabled
  (.collecting
   { servers
     reported:=s.tracked.mcpReported
     locals
     remaining:=State.passForeign locals servers
     credentials:=[]
     unauthorized:=[]
     withoutHeaders:=[] },
   { s with tracked.mcpReported:=[] })

def startJob (key:String) (s:State) : State :=
 match s.tracked.mcpServers with
 | none=>{ s with jobs:=s.jobs ++ [⟨key,.listing⟩] }
 | some listed=>
  let (stage,s):=collectFrom localeCompare listed s
  { s with jobs:=s.jobs ++ [⟨key,stage⟩] }

def maybeSendCredentials (s:State) : State :=
 match s.tracked.publicKey with
 | none=>s
 | some key=>
  if s.tracked.credentialsSentTo=some key ∨ s.registered=true then s
  else
   startJob localeCompare key
    { s with tracked.credentialsSentTo:=some key,registered:=true }

end Jobs

/-- An answer for the next server: its headers, or nothing when its sign-in no longer works. -/
def Collecting.answered (c:Collecting) (headers:Option Headers) : Collecting :=
 match c.remaining with
 | []=>c
 | r::rest=>
  let c:={ c with remaining:=State.passForeign c.locals rest }
  match headers with
  | none=>{ c with unauthorized:=c.unauthorized ++ [r.name] }
  | some headers=>
   if (headers.take 16).isEmpty then { c with withoutHeaders:=c.withoutHeaders ++ [r.name] }
   else
    { c with
      credentials:=c.credentials ++
       [{ name:=r.name
          headers:=headers.take 16
          refreshed:=c.reported.contains r.name }] }

section Decision
variable (headersHash:Headers → String)

/-- The servers that were reported, and for which there is nothing but the headers turned down. -/
def rejected (c:Collecting) (mcpSent:String → Option String) : List String :=
 (c.credentials.filter fun f=>
  c.reported.contains f.name && mcpSent f.name=some (headersHash f.headers)).map Fetched.name

def signIn (c:Collecting) (mcpSent:String → Option String) : List String :=
 c.unauthorized ++ (c.withoutHeaders.filter fun name=>c.reported.contains name) ++
  rejected headersHash c mcpSent

def toSend (c:Collecting) (mcpSent:String → Option String) : List Fetched :=
 c.credentials.filter fun f=>!(rejected headersHash c mcpSent).contains f.name

/-- The job once all headers are collected: what needs a sign-in is shown, the rest is posted. -/
def decideJob (key:String) (c:Collecting) (s:State) : Stage × State :=
 let shown:=signIn headersHash c s.tracked.mcpSent
 let send:=toSend headersHash c s.tracked.mcpSent
 let s:=
  { s with
    tracked.mcpSignIn := shown.eraseDups.mergeSort fun a b=>a ≤ b
    owed:=s.owed.filter fun name=>!shown.contains name }
 if send.isEmpty then (.over_,s)
 else
  (.posting send,
   { s with
     posts:=s.posts ++ [⟨key,send,s.enabled,s.owed,s.lastSent⟩]
     owed:=[] })

def recordSent (send:List Fetched) (s:State) : State :=
 { s with
   tracked.mcpSent := send.foldl (fun mcpSent f=>
    Function.update mcpSent f.name (some (headersHash f.headers))) s.tracked.mcpSent
   lastSent:=send.foldl (fun lastSent f=>
    Function.update lastSent f.name (some f.headers)) s.lastSent }

end Decision

inductive JobEvent
 /-- `session.json` is read. -/
 | listed (refs:List McpServerRef)
 | answered (headers:Option Headers)
 | collected
 | posted
 /-- What the job waits for failed. -/
 | failed
 /-- The job is no longer registered. -/
 | settled

section Steps
variable (localeCompare:String → String → Bool) (headersHash:Headers → String)

def setJob (j:ℕ) (key:String) (r:Stage × State) : State :=
 { r.2 with jobs:=r.2.jobs.set j ⟨key,r.1⟩ }

def stepJob (j:ℕ) (e:JobEvent) (s:State) : State :=
 match s.jobs[j]? with
 | none=>s
 | some job=>
  match job.stage, e with
  | .listing, .listed refs=>
   setJob j job.key
    (collectFrom localeCompare refs { s with tracked.mcpServers:=some refs })
  | .collecting c, .answered headers=>
   setJob j job.key (.collecting (c.answered headers),s)
  | .collecting c, .collected=>
   if c.remaining.isEmpty then setJob j job.key (decideJob headersHash job.key c s) else s
  | .posting send, .posted=>setJob j job.key (.over_,recordSent headersHash send s)
  | .over_, .settled=>{ s with registered:=false,jobs:=s.jobs.eraseIdx j }
  | .over_, .failed=>s
  | _, .failed=>setJob j job.key (.over_,{ s with tracked.credentialsSentTo:=none })
  | _, _=>s

/-- The files that were not sent with these contents, from the paths and hashes of those named. -/
def changedFiles (sent:String → Option String) (sources:List (Option String × String)) :
  List (String × String) :=
 sources.foldl (fun changed source=>
  match source.1 with
  | none=>changed
  | some path=>
   if sent path ≠ some source.2 ∧ (changed.lookup path).isNone then changed ++ [(path,source.2)]
   else changed) []

def recordHashes (batch:List (String × String)) (sent:String → Option String) :
  String → Option String :=
 batch.foldl (fun sent f=>Function.update sent f.1 (some f.2)) sent

inductive PromptEvent
 /-- The user picked the folder. -/
 | picked (folder:String)
 | sources (files:List (Option String × String))
 | committed
 | failed

def stepPrompt (i:ℕ) (e:PromptEvent) (s:State) : State :=
 match s.prompts[i]? with
 | none=>s
 | some prompt=>
  let continued (copy:SessionFilesRecord) (files:List (Option String × String)) : State:=
   let copy:=s.record.getD copy
   let batch:=changedFiles copy.sent files
   if batch.isEmpty then { s with prompts:=s.prompts.eraseIdx i }
   else { s with prompts:=s.prompts.set i (.uploading copy batch) }
  match prompt, e with
  | .locating copy, .picked folder=>
   { s with
     record:=some { copy with localFolder:=some folder }
     prompts:=s.prompts.set i (.located copy) }
  | .locating copy, .sources files=>continued copy files
  | .located copy, .sources files=>continued copy files
  | .uploading copy batch, .committed=>
   { s with
     record:=some { copy with sent:=recordHashes batch copy.sent }
     known:=recordHashes batch s.known
     prompts:=s.prompts.eraseIdx i }
  | _, .failed=>{ s with prompts:=s.prompts.eraseIdx i }
  | _, _=>s

inductive Action
 | stream (events:List (ℕ × Event)) (state:SessionState)
 | opened (listed:List McpServerRef) (state:SessionState)
 | signedIn (name:String)
 | configured (servers:List LocalMcpServer)
 | prompted
 | job (j:ℕ) (e:JobEvent)
 | prompt (i:ℕ) (e:PromptEvent)

def step (action:Action) (s:State) : State :=
 match action with
 | .stream events state=>
  let s:=events.foldl State.takeEvent s
  let s:={ s with tracked.state := some state }
  if live state then maybeSendCredentials localeCompare s else s
 | .opened listed state=>
  let s:={ s with tracked.mcpServers := some listed }
  let s:=(s.trustedMcpServers listed).2
  { s with tracked.lastSeq:=0,tracked.state:=some state }
 | .signedIn name=>
  let s:=
   { s with
     tracked.mcpSent := Function.update s.tracked.mcpSent name none
     tracked.mcpSignIn := s.tracked.mcpSignIn.filter fun n=>n ≠ name
     tracked.credentialsSentTo := none }
  if s.tracked.state.any live then maybeSendCredentials localeCompare s else s
 | .configured servers=>{ s with enabled:=servers }
 | .prompted=>
  { s with prompts:=s.prompts ++ [.locating (s.record.getD emptyRecord)] }
 | .job j e=>stepJob localeCompare headersHash j e s
 | .prompt i e=>stepPrompt i e s

/-- A window that has the record of a session, when it was created here the servers too. -/
def initial (record:Option SessionFilesRecord) (mcpServers:Option (List McpServerRef))
  (enabled:List LocalMcpServer) : State where
 enabled:=enabled
 record:=record
 tracked:=⟨none,0,none,none,0,[],fun _=>none,[],mcpServers⟩
 registered:=false
 jobs:=[]
 prompts:=[]
 posts:=[]
 pinned:=record.bind SessionFilesRecord.mcp
 known path := record.bind fun r=>r.sent path
 published:=[]
 owed:=[]
 lastSent _ := none

end Steps

end L4Ide.CredentialJobs
