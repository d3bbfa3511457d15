import L4Ide.AdmissibleRuns
import L4Ide.CredentialJobs

set_option autoImplicit false

/-!
# Where the credentials of a cloud session go

What holds of the stored record, the jobs and the commands posted, in every run in which no copy of
the record is out of date when it is written back and no job loses a report.
-/
namespace L4Ide.CredentialsConfined
open AdmissibleRuns McpTransfer CredentialJobs CredentialJobs.State

section Confined
variable (localeCompare:String → String → Bool) (headersHash:Headers → String)

def Stands (servers:List LocalMcpServer) (r:McpServerRef) : Prop :=
 ∃ l ∈ servers, (cloudMcpServers localeCompare servers).localId r=some l.id ∧ l.url=r.url

/-! ## The property -/

structure Kept (s:State) : Prop where
 /-- Headers are posted for servers that were pinned, and that the user still has. -/
 confined : ∀ p ∈ s.posts, ∀ f ∈ p.servers, ∃ trusted r, s.pinned=some trusted ∧ r ∈ trusted ∧
  r.name=f.name ∧ Stands localeCompare p.enabled r
 sealed : ∀ p ∈ s.posts, p.key ∈ s.published
 pin : s.record.bind SessionFilesRecord.mcp=s.pinned
 hashes : ∀ path, (s.record.bind fun r=>r.sent path)=s.known path
 one : s.jobs.length ≤ 1
 /-- A server that was reported and needs no sign-in gets refreshed headers, and other ones. -/
 answered : ∀ p ∈ s.posts, ∀ name ∈ p.owed, ∃ f ∈ p.servers, f.name=name ∧
  f.refreshed=true ∧ p.lastSent name ≠ some f.headers

/-! ## The condition -/

/-- A copy of the record that is written back has the servers and the hashes of the record, those of
the paths that are recorded with it apart. -/
def Current (s:State) (copy:SessionFilesRecord) (batch:List (String × String)) : Prop :=
 copy.mcp=s.record.bind SessionFilesRecord.mcp ∧
  ∀ path, (batch.lookup path).isNone → copy.sent path=s.record.bind fun r=>r.sent path

def Idle (s:State) : Prop := ∀ job ∈ s.jobs, ∀ c, job.stage ≠ .collecting c

def Reports (s:State) (e:ℕ × Event) : Prop :=
 s.tracked.lastSeq < e.1 ∧ s.tracked.mcpAuthHandled < e.1 ∧
  ∃ server, e.2 = .authRequired (some server)

def Met (s:State) : Action → Prop
 -- no report while a job collects headers
 | .stream events _=>(∃ e ∈ events, Reports s e) → Idle s
 -- the servers that a job collects headers for stay
 | .configured servers=>∀ job ∈ s.jobs, ∀ c, job.stage = .collecting c → ∀ r ∈ c.servers,
   (c.locals.localId r).isSome → ((cloudMcpServers localeCompare servers).localId r).isSome
 -- a job that fails has no report to answer
 | .job j .failed=>∀ job ∈ s.jobs[j]?, ∀ c, job.stage = .collecting c → c.reported=[]
 -- the servers reported are among those that headers were collected for, and what was last sent
 -- for them is not forgotten
 | .job j .collected=>∀ job ∈ s.jobs[j]?, ∀ c, job.stage = .collecting c →
   (∀ name ∈ c.reported, ∃ r ∈ c.servers, r.name=name ∧ (c.locals.localId r).isSome) ∧
   ∀ f ∈ c.credentials, f.name ∈ c.reported → s.lastSent f.name=some f.headers →
    (s.tracked.mcpSent f.name).isSome
 -- no other write of the record since the copy was taken
 | .prompt i (.picked _)=>∀ copy, s.prompts[i]? = some (.locating copy) → Current s copy []
 | .prompt i .committed=>∀ copy batch,
   s.prompts[i]? = some (.uploading copy batch) → Current s copy batch
 | _=>True

end Confined

/-! ## The invariant -/

section Invariant
variable (localeCompare:String → String → Bool) (headersHash:Headers → String)

/-- The servers of a job are pinned and stay enabled, and it has an answer for each that it passed;
no report is left over. -/
structure CollectingOk (pinned:Option (List McpServerRef)) (enabled:List LocalMcpServer)
  (mcpReported:List String) (c:Collecting) : Prop where
 pinned : ∃ trusted, pinned=some trusted ∧ ∀ r ∈ c.servers, r ∈ trusted
 enabled : ∀ r ∈ c.servers, (c.locals.localId r).isSome →
  ((cloudMcpServers localeCompare enabled).localId r).isSome
 suffix : c.remaining <:+ c.servers
 next : ∀ r, c.remaining.head? = some r → (c.locals.localId r).isSome
 credentials : ∀ f ∈ c.credentials, f.refreshed=c.reported.contains f.name ∧
  ∃ r ∈ c.servers, r.name=f.name ∧ (c.locals.localId r).isSome
 handled : ∀ r ∈ c.servers, (c.locals.localId r).isSome → r ∈ c.remaining ∨
  (∃ f ∈ c.credentials, f.name=r.name) ∨ r.name ∈ c.unauthorized ∨ r.name ∈ c.withoutHeaders
 taken : mcpReported=[]

structure Inv (s:State) : Prop extends Kept localeCompare s where
 registered : s.jobs ≠ [] → s.registered=true
 key : ∀ key, s.tracked.publicKey=some key → key ∈ s.published
 keys : ∀ job ∈ s.jobs, job.key ∈ s.published
 collecting : ∀ job ∈ s.jobs, ∀ c, job.stage = .collecting c →
  CollectingOk localeCompare s.pinned s.enabled s.tracked.mcpReported c
 owed : ∀ name ∈ s.owed, name ∈ s.tracked.mcpReported ∨
  ∃ job ∈ s.jobs, ∃ c, job.stage = .collecting c ∧ name ∈ c.reported
 remembered : ∀ name hash, s.tracked.mcpSent name=some hash →
  ∃ headers, s.lastSent name=some headers ∧ hash=headersHash headers

theorem inv_initial (record:Option SessionFilesRecord)
  (mcpServers:Option (List McpServerRef)) (enabled:List LocalMcpServer) :
  Inv localeCompare headersHash (initial record mcpServers enabled) where
 confined p hp := by cases hp
 sealed p hp := by cases hp
 pin:=rfl
 hashes _ := rfl
 one:=Nat.zero_le 1
 answered p hp := by cases hp
 registered h := absurd rfl h
 key key h := by cases h
 keys job h := by cases h
 collecting job h := by cases h
 owed name h := by cases h
 remembered name hash h := by cases h

variable {localeCompare headersHash}

/-! ## The record -/

variable {s:State}

theorem pinned_trusted (h:Kept localeCompare s) (listed:List McpServerRef) :
  (s.trustedMcpServers listed).2.pinned=some (s.trustedMcpServers listed).1 := by
 unfold State.trustedMcpServers
 have hpin:=h.pin
 cases hmcp:s.record.bind SessionFilesRecord.mcp with
 | some trusted=>exact hpin.symm.trans hmcp
 | none=>
  rw [hmcp] at hpin
  change some (s.pinned.getD listed)=some listed
  rw [←hpin]
  rfl

theorem Inv.trusted (h:Inv localeCompare headersHash s) (listed:List McpServerRef) :
  Inv localeCompare headersHash (s.trustedMcpServers listed).2 := by
 have hpin:=h.pin
 unfold State.trustedMcpServers
 cases hmcp:s.record.bind SessionFilesRecord.mcp with
 | some trusted=>exact h
 | none=>
  rw [hmcp] at hpin
  have hnone:∀ {Q:Prop} {trusted:List McpServerRef}, s.pinned=some trusted → Q:=by
   intro Q trusted hsome
   rw [hsome] at hpin
   cases hpin
  refine { h with confined:=?_,pin:=?_,hashes:=?_,collecting:=?_ }
  · intro p hp f hf
    have ⟨trusted,r,hsome,_⟩:=h.confined p hp f hf
    exact hnone hsome
  · change some listed=some (s.pinned.getD listed)
    rw [←hpin]
    rfl
  · intro path
    rw [←h.hashes path]
    cases s.record with
    | none=>rfl
    | some r=>rfl
  · intro job hjob c hc
    have ⟨trusted,hsome,_⟩:=(h.collecting job hjob c hc).pinned
    exact hnone hsome

theorem trustedMcpServers_keeps (listed:List McpServerRef) (s:State) :
  (s.trustedMcpServers listed).2.jobs=s.jobs ∧
   (s.trustedMcpServers listed).2.tracked=s.tracked ∧
   (s.trustedMcpServers listed).2.registered=s.registered ∧
   (s.trustedMcpServers listed).2.published=s.published := by
 unfold State.trustedMcpServers
 cases s.record.bind SessionFilesRecord.mcp with
 | some trusted=>exact ⟨rfl,rfl,rfl,rfl⟩
 | none=>exact ⟨rfl,rfl,rfl,rfl⟩

theorem jobs_collectFrom (listed:List McpServerRef) (s:State) :
  (collectFrom localeCompare listed s).2.jobs=s.jobs := by
 have ⟨hjobs,_⟩:=trustedMcpServers_keeps listed s
 unfold collectFrom
 simp only
 split <;> exact hjobs

/-! ## Events -/

theorem Inv.handleEvent (h:Inv localeCompare headersHash s) {seq:ℕ} {event:Event}
  (hidle:s.tracked.mcpAuthHandled < seq → (∃ server, event = .authRequired (some server)) →
   Idle s) : Inv localeCompare headersHash (s.handleEvent seq event) := by
 cases event with
 | sessionState state publicKey=>
  cases hkey:publishedKey state publicKey with
  | some key=>
   rw [handleEvent_published hkey]
   refine { h with sealed:=?_,key:=?_,keys:=?_ }
   · intro p hp
     exact List.mem_cons_of_mem _ (h.sealed p hp)
   · intro k hk
     exact List.mem_cons.mpr (Or.inl (Option.some.inj hk).symm)
   · intro job hjob
     exact List.mem_cons_of_mem _ (h.keys job hjob)
  | none=>
   rw [handleEvent_unpublished hkey]
   by_cases hlive:live state=true
   · rw [if_pos hlive]
     exact h
   · rw [if_neg hlive]
     refine { h with key:=?_ }
     intro k hk
     cases hk
 | authRequired server=>
  by_cases hseq:s.tracked.mcpAuthHandled < seq
  · rw [handleEvent_reported hseq]
    cases server with
    | none=>exact { h with }
    | some server=>
     have hidle:=hidle hseq ⟨server,rfl⟩
     refine { h with collecting:=?_,owed:=?_ }
     · intro job hjob c hc
       exact absurd hc (hidle job hjob c)
     · intro name hname
       apply Or.inl
       cases List.mem_insert_iff.mp hname with
       | inl heq=>exact heq ▸ List.mem_insert_self
       | inr hmem=>
        apply List.mem_insert_of_mem
        cases h.owed name hmem with
        | inl hreported=>exact hreported
        | inr hjob=>
         have ⟨job,hjob,c,hc,_⟩:=hjob
         exact absurd hc (hidle job hjob c)
  · rw [handleEvent_handled hseq]
    exact h
 | other=>exact h

/-- An event leaves the jobs, and only raises the number of the reports that are handled. -/
theorem handleEvent_keeps (s:State) (seq:ℕ) (event:Event) :
  (s.handleEvent seq event).jobs=s.jobs ∧
   s.tracked.mcpAuthHandled ≤ (s.handleEvent seq event).tracked.mcpAuthHandled ∧
   (s.handleEvent seq event).tracked.lastSeq=s.tracked.lastSeq := by
 cases event with
 | sessionState state publicKey=>
  cases hkey:publishedKey state publicKey with
  | some key=>
   rw [handleEvent_published hkey]
   exact ⟨rfl,le_refl _,rfl⟩
  | none=>
   rw [handleEvent_unpublished hkey]
   by_cases hlive:live state=true
   · rw [if_pos hlive]
     exact ⟨rfl,le_refl _,rfl⟩
   · rw [if_neg hlive]
     exact ⟨rfl,le_refl _,rfl⟩
 | authRequired server=>
  by_cases hseq:s.tracked.mcpAuthHandled < seq
  · rw [handleEvent_reported hseq]
    exact ⟨rfl,le_of_lt hseq,rfl⟩
  · rw [handleEvent_handled hseq]
    exact ⟨rfl,le_refl _,rfl⟩
 | other=>exact ⟨rfl,le_refl _,rfl⟩

theorem Inv.takeEvents {events:List (ℕ × Event)}
  (h:Inv localeCompare headersHash s) (hidle:(∃ e ∈ events, Reports s e) → Idle s) :
  Inv localeCompare headersHash (events.foldl State.takeEvent s) := by
 induction events generalizing s with
 | nil=>exact h
 | cons e events ih=>
  rw [List.foldl_cons]
  by_cases hseq:e.1 ≤ s.tracked.lastSeq
  · have htake:s.takeEvent e=s:=by
     unfold State.takeEvent
     rw [if_pos hseq]
    rw [htake]
    apply ih h
    intro hreports
    have ⟨e', he', hreports⟩:=hreports
    exact hidle ⟨e', List.mem_cons_of_mem _ he', hreports⟩
  · have htake:s.takeEvent e = { s with tracked.lastSeq:=e.1 }.handleEvent e.1 e.2:=by
     unfold State.takeEvent
     rw [if_neg hseq]
    have hseq:s.tracked.lastSeq < e.1:=by omega
    rw [htake]
    have hseen:Inv localeCompare headersHash { s with tracked.lastSeq:=e.1 }:={ h with }
    apply ih
    · apply hseen.handleEvent
      intro hhandled hserver
      exact hidle ⟨e,List.mem_cons_self,hseq,hhandled,hserver⟩
    · intro hreports
      have ⟨e', he', hlast,hhandled,hserver⟩:=hreports
      have ⟨hjobs,hmono,hsame⟩:=
       handleEvent_keeps { s with tracked.lastSeq:=e.1 } e.1 e.2
      rw [hsame] at hlast
      have hlast:e.1 < e'.1:=hlast
      have hmono:s.tracked.mcpAuthHandled ≤ _:=hmono
      have hidle:Idle s:=
       hidle ⟨e', List.mem_cons_of_mem _ he', by omega,by omega,hserver⟩
      unfold Idle
      rw [hjobs]
      exact hidle

/-! ## The start of a job -/

theorem owed_reported (h:Inv localeCompare headersHash s) (hidle:Idle s) :
  ∀ name ∈ s.owed, name ∈ s.tracked.mcpReported := by
 intro name hname
 cases h.owed name hname with
 | inl hreported=>exact hreported
 | inr hjob=>
  have ⟨job,hjob,c,hc,_⟩:=hjob
  exact absurd hc (hidle job hjob c)

theorem Inv.idle (h:Inv localeCompare headersHash s)
  (howed:∀ name ∈ s.owed, name ∈ s.tracked.mcpReported) (hregistered:s.registered=true)
  (job:Job) (hkey:job.key ∈ s.published) (hstage:∀ c, job.stage ≠ .collecting c) :
  Inv localeCompare headersHash { s with jobs:=[job] } :=
 { h with
   one:=le_refl 1
   registered:=fun _=>hregistered
   keys:=fun _ hjob=>List.mem_singleton.mp hjob ▸ hkey
   collecting:=fun _ hjob c hc=>absurd (List.mem_singleton.mp hjob ▸ hc) (hstage c)
   owed:=fun name hname=>Or.inl (howed name hname) }

theorem Inv.collect (h:Inv localeCompare headersHash s) (hidle:Idle s)
  (hregistered:s.registered=true) {key:String} (hkey:key ∈ s.published)
  (listed:List McpServerRef) :
  Inv localeCompare headersHash { (collectFrom localeCompare listed s).2 with
   jobs := [⟨key,(collectFrom localeCompare listed s).1⟩] } := by
 have ht:=h.trusted listed
 have hpinned:=pinned_trusted h.toKept listed
 have hsame:=trustedMcpServers_keeps listed s
 unfold collectFrom
 generalize s.trustedMcpServers listed=trusted at ht hpinned hsame
 have ⟨trusted,t⟩:=trusted
 have ⟨hjobs,htracked,hreg,hpub⟩:=hsame
 have hjobs:t.jobs=s.jobs:=hjobs
 have howed:=owed_reported ht fun job hjob=>hidle job (hjobs ▸ hjob)
 by_cases hempty:(listed.filter fun r=>trusted.contains r).isEmpty=true
 · simp only [hempty,if_true]
   apply ht.idle howed (hreg.trans hregistered) ⟨key,.over_⟩ (hpub.symm ▸ hkey)
   intro c hc
   cases hc
 · simp only [hempty]
   have hservers:∀ r ∈ listed.filter (fun r=>trusted.contains r), r ∈ trusted:=by
    intro r hr
    exact List.contains_iff_mem.mp (List.mem_filter.mp hr).2
   refine { ht with
    one:=le_refl 1
    registered:=fun _=>hreg.trans hregistered
    keys:=fun _ hjob=>by
     rw [List.mem_singleton.mp hjob]
     exact hpub.symm ▸ hkey
    collecting:=?_
    owed:=fun name hname=>Or.inr ⟨_,List.mem_singleton_self _,_,rfl,howed name hname⟩ }
   intro job hjob c hc
   rw [List.mem_singleton.mp hjob] at hc
   cases hc
   constructor
   · exact ⟨trusted,hpinned,hservers⟩
   · intro r _ hlocal
     exact hlocal
   · exact passForeign_suffix _ _
   · intro r hr
     exact next_passForeign hr
   · intro f hf
     cases hf
   · intro r hr hlocal
     exact Or.inl (mem_passForeign hr hlocal)
   · rfl

theorem Inv.startJob (h:Inv localeCompare headersHash s) (hnone:s.jobs=[])
  (hregistered:s.registered=true) {key:String} (hkey:key ∈ s.published) :
  Inv localeCompare headersHash (startJob localeCompare key s) := by
 have hidle:Idle s:=by
  intro job hjob
  rw [hnone] at hjob
  cases hjob
 unfold CredentialJobs.startJob
 cases s.tracked.mcpServers with
 | none=>
  rw [hnone]
  apply h.idle (owed_reported h hidle) hregistered ⟨key,.listing⟩ hkey
  intro c hc
  cases hc
 | some listed=>
  change Inv localeCompare headersHash { (collectFrom localeCompare listed s).2 with
   jobs:=(collectFrom localeCompare listed s).2.jobs ++
    [⟨key,(collectFrom localeCompare listed s).1⟩] }
  rw [jobs_collectFrom,hnone]
  exact h.collect hidle hregistered hkey listed

theorem Inv.maybeSendCredentials (h:Inv localeCompare headersHash s) :
  Inv localeCompare headersHash (maybeSendCredentials localeCompare s) := by
 unfold CredentialJobs.maybeSendCredentials
 cases hpublic:s.tracked.publicKey with
 | none=>exact h
 | some key=>
  have hkey:=h.key key hpublic
  by_cases hsent:s.tracked.credentialsSentTo=some key ∨ s.registered=true
  · simp only [hsent,if_true]
    exact h
  · simp only [hsent,if_false]
    rw [not_or] at hsent
    have hnone:s.jobs=[]:=by
     by_contra hjobs
     exact hsent.2 (h.registered hjobs)
    have hstarted:Inv localeCompare headersHash
      { s with tracked.credentialsSentTo:=some key,registered:=true } :=
     { h with registered:=fun _=>rfl }
    exact hstarted.startJob hnone rfl hkey

/-! ## The steps of a job -/

theorem CollectingOk.answered {pinned:Option (List McpServerRef)}
  {enabled:List LocalMcpServer} {mcpReported:List String} {c:Collecting}
  (h:CollectingOk localeCompare pinned enabled mcpReported c) (headers:Option Headers) :
  CollectingOk localeCompare pinned enabled mcpReported (c.answered headers) := by
 unfold Collecting.answered
 cases hremaining:c.remaining with
 | nil=>exact h
 | cons r rest=>
  have hlocal:(c.locals.localId r).isSome:=h.next r (by rw [hremaining]; rfl)
  have hsuffix:r::rest <:+ c.servers:=hremaining ▸ h.suffix
  have hr:r ∈ c.servers:=hsuffix.subset List.mem_cons_self
  have hrest:passForeign c.locals rest <:+ c.servers:=
   (passForeign_suffix c.locals rest).trans ((List.suffix_cons r rest).trans hsuffix)
  have hleft:∀ q ∈ c.servers, (c.locals.localId q).isSome → q=r ∨
    q ∈ passForeign c.locals rest ∨ (∃ f ∈ c.credentials, f.name=q.name) ∨
     q.name ∈ c.unauthorized ∨ q.name ∈ c.withoutHeaders := by
   intro q hq hqlocal
   have hhandled:=h.handled q hq hqlocal
   rw [hremaining,List.mem_cons,or_assoc] at hhandled
   exact hhandled.imp id fun hq=>hq.imp (fun hq=>mem_passForeign hq hqlocal) id
  cases headers with
  | none=>
   refine { h with suffix:=hrest,next:=fun q hq=>next_passForeign hq,handled:=?_ }
   intro q hq hqlocal
   have hleft:=hleft q hq hqlocal
   grind
  | some headers=>
   by_cases hempty:(headers.take 16).isEmpty=true
   · simp only [hempty,if_true]
     refine { h with suffix:=hrest,next:=fun q hq=>next_passForeign hq,handled:=?_ }
     intro q hq hqlocal
     have hleft:=hleft q hq hqlocal
     grind
   · simp only [hempty,Bool.false_eq_true,if_false]
     refine { h with
      suffix:=hrest
      next:=fun q hq=>next_passForeign hq
      credentials:=?_
      handled:=?_ }
     · intro f hf
       cases List.mem_append.mp hf with
       | inl hold=>exact h.credentials f hold
       | inr hnew=>
        rw [List.mem_singleton.mp hnew]
        exact ⟨rfl,r,hr,rfl,hlocal⟩
     · intro q hq hqlocal
       cases hleft q hq hqlocal with
       | inl heq=>
        exact Or.inr (Or.inl ⟨_,List.mem_append_right _ (List.mem_singleton_self _),heq ▸ rfl⟩)
       | inr hq=>
        apply hq.imp_right
        apply Or.imp_left
        intro hfetched
        have ⟨f,hf,hname⟩:=hfetched
        exact ⟨f,List.mem_append_left _ hf,hname⟩

theorem eq_singleton (h:Inv localeCompare headersHash s) {j:ℕ} {job:Job}
  (hjob:s.jobs[j]? = some job) : j=0 ∧ s.jobs=[job] := by
 have hone:=h.one
 have ⟨hlt,heq⟩:=List.getElem?_eq_some_iff.mp hjob
 have hj:j=0:=by omega
 have hlength:s.jobs.length=1:=by omega
 have ⟨job', hjobs⟩:=List.length_eq_one_iff.mp hlength
 subst hj
 rw [hjobs] at hjob
 cases hjob
 exact ⟨rfl,hjobs⟩

section Decision
variable {c:Collecting} {mcpSent:String → Option String}

theorem mem_rejected {name:String} :
  name ∈ rejected headersHash c mcpSent ↔ ∃ f ∈ c.credentials, f.name=name ∧
   f.name ∈ c.reported ∧ mcpSent f.name=some (headersHash f.headers) := by
 unfold rejected
 simp only [List.mem_map,List.mem_filter,Bool.and_eq_true,List.contains_iff_mem,
  decide_eq_true_eq]
 grind

theorem mem_toSend {f:Fetched} :
  f ∈ toSend headersHash c mcpSent ↔ f ∈ c.credentials ∧
   f.name ∉ rejected headersHash c mcpSent := by
 unfold toSend
 simp only [List.mem_filter,Bool.not_eq_true', List.contains_eq_mem,decide_eq_false_iff_not]

theorem mem_signIn {name:String} :
  name ∈ signIn headersHash c mcpSent ↔ name ∈ c.unauthorized ∨
   (name ∈ c.withoutHeaders ∧ name ∈ c.reported) ∨ name ∈ rejected headersHash c mcpSent := by
 unfold signIn
 simp only [List.mem_append,List.mem_filter,List.contains_iff_mem,or_assoc]

theorem jobs_decideJob (key:String) (s:State) :
  (decideJob headersHash key c s).2.jobs=s.jobs := by
 unfold decideJob
 simp only
 split <;> rfl

/-- A server that was reported, and whose headers were asked for, is shown or sent headers. -/
theorem shown_or_sent {pinned:Option (List McpServerRef)} {enabled:List LocalMcpServer}
  {mcpReported:List String}
  (h:CollectingOk localeCompare pinned enabled mcpReported c) (hdone:c.remaining=[])
  {name:String} (hreported:name ∈ c.reported)
  (hlocal:∃ r ∈ c.servers, r.name=name ∧ (c.locals.localId r).isSome) :
  name ∈ signIn headersHash c mcpSent ∨
   ∃ f ∈ toSend headersHash c mcpSent, f.name=name := by
 have ⟨r,hr,hname,hr'⟩:=hlocal
 have hhandled:=h.handled r hr hr'
 rw [hdone,hname] at hhandled
 by_cases hrejected:name ∈ rejected headersHash c mcpSent
 · exact Or.inl (mem_signIn.mpr (Or.inr (Or.inr hrejected)))
 · rcases hhandled with hnil | hfetched | hunauthorized | hwithout
   · cases hnil
   · have ⟨f,hf,hfname⟩:=hfetched
     exact Or.inr ⟨f,mem_toSend.mpr ⟨hf,hfname ▸ hrejected⟩,hfname⟩
   · exact Or.inl (mem_signIn.mpr (Or.inl hunauthorized))
   · exact Or.inl (mem_signIn.mpr (Or.inr (Or.inl ⟨hwithout,hreported⟩)))

end Decision

theorem Inv.decide (h:Inv localeCompare headersHash s) {key:String}
  {c:Collecting} (hjobs:s.jobs=[⟨key,.collecting c⟩]) (hdone:c.remaining=[])
  (hreported:∀ name ∈ c.reported,
   ∃ r ∈ c.servers, r.name=name ∧ (c.locals.localId r).isSome)
  (hremember:∀ f ∈ c.credentials, f.name ∈ c.reported → s.lastSent f.name=some f.headers →
   (s.tracked.mcpSent f.name).isSome) :
  Inv localeCompare headersHash { (decideJob headersHash key c s).2 with
   jobs := [⟨key,(decideJob headersHash key c s).1⟩] } := by
 have hmem:(⟨key,.collecting c⟩ : Job) ∈ s.jobs:=by
  rw [hjobs]
  exact List.mem_singleton_self _
 have hregistered:=h.registered (List.ne_nil_of_mem hmem)
 have hkey:=h.keys _ hmem
 have hc:=h.collecting _ hmem c rfl
 have howed:∀ name ∈ s.owed, name ∈ c.reported:=by
  intro name hname
  cases h.owed name hname with
  | inl hin=>
   rw [hc.taken] at hin
   cases hin
  | inr hjob=>
   have ⟨job,hjob,c', hc', hin⟩:=hjob
   rw [hjobs,List.mem_singleton] at hjob
   rw [hjob] at hc'
   cases hc'
   exact hin
 have hshown:∀ name ∈ s.owed, name ∈ signIn headersHash c s.tracked.mcpSent ∨
   ∃ f ∈ toSend headersHash c s.tracked.mcpSent, f.name=name := by
  intro name hname
  exact shown_or_sent hc hdone (howed name hname) (hreported name (howed name hname))
 have hleft:∀ name ∈ s.owed.filter (fun name=>
   !(signIn headersHash c s.tracked.mcpSent).contains name),
    name ∈ s.owed ∧ ∃ f ∈ toSend headersHash c s.tracked.mcpSent, f.name=name := by
  intro name hname
  have ⟨hin,hout⟩:=List.mem_filter.mp hname
  cases hshown name hin with
  | inl hin' =>simp [hin'] at hout
  | inr hsent=>exact ⟨hin,hsent⟩
 have hdecided:Inv localeCompare headersHash { s with
   tracked.mcpSignIn :=
    (signIn headersHash c s.tracked.mcpSent).eraseDups.mergeSort fun a b=>a ≤ b
   owed:=s.owed.filter fun name=>
    !(signIn headersHash c s.tracked.mcpSent).contains name } :=
  { h with owed:=fun name hname=>h.owed name (hleft name hname).1 }
 unfold decideJob
 by_cases hempty:(toSend headersHash c s.tracked.mcpSent).isEmpty=true
 · simp only [hempty,if_true]
   apply hdecided.idle _ hregistered ⟨key,.over_⟩ hkey nofun
   intro name hname
   have ⟨_,f,hf,_⟩:=hleft name hname
   rw [List.isEmpty_iff.mp hempty] at hf
   cases hf
 · simp only [hempty,Bool.false_eq_true,if_false]
   refine { hdecided with
    confined:=?_
    sealed:=?_
    one:=le_refl 1
    answered:=?_
    registered:=fun _=>hregistered
    keys:=?_
    collecting:=?_
    owed:=fun name hname=>by cases hname }
   · intro p hp
     cases List.mem_append.mp hp with
     | inl hold=>exact h.confined p hold
     | inr hnew=>
      rw [List.mem_singleton.mp hnew]
      intro f hf
      have ⟨_,r,hr,hname,hlocal⟩:=hc.credentials f (mem_toSend.mp hf).1
      have ⟨trusted,htrusted,hall⟩:=hc.pinned
      have ⟨id,hid⟩:=Option.isSome_iff_exists.mp (hc.enabled r hr hlocal)
      have ⟨_,l,hl,hlid,hurl,_⟩:=exists_of_localId hid
      exact ⟨trusted,r,htrusted,hall r hr,hname,l,hl,hlid ▸ hid,hurl⟩
   · intro p hp
     cases List.mem_append.mp hp with
     | inl hold=>exact h.sealed p hold
     | inr hnew=>
      rw [List.mem_singleton.mp hnew]
      exact hkey
   · intro p hp
     cases List.mem_append.mp hp with
     | inl hold=>exact h.answered p hold
     | inr hnew=>
      rw [List.mem_singleton.mp hnew]
      intro name hname
      have ⟨hin,f,hf,hfname⟩:=hleft name hname
      have ⟨hfetched,hnot⟩:=mem_toSend.mp hf
      have hcontains:f.name ∈ c.reported:=hfname ▸ howed name hin
      refine ⟨f,hf,hfname, ?_, ?_⟩
      · rw [(hc.credentials f hfetched).1]
        exact List.contains_iff_mem.mpr hcontains
      · intro hlast
        have hlast:s.lastSent f.name=some f.headers:=by
         rw [hfname]
         exact hlast
        have ⟨hash,hhash⟩:=Option.isSome_iff_exists.mp (hremember f hfetched hcontains hlast)
        have ⟨headers,hheaders,heq⟩:=h.remembered f.name hash hhash
        rw [hlast] at hheaders
        cases hheaders
        exact hnot (mem_rejected.mpr ⟨f,hfetched,rfl,hcontains,heq ▸ hhash⟩)
   · intro job hjob
     rw [List.mem_singleton.mp hjob]
     exact hkey
   · intro job hjob c' hc'
     rw [List.mem_singleton.mp hjob] at hc'
     cases hc'

def Remembers (headersHash:Headers → String) (mcpSent:String → Option String)
  (lastSent:String → Option Headers) : Prop :=
 ∀ name hash, mcpSent name=some hash →
  ∃ headers, lastSent name=some headers ∧ hash=headersHash headers

theorem Remembers.update {mcpSent:String → Option String} {lastSent:String → Option Headers}
  (h:Remembers headersHash mcpSent lastSent) (name:String) (headers:Headers) :
  Remembers headersHash (Function.update mcpSent name (some (headersHash headers)))
   (Function.update lastSent name (some headers)) := by
 intro other hash hhash
 by_cases heq:other=name
 · rw [heq,Function.update_self] at hhash
   exact ⟨headers,by rw [heq,Function.update_self],(Option.some.inj hhash).symm⟩
 · rw [Function.update_of_ne heq] at hhash
   rw [Function.update_of_ne heq]
   exact h other hash hhash

theorem Inv.recordSent (h:Inv localeCompare headersHash s) (send:List Fetched) :
  Inv localeCompare headersHash (recordSent headersHash send s) := by
 have hfold:∀ {mcpSent lastSent}, Remembers headersHash mcpSent lastSent →
   Remembers headersHash (send.foldl (fun mcpSent f=>
    Function.update mcpSent f.name (some (headersHash f.headers))) mcpSent)
    (send.foldl (fun lastSent f=>Function.update lastSent f.name (some f.headers)) lastSent) := by
  induction send with
  | nil=>
   intro _ _ hmaps
   exact hmaps
  | cons f send ih=>
   intro _ _ hmaps
   exact ih (hmaps.update f.name f.headers)
 exact { h with remembered:=hfold h.remembered }

theorem reported_answered (c:Collecting) (headers:Option Headers) :
  (c.answered headers).reported=c.reported := by
 unfold Collecting.answered
 cases c.remaining with
 | nil=>rfl
 | cons r rest=>
  cases headers with
  | none=>rfl
  | some headers=>
   simp only
   split <;> rfl

theorem setJob_single {key:String} {r:Stage × State} {job:Job} (h:r.2.jobs=[job]) :
  setJob 0 key r = { r.2 with jobs:=[⟨key,r.1⟩] } := by
 unfold setJob
 rw [h]
 rfl

theorem Inv.stepJob (h:Inv localeCompare headersHash s) {j:ℕ} {e:JobEvent}
  (hmet:Met localeCompare s (.job j e)) :
  Inv localeCompare headersHash (stepJob localeCompare headersHash j e s) := by
 unfold CredentialJobs.stepJob
 cases hjob:s.jobs[j]? with
 | none=>exact h
 | some job=>
  have ⟨hj,hjobs⟩:=eq_singleton h hjob
  subst hj
  have hmem:job ∈ s.jobs:=by
   rw [hjobs]
   exact List.mem_singleton_self _
  have hregistered:=h.registered (List.ne_nil_of_mem hmem)
  have hkey:=h.keys job hmem
  have ⟨key,stage⟩:=job
  -- the job is over, and no report is left that it took
  have hover:∀ {s' : State}, Inv localeCompare headersHash s' → s'.jobs=s.jobs →
    s'.registered=true → key ∈ s'.published → (∀ name ∈ s'.owed, name ∈ s'.tracked.mcpReported) →
    Inv localeCompare headersHash (setJob 0 key (.over_,s')) := by
   intro s' hs' hsame hreg hpub howed
   rw [setJob_single (hsame.trans hjobs)]
   exact hs'.idle howed hreg ⟨key,.over_⟩ hpub nofun
  have hfailed:Inv localeCompare headersHash { s with tracked.credentialsSentTo:=none }:=
   { h with }
  cases stage with
  | listing=>
   have hidle:Idle s:=by
    intro job hjob c hc
    rw [hjobs,List.mem_singleton] at hjob
    rw [hjob] at hc
    cases hc
   cases e with
   | listed refs=>
    have hlisted:Inv localeCompare headersHash
      { s with tracked.mcpServers:=some refs } := { h with }
    change Inv localeCompare headersHash
     (setJob 0 key (collectFrom localeCompare refs { s with tracked.mcpServers:=some refs }))
    have hsame:=@jobs_collectFrom localeCompare refs
     { s with tracked.mcpServers:=some refs }
    rw [setJob_single (hsame.trans hjobs)]
    exact hlisted.collect hidle hregistered hkey refs
   | failed=>exact hover hfailed rfl hregistered hkey (owed_reported hfailed hidle)
   | answered headers=>exact h
   | collected=>exact h
   | posted=>exact h
   | settled=>exact h
  | collecting c=>
   have hc:=h.collecting _ hmem c rfl
   cases e with
   | answered headers=>
    change Inv localeCompare headersHash (setJob 0 key (.collecting (c.answered headers),s))
    rw [setJob_single hjobs]
    refine { h with
     one:=le_refl 1
     registered:=fun _=>hregistered
     keys:=?_
     collecting:=?_
     owed:=?_ }
    · intro job hjob
      rw [List.mem_singleton.mp hjob]
      exact hkey
    · intro job hjob c' hc'
      rw [List.mem_singleton.mp hjob] at hc'
      cases hc'
      exact hc.answered headers
    · intro name hname
      apply (h.owed name hname).imp_right
      intro htaken
      have ⟨job,hjob,c', hc', hin⟩:=htaken
      rw [hjobs,List.mem_singleton] at hjob
      rw [hjob] at hc'
      cases hc'
      refine ⟨_,List.mem_singleton_self _,_,rfl, ?_⟩
      rw [reported_answered]
      exact hin
   | collected=>
    by_cases hdone:c.remaining.isEmpty=true
    · simp only [hdone,if_true]
      have ⟨hreported,hremember⟩:=hmet _ hjob c rfl
      rw [setJob_single ((jobs_decideJob key s).trans hjobs)]
      exact h.decide hjobs (List.isEmpty_iff.mp hdone) hreported hremember
    · simp only [hdone]
      exact h
   | failed=>
    have hnone:c.reported=[]:=hmet _ hjob c rfl
    apply hover hfailed rfl hregistered hkey
    intro name hname
    cases h.owed name hname with
    | inl hin=>exact hin
    | inr htaken=>
     have ⟨job,hjob,c', hc', hin⟩:=htaken
     rw [hjobs,List.mem_singleton] at hjob
     rw [hjob] at hc'
     cases hc'
     rw [hnone] at hin
     cases hin
   | listed refs=>exact h
   | posted=>exact h
   | settled=>exact h
  | posting send=>
   have hidle:Idle s:=by
    intro job hjob c hc
    rw [hjobs,List.mem_singleton] at hjob
    rw [hjob] at hc
    cases hc
   cases e with
   | posted=>
    have hsent:=h.recordSent send
    exact hover hsent rfl hregistered hkey (owed_reported hsent hidle)
   | failed=>exact hover hfailed rfl hregistered hkey (owed_reported hfailed hidle)
   | listed refs=>exact h
   | answered headers=>exact h
   | collected=>exact h
   | settled=>exact h
  | over_=>
   cases e with
   | settled=>
    change Inv localeCompare headersHash
     { s with registered:=false,jobs:=s.jobs.eraseIdx 0 }
    rw [hjobs]
    refine { h with
     one:=Nat.zero_le 1
     registered:=fun hne=>absurd rfl hne
     keys:=fun _ hjob=>by cases hjob
     collecting:=fun _ hjob=>by cases hjob
     owed:=?_ }
    intro name hname
    apply Or.inl
    apply owed_reported h _ name hname
    intro job hjob c hc
    rw [hjobs,List.mem_singleton] at hjob
    rw [hjob] at hc
    cases hc
   | failed=>exact h
   | listed refs=>exact h
   | answered headers=>exact h
   | collected=>exact h
   | posted=>exact h

/-! ## The steps of a prompt -/

theorem recordHashes_apply (batch:List (String × String)) {sent known:String → Option String}
  {path:String} (h:(batch.lookup path).isNone → sent path=known path) :
  recordHashes batch sent path=recordHashes batch known path := by
 unfold recordHashes
 induction batch generalizing sent known with
 | nil=>exact h rfl
 | cons f batch ih=>
  rw [List.foldl_cons,List.foldl_cons]
  apply ih
  intro hnone
  by_cases heq:path=f.1
  · rw [heq,Function.update_self,Function.update_self]
  · rw [Function.update_of_ne heq,Function.update_of_ne heq]
    apply h
    rw [List.lookup_cons,beq_false_of_ne heq]
    exact hnone

theorem Inv.stepPrompt (h:Inv localeCompare headersHash s) {i:ℕ}
  {e:PromptEvent} (hmet:Met localeCompare s (.prompt i e)) :
  Inv localeCompare headersHash (stepPrompt i e s) := by
 have hset:∀ prompts, Inv localeCompare headersHash { s with prompts:=prompts }:=
  fun prompts=>{ h with }
 unfold CredentialJobs.stepPrompt
 cases hprompt:s.prompts[i]? with
 | none=>exact h
 | some prompt=>
  cases prompt with
  | locating copy=>
   cases e with
   | picked folder=>
    have ⟨hmcp,hsent⟩:=hmet copy hprompt
    refine { h with pin:=?_,hashes:=?_ }
    · exact hmcp.trans h.pin
    · intro path
      exact (hsent path rfl).trans (h.hashes path)
   | sources files=>
    simp only
    split
    · exact hset _
    · exact hset _
   | committed=>exact h
   | failed=>exact hset _
  | located copy=>
   cases e with
   | sources files=>
    simp only
    split
    · exact hset _
    · exact hset _
   | picked folder=>exact h
   | committed=>exact h
   | failed=>exact hset _
  | uploading copy batch=>
   cases e with
   | committed=>
    have ⟨hmcp,hsent⟩:=hmet copy batch hprompt
    refine { h with pin:=?_,hashes:=?_ }
    · exact hmcp.trans h.pin
    · intro path
      apply recordHashes_apply
      intro hnone
      exact (hsent path hnone).trans (h.hashes path)
   | picked folder=>exact h
   | sources files=>exact h
   | failed=>exact hset _

/-! ## Runs -/

theorem Inv.step (h:Inv localeCompare headersHash s) {action:Action}
  (hmet:Met localeCompare s action) :
  Inv localeCompare headersHash (step localeCompare headersHash action s) := by
 cases action with
 | stream events state=>
  have htaken:Inv localeCompare headersHash
    { events.foldl takeEvent s with tracked.state:=some state } :=
   { h.takeEvents hmet with }
  unfold CredentialJobs.step
  by_cases hlive:live state=true
  · simp only [hlive,if_true]
    exact htaken.maybeSendCredentials
  · simp only [hlive]
    exact htaken
 | opened listed state=>
  have hlisted:Inv localeCompare headersHash
    { s with tracked.mcpServers:=some listed } := { h with }
  have htrusted:=hlisted.trusted listed
  exact { htrusted with }
 | signedIn name=>
  have hsigned:Inv localeCompare headersHash { s with
    tracked.mcpSent := Function.update s.tracked.mcpSent name none
    tracked.mcpSignIn := s.tracked.mcpSignIn.filter fun n=>n ≠ name
    tracked.credentialsSentTo := none } := by
   refine { h with remembered:=?_ }
   intro other hash hother
   by_cases heq:other=name
   · rw [heq] at hother
     cases (Function.update_self (f := s.tracked.mcpSent) name none).symm.trans hother
   · exact h.remembered other hash
      ((Function.update_of_ne (f := s.tracked.mcpSent) heq none).symm.trans hother)
  unfold CredentialJobs.step
  by_cases hlive:s.tracked.state.any live=true
  · simp only [hlive,if_true]
    exact hsigned.maybeSendCredentials
  · simp only [hlive]
    exact hsigned
 | configured servers=>
  refine { h with collecting:=?_ }
  intro job hjob c hc
  exact { h.collecting job hjob c hc with enabled:=hmet job hjob c hc }
 | prompted=>exact { h with }
 | job j e=>exact h.stepJob hmet
 | prompt i e=>exact h.stepPrompt hmet

end Invariant

/-- In a run whose every step meets the condition, all is kept. -/
theorem kept_of_met (localeCompare:String → String → Bool) (headersHash:Headers → String)
  (record:Option SessionFilesRecord) (mcpServers:Option (List McpServerRef))
  (enabled:List LocalMcpServer) (actions:List Action)
  (h:Admissible (step localeCompare headersHash) (Met localeCompare) actions
   (initial record mcpServers enabled)) :
  Kept localeCompare (run (step localeCompare headersHash) actions
   (initial record mcpServers enabled)) := by
 have hinv:Inv localeCompare headersHash (run (step localeCompare headersHash) actions
   (initial record mcpServers enabled)) := by
  apply h.invariant
  · intro s action hs hmet
    exact hs.step hmet
  · exact inv_initial localeCompare headersHash record mcpServers enabled
 exact hinv.toKept

/-- The session is opened before the files of a prompt are sent, and again after. -/
theorem kept_of_met_prompt :
  Kept (fun a b=>a ≤ b) (run (step (fun a b=>a ≤ b) fun _=> "")
   [.opened [⟨"docs","https://docs.example"⟩] .running,.prompted,
    .prompt 0 (.sources [(some "data/a.l4","1")]),.prompt 0 .committed,
    .opened [⟨"mail","https://mail.example"⟩] .running] (initial none none [])) := by
 apply kept_of_met
 refine ⟨trivial,trivial,trivial, ?_,trivial,trivial⟩
 intro copy batch hprompt
 cases hprompt
 exact ⟨rfl,fun _ _=>rfl⟩

/-! ## Copies that are out of date -/

/-- While the files of a prompt are sent, the session is opened, and later once more. -/
def openedMeanwhile : List Action :=
 [.prompted,.prompt 0 (.sources [(some "data/a.l4","1")]),
  .opened [⟨"docs","https://docs.example"⟩] .running,.prompt 0 .committed,
  .opened [⟨"mail","https://mail.example"⟩] .running]

/-- The files of two prompts are sent at once. -/
def promptedTwice : List Action :=
 [.opened [] .running,.prompted,.prompted,.prompt 0 (.sources [(some "data/a.l4","1")]),
  .prompt 1 (.sources [(some "data/b.l4","2")]),.prompt 0 .committed,.prompt 0 .committed]

/-- The servers pinned are forgotten, and the next ones listed are pinned in their place; of two
prompts the hashes of one are forgotten. -/
theorem not_kept_outdated :
  ¬ Kept (fun a b=>a ≤ b) (run (step (fun a b=>a ≤ b) fun _=> "") openedMeanwhile
   (initial none none [])) ∧
  ¬ Kept (fun a b=>a ≤ b) (run (step (fun a b=>a ≤ b) fun _=> "") promptedTwice
   (initial none none [])) := by
 constructor
 · intro h
   have hpin:=h.pin
   revert hpin
   decide +kernel
 · intro h
   have hhash:=h.hashes "data/a.l4"
   revert hhash
   decide +kernel

end L4Ide.CredentialsConfined
