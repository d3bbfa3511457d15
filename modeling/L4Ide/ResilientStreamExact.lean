import L4Ide.ResilientStream

set_option autoImplicit false

/-!
# Every frame is delivered once

However a turn's bytes are cut and however often the transport fails, within the budget, the
consumer is handed the events of the turn's frames, each once.
-/
namespace L4Ide.ResilientStreamExact
open StreamingUtf8 DelimitedStream AiStreamEvents ResilientStream

/-! ## What a stream is asked for -/

section Demands

variable {parse:List Char → Option Json}

def frameEvents (parse:List Char → Option Json) (f:ServerFrame) : List AiStreamEvent :=
 match parseFrame f.raw with
 | none=>[]
 | some frame=>interpretFrame parse frame

def FailsWith (link:Link parse) (message:List Char) : Prop :=
 ∃ sizes pad, link = .drops message sizes pad false false

/-- The transport fails under the first `n` requests. -/
def Interrupted (links:ℕ → Link parse) (n:ℕ) : Prop :=
 ∀ i < n, ∃ message, FailsWith (links i) message

def CompletesAt (links:ℕ → Link parse) (n:ℕ) : Prop :=
 Interrupted links n ∧ ∃ sizes pad, links n = .completes sizes pad

/-- The reattach after `n + 1` failures, the last of them `message`, is refused. -/
def RefusedAfter (links:ℕ → Link parse) (n:ℕ) (message:List Char) : Prop :=
 Interrupted links n ∧ FailsWith (links n) message ∧ ∃ refusal, links (n+1) = .refuses refusal

structure ExactlyOnce (log:TurnLog) (links:ℕ → Link parse) (run:Run) : Prop where
 delivered : ∃ k, run.events=(log.frames.take k).flatMap (frameEvents parse)
 complete : ∀ n ≤ MAX_REATTACHES, CompletesAt links n →
  run.events=log.frames.flatMap (frameEvents parse) ∧ run.thrown=none
 original : ∀ n < MAX_REATTACHES, ∀ message, RefusedAfter links n message →
  run.thrown=some (.transport message)

/-- A reattach within the budget is refused. -/
def ReattachRefused (links:ℕ → Link parse) : Prop :=
 ∃ n < MAX_REATTACHES, ∃ message, RefusedAfter links n message

end Demands

/-! ## A response -/

section Responses

variable {parse:List Char → Option Json}

theorem drain_eq (fuel:ℕ) (buffer:List Char) (received:Received) :
  drain parse fuel buffer received=((split boundaryLength fuel buffer).2,
   (split boundaryLength fuel buffer).1.foldl (handle parse) received) := by
 induction fuel generalizing buffer received with
 | zero=>rfl
 | succ fuel ih=>
  unfold drain split
  cases firstMatch boundaryLength buffer with
  | none=>rfl
  | some found=>exact ih _ _

/-- After some chunks the frames in what they decode to have been handled, wherever the cuts are. -/
theorem foldl_readChunk (chunks:List (List UInt8)) {s:Reader}
  (hbuffer:firstMatch boundaryLength s.buffer=none) :
  ∃ pieces, Splits boundaryLength
    (s.buffer ++ (TextDecoder.decode chunks.flatten s.decoder).2) pieces
    (chunks.foldl (readChunk parse) s).buffer ∧
   (chunks.foldl (readChunk parse) s).received=pieces.foldl (handle parse) s.received := by
 induction chunks generalizing s with
 | nil=>
  refine ⟨[], ?_,rfl⟩
  rw [List.flatten_nil,TextDecoder.decode_nil,List.append_nil]
  exact .rest hbuffer
 | cons chunk chunks ih=>
  let text:=s.buffer ++ (TextDecoder.decode chunk s.decoder).2
  have hread:readChunk parse s chunk=⟨(TextDecoder.decode chunk s.decoder).1,
    (split boundaryLength text.length text).2,
    (split boundaryLength text.length text).1.foldl (handle parse) s.received⟩ := by
   unfold readChunk
   simp only [drain_eq]
   rfl
  have hsplit:=splits_split delimiter_boundary (Nat.le_refl text.length)
  rw [List.foldl_cons,hread]
  have ⟨pieces,hpieces,hreceived⟩:=ih (s := ⟨(TextDecoder.decode chunk s.decoder).1,
    (split boundaryLength text.length text).2,
    (split boundaryLength text.length text).1.foldl (handle parse) s.received⟩)
   hsplit.firstMatch_rest
  refine ⟨(split boundaryLength text.length text).1 ++ pieces, ?_, ?_⟩
  · rw [List.flatten_cons,TextDecoder.decode_append,←List.append_assoc]
    exact hsplit.append delimiter_boundary hpieces
  · rw [hreceived,List.foldl_append]

theorem whole_item (i:Item parse) : firstMatch boundaryLength (i.raw ++ i.separator) =
  some (i.raw.length,i.separator.length) := by
 cases i with
 | frame f=>exact f.whole
 | keepalive k=>exact k.whole

theorem head_flatMap {items:List (Item parse)} :
  (items.flatMap fun i=>i.raw ++ i.separator).head? ≠ some BOM := by
 cases items with
 | nil=>exact fun h=>nomatch h
 | cons i items=>
  have hunmarked:(i.raw ++ i.separator).head? ≠ some BOM:=by
   cases i with
   | frame f=>exact f.unmarked
   | keepalive k=>exact k.unmarked
  have hwhole:=whole_item i
  have hne:i.raw ++ i.separator ≠ []:=by
   intro hnil
   rw [hnil] at hwhole
   cases hwhole
  rw [List.flatMap_cons,List.head?_append_of_ne_nil _ hne]
  exact hunmarked

theorem pieces_of_body {items:List (Item parse)} {bytes more:List UInt8}
  (hbytes:bytes ++ more=body items) {pieces:List (List Char)} {rest:List Char}
  (hpieces:Splits boundaryLength (TextDecoder.decode bytes .new).2 pieces rest) :
  pieces <+: items.map Item.raw := by
 have htext:(TextDecoder.decode bytes .new).2 ++
   (TextDecoder.decode more (TextDecoder.decode bytes .new).1).2 =
    items.flatMap fun i=>i.raw ++ i.separator := by
  rw [←TextDecoder.decode_encode head_flatMap,←body,←hbytes,TextDecoder.decode_append]
 have hwhole:=splits_flatMap delimiter_boundary Item.raw Item.separator items
  fun i _=>whole_item i
 rw [←htext] at hwhole
 exact prefix_of_append delimiter_boundary hpieces hwhole

theorem pieces_of_whole_body {items:List (Item parse)} {pieces:List (List Char)}
  {rest:List Char}
  (hpieces:Splits boundaryLength (TextDecoder.decode (body items) .new).2 pieces rest) :
  pieces=items.map Item.raw ∧ rest=[] := by
 rw [body,TextDecoder.decode_encode head_flatMap] at hpieces
 exact hpieces.unique (splits_flatMap delimiter_boundary Item.raw Item.separator items
  fun i _=>whole_item i)

/-! ### Chunks -/

theorem cut_flatten (sizes:List ℕ) (bytes:List UInt8) :
  (cut sizes bytes).1.flatten ++ (cut sizes bytes).2=bytes := by
 induction sizes generalizing bytes with
 | nil=>rfl
 | cons n sizes ih=>
  unfold cut
  rw [List.flatten_cons,List.append_assoc,ih,List.take_append_drop]

theorem parseSse_drops (sizes:List ℕ) (items:List (Item parse)) (received:Received) :
  ∃ k, parseSse parse (cut sizes (body items)).1 false received =
   ((items.take k).map Item.raw).foldl (handle parse) received := by
 have ⟨pieces,hpieces,hreceived⟩:=
  @foldl_readChunk parse (cut sizes (body items)).1 ⟨.new,[],received⟩ rfl
 have hprefix:=pieces_of_body (cut_flatten sizes (body items)) hpieces
 refine ⟨pieces.length, ?_⟩
 rw [List.map_take,←List.prefix_iff_eq_take.mp hprefix]
 exact hreceived

theorem parseSse_completes (sizes:List ℕ) (items:List (Item parse)) (received:Received) :
  parseSse parse ((cut sizes (body items)).1 ++ [(cut sizes (body items)).2]) true received =
   (items.map Item.raw).foldl (handle parse) received := by
 have ⟨pieces,hpieces,hreceived⟩:=
  @foldl_readChunk parse ((cut sizes (body items)).1 ++ [(cut sizes (body items)).2])
   ⟨.new,[],received⟩ rfl
 have hflatten:((cut sizes (body items)).1 ++ [(cut sizes (body items)).2]).flatten =
   body items := by
  rw [List.flatten_append,List.flatten_singleton,cut_flatten]
 rw [hflatten] at hpieces
 have ⟨heq,hrest⟩:=pieces_of_whole_body hpieces
 unfold parseSse
 simp only [hrest]
 exact hreceived.trans (by rw [heq])

end Responses

/-! ## The cursor -/

section Cursor

variable {parse:List Char → Option Json}

def live (f:ServerFrame) : Bool := (parseFrame f.raw).isSome

/-- The frames up to the cursor were delivered, those after it were not. -/
def Reached (parse:List Char → Option Json) (frames:List ServerFrame) (received:Received)
  (delivered remaining:List ServerFrame) : Prop :=
 frames.filter live=delivered ++ remaining ∧
  received.events=delivered.flatMap (frameEvents parse) ∧
  (∀ f ∈ delivered, f.id ≤ received.lastEventId) ∧
  ∀ f ∈ remaining, received.lastEventId < f.id

def liveFrames (items:List (Item parse)) : List ServerFrame :=
 items.filterMap fun i=>match i with
  | .frame f=>if live f then some f else none
  | .keepalive _=>none

theorem handle_dead {f:ServerFrame} (h:live f=false) (received:Received) :
  handle parse received f.raw=received := by
 have hnone:parseFrame f.raw=none:=by simpa [live] using h
 rw [handle,hnone]

theorem handle_keepalive (k:Keepalive parse) (received:Received) :
  handle parse received k.raw=received := by
 unfold handle
 cases hframe:parseFrame k.raw with
 | none=>rfl
 | some frame=>
  have ⟨hid,hevents⟩:=k.silent frame hframe
  simp [hid,hevents]

theorem handle_live {f:ServerFrame} (h:live f=true) (received:Received) :
  handle parse received f.raw=⟨received.events ++ frameEvents parse f,f.id⟩ := by
 unfold handle frameEvents
 cases hframe:parseFrame f.raw with
 | none=>simp [live,hframe] at h
 | some frame=>simp [f.carries frame hframe]

section Handling

variable {frames:List ServerFrame} {received:Received} {delivered remaining:List ServerFrame}

theorem Reached.handle_next {f:ServerFrame}
  (hincreasing:frames.Pairwise fun f g=>f.id < g.id) (hlive:live f=true)
  (h:Reached parse frames received delivered (f::remaining)) :
  Reached parse frames (handle parse received f.raw) (delivered ++ [f]) remaining := by
 have ⟨hframes,hevents,hdelivered,hremaining⟩:=h
 have hsorted:(delivered ++ f::remaining).Pairwise fun f g=>f.id < g.id:=
  hframes ▸ hincreasing.filter _
 have ⟨_,hrest,hbefore⟩:=List.pairwise_append.mp hsorted
 rw [handle_live hlive]
 refine ⟨by simp [hframes],by simp [hevents], ?_, ?_⟩
 · intro g hg
   cases List.mem_append.mp hg with
   | inl hmem=>exact Int.le_of_lt (hbefore g hmem f List.mem_cons_self)
   | inr hmem=>
    have heq:g=f:=List.mem_singleton.mp hmem
    exact Int.le_of_eq (congrArg ServerFrame.id heq)
 · exact (List.pairwise_cons.mp hrest).1

theorem Reached.foldl_handle (hincreasing:frames.Pairwise fun f g=>f.id < g.id)
  {items:List (Item parse)} {more:List ServerFrame}
  (h:Reached parse frames received delivered (liveFrames items ++ more)) :
  Reached parse frames ((items.map Item.raw).foldl (handle parse) received)
   (delivered ++ liveFrames items) more := by
 induction items generalizing received delivered with
 | nil=>simpa [liveFrames] using h
 | cons i items ih=>
  rw [List.map_cons,List.foldl_cons]
  cases i with
  | keepalive k=>
   rw [Item.raw,handle_keepalive]
   exact ih h
  | frame f=>
   cases hlive:live f with
   | false=>
    have hskip:liveFrames (.frame f::items)=liveFrames items:=by
     simp [liveFrames,hlive]
    rw [hskip] at h ⊢
    rw [Item.raw,handle_dead hlive]
    exact ih h
   | true=>
    have htake:liveFrames (.frame f::items)=f::liveFrames items:=by
     simp [liveFrames,hlive]
    rw [htake] at h ⊢
    have hnext:=ih (h.handle_next hincreasing hlive)
    rw [List.append_assoc] at hnext
    exact hnext

theorem Reached.after {log:TurnLog} (h:Reached parse log.frames received delivered remaining) :
  (log.after (requestedId received.lastEventId)).filter live=remaining := by
 have ⟨hframes,_,hdelivered,hremaining⟩:=h
 have hafter:log.after (requestedId received.lastEventId) =
   log.frames.filter fun f=>received.lastEventId < f.id := by
  unfold requestedId
  split
  · rfl
  · rename_i hle
    apply Eq.symm
    apply List.filter_eq_self.mpr
    intro f _
    have hpositive:=f.positive
    simp only [decide_eq_true_eq]
    omega
 rw [hafter,List.filter_comm,hframes,List.filter_append]
 have hnone:(delivered.filter fun f=>received.lastEventId < f.id)=[]:=by
  apply List.filter_eq_nil_iff.mpr
  intro f hf
  have hle:=hdelivered f hf
  simp only [decide_eq_true_eq]
  omega
 have hall:(remaining.filter fun f=>received.lastEventId < f.id)=remaining:=by
  apply List.filter_eq_self.mpr
  intro f hf
  simpa using hremaining f hf
 rw [hnone,hall,List.nil_append]

theorem liveFrames_interleave (pad:ℕ → List (Keepalive parse)) (i:ℕ)
  (frames:List ServerFrame) : liveFrames (interleave pad i frames)=frames.filter live := by
 have hpad:∀ j, liveFrames ((pad j).map Item.keepalive)=[]:=by
  intro j
  simp [liveFrames,List.filterMap_map]
 induction frames generalizing i with
 | nil=>exact hpad i
 | cons f frames ih=>
  have happend:liveFrames (interleave pad i (f::frames)) =
    liveFrames ((pad i).map Item.keepalive) ++
     liveFrames (.frame f::interleave pad (i+1) frames) := by
   simp [liveFrames,interleave]
  rw [happend,hpad,List.nil_append]
  cases hlive:live f with
  | false=>
   have hskip:liveFrames (.frame f::interleave pad (i+1) frames) =
     liveFrames (interleave pad (i+1) frames) := by
    simp [liveFrames,hlive]
   rw [hskip,ih]
   simp [hlive]
  | true=>
   have htake:liveFrames (.frame f::interleave pad (i+1) frames) =
     f::liveFrames (interleave pad (i+1) frames) := by
    simp [liveFrames,hlive]
   rw [htake,ih]
   simp [hlive]

end Handling

theorem flatMap_live (frames:List ServerFrame) :
  (frames.filter live).flatMap (frameEvents parse)=frames.flatMap (frameEvents parse) := by
 induction frames with
 | nil=>rfl
 | cons f frames ih=>
  cases hlive:live f with
  | true=>simp [hlive,ih]
  | false=>
   have hnone:parseFrame f.raw=none:=by simpa [live] using hlive
   simp [hlive,ih,frameEvents,hnone]

theorem Reached.exists_take {frames:List ServerFrame} {received:Received}
  {delivered remaining:List ServerFrame}
  (h:Reached parse frames received delivered remaining) :
  ∃ k, received.events=(frames.take k).flatMap (frameEvents parse) := by
 have ⟨hframes,hevents,_⟩:=h
 have ⟨first,rest,heq,hfirst,_⟩:=List.filter_eq_append_iff.mp hframes
 refine ⟨first.length, ?_⟩
 rw [heq,List.take_left' rfl,←flatMap_live,hfirst,hevents]

theorem Reached.events_eq {frames:List ServerFrame} {received:Received}
  {delivered:List ServerFrame} (h:Reached parse frames received delivered []) :
  received.events=frames.flatMap (frameEvents parse) := by
 have ⟨hframes,hevents,_⟩:=h
 rw [hevents,←flatMap_live frames,hframes,List.append_nil]

end Cursor

/-! ## Requests -/

section Requests

variable {parse:List Char → Option Json} {log:TurnLog} {links:ℕ → Link parse}

def Resumable (log:TurnLog) (parse:List Char → Option Json) (received:Received) : Prop :=
 ∃ delivered remaining, Reached parse log.frames received delivered remaining

def afterRequest (log:TurnLog) (link:Link parse) (reattach:Bool) (received:Received) :
  Received :=
 let response:=link.response reattach (log.after (requestedId received.lastEventId))
 parseSse parse response.1 response.2.isNone received

theorem Resumable.afterRequest {received:Received} (h:Resumable log parse received)
  (link:Link parse) (reattach:Bool) :
  Resumable log parse (afterRequest log link reattach received) := by
 have ⟨delivered,remaining,hreached⟩:=h
 have hlive:=hreached.after
 unfold ResilientStreamExact.afterRequest
 cases link with
 | refuses refusal=>exact h
 | drops message sizes pad aborted abortedInBackoff=>
  let items:=interleave pad 0 (log.after (requestedId received.lastEventId))
  have ⟨k,hparse⟩:=parseSse_drops sizes items received
  have hsplit:remaining=liveFrames (items.take k) ++ liveFrames (items.drop k):=by
   rw [←hlive,←liveFrames_interleave pad 0]
   simp only [liveFrames,←List.filterMap_append,List.take_append_drop,items]
  rw [hsplit] at hreached
  refine ⟨delivered ++ liveFrames (items.take k),liveFrames (items.drop k), ?_⟩
  have hhandled:=hreached.foldl_handle log.increasing
  rw [←hparse] at hhandled
  exact hhandled
 | completes sizes pad=>
  let items:=interleave pad 0 (log.after (requestedId received.lastEventId))
  have hall:remaining=liveFrames items ++ []:=by
   rw [List.append_nil,←hlive,liveFrames_interleave]
  rw [hall] at hreached
  refine ⟨delivered ++ liveFrames items,[], ?_⟩
  have hhandled:=hreached.foldl_handle log.increasing
  rw [←parseSse_completes sizes items received] at hhandled
  exact hhandled

theorem Resumable.events_completes {received:Received} (h:Resumable log parse received)
  {link:Link parse} {sizes:List ℕ} {pad:ℕ → List (Keepalive parse)}
  (hlink:link = .completes sizes pad) (reattach:Bool) :
  (ResilientStreamExact.afterRequest log link reattach received).events =
   log.frames.flatMap (frameEvents parse) := by
 have ⟨delivered,remaining,hreached⟩:=h
 let items:=interleave pad 0 (log.after (requestedId received.lastEventId))
 have hall:remaining=liveFrames items ++ []:=by
  rw [List.append_nil,←hreached.after,liveFrames_interleave]
 rw [hall] at hreached
 have hhandled:=hreached.foldl_handle log.increasing
 rw [←parseSse_completes sizes items received] at hhandled
 subst hlink
 exact hhandled.events_eq

theorem resumable_start : Resumable log parse ⟨[],0⟩ :=
 ⟨[],log.frames.filter live,rfl,rfl,fun _ h=>absurd h List.not_mem_nil,
  fun f _=>f.positive⟩

/-! ### Runs -/

theorem streamFrom_delivered (left i:ℕ) {received:Received} (h:Resumable log parse received) :
  ∃ k, (streamFrom log links left i received).events =
   (log.frames.take k).flatMap (frameEvents parse) := by
 induction left generalizing i received with
 | zero=>
  have ⟨_,_,hafter⟩:=h.afterRequest (links i) (decide (0 < i))
  unfold streamFrom
  dsimp only
  split
  · exact hafter.exists_take
  · split
    · exact hafter.exists_take
    · exact hafter.exists_take
 | succ left ih=>
  have hresumable:=h.afterRequest (links i) (decide (0 < i))
  have ⟨_,_,hafter⟩:=hresumable
  unfold streamFrom
  dsimp only
  split
  · exact hafter.exists_take
  · split
    · exact hafter.exists_take
    · split
      · exact hafter.exists_take
      · exact ih (i+1) hresumable

theorem streamFrom_fails {left i:ℕ} {received:Received} {message:List Char}
  (h:FailsWith (links i) message) :
  streamFrom log links (left+1) i received =
   streamFrom log links left (i+1)
    (afterRequest log (links i) (decide (0 < i)) received) := by
 have ⟨sizes,pad,hlink⟩:=h
 unfold afterRequest
 conv_lhs=>unfold streamFrom
 simp [hlink,Link.response,Link.aborted,Link.abortedInBackoff,Failure.isAiError]

theorem streamFrom_completes {left i n:ℕ} {received:Received}
  (h:Resumable log parse received) (hle:n ≤ left)
  (hfails:∀ j < n, ∃ message, FailsWith (links (i+j)) message)
  (hcompletes:∃ sizes pad, links (i+n) = .completes sizes pad) :
  (streamFrom log links left i received).events=log.frames.flatMap (frameEvents parse) ∧
   (streamFrom log links left i received).thrown=none := by
 induction n generalizing left i received with
 | zero=>
  have ⟨sizes,pad,hlink⟩:=hcompletes
  rw [Nat.add_zero] at hlink
  have hevents:=h.events_completes hlink (decide (0 < i))
  unfold afterRequest at hevents
  unfold streamFrom
  simp only [hlink,Link.response] at hevents ⊢
  exact ⟨hevents,trivial⟩
 | succ n ih=>
  cases left with
  | zero=>omega
  | succ left=>
   have ⟨message,hfirst⟩:=hfails 0 (Nat.zero_lt_succ n)
   rw [Nat.add_zero] at hfirst
   rw [streamFrom_fails hfirst]
   apply ih (h.afterRequest _ _) (Nat.le_of_succ_le_succ hle)
   · intro j hj
     have hlater:=hfails (j+1) (Nat.succ_lt_succ hj)
     rwa [Nat.add_comm j 1,←Nat.add_assoc] at hlater
   · rwa [Nat.add_comm n 1,←Nat.add_assoc] at hcompletes

theorem streamFrom_refused {left i n:ℕ} {received:Received} {refusal:Refusal}
  (hle:n ≤ left) (hfails:∀ j < n, ∃ message, FailsWith (links (i+j)) message)
  (hrefuses:links (i+n) = .refuses refusal) :
  (streamFrom log links left i received).thrown =
   some (refusalError parse (decide (0 < i+n)) refusal) := by
 induction n generalizing left i received with
 | zero=>
  rw [Nat.add_zero] at hrefuses ⊢
  have haiError:(refusalError parse (decide (0 < i)) refusal).isAiError=true:=by
   unfold refusalError
   split
   · rfl
   · split
     · rfl
     · rfl
  unfold streamFrom
  simp [hrefuses,Link.response,haiError]
 | succ n ih=>
  cases left with
  | zero=>omega
  | succ left=>
   have ⟨message,hfirst⟩:=hfails 0 (Nat.zero_lt_succ n)
   rw [Nat.add_zero] at hfirst
   rw [streamFrom_fails hfirst,Nat.add_comm n 1,←Nat.add_assoc]
   apply ih (Nat.le_of_succ_le_succ hle)
   · intro j hj
     have hlater:=hfails (j+1) (Nat.succ_lt_succ hj)
     rwa [Nat.add_comm j 1,←Nat.add_assoc] at hlater
   · rwa [Nat.add_comm n 1,←Nat.add_assoc] at hrefuses

/-- A refused reattach comes out as itself, not as the failure that interrupted the stream. -/
theorem thrown_of_refused {n:ℕ} {message:List Char} (hn:n < MAX_REATTACHES)
  (h:RefusedAfter links n message) :
  (streamResilient log links).thrown ≠ some (.transport message) := by
 have ⟨hinterrupted,hfails,refusal,hrefuses⟩:=h
 have hfailing:∀ j < n+1, ∃ message, FailsWith (links (0+j)) message:=by
  intro j hj
  rw [Nat.zero_add]
  cases Nat.lt_succ_iff_lt_or_eq.mp hj with
  | inl hlt=>exact hinterrupted j hlt
  | inr heq=>exact heq ▸ ⟨message,hfails⟩
 have hrefusal:links (0+(n+1)) = .refuses refusal:=by rwa [Nat.zero_add]
 have hthrown:=@streamFrom_refused parse log links MAX_REATTACHES 0 (n+1) ⟨[],0⟩ refusal hn
  hfailing hrefusal
 rw [streamResilient,hthrown,Ne,Option.some.injEq]
 unfold refusalError
 split
 · exact Failure.noConfusion
 · split
   · exact Failure.noConfusion
   · exact Failure.noConfusion

/-- The events of every frame are delivered once, and the failure that interrupted the stream is
    raised, unless a reattach is refused. -/
theorem exactlyOnce_iff (log:TurnLog) (links:ℕ → Link parse) :
  ExactlyOnce log links (streamResilient log links) ↔ ¬ReattachRefused links := by
 constructor
 · intro h hrefused
   have ⟨n,hn,message,hafter⟩:=hrefused
   exact thrown_of_refused hn hafter (h.original n hn message hafter)
 · intro hnot
   refine ⟨streamFrom_delivered _ _ resumable_start, ?_, ?_⟩
   · intro n hn hcompletes
     apply streamFrom_completes resumable_start hn
     · intro j hj
       rw [Nat.zero_add]
       exact hcompletes.1 j hj
     · rw [Nat.zero_add]
       exact hcompletes.2
   · intro n hn message hafter
     exact absurd ⟨n,hn,message,hafter⟩ hnot

end Requests

/-! ## A refused reattach -/

/-- `JSON.parse` on the text of the frame below. -/
def parseText (text:List Char) : Option Json :=
 if text = "\x7b\"text\":\"a\"\x7d".toList then some (.obj [("text",.str ['a'])]) else none

def thinkingFrame : ServerFrame where
 raw:="id: 1\nevent: thinking_delta\ndata: \x7b\"text\":\"a\"\x7d".toList
 separator:=['\n', '\n']
 id:=1
 positive:=by decide
 whole:=by decide +kernel
 unmarked:=by decide +kernel
 carries:=by decide +kernel

def oneFrame : TurnLog := ⟨[thinkingFrame],List.pairwise_singleton _ _⟩

/-- The connection is reset at once, and then the turn is not found. -/
def resetThenNotFound : ℕ → Link parseText
 | 0=>.drops "ECONNRESET".toList [] (fun _=>[]) false false
 | _=>.refuses (.http 404 [])

theorem reattach_refused :
  ¬ExactlyOnce oneFrame resetThenNotFound (streamResilient oneFrame resetThenNotFound) := by
 intro h
 have hinterrupted:Interrupted resetThenNotFound 0:=fun i hi=>absurd hi (Nat.not_lt_zero i)
 have hafter:RefusedAfter resetThenNotFound 0 "ECONNRESET".toList:=
  ⟨hinterrupted,⟨[],fun _=>[],rfl⟩,.http 404 [],rfl⟩
 exact thrown_of_refused (by decide) hafter (h.original 0 (by decide) _ hafter)

end L4Ide.ResilientStreamExact
