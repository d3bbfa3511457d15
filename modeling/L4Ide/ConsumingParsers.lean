import Mathlib.Data.List.Basic

set_option autoImplicit false

/-!
# Parsers that commit once they consume

A parser is asked where it stands and answers with a value and how much it took, or with a
failure that remembers whether anything was consumed before it. An alternative is tried only
after a failure that consumed nothing. `Reads` is the judgement that whatever a parser accepts
is a stretch of its input standing in a given relation to the answer; a recursive parser is the
limit of its unrollings, which is reached on every input.
-/
namespace L4Ide.ConsumingParsers

structure Input (τ:Type) where
 offset : ℕ
 ahead : List τ

inductive Reply (α:Type) where
 | ok (value:α) (taken:ℕ)
 | error (consumed:Bool)

def Parser (τ α:Type) := Input τ → Reply α

variable {τ α β:Type}

def Input.advance (s:Input τ) (n:ℕ) : Input τ := ⟨s.offset+n,s.ahead.drop n⟩

/-- The answer as seen from `n` earlier. -/
def Reply.after (n:ℕ) : Reply α → Reply α
 | .ok a m=>.ok a (n+m)
 | .error consumed=>.error (consumed || decide (0 < n))

namespace Parser

/-! ### Combinators -/

protected def pure (a:α) : Parser τ α := fun _=>.ok a 0

protected def bind (p:Parser τ α) (k:α → Parser τ β) : Parser τ β := fun s=>
 match p s with
 | .ok a n=>(k a (s.advance n)).after n
 | .error consumed=>.error consumed

instance : Monad (Parser τ) where
 pure:=Parser.pure
 bind:=Parser.bind

def fail : Parser τ α := fun _=>.error false

def orElse (p q:Parser τ α) : Parser τ α := fun s=>
 match p s with
 | .error false=>q s
 | r=>r

instance : OrElse (Parser τ α) := ⟨fun p q=>p.orElse (q ())⟩

def asum : List (Parser τ α) → Parser τ α
 | []=>fail
 | p::ps=>p <|> asum ps

def attempt (p:Parser τ α) : Parser τ α := fun s=>
 match p s with
 | .error _=>.error false
 | r=>r

def lookAhead (p:Parser τ α) : Parser τ α := fun s=>
 match p s with
 | .ok a _=>.ok a 0
 | r=>r

def notFollowedBy (p:Parser τ α) : Parser τ Unit := fun s=>
 match p s with
 | .ok _ _=>.error false
 | .error _=>.ok () 0

def getOffset : Parser τ ℕ := fun s=>.ok s.offset 0

def eof : Parser τ Unit := fun s=>if s.ahead.isEmpty then .ok () 0 else .error false

def satisfy (f:τ → Bool) : Parser τ τ := fun s=>
 match s.ahead with
 | []=>.error false
 | c::_=>if f c then .ok c 1 else .error false

def chunk [DecidableEq τ] (w:List τ) : Parser τ (List τ) := fun s=>
 if w <+: s.ahead then .ok w w.length else .error false

def takeWhileP (f:τ → Bool) : Parser τ (List τ) := fun s=>
 .ok (s.ahead.takeWhile f) (s.ahead.takeWhile f).length

def takeWhile1P (f:τ → Bool) : Parser τ (List τ) := fun s=>
 if (s.ahead.takeWhile f).isEmpty then .error false
 else .ok (s.ahead.takeWhile f) (s.ahead.takeWhile f).length

def anySingle : Parser τ τ := satisfy fun _=>true

def slice (p:Parser τ α) : Parser τ (List τ × α) := fun s=>
 match p s with
 | .ok a n=>.ok (s.ahead.take n,a) n
 | .error consumed=>.error consumed

def optional (p:Parser τ α) : Parser τ (Option α) := (some <$> p) <|> pure none

/-! ### Recursion -/

def unrolled (F:Parser τ α → Parser τ α) : ℕ → Parser τ α
 | 0=>fail
 | n+1=>F (unrolled F n)

/-- The recursive parser: unrolled once more than there are characters ahead. -/
def fixed (F:Parser τ α → Parser τ α) : Parser τ α := fun s=>
 unrolled F (s.ahead.length+1) s

def manyStep (p:Parser τ α) (more:Parser τ (List α)) : Parser τ (List α) := do
 match ← optional p with
 | none=>pure []
 | some a=>List.cons a <$> more

def many (p:Parser τ α) : Parser τ (List α) := fixed (manyStep p)

def many1 (p:Parser τ α) : Parser τ (List α) := do
 let a ← p
 List.cons a <$> many p

def manyTillStep (p:Parser τ α) (stop:Parser τ β) (more:Parser τ (List α × β)) :
  Parser τ (List α × β) := do
 match ← optional stop with
 | some b=>pure ([],b)
 | none=>do
  let a ← p
  (fun r=>(a::r.1,r.2)) <$> more

def manyTill (p:Parser τ α) (stop:Parser τ β) : Parser τ (List α × β) :=
 fixed (manyTillStep p stop)

section Apply

variable {s:Input τ} {p q r:Parser τ α}

variable {k:α → Parser τ β} {a:α} {n:ℕ} {c:Bool} {f:α → β}

theorem bind_apply_ok (h:p s = .ok a n) :
  (p >>= k) s=(k a (s.advance n)).after n := by
 change Parser.bind p k s=_
 rw [Parser.bind,h]

theorem bind_apply_error (h:p s = .error c) :
  (p >>= k) s = .error c := by
 change Parser.bind p k s=_
 rw [Parser.bind,h]

theorem map_apply_ok (h:p s = .ok a n) :
  (f <$> p) s = .ok (f a) n := bind_apply_ok h

theorem map_apply_error (h:p s = .error c) :
  (f <$> p) s = .error c := bind_apply_error h

end Apply

/-! ### What is read -/

/-- From offset `o`, the answer `a` is given for the stretch `t` only if `R o a t`. -/
def Reads (p:Parser τ α) (R:ℕ → α → List τ → Prop) : Prop :=
 ∀ s a n, p s = .ok a n →
  ∃ t rest, s.ahead=t ++ rest ∧ n=t.length ∧ R s.offset a t

section Reads

variable {p q:Parser τ α} {k:α → Parser τ β} {R S:ℕ → α → List τ → Prop}
 {T:ℕ → β → List τ → Prop}

theorem Reads.mono (hp:Reads p R) (h:∀ o a t, R o a t → S o a t) : Reads p S := by
 intro s a n heq
 obtain ⟨t,rest,hahead,hn,hR⟩:=hp s a n heq
 exact ⟨t,rest,hahead,hn,h _ _ _ hR⟩

variable {a:α} {S:ℕ → β → List τ → Prop} {f:τ → Bool} {t:List τ}

theorem reads_pure (h:∀ o, R o a []) : Reads (pure a) R := by
 intro s b n heq
 cases heq
 exact ⟨[],s.ahead,rfl,rfl,h _⟩

theorem Reads.bind {S:α → ℕ → β → List τ → Prop} (hp:Reads p R) (hk:∀ a, Reads (k a) (S a))
  (h:∀ o a u b v, R o a u → S a (o+u.length) b v → T o b (u ++ v)) :
  Reads (p >>= k) T := by
 intro s b n heq
 change Parser.bind p k s=_ at heq
 rw [Parser.bind] at heq
 cases hps:p s with
 | error c=>simp [hps] at heq
 | ok a m=>
  obtain ⟨u,rest,hahead,hm,hR⟩:=hp s a m hps
  simp only [hps] at heq
  cases hks:k a (s.advance m) with
  | error c=>simp [hks,Reply.after] at heq
  | ok b' m' =>
   obtain ⟨v,rest', hahead', hm', hS⟩:=hk a _ _ _ hks
   simp only [hks,Reply.after,Reply.ok.injEq] at heq
   have hrest:(s.advance m).ahead=rest:=by simp [Input.advance,hahead,hm]
   have hoffset:(s.advance m).offset=s.offset+u.length:=by simp [Input.advance,hm]
   refine ⟨u ++ v,rest', ?_, ?_, ?_⟩
   · rw [hahead,←hrest,hahead', List.append_assoc]
   · rw [←heq.2,hm,hm', List.length_append]
   · rw [←heq.1]
     exact h _ _ _ _ _ hR (hoffset ▸ hS)

theorem Reads.map {f:α → β} (hp:Reads p R) (h:∀ o a t, R o a t → T o (f a) t) :
  Reads (f <$> p) T :=
 hp.bind (fun a=>reads_pure (R := fun _ b t=>b=f a ∧ t=[]) fun _=>⟨rfl,rfl⟩)
  (by
   rintro o a u b v hR ⟨rfl,rfl⟩
   rw [List.append_nil]
   exact h o a u hR)

theorem Reads.bind_map {γ:Type} {f:α → β → γ} {q:Parser τ β}
  {T:ℕ → γ → List τ → Prop} (hp:Reads p R) (hq:Reads q S)
  (h:∀ o a u b v, R o a u → S (o+u.length) b v → T o (f a b) (u ++ v)) :
  Reads (p >>= fun a=>f a <$> q) T :=
 hp.bind (fun a=>hq.map (T := fun o c v=>∃ b, c=f a b ∧ S o b v)
  fun _ b _ hS=>⟨b,rfl,hS⟩)
  (by
   rintro o a u c v hR ⟨b,rfl,hS⟩
   exact h o a u b v hR hS)

theorem reads_fail : Reads (fail:Parser τ α) R := by
 intro s a n heq
 cases heq

theorem Reads.orElse (hp:Reads p R) (hq:Reads q R) : Reads (p <|> q) R := by
 intro s a n heq
 change Parser.orElse p q s=_ at heq
 rw [Parser.orElse] at heq
 cases hps:p s with
 | ok b m=>
  rw [hps] at heq
  exact hp s a n (hps.trans heq)
 | error c=>
  cases c with
  | false=>
   rw [hps] at heq
   exact hq s a n heq
  | true=>simp [hps] at heq

theorem Reads.orElse_dead {r:Parser τ α} (hp:Reads p R) (hr:Reads r R)
  (hq:∀ s, p s = .error false → ∃ c, q s = .error c) : Reads (p <|> q <|> r) R := by
 intro s a n heq
 change Parser.orElse p (Parser.orElse q r) s=_ at heq
 rw [Parser.orElse] at heq
 cases hps:p s with
 | ok b m=>
  rw [hps] at heq
  exact hp s a n (hps.trans heq)
 | error c=>
  cases c with
  | true=>simp [hps] at heq
  | false=>
   obtain ⟨c,hqs⟩:=hq s hps
   simp only [hps,Parser.orElse,hqs] at heq
   cases c with
   | true=>simp at heq
   | false=>exact hr s a n heq

theorem reads_asum {ps:List (Parser τ α)} (h:∀ p ∈ ps, Reads p R) : Reads (asum ps) R := by
 induction ps with
 | nil=>exact reads_fail
 | cons p ps ih=>
  rw [asum]
  exact (h p (by simp)).orElse (ih fun q hq=>h q (by simp [hq]))

theorem Reads.attempt (hp:Reads p R) : Reads p.attempt R := by
 intro s a n heq
 rw [Parser.attempt] at heq
 cases hps:p s with
 | ok b m=>
  rw [hps] at heq
  exact hp s a n (hps.trans heq)
 | error c=>simp [hps] at heq

theorem reads_lookAhead : Reads p.lookAhead fun _ _ t=>t=[] := by
 intro s a n heq
 rw [Parser.lookAhead] at heq
 cases hps:p s with
 | error c=>simp [hps] at heq
 | ok b m=>
  simp only [hps,Reply.ok.injEq] at heq
  exact ⟨[],s.ahead,rfl,heq.2.symm,rfl⟩

theorem reads_notFollowedBy : Reads p.notFollowedBy fun _ _ t=>t=[] := by
 intro s a n heq
 rw [Parser.notFollowedBy] at heq
 cases hps:p s with
 | ok b m=>simp [hps] at heq
 | error c=>
  simp only [hps,Reply.ok.injEq] at heq
  exact ⟨[],s.ahead,rfl,heq.2.symm,rfl⟩

theorem reads_getOffset : Reads (getOffset:Parser τ ℕ) fun o a t=>a=o ∧ t=[] := by
 intro s a n heq
 cases heq
 exact ⟨[],s.ahead,rfl,rfl,rfl,rfl⟩

theorem reads_satisfy : Reads (satisfy f) fun _ c t=>t=[c] ∧ f c := by
 intro s a n heq
 rw [satisfy] at heq
 cases hs:s.ahead with
 | nil=>simp [hs] at heq
 | cons c cs=>
  simp only [hs] at heq
  split at heq
  · next hf=>
    cases heq
    exact ⟨[a],cs,rfl,rfl,rfl,hf⟩
  · cases heq

theorem reads_anySingle : Reads (anySingle:Parser τ τ) fun _ c t=>t=[c] :=
 reads_satisfy.mono fun _ _ _ h=>h.1

theorem reads_chunk [DecidableEq τ] {w:List τ} : Reads (chunk w) fun _ a t=>a=w ∧ t=w := by
 intro s a n heq
 rw [chunk] at heq
 split at heq
 · next hw=>
   obtain ⟨rest,hrest⟩:=hw
   cases heq
   exact ⟨w,rest,hrest.symm,rfl,rfl,rfl⟩
 · cases heq

theorem reads_takeWhileP : Reads (takeWhileP f) fun _ a t=>a=t := by
 intro s a n heq
 cases heq
 exact ⟨_,s.ahead.dropWhile f,List.takeWhile_append_dropWhile.symm,rfl,rfl⟩

theorem reads_takeWhile1P :
  Reads (takeWhile1P f) fun _ a t=>a=t ∧ t ≠ [] := by
 intro s a n heq
 rw [takeWhile1P] at heq
 split at heq
 · cases heq
 · next hne=>
   cases heq
   exact ⟨_,s.ahead.dropWhile f,List.takeWhile_append_dropWhile.symm,rfl,rfl,
    by simpa using hne⟩

theorem Reads.slice (hp:Reads p R) : Reads p.slice fun o r t=>r.1=t ∧ R o r.2 t := by
 intro s r n heq
 rw [Parser.slice] at heq
 cases hps:p s with
 | error c=>simp [hps] at heq
 | ok a m=>
  obtain ⟨t,rest,hahead,hm,hR⟩:=hp s a m hps
  simp only [hps,Reply.ok.injEq] at heq
  obtain ⟨rfl,rfl⟩:=heq
  exact ⟨t,rest,hahead,hm,by simp [hahead,hm],hR⟩

theorem Reads.optional (hp:Reads p R) :
  Reads p.optional fun o r t=>(∃ a, r=some a ∧ R o a t) ∨ r=none ∧ t=[] :=
 (hp.map fun _ a _ hR=>.inl ⟨a,rfl,hR⟩).orElse (reads_pure fun _=>.inr ⟨rfl,rfl⟩)

theorem Reads.whole {n:ℕ} (hp:Reads p R)
  (h:(do let a ← p; eof; pure a : Parser τ α) ⟨0,t⟩ = .ok a n) : R 0 a t := by
 cases hps:p ⟨0,t⟩ with
 | error c=>
  rw [bind_apply_error hps] at h
  cases h
 | ok b m=>
  obtain ⟨u,rest,hahead,rfl,hR⟩:=hp _ b m hps
  rw [bind_apply_ok hps] at h
  cases hrest:rest with
  | nil=>
   have heof:(eof:Parser τ Unit) (Input.advance ⟨0,t⟩ u.length) = .ok () 0:=by
    simp_all [eof,Input.advance]
   rw [bind_apply_ok heof] at h
   cases h
   simp_all
  | cons c cs=>
   have heof:(eof:Parser τ Unit) (Input.advance ⟨0,t⟩ u.length) = .error false:=by
    simp_all [eof,Input.advance]
   rw [bind_apply_error heof] at h
   cases h

theorem reads_fixed {F:Parser τ α → Parser τ α} (hF:∀ p, Reads p R → Reads (F p) R) :
  Reads (fixed F) R := by
 have hunrolled:∀ n, Reads (unrolled F n) R:=by
  intro n
  induction n with
  | zero=>exact reads_fail
  | succ n ih=>exact hF _ ih
 intro s a n heq
 exact hunrolled _ s a n heq

inductive ReadAll (R:ℕ → α → List τ → Prop) : ℕ → List α → List τ → Prop
 | nil {o:ℕ} : ReadAll R o [] []
 | cons {o:ℕ} {a:α} {as:List α} {t ts:List τ} (head:R o a t)
   (tail:ReadAll R (o+t.length) as ts) : ReadAll R o (a::as) (t ++ ts)

theorem ReadAll.flatten {R:ℕ → List τ → List τ → Prop} {o:ℕ} {as:List (List τ)}
  (h:ReadAll R o as t) (hR:∀ o a t, R o a t → a=t) : as.flatten=t := by
 induction h with
 | nil=>rfl
 | cons head _ ih=>rw [List.flatten_cons,hR _ _ _ head,ih]

theorem Reads.many (hp:Reads p R) : Reads p.many (ReadAll R) := by
 refine reads_fixed fun more hmore=>?_
 refine hp.optional.bind (S := fun r o as t=>(∃ a u, r=some a ∧ as=a::u ∧
  ReadAll R o u t) ∨ r=none ∧ as=[] ∧ t=[]) (fun r=>?_) ?_
 · cases r with
   | none=>exact reads_pure fun _=>.inr ⟨rfl,rfl,rfl⟩
   | some a=>exact hmore.map fun _ u _ h=>.inl ⟨a,u,rfl,rfl,h⟩
 · rintro o r u as v (⟨a,rfl,hR⟩ | ⟨rfl,rfl⟩) h
   · obtain ⟨a', as', ha,rfl,hall⟩ | ⟨hnone,_⟩:=h
     · cases ha
       exact .cons hR hall
     · cases hnone
   · obtain ⟨a,as', ha,_⟩ | ⟨_,rfl,rfl⟩:=h
     · cases ha
     · exact .nil

theorem Reads.many1 (hp:Reads p R) : Reads p.many1 fun o as t=>
  ∃ a u v, as=a::u ∧ ∃ w, t=w ++ v ∧ R o a w ∧ ReadAll R (o+w.length) u v :=
 hp.bind_map hp.many fun _ a w u v hR hall=>⟨a,u,v,rfl,w,rfl,hR,hall⟩

theorem Reads.manyTill {stop:Parser τ β} (hp:Reads p R)
  (hstop:Reads stop S) : Reads (p.manyTill stop) fun o r t=>
   ∃ u v, t=u ++ v ∧ ReadAll R o r.1 u ∧ S (o+u.length) r.2 v := by
 refine reads_fixed fun more hmore=>?_
 refine hstop.optional.bind (S := fun r o res t=>(∃ b, r=some b ∧ res=([],b) ∧ t=[]) ∨
  r=none ∧ ∃ a as b t' u v, res=(a::as,b) ∧ t=t' ++ (u ++ v) ∧ R o a t' ∧
   ReadAll R (o+t'.length) as u ∧ S (o+t'.length+u.length) b v) (fun r=>?_) ?_
 · cases r with
   | some b=>exact reads_pure fun _=>.inl ⟨b,rfl,rfl,rfl⟩
   | none=>
    refine hp.bind (fun a=>hmore.map (T := fun o res t=>∃ as b u v, res=(a::as,b) ∧
     t=u ++ v ∧ ReadAll R o as u ∧ S (o+u.length) b v) fun _ r _ h=>?_) ?_
    · obtain ⟨u,v,ht,hall,hS⟩:=h
      exact ⟨r.1,r.2,u,v,rfl,ht,hall,hS⟩
    · rintro o a t' res t hR ⟨as,b,u,v,rfl,rfl,hall,hS⟩
      exact .inr ⟨rfl,a,as,b,t', u,v,rfl,rfl,hR,hall,hS⟩
 · rintro o r w res t (⟨b,rfl,hS⟩ | ⟨rfl,rfl⟩) h
   · obtain ⟨b', hb,rfl,rfl⟩ | ⟨hnone,_⟩:=h
     · cases hb
       exact ⟨[],w,by simp,.nil,hS⟩
     · cases hnone
   · obtain ⟨b', hb,_⟩ | ⟨_,a,as,b,t', u,v,rfl,rfl,hR,hall,hS⟩:=h
     · cases hb
     · exact ⟨t' ++ u,v,by simp,.cons hR hall,by simpa [Nat.add_assoc] using hS⟩

end Reads

/-! ### The recursion is reached -/

/-- The same answers wherever fewer than `n` characters are ahead. -/
def AgreeBelow (n:ℕ) (p q:Parser τ α) : Prop := ∀ s, s.ahead.length < n → p s=q s

def Guarded (F:Parser τ α → Parser τ α) : Prop :=
 ∀ n p q, AgreeBelow n p q → AgreeBelow (n+1) (F p) (F q)

def Consumes (p:Parser τ α) : Prop := ∃ R, Reads p R ∧ ∀ o a t, R o a t → t ≠ []

section Unrolling

variable {p q:Parser τ α} {k k' : α → Parser τ β} {n:ℕ}

theorem AgreeBelow.bind (hp:AgreeBelow n p q) (hk:∀ a, AgreeBelow n (k a) (k' a)) :
  AgreeBelow n (p >>= k) (q >>= k') := by
 intro s hs
 change Parser.bind p k s=Parser.bind q k' s
 rw [Parser.bind,Parser.bind,←hp s hs]
 cases p s with
 | error c=>rfl
 | ok a m=>
  have hlt:(s.advance m).ahead.length < n:=by
   simp only [Input.advance,List.length_drop]
   omega
  simp only [hk a _ hlt]

theorem Reads.bind_agree {R:ℕ → α → List τ → Prop} (hp:Reads p R)
  (hstay:∀ o a, R o a [] → AgreeBelow (n+1) (k a) (k' a))
  (hmove:∀ a, AgreeBelow n (k a) (k' a)) :
  AgreeBelow (n+1) (p >>= k) (p >>= k') := by
 intro s hs
 change Parser.bind p k s=Parser.bind p k' s
 rw [Parser.bind,Parser.bind]
 cases hps:p s with
 | error c=>rfl
 | ok a m=>
  obtain ⟨t,rest,hahead,rfl,hR⟩:=hp s a m hps
  simp only [hahead,List.length_append] at hs
  cases t with
  | nil=>
   have hlt:(s.advance 0).ahead.length < n+1:=by simpa [Input.advance,hahead] using hs
   simp only [List.length_nil,hstay _ a hR _ hlt]
  | cons c t=>
   have hlt:(s.advance (c::t).length).ahead.length < n:=by
    simp only [Input.advance,hahead,List.length_drop,List.length_append,
     List.length_cons] at hs ⊢
    omega
   simp only [hmove a _ hlt]

theorem Consumes.bind_agree (hp:Consumes p) (hk:∀ a, AgreeBelow n (k a) (k' a)) :
  AgreeBelow (n+1) (p >>= k) (p >>= k') := by
 obtain ⟨R,hR,hne⟩:=hp
 exact hR.bind_agree (fun o a h=>absurd rfl (hne o a [] h)) hk

theorem AgreeBelow.orElse {p' q' : Parser τ α} (hp:AgreeBelow n p p')
  (hq:AgreeBelow n q q') : AgreeBelow n (p <|> q) (p' <|> q') := by
 intro s hs
 change Parser.orElse p q s=Parser.orElse p' q' s
 rw [Parser.orElse,Parser.orElse,←hp s hs,←hq s hs]

theorem AgreeBelow.refl : AgreeBelow n p p := fun _ _=>rfl

theorem AgreeBelow.mono {m:ℕ} (h:AgreeBelow n p q) (hle:m ≤ n) : AgreeBelow m p q :=
 fun s hs=>h s (Nat.lt_of_lt_of_le hs hle)

variable {f:α → β} {F:Parser τ α → Parser τ α}

theorem Consumes.map (hp:Consumes p) : Consumes (f <$> p) := by
 obtain ⟨R,hR,hne⟩:=hp
 exact ⟨fun _ _ t=>t ≠ [],hR.map fun o a t h=>hne o a t h,fun _ _ _ h=>h⟩

theorem unrolled_agree (hF:Guarded F) (m:ℕ) :
  ∀ j, AgreeBelow m (unrolled F m) (unrolled F (m+j)) := by
 induction m with
 | zero=>exact fun j s hs=>absurd hs (Nat.not_lt_zero _)
 | succ m ih=>
  intro j
  rw [Nat.succ_add]
  exact hF m _ _ (ih j)

theorem fixed_eq (hF:Guarded F) : fixed F=F (fixed F) := by
 funext s
 refine hF s.ahead.length _ _ (fun s' hs' =>?_) s (Nat.lt_succ_self _)
 obtain ⟨j,hj⟩:=Nat.exists_eq_add_of_le hs'
 rw [fixed,hj]
 exact (unrolled_agree hF _ j s' (Nat.lt_succ_self _)).symm

theorem fixed_agree {G:Parser τ α → Parser τ α}
  (hFG:∀ p q, AgreeBelow n p q → AgreeBelow n (F p) (G q)) :
  AgreeBelow n (fixed F) (fixed G) := by
 have hunrolled:∀ m, AgreeBelow n (unrolled F m) (unrolled G m):=by
  intro m
  induction m with
  | zero=>exact .refl
  | succ m ih=>exact hFG _ _ ih
 exact fun s hs=>hunrolled _ s hs

theorem AgreeBelow.map (hp:AgreeBelow n p q) :
  AgreeBelow n (f <$> p) (f <$> q) := hp.bind fun _=>.refl

theorem many_eq (hp:Consumes p) : many p=manyStep p (many p) := by
 obtain ⟨R,hR,hne⟩:=hp
 refine fixed_eq fun n more more' h=>hR.optional.bind_agree (fun o r hr=>?_) fun r=>?_
 · obtain ⟨a,rfl,ha⟩ | ⟨rfl,_⟩:=hr
   · exact absurd rfl (hne o a [] ha)
   · exact .refl
 · cases r with
   | none=>exact .refl
   | some a=>exact h.map

theorem AgreeBelow.manyTill {stop:Parser τ β} (hp:AgreeBelow n p q) :
  AgreeBelow n (manyTill p stop) (manyTill q stop) := by
 refine fixed_agree fun more more' h=>AgreeBelow.refl.bind fun r=>?_
 cases r with
 | some b=>exact .refl
 | none=>exact hp.bind fun a=>h.map

end Unrolling

/-! ### Refusals -/

section Refusals

variable {s:Input τ} {p q:Parser τ α} {f g:τ → Bool}

def Refuses (p:Parser τ α) (s:Input τ) : Prop := p s = .error false

theorem orElse_of_refuses (h:Refuses p s) : (p <|> q) s=q s := by
 change Parser.orElse p q s=_
 rw [Parser.orElse,h]

theorem orElse_of_fails (h:p s = .error true) : (p <|> q) s = .error true := by
 change Parser.orElse p q s=_
 rw [Parser.orElse,h]

variable {a:α} {n:ℕ}

theorem orElse_of_ok (h:p s = .ok a n) : (p <|> q) s = .ok a n := by
 change Parser.orElse p q s=_
 rw [Parser.orElse,h]

theorem Refuses.bind {k:α → Parser τ β} (h:Refuses p s) : Refuses (p >>= k) s := bind_apply_error h

theorem Refuses.map {k:α → β} (h:Refuses p s) : Refuses (k <$> p) s := map_apply_error h

theorem Refuses.orElse (h:Refuses p s) (h':Refuses q s) : Refuses (p <|> q) s :=
 (orElse_of_refuses h).trans h'

theorem Refuses.attempt (h:Refuses p s) : Refuses p.attempt s := by
 rw [Refuses,Parser.attempt,h]

theorem Refuses.slice (h:Refuses p s) : Refuses p.slice s := by
 rw [Refuses,Parser.slice,h]

theorem refuses_asum {ps:List (Parser τ α)} (h:∀ p ∈ ps, Refuses p s) : Refuses (asum ps) s := by
 induction ps with
 | nil=>rfl
 | cons p ps ih=>
  rw [List.forall_mem_cons] at h
  exact h.1.orElse (ih h.2)

/-- What a token may not begin with is refused; so is the end of the input. -/
theorem refuses_satisfy (hs:s.ahead.head?.all f=true) (h:∀ c, f c=true → g c=false) :
  Refuses (satisfy g) s := by
 unfold Refuses satisfy
 cases hahead:s.ahead with
 | nil=>rfl
 | cons c rest=>
  rw [hahead] at hs
  simp [h c hs]

theorem refuses_takeWhile1P (hs:s.ahead.head?.all f=true) (h:∀ c, f c=true → g c=false) :
  Refuses (takeWhile1P g) s := by
 unfold Refuses takeWhile1P
 cases hahead:s.ahead with
 | nil=>rfl
 | cons c rest=>
  rw [hahead] at hs
  simp [h c hs]

theorem refuses_chunk [DecidableEq τ] {w:List τ} (hs:s.ahead.head?.all f=true)
  (hw:w.head?.all f=false) : Refuses (chunk w) s := by
 unfold Refuses chunk
 cases w with
 | nil=>cases hw
 | cons d w=>
  rw [if_neg]
  rintro ⟨rest,hrest⟩
  rw [←hrest] at hs
  exact Bool.false_ne_true (hw.symm.trans hs)

theorem many_none (h:Refuses p s) : many p s = .ok [] 0 := by
 have hoptional:optional p s = .ok none 0:=orElse_of_refuses h.map
 exact (bind_apply_ok hoptional).trans rfl

theorem many_fails (h:p s = .error true) : many p s = .error true := by
 have hoptional:optional p s = .error true:=orElse_of_fails (map_apply_error h)
 exact bind_apply_error hoptional

/-- One answer that takes all the input. -/
theorem many_one (h:p s = .ok a n) (hn:0 < n) (hlength:s.ahead.length=n)
  (hend:Refuses p ⟨s.offset+n,[]⟩) : many p s = .ok [a] n := by
 have hoptional:optional p s = .ok (some a) n:=orElse_of_ok (map_apply_ok h)
 have hstop:optional p ⟨s.offset+n,[]⟩ = .ok none 0:=orElse_of_refuses hend.map
 have hadvance:s.advance n=⟨s.offset+n,[]⟩:=by
  rw [Input.advance,List.drop_eq_nil_of_le (Nat.le_of_eq hlength)]
 obtain ⟨m,hm⟩ : ∃ m, s.ahead.length=m+1:=⟨n-1,by omega⟩
 have hmore:unrolled (manyStep p) s.ahead.length ⟨s.offset+n,[]⟩ = .ok [] 0:=by
  rw [hm]
  exact (bind_apply_ok hstop).trans rfl
 refine (bind_apply_ok hoptional).trans ?_
 dsimp only
 rw [hadvance,map_apply_ok hmore]
 rfl

end Refusals

end Parser

end L4Ide.ConsumingParsers
