import L4Ide.MixfixChains

set_option autoImplicit false

/-!
# An operand is read once

Where a keyword with an operand behind it is found, the postfix reading of the keyword fails and
the chain takes the keyword; where it is not, the look-ahead for an operand fails as well. So the
chain that keeps its operand and the chain that parses it again read the same.
-/
namespace L4Ide.MixfixChains
open ConsumingParsers ConsumingParsers.Parser TokenLexer SourceAnnotations

section Answers
variable {τ α β:Type} {p q:Parser τ α} {s:Input τ}

theorem after_zero (r:Reply α) : r.after 0=r := by
 cases r with
 | ok a m=>rw [Reply.after,Nat.zero_add]
 | error c=>cases c <;> rfl

theorem after_after (r:Reply α) (m n:ℕ) : (r.after m).after n=r.after (n+m) := by
 cases r with
 | ok a k=>rw [Reply.after,Reply.after,Reply.after,Nat.add_assoc]
 | error c=>
  simp only [Reply.after,Reply.error.injEq,Bool.or_assoc,Nat.add_pos_iff_pos_or_pos]
  cases c <;> simp [or_comm]

theorem advance_zero (s:Input τ) : s.advance 0=s := rfl

theorem advance_advance (s:Input τ) (m n:ℕ) : (s.advance m).advance n=s.advance (m+n) := by
 rw [Input.advance,Input.advance,Input.advance,List.drop_drop,Nat.add_assoc]

theorem pure_apply (a:α) (s:Input τ) : (pure a:Parser τ α) s = .ok a 0 := rfl

variable {a:α} {n:ℕ}

theorem attempt_ok (h:p s = .ok a n) : p.attempt s = .ok a n := by
 rw [Parser.attempt,h]

theorem attempt_error {c:Bool} (h:p s = .error c) : p.attempt s = .error false := by
 rw [Parser.attempt,h]

theorem orElse_ok (h:p s = .ok a n) : (p <|> q) s = .ok a n := by
 change Parser.orElse p q s=_
 rw [Parser.orElse,h]

theorem orElse_error (h:p s = .error false) : (p <|> q) s=q s := by
 change Parser.orElse p q s=_
 rw [Parser.orElse,h]

theorem orElse_consumed (h:p s = .error true) : (p <|> q) s = .error true := by
 change Parser.orElse p q s=_
 rw [Parser.orElse,h]

theorem optional_ok (h:p s = .ok a n) : p.optional s = .ok (some a) n :=
 orElse_ok (map_apply_ok h)

theorem optional_error (h:p s = .error false) : p.optional s = .ok none 0 := by
 rw [Parser.optional,orElse_error (map_apply_error h),pure_apply]

theorem id_map_eq (p:Parser τ α) : id <$> p=p := by
 funext s
 cases hp:p s with
 | ok a n=>rw [map_apply_ok hp,id]
 | error c=>rw [map_apply_error hp]

theorem pure_bind_eq (a:α) (k:α → Parser τ β) : pure a >>= k=k a := by
 funext s
 rw [bind_apply_ok (pure_apply a s),advance_zero,after_zero]

theorem bind_assoc_eq {γ:Type} (p:Parser τ α) (k:α → Parser τ β) (l:β → Parser τ γ) :
  p >>= k >>= l=p >>= fun a=>k a >>= l := by
 funext s
 cases hp:p s with
 | error c=>rw [bind_apply_error hp,bind_apply_error (bind_apply_error hp)]
 | ok a n=>
  cases hk:k a (s.advance n) with
  | error c=>
   have hpk:(p >>= k) s = .error (c || decide (0 < n)):=by
    rw [bind_apply_ok hp,hk,Reply.after]
   rw [bind_apply_error hpk,bind_apply_ok hp,bind_apply_error hk,Reply.after]
  | ok b m=>
   have hpk:(p >>= k) s = .ok b (n+m):=by
    rw [bind_apply_ok hp,hk,Reply.after]
   rw [bind_apply_ok hpk,bind_apply_ok hp,bind_apply_ok hk,after_after,advance_advance]

instance : LawfulMonad (Parser τ) :=
 LawfulMonad.mk' (Parser τ) id_map_eq pure_bind_eq bind_assoc_eq

theorem bind_congr {k k' : α → Parser τ β} (h:∀ a n, p s = .ok a n →
  k a (s.advance n)=k' a (s.advance n)) : (p >>= k) s=(p >>= k') s := by
 cases hp:p s with
 | ok a n=>rw [bind_apply_ok hp,bind_apply_ok hp,h a n hp]
 | error c=>rw [bind_apply_error hp,bind_apply_error hp]

theorem bind_eq_ok {k:α → Parser τ β} {b:β} (h:(p >>= k) s = .ok b n) :
  ∃ a m m', p s = .ok a m ∧ k a (s.advance m) = .ok b m' ∧ n=m+m' := by
 cases hp:p s with
 | error c=>
  rw [bind_apply_error hp] at h
  cases h
 | ok a m=>
  rw [bind_apply_ok hp] at h
  cases hk:k a (s.advance m) with
  | error c=>
   rw [hk] at h
   cases h
  | ok b' m' =>
   rw [hk,Reply.after,Reply.ok.injEq] at h
   exact ⟨a,m,m', rfl,by rw [hk,h.1],h.2.symm⟩

theorem map_eq_ok {f:α → β} {b:β} (h:(f <$> p) s = .ok b n) :
  ∃ a, p s = .ok a n ∧ f a=b := by
 cases hp:p s with
 | error c=>
  rw [map_apply_error hp] at h
  cases h
 | ok a m=>
  rw [map_apply_ok hp,Reply.ok.injEq] at h
  exact ⟨a,by rw [h.2],h.1⟩

theorem lookAhead_eq_ok (h:p.lookAhead s = .ok a n) :
  n=0 ∧ ∃ m, p s = .ok a m := by
 rw [Parser.lookAhead] at h
 cases hp:p s with
 | error c=>simp [hp] at h
 | ok b m=>
  rw [hp,Reply.ok.injEq] at h
  exact ⟨h.2.symm,m,by rw [h.1]⟩

end Answers

theorem guard_eq_ok {b:Bool} {s:Input PosToken} {u:Unit} {n:ℕ}
  (h:guard b s = .ok u n) : b=true ∧ n=0 := by
 cases b with
 | false=>cases h
 | true=>
  cases h
  exact ⟨rfl,rfl⟩

/-- Neither a space nor an annotation comes next. -/
def Settled (s:Input PosToken) : Prop :=
 ∀ t ∈ s.ahead.head?, isSpaceToken t=false ∧ isAnnotation t=false

def NoSpaceNext (s:Input PosToken) : Prop := ∀ t ∈ s.ahead.head?, isSpaceToken t=false

section Tokens
variable {N:Type} {G:Grammar N} {hints:MixfixHintRegistry} {nextLineOk:Bool}
 {s:Input PosToken}

theorem satisfy_error {f:PosToken → Bool} (h:∀ t ∈ s.ahead.head?, f t=false) :
  satisfy f s = .error false := by
 rw [satisfy]
 cases hs:s.ahead with
 | nil=>rfl
 | cons t rest=>
  rw [hs] at h
  simp [h t rfl]

variable {n:ℕ} {A:Type} {t:PosToken}

theorem spaces_noSpaceNext {ws:List PosToken} (h:spaces s = .ok ws n) :
  NoSpaceNext (s.advance n) := by
 rw [spaces,takeWhileP,Reply.ok.injEq] at h
 have hdrop:(s.advance n).ahead=s.ahead.dropWhile isSpaceToken:=by
  have hsplit:=List.takeWhile_append_dropWhile (p := isSpaceToken) (l := s.ahead)
  have hleft:(s.ahead.takeWhile isSpaceToken ++ s.ahead.dropWhile isSpaceToken).drop
    (s.ahead.takeWhile isSpaceToken).length=s.ahead.dropWhile isSpaceToken :=
   List.drop_left
  rw [hsplit] at hleft
  rw [←h.2]
  exact hleft
 intro t ht
 rw [hdrop] at ht
 have hnot:=List.head?_dropWhile_not isSpaceToken s.ahead
 rw [ht] at hnot
 exact hnot

theorem spaces_nothing (h:NoSpaceNext s) : spaces s = .ok [] 0 := by
 have htake:s.ahead.takeWhile isSpaceToken=[]:=by
  cases hs:s.ahead with
  | nil=>rfl
  | cons t rest=>
   have ht:=h t (by rw [hs]; rfl)
   rw [List.takeWhile_cons_of_neg (by rw [ht]; exact Bool.false_ne_true)]
 rw [spaces,takeWhileP,htake]
 rfl

theorem annotation_error (h:∀ t ∈ s.ahead.head?, isAnnotation t=false) :
  annotation G s = .error false := by
 rw [ annotation,bind_apply_error (satisfy_error h)]

theorem annotation_ok {c:CsnCluster} (h : annotation G s = .ok c n) :
  0 < n ∧ NoSpaceNext (s.advance n) ∧ s.ahead ≠ [] := by
 rw [ annotation] at h
 obtain ⟨t,m,k,ht,hrest,rfl⟩:=bind_eq_ok h
 obtain ⟨ws,m', k', hws,hrest', rfl⟩:=bind_eq_ok hrest
 obtain ⟨original,m'', k'', horiginal,hlast,rfl⟩:=bind_eq_ok hrest'
 cases hlast
 have hm:m=1 ∧ s.ahead ≠ []:=by
  rw [satisfy] at ht
  cases hs:s.ahead with
  | nil=>simp [hs] at ht
  | cons t' rest=>
   simp only [hs] at ht
   split at ht
   · cases ht
     exact ⟨rfl,List.cons_ne_nil _ _⟩
   · cases ht
 have hm'' : m'' = 0:=by
  cases htokens:annotationTokens G t with
  | none=>
   rw [htokens] at horiginal
   cases horiginal
  | some ts=>
   rw [htokens] at horiginal
   cases horiginal
   rfl
 refine ⟨by omega, ?_,hm.2⟩
 rw [hm'', ← advance_advance]
 exact spaces_noSpaceNext hws

theorem reads_ofOption (o:Option A) : Reads (ofOption o) fun _ _ _=>True := by
 cases o with
 | none=>exact reads_fail
 | some a=>exact reads_pure fun _=>trivial

theorem reads_annotation : Reads ( annotation G) fun _ _ _=>True := by
 refine reads_satisfy.bind (S := fun _ _ _ _=>True) (fun t=>?_) fun _ _ _ _ _ _ _=>trivial
 refine reads_takeWhileP.bind (S := fun _ _ _ _=>True) (fun ws=>?_)
  fun _ _ _ _ _ _ _=>trivial
 exact (reads_ofOption _).bind (S := fun _ _ _ _=>True) (fun _=>reads_pure fun _=>trivial)
  fun _ _ _ _ _ _ _=>trivial

theorem consumes_annotation : Consumes ( annotation G) := by
 refine ⟨fun _ _ t=>t ≠ [],fun s c n h=>?_,fun _ _ _ h=>h⟩
 obtain ⟨t,rest,hahead,hn,-⟩:= reads_annotation s c n h
 refine ⟨t,rest,hahead,hn, ?_⟩
 rintro rfl
 have hpos:=(annotation_ok h).1
 rw [hn] at hpos
 exact Nat.lt_irrefl 0 hpos

theorem not_annotation_of_error (h : annotation G s = .error false) :
  ∀ t ∈ s.ahead.head?, isAnnotation t=false := by
 intro t ht
 rw [←Bool.not_eq_true]
 intro hann
 have hsat:satisfy isAnnotation s = .ok t 1:=by
  rw [satisfy]
  cases hs:s.ahead with
  | nil=>simp [hs] at ht
  | cons t' rest=>
   rw [hs,List.head?_cons,Option.mem_some_iff] at ht
   simp [ht,hann]
 rw [ annotation,bind_apply_ok hsat] at h
 revert h
 generalize (spaces >>= _ : TokenParser CsnCluster) (s.advance 1)=r
 cases r with
 | ok c m=>exact fun h=>absurd h (by simp [Reply.after])
 | error c=>exact fun h=>absurd h (by simp [Reply.after])

section Many
variable {A:Type} {p:TokenParser A}

theorem many_ok (hp:Consumes p) {a:A} {n:ℕ} (h:p s = .ok a n) :
  many p s=((List.cons a <$> many p) (s.advance n)).after n :=
 (congrFun (many_eq hp) s).trans (bind_apply_ok (optional_ok h))

theorem many_error (hp:Consumes p) (h:p s = .error false) : many p s = .ok [] 0 :=
 (congrFun (many_eq hp) s).trans (bind_apply_ok (optional_error h))

theorem many_consumed (hp:Consumes p) (h:p s = .error true) : many p s = .error true :=
 (congrFun (many_eq hp) s).trans (bind_apply_error (orElse_consumed (map_apply_error h)))

end Many

theorem many_annotation_settled (hs:NoSpaceNext s) {cs:List CsnCluster}
  (h:many ( annotation G) s = .ok cs n) : Settled (s.advance n) := by
 induction hlen : s.ahead.length using Nat.strong_induction_on generalizing s cs n with
 | _ len ih=>
  cases hstep: annotation G s with
  | ok c m=>
   obtain ⟨hm,hnext,hne⟩:=annotation_ok hstep
   have hlt:(s.advance m).ahead.length < len:=by
    rw [←hlen,Input.advance,List.length_drop]
    have:=List.length_pos_of_ne_nil hne
    omega
   rw [many_ok consumes_annotation hstep] at h
   cases hmore:many ( annotation G) (s.advance m) with
   | error c' =>
    rw [map_apply_error hmore] at h
    cases h
   | ok cs' m' =>
    rw [map_apply_ok hmore] at h
    obtain ⟨-,rfl⟩:=Reply.ok.inj h
    have hsettled:=ih _ hlt hnext hmore rfl
    rwa [advance_advance] at hsettled
  | error c=>
   cases c with
   | true=>
    rw [many_consumed consumes_annotation hstep] at h
    cases h
   | false=>
    rw [many_error consumes_annotation hstep] at h
    obtain ⟨-,rfl⟩:=Reply.ok.inj h
    exact fun t ht=>⟨hs t ht,not_annotation_of_error hstep t ht⟩

theorem spaceOrAnnotations_settled {l:Lexeme Unit}
  (h:spaceOrAnnotations G s = .ok l n) : Settled (s.advance n) := by
 rw [spaceOrAnnotations] at h
 obtain ⟨ws,m,k,hws,hrest,rfl⟩:=bind_eq_ok h
 obtain ⟨cs,m', k', hcs,hlast,rfl⟩:=bind_eq_ok hrest
 cases hlast
 have hsettled:=many_annotation_settled (spaces_noSpaceNext hws) hcs
 rwa [advance_advance] at hsettled

theorem spaceOrAnnotations_nothing (h:Settled s) :
  spaceOrAnnotations G s = .ok ⟨[],(),[]⟩ 0 := by
 have hspaces:spaces s = .ok [] 0:=spaces_nothing fun t ht=>(h t ht).1
 have hmany:many ( annotation G) s = .ok [] 0:=
  many_error consumes_annotation (annotation_error fun t ht=>(h t ht).2)
 rw [spaceOrAnnotations,bind_apply_ok hspaces,advance_zero,bind_apply_ok hmany]
 rfl

theorem peekToken_settled (h:Settled s) {rest:List PosToken}
  (hs:s.ahead=t::rest) : peekToken G s = .ok t 0 := by
 have hany:(anySingle:TokenParser PosToken) s = .ok t 1:=by
  rw [anySingle,satisfy,hs]
  rfl
 have hinner:(do
   let _ ← spaceOrAnnotations G
   anySingle : TokenParser PosToken) s = .ok t 1 := by
  rw [bind_apply_ok (spaceOrAnnotations_nothing h),advance_zero,hany]
  rfl
 rw [peekToken,Parser.lookAhead,hinner]

def IsName (t:PosToken) : Prop :=
 ∃ text, computedPayload t = .tIdentifiers (.tQuoted text) ∨
  computedPayload t = .tIdentifiers (.tIdentifier text)

theorem computedPayload_annotation (h : isAnnotation t=true) :
  ∃ a, computedPayload t = .tAnnotations a := by
 rw [ isAnnotation] at h
 rw [computedPayload]
 cases hp:t.payload with
 | tAnnotations a=>exact ⟨a,rfl⟩
 | _=>
  rw [hp] at h
  exact absurd h Bool.false_ne_true

theorem settled_of_identifier {rest:List PosToken} {i:TIdentifiers}
  (hs:s.ahead=t::rest) (ht:computedPayload t = .tIdentifiers i) : Settled s := by
 intro t' ht'
 rw [hs,List.head?_cons,Option.mem_some_iff] at ht'
 subst ht'
 constructor
 · rw [isSpaceToken,ht]
 · rw [←Bool.not_eq_true]
   intro hann
   obtain ⟨a,ha⟩:= computedPayload_annotation hann
   rw [ht] at ha
   cases ha

theorem lexeme_ok {p:TokenParser A} {l:Lexeme A} (h:lexeme G p s = .ok l n) :
  ∃ m, p s = .ok l.payload m ∧ m ≤ n ∧ Settled (s.advance n) := by
 rw [lexeme] at h
 obtain ⟨a,m,k,ha,hrest,rfl⟩:=bind_eq_ok h
 obtain ⟨ws,m', k', hws,hlast,rfl⟩:=bind_eq_ok hrest
 cases hlast
 have hsettled:=spaceOrAnnotations_settled hws
 rw [advance_advance] at hsettled
 exact ⟨m,ha,Nat.le_add_right m _,hsettled⟩

theorem tokenWith_ok {cond:TokenType → Option A} {x:PosToken × A}
  (h:tokenWith cond s = .ok x n) :
  n=1 ∧ ∃ t rest, s.ahead=t::rest ∧ cond (computedPayload t)=some x.2 := by
 rw [tokenWith] at h
 cases hs:s.ahead with
 | nil=>simp [hs] at h
 | cons t rest=>
  simp only [hs] at h
  cases hcond:cond (computedPayload t) with
  | none=>simp [hcond] at h
  | some a=>
   simp only [hcond,Reply.ok.injEq] at h
   refine ⟨h.2.symm,t,rest,rfl, ?_⟩
   rw [hcond,←h.1]

theorem spacedToken_ok {cond:TokenType → Option A} {x:Epa A}
  (h:spacedToken G cond s = .ok x n) :
  0 < n ∧ Settled (s.advance n) ∧
   ∃ t rest a, s.ahead=t::rest ∧ cond (computedPayload t)=some a := by
 rw [spacedToken] at h
 obtain ⟨l,hl,-⟩:=map_eq_ok h
 obtain ⟨m,hm,hle,hsettled⟩:=lexeme_ok hl
 obtain ⟨rfl,t,rest,hs,hcond⟩:=tokenWith_ok hm
 exact ⟨hle,hsettled,t,rest,_,hs,hcond⟩

theorem keywordName_ok {kw:Epa Name} (h:keywordName G s = .ok kw n) :
  0 < n ∧ Settled (s.advance n) ∧ ∃ t rest, s.ahead=t::rest ∧ IsName t := by
 rw [keywordName] at h
 obtain ⟨x,hx,-⟩:=map_eq_ok h
 cases hquoted:spacedToken G quotedText s with
 | ok y m=>
  rw [orElse_ok hquoted,Reply.ok.injEq] at hx
  obtain ⟨hpos,hsettled,t,rest,a,hs,hcond⟩:=spacedToken_ok hquoted
  rw [hx.2] at hpos hsettled
  refine ⟨hpos,hsettled,t,rest,hs, ?_⟩
  unfold quotedText at hcond
  split at hcond
  · next text htext=>exact ⟨text,Or.inl htext⟩
  · cases hcond
 | error c=>
  cases c with
  | true=>
   rw [orElse_consumed hquoted] at hx
   cases hx
  | false=>
   rw [orElse_error hquoted] at hx
   obtain ⟨hpos,hsettled,t,rest,a,hs,hcond⟩:=spacedToken_ok hx
   refine ⟨hpos,hsettled,t,rest,hs, ?_⟩
   unfold identifierText at hcond
   split at hcond
   · next text htext=>exact ⟨text,Or.inr htext⟩
   · cases hcond

theorem regularPostfixOperator_error {rest:List PosToken}
  (hs:s.ahead=t::rest) (ht:IsName t) :
  regularPostfixOperator G s = .error false := by
 have hplain:∀ tt : TokenType, (∀ i, tt ≠ .tIdentifiers i) →
   plainToken tt s = .error false := by
  intro tt htt
  refine satisfy_error fun t' ht' =>?_
  rw [hs,List.head?_cons,Option.mem_some_iff] at ht'
  subst ht'
  rw [beq_eq_false_iff_ne]
  obtain ⟨text,htext | htext⟩:=ht
  · exact fun heq=>htt _ (heq ▸ htext)
  · exact fun heq=>htt _ (heq ▸ htext)
 have hspaced:∀ tt : TokenType, (∀ i, tt ≠ .tIdentifiers i) →
   spacedToken_ G tt s = .error false := fun tt htt=>by
  rw [spacedToken_,lexeme,bind_apply_error (hplain tt htt)]
 have hpercent:=hspaced (.tSymbols .tPercent) fun i h=>by cases h
 have has:=hspaced (.tKeywords .tKAs) fun i h=>by cases h
 rw [regularPostfixOperator,orElse_error (map_apply_error hpercent),postfixAsType,opToken,
  bind_apply_error (map_apply_error has)]

end Tokens

end L4Ide.MixfixChains
