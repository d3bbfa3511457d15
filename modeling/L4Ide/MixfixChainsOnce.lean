import L4Ide.MixfixChainsShared

set_option autoImplicit false

/-!
# Chains that keep their operand

On tokens in source order, what is read behind an operand is the same whether the operand of an
infix keyword is kept or parsed again. The induction is on the tokens ahead: every further keyword
takes one.
-/
namespace L4Ide.MixfixChains
open ConsumingParsers ConsumingParsers.Parser TokenLexer SourceAnnotations

/-- The lines do not go back, and they are counted from one. -/
structure InOrder (s:Input PosToken) : Prop where
 ordered : s.ahead.Pairwise fun t u=>t.range.start.line ≤ u.range.start.line
 positive : ∀ t ∈ s.ahead, 0 < t.range.start.line

theorem InOrder.advance {s:Input PosToken} (h:InOrder s) (n:ℕ) : InOrder (s.advance n) where
 ordered:=h.ordered.sublist (List.drop_sublist n s.ahead)
 positive t ht := h.positive t (List.mem_of_mem_drop ht)

section Optional
variable {τ α β γ:Type}

variable {p p' : Parser τ α} {s:Input τ}

variable {q:Parser τ α} {k:α → Parser τ β} {n:ℕ} {c:Bool}

theorem optionalAttempt_bind {q:α → Parser τ β} {k:Option β → Parser τ γ}
  {a:α} (hp:p s = .ok a n)
  (hq:∃ b m, q a (s.advance n) = .ok b m) :
  ((p >>= q).attempt.optional >>= k) s =
   (p >>= fun a=>q a >>= fun b=>k (some b)) s := by
 obtain ⟨b,m,hb⟩:=hq
 have hboth:(p >>= q) s = .ok b (n+m):=by rw [bind_apply_ok hp,hb,Reply.after]
 rw [bind_apply_ok (optional_ok (attempt_ok hboth)),bind_apply_ok hp,bind_apply_ok hb,
  after_after,advance_advance]

theorem optionalAttempt_error {k:Option α → Parser τ γ}
  (hp:p s = .error c) : (p.attempt.optional >>= k) s=k none s := by
 rw [bind_apply_ok (optional_error (attempt_error hp)),advance_zero,after_zero]

theorem bind_congr_left (h:p s=p' s) :
  (p >>= k) s=(p' >>= k) s := by
 change Parser.bind p k s=Parser.bind p' k s
 rw [Parser.bind,Parser.bind,h]

theorem bind_of_after
  (h:p s=(q (s.advance n)).after n) : (p >>= k) s=((q >>= k) (s.advance n)).after n := by
 cases hq:q (s.advance n) with
 | ok a m=>
  rw [hq,Reply.after] at h
  rw [bind_apply_ok h,bind_apply_ok hq,after_after,advance_advance]
 | error c=>
  rw [hq,Reply.after] at h
  rw [bind_apply_error h,bind_apply_error hq,Reply.after]

theorem orElse_congr_left (h:p s=p' s) :
  (p <|> q) s=(p' <|> q) s := by
 change Parser.orElse p q s=Parser.orElse p' q s
 rw [Parser.orElse,Parser.orElse,h]

theorem optional_congr (h:p s=p' s) :
  p.optional s=p'.optional s := orElse_congr_left (bind_congr_left h)

theorem attempt_congr (h:p s=p' s) :
  p.attempt s=p'.attempt s := by
 rw [Parser.attempt,Parser.attempt,h]

theorem optional_total (hp:p s ≠ .error true) :
  ∃ r n, p.optional s = .ok r n := by
 cases h:p s with
 | ok a n=>exact ⟨some a,n,optional_ok h⟩
 | error c=>
  cases c with
  | true=>exact absurd h hp
  | false=>exact ⟨none,0,optional_error h⟩

theorem attempt_ne_consumed (p:Parser τ α) (s:Input τ) : p.attempt s ≠ .error true := by
 cases h:p s with
 | ok a n=>
  rw [attempt_ok h]
  intro heq
  cases heq
 | error c=>
  rw [attempt_error h]
  intro heq
  cases heq

theorem attempt_eq_error (h:p.attempt s = .error c) :
  c=false := by
 cases c with
 | false=>rfl
 | true=>exact absurd h (attempt_ne_consumed p s)

theorem attempt_orElse_ne_consumed (p q:Parser τ α) (s:Input τ) :
  (p.attempt <|> q.attempt) s ≠ .error true := by
 cases h:p.attempt s with
 | ok a n=>
  rw [orElse_ok h]
  intro heq
  cases heq
 | error c=>
  cases c with
  | true=>exact absurd h (attempt_ne_consumed p s)
  | false=>
   rw [orElse_error h]
   exact attempt_ne_consumed q s

end Optional

section Chains
variable {N:Type} {G:Grammar N} {hints:MixfixHintRegistry} {nextLineOk:Bool}
 {s:Input PosToken} {info:ExprLineInfo}

/-! ### The guards of a keyword -/

variable {b:Bool} {tok:SrcPos} {regularOps:TokenParser (Expr N → Expr N)}

theorem keywordAlignedWith_sameLine
  (h:tok.line=info.exprEndLine) : keywordAlignedWith b info tok=true := by
 simp [keywordAlignedWith,h]

theorem lt_of_keywordAlignedWith (hpos:0 < tok.line)
  (halign:keywordAlignedWith b info tok=true) (hother:tok.line ≠ info.exprEndLine) :
  info.exprEndLine < tok.line := by
 have hline:(tok.line == info.exprEndLine)=false:=beq_eq_false_iff_ne.2 hother
 simp only [keywordAlignedWith,hline,Bool.false_or,Bool.and_eq_true,Option.any_eq_true,
  Bool.or_eq_true,beq_iff_eq] at halign
 obtain ⟨-,indent,-,-,hzero | hnext⟩:=halign
 · omega
 · omega

variable {eN:Epa Name} {sameLine c:Bool} {n m k:ℕ} {t:PosToken} {a:Expr N}

theorem mixfixPostfixHead_ok (h:mixfixPostfixHead G hints info s = .ok (eN,sameLine) n) :
  ∃ t rest, s.ahead=t::rest ∧ IsName t ∧ peekToken G s = .ok t 0 ∧
   sameLine=(t.range.start.line == info.exprEndLine) ∧
   keywordAlignedWith (hasMixfixHints hints || isQuotedIdentifierToken t) info
    t.range.start=true ∧
   keywordName G s = .ok eN n ∧
   (!hasMixfixHints hints || isKnownMixfixKeyword eN.payload.rawName hints)=true := by
 rw [mixfixPostfixHead] at h
 obtain ⟨tok,m,k,htok,hrest,rfl⟩:=bind_eq_ok h
 obtain ⟨rfl,-⟩:=lookAhead_eq_ok htok
 obtain ⟨u,m', k', hguard,hrest', rfl⟩:=bind_eq_ok hrest
 obtain ⟨halign,rfl⟩:=guard_eq_ok hguard
 obtain ⟨kw,m'', k'', hkw,hrest'', rfl⟩:=bind_eq_ok hrest'
 obtain ⟨u', m''', k''', hguard', hlast,rfl⟩:=bind_eq_ok hrest''
 obtain ⟨hknown,rfl⟩:=guard_eq_ok hguard'
 cases hlast
 rw [advance_zero,advance_zero] at hkw
 obtain ⟨-,-,t,rest,hs,i,hname⟩:=keywordName_ok hkw
 have hsettled:Settled s:=by
  obtain hquoted | hplain:=hname
  · exact settled_of_identifier hs hquoted
  · exact settled_of_identifier hs hplain
 have hpeek:=peekToken_settled (G := G) hsettled hs
 rw [htok,Reply.ok.injEq] at hpeek
 obtain ⟨rfl,-⟩:=hpeek
 refine ⟨tok,rest,hs,⟨i,hname⟩,htok,rfl,halign, ?_,hknown⟩
 rw [hkw]
 congr 1
 omega

/-! ### A keyword with an operand -/

theorem anySingle_cons {rest:List PosToken} (hs:s.ahead=t::rest) :
  (anySingle:TokenParser PosToken) s = .ok t 1 := by
 rw [anySingle,satisfy,hs]
 rfl

theorem lookAhead_anySingle {rest:List PosToken} (hs:s.ahead=t::rest) :
  (anySingle:TokenParser PosToken).lookAhead s = .ok t 0 := by
 rw [Parser.lookAhead,anySingle_cons hs]

theorem lookAhead_anySingle_error (hs:s.ahead=[]) :
  (anySingle:TokenParser PosToken).lookAhead s = .error false := by
 rw [Parser.lookAhead,anySingle,satisfy,hs]

theorem guard_true (s:Input PosToken) : guard true s = .ok () 0 := rfl

theorem guard_false (s:Input PosToken) : guard false s = .error false := rfl

theorem peekNextTokenLayout_ok (h:peekToken G s = .ok t 0) :
  peekNextTokenLayout G s = .ok ⟨t.range.start.line,some t.range.start.column⟩ 0 := by
 rw [peekNextTokenLayout,bind_apply_ok h]
 rfl

/-- The keyword, the layout of the operand and the operand, one after the other. -/
structure KeywordTaken (G:Grammar N) (hints:MixfixHintRegistry) (info:ExprLineInfo)
  (s:Input PosToken) (ahead:InfixAhead N) (m k:ℕ) : Prop where
 head : mixfixPostfixHead G hints info s = .ok (ahead.keyword,true) m
 next : ∃ t rest, (s.advance m).ahead=t::rest ∧ t.range.start.line=info.exprEndLine
 layout : peekNextTokenLayout G (s.advance m) = .ok ahead.operandLayout 0
 operand : G.baseExpr' (s.advance m) = .ok ahead.operand k

theorem infixAhead_ok {ahead:InfixAhead N} (h:infixAhead G hints info s = .ok ahead n) :
  ∃ m k, n=m+k ∧ KeywordTaken G hints info s ahead m k := by
 rw [infixAhead,Parser.attempt] at h
 split at h
 · cases h
 · obtain ⟨⟨kw,sameLine⟩,m,k,hhead,hrest,rfl⟩:=bind_eq_ok h
   obtain ⟨u,m₁,k₁,hsame,hrest₁,rfl⟩:=bind_eq_ok hrest
   obtain ⟨rfl,rfl⟩:=guard_eq_ok hsame
   rw [advance_zero] at hrest₁
   obtain ⟨t,m₂,k₂,ht,hrest₂,rfl⟩:=bind_eq_ok hrest₁
   obtain ⟨rfl,-⟩:=lookAhead_eq_ok ht
   rw [advance_zero] at hrest₂
   obtain ⟨u', m₃,k₃,hguard,hrest₃,rfl⟩:=bind_eq_ok hrest₂
   obtain ⟨hline,rfl⟩:=guard_eq_ok hguard
   rw [advance_zero] at hrest₃
   obtain ⟨layout,m₄,k₄,hlayout,hrest₄,rfl⟩:=bind_eq_ok hrest₃
   obtain ⟨tok,m₅,k₅,htok,hlast,hm₄⟩:=bind_eq_ok hlayout
   obtain ⟨rfl,-⟩:=lookAhead_eq_ok htok
   cases hlast
   subst hm₄
   rw [advance_zero] at hrest₄
   obtain ⟨operand,m₆,k₆,hoperand,hend,rfl⟩:=bind_eq_ok hrest₄
   cases hend
   refine ⟨m,m₆,by omega,hhead, ?_,hlayout,hoperand⟩
   cases hs:(s.advance m).ahead with
   | nil=>
    rw [lookAhead_anySingle_error hs] at ht
    cases ht
   | cons t' rest=>
    rw [lookAhead_anySingle hs] at ht
    cases ht
    exact ⟨t,rest,rfl,beq_iff_eq.1 hline⟩

theorem notFollowedByOperand_error {ahead:InfixAhead N}
  (h:KeywordTaken G hints info s ahead m k) :
  notFollowedByOperand G info.exprEndLine (s.advance m) = .error false := by
 obtain ⟨t,rest,hs,hline⟩:=h.next
 have hinner:(do
   let tok ← lookAhead anySingle
   guard (tok.range.start.line == info.exprEndLine)
   G.baseExpr' : TokenParser (Expr N)) (s.advance m) = .ok ahead.operand k := by
  rw [bind_apply_ok (lookAhead_anySingle hs),advance_zero,beq_iff_eq.2 hline,
   bind_apply_ok (guard_true _),advance_zero,h.operand,after_zero,after_zero]
 rw [notFollowedByOperand,Parser.notFollowedBy,hinner]

theorem postfixAfter_none {lineAwareOps:ExprLineInfo → TokenParser (Expr N → Expr N)}
  {c' : Bool}
  (hline:lineAwareOps (postfixLineInfo a) s = .error c) (hregular:regularOps s = .error c') :
  postfixAfter lineAwareOps regularOps a s = .ok a 0 := by
 have hnone:((lineAwareOps (postfixLineInfo a)).attempt <|> regularOps.attempt).optional s =
   .ok none 0 := by
  refine optional_error ?_
  rw [orElse_error (attempt_error hline),attempt_error hregular]
 rw [postfixAfter]
 exact bind_apply_ok hnone

def postfixTail (G:Grammar N) (operandTest:ℕ → TokenParser Unit) (info:ExprLineInfo)
  (eN:Epa Name) (sameLine:Bool) : TokenParser (Expr N → Expr N) := do
 newlineGuard G info sameLine
 operandTest info.exprEndLine
 return fun l=>.app (fixAnnoSrcRange (mkAnno [.annoHole none] ++
  (mkHoleAnnoFor l.rangeOf ++ mkSimpleEpaAnno eN))) eN.payload [l]

theorem mixfixPostfixOpWith_eq (operandTest:ℕ → TokenParser Unit) :
  mixfixPostfixOpWith G hints operandTest info =
   (mixfixPostfixHead G hints info >>= fun x=>
    postfixTail G operandTest info x.1 x.2).attempt := rfl

theorem postfixAfter_keywordTaken {ahead:InfixAhead N}
  (h:KeywordTaken G hints (postfixLineInfo a) s ahead m k) :
  postfixAfter (mixfixPostfixOpWith G hints (notFollowedByOperand G))
   (regularPostfixOperator G) a s = .ok a 0 := by
 have hmixfix:mixfixPostfixOpWith G hints (notFollowedByOperand G) (postfixLineInfo a) s =
   .error false := by
  have hnew:newlineGuard G (postfixLineInfo a) true (s.advance m) = .ok () 0:=rfl
  have htail:postfixTail G (notFollowedByOperand G) (postfixLineInfo a) ahead.keyword true
    (s.advance m) = .error false := by
   rw [postfixTail,bind_apply_ok hnew,advance_zero,
    bind_apply_error (notFollowedByOperand_error h),after_zero]
  have hinner:(mixfixPostfixHead G hints (postfixLineInfo a) >>= fun x=>
    postfixTail G (notFollowedByOperand G) (postfixLineInfo a) x.1 x.2) s =
     .error (false || decide (0 < m)) := by
   rw [bind_apply_ok h.head,htail,Reply.after]
  rw [mixfixPostfixOpWith_eq,attempt_error hinner]
 obtain ⟨t,rest,hs,hname,-⟩:=mixfixPostfixHead_ok h.head
 exact postfixAfter_none hmixfix (regularPostfixOperator_error hs hname)

/-! ### A keyword without an operand -/

theorem newlineGuard_ok {u:Unit} (h:newlineGuard G info sameLine s = .ok u n) : n=0 := by
 cases sameLine with
 | true=>
  cases h
  rfl
 | false=>
  obtain ⟨next,m,k,hnext,hguard,rfl⟩:=bind_eq_ok h
  obtain ⟨-,rfl⟩:=guard_eq_ok hguard
  cases hpeek:peekToken G s with
  | ok t j=>
   obtain ⟨rfl,-⟩:=lookAhead_eq_ok hpeek
   rw [optional_ok hpeek,Reply.ok.injEq] at hnext
   omega
  | error c=>
   cases c with
   | false=>
    rw [optional_error hpeek,Reply.ok.injEq] at hnext
    omega
   | true=>
    have hnone:(peekToken G).optional s = .error true:=
     orElse_consumed (map_apply_error hpeek)
    rw [hnone] at hnext
    cases hnext

theorem notFollowedByOperand_ok {endLine:ℕ}
  (h:∀ t rest, s.ahead=t::rest → t.range.start.line=endLine →
   ∃ c, G.baseExpr' s = .error c) :
  notFollowedByOperand G endLine s = .ok () 0 := by
 have hinner:∃ c, (do
   let tok ← lookAhead anySingle
   guard (tok.range.start.line == endLine)
   G.baseExpr' : TokenParser (Expr N)) s = .error c := by
  cases hs:s.ahead with
  | nil=>exact ⟨false,bind_apply_error (lookAhead_anySingle_error hs)⟩
  | cons t rest=>
   rw [bind_apply_ok (lookAhead_anySingle hs),advance_zero,after_zero]
   cases hline:t.range.start.line == endLine with
   | false=>exact ⟨false,bind_apply_error (guard_false s)⟩
   | true=>
    obtain ⟨c,hc⟩:=h t rest hs (beq_iff_eq.1 hline)
    refine ⟨c, ?_⟩
    rw [bind_apply_ok (guard_true s),advance_zero,after_zero,hc]
 obtain ⟨c,hc⟩:=hinner
 rw [notFollowedByOperand,Parser.notFollowedBy,hc]

/-- A keyword on the line of its argument, with no operand kept, has none on that line. -/
theorem baseExpr'_error_of_sameLine (hhead:mixfixPostfixHead G hints info s = .ok (eN,true) n)
  (hahead:infixAhead G hints info s = .error c) {rest:List PosToken}
  (hs:(s.advance n).ahead=t::rest) (hline:t.range.start.line=info.exprEndLine) :
  ∃ c, G.baseExpr' (s.advance n) = .error c := by
 cases hbase:G.baseExpr' (s.advance n) with
 | error c' =>exact ⟨c', rfl⟩
 | ok b k=>
  obtain ⟨-,-,-,-,-,-,-,hkw,-⟩:=mixfixPostfixHead_ok hhead
  have hpeek:=peekToken_settled (G := G) (keywordName_ok hkw).2.1 hs
  have hfound:infixAhead G hints info s =
    .ok ⟨eN,⟨t.range.start.line,some t.range.start.column⟩,b⟩ (n+k) := by
   rw [infixAhead]
   refine attempt_ok ((bind_apply_ok hhead).trans ?_)
   have htail:(do
     guard true
     let tok ← lookAhead anySingle
     guard (tok.range.start.line == info.exprEndLine)
     let operandLayout ← peekNextTokenLayout G
     let operand ← G.baseExpr'
     return ⟨eN,operandLayout,operand⟩ : TokenParser (InfixAhead N)) (s.advance n) =
      .ok ⟨eN,⟨t.range.start.line,some t.range.start.column⟩,b⟩ k := by
    rw [bind_apply_ok (guard_true _),advance_zero,after_zero,
     bind_apply_ok (lookAhead_anySingle hs),advance_zero,after_zero,beq_iff_eq.2 hline,
     bind_apply_ok (guard_true _),advance_zero,after_zero,
     bind_apply_ok (peekNextTokenLayout_ok hpeek),advance_zero,after_zero,
     bind_apply_ok hbase]
    rfl
   exact congrArg (Reply.after n) htail
  rw [hahead] at hfound
  cases hfound

theorem notFollowedByOperand_of_infixAhead_error (horder:InOrder s)
  (hhead:mixfixPostfixHead G hints info s = .ok (eN,sameLine) n)
  (hahead:infixAhead G hints info s = .error c) :
  notFollowedByOperand G info.exprEndLine (s.advance n) = .ok () 0 := by
 refine notFollowedByOperand_ok fun t rest hs hline=>?_
 cases sameLine with
 | true=>exact baseExpr'_error_of_sameLine hhead hahead hs hline
 | false=>
  obtain ⟨u,rest', hs', -,-,hother,halign,hkw,-⟩:=mixfixPostfixHead_ok hhead
  have hn:0 < n:=(keywordName_ok hkw).1
  have hlt:=lt_of_keywordAlignedWith (horder.positive u (by rw [hs']; exact List.mem_cons_self))
   halign (beq_eq_false_iff_ne.1 hother.symm)
  have hmem:t ∈ rest' :=by
   have hdrop:(s.advance n).ahead=rest'.drop (n-1):=by
    rw [Input.advance,hs']
    cases n with
    | zero=>exact absurd hn (Nat.lt_irrefl 0)
    | succ n=>rfl
   rw [hdrop] at hs
   exact List.mem_of_mem_drop (by rw [hs]; exact List.mem_cons_self)
  have hle:u.range.start.line ≤ t.range.start.line:=by
   have hordered:=horder.ordered
   rw [hs'] at hordered
   exact (List.pairwise_cons.1 hordered).1 t hmem
  omega

theorem mixfixPostfixOpWith_of_infixAhead_error (horder:InOrder s)
  (hahead:infixAhead G hints info s = .error c) :
  mixfixPostfixOpWith G hints (fun _=>pure ()) info s =
   mixfixPostfixOpWith G hints (notFollowedByOperand G) info s := by
 rw [mixfixPostfixOpWith_eq,mixfixPostfixOpWith_eq,Parser.attempt,Parser.attempt]
 congr 1
 refine bind_congr fun x n hhead=>bind_congr fun u m hnew=>?_
 have hm:=newlineGuard_ok hnew
 subst hm
 have hfree:=notFollowedByOperand_of_infixAhead_error horder hhead hahead
 rw [advance_zero,bind_apply_ok hfree,bind_apply_ok (pure_apply _ _)]

theorem postfixAfter_congr
  {lineAwareOps lineAwareOps' : ExprLineInfo → TokenParser (Expr N → Expr N)}
  (h:lineAwareOps (postfixLineInfo a) s=lineAwareOps' (postfixLineInfo a) s) :
  postfixAfter lineAwareOps regularOps a s=postfixAfter lineAwareOps' regularOps a s :=
 bind_congr_left (optional_congr (orElse_congr_left (attempt_congr h)))

theorem postfixAfter_total (lineAwareOps:ExprLineInfo → TokenParser (Expr N → Expr N))
  (regularOps:TokenParser (Expr N → Expr N)) (a:Expr N) (s:Input PosToken) :
  ∃ a' n, postfixAfter lineAwareOps regularOps a s = .ok a' n := by
 obtain ⟨r,n,hr⟩:=optional_total
  (attempt_orElse_ne_consumed (lineAwareOps (postfixLineInfo a)) regularOps s)
 cases r with
 | none=>exact ⟨a,n,bind_apply_ok hr⟩
 | some f=>exact ⟨f a,n,bind_apply_ok hr⟩

/-! ### Behind an operand -/

/-- The postfix operator of an operand and the keywords that follow, when operands are kept. -/
def keptFrom (G:Grammar N) (hints:MixfixHintRegistry) (nextLineOk:Bool) (fuel:ℕ)
  (layout:ExprLineInfo) (a:Expr N) :
  TokenParser (Expr N × List (Epa Name × Expr N)) := do
 let x ← postfixOrInfix G hints a
 let rest ← gatherChain G hints nextLineOk fuel (advanceInfo layout x.1) x.2
 return (x.1,rest)

def plainFrom (G:Grammar N) (hints:MixfixHintRegistry) (nextLineOk:Bool) (fuel:ℕ)
  (layout:ExprLineInfo) (a:Expr N) :
  TokenParser (Expr N × List (Epa Name × Expr N)) := do
 let arg ← postfixAfter (mixfixPostfixOpWith G hints (notFollowedByOperand G))
  (regularPostfixOperator G) a
 let rest ← plainGatherChain G hints nextLineOk fuel (advanceInfo layout arg)
 return (arg,rest)

def keywordOperand (G:Grammar N) (hints:MixfixHintRegistry) (nextLineOk:Bool)
  (info:ExprLineInfo) : TokenParser (Epa Name × ExprLineInfo × Expr N) := do
 let kw ← mixfixKeywordAligned G hints nextLineOk info
 let argLayout ← peekNextTokenLayout G
 let a ← G.baseExpr'
 return (kw,argLayout,a)

def consPair (kw:Epa Name) (r:Expr N × List (Epa Name × Expr N)) :
  List (Epa Name × Expr N) := (kw,r.1)::r.2

theorem gatherChain_some (fuel:ℕ) (ahead:InfixAhead N) :
  gatherChain G hints nextLineOk (fuel+1) info (some ahead) =
   consPair ahead.keyword <$>
    keptFrom G hints nextLineOk fuel ahead.operandLayout ahead.operand := by
 rw [gatherChain,keptFrom]
 simp only [map_bind,bind_pure_comp,Functor.map_map]
 rfl

theorem plainGatherChain_succ (fuel:ℕ) :
  plainGatherChain G hints nextLineOk (fuel+1) info =
   ((keywordOperand G hints nextLineOk info >>= fun x=>
     (fun arg=>((x.1,arg),advanceInfo x.2.1 arg)) <$>
      postfixAfter (mixfixPostfixOpWith G hints (notFollowedByOperand G))
       (regularPostfixOperator G) x.2.2).attempt.optional >>= fun mNext=>
    mNext.elim (pure []) fun x=>
     List.cons x.1 <$> plainGatherChain G hints nextLineOk fuel x.2) := by
 rw [plainGatherChain,keywordOperand,plainBaseExpr]
 simp only [bind_assoc,bind_pure_comp,map_bind,bind_map_left]
 congr 1
 funext mNext
 cases mNext with
 | none=>rfl
 | some x=>rfl

theorem gatherChain_none (fuel:ℕ) :
  gatherChain G hints nextLineOk (fuel+1) info none =
   ((keywordOperand G hints nextLineOk info >>= fun x=>
     (fun r=>((x.1,r.1),advanceInfo x.2.1 r.1,r.2)) <$>
      postfixOrInfix G hints x.2.2).attempt.optional >>= fun mNext=>
    mNext.elim (pure []) fun x=>
     List.cons x.1 <$> gatherChain G hints nextLineOk fuel x.2.1 x.2.2) := by
 rw [gatherChain,keywordOperand]
 simp only [baseExprStep,bind_assoc,bind_pure_comp,map_bind,bind_map_left]
 congr 1
 funext mNext
 cases mNext with
 | none=>rfl
 | some x=>rfl

theorem postfixOrInfix_kept {ahead:InfixAhead N}
  (h:infixAhead G hints (postfixLineInfo a) s = .ok ahead n) :
  postfixOrInfix G hints a s = .ok (a,some ahead) n :=
 bind_apply_ok (optional_ok h)

theorem postfixOrInfix_none (h:infixAhead G hints (postfixLineInfo a) s = .error c) :
  postfixOrInfix G hints a s=((fun a' =>(a', none)) <$>
   postfixAfter (mixfixPostfixOpWith G hints fun _=>pure ()) (regularPostfixOperator G) a) s := by
 have hc:c=false:=attempt_eq_error h
 subst hc
 refine (bind_apply_ok (optional_error h)).trans ?_
 rw [advance_zero,after_zero]
 rfl

theorem postfixOrInfix_total (a:Expr N) (s:Input PosToken) :
  ∃ x n, postfixOrInfix G hints a s = .ok x n := by
 cases h:infixAhead G hints (postfixLineInfo a) s with
 | ok ahead n=>exact ⟨(a,some ahead),n,postfixOrInfix_kept h⟩
 | error c=>
  obtain ⟨a', n,ha'⟩:=postfixAfter_total (mixfixPostfixOpWith G hints fun _=>pure ())
   (regularPostfixOperator G) a s
  exact ⟨(a', none),n,(postfixOrInfix_none h).trans (map_apply_ok ha')⟩

/-! ### Kept or parsed again -/

theorem advanceInfo_eq {layout:ExprLineInfo}
  (h:(postfixLineInfo a).exprEndLine ≠ 0) : advanceInfo layout a=postfixLineInfo a := by
 rw [advanceInfo,postfixLineInfo,exprRangeWithName]
 rw [postfixLineInfo] at h
 cases hrange:a.rangeOf.or a.getAnno.range with
 | none=>
  rw [hrange] at h
  exact absurd rfl h
 | some rng=>rfl

theorem keywordOperand_keywordTaken (horder:InOrder s) {layout:ExprLineInfo}
  {ahead:InfixAhead N}
  (h:KeywordTaken G hints (postfixLineInfo a) s ahead m k) :
  keywordOperand G hints nextLineOk (advanceInfo layout a) s =
   .ok (ahead.keyword,ahead.operandLayout,ahead.operand) (m+k) := by
 obtain ⟨t,rest,hs,-,hpeek,hsame,-,hkw,hknown⟩:=mixfixPostfixHead_ok h.head
 have hline:t.range.start.line=(postfixLineInfo a).exprEndLine:=beq_iff_eq.1 hsame.symm
 have hpos:=horder.positive t (by rw [hs]; exact List.mem_cons_self)
 have hinfo:advanceInfo layout a=postfixLineInfo a:=advanceInfo_eq (by omega)
 have hkeyword:mixfixKeywordAligned G hints nextLineOk (postfixLineInfo a) s =
   .ok ahead.keyword m := by
  rw [mixfixKeywordAligned,bind_apply_ok hpeek,advance_zero,after_zero,
   keywordAlignedWith_sameLine hline,bind_apply_ok (guard_true s),advance_zero,after_zero,
   bind_apply_ok hkw,hknown,bind_apply_ok (guard_true _)]
  rfl
 rw [hinfo,keywordOperand,bind_apply_ok hkeyword,bind_apply_ok h.layout,advance_zero,
  after_zero,bind_apply_ok h.operand]
 rfl

theorem keywordOperand_ok {x:Epa Name × ExprLineInfo × Expr N}
  (h:keywordOperand G hints nextLineOk info s = .ok x n) :
  (s.advance n).ahead.length < s.ahead.length := by
 rw [keywordOperand] at h
 obtain ⟨kw,m,k,hkw,-,rfl⟩:=bind_eq_ok h
 rw [mixfixKeywordAligned] at hkw
 obtain ⟨tok,m₁,k₁,htok,hrest,rfl⟩:=bind_eq_ok hkw
 obtain ⟨rfl,-⟩:=lookAhead_eq_ok htok
 obtain ⟨u,m₂,k₂,hguard,hrest', rfl⟩:=bind_eq_ok hrest
 obtain ⟨-,rfl⟩:=guard_eq_ok hguard
 obtain ⟨kw', m₃,k₃,hname,-,rfl⟩:=bind_eq_ok hrest'
 obtain ⟨hpos,-,t,rest,hs,-⟩:=keywordName_ok hname
 rw [advance_zero,advance_zero] at hs
 rw [Input.advance,List.length_drop,hs,List.length_cons]
 omega

section Gather
variable {x:Epa Name × ExprLineInfo × Expr N} {n fuel:ℕ}

theorem gatherChain_none_ok (h:keywordOperand G hints nextLineOk info s = .ok x n) :
  gatherChain G hints nextLineOk (fuel+1) info none s =
   ((consPair x.1 <$> keptFrom G hints nextLineOk fuel x.2.1 x.2.2) (s.advance n)).after n := by
 obtain ⟨r,m,hr⟩ : ∃ r m, postfixOrInfix G hints x.2.2 (s.advance n) = .ok r m:=
  postfixOrInfix_total x.2.2 (s.advance n)
 rw [gatherChain_none,optionalAttempt_bind h ⟨_,m,map_apply_ok hr⟩,bind_apply_ok h,keptFrom]
 simp only [bind_map_left,map_bind,bind_pure_comp,Functor.map_map]
 rfl

variable {c:Bool}

theorem gatherChain_none_error
  (h:keywordOperand G hints nextLineOk info s = .error c) :
  gatherChain G hints nextLineOk (fuel+1) info none s = .ok [] 0 := by
 rw [gatherChain_none,optionalAttempt_error (bind_apply_error h)]
 rfl

theorem plainGatherChain_ok (h:keywordOperand G hints nextLineOk info s = .ok x n) :
  plainGatherChain G hints nextLineOk (fuel+1) info s =
   ((consPair x.1 <$> plainFrom G hints nextLineOk fuel x.2.1 x.2.2) (s.advance n)).after n := by
 obtain ⟨r,m,hr⟩:=postfixAfter_total (mixfixPostfixOpWith G hints (notFollowedByOperand G))
  (regularPostfixOperator G) x.2.2 (s.advance n)
 rw [plainGatherChain_succ,optionalAttempt_bind h ⟨_,m,map_apply_ok hr⟩,bind_apply_ok h,
  plainFrom]
 simp only [bind_map_left,map_bind,bind_pure_comp,Functor.map_map]
 rfl

theorem plainGatherChain_error
  (h:keywordOperand G hints nextLineOk info s = .error c) :
  plainGatherChain G hints nextLineOk (fuel+1) info s = .ok [] 0 := by
 rw [plainGatherChain_succ,optionalAttempt_error (bind_apply_error h)]
 rfl

end Gather

theorem plainGatherChain_total (fuel:ℕ) : ∀ (info:ExprLineInfo) (s:Input PosToken),
  s.ahead.length < fuel → ∃ r n, plainGatherChain G hints nextLineOk fuel info s = .ok r n := by
 induction fuel with
 | zero=>exact fun _ _ h=>absurd h (Nat.not_lt_zero _)
 | succ fuel ih=>
  intro info s hfuel
  cases hstep:keywordOperand G hints nextLineOk info s with
  | error c=>exact ⟨[],0,plainGatherChain_error hstep⟩
  | ok x n=>
   obtain ⟨arg,m,harg⟩:=postfixAfter_total
    (mixfixPostfixOpWith G hints (notFollowedByOperand G)) (regularPostfixOperator G) x.2.2
    (s.advance n)
   have hlt:=keywordOperand_ok hstep
   obtain ⟨rest,k,hrest⟩:=ih (advanceInfo x.2.1 arg) ((s.advance n).advance m) (by
    rw [Input.advance,List.length_drop]
    omega)
   have hplain:plainFrom G hints nextLineOk fuel x.2.1 x.2.2 (s.advance n) =
     .ok (arg,rest) (m+(k+0)) := by
    rw [plainFrom,bind_apply_ok harg,bind_apply_ok hrest,pure_apply,Reply.after,
     Reply.after]
   refine ⟨consPair x.1 (arg,rest),n+(m+(k+0)), ?_⟩
   rw [plainGatherChain_ok hstep,map_apply_ok hplain,Reply.after]

theorem plainFrom_total {fuel:ℕ} (layout:ExprLineInfo) (a:Expr N)
  (h:s.ahead.length < fuel) :
  ∃ r n, plainFrom G hints nextLineOk fuel layout a s = .ok r n := by
 obtain ⟨arg,m,harg⟩:=postfixAfter_total
  (mixfixPostfixOpWith G hints (notFollowedByOperand G)) (regularPostfixOperator G) a s
 obtain ⟨rest,k,hrest⟩ : ∃ rest k, plainGatherChain G hints nextLineOk fuel
   (advanceInfo layout arg) (s.advance m) = .ok rest k :=
  plainGatherChain_total fuel (advanceInfo layout arg) (s.advance m) (by
   rw [Input.advance,List.length_drop]
   omega)
 refine ⟨(arg,rest),m+(k+0), ?_⟩
 rw [plainFrom,bind_apply_ok harg,bind_apply_ok hrest,pure_apply,Reply.after,Reply.after]

theorem keptFrom_eq (fuel:ℕ) : ∀ (s:Input PosToken) (layout:ExprLineInfo) (a:Expr N),
  InOrder s → s.ahead.length < fuel →
   keptFrom G hints nextLineOk fuel layout a s =
    plainFrom G hints nextLineOk fuel layout a s := by
 induction fuel with
 | zero=>exact fun _ _ _ _ h=>absurd h (Nat.not_lt_zero _)
 | succ fuel ih=>
  intro s layout a horder hfuel
  have hgather:∀ (info:ExprLineInfo) (m:ℕ),
    gatherChain G hints nextLineOk (fuel+1) info none (s.advance m) =
     plainGatherChain G hints nextLineOk (fuel+1) info (s.advance m) := by
   intro info m
   have hm:(s.advance m).ahead.length < fuel+1:=by
    rw [Input.advance,List.length_drop]
    omega
   cases hstep:keywordOperand G hints nextLineOk info (s.advance m) with
   | error c=>rw [gatherChain_none_error hstep,plainGatherChain_error hstep]
   | ok x n=>
    have hlt:=keywordOperand_ok hstep
    rw [gatherChain_none_ok hstep,plainGatherChain_ok hstep]
    exact congrArg (Reply.after n) (bind_congr_left
     (ih _ _ _ ((horder.advance m).advance n) (by omega)))
  cases hahead:infixAhead G hints (postfixLineInfo a) s with
  | error c=>
   -- the postfix operator is read by either of the two tests, then no operand is kept
   have hpostfix:postfixAfter _ (regularPostfixOperator G) a s=postfixAfter _ _ a s:=
    postfixAfter_congr (mixfixPostfixOpWith_of_infixAhead_error horder hahead)
   rw [keptFrom,bind_congr_left (postfixOrInfix_none hahead),bind_map_left,plainFrom,
    bind_congr_left hpostfix]
   exact bind_congr fun a' m _=>bind_congr_left (hgather _ m)
  | ok ahead n=>
   -- no postfix operator is read, and the chain takes the keyword
   obtain ⟨m,k,rfl,htaken⟩:=infixAhead_ok hahead
   have hstep:keywordOperand G hints nextLineOk (advanceInfo layout a) s=_:=
    keywordOperand_keywordTaken horder htaken
   have hlt:=keywordOperand_ok hstep
   have hplain:plainGatherChain G hints nextLineOk (fuel+1) (advanceInfo layout a) s=_:=
    plainGatherChain_ok hstep
   rw [keptFrom,bind_apply_ok (postfixOrInfix_kept hahead),gatherChain_some,plainFrom,
    bind_apply_ok (postfixAfter_keywordTaken htaken),advance_zero,after_zero,
    bind_of_after hplain]
   exact congrArg (Reply.after (m+k)) (bind_congr_left (bind_congr_left
    (ih _ _ _ (horder.advance (m+k)) (by omega))))

/-! ### Whole chains -/

def ofChain (firstExpr:Expr N) (mChain:Option (Epa Name × Expr N × List (Epa Name × Expr N))) :
  Expr N :=
 mChain.elim firstExpr fun c=>buildChain firstExpr c.1 c.2.1 c.2.2

def keptTail (G:Grammar N) (hints:MixfixHintRegistry) (nextLineOk:Bool) (fuel:ℕ)
  (layout:ExprLineInfo) (a:Expr N) : TokenParser (Expr N) := do
 let x ← postfixOrInfix G hints a
 ofChain x.1 <$> x.2.elim
  (mixfixChainCont G hints nextLineOk fuel (advanceInfo layout x.1)).attempt.optional
  fun ahead=>some <$> mixfixChainFrom G hints nextLineOk fuel ahead

def plainTail (G:Grammar N) (hints:MixfixHintRegistry) (nextLineOk:Bool) (fuel:ℕ)
  (layout:ExprLineInfo) (a:Expr N) : TokenParser (Expr N) := do
 let a' ← postfixAfter (mixfixPostfixOpWith G hints (notFollowedByOperand G))
  (regularPostfixOperator G) a
 ofChain a' <$>
  (plainChainCont G hints nextLineOk fuel (advanceInfo layout a')).attempt.optional

section Whole
variable {fuel:ℕ}

theorem chainWithin_eq : chainWithin G hints nextLineOk fuel =
  peekNextTokenLayout G >>= fun layout=>G.baseExpr' >>= fun a=>
   keptTail G hints nextLineOk fuel layout a := by
 rw [chainWithin,baseExprStep]
 simp only [bind_assoc]
 congr 1
 funext layout
 congr 1
 funext a
 rw [keptTail]
 congr 1
 funext x
 cases x.2 with
 | none=>
  dsimp only [Option.elim_none]
  rw [←bind_pure_comp]
  congr 1
  funext mChain
  cases mChain with
  | none=>rfl
  | some c=>rfl
 | some ahead=>
  dsimp only [Option.elim_some]
  rw [←bind_pure_comp]
  congr 1
  funext mChain
  cases mChain with
  | none=>rfl
  | some c=>rfl

theorem plainChainWithin_eq : plainChainWithin G hints nextLineOk fuel =
  peekNextTokenLayout G >>= fun layout=>G.baseExpr' >>= fun a=>
   plainTail G hints nextLineOk fuel layout a := by
 rw [plainChainWithin,plainBaseExpr]
 simp only [bind_assoc]
 congr 1
 funext layout
 congr 1
 funext a
 rw [plainTail]
 congr 1
 funext a'
 rw [←bind_pure_comp]
 congr 1
 funext mChain
 cases mChain with
 | none=>rfl
 | some c=>rfl

theorem mixfixChainFrom_eq (ahead:InfixAhead N) :
  mixfixChainFrom G hints nextLineOk fuel ahead =
   (fun r=>(ahead.keyword,r.1,r.2)) <$>
    keptFrom G hints nextLineOk fuel ahead.operandLayout ahead.operand := by
 rw [mixfixChainFrom,keptFrom]
 simp only [map_bind,bind_pure_comp,Functor.map_map]

theorem mixfixChainCont_eq :
  mixfixChainCont G hints nextLineOk fuel info =
   keywordOperand G hints nextLineOk info >>= fun x=>
    (fun r=>(x.1,r.1,r.2)) <$> keptFrom G hints nextLineOk fuel x.2.1 x.2.2 := by
 rw [mixfixChainCont,keywordOperand,baseExprStep]
 simp only [keptFrom,bind_assoc,bind_map_left,map_bind,bind_pure_comp,Functor.map_map]

theorem plainChainCont_eq :
  plainChainCont G hints nextLineOk fuel info =
   keywordOperand G hints nextLineOk info >>= fun x=>
    (fun r=>(x.1,r.1,r.2)) <$> plainFrom G hints nextLineOk fuel x.2.1 x.2.2 := by
 rw [plainChainCont,keywordOperand,plainBaseExpr]
 simp only [plainFrom,bind_assoc,bind_map_left,map_bind,bind_pure_comp,Functor.map_map]

theorem mixfixChainCont_plain (horder:InOrder s) (hfuel:s.ahead.length < fuel) :
  mixfixChainCont G hints nextLineOk fuel info s =
   plainChainCont G hints nextLineOk fuel info s := by
 rw [mixfixChainCont_eq,plainChainCont_eq]
 refine bind_congr fun x n hstep=>bind_congr_left ?_
 have hlt:=keywordOperand_ok hstep
 exact keptFrom_eq fuel _ _ _ (horder.advance n) (by omega)

theorem keptTail_eq (horder:InOrder s) (hfuel:s.ahead.length < fuel) (layout:ExprLineInfo)
  (a:Expr N) :
  keptTail G hints nextLineOk fuel layout a s=plainTail G hints nextLineOk fuel layout a s := by
 have hlater:∀ n, (s.advance n).ahead.length < fuel:=by
  intro n
  rw [Input.advance,List.length_drop]
  omega
 cases hahead:infixAhead G hints (postfixLineInfo a) s with
 | error c=>
  have hpostfix:postfixAfter _ (regularPostfixOperator G) a s=postfixAfter _ _ a s:=
   postfixAfter_congr (mixfixPostfixOpWith_of_infixAhead_error horder hahead)
  rw [keptTail,bind_congr_left (postfixOrInfix_none hahead),bind_map_left,plainTail,
   bind_congr_left hpostfix]
  exact bind_congr fun a' m _=>bind_congr_left (optional_congr (attempt_congr
   (mixfixChainCont_plain (horder.advance m) (hlater m))))
 | ok ahead n=>
  obtain ⟨m,k,rfl,htaken⟩:=infixAhead_ok hahead
  have hstep:keywordOperand G hints nextLineOk (advanceInfo layout a) s=_:=
   keywordOperand_keywordTaken horder htaken
  -- the chain that was begun cannot fail any more, so nothing is given up
  obtain ⟨r,j,hr⟩ : ∃ r j, plainFrom G hints nextLineOk fuel ahead.operandLayout ahead.operand
    (s.advance (m+k)) = .ok r j :=
   plainFrom_total ahead.operandLayout ahead.operand (hlater (m+k))
  have hkept:=(keptFrom_eq fuel _ ahead.operandLayout ahead.operand
   (horder.advance (m+k)) (hlater (m+k))).trans hr
  have hplain:plainChainCont G hints nextLineOk fuel (advanceInfo layout a) s =
    .ok (ahead.keyword,r.1,r.2) (m+k+j) := by
   rw [plainChainCont_eq,bind_apply_ok hstep,map_apply_ok hr,Reply.after]
  rw [keptTail,bind_apply_ok (postfixOrInfix_kept hahead),Option.elim_some,mixfixChainFrom_eq,
   map_apply_ok (map_apply_ok (map_apply_ok hkept)),plainTail,
   bind_apply_ok (postfixAfter_keywordTaken htaken),advance_zero,after_zero,
   map_apply_ok (optional_ok (attempt_ok hplain)),Reply.after]

theorem mixfixChainExprNextLine_plain (horder:InOrder s) :
  mixfixChainExprNextLine G hints nextLineOk s=plainChainExprNextLine G hints nextLineOk s := by
 rw [mixfixChainExprNextLine,plainChainExprNextLine,chainWithin_eq,plainChainWithin_eq]
 refine bind_congr fun layout n _=>bind_congr fun a m _=>?_
 refine keptTail_eq ((horder.advance n).advance m) ?_ layout a
 rw [advance_advance,Input.advance,List.length_drop]
 exact Nat.lt_of_le_of_lt (Nat.sub_le _ _) (Nat.lt_add_of_pos_right Nat.zero_lt_two)

end Whole

end Chains

end L4Ide.MixfixChains
