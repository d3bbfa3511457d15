import L4Ide.MixfixChainsOnce

set_option autoImplicit false

/-!
# Projections with a postfix keyword

A projection goes on with `'s`. Asking for it behind a postfix keyword instead of refusing an
operand decides the same projections, where no operand begins with `'s`. The tokens of a text are
in source order, so that their chains read the same with an operand kept or parsed again.
-/
namespace L4Ide.MixfixChains
open ConsumingParsers ConsumingParsers.Parser TokenLexer SourceAnnotations

section Projections
variable {N:Type} {G:Grammar N} {hints:MixfixHintRegistry} {s:Input PosToken}
 {info:ExprLineInfo}

def AtGenitive (s:Input PosToken) : Prop :=
 ∃ t rest, s.ahead=t::rest ∧ computedPayload t=genitive

/-- No expression begins with `'s`. -/
def NoOperandAtGenitive (G:Grammar N) : Prop :=
 ∀ s, AtGenitive s → ∃ c, G.baseExpr' s = .error c

theorem plainToken_genitive (h:AtGenitive s) :
  ∃ t, (plainToken genitive:TokenParser PosToken) s = .ok t 1 := by
 obtain ⟨t,rest,hs,ht⟩:=h
 refine ⟨t, ?_⟩
 rw [plainToken,satisfy,hs]
 simp [ht]

theorem plainToken_not_genitive (h:¬ AtGenitive s) :
  (plainToken genitive:TokenParser PosToken) s = .error false := by
 refine satisfy_error fun t ht=>?_
 rw [beq_eq_false_iff_ne]
 intro heq
 cases hs:s.ahead with
 | nil=>simp [hs] at ht
 | cons t' rest=>
  rw [hs,List.head?_cons,Option.mem_some_iff] at ht
  exact h ⟨t', rest,hs,ht ▸ heq⟩

theorem genitiveAhead_ok (k:ℕ) (h:AtGenitive s) : genitiveAhead k s = .ok () 0 := by
 obtain ⟨t,ht⟩:=plainToken_genitive h
 have hlook:(plainToken genitive).lookAhead s = .ok t 0:=by rw [Parser.lookAhead,ht]
 rw [genitiveAhead,bind_apply_ok hlook]
 rfl

theorem genitiveAhead_error (k:ℕ) (h:¬ AtGenitive s) : genitiveAhead k s = .error false := by
 have hlook:(plainToken genitive).lookAhead s = .error false:=by
  rw [Parser.lookAhead,plainToken_not_genitive h]
 rw [genitiveAhead,bind_apply_error hlook]

theorem notFollowedByOperand_genitive (hbase:NoOperandAtGenitive G) (k:ℕ)
  (h:AtGenitive s) : notFollowedByOperand G k s = .ok () 0 :=
 notFollowedByOperand_ok fun _ _ _ _=>hbase s h

variable {operandTest:ℕ → TokenParser Unit} {f:Expr N → Expr N} {n:ℕ} {A:Type}

theorem mixfixPostfixOpWith_ok
  (htest:∀ k s u n, operandTest k s = .ok u n → n=0)
  (h:mixfixPostfixOpWith G hints operandTest info s = .ok f n) :
  ∃ eN sameLine, mixfixPostfixHead G hints info s = .ok (eN,sameLine) n ∧
   newlineGuard G info sameLine (s.advance n) = .ok () 0 ∧
   operandTest info.exprEndLine (s.advance n) = .ok () 0 ∧
   (postfixTail G (fun _=>pure ()) info eN sameLine) (s.advance n) = .ok f 0 := by
 rw [mixfixPostfixOpWith_eq,Parser.attempt] at h
 split at h
 · cases h
 · obtain ⟨⟨eN,sameLine⟩,m,k,hhead,htail,rfl⟩:=bind_eq_ok h
   obtain ⟨u,m₁,k₁,hnew,hrest,rfl⟩:=bind_eq_ok htail
   have hm₁:=newlineGuard_ok hnew
   subst hm₁
   obtain ⟨u', m₂,k₂,hoperand,hlast,rfl⟩:=bind_eq_ok hrest
   have hm₂:=htest _ _ _ _ hoperand
   subst hm₂
   cases hlast
   have hpassed:newlineGuard G info sameLine (s.advance m) = .ok () 0:=hnew
   refine ⟨eN,sameLine,hhead,hpassed,hoperand, ?_⟩
   change postfixTail G (fun _=>pure ()) info eN sameLine (s.advance m)=_
   rw [postfixTail,bind_apply_ok hpassed,advance_zero,after_zero,bind_apply_ok (pure_apply _ _)]
   rfl

theorem mixfixPostfixOpWith_of_test
  {eN:Epa Name} {sameLine:Bool}
  (hhead:mixfixPostfixHead G hints info s = .ok (eN,sameLine) n)
  (hnew:newlineGuard G info sameLine (s.advance n) = .ok () 0)
  (hoperand:operandTest info.exprEndLine (s.advance n) = .ok () 0)
  (htail:(postfixTail G (fun _=>pure ()) info eN sameLine) (s.advance n) = .ok f 0) :
  mixfixPostfixOpWith G hints operandTest info s = .ok f n := by
 rw [mixfixPostfixOpWith_eq]
 refine attempt_ok ((bind_apply_ok hhead).trans ?_)
 have heq:postfixTail G operandTest info eN sameLine (s.advance n) =
   postfixTail G (fun _=>pure ()) info eN sameLine (s.advance n) := by
  rw [postfixTail,postfixTail,bind_apply_ok hnew,bind_apply_ok hnew,advance_zero,
   bind_apply_ok hoperand,bind_apply_ok (pure_apply _ _)]
 rw [heq,htail,Reply.after,Nat.add_zero]

theorem genitiveAhead_taken (k:ℕ) (s:Input PosToken) (u:Unit) (n:ℕ)
  (h:genitiveAhead k s = .ok u n) : n=0 := by
 by_cases hgen:AtGenitive s
 · rw [genitiveAhead_ok k hgen,Reply.ok.injEq] at h
   exact h.2.symm
 · rw [genitiveAhead_error k hgen] at h
   cases h

theorem notFollowedByOperand_taken (k:ℕ) (s:Input PosToken) (u:Unit) (n:ℕ)
  (h:notFollowedByOperand G k s = .ok u n) : n=0 := by
 rw [notFollowedByOperand,Parser.notFollowedBy] at h
 split at h
 · cases h
 · cases h
   rfl

theorem mixfixPostfixOpWith_genitive (hbase:NoOperandAtGenitive G) (f:Expr N → Expr N) (n:ℕ) :
  mixfixPostfixOpWith G hints genitiveAhead info s = .ok f n ↔
   mixfixPostfixOpWith G hints (notFollowedByOperand G) info s = .ok f n ∧
    AtGenitive (s.advance n) := by
 constructor
 · intro h
   obtain ⟨eN,sameLine,hhead,hnew,hoperand,htail⟩:=
    mixfixPostfixOpWith_ok genitiveAhead_taken h
   have hgen:AtGenitive (s.advance n):=by
    by_contra hnot
    rw [genitiveAhead_error _ hnot] at hoperand
    cases hoperand
   exact ⟨mixfixPostfixOpWith_of_test hhead hnew (notFollowedByOperand_genitive hbase _ hgen)
    htail,hgen⟩
 · rintro ⟨h,hgen⟩
   obtain ⟨eN,sameLine,hhead,hnew,-,htail⟩:=
    mixfixPostfixOpWith_ok notFollowedByOperand_taken h
   exact mixfixPostfixOpWith_of_test hhead hnew (genitiveAhead_ok _ hgen) htail

theorem genitiveFields_error (h:¬ AtGenitive s) :
  many1 (genitiveField G) s = .error false := by
 have hspaced:spacedToken_ G genitive s = .error false:=by
  rw [spacedToken_,lexeme,bind_apply_error (plainToken_not_genitive h)]
 rw [many1,genitiveField,bind_apply_error (bind_apply_error hspaced)]

theorem not_atGenitive_of_name {t:PosToken} {rest:List PosToken} (hs:s.ahead=t::rest)
  (ht:IsName t) : ¬ AtGenitive s := by
 rintro ⟨t', rest', hs', hgen⟩
 rw [hs,List.cons.injEq] at hs'
 rw [←hs'.1] at hgen
 obtain ⟨text,htext | htext⟩:=ht
 · rw [hgen] at htext
   cases htext
 · rw [hgen] at htext
   cases htext

/-- What is behind attempts in both is the same, as it is where what begins them agrees. -/
theorem attempt_bind_congr {B:Type} {p:TokenParser A} {k k' : A → TokenParser B}
  (h:∀ a n, p s = .ok a n → (k a).attempt (s.advance n)=(k' a).attempt (s.advance n)) :
  (p >>= k).attempt s=(p >>= k').attempt s := by
 cases hp:p s with
 | error c=>rw [attempt_error (bind_apply_error hp),attempt_error (bind_apply_error hp)]
 | ok a n=>
  have hk:=h a n hp
  have hrun:∀ k : A → TokenParser B, (p >>= k) s=(k a (s.advance n)).after n:=
   fun k=>bind_apply_ok hp
  cases hka:k a (s.advance n) with
  | ok b m=>
   rw [attempt_ok hka] at hk
   cases hka' : k' a (s.advance n) with
   | ok b' m' =>
    rw [attempt_ok hka'] at hk
    cases hk
    rw [attempt_ok ((hrun k).trans (congrArg (·.after n) hka)),
     attempt_ok ((hrun k').trans (congrArg (·.after n) hka'))]
   | error c' =>
    rw [attempt_error hka'] at hk
    cases hk
  | error c=>
   rw [attempt_error hka] at hk
   cases hka' : k' a (s.advance n) with
   | ok b' m' =>
    rw [attempt_ok hka'] at hk
    cases hk
   | error c' =>
    rw [attempt_error ((hrun k).trans (congrArg (·.after n) hka)),
     attempt_error ((hrun k').trans (congrArg (·.after n) hka'))]

def fieldsAfter (G:Grammar N) (hints:MixfixHintRegistry) (operandTest:ℕ → TokenParser Unit)
  (a:Expr N) : TokenParser (Expr N) := do
 let e ← postfixAfter (mixfixPostfixOpWith G hints operandTest) (regularPostfixOperator G) a
 let fields ← many1 (genitiveField G)
 return fields.foldl projectField e

theorem fieldsAfter_attempt (hbase:NoOperandAtGenitive G) (a:Expr N) :
  (fieldsAfter G hints genitiveAhead a).attempt s =
   (fieldsAfter G hints (notFollowedByOperand G) a).attempt s := by
 cases hgen:mixfixPostfixOpWith G hints genitiveAhead (postfixLineInfo a) s with
 | ok f n=>
  have hfull:=((mixfixPostfixOpWith_genitive hbase f n).1 hgen).1
  rw [fieldsAfter,fieldsAfter]
  exact attempt_congr (bind_congr_left (postfixAfter_congr (hgen.trans hfull.symm)))
 | error c=>
  cases hfull:mixfixPostfixOpWith G hints (notFollowedByOperand G) (postfixLineInfo a) s with
  | error c' =>
   have hc:c=false:=attempt_eq_error hgen
   have hc' : c' = false:=attempt_eq_error hfull
   subst hc hc'
   rw [fieldsAfter,fieldsAfter]
   exact attempt_congr (bind_congr_left (postfixAfter_congr (hgen.trans hfull.symm)))
  | ok f n=>
   -- the keyword is read as postfix by one of them, and neither comes to a field
   have hnot:¬ AtGenitive (s.advance n):=by
    intro hat
    rw [(mixfixPostfixOpWith_genitive hbase f n).2 ⟨hfull,hat⟩] at hgen
    cases hgen
   obtain ⟨eN,sameLine,hhead,-⟩:=mixfixPostfixOpWith_ok notFollowedByOperand_taken hfull
   obtain ⟨t,rest,hs,hname,-⟩:=mixfixPostfixHead_ok hhead
   have hregular:=regularPostfixOperator_error (G := G) hs hname
   have hone:postfixAfter (mixfixPostfixOpWith G hints genitiveAhead)
     (regularPostfixOperator G) a s = .ok a 0 :=
    postfixAfter_none hgen hregular
   have htwo:postfixAfter (mixfixPostfixOpWith G hints (notFollowedByOperand G))
     (regularPostfixOperator G) a s = .ok (f a) n :=
    bind_apply_ok (optional_ok (orElse_ok (attempt_ok hfull)))
   have hfields:∀ {s' : Input PosToken} (e:Expr N), ¬ AtGenitive s' →
     (many1 (genitiveField G) >>= fun fields=>
      (pure (fields.foldl projectField e) : TokenParser (Expr N))) s' = .error false :=
    fun _ hs' =>bind_apply_error (genitiveFields_error hs')
   have hleft:fieldsAfter G hints genitiveAhead a s = .error false:=by
    rw [fieldsAfter,bind_apply_ok hone,advance_zero,after_zero,
     hfields a (not_atGenitive_of_name hs hname)]
   have hright:fieldsAfter G hints (notFollowedByOperand G) a s =
     .error (false || decide (0 < n)) := by
    rw [fieldsAfter,bind_apply_ok htwo,hfields (f a) hnot,Reply.after]
   rw [attempt_error hleft,attempt_error hright]

theorem projectionWith_eq (operandTest:ℕ → TokenParser Unit) :
  projectionWith G hints operandTest =
   G.literalOrName >>= fun a=>fieldsAfter G hints operandTest a := by
 rw [projectionWith,projectionHeadWith]
 simp only [bind_assoc,fieldsAfter]

theorem projection_attempt (hbase:NoOperandAtGenitive G) :
  (projection G hints).attempt s =
   (projectionWith G hints (notFollowedByOperand G)).attempt s := by
 rw [projection,projectionWith_eq,projectionWith_eq]
 exact attempt_bind_congr fun a n _=>fieldsAfter_attempt hbase a

theorem attempt_eq_ok {p:TokenParser A} {a:A} :
  p.attempt s = .ok a n ↔ p s = .ok a n := by
 constructor
 · intro h
   cases hp:p s with
   | ok b m=>rw [←attempt_ok hp,h]
   | error c=>
    rw [attempt_error hp] at h
    cases h
 · exact attempt_ok

theorem parenExprOrProjection_eq (hbase:NoOperandAtGenitive G) :
  parenExprOrProjection G hints s =
   parenExprOrProjectionWith G hints (notFollowedByOperand G) s :=
 bind_congr fun e _ _=>bind_congr_left (optional_congr (fieldsAfter_attempt hbase e))

end Projections

section Words

def wordAt (line column width:ℕ) (payload:TokenType) : PosToken :=
 ⟨⟨⟨line,column⟩,⟨line,column+width⟩,width,[]⟩,payload⟩

def identifier (text:String) : TokenType := .tIdentifiers (.tIdentifier text.toList)

def quoted (text:String) : TokenType := .tIdentifiers (.tQuoted text.toList)

def blank : TokenType := .tSpaces (.tSpace [' '])

def silent : Grammar Unit := ⟨fun _=>none,Parser.fail,Parser.fail,Parser.fail,Parser.fail⟩

def wordPayload (all:Bool) : TokenType → Option Unit
 | .tIdentifiers (.tIdentifier _)=>some ()
 | .tLiterals _=>some ()
 | .tIdentifiers .tGenitive=>if all then some () else none
 | _=>none

/-- A word or a literal, or `'s` too. -/
def word (all:Bool) : TokenParser (Expr Unit) :=
 (fun x=>.node (mkSimpleEpaAnno x) ()) <$> spacedToken silent (wordPayload all)

def words (all:Bool) : Grammar Unit :=
 { silent with
   name:=(fun x=>⟨mkSimpleEpaAnno x,.normalName x.payload⟩) <$>
    spacedToken silent identifierText
   literalOrName:=word false
   baseExpr':=word all }

/-- How many tokens were read, if the parser succeeded. -/
def taken {A:Type} : Reply A → Option ℕ
 | .ok _ n=>some n
 | .error _=>none

/-- The keyword of `a k's 5` and what the projection makes of it. -/
def genitiveWithoutName : Input PosToken :=
 ⟨0,[wordAt 1 1 1 (identifier "a"),wordAt 1 2 1 blank,wordAt 1 3 1 (identifier "k"),
  wordAt 1 4 2 genitive,wordAt 1 6 1 blank,wordAt 1 7 1 (.tLiterals (.tIntLit ['5'] 5))]⟩

def genitiveWithName : Input PosToken :=
 ⟨0,[wordAt 1 1 1 (identifier "a"),wordAt 1 2 1 blank,wordAt 1 3 1 (identifier "k"),
  wordAt 1 4 2 genitive,wordAt 1 6 1 blank,wordAt 1 7 1 (identifier "f")]⟩

/-- A keyword on the second line, and a word on the first behind it. -/
def backwards : Input PosToken :=
 ⟨0,[wordAt 1 1 1 (identifier "a"),wordAt 2 1 3 (quoted "k"),wordAt 1 0 1 (identifier "b")]⟩

/-- Behind a keyword on a later line a token may stand on the earlier one; `'s` may be accepted
where no name follows; and an operand may begin with `'s`. -/
theorem operand_readings_differ :
  (taken (mixfixChainExprNextLine (words false) ⟨[]⟩ true backwards)=some 2 ∧
   taken (plainChainExprNextLine (words false) ⟨[]⟩ true backwards)=some 3) ∧
  (taken (((words false).literalOrName >>= fun a=>
    mixfixPostfixOpWith (words false) ⟨[]⟩ genitiveAhead (postfixLineInfo a))
     genitiveWithoutName)=some 3 ∧
   taken (projectionWith (words false) ⟨[]⟩ (notFollowedByOperand (words false))
    genitiveWithoutName)=none) ∧
  (taken (projection (words true) ⟨[]⟩ genitiveWithName)=some 6 ∧
   taken (projectionWith (words true) ⟨[]⟩ (notFollowedByOperand (words true))
    genitiveWithName)=none) := by
 decide +kernel

end Words

/-- A kept operand gives the chain, and `'s` the projection, that a second parse gives. -/
theorem operand_read_once {N:Type} (G:Grammar N) (hints:MixfixHintRegistry)
  (nextLineOk:Bool) :
  (∀ s, InOrder s →
   mixfixChainExprNextLine G hints nextLineOk s =
    plainChainExprNextLine G hints nextLineOk s) ∧
  (NoOperandAtGenitive G → ∀ s,
   (∀ info f n, mixfixPostfixOpWith G hints genitiveAhead info s = .ok f n ↔
    mixfixPostfixOpWith G hints (notFollowedByOperand G) info s = .ok f n ∧
     AtGenitive (s.advance n)) ∧
   (∀ e n, projection G hints s = .ok e n ↔
    projectionWith G hints (notFollowedByOperand G) s = .ok e n) ∧
   parenExprOrProjection G hints s =
    parenExprOrProjectionWith G hints (notFollowedByOperand G) s) := by
 refine ⟨fun s horder=>mixfixChainExprNextLine_plain horder,fun hbase s=>
  ⟨fun info f n=>mixfixPostfixOpWith_genitive hbase f n,fun e n=>?_,
   parenExprOrProjection_eq hbase⟩⟩
 rw [←attempt_eq_ok,projection_attempt hbase,attempt_eq_ok]

theorem words_noOperandAtGenitive : NoOperandAtGenitive (words false) := by
 rintro s ⟨t,rest,hs,ht⟩
 refine ⟨false,map_apply_error (map_apply_error (bind_apply_error ?_))⟩
 rw [tokenWith,hs]
 simp [ht,genitive,wordPayload]

theorem genitiveWithName_inOrder : InOrder genitiveWithName where
 ordered:=by decide
 positive:=by decide

theorem operand_read_once_genitive :
  mixfixChainExprNextLine (words false) ⟨[]⟩ true genitiveWithName =
   plainChainExprNextLine (words false) ⟨[]⟩ true genitiveWithName ∧
  parenExprOrProjection (words false) ⟨[]⟩ genitiveWithName =
   parenExprOrProjectionWith (words false) ⟨[]⟩ (notFollowedByOperand (words false))
    genitiveWithName :=
 ⟨(operand_read_once (words false) ⟨[]⟩ true).1 genitiveWithName genitiveWithName_inOrder,
  ((operand_read_once (words false) ⟨[]⟩ true).2 words_noOperandAtGenitive
   genitiveWithName).2.2⟩

end L4Ide.MixfixChains
