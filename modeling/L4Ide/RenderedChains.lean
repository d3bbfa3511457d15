import L4Ide.RenderedFormulasValue

set_option autoImplicit false

/-!
# The value of a rendered chain

A long chain is printed one operand a line. Each line reads as its operand, and
the lines together as the chain.
-/
namespace L4Ide.RenderedFormulas
open Syntax ArithmeticNotation DecimalTexts

structure Readable (host:Host) (e:Expr Resolved) : Prop where
 arithmetic : Arithmetic e
 percents : Everywhere PercentOnTerm e
 literals : Everywhere (LiteralExact host) e
 brackets : Everywhere BracketsMatch e

theorem Readable.parts {host:Host} {s:Sign} {a b:Expr Resolved}
  (h:Readable host (node s a b)) (ha:Arithmetic a) (hb:Arithmetic b) :
  Readable host a ∧ Readable host b :=
 ⟨⟨ha,(everywhere_node h.percents).1,(everywhere_node h.literals).1,
   (everywhere_node h.brackets).1⟩,
  ⟨hb,(everywhere_node h.percents).2,(everywhere_node h.literals).2,
   (everywhere_node h.brackets).2⟩⟩

theorem everywhere_of_parts {p:Expr Resolved → Prop} {s:Sign} {a b:Expr Resolved}
  (h:p (node s a b)) (ha:Everywhere p a) (hb:Everywhere p b) :
  Everywhere p (node s a b) := by
 cases s <;> exact ⟨h,ha,hb⟩

theorem readable_node {host:Host} (s:Sign) {a b:Expr Resolved} (ha:Readable host a)
  (hb:Readable host b) : Readable host (node s a b) where
 arithmetic:=.sign s ha.arithmetic hb.arithmetic
 percents:=everywhere_of_parts (by cases s <;> trivial) ha.percents hb.percents
 literals:=everywhere_of_parts (by cases s <;> trivial) ha.literals hb.literals
 brackets:=everywhere_of_parts (by cases s <;> trivial) ha.brackets hb.brackets

theorem readable_inert {host:Host} (t:String) (ctx:InertContext)
  (ht:BracketsMatch (.inert t ctx)) : Readable host (.inert t ctx) :=
 ⟨.phrase t ctx,trivial,trivial,ht⟩

theorem operand_eq (host:Host) {o:Expr Resolved} (o' : Expr Resolved) (ho:Arithmetic o) :
  operand host o o' = o' := by
 cases ho with
 | sign s _ _=>cases s <;> rfl
 | percent _=>rfl
 | number _=>rfl
 | name _ _=>rfl
 | phrase _ _=>rfl

theorem rewriteExpr_node (host:Host) (s:Sign) {a b:Expr Resolved} (ha:Arithmetic a)
  (hb:Arithmetic b) : rewriteExpr host (node s a b) =
   node s (rewriteExpr host a) (rewriteExpr host b) := by
 cases s <;>
  · simp only [node]
    rw [rewriteExpr,operand_eq host _ ha,operand_eq host _ hb]

theorem unbracketed_number {w:Word} {t:List Char} {q:ℚ} (hw:w.text=t)
  (ht:readNumber t=some q) : unbracketed [w]=[w] := by
 refine unbracketed_of_head fun h=>?_
 rw [spell_cons,spell_nil,List.append_nil,hw] at h
 exact (number_plain ht _ (List.mem_of_head? h)).1 rfl

theorem bracketsMatch_number {t:List Char} {q:ℚ} (ht:readNumber t=some q)
  (ctx:InertContext) : BracketsMatch (.inert (String.ofList t) ctx) := by
 have hword:inertWord t=⟨.number,t⟩:=by rw [inertWord,ht]; rfl
 rw [BracketsMatch,String.toList_ofList,hword]
 exact ⟨balanced_plain (number_plain ht),unbracketed_number rfl ht⟩

theorem rewriteExpr_readable {host:Host} {e:Expr Resolved} (h:Readable host e) :
  Readable host (rewriteExpr host e) ∧ arithSign (rewriteExpr host e)=arithSign e ∧
   ∀ σ, value σ resolvedText (rewriteExpr host e)=value σ phrase e := by
 obtain ⟨he,hp,hl,hb⟩:=h
 induction he with
 | @sign s a b ha hb' iha ihb=>
  obtain ⟨hra,-,hva⟩:=iha (everywhere_node hp).1 (everywhere_node hl).1 (everywhere_node hb).1
  obtain ⟨hrb,-,hvb⟩:=ihb (everywhere_node hp).2 (everywhere_node hl).2 (everywhere_node hb).2
  rw [rewriteExpr_node host s ha hb']
  refine ⟨readable_node s hra hrb,by simp,fun σ=>?_⟩
  rw [value_node,value_node,hva,hvb]
 | @percent a _ ih=>
  obtain ⟨hr,hsign,hv⟩:=ih hp.2 hl.2 hb.2
  refine ⟨⟨.percent hr.arithmetic,⟨?_,hr.percents⟩,⟨trivial,hr.literals⟩,
   ⟨trivial,hr.brackets⟩⟩,rfl,fun σ=>?_⟩
  · exact hsign.trans hp.1
  · rw [rewriteExpr,value,value,hv]
 | number r=>
  rw [rewriteExpr]
  cases hgroup:groupedInt r with
  | none=>exact ⟨⟨.number r,hp,hl,hb⟩,rfl,fun σ=>rfl⟩
  | some t=>
   have hread:=readNumber_groupedInt hgroup
   refine ⟨readable_inert _ _ (bracketsMatch_number hread _),rfl,fun σ=>?_⟩
   change some ((readNumber (String.ofList t).toList).getD (σ (String.ofList t).toList))=some r
   rw [String.toList_ofList,hread]
   rfl
 | name n ty=>
  rw [rewriteExpr]
  split
  · rename_i hself
    refine ⟨readable_inert _ _ ⟨by decide +kernel,by decide +kernel⟩,rfl,fun σ=>?_⟩
    rw [value,value,phrase,if_pos hself]
    rfl
  · rename_i hself
    refine ⟨⟨.name n ty,hp,hl,hb⟩,rfl,fun σ=>?_⟩
    rw [value,value,phrase,if_neg hself]
 | phrase t ctx=>exact ⟨⟨.phrase t ctx,hp,hl,hb⟩,rfl,fun σ=>rfl⟩

theorem simpleLinearizer_shown {host:Host} {e:Expr Resolved} (h:Readable host e)
  (hsign:arithSign e=none) :
  ∃ f, Shown .term (simpleLinearizer host e) f ∧
   (∀ σ, f.value (atomValue σ)=value σ resolvedText e) ∧
   unbracketed (simpleLinearizer host e)=simpleLinearizer host e := by
 obtain ⟨he,hp,hl,hb⟩:=h
 induction he with
 | sign s _ _ _ _=>simp at hsign
 | @percent a _ ih=>
  obtain ⟨f,hf,hv,-⟩:=ih hp.1 hp.2 hl.2 hb.2
  refine ⟨.percent f, ?_,fun σ=>?_,unbracketed_of_last ?_⟩
  · have h' :=Phrase.percent hf
    change Phrase .term ((simpleLinearizer host a ++ [percentWord]).map Word.mark) (.percent f)
    simpa [percentWord,Word.mark] using h'
  · rw [Formula.value,hv,value]
  · rw [simpleLinearizer,spell_append]
    simp [spell_cons,percentWord]
 | number r=>
  have hread:=readNumber_prettyRatio host hl
  exact ⟨.leaf (.number (prettyRatio host r)),.leaf _,fun σ=>hread,
   unbracketed_number rfl hread⟩
 | name n ty=>
  refine ⟨.leaf (.name (resolvedText n)), ?_,fun σ=>rfl,unbracketed_of_head ?_⟩
  · have h' :=Phrase.leaf (Atom.name (resolvedText n))
    simpa [Shown,simpleLinearizer,Word.mark] using h'
  · rw [simpleLinearizer,spell_cons]
    simp
 | phrase t ctx=>
  obtain ⟨a,hshown,hv⟩:=inertWord_shown t.toList
  exact ⟨.leaf a,hshown,hv,hb.2⟩

theorem isLogic_arithmetic {e:Expr Resolved} (he:Arithmetic e) :
  isLogic (carameliseNode e)=false := by
 cases he with
 | sign s _ _=>cases s <;> rfl
 | percent _=>rfl
 | number _=>rfl
 | name _ _=>rfl
 | phrase _ _=>rfl

theorem chainLine_value {host:Host} {e:Expr Resolved} (h:Readable host e) :
  ∃ f, readText (chainLine host e)=some f ∧
   ∀ σ, f.value (atomValue σ)=value σ phrase e := by
 obtain ⟨hr,-,hv⟩:=rewriteExpr_readable h
 rw [chainLine,leafText,isLogic_arithmetic h.arithmetic,if_neg Bool.false_ne_true,inlineProse]
 cases ht:formulaText host (rewriteExpr host e) with
 | some t=>
  obtain ⟨f,hf,hvf⟩:=formulaText_value host hr.arithmetic hr.percents hr.literals ht
  rw [Option.getD_some,unbracketed_formula host hr.arithmetic hr.percents hr.literals
   hr.brackets ht]
  exact ⟨f,hf,fun σ=>(hvf σ).trans (hv σ)⟩
 | none=>
  have hsign:arithSign (rewriteExpr host e)=none:=by
   obtain ⟨t,f,hgo,-⟩:=go_shown host hr.arithmetic hr.percents hr.literals
   rw [formulaText,hgo] at ht
   simpa using ht
  obtain ⟨f,hf,hvf,hbrackets⟩:=simpleLinearizer_shown hr hsign
  rw [Option.getD_none,hbrackets]
  exact ⟨f,read_phrase hf.sum,fun σ=>(hvf σ).trans (hv σ)⟩

def foldValue (σ:List Char → ℚ) (acc:Option ℚ) (rest:List (Sign × Expr Resolved)) :
  Option ℚ :=
 rest.foldl (fun acc p=>acc.bind fun x=>(value σ phrase p.2).bind fun y=>p.1.run x y) acc

theorem flattenChain_node {step:Sign → Bool} (hmod:step .modulo=false) (identityOp s:Sign)
  (a b:Expr Resolved) (acc:List (Sign × Expr Resolved)) :
  flattenChain step identityOp (node s a b) acc =
   if step s then flattenChain step identityOp a ((s,b)::acc)
   else (identityOp,node s a b)::acc := by
 cases s with
 | plus=>rfl
 | minus=>rfl
 | times=>rfl
 | dividedBy=>rfl
 | modulo=>
  rw [hmod]
  rfl

theorem flattenChain_spec {host:Host} {step:Sign → Bool} (hmod:step .modulo=false)
  (identityOp:Sign) {e:Expr Resolved} (he:Arithmetic e) (h:Readable host e)
  (acc:List (Sign × Expr Resolved)) :
  ∃ t rest, flattenChain step identityOp e acc=(identityOp,t)::(rest ++ acc) ∧
   Readable host t ∧ (∀ p ∈ rest, step p.1=true ∧ Readable host p.2) ∧
   ∀ σ, foldValue σ (value σ phrase t) rest=value σ phrase e := by
 have hleaf:flattenChain step identityOp e acc=(identityOp,e)::acc →
   ∃ t rest, flattenChain step identityOp e acc=(identityOp,t)::(rest ++ acc) ∧
    Readable host t ∧ (∀ p ∈ rest, step p.1=true ∧ Readable host p.2) ∧
    ∀ σ, foldValue σ (value σ phrase t) rest=value σ phrase e := fun heq=>
  ⟨e,[],heq,h,fun p hp=>absurd hp List.not_mem_nil,fun σ=>rfl⟩
 induction he generalizing acc with
 | @sign s a b ha hb iha _=>
  rw [flattenChain_node hmod] at hleaf ⊢
  by_cases hs:step s=true
  · rw [if_pos hs]
    obtain ⟨hra,hrb⟩:=h.parts ha hb
    obtain ⟨t,rest,heq,ht,hrest,hv⟩:=iha hra ((s,b)::acc) fun heq=>
     ⟨a,[],heq,hra,fun p hp=>absurd hp List.not_mem_nil,fun σ=>rfl⟩
    refine ⟨t,rest ++ [(s,b)], ?_,ht, ?_,fun σ=>?_⟩
    · rw [heq,List.append_assoc]
      rfl
    · intro p hp
      rcases List.mem_append.1 hp with hp | hp
      · exact hrest p hp
      · rw [List.mem_singleton.1 hp]
        exact ⟨hs,hrb⟩
    · rw [foldValue,List.foldl_append,value_node]
      change ((foldValue σ (value σ phrase t) rest).bind fun x=>
       (value σ phrase b).bind fun y=>s.run x y)=_
      rw [hv]
  · rw [if_neg hs] at hleaf ⊢
    exact hleaf rfl
 | percent _ _=>exact hleaf rfl
 | number _=>exact hleaf rfl
 | name _ _=>exact hleaf rfl
 | phrase _ _=>exact hleaf rfl

theorem readLines {host:Host} {lead:String} {line:Sign × Expr Resolved → Text}
  {rest:List (Sign × Expr Resolved)} (hrest:∀ p ∈ rest, Readable host p.2)
  (hline:∀ p ∈ rest, ∀ f, readText (chainLine host p.2)=some f →
   readLine lead (line p)=some (p.1,f)) (f:Formula Atom) :
  ∃ h, (rest.map line).foldlM
    (fun f line=>(readLine lead line).map fun p=>Formula.sign p.1 f p.2) f=some h ∧
   ∀ σ, h.value (atomValue σ)=foldValue σ (f.value (atomValue σ)) rest := by
 induction rest generalizing f with
 | nil=>exact ⟨f,rfl,fun σ=>rfl⟩
 | cons p rest ih=>
  obtain ⟨g,hg,hvg⟩:=chainLine_value (hrest p (List.mem_cons_self ..))
  have hread:=hline p (List.mem_cons_self ..) g hg
  obtain ⟨h,hh,hv⟩:=ih (fun q hq=>hrest q (List.mem_cons_of_mem _ hq))
   (fun q hq=>hline q (List.mem_cons_of_mem _ hq)) (.sign p.1 f g)
  refine ⟨h, ?_,fun σ=>?_⟩
  · rw [List.map_cons,List.foldlM_cons,hread]
    exact hh
  · rw [hv,Formula.value,hvg]
    rfl

theorem readLine_lead {lead:String} {line:Text} {f:Formula Atom} {s:Sign}
  (h:readText line=some f) :
  (s = .plus → lead = "the sum of the following" → readLine lead line=some (s,f)) ∧
  (s = .times → lead = "the product of the following" → readLine lead line=some (s,f)) ∧
  (additiveStep s=true ∨ multStep s=true → lead = "the following" →
   readLine lead (opWord s::line)=some (s,f)) := by
 refine ⟨?_, ?_, ?_⟩
 · rintro rfl rfl
   unfold readLine
   rw [if_pos rfl,h]
   rfl
 · rintro rfl rfl
   unfold readLine
   rw [if_neg (by decide),if_pos rfl,h]
   rfl
 · rintro hs rfl
   unfold readLine
   rw [if_neg (by decide),if_neg (by decide)]
   cases s with
   | modulo=>simp [additiveStep,multStep] at hs
   | plus=>simp [opWord,h]
   | minus=>simp [opWord,h]
   | times=>simp [opWord,h]
   | dividedBy=>simp [opWord,h]

theorem chain_value {host:Host} {step:Sign → Bool} (hmod:step .modulo=false)
  (hstep:∀ s, step s=true → additiveStep s=true ∨ multStep s=true) {identityOp:Sign}
  {uniformLead:String}
  (hlead:(identityOp = .plus ∧ uniformLead = "the sum of the following") ∨
   (identityOp = .times ∧ uniformLead = "the product of the following"))
  {e:Expr Resolved} (h:Readable host e) {c:Chain}
  (hc:chain host (flattenChain step identityOp e []) identityOp uniformLead=some c) :
  ∃ f, readChain c=some f ∧ ∀ σ, f.value (atomValue σ)=value σ phrase e := by
 obtain ⟨t,rest,heq,ht,hrest,hv⟩:=flattenChain_spec hmod identityOp h.arithmetic h []
 obtain ⟨f,hf,hvf⟩:=chainLine_value ht
 rw [heq,List.append_nil] at hc
 rw [chain] at hc
 split at hc
 · cases hc
 · cases hc
   generalize huniform:((identityOp,t)::rest).all (fun p=>p.1 == identityOp)=uniform
   have hline:∀ p ∈ rest, ∀ g, readText (chainLine host p.2)=some g →
     readLine (if uniform=true then uniformLead else "the following")
      (if uniform=true then chainLine host p.2 else opWord p.1::chainLine host p.2) =
      some (p.1,g) := by
    intro p hp g hg
    have hlines:=fun lead=>@readLine_lead lead (chainLine host p.2) g p.1 hg
    obtain ⟨hplus,htimes,hmixed⟩:=hlines (if uniform=true then uniformLead
     else "the following")
    cases uniform with
    | false=>exact hmixed (hstep _ (hrest p hp).1) rfl
    | true=>
     have hall:=List.all_eq_true.1 huniform p (List.mem_cons_of_mem _ hp)
     have hp1:p.1=identityOp:=beq_iff_eq.1 hall
     rcases hlead with ⟨hid,hl⟩ | ⟨hid,hl⟩
     · exact hplus (hp1.trans hid) hl
     · exact htimes (hp1.trans hid) hl
   obtain ⟨g,hg,hvg⟩:=readLines (fun p hp=>(hrest p hp).2) hline f
   refine ⟨g, ?_,fun σ=>?_⟩
   · simp only [readChain,chainLines,hf]
     exact hg
   · rw [hvg,hvf,hv]

theorem arithChainClause_value {host:Host} {e:Expr Resolved} (h:Readable host e) {c:Chain}
  (hc:arithChainClause host e=some c) :
  ∃ f, readChain c=some f ∧ ∀ σ, f.value (atomValue σ)=value σ phrase e := by
 have hadd:∀ s, additiveStep s=true → additiveStep s=true ∨ multStep s=true:=
  fun s hs=>.inl hs
 have hmult:∀ s, multStep s=true → additiveStep s=true ∨ multStep s=true:=
  fun s hs=>.inr hs
 rw [arithChainClause] at hc
 split at hc
 · exact chain_value rfl hadd (.inl ⟨rfl,rfl⟩) h hc
 · exact chain_value rfl hadd (.inl ⟨rfl,rfl⟩) h hc
 · exact chain_value rfl hmult (.inr ⟨rfl,rfl⟩) h hc
 · exact chain_value rfl hmult (.inr ⟨rfl,rfl⟩) h hc
 · cases hc

/-- A host for texts that hold arithmetic only. -/
def plainHost : Host where
 fromFloatDigits r := ⟨r.num,0⟩
 prose _ := []
 condText _ := []
 rewriteRest e := e
 callEndsOpen _ _ := false

def plainName (t:String) : Expr Resolved :=
 .var (.def_ ⟨'c', 0,"file:///a.l4"⟩ ⟨.normalName t⟩)

/-- "income + 5% + bonus + 20,000". -/
def fourTerms : Expr Resolved :=
 .plus (.plus (.plus (plainName "income") (.percent (.lit (.numericLit 5)))) (plainName "bonus"))
  (.lit (.numericLit 20000))

def percentOfSum : Expr Resolved :=
 .times (plainName "a") (.percent (.plus (.lit (.numericLit 2)) (.lit (.numericLit 3))))

end L4Ide.RenderedFormulas
