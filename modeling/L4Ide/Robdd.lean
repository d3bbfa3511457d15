import L4Ide.BooleanDecisionQueryStore

set_option autoImplicit false

/-!
# The diagram package of the ladder

A second package of hash-consed diagrams, for one reader at a time: nodes are made, negated and
combined as in the query engine, several variables are restricted at once under a memo of their
own, and the support is collected with one set of visited nodes.
-/
namespace L4Ide.Robdd
open Std (TreeMap TreeSet)
open BooleanDecisionQuery DecisionTree DecisionTree.Tree

def bindingsKey (bindings:TreeMap ℕ Bool) : List (ℕ × Bool) := bindings.toList

structure ROBDD extends Bdd where
 restrictMemo : NodeId × List (ℕ × Bool) → Option NodeId

def emptyRobdd : ROBDD := { emptyBdd with restrictMemo:=fun _=>none }

/-- The store after an operation that leaves the memo of restrictions alone. -/
def ROBDD.keep (r:ROBDD) (p:NodeId × Bdd) : NodeId × ROBDD := (p.1,{ r with toBdd:=p.2 })

def ROBDD.rememberRestrict (r:ROBDD) (id:NodeId) (bindings:TreeMap ℕ Bool)
  (res:NodeId) : ROBDD :=
 { r with restrictMemo:=Function.update r.restrictMemo (id,bindingsKey bindings) (some res) }

def mk (varIndex:ℕ) (low high:NodeId) (r:ROBDD) : NodeId × ROBDD :=
 r.keep (BooleanDecisionQuery.mk varIndex low high r.toBdd)

def var (varIndex:ℕ) (r:ROBDD) : NodeId × ROBDD := mk varIndex 0 1 r

def neg (id:NodeId) (r:ROBDD) : Option (NodeId × ROBDD) :=
 (BooleanDecisionQuery.neg id r.toBdd).map r.keep

def applyFuel : ℕ → Op → NodeId → NodeId → Bdd → Option (NodeId × Bdd)
 | 0, _, _, _, _=>none
 | fuel+1, op, a, b, bdd=>
  if a=b then some (a,bdd)
  else if isTerminal a && isTerminal b then
   if opEval op (a == 1) (b == 1) then some (1,bdd) else some (0,bdd)
  else
   match bdd.applyMemo (op,a,b) with
   | some existing=>some (existing,bdd)
   | none=>do
    let an ← bdd.nodes a
    let bn ← bdd.nodes b
    match min an.topVar bn.topVar with
    | ⊤=>none
    | WithTop.some top=>
     let (aLow,aHigh):=an.cofactors a (WithTop.some top)
     let (bLow,bHigh):=bn.cofactors b (WithTop.some top)
     let (low,bdd1) ← applyFuel fuel op aLow bLow bdd
     let (high,bdd2) ← applyFuel fuel op aHigh bHigh bdd1
     let (res,bdd3):=BooleanDecisionQuery.mk top low high bdd2
     return (res,bdd3.rememberApply op a b res)

def apply (op:Op) (a b:NodeId) (r:ROBDD) : Option (NodeId × ROBDD) :=
 (applyFuel (a+b+1) op a b r.toBdd).map r.keep

def restrictFuel : ℕ → NodeId → TreeMap ℕ Bool → ROBDD → Option (NodeId × ROBDD)
 | 0, _, _, _=>none
 | fuel+1, id, bindings, r=>
  if isTerminal id || bindings.isEmpty then some (id,r)
  else
   match r.restrictMemo (id,bindingsKey bindings) with
   | some existing=>some (existing,r)
   | none=>
    match r.nodes id with
    | none=>none
    | some (.terminal _)=>some (id,r)
    | some (.branch v low high)=>
     match bindings[v]? with
     | some bound=>do
      let (res,r1) ← restrictFuel fuel (if bound then high else low) bindings r
      return (res,r1.rememberRestrict id bindings res)
     | none=>do
      let (lo,r1) ← restrictFuel fuel low bindings r
      let (hi,r2) ← restrictFuel fuel high bindings r1
      let (res,r3):=mk v lo hi r2
      return (res,r3.rememberRestrict id bindings res)

def restrict (id:NodeId) (bindings:TreeMap ℕ Bool) (r:ROBDD) : Option (NodeId × ROBDD) :=
 restrictFuel (id+1) id bindings r

def supportGo (r:ROBDD) : ℕ → TreeSet ℕ × TreeSet NodeId → NodeId →
  Option (TreeSet ℕ × TreeSet NodeId)
 | 0, _, _=>none
 | fuel+1, (vars,visited), nId=>
  if isTerminal nId || visited.contains nId then some (vars,visited)
  else
   match r.nodes nId with
   | none=>none
   | some (.terminal _)=>some (vars,visited.insert nId)
   | some (.branch v low high)=>do
    let below ← supportGo r fuel (vars.insert v,visited.insert nId) low
    supportGo r fuel below high

def support (id:NodeId) (r:ROBDD) : Option (TreeSet ℕ) :=
 (supportGo r (id+1) (∅,∅) id).map Prod.fst

theorem terminal_of_isTerminal {bdd:Bdd} (hw:bdd.Wf) (n:ℕ) (h:isTerminal n=true) :
  bdd.nodes n=some (.terminal (n == 1)) := by
 rcases (by simpa [isTerminal] using h : n=0 ∨ n=1) with rfl | rfl
 · exact hw.zero
 · exact hw.one

variable {f g:BoolFun} {r:ROBDD} {bindings:TreeMap ℕ Bool} {n:ℕ} {p:NodeId × ROBDD}

theorem applyFuel_eq (op:Op) (fuel:ℕ) {a b:ℕ} {bdd:Bdd} (hw:bdd.Wf)
  (ha:Represents bdd a f) (hb:Represents bdd b g) (hfuel:a+b < fuel) :
  applyFuel fuel op a b bdd=BooleanDecisionQuery.applyFuel fuel op a b bdd := by
 induction fuel generalizing a b bdd f g with
 | zero=>exact absurd hfuel (Nat.not_lt_zero _)
 | succ fuel ih=>
  unfold applyFuel BooleanDecisionQuery.applyFuel
  split_ifs with heq hterm hop
  · rfl
  · rw [terminal_of_isTerminal hw a (by simp_all),terminal_of_isTerminal hw b (by simp_all)]
    simp [hop]
  · rw [terminal_of_isTerminal hw a (by simp_all),terminal_of_isTerminal hw b (by simp_all)]
    simp [hop]
  · cases hc:bdd.applyMemo (op,a,b) with
    | some existing=>rfl
    | none=>
     obtain ⟨an,han⟩:=hw.node_of_represents ha
     obtain ⟨bn,hbn⟩:=hw.node_of_represents hb
     simp only [han,hbn,Option.bind_eq_bind,Option.bind_some]
     cases htop:min an.topVar bn.topVar with
     | top=>rfl
     | coe top=>
      obtain ⟨f0,f1,g0,g1,ra0,ra1,rb0,rb1,-,-,-,-,-,-,hlow,hhigh⟩:=
       hw.operands ha hb han hbn htop
      have hle:a+b ≤ fuel:=Nat.lt_succ_iff.1 hfuel
      obtain ⟨⟨low,bdd1⟩,eq1,b1⟩:=applyFuel_built fuel op hw ra0 rb0 (hlow.trans_le hle)
      dsimp only
      rw [ih hw ra0 rb0 (hlow.trans_le hle),eq1,Option.bind_some,Option.bind_some,
       ih b1.wf (ra1.mono b1.extends_) (rb1.mono b1.extends_) (hhigh.trans_le hle)]

theorem apply_eq (op:Op) {a b:ℕ} (hw:r.toBdd.Wf)
  (ha:Represents r.toBdd a f) (hb:Represents r.toBdd b g) :
  apply op a b r=(BooleanDecisionQuery.apply op a b r.toBdd).map r.keep := by
 rw [apply,applyFuel_eq op _ hw ha hb (Nat.lt_succ_self _),BooleanDecisionQuery.apply]

def override (bindings:TreeMap ℕ Bool) (ρ:ℕ → Bool) (i:ℕ) : Bool :=
 bindings[i]?.getD (ρ i)

theorem override_of_isEmpty (h:bindings.isEmpty=true)
  (ρ:ℕ → Bool) : override bindings ρ=ρ := by
 funext i
 rw [override,TreeMap.getElem?_of_isEmpty h,Option.getD_none]

theorem override_eq_of_key {bnd bnd' : TreeMap ℕ Bool} (h:bindingsKey bnd=bindingsKey bnd')
  (ρ:ℕ → Bool) : override bnd ρ=override bnd' ρ := by
 funext i
 have hsame:bnd[i]? = bnd'[i]?:=by
  apply Option.ext
  intro v
  rw [←TreeMap.mem_toList_iff_getElem?_eq_some,←TreeMap.mem_toList_iff_getElem?_eq_some]
  exact iff_of_eq (congrArg (fun l=>(i,v) ∈ l) h)
 rw [override,override,hsame]

theorem not_dependsOn_override {x:ℕ}
  (h:¬DependsOn f x) : ¬DependsOn (fun ρ=>f (override bindings ρ)) x := by
 rintro ⟨ρ,hρ⟩
 have hsame:∀ b, f (override bindings (Function.update ρ x b))=f (override bindings ρ):=by
  intro b
  have hupd:override bindings (Function.update ρ x b) =
    Function.update (override bindings ρ) x (bindings[x]?.getD b) := by
   funext i
   by_cases hi:i=x
   · subst hi
     simp only [override,Function.update_self]
   · simp only [override,Function.update_of_ne hi]
  rw [hupd,update_eq_of_not_dependsOn h]
 exact hρ (by simp only [hsame])

/-- The store is well formed, and its memo holds restrictions of the nodes it is asked about. -/
structure ROBDD.Wf (r:ROBDD) : Prop where
 bdd : r.toBdd.Wf
 restrictMemo : ∀ n bindings res, r.restrictMemo (n,bindingsKey bindings)=some res →
  ∃ f, Represents r.toBdd n f ∧ Represents r.toBdd res fun ρ=>f (override bindings ρ)

/-- An operation on `r` returned the node of `f` in a store that extends it. -/
structure Kept (r:ROBDD) (f:BoolFun) (p:NodeId × ROBDD) : Prop where
 wf : p.2.Wf
 extends_ : r.toBdd.Extends p.2.toBdd
 represents : Represents p.2.toBdd p.1 f

theorem emptyRobdd_wf : emptyRobdd.Wf :=
 ⟨emptyBdd_wf,fun _ _ _ h=>by simp [emptyRobdd] at h⟩

theorem Kept.of_represents (hw:r.Wf) (h:Represents r.toBdd n f) : Kept r f (n,r) :=
 ⟨hw,.refl _,h⟩

theorem Kept.trans {r' : ROBDD} (he:r.toBdd.Extends r'.toBdd) (h:Kept r' f p) : Kept r f p :=
 ⟨h.wf,he.trans h.extends_,h.represents⟩

theorem Kept.congr (h:Kept r f p) (hfg:∀ ρ, f ρ=g ρ) : Kept r g p :=
 ⟨h.wf,h.extends_,h.represents.congr hfg⟩

theorem ROBDD.Wf.keep (hw:r.Wf) {p:NodeId × Bdd}
  (h:Built r.toBdd f p) : Kept r f (r.keep p) where
 wf := by
  refine ⟨h.wf,fun n bindings res hmemo=>?_⟩
  obtain ⟨g,hn,hres⟩:=hw.restrictMemo n bindings res hmemo
  exact ⟨g,hn.mono h.extends_,hres.mono h.extends_⟩
 extends_:=h.extends_
 represents:=h.represents

theorem Kept.rememberRestrict (h:Kept r (fun ρ=>f (override bindings ρ)) p)
  (hn:Represents r.toBdd n f) :
  Kept r (fun ρ=>f (override bindings ρ)) (p.1,p.2.rememberRestrict n bindings p.1) where
 wf := by
  refine ⟨h.wf.bdd,fun m other res hmemo=>?_⟩
  by_cases hkey:(m,bindingsKey other)=(n,bindingsKey bindings)
  · obtain ⟨rfl,hsame⟩:=Prod.mk.inj hkey
    have hres:p.1=res:=by simpa [ROBDD.rememberRestrict,hsame] using hmemo
    subst hres
    refine ⟨f,hn.mono h.extends_,h.represents.congr fun ρ=>?_⟩
    rw [override_eq_of_key hsame]
  · have hold:p.2.restrictMemo (m,bindingsKey other)=some res:=by
     simpa [ROBDD.rememberRestrict,Function.update_of_ne hkey] using hmemo
    exact h.wf.restrictMemo m other res hold
 extends_:=h.extends_
 represents:=h.represents

theorem mk_kept_of_children {r1 r2:ROBDD} {v lo hi:ℕ} {fl fh:BoolFun}
  (hl:Kept r fl (lo,r1)) (hh:Kept r1 fh (hi,r2))
  (hfl:∀ x ≤ v, ¬DependsOn fl x) (hfh:∀ x ≤ v, ¬DependsOn fh x) :
  Kept r (fun ρ=>if ρ v then fh ρ else fl ρ) (mk v lo hi r2) :=
 .trans (hl.extends_.trans hh.extends_) (hh.wf.keep
  (mk_built hh.wf.bdd (hl.represents.mono hh.extends_) hh.represents hfl hfh))

theorem restrictFuel_kept (fuel:ℕ) (bindings:TreeMap ℕ Bool)
  (hw:r.Wf) (hn:Represents r.toBdd n f) (hfuel:n < fuel) :
  ∃ p, restrictFuel fuel n bindings r=some p ∧
   Kept r (fun ρ=>f (override bindings ρ)) p := by
 induction fuel generalizing n r f with
 | zero=>exact absurd hfuel (Nat.not_lt_zero n)
 | succ fuel ih=>
  have hconst:∀ b, r.nodes n=some (.terminal b) →
    Kept r (fun ρ=>f (override bindings ρ)) (n,r) := by
   intro b hterm
   have hval:=(hw.bdd.terminal_of_represents hn hterm).2
   exact .of_represents hw (hn.congr fun ρ=>by rw [hval,hval])
  unfold restrictFuel
  split
  · rename_i hstop
    refine ⟨_,rfl, ?_⟩
    rcases Bool.or_eq_true_iff.1 hstop with hterm | hempty
    · exact hconst _ (terminal_of_isTerminal hw.bdd n hterm)
    · exact .of_represents hw (hn.congr fun ρ=>by rw [override_of_isEmpty hempty])
  · split
    · rename_i existing hmemo
      obtain ⟨g,hg,hres⟩:=hw.restrictMemo n bindings existing hmemo
      have hfg:=hw.bdd.represents_unique hg hn
      exact ⟨_,rfl,.of_represents hw (hres.congr fun ρ=>hfg _)⟩
    · split
      · rename_i hnone
        obtain ⟨nd,hnd⟩:=hw.bdd.node_of_represents hn
        exact absurd (hnone.symm.trans hnd) (Option.some_ne_none nd).symm
      · rename_i b hterm
        exact ⟨_,rfl,hconst b hterm⟩
      · rename_i v low high hbranch
        obtain ⟨hlow,hhigh⟩:=hw.bdd.child n v low high hbranch
        obtain ⟨fl,fh,hl,hh,hsplit,hfl,hfh⟩:=hw.bdd.split hn hbranch
        split
        · rename_i bound hbound
          have hbelow:Represents r.toBdd (if bound then high else low)
            (if bound then fh else fl) := by
           cases bound
           · exact hl
           · exact hh
          have hlt:(if bound then high else low) < fuel:=by
           cases bound
           · exact hlow.trans_le (Nat.lt_succ_iff.1 hfuel)
           · exact hhigh.trans_le (Nat.lt_succ_iff.1 hfuel)
          obtain ⟨⟨res,r1⟩,eq1,k1⟩:=ih hw hbelow hlt
          have hres:Kept r (fun ρ=>f (override bindings ρ)) (res,r1):=by
           refine k1.congr fun ρ=>?_
           have hv:override bindings ρ v=bound:=by
            rw [override,hbound,Option.getD_some]
           rw [hsplit,hv]
           cases bound <;> rfl
          exact ⟨_,by simp only [eq1,Option.bind_eq_bind,Option.bind_some]; rfl,
           hres.rememberRestrict hn⟩
        · rename_i hbound
          obtain ⟨⟨lo,r1⟩,eq1,k1⟩:=ih hw hl (by omega)
          obtain ⟨⟨hi,r2⟩,eq2,k2⟩:=ih k1.wf (hh.mono k1.extends_) (by omega)
          have hres:Kept r (fun ρ=>f (override bindings ρ)) (mk v lo hi r2):=by
           refine (mk_kept_of_children k1 k2 ?_ ?_).congr fun ρ=>?_
           · exact fun x hx=>not_dependsOn_override (hfl x hx)
           · exact fun x hx=>not_dependsOn_override (hfh x hx)
           · have hv:override bindings ρ v=ρ v:=by
              rw [override,hbound,Option.getD_none]
             rw [hsplit,hv]
          exact ⟨_,by simp only [eq1,eq2,Option.bind_eq_bind,Option.bind_some]; rfl,
           hres.rememberRestrict hn⟩

theorem restrict_kept (bindings:TreeMap ℕ Bool) (hw:r.Wf) (hn:Represents r.toBdd n f) :
  ∃ p, restrict n bindings r=some p ∧ Kept r (fun ρ=>f (override bindings ρ)) p :=
 restrictFuel_kept (n+1) bindings hw hn (Nat.lt_succ_self n)

/-- Every node visited below `n` has its variables among those met. -/
def Closed (bdd:Bdd) (vars:TreeSet ℕ) (visited:TreeSet NodeId) (n:ℕ) : Prop :=
 ∀ s ∈ visited, s ≤ n → ∀ t, Denotes bdd s t → ∀ x, t.Occurs x → x ∈ vars

theorem not_occurs_of_isTerminal {bdd:Bdd} (hw:bdd.Wf) {t:DecisionTree.Tree ℕ}
  (ht:Denotes bdd n t) (h:isTerminal n=true) (x:ℕ) : ¬t.Occurs x := by
 cases ht with
 | zero=>exact id
 | one=>exact id
 | branch hbranch _ _=>
  exact absurd (hbranch.symm.trans (terminal_of_isTerminal hw n h)) (by simp)

/-- Descending the diagram collects the variables of its tree. A node met again was visited
    below the current one, so it is closed already. -/
theorem supportGo_spec (hw:r.toBdd.Wf) (fuel:ℕ) {t:DecisionTree.Tree ℕ}
  (ht:Denotes r.toBdd n t) (hfuel:n < fuel) (vars:TreeSet ℕ) (visited:TreeSet NodeId)
  (hclosed:Closed r.toBdd vars visited n) :
  ∃ vars' visited', supportGo r fuel (vars,visited) n=some (vars', visited') ∧
   (∀ x, x ∈ vars' ↔ x ∈ vars ∨ t.Occurs x) ∧
   (∀ s ∈ visited', s ∈ visited ∨ s ≤ n) ∧ Closed r.toBdd vars' visited' n := by
 induction fuel generalizing n t vars visited with
 | zero=>exact absurd hfuel (Nat.not_lt_zero n)
 | succ fuel ih=>
  unfold supportGo
  split
  · rename_i hstop
    refine ⟨vars,visited,rfl,fun x=>⟨Or.inl,fun h=>?_⟩,fun s hs=>Or.inl hs,hclosed⟩
    rcases h with h | h
    · exact h
    · rcases Bool.or_eq_true_iff.1 hstop with hterm | hvis
      · exact absurd h (not_occurs_of_isTerminal hw ht hterm x)
      · exact hclosed n (TreeSet.contains_iff_mem.1 hvis) le_rfl t ht x h
  · rename_i hgo
    cases ht with
    | zero=>exact absurd rfl hgo
    | one=>exact absurd rfl hgo
    | @branch _ v low high tl th h hl hh=>
     obtain ⟨hlow,hhigh⟩:=hw.child n v low high h
     -- the current node is not below its children
     have hopen:∀ s ∈ visited.insert n, s < n → s ∈ visited:=by
      intro s hs hlt
      rcases TreeSet.mem_insert.1 hs with heq | hs
      · exact absurd (Std.LawfulEqOrd.eq_of_compare heq) hlt.ne'
      · exact hs
     have hclosed1:Closed r.toBdd (vars.insert v) (visited.insert n) low:=by
      intro s hs hle u hu x hx
      have hold:=hclosed s (hopen s hs (hle.trans_lt hlow)) (hle.trans hlow.le) u hu x hx
      exact TreeSet.mem_insert.2 (Or.inr hold)
     obtain ⟨vars2,visited2,eq2,hvars2,hvis2,hclosed2⟩:=
      ih hl (by omega) (vars.insert v) (visited.insert n) hclosed1
     have hkeep2:∀ x ∈ vars, x ∈ vars2:=fun x hx=>
      (hvars2 x).2 (Or.inl (TreeSet.mem_insert.2 (Or.inr hx)))
     have hclosed3:Closed r.toBdd vars2 visited2 high:=by
      intro s hs hle u hu x hx
      rcases hvis2 s hs with hs1 | hslow
      · have hlt:=hle.trans_lt hhigh
        exact hkeep2 x (hclosed s (hopen s hs1 hlt) hlt.le u hu x hx)
      · exact hclosed2 s hs hslow u hu x hx
     obtain ⟨vars3,visited3,eq3,hvars3,hvis3,hclosed4⟩:=
      ih hh (by omega) vars2 visited2 hclosed3
     have hkeep3:∀ x ∈ vars2, x ∈ vars3:=fun x hx=>(hvars3 x).2 (Or.inl hx)
     have hvars:∀ x, x ∈ vars3 ↔ x ∈ vars ∨ (node v tl th).Occurs x:=by
      intro x
      rw [hvars3,hvars2,TreeSet.mem_insert,Std.compare_eq_iff_eq,occurs_node]
      tauto
     refine ⟨vars3,visited3,by simp only [h,eq2,eq3,Option.bind_eq_bind,Option.bind_some],
      hvars,fun s hs=>?_,fun s hs hle u hu x hx=>?_⟩
     · rcases hvis3 s hs with hs2 | hle
       · rcases hvis2 s hs2 with hs1 | hle
         · rcases TreeSet.mem_insert.1 hs1 with heq | hs0
           · exact Or.inr (Std.LawfulEqOrd.eq_of_compare heq).ge
           · exact Or.inl hs0
         · exact Or.inr (hle.trans hlow.le)
       · exact Or.inr (hle.trans hhigh.le)
     · rcases hvis3 s hs with hs2 | hshigh
       · rcases hvis2 s hs2 with hs1 | hslow
         · rcases TreeSet.mem_insert.1 hs1 with heq | hs0
           · obtain rfl:=Std.LawfulEqOrd.eq_of_compare heq
             rw [hw.denotes_unique hu (.branch h hl hh)] at hx
             exact (hvars x).2 (Or.inr hx)
           · exact hkeep3 x (hkeep2 x (hclosed s hs0 hle u hu x hx))
         · exact hkeep3 x (hclosed2 s hs2 hslow u hu x hx)
       · exact hclosed4 s hs hshigh u hu x hx

theorem support_spec (hw:r.toBdd.Wf) (hn:Represents r.toBdd n f) :
  ∃ vars, support n r=some vars ∧ ∀ x, x ∈ vars ↔ DependsOn f x := by
 obtain ⟨t,ht,hc,hf⟩:=hn
 obtain ⟨vars,visited,eq,hvars,-⟩:=supportGo_spec hw (n+1) ht (Nat.lt_succ_self n) ∅ ∅
  (fun s hs=>absurd hs TreeSet.not_mem_emptyc)
 refine ⟨vars,by rw [support,eq]; rfl,fun x=>?_⟩
 rw [hvars,hc.occurs_iff]
 simp [hf]

end L4Ide.Robdd
