import L4Ide.InputRefs
import Mathlib.Logic.Relation
import Mathlib.Data.Prod.Lex

set_option autoImplicit false

/-!
# When the collected references are closed

The depth-first collection cuts a cycle at the uniques being visited and keeps what it found until
then. It is the closure, whatever the numbers of the uniques, where a reference is never reached
only back through a unique being visited.
-/
namespace L4Ide.InputRefsClosed
open InputRefs Relation

section Reach
variable {U:Type} (cached:CachedDecisionQuery U)

def Reaches (u:U) (r:InputRef U) : Prop :=
 ∃ w, ReflTransGen (fun a b=>b ∈ cached.deps a) u w ∧ r ∈ cached.directRefs w

inductive Open : List U → Prop where
 | nil : Open []
 | cons {u:U} {stack:List U} (h:Open stack) (hdep:∀ w ∈ stack.head?, u ∈ cached.deps w)
   (hnew:u ∉ stack) : Open (u::stack)

/-- No reference is reached only back through a unique that is open. -/
def Unobstructed : Prop :=
 ∀ u stack, Open cached (u::stack) → ∀ r, Reaches cached u r →
  r ∈ cached.directRefs u ∨ ∃ d ∈ cached.deps u,
   (d ∈ stack ∧ r ∈ cached.directRefs d) ∨ (d ∉ u::stack ∧ Reaches cached d r)

variable {cached}

theorem Reaches.dep {u d:U} {r:InputRef U} (hd:d ∈ cached.deps u) (h:Reaches cached d r) :
  Reaches cached u r := by
 have ⟨w,hw,hr⟩:=h
 exact ⟨w,.head hd hw,hr⟩

theorem Reaches.direct {u:U} {r:InputRef U} (h:r ∈ cached.directRefs u) :
  Reaches cached u r := ⟨u,.refl,h⟩

theorem Reaches.cases {u:U} {r:InputRef U} (h:Reaches cached u r) :
  r ∈ cached.directRefs u ∨ ∃ d ∈ cached.deps u, d ≠ u ∧ Reaches cached d r := by
 obtain ⟨w,hw,hr⟩:=h
 induction hw using ReflTransGen.head_induction_on with
 | refl=>exact .inl hr
 | @head a b hab hbw ih=>
  by_cases heq:b=a
  · rw [heq] at ih
    exact ih
  · exact .inr ⟨b,hab,heq,w,hbw,hr⟩

theorem mem_keys_of_dep {u d:U} (hd:d ∈ cached.deps u) : u ∈ cached.varDepsByUnique.keys := by
 rw [IntMap.mem_keys]
 unfold CachedDecisionQuery.deps IntMap.findWithDefault at hd
 cases h:cached.varDepsByUnique.lookup u with
 | none=>
  rw [h] at hd
  cases hd
 | some ds=>rfl

theorem Open.tail {u:U} {stack:List U} (h:Open cached (u::stack)) : Open cached stack := by
 cases h with
 | cons h _ _=>exact h

theorem Open.of_append {after stack:List U} (h:Open cached (after ++ stack)) :
  Open cached stack := by
 induction after with
 | nil=>exact h
 | cons u after ih=>exact ih h.tail

theorem Open.nodup {stack:List U} (h:Open cached stack) : stack.Nodup := by
 induction h with
 | nil=>exact List.nodup_nil
 | cons _ _ hnew ih=>exact List.nodup_cons.mpr ⟨hnew,ih⟩

theorem Open.step {u d:U} {stack:List U} (h:Open cached (u::stack))
  (hd:d ∈ cached.deps u) (hnew:d ∉ u::stack) : Open cached (d::u::stack) := by
 apply Open.cons h
 · intro w hw
   cases hw
   exact hd
 · exact hnew

end Reach

/-! ## One visit -/

section Results
variable {U:Type} (cached:CachedDecisionQuery U) (G:U → Finset (InputRef U) → Prop)

/-- What holds of the references returned for a unique while others are open. -/
def Result (stack:List U) (u:U) (s:Finset (InputRef U)) : Prop :=
 (u ∈ stack → s=cached.directRefs u) ∧ (u ∉ stack → G u s)

/-- The references are the direct ones and those returned for the dependencies. -/
structure Gathers (stack:List U) (u:U) (refs:Finset (InputRef U)) : Prop where
 direct : cached.directRefs u ⊆ refs
 dep : ∀ d ∈ cached.deps u, ∃ s, Result cached G (u::stack) d s ∧ s ⊆ refs
 only : ∀ r ∈ refs, r ∈ cached.directRefs u ∨
  ∃ d ∈ cached.deps u, ∃ s, Result cached G (u::stack) d s ∧ r ∈ s

/-- A property of a unique's references that follows from that of its dependencies'. -/
def Gathered : Prop :=
 ∀ u stack refs, Open cached (u::stack) → Gathers cached G stack u refs → G u refs

def Memoised (stack:List U) (memo:Memo U) : Prop :=
 ∀ u s, memo.lookup u=some s → Result cached G stack u s

def Keeps (stack:List U) (memo memo' : Memo U) : Prop :=
 ∀ u, u ∉ stack → ∀ s, memo.lookup u=some s → memo'.lookup u=some s

variable {cached} {G}

theorem Keeps.refl (stack:List U) (memo:Memo U) : Keeps stack memo memo := fun _ _ _ h=>h

theorem Keeps.trans {stack:List U} {memo memo' memo'' : Memo U} (h:Keeps stack memo memo')
  (h' : Keeps stack memo' memo'') : Keeps stack memo memo'' :=
 fun u hu s hs=>h' u hu s (h u hu s hs)

theorem Memoised.step {stack:List U} {memo:Memo U} {u:U} (h:Memoised cached G stack memo)
  (hu:memo.lookup u=none) : Memoised cached G (u::stack) memo := by
 intro x s hs
 have hne:x ≠ u:=by
  intro heq
  rw [heq,hu] at hs
  cases hs
 have hiff:x ∈ u::stack ↔ x ∈ stack:=by
  rw [List.mem_cons]
  exact or_iff_right hne
 have hx:=h x s hs
 exact ⟨fun hmem=>hx.1 (hiff.mp hmem),fun hnot=>hx.2 fun hmem=>hnot (hiff.mpr hmem)⟩

def Idle (cached:CachedDecisionQuery U) (stack:List U) (memo:Memo U) : Prop :=
 ∀ u s, memo.lookup u=some s → u ∈ stack ∧ s=cached.directRefs u

theorem Idle.memoised {stack:List U} {memo:Memo U} (h:Idle cached stack memo)
  (G:U → Finset (InputRef U) → Prop) : Memoised cached G stack memo := by
 intro u s hs
 have ⟨hopen,heq⟩:=h u s hs
 exact ⟨fun _=>heq,fun hnot=>absurd hopen hnot⟩

theorem Idle.lookup_eq_none {stack:List U} {memo:Memo U} (h:Idle cached stack memo) {u:U}
  (hu:u ∉ stack) : memo.lookup u=none := by
 cases hmemo:memo.lookup u with
 | none=>rfl
 | some s=>exact absurd (h u s hmemo).1 hu

end Results

section Visits
variable {U:Type} [LinearOrder U] {cached:CachedDecisionQuery U}

theorem mem_unions {sets:List (Finset (InputRef U))} {r:InputRef U} :
  r ∈ unions sets ↔ ∃ s ∈ sets, r ∈ s := by
 induction sets with
 | nil=>simp [unions]
 | cons s sets ih=>
  rw [unions,List.foldr_cons,Finset.mem_union]
  change r ∈ s ∨ r ∈ unions sets ↔ _
  rw [ih]
  simp

theorem mem_allUniques_of_dep {u d:U} (hd:d ∈ cached.deps u) : u ∈ allUniques cached := by
 unfold allUniques
 apply Finset.mem_union_left
 apply Finset.mem_union_left
 exact Finset.mem_union_right _ (mem_keys_of_dep hd)

theorem dep_mem_allUniques {u d:U} (hd:d ∈ cached.deps u) : d ∈ allUniques cached := by
 unfold allUniques
 apply Finset.mem_union_right
 rw [Finset.mem_biUnion]
 exact ⟨u,mem_keys_of_dep hd,hd⟩

section Steps
variable (cached)

def visit (fuel:ℕ) (visiting:Finset U) (state:List (Finset (InputRef U)) × Memo U) (d:U) :
  Option (List (Finset (InputRef U)) × Memo U) := do
 let (childRefs,memo1) ← go cached fuel state.2 visiting d
 pure (childRefs::state.1,memo1)

variable {cached} {fuel:ℕ} {memo:Memo U} {visiting:Finset U} {u:U}

theorem go_of_memo {s:Finset (InputRef U)} (h:memo.lookup u=some s) :
  go cached (fuel+1) memo visiting u=some (s,memo) := by
 rw [go,h]

theorem go_of_visiting (hmemo:memo.lookup u=none) (h:u ∈ visiting) :
  go cached (fuel+1) memo visiting u =
   some (cached.directRefs u,memo.insert u (cached.directRefs u)) := by
 rw [go,hmemo]
 exact if_pos h

theorem go_of_fresh (hmemo:memo.lookup u=none) (h:u ∉ visiting) :
  go cached (fuel+1) memo visiting u =
   (((cached.deps u).sort (· ≤ ·)).foldlM (visit cached fuel (insert u visiting))
    ([],memo)).map fun state=>
     (unions (cached.directRefs u::state.1),
      state.2.insert u (unions (cached.directRefs u::state.1))) := by
 rw [go,hmemo]
 change (if u ∈ visiting then _ else _)=_
 rw [if_neg h]
 change (List.foldlM (visit cached fuel (insert u visiting)) ([],memo) _).bind _=_
 cases List.foldlM (visit cached fuel (insert u visiting)) ([],memo)
  ((cached.deps u).sort (· ≤ ·)) with
 | none=>rfl
 | some state=>rfl

end Steps

section Visiting
variable {G:U → Finset (InputRef U) → Prop} {fuel:ℕ} {stack:List U}

structure Visited (G:U → Finset (InputRef U) → Prop) (cached:CachedDecisionQuery U)
  (stack:List U) (u:U) (memo:Memo U) (out:Finset (InputRef U) × Memo U) : Prop where
 result : Result cached G stack u out.1
 memoised : Memoised cached G stack out.2
 keeps : Keeps stack memo out.2
 own : u ∉ stack → out.2.lookup u=some out.1

structure VisitedEach (G:U → Finset (InputRef U) → Prop) (cached:CachedDecisionQuery U)
  (stack ds:List U) (state out:List (Finset (InputRef U)) × Memo U) : Prop where
 memoised : Memoised cached G stack out.2
 keeps : Keeps stack state.2 out.2
 earlier : ∀ s ∈ state.1, s ∈ out.1
 each : ∀ d ∈ ds, ∃ s ∈ out.1, Result cached G stack d s
 only : ∀ s ∈ out.1, s ∈ state.1 ∨ ∃ d ∈ ds, Result cached G stack d s

theorem visitEach {visiting:Finset U} {ds:List U}
  (hvisit:∀ d ∈ ds, ∀ memo, Memoised cached G stack memo →
   ∃ out, go cached fuel memo visiting d=some out ∧ Visited G cached stack d memo out)
  (state:List (Finset (InputRef U)) × Memo U) (hmemo:Memoised cached G stack state.2) :
  ∃ out, ds.foldlM (visit cached fuel visiting) state=some out ∧
   VisitedEach G cached stack ds state out := by
 induction ds generalizing state with
 | nil=>
  refine ⟨state,rfl,hmemo,Keeps.refl _ _,fun _ hs=>hs, ?_,fun _ hs=>.inl hs⟩
  intro d hd
  cases hd
 | cons d ds ih=>
  obtain ⟨first,hgo,hfirst⟩:=hvisit d List.mem_cons_self state.2 hmemo
  obtain ⟨out,hout,hrest⟩:=ih (fun d' hd' =>hvisit d' (List.mem_cons_of_mem _ hd'))
   (first.1::state.1,first.2) hfirst.memoised
  have hstep:visit cached fuel visiting state d=some (first.1::state.1,first.2):=by
   unfold visit
   rw [hgo]
   rfl
  refine ⟨out, ?_,hrest.memoised,hfirst.keeps.trans hrest.keeps, ?_, ?_, ?_⟩
  · rw [List.foldlM_cons,hstep]
    exact hout
  · intro s hs
    exact hrest.earlier s (List.mem_cons_of_mem _ hs)
  · intro d' hd'
    cases List.mem_cons.mp hd' with
    | inl heq=>
     rw [heq]
     exact ⟨first.1,hrest.earlier _ List.mem_cons_self,hfirst.result⟩
    | inr hmem=>exact hrest.each d' hmem
  · intro s hs
    cases hrest.only s hs with
    | inl hmem=>
     cases List.mem_cons.mp hmem with
     | inl heq=>
      rw [heq]
      exact .inr ⟨d,List.mem_cons_self,hfirst.result⟩
     | inr hmem=>exact .inl hmem
    | inr hmem=>
     have ⟨d', hd', hs'⟩:=hmem
     exact .inr ⟨d', List.mem_cons_of_mem _ hd', hs'⟩

theorem VisitedEach.gathers {u:U} {memo:Memo U} {out:List (Finset (InputRef U)) × Memo U}
  (h:VisitedEach G cached (u::stack) ((cached.deps u).sort (· ≤ ·)) ([],memo) out) :
  Gathers cached G stack u (unions (cached.directRefs u::out.1)) := by
 constructor
 · intro r hr
   exact mem_unions.mpr ⟨_,List.mem_cons_self,hr⟩
 · intro d hd
   have ⟨s,hs,hresult⟩:=h.each d ((Finset.mem_sort _).mpr hd)
   refine ⟨s,hresult, ?_⟩
   intro r hr
   exact mem_unions.mpr ⟨s,List.mem_cons_of_mem _ hs,hr⟩
 · intro r hr
   have ⟨s,hs,hmem⟩:=mem_unions.mp hr
   cases List.mem_cons.mp hs with
   | inl heq=>exact .inl (heq ▸ hmem)
   | inr hs=>
    cases h.only s hs with
    | inl hnil=>cases hnil
    | inr hdep=>
     have ⟨d,hd,hresult⟩:=hdep
     exact .inr ⟨d,(Finset.mem_sort _).mp hd,s,hresult,hmem⟩

structure Ready (cached:CachedDecisionQuery U) (visiting:Finset U) (stack:List U) (u:U) :
  Prop where
 visiting : ∀ x, x ∈ visiting ↔ x ∈ stack
 nodup : stack.Nodup
 next : u ∉ stack → Open cached (u::stack)
 mem : u ∈ allUniques cached
 all : ∀ x ∈ stack, x ∈ allUniques cached

theorem Ready.step {visiting:Finset U} {u:U} (h:Ready cached visiting stack u)
  (hu:u ∉ stack) {d:U} (hd:d ∈ cached.deps u) :
  Ready cached (insert u visiting) (u::stack) d where
 visiting x := by rw [Finset.mem_insert,h.visiting,List.mem_cons]
 nodup:=(h.next hu).nodup
 next hnew := (h.next hu).step hd hnew
 mem:=dep_mem_allUniques hd
 all x hx := by
  cases List.mem_cons.mp hx with
  | inl heq=>exact heq ▸ h.mem
  | inr hmem=>exact h.all x hmem

theorem go_spec (hG:Gathered cached G) (fuel:ℕ) (stack:List U) (visiting:Finset U) (u:U)
  (hready:Ready cached visiting stack u)
  (hfuel:(allUniques cached).card < fuel+stack.length) (memo:Memo U)
  (hmemo:Memoised cached G stack memo) :
  ∃ out, go cached fuel memo visiting u=some out ∧ Visited G cached stack u memo out := by
 induction fuel generalizing stack visiting u memo with
 | zero=>
  have hsub:stack.toFinset ⊆ allUniques cached:=by
   intro x hx
   exact hready.all x (List.mem_toFinset.mp hx)
  have hcard:=Finset.card_le_card hsub
  rw [List.toFinset_card_of_nodup hready.nodup] at hcard
  omega
 | succ fuel ih=>
  cases hlookup:memo.lookup u with
  | some s=>
   exact ⟨(s,memo),go_of_memo hlookup,hmemo u s hlookup,hmemo,Keeps.refl _ _,
    fun _=>hlookup⟩
  | none=>
   by_cases hopen:u ∈ stack
   · refine ⟨_,go_of_visiting hlookup ((hready.visiting u).mpr hopen),
      ⟨fun _=>rfl,fun hnot=>absurd hopen hnot⟩, ?_, ?_,fun hnot=>absurd hopen hnot⟩
     · intro x s hs
       rw [IntMap.lookup_insert] at hs
       by_cases heq:x=u
       · rw [if_pos heq] at hs
         cases hs
         exact ⟨fun _=>heq ▸ rfl,fun hnot=>absurd (heq ▸ hopen) hnot⟩
       · rw [if_neg heq] at hs
         exact hmemo x s hs
     · intro x hx s hs
       rw [IntMap.lookup_insert,if_neg]
       · exact hs
       · intro heq
         exact hx (heq ▸ hopen)
   · have hvisit:∀ d ∈ (cached.deps u).sort (· ≤ ·), ∀ memo',
       Memoised cached G (u::stack) memo' →
        ∃ out, go cached fuel memo' (insert u visiting) d=some out ∧
         Visited G cached (u::stack) d memo' out := by
      intro d hd memo' hmemo'
      apply ih _ _ _ (hready.step hopen ((Finset.mem_sort _).mp hd)) _ memo' hmemo'
      rw [List.length_cons]
      omega
     obtain ⟨out,hout,heach⟩:=visitEach hvisit ([],memo) (hmemo.step hlookup)
     have hrefs:G u (unions (cached.directRefs u::out.1)):=
      hG u stack _ (hready.next hopen) heach.gathers
     have hgo:go cached (fuel+1) memo visiting u=_:=
      go_of_fresh hlookup fun h=>hopen ((hready.visiting u).mp h)
     rw [hout] at hgo
     refine ⟨_,hgo,⟨fun h=>absurd h hopen,fun _=>hrefs⟩, ?_, ?_,fun _=>?_⟩
     · intro x s hs
       rw [IntMap.lookup_insert] at hs
       by_cases heq:x=u
       · rw [if_pos heq] at hs
         cases hs
         exact ⟨fun h=>absurd (heq ▸ h) hopen,fun _=>heq ▸ hrefs⟩
       · rw [if_neg heq] at hs
         have hx:=heach.memoised x s hs
         refine ⟨fun h=>hx.1 (List.mem_cons_of_mem _ h),fun hnot=>hx.2 ?_⟩
         rw [List.mem_cons]
         exact not_or.mpr ⟨heq,hnot⟩
     · intro x hx s hs
       have hne:x ≠ u:=by
        intro heq
        rw [heq,hlookup] at hs
        cases hs
       rw [IntMap.lookup_insert,if_neg hne]
       apply heach.keeps x _ s hs
       rw [List.mem_cons]
       exact not_or.mpr ⟨hne,hx⟩
     · rw [IntMap.lookup_insert,if_pos rfl]

/-! ## The whole collection -/

theorem Ready.first {u:U} (hu:u ∈ allUniques cached) : Ready cached ∅ [] u where
 visiting x := by simp
 nodup:=List.nodup_nil
 next _ := .cons .nil (fun w hw=>by cases hw) List.not_mem_nil
 mem:=hu
 all x hx := by cases hx

def collect (cached:CachedDecisionQuery U) (memo:Memo U) (u:U) : Option (Memo U) :=
 (go cached ((allUniques cached).card+1) memo ∅ u).map Prod.snd

theorem collect_spec (hG:Gathered cached G) {us:List U} (hus:∀ u ∈ us, u ∈ allUniques cached)
  (memo:Memo U) (hmemo:Memoised cached G [] memo) :
  ∃ memo', us.foldlM (collect cached) memo=some memo' ∧ Memoised cached G [] memo' ∧
   Keeps [] memo memo' ∧ ∀ u ∈ us, ∃ s, memo'.lookup u=some s := by
 induction us generalizing memo with
 | nil=>
  refine ⟨memo,rfl,hmemo,Keeps.refl _ _, ?_⟩
  intro u hu
  cases hu
 | cons u us ih=>
  obtain ⟨out,hgo,hout⟩:=go_spec hG ((allUniques cached).card+1) [] ∅ u
   (.first (hus u List.mem_cons_self)) (by simp) memo hmemo
  obtain ⟨memo', hfold,hmemo', hkeeps,heach⟩:=
   ih (fun u' hu' =>hus u' (List.mem_cons_of_mem _ hu')) out.2 hout.memoised
  refine ⟨memo', ?_,hmemo', hout.keeps.trans hkeeps, ?_⟩
  · rw [List.foldlM_cons]
    have hstep:collect cached memo u=some out.2:=by
     unfold collect
     rw [hgo]
     rfl
    rw [hstep]
    exact hfold
  · intro u' hu'
    cases List.mem_cons.mp hu' with
    | inl heq=>
     rw [heq]
     exact ⟨out.1,hkeeps u List.not_mem_nil out.1 (hout.own List.not_mem_nil)⟩
    | inr hmem=>exact heach u' hmem

theorem collection_spec (hG:Gathered cached G) :
  ∃ memo, inputRefsClosureByUnique cached=some memo ∧
   ∀ u ∈ allUniques cached, ∃ s, memo.lookup u=some s ∧ G u s := by
 obtain ⟨memo,hfold,hmemo,_,heach⟩:=collect_spec hG
  (fun u hu=>(Finset.mem_sort (s := allUniques cached) (· ≤ ·)).mp hu) .empty
  (fun u s hs=>by cases hs)
 refine ⟨memo,hfold, ?_⟩
 intro u hu
 have ⟨s,hs⟩:=heach u ((Finset.mem_sort _).mpr hu)
 exact ⟨s,hs,(hmemo u s hs).2 List.not_mem_nil⟩

end Visiting

/-! ## The closure -/

variable (cached) in
/-- Each unique gets the references that it reaches, and no other. -/
def Closed : Prop :=
 ∃ memo, inputRefsClosureByUnique cached=some memo ∧
  ∀ u ∈ allUniques cached, ∃ s, memo.lookup u=some s ∧ ∀ r, r ∈ s ↔ Reaches cached u r

theorem gathered_sound : Gathered cached fun u s=>∀ r ∈ s, Reaches cached u r := by
 intro u stack refs _ hrefs r hr
 cases hrefs.only r hr with
 | inl hdirect=>exact .direct hdirect
 | inr hdep=>
  obtain ⟨d,hd,s,hresult,hmem⟩:=hdep
  apply Reaches.dep hd
  by_cases hopen:d ∈ u::stack
  · rw [hresult.1 hopen] at hmem
    exact .direct hmem
  · exact hresult.2 hopen r hmem

theorem gathered_exact (h:Unobstructed cached) :
  Gathered cached fun u s=>∀ r, r ∈ s ↔ Reaches cached u r := by
 intro u stack refs hopen hrefs r
 constructor
 · intro hr
   cases hrefs.only r hr with
   | inl hdirect=>exact .direct hdirect
   | inr hdep=>
    obtain ⟨d,hd,s,hresult,hmem⟩:=hdep
    apply Reaches.dep hd
    by_cases hd' : d ∈ u::stack
    · rw [hresult.1 hd'] at hmem
      exact .direct hmem
    · exact (hresult.2 hd' r).mp hmem
 · intro hr
   cases h u stack hopen r hr with
   | inl hdirect=>exact hrefs.direct hdirect
   | inr hdep=>
    obtain ⟨d,hd,hcase⟩:=hdep
    obtain ⟨s,hresult,hsub⟩:=hrefs.dep d hd
    cases hcase with
    | inl hvisited=>
     apply hsub
     rw [hresult.1 (List.mem_cons_of_mem _ hvisited.1)]
     exact hvisited.2
    | inr hfresh=>exact hsub ((hresult.2 hfresh.1 r).mpr hfresh.2)

theorem closed_of_unobstructed (h:Unobstructed cached) : Closed cached :=
 collection_spec (gathered_exact h)

end Visits

/-! ## A reference that is lost -/

section Lost
variable {U:Type} [LinearOrder U] {cached:CachedDecisionQuery U}

theorem exists_sort_eq {s:Finset U} {w:U} (hw:w ∈ s) :
  ∃ pre post, s.sort (· ≤ ·)=pre ++ w::post ∧ ∀ a ∈ pre, a ∈ s ∧ a < w := by
 obtain ⟨pre,post,heq⟩:=List.append_of_mem ((Finset.mem_sort (· ≤ ·)).mpr hw)
 refine ⟨pre,post,heq, ?_⟩
 intro a ha
 have hsorted:=(Finset.sortedLT_sort s).pairwise
 rw [heq] at hsorted
 have hmem:a ∈ s.sort (· ≤ ·):=by
  rw [heq]
  exact List.mem_append_left _ ha
 exact ⟨(Finset.mem_sort _).mp hmem,
  (List.pairwise_append.mp hsorted).2.2 a ha w List.mem_cons_self⟩

theorem idle_visits {stack ds:List U} {visiting:Finset U} (fuel:ℕ)
  (hvisiting:∀ x, x ∈ visiting ↔ x ∈ stack) (hds:∀ d ∈ ds, d ∈ stack)
  (state:List (Finset (InputRef U)) × Memo U) (hidle:Idle cached stack state.2) :
  ∃ out, ds.foldlM (visit cached (fuel+1) visiting) state=some out ∧
   Idle cached stack out.2 := by
 induction ds generalizing state with
 | nil=>exact ⟨state,rfl,hidle⟩
 | cons d ds ih=>
  have hopen:=hds d List.mem_cons_self
  have hrest:∀ d' ∈ ds, d' ∈ stack:=fun d' hd' =>hds d' (List.mem_cons_of_mem _ hd')
  have hstep:∃ first, go cached (fuel+1) state.2 visiting d=some first ∧
    Idle cached stack first.2 := by
   cases hlookup:state.2.lookup d with
   | some s=>exact ⟨_,go_of_memo hlookup,hidle⟩
   | none=>
    refine ⟨_,go_of_visiting hlookup ((hvisiting d).mpr hopen), ?_⟩
    intro u s hs
    rw [IntMap.lookup_insert] at hs
    by_cases heq:u=d
    · rw [if_pos heq] at hs
      cases hs
      exact ⟨heq ▸ hopen,heq ▸ rfl⟩
    · rw [if_neg heq] at hs
      exact hidle u s hs
  obtain ⟨first,hgo,hfirst⟩:=hstep
  have hvisit:visit cached (fuel+1) visiting state d =
    some (first.1::state.1,first.2) := by
   unfold visit
   rw [hgo]
   rfl
  obtain ⟨out,hout,hlast⟩:=ih hrest (first.1::state.1,first.2) hfirst
  refine ⟨out, ?_,hlast⟩
  rw [List.foldlM_cons,hvisit]
  exact hout

/-- The end of an open path lacks the reference, and has it only through what is open. -/
structure Lost (cached:CachedDecisionQuery U) (v:U) (stack:List U) (r:InputRef U) :
  Prop where
 opened : Open cached (v::stack)
 reaches : Reaches cached v r
 direct : r ∉ cached.directRefs v
 dep : ∀ d ∈ cached.deps v, (d ∈ stack → r ∉ cached.directRefs d) ∧
  (d ∉ v::stack → ¬Reaches cached d r)

theorem Lost.not_mem {v:U} {stack:List U} {r:InputRef U} (h:Lost cached v stack r)
  {refs:Finset (InputRef U)}
  (hrefs:Gathers cached (fun u s=>∀ r ∈ s, Reaches cached u r) stack v refs) : r ∉ refs := by
 intro hr
 cases hrefs.only r hr with
 | inl hdirect=>exact h.direct hdirect
 | inr hdep=>
  obtain ⟨d,hd,s,hresult,hmem⟩:=hdep
  by_cases hopen:d ∈ v::stack
  · rw [hresult.1 hopen] at hmem
    cases List.mem_cons.mp hopen with
    | inl heq=>exact h.direct (heq ▸ hmem)
    | inr hstack=>exact (h.dep d hd).1 hstack hmem
  · exact (h.dep d hd).2 hopen (hresult.2 hopen r hmem)

def First (cached:CachedDecisionQuery U) (path:List U) : Prop :=
 ∀ after w before, path=after ++ w::before → ∀ a ∈ allUniques cached, a < w → a ∈ before

theorem Ready.length_lt {visiting:Finset U} {stack:List U} {u:U}
  (h:Ready cached visiting stack u) (hu:u ∉ stack) :
  stack.length < (allUniques cached).card := by
 have hsub:(u::stack).toFinset ⊆ allUniques cached:=by
  intro x hx
  cases List.mem_cons.mp (List.mem_toFinset.mp hx) with
  | inl heq=>exact heq ▸ h.mem
  | inr hmem=>exact h.all x hmem
 have hcard:=Finset.card_le_card hsub
 rw [List.toFinset_card_of_nodup (List.nodup_cons.mpr ⟨hu,h.nodup⟩),List.length_cons] at hcard
 exact hcard

theorem Ready.visits {G:U → Finset (InputRef U) → Prop} (hG:Gathered cached G)
  {visiting:Finset U} {stack:List U} {u:U} (h:Ready cached visiting stack u)
  (hu:u ∉ stack) {fuel:ℕ} (hfuel:(allUniques cached).card < fuel+1+stack.length) {d:U}
  (hd:d ∈ cached.deps u) (memo:Memo U) (hmemo:Memoised cached G (u::stack) memo) :
  ∃ out, go cached fuel memo (insert u visiting) d=some out ∧
   Visited G cached (u::stack) d memo out := by
 apply go_spec hG fuel (u::stack) _ _ (h.step hu hd) _ memo hmemo
 rw [List.length_cons]
 omega

theorem go_loses {v:U} {stack0:List U} {r:InputRef U} (h:Lost cached v stack0 r)
  (hfirst:First cached (v::stack0)) (after:List U) (u:U) (stack:List U)
  (hpath:v::stack0=after ++ u::stack) (fuel:ℕ) (visiting:Finset U)
  (hready:Ready cached visiting stack u)
  (hfuel:(allUniques cached).card < fuel+stack.length) (memo:Memo U)
  (hidle:Idle cached stack memo) (result:Finset (InputRef U) × Memo U)
  (hresult:go cached fuel memo visiting u=some result) :
  ∃ s, result.2.lookup v=some s ∧ r ∉ s := by
 induction after using List.reverseRecOn generalizing u stack fuel visiting memo result with
 | nil=>
  obtain ⟨rfl,rfl⟩:=List.cons.inj hpath
  have hnew:v ∉ stack0:=(List.nodup_cons.mp h.opened.nodup).1
  have hlength:=hready.length_lt hnew
  obtain ⟨fuel,rfl⟩ : ∃ k, fuel=k+1:=⟨fuel-1,by omega⟩
  have hlookup:=hidle.lookup_eq_none hnew
  have hgo:go cached (fuel+1) memo visiting v=_:=
   go_of_fresh hlookup fun hmem=>hnew ((hready.visiting v).mp hmem)
  obtain ⟨out,hout,heach⟩:=visitEach
   (fun d hd=>hready.visits gathered_sound hnew hfuel ((Finset.mem_sort (· ≤ ·)).mp hd))
   ([],memo) ((hidle.memoised _).step hlookup)
  rw [hout,hresult] at hgo
  cases hgo
  refine ⟨_, ?_,h.not_mem heach.gathers⟩
  rw [IntMap.lookup_insert,if_pos rfl]
 | append_singleton init w ih=>
  rw [List.append_assoc] at hpath
  have hwhole:Open cached (w::u::stack):=Open.of_append (hpath ▸ h.opened)
  have hnew:u ∉ stack:=(List.nodup_cons.mp hwhole.tail.nodup).1
  have hneww:w ∉ u::stack:=(List.nodup_cons.mp hwhole.nodup).1
  have hw:w ∈ cached.deps u:=by
   cases hwhole with
   | cons _ hdep _=>exact hdep u rfl
  have hv:v ∉ u::stack:=by
   have hnodup:=h.opened.nodup
   rw [hpath,←List.append_assoc] at hnodup
   have hmem:v ∈ init ++ [w]:=by
    cases init with
    | nil=>exact List.mem_singleton.mpr (List.cons.inj hpath).1
    | cons x init=>exact (List.cons.inj hpath).1 ▸ List.mem_cons_self
   intro hv
   exact (List.nodup_append.mp hnodup).2.2 v hmem v hv rfl
  have hready' :=hready.step hnew hw
  have hlength:=hready'.length_lt hneww
  rw [List.length_cons] at hlength
  obtain ⟨fuel,rfl⟩ : ∃ k, fuel=k+2:=⟨fuel-2,by omega⟩
  obtain ⟨pre,post,hsort,hpre⟩:=exists_sort_eq hw
  have hidle' : Idle cached (u::stack) memo:=by
   intro x s hs
   have ⟨hx,heq⟩:=hidle x s hs
   exact ⟨List.mem_cons_of_mem _ hx,heq⟩
  obtain ⟨first,hpreFold,hidleFirst⟩:=idle_visits fuel hready'.visiting
   (fun a ha=>hfirst init w (u::stack) hpath a (dep_mem_allUniques (hpre a ha).1) (hpre a ha).2)
   ([],memo) hidle'
  obtain ⟨next,hnext,hvisited⟩:=hready.visits gathered_sound hnew hfuel hw first.2
   (hidleFirst.memoised _)
  obtain ⟨s,hs,hr⟩:=ih w (u::stack) hpath (fuel+1) _ hready'
   (by rw [List.length_cons]; omega) first.2 hidleFirst next hnext
  have hpost:∀ d ∈ post, d ∈ cached.deps u:=by
   intro d hd
   apply (Finset.mem_sort (· ≤ ·)).mp
   rw [hsort]
   exact List.mem_append_right _ (List.mem_cons_of_mem _ hd)
  obtain ⟨out,hout,heach⟩:=visitEach
   (fun d hd=>hready.visits gathered_sound hnew hfuel (hpost d hd))
   (next.1::first.1,next.2) hvisited.memoised
  have hfold:((cached.deps u).sort (· ≤ ·)).foldlM
    (visit cached (fuel+1) (insert u visiting)) ([],memo)=some out := by
   have hstep:visit cached (fuel+1) (insert u visiting) first w =
     some (next.1::first.1,next.2) := by
    unfold visit
    rw [hnext]
    rfl
   rw [hsort,List.foldlM_append,hpreFold]
   change List.foldlM (visit cached (fuel+1) (insert u visiting)) first (w::post)=_
   rw [List.foldlM_cons,hstep]
   exact hout
  have hgo:go cached (fuel+2) memo visiting u=_:=
   go_of_fresh (hidle.lookup_eq_none hnew) fun hmem=>hnew ((hready.visiting u).mp hmem)
  rw [hfold,hresult] at hgo
  cases hgo
  have hne:v ≠ u:=fun heq=>hv (heq ▸ List.mem_cons_self)
  refine ⟨s, ?_,hr⟩
  rw [IntMap.lookup_insert,if_neg hne]
  exact heach.keeps v hv s hs
theorem Open.mem_allUniques {u:U} {stack:List U} (h:Open cached (u::stack))
  (hne:stack ≠ []) : ∀ x ∈ u::stack, x ∈ allUniques cached := by
 induction stack generalizing u with
 | nil=>exact absurd rfl hne
 | cons w stack ih=>
  have hu:u ∈ cached.deps w:=by
   cases h with
   | cons _ hdep _=>exact hdep w rfl
  intro x hx
  cases List.mem_cons.mp hx with
  | inl heq=>exact heq ▸ dep_mem_allUniques hu
  | inr hmem=>
   cases stack with
   | nil=>
    rw [List.mem_singleton.mp hmem]
    exact mem_allUniques_of_dep hu
   | cons w' stack=>exact ih h.tail (List.cons_ne_nil _ _) x hmem

theorem not_closed_of_lost {v:U} {stack:List U} {r:InputRef U}
  (h:Lost cached v stack r) (hne:stack ≠ []) (hfirst:First cached (v::stack)) :
  ¬Closed cached := by
 intro hclosed
 obtain ⟨memo,hmemo,heach⟩:=hclosed
 have hall:=h.opened.mem_allUniques hne
 obtain ⟨after,root,hpath⟩ : ∃ after root, v::stack=after ++ [root]:=
  ⟨_,_,(List.dropLast_append_getLast (List.cons_ne_nil v stack)).symm⟩
 have hroot:root ∈ allUniques cached:=by
  apply hall
  rw [hpath]
  exact List.mem_append_right _ List.mem_cons_self
 obtain ⟨pre,rest,hsort,hpre⟩:=exists_sort_eq hroot
 have hnil:pre=[]:=by
  cases pre with
  | nil=>rfl
  | cons a pre=>
   have ⟨hmem,hlt⟩:=hpre a List.mem_cons_self
   cases hfirst after root [] hpath a hmem hlt
 have hidle:Idle cached [] .empty:=fun u s hs=>by cases hs
 obtain ⟨out,hout,hvisited⟩:=go_spec gathered_sound ((allUniques cached).card+1) [] ∅ root
  (.first hroot) (by simp) .empty (hidle.memoised _)
 obtain ⟨s,hs,hr⟩:=go_loses h hfirst after root [] hpath _ _ (.first hroot) (by simp) .empty
  hidle out hout
 have hrest:∀ u ∈ rest, u ∈ allUniques cached:=by
  intro u hu
  apply (Finset.mem_sort (· ≤ ·)).mp
  rw [hsort]
  exact List.mem_append_right _ (List.mem_cons_of_mem _ hu)
 obtain ⟨last,hlast,_,hkeeps,_⟩:=collect_spec gathered_sound hrest out.2 hvisited.memoised
 have hsame:memo=last:=by
  change ((allUniques cached).sort (· ≤ ·)).foldlM (collect cached) .empty=some memo at hmemo
  have hstep:collect cached .empty root=some out.2:=by
   unfold collect
   rw [hout]
   rfl
  rw [hsort,hnil,List.nil_append,List.foldlM_cons,hstep] at hmemo
  exact Option.some.inj (hmemo.symm.trans hlast)
 obtain ⟨t,ht,hexact⟩:=heach v (hall v List.mem_cons_self)
 rw [hsame,hkeeps v List.not_mem_nil s hs] at ht
 cases ht
 exact hr ((hexact r).mpr h.reaches)

end Lost

/-! ## Every numbering -/

section Orders
variable {U:Type} [LinearOrder U]

abbrev pathFirst (path:List U) : LinearOrder U :=
 LinearOrder.lift' (fun u=>toLex (path.idxOf u,u)) fun _ _ h=>(Prod.ext_iff.mp h).2

theorem first_pathFirst (cached:CachedDecisionQuery U) {path:List U} (h:path.Nodup) :
  @First U (pathFirst path) cached path.reverse := by
 intro after w before hpath a _ hlt
 have heq:path=before.reverse ++ w::after.reverse:=by
  rw [←List.reverse_reverse path,hpath]
  simp
 have hw:w ∉ before.reverse:=by
  rw [heq] at h
  intro hmem
  exact (List.nodup_append.mp h).2.2 w hmem w List.mem_cons_self rfl
 have hidx:path.idxOf w=before.length:=by
  rw [heq,List.idxOf_append_of_notMem hw,List.idxOf_cons_self,List.length_reverse]
  rfl
 have hlex:toLex (path.idxOf a,a) < toLex (path.idxOf w,w):=hlt
 rw [Prod.Lex.toLex_lt_toLex,hidx] at hlex
 by_contra hnot
 have ha:a ∉ before.reverse:=fun hmem=>hnot (List.mem_reverse.mp hmem)
 have hafter:path.idxOf a=before.length+(w::after.reverse).idxOf a:=by
  rw [heq,List.idxOf_append_of_notMem ha,List.length_reverse]
 cases hlex with
 | inl hless=>
  change path.idxOf a < before.length at hless
  omega
 | inr hsame=>
  have hzero:(w::after.reverse).idxOf a=0:=by
   have hidx:path.idxOf a=before.length:=hsame.1
   omega
  rw [List.idxOf_cons] at hzero
  by_cases hwa:w=a
  · exact lt_irrefl a (hwa ▸ hsame.2)
  · rw [beq_eq_false_iff_ne.mpr hwa] at hzero
    cases hzero

/-- The references collected are the closure, whatever the order of the uniques, if and only if no
    reference is reached only back through what is open. -/
theorem closed_iff (cached:CachedDecisionQuery U) :
  (∀ order : LinearOrder U, @Closed U order cached) ↔ Unobstructed cached := by
 constructor
 · intro hclosed u stack hopen r hr
   by_contra hnot
   have hne:stack ≠ []:=by
    intro hnil
    rw [hnil] at hnot
    cases hr.cases with
    | inl hdirect=>exact hnot (.inl hdirect)
    | inr hdep=>
     have ⟨d,hd,hne,hreaches⟩:=hdep
     refine hnot (.inr ⟨d,hd,.inr ⟨?_,hreaches⟩⟩)
     rw [List.mem_singleton]
     exact hne
   have hlost:Lost cached u stack r:=by
    refine ⟨hopen,hr,fun hdirect=>hnot (.inl hdirect), ?_⟩
    intro d hd
    constructor
    · intro hstack hdirect
      exact hnot (.inr ⟨d,hd,.inl ⟨hstack,hdirect⟩⟩)
    · intro hnew hreaches
      exact hnot (.inr ⟨d,hd,.inr ⟨hnew,hreaches⟩⟩)
   have hfirst:=first_pathFirst cached (List.nodup_reverse.mpr hopen.nodup)
   rw [List.reverse_reverse] at hfirst
   exact @not_closed_of_lost U (pathFirst (u::stack).reverse) cached u stack r hlost hne hfirst
    (hclosed _)
 · intro h order
   exact closed_of_unobstructed h

end Orders

section Acyclic
variable {U:Type} {cached:CachedDecisionQuery U}

theorem Open.reaches {u:U} {stack:List U} (h:Open cached (u::stack)) :
  ∀ w ∈ stack, ReflTransGen (fun a b=>b ∈ cached.deps a) w u := by
 induction stack generalizing u with
 | nil=>
  intro w hw
  cases hw
 | cons w stack ih=>
  have hu:u ∈ cached.deps w:=by
   cases h with
   | cons _ hdep _=>exact hdep w rfl
  intro x hx
  cases List.mem_cons.mp hx with
  | inl heq=>exact heq ▸ .single hu
  | inr hmem=>exact (ih h.tail x hmem).tail hu

theorem unobstructed_of_acyclic
  (h:∀ u, ∀ d ∈ cached.deps u, ReflTransGen (fun a b=>b ∈ cached.deps a) d u → d=u) :
  Unobstructed cached := by
 intro u stack hopen r hr
 cases hr.cases with
 | inl hdirect=>exact .inl hdirect
 | inr hdep=>
  have ⟨d,hd,hne,hreaches⟩:=hdep
  refine .inr ⟨d,hd,.inr ⟨?_,hreaches⟩⟩
  intro hmem
  cases List.mem_cons.mp hmem with
  | inl heq=>exact hne heq
  | inr hstack=>exact hne (h u d hd (hopen.reaches d hstack))

end Acyclic

/-! ## A cycle with a way out -/

/-- Two uniques on a cycle; the first depends on a third one too, which refers to an input. -/
def cyclic : CachedDecisionQuery ℤ where
 varLabelByUnique:=.empty
 varDepsByUnique:=.fromList [(1,{2,3}),(2,{1})]
 varInputRefsByUnique:=.fromList [(3,{⟨7,[]⟩})]

theorem lost_cyclic : Lost cyclic 2 [1] ⟨7,[]⟩ where
 opened := by
  apply Open.cons
  · exact .cons .nil (fun w hw=>by cases hw) List.not_mem_nil
  · intro w hw
    cases hw
    decide +kernel
  · decide
 reaches := by
  have hone:1 ∈ cyclic.deps 2:=by decide +kernel
  have hthree:3 ∈ cyclic.deps 1:=by decide +kernel
  exact ⟨3,.head hone (.single hthree),by decide +kernel⟩
 direct:=by decide +kernel
 dep := by
  intro d hd
  have heq:d=1:=by
   have hall:∀ d ∈ cyclic.deps 2, d=1:=by decide +kernel
   exact hall d hd
  rw [heq]
  exact ⟨fun _=>by decide +kernel,fun hnot=>absurd (by decide) hnot⟩

/-- The second unique of the cycle loses the input that it reaches through the first one. -/
theorem not_closed_cyclic : ¬Closed cyclic := by
 apply not_closed_of_lost lost_cyclic (List.cons_ne_nil _ _)
 intro after w before hpath
 have hone:∀ a ∈ allUniques cyclic, a < 1 → a ∈ ([] : List ℤ):=by decide +kernel
 have htwo:∀ a ∈ allUniques cyclic, a < 2 → a ∈ ([1] : List ℤ):=by decide +kernel
 cases after with
 | nil=>
  cases hpath
  exact htwo
 | cons x after=>
  cases after with
  | nil=>
   cases hpath
   exact hone
  | cons y after=>cases after <;> cases hpath

end L4Ide.InputRefsClosed
