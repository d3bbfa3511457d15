import L4Ide.ImportResolutionChecks

set_option autoImplicit false

/-!
# Import resolution is correct

A resolution returns every module reached once, each with what it is checked to whatever was
resolved before it, or names a module that is missing, does not parse or leads back to itself.
-/
namespace L4Ide.ImportResolutionCorrect
open ImportResolution ImportResolutionChecks FuelledComputation
open Relation (ReflTransGen TransGen)

variable {A E S R B:Type} [DecidableEq A] [DecidableEq S] {fe:Frontend A E S R B}
 {lookupModule:String → Option String}

/-! ## What a resolution returns -/

variable (fe lookupModule)

/-- Records of modules that have been checked, and what they stand for in an environment. -/
structure Found (resolved:Resolved A E S R B) (names:List String)
  (ris:List (ResolvedImport A E S R B)) : Prop where
 checks : ∀ r ∈ ris, ChecksTo fe lookupModule r.riModuleName r
 named : ∀ n ∈ names, ∃ r ∈ ris, r.riModuleName=n
 reached : ∀ r ∈ ris, ∃ n ∈ names, ReflTransGen (Imports fe lookupModule) n r.riModuleName
 closed : ∀ r ∈ ris, ∀ m, Imports fe lookupModule r.riModuleName m →
  (∃ r' ∈ ris, r'.riModuleName=m) ∨ (resolved m).isSome=true
 folds : ∃ deps, List.Forall₂ (ChecksTo fe lookupModule) names deps ∧
  ∀ env : CheckEnv A E S, ris.foldl (combineOne fe) env=deps.foldl (combineOne fe) env

def Answers (resolved:Resolved A E S R B) (names:List String) : Answer A E S R B → Prop
 | .error err=>Fails fe lookupModule names err
 | .ok ris=>Found fe lookupModule resolved names ris

/-- What is resolved already is checked, with all it imports. -/
structure Kept (resolved:Resolved A E S R B) : Prop where
 checks : ∀ m r, resolved m=some r → ChecksTo fe lookupModule m r
 closed : ∀ m r, resolved m=some r → ∀ m', Imports fe lookupModule m m' →
  (resolved m').isSome=true

variable {fe lookupModule}

variable {m:String} {ris:List (ResolvedImport A E S R B)} {inProgress:Finset String}
 {f:Finset String → Resolved A E S R B → List String → Option (Answer A E S R B)} {fuel:ℕ}

theorem Found.cons_cached {resolved:Resolved A E S R B} (hkept:Kept fe lookupModule resolved)
  {cached:ResolvedImport A E S R B} (hcached:resolved m=some cached)
  {rest:List String}
  (h:Found fe lookupModule resolved rest ris) :
  Found fe lookupModule resolved (m::rest) (cached::ris) := by
 have hchecks:=hkept.checks m cached hcached
 obtain ⟨hname,_⟩:=hchecks.name
 obtain ⟨deps,hdeps,hfold⟩:=h.folds
 refine ⟨fun r hr=>?_,fun n hn=>?_,fun r hr=>?_,fun r hr m' himp=>?_,
  cached::deps,.cons hchecks hdeps,fun env=>hfold _⟩
 · rcases List.mem_cons.1 hr with rfl | hr
   · exact hname ▸ hchecks
   · exact h.checks r hr
 · rcases List.mem_cons.1 hn with rfl | hn
   · exact ⟨cached,List.mem_cons_self,hname⟩
   · obtain ⟨r,hr,hrn⟩:=h.named n hn
     exact ⟨r,List.mem_cons_of_mem _ hr,hrn⟩
 · rcases List.mem_cons.1 hr with rfl | hr
   · exact ⟨m,List.mem_cons_self,hname ▸ .refl⟩
   · obtain ⟨n,hn,hreach⟩:=h.reached r hr
     exact ⟨n,List.mem_cons_of_mem m hn,hreach⟩
 · rcases List.mem_cons.1 hr with rfl | hr
   · exact Or.inr (hkept.closed m r hcached m' (hname ▸ himp))
   · rcases h.closed r hr m' himp with ⟨r', hr', hr'n⟩ | hsome
     · exact Or.inl ⟨r', List.mem_cons_of_mem _ hr', hr'n⟩
     · exact Or.inr hsome

section Step
variable {resolved:Resolved A E S R B} {m source:String} {parsed:Module A B}
 {transitive:List (ResolvedImport A E S R B)}

theorem checksTo_record (hparses:Parses fe lookupModule m source parsed)
  (h:Found fe lookupModule resolved (extractImportNames parsed) transitive) :
  ChecksTo fe lookupModule m (record fe m source parsed transitive) := by
 obtain ⟨deps,hdeps,hfold⟩:=h.folds
 refine checksTo_iff.2 ⟨source,parsed,deps,hparses,hdeps, ?_⟩
 have hupdate:updateModuleImports fe transitive parsed=updateModuleImports fe deps parsed:=by
  refine updateModuleImports_eq (fun r hr=>(h.checks r hr).name.2) (fun r hr=>?_) h.named
   fun n hn=>?_
  · obtain ⟨n,_,hchecks⟩:=forall₂_mem_right hdeps hr
    rw [hchecks.name.1,hchecks.name.2]
  · obtain ⟨d,hd,hchecks⟩:=forall₂_mem_left hdeps hn
    exact ⟨d,hd,hchecks.name.1⟩
 rw [record,record,hupdate,combineResolvedImports,combineResolvedImports,hfold]

theorem Kept.step (hkept:Kept fe lookupModule resolved)
  (hparses:Parses fe lookupModule m source parsed)
  (h:Found fe lookupModule resolved (extractImportNames parsed) transitive) :
  Kept fe lookupModule (newResolved resolved transitive (record fe m source parsed transitive)) := by
 have hcases:∀ k r, newResolved resolved transitive (record fe m source parsed transitive) k =
   some r → (k=m ∧ r=record fe m source parsed transitive) ∨ resolved k=some r ∨
    (r ∈ transitive ∧ r.riModuleName=k) := by
  intro k r hr
  by_cases hk:k=m
  · subst hk
    rw [newResolved] at hr
    exact Or.inl ⟨rfl,(Option.some.inj ((Function.update_self k _ _).symm.trans hr)).symm⟩
  · have hne:k ≠ (record fe m source parsed transitive).riModuleName:=hk
    rw [newResolved,Function.update_of_ne hne,Option.or_eq_some_iff] at hr
    rcases hr with hr | ⟨_,hr⟩
    · exact Or.inr (Or.inl hr)
    · exact Or.inr (Or.inr (mem_fromList hr))
 constructor
 · intro k r hr
   rcases hcases k r hr with ⟨rfl,rfl⟩ | hold | ⟨hnew,rfl⟩
   · exact checksTo_record hparses h
   · exact hkept.checks k r hold
   · exact h.checks r hnew
 · intro k r hr m' himp
   rw [isSome_newResolved]
   rcases hcases k r hr with ⟨rfl,rfl⟩ | hold | ⟨hnew,rfl⟩
   · obtain ⟨source', parsed', hparses', hmem⟩:=himp
     obtain ⟨rfl,rfl⟩:=hparses.unique hparses'
     exact Or.inr (Or.inr (h.named m' hmem))
   · exact Or.inr (Or.inl (hkept.closed k r hold m' himp))
   · rcases h.closed r hnew m' himp with hnamed | hsome
     · exact Or.inr (Or.inr hnamed)
     · exact Or.inr (Or.inl hsome)

theorem Found.cons (hparses:Parses fe lookupModule m source parsed)
  (h:Found fe lookupModule resolved (extractImportNames parsed) transitive)
  {rest:List String} {ris:List (ResolvedImport A E S R B)}
  (hrest:Found fe lookupModule
   (newResolved resolved transitive (record fe m source parsed transitive)) rest ris) :
  Found fe lookupModule resolved (m::rest) (deduplicateResolved []
   (record fe m source parsed transitive::(transitive ++ ris))) := by
 have hthis:=checksTo_record hparses h
 have hall:∀ r ∈ record fe m source parsed transitive::(transitive ++ ris),
   ChecksTo fe lookupModule r.riModuleName r := by
  intro r hr
  rcases List.mem_cons.1 hr with rfl | hr
  · exact hthis
  · rcases List.mem_append.1 hr with hr | hr
    · exact h.checks r hr
    · exact hrest.checks r hr
 have hkeep:∀ r ∈ record fe m source parsed transitive::(transitive ++ ris),
   ∃ r' ∈ deduplicateResolved [] (record fe m source parsed transitive::(transitive ++ ris)),
    r'.riModuleName=r.riModuleName :=
  fun r hr=>exists_mem_deduplicateResolved hr List.not_mem_nil
 have hsub:∀ r ∈ transitive, r ∈ record fe m source parsed transitive::(transitive ++ ris):=
  fun r hr=>List.mem_cons_of_mem _ (List.mem_append_left ris hr)
 have hsub' : ∀ r ∈ ris, r ∈ record fe m source parsed transitive::(transitive ++ ris):=
  fun r hr=>List.mem_cons_of_mem _ (List.mem_append_right transitive hr)
 obtain ⟨deps,hdeps,hfold⟩:=hrest.folds
 refine ⟨fun r hr=>hall r (mem_deduplicateResolved hr).1,fun n hn=>?_,fun r hr=>?_,
  fun r hr m' himp=>?_,record fe m source parsed transitive::deps,.cons hthis hdeps,
  fun env=>?_⟩
 · rcases List.mem_cons.1 hn with rfl | hn
   · exact hkeep _ List.mem_cons_self
   · obtain ⟨r,hr,rfl⟩:=hrest.named n hn
     exact hkeep r (hsub' r hr)
 · rcases List.mem_cons.1 (mem_deduplicateResolved hr).1 with rfl | hr
   · exact ⟨m,List.mem_cons_self,.refl⟩
   · rcases List.mem_append.1 hr with hr | hr
     · obtain ⟨n,hn,hreach⟩:=h.reached r hr
       exact ⟨m,List.mem_cons_self,.head ⟨source,parsed,hparses,hn⟩ hreach⟩
     · obtain ⟨n,hn,hreach⟩:=hrest.reached r hr
       exact ⟨n,List.mem_cons_of_mem m hn,hreach⟩
 · have hnamed:∀ {x}, (∃ r ∈ transitive, r.riModuleName=x) → ∃ r' ∈ deduplicateResolved []
     (record fe m source parsed transitive::(transitive ++ ris)), r'.riModuleName=x := by
    rintro x ⟨r,hr,rfl⟩
    exact hkeep r (hsub r hr)
   rcases List.mem_cons.1 (mem_deduplicateResolved hr).1 with rfl | hr
   · obtain ⟨source', parsed', hparses', hmem⟩:=himp
     obtain ⟨rfl,rfl⟩:=hparses.unique hparses'
     exact Or.inl (hnamed (h.named m' hmem))
   · rcases List.mem_append.1 hr with hr | hr
     · exact (h.closed r hr m' himp).imp_left hnamed
     · rcases hrest.closed r hr m' himp with ⟨r', hr', rfl⟩ | hsome
       · exact Or.inl (hkeep r' (hsub' r' hr'))
       · rcases isSome_newResolved.1 hsome with rfl | hsome | hnew
         · exact Or.inl (hkeep _ List.mem_cons_self)
         · exact Or.inr hsome
         · exact Or.inl (hnamed hnew)
 · -- what the imports led to is in the environment of the module already
   have hin:∀ r ∈ transitive, ∀ f, ResultOffers r.riTypeChecked f →
     EnvOffers (combineOne fe env (record fe m source parsed transitive)) f := by
    intro r hr f hoffers
    refine (envOffers_combineOne env _ f).2 (Or.inr ((resultOffers_doCheck _ _ f).2 (Or.inl ?_)))
    exact (envOffers_foldl _ _ f).2 (Or.inr ⟨r,hr,hoffers⟩)
   rw [foldl_deduplicateResolved hall fun r _ hmem=>absurd hmem List.not_mem_nil,
    List.foldl_cons,List.foldl_append,foldl_of_offers hin,hfold,List.foldl_cons]

end Step

/-! ## The resolution -/

variable (fe lookupModule)

def Leads (inProgress:Finset String) (names:List String) : Prop :=
 ∀ p ∈ inProgress, ∀ n ∈ names, TransGen (Imports fe lookupModule) p n

variable {fe lookupModule}

omit [DecidableEq S] [DecidableEq A] in
theorem Leads.insert {source:String} {rest:List String}
  {parsed:Module A B} (h:Leads fe lookupModule inProgress (m::rest))
  (hparses:Parses fe lookupModule m source parsed) :
  Leads fe lookupModule (insert m inProgress) (extractImportNames parsed) := by
 intro p hp n hn
 have himp:Imports fe lookupModule m n:=⟨source,parsed,hparses,hn⟩
 rcases Finset.mem_insert.1 hp with rfl | hp
 · exact .single himp
 · exact (h p hp m List.mem_cons_self).tail himp

theorem resolveEach_answers
  {resolveTransitive:Finset String → Resolved A E S R B → List String → Option (Answer A E S R B)}
  (htransitive:∀ inProgress resolved names answer, Kept fe lookupModule resolved →
   Leads fe lookupModule inProgress names →
   resolveTransitive inProgress resolved names=some answer →
   Answers fe lookupModule resolved names answer)
  {resolved:Resolved A E S R B} {names:List String} {answer:Answer A E S R B}
  (hkept:Kept fe lookupModule resolved) (hleads:Leads fe lookupModule inProgress names)
  (h:resolveEach fe lookupModule resolveTransitive inProgress resolved names=some answer) :
  Answers fe lookupModule resolved names answer := by
 induction names generalizing resolved answer with
 | nil=>
  obtain rfl:=Option.some.inj h
  exact ⟨fun r hr=>absurd hr List.not_mem_nil,fun n hn=>absurd hn List.not_mem_nil,
   fun r hr=>absurd hr List.not_mem_nil,fun r hr=>absurd hr List.not_mem_nil,
   [],.nil,fun _=>rfl⟩
 | cons m rest ih=>
  have hleads' : Leads fe lookupModule inProgress rest:=fun p hp n hn=>
   hleads p hp n (List.mem_cons_of_mem m hn)
  rw [resolveEach] at h
  cases hres:resolved m with
  | some cached=>
   rw [hres] at h
   obtain ⟨restAnswer,hrest,rfl⟩:=Option.map_eq_some_iff.1 h
   have hans:=ih hkept hleads' hrest
   cases restAnswer with
   | error err=>exact Fails.cons hans
   | ok ris=>exact Found.cons_cached hkept hres hans
  | none=>
   rw [hres] at h
   by_cases hin:m ∈ inProgress
   · rw [if_pos hin] at h
     obtain rfl:=Option.some.inj h
     exact ⟨m,List.mem_cons_self,m,.refl,hleads m hin m List.mem_cons_self⟩
   · rw [if_neg hin] at h
     cases hlookup:lookupModule m with
     | none=>
      rw [hlookup] at h
      obtain rfl:=Option.some.inj h
      exact ⟨⟨m,List.mem_cons_self,.refl⟩,hlookup⟩
     | some source=>
      rw [hlookup] at h
      cases hparse:fe.execProgramParser (moduleNameToProjectUri m) source with
      | error messages=>
       simp only [hparse] at h
       obtain rfl:=Option.some.inj h
       exact ⟨⟨m,List.mem_cons_self,.refl⟩,source,hlookup,hparse⟩
      | ok parsed=>
       simp only [hparse,Option.bind_eq_bind,Option.bind_eq_some_iff] at h
       have hparses:Parses fe lookupModule m source parsed:=⟨hlookup,hparse⟩
       obtain ⟨transAnswer,htrans,h⟩:=h
       have htransAns:=htransitive _ _ _ _ hkept (hleads.insert hparses) htrans
       cases transAnswer with
       | error err=>
        obtain rfl:=Option.some.inj h
        exact Fails.of_imports hparses htransAns
       | ok transitive=>
        obtain ⟨restAnswer,hrest,h⟩:=Option.bind_eq_some_iff.1 h
        have hrestAns:=ih (hkept.step hparses htransAns) hleads' hrest
        cases restAnswer with
        | error err=>
         obtain rfl:=Option.some.inj h
         exact Fails.cons hrestAns
        | ok ris=>
         obtain rfl:=Option.some.inj h
         exact Found.cons hparses htransAns hrestAns

theorem resolveImports_answers (fuel:ℕ)
  {resolved:Resolved A E S R B} {names:List String} {answer:Answer A E S R B}
  (hkept:Kept fe lookupModule resolved) (hleads:Leads fe lookupModule inProgress names)
  (h:resolveImports fe lookupModule fuel inProgress resolved names=some answer) :
  Answers fe lookupModule resolved names answer := by
 induction fuel generalizing inProgress resolved names answer with
 | zero=>
  exact resolveEach_answers (fun _ _ _ _ _ _ hnone=>absurd hnone (Option.some_ne_none _).symm)
   hkept hleads h
 | succ fuel ih=>
  exact resolveEach_answers (fun _ _ _ _ hkept hleads h=>ih hkept hleads h) hkept hleads h

/-! ### Depth -/

theorem resolveEach_mono
  {g:Finset String → Resolved A E S R B → List String → Option (Answer A E S R B)}
  (hfg:∀ inProgress resolved names answer, f inProgress resolved names=some answer →
   g inProgress resolved names=some answer)
  {resolved:Resolved A E S R B} {names:List String} {answer:Answer A E S R B}
  (h:resolveEach fe lookupModule f inProgress resolved names=some answer) :
  resolveEach fe lookupModule g inProgress resolved names=some answer := by
 induction names generalizing resolved answer with
 | nil=>exact h
 | cons m rest ih=>
  rw [resolveEach] at h ⊢
  cases hres:resolved m with
  | some cached=>
   rw [hres] at h
   obtain ⟨restAnswer,hrest,rfl⟩:=Option.map_eq_some_iff.1 h
   exact Option.map_eq_some_iff.2 ⟨restAnswer,ih hrest,rfl⟩
  | none=>
   rw [hres] at h
   by_cases hin:m ∈ inProgress
   · rw [if_pos hin] at h
     exact (if_pos hin).trans h
   · rw [if_neg hin] at h
     refine (if_neg hin).trans ?_
     cases hlookup:lookupModule m with
     | none=>
      rw [hlookup] at h
      exact h
     | some source=>
      rw [hlookup] at h
      cases hparse:fe.execProgramParser (moduleNameToProjectUri m) source with
      | error messages=>
       simp only [hparse] at h ⊢
       exact h
      | ok parsed=>
       simp only [hparse,Option.bind_eq_bind,Option.bind_eq_some_iff] at h ⊢
       obtain ⟨transAnswer,htrans,h⟩:=h
       refine ⟨transAnswer,hfg _ _ _ _ htrans, ?_⟩
       cases transAnswer with
       | error err=>exact h
       | ok transitive=>
        obtain ⟨restAnswer,hrest,h⟩:=Option.bind_eq_some_iff.1 h
        exact Option.bind_eq_some_iff.2 ⟨restAnswer,ih hrest,h⟩

theorem resolveImports_mono {fuel' : ℕ} (hle:fuel ≤ fuel')
  {resolved:Resolved A E S R B} {names:List String} {answer:Answer A E S R B}
  (h:resolveImports fe lookupModule fuel inProgress resolved names=some answer) :
  resolveImports fe lookupModule fuel' inProgress resolved names=some answer := by
 induction fuel generalizing fuel' inProgress resolved names answer with
 | zero=>
  cases fuel' with
  | zero=>exact h
  | succ fuel' =>
   exact resolveEach_mono (fun _ _ _ _ hnone=>absurd hnone (Option.some_ne_none _).symm) h
 | succ fuel ih=>
  cases fuel' with
  | zero=>exact absurd hle (Nat.not_succ_le_zero fuel)
  | succ fuel' =>exact resolveEach_mono (fun _ _ _ _=>ih (Nat.le_of_succ_le_succ hle)) h

theorem resolveEach_total (hf:∀ m, m ∉ inProgress → lookupModule m ≠ none → ∀ resolved names,
   ∃ answer, f (insert m inProgress) resolved names=some answer)
  (resolved:Resolved A E S R B) (names:List String) :
  ∃ answer, resolveEach fe lookupModule f inProgress resolved names=some answer := by
 induction names generalizing resolved with
 | nil=>exact ⟨_,rfl⟩
 | cons m rest ih=>
  rw [resolveEach]
  cases hres:resolved m with
  | some cached=>
   obtain ⟨answer,hanswer⟩:=ih resolved
   exact ⟨_,by rw [hanswer]; rfl⟩
  | none=>
   by_cases hin:m ∈ inProgress
   · exact ⟨_,if_pos hin⟩
   · rw [if_neg hin]
     cases hlookup:lookupModule m with
     | none=>exact ⟨_,rfl⟩
     | some source=>
      cases hparse:fe.execProgramParser (moduleNameToProjectUri m) source with
      | error messages=>exact ⟨.error (.parseError m messages),by simp only [hparse]⟩
      | ok parsed=>
       obtain ⟨transAnswer,htrans⟩:=
        hf m hin (hlookup ▸ Option.some_ne_none source) resolved (extractImportNames parsed)
       simp only [hparse,htrans,Option.bind_eq_bind,Option.bind_some]
       cases transAnswer with
       | error err=>exact ⟨_,rfl⟩
       | ok transitive=>
        obtain ⟨restAnswer,hrest⟩:=ih (newResolved resolved transitive
         (record fe m source parsed transitive))
        cases restAnswer with
        | error err=>exact ⟨_,Option.bind_eq_some_iff.2 ⟨_,hrest,rfl⟩⟩
        | ok ris=>exact ⟨_,Option.bind_eq_some_iff.2 ⟨_,hrest,rfl⟩⟩

theorem resolveImports_total {modules:Finset String}
  (hmodules:∀ m, lookupModule m ≠ none → m ∈ modules) (fuel:ℕ)
  (hfuel:(modules \ inProgress).card ≤ fuel) (resolved:Resolved A E S R B)
  (names:List String) :
  ∃ answer, resolveImports fe lookupModule fuel inProgress resolved names=some answer := by
 induction fuel generalizing inProgress resolved names with
 | zero=>
  refine resolveEach_total (fun m hin hm resolved names=>?_) resolved names
  have hmem:m ∈ modules \ inProgress:=Finset.mem_sdiff.2 ⟨hmodules m hm,hin⟩
  rw [Finset.card_eq_zero.1 (Nat.le_zero.1 hfuel)] at hmem
  exact absurd hmem (Finset.notMem_empty m)
 | succ fuel ih=>
  refine resolveEach_total (fun m hin hm resolved names=>ih ?_ resolved names) resolved names
  have hmem:m ∈ modules \ inProgress:=Finset.mem_sdiff.2 ⟨hmodules m hm,hin⟩
  rw [Finset.sdiff_insert,Finset.card_erase_of_mem hmem]
  omega

/-! ### From the root -/

theorem nodup_of_unresolved {names:List String}
  (h:resolveEach fe lookupModule f inProgress (fun _=>none) names=some (.ok ris)) :
  (ris.map ResolvedImport.riModuleName).Nodup := by
 cases names with
 | nil=>
  obtain rfl:=Except.ok.inj (Option.some.inj h)
  exact List.nodup_nil
 | cons m rest=>
  rw [resolveEach] at h
  by_cases hin:m ∈ inProgress
  · exact absurd ((if_pos hin).symm.trans h) (by simp)
  · have h:=(if_neg hin).symm.trans h
    cases hlookup:lookupModule m with
    | none=>simp [hlookup] at h
    | some source=>
     cases hparse:fe.execProgramParser (moduleNameToProjectUri m) source with
     | error messages=>simp [hlookup,hparse] at h
     | ok parsed=>
      simp only [hlookup,hparse,Option.bind_eq_bind,Option.bind_eq_some_iff] at h
      obtain ⟨transAnswer,_,h⟩:=h
      cases transAnswer with
      | error err=>exact absurd h (by simp)
      | ok transitive=>
       obtain ⟨restAnswer,_,h⟩:=Option.bind_eq_some_iff.1 h
       cases restAnswer with
       | error err=>exact absurd h (by simp)
       | ok ris' =>
        obtain rfl:=Except.ok.inj (Option.some.inj h)
        exact nodup_deduplicateResolved [] _

variable (fe lookupModule)

/-- Every module reached, each checked after the modules it imports and with their records. -/
structure Complete (names:List String) (ris:List (ResolvedImport A E S R B)) : Prop where
 nodup : (ris.map ResolvedImport.riModuleName).Nodup
 named : ∀ m, (∃ r ∈ ris, r.riModuleName=m) ↔
  ∃ n ∈ names, ReflTransGen (Imports fe lookupModule) n m
 acyclic : ∀ r ∈ ris, ¬TransGen (Imports fe lookupModule) r.riModuleName r.riModuleName
 checked : ∀ r ∈ ris, ∃ source parsed deps, Parses fe lookupModule r.riModuleName source parsed ∧
  List.Forall₂ (fun n d=>d ∈ ris ∧ d.riModuleName=n) (extractImportNames parsed) deps ∧
  r=record fe r.riModuleName source parsed deps ∧
  ∀ uri f, EnvOffers (combineResolvedImports fe uri deps) f ↔
   EnvOffers (initialCheckEnv fe uri) f ∨
    ∃ m, TransGen (Imports fe lookupModule) r.riModuleName m ∧ Declares fe lookupModule m f

def Resolves (names:List String) : Answer A E S R B → Prop
 | .error err=>Fails fe lookupModule names err
 | .ok ris=>Complete fe lookupModule names ris

variable {fe lookupModule}

theorem complete_of_found {names:List String}
  (hnodup:(ris.map ResolvedImport.riModuleName).Nodup)
  (h:Found fe lookupModule (fun _=>none) names ris) : Complete fe lookupModule names ris := by
 have hclosed:∀ r ∈ ris, ∀ m, Imports fe lookupModule r.riModuleName m →
   ∃ r' ∈ ris, r'.riModuleName=m := fun r hr m himp=>
  (h.closed r hr m himp).resolve_right fun hsome=>Bool.false_ne_true hsome
 refine ⟨hnodup,fun m=>⟨?_, ?_⟩,fun r hr=>(h.checks r hr).acyclic,fun r hr=>?_⟩
 · rintro ⟨r,hr,rfl⟩
   exact h.reached r hr
 · rintro ⟨n,hn,hreach⟩
   induction hreach with
   | refl=>exact h.named n hn
   | tail _ himp ih=>
    obtain ⟨r,hr,rfl⟩:=ih
    exact hclosed r hr _ himp
 · obtain ⟨source,parsed,deps,hparses,hdeps,hrecord⟩:=checksTo_iff.1 (h.checks r hr)
   refine ⟨source,parsed,deps,hparses, ?_,hrecord,fun uri f=>env_offers hparses hdeps uri f⟩
   refine List.forall₂_iff_zip.2 ⟨hdeps.length_eq,fun {n d} hmem=>?_⟩
   have hd:=(List.forall₂_iff_zip.1 hdeps).2 hmem
   have himp:Imports fe lookupModule r.riModuleName n:=
    ⟨source,parsed,hparses,(List.of_mem_zip hmem).1⟩
   obtain ⟨r', hr', hname⟩:=hclosed r hr n himp
   have hr'checks:=h.checks r' hr'
   rw [hname] at hr'checks
   rw [hd.unique hr'checks]
   exact ⟨hr', hname⟩

theorem answers_of_eq {names:List String} {answer:Answer A E S R B}
  (h:resolveRoot fe lookupModule fuel names=some answer) :
  Answers fe lookupModule (fun _=>none) names answer := by
 have hkept:Kept fe lookupModule (fun _=>none : Resolved A E S R B):=
  ⟨fun _ _ hnone=>absurd hnone (Option.some_ne_none _).symm,
   fun _ _ hnone=>absurd hnone (Option.some_ne_none _).symm⟩
 have hleads:Leads fe lookupModule ∅ names:=fun p hp=>absurd hp (Finset.notMem_empty p)
 exact resolveImports_answers fuel hkept hleads h

theorem resolves_of_eq {names:List String} {answer:Answer A E S R B}
  (h:resolveRoot fe lookupModule fuel names=some answer) :
  Resolves fe lookupModule names answer := by
 have hanswers:=answers_of_eq h
 cases answer with
 | error err=>exact hanswers
 | ok ris=>
  refine complete_of_found ?_ hanswers
  cases fuel with
  | zero=>exact nodup_of_unresolved h
  | succ fuel=>exact nodup_of_unresolved h

theorem checksTo_of_agree {lookupModule' : String → Option String}
  {r:ResolvedImport A E S R B} (h:ChecksTo fe lookupModule m r)
  (hagree:∀ x, ReflTransGen (Imports fe lookupModule) m x → lookupModule x=lookupModule' x) :
  ChecksTo fe lookupModule' m r := by
 revert hagree
 refine ChecksTo.rec_imports (P := fun m r=>(∀ x, ReflTransGen (Imports fe lookupModule) m x →
  lookupModule x=lookupModule' x) → ChecksTo fe lookupModule' m r)
  (fun m source parsed deps hparses _ ih hagree=>?_) h
 refine checksTo_iff.2 ⟨source,parsed,deps,⟨hagree m .refl ▸ hparses.1,hparses.2⟩, ?_,rfl⟩
 refine List.forall₂_iff_zip.2 ⟨ih.length_eq,fun {n d} hmem=>?_⟩
 refine (List.forall₂_iff_zip.1 ih).2 hmem fun x hx=>hagree x (.head ?_ hx)
 exact ⟨source,parsed,hparses,(List.of_mem_zip hmem).1⟩

/-- Where every module reached is there and parses, only a cycle keeps a resolution from ending
with records. -/
theorem cyclicImport_iff {names:List String} {answer:Answer A E S R B}
  (h:Resolves fe lookupModule names answer)
  (hparses:∀ m, (∃ n ∈ names, ReflTransGen (Imports fe lookupModule) n m) →
   ∃ source parsed, Parses fe lookupModule m source parsed) :
  (∃ modules, answer = .error (.cyclicImport modules)) ↔ ∃ n ∈ names, ∃ m,
   ReflTransGen (Imports fe lookupModule) n m ∧ TransGen (Imports fe lookupModule) m m := by
 constructor
 · rintro ⟨modules,rfl⟩
   exact h
 · rintro ⟨n,hn,m,hreach,hcycle⟩
   cases answer with
   | error err=>
    cases err with
    | moduleNotFound m' searched=>
     obtain ⟨source,parsed,hfound,_⟩:=hparses m' h.1
     exact absurd (hfound.symm.trans h.2) (Option.some_ne_none source)
    | parseError m' messages=>
     obtain ⟨source,parsed,hfound,hparse⟩:=hparses m' h.1
     obtain ⟨source', hfound', hparse'⟩:=h.2
     obtain rfl:=Option.some.inj (hfound.symm.trans hfound')
     exact absurd (hparse.symm.trans hparse') (by simp)
    | cyclicImport modules=>exact ⟨modules,rfl⟩
   | ok ris=>
    have hcomplete:Complete fe lookupModule names ris:=h
    obtain ⟨r,hr,rfl⟩:=(hcomplete.named m).2 ⟨n,hn,hreach⟩
    exact absurd hcycle (hcomplete.acyclic r hr)

/-- A resolution comes to an end. It returns every module reached, once and checked after what it
imports in an environment of all that it reaches, or names a module at fault; and the record of a
module depends on nothing but the modules reached from it. -/
theorem resolveRoot_correct {modules:Finset String}
  (hmodules:∀ m, lookupModule m ≠ none → m ∈ modules) (names:List String) :
  ∃ answer : Answer A E S R B,
   (∀ fuel, modules.card ≤ fuel → resolveRoot fe lookupModule fuel names=some answer) ∧
   Resolves fe lookupModule names answer ∧
   ((∀ m, (∃ n ∈ names, ReflTransGen (Imports fe lookupModule) n m) →
     ∃ source parsed, Parses fe lookupModule m source parsed) →
    ((∃ modules, answer = .error (.cyclicImport modules)) ↔ ∃ n ∈ names, ∃ m,
     ReflTransGen (Imports fe lookupModule) n m ∧ TransGen (Imports fe lookupModule) m m)) ∧
   ∀ lookupModule' fuel' names' ris ris', answer = .ok ris →
    resolveRoot fe lookupModule' fuel' names' = some (.ok ris') →
    ∀ r ∈ ris, ∀ r' ∈ ris', r.riModuleName=r'.riModuleName →
     (∀ x, ReflTransGen (Imports fe lookupModule) r.riModuleName x →
      lookupModule x=lookupModule' x) → r=r' := by
 have htotal:∃ answer, resolveRoot fe lookupModule modules.card names=some answer:=
  resolveImports_total hmodules modules.card (by rw [Finset.sdiff_empty]) (fun _=>none) names
 obtain ⟨answer,hroot⟩:=htotal
 have hresolves:=resolves_of_eq hroot
 refine ⟨answer,fun fuel hfuel=>resolveImports_mono hfuel hroot,hresolves,
  cyclicImport_iff hresolves, ?_⟩
 rintro lookupModule' fuel' names' ris ris' rfl hroot' r hr r' hr' hname hagree
 have hfound:Found fe lookupModule (fun _=>none) names ris:=answers_of_eq hroot
 have hfound' : Found fe lookupModule' (fun _=>none) names' ris' :=answers_of_eq hroot'
 have hchecks:=checksTo_of_agree (hfound.checks r hr) hagree
 rw [hname] at hchecks
 exact hchecks.unique (hfound'.checks r' hr')

/-! ## A language of imports alone -/

/-- A source is the name of the one module it imports, and nothing is declared. -/
def importOnly : Frontend Unit Unit Unit Unit Unit where
 emptyAnno:=()
 execProgramParser _ source :=
  .ok ⟨if source = "" then [] else [⟨⟨(),.normalName source⟩,none⟩],()⟩
 initialEnvironment _ := []
 initialEntityInfo _ := none
 checkProgram _ _ := ⟨(),[],emptyMixfixRegistry⟩
 applyFinalSubstitution _ _ info := info

/-- `a` imports `b`, and `c` imports itself. -/
def threeModules (m:String) : Option String :=
 if m = "a" then some "b" else if m = "b" then some "" else if m = "c" then some "c" else none

theorem imports_threeModules {m' : String} (h:threeModules m=some m') (hne:m' ≠ "") :
  Imports importOnly threeModules m m' := by
 refine ⟨m', _,⟨h,rfl⟩, ?_⟩
 simp [extractImportNames,hne,rawNameToText]

theorem resolveRoot_correct_threeModules :
  ∃ answer, (∀ fuel, 3 ≤ fuel → resolveRoot importOnly threeModules fuel ["a"]=some answer) ∧
   Resolves importOnly threeModules ["a"] answer := by
 have hmodules:∀ m, threeModules m ≠ none → m ∈ ({"a","b","c"} : Finset String):=by
  intro m hm
  unfold threeModules at hm
  split_ifs at hm with ha hb hc
  · simp [ha]
  · simp [hb]
  · simp [hc]
  · exact absurd rfl hm
 obtain ⟨answer,hfuel,hresolves,_⟩:=
  @resolveRoot_correct _ _ _ _ _ _ _ importOnly threeModules _ hmodules ["a"]
 exact ⟨answer,fun fuel h=>hfuel fuel h,hresolves⟩

/-- Every module stands after the modules it imports. -/
def ImportsFirst {A E S R B:Type} (fe:Frontend A E S R B) (lookupModule:String → Option String)
  (ris:List (ResolvedImport A E S R B)) : Prop :=
 ∀ before r after, ris=before ++ r::after →
  ∀ m, Imports fe lookupModule r.riModuleName m → ∃ r' ∈ before, r'.riModuleName=m

/-- A module is returned before what it imports, and a missing module hides a cycle. -/
theorem importsFirst_fails :
  (∃ ris, resolveRoot importOnly threeModules 3 ["a"]=some (.ok ris) ∧
   ¬ImportsFirst importOnly threeModules ris) ∧
  resolveRoot importOnly threeModules 3 ["x","c"] =
   some (.error (.moduleNotFound "x" ["embedded libraries","project VFS"])) ∧
  Relation.TransGen (Imports importOnly threeModules) "c" "c" := by
 refine ⟨?_,rfl,.single (imports_threeModules rfl (by decide))⟩
 have hnames:(resolveRoot importOnly threeModules 3 ["a"]).map
   (fun answer=>answer.map (List.map ResolvedImport.riModuleName))=some (.ok ["a","b"]) := by
  rfl
 obtain ⟨answer,hanswer,hnames⟩:=Option.map_eq_some_iff.1 hnames
 cases answer with
 | error err=>exact absurd hnames (by simp [Except.map])
 | ok ris=>
  refine ⟨ris,hanswer,fun hfirst=>?_⟩
  have hmap:ris.map ResolvedImport.riModuleName=["a","b"]:=Except.ok.inj hnames
  cases ris with
  | nil=>exact absurd hmap (by simp)
  | cons r rest=>
   have hname:r.riModuleName = "a":=(List.cons.inj hmap).1
   obtain ⟨r', hr', _⟩:=hfirst [] r rest rfl "b" (hname ▸ imports_threeModules rfl (by decide))
   exact absurd hr' List.not_mem_nil

end L4Ide.ImportResolutionCorrect
