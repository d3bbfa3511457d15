import Mathlib.Data.List.Forall2

set_option autoImplicit false

/-!
# Computations that count and can give up

Partial correctness for a state monad over `Option`: what holds of every result
that such a computation returns, whatever the state it starts from.
-/
namespace L4Ide.FuelledComputation

variable {S A B:Type}

def Returns (x:StateT S Option A) (P:A → Prop) : Prop :=
 ∀ s a s', x.run s=some (a,s') → P a

variable {P:A → Prop} {a:A} {l:List A} {bs:List B} {k:ℕ}

theorem Returns.mono {x:StateT S Option A} {Q:A → Prop} (h:Returns x P)
  (hPQ:∀ a, P a → Q a) : Returns x Q :=
 fun s a s' heq=>hPQ a (h s a s' heq)

theorem returns_pure (h:P a) : Returns (pure a:StateT S Option A) P := by
 intro s b s' heq
 obtain ⟨rfl,-⟩ : a=b ∧ s=s' :=by simpa using heq
 exact h

theorem returns_failure : Returns (failure:StateT S Option A) P := by
 intro s a s' heq
 simp at heq

theorem Returns.bind {x:StateT S Option A} {f:A → StateT S Option B}
  {Q:B → Prop} (hx:Returns x P) (hf:∀ a, P a → Returns (f a) Q) : Returns (x >>= f) Q := by
 intro s b s' heq
 rw [StateT.run_bind] at heq
 cases hrun:x.run s with
 | none=>simp [hrun] at heq
 | some p=>
  rw [hrun] at heq
  exact hf p.1 (hx s p.1 p.2 hrun) p.2 b s' heq

theorem returns_true (x:StateT S Option A) : Returns x fun _=>True := fun _ _ _ _=>trivial

theorem returns_lift (x:Option A) :
  Returns (liftM x:StateT S Option A) fun a=>x=some a := by
 intro s a s' heq
 cases x with
 | none=>simp at heq
 | some b=>
  obtain ⟨rfl,-⟩ : b=a ∧ s=s' :=by simpa using heq
  rfl

theorem returns_mapM {f:A → StateT S Option B} {P:A → B → Prop} (l:List A)
  (h:∀ a ∈ l, Returns (f a) (P a)) : Returns (l.mapM f) fun bs=>List.Forall₂ P l bs := by
 induction l with
 | nil=>exact returns_pure .nil
 | cons a l ih=>
  rw [List.mapM_cons]
  refine (h a List.mem_cons_self).bind fun b hb=>?_
  refine (ih fun a ha=>h a (List.mem_cons_of_mem _ ha)).bind fun bs hbs=>?_
  exact returns_pure (.cons hb hbs)

theorem forall₂_mem_right {P:A → B → Prop} (h:List.Forall₂ P l bs)
  {b:B} (hb:b ∈ bs) : ∃ a ∈ l, P a b := by
 induction h with
 | nil=>exact absurd hb List.not_mem_nil
 | cons hab hrest ih=>
  rcases List.mem_cons.1 hb with rfl | hb
  · exact ⟨_,List.mem_cons_self,hab⟩
  · obtain ⟨a', ha', hab'⟩:=ih hb
    exact ⟨a', List.mem_cons_of_mem _ ha', hab'⟩

theorem forall₂_mem_left {P:A → B → Prop} (h:List.Forall₂ P l bs)
  (ha:a ∈ l) : ∃ b ∈ bs, P a b := by
 obtain ⟨b,hb,hab⟩:=forall₂_mem_right (List.Forall₂.flip h) ha
 exact ⟨b,hb,hab⟩

theorem exists_forall₂ {P:A → B → Prop} (h:∀ a ∈ l, ∃ b, P a b) :
  ∃ bs, List.Forall₂ P l bs := by
 induction l with
 | nil=>exact ⟨[],.nil⟩
 | cons a l ih=>
  obtain ⟨b,hb⟩:=h a List.mem_cons_self
  obtain ⟨bs,hbs⟩:=ih fun a' ha' =>h a' (List.mem_cons_of_mem a ha')
  exact ⟨b::bs,.cons hb hbs⟩

theorem forall₂_concat {P:A → B → Prop} :
  List.Forall₂ P (l ++ [a]) bs ↔ ∃ bs' b, List.Forall₂ P l bs' ∧ P a b ∧ bs' ++ [b]=bs := by
 induction l generalizing bs with
 | nil=>
  constructor
  · intro h
    rw [List.nil_append,List.forall₂_cons_left_iff] at h
    obtain ⟨b,bs', hb,hbs', rfl⟩:=h
    rw [List.forall₂_nil_left_iff.1 hbs']
    exact ⟨[],b,.nil,hb,rfl⟩
  · rintro ⟨bs', b,hbs', hb,rfl⟩
    rw [List.forall₂_nil_left_iff.1 hbs']
    exact .cons hb .nil
 | cons c l ih=>
  rw [List.cons_append,List.forall₂_cons_left_iff]
  constructor
  · rintro ⟨d,ds,hd,hds,rfl⟩
    obtain ⟨bs', b,hbs', hb,rfl⟩:=ih.1 hds
    exact ⟨d::bs', b,.cons hd hbs', hb,rfl⟩
  · rintro ⟨bs', b,hbs', hb,rfl⟩
    cases hbs' with
    | cons hd hds=>exact ⟨_,_,hd,ih.2 ⟨_,b,hds,hb,rfl⟩,rfl⟩

theorem forall₂_unique {P Q:A → B → Prop} {bs' : List B}
  (h:List.Forall₂ P l bs) (h' : List.Forall₂ Q l bs')
  (hPQ:∀ a b b', P a b → Q a b' → b=b') : bs=bs' := by
 induction h generalizing bs' with
 | nil=>exact (List.forall₂_nil_left_iff.1 h').symm
 | cons hab _ ih=>
  cases h' with
  | cons hab' hrest=>rw [hPQ _ _ _ hab hab', ih hrest]

/-- With `k` units of fuel or more there is a result; it spends at most `k` units and has the
    property. -/
def Answers (k:ℕ) (x:StateT ℕ Option A) (P:A → Prop) : Prop :=
 ∀ fuel, k ≤ fuel → ∃ a fuel', x.run fuel=some (a,fuel') ∧ fuel ≤ fuel' + k ∧ P a

theorem Answers.mono {k' : ℕ} {x:StateT ℕ Option A} {Q:A → Prop} (h:Answers k x P)
  (hk:k ≤ k') (hPQ:∀ a, P a → Q a) : Answers k' x Q := by
 intro fuel hfuel
 obtain ⟨a,fuel', hrun,hspent,ha⟩:=h fuel (Nat.le_trans hk hfuel)
 exact ⟨a,fuel', hrun,by omega,hPQ a ha⟩

theorem answers_pure (h:P a) :
  Answers 0 (pure a:StateT ℕ Option A) P :=
 fun fuel _=>⟨a,fuel,rfl,by omega,h⟩

theorem Answers.bind {j:ℕ} {x:StateT ℕ Option A} {f:A → StateT ℕ Option B}
  {Q:B → Prop} (hx:Answers k x P) (hf:∀ a, P a → Answers j (f a) Q) :
  Answers (k+j) (x >>= f) Q := by
 intro fuel hfuel
 obtain ⟨a,fuel', hrun,hspent,ha⟩:=hx fuel (by omega)
 obtain ⟨b,fuel'', hrun', hspent', hb⟩:=hf a ha fuel' (by omega)
 exact ⟨b,fuel'', by rw [StateT.run_bind,hrun]; exact hrun', by omega,hb⟩

theorem answers_lift {x:Option A} (h:x=some a) (ha:P a) :
  Answers 0 (liftM x:StateT ℕ Option A) P := by
 subst h
 exact fun fuel _=>⟨a,fuel,rfl,by omega,ha⟩

theorem answers_guard {p:Prop} [Decidable p] (h:p) :
  Answers 0 (guard p:StateT ℕ Option Unit) fun _=>True := by
 intro fuel _
 exact ⟨(),fuel,by simp [guard,h],by omega,trivial⟩

theorem answers_mapM {f:A → StateT ℕ Option B} {P:B → Prop} (l:List A)
  (h:∀ a ∈ l, Answers k (f a) P) :
  Answers (l.length*k) (l.mapM f) fun bs=>bs.length=l.length ∧ ∀ b ∈ bs, P b := by
 induction l with
 | nil=>exact (answers_pure ⟨rfl,by simp⟩).mono (by omega) fun _ ha=>ha
 | cons a l ih=>
  rw [List.mapM_cons]
  have hcons:∀ b, P b → ∀ bs : List B, (bs.length=l.length ∧ ∀ b' ∈ bs, P b') →
    Answers 0 (pure (b::bs) : StateT ℕ Option (List B)) fun bs=>
     bs.length=(a::l).length ∧ ∀ b' ∈ bs, P b' := by
   intro b hb bs hbs
   refine answers_pure ⟨by simp [hbs.1],fun b' hb' =>?_⟩
   rcases List.mem_cons.1 hb' with rfl | hb'
   · exact hb
   · exact hbs.2 b' hb'
  have hall:=(h a List.mem_cons_self).bind fun b hb=>
   (ih fun a ha=>h a (List.mem_cons_of_mem _ ha)).bind fun bs hbs=>hcons b hb bs hbs
  refine hall.mono ?_ fun _ ha=>ha
  rw [List.length_cons,Nat.succ_mul]
  omega

theorem pairwise_of_forall₂ {P:A → B → Prop} {R:A → A → Prop} {Q:B → B → Prop}
  (h:List.Forall₂ P l bs) (hl:l.Pairwise R)
  (hQ:∀ a a' b b', R a a' → P a b → P a' b' → Q b b') : bs.Pairwise Q := by
 induction h with
 | nil=>exact .nil
 | cons hab hrest ih=>
  obtain ⟨hhead,htail⟩:=List.pairwise_cons.1 hl
  refine List.pairwise_cons.2 ⟨fun b' hb' =>?_,ih htail⟩
  obtain ⟨a', ha', hab'⟩:=forall₂_mem_right hrest hb'
  exact hQ _ a' _ b' (hhead a' ha') hab hab'

end L4Ide.FuelledComputation
