import Mathlib.Data.List.Basic

set_option autoImplicit false

/-!
# Programs that can be cut off

A program runs its operations in order on a stored state and may be cut off after any of
them; what the operations did until then stays. A crash triple says what holds of the
result and what holds of every state that a cut can leave behind.
-/
namespace L4Ide.InterruptiblePrograms

variable {S E A B X:Type}

/-- From a state, the states after each operation and the result, an error when an operation
    raised one. -/
def Program (S E A:Type) : Type := S → List S × Except E A

namespace Program

/-- The state that the program leaves when nobody cuts it off. -/
def last (m:Program S E A) (s:S) : S := (m s).1.getLastD s

def result (m:Program S E A) (s:S) : Except E A := (m s).2

/-- The state that is left when the program is cut off after `k` operations. -/
def cutAt (m:Program S E A) (k:ℕ) (s:S) : S := ((m s).1.take k).getLastD s

def length (m:Program S E A) (s:S) : ℕ := (m s).1.length

/-- One operation, atomic: it changes the state or raises and changes nothing. -/
def act (f:S → Except E S) : Program S E Unit := fun s=>
 match f s with
 | .ok s' =>([s'],.ok ())
 | .error e=>([],.error e)

/-- A look at the state. -/
def ask (f:S → A) : Program S E A := fun s=>([],.ok (f s))

def raise (e:E) : Program S E A := fun _=>([],.error e)

def bind (m:Program S E A) (f:A → Program S E B) : Program S E B := fun s=>
 match m s with
 | (passed,.ok a)=>(passed ++ (f a (passed.getLastD s)).1,(f a (passed.getLastD s)).2)
 | (passed,.error e)=>(passed,.error e)

/-- What an operation did before it raised stays done when the error is caught. -/
def catchError (m:Program S E A) (handler:E → Program S E A) : Program S E A := fun s=>
 match m s with
 | (passed,.ok a)=>(passed,.ok a)
 | (passed,.error e)=>
  (passed ++ (handler e (passed.getLastD s)).1,(handler e (passed.getLastD s)).2)

end Program

instance : Monad (Program S E) where
 pure a := fun _=>([],.ok a)
 bind:=Program.bind

/-- From a state with `P`: every state passed has `I`, the end has `Q` of the result, and what
    an error leaves behind has `R`. -/
def Triple (P:S → Prop) (m:Program S E A) (Q:A → S → Prop) (R I:S → Prop) : Prop :=
 ∀ s, P s → (∀ t ∈ (m s).1, I t) ∧ (∀ a, m.result s = .ok a → Q a (m.last s)) ∧
  ∀ e, m.result s = .error e → R (m.last s)

variable {P P' R R' I I' : S → Prop} {m:Program S E A} {f:A → Program S E B}
 {Q Q' : A → S → Prop} {Q₂:B → S → Prop}

variable {s:S} {a:A} {e:E} {g:S → Except E S}

theorem Program.bind_ok (h:m.result s = .ok a) :
  (m >>= f) s=((m s).1 ++ (f a (m.last s)).1,(f a (m.last s)).2) := by
 change Program.bind m f s=_
 unfold Program.result at h
 unfold Program.bind Program.last
 generalize hrun:m s=run at h
 obtain ⟨passed,value⟩:=run
 cases h
 rfl

theorem Program.result_bind_ok (h:m.result s = .ok a) :
  (m >>= f).result s=(f a).result (m.last s) := by
 unfold Program.result
 rw [Program.bind_ok h]

theorem Program.passed_bind_ok (h:m.result s = .ok a) :
  ((m >>= f) s).1=(m s).1 ++ (f a (m.last s)).1 := by
 rw [Program.bind_ok h]

theorem Program.ask_bind (g:S → A) (s:S) :
  ((Program.ask g : Program S E A) >>= f) s=f (g s) s := rfl

theorem Program.bind_error (h:m.result s = .error e) :
  (m >>= f) s=((m s).1,.error e) := by
 change Program.bind m f s=_
 unfold Program.result at h
 unfold Program.bind
 generalize hrun:m s=run at h
 obtain ⟨passed,value⟩:=run
 cases h
 rfl

theorem getLastD_append (l l' : List S) (s:S) :
  (l ++ l').getLastD s=l'.getLastD (l.getLastD s) := by
 cases l' with
 | nil=>simp
 | cons t l' =>simp [List.getLastD_eq_getLast?]

theorem Program.last_bind_ok (h:m.result s = .ok a) :
  (m >>= f).last s=(f a).last (m.last s) := by
 unfold Program.last
 rw [Program.passed_bind_ok h,getLastD_append]
 rfl

theorem Program.catchError_ok {handler:E → Program S E A}
  (h:m.result s = .ok a) : m.catchError handler s=m s := by
 unfold Program.result at h
 unfold Program.catchError
 generalize m s=run at h
 obtain ⟨passed,value⟩:=run
 cases h
 rfl

theorem Program.act_ok {s' : S} (h:g s = .ok s') :
  Program.act g s=([s'],.ok ()) := by
 unfold Program.act
 rw [h]

theorem Program.act_error (h:g s = .error e) :
  Program.act g s=([],.error e) := by
 unfold Program.act
 rw [h]

theorem triple_pure (h:∀ s, P s → Q a s) :
  Triple P (pure a:Program S E A) Q R I := by
 intro s hs
 refine ⟨?_, ?_, ?_⟩
 · intro t ht
   cases ht
 · intro b hb
   cases hb
   exact h s hs
 · intro e he
   cases he

theorem triple_ask {g:S → A} (h:∀ s, P s → Q (g s) s) :
  Triple P (Program.ask g : Program S E A) Q R I := by
 intro s hs
 refine ⟨?_, ?_, ?_⟩
 · intro t ht
   cases ht
 · intro b hb
   cases hb
   exact h s hs
 · intro e he
   cases he

theorem triple_raise (h:∀ s, P s → R s) :
  Triple P (Program.raise e : Program S E A) Q R I := by
 intro s hs
 refine ⟨?_, ?_, ?_⟩
 · intro t ht
   cases ht
 · intro b hb
   cases hb
 · intro e' _
   exact h s hs

theorem triple_act {Q₀:Unit → S → Prop} (hok:∀ s s', P s → g s = .ok s' → Q₀ () s' ∧ I s')
  (herror:∀ s e, P s → g s = .error e → R s) : Triple P (Program.act g) Q₀ R I := by
 intro s hs
 unfold Program.result Program.last Program.act
 cases hg:g s with
 | ok s' =>
  obtain ⟨hQ,hI⟩:=hok s s' hs hg
  refine ⟨?_,fun _ _=>hQ, ?_⟩
  · intro t ht
    obtain rfl : t=s' :=by simpa using ht
    exact hI
  · intro e he
    cases he
 | error e=>
  refine ⟨?_, ?_,fun _ _=>herror s e hs hg⟩
  · intro t ht
    cases ht
  · intro a ha
    cases ha

theorem Triple.bind (hm:Triple P m Q R I) (hf:∀ a, Triple (Q a) (f a) Q₂ R I) :
  Triple P (m >>= f) Q₂ R I := by
 intro s hs
 obtain ⟨hpass,hok,herror⟩:=hm s hs
 cases hresult:m.result s with
 | ok a=>
  obtain ⟨hpass', hok', herror'⟩:=hf a _ (hok a hresult)
  rw [Program.result_bind_ok hresult,Program.last_bind_ok hresult,
   Program.passed_bind_ok hresult]
  refine ⟨?_,hok', herror'⟩
  intro t ht
  rcases List.mem_append.mp ht with ht | ht
  · exact hpass t ht
  · exact hpass' t ht
 | error e=>
  have hlast:=herror e hresult
  unfold Program.result Program.last
  rw [Program.bind_error hresult]
  refine ⟨hpass, ?_,fun _ _=>hlast⟩
  intro b hb
  cases hb

theorem Triple.mono (h:Triple P m Q R I) (hP:∀ s, P' s → P s)
  (hQ:∀ a s, Q a s → Q' a s) (hR:∀ s, R s → R' s) (hI:∀ s, I s → I' s) :
  Triple P' m Q' R' I' := by
 intro s hs
 obtain ⟨hpass,hok,herror⟩:=h s (hP s hs)
 exact ⟨fun t ht=>hI t (hpass t ht),fun a ha=>hQ a _ (hok a ha),
  fun e he=>hR _ (herror e he)⟩

theorem triple_of_state (h:∀ s₀, P s₀ → Triple (fun s=>s=s₀) m Q R I) :
  Triple P m Q R I :=
 fun s hs=>h s hs s rfl

theorem Triple.catchError {handler:E → Program S E A} (hm:Triple P m Q R I)
  (hh:∀ e, Triple R (handler e) Q R' I) : Triple P (m.catchError handler) Q R' I := by
 intro s hs
 obtain ⟨hpass,hok,herror⟩:=hm s hs
 unfold Program.result Program.last at hok herror
 unfold Program.result Program.last Program.catchError
 generalize m s=run at hpass hok herror
 obtain ⟨passed,value⟩:=run
 cases value with
 | ok a=>
  refine ⟨hpass,hok, ?_⟩
  intro e he
  cases he
 | error e=>
  obtain ⟨hpass', hok', herror'⟩:=hh e _ (herror e rfl)
  dsimp only
  rw [getLastD_append]
  refine ⟨?_,hok', herror'⟩
  intro t ht
  rcases List.mem_append.mp ht with ht | ht
  · exact hpass t ht
  · exact hpass' t ht

theorem triple_forM {body:X → Program S E Unit} (J:List X → S → Prop) (l done:List X)
  (h:∀ before x, x ∈ l → Triple (J before) (body x) (fun _=>J (before ++ [x])) R I) :
  Triple (J done) (l.forM body) (fun _=>J (done ++ l)) R I := by
 induction l generalizing done with
 | nil=>
  rw [List.append_nil]
  exact triple_pure fun _ hs=>hs
 | cons x l ih=>
  have hrest:=ih (done ++ [x]) fun before y hy=>h before y (List.mem_cons_of_mem x hy)
  rw [List.append_assoc] at hrest
  change Triple (J done) (body x >>= fun _=>l.forM body) _ R I
  exact (h done x List.mem_cons_self).bind fun _=>hrest

theorem triple_forM_const {body:X → Program S E Unit} {l:List X}
  (h:∀ x ∈ l, Triple P (body x) (fun _=>P) R I) :
  Triple P (l.forM body) (fun _=>P) R I :=
 triple_forM (fun _=>P) l [] fun _ x hx=>h x hx

theorem Triple.cutAt (h:Triple P m Q R I) (hs:P s) (hI:I s) (k:ℕ) :
  I (m.cutAt k s) := by
 obtain ⟨hpass,-,-⟩:=h s hs
 rcases List.mem_cons.mp (List.getLastD_mem_cons (l := (m s).1.take k) (a := s)) with heq | hmem
 · unfold Program.cutAt
   rw [heq]
   exact hI
 · exact hpass _ (List.mem_of_mem_take hmem)

theorem Triple.last (h:Triple P m Q R I) (hs:P s) (hI:I s) : I (m.last s) := by
 have hcut:=h.cutAt hs hI (m s).1.length
 unfold Program.cutAt at hcut
 rwa [List.take_length] at hcut

theorem Program.cutAt_eq_last {k:ℕ} (h:m.length s ≤ k) : m.cutAt k s=m.last s := by
 unfold Program.cutAt Program.last
 rw [List.take_of_length_le h]

theorem Program.cutAt_bind {k:ℕ} (h:k ≤ m.length s) :
  (m >>= f).cutAt k s=m.cutAt k s := by
 unfold Program.cutAt
 cases hresult:m.result s with
 | ok a=>rw [Program.passed_bind_ok hresult,List.take_append_of_le_length h]
 | error e=>rw [Program.bind_error hresult]

end L4Ide.InterruptiblePrograms
