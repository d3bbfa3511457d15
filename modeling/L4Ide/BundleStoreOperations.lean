import L4Ide.BundleStore

set_option autoImplicit false

/-!
# What the operations of the store change

Every operation below one entry of the store's root leaves the other entries as they were;
written files hold what was written, and nothing else appears.
-/
namespace L4Ide.BundleStore
open DirectoryTree InterruptiblePrograms

structure Plain (n:Name) : Prop where
 ne_nil : n ≠ []
 no_separator : '/' ∉ n
 ne_dot : n ≠ ".".toList

variable {n:Name} {lib:Imports} {deployId:Text} {b:FilePath} {s s': Store}

theorem resolve_plain (h:Plain n) : resolve n=[n] := by
 have hsplit:n.splitOn '/' = [n]:=List.splitOn_eq_singleton h.no_separator
 have hdot:n ≠ ['.']:=h.ne_dot
 unfold resolve
 rw [hsplit]
 simp [h.ne_nil,hdot]

theorem resolve_append (a b:FilePath) : resolve (a ++ '/' :: b)=resolve a ++ resolve b := by
 unfold resolve
 rw [List.splitOn_append_cons_self,List.filter_append]

theorem plain_of_safe
  (h:isSafeDeploymentId lib deployId=true) : Plain deployId.toList := by
 unfold isSafeDeploymentId isSafeRelativePath at h
 simp only [Bool.and_eq_true,Bool.not_eq_true', List.isEmpty_eq_false_iff,bne_iff_ne,
  List.any_eq_false] at h
 obtain ⟨⟨⟨⟨⟨hnil,-⟩,-⟩,-⟩,hsep⟩,hdot⟩:=h
 refine ⟨hnil, ?_,hdot⟩
 intro hmem
 exact hsep '/' hmem rfl

theorem plain_tmpName (h:Plain deployId.toList) :
  Plain (tmpName deployId) := by
 unfold tmpName
 refine ⟨by simp [h.ne_nil], ?_, ?_⟩
 · rw [List.mem_append,not_or]
   exact ⟨h.no_separator,by decide⟩
 · intro heq
   have hlen:=congrArg List.length heq
   simp [tmpSuffix] at hlen

theorem join_eq {a:FilePath} (ha:a ≠ []) (hlast:a.getLast? ≠ some '/')
  (hb:b.head? ≠ some '/') : join a b=a ++ '/' :: b := by
 unfold join
 rw [if_neg,if_neg hlast]
 rintro (hnil | hhead)
 · exact ha hnil
 · exact hb hhead

theorem join_plain (h:Plain n) (hb:b.head? ≠ some '/') :
  join n b=n ++ '/' :: b := by
 apply join_eq h.ne_nil _ hb
 intro hlast
 exact h.no_separator (List.mem_of_getLast? hlast)

theorem head_of_safeRelativePath {path:FilePath}
  (h:isSafeRelativePath lib path=true) : path.head? ≠ some '/' := by
 unfold isSafeRelativePath at h
 simp only [Bool.and_eq_true,Bool.not_eq_true'] at h
 obtain ⟨⟨-,hroot⟩,-⟩:=h
 cases path with
 | nil=>simp
 | cons c rest=>
  intro hhead
  obtain rfl : c = '/' :=by simpa using hhead
  cases hroot

theorem resolve_join (h:Plain n) (hb:b.head? ≠ some '/') :
  resolve (join n b)=n::resolve b := by
 rw [join_plain h hb,resolve_append,resolve_plain h]
 rfl

theorem takeDirectory_append (a b:FilePath) :
  takeDirectory (a ++ '/' :: b)=a ∨ ∃ b', takeDirectory (a ++ '/' :: b)=a ++ '/' :: b' := by
 have hrev:(a ++ '/' :: b).reverse=b.reverse ++ '/' :: a.reverse:=by simp
 unfold takeDirectory
 cases hcase:b.reverse.dropWhile (· != '/') with
 | nil=>
  left
  simp [hrev,List.dropWhile_append,hcase]
 | cons x rest=>
  right
  exact ⟨rest.reverse,by simp [hrev,List.dropWhile_append,hcase]⟩

/-- Outside the entry `n`, a well-formed store holds what it held. -/
structure Outside (n:Name) (s₀ s:Store) : Prop where
 distinct : s.Distinct
 same : ∀ m, m ≠ n → s.lookup m=s₀.lookup m

/-- What an operation does to an entry leaves well-formed entries well-formed. -/
def KeepsDistinct (f:Option (Entry Name Text) → Option (Option (Entry Name Text))) : Prop :=
 ∀ x r, (∀ e ∈ x, e.Distinct) → f x=some r → ∀ e ∈ r, e.Distinct

theorem keepsDistinct_createdDirectory : KeepsDistinct createdDirectory := by
 intro x r hx hr e he
 cases x with
 | none=>
  cases hr
  cases he
  trivial
 | some x=>
  cases x with
  | file t=>cases hr
  | dir d=>
   cases hr
   cases he
   exact hx _ rfl

theorem keepsDistinct_truncated : KeepsDistinct truncated := by
 intro x r hx hr e he
 cases x with
 | none=>
  cases hr
  cases he
  trivial
 | some x=>
  cases x with
  | file t=>
   cases hr
   cases he
   trivial
  | dir d=>cases hr

theorem keepsDistinct_appended (c:Char) : KeepsDistinct (appended c) := by
 intro x r hx hr e he
 cases x with
 | none=>cases hr
 | some x=>
  cases x with
  | file t=>
   cases hr
   cases he
   trivial
  | dir d=>cases hr

theorem keepsDistinct_removed : KeepsDistinct Dir.removed := by
 intro x r hx hr e he
 unfold Dir.removed at hr
 split at hr
 · cases hr
   cases he
 · cases hr
   cases he
 · cases hr

theorem Outside.alter {p:List Name} {s₀: Store}
  {f:Option (Entry Name Text) → Option (Option (Entry Name Text))} (hf:KeepsDistinct f)
  (h:Outside n s₀ s) (heq:s.alter f (n::p)=some s') : Outside n s₀ s' := by
 refine ⟨h.distinct.alter heq hf, ?_⟩
 intro m hm
 rw [←h.same m hm,←Dir.find_singleton,←Dir.find_singleton]
 apply Dir.find_alter_of_apart heq
 · intro hpre
   obtain ⟨rfl,-⟩:=List.cons_prefix_cons.mp hpre
   exact hm rfl
 · intro hpre
   obtain ⟨rfl,-⟩:=List.cons_prefix_cons.mp hpre
   exact hm rfl

section Frames

variable {n:Name} {s₀:Store}

/-- The program changes nothing outside `n`, wherever it is cut off and however it ends. -/
abbrev StaysWithin {A:Type} (n:Name) (s₀:Store) (m:IOAction A) : Prop :=
 Triple (Outside n s₀) m (fun _=>Outside n s₀) (Outside n s₀) (Outside n s₀)

variable {p:List Name}

theorem staysWithin_change
  {f:Option (Entry Name Text) → Option (Option (Entry Name Text))} (hf:KeepsDistinct f) :
  StaysWithin n s₀ (change (n::p) f) := by
 apply triple_act
 · intro s s' hs heq
   split at heq
   · rename_i s₁ halter
     cases heq
     exact ⟨hs.alter hf halter,hs.alter hf halter⟩
   · cases heq
 · intro s e hs _
   exact hs

theorem staysWithin_changes {X:Type} {l:List X} {path:X → List Name}
  {f:X → Option (Entry Name Text) → Option (Option (Entry Name Text))}
  (hpath:∀ x ∈ l, ∃ p, path x=n::p) (hf:∀ x, KeepsDistinct (f x)) :
  StaysWithin n s₀ (l.forM fun x=>change (path x) (f x)) := by
 apply triple_forM_const
 intro x hx
 obtain ⟨p,hp⟩:=hpath x hx
 rw [hp]
 exact staysWithin_change (hf x)

theorem cons_of_mem_inits_tail {q:List Name} (h:q ∈ (n::p).inits.tail) :
  ∃ q', q=n::q' := by
 obtain ⟨q', -,rfl⟩:=List.mem_map.mp (show q ∈ p.inits.map (n :: ·) from h)
 exact ⟨q', rfl⟩

theorem staysWithin_createDirectoryIfMissing {path:FilePath}
  (hpath:resolve path=n::p) : StaysWithin n s₀ (createDirectoryIfMissing path) := by
 unfold createDirectoryIfMissing
 rw [hpath]
 exact staysWithin_changes (fun _ hq=>cons_of_mem_inits_tail hq)
  fun _=>keepsDistinct_createdDirectory

theorem staysWithin_writeFile {path:FilePath} {content:Text}
  (hpath:resolve path=n::p) : StaysWithin n s₀ (writeFile path content) := by
 unfold writeFile
 rw [hpath]
 split
 · exact triple_raise fun _ hs=>hs
 · apply (staysWithin_change keepsDistinct_truncated).bind
   intro _
   exact staysWithin_changes (fun _ _=>⟨p,rfl⟩) keepsDistinct_appended

theorem staysWithin_removeDirectoryRecursive (p:List Name) :
  StaysWithin n s₀ (removeDirectoryRecursive (n::p)) := by
 unfold removeDirectoryRecursive
 apply Triple.bind (Q := fun _=>Outside n s₀) (triple_ask fun _ hs=>hs)
 intro entry
 split
 · apply staysWithin_changes
   · intro q hq
     rcases List.mem_append.mp hq with hq | hq
     · obtain ⟨r,-,rfl⟩:=List.mem_map.mp hq
       exact ⟨p ++ r,rfl⟩
     · exact ⟨p,List.mem_singleton.mp hq⟩
   · exact fun _=>keepsDistinct_removed
 · exact triple_raise fun _ hs=>hs

end Frames

end L4Ide.BundleStore
