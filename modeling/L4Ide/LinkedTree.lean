import Mathlib.Data.List.Basic
import Mathlib.Logic.Function.Basic

set_option autoImplicit false

/-!
# File trees with symbolic links

The entry at each path of a tree, and where a path leads when links are followed.
-/
namespace L4Ide.LinkedTree

variable {N C:Type}

inductive Step (N:Type)
 | up
 | down (name:N)
 deriving DecidableEq

inductive Entry (N C:Type)
 | file (content:C)
 | directory
 /-- To a path from the root, or from the link's own directory. -/
 | link (fromRoot:Bool) (target:List (Step N))
 /-- A device or a pipe. -/
 | special
 deriving DecidableEq

/-- The entry at each path below the root, which is a directory. -/
abbrev Tree (N C:Type) := List N → Option (Entry N C)

def entryAt (t:Tree N C) : List N → Option (Entry N C)
 | []=>some .directory
 | n::p=>t (n::p)

theorem entryAt_of_ne_nil (t:Tree N C) {p:List N} (h:p ≠ []) : entryAt t p=t p := by
 cases p with
 | nil=>exact absurd rfl h
 | cons n p=>rfl

theorem entryAt_append (t:Tree N C) (p:List N) (n:N) :
  entryAt t (p ++ [n])=t (p ++ [n]) :=
 entryAt_of_ne_nil t (by simp)

inductive Resolution (N:Type)
 | found (path:List N)
 | missing
 | notDirectory
 /-- Too many links. -/
 | loop
 deriving DecidableEq

/-- Where steps lead from a directory; `jump` goes on where a link leads. A link that is the last
step is followed or found itself. -/
def walk (t:Tree N C) (follow:Bool) (jump:List N → List (Step N) → Resolution N) :
  List N → List (Step N) → Resolution N
 | current, []=>.found current
 | current, .up::steps=>walk t follow jump current.dropLast steps
 | current, .down n::steps=>
  match t (current ++ [n]) with
  | none=>.missing
  | some .directory=>walk t follow jump (current ++ [n]) steps
  | some (.link fromRoot target)=>
   if steps.isEmpty && !follow then .found (current ++ [n])
   else jump (if fromRoot then [] else current) (target ++ steps)
  | some _=>if steps.isEmpty then .found (current ++ [n]) else .notDirectory

def resolve (t:Tree N C) (follow:Bool) : ℕ → List N → List (Step N) → Resolution N
 | 0=>walk t follow fun _ _=>.loop
 | links+1=>walk t follow (resolve t follow links)

def steps (p:List N) : List (Step N) := p.map .down

def Directories (t:Tree N C) : List N → List N → Prop
 | _, []=>True
 | current, n::p=>t (current ++ [n])=some .directory ∧ Directories t (current ++ [n]) p

/-- No step down from a directory meets a link, as far as there are entries. -/
def LinkFree (t:Tree N C) : List N → List N → Prop
 | _, []=>True
 | current, n::p=>
  match t (current ++ [n]) with
  | some .directory=>LinkFree t (current ++ [n]) p
  | some (.link _ _)=>False
  | _=>True

section Walks

variable {t:Tree N C}

variable {current p:List N} {follow:Bool} {jump:List N → List (Step N) → Resolution N}
 {n:N} {links:ℕ}

theorem Directories.append {q:List N} :
  Directories t current (p ++ q) ↔
   Directories t current p ∧ Directories t (current ++ p) q := by
 induction p generalizing current with
 | nil=>simp [Directories]
 | cons n p ih=>
  rw [List.cons_append,Directories,Directories,ih,List.append_assoc,List.singleton_append,
   and_assoc]

theorem Directories.of_eq {t' : Tree N C} (h:Directories t current p)
  (heq:∀ q, t q=some .directory → t' q=some .directory) : Directories t' current p := by
 induction p generalizing current with
 | nil=>trivial
 | cons n p ih=>exact ⟨heq _ h.1,ih h.2⟩

theorem walk_directories (h:Directories t current p) (rest:List (Step N)) :
  walk t follow jump current (steps p ++ rest)=walk t follow jump (current ++ p) rest := by
 induction p generalizing current with
 | nil=>rw [List.append_nil]; rfl
 | cons n p ih=>
  change walk t follow jump current (.down n::(steps p ++ rest))=_
  rw [walk,h.1]
  dsimp only
  rw [ih h.2,List.append_assoc,List.singleton_append]

theorem resolve_directories (follow:Bool) (h:Directories t current p)
  (links:ℕ) (rest:List (Step N)) :
  resolve t follow links current (steps p ++ rest) =
   resolve t follow links (current ++ p) rest := by
 cases links with
 | zero=>exact walk_directories h rest
 | succ links=>exact walk_directories h rest

theorem walk_last (jump:List N → List (Step N) → Resolution N) (current:List N) (n:N) :
  walk t false jump current [.down n] =
   if (t (current ++ [n])).isSome then .found (current ++ [n]) else .missing := by
 unfold walk
 cases t (current ++ [n]) with
 | none=>rfl
 | some entry=>
  cases entry with
  | file content=>rfl
  | directory=>rfl
  | link fromRoot target=>rfl
  | special=>rfl

theorem resolve_last (links:ℕ) (current:List N) (n:N) :
  resolve t false links current [.down n] =
   if (t (current ++ [n])).isSome then .found (current ++ [n]) else .missing := by
 cases links with
 | zero=>exact walk_last _ current n
 | succ links=>exact walk_last _ current n

theorem LinkFree.dropLast (h:LinkFree t current p) :
  LinkFree t current p.dropLast := by
 induction p generalizing current with
 | nil=>trivial
 | cons n p ih=>
  cases p with
  | nil=>trivial
  | cons m p=>
   rw [List.dropLast_cons_cons]
   unfold LinkFree at h ⊢
   cases hentry:t (current ++ [n]) with
   | none=>trivial
   | some entry=>
    rw [hentry] at h
    cases entry with
    | directory=>exact ih h
    | link fromRoot target=>exact h.elim
    | file content=>trivial
    | special=>trivial

theorem walk_linkFree {found:List N} (h:LinkFree t current p)
  (hfound:walk t follow jump current (steps p ++ [.down n]) = .found found) :
  Directories t current p := by
 induction p generalizing current with
 | nil=>trivial
 | cons m p ih=>
  change walk t follow jump current (.down m::(steps p ++ [.down n]))=_ at hfound
  have hmore:(steps p ++ [Step.down n]).isEmpty=false:=by simp
  unfold walk at hfound
  unfold LinkFree at h
  rw [hmore] at hfound
  cases hentry:t (current ++ [m]) with
  | none=>simp [hentry] at hfound
  | some entry=>
   rw [hentry] at hfound h
   cases entry with
   | directory=>exact ⟨hentry,ih h hfound⟩
   | link fromRoot target=>exact h.elim
   | file content=>simp at hfound
   | special=>simp at hfound

theorem resolve_linkFree {found:List N} (h:LinkFree t current p)
  (hfound:resolve t follow links current (steps p ++ [.down n]) = .found found) :
  Directories t current p := by
 cases links with
 | zero=>exact walk_linkFree h hfound
 | succ links=>exact walk_linkFree h hfound

theorem walk_follow {jump' : List N → List (Step N) → Resolution N} {found:List N}
  {path:List (Step N)} (hjump:∀ c p, jump c p = .found found → jump' c p = .found found)
  (hentry:∀ fromRoot target, entryAt t found ≠ some (.link fromRoot target))
  (h:walk t false jump current path = .found found) :
  walk t true jump' current path = .found found := by
 induction path generalizing current with
 | nil=>exact h
 | cons step path ih=>
  cases step with
  | up=>exact ih h
  | down n=>
   unfold walk at h ⊢
   cases hn:t (current ++ [n]) with
   | none=>simp [hn] at h
   | some entry=>
    rw [hn] at h
    cases entry with
    | directory=>exact ih h
    | link fromRoot target=>
     cases path with
     | nil=>
      have heq:=Resolution.found.inj h
      rw [←heq,entryAt_append] at hentry
      exact absurd hn (hentry fromRoot target)
     | cons step path=>exact hjump _ _ h
    | file content=>exact h
    | special=>exact h

theorem resolve_follow {found:List N} {path:List (Step N)}
  (hentry:∀ fromRoot target, entryAt t found ≠ some (.link fromRoot target))
  (h:resolve t false links current path = .found found) :
  resolve t true links current path = .found found := by
 induction links generalizing current path with
 | zero=>exact walk_follow (fun _ _ h=>by cases h) hentry h
 | succ links ih=>exact walk_follow (fun _ _=>ih) hentry h

theorem walk_dirname {jump' : List N → List (Step N) → Resolution N}
  {found:List N} {path:List (Step N)}
  (hjump:∀ c p, jump c (p ++ [.down n]) = .found found →
   ∃ directory, jump' c p = .found directory ∧ found=directory ++ [n])
  (h:walk t false jump current (path ++ [.down n]) = .found found) :
  ∃ directory, walk t true jump' current path = .found directory ∧ found=directory ++ [n] := by
 induction path generalizing current with
 | nil=>
  refine ⟨current,rfl, ?_⟩
  change walk t false jump current [.down n]=_ at h
  unfold walk at h
  cases hn:t (current ++ [n]) with
  | none=>simp [hn] at h
  | some entry=>
   rw [hn] at h
   cases entry with
   | directory=>exact (Resolution.found.inj h).symm
   | link fromRoot target=>exact (Resolution.found.inj h).symm
   | file content=>exact (Resolution.found.inj h).symm
   | special=>exact (Resolution.found.inj h).symm
 | cons step path ih=>
  cases step with
  | up=>exact ih h
  | down m=>
   change walk t false jump current (.down m::(path ++ [.down n]))=_ at h
   have hmore:(path ++ [Step.down n]).isEmpty=false:=by simp
   unfold walk at h ⊢
   rw [hmore] at h
   cases hm:t (current ++ [m]) with
   | none=>simp [hm] at h
   | some entry=>
    rw [hm] at h
    cases entry with
    | directory=>exact ih h
    | link fromRoot target=>
     dsimp only at h ⊢
     rw [Bool.and_comm,Bool.not_true,Bool.false_and]
     apply hjump
     rw [List.append_assoc]
     exact h
    | file content=>simp at h
    | special=>simp at h

theorem resolve_dirname {found:List N} {path:List (Step N)}
  (h:resolve t false links current (path ++ [.down n]) = .found found) :
  ∃ directory, resolve t true links current path = .found directory ∧
   found=directory ++ [n] := by
 induction links generalizing current path with
 | zero=>exact walk_dirname (fun _ _ h=>by cases h) h
 | succ links ih=>exact walk_dirname (fun _ _=>ih) h

end Walks

end L4Ide.LinkedTree
