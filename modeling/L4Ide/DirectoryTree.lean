import Mathlib.Data.List.Basic
import Mathlib.Data.Option.Basic

set_option autoImplicit false

/-!
# Directory trees

Directories of named files and directories, what a path names in one, and the operations that
change what one path names.
-/
namespace L4Ide.DirectoryTree

variable {N C:Type}

inductive Dir (N C:Type)
 | empty
 | withFile (name:N) (content:C) (rest:Dir N C)
 | withDir (name:N) (contents rest:Dir N C)
 deriving DecidableEq

inductive Entry (N C:Type)
 | file (content:C)
 | dir (contents:Dir N C)
 deriving DecidableEq

namespace Dir

def names : Dir N C → List N
 | .empty=>[]
 | .withFile n _ rest=>n::rest.names
 | .withDir n _ rest=>n::rest.names

/-- No directory has two entries of one name. -/
def Distinct : Dir N C → Prop
 | .empty=>True
 | .withFile n _ rest=>n ∉ rest.names ∧ rest.Distinct
 | .withDir n sub rest=>n ∉ rest.names ∧ sub.Distinct ∧ rest.Distinct

def removals : Dir N C → List (List N)
 | .empty=>[]
 | .withFile n _ rest=>[n]::rest.removals
 | .withDir n sub rest=>sub.removals.map (n :: ·) ++ [n]::rest.removals

theorem removals_ne_nil (d:Dir N C) : ∀ p ∈ d.removals, p ≠ [] := by
 intro p hp
 induction d generalizing p with
 | empty=>cases hp
 | withFile n c rest ih=>
  rcases List.mem_cons.mp hp with rfl | hp
  · exact List.cons_ne_nil n []
  · exact ih p hp
 | withDir n sub rest _ ih=>
  rcases List.mem_append.mp hp with hp | hp
  · obtain ⟨q,-,rfl⟩:=List.mem_map.mp hp
    exact List.cons_ne_nil n q
  · rcases List.mem_cons.mp hp with rfl | hp
    · exact List.cons_ne_nil n []
    · exact ih p hp

variable [DecidableEq N]

instance decidableDistinct : (d:Dir N C) → Decidable d.Distinct
 | .empty=>inferInstanceAs (Decidable True)
 | .withFile n _ rest=>
  have:=decidableDistinct rest
  inferInstanceAs (Decidable (n ∉ rest.names ∧ rest.Distinct))
 | .withDir n sub rest=>
  have:=decidableDistinct sub
  have:=decidableDistinct rest
  inferInstanceAs (Decidable (n ∉ rest.names ∧ sub.Distinct ∧ rest.Distinct))

def lookup (m:N) : Dir N C → Option (Entry N C)
 | .empty=>none
 | .withFile n c rest=>if m=n then some (.file c) else rest.lookup m
 | .withDir n sub rest=>if m=n then some (.dir sub) else rest.lookup m

def erase (m:N) : Dir N C → Dir N C
 | .empty=>.empty
 | .withFile n c rest=>if m=n then rest.erase m else .withFile n c (rest.erase m)
 | .withDir n sub rest=>if m=n then rest.erase m else .withDir n sub (rest.erase m)

/-- The directory in which `n` names the given entry from now on. -/
def set (n:N) (d:Dir N C) : Option (Entry N C) → Dir N C
 | none=>d.erase n
 | some (.file c)=>.withFile n c (d.erase n)
 | some (.dir sub)=>.withDir n sub (d.erase n)

/-- Change what a path names, `f` saying how. It fails where `f` does and where the
    path leads through something that is not a directory. -/
def alter (f:Option (Entry N C) → Option (Option (Entry N C))) :
  List N → Dir N C → Option (Dir N C)
 | [], _=>none
 | [n], d=>(f (d.lookup n)).map (d.set n)
 | n::m::p, d=>
  match d.lookup n with
  | some (.dir sub)=>(alter f (m::p) sub).map fun sub' =>d.set n (some (.dir sub'))
  | _=>none

end Dir

variable [DecidableEq N]

def Entry.find : List N → Entry N C → Option (Entry N C)
 | [], e=>some e
 | n::p, .dir d=>(d.lookup n).bind (Entry.find p)
 | _::_, .file _=>none

def Entry.content : Entry N C → Option C
 | .file c=>some c
 | .dir _=>none

def Entry.Distinct : Entry N C → Prop
 | .file _=>True
 | .dir d=>d.Distinct

namespace Dir

def find (p:List N) (d:Dir N C) : Option (Entry N C) := Entry.find p (.dir d)

/-- The content of the file that a path names. -/
def contentAt (p:List N) (d:Dir N C) : Option C := (d.find p).bind Entry.content

def removed : Option (Entry N C) → Option (Option (Entry N C))
 | some (.file _)=>some none
 | some (.dir .empty)=>some none
 | _=>none

def remove (p:List N) (d:Dir N C) : Option (Dir N C) := d.alter removed p

variable {d:Dir N C} {n:N} {p:List N}

theorem lookup_eq_none {m:N} : d.lookup m=none ↔ m ∉ d.names := by
 induction d with
 | empty=>simp [lookup,names]
 | withFile n c rest ih=>
  by_cases h:m=n
  · simp [lookup,names,h]
  · simp [lookup,names,h,ih]
 | withDir n sub rest _ ih=>
  by_cases h:m=n
  · simp [lookup,names,h]
  · simp [lookup,names,h,ih]

theorem lookup_erase (n m:N) (d:Dir N C) :
  (d.erase n).lookup m = if m=n then none else d.lookup m := by
 induction d with
 | empty=>simp [erase,lookup]
 | withFile k c rest ih=>
  by_cases hk:n=k
  · rw [erase,if_pos hk,ih,lookup,←hk]
    split <;> rfl
  · rw [erase,if_neg hk,lookup,lookup,ih]
    grind
 | withDir k sub rest _ ih=>
  by_cases hk:n=k
  · rw [erase,if_pos hk,ih,lookup,←hk]
    split <;> rfl
  · rw [erase,if_neg hk,lookup,lookup,ih]
    grind

theorem lookup_set (n m:N) (d:Dir N C) (r:Option (Entry N C)) :
  (d.set n r).lookup m = if m=n then r else d.lookup m := by
 cases r with
 | none=>exact lookup_erase n m d
 | some e=>
  cases e with
  | file c=>
   by_cases hm:m=n
   · simp [set,lookup,hm]
   · simp [set,lookup,lookup_erase,hm]
  | dir sub=>
   by_cases hm:m=n
   · simp [set,lookup,hm]
   · simp [set,lookup,lookup_erase,hm]

theorem not_mem_names_erase (n:N) (d:Dir N C) : n ∉ (d.erase n).names := by
 rw [←lookup_eq_none,lookup_erase,if_pos rfl]

theorem mem_names_of_mem_erase {m:N} (h:m ∈ (d.erase n).names) :
  m ∈ d.names := by
 by_contra hm
 rw [←lookup_eq_none] at hm
 apply lookup_eq_none.mp _ h
 rw [lookup_erase,hm,ite_self]

theorem erase_of_not_mem (h:n ∉ d.names) : d.erase n=d := by
 induction d with
 | empty=>rfl
 | withFile k c rest ih=>
  simp only [names,List.mem_cons,not_or] at h
  rw [erase,if_neg h.1,ih h.2]
 | withDir k sub rest _ ih=>
  simp only [names,List.mem_cons,not_or] at h
  rw [erase,if_neg h.1,ih h.2]

theorem Distinct.erase (h:d.Distinct) (n:N) : (d.erase n).Distinct := by
 induction d with
 | empty=>trivial
 | withFile k c rest ih=>
  unfold Dir.erase
  split
  · exact ih h.2
  · exact ⟨fun hk=>h.1 (mem_names_of_mem_erase hk),ih h.2⟩
 | withDir k sub rest _ ih=>
  unfold Dir.erase
  split
  · exact ih h.2.2
  · exact ⟨fun hk=>h.1 (mem_names_of_mem_erase hk),h.2.1,ih h.2.2⟩

theorem Distinct.set (h:d.Distinct) (n:N) {r:Option (Entry N C)}
  (hr:∀ e ∈ r, e.Distinct) : (d.set n r).Distinct := by
 cases r with
 | none=>exact h.erase n
 | some e=>
  cases e with
  | file c=>exact ⟨not_mem_names_erase n d,h.erase n⟩
  | dir sub=>exact ⟨not_mem_names_erase n d,hr _ rfl,h.erase n⟩

theorem Distinct.lookup (h:d.Distinct) {e:Entry N C}
  (he:d.lookup n=some e) : e.Distinct := by
 induction d with
 | empty=>cases he
 | withFile k c rest ih=>
  unfold Dir.lookup at he
  split at he
  · cases he
    trivial
  · exact ih h.2 he
 | withDir k sub rest _ ih=>
  unfold Dir.lookup at he
  split at he
  · cases he
    exact h.2.1
  · exact ih h.2.2 he

theorem find_cons (n:N) (p:List N) (d:Dir N C) :
  d.find (n::p)=(d.lookup n).bind (Entry.find p) := rfl

theorem find_singleton (n:N) (d:Dir N C) : d.find [n]=d.lookup n := by
 rw [find_cons]
 cases d.lookup n <;> rfl

theorem find_cons_of_dir {sub:Dir N C} (h:d.lookup n=some (.dir sub))
  (p:List N) : d.find (n::p)=sub.find p := by
 rw [find_cons,h]
 rfl

theorem find_entry_append (p q:List N) (e:Entry N C) :
  e.find (p ++ q)=(e.find p).bind (Entry.find q) := by
 induction p generalizing e with
 | nil=>rfl
 | cons n p ih=>
  cases e with
  | file c=>rfl
  | dir d=>
   change (d.lookup n).bind (Entry.find (p ++ q))=_
   change _=((d.lookup n).bind (Entry.find p)).bind (Entry.find q)
   cases d.lookup n with
   | none=>rfl
   | some e=>exact ih e

theorem find_append (p q:List N) (d:Dir N C) :
  d.find (p ++ q)=(d.find p).bind (Entry.find q) :=
 find_entry_append p q (.dir d)

theorem contentAt_of_dir {sub:Dir N C} (h:d.find p=some (.dir sub))
  (q:List N) : d.contentAt (p ++ q)=sub.contentAt q := by
 unfold contentAt
 rw [find_append,h]
 rfl

theorem Distinct.find (h:d.Distinct) {e:Entry N C} (he:d.find p=some e) : e.Distinct := by
 induction p generalizing d with
 | nil=>
  cases he
  exact h
 | cons n p ih=>
  rw [find_cons] at he
  cases hlook:d.lookup n with
  | none=>simp [hlook] at he
  | some x=>
   rw [hlook] at he
   cases x with
   | file c=>
    cases p with
    | nil=>
     cases he
     trivial
    | cons m p=>cases he
   | dir sub=>exact ih (h.lookup hlook) he

section Alter

variable {f:Option (Entry N C) → Option (Option (Entry N C))} {p q:List N} {d d' : Dir N C}

theorem alter_cases (h:d.alter f p=some d') :
  (∃ n r, p=[n] ∧ f (d.lookup n)=some r ∧ d' = d.set n r) ∨
  ∃ n m p' sub sub', p=n::m::p' ∧ d.lookup n=some (.dir sub) ∧
   sub.alter f (m::p')=some sub' ∧ d' = d.set n (some (.dir sub')) := by
 cases p with
 | nil=>cases h
 | cons n p=>
  cases p with
  | nil=>
   obtain ⟨r,hr,rfl⟩:=Option.map_eq_some_iff.mp h
   exact Or.inl ⟨n,r,rfl,hr,rfl⟩
  | cons m p=>
   unfold alter at h
   split at h
   · rename_i sub hlook
     obtain ⟨sub', hsub,rfl⟩:=Option.map_eq_some_iff.mp h
     exact Or.inr ⟨n,m,p,sub,sub', rfl,hlook,hsub,rfl⟩
   · cases h

theorem find_alter (h:d.alter f p=some d') : f (d.find p)=some (d'.find p) := by
 induction p generalizing d d' with
 | nil=>cases h
 | cons n p ih=>
  rcases alter_cases h with ⟨_,r,heq,hr,rfl⟩ | ⟨_,m,p', sub,sub', heq,hlook,hsub,rfl⟩
  · cases heq
    rw [find_singleton,find_singleton,lookup_set,if_pos rfl,hr]
  · cases heq
    have hlook' : (d.set n (some (.dir sub'))).lookup n=some (.dir sub'):=by
     rw [lookup_set,if_pos rfl]
    rw [find_cons_of_dir hlook,find_cons_of_dir hlook']
    exact ih hsub

theorem find_alter_of_apart (h:d.alter f p=some d') (hpq:¬p <+: q) (hqp:¬q <+: p) :
  d'.find q=d.find q := by
 induction p generalizing d d' q with
 | nil=>cases h
 | cons n p ih=>
  cases q with
  | nil=>exact absurd (List.nil_prefix) hqp
  | cons k q=>
   rcases alter_cases h with ⟨_,r,heq,hr,rfl⟩ | ⟨_,m,p', sub,sub', heq,hlook,hsub,rfl⟩
   · cases heq
     have hk:k ≠ n:=by
      rintro rfl
      exact hpq (by simp)
     rw [find_cons,find_cons,lookup_set,if_neg hk]
   · cases heq
     by_cases hk:k=n
     · subst hk
       have hlook' : (d.set k (some (.dir sub'))).lookup k=some (.dir sub'):=by
        rw [lookup_set,if_pos rfl]
       rw [find_cons_of_dir hlook,find_cons_of_dir hlook']
       apply ih hsub
       · intro hpre
         exact hpq (List.cons_prefix_cons.mpr ⟨rfl,hpre⟩)
       · intro hpre
         exact hqp (List.cons_prefix_cons.mpr ⟨rfl,hpre⟩)
     · rw [find_cons,find_cons,lookup_set,if_neg hk]

theorem contentAt_alter (h:d.alter f p=some d') (hpq:¬p <+: q) :
  d'.contentAt q=d.contentAt q := by
 induction p generalizing d d' q with
 | nil=>cases h
 | cons n p ih=>
  cases q with
  | nil=>rfl
  | cons k q=>
   rcases alter_cases h with ⟨_,r,heq,hr,rfl⟩ | ⟨_,m,p', sub,sub', heq,hlook,hsub,rfl⟩
   · cases heq
     have hk:k ≠ n:=by
      rintro rfl
      exact hpq (by simp)
     unfold contentAt
     rw [find_cons,find_cons,lookup_set,if_neg hk]
   · cases heq
     by_cases hk:k=n
     · subst hk
       have hlook' : (d.set k (some (.dir sub'))).lookup k=some (.dir sub'):=by
        rw [lookup_set,if_pos rfl]
       unfold contentAt
       rw [find_cons_of_dir hlook,find_cons_of_dir hlook']
       exact ih hsub fun hpre=>hpq (List.cons_prefix_cons.mpr ⟨rfl,hpre⟩)
     · unfold contentAt
       rw [find_cons,find_cons,lookup_set,if_neg hk]

theorem Distinct.alter (hd:d.Distinct) (h:d.alter f p=some d')
  (hf:∀ x r, (∀ e ∈ x, e.Distinct) → f x=some r → ∀ e ∈ r, e.Distinct) : d'.Distinct := by
 induction p generalizing d d' with
 | nil=>cases h
 | cons n p ih=>
  rcases alter_cases h with ⟨_,r,heq,hr,rfl⟩ | ⟨_,m,p', sub,sub', heq,hlook,hsub,rfl⟩
  · cases heq
    exact hd.set n (hf _ r (fun e he=>hd.lookup he) hr)
  · cases heq
    apply hd.set n
    intro e he
    cases he
    exact ih (hd.lookup hlook) hsub

end Alter

def removeEach (l:List (List N)) (d:Dir N C) : Option (Dir N C) :=
 l.foldlM (fun d p=>d.remove p) d

theorem removeEach_append (l l' : List (List N)) (d:Dir N C) :
  removeEach (l ++ l') d=(removeEach l d).bind (removeEach l') :=
 List.foldlM_append

theorem remove_cons {sub:Dir N C} (hp:p ≠ []) (hlook:d.lookup n=some (.dir sub)) :
  d.remove (n::p)=(sub.remove p).map fun sub' =>d.set n (some (.dir sub')) := by
 cases p with
 | nil=>exact absurd rfl hp
 | cons m p=>
  unfold remove
  rw [alter,hlook]

theorem remove_singleton (h:d.lookup n=some (.dir .empty) ∨ ∃ c, d.lookup n=some (.file c)) :
  d.remove [n]=some (d.erase n) := by
 unfold remove
 rw [alter]
 rcases h with h | ⟨c,h⟩
 · rw [h]
   rfl
 · rw [h]
   rfl

theorem removeEach_below {l:List (List N)} {sub sub' : Dir N C} (hl:∀ p ∈ l, p ≠ [])
  (hlook:d.lookup n=some (.dir sub)) (h:removeEach l sub=some sub') :
  ∃ d', removeEach (l.map (n :: ·)) d=some d' ∧ d'.lookup n=some (.dir sub') := by
 induction l generalizing d sub with
 | nil=>
  cases h
  exact ⟨d,rfl,hlook⟩
 | cons p l ih=>
  obtain ⟨sub₁,hsub₁,hrest⟩ : ∃ sub₁, sub.remove p=some sub₁ ∧
    removeEach l sub₁=some sub' := by
   unfold removeEach at h
   rw [List.foldlM_cons] at h
   exact Option.bind_eq_some_iff.mp h
  have hone:=remove_cons (hl p List.mem_cons_self) hlook
  rw [hsub₁] at hone
  have hlook₁:(d.set n (some (.dir sub₁))).lookup n=some (.dir sub₁):=by
   rw [lookup_set,if_pos rfl]
  obtain ⟨d', hd', hlook'⟩:=ih (fun q hq=>hl q (List.mem_cons_of_mem p hq)) hlook₁ hrest
  refine ⟨d', ?_,hlook'⟩
  unfold removeEach at hd' ⊢
  rw [List.map_cons,List.foldlM_cons,hone]
  exact hd'

theorem removeEach_withDir {l:List (List N)} {sub sub' rest:Dir N C}
  (hl:∀ p ∈ l, p ≠ []) (hn:n ∉ rest.names) (h:removeEach l sub=some sub') :
  removeEach (l.map (n :: ·)) (.withDir n sub rest)=some (.withDir n sub' rest) := by
 induction l generalizing sub with
 | nil=>
  cases h
  rfl
 | cons p l ih=>
  obtain ⟨sub₁,hsub₁,hrest⟩ : ∃ sub₁, sub.remove p=some sub₁ ∧
    removeEach l sub₁=some sub' := by
   unfold removeEach at h
   rw [List.foldlM_cons] at h
   exact Option.bind_eq_some_iff.mp h
  have hlook:(Dir.withDir n sub rest).lookup n=some (.dir sub):=by
   rw [lookup,if_pos rfl]
  have hset:(Dir.withDir n sub rest).set n (some (.dir sub₁)) = .withDir n sub₁ rest:=by
   rw [set,erase,if_pos rfl,erase_of_not_mem hn]
  have hone:=remove_cons (hl p List.mem_cons_self) hlook
  rw [hsub₁,Option.map_some,hset] at hone
  have htail:=ih (fun q hq=>hl q (List.mem_cons_of_mem p hq)) hrest
  unfold removeEach at htail ⊢
  rw [List.map_cons,List.foldlM_cons,hone]
  exact htail

theorem removeEach_removals (h:d.Distinct) :
  removeEach d.removals d=some .empty := by
 induction d with
 | empty=>rfl
 | withFile n c rest ih=>
  have hone:(Dir.withFile n c rest).remove [n]=some rest:=by
   rw [remove_singleton (Or.inr ⟨c,by rw [lookup,if_pos rfl]⟩),erase,if_pos rfl,
    erase_of_not_mem h.1]
  have htail:=ih h.2
  unfold removeEach at htail ⊢
  rw [removals,List.foldlM_cons,hone]
  exact htail
 | withDir n sub rest ihsub ih=>
  have hone:(Dir.withDir n .empty rest).remove [n]=some rest:=by
   rw [remove_singleton (Or.inl (by rw [lookup,if_pos rfl])),erase,if_pos rfl,
    erase_of_not_mem h.1]
  have hbelow:=removeEach_withDir (removals_ne_nil sub) h.1 (ihsub h.2.1)
  have htail:=ih h.2.2
  rw [removals,removeEach_append,hbelow,Option.bind_some]
  unfold removeEach at htail ⊢
  rw [List.foldlM_cons,hone]
  exact htail

theorem removeEach_directory {sub:Dir N C} (hd:d.Distinct)
  (hlook:d.lookup n=some (.dir sub)) :
  ∃ d', removeEach (sub.removals.map (n :: ·) ++ [[n]]) d=some d' ∧ d'.lookup n=none := by
 obtain ⟨d', hd', hlook'⟩:=
  removeEach_below (removals_ne_nil sub) hlook (removeEach_removals (hd.lookup hlook))
 refine ⟨d'.erase n, ?_, ?_⟩
 · rw [removeEach_append,hd', Option.bind_some]
   unfold removeEach
   rw [List.foldlM_cons,remove_singleton (Or.inl hlook')]
   rfl
 · rw [lookup_erase,if_pos rfl]

end Dir

end L4Ide.DirectoryTree
