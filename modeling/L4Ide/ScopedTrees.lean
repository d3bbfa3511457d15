import Mathlib.Data.List.Basic

set_option autoImplicit false

/-!
# Trees with scopes

Uses of names below labelled nodes, where each part of a node stands in a place that may bind names.
Replacing the uses, their meaning in an environment, and a meaning that tells all replacements
apart.
-/
namespace L4Ide.ScopedTrees

mutual

inductive Scoped (B N L:Type) where
 | var (n:N)
 | node (l:L) (ps:Parts B N L)

inductive Parts (B N L:Type) where
 | nil
 | cons (b:B) (t:Scoped B N L) (ps:Parts B N L)

end

section Replacing
variable {B N L:Type}

mutual

/-- Every use is replaced; the places on the way down to it are known, the innermost first. -/
@[simp] def Scoped.replace (f:List B → N → Scoped B N L) (path:List B) :
  Scoped B N L → Scoped B N L
 | .var n=>f path n
 | .node l ps=>.node l (ps.replace f path)

@[simp] def Parts.replace (f:List B → N → Scoped B N L) (path:List B) :
  Parts B N L → Parts B N L
 | .nil=>.nil
 | .cons b t ps=>.cons b (t.replace f (b::path)) (ps.replace f path)

end

mutual

/-- The uses, each with the places on the way down to it. -/
@[simp] def Scoped.uses (path:List B) : Scoped B N L → List (List B × N)
 | .var n=>[(path,n)]
 | .node _ ps=>ps.uses path

@[simp] def Parts.uses (path:List B) : Parts B N L → List (List B × N)
 | .nil=>[]
 | .cons b t ps=>t.uses (b::path) ++ ps.uses path

end

mutual

theorem Scoped.replace_congr {f g:List B → N → Scoped B N L} :
  ∀ (t:Scoped B N L) {path:List B}, (∀ u ∈ t.uses path, f u.1 u.2=g u.1 u.2) →
   t.replace f path=t.replace g path
 | .var n, path, h=>h (path,n) (by simp)
 | .node l ps, path, h=>by
  rw [Scoped.replace,Scoped.replace,Parts.replace_congr ps h]

theorem Parts.replace_congr {f g:List B → N → Scoped B N L} :
  ∀ (ps:Parts B N L) {path:List B}, (∀ u ∈ ps.uses path, f u.1 u.2=g u.1 u.2) →
   ps.replace f path=ps.replace g path
 | .nil, _, _=>rfl
 | .cons b t ps, path, h=>by
  rw [Parts.replace,Parts.replace,Scoped.replace_congr t fun u hu=>h u (by simp [hu]),
   Parts.replace_congr ps fun u hu=>h u (by simp [hu])]

end

mutual

theorem Scoped.replace_var :
  ∀ (t:Scoped B N L) (path:List B), t.replace (fun _ n=>.var n) path=t
 | .var _, _=>rfl
 | .node l ps, path=>by rw [Scoped.replace,Parts.replace_var ps path]

theorem Parts.replace_var :
  ∀ (ps:Parts B N L) (path:List B), ps.replace (fun _ n=>.var n) path=ps
 | .nil, _=>rfl
 | .cons b t ps, path=>by
  rw [Parts.replace,Scoped.replace_var t (b::path),Parts.replace_var ps path]

end

mutual

theorem Scoped.uses_suffix : ∀ (t:Scoped B N L) {path:List B}, ∀ u ∈ t.uses path,
  path <:+ u.1
 | .var _, path, u, hu=>by simp_all
 | .node _ ps, path, u, hu=>Parts.uses_suffix ps u hu

theorem Parts.uses_suffix : ∀ (ps:Parts B N L) {path:List B}, ∀ u ∈ ps.uses path,
  path <:+ u.1
 | .nil, _, u, hu=>by simp at hu
 | .cons b t ps, path, u, hu=>by
  rw [Parts.uses,List.mem_append] at hu
  obtain hu | hu:=hu
  · exact (List.suffix_cons b path).trans (Scoped.uses_suffix t u hu)
  · exact Parts.uses_suffix ps u hu

end

end Replacing

section Meaning
variable {B N L D:Type} (binds:B → N → Bool)

def extend (b:B) (vals ρ:N → D) : N → D := fun n=>if binds b n then vals n else ρ n

def extendAll (ρ:N → D) : List (B × (N → D)) → N → D
 | []=>ρ
 | (b,vals)::q=>extend binds b vals (extendAll ρ q)

variable (interp:L → List ((N → D) → D) → D)

mutual

/-- A construct gets the meaning of each part as a function of the values that are bound there. -/
@[simp] def Scoped.denote (ρ:N → D) : Scoped B N L → D
 | .var n=>ρ n
 | .node l ps=>interp l (ps.meanings ρ)

@[simp] def Parts.meanings (ρ:N → D) : Parts B N L → List ((N → D) → D)
 | .nil=>[]
 | .cons b t ps=>(fun vals=>t.denote (extend binds b vals ρ))::ps.meanings ρ

end

/-- What replaces a use means, wherever it stands, what the use means in the other environment. -/
def Means (f:List B → N → Scoped B N L) (ρ ρ' : N → D) (u:List B × N)
  (q:List (B × (N → D))) : Prop :=
 (f u.1 u.2).denote binds interp (extendAll binds ρ q)=extendAll binds ρ' q u.2

mutual

theorem Scoped.denote_replace {f:List B → N → Scoped B N L} {ρ ρ' : N → D} :
  ∀ (t:Scoped B N L) (q:List (B × (N → D))),
   (∀ u ∈ t.uses (q.map Prod.fst), ∀ q', u.1=(q' ++ q).map Prod.fst →
    Means binds interp f ρ ρ' u (q' ++ q)) →
   (t.replace f (q.map Prod.fst)).denote binds interp (extendAll binds ρ q) =
    t.denote binds interp (extendAll binds ρ' q)
 | .var n, q, h=>h (q.map Prod.fst,n) (by simp) [] rfl
 | .node l ps, q, h=>by
  rw [Scoped.replace,Scoped.denote,Scoped.denote,Parts.meanings_replace ps q h]

theorem Parts.meanings_replace {f:List B → N → Scoped B N L} {ρ ρ' : N → D} :
  ∀ (ps:Parts B N L) (q:List (B × (N → D))),
   (∀ u ∈ ps.uses (q.map Prod.fst), ∀ q', u.1=(q' ++ q).map Prod.fst →
    Means binds interp f ρ ρ' u (q' ++ q)) →
   (ps.replace f (q.map Prod.fst)).meanings binds interp (extendAll binds ρ q) =
    ps.meanings binds interp (extendAll binds ρ' q)
 | .nil, _, _=>rfl
 | .cons b t ps, q, h=>by
  have hrest:=Parts.meanings_replace ps q fun u hu=>h u (by simp [hu])
  have hpart:∀ vals, (t.replace f (b::q.map Prod.fst)).denote binds interp
    (extend binds b vals (extendAll binds ρ q)) =
     t.denote binds interp (extend binds b vals (extendAll binds ρ' q)) := by
   intro vals
   refine Scoped.denote_replace t ((b,vals)::q) fun u hu q' hq' =>?_
   have hmeans:=h u (by simpa using .inl hu) (q' ++ [(b,vals)]) (by simpa using hq')
   simpa using hmeans
  simp only [Parts.replace,Parts.meanings,hrest,hpart]

end

end Meaning

section Marks
variable {B N L:Type} (binds:B → N → Bool)

mutual

inductive Mark (N L:Type) where
 | free (n:N)
 | bound (n:N)
 | node (l:L) (ms:Marks N L)

inductive Marks (N L:Type) where
 | nil
 | cons (m:Mark N L) (ms:Marks N L)

end

@[simp] def marks : List (Mark N L) → Marks N L
 | []=>.nil
 | m::ms=>.cons m (marks ms)

lemma marks_injective : ∀ ms ms' : List (Mark N L), marks ms=marks ms' → ms=ms'
 | [], [], _=>rfl
 | [], _::_, h=>by simp at h
 | _::_, [], h=>by simp at h
 | m::ms, m' :: ms', h=>by
  simp only [marks,Marks.cons.injEq] at h
  rw [h.1,marks_injective ms ms' h.2]

def interpMarks (l:L) (ms:List ((N → Mark N L) → Mark N L)) : Mark N L :=
 .node l (marks (ms.map fun m=>m .bound))

def markAlong (ρ:N → Mark N L) (path:List B) : N → Mark N L :=
 extendAll binds ρ (path.map fun b=>(b,.bound))

lemma markAlong_apply (ρ:N → Mark N L) (path:List B) (n:N) :
  markAlong binds ρ path n = if path.any fun b=>binds b n then .bound n else ρ n := by
 induction path with
 | nil=>rfl
 | cons b path ih=>
  simp only [markAlong,List.map_cons,extendAll,extend] at ih ⊢
  by_cases hb:binds b n=true
  · simp [hb]
  · simp [hb,ih]

mutual

theorem Scoped.marks_eq {f:List B → N → Scoped B N L} {ρ ρ' : N → Mark N L} :
  ∀ (t:Scoped B N L) (path:List B),
   (t.replace f path).denote binds interpMarks (markAlong binds ρ path) =
    t.denote binds interpMarks (markAlong binds ρ' path) →
   ∀ u ∈ t.uses path, (f u.1 u.2).denote binds interpMarks (markAlong binds ρ u.1) =
    markAlong binds ρ' u.1 u.2
 | .var n, path, h, u, hu=>by
  obtain rfl : u=(path,n):=by simpa using hu
  exact h
 | .node l ps, path, h, u, hu=>by
  simp only [Scoped.replace,Scoped.denote,interpMarks,Mark.node.injEq,true_and] at h
  exact Parts.marks_eq ps path (marks_injective _ _ h) u hu

theorem Parts.marks_eq {f:List B → N → Scoped B N L} {ρ ρ' : N → Mark N L} :
  ∀ (ps:Parts B N L) (path:List B),
   ((ps.replace f path).meanings binds interpMarks (markAlong binds ρ path)).map
     (fun m=>m .bound) =
    (ps.meanings binds interpMarks (markAlong binds ρ' path)).map (fun m=>m .bound) →
   ∀ u ∈ ps.uses path, (f u.1 u.2).denote binds interpMarks (markAlong binds ρ u.1) =
    markAlong binds ρ' u.1 u.2
 | .nil, _, _, u, hu=>by simp at hu
 | .cons b t ps, path, h, u, hu=>by
  simp only [Parts.replace,Parts.meanings,List.map_cons,List.cons.injEq] at h
  rw [Parts.uses,List.mem_append] at hu
  obtain hu | hu:=hu
  · exact Scoped.marks_eq t (b::path) h.1 u hu
  · exact Parts.marks_eq ps path h.2 u hu

end

end Marks

end L4Ide.ScopedTrees
