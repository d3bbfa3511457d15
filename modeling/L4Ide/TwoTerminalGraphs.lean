import Mathlib.Data.List.Nodup
import Mathlib.Data.List.Pairwise

set_option autoImplicit false

/-!
# Two-terminal graphs

A finite acyclic graph with a single source and a single sink, built from single vertices by
putting two graphs in a row or several side by side, and the walks from its source to its sink.
-/
namespace L4Ide.TwoTerminalGraphs
variable {α:Type}

/-- A walk to `t` along the edges, vertex by vertex. -/
inductive Walk (E:α → α → Prop) (t:α) : α → List α → Prop
 | last : Walk E t t [t]
 | step {a b:α} {p:List α} : E a b → Walk E t b p → Walk E t a (a::p)

section Walk
variable {E F:α → α → Prop} {s t a x y:α} {p q:List α}

theorem Walk.head_mem (h:Walk E t a p) : a ∈ p := by
 cases h with
 | last=>exact List.mem_singleton_self t
 | step _ _=>exact List.mem_cons_self

theorem Walk.last_mem (h:Walk E t a p) : t ∈ p := by
 induction h with
 | last=>exact List.mem_singleton_self t
 | step _ _ ih=>exact List.mem_cons_of_mem _ ih

theorem Walk.mem {V:α → Prop} (hstay:∀ a b, V a → E a b → V b) (h:Walk E t a p) (ha:V a) :
  ∀ v ∈ p, V v := by
 induction h with
 | last=>exact fun v hv=>List.mem_singleton.1 hv ▸ ha
 | step hab _ ih=>
  intro v hv
  rcases List.mem_cons.1 hv with heq | hv
  · exact heq ▸ ha
  · exact ih (hstay _ _ ha hab) v hv

theorem Walk.mono (hsub:∀ a b, E a b → F a b) (h:Walk E t a p) : Walk F t a p := by
 induction h with
 | last=>exact .last
 | step hab _ ih=>exact .step (hsub _ _ hab) ih

theorem Walk.confined {V:α → Prop} (hstay:∀ a b, V a → E a b → F a b ∧ V b)
  (h:Walk E t a p) (ha:V a) : Walk F t a p := by
 induction h with
 | last=>exact .last
 | step hab _ ih=>
  obtain ⟨hf,hb⟩:=hstay _ _ ha hab
  exact .step hf (ih hb)

theorem Walk.append (h:Walk E x a p) (hxy:E x y) (hq:Walk E t y q) :
  Walk E t a (p ++ q) := by
 induction h with
 | last=>exact .step hxy hq
 | step hab _ ih=>exact .step hab ih

theorem Walk.split {V:α → Prop}
  (hout:∀ a b, V a → E a b → (F a b ∧ V b) ∨ (a=x ∧ b=y)) (ht:¬V t)
  (h:Walk E t a p) (ha:V a) :
  ∃ p₁ p₂, Walk F x a p₁ ∧ Walk E t y p₂ ∧ p=p₁ ++ p₂ := by
 induction h with
 | last=>exact absurd ha ht
 | @step a b q hab hq ih=>
  rcases hout a b ha hab with ⟨hf,hb⟩ | ⟨rfl,rfl⟩
  · obtain ⟨p₁,p₂,h₁,h₂,rfl⟩:=ih hb
    exact ⟨a::p₁,p₂,.step hf h₁,h₂,rfl⟩
  · exact ⟨[a],q,.last,hq,rfl⟩

theorem Walk.eq_of_end (hend:∀ b, ¬E t b) (h:Walk E t t p) : p=[t] := by
 cases h with
 | last=>rfl
 | step hab _=>exact absurd hab (hend _)

end Walk

structure Net (α:Type) where
 /-- The vertices, each before those it leads to. -/
 order : List α
 edge : α → α → Prop
 source : α
 sink : α
 nodup : order.Nodup
 sorted : order.Pairwise fun a b=>¬edge b a
 irrefl : ∀ a, ¬edge a a
 edge_mem : ∀ a b, edge a b → a ∈ order ∧ b ∈ order
 source_iff : ∀ v, v ∈ order ∧ (∀ u, ¬edge u v) ↔ v=source
 sink_iff : ∀ v, v ∈ order ∧ (∀ w, ¬edge v w) ↔ v=sink

namespace Net
variable (M N:Net α)

theorem source_mem : N.source ∈ N.order := ((N.source_iff N.source).2 rfl).1

theorem sink_mem : N.sink ∈ N.order := ((N.sink_iff N.sink).2 rfl).1

theorem not_edge_source (u:α) : ¬N.edge u N.source := ((N.source_iff N.source).2 rfl).2 u

theorem not_edge_sink (w:α) : ¬N.edge N.sink w := ((N.sink_iff N.sink).2 rfl).2 w

def Path (p:List α) : Prop := Walk N.edge N.sink N.source p

variable {M N}

theorem Path.mem {p:List α} (h:N.Path p) : ∀ v ∈ p, v ∈ N.order :=
 Walk.mem (fun a b _ hab=>(N.edge_mem a b hab).2) h N.source_mem

theorem nodup_of_walk {t a:α} {p pre post:List α} (h:Walk N.edge t a p)
  (ha:N.order=pre ++ a::post) : p.Nodup ∧ ∀ v ∈ p, v ∈ a::post := by
 induction h generalizing pre post with
 | last=>exact ⟨List.nodup_singleton t,fun v hv=>List.mem_singleton.1 hv ▸ List.mem_cons_self⟩
 | @step a b q hab _ ih=>
  have hsorted:=N.sorted
  have hnodup:=N.nodup
  rw [ha] at hsorted hnodup
  have hb:b ∈ post:=by
   have hmem:=(N.edge_mem a b hab).2
   rw [ha] at hmem
   rcases List.mem_append.1 hmem with hmem | hmem
   · exact absurd hab ((List.pairwise_append.1 hsorted).2.2 b hmem a List.mem_cons_self)
   · exact (List.mem_cons.1 hmem).resolve_left fun heq=>N.irrefl a (heq ▸ hab)
  obtain ⟨pre', post', rfl⟩:=List.append_of_mem hb
  have hsplit:N.order=(pre ++ a::pre') ++ b::post' :=by
   rw [ha,List.append_assoc,List.cons_append]
  obtain ⟨hq,hmem⟩:=ih hsplit
  have hlater:∀ v ∈ q, v ∈ pre' ++ b::post':=
   fun v hv=>List.mem_append_right pre' (hmem v hv)
  refine ⟨List.nodup_cons.2 ⟨fun haq=>?_,hq⟩,fun v hv=>?_⟩
  · exact (List.nodup_cons.1 (List.nodup_append'.1 hnodup).2.1).1 (hlater a haq)
  · rcases List.mem_cons.1 hv with rfl | hv
    · exact List.mem_cons_self
    · exact List.mem_cons_of_mem a (hlater v hv)

theorem Path.nodup {p:List α} (h:N.Path p) : p.Nodup := by
 obtain ⟨pre,post,hsplit⟩:=List.append_of_mem N.source_mem
 exact (nodup_of_walk h hsplit).1

theorem source_of_sorted {l:List α} (hmem:∀ v, v ∈ l ↔ v ∈ N.order)
  (hsorted:l.Pairwise fun a b=>¬N.edge b a) : l.head? = some N.source := by
 cases l with
 | nil=>exact absurd ((hmem _).2 N.source_mem) List.not_mem_nil
 | cons a l=>
  have hno:∀ u, ¬N.edge u a:=by
   intro u hu
   rcases List.mem_cons.1 ((hmem u).2 (N.edge_mem u a hu).1) with heq | hmem'
   · exact N.irrefl a (heq ▸ hu)
   · exact (List.pairwise_cons.1 hsorted).1 u hmem' hu
  rw [List.head?_cons,(N.source_iff a).1 ⟨(hmem a).1 List.mem_cons_self,hno⟩]

theorem sink_of_sorted {l:List α} (hmem:∀ v, v ∈ l ↔ v ∈ N.order)
  (hsorted:l.Pairwise fun a b=>¬N.edge b a) : l.getLast? = some N.sink := by
 rcases List.eq_nil_or_concat' l with rfl | ⟨l,a,rfl⟩
 · exact absurd ((hmem _).2 N.source_mem) List.not_mem_nil
 · have hno:∀ w, ¬N.edge a w:=by
    intro w hw
    rcases List.mem_append.1 ((hmem w).2 (N.edge_mem a w hw).2) with hmem' | heq
    · exact (List.pairwise_append.1 hsorted).2.2 w hmem' a (List.mem_singleton_self a) hw
    · exact N.irrefl a (List.mem_singleton.1 heq ▸ hw)
   rw [List.getLast?_concat,(N.sink_iff a).1
    ⟨(hmem a).1 (List.mem_append.2 (Or.inr (List.mem_singleton_self a))),hno⟩]

def point (v:α) : Net α where
 order:=[v]
 edge _ _ := False
 source:=v
 sink:=v
 nodup:=List.nodup_singleton v
 sorted:=List.pairwise_singleton _ v
 irrefl _ := id
 edge_mem _ _ := False.elim
 source_iff u := by simp
 sink_iff u := by simp

theorem path_point {v:α} {p:List α} : (point v).Path p ↔ p=[v] := by
 constructor
 · exact Walk.eq_of_end fun _=>id
 · rintro rfl
   exact Walk.last

section Series
variable (M N) (hdisj:M.order.Disjoint N.order)

/-- Two graphs in a row, the sink of the first joined to the source of the second. -/
def series : Net α where
 order:=M.order ++ N.order
 edge a b := M.edge a b ∨ N.edge a b ∨ (a=M.sink ∧ b=N.source)
 source:=M.source
 sink:=N.sink
 nodup:=List.nodup_append'.2 ⟨M.nodup,N.nodup,hdisj⟩
 sorted := by
  refine List.pairwise_append.2 ⟨?_, ?_, ?_⟩
  · refine M.sorted.imp_of_mem fun {a b} ha hb hab h=>?_
    rcases h with h | h | ⟨_,rfl⟩
    · exact hab h
    · exact hdisj hb (N.edge_mem b a h).1
    · exact hdisj ha N.source_mem
  · refine N.sorted.imp_of_mem fun {a b} ha hb hab h=>?_
    rcases h with h | h | ⟨rfl,_⟩
    · exact hdisj (M.edge_mem b a h).1 hb
    · exact hab h
    · exact hdisj M.sink_mem hb
  · intro a ha b hb h
    rcases h with h | h | ⟨rfl,_⟩
    · exact hdisj (M.edge_mem b a h).1 hb
    · exact hdisj ha (N.edge_mem b a h).2
    · exact hdisj M.sink_mem hb
 irrefl a h := by
  rcases h with h | h | ⟨rfl,h⟩
  · exact M.irrefl a h
  · exact N.irrefl a h
  · exact hdisj M.sink_mem (h ▸ N.source_mem)
 edge_mem a b h := by
  rcases h with h | h | ⟨rfl,rfl⟩
  · exact ⟨List.mem_append_left _ (M.edge_mem a b h).1,
     List.mem_append_left _ (M.edge_mem a b h).2⟩
  · exact ⟨List.mem_append_right _ (N.edge_mem a b h).1,
     List.mem_append_right _ (N.edge_mem a b h).2⟩
  · exact ⟨List.mem_append_left _ M.sink_mem,List.mem_append_right _ N.source_mem⟩
 source_iff v := by
  constructor
  · rintro ⟨hv,hno⟩
    rcases List.mem_append.1 hv with hv | hv
    · exact (M.source_iff v).1 ⟨hv,fun u hu=>hno u (Or.inl hu)⟩
    · have hsource:=(N.source_iff v).1 ⟨hv,fun u hu=>hno u (Or.inr (Or.inl hu))⟩
      exact absurd (Or.inr (Or.inr ⟨rfl,hsource⟩)) (hno M.sink)
  · rintro rfl
    refine ⟨List.mem_append_left _ M.source_mem,fun u hu=>?_⟩
    rcases hu with hu | hu | ⟨_,hu⟩
    · exact M.not_edge_source u hu
    · exact hdisj M.source_mem (N.edge_mem u _ hu).2
    · exact hdisj M.source_mem (hu ▸ N.source_mem)
 sink_iff v := by
  constructor
  · rintro ⟨hv,hno⟩
    rcases List.mem_append.1 hv with hv | hv
    · have hsink:=(M.sink_iff v).1 ⟨hv,fun u hu=>hno u (Or.inl hu)⟩
      exact absurd (Or.inr (Or.inr ⟨hsink,rfl⟩)) (hno N.source)
    · exact (N.sink_iff v).1 ⟨hv,fun u hu=>hno u (Or.inr (Or.inl hu))⟩
  · rintro rfl
    refine ⟨List.mem_append_right _ N.sink_mem,fun u hu=>?_⟩
    rcases hu with hu | hu | ⟨hu,_⟩
    · exact hdisj (M.edge_mem _ u hu).1 N.sink_mem
    · exact N.not_edge_sink u hu
    · exact hdisj (hu ▸ M.sink_mem) N.sink_mem

theorem path_series {p:List α} : (series M N hdisj).Path p ↔
  ∃ p₁ p₂, M.Path p₁ ∧ N.Path p₂ ∧ p=p₁ ++ p₂ := by
 constructor
 · intro h
   have hout:∀ a b, a ∈ M.order → (series M N hdisj).edge a b →
     (M.edge a b ∧ b ∈ M.order) ∨ (a=M.sink ∧ b=N.source) := by
    intro a b ha hab
    rcases hab with hab | hab | hab
    · exact Or.inl ⟨hab,(M.edge_mem a b hab).2⟩
    · exact absurd (N.edge_mem a b hab).1 fun hn=>hdisj ha hn
    · exact Or.inr hab
   obtain ⟨p₁,p₂,h₁,h₂,rfl⟩:=
    Walk.split hout (fun hm=>hdisj hm N.sink_mem) h M.source_mem
   refine ⟨p₁,p₂,h₁, ?_,rfl⟩
   refine Walk.confined (fun a b ha hab=>?_) h₂ N.source_mem
   rcases hab with hab | hab | ⟨hab,_⟩
   · exact absurd ha fun hn=>hdisj (M.edge_mem a b hab).1 hn
   · exact ⟨hab,(N.edge_mem a b hab).2⟩
   · exact absurd ha fun hn=>hdisj (hab ▸ M.sink_mem) hn
 · rintro ⟨p₁,p₂,h₁,h₂,rfl⟩
   exact Walk.append (h₁.mono fun _ _=>Or.inl) (Or.inr (Or.inr ⟨rfl,rfl⟩))
    (h₂.mono fun _ _ hab=>Or.inr (Or.inl hab))

end Series

theorem append_inj_of_disjoint {l m p q p' q' : List α} (hdisj:l.Disjoint m)
  (hp:∀ v ∈ p, v ∈ l) (hq:∀ v ∈ q, v ∈ m) (hp' : ∀ v ∈ p', v ∈ l) (hq' : ∀ v ∈ q', v ∈ m)
  (h:p ++ q=p' ++ q') : p=p' ∧ q=q' := by
 induction p generalizing p' with
 | nil=>
  cases p' with
  | nil=>exact ⟨rfl,h⟩
  | cons b p' =>
   rw [List.nil_append,List.cons_append] at h
   exact absurd (hq b (h ▸ List.mem_cons_self)) fun hb=>
    hdisj (hp' b List.mem_cons_self) hb
 | cons a p ih=>
  cases p' with
  | nil=>
   rw [List.nil_append,List.cons_append] at h
   exact absurd (hq' a (h ▸ List.mem_cons_self)) fun ha=>
    hdisj (hp a List.mem_cons_self) ha
  | cons b p' =>
   rw [List.cons_append,List.cons_append,List.cons.injEq] at h
   obtain ⟨hab,htail⟩:=ih (fun v hv=>hp v (List.mem_cons_of_mem a hv))
    (fun v hv=>hp' v (List.mem_cons_of_mem b hv)) h.2
   exact ⟨by rw [h.1,hab],htail⟩

section Bundle
variable (s t:α) (Ns:List (Net α))

/-- What lets graphs stand side by side between `s` and `t`. -/
structure Apart : Prop where
 ne_nil : Ns ≠ []
 ends : s ≠ t
 source : ∀ N ∈ Ns, s ∉ N.order
 sink : ∀ N ∈ Ns, t ∉ N.order
 disjoint : Ns.Pairwise fun M N=>M.order.Disjoint N.order

variable {s t Ns}

theorem Apart.eq_of_shared (h:Apart s t Ns) {v:α} (hM:M ∈ Ns) (hN:N ∈ Ns)
  (hv:v ∈ M.order) (hv' : v ∈ N.order) : M=N := by
 by_contra hne
 have hsymm:Std.Symm fun M N : Net α=>M.order.Disjoint N.order:=
  ⟨fun _ _ hd _ ha hb=>hd hb ha⟩
 exact h.disjoint.forall hM hN hne hv hv'

variable (s t Ns)

inductive BundleEdge : α → α → Prop
 | enter {N:Net α} : N ∈ Ns → BundleEdge s N.source
 | inside {N:Net α} {a b:α} : N ∈ Ns → N.edge a b → BundleEdge a b
 | leave {N:Net α} : N ∈ Ns → BundleEdge N.sink t

variable {s t Ns}

theorem Apart.not_edge_source (h:Apart s t Ns) (u:α) : ¬BundleEdge s t Ns u s := by
 rintro (hN | ⟨hN,hu⟩ | hN)
 · exact h.source _ hN (source_mem _)
 · exact h.source _ hN (edge_mem _ _ _ hu).2
 · exact h.ends rfl

theorem Apart.not_edge_sink (h:Apart s t Ns) (w:α) : ¬BundleEdge s t Ns t w := by
 rintro (hN | ⟨hN,hw⟩ | hN)
 · exact h.ends rfl
 · exact h.sink _ hN (edge_mem _ _ _ hw).1
 · exact h.sink _ hN (sink_mem _)

theorem Apart.edge_inside (h:Apart s t Ns) (hN:N ∈ Ns) {a b:α} (ha:a ∈ N.order)
  (hab:BundleEdge s t Ns a b) : (N.edge a b ∧ b ∈ N.order) ∨ (a=N.sink ∧ b=t) := by
 rcases hab with hM | ⟨hM,hab⟩ | hM
 · exact absurd ha (h.source N hN)
 · obtain rfl:=h.eq_of_shared hN hM ha (edge_mem _ a b hab).1
   exact Or.inl ⟨hab,(edge_mem _ a b hab).2⟩
 · obtain rfl:=h.eq_of_shared hN hM ha (sink_mem _)
   exact Or.inr ⟨rfl,rfl⟩

theorem Apart.not_edge_across (h:Apart s t Ns) (hM:M ∈ Ns) (hN:N ∈ Ns)
  (hdisj:M.order.Disjoint N.order) {a b:α} (ha:a ∈ M.order) (hb:b ∈ N.order) :
  ¬BundleEdge s t Ns b a := by
 intro hba
 rcases h.edge_inside hN hb hba with ⟨_,ha'⟩ | ⟨_,rfl⟩
 · exact hdisj ha ha'
 · exact h.sink M hM ha

variable (s t Ns)

def bundle (h:Apart s t Ns) : Net α where
 order:=s::(Ns.flatMap order ++ [t])
 edge:=BundleEdge s t Ns
 source:=s
 sink:=t
 nodup := by
  have hin:(Ns.flatMap order).Nodup:=
   List.nodup_flatMap.2 ⟨fun N _=>N.nodup,h.disjoint⟩
  refine List.nodup_cons.2 ⟨?_,List.nodup_append'.2 ⟨hin,List.nodup_singleton t, ?_⟩⟩
  · intro hmem
    rcases List.mem_append.1 hmem with hmem | hmem
    · obtain ⟨N,hN,hv⟩:=List.mem_flatMap.1 hmem
      exact h.source N hN hv
    · exact h.ends (List.mem_singleton.1 hmem)
  · intro v hv ht
    obtain ⟨N,hN,hv⟩:=List.mem_flatMap.1 hv
    exact h.sink N hN (List.mem_singleton.1 ht ▸ hv)
 sorted := by
  refine List.pairwise_cons.2 ⟨fun b _=>h.not_edge_source b,
   List.pairwise_append.2 ⟨?_,List.pairwise_singleton _ t, ?_⟩⟩
  · refine List.pairwise_flatMap.2 ⟨fun N hN=>?_, ?_⟩
    · refine N.sorted.imp_of_mem fun {a b} ha hb hab hba=>?_
      rcases h.edge_inside hN hb hba with ⟨hba,_⟩ | ⟨_,rfl⟩
      · exact hab hba
      · exact h.sink N hN ha
    · exact h.disjoint.imp_of_mem fun {M N} hM hN hdisj a ha b hb=>
       h.not_edge_across hM hN hdisj ha hb
  · intro a _ b hb
    rw [List.mem_singleton.1 hb]
    exact h.not_edge_sink a
 irrefl a haa := by
  rcases haa with hN | ⟨hN,haa⟩ | hN
  · exact h.source _ hN (source_mem _)
  · exact irrefl _ a haa
  · exact h.sink _ hN (sink_mem _)
 edge_mem a b hab := by
  have hin:∀ {N:Net α}, N ∈ Ns → ∀ v ∈ N.order, v ∈ s::(Ns.flatMap order ++ [t]):=
   fun hN v hv=>List.mem_cons_of_mem s
    (List.mem_append_left [t] (List.mem_flatMap.2 ⟨_,hN,hv⟩))
  rcases hab with hN | ⟨hN,hab⟩ | hN
  · exact ⟨List.mem_cons_self,hin hN _ (source_mem _)⟩
  · exact ⟨hin hN a (edge_mem _ a b hab).1,hin hN b (edge_mem _ a b hab).2⟩
  · exact ⟨hin hN _ (sink_mem _),by simp⟩
 source_iff v := by
  refine ⟨fun hv=>?_, ?_⟩
  · by_contra hvs
    rcases List.mem_append.1 ((List.mem_cons.1 hv.1).resolve_left hvs) with hmem | hmem
    · obtain ⟨N,hN,hvN⟩:=List.mem_flatMap.1 hmem
      have hsource:=(N.source_iff v).1 ⟨hvN,fun u hu=>hv.2 u (.inside hN hu)⟩
      exact hv.2 s (hsource ▸ .enter hN)
    · obtain ⟨N,hN⟩:=List.exists_mem_of_ne_nil Ns h.ne_nil
      exact hv.2 N.sink (List.mem_singleton.1 hmem ▸ .leave hN)
  · rintro rfl
    exact ⟨List.mem_cons_self,h.not_edge_source⟩
 sink_iff v := by
  refine ⟨fun hv=>?_, ?_⟩
  · by_contra hvt
    rcases List.mem_cons.1 hv.1 with rfl | hmem
    · obtain ⟨N,hN⟩:=List.exists_mem_of_ne_nil Ns h.ne_nil
      exact hv.2 N.source (.enter hN)
    rcases List.mem_append.1 hmem with hmem | hmem
    · obtain ⟨N,hN,hvN⟩:=List.mem_flatMap.1 hmem
      have hsink:=(N.sink_iff v).1 ⟨hvN,fun w hw=>hv.2 w (.inside hN hw)⟩
      exact hv.2 t (hsink ▸ .leave hN)
    · exact hvt (List.mem_singleton.1 hmem)
  · rintro rfl
    exact ⟨by simp,h.not_edge_sink⟩

variable {s t Ns}

theorem path_bundle (h:Apart s t Ns) {p:List α} : (bundle s t Ns h).Path p ↔
  ∃ N ∈ Ns, ∃ q, N.Path q ∧ p=s::(q ++ [t]) := by
 constructor
 · intro hp
   have hrest:∀ {N:Net α} {q:List α}, N ∈ Ns → Walk (BundleEdge s t Ns) t N.source q →
     ∃ q', N.Path q' ∧ q=q' ++ [t] := by
    intro N q hN hq
    obtain ⟨p₁,p₂,h₁,h₂,rfl⟩:=
     Walk.split (fun a b ha hab=>h.edge_inside hN ha hab) (h.sink N hN) hq N.source_mem
    exact ⟨p₁,h₁,by rw [h₂.eq_of_end h.not_edge_sink]⟩
   rcases hp with _ | ⟨hab,hq⟩
   · exact absurd rfl h.ends
   · rcases hab with hN | ⟨hN,hab⟩ | hN
     · obtain ⟨q,hq', rfl⟩:=hrest hN hq
       exact ⟨_,hN,q,hq', rfl⟩
     · exact absurd (edge_mem _ _ _ hab).1 (h.source _ hN)
     · exact absurd (sink_mem _) (h.source _ hN)
 · rintro ⟨N,hN,q,hq,rfl⟩
   refine Walk.step (.enter hN) (Walk.append ?_ (.leave hN) Walk.last)
   exact hq.mono fun _ _ hab=>.inside hN hab

end Bundle

section Capped
variable (s t:α) (order:List α) (E:α → α → Prop)

/-- What lets vertices in an order stand between `s` and `t`. -/
structure Between : Prop where
 nodup : order.Nodup
 sorted : order.Pairwise fun a b=>¬E b a
 irrefl : ∀ a, ¬E a a
 edge_mem : ∀ a b, E a b → a ∈ order ∧ b ∈ order
 ends : s ≠ t
 source : s ∉ order
 sink : t ∉ order

inductive CappedEdge : α → α → Prop
 | enter {b:α} : b ∈ order ∨ b=t → CappedEdge s b
 | inside {a b:α} : E a b → CappedEdge a b
 | leave {a:α} : a ∈ order → CappedEdge a t

variable {s t order E}

theorem Between.not_edge_source (h:Between s t order E) (u:α) :
  ¬CappedEdge s t order E u s := by
 rintro (hb | hab | ha)
 · exact hb.elim h.source h.ends
 · exact h.source (h.edge_mem _ _ hab).2
 · exact h.ends rfl

theorem Between.not_edge_sink (h:Between s t order E) (w:α) :
  ¬CappedEdge s t order E t w := by
 rintro (hb | hab | ha)
 · exact h.ends rfl
 · exact h.sink (h.edge_mem _ _ hab).1
 · exact h.sink ha

variable (s t order E)

def capped (h:Between s t order E) : Net α where
 order:=s::(order ++ [t])
 edge:=CappedEdge s t order E
 source:=s
 sink:=t
 nodup := by
  refine List.nodup_cons.2 ⟨fun hmem=>?_,List.nodup_append'.2 ⟨h.nodup,
   List.nodup_singleton t,fun v hv hv' =>h.sink (List.mem_singleton.1 hv' ▸ hv)⟩⟩
  rcases List.mem_append.1 hmem with hmem | hmem
  · exact h.source hmem
  · exact h.ends (List.mem_singleton.1 hmem)
 sorted := by
  refine List.pairwise_cons.2 ⟨fun b _=>h.not_edge_source b,
   List.pairwise_append.2 ⟨?_,List.pairwise_singleton _ t,fun a _ b hb=>?_⟩⟩
  · refine h.sorted.imp_of_mem fun {a b} ha hb hab hba=>?_
    rcases hba with hba | hba | hba
    · exact h.source hb
    · exact hab hba
    · exact h.sink ha
  · rw [List.mem_singleton.1 hb]
    exact h.not_edge_sink a
 irrefl a haa := by
  rcases haa with hb | haa | ha
  · exact hb.elim h.source h.ends
  · exact h.irrefl a haa
  · exact h.sink ha
 edge_mem a b hab := by
  rcases hab with hb | hab | ha
  · exact ⟨List.mem_cons_self,List.mem_cons_of_mem _ (by simpa using hb)⟩
  · obtain ⟨ha,hb⟩:=h.edge_mem a b hab
    exact ⟨by simp [ha],by simp [hb]⟩
  · exact ⟨by simp [ha],by simp⟩
 source_iff v := by
  constructor
  · rintro ⟨hv,hno⟩
    by_contra hne
    exact hno s (.enter (by simpa [hne] using hv))
  · rintro rfl
    exact ⟨List.mem_cons_self,h.not_edge_source⟩
 sink_iff v := by
  constructor
  · rintro ⟨hv,hno⟩
    by_contra hne
    have hv:v=s ∨ v ∈ order:=by simpa [hne] using hv
    rcases hv with rfl | hv
    · exact hno t (.enter (Or.inr rfl))
    · exact hno t (.leave hv)
  · rintro rfl
    exact ⟨by simp,h.not_edge_sink⟩

variable {s t order E}

theorem path_capped (h:Between s t order E) {q:List α} (hmem:∀ v ∈ q, v ∈ order)
  (hq:q.IsChain E) : (capped s t order E h).Path (s::(q ++ [t])) := by
 have hwalk:∀ a q, (∀ v ∈ a::q, v ∈ order) → (a::q).IsChain E →
   Walk (CappedEdge s t order E) t a (a::q ++ [t]) := by
  intro a q
  induction q generalizing a with
  | nil=>exact fun ha _=>.step (.leave (ha a List.mem_cons_self)) .last
  | cons b q ih=>
   intro ha hab
   obtain ⟨hab,hq⟩:=List.isChain_cons_cons.1 hab
   exact .step (.inside hab) (ih b (fun v hv=>ha v (List.mem_cons_of_mem a hv)) hq)
 cases q with
 | nil=>exact .step (.enter (Or.inr rfl)) .last
 | cons a q=>exact .step (.enter (Or.inl (hmem a List.mem_cons_self))) (hwalk a q hmem hq)

end Capped
end Net
end L4Ide.TwoTerminalGraphs
