import L4Ide.BundleStoreSaves

set_option autoImplicit false

/-!
# What loading a bundle returns

The sources under a directory are the `.l4` files at or below it, and a bundle depends on
the entry of its deployment alone.
-/
namespace L4Ide.BundleStore
open DirectoryTree

def isL4 (p:List Name) : Bool :=
 match p.getLast? with
 | none=>false
 | some n=>takeExtension n = ".l4".toList

def l4Sources (m:List Name → Option Text) : SourceMap := fun p=>if isL4 p then m p else none

theorem isL4_singleton (n:Name) : isL4 [n]=decide (takeExtension n = ".l4".toList) := rfl

theorem isL4_cons (n k:Name) (p:List Name) : isL4 (n::k::p)=isL4 (k::p) := by
 unfold isL4
 rw [List.getLast?_cons_cons]

theorem contentAt_cons (k:Name) (q:List Name) (d:Dir Name Text) :
  d.contentAt (k::q) =
   (d.lookup k).bind fun e=>(Entry.find q e).bind Entry.content := by
 unfold Dir.contentAt
 rw [Dir.find_cons,Option.bind_assoc]

theorem contentAt_absent {k:Name} {d:Dir Name Text} (h:k ∉ d.names) (q:List Name) :
  d.contentAt (k::q)=none := by
 rw [contentAt_cons,Dir.lookup_eq_none.mpr h]
 rfl

theorem union_apply (m m' : SourceMap) (p:List Name) : m.union m' p=(m p).or (m' p) := rfl

theorem singleton_of_ne {p q:List Name} (h:q ≠ p) (t:Text) :
  SourceMap.singleton p t q=none := if_neg h

theorem under_cons (n k:Name) (m:SourceMap) (p:List Name) :
  m.under n (k::p) = if k=n then m p else none := rfl

theorem loadSourcesRecursive_eq {d:Dir Name Text} (h:d.Distinct) (p:List Name) :
  loadSourcesRecursive d p = if isL4 p then d.contentAt p else none := by
 induction d generalizing p with
 | empty=>
  cases p with
  | nil=>rfl
  | cons k q=>
   have hnot:k ∉ (Dir.empty : Dir Name Text).names:=List.not_mem_nil
   rw [contentAt_absent hnot,ite_self]
   rfl
 | withFile n t rest ih=>
  have hrest:=ih h.2 p
  rw [loadSourcesRecursive]
  cases p with
  | nil=>
   split
   · exact hrest
   · exact hrest
  | cons k q=>
   rw [contentAt_cons,Dir.lookup]
   by_cases hk:k=n
   · subst hk
     rw [contentAt_absent h.1,ite_self] at hrest
     rw [if_pos rfl]
     cases q with
     | nil=>
      rw [isL4_singleton]
      by_cases hext:takeExtension k = ".l4".toList
      · simp [hext,SourceMap.union,SourceMap.singleton,Entry.find,Entry.content]
      · rw [if_neg hext,hrest,decide_eq_false hext]
        rfl
     | cons m q=>
      have hnone:(if isL4 (k::m::q)=true then
        (some (Entry.file t)).bind fun e=>(Entry.find (m::q) e).bind Entry.content
        else none)=none := ite_self _
      rw [hnone]
      split
      · rw [union_apply,singleton_of_ne (by simp),Option.none_or,hrest]
      · exact hrest
   · rw [if_neg hk,←contentAt_cons,←hrest]
     split
     · rw [union_apply,singleton_of_ne (by simp [hk]),Option.none_or]
     · rfl
 | withDir n sub rest ihsub ih=>
  have hrest:=ih h.2.2 p
  rw [loadSourcesRecursive,union_apply]
  cases p with
  | nil=>exact hrest
  | cons k q=>
   rw [contentAt_cons,Dir.lookup,under_cons]
   by_cases hk:k=n
   · subst hk
     rw [contentAt_absent h.1,ite_self] at hrest
     rw [if_pos rfl,if_pos rfl,hrest,Option.or_none,ihsub h.2.1]
     cases q with
     | nil=>simp [isL4,Entry.find,Entry.content]
     | cons m q=>
      rw [isL4_cons]
      rfl
   · rw [if_neg hk,if_neg hk,Option.none_or,hrest,contentAt_cons]

theorem loadSources_eq {s:Store} (h:s.Distinct) (path:List Name) :
  loadSources path s=l4Sources fun p=>s.contentAt (path ++ p) := by
 funext p
 unfold loadSources l4Sources
 cases hfind:s.find path with
 | none=>
  have hnone:s.contentAt (path ++ p)=none:=by
   unfold Dir.contentAt
   rw [Dir.find_append,hfind]
   rfl
  dsimp only
  rw [hnone,ite_self]
 | some e=>
  cases e with
  | dir d=>
   dsimp only
   rw [loadSourcesRecursive_eq (h.find hfind),Dir.contentAt_of_dir hfind]
  | file t=>
   cases p with
   | nil=>rfl
   | cons k q=>
    have hnone:s.contentAt (path ++ k::q)=none:=by
     unfold Dir.contentAt
     rw [Dir.find_append,hfind]
     rfl
    dsimp only
    rw [hnone,ite_self]

section Loading

variable {lib:Imports} {deployId:Text} {s s' : Store}

theorem loadBundle_congr (h:s.lookup deployId.toList=s'.lookup deployId.toList) :
  loadBundle lib deployId s=loadBundle lib deployId s' := by
 unfold loadBundle
 cases hsafe:isSafeDeploymentId lib deployId with
 | false=>rfl
 | true=>
  have hplain:=plain_of_safe hsafe
  have hfind:∀ p, s.find (deployId.toList::p)=s'.find (deployId.toList::p):=by
   intro p
   rw [Dir.find_cons,Dir.find_cons,h]
  dsimp only
  rw [resolve_join hplain (by decide),resolve_join hplain (by decide)]
  unfold loadSources Dir.contentAt
  rw [hfind,hfind]

theorem loadBundle_absent (h:∀ d, s.lookup deployId.toList ≠ some (.dir d)) :
  ∃ e, loadBundle lib deployId s = .error e := by
 unfold loadBundle
 cases hsafe:isSafeDeploymentId lib deployId with
 | false=>exact ⟨_,rfl⟩
 | true=>
  have hplain:=plain_of_safe hsafe
  have hnone:s.contentAt (deployId.toList::resolve "metadata.json".toList)=none:=by
   rw [resolve_plain plain_metadata,contentAt_cons]
   cases hlook:s.lookup deployId.toList with
   | none=>rfl
   | some e=>
    cases e with
    | dir d=>exact absurd hlook (h d)
    | file t=>rfl
  dsimp only
  rw [resolve_join hplain (by decide),hnone]
  exact ⟨_,rfl⟩

theorem loadBundle_of_contents {metadata:StoredMetadata} {m:List Name → Option Text}
  (hsafe:isSafeDeploymentId lib deployId=true) (hs:s.Distinct)
  (hcodec:lib.decode (lib.encode metadata) = .ok metadata)
  (hmeta:s.contentAt [deployId.toList,"metadata.json".toList]=some (lib.encode metadata))
  (hsources:∀ p, s.contentAt (deployId.toList :: "sources".toList::p)=m p) :
  loadBundle lib deployId s = .ok (l4Sources m,metadata) := by
 have hplain:=plain_of_safe hsafe
 have hload:loadSources [deployId.toList,"sources".toList] s=l4Sources m:=by
  rw [loadSources_eq hs]
  exact congrArg l4Sources (funext hsources)
 unfold loadBundle
 dsimp only
 rw [resolve_join hplain (by decide),resolve_join hplain (by decide),
  resolve_plain plain_metadata,resolve_plain plain_sources,hmeta,hsafe]
 dsimp only
 rw [hcodec,hload]
 rfl

end Loading

end L4Ide.BundleStore
