import L4Ide.AssociationList
import Mathlib.Data.List.Nodup
import Mathlib.Data.List.Perm.Subperm
import Mathlib.Data.List.Sort

set_option autoImplicit false

/-!
# MCP servers of a cloud session

The user's servers under the names that a cloud session knows them by.
-/
namespace L4Ide.McpTransfer
open AssociationList

inductive Transport
 | http
 | sse
 | stdio
 deriving DecidableEq

structure LocalMcpServer where
 id : String
 url : String
 transport : Transport
 deriving DecidableEq

structure McpServerRef where
 name : String
 url : String
 deriving DecidableEq

def isNameChar (c:Char) : Bool := c.isAlphanum || c = '_' || c = '-'

def replaceRuns : Bool → List Char → List Char
 | _, []=>[]
 | inRun, c::cs=>
  if isNameChar c then c::replaceRuns false cs
  else if inRun then replaceRuns true cs
  else '_' :: replaceRuns true cs

def trimUnderscores (cs:List Char) : List Char :=
 ((cs.dropWhile fun c=>c = '_').reverse.dropWhile fun c=>c = '_').reverse

def baseName (id:String) : String :=
 let base:=trimUnderscores (replaceRuns false id.toList)
 String.ofList ((if base.isEmpty then "server".toList else base).take 60)

def validServerName (name:String) : Bool :=
 1 ≤ name.length && name.length ≤ 64 && name.toList.all isNameChar

def candidate (base:String) : ℕ → String
 | 0=>base
 | k+1=>base ++ "_" ++ toString (k+2)

/-- The first name that is free; one of the first `used.length + 1` is. -/
def cloudServerName (id:String) (used:List String) : String :=
 (((List.range (used.length+1)).map (candidate (baseName id))).find? fun name=>
  !used.contains name && validServerName name).getD (baseName id)

def isSpace (c:Char) : Bool :=
 (9 ≤ c.toNat && c.toNat ≤ 13) || (0x2000 ≤ c.toNat && c.toNat ≤ 0x200a) ||
  [0x20,0xa0,0x1680,0x2028,0x2029,0x202f,0x205f,0x3000,0xfeff].contains c.toNat

def isHttps (url:String) : Bool :=
 url.startsWith "https://" && 8 < url.length && url.toList.all fun c=>!isSpace c

structure CloudServers where
 configs : List McpServerRef
 ids : List (String × String)
 skipped : List String

def addServer (found:CloudServers) (s:LocalMcpServer) : CloudServers :=
 if s.transport = .stdio ∨ isHttps s.url=false ∨ 32 ≤ found.configs.length then
  { found with skipped:=found.skipped ++ [s.id] }
 else
  let name:=cloudServerName s.id (found.configs.map McpServerRef.name)
  { found with
    configs:=found.configs ++ [⟨name,s.url⟩]
    ids:=found.ids ++ [(name,s.id)] }

section Servers
variable (localeCompare:String → String → Bool)

def cloudMcpServers (servers:List LocalMcpServer) : CloudServers :=
 (servers.mergeSort fun a b=>localeCompare a.id b.id).foldl addServer ⟨[],[],[]⟩

end Servers

/-- The local server for a server of the session: of the same name and the same URL. -/
def CloudServers.localId (locals:CloudServers) (r:McpServerRef) : Option String :=
 (locals.ids.lookup r.name).filter fun id=>
  id ≠ "" && (locals.configs.find? fun c=>c.name=r.name).map McpServerRef.url=some r.url

theorem replaceRuns_chars (inRun:Bool) (cs:List Char) :
  ∀ c ∈ replaceRuns inRun cs, isNameChar c=true := by
 induction cs generalizing inRun with
 | nil=>
  intro c hc
  cases hc
 | cons d cs ih=>
  unfold replaceRuns
  by_cases hd:isNameChar d=true
  · rw [if_pos hd]
    intro c hc
    cases List.mem_cons.mp hc with
    | inl heq=>exact heq ▸ hd
    | inr hmem=>exact ih false c hmem
  · rw [if_neg hd]
    cases inRun with
    | true=>exact ih true
    | false=>
     intro c hc
     cases List.mem_cons.mp hc with
     | inl heq=>exact heq ▸ rfl
     | inr hmem=>exact ih true c hmem

theorem mem_of_mem_trimUnderscores {cs:List Char} {c:Char} (h:c ∈ trimUnderscores cs) :
  c ∈ cs := by
 unfold trimUnderscores at h
 have h:=(List.dropWhile_suffix _).subset (List.mem_reverse.mp h)
 exact (List.dropWhile_suffix _).subset (List.mem_reverse.mp h)

theorem baseName_chars (id:String) : ∀ c ∈ (baseName id).toList, isNameChar c=true := by
 intro c hc
 unfold baseName at hc
 rw [String.toList_ofList] at hc
 have hc:=List.mem_of_mem_take hc
 by_cases hempty:(trimUnderscores (replaceRuns false id.toList)).isEmpty
 · rw [if_pos hempty] at hc
   have hall:"server".toList.all isNameChar=true:=by decide +kernel
   exact List.all_eq_true.mp hall c hc
 · rw [if_neg hempty] at hc
   exact replaceRuns_chars false _ c (mem_of_mem_trimUnderscores hc)

theorem baseName_length (id:String) : 1 ≤ (baseName id).length ∧ (baseName id).length ≤ 60 := by
 unfold baseName
 rw [String.length_ofList,List.length_take]
 by_cases hempty:(trimUnderscores (replaceRuns false id.toList)).isEmpty
 · rw [if_pos hempty]
   have hserver:"server".toList.length=6:=by decide +kernel
   omega
 · rw [if_neg hempty]
   have hpos:0 < (trimUnderscores (replaceRuns false id.toList)).length:=by
    apply List.length_pos_of_ne_nil
    intro hnil
    exact hempty (by rw [hnil]; rfl)
   omega

theorem digits_valid : ∀ k < 32, ("_" ++ toString (k+2)).length ≤ 4 ∧
  ("_" ++ toString (k+2)).toList.all isNameChar=true := by
 decide +kernel

theorem candidate_valid (id:String) {k:ℕ} (hk:k ≤ 32) :
  validServerName (candidate (baseName id) k)=true := by
 have ⟨hpos,hlen⟩:=baseName_length id
 have hchars:=baseName_chars id
 unfold validServerName
 rw [Bool.and_eq_true,Bool.and_eq_true,decide_eq_true_iff,decide_eq_true_iff,List.all_eq_true]
 cases k with
 | zero=>
  change (1 ≤ (baseName id).length ∧ (baseName id).length ≤ 64) ∧ _
  exact ⟨⟨hpos,by omega⟩,hchars⟩
 | succ k=>
  have ⟨hdigits,hvalid⟩:=digits_valid k (by omega)
  have hsucc:candidate (baseName id) (k+1)=baseName id ++ "_" ++ toString (k+2):=rfl
  rw [hsucc,String.append_assoc,String.length_append,String.toList_append]
  refine ⟨⟨by omega,by omega⟩, ?_⟩
  intro c hc
  cases List.mem_append.mp hc with
  | inl hbase=>exact hchars c hbase
  | inr hdigit=>exact List.all_eq_true.mp hvalid c hdigit

theorem candidate_injective (base:String) {j k:ℕ} (hj:j ≤ 32) (hk:k ≤ 32)
  (h:candidate base j=candidate base k) : j=k := by
 have hdigits:∀ i < 32, ∀ l < 32, toString (i+2)=toString (l+2) → i=l:=by
  decide +kernel
 have hlonger:∀ n : ℕ, base ≠ base ++ "_" ++ toString (n+2):=by
  intro n heq
  have hlength:=congrArg String.length heq
  rw [String.length_append,String.length_append] at hlength
  have hone:"_".length=1:=by decide +kernel
  omega
 cases j with
 | zero=>
  cases k with
  | zero=>rfl
  | succ k=>exact absurd h (hlonger k)
 | succ j=>
  cases k with
  | zero=>exact absurd h.symm (hlonger j)
  | succ k=>
   have heq:=String.append_right_inj _ |>.mp h
   rw [hdigits j (by omega) k (by omega) heq]

theorem cloudServerName_spec (id:String) {used:List String} (hused:used.length < 32) :
  cloudServerName id used ∉ used ∧ validServerName (cloudServerName id used)=true := by
 have ⟨name,hname⟩ : ∃ name,
   ((List.range (used.length+1)).map (candidate (baseName id))).find? (fun name=>
    !used.contains name && validServerName name)=some name := by
  apply Option.isSome_iff_exists.mp
  rw [List.find?_isSome]
  by_contra hnone
  have hsub:(List.range (used.length+1)).map (candidate (baseName id)) ⊆ used:=by
   intro name hmem
   have ⟨k,hk,heq⟩:=List.mem_map.mp hmem
   have hk:=List.mem_range.mp hk
   by_contra hfree
   apply hnone
   refine ⟨name,hmem, ?_⟩
   rw [←heq,candidate_valid id (by omega),heq]
   simp [hfree]
  have hnodup:((List.range (used.length+1)).map (candidate (baseName id))).Nodup:=by
   apply List.Nodup.map_on _ List.nodup_range
   intro j hj k hk heq
   have hj:=List.mem_range.mp hj
   have hk:=List.mem_range.mp hk
   exact candidate_injective (baseName id) (by omega) (by omega) heq
  have hlength:=(List.Nodup.subperm hnodup hsub).length_le
  rw [List.length_map,List.length_range] at hlength
  omega
 have hfound:=List.find?_some hname
 rw [Bool.and_eq_true,Bool.not_eq_true', List.contains_eq_mem,decide_eq_false_iff_not] at hfound
 unfold cloudServerName
 rw [hname]
 exact hfound

/-- Each name that was given stands for one of the servers, with its id and its URL. -/
structure Chosen (servers:List LocalMcpServer) (found:CloudServers) : Prop where
 names : found.ids.map Prod.fst=found.configs.map McpServerRef.name
 distinct : (found.configs.map McpServerRef.name).Nodup
 chosen : ∀ p ∈ found.configs.zip found.ids, ∃ s ∈ servers,
  s.id=p.2.2 ∧ s.url=p.1.url ∧ s.transport ≠ .stdio ∧ isHttps s.url=true

theorem Chosen.addServer {servers:List LocalMcpServer} {found:CloudServers}
  (h:Chosen servers found) {s:LocalMcpServer} (hs:s ∈ servers) :
  Chosen servers (addServer found s) := by
 unfold McpTransfer.addServer
 by_cases hskip:s.transport = .stdio ∨ isHttps s.url=false ∨ 32 ≤ found.configs.length
 · rw [if_pos hskip]
   exact ⟨h.names,h.distinct,h.chosen⟩
 · rw [if_neg hskip]
   simp only [not_or,Bool.not_eq_false,not_le] at hskip
   have hused:(found.configs.map McpServerRef.name).length < 32:=by
    rw [List.length_map]
    exact hskip.2.2
   have ⟨hfree,_⟩:=cloudServerName_spec s.id hused
   have hlength:found.configs.length=found.ids.length:=by
    have hnames:=congrArg List.length h.names
    rw [List.length_map,List.length_map] at hnames
    exact hnames.symm
   constructor
   · simp only [List.map_append,h.names,List.map_cons,List.map_nil]
   · simp only [List.map_append,List.map_cons,List.map_nil]
     apply List.Nodup.append h.distinct (List.nodup_singleton _)
     intro name hname hnew
     rw [List.mem_singleton] at hnew
     exact hfree (hnew ▸ hname)
   · intro p hp
     rw [List.zip_append hlength] at hp
     cases List.mem_append.mp hp with
     | inl hold=>exact h.chosen p hold
     | inr hnew=>
      rw [List.zip_cons_cons,List.zip_nil_right,List.mem_singleton] at hnew
      rw [hnew]
      exact ⟨s,hs,rfl,rfl,hskip.1,hskip.2.1⟩

theorem chosen_cloudMcpServers (localeCompare:String → String → Bool)
  (servers:List LocalMcpServer) :
  Chosen servers (cloudMcpServers localeCompare servers) := by
 have hfold:∀ (l:List LocalMcpServer) (found:CloudServers), (∀ s ∈ l, s ∈ servers) →
   Chosen servers found → Chosen servers (l.foldl McpTransfer.addServer found) := by
  intro l
  induction l with
  | nil=>
   intro found _ h
   exact h
  | cons s l ih=>
   intro found hl h
   apply ih _ fun s hs=>hl s (List.mem_cons_of_mem _ hs)
   exact h.addServer (hl s List.mem_cons_self)
 apply hfold
 · intro s hs
   exact List.mem_mergeSort.mp hs
 · exact ⟨rfl,List.nodup_nil,fun p hp=>by cases hp⟩

theorem mem_zip_of_name {configs:List McpServerRef} {ids:List (String × String)}
  (hnames:ids.map Prod.fst=configs.map McpServerRef.name)
  (hdistinct:(configs.map McpServerRef.name).Nodup) {c:McpServerRef} {e:String × String}
  (hc:c ∈ configs) (he:e ∈ ids) (h:c.name=e.1) : (c,e) ∈ configs.zip ids := by
 induction configs generalizing ids with
 | nil=>cases hc
 | cons d configs ih=>
  cases ids with
  | nil=>cases he
  | cons f ids=>
   rw [List.map_cons,List.map_cons,List.cons.injEq] at hnames
   rw [List.map_cons,List.nodup_cons] at hdistinct
   rw [List.zip_cons_cons]
   cases List.mem_cons.mp hc with
   | inl hcd=>
    cases List.mem_cons.mp he with
    | inl hef=>exact hcd ▸ hef ▸ List.mem_cons_self
    | inr he=>
     have hmem:=List.mem_map_of_mem (f := Prod.fst) he
     rw [hnames.2,←h,hcd] at hmem
     exact absurd hmem hdistinct.1
   | inr hc=>
    cases List.mem_cons.mp he with
    | inl hef=>
     have hmem:=List.mem_map_of_mem (f := McpServerRef.name) hc
     rw [h,hef,hnames.1] at hmem
     exact absurd hmem hdistinct.1
    | inr he=>exact List.mem_cons_of_mem _ (ih hnames.2 hdistinct.2 hc he)

/-- Each server that credentials are asked for is a server of the user, over https, of the name and
the URL that the session has for it. -/
theorem exists_of_localId {localeCompare:String → String → Bool}
  {servers:List LocalMcpServer} {r:McpServerRef} {id:String}
  (h:(cloudMcpServers localeCompare servers).localId r=some id) :
  r ∈ (cloudMcpServers localeCompare servers).configs ∧
   ∃ s ∈ servers, s.id=id ∧ s.url=r.url ∧ s.transport ≠ .stdio ∧ isHttps s.url=true := by
 have hchosen:=chosen_cloudMcpServers localeCompare servers
 unfold CloudServers.localId at h
 have ⟨hid,hurl⟩:=Option.filter_eq_some_iff.mp h
 have hurl:=(Bool.and_eq_true_iff.mp hurl).2
 have ⟨c,hfind,hcurl⟩:=Option.map_eq_some_iff.mp (of_decide_eq_true hurl)
 have hname:=List.find?_some hfind
 have hname:c.name=r.name:=of_decide_eq_true hname
 have hc:c ∈ (cloudMcpServers localeCompare servers).configs:=List.mem_of_find?_eq_some hfind
 have heq:c=r:=by
  cases c
  cases r
  exact congr_arg₂ _ hname hcurl
 constructor
 · exact heq ▸ hc
 · have ⟨name,hkey,hmem⟩:=mem_of_lookup hid
   have hkey:r.name=name:=eq_of_beq hkey
   have hzip:=mem_zip_of_name hchosen.names hchosen.distinct hc hmem (hname.trans hkey)
   have ⟨s,hs,hsid,hsurl,hs'⟩:=hchosen.chosen _ hzip
   exact ⟨s,hs,hsid,hsurl.trans hcurl,hs'⟩

end L4Ide.McpTransfer
