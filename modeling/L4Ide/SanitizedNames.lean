import L4Ide.FunctionSchema
import Mathlib.Data.List.DropRight
import Mathlib.Data.Rat.Defs

set_option autoImplicit false

/-!
# Sanitised property names

The names that tool schemas give the properties, the map back to the original names, and the
check for names that would collide.
-/
namespace L4Ide.SanitizedNames
open FunctionSchema

/-- The letters and digits of Unicode; in ASCII they are the usual ones. -/
structure Unicode where
 isAlphaNum : Char → Bool
 ascii : ∀ c : Char, c.toNat < 128 → isAlphaNum c=c.isAlphanum

inductive FnLiteral where
 | fnLitInt (i:ℤ)
 | fnLitDouble (d:ℚ)
 | fnLitBool (b:Bool)
 | fnLitString (s:String)
 | fnArray (vs:List FnLiteral)
 | fnObject (ps:List (String × FnLiteral))
 | fnUncertain
 | fnUnknown

def isHyphen (c:Char) : Bool := c == '-'

section Names
variable (u:Unicode)

def sanitizeChar (c:Char) : Char :=
 if u.isAlphaNum c || c == '_' || c == '-' then c else '-'

def replaceDoubleHyphen : List Char → List Char
 | []=>[]
 | [c]=>[c]
 | c::d::cs=>
  if isHyphen c && isHyphen d then '-' :: replaceDoubleHyphen cs
  else c::replaceDoubleHyphen (d::cs)

def collapseHyphensFrom : ℕ → List Char → List Char
 | 0, t=>t
 | fuel+1, t=>
  let collapsed:=replaceDoubleHyphen t
  if collapsed=t then t else collapseHyphensFrom fuel collapsed

def collapseHyphens (t:List Char) : List Char := collapseHyphensFrom t.length t

def unnamed : List Char := "_unnamed".toList

def sanitizePropertyNameRaw (name:String) : List Char :=
 let s:=name.toList.map (sanitizeChar u)
 let s' :=collapseHyphens ((s.rdropWhile isHyphen).dropWhile isHyphen)
 if s' = [] then unnamed else s'

def sanitizePropertyName (name:String) : List Char :=
 ((sanitizePropertyNameRaw u name).take 60).rdropWhile isHyphen

def shortHashSuffix (t:String) : List Char :=
 let h:=t.toList.foldl (fun acc c=>(acc*131+c.toNat) % 16777259) 1
 let s:=Nat.toDigits 16 (h % 4096)
 List.replicate (3-s.length) '0' ++ s

def disambiguate (s:List Char) (o:String) : List Char :=
 (s.take 60).rdropWhile isHyphen ++ '-' :: shortHashSuffix o

/-- Final names by original name; those of one sanitised name are told apart by a hash. -/
def sanitizePropertyNames (origs:List String) : TextMap String :=
 origs.map fun o=>
  let s:=sanitizePropertyName u o
  (o,String.ofList
   (match origs.filter fun o' =>sanitizePropertyName u o' = s with
   | [_]=>s
   | _=>disambiguate s o))

def finalOf (origs:List String) (o:String) : String :=
 ((sanitizePropertyNames u origs).lookup o).getD (String.ofList (sanitizePropertyName u o))

/-- The changed names of one level; of two originals with one name the later counts. -/
def thisLevel (origs:List String) : TextMap String :=
 (((sanitizePropertyNames u origs).map fun e=>(e.2,e.1)).filter fun e=>e.1 ≠ e.2).reverse

mutual

def collectFromParameter : Parameter → TextMap String
 | ⟨_,_,_,properties,items,_⟩=>
  (match properties with
   | some props=>thisLevel u (TextMap.keys props) ++ collectFromParameters props
   | none=>[]) ++
  match items with
  | some ⟨_,_,_,some props,_,_⟩=>
   thisLevel u (TextMap.keys props) ++ collectFromParameters props
  | _=>[]

def collectFromParameters : List (String × Parameter) → TextMap String
 | []=>[]
 | (_,p)::rest=>collectFromParameter p ++ collectFromParameters rest

end

def buildNestedReverseMap (props:TextMap Parameter) : TextMap String :=
 thisLevel u props.keys ++ collectFromParameters u props

def buildPropertyReverseMap (ps:Parameters) : TextMap String :=
 buildNestedReverseMap u ps.parameterMap

def showNames (names:List String) : String :=
 String.intercalate ", " (names.map fun n=> "'" ++ n ++ "'")

/-- The names of one level that have the same sanitised name, for each such name in order. -/
def collisions (context:String) (keys:List String) : List String :=
 let sanitized:=fun k=>String.ofList (sanitizePropertyNameRaw u k)
 let named:=((keys.map sanitized).dedup.insertionSort (· ≤ ·)).map fun san=>
  (san,(keys.filter fun k=>sanitized k=san).reverse)
 (named.filter fun e=>1 < e.2.length).map fun e=>
  "In " ++ context ++ ": field names " ++ showNames e.2 ++ " all sanitize to '" ++ e.1 ++ "'"

mutual

def checkParameter (parentContext fieldName:String) : Parameter → List String
 | ⟨_,_,_,properties,items,_⟩=>
  let nestedContext:=parentContext ++ "." ++ fieldName
  (match properties with
   | some props=>collisions u nestedContext (TextMap.keys props) ++
     checkParameters nestedContext props
   | none=>[]) ++
  match items with
  | some ⟨_,_,_,some props,_,_⟩=>collisions u (nestedContext ++ "[]") (TextMap.keys props) ++
    checkParameters (nestedContext ++ "[]") props
  | _=>[]

def checkParameters (context:String) : List (String × Parameter) → List String
 | []=>[]
 | (k,p)::rest=>checkParameter context k p ++ checkParameters context rest

end

def checkPropertyMap (context:String) (props:TextMap Parameter) : List String :=
 collisions u context props.keys ++ checkParameters u context props

def validateNoSanitizationCollisions (context:String) (ps:Parameters) : List String :=
 checkPropertyMap u context ps.parameterMap

end Names

section Remap
variable (reverseMap:TextMap String)

def remapKey (k:String) : String := (reverseMap.lookup k).getD k

mutual

def remapFnLiteralKeys : FnLiteral → FnLiteral
 | .fnObject ps=>.fnObject (remapFields ps)
 | .fnArray vs=>.fnArray (remapElements vs)
 | v=>v

def remapFields : List (String × FnLiteral) → List (String × FnLiteral)
 | []=>[]
 | (k,v)::rest=>(remapKey reverseMap k,remapFnLiteralKeys v)::remapFields rest

def remapElements : List FnLiteral → List FnLiteral
 | []=>[]
 | v::rest=>remapFnLiteralKeys v::remapElements rest

end

def remapArguments (args:List (String × Option FnLiteral)) : List (String × Option FnLiteral) :=
 args.map fun (k,v)=>(remapKey reverseMap k,v.map (remapFnLiteralKeys reverseMap))

end Remap
end L4Ide.SanitizedNames

namespace L4Ide.SanitizedNamesText
open FunctionSchema SanitizedNames

def squash : Bool → List Char → List Char
 | _, []=>[]
 | h, c::cs=>
  if isHyphen c then (if h then squash true cs else c::squash true cs) else c::squash false cs

theorem squash_hyphen {c:Char} (hc:isHyphen c=true) (h:Bool) (cs:List Char) :
  squash h (c::cs) = if h then squash true cs else c::squash true cs := by
 rw [squash,if_pos hc]

theorem squash_other {c:Char} (hc:isHyphen c=false) (h:Bool) (cs:List Char) :
  squash h (c::cs)=c::squash false cs := by
 rw [squash,hc]
 rfl

theorem isHyphen_iff {c:Char} : isHyphen c=true ↔ c = '-' := by
 simp [isHyphen]

theorem squash_replaceDoubleHyphen (t:List Char) :
  ∀ h, squash h (replaceDoubleHyphen t)=squash h t := by
 induction t using replaceDoubleHyphen.induct with
 | case1=>exact fun h=>rfl
 | case2 c=>exact fun h=>rfl
 | case3 c d cs hboth ih=>
  intro h
  obtain ⟨hc,hd⟩:=Bool.and_eq_true_iff.1 hboth
  rw [replaceDoubleHyphen,if_pos hboth,squash_hyphen hc,squash_hyphen hd,isHyphen_iff.1 hc,
   squash_hyphen rfl,ih]
  rfl
 | case4 c d cs hnot ih=>
  intro h
  rw [replaceDoubleHyphen,if_neg hnot]
  cases hc:isHyphen c with
  | true=>rw [squash_hyphen hc,squash_hyphen hc,ih]
  | false=>rw [squash_other hc,squash_other hc,ih]

theorem length_replaceDoubleHyphen (t:List Char) :
  (replaceDoubleHyphen t).length ≤ t.length ∧
   ((replaceDoubleHyphen t).length=t.length → replaceDoubleHyphen t=t) := by
 induction t using replaceDoubleHyphen.induct with
 | case1=>exact ⟨le_rfl,fun _=>rfl⟩
 | case2 c=>exact ⟨le_rfl,fun _=>rfl⟩
 | case3 c d cs hboth ih=>
  rw [replaceDoubleHyphen,if_pos hboth]
  simp only [List.length_cons]
  omega
 | case4 c d cs hnot ih=>
  rw [replaceDoubleHyphen,if_neg hnot]
  simp only [List.length_cons] at ih ⊢
  refine ⟨by omega,fun h=>?_⟩
  rw [ih.2 (by omega)]

theorem squash_of_fixed (t:List Char) (h:replaceDoubleHyphen t=t) : squash false t=t := by
 induction t using replaceDoubleHyphen.induct with
 | case1=>rfl
 | case2 c=>simp [squash]
 | case3 c d cs hboth ih=>
  have hlength:=congrArg List.length h
  have hle:=(length_replaceDoubleHyphen cs).1
  rw [replaceDoubleHyphen,if_pos hboth] at hlength
  simp only [List.length_cons] at hlength
  omega
 | case4 c d cs hnot ih=>
  rw [replaceDoubleHyphen,if_neg hnot] at h
  have htail:=ih (List.cons.inj h).2
  cases hc:isHyphen c with
  | false=>rw [squash_other hc,htail]
  | true=>
   have hd:isHyphen d=false:=by
    rw [hc,Bool.true_and,Bool.not_eq_true] at hnot
    exact hnot
   rw [squash_other hd] at htail
   rw [squash_hyphen hc,squash_other hd,htail]
   rfl

theorem collapseHyphensFrom_eq (fuel:ℕ) :
  ∀ t : List Char, t.length ≤ fuel → collapseHyphensFrom fuel t=squash false t := by
 induction fuel with
 | zero=>
  intro t ht
  obtain rfl:=List.length_eq_zero_iff.1 (Nat.le_zero.1 ht)
  rfl
 | succ fuel ih=>
  intro t ht
  unfold collapseHyphensFrom
  by_cases hfixed:replaceDoubleHyphen t=t
  · simp only [hfixed,if_true]
    exact (squash_of_fixed t hfixed).symm
  · obtain ⟨hle,heq⟩:=length_replaceDoubleHyphen t
    have hne:(replaceDoubleHyphen t).length ≠ t.length:=fun h=>hfixed (heq h)
    have hlt:(replaceDoubleHyphen t).length ≤ fuel:=by omega
    simp only [if_neg hfixed]
    rw [ih _ hlt,squash_replaceDoubleHyphen]

theorem collapseHyphens_eq (t:List Char) : collapseHyphens t=squash false t :=
 collapseHyphensFrom_eq t.length t le_rfl

theorem squash_dropWhile (t:List Char) : squash false (t.dropWhile isHyphen)=squash true t := by
 induction t with
 | nil=>rfl
 | cons c cs ih=>
  cases hc:isHyphen c with
  | true=>rw [List.dropWhile_cons,if_pos hc,ih,squash_hyphen hc,if_pos rfl]
  | false=>
   rw [List.dropWhile_cons,hc,if_neg (by simp),squash_other hc,squash_other hc]

section Places
variable {c:Char}

theorem squash_append (hc:isHyphen c=false) (m1 m2:List Char) :
  ∀ h, squash h (m1 ++ c::m2)=squash h m1 ++ c::squash false m2 := by
 induction m1 with
 | nil=>exact fun h=>squash_other hc h m2
 | cons d ds ih=>
  intro h
  cases hd:isHyphen d with
  | true=>
   rw [List.cons_append,squash_hyphen hd,squash_hyphen hd,ih]
   cases h <;> rfl
  | false=>rw [List.cons_append,squash_other hd,squash_other hd,ih,List.cons_append]

theorem mem_take_squash (hc:isHyphen c=false) (m:List Char) :
  ∀ (h:Bool) (n:ℕ), c ∈ (squash h m).take n ↔
   ∃ m1 m2, m=m1 ++ c::m2 ∧ (squash h m1).length < n := by
 induction m with
 | nil=>
  intro h n
  simp [squash]
 | cons d ds ih=>
  intro h n
  constructor
  · intro hmem
    cases hd:isHyphen d with
    | true=>
     rw [squash_hyphen hd] at hmem
     cases h with
     | true=>
      obtain ⟨m1,m2,rfl,hlt⟩:=(ih true n).1 hmem
      refine ⟨d::m1,m2,rfl, ?_⟩
      rw [squash_hyphen hd]
      exact hlt
     | false=>
      cases n with
      | zero=>simp at hmem
      | succ n=>
       rcases List.mem_cons.1 hmem with rfl | hmem
       · rw [hc] at hd
         cases hd
       · obtain ⟨m1,m2,rfl,hlt⟩:=(ih true n).1 hmem
         refine ⟨d::m1,m2,rfl, ?_⟩
         rw [squash_hyphen hd]
         exact Nat.succ_lt_succ hlt
    | false=>
     rw [squash_other hd] at hmem
     cases n with
     | zero=>simp at hmem
     | succ n=>
      rcases List.mem_cons.1 hmem with rfl | hmem
      · exact ⟨[],ds,rfl,Nat.succ_pos n⟩
      · obtain ⟨m1,m2,rfl,hlt⟩:=(ih false n).1 hmem
        refine ⟨d::m1,m2,rfl, ?_⟩
        rw [squash_other hd]
        exact Nat.succ_lt_succ hlt
  · rintro ⟨m1,m2,heq,hlt⟩
    rw [heq,squash_append hc,List.take_append,List.mem_append]
    refine .inr ?_
    obtain ⟨k,hk⟩:=Nat.exists_eq_add_of_lt hlt
    have hsub:n-(squash h m1).length=k+1:=by omega
    rw [hsub]
    exact List.mem_cons_self

theorem rdropWhile_append (hc:isHyphen c=false) (m1 m2:List Char) :
  (m1 ++ c::m2).rdropWhile isHyphen=m1 ++ c::m2.rdropWhile isHyphen := by
 induction m2 using List.reverseRecOn with
 | nil=>exact List.rdropWhile_concat_neg _ _ _ (by simp [hc])
 | append_singleton m2 d ih=>
  have hassoc:m1 ++ c::(m2 ++ [d])=(m1 ++ c::m2) ++ [d]:=by simp
  rw [hassoc,List.rdropWhile_concat,List.rdropWhile_concat,ih]
  split <;> simp

theorem mem_rdropWhile (hc:isHyphen c=false) (m:List Char) :
  c ∈ m.rdropWhile isHyphen ↔ c ∈ m := by
 constructor
 · exact fun h=>(List.rdropWhile_prefix isHyphen m).subset h
 · intro h
   obtain ⟨m1,m2,rfl⟩:=List.append_of_mem h
   rw [rdropWhile_append hc]
   simp

theorem split_rdropWhile (hc:isHyphen c=false) (m m1:List Char) :
  (∃ m2, m.rdropWhile isHyphen=m1 ++ c::m2) ↔ ∃ m2, m=m1 ++ c::m2 := by
 constructor
 · rintro ⟨m2,h⟩
   obtain ⟨t,ht⟩:=List.rdropWhile_prefix isHyphen m
   exact ⟨m2 ++ t,by rw [←ht,h]; simp⟩
 · rintro ⟨m2,rfl⟩
   exact ⟨m2.rdropWhile isHyphen,rdropWhile_append hc m1 m2⟩

end Places

section Name
variable {u:Unicode} {c:Char}

/-- What of a name counts against the limit: the kept characters and one hyphen of each run. -/
def room (u:Unicode) : Bool → List Char → ℕ
 | _, []=>0
 | h, c::cs=>
  if isHyphen (sanitizeChar u c) then (if h then room u true cs else room u true cs+1)
  else room u false cs+1

theorem length_squash (t:List Char) :
  ∀ h, (squash h (t.map (sanitizeChar u))).length=room u h t := by
 induction t with
 | nil=>exact fun h=>rfl
 | cons c cs ih=>
  intro h
  simp only [List.map_cons,squash,room]
  split
  · cases h <;> simp [ih]
  · simp [ih]

def IsToolChar (c:Char) : Prop := c.isAlphanum=true ∨ c = '_' ∨ c = '-'

theorem unnamed_toolChar : ∀ c ∈ unnamed, IsToolChar c := by
 intro c hc
 have hall:unnamed.all fun c=>c.isAlphanum || c == '_' || c == '-' :=by decide
 simpa [IsToolChar,or_assoc] using List.all_eq_true.1 hall c hc

/-- The sanitised text before its length is cut, empty where nothing is left of the name. -/
def remaining (u:Unicode) (name:String) : List Char :=
 squash true ((name.toList.map (sanitizeChar u)).rdropWhile isHyphen)

theorem sanitizePropertyNameRaw_eq (name:String) :
  sanitizePropertyNameRaw u name =
   if remaining u name=[] then unnamed else remaining u name := by
 unfold sanitizePropertyNameRaw remaining
 simp only [collapseHyphens_eq,squash_dropWhile]

theorem sanitizeChar_kept (h:sanitizeChar u c ≠ '-') : sanitizeChar u c=c := by
 unfold sanitizeChar at h ⊢
 split
 · rfl
 · next hnot=>
   rw [if_neg hnot] at h
   exact absurd rfl h

/-- A letter or digit outside ASCII is in the sanitised name if there is room for it. -/
theorem mem_sanitizePropertyName (name:String) (hc:¬ IsToolChar c) :
  c ∈ sanitizePropertyName u name ↔ u.isAlphaNum c=true ∧
   ∃ pre post, name.toList=pre ++ c::post ∧ room u true pre < 60 := by
 have hhyphen:isHyphen c=false:=by
  rw [Bool.eq_false_iff]
  exact fun h=>hc (.inr (.inr (isHyphen_iff.1 h)))
 have hraw:c ∈ (sanitizePropertyNameRaw u name).take 60 ↔ c ∈ (remaining u name).take 60:=by
  rw [sanitizePropertyNameRaw_eq]
  split
  · next hempty=>
    rw [hempty]
    simp only [List.take_nil,List.not_mem_nil,iff_false]
    exact fun h=>hc (unnamed_toolChar c (List.mem_of_mem_take h))
  · exact Iff.rfl
 unfold sanitizePropertyName
 rw [mem_rdropWhile hhyphen,hraw,remaining,mem_take_squash hhyphen]
 constructor
 · rintro ⟨m1,m2,hsplit,hlt⟩
   obtain ⟨m2', hmap⟩:=(split_rdropWhile hhyphen _ m1).1 ⟨m2,hsplit⟩
   obtain ⟨pre,rest,hname,hpre,hrest⟩:=List.map_eq_append_iff.1 hmap
   obtain ⟨c', post,rfl,hc', -⟩:=List.map_eq_cons_iff.1 hrest
   have hkept:sanitizeChar u c' = c' :=sanitizeChar_kept fun h=>by
    rw [←hc', h] at hhyphen
    cases hhyphen
   obtain rfl : c' = c:=hkept.symm.trans hc'
   refine ⟨?_,pre,post,hname, ?_⟩
   · by_contra hnot
     have hne:c' ≠ '_' :=fun h=>hc (.inr (.inl h))
     have hne' : c' ≠ '-' :=fun h=>hc (.inr (.inr h))
     have hsan:sanitizeChar u c' = '-' :=by
      unfold sanitizeChar
      rw [if_neg (by simp [hnot,hne,hne'])]
     exact hne' (hkept.symm.trans hsan)
   · rw [←length_squash,hpre]
     exact hlt
 · rintro ⟨halnum,pre,post,hname,hlt⟩
   have hkept:sanitizeChar u c=c:=by
    unfold sanitizeChar
    rw [halnum]
    rfl
   have hmap:name.toList.map (sanitizeChar u) =
     pre.map (sanitizeChar u) ++ c::post.map (sanitizeChar u) := by
    rw [hname,List.map_append,List.map_cons,hkept]
   obtain ⟨m2,hm2⟩:=(split_rdropWhile hhyphen _ _).2 ⟨_,hmap⟩
   exact ⟨_,m2,hm2,by rw [length_squash]; exact hlt⟩

theorem length_sanitizePropertyName (u:Unicode) (name:String) :
  (sanitizePropertyName u name).length ≤ 60 :=
 (List.rdropWhile_prefix isHyphen _).length_le.trans (List.length_take_le _ _)

theorem digits_lt (n:ℕ) : n % 4096 < 16 ^ 3 := Nat.mod_lt _ (by decide)

theorem length_shortHashSuffix (t:String) : (shortHashSuffix t).length=3 := by
 unfold shortHashSuffix
 simp only [List.length_append,List.length_replicate]
 have hle:=(Nat.length_toDigits_le_iff (b := 16) (by decide) (by decide)).2
  (digits_lt (t.toList.foldl (fun acc c=>(acc*131+c.toNat) % 16777259) 1))
 omega

theorem digitChar_toolChar {d:ℕ} (hd:d < 16) : IsToolChar d.digitChar := by
 have hall:∀ d < 16, d.digitChar.isAlphanum=true:=by decide
 exact .inl (hall d hd)

theorem toDigits_toolChar (n:ℕ) : ∀ c ∈ Nat.toDigits 16 n, IsToolChar c := by
 induction n using Nat.strong_induction_on with
 | _ n ih=>
  intro c hc
  rw [Nat.toDigits_eq_if (by decide)] at hc
  split at hc
  · next hlt=>
    obtain rfl:=List.mem_singleton.1 hc
    exact digitChar_toolChar hlt
  · next hge=>
    rcases List.mem_append.1 hc with hc | hc
    · exact ih (n / 16) (Nat.div_lt_self (by omega) (by decide)) c hc
    · obtain rfl:=List.mem_singleton.1 hc
      exact digitChar_toolChar (Nat.mod_lt _ (by decide))

theorem shortHashSuffix_toolChar (t:String) : ∀ c ∈ shortHashSuffix t, IsToolChar c := by
 intro c hc
 rcases List.mem_append.1 hc with hc | hc
 · obtain rfl:=List.eq_of_mem_replicate hc
   exact .inl rfl
 · exact toDigits_toolChar _ c hc

theorem sanitizePropertyName_trimmed (u:Unicode) (name:String) :
  ((sanitizePropertyName u name).take 60).rdropWhile isHyphen=sanitizePropertyName u name := by
 rw [List.take_of_length_le (length_sanitizePropertyName u name)]
 exact List.rdropWhile_idempotent _ _

theorem length_disambiguate (u:Unicode) (name:String) :
  (disambiguate (sanitizePropertyName u name) name).length ≤ 64 := by
 unfold disambiguate
 rw [sanitizePropertyName_trimmed,List.length_append,List.length_cons,length_shortHashSuffix]
 have:=length_sanitizePropertyName u name
 omega

theorem mem_disambiguate (name:String) (hc:¬ IsToolChar c) :
  c ∈ disambiguate (sanitizePropertyName u name) name ↔ c ∈ sanitizePropertyName u name := by
 unfold disambiguate
 rw [sanitizePropertyName_trimmed,List.mem_append,List.mem_cons]
 refine or_iff_left ?_
 rintro (rfl | hmem)
 · exact hc (.inr (.inr rfl))
 · exact hc (shortHashSuffix_toolChar name c hmem)

end Name

end L4Ide.SanitizedNamesText
