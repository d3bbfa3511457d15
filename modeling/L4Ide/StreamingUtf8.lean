import Mathlib.Data.List.Basic

set_option autoImplicit false

/-!
# Decoding UTF-8 as it arrives

The streaming decoder of UTF-8, one byte at a time. What it makes of a text does not depend on where
the bytes of the text are cut.
-/
namespace L4Ide.StreamingUtf8

def BOM : Char := '\uFEFF'

def REPLACEMENT : Char := '\uFFFD'

/-- A decoder between bytes: the code point read so far, the bytes it still needs, the bounds of the
    next byte, and whether the place for a byte order mark has passed. -/
structure TextDecoder where
 codePoint : ℕ
 needed : ℕ
 lower : ℕ
 upper : ℕ
 bomSeen : Bool
 deriving DecidableEq

namespace TextDecoder

def ready (bomSeen:Bool) : TextDecoder := ⟨0,0,0x80,0xBF,bomSeen⟩

def new : TextDecoder := ready false

def emit (c:Char) (bomSeen:Bool) : TextDecoder × List Char :=
 (ready true,if !bomSeen && c == BOM then [] else [c])

def first (b:ℕ) (bomSeen:Bool) : TextDecoder × List Char :=
 if b ≤ 0x7F then emit (Char.ofNat b) bomSeen
 else if 0xC2 ≤ b ∧ b ≤ 0xDF then (⟨b % 0x20,1,0x80,0xBF,bomSeen⟩,[])
 else if 0xE0 ≤ b ∧ b ≤ 0xEF then
  (⟨b % 0x10,2,if b=0xE0 then 0xA0 else 0x80,if b=0xED then 0x9F else 0xBF,bomSeen⟩,[])
 else if 0xF0 ≤ b ∧ b ≤ 0xF4 then
  (⟨b % 0x08,3,if b=0xF0 then 0x90 else 0x80,if b=0xF4 then 0x8F else 0xBF,bomSeen⟩,[])
 else emit REPLACEMENT bomSeen

def feedNat (b:ℕ) (d:TextDecoder) : TextDecoder × List Char :=
 if d.needed=0 then first b d.bomSeen
 else if d.lower ≤ b ∧ b ≤ d.upper then
  let codePoint:=d.codePoint*0x40+b % 0x40
  if d.needed=1 then emit (Char.ofNat codePoint) d.bomSeen
  else (⟨codePoint,d.needed-1,0x80,0xBF,d.bomSeen⟩,[])
 else
  -- the byte that does not belong begins the next character
  let replaced:=emit REPLACEMENT d.bomSeen
  let next:=first b true
  (next.1,replaced.2 ++ next.2)

def feed (b:UInt8) (d:TextDecoder) : TextDecoder × List Char := feedNat b.toNat d

def decode : List UInt8 → TextDecoder → TextDecoder × List Char
 | [], d=>(d,[])
 | b::bytes, d=>
  let fed:=feed b d
  let rest:=decode bytes fed.1
  (rest.1,fed.2 ++ rest.2)

@[simp] theorem decode_nil (d:TextDecoder) : decode [] d=(d,[]) := rfl

@[simp] theorem decode_cons (b:UInt8) (bytes:List UInt8) (d:TextDecoder) :
  decode (b::bytes) d =
   ((decode bytes (feed b d).1).1,(feed b d).2 ++ (decode bytes (feed b d).1).2) := rfl

theorem decode_append (bytes more:List UInt8) (d:TextDecoder) :
  decode (bytes ++ more) d =
   ((decode more (decode bytes d).1).1,(decode bytes d).2 ++ (decode more (decode bytes d).1).2) := by
 induction bytes generalizing d with
 | nil=>rfl
 | cons b bytes ih=>
  rw [List.cons_append,decode_cons,ih,decode_cons]
  simp only [List.append_assoc]

theorem feed_ofNat {n:ℕ} (h:n < 256) (d:TextDecoder) : feed (UInt8.ofNat n) d=feedNat n d := by
 rw [feed,UInt8.toNat_ofNat', Nat.mod_eq_of_lt h]

theorem feedNat_more {b:ℕ} {d:TextDecoder} {k:ℕ} (hneeded:d.needed=k+2)
  (hlower:d.lower ≤ b) (hupper:b ≤ d.upper) :
  feedNat b d=(⟨d.codePoint*0x40+b % 0x40,k+1,0x80,0xBF,d.bomSeen⟩,[]) := by
 simp [feedNat,hneeded,hlower,hupper]

theorem feedNat_last {b:ℕ} {d:TextDecoder} (hneeded:d.needed=1) (hlower:d.lower ≤ b)
  (hupper:b ≤ d.upper) :
  feedNat b d=emit (Char.ofNat (d.codePoint*0x40+b % 0x40)) d.bomSeen := by
 simp [feedNat,hneeded,hlower,hupper]

theorem feedNat_ready (b:ℕ) (bomSeen:Bool) : feedNat b (ready bomSeen)=first b bomSeen := rfl

theorem decode_cons_of_feed {b:UInt8} {bytes:List UInt8} {d next:TextDecoder}
  (h:feed b d=(next,[])) : decode (b::bytes) d=decode bytes next := by
 rw [decode_cons,h]
 rfl

theorem decode_singleton (b:UInt8) (d:TextDecoder) : decode [b] d=feed b d := by
 rw [decode_cons,decode_nil,List.append_nil]

theorem decode_two {a b:ℕ} (ha:0xC2 ≤ a ∧ a ≤ 0xDF) (hb:0x80 ≤ b ∧ b ≤ 0xBF)
  (bomSeen:Bool) : decode [UInt8.ofNat a,UInt8.ofNat b] (ready bomSeen) =
   emit (Char.ofNat (a % 0x20*0x40+b % 0x40)) bomSeen := by
 have hfirst:feed (UInt8.ofNat a) (ready bomSeen)=(⟨a % 0x20,1,0x80,0xBF,bomSeen⟩,[]):=by
  rw [feed_ofNat (by omega),feedNat_ready,first,if_neg (by omega),if_pos ha]
 rw [decode_cons_of_feed hfirst,decode_singleton,feed_ofNat (by omega)]
 exact feedNat_last rfl hb.1 hb.2

theorem decode_three {a b c:ℕ} (ha:0xE0 ≤ a ∧ a ≤ 0xEF)
  (hb:(if a=0xE0 then 0xA0 else 0x80) ≤ b ∧ b ≤ if a=0xED then 0x9F else 0xBF)
  (hc:0x80 ≤ c ∧ c ≤ 0xBF) (bomSeen:Bool) :
  decode [UInt8.ofNat a,UInt8.ofNat b,UInt8.ofNat c] (ready bomSeen) =
   emit (Char.ofNat ((a % 0x10*0x40+b % 0x40)*0x40+c % 0x40)) bomSeen := by
 have hb' : b ≤ 0xBF:=by
  have hle:=hb.2
  split at hle <;> omega
 have hfirst:feed (UInt8.ofNat a) (ready bomSeen)=(⟨a % 0x10,2,if a=0xE0 then 0xA0 else 0x80,
   if a=0xED then 0x9F else 0xBF,bomSeen⟩,[]) := by
  rw [feed_ofNat (by omega),feedNat_ready,first,if_neg (by omega),if_neg (by omega),
   if_pos ha]
 rw [decode_cons_of_feed hfirst]
 rw [decode_cons_of_feed ((feed_ofNat (by omega) _).trans (feedNat_more rfl hb.1 hb.2))]
 rw [decode_singleton,feed_ofNat (by omega)]
 exact feedNat_last rfl hc.1 hc.2

theorem decode_four {a b c d:ℕ} (ha:0xF0 ≤ a ∧ a ≤ 0xF4)
  (hb:(if a=0xF0 then 0x90 else 0x80) ≤ b ∧ b ≤ if a=0xF4 then 0x8F else 0xBF)
  (hc:0x80 ≤ c ∧ c ≤ 0xBF) (hd:0x80 ≤ d ∧ d ≤ 0xBF) (bomSeen:Bool) :
  decode [UInt8.ofNat a,UInt8.ofNat b,UInt8.ofNat c,UInt8.ofNat d] (ready bomSeen) =
   emit (Char.ofNat (((a % 0x08*0x40+b % 0x40)*0x40+c % 0x40)*0x40+d % 0x40))
    bomSeen := by
 have hb' : b ≤ 0xBF:=by
  have hle:=hb.2
  split at hle <;> omega
 have hfirst:feed (UInt8.ofNat a) (ready bomSeen)=(⟨a % 0x08,3,if a=0xF0 then 0x90 else 0x80,
   if a=0xF4 then 0x8F else 0xBF,bomSeen⟩,[]) := by
  rw [feed_ofNat (by omega),feedNat_ready,first,if_neg (by omega),if_neg (by omega),
   if_neg (by omega),if_pos ha]
 rw [decode_cons_of_feed hfirst]
 rw [decode_cons_of_feed ((feed_ofNat (by omega) _).trans (feedNat_more rfl hb.1 hb.2))]
 rw [decode_cons_of_feed ((feed_ofNat (by omega) _).trans (feedNat_more rfl hc.1 hc.2))]
 rw [decode_singleton,feed_ofNat (by omega)]
 exact feedNat_last rfl hd.1 hd.2

/-- The bytes of a character decode to it, from between characters to between characters. -/
theorem decode_utf8EncodeChar (c:Char) (bomSeen:Bool) :
  decode (String.utf8EncodeChar c) (ready bomSeen)=emit c bomSeen := by
 have hvalid:c.val.toNat < 0xD800 ∨ 0xDFFF < c.val.toNat ∧ c.val.toNat < 0x110000:=c.valid
 have hchar:Char.ofNat c.val.toNat=c:=Char.ofNat_toNat c
 unfold String.utf8EncodeChar
 dsimp only
 generalize c.val.toNat=v at *
 split
 · rw [decode_singleton,feed_ofNat (by omega),feedNat_ready,first,if_pos (by omega),hchar]
 · split
   · rw [decode_two (by omega) (by omega)]
     have hpoint:(v / 64 % 32+192) % 32*64+(v % 64+128) % 64=v:=by omega
     rw [hpoint,hchar]
   · split
     · rw [decode_three (by omega) (by constructor <;> split <;> omega) (by omega)]
       have hpoint:((v / 4096 % 16+224) % 16*64+(v / 64 % 64+128) % 64)*64 +
         (v % 64+128) % 64=v := by omega
       rw [hpoint,hchar]
     · rw [decode_four (by omega) (by constructor <;> split <;> omega) (by omega) (by omega)]
       have hpoint:(((v / 262144 % 8+240) % 8*64+(v / 4096 % 64+128) % 64)*64 +
         (v / 64 % 64+128) % 64)*64+(v % 64+128) % 64=v := by omega
       rw [hpoint,hchar]

def encode (text:List Char) : List UInt8 := text.flatMap String.utf8EncodeChar

theorem decode_encode_ready (text:List Char) :
  decode (encode text) (ready true)=(ready true,text) := by
 induction text with
 | nil=>rfl
 | cons c text ih=>
  rw [encode,List.flatMap_cons,←encode,decode_append,decode_utf8EncodeChar]
  simp [emit,ih]

theorem decode_encode {text:List Char} (h:text.head? ≠ some BOM) :
  (decode (encode text) new).2=text := by
 cases text with
 | nil=>rfl
 | cons c text=>
  have hbom:(c == BOM)=false:=by
   simpa using h
  rw [encode,List.flatMap_cons,←encode,decode_append,new,decode_utf8EncodeChar]
  simp [emit,hbom,decode_encode_ready]

end TextDecoder

end L4Ide.StreamingUtf8
