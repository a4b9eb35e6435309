import Mathlib.Data.Nat.Notation
import Mathlib.Data.List.Basic

/-!
# Texts and their UTF-8 bytes

`encode` and `decode` on lists, over the core library's decoder. The encoding is prefix-free
(`encode_prefix_iff`), and a line feed or a NUL is one in either reading (`toNat_eq_of_mem`), so
that what is asked of the lines of a text can be asked of its bytes.
-/

namespace Utf8

/-- A byte string. -/
abbrev Bytes := List UInt8

/-- The bytes of a text. -/
def encode (cs : List Char) : Bytes := cs.flatMap String.utf8EncodeChar

/-- The text that the bytes encode. -/
def decode (bs : Bytes) : Option (List Char) := bs.toByteArray.utf8Decode?.map Array.toList

/-- The bytes encode a text. -/
def Valid (bs : Bytes) : Prop := bs.toByteArray.IsValidUTF8

instance : DecidablePred Valid := fun bs => inferInstanceAs (Decidable bs.toByteArray.IsValidUTF8)

@[simp] theorem encode_nil : encode [] = [] := rfl

@[simp] theorem encode_cons (c : Char) (cs : List Char) :
    encode (c :: cs) = String.utf8EncodeChar c ++ encode cs := rfl

@[simp] theorem encode_append (as bs : List Char) : encode (as ++ bs) = encode as ++ encode bs :=
  List.flatMap_append

/-- The encoding is that of Lean. -/
theorem toByteArray_encode (cs : List Char) : (encode cs).toByteArray = cs.utf8Encode := rfl

/-- A byte array is its list. -/
theorem toByteArray_inj {as bs : Bytes} (h : as.toByteArray = bs.toByteArray) : as = bs := by
  simpa using congrArg (fun b => b.data.toList) h

/-- What is encoded is decoded. -/
@[simp] theorem decode_encode (cs : List Char) : decode (encode cs) = some cs := by
  rw [decode, toByteArray_encode, List.utf8Decode?_utf8Encode]
  rfl

/-- An encoded text is valid. -/
theorem valid_encode (cs : List Char) : Valid (encode cs) := ByteArray.isValidUTF8_utf8Encode

/-- What is decoded has been encoded. -/
theorem decode_eq_some_iff {bs : Bytes} {cs : List Char} :
    decode bs = some cs ↔ bs = encode cs := by
  constructor
  · intro h
    obtain ⟨cs', hcs', rfl⟩ := Option.map_eq_some_iff.mp h
    have hsome : bs.toByteArray.utf8Decode?.isSome := by rw [hcs']; rfl
    have hget := ByteArray.utf8Encode_get_utf8Decode? (h := hsome)
    simp only [hcs', Option.get_some] at hget
    exact toByteArray_inj hget.symm
  · rintro rfl
    exact decode_encode cs

/-- The valid bytes are the encoded texts. -/
theorem valid_iff {bs : Bytes} : Valid bs ↔ ∃ cs, bs = encode cs := by
  constructor
  · rintro ⟨cs, h⟩
    exact ⟨cs, toByteArray_inj h⟩
  · rintro ⟨cs, rfl⟩
    exact valid_encode cs

/-- The others are not decoded. -/
theorem decode_eq_none_iff {bs : Bytes} : decode bs = none ↔ ¬ Valid bs := by
  rw [valid_iff, Option.eq_none_iff_forall_ne_some, not_exists]
  exact forall_congr' fun cs => not_congr decode_eq_some_iff

/-- The first character is read back, whatever follows it. -/
theorem char_eq_of_append_eq {c d : Char} {as bs : Bytes}
    (h : String.utf8EncodeChar c ++ as = String.utf8EncodeChar d ++ bs) : c = d := by
  have hc := ByteArray.utf8DecodeChar?_utf8EncodeChar_append (b := as.toByteArray) (c := c)
  have hd := ByteArray.utf8DecodeChar?_utf8EncodeChar_append (b := bs.toByteArray) (c := d)
  rw [← List.toByteArray_append] at hc hd
  rw [h, hd] at hc
  exact (Option.some.inj hc).symm

/-- No encoding is a prefix of another, unless the text is. -/
theorem encode_prefix_iff {as cs : List Char} : encode as <+: encode cs ↔ as <+: cs := by
  constructor
  · intro h
    induction as generalizing cs with
    | nil => exact List.nil_prefix
    | cons a as ih =>
      obtain ⟨rest, hrest⟩ := h
      cases cs with
      | nil => simp [String.utf8EncodeChar_ne_nil] at hrest
      | cons c cs =>
        rw [encode_cons, encode_cons, List.append_assoc] at hrest
        obtain rfl := char_eq_of_append_eq hrest
        exact (List.prefix_cons_inj a).mpr (ih ⟨rest, List.append_cancel_left hrest⟩)
  · rintro ⟨rest, rfl⟩
    rw [encode_append]
    exact List.prefix_append _ _

/-- A line feed. -/
def lineFeed : UInt8 := 10

/-- A NUL. -/
def nul : UInt8 := 0

/-- A line feed is one byte. -/
@[simp] theorem utf8EncodeChar_newline : String.utf8EncodeChar '\n' = [lineFeed] := rfl

/-- So is a NUL. -/
@[simp] theorem utf8EncodeChar_nul : String.utf8EncodeChar '\x00' = [nul] := rfl

/-- A byte of seven bits is the code of a character alone: the bytes of every longer code are above
`0x7f`. -/
theorem toNat_eq_of_mem {c : Char} {b : UInt8} (hb : b.toNat < 0x80)
    (h : b ∈ String.utf8EncodeChar c) : c.val.toNat = b.toNat := by
  revert h
  fun_cases String.utf8EncodeChar c <;> intro h
  case case1 v hv =>
    have hmod := congrArg UInt8.toNat (List.mem_singleton.mp h)
    rw [UInt8.toNat_ofNat'] at hmod
    omega
  all_goals
    exfalso
    simp only [List.mem_cons, List.not_mem_nil, or_false, ← UInt8.toNat_inj,
      UInt8.toNat_ofNat'] at h
    omega

/-- The byte of a line feed is in no other character. -/
theorem eq_newline_of_mem {c : Char} (h : lineFeed ∈ String.utf8EncodeChar c) : c = '\n' :=
  Char.ext (UInt32.toNat.inj (toNat_eq_of_mem (by decide) h))

/-- Nor is that of a NUL. -/
theorem eq_nul_of_mem {c : Char} (h : nul ∈ String.utf8EncodeChar c) : c = '\x00' :=
  Char.ext (UInt32.toNat.inj (toNat_eq_of_mem (by decide) h))

end Utf8
