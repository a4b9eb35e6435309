import RgspCast.Lib.Utf8

/-!
# Bracketed text

`Balanced` is the language of texts whose brackets match, where the brackets in string literals do
not count; the literals end at the first quote that no backslash escapes. An `Envelope` is such a
text in one pair of brackets. Nothing more of JSON has to be known to find where a document ends:
the rendering of every JSON array or object is an envelope (`envelope_render`).
-/

namespace Brackets

open Utf8

/-- An opening bracket, `{` or `[`. -/
def opens (byte : UInt8) : Bool := byte = 0x7B || byte = 0x5B

/-- A closing bracket, `}` or `]`. -/
def closes (byte : UInt8) : Bool := byte = 0x7D || byte = 0x5D

/-- `"`. -/
def quote : UInt8 := 0x22

/-- `\`. -/
def backslash : UInt8 := 0x5C

/-! ## Balanced bytes -/

/-- The inside of a string literal. -/
inductive StrBody : Bytes → Prop where
  | nil : StrBody []
  | plain {b : UInt8} {bs : Bytes} (hq : b ≠ quote) (hb : b ≠ backslash) (hbs : StrBody bs) :
      StrBody (b :: bs)
  | escape {b : UInt8} {bs : Bytes} (hbs : StrBody bs) : StrBody (backslash :: b :: bs)

/-- Bodies one after the other. -/
theorem StrBody.append {as bs : Bytes} (has : StrBody as) (hbs : StrBody bs) :
    StrBody (as ++ bs) := by
  induction has with
  | nil => exact hbs
  | plain hq hb _ ih => exact .plain hq hb ih
  | escape _ ih => exact .escape ih

/-- Text whose brackets match. -/
inductive Balanced : Bytes → Prop where
  | nil : Balanced []
  | byte {b : UInt8} {bs : Bytes} (ho : opens b = false) (hc : closes b = false)
      (hq : b ≠ quote) (hbs : Balanced bs) : Balanced (b :: bs)
  | string {s bs : Bytes} (hs : StrBody s) (hbs : Balanced bs) :
      Balanced (quote :: (s ++ quote :: bs))
  | nest {o c : UInt8} {body bs : Bytes} (ho : opens o = true) (hbody : Balanced body)
      (hc : closes c = true) (hbs : Balanced bs) : Balanced (o :: (body ++ c :: bs))

/-- Balanced bytes one after the other. -/
theorem Balanced.append {as bs : Bytes} (has : Balanced as) (hbs : Balanced bs) :
    Balanced (as ++ bs) := by
  induction has with
  | nil => exact hbs
  | byte ho hc hq _ ih => exact .byte ho hc hq ih
  | string hs _ ih => simpa using Balanced.string hs ih
  | nest ho hbody hc _ _ ih => simpa using Balanced.nest ho hbody hc ih

/-- A balanced text in a pair of brackets. -/
inductive Envelope : Bytes → Prop where
  | mk {o c : UInt8} {body : Bytes} (ho : opens o = true) (hbody : Balanced body)
      (hc : closes c = true) : Envelope (o :: (body ++ [c]))

/-- A document is balanced. -/
theorem Envelope.balanced {m : Bytes} (h : Envelope m) : Balanced m := by
  obtain ⟨ho, hbody, hc⟩ := h
  exact .nest ho hbody hc .nil

/-! ## JSON -/

/-- A character that ends no literal and opens nothing: what numbers, literal names, commas and
colons consist of. -/
def Plain (c : Char) : Prop :=
  c ≠ '{' ∧ c ≠ '[' ∧ c ≠ '}' ∧ c ≠ ']' ∧ c ≠ '"'

instance : DecidablePred Plain := fun c => by unfold Plain; infer_instance

/-- A character of a string literal. -/
inductive StrChar where
  | plain (c : Char) (hq : c ≠ '"') (hb : c ≠ '\\')
  | escape (c : Char)

def StrChar.render : StrChar → List Char
  | .plain c _ _ => [c]
  | .escape c => ['\\', c]

/-- A JSON value. -/
inductive Json where
  /-- A number, `true`, `false` or `null`. -/
  | scalar (text : List Char) (h : ∀ c ∈ text, Plain c)
  | string (text : List StrChar)
  | array (items : List Json)
  | object (members : List (List StrChar × Json))

/-- A string literal. -/
def renderString (text : List StrChar) : List Char := '"' :: (text.flatMap StrChar.render ++ ['"'])

mutual

/-- The text of a value, without insignificant whitespace. -/
def Json.render : Json → List Char
  | .scalar text _ => text
  | .string text => renderString text
  | .array items => '[' :: (renderItems items ++ [']'])
  | .object members => '{' :: (renderMembers members ++ ['}'])

def renderItems : List Json → List Char
  | [] => []
  | [item] => item.render
  | item :: items => item.render ++ ',' :: renderItems items

def renderMembers : List (List StrChar × Json) → List Char
  | [] => []
  | [(key, value)] => renderString key ++ ':' :: value.render
  | (key, value) :: members =>
    renderString key ++ ':' :: (value.render ++ ',' :: renderMembers members)

end

/-- The documents that are exchanged, an array or an object. -/
def Json.IsDocument : Json → Prop
  | .array _ | .object _ => True
  | .scalar _ _ | .string _ => False

/-! ## The bytes of a rendering -/

/-- A byte below `0x80` in the code of a character is the whole code. -/
theorem code_of_mem {c : Char} {b : UInt8} (h : b ∈ String.utf8EncodeChar c)
    (hb : b.toNat < 128) : String.utf8EncodeChar c = [b] ∧ c = Char.ofNat b.toNat := by
  revert h
  fun_cases String.utf8EncodeChar c <;> intro h
  case case1 v hv =>
    obtain rfl := List.mem_singleton.mp h
    have hmod : v % 2 ^ 8 = v := Nat.mod_eq_of_lt (by omega)
    rw [UInt8.toNat_ofNat', hmod]
    exact ⟨rfl, (Char.ofNat_toNat c).symm⟩
  all_goals
    exfalso
    simp only [List.mem_cons, List.not_mem_nil, or_false, ← UInt8.toNat_inj,
      UInt8.toNat_ofNat'] at h
    omega

/-- A character that is none of some ASCII characters has none of their codes. -/
theorem ne_of_mem_code {c d : Char} {b e : UInt8} (hb : b ∈ String.utf8EncodeChar c)
    (he : e.toNat < 128) (hd : Char.ofNat e.toNat = d) (hc : c ≠ d) : b ≠ e := by
  rintro rfl
  exact hc ((code_of_mem hb he).2.trans hd)

/-- Bytes without brackets and quotes are balanced. -/
theorem balanced_of_forall {bs : Bytes}
    (h : ∀ b ∈ bs, opens b = false ∧ closes b = false ∧ b ≠ quote) : Balanced bs := by
  induction bs with
  | nil => exact .nil
  | cons b bs ih =>
    obtain ⟨⟨ho, hc, hq⟩, hbs⟩ := List.forall_mem_cons.mp h
    exact .byte ho hc hq (ih hbs)

/-- So is a plain character. -/
theorem balanced_plain {c : Char} (h : Plain c) : Balanced (String.utf8EncodeChar c) := by
  refine balanced_of_forall fun b hb => ?_
  have h1 := ne_of_mem_code (e := 0x7B) hb (by decide) rfl h.1
  have h2 := ne_of_mem_code (e := 0x5B) hb (by decide) rfl h.2.1
  have h3 := ne_of_mem_code (e := 0x7D) hb (by decide) rfl h.2.2.1
  have h4 := ne_of_mem_code (e := 0x5D) hb (by decide) rfl h.2.2.2.1
  have h5 := ne_of_mem_code (e := quote) hb (by decide) rfl h.2.2.2.2
  exact ⟨by simp [opens, h1, h2], by simp [closes, h3, h4], h5⟩

/-- So is a number or a literal. -/
theorem balanced_scalar {text : List Char} (h : ∀ c ∈ text, Plain c) : Balanced (encode text) := by
  induction text with
  | nil => exact .nil
  | cons c text ih =>
    obtain ⟨hc, htext⟩ := List.forall_mem_cons.mp h
    exact (balanced_plain hc).append (ih htext)

/-- Bytes without quotes and backslashes are the body of a string. -/
theorem strBody_of_forall {bs : Bytes} (h : ∀ b ∈ bs, b ≠ quote ∧ b ≠ backslash) : StrBody bs := by
  induction bs with
  | nil => exact .nil
  | cons b bs ih =>
    obtain ⟨⟨hq, hb⟩, hbs⟩ := List.forall_mem_cons.mp h
    exact .plain hq hb (ih hbs)

/-- So is a character as it is written, escaped or not. -/
theorem strBody_strChar (s : StrChar) : StrBody (encode s.render) := by
  cases s with
  | plain c hq hb =>
    simp only [StrChar.render, encode_cons, encode_nil, List.append_nil]
    exact strBody_of_forall fun b hmem =>
      ⟨ne_of_mem_code hmem (by decide) rfl hq, ne_of_mem_code hmem (by decide) rfl hb⟩
  | escape c =>
    simp only [StrChar.render, encode_cons, encode_nil, List.append_nil]
    obtain ⟨b, bs, hcode⟩ := List.exists_cons_of_ne_nil (String.utf8EncodeChar_ne_nil (c := c))
    rw [hcode]
    refine StrBody.escape (strBody_of_forall fun e he => ?_)
    -- a second byte is no ASCII byte
    have hge : 128 ≤ e.toNat := by
      by_contra hlt
      have hmem : e ∈ String.utf8EncodeChar c := by rw [hcode]; exact List.mem_cons_of_mem b he
      have hone := (code_of_mem hmem (by omega)).1
      rw [hcode] at hone
      obtain ⟨-, rfl⟩ := List.cons.inj hone
      cases he
    constructor <;> rintro rfl <;> revert hge <;> decide

/-- So are all the characters of a string. -/
theorem strBody_render (text : List StrChar) : StrBody (encode (text.flatMap StrChar.render)) := by
  induction text with
  | nil => exact .nil
  | cons s text ih =>
    rw [List.flatMap_cons, encode_append]
    exact (strBody_strChar s).append ih

/-- A string in its quotes is balanced. -/
theorem balanced_renderString (text : List StrChar) : Balanced (encode (renderString text)) := by
  rw [renderString, encode_cons, encode_append]
  exact .string (strBody_render text) .nil

theorem balanced_comma : Balanced (encode [',']) :=
  balanced_scalar (List.forall_mem_singleton.mpr (by decide))

theorem balanced_colon : Balanced (encode [':']) :=
  balanced_scalar (List.forall_mem_singleton.mpr (by decide))

mutual

/-- The rendering of a value is balanced; by induction on the value. -/
theorem balanced_render : (j : Json) → Balanced (encode j.render)
  | .scalar _ h => by
    rw [Json.render]
    exact balanced_scalar h
  | .string text => by
    rw [Json.render]
    exact balanced_renderString text
  | .array items => by
    rw [Json.render, encode_cons, encode_append]
    exact .nest rfl (balanced_renderItems items) rfl .nil
  | .object members => by
    rw [Json.render, encode_cons, encode_append]
    exact .nest rfl (balanced_renderMembers members) rfl .nil

/-- The items of an array are, by induction over them. -/
theorem balanced_renderItems : (items : List Json) → Balanced (encode (renderItems items))
  | [] => .nil
  | [item] => by
    rw [renderItems]
    exact balanced_render item
  | item :: next :: items => by
    rw [renderItems, List.append_cons, encode_append, encode_append]
    · exact ((balanced_render item).append balanced_comma).append
        (balanced_renderItems (next :: items))
    · simp

/-- The members of an object are balanced, by induction over them. -/
theorem balanced_renderMembers :
    (members : List (List StrChar × Json)) → Balanced (encode (renderMembers members))
  | [] => .nil
  | [(key, value)] => by
    rw [renderMembers, List.append_cons, encode_append, encode_append]
    exact ((balanced_renderString key).append balanced_colon).append (balanced_render value)
  | (key, value) :: next :: members => by
    rw [renderMembers, List.append_cons, List.append_cons _ ',', encode_append, encode_append,
      encode_append, encode_append]
    · exact ((balanced_renderString key).append balanced_colon).append
        (((balanced_render value).append balanced_comma).append
          (balanced_renderMembers (next :: members)))
    · simp

end

/-- **A document is an envelope.** -/
theorem envelope_render {j : Json} (h : j.IsDocument) : Envelope (encode j.render) := by
  cases j with
  | scalar => exact h.elim
  | string => exact h.elim
  | array items =>
    rw [Json.render, encode_cons, encode_append]
    exact .mk rfl (balanced_renderItems items) rfl
  | object members =>
    rw [Json.render, encode_cons, encode_append]
    exact .mk rfl (balanced_renderMembers members) rfl

end Brackets
