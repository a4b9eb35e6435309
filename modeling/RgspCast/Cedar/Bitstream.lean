import Mathlib.Data.List.TakeWhile
import RgspCast.Lib.NalFraming

/-!
# Annex-B / AVCC byte handling

The functions of `bitstream.rs`, and what each computes in terms of the two NAL framings:

* `parseAvcc_eq_some_iff` says which byte strings the AVCC parse accepts, trailing bytes included.
* `appended` is what `append_avcc_as_annexb` adds to its output; it is never longer than the input
  (`length_appended_le`) and as long only where the input is Annex-B or one framed list
  (`exists_avcc_of_length_appended`).
* `appendAvccAsAnnexb_avcc_iff` says which lists of units are converted unit by unit.
* `allOrNothing_iff` says when the conversion is all or nothing.
* `types_mixed_append` says that the start-code walk reads back the types of well-formed units in
  front of any bytes; `walker_exact` is what that makes of the two questions asked of the types.
* `avccRecordToAnnexb_of_record` says that an avcC record is converted set by set.
-/

namespace RgspCast.Bitstream

open Nal

/-! ## `append_avcc_as_annexb` -/

/-- The parse loop of `append_avcc_as_annexb` on the bytes from `off` on: the units it collects, or
`none` where the source returns 0. A round takes at least five bytes, so a `fuel` of the length of
the input is never used up. -/
def parseAvcc : ℕ → Bytes → Option (List Bytes)
  | fuel + 1, b0 :: b1 :: b2 :: b3 :: rest =>
    let len := ofBe32 b0 b1 b2 b3
    if len = 0 ∨ rest.length < len then none
    else (parseAvcc fuel (rest.drop len)).map (rest.take len :: ·)
  | _, _ => some []

/-- Append AVCC to `out` as Annex-B: the return value and `out` afterwards. Input that starts with
a start code passes through; input that does not parse returns 0 and leaves `out` as it was. -/
def appendAvccAsAnnexb (out d : Bytes) : ℕ × Bytes :=
  if 4 ≤ d.length ∧ d.take 4 = startCode then (d.length, out ++ d)
  else
    match parseAvcc d.length d with
    | none => (0, out)
    | some nals => ((nals.map (4 + ·.length)).sum, out ++ annexB nals)

/-- With fewer than four bytes left the loop ends. -/
theorem parseAvcc_short {fuel : ℕ} {d : Bytes} (h : d.length < 4) :
    parseAvcc fuel d = some [] := by
  rcases d with _ | ⟨b0, _ | ⟨b1, _ | ⟨b2, _ | ⟨b3, rest⟩⟩⟩⟩
  case cons.cons.cons.cons =>
    simp only [List.length_cons] at h
    omega
  all_goals simp [parseAvcc]

/-- A string too short for a length field frames the empty list only. -/
theorem eq_nil_of_short {d tail : Bytes} {ns : List Bytes} (h : d.length < 4)
    (hd : d = avcc ns ++ tail) : ns = [] := by
  cases ns with
  | nil => rfl
  | cons n ns =>
    rw [hd, avcc_cons] at h
    simp only [List.length_append, length_be32] at h
    omega

/-- The units the parse accepts: the input is their length framing, with up to three bytes left
over. -/
theorem parseAvcc_eq_some_iff {fuel : ℕ} {d : Bytes} {ns : List Bytes} (hfuel : d.length ≤ fuel) :
    parseAvcc fuel d = some ns ↔
      (∀ n ∈ ns, n ≠ [] ∧ n.length < 2 ^ 32) ∧ ∃ tail, d = avcc ns ++ tail ∧ tail.length < 4 := by
  induction fuel generalizing d ns with
  | zero =>
    have hshort : d.length < 4 := by omega
    rw [parseAvcc_short hshort, Option.some.injEq]
    constructor
    · rintro rfl
      exact ⟨by simp, d, rfl, hshort⟩
    · rintro ⟨-, tail, hd, -⟩
      exact (eq_nil_of_short hshort hd).symm
  | succ fuel ih =>
    rcases d with _ | ⟨b0, _ | ⟨b1, _ | ⟨b2, _ | ⟨b3, rest⟩⟩⟩⟩
    case cons.cons.cons.cons =>
      have hdrop : (rest.drop (ofBe32 b0 b1 b2 b3)).length ≤ fuel := by
        simp only [List.length_cons] at hfuel
        simp only [List.length_drop]
        omega
      simp only [parseAvcc]
      constructor
      · -- the first length field names the first unit
        intro h
        split at h
        next => cases h
        next hlen =>
          obtain ⟨ns', hns', rfl⟩ := Option.map_eq_some_iff.mp h
          obtain ⟨hall, tail, hrest, htail⟩ := (ih hdrop).mp hns'
          have htake : (rest.take (ofBe32 b0 b1 b2 b3)).length = ofBe32 b0 b1 b2 b3 := by
            rw [List.length_take]
            omega
          refine ⟨List.forall_mem_cons.mpr ⟨⟨?_, ?_⟩, hall⟩, tail, ?_, htail⟩
          · intro hnil
            rw [hnil, List.length_nil] at htake
            omega
          · rw [htake]
            exact ofBe32_lt b0 b1 b2 b3
          · rw [avcc_cons, htake, be32_ofBe32, List.append_assoc, List.append_assoc, ← hrest,
              List.take_append_drop]
            rfl
      · rintro ⟨hall, tail, hd, htail⟩
        cases ns with
        | nil =>
          have := congrArg List.length hd
          simp only [avcc_nil, List.nil_append, List.length_cons] at this
          omega
        | cons n ns =>
          obtain ⟨⟨hne, hlt⟩, hall⟩ := List.forall_mem_cons.mp hall
          simp only [avcc_cons, be32, List.cons_append, List.nil_append, List.append_assoc,
            List.cons.injEq] at hd
          obtain ⟨rfl, rfl, rfl, rfl, rfl⟩ := hd
          rw [ofBe32_of_be32 hlt] at hdrop ⊢
          have hpos : n.length ≠ 0 := fun h => hne (List.length_eq_zero_iff.mp h)
          rw [if_neg (by simp only [List.length_append]; omega), List.take_left,
            List.drop_left, (ih (by simpa using hdrop)).mpr ⟨hall, tail, rfl, htail⟩]
          rfl
    all_goals
      rw [parseAvcc_short (by simp), Option.some.injEq]
      constructor
      · rintro rfl
        exact ⟨by simp, _, rfl, by simp⟩
      · rintro ⟨-, tail, hd, -⟩
        exact (eq_nil_of_short (by simp) hd).symm

/-- The bytes `append_avcc_as_annexb` adds to its output. -/
def appended (d : Bytes) : Bytes := (appendAvccAsAnnexb [] d).2

/-- What the function appends does not depend on what is there. -/
theorem appendAvccAsAnnexb_snd (out d : Bytes) :
    (appendAvccAsAnnexb out d).2 = out ++ appended d := by
  unfold appended appendAvccAsAnnexb
  split
  · simp
  · split <;> simp

/-- The comparison of the source says that the data begin with a start code. -/
theorem take_eq_startCode_iff {d : Bytes} :
    (4 ≤ d.length ∧ d.take 4 = startCode) ↔ startCode <+: d := by
  rw [List.prefix_iff_eq_take]
  constructor
  · rintro ⟨-, h⟩
    exact h.symm
  · intro h
    have hlen := congrArg List.length h
    simp only [startCode, List.length_cons, List.length_nil, List.length_take] at hlen
    exact ⟨by omega, h.symm⟩

/-- Annex-B input passes through. -/
theorem appended_of_startCode {d : Bytes} (h : startCode <+: d) : appended d = d := by
  rw [appended, appendAvccAsAnnexb, if_pos (take_eq_startCode_iff.mpr h)]
  rfl

/-- A framed list is converted unit by unit, and up to three bytes behind it are dropped. -/
theorem appended_of_avcc {ns : List Bytes} {tail : Bytes} (hstart : ¬ startCode <+: avcc ns ++ tail)
    (hns : ∀ n ∈ ns, n ≠ [] ∧ n.length < 2 ^ 32) (htail : tail.length < 4) :
    appended (avcc ns ++ tail) = annexB ns := by
  have hparse := (parseAvcc_eq_some_iff (Nat.le_refl (avcc ns ++ tail).length)).mpr
    ⟨hns, tail, rfl, htail⟩
  rw [appended, appendAvccAsAnnexb, if_neg (fun h => hstart (take_eq_startCode_iff.mp h)), hparse]
  rfl

/-- What is appended: all of an Annex-B input, the units of an AVCC input, or nothing. -/
theorem appended_cases (d : Bytes) :
    (startCode <+: d ∧ appended d = d) ∨ appended d = [] ∨
      ∃ ns tail, d = avcc ns ++ tail ∧ (∀ n ∈ ns, n ≠ []) ∧ appended d = annexB ns := by
  by_cases hstart : startCode <+: d
  · exact Or.inl ⟨hstart, appended_of_startCode hstart⟩
  · refine Or.inr ?_
    cases hparse : parseAvcc d.length d with
    | none =>
      refine Or.inl ?_
      rw [appended, appendAvccAsAnnexb, if_neg (fun h => hstart (take_eq_startCode_iff.mp h)),
        hparse]
    | some ns =>
      obtain ⟨hns, tail, rfl, htail⟩ := (parseAvcc_eq_some_iff (Nat.le_refl _)).mp hparse
      exact Or.inr ⟨ns, tail, rfl, fun n hn => (hns n hn).1, appended_of_avcc hstart hns htail⟩

/-- Nothing is appended that is longer than the input. -/
theorem length_appended_le (d : Bytes) : (appended d).length ≤ d.length := by
  rcases appended_cases d with ⟨-, h⟩ | h | ⟨ns, tail, rfl, -, h⟩
  · exact Nat.le_of_eq (congrArg List.length h)
  · simp [h]
  · rw [h, length_annexB, List.length_append]
    omega

/-- Input that is used to its last byte is Annex-B or exactly a framed list. -/
theorem exists_avcc_of_length_appended {d : Bytes} (h : d.length ≤ (appended d).length) :
    startCode <+: d ∨ ∃ ns, d = avcc ns ∧ ∀ n ∈ ns, n ≠ [] := by
  rcases appended_cases d with ⟨hstart, -⟩ | hnil | ⟨ns, tail, rfl, hns, hout⟩
  · exact Or.inl hstart
  · rw [hnil, List.length_nil, Nat.le_zero, List.length_eq_zero_iff] at h
    exact Or.inr ⟨[], h, by simp⟩
  · rw [hout, length_annexB, List.length_append] at h
    obtain rfl : tail = [] := List.length_eq_zero_iff.mp (by omega)
    exact Or.inr ⟨ns, by simp, hns⟩

/-- The units the parse collects add up to the bytes they are framed in. -/
theorem sum_length_units (ns : List Bytes) : (ns.map (4 + ·.length)).sum = (avcc ns).length := by
  induction ns with
  | nil => rfl
  | cons n ns ih =>
    rw [List.map_cons, List.sum_cons, ih, avcc_cons]
    simp only [List.length_append, length_be32]
    omega

/-- Annex-B input is returned at its length. -/
theorem appendAvccAsAnnexb_of_startCode {d : Bytes} (h : startCode <+: d) (out : Bytes) :
    appendAvccAsAnnexb out d = (d.length, out ++ d) :=
  if_pos (take_eq_startCode_iff.mpr h)

/-- A framed list that does not look like Annex-B is converted, and returned at its length. Up to
three bytes behind it go neither into the output nor into the return value. -/
theorem appendAvccAsAnnexb_of_tail {ns : List Bytes} {tail : Bytes}
    (hstart : ¬ startCode <+: avcc ns ++ tail) (hns : ∀ n ∈ ns, n ≠ [] ∧ n.length < 2 ^ 32)
    (htail : tail.length < 4) (out : Bytes) :
    appendAvccAsAnnexb out (avcc ns ++ tail) = ((avcc ns).length, out ++ annexB ns) := by
  have hparse := (parseAvcc_eq_some_iff (Nat.le_refl (avcc ns ++ tail).length)).mpr
    ⟨hns, tail, rfl, htail⟩
  rw [appendAvccAsAnnexb, if_neg (fun h => hstart (take_eq_startCode_iff.mp h)), hparse]
  show ((ns.map (4 + ·.length)).sum, out ++ annexB ns) = _
  rw [sum_length_units]

/-- Units of the AVCC format come out in the Annex-B format, in their order. -/
theorem appendAvccAsAnnexb_of_avcc {ns : List Bytes} (hstart : ¬ startCode <+: avcc ns)
    (hns : ∀ n ∈ ns, n ≠ [] ∧ n.length < 2 ^ 32) (out : Bytes) :
    appendAvccAsAnnexb out (avcc ns) = ((avcc ns).length, out ++ annexB ns) := by
  have h := @appendAvccAsAnnexb_of_tail ns [] (by rwa [List.append_nil]) hns (by decide) out
  rwa [List.append_nil] at h

/-- **A nonempty list of units is converted unit by unit, and the length of the input returned,
unless** the first unit is one byte long, so that its length field is taken for a start code, and
another one is not. -/
theorem appendAvccAsAnnexb_avcc_iff (out n : Bytes) (ns : List Bytes)
    (hns : ∀ m ∈ n :: ns, m ≠ [] ∧ m.length < 2 ^ 32) :
    appendAvccAsAnnexb out (avcc (n :: ns)) = ((avcc (n :: ns)).length, out ++ annexB (n :: ns)) ↔
      (n.length = 1 → ∀ m ∈ ns, m.length = 1) := by
  have hlt : ∀ m ∈ n :: ns, m.length < 2 ^ 32 := fun m hm => (hns m hm).2
  have hstart : startCode <+: avcc (n :: ns) ↔ n.length = 1 :=
    startCode_prefix_avcc_cons_iff (hlt n List.mem_cons_self)
  by_cases hone : n.length = 1
  · -- the input passes through, which is right where the two framings agree
    rw [appendAvccAsAnnexb_of_startCode (hstart.mpr hone), Prod.mk.injEq, eq_self_iff_true,
      true_and, List.append_cancel_left_eq, avcc_eq_annexB_iff_of_units hlt, List.forall_mem_cons]
    constructor
    · rintro ⟨-, hall⟩ -
      exact hall
    · intro h
      exact ⟨hone, h hone⟩
  · rw [appendAvccAsAnnexb_of_avcc (fun h => hone (hstart.mp h)) hns, eq_self_iff_true, true_iff]
    exact fun h => absurd h hone

/-- Two units of two bytes. -/
theorem appendAvccAsAnnexb_two_units :
    appendAvccAsAnnexb [] (avcc [[0x67, 1], [0x68, 2]]) =
      (12, [0, 0, 0, 1, 0x67, 1, 0, 0, 0, 1, 0x68, 2]) :=
  (appendAvccAsAnnexb_avcc_iff [] [0x67, 1] [[0x68, 2]] (by decide)).mpr (by decide)

/-- A one-byte unit before a longer one: the input passes through with its second length field. -/
theorem not_appendAvccAsAnnexb_avcc :
    ¬ ∀ (out : Bytes) (ns : List Bytes), ns ≠ [] → (∀ n ∈ ns, n ≠ [] ∧ n.length < 2 ^ 32) →
      appendAvccAsAnnexb out (avcc ns) = ((avcc ns).length, out ++ annexB ns) := by
  intro hall
  exact absurd (hall [] [[0x09], [0x67, 1]] (by decide) (by decide)) (by decide)

/-! ### All or nothing -/

/-- The input is not used, or used to its last byte: as it is where it is Annex-B, unit by unit
where it is a framed list. -/
def AllOrNothing (out d : Bytes) : Prop :=
  appendAvccAsAnnexb out d = (0, out) ∨
    (startCode <+: d ∧ appendAvccAsAnnexb out d = (d.length, out ++ d)) ∨
    ∃ ns, ¬ startCode <+: d ∧ d = avcc ns ∧ (∀ n ∈ ns, n ≠ [] ∧ n.length < 2 ^ 32) ∧
      appendAvccAsAnnexb out d = (d.length, out ++ annexB ns)

/-- One to three bytes are left over behind a nonempty framed list. -/
def LeftOver (d : Bytes) : Prop :=
  ¬ startCode <+: d ∧ ∃ ns tail, d = avcc ns ++ tail ∧ ns ≠ [] ∧
    (∀ n ∈ ns, n ≠ [] ∧ n.length < 2 ^ 32) ∧ tail ≠ [] ∧ tail.length < 4

/-- The parse reads what is left over in one way only. -/
theorem leftOver_iff {d tail : Bytes} {ns : List Bytes} (hstart : ¬ startCode <+: d)
    (hns : ∀ n ∈ ns, n ≠ [] ∧ n.length < 2 ^ 32) (hd : d = avcc ns ++ tail)
    (htail : tail.length < 4) : LeftOver d ↔ ns ≠ [] ∧ tail ≠ [] := by
  constructor
  · rintro ⟨-, ns', tail', hd', hne', hns', hnil', htail'⟩
    have hparse := (parseAvcc_eq_some_iff (Nat.le_refl d.length)).mpr ⟨hns, tail, hd, htail⟩
    have hparse' := (parseAvcc_eq_some_iff (Nat.le_refl d.length)).mpr ⟨hns', tail', hd', htail'⟩
    obtain rfl : ns = ns' := Option.some.inj (hparse.symm.trans hparse')
    obtain rfl : tail = tail' := List.append_cancel_left (hd.symm.trans hd')
    exact ⟨hne', hnil'⟩
  · rintro ⟨hne, hnil⟩
    exact ⟨hstart, ns, tail, hd, hne, hns, hnil, htail⟩

/-- A framed list is converted all or nothing where it is empty or ends with the input. -/
theorem allOrNothing_of_tail_iff {ns : List Bytes} {tail : Bytes} (out : Bytes)
    (hstart : ¬ startCode <+: avcc ns ++ tail) (hns : ∀ n ∈ ns, n ≠ [] ∧ n.length < 2 ^ 32)
    (htail : tail.length < 4) :
    AllOrNothing out (avcc ns ++ tail) ↔ ¬ (ns ≠ [] ∧ tail ≠ []) := by
  have happend := appendAvccAsAnnexb_of_tail hstart hns htail out
  constructor
  · -- the return value counts the framed bytes: more than none, and fewer than there are
    rintro hall ⟨hne, hnil⟩
    have hpos : 0 < (avcc ns).length := List.length_pos_iff.mpr (mt avcc_eq_nil_iff.mp hne)
    have htpos : 0 < tail.length := List.length_pos_iff.mpr hnil
    have hlen : (appendAvccAsAnnexb out (avcc ns ++ tail)).1 = 0 ∨
        (appendAvccAsAnnexb out (avcc ns ++ tail)).1 = (avcc ns ++ tail).length := by
      rcases hall with h | ⟨-, h⟩ | ⟨_, -, -, -, h⟩
      · exact Or.inl (congrArg Prod.fst h)
      · exact Or.inr (congrArg Prod.fst h)
      · exact Or.inr (congrArg Prod.fst h)
    rw [happend, List.length_append] at hlen
    omega
  · intro h
    by_cases hne : ns = []
    · subst hne
      exact Or.inl (by simpa using happend)
    · obtain rfl : tail = [] := by_contra fun hnil => h ⟨hne, hnil⟩
      rw [List.append_nil] at hstart happend ⊢
      exact Or.inr (Or.inr ⟨ns, hstart, rfl, hns, happend⟩)

/-- **The conversion is all or nothing unless** one to three bytes are left over behind a nonempty
framed list: the loop ends where no length field fits any more, and what is there is dropped. -/
theorem allOrNothing_iff (out d : Bytes) : AllOrNothing out d ↔ ¬ LeftOver d := by
  by_cases hstart : startCode <+: d
  · exact iff_of_true (Or.inr (Or.inl ⟨hstart, appendAvccAsAnnexb_of_startCode hstart out⟩))
      fun h => h.1 hstart
  · cases hparse : parseAvcc d.length d with
    | none =>
      refine iff_of_true (Or.inl ?_) ?_
      · rw [appendAvccAsAnnexb, if_neg (fun h => hstart (take_eq_startCode_iff.mp h)), hparse]
      · rintro ⟨-, ns, tail, hd, -, hns, -, htail⟩
        have hsome := (parseAvcc_eq_some_iff (Nat.le_refl d.length)).mpr ⟨hns, tail, hd, htail⟩
        exact Option.some_ne_none ns (hsome.symm.trans hparse)
    | some ns =>
      obtain ⟨hns, tail, hd, htail⟩ := (parseAvcc_eq_some_iff (Nat.le_refl _)).mp hparse
      rw [leftOver_iff hstart hns hd htail]
      subst hd
      exact allOrNothing_of_tail_iff out hstart hns htail

/-- One unit of two bytes with one byte behind it: the unit goes on without that byte. -/
theorem not_allOrNothing : ¬ ∀ out d : Bytes, AllOrNothing out d := by
  intro hall
  exact (@allOrNothing_of_tail_iff [[0x65, 0x88]] [0xff] [] (by decide) (by decide)
    (by decide)).mp (hall _ _) (by decide)

/-! ## `nal_types` and the two questions asked of it -/

/-- The loop of `nal_types` at offset `i`, with `d` the bytes from `i` on: for each start code the
offset of the NAL header behind it and the `nal_unit_type`. A round moves at least one byte on, so a
`fuel` of the length of the input is never used up. -/
def nalTypesFrom : ℕ → ℕ → Bytes → List (ℕ × UInt8)
  | 0, _, _ => []
  | fuel + 1, i, d =>
    if d.length < 4 then []
    else if d.take 4 = startCode then
      match d.drop 4 with
      | [] => nalTypesFrom fuel (i + 1) (d.drop 1)
      | h :: t => (i + 4, h &&& 0x1f) :: nalTypesFrom fuel (i + 4) (h :: t)
    else if d.take 3 = [0, 0, 1] then
      match d.drop 3 with
      | [] => nalTypesFrom fuel (i + 1) (d.drop 1)
      | h :: t => (i + 3, h &&& 0x1f) :: nalTypesFrom fuel (i + 3) (h :: t)
    else nalTypesFrom fuel (i + 1) (d.drop 1)

/-- `nal_types`: both 3- and 4-byte start codes are accepted. -/
def nalTypes (d : Bytes) : List (ℕ × UInt8) := nalTypesFrom d.length 0 d

/-- The loop of `first_slice_is_idr`. -/
def firstSliceLoop : List (ℕ × UInt8) → Bool
  | [] => false
  | (_, nalType) :: rest =>
    if nalType = 1 ∨ nalType = 5 then nalType == 5 else firstSliceLoop rest

/-- `first_slice_is_idr`: an IDR frame is one whose first slice NAL has type 5. -/
def firstSliceIsIdr (d : Bytes) : Bool := firstSliceLoop (nalTypes d)

/-- The loop of `starts_with_parameter_sets`. -/
def parameterSetsLoop : List (ℕ × UInt8) → Bool
  | [] => false
  | (_, nalType) :: rest =>
    if nalType = 7 ∨ nalType = 8 then true
    else if nalType = 1 ∨ nalType = 5 then false
    else parameterSetsLoop rest

/-- `starts_with_parameter_sets`: a 7 or 8 comes before the first slice. -/
def startsWithParameterSets (d : Bytes) : Bool := parameterSetsLoop (nalTypes d)

/-- The types the walk yields, without their offsets. -/
def types (d : Bytes) : List UInt8 := (nalTypes d).map Prod.snd

/-- A slice: the types that carry a picture. -/
def isSlice (t : UInt8) : Bool := t == 1 || t == 5

/-- The question `first_slice_is_idr` asks of the types. -/
theorem firstSliceIsIdr_iff {d : Bytes} :
    firstSliceIsIdr d = true ↔ (types d).find? isSlice = some 5 := by
  unfold firstSliceIsIdr types
  induction nalTypes d with
  | nil => simp [firstSliceLoop]
  | cons x ts ih =>
    obtain ⟨off, t⟩ := x
    simp only [firstSliceLoop, List.map_cons]
    by_cases hslice : t = 1 ∨ t = 5
    · rw [if_pos hslice, List.find?_cons_of_pos (by simpa [isSlice] using hslice)]
      simp
    · rw [if_neg hslice, List.find?_cons_of_neg (by simpa [isSlice] using hslice)]
      exact ih

/-- The question `starts_with_parameter_sets` asks of the types. -/
theorem startsWithParameterSets_iff {d : Bytes} :
    startsWithParameterSets d = true ↔
      ∃ t ∈ (types d).takeWhile (!isSlice ·), t = 7 ∨ t = 8 := by
  unfold startsWithParameterSets types
  induction nalTypes d with
  | nil => simp [parameterSetsLoop]
  | cons x ts ih =>
    obtain ⟨off, t⟩ := x
    simp only [parameterSetsLoop, List.map_cons]
    -- a set answers yes, a slice answers no, anything else is passed over
    by_cases hset : t = 7 ∨ t = 8
    · have hno : isSlice t = false := by
        rcases hset with rfl | rfl <;> rfl
      rw [if_pos hset, List.takeWhile_cons_of_pos (by rw [hno]; rfl)]
      exact iff_of_true rfl ⟨t, List.mem_cons_self, hset⟩
    · rw [if_neg hset]
      by_cases hslice : t = 1 ∨ t = 5
      · have hpos : isSlice t = true := by simpa [isSlice] using hslice
        rw [if_pos hslice, List.takeWhile_cons_of_neg (by rw [hpos]; decide)]
        simp
      · rw [if_neg hslice, List.takeWhile_cons_of_pos (by simpa [isSlice] using hslice), ih]
        simp [hset]

/-- Neither the fuel, once it covers the input, nor the offset changes the types. -/
theorem map_snd_nalTypesFrom {f g i j : ℕ} {d : Bytes} (hf : d.length ≤ f) (hg : d.length ≤ g) :
    (nalTypesFrom f i d).map Prod.snd = (nalTypesFrom g j d).map Prod.snd := by
  -- By induction on the fuel of the first run: each call drops a byte at least, so what is left of
  -- either fuel still reaches the end.
  induction f generalizing g i j d with
  | zero =>
    have hshort : d.length < 4 := by omega
    cases g <;> simp [nalTypesFrom, hshort]
  | succ f ih =>
    cases g with
    | zero =>
      have hshort : d.length < 4 := by omega
      simp [nalTypesFrom, hshort]
    | succ g =>
      have hdrop : ∀ k, 1 ≤ k → (d.drop k).length ≤ f ∧ (d.drop k).length ≤ g := by
        intro k hk
        rw [List.length_drop]
        omega
      simp only [nalTypesFrom]
      split
      · rfl
      · split
        · have h4 := hdrop 4 (by omega)
          cases hd : d.drop 4 with
          -- a start code at the very end has no unit behind it
          | nil => exact ih (hdrop 1 (by omega)).1 (hdrop 1 (by omega)).2
          | cons h t =>
            rw [hd] at h4
            rw [List.map_cons, List.map_cons, ih h4.1 h4.2]
        · split
          · have h3 := hdrop 3 (by omega)
            cases hd : d.drop 3 with
            | nil => exact ih (hdrop 1 (by omega)).1 (hdrop 1 (by omega)).2
            | cons h t =>
              rw [hd] at h3
              rw [List.map_cons, List.map_cons, ih h3.1 h3.2]
          · exact ih (hdrop 1 (by omega)).1 (hdrop 1 (by omega)).2

/-- Fewer than four bytes hold no start code with a header. -/
theorem types_short {d : Bytes} (h : d.length < 4) : types d = [] := by
  rw [types, nalTypes]
  cases d with
  | nil => rfl
  | cons b d => rw [List.length_cons, nalTypesFrom, if_pos h, List.map_nil]

/-- Behind a start code comes a header byte, and the walk goes on at that byte. -/
theorem types_code (c : Code) (h : UInt8) (t : Bytes) :
    types (c.bytes ++ h :: t) = (h &&& 0x1f) :: types (h :: t) := by
  have hstep : ∀ fuel, nalTypesFrom (fuel + 1) 0 (c.bytes ++ h :: t) =
      (c.bytes.length, h &&& 0x1f) :: nalTypesFrom fuel c.bytes.length (h :: t) := by
    intro fuel
    -- a three-byte code is tried after the four-byte one, so it must not look like it
    cases c with
    | three =>
      rw [nalTypesFrom, if_neg (by simp [Code.bytes]), if_neg (by simp [Code.bytes, startCode]),
        if_pos (by simp [Code.bytes])]
      rfl
    | four =>
      rw [nalTypesFrom, if_neg (by simp [Code.bytes, startCode]),
        if_pos (by simp [Code.bytes, startCode])]
      rfl
  have hcode : 0 < c.bytes.length := by cases c <;> decide
  have hfuel : (c.bytes ++ h :: t).length = (c.bytes.length + (h :: t).length - 1) + 1 := by
    rw [List.length_append]
    omega
  rw [types, nalTypes, hfuel, hstep, List.map_cons]
  exact congrArg _ (map_snd_nalTypesFrom (by omega) (Nat.le_refl _))

/-- Where no start code begins the walk moves one byte on. -/
theorem types_cons {b : UInt8} {t : Bytes} (h4 : ¬ startCode <+: b :: t)
    (h3 : ¬ [0, 0, 1] <+: b :: t) : types (b :: t) = types t := by
  have htake4 : ¬ (b :: t).take 4 = startCode := fun h => h4 (h ▸ List.take_prefix 4 (b :: t))
  have htake3 : ¬ (b :: t).take 3 = [0, 0, 1] := fun h => h3 (h ▸ List.take_prefix 3 (b :: t))
  by_cases hlen : (b :: t).length < 4
  · rw [types_short hlen, types_short (by simp only [List.length_cons] at hlen; omega)]
  · rw [types, nalTypes, List.length_cons, nalTypesFrom, if_neg hlen, if_neg htake4,
      if_neg htake3]
    exact map_snd_nalTypesFrom (Nat.le_refl _) (Nat.le_refl _)

/-- The walk finds nothing inside the bytes of a well-formed unit, whatever follows them. -/
theorem types_append_of_wellFormed {r t : Bytes} (h000 : ¬ [0, 0, 0] <:+: r)
    (h001 : ¬ [0, 0, 1] <:+: r) (hlast : r.getLast? ≠ some 0) : types (r ++ t) = types t := by
  induction r with
  | nil => rfl
  | cons b r ih =>
    -- a start code that began here would end inside `r`, or cover its last byte with a zero
    have h4 : ¬ startCode <+: b :: (r ++ t) := by
      rintro ⟨u, hu⟩
      rcases r with _ | ⟨c, _ | ⟨e, r⟩⟩
      · exact hlast (by simpa using (List.cons.inj hu).1.symm)
      · exact hlast (by simpa using (List.cons.inj (List.cons.inj hu).2).1.symm)
      · simp only [startCode, List.cons_append, List.nil_append, List.cons.injEq] at hu
        obtain ⟨rfl, rfl, rfl, -⟩ := hu
        exact h000 ⟨[], r, rfl⟩
    have h3 : ¬ [0, 0, 1] <+: b :: (r ++ t) := by
      rintro ⟨u, hu⟩
      rcases r with _ | ⟨c, _ | ⟨e, r⟩⟩
      · exact hlast (by simpa using (List.cons.inj hu).1.symm)
      · exact hlast (by simpa using (List.cons.inj (List.cons.inj hu).2).1.symm)
      · simp only [List.cons_append, List.nil_append, List.cons.injEq] at hu
        obtain ⟨rfl, rfl, rfl, -⟩ := hu
        exact h001 ⟨[], r, rfl⟩
    have hr : r.getLast? ≠ some 0 := by
      cases r with
      | nil => simp
      | cons c r => simpa using hlast
    refine (types_cons h4 h3).trans ?_
    exact ih (fun h => h000 (h.trans (List.infix_cons (List.infix_refl r))))
      (fun h => h001 (h.trans (List.infix_cons (List.infix_refl r)))) hr

/-- A well-formed unit behind a start code is read as its type. -/
theorem types_unit {n : Bytes} (hn : WellFormed n) (c : Code) (t : Bytes) :
    types (c.bytes ++ (n ++ t)) = typeOf n :: types t := by
  have hbody := types_append_of_wellFormed (t := t) hn.no_zeros hn.no_start hn.last_ne
  cases n with
  | nil => exact absurd rfl hn.ne_nil
  | cons h n =>
    rw [List.cons_append] at hbody ⊢
    rw [types_code, hbody]
    rfl

/-- Well-formed units in front of any bytes add their types, and nothing else: no start code begins
in them that ends in what follows. -/
theorem types_mixed_append {ns : List (Code × Bytes)} (hns : ∀ n ∈ ns, WellFormed n.2)
    (d : Bytes) : types (mixed ns ++ d) = ns.map (typeOf ·.2) ++ types d := by
  induction ns with
  | nil => rfl
  | cons n ns ih =>
    obtain ⟨hn, hns⟩ := List.forall_mem_cons.mp hns
    rw [mixed_cons, List.append_assoc, List.append_assoc, types_unit hn, ih hns, List.map_cons,
      List.cons_append]

/-- The walk reads back the types of a list of well-formed units, behind whatever start codes. -/
theorem types_mixed {ns : List (Code × Bytes)} (hns : ∀ n ∈ ns, WellFormed n.2) :
    types (mixed ns) = ns.map (typeOf ·.2) := by
  have h := types_mixed_append hns []
  rwa [List.append_nil, types_short (d := []) (by decide), List.append_nil] at h

/-- The walker finds the types of well-formed units, and goes on behind them. -/
theorem types_annexB_append {ns : List Bytes} (hns : ∀ n ∈ ns, WellFormed n) (d : Bytes) :
    types (annexB ns ++ d) = ns.map typeOf ++ types d := by
  rw [annexB_eq_mixed, types_mixed_append (List.forall_mem_map.mpr hns), List.map_map]
  rfl

/-- The walker finds the types of well-formed units and nothing else. -/
theorem types_annexB {ns : List Bytes} (hns : ∀ n ∈ ns, WellFormed n) :
    types (annexB ns) = ns.map typeOf := by
  have h := types_annexB_append hns []
  rwa [List.append_nil, types_short (d := []) (by decide), List.append_nil] at h

/-! ### The two questions, asked of a list of types -/

/-- There is a type of the given kind with no slice before it. -/
def Leads (kind : UInt8 → Prop) (ts : List UInt8) : Prop :=
  ∃ before t behind, ts = before ++ t :: behind ∧ kind t ∧ ∀ s ∈ before, s ≠ 1 ∧ s ≠ 5

/-- There are two types of slices. -/
theorem isSlice_eq_false_iff {t : UInt8} : isSlice t = false ↔ t ≠ 1 ∧ t ≠ 5 := by
  simp [isSlice]

/-- The first slice decides. -/
theorem firstSliceIsIdr_iff_leads {d : Bytes} :
    firstSliceIsIdr d = true ↔ Leads (· = 5) (types d) := by
  rw [firstSliceIsIdr_iff, List.find?_eq_some_iff_append]
  constructor
  · rintro ⟨-, before, behind, hts, hbefore⟩
    exact ⟨before, 5, behind, hts, rfl, fun s hs =>
      isSlice_eq_false_iff.mp (by simpa using hbefore s hs)⟩
  · rintro ⟨before, _, behind, hts, rfl, hbefore⟩
    exact ⟨rfl, before, behind, hts, fun s hs => by
      simp [isSlice_eq_false_iff.mpr (hbefore s hs)]⟩

/-- What precedes the first slice is what a split of the list can leave in front. -/
theorem exists_mem_takeWhile_iff_leads {kind : UInt8 → Prop} {ts : List UInt8}
    (hkind : ∀ t, kind t → isSlice t = false) :
    (∃ t ∈ ts.takeWhile (!isSlice ·), kind t) ↔ Leads kind ts := by
  constructor
  · rintro ⟨t, ht, hk⟩
    obtain ⟨before, behind, hsplit⟩ := List.append_of_mem ht
    refine ⟨before, t, behind ++ ts.dropWhile (!isSlice ·), ?_, hk, fun s hs => ?_⟩
    · rw [← List.cons_append, ← List.append_assoc, ← hsplit, List.takeWhile_append_dropWhile]
    · have hmem : s ∈ ts.takeWhile (!isSlice ·) := hsplit ▸ List.mem_append_left _ hs
      exact isSlice_eq_false_iff.mp (by simpa using List.mem_takeWhile_imp hmem)
  · rintro ⟨before, t, behind, rfl, hk, hbefore⟩
    refine ⟨t, ?_, hk⟩
    rw [List.takeWhile_append_of_pos fun s hs => by
        simp [isSlice_eq_false_iff.mpr (hbefore s hs)],
      List.takeWhile_cons_of_pos (by simp [hkind t hk])]
    exact List.mem_append_right _ List.mem_cons_self

/-- A parameter set before every slice decides. -/
theorem startsWithParameterSets_iff_leads {d : Bytes} :
    startsWithParameterSets d = true ↔ Leads (fun t => t = 7 ∨ t = 8) (types d) := by
  rw [startsWithParameterSets_iff]
  refine exists_mem_takeWhile_iff_leads fun t ht => ?_
  rcases ht with rfl | rfl <;> rfl

/-- **The walker is exact.** Whatever start codes well-formed units stand behind, the walk yields
their types in order, and the two questions are answered as the units themselves answer them. -/
theorem walker_exact (ns : List (Code × Bytes)) (hns : ∀ n ∈ ns, WellFormed n.2) :
    types (mixed ns) = ns.map (typeOf ·.2) ∧
      (firstSliceIsIdr (mixed ns) = true ↔ Leads (· = 5) (ns.map (typeOf ·.2))) ∧
      (startsWithParameterSets (mixed ns) = true ↔
        Leads (fun t => t = 7 ∨ t = 8) (ns.map (typeOf ·.2))) := by
  rw [firstSliceIsIdr_iff_leads, startsWithParameterSets_iff_leads, types_mixed hns]
  exact ⟨rfl, Iff.rfl, Iff.rfl⟩

/-- A delimiter, a parameter set and an IDR slice of one byte at the very end. -/
theorem walker_exact_short :
    types (mixed [(.four, [9, 0x10]), (.three, [0x67, 1]), (.three, [0x65])]) = [9, 7, 5] :=
  (walker_exact [(.four, [9, 0x10]), (.three, [0x67, 1]), (.three, [0x65])] (by decide)).1

/-! ## `avcc_record_to_annexb` -/

/-- One counted run of 16-bit length-prefixed sets: the sets read, and the bytes behind them, or
`none` where the record ends inside a set and the source returns early. -/
def recordSets : ℕ → Bytes → List Bytes × Option Bytes
  | 0, p => ([], some p)
  | n + 1, hi :: lo :: p =>
    let len := hi.toNat * 256 + lo.toNat
    if p.length < len then ([], none)
    else
      let rest := recordSets n (p.drop len)
      (p.take len :: rest.1, rest.2)
  | _ + 1, _ => ([], none)

/-- Convert an `AVCDecoderConfigurationRecord` into start-code-prefixed NALs; empty on anything
that is no such record. -/
def avccRecordToAnnexb (p : Bytes) : Bytes :=
  if p.length ≤ 7 ∨ p.headD 0 ≠ 1 then []
  else
    let sps := recordSets ((p.getD 5 0) &&& 0x1f).toNat (p.drop 6)
    match sps.2 with
    | none | some [] => annexB sps.1
    | some (npps :: rest) => annexB sps.1 ++ annexB (recordSets npps.toNat rest).1

/-- Sets behind 16-bit lengths, as an avcC record carries them. -/
def sets16 (ns : List Bytes) : Bytes :=
  ns.flatMap fun n => UInt8.ofNat (n.length / 256) :: UInt8.ofNat n.length :: n

/-- The bytes are an avcC record with these sets. Bytes behind them are allowed. -/
structure Record (p : Bytes) (sps pps : List Bytes) : Prop where
  bytes : ∃ profile compat level lengthSize count tail,
    p = 1 :: profile :: compat :: level :: lengthSize :: count ::
      (sets16 sps ++ UInt8.ofNat pps.length :: (sets16 pps ++ tail)) ∧
    (count &&& 0x1f).toNat = sps.length
  length_pps : pps.length < 256
  length_set : ∀ n ∈ sps ++ pps, n.length < 65536

/-- A set with its length in two bytes. -/
theorem sets16_cons (n : Bytes) (ns : List Bytes) :
    sets16 (n :: ns) =
      UInt8.ofNat (n.length / 256) :: UInt8.ofNat n.length :: (n ++ sets16 ns) := by
  simp [sets16]

/-- One round behind the length field of a set. -/
theorem recordSets_of_length {n : Bytes} (hn : n.length < 65536) (count : ℕ) (p : Bytes) :
    recordSets (count + 1) (UInt8.ofNat (n.length / 256) :: UInt8.ofNat n.length :: p) =
      if p.length < n.length then ([], none)
      else
        (p.take n.length :: (recordSets count (p.drop n.length)).1,
          (recordSets count (p.drop n.length)).2) := by
  have hlen : (UInt8.ofNat (n.length / 256)).toNat * 256 + (UInt8.ofNat n.length).toNat =
      n.length := by
    simp only [UInt8.toNat_ofNat']
    omega
  rw [recordSets]
  simp only [hlen]

/-- A counted run of sets is read back, with the bytes behind it. -/
theorem recordSets_sets16 {ns : List Bytes} (hns : ∀ n ∈ ns, n.length < 65536) (rest : Bytes) :
    recordSets ns.length (sets16 ns ++ rest) = (ns, some rest) := by
  induction ns with
  | nil => rfl
  | cons n ns ih =>
    obtain ⟨hn, hns⟩ := List.forall_mem_cons.mp hns
    rw [sets16_cons, List.length_cons, List.cons_append, List.cons_append,
      recordSets_of_length hn, List.append_assoc, if_neg (by simp), List.take_left,
      List.drop_left, ih hns]

/-- A record with a set is longer than its header. -/
theorem Record.lt_length {p : Bytes} {sps pps : List Bytes} (h : Record p sps pps)
    (hne : sps ++ pps ≠ []) : 7 < p.length := by
  obtain ⟨profile, compat, level, lengthSize, count, tail, rfl, -⟩ := h.bytes
  have hset : 0 < (sets16 sps ++ sets16 pps).length := by
    rw [List.length_pos_iff]
    intro hnil
    apply hne
    simpa [sets16, List.flatMap_eq_nil_iff, ← List.eq_nil_iff_forall_not_mem] using hnil
  simp only [List.length_cons, List.length_append] at hset ⊢
  omega

/-- A record begins with its version, 1. -/
theorem Record.headD {p : Bytes} {sps pps : List Bytes} (h : Record p sps pps) :
    p.headD 0 = 1 := by
  obtain ⟨profile, compat, level, lengthSize, count, tail, rfl, -⟩ := h.bytes
  rfl

/-- An avcC record with a set is converted set by set. -/
theorem avccRecordToAnnexb_of_record {p : Bytes} {sps pps : List Bytes} (h : Record p sps pps)
    (hne : sps ++ pps ≠ []) : avccRecordToAnnexb p = annexB (sps ++ pps) := by
  have hheader : ¬ (p.length ≤ 7 ∨ p.headD 0 ≠ 1) :=
    not_or.mpr ⟨Nat.not_le.mpr (h.lt_length hne), not_not.mpr h.headD⟩
  obtain ⟨profile, compat, level, lengthSize, count, tail, rfl, hcount⟩ := h.bytes
  obtain ⟨hsps, hpps⟩ := List.forall_mem_append.mp h.length_set
  have hnpps : (UInt8.ofNat pps.length).toNat = pps.length := by
    rw [UInt8.toNat_ofNat']
    exact Nat.mod_eq_of_lt h.length_pps
  unfold avccRecordToAnnexb
  rw [if_neg hheader]
  simp only [List.getD_cons_succ, List.getD_cons_zero, List.drop_succ_cons, List.drop_zero, hcount,
    recordSets_sets16 hsps, hnpps, recordSets_sets16 hpps, annexB_append]

end RgspCast.Bitstream
