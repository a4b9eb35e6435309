import RgspCast.Cedar.Bitstream

/-!
# Draining one encoded unit into the output

The vendor hands an encoded unit over as up to two segments of a ring buffer. `appendUnit` is what
`Capture::next` does with one `VencOutputBuffer`. Each segment is converted on its own, so the
output is that of the contiguous unit only where the ring wraps between two NALs
(`appendUnit_split_iff`); a wrap inside a NAL drops bytes without an error (`appendUnit_drops`).
-/

namespace RgspCast.Drain

open Nal Bitstream

/-- The fields of `VencOutputBuffer` that the drain reads, and the vendor's id of the buffer. A
pointer is the bytes that can be read from it on, `none` where it is null. -/
structure VencOutputBuffer where
  nId : Int32
  nTotalSize : UInt32
  pData0 : Option Bytes
  pData1 : Option Bytes
  nSize0 : UInt32
  nSize1 : UInt32
  deriving DecidableEq, Repr

/-- The output after one retrieved unit. The two segments are used where their sizes add up (in
`u32`, which wraps); otherwise `p_data0` is one run of `n_total_size` bytes, and only there bytes
that are not AVCC are emitted verbatim. -/
def appendUnit (out : Bytes) (o : VencOutputBuffer) : Bytes :=
  match o.pData0 with
  | none => out
  | some p0 =>
    if o.nSize0 ≠ 0 ∧ o.nSize0 + o.nSize1 = o.nTotalSize then
      let out := (appendAvccAsAnnexb out (p0.take o.nSize0.toNat)).2
      match o.pData1 with
      | none => out
      | some p1 =>
        if o.nSize1 ≠ 0 then (appendAvccAsAnnexb out (p1.take o.nSize1.toNat)).2 else out
    else if o.nTotalSize ≠ 0 then
      let s := p0.take o.nTotalSize.toNat
      let r := appendAvccAsAnnexb out s
      if r.1 = 0 then r.2 ++ s else r.2
    else out

/-- The buffer hands over `s0 ++ s1` in the two ring segments. -/
structure Handed (o : VencOutputBuffer) (s0 s1 : Bytes) : Prop where
  total : o.nTotalSize.toNat = s0.length + s1.length
  size0 : o.nSize0.toNat = s0.length
  size1 : o.nSize1.toNat = s1.length
  data0 : ∃ p, o.pData0 = some p ∧ p.take s0.length = s0
  data1 : s1 = [] ∨ ∃ p, o.pData1 = some p ∧ p.take s1.length = s1

/-- The buffer hands over `s` in one piece at `p_data0`: as a first segment with an empty second
one, or with segment sizes that the source does not trust. -/
structure Contiguous (o : VencOutputBuffer) (s : Bytes) : Prop where
  total : o.nTotalSize.toNat = s.length
  data0 : ∃ p, o.pData0 = some p ∧ p.take s.length = s
  sizes : o.nSize0.toNat = s.length ∧ o.nSize1 = 0 ∨
    ¬ (o.nSize0 ≠ 0 ∧ o.nSize0 + o.nSize1 = o.nTotalSize)

/-- A frame as the encoder emits it: AVCC whose first NAL is longer than one byte, or Annex-B. -/
inductive ValidFrame : Bytes → Prop where
  | avcc (n : Bytes) (ns : List Bytes) (hn : 1 < n.length) (hns : ∀ m ∈ ns, m ≠ []) :
    ValidFrame (avcc (n :: ns))
  | annexB (t : Bytes) : ValidFrame (startCode ++ t)

/-- The ring wraps where both segments can be read on their own: behind the last byte, in front of
a start code of an Annex-B frame, or between two NALs of an AVCC frame. A one-byte NAL must not
open the second segment (its length field reads as a start code), unless only one-byte NALs
follow. -/
def CutBetweenUnits (s0 s1 : Bytes) : Prop :=
  s1 = [] ∨ (startCode <+: s0 ∧ startCode <+: s1) ∨
    ¬ startCode <+: s0 ∧ ∃ as bs, s0 = avcc as ∧ s1 = avcc bs ∧
      (bs.head?.map List.length ≠ some 1 ∨ ∀ b ∈ bs, b.length = 1)

@[simp] theorem appended_nil : appended [] = [] := rfl

/-- Segments are converted one after the other. -/
theorem appendUnit_of_handed {o : VencOutputBuffer} {s0 s1 : Bytes} (h : Handed o s0 s1)
    (h0 : s0 ≠ []) (out : Bytes) : appendUnit out o = out ++ (appended s0 ++ appended s1) := by
  obtain ⟨p0, hp0, htake0⟩ := h.data0
  have hsize0 : o.nSize0 ≠ 0 := by
    intro hzero
    have := h.size0
    rw [hzero] at this
    exact h0 (List.length_eq_zero_iff.mp this.symm)
  -- the sum of the sizes fits in 32 bits, being the total the vendor reports
  have hadd : o.nSize0 + o.nSize1 = o.nTotalSize := by
    have hlt := o.nTotalSize.toNat_lt
    rw [h.total] at hlt
    rw [← UInt32.toNat_inj, UInt32.toNat_add, h.size0, h.size1, h.total]
    exact Nat.mod_eq_of_lt hlt
  rw [appendUnit, hp0]
  simp only [if_pos (And.intro hsize0 hadd), h.size0, htake0, appendAvccAsAnnexb_snd]
  rcases h.data1 with rfl | ⟨p1, hp1, htake1⟩
  · have hsize1 : o.nSize1 = 0 := by
      rw [← UInt32.toNat_inj]
      exact h.size1
    cases o.pData1 <;> simp [hsize1]
  · rw [hp1]
    by_cases hsize1 : o.nSize1 = 0
    · have hs1 : s1 = [] := by
        have := h.size1
        rw [hsize1] at this
        exact List.length_eq_zero_iff.mp this.symm
      simp [hsize1, hs1]
    · simp only [hsize1, ne_eq, not_false_eq_true, if_true, h.size1, htake1,
        List.append_assoc]

/-- Where bytes are appended the return value is not 0. -/
theorem appendAvccAsAnnexb_fst_ne {out d : Bytes} (h : appended d ≠ []) :
    (appendAvccAsAnnexb out d).1 ≠ 0 := by
  unfold appended appendAvccAsAnnexb at h
  unfold appendAvccAsAnnexb
  split at h
  next hstart =>
    rw [if_pos hstart]
    exact Nat.ne_of_gt (by omega)
  next hstart =>
    rw [if_neg hstart]
    cases hparse : parseAvcc d.length d with
    | none => simp [hparse] at h
    | some ns =>
      cases ns with
      | nil => simp [hparse] at h
      | cons n ns =>
        simp only [List.map_cons, List.sum_cons]
        omega

/-- A contiguous unit is converted as a whole. -/
theorem appendUnit_of_contiguous {o : VencOutputBuffer} {s : Bytes} (h : Contiguous o s)
    (hs : appended s ≠ []) (out : Bytes) : appendUnit out o = out ++ appended s := by
  have hne : s ≠ [] := by
    rintro rfl
    exact hs rfl
  rcases h.sizes with ⟨hsize0, hsize1⟩ | hsizes
  · have hhanded : Handed o s [] :=
      ⟨by simp [h.total], hsize0, by simp [hsize1], h.data0, Or.inl rfl⟩
    simpa using appendUnit_of_handed hhanded hne out
  · obtain ⟨p0, hp0, htake0⟩ := h.data0
    have htotal : o.nTotalSize ≠ 0 := by
      intro hzero
      have := h.total
      rw [hzero] at this
      exact hne (List.length_eq_zero_iff.mp this.symm)
    rw [appendUnit, hp0]
    simp only [if_neg hsizes, if_pos htotal, h.total, htake0,
      if_neg (appendAvccAsAnnexb_fst_ne hs), appendAvccAsAnnexb_snd]

/-! ## Valid frames -/

/-- A first NAL longer than one byte keeps a length field from reading as a start code. -/
theorem not_startCode_avcc {n : Bytes} (ns : List Bytes) (hn : n.length ≠ 1)
    (hlt : n.length < 2 ^ 32) (tail : Bytes) : ¬ startCode <+: avcc (n :: ns) ++ tail := by
  rintro ⟨t, ht⟩
  rw [avcc_cons, List.append_assoc] at ht
  have hhead := (List.append_inj ht rfl).1
  exact hn (be32_inj hlt (by decide) (by rw [← hhead, be32_one]))

/-- A framed list that opens with a one-byte NAL starts with a start code. -/
theorem startCode_avcc {n : Bytes} {ns : List Bytes} (hn : n.length = 1) :
    startCode <+: avcc (n :: ns) :=
  ⟨n ++ avcc ns, by rw [avcc_cons, hn, be32_one]⟩

/-- In a frame whose length fits 32 bits every unit's length does. -/
theorem forall_mem_of_valid {ns : List Bytes} (hns : ∀ n ∈ ns, n ≠ [])
    (hlen : (avcc ns).length < 2 ^ 32) : ∀ n ∈ ns, n ≠ [] ∧ n.length < 2 ^ 32 :=
  fun n hn => ⟨hns n hn, Nat.lt_trans (length_lt_of_mem hn) hlen⟩

/-- A framed list that does not open with a one-byte NAL is converted unit by unit. -/
theorem appended_avcc {ns : List Bytes} (hns : ∀ n ∈ ns, n ≠ []) (hlen : (avcc ns).length < 2 ^ 32)
    (hhead : ns.head?.map List.length ≠ some 1) : appended (avcc ns) = annexB ns := by
  cases ns with
  | nil => rfl
  | cons n ns =>
    have hstart := not_startCode_avcc ns (by simpa using hhead)
      (forall_mem_of_valid hns hlen n List.mem_cons_self).2 []
    simpa using appended_of_avcc hstart (forall_mem_of_valid hns hlen) (by simp)

/-- A framed list of one-byte NALs is its own Annex-B form. -/
theorem appended_avcc_of_one {ns : List Bytes} (hone : ∀ n ∈ ns, n.length = 1)
    (hlen : (avcc ns).length < 2 ^ 32) : appended (avcc ns) = annexB ns := by
  rw [← (avcc_eq_annexB_iff hlen).mpr hone]
  cases ns with
  | nil => rfl
  | cons n ns => exact appended_of_startCode (startCode_avcc (hone n List.mem_cons_self))

/-- Two pieces that fill a string of the length of both inputs were used to their last byte. -/
theorem lengths_of_append {s0 s1 s : Bytes} (h : appended s0 ++ appended s1 = s)
    (hlen : s.length = s0.length + s1.length) :
    s0.length ≤ (appended s0).length ∧ s1.length ≤ (appended s1).length := by
  have h0 := length_appended_le s0
  have h1 := length_appended_le s1
  have hsum := congrArg List.length h
  rw [List.length_append] at hsum
  omega

/-- The two segments of an AVCC frame give its conversion exactly where the cut is between
units. -/
theorem appended_append_avcc_iff {n : Bytes} {ns : List Bytes} {s0 s1 : Bytes} (hn : 1 < n.length)
    (hns : ∀ m ∈ ns, m ≠ []) (hs : s0 ++ s1 = avcc (n :: ns)) (h0 : s0 ≠ [])
    (hlen : (avcc (n :: ns)).length < 2 ^ 32) :
    appended s0 ++ appended s1 = annexB (n :: ns) ↔ CutBetweenUnits s0 s1 := by
  have hall : ∀ m ∈ n :: ns, m ≠ [] := by
    refine List.forall_mem_cons.mpr ⟨?_, hns⟩
    rintro rfl
    simp at hn
  have hn32 := (forall_mem_of_valid hall hlen n List.mem_cons_self).2
  have hstart : ¬ startCode <+: s0 := by
    intro h
    have hpre : startCode <+: avcc (n :: ns) := hs ▸ h.trans (List.prefix_append s0 s1)
    exact not_startCode_avcc ns (by omega) hn32 [] (by simpa using hpre)
  constructor
  · intro h
    have hle := lengths_of_append h (by rw [length_annexB, ← hs, List.length_append])
    obtain ⟨as, rfl, has⟩ := (exists_avcc_of_length_appended hle.1).resolve_left hstart
    obtain ⟨bs, hsplit, rfl⟩ := exists_of_append_eq_avcc hs hlen
    refine Or.inr (Or.inr ⟨hstart, as, bs, rfl, rfl, ?_⟩)
    by_cases hhead : bs.head?.map List.length = some 1
    · -- the second segment opens with a one-byte NAL and passes through unconverted
      refine Or.inr ?_
      rw [hsplit, avcc_append, List.length_append] at hlen
      rw [← avcc_eq_annexB_iff (by omega)]
      cases bs with
      | nil => rfl
      | cons b bs =>
        have hb : startCode <+: avcc (b :: bs) := startCode_avcc (by simpa using hhead)
        rw [appended_of_startCode hb, hsplit, annexB_append] at h
        exact (List.append_inj' h (by rw [length_annexB])).2
    · exact Or.inl hhead
  · rintro (rfl | ⟨h, -⟩ | ⟨-, as, bs, rfl, rfl, hbs⟩)
    · rw [List.append_nil] at hs
      rw [hs, appended_nil, List.append_nil]
      exact appended_avcc hall hlen (by simpa using Nat.ne_of_gt hn)
    · exact absurd h hstart
    · have hsplit : n :: ns = as ++ bs := by
        refine (avcc_inj ?_ (hs ▸ hlen)).symm.trans rfl
        rw [avcc_append, hs]
      have hall' := hall
      rw [hsplit, List.forall_mem_append] at hall'
      have hlen' : (avcc as).length < 2 ^ 32 ∧ (avcc bs).length < 2 ^ 32 := by
        rw [← hs, List.length_append] at hlen
        omega
      have has : appended (avcc as) = annexB as := by
        apply appended_avcc hall'.1 hlen'.1
        intro hone
        cases as with
        | nil => exact h0 rfl
        | cons a as => exact hstart (startCode_avcc (by simpa using hone))
      have hbs' : appended (avcc bs) = annexB bs := by
        rcases hbs with hhead | hone
        · exact appended_avcc hall'.2 hlen'.2 hhead
        · exact appended_avcc_of_one hone hlen'.2
      rw [has, hbs', hsplit, annexB_append]

/-- The two segments of an Annex-B frame give it back exactly where the second opens with a start
code too. -/
theorem appended_append_annexB_iff {t : Bytes} {s0 s1 : Bytes} (hs : s0 ++ s1 = startCode ++ t)
    (h0 : s0 ≠ []) (hlen : (startCode ++ t).length < 2 ^ 32) :
    appended s0 ++ appended s1 = startCode ++ t ↔ CutBetweenUnits s0 s1 := by
  have hlen' : s0.length < 2 ^ 32 ∧ s1.length < 2 ^ 32 := by
    rw [← hs, List.length_append] at hlen
    omega
  have hstart0 : s0.length ≥ 4 → startCode <+: s0 := by
    intro hge
    exact List.prefix_of_prefix_length_le (hs ▸ List.prefix_append startCode t)
      (List.prefix_append s0 s1) (by simpa [startCode] using hge)
  constructor
  · intro h
    have hle := lengths_of_append h (by rw [← hs, List.length_append])
    have h0start : startCode <+: s0 := by
      rcases exists_avcc_of_length_appended hle.1 with hstart | ⟨as, rfl, -⟩
      · exact hstart
      · apply hstart0
        cases as with
        | nil => exact absurd rfl h0
        | cons a as =>
          rw [avcc_cons, List.length_append, length_be32]
          omega
    rcases exists_avcc_of_length_appended hle.2 with h1 | ⟨bs, rfl, hbs⟩
    · exact Or.inr (Or.inl ⟨h0start, h1⟩)
    rw [appended_of_startCode h0start, ← hs] at h
    have hone : appended (avcc bs) = avcc bs := List.append_cancel_left h
    cases bs with
    | nil => exact Or.inl rfl
    | cons b bs =>
      refine Or.inr (Or.inl ⟨h0start, ?_⟩)
      by_cases hb : b.length = 1
      · exact startCode_avcc hb
      · -- converted, the second segment would open with a start code where it has a length
        rw [appended_avcc hbs hlen'.2 (by simpa using hb)] at hone
        exact absurd ((avcc_eq_annexB_iff hlen'.2).mp hone.symm b List.mem_cons_self) hb
  · rintro (rfl | ⟨hstart, hstart1⟩ | ⟨hstart, as, bs, rfl, -, -⟩)
    · rw [List.append_nil] at hs
      rw [hs, appended_of_startCode (List.prefix_append startCode t), appended_nil,
        List.append_nil]
    · rw [appended_of_startCode hstart, appended_of_startCode hstart1, hs]
    · refine absurd (hstart0 ?_) hstart
      cases as with
      | nil => exact absurd rfl h0
      | cons a as =>
        rw [avcc_cons, List.length_append, length_be32]
        omega

/-- The whole frame is converted in either form: into something, and into what the segments give
where the cut is between units. -/
theorem ValidFrame.appended_spec {s0 s1 : Bytes} (hv : ValidFrame (s0 ++ s1)) (h0 : s0 ≠ [])
    (hlen : (s0 ++ s1).length < 2 ^ 32) :
    appended (s0 ++ s1) ≠ [] ∧
      (appended s0 ++ appended s1 = appended (s0 ++ s1) ↔ CutBetweenUnits s0 s1) := by
  generalize hs : s0 ++ s1 = s at hv hlen
  cases hv with
  | avcc n ns hn hns =>
    have hall : ∀ m ∈ n :: ns, m ≠ [] := by
      refine List.forall_mem_cons.mpr ⟨?_, hns⟩
      rintro rfl
      simp at hn
    have hwhole : appended (Nal.avcc (n :: ns)) = Nal.annexB (n :: ns) :=
      appended_avcc hall hlen (by simpa using Nat.ne_of_gt hn)
    rw [hwhole]
    exact ⟨by simp [annexB_cons, startCode], appended_append_avcc_iff hn hns hs h0 hlen⟩
  | annexB t =>
    rw [appended_of_startCode (List.prefix_append startCode t)]
    exact ⟨by simp [startCode], appended_append_annexB_iff hs h0 hlen⟩

/-! ## Ring-split independence -/

/-- A 6-byte frame of one NAL, cut inside the NAL. -/
def cutInsideNal : VencOutputBuffer where
  nId := 0
  nTotalSize := 6
  pData0 := some [0, 0, 0, 2, 0x65]
  pData1 := some [0x88]
  nSize0 := 5
  nSize1 := 1

/-- The same frame in one piece. -/
def uncut : VencOutputBuffer where
  nId := 0
  nTotalSize := 6
  pData0 := some [0, 0, 0, 2, 0x65, 0x88]
  pData1 := none
  nSize0 := 6
  nSize1 := 0

/-- The output does depend on the cut: the NAL of `cutInsideNal` is dropped without an error. -/
theorem appendUnit_drops :
    ¬ ∀ (s0 s1 : Bytes) (o o' : VencOutputBuffer) (out : Bytes), ValidFrame (s0 ++ s1) → s0 ≠ [] →
      Handed o s0 s1 → Contiguous o' (s0 ++ s1) → appendUnit out o = appendUnit out o' := by
  intro h
  have hvalid : ValidFrame ([0, 0, 0, 2, 0x65] ++ [0x88]) :=
    .avcc [0x65, 0x88] [] (by decide) (by simp)
  have hhanded : Handed cutInsideNal [0, 0, 0, 2, 0x65] [0x88] :=
    ⟨rfl, rfl, rfl, ⟨_, rfl, rfl⟩, Or.inr ⟨_, rfl, rfl⟩⟩
  have hwhole : Contiguous uncut ([0, 0, 0, 2, 0x65] ++ [0x88]) :=
    ⟨rfl, ⟨_, rfl, rfl⟩, Or.inl ⟨rfl, rfl⟩⟩
  exact absurd (h _ _ _ _ [] hvalid (by simp) hhanded hwhole) (by decide)

/-- **Ring-split independence, exactly.** A valid frame handed over in two segments gives the
output of the contiguous frame if and only if the ring wraps between two units. -/
theorem appendUnit_split_iff {s0 s1 : Bytes} {o o' : VencOutputBuffer}
    (hv : ValidFrame (s0 ++ s1)) (h0 : s0 ≠ []) (h : Handed o s0 s1)
    (h' : Contiguous o' (s0 ++ s1)) (out : Bytes) :
    appendUnit out o = appendUnit out o' ↔ CutBetweenUnits s0 s1 := by
  have hlen : (s0 ++ s1).length < 2 ^ 32 := by
    rw [← h'.total]
    exact o'.nTotalSize.toNat_lt
  obtain ⟨hne, hiff⟩ := hv.appended_spec h0 hlen
  rw [appendUnit_of_handed h h0, appendUnit_of_contiguous h' hne, List.append_cancel_left_eq]
  exact hiff

/-- A frame of two NALs, cut between them. -/
theorem appendUnit_split_iff_between :
    appendUnit [] ⟨0, 12, some [0, 0, 0, 2, 0x67, 0x42], some [0, 0, 0, 2, 0x65, 0x88], 6, 6⟩ =
      appendUnit []
        ⟨0, 12, some [0, 0, 0, 2, 0x67, 0x42, 0, 0, 0, 2, 0x65, 0x88], none, 12, 0⟩ := by
  have hvalid : ValidFrame ([0, 0, 0, 2, 0x67, 0x42] ++ [0, 0, 0, 2, 0x65, 0x88]) :=
    .avcc [0x67, 0x42] [[0x65, 0x88]] (by decide) (by simp)
  refine (appendUnit_split_iff hvalid (by simp) ⟨rfl, rfl, rfl, ⟨_, rfl, rfl⟩,
    Or.inr ⟨_, rfl, rfl⟩⟩ ⟨rfl, ⟨_, rfl, rfl⟩, Or.inl ⟨rfl, rfl⟩⟩ []).mpr ?_
  exact Or.inr (Or.inr ⟨by decide, [[0x67, 0x42]], [[0x65, 0x88]], rfl, rfl, Or.inl (by decide)⟩)

end RgspCast.Drain
