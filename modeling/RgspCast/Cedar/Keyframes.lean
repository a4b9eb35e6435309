import RgspCast.Cedar.Session

/-!
# Parameter sets ahead of every keyframe

A decoder can start at a frame only where its first IDR slice comes behind an SPS and a PPS, and the
frame says that it is a keyframe (`Decodable`). `next` decides that by three questions about the
types of the NALs it drained: is this frame 0, is the first slice an IDR, does a parameter set come
before it. `decodable_nextFrame_iff` says for which NALs the three answers are enough, and
`frames_decodable` carries that over every run; an IDR drained behind another slice, or behind only
one of the two sets, is missed (`not_decodable`).
-/

namespace RgspCast.Keyframes

open Nal Bitstream Drain Cedar Transition

/-! ## What is claimed of a frame -/

/-- An SPS and a PPS come before the first IDR slice. -/
def SetsFirst (ts : List UInt8) : Prop :=
  7 ∈ ts.takeWhile (· ≠ 5) ∧ 8 ∈ ts.takeWhile (· ≠ 5)

/-- A frame with an IDR slice says so, and carries its parameter sets ahead of it. -/
def Decodable (f : Frame) : Prop :=
  5 ∈ types f.data → f.isKeyframe = true ∧ SetsFirst (types f.data)

/-! ## What the encoder delivers -/

/-- A NAL as the encoder emits it. -/
structure EncoderNal (n : Bytes) : Prop where
  wellFormed : WellFormed n
  type : typeOf n ∈ [1, 5, 6, 7, 8, 9]

instance : DecidablePred EncoderNal := fun n =>
  decidable_of_iff (WellFormed n ∧ typeOf n ∈ [1, 5, 6, 7, 8, 9])
    ⟨fun ⟨hformed, htype⟩ => ⟨hformed, htype⟩, fun h => ⟨h.wellFormed, h.type⟩⟩

/-- The drain of a call delivers these units, each a list of NALs in one piece, up to the first one
that cannot be retrieved. -/
inductive Delivers : List (Option VencOutputBuffer) → List (List Bytes) → Prop where
  | nil : Delivers [] []
  | stop (us : List (Option VencOutputBuffer)) : Delivers (none :: us) []
  | unit {o : VencOutputBuffer} {ns : List Bytes} {us : List (Option VencOutputBuffer)}
      {units : List (List Bytes)} (ho : Contiguous o (avcc ns)) (hns : ∀ n ∈ ns, EncoderNal n)
      (h : Delivers us units) : Delivers (some o :: us) (ns :: units)

/-- The bytes a unit leaves in the output: start codes for lengths, unless it opens with a one-byte
NAL, whose length reads as a start code. -/
def carried (ns : List Bytes) : Bytes :=
  if ns.head?.map List.length = some 1 then avcc ns else annexB ns

/-- The NAL types that a call's units carry. -/
def carriedTypes (units : List (List Bytes)) : List UInt8 := types (units.flatMap carried)

/-- The header is an avcC record with an SPS and a PPS, and no slice. -/
structure CarriesSets (raw : Bytes) (sps pps : List Bytes) : Prop where
  record : Record raw sps pps
  nals : ∀ n ∈ sps ++ pps, WellFormed n ∧ isSlice (typeOf n) = false
  hasSps : ∃ n ∈ sps ++ pps, typeOf n = 7
  hasPps : ∃ n ∈ sps ++ pps, typeOf n = 8

/-- What is assumed of a call of `next`: the header, where it is fetched, carries the parameter
sets, and the drain delivers units of the encoder. -/
def InDomain (libs : VendorLibs) (s : Session) : Call → Prop
  | .next a =>
    (s.world.cap.spsPpsFetched = false →
      libs.videoEncGetParameter = true ∧ a.header.usable = true ∧
        ∃ sps pps, CarriesSets (a.header.raw libs) sps pps) ∧
    ∃ units, Delivers a.drain units
  | _ => True

/-! ## The condition -/

/-- An IDR among the drained NALs is the first slice, and either the frame counter is 0, or no
parameter set comes before it, or both do. -/
def Meets (frames : Int32) (ts : List UInt8) : Prop :=
  5 ∈ ts → ts.find? isSlice = some 5 ∧
    (frames = 0 ∨ (¬ ∃ t ∈ ts.takeWhile (!isSlice ·), t = 7 ∨ t = 8) ∨ SetsFirst ts)

/-- A call of `next` meets the condition. -/
def MeetsCall (s : Session) : Call → Prop
  | .next a => ∀ units, Delivers a.drain units → Meets s.world.cap.frames (carriedTypes units)
  | _ => True

/-! ## The drained units -/

/-- A unit of the encoder adds the NAL units in it. -/
theorem appendUnit_of_nals {o : VencOutputBuffer} {ns : List Bytes} (h : Contiguous o (avcc ns))
    (hns : ∀ n ∈ ns, n ≠ []) (out : Bytes) : appendUnit out o = out ++ carried ns := by
  have hlen : (avcc ns).length < 2 ^ 32 := by
    rw [← h.total]
    exact o.nTotalSize.toNat_lt
  cases ns with
  | nil =>
    -- nothing is handed over
    obtain ⟨p, hp, -⟩ := h.data0
    have htotal : o.nTotalSize = 0 := UInt32.toNat_inj.mp h.total
    have hsizes : ¬ (o.nSize0 ≠ 0 ∧ o.nSize0 + o.nSize1 = o.nTotalSize) := by
      rcases h.sizes with ⟨hzero, -⟩ | hno
      · exact fun hc => hc.1 (UInt32.toNat_inj.mp hzero)
      · exact hno
    unfold appendUnit
    simp only [hp]
    rw [if_neg hsizes, if_neg (not_not.mpr htotal)]
    exact (List.append_nil out).symm
  | cons n ns =>
    have hcarried : appended (avcc (n :: ns)) = carried (n :: ns) := by
      unfold carried
      split
      next hone => exact appended_of_startCode (startCode_avcc (by simpa using hone))
      next hone => exact appended_avcc hns hlen hone
    have hne : appended (avcc (n :: ns)) ≠ [] := by
      rw [hcarried]
      unfold carried
      split <;> simp [avcc_cons, annexB_cons, be32, startCode]
    rw [appendUnit_of_contiguous h hne, hcarried]

/-- The encoder emits no empty unit. -/
theorem EncoderNal.ne_nil {n : Bytes} (h : EncoderNal n) : n ≠ [] := h.wellFormed.ne_nil

/-- The drain appends what its units carry. -/
theorem drained_of_delivers {us : List (Option VencOutputBuffer)} {units : List (List Bytes)}
    (h : Delivers us units) (out : Bytes) : drained out us = out ++ units.flatMap carried := by
  induction h generalizing out with
  | nil => simp [drained]
  | stop us => simp [drained]
  | unit ho hns h ih =>
    rw [drained, ih, appendUnit_of_nals ho fun n hn => (hns n hn).ne_nil, List.flatMap_cons,
      List.append_assoc]

/-- The two segments of a buffer determine its contents. -/
theorem contiguous_unique {o : VencOutputBuffer} {d d' : Bytes} (h : Contiguous o d)
    (h' : Contiguous o d') : d = d' := by
  obtain ⟨p, hp, htake⟩ := h.data0
  obtain ⟨p', hp', htake'⟩ := h'.data0
  obtain rfl : p = p' := Option.some.inj (hp.symm.trans hp')
  rw [← htake, ← htake', ← h.total, ← h'.total]

/-- What a drain delivers is determined by it. -/
theorem delivers_unique {us : List (Option VencOutputBuffer)} {units units' : List (List Bytes)}
    (h : Delivers us units) (h' : Delivers us units') : units = units' := by
  induction h generalizing units' with
  | nil =>
    cases h'
    rfl
  | stop us =>
    cases h'
    rfl
  | @unit o ns us units ho hns h ih =>
    cases h' with
    | @unit _ ns' _ units' ho' hns' h' =>
      have hlen : (avcc ns').length < 2 ^ 32 := by
        rw [← ho'.total]
        exact o.nTotalSize.toNat_lt
      rw [ih h', avcc_inj (contiguous_unique ho ho') hlen]

/-- Units that do not open with a one-byte NAL carry the types of their NALs. -/
theorem carriedTypes_eq {units : List (List Bytes)}
    (hns : ∀ ns ∈ units, ∀ n ∈ ns, EncoderNal n)
    (hhead : ∀ ns ∈ units, ns.head?.map List.length ≠ some 1) :
    carriedTypes units = units.flatten.map typeOf := by
  have hcarried : units.flatMap carried = annexB units.flatten := by
    clear hns
    induction units with
    | nil => rfl
    | cons ns units ih =>
      obtain ⟨hfirst, hhead⟩ := List.forall_mem_cons.mp hhead
      rw [List.flatMap_cons, ih hhead, List.flatten_cons, annexB_append, carried, if_neg hfirst]
  unfold carriedTypes
  rw [hcarried, types_annexB]
  intro n hn
  obtain ⟨ns, hmem, hn⟩ := List.mem_flatten.mp hn
  exact (hns ns hmem n hn).wellFormed

/-! ## The parameter sets -/

/-- The bytes are parameter sets behind start codes: an SPS, a PPS, and no slice. -/
def SetsBytes (sets : Bytes) : Prop :=
  ∃ ns, sets = annexB ns ∧ (∀ n ∈ ns, WellFormed n ∧ isSlice (typeOf n) = false) ∧
    (∃ n ∈ ns, typeOf n = 7) ∧ ∃ n ∈ ns, typeOf n = 8

/-- What a fetch keeps of such a header. -/
theorem setsBytes_fetched {libs : VendorLibs} {hdr : HeaderAnswer} {sps pps : List Bytes}
    (hget : libs.videoEncGetParameter = true) (husable : hdr.usable = true)
    (h : CarriesSets (hdr.raw libs) sps pps) : SetsBytes (fetchedSets libs hdr) := by
  obtain ⟨n, hn, -⟩ := h.hasSps
  have hne : sps ++ pps ≠ [] := List.ne_nil_of_mem hn
  refine ⟨sps ++ pps, ?_, h.nals, h.hasSps, h.hasPps⟩
  rw [fetchedSets, if_pos ⟨hget, husable⟩, headerSets,
    if_pos ⟨h.record.lt_length hne, h.record.headD⟩, avccRecordToAnnexb_of_record h.record hne]

/-! ## One frame -/

/-- Sets in front of a list of types: they bring no slice and no IDR, and they come first. -/
theorem types_sets {sets : Bytes} (h : SetsBytes sets) :
    ∃ ps : List UInt8, (∀ t ∈ ps, isSlice t = false) ∧ 7 ∈ ps ∧ 8 ∈ ps ∧
      ∀ d, types (sets ++ d) = ps ++ types d := by
  obtain ⟨ns, rfl, hns, ⟨n, hn, h7⟩, m, hm, h8⟩ := h
  refine ⟨ns.map typeOf, ?_, ?_, ?_, types_annexB_append fun n hn => (hns n hn).1⟩
  · rw [List.forall_mem_map]
    exact fun n hn => (hns n hn).2
  · exact h7 ▸ List.mem_map_of_mem hn
  · exact h8 ▸ List.mem_map_of_mem hm

section Prefix

variable {ps ts : List UInt8}

/-- With both sets in front the sets come first. -/
theorem setsFirst_append (hps : ∀ t ∈ ps, isSlice t = false) (h7 : 7 ∈ ps) (h8 : 8 ∈ ps) :
    SetsFirst (ps ++ ts) := by
  have htake : (ps ++ ts).takeWhile (· ≠ 5) = ps ++ ts.takeWhile (· ≠ 5) := by
    refine List.takeWhile_append_of_pos fun t ht => decide_eq_true ?_
    rintro rfl
    exact absurd (hps 5 ht) (by decide)
  unfold SetsFirst
  rw [htake]
  exact ⟨List.mem_append_left _ h7, List.mem_append_left _ h8⟩

/-- The sets in front are passed over in the search for a slice. -/
theorem find?_append_of_sets (hps : ∀ t ∈ ps, isSlice t = false) :
    (ps ++ ts).find? isSlice = ts.find? isSlice := by
  rw [List.find?_append, List.find?_eq_none.mpr fun t ht => by simp [hps t ht]]
  rfl

/-- They add no IDR slice. -/
theorem mem_five_append (hps : ∀ t ∈ ps, isSlice t = false) : 5 ∈ ps ++ ts ↔ 5 ∈ ts := by
  rw [List.mem_append, or_iff_right]
  exact fun h => absurd (hps 5 h) (by decide)

/-- Sets in front are seen by the test that decides about the prefix. -/
theorem startsWithParameterSets_of_types {d : Bytes} (hps : ∀ t ∈ ps, isSlice t = false)
    (hset : ∃ t ∈ ps, t = 7 ∨ t = 8) (htypes : types d = ps ++ ts) :
    startsWithParameterSets d = true := by
  obtain ⟨t, ht, h⟩ := hset
  rw [startsWithParameterSets_iff, htypes,
    List.takeWhile_append_of_pos fun t ht => by rw [hps t ht]; rfl]
  exact ⟨t, List.mem_append_left _ ht, h⟩

end Prefix

/-- **Putting parameter sets in front is stable**, whatever bytes they are put in front of: it does
not change the first slice, and there is nothing left to put in front the second time. -/
theorem sets_stable (sets : List Bytes) (hne : sets ≠ [])
    (hsets : ∀ n ∈ sets, WellFormed n ∧ (typeOf n = 7 ∨ typeOf n = 8)) (u : Bytes) :
    firstSliceIsIdr (annexB sets ++ u) = firstSliceIsIdr u ∧
      startsWithParameterSets (annexB sets ++ u) = true ∧
      (frameOf (annexB sets) u).isKeyframe = firstSliceIsIdr (frameOf (annexB sets) u).data ∧
      frameOf (annexB sets) (frameOf (annexB sets) u).data = frameOf (annexB sets) u := by
  have htypes := types_annexB_append (fun n hn => (hsets n hn).1) u
  have hslice : ∀ t ∈ sets.map typeOf, isSlice t = false := by
    rw [List.forall_mem_map]
    intro n hn
    rcases (hsets n hn).2 with h | h <;> rw [h] <;> rfl
  obtain ⟨n, hn⟩ := List.exists_mem_of_ne_nil sets hne
  have hfirst : firstSliceIsIdr (annexB sets ++ u) = firstSliceIsIdr u := by
    rw [Bool.eq_iff_iff, firstSliceIsIdr_iff, firstSliceIsIdr_iff, htypes,
      find?_append_of_sets hslice]
  have hstarts : startsWithParameterSets (annexB sets ++ u) = true :=
    startsWithParameterSets_of_types hslice
      ⟨typeOf n, List.mem_map_of_mem hn, (hsets n hn).2⟩ htypes
  refine ⟨hfirst, hstarts, ?_⟩
  -- spliced or not, a second look would leave the frame alone
  by_cases hsplice : firstSliceIsIdr u ∧ annexB sets ≠ [] ∧ startsWithParameterSets u = false
  · have hframe : frameOf (annexB sets) u = ⟨annexB sets ++ u, firstSliceIsIdr u⟩ := if_pos hsplice
    rw [hframe]
    refine ⟨hfirst.symm, ?_⟩
    rw [frameOf, if_neg fun h => absurd h.2.2 (by rw [hstarts]; decide), hfirst]
  · have hframe : frameOf (annexB sets) u = ⟨u, firstSliceIsIdr u⟩ := if_neg hsplice
    rw [hframe]
    exact ⟨rfl, hframe⟩

/-- An SPS and a PPS, in front of bytes that a start code would have to reach back for. -/
theorem sets_stable_junction :
    firstSliceIsIdr (annexB [[0x67, 0x42], [0x68, 0xce]] ++ [0, 1, 0x65]) =
      firstSliceIsIdr [0, 1, 0x65] :=
  (sets_stable [[0x67, 0x42], [0x68, 0xce]] (by decide) (by decide) [0, 1, 0x65]).1

/-- **The frame made of drained bytes is decodable exactly where their types meet the
condition.** -/
theorem decodable_frameOf_iff {sets : Bytes} (hsets : SetsBytes sets) (frames : Int32) (d : Bytes) :
    Decodable (frameOf sets ((if frames = 0 then sets else []) ++ d)) ↔ Meets frames (types d) := by
  obtain ⟨ps, hps, h7, h8, htypes⟩ := types_sets hsets
  have hne : sets ≠ [] := by
    rintro rfl
    have hnil : ps = [] := List.self_eq_append_left.mp (htypes [])
    rw [hnil] at h7
    exact absurd h7 List.not_mem_nil
  by_cases hzero : frames = 0
  · -- the sets are in front already
    have hstarts := startsWithParameterSets_of_types hps ⟨7, h7, Or.inl rfl⟩ (htypes d)
    rw [if_pos hzero, frameOf, if_neg fun h => absurd h.2.2 (by rw [hstarts]; decide)]
    unfold Decodable Meets
    simp only [htypes, mem_five_append hps, firstSliceIsIdr_iff, find?_append_of_sets hps]
    refine imp_congr_right fun _ => and_congr_right fun _ => ?_
    exact iff_of_true (setsFirst_append hps h7 h8) (Or.inl hzero)
  · rw [if_neg hzero, List.nil_append]
    unfold frameOf
    split
    next hkey =>
      -- the sets are put in front of a keyframe that has none
      refine iff_of_true (fun _ => ⟨hkey.1, ?_⟩) fun _ => ⟨firstSliceIsIdr_iff.mp hkey.1, ?_⟩
      · show SetsFirst (types (sets ++ d))
        rw [htypes]
        exact setsFirst_append hps h7 h8
      · refine Or.inr (Or.inl ?_)
        rw [← startsWithParameterSets_iff, hkey.2.2]
        decide
    next hkey =>
      unfold Decodable Meets
      simp only [firstSliceIsIdr_iff]
      refine imp_congr_right fun _ => and_congr_right fun hfirst => ?_
      have hstarts : startsWithParameterSets d = true := by
        by_contra hno
        exact hkey ⟨firstSliceIsIdr_iff.mpr hfirst, hne, Bool.eq_false_iff.mpr hno⟩
      rw [or_iff_right hzero, or_iff_right (not_not.mpr (startsWithParameterSets_iff.mp hstarts))]

/-- **The frame a call returns is decodable exactly where the call meets the condition.** -/
theorem decodable_nextFrame_iff {libs : VendorLibs} {k : Capture} {a : NextAnswers}
    {units : List (List Bytes)} (hsets : SetsBytes (nextSets libs k a))
    (h : Delivers a.drain units) :
    Decodable (nextFrame libs k a) ↔ Meets k.frames (carriedTypes units) := by
  unfold nextFrame nextOut
  rw [drained_of_delivers h]
  exact decodable_frameOf_iff hsets k.frames (units.flatMap carried)

/-! ## Runs -/

/-- What every session past `init` keeps: a capture that still delivers has its parameter sets once
they are fetched, and every frame returned so far is decodable. -/
structure Kept (s : Session) : Prop where
  opened : ∀ args, s.phase ≠ .opening args
  sets : s.phase = .ready → s.world.cap.failed = none → s.world.cap.spsPpsFetched = true →
    SetsBytes s.world.cap.spsPps
  frames : ∀ f, .frame f ∈ s.world.trace → Decodable f

section Run

variable {libs : VendorLibs} {s s' : Session} {call : Call}

/-- Only the end of a call returns a frame. -/
theorem frame_of_nextTrace {k : Capture} {es : List Event} (h : NextTrace k es) (f : Frame) :
    .frame f ∉ es := by
  induction h with
  | nil => exact List.not_mem_nil
  | call h hc ih => simpa using ih
  | unit h o ih => simpa using ih
  | copied h c hc hread ih => simpa using ih

/-- Events that return no frame leave every frame decodable. -/
theorem Kept.frames_append (hs : Kept s) (es : List Event) (hno : ∀ f, .frame f ∉ es) :
    ∀ f, .frame f ∈ s.world.trace ++ es → Decodable f := by
  intro f hf
  rcases List.mem_append.mp hf with hold | hnew
  · exact hs.frames f hold
  · exact absurd hnew (hno f)

/-- The parameter sets a call of `next` works with. -/
theorem setsBytes_nextSets {a : NextAnswers} (hdom : InDomain libs s (.next a)) (hs : Kept s)
    (hphase : s.phase = .ready) (hlive : s.world.cap.failed = none) :
    SetsBytes (nextSets libs s.world.cap a) := by
  unfold nextSets
  by_cases hfetched : s.world.cap.spsPpsFetched = true
  · rw [if_pos hfetched]
    exact hs.sets hphase hlive hfetched
  · rw [if_neg hfetched]
    obtain ⟨hget, husable, sps, pps, hcarries⟩ := hdom.1 (Bool.eq_false_iff.mpr hfetched)
    exact setsBytes_fetched hget husable hcarries

/-- A step whose call meets the condition keeps every frame decodable. -/
theorem kept_of_steps (hdom : InDomain libs s call) (hmeets : MeetsCall s call)
    (h : Steps libs s call s') (hs : Kept s) : Kept s' := by
  cases h with
  | opened hphase hinit => exact absurd hphase (hs.opened _)
  | gaveUp hphase hinit => exact absurd hphase (hs.opened _)
  | refused hphase hfailed =>
    exact ⟨nofun, fun _ => hs.sets hphase, hs.frames_append _ fun f => by simp⟩
  | @returned a w hphase hlive h =>
    have hsets := setsBytes_nextSets hdom hs hphase hlive
    obtain ⟨units, hunits⟩ := hdom.2
    obtain ⟨es, hes, htrace⟩ := h.trace
    refine ⟨nofun, fun _ _ _ => ?_, fun f hf => ?_⟩
    · exact h.spsPps_eq.symm ▸ hsets
    · rcases List.mem_append.mp hf with hold | hnew
      · rw [htrace] at hold
        exact hs.frames_append es (frame_of_nextTrace hes) f hold
      · -- the frame this call returns
        obtain rfl := Event.frame.inj (List.mem_singleton.mp hnew)
        exact (decodable_nextFrame_iff hsets hunits).mpr (hmeets units hunits)
  | @failed a e w hphase hlive h =>
    obtain ⟨es, hes, htrace⟩ := h.trace
    refine ⟨nofun, fun _ hnone => ?_, fun f hf => ?_⟩
    · have hsome : w.cap.failed = some e := h.failed e rfl
      exact absurd (hsome.symm.trans hnone) nofun
    · refine hs.frames_append (es ++ [.failed e]) (fun f => ?_) f ?_
      · simpa using frame_of_nextTrace hes f
      · rw [← List.append_assoc, ← htrace]
        exact hf
  | panicked hphase hlive h =>
    obtain ⟨es, hes, htrace⟩ := h.trace
    refine ⟨nofun, nofun, fun f hf => ?_⟩
    rw [htrace] at hf
    exact hs.frames_append es (frame_of_nextTrace hes) f hf
  | requested hphase => exact ⟨nofun, fun _ => hs.sets hphase, hs.frames⟩
  | dropped hphase =>
    refine ⟨nofun, nofun, fun f hf => ?_⟩
    rw [List.append_assoc] at hf
    exact hs.frames_append _ (fun f => by simp) f hf

/-- What `init` leaves behind, however it ends. -/
theorem kept_of_init {args : OpenArgs} {a : InitAnswers}
    (h : (Session.start args).step libs (.init a) = some s) : Kept s := by
  have hno : ∀ {y c : UInt32} {st : Stage}, Traced y c [.claimed] st s.world →
      ∀ f, .frame f ∈ s.world.trace → Decodable f := by
    intro y c st htraced f hf
    rcases vendor_of_traced htraced hf with hclaimed | ⟨v, hv⟩
    · cases hclaimed
    · cases hv
  rcases step_init h with ⟨hphase, geo, -, -, hmid⟩ | ⟨hphase, st, hreached⟩
  · refine ⟨by rw [hphase]; nofun, fun _ _ hfetched => ?_, hno hmid.trace⟩
    have hfalse : (opened args geo a.now).spsPpsFetched = true := hmid.cap ▸ hfetched
    exact absurd hfalse Bool.false_ne_true
  · obtain ⟨y, c, htraced⟩ := hreached.trace
    refine ⟨by rw [hphase]; nofun, fun hready => ?_, hno htraced⟩
    exact absurd (hphase.symm.trans hready) nofun

/-- **Every keyframe is decodable** in every run whose calls all meet the condition. -/
theorem frames_decodable {args : OpenArgs} {calls : List Call}
    (hok : Guarded (fun s call => InDomain libs s call ∧ MeetsCall s call) (Session.step libs)
      (.start args) calls)
    (hrun : run (Session.step libs) (.start args) calls = some s) :
    ∀ f, .frame f ∈ s.world.trace → Decodable f := by
  cases calls with
  | nil =>
    obtain rfl := Option.some.inj hrun
    intro f hf
    cases List.mem_singleton.mp hf
  | cons call calls =>
    obtain ⟨s₀, hinit, hrest⟩ := run_cons_eq_some.mp hrun
    obtain ⟨a, rfl⟩ := step_start args hinit
    have hkept : Kept s := run_invariant_of_guarded
      (fun s call s' hok hstep hs => kept_of_steps hok.1 hok.2 (steps_of_step hstep) hs)
      (hok.2 s₀ hinit) hrest (kept_of_init hinit)
    exact hkept.frames

end Run

/-! ## A small stream -/

def sps : Bytes := [0x67, 0x42]

def pps : Bytes := [0x68, 0xce]

def idr : Bytes := [0x65, 0x88]

def slice : Bytes := [0x41, 0x9a]

/-- A unit of these NALs in one piece. -/
def unitOf (ns : List Bytes) : VencOutputBuffer :=
  ⟨0, .ofNat (avcc ns).length, some (avcc ns), none, .ofNat (avcc ns).length, 0⟩

/-- The drain of these units; `cut` where one more is reported and cannot be retrieved. -/
def drainOf (units : List (List Bytes)) (cut : Bool) : List (Option VencOutputBuffer) :=
  units.map (fun ns => some (unitOf ns)) ++ if cut then [none] else []

/-- A call of `next` that nothing stops. The header is an avcC record of `sps` and `pps`. -/
def call (units : List (List Bytes)) (cut : Bool) : Call :=
  .next ⟨0, 0, 0, 0, .ok [0], 0, 0, 0,
    ⟨0, some [1, 0x42, 0, 0x1f, 0xff, 0xe1, 0, 2, 0x67, 0x42, 1, 0, 2, 0x68, 0xce], 15, none⟩,
    drainOf units cut, 0, 0⟩

/-- A panel of four pixels, streamed as it is. -/
def fourPixels : FbGeometry := ⟨2, 2, 32, 8⟩

def unscaled : OpenArgs := ⟨2, 2, 0, 0, 60, 0, .argb, false⟩

/-- The drain of the schedule delivers its units. -/
theorem delivers_drainOf {units : List (List Bytes)} {cut : Bool}
    (h : ∀ ns ∈ units, (∀ n ∈ ns, EncoderNal n) ∧ (avcc ns).length < 2 ^ 32) :
    Delivers (drainOf units cut) units := by
  induction units with
  | nil =>
    cases cut with
    | false => exact .nil
    | true => exact .stop []
  | cons ns units ih =>
    obtain ⟨⟨hns, hlen⟩, h⟩ := List.forall_mem_cons.mp h
    have htotal : (UInt32.ofNat (avcc ns).length).toNat = (avcc ns).length := by
      rw [UInt32.toNat_ofNat']
      exact Nat.mod_eq_of_lt hlen
    exact .unit ⟨htotal, ⟨_, rfl, List.take_length⟩, Or.inl ⟨htotal, rfl⟩⟩ hns (ih h)

/-- A call of the schedule is one that the theorem is about. -/
theorem inDomain_call {s : Session} {units : List (List Bytes)} {cut : Bool}
    (h : ∀ ns ∈ units, (∀ n ∈ ns, EncoderNal n) ∧ (avcc ns).length < 2 ^ 32) :
    InDomain fullLibs s (call units cut) := by
  refine ⟨fun _ => ⟨rfl, rfl, [sps], [pps], ?_⟩, units, delivers_drainOf h⟩
  exact ⟨⟨⟨0x42, 0, 0x1f, 0xff, 0xe1, [], rfl, rfl⟩, by decide, by decide⟩, by decide,
    ⟨sps, by decide, by decide⟩, ⟨pps, by decide, by decide⟩⟩

/-- A call whose units meet the condition whatever the frame counter is. -/
theorem guard_call {units : List (List Bytes)} {cut : Bool}
    (h : ∀ ns ∈ units, (∀ n ∈ ns, EncoderNal n) ∧ (avcc ns).length < 2 ^ 32)
    (hmeets : ∀ frames, Meets frames (carriedTypes units)) (s : Session) :
    InDomain fullLibs s (call units cut) ∧ MeetsCall s (call units cut) :=
  ⟨inDomain_call h, fun _ h' => delivers_unique (delivers_drainOf h) h' ▸ hmeets _⟩

/-- A keyframe, a delta frame, and a forced keyframe that brings its own parameter sets. -/
def steady : List Call :=
  [.init (goodInit fourPixels), call [[idr]] false, call [[slice]] false, .requestIdr,
    call [[sps, pps, idr]] false, .drop 0]

/-- Every call of that session is in the domain, so its frames can be decoded. -/
theorem frames_decodable_steady :
    ∃ s, run (Session.step fullLibs) (.start unscaled) steady = some s ∧
      ∀ f, .frame f ∈ s.world.trace → Decodable f := by
  have hidr : ∀ frames, Meets frames (carriedTypes [[idr]]) := by
    intro frames _
    have htypes : carriedTypes [[idr]] = [5] := carriedTypes_eq (by decide) (by decide)
    rw [htypes]
    exact ⟨rfl, Or.inr (Or.inl (by simp [isSlice]))⟩
  have hslice : ∀ frames, Meets frames (carriedTypes [[slice]]) := by
    intro frames
    rw [carriedTypes_eq (by decide) (by decide)]
    exact fun h => absurd h (by decide)
  have hsets : ∀ frames, Meets frames (carriedTypes [[sps, pps, idr]]) := by
    intro frames
    rw [carriedTypes_eq (by decide) (by decide)]
    exact fun _ => ⟨rfl, Or.inr (Or.inr ⟨by decide, by decide⟩)⟩
  have hsome : (run (Session.step fullLibs) (.start unscaled) steady).isSome = true := by
    decide +kernel
  obtain ⟨s, hs⟩ := Option.isSome_iff_exists.mp hsome
  refine ⟨s, hs, @frames_decodable fullLibs s unscaled steady ?_ hs⟩
  apply guarded_of_forall
  simp only [steady, List.forall_mem_cons, List.not_mem_nil, false_imp_iff, implies_true, and_true]
  exact ⟨fun _ => ⟨trivial, trivial⟩, guard_call (by decide) hidr, guard_call (by decide) hslice,
    fun _ => ⟨trivial, trivial⟩, guard_call (by decide) hsets, fun _ => ⟨trivial, trivial⟩⟩

/-- A keyframe whose drain stops early, and a call that drains what was left over, a delta slice,
ahead of its own keyframe. -/
def leftover : List Call :=
  [.init (goodInit fourPixels), call [[idr]] true, call [[slice], [idr]] false]

/-- The second frame of `leftover` has an IDR behind a slice: it does not say so, and it has no
parameter sets. -/
theorem not_decodable :
    ¬ ∀ libs args calls s, Guarded (InDomain libs) (Session.step libs) (.start args) calls →
      run (Session.step libs) (.start args) calls = some s →
        ∀ f, .frame f ∈ s.world.trace → Decodable f := by
  intro h
  have hguard : Guarded (InDomain fullLibs) (Session.step fullLibs) (.start unscaled) leftover := by
    apply guarded_of_forall
    simp only [leftover, List.forall_mem_cons, List.not_mem_nil, false_imp_iff, implies_true,
      and_true]
    exact ⟨fun s => trivial, fun s => inDomain_call (by decide), fun s => inDomain_call (by decide)⟩
  have hframe : ∃ s, run (Session.step fullLibs) (.start unscaled) leftover = some s ∧
      .frame ⟨annexB [slice, idr], false⟩ ∈ s.world.trace := ⟨_, rfl, by decide⟩
  obtain ⟨s, hrun, hmem⟩ := hframe
  exact absurd (h _ _ _ s hguard hrun _ hmem (by decide)).1 (by decide)

end RgspCast.Keyframes
