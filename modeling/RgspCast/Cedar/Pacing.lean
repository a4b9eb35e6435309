import RgspCast.Cedar.Calls

/-!
# What the encoder is told, and when

Every number that `init` and `next` hand to the encoder goes through `VideoEncSetParameter`, so the
trace says what the encoder was told (`parameters`): `init_told` for the bitrate and the
key-frame interval, `nextLive_pacing` for a forced key frame. The same two functions keep the
clock of the capture (`Pacing`), which `next` moves on by one frame interval a call, or past the
frames it missed.
-/

namespace RgspCast.Cedar

open Drain ExceptState

/-! ## Facts that a block keeps -/

/-- Where `m` returns, a fact from before still holds. -/
def Keeps {α : Type} (P : World → Prop) (m : VendorM α) : Prop :=
  Spec P m (fun _ => P) fun _ _ => True

section Keeps

variable {α β : Type} {P : World → Prop}

/-- A value alone changes nothing. -/
theorem keeps_pure (a : α) : Keeps P (pure a : VendorM α) := spec_pure fun _ h => h

/-- `bail` does not return. -/
theorem keeps_bail (text : String) : Keeps P (bail text : VendorM α) := spec_bail fun _ _ => trivial

/-- `fail` does not return. -/
theorem keeps_fail (text : String) : Keeps P (fail text : VendorM α) := spec_fail fun _ _ => trivial

/-- An exit does not return. -/
theorem keeps_throw (e : Exit) : Keeps P (throw e : VendorM α) := spec_throw fun _ _ => trivial

/-- Blocks that keep a fact keep it one after the other. -/
theorem Keeps.bind {m : VendorM β} {f : β → VendorM α} (hm : Keeps P m) (hf : ∀ b, Keeps P (f b)) :
    Keeps P (m >>= f) :=
  spec_bind hm hf

/-- Looking at the state keeps every fact. -/
theorem keeps_get_bind {f : World → VendorM α} (hf : ∀ w, Keeps P (f w)) : Keeps P (get >>= f) :=
  spec_get_bind fun w h => (hf w).weaken fun _ hw => hw ▸ h

/-- A conditional block keeps what the block keeps. -/
theorem keeps_when {c : Prop} [Decidable c] {m : VendorM Unit} (hm : Keeps P m) :
    Keeps P (when c m) :=
  spec_when (fun _ => hm) fun _ _ h => h

/-- The answer of a system call changes nothing. -/
theorem keeps_orBail (r : Except String α) : Keeps P (orBail r) :=
  spec_orBail (fun _ _ _ h => h) fun _ _ _ _ => trivial

end Keeps

/-! ## What `init` tells the encoder -/

/-- The parameters the encoder was given, in order. -/
def parameters (es : List Event) : List (Int32 × ℤ) :=
  es.filterMap fun
    | .vendor (.videoEncSetParameter idx value _) => some (idx, value.toInt)
    | _ => none

/-- The parameters of a trace that goes on. -/
theorem parameters_append (es fs : List Event) :
    parameters (es ++ fs) = parameters es ++ parameters fs :=
  List.filterMap_append

/-- The automatic key-frame interval; the product wraps. -/
def keyInterval (fps : Int32) : Int32 := if fps > 0 then fps * 60 else 1800

/-- What `init` tells the encoder of a capture that is to run at `fps`. -/
def initParameters (libs : VendorLibs) (args : OpenArgs) (fps : Int32) : List (Int32 × ℤ) :=
  (if args.bitrate > 0 then [(index.bitrate, args.bitrate.toInt)] else []) ++
    if libs.videoEncSetParameter then [(index.maxKeyInterval, (keyInterval fps).toInt)] else []

/-- The capture runs at `fps`, and the encoder was told `ps`. -/
def Told (fps : Int32) (ps : List (Int32 × ℤ)) (w : World) : Prop :=
  w.cap.fps = fps ∧ parameters w.trace = ps

section Told

variable {fps : Int32} {ps : List (Int32 × ℤ)} {libs : VendorLibs} {args : OpenArgs}
  {a : InitAnswers} {E : Exit → World → Prop}

/-- A change of the capture that leaves `fps` alone. -/
theorem told_modifyCap {f : Capture → Capture} (hf : ∀ c, (f c).fps = c.fps) :
    Keeps (Told fps ps) (modifyCap f) :=
  spec_modifyCap fun w h => ⟨(hf w.cap).trans h.1, h.2⟩

/-- A call that sets no parameter. -/
theorem told_call {c : VendorCall} (hc : parameters [.vendor c] = []) :
    Keeps (Told fps ps) (vendor c) :=
  spec_vendor fun w h => ⟨h.1, by rw [parameters_append, hc, List.append_nil, h.2]⟩

/-- A call that sets one: it is the last that the encoder was told. -/
theorem told_parameter (idx value rc : Int32) :
    Spec (Told fps ps) (vendor (.videoEncSetParameter idx value rc))
      (fun _ => Told fps (ps ++ [(idx, value.toInt)])) E :=
  spec_vendor fun w h => ⟨h.1, by rw [parameters_append, h.2]; rfl⟩

/-- The panel is opened without the encoder. -/
theorem openFramebuffer_told : Keeps (Told fps ps) (openFramebuffer args a) := by
  refine Keeps.bind (keeps_orBail _) fun geo => ?_
  refine Keeps.bind (told_modifyCap fun _ => rfl) fun _ => ?_
  refine Keeps.bind (keeps_orBail _) fun _ => ?_
  refine Keeps.bind (told_modifyCap fun _ => rfl) fun _ => ?_
  refine Keeps.bind (told_modifyCap fun _ => rfl) fun _ => ?_
  refine Keeps.bind (keeps_orBail _) fun _ => ?_
  refine Keeps.bind (told_modifyCap fun _ => rfl) fun _ => ?_
  refine Keeps.bind (keeps_when (keeps_throw _)) fun _ => ?_
  exact told_modifyCap fun _ => rfl

/-- So is the memory. -/
theorem openMemory_told : Keeps (Told fps ps) (openMemory libs a) := by
  refine Keeps.bind (told_call rfl) fun _ => Keeps.bind (told_call rfl) fun _ => ?_
  refine Keeps.bind (told_modifyCap fun _ => rfl) fun _ => ?_
  refine Keeps.bind (keeps_when (keeps_bail _)) fun _ => ?_
  refine Keeps.bind (keeps_when (keeps_bail _)) fun _ => Keeps.bind (told_call rfl) fun _ => ?_
  refine Keeps.bind (keeps_when (keeps_bail _)) fun _ => ?_
  exact Keeps.bind (told_modifyCap fun _ => rfl) fun _ => keeps_when (told_call rfl)

/-- Creating the encoder tells it nothing yet. -/
theorem createEncoder_told : Keeps (Told fps ps) (createEncoder a) :=
  Keeps.bind (told_call rfl) fun _ => Keeps.bind (told_modifyCap fun _ => rfl) fun _ =>
    keeps_when (keeps_bail _)

/-- The bitrate is told where one is asked for. -/
theorem setBitrate_told :
    Spec (Told fps ps) (setBitrate libs args a)
      (fun _ => Told fps
        (ps ++ if args.bitrate > 0 then [(index.bitrate, args.bitrate.toInt)] else []))
      fun _ _ => True := by
  refine spec_when (fun hpos => ?_) fun hpos w h => ?_
  · rw [if_pos hpos]
    refine spec_bind (keeps_when (keeps_bail _)) fun _ => ?_
    exact spec_bind (told_parameter _ _ _) fun _ => keeps_when (keeps_bail _)
  · rwa [if_neg hpos, List.append_nil]

/-- `VideoEncInit` takes a configuration, and no parameter. -/
theorem initEncoder_told : Keeps (Told fps ps) (initEncoder args a) :=
  keeps_get_bind fun _ => Keeps.bind (told_call rfl) fun _ =>
    Keeps.bind (keeps_when (keeps_bail _)) fun _ => told_modifyCap fun _ => rfl

/-- Nor does the allocation of the buffers. -/
theorem allocBuffers_told : Keeps (Told fps ps) (allocBuffers a) := by
  refine Keeps.bind (told_modifyCap fun _ => rfl) fun _ => keeps_get_bind fun _ => ?_
  refine Keeps.bind (told_call rfl) fun _ => Keeps.bind (keeps_when (keeps_bail _)) fun _ => ?_
  exact told_modifyCap fun _ => rfl

/-- The key-frame interval is told where the library can set parameters. -/
theorem setKeyInterval_told :
    Spec (Told fps ps) (setKeyInterval libs a)
      (fun _ => Told fps (ps ++
        if libs.videoEncSetParameter then [(index.maxKeyInterval, (keyInterval fps).toInt)]
        else []))
      fun _ _ => True := by
  refine spec_get_bind fun w h => Spec.weaken ?_ fun _ hw => hw ▸ h
  refine spec_when (fun hset => ?_) fun hset w h => ?_
  · rw [if_pos hset, h.1]
    exact told_parameter _ _ _
  · rwa [if_neg hset, List.append_nil]

/-- The first input buffer is fetched without a parameter. -/
theorem acquireFirst_told : Keeps (Told fps ps) (acquireFirst a) := by
  refine Keeps.bind (told_modifyCap fun _ => rfl) fun _ => Keeps.bind (told_call rfl) fun _ => ?_
  refine Keeps.bind (keeps_when (keeps_bail _)) fun _ => ?_
  exact Keeps.bind (told_modifyCap fun _ => rfl) fun _ => told_modifyCap fun _ => rfl

/-- **What `init` tells the encoder**: the bitrate, unless it is 0 or less, and the key-frame
interval, if it can be told anything. -/
theorem init_told :
    Spec (Told fps ps) (init libs args a)
      (fun _ => Told fps (ps ++ initParameters libs args fps)) fun _ _ => True := by
  unfold init initParameters
  rw [← List.append_assoc]
  refine spec_bind openFramebuffer_told fun _ => spec_bind openMemory_told fun _ => ?_
  refine spec_bind createEncoder_told fun _ => spec_bind setBitrate_told fun _ => ?_
  refine spec_bind initEncoder_told fun _ => spec_bind allocBuffers_told fun _ => ?_
  exact spec_bind setKeyInterval_told fun _ => acquireFirst_told

end Told

/-- A capture that could be opened: what its encoder was told, and that it could be told so. -/
theorem parameters_of_init {libs : VendorLibs} {args : OpenArgs} {a : InitAnswers}
    {t : List Event} {w : World} (h : init libs args a ⟨.new args, t⟩ = .ok () w) :
    parameters w.trace = parameters t ++ initParameters libs args (Capture.new args).fps ∧
      (args.bitrate > 0 → libs.videoEncSetParameter = true) := by
  obtain ⟨hgood, -⟩ := init_spec.of_ok rfl h
  exact ⟨(init_told.of_ok ⟨rfl, rfl⟩ h).2, fun hpos => (hgood.bitrate hpos).1⟩

/-! ## What `next` does to the clock -/

/-- The clock of a capture, and its pending IDR request. -/
structure Pacing where
  frameNs : ℤ
  deadline : ℤ
  forceIdr : Bool
  deriving DecidableEq, Repr

def Capture.pacing (c : Capture) : Pacing := ⟨c.frameNs, c.deadline, c.forceIdr⟩

/-- The next deadline is one frame interval on; where that is over when the call begins, the frames
missed are dropped. -/
def Pacing.paced (p : Pacing) (now : ℤ) : Pacing :=
  let deadline := p.deadline + p.frameNs
  { p with deadline := if deadline < now then now + p.frameNs else deadline }

/-- A call that returns a frame: it used the pending request up. -/
def Pacing.next (p : Pacing) (now : ℤ) : Pacing := { p.paced now with forceIdr := false }

/-- A fact about the clock and about what was done, which what is done later leaves true. -/
structure Stable (P : World → Prop) : Prop where
  cap : ∀ w c, c.pacing = w.cap.pacing → P w → P { w with cap := c }
  trace : ∀ w es, P w → P { w with trace := w.trace ++ es }

section Next

variable {P : World → Prop} {libs : VendorLibs} {a : NextAnswers} {p : Pacing} {t : List Event}

/-- A stable fact survives a change of the capture that leaves the clock alone. -/
theorem Stable.modifyCap (hP : Stable P) {f : Capture → Capture}
    (hf : ∀ c, (f c).pacing = c.pacing) : Keeps P (modifyCap f) :=
  spec_modifyCap fun w h => hP.cap w _ (hf w.cap) h

/-- It survives what is done later. -/
theorem Stable.emit (hP : Stable P) (es : List Event) : Keeps P (emit es) :=
  spec_emit fun w h => hP.trace w es h

/-- And so a vendor call. -/
theorem Stable.vendor (hP : Stable P) (c : VendorCall) : Keeps P (vendor c) := hP.emit _

/-- The read of the panel does not touch the clock. -/
theorem readFramebuffer_keeps (hP : Stable P) : Keeps P (readFramebuffer a) := by
  refine keeps_get_bind fun w => ?_
  cases readVisible w.cap.fbBuf a.read with
  | ok r => exact hP.modifyCap fun _ => rfl
  | error e => exact Keeps.bind (hP.modifyCap fun _ => rfl) fun _ => keeps_fail _

/-- The conversion fills the input buffer only. -/
theorem convert_keeps (hP : Stable P) : Keeps P (convert a) := by
  refine keeps_get_bind fun w => Keeps.bind (hP.emit _) fun _ => ?_
  refine Keeps.bind (hP.modifyCap fun _ => rfl) fun _ => ?_
  exact Keeps.bind (keeps_when (keeps_throw _)) fun _ => hP.modifyCap fun _ => rfl

/-- The input buffer is handed over. -/
theorem submit_keeps (hP : Stable P) : Keeps P (submit a) := by
  refine keeps_get_bind fun w => Keeps.bind (hP.vendor _) fun _ => ?_
  exact Keeps.bind (hP.vendor _) fun _ => keeps_when (keeps_fail _)

theorem encode_keeps (hP : Stable P) : Keeps P (encode a) := by
  refine keeps_get_bind fun w => Keeps.bind (hP.vendor _) fun _ => ?_
  exact Keeps.bind (keeps_when (keeps_fail _)) fun _ => hP.modifyCap fun _ => rfl

/-- The parameter sets are fetched. -/
theorem fetchSpsPps_keeps (hP : Stable P) (hdr : HeaderAnswer) :
    Keeps P (fetchSpsPps libs hdr) := by
  refine spec_ite (fun _ => ?_) fun _ => keeps_pure _
  refine Keeps.bind (hP.vendor _) fun _ => spec_ite (fun _ => ?_) fun _ => keeps_pure _
  exact Keeps.bind (keeps_when (hP.vendor _)) fun _ => keeps_pure _

/-- They are fetched at most once. -/
theorem fetchOnce_keeps (hP : Stable P) : Keeps P (fetchOnce libs a) :=
  keeps_get_bind fun _ => keeps_when <|
    Keeps.bind (fetchSpsPps_keeps hP _) fun _ => hP.modifyCap fun _ => rfl

/-- The prefix goes into the output. -/
theorem prefixFirstFrame_keeps (hP : Stable P) : Keeps P prefixFirstFrame :=
  hP.modifyCap fun c => by split <;> rfl

/-- So do the units that are drained, by induction over the answers. -/
theorem drainLoop_keeps (hP : Stable P) (beforeDrain : ℕ) (us : List (Option VencOutputBuffer)) :
    Keeps P (drainLoop beforeDrain us) := by
  induction us with
  | nil => exact hP.vendor _
  | cons u us ih =>
    cases u with
    | none =>
      refine Keeps.bind (hP.vendor _) fun _ => Keeps.bind (hP.vendor _) fun _ => ?_
      exact keeps_get_bind fun _ => keeps_when (keeps_fail _)
    | some o =>
      refine Keeps.bind (hP.vendor _) fun _ => Keeps.bind (hP.vendor _) fun _ => ?_
      refine Keeps.bind (hP.modifyCap fun _ => rfl) fun _ => ?_
      exact Keeps.bind (hP.vendor _) fun _ => ih

theorem collectOutput_keeps (hP : Stable P) : Keeps P (collectOutput libs a) :=
  Keeps.bind (fetchOnce_keeps hP) fun _ => Keeps.bind (prefixFirstFrame_keeps hP) fun _ =>
    keeps_get_bind fun _ => drainLoop_keeps hP _ _

/-- The input buffer goes back. -/
theorem recycle_keeps (hP : Stable P) (rc : Int32) : Keeps P (recycle rc) :=
  Keeps.bind (hP.vendor _) fun _ => keeps_when (hP.vendor _)

/-- The next one is fetched. -/
theorem acquire_keeps (hP : Stable P) : Keeps P (acquire a) := by
  refine Keeps.bind (hP.modifyCap fun _ => rfl) fun _ => Keeps.bind (hP.vendor _) fun _ => ?_
  exact keeps_when <| Keeps.bind (hP.modifyCap fun _ => rfl) fun _ =>
    keeps_get_bind fun _ => keeps_fail _

/-- The frame is made of the output. -/
theorem finishFrame_keeps (hP : Stable P) : Keeps P finishFrame := by
  refine Keeps.bind (hP.modifyCap fun _ => rfl) fun _ => keeps_get_bind fun w => ?_
  refine Keeps.bind (keeps_when (hP.modifyCap fun _ => rfl)) fun _ => ?_
  exact keeps_get_bind fun _ => keeps_pure _

/-- The encoder was told to make a key frame since the trace was `t`. -/
def ToldToForce (t : List Event) (w : World) : Prop :=
  ∃ es, w.trace = t ++ es ∧ (index.forceKeyFrame, 1) ∈ parameters es

/-- The clock is `p`, and everything so far came behind `t`. -/
def Paced (p : Pacing) (t : List Event) (w : World) : Prop :=
  w.cap.pacing = p ∧ t <+: w.trace

/-- A pending request was passed on, if the encoder can be told anything. -/
def Forced (libs : VendorLibs) (forceIdr : Bool) (t : List Event) (w : World) : Prop :=
  forceIdr = true → libs.videoEncSetParameter = true → ToldToForce t w

/-- The clock is looked at through `pacing` only. -/
theorem stable_paced : Stable (Paced p t) where
  cap _ _ hc h := ⟨hc.trans h.1, h.2⟩
  trace _ _ h := ⟨h.1, h.2.trans (List.prefix_append _ _)⟩

/-- So is a request that has been passed on, which later calls leave in the trace. -/
theorem stable_pacedForced {b : Bool} :
    Stable fun w => Paced p t w ∧ Forced libs b t w where
  cap w c hc h := ⟨stable_paced.cap w c hc h.1, h.2⟩
  trace w fs h := by
    refine ⟨stable_paced.trace w fs h.1, fun hb hset => ?_⟩
    obtain ⟨es, hes, hmem⟩ := h.2 hb hset
    refine ⟨es ++ fs, by rw [hes, List.append_assoc], ?_⟩
    rw [parameters_append]
    exact List.mem_append_left _ hmem

/-- `pace` moves the deadline and nothing else. -/
theorem pace_spec {E : Exit → World → Prop} :
    Spec (Paced p t) (pace a.now) (fun _ => Paced (p.paced a.now) t) E :=
  spec_modifyCap fun w h => ⟨by rw [← h.1]; rfl, h.2⟩

/-- A pending request is passed on if the library can set parameters; it is dropped in either
case. -/
theorem forceKeyFrame_spec :
    Spec (Paced p t) (forceKeyFrame libs a)
      (fun _ w => Paced { p with forceIdr := false } t w ∧ Forced libs p.forceIdr t w)
      fun _ _ => True := by
  refine spec_get_bind fun w hw => Spec.weaken ?_ fun _ h => h ▸ hw
  have hforce : w.cap.forceIdr = p.forceIdr := congrArg Pacing.forceIdr hw.1
  refine spec_when (fun hpending => ?_) fun hpending v hv => ?_
  · -- told, where it can be, and then used up
    refine spec_bind (R := fun _ v => Paced p t v ∧ Forced libs p.forceIdr t v) ?_ fun _ => ?_
    · refine spec_when (fun hset => spec_vendor fun v hv => ?_) fun hset v hv => ?_
      · refine ⟨stable_paced.trace v _ hv, fun _ _ => ?_⟩
        obtain ⟨es, hes⟩ := hv.2
        refine ⟨es ++ _, by rw [← hes, List.append_assoc], ?_⟩
        rw [parameters_append]
        exact List.mem_append_right _ (List.mem_singleton_self _)
      · exact ⟨hv, fun _ h => absurd h hset⟩
    · exact spec_modifyCap fun v hv => ⟨⟨by rw [← hv.1.1]; rfl, hv.1.2⟩, hv.2⟩
  · have hno : p.forceIdr = false := by rw [← hforce]; exact Bool.eq_false_iff.mpr hpending
    refine ⟨⟨?_, hv.2⟩, fun h => absurd (hno.symm.trans h) Bool.false_ne_true⟩
    rw [← hno]
    exact hv.1

/-- **What a call that returns a frame does to the clock**, and that it passes a pending request
on. -/
theorem nextLive_pacing :
    Spec (Paced p t) (nextLive libs a)
      (fun _ w => Paced (p.next a.now) t w ∧ Forced libs p.forceIdr t w) fun _ _ => True := by
  refine spec_bind (R := fun _ => Paced (p.paced a.now) t) ?_ fun _ => ?_
  · refine spec_bind pace_spec fun _ => Keeps.bind (stable_paced.modifyCap fun _ => rfl) fun _ => ?_
    exact Keeps.bind (readFramebuffer_keeps stable_paced) fun _ => convert_keeps stable_paced
  · refine spec_bind (R := fun _ w => Paced (p.next a.now) t w ∧ Forced libs p.forceIdr t w) ?_
      fun _ => ?_
    · refine spec_bind (stable_paced.modifyCap fun _ => rfl) fun _ => ?_
      refine spec_bind forceKeyFrame_spec fun _ => ?_
      exact Keeps.bind (submit_keeps stable_pacedForced) fun _ => encode_keeps stable_pacedForced
    · refine Keeps.bind (collectOutput_keeps stable_pacedForced) fun _ => ?_
      refine Keeps.bind (recycle_keeps stable_pacedForced _) fun _ => ?_
      exact Keeps.bind (acquire_keeps stable_pacedForced) fun _ =>
        finishFrame_keeps stable_pacedForced

end Next

/-- **The clock of a capture that was just opened.** -/
theorem pacing_of_init {libs : VendorLibs} {args : OpenArgs} {a : InitAnswers} {t : List Event}
    {w : World} (h : init libs args a ⟨.new args, t⟩ = .ok () w) :
    w.cap.pacing = ⟨1000000000 / (Capture.new args).fps.toInt, a.now, false⟩ := by
  obtain ⟨-, geo, -, -, hmid⟩ := init_spec.of_ok rfl h
  rw [hmid.cap]
  rfl

/-- **The clock of a capture that returned a frame**, and the request that was pending. -/
theorem pacing_of_next {libs : VendorLibs} {a : NextAnswers} {f : Frame} {w w' : World}
    (h : next libs a w = .ok f w') :
    w'.cap.pacing = w.cap.pacing.next a.now ∧ Forced libs w.cap.forceIdr w.trace w' := by
  cases hfailed : w.cap.failed with
  | some e =>
    rw [next_of_failed hfailed] at h
    cases h
  | none =>
    rw [next_of_live hfailed] at h
    obtain ⟨⟨hpacing, -⟩, hforced⟩ := nextLive_pacing.of_ok ⟨rfl, List.prefix_rfl⟩ h
    exact ⟨hpacing, hforced⟩

end RgspCast.Cedar
