import RgspCast.Cedar.Capture

/-!
# What each call on a capture can do

One statement for each of `init`, `next` and the teardown: the fields it leaves alone, the events
it adds to the trace, and what it returns. Everything else about captures follows from these.

* `nextLive_spec`: a call of `next` changes no field that `init` set up (`Capture.config`), adds
  quiet vendor calls, retrieved units that are freed at once, and the writes of one copy of the
  panel (`NextTrace`), and either returns the frame `nextFrame` computes or marks the capture dead
  with the error it returns.
* `init_spec`: `init` climbs the stages of what has to be undone, one event a stage (`Opens`).
-/

namespace RgspCast.Cedar

open Nal Bitstream Drain RgspCast.Geometry ExceptState

/-! ## Rules for the primitives -/

section Primitives

variable {P : World → Prop} {Q : Unit → World → Prop} {E : Exit → World → Prop}

/-- The rule for a change of the capture. -/
theorem spec_modifyCap {f : Capture → Capture} (h : ∀ w, P w → Q () { w with cap := f w.cap }) :
    Spec P (modifyCap f) Q E :=
  spec_modify h

/-- The rule for what is done in the world. -/
theorem spec_emit {es : List Event} (h : ∀ w, P w → Q () { w with trace := w.trace ++ es }) :
    Spec P (emit es) Q E :=
  spec_modify h

/-- The rule for a vendor call. -/
theorem spec_vendor {c : VendorCall}
    (h : ∀ w, P w → Q () { w with trace := w.trace ++ [.vendor c] }) : Spec P (vendor c) Q E :=
  spec_emit h

/-- The rule for an error that leaves the capture usable. -/
theorem spec_bail {α : Type} {Q : α → World → Prop} {text : String}
    (h : ∀ w, P w → E (.err text) w) : Spec P (bail text) Q E :=
  spec_throw h

/-- The rule for an error that the capture remembers. -/
theorem spec_fail {α : Type} {Q : α → World → Prop} {text : String}
    (h : ∀ w, P w → E (.err text) { w with cap := { w.cap with failed := some text } }) :
    Spec P (fail text) Q E :=
  spec_bind (spec_modifyCap (Q := fun _ w => E (.err text) w) h) fun _ => spec_bail fun _ hw => hw

/-- The rule for the answer of a system call. -/
theorem spec_orBail {α : Type} {Q : α → World → Prop} {r : Except String α}
    (hok : ∀ a, r = .ok a → ∀ w, P w → Q a w)
    (herr : ∀ e, r = .error e → ∀ w, P w → E (.err e) w) : Spec P (orBail r) Q E := by
  cases r with
  | ok a => exact spec_pure (hok a rfl)
  | error e => exact spec_bail (herr e rfl)

end Primitives

/-! ## What `next` leaves alone -/

/-- The capture without what a call of `next` uses up on its way: clocks, counters, the input
buffer, and the bytes (not the length) of the framebuffer copy. -/
def Capture.core (c : Capture) : Capture :=
  { c with
    fbBuf := List.replicate c.fbBuf.length 0
    held := false
    barsCleared := false
    deadline := 0
    forceIdr := false
    shortReads := 0
    convertNs := 0
    encodeNs := 0
    inbuf := .zeroed }

/-- The capture without anything that `next` changes: what `init` set up. -/
def Capture.config (c : Capture) : Capture :=
  { c.core with out := [], spsPps := [], spsPpsFetched := false, frames := 0, failed := none }

/-- `config` forgets what `core` forgets. -/
theorem config_eq_of_core_eq {c k : Capture} (h : c.core = k.core) : c.config = k.config :=
  congrArg (fun c : Capture =>
    { c with out := [], spsPps := [], spsPpsFetched := false, frames := 0, failed := none }) h

/-- Only the length of the framebuffer copy counts. -/
theorem core_setFbBuf {c : Capture} {buf : Bytes} {n : UInt32} (h : buf.length = c.fbBuf.length) :
    { c with fbBuf := buf, shortReads := n }.core = c.core := by
  simp only [Capture.core, h]

/-- The vendor calls of `next` that acquire nothing and release nothing. -/
def VendorCall.InNext : VendorCall → Prop
  | .videoEncSetParameter .. | .videoEncGetParameter .. | .veGetViraddr
  | .getOneAllocInputBuffer _ | .flushCacheAllocInputBuffer | .returnOneAllocInputBuffer
  | .addOneInputBuffer .. | .alreadyUsedInputBuffer _ | .videoEncodeOneFrame _
  | .validBitstreamFrameNum _ | .getOneBitstreamFrame none => True
  | _ => False

/-- What a call of `next` adds to the trace of a capture with configuration `k`. -/
inductive NextTrace (k : Capture) : List Event → Prop where
  | nil : NextTrace k []
  | call {es : List Event} {c : VendorCall} (h : NextTrace k es) (hc : c.InNext) :
      NextTrace k (es ++ [.vendor c])
  | unit {es : List Event} (h : NextTrace k es) (o : VencOutputBuffer) :
      NextTrace k
        (es ++ [.vendor (.getOneBitstreamFrame (some o)), .vendor (.freeOneBitstreamFrame o)])
  /-- A copy of the panel, which has a byte. -/
  | copied {es : List Event} (h : NextTrace k es) (c : Capture) (hc : c.config = k)
      (hread : k.fbBuf ≠ []) : NextTrace k (es ++ c.convertIntoInputBuffer.writes.map .write)

/-- On the way through `next`: the capture is `k` but for what is used up, and the trace is `t`
with what the call added. -/
structure At (k : Capture) (t : List Event) (w : World) : Prop where
  core : w.cap.core = k.core
  trace : ∃ es, NextTrace k.config es ∧ w.trace = t ++ es

/-- Out of `next` early: by an error the capture remembers, or by a panic. -/
structure Ended (k : Capture) (t : List Event) (e : Exit) (w : World) : Prop where
  config : w.cap.config = k.config
  trace : ∃ es, NextTrace k.config es ∧ w.trace = t ++ es
  failed : ∀ text, e = .err text → w.cap.failed = some text

section Next

variable {k : Capture} {t : List Event} {w : World} {libs : VendorLibs} {a : NextAnswers}

/-- A vendor call of `next` is added to the trace. -/
theorem At.vendor (h : At k t w) {c : VendorCall} (hc : c.InNext) :
    At k t { w with trace := w.trace ++ [.vendor c] } := by
  obtain ⟨es, hes, htrace⟩ := h.trace
  exact ⟨h.core, es ++ [.vendor c], hes.call hc, by rw [← List.append_assoc, ← htrace]⟩

/-- A change of what is used up. -/
theorem At.scratch (h : At k t w) {c : Capture} (hc : c.core = w.cap.core) :
    At k t { w with cap := c } :=
  ⟨hc.trans h.core, h.trace⟩

/-- An error on the way. -/
theorem At.fail (h : At k t w) (text : String) :
    Ended k t (.err text) { w with cap := { w.cap with failed := some text } } where
  config := (config_eq_of_core_eq h.core : w.cap.config = k.config)
  trace := h.trace
  failed := by
    rintro _ ⟨⟩
    rfl

/-- A step of `next` that changes nothing but what is used up. -/
def Quiet {α : Type} (k : Capture) (t : List Event) (m : VendorM α) : Prop :=
  Spec (At k t) m (fun _ => At k t) (Ended k t)

/-- A vendor call that acquires nothing is quiet. -/
theorem quiet_vendor {c : VendorCall} (hc : c.InNext) : Quiet k t (vendor c) :=
  spec_vendor fun _ h => h.vendor hc

/-- A change that the core does not show is quiet. -/
theorem quiet_modifyCap {f : Capture → Capture} (hf : ∀ c, (f c).core = c.core) :
    Quiet k t (modifyCap f) :=
  spec_modifyCap fun _ h => h.scratch (hf _)

/-- An error is quiet: it ends the call. -/
theorem quiet_fail {text : String} : Quiet k t (fail (α := Unit) text) :=
  spec_fail fun _ h => h.fail text

/-- Quiet steps one after the other. -/
theorem Quiet.bind {α β : Type} {m : VendorM β} {f : β → VendorM α} (hm : Quiet k t m)
    (hf : ∀ b, Quiet k t (f b)) : Quiet k t (m >>= f) :=
  spec_bind hm hf

/-- Reading the state and going on quietly. -/
theorem quiet_get_bind {α : Type} {f : World → VendorM α} (hf : ∀ w, Quiet k t (f w)) :
    Quiet k t (get >>= f) :=
  spec_get_bind fun w h => (hf w).weaken fun _ hw => hw ▸ h

theorem quiet_when {c : Prop} [Decidable c] {m : VendorM Unit} (hm : Quiet k t m) :
    Quiet k t (when c m) :=
  spec_when (fun _ => hm) fun _ _ h => h

/-- The copy of the panel keeps its length, whatever was read. -/
theorem length_readVisible {buf buf' : Bytes} {r : Except String Bytes} {n : ℕ}
    (h : readVisible buf r = .ok (n, buf')) : buf'.length = buf.length := by
  cases r with
  | error e => simp [readVisible] at h
  | ok data =>
    simp only [readVisible] at h
    split at h
    next => cases h
    next =>
      obtain ⟨-, rfl⟩ := Prod.mk.inj (Except.ok.inj h)
      simp only [List.length_append, List.length_drop, List.length_take]
      omega

/-- Nothing can be read into an empty buffer. -/
theorem ne_nil_of_readVisible {buf buf' : Bytes} {r : Except String Bytes} {n : ℕ}
    (h : readVisible buf r = .ok (n, buf')) : buf ≠ [] := by
  rintro rfl
  cases r with
  | error e => simp [readVisible] at h
  | ok data => simp [readVisible] at h

/-- A capture with a copy was set up with one. -/
theorem config_fbBuf_ne_nil {c k : Capture} (h : c.core = k.core) (hne : c.fbBuf ≠ []) :
    k.config.fbBuf ≠ [] := by
  have hlen := congrArg (fun c : Capture => c.fbBuf.length) h
  simp only [Capture.core, List.length_replicate] at hlen
  intro hnil
  refine hne (List.eq_nil_of_length_eq_zero ?_)
  simpa [hlen, Capture.config, Capture.core] using congrArg List.length hnil

/-- The read of the panel ends the call where there is no copy to read into. -/
theorem readFramebuffer_spec :
    Spec (At k t) (readFramebuffer a) (fun _ w => k.config.fbBuf ≠ [] ∧ At k t w) (Ended k t) := by
  refine spec_get_bind fun w h => ?_
  cases hread : readVisible w.cap.fbBuf a.read with
  | ok r =>
    refine spec_modifyCap ?_
    rintro _ rfl
    exact ⟨config_fbBuf_ne_nil h.core (ne_nil_of_readVisible hread),
      h.scratch (core_setFbBuf (length_readVisible hread))⟩
  | error e =>
    refine spec_bind (spec_modifyCap (Q := fun _ => At k t) ?_) fun _ =>
      spec_fail fun _ h => h.fail e
    rintro _ rfl
    exact h.scratch rfl

/-- The conversion needs the copy. -/
theorem convert_quiet (hne : k.config.fbBuf ≠ []) : Quiet k t (convert a) := by
  refine spec_get_bind fun w h => ?_
  -- the writes are those of a capture with configuration `k`
  have hemit : At k t { w with
      trace := w.trace ++ w.cap.convertIntoInputBuffer.writes.map .write } := by
    obtain ⟨es, hes, htrace⟩ := h.trace
    exact ⟨h.core, _, hes.copied w.cap (config_eq_of_core_eq h.core) hne,
      by rw [← List.append_assoc, ← htrace]⟩
  refine spec_bind (spec_emit (Q := fun _ => At k t) ?_) fun _ => ?_
  · rintro _ rfl
    exact hemit
  · refine Quiet.bind (quiet_modifyCap fun _ => rfl) fun _ => ?_
    refine Quiet.bind (quiet_when (spec_throw fun w h => ?_)) fun _ => quiet_modifyCap fun _ => rfl
    exact ⟨config_eq_of_core_eq h.core, h.trace, by rintro _ ⟨⟩⟩

/-- The request for a key frame. -/
theorem forceKeyFrame_quiet : Quiet k t (forceKeyFrame libs a) :=
  quiet_get_bind fun _ => quiet_when <|
    Quiet.bind (quiet_when (quiet_vendor (c := .videoEncSetParameter ..) trivial)) fun _ =>
      quiet_modifyCap fun _ => rfl

/-- The input buffer is handed over. -/
theorem submit_quiet : Quiet k t (submit a) :=
  quiet_get_bind fun _ =>
    Quiet.bind (quiet_vendor (c := .flushCacheAllocInputBuffer) trivial) fun _ =>
      Quiet.bind (quiet_vendor (c := .addOneInputBuffer ..) trivial) fun _ => quiet_when quiet_fail

theorem encode_quiet : Quiet k t (encode a) :=
  quiet_get_bind fun _ => Quiet.bind (quiet_vendor (c := .videoEncodeOneFrame _) trivial) fun _ =>
    Quiet.bind (quiet_when quiet_fail) fun _ => quiet_modifyCap fun _ => rfl

/-- The input buffer from its stamp to the encoded frame. -/
theorem encodeInput_quiet : Quiet k t (encodeInput libs a) :=
  Quiet.bind (quiet_modifyCap fun _ => rfl) fun _ => Quiet.bind forceKeyFrame_quiet fun _ =>
    Quiet.bind submit_quiet fun _ => encode_quiet

/-- The input buffer goes back. -/
theorem recycle_quiet {rc : Int32} : Quiet k t (recycle rc) :=
  Quiet.bind (quiet_vendor (c := .alreadyUsedInputBuffer _) trivial) fun _ =>
    quiet_when (quiet_vendor (c := .returnOneAllocInputBuffer) trivial)

/-- The next one is fetched. -/
theorem acquire_quiet : Quiet k t (acquire a) :=
  Quiet.bind (quiet_modifyCap fun _ => rfl) fun _ =>
    Quiet.bind (quiet_vendor (c := .getOneAllocInputBuffer _) trivial) fun _ => quiet_when <|
      Quiet.bind (quiet_modifyCap fun _ => rfl) fun _ => quiet_get_bind fun _ => quiet_fail

/-! ## What `next` returns -/

/-- What `fetch_sps_pps` returns. -/
def fetchedSets (libs : VendorLibs) (hdr : HeaderAnswer) : Bytes :=
  if libs.videoEncGetParameter ∧ hdr.usable then headerSets (hdr.raw libs) else []

/-- The output after the drain: every unit retrieved before the first that could not be. -/
def drained (out : Bytes) : List (Option VencOutputBuffer) → Bytes
  | [] | none :: _ => out
  | some o :: rest => drained (appendUnit out o) rest

/-- The frame made of the collected output. -/
def frameOf (sets out : Bytes) : Frame :=
  if firstSliceIsIdr out ∧ sets ≠ [] ∧ startsWithParameterSets out = false then
    ⟨sets ++ out, firstSliceIsIdr out⟩
  else ⟨out, firstSliceIsIdr out⟩

/-- The parameter sets a capture has after a call. -/
def nextSets (libs : VendorLibs) (k : Capture) (a : NextAnswers) : Bytes :=
  if k.spsPpsFetched then k.spsPps else fetchedSets libs a.header

/-- The output of a call before the frame is made of it. -/
def nextOut (libs : VendorLibs) (k : Capture) (a : NextAnswers) : Bytes :=
  drained (if k.frames = 0 then nextSets libs k a else []) a.drain

/-- The frame a call returns. -/
def nextFrame (libs : VendorLibs) (k : Capture) (a : NextAnswers) : Frame :=
  frameOf (nextSets libs k a) (nextOut libs k a)

/-- The capture after a call that returned a frame. -/
def afterFrame (libs : VendorLibs) (k : Capture) (a : NextAnswers) : Capture :=
  { k with
    out := (nextFrame libs k a).data
    spsPps := nextSets libs k a
    spsPpsFetched := true
    frames := k.frames + 1 }

/-- A change of what the call makes: the output, the parameter sets, the frame counter. -/
theorem At.map (h : At k t w) (f : Capture → Capture) (hcore : ∀ c, (f c).core = f c.core)
    (hconfig : (f k).config = k.config) : At (f k) t { w with cap := f w.cap } where
  core := (hcore w.cap).trans ((congrArg f h.core).trans (hcore k).symm)
  trace := hconfig.symm ▸ h.trace

/-- The output is a part of the core. -/
theorem At.out_eq (h : At k t w) : w.cap.out = k.out := (congrArg Capture.out h.core :)

/-- So are the parameter sets. -/
theorem At.spsPps_eq (h : At k t w) : w.cap.spsPps = k.spsPps := (congrArg Capture.spsPps h.core :)

/-- So is the flag that they have been fetched. -/
theorem At.spsPpsFetched_eq (h : At k t w) : w.cap.spsPpsFetched = k.spsPpsFetched :=
  (congrArg Capture.spsPpsFetched h.core :)

/-- So is the number of frames. -/
theorem At.frames_eq (h : At k t w) : w.cap.frames = k.frames := (congrArg Capture.frames h.core :)

/-- The early exits of a step are those of the call, whatever the step started from. -/
theorem spec_of_config {k' : Capture} {α : Type} {m : VendorM α} {P : World → Prop}
    {Q : α → World → Prop} (h : Spec P m Q (Ended k' t)) (hk : k'.config = k.config) :
    Spec P m Q (Ended k t) :=
  h.conseq (fun _ hw => hw) (fun _ _ hw => hw) fun _ _ he =>
    ⟨he.config.trans hk, hk ▸ he.trace, he.failed⟩

/-- From the pacing to the conversion: the output of the frame before is cleared. -/
theorem copyPanel_spec :
    Spec (At k t) (copyPanel a) (fun _ => At { k with out := [] } t) (Ended k t) := by
  unfold copyPanel
  refine spec_bind (quiet_modifyCap fun _ => rfl) fun _ => ?_
  refine spec_bind (R := fun _ => At { k with out := [] } t) (spec_modifyCap fun w h => ?_)
    fun _ => ?_
  · exact h.map (fun c => { c with out := [] }) (fun _ => rfl) rfl
  · exact spec_of_config (spec_bind readFramebuffer_spec fun _ => spec_fact convert_quiet) rfl

/-- The header is asked for, and an answer that cannot be used gives no sets. -/
theorem fetchSpsPps_spec {hdr : HeaderAnswer} :
    Spec (At k t) (fetchSpsPps libs hdr) (fun r w => r = fetchedSets libs hdr ∧ At k t w)
      (Ended k t) := by
  unfold fetchSpsPps fetchedSets
  refine spec_ite (fun hget => ?_) fun hget => ?_
  · refine spec_bind (quiet_vendor (c := .videoEncGetParameter ..) trivial) fun _ => ?_
    refine spec_ite (fun husable => ?_) fun husable => ?_
    · refine spec_bind (quiet_when (quiet_vendor (c := .veGetViraddr) trivial)) fun _ => ?_
      refine spec_pure fun w h => ⟨?_, h⟩
      rw [if_pos ⟨hget, husable⟩]
    · refine spec_pure fun w h => ⟨?_, h⟩
      rw [if_neg fun h => husable h.2]
  · refine spec_pure fun w h => ⟨?_, h⟩
    rw [if_neg fun h => hget h.1]

/-- After the fetch the parameter sets are there, fetched now or by an earlier call. -/
theorem fetchOnce_spec :
    Spec (At k t) (fetchOnce libs a)
      (fun _ => At { k with spsPps := nextSets libs k a, spsPpsFetched := true } t)
      (Ended k t) := by
  refine spec_get_bind fun w h => ?_
  have hfetched := h.spsPpsFetched_eq
  unfold nextSets
  refine Spec.weaken (P := At k t) ?_ fun _ hw => hw ▸ h
  -- the flag is set whether or not the vendor had a header to give
  refine spec_when (fun hc => ?_) fun hc w' h' => ?_
  · refine spec_bind fetchSpsPps_spec fun r => spec_modifyCap ?_
    rintro w' ⟨rfl, h'⟩
    rw [if_neg (Bool.eq_false_iff.mp (hfetched.symm.trans hc))]
    exact h'.map (fun c => { c with spsPps := fetchedSets libs a.header, spsPpsFetched := true })
      (fun _ => rfl) rfl
  · have htrue : k.spsPpsFetched = true := by
      rw [← hfetched]
      simpa using hc
    rw [if_pos htrue]
    exact ⟨h'.core.trans (by rw [← htrue]), h'.trace⟩

/-- The first frame starts with the sets. -/
theorem prefixFirstFrame_spec :
    Spec (At k t) prefixFirstFrame
      (fun _ => At { k with out := k.out ++ if k.frames = 0 then k.spsPps else [] } t)
      (Ended k t) := by
  refine spec_modifyCap fun w h => ?_
  by_cases hpre : w.cap.frames = 0 ∧ w.cap.spsPps ≠ []
  · have hout : w.cap.out ++ w.cap.spsPps = k.out ++ if k.frames = 0 then k.spsPps else [] := by
      rw [if_pos (h.frames_eq ▸ hpre.1), h.out_eq, h.spsPps_eq]
    rw [if_pos hpre, hout]
    exact h.map (fun c => { c with out := k.out ++ if k.frames = 0 then k.spsPps else [] })
      (fun _ => rfl) rfl
  -- not the first frame, or no sets to put before it
  · have hnil : (if k.frames = 0 then k.spsPps else []) = [] := by
      rw [← h.frames_eq, ← h.spsPps_eq]
      by_cases hzero : w.cap.frames = 0
      · rw [if_pos hzero]
        by_contra hne
        exact hpre ⟨hzero, hne⟩
      · rw [if_neg hzero]
    rw [if_neg hpre, hnil, List.append_nil]
    exact h

/-- A retrieved unit is appended to the output and freed. -/
theorem At.unit (h : At k t w) (o : VencOutputBuffer) :
    At { k with out := appendUnit k.out o } t
      { cap := { w.cap with out := appendUnit w.cap.out o }
        trace := w.trace ++ [.vendor (.getOneBitstreamFrame (some o))] ++
          [.vendor (.freeOneBitstreamFrame o)] } := by
  obtain ⟨es, hes, htrace⟩ := h.trace
  have hcap := (h.map (fun c => { c with out := appendUnit k.out o }) (fun _ => rfl) rfl).core
  refine ⟨?_, _, hes.unit o, ?_⟩
  · rw [h.out_eq]
    exact hcap
  · rw [htrace, List.append_assoc, List.append_assoc]
    rfl

/-- The drain appends what it retrieves, by induction over the answers. -/
theorem drainLoop_spec (beforeDrain : ℕ) (us : List (Option VencOutputBuffer)) :
    Spec (At k t) (drainLoop beforeDrain us) (fun _ => At { k with out := drained k.out us } t)
      (Ended k t) := by
  induction us generalizing k with
  | nil => exact quiet_vendor (c := .validBitstreamFrameNum false) trivial
  | cons u us ih =>
    cases u with
    | none =>
      refine spec_bind (quiet_vendor (c := .validBitstreamFrameNum true) trivial) fun _ => ?_
      refine spec_bind (quiet_vendor (c := .getOneBitstreamFrame none) trivial) fun _ => ?_
      exact quiet_get_bind fun _ => quiet_when quiet_fail
    | some o =>
      refine spec_bind (quiet_vendor (c := .validBitstreamFrameNum true) trivial) fun _ => ?_
      -- between the two vendor calls the trace ends in a unit that is still held
      refine spec_bind (spec_vendor (Q := fun _ w => ∃ w', At k t w' ∧
        w = { w' with trace := w'.trace ++ [.vendor (.getOneBitstreamFrame (some o))] })
        fun w h => ⟨w, h, rfl⟩) fun _ => ?_
      refine spec_bind (spec_modifyCap (Q := fun _ w => ∃ w', At k t w' ∧
        w = { cap := { w'.cap with out := appendUnit w'.cap.out o }
              trace := w'.trace ++ [.vendor (.getOneBitstreamFrame (some o))] }) ?_) fun _ => ?_
      · rintro _ ⟨w', h, rfl⟩
        exact ⟨w', h, rfl⟩
      refine spec_bind (spec_vendor (Q := fun _ => At { k with out := appendUnit k.out o } t) ?_)
        fun _ => ?_
      · rintro _ ⟨w', h, rfl⟩
        exact h.unit o
      · exact spec_of_config ih rfl

/-- The header, the prefix and the drain. -/
theorem collectOutput_spec (hout : k.out = []) :
    Spec (At k t) (collectOutput libs a)
      (fun _ => At { k with
        out := nextOut libs k a, spsPps := nextSets libs k a, spsPpsFetched := true } t)
      (Ended k t) := by
  unfold collectOutput
  refine spec_bind fetchOnce_spec fun _ => ?_
  refine spec_bind (spec_of_config prefixFirstFrame_spec rfl) fun _ => ?_
  refine spec_get_bind fun w h => ?_
  have hdrain := drainLoop_spec (t := t)
    (k := { k with
      out := k.out ++ if k.frames = 0 then nextSets libs k a else []
      spsPps := nextSets libs k a
      spsPpsFetched := true }) w.cap.out.length a.drain
  have hnext : nextOut libs k a =
      drained (k.out ++ if k.frames = 0 then nextSets libs k a else []) a.drain := by
    rw [hout, List.nil_append, nextOut]
  rw [hnext]
  exact Spec.weaken (spec_of_config hdrain rfl) fun _ hw => hw ▸ h

/-- The frame is made of the output, with the sets repeated ahead of a keyframe that does not open
with one, and the counter goes up. -/
theorem finishFrame_spec {f : Frame} (hf : f = frameOf k.spsPps k.out) :
    Spec (At k t) finishFrame
      (fun r w => r = f ∧ At { k with out := f.data, frames := k.frames + 1 } t w) (Ended k t) := by
  unfold finishFrame
  refine spec_bind (R := fun _ => At { k with frames := k.frames + 1 } t)
    (spec_modifyCap fun w h => ?_) fun _ => ?_
  · have hframes : w.cap.frames + 1 = k.frames + 1 := by rw [h.frames_eq]
    rw [hframes]
    exact h.map (fun c => { c with frames := k.frames + 1 }) (fun _ => rfl) rfl
  refine spec_get_bind fun w h => ?_
  have hout : w.cap.out = k.out := h.out_eq
  have hsets : w.cap.spsPps = k.spsPps := h.spsPps_eq
  -- what `frameOf` says about the output as it is now
  have hdata : f.isKeyframe = firstSliceIsIdr k.out ∧
      f.data = if firstSliceIsIdr k.out ∧ k.spsPps ≠ [] ∧ startsWithParameterSets k.out = false then
        k.spsPps ++ k.out else k.out := by
    rw [hf]
    unfold frameOf
    split <;> exact ⟨rfl, rfl⟩
  rw [hout, hsets]
  refine spec_bind (R := fun _ => At { k with out := f.data, frames := k.frames + 1 } t)
    (spec_when (fun hc => spec_modifyCap ?_) fun hc => ?_) fun _ => ?_
  · intro w' hw
    subst hw
    -- the sets go in front of the keyframe
    have hnew : w'.cap.spsPps ++ w'.cap.out = f.data := by
      rw [hout, hsets, hdata.2, if_pos hc]
    rw [hnew]
    exact h.map (fun c => { c with out := f.data }) (fun _ => rfl) rfl
  · rintro _ rfl
    rw [hdata.2, if_neg hc]
    exact h
  · refine spec_get_bind fun w' h' => spec_pure ?_
    rintro _ rfl
    refine ⟨?_, h'⟩
    rw [h'.out_eq, ← hdata.1]

/-- The second half of `next`, in terms of the answers. -/
theorem deliverFrame_spec (hout : k.out = []) :
    Spec (At k t) (deliverFrame libs a)
      (fun f w => f = nextFrame libs k a ∧ At (afterFrame libs k a) t w) (Ended k t) := by
  unfold deliverFrame
  refine spec_bind encodeInput_quiet fun _ => ?_
  refine spec_bind (collectOutput_spec hout) fun _ => ?_
  refine spec_bind (spec_of_config recycle_quiet rfl) fun _ => ?_
  refine spec_bind (spec_of_config acquire_quiet rfl) fun _ => ?_
  exact spec_of_config (finishFrame_spec rfl) rfl

/-- **What a call of `next` can do** to a capture that has not failed. -/
theorem nextLive_spec :
    Spec (At k t) (nextLive libs a)
      (fun f w => f = nextFrame libs k a ∧ At (afterFrame libs k a) t w) (Ended k t) :=
  spec_bind copyPanel_spec fun _ =>
    spec_of_config (deliverFrame_spec (k := { k with out := [] }) rfl) rfl

/-- A failed capture answers every call with its error and does nothing. -/
theorem next_of_failed {e : String} (h : w.cap.failed = some e) :
    next libs a w = .error (.err e) w := by
  unfold next
  rw [get_bind_apply, h]
  rfl

/-- A capture that has not failed. -/
theorem next_of_live (h : w.cap.failed = none) : next libs a w = nextLive libs a w := by
  unfold next
  rw [get_bind_apply, h]

end Next

/-! ## What `init` does -/

/-- How far a capture got with what has to be undone. -/
inductive Stage where
  | claimed
  | memory
  | encoder
  | inited
  | buffers
  deriving DecidableEq, Repr

/-- The flags `Drop` looks at: `mem_open`, `enc`, `enc_inited` and `buffers_alloced`. -/
def Capture.flags (c : Capture) : Bool × Bool × Bool × Bool :=
  (c.memOpen, c.enc, c.encInited, c.buffersAlloced)

def Stage.flags : Stage → Bool × Bool × Bool × Bool
  | .claimed => (false, false, false, false)
  | .memory => (true, false, false, false)
  | .encoder => (true, true, false, false)
  | .inited => (true, true, true, false)
  | .buffers => (true, true, true, true)

/-- The vendor calls of `init` that leave nothing to undo, failed ones included. The buffers are
asked for with the sizes `y` and `c`. -/
def VendorCall.InInit (y c : UInt32) : VendorCall → Prop
  | .getVeOpsS _ | .memAdapterGetOpsS _ | .getVeAddrOffset | .videoEncSetParameter ..
  | .getOneAllocInputBuffer _ => True
  | .cdcMemOpen rc => rc < 0
  | .videoEncCreate nonNull => nonNull = false
  | .videoEncInit _ rc => rc ≠ 0
  | .allocInputBuffer nSizeY nSizeC rc => rc ≠ 0 ∧ nSizeY = y ∧ nSizeC = c
  | _ => False

/-- What `init` adds to the trace on the way to a stage, the buffers being asked for with the sizes
`y` and `c`. -/
inductive Opens (y c : UInt32) : Stage → List Event → Prop where
  | nil : Opens y c .claimed []
  | quiet {st : Stage} {es : List Event} {call : VendorCall} (h : Opens y c st es)
      (hcall : call.InInit y c) : Opens y c st (es ++ [.vendor call])
  | memory {es : List Event} {rc : Int32} (h : Opens y c .claimed es) (hrc : ¬ rc < 0) :
      Opens y c .memory (es ++ [.vendor (.cdcMemOpen rc)])
  | encoder {es : List Event} (h : Opens y c .memory es) :
      Opens y c .encoder (es ++ [.vendor (.videoEncCreate true)])
  | inited {es : List Event} (h : Opens y c .encoder es) (cfg : VencBaseConfig) :
      Opens y c .inited (es ++ [.vendor (.videoEncInit cfg 0)])
  | buffers {es : List Event} (h : Opens y c .inited es) :
      Opens y c .buffers (es ++ [.vendor (.allocInputBuffer y c 0)])

/-- `init` makes vendor calls and does nothing else. -/
theorem vendor_of_opens {y c : UInt32} {st : Stage} {es : List Event} (h : Opens y c st es) :
    ∀ e ∈ es, ∃ v, e = .vendor v := by
  induction h with
  | nil => simp
  | quiet h hcall ih => exact List.forall_mem_append.mpr ⟨ih, by simp⟩
  | memory h hrc ih => exact List.forall_mem_append.mpr ⟨ih, by simp⟩
  | encoder h ih => exact List.forall_mem_append.mpr ⟨ih, by simp⟩
  | inited h cfg ih => exact List.forall_mem_append.mpr ⟨ih, by simp⟩
  | buffers h ih => exact List.forall_mem_append.mpr ⟨ih, by simp⟩

/-- The trace is `t` with what leads to a stage. -/
def Traced (y c : UInt32) (t : List Event) (st : Stage) (w : World) : Prop :=
  ∃ es, Opens y c st es ∧ w.trace = t ++ es

/-- The capture is at a stage: its flags say so, and so does the trace. -/
structure Reached (t : List Event) (st : Stage) (w : World) : Prop where
  flags : w.cap.flags = st.flags
  memops : st ≠ .claimed → w.cap.memops = true
  trace : ∃ y c, Traced y c t st w

/-- The panel and the request pass every check of `init`. -/
structure Accepts (args : OpenArgs) (geo : FbGeometry) : Prop where
  depth : validateGeometry geo.w geo.h geo.bpp 0 0 = .ok ()
  size : validateGeometry geo.w geo.h geo.bpp args.width args.height = .ok ()
  pitch : validateRgbPitch args.inFmt.isRgb (forTarget geo.w geo.h args.dstW args.dstH).padded
    geo.pitch geo.w = .ok ()
  capacity : geo.pitch.toNat * geo.h.toNat < vecCapacity

/-- No answer makes `init` give up. -/
structure InitAnswers.Good (a : InitAnswers) (libs : VendorLibs) (args : OpenArgs) : Prop where
  fb : ∃ geo, a.fb = .ok geo ∧ Accepts args geo
  veOps : a.veOps = true
  memOps : a.memOps = true
  «open» : libs.memOps.open = true
  openRc : ¬ a.openRc < 0
  enc : a.enc = true
  bitrate : args.bitrate > 0 → libs.videoEncSetParameter = true ∧ a.bitrateRc = 0
  initRc : a.initRc = 0
  allocRc : a.allocRc = 0
  getInputRc : a.getInputRc = 0

section Init

/-- The capture with the panel read and the padded surface laid out. -/
def laidOut (args : OpenArgs) (geo : FbGeometry) : Capture :=
  let p := forTarget geo.w geo.h args.dstW args.dstH
  { Capture.new args with
    fb := some geo
    w := geo.w
    h := geo.h
    bpp := geo.bpp
    pitch := geo.pitch
    padW := p.padW
    padH := p.padH
    padX := p.padX
    padY := p.padY
    padded := p.padded
    frameBytes := geo.pitch.toNat * geo.h.toNat
    fbBuf := List.replicate (geo.pitch.toNat * geo.h.toNat) 0 }

/-- The capture at a stage of `init`. -/
def stageCap (args : OpenArgs) (geo : FbGeometry) : Stage → Capture
  | .claimed => laidOut args geo
  | .memory => { laidOut args geo with memops := true, memOpen := true }
  | .encoder => { laidOut args geo with memops := true, memOpen := true, enc := true }
  | .inited =>
    { laidOut args geo with memops := true, memOpen := true, enc := true, encInited := true }
  | .buffers =>
    { laidOut args geo with
      memops := true, memOpen := true, enc := true, encInited := true
      rgbIn := args.inFmt.isRgb
      buffersAlloced := true }

/-- The capture `open_scaled_ex` returns. -/
def opened (args : OpenArgs) (geo : FbGeometry) (now : ℤ) : Capture :=
  let c := stageCap args geo .buffers
  { c with held := true, frameNs := 1000000000 / c.fps.toInt, deadline := now }

variable {args : OpenArgs} {geo : FbGeometry} {t : List Event} {libs : VendorLibs}
  {a : InitAnswers} {w : World} {y c : UInt32} {st : Stage}

/-- A call of `init` that leaves nothing to undo stays at its stage. -/
theorem Traced.quiet (h : Traced y c t st w) {v : VendorCall} (hv : v.InInit y c) :
    Traced y c t st { w with trace := w.trace ++ [.vendor v] } := by
  obtain ⟨es, hes, htrace⟩ := h
  exact ⟨_, hes.quiet hv, by rw [← List.append_assoc, ← htrace]⟩

/-- The flags of a capture are those of a stage. -/
structure Coherent (k : Capture) (st : Stage) : Prop where
  flags : k.flags = st.flags
  memops : st ≠ .claimed → k.memops = true

/-- The capture at a stage has the flags of the stage. -/
theorem coherent_stageCap : (st : Stage) → Coherent (stageCap args geo st) st
  | .claimed => ⟨rfl, fun hst => absurd rfl hst⟩
  | .memory | .encoder | .inited | .buffers => ⟨rfl, fun _ => rfl⟩

/-- Where `init` gave up: at some stage, and for a reason. -/
def GaveUp (libs : VendorLibs) (args : OpenArgs) (a : InitAnswers) (t : List Event) (_ : Exit)
    (w : World) : Prop :=
  (∃ st, Reached t st w) ∧ ¬ a.Good libs args

/-- Between two steps of `init`: the capture is `k`, and the trace leads to a stage. -/
structure Mid (y c : UInt32) (t : List Event) (k : Capture) (st : Stage) (w : World) : Prop where
  cap : w.cap = k
  trace : Traced y c t st w

/-- Between two steps a stage is reached. -/
theorem Mid.reached {k : Capture} (h : Mid y c t k st w) (hk : Coherent k st) : Reached t st w where
  flags := by rw [h.cap, hk.flags]
  memops hst := by rw [h.cap, hk.memops hst]
  trace := ⟨y, c, h.trace⟩

section Mid

variable {k : Capture} {E : Exit → World → Prop}

/-- A change of the capture between two steps. -/
theorem mid_modifyCap (f : Capture → Capture) :
    Spec (Mid y c t k st) (modifyCap f) (fun _ => Mid y c t (f k) st) E :=
  spec_modifyCap fun w h => ⟨by rw [h.cap], h.trace⟩

/-- A vendor call that leaves nothing to undo. -/
theorem mid_vendor {v : VendorCall} (hv : v.InInit y c) :
    Spec (Mid y c t k st) (vendor v) (fun _ => Mid y c t k st) E :=
  spec_vendor fun _ h => ⟨h.cap, h.trace.quiet hv⟩

/-- The call that leads to the next stage. -/
theorem mid_climb {v : VendorCall} {u : Stage}
    (hv : ∀ es, Opens y c st es → Opens y c u (es ++ [.vendor v])) :
    Spec (Mid y c t k st) (vendor v) (fun _ => Mid y c t k u) E := by
  refine spec_vendor fun w h => ⟨h.cap, ?_⟩
  obtain ⟨es, hes, htrace⟩ := h.trace
  exact ⟨_, hv es hes, by rw [← List.append_assoc, ← htrace]⟩

/-- A check that no good answer fails gives up at the stage reached. -/
theorem mid_check {p : Prop} [Decidable p] {text : String} (hk : Coherent k st)
    (hgood : a.Good libs args → ¬ p) :
    Spec (Mid y c t k st) (when p <| bail text) (fun _ w => ¬ p ∧ Mid y c t k st w)
      (GaveUp libs args a t) :=
  spec_when (fun hp => spec_bail fun _ h => ⟨⟨st, h.reached hk⟩, fun h => hgood h hp⟩)
    fun hp _ h => ⟨hp, h⟩

/-- An attempt at the next stage: a failed call stops at the stage reached, any other leads on. -/
theorem mid_attempt {p : Prop} [Decidable p] {v : VendorCall} {text : String} {u : Stage}
    {α : Type} {rest : VendorM α} {Q : α → World → Prop} (hk : Coherent k st)
    (hgood : a.Good libs args → ¬ p) (hfail : p → v.InInit y c)
    (hclimb : ¬ p → ∀ es, Opens y c st es → Opens y c u (es ++ [.vendor v]))
    (hrest : ¬ p → Spec (Mid y c t k u) rest Q (GaveUp libs args a t)) :
    Spec (Mid y c t k st) (do vendor v; when p <| bail text; rest) Q
      (GaveUp libs args a t) := by
  by_cases hp : p
  · refine spec_bind (mid_vendor (hfail hp)) fun _ => ?_
    refine spec_bind (mid_check hk hgood) fun _ => ?_
    exact fun w h => absurd hp h.1
  · refine spec_bind (mid_climb (hclimb hp)) fun _ => ?_
    refine spec_bind (R := fun _ => Mid y c t k u)
      (spec_when (fun h => absurd h hp) fun _ _ h => h) fun _ => ?_
    exact hrest hp

end Mid

/-- Before the memory is opened there is nothing to undo. -/
theorem reached_claimed (hflags : w.cap.flags = Stage.claimed.flags) (htrace : w.trace = t) :
    Reached t .claimed w where
  flags := hflags
  memops hst := absurd rfl hst
  trace := ⟨0, 0, [], .nil, by rw [htrace, List.append_nil]⟩

/-- The panel is opened if its geometry is valid. -/
theorem framebufferOpen_eq_ok {fb : Except String FbGeometry} :
    framebufferOpen fb = .ok geo ↔
      fb = .ok geo ∧ validateGeometry geo.w geo.h geo.bpp 0 0 = .ok () := by
  unfold framebufferOpen
  cases fb with
  | error e => simp [bind, Except.bind]
  | ok g =>
    cases hval : validateGeometry g.w g.h g.bpp 0 0 with
    | error e =>
      simp only [bind, Except.bind, hval, Except.ok.injEq, reduceCtorEq, false_iff, not_and]
      rintro rfl
      simp [hval]
    | ok u =>
      simp only [bind, Except.bind, hval, pure, Except.pure, Except.ok.injEq]
      constructor
      · rintro rfl
        exact ⟨rfl, hval⟩
      · exact And.left

/-- The checks of the panel and of the request, in their order. -/
theorem openFramebuffer_spec :
    Spec (· = ⟨.new args, t⟩) (openFramebuffer args a)
      (fun _ w => ∃ geo, (a.fb = .ok geo ∧ Accepts args geo) ∧ w = ⟨laidOut args geo, t⟩)
      (GaveUp libs args a t) := by
  unfold openFramebuffer
  refine spec_bind (R := fun geo w => framebufferOpen a.fb = .ok geo ∧ w = ⟨.new args, t⟩)
    (spec_orBail (fun geo hgeo w hw => ⟨hgeo, hw⟩) ?_) fun geo => spec_fact fun hopen => ?_
  · rintro e he _ rfl
    refine ⟨⟨.claimed, reached_claimed rfl rfl⟩, fun hgood => ?_⟩
    obtain ⟨geo, hgeo, haccepts⟩ := hgood.fb
    rw [framebufferOpen_eq_ok.mpr ⟨hgeo, haccepts.depth⟩] at he
    cases he
  obtain ⟨hgeo, hdepth⟩ := framebufferOpen_eq_ok.mp hopen
  -- a check that fails later fails for the panel that was read
  have hbad : ¬ Accepts args geo → ¬ a.Good libs args := by
    intro hno hgood
    obtain ⟨geo', hgeo', haccepts⟩ := hgood.fb
    obtain rfl : geo = geo' := Except.ok.inj (hgeo.symm.trans hgeo')
    exact hno haccepts
  refine spec_bind (R := fun _ w => w = ⟨{ Capture.new args with fb := some geo }, t⟩)
    (spec_modifyCap (by rintro _ rfl; rfl)) fun _ => ?_
  refine spec_bind (R := fun _ w =>
      validateGeometry geo.w geo.h geo.bpp args.width args.height = .ok () ∧
        w = ⟨{ Capture.new args with fb := some geo }, t⟩)
    (spec_orBail (fun _ hsize w hw => ⟨hsize, hw⟩) ?_) fun _ => spec_fact fun hsize => ?_
  · rintro e he _ rfl
    refine ⟨⟨.claimed, reached_claimed rfl rfl⟩, hbad fun h => ?_⟩
    rw [h.size] at he
    cases he
  refine spec_bind (R := fun _ w => w = ⟨{ Capture.new args with
      fb := some geo, w := geo.w, h := geo.h, bpp := geo.bpp, pitch := geo.pitch }, t⟩)
    (spec_modifyCap (by rintro _ rfl; rfl)) fun _ => ?_
  refine spec_bind (R := fun _ w => w = ⟨{ laidOut args geo with frameBytes := 0, fbBuf := [] }, t⟩)
    (spec_modifyCap (by rintro _ rfl; rfl)) fun _ => ?_
  refine spec_bind (R := fun _ w =>
      validateRgbPitch args.inFmt.isRgb (forTarget geo.w geo.h args.dstW args.dstH).padded
          geo.pitch geo.w = .ok () ∧
        w = ⟨{ laidOut args geo with frameBytes := 0, fbBuf := [] }, t⟩)
    (spec_orBail (fun _ hpitch w hw => ⟨hpitch, hw⟩) ?_) fun _ => spec_fact fun hpitch => ?_
  · rintro e he _ rfl
    refine ⟨⟨.claimed, reached_claimed rfl rfl⟩, hbad fun h => ?_⟩
    rw [h.pitch] at he
    cases he
  refine spec_bind (R := fun _ w => w = ⟨{ laidOut args geo with fbBuf := [] }, t⟩)
    (spec_modifyCap (by rintro _ rfl; rfl)) fun _ => ?_
  refine spec_bind (R := fun _ w => geo.pitch.toNat * geo.h.toNat < vecCapacity ∧
      w = ⟨{ laidOut args geo with fbBuf := [] }, t⟩)
    (spec_when (fun hlarge => spec_throw ?_) fun hsmall w hw => ⟨Nat.lt_of_not_le hsmall, hw⟩)
    fun _ => spec_fact fun hcapacity => spec_modifyCap ?_
  · rintro _ rfl
    refine ⟨⟨.claimed, reached_claimed rfl rfl⟩, hbad fun h => ?_⟩
    exact absurd hlarge (Nat.not_le.mpr h.capacity)
  · rintro _ rfl
    exact ⟨geo, ⟨hgeo, hdepth, hsize, hpitch, hcapacity⟩, rfl⟩

/-- The operation tables are there, and the memory can be opened. -/
theorem openMemory_spec :
    Spec (Mid y c t (stageCap args geo .claimed) .claimed) (openMemory libs a)
      (fun _ w => (a.veOps = true ∧ a.memOps = true ∧ libs.memOps.open = true ∧ ¬ a.openRc < 0) ∧
        Mid y c t (stageCap args geo .memory) .memory w)
      (GaveUp libs args a t) := by
  unfold openMemory
  refine spec_bind (mid_vendor (v := .getVeOpsS _) trivial) fun _ => ?_
  refine spec_bind (mid_vendor (v := .memAdapterGetOpsS _) trivial) fun _ => ?_
  refine spec_bind (mid_modifyCap _) fun _ => ?_
  have hk : Coherent { stageCap args geo .claimed with memops := a.memOps } .claimed :=
    ⟨rfl, fun hst => absurd rfl hst⟩
  refine spec_bind (mid_check hk fun h => by simp [h.veOps, h.memOps]) fun _ =>
    spec_fact fun hops => ?_
  refine spec_bind (mid_check hk fun h => by simp [h.open]) fun _ => spec_fact fun hopen => ?_
  simp only [not_or, Bool.not_eq_false] at hops hopen
  refine mid_attempt hk (fun h => h.openRc) id (fun hrc es hes => hes.memory hrc) fun hrc => ?_
  refine spec_bind (mid_modifyCap _) fun _ => ?_
  rw [hops.2]
  refine spec_when (fun _ => spec_vendor fun w h => ?_) fun _ w h => ?_
  · exact ⟨⟨hops.1, rfl, hopen, hrc⟩, h.cap, h.trace.quiet (v := .getVeAddrOffset) trivial⟩
  · exact ⟨⟨hops.1, rfl, hopen, hrc⟩, h⟩

/-- The encoder is there to be destroyed from here on. -/
theorem createEncoder_spec :
    Spec (Mid y c t (stageCap args geo .memory) .memory) (createEncoder a)
      (fun _ w => a.enc = true ∧ Mid y c t (stageCap args geo .encoder) .encoder w)
      (GaveUp libs args a t) := by
  unfold createEncoder
  by_cases henc : a.enc = true
  · rw [henc]
    refine spec_bind (mid_climb (u := .encoder) fun es hes => hes.encoder) fun _ => ?_
    refine spec_bind (mid_modifyCap _) fun _ => ?_
    exact spec_when (fun h => nomatch h) fun _ _ h => ⟨rfl, h⟩
  · rw [Bool.not_eq_true] at henc
    rw [henc]
    refine spec_bind (mid_vendor (v := .videoEncCreate false) rfl) fun _ => ?_
    refine spec_bind (mid_modifyCap _) fun _ => ?_
    have hbad : ¬ a.Good libs args := by
      intro hgood
      rw [hgood.enc] at henc
      cases henc
    exact spec_when
      (fun _ => spec_bail fun w h => ⟨⟨_, h.reached (coherent_stageCap .memory)⟩, hbad⟩)
      fun h => absurd rfl h

/-- A bitrate that was asked for has been set. -/
theorem setBitrate_spec {k : Capture} (hk : Coherent k st) :
    Spec (Mid y c t k st) (setBitrate libs args a)
      (fun _ w => (args.bitrate > 0 → libs.videoEncSetParameter = true ∧ a.bitrateRc = 0) ∧
        Mid y c t k st w)
      (GaveUp libs args a t) := by
  unfold setBitrate
  refine spec_when (fun hpos => ?_) fun hpos _ h => ⟨fun h => absurd h hpos, h⟩
  refine spec_bind (mid_check hk fun h => by simp [(h.bitrate hpos).1]) fun _ =>
    spec_fact fun hset => ?_
  refine spec_bind (mid_vendor (v := .videoEncSetParameter ..) trivial) fun _ => ?_
  refine Spec.conseq (mid_check hk fun h => by simp [(h.bitrate hpos).2]) (fun _ h => h)
    (fun _ w h => ⟨fun _ => ⟨?_, ?_⟩, h.2⟩) fun _ _ h => h
  · simpa using hset
  · simpa using h.1

/-- The encoder is initialised. -/
theorem initEncoder_spec :
    Spec (Mid y c t (stageCap args geo .encoder) .encoder) (initEncoder args a)
      (fun _ w => a.initRc = 0 ∧ Mid y c t (stageCap args geo .inited) .inited w)
      (GaveUp libs args a t) := by
  refine spec_get_bind fun w h => Spec.weaken ?_ fun _ hw => hw ▸ h
  refine mid_attempt (u := .inited) (coherent_stageCap .encoder) (fun h => by simp [h.initRc])
    (fun hrc => hrc) (fun hrc es hes => ?_) fun hrc => ?_
  · rw [not_not] at hrc
    rw [hrc]
    exact hes.inited _
  · rw [not_not] at hrc
    exact Spec.conseq (mid_modifyCap _) (fun _ h => h) (fun _ _ h => ⟨hrc, h⟩) fun _ _ h => h

/-- The buffers are asked for with the sizes of the stage they lead to. -/
theorem allocBuffers_spec (hy : y = (stageCap args geo .buffers).nSizeY)
    (hc : c = (stageCap args geo .buffers).nSizeC) :
    Spec (Mid y c t (stageCap args geo .inited) .inited) (allocBuffers a)
      (fun _ w => a.allocRc = 0 ∧ Mid y c t (stageCap args geo .buffers) .buffers w)
      (GaveUp libs args a t) := by
  unfold allocBuffers
  refine spec_bind (mid_modifyCap _) fun _ => ?_
  refine spec_get_bind fun w h => Spec.weaken ?_ fun _ hw => hw ▸ h
  have hk : Coherent { stageCap args geo .inited with rgbIn := args.inFmt.isRgb } .inited :=
    ⟨rfl, fun _ => rfl⟩
  -- the sizes asked for are the ones `init` computed from the padded surface
  have hsizes : w.cap.nSizeY = y ∧ w.cap.nSizeC = c := by
    rw [h.cap, hy, hc]
    exact ⟨rfl, rfl⟩
  rw [hsizes.1, hsizes.2]
  refine mid_attempt (u := .buffers) hk (fun h => by simp [h.allocRc])
    (fun hrc => ⟨hrc, rfl, rfl⟩)
    (fun hrc es hes => ?_) fun hrc => ?_
  · rw [not_not] at hrc
    rw [hrc]
    exact hes.buffers
  · rw [not_not] at hrc
    exact Spec.conseq (mid_modifyCap _) (fun _ h => h) (fun _ _ h => ⟨hrc, h⟩) fun _ _ h => h

/-- The key-frame interval; its answer is ignored. -/
theorem setKeyInterval_spec {k : Capture} {E : Exit → World → Prop} :
    Spec (Mid y c t k st) (setKeyInterval libs a) (fun _ => Mid y c t k st) E := by
  refine spec_get_bind fun w h => Spec.weaken ?_ fun _ hw => hw ▸ h
  exact spec_when (fun _ => mid_vendor (v := .videoEncSetParameter ..) trivial) fun _ _ h => h

/-- The last step, with the clock started. -/
theorem acquireFirst_spec :
    Spec (Mid y c t (stageCap args geo .buffers) .buffers) (acquireFirst a)
      (fun _ w => a.getInputRc = 0 ∧ Mid y c t (opened args geo a.now) .buffers w)
      (GaveUp libs args a t) := by
  unfold acquireFirst
  refine spec_bind (mid_modifyCap _) fun _ => ?_
  refine spec_bind (mid_vendor (v := .getOneAllocInputBuffer _) trivial) fun _ => ?_
  refine spec_bind (mid_check (coherent_stageCap .buffers) fun h => by simp [h.getInputRc])
    fun _ => spec_fact fun hrc => ?_
  rw [not_not] at hrc
  refine spec_bind (mid_modifyCap _) fun _ => ?_
  exact Spec.conseq (mid_modifyCap _) (fun _ h => h) (fun _ _ h => ⟨hrc, h⟩) fun _ _ h => h

/-- **What `init` can do** to a fresh capture: with good answers it returns a capture that is fully
known, with any other it gives up at some stage. -/
theorem init_spec :
    Spec (· = ⟨.new args, t⟩) (init libs args a)
      (fun _ w => a.Good libs args ∧ ∃ geo, a.fb = .ok geo ∧ Accepts args geo ∧
        Mid (stageCap args geo .buffers).nSizeY (stageCap args geo .buffers).nSizeC t
          (opened args geo a.now) .buffers w)
      (GaveUp libs args a t) := by
  unfold init
  refine spec_bind openFramebuffer_spec fun _ => ?_
  rintro w ⟨geo, ⟨hfb, haccepts⟩, rfl⟩
  -- the panel is known from here on
  refine spec_bind (P := Mid (stageCap args geo .buffers).nSizeY (stageCap args geo .buffers).nSizeC
    t (stageCap args geo .claimed) .claimed) openMemory_spec (fun _ => spec_fact fun hmem => ?_) _
    ⟨rfl, [], .nil, by rw [List.append_nil]⟩
  refine spec_bind createEncoder_spec fun _ => spec_fact fun henc => ?_
  refine spec_bind (setBitrate_spec (coherent_stageCap .encoder)) fun _ => spec_fact fun hrate => ?_
  refine spec_bind initEncoder_spec fun _ => spec_fact fun hinit => ?_
  refine spec_bind (allocBuffers_spec rfl rfl) fun _ => spec_fact fun halloc => ?_
  refine spec_bind setKeyInterval_spec fun _ => ?_
  refine Spec.conseq acquireFirst_spec (fun _ h => h) ?_ fun _ _ h => h
  rintro _ w ⟨hget, hmid⟩
  obtain ⟨hveOps, hmemOps, hopen, hopenRc⟩ := hmem
  have hgood : a.Good libs args :=
    ⟨⟨geo, hfb, haccepts⟩, hveOps, hmemOps, hopen, hopenRc, henc, hrate, hinit, halloc, hget⟩
  exact ⟨hgood, geo, hfb, haccepts, hmid⟩

end Init

/-! ## What the teardown does -/

/-- The vendor calls of `recycle`. -/
def recycleCalls (rc : Int32) : List VendorCall :=
  .alreadyUsedInputBuffer rc :: if rc = 0 then [.returnOneAllocInputBuffer] else []

/-- The vendor calls of the teardown, decided by the capture's flags alone. -/
def teardownCalls (libs : VendorLibs) (rc : Int32) (c : Capture) : List VendorCall :=
  (if c.enc then
    (if c.held then recycleCalls rc else []) ++
    (if c.buffersAlloced then [.releaseAllocInputBuffer] else []) ++
    (if c.encInited then [.videoEncUninit] else []) ++ [.videoEncDestroy]
  else []) ++
  if c.memOpen ∧ c.memops ∧ libs.memOps.close then [.cdcMemClose] else []

/-- The program makes these vendor calls, and does nothing else. -/
def Makes (m : VendorM Unit) (cs : List VendorCall) : Prop :=
  ∀ w, m w = .ok () { w with trace := w.trace ++ cs.map .vendor }

theorem makes_vendor (c : VendorCall) : Makes (vendor c) [c] := fun _ => rfl

/-- Programs one after the other. -/
theorem Makes.bind {m m' : VendorM Unit} {cs cs' : List VendorCall} (h : Makes m cs)
    (h' : Makes m' cs') : Makes (m >>= fun _ => m') (cs ++ cs') := by
  intro w
  show EStateM.bind m (fun _ => m') w = _
  unfold EStateM.bind
  rw [h w]
  show m' { w with trace := w.trace ++ cs.map .vendor } = _
  rw [h', List.map_append, List.append_assoc]

theorem makes_when {p : Prop} [Decidable p] {m : VendorM Unit} {cs : List VendorCall}
    (h : Makes m cs) : Makes (when p m) (if p then cs else []) := by
  intro w
  unfold when
  split
  · exact h w
  · rw [List.map_nil, List.append_nil]
    rfl

/-- A failed return of the buffer ends the recycling. -/
theorem recycle_makes (rc : Int32) : Makes (recycle rc) (recycleCalls rc) :=
  (makes_vendor _).bind (makes_when (makes_vendor _))

/-- The teardown never gives up, and makes the calls its flags decide on. -/
theorem teardown_eq (libs : VendorLibs) (rc : Int32) (w : World) :
    teardown libs rc w =
      .ok () { w with trace := w.trace ++ (teardownCalls libs rc w.cap).map .vendor } := by
  have hinner := ((makes_when (p := w.cap.held) (recycle_makes rc)).bind
    ((makes_when (p := w.cap.buffersAlloced) (makes_vendor .releaseAllocInputBuffer)).bind
      ((makes_when (p := w.cap.encInited) (makes_vendor .videoEncUninit)).bind
        (makes_vendor .videoEncDestroy))))
  have hbody := (makes_when (p := w.cap.enc) hinner).bind
    (makes_when (p := w.cap.memOpen ∧ w.cap.memops ∧ libs.memOps.close)
      (makes_vendor .cdcMemClose))
  unfold teardownCalls
  simp only [List.append_assoc]
  exact hbody w

end RgspCast.Cedar
