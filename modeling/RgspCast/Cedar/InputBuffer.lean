import RgspCast.Cedar.Session

/-!
# Write bounds of the vendor input buffer

`init` asks for the input buffer in wrapping `u32` arithmetic, `convert_into_input_buffer` writes
into it in `usize` arithmetic. Where the aspect ratio of the destination makes the padded surface
larger than 2³² bytes the two disagree, and the first frame writes far past the allocation
(`not_safe`). `safe_iff` says for which panels and destinations every write of every run lies
inside.
-/

namespace RgspCast.InputBuffer

open Nal RgspCast.Geometry Checked ExceptState RgspCast.Convert Cedar Transition

/-! ## What is claimed of the writes -/

inductive Plane where
  | y
  | uv
  deriving DecidableEq

/-- The write stores to the byte at an offset behind the plane's pointer. Pointers wrap at 2⁶⁴. -/
def Touches (pl : Plane) (off : ℕ) : Write → Prop
  | .fill dst n | .copy dst _ n => pl = .y ∧ ∃ i < n, off = (dst + i) % 2 ^ 64
  | .luma i _ => pl = .y ∧ off = i
  | .chroma i _ => pl = .uv ∧ off = i

/-- Every byte written lies inside planes of these sizes. -/
def Within (y uv : ℕ) (wr : Write) : Prop :=
  (∀ off, Touches .y off wr → off < y) ∧ ∀ off, Touches .uv off wr → off < uv

/-- Every write of a trace lies inside what was asked of `AllocInputBuffer`. -/
def InBounds (t : List Event) : Prop :=
  ∀ y uv rc, .vendor (.allocInputBuffer y uv rc) ∈ t →
    ∀ wr, .write wr ∈ t → Within y.toNat uv.toNat wr

/-- Every write of every run that opens this panel with these arguments is in bounds. -/
def Safe (args : OpenArgs) (geo : FbGeometry) : Prop :=
  ∀ libs a calls s, a.fb = .ok geo →
    run (Session.step libs) (.start args) (.init a :: calls) = some s → InBounds s.world.trace

/-! ## The condition -/

/-- The last byte of a pixel lies in the framebuffer copy. -/
def PixelRead (geo : FbGeometry) (p : ℕ × ℕ) : Prop :=
  if geo.bpp = 32 then p.1 * geo.pitch.toNat + p.2 * 4 + 2 < geo.pitch.toNat * geo.h.toNat
  else p.1 * geo.pitch.toNat + p.2 * 2 + 1 < geo.pitch.toNat * geo.h.toNat

/-- The writes of the padded copy fit: the surface covers the panel and is smaller than 2³² bytes,
or the panel has no columns and the clear of the surface, whose length wraps at 2⁶⁴, is. -/
def PaddedFits (geo : FbGeometry) (p : Pillarbox) : Prop :=
  if geo.w = 0 then p.padW.toNat * p.padH.toNat * 4 % 2 ^ 64 < 2 ^ 32
  else geo.w ≤ p.padW ∧ geo.h ≤ p.padH ∧ p.padW.toNat * p.padH.toNat * 4 < 2 ^ 32

/-- The stores of the conversion fit: the surface has less than 2³² pixels, or the conversion
panics, or ends, before it reaches the sizes that were asked for. -/
def ConversionFits (geo : FbGeometry) (p : Pillarbox) : Prop :=
  let area := p.padW.toNat * p.padH.toNat
  let w := geo.w.toNat
  let h := geo.h.toNat
  area < 2 ^ 32 ∨
    ¬ (area % 2 ^ 32 < h * w ∧ ∀ j ≤ area % 2 ^ 32, PixelRead geo (pixelAt w j)) ∧
    ¬ ((∀ y < h, ∀ x < w, PixelRead geo (y, x)) ∧ area % 2 ^ 32 / 2 < chromaExtent w h)

/-- The input buffer that `init` asks for is large enough. A panel without a byte is never copied:
reading it fails. -/
def Fits (args : OpenArgs) (geo : FbGeometry) : Prop :=
  let p := forTarget geo.w geo.h args.dstW args.dstH
  geo.pitch.toNat * geo.h.toNat = 0 ∨
    if args.inFmt.isRgb then
      if p.padded then PaddedFits geo p else geo.pitch.toNat * geo.h.toNat < 2 ^ 32
    else ConversionFits geo p

instance (geo : FbGeometry) (p : ℕ × ℕ) : Decidable (PixelRead geo p) :=
  inferInstanceAs (Decidable (ite _ _ _))

instance (geo : FbGeometry) (p : Pillarbox) : Decidable (PaddedFits geo p) :=
  inferInstanceAs (Decidable (ite _ _ _))

instance (geo : FbGeometry) (p : Pillarbox) : Decidable (ConversionFits geo p) :=
  inferInstanceAs (Decidable (_ ∨ _))

instance (args : OpenArgs) (geo : FbGeometry) : Decidable (Fits args geo) :=
  inferInstanceAs (Decidable (_ ∨ ite _ (ite _ _ _) _))

/-! ## The captures of a session -/

/-- The capture has the fields that `init` set up for this panel. -/
structure Laid (args : OpenArgs) (geo : FbGeometry) (c : Capture) : Prop where
  w : c.w = geo.w
  h : c.h = geo.h
  bpp : c.bpp = geo.bpp
  pitch : c.pitch = geo.pitch
  frameBytes : c.frameBytes = geo.pitch.toNat * geo.h.toNat
  length_fbBuf : c.fbBuf.length = geo.pitch.toNat * geo.h.toNat
  padW : c.padW = (forTarget geo.w geo.h args.dstW args.dstH).padW
  padH : c.padH = (forTarget geo.w geo.h args.dstW args.dstH).padH
  padX : c.padX = (forTarget geo.w geo.h args.dstW args.dstH).padX
  padY : c.padY = (forTarget geo.w geo.h args.dstW args.dstH).padY
  padded : c.padded = (forTarget geo.w geo.h args.dstW args.dstH).padded
  rgbIn : c.rgbIn = args.inFmt.isRgb

variable {args : OpenArgs} {geo : FbGeometry} {c : Capture}

/-- The layout is a part of the configuration, which no call changes. -/
theorem laid_of_config {now : ℤ} (h : c.config = (opened args geo now).config) :
    Laid args geo c where
  w := (congrArg Capture.w h :)
  h := (congrArg Capture.h h :)
  bpp := (congrArg Capture.bpp h :)
  pitch := (congrArg Capture.pitch h :)
  frameBytes := (congrArg Capture.frameBytes h :)
  length_fbBuf := by
    have hlen := congrArg (fun c : Capture => c.fbBuf.length) h
    simpa [Capture.config, Capture.core, opened, stageCap, laidOut] using hlen
  padW := (congrArg Capture.padW h :)
  padH := (congrArg Capture.padH h :)
  padX := (congrArg Capture.padX h :)
  padY := (congrArg Capture.padY h :)
  padded := (congrArg Capture.padded h :)
  rgbIn := (congrArg Capture.rgbIn h :)

/-- The sizes that `init` asks for. -/
def sizeY (args : OpenArgs) (geo : FbGeometry) : UInt32 := (stageCap args geo .buffers).nSizeY

def sizeC (args : OpenArgs) (geo : FbGeometry) : UInt32 := (stageCap args geo .buffers).nSizeC

/-- The product of the padded extents, in pixels. -/
def area (args : OpenArgs) (geo : FbGeometry) : ℕ :=
  (forTarget geo.w geo.h args.dstW args.dstH).padW.toNat *
    (forTarget geo.w geo.h args.dstW args.dstH).padH.toNat

/-- Four bytes for a pixel, modulo `2 ^ 32`. -/
theorem sizeY_rgb (h : args.inFmt.isRgb = true) :
    (sizeY args geo).toNat = area args geo * 4 % 2 ^ 32 := by
  have hsize : sizeY args geo = (forTarget geo.w geo.h args.dstW args.dstH).padW *
      (forTarget geo.w geo.h args.dstW args.dstH).padH * 4 := by
    unfold sizeY Capture.nSizeY stageCap
    rw [if_pos h]
    rfl
  rw [hsize, UInt32.toNat_mul, UInt32.toNat_mul]
  show _ % 2 ^ 32 * 4 % 2 ^ 32 = _
  rw [Nat.mod_mul_mod]
  rfl

/-- A byte of luma for a pixel, modulo `2 ^ 32`, and half as many of chroma. -/
theorem size_nv12 (h : args.inFmt.isRgb = false) :
    (sizeY args geo).toNat = area args geo % 2 ^ 32 ∧
      (sizeC args geo).toNat = area args geo % 2 ^ 32 / 2 := by
  have hno : ¬ args.inFmt.isRgb = true := Bool.eq_false_iff.mp h
  constructor
  · have hsize : sizeY args geo = (forTarget geo.w geo.h args.dstW args.dstH).padW *
        (forTarget geo.w geo.h args.dstW args.dstH).padH := by
      unfold sizeY Capture.nSizeY stageCap
      rw [if_neg hno]
      rfl
    rw [hsize, UInt32.toNat_mul]
    rfl
  · have hsize : sizeC args geo = (forTarget geo.w geo.h args.dstW args.dstH).padW *
        (forTarget geo.w geo.h args.dstW args.dstH).padH / 2 := by
      unfold sizeC Capture.nSizeC stageCap
      rw [if_neg hno]
      rfl
    rw [hsize, UInt32.toNat_div, UInt32.toNat_mul]
    rfl

/-! ## The two planes of a conversion -/

/-- A write of one byte into the first buffer. -/
theorem within_luma_iff {L M i : ℕ} {v : UInt8} : Within L M (.luma i v) ↔ i < L := by
  simp [Within, Touches]

/-- And into the second. -/
theorem within_chroma_iff {L M i : ℕ} {v : UInt8} : Within L M (.chroma i v) ↔ i < M := by
  simp [Within, Touches]

/-- The stores of a conversion stay inside two planes where none escapes them. -/
theorem forall_within_stores_iff {L M : ℕ} {n : Lengths} {as : List Access} :
    (∀ wr ∈ (performed (Access.InRange n) as).filterMap Write.ofAccess, Within L M wr) ↔
      ¬ Reaches (Access.InRange n) (Access.Escapes L M) as := by
  simp only [List.mem_filterMap]
  constructor
  · rintro hall ⟨a, ha, hbad⟩
    cases a with
    | storeY i v => exact absurd (within_luma_iff.mp (hall _ ⟨_, ha, rfl⟩)) (Nat.not_lt.mpr hbad)
    | storeUv i v =>
      exact absurd (within_chroma_iff.mp (hall _ ⟨_, ha, rfl⟩)) (Nat.not_lt.mpr hbad)
    | _ => exact hbad
  · rintro hno wr ⟨a, ha, hwr⟩
    cases a with
    | storeY i v =>
      obtain rfl := Option.some.inj hwr
      exact within_luma_iff.mpr (Nat.lt_of_not_le fun hbad => hno ⟨_, ha, hbad⟩)
    | storeUv i v =>
      obtain rfl := Option.some.inj hwr
      exact within_chroma_iff.mpr (Nat.lt_of_not_le fun hbad => hno ⟨_, ha, hbad⟩)
    | _ => cases hwr

/-- A store that takes place is in range of its slice. -/
theorem forall_within_slices {n : Lengths} {as : List Access} :
    ∀ wr ∈ (performed (Access.InRange n) as).filterMap Write.ofAccess, Within n.y n.uv wr := by
  rw [forall_within_stores_iff]
  rintro ⟨a, ha, hbad⟩
  have hok : Access.InRange n a := ok_of_mem_performed ha
  cases a with
  | storeY i v => exact absurd hok (Nat.not_lt.mpr hbad)
  | storeUv i v => exact absurd hok (Nat.not_lt.mpr hbad)
  | _ => exact hbad

/-- A grown surface that has a pixel covers the panel. -/
theorem covers_of_shape {srcW srcH : UInt32} {p : Pillarbox} (h : Shape srcW srcH p)
    (hw : p.padW ≠ 0) (hh : p.padH ≠ 0) : srcW ≤ p.padW ∧ srcH ≤ p.padH := by
  cases h with
  | plain => exact ⟨UInt32.le_refl _, UInt32.le_refl _⟩
  | wide padW hle => exact ⟨hle.resolve_left hw, UInt32.le_refl _⟩
  | tall padH hle => exact ⟨UInt32.le_refl _, hle.resolve_left hh⟩

/-- The order is that of the numbers. -/
theorem toNat_le {x y : UInt32} (h : x ≤ y) : x.toNat ≤ y.toNat := UInt32.le_iff_toNat_le.mp h

/-- The conversion of a capture is that of its panel. -/
theorem convertAccesses_eq (hc : Laid args geo c) :
    c.convertAccesses =
      nv12 (if geo.bpp = 32 then bgra c.fbBuf geo.pitch.toNat else rgb565 c.fbBuf geo.pitch.toNat)
        geo.w.toNat geo.h.toNat := by
  unfold Capture.convertAccesses
  rw [hc.bpp, hc.pitch, hc.w, hc.h]
  split <;> rfl

/-- What a pixel needs of the source does not depend on the bytes there. -/
theorem pixelIn_iff {src : Bytes} {n : Lengths} (hn : n.src = geo.pitch.toNat * geo.h.toNat)
    (p : ℕ × ℕ) :
    PixelIn (if geo.bpp = 32 then bgra src geo.pitch.toNat else rgb565 src geo.pitch.toNat) n p ↔
      PixelRead geo p := by
  unfold PixelIn PixelRead
  rw [hn]
  split
  · simp only [bgra, List.flatMap_cons, List.flatMap_nil, List.map_cons, List.map_nil,
      List.cons_append, List.nil_append, List.append_nil, List.forall_mem_cons, List.not_mem_nil,
      false_imp_iff, implies_true, and_true]
    omega
  · simp only [rgb565, List.flatMap_cons, List.flatMap_nil, List.append_nil, List.forall_mem_cons,
      List.not_mem_nil, false_imp_iff, implies_true, and_true]
    omega

/-- The row slices of the panel's copy start in it. -/
theorem rowsIn {src : Bytes} {n : Lengths} (hn : n.src = geo.pitch.toNat * geo.h.toNat) :
    RowsIn (if geo.bpp = 32 then bgra src geo.pitch.toNat else rgb565 src geo.pitch.toNat)
      geo.h.toNat n := by
  split
  · exact rowsIn_bgra hn
  · exact rowsIn_rgb565

/-- The conversion writes inside the planes exactly where `ConversionFits`. -/
theorem forall_within_conversion_iff (hc : Laid args geo c) (hrgb : args.inFmt.isRgb = false) :
    (∀ wr ∈ c.convertIntoInputBuffer.writes,
        Within (sizeY args geo).toNat (sizeC args geo).toNat wr) ↔
      ConversionFits geo (forTarget geo.w geo.h args.dstW args.dstH) := by
  have hwrites : c.convertIntoInputBuffer.writes =
      (performed (Access.InRange c.sliceLengths) c.convertAccesses).filterMap Write.ofAccess := by
    unfold Capture.convertIntoInputBuffer
    rw [hc.rgbIn, hrgb]
    rfl
  have hy : c.sliceLengths.y = area args geo := by
    unfold Capture.sliceLengths area
    rw [hc.padW, hc.padH]
  have huv : c.sliceLengths.uv = area args geo / 2 := by
    unfold Capture.sliceLengths area
    rw [hc.padW, hc.padH]
  have hsrc : c.sliceLengths.src = geo.pitch.toNat * geo.h.toNat := hc.length_fbBuf
  rw [hwrites, (size_nv12 hrgb).1, (size_nv12 hrgb).2]
  unfold ConversionFits
  show _ ↔ area args geo < 2 ^ 32 ∨ _
  by_cases hsmall : area args geo < 2 ^ 32
  · -- nothing wraps, and the slices are the planes
    rw [Nat.mod_eq_of_lt hsmall, ← hy]
    have huv' : c.sliceLengths.y / 2 = c.sliceLengths.uv := by rw [hy, huv]
    rw [huv', hy]
    exact ⟨fun _ => Or.inl hsmall, fun _ => hy ▸ forall_within_slices⟩
  · have hpos : 0 < area args geo := by omega
    have hcover := covers_of_shape (forTarget_shape geo.w geo.h args.dstW args.dstH)
      (fun h => by simp [area, h] at hpos) (fun h => by simp [area, h] at hpos)
    have hfit : geo.h.toNat * geo.w.toNat ≤ c.sliceLengths.y := by
      rw [hy, Nat.mul_comm]
      exact Nat.mul_le_mul (toNat_le hcover.1) (toNat_le hcover.2)
    have hM : area args geo % 2 ^ 32 / 2 < c.sliceLengths.uv := by
      rw [huv]
      omega
    rw [or_iff_right hsmall, forall_within_stores_iff, convertAccesses_eq hc,
      not_reaches_nv12_iff (rowsIn hsrc) hfit hM]
    simp only [pixelIn_iff hsrc]
    rfl

/-! ## The copies of an RGB panel -/

/-- A run of bytes is inside where each of them is. -/
theorem within_copy {L M dst src n : ℕ} :
    Within L M (.copy dst src n) ↔ ∀ i < n, (dst + i) % 2 ^ 64 < L := by
  constructor
  · rintro ⟨hy, -⟩ i hi
    exact hy _ ⟨rfl, i, hi, rfl⟩
  · intro h
    refine ⟨?_, fun off hoff => by cases hoff.1⟩
    rintro off ⟨-, i, hi, rfl⟩
    exact h i hi

/-- A write of many bytes, whose addresses wrap. -/
theorem within_fill {L M dst n : ℕ} :
    Within L M (.fill dst n) ↔ ∀ i < n, (dst + i) % 2 ^ 64 < L :=
  @within_copy L M dst 0 n

/-- A run from the start of the plane, not longer than the address space. -/
theorem forall_from_zero_iff {L n : ℕ} (hn : n ≤ 2 ^ 64) :
    (∀ i < n, (0 + i) % 2 ^ 64 < L) ↔ n ≤ L := by
  constructor
  · intro h
    by_contra hlt
    have := h L (by omega)
    rw [Nat.zero_add, Nat.mod_eq_of_lt (by omega)] at this
    omega
  · intro h i hi
    rw [Nat.zero_add, Nat.mod_eq_of_lt (by omega)]
    omega

/-- A run longer than the plane leaves it, wherever it starts. -/
theorem exists_outside {L d n : ℕ} (hL : L < 2 ^ 32) (hn : 2 ^ 32 ≤ n) :
    ∃ i < n, ¬ (d + i) % 2 ^ 64 < L := by
  by_cases hstart : d % 2 ^ 64 < L
  · refine ⟨L - d % 2 ^ 64, by omega, ?_⟩
    rw [Nat.add_mod, Nat.mod_eq_of_lt (show L - d % 2 ^ 64 < 2 ^ 64 by omega)]
    rw [show d % 2 ^ 64 + (L - d % 2 ^ 64) = L by omega, Nat.mod_eq_of_lt (by omega)]
    omega
  · exact ⟨0, by omega, by simpa using hstart⟩

/-- Without padding the surface is the panel, and the pitch is its row. -/
theorem plain_of_accepts (haccepts : Accepts args geo) (hrgb : args.inFmt.isRgb = true)
    (hpad : (forTarget geo.w geo.h args.dstW args.dstH).padded = false) :
    forTarget geo.w geo.h args.dstW args.dstH = ⟨geo.w, geo.h, 0, 0, false⟩ ∧
      geo.pitch = geo.w * 4 := by
  constructor
  · have hshape := forTarget_shape geo.w geo.h args.dstW args.dstH
    generalize forTarget geo.w geo.h args.dstW args.dstH = p at hshape hpad
    cases hshape with
    | plain => rfl
    | wide => cases hpad
    | tall => cases hpad
  · have := haccepts.pitch
    unfold validateRgbPitch at this
    split at this
    next => cases this
    next h =>
      by_contra hne
      exact h ⟨hrgb, Bool.eq_false_iff.mp hpad, hne⟩

/-- The unpadded copy fits where the framebuffer copy is smaller than 2³² bytes. -/
theorem forall_within_copy_iff (hc : Laid args geo c) (hrgb : args.inFmt.isRgb = true)
    (haccepts : Accepts args geo)
    (hpad : (forTarget geo.w geo.h args.dstW args.dstH).padded = false) :
    (∀ wr ∈ c.convertIntoInputBuffer.writes,
        Within (sizeY args geo).toNat (sizeC args geo).toNat wr) ↔
      geo.pitch.toNat * geo.h.toNat < 2 ^ 32 := by
  have hwrites : c.convertIntoInputBuffer.writes =
      [.copy 0 0 (geo.pitch.toNat * geo.h.toNat)] := by
    unfold Capture.convertIntoInputBuffer
    rw [hc.rgbIn, hrgb, hc.padded, hpad, hc.frameBytes]
    rfl
  obtain ⟨hplain, hpitch⟩ := plain_of_accepts haccepts hrgb hpad
  have hsize : (sizeY args geo).toNat = geo.pitch.toNat * geo.h.toNat % 2 ^ 32 := by
    rw [sizeY_rgb hrgb, area, hplain, hpitch, UInt32.toNat_mul]
    show geo.w.toNat * geo.h.toNat * 4 % 2 ^ 32 = geo.w.toNat * 4 % 2 ^ 32 * geo.h.toNat % 2 ^ 32
    rw [Nat.mod_mul_mod, Nat.mul_right_comm]
  -- the product of two 32-bit numbers fits in `usize`
  have hbytes : geo.pitch.toNat * geo.h.toNat ≤ 2 ^ 64 := by
    have hp := geo.pitch.toNat_lt
    have hh := geo.h.toNat_lt
    calc geo.pitch.toNat * geo.h.toNat ≤ 2 ^ 32 * 2 ^ 32 :=
          Nat.mul_le_mul (Nat.le_of_lt hp) (Nat.le_of_lt hh)
      _ = 2 ^ 64 := rfl
  rw [hwrites, List.forall_mem_singleton, within_copy, forall_from_zero_iff hbytes, hsize]
  omega

/-- The writes of a padded copy before the bars are painted: the clear of the surface, and a run of
bytes for each row. -/
theorem forall_within_padded_iff (hc : Laid args geo c) (hrgb : args.inFmt.isRgb = true)
    (hpad : (forTarget geo.w geo.h args.dstW args.dstH).padded = true)
    (hbars : c.barsCleared = false) :
    (∀ wr ∈ c.convertIntoInputBuffer.writes,
        Within (sizeY args geo).toNat (sizeC args geo).toNat wr) ↔
      area args geo * 4 % 2 ^ 64 ≤ area args geo * 4 % 2 ^ 32 ∧
        ∀ y < geo.h.toNat, ∀ i < geo.w.toNat * 4,
          (c.padY.toNat * (c.padW.toNat * 4) + c.padX.toNat * 4 + y * (c.padW.toNat * 4) + i) %
            2 ^ 64 < area args geo * 4 % 2 ^ 32 := by
  have hclear : c.padW.toNat * 4 * c.padH.toNat = area args geo * 4 := by
    rw [hc.padW, hc.padH, Nat.mul_right_comm]
    rfl
  have hwrites : c.convertIntoInputBuffer.writes =
      [Write.fill 0 (area args geo * 4 % 2 ^ 64)] ++ (List.range geo.h.toNat).map fun y =>
        Write.copy (((c.padY.toNat * (c.padW.toNat * 4) + c.padX.toNat * 4) % 2 ^ 64 +
          y * (c.padW.toNat * 4)) % 2 ^ 64) (y * geo.pitch.toNat) (geo.w.toNat * 4) := by
    rw [← hclear]
    unfold Capture.convertIntoInputBuffer
    rw [hc.rgbIn, hrgb, hc.padded, hpad, hbars, hc.h, hc.w, hc.pitch]
    rfl
  have hlt : area args geo * 4 % 2 ^ 64 ≤ 2 ^ 64 := Nat.le_of_lt (Nat.mod_lt _ (by decide))
  rw [hwrites, sizeY_rgb hrgb, List.forall_mem_append, List.forall_mem_singleton, within_fill,
    forall_from_zero_iff hlt]
  apply and_congr_right
  intro _
  simp only [List.forall_mem_map, List.mem_range, within_copy, Nat.mod_add_mod]

/-- The panel is centred in a surface that covers it. -/
theorem centred_of_shape {srcW srcH : UInt32} {p : Pillarbox} (h : Shape srcW srcH p)
    (hw : srcW ≤ p.padW) (hh : srcH ≤ p.padH) :
    p.padX.toNat = (p.padW.toNat - srcW.toNat) / 2 ∧
      p.padY.toNat = (p.padH.toNat - srcH.toNat) / 2 := by
  cases h with
  | plain => simp
  | wide padW => exact ⟨toNat_half_sub hw, by simp⟩
  | tall padH => exact ⟨by simp, toNat_half_sub hh⟩

/-- The last byte of a centred row is the last byte of its row of the surface, or before it. -/
theorem centred_row_lt {w h padW padH y i : ℕ} (hw : w ≤ padW) (hh : h ≤ padH) (hy : y < h)
    (hi : i < w * 4) :
    (padH - h) / 2 * (padW * 4) + (padW - w) / 2 * 4 + y * (padW * 4) + i < padW * padH * 4 := by
  have hrow : ((padH - h) / 2 + y + 1) * (padW * 4) ≤ padH * (padW * 4) :=
    Nat.mul_le_mul_right _ (by omega)
  rw [Nat.succ_mul, Nat.add_mul] at hrow
  have harea : padH * (padW * 4) = padW * padH * 4 := by
    rw [← Nat.mul_assoc, Nat.mul_comm padH padW]
  omega

/-- A factor of a product from `2 ^ 62` on is large, since the other has 32 bits. -/
theorem two_pow_le_of_mul {x y : UInt32} (h : 2 ^ 62 ≤ x.toNat * y.toNat) : 2 ^ 30 ≤ x.toNat := by
  by_contra hlt
  have hy := y.toNat_lt
  have hprod := Nat.mul_le_mul (Nat.le_of_lt_succ (Nat.lt_of_not_le hlt)) (Nat.le_of_lt_succ hy)
  omega

/-- A surface whose bytes do not fit 64 bits has a row with a byte past every size that can be
asked for. -/
theorem exists_row_outside {p : Pillarbox} (hshape : Shape geo.w geo.h p) (hpad : p.padded = true)
    (hh : 0 < geo.h.toNat) (hw : 0 < geo.w.toNat)
    (hwrap : 2 ^ 62 ≤ p.padW.toNat * p.padH.toNat) :
    ¬ ∀ y < geo.h.toNat, ∀ i < geo.w.toNat * 4,
      (p.padY.toNat * (p.padW.toNat * 4) + p.padX.toNat * 4 + y * (p.padW.toNat * 4) + i) %
        2 ^ 64 < p.padW.toNat * p.padH.toNat * 4 % 2 ^ 32 := by
  intro hrows
  have hpadW := two_pow_le_of_mul hwrap
  have hpadH := two_pow_le_of_mul (Nat.mul_comm _ _ ▸ hwrap)
  cases hshape with
  | plain => cases hpad
  | wide padW =>
    -- the second row starts past every size that can be asked for
    dsimp only at hpadW hpadH hrows
    have hsecond := hrows 1 (by omega) 0 (by omega)
    have hx := padW.toNat_lt
    have hpadX := ((padW - geo.w) / 2).toNat_lt
    simp only [UInt32.toNat_zero, Nat.zero_mul, Nat.one_mul, Nat.zero_add] at hsecond
    omega
  | tall padH =>
    -- one row is longer than every size that can be asked for
    dsimp only at hpadW hrows
    obtain ⟨i, hi, hout⟩ := exists_outside
      (d := ((padH - geo.h) / 2).toNat * (geo.w.toNat * 4))
      (Nat.mod_lt (geo.w.toNat * padH.toNat * 4) (show 0 < 2 ^ 32 by decide))
      (show 2 ^ 32 ≤ geo.w.toNat * 4 by omega)
    apply hout
    have hrow := hrows 0 hh i hi
    simpa only [UInt32.toNat_zero, Nat.zero_mul, Nat.add_zero] using hrow

/-- The runs of the padded copy lie inside the wrapped size exactly where `PaddedFits`. -/
theorem padded_runs_iff {p : Pillarbox} (hshape : Shape geo.w geo.h p) (hpad : p.padded = true)
    (hh : 0 < geo.h.toNat) :
    (p.padW.toNat * p.padH.toNat * 4 % 2 ^ 64 ≤ p.padW.toNat * p.padH.toNat * 4 % 2 ^ 32 ∧
        ∀ y < geo.h.toNat, ∀ i < geo.w.toNat * 4,
          (p.padY.toNat * (p.padW.toNat * 4) + p.padX.toNat * 4 + y * (p.padW.toNat * 4) + i) %
            2 ^ 64 < p.padW.toNat * p.padH.toNat * 4 % 2 ^ 32) ↔
      PaddedFits geo p := by
  unfold PaddedFits
  by_cases hw : geo.w = 0
  · -- no column, so no row has a byte
    rw [if_pos hw, hw]
    simp only [UInt32.toNat_zero, Nat.zero_mul, Nat.not_lt_zero, false_imp_iff, implies_true,
      and_true]
    omega
  · have hwpos : 0 < geo.w.toNat := by
      rcases Nat.eq_zero_or_pos geo.w.toNat with hzero | hpos
      · exact absurd (UInt32.toNat_inj.mp hzero) hw
      · exact hpos
    rw [if_neg hw]
    constructor
    · rintro ⟨hclear, hrows⟩
      have hfirst := hrows 0 hh 0 (by omega)
      -- an empty surface has no room for the first byte
      have hne : p.padW ≠ 0 ∧ p.padH ≠ 0 := by
        refine ⟨fun hzero => ?_, fun hzero => ?_⟩ <;>
          · rw [hzero] at hfirst
            simp at hfirst
      obtain ⟨hcw, hch⟩ := covers_of_shape hshape hne.1 hne.2
      refine ⟨hcw, hch, ?_⟩
      by_contra hbig
      exact exists_row_outside hshape hpad hh hwpos (by omega) hrows
    · rintro ⟨hcw, hch, hsmall⟩
      rw [Nat.mod_eq_of_lt (show _ < 2 ^ 64 by omega), Nat.mod_eq_of_lt hsmall]
      refine ⟨Nat.le_refl _, ?_⟩
      intro y hy i hi
      obtain ⟨hx, hy'⟩ := centred_of_shape hshape hcw hch
      have hlt := centred_row_lt (toNat_le hcw) (toNat_le hch) hy hi
      rw [hx, hy', Nat.mod_eq_of_lt (by omega)]
      exact hlt

/-! ## The copy of a frame -/

/-- The first copy of a panel writes inside the buffer exactly where `Fits`. -/
theorem forall_within_iff (hc : Laid args geo c) (haccepts : Accepts args geo)
    (hbytes : geo.pitch.toNat * geo.h.toNat ≠ 0) (hbars : c.barsCleared = false) :
    (∀ wr ∈ c.convertIntoInputBuffer.writes,
        Within (sizeY args geo).toNat (sizeC args geo).toNat wr) ↔ Fits args geo := by
  unfold Fits
  simp only
  rw [or_iff_right hbytes]
  by_cases hrgb : args.inFmt.isRgb = true
  · rw [if_pos hrgb]
    by_cases hpad : (forTarget geo.w geo.h args.dstW args.dstH).padded = true
    · have hh : 0 < geo.h.toNat := by
        refine Nat.pos_of_ne_zero fun hzero => hbytes ?_
        rw [hzero, Nat.mul_zero]
      rw [if_pos hpad, forall_within_padded_iff hc hrgb hpad hbars,
        ← padded_runs_iff (forTarget_shape _ _ _ _) hpad hh, hc.padX, hc.padY, hc.padW]
      rfl
    · rw [Bool.not_eq_true] at hpad
      rw [if_neg (Bool.eq_false_iff.mp hpad), forall_within_copy_iff hc hrgb haccepts hpad]
  · rw [Bool.not_eq_true] at hrgb
    rw [if_neg (Bool.eq_false_iff.mp hrgb), forall_within_conversion_iff hc hrgb]

/-- Once the bars are painted the copy writes less. -/
theorem writes_subset (c : Capture) {wr : Write} (h : wr ∈ c.convertIntoInputBuffer.writes) :
    wr ∈ { c with barsCleared := false }.convertIntoInputBuffer.writes := by
  unfold Capture.convertIntoInputBuffer at h ⊢
  by_cases hpad : c.rgbIn = true ∧ c.padded = true
  · simp only [if_pos hpad, List.mem_append] at h ⊢
    rcases h with hbars | hrow
    · split at hbars
      · exact absurd hbars List.not_mem_nil
      · exact Or.inl hbars
    · exact Or.inr hrow
  · simp only [if_neg hpad] at h ⊢
    by_cases hrgb : c.rgbIn = true
    · simp only [if_pos hrgb] at h ⊢
      exact h
    · simp only [if_neg hrgb] at h ⊢
      exact h

/-- Where the buffer is large enough every copy stays inside. -/
theorem within_of_fits (hc : Laid args geo c) (haccepts : Accepts args geo)
    (hbytes : geo.pitch.toNat * geo.h.toNat ≠ 0) (hfits : Fits args geo) :
    ∀ wr ∈ c.convertIntoInputBuffer.writes,
      Within (sizeY args geo).toNat (sizeC args geo).toNat wr := by
  intro wr hwr
  have hc' : Laid args geo { c with barsCleared := false } :=
    ⟨hc.w, hc.h, hc.bpp, hc.pitch, hc.frameBytes, hc.length_fbBuf, hc.padW, hc.padH, hc.padX,
      hc.padY, hc.padded, hc.rgbIn⟩
  exact (forall_within_iff hc' haccepts hbytes rfl).mpr hfits wr (writes_subset c hwr)

/-! ## Runs -/

/-- An event of a session that keeps to the buffer: a request for it asks for the sizes `init`
computes, and a write lies inside them. -/
def Event.Ok (args : OpenArgs) (geo : FbGeometry) : Event → Prop
  | .vendor (.allocInputBuffer y uv _) => y = sizeY args geo ∧ uv = sizeC args geo
  | .write wr => Within (sizeY args geo).toNat (sizeC args geo).toNat wr
  | _ => True

/-- A trace of good events is in bounds. -/
theorem inBounds_of_ok {t : List Event} (h : ∀ e ∈ t, Event.Ok args geo e) : InBounds t := by
  intro y uv rc halloc wr hwr
  obtain ⟨rfl, rfl⟩ := h _ halloc
  exact h _ hwr

/-- So is one without writes. -/
theorem inBounds_of_no_write {t : List Event} (h : ∀ wr, .write wr ∉ t) : InBounds t :=
  fun _ _ _ _ wr hwr => absurd hwr (h wr)

/-- The vendor calls of `next` are good. -/
theorem ok_of_inNext {v : VendorCall} (hv : v.InNext) : Event.Ok args geo (.vendor v) := by
  cases v
  case allocInputBuffer => exact hv.elim
  all_goals trivial

/-- A call of `next` writes only what a copy of the panel writes. -/
theorem ok_of_nextTrace {k : Capture} {es : List Event} (h : NextTrace k es)
    (hcopy : ∀ c : Capture, c.config = k → k.fbBuf ≠ [] →
      ∀ wr ∈ c.convertIntoInputBuffer.writes,
        Within (sizeY args geo).toNat (sizeC args geo).toNat wr) :
    ∀ e ∈ es, Event.Ok args geo e := by
  induction h with
  | nil => simp
  | call h hc ih => exact List.forall_mem_append.mpr ⟨ih, by simpa using ok_of_inNext hc⟩
  | unit h o ih => exact List.forall_mem_append.mpr ⟨ih, by simp [Event.Ok]⟩
  | copied h c hc hread ih =>
    refine List.forall_mem_append.mpr ⟨ih, ?_⟩
    rw [List.forall_mem_map]
    exact hcopy c hc hread

/-- So are those of `init`. -/
theorem ok_of_inInit {v : VendorCall} (hv : v.InInit (sizeY args geo) (sizeC args geo)) :
    Event.Ok args geo (.vendor v) := by
  cases v
  case allocInputBuffer => exact hv.2
  all_goals trivial

/-- `init` writes nothing, and asks for the sizes it computes. -/
theorem ok_of_opens {st : Stage} {es : List Event}
    (h : Opens (sizeY args geo) (sizeC args geo) st es) : ∀ e ∈ es, Event.Ok args geo e := by
  induction h with
  | nil => simp
  | quiet h hv ih => exact List.forall_mem_append.mpr ⟨ih, by simpa using ok_of_inInit hv⟩
  | memory h hrc ih => exact List.forall_mem_append.mpr ⟨ih, by simp [Event.Ok]⟩
  | encoder h ih => exact List.forall_mem_append.mpr ⟨ih, by simp [Event.Ok]⟩
  | inited h cfg ih => exact List.forall_mem_append.mpr ⟨ih, by simp [Event.Ok]⟩
  | buffers h ih => exact List.forall_mem_append.mpr ⟨ih, by simp [Event.Ok]⟩

/-- So are those of the teardown. -/
theorem ok_of_mem_teardownCalls {libs : VendorLibs} {rc : Int32} {k : Capture} {v : VendorCall}
    (h : v ∈ teardownCalls libs rc k) : Event.Ok args geo (.vendor v) := by
  cases v
  case allocInputBuffer =>
    unfold teardownCalls recycleCalls at h
    simp only [List.mem_append, List.mem_ite_nil_right, List.mem_cons, List.not_mem_nil] at h
    simp at h
  all_goals trivial

/-- A step past `init` keeps to the buffer where every copy does. -/
theorem ok_of_adds {k : Capture} {es : List Event} (h : Adds k es)
    (hcopy : ∀ c : Capture, c.config = k → k.fbBuf ≠ [] →
      ∀ wr ∈ c.convertIntoInputBuffer.writes,
        Within (sizeY args geo).toNat (sizeC args geo).toNat wr) :
    ∀ e ∈ es, Event.Ok args geo e := by
  cases h with
  | next h => exact ok_of_nextTrace h hcopy
  | frame h f =>
    exact List.forall_mem_append.mpr ⟨ok_of_nextTrace h hcopy, by simp [Event.Ok]⟩
  | failed h e =>
    exact List.forall_mem_append.mpr ⟨ok_of_nextTrace h hcopy, by simp [Event.Ok]⟩
  | down =>
    refine List.forall_mem_append.mpr ⟨by simp [Event.Ok], ?_⟩
    rw [List.forall_mem_map]
    exact fun v hv => ok_of_mem_teardownCalls hv

/-- A capture on its way out, that has written nothing. -/
structure Leaving (s : Session) : Prop where
  phase : s.phase = .unwinding ∨ s.phase = .tornDown
  no_write : ∀ wr, .write wr ∉ s.world.trace

/-- A session that has left stays away. -/
theorem leaving_of_steps {libs : VendorLibs} {s s' : Session} {call : Call}
    (h : Steps libs s call s') (hs : Leaving s) : Leaving s' := by
  obtain ⟨rc, rfl⟩ := dropped_of_gone h hs.phase
  refine ⟨Or.inr rfl, fun wr => ?_⟩
  simpa using hs.no_write wr

/-- A capture past its `init`, whose every event so far keeps to the buffer. -/
structure Keeping (args : OpenArgs) (geo : FbGeometry) (now : ℤ) (s : Session) : Prop where
  config : s.world.cap.config = (opened args geo now).config
  opened : ∀ args, s.phase ≠ .opening args
  ok : ∀ e ∈ s.world.trace, Event.Ok args geo e

/-- One call keeps the invariant, where the buffers hold what is written into them. -/
theorem keeping_of_steps {libs : VendorLibs} {now : ℤ} {s s' : Session} {call : Call}
    (haccepts : Accepts args geo) (hfits : Fits args geo) (h : Steps libs s call s')
    (hs : Keeping args geo now s) : Keeping args geo now s' := by
  obtain ⟨hsame, hopened, es, hadds, htrace⟩ := config_and_trace_of_step h hs.opened
  rw [hs.config] at hsame hadds
  refine ⟨hsame, hopened, ?_⟩
  rw [htrace]
  refine List.forall_mem_append.mpr ⟨hs.ok, ok_of_adds hadds fun c hc hne => ?_⟩
  refine within_of_fits (laid_of_config hc) haccepts (fun hzero => hne ?_) hfits
  apply List.eq_nil_of_length_eq_zero
  simpa [Capture.config, Capture.core, Cedar.opened, stageCap, laidOut] using hzero

/-- **Where the buffer is large enough every write of every run lies inside it.** -/
theorem safe_of_fits (haccepts : Accepts args geo) (hfits : Fits args geo) : Safe args geo := by
  intro libs a calls s hfb hrun
  obtain ⟨s₀, hinit, hrest⟩ := run_cons_eq_some.mp hrun
  rcases step_init hinit with ⟨hphase, geo', hfb', -, hmid⟩ | ⟨hphase, st, hreached⟩
  · obtain rfl : geo = geo' := Except.ok.inj (hfb.symm.trans hfb')
    have hstart : Keeping args geo a.now s₀ := by
      obtain ⟨es, hes, htrace⟩ := hmid.trace
      refine ⟨congrArg Capture.config hmid.cap, by rw [hphase]; nofun, ?_⟩
      rw [htrace]
      exact List.forall_mem_append.mpr ⟨by simp [Event.Ok], ok_of_opens hes⟩
    have hkept : Keeping args geo a.now s := run_invariant
      (fun _ _ _ hstep hs => keeping_of_steps haccepts hfits (steps_of_step hstep) hs) hrest hstart
    exact inBounds_of_ok hkept.ok
  -- a capture that failed to open writes nothing
  · have hstart : Leaving s₀ := by
      refine ⟨Or.inl hphase, fun wr hwr => ?_⟩
      obtain ⟨y, uv, htraced⟩ := hreached.trace
      rcases vendor_of_traced htraced hwr with hclaimed | ⟨v, hv⟩
      · cases hclaimed
      · cases hv
    have hkept : Leaving s := run_invariant
      (fun _ _ _ hstep hs => leaving_of_steps (steps_of_step hstep) hs) hrest hstart
    exact inBounds_of_no_write hkept.no_write

/-! ## The first frame -/

/-- The first copy of a capture with configuration `k` is in the trace. -/
def Copied (k : Capture) (w : World) : Prop :=
  ∃ c : Capture, c.config = k ∧ c.barsCleared = false ∧
    ∀ wr ∈ c.convertIntoInputBuffer.writes, .write wr ∈ w.trace

/-- A panel that has been copied stays so in a longer trace. -/
theorem Copied.mono {k : Capture} {w w' : World} (h : Copied k w)
    (hsub : ∀ e ∈ w.trace, e ∈ w'.trace) : Copied k w' := by
  obtain ⟨c, hc, hbars, hwrites⟩ := h
  exact ⟨c, hc, hbars, fun wr hwr => hsub _ (hwrites wr hwr)⟩

/-- It stays so over the rest of a call. -/
theorem Copied.append {k : Capture} {w w' : World} (h : Copied k w)
    (htrace : ∃ es, NextTrace c es ∧ w'.trace = w.trace ++ es) : Copied k w' := by
  obtain ⟨es, -, htrace⟩ := htrace
  apply h.mono
  intro e he
  rw [htrace]
  exact List.mem_append_left es he

/-- A capture on the way to its first copy. -/
structure Fresh (k : Capture) (w : World) : Prop where
  config : w.cap.config = k
  barsCleared : w.cap.barsCleared = false
  fbBuf : w.cap.fbBuf ≠ []

section Copy

variable {k : Capture} {a : NextAnswers} {E : Exit → World → Prop}

/-- A change that leaves the configuration, the bars and the copy alone. -/
theorem fresh_modifyCap {f : Capture → Capture} (hconfig : ∀ c, (f c).config = c.config)
    (hbars : ∀ c, (f c).barsCleared = c.barsCleared) (hbuf : ∀ c, (f c).fbBuf = c.fbBuf) :
    Spec (Fresh k) (modifyCap f) (fun _ => Fresh k) E :=
  spec_modifyCap fun w h =>
    ⟨(hconfig _).trans h.config, (hbars _).trans h.barsCleared, by rw [hbuf]; exact h.fbBuf⟩

/-- Where there is something to read the panel is read. -/
theorem readFramebuffer_fresh (hread : a.read = .ok [0]) :
    Spec (Fresh k) (readFramebuffer a) (fun _ => Fresh k) E := by
  refine spec_get_bind fun w h => ?_
  have hlen : 1 ≤ w.cap.fbBuf.length := List.length_pos_iff.mpr h.fbBuf
  have hok : readVisible w.cap.fbBuf a.read = .ok (1, 0 :: w.cap.fbBuf.drop 1) := by
    rw [hread, readVisible, List.take_of_length_le hlen]
    rfl
  rw [hok]
  refine spec_modifyCap ?_
  rintro w rfl
  have hsame : (0 :: w.cap.fbBuf.drop 1 : Bytes).length = w.cap.fbBuf.length :=
    length_readVisible hok
  exact ⟨(config_eq_of_core_eq (core_setFbBuf hsame)).trans h.config, h.barsCleared,
    List.cons_ne_nil _ _⟩

/-- The copy takes place, whether or not it panics on the way. -/
theorem convert_copied : Spec (Fresh k) (convert a) (fun _ => Copied k) (fun _ => Copied k) := by
  refine spec_get_bind fun w h => ?_
  refine spec_bind (R := fun _ => Copied k) (spec_emit ?_) fun _ => ?_
  · rintro w rfl
    refine ⟨w.cap, h.config, h.barsCleared, fun wr hwr => ?_⟩
    exact List.mem_append_right _ (List.mem_map_of_mem hwr)
  · refine spec_bind (R := fun _ => Copied k) (spec_modifyCap fun _ h => h) fun _ => ?_
    refine spec_bind (R := fun _ => Copied k) ?_ fun _ => spec_modifyCap fun _ h => h
    exact spec_when (fun _ => spec_throw fun _ h => h) fun _ _ h => h

/-- Whether the conversion panics or not, the panel has been copied. -/
theorem copyPanel_copied (hread : a.read = .ok [0]) :
    Spec (Fresh k) (copyPanel a) (fun _ => Copied k) (fun _ => Copied k) := by
  unfold copyPanel pace
  refine spec_bind (fresh_modifyCap (fun _ => rfl) (fun _ => rfl) fun _ => rfl) fun _ => ?_
  refine spec_bind (fresh_modifyCap (fun _ => rfl) (fun _ => rfl) fun _ => rfl) fun _ => ?_
  exact spec_bind (readFramebuffer_fresh hread) fun _ => convert_copied

/-- The first call of `next` copies the panel, however it ends. -/
theorem nextLive_copied {libs : VendorLibs} {w : World} (hread : a.read = .ok [0])
    (hbars : w.cap.barsCleared = false) (hbuf : w.cap.fbBuf ≠ []) :
    Spec (· = w) (nextLive libs a) (fun _ => Copied w.cap.config)
      (fun _ => Copied w.cap.config) := by
  have hcopy := (copyPanel_copied (k := w.cap.config) hread).and
    (copyPanel_spec (k := w.cap) (t := w.trace) (a := a))
  refine spec_bind (hcopy.conseq ?_ (fun _ _ h => h) fun _ _ h => h.1) fun _ w' h => ?_
  · rintro _ rfl
    exact ⟨⟨rfl, hbars, hbuf⟩, at_self _⟩
  -- what follows the copy only adds to the trace
  · have hrest : Spec (· = w') (deliverFrame libs a) (fun _ => Copied w.cap.config)
        (fun _ => Copied w.cap.config) :=
      (@deliverFrame_spec w'.cap w'.trace libs a h.2.out_eq).conseq (fun _ hw => hw ▸ at_self w')
        (fun _ _ hq => h.1.append hq.2.trace) fun _ _ he => h.1.append he.trace
    exact hrest w' rfl

end Copy

/-- The answers of a call of `next` that reads one byte of the panel. -/
def oneByte : NextAnswers :=
  ⟨0, 0, 0, 0, .ok [0], 0, 0, 0, ⟨0, none, 0, none⟩, [], 0, 0⟩

/-- On the way to the last stage the buffers were allocated. -/
theorem alloc_mem_of_opens {y uv : UInt32} {st : Stage} {es : List Event} (h : Opens y uv st es)
    (hst : st = .buffers) : .vendor (.allocInputBuffer y uv 0) ∈ es := by
  induction h with
  | buffers h _ => exact List.mem_append_right _ (List.mem_singleton_self _)
  | quiet h hcall ih => exact List.mem_append_left _ (ih hst)
  | nil | memory _ _ _ | encoder _ _ | inited _ _ _ => cases hst

/-- What holds however the call ends holds of the session behind it. -/
theorem copied_ofNext {k : Capture} {w : World} {m : VendorM Frame}
    (h : Spec (· = w) m (fun _ => Copied k) (fun _ => Copied k)) :
    Copied k (Session.ofNext (m w)).world := by
  cases hrun : m w with
  | ok f w' => exact (h.of_ok rfl hrun).mono fun e he => List.mem_append_left _ he
  | error e w' =>
    cases e with
    | err text => exact (h.of_error rfl hrun).mono fun e he => List.mem_append_left _ he
    | panic => exact h.of_error rfl hrun

/-- Where a panel with a byte is opened, some run copies it: the session after its first call of
`next` has asked for the sizes and made the copy. -/
theorem exists_copied (haccepts : Accepts args geo) (hbytes : geo.pitch.toNat * geo.h.toNat ≠ 0) :
    ∃ s, run (Session.step fullLibs) (.start args) [.init (goodInit geo), .next oneByte] = some s ∧
      s.world.cap.config = (opened args geo 0).config ∧
      .vendor (.allocInputBuffer (sizeY args geo) (sizeC args geo) 0) ∈ s.world.trace ∧
      Copied (opened args geo 0).config s.world := by
  obtain ⟨w, hinit, hmid⟩ := step_goodInit haccepts
  obtain ⟨es, hes, htrace⟩ := hmid.trace
  have hcap : w.cap = opened args geo 0 := hmid.cap
  have hlive : w.cap.failed = none := by rw [hcap]; rfl
  have hbuf : w.cap.fbBuf ≠ [] := by
    rw [hcap]
    intro hnil
    exact hbytes ((laid_of_config rfl).length_fbBuf.symm.trans (congrArg List.length hnil))
  -- one byte of the panel is enough for the copy to take place
  have hcopied : Spec (· = w) (nextLive fullLibs oneByte) (fun _ => Copied w.cap.config)
      (fun _ => Copied w.cap.config) :=
    nextLive_copied rfl (by rw [hcap]; rfl) hbuf
  have hrun : run (Session.step fullLibs) (.start args) [.init (goodInit geo), .next oneByte] =
      some (.ofNext (nextLive fullLibs oneByte w)) := by
    refine run_cons_eq_some.mpr ⟨⟨.ready, w⟩, hinit, run_cons_eq_some.mpr ⟨_, ?_, rfl⟩⟩
    show (if Phase.ready = .ready then some (Session.ofNext (next fullLibs oneByte w))
      else none) = _
    rw [if_pos rfl, next_of_live hlive]
  have hsteps : Steps fullLibs ⟨.ready, w⟩ (.next oneByte)
      (.ofNext (nextLive fullLibs oneByte w)) :=
    steps_of_nextLive oneByte rfl hlive
  obtain ⟨hconfig, -, es', -, htrace'⟩ := config_and_trace_of_step hsteps nofun
  refine ⟨_, hrun, hconfig.trans (congrArg Capture.config hcap), ?_, ?_⟩
  · rw [htrace', htrace]
    exact List.mem_append_left _ (List.mem_append_right _ (alloc_mem_of_opens hes rfl))
  · have := copied_ofNext hcopied
    rwa [hcap] at this

/-- A buffer that is too small is overrun by the first frame. -/
theorem fits_of_safe (haccepts : Accepts args geo) (hsafe : Safe args geo) : Fits args geo := by
  by_cases hbytes : geo.pitch.toNat * geo.h.toNat = 0
  · exact Or.inl hbytes
  · obtain ⟨s, hrun, -, halloc, c, hc, hbars, hwrites⟩ := exists_copied haccepts hbytes
    have hbounds := hsafe fullLibs (goodInit geo) [.next oneByte] s rfl hrun
    refine (forall_within_iff (laid_of_config hc) haccepts hbytes hbars).mp fun wr hwr => ?_
    exact hbounds _ _ _ halloc wr (hwrites wr hwr)

/-- **The writes of every run stay inside the input buffer exactly where it fits.** -/
theorem safe_iff (haccepts : Accepts args geo) : Safe args geo ↔ Fits args geo :=
  ⟨fits_of_safe haccepts, safe_of_fits haccepts⟩

/-! ## The panel of the device -/

/-- The panel, and the arguments of a stream negotiated at a size. -/
def panel : FbGeometry := ⟨720, 480, 32, 2880⟩

def stream (dstW dstH : UInt32) : OpenArgs :=
  ⟨720, 480, dstW, dstH, 60, 8000000, .argb, false⟩

/-- The panel of the device passes every check. -/
theorem accepts_panel (dstW dstH : UInt32) : Accepts (stream dstW dstH) panel where
  depth := rfl
  size := rfl
  pitch := by
    unfold validateRgbPitch
    rw [if_neg fun h => h.2.2 rfl]
  capacity := by
    show 2880 * 480 < 2 ^ 63
    omega

/-- A stream of 1280 by 720 pixels. -/
theorem safe_iff_720p : Safe (stream 1280 720) panel :=
  (safe_iff (accepts_panel 1280 720)).mpr (by decide)

/-- A destination of 65536x1 wraps the size of the buffer to 256 MiB, and the clear of its bars is
56 GiB long. -/
theorem not_safe : ¬ ∀ args geo, Accepts args geo → Safe args geo := by
  intro hsafe
  have hfits := fits_of_safe (accepts_panel 65536 1) (hsafe _ _ (accepts_panel 65536 1))
  exact absurd hfits (by decide)

end RgspCast.InputBuffer
