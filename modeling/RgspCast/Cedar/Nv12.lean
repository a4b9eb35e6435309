import RgspCast.Cedar.Convert
import RgspCast.Lib.Stores
import RgspCast.Lib.Transition

/-!
# The image a conversion leaves

A conversion is run on two destination planes, one access after the other, and panics at the first
index out of range. `image` says what an NV12 image of a picture is, byte by byte and without a
loop. At even extents both converters leave exactly the image of their picture over the start of
the planes; at an odd extent neither runs to its end on planes of `w * h` and `w * h / 2` bytes.
-/

namespace RgspCast.Convert

open Nal Transition

/-! ## Running a conversion -/

/-- The destination planes. -/
structure Planes where
  y : Bytes
  uv : Bytes
  deriving DecidableEq, Repr

/-- The byte an access stores in the luma plane. -/
def Access.toY : Access → Option (ℕ × UInt8)
  | .storeY i v => some (i, v)
  | _ => none

/-- The byte an access stores in the chroma plane. -/
def Access.toUv : Access → Option (ℕ × UInt8)
  | .storeUv i v => some (i, v)
  | _ => none

namespace Planes

/-- What an access in range does to the planes. -/
def after (p : Planes) : Access → Planes
  | .storeY i v => { p with y := p.y.set i v }
  | .storeUv i v => { p with uv := p.uv.set i v }
  | _ => p

/-- One access, with a source of `srcLen` bytes; `none` is a panic. -/
def access (srcLen : ℕ) (p : Planes) (a : Access) : Option Planes :=
  if a.InRange ⟨srcLen, p.y.length, p.uv.length⟩ then some (p.after a) else none

/-- The planes with an image over their start. -/
def under (p img : Planes) : Planes where
  y := img.y ++ p.y.drop img.y.length
  uv := img.uv ++ p.uv.drop img.uv.length

/-- A store leaves the length of the luma plane. -/
@[simp] theorem length_after_y (p : Planes) (a : Access) :
    (p.after a).y.length = p.y.length := by
  cases a <;> simp [after]

/-- It leaves that of the chroma plane, too. -/
@[simp] theorem length_after_uv (p : Planes) (a : Access) :
    (p.after a).uv.length = p.uv.length := by
  cases a <;> simp [after]

/-- Accesses that are all in range run through, and what is left are their stores. -/
theorem run_access {srcLen : ℕ} {p : Planes} {as : List Access}
    (h : ∀ a ∈ as, a.InRange ⟨srcLen, p.y.length, p.uv.length⟩) :
    run (access srcLen) p as = some
      { y := Stores.setAll p.y (as.filterMap Access.toY)
        uv := Stores.setAll p.uv (as.filterMap Access.toUv) } := by
  induction as generalizing p with
  | nil => rfl
  | cons a as ih =>
    obtain ⟨ha, has⟩ := List.forall_mem_cons.mp h
    rw [run_cons, access, if_pos ha, Option.bind_some, ih (by simpa using has)]
    cases a <;> rfl

/-- A sequence of accesses runs through exactly where all of them are in range. -/
theorem isSome_run_access_iff {srcLen : ℕ} {p : Planes} {as : List Access} :
    (run (access srcLen) p as).isSome ↔
      ∀ a ∈ as, a.InRange ⟨srcLen, p.y.length, p.uv.length⟩ := by
  refine ⟨fun h => ?_, fun h => by rw [run_access h]; rfl⟩
  induction as generalizing p with
  | nil => exact List.forall_mem_nil _
  | cons a as ih =>
    rw [run_cons, access] at h
    split at h
    next ha =>
      have hrest := ih (p := p.after a) h
      rw [length_after_y, length_after_uv] at hrest
      exact List.forall_mem_cons.mpr ⟨ha, hrest⟩
    next => exact absurd h (by simp)

end Planes

/-! ## The image of a picture -/

/-- A picture: red, green and blue of the pixel at a row and a column. -/
abbrev Picture := ℕ × ℕ → ℤ × ℤ × ℤ

/-- The floored mean, channel by channel, of the four pixels of the 2x2 block in block row `k`,
block column `j`. -/
def blockColour (rgb : Picture) (k j : ℕ) : ℤ × ℤ × ℤ :=
  let mean (channel : ℤ × ℤ × ℤ → ℤ) : ℤ :=
    (channel (rgb (2 * k, 2 * j)) + channel (rgb (2 * k, 2 * j + 1)) +
      channel (rgb (2 * k + 1, 2 * j)) + channel (rgb (2 * k + 1, 2 * j + 1))) / 4
  (mean (·.1), mean (·.2.1), mean (·.2.2))

/-- Byte `i` of the luma plane. -/
def lumaAt (rgb : Picture) (w i : ℕ) : UInt8 := lumaOf (rgb (pixelAt w i))

/-- Byte `i` of the chroma plane, the U and V bytes of a block row alternating. -/
def chromaAt (rgb : Picture) (w i : ℕ) : UInt8 :=
  (if i % w % 2 = 0 then uOf else vOf) (blockColour rgb (i / w) (i % w / 2))

/-- The NV12 image of a picture of even extents. -/
def image (rgb : Picture) (w h : ℕ) : Planes where
  y := (List.range (w * h)).map (lumaAt rgb w)
  uv := (List.range (w * h / 2)).map (chromaAt rgb w)

/-- BT.601 limited range. -/
def Planes.Limited (p : Planes) : Prop :=
  (∀ v ∈ p.y, 16 ≤ v ∧ v ≤ 235) ∧ ∀ v ∈ p.uv, 16 ≤ v ∧ v ≤ 240

/-! ## Even extents -/

section Even

variable {f : PixelFormat} {w h : ℕ}

/-- A place of the plane is that of a pixel of the surface. -/
theorem pixelAt_lt {i : ℕ} (hi : i < w * h) : (pixelAt w i).1 < h ∧ (pixelAt w i).2 < w := by
  have hw : 0 < w := Nat.pos_of_mul_pos_right (Nat.zero_lt_of_lt hi)
  exact ⟨Nat.div_lt_of_lt_mul hi, Nat.mod_lt i hw⟩

/-- The position of a pixel in the row-major order. -/
theorem rowMajor_pixelAt (w i : ℕ) : (pixelAt w i).1 * w + (pixelAt w i).2 = i := by
  unfold pixelAt
  rw [Nat.mul_comm, Nat.div_add_mod]

/-- Every luma byte is stored to, with its value only. -/
theorem storeY_mem_nv12_iff {i : ℕ} {v : UInt8} :
    Access.storeY i v ∈ nv12 f w h ↔ i < w * h ∧ v = lumaAt f.rgb w i := by
  rw [storeY_mem_nv12]
  constructor
  · rintro ⟨y, hy, x, hx, rfl, rfl⟩
    refine ⟨rowMajor_lt hy hx, ?_⟩
    rw [lumaAt, pixelAt_mul_add hx]
  · rintro ⟨hi, rfl⟩
    obtain ⟨hy, hx⟩ := pixelAt_lt hi
    exact ⟨_, hy, _, hx, (rowMajor_pixelAt w i).symm, rfl⟩

/-- Inside an even picture nothing is replicated, and the shift of the source floors. -/
theorem blockMean_eq {k j : ℕ} (hy : 2 * k + 1 < h) (hx : 2 * j + 1 < w) :
    blockMean f w h (2 * k) (2 * j) = blockColour f.rgb k j := by
  simp only [blockMean, blockColour, if_pos hy, if_pos hx, Int.shiftRight_eq_div_pow]
  rfl

/-- Byte `r` of the chroma of a block. -/
theorem chromaAt_mul_add {rgb : Picture} {k j r : ℕ} (hx : 2 * j + r < w) (hr : r < 2) :
    chromaAt rgb w (k * w + (2 * j + r)) = (if r = 0 then uOf else vOf) (blockColour rgb k j) := by
  have hpixel : pixelAt w (k * w + (2 * j + r)) = (k, 2 * j + r) := pixelAt_mul_add hx
  obtain ⟨hdiv, hmod⟩ := Prod.mk.inj hpixel
  have hj : (2 * j + r) / 2 = j := by omega
  have hr2 : (2 * j + r) % 2 = r := by omega
  rw [chromaAt, hdiv, hmod, hj, hr2]

/-- Every chroma byte is stored to, with its value only. -/
theorem storeUv_mem_nv12_iff (hw : 2 ∣ w) (hh : 2 ∣ h) {i : ℕ} {v : UInt8} :
    Access.storeUv i v ∈ nv12 f w h ↔ i < w * (h / 2) ∧ v = chromaAt f.rgb w i := by
  have hrows : (h + 1) / 2 = h / 2 := by omega
  have hcols : (w + 1) / 2 = w / 2 := by omega
  rw [storeUv_mem_nv12, hrows, hcols]
  constructor
  -- from a block to the places of its two bytes
  · rintro ⟨k, hk, j, hj, ⟨rfl, rfl⟩ | ⟨rfl, rfl⟩⟩
    · refine ⟨rowMajor_lt hk (by omega), ?_⟩
      have hat := @chromaAt_mul_add w f.rgb k j 0 (by omega) (by omega)
      rw [blockMean_eq (by omega) (by omega)]
      exact hat.symm
    · rw [Nat.add_assoc]
      refine ⟨rowMajor_lt hk (by omega), ?_⟩
      have hat := @chromaAt_mul_add w f.rgb k j 1 (by omega) (by omega)
      rw [blockMean_eq (by omega) (by omega)]
      exact hat.symm
  -- from a place to its block: the column is even for U and odd for V
  · rintro ⟨hi, rfl⟩
    obtain ⟨hk, hx⟩ := pixelAt_lt hi
    have hi' := rowMajor_pixelAt w i
    revert hk hx hi'
    generalize (pixelAt w i).1 = k
    generalize (pixelAt w i).2 = x
    rintro hk hx rfl
    refine ⟨k, hk, x / 2, by omega, ?_⟩
    rw [blockMean_eq (by omega) (by omega)]
    rcases Nat.mod_two_eq_zero_or_one x with heven | hodd
    · obtain ⟨j, rfl⟩ : ∃ j, x = 2 * j + 0 := ⟨x / 2, by omega⟩
      rw [chromaAt_mul_add hx (by omega), if_pos rfl]
      exact Or.inl ⟨by omega, by congr; omega⟩
    · obtain ⟨j, rfl⟩ : ∃ j, x = 2 * j + 1 := ⟨x / 2, by omega⟩
      rw [chromaAt_mul_add hx (by omega), if_neg (by omega)]
      exact Or.inr ⟨by omega, by congr; omega⟩

/-- Half the pixels of an even picture, row by row. -/
theorem half_mul (hh : 2 ∣ h) (w : ℕ) : w * h / 2 = w * (h / 2) := Nat.mul_div_assoc w hh

/-- One byte of luma for a pixel. -/
theorem length_image_y (rgb : Picture) (w h : ℕ) : (image rgb w h).y.length = w * h := by
  simp [image]

/-- Two bytes of chroma for a block of four. -/
theorem length_image_uv (rgb : Picture) (w h : ℕ) : (image rgb w h).uv.length = w * h / 2 := by
  simp [image]

/-- The stores into the luma plane. -/
theorem toY_eq_some_iff {a : Access} {wr : ℕ × UInt8} :
    a.toY = some wr ↔ a = .storeY wr.1 wr.2 := by
  cases a <;> simp [Access.toY, Prod.ext_iff]

/-- The stores into the chroma plane. -/
theorem toUv_eq_some_iff {a : Access} {wr : ℕ × UInt8} :
    a.toUv = some wr ↔ a = .storeUv wr.1 wr.2 := by
  cases a <;> simp [Access.toUv, Prod.ext_iff]

/-- The luma stores of a list of accesses. -/
theorem mem_toY {as : List Access} {wr : ℕ × UInt8} :
    wr ∈ as.filterMap Access.toY ↔ Access.storeY wr.1 wr.2 ∈ as := by
  simp only [List.mem_filterMap, toY_eq_some_iff, exists_eq_right]

/-- And the chroma stores. -/
theorem mem_toUv {as : List Access} {wr : ℕ × UInt8} :
    wr ∈ as.filterMap Access.toUv ↔ Access.storeUv wr.1 wr.2 ∈ as := by
  simp only [List.mem_filterMap, toUv_eq_some_iff, exists_eq_right]

/-- **A conversion of even extents leaves the image of its picture** over the start of the planes,
and the rest of the planes as it was. -/
theorem run_nv12 {srcLen : ℕ} {p : Planes}
    (hrows : RowsIn f h ⟨srcLen, p.y.length, p.uv.length⟩)
    (hpix : ∀ y < h, ∀ x < w, PixelIn f ⟨srcLen, p.y.length, p.uv.length⟩ (y, x))
    (hw : 2 ∣ w) (hh : 2 ∣ h) (hy : w * h ≤ p.y.length) (huv : w * h / 2 ≤ p.uv.length) :
    run (Planes.access srcLen) p (nv12 f w h) = some (p.under (image f.rgb w h)) := by
  have huv' : w * (h / 2) ≤ p.uv.length := half_mul hh w ▸ huv
  have hall := forall_nv12 hrows hpix hw hh (Nat.mul_comm w h ▸ hy) (Nat.mul_comm w _ ▸ huv')
  rw [Planes.run_access hall, Planes.under, length_image_y, length_image_uv, half_mul hh]
  refine congrArg some (congrArg₂ Planes.mk ?_ ?_)
  · refine Stores.setAll_eq_append hy (fun wr hwr => storeY_mem_nv12_iff.mp (mem_toY.mp hwr)) ?_
    exact fun i hi => ⟨(i, lumaAt f.rgb w i), mem_toY.mpr (storeY_mem_nv12_iff.mpr ⟨hi, rfl⟩), rfl⟩
  · simp only [image, half_mul hh]
    refine Stores.setAll_eq_append huv'
      (fun wr hwr => (storeUv_mem_nv12_iff hw hh).mp (mem_toUv.mp hwr)) ?_
    exact fun i hi => ⟨(i, chromaAt f.rgb w i),
      mem_toUv.mpr ((storeUv_mem_nv12_iff hw hh).mpr ⟨hi, rfl⟩), rfl⟩

/-- The last chroma byte of a conversion. -/
theorem storeUv_last_mem (hw : 1 ≤ w) (hh : 1 ≤ h) :
    ∃ v, Access.storeUv ((h - 1) / 2 * w + 2 * ((w - 1) / 2) + 1) v ∈ nv12 f w h :=
  ⟨_, storeUv_mem_nv12.mpr ⟨(h - 1) / 2, by omega, (w - 1) / 2, by omega, Or.inr ⟨rfl, rfl⟩⟩⟩

/-- **On planes of exactly `w * h` and `w * h / 2` bytes a conversion runs to its end at even
extents only**: elsewhere its last chroma byte is past the end of the plane. -/
theorem forall_nv12_iff {n : Lengths} (hrows : RowsIn f h n)
    (hpix : ∀ y < h, ∀ x < w, PixelIn f n (y, x)) (hw : 1 ≤ w) (hh : 1 ≤ h) (hy : n.y = w * h)
    (huv : n.uv = w * h / 2) : (∀ a ∈ nv12 f w h, a.InRange n) ↔ 2 ∣ w ∧ 2 ∣ h := by
  constructor
  · intro hall
    obtain ⟨v, hlast⟩ := storeUv_last_mem (f := f) hw hh
    have hin : (h - 1) / 2 * w + 2 * ((w - 1) / 2) + 1 < n.uv := hall _ hlast
    -- the plane in block rows, a last single row being half of one
    obtain ⟨k, hk⟩ : ∃ k, (h - 1) / 2 = k := ⟨_, rfl⟩
    have hplane : w * h = 2 * (k * w) + (h - 2 * k) * w := by
      rw [← Nat.mul_assoc, ← Nat.add_mul, Nat.mul_comm w]
      congr 1
      omega
    rw [huv, hk, hplane] at hin
    have hrows : h - 2 * k = 1 ∨ h - 2 * k = 2 := by omega
    rcases hrows with hrow | hrow
    · rw [hrow] at hin
      omega
    · rw [hrow] at hin
      omega
  · rintro ⟨hw2, hh2⟩
    refine forall_nv12 hrows hpix hw2 hh2 (by rw [hy, Nat.mul_comm]) ?_
    rw [huv, half_mul hh2, Nat.mul_comm]

/-- An image is made of the pixels inside it only. -/
theorem image_congr {rgb rgb' : Picture} (hw : 2 ∣ w) (hh : 2 ∣ h)
    (heq : ∀ y < h, ∀ x < w, rgb (y, x) = rgb' (y, x)) : image rgb w h = image rgb' w h := by
  unfold image
  refine congrArg₂ Planes.mk (List.map_congr_left fun i hi => ?_)
    (List.map_congr_left fun i hi => ?_)
  · obtain ⟨hy, hx⟩ := pixelAt_lt (List.mem_range.mp hi)
    exact congrArg lumaOf (heq _ hy _ hx)
  · rw [List.mem_range, half_mul hh] at hi
    obtain ⟨hk, hx⟩ := pixelAt_lt hi
    have hblock : blockColour rgb (i / w) (i % w / 2) = blockColour rgb' (i / w) (i % w / 2) := by
      have hk2 : 2 * (i / w) + 1 < h := by
        have : i / w < h / 2 := hk
        omega
      have hj2 : 2 * (i % w / 2) + 1 < w := by
        have : i % w < w := hx
        omega
      unfold blockColour
      rw [heq _ (by omega) _ (by omega), heq _ (by omega) _ hj2, heq _ hk2 _ (by omega),
        heq _ hk2 _ hj2]
    simp only [chromaAt, hblock]

end Even

/-! ## Limited range -/

/-- A channel value of a byte. -/
def IsByte (v : ℤ) : Prop := 0 ≤ v ∧ v ≤ 255

/-- Every channel of a colour is a byte. -/
def InBytes (c : ℤ × ℤ × ℤ) : Prop := IsByte c.1 ∧ IsByte c.2.1 ∧ IsByte c.2.2

/-- A channel value survives as a byte. -/
theorem toNat_ofNat_of_isByte {v : ℤ} (h : IsByte v) : ((UInt8.ofNat v.toNat).toNat : ℤ) = v := by
  obtain ⟨h0, h255⟩ := h
  rw [UInt8.toNat_ofNat_of_lt' (show v.toNat < 256 by omega), Int.toNat_of_nonneg h0]

/-- A value inside the byte range is not clamped. -/
theorem toNat_clamp8 {v : ℤ} (h : IsByte v) : ((clamp8 v).toNat : ℤ) = v := by
  unfold clamp8
  rw [if_neg (Int.not_lt.mpr h.1), if_neg (Int.not_lt.mpr h.2), toNat_ofNat_of_isByte h]

/-- A weighted sum, scaled down and shifted by an offset, lies between two bytes where the sum lies
between the two scaled up. -/
theorem clamp8_mem {sum offset : ℤ} {lo hi : UInt8}
    (h : (lo.toNat - offset) * 256 ≤ sum ∧ sum < (hi.toNat - offset + 1) * 256) :
    lo ≤ clamp8 ((sum >>> (8 : ℕ)) + offset) ∧ clamp8 ((sum >>> (8 : ℕ)) + offset) ≤ hi := by
  have hshift : sum >>> (8 : ℕ) = sum / 256 := Int.shiftRight_eq_div_pow sum 8
  have hhi := hi.toNat_lt
  rw [hshift]
  have hv := @toNat_clamp8 (sum / 256 + offset) ⟨by omega, by omega⟩
  rw [UInt8.le_iff_toNat_le, UInt8.le_iff_toNat_le]
  omega

/-- Luma is in the limited range. -/
theorem lumaOf_limited {c : ℤ × ℤ × ℤ} (h : InBytes c) : 16 ≤ lumaOf c ∧ lumaOf c ≤ 235 := by
  obtain ⟨⟨hr, hr'⟩, ⟨hg, hg'⟩, hb, hb'⟩ := h
  refine clamp8_mem ?_
  show ((16 : ℤ) - 16) * 256 ≤ _ ∧ _ < ((235 : ℤ) - 16 + 1) * 256
  omega

/-- So is the first chroma byte. -/
theorem uOf_limited {c : ℤ × ℤ × ℤ} (h : InBytes c) : 16 ≤ uOf c ∧ uOf c ≤ 240 := by
  obtain ⟨⟨hr, hr'⟩, ⟨hg, hg'⟩, hb, hb'⟩ := h
  refine clamp8_mem ?_
  show ((16 : ℤ) - 128) * 256 ≤ _ ∧ _ < ((240 : ℤ) - 128 + 1) * 256
  omega

/-- And the second. -/
theorem vOf_limited {c : ℤ × ℤ × ℤ} (h : InBytes c) : 16 ≤ vOf c ∧ vOf c ≤ 240 := by
  obtain ⟨⟨hr, hr'⟩, ⟨hg, hg'⟩, hb, hb'⟩ := h
  refine clamp8_mem ?_
  show ((16 : ℤ) - 128) * 256 ≤ _ ∧ _ < ((240 : ℤ) - 128 + 1) * 256
  omega

/-- The mean of four bytes is a byte. -/
theorem inBytes_blockColour {rgb : Picture} (h : ∀ q, InBytes (rgb q)) (k j : ℕ) :
    InBytes (blockColour rgb k j) := by
  have ha := h (2 * k, 2 * j)
  have hb := h (2 * k, 2 * j + 1)
  have hc := h (2 * k + 1, 2 * j)
  have hd := h (2 * k + 1, 2 * j + 1)
  simp only [InBytes, IsByte] at ha hb hc hd
  simp only [InBytes, IsByte, blockColour]
  omega

/-- **The image of a picture of bytes is limited range.** -/
theorem limited_image {rgb : Picture} (h : ∀ q, InBytes (rgb q)) (w k : ℕ) :
    (image rgb w k).Limited := by
  constructor
  · intro v hv
    obtain ⟨i, -, rfl⟩ := List.mem_map.mp hv
    exact lumaOf_limited (h _)
  · intro v hv
    obtain ⟨i, -, rfl⟩ := List.mem_map.mp hv
    simp only [chromaAt]
    split
    · exact uOf_limited (inBytes_blockColour h _ _)
    · exact vOf_limited (inBytes_blockColour h _ _)

/-! ## The two converters -/

/-- The planes `bgra_to_nv12` leaves; `none` where it panics. -/
def convertBgra (src : Bytes) (pitch w h : ℕ) (p : Planes) : Option Planes :=
  run (Planes.access src.length) p (bgraToNv12 src pitch w h)

/-- The planes `rgb565_to_nv12` leaves; `none` where it panics. -/
def convertRgb565 (src : Bytes) (pitch w h : ℕ) (p : Planes) : Option Planes :=
  run (Planes.access src.length) p (rgb565ToNv12 src pitch w h)

/-- Two sources of one length that differ in the padding of their rows at most, the pixels of a
row taking `row` bytes of the pitch. -/
def SameRows (row pitch : ℕ) (src src' : Bytes) : Prop :=
  src.length = src'.length ∧ ∀ i, i % pitch < row → src.getD i 0 = src'.getD i 0

/-- A 16-bit pixel as a 32-bit one, each channel shifted to the top of its byte: byte by byte. -/
def expandByte (p : UInt16) : ℕ → UInt8
  | 0 => UInt8.ofNat (b565 p).toNat
  | 1 => UInt8.ofNat (g565 p).toNat
  | 2 => UInt8.ofNat (r565 p).toNat
  | _ => 0xff

/-- The 32-bit picture, without padding, of a 16-bit one. -/
def expand565 (src : Bytes) (pitch w h : ℕ) : Bytes :=
  (List.range (4 * w * h)).map fun i => expandByte (px src pitch (pixelAt w (i / 4))) (i % 4)

section Sources

variable {src src' : Bytes} {pitch w h : ℕ} {n : Lengths}

/-- A byte of a row is in the source. -/
theorem byte_lt {y i : ℕ} (hn : n.src = pitch * h) (hy : y < h) (hi : i < pitch) :
    y * pitch + i < n.src := by
  rw [hn]
  exact rowMajor_lt hy hi

/-- Every pixel lies in a copy with rows of at least four bytes for a pixel. -/
theorem pixelIn_bgra (hn : n.src = pitch * h) (hpitch : 4 * w ≤ pitch) :
    ∀ y < h, ∀ x < w, PixelIn (bgra src pitch) n (y, x) := by
  intro y hy x hx i hi
  simp only [bgra, List.mem_flatMap, List.map_cons, List.map_nil, List.mem_singleton] at hi
  obtain ⟨c, hc, rfl⟩ := hi
  have hc3 : c < 3 := by
    simp only [List.mem_cons, List.not_mem_nil, or_false] at hc
    omega
  rw [Nat.add_assoc]
  exact byte_lt hn hy (by omega)

/-- In 16 bits, two bytes for a pixel are enough. -/
theorem pixelIn_rgb565 (hn : n.src = pitch * h) (hpitch : 2 * w ≤ pitch) :
    ∀ y < h, ∀ x < w, PixelIn (rgb565 src pitch) n (y, x) := by
  intro y hy x hx i hi
  simp only [rgb565, List.flatMap_cons, List.flatMap_nil, List.append_nil, List.mem_cons,
    List.not_mem_nil, or_false] at hi
  rcases hi with rfl | rfl
  · exact byte_lt hn hy (by omega)
  · rw [Nat.add_assoc]
    exact byte_lt hn hy (by omega)

/-- The components of a pixel are bytes. -/
theorem inBytes_bgra (q : ℕ × ℕ) : InBytes ((bgra src pitch).rgb q) := by
  have hbyte (v : UInt8) : IsByte v.toNat := by
    have := v.toNat_lt
    exact ⟨by omega, by omega⟩
  exact ⟨hbyte _, hbyte _, hbyte _⟩

/-- A masked field shifted to the top of its byte stays in the byte. -/
theorem isByte_field {p m s : UInt16} (hm : m.toNat <<< (s.toNat % 16) ≤ 255) :
    IsByte ((p &&& m) <<< s).toNat := by
  have hle : (p.toNat &&& m.toNat) <<< (s.toNat % 16) ≤ 255 := by
    rw [Nat.shiftLeft_eq] at hm ⊢
    exact (Nat.mul_le_mul_right _ Nat.and_le_right).trans hm
  have hlt : (p.toNat &&& m.toNat) <<< (s.toNat % 16) < 2 ^ 16 := Nat.lt_of_le_of_lt hle (by decide)
  rw [UInt16.toNat_shiftLeft, UInt16.toNat_and, Nat.mod_eq_of_lt hlt]
  exact ⟨Int.natCast_nonneg _, Int.ofNat_le.mpr hle⟩

/-- Those that are scaled up from 5 and 6 bits are, too. -/
theorem inBytes_rgb565 (q : ℕ × ℕ) : InBytes ((rgb565 src pitch).rgb q) :=
  ⟨isByte_field (by decide), isByte_field (by decide), isByte_field (by decide)⟩

/-- What is read of a pixel of a row is not padding. -/
theorem mod_pitch {y i : ℕ} (hi : i < pitch) : (y * pitch + i) % pitch = i := by
  rw [Nat.mul_comm, Nat.mul_add_mod, Nat.mod_eq_of_lt hi]

/-- The padding behind a row does not show. -/
theorem rgb_bgra_congr (h : SameRows (4 * w) pitch src src') (hpitch : 4 * w ≤ pitch) {y x : ℕ}
    (hx : x < w) : (bgra src pitch).rgb (y, x) = (bgra src' pitch).rgb (y, x) := by
  have hbyte {c : ℕ} (hc : c < 4) :
      bgraChannel src pitch c (y, x) = bgraChannel src' pitch c (y, x) := by
    unfold bgraChannel
    rw [Nat.add_assoc, h.2 _ (by rw [mod_pitch (by omega)]; omega)]
  simp only [bgra]
  rw [hbyte (by omega), hbyte (by omega), hbyte (by omega)]

/-- Nor does it in the word of a 16-bit pixel. -/
theorem px_congr (h : SameRows (2 * w) pitch src src') (hpitch : 2 * w ≤ pitch) {y x : ℕ}
    (hx : x < w) : px src pitch (y, x) = px src' pitch (y, x) := by
  simp only [px]
  rw [Nat.add_assoc, h.2 _ (by rw [mod_pitch (by omega)]; omega),
    h.2 _ (by rw [mod_pitch (by omega)]; omega)]

/-- So the picture of a 16-bit source is the same, whatever the padding. -/
theorem rgb_rgb565_congr (h : SameRows (2 * w) pitch src src') (hpitch : 2 * w ≤ pitch) {y x : ℕ}
    (hx : x < w) : (rgb565 src pitch).rgb (y, x) = (rgb565 src' pitch).rgb (y, x) := by
  simp only [rgb565]
  rw [px_congr h hpitch hx]

/-- A byte of the expanded picture. -/
theorem getD_expand565 {y x c : ℕ} (hy : y < h) (hx : x < w) (hc : c < 4) :
    (expand565 src pitch w h).getD (y * (4 * w) + x * 4 + c) 0 =
      expandByte (px src pitch (y, x)) c := by
  have hrow : y * (4 * w) = 4 * (y * w) := Nat.mul_left_comm y 4 w
  have hlt := rowMajor_lt hy hx
  have hi : y * (4 * w) + x * 4 + c < 4 * w * h := by
    rw [hrow, Nat.mul_assoc]
    omega
  have hdiv : (y * (4 * w) + x * 4 + c) / 4 = y * w + x := by omega
  have hmod : (y * (4 * w) + x * 4 + c) % 4 = c := by omega
  rw [List.getD_eq_getElem?_getD, expand565, List.getElem?_map, List.getElem?_range hi]
  simp only [Option.map_some, Option.getD_some, hdiv, hmod, pixelAt_mul_add hx]

/-- The expanded picture is the picture. -/
theorem rgb_expand565 {y x : ℕ} (hy : y < h) (hx : x < w) :
    (bgra (expand565 src pitch w h) (4 * w)).rgb (y, x) = (rgb565 src pitch).rgb (y, x) := by
  obtain ⟨hr, hg, hb⟩ := @inBytes_rgb565 src pitch (y, x)
  simp only [bgra, bgraChannel]
  rw [getD_expand565 hy hx (by omega), getD_expand565 hy hx (by omega),
    getD_expand565 hy hx (by omega)]
  exact Prod.ext (toNat_ofNat_of_isByte hr)
    (Prod.ext (toNat_ofNat_of_isByte hg) (toNat_ofNat_of_isByte hb))

/-- **The converters are correct and agree.** On even extents each leaves the image of its picture,
whatever the padding of the source's rows, and the image is limited range; the 16-bit converter
leaves what the 32-bit one makes of the expanded picture. -/
theorem converters_exact {p : Planes} (hw : 2 ∣ w) (hh : 2 ∣ h) (hsrc : src.length = pitch * h)
    (hy : w * h ≤ p.y.length) (huv : w * h / 2 ≤ p.uv.length) :
    (4 * w ≤ pitch →
      convertBgra src pitch w h p = some (p.under (image (bgra src pitch).rgb w h)) ∧
      (image (bgra src pitch).rgb w h).Limited ∧
      ∀ src', SameRows (4 * w) pitch src src' →
        convertBgra src' pitch w h p = convertBgra src pitch w h p) ∧
    (2 * w ≤ pitch →
      convertRgb565 src pitch w h p = some (p.under (image (rgb565 src pitch).rgb w h)) ∧
      (image (rgb565 src pitch).rgb w h).Limited ∧
      (∀ src', SameRows (2 * w) pitch src src' →
        convertRgb565 src' pitch w h p = convertRgb565 src pitch w h p) ∧
      convertBgra (expand565 src pitch w h) (4 * w) w h p = convertRgb565 src pitch w h p) := by
  -- for even extents nothing is out of bounds, so each converter is its picture
  have hbgra {s : Bytes} {r : ℕ} (hs : s.length = r * h) (hr : 4 * w ≤ r) :
      convertBgra s r w h p = some (p.under (image (bgra s r).rgb w h)) :=
    run_nv12 (rowsIn_bgra hs) (pixelIn_bgra hs hr) hw hh hy huv
  have h565 {s : Bytes} (hs : s.length = pitch * h) (hr : 2 * w ≤ pitch) :
      convertRgb565 s pitch w h p = some (p.under (image (rgb565 s pitch).rgb w h)) :=
    run_nv12 rowsIn_rgb565 (pixelIn_rgb565 hs hr) hw hh hy huv
  constructor
  · intro hpitch
    refine ⟨hbgra hsrc hpitch, limited_image inBytes_bgra w h, fun src' hsame => ?_⟩
    rw [hbgra hsrc hpitch, hbgra (hsame.1 ▸ hsrc) hpitch,
      image_congr hw hh fun y _ x hx => rgb_bgra_congr hsame hpitch hx]
  · intro hpitch
    refine ⟨h565 hsrc hpitch, limited_image inBytes_rgb565 w h, fun src' hsame => ?_, ?_⟩
    · rw [h565 hsrc hpitch, h565 (hsame.1 ▸ hsrc) hpitch,
        image_congr hw hh fun y _ x hx => rgb_rgb565_congr hsame hpitch hx]
    -- the 16-bit converter is the other one behind the expansion
    · have hlen : (expand565 src pitch w h).length = 4 * w * h := by simp [expand565]
      rw [hbgra hlen (Nat.le_refl _), h565 hsrc hpitch,
        image_congr hw hh fun y hy x hx => rgb_expand565 hy hx]

/-- A flat picture with a pixel of padding a row, in planes with a byte to spare. -/
theorem converters_exact_padded :
    convertBgra (List.replicate 24 0xff) 12 2 2 ⟨List.replicate 5 0, List.replicate 3 0⟩ =
      some ⟨[235, 235, 235, 235, 0], [128, 128, 0]⟩ ∧
    convertRgb565 (List.replicate 12 0) 6 2 2 ⟨List.replicate 5 0, List.replicate 3 0⟩ =
      some ⟨[16, 16, 16, 16, 0], [128, 128, 0]⟩ := by
  have hwhite := (@converters_exact (List.replicate 24 0xff) 12 2 2
    ⟨List.replicate 5 0, List.replicate 3 0⟩ (by decide) (by decide) (by decide) (by decide)
    (by decide)).1 (by decide)
  have hblack := (@converters_exact (List.replicate 12 0) 6 2 2
    ⟨List.replicate 5 0, List.replicate 3 0⟩ (by decide) (by decide) (by decide) (by decide)
    (by decide)).2 (by decide)
  exact ⟨hwhite.1.trans (by decide), hblack.1.trans (by decide)⟩

/-- **The converters run to their end at even extents only**, on planes of the lengths they are
given without padding: the chroma plane of an odd extent has no room for the last column or row
that they replicate. -/
theorem converters_complete_iff {p : Planes} (hw : 1 ≤ w) (hh : 1 ≤ h)
    (hsrc : src.length = pitch * h) (hy : p.y.length = w * h) (huv : p.uv.length = w * h / 2) :
    (4 * w ≤ pitch → ((convertBgra src pitch w h p).isSome ↔ 2 ∣ w ∧ 2 ∣ h)) ∧
    (2 * w ≤ pitch → ((convertRgb565 src pitch w h p).isSome ↔ 2 ∣ w ∧ 2 ∣ h)) := by
  constructor
  · intro hpitch
    exact Planes.isSome_run_access_iff.trans
      (forall_nv12_iff (rowsIn_bgra hsrc) (pixelIn_bgra hsrc hpitch) hw hh hy huv)
  · intro hpitch
    exact Planes.isSome_run_access_iff.trans
      (forall_nv12_iff rowsIn_rgb565 (pixelIn_rgb565 hsrc hpitch) hw hh hy huv)

/-- A surface of 2 by 2 is converted, and one of 3 by 1 runs out of its plane. -/
theorem converters_complete_iff_even :
    (convertBgra (List.replicate 16 0) 8 2 2 ⟨[0, 0, 0, 0], [0, 0]⟩).isSome ∧
      ¬ (convertRgb565 (List.replicate 6 0) 6 3 1 ⟨[0, 0, 0], [0]⟩).isSome :=
  ⟨((@converters_complete_iff (List.replicate 16 0) 8 2 2 ⟨[0, 0, 0, 0], [0, 0]⟩ (by decide)
      (by decide) (by decide) (by decide) (by decide)).1 (by decide)).mpr (by decide),
    fun h => absurd (((@converters_complete_iff (List.replicate 6 0) 6 3 1 ⟨[0, 0, 0], [0]⟩
      (by decide) (by decide) (by decide) (by decide) (by decide)).2 (by decide)).mp h) (by decide)⟩

/-- A picture of three columns and two rows: the byte pair of the last column's chroma does not fit
the three bytes of the plane. -/
theorem not_converters_complete :
    ¬ ∀ (src : Bytes) (pitch w h : ℕ) (p : Planes), 1 ≤ w → 1 ≤ h → 4 * w ≤ pitch →
      src.length = pitch * h → p.y.length = w * h → p.uv.length = w * h / 2 →
      (convertBgra src pitch w h p).isSome ∧ (convertRgb565 src pitch w h p).isSome := by
  intro hall
  have hpanic :
      convertBgra (List.replicate 24 0) 12 3 2 ⟨List.replicate 6 0, [0, 0, 0]⟩ = none := by decide
  have hdone := (hall (List.replicate 24 0) 12 3 2 ⟨List.replicate 6 0, [0, 0, 0]⟩ (by decide)
    (by decide) (by decide) (by decide) (by decide) (by decide)).1
  rw [hpanic] at hdone
  exact absurd hdone (by decide)

end Sources

end RgspCast.Convert
