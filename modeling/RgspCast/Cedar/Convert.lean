import RgspCast.Lib.Checked
import RgspCast.Lib.NalFraming
import Mathlib.Algebra.Group.Int.Defs

/-!
# CPU colour conversion

`bgra_to_nv12` and `rgb565_to_nv12` as the sequence of slice accesses they make: a slice index out
of range panics, so what is written is the stores before the first such access. The two functions
differ in how a pixel is read only, so both are `nv12` at a `PixelFormat`.
-/

namespace RgspCast.Convert

open Nal Checked

/-! ## The pixel arithmetic -/

def clamp8 (v : ℤ) : UInt8 := if v < 0 then 0 else if v > 255 then 255 else UInt8.ofNat v.toNat

/-- BT.601 limited range. -/
def rgbY (r g b : ℤ) : UInt8 := clamp8 (((66 * r + 129 * g + 25 * b + 128) >>> (8 : ℕ)) + 16)

def rgbU (r g b : ℤ) : UInt8 := clamp8 (((-38 * r - 74 * g + 112 * b + 128) >>> (8 : ℕ)) + 128)

def rgbV (r g b : ℤ) : UInt8 := clamp8 (((112 * r - 94 * g - 18 * b + 128) >>> (8 : ℕ)) + 128)

def r565 (p : UInt16) : ℤ := (((p >>> 11) &&& 0x1f) <<< 3).toNat

def g565 (p : UInt16) : ℤ := (((p >>> 5) &&& 0x3f) <<< 2).toNat

def b565 (p : UInt16) : ℤ := ((p &&& 0x1f) <<< 3).toNat

/-! ## Slice accesses -/

/-- One access to the source or to a destination plane: the start of a subslice, a byte read or a
byte stored, at its index in the whole slice. No index expression reaches 2⁶⁴ here, since rows and
columns are `u32` values of a buffer that exists. -/
inductive Access where
  | sliceSrc (i : ℕ)
  | readSrc (i : ℕ)
  | sliceY (i : ℕ)
  | sliceUv (i : ℕ)
  | storeY (i : ℕ) (v : UInt8)
  | storeUv (i : ℕ) (v : UInt8)
  deriving DecidableEq, Repr

/-- The lengths of the source and of the two destination slices. -/
structure Lengths where
  src : ℕ
  y : ℕ
  uv : ℕ

/-- The access does not panic. -/
def Access.InRange (n : Lengths) : Access → Prop
  | .sliceSrc i => i ≤ n.src
  | .readSrc i => i < n.src
  | .sliceY i => i ≤ n.y
  | .sliceUv i => i ≤ n.uv
  | .storeY i _ => i < n.y
  | .storeUv i _ => i < n.uv

instance decidableInRange (n : Lengths) : DecidablePred (Access.InRange n)
  | .sliceSrc i => inferInstanceAs (Decidable (i ≤ n.src))
  | .readSrc i => inferInstanceAs (Decidable (i < n.src))
  | .sliceY i => inferInstanceAs (Decidable (i ≤ n.y))
  | .sliceUv i => inferInstanceAs (Decidable (i ≤ n.uv))
  | .storeY i _ => inferInstanceAs (Decidable (i < n.y))
  | .storeUv i _ => inferInstanceAs (Decidable (i < n.uv))

/-! ## The converters -/

/-- How a converter gets at its pixels, a pixel being a row and a column. -/
structure PixelFormat where
  /-- The row slices taken before the pixels of these rows are read. -/
  slices : List ℕ → List ℕ
  /-- The source bytes read for some pixels, in order. -/
  reads : List (ℕ × ℕ) → List ℕ
  /-- What is read for some pixels is what is read for each of them. -/
  mem_reads : ∀ ps i, i ∈ reads ps ↔ ∃ p ∈ ps, i ∈ reads [p]
  /-- Red, green and blue of a pixel. -/
  rgb : ℕ × ℕ → ℤ × ℤ × ℤ

section Converters

variable (f : PixelFormat) (w h : ℕ)

/-- The body of the inner luma loop. -/
def lumaPixel (y x : ℕ) : List Access :=
  let (r, g, b) := f.rgb (y, x)
  (f.reads [(y, x)]).map .readSrc ++ [.storeY (y * w + x) (rgbY r g b)]

/-- The body of the outer luma loop. -/
def lumaRow (y : ℕ) : List Access :=
  ((f.slices [y]).map .sliceSrc ++ [.sliceY (y * w)]) ++
    (List.range w).flatMap (lumaPixel f w y)

/-- The body of the inner chroma loop: the 2x2 block at row `y`, column `x`, whose last column and
row are replicated at the edge. -/
def chromaBlock (y x : ℕ) : List Access :=
  let x1 := if x + 1 < w then x + 1 else x
  let y1 := if y + 1 < h then y + 1 else y
  let (ra, ga, ba) := f.rgb (y, x)
  let (rb, gb, bb) := f.rgb (y, x1)
  let (rc, gc, bc) := f.rgb (y1, x)
  let (rd, gd, bd) := f.rgb (y1, x1)
  let r := (ra + rb + rc + rd) >>> (2 : ℕ)
  let g := (ga + gb + gc + gd) >>> (2 : ℕ)
  let b := (ba + bb + bc + bd) >>> (2 : ℕ)
  (f.reads [(y, x), (y, x1), (y1, x), (y1, x1)]).map .readSrc ++
    [.storeUv (y / 2 * w + x) (rgbU r g b), .storeUv (y / 2 * w + x + 1) (rgbV r g b)]

/-- The body of the outer chroma loop; its inner loop visits the even columns. -/
def chromaRow (y : ℕ) : List Access :=
  let y1 := if y + 1 < h then y + 1 else y
  ((f.slices [y, y1]).map .sliceSrc ++ [.sliceUv (y / 2 * w)]) ++
    (List.range ((w + 1) / 2)).flatMap fun m => chromaBlock f w h y (2 * m)

/-- A conversion to NV12: the luma rows, then the chroma of every other row. -/
def nv12 : List Access :=
  (List.range h).flatMap (lumaRow f w) ++
    (List.range ((h + 1) / 2)).flatMap fun k => chromaRow f w h (2 * k)

end Converters

/-- The channel of a 32-bit pixel at byte `c` of it. -/
def bgraChannel (src : Bytes) (pitch c : ℕ) (p : ℕ × ℕ) : ℤ :=
  (src.getD (p.1 * pitch + p.2 * 4 + c) 0).toNat

/-- 32-bit pixels in the byte order blue, green, red; read channel by channel. -/
def bgra (src : Bytes) (pitch : ℕ) : PixelFormat where
  slices ys := ys.map (· * pitch)
  reads ps := [0, 1, 2].flatMap fun c => ps.map fun p => p.1 * pitch + p.2 * 4 + c
  mem_reads ps i := by
    simp only [List.mem_flatMap, List.mem_map, List.mem_singleton, exists_eq_left]
    exact ⟨fun ⟨c, hc, p, hp, hi⟩ => ⟨p, hp, c, hc, hi⟩,
      fun ⟨p, hp, c, hc, hi⟩ => ⟨c, hc, p, hp, hi⟩⟩
  rgb p := (bgraChannel src pitch 2 p, bgraChannel src pitch 1 p, bgraChannel src pitch 0 p)

/-- The 16-bit pixel at a row and a column, in the little-endian order of the target. -/
def px (src : Bytes) (pitch : ℕ) (p : ℕ × ℕ) : UInt16 :=
  let off := p.1 * pitch + p.2 * 2
  (src.getD off 0).toUInt16 ||| (src.getD (off + 1) 0).toUInt16 <<< 8

/-- 16-bit pixels; read pixel by pixel. -/
def rgb565 (src : Bytes) (pitch : ℕ) : PixelFormat where
  slices _ := []
  reads ps := ps.flatMap fun p => [p.1 * pitch + p.2 * 2, p.1 * pitch + p.2 * 2 + 1]
  mem_reads ps i := by
    simp only [List.mem_flatMap, List.mem_singleton, exists_eq_left]
  rgb p := (r565 (px src pitch p), g565 (px src pitch p), b565 (px src pitch p))

/-- `bgra_to_nv12`. -/
def bgraToNv12 (src : Bytes) (pitch w h : ℕ) : List Access := nv12 (bgra src pitch) w h

/-- `rgb565_to_nv12`. -/
def rgb565ToNv12 (src : Bytes) (pitch w h : ℕ) : List Access := nv12 (rgb565 src pitch) w h

/-- A white 2x2 image: flat luma, neutral chroma. -/
example : (bgraToNv12 (List.replicate 16 0xff) 8 2 2).filterMap
      (fun | .storeY i v => some (i, v) | .storeUv i v => some (i + 4, v) | _ => none) =
    [(0, 235), (1, 235), (2, 235), (3, 235), (4, 128), (5, 128)] := by decide

/-! ## Which stores take place -/

section Stores

variable {f : PixelFormat} {w h : ℕ} {n : Lengths}

/-- Every byte of the pixel lies in the source. -/
def PixelIn (f : PixelFormat) (n : Lengths) (p : ℕ × ℕ) : Prop := ∀ i ∈ f.reads [p], i < n.src

/-- Every row slice of the image starts in the source. -/
def RowsIn (f : PixelFormat) (h : ℕ) (n : Lengths) : Prop :=
  ∀ ys : List ℕ, (∀ y ∈ ys, y < h) → ∀ i ∈ f.slices ys, i ≤ n.src

/-- The row slices of a whole 32-bit copy start in it. -/
theorem rowsIn_bgra {src : Bytes} {pitch : ℕ} (hn : n.src = pitch * h) :
    RowsIn (bgra src pitch) h n := by
  intro ys hys i hi
  obtain ⟨y, hy, rfl⟩ := List.mem_map.mp hi
  rw [hn, Nat.mul_comm pitch]
  exact Nat.mul_le_mul_right _ (Nat.le_of_lt (hys y hy))

/-- A 16-bit source is read pixel by pixel, without slices of rows. -/
theorem rowsIn_rgb565 {src : Bytes} {pitch : ℕ} : RowsIn (rgb565 src pitch) h n := by
  intro ys _ i hi
  exact absurd hi List.not_mem_nil

/-- The bytes the chroma loops store to are those before this one. An odd width spills one byte
past the last row. -/
def chromaExtent (w h : ℕ) : ℕ := if h = 0 then 0 else (h + 1) / 2 * w + w % 2

/-- The access is a store at or past the given luma and chroma bounds. -/
def Access.Escapes (y uv : ℕ) : Access → Prop
  | .storeY i _ => y ≤ i
  | .storeUv i _ => uv ≤ i
  | _ => False

variable {L M : ℕ}

/-- Reading never leaves the two planes. -/
theorem not_reaches_readSrc (is : List ℕ) :
    ¬ Reaches (Access.InRange n) (Access.Escapes L M) (is.map .readSrc) := by
  apply not_reaches_of_forall
  rw [List.forall_mem_map]
  exact fun i _ hbad => hbad

/-- A pixel is converted without a panic if it is in the source and its place in the plane. -/
theorem forall_lumaPixel_iff {y x : ℕ} :
    (∀ a ∈ lumaPixel f w y x, a.InRange n) ↔ PixelIn f n (y, x) ∧ y * w + x < n.y := by
  simp only [lumaPixel, List.forall_mem_append, List.forall_mem_map, List.forall_mem_singleton]
  rfl

/-- When a pixel is written behind the end of its plane. -/
theorem reaches_lumaPixel_iff {y x : ℕ} :
    Reaches (Access.InRange n) (Access.Escapes L M) (lumaPixel f w y x) ↔
      PixelIn f n (y, x) ∧ y * w + x < n.y ∧ L ≤ y * w + x := by
  simp only [lumaPixel, reaches_append, reaches_cons, not_reaches_nil, not_reaches_readSrc,
    false_or, or_false, List.forall_mem_map]
  rfl

/-- The slices at the head of a row: rows of the source, and one row of a plane. -/
theorem forall_rowHead_iff {ys : List ℕ} {a : Access} :
    (∀ b ∈ (f.slices ys).map Access.sliceSrc ++ [a], b.InRange n) ↔
      (∀ i ∈ f.slices ys, i ≤ n.src) ∧ a.InRange n := by
  simp only [List.forall_mem_append, List.forall_mem_map, List.forall_mem_singleton]
  rfl

/-- The slices at the head of a row write nothing. -/
theorem forall_rowHead_not_escapes {ys : List ℕ} {a : Access} (ha : ¬ a.Escapes L M) :
    ∀ b ∈ (f.slices ys).map Access.sliceSrc ++ [a], ¬ b.Escapes L M := by
  simp only [List.forall_mem_append, List.forall_mem_map, List.forall_mem_singleton]
  exact ⟨fun i _ hbad => hbad, ha⟩

/-- A luma row of an image that fits the plane runs to its end where its pixels can be read. -/
theorem forall_lumaRow_iff {y : ℕ} (hrows : RowsIn f h n) (hy : y < h) (hfit : h * w ≤ n.y) :
    (∀ a ∈ lumaRow f w y, a.InRange n) ↔ ∀ x < w, PixelIn f n (y, x) := by
  have hrow : (y + 1) * w ≤ h * w := Nat.mul_le_mul_right w hy
  rw [Nat.succ_mul] at hrow
  have hhead : (∀ i ∈ f.slices [y], i ≤ n.src) ∧ (Access.sliceY (y * w)).InRange n :=
    ⟨hrows [y] (by simpa using hy), show y * w ≤ n.y by omega⟩
  rw [lumaRow, List.forall_mem_append, forall_rowHead_iff, and_iff_right hhead]
  simp only [List.mem_flatMap, List.mem_range]
  constructor
  · intro hall x hx
    exact (forall_lumaPixel_iff.mp fun a ha => hall a ⟨x, hx, ha⟩).1
  · rintro hall a ⟨x, hx, ha⟩
    exact forall_lumaPixel_iff.mpr ⟨hall x hx, by omega⟩ a ha

/-- A row escapes at its first pixel that does, if all before it are in the source. -/
theorem reaches_lumaRow_iff {y : ℕ} (hrows : RowsIn f h n) (hy : y < h) (hfit : h * w ≤ n.y) :
    Reaches (Access.InRange n) (Access.Escapes L M) (lumaRow f w y) ↔
      ∃ x < w, (∀ k ≤ x, PixelIn f n (y, k)) ∧ L ≤ y * w + x := by
  have hrow : (y + 1) * w ≤ h * w := Nat.mul_le_mul_right w hy
  rw [Nat.succ_mul] at hrow
  have hhead : (∀ i ∈ f.slices [y], i ≤ n.src) ∧ (Access.sliceY (y * w)).InRange n :=
    ⟨hrows [y] (by simpa using hy), show y * w ≤ n.y by omega⟩
  rw [lumaRow, reaches_append_of_forall (forall_rowHead_iff.mpr hhead)
    (forall_rowHead_not_escapes fun hbad => hbad), reaches_flatMap_range]
  simp only [forall_lumaPixel_iff, reaches_lumaPixel_iff]
  constructor
  · rintro ⟨x, hx, hbefore, hpix, -, hL⟩
    refine ⟨x, hx, ?_, hL⟩
    intro k hk
    rcases Nat.lt_or_eq_of_le hk with hlt | rfl
    · exact (hbefore k hlt).1
    · exact hpix
  · rintro ⟨x, hx, hpix, hL⟩
    refine ⟨x, hx, ?_, hpix x (Nat.le_refl x), by omega, hL⟩
    intro k hk
    exact ⟨hpix k (Nat.le_of_lt hk), by omega⟩

/-- The pixel at a position of the row-major order. -/
def pixelAt (w j : ℕ) : ℕ × ℕ := (j / w, j % w)

/-- The pixel at a place of the plane. -/
theorem pixelAt_mul_add {y x : ℕ} (hx : x < w) : pixelAt w (y * w + x) = (y, x) := by
  unfold pixelAt
  rw [Nat.mul_comm y w, Nat.mul_add_div (by omega), Nat.mul_add_mod, Nat.div_eq_of_lt hx,
    Nat.mod_eq_of_lt hx, Nat.add_zero]

/-- A pixel of the surface has a place in it. -/
theorem rowMajor_lt {y x : ℕ} (hy : y < h) (hx : x < w) : y * w + x < w * h := by
  have hrow : (y + 1) * w ≤ h * w := Nat.mul_le_mul_right w hy
  rw [Nat.succ_mul, Nat.mul_comm h] at hrow
  omega

/-- The luma loops store past a bound exactly where they get as far as the bound: pixels can be
read up to it. -/
theorem reaches_luma_iff (hrows : RowsIn f h n) (hfit : h * w ≤ n.y) :
    Reaches (Access.InRange n) (Access.Escapes L M) ((List.range h).flatMap (lumaRow f w)) ↔
      L < h * w ∧ ∀ j ≤ L, PixelIn f n (pixelAt w j) := by
  rw [reaches_flatMap_range]
  constructor
  · rintro ⟨y, hy, hbefore, hrow⟩
    obtain ⟨x, hx, hpix, hL⟩ := (reaches_lumaRow_iff hrows hy hfit).mp hrow
    have hend : (y + 1) * w ≤ h * w := Nat.mul_le_mul_right w hy
    rw [Nat.succ_mul] at hend
    refine ⟨by omega, ?_⟩
    intro j hj
    have hw : 0 < w := by omega
    have hjy : j / w < y + 1 := by
      rw [Nat.div_lt_iff_lt_mul hw, Nat.succ_mul]
      omega
    -- the pixel is in an earlier row, or in this row at or before `x`
    rcases Nat.lt_succ_iff_lt_or_eq.mp hjy with hlt | heq
    · exact (forall_lumaRow_iff hrows (by omega) hfit).mp (hbefore _ hlt) _ (Nat.mod_lt j hw)
    · unfold pixelAt
      rw [heq]
      apply hpix _
      have hdiv := Nat.div_add_mod j w
      rw [heq, Nat.mul_comm w y] at hdiv
      omega
  · rintro ⟨hlt, hpix⟩
    have hw : 0 < w := by
      rcases Nat.eq_zero_or_pos w with rfl | hw
      · omega
      · exact hw
    have hdiv := Nat.div_add_mod L w
    rw [Nat.mul_comm w (L / w)] at hdiv
    have hmod := Nat.mod_lt L hw
    have hy : L / w < h := by
      rw [Nat.div_lt_iff_lt_mul hw]
      exact hlt
    refine ⟨L / w, hy, ?_, (reaches_lumaRow_iff hrows hy hfit).mpr ⟨L % w, hmod, ?_, by omega⟩⟩
    · intro i hi
      rw [forall_lumaRow_iff hrows (by omega) hfit]
      intro x hx
      have hrow : (i + 1) * w ≤ L / w * w := Nat.mul_le_mul_right w hi
      rw [Nat.succ_mul] at hrow
      have := hpix (i * w + x) (by omega)
      rwa [pixelAt_mul_add hx] at this
    · intro k hk
      have := hpix (L / w * w + k) (by omega)
      rwa [pixelAt_mul_add (by omega)] at this

/-- The luma loops run to their end where every pixel can be read. -/
theorem forall_luma_iff (hrows : RowsIn f h n) (hfit : h * w ≤ n.y) :
    (∀ a ∈ (List.range h).flatMap (lumaRow f w), a.InRange n) ↔
      ∀ y < h, ∀ x < w, PixelIn f n (y, x) := by
  simp only [List.mem_flatMap, List.mem_range]
  constructor
  · intro hall y hy
    exact (forall_lumaRow_iff hrows hy hfit).mp fun a ha => hall a ⟨y, hy, ha⟩
  · rintro hall a ⟨y, hy, ha⟩
    exact (forall_lumaRow_iff hrows hy hfit).mpr (hall y hy) a ha

/-- With every pixel readable, the reads of a 2x2 block never panic. -/
theorem forall_block_reads {y x : ℕ} (hpix : ∀ y < h, ∀ x < w, PixelIn f n (y, x)) (hy : y < h)
    (hx : x < w) :
    ∀ i ∈ f.reads [(y, x), (y, if x + 1 < w then x + 1 else x),
        (if y + 1 < h then y + 1 else y, x),
        (if y + 1 < h then y + 1 else y, if x + 1 < w then x + 1 else x)], i < n.src := by
  have hx1 : (if x + 1 < w then x + 1 else x) < w := by split <;> assumption
  have hy1 : (if y + 1 < h then y + 1 else y) < h := by split <;> assumption
  intro i hi
  obtain ⟨p, hp, hi⟩ := (f.mem_reads _ i).mp hi
  simp only [List.mem_cons, List.not_mem_nil, or_false] at hp
  rcases hp with rfl | rfl | rfl | rfl
  · exact hpix _ hy _ hx i hi
  · exact hpix _ hy _ hx1 i hi
  · exact hpix _ hy1 _ hx i hi
  · exact hpix _ hy1 _ hx1 i hi

/-- A block is converted without a panic if both its bytes have a place. -/
theorem forall_chromaBlock_iff {y x : ℕ} (hpix : ∀ y < h, ∀ x < w, PixelIn f n (y, x))
    (hy : y < h) (hx : x < w) :
    (∀ a ∈ chromaBlock f w h y x, a.InRange n) ↔ y / 2 * w + x + 1 < n.uv := by
  simp only [chromaBlock, List.forall_mem_append, List.forall_mem_map, List.forall_mem_cons]
  constructor
  · rintro ⟨-, -, hlast, -⟩
    exact hlast
  · intro hlast
    exact ⟨forall_block_reads hpix hy hx, show y / 2 * w + x < n.uv by omega, hlast, by simp⟩

/-- When one of the two bytes is written behind the end of the plane. -/
theorem reaches_chromaBlock_iff {y x : ℕ} (hpix : ∀ y < h, ∀ x < w, PixelIn f n (y, x))
    (hy : y < h) (hx : x < w) :
    Reaches (Access.InRange n) (Access.Escapes L M) (chromaBlock f w h y x) ↔
      y / 2 * w + x < n.uv ∧
        (M ≤ y / 2 * w + x ∨ y / 2 * w + x + 1 < n.uv ∧ M ≤ y / 2 * w + x + 1) := by
  unfold chromaBlock
  rw [reaches_append_of_forall]
  · simp only [reaches_cons, not_reaches_nil, or_false]
    rfl
  · rw [List.forall_mem_map]
    exact forall_block_reads hpix hy hx
  · rw [List.forall_mem_map]
    exact fun i _ hbad => hbad

/-- A chroma row whose bytes are all in the plane runs to its end. -/
theorem forall_chromaRow {k : ℕ} (hrows : RowsIn f h n)
    (hpix : ∀ y < h, ∀ x < w, PixelIn f n (y, x)) (hk : 2 * k < h) (hfit : k * w + w < n.uv) :
    ∀ a ∈ chromaRow f w h (2 * k), a.InRange n := by
  have hk2 : 2 * k / 2 = k := by omega
  have hy1 : (if 2 * k + 1 < h then 2 * k + 1 else 2 * k) < h := by split <;> assumption
  unfold chromaRow
  rw [List.forall_mem_append, forall_rowHead_iff]
  refine ⟨⟨hrows _ (by simpa using ⟨hk, hy1⟩), ?_⟩, ?_⟩
  · show 2 * k / 2 * w ≤ n.uv
    rw [hk2]
    omega
  · intro a ha
    obtain ⟨m, hm, ha⟩ := List.mem_flatMap.mp ha
    rw [List.mem_range] at hm
    refine (forall_chromaBlock_iff hpix hk (by omega)).mpr ?_ a ha
    rw [hk2]
    omega

/-- A row of blocks escapes at its first block that does. -/
theorem reaches_chromaRow_iff {k : ℕ} (hrows : RowsIn f h n)
    (hpix : ∀ y < h, ∀ x < w, PixelIn f n (y, x)) (hk : 2 * k < h) (hslice : k * w ≤ n.uv) :
    Reaches (Access.InRange n) (Access.Escapes L M) (chromaRow f w h (2 * k)) ↔
      ∃ m < (w + 1) / 2, (∀ i < m, k * w + 2 * i + 1 < n.uv) ∧ k * w + 2 * m < n.uv ∧
        (M ≤ k * w + 2 * m ∨ k * w + 2 * m + 1 < n.uv ∧ M ≤ k * w + 2 * m + 1) := by
  have hk2 : 2 * k / 2 = k := by omega
  have hy1 : (if 2 * k + 1 < h then 2 * k + 1 else 2 * k) < h := by split <;> assumption
  have hhead : (∀ i ∈ f.slices [2 * k, if 2 * k + 1 < h then 2 * k + 1 else 2 * k], i ≤ n.src) ∧
      (Access.sliceUv (2 * k / 2 * w)).InRange n :=
    ⟨hrows _ (by simpa using ⟨hk, hy1⟩), show 2 * k / 2 * w ≤ n.uv by rw [hk2]; exact hslice⟩
  unfold chromaRow
  rw [reaches_append_of_forall (forall_rowHead_iff.mpr hhead)
    (forall_rowHead_not_escapes fun hbad => hbad), reaches_flatMap_range]
  refine exists_congr fun m => and_congr_right fun hm => and_congr ?_ ?_
  · refine forall_congr' fun i => imp_congr_right fun hi => ?_
    rw [forall_chromaBlock_iff hpix hk (by omega), hk2]
  · rw [reaches_chromaBlock_iff hpix hk (by omega), hk2]

/-- The chroma loops store past a bound inside the plane exactly where they reach that far. -/
theorem reaches_chroma_iff (hrows : RowsIn f h n)
    (hpix : ∀ y < h, ∀ x < w, PixelIn f n (y, x)) (hM : M < n.uv) :
    Reaches (Access.InRange n) (Access.Escapes L M)
        ((List.range ((h + 1) / 2)).flatMap fun k => chromaRow f w h (2 * k)) ↔
      M < chromaExtent w h := by
  rw [reaches_flatMap_range]
  constructor
  · rintro ⟨k, hk, hbefore, hrow⟩
    have hslice : k * w ≤ n.uv := by
      -- the row's own slice is in range, or nothing of the row takes place
      by_contra hslice
      unfold chromaRow at hrow
      rw [reaches_append, or_iff_right (not_reaches_of_forall
        (forall_rowHead_not_escapes (a := .sliceUv _) fun hbad => hbad)),
        forall_rowHead_iff] at hrow
      have hk2 : 2 * k / 2 = k := by omega
      have : 2 * k / 2 * w ≤ n.uv := hrow.1.2
      rw [hk2] at this
      exact hslice this
    obtain ⟨m, hm, -, -, hM⟩ := (reaches_chromaRow_iff hrows hpix (by omega) hslice).mp hrow
    have hend : (k + 1) * w ≤ (h + 1) / 2 * w := Nat.mul_le_mul_right w hk
    rw [Nat.succ_mul] at hend
    rw [chromaExtent, if_neg (by omega)]
    omega
  · intro hlt
    unfold chromaExtent at hlt
    split at hlt
    next => omega
    next hh =>
      have hw : 0 < w := by
        rcases Nat.eq_zero_or_pos w with rfl | hw
        · omega
        · exact hw
      -- the last row takes the one byte an odd width spills
      obtain ⟨k, hk, r, hr, hMr⟩ : ∃ k < (h + 1) / 2, ∃ r, r < w + w % 2 ∧ M = k * w + r := by
        have hdiv := Nat.div_add_mod M w
        rw [Nat.mul_comm w (M / w)] at hdiv
        have hmod := Nat.mod_lt M hw
        by_cases hrow : M / w < (h + 1) / 2
        · exact ⟨M / w, hrow, M % w, by omega, hdiv.symm⟩
        · have hge : (h + 1) / 2 * w ≤ M / w * w := Nat.mul_le_mul_right w (by omega)
          refine ⟨(h + 1) / 2 - 1, by omega, w, by omega, ?_⟩
          rw [Nat.sub_one_mul]
          have : w ≤ (h + 1) / 2 * w := Nat.le_mul_of_pos_left w (by omega)
          omega
      refine ⟨k, hk, ?_, (reaches_chromaRow_iff hrows hpix (by omega) (by omega)).mpr
        ⟨r / 2, by omega, ?_, by omega, ?_⟩⟩
      · intro i hi
        have hrow : (i + 1) * w ≤ k * w := Nat.mul_le_mul_right w hi
        rw [Nat.succ_mul] at hrow
        exact forall_chromaRow hrows hpix (by omega) (by omega)
      · intro i hi
        omega
      · rcases Nat.mod_two_eq_zero_or_one r with heven | hodd
        · exact Or.inl (by omega)
        · exact Or.inr (by omega)

/-- A conversion of even extents runs to its end where every pixel can be read and the planes hold
the image. -/
theorem forall_nv12 (hrows : RowsIn f h n) (hpix : ∀ y < h, ∀ x < w, PixelIn f n (y, x))
    (hw : 2 ∣ w) (hh : 2 ∣ h) (hy : h * w ≤ n.y) (huv : h / 2 * w ≤ n.uv) :
    ∀ a ∈ nv12 f w h, a.InRange n := by
  rw [nv12, List.forall_mem_append]
  refine ⟨(forall_luma_iff hrows hy).mpr hpix, ?_⟩
  intro a ha
  obtain ⟨k, hk, ha⟩ := List.mem_flatMap.mp ha
  rw [List.mem_range] at hk
  -- chroma row `k` is written for the luma rows `2k` and `2k + 1`
  have hrow : (k + 1) * w ≤ h / 2 * w := Nat.mul_le_mul_right w (by omega)
  rw [Nat.succ_mul] at hrow
  have hk2 : 2 * k / 2 = k := by omega
  have hy1 : (if 2 * k + 1 < h then 2 * k + 1 else 2 * k) < h := by split <;> omega
  rw [chromaRow, List.mem_append] at ha
  rcases ha with ha | ha
  · refine forall_rowHead_iff.mpr ⟨hrows _ ?_, ?_⟩ a ha
    · simpa using ⟨by omega, hy1⟩
    · show 2 * k / 2 * w ≤ n.uv
      rw [hk2]
      omega
  · obtain ⟨i, hi, ha⟩ := List.mem_flatMap.mp ha
    rw [List.mem_range] at hi
    refine (forall_chromaBlock_iff hpix (by omega) (by omega)).mpr ?_ a ha
    rw [hk2]
    omega

/-- **The stores of a conversion stay below two bounds**, the second inside the chroma plane,
exactly where the luma loops do not get as far as theirs, and either do not run to their end or the
chroma loops do not get as far as theirs. -/
theorem not_reaches_nv12_iff (hrows : RowsIn f h n) (hfit : h * w ≤ n.y) (hM : M < n.uv) :
    ¬ Reaches (Access.InRange n) (Access.Escapes L M) (nv12 f w h) ↔
      ¬ (L < h * w ∧ ∀ j ≤ L, PixelIn f n (pixelAt w j)) ∧
      ¬ ((∀ y < h, ∀ x < w, PixelIn f n (y, x)) ∧ M < chromaExtent w h) := by
  rw [nv12, reaches_append, not_or, reaches_luma_iff hrows hfit, forall_luma_iff hrows hfit]
  refine and_congr_right fun _ => not_congr (and_congr_right fun hpix => ?_)
  exact reaches_chroma_iff hrows hpix hM

end Stores

/-! ## What is stored -/

section Values

variable {f : PixelFormat} {w h : ℕ}

/-- Luma and chroma of a colour. -/
def lumaOf (c : ℤ × ℤ × ℤ) : UInt8 := rgbY c.1 c.2.1 c.2.2

def uOf (c : ℤ × ℤ × ℤ) : UInt8 := rgbU c.1 c.2.1 c.2.2

def vOf (c : ℤ × ℤ × ℤ) : UInt8 := rgbV c.1 c.2.1 c.2.2

/-- The colour the chroma of the 2x2 block at row `y`, column `x` is computed from. -/
def blockMean (f : PixelFormat) (w h y x : ℕ) : ℤ × ℤ × ℤ :=
  let x1 := if x + 1 < w then x + 1 else x
  let y1 := if y + 1 < h then y + 1 else y
  let mean (g : ℤ × ℤ × ℤ → ℤ) : ℤ :=
    (g (f.rgb (y, x)) + g (f.rgb (y, x1)) + g (f.rgb (y1, x)) + g (f.rgb (y1, x1))) >>> (2 : ℕ)
  (mean (·.1), mean (·.2.1), mean (·.2.2))

/-- What a row writes into the luma plane. -/
theorem storeY_mem_lumaRow {y i : ℕ} {v : UInt8} :
    Access.storeY i v ∈ lumaRow f w y ↔ ∃ x < w, i = y * w + x ∧ v = lumaOf (f.rgb (y, x)) := by
  simp [lumaRow, lumaPixel, lumaOf]

/-- It writes nothing into the chroma plane. -/
theorem storeUv_not_mem_lumaRow {y i : ℕ} {v : UInt8} : Access.storeUv i v ∉ lumaRow f w y := by
  simp [lumaRow, lumaPixel]

/-- A row of blocks writes nothing into the luma plane. -/
theorem storeY_not_mem_chromaRow {y i : ℕ} {v : UInt8} :
    Access.storeY i v ∉ chromaRow f w h y := by
  simp [chromaRow, chromaBlock]

/-- What a row of blocks writes: the means of its blocks, U before V. -/
theorem storeUv_mem_chromaRow {k i : ℕ} {v : UInt8} :
    Access.storeUv i v ∈ chromaRow f w h (2 * k) ↔
      ∃ m < (w + 1) / 2,
        i = k * w + 2 * m ∧ v = uOf (blockMean f w h (2 * k) (2 * m)) ∨
        i = k * w + 2 * m + 1 ∧ v = vOf (blockMean f w h (2 * k) (2 * m)) := by
  simp [chromaRow, chromaBlock, blockMean, uOf, vOf]

/-- The luma stores of a conversion: one for each pixel. -/
theorem storeY_mem_nv12 {i : ℕ} {v : UInt8} :
    Access.storeY i v ∈ nv12 f w h ↔
      ∃ y < h, ∃ x < w, i = y * w + x ∧ v = lumaOf (f.rgb (y, x)) := by
  simp only [nv12, List.mem_append, List.mem_flatMap, List.mem_range, storeY_mem_lumaRow,
    storeY_not_mem_chromaRow, and_false, exists_false, or_false]

/-- The chroma stores of a conversion: two for each 2x2 block. -/
theorem storeUv_mem_nv12 {i : ℕ} {v : UInt8} :
    Access.storeUv i v ∈ nv12 f w h ↔
      ∃ k < (h + 1) / 2, ∃ m < (w + 1) / 2,
        i = k * w + 2 * m ∧ v = uOf (blockMean f w h (2 * k) (2 * m)) ∨
        i = k * w + 2 * m + 1 ∧ v = vOf (blockMean f w h (2 * k) (2 * m)) := by
  simp only [nv12, List.mem_append, List.mem_flatMap, List.mem_range, storeUv_not_mem_lumaRow,
    storeUv_mem_chromaRow, and_false, exists_false, false_or]

end Values

end RgspCast.Convert
