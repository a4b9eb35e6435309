import Mathlib.Algebra.Group.Nat.Defs
import Mathlib.Algebra.Group.Int.Defs
import Mathlib.Data.List.Basic

/-!
# Pillarbox geometry

`Pillarbox::for_target` in the machine's own widths: the products are `u64`, and the truncation to
`u32`, the rounding up and the subtractions wrap. `forTarget_shape` says what any result looks
like: the panel itself, or one axis replaced by an extent that, unless it wrapped to 0, is not
smaller than the panel's (`grown_eq_zero_or_le`). For a panel whose extents are multiples of 16
`proportioned` says how close the grown extent is to the exact one.
-/

namespace RgspCast.Geometry

/-- The padded input surface the panel image is centred in. -/
structure Pillarbox where
  /-- Padded input surface, in pixels. -/
  padW : UInt32
  padH : UInt32
  /-- Where the panel image sits in it. -/
  padX : UInt32
  padY : UInt32
  /-- True when the black bars actually exist. -/
  padded : Bool
  deriving DecidableEq, Repr

/-- The extent of the grown axis: the exact one rounded to the nearest 16, or, where that is
smaller than the panel, the panel's rounded up to 16. -/
def grown (want src : UInt32) : UInt32 :=
  let p := (want + 8) &&& ~~~15
  if p < src then (src + 15) &&& ~~~15 else p

/-- `Pillarbox::for_target`: grow the input surface to the destination's aspect ratio and centre
the panel image in it. A destination size of 0 means no scaling. -/
def forTarget (srcW srcH dstW dstH : UInt32) : Pillarbox :=
  if dstW = 0 ∨ dstH = 0 ∨
      dstW.toUInt64 * srcH.toUInt64 = dstH.toUInt64 * srcW.toUInt64 then
    ⟨srcW, srcH, 0, 0, false⟩
  else
    let padW :=
      if dstW.toUInt64 * srcH.toUInt64 > dstH.toUInt64 * srcW.toUInt64 then
        grown (srcH.toUInt64 * dstW.toUInt64 / dstH.toUInt64).toUInt32 srcW
      else srcW
    let padH :=
      if dstW.toUInt64 * srcH.toUInt64 > dstH.toUInt64 * srcW.toUInt64 then srcH
      else grown (srcW.toUInt64 * dstH.toUInt64 / dstW.toUInt64).toUInt32 srcH
    ⟨padW, padH, (padW - srcW) / 2, (padH - srcH) / 2, true⟩

/-! ## 16-alignment -/

/-- The mask rounds down to a multiple of 16. -/
theorem nat_and_not_15 {n : ℕ} (hn : n < 2 ^ 32) : n &&& 4294967280 = n / 16 * 16 := by
  have hmask : 4294967280 = (2 ^ 28 - 1) <<< 4 := rfl
  have hround : n / 16 * 16 = (n >>> 4) <<< 4 := by
    rw [Nat.shiftRight_eq_div_pow, Nat.shiftLeft_eq]
  rw [hmask, hround]
  apply Nat.eq_of_testBit_eq
  intro i
  rw [Nat.testBit_and, Nat.testBit_shiftLeft, Nat.testBit_shiftLeft, Nat.testBit_shiftRight,
    Nat.testBit_two_pow_sub_one]
  by_cases hi : 4 ≤ i
  · rw [Nat.add_sub_cancel' hi]
    by_cases hlt : i < 32
    · simp [hi, show i - 4 < 28 by omega]
    · -- past bit 31 the number has no bit and the mask none either
      have hpow : n < 2 ^ i := Nat.lt_of_lt_of_le hn (Nat.pow_le_pow_right (by decide) (by omega))
      rw [Nat.testBit_lt_two_pow hpow]
      simp
  · simp [hi]

/-- Clearing the low four bits rounds down to a multiple of 16. -/
theorem toNat_and_not_15 (x : UInt32) : (x &&& ~~~15).toNat = x.toNat / 16 * 16 := by
  rw [UInt32.toNat_and]
  exact nat_and_not_15 x.toNat_lt

/-- The grown extent covers the panel, or is the panel's own extent rounded up. -/
theorem le_grown_or (want src : UInt32) :
    src ≤ grown want src ∨ (grown want src).toNat = (src.toNat + 15) % 2 ^ 32 / 16 * 16 := by
  unfold grown
  simp only
  split
  next =>
    rw [toNat_and_not_15, UInt32.toNat_add]
    exact Or.inr rfl
  next hge => exact Or.inl (UInt32.not_lt.mp hge)

/-- The grown extent covers the panel, unless rounding the panel up wraps to 0. -/
theorem grown_eq_zero_or_le (want src : UInt32) : grown want src = 0 ∨ src ≤ grown want src := by
  rcases le_grown_or want src with hle | hround
  · exact Or.inr hle
  · have hsrc := src.toNat_lt
    rw [← UInt32.toNat_inj, UInt32.le_iff_toNat_le, hround]
    show _ = 0 ∨ _
    omega

/-- The grown extent covers a panel whose extent is a multiple of 16. -/
theorem le_grown_of_aligned {want src : UInt32} (h : 16 ∣ src.toNat) : src ≤ grown want src := by
  rcases le_grown_or want src with hle | hround
  · exact hle
  · have hsrc := src.toNat_lt
    rw [UInt32.le_iff_toNat_le, hround]
    omega

/-- Half the difference of two extents is exact where the surface covers the panel. -/
theorem toNat_half_sub {pad src : UInt32} (h : src ≤ pad) :
    ((pad - src) / 2).toNat = (pad.toNat - src.toNat) / 2 := by
  rw [UInt32.toNat_div, UInt32.toNat_sub_of_le _ _ h]
  rfl

/-! ## The shapes a padded surface can have -/

/-- The surfaces `for_target` returns for a panel: the panel itself, or the panel centred on one
grown axis. -/
inductive Shape (srcW srcH : UInt32) : Pillarbox → Prop where
  | plain : Shape srcW srcH ⟨srcW, srcH, 0, 0, false⟩
  | wide (padW : UInt32) (h : padW = 0 ∨ srcW ≤ padW) :
      Shape srcW srcH ⟨padW, srcH, (padW - srcW) / 2, 0, true⟩
  | tall (padH : UInt32) (h : padH = 0 ∨ srcH ≤ padH) :
      Shape srcW srcH ⟨srcW, padH, 0, (padH - srcH) / 2, true⟩

/-- What `for_target` returns, by the case it took. -/
theorem forTarget_shape (srcW srcH dstW dstH : UInt32) :
    Shape srcW srcH (forTarget srcW srcH dstW dstH) := by
  have hzero : ∀ x : UInt32, (x - x) / 2 = 0 := by
    intro x
    rw [UInt32.sub_self]
    rfl
  unfold forTarget
  split
  · exact .plain
  · simp only
    split
    · rw [hzero]
      exact .wide _ (grown_eq_zero_or_le _ _)
    · rw [hzero]
      exact .tall _ (grown_eq_zero_or_le _ _)

/-- A panel whose extents are multiples of 16 is covered by its surface. -/
theorem covers_of_aligned {srcW srcH : UInt32} (dstW dstH : UInt32) (hw : 16 ∣ srcW.toNat)
    (hh : 16 ∣ srcH.toNat) :
    srcW ≤ (forTarget srcW srcH dstW dstH).padW ∧ srcH ≤ (forTarget srcW srcH dstW dstH).padH := by
  unfold forTarget
  split
  · exact ⟨UInt32.le_refl _, UInt32.le_refl _⟩
  · simp only
    split
    · exact ⟨le_grown_of_aligned hw, UInt32.le_refl _⟩
    · exact ⟨UInt32.le_refl _, le_grown_of_aligned hh⟩

/-! ## The exact extent and the rounded one -/

/-- A product of two extents fits 64 bits. -/
theorem toNat_mul_toUInt64 (a b : UInt32) :
    (a.toUInt64 * b.toUInt64).toNat = a.toNat * b.toNat := by
  have hprod : a.toNat * b.toNat < 2 ^ 32 * 2 ^ 32 := Nat.mul_lt_mul'' a.toNat_lt b.toNat_lt
  rw [UInt64.toNat_mul, UInt32.toNat_toUInt64, UInt32.toNat_toUInt64]
  exact Nat.mod_eq_of_lt (Nat.lt_of_lt_of_eq hprod (by decide))

/-- The extent that the grown axis is to have: the exact one rounded down, in 32 bits. -/
theorem toNat_want (a b c : UInt32) :
    (a.toUInt64 * b.toUInt64 / c.toUInt64).toUInt32.toNat =
      a.toNat * b.toNat / c.toNat % 2 ^ 32 := by
  rw [UInt64.toNat_toUInt32, UInt64.toNat_div, toNat_mul_toUInt64, UInt32.toNat_toUInt64]

/-- The grown extent of an aligned panel is aligned. -/
theorem dvd_grown (want src : UInt32) : 16 ∣ (grown want src).toNat := by
  unfold grown
  simp only
  split
  · rw [toNat_and_not_15]
    exact Nat.dvd_mul_left 16 _
  · rw [toNat_and_not_15]
    exact Nat.dvd_mul_left 16 _

/-- An extent that covers the panel and does not wrap is rounded to the nearest 16. -/
theorem toNat_grown {want src : UInt32} (h : 16 ∣ src.toNat) (hsrc : src ≤ want)
    (hwant : want.toNat + 8 < 2 ^ 32) : (grown want src).toNat = (want.toNat + 8) / 16 * 16 := by
  have hround : ((want + 8) &&& ~~~15).toNat = (want.toNat + 8) / 16 * 16 := by
    rw [toNat_and_not_15, UInt32.toNat_add]
    show (want.toNat + 8) % 2 ^ 32 / 16 * 16 = _
    rw [Nat.mod_eq_of_lt hwant]
  rw [UInt32.le_iff_toNat_le] at hsrc
  have hcovers : ¬ (want + 8) &&& ~~~15 < src := by
    rw [UInt32.lt_iff_toNat_lt, hround]
    omega
  unfold grown
  simp only
  rw [if_neg hcovers, hround]

/-- The floor and the rounding together are off by at most half an alignment step. -/
theorem natAbs_round_sub_le {n d : ℕ} (hd : 0 < d) :
    ((((n / d + 8) / 16 * 16 * d : ℕ) : ℤ) - n).natAbs ≤ 8 * d := by
  have hfloor : n / d * d ≤ n := Nat.div_mul_le_self n d
  have hceil : n < n / d * d + d := Nat.lt_div_mul_add hd
  have hup : (n / d + 8) / 16 * 16 * d ≤ (n / d + 8) * d :=
    Nat.mul_le_mul_right d (Nat.div_mul_le_self _ 16)
  have hdown : n / d * d ≤ ((n / d + 8) / 16 * 16 + 7) * d :=
    Nat.mul_le_mul_right d (by omega)
  rw [Nat.add_mul] at hup hdown
  omega

/-! ## Covered, centred and in proportion -/

/-- The destination is wider than the panel: the width is the axis to grow. -/
def Wider (srcW srcH dstW dstH : ℕ) : Prop := 0 < dstH ∧ dstH * srcW < dstW * srcH

/-- The grown extent is within half an alignment step of the exact one, `len * dst / ofDst`, where
that one fits 32 bits with the rounding. -/
def InProportion (pad len dst ofDst : ℕ) : Prop :=
  len * dst ≤ (2 ^ 32 - 9) * ofDst →
    (((pad * ofDst : ℕ) : ℤ) - (len * dst : ℕ)).natAbs ≤ 8 * ofDst

/-- What is claimed of a surface: the panel is wholly on it and in its centre, only one axis grew,
both are aligned, and the grown one is as close to the destination's proportions as 16-alignment
allows. -/
structure Proportioned (srcW srcH dstW dstH : ℕ) (p : Pillarbox) : Prop where
  covers_w : srcW ≤ p.padW.toNat
  covers_h : srcH ≤ p.padH.toNat
  one_kept : p.padW.toNat = srcW ∨ p.padH.toNat = srcH
  aligned_w : 16 ∣ p.padW.toNat
  aligned_h : 16 ∣ p.padH.toNat
  centred_w : 2 * p.padX.toNat + srcW = p.padW.toNat
  centred_h : 2 * p.padY.toNat + srcH = p.padH.toNat
  grown_w : srcW < p.padW.toNat → Wider srcW srcH dstW dstH
  grown_h : srcH < p.padH.toNat → Wider srcH srcW dstH dstW
  proportion_w : Wider srcW srcH dstW dstH → InProportion p.padW.toNat srcH dstW dstH
  proportion_h : Wider srcH srcW dstH dstW → InProportion p.padH.toNat srcW dstH dstW

/-- Growing one side and rounding it keeps the proportion up to the rounding. -/
theorem inProportion_grown {src len dst ofDst : UInt32} (h : 16 ∣ src.toNat)
    (hwider : Wider src.toNat len.toNat dst.toNat ofDst.toNat) :
    InProportion (grown (len.toUInt64 * dst.toUInt64 / ofDst.toUInt64).toUInt32 src).toNat
      len.toNat dst.toNat ofDst.toNat := by
  obtain ⟨hpos, hlt⟩ := hwider
  intro hexact
  have hfits : len.toNat * dst.toNat / ofDst.toNat ≤ 2 ^ 32 - 9 :=
    Nat.div_le_of_le_mul (Nat.le_trans hexact (Nat.le_of_eq (Nat.mul_comm _ _)))
  have hwant : (len.toUInt64 * dst.toUInt64 / ofDst.toUInt64).toUInt32.toNat =
      len.toNat * dst.toNat / ofDst.toNat := by
    rw [toNat_want]
    exact Nat.mod_eq_of_lt (by omega)
  -- the exact extent is beyond the panel's, so rounding does not fall behind it
  have hsrc : src ≤ (len.toUInt64 * dst.toUInt64 / ofDst.toUInt64).toUInt32 := by
    rw [UInt32.le_iff_toNat_le, hwant, Nat.le_div_iff_mul_le hpos, Nat.mul_comm len.toNat,
      Nat.mul_comm src.toNat]
    exact Nat.le_of_lt hlt
  rw [toNat_grown h hsrc (by rw [hwant]; omega), hwant]
  exact natAbs_round_sub_le hpos

/-- The comparison of the products, in the machine's widths. -/
theorem mul_lt_mul_iff_toNat (a b c d : UInt32) :
    a.toUInt64 * b.toUInt64 < c.toUInt64 * d.toUInt64 ↔
      a.toNat * b.toNat < c.toNat * d.toNat := by
  rw [UInt64.lt_iff_toNat_lt, toNat_mul_toUInt64, toNat_mul_toUInt64]

/-- Half of what the surface is wider than the panel lies on either side. -/
theorem centred_of_aligned {pad src : UInt32} (hpad : 16 ∣ pad.toNat) (hsrc : 16 ∣ src.toNat)
    (hle : src ≤ pad) : 2 * ((pad - src) / 2).toNat + src.toNat = pad.toNat := by
  rw [toNat_half_sub hle]
  rw [UInt32.le_iff_toNat_le] at hle
  omega

section ForTarget

variable {srcW srcH dstW dstH : UInt32}

/-- Where no axis is to grow the panel is left as it is, and only there. -/
theorem same_iff : (dstW = 0 ∨ dstH = 0 ∨
      dstW.toUInt64 * srcH.toUInt64 = dstH.toUInt64 * srcW.toUInt64) ↔
    ¬ Wider srcW.toNat srcH.toNat dstW.toNat dstH.toNat ∧
      ¬ Wider srcH.toNat srcW.toNat dstH.toNat dstW.toNat := by
  rw [← UInt64.toNat_inj, toNat_mul_toUInt64, toNat_mul_toUInt64, ← UInt32.toNat_inj,
    ← UInt32.toNat_inj]
  show dstW.toNat = 0 ∨ dstH.toNat = 0 ∨ _ ↔ _
  unfold Wider
  constructor
  · rintro (hzero | hzero | heq)
    · rw [hzero, Nat.zero_mul]
      omega
    · rw [hzero, Nat.zero_mul]
      omega
    · omega
  · omega

/-- The comparison of the source, in 64 bits, does not wrap. -/
theorem wide_iff (hsame : ¬ (dstW = 0 ∨ dstH = 0 ∨
      dstW.toUInt64 * srcH.toUInt64 = dstH.toUInt64 * srcW.toUInt64)) :
    dstW.toUInt64 * srcH.toUInt64 > dstH.toUInt64 * srcW.toUInt64 ↔
      Wider srcW.toNat srcH.toNat dstW.toNat dstH.toNat := by
  have hpos : 0 < dstH.toNat := by
    refine Nat.pos_of_ne_zero fun hzero => hsame (Or.inr (Or.inl ?_))
    exact UInt32.toNat_inj.mp hzero
  rw [gt_iff_lt, mul_lt_mul_iff_toNat]
  exact (and_iff_right hpos).symm

/-- At most one axis is to grow. -/
theorem Wider.not_wider {w h dw dh : ℕ} (hwider : Wider w h dw dh) : ¬ Wider h w dh dw :=
  fun htaller => Nat.lt_asymm hwider.2 htaller.2

end ForTarget

/-- **Whatever the destination, the surface of an aligned panel covers it, is aligned and centred,
and is as close to the destination's proportions as alignment allows.** -/
theorem proportioned (srcW srcH dstW dstH : UInt32) (hw : 16 ∣ srcW.toNat)
    (hh : 16 ∣ srcH.toNat) :
    Proportioned srcW.toNat srcH.toNat dstW.toNat dstH.toNat
      (forTarget srcW srcH dstW dstH) := by
  unfold forTarget
  split
  -- the panel has the target's proportion already, or there is no target
  next hsame =>
    obtain ⟨hnarrow, hlow⟩ := same_iff.mp hsame
    exact {
      covers_w := Nat.le_refl _
      covers_h := Nat.le_refl _
      one_kept := Or.inl rfl
      aligned_w := hw
      aligned_h := hh
      centred_w := Nat.zero_add _
      centred_h := Nat.zero_add _
      grown_w := fun h => absurd h (Nat.lt_irrefl _)
      grown_h := fun h => absurd h (Nat.lt_irrefl _)
      proportion_w := fun h => absurd h hnarrow
      proportion_h := fun h => absurd h hlow }
  next hsame =>
    simp only
    split
    -- the target is wider: the width grows
    next hgt =>
      have hwider := (wide_iff hsame).mp hgt
      have hle : srcW ≤ grown (srcH.toUInt64 * dstW.toUInt64 / dstH.toUInt64).toUInt32 srcW :=
        le_grown_of_aligned hw
      exact {
        covers_w := UInt32.le_iff_toNat_le.mp hle
        covers_h := Nat.le_refl _
        one_kept := Or.inr rfl
        aligned_w := dvd_grown _ _
        aligned_h := hh
        centred_w := centred_of_aligned (dvd_grown _ _) hw hle
        centred_h := centred_of_aligned hh hh (UInt32.le_refl _)
        grown_w := fun _ => hwider
        grown_h := fun h => absurd h (Nat.lt_irrefl _)
        proportion_w := fun _ => inProportion_grown hw hwider
        proportion_h := fun h => absurd h hwider.not_wider }
    -- not wider and not the same: the height grows
    next hgt =>
      have htaller : Wider srcH.toNat srcW.toNat dstH.toNat dstW.toNat := by
        by_contra hlow
        exact hsame (same_iff.mpr ⟨mt (wide_iff hsame).mpr hgt, hlow⟩)
      have hle : srcH ≤ grown (srcW.toUInt64 * dstH.toUInt64 / dstW.toUInt64).toUInt32 srcH :=
        le_grown_of_aligned hh
      exact {
        covers_w := Nat.le_refl _
        covers_h := UInt32.le_iff_toNat_le.mp hle
        one_kept := Or.inl rfl
        aligned_w := hw
        aligned_h := dvd_grown _ _
        centred_w := centred_of_aligned hw hw (UInt32.le_refl _)
        centred_h := centred_of_aligned (dvd_grown _ _) hh hle
        grown_w := fun h => absurd h (Nat.lt_irrefl _)
        grown_h := fun _ => htaller
        proportion_w := fun h => absurd h htaller.not_wider
        proportion_h := fun _ => inProportion_grown hh htaller }

/-- The panel of the device, and a destination whose exact extent does not fit 32 bits. -/
theorem proportioned_absurd :
    Proportioned 720 480 4294967295 1 (forTarget 720 480 4294967295 1) :=
  proportioned 720 480 4294967295 1 (by decide) (by decide)

/-- The panel of the device in a 720p stream. -/
example : forTarget 720 480 1280 720 = ⟨848, 480, 64, 0, true⟩ := by decide

end RgspCast.Geometry
