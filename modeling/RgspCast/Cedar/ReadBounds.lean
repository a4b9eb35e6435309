import RgspCast.Cedar.InputBuffer

/-!
# Read bounds of the framebuffer copy

`convert_into_input_buffer` reads `fb_buf` in four shapes. The converters index a slice and the
unpadded copy is as long as the buffer, so neither can read outside. The padded copy takes `w * 4`
bytes from each row through a raw pointer, whatever the bit depth: where an RGB input is opened on
a 16-bit panel the last row is read past its end (`not_readSafe`). `readSafe_iff` says where every
read lies inside.
-/

namespace RgspCast.ReadBounds

open RgspCast.Geometry Checked RgspCast.Convert Cedar InputBuffer Transition

/-- `convert_into_input_buffer` reads the byte of `fb_buf` at this index. -/
def Reads (c : Capture) (i : ℕ) : Prop :=
  (∃ dst src n, Write.copy dst src n ∈ c.convertIntoInputBuffer.writes ∧ src ≤ i ∧ i < src + n) ∨
    c.rgbIn = false ∧ Access.readSrc i ∈ performed (Access.InRange c.sliceLengths) c.convertAccesses

/-- Whatever a run with this panel and these arguments copies, it reads below `pitch * h`. -/
def ReadSafe (args : OpenArgs) (geo : FbGeometry) : Prop :=
  ∀ libs a calls s, a.fb = .ok geo →
    run (Session.step libs) (.start args) (.init a :: calls) = some s → s.phase = .ready →
      ∀ c : Capture, c.config = s.world.cap.config →
        ∀ i, Reads c i → i < geo.pitch.toNat * geo.h.toNat

/-- A panel with a pixel, whose rows hold their pixels. -/
structure Panel (geo : FbGeometry) : Prop where
  w : 1 ≤ geo.w.toNat
  h : 1 ≤ geo.h.toNat
  bpp : geo.bpp = 16 ∨ geo.bpp = 32
  pitch : geo.w.toNat * geo.bpp.toNat / 8 ≤ geo.pitch.toNat

/-- The checks of `init` accept the panel. -/
structure Validated (args : OpenArgs) (geo : FbGeometry) : Prop where
  size : validateGeometry geo.w geo.h geo.bpp args.width args.height = .ok ()
  pitch : validateRgbPitch args.inFmt.isRgb (forTarget geo.w geo.h args.dstW args.dstH).padded
    geo.pitch geo.w = .ok ()

/-- A padded RGB copy finds `w * 4` bytes in every row. -/
def RowsFit (args : OpenArgs) (geo : FbGeometry) : Prop :=
  args.inFmt.isRgb = true → (forTarget geo.w geo.h args.dstW args.dstH).padded = true →
    geo.w.toNat * 4 ≤ geo.pitch.toNat

instance (args : OpenArgs) (geo : FbGeometry) : Decidable (RowsFit args geo) :=
  inferInstanceAs (Decidable (_ → _))

variable {args : OpenArgs} {geo : FbGeometry} {c : Capture}

/-- The rows of the padded copy end inside the framebuffer copy where a row holds them. -/
theorem row_lt {y i w pitch h : ℕ} (hy : y < h) (hi : i < y * pitch + w * 4)
    (hfit : w * 4 ≤ pitch) : i < pitch * h := by
  have hrow : (y + 1) * pitch ≤ h * pitch := Nat.mul_le_mul_right pitch hy
  rw [Nat.succ_mul, Nat.mul_comm h] at hrow
  omega

/-- A byte that is read lies in a row that fits. -/
theorem lt_of_reads (hc : Laid args geo c) (hfit : RowsFit args geo) {i : ℕ} (h : Reads c i) :
    i < geo.pitch.toNat * geo.h.toNat := by
  rcases h with ⟨dst, src, n, hwr, hle, hlt⟩ | ⟨-, hread⟩
  · unfold Capture.convertIntoInputBuffer at hwr
    rw [hc.rgbIn, hc.padded, hc.frameBytes, hc.w, hc.h, hc.pitch] at hwr
    split at hwr
    next hpad =>
      -- a copy is one of the rows, the bars are no copy
      simp only [List.mem_append, List.mem_map, List.mem_range] at hwr
      rcases hwr with hbars | ⟨y, hy, hrow⟩
      · split at hbars
        · exact absurd hbars List.not_mem_nil
        · cases List.mem_singleton.mp hbars
      · obtain ⟨-, rfl, rfl⟩ := Write.copy.inj hrow
        exact row_lt hy hlt (hfit hpad.1 hpad.2)
    next =>
      split at hwr
      next =>
        obtain ⟨-, rfl, rfl⟩ := Write.copy.inj (List.mem_singleton.mp hwr)
        omega
      next =>
        obtain ⟨a, -, ha⟩ := List.mem_filterMap.mp hwr
        cases a <;> cases ha
  · -- an index out of range panics before the read
    have hok : Access.InRange c.sliceLengths (.readSrc i) := ok_of_mem_performed hread
    have hlen : i < c.fbBuf.length := hok
    rwa [hc.length_fbBuf] at hlen

/-- A padded RGB copy reads the last byte of its last row, wherever that lies. -/
theorem reads_last (hc : Laid args geo c) (hrgb : args.inFmt.isRgb = true)
    (hpad : (forTarget geo.w geo.h args.dstW args.dstH).padded = true) (hpanel : Panel geo) :
    Reads c ((geo.h.toNat - 1) * geo.pitch.toNat + (geo.w.toNat * 4 - 1)) := by
  have hw := hpanel.w
  have hh := hpanel.h
  have hrow : ∃ dst, Write.copy dst ((geo.h.toNat - 1) * geo.pitch.toNat) (geo.w.toNat * 4) ∈
      c.convertIntoInputBuffer.writes := by
    unfold Capture.convertIntoInputBuffer
    rw [hc.rgbIn, hc.padded, hc.w, hc.h, hc.pitch, if_pos ⟨hrgb, hpad⟩]
    exact ⟨_, List.mem_append_right _
      (List.mem_map.mpr ⟨geo.h.toNat - 1, List.mem_range.mpr (by omega), rfl⟩)⟩
  obtain ⟨dst, hmem⟩ := hrow
  exact Or.inl ⟨dst, _, _, hmem, by omega, by omega⟩

/-- Where every read lies inside, the rows fit, or no session ever gets a buffer to read. -/
theorem rowsFit_of_readSafe (hpanel : Panel geo) (hvalid : Validated args geo)
    (hsafe : ReadSafe args geo) :
    RowsFit args geo ∨ vecCapacity ≤ geo.pitch.toNat * geo.h.toNat := by
  by_contra hno
  rw [not_or, Nat.not_le] at hno
  obtain ⟨hfit, hcapacity⟩ := hno
  unfold RowsFit at hfit
  push Not at hfit
  obtain ⟨hrgb, hpad, hshort⟩ := hfit
  have hdepth : validateGeometry geo.w geo.h geo.bpp 0 0 = .ok () := by
    rcases hpanel.bpp with hbpp | hbpp <;>
      · rw [validateGeometry, hbpp]
        rfl
  -- a session that opens, and then reads the last row of the panel
  obtain ⟨w, hinit, hmid⟩ := step_goodInit ⟨hdepth, hvalid.size, hvalid.pitch, hcapacity⟩
  have hlt := hsafe fullLibs (goodInit geo) [] ⟨.ready, w⟩ rfl
    (run_cons_eq_some.mpr ⟨_, hinit, rfl⟩) rfl w.cap rfl _
    (reads_last (laid_of_config (congrArg Capture.config hmid.cap)) hrgb hpad hpanel)
  have hh := hpanel.h
  have hrows : (geo.h.toNat - 1) * geo.pitch.toNat + geo.pitch.toNat =
      geo.pitch.toNat * geo.h.toNat := by
    rw [← Nat.succ_mul, Nat.mul_comm]
    congr 1
    omega
  omega

/-- **Every read of every copy lies inside the framebuffer copy** exactly where an RGB input is not
padded or has 32-bit rows, or the buffer is too large to be allocated at all. -/
theorem readSafe_iff (hpanel : Panel geo) (hvalid : Validated args geo) :
    ReadSafe args geo ↔ RowsFit args geo ∨ vecCapacity ≤ geo.pitch.toNat * geo.h.toNat := by
  constructor
  · exact rowsFit_of_readSafe hpanel hvalid
  -- an open session has a panel whose copy could be allocated
  · rintro hfit libs a calls s hfb hrun hready c hc i hread
    obtain ⟨geo', hfb', haccepts, hconfig⟩ := opened_of_run hrun hready
    obtain rfl : geo = geo' := Except.ok.inj (hfb.symm.trans hfb')
    have hrows : RowsFit args geo :=
      hfit.resolve_right (Nat.not_le.mpr haccepts.capacity)
    exact lt_of_reads (laid_of_config (hc.trans hconfig)) hrows hread

/-- The stream of 1280 by 720 pixels. -/
theorem readSafe_iff_720p : ReadSafe (stream 1280 720) panel := by
  have hpanel : Panel panel := ⟨by decide, by decide, Or.inr rfl, by decide⟩
  have hvalid : Validated (stream 1280 720) panel :=
    ⟨(accepts_panel 1280 720).size, (accepts_panel 1280 720).pitch⟩
  exact (@readSafe_iff (stream 1280 720) panel hpanel hvalid).mpr (Or.inl (by decide))

/-- A 16-bit panel of the same size, opened as RGB for a 720p stream: the last row is read to twice
its length. -/
theorem not_readSafe :
    ¬ ∀ args geo, Panel geo → Validated args geo → ReadSafe args geo := by
  intro hsafe
  have hpanel : Panel ⟨720, 480, 16, 1440⟩ := ⟨by decide, by decide, Or.inl rfl, by decide⟩
  have hvalid : Validated (stream 1280 720) ⟨720, 480, 16, 1440⟩ := by
    refine ⟨rfl, ?_⟩
    unfold validateRgbPitch
    rw [if_neg fun h => h.2.1 (by decide)]
  have hfit := rowsFit_of_readSafe hpanel hvalid (hsafe _ _ hpanel hvalid)
  exact absurd hfit (by decide)

end RgspCast.ReadBounds
