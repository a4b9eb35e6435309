import RgspCast.Cedar.Nv12
import RgspCast.Cedar.ReadBounds
import RgspCast.Lib.Stores

/-!
# The picture in the input surface

Where the panel's pixels are in the surface that the encoder is told about. The vendor hands back
the same allocation for every frame and leaves it alone, so the allocation is a memory that only
the copies of the panel store to, and a `Display` is a capture beside that memory.

`for_target` centres the panel, `init` describes the padded surface to the encoder, and the padded
RGB copy addresses both alike. The NV12 converters know nothing of the padding: they lay the panel
out at the start of the planes, with the panel's own width as the stride (`not_placed`).
`placed_iff` says for which arguments every frame shows the panel where it belongs.
-/

namespace RgspCast.Surface

open Nal Drain RgspCast.Geometry Checked ExceptState RgspCast.Convert Cedar InputBuffer
open ReadBounds Transition

/-! ## The input buffer as a memory -/

/-- The bytes at the offsets from `_vir_y` and from `_vir_uv`. -/
abbrev Memory := Plane × ℕ → UInt8

/-- The byte stores of a write, with the framebuffer copy it reads from. -/
def stores (fb : Bytes) : Write → List ((Plane × ℕ) × UInt8)
  | .fill dst n => (List.range n).map fun i => ((.y, (dst + i) % 2 ^ 64), 0)
  | .copy dst src n => (List.range n).map fun i => ((.y, (dst + i) % 2 ^ 64), fb.getD (src + i) 0)
  | .luma i v => [((.y, i), v)]
  | .chroma i v => [((.uv, i), v)]

/-- The memory after a copy of the panel. -/
def converted (c : Capture) (m : Memory) : Memory :=
  Stores.write m (c.convertIntoInputBuffer.writes.flatMap (stores c.fbBuf))

/-- The writes of a trace, in order. -/
def writesOf (t : List Event) : List Write :=
  t.filterMap fun
    | .write wr => some wr
    | _ => none

/-- A capture and the memory of its input buffer. -/
structure Display where
  session : Session
  mem : Memory

/-- A call stores what it writes. The framebuffer copy is read into before the writes, and not
again in the same call. -/
def Display.step (libs : VendorLibs) (d : Display) (call : Call) : Option Display :=
  (d.session.step libs call).map fun s =>
    { session := s
      mem := Stores.write d.mem
        (((writesOf s.world.trace).drop (writesOf d.session.world.trace).length).flatMap
          (stores s.world.cap.fbBuf)) }

/-! ## What the encoder sees -/

/-- One pixel of a surface: four bytes as they lie in memory, or luma and the chroma of its 2x2
block. -/
inductive Pixel where
  | packed (b₀ b₁ b₂ b₃ : UInt8)
  | yuv (y u v : UInt8)
  deriving DecidableEq, Repr

/-- The pixel at a column and a row of the surface that the encoder is told about. -/
def surfacePixel (cfg : VencBaseConfig) (m : Memory) (col row : ℕ) : Pixel :=
  let stride := cfg.nStride.toNat
  if cfg.eInputFormat.isRgb then
    let i := (row * stride + col) * 4
    .packed (m (.y, i)) (m (.y, i + 1)) (m (.y, i + 2)) (m (.y, i + 3))
  else
    let i := row / 2 * stride + col / 2 * 2
    .yuv (m (.y, row * stride + col)) (m (.uv, i)) (m (.uv, i + 1))

/-- The pixel at a column and a row of the 32-bit panel, in a format's representation. An RGB format
is taken as the panel's own byte order: its bytes are copied as they are. -/
def panelPixel (fmt : VencPixelFmt) (c : Capture) (x y : ℕ) : Pixel :=
  let pitch := c.pitch.toNat
  if fmt.isRgb then
    let i := y * pitch + x * 4
    .packed (c.fbBuf.getD i 0) (c.fbBuf.getD (i + 1) 0) (c.fbBuf.getD (i + 2) 0)
      (c.fbBuf.getD (i + 3) 0)
  else
    let mean := blockMean (bgra c.fbBuf pitch) c.w.toNat c.h.toNat (y / 2 * 2) (x / 2 * 2)
    .yuv (lumaOf ((bgra c.fbBuf pitch).rgb (y, x))) (uOf mean) (vOf mean)

def black (fmt : VencPixelFmt) : Pixel :=
  if fmt.isRgb then .packed 0 0 0 0 else .yuv (lumaOf (0, 0, 0)) (uOf (0, 0, 0)) (vOf (0, 0, 0))

/-- The column and the row lie in the panel's place in the surface. -/
def InPanel (c : Capture) (col row : ℕ) : Prop :=
  (c.padX.toNat ≤ col ∧ col < c.padX.toNat + c.w.toNat) ∧
    c.padY.toNat ≤ row ∧ row < c.padY.toNat + c.h.toNat

/-- The surface shows the panel in its place, and black around it. -/
structure Shows (cfg : VencBaseConfig) (c : Capture) (m : Memory) : Prop where
  inside : c.padX.toNat + c.w.toNat ≤ cfg.nInputWidth.toNat ∧
    c.padY.toNat + c.h.toNat ≤ cfg.nInputHeight.toNat
  panel : ∀ y < c.h.toNat, ∀ x < c.w.toNat,
    surfacePixel cfg m (c.padX.toNat + x) (c.padY.toNat + y) = panelPixel cfg.eInputFormat c x y
  bars : ∀ row < cfg.nInputHeight.toNat, ∀ col < cfg.nInputWidth.toNat, ¬ InPanel c col row →
    surfacePixel cfg m col row = black cfg.eInputFormat

/-- Once a frame was copied, the surface shows the panel after every call. -/
def Placed (args : OpenArgs) (geo : FbGeometry) : Prop :=
  ∀ libs a calls m d, a.fb = .ok geo →
    run (Display.step libs) ⟨.start args, m⟩ (.init a :: calls) = some d →
      writesOf d.session.world.trace ≠ [] →
        Shows (baseConfig args d.session.world.cap) d.session.world.cap d.mem

/-- A 32-bit panel of 16-aligned extents, opened with the stride in pixels. -/
structure Aligned (args : OpenArgs) (geo : FbGeometry) : Prop where
  panel : Panel geo
  bpp : geo.bpp = 32
  w : 16 ∣ geo.w.toNat
  h : 16 ∣ geo.h.toNat
  strideBytes : args.strideBytes = false

/-- The sizes that are asked for do not wrap. -/
def SizesFit (args : OpenArgs) (geo : FbGeometry) : Prop :=
  (if args.inFmt.isRgb then area args geo * 4 else area args geo) < 2 ^ 32

/-- The surface is the panel. -/
def Unpadded (args : OpenArgs) (geo : FbGeometry) : Prop :=
  let p := forTarget geo.w geo.h args.dstW args.dstH
  p.padW = geo.w ∧ p.padH = geo.h

instance (args : OpenArgs) (geo : FbGeometry) : Decidable (SizesFit args geo) :=
  inferInstanceAs (Decidable (_ < _))

instance (args : OpenArgs) (geo : FbGeometry) : Decidable (Unpadded args geo) :=
  inferInstanceAs (Decidable (_ ∧ _))

/-! ## A call copies the panel at most once -/

/-- What the surface depends on: whether the bars are painted, the framebuffer copy, and the writes
so far. -/
structure View where
  barsCleared : Bool
  fbBuf : Bytes
  writes : List Write

def viewOf (w : World) : View := ⟨w.cap.barsCleared, w.cap.fbBuf, writesOf w.trace⟩

/-- The writes of a trace that goes on. -/
theorem writesOf_append (t t' : List Event) : writesOf (t ++ t') = writesOf t ++ writesOf t' :=
  List.filterMap_append

theorem writesOf_map_write (ws : List Write) : writesOf (ws.map .write) = ws := by
  simp [writesOf, List.filterMap_map]

/-- A vendor call writes nothing. -/
theorem writesOf_map_vendor (vs : List VendorCall) : writesOf (vs.map .vendor) = [] := by
  simp [writesOf, List.filterMap_map]

/-- A teardown writes nothing. -/
theorem writesOf_dropped (t : List Event) (libs : VendorLibs) (rc : Int32) (c : Capture) :
    writesOf (t ++ [.dropped] ++ (teardownCalls libs rc c).map .vendor) = writesOf t := by
  rw [writesOf_append, writesOf_append, writesOf_map_vendor, List.append_nil]
  exact List.append_nil _

/-- A step that leaves the surface alone, however it ends. -/
def Steady {α : Type} (m : VendorM α) : Prop :=
  ∀ v, Spec (viewOf · = v) m (fun _ w => viewOf w = v) (fun _ w => viewOf w = v)

section Steady

variable {libs : VendorLibs} {a : NextAnswers}

/-- A change of the capture that leaves the bars and the copy alone. -/
theorem steady_modifyCap {f : Capture → Capture}
    (h : ∀ c, (f c).barsCleared = c.barsCleared ∧ (f c).fbBuf = c.fbBuf) :
    Steady (modifyCap f) := by
  refine fun v => spec_modifyCap fun w hw => ?_
  rw [← hw, viewOf, (h w.cap).1, (h w.cap).2]
  rfl

theorem steady_vendor (c : VendorCall) : Steady (vendor c) := by
  refine fun v => spec_vendor fun w hw => ?_
  rw [← hw, viewOf, writesOf_append]
  exact congrArg (View.mk _ _) (List.append_nil _)

theorem steady_pure {α : Type} (x : α) : Steady (pure x) := fun _ => spec_pure fun _ hw => hw

/-- An error that is remembered. -/
theorem steady_fail {α : Type} (text : String) : Steady (fail (α := α) text) :=
  fun _ => spec_fail fun _ hw => hw

/-- Steady steps one after the other. -/
theorem Steady.bind {α β : Type} {m : VendorM β} {f : β → VendorM α} (hm : Steady m)
    (hf : ∀ b, Steady (f b)) : Steady (m >>= f) :=
  fun v => spec_bind (hm v) fun b => hf b v

/-- A step that looks at the state. -/
theorem steady_get_bind {α : Type} {f : World → VendorM α} (hf : ∀ w, Steady (f w)) :
    Steady (get >>= f) :=
  fun v => spec_get_bind fun w hw => (hf w v).weaken fun _ h => h ▸ hw

theorem steady_when {p : Prop} [Decidable p] {m : VendorM Unit} (hm : Steady m) :
    Steady (when p m) :=
  fun v => spec_when (fun _ => hm v) fun _ _ hw => hw

theorem steady_ite {α : Type} {p : Prop} [Decidable p] {m m' : VendorM α} (hm : Steady m)
    (hm' : Steady m') : Steady (if p then m else m') :=
  fun v => spec_ite (fun _ => hm v) fun _ => hm' v

/-- From the input buffer to the encoded frame nothing is drawn. -/
theorem encodeInput_steady : Steady (encodeInput libs a) := by
  have hforce : Steady (forceKeyFrame libs a) :=
    steady_get_bind fun _ => steady_when <|
      Steady.bind (steady_when (steady_vendor _)) fun _ => steady_modifyCap fun _ => ⟨rfl, rfl⟩
  have hsubmit : Steady (submit a) :=
    steady_get_bind fun _ => Steady.bind (steady_vendor _) fun _ =>
      Steady.bind (steady_vendor _) fun _ => steady_when (steady_fail _)
  have hencode : Steady (encode a) :=
    steady_get_bind fun _ => Steady.bind (steady_vendor _) fun _ =>
      Steady.bind (steady_when (steady_fail _)) fun _ => steady_modifyCap fun _ => ⟨rfl, rfl⟩
  exact Steady.bind (steady_modifyCap fun _ => ⟨rfl, rfl⟩) fun _ =>
    Steady.bind hforce fun _ => Steady.bind hsubmit fun _ => hencode

/-- The parameter sets are fetched without drawing. -/
theorem fetchOnce_steady : Steady (fetchOnce libs a) := by
  have hfetch : Steady (fetchSpsPps libs a.header) :=
    steady_ite (Steady.bind (steady_vendor _) fun _ =>
      steady_ite (Steady.bind (steady_when (steady_vendor _)) fun _ => steady_pure _)
        (steady_pure _)) (steady_pure _)
  exact steady_get_bind fun _ => steady_when <|
    Steady.bind hfetch fun _ => steady_modifyCap fun _ => ⟨rfl, rfl⟩

/-- So is the drain, by induction over the answers. -/
theorem drainLoop_steady (beforeDrain : ℕ) (us : List (Option VencOutputBuffer)) :
    Steady (drainLoop beforeDrain us) := by
  induction us with
  | nil => exact steady_vendor _
  | cons u us ih =>
    cases u with
    | none =>
      exact Steady.bind (steady_vendor _) fun _ => Steady.bind (steady_vendor _) fun _ =>
        steady_get_bind fun _ => steady_when (steady_fail _)
    | some o =>
      exact Steady.bind (steady_vendor _) fun _ => Steady.bind (steady_vendor _) fun _ =>
        Steady.bind (steady_modifyCap fun _ => ⟨rfl, rfl⟩) fun _ =>
          Steady.bind (steady_vendor _) fun _ => ih

theorem collectOutput_steady : Steady (collectOutput libs a) := by
  have hprefix : Steady prefixFirstFrame := by
    refine steady_modifyCap fun c => ?_
    split
    · exact ⟨rfl, rfl⟩
    · exact ⟨rfl, rfl⟩
  exact Steady.bind fetchOnce_steady fun _ => Steady.bind hprefix fun _ =>
    steady_get_bind fun _ => drainLoop_steady _ _

/-- The second half of `next` draws nothing. -/
theorem deliverFrame_steady : Steady (deliverFrame libs a) := by
  have hrecycle : Steady (recycle a.alreadyUsedRc) :=
    Steady.bind (steady_vendor _) fun _ => steady_when (steady_vendor _)
  have hacquire : Steady (acquire a) :=
    Steady.bind (steady_modifyCap fun _ => ⟨rfl, rfl⟩) fun _ =>
      Steady.bind (steady_vendor _) fun _ => steady_when <|
        Steady.bind (steady_modifyCap fun _ => ⟨rfl, rfl⟩) fun _ =>
          steady_get_bind fun _ => steady_fail _
  have hfinish : Steady finishFrame :=
    Steady.bind (steady_modifyCap fun _ => ⟨rfl, rfl⟩) fun _ => steady_get_bind fun _ =>
      Steady.bind (steady_when (steady_modifyCap fun _ => ⟨rfl, rfl⟩)) fun _ =>
        steady_get_bind fun _ => steady_pure _
  exact Steady.bind encodeInput_steady fun _ => Steady.bind collectOutput_steady fun _ =>
    Steady.bind hrecycle fun _ => Steady.bind hacquire fun _ => hfinish

end Steady

/-- A copy of the panel by a capture `c`, between two views. -/
def CopiedBy (c : Capture) (v v' : View) : Prop :=
  c.barsCleared = v.barsCleared ∧ v'.barsCleared = c.convertIntoInputBuffer.barsCleared ∧
    v'.fbBuf = c.fbBuf ∧ v'.writes = v.writes ++ c.convertIntoInputBuffer.writes

/-- From a world on: nothing the surface depends on changed, or one copy took place. -/
def Copies (w w' : World) : Prop :=
  viewOf w' = viewOf w ∨ ∃ c : Capture, c.config = w.cap.config ∧ CopiedBy c (viewOf w) (viewOf w')

section Copies

variable {libs : VendorLibs} {a : NextAnswers} {w : World}

/-- The copy takes place, whether or not it panics on the way. -/
theorem convert_copies :
    Spec (fun w' => w'.cap.config = w.cap.config ∧ w'.cap.barsCleared = w.cap.barsCleared ∧
      writesOf w'.trace = writesOf w.trace) (convert a) (fun _ => Copies w)
      (fun _ => Copies w) := by
  refine spec_get_bind fun u ⟨hconfig, hbars, hwrites⟩ => ?_
  refine spec_bind (R := fun _ w' => w'.cap.fbBuf = u.cap.fbBuf ∧
    writesOf w'.trace = writesOf w.trace ++ u.cap.convertIntoInputBuffer.writes)
    (spec_emit ?_) fun _ => ?_
  · rintro _ rfl
    exact ⟨rfl, by rw [writesOf_append, hwrites, writesOf_map_write]⟩
  · refine spec_bind (R := fun _ => Copies w) (spec_modifyCap fun w' ⟨hbuf, hw'⟩ => ?_) fun _ => ?_
    · exact Or.inr ⟨u.cap, hconfig, hbars, rfl, hbuf, hw'⟩
    · exact spec_bind (R := fun _ => Copies w)
        (spec_when (fun _ => spec_throw fun _ h => h) fun _ _ h => h) fun _ =>
        spec_modifyCap fun _ h => h

/-- The first half draws once, or ends before. -/
theorem copyPanel_copies :
    Spec (· = w) (copyPanel a) (fun _ => Copies w) (fun _ => Copies w) := by
  have hpre : Spec (· = w) (pace a.now) (fun _ w' => w'.cap.config = w.cap.config ∧
      viewOf w' = viewOf w) (fun _ => Copies w) := by
    refine spec_modifyCap ?_
    rintro _ rfl
    exact ⟨rfl, rfl⟩
  refine spec_bind hpre fun _ => spec_bind (R := fun _ w' => w'.cap.config = w.cap.config ∧
    viewOf w' = viewOf w) (spec_modifyCap fun _ h => h) fun _ => ?_
  refine spec_bind (R := fun _ w' => w'.cap.config = w.cap.config ∧
    w'.cap.barsCleared = w.cap.barsCleared ∧ writesOf w'.trace = writesOf w.trace)
    (spec_get_bind fun u ⟨hconfig, hview⟩ => ?_) fun _ => convert_copies
  -- a read that fails comes before anything is written to the surface
  cases hread : readVisible u.cap.fbBuf a.read with
  | ok r =>
    refine spec_modifyCap ?_
    rintro _ rfl
    exact ⟨(config_eq_of_core_eq (core_setFbBuf (length_readVisible hread))).trans hconfig,
      congrArg View.barsCleared hview, congrArg View.writes hview⟩
  | error e =>
    refine spec_bind (R := fun _ w' => viewOf w' = viewOf w) (spec_modifyCap ?_) fun _ =>
      spec_fail fun _ h => Or.inl h
    rintro _ rfl
    exact hview

/-- What is done without drawing after a copy. -/
theorem Copies.of_view {w w' w'' : World} (h : Copies w w') (hview : viewOf w'' = viewOf w') :
    Copies w w'' := by
  unfold Copies
  rw [hview]
  exact h

/-- A call of `next` draws at most once. -/
theorem nextLive_copies :
    Spec (· = w) (nextLive libs a) (fun _ => Copies w) (fun _ => Copies w) := by
  refine spec_bind copyPanel_copies fun _ w' hcopies => ?_
  have hsame := @deliverFrame_steady libs a (viewOf w') w' rfl
  cases hrun : deliverFrame libs a w' with
  | ok f w'' =>
    rw [hrun] at hsame
    exact hcopies.of_view hsame
  | error e w'' =>
    rw [hrun] at hsame
    exact hcopies.of_view hsame

/-- An event that writes nothing. -/
theorem viewOf_emit {e : Event} (he : writesOf [e] = []) : viewOf (w.emit e) = viewOf w := by
  have hwrites : writesOf (w.emit e).trace = writesOf w.trace := by
    rw [World.emit, writesOf_append, he, List.append_nil]
  unfold viewOf
  rw [hwrites]
  rfl

/-- The same for the session behind the call. -/
theorem copies_ofNext : Copies w (Session.ofNext (nextLive libs a w)).world := by
  cases hrun : nextLive libs a w with
  | ok f w' => exact (nextLive_copies.of_ok rfl hrun).of_view (viewOf_emit rfl)
  | error e w' =>
    cases e with
    | err text => exact (nextLive_copies.of_error rfl hrun).of_view (viewOf_emit rfl)
    | panic => exact nextLive_copies.of_error rfl hrun

end Copies

/-- **A call past `init` copies the panel at most once**, and nothing else changes the surface. -/
theorem copies_of_step {libs : VendorLibs} {s s' : Session} {call : Call}
    (h : s.step libs call = some s') (hopen : ∀ args, s.phase ≠ .opening args) :
    Copies s.world s'.world := by
  have hnext : ∀ a, s.phase = .ready → s.world.cap.failed = none →
      s.step libs (.next a) = some s' → Copies s.world s'.world := by
    intro a hphase hlive hstep
    rw [Session.step, if_pos hphase, next_of_live hlive] at hstep
    rw [← Option.some.inj hstep]
    exact copies_ofNext
  cases steps_of_step h with
  | opened hphase _ | gaveUp hphase _ => exact absurd hphase (hopen _)
  | refused hphase hfailed => exact Or.inl (viewOf_emit rfl)
  | returned hphase hlive _ | failed hphase hlive _ | panicked hphase hlive _ =>
    exact hnext _ hphase hlive h
  | requested hphase => exact Or.inl rfl
  | dropped hphase => exact Or.inl (congrArg (View.mk _ _) (writesOf_dropped _ _ _ _))

/-! ## What a copy stores -/

variable {args : OpenArgs} {geo : FbGeometry} {c : Capture} {m : Memory}

/-- What a copy stores, byte by byte, at addresses that wrap. -/
theorem mem_stores_copy {fb : Bytes} {dst src n : ℕ} {a : Plane × ℕ} {v : UInt8} :
    (a, v) ∈ stores fb (.copy dst src n) ↔
      ∃ i < n, a = (.y, (dst + i) % 2 ^ 64) ∧ v = fb.getD (src + i) 0 := by
  simp [stores, eq_comm]

/-- The store to a byte of a plane. -/
def storeTo : Plane → ℕ → UInt8 → Access
  | .y => .storeY
  | .uv => .storeUv

/-- The stores of a conversion are those of its accesses. -/
theorem mem_stores_access {fb : Bytes} {as : List Access} {pl : Plane} {i : ℕ} {v : UInt8} :
    ((pl, i), v) ∈ (as.filterMap Write.ofAccess).flatMap (stores fb) ↔ storeTo pl i v ∈ as := by
  simp only [List.mem_flatMap, List.mem_filterMap]
  constructor
  · rintro ⟨wr, ⟨a, ha, hwr⟩, hmem⟩
    cases a with
    | storeY j u | storeUv j u =>
      obtain rfl := Option.some.inj hwr
      simp only [stores, List.mem_singleton, Prod.mk.injEq] at hmem
      obtain ⟨⟨rfl, rfl⟩, rfl⟩ := hmem
      exact ha
    | _ => cases hwr
  · intro h
    cases pl with
    | y => exact ⟨.luma i v, ⟨_, h, rfl⟩, List.mem_singleton_self _⟩
    | uv => exact ⟨.chroma i v, ⟨_, h, rfl⟩, List.mem_singleton_self _⟩

/-- A position of a row-major layout is one row and one column. -/
theorem rowMajor_inj {n x x' y y' : ℕ} (hx : x < n) (hx' : x' < n)
    (h : y * n + x = y' * n + x') : y = y' ∧ x = x' := by
  have := congrArg (pixelAt n) h
  rw [pixelAt_mul_add hx, pixelAt_mul_add hx'] at this
  exact Prod.mk.inj this

/-- Four bytes that agree one by one make the same pixel. -/
theorem packed_congr (g g' : ℕ → UInt8) (h : ∀ k < 4, g k = g' k) :
    Pixel.packed (g 0) (g 1) (g 2) (g 3) = .packed (g' 0) (g' 1) (g' 2) (g' 3) := by
  rw [h 0 (by omega), h 1 (by omega), h 2 (by omega), h 3 (by omega)]

/-! ### The conversion to NV12 -/

/-- A conversion without RGB passthrough stores what its accesses say. -/
theorem converted_nv12 (hc : Laid args geo c) (hrgb : args.inFmt.isRgb = false) :
    converted c m = Stores.write m
      (((performed (Access.InRange c.sliceLengths) c.convertAccesses).filterMap
        Write.ofAccess).flatMap (stores c.fbBuf)) := by
  unfold converted Capture.convertIntoInputBuffer
  rw [hc.rgbIn, hrgb]
  rfl

/-- The panel of an aligned capture is read with 32 bits. -/
theorem convertAccesses_of_aligned (hc : Laid args geo c) (haligned : Aligned args geo) :
    c.convertAccesses = nv12 (bgra c.fbBuf geo.pitch.toNat) geo.w.toNat geo.h.toNat := by
  rw [convertAccesses_eq hc, if_pos haligned.bpp]

/-- Past the panel's own pixels a conversion leaves the luma plane alone. -/
theorem converted_luma_of_le (hc : Laid args geo c) (haligned : Aligned args geo)
    (hrgb : args.inFmt.isRgb = false) {i : ℕ} (hi : geo.w.toNat * geo.h.toNat ≤ i) :
    converted c m (.y, i) = m (.y, i) := by
  rw [converted_nv12 hc hrgb]
  refine Stores.write_of_notMem ?_
  rintro ⟨a, v⟩ hmem rfl
  have hstore := mem_of_mem_performed (mem_stores_access.mp hmem)
  rw [convertAccesses_of_aligned hc haligned] at hstore
  exact absurd (storeY_mem_nv12_iff.mp hstore).1 (Nat.not_lt.mpr hi)

/-- The format is a part of the configuration. -/
theorem inFmt_of_config {now : ℤ} (h : c.config = (opened args geo now).config) :
    c.inFmt = args.inFmt :=
  (congrArg Capture.inFmt h :)

/-- The rows of a 32-bit panel hold its pixels. -/
theorem Aligned.pitch (h : Aligned args geo) : geo.w.toNat * 4 ≤ geo.pitch.toNat := by
  have hpitch := h.panel.pitch
  rw [h.bpp] at hpitch
  have hbpp : (32 : UInt32).toNat = 32 := rfl
  rw [hbpp] at hpitch
  omega

/-- The padded surface covers the panel. -/
theorem Aligned.covers (h : Aligned args geo) :
    geo.w ≤ (forTarget geo.w geo.h args.dstW args.dstH).padW ∧
      geo.h ≤ (forTarget geo.w geo.h args.dstW args.dstH).padH :=
  covers_of_aligned args.dstW args.dstH h.w h.h

/-- The panel fits into its surface. -/
theorem Aligned.le_pad (hc : Laid args geo c) (h : Aligned args geo) :
    geo.w.toNat ≤ c.padW.toNat ∧ geo.h.toNat ≤ c.padH.toNat := by
  rw [hc.padW, hc.padH]
  exact ⟨toNat_le h.covers.1, toNat_le h.covers.2⟩

/-- The panel is centred in its surface. -/
theorem Aligned.centred (hc : Laid args geo c) (h : Aligned args geo) :
    c.padX.toNat = (c.padW.toNat - geo.w.toNat) / 2 ∧
      c.padY.toNat = (c.padH.toNat - geo.h.toNat) / 2 := by
  rw [hc.padX, hc.padY, hc.padW, hc.padH]
  exact centred_of_shape (forTarget_shape _ _ _ _) h.covers.1 h.covers.2

/-- The stride told to the encoder is the width of the surface. -/
theorem nStride_eq (hc : Laid args geo c) (haligned : Aligned args geo) :
    (baseConfig args c).nStride = c.padW := by
  unfold baseConfig
  dsimp only
  split
  next => rfl
  next hpad =>
    rw [haligned.strideBytes, if_neg Bool.false_ne_true, hc.w, hc.padW]
    rw [hc.padded] at hpad
    have hshape := forTarget_shape geo.w geo.h args.dstW args.dstH
    generalize forTarget geo.w geo.h args.dstW args.dstH = p at hshape hpad
    cases hshape with
    | plain => rfl
    | wide => exact absurd rfl hpad
    | tall => exact absurd rfl hpad

/-- Every pixel of an aligned panel can be read. -/
theorem pixelIn_of_aligned (hc : Laid args geo c) (haligned : Aligned args geo) :
    ∀ y < geo.h.toNat, ∀ x < geo.w.toNat,
      PixelIn (bgra c.fbBuf geo.pitch.toNat) c.sliceLengths (y, x) :=
  pixelIn_bgra hc.length_fbBuf (Nat.mul_comm geo.w.toNat 4 ▸ haligned.pitch)

/-- The conversion of a panel that is its own surface runs to its end. -/
theorem performed_of_unpadded (hc : Laid args geo c) (haligned : Aligned args geo)
    (hplain : Unpadded args geo) :
    performed (Access.InRange c.sliceLengths) c.convertAccesses =
      nv12 (bgra c.fbBuf geo.pitch.toNat) geo.w.toNat geo.h.toNat := by
  have hw := haligned.w
  have hh := haligned.h
  -- with no bars the planes are exactly as large as the panel
  have hy : c.sliceLengths.y = geo.w.toNat * geo.h.toNat := by
    unfold Capture.sliceLengths
    rw [hc.padW, hc.padH, hplain.1, hplain.2]
  have huv : c.sliceLengths.uv = geo.w.toNat * geo.h.toNat / 2 := by
    unfold Capture.sliceLengths
    rw [hc.padW, hc.padH, hplain.1, hplain.2]
  have hhalf : geo.h.toNat / 2 * geo.w.toNat = geo.w.toNat * geo.h.toNat / 2 := by
    rw [Nat.mul_comm, Nat.mul_div_assoc _ (by omega)]
  rw [convertAccesses_of_aligned hc haligned]
  refine performed_eq_self (forall_nv12 (rowsIn_bgra hc.length_fbBuf)
    (pixelIn_of_aligned hc haligned) (by omega) (by omega) ?_ ?_)
  · exact Nat.le_of_eq (by rw [hy, Nat.mul_comm])
  · exact Nat.le_of_eq (by rw [huv, hhalf])

/-- The luma of a panel that is its own surface. -/
theorem converted_luma (hc : Laid args geo c) (haligned : Aligned args geo)
    (hplain : Unpadded args geo) (hrgb : args.inFmt.isRgb = false) {y x : ℕ}
    (hy : y < geo.h.toNat) (hx : x < geo.w.toNat) :
    converted c m (.y, y * geo.w.toNat + x) =
      lumaOf ((bgra c.fbBuf geo.pitch.toNat).rgb (y, x)) := by
  rw [converted_nv12 hc hrgb, performed_of_unpadded hc haligned hplain]
  refine Stores.write_of_mem ⟨(_, _), mem_stores_access.mpr (storeY_mem_nv12_iff.mpr
    ⟨rowMajor_lt hy hx, rfl⟩), rfl⟩ ?_
  rintro ⟨a, v⟩ hmem rfl
  obtain ⟨-, rfl⟩ := storeY_mem_nv12_iff.mp (mem_stores_access.mp hmem)
  exact congrArg (fun q => lumaOf ((bgra c.fbBuf geo.pitch.toNat).rgb q)) (pixelAt_mul_add hx)

/-- Byte `r` of the chroma of a block of a panel that is its own surface. -/
theorem converted_chroma (hc : Laid args geo c) (haligned : Aligned args geo)
    (hplain : Unpadded args geo) (hrgb : args.inFmt.isRgb = false) {k j r : ℕ}
    (hk : 2 * k < geo.h.toNat) (hj : 2 * j < geo.w.toNat) (hr : r < 2) :
    converted c m (.uv, k * geo.w.toNat + (2 * j + r)) = (if r = 0 then uOf else vOf)
      (blockMean (bgra c.fbBuf geo.pitch.toNat) geo.w.toNat geo.h.toNat (2 * k) (2 * j)) := by
  have hw := haligned.w
  have hh := haligned.h
  have hw2 : 2 ∣ geo.w.toNat := by omega
  have hh2 : 2 ∣ geo.h.toNat := by omega
  have hx : 2 * j + r < geo.w.toNat := by omega
  rw [converted_nv12 hc hrgb, performed_of_unpadded hc haligned hplain,
    blockMean_eq (by omega) (by omega)]
  refine Stores.write_of_mem ⟨(_, _), mem_stores_access.mpr ((storeUv_mem_nv12_iff hw2 hh2).mpr
    ⟨rowMajor_lt (by omega) hx, rfl⟩), rfl⟩ ?_
  rintro ⟨a, v⟩ hmem rfl
  obtain ⟨-, rfl⟩ := (storeUv_mem_nv12_iff hw2 hh2).mp (mem_stores_access.mp hmem)
  exact chromaAt_mul_add hx hr

/-- A surface that is the panel has no bars. -/
theorem inPanel_of_eq (hc : Laid args geo c) (hpadW : c.padW = geo.w) (hpadH : c.padH = geo.h)
    (hpadX : c.padX.toNat = 0) (hpadY : c.padY.toNat = 0) {row col : ℕ} (hrow : row < c.padH.toNat)
    (hcol : col < c.padW.toNat) : InPanel c col row := by
  unfold InPanel
  rw [hpadX, hpadY, hc.w, hc.h, Nat.zero_add, Nat.zero_add]
  exact ⟨⟨Nat.zero_le _, hpadW ▸ hcol⟩, Nat.zero_le _, hpadH ▸ hrow⟩

/-- Where the surface is the panel, a conversion shows the panel. -/
theorem shows_nv12 (hc : Laid args geo c) (hfmt : c.inFmt = args.inFmt)
    (haligned : Aligned args geo) (hplain : Unpadded args geo)
    (hrgb : args.inFmt.isRgb = false) : Shows (baseConfig args c) c (converted c m) := by
  have hno : ¬ c.inFmt.isRgb = true := by
    rw [hfmt]
    exact Bool.eq_false_iff.mp hrgb
  -- nothing is padded, so the panel starts in the corner
  have hpadW : c.padW = geo.w := hc.padW.trans hplain.1
  have hpadH : c.padH = geo.h := hc.padH.trans hplain.2
  obtain ⟨hpadX, hpadY⟩ := haligned.centred hc
  rw [hpadW, Nat.sub_self, Nat.zero_div] at hpadX
  rw [hpadH, Nat.sub_self, Nat.zero_div] at hpadY
  have hinW : (baseConfig args c).nInputWidth = geo.w := hpadW
  have hinH : (baseConfig args c).nInputHeight = geo.h := hpadH
  have hin : (baseConfig args c).eInputFormat = c.inFmt := rfl
  have hw := haligned.w
  have hh := haligned.h
  refine ⟨?_, ?_, ?_⟩
  · rw [hinW, hinH, hpadX, hpadY, hc.w, hc.h]
    omega
  · intro y hy x hx
    rw [hc.h] at hy
    rw [hc.w] at hx
    have hk : 2 * (y / 2) < geo.h.toNat := by omega
    have hj : 2 * (x / 2) < geo.w.toNat := by omega
    -- the two chroma bytes of the pixel's block
    have hu := converted_chroma (m := m) hc haligned hplain hrgb hk hj Nat.two_pos
    have hv := converted_chroma (m := m) hc haligned hplain hrgb hk hj Nat.one_lt_two
    rw [Nat.add_zero, if_pos rfl] at hu
    rw [← Nat.add_assoc, if_neg Nat.one_ne_zero] at hv
    unfold surfacePixel panelPixel
    rw [hin, if_neg hno, if_neg hno, nStride_eq hc haligned, hpadW, hpadX, hpadY, hc.pitch, hc.w,
      hc.h]
    simp only [Nat.zero_add]
    rw [converted_luma hc haligned hplain hrgb hy hx, Nat.mul_comm (x / 2), Nat.mul_comm (y / 2) 2,
      hu, hv]
  -- there is no place outside the panel
  · intro row hrow col hcol hout
    exact absurd (inPanel_of_eq hc hpadW hpadH hpadX hpadY hrow hcol) hout

/-! ### The copies of an RGB panel -/

/-- The rows of the padded copy. -/
def rowWrites (c : Capture) : List Write :=
  (List.range c.h.toNat).map fun y =>
    Write.copy (((c.padY.toNat * (c.padW.toNat * 4) + c.padX.toNat * 4) % 2 ^ 64 +
      y * (c.padW.toNat * 4)) % 2 ^ 64) (y * c.pitch.toNat) (c.w.toNat * 4)

/-- The memory once the bars are painted. -/
def painted (c : Capture) (m : Memory) : Memory :=
  if c.barsCleared then m
  else Stores.write m (stores c.fbBuf (.fill 0 (c.padW.toNat * 4 * c.padH.toNat % 2 ^ 64)))

/-- A padded surface is painted black and then gets the rows of the panel. -/
theorem converted_padded (hc : Laid args geo c) (hrgb : args.inFmt.isRgb = true)
    (hpad : (forTarget geo.w geo.h args.dstW args.dstH).padded = true) :
    converted c m = Stores.write (painted c m) ((rowWrites c).flatMap (stores c.fbBuf)) := by
  have hwrites : c.convertIntoInputBuffer.writes =
      (if c.barsCleared then []
        else [Write.fill 0 (c.padW.toNat * 4 * c.padH.toNat % 2 ^ 64)]) ++ rowWrites c := by
    unfold Capture.convertIntoInputBuffer
    rw [hc.rgbIn, hrgb, hc.padded, hpad]
    rfl
  rw [converted, hwrites, List.flatMap_append, Stores.write_append]
  unfold painted
  split
  · rfl
  · rw [List.flatMap_singleton]

/-- The bytes of the panel's rows, in the centre of a surface whose size does not wrap. -/
theorem mem_rowStores (hc : Laid args geo c) (haligned : Aligned args geo)
    (hfits : area args geo * 4 < 2 ^ 32) {a : Plane × ℕ} {v : UInt8} :
    (a, v) ∈ (rowWrites c).flatMap (stores c.fbBuf) ↔
      ∃ y < geo.h.toNat, ∃ i < geo.w.toNat * 4,
        a = (.y, (c.padY.toNat + y) * (c.padW.toNat * 4) + (c.padX.toNat * 4 + i)) ∧
          v = c.fbBuf.getD (y * geo.pitch.toNat + i) 0 := by
  -- below 2^32 bytes none of the `usize` sums wraps
  have haddr : ∀ y < geo.h.toNat, ∀ i < geo.w.toNat * 4,
      (((c.padY.toNat * (c.padW.toNat * 4) + c.padX.toNat * 4) % 2 ^ 64 +
        y * (c.padW.toNat * 4)) % 2 ^ 64 + i) % 2 ^ 64 =
      (c.padY.toNat + y) * (c.padW.toNat * 4) + (c.padX.toNat * 4 + i) := by
    intro y hy i hi
    obtain ⟨hpadX, hpadY⟩ := haligned.centred hc
    obtain ⟨hcw, hch⟩ := haligned.le_pad hc
    have hlt := centred_row_lt hcw hch hy hi
    rw [← hpadX, ← hpadY] at hlt
    have harea : c.padW.toNat * c.padH.toNat = area args geo := by
      rw [hc.padW, hc.padH]
      rfl
    rw [harea] at hlt
    rw [Nat.add_mul]
    omega
  simp only [rowWrites, List.flatMap_map, List.mem_flatMap, List.mem_range, mem_stores_copy,
    hc.h, hc.w, hc.pitch]
  refine exists_congr fun y => and_congr_right fun hy => exists_congr fun i =>
    and_congr_right fun hi => ?_
  rw [haddr y hy i hi]

/-- The byte `k` of a pixel of the surface. -/
theorem byte_eq (row col n k : ℕ) : (row * n + col) * 4 + k = row * (n * 4) + (col * 4 + k) := by
  rw [Nat.add_mul, Nat.mul_assoc, Nat.add_assoc]

/-- The bytes of the panel's pixels. -/
theorem converted_row (hc : Laid args geo c) (haligned : Aligned args geo)
    (hfits : area args geo * 4 < 2 ^ 32) (hrgb : args.inFmt.isRgb = true)
    (hpad : (forTarget geo.w geo.h args.dstW args.dstH).padded = true) {y x k : ℕ}
    (hy : y < geo.h.toNat) (hx : x < geo.w.toNat) (hk : k < 4) :
    converted c m (.y, ((c.padY.toNat + y) * c.padW.toNat + (c.padX.toNat + x)) * 4 + k) =
      c.fbBuf.getD (y * geo.pitch.toNat + x * 4 + k) 0 := by
  have hpadX := (haligned.centred hc).1
  have hcover := (haligned.le_pad hc).1
  rw [converted_padded hc hrgb hpad, byte_eq]
  refine Stores.write_of_mem ⟨(_, _), (mem_rowStores hc haligned hfits).mpr
    ⟨y, hy, x * 4 + k, by omega, ?_, rfl⟩, rfl⟩ ?_
  · rw [Nat.add_mul c.padX.toNat, Nat.add_assoc]
  · rintro ⟨a, v⟩ hmem rfl
    obtain ⟨y', -, i, hi, ha, rfl⟩ := (mem_rowStores hc haligned hfits).mp hmem
    obtain ⟨hyy, hii⟩ := rowMajor_inj (by omega) (by omega) (Prod.mk.inj ha).2
    obtain rfl : y = y' := by omega
    obtain rfl : i = x * 4 + k := by omega
    rw [Nat.add_assoc]

/-- Outside the panel's place a copy leaves what was painted. -/
theorem converted_outside (hc : Laid args geo c) (haligned : Aligned args geo)
    (hfits : area args geo * 4 < 2 ^ 32) (hrgb : args.inFmt.isRgb = true)
    (hpad : (forTarget geo.w geo.h args.dstW args.dstH).padded = true) {row col k : ℕ}
    (hcol : col < c.padW.toNat) (hout : ¬ InPanel c col row) (hk : k < 4) :
    converted c m (.y, (row * c.padW.toNat + col) * 4 + k) =
      painted c m (.y, (row * c.padW.toNat + col) * 4 + k) := by
  have hpadX := (haligned.centred hc).1
  have hcover := (haligned.le_pad hc).1
  rw [converted_padded hc hrgb hpad, byte_eq]
  refine Stores.write_of_notMem ?_
  rintro ⟨a, v⟩ hmem rfl
  obtain ⟨y, hy, i, hi, ha, -⟩ := (mem_rowStores hc haligned hfits).mp hmem
  obtain ⟨hrow, hbyte⟩ := rowMajor_inj (by omega) (by omega) (Prod.mk.inj ha).2
  rw [← hc.w] at hi
  rw [← hc.h] at hy
  refine hout ⟨⟨?_, ?_⟩, ?_, ?_⟩ <;> omega

/-- The first copy paints every byte of the surface black. -/
theorem painted_first (hc : Laid args geo c) (hfits : area args geo * 4 < 2 ^ 32)
    (hbars : c.barsCleared = false) {row col k : ℕ} (hrow : row < c.padH.toNat)
    (hcol : col < c.padW.toNat) (hk : k < 4) :
    painted c m (.y, (row * c.padW.toNat + col) * 4 + k) = 0 := by
  have hlt : (row * c.padW.toNat + col) * 4 + k < c.padW.toNat * 4 * c.padH.toNat := by
    have hrows : (row + 1) * (c.padW.toNat * 4) ≤ c.padH.toNat * (c.padW.toNat * 4) :=
      Nat.mul_le_mul_right _ hrow
    rw [Nat.succ_mul, Nat.mul_comm c.padH.toNat] at hrows
    rw [byte_eq]
    omega
  have harea : c.padW.toNat * 4 * c.padH.toNat = area args geo * 4 := by
    rw [hc.padW, hc.padH, Nat.mul_right_comm]
    rfl
  unfold painted
  rw [hbars, if_neg Bool.false_ne_true, Nat.mod_eq_of_lt (by omega)]
  -- every byte of the surface is among those cleared, and all are cleared to zero
  refine Stores.write_of_mem ⟨(_, _), List.mem_map.mpr
    ⟨(row * c.padW.toNat + col) * 4 + k, List.mem_range.mpr hlt, rfl⟩, ?_⟩ ?_
  · dsimp only
    rw [Nat.zero_add, Nat.mod_eq_of_lt (by omega)]
  · rintro ⟨a, v⟩ hmem -
    obtain ⟨i, -, hi⟩ := List.mem_map.mp hmem
    exact (Prod.mk.inj hi).2.symm

/-- The bars of the surface are black. -/
def BarsBlack (args : OpenArgs) (c : Capture) (m : Memory) : Prop :=
  ∀ row < c.padH.toNat, ∀ col < c.padW.toNat, ¬ InPanel c col row →
    surfacePixel (baseConfig args c) m col row = black c.inFmt

/-- A padded copy shows the panel, if the bars are black or still to be painted. -/
theorem shows_padded (hc : Laid args geo c) (hfmt : c.inFmt = args.inFmt)
    (haligned : Aligned args geo) (hfits : area args geo * 4 < 2 ^ 32)
    (hrgb : args.inFmt.isRgb = true)
    (hpad : (forTarget geo.w geo.h args.dstW args.dstH).padded = true)
    (hbars : c.barsCleared = true → BarsBlack args c m) :
    Shows (baseConfig args c) c (converted c m) := by
  have hfmtRgb : c.inFmt.isRgb = true := hfmt ▸ hrgb
  have hin : (baseConfig args c).eInputFormat = c.inFmt := rfl
  obtain ⟨hpadX, hpadY⟩ := haligned.centred hc
  obtain ⟨hcw, hch⟩ := haligned.le_pad hc
  refine ⟨⟨?_, ?_⟩, ?_, ?_⟩
  · show c.padX.toNat + c.w.toNat ≤ c.padW.toNat
    rw [hc.w]
    omega
  · show c.padY.toNat + c.h.toNat ≤ c.padH.toNat
    rw [hc.h]
    omega
  · intro y hy x hx
    rw [hc.h] at hy
    rw [hc.w] at hx
    unfold surfacePixel panelPixel
    rw [hin, if_pos hfmtRgb, if_pos hfmtRgb, nStride_eq hc haligned, hc.pitch]
    exact packed_congr (fun k => converted c m (.y, _ + k)) (fun k => c.fbBuf.getD (_ + k) 0)
      fun k hk => converted_row hc haligned hfits hrgb hpad hy hx hk
  · intro row hrow col hcol hout
    have hkeep := fun k hk => converted_outside (m := m) (k := k) hc haligned hfits hrgb hpad
      hcol hout hk
    cases hcleared : c.barsCleared with
    -- an earlier copy has painted the bars, and this one leaves them
    | true =>
      refine Eq.trans ?_ (hbars hcleared row hrow col hcol hout)
      unfold surfacePixel
      rw [hin, if_pos hfmtRgb, if_pos hfmtRgb, nStride_eq hc haligned]
      refine packed_congr (fun k => converted c m (.y, (row * c.padW.toNat + col) * 4 + k))
        (fun k => m (.y, (row * c.padW.toNat + col) * 4 + k)) fun k hk => ?_
      rw [hkeep k hk, painted, if_pos hcleared]
    -- the first copy paints the whole surface before it places the rows
    | false =>
      unfold surfacePixel black
      rw [hin, if_pos hfmtRgb, if_pos hfmtRgb, nStride_eq hc haligned]
      refine packed_congr (fun k => converted c m (.y, (row * c.padW.toNat + col) * 4 + k))
        (fun _ => 0) fun k hk => ?_
      rw [hkeep k hk, painted_first hc hfits hcleared hrow hcol hk]

/-- An unpadded copy takes the framebuffer copy over byte by byte. -/
theorem converted_plain (hc : Laid args geo c) (hrgb : args.inFmt.isRgb = true)
    (hpad : (forTarget geo.w geo.h args.dstW args.dstH).padded = false)
    (hsmall : geo.pitch.toNat * geo.h.toNat < 2 ^ 64) {i : ℕ}
    (hi : i < geo.pitch.toNat * geo.h.toNat) :
    converted c m (.y, i) = c.fbBuf.getD i 0 := by
  have hwrites : c.convertIntoInputBuffer.writes =
      [.copy 0 0 (geo.pitch.toNat * geo.h.toNat)] := by
    unfold Capture.convertIntoInputBuffer
    rw [hc.rgbIn, hrgb, hc.padded, hpad, hc.frameBytes]
    rfl
  rw [converted, hwrites, List.flatMap_singleton]
  refine Stores.write_of_mem ⟨(_, _), mem_stores_copy.mpr ⟨i, hi, rfl, rfl⟩, ?_⟩ ?_
  · rw [Nat.zero_add, Nat.mod_eq_of_lt (by omega)]
  · rintro ⟨a, v⟩ hmem rfl
    obtain ⟨j, hj, ha, rfl⟩ := mem_stores_copy.mp hmem
    rw [Nat.zero_add, Nat.mod_eq_of_lt (by omega)] at ha
    rw [(Prod.mk.inj ha).2, Nat.zero_add]

/-- An unpadded copy shows the panel: its rows have no gap. -/
theorem shows_plain (hc : Laid args geo c) (hfmt : c.inFmt = args.inFmt)
    (haccepts : Accepts args geo) (haligned : Aligned args geo)
    (hfits : area args geo * 4 < 2 ^ 32) (hrgb : args.inFmt.isRgb = true)
    (hpad : (forTarget geo.w geo.h args.dstW args.dstH).padded = false) :
    Shows (baseConfig args c) c (converted c m) := by
  have hfmtRgb : c.inFmt.isRgb = true := hfmt ▸ hrgb
  have hin : (baseConfig args c).eInputFormat = c.inFmt := rfl
  obtain ⟨hplain, hpitch⟩ := plain_of_accepts haccepts hrgb hpad
  have hpadW : c.padW = geo.w := hc.padW.trans (congrArg Pillarbox.padW hplain)
  have hpadH : c.padH = geo.h := hc.padH.trans (congrArg Pillarbox.padH hplain)
  have hpadX : c.padX = 0 := hc.padX.trans (congrArg Pillarbox.padX hplain)
  have hpadY : c.padY = 0 := hc.padY.trans (congrArg Pillarbox.padY hplain)
  -- a row of 32-bit pixels does not wrap
  have hbytes : geo.pitch.toNat = geo.w.toNat * 4 := by
    have hle := haligned.pitch
    rw [hpitch, UInt32.toNat_mul] at hle ⊢
    have hfour : (4 : UInt32).toNat = 4 := rfl
    rw [hfour] at hle ⊢
    omega
  have harea : geo.pitch.toNat * geo.h.toNat = area args geo * 4 := by
    rw [area, hplain, hbytes, Nat.mul_right_comm]
  have hinW : (baseConfig args c).nInputWidth = geo.w := hpadW
  have hinH : (baseConfig args c).nInputHeight = geo.h := hpadH
  refine ⟨?_, ?_, ?_⟩
  · rw [hinW, hinH, hpadX, hpadY, hc.w, hc.h]
    exact ⟨Nat.le_of_eq (Nat.zero_add _), Nat.le_of_eq (Nat.zero_add _)⟩
  · intro y hy x hx
    rw [hc.h] at hy
    rw [hc.w] at hx
    unfold surfacePixel panelPixel
    rw [hin, if_pos hfmtRgb, if_pos hfmtRgb, nStride_eq hc haligned, hpadW, hpadX, hpadY, hc.pitch]
    simp only [UInt32.toNat_zero, Nat.zero_add]
    have hfirst : (y * geo.w.toNat + x) * 4 = y * geo.pitch.toNat + x * 4 := by
      rw [hbytes, Nat.add_mul, Nat.mul_assoc]
    rw [hfirst]
    refine packed_congr (fun k => converted c m (.y, y * geo.pitch.toNat + x * 4 + k))
      (fun k => c.fbBuf.getD (y * geo.pitch.toNat + x * 4 + k) 0) fun k hk => ?_
    exact converted_plain hc hrgb hpad (by omega) (row_lt hy (by omega) (Nat.le_of_eq hbytes.symm))
  · intro row hrow col hcol hout
    exact absurd (inPanel_of_eq hc hpadW hpadH (congrArg UInt32.toNat hpadX)
      (congrArg UInt32.toNat hpadY) hrow hcol) hout

/-- The encoder's configuration is made of the capture's. -/
theorem baseConfig_congr {c' : Capture} (h : c'.config = c.config) :
    baseConfig args c' = baseConfig args c := by
  have hw : c'.w = c.w := (congrArg Capture.w h :)
  have hpitch : c'.pitch = c.pitch := (congrArg Capture.pitch h :)
  have hfmt : c'.inFmt = c.inFmt := (congrArg Capture.inFmt h :)
  have hpadW : c'.padW = c.padW := (congrArg Capture.padW h :)
  have hpadH : c'.padH = c.padH := (congrArg Capture.padH h :)
  have hpadded : c'.padded = c.padded := (congrArg Capture.padded h :)
  unfold baseConfig
  rw [hpadW, hpadH, hpadded, hpitch, hw, hfmt]

/-- So is the place of the panel on the surface. -/
theorem inPanel_congr {c' : Capture} (h : c'.config = c.config) (col row : ℕ) :
    InPanel c' col row ↔ InPanel c col row := by
  have hw : c'.w = c.w := (congrArg Capture.w h :)
  have hh : c'.h = c.h := (congrArg Capture.h h :)
  have hpadX : c'.padX = c.padX := (congrArg Capture.padX h :)
  have hpadY : c'.padY = c.padY := (congrArg Capture.padY h :)
  unfold InPanel
  rw [hpadX, hpadY, hw, hh]

/-- Black bars stay black bars. -/
theorem Shows.barsBlack {c' : Capture} (h : Shows (baseConfig args c) c m)
    (hconfig : c'.config = c.config) : BarsBlack args c' m := by
  have hcfg : baseConfig args c' = baseConfig args c := baseConfig_congr hconfig
  have hpadW : c'.padW = (baseConfig args c).nInputWidth := (congrArg Capture.padW hconfig :)
  have hpadH : c'.padH = (baseConfig args c).nInputHeight := (congrArg Capture.padH hconfig :)
  have hfmt : c'.inFmt = (baseConfig args c).eInputFormat := (congrArg Capture.inFmt hconfig :)
  intro row hrow col hcol hout
  rw [hpadH] at hrow
  rw [hpadW] at hcol
  rw [inPanel_congr hconfig] at hout
  rw [hcfg, hfmt]
  exact h.bars row hrow col hcol hout

/-- What a surface shows depends on what `init` set up and on the framebuffer copy only. -/
theorem Shows.congr {c' : Capture} (h : Shows (baseConfig args c) c m)
    (hconfig : c'.config = c.config) (hbuf : c'.fbBuf = c.fbBuf) :
    Shows (baseConfig args c') c' m := by
  have hw : c'.w = c.w := (congrArg Capture.w hconfig :)
  have hh : c'.h = c.h := (congrArg Capture.h hconfig :)
  have hpitch : c'.pitch = c.pitch := (congrArg Capture.pitch hconfig :)
  have hpadX : c'.padX = c.padX := (congrArg Capture.padX hconfig :)
  have hpadY : c'.padY = c.padY := (congrArg Capture.padY hconfig :)
  -- what the surface shows is told by the configuration and the panel's last bytes
  rw [baseConfig_congr hconfig]
  refine ⟨?_, ?_, ?_⟩
  · rw [hpadX, hpadY, hw, hh]
    exact h.inside
  · rw [hpadX, hpadY, hw, hh]
    intro y hy x hx
    rw [h.panel y hy x hx]
    unfold panelPixel
    rw [hbuf, hpitch, hw, hh]
  · intro row hrow col hcol hout
    rw [inPanel_congr hconfig] at hout
    exact h.bars row hrow col hcol hout

/-- A copy shows the panel where the input is RGB or the surface is the panel. -/
theorem shows_converted (hc : Laid args geo c) (hfmt : c.inFmt = args.inFmt)
    (haccepts : Accepts args geo) (haligned : Aligned args geo) (hfits : SizesFit args geo)
    (hplace : args.inFmt.isRgb = true ∨ Unpadded args geo)
    (hbars : c.barsCleared = true → BarsBlack args c m) :
    Shows (baseConfig args c) c (converted c m) := by
  unfold SizesFit at hfits
  cases hrgb : args.inFmt.isRgb with
  | true =>
    rw [if_pos hrgb] at hfits
    cases hpad : (forTarget geo.w geo.h args.dstW args.dstH).padded with
    | true => exact shows_padded hc hfmt haligned hfits hrgb hpad hbars
    | false => exact shows_plain hc hfmt haccepts haligned hfits hrgb hpad
  | false =>
    have hplain := hplace.resolve_left (Bool.eq_false_iff.mp hrgb)
    exact shows_nv12 hc hfmt haligned hplain hrgb

/-! ## Runs of a display -/

/-- A session past `init`, with the configuration of `k`. -/
structure Past (k : Capture) (s : Session) : Prop where
  config : s.world.cap.config = k.config
  opened : ∀ args, s.phase ≠ .opening args

section Runs

variable {libs : VendorLibs} {k : Capture} {d d' : Display} {call : Call}

/-- One step of the display is one of the session, and what it wrote is in memory. -/
theorem step_of_display (h : d.step libs call = some d') :
    d.session.step libs call = some d'.session ∧
      d'.mem = Stores.write d.mem
        (((writesOf d'.session.world.trace).drop (writesOf d.session.world.trace).length).flatMap
          (stores d'.session.world.cap.fbBuf)) := by
  obtain ⟨s, hs, rfl⟩ := Option.map_eq_some_iff.mp h
  exact ⟨hs, rfl⟩

/-- **A call past `init` leaves the surface alone or copies the panel into it.** -/
theorem display_step (h : d.step libs call = some d') (hpast : Past k d.session) :
    Past k d'.session ∧
      (viewOf d'.session.world = viewOf d.session.world ∧ d'.mem = d.mem ∨
        ∃ c : Capture, c.config = k.config ∧
          CopiedBy c (viewOf d.session.world) (viewOf d'.session.world) ∧
          d'.mem = converted c d.mem) := by
  obtain ⟨hstep, hmem⟩ := step_of_display h
  obtain ⟨hconfig, hopened, -⟩ := config_and_trace_of_step (steps_of_step hstep) hpast.opened
  refine ⟨⟨hconfig.trans hpast.config, hopened⟩, ?_⟩
  -- a call copies the panel once or leaves the surface alone
  rcases copies_of_step hstep hpast.opened with hview | ⟨c, hc, hcopied⟩
  · refine Or.inl ⟨hview, ?_⟩
    have hwrites : writesOf d'.session.world.trace = writesOf d.session.world.trace :=
      congrArg View.writes hview
    rw [hmem, hwrites, List.drop_length]
    rfl
  · refine Or.inr ⟨c, hc.trans hpast.config, hcopied, ?_⟩
    obtain ⟨-, -, hbuf, hwrites⟩ := hcopied
    have hwrites' : writesOf d'.session.world.trace =
        writesOf d.session.world.trace ++ c.convertIntoInputBuffer.writes := hwrites
    have hbuf' : d'.session.world.cap.fbBuf = c.fbBuf := hbuf
    rw [hmem, hwrites', List.drop_left, hbuf']
    rfl

/-- A trace of vendor calls writes nothing. -/
theorem writesOf_of_vendor {t : List Event} (h : ∀ e ∈ t, e = .claimed ∨ ∃ v, e = .vendor v) :
    writesOf t = [] := by
  refine List.filterMap_eq_nil_iff.mpr fun e he => ?_
  rcases h e he with rfl | ⟨v, rfl⟩
  · rfl
  · rfl

/-- `init` writes nothing. -/
theorem display_init {a : InitAnswers} (hfb : a.fb = .ok geo)
    (h : Display.step libs ⟨.start args, m⟩ (.init a) = some d) :
    d.mem = m ∧ writesOf d.session.world.trace = [] ∧
      (d.session.phase.Gone ∨ Accepts args geo ∧ Past (opened args geo a.now) d.session ∧
        d.session.world.cap.barsCleared = false) := by
  obtain ⟨hstep, hmem⟩ := step_of_display h
  have hnone : writesOf d.session.world.trace = [] ∧
      (d.session.phase.Gone ∨ Accepts args geo ∧ Past (opened args geo a.now) d.session ∧
        d.session.world.cap.barsCleared = false) := by
    rcases step_init hstep with ⟨hphase, geo', hfb', haccepts, hmid⟩ | ⟨hphase, st, hreached⟩
    · obtain rfl : geo = geo' := Except.ok.inj (hfb.symm.trans hfb')
      refine ⟨writesOf_of_vendor fun e he => vendor_of_traced hmid.trace he, Or.inr
        ⟨haccepts, ⟨congrArg Capture.config hmid.cap, by rw [hphase]; nofun⟩, ?_⟩⟩
      exact (congrArg Capture.barsCleared hmid.cap :)
    · obtain ⟨y, uv, htraced⟩ := hreached.trace
      exact ⟨writesOf_of_vendor fun e he => vendor_of_traced htraced he, Or.inl (Or.inl hphase)⟩
  refine ⟨?_, hnone⟩
  rw [hmem, hnone.1]
  rfl

/-- A capture on its way out copies nothing any more. -/
theorem display_gone (h : d.step libs call = some d') (hgone : d.session.phase.Gone) :
    d'.session.phase.Gone ∧
      writesOf d'.session.world.trace = writesOf d.session.world.trace ∧ d'.mem = d.mem := by
  obtain ⟨hstep, hmem⟩ := step_of_display h
  have hsteps := steps_of_step hstep
  obtain ⟨rc, hdropped⟩ := dropped_of_gone hsteps hgone
  have hwrites : writesOf d'.session.world.trace = writesOf d.session.world.trace := by
    rw [hdropped]
    exact writesOf_dropped _ _ _ _
  refine ⟨gone_of_steps hsteps hgone, hwrites, ?_⟩
  rw [hmem, hwrites, List.drop_length]
  rfl

end Runs

/-! ## Where every frame is placed -/

/-- A display past `init`: nothing is copied yet, or the surface shows the panel. -/
structure Showing (args : OpenArgs) (k : Capture) (d : Display) : Prop where
  past : Past k d.session
  shows : writesOf d.session.world.trace = [] ∧ d.session.world.cap.barsCleared = false ∨
    Shows (baseConfig args d.session.world.cap) d.session.world.cap d.mem

/-- One call keeps the invariant: after each copy the surface shows the panel. -/
theorem showing_of_step {libs : VendorLibs} {now : ℤ} {d d' : Display} {call : Call}
    (haccepts : Accepts args geo) (haligned : Aligned args geo) (hfits : SizesFit args geo)
    (hplace : args.inFmt.isRgb = true ∨ Unpadded args geo)
    (h : d.step libs call = some d') (hd : Showing args (opened args geo now) d) :
    Showing args (opened args geo now) d' := by
  obtain ⟨hpast, hmove⟩ := display_step h hd.past
  refine ⟨hpast, ?_⟩
  rcases hmove with ⟨hview, hmem⟩ | ⟨c, hc, ⟨hbars, -, hbuf, -⟩, hmem⟩
  · have hconfig := hpast.config.trans hd.past.config.symm
    have hbuf : d'.session.world.cap.fbBuf = d.session.world.cap.fbBuf :=
      congrArg View.fbBuf hview
    rcases hd.shows with ⟨hwrites, hbars⟩ | hshows
    · exact Or.inl ⟨(congrArg View.writes hview).trans hwrites,
        (congrArg View.barsCleared hview).trans hbars⟩
    · rw [hmem]
      exact Or.inr (hshows.congr hconfig hbuf)
  · have hbuf' : d'.session.world.cap.fbBuf = c.fbBuf := hbuf
    have hshows : Shows (baseConfig args c) c (converted c d.mem) := by
      refine shows_converted (laid_of_config hc) (inFmt_of_config hc) haccepts haligned hfits
        hplace fun hcleared => ?_
      -- `bars_cleared` is set by a copy only, so the surface shows the one before
      rcases hd.shows with ⟨-, hfirst⟩ | hshows
      · exact absurd (hbars.symm.trans hcleared) (by rw [viewOf, hfirst]; exact Bool.false_ne_true)
      · exact hshows.barsBlack (hc.trans hd.past.config.symm)
    rw [hmem]
    exact Or.inr (hshows.congr (hpast.config.trans hc.symm) hbuf')

/-- **Where the input is RGB, or the surface is the panel, every frame shows the panel in its
place.** -/
theorem placed_of (haligned : Aligned args geo) (hfits : SizesFit args geo)
    (hplace : args.inFmt.isRgb = true ∨ Unpadded args geo) : Placed args geo := by
  intro libs a calls m d hfb hrun hwrites
  obtain ⟨d₀, hinit, hrest⟩ := run_cons_eq_some.mp hrun
  obtain ⟨-, hnone, hgone | ⟨haccepts, hpast, hbars⟩⟩ := display_init hfb hinit
  -- `init` failed: nothing is ever written
  · have hstill := @run_invariant _ _ (Display.step libs)
      (fun d => d.session.phase.Gone ∧ writesOf d.session.world.trace = [])
      (fun _ _ _ hstep ⟨hgone, hnone⟩ => by
        obtain ⟨hgone', hsame, -⟩ := display_gone hstep hgone
        exact ⟨hgone', hsame.trans hnone⟩)
      _ _ _ hrest ⟨hgone, hnone⟩
    exact absurd hstill.2 hwrites
  · have hshowing := run_invariant
      (fun _ _ _ hstep => showing_of_step haccepts haligned hfits hplace hstep)
      hrest ⟨hpast, Or.inl ⟨hnone, hbars⟩⟩
    exact hshowing.shows.resolve_left fun h => hwrites h.1

/-! ### A converted surface with bars -/

/-- A conversion stores something, whether or not it runs to its end. -/
theorem writes_ne_nil (hc : Laid args geo c) (haligned : Aligned args geo)
    (hrgb : args.inFmt.isRgb = false) : c.convertIntoInputBuffer.writes ≠ [] := by
  have hwrites : c.convertIntoInputBuffer.writes =
      (performed (Access.InRange c.sliceLengths) c.convertAccesses).filterMap Write.ofAccess := by
    unfold Capture.convertIntoInputBuffer
    rw [hc.rgbIn, hrgb]
    rfl
  have hfit : geo.h.toNat * geo.w.toNat ≤ c.sliceLengths.y := by
    obtain ⟨hcw, hch⟩ := haligned.le_pad hc
    rw [Nat.mul_comm]
    exact Nat.mul_le_mul hcw hch
  have hluma := (forall_luma_iff (rowsIn_bgra hc.length_fbBuf) hfit).mpr
    (pixelIn_of_aligned hc haligned)
  -- the top left pixel is always stored
  have hfirst : Access.storeY (0 * geo.w.toNat + 0)
      (lumaOf ((bgra c.fbBuf geo.pitch.toNat).rgb (0, 0))) ∈
      (List.range geo.h.toNat).flatMap (lumaRow (bgra c.fbBuf geo.pitch.toNat) geo.w.toNat) :=
    List.mem_flatMap.mpr ⟨0, List.mem_range.mpr haligned.panel.h,
      storeY_mem_lumaRow.mpr ⟨0, haligned.panel.w, rfl, rfl⟩⟩
  rw [hwrites, convertAccesses_of_aligned hc haligned]
  exact List.ne_nil_of_mem (List.mem_filterMap.mpr ⟨_, mem_performed_append hluma hfirst, rfl⟩)

/-- Every run of a session is one of a display, from any memory. -/
theorem exists_display {libs : VendorLibs} {s s' : Session} {calls : List Call}
    (h : run (Session.step libs) s calls = some s') (m : Memory) :
    ∃ m', run (Display.step libs) ⟨s, m⟩ calls = some ⟨s', m'⟩ := by
  induction calls generalizing s m with
  | nil =>
    obtain rfl := Option.some.inj h
    exact ⟨m, rfl⟩
  | cons call calls ih =>
    obtain ⟨s₁, hstep, hrest⟩ := run_cons_eq_some.mp h
    obtain ⟨m', hm'⟩ := ih hrest _
    refine ⟨m', run_cons_eq_some.mpr ⟨_, ?_, hm'⟩⟩
    exact Option.map_eq_some_iff.mpr ⟨s₁, hstep, rfl⟩

/-- Every run of an NV12 display leaves the luma past the panel's own pixels alone. -/
theorem mem_luma_of_run {libs : VendorLibs} {a : InitAnswers} {calls : List Call} {d : Display}
    (haligned : Aligned args geo) (hrgb : args.inFmt.isRgb = false) (hfb : a.fb = .ok geo)
    (hrun : run (Display.step libs) ⟨.start args, m⟩ (.init a :: calls) = some d) {i : ℕ}
    (hi : geo.w.toNat * geo.h.toNat ≤ i) : d.mem (.y, i) = m (.y, i) := by
  obtain ⟨d₀, hinit, hrest⟩ := run_cons_eq_some.mp hrun
  obtain ⟨hmem₀, -, hgone | ⟨-, hpast, -⟩⟩ := display_init hfb hinit
  · have hstill := @run_invariant _ _ (Display.step libs)
      (fun d => d.session.phase.Gone ∧ d.mem = m)
      (fun _ _ _ hstep ⟨hgone, hmem⟩ => by
        obtain ⟨hgone', -, hsame⟩ := display_gone hstep hgone
        exact ⟨hgone', hsame.trans hmem⟩)
      _ _ _ hrest ⟨hgone, hmem₀⟩
    rw [hstill.2]
  -- the converter numbers luma bytes by the panel's width, so it ends at `w * h`
  · have hkept := @run_invariant _ _ (Display.step libs)
      (fun d => Past (opened args geo a.now) d.session ∧ d.mem (.y, i) = m (.y, i))
      (fun d call d' hstep ⟨hpast, hmem⟩ => by
        obtain ⟨hpast', hmove⟩ := display_step hstep hpast
        refine ⟨hpast', ?_⟩
        rcases hmove with ⟨-, hsame⟩ | ⟨c, hc, -, hcopy⟩
        · rw [hsame, hmem]
        · rw [hcopy, converted_luma_of_le (laid_of_config hc) haligned hrgb hi, hmem])
      _ _ _ hrest ⟨hpast, by rw [hmem₀]⟩
    exact hkept.2

/-- The last pixel of a surface larger than the panel is a bar, past the panel's own pixels. -/
theorem last_is_bar (hc : Laid args geo c) (haligned : Aligned args geo)
    (hbars : ¬ Unpadded args geo) :
    (0 < c.padW.toNat ∧ 0 < c.padH.toNat) ∧ ¬ InPanel c (c.padW.toNat - 1) (c.padH.toNat - 1) ∧
      geo.w.toNat * geo.h.toNat ≤ (c.padH.toNat - 1) * c.padW.toNat + (c.padW.toNat - 1) := by
  obtain ⟨hpadX, hpadY⟩ := haligned.centred hc
  obtain ⟨hcw, hch⟩ := haligned.le_pad hc
  have hw := haligned.panel.w
  have hh := haligned.panel.h
  -- some bar has a positive width, and the panel sits centred before the far corner
  have hlarger : geo.w.toNat < c.padW.toNat ∨ geo.h.toNat < c.padH.toNat := by
    by_contra hno
    refine hbars ⟨?_, ?_⟩
    · rw [← hc.padW]
      exact UInt32.toNat_inj.mp (by omega)
    · rw [← hc.padH]
      exact UInt32.toNat_inj.mp (by omega)
  refine ⟨⟨by omega, by omega⟩, ?_, ?_⟩
  · rintro ⟨⟨-, hx⟩, -, hy⟩
    rw [hc.w] at hx
    rw [hc.h] at hy
    omega
  · have harea : geo.w.toNat * geo.h.toNat < c.padW.toNat * c.padH.toNat := by
      rcases hlarger with hlt | hlt
      · exact Nat.mul_lt_mul_of_lt_of_le hlt hch (by omega)
      · exact Nat.mul_lt_mul_of_le_of_lt hcw hlt (by omega)
    have hlast : (c.padH.toNat - 1) * c.padW.toNat + c.padW.toNat =
        c.padW.toNat * c.padH.toNat := by
      rw [← Nat.succ_mul, Nat.mul_comm]
      congr 1
      omega
    omega

/-- A converted surface with bars never shows them: the first frame leaves the last one as the
vendor allocated it. -/
theorem not_placed_of_bars (haccepts : Accepts args geo) (haligned : Aligned args geo)
    (hrgb : args.inFmt.isRgb = false) (hbars : ¬ Unpadded args geo) : ¬ Placed args geo := by
  intro hplaced
  have hbytes : geo.pitch.toNat * geo.h.toNat ≠ 0 := by
    have hw := haligned.panel.w
    have hpitch := haligned.pitch
    exact Nat.mul_ne_zero (by omega) (by have := haligned.panel.h; omega)
  obtain ⟨s, hrun, hcap, -, c, hconfig, -, hwrites⟩ := exists_copied haccepts hbytes
  obtain ⟨m, hdisplay⟩ := exists_display hrun fun _ => 0
  have hsome : writesOf s.world.trace ≠ [] := by
    obtain ⟨wr, hwr⟩ :=
      List.exists_mem_of_ne_nil _ (writes_ne_nil (laid_of_config hconfig) haligned hrgb)
    exact List.ne_nil_of_mem (List.mem_filterMap.mpr ⟨_, hwrites wr hwr, rfl⟩)
  have hshows := hplaced fullLibs (goodInit geo) [.next oneByte] _ _ rfl hdisplay hsome
  have hc := laid_of_config hcap
  have hfmt : s.world.cap.inFmt = args.inFmt := inFmt_of_config hcap
  obtain ⟨⟨hW, hH⟩, hout, hpast⟩ := last_is_bar hc haligned hbars
  have hbar := hshows.bars (s.world.cap.padH.toNat - 1) (Nat.sub_one_lt_of_lt hH)
    (s.world.cap.padW.toNat - 1) (Nat.sub_one_lt_of_lt hW) hout
  -- black has luma 16, and the byte is still 0
  have hzero := mem_luma_of_run haligned hrgb rfl hdisplay hpast
  have hno : ¬ (baseConfig args s.world.cap).eInputFormat.isRgb = true := by
    show ¬ s.world.cap.inFmt.isRgb = true
    rw [hfmt]
    exact Bool.eq_false_iff.mp hrgb
  unfold surfacePixel black at hbar
  rw [if_neg hno, if_neg hno, nStride_eq hc haligned, hzero] at hbar
  exact absurd (Pixel.yuv.inj hbar).1 (by decide)

/-- **Every frame of every run shows the panel in its place exactly where** the input is RGB or the
surface is the panel. -/
theorem placed_iff (haccepts : Accepts args geo) (haligned : Aligned args geo)
    (hfits : SizesFit args geo) :
    Placed args geo ↔ args.inFmt.isRgb = true ∨ Unpadded args geo := by
  refine ⟨fun hplaced => ?_, placed_of haligned hfits⟩
  by_contra hno
  rw [not_or, Bool.not_eq_true] at hno
  exact not_placed_of_bars haccepts haligned hno.1 hno.2 hplaced

/-- The arguments of a stream that is converted on the CPU. -/
def nv12Stream (dstW dstH : UInt32) : OpenArgs := { stream dstW dstH with inFmt := .yuv420Sp }

/-- The panel of the device passes every check of an NV12 stream. -/
theorem accepts_nv12 (dstW dstH : UInt32) : Accepts (nv12Stream dstW dstH) panel where
  depth := rfl
  size := rfl
  pitch := by
    unfold validateRgbPitch
    rw [if_neg fun h => Bool.false_ne_true h.1]
  capacity := (accepts_panel dstW dstH).capacity

/-- It is aligned, too, where the stride is not in bytes. -/
theorem aligned_panel {args : OpenArgs} (h : args.strideBytes = false) : Aligned args panel where
  panel := ⟨by decide, by decide, Or.inr rfl, by decide⟩
  bpp := rfl
  w := by decide
  h := by decide
  strideBytes := h

/-- The stream of 1280 by 720 pixels. -/
theorem placed_iff_720p : Placed (stream 1280 720) panel :=
  (@placed_iff (stream 1280 720) panel (accepts_panel 1280 720) (aligned_panel rfl)
    (by decide)).mpr (Or.inl rfl)

/-- The same stream converted to NV12: the panel is laid out at the panel's width in a surface that
is wider. -/
theorem not_placed :
    ¬ ∀ args geo, Accepts args geo → Aligned args geo → SizesFit args geo → Placed args geo := by
  intro hplaced
  have haligned : Aligned (nv12Stream 1280 720) panel := aligned_panel rfl
  have := hplaced (nv12Stream 1280 720) panel (accepts_nv12 1280 720) haligned (by decide)
  exact not_placed_of_bars (accepts_nv12 1280 720) haligned rfl (by decide) this

end RgspCast.Surface
