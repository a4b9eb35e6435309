import RgspCast.Cedar.Convert
import RgspCast.Cedar.Drain
import RgspCast.Cedar.Geometry
import RgspCast.Lib.ExceptState
import RgspCast.Lib.Transition

/-!
# The capture object

`Capture::open_scaled_ex`, `init`, `next` and `Drop` of `capture.rs`, in the monad `VendorM`: a
state with the capture's fields and the trace of everything that happened, and two ways out, an
error and a panic. What the vendor libraries, the kernel and the clock answer is an argument
(`InitAnswers`, `NextAnswers`), so a statement about every outcome is a statement about every
answer. Each block of `init` and `next` is a function of its own, in the order of the source;
arithmetic wraps as in the release build.

A `Session` is the life of one capture, from the claimed slot to the end of `Drop`.
-/

namespace RgspCast.Cedar

open Nal Bitstream RgspCast.Convert Drain RgspCast.Geometry Checked ExceptState

/-! ## The vendor interface -/

inductive VencPixelFmt where
  | yuv420Sp
  | argb
  | rgba
  | abgr
  | bgra
  deriving DecidableEq, Repr

/-- The formats the VE ingests as they are. -/
def VencPixelFmt.isRgb : VencPixelFmt → Bool
  | .argb | .rgba | .abgr | .bgra => true
  | .yuv420Sp => false

/-- The entries of the `ScMemOpsS` table that the code looks for, and whether each is provided. -/
structure ScMemOpsS where
  «open» : Bool
  close : Bool
  veGetViraddr : Bool
  getVeAddrOffset : Bool
  deriving DecidableEq, Repr

/-- The loaded vendor libraries: the memory operations, and the two optional symbols. -/
structure VendorLibs where
  memOps : ScMemOpsS
  videoEncGetParameter : Bool
  videoEncSetParameter : Bool
  deriving DecidableEq, Repr

/-- The fields of `VencBaseConfig` that `init` sets to something that depends on its input. -/
structure VencBaseConfig where
  nInputWidth : UInt32
  nInputHeight : UInt32
  nDstWidth : UInt32
  nDstHeight : UInt32
  nStride : UInt32
  eInputFormat : VencPixelFmt
  deriving DecidableEq, Repr

/-- The fields of `VencInputBuffer` that `next` sets. -/
structure VencInputBuffer where
  nPts : ℤ
  bIsFirstFrame : Bool
  deriving DecidableEq, Repr

def VencInputBuffer.zeroed : VencInputBuffer := ⟨0, false⟩

/-- The parameter indices. -/
def index.bitrate : Int32 := 0x0
def index.maxKeyInterval : Int32 := 0x2
def index.forceKeyFrame : Int32 := 0x6
def index.h264SpsPps : Int32 := 0x101

/-- A call into the vendor libraries, with what it was given where that depends on the input, and
what it answered. -/
inductive VendorCall where
  | getVeOpsS (nonNull : Bool)
  | memAdapterGetOpsS (nonNull : Bool)
  | cdcMemOpen (rc : Int32)
  | cdcMemClose
  | getVeAddrOffset
  | veGetViraddr
  | videoEncCreate (nonNull : Bool)
  | videoEncDestroy
  | videoEncInit (cfg : VencBaseConfig) (rc : Int32)
  | videoEncUninit
  | videoEncSetParameter (idx value rc : Int32)
  | videoEncGetParameter (idx rc : Int32)
  | allocInputBuffer (nSizeY nSizeC : UInt32) (rc : Int32)
  | releaseAllocInputBuffer
  | getOneAllocInputBuffer (rc : Int32)
  | flushCacheAllocInputBuffer
  | returnOneAllocInputBuffer
  | addOneInputBuffer (inbuf : VencInputBuffer) (rc : Int32)
  | alreadyUsedInputBuffer (rc : Int32)
  | videoEncodeOneFrame (rc : Int32)
  | validBitstreamFrameNum (more : Bool)
  | getOneBitstreamFrame (got : Option VencOutputBuffer)
  | freeOneBitstreamFrame (o : VencOutputBuffer)
  deriving DecidableEq, Repr

/-! ## State, trace and exits -/

/-- A write into the vendor's input buffer, at an offset from `_vir_y` (`fill`, `copy`, `luma`) or
from `_vir_uv` (`chroma`). -/
inductive Write where
  /-- `n` zero bytes. -/
  | fill (dst n : ℕ)
  /-- `n` bytes of the framebuffer copy, from `src` on. -/
  | copy (dst src n : ℕ)
  | luma (i : ℕ) (v : UInt8)
  | chroma (i : ℕ) (v : UInt8)
  deriving DecidableEq, Repr

/-- One encoded frame. -/
structure Frame where
  data : Bytes
  isKeyframe : Bool
  deriving DecidableEq, Repr

/-- What happens in the life of a capture: its slot is claimed, vendor calls and writes, what
`next` returns, the start of `Drop`, and the release of the slot. -/
inductive Event where
  | claimed
  | vendor (c : VendorCall)
  | write (wr : Write)
  | frame (f : Frame)
  | failed (e : String)
  | dropped
  | freed
  deriving DecidableEq, Repr

/-- What `Framebuffer::open` reads from the panel. -/
structure FbGeometry where
  w : UInt32
  h : UInt32
  bpp : UInt32
  pitch : UInt32
  deriving DecidableEq, Repr

/-- The fields of `Capture`. A handle or table pointer is whether it is non-null; `used` and the
guard behind it are written by the vendor only. -/
structure Capture where
  fb : Option FbGeometry
  w : UInt32
  h : UInt32
  bpp : UInt32
  pitch : UInt32
  frameBytes : ℕ
  fbBuf : Bytes
  enc : Bool
  memops : Bool
  memOpen : Bool
  buffersAlloced : Bool
  encInited : Bool
  /-- An input buffer is checked out of the vendor pool. -/
  held : Bool
  inFmt : VencPixelFmt
  rgbIn : Bool
  padW : UInt32
  padH : UInt32
  padX : UInt32
  padY : UInt32
  padded : Bool
  barsCleared : Bool
  out : Bytes
  spsPps : Bytes
  spsPpsFetched : Bool
  fps : Int32
  frameNs : ℤ
  deadline : ℤ
  frames : Int32
  forceIdr : Bool
  shortReads : UInt32
  convertNs : ℤ
  encodeNs : ℤ
  /-- The sticky death flag, with the original diagnosis. -/
  failed : Option String
  inbuf : VencInputBuffer

/-- The capture's fields and everything that happened so far. -/
structure World where
  cap : Capture
  trace : List Event

/-- The early exits: an error with its text, and a panic. -/
inductive Exit where
  | err (text : String)
  | panic
  deriving DecidableEq, Repr

abbrev VendorM := EStateM Exit World

/-- Change fields of the capture. -/
def modifyCap (f : Capture → Capture) : VendorM Unit := modify fun w => { w with cap := f w.cap }

/-- Record what happens. -/
def emit (es : List Event) : VendorM Unit := modify fun w => { w with trace := w.trace ++ es }

/-- Call into the vendor libraries. -/
def vendor (c : VendorCall) : VendorM Unit := emit [.vendor c]

def bail {α : Type} (text : String) : VendorM α := throw (.err text)

/-- `?` on a result. -/
def orBail {α : Type} : Except String α → VendorM α
  | .ok a => pure a
  | .error text => bail text

/-- `Capture::fail`: mark the capture dead and return the failure. -/
def fail {α : Type} (text : String) : VendorM α := do
  modifyCap fun c => { c with failed := some text }
  bail text

/-! ## `Capture::init` -/

/-- The arguments of `open_scaled_ex`. -/
structure OpenArgs where
  width : UInt32
  height : UInt32
  dstW : UInt32
  dstH : UInt32
  fps : Int32
  bitrate : Int32
  inFmt : VencPixelFmt
  strideBytes : Bool
  deriving DecidableEq, Repr

/-- What `init` is answered. -/
structure InitAnswers where
  /-- What the panel reports, or the error of the open or of its ioctls. -/
  fb : Except String FbGeometry
  veOps : Bool
  memOps : Bool
  openRc : Int32
  enc : Bool
  bitrateRc : Int32
  initRc : Int32
  allocRc : Int32
  keyIntervalRc : Int32
  getInputRc : Int32
  now : ℤ

/-- `validate_geometry`. -/
def validateGeometry (fbW fbH bpp reqW reqH : UInt32) : Except String Unit :=
  if bpp ≠ 32 ∧ bpp ≠ 16 then .error s!"unsupported bpp {bpp}"
  else if (reqW ≠ 0 ∧ reqW ≠ fbW) ∨ (reqH ≠ 0 ∧ reqH ≠ fbH) then
    .error s!"requested {reqW}x{reqH} but the framebuffer is {fbW}x{fbH}; scaling is not supported"
  else .ok ()

/-- `validate_rgb_pitch`. -/
def validateRgbPitch (isRgb padded : Bool) (pitch w : UInt32) : Except String Unit :=
  if isRgb ∧ ¬ padded ∧ pitch ≠ w * 4 then
    let rowBytes := w * 4
    .error (s!"framebuffer pitch {pitch} does not match width*4 ({rowBytes}) with padding off; " ++
      "the non-padded RGB copy assumes they match and would overrun the vendor buffer")
  else .ok ()

/-- `Framebuffer::open`: only the bit depth is checked. -/
def framebufferOpen (fb : Except String FbGeometry) : Except String FbGeometry := do
  let geo ← fb
  validateGeometry geo.w geo.h geo.bpp 0 0
  return geo

/-- The capture as `open_scaled_ex` builds it before any vendor call. -/
def Capture.new (args : OpenArgs) : Capture where
  fb := none
  w := 0
  h := 0
  bpp := 0
  pitch := 0
  frameBytes := 0
  fbBuf := []
  enc := false
  memops := false
  memOpen := false
  buffersAlloced := false
  encInited := false
  held := false
  inFmt := args.inFmt
  rgbIn := false
  padW := 0
  padH := 0
  padX := 0
  padY := 0
  padded := false
  barsCleared := false
  out := []
  spsPps := []
  spsPpsFetched := false
  fps := if args.fps ≤ 0 then 30 else args.fps
  frameNs := 0
  deadline := 0
  frames := 0
  forceIdr := false
  shortReads := 0
  convertNs := 0
  encodeNs := 0
  failed := none
  inbuf := .zeroed

/-- `vec![0u8; n]` panics for more bytes than an allocation can have (`isize::MAX`). -/
def vecCapacity : ℕ := 2 ^ 63

/-- Open the panel, check the request against it, and lay out the padded surface. -/
def openFramebuffer (args : OpenArgs) (a : InitAnswers) : VendorM Unit := do
  let geo ← orBail (framebufferOpen a.fb)
  modifyCap fun c => { c with fb := some geo }
  orBail (validateGeometry geo.w geo.h geo.bpp args.width args.height)
  modifyCap fun c => { c with w := geo.w, h := geo.h, bpp := geo.bpp, pitch := geo.pitch }
  let p := forTarget geo.w geo.h args.dstW args.dstH
  modifyCap fun c =>
    { c with padW := p.padW, padH := p.padH, padX := p.padX, padY := p.padY, padded := p.padded }
  orBail (validateRgbPitch args.inFmt.isRgb p.padded geo.pitch geo.w)
  let frameBytes := geo.pitch.toNat * geo.h.toNat
  modifyCap fun c => { c with frameBytes := frameBytes }
  when (vecCapacity ≤ frameBytes) <| throw .panic
  modifyCap fun c => { c with fbBuf := List.replicate frameBytes 0 }

/-- Get the vendor's operation tables and open its memory. -/
def openMemory (libs : VendorLibs) (a : InitAnswers) : VendorM Unit := do
  vendor (.getVeOpsS a.veOps)
  vendor (.memAdapterGetOpsS a.memOps)
  modifyCap fun c => { c with memops := a.memOps }
  when (a.veOps = false ∨ a.memOps = false) <| bail "ops NULL"
  when (libs.memOps.open = false) <| bail "CdcMemOpen missing"
  vendor (.cdcMemOpen a.openRc)
  when (a.openRc < 0) <| bail "CdcMemOpen failed"
  modifyCap fun c => { c with memOpen := true }
  when libs.memOps.getVeAddrOffset <| vendor .getVeAddrOffset

def createEncoder (a : InitAnswers) : VendorM Unit := do
  vendor (.videoEncCreate a.enc)
  modifyCap fun c => { c with enc := a.enc }
  when (a.enc = false) <| bail "VideoEncCreate failed"

/-- A bitrate of 0 leaves the encoder default alone. -/
def setBitrate (libs : VendorLibs) (args : OpenArgs) (a : InitAnswers) : VendorM Unit := do
  let bitrate := args.bitrate
  when (bitrate > 0) do
    when (libs.videoEncSetParameter = false) <|
      bail "VideoEncSetParameter missing; cannot set bitrate"
    vendor (.videoEncSetParameter index.bitrate bitrate a.bitrateRc)
    when (a.bitrateRc ≠ 0) <| bail s!"VideoEncSetParameter(bitrate={bitrate}) failed"

/-- The encoder's configuration: the padded surface, its stride, and the size asked for. -/
def baseConfig (args : OpenArgs) (c : Capture) : VencBaseConfig where
  nInputWidth := c.padW
  nInputHeight := c.padH
  nDstWidth := if args.dstW > 0 then args.dstW else c.padW
  nDstHeight := if args.dstH > 0 then args.dstH else c.padH
  nStride := if c.padded then c.padW else if args.strideBytes then c.pitch else c.w
  eInputFormat := c.inFmt

def initEncoder (args : OpenArgs) (a : InitAnswers) : VendorM Unit := do
  let w ← get
  vendor (.videoEncInit (baseConfig args w.cap) a.initRc)
  when (a.initRc ≠ 0) <| bail "VideoEncInit failed"
  modifyCap fun c => { c with encInited := true }

/-- The size of the luma plane asked for; the product wraps. -/
def Capture.nSizeY (c : Capture) : UInt32 :=
  if c.rgbIn then c.padW * c.padH * 4 else c.padW * c.padH

/-- The size of the chroma plane asked for; the product wraps before it is halved. -/
def Capture.nSizeC (c : Capture) : UInt32 := if c.rgbIn then 0 else c.padW * c.padH / 2

def allocBuffers (a : InitAnswers) : VendorM Unit := do
  modifyCap fun c => { c with rgbIn := c.inFmt.isRgb }
  let w ← get
  vendor (.allocInputBuffer w.cap.nSizeY w.cap.nSizeC a.allocRc)
  when (a.allocRc ≠ 0) <| bail "AllocInputBuffer failed"
  modifyCap fun c => { c with buffersAlloced := true }

/-- The automatic key-frame interval; a failure is not fatal. -/
def setKeyInterval (libs : VendorLibs) (a : InitAnswers) : VendorM Unit := do
  let w ← get
  let interval := if w.cap.fps > 0 then w.cap.fps * 60 else 1800
  when libs.videoEncSetParameter <|
    vendor (.videoEncSetParameter index.maxKeyInterval interval a.keyIntervalRc)

/-- Check the first input buffer out, and start the pacing. -/
def acquireFirst (a : InitAnswers) : VendorM Unit := do
  modifyCap fun c => { c with inbuf := .zeroed }
  vendor (.getOneAllocInputBuffer a.getInputRc)
  when (a.getInputRc ≠ 0) <| bail "GetOneAllocInputBuffer failed"
  modifyCap fun c => { c with held := true }
  modifyCap fun c => { c with frameNs := 1000000000 / c.fps.toInt, deadline := a.now }

def init (libs : VendorLibs) (args : OpenArgs) (a : InitAnswers) : VendorM Unit := do
  openFramebuffer args a
  openMemory libs a
  createEncoder a
  setBitrate libs args a
  initEncoder args a
  allocBuffers a
  setKeyInterval libs a
  acquireFirst a

/-! ## `Capture::convert_into_input_buffer` -/

/-- What the copy into the input buffer does: the writes in order, whether the bars are painted
afterwards, and whether an index out of range stopped it. -/
structure Conversion where
  writes : List Write
  barsCleared : Bool
  panicked : Bool

/-- The store of an access, as a write into the vendor's buffer. -/
def Write.ofAccess : Access → Option Write
  | .storeY i v => some (.luma i v)
  | .storeUv i v => some (.chroma i v)
  | _ => none

/-- The lengths of the slices the converters get: the framebuffer copy, and the planes as the
`usize` products of the padded extents. -/
def Capture.sliceLengths (c : Capture) : Lengths where
  src := c.fbBuf.length
  y := c.padW.toNat * c.padH.toNat
  uv := c.padW.toNat * c.padH.toNat / 2

/-- The accesses of the converter the bit depth selects. -/
def Capture.convertAccesses (c : Capture) : List Access :=
  if c.bpp = 32 then bgraToNv12 c.fbBuf c.pitch.toNat c.w.toNat c.h.toNat
  else rgb565ToNv12 c.fbBuf c.pitch.toNat c.w.toNat c.h.toNat

/-- `convert_into_input_buffer`. Offsets are `usize` and wrap at 2⁶⁴. -/
def Capture.convertIntoInputBuffer (c : Capture) : Conversion :=
  let rowBytes := c.w.toNat * 4
  let dstPitch := c.padW.toNat * 4
  if c.rgbIn ∧ c.padded then
    -- row by row into the centre of the padded surface; the bars are painted once
    let bars := if c.barsCleared then [] else [Write.fill 0 (dstPitch * c.padH.toNat % 2 ^ 64)]
    let dst := (c.padY.toNat * dstPitch + c.padX.toNat * 4) % 2 ^ 64
    let rows := (List.range c.h.toNat).map fun y =>
      Write.copy ((dst + y * dstPitch) % 2 ^ 64) (y * c.pitch.toNat) rowBytes
    ⟨bars ++ rows, true, false⟩
  else if c.rgbIn then ⟨[.copy 0 0 c.frameBytes], c.barsCleared, false⟩
  else
    let ok := Access.InRange c.sliceLengths
    ⟨(performed ok c.convertAccesses).filterMap Write.ofAccess, c.barsCleared,
      !c.convertAccesses.all fun a => ok a⟩

/-! ## `Capture::next` -/

/-- What `VideoEncGetParameter` answers for the parameter sets: the header's pointer is the bytes
that can be read there, and so is what the vendor translates it to; `none` is null. -/
structure HeaderAnswer where
  rc : Int32
  pBuffer : Option Bytes
  nLength : UInt32
  virAddr : Option Bytes

/-- What one call of `next` is answered. The drain is the units in the order in which they are
retrieved, `none` for a unit reported as valid that could not be retrieved; behind the last one no
further unit is reported. -/
structure NextAnswers where
  /-- The clock on entry, around the copy, and after the encode. -/
  now : ℤ
  t0 : ℤ
  t1 : ℤ
  t2 : ℤ
  /-- The bytes `pread` has for the visible buffer, or its error. -/
  read : Except String Bytes
  forceRc : Int32
  addRc : Int32
  encodeRc : Int32
  header : HeaderAnswer
  drain : List (Option VencOutputBuffer)
  alreadyUsedRc : Int32
  getInputRc : Int32

/-- The largest parameter-set blob that is kept. -/
def spsPpsCap : ℕ := 512

/-- Move the deadline on; missed frames are dropped. The sleep before it changes nothing here. -/
def pace (now : ℤ) : VendorM Unit :=
  modifyCap fun c =>
    let deadline := c.deadline + c.frameNs
    { c with deadline := if deadline < now then now + c.frameNs else deadline }

/-- `Framebuffer::read_visible`: the byte count and the buffer afterwards. `pread` fills the buffer
from its start and reads no more than fits; reading nothing is an error. -/
def readVisible (buf : Bytes) : Except String Bytes → Except String (ℕ × Bytes)
  | .error e => .error s!"pread(/dev/fb0): {e}"
  | .ok data =>
    let read := data.take buf.length
    if read = [] then .error "pread(/dev/fb0): end of file"
    else .ok (read.length, read ++ buf.drop read.length)

/-- Read the panel; a short read is counted, a failed one is terminal. -/
def readFramebuffer (a : NextAnswers) : VendorM Unit := do
  let w ← get
  match readVisible w.cap.fbBuf a.read with
  | .ok (n, buf) =>
    modifyCap fun c =>
      { c with
        fbBuf := buf
        shortReads := if n ≠ c.frameBytes then c.shortReads + 1 else c.shortReads }
  | .error e =>
    modifyCap fun c => { c with shortReads := c.shortReads + 1 }
    fail e

/-- Copy the panel into the input buffer. -/
def convert (a : NextAnswers) : VendorM Unit := do
  let w ← get
  let conv := w.cap.convertIntoInputBuffer
  emit (conv.writes.map .write)
  modifyCap fun c => { c with barsCleared := conv.barsCleared }
  when conv.panicked <| throw .panic
  modifyCap fun c => { c with convertNs := c.convertNs + (a.t1 - a.t0) }

def stampInput : VendorM Unit :=
  modifyCap fun c =>
    { c with inbuf := ⟨c.frames.toInt * (1000000 / c.fps.toInt), c.frames = 0⟩ }

/-- Pass a pending IDR request on; the vendor parameter is one-shot. -/
def forceKeyFrame (libs : VendorLibs) (a : NextAnswers) : VendorM Unit := do
  let w ← get
  when w.cap.forceIdr do
    when libs.videoEncSetParameter <|
      vendor (.videoEncSetParameter index.forceKeyFrame 1 a.forceRc)
    modifyCap fun c => { c with forceIdr := false }

def submit (a : NextAnswers) : VendorM Unit := do
  let w ← get
  let frames := w.cap.frames
  vendor .flushCacheAllocInputBuffer
  vendor (.addOneInputBuffer w.cap.inbuf a.addRc)
  when (a.addRc ≠ 0) <| fail s!"AddOneInputBuffer failed at frame {frames}"

def encode (a : NextAnswers) : VendorM Unit := do
  let w ← get
  let frames := w.cap.frames
  vendor (.videoEncodeOneFrame a.encodeRc)
  when (a.encodeRc ≠ 0) <| fail s!"VideoEncodeOneFrame failed at frame {frames}"
  modifyCap fun c => { c with encodeNs := c.encodeNs + (a.t2 - a.t1) }

/-- The bytes of the header, converted where they are an avcC record. -/
def headerSets (raw : Bytes) : Bytes :=
  if raw.length > 7 ∧ raw.headD 0 = 1 then avccRecordToAnnexb raw else raw

/-- The header names a buffer of an acceptable length. -/
def HeaderAnswer.usable (hdr : HeaderAnswer) : Bool :=
  hdr.rc = 0 ∧ hdr.pBuffer.isSome ∧ hdr.nLength ≠ 0 ∧ hdr.nLength.toNat ≤ spsPpsCap

/-- The bytes behind the header's pointer, which may have to be translated by the vendor. -/
def HeaderAnswer.raw (hdr : HeaderAnswer) (libs : VendorLibs) : Bytes :=
  let p := if libs.memOps.veGetViraddr then hdr.virAddr.or hdr.pBuffer else hdr.pBuffer
  (p.getD []).take hdr.nLength.toNat

/-- `fetch_sps_pps`: the Annex-B parameter sets, or empty if unavailable. -/
def fetchSpsPps (libs : VendorLibs) (hdr : HeaderAnswer) : VendorM Bytes :=
  if libs.videoEncGetParameter then do
    vendor (.videoEncGetParameter index.h264SpsPps hdr.rc)
    if hdr.usable then do
      when libs.memOps.veGetViraddr <| vendor .veGetViraddr
      pure (headerSets (hdr.raw libs))
    else pure []
  else pure []

/-- Grab the parameter sets once, after the first frame is encoded. -/
def fetchOnce (libs : VendorLibs) (a : NextAnswers) : VendorM Unit := do
  let w ← get
  when (w.cap.spsPpsFetched = false) do
    let sets ← fetchSpsPps libs a.header
    modifyCap fun c => { c with spsPps := sets, spsPpsFetched := true }

/-- Frame 0 gets its parameter sets up front. -/
def prefixFirstFrame : VendorM Unit :=
  modifyCap fun c =>
    if c.frames = 0 ∧ c.spsPps ≠ [] then { c with out := c.out ++ c.spsPps } else c

/-- The drain loop. A unit that cannot be retrieved ends it, or, where nothing was retrieved at
all, fails the call. -/
def drainLoop (beforeDrain : ℕ) : List (Option VencOutputBuffer) → VendorM Unit
  | [] => vendor (.validBitstreamFrameNum false)
  | none :: _ => do
    vendor (.validBitstreamFrameNum true)
    vendor (.getOneBitstreamFrame none)
    let w ← get
    let frames := w.cap.frames
    when (w.cap.out.length = beforeDrain) <|
      fail s!"GetOneBitstreamFrame failed at frame {frames}"
  | some o :: rest => do
    vendor (.validBitstreamFrameNum true)
    vendor (.getOneBitstreamFrame (some o))
    modifyCap fun c => { c with out := appendUnit c.out o }
    vendor (.freeOneBitstreamFrame o)
    drainLoop beforeDrain rest

def drain (a : NextAnswers) : VendorM Unit := do
  let w ← get
  drainLoop w.cap.out.length a.drain

/-- Give the used input buffer back to the pool. -/
def recycle (alreadyUsedRc : Int32) : VendorM Unit := do
  vendor (.alreadyUsedInputBuffer alreadyUsedRc)
  when (alreadyUsedRc = 0) <| vendor .returnOneAllocInputBuffer

/-- Check the next input buffer out. -/
def acquire (a : NextAnswers) : VendorM Unit := do
  modifyCap fun c => { c with inbuf := .zeroed }
  vendor (.getOneAllocInputBuffer a.getInputRc)
  when (a.getInputRc ≠ 0) do
    modifyCap fun c => { c with held := false }
    let w ← get
    let frames := w.cap.frames
    fail s!"GetOneAllocInputBuffer failed at frame {frames}"

/-- The frame handed back: parameter sets are repeated ahead of every keyframe that does not open
with one. -/
def finishFrame : VendorM Frame := do
  modifyCap fun c => { c with frames := c.frames + 1 }
  let w ← get
  let keyframe := firstSliceIsIdr w.cap.out
  when (keyframe ∧ w.cap.spsPps ≠ [] ∧ startsWithParameterSets w.cap.out = false) <|
    modifyCap fun c => { c with out := c.spsPps ++ c.out }
  let w ← get
  pure ⟨w.cap.out, keyframe⟩

/-- From the frame deadline to the panel in the input buffer. -/
def copyPanel (a : NextAnswers) : VendorM Unit := do
  pace a.now
  modifyCap fun c => { c with out := [] }
  readFramebuffer a
  convert a

/-- From the input buffer to an encoded frame. -/
def encodeInput (libs : VendorLibs) (a : NextAnswers) : VendorM Unit := do
  stampInput
  forceKeyFrame libs a
  submit a
  encode a

/-- From the encoded frame to its units in the output. -/
def collectOutput (libs : VendorLibs) (a : NextAnswers) : VendorM Unit := do
  fetchOnce libs a
  prefixFirstFrame
  drain a

/-- From the panel in the input buffer to the frame handed back. -/
def deliverFrame (libs : VendorLibs) (a : NextAnswers) : VendorM Frame := do
  encodeInput libs a
  collectOutput libs a
  recycle a.alreadyUsedRc
  acquire a
  finishFrame

/-- `next` on a capture that has not failed. -/
def nextLive (libs : VendorLibs) (a : NextAnswers) : VendorM Frame := do
  copyPanel a
  deliverFrame libs a

/-- `Capture::next`: a failure is terminal. -/
def next (libs : VendorLibs) (a : NextAnswers) : VendorM Frame := do
  let w ← get
  match w.cap.failed with
  | some e => bail e
  | none => nextLive libs a

/-! ## `Drop for Capture` -/

/-- The documented teardown order, up to the release of the slot. -/
def teardown (libs : VendorLibs) (alreadyUsedRc : Int32) : VendorM Unit := do
  let w ← get
  let c := w.cap
  when c.enc do
    when c.held <| recycle alreadyUsedRc
    when c.buffersAlloced <| vendor .releaseAllocInputBuffer
    when c.encInited <| vendor .videoEncUninit
    vendor .videoEncDestroy
  when (c.memOpen ∧ c.memops ∧ libs.memOps.close) <| vendor .cdcMemClose

/-! ## The life of one capture -/

/-- Where a capture is: claimed and not yet initialised; handed to the caller; on its way out
because `init` failed or `next` panicked; torn down. -/
inductive Phase where
  | opening (args : OpenArgs)
  | ready
  | unwinding
  | tornDown
  deriving DecidableEq, Repr

structure Session where
  phase : Phase
  world : World

/-- What its owner does with a capture. -/
inductive Call where
  | init (a : InitAnswers)
  | next (a : NextAnswers)
  | requestIdr
  | drop (alreadyUsedRc : Int32)

def World.emit (w : World) (e : Event) : World := { w with trace := w.trace ++ [e] }

/-- The session after `next` returned: the caller sees a frame or an error text, and a panic
unwinds through it. -/
def Session.ofNext : EStateM.Result Exit World Frame → Session
  | .ok f w => ⟨.ready, w.emit (.frame f)⟩
  | .error (.err e) w => ⟨.ready, w.emit (.failed e)⟩
  | .error .panic w => ⟨.unwinding, w⟩

/-- One call in the life of a capture; `none` where the owner cannot make it. -/
def Session.step (libs : VendorLibs) (s : Session) : Call → Option Session
  | .init a =>
    match s.phase with
    | .opening args =>
      match init libs args a s.world with
      | .ok _ w => some ⟨.ready, w⟩
      | .error _ w => some ⟨.unwinding, w⟩
    | _ => none
  | .next a => if s.phase = .ready then some (.ofNext (next libs a s.world)) else none
  | .requestIdr =>
    if s.phase = .ready then
      some { s with world := { s.world with cap := { s.world.cap with forceIdr := true } } }
    else none
  | .drop rc =>
    if s.phase = .ready ∨ s.phase = .unwinding then
      match teardown libs rc (s.world.emit .dropped) with
      | .ok _ w | .error _ w => some ⟨.tornDown, w⟩
    else none

/-- A capture whose slot was just claimed. -/
def Session.start (args : OpenArgs) : Session :=
  ⟨.opening args, ⟨.new args, [.claimed]⟩⟩

end RgspCast.Cedar
