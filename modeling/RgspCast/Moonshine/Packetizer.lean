import Mathlib.Data.Int.Notation
import RgspCast.Lib.ExceptState
import RgspCast.Lib.Layout
import RgspCast.Lib.Registry

/-!
# The video packetizer

`Packetizer::packetize` cuts an encoded frame, behind a header of eight bytes, into shards, adds
parity shards block by block and encrypts every shard where the client asked for it. It stops at the
first error, and what it has counted up to there stays counted.

The error correction (`Fec`) and the cipher (`Aead`) are parameters: both are crates of their own.
`packetize_spec` says what a call does: a batch consists of the shards of the frame's blocks
(`Shards`), numbered from the sequence number on, each in its slot (`Sealed`), and a call that fails
has counted some of them (`Cut`).
-/

namespace RgspCast.Video

open Layout ExceptState

/-! ## The constants -/

/-- `MAX_SHARDS`. -/
def maxShards : ℕ := 255

/-- `NV_VIDEO_PACKET_SIZE`. -/
def nvVideoPacketSize : ℕ := 16

/-- `NV_PACKET_OFFSET`: the RTP header and the padding. -/
def nvPacketOffset : ℕ := 12 + 4

/-- `PAYLOAD_OFFSET`. -/
def payloadOffset : ℕ := nvPacketOffset + nvVideoPacketSize

/-- `ENC_PREFIX_SIZE`: `iv(12) + frameNumber(4) + tag(16)`. -/
def encPrefixSize : ℕ := 12 + 4 + 16

/-- `VIDEO_FRAME_HEADER_SIZE`. -/
def videoFrameHeaderSize : ℕ := 8

/-- `RtpFlag`. -/
def containsPicData : UInt8 := 0x1
def endOfFrame : UInt8 := 0x2
def startOfFrame : UInt8 := 0x4

/-! ## The crates -/

/-- `fec_rs::ReedSolomon`. -/
structure Fec (RS : Type) where
  /-- `ReedSolomon::new`, from the numbers of data and parity shards. -/
  new : ℕ → ℕ → Option RS
  /-- `encode`: the parity shards of the data shards. -/
  encode : RS → List Bytes → Option (List Bytes)

/-- `Aes128Gcm`. -/
structure Aead (K : Type) where
  /-- `Aes128Gcm::new`, from the 16 bytes of the key. -/
  newKey : Bytes → K
  /-- `encrypt_in_place_detached` with a nonce and no associated data: the data and the tag. -/
  encrypt : K → Bytes → Bytes → Option (Bytes × Bytes)

/-! ## What is packetized -/

/-- `SessionKeyData`. -/
structure SessionKeyData where
  remoteInputKey : Bytes
  /-- An `i64`. -/
  remoteInputKeyId : ℤ
  deriving DecidableEq, Repr

/-- The arguments of `packetize` that stay the same for a session. -/
structure Config where
  requestedPacketSize : ℕ
  minimumFecPackets : UInt32
  fecPercentage : UInt8
  deriving DecidableEq, Repr

/-- The arguments of `packetize` that are those of the frame. -/
structure Frame where
  encodedData : Bytes
  isKeyFrame : Bool
  frameNumber : UInt32
  rtpTimestamp : UInt32
  frameProcessingLatency : UInt16
  deriving DecidableEq, Repr

/-- `VideoFrameHeader`. -/
structure VideoFrameHeader where
  headerType : UInt8
  frameProcessingLatency : UInt16
  frameType : UInt8
  lastPayloadLen : UInt32
  deriving DecidableEq, Repr

/-- `serialize`, into all of an 8-byte buffer. -/
def VideoFrameHeader.serialize (h : VideoFrameHeader) : Bytes :=
  h.headerType :: (le 2 h.frameProcessingLatency.toNat ++
    h.frameType :: le 4 h.lastPayloadLen.toNat)

/-- The bytes that `write_rtp_header` writes. -/
def rtpHeader (sequenceNumber : UInt16) (timestamp : UInt32) : Bytes :=
  [0x90, 0] ++ be 2 sequenceNumber.toNat ++ be 4 timestamp.toNat ++ be 4 0

/-- `write_rtp_header`. -/
def writeRtpHeader (buf : Bytes) (sequenceNumber : UInt16) (timestamp : UInt32) : Bytes :=
  splice 0 (rtpHeader sequenceNumber timestamp) buf

/-- The bytes that `write_nv_video_packet` writes. -/
def nvVideoPacket (streamPacketIndex frameIndex : UInt32) (flags multiFecBlocks : UInt8)
    (fecInfo : UInt32) : Bytes :=
  le 4 streamPacketIndex.toNat ++ le 4 frameIndex.toNat ++ [flags, 0, 0x10, multiFecBlocks] ++
    le 4 fecInfo.toNat

/-- `write_nv_video_packet`, into the part of the shard that is the packet. -/
def writeNvVideoPacket (buf : Bytes) (streamPacketIndex frameIndex : UInt32)
    (flags multiFecBlocks : UInt8) (fecInfo : UInt32) : Bytes :=
  splice nvPacketOffset (nvVideoPacket streamPacketIndex frameIndex flags multiFecBlocks fecInfo)
    buf

/-- The bytes that `copy_header_and_data` writes: `len` bytes from `offset` on, of the header and
the data behind it. -/
def copyHeaderAndData (header encodedData : Bytes) (offset len : ℕ) : Bytes :=
  let total := videoFrameHeaderSize + encodedData.length
  let stop := min (offset + len) total
  if offset < videoFrameHeaderSize then
    let headerEnd := min videoFrameHeaderSize stop
    slice offset (headerEnd - offset) header ++
      if videoFrameHeaderSize < stop then encodedData.take (stop - videoFrameHeaderSize) else []
  else
    let dataStart := offset - videoFrameHeaderSize
    let dataEnd := stop - videoFrameHeaderSize
    slice dataStart (dataEnd - dataStart) encodedData

/-! ## How a frame is cut -/

/-- `requested_shard_payload_size`. -/
def Config.payloadSize (c : Config) : ℕ := c.requestedPacketSize - nvVideoPacketSize

/-- `requested_shard_size`. -/
def Config.shardSize (c : Config) : ℕ := payloadOffset + c.payloadSize

/-- `nr_parity_shards_per_block`. -/
def Config.nrParityShardsPerBlock (c : Config) : ℕ :=
  maxShards * c.fecPercentage.toNat / (100 + c.fecPercentage.toNat)

/-- `nr_data_shards_per_block`. -/
def Config.nrDataShardsPerBlock (c : Config) : ℕ := maxShards - c.nrParityShardsPerBlock

/-- `packet_data_len`. -/
def Frame.packetDataLen (f : Frame) : ℕ := videoFrameHeaderSize + f.encodedData.length

/-- `last_shard_size`. -/
def lastShardSize (c : Config) (f : Frame) : ℕ :=
  let r := f.packetDataLen % c.payloadSize
  if r = 0 then c.payloadSize else r

/-- `video_frame_header`. -/
def videoFrameHeader (c : Config) (f : Frame) : VideoFrameHeader where
  headerType := 0x01
  frameProcessingLatency := f.frameProcessingLatency
  frameType := if f.isKeyFrame then 2 else 1
  lastPayloadLen := UInt32.ofNat (lastShardSize c f)

/-- `nr_data_shards` of the frame. -/
def nrDataShards (c : Config) (f : Frame) : ℕ :=
  (f.packetDataLen + c.payloadSize - 1) / c.payloadSize

/-- `nr_blocks`. -/
def nrBlocks (c : Config) (f : Frame) : ℕ :=
  (nrDataShards c f - 1) / c.nrDataShardsPerBlock + 1

/-- `last_block_index`. -/
def lastBlockIndex (c : Config) (f : Frame) : UInt8 := UInt8.ofNat (min (nrBlocks c f) 4 - 1) <<< 6

/-- A block: its index and its data shards. -/
structure Block where
  blockIndex : ℕ
  start : ℕ
  stop : ℕ
  deriving DecidableEq, Repr

/-- `nr_data_shards` of the block. -/
def Block.nrDataShards (b : Block) : ℕ := b.stop - b.start

/-- The number of parity shards for so many data shards. -/
def Config.nrParityShards (c : Config) (nrDataShards : ℕ) : ℕ :=
  min (max (nrDataShards * c.fecPercentage.toNat / 100) c.minimumFecPackets.toNat)
    (maxShards - nrDataShards)

/-- The percentage that is computed anew for the block. -/
def Config.blockPercentage (c : Config) (b : Block) : ℕ :=
  c.nrParityShards b.nrDataShards * 100 / b.nrDataShards

/-- The block of one round of the loop. The fourth takes all that is left. -/
def blockAt (c : Config) (f : Frame) (i : ℕ) : Block where
  blockIndex := i
  start := i * c.nrDataShardsPerBlock
  stop := if i = 3 then nrDataShards c f
    else min ((i + 1) * c.nrDataShardsPerBlock) (nrDataShards c f)

/-- The blocks that the loop goes through, which it leaves after the fourth. -/
def blocks (c : Config) (f : Frame) : List Block :=
  (List.range (min (nrBlocks c f) 4)).map (blockAt c f)

/-- `multi_fec_blocks`. -/
def multiFecBlocks (c : Config) (f : Frame) (b : Block) : UInt8 :=
  UInt8.ofNat b.blockIndex <<< 4 ||| lastBlockIndex c f

/-- `fec_info` of a shard of the block. -/
def fecInfo (c : Config) (b : Block) (shardIndex : ℕ) : UInt32 :=
  UInt32.ofNat (shardIndex <<< 12 ||| b.nrDataShards <<< 22 ||| c.blockPercentage b <<< 4)

/-- The data shard at a place in the block, as it is written into the zeroed buffer. -/
def dataShard (c : Config) (f : Frame) (b : Block) (sequenceNumber : UInt32) (i : ℕ) : Bytes :=
  let payloadStart := (b.start + i) * c.payloadSize
  let payloadLen := min c.payloadSize (f.packetDataLen - payloadStart)
  let shard := List.replicate c.shardSize 0
  let shard := writeRtpHeader shard sequenceNumber.toUInt16 f.rtpTimestamp
  let flags := containsPicData ||| (if i = 0 then startOfFrame else 0) |||
    (if i = b.nrDataShards - 1 then endOfFrame else 0)
  let shard := writeNvVideoPacket shard (sequenceNumber <<< 8) f.frameNumber flags
    (multiFecBlocks c f b) (fecInfo c b i)
  splice payloadOffset (copyHeaderAndData (videoFrameHeader c f).serialize f.encodedData
    payloadStart payloadLen) shard

/-- What is written into the first bytes of a parity shard. -/
def parityRtp (sequenceNumber : UInt32) : Bytes :=
  [0x90, 0] ++ be 2 sequenceNumber.toUInt16.toNat

/-- The fields that are written into a parity shard, which is the `i`-th shard of the block. -/
def patchParity (c : Config) (f : Frame) (b : Block) (sequenceNumber : UInt32) (i : ℕ)
    (shard : Bytes) : Bytes :=
  let shard := splice 0 (parityRtp sequenceNumber) shard
  let shard := splice (nvPacketOffset + 4) (le 4 f.frameNumber.toNat) shard
  let shard := splice (nvPacketOffset + 11) [multiFecBlocks c f b] shard
  splice (nvPacketOffset + 12) (le 4 (fecInfo c b i).toNat) shard

/-! ## The packetizer -/

/-- `ShardBatch`. -/
structure ShardBatch where
  data : Bytes
  shardSize : ℕ
  deriving DecidableEq, Repr

/-- `Packetizer`. -/
structure Packetizer (RS K : Type) where
  fecEncoders : Registry (Prod.fst : (ℕ × ℕ) × RS → ℕ × ℕ)
  encrypt : Bool
  cipher : Option K
  lastKeyId : ℤ
  gcmIvCounter : UInt64

/-- The packetizer and the loop's sequence number. -/
structure State (RS K : Type) extends Packetizer RS K where
  sequenceNumber : UInt32

/-- How a call of `packetize` ends early. -/
inductive Fault where
  | panic
  /-- `Err(())`. -/
  | err
  deriving DecidableEq, Repr

/-- `i64::MIN`. -/
def i64Min : ℤ := -9223372036854775808

section

variable {RS K : Type} (fec : Fec RS) (aead : Aead K)

/-- `Packetizer::new`. -/
def Packetizer.new (encrypt : Bool) : Packetizer RS K where
  fecEncoders := .empty _
  encrypt := encrypt
  cipher := none
  lastKeyId := i64Min
  gcmIvCounter := 0

/-- `maybe_update_cipher`, where `keys` is what the watch channel holds. -/
def maybeUpdateCipher (keys : SessionKeyData) (s : State RS K) : State RS K :=
  if ¬ s.encrypt then s
  else if keys.remoteInputKeyId = s.lastKeyId then s
  else if keys.remoteInputKey.length ≠ 16 then
    { s with lastKeyId := keys.remoteInputKeyId, cipher := none }
  else
    { s with
      lastKeyId := keys.remoteInputKeyId
      cipher := some (aead.newKey keys.remoteInputKey)
      gcmIvCounter := 0 }

/-- `get_fec_encoder`. -/
def getFecEncoder (nrDataShards nrParityShards : ℕ) : EStateM Fault (State RS K) RS := do
  let s ← get
  match s.fecEncoders.get? (nrDataShards, nrParityShards) with
  | some e => return e.2
  | none =>
    match fec.new nrDataShards nrParityShards with
    | none => throw .err
    | some rs =>
      modify fun s =>
        { s with fecEncoders := s.fecEncoders.insert ((nrDataShards, nrParityShards), rs) }
      return rs

/-- `warm_up`. An encoder that cannot be made is passed over. -/
def warmUp (c : Config) (maxDataShards : ℕ) (s : State RS K) : State RS K :=
  ((List.range (min c.nrDataShardsPerBlock maxDataShards)).map (· + 1)).foldl (fun s n =>
    if 0 < c.nrParityShards n then
      match getFecEncoder fec n (c.nrParityShards n) s with
      | .ok _ s' => s'
      | .error _ s' => s'
    else s) s

/-- The loop that writes the data shards of a block, the first with the number `q`. -/
def dataShards (c : Config) (f : Frame) (b : Block) (q : UInt32) : List Bytes :=
  (List.range b.nrDataShards).map fun i => dataShard c f b (q + UInt32.ofNat i) i

/-- The loop that writes into the parity shards, the rows that the encoder gives. -/
def parityShards (c : Config) (f : Frame) (b : Block) (q : UInt32) (rows : List Bytes) :
    List Bytes :=
  (List.range (c.nrParityShards b.nrDataShards)).map fun j =>
    patchParity c f b (q + UInt32.ofNat j) (b.nrDataShards + j)
      (rows.getD j (List.replicate c.shardSize 0))

/-- The initialisation vector of a shard. -/
def ivOf (counter : UInt64) : Bytes := le 8 counter.toNat ++ [0, 0, 0, 0x56]

/-- The loop that encrypts the shards: each behind its prefix. -/
def encryptShards (key : K) (f : Frame) : List Bytes → EStateM Fault (State RS K) (List Bytes)
  | [] => return []
  | shard :: shards => do
    let s ← get
    let iv := ivOf s.gcmIvCounter
    set { s with gcmIvCounter := s.gcmIvCounter + 1 }
    match aead.encrypt key iv shard with
    | none => throw .err
    | some (data, tag) =>
      let rest ← encryptShards key f shards
      return (iv ++ le 4 f.frameNumber.toNat ++ tag ++ data) :: rest

/-- The last step for a block: its shards are encrypted if there is a cipher. -/
def sealShards (cipher : Option K) (f : Frame) (shards : List Bytes) :
    EStateM Fault (State RS K) (List Bytes) :=
  match cipher with
  | none => pure shards
  | some key => encryptShards aead key f shards

/-- The body of the loop over the blocks: the shards of the block, each with its prefix. -/
def packetizeBlock (c : Config) (f : Frame) (b : Block) :
    EStateM Fault (State RS K) (List Bytes) := do
  let nrParityShards := c.nrParityShards b.nrDataShards
  let encoder ← if 0 < nrParityShards then
      some <$> getFecEncoder fec b.nrDataShards nrParityShards
    else pure none
  let s ← get
  let data := dataShards c f b s.sequenceNumber
  set { s with sequenceNumber := s.sequenceNumber + UInt32.ofNat b.nrDataShards }
  match encoder with
  | none => sealShards aead s.cipher f data
  | some rs =>
    match fec.encode rs data with
    | none => throw .err
    | some rows => do
      let s ← get
      let parity := parityShards c f b s.sequenceNumber rows
      set { s with sequenceNumber := s.sequenceNumber + UInt32.ofNat nrParityShards }
      sealShards aead s.cipher f (data ++ parity)

/-- The loop over the blocks. -/
def packetizeBlocks (c : Config) (f : Frame) :
    List Block → EStateM Fault (State RS K) (List Bytes)
  | [] => return []
  | b :: bs => do
    let shards ← packetizeBlock fec aead c f b
    let rest ← packetizeBlocks c f bs
    return shards ++ rest

/-- `packetize`. With a packet size below 16 the subtraction underflows, and what it wraps to leaves
no room for the packet in the shard; 16 is a division by zero. -/
def packetize (c : Config) (keys : SessionKeyData) (f : Frame) :
    EStateM Fault (State RS K) ShardBatch := do
  modify (maybeUpdateCipher aead keys)
  if c.requestedPacketSize ≤ nvVideoPacketSize then throw .panic
  let s ← get
  let prefixSize := if s.cipher.isSome then encPrefixSize else 0
  let shards ← packetizeBlocks fec aead c f (blocks c f)
  return { data := shards.flatten, shardSize := prefixSize + c.shardSize }

/-! ## What a batch consists of -/

/-- Every encoder in the cache is the one that would be made anew. -/
def Coherent (s : State RS K) : Prop :=
  ∀ k rs, s.fecEncoders.get? k = some (k, rs) → fec.new k.1 k.2 = some rs

/-- The rows that the encoder gives for a block: none where there is no parity. -/
def ParityRows (c : Config) (b : Block) (data rows : List Bytes) : Prop :=
  if 0 < c.nrParityShards b.nrDataShards then
    ∃ rs, fec.new b.nrDataShards (c.nrParityShards b.nrDataShards) = some rs ∧
      fec.encode rs data = some rows
  else rows = []

/-- The shards of blocks, numbered from `q` on, with the number behind the last. -/
inductive Shards (c : Config) (f : Frame) : UInt32 → List Block → List Bytes → UInt32 → Prop where
  | nil (q : UInt32) : Shards c f q [] [] q
  | cons {q q' : UInt32} {b : Block} {bs : List Block} {rows rest : List Bytes}
      (hrows : ParityRows fec c b (dataShards c f b q) rows)
      (hrest : Shards c f (q + UInt32.ofNat b.nrDataShards +
        UInt32.ofNat (c.nrParityShards b.nrDataShards)) bs rest q') :
      Shards c f q (b :: bs) (dataShards c f b q ++
        parityShards c f b (q + UInt32.ofNat b.nrDataShards) rows ++ rest) q'

/-- The datagrams of shards that are encrypted with the counters from `n` on. -/
inductive Encrypted (key : K) (f : Frame) : UInt64 → List Bytes → List Bytes → UInt64 → Prop where
  | nil (n : UInt64) : Encrypted key f n [] [] n
  | cons {n n' : UInt64} {shard data tag : Bytes} {shards rest : List Bytes}
      (hseal : aead.encrypt key (ivOf n) shard = some (data, tag))
      (hrest : Encrypted key f (n + 1) shards rest n') :
      Encrypted key f n (shard :: shards)
        ((ivOf n ++ le 4 f.frameNumber.toNat ++ tag ++ data) :: rest) n'

/-- The datagrams of shards. -/
inductive Sealed (f : Frame) : Option K → UInt64 → List Bytes → List Bytes → UInt64 → Prop where
  | plain (n : UInt64) (shards : List Bytes) : Sealed f none n shards shards n
  | encrypted {key : K} {n n' : UInt64} {shards slots : List Bytes}
      (h : Encrypted aead key f n shards slots n') : Sealed f (some key) n shards slots n'

variable {fec aead}

/-- The encoder comes from the cache, or is made and put there; one that cannot be made is an
error. -/
theorem getFecEncoder_apply (nd np : ℕ) (s : State RS K) :
    getFecEncoder fec nd np s =
      match s.fecEncoders.get? (nd, np) with
      | some e => .ok e.2 s
      | none =>
        match fec.new nd np with
        | none => .error .err s
        | some rs => .ok rs { s with fecEncoders := s.fecEncoders.insert ((nd, np), rs) } := by
  rw [getFecEncoder, get_bind_apply]
  cases s.fecEncoders.get? (nd, np) with
  | some e => rfl
  | none => cases fec.new nd np <;> rfl

/-- A new packetizer has an empty cache. -/
theorem coherent_new (encrypt : Bool) (q : UInt32) :
    Coherent fec ({ Packetizer.new encrypt with sequenceNumber := q } : State RS K) := by
  intro k rs h
  cases h

/-- The cache stays coherent when a new encoder is put into it. -/
theorem Coherent.insert {s : State RS K} (hs : Coherent fec s) {nd np : ℕ} {rs : RS}
    (hnew : fec.new nd np = some rs) :
    Coherent fec { s with fecEncoders := s.fecEncoders.insert ((nd, np), rs) } := by
  intro k rs' h
  change (s.fecEncoders.insert ((nd, np), rs)).get? k = some (k, rs') at h
  rw [Registry.get?_insert] at h
  split_ifs at h with hk
  · obtain ⟨rfl, rfl⟩ := Prod.mk.inj (Option.some.inj h)
    exact hnew
  · exact hs k rs' h

/-- With a coherent cache, an encoder is what would be made anew, and only the cache changes. -/
theorem getFecEncoder_coherent (nd np : ℕ) {s : State RS K} (hs : Coherent fec s) :
    ∃ cache, Coherent fec { s with fecEncoders := cache } ∧
      getFecEncoder fec nd np s =
        match fec.new nd np with
        | none => .error .err { s with fecEncoders := cache }
        | some rs => .ok rs { s with fecEncoders := cache } := by
  rw [getFecEncoder_apply]
  cases hget : s.fecEncoders.get? (nd, np) with
  | some e =>
    obtain ⟨k, rs⟩ := e
    obtain rfl : k = (nd, np) := (Registry.get?_eq_some_iff.mp hget).2
    refine ⟨s.fecEncoders, hs, ?_⟩
    rw [hs _ rs hget]
  | none =>
    cases hnew : fec.new nd np with
    | none => exact ⟨s.fecEncoders, hs, rfl⟩
    | some rs => exact ⟨_, hs.insert hnew, rfl⟩

/-! ## What a call does to the state -/

/-- The state with so many shards numbered and so many encrypted. -/
def State.counted (s : State RS K) (shards encrypted : ℕ) : State RS K :=
  { s with
    sequenceNumber := s.sequenceNumber + UInt32.ofNat shards
    gcmIvCounter := s.gcmIvCounter + UInt64.ofNat encrypted }

/-- Shards counted one after the other are counted together. -/
theorem State.counted_counted (s : State RS K) (a b a' b' : ℕ) :
    (s.counted a b).counted a' b' = s.counted (a + a') (b + b') := by
  simp only [State.counted, UInt32.ofNat_add, UInt64.ofNat_add, UInt32.add_assoc, UInt64.add_assoc]

@[simp] theorem State.counted_zero (s : State RS K) : s.counted 0 0 = s := by
  simp [State.counted]

/-- A data shard that is only numbered leaves the counter of the cipher. -/
theorem State.counted_left (s : State RS K) (a : ℕ) :
    s.counted a 0 = { s with sequenceNumber := s.sequenceNumber + UInt32.ofNat a } := by
  simp [State.counted]

@[simp] theorem State.counted_fecEncoders (s : State RS K) (a b : ℕ) :
    (s.counted a b).fecEncoders = s.fecEncoders := rfl

@[simp] theorem State.counted_cipher (s : State RS K) (a b : ℕ) :
    (s.counted a b).cipher = s.cipher := rfl

/-- One shard is encrypted under the counter, which goes up even where the encryption fails. -/
theorem encryptShards_cons (key : K) (f : Frame) (shard : Bytes) (shards : List Bytes)
    (s : State RS K) :
    encryptShards aead key f (shard :: shards) s =
      match aead.encrypt key (ivOf s.gcmIvCounter) shard with
      | none => .error .err (s.counted 0 1)
      | some (data, tag) =>
        match encryptShards aead key f shards (s.counted 0 1) with
        | .ok rest s' =>
          .ok ((ivOf s.gcmIvCounter ++ le 4 f.frameNumber.toNat ++ tag ++ data) :: rest) s'
        | .error e s' => .error e s' := by
  have hnext : s.counted 0 1 = { s with gcmIvCounter := s.gcmIvCounter + 1 } := by
    simp [State.counted]
  rw [hnext, encryptShards, get_bind_apply]
  cases hseal : aead.encrypt key (ivOf s.gcmIvCounter) shard with
  | none => rfl
  | some p =>
    obtain ⟨data, tag⟩ := p
    change (encryptShards aead key f shards >>= _) _ = _
    cases hrest : encryptShards aead key f shards { s with gcmIvCounter := s.gcmIvCounter + 1 } with
    | ok rest s' =>
      rw [bind_apply_ok hrest]
      rfl
    | error e s' => rw [bind_apply_error hrest]

/-- The shards are encrypted under consecutive counters, up to the first that cannot be. -/
theorem encryptShards_spec (key : K) (f : Frame) (shards : List Bytes) (s : State RS K) :
    Spec (· = s) (encryptShards aead key f shards)
      (fun slots s' => Encrypted aead key f s.gcmIvCounter shards slots s'.gcmIvCounter ∧
        s' = s.counted 0 shards.length)
      (fun e s' => e = .err ∧ ∃ n ≤ shards.length, s' = s.counted 0 n) := by
  induction shards generalizing s with
  | nil =>
    rintro s rfl
    exact ⟨.nil _, s.counted_zero.symm⟩
  | cons shard shards ih =>
    rintro s rfl
    rw [encryptShards_cons]
    rcases hseal : aead.encrypt key (ivOf s.gcmIvCounter) shard with _ | ⟨data, tag⟩
    -- the counter is taken before `encrypt` fails
    · exact ⟨rfl, 1, by simp, rfl⟩
    · have hrest := ih (s.counted 0 1) _ rfl
      cases hrun : encryptShards aead key f shards (s.counted 0 1) with
      | ok rest s' =>
        rw [hrun] at hrest
        obtain ⟨henc, rfl⟩ := hrest
        rw [State.counted_counted] at henc ⊢
        refine ⟨.cons hseal henc, ?_⟩
        rw [List.length_cons, Nat.add_comm 1]
      | error e s' =>
        rw [hrun] at hrest
        obtain ⟨rfl, n, hn, rfl⟩ := hrest
        exact ⟨rfl, 1 + n, by simp only [List.length_cons]; omega, s.counted_counted 0 1 0 n⟩

variable (aead) in
/-- With or without a cipher the datagrams are those of the shards, and only the counter moves. -/
theorem sealShards_spec (f : Frame) (shards : List Bytes) (s : State RS K) :
    Spec (· = s) (sealShards aead s.cipher f shards)
      (fun slots s' => Sealed aead f s.cipher s.gcmIvCounter shards slots s'.gcmIvCounter ∧
        ∃ n ≤ shards.length, s' = s.counted 0 n)
      (fun e s' => e = .err ∧ ∃ n ≤ shards.length, s' = s.counted 0 n) := by
  cases hc : s.cipher with
  | none =>
    rintro s rfl
    exact ⟨.plain _ _, 0, Nat.zero_le _, s.counted_zero.symm⟩
  | some key =>
    refine (encryptShards_spec key f shards s).conseq (fun _ h => h) ?_ fun _ _ h => h
    rintro slots s' ⟨henc, hs'⟩
    exact ⟨.encrypted henc, _, Nat.le_refl _, hs'⟩

/-- The number of shards of a block. -/
def Config.nrShards (c : Config) (b : Block) : ℕ :=
  b.nrDataShards + c.nrParityShards b.nrDataShards

/-- A block without parity needs no encoder. -/
theorem packetizeBlock_plain {c : Config} {b : Block} (h : ¬ 0 < c.nrParityShards b.nrDataShards)
    (f : Frame) (s : State RS K) :
    packetizeBlock fec aead c f b s =
      sealShards aead s.cipher f (dataShards c f b s.sequenceNumber)
        (s.counted b.nrDataShards 0) := by
  simp only [packetizeBlock, if_neg h, pure_bind]
  rw [get_bind_apply, State.counted_left]
  rfl

/-- A block with parity, step by step: the encoder, the rows, the parity shards, the cipher. -/
theorem packetizeBlock_parity {c : Config} {b : Block} (h : 0 < c.nrParityShards b.nrDataShards)
    (f : Frame) (s : State RS K) :
    packetizeBlock fec aead c f b s =
      match getFecEncoder fec b.nrDataShards (c.nrParityShards b.nrDataShards) s with
      | .error e s' => .error e s'
      | .ok rs s' =>
        match fec.encode rs (dataShards c f b s'.sequenceNumber) with
        -- the data shards were numbered already
        | none => .error .err (s'.counted b.nrDataShards 0)
        | some rows =>
          sealShards aead s'.cipher f (dataShards c f b s'.sequenceNumber ++
            parityShards c f b (s'.sequenceNumber + UInt32.ofNat b.nrDataShards) rows)
            (s'.counted (c.nrShards b) 0) := by
  simp only [packetizeBlock, if_pos h, map_eq_pure_bind, bind_assoc, pure_bind]
  cases hget : getFecEncoder fec b.nrDataShards (c.nrParityShards b.nrDataShards) s with
  | error e s' => rw [bind_apply_error hget]
  | ok rs s' =>
    rw [bind_apply_ok hget, get_bind_apply]
    cases henc : fec.encode rs (dataShards c f b s'.sequenceNumber) with
    | none =>
      simp only [henc, State.counted_left]
      rfl
    | some rows =>
      simp only [henc, State.counted_left, Config.nrShards, UInt32.ofNat_add, ← UInt32.add_assoc]
      rfl

/-- The state with another cache. -/
def State.withCache (s : State RS K) (cache : Registry (Prod.fst : (ℕ × ℕ) × RS → ℕ × ℕ)) :
    State RS K :=
  { s with fecEncoders := cache }

@[simp] theorem State.withCache_self (s : State RS K) : s.withCache s.fecEncoders = s := rfl

@[simp] theorem State.withCache_cipher (s : State RS K)
    (cache : Registry (Prod.fst : (ℕ × ℕ) × RS → ℕ × ℕ)) :
    (s.withCache cache).cipher = s.cipher := rfl

@[simp] theorem State.withCache_sequenceNumber (s : State RS K)
    (cache : Registry (Prod.fst : (ℕ × ℕ) × RS → ℕ × ℕ)) :
    (s.withCache cache).sequenceNumber = s.sequenceNumber := rfl

@[simp] theorem State.withCache_gcmIvCounter (s : State RS K)
    (cache : Registry (Prod.fst : (ℕ × ℕ) × RS → ℕ × ℕ)) :
    (s.withCache cache).gcmIvCounter = s.gcmIvCounter := rfl

/-- Counting and the cache commute. -/
theorem State.counted_withCache (s : State RS K) (a b : ℕ)
    (cache : Registry (Prod.fst : (ℕ × ℕ) × RS → ℕ × ℕ)) :
    (s.counted a b).withCache cache = (s.withCache cache).counted a b := rfl

/-- What a call has done to the state when it ends early: some of `n` shards are counted. -/
def Cut (fec : Fec RS) (n : ℕ) (s : State RS K) (e : Fault) (s' : State RS K) : Prop :=
  e = .err ∧ ∃ cache, ∃ m ≤ n, ∃ k ≤ n, Coherent fec (s.withCache cache) ∧
    s' = (s.withCache cache).counted m k

/-- Shards that are not encrypted do not count for the cipher. -/
@[simp] theorem State.counted_gcmIvCounter_zero (s : State RS K) (a : ℕ) :
    (s.counted a 0).gcmIvCounter = s.gcmIvCounter := by
  simp [State.counted]

/-- The loop writes as many data shards as the block has. -/
theorem length_dataShards (c : Config) (f : Frame) (b : Block) (q : UInt32) :
    (dataShards c f b q).length = b.nrDataShards := by
  rw [dataShards, List.length_map, List.length_range]

/-- There are as many parity shards as the block asks for, however many rows the encoder gives. -/
theorem length_parityShards (c : Config) (f : Frame) (b : Block) (q : UInt32)
    (rows : List Bytes) :
    (parityShards c f b q rows).length = c.nrParityShards b.nrDataShards := by
  rw [parityShards, List.length_map, List.length_range]

variable (aead) in
/-- `sealShards` behind shards that have been numbered. -/
theorem sealShards_counted (f : Frame) (shards : List Bytes) (s : State RS K) (a : ℕ) :
    Spec (· = s.counted a 0) (sealShards aead s.cipher f shards)
      (fun slots s' => Sealed aead f s.cipher s.gcmIvCounter shards slots s'.gcmIvCounter ∧
        ∃ n ≤ shards.length, s' = s.counted a n)
      (fun e s' => e = .err ∧ ∃ n ≤ shards.length, s' = s.counted a n) := by
  have hspec := sealShards_spec aead f shards (s.counted a 0)
  simp only [State.counted_cipher, State.counted_gcmIvCounter_zero, State.counted_counted,
    Nat.add_zero, Nat.zero_add] at hspec
  exact hspec

variable (aead) in
/-- What one block leaves: its shards are numbered in order, data before parity, and sealed one
after the other; a block that fails has counted some of its shards. -/
theorem packetizeBlock_spec (c : Config) (f : Frame) (b : Block) {s : State RS K}
    (hs : Coherent fec s) :
    Spec (· = s) (packetizeBlock fec aead c f b)
      (fun slots s' => ∃ rows cache, ∃ n ≤ c.nrShards b,
        ParityRows fec c b (dataShards c f b s.sequenceNumber) rows ∧
        Sealed aead f s.cipher s.gcmIvCounter (dataShards c f b s.sequenceNumber ++
          parityShards c f b (s.sequenceNumber + UInt32.ofNat b.nrDataShards) rows) slots
          s'.gcmIvCounter ∧
        Coherent fec (s.withCache cache) ∧
        s' = (s.withCache cache).counted (c.nrShards b) n)
      (Cut fec (c.nrShards b) s) := by
  rintro s rfl
  by_cases h : 0 < c.nrParityShards b.nrDataShards
  · rw [packetizeBlock_parity h]
    obtain ⟨cache, hcache, hget⟩ := getFecEncoder_coherent b.nrDataShards
      (c.nrParityShards b.nrDataShards) hs
    rw [hget]
    cases hnew : fec.new b.nrDataShards (c.nrParityShards b.nrDataShards) with
    -- no encoder for this shape: nothing is numbered
    | none => exact ⟨rfl, cache, 0, Nat.zero_le _, 0, Nat.zero_le _, hcache,
        (State.counted_zero _).symm⟩
    | some rs =>
      cases henc : fec.encode rs (dataShards c f b s.sequenceNumber) with
      -- the data shards are numbered by the time the encoding fails
      | none =>
        simp only [henc]
        exact ⟨rfl, cache, _, Nat.le_add_right _ _, 0, Nat.zero_le _, hcache, rfl⟩
      | some rows =>
        simp only [henc]
        have hlen : (dataShards c f b s.sequenceNumber ++ parityShards c f b
            (s.sequenceNumber + UInt32.ofNat b.nrDataShards) rows).length = c.nrShards b := by
          rw [List.length_append, length_dataShards, length_parityShards, Config.nrShards]
        have hrows : ParityRows fec c b (dataShards c f b s.sequenceNumber) rows := by
          rw [ParityRows, if_pos h]
          exact ⟨rs, hnew, henc⟩
        -- all shards are numbered before the first is encrypted
        have hseal := sealShards_counted aead f (dataShards c f b s.sequenceNumber ++
          parityShards c f b (s.sequenceNumber + UInt32.ofNat b.nrDataShards) rows)
          (s.withCache cache) (c.nrShards b)
        rw [hlen] at hseal
        refine hseal.conseq (fun _ ht => ht) ?_ ?_ _ rfl
        · rintro slots s' ⟨hsealed, n, hn, rfl⟩
          exact ⟨rows, cache, n, hn, hrows, hsealed, hcache, rfl⟩
        · rintro e s' ⟨rfl, n, hn, rfl⟩
          exact ⟨rfl, cache, _, Nat.le_refl _, n, hn, hcache, rfl⟩
  -- without parity there are only the data shards
  · have hzero : c.nrParityShards b.nrDataShards = 0 := Nat.eq_zero_of_not_pos h
    have hnr : c.nrShards b = b.nrDataShards := by rw [Config.nrShards, hzero, Nat.add_zero]
    have hparity : parityShards c f b (s.sequenceNumber + UInt32.ofNat b.nrDataShards) [] = [] := by
      rw [parityShards, hzero]
      rfl
    have hrows : ParityRows fec c b (dataShards c f b s.sequenceNumber) [] := by
      rw [ParityRows, if_neg h]
    rw [packetizeBlock_plain h, hnr]
    have hseal := sealShards_counted aead f (dataShards c f b s.sequenceNumber) s
      b.nrDataShards
    rw [length_dataShards] at hseal
    refine hseal.conseq (fun _ ht => ht) ?_ ?_ _ rfl
    · rintro slots s' ⟨hsealed, n, hn, rfl⟩
      refine ⟨[], s.fecEncoders, n, hn, hrows, ?_, hs, rfl⟩
      rwa [hparity, List.append_nil]
    · rintro e s' ⟨rfl, n, hn, rfl⟩
      exact ⟨rfl, s.fecEncoders, _, Nat.le_refl _, n, hn, hs, rfl⟩

/-- Encryption goes on with the counter that the first shards left. -/
theorem Encrypted.append {key : K} {f : Frame} {n n' n'' : UInt64} {as bs xs ys : List Bytes}
    (h : Encrypted aead key f n as xs n') (h' : Encrypted aead key f n' bs ys n'') :
    Encrypted aead key f n (as ++ bs) (xs ++ ys) n'' := by
  induction h with
  | nil => exact h'
  | cons hseal _ ih => exact .cons hseal (ih h')

/-- Datagrams of shards that follow each other. -/
theorem Sealed.append {cipher : Option K} {f : Frame} {n n' n'' : UInt64}
    {as bs xs ys : List Bytes} (h : Sealed aead f cipher n as xs n')
    (h' : Sealed aead f cipher n' bs ys n'') :
    Sealed aead f cipher n (as ++ bs) (xs ++ ys) n'' := by
  cases h with
  | plain =>
    cases h' with
    | plain => exact .plain _ _
  | encrypted h =>
    cases h' with
    | encrypted h' => exact .encrypted (h.append h')

theorem Sealed.nil (f : Frame) (cipher : Option K) (n : UInt64) :
    Sealed aead f cipher n [] [] n := by
  cases cipher with
  | none => exact .plain _ _
  | some key => exact .encrypted (.nil n)

/-- Two blocks one after the other: their counts add up, and the second cache stays. -/
theorem State.counted_withCache_counted (s : State RS K) (a b a' b' : ℕ)
    (cache cache' : Registry (Prod.fst : (ℕ × ℕ) × RS → ℕ × ℕ)) :
    (((s.withCache cache).counted a b).withCache cache').counted a' b' =
      (s.withCache cache').counted (a + a') (b + b') :=
  State.counted_counted (s.withCache cache') a b a' b'

/-- The number of shards of the blocks. -/
def Config.totalShards (c : Config) (bs : List Block) : ℕ := (bs.map c.nrShards).sum

variable (aead) in
/-- The loop over the blocks, by induction from `packetizeBlock_spec`. -/
theorem packetizeBlocks_spec (c : Config) (f : Frame) (bs : List Block) {s : State RS K}
    (hs : Coherent fec s) :
    Spec (· = s) (packetizeBlocks fec aead c f bs)
      (fun slots s' => ∃ shards cache, ∃ n ≤ c.totalShards bs,
        Shards fec c f s.sequenceNumber bs shards s'.sequenceNumber ∧
        Sealed aead f s.cipher s.gcmIvCounter shards slots s'.gcmIvCounter ∧
        Coherent fec (s.withCache cache) ∧
        s' = (s.withCache cache).counted (c.totalShards bs) n)
      (Cut fec (c.totalShards bs) s) := by
  induction bs generalizing s with
  | nil =>
    rintro s rfl
    exact ⟨[], s.fecEncoders, 0, Nat.le_refl _, .nil _, .nil _ _ _, hs, s.counted_zero.symm⟩
  | cons b bs ih =>
    rintro s rfl
    have htotal : c.totalShards (b :: bs) = c.nrShards b + c.totalShards bs := by
      simp only [Config.totalShards, List.map_cons, List.sum_cons]
    have hblock := packetizeBlock_spec aead c f b hs _ rfl
    rw [packetizeBlocks]
    cases hrun : packetizeBlock fec aead c f b s with
    -- the first block fails, and the others are not begun
    | error e s₁ =>
      rw [hrun] at hblock
      obtain ⟨rfl, cache, m, hm, k, hk, hcache, rfl⟩ := hblock
      rw [bind_apply_error hrun]
      exact ⟨rfl, cache, m, by omega, k, by omega, hcache, rfl⟩
    | ok slots s₁ =>
      rw [hrun] at hblock
      obtain ⟨rows, cache, n, hn, hrows, hsealed, hcache, rfl⟩ := hblock
      rw [bind_apply_ok hrun]
      -- the rest starts from the numbers and the cache that the first block left
      have hrest := ih (s := (s.withCache cache).counted (c.nrShards b) n) hcache _ rfl
      cases hrun' : packetizeBlocks fec aead c f bs
          ((s.withCache cache).counted (c.nrShards b) n) with
      | error e s₂ =>
        rw [hrun'] at hrest
        obtain ⟨rfl, cache', m, hm, k, hk, hcache', rfl⟩ := hrest
        rw [bind_apply_error hrun']
        refine ⟨rfl, cache', c.nrShards b + m, by omega, n + k, by omega, hcache', ?_⟩
        exact State.counted_withCache_counted ..
      | ok slots' s₂ =>
        rw [hrun'] at hrest
        obtain ⟨shards, cache', n', hn', hshards, hsealed', hcache', rfl⟩ := hrest
        rw [bind_apply_ok hrun']
        refine ⟨_, cache', n + n', by omega, .cons hrows ?_, hsealed.append hsealed', hcache', ?_⟩
        · have hq : ((s.withCache cache).counted (c.nrShards b) n).sequenceNumber =
              s.sequenceNumber + UInt32.ofNat b.nrDataShards +
                UInt32.ofNat (c.nrParityShards b.nrDataShards) := by
            simp only [State.counted, State.withCache, Config.nrShards, UInt32.ofNat_add,
              UInt32.add_assoc]
          rw [hq] at hshards
          exact hshards
        · rw [htotal]
          exact State.counted_withCache_counted ..

/-- A new cipher leaves the cache alone. -/
@[simp] theorem maybeUpdateCipher_fecEncoders (keys : SessionKeyData) (s : State RS K) :
    (maybeUpdateCipher aead keys s).fecEncoders = s.fecEncoders := by
  unfold maybeUpdateCipher
  split_ifs <;> rfl

/-- A new cipher leaves the numbers alone. -/
@[simp] theorem maybeUpdateCipher_sequenceNumber (keys : SessionKeyData) (s : State RS K) :
    (maybeUpdateCipher aead keys s).sequenceNumber = s.sequenceNumber := by
  unfold maybeUpdateCipher
  split_ifs <;> rfl

/-- Coherence is a property of the cache only. -/
theorem coherent_withCache {s t : State RS K}
    {cache : Registry (Prod.fst : (ℕ × ℕ) × RS → ℕ × ℕ)} :
    Coherent fec (s.withCache cache) ↔ Coherent fec (t.withCache cache) := Iff.rfl

/-- States with the same cache are coherent together. -/
theorem Coherent.congr {s t : State RS K} (hs : Coherent fec s)
    (h : t.fecEncoders = s.fecEncoders) : Coherent fec t := by
  intro k rs
  rw [h]
  exact hs k rs

variable (aead) in
/-- **What a call of `packetize` does.** If it returns a batch, this consists of the shards of the
frame's blocks, numbered from the sequence number on and encrypted under the cipher that the keys
give; else it ends with the error, some of the shards counted. It does not panic where the packet
size leaves room for a payload. -/
theorem packetize_spec {c : Config} (hc : nvVideoPacketSize < c.requestedPacketSize)
    (keys : SessionKeyData) (f : Frame) {s : State RS K} (hs : Coherent fec s) :
    Spec (· = s) (packetize fec aead c keys f)
      (fun batch s' => ∃ shards slots cache, ∃ n ≤ c.totalShards (blocks c f),
        batch.data = slots.flatten ∧
        batch.shardSize = (if (maybeUpdateCipher aead keys s).cipher.isSome then encPrefixSize
          else 0) + c.shardSize ∧
        Shards fec c f s.sequenceNumber (blocks c f) shards s'.sequenceNumber ∧
        Sealed aead f (maybeUpdateCipher aead keys s).cipher
          (maybeUpdateCipher aead keys s).gcmIvCounter shards slots s'.gcmIvCounter ∧
        Coherent fec (s.withCache cache) ∧
        s' = ((maybeUpdateCipher aead keys s).withCache cache).counted
          (c.totalShards (blocks c f)) n)
      (Cut fec (c.totalShards (blocks c f)) (maybeUpdateCipher aead keys s)) := by
  rintro s rfl
  have ht : Coherent fec (maybeUpdateCipher aead keys s) :=
    hs.congr (maybeUpdateCipher_fecEncoders keys s)
  have hblocks := packetizeBlocks_spec aead c f (blocks c f) ht _ rfl
  -- past its check the call is the loop over the blocks, from the state with the new cipher
  have hrun : packetize fec aead c keys f s =
      (packetizeBlocks fec aead c f (blocks c f) >>= fun shards =>
        pure
          { data := shards.flatten
            shardSize := (if (maybeUpdateCipher aead keys s).cipher.isSome then encPrefixSize
              else 0) + c.shardSize }) (maybeUpdateCipher aead keys s) := by
    rw [packetize, if_neg (by omega)]
    rfl
  rw [hrun]
  cases hb : packetizeBlocks fec aead c f (blocks c f) (maybeUpdateCipher aead keys s) with
  | error e s' =>
    rw [hb] at hblocks
    rw [bind_apply_error hb]
    exact hblocks
  | ok slots s' =>
    rw [hb] at hblocks
    obtain ⟨shards, cache, n, hn, hshards, hsealed, hcache, rfl⟩ := hblocks
    rw [bind_apply_ok hb]
    rw [maybeUpdateCipher_sequenceNumber] at hshards
    exact ⟨shards, slots, cache, n, hn, rfl, rfl, hshards, hsealed,
      coherent_withCache.mp hcache, rfl⟩

end

end RgspCast.Video
