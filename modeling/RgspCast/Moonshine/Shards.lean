import RgspCast.Moonshine.Packetizer

/-!
# The fields of a shard

What a client reads from a shard: its number, and the block and the place it belongs to. The
packetizer writes these fields into a data shard before its payload (`dataShard_eq`) and patches
them into a parity shard after the error correction has written all of it (`drop_patchParity`: the
payload is not touched).
-/

namespace RgspCast.Video

open Layout ExceptState

/-! ## The fields of a shard -/

/-- The number in the RTP header. -/
def rtpSequence (shard : Bytes) : ℕ := ofBe (slice 2 2 shard)

def streamPacketIndex (shard : Bytes) : ℕ := ofLe (slice nvPacketOffset 4 shard)

/-- The block that a shard says it is of. -/
def blockOf (shard : Bytes) : ℕ := ofLe (slice (nvPacketOffset + 11) 1 shard) / 16 % 4

/-- The index of the last block. -/
def lastBlockOf (shard : Bytes) : ℕ := ofLe (slice (nvPacketOffset + 11) 1 shard) / 64

/-- The place in the block that a shard says it has. -/
def indexOf (shard : Bytes) : ℕ := ofLe (slice (nvPacketOffset + 12) 4 shard) / 2 ^ 12 % 1024

/-- The number of data shards that a shard says its block has. -/
def dataShardsOf (shard : Bytes) : ℕ := ofLe (slice (nvPacketOffset + 12) 4 shard) / 2 ^ 22

/-- The percentage that a shard says its block has. -/
def percentageOf (shard : Bytes) : ℕ := ofLe (slice (nvPacketOffset + 12) 4 shard) / 2 ^ 4 % 256

/-- The numbers of a block fit into the fields for them. -/
structure Fits (c : Config) (b : Block) : Prop where
  index : b.blockIndex < 4
  dataShards : b.nrDataShards < 1024
  percentage : c.blockPercentage b < 256

/-- Parity fills a block up to the maximum at most, unless its data exceed that already. -/
theorem nrShards_le (c : Config) (b : Block) : c.nrShards b ≤ max b.nrDataShards maxShards := by
  simp only [Config.nrShards, Config.nrParityShards]
  omega

/-- The three numbers stand side by side in the packed word. -/
theorem toNat_fecInfo {c : Config} {b : Block} (h : Fits c b) {i : ℕ} (hi : i < 1024) :
    (fecInfo c b i).toNat =
      b.nrDataShards * 2 ^ 22 + i * 2 ^ 12 + c.blockPercentage b * 2 ^ 4 := by
  have hn := h.dataShards
  have hp := h.percentage
  have hlow : i <<< 12 ||| c.blockPercentage b <<< 4 =
      i * 2 ^ 12 + c.blockPercentage b * 2 ^ 4 := by
    rw [← Nat.shiftLeft_add_eq_or_of_lt (by rw [Nat.shiftLeft_eq]; omega), Nat.shiftLeft_eq,
      Nat.shiftLeft_eq]
  have hall : i <<< 12 ||| b.nrDataShards <<< 22 ||| c.blockPercentage b <<< 4 =
      b.nrDataShards * 2 ^ 22 + (i * 2 ^ 12 + c.blockPercentage b * 2 ^ 4) := by
    rw [Nat.or_comm (i <<< 12), Nat.or_assoc, hlow,
      ← Nat.shiftLeft_add_eq_or_of_lt (by omega), Nat.shiftLeft_eq]
  rw [fecInfo, hall, UInt32.toNat_ofNat', Nat.mod_eq_of_lt (by omega), Nat.add_assoc]

/-- So do the two indices in their byte. -/
theorem toNat_multiFecBlocks (c : Config) (f : Frame) {b : Block} (h : b.blockIndex < 4) :
    (multiFecBlocks c f b).toNat = b.blockIndex * 16 + (min (nrBlocks c f) 4 - 1) * 64 := by
  have hall : ∀ i < 4, ∀ n < 4,
      (UInt8.ofNat i <<< 4 ||| UInt8.ofNat n <<< 6).toNat = i * 16 + n * 64 := by decide
  exact hall _ h _ (by omega)

/-! ## The shards as they are written -/

section Shard

variable {c : Config} {f : Frame} {b : Block} {q : UInt32} {i : ℕ}

/-- The header of the frame and the data behind it. -/
def framed (c : Config) (f : Frame) : Bytes := (videoFrameHeader c f).serialize ++ f.encodedData

/-- The header of a frame has eight bytes. -/
theorem length_serialize (h : VideoFrameHeader) : h.serialize.length = videoFrameHeaderSize := by
  simp [VideoFrameHeader.serialize, videoFrameHeaderSize]

/-- The header and the data are what the length counts. -/
theorem length_framed (c : Config) (f : Frame) : (framed c f).length = f.packetDataLen := by
  rw [framed, List.length_append, length_serialize, Frame.packetDataLen]

/-- `copy_header_and_data` copies out of the header and the data as if they were joined. -/
theorem copyHeaderAndData_eq {header : Bytes} (hh : header.length = videoFrameHeaderSize)
    (data : Bytes) (offset len : ℕ) :
    copyHeaderAndData header data offset len = slice offset len (header ++ data) := by
  simp only [copyHeaderAndData, slice]
  split_ifs with hoff hstop
  · rw [List.drop_append_of_le_length (by omega), List.take_append]
    congr 1
    · rw [List.take_eq_take_iff, List.length_drop]
      omega
    · rw [List.take_eq_take_iff, List.length_drop]
      omega
  · rw [List.drop_append_of_le_length (by omega), List.take_append, List.append_nil]
    have hnil : data.take (len - (header.drop offset).length) = [] := by
      rw [List.length_drop, List.take_eq_nil_iff, ← List.length_eq_zero_iff]
      omega
    rw [hnil, List.append_nil, List.take_eq_take_iff, List.length_drop]
    omega
  · have hnil : header.drop offset = [] := List.drop_eq_nil_of_le (by omega)
    rw [List.drop_append, hnil, List.nil_append, hh, List.take_eq_take_iff, List.length_drop]
    omega

/-- The part of the frame that goes into a data shard. -/
def payloadPart (c : Config) (f : Frame) (g : ℕ) : Bytes :=
  slice (g * c.payloadSize) c.payloadSize (framed c f)

/-- A shard carries no more than its payload. -/
theorem length_payloadPart_le (c : Config) (f : Frame) (g : ℕ) :
    (payloadPart c f g).length ≤ c.payloadSize := by
  rw [payloadPart, slice, List.length_take]
  exact Nat.min_le_left _ _

/-- The bytes before the payload of a data shard. -/
def dataHeader (c : Config) (f : Frame) (b : Block) (q : UInt32) (i : ℕ) : Bytes :=
  writeNvVideoPacket (writeRtpHeader (List.replicate c.shardSize 0) q.toUInt16 f.rtpTimestamp)
    (q <<< 8) f.frameNumber
    (containsPicData ||| (if i = 0 then startOfFrame else 0) |||
      (if i = b.nrDataShards - 1 then endOfFrame else 0))
    (multiFecBlocks c f b) (fecInfo c b i)

/-- The header of a packet without extensions. -/
theorem length_rtpHeader (n : UInt16) (ts : UInt32) : (rtpHeader n ts).length = 12 := rfl

/-- The header behind it. -/
theorem length_nvVideoPacket (spi fi : UInt32) (flags multi : UInt8) (info : UInt32) :
    (nvVideoPacket spi fi flags multi info).length = nvVideoPacketSize := rfl

/-- A shard has room for the first header. -/
theorem rtpHeader_fits (c : Config) (n : UInt16) (ts : UInt32) :
    0 + (rtpHeader n ts).length ≤ (List.replicate c.shardSize (0 : UInt8)).length := by
  rw [length_rtpHeader, List.length_replicate, Config.shardSize, payloadOffset, nvPacketOffset]
  omega

/-- Writing it leaves the length of the shard. -/
theorem length_writeRtpHeader (c : Config) (n : UInt16) (ts : UInt32) :
    (writeRtpHeader (List.replicate c.shardSize 0) n ts).length = c.shardSize := by
  rw [writeRtpHeader, length_splice (rtpHeader_fits c n ts), List.length_replicate]

/-- A shard has room for the second, too. -/
theorem nvVideoPacket_fits {buf : Bytes} (hbuf : buf.length = c.shardSize) (spi fi : UInt32)
    (flags multi : UInt8) (info : UInt32) :
    nvPacketOffset + (nvVideoPacket spi fi flags multi info).length ≤ buf.length := by
  rw [length_nvVideoPacket, hbuf, Config.shardSize, payloadOffset]
  omega

/-- With both headers the shard is as long as before. -/
theorem length_dataHeader : (dataHeader c f b q i).length = c.shardSize := by
  rw [dataHeader, writeNvVideoPacket, length_splice (nvVideoPacket_fits
    (length_writeRtpHeader c _ _) _ _ _ _ _), length_writeRtpHeader]

/-- A data shard is its headers with its part of the frame behind them. -/
theorem dataShard_eq :
    dataShard c f b q i = splice payloadOffset (payloadPart c f (b.start + i))
      (dataHeader c f b q i) := by
  have hpart : copyHeaderAndData (videoFrameHeader c f).serialize f.encodedData
      ((b.start + i) * c.payloadSize)
      (min c.payloadSize (f.packetDataLen - (b.start + i) * c.payloadSize)) =
      payloadPart c f (b.start + i) := by
    rw [copyHeaderAndData_eq (length_serialize _), payloadPart, framed, slice, slice,
      List.take_eq_take_iff, List.length_drop, List.length_append, length_serialize,
      Frame.packetDataLen]
    omega
  rw [← hpart]
  rfl

/-- There is room for that part. -/
theorem payloadPart_fits : payloadOffset + (payloadPart c f (b.start + i)).length ≤
    (dataHeader c f b q i).length := by
  have hle := length_payloadPart_le c f (b.start + i)
  rw [length_dataHeader, Config.shardSize]
  omega

/-- Every data shard has the full length, the last one with padding. -/
@[simp] theorem length_dataShard : (dataShard c f b q i).length = c.shardSize := by
  rw [dataShard_eq, length_splice payloadPart_fits, length_dataHeader]

/-- The payload of a data shard: its part of the frame, and zeros. -/
theorem drop_dataShard :
    (dataShard c f b q i).drop payloadOffset = payloadPart c f (b.start + i) ++
      List.replicate (c.payloadSize - (payloadPart c f (b.start + i)).length) 0 := by
  have hrtp := rtpHeader_fits c q.toUInt16 f.rtpTimestamp
  rw [dataShard_eq, drop_splice_self payloadPart_fits, dataHeader, writeNvVideoPacket,
    drop_splice_of_le (nvVideoPacket_fits (length_writeRtpHeader c _ _) _ _ _ _ _)
      (by rw [length_nvVideoPacket, payloadOffset]; omega),
    writeRtpHeader, drop_splice_of_le hrtp
      (by rw [length_rtpHeader, payloadOffset, nvPacketOffset]; omega),
    List.drop_replicate, Config.shardSize, Nat.add_sub_add_left]

/-- A field of the packet in a data shard. -/
theorem slice_dataShard {off len : ℕ} (h : off + len ≤ nvVideoPacketSize) :
    slice (nvPacketOffset + off) len (dataShard c f b q i) =
      slice off len (nvVideoPacket (q <<< 8) f.frameNumber
        (containsPicData ||| (if i = 0 then startOfFrame else 0) |||
          (if i = b.nrDataShards - 1 then endOfFrame else 0))
        (multiFecBlocks c f b) (fecInfo c b i)) := by
  rw [dataShard_eq, slice_splice_of_disjoint payloadPart_fits
    (Or.inl (by rw [payloadOffset]; omega)), dataHeader, writeNvVideoPacket,
    slice_splice_of_within (nvVideoPacket_fits (length_writeRtpHeader c _ _) _ _ _ _ _)
      (Nat.le_add_right _ _) (by rw [length_nvVideoPacket]; omega),
    Nat.add_sub_cancel_left]

/-- The number in the RTP header of a data shard. -/
theorem rtpSequence_dataShard : rtpSequence (dataShard c f b q i) = q.toNat % 2 ^ 16 := by
  have hrtp := rtpHeader_fits c q.toUInt16 f.rtpTimestamp
  rw [rtpSequence, dataShard_eq, slice_splice_of_disjoint payloadPart_fits (Or.inl (by decide)),
    dataHeader, writeNvVideoPacket, slice_splice_of_disjoint
      (nvVideoPacket_fits (length_writeRtpHeader c _ _) _ _ _ _ _) (Or.inl (by decide)),
    writeRtpHeader, slice_splice_of_within hrtp (Nat.zero_le _)
      (by rw [length_rtpHeader]; omega)]
  change ofBe (be 2 q.toUInt16.toNat) = _
  rw [ofBe_be q.toUInt16.toNat_lt]
  exact UInt32.toNat_toUInt16 q

/-! What is written into a parity shard lies before the payload. -/

section Parity

variable {row : Bytes}

/-- The four fields fit into a shard. -/
theorem patch_fits (hrow : row.length = c.shardSize) :
    0 + (parityRtp q).length ≤ row.length ∧
    nvPacketOffset + 4 + (le 4 f.frameNumber.toNat).length ≤
      (splice 0 (parityRtp q) row).length ∧
    nvPacketOffset + 11 + [multiFecBlocks c f b].length ≤
      (splice (nvPacketOffset + 4) (le 4 f.frameNumber.toNat)
        (splice 0 (parityRtp q) row)).length ∧
    nvPacketOffset + 12 + (le 4 (fecInfo c b i).toNat).length ≤
      (splice (nvPacketOffset + 11) [multiFecBlocks c f b]
        (splice (nvPacketOffset + 4) (le 4 f.frameNumber.toNat)
          (splice 0 (parityRtp q) row))).length := by
  have hsize : payloadOffset ≤ row.length := by
    rw [hrow]
    exact Nat.le_add_right _ _
  simp only [payloadOffset, nvPacketOffset, nvVideoPacketSize] at hsize ⊢
  have h0 : 0 + (parityRtp q).length ≤ row.length := by
    change 0 + 4 ≤ _
    omega
  have h1 := length_splice h0
  have h2 : 12 + 4 + 4 + (le 4 f.frameNumber.toNat).length ≤
      (splice 0 (parityRtp q) row).length := by
    rw [h1, length_le]
    omega
  have h3 := length_splice h2
  have h4 : 12 + 4 + 11 + [multiFecBlocks c f b].length ≤
      (splice (12 + 4 + 4) (le 4 f.frameNumber.toNat) (splice 0 (parityRtp q) row)).length := by
    rw [h3, h1, List.length_singleton]
    omega
  have h5 := length_splice h4
  refine ⟨h0, h2, h4, ?_⟩
  rw [h5, h3, h1, length_le]
  omega

/-- The fields written into a parity shard leave its length. -/
theorem length_patchParity (hrow : row.length = c.shardSize) :
    (patchParity c f b q i row).length = c.shardSize := by
  obtain ⟨h0, h1, h2, h3⟩ := patch_fits (f := f) (b := b) (q := q) (i := i) hrow
  rw [patchParity, length_splice h3, length_splice h2, length_splice h1, length_splice h0, hrow]

/-- They leave its payload, too. -/
theorem drop_patchParity (hrow : row.length = c.shardSize) {n : ℕ} (hn : payloadOffset ≤ n) :
    (patchParity c f b q i row).drop n = row.drop n := by
  obtain ⟨h0, h1, h2, h3⟩ := patch_fits (f := f) (b := b) (q := q) (i := i) hrow
  have hn' : 32 ≤ n := hn
  have hrtp : (parityRtp q).length = 4 := rfl
  rw [patchParity, drop_splice_of_le h3, drop_splice_of_le h2, drop_splice_of_le h1,
    drop_splice_of_le h0]
  all_goals
    simp only [length_le, hrtp, List.length_singleton, nvPacketOffset]
    omega

/-- The packed word is where the client looks for it. -/
theorem slice_fecInfo_patchParity (hrow : row.length = c.shardSize) :
    slice (nvPacketOffset + 12) 4 (patchParity c f b q i row) = le 4 (fecInfo c b i).toNat := by
  obtain ⟨-, -, -, h3⟩ := patch_fits (f := f) (b := b) (q := q) (i := i) hrow
  exact slice_splice_self h3

/-- The byte of the indices is, too. -/
theorem slice_multiFecBlocks_patchParity (hrow : row.length = c.shardSize) :
    slice (nvPacketOffset + 11) 1 (patchParity c f b q i row) = [multiFecBlocks c f b] := by
  obtain ⟨-, -, h2, h3⟩ := patch_fits (f := f) (b := b) (q := q) (i := i) hrow
  rw [patchParity, slice_splice_of_disjoint h3 (Or.inl (by decide))]
  exact slice_splice_self h2

/-- A parity shard carries its number modulo `2 ^ 16`. -/
theorem rtpSequence_patchParity (hrow : row.length = c.shardSize) :
    rtpSequence (patchParity c f b q i row) = q.toNat % 2 ^ 16 := by
  obtain ⟨h0, h1, h2, h3⟩ := patch_fits (f := f) (b := b) (q := q) (i := i) hrow
  rw [rtpSequence, patchParity, slice_splice_of_disjoint h3 (Or.inl (by decide)),
    slice_splice_of_disjoint h2 (Or.inl (by decide)),
    slice_splice_of_disjoint h1 (Or.inl (by decide)), slice_splice_of_within h0 (Nat.zero_le _)
      (Nat.le_refl 4)]
  change ofBe (be 2 q.toUInt16.toNat) = _
  rw [ofBe_be q.toUInt16.toNat_lt]
  exact UInt32.toNat_toUInt16 q

end Parity

/-- The fields by which the client sorts a shard. -/
structure Labelled (c : Config) (f : Frame) (b : Block) (i : ℕ) (shard : Bytes) : Prop where
  block : blockOf shard = b.blockIndex
  lastBlock : lastBlockOf shard = min (nrBlocks c f) 4 - 1
  index : indexOf shard = i
  dataShards : dataShardsOf shard = b.nrDataShards
  percentage : percentageOf shard = c.blockPercentage b

/-- The byte and the word determine all that a client reads. -/
theorem labelled_of_slices (hb : Fits c b) (hi : i < 1024) {shard : Bytes}
    (hmulti : slice (nvPacketOffset + 11) 1 shard = [multiFecBlocks c f b])
    (hinfo : slice (nvPacketOffset + 12) 4 shard = le 4 (fecInfo c b i).toNat) :
    Labelled c f b i shard := by
  have hm := toNat_multiFecBlocks c f hb.index
  have hf := toNat_fecInfo hb hi
  have hn := hb.dataShards
  have hp := hb.percentage
  have hx := hb.index
  have hofLe : ofLe [multiFecBlocks c f b] = (multiFecBlocks c f b).toNat := rfl
  have hread : ofLe (le 4 (fecInfo c b i).toNat) = (fecInfo c b i).toNat :=
    ofLe_le (fecInfo c b i).toNat_lt
  constructor
  · rw [blockOf, hmulti, hofLe, hm]
    omega
  · rw [lastBlockOf, hmulti, hofLe, hm]
    omega
  · rw [indexOf, hinfo, hread, hf]
    omega
  · rw [dataShardsOf, hinfo, hread, hf]
    omega
  · rw [percentageOf, hinfo, hread, hf]
    omega

/-- A data shard says where it belongs. -/
theorem labelled_dataShard (hb : Fits c b) (hi : i < 1024) :
    Labelled c f b i (dataShard c f b q i) := by
  refine labelled_of_slices hb hi ?_ ?_
  · rw [slice_dataShard (by decide)]
    rfl
  · rw [slice_dataShard (by decide)]
    rfl

/-- So does a parity shard. -/
theorem labelled_patchParity (hb : Fits c b) (hi : i < 1024) {row : Bytes}
    (hrow : row.length = c.shardSize) : Labelled c f b i (patchParity c f b q i row) :=
  labelled_of_slices hb hi (slice_multiFecBlocks_patchParity hrow)
    (slice_fecInfo_patchParity hrow)

end Shard

end RgspCast.Video
