import Mathlib.Data.List.Forall2
import RgspCast.Lib.Aes128Gcm
import RgspCast.Moonshine.Shards

/-!
# A frame at the client

What a client does with the datagrams of a frame, as far as the fields of the shards say it: it
sorts the shards by block and place, has the error correction fill in the data shards of a block
that are missing, joins their payloads and cuts the padding off.

`frame_survives_loss` is the round trip. From the datagrams that arrive, in any order and some of
them twice, the client gets the encoded frame back if of each block at least as many have arrived as
it has data shards. This rests on two things that the packetizer does: the fields written into a
parity shard lie before the payload, so that the payload stays what the error correction computed,
and the blocks are a partition of the data shards (`flatMap_blocks`).
-/

namespace RgspCast.Video

open Layout ExceptState

/-! ## The client -/

section Client

variable {RS K : Type} (fec : Fec RS) (aead : Aead K)
  (reconstruct : RS → (ℕ → Option UInt8) → Option Bytes)
  (decrypt : K → Bytes → Bytes → Bytes → Option Bytes)

/-- The shard in a datagram. -/
def openDatagram (cipher : Option K) (datagram : Bytes) : Option Bytes :=
  match cipher with
  | none => some datagram
  | some key =>
    decrypt key (slice 0 12 datagram) (slice 16 16 datagram) (datagram.drop encPrefixSize)

/-- A received shard of a block. -/
def received (rx : List Bytes) (block index : ℕ) : Option Bytes :=
  rx.find? fun shard => blockOf shard = block ∧ indexOf shard = index

/-- The payload of a data shard: of the shard itself, if it has been received, and else byte by byte
from what has been received of the block. -/
def receiveRow (c : Config) (rx : List Bytes) (block nrDataShards j : ℕ) : Option Bytes :=
  match received rx block j with
  | some shard => some (shard.drop payloadOffset)
  | none =>
    (fec.new nrDataShards (c.nrParityShards nrDataShards)).bind fun rs =>
      (List.range c.payloadSize).mapM fun p =>
        (reconstruct rs fun i =>
          (received rx block i).bind fun shard => shard[payloadOffset + p]?).bind (·[j]?)

/-- The payloads of a block. -/
def receiveBlock (c : Config) (rx : List Bytes) (block : ℕ) : Option (List Bytes) :=
  (rx.find? fun shard => blockOf shard = block).bind fun shard =>
    (List.range (dataShardsOf shard)).mapM fun j =>
      receiveRow fec reconstruct c rx block (dataShardsOf shard) j

/-- The frame: the payloads of its blocks up to the length that its header gives, behind this
header. -/
def receiveFrame (c : Config) (rx : List Bytes) : Option Bytes :=
  rx.head?.bind fun shard =>
    ((List.range (lastBlockOf shard + 1)).mapM (receiveBlock fec reconstruct c rx)).bind
      fun blocks =>
        let rows := blocks.flatten
        let payload := rows.flatten
        let last := ofLe (slice 4 4 payload)
        some ((payload.take ((rows.length - 1) * c.payloadSize + last)).drop videoFrameHeaderSize)

/-- What the client makes of the datagrams of a frame. -/
def receive (c : Config) (cipher : Option K) (datagrams : List Bytes) : Option Bytes :=
  receiveFrame fec reconstruct c (datagrams.filterMap (openDatagram decrypt cipher))

/-- What the error correction does: there are as many rows of parity as were asked for, of the
length of the data, and in every column as many known bytes as there are data shards give the
data. -/
structure FecLaw : Prop where
  rows : ∀ {nd np len : ℕ} {rs : RS} {data rows : List Bytes}, fec.new nd np = some rs →
    fec.encode rs data = some rows → data.length = nd → (∀ d ∈ data, d.length = len) →
    rows.length = np ∧ ∀ r ∈ rows, r.length = len
  column : ∀ {nd np len : ℕ} {rs : RS} {data rows : List Bytes}, fec.new nd np = some rs →
    fec.encode rs data = some rows → data.length = nd → (∀ d ∈ data, d.length = len) →
    ∀ p < len, ∀ known : ℕ → Option UInt8,
      (∀ i x, known i = some x → ((data ++ rows)[i]?.bind fun r => r[p]?) = some x) →
      nd ≤ ((List.range (nd + np)).filter fun i => (known i).isSome).length →
      reconstruct rs known = some (data.map fun d => d.getD p 0)

/-- What the cipher does: the data keep their length, the tag has 16 bytes, and what was encrypted
is decrypted. -/
structure AeadLaw : Prop where
  length : ∀ {key : K} {iv shard data tag : Bytes}, aead.encrypt key iv shard = some (data, tag) →
    data.length = shard.length ∧ tag.length = 16
  decrypt : ∀ {key : K} {iv shard data tag : Bytes},
    aead.encrypt key iv shard = some (data, tag) → decrypt key iv tag data = some shard

variable {fec aead reconstruct decrypt}

/-- The shards of one block. -/
def IsGroup (fec : Fec RS) (c : Config) (f : Frame) (b : Block) (group : List Bytes) : Prop :=
  ∃ q q' rows, ParityRows fec c b (dataShards c f b q) rows ∧
    group = dataShards c f b q ++ parityShards c f b q' rows

/-- The shards of a frame, block by block. -/
theorem Shards.groups {c : Config} {f : Frame} {q q' : UInt32} {bs : List Block}
    {shards : List Bytes} (h : Shards fec c f q bs shards q') :
    ∃ groups, List.Forall₂ (IsGroup fec c f) bs groups ∧ shards = groups.flatten := by
  induction h with
  | nil => exact ⟨[], .nil, rfl⟩
  | cons hrows _ ih =>
    obtain ⟨groups, hgroups, rfl⟩ := ih
    exact ⟨_ :: groups, .cons ⟨_, _, _, hrows, rfl⟩ hgroups, List.flatten_cons.symm⟩

/-- Every data shard has the full length. -/
theorem forall_length_dataShards (c : Config) (f : Frame) (b : Block) (q : UInt32) :
    ∀ d ∈ dataShards c f b q, d.length = c.shardSize := by
  intro d hd
  obtain ⟨i, -, rfl⟩ := List.mem_map.mp hd
  exact length_dataShard

/-- The rows of parity of a block are as many as its parity shards, of their size. -/
theorem ParityRows.lengths (hfec : FecLaw fec reconstruct) {c : Config} {f : Frame} {b : Block}
    {q : UInt32} {rows : List Bytes} (h : ParityRows fec c b (dataShards c f b q) rows) :
    rows.length = c.nrParityShards b.nrDataShards ∧ ∀ r ∈ rows, r.length = c.shardSize := by
  rw [ParityRows] at h
  split_ifs at h with hpos
  · obtain ⟨rs, hnew, henc⟩ := h
    exact hfec.rows hnew henc (length_dataShards c f b q) (forall_length_dataShards c f b q)
  · subst h
    exact ⟨by rw [List.length_nil]; omega, List.forall_mem_nil _⟩

/-- The data shard at a place. -/
theorem getElem?_dataShards {c : Config} {f : Frame} {b : Block} {q : UInt32} {i : ℕ}
    (hi : i < b.nrDataShards) :
    (dataShards c f b q)[i]? = some (dataShard c f b (q + UInt32.ofNat i) i) := by
  rw [dataShards, List.getElem?_map, List.getElem?_range hi]
  rfl

/-- The parity shard at a place is a row with its fields. -/
theorem getElem?_parityShards {c : Config} {f : Frame} {b : Block} {q : UInt32}
    {rows : List Bytes} (hlen : rows.length = c.nrParityShards b.nrDataShards) {j : ℕ} {r : Bytes}
    (hr : rows[j]? = some r) :
    (parityShards c f b q rows)[j]? =
      some (patchParity c f b (q + UInt32.ofNat j) (b.nrDataShards + j) r) := by
  have hj : j < c.nrParityShards b.nrDataShards := by
    rw [← hlen]
    exact (List.getElem?_eq_some_iff.mp hr).1
  rw [parityShards, List.getElem?_map, List.getElem?_range hj, Option.map_some,
    List.getD_eq_getElem?_getD, hr]
  rfl

/-- A group has all the shards of its block. -/
theorem length_group {c : Config} {f : Frame} {b : Block} {group : List Bytes}
    (h : IsGroup fec c f b group) : group.length = c.nrShards b := by
  obtain ⟨q, q', rows, -, rfl⟩ := h
  rw [List.length_append, length_dataShards, length_parityShards, Config.nrShards]

/-- The shards of a block are its data shards and, behind them, its patched rows of parity. -/
theorem getElem?_group (hfec : FecLaw fec reconstruct) {c : Config} {f : Frame} {b : Block}
    {group : List Bytes} (h : IsGroup fec c f b group) {i : ℕ} {shard : Bytes}
    (hshard : group[i]? = some shard) :
    (i < b.nrDataShards ∧ ∃ q, shard = dataShard c f b q i) ∨
      (∃ q r, r.length = c.shardSize ∧ shard = patchParity c f b q i r) := by
  have hi : i < c.nrShards b := by
    rw [← length_group h]
    exact (List.getElem?_eq_some_iff.mp hshard).1
  obtain ⟨q, q', rows, hrows, rfl⟩ := h
  obtain ⟨hlen, hsize⟩ := hrows.lengths hfec
  rcases Nat.lt_or_ge i b.nrDataShards with hlt | hge
  · rw [List.getElem?_append_left (by rwa [length_dataShards]), getElem?_dataShards hlt,
      Option.some.injEq] at hshard
    exact Or.inl ⟨hlt, _, hshard.symm⟩
  · rw [List.getElem?_append_right (by rwa [length_dataShards]), length_dataShards] at hshard
    have hj : i - b.nrDataShards < rows.length := by
      rw [hlen]
      rw [Config.nrShards] at hi
      omega
    obtain ⟨r, hr⟩ : ∃ r, rows[i - b.nrDataShards]? = some r := ⟨_, List.getElem?_eq_getElem hj⟩
    rw [getElem?_parityShards hlen hr, Option.some.injEq, Nat.add_sub_cancel' hge] at hshard
    exact Or.inr ⟨_, r, hsize r (List.mem_of_getElem? hr), hshard.symm⟩

/-- Every shard of a group has the full length. -/
theorem length_of_mem_group (hfec : FecLaw fec reconstruct) {c : Config} {f : Frame} {b : Block}
    {group : List Bytes} (h : IsGroup fec c f b group) {shard : Bytes} (hmem : shard ∈ group) :
    shard.length = c.shardSize := by
  obtain ⟨i, hi⟩ := List.mem_iff_getElem?.mp hmem
  rcases getElem?_group hfec h hi with ⟨-, q, rfl⟩ | ⟨q, r, hr, rfl⟩
  · exact length_dataShard
  · exact length_patchParity hr

/-- Every shard of a block says where it belongs. -/
theorem labelled_group (hfec : FecLaw fec reconstruct) {c : Config} {f : Frame} {b : Block}
    (hb : Fits c b) {group : List Bytes} (h : IsGroup fec c f b group) {i : ℕ} {shard : Bytes}
    (hshard : group[i]? = some shard) : Labelled c f b i shard := by
  have hi : i < c.nrShards b := by
    rw [← length_group h]
    exact (List.getElem?_eq_some_iff.mp hshard).1
  have hmax := nrShards_le c b
  have hn := hb.dataShards
  have hi' : i < 1024 := by
    rw [maxShards] at hmax
    omega
  rcases getElem?_group hfec h hshard with ⟨-, q, rfl⟩ | ⟨q, r, hr, rfl⟩
  · exact labelled_dataShard hb hi'
  · exact labelled_patchParity hb hi' hr

/-- The first shard says that its block is one whose numbers fit. -/
theorem fits_of_labelled {c : Config} {f : Frame} {b : Block} (hb : b.blockIndex < 4)
    {shard : Bytes} {i : ℕ} (h : Labelled c f b i shard) : Fits c b := by
  refine ⟨hb, ?_, ?_⟩
  · have hlt : ofLe (slice (nvPacketOffset + 12) 4 shard) < 2 ^ 32 := ofLe_slice_lt _ 4 _
    rw [← h.dataShards, dataShardsOf]
    omega
  · rw [← h.percentage]
    exact Nat.mod_lt _ (by decide)

/-- Behind the header, the shards of a block are the rows of the code word. -/
theorem column_group (hfec : FecLaw fec reconstruct) {c : Config} {f : Frame} {b : Block}
    {q : UInt32} {rows : List Bytes} (hrows : ParityRows fec c b (dataShards c f b q) rows)
    (q' : UInt32) {i p : ℕ} (hp : payloadOffset ≤ p) :
    ((dataShards c f b q ++ parityShards c f b q' rows)[i]?.bind fun r => r[p]?) =
      ((dataShards c f b q ++ rows)[i]?.bind fun r => r[p]?) := by
  obtain ⟨hlen, hsize⟩ := hrows.lengths hfec
  rcases Nat.lt_or_ge i b.nrDataShards with hlt | hge
  · rw [List.getElem?_append_left (by rwa [length_dataShards]),
      List.getElem?_append_left (by rwa [length_dataShards])]
  · rw [List.getElem?_append_right (by rwa [length_dataShards]),
      List.getElem?_append_right (by rwa [length_dataShards]), length_dataShards]
    cases hr : rows[i - b.nrDataShards]? with
    | none =>
      have hnone : (parityShards c f b q' rows)[i - b.nrDataShards]? = none := by
        rw [List.getElem?_eq_none_iff] at hr ⊢
        rwa [length_parityShards, ← hlen]
      rw [hnone]
    | some r =>
      have hrow := hsize r (List.mem_of_getElem? hr)
      have hdrop := congrArg (fun l => l[0]?)
        (drop_patchParity (f := f) (b := b) (q := q' + UInt32.ofNat (i - b.nrDataShards))
          (i := b.nrDataShards + (i - b.nrDataShards)) hrow hp)
      simp only [List.getElem?_drop, Nat.add_zero] at hdrop
      rw [getElem?_parityShards hlen hr, Option.bind_some, Option.bind_some, hdrop]

/-! ## A block at the client -/

/-- What is received of a block is a shard of the block, at its own place. -/
theorem received_some (hfec : FecLaw fec reconstruct) {c : Config} {f : Frame} {b : Block}
    (hb : Fits c b) {group rx : List Bytes} (hgroup : IsGroup fec c f b group)
    (hrx : ∀ shard ∈ rx, blockOf shard = b.blockIndex → shard ∈ group) {i : ℕ} {shard : Bytes}
    (h : received rx b.blockIndex i = some shard) : shard ∈ rx ∧ group[i]? = some shard := by
  have hmem : shard ∈ rx := List.mem_of_find?_eq_some h
  have hfound := List.find?_some h
  obtain ⟨hblock, hindex⟩ := of_decide_eq_true hfound
  obtain ⟨j, hj⟩ := List.mem_iff_getElem?.mp (hrx shard hmem hblock)
  have hlabel := labelled_group hfec hb hgroup hj
  rw [hlabel.index] at hindex
  exact ⟨hmem, hindex ▸ hj⟩

/-- A shard that has arrived is received. -/
theorem received_of_mem (hfec : FecLaw fec reconstruct) {c : Config} {f : Frame} {b : Block}
    (hb : Fits c b) {group rx : List Bytes} (hgroup : IsGroup fec c f b group)
    (hrx : ∀ shard ∈ rx, blockOf shard = b.blockIndex → shard ∈ group) {i : ℕ} {shard : Bytes}
    (hi : group[i]? = some shard) (hmem : shard ∈ rx) :
    received rx b.blockIndex i = some shard := by
  have hlabel := labelled_group hfec hb hgroup hi
  cases h : received rx b.blockIndex i with
  | none =>
    have hnot := List.find?_eq_none.mp h shard hmem
    simp only [hlabel.block, hlabel.index, and_self, decide_true, not_true] at hnot
  | some shard' =>
    obtain ⟨-, hi'⟩ := received_some hfec hb hgroup hrx h
    rw [← hi', hi]

/-- The payload of a data shard. -/
def row (c : Config) (f : Frame) (g : ℕ) : Bytes :=
  payloadPart c f g ++ List.replicate (c.payloadSize - (payloadPart c f g).length) 0

/-- Where so many shards of a block have arrived as it has data shards, so many are known. -/
theorem le_known (hfec : FecLaw fec reconstruct) {c : Config} {f : Frame} {b : Block}
    (hb : Fits c b) {group rx : List Bytes} (hgroup : IsGroup fec c f b group)
    (hrx : ∀ shard ∈ rx, blockOf shard = b.blockIndex → shard ∈ group)
    (hmany : b.nrDataShards ≤ (group.filter (· ∈ rx)).length) :
    b.nrDataShards ≤ ((List.range (c.nrShards b)).filter fun i =>
      (received rx b.blockIndex i).isSome).length := by
  rw [← length_filter_places, length_group hgroup] at hmany
  refine Nat.le_trans hmany ?_
  rw [← List.countP_eq_length_filter, ← List.countP_eq_length_filter]
  apply List.countP_mono_left
  intro i _ hi
  obtain ⟨shard, hshard, hmem⟩ := (Option.any_eq_true ..).mp hi
  rw [received_of_mem hfec hb hgroup hrx hshard (of_decide_eq_true hmem)]
  rfl

/-- A missing data shard is filled in: column by column the known bytes are those of the code
word. -/
theorem reconstruct_column (hfec : FecLaw fec reconstruct) {c : Config} {f : Frame} {b : Block}
    (hb : Fits c b) {q q' : UInt32} {rows rx : List Bytes} {rs : RS}
    (hnew : fec.new b.nrDataShards (c.nrParityShards b.nrDataShards) = some rs)
    (henc : fec.encode rs (dataShards c f b q) = some rows)
    (hgroup : IsGroup fec c f b (dataShards c f b q ++ parityShards c f b q' rows))
    (hrows : ParityRows fec c b (dataShards c f b q) rows)
    (hrx : ∀ shard ∈ rx, blockOf shard = b.blockIndex →
      shard ∈ dataShards c f b q ++ parityShards c f b q' rows)
    (hmany : b.nrDataShards ≤
      ((dataShards c f b q ++ parityShards c f b q' rows).filter (· ∈ rx)).length)
    {p : ℕ} (hp : p < c.payloadSize) :
    reconstruct rs (fun i =>
      (received rx b.blockIndex i).bind fun shard => shard[payloadOffset + p]?) =
      some ((dataShards c f b q).map fun d => d.getD (payloadOffset + p) 0) := by
  have hpos : payloadOffset + p < c.shardSize := Nat.add_lt_add_left hp _
  refine hfec.column hnew henc (length_dataShards c f b q) (forall_length_dataShards c f b q) _
    hpos _ ?_ ?_
  -- every byte that has arrived is the one of the code word
  · intro i x hx
    obtain ⟨shard, hshard, hx⟩ := Option.bind_eq_some_iff.mp hx
    obtain ⟨-, hi⟩ := received_some hfec hb hgroup hrx hshard
    rw [← column_group hfec hrows q' (Nat.le_add_right payloadOffset p), hi,
      Option.bind_some, hx]
  -- and enough of them have
  · refine Nat.le_trans (le_known hfec hb hgroup hrx hmany) ?_
    rw [← List.countP_eq_length_filter, ← List.countP_eq_length_filter]
    apply List.countP_mono_left
    intro i _ hi
    obtain ⟨shard, hshard⟩ := Option.isSome_iff_exists.mp hi
    obtain ⟨-, hgrp⟩ := received_some hfec hb hgroup hrx hshard
    have hlen := length_of_mem_group hfec hgroup (List.mem_of_getElem? hgrp)
    rw [hshard, Option.bind_some, List.getElem?_eq_getElem (by rwa [hlen])]
    rfl

/-- The payload of a data shard is got back, whether this shard has arrived or not. -/
theorem receiveRow_eq (hfec : FecLaw fec reconstruct) {c : Config} {f : Frame} {b : Block}
    (hb : Fits c b) {group rx : List Bytes} (hgroup : IsGroup fec c f b group)
    (hrx : ∀ shard ∈ rx, blockOf shard = b.blockIndex → shard ∈ group)
    (hmany : b.nrDataShards ≤ (group.filter (· ∈ rx)).length) {j : ℕ} (hj : j < b.nrDataShards) :
    receiveRow fec reconstruct c rx b.blockIndex b.nrDataShards j =
      some (row c f (b.start + j)) := by
  obtain ⟨q, q', rows, hrows, rfl⟩ := hgroup
  have hgroup : IsGroup fec c f b (dataShards c f b q ++ parityShards c f b q' rows) :=
    ⟨q, q', rows, hrows, rfl⟩
  have hdata : (dataShards c f b q ++ parityShards c f b q' rows)[j]? =
      some (dataShard c f b (q + UInt32.ofNat j) j) := by
    rw [List.getElem?_append_left (by rwa [length_dataShards]), getElem?_dataShards hj]
  rw [receiveRow]
  cases hrecv : received rx b.blockIndex j with
  | some shard =>
    obtain ⟨-, hshard⟩ := received_some hfec hb hgroup hrx hrecv
    obtain rfl := Option.some.inj (hdata.symm.trans hshard)
    exact congrArg some drop_dataShard
  | none =>
    -- A shard is missing, so as many as there are data shards can only have arrived with parity.
    have hparity : 0 < c.nrParityShards b.nrDataShards := by
      by_contra hzero
      have hle := le_known hfec hb hgroup hrx hmany
      have hlt : ((List.range (c.nrShards b)).filter fun i =>
          (received rx b.blockIndex i).isSome).length < c.nrShards b := by
        conv_rhs => rw [← List.length_range (n := c.nrShards b)]
        apply List.length_filter_lt_length_iff_exists.mpr
        refine ⟨j, List.mem_range.mpr (Nat.lt_of_lt_of_le hj (Nat.le_add_right _ _)), ?_⟩
        rw [hrecv]
        exact Bool.false_ne_true
      have hnr : c.nrShards b = b.nrDataShards + c.nrParityShards b.nrDataShards := rfl
      omega
    have hcode := hrows
    rw [ParityRows, if_pos hparity] at hcode
    obtain ⟨rs, hnew, henc⟩ := hcode
    have hrow : row c f (b.start + j) = (List.range c.payloadSize).map fun p =>
        (dataShard c f b (q + UInt32.ofNat j) j).getD (payloadOffset + p) 0 := by
      rw [row, ← drop_dataShard (q := q + UInt32.ofNat j)]
      apply List.ext_getElem?
      intro p
      rw [List.getElem?_drop, List.getElem?_map]
      rcases Nat.lt_or_ge p c.payloadSize with hp | hp
      · have hlt : payloadOffset + p < (dataShard c f b (q + UInt32.ofNat j) j).length := by
          rw [length_dataShard]
          exact Nat.add_lt_add_left hp _
        rw [List.getElem?_range hp, Option.map_some, List.getD_eq_getElem?_getD,
          List.getElem?_eq_getElem hlt]
        rfl
      · rw [List.getElem?_eq_none (by rw [length_dataShard, Config.shardSize]; omega),
          List.getElem?_eq_none (by rwa [List.length_range])]
        rfl
    rw [hnew, Option.bind_some, hrow]
    apply mapM_eq_some_map
    intro p hp
    rw [reconstruct_column hfec hb hnew henc hgroup hrows hrx hmany (List.mem_range.mp hp),
      Option.bind_some, List.getElem?_map, getElem?_dataShards hj]
    rfl

/-- A block is got back. -/
theorem receiveBlock_eq (hfec : FecLaw fec reconstruct) {c : Config} {f : Frame} {b : Block}
    (hb : Fits c b) (hpos : 0 < b.nrDataShards) {group rx : List Bytes}
    (hgroup : IsGroup fec c f b group)
    (hrx : ∀ shard ∈ rx, blockOf shard = b.blockIndex → shard ∈ group)
    (hmany : b.nrDataShards ≤ (group.filter (· ∈ rx)).length) :
    receiveBlock fec reconstruct c rx b.blockIndex =
      some ((List.range b.nrDataShards).map fun j => row c f (b.start + j)) := by
  obtain ⟨shard, hshard⟩ := List.exists_mem_of_length_pos (Nat.lt_of_lt_of_le hpos hmany)
  obtain ⟨hgrp, hmem⟩ := List.mem_filter.mp hshard
  obtain ⟨i, hi⟩ := List.mem_iff_getElem?.mp hgrp
  have hlabel := labelled_group hfec hb hgroup hi
  rw [receiveBlock]
  cases hfind : rx.find? fun shard => blockOf shard = b.blockIndex with
  | none =>
    -- a shard of this block has arrived, so the search cannot come back empty
    have hnot := List.find?_eq_none.mp hfind shard (of_decide_eq_true hmem)
    simp only [hlabel.block, decide_true, not_true] at hnot
  | some shard' =>
    have hmem' : shard' ∈ rx := List.mem_of_find?_eq_some hfind
    have hfound := List.find?_some hfind
    -- whichever shard is found is one of the group, and all of them carry the same count
    obtain ⟨i', hi'⟩ := List.mem_iff_getElem?.mp (hrx shard' hmem' (of_decide_eq_true hfound))
    rw [Option.bind_some, (labelled_group hfec hb hgroup hi').dataShards]
    apply mapM_eq_some_map
    intro j hj
    exact receiveRow_eq hfec hb hgroup hrx hmany (List.mem_range.mp hj)

/-! ## The frame -/

/-- Where the data shards of a block begin. -/
def boundary (c : Config) (f : Frame) (i : ℕ) : ℕ :=
  if i = 4 then nrDataShards c f else min (i * c.nrDataShardsPerBlock) (nrDataShards c f)

/-- A block has room for data, whatever the percentage. -/
theorem nrDataShardsPerBlock_pos (c : Config) : 0 < c.nrDataShardsPerBlock := by
  have hpct := c.fecPercentage.toNat_lt
  have hdiv : maxShards * c.fecPercentage.toNat / (100 + c.fecPercentage.toNat) < maxShards := by
    rw [Nat.div_lt_iff_lt_mul (by omega), maxShards]
    omega
  rw [Config.nrDataShardsPerBlock, Config.nrParityShardsPerBlock]
  omega

/-- A shard has room for a payload. -/
theorem payloadSize_pos {c : Config} (hc : nvVideoPacketSize < c.requestedPacketSize) :
    0 < c.payloadSize :=
  Nat.sub_pos_of_lt hc

/-- A frame has a shard at least. -/
theorem nrDataShards_pos {c : Config} (hc : nvVideoPacketSize < c.requestedPacketSize)
    (f : Frame) : 0 < nrDataShards c f := by
  have hp := payloadSize_pos hc
  rw [nrDataShards, Frame.packetDataLen, videoFrameHeaderSize]
  apply Nat.div_pos _ hp
  omega

/-- A block of the loop begins before the frame's data shards end. -/
theorem start_lt {c : Config} (hc : nvVideoPacketSize < c.requestedPacketSize) {f : Frame} {i : ℕ}
    (hi : i < min (nrBlocks c f) 4) : i * c.nrDataShardsPerBlock < nrDataShards c f := by
  have hn := nrDataShards_pos hc f
  have hle : i ≤ (nrDataShards c f - 1) / c.nrDataShardsPerBlock := by
    rw [nrBlocks] at hi
    omega
  have := (Nat.le_div_iff_mul_le (nrDataShardsPerBlock_pos c)).mp hle
  omega

/-- The data shards of a block, by its boundaries. -/
theorem blockAt_boundary {c : Config} (hc : nvVideoPacketSize < c.requestedPacketSize) {f : Frame}
    {i : ℕ} (hi : i < min (nrBlocks c f) 4) :
    (blockAt c f i).start = boundary c f i ∧ (blockAt c f i).stop = boundary c f (i + 1) := by
  have hstart := start_lt hc hi
  constructor
  · rw [boundary, if_neg (by omega), Nat.min_eq_left (Nat.le_of_lt hstart)]
    rfl
  · simp only [blockAt, boundary]
    split_ifs <;> first | rfl | omega

/-- No block is empty. -/
theorem boundary_lt {c : Config} (hc : nvVideoPacketSize < c.requestedPacketSize) {f : Frame}
    {i : ℕ} (hi : i < min (nrBlocks c f) 4) : boundary c f i < boundary c f (i + 1) := by
  have hstart := start_lt hc hi
  have hd := nrDataShardsPerBlock_pos c
  simp only [boundary, Nat.succ_mul]
  split_ifs <;> omega

/-- Every block has data. -/
theorem nrDataShards_blockAt_pos {c : Config} (hc : nvVideoPacketSize < c.requestedPacketSize)
    {f : Frame} {i : ℕ} (hi : i < min (nrBlocks c f) 4) : 0 < (blockAt c f i).nrDataShards := by
  obtain ⟨hstart, hstop⟩ := blockAt_boundary hc hi
  have hlt := boundary_lt hc hi
  rw [Block.nrDataShards, hstart, hstop]
  omega

/-- The last block ends where the data shards do. -/
theorem boundary_last {c : Config} {f : Frame} :
    boundary c f (min (nrBlocks c f) 4) = nrDataShards c f := by
  have hd := nrDataShardsPerBlock_pos c
  have hle : nrDataShards c f ≤ nrBlocks c f * c.nrDataShardsPerBlock := by
    have := Nat.lt_div_mul_add hd (a := nrDataShards c f - 1)
    rw [nrBlocks, Nat.succ_mul]
    omega
  rw [boundary]
  split_ifs with h4
  · rfl
  · rw [show min (nrBlocks c f) 4 = nrBlocks c f by omega, Nat.min_eq_right hle]

/-- The blocks are a partition of the frame's data shards. -/
theorem flatMap_blocks {c : Config} (hc : nvVideoPacketSize < c.requestedPacketSize) (f : Frame) :
    ((List.range (min (nrBlocks c f) 4)).flatMap fun i =>
      (List.range (blockAt c f i).nrDataShards).map ((blockAt c f i).start + ·)) =
      List.range (nrDataShards c f) := by
  have h0 : boundary c f 0 = 0 := by
    rw [boundary, if_neg (by omega), Nat.zero_mul, Nat.zero_min]
  rw [← boundary_last, ← flatMap_range_cut h0 fun i hi => Nat.le_of_lt (boundary_lt hc hi)]
  apply List.flatMap_congr
  intro i hi
  obtain ⟨hstart, hstop⟩ := blockAt_boundary hc (List.mem_range.mp hi)
  rw [Block.nrDataShards, hstart, hstop]

/-- The payloads of the data shards, joined, are the frame behind its header, and zeros. -/
theorem flatten_rows {c : Config} (hc : nvVideoPacketSize < c.requestedPacketSize) (f : Frame) :
    ((List.range (nrDataShards c f)).map (row c f)).flatten = framed c f ++
      List.replicate (nrDataShards c f * c.payloadSize - f.packetDataLen) 0 := by
  have hp := payloadSize_pos hc
  have hle : f.packetDataLen ≤ nrDataShards c f * c.payloadSize := by
    have := Nat.lt_div_mul_add hp (a := f.packetDataLen + c.payloadSize - 1)
    rw [nrDataShards]
    omega
  have hlen : (framed c f ++ List.replicate
      (nrDataShards c f * c.payloadSize - f.packetDataLen) (0 : UInt8)).length =
      nrDataShards c f * c.payloadSize := by
    rw [List.length_append, length_framed, List.length_replicate]
    omega
  rw [← flatten_chunks hp (framed c f ++ _), chunks_of_length_eq hp hlen]
  congr 1
  apply List.map_congr_left
  intro g hg
  have hg' : (g + 1) * c.payloadSize ≤ nrDataShards c f * c.payloadSize :=
    Nat.mul_le_mul_right _ (List.mem_range.mp hg)
  rw [Nat.succ_mul] at hg'
  rw [slice_append_replicate (by rw [length_framed]; omega)]
  rfl

/-- The header says how long the last shard is. -/
theorem cut_eq {c : Config} (hc : nvVideoPacketSize < c.requestedPacketSize) (f : Frame) :
    (nrDataShards c f - 1) * c.payloadSize + lastShardSize c f = f.packetDataLen := by
  have hp := payloadSize_pos hc
  have hn := nrDataShards_pos hc f
  have hlen : 0 < f.packetDataLen := Nat.lt_of_lt_of_le (by decide) (Nat.le_add_right 8 _)
  have hdiv := Nat.div_add_mod f.packetDataLen c.payloadSize
  have hmod := Nat.mod_lt f.packetDataLen hp
  rw [lastShardSize]
  split_ifs with hr
  · -- The last shard is full.
    have hq : nrDataShards c f = f.packetDataLen / c.payloadSize := by
      rw [nrDataShards, Nat.div_eq_iff hp, Nat.mul_comm]
      omega
    rw [hq] at hn ⊢
    obtain ⟨k, hk⟩ : ∃ k, f.packetDataLen / c.payloadSize = k + 1 :=
      ⟨_, (Nat.succ_pred_eq_of_pos hn).symm⟩
    rw [hr, Nat.add_zero, hk, Nat.mul_comm, Nat.succ_mul] at hdiv
    rw [hk, Nat.add_sub_cancel]
    exact hdiv
  · have hq : nrDataShards c f = f.packetDataLen / c.payloadSize + 1 := by
      rw [nrDataShards, Nat.div_eq_iff hp, Nat.succ_mul, Nat.mul_comm]
      omega
    rw [hq, Nat.add_sub_cancel, Nat.mul_comm]
    exact hdiv

/-- The length of the last shard, as it is read from the frame's header. -/
theorem slice_framed {c : Config} (hc : nvVideoPacketSize < c.requestedPacketSize) {f : Frame}
    (hlen : c.payloadSize < 2 ^ 32) (zeros : Bytes) :
    ofLe (slice 4 4 (framed c f ++ zeros)) = lastShardSize c f := by
  have hlast : lastShardSize c f < 2 ^ 32 := by
    rw [lastShardSize]
    split_ifs with hr
    · exact hlen
    · exact Nat.lt_trans (Nat.mod_lt _ (payloadSize_pos hc)) hlen
  change ofLe (le 4 (UInt32.ofNat (lastShardSize c f)).toNat) = _
  rw [UInt32.toNat_ofNat', Nat.mod_eq_of_lt hlast, ofLe_le hlast]

/-- **The shards of a frame give it back** if of each block as many have arrived as it has data
shards. -/
theorem receiveFrame_eq (hfec : FecLaw fec reconstruct) {c : Config}
    (hc : nvVideoPacketSize < c.requestedPacketSize) {f : Frame} (hlen : c.payloadSize < 2 ^ 32)
    (hfits : ∀ b ∈ blocks c f, Fits c b) {g : ℕ → List Bytes}
    (hg : ∀ i < min (nrBlocks c f) 4, IsGroup fec c f (blockAt c f i) (g i)) {rx : List Bytes}
    (hrx : rx ⊆ (List.range (min (nrBlocks c f) 4)).flatMap g)
    (hmany : ∀ i < min (nrBlocks c f) 4,
      (blockAt c f i).nrDataShards ≤ ((g i).filter (· ∈ rx)).length) :
    receiveFrame fec reconstruct c rx = some f.encodedData := by
  have hfit : ∀ i < min (nrBlocks c f) 4, Fits c (blockAt c f i) := fun i hi =>
    hfits _ (List.mem_map.mpr ⟨i, List.mem_range.mpr hi, rfl⟩)
  have hblocks : 0 < min (nrBlocks c f) 4 := Nat.lt_min.mpr ⟨Nat.succ_pos _, by decide⟩
  -- Every shard is of the block that it says.
  have hof : ∀ shard ∈ rx, ∃ i < min (nrBlocks c f) 4, shard ∈ g i ∧ blockOf shard = i ∧
      lastBlockOf shard = min (nrBlocks c f) 4 - 1 := by
    intro shard hshard
    obtain ⟨i, hi, hmem⟩ := List.mem_flatMap.mp (hrx hshard)
    have hi := List.mem_range.mp hi
    obtain ⟨k, hk⟩ := List.mem_iff_getElem?.mp hmem
    have hlabel := labelled_group hfec (hfit i hi) (hg i hi) hk
    exact ⟨i, hi, hmem, hlabel.block, hlabel.lastBlock⟩
  have hblock : ∀ i ∈ List.range (min (nrBlocks c f) 4), receiveBlock fec reconstruct c rx i =
      some ((List.range (blockAt c f i).nrDataShards).map fun j =>
        row c f ((blockAt c f i).start + j)) := by
    intro i hi
    have hi := List.mem_range.mp hi
    refine receiveBlock_eq hfec (hfit i hi) (nrDataShards_blockAt_pos hc hi) (hg i hi) ?_
      (hmany i hi)
    intro shard hshard hsame
    obtain ⟨i', -, hmem, hi', -⟩ := hof shard hshard
    rw [← hi', hsame] at hmem
    exact hmem
  obtain ⟨shard, hshard⟩ := List.exists_mem_of_length_pos
    (Nat.lt_of_lt_of_le (nrDataShards_blockAt_pos hc hblocks) (hmany 0 hblocks))
  obtain ⟨rest, hhead⟩ : ∃ head, rx.head? = some head ∧ head ∈ rx := by
    cases rx with
    | nil => exact absurd (of_decide_eq_true (List.mem_filter.mp hshard).2) List.not_mem_nil
    | cons head rest => exact ⟨head, rfl, List.mem_cons_self⟩
  obtain ⟨hhead, hmem⟩ := hhead
  obtain ⟨-, -, -, -, hlast⟩ := hof _ hmem
  have hrows : ((List.range (min (nrBlocks c f) 4)).map fun i =>
      (List.range (blockAt c f i).nrDataShards).map fun j =>
        row c f ((blockAt c f i).start + j)).flatten =
      (List.range (nrDataShards c f)).map (row c f) := by
    rw [← flatMap_blocks hc f, List.map_flatMap]
    simp only [List.map_map, Function.comp_def, List.flatMap_def]
  rw [receiveFrame, hhead, Option.bind_some, hlast, Nat.sub_add_cancel hblocks,
    mapM_eq_some_map hblock, Option.bind_some]
  simp only [hrows, flatten_rows hc, slice_framed hc hlen, List.length_map, List.length_range,
    cut_eq hc]
  rw [List.take_left' (length_framed c f), framed, List.drop_left' (length_serialize _)]

/-! ## The datagrams -/

/-- The datagram of a shard: the client opens it to the shard. -/
def Opens (decrypt : K → Bytes → Bytes → Bytes → Option Bytes) (cipher : Option K)
    (shard slot : Bytes) : Prop :=
  openDatagram decrypt cipher slot = some shard ∧
    slot.length = (if cipher.isSome then encPrefixSize else 0) + shard.length

/-- A datagram that was encrypted is opened to its shard. -/
theorem opens_encrypted (haead : AeadLaw aead decrypt) {key : K} {n : UInt64}
    {shard data tag : Bytes} (h : aead.encrypt key (ivOf n) shard = some (data, tag)) (f : Frame) :
    Opens decrypt (some key) shard (ivOf n ++ le 4 f.frameNumber.toNat ++ tag ++ data) := by
  obtain ⟨hdata, htag⟩ := haead.length h
  have hiv : (ivOf n).length = 12 := by
    rw [ivOf, List.length_append, length_le]
    rfl
  have hnumber : (ivOf n ++ le 4 f.frameNumber.toNat).length = 16 := by
    rw [List.length_append, hiv, length_le]
  have hprefix : (ivOf n ++ le 4 f.frameNumber.toNat ++ tag).length = encPrefixSize := by
    rw [List.length_append, hnumber, htag]
    rfl
  constructor
  · rw [openDatagram, List.drop_left' hprefix, slice, slice, List.drop_zero,
      List.append_assoc (ivOf n ++ _) tag, List.drop_left' hnumber, List.take_left' htag,
      List.append_assoc (ivOf n), List.take_left' hiv]
    exact haead.decrypt h
  · rw [List.length_append, hprefix, hdata]
    rfl

/-- So is each of a list. -/
theorem Encrypted.opens (haead : AeadLaw aead decrypt) {key : K} {f : Frame} {n n' : UInt64}
    {shards slots : List Bytes} (h : Encrypted aead key f n shards slots n') :
    List.Forall₂ (Opens decrypt (some key)) shards slots := by
  induction h with
  | nil => exact .nil
  | cons hseal _ ih => exact .cons (opens_encrypted haead hseal f) ih

/-- With and without a cipher. -/
theorem Sealed.opens (haead : AeadLaw aead decrypt) {cipher : Option K} {f : Frame}
    {n n' : UInt64} {shards slots : List Bytes} (h : Sealed aead f cipher n shards slots n') :
    List.Forall₂ (Opens decrypt cipher) shards slots := by
  cases h with
  | plain => exact List.forall₂_same.mpr fun shard _ => ⟨rfl, (Nat.zero_add _).symm⟩
  | encrypted h => exact h.opens haead

/-- The datagrams of a block, in the batch of its frame. -/
def datagramsOf (c : Config) (f : Frame) (batch : ShardBatch) (i : ℕ) : List Bytes :=
  slice ((List.range i).map fun j => c.nrShards (blockAt c f j)).sum (c.nrShards (blockAt c f i))
    (chunks batch.shardSize batch.data)

/-- The shards of a frame, block by block. -/
theorem Shards.byBlock {c : Config} {f : Frame} {q q' : UInt32} {shards : List Bytes}
    (h : Shards fec c f q (blocks c f) shards q') :
    ∃ g : ℕ → List Bytes,
      (∀ i < min (nrBlocks c f) 4, IsGroup fec c f (blockAt c f i) (g i)) ∧
      shards = (List.range (min (nrBlocks c f) 4)).flatMap g := by
  obtain ⟨groups, hgroups, rfl⟩ := h.groups
  have hlen : groups.length = min (nrBlocks c f) 4 := by
    rw [← hgroups.length_eq, blocks, List.length_map, List.length_range]
  refine ⟨fun i => groups.getD i [], ?_, ?_⟩
  · intro i hi
    have hget := hgroups.get (i := i) (by rwa [hgroups.length_eq, hlen]) (by rwa [hlen])
    change IsGroup fec c f (blockAt c f i) (groups.getD i [])
    rw [List.getD_eq_getElem?_getD, List.getElem?_eq_getElem (by rwa [hlen]), Option.getD_some]
    simpa only [blocks, List.get_eq_getElem, List.getElem_map, List.getElem_range] using hget
  · rw [List.flatMap_def]
    congr 1
    apply List.ext_getElem?
    intro i
    rw [List.getElem?_map]
    rcases Nat.lt_or_ge i groups.length with hi | hi
    · rw [List.getElem?_range (by rwa [← hlen]), Option.map_some, List.getD_eq_getElem?_getD,
        List.getElem?_eq_getElem hi]
      rfl
    · rw [List.getElem?_eq_none hi, List.getElem?_eq_none (by rwa [List.length_range, ← hlen])]
      rfl

/-- Whatever a datagram opens to was put into it. -/
theorem filterMap_subset {cipher : Option K} {shards slots rx : List Bytes}
    (h : List.Forall₂ (Opens decrypt cipher) shards slots) (hrx : rx ⊆ slots) :
    rx.filterMap (openDatagram decrypt cipher) ⊆ shards := by
  intro shard hshard
  obtain ⟨slot, hslot, hopen⟩ := List.mem_filterMap.mp hshard
  obtain ⟨k, hk, hget⟩ := List.getElem_of_mem (hrx hslot)
  have hk' : k < shards.length := by rwa [h.length_eq]
  have hpair := (h.get hk' hk).1
  rw [List.get_eq_getElem, List.get_eq_getElem, hget, hopen, Option.some.injEq] at hpair
  rw [hpair]
  exact List.getElem_mem hk'

/-- A call that returns a batch has sealed the shards of the frame into its pieces. -/
theorem packetize_batch (hfec : FecLaw fec reconstruct) (haead : AeadLaw aead decrypt)
    {c : Config} (hc : nvVideoPacketSize < c.requestedPacketSize) {f : Frame}
    {keys : SessionKeyData} {s s' : State RS K} (hs : Coherent fec s) {batch : ShardBatch}
    (hrun : packetize fec aead c keys f s = .ok batch s') :
    ∃ shards cache, ∃ n ≤ c.totalShards (blocks c f),
      Shards fec c f s.sequenceNumber (blocks c f) shards s'.sequenceNumber ∧
      Sealed aead f (maybeUpdateCipher aead keys s).cipher
        (maybeUpdateCipher aead keys s).gcmIvCounter shards (chunks batch.shardSize batch.data)
        s'.gcmIvCounter ∧
      Coherent fec (s.withCache cache) ∧
      s' = ((maybeUpdateCipher aead keys s).withCache cache).counted
        (c.totalShards (blocks c f)) n := by
  have hspec := packetize_spec aead hc keys f hs _ rfl
  rw [hrun] at hspec
  obtain ⟨shards, slots, cache, n, hn, hdata, hsize, hshards, hsealed, hcache, hs'⟩ := hspec
  have hopens := hsealed.opens haead
  obtain ⟨g, hg, hflat⟩ := hshards.byBlock
  -- all datagrams have the size of a shard, so cutting the batch up gives them back
  have hchunks : chunks batch.shardSize batch.data = slots := by
    rw [hdata]
    have hpos : 0 < batch.shardSize := by
      have := payloadSize_pos hc
      rw [hsize, Config.shardSize]
      omega
    apply chunks_flatten hpos
    intro slot hslot
    obtain ⟨k, hk, rfl⟩ := List.getElem_of_mem hslot
    have hk' : k < shards.length := by rwa [hopens.length_eq]
    have hmem : shards[k] ∈ (List.range (min (nrBlocks c f) 4)).flatMap g :=
      hflat ▸ List.getElem_mem hk'
    obtain ⟨i, hi, hmem⟩ := List.mem_flatMap.mp hmem
    rw [hsize, ← length_of_mem_group hfec (hg i (List.mem_range.mp hi)) hmem]
    exact (hopens.get hk' hk).2
  exact ⟨shards, cache, n, hn, hshards, hchunks.symm ▸ hsealed, hcache, hs'⟩

/-- The pieces of a batch are the datagrams of the frame's shards, block by block. -/
theorem batch_opens (hfec : FecLaw fec reconstruct) (haead : AeadLaw aead decrypt) {c : Config}
    (hc : nvVideoPacketSize < c.requestedPacketSize) {f : Frame} {keys : SessionKeyData}
    {s s' : State RS K} (hs : Coherent fec s) {batch : ShardBatch}
    (hrun : packetize fec aead c keys f s = .ok batch s') :
    ∃ g : ℕ → List Bytes,
      (∀ i < min (nrBlocks c f) 4, IsGroup fec c f (blockAt c f i) (g i)) ∧
      List.Forall₂ (Opens decrypt (maybeUpdateCipher aead keys s).cipher)
        ((List.range (min (nrBlocks c f) 4)).flatMap g) (chunks batch.shardSize batch.data) ∧
      ∀ i < min (nrBlocks c f) 4, List.Forall₂
        (Opens decrypt (maybeUpdateCipher aead keys s).cipher) (g i) (datagramsOf c f batch i) := by
  obtain ⟨shards, cache, n, -, hshards, hsealed, -, -⟩ := packetize_batch hfec haead hc hs hrun
  have hopens := hsealed.opens haead
  obtain ⟨g, hg, rfl⟩ := hshards.byBlock
  refine ⟨g, hg, hopens, ?_⟩
  intro i hi
  -- the datagrams of block `i` start where the groups before it end
  have hplaces : ((List.range i).map fun j => (g j).length) =
      (List.range i).map fun j => c.nrShards (blockAt c f j) :=
    List.map_congr_left fun j hj =>
      length_group (hg j (Nat.lt_trans (List.mem_range.mp hj) hi))
  rw [← slice_flatMap_range (g := g) hi, hplaces, length_group (hg i hi), datagramsOf]
  exact List.forall₂_take _ (List.forall₂_drop _ hopens)

/-- From enough datagrams of every block the client has the frame. -/
theorem receive_of_groups (hfec : FecLaw fec reconstruct) {c : Config}
    (hc : nvVideoPacketSize < c.requestedPacketSize) (hlen : c.payloadSize < 2 ^ 32) {f : Frame}
    (hfits : ∀ b ∈ blocks c f, Fits c b) {g : ℕ → List Bytes}
    (hg : ∀ i < min (nrBlocks c f) 4, IsGroup fec c f (blockAt c f i) (g i)) {cipher : Option K}
    {batch : ShardBatch}
    (hopens : List.Forall₂ (Opens decrypt cipher)
      ((List.range (min (nrBlocks c f) 4)).flatMap g) (chunks batch.shardSize batch.data))
    (hgroups : ∀ i < min (nrBlocks c f) 4,
      List.Forall₂ (Opens decrypt cipher) (g i) (datagramsOf c f batch i)) {rx : List Bytes}
    (hrx : rx ⊆ chunks batch.shardSize batch.data)
    (hmany : ∀ i < (blocks c f).length,
      (blockAt c f i).nrDataShards ≤ ((datagramsOf c f batch i).filter (· ∈ rx)).length) :
    receive fec reconstruct decrypt c cipher rx = some f.encodedData := by
  refine receiveFrame_eq hfec hc hlen hfits hg (filterMap_subset hopens hrx) ?_
  intro i hi
  refine Nat.le_trans (hmany i (by rwa [blocks, List.length_map, List.length_range])) ?_
  refine length_filter_le_of_forall₂ (fun shard slot hopen hslot => ?_) (hgroups i hi)
  rw [decide_eq_true_eq] at hslot ⊢
  exact List.mem_filterMap.mpr ⟨slot, hslot, hopen.1⟩

/-- **A frame survives the loss of datagrams.** Whatever datagrams of a batch arrive, in whatever
order and however often: if of each block as many have arrived as it has data shards, the client has
the encoded frame. The numbers of each block have to fit their fields, for which there are ten bits
and eight: with a minimum of parity for a small block the percentage can come out larger, and it
then runs into the index of the shard. -/
theorem frame_survives_loss (hfec : FecLaw fec reconstruct) (haead : AeadLaw aead decrypt)
    {c : Config} (hc : nvVideoPacketSize < c.requestedPacketSize) (hlen : c.payloadSize < 2 ^ 32)
    {f : Frame} (hfits : ∀ b ∈ blocks c f, Fits c b) {keys : SessionKeyData} {s s' : State RS K}
    (hs : Coherent fec s) {batch : ShardBatch}
    (hrun : packetize fec aead c keys f s = .ok batch s') {rx : List Bytes}
    (hrx : rx ⊆ chunks batch.shardSize batch.data)
    (hmany : ∀ i < (blocks c f).length,
      (blockAt c f i).nrDataShards ≤ ((datagramsOf c f batch i).filter (· ∈ rx)).length) :
    receive fec reconstruct decrypt c (maybeUpdateCipher aead keys s).cipher rx =
      some f.encodedData := by
  obtain ⟨g, hg, hopens, hgroups⟩ := batch_opens hfec haead hc hs hrun
  exact receive_of_groups hfec hc hlen hfits hg hopens hgroups hrx hmany

/-- **When the numbers in the shards are right.** There are ten bits for the number of data shards
of a block and eight for its percentage; the fields that a client reads are those of the shard's
place in all blocks of a frame, if and only if the numbers of each block are that small. -/
theorem labels_right_iff (hfec : FecLaw fec reconstruct) (haead : AeadLaw aead decrypt)
    {c : Config} (hc : nvVideoPacketSize < c.requestedPacketSize) {f : Frame}
    {keys : SessionKeyData} {s s' : State RS K} (hs : Coherent fec s) {batch : ShardBatch}
    (hrun : packetize fec aead c keys f s = .ok batch s') :
    (∀ i < (blocks c f).length, ∀ k d, (datagramsOf c f batch i)[k]? = some d →
      ∃ shard, openDatagram decrypt (maybeUpdateCipher aead keys s).cipher d = some shard ∧
        Labelled c f (blockAt c f i) k shard) ↔
    ∀ b ∈ blocks c f, b.nrDataShards < 1024 ∧ c.blockPercentage b < 256 := by
  obtain ⟨g, hg, -, hgroups⟩ := batch_opens hfec haead hc hs hrun
  have hcount : (blocks c f).length = min (nrBlocks c f) 4 := by
    rw [blocks, List.length_map, List.length_range]
  -- every datagram opens to the shard of its place in the group
  have hpair : ∀ i < min (nrBlocks c f) 4, ∀ (k : ℕ) (d : Bytes),
      (datagramsOf c f batch i)[k]? = some d → ∃ shard, (g i)[k]? = some shard ∧
        openDatagram decrypt (maybeUpdateCipher aead keys s).cipher d = some shard := by
    intro i hi k d hd
    obtain ⟨hk, rfl⟩ := List.getElem?_eq_some_iff.mp hd
    have hk' : k < (g i).length := by rwa [(hgroups i hi).length_eq]
    exact ⟨(g i)[k], List.getElem?_eq_getElem hk', ((hgroups i hi).get hk' hk).1⟩
  rw [hcount]
  constructor
  -- the first shard of a block already carries both fields the bound is about
  · intro hlabels b hb
    obtain ⟨i, hi, rfl⟩ := List.mem_map.mp hb
    have hi := List.mem_range.mp hi
    have hpos : 0 < (datagramsOf c f batch i).length := by
      rw [← (hgroups i hi).length_eq, length_group (hg i hi), Config.nrShards]
      exact Nat.add_pos_left (nrDataShards_blockAt_pos hc hi) _
    obtain ⟨shard, -, hlabel⟩ := hlabels i hi 0 (datagramsOf c f batch i)[0]
      (List.getElem?_eq_getElem hpos)
    have hfit := fits_of_labelled (Nat.lt_of_lt_of_le hi (Nat.min_le_right _ _)) hlabel
    exact ⟨hfit.dataShards, hfit.percentage⟩
  · intro hsmall i hi k d hd
    obtain ⟨shard, hshard, hopen⟩ := hpair i hi k d hd
    obtain ⟨hn, hp⟩ := hsmall _ (List.mem_map.mpr ⟨i, List.mem_range.mpr hi, rfl⟩)
    have hfit : Fits c (blockAt c f i) := ⟨Nat.lt_of_lt_of_le hi (Nat.min_le_right _ _), hn, hp⟩
    exact ⟨shard, hopen, labelled_group hfec hfit (hg i hi) hshard⟩

end Client

/-! One data shard and one parity shard, which repeats it: the data shard is lost. -/

/-- The code with one data shard and one parity shard. -/
def mirror : Fec Unit where
  new nd np := if nd = 1 ∧ np = 1 then some () else none
  encode _ data := some data

/-- Either shard gives the data. -/
def unmirror (_ : Unit) (known : ℕ → Option UInt8) : Option Bytes :=
  ((known 0).or (known 1)).map fun x => [x]

theorem fecLaw_mirror : FecLaw mirror unmirror where
  rows {nd np len rs data rows} hnew henc hdata hlen := by
    obtain ⟨⟨rfl, rfl⟩, -⟩ := Option.ite_none_right_eq_some.mp hnew
    obtain rfl := Option.some.inj henc
    exact ⟨hdata, hlen⟩
  column {nd np len rs data rows} hnew henc hdata hlen p hp known hknown hcount := by
    obtain ⟨⟨rfl, rfl⟩, -⟩ := Option.ite_none_right_eq_some.mp hnew
    obtain rfl := Option.some.inj henc
    obtain ⟨d, rfl⟩ := List.length_eq_one_iff.mp hdata
    have hget : ∀ x, d[p]? = some x → d.getD p 0 = x := fun x hx => by
      rw [List.getD_eq_getElem?_getD, hx]
      rfl
    rw [unmirror]
    -- the code has two rows with the same byte: either of them gives it back
    cases h0 : known 0 with
    | some x =>
      rw [Option.some_or, Option.map_some, List.map_singleton, hget x (hknown 0 x h0)]
    | none =>
      cases h1 : known 1 with
      | some x =>
        rw [Option.none_or, Option.map_some, List.map_singleton, hget x (hknown 1 x h1)]
      | none =>
        -- neither row is known, against the count of known rows
        have hnone : ((List.range (1 + 1)).filter fun i => (known i).isSome) = [] := by
          simp only [List.range_succ, List.range_zero, List.nil_append, List.cons_append,
            List.filter_cons, List.filter_nil, h0, h1, Option.isSome_none, Bool.false_eq_true,
            if_false]
        rw [hnone] at hcount
        exact absurd hcount (by decide)

/-- The cipher itself. -/
def aes128Gcm : Aead Bytes where
  newKey key := key
  encrypt := Aes128Gcm.encrypt

theorem aeadLaw_aes128Gcm : AeadLaw aes128Gcm Aes128Gcm.decrypt where
  length := Aes128Gcm.length_encrypt
  decrypt := Aes128Gcm.decrypt_encrypt

theorem frame_survives_loss_of_data : ∃ batch s',
    packetize mirror aes128Gcm ⟨32, 1, 0⟩ ⟨[], 0⟩ ⟨[1, 2, 3], true, 7, 9, 0⟩
      { Packetizer.new false with sequenceNumber := 65535 } = .ok batch s' ∧
    receive mirror unmirror Aes128Gcm.decrypt ⟨32, 1, 0⟩ none
      ((chunks batch.shardSize batch.data).drop 1) = some [1, 2, 3] := by
  have hbatch : ∃ batch s', packetize mirror aes128Gcm ⟨32, 1, 0⟩ ⟨[], 0⟩ ⟨[1, 2, 3], true, 7, 9, 0⟩
      { Packetizer.new false with sequenceNumber := 65535 } = .ok batch s' ∧
      ∀ i < 1, (blockAt ⟨32, 1, 0⟩ ⟨[1, 2, 3], true, 7, 9, 0⟩ i).nrDataShards ≤
        ((datagramsOf ⟨32, 1, 0⟩ ⟨[1, 2, 3], true, 7, 9, 0⟩ batch i).filter
          (· ∈ (chunks batch.shardSize batch.data).drop 1)).length := by
    refine ⟨_, _, rfl, fun i hi => ?_⟩
    obtain rfl := Nat.lt_one_iff.mp hi
    decide +kernel
  obtain ⟨batch, s', hrun, hmany⟩ := hbatch
  refine ⟨batch, s', hrun, frame_survives_loss fecLaw_mirror aeadLaw_aes128Gcm (by decide)
    (by decide) ?_ (coherent_new false 65535) hrun (List.drop_subset _ _) hmany⟩
  exact List.forall_mem_singleton.mpr ⟨by decide, by decide, by decide⟩

theorem labels_right_iff_of_parity : ∃ batch s',
    packetize mirror aes128Gcm ⟨32, 1, 0⟩ ⟨[], 0⟩ ⟨[1, 2, 3], true, 7, 9, 0⟩
      { Packetizer.new false with sequenceNumber := 65535 } = .ok batch s' ∧
    ((∀ i < 1, ∀ k d,
      (datagramsOf ⟨32, 1, 0⟩ ⟨[1, 2, 3], true, 7, 9, 0⟩ batch i)[k]? = some d →
      ∃ shard, openDatagram Aes128Gcm.decrypt none d = some shard ∧
        Labelled ⟨32, 1, 0⟩ ⟨[1, 2, 3], true, 7, 9, 0⟩
          (blockAt ⟨32, 1, 0⟩ ⟨[1, 2, 3], true, 7, 9, 0⟩ i) k shard) ↔
    ∀ b ∈ blocks ⟨32, 1, 0⟩ ⟨[1, 2, 3], true, 7, 9, 0⟩,
      b.nrDataShards < 1024 ∧ Config.blockPercentage ⟨32, 1, 0⟩ b < 256) := by
  have hbatch : ∃ batch s', packetize mirror aes128Gcm ⟨32, 1, 0⟩ ⟨[], 0⟩ ⟨[1, 2, 3], true, 7, 9, 0⟩
      { Packetizer.new false with sequenceNumber := 65535 } = .ok batch s' := ⟨_, _, rfl⟩
  obtain ⟨batch, s', hrun⟩ := hbatch
  exact ⟨batch, s', hrun, labels_right_iff fecLaw_mirror aeadLaw_aes128Gcm (by decide)
    (coherent_new false 65535) hrun⟩

end RgspCast.Video
