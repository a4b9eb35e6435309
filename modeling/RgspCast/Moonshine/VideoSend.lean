import RgspCast.Moonshine.PacketizerRun

/-!
# Sending batches

`UdpGsoSocket::send_batch` hands a batch to the kernel in pieces that the kernel cuts into datagrams
(segmentation offload); a piece that the kernel refuses is sent shard by shard. The packet handler
sends every batch to the address of the last `PING`.

The kernel is the list of its answers, in the order of the calls, and a run that has no answer left
hangs. `attempts_of_sendBatch` says that a call that returns has tried every shard of the batch once
and in order, whatever the caps and the answers; `frame_over_socket` puts it together with the
packetizer and the client.
-/

namespace RgspCast.Video

open Layout

/-! ## The socket -/

/-- `MAX_UDP_PAYLOAD`. -/
def maxUdpPayload : ℕ := 65507

/-- `gso_segments_per_send`. -/
def gsoSegmentsPerSend (maxGsoSegments shardSize : ℕ) : ℕ :=
  max (min maxGsoSegments (if shardSize = 0 then 0 else maxUdpPayload / shardSize)) 1

/-- What the kernel says to a send. -/
inductive Answer where
  | wouldBlock
  | sent
  | failed
  deriving DecidableEq, Repr

/-- A send that was not put off: of a piece that the kernel cuts, or of one shard. -/
inductive Send where
  | gso (contents : Bytes) (segmentSize : ℕ) (ok : Bool)
  | shard (contents : Bytes) (ok : Bool)
  deriving DecidableEq, Repr

/-- The loop of `send_batch_gso` around `try_send`, and what `send_to` does by itself: a send that
would block is tried again. -/
def trySend : List Answer → Option (Bool × List Answer)
  | [] => none
  | .wouldBlock :: answers => trySend answers
  | .sent :: answers => some (true, answers)
  | .failed :: answers => some (false, answers)

/-- `send_shards`, for the shards of its buffer. -/
def sendShards : List Bytes → List Answer → Option (List Send × List Answer)
  | [], answers => some ([], answers)
  | shard :: shards, answers =>
    (trySend answers).bind fun (ok, answers) =>
      (sendShards shards answers).map fun (sends, answers) => (.shard shard ok :: sends, answers)

/-- What a call of `send_batch` has done: its sends and the number of pieces that fell back. -/
structure Sent where
  sends : List Send
  failedChunks : ℕ
  deriving DecidableEq, Repr

/-- The loop of `send_batch_gso` over the pieces of the batch. -/
def sendChunks (shardSize : ℕ) : List Bytes → List Answer → Option (Sent × List Answer)
  | [], answers => some (⟨[], 0⟩, answers)
  | chunk :: rest, answers =>
    (trySend answers).bind fun (ok, answers) =>
      if ok then
        (sendChunks shardSize rest answers).map fun (r, answers) =>
          (⟨.gso chunk shardSize true :: r.sends, r.failedChunks⟩, answers)
      else
        (sendShards (chunks shardSize chunk) answers).bind fun (sends, answers) =>
          (sendChunks shardSize rest answers).map fun (r, answers) =>
            (⟨.gso chunk shardSize false :: sends ++ r.sends, r.failedChunks + 1⟩, answers)

/-- `send_batch_gso`. -/
def sendBatchGso (maxGsoSegments : ℕ) (batch : ShardBatch) (answers : List Answer) :
    Option (Sent × List Answer) :=
  if batch.shardSize = 0 then some (⟨[], 0⟩, answers)
  else
    sendChunks batch.shardSize
      (chunks (gsoSegmentsPerSend maxGsoSegments batch.shardSize * batch.shardSize) batch.data)
      answers

/-- `send_batch`. The cap is read once for a call, before anything is sent: it is one for all the
pieces of the batch. -/
def sendBatch (maxGsoSegments : ℕ) (batch : ShardBatch) (answers : List Answer) :
    Option (Sent × List Answer) :=
  if 1 < maxGsoSegments then sendBatchGso maxGsoSegments batch answers
  else if batch.shardSize = 0 then some (⟨[], 0⟩, answers)
  else
    (sendShards (chunks batch.shardSize batch.data) answers).map fun (sends, answers) =>
      (⟨sends, 0⟩, answers)

/-! ## What is on the wire -/

/-- The shards that a send stands for, with whether they are on the wire. A piece that was refused
stands for none: it is sent again, shard by shard. -/
def Send.attempts : Send → List (Bytes × Bool)
  | .gso contents segmentSize true => (chunks segmentSize contents).map (·, true)
  | .gso _ _ false => []
  | .shard contents ok => [(contents, ok)]

/-- The datagrams of a send. -/
def Send.datagrams (s : Send) : List Bytes := (s.attempts.filter Prod.snd).map Prod.fst

/-- What the kernel takes in one call: whole shards, no more of them than it cuts, in a buffer of
the size of a datagram. Where a shard is larger than a datagram there is one. -/
def Send.WithinCaps (maxGsoSegments shardSize : ℕ) : Send → Prop
  | .gso contents segmentSize _ =>
    segmentSize = shardSize ∧ (chunks segmentSize contents).length ≤ maxGsoSegments ∧
      (contents.length ≤ maxUdpPayload ∨ contents.length ≤ shardSize)
  | .shard contents _ => contents.length ≤ shardSize

/-- Shards that are sent by themselves are tried in order, each once. -/
theorem map_fst_attempts_shard (shards : List Bytes) {answers rest : List Answer}
    {sends : List Send} (h : sendShards shards answers = some (sends, rest)) :
    (sends.flatMap Send.attempts).map Prod.fst = shards ∧
      ∀ s ∈ sends, ∃ shard ∈ shards, ∃ ok, s = .shard shard ok := by
  induction shards generalizing answers sends with
  | nil =>
    obtain ⟨rfl, rfl⟩ := Prod.mk.inj (Option.some.inj h)
    exact ⟨rfl, List.forall_mem_nil _⟩
  | cons shard shards ih =>
    rw [sendShards] at h
    obtain ⟨⟨ok, answers'⟩, -, h⟩ := Option.bind_eq_some_iff.mp h
    obtain ⟨⟨sends', rest'⟩, hrest, h⟩ := Option.map_eq_some_iff.mp h
    obtain ⟨rfl, rfl⟩ := Prod.mk.inj h
    obtain ⟨hfst, hall⟩ := ih hrest
    refine ⟨?_, List.forall_mem_cons.mpr ⟨⟨shard, List.mem_cons_self, ok, rfl⟩, fun s hs => ?_⟩⟩
    · rw [List.flatMap_cons, List.map_append, hfst]
      rfl
    · obtain ⟨shard', hmem, hshard⟩ := hall s hs
      exact ⟨shard', List.mem_cons_of_mem _ hmem, hshard⟩

/-- A piece that is accepted has tried the shards in it. -/
theorem map_fst_attempts_gso (segmentSize : ℕ) (contents : Bytes) :
    (Send.gso contents segmentSize true).attempts.map Prod.fst = chunks segmentSize contents := by
  rw [Send.attempts, List.map_map]
  exact List.map_id' _

/-- The pieces are tried one after the other, each as a whole or shard by shard. -/
theorem map_fst_attempts_chunks {shardSize : ℕ} (pieces : List Bytes) {answers rest : List Answer}
    {r : Sent} (h : sendChunks shardSize pieces answers = some (r, rest)) :
    (r.sends.flatMap Send.attempts).map Prod.fst = pieces.flatMap (chunks shardSize) ∧
      ∀ s ∈ r.sends, (∃ piece ∈ pieces, ∃ ok, s = .gso piece shardSize ok) ∨
        ∃ piece ∈ pieces, ∃ shard ∈ chunks shardSize piece, ∃ ok, s = .shard shard ok := by
  induction pieces generalizing answers r with
  | nil =>
    obtain ⟨rfl, rfl⟩ := Prod.mk.inj (Option.some.inj h)
    exact ⟨rfl, List.forall_mem_nil _⟩
  | cons piece pieces ih =>
    rw [sendChunks] at h
    obtain ⟨⟨ok, answers'⟩, -, h⟩ := Option.bind_eq_some_iff.mp h
    cases ok with
    | true =>
      obtain ⟨⟨r', rest'⟩, hrest, h⟩ := Option.map_eq_some_iff.mp h
      obtain ⟨rfl, rfl⟩ := Prod.mk.inj h
      obtain ⟨hfst, hall⟩ := ih hrest
      refine ⟨?_, List.forall_mem_cons.mpr
        ⟨Or.inl ⟨piece, List.mem_cons_self, true, rfl⟩, fun s hs => ?_⟩⟩
      · rw [List.flatMap_cons, List.map_append, hfst, map_fst_attempts_gso, List.flatMap_cons]
      · exact (hall s hs).imp
          (fun ⟨piece', hmem, hs⟩ => ⟨piece', List.mem_cons_of_mem _ hmem, hs⟩)
          (fun ⟨piece', hmem, hs⟩ => ⟨piece', List.mem_cons_of_mem _ hmem, hs⟩)
    -- a piece that was refused is sent shard by shard, and the rest is tried as before
    | false =>
      obtain ⟨⟨sends, answers''⟩, hshards, h⟩ := Option.bind_eq_some_iff.mp h
      obtain ⟨⟨r', rest'⟩, hrest, h⟩ := Option.map_eq_some_iff.mp h
      obtain ⟨rfl, rfl⟩ := Prod.mk.inj h
      obtain ⟨hfst, hall⟩ := ih hrest
      obtain ⟨hfst', hall'⟩ := map_fst_attempts_shard _ hshards
      refine ⟨?_, List.forall_mem_cons.mpr
        ⟨Or.inl ⟨piece, List.mem_cons_self, false, rfl⟩, fun s hs => ?_⟩⟩
      · rw [List.cons_append, List.flatMap_cons, List.flatMap_append, Send.attempts,
          List.nil_append, List.map_append, hfst, hfst', List.flatMap_cons]
      · rcases List.mem_append.mp hs with hs | hs
        · exact Or.inr ⟨piece, List.mem_cons_self, hall' s hs⟩
        · exact (hall s hs).imp
            (fun ⟨piece', hmem, hs⟩ => ⟨piece', List.mem_cons_of_mem _ hmem, hs⟩)
            (fun ⟨piece', hmem, hs⟩ => ⟨piece', List.mem_cons_of_mem _ hmem, hs⟩)

/-- The attempts of a call that returns: the shards of the batch, one after the other. -/
theorem map_fst_attempts {maxGsoSegments : ℕ} {batch : ShardBatch} {answers rest : List Answer}
    (hsize : 0 < batch.shardSize) {r : Sent}
    (h : sendBatch maxGsoSegments batch answers = some (r, rest)) :
    (r.sends.flatMap Send.attempts).map Prod.fst = chunks batch.shardSize batch.data := by
  rw [sendBatch] at h
  split_ifs at h with hmax hzero
  · have hsegments : 0 < gsoSegmentsPerSend maxGsoSegments batch.shardSize :=
      Nat.lt_of_lt_of_le Nat.one_pos (Nat.le_max_right _ _)
    rw [sendBatchGso, if_neg (by omega)] at h
    obtain ⟨hfst, -⟩ := map_fst_attempts_chunks _ h
    rw [hfst, flatMap_chunks hsize hsegments]
  · omega
  · obtain ⟨⟨sends, rest'⟩, hshards, h⟩ := Option.map_eq_some_iff.mp h
    obtain ⟨rfl, rfl⟩ := Prod.mk.inj h
    exact (map_fst_attempts_shard _ hshards).1

/-- **Every shard is tried once.** Whatever the caps and the answers of the kernel, a call that
returns has tried the shards of the batch one after the other, and no call handed the kernel more
than it takes. -/
theorem attempts_of_sendBatch {maxGsoSegments : ℕ} {batch : ShardBatch} {answers rest : List Answer}
    (hsize : 0 < batch.shardSize) {r : Sent}
    (h : sendBatch maxGsoSegments batch answers = some (r, rest)) :
    (r.sends.flatMap Send.attempts).map Prod.fst = chunks batch.shardSize batch.data ∧
      ∀ s ∈ r.sends, s.WithinCaps maxGsoSegments batch.shardSize := by
  refine ⟨map_fst_attempts hsize h, fun s hs => ?_⟩
  rw [sendBatch] at h
  split_ifs at h with hmax hzero
  · have hsegments : 0 < gsoSegmentsPerSend maxGsoSegments batch.shardSize :=
      Nat.lt_of_lt_of_le Nat.one_pos (Nat.le_max_right _ _)
    rw [sendBatchGso, if_neg (by omega)] at h
    obtain ⟨-, hall⟩ := map_fst_attempts_chunks _ h
    rcases hall s hs with ⟨piece, hpiece, ok, rfl⟩ | ⟨piece, -, shard, hshard, ok, rfl⟩
    -- a piece has at most as many shards as the cap, of which one is always allowed
    · have hlen := length_le_of_mem_chunks hpiece
      refine ⟨rfl, ?_, ?_⟩
      · have hle : gsoSegmentsPerSend maxGsoSegments batch.shardSize ≤ maxGsoSegments := by
          rw [gsoSegmentsPerSend]
          omega
        refine Nat.le_trans (Nat.lt_succ_iff.mp ?_) hle
        rw [length_chunks, Nat.div_lt_iff_lt_mul hsize, Nat.succ_mul]
        omega
      · rw [gsoSegmentsPerSend, if_neg (by omega)] at hlen
        rcases Nat.eq_zero_or_pos (min maxGsoSegments (maxUdpPayload / batch.shardSize)) with
          hzero | hpos
        · rw [hzero, Nat.max_eq_right (Nat.zero_le 1), Nat.one_mul] at hlen
          exact Or.inr hlen
        · left
          rw [Nat.max_eq_left hpos] at hlen
          calc piece.length
              ≤ min maxGsoSegments (maxUdpPayload / batch.shardSize) * batch.shardSize := hlen
            _ ≤ maxUdpPayload / batch.shardSize * batch.shardSize :=
                Nat.mul_le_mul_right _ (Nat.min_le_right _ _)
            _ ≤ maxUdpPayload := Nat.div_mul_le_self _ _
    · exact length_le_of_mem_chunks hshard
  · omega
  · obtain ⟨⟨sends, rest'⟩, hshards, h⟩ := Option.map_eq_some_iff.mp h
    obtain ⟨rfl, rfl⟩ := Prod.mk.inj h
    obtain ⟨shard, hshard, ok, rfl⟩ := (map_fst_attempts_shard _ hshards).2 s hs
    exact length_le_of_mem_chunks hshard

/-- Three shards, two of them in one piece; the kernel refuses this piece. -/
theorem attempts_of_sendBatch_refused : ∃ r rest,
    sendBatch 2 ⟨[1, 2, 3, 4, 5, 6], 2⟩ [.wouldBlock, .failed, .sent, .failed, .sent] =
      some (r, rest) ∧ r.failedChunks = 1 ∧
    (r.sends.flatMap Send.attempts).map Prod.fst = chunks 2 [1, 2, 3, 4, 5, 6] ∧
      ∀ s ∈ r.sends, s.WithinCaps 2 2 := by
  have hsend : ∃ r rest, sendBatch 2 ⟨[1, 2, 3, 4, 5, 6], 2⟩
      [.wouldBlock, .failed, .sent, .failed, .sent] = some (r, rest) ∧ r.failedChunks = 1 :=
    ⟨_, _, rfl, rfl⟩
  obtain ⟨r, rest, hsend, hfailed⟩ := hsend
  exact ⟨r, rest, hsend, hfailed, attempts_of_sendBatch Nat.two_pos hsend⟩

/-! ## The packet handler -/

section Handler

variable {Address : Type}

/-- What the loop of `spawn_handle_video_packets` waits for. -/
inductive HandlerEvent (Address : Type) where
  /-- A batch, with the kernel's cap and its answers while it is sent. -/
  | batch (batch : ShardBatch) (maxGsoSegments : ℕ) (answers : List Answer)
  /-- A datagram that has come in: as much of it as the buffer takes. -/
  | message (contents : Bytes) (address : Address)

/-- `PING`. -/
def ping : Bytes := [0x50, 0x49, 0x4e, 0x47]

/-- `shard_count`. -/
def ShardBatch.shardCount (batch : ShardBatch) : ℕ :=
  if batch.shardSize = 0 then 0 else batch.data.length / batch.shardSize

/-- One round of the loop, from the address of the client: this and what was sent where. A round
that hangs in a send is `none`. -/
def handle (client : Option Address) :
    HandlerEvent Address → Option (Option Address × List (Address × Send))
  | .batch batch maxGsoSegments answers =>
    match client with
    | none => some (none, [])
    | some address =>
      if batch.shardCount = 0 then some (client, [])
      else
        (sendBatch maxGsoSegments batch answers).map fun (r, _) =>
          (client, r.sends.map (address, ·))
  | .message contents address =>
    some (if contents = ping then some address else client, [])

/-- The loop, with the sends of each of its rounds. -/
def handleAll : Option Address → List (HandlerEvent Address) →
    Option (List (List (Address × Send)))
  | _, [] => some []
  | client, e :: es =>
    (handle client e).bind fun (client, sends) => (handleAll client es).map (sends :: ·)

/-- The address of the last `PING`. -/
def lastPing (client : Option Address) (es : List (HandlerEvent Address)) : Option Address :=
  es.foldl (fun client e =>
    match e with
    | .message contents address => if contents = ping then some address else client
    | .batch .. => client) client

/-- A round that is done has sent nothing, or the batch to the address of the client. -/
theorem handle_batch {client : Option Address} {batch : ShardBatch} {maxGsoSegments : ℕ}
    {answers : List Answer} {client' : Option Address} {sends : List (Address × Send)}
    (h : handle client (.batch batch maxGsoSegments answers) = some (client', sends)) :
    sends = [] ∨ ∃ address r rest, client = some address ∧
      sendBatch maxGsoSegments batch answers = some (r, rest) ∧
      sends = r.sends.map (address, ·) := by
  cases client with
  | none =>
    obtain ⟨-, rfl⟩ := Prod.mk.inj (Option.some.inj h)
    exact Or.inl rfl
  | some address =>
    simp only [handle] at h
    split_ifs at h with hcount
    · obtain ⟨-, rfl⟩ := Prod.mk.inj (Option.some.inj h)
      exact Or.inl rfl
    · obtain ⟨⟨r, rest⟩, hsend, h⟩ := Option.map_eq_some_iff.mp h
      obtain ⟨-, rfl⟩ := Prod.mk.inj h
      exact Or.inr ⟨address, r, rest, rfl, hsend, rfl⟩

/-- After a round the client is where the last `PING` came from. -/
theorem client_of_handle {client client' : Option Address} {e : HandlerEvent Address}
    {sends : List (Address × Send)} (h : handle client e = some (client', sends)) :
    client' = lastPing client [e] := by
  cases e with
  | message contents address =>
    obtain ⟨rfl, -⟩ := Prod.mk.inj (Option.some.inj h)
    rfl
  | batch batch maxGsoSegments answers =>
    cases client with
    | none =>
      obtain ⟨rfl, -⟩ := Prod.mk.inj (Option.some.inj h)
      rfl
    | some address =>
      simp only [handle] at h
      split_ifs at h with hcount
      · obtain ⟨rfl, -⟩ := Prod.mk.inj (Option.some.inj h)
        rfl
      · obtain ⟨⟨r, rest⟩, -, h⟩ := Option.map_eq_some_iff.mp h
        obtain ⟨rfl, -⟩ := Prod.mk.inj h
        rfl

/-- Each round of a run is a round from the address of the last `PING` before it. -/
theorem handle_of_run {client : Option Address} {es : List (HandlerEvent Address)}
    {log : List (List (Address × Send))} (h : handleAll client es = some log) {i : ℕ}
    {e : HandlerEvent Address} (hi : es[i]? = some e) :
    ∃ client', handle (lastPing client (es.take i)) e = some (client', log.getD i []) := by
  induction es generalizing client log i with
  | nil => cases hi
  | cons e' es ih =>
    rw [handleAll] at h
    obtain ⟨⟨client', sends⟩, hround, h⟩ := Option.bind_eq_some_iff.mp h
    obtain ⟨log', hlog, rfl⟩ := Option.map_eq_some_iff.mp h
    cases i with
    | zero =>
      obtain rfl := Option.some.inj hi
      exact ⟨client', hround⟩
    | succ i =>
      rw [client_of_handle hround] at hlog
      exact ih hlog hi

end Handler

/-! ## From the encoder to the client -/

section Delivery

variable {RS K Address : Type} {fec : Fec RS} {aead : Aead K}
  {reconstruct : RS → (ℕ → Option UInt8) → Option Bytes}
  {decrypt : K → Bytes → Bytes → Bytes → Option Bytes}

/-- A batch has shards of some length. -/
theorem shardSize_pos {c : Config} (hc : nvVideoPacketSize < c.requestedPacketSize) {f : Frame}
    {keys : SessionKeyData} {s s' : State RS K} (hs : Coherent fec s) {batch : ShardBatch}
    (hrun : packetize fec aead c keys f s = .ok batch s') : 0 < batch.shardSize := by
  have hspec := packetize_spec aead hc keys f hs _ rfl
  rw [hrun] at hspec
  obtain ⟨-, -, -, -, -, -, hsize, -⟩ := hspec
  rw [hsize, Config.shardSize, payloadOffset, nvVideoPacketSize]
  omega

/-- A block has as many datagrams as shards. -/
theorem length_datagramsOf (hfec : FecLaw fec reconstruct) (haead : AeadLaw aead decrypt)
    {c : Config} (hc : nvVideoPacketSize < c.requestedPacketSize) {f : Frame}
    {keys : SessionKeyData} {s s' : State RS K} (hs : Coherent fec s) {batch : ShardBatch}
    (hrun : packetize fec aead c keys f s = .ok batch s') {j : ℕ}
    (hj : j < (blocks c f).length) :
    (datagramsOf c f batch j).length = c.nrShards (blockAt c f j) := by
  obtain ⟨g, hg, -, hgroups⟩ := batch_opens hfec haead hc hs hrun
  rw [blocks, List.length_map, List.length_range] at hj
  rw [← (hgroups j hj).length_eq, length_group (hg j hj)]

/-- What a send puts on the wire it has tried. -/
theorem datagrams_subset (s : Send) : s.datagrams ⊆ s.attempts.map Prod.fst := by
  intro d hd
  obtain ⟨p, hp, rfl⟩ := List.mem_map.mp hd
  exact List.mem_map_of_mem (List.mem_of_mem_filter hp)

/-- **A frame over the socket.** The batch of a frame goes to the address of the last `PING` before
it; whatever sends fail and whatever the network loses, repeats or reorders, the client has the
frame if of each block no more datagrams are missing than it has parity shards, and if the numbers
of each block fit their fields. -/
theorem frame_over_socket (hfec : FecLaw fec reconstruct) (haead : AeadLaw aead decrypt)
    {c : Config} (hc : nvVideoPacketSize < c.requestedPacketSize) (hlen : c.payloadSize < 2 ^ 32)
    {f : Frame} (hfits : ∀ b ∈ blocks c f, Fits c b) {keys : SessionKeyData} {s s' : State RS K}
    (hs : Coherent fec s) {batch : ShardBatch}
    (hrun : packetize fec aead c keys f s = .ok batch s') {es : List (HandlerEvent Address)}
    {log : List (List (Address × Send))} (hlog : handleAll none es = some log) {i : ℕ}
    {maxGsoSegments : ℕ} {answers : List Answer}
    (hbatch : es[i]? = some (.batch batch maxGsoSegments answers)) {rx : List Bytes}
    (hrx : rx ⊆ (log.getD i []).flatMap fun p => p.2.datagrams)
    (hlost : ∀ j < (blocks c f).length, ((datagramsOf c f batch j).filter (· ∉ rx)).length ≤
      c.nrParityShards (blockAt c f j).nrDataShards) :
    (∀ p ∈ log.getD i [], lastPing none (es.take i) = some p.1) ∧
      receive fec reconstruct decrypt c (maybeUpdateCipher aead keys s).cipher rx =
        some f.encodedData := by
  obtain ⟨client', hround⟩ := handle_of_run hlog hbatch
  have hwire : (∀ p ∈ log.getD i [], lastPing none (es.take i) = some p.1) ∧
      ((log.getD i []).flatMap fun p => p.2.datagrams) ⊆ chunks batch.shardSize batch.data := by
    rcases handle_batch hround with hnil | ⟨address, r, rest, haddress, hsend, hsends⟩
    · rw [hnil]
      exact ⟨List.forall_mem_nil _, List.nil_subset _⟩
    · have hfst := map_fst_attempts (shardSize_pos hc hs hrun) hsend
      rw [hsends]
      constructor
      · intro p hp
        obtain ⟨send, -, rfl⟩ := List.mem_map.mp hp
        exact haddress
      · intro d hd
        obtain ⟨p, hp, hd⟩ := List.mem_flatMap.mp hd
        obtain ⟨send, hmem, rfl⟩ := List.mem_map.mp hp
        rw [← hfst, List.map_flatMap]
        exact List.mem_flatMap.mpr ⟨send, hmem, datagrams_subset send hd⟩
  obtain ⟨g, hg, hopens, hgroups⟩ := batch_opens hfec haead hc hs hrun
  refine ⟨hwire.1, receive_of_groups hfec hc hlen hfits hg hopens hgroups
    (fun d hd => hwire.2 (hrx hd)) fun j hj => ?_⟩
  have hcount := length_datagramsOf hfec haead hc hs hrun hj
  have hsplit := (datagramsOf c f batch j).length_eq_length_filter_add (· ∈ rx)
  have hmissing := hlost j hj
  simp only [decide_not] at hmissing
  rw [Config.nrShards] at hcount
  omega

end Delivery

/-- The kernel refuses the data shard, and the parity shard arrives. -/
theorem frame_over_socket_refused : ∃ batch s' log,
    packetize mirror aes128Gcm ⟨32, 1, 0⟩ ⟨[], 0⟩ ⟨[1, 2, 3], true, 7, 9, 0⟩
      { Packetizer.new false with sequenceNumber := 65535 } = .ok batch s' ∧
    handleAll none [.message ping 5, .batch batch 1 [.failed, .wouldBlock, .sent]] = some log ∧
    (∀ p ∈ log.getD 1 [], lastPing none
        ([.message ping 5, .batch batch 1 [.failed, .wouldBlock, .sent]].take 1) = some p.1) ∧
      receive mirror unmirror Aes128Gcm.decrypt ⟨32, 1, 0⟩ none
        ((log.getD 1 []).flatMap fun p => p.2.datagrams) = some [1, 2, 3] := by
  have hbatch : ∃ batch s' log,
      packetize mirror aes128Gcm ⟨32, 1, 0⟩ ⟨[], 0⟩ ⟨[1, 2, 3], true, 7, 9, 0⟩
        { Packetizer.new false with sequenceNumber := 65535 } = .ok batch s' ∧
      handleAll none [.message ping 5, .batch batch 1 [.failed, .wouldBlock, .sent]] = some log ∧
      ∀ j < 1, ((datagramsOf ⟨32, 1, 0⟩ ⟨[1, 2, 3], true, 7, 9, 0⟩ batch j).filter
          (· ∉ (log.getD 1 []).flatMap fun p => p.2.datagrams)).length ≤
        Config.nrParityShards ⟨32, 1, 0⟩
          (blockAt ⟨32, 1, 0⟩ ⟨[1, 2, 3], true, 7, 9, 0⟩ j).nrDataShards := by
    refine ⟨_, _, _, rfl, rfl, fun j hj => ?_⟩
    obtain rfl := Nat.lt_one_iff.mp hj
    decide +kernel
  obtain ⟨batch, s', log, hrun, hlog, hlost⟩ := hbatch
  refine ⟨batch, s', log, hrun, hlog, frame_over_socket fecLaw_mirror aeadLaw_aes128Gcm (by decide)
    (by decide) ?_ (coherent_new false 65535) hrun hlog rfl (List.Subset.refl _) hlost⟩
  exact List.forall_mem_singleton.mpr ⟨by decide, by decide, by decide⟩

end RgspCast.Video
