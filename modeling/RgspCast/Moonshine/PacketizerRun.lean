import RgspCast.Moonshine.Reassembly

/-!
# The packetizer over a session

The loop of `spawn_packetize_frames` hands frame after frame to one packetizer and passes over a
frame that cannot be packetized; what such a frame has counted stays counted. Three things hold of
whole sessions. The cache of encoders, and with it the warm-up, changes no datagram
(`packetizeFrames_warmUp`). The numbers of the datagrams follow each other from frame to frame
(`datagrams_numbered`). And no initialisation vector is used twice with one key if no key is
installed twice (`nonces_fresh`); installing a key sets the counter back to zero.
-/

namespace RgspCast.Video

open Layout ExceptState

section

variable {RS K : Type} (fec : Fec RS) (aead : Aead K)

/-- A frame for the loop, and what the watch channel holds when it comes. -/
structure Call where
  keys : SessionKeyData
  frame : Frame
  deriving DecidableEq, Repr

/-- What the loop has made of a frame: the cipher it used and the batch, if there is one. -/
structure Outcome (K : Type) where
  cipher : Option K
  batch : Option ShardBatch
  deriving DecidableEq, Repr

/-- The frames in the loop of `spawn_packetize_frames`. -/
def packetizeFrames (c : Config) : List Call → State RS K → List (Outcome K) × State RS K
  | [], s => ([], s)
  | call :: calls, s =>
    match packetize fec aead c call.keys call.frame s with
    | .ok batch s' =>
      let r := packetizeFrames c calls s'
      (⟨s'.cipher, some batch⟩ :: r.1, r.2)
    | .error .err s' =>
      let r := packetizeFrames c calls s'
      (⟨s'.cipher, none⟩ :: r.1, r.2)
    | .error .panic s' => ([], s')

variable {fec aead}

/-! ## The cache of encoders -/

/-- The states differ in nothing but their caches, and these are coherent. -/
def SameButCache (fec : Fec RS) (s t : State RS K) : Prop :=
  Coherent fec s ∧ ∃ cache, Coherent fec t ∧ t = s.withCache cache

/-- Counting does not look at the cache. -/
theorem SameButCache.counted {s t : State RS K} (h : SameButCache fec s t) (a b : ℕ) :
    SameButCache fec (s.counted a b) (t.counted a b) := by
  obtain ⟨hs, cache, ht, rfl⟩ := h
  exact ⟨hs, cache, ht, State.counted_withCache s a b cache⟩

/-- The encryption does not look at the cache. -/
theorem encryptShards_alike (key : K) (f : Frame) (shards : List Bytes) {s t : State RS K}
    (h : SameButCache fec s t) :
    Alike (SameButCache fec) (encryptShards aead key f shards s)
      (encryptShards aead key f shards t) := by
  induction shards generalizing s t with
  | nil => exact ⟨rfl, h⟩
  | cons shard shards ih =>
    -- the two runs use the same counters, so they fail at the same shard
    have hctr : t.gcmIvCounter = s.gcmIvCounter := by
      obtain ⟨-, cache, -, rfl⟩ := h
      rfl
    have hnext := h.counted 0 1
    rw [encryptShards_cons, encryptShards_cons, hctr]
    rcases aead.encrypt key (ivOf s.gcmIvCounter) shard with _ | ⟨data, tag⟩
    · exact ⟨rfl, hnext⟩
    · have hrest := ih hnext
      cases hs : encryptShards aead key f shards (s.counted 0 1) with
      | ok rest s' =>
        cases ht : encryptShards aead key f shards (t.counted 0 1) with
        | ok rest' t' =>
          rw [hs, ht] at hrest
          obtain ⟨rfl, hR⟩ := hrest
          exact ⟨rfl, hR⟩
        | error e t' =>
          rw [hs, ht] at hrest
          exact hrest.elim
      | error e s' =>
        cases ht : encryptShards aead key f shards (t.counted 0 1) with
        | ok rest' t' =>
          rw [hs, ht] at hrest
          exact hrest.elim
        | error e' t' =>
          rw [hs, ht] at hrest
          exact hrest

/-- With and without a cipher. -/
theorem sealShards_alike (cipher : Option K) (f : Frame) (shards : List Bytes) {s t : State RS K}
    (h : SameButCache fec s t) :
    Alike (SameButCache fec) (sealShards aead cipher f shards s)
      (sealShards aead cipher f shards t) := by
  cases cipher with
  | none => exact ⟨rfl, h⟩
  | some key => exact encryptShards_alike key f shards h

/-- A coherent cache gives the encoder that would be made. -/
theorem packetizeBlock_alike (c : Config) (f : Frame) (b : Block) {s t : State RS K}
    (h : SameButCache fec s t) :
    Alike (SameButCache fec) (packetizeBlock fec aead c f b s)
      (packetizeBlock fec aead c f b t) := by
  obtain ⟨hs, cache, ht, rfl⟩ := h
  have h : SameButCache fec s (s.withCache cache) := ⟨hs, cache, ht, rfl⟩
  by_cases hpos : 0 < c.nrParityShards b.nrDataShards
  · -- Both states have the encoder that would be made anew.
    obtain ⟨cache₁, hcache₁, hget₁⟩ := getFecEncoder_coherent b.nrDataShards
      (c.nrParityShards b.nrDataShards) hs
    obtain ⟨cache₂, hcache₂, hget₂⟩ := getFecEncoder_coherent b.nrDataShards
      (c.nrParityShards b.nrDataShards) ht
    have hnext : SameButCache fec (s.withCache cache₁) ((s.withCache cache).withCache cache₂) :=
      ⟨hcache₁, cache₂, hcache₂, rfl⟩
    rw [packetizeBlock_parity hpos, packetizeBlock_parity hpos, hget₁, hget₂]
    cases fec.new b.nrDataShards (c.nrParityShards b.nrDataShards) with
    | none => exact ⟨rfl, hnext⟩
    | some rs =>
      simp only [State.withCache_sequenceNumber]
      cases fec.encode rs (dataShards c f b s.sequenceNumber) with
      | none => exact ⟨rfl, hnext.counted _ _⟩
      | some rows => exact sealShards_alike _ _ _ (hnext.counted _ _)
  · rw [packetizeBlock_plain hpos, packetizeBlock_plain hpos]
    exact sealShards_alike _ _ _ (h.counted _ _)

/-- So it is for the blocks, by induction. -/
theorem packetizeBlocks_alike (c : Config) (f : Frame) (bs : List Block) {s t : State RS K}
    (h : SameButCache fec s t) :
    Alike (SameButCache fec) (packetizeBlocks fec aead c f bs s)
      (packetizeBlocks fec aead c f bs t) := by
  induction bs generalizing s t with
  | nil => exact ⟨rfl, h⟩
  | cons b bs ih =>
    rw [packetizeBlocks]
    refine alike_bind (packetizeBlock_alike c f b h) fun shards s₁ t₁ h₁ => ?_
    exact alike_bind (ih h₁) fun rest s₂ t₂ h₂ => ⟨rfl, h₂⟩

variable (aead) in

/-- The cipher does not depend on the cache. -/
theorem SameButCache.maybeUpdateCipher {s t : State RS K} (h : SameButCache fec s t)
    (keys : SessionKeyData) :
    SameButCache fec (maybeUpdateCipher aead keys s) (maybeUpdateCipher aead keys t) := by
  obtain ⟨hs, cache, ht, rfl⟩ := h
  refine ⟨hs.congr (maybeUpdateCipher_fecEncoders keys s), cache,
    ht.congr (maybeUpdateCipher_fecEncoders keys _), ?_⟩
  unfold Video.maybeUpdateCipher
  change (if ¬ s.encrypt then _ else if keys.remoteInputKeyId = s.lastKeyId then _ else _) = _
  split_ifs <;> rfl

variable (aead) in

/-- Nor does a whole call. -/
theorem packetize_alike (c : Config) (keys : SessionKeyData) (f : Frame) {s t : State RS K}
    (h : SameButCache fec s t) :
    Alike (SameButCache fec) (packetize fec aead c keys f s) (packetize fec aead c keys f t) := by
  have h₁ := h.maybeUpdateCipher aead keys
  have hcipher : (maybeUpdateCipher aead keys t).cipher =
      (maybeUpdateCipher aead keys s).cipher := by
    obtain ⟨-, cache, -, heq⟩ := h₁
    rw [heq]
    rfl
  rw [packetize]
  split_ifs with hsize
  · exact ⟨rfl, h₁⟩
  · change Alike _
      ((packetizeBlocks fec aead c f (blocks c f) >>= _) (maybeUpdateCipher aead keys s))
      ((packetizeBlocks fec aead c f (blocks c f) >>= _) (maybeUpdateCipher aead keys t))
    refine alike_bind (packetizeBlocks_alike c f _ h₁) fun shards s₂ t₂ h₂ => ⟨?_, h₂⟩
    rw [hcipher]

/-- Nor does a session, by induction over its calls. -/
theorem packetizeFrames_alike (c : Config) (calls : List Call) {s t : State RS K}
    (h : SameButCache fec s t) :
    (packetizeFrames fec aead c calls s).1 = (packetizeFrames fec aead c calls t).1 := by
  induction calls generalizing s t with
  | nil => rfl
  | cons call calls ih =>
    have hcall := packetize_alike aead c call.keys call.frame h
    simp only [packetizeFrames]
    cases hs : packetize fec aead c call.keys call.frame s with
    | ok batch s' =>
      cases ht : packetize fec aead c call.keys call.frame t with
      | ok batch' t' =>
        rw [hs, ht] at hcall
        obtain ⟨rfl, hR⟩ := hcall
        have hcipher : t'.cipher = s'.cipher := by
          obtain ⟨-, cache, -, rfl⟩ := hR
          rfl
        simp only [ih hR, hcipher]
      | error e t' =>
        rw [hs, ht] at hcall
        exact hcall.elim
    | error e s' =>
      cases ht : packetize fec aead c call.keys call.frame t with
      | ok batch' t' =>
        rw [hs, ht] at hcall
        exact hcall.elim
      | error e' t' =>
        rw [hs, ht] at hcall
        obtain ⟨rfl, hR⟩ := hcall
        have hcipher : t'.cipher = s'.cipher := by
          obtain ⟨-, cache, -, rfl⟩ := hR
          rfl
        cases e with
        -- a panic ends the session, an error does not
        | panic => rfl
        | err => simp only [ih hR, hcipher]

/-- Making an encoder changes the cache only. -/
theorem SameButCache.getFecEncoder {s t : State RS K} (h : SameButCache fec s t) (nd np : ℕ) :
    SameButCache fec s
      (match getFecEncoder fec nd np t with
        | .ok _ t' => t'
        | .error _ t' => t') := by
  obtain ⟨hs, cache, ht, rfl⟩ := h
  obtain ⟨cache', hcache', hget⟩ := getFecEncoder_coherent nd np ht
  rw [hget]
  cases fec.new nd np with
  | none => exact ⟨hs, cache', hcache', rfl⟩
  | some rs => exact ⟨hs, cache', hcache', rfl⟩

/-- So does the warm-up. -/
theorem sameButCache_warmUp (c : Config) (n : ℕ) {s : State RS K} (hs : Coherent fec s) :
    SameButCache fec s (warmUp fec c n s) := by
  unfold warmUp
  suffices hfold : ∀ (ns : List ℕ) (t : State RS K), SameButCache fec s t →
      SameButCache fec s (ns.foldl (fun s n =>
        if 0 < c.nrParityShards n then
          match getFecEncoder fec n (c.nrParityShards n) s with
          | .ok _ s' => s'
          | .error _ s' => s'
        else s) t) from hfold _ s ⟨hs, s.fecEncoders, hs, rfl⟩
  intro ns
  induction ns with
  | nil => exact fun t ht => ht
  | cons n ns ih =>
    intro t ht
    apply ih
    beta_reduce
    split_ifs
    · exact ht.getFecEncoder n _
    · exact ht

/-- **The warm-up changes no datagram.** Whatever encoders are made before the first frame, the
session sends the same batches. -/
theorem packetizeFrames_warmUp (c : Config) (n : ℕ) (calls : List Call) (encrypt : Bool)
    (q : UInt32) :
    (packetizeFrames fec aead c calls
      (warmUp fec c n { Packetizer.new encrypt with sequenceNumber := q })).1 =
    (packetizeFrames fec aead c calls { Packetizer.new encrypt with sequenceNumber := q }).1 :=
  (packetizeFrames_alike c calls (sameButCache_warmUp c n (coherent_new encrypt q))).symm

/-! ## The numbers of the datagrams -/

/-- The shards of a call are numbered one after the other, over all its blocks. -/
theorem Shards.rtpSequence {reconstruct : RS → (ℕ → Option UInt8) → Option Bytes}
    (hfec : FecLaw fec reconstruct) {c : Config} {f : Frame} {q q' : UInt32} {bs : List Block}
    {shards : List Bytes} (h : Shards fec c f q bs shards q') {j : ℕ} {shard : Bytes}
    (hj : shards[j]? = some shard) :
    Video.rtpSequence shard = (q.toNat + j) % 2 ^ 16 := by
  induction h generalizing j with
  | nil => cases hj
  | @cons q q' b bs rows rest hrows hrest ih =>
    obtain ⟨hlen, hsize⟩ := hrows.lengths hfec
    have hmod : ∀ k, (q + UInt32.ofNat k).toNat % 2 ^ 16 = (q.toNat + k) % 2 ^ 16 := fun k => by
      rw [UInt32.toNat_add, UInt32.toNat_ofNat']
      omega
    -- a data shard of this block, a parity shard of it, or a shard of a later block
    rcases Nat.lt_or_ge j b.nrDataShards with hlt | hge
    · rw [List.append_assoc, List.getElem?_append_left (by rwa [length_dataShards]),
        getElem?_dataShards hlt, Option.some.injEq] at hj
      rw [← hj, rtpSequence_dataShard, hmod]
    · rcases Nat.lt_or_ge j (c.nrShards b) with hlt' | hge'
      · have hk : j - b.nrDataShards < rows.length := by
          rw [hlen]
          rw [Config.nrShards] at hlt'
          omega
        have hr : rows[j - b.nrDataShards]? = some rows[j - b.nrDataShards] :=
          List.getElem?_eq_getElem hk
        rw [List.getElem?_append_left (by
            rw [List.length_append, length_dataShards, length_parityShards]
            exact hlt'),
          List.getElem?_append_right (by rwa [length_dataShards]), length_dataShards,
          getElem?_parityShards hlen hr, Option.some.injEq] at hj
        rw [← hj, rtpSequence_patchParity (hsize _ (List.getElem_mem hk)), UInt32.add_assoc,
          ← UInt32.ofNat_add, hmod, Nat.add_sub_cancel' hge]
      · rw [List.getElem?_append_right (by
            rw [List.length_append, length_dataShards, length_parityShards]
            exact hge'),
          List.length_append, length_dataShards, length_parityShards] at hj
        have hrec := ih hj
        rw [UInt32.add_assoc, ← UInt32.ofNat_add] at hrec
        rw [hrec, ← Nat.mod_add_mod, hmod, Nat.mod_add_mod]
        rw [Config.nrShards] at hge'
        congr 1
        omega

/-- The shards are as many as the blocks have. -/
theorem Shards.length {c : Config} {f : Frame} {q q' : UInt32} {bs : List Block}
    {shards : List Bytes} (h : Shards fec c f q bs shards q') :
    shards.length = c.totalShards bs := by
  induction h with
  | nil => rfl
  | cons _ _ ih =>
    rw [List.length_append, List.length_append, length_dataShards, length_parityShards, ih,
      Config.totalShards, Config.totalShards, List.map_cons, List.sum_cons, Config.nrShards]

section Numbers

variable (decrypt : K → Bytes → Bytes → Bytes → Option Bytes)

/-- The datagrams of a batch are numbered from `q` on, in the field of 16 bits. -/
def NumberedFrom (cipher : Option K) (q : ℕ) (batch : ShardBatch) : Prop :=
  ∀ j d, (chunks batch.shardSize batch.data)[j]? = some d →
    ∃ shard, openDatagram decrypt cipher d = some shard ∧ rtpSequence shard = (q + j) % 2 ^ 16

/-- A session is numbered from `q` on: a batch takes as many numbers as it has datagrams, and a
frame that was passed over leaves a gap of no more than that. -/
inductive Numbered (c : Config) : ℕ → List Call → List (Outcome K) → Prop where
  | nil (q : ℕ) : Numbered c q [] []
  | sent {q : ℕ} {call : Call} {calls : List Call} {cipher : Option K} {batch : ShardBatch}
      {outcomes : List (Outcome K)} (hbatch : NumberedFrom decrypt cipher q batch)
      (hrest : Numbered c (q + (chunks batch.shardSize batch.data).length) calls outcomes) :
      Numbered c q (call :: calls) (⟨cipher, some batch⟩ :: outcomes)
  | passedOver {q n : ℕ} {call : Call} {calls : List Call} {cipher : Option K}
      {outcomes : List (Outcome K)} (hn : n ≤ c.totalShards (blocks c call.frame))
      (hrest : Numbered c (q + n) calls outcomes) :
      Numbered c q (call :: calls) (⟨cipher, none⟩ :: outcomes)

variable {decrypt} {reconstruct : RS → (ℕ → Option UInt8) → Option Bytes}

/-- The datagrams of a batch carry the numbers that the call has counted. -/
theorem numberedFrom_of_batch (hfec : FecLaw fec reconstruct) {c : Config} {f : Frame}
    {cipher : Option K} {q q' : UInt32} {n n' : UInt64} {shards : List Bytes} {batch : ShardBatch}
    (hshards : Shards fec c f q (blocks c f) shards q') (haead : AeadLaw aead decrypt)
    (hsealed : Sealed aead f cipher n shards (chunks batch.shardSize batch.data) n') :
    NumberedFrom decrypt cipher q.toNat batch := by
  have hopens := hsealed.opens haead
  intro j d hd
  obtain ⟨hj, rfl⟩ := List.getElem?_eq_some_iff.mp hd
  have hj' : j < shards.length := by rwa [hopens.length_eq]
  exact ⟨shards[j], (hopens.get hj' hj).1,
    hshards.rtpSequence hfec (List.getElem?_eq_getElem hj')⟩

/-- **The datagrams of a session are numbered one after the other**, over blocks and frames, data
and parity. A frame that is passed over leaves a gap of at most its shards. -/
theorem datagrams_numbered (hfec : FecLaw fec reconstruct) (haead : AeadLaw aead decrypt)
    {c : Config} (hc : nvVideoPacketSize < c.requestedPacketSize) (calls : List Call)
    {s : State RS K} (hs : Coherent fec s) :
    Numbered decrypt c s.sequenceNumber.toNat calls (packetizeFrames fec aead c calls s).1 := by
  -- numbers count modulo `2 ^ 16`, so the induction is over any number in their class
  suffices hrun : ∀ q, q % 2 ^ 16 = s.sequenceNumber.toNat % 2 ^ 16 →
      Numbered decrypt c q calls (packetizeFrames fec aead c calls s).1 from hrun _ rfl
  induction calls generalizing s with
  | nil => exact fun q _ => .nil q
  | cons call calls ih =>
    intro q hq
    have hnext : ∀ (t : State RS K) (n : ℕ), t.sequenceNumber = s.sequenceNumber + UInt32.ofNat n →
        (q + n) % 2 ^ 16 = t.sequenceNumber.toNat % 2 ^ 16 := fun t n ht => by
      rw [ht, UInt32.toNat_add, UInt32.toNat_ofNat']
      omega
    rw [packetizeFrames]
    cases hcall : packetize fec aead c call.keys call.frame s with
    | ok batch s' =>
      obtain ⟨shards, cache, n, -, hshards, hsealed, hcache, hs'⟩ :=
        packetize_batch hfec haead hc hs hcall
      have hcipher : s'.cipher = (maybeUpdateCipher aead call.keys s).cipher := by
        rw [hs']
        rfl
      have hlen : (chunks batch.shardSize batch.data).length =
          c.totalShards (blocks c call.frame) := by
        rw [← (hsealed.opens haead).length_eq, hshards.length]
      have hnumbered := numberedFrom_of_batch hfec hshards haead hsealed
      rw [← hcipher] at hnumbered
      refine .sent ?_ (ih (s := s') ?_ _ (hnext _ _ ?_))
      · intro j d hd
        obtain ⟨shard, hopen, hseq⟩ := hnumbered j d hd
        refine ⟨shard, hopen, ?_⟩
        rw [hseq]
        omega
      · rw [hs']
        exact hcache
      · rw [hs', hlen]
        change (maybeUpdateCipher aead call.keys s).sequenceNumber + _ = _
        rw [maybeUpdateCipher_sequenceNumber]
    -- a call that fails may have numbered shards that are never sent
    | error e s' =>
      have hspec := packetize_spec aead hc call.keys call.frame hs _ rfl
      rw [hcall] at hspec
      obtain ⟨rfl, cache, m, hm, k, -, hcache, hs'⟩ := hspec
      refine .passedOver hm (ih (s := s') ?_ _ (hnext _ _ ?_))
      · rw [hs']
        exact hcache
      · rw [hs']
        change (maybeUpdateCipher aead call.keys s).sequenceNumber + _ = _
        rw [maybeUpdateCipher_sequenceNumber]

end Numbers

/-! ## The initialisation vectors -/

/-- The keys that a session installs, where `last` is the id seen last. -/
def installations (aead : Aead K) (encrypt : Bool) : ℤ → List Call → List K
  | _, [] => []
  | last, call :: calls =>
    if ¬ encrypt ∨ call.keys.remoteInputKeyId = last then installations aead encrypt last calls
    else if call.keys.remoteInputKey.length ≠ 16 then
      installations aead encrypt call.keys.remoteInputKeyId calls
    else
      aead.newKey call.keys.remoteInputKey ::
        installations aead encrypt call.keys.remoteInputKeyId calls

/-- The keys and the initialisation vectors of the datagrams of a batch. -/
def Outcome.nonces (o : Outcome K) : List (K × Bytes) :=
  match o.cipher, o.batch with
  | some key, some batch => (chunks batch.shardSize batch.data).map fun d => (key, slice 0 12 d)
  | some _, none | none, _ => []

@[simp] theorem Outcome.nonces_none (cipher : Option K) :
    Outcome.nonces ⟨cipher, none⟩ = [] := by
  cases cipher <;> rfl

theorem ivOf_inj {m n : UInt64} (h : ivOf m = ivOf n) : m = n := by
  have hle : le 8 m.toNat = le 8 n.toNat :=
    (List.append_inj' h rfl).1
  rw [← UInt64.toNat_inj, ← ofLe_le (w := 8) m.toNat_lt, ← ofLe_le (w := 8) n.toNat_lt, hle]

/-- Counters that are less than a whole turn apart give different vectors. -/
theorem ivOf_add_inj {n : UInt64} {a b : ℕ} (ha : a < 2 ^ 64) (hb : b < 2 ^ 64)
    (h : ivOf (n + UInt64.ofNat a) = ivOf (n + UInt64.ofNat b)) : a = b := by
  have hadd := congrArg UInt64.toNat (ivOf_inj h)
  rw [UInt64.toNat_add, UInt64.toNat_add, UInt64.toNat_ofNat', UInt64.toNat_ofNat'] at hadd
  omega

/-- The nonces that `m` datagrams use from a counter on. -/
def used (cipher : Option K) (n : UInt64) (m : ℕ) : List (K × Bytes) :=
  match cipher with
  | none => []
  | some key => (List.range m).map fun j => (key, ivOf (n + UInt64.ofNat j))

/-- Nonces that are used once, each with a key still to be installed or with one of the next `m`
counters. -/
structure Fresh (cipher : Option K) (n : UInt64) (m : ℕ) (keys : List K)
    (nonces : List (K × Bytes)) : Prop where
  nodup : nonces.Nodup
  origin : ∀ p ∈ nonces, p.1 ∈ keys ∨
    cipher = some p.1 ∧ ∃ j < m, p.2 = ivOf (n + UInt64.ofNat j)

theorem Fresh.nil (cipher : Option K) (n : UInt64) (m : ℕ) (keys : List K) :
    Fresh cipher n m keys [] :=
  ⟨List.nodup_nil, fun _ h => absurd h List.not_mem_nil⟩

/-- Counters that are passed over are not used. -/
theorem Fresh.skip {cipher : Option K} {n : UInt64} {k m total : ℕ} {keys : List K}
    {nonces : List (K × Bytes)} (h : Fresh cipher (n + UInt64.ofNat k) m keys nonces)
    (htotal : k + m ≤ total) : Fresh cipher n total keys nonces := by
  refine ⟨h.nodup, fun p hp => (h.origin p hp).imp_right ?_⟩
  rintro ⟨hcipher, j, hj, hiv⟩
  refine ⟨hcipher, k + j, by omega, ?_⟩
  rw [hiv, UInt64.add_assoc, ← UInt64.ofNat_add]

/-- The next counters, in front of what comes after them. -/
theorem Fresh.use {cipher : Option K} {n : UInt64} {k m total : ℕ} {keys : List K}
    {nonces : List (K × Bytes)} (h : Fresh cipher (n + UInt64.ofNat k) m keys nonces)
    (htotal : k + m ≤ total) (hsmall : total < 2 ^ 64)
    (hfresh : ∀ key, cipher = some key → key ∉ keys) :
    Fresh cipher n total keys (used cipher n k ++ nonces) := by
  cases cipher with
  | none => exact h.skip htotal
  | some key =>
    constructor
    -- below 2^64 counters the nonces of one key are distinct, and later keys are others
    · rw [List.nodup_append']
      refine ⟨?_, h.nodup, ?_⟩
      · apply List.nodup_range.map_on
        intro a ha b hb hab
        exact ivOf_add_inj (by have := List.mem_range.mp ha; omega)
          (by have := List.mem_range.mp hb; omega) (Prod.mk.inj hab).2
      · intro p hp hp'
        obtain ⟨a, ha, rfl⟩ := List.mem_map.mp hp
        -- a later nonce under this key counts on from `k`
        rcases h.origin _ hp' with hkey | ⟨-, j, hj, hiv⟩
        · exact hfresh key rfl hkey
        · rw [UInt64.add_assoc, ← UInt64.ofNat_add] at hiv
          have ha := List.mem_range.mp ha
          have := ivOf_add_inj (by omega) (by omega) hiv
          omega
    · intro p hp
      rcases List.mem_append.mp hp with hp | hp
      · obtain ⟨a, ha, rfl⟩ := List.mem_map.mp hp
        have ha := List.mem_range.mp ha
        exact Or.inr ⟨rfl, a, by omega, rfl⟩
      · exact (h.skip htotal).origin p hp

/-- A key that is installed sets the counter back. -/
theorem Fresh.install {cipher : Option K} {key : K} {n : UInt64} {m : ℕ} {keys : List K}
    {nonces : List (K × Bytes)} (h : Fresh (some key) 0 m keys nonces) :
    Fresh cipher n m (key :: keys) nonces := by
  refine ⟨h.nodup, fun p hp => Or.inl ?_⟩
  rcases h.origin p hp with hkey | ⟨hcipher, -⟩
  · exact List.mem_cons_of_mem _ hkey
  · exact Option.some.inj hcipher ▸ List.mem_cons_self

/-- Without a cipher only keys still to be installed are used. -/
theorem Fresh.clear {cipher : Option K} {n n' : UInt64} {m : ℕ} {keys : List K}
    {nonces : List (K × Bytes)} (h : Fresh none n' m keys nonces) :
    Fresh cipher n m keys nonces := by
  refine ⟨h.nodup, fun p hp => Or.inl ?_⟩
  rcases h.origin p hp with hkey | ⟨hcipher, -⟩
  · exact hkey
  · cases hcipher

/-- The vector of a datagram is its first twelve bytes. -/
theorem Encrypted.slices {key : K} {f : Frame} {n n' : UInt64} {shards slots : List Bytes}
    (h : Encrypted aead key f n shards slots n') :
    slots.map (fun d => (key, slice 0 12 d)) = used (some key) n shards.length := by
  induction h with
  | nil => rfl
  | @cons n n' shard data tag shards rest hseal hrest ih =>
    have hiv : slice 0 12 (ivOf n ++ le 4 f.frameNumber.toNat ++ tag ++ data) = ivOf n := by
      have hlen : (ivOf n).length = 12 := by
        rw [ivOf, List.length_append, length_le]
        rfl
      rw [slice, List.drop_zero, List.append_assoc, List.append_assoc, List.take_left' hlen]
    have hnext : ∀ j, n + 1 + UInt64.ofNat j = n + UInt64.ofNat (j + 1) := fun j => by
      rw [UInt64.ofNat_add, UInt64.add_assoc, UInt64.add_comm (UInt64.ofNat j)]
      rfl
    rw [List.map_cons, ih, hiv, used, used, List.length_cons, List.range_succ_eq_map, List.map_cons,
      List.map_map]
    have hzero : n + UInt64.ofNat 0 = n := UInt64.add_zero n
    simp only [hnext, hzero, Function.comp_def, Nat.succ_eq_add_one]

/-- The counter goes up by one a shard. -/
theorem Encrypted.counter {key : K} {f : Frame} {n n' : UInt64} {shards slots : List Bytes}
    (h : Encrypted aead key f n shards slots n') : n' = n + UInt64.ofNat shards.length := by
  induction h with
  | nil n => exact (UInt64.add_zero n).symm
  | cons _ _ ih =>
    rw [ih, List.length_cons, UInt64.ofNat_add, UInt64.add_assoc,
      UInt64.add_comm (UInt64.ofNat _)]
    rfl

/-- A batch uses the counters that its call has counted. -/
theorem Sealed.nonces {cipher : Option K} {f : Frame} {n n' : UInt64} {shards : List Bytes}
    {batch : ShardBatch}
    (h : Sealed aead f cipher n shards (chunks batch.shardSize batch.data) n') :
    ∃ k ≤ shards.length, n' = n + UInt64.ofNat k ∧
      Outcome.nonces ⟨cipher, some batch⟩ = used cipher n k ∧
      (cipher.isSome → k = shards.length) := by
  cases h with
  | plain => exact ⟨0, Nat.zero_le _, (UInt64.add_zero n).symm, rfl, nofun⟩
  | encrypted h => exact ⟨shards.length, Nat.le_refl _, h.counter, h.slices, fun _ => rfl⟩

/-- The number of shards of the frames of a session. -/
def Config.sessionShards (c : Config) (calls : List Call) : ℕ :=
  (calls.map fun call => c.totalShards (blocks c call.frame)).sum

@[simp] theorem maybeUpdateCipher_encrypt (keys : SessionKeyData) (s : State RS K) :
    (maybeUpdateCipher aead keys s).encrypt = s.encrypt := by
  unfold maybeUpdateCipher
  split_ifs <;> rfl

/-- What a look at the watch channel can do: nothing, take the cipher away, or install a key. -/
theorem maybeUpdateCipher_cases (aead : Aead K) (call : Call) (calls : List Call)
    (s : State RS K) :
    (maybeUpdateCipher aead call.keys s = s ∧
      installations aead s.encrypt s.lastKeyId (call :: calls) =
        installations aead s.encrypt s.lastKeyId calls) ∨
    ((maybeUpdateCipher aead call.keys s).cipher = none ∧
      installations aead s.encrypt s.lastKeyId (call :: calls) =
        installations aead s.encrypt (maybeUpdateCipher aead call.keys s).lastKeyId calls) ∨
    ∃ key, (maybeUpdateCipher aead call.keys s).cipher = some key ∧
      (maybeUpdateCipher aead call.keys s).gcmIvCounter = 0 ∧
      installations aead s.encrypt s.lastKeyId (call :: calls) =
        key ::
          installations aead s.encrypt (maybeUpdateCipher aead call.keys s).lastKeyId calls := by
  simp only [maybeUpdateCipher, installations]
  -- the source's three tests in order: encryption, a new key id, a key of 16 bytes
  by_cases henc : s.encrypt = true
  · by_cases hid : call.keys.remoteInputKeyId = s.lastKeyId
    · simp only [henc, hid, not_true, if_false, if_true, or_true]
      exact Or.inl ⟨trivial, trivial⟩
    · by_cases hlen : call.keys.remoteInputKey.length = 16
      · simp only [henc, hid, hlen, not_true, if_false, or_self, ne_eq]
        exact Or.inr (Or.inr ⟨_, rfl, trivial, rfl⟩)
      · simp only [henc, hid, hlen, not_true, not_false_iff, if_true, if_false, or_self, ne_eq]
        exact Or.inr (Or.inl ⟨trivial, trivial⟩)
  · rw [if_pos (Or.inl henc), if_pos henc]
    exact Or.inl ⟨rfl, rfl⟩

/-- What a look at the watch channel does to the nonces still to come. -/
theorem fresh_of_maybeUpdateCipher {call : Call} {calls : List Call} {s : State RS K} {m : ℕ}
    {nonces : List (K × Bytes)}
    (h : Fresh (maybeUpdateCipher aead call.keys s).cipher
      (maybeUpdateCipher aead call.keys s).gcmIvCounter m
      (installations aead s.encrypt (maybeUpdateCipher aead call.keys s).lastKeyId calls) nonces) :
    Fresh s.cipher s.gcmIvCounter m (installations aead s.encrypt s.lastKeyId (call :: calls))
      nonces := by
  rcases maybeUpdateCipher_cases aead call calls s with
    ⟨hsame, hkeys⟩ | ⟨hnone, hkeys⟩ | ⟨key, hkey, hzero, hkeys⟩
  · rw [hsame] at h
    rwa [hkeys]
  · rw [hnone] at h
    rw [hkeys]
    exact h.clear
  · rw [hkey, hzero] at h
    rw [hkeys]
    exact h.install

/-- The keys that are still to be installed are none that is in use. -/
theorem not_mem_installations {call : Call} {calls : List Call} {s : State RS K}
    (hnodup : (installations aead s.encrypt s.lastKeyId (call :: calls)).Nodup)
    (hfresh : ∀ key, s.cipher = some key →
      key ∉ installations aead s.encrypt s.lastKeyId (call :: calls)) :
    (installations aead s.encrypt (maybeUpdateCipher aead call.keys s).lastKeyId calls).Nodup ∧
      ∀ key, (maybeUpdateCipher aead call.keys s).cipher = some key →
        key ∉
          installations aead s.encrypt (maybeUpdateCipher aead call.keys s).lastKeyId calls := by
  rcases maybeUpdateCipher_cases aead call calls s with
    ⟨hsame, hkeys⟩ | ⟨hnone, hkeys⟩ | ⟨key, hkey, -, hkeys⟩
  · rw [hkeys] at hnodup hfresh
    rw [hsame]
    exact ⟨hnodup, hfresh⟩
  · rw [hkeys] at hnodup
    refine ⟨hnodup, fun key hkey => ?_⟩
    -- a key of the wrong length leaves no cipher to be fresh for
    rw [hnone] at hkey
    cases hkey
  · rw [hkeys] at hnodup
    obtain ⟨hnot, hnodup⟩ := List.nodup_cons.mp hnodup
    refine ⟨hnodup, fun key' hkey' => ?_⟩
    rw [hkey] at hkey'
    exact Option.some.inj hkey' ▸ hnot

/-- The nonces of the rest of a session, from any state. -/
theorem fresh_of_run {decrypt : K → Bytes → Bytes → Bytes → Option Bytes}
    {reconstruct : RS → (ℕ → Option UInt8) → Option Bytes} (hfec : FecLaw fec reconstruct)
    (haead : AeadLaw aead decrypt) {c : Config} (hc : nvVideoPacketSize < c.requestedPacketSize)
    (calls : List Call) {s : State RS K} (hs : Coherent fec s)
    (hsmall : c.sessionShards calls < 2 ^ 64)
    (hnodup : (installations aead s.encrypt s.lastKeyId calls).Nodup)
    (hfresh : ∀ key, s.cipher = some key → key ∉ installations aead s.encrypt s.lastKeyId calls) :
    Fresh s.cipher s.gcmIvCounter (c.sessionShards calls)
      (installations aead s.encrypt s.lastKeyId calls)
      ((packetizeFrames fec aead c calls s).1.flatMap Outcome.nonces) := by
  induction calls generalizing s with
  | nil => exact .nil _ _ _ _
  | cons call calls ih =>
    have htotal : c.sessionShards (call :: calls) =
        c.totalShards (blocks c call.frame) + c.sessionShards calls := by
      rw [Config.sessionShards, List.map_cons, List.sum_cons]
      rfl
    obtain ⟨hnodup', hfresh'⟩ := not_mem_installations hnodup hfresh
    apply fresh_of_maybeUpdateCipher
    -- the calls behind this one, from any state with its cipher and a counter past its own
    have hrest : ∀ (t : State RS K) (k : ℕ), Coherent fec t →
        t.cipher = (maybeUpdateCipher aead call.keys s).cipher →
        t.lastKeyId = (maybeUpdateCipher aead call.keys s).lastKeyId → t.encrypt = s.encrypt →
        t.gcmIvCounter = (maybeUpdateCipher aead call.keys s).gcmIvCounter + UInt64.ofNat k →
        Fresh (maybeUpdateCipher aead call.keys s).cipher
          ((maybeUpdateCipher aead call.keys s).gcmIvCounter + UInt64.ofNat k)
          (c.sessionShards calls)
          (installations aead s.encrypt (maybeUpdateCipher aead call.keys s).lastKeyId calls)
          ((packetizeFrames fec aead c calls t).1.flatMap Outcome.nonces) := by
      intro t k ht hcipher hlast henc hctr
      have hstate := ih ht (by omega) (by rwa [henc, hlast]) (by rwa [hcipher, henc, hlast])
      rwa [hcipher, hlast, henc, hctr] at hstate
    rw [packetizeFrames]
    cases hcall : packetize fec aead c call.keys call.frame s with
    | ok batch s' =>
      obtain ⟨shards, cache, n, hn, hshards, hsealed, hcache, hs'⟩ :=
        packetize_batch hfec haead hc hs hcall
      obtain ⟨k, hk, hctr, hnonces, -⟩ := hsealed.nonces
      rw [hshards.length] at hk
      have hcipher : s'.cipher = (maybeUpdateCipher aead call.keys s).cipher := by
        rw [hs']
        rfl
      rw [List.flatMap_cons, hcipher, hnonces]
      refine (hrest s' k ?_ hcipher ?_ ?_ hctr).use (by omega) hsmall hfresh'
      · rw [hs']
        exact hcache
      · rw [hs']
        rfl
      · rw [hs']
        exact maybeUpdateCipher_encrypt call.keys s
    -- a call that fails has used its counters up, and sends nothing
    | error e s' =>
      have hspec := packetize_spec aead hc call.keys call.frame hs _ rfl
      rw [hcall] at hspec
      obtain ⟨rfl, cache, m, -, k, hk, hcache, rfl⟩ := hspec
      rw [List.flatMap_cons, Outcome.nonces_none, List.nil_append]
      refine (hrest (((maybeUpdateCipher aead call.keys s).withCache cache).counted m k) k hcache
        rfl rfl (maybeUpdateCipher_encrypt call.keys s) rfl).skip ?_
      omega

theorem totalShards_pos {c : Config} (hc : nvVideoPacketSize < c.requestedPacketSize) (f : Frame) :
    0 < c.totalShards (blocks c f) := by
  have hblocks : 0 < min (nrBlocks c f) 4 := Nat.lt_min.mpr ⟨Nat.succ_pos _, by decide⟩
  obtain ⟨m, hm⟩ : ∃ m, min (nrBlocks c f) 4 = m + 1 := ⟨_, (Nat.succ_pred_eq_of_pos hblocks).symm⟩
  rw [Config.totalShards, blocks, hm, List.range_succ_eq_map, List.map_cons, List.map_cons,
    List.sum_cons, Config.nrShards]
  have := nrDataShards_blockAt_pos hc hblocks
  omega

/-- After an installation, the first datagram has the counter zero. -/
theorem installations_sublist {decrypt : K → Bytes → Bytes → Bytes → Option Bytes}
    {reconstruct : RS → (ℕ → Option UInt8) → Option Bytes} (hfec : FecLaw fec reconstruct)
    (haead : AeadLaw aead decrypt) {c : Config} (hc : nvVideoPacketSize < c.requestedPacketSize)
    (calls : List Call) {s : State RS K} (hs : Coherent fec s)
    (hall : ∀ o ∈ (packetizeFrames fec aead c calls s).1, o.batch.isSome) :
    ((installations aead s.encrypt s.lastKeyId calls).map fun key => (key, ivOf 0)).Sublist
      ((packetizeFrames fec aead c calls s).1.flatMap Outcome.nonces) := by
  induction calls generalizing s with
  | nil => exact List.Sublist.slnil
  | cons call calls ih =>
    rw [packetizeFrames] at hall ⊢
    cases hcall : packetize fec aead c call.keys call.frame s with
    | error e s' =>
      have hspec := packetize_spec aead hc call.keys call.frame hs _ rfl
      rw [hcall] at hall hspec
      obtain ⟨rfl, -⟩ := hspec
      exact absurd (hall _ List.mem_cons_self) Bool.false_ne_true
    | ok batch s' =>
      rw [hcall] at hall
      obtain ⟨shards, cache, n, -, hshards, hsealed, hcache, hs'⟩ :=
        packetize_batch hfec haead hc hs hcall
      obtain ⟨k, -, -, hnonces, hk⟩ := hsealed.nonces
      have hcipher : s'.cipher = (maybeUpdateCipher aead call.keys s).cipher := by
        rw [hs']
        rfl
      have hlast : s'.lastKeyId = (maybeUpdateCipher aead call.keys s).lastKeyId := by
        rw [hs']
        rfl
      have henc : s'.encrypt = s.encrypt := by
        rw [hs']
        exact maybeUpdateCipher_encrypt call.keys s
      have hrest := ih (s := s') (by rw [hs']; exact hcache)
        fun o ho => hall o (List.mem_cons_of_mem _ ho)
      rw [henc, hlast] at hrest
      rw [List.flatMap_cons, hcipher, hnonces]
      -- the key is the old one, is none, or is new: then its first vector has the counter zero
      rcases maybeUpdateCipher_cases aead call calls s with
        ⟨hsame, hkeys⟩ | ⟨-, hkeys⟩ | ⟨key, hkey, hzero, hkeys⟩
      · rw [hkeys]
        rw [hsame] at hrest
        exact hrest.trans (List.sublist_append_right _ _)
      · rw [hkeys]
        exact hrest.trans (List.sublist_append_right _ _)
      · have hpos : 0 < k := by
          rw [hk (by rw [hkey]; rfl), hshards.length]
          exact totalShards_pos hc call.frame
        obtain ⟨m, rfl⟩ : ∃ m, k = m + 1 := ⟨k - 1, by omega⟩
        rw [hkeys, hkey, hzero, used, List.range_succ_eq_map, List.map_cons, List.map_cons,
          List.cons_append]
        exact (hrest.trans (List.sublist_append_right _ _)).cons_cons _

/-- **When the vectors of a session are used once.** In a session without failures, no
initialisation vector is used twice with one key exactly if no key is installed twice. -/
theorem nonces_nodup_iff {decrypt : K → Bytes → Bytes → Bytes → Option Bytes}
    {reconstruct : RS → (ℕ → Option UInt8) → Option Bytes} (hfec : FecLaw fec reconstruct)
    (haead : AeadLaw aead decrypt) {c : Config} (hc : nvVideoPacketSize < c.requestedPacketSize)
    (calls : List Call) (encrypt : Bool) (hsmall : c.sessionShards calls < 2 ^ 64)
    (hall : ∀ o ∈ (packetizeFrames fec aead c calls
      { Packetizer.new encrypt with sequenceNumber := 0 }).1, o.batch.isSome) :
    ((packetizeFrames fec aead c calls
      { Packetizer.new encrypt with sequenceNumber := 0 }).1.flatMap Outcome.nonces).Nodup ↔
    (installations aead encrypt i64Min calls).Nodup := by
  constructor
  · intro hnodup
    have hsub := installations_sublist hfec haead hc calls (coherent_new encrypt 0) hall
    exact (hsub.nodup hnodup).of_map _
  · intro hnodup
    exact (fresh_of_run hfec haead hc calls (coherent_new encrypt 0) hsmall hnodup nofun).nodup

end

/-! Two frames, the second under another key. -/

theorem nonces_nodup_iff_one_key :
    ((packetizeFrames mirror aes128Gcm ⟨32, 0, 0⟩
      [⟨⟨List.replicate 16 1, 1⟩, ⟨[1, 2, 3], true, 1, 1500, 0⟩⟩,
        ⟨⟨List.replicate 16 1, 2⟩, ⟨[4, 5], false, 2, 3000, 0⟩⟩]
      { Packetizer.new true with sequenceNumber := 0 }).1.flatMap Outcome.nonces).Nodup ↔
    (installations aes128Gcm true i64Min
      [⟨⟨List.replicate 16 1, 1⟩, ⟨[1, 2, 3], true, 1, 1500, 0⟩⟩,
        ⟨⟨List.replicate 16 1, 2⟩, ⟨[4, 5], false, 2, 3000, 0⟩⟩]).Nodup :=
  nonces_nodup_iff fecLaw_mirror aeadLaw_aes128Gcm (by decide) _ true (by decide)
    (by decide +kernel)

theorem datagrams_numbered_wrapping :
    Numbered Aes128Gcm.decrypt ⟨32, 1, 0⟩ 65535
      [⟨⟨[], 0⟩, ⟨[1, 2, 3], true, 1, 1500, 0⟩⟩, ⟨⟨[], 0⟩, ⟨[4, 5], false, 2, 3000, 0⟩⟩]
      (packetizeFrames mirror aes128Gcm ⟨32, 1, 0⟩
        [⟨⟨[], 0⟩, ⟨[1, 2, 3], true, 1, 1500, 0⟩⟩, ⟨⟨[], 0⟩, ⟨[4, 5], false, 2, 3000, 0⟩⟩]
        { Packetizer.new false with sequenceNumber := 65535 }).1 :=
  datagrams_numbered fecLaw_mirror aeadLaw_aes128Gcm (by decide) _ (coherent_new false 65535)

end RgspCast.Video
