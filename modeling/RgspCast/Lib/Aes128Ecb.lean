import Mathlib.Data.List.GetD
import RgspCast.Lib.Aes128Gcm

/-!
# AES-128, block by block

Decryption of one block, each round undone with its own key, and the mode that treats every block
alone. Whatever the key of sixteen bytes, what was encrypted is decrypted
(`decryptBlock_encryptBlock`, `ecb_ecb`). -/

namespace Aes128Ecb

open Layout Aes128Gcm

/-! ## The inverse cipher -/

/-- The substitution table backwards. -/
def invSBox : List UInt8 :=
  [0x52, 0x09, 0x6a, 0xd5, 0x30, 0x36, 0xa5, 0x38, 0xbf, 0x40, 0xa3, 0x9e, 0x81, 0xf3, 0xd7, 0xfb,
   0x7c, 0xe3, 0x39, 0x82, 0x9b, 0x2f, 0xff, 0x87, 0x34, 0x8e, 0x43, 0x44, 0xc4, 0xde, 0xe9, 0xcb,
   0x54, 0x7b, 0x94, 0x32, 0xa6, 0xc2, 0x23, 0x3d, 0xee, 0x4c, 0x95, 0x0b, 0x42, 0xfa, 0xc3, 0x4e,
   0x08, 0x2e, 0xa1, 0x66, 0x28, 0xd9, 0x24, 0xb2, 0x76, 0x5b, 0xa2, 0x49, 0x6d, 0x8b, 0xd1, 0x25,
   0x72, 0xf8, 0xf6, 0x64, 0x86, 0x68, 0x98, 0x16, 0xd4, 0xa4, 0x5c, 0xcc, 0x5d, 0x65, 0xb6, 0x92,
   0x6c, 0x70, 0x48, 0x50, 0xfd, 0xed, 0xb9, 0xda, 0x5e, 0x15, 0x46, 0x57, 0xa7, 0x8d, 0x9d, 0x84,
   0x90, 0xd8, 0xab, 0x00, 0x8c, 0xbc, 0xd3, 0x0a, 0xf7, 0xe4, 0x58, 0x05, 0xb8, 0xb3, 0x45, 0x06,
   0xd0, 0x2c, 0x1e, 0x8f, 0xca, 0x3f, 0x0f, 0x02, 0xc1, 0xaf, 0xbd, 0x03, 0x01, 0x13, 0x8a, 0x6b,
   0x3a, 0x91, 0x11, 0x41, 0x4f, 0x67, 0xdc, 0xea, 0x97, 0xf2, 0xcf, 0xce, 0xf0, 0xb4, 0xe6, 0x73,
   0x96, 0xac, 0x74, 0x22, 0xe7, 0xad, 0x35, 0x85, 0xe2, 0xf9, 0x37, 0xe8, 0x1c, 0x75, 0xdf, 0x6e,
   0x47, 0xf1, 0x1a, 0x71, 0x1d, 0x29, 0xc5, 0x89, 0x6f, 0xb7, 0x62, 0x0e, 0xaa, 0x18, 0xbe, 0x1b,
   0xfc, 0x56, 0x3e, 0x4b, 0xc6, 0xd2, 0x79, 0x20, 0x9a, 0xdb, 0xc0, 0xfe, 0x78, 0xcd, 0x5a, 0xf4,
   0x1f, 0xdd, 0xa8, 0x33, 0x88, 0x07, 0xc7, 0x31, 0xb1, 0x12, 0x10, 0x59, 0x27, 0x80, 0xec, 0x5f,
   0x60, 0x51, 0x7f, 0xa9, 0x19, 0xb5, 0x4a, 0x0d, 0x2d, 0xe5, 0x7a, 0x9f, 0x93, 0xc9, 0x9c, 0xef,
   0xa0, 0xe0, 0x3b, 0x4d, 0xae, 0x2a, 0xf5, 0xb0, 0xc8, 0xeb, 0xbb, 0x3c, 0x83, 0x53, 0x99, 0x61,
   0x17, 0x2b, 0x04, 0x7e, 0xba, 0x77, 0xd6, 0x26, 0xe1, 0x69, 0x14, 0x63, 0x55, 0x21, 0x0c, 0x7d]

def invSubByte (b : UInt8) : UInt8 := invSBox.getD b.toNat 0

/-- Row `r` of the state moves back by `r` columns. -/
def invShiftRows (s : Bytes) : Bytes := (List.range 16).map fun i => s.getD (13 * i % 16) 0

/-- The fourth mixing gives a column back. -/
def invMixColumn (s : Bytes) : Bytes := mixColumn (mixColumn (mixColumn s))

def invMixColumns (s : Bytes) : Bytes := (chunks 4 s).flatMap invMixColumn

/-- The rounds backwards. -/
def invRounds : List UInt8 → Bytes → Bytes → Bytes
  | [], _, s => s
  | [rcon], k, s => (invShiftRows (xorBytes s (nextKey rcon k))).map invSubByte
  | rcon :: rcons, k, s =>
    let k' := nextKey rcon k
    (invShiftRows (invMixColumns (xorBytes (invRounds rcons k' s) k'))).map invSubByte

/-- The block that is encrypted to a block. -/
def decryptBlock (key block : Bytes) : Bytes :=
  xorBytes (invRounds [0x01, 0x02, 0x04, 0x08, 0x10, 0x20, 0x40, 0x80, 0x1b, 0x36] key block) key

/-! ## Each layer is undone -/

/-- The inverse table undoes the table, for each of the 256 bytes. -/
theorem invSubByte_subByte (b : UInt8) : invSubByte (subByte b) = b := by
  have htable : sBox.map invSubByte = (List.range 256).map UInt8.ofNat := by decide +kernel
  have hlength : sBox.length = 256 := by decide +kernel
  have hb : b.toNat < sBox.length := by
    rw [hlength]
    exact b.toNat_lt
  have hget := List.getElem_of_eq htable (by rwa [List.length_map])
  simp only [List.getElem_map, List.getElem_range] at hget
  rw [subByte, List.getD_eq_getElem _ _ hb, hget]
  exact UInt8.ofNat_toNat

/-- It does so byte by byte. -/
theorem map_invSubByte (s : Bytes) : (s.map subByte).map invSubByte = s := by
  rw [List.map_map]
  exact (List.map_congr_left fun b _ => invSubByte_subByte b).trans (List.map_id s)

/-- The rows keep the length of a block. -/
theorem length_shiftRows (s : Bytes) : (shiftRows s).length = 16 := by
  rw [shiftRows, List.length_map, List.length_range]

/-- Shifting the rows back. -/
theorem invShiftRows_shiftRows {s : Bytes} (h : s.length = 16) :
    invShiftRows (shiftRows s) = s := by
  refine List.ext_getElem (by rw [invShiftRows, List.length_map, List.length_range, h]) ?_
  intro i hi hs
  have hi : i < 16 := h ▸ hs
  have hplace : 5 * (13 * i % 16) % 16 = i := by omega
  have hlt : 13 * i % 16 < (shiftRows s).length := by
    rw [length_shiftRows]
    exact Nat.mod_lt _ (by decide)
  simp only [invShiftRows, List.getElem_map, List.getElem_range]
  rw [List.getD_eq_getElem _ _ hlt]
  simp only [shiftRows, List.getElem_map, List.getElem_range, hplace]
  exact List.getD_eq_getElem _ _ hs

/-- Multiplication by `x` is linear. -/
theorem xtime_xor (a b : UInt8) : xtime (a ^^^ b) = xtime a ^^^ xtime b := by
  have hsmall : ∀ c : UInt8, c < 0x80 ↔ c.toBitVec.msb = false := by
    intro c
    rw [UInt8.lt_iff_toNat_lt, BitVec.msb_eq_decide, decide_eq_false_iff_not, Nat.not_le]
    rfl
  have hmsb : (a ^^^ b).toBitVec.msb = (a.toBitVec.msb ^^ b.toBitVec.msb) := by
    rw [UInt8.toBitVec_xor, BitVec.msb_xor]
  unfold xtime
  simp only [hsmall, hmsb, UInt8.shiftLeft_xor]
  have hcancel : ∀ x y r : UInt8, x ^^^ y = (x ^^^ r) ^^^ (y ^^^ r) := by
    intro x y r
    rw [UInt8.xor_comm y r, UInt8.xor_assoc, ← UInt8.xor_assoc r r y, UInt8.xor_self,
      UInt8.zero_xor]
  cases a.toBitVec.msb <;> cases b.toBitVec.msb
  · rfl
  · exact UInt8.xor_assoc _ _ _
  · exact (UInt8.xor_assoc _ _ _).trans
      ((congrArg (a <<< 1 ^^^ ·) (UInt8.xor_comm _ _)).trans (UInt8.xor_assoc _ _ _).symm)
  · exact hcancel _ _ _

/-- Exclusive or undoes itself. -/
theorem xor_cancel (a b : UInt8) : a ^^^ (a ^^^ b) = b := by
  rw [← UInt8.xor_assoc, UInt8.xor_self, UInt8.zero_xor]

/-- It can be reordered. -/
theorem xor_left_comm (a b c : UInt8) : a ^^^ (b ^^^ c) = b ^^^ (a ^^^ c) := by
  rw [← UInt8.xor_assoc, UInt8.xor_comm a b, UInt8.xor_assoc]

/-- It undoes itself on the right, too. -/
theorem xor_self_cancel (a b : UInt8) : a ^^^ b ^^^ b = a := by
  rw [UInt8.xor_assoc, UInt8.xor_self, UInt8.xor_zero]

/-- And in a common operand. -/
theorem xor_add_cancel (a b c : UInt8) : a ^^^ c ^^^ (b ^^^ c) = a ^^^ b := by
  rw [UInt8.xor_comm b c, UInt8.xor_assoc, xor_cancel]

/-- The sum of two bytes that stand together in a mixed column. -/
theorem xor_mixed (x y z t : UInt8) :
    (x ^^^ t ^^^ xtime (x ^^^ y)) ^^^ (y ^^^ t ^^^ xtime (y ^^^ z)) =
      (x ^^^ y) ^^^ xtime (x ^^^ z) := by
  simp only [xtime_xor, UInt8.xor_comm, xor_left_comm, xor_cancel]

/-- Mixed twice, a byte is added to four times its sum with the byte two places on. -/
theorem mixColumn_mixColumn (a b c d : UInt8) :
    mixColumn (mixColumn [a, b, c, d]) =
      [a ^^^ xtime (xtime (a ^^^ c)), b ^^^ xtime (xtime (b ^^^ d)),
        c ^^^ xtime (xtime (c ^^^ a)), d ^^^ xtime (xtime (d ^^^ b))] := by
  have hbyte : ∀ x t p q : UInt8,
      (x ^^^ t ^^^ xtime p) ^^^ t ^^^ xtime (p ^^^ xtime q) = x ^^^ xtime (xtime q) := by
    intro x t p q
    simp only [xtime_xor, UInt8.xor_comm, xor_left_comm, xor_cancel]
  have hsum : ∀ t : UInt8, (a ^^^ t ^^^ xtime (a ^^^ b)) ^^^ (b ^^^ t ^^^ xtime (b ^^^ c)) ^^^
      (c ^^^ t ^^^ xtime (c ^^^ d)) ^^^ (d ^^^ t ^^^ xtime (d ^^^ a)) = a ^^^ b ^^^ c ^^^ d := by
    intro t
    rw [UInt8.xor_assoc (_ ^^^ _), xor_mixed, xor_mixed, UInt8.xor_comm c a, xor_add_cancel,
      ← UInt8.xor_assoc]
  simp only [mixColumn, hsum]
  simp only [xor_mixed, hbyte]

/-- Mixed four times, a column is back. -/
theorem invMixColumn_mixColumn {s : Bytes} (h : s.length = 4) :
    invMixColumn (mixColumn s) = s := by
  obtain ⟨a, b, c, d, rfl⟩ := List.length_eq_four.mp h
  have hback : ∀ x y p q : UInt8, p = xtime (xtime (x ^^^ y)) → q = xtime (xtime (y ^^^ x)) →
      x ^^^ p ^^^ xtime (xtime (x ^^^ p ^^^ (y ^^^ q))) = x := by
    intro x y p q hp hq
    obtain rfl : p = q := by rw [hp, hq, UInt8.xor_comm]
    rw [xor_add_cancel, ← hp, xor_self_cancel]
  rw [invMixColumn, mixColumn_mixColumn, mixColumn_mixColumn, hback a c _ _ rfl rfl,
    hback b d _ _ rfl rfl, hback c a _ _ rfl rfl, hback d b _ _ rfl rfl]

/-- A column has four bytes. -/
theorem length_mixColumn {s : Bytes} (h : s.length = 4) : (mixColumn s).length = 4 := by
  obtain ⟨a, b, c, d, rfl⟩ := List.length_eq_four.mp h
  rfl

/-- Every column of a block does. -/
theorem length_of_mem_columns {s p : Bytes} (h : s.length = 16) (hp : p ∈ chunks 4 s) :
    p.length = 4 :=
  length_of_mem_chunks (by decide) (k := 4) h hp

/-- Mixing the columns back. -/
theorem invMixColumns_mixColumns {s : Bytes} (h : s.length = 16) :
    invMixColumns (mixColumns s) = s := by
  have hcolumns : ∀ p ∈ (chunks 4 s).map mixColumn, p.length = 4 := by
    intro p hp
    obtain ⟨q, hq, rfl⟩ := List.mem_map.mp hp
    exact length_mixColumn (length_of_mem_columns h hq)
  have hback : ∀ p ∈ chunks 4 s, (invMixColumn ∘ mixColumn) p = p :=
    fun p hp => invMixColumn_mixColumn (length_of_mem_columns h hp)
  rw [invMixColumns, mixColumns, List.flatMap_def, List.flatMap_def,
    chunks_flatten (by decide) hcolumns, List.map_map, List.map_congr_left hback, List.map_id',
    flatten_chunks (by decide)]

/-- The columns keep the length of a block. -/
theorem length_mixColumns {s : Bytes} (h : s.length = 16) : (mixColumns s).length = 16 := by
  have hlen : ∀ p ∈ chunks 4 s, (mixColumn p).length = 4 :=
    fun p hp => length_mixColumn (length_of_mem_columns h hp)
  rw [mixColumns, List.length_flatMap, List.map_congr_left hlen, List.map_const',
    List.sum_replicate_nat, length_chunks, h]

/-! ## The rounds -/

/-- The length of two lists that are as long as each other. -/
theorem length_xorBytes {a b : Bytes} {n : ℕ} (ha : a.length = n) (hb : b.length = n) :
    (xorBytes a b).length = n := by
  rw [xorBytes, List.length_zipWith, ha, hb, Nat.min_self]

/-- A round key has 16 bytes. -/
theorem length_nextKey (rcon : UInt8) {k : Bytes} (h : k.length = 16) :
    (nextKey rcon k).length = 16 := by
  have hw : ∀ i < 4, (slice (4 * i) 4 k).length = 4 := by
    intro i hi
    rw [slice, List.length_take, List.length_drop]
    omega
  have hrotate : ∀ w : Bytes, w.length = 4 → (w.rotateLeft.map subByte).length = 4 := by
    intro w hw
    obtain ⟨a, b, c, d, rfl⟩ := List.length_eq_four.mp hw
    rfl
  have ht := length_xorBytes (hrotate _ (hw 3 (by decide))) (rfl : [rcon, 0, 0, 0].length = 4)
  have h0 := length_xorBytes (hw 0 (by decide)) ht
  have h1 := length_xorBytes (hw 1 (by decide)) h0
  have h2 := length_xorBytes (hw 2 (by decide)) h1
  have h3 := length_xorBytes (hw 3 (by decide)) h2
  simp only [nextKey, List.length_append, h0, h1, h2, h3]

/-- The rounds keep the length of a block. -/
theorem length_rounds {rcons : List UInt8} {k s : Bytes} (hk : k.length = 16)
    (hs : s.length = 16) : (rounds rcons k s).length = 16 := by
  induction rcons, k, s using rounds.induct with
  | case1 k s => exact hs
  | case2 rcon k s => exact length_xorBytes (length_shiftRows _) (length_nextKey rcon hk)
  | case3 rcon rcons k s hne k' ih =>
    have hk' : k'.length = 16 := length_nextKey rcon hk
    rw [rounds]
    · exact ih hk' (length_xorBytes (length_mixColumns (length_shiftRows _)) hk')
    · exact hne

/-- The rounds backwards undo the rounds. -/
theorem invRounds_rounds {rcons : List UInt8} {k s : Bytes} (hk : k.length = 16)
    (hs : s.length = 16) : invRounds rcons k (rounds rcons k s) = s := by
  have hback : ∀ s : Bytes, s.length = 16 →
      (invShiftRows (shiftRows (s.map subByte))).map invSubByte = s := by
    intro s hs
    rw [invShiftRows_shiftRows (by rw [List.length_map, hs]), map_invSubByte]
  have hxor : ∀ a b : Bytes, a.length = 16 → b.length = 16 → xorBytes (xorBytes a b) b = a :=
    fun a b ha hb => xorBytes_xorBytes (Nat.le_of_eq (ha.trans hb.symm))
  induction rcons, k, s using rounds.induct with
  | case1 k s => rfl
  | case2 rcon k s =>
    rw [rounds, invRounds, hxor _ _ (length_shiftRows _) (length_nextKey rcon hk), hback s hs]
  | case3 rcon rcons k s hne k' ih =>
    have hk' : k'.length = 16 := length_nextKey rcon hk
    have hmixed := length_mixColumns (length_shiftRows (s.map subByte))
    rw [rounds, invRounds]
    · change (invShiftRows (invMixColumns (xorBytes (invRounds rcons k' _) k'))).map invSubByte = s
      rw [ih hk' (length_xorBytes hmixed hk'), hxor _ _ hmixed hk',
        invMixColumns_mixColumns (length_shiftRows _), hback s hs]
    · exact hne
    · exact hne

/-- A block is encrypted to a block. -/
theorem length_encryptBlock {key block : Bytes} (hkey : key.length = 16)
    (hblock : block.length = 16) : (encryptBlock key block).length = 16 :=
  length_rounds hkey (length_xorBytes hblock hkey)

/-- What was encrypted is decrypted. -/
theorem decryptBlock_encryptBlock {key block : Bytes} (hkey : key.length = 16)
    (hblock : block.length = 16) : decryptBlock key (encryptBlock key block) = block := by
  rw [decryptBlock, encryptBlock, invRounds_rounds hkey (length_xorBytes hblock hkey)]
  exact xorBytes_xorBytes (Nat.le_of_eq (hblock.trans hkey.symm))

/-! ## Every block alone -/

/-- Block by block, if the data consist of blocks. -/
def ecb (block : Bytes → Bytes) (data : Bytes) : Option Bytes :=
  if data.length % 16 ≠ 0 then none else some ((chunks 16 data).flatMap block)

/-- What undoes every block undoes the whole. -/
theorem ecb_ecb {enc dec : Bytes → Bytes} (hlength : ∀ b, b.length = 16 → (enc b).length = 16)
    (hback : ∀ b, b.length = 16 → dec (enc b) = b) {data : Bytes} (h : data.length % 16 = 0) :
    ∃ encrypted, ecb enc data = some encrypted ∧ ecb dec encrypted = some data := by
  have hdata : data.length = data.length / 16 * 16 := by omega
  have hmem : ∀ p ∈ chunks 16 data, p.length = 16 :=
    fun p hp => length_of_mem_chunks (by decide) hdata hp
  have hpieces : ∀ p ∈ (chunks 16 data).map enc, p.length = 16 := by
    intro p hp
    obtain ⟨q, hq, rfl⟩ := List.mem_map.mp hp
    exact hlength q (hmem q hq)
  have hlen : ((chunks 16 data).flatMap enc).length % 16 = 0 := by
    rw [List.length_flatMap, List.map_congr_left fun p hp => hlength p (hmem p hp),
      List.map_const', List.sum_replicate_nat, Nat.mul_mod_left]
  have hpiece : ∀ p ∈ chunks 16 data, (dec ∘ enc) p = p := fun p hp => hback p (hmem p hp)
  refine ⟨_, if_neg (not_not_intro h), ?_⟩
  rw [ecb, if_neg (not_not_intro hlen), List.flatMap_def, List.flatMap_def,
    chunks_flatten (by decide) hpieces, List.map_map, List.map_congr_left hpiece, List.map_id',
    flatten_chunks (by decide)]

end Aes128Ecb
