import RgspCast.Lib.Layout

/-!
# AES-128-GCM

The cipher, for nonces of twelve bytes and without associated data: the data are added to the key
stream, and the tag is the GHASH of the result, added to the block of the first counter. Whatever
the key, what was encrypted is decrypted (`decrypt_encrypt`).
-/

namespace Aes128Gcm

open Layout

/-! ## The block cipher -/

/-- The substitution table. -/
def sBox : List UInt8 :=
  [0x63, 0x7c, 0x77, 0x7b, 0xf2, 0x6b, 0x6f, 0xc5, 0x30, 0x01, 0x67, 0x2b, 0xfe, 0xd7, 0xab, 0x76,
   0xca, 0x82, 0xc9, 0x7d, 0xfa, 0x59, 0x47, 0xf0, 0xad, 0xd4, 0xa2, 0xaf, 0x9c, 0xa4, 0x72, 0xc0,
   0xb7, 0xfd, 0x93, 0x26, 0x36, 0x3f, 0xf7, 0xcc, 0x34, 0xa5, 0xe5, 0xf1, 0x71, 0xd8, 0x31, 0x15,
   0x04, 0xc7, 0x23, 0xc3, 0x18, 0x96, 0x05, 0x9a, 0x07, 0x12, 0x80, 0xe2, 0xeb, 0x27, 0xb2, 0x75,
   0x09, 0x83, 0x2c, 0x1a, 0x1b, 0x6e, 0x5a, 0xa0, 0x52, 0x3b, 0xd6, 0xb3, 0x29, 0xe3, 0x2f, 0x84,
   0x53, 0xd1, 0x00, 0xed, 0x20, 0xfc, 0xb1, 0x5b, 0x6a, 0xcb, 0xbe, 0x39, 0x4a, 0x4c, 0x58, 0xcf,
   0xd0, 0xef, 0xaa, 0xfb, 0x43, 0x4d, 0x33, 0x85, 0x45, 0xf9, 0x02, 0x7f, 0x50, 0x3c, 0x9f, 0xa8,
   0x51, 0xa3, 0x40, 0x8f, 0x92, 0x9d, 0x38, 0xf5, 0xbc, 0xb6, 0xda, 0x21, 0x10, 0xff, 0xf3, 0xd2,
   0xcd, 0x0c, 0x13, 0xec, 0x5f, 0x97, 0x44, 0x17, 0xc4, 0xa7, 0x7e, 0x3d, 0x64, 0x5d, 0x19, 0x73,
   0x60, 0x81, 0x4f, 0xdc, 0x22, 0x2a, 0x90, 0x88, 0x46, 0xee, 0xb8, 0x14, 0xde, 0x5e, 0x0b, 0xdb,
   0xe0, 0x32, 0x3a, 0x0a, 0x49, 0x06, 0x24, 0x5c, 0xc2, 0xd3, 0xac, 0x62, 0x91, 0x95, 0xe4, 0x79,
   0xe7, 0xc8, 0x37, 0x6d, 0x8d, 0xd5, 0x4e, 0xa9, 0x6c, 0x56, 0xf4, 0xea, 0x65, 0x7a, 0xae, 0x08,
   0xba, 0x78, 0x25, 0x2e, 0x1c, 0xa6, 0xb4, 0xc6, 0xe8, 0xdd, 0x74, 0x1f, 0x4b, 0xbd, 0x8b, 0x8a,
   0x70, 0x3e, 0xb5, 0x66, 0x48, 0x03, 0xf6, 0x0e, 0x61, 0x35, 0x57, 0xb9, 0x86, 0xc1, 0x1d, 0x9e,
   0xe1, 0xf8, 0x98, 0x11, 0x69, 0xd9, 0x8e, 0x94, 0x9b, 0x1e, 0x87, 0xe9, 0xce, 0x55, 0x28, 0xdf,
   0x8c, 0xa1, 0x89, 0x0d, 0xbf, 0xe6, 0x42, 0x68, 0x41, 0x99, 0x2d, 0x0f, 0xb0, 0x54, 0xbb, 0x16]

def subByte (b : UInt8) : UInt8 := sBox.getD b.toNat 0

/-- Multiplication by `x` in the field of 256 elements. -/
def xtime (b : UInt8) : UInt8 := if b < 0x80 then b <<< 1 else b <<< 1 ^^^ 0x1b

def xorBytes (a b : Bytes) : Bytes := List.zipWith (· ^^^ ·) a b

/-- Row `r` of the state, which is written column by column, moves by `r` columns. -/
def shiftRows (s : Bytes) : Bytes := (List.range 16).map fun i => s.getD (5 * i % 16) 0

def mixColumn : Bytes → Bytes
  | [a, b, c, d] =>
    let t := a ^^^ b ^^^ c ^^^ d
    [a ^^^ t ^^^ xtime (a ^^^ b), b ^^^ t ^^^ xtime (b ^^^ c), c ^^^ t ^^^ xtime (c ^^^ d),
      d ^^^ t ^^^ xtime (d ^^^ a)]
  | s => s

def mixColumns (s : Bytes) : Bytes := (chunks 4 s).flatMap mixColumn

/-- The round key behind a round key. -/
def nextKey (rcon : UInt8) (k : Bytes) : Bytes :=
  let w (i : ℕ) : Bytes := slice (4 * i) 4 k
  let t := xorBytes ((w 3).rotateLeft.map subByte) [rcon, 0, 0, 0]
  let w0 := xorBytes (w 0) t
  let w1 := xorBytes (w 1) w0
  let w2 := xorBytes (w 2) w1
  w0 ++ w1 ++ w2 ++ xorBytes (w 3) w2

/-- The rounds but the last, each with the key behind that of the round before, and the last. -/
def rounds : List UInt8 → Bytes → Bytes → Bytes
  | [], _, s => s
  | [rcon], k, s => xorBytes (shiftRows (s.map subByte)) (nextKey rcon k)
  | rcon :: rcons, k, s =>
    let k' := nextKey rcon k
    rounds rcons k' (xorBytes (mixColumns (shiftRows (s.map subByte))) k')

/-- The block that a block is encrypted to. -/
def encryptBlock (key block : Bytes) : Bytes :=
  rounds [0x01, 0x02, 0x04, 0x08, 0x10, 0x20, 0x40, 0x80, 0x1b, 0x36] key (xorBytes block key)

/-! ## The mode -/

/-- The `i`-th block of the key stream; the first belongs to the tag. -/
def streamBlock (key nonce : Bytes) (i : ℕ) : Bytes :=
  be 16 (ofBe (encryptBlock key (nonce ++ be 4 (i + 1))))

/-- The key stream for `n` bytes of data. -/
def keyStream (key nonce : Bytes) (n : ℕ) : Bytes :=
  (List.range ((n + 15) / 16)).flatMap fun i => streamBlock key nonce (i + 1)

/-- Multiplication by `x` in the field of GHASH, where the highest bit is the first coefficient. -/
def shift (v : ℕ) : ℕ := if v % 2 = 0 then v / 2 else v / 2 ^^^ 0xe1 <<< 120

/-- Multiplication in the field of GHASH: over the `n` bits of `x` from the highest on, with the
sum and the multiple of `y` up to there. -/
def mulFrom (x : ℕ) : ℕ → ℕ → ℕ → ℕ
  | 0, z, _ => z
  | n + 1, z, v => mulFrom x n (if x.testBit n then z ^^^ v else z) (shift v)

def ghash (h : ℕ) (data : Bytes) : ℕ :=
  (chunks 16 data).foldl (fun y b =>
    mulFrom (y ^^^ ofBe (b ++ List.replicate (16 - b.length) 0)) 128 0 h) 0

def tag (key nonce ciphertext : Bytes) : Bytes :=
  let h := ofBe (encryptBlock key (List.replicate 16 0))
  let padded := ciphertext ++ List.replicate ((16 - ciphertext.length % 16) % 16) 0
  be 16 (ghash h (padded ++ be 16 (8 * ciphertext.length)) ^^^ ofBe (streamBlock key nonce 0))

/-- The data are added to the key stream. -/
def applyStream (key nonce data : Bytes) : Bytes :=
  xorBytes data (keyStream key nonce data.length)

/-- How long the data may be. -/
def maxLength : ℕ := 2 ^ 36

/-- The encrypted data and the tag. -/
def encrypt (key nonce data : Bytes) : Option (Bytes × Bytes) :=
  if maxLength < data.length then none
  else
    let ciphertext := applyStream key nonce data
    some (ciphertext, tag key nonce ciphertext)

/-- The data, if the tag is theirs. -/
def decrypt (key nonce t ciphertext : Bytes) : Option Bytes :=
  if t = tag key nonce ciphertext then some (applyStream key nonce ciphertext) else none

/-! ## Decryption -/

/-- The key stream is as long as asked for. -/
theorem length_keyStream (key nonce : Bytes) (n : ℕ) : n ≤ (keyStream key nonce n).length := by
  have hblock : ∀ i ∈ List.range ((n + 15) / 16), (streamBlock key nonce (i + 1)).length = 16 :=
    fun i _ => length_be 16 _
  rw [keyStream, List.length_flatMap, List.map_congr_left hblock, List.map_const',
    List.sum_replicate_nat, List.length_range]
  omega

/-- The stream leaves the length of the data. -/
theorem length_applyStream (key nonce data : Bytes) :
    (applyStream key nonce data).length = data.length := by
  rw [applyStream, xorBytes, List.length_zipWith]
  exact Nat.min_eq_left (length_keyStream key nonce _)

/-- Adding twice gives the data back. -/
theorem xorBytes_xorBytes {a k : Bytes} (h : a.length ≤ k.length) :
    xorBytes (xorBytes a k) k = a := by
  induction a generalizing k with
  | nil => rfl
  | cons x a ih =>
    cases k with
    | nil => exact absurd h (Nat.not_succ_le_zero _)
    | cons y k =>
      change (x ^^^ y ^^^ y) :: xorBytes (xorBytes a k) k = x :: a
      rw [ih (Nat.le_of_succ_le_succ h), UInt8.xor_assoc, UInt8.xor_self, UInt8.xor_zero]

/-- Applying it twice gives the data back. -/
theorem applyStream_applyStream (key nonce data : Bytes) :
    applyStream key nonce (applyStream key nonce data) = data := by
  rw [applyStream, length_applyStream]
  exact xorBytes_xorBytes (length_keyStream key nonce _)

/-- The data keep their length, and the tag has 16 bytes. -/
theorem length_encrypt {key nonce data ciphertext t : Bytes}
    (h : encrypt key nonce data = some (ciphertext, t)) :
    ciphertext.length = data.length ∧ t.length = 16 := by
  unfold encrypt at h
  split_ifs at h
  obtain ⟨rfl, rfl⟩ := Prod.mk.inj (Option.some.inj h)
  exact ⟨length_applyStream key nonce data, length_be 16 _⟩

/-- What was encrypted is decrypted. -/
theorem decrypt_encrypt {key nonce data ciphertext t : Bytes}
    (h : encrypt key nonce data = some (ciphertext, t)) :
    decrypt key nonce t ciphertext = some data := by
  unfold encrypt at h
  split_ifs at h
  obtain ⟨rfl, rfl⟩ := Prod.mk.inj (Option.some.inj h)
  rw [decrypt, if_pos rfl, applyStream_applyStream]

/-- Sixteen zero bytes under the zero key and the zero nonce. -/
example : encrypt (List.replicate 16 0) (List.replicate 12 0) (List.replicate 16 0) =
    some (be 16 0x0388dace60b6a392f328c2b971b2fe78, be 16 0xab6e47d42cec13bdf53a67b21257bddf) := by
  decide +kernel

end Aes128Gcm
