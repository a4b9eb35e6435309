import RgspCast.Lib.Layout

/-!
# SHA-256

The hash, over words of 32 bits: the data are padded to blocks of sixteen words, and each block is
mixed into a state of eight.
-/

namespace Sha256

open Layout

/-- The round constants. -/
def roundConstants : List UInt32 :=
  [0x428a2f98, 0x71374491, 0xb5c0fbcf, 0xe9b5dba5, 0x3956c25b, 0x59f111f1, 0x923f82a4, 0xab1c5ed5,
   0xd807aa98, 0x12835b01, 0x243185be, 0x550c7dc3, 0x72be5d74, 0x80deb1fe, 0x9bdc06a7, 0xc19bf174,
   0xe49b69c1, 0xefbe4786, 0x0fc19dc6, 0x240ca1cc, 0x2de92c6f, 0x4a7484aa, 0x5cb0a9dc, 0x76f988da,
   0x983e5152, 0xa831c66d, 0xb00327c8, 0xbf597fc7, 0xc6e00bf3, 0xd5a79147, 0x06ca6351, 0x14292967,
   0x27b70a85, 0x2e1b2138, 0x4d2c6dfc, 0x53380d13, 0x650a7354, 0x766a0abb, 0x81c2c92e, 0x92722c85,
   0xa2bfe8a1, 0xa81a664b, 0xc24b8b70, 0xc76c51a3, 0xd192e819, 0xd6990624, 0xf40e3585, 0x106aa070,
   0x19a4c116, 0x1e376c08, 0x2748774c, 0x34b0bcb5, 0x391c0cb3, 0x4ed8aa4a, 0x5b9cca4f, 0x682e6ff3,
   0x748f82ee, 0x78a5636f, 0x84c87814, 0x8cc70208, 0x90befffa, 0xa4506ceb, 0xbef9a3f7, 0xc67178f2]

/-- The state at the start. -/
def initial : List UInt32 :=
  [0x6a09e667, 0xbb67ae85, 0x3c6ef372, 0xa54ff53a, 0x510e527f, 0x9b05688c, 0x1f83d9ab, 0x5be0cd19]

def rotr (x n : UInt32) : UInt32 := x >>> n ||| x <<< (32 - n)

/-- The word sixteen places behind a word, which the words after it follow. -/
def nextWord (w : UInt32) (ws : List UInt32) : UInt32 :=
  let w1 := ws.getD 0 0
  let w14 := ws.getD 13 0
  w + (rotr w1 7 ^^^ rotr w1 18 ^^^ w1 >>> 3) + ws.getD 8 0 +
    (rotr w14 17 ^^^ rotr w14 19 ^^^ w14 >>> 10)

/-- A round, with its word and constant added. -/
def round (x : UInt32) : List UInt32 → List UInt32
  | [a, b, c, d, e, f, g, h] =>
    let t := h + (rotr e 6 ^^^ rotr e 11 ^^^ rotr e 25) + (e &&& f ^^^ ~~~e &&& g) + x
    let t' := (rotr a 2 ^^^ rotr a 13 ^^^ rotr a 22) + (a &&& b ^^^ a &&& c ^^^ b &&& c)
    [t + t', a, b, c, d + t, e, f, g]
  | s => s

/-- The rounds with these constants, over the words from one on. -/
def rounds : List UInt32 → List UInt32 → List UInt32 → List UInt32
  | k :: ks, w :: ws, s => rounds ks (ws ++ [nextWord w ws]) (round (k + w) s)
  | _, _, s => s

def compress (s : List UInt32) (block : Bytes) : List UInt32 :=
  let words := (chunks 4 block).map fun p => UInt32.ofNat (ofBe p)
  List.zipWith (· + ·) s (rounds roundConstants words s)

/-- The data, a bit, zeros, and the number of bits. -/
def pad (data : Bytes) : Bytes :=
  data ++ 0x80 :: List.replicate ((119 - data.length % 64) % 64) 0 ++ be 8 (8 * data.length)

def hash (data : Bytes) : Bytes :=
  let s := (chunks 64 (pad data)).foldl compress initial
  (List.range 8).flatMap fun i => be 4 (s.getD i 0).toNat

/-- A hash has 32 bytes. -/
theorem length_hash (data : Bytes) : (hash data).length = 32 := by
  rw [hash, List.length_flatMap]
  simp only [length_be]
  rfl

/-- The letters `abc`. -/
example : hash [0x61, 0x62, 0x63] =
    be 32 0xba7816bf8f01cfea414140de5dae2223b00361a396177a9cb410ff61f20015ad := by
  decide +kernel

end Sha256
