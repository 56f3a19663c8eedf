/-! The digest SHA-512/256. -/

namespace LedgerClient.Sha512

def rotate (x : UInt64) (n : UInt64) : UInt64 := (x >>> n) ||| (x <<< (64 - n))

/-- The eight words that a message turns round after round. -/
structure Words where
  a : UInt64
  b : UInt64
  c : UInt64
  d : UInt64
  e : UInt64
  f : UInt64
  g : UInt64
  h : UInt64

/-- The first 64 bits behind the point of the cube roots of the first 80 primes. -/
def constants : List UInt64 := [
  0x428a2f98d728ae22, 0x7137449123ef65cd, 0xb5c0fbcfec4d3b2f, 0xe9b5dba58189dbbc,
  0x3956c25bf348b538, 0x59f111f1b605d019, 0x923f82a4af194f9b, 0xab1c5ed5da6d8118,
  0xd807aa98a3030242, 0x12835b0145706fbe, 0x243185be4ee4b28c, 0x550c7dc3d5ffb4e2,
  0x72be5d74f27b896f, 0x80deb1fe3b1696b1, 0x9bdc06a725c71235, 0xc19bf174cf692694,
  0xe49b69c19ef14ad2, 0xefbe4786384f25e3, 0x0fc19dc68b8cd5b5, 0x240ca1cc77ac9c65,
  0x2de92c6f592b0275, 0x4a7484aa6ea6e483, 0x5cb0a9dcbd41fbd4, 0x76f988da831153b5,
  0x983e5152ee66dfab, 0xa831c66d2db43210, 0xb00327c898fb213f, 0xbf597fc7beef0ee4,
  0xc6e00bf33da88fc2, 0xd5a79147930aa725, 0x06ca6351e003826f, 0x142929670a0e6e70,
  0x27b70a8546d22ffc, 0x2e1b21385c26c926, 0x4d2c6dfc5ac42aed, 0x53380d139d95b3df,
  0x650a73548baf63de, 0x766a0abb3c77b2a8, 0x81c2c92e47edaee6, 0x92722c851482353b,
  0xa2bfe8a14cf10364, 0xa81a664bbc423001, 0xc24b8b70d0f89791, 0xc76c51a30654be30,
  0xd192e819d6ef5218, 0xd69906245565a910, 0xf40e35855771202a, 0x106aa07032bbd1b8,
  0x19a4c116b8d2d0c8, 0x1e376c085141ab53, 0x2748774cdf8eeb99, 0x34b0bcb5e19b48a8,
  0x391c0cb3c5c95a63, 0x4ed8aa4ae3418acb, 0x5b9cca4f7763e373, 0x682e6ff3d6b2b8a3,
  0x748f82ee5defb2fc, 0x78a5636f43172f60, 0x84c87814a1f0ab72, 0x8cc702081a6439ec,
  0x90befffa23631e28, 0xa4506cebde82bde9, 0xbef9a3f7b2c67915, 0xc67178f2e372532b,
  0xca273eceea26619c, 0xd186b8c721c0c207, 0xeada7dd6cde0eb1e, 0xf57d4f7fee6ed178,
  0x06f067aa72176fba, 0x0a637dc5a2c898a6, 0x113f9804bef90dae, 0x1b710b35131c471b,
  0x28db77f523047d84, 0x32caab7b40c72493, 0x3c9ebe0a15c9bebc, 0x431d67c49c100d4c,
  0x4cc5d4becb3e42b6, 0x597f299cfc657e2a, 0x5fcb6fab3ad6faec, 0x6c44198c4a475817]

/-- The start that tells SHA-512/256 from the other digests of its family. -/
def initial : Words :=
  { a := 0x22312194fc2bf72c, b := 0x9f555fa3c84c64c2, c := 0x2393b86b6f53b151, d := 0x963877195940eabd
    e := 0x96283ee2a88effe3, f := 0xbe5e1e2553863992, g := 0x2b0199fc2c85b8aa, h := 0x0eb72ddc81c52ca2 }

def Words.turn (w : Words) (constant word : UInt64) : Words :=
  let upper := rotate w.e 14 ^^^ rotate w.e 18 ^^^ rotate w.e 41
  let chosen := (w.e &&& w.f) ^^^ (~~~w.e &&& w.g)
  let first := w.h + upper + chosen + constant + word
  let lower := rotate w.a 28 ^^^ rotate w.a 34 ^^^ rotate w.a 39
  let majority := (w.a &&& w.b) ^^^ (w.a &&& w.c) ^^^ (w.b &&& w.c)
  { a := first + (lower + majority), b := w.a, c := w.b, d := w.c
    e := w.d + first, f := w.e, g := w.f, h := w.g }

def Words.add (v w : Words) : Words :=
  { a := v.a + w.a, b := v.b + w.b, c := v.c + w.c, d := v.d + w.d
    e := v.e + w.e, f := v.f + w.f, g := v.g + w.g, h := v.h + w.h }

def Words.octets (w : Words) : List UInt8 :=
  [w.a, w.b, w.c, w.d, w.e, w.f, w.g, w.h].flatMap fun word =>
    [56, 48, 40, 32, 24, 16, 8, 0].map fun shift => (word >>> shift).toUInt8

/-- Big-endian words of eight octets each. -/
def words : List UInt8 → List UInt64
  | a :: b :: c :: d :: e :: f :: g :: h :: rest =>
    [a, b, c, d, e, f, g, h].foldl (fun word octet => (word <<< 8) ||| octet.toUInt64) 0 :: words rest
  | _ => []

/-- The words of the rounds: the sixteen of the block, and then each a mixture
of four that came before it. The window holds the last sixteen. -/
def schedule : (rounds : Nat) → (window : List UInt64) → List UInt64
  | 0, _ => []
  | rounds + 1, window =>
    match window with
    | [] => []
    | word :: rest =>
      let past := fun i => window.getD i 0
      let near := rotate (past 1) 1 ^^^ rotate (past 1) 8 ^^^ (past 1 >>> 7)
      let far := rotate (past 14) 19 ^^^ rotate (past 14) 61 ^^^ (past 14 >>> 6)
      word :: schedule rounds (rest ++ [word + near + past 9 + far])

def block (state : Words) (message : List UInt64) : Words :=
  let rounds := List.zip constants (schedule 80 message)
  state.add (rounds.foldl (fun w (constant, word) => w.turn constant word) state)

/-- A one, zeros, and the length in bits, up to a whole number of blocks. -/
def padded (message : List UInt8) : List UInt8 :=
  let size := message.length
  let zeros := List.replicate ((239 - size % 128) % 128) (0 : UInt8)
  let length := (List.range 16).reverse.map fun i => UInt8.ofNat ((8 * size) >>> (8 * i))
  message ++ 0x80 :: (zeros ++ length)

def blocks (state : Words) : Nat → List UInt64 → Words
  | 0, _ => state
  | count + 1, message => blocks (block state (message.take 16)) count (message.drop 16)

/-- The digest of 32 octets. -/
def digest256 (message : List UInt8) : List UInt8 :=
  let message := words (padded message)
  (blocks initial (message.length / 16) message).octets.take 32

end LedgerClient.Sha512
