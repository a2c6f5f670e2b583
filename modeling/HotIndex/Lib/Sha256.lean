import HotIndex.Lib.ByteString

/-!
# SHA-256

The digest that the storage engines and the dataset tools identify contents by. The
results of this development hold for every digest function; the real one is here so
that they can be stated at it.
-/

namespace HotIndex.Lib.Sha256

/-! ## Words -/

def rotateRight (x : UInt32) (n : UInt32) : UInt32 := (x >>> n) ||| (x <<< (32 - n))

def smallSigma0 (x : UInt32) : UInt32 := rotateRight x 7 ^^^ rotateRight x 18 ^^^ (x >>> 3)

def smallSigma1 (x : UInt32) : UInt32 := rotateRight x 17 ^^^ rotateRight x 19 ^^^ (x >>> 10)

def bigSigma0 (x : UInt32) : UInt32 := rotateRight x 2 ^^^ rotateRight x 13 ^^^ rotateRight x 22

def bigSigma1 (x : UInt32) : UInt32 := rotateRight x 6 ^^^ rotateRight x 11 ^^^ rotateRight x 25

def choose (x y z : UInt32) : UInt32 := (x &&& y) ^^^ (~~~x &&& z)

def majority (x y z : UInt32) : UInt32 := (x &&& y) ^^^ (x &&& z) ^^^ (y &&& z)

/-- The big-endian words of a byte string. -/
def toWords : Bytes → List UInt32
  | a :: b :: c :: d :: rest =>
    (a.toUInt32 <<< 24 ||| b.toUInt32 <<< 16 ||| c.toUInt32 <<< 8 ||| d.toUInt32) :: toWords rest
  | _ => []

/-! ## Constants -/

def roundConstants : List UInt32 :=
  [0x428a2f98, 0x71374491, 0xb5c0fbcf, 0xe9b5dba5, 0x3956c25b, 0x59f111f1, 0x923f82a4,
    0xab1c5ed5, 0xd807aa98, 0x12835b01, 0x243185be, 0x550c7dc3, 0x72be5d74, 0x80deb1fe,
    0x9bdc06a7, 0xc19bf174, 0xe49b69c1, 0xefbe4786, 0x0fc19dc6, 0x240ca1cc, 0x2de92c6f,
    0x4a7484aa, 0x5cb0a9dc, 0x76f988da, 0x983e5152, 0xa831c66d, 0xb00327c8, 0xbf597fc7,
    0xc6e00bf3, 0xd5a79147, 0x06ca6351, 0x14292967, 0x27b70a85, 0x2e1b2138, 0x4d2c6dfc,
    0x53380d13, 0x650a7354, 0x766a0abb, 0x81c2c92e, 0x92722c85, 0xa2bfe8a1, 0xa81a664b,
    0xc24b8b70, 0xc76c51a3, 0xd192e819, 0xd6990624, 0xf40e3585, 0x106aa070, 0x19a4c116,
    0x1e376c08, 0x2748774c, 0x34b0bcb5, 0x391c0cb3, 0x4ed8aa4a, 0x5b9cca4f, 0x682e6ff3,
    0x748f82ee, 0x78a5636f, 0x84c87814, 0x8cc70208, 0x90befffa, 0xa4506ceb, 0xbef9a3f7,
    0xc67178f2]

/-- The eight working words. -/
structure State where
  a : UInt32
  b : UInt32
  c : UInt32
  d : UInt32
  e : UInt32
  f : UInt32
  g : UInt32
  h : UInt32

def initialState : State :=
  ⟨0x6a09e667, 0xbb67ae85, 0x3c6ef372, 0xa54ff53a, 0x510e527f, 0x9b05688c, 0x1f83d9ab, 0x5be0cd19⟩

/-! ## Compression -/

/-- Extend the message schedule by `n` words. The schedule is kept newest word first. -/
def extendSchedule : Nat → List UInt32 → List UInt32
  | 0, ws => ws
  | n + 1, ws =>
    let w := smallSigma1 (ws.getD 1 0) + ws.getD 6 0 + smallSigma0 (ws.getD 14 0) + ws.getD 15 0
    extendSchedule n (w :: ws)

def schedule (block : Bytes) : List UInt32 := (extendSchedule 48 (toWords block).reverse).reverse

def round (s : State) (kw : UInt32 × UInt32) : State :=
  let t₁ := s.h + bigSigma1 s.e + choose s.e s.f s.g + kw.1 + kw.2
  let t₂ := bigSigma0 s.a + majority s.a s.b s.c
  ⟨t₁ + t₂, s.a, s.b, s.c, s.d + t₁, s.e, s.f, s.g⟩

def compress (s : State) (block : Bytes) : State :=
  let s' := (roundConstants.zip (schedule block)).foldl round s
  ⟨s.a + s'.a, s.b + s'.b, s.c + s'.c, s.d + s'.d, s.e + s'.e, s.f + s'.f, s.g + s'.g, s.h + s'.h⟩

/-! ## Digest -/

/-- The message, a one bit, zeros, and the bit length, filling whole blocks. -/
def pad (message : Bytes) : Bytes :=
  message ++ 0x80 :: List.replicate ((119 - message.length % 64) % 64) 0
    ++ beBytes 8 (8 * message.length)

/-- The first `n` blocks of 64 bytes. -/
def blocks : Nat → Bytes → List Bytes
  | 0, _ => []
  | n + 1, bytes => bytes.take 64 :: blocks n (bytes.drop 64)

def digest (message : Bytes) : Bytes :=
  let padded := pad message
  let s := (blocks (padded.length / 64) padded).foldl compress initialState
  [s.a, s.b, s.c, s.d, s.e, s.f, s.g, s.h].flatMap (fun w => beBytes 4 w.toNat)

/-- The digest of `abc`. -/
example : digest [97, 98, 99] =
    [0xba, 0x78, 0x16, 0xbf, 0x8f, 0x01, 0xcf, 0xea, 0x41, 0x41, 0x40, 0xde, 0x5d, 0xae, 0x22,
      0x23, 0xb0, 0x03, 0x61, 0xa3, 0x96, 0x17, 0x7a, 0x9c, 0xb4, 0x10, 0xff, 0x61, 0xf2, 0x00,
      0x15, 0xad] := by
  decide +kernel

end HotIndex.Lib.Sha256
