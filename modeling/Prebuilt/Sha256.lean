import Prebuilt.Bytes

/-!
# SHA-256

The hash function of FIPS 180-4 on byte strings, in two forms. `digest`
hashes a message at once, after padding it to whole blocks. A `Hasher`
takes the message in pieces and compresses each block as soon as it is
complete; how the message is cut does not matter (`update_append`).

A round needs one word of the message schedule and the sixteen words it
is computed from, so a block is carried through its 64 rounds as a
window of sixteen words that slides along the schedule.
-/

namespace Prebuilt.Sha256

/-- The eight words of a hash in the making. -/
structure Chain where
  a : UInt32
  b : UInt32
  c : UInt32
  d : UInt32
  e : UInt32
  f : UInt32
  g : UInt32
  h : UInt32
deriving Repr, DecidableEq

namespace Chain

def initial : Chain :=
  ⟨0x6a09e667, 0xbb67ae85, 0x3c6ef372, 0xa54ff53a,
    0x510e527f, 0x9b05688c, 0x1f83d9ab, 0x5be0cd19⟩

def add (x y : Chain) : Chain :=
  ⟨x.a + y.a, x.b + y.b, x.c + y.c, x.d + y.d, x.e + y.e, x.f + y.f, x.g + y.g, x.h + y.h⟩

def words (x : Chain) : List UInt32 := [x.a, x.b, x.c, x.d, x.e, x.f, x.g, x.h]

end Chain

/-- The constants of the rounds. -/
def roundConstants : List UInt32 :=
  [0x428a2f98, 0x71374491, 0xb5c0fbcf, 0xe9b5dba5, 0x3956c25b, 0x59f111f1, 0x923f82a4, 0xab1c5ed5,
   0xd807aa98, 0x12835b01, 0x243185be, 0x550c7dc3, 0x72be5d74, 0x80deb1fe, 0x9bdc06a7, 0xc19bf174,
   0xe49b69c1, 0xefbe4786, 0x0fc19dc6, 0x240ca1cc, 0x2de92c6f, 0x4a7484aa, 0x5cb0a9dc, 0x76f988da,
   0x983e5152, 0xa831c66d, 0xb00327c8, 0xbf597fc7, 0xc6e00bf3, 0xd5a79147, 0x06ca6351, 0x14292967,
   0x27b70a85, 0x2e1b2138, 0x4d2c6dfc, 0x53380d13, 0x650a7354, 0x766a0abb, 0x81c2c92e, 0x92722c85,
   0xa2bfe8a1, 0xa81a664b, 0xc24b8b70, 0xc76c51a3, 0xd192e819, 0xd6990624, 0xf40e3585, 0x106aa070,
   0x19a4c116, 0x1e376c08, 0x2748774c, 0x34b0bcb5, 0x391c0cb3, 0x4ed8aa4a, 0x5b9cca4f, 0x682e6ff3,
   0x748f82ee, 0x78a5636f, 0x84c87814, 0x8cc70208, 0x90befffa, 0xa4506ceb, 0xbef9a3f7, 0xc67178f2]

/-! ## One block -/

def rotateRight (n x : UInt32) : UInt32 := (x >>> n) ||| (x <<< (32 - n))

def scheduleSmall (x : UInt32) : UInt32 := rotateRight 7 x ^^^ rotateRight 18 x ^^^ (x >>> 3)

def scheduleLarge (x : UInt32) : UInt32 := rotateRight 17 x ^^^ rotateRight 19 x ^^^ (x >>> 10)

def roundLow (x : UInt32) : UInt32 := rotateRight 2 x ^^^ rotateRight 13 x ^^^ rotateRight 22 x

def roundHigh (x : UInt32) : UInt32 := rotateRight 6 x ^^^ rotateRight 11 x ^^^ rotateRight 25 x

def choose (x y z : UInt32) : UInt32 := (x &&& y) ^^^ (~~~x &&& z)

def majority (x y z : UInt32) : UInt32 := (x &&& y) ^^^ (x &&& z) ^^^ (y &&& z)

def round (x : Chain) (constant word : UInt32) : Chain :=
  let t := x.h + roundHigh x.e + choose x.e x.f x.g + constant + word
  ⟨t + (roundLow x.a + majority x.a x.b x.c), x.a, x.b, x.c, x.d + t, x.e, x.f, x.g⟩

/-- The next window of the schedule. -/
def slide (window : List UInt32) : List UInt32 :=
  window.drop 1
    ++ [scheduleLarge (window.getD 14 0) + window.getD 9 0
          + scheduleSmall (window.getD 1 0) + window.getD 0 0]

def rounds (x : Chain) (window : List UInt32) : List UInt32 → Chain
  | [] => x
  | k :: ks => rounds (round x k (window.getD 0 0)) (slide window) ks

/-- The words of a block, the first byte of each the most significant. -/
def wordsOf : Bytes → List UInt32
  | a :: b :: c :: d :: rest =>
      (a.toUInt32 <<< 24 ||| b.toUInt32 <<< 16 ||| c.toUInt32 <<< 8 ||| d.toUInt32)
        :: wordsOf rest
  | _ => []

/-- Bytes in a block. -/
def blockSize : Nat := 64

def compress (x : Chain) (block : Bytes) : Chain :=
  x.add (rounds x (wordsOf block) roundConstants)

/-! ## Whole messages -/

/-- A number as eight bytes, the most significant first. -/
def eightBytes (n : Nat) : Bytes :=
  [n >>> 56, n >>> 48, n >>> 40, n >>> 32, n >>> 24, n >>> 16, n >>> 8, n].map Nat.toUInt8

/-- What follows a message of this many bytes: one bit, zeros up to the
end of a block but for eight bytes, and the length in bits. -/
def padding (length : Nat) : Bytes :=
  0x80 :: List.replicate ((119 - length % blockSize) % blockSize) 0 ++ eightBytes (8 * length)

def wordBytes (w : UInt32) : Bytes :=
  [(w >>> 24).toUInt8, (w >>> 16).toUInt8, (w >>> 8).toUInt8, w.toUInt8]

def Chain.bytes (x : Chain) : Bytes := x.words.flatMap wordBytes

/-- The hash of a message. -/
def digest (message : Bytes) : Bytes :=
  ((Bytes.chunks blockSize (message ++ padding message.length)).foldl compress .initial).bytes

/-! ## Messages in pieces -/

structure Hasher where
  chain : Chain
  /-- The bytes of the block that is not complete yet. -/
  pending : Bytes
  /-- The number of bytes so far. -/
  length : Nat
deriving Repr, DecidableEq

namespace Hasher

def start : Hasher := ⟨.initial, [], 0⟩

def push (s : Hasher) (b : UInt8) : Hasher :=
  let block := s.pending ++ [b]
  if block.length = blockSize then ⟨compress s.chain block, [], s.length + 1⟩
  else ⟨s.chain, block, s.length + 1⟩

def update (s : Hasher) (piece : Bytes) : Hasher := piece.foldl push s

def finish (s : Hasher) : Bytes :=
  ((Bytes.chunks blockSize (s.pending ++ padding s.length)).foldl compress s.chain).bytes

theorem update_append (s : Hasher) (x y : Bytes) :
    s.update (x ++ y) = (s.update x).update y := List.foldl_append

/-- Pieces one after the other are hashed like the whole. -/
theorem foldl_update (s : Hasher) (pieces : List Bytes) :
    pieces.foldl update s = s.update pieces.flatten := by
  induction pieces generalizing s with
  | nil => rfl
  | cons x rest ih => rw [List.foldl_cons, ih, List.flatten_cons, update_append]

end Hasher

end Prebuilt.Sha256
