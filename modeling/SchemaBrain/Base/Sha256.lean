import Mathlib.Algebra.Group.Nat.Defs
import SchemaBrain.Base.Bytes

/-!
# SHA-256

The hash behind `hashlib.sha256`. Words are naturals below `2 ^ 32`; the message
schedule is a sliding window of its last sixteen words, so one compression is one
structural recursion over the round constants.
-/

namespace SchemaBrain.Base.Sha256

/-- Reduction to one 32-bit word. -/
def word (x : Nat) : Nat := x % 4294967296

/-- Right rotation of a 32-bit word. -/
def rotr (n x : Nat) : Nat := (x >>> n) ||| word (x <<< (32 - n))

/-- Working variables of one compression, also the chaining value. -/
structure State where
  a : Nat
  b : Nat
  c : Nat
  d : Nat
  e : Nat
  f : Nat
  g : Nat
  h : Nat

/-- Initial chaining value. -/
def initial : State :=
  ⟨0x6a09e667, 0xbb67ae85, 0x3c6ef372, 0xa54ff53a,
    0x510e527f, 0x9b05688c, 0x1f83d9ab, 0x5be0cd19⟩

/-- The sixty-four round constants. -/
def roundConstants : List Nat := [
  0x428a2f98, 0x71374491, 0xb5c0fbcf, 0xe9b5dba5, 0x3956c25b, 0x59f111f1, 0x923f82a4, 0xab1c5ed5,
  0xd807aa98, 0x12835b01, 0x243185be, 0x550c7dc3, 0x72be5d74, 0x80deb1fe, 0x9bdc06a7, 0xc19bf174,
  0xe49b69c1, 0xefbe4786, 0x0fc19dc6, 0x240ca1cc, 0x2de92c6f, 0x4a7484aa, 0x5cb0a9dc, 0x76f988da,
  0x983e5152, 0xa831c66d, 0xb00327c8, 0xbf597fc7, 0xc6e00bf3, 0xd5a79147, 0x06ca6351, 0x14292967,
  0x27b70a85, 0x2e1b2138, 0x4d2c6dfc, 0x53380d13, 0x650a7354, 0x766a0abb, 0x81c2c92e, 0x92722c85,
  0xa2bfe8a1, 0xa81a664b, 0xc24b8b70, 0xc76c51a3, 0xd192e819, 0xd6990624, 0xf40e3585, 0x106aa070,
  0x19a4c116, 0x1e376c08, 0x2748774c, 0x34b0bcb5, 0x391c0cb3, 0x4ed8aa4a, 0x5b9cca4f, 0x682e6ff3,
  0x748f82ee, 0x78a5636f, 0x84c87814, 0x8cc70208, 0x90befffa, 0xa4506ceb, 0xbef9a3f7, 0xc67178f2]

/-- One round with constant `k` and schedule word `w`. -/
def round (s : State) (k w : Nat) : State :=
  let choose := (s.e &&& s.f) ^^^ ((0xffffffff ^^^ s.e) &&& s.g)
  let majority := (s.a &&& s.b) ^^^ (s.a &&& s.c) ^^^ (s.b &&& s.c)
  let t1 := s.h + (rotr 6 s.e ^^^ rotr 11 s.e ^^^ rotr 25 s.e) + choose + k + w
  let t2 := (rotr 2 s.a ^^^ rotr 13 s.a ^^^ rotr 22 s.a) + majority
  ⟨word (t1 + t2), s.a, s.b, s.c, word (s.d + t1), s.e, s.f, s.g⟩

/-- The schedule word that follows the window whose words 0, 1, 9 and 14 are given. -/
def nextWord (w0 w1 w9 w14 : Nat) : Nat :=
  word ((rotr 17 w14 ^^^ rotr 19 w14 ^^^ (w14 >>> 10)) + w9 +
    (rotr 7 w1 ^^^ rotr 18 w1 ^^^ (w1 >>> 3)) + w0)

/-- The rounds of one block; the second argument is the window of schedule words. -/
def rounds : List Nat → List Nat → State → State
  | [], _, s => s
  | k :: ks, window, s =>
    match window with
    | w0 :: w1 :: rest =>
      rounds ks (w1 :: rest ++ [nextWord w0 w1 (rest.getD 7 0) (rest.getD 12 0)]) (round s k w0)
    | _ => s

/-- Word-wise addition of a block's result to the chaining value. -/
def State.add (s t : State) : State :=
  ⟨word (s.a + t.a), word (s.b + t.b), word (s.c + t.c), word (s.d + t.d),
    word (s.e + t.e), word (s.f + t.f), word (s.g + t.g), word (s.h + t.h)⟩

/-- Big-endian words of a byte string; a last partial word is dropped. -/
def words : Bytes → List Nat
  | a :: b :: c :: d :: rest =>
    (a.toNat * 16777216 + b.toNat * 65536 + c.toNat * 256 + d.toNat) :: words rest
  | _ => []

/-- The `len` low-order bytes of a number, most significant first. -/
def bigEndian : Nat → Nat → Bytes
  | 0, _ => []
  | len + 1, n => UInt8.ofNat (n / 256 ^ len % 256) :: bigEndian len n

/-- Padding to whole 64-byte blocks, the bit length in the last eight bytes. -/
def pad (message : Bytes) : Bytes :=
  message ++ 0x80 :: List.replicate ((119 - message.length % 64) % 64) 0 ++
    bigEndian 8 (8 * message.length)

/-- Fold the given number of blocks into the chaining value. -/
def blocks : Nat → List Nat → State → State
  | 0, _, s => s
  | n + 1, ws, s => blocks n (ws.drop 16) (s.add (rounds roundConstants (ws.take 16) s))

/-- Python's `hashlib.sha256(message).digest()`. -/
def sha256 (message : Bytes) : Bytes :=
  let padded := pad message
  let s := blocks (padded.length / 64) (words padded) initial
  bigEndian 4 s.a ++ bigEndian 4 s.b ++ bigEndian 4 s.c ++ bigEndian 4 s.d ++
    bigEndian 4 s.e ++ bigEndian 4 s.f ++ bigEndian 4 s.g ++ bigEndian 4 s.h

/-- A big-endian rendering has the requested width. -/
theorem length_bigEndian (len n : Nat) : (bigEndian len n).length = len := by
  induction len with
  | zero => rfl
  | succ len ih => simp only [bigEndian, List.length_cons, ih]

/-- Every digest has thirty-two bytes. -/
theorem length_sha256 (message : Bytes) : (sha256 message).length = 32 := by
  simp only [sha256, List.length_append, length_bigEndian]

/-- SHA-256 as a hash function into digests. -/
def digest : HashFn := fun message => ⟨sha256 message, length_sha256 message⟩

example : hex (sha256 [0x61, 0x62, 0x63]) =
    "ba7816bf8f01cfea414140de5dae2223b00361a396177a9cb410ff61f20015ad" := by decide +kernel

end SchemaBrain.Base.Sha256
