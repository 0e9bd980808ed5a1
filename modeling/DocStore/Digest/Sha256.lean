import DocStore.Bytes

/-!
SHA-256. The state of a digest under way takes bytes one at a time and compresses each block of
64, so that the digest of a byte string does not depend on how it was cut into pieces.
-/

namespace DocStore

namespace Sha256

/-- The round constants: the fractions of the cube roots of the first 64 primes. -/
def roundConstants : Array UInt32 := #[
   0x428A2F98, 0x71374491, 0xB5C0FBCF, 0xE9B5DBA5, 0x3956C25B, 0x59F111F1,
   0x923F82A4, 0xAB1C5ED5, 0xD807AA98, 0x12835B01, 0x243185BE, 0x550C7DC3,
   0x72BE5D74, 0x80DEB1FE, 0x9BDC06A7, 0xC19BF174, 0xE49B69C1, 0xEFBE4786,
   0x0FC19DC6, 0x240CA1CC, 0x2DE92C6F, 0x4A7484AA, 0x5CB0A9DC, 0x76F988DA,
   0x983E5152, 0xA831C66D, 0xB00327C8, 0xBF597FC7, 0xC6E00BF3, 0xD5A79147,
   0x06CA6351, 0x14292967, 0x27B70A85, 0x2E1B2138, 0x4D2C6DFC, 0x53380D13,
   0x650A7354, 0x766A0ABB, 0x81C2C92E, 0x92722C85, 0xA2BFE8A1, 0xA81A664B,
   0xC24B8B70, 0xC76C51A3, 0xD192E819, 0xD6990624, 0xF40E3585, 0x106AA070,
   0x19A4C116, 0x1E376C08, 0x2748774C, 0x34B0BCB5, 0x391C0CB3, 0x4ED8AA4A,
   0x5B9CCA4F, 0x682E6FF3, 0x748F82EE, 0x78A5636F, 0x84C87814, 0x8CC70208,
   0x90BEFFFA, 0xA4506CEB, 0xBEF9A3F7, 0xC67178F2]

/-- The eight words that a block is compressed into. -/
structure Chain where
  a : UInt32
  b : UInt32
  c : UInt32
  d : UInt32
  e : UInt32
  f : UInt32
  g : UInt32
  h : UInt32
deriving DecidableEq

namespace Chain

/-- The fractions of the square roots of the first eight primes. -/
def initial : Chain :=
  ⟨0x6A09E667, 0xBB67AE85, 0x3C6EF372, 0xA54FF53A,
    0x510E527F, 0x9B05688C, 0x1F83D9AB, 0x5BE0CD19⟩

/-- The sum of two chains, word by word. -/
def add (x y : Chain) : Chain :=
  ⟨x.a + y.a, x.b + y.b, x.c + y.c, x.d + y.d, x.e + y.e, x.f + y.f, x.g + y.g, x.h + y.h⟩

/-- The 32 bytes of a chain. -/
def bytes (x : Chain) : Bytes :=
  [x.a, x.b, x.c, x.d, x.e, x.f, x.g, x.h].flatMap fun word => Bytes.bigEndian 4 word.toNat

theorem length_bytes (x : Chain) : x.bytes.length = 32 := by
  simp [bytes, Bytes.bigEndian]

end Chain

def rotate (word n : UInt32) : UInt32 := word >>> n ||| word <<< (32 - n)

/-- The big-endian words of a block. -/
def blockWords : Bytes → List UInt32
  | a :: b :: c :: d :: rest => UInt32.ofNat (Bytes.bigValue [a, b, c, d]) :: blockWords rest
  | _ => []

/-- The next word of a schedule, computed from four earlier ones. -/
def nextScheduled (schedule : Array UInt32) : UInt32 :=
  let back (n : Nat) : UInt32 := schedule.getD (schedule.size - n) 0
  let near := back 2
  let far := back 15
  let s0 := rotate far 7 ^^^ rotate far 18 ^^^ far >>> 3
  let s1 := rotate near 17 ^^^ rotate near 19 ^^^ near >>> 10
  back 16 + s0 + back 7 + s1

/-- The 64 words that the rounds of a block use. -/
def schedule (block : Bytes) : Array UInt32 :=
  (List.range 48).foldl (fun words _ => words.push (nextScheduled words))
    (blockWords block).toArray

/-- One round with the sum of its constant and its scheduled word. -/
def round (x : Chain) (input : UInt32) : Chain :=
  let s1 := rotate x.e 6 ^^^ rotate x.e 11 ^^^ rotate x.e 25
  let choice := (x.e &&& x.f) ^^^ (~~~ x.e &&& x.g)
  let t1 := x.h + s1 + choice + input
  let s0 := rotate x.a 2 ^^^ rotate x.a 13 ^^^ rotate x.a 22
  let majority := (x.a &&& x.b) ^^^ (x.a &&& x.c) ^^^ (x.b &&& x.c)
  ⟨t1 + s0 + majority, x.a, x.b, x.c, x.d + t1, x.e, x.f, x.g⟩

def compress (chain : Chain) (block : Bytes) : Chain :=
  let inputs := Array.zipWith (· + ·) roundConstants (schedule block)
  chain.add (inputs.foldl round chain)

/-- A digest under way: the chain of all full blocks, the bytes after them, and how many bytes
were taken. -/
structure State where
  chain : Chain
  pending : Array UInt8
  length : Nat
deriving DecidableEq

namespace State

/-- No byte taken. -/
def initial : State := ⟨Chain.initial, #[], 0⟩

def push (s : State) (byte : UInt8) : State :=
  let pending := s.pending.push byte
  if pending.size = 64 then ⟨compress s.chain pending.toList, #[], s.length + 1⟩
  else ⟨s.chain, pending, s.length + 1⟩

def update (s : State) (bytes : Bytes) : State := bytes.foldl push s

/-- The bytes that end a message of `length` bytes: a one bit, zeros up to eight bytes before
the end of a block, and the number of bits. -/
def padding (length : Nat) : Bytes :=
  0x80 :: List.replicate ((119 - length % 64) % 64) 0 ++ Bytes.bigEndian 8 (length * 8)

def finish (s : State) : Bytes := (s.update (padding s.length)).chain.bytes

/-- Taking two pieces is taking them together. -/
theorem update_append (s : State) (first second : Bytes) :
    s.update (first ++ second) = (s.update first).update second := by
  simp [update]

end State

def width : Nat := 32

def digest (bytes : Bytes) : Bytes := (State.initial.update bytes).finish

def verify (bytes expected : Bytes) : Bool := expected.length == width && digest bytes == expected

theorem length_digest (bytes : Bytes) : (digest bytes).length = width :=
  Chain.length_bytes _

end Sha256

end DocStore
