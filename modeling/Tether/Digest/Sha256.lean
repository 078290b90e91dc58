import Tether.Text.Hex

/-! SHA-256: the message is padded to blocks of sixteen words, and each block is mixed into eight
chaining words by sixty-four rounds. -/
namespace Tether.Sha256

structure Chain where
  a : UInt32
  b : UInt32
  c : UInt32
  d : UInt32
  e : UInt32
  f : UInt32
  g : UInt32
  h : UInt32
deriving DecidableEq, Repr

def initial : Chain :=
  ⟨0x6a09e667,0xbb67ae85,0x3c6ef372,0xa54ff53a,0x510e527f,0x9b05688c,0x1f83d9ab,0x5be0cd19⟩

/-- The first thirty-two bits of the fractional parts of the cube roots of the first primes. -/
def roundConstants : Array UInt32 := #[
  0x428a2f98,0x71374491,0xb5c0fbcf,0xe9b5dba5,0x3956c25b,0x59f111f1,0x923f82a4,0xab1c5ed5,
  0xd807aa98,0x12835b01,0x243185be,0x550c7dc3,0x72be5d74,0x80deb1fe,0x9bdc06a7,0xc19bf174,
  0xe49b69c1,0xefbe4786,0x0fc19dc6,0x240ca1cc,0x2de92c6f,0x4a7484aa,0x5cb0a9dc,0x76f988da,
  0x983e5152,0xa831c66d,0xb00327c8,0xbf597fc7,0xc6e00bf3,0xd5a79147,0x06ca6351,0x14292967,
  0x27b70a85,0x2e1b2138,0x4d2c6dfc,0x53380d13,0x650a7354,0x766a0abb,0x81c2c92e,0x92722c85,
  0xa2bfe8a1,0xa81a664b,0xc24b8b70,0xc76c51a3,0xd192e819,0xd6990624,0xf40e3585,0x106aa070,
  0x19a4c116,0x1e376c08,0x2748774c,0x34b0bcb5,0x391c0cb3,0x4ed8aa4a,0x5b9cca4f,0x682e6ff3,
  0x748f82ee,0x78a5636f,0x84c87814,0x8cc70208,0x90befffa,0xa4506ceb,0xbef9a3f7,0xc67178f2]

def rotate (x : UInt32) (n : UInt32) : UInt32 := x >>> n ||| x <<< (32 - n)

/-- The sixty-four words of a block: sixteen given ones, each later one from four before it. -/
def schedule (block : Array UInt32) : Array UInt32 :=
  (List.range 48).foldl (fun w i =>
    let x := w.getD (i + 1) 0
    let y := w.getD (i + 14) 0
    let s := rotate x 7 ^^^ rotate x 18 ^^^ x >>> 3
    let t := rotate y 17 ^^^ rotate y 19 ^^^ y >>> 10
    w.push (w.getD i 0 + s + w.getD (i + 9) 0 + t)) block

def round (s : Chain) (constant word : UInt32) : Chain :=
  let big := rotate s.e 6 ^^^ rotate s.e 11 ^^^ rotate s.e 25
  let choice := (s.e &&& s.f) ^^^ (~~~s.e &&& s.g)
  let t := s.h + big + choice + constant + word
  let small := rotate s.a 2 ^^^ rotate s.a 13 ^^^ rotate s.a 22
  let majority := (s.a &&& s.b) ^^^ (s.a &&& s.c) ^^^ (s.b &&& s.c)
  ⟨t + small + majority,s.a,s.b,s.c,s.d + t,s.e,s.f,s.g⟩

def compress (s : Chain) (block : Array UInt32) : Chain :=
  let w := schedule block
  let r := (List.range 64).foldl (fun r i => round r (roundConstants.getD i 0) (w.getD i 0)) s
  ⟨s.a + r.a,s.b + r.b,s.c + r.c,s.d + r.d,s.e + r.e,s.f + r.f,s.g + r.g,s.h + r.h⟩

def wordBytes (w : UInt32) : List UInt8 :=
  [(w >>> 24).toUInt8,(w >>> 16).toUInt8,(w >>> 8).toUInt8,w.toUInt8]

def pushWords (words : Array UInt32) : List UInt8 → Array UInt32
  | a :: b :: c :: d :: rest =>
    pushWords (words.push
      (a.toUInt32 <<< 24 ||| b.toUInt32 <<< 16 ||| c.toUInt32 <<< 8 ||| d.toUInt32)) rest
  | _ => words

/-- One bit, zeros, and the length in bits as eight bytes, up to a multiple of sixty-four. -/
def padding (length : Nat) : List UInt8 :=
  let zeros := (119 - length % 64) % 64
  let bits := UInt64.ofNat (8 * length)
  0x80 :: (List.replicate zeros (0 : UInt8)
    ++ wordBytes (bits >>> 32).toUInt32 ++ wordBytes bits.toUInt32)

/-- Mixes in whole blocks from the front of the bytes. -/
def absorb (s : Chain) (bytes : List UInt8) : Nat → Chain
  | 0 => s
  | blocks + 1 =>
    let (block,rest) := bytes.splitAt 64
    absorb (compress s (pushWords #[] block)) rest blocks

def Chain.bytes (s : Chain) : List UInt8 :=
  [s.a,s.b,s.c,s.d,s.e,s.f,s.g,s.h].flatMap wordBytes

def digest (bytes : List UInt8) : List UInt8 :=
  let padded := bytes ++ padding bytes.length
  (absorb initial padded (padded.length / 64)).bytes

def hex (bytes : List UInt8) : String := Hex.encode (digest bytes)

end Tether.Sha256
