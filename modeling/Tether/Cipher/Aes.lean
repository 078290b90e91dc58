/-! AES with a key of 256 bits, in the encrypting direction. A block is its sixteen bytes, column by
column; the key is stretched to fifteen round keys. -/
namespace Tether.Aes

/-- The inverse in the field of 256 elements, followed by a fixed affine map. -/
def substitution : Array UInt8 := #[
  0x63,0x7c,0x77,0x7b,0xf2,0x6b,0x6f,0xc5,0x30,0x01,0x67,0x2b,0xfe,0xd7,0xab,0x76,
  0xca,0x82,0xc9,0x7d,0xfa,0x59,0x47,0xf0,0xad,0xd4,0xa2,0xaf,0x9c,0xa4,0x72,0xc0,
  0xb7,0xfd,0x93,0x26,0x36,0x3f,0xf7,0xcc,0x34,0xa5,0xe5,0xf1,0x71,0xd8,0x31,0x15,
  0x04,0xc7,0x23,0xc3,0x18,0x96,0x05,0x9a,0x07,0x12,0x80,0xe2,0xeb,0x27,0xb2,0x75,
  0x09,0x83,0x2c,0x1a,0x1b,0x6e,0x5a,0xa0,0x52,0x3b,0xd6,0xb3,0x29,0xe3,0x2f,0x84,
  0x53,0xd1,0x00,0xed,0x20,0xfc,0xb1,0x5b,0x6a,0xcb,0xbe,0x39,0x4a,0x4c,0x58,0xcf,
  0xd0,0xef,0xaa,0xfb,0x43,0x4d,0x33,0x85,0x45,0xf9,0x02,0x7f,0x50,0x3c,0x9f,0xa8,
  0x51,0xa3,0x40,0x8f,0x92,0x9d,0x38,0xf5,0xbc,0xb6,0xda,0x21,0x10,0xff,0xf3,0xd2,
  0xcd,0x0c,0x13,0xec,0x5f,0x97,0x44,0x17,0xc4,0xa7,0x7e,0x3d,0x64,0x5d,0x19,0x73,
  0x60,0x81,0x4f,0xdc,0x22,0x2a,0x90,0x88,0x46,0xee,0xb8,0x14,0xde,0x5e,0x0b,0xdb,
  0xe0,0x32,0x3a,0x0a,0x49,0x06,0x24,0x5c,0xc2,0xd3,0xac,0x62,0x91,0x95,0xe4,0x79,
  0xe7,0xc8,0x37,0x6d,0x8d,0xd5,0x4e,0xa9,0x6c,0x56,0xf4,0xea,0x65,0x7a,0xae,0x08,
  0xba,0x78,0x25,0x2e,0x1c,0xa6,0xb4,0xc6,0xe8,0xdd,0x74,0x1f,0x4b,0xbd,0x8b,0x8a,
  0x70,0x3e,0xb5,0x66,0x48,0x03,0xf6,0x0e,0x61,0x35,0x57,0xb9,0x86,0xc1,0x1d,0x9e,
  0xe1,0xf8,0x98,0x11,0x69,0xd9,0x8e,0x94,0x9b,0x1e,0x87,0xe9,0xce,0x55,0x28,0xdf,
  0x8c,0xa1,0x89,0x0d,0xbf,0xe6,0x42,0x68,0x41,0x99,0x2d,0x0f,0xb0,0x54,0xbb,0x16]

def substitute (b : UInt8) : UInt8 := substitution.getD b.toNat 0

def double (b : UInt8) : UInt8 := if b < 0x80 then b <<< 1 else b <<< 1 ^^^ 0x1b

/-- Four bytes of the key schedule. -/
structure Column where
  a : UInt8
  b : UInt8
  c : UInt8
  d : UInt8
deriving DecidableEq, Repr, Inhabited

namespace Column

def add (x y : Column) : Column := ⟨x.a ^^^ y.a,x.b ^^^ y.b,x.c ^^^ y.c,x.d ^^^ y.d⟩

def substitute (x : Column) : Column :=
  ⟨Aes.substitute x.a,Aes.substitute x.b,Aes.substitute x.c,Aes.substitute x.d⟩

def turn (x : Column) : Column := ⟨x.b,x.c,x.d,x.a⟩

/-- The product with the fixed matrix of ones, twos and threes. -/
def mix (x : Column) : Column :=
  let all := x.a ^^^ x.b ^^^ x.c ^^^ x.d
  ⟨x.a ^^^ all ^^^ double (x.a ^^^ x.b),x.b ^^^ all ^^^ double (x.b ^^^ x.c),
   x.c ^^^ all ^^^ double (x.c ^^^ x.d),x.d ^^^ all ^^^ double (x.d ^^^ x.a)⟩

def bytes (x : Column) : List UInt8 := [x.a,x.b,x.c,x.d]

end Column

structure Block where
  p : Column
  q : Column
  r : Column
  s : Column
deriving DecidableEq, Repr, Inhabited

namespace Block

def bytes (x : Block) : List UInt8 := x.p.bytes ++ x.q.bytes ++ x.r.bytes ++ x.s.bytes

def add (x y : Block) : Block := ⟨x.p.add y.p,x.q.add y.q,x.r.add y.r,x.s.add y.s⟩

def shiftRows (x : Block) : Block :=
  ⟨⟨x.p.a,x.q.b,x.r.c,x.s.d⟩,⟨x.q.a,x.r.b,x.s.c,x.p.d⟩,
   ⟨x.r.a,x.s.b,x.p.c,x.q.d⟩,⟨x.s.a,x.p.b,x.q.c,x.r.d⟩⟩

def substitute (x : Block) : Block :=
  ⟨x.p.substitute,x.q.substitute,x.r.substitute,x.s.substitute⟩

def mix (x : Block) : Block := ⟨x.p.mix,x.q.mix,x.r.mix,x.s.mix⟩

end Block

def columns : List UInt8 → List Column
  | a :: b :: c :: d :: rest => ⟨a,b,c,d⟩ :: columns rest
  | _ => []

/-- The block at the front of the bytes; missing ones count as zero. -/
def block (bytes : List UInt8) : Block :=
  match columns (bytes.take 16 ++ List.replicate (16 - bytes.length) 0) with
  | [p,q,r,s] => ⟨p,q,r,s⟩
  | _ => default

def roundMarks : List UInt8 := [0x01,0x02,0x04,0x08,0x10,0x20,0x40]

/-- Eight more columns of the schedule from the last eight. -/
def stretch (mark : UInt8) (k : Array Column) : Array Column :=
  (List.range 8).foldl (fun k i =>
    let last := k.getD (k.size - 1) default
    let step :=
      if i = 0 then last.turn.substitute.add ⟨mark,0,0,0⟩
      else if i = 4 then last.substitute
      else last
    k.push ((k.getD (k.size - 8) default).add step)) k

/-- The fifteen round keys of a key of thirty-two bytes. -/
def roundKeys (key : List UInt8) : List Block :=
  let k := roundMarks.foldl (fun k mark => stretch mark k) (columns key).toArray
  (List.range 15).map fun i =>
    ⟨k.getD (4 * i) default,k.getD (4 * i + 1) default,
     k.getD (4 * i + 2) default,k.getD (4 * i + 3) default⟩

/-- Substitution, shifted rows, mixed columns but for the last round, and the round key. -/
def rounds : List Block → Block → Block
  | [], x => x
  | [last], x => x.substitute.shiftRows.add last
  | k :: rest, x => rounds rest (x.substitute.shiftRows.mix.add k)

def encrypt (keys : List Block) (x : Block) : Block :=
  match keys with
  | [] => x
  | k :: rest => rounds rest (x.add k)

end Tether.Aes
