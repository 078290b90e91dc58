import Tether.Cipher.Aes

/-! AES-256 in Galois/counter mode with nonces of twelve bytes, tags of sixteen and no associated
data. The text is added to a key stream from a counter; the tag is a polynomial hash of the
ciphertext and its length, masked by the first block of the stream. -/
namespace Tether.Gcm

def tagSize : Nat := 16
def nonceSize : Nat := 12

/-- An element of the field of 2^128 elements, the coefficient of the constant term first. -/
structure Element where
  high : UInt64
  low : UInt64
deriving DecidableEq, Repr

namespace Element

def zero : Element := ⟨0,0⟩

def add (x y : Element) : Element := ⟨x.high ^^^ y.high,x.low ^^^ y.low⟩

def shift (x : Element) : Element :=
  let high := x.high >>> 1
  let low := x.low >>> 1 ||| x.high <<< 63
  ⟨if x.low &&& 1 = 0 then high else high ^^^ 0xE100000000000000,low⟩

/-- Adds the shifted second factor for each set bit of a word, from the highest bit down. -/
def mulWord (word : UInt64) (acc : Element × Element) : Element × Element :=
  (List.range 64).foldl (fun (z,v) i =>
    (if word >>> (63 - UInt64.ofNat i) &&& 1 = 0 then z else z.add v,v.shift)) acc

def mul (x y : Element) : Element := (mulWord x.low (mulWord x.high (zero,y))).1

def ofBytes (bytes : List UInt8) : Element :=
  let word (bytes : List UInt8) : UInt64 := bytes.foldl (fun w b => w <<< 8 ||| b.toUInt64) 0
  let bytes := bytes ++ List.replicate (16 - bytes.length) 0
  ⟨word (bytes.take 8),word (bytes.drop 8)⟩

def bytes (x : Element) : List UInt8 :=
  let word (w : UInt64) : List UInt8 :=
    (List.range 8).map fun i => (w >>> (56 - 8 * UInt64.ofNat i)).toUInt8
  word x.high ++ word x.low

end Element

/-- Hashes blocks from the front of the bytes, the last one filled up with zeros. -/
def hashBlocks (key : Element) (bytes : List UInt8) (acc : Element) : Nat → Element
  | 0 => acc
  | blocks + 1 =>
    let (block,rest) := bytes.splitAt 16
    hashBlocks key rest ((acc.add (.ofBytes block)).mul key) blocks

def hash (key : Element) (text : List UInt8) : Element :=
  let acc := hashBlocks key text .zero ((text.length + 15) / 16)
  (acc.add ⟨0,UInt64.ofNat (8 * text.length)⟩).mul key

def counterBytes (n : UInt32) : List UInt8 :=
  [(n >>> 24).toUInt8,(n >>> 16).toUInt8,(n >>> 8).toUInt8,n.toUInt8]

def streamBlock (keys : List Aes.Block) (nonce : List UInt8) (n : UInt32) : List UInt8 :=
  (Aes.encrypt keys (Aes.block (nonce ++ counterBytes n))).bytes

/-- The bytes added to the key stream from a counter on; the result is put in front of `done`,
last byte first. -/
def streamOnto (keys : List Aes.Block) (nonce : List UInt8) (n : UInt32) (bytes : List UInt8)
    (done : List UInt8) : Nat → List UInt8
  | 0 => done.reverse
  | blocks + 1 =>
    let (block,rest) := bytes.splitAt 16
    let mixed := (block.zip (streamBlock keys nonce n)).foldl (fun done (a,b) => (a ^^^ b) :: done) done
    streamOnto keys nonce (n + 1) rest mixed blocks

def stream (keys : List Aes.Block) (nonce bytes : List UInt8) : List UInt8 :=
  streamOnto keys nonce 2 bytes [] ((bytes.length + 15) / 16)

def tag (keys : List Aes.Block) (nonce cipherText : List UInt8) : List UInt8 :=
  let key := Element.ofBytes (Aes.encrypt keys (Aes.block [])).bytes
  let mask := Element.ofBytes (streamBlock keys nonce 1)
  ((hash key cipherText).add mask).bytes

def encrypt (keys : List Aes.Block) (nonce plain : List UInt8) : List UInt8 :=
  let text := stream keys nonce plain
  text ++ tag keys nonce text

/-- The plaintext, if the last sixteen bytes are the tag of those before them. -/
def decrypt? (keys : List Aes.Block) (nonce sealed : List UInt8) : Option (List UInt8) :=
  let (text,found) := sealed.splitAt (sealed.length - tagSize)
  if found = tag keys nonce text then some (stream keys nonce text) else none

end Tether.Gcm
