import Tether.Digest.Sha256

/-! Keys from a shared secret: HMAC over SHA-256, and the extract-and-expand scheme built on it. -/
namespace Tether.Hkdf

def blockSize : Nat := 64

def hmac (key message : List UInt8) : List UInt8 :=
  let key := if blockSize < key.length then Sha256.digest key else key
  let key := key ++ List.replicate (blockSize - key.length) 0
  Sha256.digest (key.map (· ^^^ 0x5c) ++ Sha256.digest (key.map (· ^^^ 0x36) ++ message))

def extract (salt secret : List UInt8) : List UInt8 := hmac salt secret

/-- The first thirty-two bytes of output; one round of the chain gives them. -/
def expand (key info : List UInt8) : List UInt8 := hmac key (info ++ [1])

end Tether.Hkdf
