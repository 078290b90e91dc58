import Tether.Cipher.Gcm
import Tether.Digest.Hkdf
import Tether.Error

/-! Sealed payloads: nonce, ciphertext and tag in a row, under a key derived from the secret that the
nodes of a cluster share. A codec sees a cipher only through sealing and opening. -/
namespace Tether

/-- What a codec needs of a cipher. Each sealing is given a nonce of its own. -/
structure Cipher where
  sealWith : List UInt8 → List UInt8 → List UInt8
  openWith : List UInt8 → Except CipherFault (List UInt8)

/-- The 256 bits that payloads are sealed under. -/
structure PayloadKey where
  bytes : List UInt8
deriving DecidableEq

namespace PayloadKey

def salt : List UInt8 := "nodelink-cluster".toUTF8.toList
def info : List UInt8 := "payload-key-v1".toUTF8.toList

/-- The key of a shared secret, which must have at least sixteen bytes. -/
def derive (secret : String) : Except ConfigFault PayloadKey :=
  if secret.utf8ByteSize < 16 then .error .keyTooShort
  else .ok ⟨Hkdf.expand (Hkdf.extract salt secret.toUTF8.toList) info⟩

def redacted : String := "CipherKey([REDACTED])"

end PayloadKey

namespace Cipher

def overhead : Nat := Gcm.nonceSize + Gcm.tagSize

def ofKey (key : PayloadKey) : Cipher :=
  let keys := Aes.roundKeys key.bytes
  { sealWith := fun nonce plain => nonce ++ Gcm.encrypt keys nonce plain
    openWith := fun sealed =>
      if sealed.length < overhead then .error (.tooShort sealed.length)
      else match Gcm.decrypt? keys (sealed.take Gcm.nonceSize) (sealed.drop Gcm.nonceSize) with
        | some plain => .ok plain
        | none => .error .forged }

def ofSecret (secret : String) : Except ConfigFault Cipher := (PayloadKey.derive secret).map ofKey

end Cipher
end Tether
