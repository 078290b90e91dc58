import Tether.Arithmetic
import Tether.Error

/-! What a connection lets through: how much plaintext a frame carries, how large a frame or a message
may be, and how many messages may be half received. What takes a sum or a product of words is told for
either build, and under its own name for a release build. -/
namespace Tether

structure Limits where
  chunkSize : UInt64 := 65536
  framePayload : UInt64 := 4194304
  messageSize : UInt64 := 268435456
  partialMessages : UInt64 := 64
deriving DecidableEq, Repr, Inhabited

namespace Limits

/-- What sealing adds to a payload: a nonce of twelve bytes and a tag of sixteen. -/
def sealOverhead : UInt64 := 28

def validateIn (m : Type → Type) [Monad m] [Arithmetic m] (limits : Limits) :
    m (Except ConfigFault Unit) :=
  if limits.chunkSize = 0 then pure (.error .chunkSizeZero)
  else if limits.partialMessages = 0 then pure (.error .partialLimitZero)
  else do
    let room ← Arithmetic.add limits.chunkSize sealOverhead
    if limits.framePayload < room then
      pure (.error (.noCipherRoom limits.chunkSize limits.framePayload))
    else pure (.ok ())

def validate (limits : Limits) : Except ConfigFault Unit := limits.validateIn Wrapping

def wordMax : Nat := UInt32.size - 1
def chunksMax : Nat := UInt16.size - 1

/-- The largest message that the chunk count and the length field can express. -/
def messageMaxIn (m : Type → Type) [Monad m] [Arithmetic m] (limits : Limits) : m Nat := do
  let most ← Arithmetic.mul limits.chunkSize 65535
  pure (min most.toNat wordMax)

def messageMax (limits : Limits) : Nat := limits.messageMaxIn Wrapping

/-- As many chunks as hold `length` bytes; an empty message has one. -/
def neededIn (m : Type → Type) [Monad m] [Arithmetic m] (limits : Limits) (length : Nat) : m Nat :=
  if length = 0 then pure 1 else Arithmetic.divCeil length limits.chunkSize

/-- The number of frames for a message of `length` bytes. -/
def chunkCountIn (m : Type → Type) [Monad m] [Arithmetic m] (limits : Limits) (length : Nat) :
    m (Except LinkError UInt16) := do
  let chunks ← limits.neededIn m length
  if chunksMax < chunks ∨ wordMax < length then do
    let most ← limits.messageMaxIn m
    pure (.error (.payloadTooLarge length most))
  else pure (.ok (UInt16.ofNat chunks))

def chunkCount (limits : Limits) (length : Nat) : Except LinkError UInt16 :=
  limits.chunkCountIn Wrapping length

end Limits
end Tether
