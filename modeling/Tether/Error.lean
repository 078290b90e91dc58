/-! What can go wrong on a link, as causes. The wording of each cause is in one place, and two
questions are asked of an error by the code that meets it: has the connection gone, and is it worth
dialing again. -/
namespace Tether

/-- Why bytes are no command tag. -/
inductive TagFault
  | length (n : Nat)
  | characters
  | described (text : String)
deriving DecidableEq, Repr

def TagFault.message : TagFault → String
  | .length n => s!"tag length {n} not in 1..=12"
  | .characters => "tag must be printable ASCII without spaces"
  | .described text => text

inductive CipherFault
  | tooShort (n : Nat)
  | forged
  | described (text : String)
deriving DecidableEq, Repr

def CipherFault.message : CipherFault → String
  | .tooShort n => s!"sealed payload too short: {n} bytes"
  | .forged => "payload authentication failed"
  | .described text => text

/-- Breaches of the wire format, of the limits put on it, and of what a request's body must be. -/
inductive ProtocolFault
  | shortHeader (n : Nat)
  | badTag (fault : TagFault)
  | version (got : UInt8)
  | unknownFlags
  | chunkPosition (index total : UInt16)
  | framePayload (size : UInt32) (limit : UInt64)
  | sealedPayload (fault : CipherFault)
  | unsealedFrame
  | sealedFrame
  | messageSize (size : UInt32) (limit : UInt64)
  | restarted (counter : UInt32)
  | wholeLength (counter : UInt32) (got : Nat) (declared : UInt32)
  | capacity (counter : UInt32) (size : UInt32) (chunks : UInt16)
  | tooManyPartial (limit : UInt64)
  | noFirstChunk (index : UInt16) (counter : UInt32)
  | disagreement (counter : UInt32)
  | chunkOrder (counter : UInt32) (expected got : UInt16)
  | overrun (counter : UInt32) (declared : UInt32)
  | finalLength (counter : UInt32) (got : Nat) (declared : UInt32)
  | outstanding (counter : UInt32)
  | fileBodyShort
  | fileNameTruncated (n : Nat)
  | fileNameEncoding
  | fileNameInvalid (name : String)
  | noEvents (detail : String)
  | described (text : String)
deriving DecidableEq, Repr

def ProtocolFault.message : ProtocolFault → String
  | .shortHeader n => s!"short header: {n} bytes"
  | .badTag fault => s!"invalid command tag: {fault.message}"
  | .version got => s!"header version mismatch: expected 1, got {got}"
  | .unknownFlags => "unknown frame flags"
  | .chunkPosition index total => s!"invalid chunk {index}/{total}"
  | .framePayload size limit => s!"frame payload of {size} bytes exceeds limit {limit}"
  | .sealedPayload fault => s!"cipher error: {fault.message}"
  | .unsealedFrame => "plaintext frame received on an encrypted connection"
  | .sealedFrame => "encrypted frame received but no cluster key is configured"
  | .messageSize size limit => s!"message of {size} bytes exceeds limit {limit}"
  | .restarted c => s!"counter {c} restarted before its previous message completed"
  | .wholeLength c got declared => s!"counter {c}: got {got} bytes, header declared {declared}"
  | .capacity c size chunks => s!"counter {c}: {size} bytes cannot fit in {chunks} chunks"
  | .tooManyPartial limit => s!"more than {limit} messages in flight"
  | .noFirstChunk index c => s!"chunk {index} for counter {c} without a first chunk"
  | .disagreement c => s!"chunk header for counter {c} disagrees with its first chunk"
  | .chunkOrder c expected got => s!"counter {c}: expected chunk {expected}, got {got}"
  | .overrun c declared => s!"counter {c}: received more bytes than the declared {declared}"
  | .finalLength c got declared => s!"counter {c}: reassembled {got} bytes, header declared {declared}"
  | .outstanding c => s!"counter {c} is still outstanding"
  | .fileBodyShort => "file body shorter than its name length"
  | .fileNameTruncated n => s!"file name of {n} bytes truncated"
  | .fileNameEncoding => "file name is not UTF-8"
  | .fileNameInvalid name => s!"invalid file name '{name}'"
  | .noEvents detail => s!"batch body is not a message array: {detail}"
  | .described text => text

/-- Settings that cannot be used, and values that no setting allows. -/
inductive ConfigFault
  | chunkSizeZero
  | partialLimitZero
  | noCipherRoom (chunkSize limit : UInt64)
  | keyTooShort
  | fileNameLength (n : Nat)
  | noFileName (path : String)
  | fileNameTooLong
  | described (text : String)
deriving DecidableEq, Repr

def ConfigFault.message : ConfigFault → String
  | .chunkSizeZero => "chunk_size must be positive"
  | .partialLimitZero => "max_partial_messages must be positive"
  | .noCipherRoom chunk limit =>
    s!"chunk_size {chunk} leaves no room for the cipher overhead within max_frame_payload {limit}"
  | .keyTooShort => "cluster key must be at least 16 characters"
  | .fileNameLength n => s!"file name length {n} not in 1..=65535"
  | .noFileName path => s!"{path} has no usable file name"
  | .fileNameTooLong => "file name too long"
  | .described text => text

/-- Refusals of the operating system and of a stream's reader. -/
inductive IoFault
  | notFound
  | isDirectory
  | notDirectory
  | alreadyExists
  | nameTooLong
  | nulInPath
  | brokenPipe
  | trailingBytes
  | invalidText
  | described (text : String)
deriving DecidableEq, Repr

def IoFault.message : IoFault → String
  | .notFound => "No such file or directory (os error 2)"
  | .isDirectory => "Is a directory (os error 21)"
  | .notDirectory => "Not a directory (os error 20)"
  | .alreadyExists => "File exists (os error 17)"
  | .nameTooLong => "File name too long (os error 36)"
  | .nulInPath => "file name contained an unexpected NUL byte"
  | .brokenPipe => "broken pipe"
  | .trailingBytes => "bytes remaining on stream"
  | .invalidText => "stream did not contain valid UTF-8"
  | .described text => text

inductive LinkError
  | refused (addr : String)
  | dialTimeout (addr : String) (ms : UInt64)
  | lost (reason : String)
  | protocol (fault : ProtocolFault)
  | handshake (message : String)
  | application (message : String)
  | keepaliveExhausted (missed : UInt32)
  | notReady (phase : String)
  | requestTimeout (counter : UInt32) (ms : UInt64)
  | payloadTooLarge (size limit : Nat)
  | invalidTag (fault : TagFault)
  | cipher (fault : CipherFault)
  | tls (reason : String)
  | unknownPeer (name : String)
  | config (fault : ConfigFault)
  | io (fault : IoFault)
deriving DecidableEq, Repr

namespace LinkError

def message : LinkError → String
  | .refused addr => s!"connection refused to {addr}"
  | .dialTimeout addr ms => s!"connection timeout after {ms}ms to {addr}"
  | .lost reason => s!"transport closed: {reason}"
  | .protocol fault => s!"protocol error: {fault.message}"
  | .handshake message => s!"handshake rejected by peer: {message}"
  | .application message => s!"remote error: {message}"
  | .keepaliveExhausted missed => s!"keepalive exhausted after {missed} consecutive failures"
  | .notReady phase => s!"connection not ready (state: {phase})"
  | .requestTimeout counter ms => s!"request {counter} timed out after {ms}ms"
  | .payloadTooLarge size limit => s!"payload too large: {size} bytes (max {limit})"
  | .invalidTag fault => s!"invalid command tag: {fault.message}"
  | .cipher fault => s!"cipher error: {fault.message}"
  | .tls reason => s!"TLS handshake failed: {reason}"
  | .unknownPeer name => s!"no connected client named {name}"
  | .config fault => s!"configuration error: {fault.message}"
  | .io fault => fault.message

/-- The connection has gone, with whatever was in flight on it. -/
def isLost : LinkError → Bool
  | .lost _ => true
  | _ => false

/-- The connection failed, and dialing again may help. -/
def isTransport : LinkError → Bool
  | .refused _ | .dialTimeout .. | .lost _ | .protocol _ | .handshake _ | .keepaliveExhausted _
  | .tls _ | .io _ => true
  | _ => false

end LinkError
end Tether
