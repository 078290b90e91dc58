import Mathlib.Tactic.Common
import Tether.Cipher.Payload

/-! What a codec relies on in a cipher, and that the cipher of a key keeps it. Nothing is said about
secrecy: opening undoes sealing because the key stream is added twice and the tag is computed from the
same text. -/
namespace Tether

namespace Gcm

/-- The key stream added block by block, without an accumulator. -/
def mixBlocks (keys : List Aes.Block) (nonce : List UInt8) (n : UInt32) (bytes : List UInt8) :
    Nat → List UInt8
  | 0 => []
  | blocks + 1 =>
    List.zipWith (· ^^^ ·) (bytes.take 16) (streamBlock keys nonce n)
      ++ mixBlocks keys nonce (n + 1) (bytes.drop 16) blocks

@[simp] theorem length_streamBlock (keys : List Aes.Block) (nonce : List UInt8) (n : UInt32) :
    (streamBlock keys nonce n).length = 16 := rfl

theorem foldl_mix (block key done : List UInt8) :
    (block.zip key).foldl (fun done (a,b) => (a ^^^ b) :: done) done =
      (List.zipWith (· ^^^ ·) block key).reverse ++ done := by
  induction block generalizing key done with
  | nil => rfl
  | cons a block ih =>
    cases key with
    | nil => rfl
    | cons b key => simp [ih]

theorem streamOnto_eq (keys : List Aes.Block) (nonce : List UInt8) (n : UInt32)
    (bytes done : List UInt8) (blocks : Nat) :
    streamOnto keys nonce n bytes done blocks = done.reverse ++ mixBlocks keys nonce n bytes blocks := by
  induction blocks generalizing n bytes done with
  | zero => simp [streamOnto,mixBlocks]
  | succ blocks ih =>
    simp only [streamOnto,List.splitAt_eq,foldl_mix,ih,mixBlocks,List.reverse_append,
      List.reverse_reverse,List.append_assoc]

theorem length_mixBlocks (keys : List Aes.Block) (nonce : List UInt8) (n : UInt32)
    (bytes : List UInt8) (blocks : Nat) (h : bytes.length ≤ 16*blocks) :
    (mixBlocks keys nonce n bytes blocks).length = bytes.length := by
  induction blocks generalizing n bytes with
  | zero => simpa [mixBlocks,eq_comm] using h
  | succ blocks ih =>
    have hrest := ih (n+1) (bytes.drop 16) (by rw [List.length_drop]; omega)
    simp only [mixBlocks,List.length_append,List.length_zipWith,List.length_take,length_streamBlock,
      hrest,List.length_drop]
    omega

theorem zipWith_xor_twice (block key : List UInt8) (h : block.length ≤ key.length) :
    List.zipWith (· ^^^ ·) (List.zipWith (· ^^^ ·) block key) key = block := by
  induction block generalizing key with
  | nil => rfl
  | cons a block ih =>
    cases key with
    | nil => simp at h
    | cons b key =>
      have hhead : a ^^^ b ^^^ b = a := by rw [UInt8.xor_assoc,UInt8.xor_self,UInt8.xor_zero]
      have hrest := ih key (by simpa using h)
      rw [List.zipWith_cons_cons,List.zipWith_cons_cons,hhead,hrest]

/-- Adding the same key stream twice gives the text back. -/
theorem mixBlocks_twice (keys : List Aes.Block) (nonce : List UInt8) (n : UInt32)
    (bytes : List UInt8) (blocks : Nat) (h : bytes.length ≤ 16*blocks) :
    mixBlocks keys nonce n (mixBlocks keys nonce n bytes blocks) blocks = bytes := by
  induction blocks generalizing n bytes with
  | zero => simpa [mixBlocks,eq_comm] using h
  | succ blocks ih =>
    let front := List.zipWith (· ^^^ ·) (bytes.take 16) (streamBlock keys nonce n)
    let rest := mixBlocks keys nonce (n+1) (bytes.drop 16) blocks
    have hdrop : (bytes.drop 16).length ≤ 16*blocks := by rw [List.length_drop]; omega
    have hrest : rest.length = (bytes.drop 16).length := length_mixBlocks _ _ _ _ _ hdrop
    have hfront : front.length = min 16 bytes.length := by simp [front,Nat.min_comm]
    have hsplit : (front ++ rest).take 16 = front ∧ (front ++ rest).drop 16 = rest := by
      by_cases hlong : 16 ≤ bytes.length
      · have h16 : front.length = 16 := by omega
        exact ⟨List.take_left' h16,List.drop_left' h16⟩
      · have hnil : rest = [] := List.length_eq_zero_iff.mp (by rw [hrest,List.length_drop]; omega)
        have hshort : front.length ≤ 16 := by omega
        simp [hnil,List.take_of_length_le hshort,List.drop_of_length_le hshort]
    change List.zipWith (· ^^^ ·) ((front ++ rest).take 16) (streamBlock keys nonce n)
      ++ mixBlocks keys nonce (n+1) ((front ++ rest).drop 16) blocks = bytes
    have htake : (bytes.take 16).length ≤ (streamBlock keys nonce n).length := by
      rw [length_streamBlock]
      exact List.length_take_le ..
    rw [hsplit.1,hsplit.2,zipWith_xor_twice _ _ htake,ih (n+1) _ hdrop,List.take_append_drop]

theorem stream_eq (keys : List Aes.Block) (nonce bytes : List UInt8) :
    stream keys nonce bytes = mixBlocks keys nonce 2 bytes ((bytes.length + 15)/16) := by
  simp [stream,streamOnto_eq]

@[simp] theorem length_stream (keys : List Aes.Block) (nonce bytes : List UInt8) :
    (stream keys nonce bytes).length = bytes.length := by
  rw [stream_eq,length_mixBlocks _ _ _ _ _ (by omega)]

theorem stream_stream (keys : List Aes.Block) (nonce bytes : List UInt8) :
    stream keys nonce (stream keys nonce bytes) = bytes := by
  rw [stream_eq keys nonce (stream keys nonce bytes),length_stream,stream_eq,
    mixBlocks_twice _ _ _ _ _ (by omega)]

@[simp] theorem length_tag (keys : List Aes.Block) (nonce text : List UInt8) :
    (tag keys nonce text).length = tagSize := by
  simp [tag,Element.bytes,tagSize]

@[simp] theorem length_encrypt (keys : List Aes.Block) (nonce plain : List UInt8) :
    (encrypt keys nonce plain).length = plain.length + tagSize := by
  simp [encrypt]

theorem decrypt_encrypt (keys : List Aes.Block) (nonce plain : List UInt8) :
    decrypt? keys nonce (encrypt keys nonce plain) = some plain := by
  have hlen : (encrypt keys nonce plain).length - tagSize = (stream keys nonce plain).length := by
    simp
  simp only [decrypt?,hlen,List.splitAt_eq]
  simp only [encrypt,List.take_left,List.drop_left,if_true,stream_stream]

end Gcm

namespace Cipher

/-- With a nonce of twelve bytes, sealing adds twenty-eight bytes and opening undoes it. -/
structure Sound (cipher : Cipher) : Prop where
  length_seal : ∀ nonce piece, nonce.length = Gcm.nonceSize →
    (cipher.sealWith nonce piece).length = piece.length + overhead
  open_seal : ∀ nonce piece, nonce.length = Gcm.nonceSize →
    cipher.openWith (cipher.sealWith nonce piece) = .ok piece

theorem ofKey_sound (key : PayloadKey) : (ofKey key).Sound where
  length_seal nonce piece hn := by
    simp only [ofKey,overhead,List.length_append,Gcm.length_encrypt,hn]
    omega
  open_seal nonce piece hn := by
    have hlen : ¬ (nonce ++ Gcm.encrypt (Aes.roundKeys key.bytes) nonce piece).length < overhead := by
      simp only [overhead,List.length_append,Gcm.length_encrypt,hn]
      omega
    simp only [ofKey,if_neg hlen,List.take_left' hn,List.drop_left' hn,Gcm.decrypt_encrypt]

end Cipher
end Tether
