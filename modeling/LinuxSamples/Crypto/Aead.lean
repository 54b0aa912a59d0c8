import Mathlib.Data.List.Basic

set_option autoImplicit false

/-! # Authenticated encryption with associated data

An `Aead` is what an authenticated cipher computes from a key, an IV, associated data and a text, and
`Lawful` what its users rely on. A cipher that adds a keystream to the text is lawful whatever the
keystream is. -/

namespace LinuxSamples.Crypto

abbrev Bytes : Type := List UInt8

/-- The tag is computed over the associated data and the ciphertext; `verify` is what the comparison
    with an expected tag returns. -/
structure Aead where
  encrypt (key iv aad plain : Bytes) : Bytes
  decrypt (key iv aad cipher : Bytes) : Bytes
  tag (key iv aad cipher : Bytes) : Bytes
  verify (key iv aad cipher expected : Bytes) : Int

structure Aead.Lawful (A : Aead) : Prop where
  encrypt_length : ∀ key iv aad plain, (A.encrypt key iv aad plain).length = plain.length
  decrypt_length : ∀ key iv aad cipher, (A.decrypt key iv aad cipher).length = cipher.length
  decrypt_encrypt : ∀ key iv aad plain, A.decrypt key iv aad (A.encrypt key iv aad plain) = plain
  tag_length : ∀ key iv aad cipher, (A.tag key iv aad cipher).length = 16
  verify_pos : ∀ key iv aad cipher expected,
    0 < A.verify key iv aad cipher expected ↔ expected = A.tag key iv aad cipher

/-! ## Keystreams -/

/-- The text with a keystream added to it. -/
def mask (stream : Nat → UInt8) (text : Bytes) : Bytes := text.mapIdx fun i b => b ^^^ stream i

theorem mask_length (stream : Nat → UInt8) (text : Bytes) :
    (mask stream text).length = text.length := List.length_mapIdx

theorem mask_mask (stream : Nat → UInt8) (text : Bytes) : mask stream (mask stream text) = text := by
  refine List.ext_getElem? fun i => ?_
  simp only [mask, List.getElem?_mapIdx]
  cases text[i]? with
  | none => rfl
  | some b =>
    have cancel : (b ^^^ stream i) ^^^ stream i = b := by
      rw [UInt8.xor_assoc, UInt8.xor_self, UInt8.xor_zero]
    simp only [Option.map_some, cancel]

/-- The cipher with the given keystream and tag. -/
def Aead.ofKeystream (stream : Bytes → Bytes → Nat → UInt8)
    (tag : Bytes → Bytes → Bytes → Bytes → Bytes) : Aead where
  encrypt key iv _ plain := mask (stream key iv) plain
  decrypt key iv _ cipher := mask (stream key iv) cipher
  tag := tag
  verify key iv aad cipher expected := if expected = tag key iv aad cipher then 1 else 0

theorem Aead.ofKeystream_lawful (stream : Bytes → Bytes → Nat → UInt8)
    {tag : Bytes → Bytes → Bytes → Bytes → Bytes}
    (htag : ∀ key iv aad cipher, (tag key iv aad cipher).length = 16) :
    (Aead.ofKeystream stream tag).Lawful where
  encrypt_length _ _ _ plain := mask_length _ plain
  decrypt_length _ _ _ cipher := mask_length _ cipher
  decrypt_encrypt _ _ _ plain := mask_mask _ plain
  tag_length := htag
  verify_pos key iv aad cipher expected := by
    show 0 < (if expected = tag key iv aad cipher then (1 : Int) else 0) ↔
      expected = tag key iv aad cipher
    split_ifs with h <;> simp [h]

end LinuxSamples.Crypto
