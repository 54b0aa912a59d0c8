import LinuxSamples.Crypto.Aead

set_option autoImplicit false

/-! # The EVP functions of OpenSSL

An `Evp` stands for the functions of OpenSSL that encrypt and decrypt with AES-256-GCM, over whatever a
context is. `Computes` is what is known of them: they write what an authenticated cipher computes, as many
bytes as they are given, and the last call returns what the comparison of the tags gives. -/

namespace LinuxSamples.Crypto

/-- An update is given the value of `outlen`, the bytes it reads and `inl`; it returns the new context, the
    bytes it writes to `out`, and `outlen`. -/
abbrev Update (Ctx : Type) : Type := Ctx → Int → Bytes → Int → Ctx × Bytes × Int

/-- The functions for a context that is an `EVP_CIPHER_CTX`. -/
structure Evp (Ctx : Type) where
  /-- `EVP_CIPHER_CTX_new`. -/
  new : Ctx
  /-- `EVP_EncryptInit_ex` with `EVP_aes_256_gcm()` alone. -/
  encryptCipher (ctx : Ctx) : Ctx
  decryptCipher (ctx : Ctx) : Ctx
  /-- `EVP_CTRL_AEAD_SET_IVLEN`. -/
  setIvlen (ctx : Ctx) (n : Nat) : Ctx
  /-- `EVP_EncryptInit_ex` with key and IV. -/
  encryptInit (ctx : Ctx) (key iv : Bytes) : Ctx
  decryptInit (ctx : Ctx) (key iv : Bytes) : Ctx
  /-- `EVP_EncryptUpdate` without an output, with what it stores in `outlen`. -/
  encryptAad (ctx : Ctx) (aad : Bytes) : Ctx × Int
  decryptAad (ctx : Ctx) (aad : Bytes) : Ctx × Int
  encryptUpdate : Update Ctx
  decryptUpdate : Update Ctx
  /-- `EVP_EncryptFinal_ex`, with the bytes it writes. -/
  encryptFinal (ctx : Ctx) : Ctx × Bytes
  /-- `EVP_CTRL_AEAD_GET_TAG`. -/
  getTag (ctx : Ctx) (n : Nat) : Bytes
  /-- `EVP_CTRL_AEAD_SET_TAG`. -/
  setTag (ctx : Ctx) (tag : Bytes) : Ctx
  /-- `EVP_DecryptFinal_ex`, with the bytes it writes and what it returns. -/
  decryptFinal (ctx : Ctx) : Bytes × Int

namespace Evp

variable {Ctx : Type}

/-- The context once key, IV and associated data are set, and `outlen`. -/
def encrypting (E : Evp Ctx) (key iv aad : Bytes) : Ctx × Int :=
  E.encryptAad (E.encryptInit (E.setIvlen (E.encryptCipher E.new) iv.length) key iv) aad

def decrypting (E : Evp Ctx) (key iv aad : Bytes) : Ctx × Int :=
  E.decryptAad (E.decryptInit (E.setIvlen (E.decryptCipher E.new) iv.length) key iv) aad

/-- The context after the whole text, what was written and `outlen`. -/
def encrypted (E : Evp Ctx) (key iv aad plain : Bytes) : Ctx × Bytes × Int :=
  let started := E.encrypting key iv aad
  E.encryptUpdate started.1 started.2 plain plain.length

def decrypted (E : Evp Ctx) (key iv aad cipher : Bytes) : Ctx × Bytes × Int :=
  let started := E.decrypting key iv aad
  E.decryptUpdate started.1 started.2 cipher cipher.length

/-- With a negative length an update fails; versions of OpenSSL differ in whether `outlen` is then 0 or
    what it was. -/
structure Computes (E : Evp Ctx) (A : Aead) : Prop where
  encrypt : ∀ {key iv : Bytes}, key.length = 32 → iv.length = 12 → ∀ aad plain,
    (E.encrypted key iv aad plain).2 = (A.encrypt key iv aad plain, (plain.length : Int))
  decrypt : ∀ {key iv : Bytes}, key.length = 32 → iv.length = 12 → ∀ aad cipher,
    (E.decrypted key iv aad cipher).2 = (A.decrypt key iv aad cipher, (cipher.length : Int))
  decrypt_negative : ∀ ctx outlen bytes {inl : Int}, inl < 0 →
    (E.decryptUpdate ctx outlen bytes inl).2 = ([], 0) ∨
      (E.decryptUpdate ctx outlen bytes inl).2 = ([], outlen)
  aad_length : ∀ key iv aad, (E.decrypting key iv aad).2 = aad.length
  tag : ∀ {key iv : Bytes}, key.length = 32 → iv.length = 12 → ∀ aad plain,
    E.getTag (E.encryptFinal (E.encrypted key iv aad plain).1).1 16
      = A.tag key iv aad (A.encrypt key iv aad plain)
  verify : ∀ {key iv : Bytes}, key.length = 32 → iv.length = 12 → ∀ aad cipher expected,
    expected.length = 16 →
      (E.decryptFinal (E.setTag (E.decrypted key iv aad cipher).1 expected)).2
        = A.verify key iv aad cipher expected
  encryptFinal_nothing : ∀ ctx, (E.encryptFinal ctx).2 = []
  decryptFinal_nothing : ∀ ctx, (E.decryptFinal ctx).1 = []

/-! ## A context that keeps what it was given -/

structure Session where
  ivlen : Nat
  key : Bytes
  iv : Bytes
  aad : Bytes
  cipher : Bytes
  expected : Bytes

/-- The bytes are passed through `f`, and the context keeps the ciphertext. -/
def Session.update (f : Session → Bytes → Bytes × Bytes) : Update Session :=
  fun ctx _ bytes inl =>
    if inl < 0 then (ctx, [], 0)
    else ({ ctx with cipher := (f ctx bytes).2 }, (f ctx bytes).1, (f ctx bytes).1.length)

/-- The text that is written, and the ciphertext. -/
def Session.encrypt (A : Aead) (ctx : Session) (plain : Bytes) : Bytes × Bytes :=
  (A.encrypt ctx.key ctx.iv ctx.aad plain, A.encrypt ctx.key ctx.iv ctx.aad plain)

def Session.decrypt (A : Aead) (ctx : Session) (cipher : Bytes) : Bytes × Bytes :=
  (A.decrypt ctx.key ctx.iv ctx.aad cipher, cipher)

/-- The functions that compute a given cipher. -/
def ofAead (A : Aead) : Evp Session where
  new := ⟨12, [], [], [], [], []⟩
  encryptCipher ctx := ctx
  decryptCipher ctx := ctx
  setIvlen ctx n := { ctx with ivlen := n }
  encryptInit ctx key iv := { ctx with key, iv := iv.take ctx.ivlen }
  decryptInit ctx key iv := { ctx with key, iv := iv.take ctx.ivlen }
  encryptAad ctx aad := ({ ctx with aad := ctx.aad ++ aad }, aad.length)
  decryptAad ctx aad := ({ ctx with aad := ctx.aad ++ aad }, aad.length)
  encryptUpdate := Session.update (Session.encrypt A)
  decryptUpdate := Session.update (Session.decrypt A)
  encryptFinal ctx := (ctx, [])
  getTag ctx n := (A.tag ctx.key ctx.iv ctx.aad ctx.cipher).take n
  setTag ctx tag := { ctx with expected := tag }
  decryptFinal ctx := ([], A.verify ctx.key ctx.iv ctx.aad ctx.cipher ctx.expected)

theorem Session.update_eq (f : Session → Bytes → Bytes × Bytes) (ctx : Session) (outlen : Int)
    (bytes : Bytes) : Session.update f ctx outlen bytes bytes.length
      = ({ ctx with cipher := (f ctx bytes).2 }, (f ctx bytes).1, ((f ctx bytes).1.length : Int)) :=
  if_neg (Int.not_lt.2 (Int.natCast_nonneg _))

/-- The context of a session. -/
theorem ofAead_encrypting (A : Aead) (key iv aad : Bytes) :
    (ofAead A).encrypting key iv aad
      = ((⟨iv.length, key, iv, aad, [], []⟩ : Session), (aad.length : Int)) := by
  simp [encrypting, ofAead]

theorem ofAead_decrypting (A : Aead) (key iv aad : Bytes) :
    (ofAead A).decrypting key iv aad
      = ((⟨iv.length, key, iv, aad, [], []⟩ : Session), (aad.length : Int)) := by
  simp [decrypting, ofAead]

theorem ofAead_encrypted (A : Aead) (key iv aad plain : Bytes) :
    (ofAead A).encrypted key iv aad plain
      = ((⟨iv.length, key, iv, aad, A.encrypt key iv aad plain, []⟩ : Session),
        A.encrypt key iv aad plain, ((A.encrypt key iv aad plain).length : Int)) := by
  rw [encrypted, ofAead_encrypting]
  exact Session.update_eq (Session.encrypt A) _ aad.length plain

theorem ofAead_decrypted (A : Aead) (key iv aad cipher : Bytes) :
    (ofAead A).decrypted key iv aad cipher
      = ((⟨iv.length, key, iv, aad, cipher, []⟩ : Session), A.decrypt key iv aad cipher,
        ((A.decrypt key iv aad cipher).length : Int)) := by
  rw [decrypted, ofAead_decrypting]
  exact Session.update_eq (Session.decrypt A) _ aad.length cipher

theorem ofAead_computes {A : Aead} (hA : A.Lawful) : (ofAead A).Computes A where
  encrypt _ _ aad plain := by rw [ofAead_encrypted, hA.encrypt_length]
  decrypt _ _ aad cipher := by rw [ofAead_decrypted, hA.decrypt_length]
  decrypt_negative ctx outlen bytes inl hinl := by
    left
    show (Session.update _ ctx outlen bytes inl).2 = _
    rw [Session.update, if_pos hinl]
  aad_length key iv aad := by rw [ofAead_decrypting]
  tag _ _ aad plain := by
    rw [ofAead_encrypted]
    exact List.take_of_length_le (Nat.le_of_eq (hA.tag_length ..))
  verify _ _ aad cipher expected _ := by
    rw [ofAead_decrypted]
    rfl
  encryptFinal_nothing _ := rfl
  decryptFinal_nothing _ := rfl

end Evp

end LinuxSamples.Crypto
