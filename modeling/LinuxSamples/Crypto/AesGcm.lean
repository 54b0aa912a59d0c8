import LinuxSamples.Crypto.Evp
import LinuxSamples.Socket.Buffer

set_option autoImplicit false

/-! # Encryption and decryption with AES-GCM

`aes_gcm_encrypt` and `aes_gcm_decrypt` of the Conan sample pass the text through a buffer of 1024
bytes on the stack, whatever its length. `aes_gcm_decrypt` copies the decrypted text out before it
has the tag verified, and only prints what the verification has returned.

The functions of OpenSSL are a parameter. -/

namespace LinuxSamples.AesGcm

open LinuxSamples.Program LinuxSamples.Memory LinuxSamples.Socket LinuxSamples.Crypto

/-! ## The program -/

def gcm_key : Bytes :=
  [0xee, 0xbc, 0x1f, 0x57, 0x48, 0x7f, 0x51, 0x92, 0x1c, 0x04, 0x65, 0x66,
    0x5f, 0x8a, 0xe6, 0xd1, 0x65, 0x8b, 0xb2, 0x6d, 0xe6, 0xf8, 0xa0, 0x69,
    0xa3, 0x52, 0x02, 0x93, 0xa5, 0x72, 0x07, 0x8f]

def gcm_iv : Bytes :=
  [0x99, 0xaa, 0x3e, 0x68, 0xed, 0x81, 0x73, 0xa0, 0xee, 0xd0, 0x66, 0x84]

def gcm_aad : Bytes :=
  [0x4d, 0x23, 0xc3, 0xce, 0xc3, 0x34, 0xb4, 0x9b, 0xdb, 0x37, 0x0c, 0x43,
    0x7f, 0xec, 0x78, 0xde]

/-- `sizeof(outbuf)`. -/
def bufferSize : Nat := 1024

/-- The conversion of a `size_t` to `int`. -/
def toInt (n : Nat) : Int := Int.bmod n (2 ^ 32)

/-- The bytes that a function reads at `src`. -/
def input (src : List (Option UInt8)) (inl : Int) : Except Fault Bytes :=
  if inl ≤ src.length then written (src.take inl.toNat) else .error .outOfBounds

/-- A function writes bytes to the front of `out`. -/
def output (out : List (Option UInt8)) (bytes : Bytes) : Except Fault (List (Option UInt8)) :=
  if bytes.length ≤ out.length then .ok (filled out bytes) else .error .outOfBounds

/-- A new array of `n` bytes, copied from `src`. -/
def memcpy (src : List (Option UInt8)) (n : Int) : Except Fault (List (Option UInt8)) :=
  if 0 ≤ n ∧ n ≤ src.length then .ok (src.take n.toNat) else .error .outOfBounds

/-- What `aes_gcm_encrypt` returns and stores through its arguments. -/
structure Encrypted where
  ciphertext : List (Option UInt8)
  length : Int
  tag : List (Option UInt8)

/-- What `aes_gcm_decrypt` returns, stores in `length` and prints of the tag. -/
structure Decrypted where
  plaintext : List (Option UInt8)
  length : Int
  successful : Bool

section Program

variable {Ctx : Type} (E : Evp Ctx)

/-- `EVP_EncryptUpdate(ctx, out, &outlen, src, inl)`, or `EVP_DecryptUpdate`. -/
def evpUpdate (update : Update Ctx) (ctx : Ctx) (out : List (Option UInt8)) (outlen : Int)
    (src : List (Option UInt8)) (inl : Int) : Except Fault (Ctx × List (Option UInt8) × Int) := do
  let bytes ← input src inl
  let (ctx, bytes, outlen) := update ctx outlen bytes inl
  let out ← output out bytes
  return (ctx, out, outlen)

def aes_gcm_encrypt (plaintext : List (Option UInt8)) : Except Fault Encrypted := do
  let ctx := E.new
  let ctx := E.encryptCipher ctx
  let ctx := E.setIvlen ctx gcm_iv.length
  let ctx := E.encryptInit ctx gcm_key gcm_iv
  let (ctx, outlen) := E.encryptAad ctx gcm_aad
  let outbuf := unset bufferSize
  let text ← scanString plaintext
  let (ctx, outbuf, outlen) ←
    evpUpdate E.encryptUpdate ctx outbuf outlen plaintext (toInt text.length)
  let length := outlen
  let ciphertext ← memcpy outbuf length
  let (ctx, final) := E.encryptFinal ctx
  let outbuf ← output outbuf final
  let outbuf ← output outbuf (E.getTag ctx 16)
  let tag ← memcpy outbuf 16
  return ⟨ciphertext, length, tag⟩

def aes_gcm_decrypt (ciphertext : List (Option UInt8)) (length : Int) (tag : List (Option UInt8)) :
    Except Fault Decrypted := do
  let ctx := E.new
  let ctx := E.decryptCipher ctx
  let ctx := E.setIvlen ctx gcm_iv.length
  let ctx := E.decryptInit ctx gcm_key gcm_iv
  let (ctx, outlen) := E.decryptAad ctx gcm_aad
  let outbuf := unset bufferSize
  let (ctx, outbuf, outlen) ← evpUpdate E.decryptUpdate ctx outbuf outlen ciphertext length
  let length := outlen
  let plaintext ← memcpy outbuf length
  let expected ← input tag 16
  let ctx := E.setTag ctx expected
  let (final, rv) := E.decryptFinal ctx
  let _ ← output outbuf final
  return ⟨plaintext, length, decide (0 < rv)⟩

end Program

/-! ## What they are there for -/

section Purpose

variable {Ctx : Type} (E : Evp Ctx)

/-- The text comes back, with its length, from its own ciphertext, length and tag, and no write
    leaves a buffer. -/
def RoundTrips (plaintext : Bytes) : Prop :=
  ∃ e d, aes_gcm_encrypt E (terminated plaintext) = .ok e ∧
    aes_gcm_decrypt E e.ciphertext e.length e.tag = .ok d ∧
    d.plaintext = plaintext.map some ∧ d.length = plaintext.length

/-- What the cipher makes of the first `length` bytes of a ciphertext. -/
def plaintextOf (A : Aead) (ciphertext : Bytes) (length : Int) : Bytes :=
  A.decrypt gcm_key gcm_iv gcm_aad (ciphertext.take length.toNat)

/-- The bytes are decrypted without a fault, and none of their plaintext is at its place in the array
    that is handed to the caller. -/
def Withheld (A : Aead) (ciphertext : Bytes) (length : Int) (tag : Bytes) : Prop :=
  ∃ d, aes_gcm_decrypt E (ciphertext.map some) length (tag.map some) = .ok d ∧
    ∀ (i : Nat) (b : UInt8), (plaintextOf A ciphertext length)[i]? = some b →
      d.plaintext[i]? ≠ some (some b)

end Purpose

/-! ## Buffers -/

section Buffers

variable {bytes : Bytes} {out : List (Option UInt8)}

theorem filled_length (h : bytes.length ≤ out.length) : (filled out bytes).length = out.length := by
  rw [filled_eq, List.length_append, List.length_map, List.length_drop]
  omega

theorem input_eq (bytes : Bytes) (rest : List (Option UInt8)) :
    input (bytes.map some ++ rest) bytes.length = .ok bytes := by
  have hlen : (bytes.length : Int) ≤ (bytes.map some ++ rest).length := by
    rw [List.length_append, List.length_map]
    omega
  rw [input, if_pos hlen, Int.toNat_natCast, List.take_left' (List.length_map ..), written_map]

theorem input_map (bytes : Bytes) : input (bytes.map some) bytes.length = .ok bytes := by
  rw [← List.append_nil (bytes.map some)]
  exact input_eq bytes []

theorem memcpy_filled (h : bytes.length ≤ out.length) :
    memcpy (filled out bytes) bytes.length = .ok (bytes.map some) := by
  have hlen : (bytes.length : Int) ≤ (filled out bytes).length := by
    rw [filled_length h]
    omega
  rw [memcpy, if_pos ⟨Int.natCast_nonneg _, hlen⟩, Int.toNat_natCast, filled_eq,
    List.take_left' (List.length_map ..)]

end Buffers

/-! ## Updates -/

section Correct

variable {Ctx : Type} {E : Evp Ctx} {A : Aead}

theorem toInt_eq {n : Nat} (hn : n < 2 ^ 31) : toInt n = n :=
  Int.bmod_eq_of_le_mul_two (by omega) (by omega)

section Update

variable {update : Update Ctx} {ctx ctx' : Ctx} {out : List (Option UInt8)} {outlen outlen' : Int}
  {bytes result : Bytes}

theorem evpUpdate_eq (rest : List (Option UInt8))
    (hupdate : update ctx outlen bytes bytes.length = (ctx', result, outlen')) :
    evpUpdate update ctx out outlen (bytes.map some ++ rest) bytes.length
      = (do
          let out ← output out result
          return (ctx', out, outlen')) := by
  rw [evpUpdate, input_eq, ok_bind, hupdate]

theorem output_eq (hsize : result.length ≤ out.length) :
    output out result = .ok (filled out result) := if_pos hsize

/-- A text that does not fit is written past the end of the buffer. -/
theorem output_overflow (hsize : out.length < result.length) :
    output out result = .error .outOfBounds := if_neg (Nat.not_le.2 hsize)

theorem output_length {out' : List (Option UInt8)} (h : output out result = .ok out') :
    out'.length = out.length := by
  unfold output at h
  split at h
  · next hlen =>
      cases h
      exact filled_length hlen
  · cases h

theorem output_nil : output out [] = .ok out := by
  rw [output, List.length_nil, if_pos (Nat.zero_le _), filled_eq]
  rfl

theorem evpUpdate_size {src out' : List (Option UInt8)} {inl : Int}
    (h : evpUpdate update ctx out outlen src inl = .ok (ctx', out', outlen')) :
    out'.length = out.length := by
  obtain ⟨read, _, h⟩ := ok_of_bind h
  obtain ⟨written, hout, h⟩ := ok_of_bind h
  cases h
  exact output_length hout

end Update

/-! ## Encryption and decryption -/

variable (E) in
/-- The calls of `aes_gcm_encrypt` in their order. -/
theorem aes_gcm_encrypt_eq (plaintext : List (Option UInt8)) : aes_gcm_encrypt E plaintext
    = (do
        let text ← scanString plaintext
        let updated ← evpUpdate E.encryptUpdate (E.encrypting gcm_key gcm_iv gcm_aad).1
          (unset bufferSize) (E.encrypting gcm_key gcm_iv gcm_aad).2 plaintext (toInt text.length)
        let ciphertext ← memcpy updated.2.1 updated.2.2
        let outbuf ← output updated.2.1 (E.encryptFinal updated.1).2
        let outbuf ← output outbuf (E.getTag (E.encryptFinal updated.1).1 16)
        let tag ← memcpy outbuf 16
        return ⟨ciphertext, updated.2.2, tag⟩) := rfl

variable (E) in
theorem aes_gcm_decrypt_eq (ciphertext : List (Option UInt8)) (length : Int)
    (tag : List (Option UInt8)) : aes_gcm_decrypt E ciphertext length tag
    = (do
        let updated ← evpUpdate E.decryptUpdate (E.decrypting gcm_key gcm_iv gcm_aad).1
          (unset bufferSize) (E.decrypting gcm_key gcm_iv gcm_aad).2 ciphertext length
        let plaintext ← memcpy updated.2.1 updated.2.2
        let expected ← input tag 16
        let _ ← output updated.2.1 (E.decryptFinal (E.setTag updated.1 expected)).1
        return ⟨plaintext, updated.2.2,
          decide (0 < (E.decryptFinal (E.setTag updated.1 expected)).2)⟩) := rfl

theorem outbuf_length : (unset bufferSize).length = bufferSize := List.length_replicate ..

/-- A text that fits into the buffer is encrypted. -/
theorem encrypt_eq (hA : A.Lawful) (hE : E.Computes A) {plaintext : Bytes} (htext : 0 ∉ plaintext)
    (hlen : plaintext.length ≤ bufferSize) :
    aes_gcm_encrypt E (terminated plaintext) = .ok
      ⟨(A.encrypt gcm_key gcm_iv gcm_aad plaintext).map some, plaintext.length,
        (A.tag gcm_key gcm_iv gcm_aad (A.encrypt gcm_key gcm_iv gcm_aad plaintext)).map some⟩ := by
  have hlength := hA.encrypt_length gcm_key gcm_iv gcm_aad plaintext
  have htag := hA.tag_length gcm_key gcm_iv gcm_aad (A.encrypt gcm_key gcm_iv gcm_aad plaintext)
  have hencrypt : (E.encrypted gcm_key gcm_iv gcm_aad plaintext).2 = _ :=
    hE.encrypt rfl rfl gcm_aad plaintext
  have hget : E.getTag (E.encryptFinal (E.encrypted gcm_key gcm_iv gcm_aad plaintext).1).1 16 = _ :=
    hE.tag rfl rfl gcm_aad plaintext
  generalize A.encrypt gcm_key gcm_iv gcm_aad plaintext = cipher at *
  obtain ⟨ctx, hctx⟩ : ∃ ctx, E.encrypted gcm_key gcm_iv gcm_aad plaintext
      = (ctx, cipher, (plaintext.length : Int)) := ⟨_, Prod.ext rfl hencrypt⟩
  rw [hctx] at hget
  have hscan : scanString (terminated plaintext) = .ok plaintext := scanString_textual htext []
  have hint : toInt plaintext.length = plaintext.length := by
    rw [bufferSize] at hlen
    exact toInt_eq (by omega)
  have hfits : cipher.length ≤ (unset bufferSize).length := by rwa [hlength, outbuf_length]
  have hroom : (A.tag gcm_key gcm_iv gcm_aad cipher).length
      ≤ (filled (unset bufferSize) cipher).length := by
    rw [filled_length hfits, outbuf_length, htag]
    decide
  have hcopy := memcpy_filled hroom
  rw [htag] at hcopy
  rw [aes_gcm_encrypt_eq, hscan, ok_bind, hint, terminated, evpUpdate_eq [some 0] hctx,
    output_eq hfits, ok_bind]
  show (memcpy (filled _ cipher) plaintext.length >>= fun _ =>
    output (filled _ cipher) (E.encryptFinal ctx).2 >>= fun _ =>
      output _ (E.getTag (E.encryptFinal ctx).1 16) >>= fun _ => _) = _
  rw [← hlength, memcpy_filled hfits, ok_bind, hE.encryptFinal_nothing, output_nil, ok_bind, hget,
    output_eq hroom, ok_bind]
  show (memcpy _ ((16 : Nat) : Int) >>= _) = _
  rw [hcopy]
  rfl

section Decryption

variable {ciphertext tag : Bytes} {length : Int}

/-- The bytes that are decrypted, and those behind them. -/
theorem decrypted_bytes (hlength : 0 ≤ length) (hle : length ≤ ciphertext.length) :
    ((ciphertext.take length.toNat).length : Int) = length ∧
      ciphertext.map some = (ciphertext.take length.toNat).map some
        ++ (ciphertext.drop length.toNat).map some := by
  refine ⟨?_, ?_⟩
  · rw [List.length_take]
    omega
  · rw [← List.map_append, List.take_append_drop]

variable (hA : A.Lawful) (hE : E.Computes A)
include hA hE

/-- Whatever the tag is: what is decrypted is returned. -/
theorem decrypt_eq (hlength : 0 ≤ length) (hle : length ≤ ciphertext.length)
    (hfits : length ≤ bufferSize) (htag : tag.length = 16) :
    aes_gcm_decrypt E (ciphertext.map some) length (tag.map some) = .ok
      ⟨(plaintextOf A ciphertext length).map some, length,
        decide (0 < A.verify gcm_key gcm_iv gcm_aad (ciphertext.take length.toNat) tag)⟩ := by
  obtain ⟨hcount, hsplit⟩ := decrypted_bytes hlength hle
  have hplain := hA.decrypt_length gcm_key gcm_iv gcm_aad (ciphertext.take length.toNat)
  have hdecrypt : (E.decrypted gcm_key gcm_iv gcm_aad (ciphertext.take length.toNat)).2 = _ :=
    hE.decrypt rfl rfl gcm_aad _
  have hverify : (E.decryptFinal (E.setTag
      (E.decrypted gcm_key gcm_iv gcm_aad (ciphertext.take length.toNat)).1 tag)).2 = _ :=
    hE.verify rfl rfl gcm_aad _ tag htag
  have hinput := input_map tag
  rw [htag] at hinput
  rw [plaintextOf, hsplit]
  generalize ciphertext.take length.toNat = cipher at *
  generalize A.decrypt gcm_key gcm_iv gcm_aad cipher = plain at *
  subst hcount
  obtain ⟨ctx, hctx⟩ : ∃ ctx, E.decrypted gcm_key gcm_iv gcm_aad cipher
      = (ctx, plain, (cipher.length : Int)) := ⟨_, Prod.ext rfl hdecrypt⟩
  rw [hctx] at hverify
  have hroom : plain.length ≤ (unset bufferSize).length := by
    rw [hplain, outbuf_length]
    omega
  rw [aes_gcm_decrypt_eq, evpUpdate_eq _ hctx, output_eq hroom, ok_bind]
  show (memcpy (filled _ plain) cipher.length >>= fun _ => input (tag.map some) ((16 : Nat) : Int)
    >>= fun expected => output _ (E.decryptFinal (E.setTag ctx expected)).1 >>= fun _ => _) = _
  rw [← hplain, memcpy_filled hroom, ok_bind, hinput, ok_bind, hE.decryptFinal_nothing, output_nil,
    ok_bind]
  show Except.ok (⟨_, _, decide (0 < (E.decryptFinal (E.setTag ctx tag)).2)⟩ : Decrypted) = _
  rw [hverify]

/-- More bytes than the buffer holds. -/
theorem decrypt_overflow (hle : length ≤ ciphertext.length) (hlong : bufferSize < length)
    (tag : List (Option UInt8)) :
    aes_gcm_decrypt E (ciphertext.map some) length tag = .error .outOfBounds := by
  obtain ⟨hcount, hsplit⟩ := decrypted_bytes (by omega) hle
  have hplain := hA.decrypt_length gcm_key gcm_iv gcm_aad (ciphertext.take length.toNat)
  have hdecrypt : (E.decrypted gcm_key gcm_iv gcm_aad (ciphertext.take length.toNat)).2 = _ :=
    hE.decrypt rfl rfl gcm_aad _
  rw [hsplit]
  generalize ciphertext.take length.toNat = cipher at *
  subst hcount
  obtain ⟨ctx, hctx⟩ : ∃ ctx, E.decrypted gcm_key gcm_iv gcm_aad cipher
      = (ctx, A.decrypt gcm_key gcm_iv gcm_aad cipher, (cipher.length : Int)) :=
    ⟨_, Prod.ext rfl hdecrypt⟩
  have hroom : (unset bufferSize).length < (A.decrypt gcm_key gcm_iv gcm_aad cipher).length := by
    rw [hplain, outbuf_length]
    omega
  rw [aes_gcm_decrypt_eq, evpUpdate_eq _ hctx, output_overflow hroom]
  rfl

omit hA in
/-- With a negative length nothing is decrypted, and there is no fault. -/
theorem decrypt_negative (hlength : length < 0) (htag : tag.length = 16) :
    ∃ d, aes_gcm_decrypt E (ciphertext.map some) length (tag.map some) = .ok d := by
  have hinput := input_map tag
  rw [htag] at hinput
  have hread : input (ciphertext.map some) length = .ok [] := by
    rw [input, if_pos (by omega), Int.toNat_of_nonpos (Int.le_of_lt hlength)]
    rfl
  obtain ⟨ctx, n, hctx, hn⟩ : ∃ ctx n, E.decryptUpdate (E.decrypting gcm_key gcm_iv gcm_aad).1
      (E.decrypting gcm_key gcm_iv gcm_aad).2 [] length = (ctx, [], n) ∧ 0 ≤ n ∧ n ≤ bufferSize := by
    rcases hE.decrypt_negative _ _ [] hlength with h | h
    · exact ⟨_, _, Prod.ext rfl h, by decide⟩
    · refine ⟨_, _, Prod.ext rfl h, ?_⟩
      rw [hE.aad_length]
      decide
  have hcopy : memcpy (unset bufferSize) n = .ok ((unset bufferSize).take n.toNat) :=
    if_pos ⟨hn.1, by rw [outbuf_length]; exact hn.2⟩
  refine ⟨⟨(unset bufferSize).take n.toNat, n,
    decide (0 < (E.decryptFinal (E.setTag ctx tag)).2)⟩, ?_⟩
  rw [aes_gcm_decrypt_eq, evpUpdate, hread, ok_bind, hctx]
  show ((output (unset bufferSize) [] >>= fun out => Except.ok (ctx, out, n)) >>= _) = _
  rw [output_nil]
  show (memcpy (unset bufferSize) n >>= fun _ => input (tag.map some) ((16 : Nat) : Int)
    >>= fun expected => output _ (E.decryptFinal (E.setTag ctx expected)).1 >>= fun _ => _) = _
  rw [hcopy, ok_bind, hinput, ok_bind, hE.decryptFinal_nothing, output_nil, ok_bind]
  rfl

/-! ## Round trips and rejection -/

/-- A text is withheld exactly if there is none. -/
theorem withheld_iff (hle : length ≤ ciphertext.length) (htag : tag.length = 16) :
    Withheld E A ciphertext length tag ↔ length ≤ 0 := by
  have hplain := hA.decrypt_length gcm_key gcm_iv gcm_aad (ciphertext.take length.toNat)
  constructor
  · rintro ⟨d, hdecrypt, hnone⟩
    by_contra hpos
    rcases Int.lt_or_le (bufferSize : Int) length with hlong | hfits
    · rw [decrypt_overflow hA hE hle hlong] at hdecrypt
      cases hdecrypt
    · rw [decrypt_eq hA hE (by omega) hle hfits htag] at hdecrypt
      cases hdecrypt
      have hfirst : 0 < (plaintextOf A ciphertext length).length := by
        rw [plaintextOf, hplain, List.length_take]
        omega
      refine hnone 0 _ (List.getElem?_eq_getElem hfirst) ?_
      rw [List.getElem?_map, List.getElem?_eq_getElem hfirst]
      rfl
  · intro hlength
    have hempty : plaintextOf A ciphertext length = [] := by
      refine List.eq_nil_of_length_eq_zero ?_
      rw [plaintextOf, hplain, Int.toNat_of_nonpos hlength]
      rfl
    have hdecrypt : ∃ d, aes_gcm_decrypt E (ciphertext.map some) length (tag.map some) = .ok d := by
      rcases Int.lt_or_eq_of_le hlength with hneg | rfl
      · exact decrypt_negative hE hneg htag
      · exact ⟨_, decrypt_eq hA hE (Int.le_refl 0) hle (by decide) htag⟩
    obtain ⟨d, hd⟩ := hdecrypt
    refine ⟨d, hd, fun i b hb => ?_⟩
    rw [hempty] at hb
    cases hb

end Decryption

/-- What `memcpy` copies is not longer than its source. -/
theorem memcpy_length {src dst : List (Option UInt8)} {n : Int} (h : memcpy src n = .ok dst) :
    dst.length ≤ src.length := by
  unfold memcpy at h
  split at h
  · cases h
    exact List.length_take_le' ..
  · cases h

/-- No text longer than the buffer is ever returned. -/
theorem decrypted_length {ciphertext tag : List (Option UInt8)} {length : Int} {d : Decrypted}
    (h : aes_gcm_decrypt E ciphertext length tag = .ok d) : d.plaintext.length ≤ bufferSize := by
  rw [aes_gcm_decrypt_eq] at h
  obtain ⟨⟨ctx, outbuf, outlen⟩, hupdate, h⟩ := ok_of_bind h
  obtain ⟨plaintext, hcopy, h⟩ := ok_of_bind h
  obtain ⟨expected, _, h⟩ := ok_of_bind h
  obtain ⟨final, _, h⟩ := ok_of_bind h
  cases h
  have hsize := evpUpdate_size hupdate
  rw [outbuf_length] at hsize
  rw [← hsize]
  exact memcpy_length hcopy

theorem roundTrips_iff (hA : A.Lawful) (hE : E.Computes A) {plaintext : Bytes}
    (htext : 0 ∉ plaintext) : RoundTrips E plaintext ↔ plaintext.length ≤ bufferSize := by
  constructor
  · rintro ⟨e, d, _, hdecrypt, hplain, _⟩
    have hlen := decrypted_length hdecrypt
    rwa [hplain, List.length_map] at hlen
  · intro hlen
    have hcipher := hA.encrypt_length gcm_key gcm_iv gcm_aad plaintext
    have hinverse := hA.decrypt_encrypt gcm_key gcm_iv gcm_aad plaintext
    have hencrypt := encrypt_eq hA hE htext hlen
    have htag := hA.tag_length gcm_key gcm_iv gcm_aad (A.encrypt gcm_key gcm_iv gcm_aad plaintext)
    generalize A.encrypt gcm_key gcm_iv gcm_aad plaintext = cipher at *
    have hdecrypt := decrypt_eq hA hE (Int.natCast_nonneg _) (Int.le_refl _)
      (show (cipher.length : Int) ≤ bufferSize by omega) htag
    have hplain : plaintextOf A cipher cipher.length = plaintext := by
      rw [plaintextOf, Int.toNat_natCast, List.take_length, hinverse]
    rw [hplain] at hdecrypt
    rw [← hcipher] at hencrypt
    exact ⟨_, _, hencrypt, hdecrypt, rfl, by rw [hcipher]⟩

end Correct

/-- **Encryption and decryption.** A text comes back from its ciphertext exactly if it fits into the
    buffer. With a wrong tag nothing is withheld but where there is nothing to decrypt: the text is
    returned, and only the printed line says that the verification failed, or it overflows the buffer. -/
theorem aead_round_trip {Ctx : Type} (E : Evp Ctx) (A : Aead) (hA : A.Lawful) (hE : E.Computes A) :
    (∀ plaintext : Bytes, 0 ∉ plaintext →
      (RoundTrips E plaintext ↔ plaintext.length ≤ bufferSize)) ∧
    ∀ (ciphertext tag : Bytes) (length : Int), length ≤ ciphertext.length → tag.length = 16 →
      tag ≠ A.tag gcm_key gcm_iv gcm_aad (ciphertext.take length.toNat) →
        (Withheld E A ciphertext length tag ↔ length ≤ 0) ∧
        (0 ≤ length → length ≤ bufferSize →
          aes_gcm_decrypt E (ciphertext.map some) length (tag.map some) = .ok
            ⟨(plaintextOf A ciphertext length).map some, length, false⟩) := by
  refine ⟨fun plaintext htext => roundTrips_iff hA hE htext,
    fun ciphertext tag length hle htag hne => ⟨withheld_iff hA hE hle htag, fun hlength hfits => ?_⟩⟩
  have hverify : ¬ 0 < A.verify gcm_key gcm_iv gcm_aad (ciphertext.take length.toNat) tag :=
    fun h => hne ((hA.verify_pos ..).1 h)
  rw [decrypt_eq hA hE hlength hle hfits htag, decide_eq_false hverify]

/-! ### The text "hi" -/

/-- Its ciphertext under the key and IV of the sample. -/
def hiCiphertext : Bytes := [0x6a, 0x21]

def hiTag : Bytes :=
  [0x6f, 0xb2, 0x55, 0xeb, 0xe0, 0xa3, 0x5b, 0x23, 0xf5, 0x85, 0x68, 0x5d, 0x14, 0xe7, 0x30, 0x2f]

/-- A cipher that treats this text as AES-256-GCM does. -/
def hiCipher : Aead :=
  Aead.ofKeystream (fun _ _ i => [0x02, 0x48].getD i 0)
    fun _ _ _ cipher => if cipher = hiCiphertext then hiTag else List.replicate 16 0

theorem hiCipher_lawful : hiCipher.Lawful := by
  refine Aead.ofKeystream_lawful _ fun _ _ _ cipher => ?_
  split <;> rfl

theorem aead_round_trip_hi : hiCipher.encrypt gcm_key gcm_iv gcm_aad [104, 105] = hiCiphertext ∧
    RoundTrips (Evp.ofAead hiCipher) [104, 105] ∧
    ¬ Withheld (Evp.ofAead hiCipher) hiCipher hiCiphertext 2 (List.replicate 16 0) ∧
    Withheld (Evp.ofAead hiCipher) hiCipher hiCiphertext 0 (List.replicate 16 1) := by
  have h := aead_round_trip (Evp.ofAead hiCipher) hiCipher hiCipher_lawful
    (Evp.ofAead_computes hiCipher_lawful)
  have htwo := h.2 hiCiphertext (List.replicate 16 0) 2 (by decide) (by decide) (by decide)
  have hnone := h.2 hiCiphertext (List.replicate 16 1) 0 (by decide) (by decide) (by decide)
  exact ⟨by decide, (h.1 [104, 105] (by decide)).2 (by decide),
    fun hwithheld => absurd (htwo.1.1 hwithheld) (by decide), hnone.1.2 (Int.le_refl 0)⟩

/-- A text of 1025 bytes does not come back; "hi" is returned with a tag of zeros. -/
theorem aead_fails : ¬ RoundTrips (Evp.ofAead hiCipher) (List.replicate 1025 97) ∧
    List.replicate 16 0 ≠ hiCipher.tag gcm_key gcm_iv gcm_aad hiCiphertext ∧
      aes_gcm_decrypt (Evp.ofAead hiCipher) (hiCiphertext.map some) 2
        ((List.replicate 16 0).map some) = .ok ⟨[some 104, some 105], 2, false⟩ := by
  have hlong : (0 : UInt8) ∉ List.replicate 1025 97 := fun h =>
    absurd (List.eq_of_mem_replicate h) (by decide)
  refine ⟨fun h => ?_, by decide, ?_⟩
  · have hlen := (roundTrips_iff hiCipher_lawful (Evp.ofAead_computes hiCipher_lawful) hlong).1 h
    rw [List.length_replicate] at hlen
    exact absurd hlen (by decide)
  · exact decrypt_eq hiCipher_lawful (Evp.ofAead_computes hiCipher_lawful) (by decide) (by decide)
      (by decide) (by decide)

end LinuxSamples.AesGcm
