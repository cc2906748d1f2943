import BitGraph.Sha256

/-!
The cipher of sealed entries.

The programs call AES-GCM from WebCrypto. `Aead` is what it is made of: a keystream added to the
plaintext, and a tag of 16 bytes over the ciphertext and the associated data.

* **Sealing.** `Aead.encrypt` and `Aead.decrypt`. `decrypt_encrypt`: what was sealed comes back;
  `length_encrypt`.
* **Breaking.** `Aead.Confuses` says that a text sealed under one key opens under another.
* **The instance.** `aesGcm` is AES-256 in Galois counter mode with a nonce of 12 bytes.
-/

open Js

/-- Authenticated encryption with a keystream and a tag. -/
structure Aead where
  /-- Key, nonce and number of bytes. -/
  keystream : Bytes → Bytes → ℕ → Bytes
  /-- Key, nonce, associated data and ciphertext. -/
  tag : Bytes → Bytes → Bytes → Bytes → Bytes
  length_keystream : ∀ key nonce n, (keystream key nonce n).length = n
  length_tag : ∀ key nonce aad ciphertext, (tag key nonce aad ciphertext).length = 16

namespace Aead

/-- Bytewise addition. -/
def mask (stream text : Bytes) : Bytes := List.zipWith (· ^^^ ·) stream text

lemma length_mask {stream text : Bytes} (h : stream.length = text.length) :
    (mask stream text).length = text.length := by
  rw [mask, List.length_zipWith, h, min_self]

lemma mask_mask {stream text : Bytes} (h : stream.length = text.length) :
    mask stream (mask stream text) = text := by
  induction stream generalizing text with
  | nil => exact (List.length_eq_zero_iff.mp h.symm).symm
  | cons x stream ih =>
      cases text with
      | nil => simp at h
      | cons y text =>
          have hxy : x ^^^ (x ^^^ y) = y := by
            rw [← UInt8.xor_assoc, UInt8.xor_self, UInt8.zero_xor]
          rw [mask, mask, List.zipWith_cons_cons, List.zipWith_cons_cons, hxy]
          exact congrArg (y :: ·) (ih (by simpa using h))

variable (A : Aead)

/-- Ciphertext and tag. -/
def encrypt (key nonce aad plaintext : Bytes) : Bytes :=
  let ciphertext := mask (A.keystream key nonce plaintext.length) plaintext
  ciphertext ++ A.tag key nonce aad ciphertext

/-- The plaintext, where the tag is right. -/
def decrypt (key nonce aad sealed : Bytes) : Option Bytes :=
  let n := sealed.length - 16
  if 16 ≤ sealed.length ∧ A.tag key nonce aad (sealed.take n) = sealed.drop n then
    some (mask (A.keystream key nonce n) (sealed.take n))
  else none

@[simp] lemma length_encrypt (key nonce aad plaintext : Bytes) :
    (A.encrypt key nonce aad plaintext).length = plaintext.length + 16 := by
  rw [encrypt, List.length_append, length_mask (A.length_keystream _ _ _), A.length_tag]

/-- What was sealed comes back. -/
theorem decrypt_encrypt (key nonce aad plaintext : Bytes) :
    A.decrypt key nonce aad (A.encrypt key nonce aad plaintext) = some plaintext := by
  have hmask := length_mask (A.length_keystream key nonce plaintext.length)
  have hn : (A.encrypt key nonce aad plaintext).length - 16 = plaintext.length := by
    rw [length_encrypt, Nat.add_sub_cancel]
  rw [decrypt, hn, length_encrypt, encrypt]
  rw [List.take_left' hmask, List.drop_left' hmask, if_pos ⟨by omega, rfl⟩,
    mask_mask (A.length_keystream _ _ _)]

/-- A text sealed under one key opens under another. -/
def Confuses (key key' nonce aad aad' plaintext : Bytes) : Prop :=
  key ≠ key' ∧ (A.decrypt key' nonce aad' (A.encrypt key nonce aad plaintext)).isSome = true

end Aead

/-! ### AES-256 -/

namespace Aes

/-- The substitution of bytes. -/
def sbox : List UInt8 := [
  0x63, 0x7c, 0x77, 0x7b, 0xf2, 0x6b, 0x6f, 0xc5, 0x30, 0x01, 0x67, 0x2b, 0xfe, 0xd7, 0xab, 0x76,
  0xca, 0x82, 0xc9, 0x7d, 0xfa, 0x59, 0x47, 0xf0, 0xad, 0xd4, 0xa2, 0xaf, 0x9c, 0xa4, 0x72, 0xc0,
  0xb7, 0xfd, 0x93, 0x26, 0x36, 0x3f, 0xf7, 0xcc, 0x34, 0xa5, 0xe5, 0xf1, 0x71, 0xd8, 0x31, 0x15,
  0x04, 0xc7, 0x23, 0xc3, 0x18, 0x96, 0x05, 0x9a, 0x07, 0x12, 0x80, 0xe2, 0xeb, 0x27, 0xb2, 0x75,
  0x09, 0x83, 0x2c, 0x1a, 0x1b, 0x6e, 0x5a, 0xa0, 0x52, 0x3b, 0xd6, 0xb3, 0x29, 0xe3, 0x2f, 0x84,
  0x53, 0xd1, 0x00, 0xed, 0x20, 0xfc, 0xb1, 0x5b, 0x6a, 0xcb, 0xbe, 0x39, 0x4a, 0x4c, 0x58, 0xcf,
  0xd0, 0xef, 0xaa, 0xfb, 0x43, 0x4d, 0x33, 0x85, 0x45, 0xf9, 0x02, 0x7f, 0x50, 0x3c, 0x9f, 0xa8,
  0x51, 0xa3, 0x40, 0x8f, 0x92, 0x9d, 0x38, 0xf5, 0xbc, 0xb6, 0xda, 0x21, 0x10, 0xff, 0xf3, 0xd2,
  0xcd, 0x0c, 0x13, 0xec, 0x5f, 0x97, 0x44, 0x17, 0xc4, 0xa7, 0x7e, 0x3d, 0x64, 0x5d, 0x19, 0x73,
  0x60, 0x81, 0x4f, 0xdc, 0x22, 0x2a, 0x90, 0x88, 0x46, 0xee, 0xb8, 0x14, 0xde, 0x5e, 0x0b, 0xdb,
  0xe0, 0x32, 0x3a, 0x0a, 0x49, 0x06, 0x24, 0x5c, 0xc2, 0xd3, 0xac, 0x62, 0x91, 0x95, 0xe4, 0x79,
  0xe7, 0xc8, 0x37, 0x6d, 0x8d, 0xd5, 0x4e, 0xa9, 0x6c, 0x56, 0xf4, 0xea, 0x65, 0x7a, 0xae, 0x08,
  0xba, 0x78, 0x25, 0x2e, 0x1c, 0xa6, 0xb4, 0xc6, 0xe8, 0xdd, 0x74, 0x1f, 0x4b, 0xbd, 0x8b, 0x8a,
  0x70, 0x3e, 0xb5, 0x66, 0x48, 0x03, 0xf6, 0x0e, 0x61, 0x35, 0x57, 0xb9, 0x86, 0xc1, 0x1d, 0x9e,
  0xe1, 0xf8, 0x98, 0x11, 0x69, 0xd9, 0x8e, 0x94, 0x9b, 0x1e, 0x87, 0xe9, 0xce, 0x55, 0x28, 0xdf,
  0x8c, 0xa1, 0x89, 0x0d, 0xbf, 0xe6, 0x42, 0x68, 0x41, 0x99, 0x2d, 0x0f, 0xb0, 0x54, 0xbb, 0x16]

def sub (b : UInt8) : UInt8 := sbox.getD b.toNat 0

/-- Multiplication by `x` in the field of bytes. -/
def xtime (b : UInt8) : UInt8 := if b.toNat < 128 then b <<< 1 else (b <<< 1) ^^^ 0x1b

/-- The key schedule, the last eight words newest first: `k` words more, from word `i`. -/
def schedule : ℕ → ℕ → UInt8 → List Bytes → List Bytes
  | 0, _, _, _ => []
  | k + 1, i, rcon, w =>
      let last := w.getD 0 []
      let t :=
        if i % 8 = 0 then Aead.mask [rcon, 0, 0, 0] ((last.rotate 1).map sub)
        else if i % 8 = 4 then last.map sub
        else last
      let word := Aead.mask (w.getD 7 []) t
      word :: schedule k (i + 1) (if i % 8 = 0 then xtime rcon else rcon) (word :: w.take 7)

/-- The fifteen round keys. -/
def roundKeys (key : Bytes) : List Bytes :=
  let w := (List.range 8).map fun i => (key.drop (4 * i)).take 4
  ((w ++ schedule 52 8 1 w.reverse).toChunks 4).map List.flatten

/-- Rows shifted, by column. -/
def shiftRows (s : Bytes) : Bytes :=
  (List.range 16).map fun i => s.getD ((i + 4 * (i % 4)) % 16) 0

/-- One column mixed. -/
def mixColumn : Bytes → Bytes
  | [a, b, c, d] =>
      let t := a ^^^ b ^^^ c ^^^ d
      [a ^^^ t ^^^ xtime (a ^^^ b), b ^^^ t ^^^ xtime (b ^^^ c), c ^^^ t ^^^ xtime (c ^^^ d),
        d ^^^ t ^^^ xtime (d ^^^ a)]
  | s => s

/-- A round with its key; the last one mixes no columns. -/
def round (last : Bool) (s key : Bytes) : Bytes :=
  let t := shiftRows (s.map sub)
  Aead.mask (if last then t else ((t.toChunks 4).map mixColumn).flatten) key

/-- One block of 16 bytes. -/
def encrypt (key block : Bytes) : Bytes :=
  match roundKeys key with
  | [] => block
  | k :: ks =>
      round true (ks.dropLast.foldl (round false) (Aead.mask block k)) (ks.getLastD [])

end Aes

/-! ### Galois counter mode -/

namespace Gcm

open Sha256

/-- Multiplication in the field of 128 bits, the first bit of a block being the constant term. -/
def mul (x y : ℕ) : ℕ :=
  ((List.range 128).foldl (fun (s : ℕ × ℕ) i =>
    (if x.testBit (127 - i) then s.1 ^^^ s.2 else s.1,
      if s.2.testBit 0 then (s.2 >>> 1) ^^^ (0xe1 <<< 120) else s.2 >>> 1)) (0, y)).1

/-- The bytes padded to whole blocks, as numbers. -/
def blocks (b : Bytes) : List ℕ :=
  ((b ++ List.replicate ((16 - b.length % 16) % 16) 0).toChunks 16).map beNat

/-- The hash of the associated data, the ciphertext and their lengths. -/
def ghash (h : ℕ) (aad ciphertext : Bytes) : ℕ :=
  (blocks aad ++ blocks ciphertext ++ [8 * aad.length * 2 ^ 64 + 8 * ciphertext.length]).foldl
    (fun y x => mul (y ^^^ x) h) 0

/-- Counter block `i`. -/
def counterBlock (nonce : Bytes) (i : ℕ) : Bytes := nonce.take 12 ++ beBytes 4 i

/-- The keystream starts at counter 2. -/
def keystream (key nonce : Bytes) (n : ℕ) : Bytes :=
  let blocks := (List.range ((n + 15) / 16)).flatMap fun i =>
    Aes.encrypt key (counterBlock nonce (i + 2))
  (List.range n).map fun i => blocks.getD i 0

def tag (key nonce aad ciphertext : Bytes) : Bytes :=
  let h := beNat (Aes.encrypt key (List.replicate 16 0))
  beBytes 16 (ghash h aad ciphertext ^^^ beNat (Aes.encrypt key (counterBlock nonce 1)))

end Gcm

/-- AES-256-GCM with a tag of 128 bits. -/
def aesGcm : Aead where
  keystream := Gcm.keystream
  tag := Gcm.tag
  length_keystream key nonce n := by simp [Gcm.keystream]
  length_tag key nonce aad ciphertext := Sha256.length_beBytes _ _

/-- The zero block under the zero key and the zero nonce, an example of the standard. -/
example : aesGcm.encrypt (List.replicate 32 0) (List.replicate 12 0) [] (List.replicate 16 0) =
    [0xce, 0xa7, 0x40, 0x3d, 0x4d, 0x60, 0x6b, 0x6e, 0x07, 0x4e, 0xc5, 0xd3, 0xba, 0xf3, 0x9d, 0x18,
     0xd0, 0xd1, 0xc8, 0xa7, 0x99, 0x99, 0x6b, 0xf0, 0x26, 0x5b, 0x98, 0xb5, 0xd4, 0x8a, 0xb9, 0x19] := by
  decide +kernel
