import BitGraph.Js.Text

/-!
The hash function.

The package calls SHA-256 from a library. `HashFn` is what it relies on: a function from
byte strings to byte strings of 32 bytes. Every module takes a `HashFn` as a parameter;
`sha256` is the instance of FIPS 180-4, computed with natural numbers below `2 ^ 32`.
-/

open Js

/-- A hash function with results of 32 bytes. -/
structure HashFn where
  digest : Bytes → Bytes
  length_digest : ∀ b, (digest b).length = 32

instance : CoeFun HashFn fun _ => Bytes → Bytes := ⟨HashFn.digest⟩

@[simp] lemma HashFn.length_apply (H : HashFn) (b : Bytes) : (H b).length = 32 :=
  H.length_digest b

/-- Two different inputs with one digest, one from each list. -/
def HashFn.Collides (H : HashFn) (xs ys : List Bytes) : Prop :=
  ∃ x ∈ xs, ∃ y ∈ ys, x ≠ y ∧ H x = H y

lemma HashFn.Collides.mono {H : HashFn} {xs ys xs' ys' : List Bytes} (h : H.Collides xs ys)
    (hx : ∀ x ∈ xs, x ∈ xs') (hy : ∀ y ∈ ys, y ∈ ys') : H.Collides xs' ys' := by
  obtain ⟨x, hxs, y, hys, hne, heq⟩ := h
  exact ⟨x, hx x hxs, y, hy y hys, hne, heq⟩

namespace Sha256

/-! ### Words -/

/-- Addition modulo `2 ^ 32`. -/
def add (a b : ℕ) : ℕ := (a + b) % 2 ^ 32

/-- Rotation of a word to the right. -/
def rotr (x n : ℕ) : ℕ := (x >>> n) ||| ((x <<< (32 - n)) % 2 ^ 32)

/-- The complement of a word. -/
def not (x : ℕ) : ℕ := x ^^^ (2 ^ 32 - 1)

def ch (x y z : ℕ) : ℕ := (x &&& y) ^^^ (not x &&& z)
def maj (x y z : ℕ) : ℕ := (x &&& y) ^^^ (x &&& z) ^^^ (y &&& z)
def bigSigma0 (x : ℕ) : ℕ := rotr x 2 ^^^ rotr x 13 ^^^ rotr x 22
def bigSigma1 (x : ℕ) : ℕ := rotr x 6 ^^^ rotr x 11 ^^^ rotr x 25
def smallSigma0 (x : ℕ) : ℕ := rotr x 7 ^^^ rotr x 18 ^^^ (x >>> 3)
def smallSigma1 (x : ℕ) : ℕ := rotr x 17 ^^^ rotr x 19 ^^^ (x >>> 10)

/-- The round constants. -/
def roundConstants : List ℕ :=
  [0x428a2f98, 0x71374491, 0xb5c0fbcf, 0xe9b5dba5, 0x3956c25b, 0x59f111f1, 0x923f82a4, 0xab1c5ed5,
   0xd807aa98, 0x12835b01, 0x243185be, 0x550c7dc3, 0x72be5d74, 0x80deb1fe, 0x9bdc06a7, 0xc19bf174,
   0xe49b69c1, 0xefbe4786, 0x0fc19dc6, 0x240ca1cc, 0x2de92c6f, 0x4a7484aa, 0x5cb0a9dc, 0x76f988da,
   0x983e5152, 0xa831c66d, 0xb00327c8, 0xbf597fc7, 0xc6e00bf3, 0xd5a79147, 0x06ca6351, 0x14292967,
   0x27b70a85, 0x2e1b2138, 0x4d2c6dfc, 0x53380d13, 0x650a7354, 0x766a0abb, 0x81c2c92e, 0x92722c85,
   0xa2bfe8a1, 0xa81a664b, 0xc24b8b70, 0xc76c51a3, 0xd192e819, 0xd6990624, 0xf40e3585, 0x106aa070,
   0x19a4c116, 0x1e376c08, 0x2748774c, 0x34b0bcb5, 0x391c0cb3, 0x4ed8aa4a, 0x5b9cca4f, 0x682e6ff3,
   0x748f82ee, 0x78a5636f, 0x84c87814, 0x8cc70208, 0x90befffa, 0xa4506ceb, 0xbef9a3f7, 0xc67178f2]

/-- The eight working words. -/
structure Words where
  (a b c d e f g h : ℕ)

/-- The initial hash value. -/
def Words.init : Words :=
  ⟨0x6a09e667, 0xbb67ae85, 0x3c6ef372, 0xa54ff53a, 0x510e527f, 0x9b05688c, 0x1f83d9ab, 0x5be0cd19⟩

/-! ### Blocks -/

/-- A big-endian number. -/
def beNat (b : Bytes) : ℕ := b.foldl (fun n x => n * 256 + x.toNat) 0

/-- A number as `k` big-endian bytes. -/
def beBytes (k n : ℕ) : Bytes :=
  (List.range k).map fun i => UInt8.ofNat (n >>> (8 * (k - 1 - i)))

/-- The message padded to whole blocks: a one bit, zeros and the length in bits. -/
def pad (b : Bytes) : Bytes :=
  b ++ 0x80 :: (List.replicate ((119 - b.length % 64) % 64) 0 ++ beBytes 8 (8 * b.length))

/-- The message schedule, the last sixteen words kept newest first: `k` words more. -/
def schedule : ℕ → List ℕ → List ℕ
  | 0, _ => []
  | k + 1, w =>
      let x := add (add (smallSigma1 (w.getD 1 0)) (w.getD 6 0))
        (add (smallSigma0 (w.getD 14 0)) (w.getD 15 0))
      x :: schedule k (x :: w.take 15)

/-- One round, with its word and its constant. -/
def round (s : Words) (p : ℕ × ℕ) : Words :=
  let t1 := add (add (add s.h (bigSigma1 s.e)) (add (ch s.e s.f s.g) p.1)) p.2
  let t2 := add (bigSigma0 s.a) (maj s.a s.b s.c)
  ⟨add t1 t2, s.a, s.b, s.c, add s.d t1, s.e, s.f, s.g⟩

/-- The sixteen words of a block. -/
def blockWords (b : Bytes) : List ℕ :=
  (List.range 16).map fun i => beNat ((b.drop (4 * i)).take 4)

/-- One block. -/
def compress (s : Words) (b : Bytes) : Words :=
  let w := blockWords b
  let t := ((w ++ schedule 48 w.reverse).zip roundConstants).foldl round s
  ⟨add s.a t.a, add s.b t.b, add s.c t.c, add s.d t.d, add s.e t.e, add s.f t.f, add s.g t.g,
    add s.h t.h⟩

/-- `k` blocks. -/
def blocks : ℕ → Words → Bytes → Words
  | 0, s, _ => s
  | k + 1, s, b => blocks k (compress s (b.take 64)) (b.drop 64)

/-- The digest: the eight words in big-endian bytes. -/
def digest (b : Bytes) : Bytes :=
  let p := pad b
  let s := blocks (p.length / 64) .init p
  beBytes 4 s.a ++ beBytes 4 s.b ++ beBytes 4 s.c ++ beBytes 4 s.d ++ beBytes 4 s.e
    ++ beBytes 4 s.f ++ beBytes 4 s.g ++ beBytes 4 s.h

lemma length_beBytes (k n : ℕ) : (beBytes k n).length = k := by
  simp [beBytes]

lemma beNat_append (a b : Bytes) : beNat (a ++ b) = beNat a * 256 ^ b.length + beNat b := by
  induction b using List.reverseRecOn with
  | nil => simp [beNat]
  | append_singleton b x ih =>
      rw [← List.append_assoc, beNat, List.foldl_append, ← beNat, ih, beNat, beNat, beNat,
        List.foldl_append]
      simp only [List.foldl_cons, List.foldl_nil, List.length_append, List.length_singleton]
      ring

lemma beBytes_succ (k n : ℕ) : beBytes (k + 1) n = beBytes k (n / 256) ++ [UInt8.ofNat n] := by
  rw [beBytes, List.range_succ, List.map_append, beBytes]
  congr 1
  · refine List.map_congr_left fun i hi => ?_
    have hik : i < k := List.mem_range.mp hi
    rw [show 8 * (k + 1 - 1 - i) = 8 + 8 * (k - 1 - i) by omega, Nat.shiftRight_add]
    congr 2
    rw [Nat.shiftRight_eq_div_pow]
  · simp

lemma beNat_beBytes (k n : ℕ) : beNat (beBytes k n) = n % 256 ^ k := by
  induction k generalizing n with
  | zero => simp [beBytes, beNat, Nat.mod_one]
  | succ k ih =>
      have hlast : beNat [UInt8.ofNat n] = n % 256 := by
        simp [beNat, UInt8.toNat_ofNat']
      rw [beBytes_succ, beNat_append, ih, hlast, pow_succ, mul_comm (256 ^ k), Nat.mod_mul,
        List.length_singleton, pow_one]
      ring

lemma beBytes_beNat (w : Bytes) : beBytes w.length (beNat w) = w := by
  induction w using List.reverseRecOn with
  | nil => rfl
  | append_singleton w x ih =>
      have hx := x.toNat_lt
      have hone : beNat [x] = x.toNat := by simp [beNat]
      rw [List.length_append, List.length_singleton, beBytes_succ, beNat_append, hone,
        List.length_singleton, pow_one, show (beNat w * 256 + x.toNat) / 256 = beNat w by omega, ih]
      congr 2
      rw [UInt8.ofNat_eq_iff_mod_eq_toNat] <;> omega

lemma length_digest (b : Bytes) : (digest b).length = 32 := by
  simp [digest, length_beBytes]

end Sha256

/-- SHA-256. -/
def sha256 : HashFn := ⟨Sha256.digest, Sha256.length_digest⟩

/-- The digest of the three bytes "abc", the first example of the standard. -/
example : sha256 [0x61, 0x62, 0x63] =
    [0xba, 0x78, 0x16, 0xbf, 0x8f, 0x01, 0xcf, 0xea, 0x41, 0x41, 0x40, 0xde, 0x5d, 0xae, 0x22, 0x23,
     0xb0, 0x03, 0x61, 0xa3, 0x96, 0x17, 0x7a, 0x9c, 0xb4, 0x10, 0xff, 0x61, 0xf2, 0x00, 0x15,
     0xad] := by
  decide +kernel
