import BitGraph.Sha256

/-!
Keccak-256, the hash function of the chains.

The package takes it from a library too, so it is a `HashFn` like SHA-256; `keccak256` is the
instance of the sponge with a rate of 136 bytes and the padding byte `0x01`, computed with natural
numbers below `2 ^ 64`.
-/

open Js

namespace Keccak

/-- Rotation of a lane to the left. -/
def rotl (x n : ℕ) : ℕ := ((x <<< n) % 2 ^ 64) ||| (x >>> (64 - n))

/-- The round constants. -/
def roundConstants : List ℕ :=
  [0x0000000000000001, 0x0000000000008082, 0x800000000000808a, 0x8000000080008000,
   0x000000000000808b, 0x0000000080000001, 0x8000000080008081, 0x8000000000008009,
   0x000000000000008a, 0x0000000000000088, 0x0000000080008009, 0x000000008000000a,
   0x000000008000808b, 0x800000000000008b, 0x8000000000008089, 0x8000000000008003,
   0x8000000000008002, 0x8000000000000080, 0x000000000000800a, 0x800000008000000a,
   0x8000000080008081, 0x8000000000008080, 0x0000000080000001, 0x8000000080008008]

/-- For each lane that a round moves to: the lane it comes from, and its rotation. -/
def moves : List (ℕ × ℕ) :=
  [(0, 0), (6, 44), (12, 43), (18, 21), (24, 14), (3, 28), (9, 20), (10, 3), (16, 45), (22, 61),
   (1, 1), (7, 6), (13, 25), (19, 8), (20, 18), (4, 27), (5, 36), (11, 10), (17, 15), (23, 56),
   (2, 62), (8, 55), (14, 39), (15, 41), (21, 2)]

/-- The lane in column `x` and row `y`. -/
def lane (a : List ℕ) (x y : ℕ) : ℕ := a.getD (x % 5 + 5 * y) 0

/-- Every lane with the parities of the two columns beside it. -/
def theta (a : List ℕ) : List ℕ :=
  let c := (List.range 5).map fun x =>
    lane a x 0 ^^^ lane a x 1 ^^^ lane a x 2 ^^^ lane a x 3 ^^^ lane a x 4
  let d := (List.range 5).map fun x => c.getD ((x + 4) % 5) 0 ^^^ rotl (c.getD ((x + 1) % 5) 0) 1
  (List.range 25).map fun i => a.getD i 0 ^^^ d.getD (i % 5) 0

/-- The lanes rotated and moved. -/
def rhoPi (a : List ℕ) : List ℕ := moves.map fun m => rotl (a.getD m.1 0) m.2

/-- Each lane with the two on its right. -/
def chi (b : List ℕ) : List ℕ :=
  (List.range 25).map fun i =>
    b.getD i 0 ^^^ ((2 ^ 64 - 1 - lane b (i % 5 + 1) (i / 5)) &&& lane b (i % 5 + 2) (i / 5))

/-- One round. -/
def round (a : List ℕ) (constant : ℕ) : List ℕ :=
  match chi (rhoPi (theta a)) with
  | [] => []
  | x :: rest => (x ^^^ constant) :: rest

/-- A little-endian number. -/
def leNat (b : Bytes) : ℕ := b.foldr (fun x n => n * 256 + x.toNat) 0

/-- A lane as eight little-endian bytes. -/
def leBytes (n : ℕ) : Bytes := (List.range 8).map fun i => UInt8.ofNat (n >>> (8 * i))

/-- A block of 136 bytes taken in. -/
def absorb (a : List ℕ) (block : Bytes) : List ℕ :=
  let mixed := (List.range 25).map fun i =>
    a.getD i 0 ^^^ if i < 17 then leNat ((block.drop (8 * i)).take 8) else 0
  roundConstants.foldl round mixed

/-- The message padded to whole blocks. -/
def pad (b : Bytes) : Bytes :=
  let k := 136 - b.length % 136
  if k = 1 then b ++ [0x81] else b ++ 0x01 :: (List.replicate (k - 2) 0 ++ [0x80])

/-- `k` blocks. -/
def blocks : ℕ → List ℕ → Bytes → List ℕ
  | 0, a, _ => a
  | k + 1, a, b => blocks k (absorb a (b.take 136)) (b.drop 136)

/-- The digest: the first four lanes. -/
def digest (b : Bytes) : Bytes :=
  let a := blocks ((pad b).length / 136) (List.replicate 25 0) (pad b)
  leBytes (a.getD 0 0) ++ leBytes (a.getD 1 0) ++ leBytes (a.getD 2 0) ++ leBytes (a.getD 3 0)

lemma length_digest (b : Bytes) : (digest b).length = 32 := by
  simp [digest, leBytes]

end Keccak

/-- Keccak-256. -/
def keccak256 : HashFn := ⟨Keccak.digest, Keccak.length_digest⟩
