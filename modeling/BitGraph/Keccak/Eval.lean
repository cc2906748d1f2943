import BitGraph.Keccak
import BitGraph.Sha256.Eval

/-!
Keccak-256 in a form that the kernel evaluates fast.

* **Lanes.** `thetaEval`, `rhoPiEval` and `chiEval` read the lanes by a recursor.
* `keccak256_eq_eval`: it is the same function. A sample that computes digests rewrites with it
  first.
-/

open Js

namespace Keccak

open Sha256 (nth nth_eq)

/-! ### The rounds -/

def laneEval (a : List ℕ) (x y : ℕ) : ℕ := nth a (x % 5 + 5 * y)

def thetaEval (a : List ℕ) : List ℕ :=
  let c := (List.range 5).map fun x =>
    laneEval a x 0 ^^^ laneEval a x 1 ^^^ laneEval a x 2 ^^^ laneEval a x 3 ^^^ laneEval a x 4
  let d := (List.range 5).map fun x => nth c ((x + 4) % 5) ^^^ rotl (nth c ((x + 1) % 5)) 1
  (List.range 25).map fun i => nth a i ^^^ nth d (i % 5)

def rhoPiEval (a : List ℕ) : List ℕ := moves.map fun m => rotl (nth a m.1) m.2

def chiEval (b : List ℕ) : List ℕ :=
  (List.range 25).map fun i =>
    nth b i ^^^ ((18446744073709551615 - laneEval b (i % 5 + 1) (i / 5)) &&&
      laneEval b (i % 5 + 2) (i / 5))

def roundEval (a : List ℕ) (constant : ℕ) : List ℕ :=
  match chiEval (rhoPiEval (thetaEval a)) with
  | [] => []
  | x :: rest => (x ^^^ constant) :: rest

def absorbEval (a : List ℕ) (block : Bytes) : List ℕ :=
  let mixed := (List.range 25).map fun i =>
    nth a i ^^^ if i < 17 then leNat ((block.drop (8 * i)).take 8) else 0
  roundConstants.foldl roundEval mixed

def blocksEval : ℕ → List ℕ → Bytes → List ℕ
  | 0, a, _ => a
  | k + 1, a, b => blocksEval k (absorbEval a (b.take 136)) (b.drop 136)

def digestEval (b : Bytes) : Bytes :=
  let a := blocksEval ((pad b).length / 136) (List.replicate 25 0) (pad b)
  leBytes (nth a 0) ++ leBytes (nth a 1) ++ leBytes (nth a 2) ++ leBytes (nth a 3)

/-! ### They agree -/

lemma laneEval_eq : laneEval = lane := by
  funext a x y
  rw [laneEval, lane, nth_eq]

lemma thetaEval_eq : thetaEval = theta := by
  funext a
  simp only [thetaEval, theta, laneEval_eq, nth_eq]

lemma rhoPiEval_eq : rhoPiEval = rhoPi := by
  funext a
  simp only [rhoPiEval, rhoPi, nth_eq]

lemma chiEval_eq : chiEval = chi := by
  funext b
  have h : 2 ^ 64 - 1 = 18446744073709551615 := by norm_num
  simp only [chiEval, chi, laneEval_eq, nth_eq, h]

lemma roundEval_eq : roundEval = round := by
  funext a constant
  have h : chiEval (rhoPiEval (thetaEval a)) = chi (rhoPi (theta a)) := by
    rw [chiEval_eq, rhoPiEval_eq, thetaEval_eq]
  cases hx : chi (rhoPi (theta a)) with
  | nil => simp [roundEval, round, h, hx]
  | cons x rest => simp [roundEval, round, h, hx]

lemma absorbEval_eq : absorbEval = absorb := by
  funext a block
  simp only [absorbEval, absorb, roundEval_eq, nth_eq]

lemma blocksEval_eq (k : ℕ) (a : List ℕ) (b : Bytes) : blocksEval k a b = blocks k a b := by
  induction k generalizing a b with
  | zero => rfl
  | succ k ih => rw [blocksEval, blocks, absorbEval_eq, ih]

lemma digestEval_eq (b : Bytes) : digestEval b = digest b := by
  simp only [digestEval, digest, blocksEval_eq, nth_eq]

end Keccak

/-- Keccak-256, to be evaluated. -/
def keccak256Eval : HashFn :=
  ⟨Keccak.digestEval, fun b => by rw [Keccak.digestEval_eq, Keccak.length_digest]⟩

theorem keccak256_eq_eval : keccak256 = keccak256Eval := by
  have h : Keccak.digest = Keccak.digestEval := funext fun b => (Keccak.digestEval_eq b).symm
  simp only [keccak256, keccak256Eval, h]

/-- The digest of no bytes. -/
example : keccak256 [] =
    [0xc5, 0xd2, 0x46, 0x01, 0x86, 0xf7, 0x23, 0x3c, 0x92, 0x7e, 0x7d, 0xb2, 0xdc, 0xc7, 0x03, 0xc0,
     0xe5, 0x00, 0xb6, 0x53, 0xca, 0x82, 0x27, 0x3b, 0x7b, 0xfa, 0xd8, 0x04, 0x5d, 0x85, 0xa4,
     0x70] := by
  rw [keccak256_eq_eval]
  decide +kernel
