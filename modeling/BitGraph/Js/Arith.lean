import BitGraph.Js.Number

/-!
Arithmetic on JavaScript numbers, as far as the programs use it.

* **Rounding.** `Number.ofRat` is the double nearest to a rational, `roundInt` the double nearest
  to an integer.
* **Text.** `Number.toFixed` is `Number.prototype.toFixed`.
-/

namespace Js

/-- The double nearest to a rational. -/
def Number.ofRat (x : ℚ) : Number :=
  if x = 0 then .fin (.zero false) else roundPos (decide (x < 0)) |x|

/-- The double nearest to an integer, as an integer. -/
def roundInt (z : ℤ) : ℤ := if z < 0 then -(roundNat z.natAbs) else roundNat z.natAbs

lemma roundInt_of_abs_lt {z : ℤ} (h : z.natAbs < 2 ^ 53) : roundInt z = z := by
  rw [roundInt, roundNat_of_lt h]
  split <;> omega

lemma le_roundNat {n : ℕ} (h : 2 ^ 53 ≤ n) : 2 ^ 53 ≤ roundNat n := by
  have hne : n ≠ 0 := by omega
  have hlog : 53 ≤ n.log2 := (Nat.le_log2 hne).mpr h
  have hlow : 2 ^ n.log2 ≤ n := Nat.log2_self_le hne
  have hfloor : n / 2 ^ (n.log2 - 52) ≤ roundEven n (2 ^ (n.log2 - 52)) := by
    rw [roundEven]
    split
    · omega
    · split <;> omega
  have hdiv : 2 ^ 52 ≤ n / 2 ^ (n.log2 - 52) := by
    rw [Nat.le_div_iff_mul_le (by positivity), ← pow_add]
    rwa [show 52 + (n.log2 - 52) = n.log2 by omega]
  rw [roundNat, if_neg (by omega)]
  calc 2 ^ 53 ≤ 2 ^ n.log2 := Nat.pow_le_pow_right (by norm_num) hlog
    _ = 2 ^ 52 * 2 ^ (n.log2 - 52) := by
        rw [← pow_add]
        congr 1
        omega
    _ ≤ roundEven n (2 ^ (n.log2 - 52)) * 2 ^ (n.log2 - 52) := Nat.mul_le_mul_right _ (hdiv.trans hfloor)

/-- An integer that is rounded below `2^53` in magnitude was not rounded. -/
lemma roundInt_eq_of_lt {z : ℤ} (h : (roundInt z).natAbs < 2 ^ 53) : roundInt z = z := by
  refine roundInt_of_abs_lt (lt_of_not_ge fun hge => ?_)
  have hround := le_roundNat hge
  rw [roundInt] at h
  split at h <;> omega

def Number.neg : Number → Number
  | .fin d => .fin { d with neg := !d.neg }
  | .inf neg => .inf !neg
  | .nan => .nan

/-- `x.toFixed(digits)`, ties away from zero. -/
def Number.toFixed (x : Number) (digits : ℕ) : Str :=
  match x with
  | .fin d =>
    if 10 ^ 21 ≤ d.mag then x.toStr
    else
      let n := decimal ⌊d.mag * 10 ^ digits + 1 / 2⌋.toNat
      let n := List.replicate (digits + 1 - n.length) 48 ++ n
      let text := n.take (n.length - digits) ++ 46 :: n.drop (n.length - digits)
      if d.val < 0 then 45 :: text else text
  | _ => x.toStr

end Js
