import BitGraph.Sha256

/-!
SHA-256 in a form that the kernel evaluates fast.

* **Loops.** `scheduleEval` keeps every word of the schedule instead of the last sixteen, and the
  loops are recursors, which unfold in one step.
* **Words.** `wordsEval` reads a block four bytes a time.
* `sha256_eq_eval`: it is the same function. A sample that computes digests rewrites with it first.
-/

open Js

namespace Sha256

/-! ### The loops -/

/-- `w.getD n 0`. -/
def nth (w : List ℕ) : ℕ → ℕ :=
  w.rec (fun _ => 0) fun a _ ih n => n.rec a fun m _ => ih m

/-- The message schedule from the words so far, newest first. -/
def scheduleEval (k : ℕ) : List ℕ → List ℕ :=
  k.rec (fun _ => []) fun _ ih w =>
    (fun x => x :: ih (x :: w)) (add (add (smallSigma1 (nth w 1)) (nth w 6))
      (add (smallSigma0 (nth w 14)) (nth w 15)))

/-- The big-endian words of a block. -/
def wordsEval : Bytes → List ℕ
  | a :: b :: c :: d :: rest =>
    (((a.toNat * 256 + b.toNat) * 256 + c.toNat) * 256 + d.toNat) :: wordsEval rest
  | _ => []

def compressEval (s : Words) (b : Bytes) : Words :=
  let w := wordsEval b
  let t := ((w ++ scheduleEval 48 w.reverse).zip roundConstants).foldl round s
  ⟨add s.a t.a, add s.b t.b, add s.c t.c, add s.d t.d, add s.e t.e, add s.f t.f, add s.g t.g,
    add s.h t.h⟩

def blocksEval : ℕ → Words → Bytes → Words
  | 0, s, _ => s
  | k + 1, s, b => blocksEval k (compressEval s (b.take 64)) (b.drop 64)

def digestEval (b : Bytes) : Bytes :=
  let p := pad b
  let s := blocksEval (p.length / 64) .init p
  beBytes 4 s.a ++ beBytes 4 s.b ++ beBytes 4 s.c ++ beBytes 4 s.d ++ beBytes 4 s.e
    ++ beBytes 4 s.f ++ beBytes 4 s.g ++ beBytes 4 s.h

/-! ### They agree -/

lemma nth_eq (w : List ℕ) (n : ℕ) : nth w n = w.getD n 0 := by
  induction w generalizing n with
  | nil => rfl
  | cons a w ih =>
      cases n with
      | zero => rfl
      | succ n => exact ih n

/-- Only the last sixteen words count. -/
lemma scheduleEval_eq (k : ℕ) {w w' : List ℕ} (h : ∀ n < 16, w.getD n 0 = w'.getD n 0) :
    scheduleEval k w = schedule k w' := by
  induction k generalizing w w' with
  | zero => rfl
  | succ k ih =>
      have hstep : scheduleEval (k + 1) w = (fun x => x :: scheduleEval k (x :: w))
          (add (add (smallSigma1 (nth w 1)) (nth w 6))
            (add (smallSigma0 (nth w 14)) (nth w 15))) := rfl
      rw [hstep, schedule, nth_eq, nth_eq, nth_eq, nth_eq, h 1 (by omega), h 6 (by omega),
        h 14 (by omega), h 15 (by omega)]
      dsimp only
      congr 1
      refine ih fun n hn => ?_
      cases n with
      | zero => rfl
      | succ n =>
          have hn : n < 15 := by omega
          rw [List.getD_cons_succ, List.getD_cons_succ, h n (by omega),
            List.getD_eq_getElem?_getD, List.getD_eq_getElem?_getD, List.getElem?_take, if_pos hn]

lemma wordsEval_eq (n : ℕ) {b : Bytes} (hb : b.length = 4 * n) :
    wordsEval b = (List.range n).map fun i => beNat ((b.drop (4 * i)).take 4) := by
  induction n generalizing b with
  | zero =>
      obtain rfl := List.length_eq_zero_iff.mp hb
      rfl
  | succ n ih =>
      obtain ⟨w, c, d, e, rest, rfl⟩ : ∃ w c d e rest, b = w :: c :: d :: e :: rest := by
        match b, hb with
        | w :: c :: d :: e :: rest, _ => exact ⟨w, c, d, e, rest, rfl⟩
        | [], h => simp at h
        | [_], h => simp at h; omega
        | [_, _], h => simp at h; omega
        | [_, _, _], h => simp at h; omega
      have hrest : rest.length = 4 * n := by
        simp only [List.length_cons] at hb
        omega
      rw [wordsEval, ih hrest, List.range_succ_eq_map, List.map_cons, List.map_map]
      refine congrArg₂ List.cons ?_ (List.map_congr_left fun i _ => ?_)
      · rw [Nat.mul_zero, List.drop_zero, beNat]
        simp only [List.take_succ_cons, List.take_zero, List.foldl_cons, List.foldl_nil,
          Nat.zero_mul, Nat.zero_add]
      · rw [Function.comp_apply, Nat.succ_eq_add_one, Nat.mul_add, Nat.mul_one]
        rfl

lemma compressEval_eq (s : Words) {b : Bytes} (hb : b.length = 64) :
    compressEval s b = compress s b := by
  rw [compressEval, compress, blockWords, wordsEval_eq 16 hb]
  rw [scheduleEval_eq 48 fun n _ => rfl]

lemma blocksEval_eq (k : ℕ) (s : Words) {b : Bytes} (hb : 64 * k ≤ b.length) :
    blocksEval k s b = blocks k s b := by
  induction k generalizing s b with
  | zero => rfl
  | succ k ih =>
      rw [blocksEval, blocks, compressEval_eq s (by rw [List.length_take]; omega),
        ih _ (by rw [List.length_drop]; omega)]

lemma digestEval_eq (b : Bytes) : digestEval b = digest b := by
  rw [digestEval, digest, blocksEval_eq _ _ (Nat.mul_div_le _ _)]

end Sha256

/-- SHA-256, to be evaluated. -/
def sha256Eval : HashFn :=
  ⟨Sha256.digestEval, fun b => by rw [Sha256.digestEval_eq, Sha256.length_digest]⟩

theorem sha256_eq_eval : sha256 = sha256Eval := by
  have h : Sha256.digest = Sha256.digestEval := funext fun b => (Sha256.digestEval_eq b).symm
  simp only [sha256, sha256Eval, h]
