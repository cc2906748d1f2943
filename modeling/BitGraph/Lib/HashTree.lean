import Mathlib.Tactic

/-!
Hash trees over a list of leaves, split at powers of two.

A list of `n ≥ 2` leaves splits at `cut n`, the largest power of two below `n`. The module
knows the node operation only as a function `node : α → α → α`.

* **Trees.** `root` is the value of the tree over `n` leaves from `lo`, `audit` the siblings
  of one leaf from its own level up, `Node` the ranges the split reaches.
* **Sides.** `sides fn sn` reads off the index and the last index, level by level, on which
  side of the running value the sibling stands; a rightmost even node is promoted without
  one. `sides_left` and `sides_right` align it with the split.
* **Completeness.** `climb_audit`: climbing from a leaf along its own siblings gives the
  root.
* **Soundness.** `climb_sound`: a climb that ends at the root started at the leaf with the
  leaf's own siblings, or two different pairs of values have the same node value, one of
  them met on the climb (`climbPairs`) and one in the tree (`innerPairs`). `root_sound`: the same
  for two trees of one size with one root.
-/

namespace HashTree

variable {α : Type*}

/-! ### The split -/

/-- The largest power of two below `n`, for `n ≥ 2`. -/
def cut (n : ℕ) : ℕ := 2 ^ (n - 1).log2

lemma cut_pos (n : ℕ) : 0 < cut n := by
  rw [cut]
  positivity

lemma cut_lt {n : ℕ} (h : 2 ≤ n) : cut n < n := by
  have := Nat.log2_self_le (n := n - 1) (by omega)
  rw [cut]
  omega

lemma le_two_mul_cut {n : ℕ} (h : 2 ≤ n) : n ≤ 2 * cut n := by
  have := Nat.lt_log2_self (n := n - 1)
  rw [cut]
  rw [pow_succ] at this
  omega

/-- A power of two below `n` whose double reaches `n` is the split. -/
lemma cut_eq {n e : ℕ} (h1 : 2 ^ e < n) (h2 : n ≤ 2 ^ e * 2) : cut n = 2 ^ e := by
  have hlog : (n - 1).log2 = e := (Nat.log2_eq_iff (by omega)).mpr ⟨by omega, by omega⟩
  rw [cut, hlog]

lemma cut_two_pow (e : ℕ) : cut (2 ^ (e + 1)) = 2 ^ e :=
  cut_eq (Nat.pow_lt_pow_right (by norm_num) (by omega)) (by rw [pow_succ])

/-! ### Trees -/

section Tree

variable (node : α → α → α) (leaf : ℕ → α)

/-- The value of the tree over the `n` leaves from `lo`. -/
def root (lo n : ℕ) : α :=
  if 2 ≤ n then node (root lo (cut n)) (root (lo + cut n) (n - cut n)) else leaf lo
termination_by n
decreasing_by
  · exact cut_lt ‹_›
  · have := cut_pos n
    omega

/-- The siblings of leaf `lo + m`, from its own level up to the root. -/
def audit (lo n m : ℕ) : List α :=
  if 2 ≤ n then
    if m < cut n then audit lo (cut n) m ++ [root node leaf (lo + cut n) (n - cut n)]
    else audit (lo + cut n) (n - cut n) (m - cut n) ++ [root node leaf lo (cut n)]
  else []
termination_by n
decreasing_by
  · exact cut_lt ‹_›
  · have := cut_pos n
    omega

/-- The pairs of values the inner nodes of the tree are made of. -/
def innerPairs (lo n : ℕ) : List (α × α) :=
  if 2 ≤ n then
    (root node leaf lo (cut n), root node leaf (lo + cut n) (n - cut n))
      :: (innerPairs lo (cut n) ++ innerPairs (lo + cut n) (n - cut n))
  else []
termination_by n
decreasing_by
  · exact cut_lt ‹_›
  · have := cut_pos n
    omega

variable {node leaf} {lo n m : ℕ}

lemma root_leaf (h : n < 2) : root node leaf lo n = leaf lo := by
  rw [root, if_neg (by omega)]

lemma root_node (h : 2 ≤ n) : root node leaf lo n
    = node (root node leaf lo (cut n)) (root node leaf (lo + cut n) (n - cut n)) := by
  rw [root, if_pos h]

lemma audit_leaf (h : n < 2) : audit node leaf lo n m = [] := by
  rw [audit, if_neg (by omega)]

lemma audit_left (h : 2 ≤ n) (hm : m < cut n) : audit node leaf lo n m
    = audit node leaf lo (cut n) m ++ [root node leaf (lo + cut n) (n - cut n)] := by
  rw [audit, if_pos h, if_pos hm]

lemma audit_right (h : 2 ≤ n) (hm : cut n ≤ m) : audit node leaf lo n m
    = audit node leaf (lo + cut n) (n - cut n) (m - cut n) ++ [root node leaf lo (cut n)] := by
  rw [audit, if_pos h, if_neg (by omega)]

lemma innerPairs_node (h : 2 ≤ n) : innerPairs node leaf lo n
    = (root node leaf lo (cut n), root node leaf (lo + cut n) (n - cut n))
      :: (innerPairs node leaf lo (cut n)
        ++ innerPairs node leaf (lo + cut n) (n - cut n)) := by
  rw [innerPairs, if_pos h]

/-- The tree over a range depends on the leaves of the range only. -/
lemma root_congr {leaf' : ℕ → α} {lo' : ℕ} (h : 0 < n)
    (hl : ∀ i < n, leaf (lo + i) = leaf' (lo' + i)) :
    root node leaf lo n = root node leaf' lo' n := by
  induction n using Nat.strong_induction_on generalizing lo lo' with
  | _ n ih =>
      by_cases h2 : 2 ≤ n
      · have hlt := cut_lt h2
        have hpos := cut_pos n
        rw [root_node h2, root_node h2, ih (cut n) hlt hpos fun i hi => hl i (by omega)]
        rw [ih (n - cut n) (by omega) (by omega) fun i hi => by
          have := hl (cut n + i) (by omega)
          rwa [← add_assoc, ← add_assoc] at this]
      · obtain rfl : n = 1 := by omega
        rw [root_leaf (by omega), root_leaf (by omega)]
        exact hl 0 (by omega)

end Tree

/-- The ranges `[lo, hi)` the split of a tree of `n` leaves reaches. -/
inductive Node (n : ℕ) : ℕ → ℕ → Prop where
  | root : Node n 0 n
  | left {lo hi : ℕ} : Node n lo hi → 2 ≤ hi - lo → Node n lo (lo + cut (hi - lo))
  | right {lo hi : ℕ} : Node n lo hi → 2 ≤ hi - lo → Node n (lo + cut (hi - lo)) hi

lemma Node.bounds {n lo hi : ℕ} (hn : 0 < n) (h : Node n lo hi) : lo < hi ∧ hi ≤ n := by
  induction h with
  | root => exact ⟨hn, le_rfl⟩
  | @left lo hi _ h2 ih =>
      have := cut_lt h2
      have := cut_pos (hi - lo)
      omega
  | @right lo hi _ h2 ih =>
      have := cut_lt h2
      omega

/-! ### Sides -/

/-- On which side of the running value each sibling stands, `true` for the left, from the
index `fn` and the last index `sn` of the level. A last node with an even index has no
sibling on its level. -/
def sides (fn sn : ℕ) : List Bool :=
  if h : sn = 0 then []
  else if fn % 2 = 1 then true :: sides (fn / 2) (sn / 2)
  else if fn = sn then sides (fn / 2) (sn / 2)
  else false :: sides (fn / 2) (sn / 2)
termination_by sn

lemma sides_zero (fn : ℕ) : sides fn 0 = [] := by
  rw [sides, dif_pos rfl]

lemma sides_odd {fn sn : ℕ} (hs : sn ≠ 0) (h : fn % 2 = 1) :
    sides fn sn = true :: sides (fn / 2) (sn / 2) := by
  rw [sides, dif_neg hs, if_pos h]

lemma sides_last {fn : ℕ} (h : fn % 2 = 0) : sides fn fn = sides (fn / 2) (fn / 2) := by
  by_cases h0 : fn = 0
  · rw [h0]
  · rw [sides, dif_neg h0, if_neg (by omega), if_pos rfl]

lemma sides_even {fn sn : ℕ} (hs : sn ≠ 0) (h : fn % 2 = 0) (hne : fn ≠ sn) :
    sides fn sn = false :: sides (fn / 2) (sn / 2) := by
  rw [sides, dif_neg hs, if_neg (by omega), if_neg hne]

/-- Every level but the topmost has a sibling somewhere above it. -/
lemma sides_ne_nil {fn sn : ℕ} (hs : sn ≠ 0) (h : fn ≤ sn) : sides fn sn ≠ [] := by
  by_cases hodd : fn % 2 = 1
  · rw [sides_odd hs hodd]
    simp
  · by_cases hlast : fn = sn
    · subst hlast
      rw [sides_last (by omega)]
      exact sides_ne_nil (by omega) le_rfl
    · rw [sides_even hs (by omega) hlast]
      simp
termination_by sn

/-- Below the split the sides are those of the left subtree, then a right sibling. -/
lemma sides_left {e fn sn : ℕ} (h1 : 2 ^ e ≤ sn) (h2 : sn < 2 ^ (e + 1)) (h : fn < 2 ^ e) :
    sides fn sn = sides fn (2 ^ e - 1) ++ [false] := by
  induction e generalizing fn sn with
  | zero =>
      obtain ⟨rfl, rfl⟩ : fn = 0 ∧ sn = 1 := by constructor <;> omega
      rw [sides_even (by omega) rfl (by omega)]
      simp [sides_zero]
  | succ e ih =>
      have hp : 2 ^ (e + 1) = 2 * 2 ^ e := pow_succ' 2 e
      have hp' : 2 ^ (e + 1 + 1) = 2 * 2 ^ (e + 1) := pow_succ' 2 (e + 1)
      have hpos : 0 < 2 ^ e := by positivity
      have hhalf : (2 ^ (e + 1) - 1) / 2 = 2 ^ e - 1 := by omega
      have hstep : sides (fn / 2) (sn / 2) = sides (fn / 2) (2 ^ e - 1) ++ [false] :=
        ih (by omega) (by omega) (by omega)
      by_cases hodd : fn % 2 = 1
      · calc sides fn sn = true :: sides (fn / 2) (sn / 2) := sides_odd (by omega) hodd
          _ = (true :: sides (fn / 2) (2 ^ e - 1)) ++ [false] := by rw [hstep]; rfl
          _ = sides fn (2 ^ (e + 1) - 1) ++ [false] := by
              rw [← hhalf, ← sides_odd (by omega) hodd]
      · calc sides fn sn = false :: sides (fn / 2) (sn / 2) :=
              sides_even (by omega) (by omega) (by omega)
          _ = (false :: sides (fn / 2) (2 ^ e - 1)) ++ [false] := by rw [hstep]; rfl
          _ = sides fn (2 ^ (e + 1) - 1) ++ [false] := by
              rw [← hhalf, ← sides_even (by omega) (by omega) (by omega)]

/-- From the split on the sides are those of the right subtree, then a left sibling. -/
lemma sides_right {e fn sn : ℕ} (h : 2 ^ e ≤ fn) (hle : fn ≤ sn) (h2 : sn < 2 ^ (e + 1)) :
    sides fn sn = sides (fn - 2 ^ e) (sn - 2 ^ e) ++ [true] := by
  induction e generalizing fn sn with
  | zero =>
      obtain ⟨rfl, rfl⟩ : fn = 1 ∧ sn = 1 := by constructor <;> omega
      rw [sides_odd (by omega) rfl]
      simp [sides_zero]
  | succ e ih =>
      have hp : 2 ^ (e + 1) = 2 * 2 ^ e := pow_succ' 2 e
      have hp' : 2 ^ (e + 1 + 1) = 2 * 2 ^ (e + 1) := pow_succ' 2 (e + 1)
      have hpos : 0 < 2 ^ e := by positivity
      have hfn : (fn - 2 ^ (e + 1)) / 2 = fn / 2 - 2 ^ e := by omega
      have hsn : (sn - 2 ^ (e + 1)) / 2 = sn / 2 - 2 ^ e := by omega
      have hstep : sides (fn / 2) (sn / 2) = sides (fn / 2 - 2 ^ e) (sn / 2 - 2 ^ e) ++ [true] :=
        ih (by omega) (by omega) (by omega)
      rw [← hfn, ← hsn] at hstep
      by_cases hodd : fn % 2 = 1
      · calc sides fn sn = true :: sides (fn / 2) (sn / 2) := sides_odd (by omega) hodd
          _ = (true :: sides ((fn - 2 ^ (e + 1)) / 2) ((sn - 2 ^ (e + 1)) / 2)) ++ [true] := by
              rw [hstep]; rfl
          _ = sides (fn - 2 ^ (e + 1)) (sn - 2 ^ (e + 1)) ++ [true] := by
              rw [← sides_odd (by omega) (by omega)]
      · by_cases hlast : fn = sn
        · subst hlast
          rw [sides_last (by omega), hstep, ← sides_last (by omega)]
        · calc sides fn sn = false :: sides (fn / 2) (sn / 2) :=
                sides_even (by omega) (by omega) hlast
            _ = (false :: sides ((fn - 2 ^ (e + 1)) / 2) ((sn - 2 ^ (e + 1)) / 2)) ++ [true] := by
                rw [hstep]; rfl
            _ = sides (fn - 2 ^ (e + 1)) (sn - 2 ^ (e + 1)) ++ [true] := by
                rw [← sides_even (by omega) (by omega) (by omega)]

/-- The sides of a leaf of a tree of `n` leaves, split at `cut n`. -/
lemma sides_cut {n m : ℕ} (h : 2 ≤ n) (hm : m < n) :
    sides m (n - 1) = if m < cut n then sides m (cut n - 1) ++ [false]
      else sides (m - cut n) (n - cut n - 1) ++ [true] := by
  have h1 := cut_lt h
  have h2 := le_two_mul_cut h
  have hp : 2 ^ ((n - 1).log2 + 1) = 2 * cut n := by rw [cut, pow_succ']
  split
  · next hlt => exact sides_left (e := (n - 1).log2) (by change cut n ≤ _; omega) (by omega) hlt
  · next hge =>
      have hright : sides m (n - 1) = sides (m - cut n) (n - 1 - cut n) ++ [true] :=
        sides_right (e := (n - 1).log2) (by change cut n ≤ m; omega) (by omega) (by omega)
      rw [hright]
      rw [show n - 1 - cut n = n - cut n - 1 by omega]

/-- Over at most `2 ^ e` leaves a leaf has at most `e` siblings. -/
lemma length_sides_le {e n m : ℕ} (h : m < n) (hn : n ≤ 2 ^ e) : (sides m (n - 1)).length ≤ e := by
  induction e generalizing n m with
  | zero =>
      rw [show n - 1 = 0 by omega, sides_zero, List.length_nil]
  | succ e ih =>
      by_cases h2 : 2 ≤ n
      · have hlt := cut_lt h2
        have hcut : cut n ≤ 2 ^ e := by
          rw [cut]
          refine Nat.pow_le_pow_right (by norm_num) ?_
          have hlog : (n - 1).log2 < e + 1 := (Nat.log2_lt (by omega)).mpr (by omega)
          omega
        have hle := le_two_mul_cut h2
        rw [pow_succ] at hn
        rw [sides_cut h2 h]
        split
        · next hm =>
            have := ih hm hcut
            rw [List.length_append, List.length_singleton]
            omega
        · next hm =>
            have := ih (n := n - cut n) (m := m - cut n) (by omega) (by omega)
            rw [List.length_append, List.length_singleton]
            omega
      · rw [show n - 1 = 0 by omega, sides_zero, List.length_nil]
        omega

/-! ### Climbing -/

section Climb

variable (node : α → α → α)

/-- One level up, with the sibling on its side. -/
def up (r : α) (s : Bool × α) : α := if s.1 then node s.2 r else node r s.2

/-- The value at the end of a climb. -/
def climb (r : α) (p : List (Bool × α)) : α := p.foldl (up node) r

/-- The pairs of values met on a climb. -/
def climbPairs : α → List (Bool × α) → List (α × α)
  | _, [] => []
  | r, s :: p => (if s.1 then (s.2, r) else (r, s.2)) :: climbPairs (up node r s) p

variable {node} {leaf : ℕ → α} {lo n m : ℕ}

lemma climb_append (r : α) (p q : List (Bool × α)) :
    climb node r (p ++ q) = climb node (climb node r p) q := by
  rw [climb, climb, climb, List.foldl_append]

lemma climbPairs_append (r : α) (p q : List (Bool × α)) :
    climbPairs node r (p ++ q) = climbPairs node r p ++ climbPairs node (climb node r p) q := by
  induction p generalizing r with
  | nil => rfl
  | cons s p ih =>
      rw [List.cons_append, climbPairs, ih, climbPairs]
      rfl

/-- A leaf has one sibling for each side. -/
lemma length_audit (h : m < n) :
    (audit node leaf lo n m).length = (sides m (n - 1)).length := by
  induction n using Nat.strong_induction_on generalizing lo m with
  | _ n ih =>
      by_cases h2 : 2 ≤ n
      · have hlt := cut_lt h2
        have hpos := cut_pos n
        rw [sides_cut h2 h]
        by_cases hm : m < cut n
        · rw [if_pos hm, audit_left h2 hm, List.length_append, List.length_append,
            ih _ hlt hm]
          rfl
        · rw [if_neg hm, audit_right h2 (by omega), List.length_append, List.length_append,
            ih _ (by omega) (by omega)]
          rfl
      · rw [audit_leaf (by omega), show n - 1 = 0 by omega, sides_zero]
        rfl

/-- **Completeness.** The climb from a leaf along its own siblings ends at the root. -/
theorem climb_audit (h : m < n) :
    climb node (leaf (lo + m)) ((sides m (n - 1)).zip (audit node leaf lo n m))
      = root node leaf lo n := by
  induction n using Nat.strong_induction_on generalizing lo m with
  | _ n ih =>
      by_cases h2 : 2 ≤ n
      · have hlt := cut_lt h2
        have hpos := cut_pos n
        rw [sides_cut h2 h, root_node h2]
        by_cases hm : m < cut n
        · rw [if_pos hm, audit_left h2 hm, List.zip_append (length_audit hm).symm, climb_append,
            ih _ hlt hm]
          rfl
        · have hm' : m - cut n < n - cut n := by omega
          have hih := @ih (n - cut n) (by omega) (lo + cut n) _ hm'
          rw [show lo + cut n + (m - cut n) = lo + m by omega] at hih
          rw [if_neg hm, audit_right h2 (by omega), List.zip_append (length_audit hm').symm,
            climb_append, hih]
          rfl
      · obtain rfl : n = 1 := by omega
        obtain rfl : m = 0 := by omega
        rw [root_leaf (by omega), sides_zero]
        rfl

/-- Two different pairs of values with one node value, the first of the list `ps` and the
second of the list `qs`. -/
def Clash (node : α → α → α) (ps qs : List (α × α)) : Prop :=
  ∃ p ∈ ps, ∃ q ∈ qs, p ≠ q ∧ node p.1 p.2 = node q.1 q.2

lemma Clash.mono {ps qs ps' qs' : List (α × α)} (h : Clash node ps qs)
    (hp : ∀ p ∈ ps, p ∈ ps') (hq : ∀ q ∈ qs, q ∈ qs') : Clash node ps' qs' := by
  obtain ⟨p, hps, q, hqs, hne, heq⟩ := h
  exact ⟨p, hp p hps, q, hq q hqs, hne, heq⟩

/-- **Soundness.** A climb of the right length that ends at the root started at the leaf,
with the leaf's own siblings, or a pair met on it clashes with a pair of the tree. -/
theorem climb_sound {r : α} {p : List α} (h : m < n) (hp : p.length = (sides m (n - 1)).length)
    (hr : climb node r ((sides m (n - 1)).zip p) = root node leaf lo n) :
    (r = leaf (lo + m) ∧ p = audit node leaf lo n m)
      ∨ Clash node (climbPairs node r ((sides m (n - 1)).zip p)) (innerPairs node leaf lo n) := by
  induction n using Nat.strong_induction_on generalizing lo m p with
  | _ n ih =>
      by_cases h2 : 2 ≤ n
      · have hlt := cut_lt h2
        have hpos := cut_pos n
        rw [sides_cut h2 h] at hp hr ⊢
        rw [root_node h2] at hr
        rw [innerPairs_node h2]
        -- the last sibling is split off, on either side of the split
        have hsplit : ∃ p' s, p = p' ++ [s] := by
          rcases List.eq_nil_or_concat p with rfl | ⟨p', s, rfl⟩
          · split at hp <;> simp at hp
          · exact ⟨p', s, by simp⟩
        obtain ⟨p', s, rfl⟩ := hsplit
        by_cases hm : m < cut n
        · rw [if_pos hm] at hp hr ⊢
          have hlen : p'.length = (sides m (cut n - 1)).length := by simpa using hp
          rw [List.zip_append hlen.symm, climb_append] at hr
          rw [List.zip_append hlen.symm, climbPairs_append, audit_left h2 hm]
          by_cases hpair : (climb node r ((sides m (cut n - 1)).zip p'), s)
              = (root node leaf lo (cut n), root node leaf (lo + cut n) (n - cut n))
          · obtain ⟨hcl, rfl⟩ := Prod.mk.inj hpair
            rcases ih _ hlt hm hlen hcl with ⟨hl, ha⟩ | hc
            · exact Or.inl ⟨hl, by rw [ha]⟩
            · exact Or.inr (hc.mono (fun q hq => by simp [hq]) fun q hq => by simp [hq])
          · exact Or.inr ⟨_, by simp [climbPairs], _, List.mem_cons_self .., hpair, hr⟩
        · rw [if_neg hm] at hp hr ⊢
          have hm' : m - cut n < n - cut n := by omega
          have hlen : p'.length = (sides (m - cut n) (n - cut n - 1)).length := by simpa using hp
          rw [List.zip_append hlen.symm, climb_append] at hr
          rw [List.zip_append hlen.symm, climbPairs_append, audit_right h2 (by omega)]
          by_cases hpair : (s, climb node r ((sides (m - cut n) (n - cut n - 1)).zip p'))
              = (root node leaf lo (cut n), root node leaf (lo + cut n) (n - cut n))
          · obtain ⟨rfl, hcl⟩ := Prod.mk.inj hpair
            rcases ih _ (by omega) hm' hlen hcl with ⟨hl, ha⟩ | hc
            · rw [show lo + cut n + (m - cut n) = lo + m by omega] at hl
              exact Or.inl ⟨hl, by rw [ha]⟩
            · exact Or.inr (hc.mono (fun q hq => by simp [hq]) fun q hq => by simp [hq])
          · exact Or.inr ⟨_, by simp [climbPairs], _, List.mem_cons_self .., hpair, hr⟩
      · obtain rfl : n = 1 := by omega
        obtain rfl : m = 0 := by omega
        rw [sides_zero] at hp
        obtain rfl : p = [] := by simpa using hp
        rw [root_leaf (by omega), sides_zero] at hr
        exact Or.inl ⟨hr, by rw [audit_leaf (by omega)]⟩

/-- **Binding.** Two trees of one size with one root have the same leaves, or a pair of the one
clashes with a pair of the other. -/
theorem root_sound {leaf' : ℕ → α} {lo' : ℕ} (hn : 0 < n)
    (hr : root node leaf lo n = root node leaf' lo' n) :
    (∀ m < n, leaf (lo + m) = leaf' (lo' + m))
      ∨ Clash node (innerPairs node leaf lo n) (innerPairs node leaf' lo' n) := by
  induction n using Nat.strong_induction_on generalizing lo lo' with
  | _ n ih =>
      by_cases h2 : 2 ≤ n
      · have hlt := cut_lt h2
        have hpos := cut_pos n
        rw [root_node h2, root_node h2] at hr
        rw [innerPairs_node h2, innerPairs_node h2]
        by_cases hpair : (root node leaf lo (cut n), root node leaf (lo + cut n) (n - cut n))
            = (root node leaf' lo' (cut n), root node leaf' (lo' + cut n) (n - cut n))
        · obtain ⟨hleft, hright⟩ := Prod.mk.inj hpair
          rcases ih _ hlt hpos hleft with hl | hc
          · rcases ih _ (by omega) (by omega) hright with hr' | hc
            · left
              intro m hm
              by_cases hcut : m < cut n
              · exact hl m hcut
              · have hsub := hr' (m - cut n) (by omega)
                rwa [show lo + cut n + (m - cut n) = lo + m by omega,
                  show lo' + cut n + (m - cut n) = lo' + m by omega] at hsub
            · exact Or.inr (hc.mono (fun q hq => by simp [hq]) fun q hq => by simp [hq])
          · exact Or.inr (hc.mono (fun q hq => by simp [hq]) fun q hq => by simp [hq])
        · exact Or.inr ⟨_, List.mem_cons_self .., _, List.mem_cons_self .., hpair, hr⟩
      · obtain rfl : n = 1 := by omega
        rw [root_leaf (by omega), root_leaf (by omega)] at hr
        left
        intro m hm
        obtain rfl : m = 0 := by omega
        exact hr

end Climb

end HashTree
