import BitGraph.Tree.Sort

/-!
`tree-parallel.ts` and `tree-worker.ts`: the tree on every core.

* **Blocks.** `blockWalk` cuts the sorted leaves into nodes of the split; `dealAll` deals them to the workers.
  `cover_blockWalk`: the blocks are the leaves in order.
* **Workers.** `Pool` is the shared memory and what each worker has left; `fire` is one step of one worker.
  `Pool.Good` holds in whatever order the workers step.
* `buildTreeParallel_agrees`: the result is that of `buildTree`, and every schedule can be completed.

The rounding of `Math.log2` is a parameter; workers that fail are left out.
-/

namespace BitGraph

open Js HashTree

namespace Parallel

/-! ### Blocks -/

def PARALLEL_TREE_MIN : ℕ := 50000

/-- The end of a list in `Array.from`. -/
def maxArray : ℕ := 2 ^ 32 - 1

/-- `walk` inside `buildTreeParallel`: the nodes of the split no larger than `C`, which is never 0. -/
def blockWalk (C : ℕ) (lo hi : ℕ) : List (ℕ × ℕ) :=
  if hi - lo ≤ max 1 C then [(lo, hi)]
  else blockWalk C lo (lo + split (hi - lo)) ++ blockWalk C (lo + split (hi - lo)) hi
termination_by hi - lo
decreasing_by
  all_goals
    have hb := split_bounds (show 1 < hi - lo by omega)
    omega

/-- The block size, by the exponent that the rounded logarithm gives. -/
def blockSize (exponent : ℤ) : ℕ := max 4096 (2 ^ exponent.toNat)

/-- The first worker with the least load. -/
def lightest (load : List ℕ) : ℕ :=
  (List.range load.length).foldl (fun w i => if load.getD i 0 < load.getD w 0 then i else w) 0

/-- What each worker got, and how many leaves that is. -/
structure Shares where
  shares : List (List (ℕ × ℕ))
  load : List ℕ

def deal (s : Shares) (b : ℕ × ℕ) : Shares :=
  let w := lightest s.load
  ⟨s.shares.modify w (· ++ [b]), s.load.modify w (· + (b.2 - b.1))⟩

/-- The largest blocks first. -/
def dealAll (cores : ℕ) (blocks : List (ℕ × ℕ)) : Shares :=
  (blocks.mergeSort fun x y => decide (y.2 - y.1 ≤ x.2 - x.1)).foldl deal
    ⟨List.replicate cores [], List.replicate cores 0⟩

/-! ### Workers -/

/-- The bytes of a leaf in the shared buffer. -/
def leafBytes (l : TreeLeaf) : Bytes := l.placement :: (l.artifact ++ l.origin)

/-- A worker: the blocks it has left, the leaf it hashes next, and the roots it has. -/
structure Worker where
  todo : List (ℕ × ℕ)
  pos : ℕ
  roots : List Known

def Worker.start (share : List (ℕ × ℕ)) : Worker := ⟨share, (share.head?.map Prod.fst).getD 0, []⟩

/-- The shared leaf hashes, and the workers. -/
structure Pool where
  out : List Bytes
  workers : List Worker

section Workers

variable (H : HashFn)

/-- `subtree` of a worker, over the hashes in shared memory. -/
def workerSubtree (out : List Bytes) (lo hi : ℕ) : Bytes :=
  if 1 < hi - lo then
    merkleNodeHash H (workerSubtree out lo (lo + split (hi - lo))) (workerSubtree out (lo + split (hi - lo)) hi)
  else out.getD lo []
termination_by hi - lo
decreasing_by
  all_goals
    have hb := split_bounds ‹_›
    omega

/-- One step of a worker: the next leaf hash of its block, or the root of the block. -/
def work (leaves : List Bytes) (out : List Bytes) (w : Worker) : List Bytes × Worker :=
  match w.todo with
  | [] => (out, w)
  | (lo, hi) :: todo =>
      if w.pos < hi then
        (out.set w.pos (H (0x00 :: leaves.getD w.pos [])), { w with pos := w.pos + 1 })
      else
        (out, { Worker.start todo with
          roots := if 2 ≤ hi - lo then w.roots ++ [⟨lo, hi, workerSubtree H out lo hi⟩] else w.roots })

/-- The worker of that number steps. -/
def fire (leaves : List Bytes) (s : Pool) (w : ℕ) : Pool :=
  match s.workers[w]? with
  | none => s
  | some worker =>
      let (out, worker) := work H leaves s.out worker
      ⟨out, s.workers.set w worker⟩

def Pool.done (s : Pool) : Bool := s.workers.all fun w => w.todo.isEmpty

/-- The workers with something to do, before the first step. -/
def Pool.start (n : ℕ) (shares : List (List (ℕ × ℕ))) : Pool :=
  ⟨List.replicate n (List.replicate 32 0), (shares.filter fun s => !s.isEmpty).map Worker.start⟩

/-- The tree from what the workers left; the roots are in the order of the shares. -/
def joined (sorted : List TreeLeaf) (s : Pool) : Except Thrown BuiltTree := do
  let tree ← MerkleTree.new H s.out (s.workers.flatMap Worker.roots)
  return ⟨sorted, s.out, tree.root, tree⟩

/-- What the call resolves to when the workers step in that order; `none` where a worker has not finished. -/
def buildTreeParallel (log2Ceil : ℕ → ℕ → ℤ) (nodeParts : Option ℕ) (leaves : List TreeLeaf)
    (threads : Option ℕ) (schedule : List ℕ) : Option (Except Thrown BuiltTree) :=
  if leaves.length < PARALLEL_TREE_MIN then some (buildTree H leaves)
  else match nodeParts with
    | none => some (buildTree H leaves)
    | some availableParallelism =>
        let cores := threads.getD (min 8 availableParallelism)
        if cores < 2 then some (buildTree H leaves)
        else match sortTreeLeaves leaves with
          | .error e => some (.error e)
          | .ok sorted =>
              if maxArray < cores then some (.error (rangeError (js "Invalid array length")))
              else
                let n := sorted.length
                let blocks := blockWalk (blockSize (log2Ceil n cores)) 0 n
                let pool := schedule.foldl (fire H (sorted.map leafBytes)) (Pool.start n (dealAll cores blocks).shares)
                if pool.done then some (joined H sorted pool) else none

end Workers

/-! ### Blocks partition the leaves -/

variable {H : HashFn} {C n : ℕ} {b : ℕ × ℕ}

/-- Every block is a node of the split, with a leaf. -/
lemma node_of_mem_blockWalk {lo hi : ℕ} (hn : Node n lo hi) (hpos : 0 < n) (h : b ∈ blockWalk C lo hi) :
    Node n b.1 b.2 := by
  rw [blockWalk] at h
  split at h
  · rw [List.mem_singleton.mp h]
    exact hn
  · next hlarge =>
      have h1 : 1 < hi - lo := by omega
      have hb := split_bounds h1
      rcases List.mem_append.mp h with hl | hr
      · exact node_of_mem_blockWalk (node_split_left hn h1) hpos hl
      · exact node_of_mem_blockWalk (node_split_right hn h1) hpos hr
termination_by hi - lo
decreasing_by all_goals omega

/-- The blocks, one after the other, are the leaves in order. -/
lemma cover_blockWalk {lo hi : ℕ} (h : lo ≤ hi) :
    (blockWalk C lo hi).flatMap (fun b => List.range' b.1 (b.2 - b.1)) = List.range' lo (hi - lo) := by
  rw [blockWalk]
  split
  · simp
  · next hlarge =>
      have hb := split_bounds (show 1 < hi - lo by omega)
      rw [List.flatMap_append, @cover_blockWalk lo _ (by omega), @cover_blockWalk _ hi (by omega)]
      have happend := @List.range'_append_1 lo (split (hi - lo)) (hi - (lo + split (hi - lo)))
      rw [show lo + split (hi - lo) - lo = split (hi - lo) by omega, happend]
      congr 1
      omega
termination_by hi - lo
decreasing_by all_goals omega

lemma lightest_lt {load : List ℕ} (h : load ≠ []) : lightest load < load.length := by
  have hpos := List.length_pos_iff.mpr h
  have hfold : ∀ (l : List ℕ) (w : ℕ), (∀ i ∈ l, i < load.length) → w < load.length →
      l.foldl (fun w i => if load.getD i 0 < load.getD w 0 then i else w) w < load.length := by
    intro l
    induction l with
    | nil => exact fun w _ hw => hw
    | cons i l ih =>
        intro w hl hw
        rw [List.foldl_cons]
        refine ih _ (fun j hj => hl j (List.mem_cons_of_mem _ hj)) ?_
        split
        · exact hl i List.mem_cons_self
        · exact hw
  exact hfold _ 0 (fun i hi => List.mem_range.mp hi) hpos

lemma perm_flatten_modify {l : List (List (ℕ × ℕ))} : ∀ {w : ℕ}, w < l.length →
    (l.modify w (· ++ [b])).flatten.Perm (l.flatten ++ [b]) := by
  induction l with
  | nil => exact fun h => absurd h (Nat.not_lt_zero _)
  | cons s l ih =>
      intro w hw
      cases w with
      | zero =>
          rw [List.modify_zero_cons, List.flatten_cons, List.flatten_cons, List.append_assoc, List.append_assoc]
          exact (List.perm_append_comm).append_left s
      | succ w =>
          rw [List.modify_succ_cons, List.flatten_cons, List.flatten_cons, List.append_assoc]
          exact (ih (Nat.lt_of_succ_lt_succ hw)).append_left s

/-- The shares are the blocks, each dealt once. -/
lemma perm_dealAll {cores : ℕ} (hcores : 0 < cores) (blocks : List (ℕ × ℕ)) :
    (dealAll cores blocks).shares.flatten.Perm blocks := by
  have hfold : ∀ (l : List (ℕ × ℕ)) (s : Shares), s.shares.length = cores → s.load.length = cores →
      (l.foldl deal s).shares.flatten.Perm (s.shares.flatten ++ l) := by
    intro l
    induction l with
    | nil => exact fun s _ _ => by rw [List.append_nil]; exact List.Perm.refl _
    | cons b l ih =>
        intro s hs hload
        have hw : lightest s.load < s.load.length :=
          lightest_lt (List.length_pos_iff.mp (by omega))
        rw [List.foldl_cons]
        refine (ih (deal s b) ?_ ?_).trans ?_
        · rw [deal, List.length_modify, hs]
        · rw [deal, List.length_modify, hload]
        · rw [deal, List.append_cons s.shares.flatten b l]
          exact (perm_flatten_modify (by omega)).append_right l
  have hperm := hfold (blocks.mergeSort fun x y => decide (y.2 - y.1 ≤ x.2 - x.1))
    ⟨List.replicate cores [], List.replicate cores 0⟩ List.length_replicate List.length_replicate
  have hnil : (List.replicate cores ([] : List (ℕ × ℕ))).flatten = [] := by simp
  rw [hnil, List.nil_append] at hperm
  exact hperm.trans (List.mergeSort_perm _ _)

/-! ### Workers in any order -/

/-- The slot holds its leaf hash. -/
def Right (hashes out : List Bytes) (i : ℕ) : Prop := out.getD i [] = hashes.getD i []

/-- The subtree of a range whose slots are right is the subtree over the leaf hashes. -/
lemma workerSubtree_eq {hashes out : List Bytes} {lo hi : ℕ} (hlt : lo < hi)
    (h : ∀ i, lo ≤ i → i < hi → Right hashes out i) :
    workerSubtree H out lo hi = subtreeHash H hashes lo hi := by
  rw [workerSubtree]
  split
  · next h1 =>
      have hb := split_bounds h1
      rw [@workerSubtree_eq hashes out lo (lo + split (hi - lo)) (by omega) fun i hl hr => h i hl (by omega),
        @workerSubtree_eq hashes out (lo + split (hi - lo)) hi (by omega) fun i hl hr => h i (by omega) hr,
        ← subtreeHash_node h1]
  · next h1 =>
      rw [subtreeHash_leaf h1]
      exact h lo le_rfl hlt
termination_by hi - lo
decreasing_by all_goals omega

/-- A worker has done the first blocks of its share and is inside the next. -/
structure Worker.Good (H : HashFn) (hashes out : List Bytes) (share : List (ℕ × ℕ)) (w : Worker) : Prop where
  split : ∃ done, share = done ++ w.todo ∧ (∀ b ∈ done, ∀ i, b.1 ≤ i → i < b.2 → Right hashes out i)
    ∧ w.roots = (done.filter fun b => 2 ≤ b.2 - b.1).map fun b => ⟨b.1, b.2, subtreeHash H hashes b.1 b.2⟩
  inside : ∀ b ∈ w.todo.head?, b.1 ≤ w.pos ∧ w.pos ≤ b.2 ∧ ∀ i, b.1 ≤ i → i < w.pos → Right hashes out i

variable {hashes leaves out : List Bytes} {share : List (ℕ × ℕ)} {w : Worker}

lemma Worker.Good.mono {out' : List Bytes} (h : w.Good H hashes out share)
    (hout : ∀ i, Right hashes out i → Right hashes out' i) : w.Good H hashes out' share where
  split := by
    obtain ⟨done, hsplit, hright, hroots⟩ := h.split
    exact ⟨done, hsplit, fun b hb i hl hr => hout i (hright b hb i hl hr), hroots⟩
  inside b hb := by
    obtain ⟨hlo, hhi, hright⟩ := h.inside b hb
    exact ⟨hlo, hhi, fun i hl hr => hout i (hright i hl hr)⟩

/-- The leaf hashes over the shared leaves. -/
def hashesOf (H : HashFn) (leaves : List Bytes) : List Bytes := leaves.map fun l => H (0x00 :: l)

lemma hashesOf_getD {i : ℕ} (h : i < leaves.length) :
    (hashesOf H leaves).getD i [] = H (0x00 :: leaves.getD i []) := by
  rw [hashesOf, List.getD_eq_getElem _ _ (by rw [List.length_map]; exact h), List.getElem_map,
    List.getD_eq_getElem _ _ h]

lemma right_set {i j : ℕ} (hj : j < leaves.length) (h : Right (hashesOf H leaves) out i) :
    Right (hashesOf H leaves) (out.set j (H (0x00 :: leaves.getD j []))) i := by
  rw [Right] at h ⊢
  rw [List.getD_eq_getElem?_getD, List.getElem?_set]
  split
  · next heq =>
      subst heq
      split
      · rw [hashesOf_getD hj]
        rfl
      · next hout =>
          rw [List.getD_eq_getElem?_getD, List.getElem?_eq_none (by omega)] at h
          exact h
  · exact h

lemma right_set_self {j : ℕ} (hj : j < leaves.length) (hout : j < out.length) :
    Right (hashesOf H leaves) (out.set j (H (0x00 :: leaves.getD j []))) j := by
  rw [Right, hashesOf_getD hj, List.getD_eq_getElem _ _ (by rw [List.length_set]; exact hout),
    List.getElem_set_self]

/-- The blocks of the shares are ranges of leaves. -/
def Inside (n : ℕ) (share : List (ℕ × ℕ)) : Prop := ∀ b ∈ share, b.1 < b.2 ∧ b.2 ≤ n

/-- **A step of a worker** keeps what every worker has done, and the one who steps goes on. -/
lemma work_good (hin : Inside leaves.length share) (hlen : out.length = leaves.length)
    (h : w.Good H (hashesOf H leaves) out share) :
    (work H leaves out w).1.length = leaves.length
      ∧ (∀ i, Right (hashesOf H leaves) out i → Right (hashesOf H leaves) (work H leaves out w).1 i)
      ∧ (work H leaves out w).2.Good H (hashesOf H leaves) (work H leaves out w).1 share := by
  obtain ⟨todo, pos, roots⟩ := w
  obtain ⟨done, hsplit, hright, hroots⟩ := h.split
  dsimp only at hsplit hroots
  rw [work]
  cases todo with
  | nil => exact ⟨hlen, fun _ hi => hi, h⟩
  | cons b todo =>
      obtain ⟨lo, hi⟩ := b
      obtain ⟨hlo, hhi, hpos⟩ := h.inside (lo, hi) rfl
      dsimp only at hlo hhi hpos ⊢
      have hb := hin (lo, hi) (by rw [hsplit]; exact List.mem_append_right _ List.mem_cons_self)
      dsimp only at hb
      split
      · next hlt =>
          have hstep : ∀ i, Right (hashesOf H leaves) out i →
              Right (hashesOf H leaves) (out.set pos (H (0x00 :: leaves.getD pos []))) i :=
            fun i => right_set (by omega)
          refine ⟨by rw [List.length_set, hlen], hstep,
            ⟨⟨done, hsplit, fun b hb i hl hr => hstep i (hright b hb i hl hr), hroots⟩, fun b hb => ?_⟩⟩
          obtain rfl : (lo, hi) = b := Option.some.inj hb
          refine ⟨Nat.le_succ_of_le hlo, hlt, fun i hl hr => ?_⟩
          rcases Nat.lt_succ_iff_lt_or_eq.mp hr with hbefore | rfl
          · exact hstep i (hpos i hl hbefore)
          · exact right_set_self (by omega) (by omega)
      · next hend =>
          have hall : ∀ i, lo ≤ i → i < hi → Right (hashesOf H leaves) out i :=
            fun i hl hr => hpos i hl (by omega)
          refine ⟨hlen, fun _ hi => hi, ⟨⟨done ++ [(lo, hi)], ?_, fun b hb i hl hr => ?_, ?_⟩, fun b hb => ?_⟩⟩
          · rw [hsplit, List.append_assoc]
            rfl
          · rcases List.mem_append.mp hb with hdone | hlast
            · exact hright b hdone i hl hr
            · rw [List.mem_singleton.mp hlast] at hl hr
              exact hall i hl hr
          · dsimp only
            rw [List.filter_append, List.map_append, ← hroots, workerSubtree_eq hb.1 hall]
            by_cases h2 : 2 ≤ hi - lo
            · rw [if_pos h2, List.filter_cons_of_pos (by simpa using h2)]
              rfl
            · rw [if_neg h2, List.filter_cons_of_neg (by simpa using h2)]
              exact (List.append_nil _).symm
          · obtain ⟨b', todo, rfl⟩ : ∃ b' rest, todo = b' :: rest := by
              cases todo with
              | nil => exact nomatch hb
              | cons b' rest => exact ⟨b', rest, rfl⟩
            obtain rfl : b' = b := Option.some.inj hb
            refine ⟨le_rfl, (hin b' (by rw [hsplit]; simp)).1.le, fun i hl hr => ?_⟩
            exact absurd (lt_of_le_of_lt hl hr) (lt_irrefl _)

/-- Every worker is good, over the one shared memory. -/
structure Pool.Good (H : HashFn) (leaves : List Bytes) (shares : List (List (ℕ × ℕ))) (s : Pool) : Prop where
  length : s.out.length = leaves.length
  workers : List.Forall₂ (Worker.Good H (hashesOf H leaves) s.out) shares s.workers

variable {shares : List (List (ℕ × ℕ))} {s : Pool}

/-- **One step** of any worker keeps every worker good. -/
lemma fire_good (hin : ∀ share ∈ shares, Inside leaves.length share) (h : s.Good H leaves shares) (w : ℕ) :
    (fire H leaves s w).Good H leaves shares := by
  rw [fire]
  cases hworker : s.workers[w]? with
  | none => exact h
  | some worker =>
      obtain ⟨hlen, hall⟩ := List.forall₂_iff_get.mp h.workers
      obtain ⟨hw, rfl⟩ := List.getElem?_eq_some_iff.mp hworker
      have hshare := hin shares[w] (List.getElem_mem (by omega))
      obtain ⟨hout, hstep, hgood⟩ := work_good hshare h.length (hall w (by omega) hw)
      refine ⟨hout, List.forall₂_iff_get.mpr ⟨by rw [List.length_set, hlen], fun i hi hi' => ?_⟩⟩
      rw [List.length_set] at hi'
      rw [List.get_eq_getElem, List.get_eq_getElem, List.getElem_set]
      split
      · next heq =>
          subst heq
          exact hgood
      · exact (hall i hi hi').mono hstep

lemma foldl_fire_good (hin : ∀ share ∈ shares, Inside leaves.length share) (schedule : List ℕ) :
    ∀ {s : Pool}, s.Good H leaves shares → (schedule.foldl (fire H leaves) s).Good H leaves shares := by
  induction schedule with
  | nil => exact fun h => h
  | cons w schedule ih => exact fun h => ih (fire_good hin h w)

lemma start_good (hin : ∀ share ∈ shares, Inside leaves.length share) :
    (Pool.start leaves.length shares).Good H leaves (shares.filter fun s => !s.isEmpty) where
  length := List.length_replicate
  workers := by
    rw [Pool.start, List.forall₂_map_right_iff, List.forall₂_same]
    intro share hshare
    refine ⟨⟨[], rfl, fun b hb => (nomatch hb), rfl⟩, fun b hb => ?_⟩
    have hpos : (Worker.start share).pos = b.1 := by
      rw [Worker.start, show share.head? = some b from hb]
      rfl
    have hb := hin share (List.mem_of_mem_filter hshare) b (List.mem_of_head? hb)
    rw [hpos]
    exact ⟨le_rfl, hb.1.le, fun i hl hr => absurd (lt_of_le_of_lt hl hr) (lt_irrefl _)⟩

/-! ### When all workers are done -/

/-- What the workers leave: the leaf hashes, and the roots of the blocks of two leaves or more. -/
lemma done_good (hcover : ∀ i < leaves.length, ∃ share ∈ shares, ∃ b ∈ share, b.1 ≤ i ∧ i < b.2)
    (h : s.Good H leaves shares) (hdone : s.done = true) :
    s.out = hashesOf H leaves ∧ ∀ k ∈ s.workers.flatMap Worker.roots, ∃ share ∈ shares, ∃ b ∈ share,
      2 ≤ b.2 - b.1 ∧ k = ⟨b.1, b.2, subtreeHash H (hashesOf H leaves) b.1 b.2⟩ := by
  obtain ⟨hlen, hall⟩ := List.forall₂_iff_get.mp h.workers
  have hempty : ∀ {i : ℕ} (hi : i < s.workers.length), s.workers[i].todo = [] := fun hi =>
    List.isEmpty_iff.mp (List.all_eq_true.mp hdone _ (List.getElem_mem hi))
  constructor
  · refine List.ext_getElem (by rw [h.length, hashesOf, List.length_map]) fun i hi hi' => ?_
    obtain ⟨share, hshare, b, hb, hl, hr⟩ := hcover i (by rw [← h.length]; exact hi)
    obtain ⟨j, hj, rfl⟩ := List.getElem_of_mem hshare
    obtain ⟨done, hsplit, hright, -⟩ := (hall j hj (by omega)).split
    rw [List.get_eq_getElem, List.get_eq_getElem, hempty, List.append_nil] at hsplit
    have hslot := hright b (hsplit ▸ hb) i hl hr
    rwa [Right, List.getD_eq_getElem _ _ hi, List.getD_eq_getElem _ _ hi'] at hslot
  · intro k hk
    obtain ⟨w, hw, hk⟩ := List.mem_flatMap.mp hk
    obtain ⟨j, hj, rfl⟩ := List.getElem_of_mem hw
    obtain ⟨done, hsplit, -, hroots⟩ := (hall j (by omega) hj).split
    rw [List.get_eq_getElem, List.get_eq_getElem, hempty, List.append_nil] at hsplit
    rw [List.get_eq_getElem] at hroots
    rw [hroots] at hk
    obtain ⟨b, hb, rfl⟩ := List.mem_map.mp hk
    obtain ⟨hb, h2⟩ := List.mem_filter.mp hb
    exact ⟨shares[j], List.getElem_mem _, b, hsplit ▸ hb, by simpa using h2, rfl⟩

/-! ### Progress -/

/-- The steps a worker has left. -/
def Worker.left (w : Worker) : ℕ :=
  match w.todo with
  | [] => 0
  | b :: todo => b.2 - w.pos + 1 + (todo.map fun b => b.2 - b.1 + 1).sum

lemma left_work (h : w.todo ≠ []) : (work H leaves out w).2.left < w.left := by
  obtain ⟨todo, pos, roots⟩ := w
  cases todo with
  | nil => exact absurd rfl h
  | cons b todo =>
      obtain ⟨lo, hi⟩ := b
      rw [work]
      dsimp only
      split
      · next hlt =>
          simp only [Worker.left]
          omega
      · next hend =>
          cases todo with
          | nil => simp [Worker.left, Worker.start]
          | cons b todo =>
              simp only [Worker.left, Worker.start, List.head?_cons, Option.map_some, Option.getD_some,
                List.map_cons, List.sum_cons]
              omega

lemma sum_set_lt {l : List Worker} {w' : Worker} : ∀ {i : ℕ} (hi : i < l.length), w'.left < l[i].left →
    ((l.set i w').map Worker.left).sum < (l.map Worker.left).sum := by
  induction l with
  | nil => exact fun hi => absurd hi (Nat.not_lt_zero _)
  | cons x l ih =>
      intro i hi hlt
      cases i with
      | zero =>
          rw [List.set_cons_zero, List.map_cons, List.map_cons, List.sum_cons, List.sum_cons]
          exact Nat.add_lt_add_right hlt _
      | succ i =>
          rw [List.set_cons_succ, List.map_cons, List.map_cons, List.sum_cons, List.sum_cons]
          exact Nat.add_lt_add_left (ih (Nat.lt_of_succ_lt_succ hi) hlt) _

/-- From any state the workers can finish. -/
lemma exists_done (H : HashFn) (leaves : List Bytes) (s : Pool) :
    ∃ more : List ℕ, (more.foldl (fire H leaves) s).done = true := by
  by_cases hdone : s.done = true
  · exact ⟨[], hdone⟩
  · rw [Pool.done, List.all_eq_true] at hdone
    push Not at hdone
    obtain ⟨w, hw, htodo⟩ := hdone
    obtain ⟨i, hi, rfl⟩ := List.getElem_of_mem hw
    have hlt : ((fire H leaves s i).workers.map Worker.left).sum < (s.workers.map Worker.left).sum := by
      rw [fire, List.getElem?_eq_getElem hi]
      exact sum_set_lt hi (left_work (by simpa using htodo))
    obtain ⟨more, hmore⟩ := exists_done H leaves (fire H leaves s i)
    exact ⟨i :: more, hmore⟩
termination_by (s.workers.map Worker.left).sum

/-! ### The result -/

/-- Two built trees with the same leaves and root, and the same path of every leaf after any calls. -/
structure SameTree (H : HashFn) (a b : BuiltTree) : Prop where
  sorted : a.sorted = b.sorted
  leafHashes : a.leafHashes = b.leafHashes
  root : a.root = b.root
  paths : ∀ (calls calls' : List ℕ) (i : ℕ), i < a.sorted.length → ∃ path t t',
    (a.tree.afterPaths H calls).path H (Number.ofNat i) = .ok (path, t)
      ∧ (b.tree.afterPaths H calls').path H (Number.ofNat i) = .ok (path, t')

variable {sorted leaves' : List TreeLeaf} {known : List Known}

lemma hashesOf_leafBytes : hashesOf H (sorted.map leafBytes)
    = sorted.map fun l => H (0 :: l.placement :: (l.artifact ++ l.origin)) := by
  rw [hashesOf, List.map_map]
  rfl

/-- The sorted leaves are few enough for the keys of the memo. -/
lemma agrees_of_sorted (hsort : sortTreeLeaves leaves' = .ok sorted)
    (hknown : KnownCorrect H (hashesOf H (sorted.map leafBytes)) known) :
    MerkleAgrees H (hashesOf H (sorted.map leafBytes)) known := by
  obtain ⟨hsortable, hperm, -⟩ := sortTreeLeaves_eq_ok.mp hsort
  have hlen : (hashesOf H (sorted.map leafBytes)).length = sorted.length := by
    rw [hashesOf, List.length_map, List.length_map]
  have hmax : sorted.length ≤ 1000000 := hperm.length_eq.trans_le hsortable.length_le
  have hne : hashesOf H (sorted.map leafBytes) ≠ [] := by
    intro hnil
    rw [hnil, List.length_nil, eq_comm, List.length_eq_zero_iff] at hlen
    rw [hlen] at hperm
    exact hsortable.ne_nil hperm.nil_eq.symm
  refine merkleAgrees_of_keysAgree (keysAgree_of_exact hne (by rw [hlen]; nlinarith)) hne (by omega) ?_ hknown
  rw [hashesOf, List.forall_mem_map]
  exact fun l _ => HashFn.length_apply H _

/-- Any correct roots give the tree of `buildTree`. -/
lemma same_of_known (hsort : sortTreeLeaves leaves' = .ok sorted)
    (hknown : KnownCorrect H (hashesOf H (sorted.map leafBytes)) known) :
    ∃ tree b, MerkleTree.new H (hashesOf H (sorted.map leafBytes)) known = .ok tree
      ∧ buildTree H leaves' = .ok b
      ∧ SameTree H ⟨sorted, hashesOf H (sorted.map leafBytes), tree.root, tree⟩ b := by
  obtain ⟨tree, hnew, hroot, hpaths⟩ := agrees_of_sorted hsort hknown
  have hnone : KnownCorrect H (hashesOf H (sorted.map leafBytes)) [] := fun k hk => nomatch hk
  obtain ⟨plain, hplain, hroot', hpaths'⟩ := agrees_of_sorted hsort hnone
  have hbuild : buildTree H leaves' = .ok ⟨sorted, hashesOf H (sorted.map leafBytes), plain.root, plain⟩ := by
    rw [buildTree, hsort, ok_bind]
    dsimp only
    rw [← hashesOf_leafBytes, hplain]
    rfl
  refine ⟨tree, _, hnew, hbuild, rfl, rfl, Except.ok.inj (hroot.symm.trans hroot'), fun calls calls' i hi => ?_⟩
  have hi' : i < (hashesOf H (sorted.map leafBytes)).length := by
    rwa [hashesOf, List.length_map, List.length_map]
  obtain ⟨path, hpath, ⟨t, ht⟩, -⟩ := hpaths calls i hi'
  obtain ⟨path', hpath', ⟨t', ht'⟩, -⟩ := hpaths' calls' i hi'
  obtain rfl : path = path' := Except.ok.inj (hpath.symm.trans hpath')
  exact ⟨path, t, t', ht, ht'⟩

/-- The blocks are nodes of the split that partition the sorted leaves, and each is dealt to one worker. -/
structure Partition (n : ℕ) (cores : ℕ) (blocks : List (ℕ × ℕ)) : Prop where
  nodes : ∀ b ∈ blocks, Node n b.1 b.2
  cover : blocks.flatMap (fun b => List.range' b.1 (b.2 - b.1)) = List.range n
  dealt : (dealAll cores blocks).shares.flatten.Perm blocks

lemma partition_blockWalk (hn : 0 < n) {cores : ℕ} (hcores : 0 < cores) (C : ℕ) :
    Partition n cores (blockWalk C 0 n) where
  nodes _ hb := node_of_mem_blockWalk .root hn hb
  cover := by
    rw [cover_blockWalk (Nat.zero_le n), List.range_eq_range']
    rfl
  dealt := perm_dealAll hcores _

/-- The pool of a partition, done, holds the leaf hashes and correct roots. -/
lemma done_of_partition {cores : ℕ} {blocks : List (ℕ × ℕ)} (hn : 0 < leaves.length)
    (hp : Partition leaves.length cores blocks) (schedule : List ℕ)
    (hdone : (schedule.foldl (fire H leaves)
      (Pool.start leaves.length (dealAll cores blocks).shares)).done = true) :
    let s := schedule.foldl (fire H leaves) (Pool.start leaves.length (dealAll cores blocks).shares)
    s.out = hashesOf H leaves ∧ KnownCorrect H (hashesOf H leaves) (s.workers.flatMap Worker.roots) := by
  have hblock : ∀ share ∈ (dealAll cores blocks).shares, ∀ b ∈ share, b ∈ blocks := fun share hshare b hb =>
    hp.dealt.mem_iff.mp (List.mem_flatten.mpr ⟨share, hshare, hb⟩)
  have hlen : (hashesOf H leaves).length = leaves.length := by rw [hashesOf, List.length_map]
  have hin : ∀ share ∈ (dealAll cores blocks).shares, Inside leaves.length share :=
    fun share hshare b hb => (hp.nodes b (hblock share hshare b hb)).bounds hn
  have hgood := foldl_fire_good (H := H) (fun share hs => hin share (List.mem_of_mem_filter hs)) schedule
    (start_good hin)
  have hcover : ∀ i < leaves.length, ∃ share ∈ (dealAll cores blocks).shares.filter fun s => !s.isEmpty,
      ∃ b ∈ share, b.1 ≤ i ∧ i < b.2 := by
    intro i hi
    have hmem : i ∈ blocks.flatMap fun b => List.range' b.1 (b.2 - b.1) := by
      rw [hp.cover]
      exact List.mem_range.mpr hi
    obtain ⟨b, hb, hrange⟩ := List.mem_flatMap.mp hmem
    obtain ⟨share, hshare, hbshare⟩ := List.mem_flatten.mp (hp.dealt.mem_iff.mpr hb)
    have hne : (!share.isEmpty) = true := by
      cases share with
      | nil => exact nomatch hbshare
      | cons x l => rfl
    rw [List.mem_range'_1] at hrange
    exact ⟨share, List.mem_filter.mpr ⟨hshare, hne⟩, b, hbshare, hrange.1, by omega⟩
  obtain ⟨hout, hroots⟩ := done_good hcover hgood hdone
  refine ⟨hout, fun k hk => ?_⟩
  obtain ⟨share, hshare, b, hb, h2, rfl⟩ := hroots k hk
  have hnode := hp.nodes b (hblock share (List.mem_of_mem_filter hshare) b hb)
  have hbounds := hnode.bounds hn
  refine ⟨hlen.symm ▸ hnode, by dsimp only; omega, merkleRoot_slice ?_ hbounds.1 (by rw [hlen]; exact hbounds.2)⟩
  rw [hashesOf, List.forall_mem_map]
  exact fun l _ => HashFn.length_apply H _

/-- A plain result is its own. -/
lemma same_self {a : BuiltTree} (h : buildTree H leaves' = .ok a) : SameTree H a a := by
  cases hsort : sortTreeLeaves leaves' with
  | error e =>
      rw [buildTree, hsort] at h
      cases h
  | ok sorted =>
      have hnone : KnownCorrect H (hashesOf H (sorted.map leafBytes)) [] := fun k hk => by cases hk
      obtain ⟨tree, b, hnew, hbuild, hsame⟩ := same_of_known hsort hnone
      obtain rfl := Except.ok.inj (h.symm.trans hbuild)
      refine ⟨rfl, rfl, rfl, fun calls calls' i hi => ?_⟩
      rw [← hsame.sorted] at hi
      obtain ⟨path, t, t', -, ht⟩ := hsame.paths [] calls i hi
      obtain ⟨path', u, u', hu, hu'⟩ := hsame.paths [] calls' i hi
      obtain ⟨path'', v, v', hv, hv'⟩ := hsame.paths [] calls i hi
      obtain ⟨rfl, -⟩ := Prod.mk.inj (Except.ok.inj (hu.symm.trans hv))
      obtain ⟨rfl, -⟩ := Prod.mk.inj (Except.ok.inj (ht.symm.trans hv'))
      exact ⟨_, t', u', ht, hu'⟩

/-- What a result says against `buildTree`: the same tree, or its error, or too many threads for an array. -/
structure Agrees (H : HashFn) (leaves : List TreeLeaf) (cores : ℕ) (r : Except Thrown BuiltTree) : Prop where
  ok : ∀ a, r = .ok a → ∃ b, buildTree H leaves = .ok b ∧ SameTree H a b
  error : ∀ e, r = .error e → buildTree H leaves = .error e ∨ maxArray < cores

lemma agrees_buildTree {cores : ℕ} : Agrees H leaves' cores (buildTree H leaves') where
  ok a ha := ⟨a, ha, same_self ha⟩
  error _ he := Or.inl he

lemma agrees_joined {cores : ℕ} {blocks : List (ℕ × ℕ)} (hsort : sortTreeLeaves leaves' = .ok sorted)
    (hp : Partition sorted.length cores blocks) (schedule : List ℕ)
    (hdone : (schedule.foldl (fire H (sorted.map leafBytes))
      (Pool.start sorted.length (dealAll cores blocks).shares)).done = true) :
    Agrees H leaves' cores (joined H sorted (schedule.foldl (fire H (sorted.map leafBytes))
      (Pool.start sorted.length (dealAll cores blocks).shares))) := by
  have hlen : (sorted.map leafBytes).length = sorted.length := List.length_map _
  have hpos : 0 < sorted.length := by
    obtain ⟨hsortable, hperm, -⟩ := sortTreeLeaves_eq_ok.mp hsort
    rw [hperm.length_eq]
    exact List.length_pos_iff.mpr hsortable.ne_nil
  rw [← hlen] at hp hdone hpos ⊢
  obtain ⟨hout, hknown⟩ := done_of_partition hpos hp schedule hdone
  obtain ⟨tree, b, hnew, hbuild, hsame⟩ := same_of_known hsort hknown
  have hjoined : joined H sorted (schedule.foldl (fire H (sorted.map leafBytes))
      (Pool.start (sorted.map leafBytes).length (dealAll cores blocks).shares))
      = .ok ⟨sorted, hashesOf H (sorted.map leafBytes), tree.root, tree⟩ := by
    rw [joined, hout, hnew]
    rfl
  rw [hjoined]
  exact ⟨fun a ha => ⟨b, hbuild, Except.ok.inj ha ▸ hsame⟩, fun e he => nomatch he⟩

/-- **The parallel build equals the plain one**: the blocks are nodes of the split that partition the sorted
leaves, every result is that of `buildTree` in whatever order the workers step, and from any order they can
finish. -/
theorem buildTreeParallel_agrees (H : HashFn) (log2Ceil : ℕ → ℕ → ℤ) (nodeParts : Option ℕ)
    (leaves : List TreeLeaf) (threads : Option ℕ) :
    (∀ sorted, sortTreeLeaves leaves = .ok sorted → ∀ cores, 0 < cores → Partition sorted.length cores
      (blockWalk (blockSize (log2Ceil sorted.length cores)) 0 sorted.length))
    ∧ (∀ schedule r, buildTreeParallel H log2Ceil nodeParts leaves threads schedule = some r →
      Agrees H leaves (threads.getD (min 8 (nodeParts.getD 0))) r)
    ∧ ∀ schedule, ∃ more,
      (buildTreeParallel H log2Ceil nodeParts leaves threads (schedule ++ more)).isSome = true := by
  have hpartition : ∀ sorted, sortTreeLeaves leaves = .ok sorted → ∀ cores, 0 < cores →
      Partition sorted.length cores (blockWalk (blockSize (log2Ceil sorted.length cores)) 0 sorted.length) := by
    intro sorted hsort cores hcores
    obtain ⟨hsortable, hperm, -⟩ := sortTreeLeaves_eq_ok.mp hsort
    exact partition_blockWalk (hperm.length_eq ▸ List.length_pos_iff.mpr hsortable.ne_nil) hcores _
  refine ⟨hpartition, fun schedule r hr => ?_, fun schedule => ?_⟩
  · rw [buildTreeParallel.eq_def] at hr
    split at hr
    · exact Option.some.inj hr ▸ agrees_buildTree
    · split at hr
      · exact Option.some.inj hr ▸ agrees_buildTree
      · dsimp only at hr
        rw [Option.getD_some]
        split at hr
        · exact Option.some.inj hr ▸ agrees_buildTree
        · split at hr
          · next e hsort =>
              obtain rfl := Option.some.inj hr
              refine ⟨fun a ha => (by cases ha), fun e' he => Or.inl ?_⟩
              rw [buildTree, hsort, ← he]
              rfl
          · next sorted hsort =>
              split at hr
              · next hmax =>
                  obtain rfl := Option.some.inj hr
                  exact ⟨fun a ha => (by cases ha), fun e' _ => Or.inr hmax⟩
              · split at hr
                · next hdone =>
                    obtain rfl := Option.some.inj hr
                    exact agrees_joined hsort (hpartition sorted hsort _ (by omega)) schedule hdone
                · cases hr
  · cases hsort : sortTreeLeaves leaves with
    | error e =>
        refine ⟨[], ?_⟩
        rw [buildTreeParallel.eq_def]
        split
        · rfl
        · split
          · rfl
          · dsimp only
            split
            · rfl
            · rw [hsort]
              rfl
    | ok sorted =>
        obtain ⟨more, hmore⟩ := exists_done H (sorted.map leafBytes) (schedule.foldl
          (fire H (sorted.map leafBytes)) (Pool.start sorted.length (dealAll
            (threads.getD (min 8 (nodeParts.getD 0))) (blockWalk (blockSize (log2Ceil sorted.length
              (threads.getD (min 8 (nodeParts.getD 0))))) 0 sorted.length)).shares))
        refine ⟨more, ?_⟩
        rw [← List.foldl_append] at hmore
        rw [buildTreeParallel.eq_def]
        split
        · rfl
        · cases nodeParts with
          | none => rfl
          | some parallelism =>
              dsimp only [Option.getD_some] at hmore ⊢
              split
              · rfl
              · rw [hsort]
                dsimp only
                split
                · rfl
                · rfl

end Parallel

end BitGraph
