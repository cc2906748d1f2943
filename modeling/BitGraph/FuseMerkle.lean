import Mathlib.Data.List.GetD
import BitGraph.Js.Number
import BitGraph.Lib.HashTree
import BitGraph.Sha256

/-!
`fuse-merkle.ts`: the Merkle tree of a set.

Three implementations of one tree (RFC 6962 hashing, RFC 9162 inclusion proofs) over a list
of leaf hashes.

* **Root and path.** `merkleRoot` and `merklePath` recurse on the split; `merkleRoot_eq` and
  `merklePath_eq` identify them with the abstract tree.
* **Verifier.** `merkleRootFromPath` folds a path with the bits of the index;
  `rootFromPathLoop_eq` identifies the loop with a climb along `HashTree.sides`.
* **Soundness.** `merkleRootFromPath_sound`: an accepted path is the leaf's own, or two node
  preimages collide.
* **Tree with memo.** `MerkleTree` computes every subtree once, under a number key.
  `merkleTree_agrees_iff` states when it returns what the other two do: the key of a range is
  a double, so in a large enough tree two ranges share one.
-/

namespace BitGraph

open Js HashTree

variable (H : HashFn)

/-! ### Hashing -/

/-- The hash of one leaf. -/
def merkleLeafHash (bytes : Bytes) : Bytes := H (0x00 :: bytes)

/-- The bytes hashed for one inner node. -/
def nodePreimage (left right : Bytes) : Bytes := 0x01 :: (left ++ right)

/-- One inner node. -/
def merkleNodeHash (left right : Bytes) : Bytes := H (nodePreimage left right)

@[simp] lemma length_merkleNodeHash (left right : Bytes) :
    (merkleNodeHash H left right).length = 32 := H.length_apply _

/-- The loop of `split`, from the power of two reached so far. -/
def splitFrom (k n : ℕ) (hk : 0 < k) : ℕ :=
  if k * 2 < n then splitFrom (k * 2) n (by omega) else k
termination_by n - k

/-- The largest power of two below `n`. -/
def split (n : ℕ) : ℕ := splitFrom 1 n one_pos

lemma splitFrom_eq {e n : ℕ} (h : 2 ^ e < n) : splitFrom (2 ^ e) n (Nat.two_pow_pos e) = cut n := by
  by_cases hlt : 2 ^ e * 2 < n
  · have hstep : splitFrom (2 ^ e) n (Nat.two_pow_pos e)
        = splitFrom (2 ^ (e + 1)) n (Nat.two_pow_pos _) := by
      rw [splitFrom, if_pos hlt]
      rfl
    rw [hstep]
    exact splitFrom_eq (by rwa [pow_succ])
  · rw [splitFrom, if_neg hlt, cut_eq h (by omega)]
termination_by n - 2 ^ e
decreasing_by
  have : 2 ^ (e + 1) = 2 ^ e * 2 := pow_succ 2 e
  have : 0 < 2 ^ e := by positivity
  omega

lemma split_eq {n : ℕ} (h : 1 < n) : split n = cut n := splitFrom_eq (e := 0) h

lemma split_bounds {n : ℕ} (h : 1 < n) : 0 < split n ∧ split n < n := by
  rw [split_eq h]
  exact ⟨cut_pos n, cut_lt h⟩

/-! ### Root and path -/

/-- `build` inside `merkleRoot`: the leaves from `lo` up to `hi`. -/
def merkleBuild (leafHashes : List Bytes) (lo hi : ℕ) : Bytes :=
  if 1 < hi - lo then
    merkleNodeHash H (merkleBuild leafHashes lo (lo + split (hi - lo)))
      (merkleBuild leafHashes (lo + split (hi - lo)) hi)
  else leafHashes.getD lo []
termination_by hi - lo
decreasing_by
  all_goals
    have hb := split_bounds ‹_›
    omega

/-- The root over a list of leaf hashes. -/
def merkleRoot (leafHashes : List Bytes) : Except Thrown Bytes :=
  if leafHashes.length = 0 then .error (typeError (js "a Merkle tree needs at least one leaf"))
  else if leafHashes.any fun h => h.length != 32 then
    .error (typeError (js "a leaf hash is 32 bytes"))
  else .ok (merkleBuild H leafHashes 0 leafHashes.length)

/-- `Array.prototype.slice`. -/
def slice {α : Type*} (l : List α) (a b : ℕ) : List α := (l.drop a).take (b - a)

/-- `walk` inside `merklePath`: the siblings of leaf `m` below the range from `lo` to `hi`. -/
def merklePathWalk (leafHashes : List Bytes) (lo hi m : ℕ) : Except Thrown (List Bytes) :=
  if 1 < hi - lo then
    if m < lo + split (hi - lo) then do
      let path ← merklePathWalk leafHashes lo (lo + split (hi - lo)) m
      let sibling ← merkleRoot H (slice leafHashes (lo + split (hi - lo)) hi)
      return path ++ [sibling]
    else do
      let path ← merklePathWalk leafHashes (lo + split (hi - lo)) hi m
      let sibling ← merkleRoot H (slice leafHashes lo (lo + split (hi - lo)))
      return path ++ [sibling]
  else return []
termination_by hi - lo
decreasing_by
  all_goals
    have hb := split_bounds ‹_›
    omega

/-- A JavaScript number as an index below `n`. -/
def index? (i : Number) (n : ℕ) : Option ℕ :=
  i.toInt?.bind fun k => if k < 0 ∨ n ≤ k then none else some k.toNat

/-- The inclusion path of the leaf at `index`. -/
def merklePath (leafHashes : List Bytes) (index : Number) : Except Thrown (List Bytes) :=
  if leafHashes.length = 0 then .error (typeError (js "a Merkle tree needs at least one leaf"))
  else match index? index leafHashes.length with
    | none => .error (rangeError (js "leaf index out of range"))
    | some m => merklePathWalk H leafHashes 0 leafHashes.length m

/-! ### The verifier -/

/-- `x >>> 1`, which reads the low 32 bits. -/
def shr1 (x : ℕ) : ℕ := x % 2 ^ 32 / 2

/-- The inner loop of `merkleRootFromPath`: levels on which a last node has no sibling. -/
def skipLevels (fn sn : ℕ) : ℕ × ℕ :=
  if fn % 2 = 0 ∧ fn ≠ 0 then skipLevels (shr1 fn) (shr1 sn) else (fn, sn)
termination_by fn
decreasing_by
  rw [shr1]
  omega

/-- The loop of `merkleRootFromPath` over the path, with its check at the end. -/
def rootFromPathLoop (fn sn : ℕ) (r : Bytes) : List Bytes → Option Bytes
  | [] => if sn ≠ 0 then none else some r
  | p :: path =>
      if p.length ≠ 32 then none
      else if sn = 0 then none
      else if fn % 2 = 1 ∨ fn = sn then
        let level := if fn % 2 = 0 then skipLevels fn sn else (fn, sn)
        rootFromPathLoop (shr1 level.1) (shr1 level.2) (merkleNodeHash H p r) path
      else rootFromPathLoop (shr1 fn) (shr1 sn) (merkleNodeHash H r p) path

/-- The root one leaf hash, its index, the tree size and its path give. -/
def merkleRootFromPath (leafHash : Bytes) (index size : Number) (path : List Bytes) :
    Option Bytes :=
  match index.toInt?, size.toInt? with
  | some i, some s =>
      if s < 1 ∨ i < 0 ∨ s ≤ i then none
      else if leafHash.length ≠ 32 then none
      else rootFromPathLoop H i.toNat (roundNat (s.toNat - 1)) leafHash path
  | _, _ => none

/-! ### What is hashed -/

/-- The byte strings `merkleRoot` hashes over the leaves from `lo` up to `hi`. -/
def buildPreimages (leafHashes : List Bytes) (lo hi : ℕ) : List Bytes :=
  if 1 < hi - lo then
    nodePreimage (merkleBuild H leafHashes lo (lo + split (hi - lo)))
        (merkleBuild H leafHashes (lo + split (hi - lo)) hi)
      :: (buildPreimages leafHashes lo (lo + split (hi - lo))
        ++ buildPreimages leafHashes (lo + split (hi - lo)) hi)
  else []
termination_by hi - lo
decreasing_by
  all_goals
    have hb := split_bounds ‹_›
    omega

/-- The byte strings `merkleRootFromPath` hashes, in its loop over the path. -/
def loopPreimages (fn sn : ℕ) (r : Bytes) : List Bytes → List Bytes
  | [] => []
  | p :: path =>
      if p.length ≠ 32 then []
      else if sn = 0 then []
      else if fn % 2 = 1 ∨ fn = sn then
        let level := if fn % 2 = 0 then skipLevels fn sn else (fn, sn)
        nodePreimage p r :: loopPreimages (shr1 level.1) (shr1 level.2) (merkleNodeHash H p r) path
      else nodePreimage r p :: loopPreimages (shr1 fn) (shr1 sn) (merkleNodeHash H r p) path

/-- The byte strings `merkleRootFromPath` hashes. -/
def pathPreimages (leafHash : Bytes) (index size : Number) (path : List Bytes) : List Bytes :=
  match index.toInt?, size.toInt? with
  | some i, some s => loopPreimages H i.toNat (roundNat (s.toNat - 1)) leafHash path
  | _, _ => []

/-! ### The tree with a memo -/

/-- `Map<number, Uint8Array>`, the newest entry of a key first. -/
abbrev Memo := List (ℕ × Bytes)

/-- A subtree root computed elsewhere, for the leaves from `lo` up to `hi`. -/
structure Known where
  lo : ℕ
  hi : ℕ
  hash : Bytes

/-- `lo * (size + 1) + hi`, each operation rounded to a double. -/
def memoKey (size lo hi : ℕ) : ℕ := roundNat (roundNat (lo * (size + 1)) + hi)

/-- `MerkleTree.subtree`, with the memo before and after. -/
def subtree (leafHashes : List Bytes) (size lo hi : ℕ) (memo : Memo) : Bytes × Memo :=
  if 1 < hi - lo then
    match memo.lookup (memoKey size lo hi) with
    | some known => (known, memo)
    | none =>
        let left := subtree leafHashes size lo (lo + split (hi - lo)) memo
        let right := subtree leafHashes size (lo + split (hi - lo)) hi left.2
        let h := merkleNodeHash H left.1 right.1
        (h, (memoKey size lo hi, h) :: right.2)
  else (leafHashes.getD lo [], memo)
termination_by hi - lo
decreasing_by
  all_goals
    have hb := split_bounds ‹_›
    omega

/-- The whole tree over a list of leaf hashes. -/
structure MerkleTree where
  size : ℕ
  root : Bytes
  leafHashes : List Bytes
  memo : Memo

/-- The loop of the constructor over `known`. -/
def knownMemo (size : ℕ) : List Known → Memo → Except Thrown Memo
  | [], memo => .ok memo
  | k :: known, memo =>
      if k.hash.length ≠ 32 ∨ ¬ (k.hi ≤ size ∧ k.lo + 2 ≤ k.hi) then
        .error (typeError (js ("a known subtree root is 32 bytes over a range of at least two " ++
          "leaves inside the tree")))
      else knownMemo size known ((memoKey size k.lo k.hi, k.hash) :: memo)

/-- The constructor of `MerkleTree`. -/
def MerkleTree.new (leafHashes : List Bytes) (known : List Known) : Except Thrown MerkleTree :=
  if leafHashes.length = 0 then .error (typeError (js "a Merkle tree needs at least one leaf"))
  else if leafHashes.any fun h => h.length != 32 then
    .error (typeError (js "a leaf hash is 32 bytes"))
  else do
    let memo ← knownMemo leafHashes.length known []
    let root := subtree H leafHashes leafHashes.length 0 leafHashes.length memo
    return ⟨leafHashes.length, root.1, leafHashes, root.2⟩

/-- `walk` inside `MerkleTree.path`. -/
def treeWalk (leafHashes : List Bytes) (size index lo hi : ℕ) (memo : Memo) :
    List Bytes × Memo :=
  if 1 < hi - lo then
    if index < lo + split (hi - lo) then
      let out := treeWalk leafHashes size index lo (lo + split (hi - lo)) memo
      let sibling := subtree H leafHashes size (lo + split (hi - lo)) hi out.2
      (out.1 ++ [sibling.1], sibling.2)
    else
      let out := treeWalk leafHashes size index (lo + split (hi - lo)) hi memo
      let sibling := subtree H leafHashes size lo (lo + split (hi - lo)) out.2
      (out.1 ++ [sibling.1], sibling.2)
  else ([], memo)
termination_by hi - lo
decreasing_by
  all_goals
    have hb := split_bounds ‹_›
    omega

/-- `MerkleTree.path`, with the tree after the call. -/
def MerkleTree.path (t : MerkleTree) (index : Number) : Except Thrown (List Bytes × MerkleTree) :=
  match index? index t.size with
  | none => .error (rangeError (js "leaf index out of range"))
  | some m =>
      let out := treeWalk H t.leafHashes t.size m 0 t.size t.memo
      .ok (out.1, { t with memo := out.2 })

/-- The tree after calls of `path` for the leaves of a list. -/
def MerkleTree.afterPaths (t : MerkleTree) : List ℕ → MerkleTree
  | [] => t
  | i :: is => match t.path H (Number.ofNat i) with
      | .ok (_, t') => t'.afterPaths is
      | .error _ => t.afterPaths is

/-! ### Root and path against the abstract tree -/

/-- The abstract hash of the leaves from `lo` up to `hi`. -/
def subtreeHash (leafHashes : List Bytes) (lo hi : ℕ) : Bytes :=
  root (merkleNodeHash H) (fun i => leafHashes.getD i []) lo (hi - lo)

/-- The abstract siblings of leaf `m`, below the range from `lo` to `hi`. -/
def subtreeAudit (leafHashes : List Bytes) (lo hi m : ℕ) : List Bytes :=
  audit (merkleNodeHash H) (fun i => leafHashes.getD i []) lo (hi - lo) (m - lo)

variable {H} {leafHashes : List Bytes} {lo hi m : ℕ}

lemma subtreeHash_leaf (h : ¬ 1 < hi - lo) :
    subtreeHash H leafHashes lo hi = leafHashes.getD lo [] :=
  root_leaf (by omega)

lemma subtreeHash_node (h : 1 < hi - lo) : subtreeHash H leafHashes lo hi
    = merkleNodeHash H (subtreeHash H leafHashes lo (lo + split (hi - lo)))
      (subtreeHash H leafHashes (lo + split (hi - lo)) hi) := by
  have hlt := split_bounds h
  rw [subtreeHash, subtreeHash, subtreeHash, root_node h, split_eq h, Nat.add_sub_cancel_left,
    Nat.sub_add_eq]

lemma subtreeAudit_leaf (h : ¬ 1 < hi - lo) : subtreeAudit H leafHashes lo hi m = [] :=
  audit_leaf (by omega)

lemma subtreeAudit_left (h : 1 < hi - lo) (hm : lo ≤ m) (hlt : m < lo + split (hi - lo)) :
    subtreeAudit H leafHashes lo hi m
      = subtreeAudit H leafHashes lo (lo + split (hi - lo)) m
        ++ [subtreeHash H leafHashes (lo + split (hi - lo)) hi] := by
  rw [split_eq h] at hlt ⊢
  rw [subtreeAudit, audit_left h (by omega), subtreeAudit, subtreeHash, Nat.add_sub_cancel_left,
    Nat.sub_add_eq]

lemma subtreeAudit_right (h : 1 < hi - lo) (hge : lo + split (hi - lo) ≤ m) :
    subtreeAudit H leafHashes lo hi m
      = subtreeAudit H leafHashes (lo + split (hi - lo)) hi m
        ++ [subtreeHash H leafHashes lo (lo + split (hi - lo))] := by
  rw [split_eq h] at hge ⊢
  rw [subtreeAudit, audit_right h (by omega), subtreeAudit, subtreeHash, Nat.add_sub_cancel_left,
    Nat.sub_add_eq, Nat.sub_add_eq]

lemma merkleBuild_eq (lo hi : ℕ) : merkleBuild H leafHashes lo hi = subtreeHash H leafHashes lo hi := by
  rw [merkleBuild]
  split
  · next h =>
      have := split_bounds h
      rw [merkleBuild_eq lo, merkleBuild_eq _ hi, subtreeHash_node h]
  · next h => rw [subtreeHash_leaf h]
termination_by hi - lo
decreasing_by all_goals omega

lemma merkleRoot_of_valid (hne : leafHashes ≠ []) (h32 : ∀ h ∈ leafHashes, h.length = 32) :
    merkleRoot H leafHashes = .ok (subtreeHash H leafHashes 0 leafHashes.length) := by
  have hany : (leafHashes.any fun h => h.length != 32) = false := by
    rw [List.any_eq_false]
    intro h hh
    simp [h32 h hh]
  rw [merkleRoot, if_neg (by simpa using hne), hany, if_neg (by simp), merkleBuild_eq]

/-- What `merkleRoot` accepts and returns. -/
lemma merkleRoot_eq_ok {r : Bytes} : merkleRoot H leafHashes = .ok r ↔
    leafHashes ≠ [] ∧ (∀ h ∈ leafHashes, h.length = 32)
      ∧ r = subtreeHash H leafHashes 0 leafHashes.length := by
  constructor
  · intro h
    have hne : leafHashes ≠ [] := by
      rintro rfl
      simp [merkleRoot] at h
    have h32 : ∀ h ∈ leafHashes, h.length = 32 := by
      by_contra hbad
      push Not at hbad
      obtain ⟨b, hb, hlen⟩ := hbad
      have hany : (leafHashes.any fun h => h.length != 32) = true :=
        List.any_eq_true.mpr ⟨b, hb, by simpa using hlen⟩
      rw [merkleRoot, if_neg (by simpa using hne), if_pos hany] at h
      cases h
    refine ⟨hne, h32, ?_⟩
    rw [merkleRoot_of_valid hne h32] at h
    exact (Except.ok.inj h).symm
  · rintro ⟨hne, h32, rfl⟩
    exact merkleRoot_of_valid hne h32

lemma slice_getD {α : Type*} {l : List α} {a b i : ℕ} {d : α} (h : i < b - a) :
    (slice l a b).getD i d = l.getD (a + i) d := by
  rw [slice, List.getD_eq_getElem?_getD, List.getD_eq_getElem?_getD, List.getElem?_take,
    if_pos h, List.getElem?_drop]

lemma length_slice {α : Type*} {l : List α} {a b : ℕ} (h : b ≤ l.length) :
    (slice l a b).length = b - a := by
  rw [slice, List.length_take, List.length_drop]
  omega

/-- The root of a slice is the abstract hash of its range. -/
lemma merkleRoot_slice (h32 : ∀ h ∈ leafHashes, h.length = 32) (h : lo < hi)
    (hle : hi ≤ leafHashes.length) :
    merkleRoot H (slice leafHashes lo hi) = .ok (subtreeHash H leafHashes lo hi) := by
  have hlen : (slice leafHashes lo hi).length = hi - lo := length_slice hle
  have hne : slice leafHashes lo hi ≠ [] := by
    rw [ne_eq, ← List.length_eq_zero_iff]
    omega
  have h32' : ∀ b ∈ slice leafHashes lo hi, b.length = 32 := fun b hb =>
    h32 b (List.mem_of_mem_drop (List.mem_of_mem_take hb))
  rw [merkleRoot_of_valid hne h32', hlen]
  congr 1
  refine root_congr (by omega) fun i hi' => ?_
  rw [Nat.zero_add]
  exact slice_getD hi'

lemma merklePathWalk_eq (h32 : ∀ h ∈ leafHashes, h.length = 32) (lo hi : ℕ) (hlo : lo ≤ m)
    (hhi : m < hi) (hle : hi ≤ leafHashes.length) :
    merklePathWalk H leafHashes lo hi m = .ok (subtreeAudit H leafHashes lo hi m) := by
  rw [merklePathWalk]
  split
  · next h =>
      have hb := split_bounds h
      by_cases hm : m < lo + split (hi - lo)
      · rw [if_pos hm, merklePathWalk_eq h32 lo _ hlo hm (by omega),
          merkleRoot_slice h32 (by omega) hle, subtreeAudit_left h hlo hm]
        rfl
      · rw [if_neg hm, merklePathWalk_eq h32 _ hi (by omega) hhi hle,
          merkleRoot_slice h32 (by omega) (by omega), subtreeAudit_right h (by omega)]
        rfl
  · next h =>
      rw [subtreeAudit_leaf h]
      rfl
termination_by hi - lo
decreasing_by all_goals omega

lemma index?_eq_some {i : Number} {n m : ℕ} :
    index? i n = some m ↔ i.toInt? = some (m : ℤ) ∧ m < n := by
  rw [index?, Option.bind_eq_some_iff]
  constructor
  · rintro ⟨k, hk, h⟩
    split at h
    · cases h
    · next hb =>
        obtain rfl := Option.some.inj h
        push Not at hb
        refine ⟨by rw [hk, Int.toNat_of_nonneg hb.1], by omega⟩
  · rintro ⟨hi, hm⟩
    refine ⟨m, hi, ?_⟩
    rw [if_neg (by omega), Int.toNat_natCast]

lemma index?_ofNat {m n : ℕ} (h : m < n) (hn : n ≤ 2 ^ 32) : index? (Number.ofNat m) n = some m :=
  index?_eq_some.mpr ⟨toInt?_ofNat (by omega), h⟩

/-- The path of a leaf is its abstract siblings. -/
lemma merklePath_eq {i : Number} (h32 : ∀ h ∈ leafHashes, h.length = 32)
    (hi : index? i leafHashes.length = some m) :
    merklePath H leafHashes i = .ok (subtreeAudit H leafHashes 0 leafHashes.length m) := by
  have hm := (index?_eq_some.mp hi).2
  rw [merklePath, if_neg (by omega), hi]
  exact merklePathWalk_eq h32 0 _ (Nat.zero_le m) hm le_rfl

/-! ### The verifier against the climb -/

lemma shr1_eq {x : ℕ} (h : x < 2 ^ 32) : shr1 x = x / 2 := by
  rw [shr1, Nat.mod_eq_of_lt h]

/-- Skipping levels leaves an odd index and the sides as they were. -/
lemma skipLevels_spec {fn : ℕ} (h0 : fn ≠ 0) (h : fn < 2 ^ 32) :
    ∃ f, skipLevels fn fn = (f, f) ∧ f % 2 = 1 ∧ f ≤ fn ∧ sides f f = sides fn fn := by
  rw [skipLevels]
  by_cases he : fn % 2 = 0
  · rw [if_pos ⟨he, h0⟩, shr1_eq h]
    obtain ⟨f, hf, hodd, hle, hs⟩ := @skipLevels_spec (fn / 2) (by omega) (by omega)
    exact ⟨f, hf, hodd, by omega, by rw [hs, sides_last he]⟩
  · rw [if_neg (by omega)]
    exact ⟨fn, rfl, by omega, le_rfl, rfl⟩
termination_by fn

/-- The loop of the verifier is a climb along the sides, of the right length. -/
lemma rootFromPathLoop_eq {path : List Bytes} {fn sn : ℕ} {r : Bytes} (hle : fn ≤ sn)
    (hs : sn < 2 ^ 32) : rootFromPathLoop H fn sn r path =
      if path.length = (sides fn sn).length ∧ ∀ p ∈ path, p.length = 32 then
        some (climb (merkleNodeHash H) r ((sides fn sn).zip path))
      else none := by
  induction path generalizing fn sn r with
  | nil =>
      rw [rootFromPathLoop]
      by_cases h0 : sn = 0
      · rw [h0, sides_zero]
        simp [climb]
      · have hne : (sides fn sn).length ≠ 0 := by simpa using sides_ne_nil h0 hle
        rw [if_pos h0, if_neg fun h => hne h.1.symm]
  | cons p path ih =>
      rw [rootFromPathLoop]
      by_cases h32 : p.length = 32
      swap
      · rw [if_pos h32, if_neg fun h => h32 (h.2 p (by simp))]
      rw [if_neg (by simpa using h32)]
      by_cases h0 : sn = 0
      · rw [if_pos h0, h0, sides_zero, if_neg (by simp)]
      rw [if_neg h0]
      -- one level: the sides lose their head, the path its first sibling
      have step : ∀ {f s : ℕ} {b : Bool}, sides fn sn = b :: sides (f / 2) (s / 2) → f ≤ s →
          s ≤ sn → rootFromPathLoop H (shr1 f) (shr1 s) (up (merkleNodeHash H) r (b, p)) path =
            if (p :: path).length = (sides fn sn).length ∧ ∀ q ∈ p :: path, q.length = 32 then
              some (climb (merkleNodeHash H) r ((sides fn sn).zip (p :: path)))
            else none := by
        intro f s b hsides hfs hss
        rw [shr1_eq (by omega), shr1_eq (by omega), ih (by omega) (by omega), hsides]
        simp [h32, climb]
      by_cases hodd : fn % 2 = 1
      · rw [if_pos (Or.inl hodd)]
        simp only [hodd, one_ne_zero, if_false]
        exact step (sides_odd h0 hodd) hle le_rfl
      · by_cases hlast : fn = sn
        · subst hlast
          obtain ⟨f, hf, hfodd, hfle, hfs⟩ := skipLevels_spec h0 hs
          rw [if_pos (Or.inr rfl)]
          simp only [show fn % 2 = 0 by omega, if_true, hf]
          exact step (by rw [← hfs, sides_odd (by omega) hfodd]) le_rfl hfle
        · rw [if_neg (by simp [hodd, hlast])]
          exact step (sides_even h0 (by omega) hlast) hle le_rfl

/-- What the verifier accepts: an index of the tree, a leaf hash, and a path of the index's
length whose climb ends at the result. -/
lemma merkleRootFromPath_eq_some {h r : Bytes} {i : Number} {n : ℕ} {path : List Bytes}
    (hn : n ≤ 2 ^ 32) : merkleRootFromPath H h i (Number.ofNat n) path = some r ↔
      ∃ m, index? i n = some m ∧ h.length = 32 ∧ path.length = (sides m (n - 1)).length
        ∧ (∀ p ∈ path, p.length = 32)
        ∧ climb (merkleNodeHash H) h ((sides m (n - 1)).zip path) = r := by
  rw [merkleRootFromPath, toInt?_ofNat (by omega)]
  cases hi : i.toInt? with
  | none => simp [index?, hi]
  | some k =>
      simp only [index?, hi, Option.bind_some]
      by_cases hk : k < 0 ∨ (n : ℤ) ≤ k
      · rw [if_pos (by omega), if_pos hk]
        simp
      · rw [if_neg (by omega), if_neg hk, Int.toNat_natCast, roundNat_of_lt (by omega),
          rootFromPathLoop_eq (by omega) (by omega)]
        by_cases h32 : h.length = 32
        · rw [if_neg (by simpa using h32)]
          simp [h32, and_assoc]
        · rw [if_pos h32]
          simp [h32]

/-! ### Completeness of the verifier -/

lemma length_subtreeHash (h32 : ∀ h ∈ leafHashes, h.length = 32) (h : lo < leafHashes.length) :
    (subtreeHash H leafHashes lo hi).length = 32 := by
  by_cases hn : 1 < hi - lo
  · rw [subtreeHash_node hn, length_merkleNodeHash]
  · rw [subtreeHash_leaf hn, List.getD_eq_getElem _ _ h]
    exact h32 _ (List.getElem_mem h)

lemma length_of_mem_subtreeAudit (h32 : ∀ h ∈ leafHashes, h.length = 32) {lo hi : ℕ}
    (hlo : lo ≤ m) (hhi : m < hi) (hle : hi ≤ leafHashes.length) {p : Bytes}
    (hp : p ∈ subtreeAudit H leafHashes lo hi m) : p.length = 32 := by
  by_cases h : 1 < hi - lo
  · have hb := split_bounds h
    by_cases hlt : m < lo + split (hi - lo)
    · rw [subtreeAudit_left h hlo hlt, List.mem_append, List.mem_singleton] at hp
      rcases hp with hp | rfl
      · exact length_of_mem_subtreeAudit h32 hlo hlt (by omega) hp
      · exact length_subtreeHash h32 (by omega)
    · rw [subtreeAudit_right h (by omega), List.mem_append, List.mem_singleton] at hp
      rcases hp with hp | rfl
      · exact length_of_mem_subtreeAudit h32 (by omega) hhi hle hp
      · exact length_subtreeHash h32 (by omega)
  · rw [subtreeAudit_leaf h] at hp
    simp at hp
termination_by hi - lo
decreasing_by all_goals omega

/-- The verifier accepts the path of a leaf. -/
lemma merkleRootFromPath_audit (h32 : ∀ h ∈ leafHashes, h.length = 32)
    (hlen : leafHashes.length ≤ 2 ^ 32) (hm : m < leafHashes.length) :
    merkleRootFromPath H leafHashes[m] (Number.ofNat m) (Number.ofNat leafHashes.length)
      (subtreeAudit H leafHashes 0 leafHashes.length m)
      = some (subtreeHash H leafHashes 0 leafHashes.length) := by
  refine (merkleRootFromPath_eq_some hlen).mpr ⟨m, index?_ofNat hm hlen,
    h32 _ (List.getElem_mem hm), length_audit hm,
    fun p hp => length_of_mem_subtreeAudit h32 (Nat.zero_le m) hm le_rfl hp, ?_⟩
  have hclimb := @climb_audit _ (merkleNodeHash H) (fun i => leafHashes.getD i []) 0 _ _ hm
  simp only [Nat.zero_add, List.getD_eq_getElem _ _ hm] at hclimb
  exact hclimb

/-! ### Soundness -/

lemma buildPreimages_eq (lo hi : ℕ) : buildPreimages H leafHashes lo hi
    = (innerPairs (merkleNodeHash H) (fun i => leafHashes.getD i []) lo (hi - lo)).map
      fun p => nodePreimage p.1 p.2 := by
  rw [buildPreimages]
  split
  · next h =>
      have hb := split_bounds h
      rw [innerPairs_node h, buildPreimages_eq lo, buildPreimages_eq _ hi, merkleBuild_eq,
        merkleBuild_eq, ← split_eq h, Nat.add_sub_cancel_left, Nat.sub_add_eq, List.map_cons,
        List.map_append, subtreeHash, subtreeHash, Nat.add_sub_cancel_left, Nat.sub_add_eq]
  · next h =>
      rw [innerPairs, if_neg (by omega)]
      rfl
termination_by hi - lo
decreasing_by all_goals omega

/-- Along a path of the right length the verifier hashes the pairs of the climb. -/
lemma loopPreimages_eq {path : List Bytes} {fn sn : ℕ} {r : Bytes} (hle : fn ≤ sn)
    (hs : sn < 2 ^ 32) (hlen : path.length = (sides fn sn).length)
    (h32 : ∀ p ∈ path, p.length = 32) : loopPreimages H fn sn r path
      = (climbPairs (merkleNodeHash H) r ((sides fn sn).zip path)).map
        fun p => nodePreimage p.1 p.2 := by
  induction path generalizing fn sn r with
  | nil => simp [loopPreimages, climbPairs]
  | cons p path ih =>
      have hp : p.length = 32 := h32 p (by simp)
      have h0 : sn ≠ 0 := by
        rintro rfl
        simp [sides_zero] at hlen
      rw [loopPreimages, if_neg (by simpa using hp), if_neg h0]
      have step : ∀ {f s : ℕ} {b : Bool}, sides fn sn = b :: sides (f / 2) (s / 2) → f ≤ s →
          s ≤ sn → loopPreimages H (shr1 f) (shr1 s) (up (merkleNodeHash H) r (b, p)) path =
            (climbPairs (merkleNodeHash H) (up (merkleNodeHash H) r (b, p))
              ((sides (f / 2) (s / 2)).zip path)).map fun p => nodePreimage p.1 p.2 := by
        intro f s b hsides hfs hss
        rw [hsides] at hlen
        rw [shr1_eq (by omega), shr1_eq (by omega)]
        exact ih (by omega) (by omega) (by simpa using hlen) fun q hq => h32 q (by simp [hq])
      by_cases hodd : fn % 2 = 1
      · rw [if_pos (Or.inl hodd)]
        simp only [hodd, one_ne_zero, if_false]
        have hsides := sides_odd h0 hodd
        rw [hsides, List.zip_cons_cons, climbPairs, List.map_cons, ← step hsides hle le_rfl]
        rfl
      · by_cases hlast : fn = sn
        · subst hlast
          obtain ⟨f, hf, hfodd, hfle, hfs⟩ := skipLevels_spec h0 hs
          have hsides : sides fn fn = true :: sides (f / 2) (f / 2) := by
            rw [← hfs, sides_odd (by omega) hfodd]
          rw [if_pos (Or.inr rfl)]
          simp only [show fn % 2 = 0 by omega, if_true, hf]
          rw [hsides, List.zip_cons_cons, climbPairs, List.map_cons,
            ← step hsides le_rfl hfle]
          rfl
        · have hsides := sides_even h0 (by omega) hlast
          rw [if_neg (by simp [hodd, hlast]), hsides, List.zip_cons_cons, climbPairs,
            List.map_cons, ← step hsides hle le_rfl]
          rfl

lemma nodePreimage_inj {a b c d : Bytes} (h : a.length = c.length)
    (heq : nodePreimage a b = nodePreimage c d) : a = c ∧ b = d :=
  List.append_inj (List.cons.inj heq).2 h

/-- The pairs of the tree start with 32 bytes. -/
lemma length_of_mem_innerPairs {n : ℕ} (h32 : ∀ h ∈ leafHashes, h.length = 32)
    (h : lo + n ≤ leafHashes.length) {p : Bytes × Bytes}
    (hp : p ∈ innerPairs (merkleNodeHash H) (fun i => leafHashes.getD i []) lo n) :
    p.1.length = 32 := by
  induction n using Nat.strong_induction_on generalizing lo with
  | _ n ih =>
      by_cases h2 : 2 ≤ n
      · have hlt := cut_lt h2
        have hpos := cut_pos n
        rw [innerPairs_node h2, List.mem_cons, List.mem_append] at hp
        rcases hp with rfl | hp | hp
        · have hleft : (subtreeHash H leafHashes lo (lo + cut n)).length = 32 :=
            length_subtreeHash h32 (by omega)
          rwa [subtreeHash, Nat.add_sub_cancel_left] at hleft
        · exact ih _ hlt (by omega) hp
        · exact ih _ (by omega) (by omega) hp
      · rw [innerPairs, if_neg h2] at hp
        simp at hp

/-- The pairs of a climb over 32 bytes start with 32 bytes. -/
lemma length_of_mem_climbPairs {r : Bytes} {p : List (Bool × Bytes)} {q : Bytes × Bytes}
    (hr : r.length = 32) (hp : ∀ s ∈ p, s.2.length = 32)
    (hq : q ∈ climbPairs (merkleNodeHash H) r p) : q.1.length = 32 := by
  induction p generalizing r with
  | nil => simp [climbPairs] at hq
  | cons s p ih =>
      rw [climbPairs, List.mem_cons] at hq
      rcases hq with rfl | hq
      · split
        · exact hp s (by simp)
        · exact hr
      · refine ih ?_ (fun t ht => hp t (by simp [ht])) hq
        rw [up]
        split <;> exact length_merkleNodeHash H _ _

/-- A climb that ends at the hash of all leaves is that of a leaf with its abstract siblings, or
two preimages collide. -/
lemma audit_of_climb {h : Bytes} {path : List Bytes} (h32 : ∀ h ∈ leafHashes, h.length = 32)
    (hm : m < leafHashes.length) (hh : h.length = 32)
    (hplen : path.length = (sides m (leafHashes.length - 1)).length)
    (hp32 : ∀ p ∈ path, p.length = 32)
    (hclimb : climb (merkleNodeHash H) h ((sides m (leafHashes.length - 1)).zip path)
      = subtreeHash H leafHashes 0 leafHashes.length) :
    (h = leafHashes.getD m [] ∧ path = subtreeAudit H leafHashes 0 leafHashes.length m)
      ∨ H.Collides ((climbPairs (merkleNodeHash H) h
            ((sides m (leafHashes.length - 1)).zip path)).map fun p => nodePreimage p.1 p.2)
          (buildPreimages H leafHashes 0 leafHashes.length) := by
  rcases climb_sound hm hplen hclimb with ⟨hleaf, haudit⟩ | ⟨p, hp, q, hq, hne, heq⟩
  · refine Or.inl ⟨?_, haudit⟩
    rw [hleaf, Nat.zero_add]
  · refine Or.inr ⟨nodePreimage p.1 p.2, List.mem_map.mpr ⟨p, hp, rfl⟩, nodePreimage q.1 q.2, ?_,
      ?_, heq⟩
    · rw [buildPreimages_eq]
      exact List.mem_map.mpr ⟨q, hq, rfl⟩
    · intro hpre
      have hp1 : p.1.length = 32 := length_of_mem_climbPairs hh
        (fun s hs => hp32 s.2 (List.of_mem_zip hs).2) hp
      have hq1 : q.1.length = 32 := length_of_mem_innerPairs h32 (by omega) hq
      obtain ⟨h1, h2⟩ := nodePreimage_inj (hp1.trans hq1.symm) hpre
      exact hne (Prod.ext h1 h2)

/-- Two lists of one length whose leaves hash to one root are the same, or two preimages collide. -/
lemma eq_of_subtreeHash {others : List Bytes} (h32 : ∀ h ∈ leafHashes, h.length = 32)
    (h32' : ∀ h ∈ others, h.length = 32) (hlen : leafHashes.length = others.length)
    (hroot : subtreeHash H leafHashes 0 leafHashes.length = subtreeHash H others 0 others.length) :
    leafHashes = others ∨ H.Collides (buildPreimages H leafHashes 0 leafHashes.length)
      (buildPreimages H others 0 others.length) := by
  rcases Nat.eq_zero_or_pos leafHashes.length with h0 | hpos
  · left
    rw [List.length_eq_zero_iff.mp h0, List.length_eq_zero_iff.mp (hlen.symm.trans h0)]
  · rw [subtreeHash, subtreeHash, ← hlen] at hroot
    rcases root_sound (by omega) hroot with hsame | ⟨p, hp, q, hq, hne, heq⟩
    · left
      refine List.ext_getElem hlen fun m hm hm' => ?_
      have hm'' := hsame m (by omega)
      rwa [Nat.zero_add, List.getD_eq_getElem _ _ hm, List.getD_eq_getElem _ _ hm'] at hm''
    · right
      rw [buildPreimages_eq, buildPreimages_eq, ← hlen]
      refine ⟨_, List.mem_map_of_mem hp, _, List.mem_map_of_mem hq, fun hpre => ?_, heq⟩
      have hp1 : p.1.length = 32 := length_of_mem_innerPairs h32 (by omega) hp
      have hq1 : q.1.length = 32 := length_of_mem_innerPairs h32' (by omega) hq
      obtain ⟨h1, h2⟩ := nodePreimage_inj (hp1.trans hq1.symm) hpre
      exact hne (Prod.ext h1 h2)

/-- What reaches the hash of all leaves is a leaf with its abstract siblings, or two preimages
collide. -/
lemma audit_of_reached {h : Bytes} {i : Number} {path : List Bytes} (hlen : leafHashes.length ≤ 2 ^ 32)
    (h32 : ∀ h ∈ leafHashes, h.length = 32)
    (hpath : merkleRootFromPath H h i (Number.ofNat leafHashes.length) path
      = some (subtreeHash H leafHashes 0 leafHashes.length)) :
    (∃ m, index? i leafHashes.length = some m ∧ h = leafHashes.getD m []
        ∧ path = subtreeAudit H leafHashes 0 leafHashes.length m)
      ∨ H.Collides (pathPreimages H h i (Number.ofNat leafHashes.length) path)
          (buildPreimages H leafHashes 0 leafHashes.length) := by
  obtain ⟨m, hi, hh, hplen, hp32, hclimb⟩ := (merkleRootFromPath_eq_some hlen).mp hpath
  obtain ⟨hint, hm⟩ := index?_eq_some.mp hi
  rcases audit_of_climb h32 hm hh hplen hp32 hclimb with ⟨hleaf, haudit⟩ | hcoll
  · exact Or.inl ⟨m, hi, hleaf, haudit⟩
  · right
    rw [pathPreimages, hint, toInt?_ofNat (by omega)]
    simp only [Int.toNat_natCast]
    rw [roundNat_of_lt (by omega), loopPreimages_eq (by omega) (by omega) hplen hp32]
    exact hcoll

/-- **Soundness of the verifier.** A leaf hash, index and path that give the root are the
leaf hash and the path of that index, or the two computations hash two different byte strings
to one digest. -/
theorem merkleRootFromPath_sound (H : HashFn) (leafHashes : List Bytes) (h r : Bytes) (i : Number)
    (path : List Bytes) (hlen : leafHashes.length ≤ 2 ^ 32)
    (hroot : merkleRoot H leafHashes = .ok r)
    (hpath : merkleRootFromPath H h i (Number.ofNat leafHashes.length) path = some r) :
    (∃ m : ℕ, i.toInt? = some (m : ℤ) ∧ ∃ hm : m < leafHashes.length,
        h = leafHashes[m] ∧ merklePath H leafHashes i = .ok path)
      ∨ H.Collides (pathPreimages H h i (Number.ofNat leafHashes.length) path)
          (buildPreimages H leafHashes 0 leafHashes.length) := by
  obtain ⟨-, h32, rfl⟩ := merkleRoot_eq_ok.mp hroot
  rcases audit_of_reached hlen h32 hpath with ⟨m, hi, hleaf, rfl⟩ | hcoll
  · obtain ⟨hint, hm⟩ := index?_eq_some.mp hi
    refine Or.inl ⟨m, hint, hm, ?_, merklePath_eq h32 hi⟩
    rw [hleaf, List.getD_eq_getElem _ _ hm]
  · exact Or.inr hcoll

/-- A leaf hash of 32 zero bytes. -/
def zeroLeaf : Bytes := List.replicate 32 0

/-- Two zero leaves. -/
def zeroPair : List Bytes := [zeroLeaf, zeroLeaf]

/-- The first of two zero leaves, with its own path. -/
theorem merkleRootFromPath_sound_pair :
    (∃ m : ℕ, (Number.ofNat 0).toInt? = some (m : ℤ) ∧ ∃ hm : m < zeroPair.length,
        zeroLeaf = zeroPair[m]
          ∧ merklePath sha256 zeroPair (Number.ofNat 0)
            = .ok (subtreeAudit sha256 zeroPair 0 zeroPair.length 0))
      ∨ sha256.Collides
          (pathPreimages sha256 zeroLeaf (Number.ofNat 0) (Number.ofNat zeroPair.length)
            (subtreeAudit sha256 zeroPair 0 zeroPair.length 0))
          (buildPreimages sha256 zeroPair 0 zeroPair.length) :=
  merkleRootFromPath_sound sha256 zeroPair zeroLeaf (subtreeHash sha256 zeroPair 0 zeroPair.length)
    (Number.ofNat 0) (subtreeAudit sha256 zeroPair 0 zeroPair.length 0) (by decide)
    (merkleRoot_of_valid (by decide) (by decide))
    (@merkleRootFromPath_audit sha256 zeroPair 0 (by decide) (by decide) (by decide))

/-! ### The tree against root and path -/

/-- Ranges of at least two leaves that share a key carry one hash. -/
def KeysAgree (H : HashFn) (leafHashes : List Bytes) : Prop :=
  ∀ lo hi lo' hi', Node leafHashes.length lo hi → Node leafHashes.length lo' hi' →
    lo + 2 ≤ hi → lo' + 2 ≤ hi' →
    memoKey leafHashes.length lo hi = memoKey leafHashes.length lo' hi' →
    subtreeHash H leafHashes lo hi = subtreeHash H leafHashes lo' hi'

/-- Every entry of the memo is the hash of every range with its key. -/
def GoodMemo (H : HashFn) (leafHashes : List Bytes) (memo : Memo) : Prop :=
  ∀ lo hi h, Node leafHashes.length lo hi → lo + 2 ≤ hi →
    memo.lookup (memoKey leafHashes.length lo hi) = some h → h = subtreeHash H leafHashes lo hi

/-- Roots of subtrees of the tree's own split, over the same leaf hashes. -/
def KnownCorrect (H : HashFn) (leafHashes : List Bytes) (known : List Known) : Prop :=
  ∀ k ∈ known, Node leafHashes.length k.lo k.hi ∧ k.lo + 2 ≤ k.hi
    ∧ merkleRoot H (slice leafHashes k.lo k.hi) = .ok k.hash

/-- The tree built with `known` returns what `merkleRoot` and `merklePath` return, after any
calls of `path`, and the verifier accepts every path. -/
def MerkleAgrees (H : HashFn) (leafHashes : List Bytes) (known : List Known) : Prop :=
  ∃ tree, MerkleTree.new H leafHashes known = .ok tree ∧ merkleRoot H leafHashes = .ok tree.root
    ∧ ∀ (calls : List ℕ) (i : ℕ) (hi : i < leafHashes.length), ∃ path,
        merklePath H leafHashes (Number.ofNat i) = .ok path
        ∧ (∃ tree', (tree.afterPaths H calls).path H (Number.ofNat i) = .ok (path, tree'))
        ∧ merkleRootFromPath H leafHashes[i] (Number.ofNat i) (Number.ofNat leafHashes.length) path
          = some tree.root

lemma GoodMemo.cons {memo : Memo} (hk : KeysAgree H leafHashes) (hm : GoodMemo H leafHashes memo)
    (hn : Node leafHashes.length lo hi) (h2 : lo + 2 ≤ hi) :
    GoodMemo H leafHashes
      ((memoKey leafHashes.length lo hi, subtreeHash H leafHashes lo hi) :: memo) := by
  intro lo' hi' h hn' h2' hl
  rw [List.lookup_cons] at hl
  split at hl
  · next heq =>
      obtain rfl := Option.some.inj hl
      exact hk _ _ _ _ hn hn' h2 h2' (beq_iff_eq.mp heq).symm
  · exact hm _ _ _ hn' h2' hl

lemma node_split_left {n : ℕ} (h : Node n lo hi) (h1 : 1 < hi - lo) :
    Node n lo (lo + split (hi - lo)) := by
  rw [split_eq h1]
  exact h.left h1

lemma node_split_right {n : ℕ} (h : Node n lo hi) (h1 : 1 < hi - lo) :
    Node n (lo + split (hi - lo)) hi := by
  rw [split_eq h1]
  exact h.right h1

/-- A subtree of the split gets its hash, and the memo stays right. -/
lemma subtree_good (hk : KeysAgree H leafHashes) {lo hi : ℕ} {memo : Memo} (hm : GoodMemo H leafHashes memo)
    (hn : Node leafHashes.length lo hi) :
    (subtree H leafHashes leafHashes.length lo hi memo).1 = subtreeHash H leafHashes lo hi
      ∧ GoodMemo H leafHashes (subtree H leafHashes leafHashes.length lo hi memo).2 := by
  rw [subtree]
  split
  · next h =>
      have hb := split_bounds h
      split
      · next known hl => exact ⟨hm lo hi known hn (by omega) hl, hm⟩
      · obtain ⟨hl, hml⟩ := subtree_good hk hm (node_split_left hn h)
        obtain ⟨hr, hmr⟩ := subtree_good hk hml (node_split_right hn h)
        dsimp only
        rw [hl, hr, ← subtreeHash_node h]
        exact ⟨rfl, hmr.cons hk hn (by omega)⟩
  · next h => exact ⟨(subtreeHash_leaf h).symm, hm⟩
termination_by hi - lo
decreasing_by all_goals omega

/-- A walk of the tree collects the siblings of its leaf, and the memo stays right. -/
lemma treeWalk_good (hk : KeysAgree H leafHashes) {lo hi : ℕ} {memo : Memo} (hm : GoodMemo H leafHashes memo)
    (hn : Node leafHashes.length lo hi) (hlo : lo ≤ m) :
    (treeWalk H leafHashes leafHashes.length m lo hi memo).1 = subtreeAudit H leafHashes lo hi m
      ∧ GoodMemo H leafHashes (treeWalk H leafHashes leafHashes.length m lo hi memo).2 := by
  rw [treeWalk]
  split
  · next h =>
      have hb := split_bounds h
      by_cases hlt : m < lo + split (hi - lo)
      · obtain ⟨ho, hmo⟩ := treeWalk_good hk hm (node_split_left hn h) hlo
        obtain ⟨hs, hms⟩ := subtree_good hk hmo (node_split_right hn h)
        rw [if_pos hlt, subtreeAudit_left h hlo hlt]
        dsimp only
        rw [ho, hs]
        exact ⟨rfl, hms⟩
      · obtain ⟨ho, hmo⟩ := treeWalk_good hk hm (node_split_right hn h) (by omega)
        obtain ⟨hs, hms⟩ := subtree_good hk hmo (node_split_left hn h)
        rw [if_neg hlt, subtreeAudit_right h (by omega)]
        dsimp only
        rw [ho, hs]
        exact ⟨rfl, hms⟩
  · next h => exact ⟨(subtreeAudit_leaf h).symm, hm⟩
termination_by hi - lo
decreasing_by all_goals omega

lemma knownMemo_good (hk : KeysAgree H leafHashes) (h32 : ∀ h ∈ leafHashes, h.length = 32)
    (hne : 0 < leafHashes.length) {known : List Known} (hc : KnownCorrect H leafHashes known)
    {memo : Memo} (hm : GoodMemo H leafHashes memo) :
    ∃ memo', knownMemo leafHashes.length known memo = .ok memo' ∧ GoodMemo H leafHashes memo' := by
  induction known generalizing memo with
  | nil => exact ⟨memo, rfl, hm⟩
  | cons k known ih =>
      obtain ⟨hn, h2, hroot⟩ := hc k (by simp)
      obtain ⟨hlt, hle⟩ := hn.bounds hne
      rw [merkleRoot_slice h32 hlt hle] at hroot
      have hhash : k.hash = subtreeHash H leafHashes k.lo k.hi := (Except.ok.inj hroot).symm
      have hlen : k.hash.length = 32 := by
        rw [hhash]
        exact length_subtreeHash h32 (by omega)
      rw [knownMemo, if_neg (by omega), hhash]
      exact ih (fun k' hk' => hc k' (by simp [hk'])) (hm.cons hk hn h2)

/-- What the calls of `path` keep. -/
structure MerkleTree.Over (H : HashFn) (leafHashes : List Bytes) (t : MerkleTree) : Prop where
  size : t.size = leafHashes.length
  leaves : t.leafHashes = leafHashes
  memo : GoodMemo H leafHashes t.memo

lemma MerkleTree.Over.path {t : MerkleTree} {i : Number} (hk : KeysAgree H leafHashes)
    (ht : t.Over H leafHashes) (hi : index? i leafHashes.length = some m) :
    ∃ t', t.path H i = .ok (subtreeAudit H leafHashes 0 leafHashes.length m, t')
      ∧ t'.Over H leafHashes := by
  obtain ⟨size, r, leaves, memo⟩ := t
  obtain ⟨hsize, hleaves, hmemo⟩ := ht
  dsimp only at hsize hleaves hmemo
  subst hsize hleaves
  obtain ⟨hw, hm⟩ := treeWalk_good hk hmemo .root (Nat.zero_le m)
  refine ⟨⟨leaves.length, r, leaves, _⟩, ?_, ⟨rfl, rfl, hm⟩⟩
  rw [MerkleTree.path, hi]
  simp only [hw]

lemma MerkleTree.Over.afterPaths {t : MerkleTree} (hk : KeysAgree H leafHashes)
    (ht : t.Over H leafHashes) (calls : List ℕ) : (t.afterPaths H calls).Over H leafHashes := by
  induction calls generalizing t with
  | nil => exact ht
  | cons i calls ih =>
      rw [MerkleTree.afterPaths]
      cases hi : index? (Number.ofNat i) leafHashes.length with
      | none =>
          rw [MerkleTree.path, ht.size, hi]
          exact ih ht
      | some m =>
          obtain ⟨t', ht', hover⟩ := ht.path hk hi
          rw [ht']
          exact ih hover

/-- Where keys agree the three implementations agree. -/
lemma merkleAgrees_of_keysAgree (hk : KeysAgree H leafHashes) (hne : leafHashes ≠ [])
    (hlen : leafHashes.length ≤ 2 ^ 32) (h32 : ∀ h ∈ leafHashes, h.length = 32)
    {known : List Known} (hc : KnownCorrect H leafHashes known) :
    MerkleAgrees H leafHashes known := by
  have hpos : 0 < leafHashes.length := List.length_pos_iff.mpr hne
  have hany : (leafHashes.any fun h => h.length != 32) = false := by
    rw [List.any_eq_false]
    intro h hh
    simp [h32 h hh]
  have hempty : GoodMemo H leafHashes [] := by
    intro lo hi h _ _ hl
    simp at hl
  obtain ⟨memo, hknown, hgood⟩ := knownMemo_good hk h32 hpos hc hempty
  obtain ⟨hroot, hmemo⟩ := subtree_good hk hgood .root
  let tree : MerkleTree := ⟨leafHashes.length, subtreeHash H leafHashes 0 leafHashes.length,
    leafHashes, (subtree H leafHashes leafHashes.length 0 leafHashes.length memo).2⟩
  have hover : tree.Over H leafHashes := ⟨rfl, rfl, hmemo⟩
  refine ⟨tree, ?_, merkleRoot_of_valid hne h32, fun calls i hi => ?_⟩
  · rw [MerkleTree.new, if_neg (by omega), hany, if_neg (by simp), hknown]
    change Except.ok (MerkleTree.mk _ _ _ _) = _
    rw [hroot]
  · obtain ⟨t', hpath, -⟩ := (hover.afterPaths hk calls).path hk (index?_ofNat hi hlen)
    exact ⟨_, merklePath_eq h32 (index?_ofNat hi hlen), ⟨t', hpath⟩,
      merkleRootFromPath_audit h32 hlen hi⟩

/-! ### Where keys meet -/

/-- An entry of the memo stays while its key is looked up first. -/
lemma subtree_keeps {lo hi size k : ℕ} {v : Bytes} {memo : Memo} (hm : memo.lookup k = some v) :
    (subtree H leafHashes size lo hi memo).2.lookup k = some v := by
  rw [subtree]
  split
  · next h =>
      have hb := split_bounds h
      split
      · exact hm
      · next hnone =>
          have hne : k ≠ memoKey size lo hi := by
            rintro rfl
            rw [hnone] at hm
            cases hm
          dsimp only
          rw [List.lookup_cons, beq_false_of_ne hne]
          exact subtree_keeps (subtree_keeps hm)
  · exact hm
termination_by hi - lo
decreasing_by all_goals omega

lemma treeWalk_keeps {lo hi size index k : ℕ} {v : Bytes} {memo : Memo}
    (hm : memo.lookup k = some v) :
    (treeWalk H leafHashes size index lo hi memo).2.lookup k = some v := by
  rw [treeWalk]
  split
  · next h =>
      have hb := split_bounds h
      split
      · exact subtree_keeps (treeWalk_keeps hm)
      · exact subtree_keeps (treeWalk_keeps hm)
  · exact hm
termination_by hi - lo
decreasing_by all_goals omega

lemma subtree_of_lookup {size : ℕ} {v : Bytes} {memo : Memo} (h : lo + 2 ≤ hi)
    (hm : memo.lookup (memoKey size lo hi) = some v) :
    (subtree H leafHashes size lo hi memo).1 = v := by
  rw [subtree, if_pos (by omega), hm]

/-- A walk that collects the siblings of its leaf does so below every range on the way. -/
lemma treeWalk_below {memo : Memo} {index : ℕ} (hn : Node leafHashes.length lo hi)
    (hlo : lo ≤ index) (hhi : index < hi)
    (h : (treeWalk H leafHashes leafHashes.length index 0 leafHashes.length memo).1
      = subtreeAudit H leafHashes 0 leafHashes.length index) :
    (treeWalk H leafHashes leafHashes.length index lo hi memo).1
      = subtreeAudit H leafHashes lo hi index := by
  induction hn with
  | root => exact h
  | @left lo hi _ h2 ih =>
      rw [← split_eq h2] at hhi ⊢
      have hb := split_bounds h2
      have hup := ih hlo (by omega)
      rw [treeWalk, if_pos (Nat.lt_of_succ_le h2), if_pos hhi, subtreeAudit_left h2 hlo hhi] at hup
      exact (List.append_inj' hup rfl).1
  | @right lo hi _ h2 ih =>
      rw [← split_eq h2] at hlo ⊢
      have hb := split_bounds h2
      have hup := ih (by omega) hhi
      rw [treeWalk, if_pos (Nat.lt_of_succ_le h2), if_neg (by omega), subtreeAudit_right h2 hlo] at hup
      exact (List.append_inj' hup rfl).1

/-- An entry that the walks to all leaves find is the hash of every range with its key: the walk
to a leaf next to the range looks the range up. -/
lemma seen_of_walks {v : Bytes} (hpos : 0 < leafHashes.length) (hn : Node leafHashes.length lo hi)
    (h2 : lo + 2 ≤ hi) (hroot : lo = 0 → hi = leafHashes.length → v = subtreeHash H leafHashes lo hi)
    (hwalk : ∀ i < leafHashes.length, ∃ memo : Memo,
      memo.lookup (memoKey leafHashes.length lo hi) = some v
        ∧ (treeWalk H leafHashes leafHashes.length i 0 leafHashes.length memo).1
          = subtreeAudit H leafHashes 0 leafHashes.length i) : v = subtreeHash H leafHashes lo hi := by
  cases hn with
  | root => exact hroot rfl rfl
  | @left _ hi' hp h1 =>
      -- the leaf at the start of the range to the right
      rw [← split_eq h1] at h2 hwalk ⊢
      have hb := split_bounds h1
      have hbd := hp.bounds hpos
      obtain ⟨memo, hmemo, hw⟩ := hwalk (lo + split (hi' - lo)) (by omega)
      have hbelow := treeWalk_below hp (by omega) (by omega) hw
      rw [treeWalk, if_pos (Nat.lt_of_succ_le h1), if_neg (by omega), subtreeAudit_right h1 le_rfl] at hbelow
      have hlast := List.cons.inj (List.append_inj' hbelow rfl).2
      rw [← hlast.1]
      exact (subtree_of_lookup h2 (treeWalk_keeps hmemo)).symm
  | @right lo' _ hp h1 =>
      -- the leaf at the start of the range to the left
      rw [← split_eq h1] at h2 hwalk ⊢
      have hb := split_bounds h1
      have hbd := hp.bounds hpos
      obtain ⟨memo, hmemo, hw⟩ := hwalk lo' (by omega)
      have hbelow := treeWalk_below hp le_rfl (by omega) hw
      rw [treeWalk, if_pos (Nat.lt_of_succ_le h1), if_pos (by omega), subtreeAudit_left h1 le_rfl (by omega)] at hbelow
      have hlast := List.cons.inj (List.append_inj' hbelow rfl).2
      rw [← hlast.1]
      exact (subtree_of_lookup h2 (treeWalk_keeps hmemo)).symm

/-- The entry of a key is seen as the hash of every range with that key: as the root, or as
a sibling on the path of a leaf next to the range. -/
lemma seen_of_agrees {known : List Known} {v : Bytes} (hlen : leafHashes.length ≤ 2 ^ 32)
    (h32 : ∀ h ∈ leafHashes, h.length = 32) (ha : MerkleAgrees H leafHashes known)
    (hn : Node leafHashes.length lo hi) (h2 : lo + 2 ≤ hi)
    (hv : ∀ memo, knownMemo leafHashes.length known [] = .ok memo →
      memo.lookup (memoKey leafHashes.length lo hi) = some v) :
    v = subtreeHash H leafHashes lo hi := by
  obtain ⟨tree, hnew, hroot, hpaths⟩ := ha
  obtain ⟨hne, -, hr⟩ := merkleRoot_eq_ok.mp hroot
  have hpos : 0 < leafHashes.length := List.length_pos_iff.mpr hne
  -- the tree is the constructor's, so its memo still holds the entry
  rw [MerkleTree.new, if_neg (by omega)] at hnew
  split at hnew
  · cases hnew
  rcases hk : knownMemo leafHashes.length known [] with e | memo
  · rw [hk] at hnew
    cases hnew
  rw [hk] at hnew
  obtain rfl : MerkleTree.mk _ _ _ _ = tree := Except.ok.inj hnew
  have hmemo : (subtree H leafHashes leafHashes.length 0 leafHashes.length memo).2.lookup
      (memoKey leafHashes.length lo hi) = some v := subtree_keeps (hv memo hk)
  refine seen_of_walks hpos hn h2 ?_ fun i hi' => ⟨_, hmemo, ?_⟩
  · rintro rfl rfl
    rw [← hr]
    exact (subtree_of_lookup h2 (hv memo hk)).symm
  · obtain ⟨path, hp, ⟨tree', ht⟩, -⟩ := hpaths [] i hi'
    rw [merklePath_eq h32 (index?_ofNat hi' hlen)] at hp
    rw [MerkleTree.afterPaths, MerkleTree.path, index?_ofNat hi' hlen] at ht
    rw [Except.ok.inj hp]
    exact (Prod.mk.inj (Except.ok.inj ht)).1

/-- One known root, entered under its key. -/
lemma keysAgree_of_agrees (hne : leafHashes ≠ []) (hlen : leafHashes.length ≤ 2 ^ 32)
    (h32 : ∀ h ∈ leafHashes, h.length = 32)
    (h : ∀ known, KnownCorrect H leafHashes known → MerkleAgrees H leafHashes known) :
    KeysAgree H leafHashes := by
  intro lo hi lo' hi' hn hn' h2 h2' hkey
  have hpos : 0 < leafHashes.length := List.length_pos_iff.mpr hne
  have hbd := hn.bounds hpos
  have hcorrect : KnownCorrect H leafHashes [⟨lo, hi, subtreeHash H leafHashes lo hi⟩] := by
    intro k hk
    obtain rfl := List.mem_singleton.mp hk
    exact ⟨hn, h2, merkleRoot_slice h32 hbd.1 hbd.2⟩
  refine seen_of_agrees hlen h32 (h _ hcorrect) hn' h2' fun memo hmemo => ?_
  have h32' : (subtreeHash H leafHashes lo hi).length = 32 := length_subtreeHash h32 (by omega)
  rw [knownMemo, if_neg (by simp only; omega), knownMemo] at hmemo
  rw [← Except.ok.inj hmemo, ← hkey, List.lookup_cons_self]

/-- **The three implementations agree**, with every set of correct known roots, exactly when
ranges that share a key carry one hash. -/
theorem merkleTree_agrees_iff (H : HashFn) (leafHashes : List Bytes) (hne : leafHashes ≠ [])
    (hlen : leafHashes.length ≤ 2 ^ 32) (h32 : ∀ h ∈ leafHashes, h.length = 32) :
    (∀ known, KnownCorrect H leafHashes known → MerkleAgrees H leafHashes known)
      ↔ KeysAgree H leafHashes :=
  ⟨keysAgree_of_agrees hne hlen h32,
    fun hk _ hc => merkleAgrees_of_keysAgree hk hne hlen h32 hc⟩

/-- Below `2 ^ 53` keys are exact, and two ranges of one tree have two keys. -/
lemma keysAgree_of_exact (hne : leafHashes ≠ [])
    (h : leafHashes.length * (leafHashes.length + 2) < 2 ^ 53) : KeysAgree H leafHashes := by
  intro lo hi lo' hi' hn hn' h2 h2' hkey
  have hpos : 0 < leafHashes.length := List.length_pos_iff.mpr hne
  have exact_key : ∀ {a b : ℕ}, a < b → b ≤ leafHashes.length →
      memoKey leafHashes.length a b = a * (leafHashes.length + 1) + b := by
    intro a b hab hb
    have hle : a * (leafHashes.length + 1) + b ≤ leafHashes.length * (leafHashes.length + 2) := by
      nlinarith
    have hprod : roundNat (a * (leafHashes.length + 1)) = a * (leafHashes.length + 1) :=
      roundNat_of_lt (by omega)
    rw [memoKey, hprod, roundNat_of_lt (by omega)]
  obtain ⟨hlt, hle⟩ := hn.bounds hpos
  obtain ⟨hlt', hle'⟩ := hn'.bounds hpos
  rw [exact_key hlt hle, exact_key hlt' hle'] at hkey
  -- quotient and remainder by `n + 1`
  have hlo : lo = lo' := by nlinarith
  have hhi : hi = hi' := by
    subst hlo
    omega
  rw [hlo, hhi]

/-- Two zero leaves: no two ranges share a key, and any correct known roots do no harm. -/
theorem merkleTree_agrees_iff_pair :
    KeysAgree sha256 zeroPair ∧
      ∀ known, KnownCorrect sha256 zeroPair known → MerkleAgrees sha256 zeroPair known := by
  have hkeys : KeysAgree sha256 zeroPair := keysAgree_of_exact (by decide) (by decide)
  exact ⟨hkeys,
    (merkleTree_agrees_iff sha256 zeroPair (by decide) (by decide) (by decide)).mpr hkeys⟩

/-! ### A tree in which keys meet -/

/-- The hash over `2 ^ k` leaves with one hash. -/
def evenHash (H : HashFn) (leaf : Bytes) : ℕ → Bytes
  | 0 => leaf
  | k + 1 =>
      let h := evenHash H leaf k
      merkleNodeHash H h h

/-- In a tree of equal leaves a range of `2 ^ k` leaves has hash `evenHash H leaf k`. -/
lemma subtreeHash_even {leaf : Bytes} {n k : ℕ} (h : lo + 2 ^ k ≤ n) :
    subtreeHash H (List.replicate n leaf) lo (lo + 2 ^ k) = evenHash H leaf k := by
  induction k generalizing lo with
  | zero =>
      rw [subtreeHash_leaf (by omega), evenHash, List.getD_eq_getElem?_getD,
        List.getElem?_replicate, if_pos (by omega)]
      rfl
  | succ k ih =>
      have hp : 2 ^ (k + 1) = 2 ^ k + 2 ^ k := by rw [pow_succ, mul_two]
      have hpos : 0 < 2 ^ k := by positivity
      have hcut : split (lo + 2 ^ (k + 1) - lo) = 2 ^ k := by
        rw [Nat.add_sub_cancel_left, split_eq (by omega), cut_two_pow]
      rw [subtreeHash_node (by omega), hcut, ih (by omega), hp, ← add_assoc, ih (by omega),
        evenHash]

/-- The hash over `2 ^ k` zero leaves. -/
def zeroHash (H : HashFn) : ℕ → Bytes
  | 0 => zeroLeaf
  | k + 1 => merkleNodeHash H (zeroHash H k) (zeroHash H k)

lemma evenHash_zeroLeaf (k : ℕ) : evenHash H zeroLeaf k = zeroHash H k := by
  induction k with
  | zero => rfl
  | succ k ih => rw [evenHash, zeroHash, ih]

/-- The ranges of a tree of `2 ^ (e + 1)` leaves that start at its middle. -/
lemma node_middle {e j : ℕ} (h : j ≤ e) : Node (2 ^ (e + 1)) (2 ^ e) (2 ^ e + 2 ^ j) := by
  induction h using Nat.decreasingInduction with
  | self =>
      have hright := Node.right (n := 2 ^ (e + 1)) Node.root
        (by rw [Nat.sub_zero, pow_succ]; have : 0 < 2 ^ e := (by positivity); omega)
      rw [Nat.sub_zero, cut_two_pow, Nat.zero_add] at hright
      rwa [show 2 ^ e + 2 ^ e = 2 ^ (e + 1) by rw [pow_succ, mul_two]]
  | of_succ j hj ih =>
      have hleft := ih.left (by
        rw [Nat.add_sub_cancel_left, pow_succ]; have : 0 < 2 ^ j := (by positivity); omega)
      rwa [Nat.add_sub_cancel_left, cut_two_pow] at hleft

/-- In a tree of `2 ^ 28` leaves the first two and the first four leaves of the right half
share a key: with the root of the four known, the path of the third holds it in place of the
root of the two. -/
theorem merkleTree_disagrees :
    KnownCorrect sha256 (List.replicate (2 ^ 28) zeroLeaf)
        [⟨2 ^ 27, 2 ^ 27 + 2 ^ 2, zeroHash sha256 2⟩]
      ∧ ¬ MerkleAgrees sha256 (List.replicate (2 ^ 28) zeroLeaf)
        [⟨2 ^ 27, 2 ^ 27 + 2 ^ 2, zeroHash sha256 2⟩] := by
  obtain ⟨leaves, hleaves⟩ : ∃ l, l = List.replicate (2 ^ 28) zeroLeaf := ⟨_, rfl⟩
  have hlen : leaves.length = 2 ^ 28 := by rw [hleaves, List.length_replicate]
  have h32 : ∀ h ∈ leaves, h.length = 32 := by
    intro h hh
    rw [hleaves] at hh
    rw [(List.mem_replicate.mp hh).2]
    rfl
  have hroot : ∀ {k : ℕ}, 2 ^ 27 + 2 ^ k ≤ 2 ^ 28 →
      subtreeHash sha256 leaves (2 ^ 27) (2 ^ 27 + 2 ^ k) = zeroHash sha256 k := fun h => by
    rw [hleaves, subtreeHash_even h, evenHash_zeroLeaf]
  rw [← hleaves]
  constructor
  · intro k hk
    obtain rfl := List.mem_singleton.mp hk
    refine ⟨by rw [hlen]; exact node_middle (by norm_num), by norm_num, ?_⟩
    rw [merkleRoot_slice h32 (by norm_num) (by rw [hlen]; norm_num), hroot (by norm_num)]
  · intro ha
    have hnode : Node leaves.length (2 ^ 27) (2 ^ 27 + 2 ^ 1) := by
      rw [hlen]
      exact node_middle (by norm_num)
    have hkey : memoKey leaves.length (2 ^ 27) (2 ^ 27 + 2 ^ 2)
        = memoKey leaves.length (2 ^ 27) (2 ^ 27 + 2 ^ 1) := by
      rw [hlen]
      decide
    have hseen := seen_of_agrees (v := zeroHash sha256 2) (by rw [hlen]; norm_num) h32 ha hnode
      (by norm_num) fun memo hmemo => by
        have h2 : (zeroHash sha256 2).length = 32 := length_merkleNodeHash _ _ _
        rw [knownMemo, if_neg (by rw [hlen, h2]; norm_num), knownMemo] at hmemo
        rw [← Except.ok.inj hmemo, ← hkey, List.lookup_cons_self]
    rw [hroot (by norm_num)] at hseen
    exact absurd hseen (by decide +kernel)

end BitGraph
