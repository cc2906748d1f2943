import BitGraph.Tree
import BitGraph.Lib.Buckets

/-!
The leaves of a tree in order.

* **Sort.** `sortTreeLeaves` sorts by buckets of the first two bytes, and refuses two leaves of one digest.
  `sortTreeLeaves_eq_ok`: what it returns is the permutation in strict order.
* **The list.** `buildTree` and the root document of a producer, `encodeTreeLeaves` and `decodeTreeLeaves`, and
  `verifyTreeLeaves` for the whole list.
* `tree_leaves_sorted`: the sort, its order, what it refuses, and the check of what it returns.
-/

namespace BitGraph

open Js

/-! ### Bytes in order -/

/-- The first bytes that differ, else the lengths. -/
def compareBytes : Bytes → Bytes → ℤ
  | x :: a, y :: b => if x ≠ y then (x.toNat : ℤ) - y.toNat else compareBytes a b
  | a, b => (a.length : ℤ) - b.length

variable {a b c : Bytes}

lemma compareBytes_nil : compareBytes [] b = -b.length := by
  simp [compareBytes]

lemma compareBytes_cons_nil {x : UInt8} : compareBytes (x :: a) [] = a.length + 1 := by
  simp [compareBytes]

lemma compareBytes_neg : compareBytes a b < 0 ↔ a < b := by
  induction a generalizing b with
  | nil =>
      rw [compareBytes_nil]
      cases b with
      | nil => simp
      | cons y b => exact iff_of_true (by simp; omega) (List.nil_lt_cons y b)
  | cons x a ih =>
      cases b with
      | nil =>
          rw [compareBytes_cons_nil]
          exact iff_of_false (by omega) (List.not_lt_nil _)
      | cons y b =>
          rw [compareBytes, List.cons_lt_cons_iff]
          by_cases hxy : x = y
          · subst hxy
            simp [ih]
          · rw [if_pos hxy]
            simp only [hxy, false_and, or_false, UInt8.lt_iff_toNat_lt]
            omega

lemma compareBytes_eq_zero : compareBytes a b = 0 ↔ a = b := by
  induction a generalizing b with
  | nil =>
      rw [compareBytes_nil]
      cases b with
      | nil => simp
      | cons y b => exact iff_of_false (by simp; omega) nofun
  | cons x a ih =>
      cases b with
      | nil =>
          rw [compareBytes_cons_nil]
          exact iff_of_false (by omega) nofun
      | cons y b =>
          rw [compareBytes]
          by_cases hxy : x = y
          · subst hxy
            simp [ih]
          · rw [if_pos hxy, List.cons.injEq]
            refine iff_of_false (fun h => hxy ?_) fun h => hxy h.1
            exact UInt8.toNat_inj.mp (by omega)

/-- The comparison says at most where the order does. -/
lemma compareBytes_nonpos : compareBytes a b ≤ 0 ↔ a ≤ b := by
  rw [Int.le_iff_lt_or_eq, compareBytes_neg, compareBytes_eq_zero, Std.le_iff_lt_or_eq]

/-! ### Sort -/

/-- The first two bytes of the artifact. -/
def bucketKey (l : TreeLeaf) : ℕ := ((l.artifact.getD 0 0).toNat <<< 8) ||| (l.artifact.getD 1 0).toNat

def leafLe (x y : TreeLeaf) : Bool := decide (compareBytes x.artifact y.artifact ≤ 0)

/-- The loop over neighbours of the sorted list. -/
def checkDuplicates : List TreeLeaf → Except Thrown Unit
  | x :: y :: rest =>
      if bytesEqual y.artifact x.artifact then
        .error (typeError (js "duplicate leaf artifact digest " ++ bytesToHex y.artifact))
      else checkDuplicates (y :: rest)
  | _ => .ok ()

def sortTreeLeaves (leaves : List TreeLeaf) : Except Thrown (List TreeLeaf) :=
  if leaves.length = 0 then .error (typeError (js "a tree lists at least one leaf"))
  else if MAX_TREE_LEAVES < leaves.length then
    .error (typeError (js "a tree lists at most " ++ decimal MAX_TREE_LEAVES ++ js " leaves"))
  else do
    leaves.forM checkLeaf
    -- by the first two bytes, then each bucket on the rest
    let sorted := Buckets.bucketSort bucketKey leafLe leaves
    checkDuplicates sorted
    return sorted

/-- Strictly ascending by artifact digest. -/
def InTreeOrder (leaves : List TreeLeaf) : Prop := leaves.Pairwise fun x y => x.artifact < y.artifact

variable {leaves sorted : List TreeLeaf} {x y : TreeLeaf}

lemma leafLe_iff : leafLe x y = true ↔ x.artifact ≤ y.artifact :=
  decide_eq_true_iff.trans compareBytes_nonpos

lemma bucketKey_lower (hx : x.Valid) (hy : y.Valid) (h : bucketKey x < bucketKey y) :
    leafLe x y = true := by
  have hkey : ∀ {l : TreeLeaf} {p q : UInt8} {t : Bytes}, l.artifact = p :: q :: t →
      bucketKey l = p.toNat * 256 + q.toNat := by
    intro l p q t hl
    have hq := q.toNat_lt
    rw [bucketKey, hl]
    change p.toNat <<< 8 ||| q.toNat = _
    rw [← Nat.shiftLeft_add_eq_or_of_lt hq, Nat.shiftLeft_eq]
  obtain ⟨p, q, s, hp⟩ : ∃ p q s, x.artifact = p :: q :: s := by
    match hl : x.artifact, hx.artifact with
    | p :: q :: s, _ => exact ⟨p, q, s, rfl⟩
  obtain ⟨p', q', s', hp'⟩ : ∃ p q s, y.artifact = p :: q :: s := by
    match hl : y.artifact, hy.artifact with
    | p :: q :: s, _ => exact ⟨p, q, s, rfl⟩
  rw [hkey hp, hkey hp'] at h
  rw [leafLe_iff, hp, hp', Std.le_iff_lt_or_eq, List.cons_lt_cons_iff, List.cons_lt_cons_iff,
    UInt8.lt_iff_toNat_lt, UInt8.lt_iff_toNat_lt, ← UInt8.toNat_inj]
  have := q'.toNat_lt
  left
  omega

lemma checkDuplicates_eq_ok : checkDuplicates leaves = .ok () ↔
    leaves.IsChain fun x y => x.artifact ≠ y.artifact := by
  induction leaves with
  | nil => simp [checkDuplicates]
  | cons x rest ih =>
      cases rest with
      | nil => simp [checkDuplicates]
      | cons y rest =>
          rw [checkDuplicates, List.isChain_cons_cons]
          by_cases h : y.artifact = x.artifact
          · rw [if_pos (bytesEqual_iff.mpr h)]
            exact iff_of_false nofun fun hc => hc.1 h.symm
          · rw [if_neg fun he => h (bytesEqual_iff.mp he), ih]
            exact ⟨fun hc => ⟨Ne.symm h, hc⟩, And.right⟩

lemma forM_checkLeaf : leaves.forM checkLeaf = .ok () ↔ ∀ l ∈ leaves, l.Valid := by
  induction leaves with
  | nil => exact iff_of_true rfl nofun
  | cons x rest ih =>
      rw [List.forM_eq_forM, List.forM_cons, List.forall_mem_cons, ← ih, ← checkLeaf_eq_ok]
      constructor
      · intro h
        obtain ⟨u, hx, h⟩ := bind_eq_ok h
        exact ⟨hx, h⟩
      · rintro ⟨hx, h⟩
        rw [hx]
        exact h

/-- A list that is in order, with no equal neighbours, is in strict order. -/
lemma inTreeOrder_iff (h : leaves.Pairwise fun x y => leafLe x y = true) :
    (leaves.IsChain fun x y => x.artifact ≠ y.artifact) ↔ InTreeOrder leaves := by
  constructor
  · intro hne
    induction leaves with
    | nil => exact List.Pairwise.nil
    | cons x rest ih =>
        obtain ⟨hx, hrest⟩ := List.pairwise_cons.mp h
        cases rest with
        | nil => exact List.pairwise_singleton _ _
        | cons y rest =>
            obtain ⟨hxy, hne⟩ := List.isChain_cons_cons.mp hne
            have hstrict := ih hrest hne
            have hlt : x.artifact < y.artifact := Std.lt_of_le_of_ne (leafLe_iff.mp (hx y List.mem_cons_self)) hxy
            refine List.pairwise_cons.mpr ⟨fun z hz => ?_, hstrict⟩
            rcases List.mem_cons.mp hz with rfl | hz
            · exact hlt
            · exact Std.lt_trans hlt ((List.pairwise_cons.mp hstrict).1 z hz)
  · intro hlt
    exact (hlt.imp Std.ne_of_lt).isChain

/-- One order of the leaves is strict. -/
lemma InTreeOrder.unique {other : List TreeLeaf} (h : InTreeOrder sorted) (h' : InTreeOrder other)
    (hperm : sorted.Perm other) : sorted = other :=
  List.Perm.eq_of_pairwise (fun _ _ _ _ hlt hgt => (Std.not_gt_of_lt hlt hgt).elim) h h' hperm

lemma InTreeOrder.nodup (h : InTreeOrder sorted) : (sorted.map TreeLeaf.artifact).Nodup :=
  List.pairwise_map.mpr (h.imp Std.ne_of_lt)

lemma bucketSort_leaves (h : ∀ l ∈ leaves, l.Valid) :
    (Buckets.bucketSort bucketKey leafLe leaves).Pairwise fun x y => leafLe x y = true := by
  refine Buckets.bucketSort_pairwise (fun x y z hxy hyz => ?_) (fun x y => ?_)
    fun x hx y hy hkey => bucketKey_lower (h x hx) (h y hy) hkey
  · rw [leafLe_iff] at hxy hyz ⊢
    exact Std.le_trans hxy hyz
  · rw [Bool.or_eq_true, leafLe_iff, leafLe_iff]
    exact Std.le_total

/-- What the sort accepts: leaves that can be a tree. -/
structure Sortable (leaves : List TreeLeaf) : Prop where
  ne_nil : leaves ≠ []
  length_le : leaves.length ≤ MAX_TREE_LEAVES
  valid : ∀ l ∈ leaves, l.Valid
  nodup : (leaves.map TreeLeaf.artifact).Nodup

/-- **Sort.** What is returned is the permutation in strict order. -/
lemma sortTreeLeaves_eq_ok : sortTreeLeaves leaves = .ok sorted ↔
    Sortable leaves ∧ sorted.Perm leaves ∧ InTreeOrder sorted := by
  have hperm := @Buckets.bucketSort_perm _ bucketKey leafLe leaves
  constructor
  · intro h
    rw [sortTreeLeaves] at h
    split at h
    · cases h
    · next hne =>
      split at h
      · cases h
      · next hle =>
        obtain ⟨u, hvalid, h⟩ := bind_eq_ok h
        obtain ⟨u', hdup, h⟩ := bind_eq_ok h
        obtain rfl := Except.ok.inj h
        have hvalid := forM_checkLeaf.mp hvalid
        have horder := (inTreeOrder_iff (bucketSort_leaves hvalid)).mp (checkDuplicates_eq_ok.mp hdup)
        exact ⟨⟨fun hnil => hne (by rw [hnil]; rfl), Nat.not_lt.mp hle, hvalid,
          (hperm.map TreeLeaf.artifact).nodup_iff.mp horder.nodup⟩, hperm, horder⟩
  · rintro ⟨⟨hne, hle, hvalid, hnodup⟩, hsorted, horder⟩
    have hpair := bucketSort_leaves hvalid
    have hne' : (Buckets.bucketSort bucketKey leafLe leaves).IsChain fun x y => x.artifact ≠ y.artifact :=
      (List.pairwise_map.mp ((hperm.map TreeLeaf.artifact).nodup_iff.mpr hnodup)).isChain
    have heq := horder.unique ((inTreeOrder_iff hpair).mp hne') (hsorted.trans hperm.symm)
    rw [sortTreeLeaves, if_neg fun h => hne (List.length_eq_zero_iff.mp h), if_neg (Nat.not_lt.mpr hle),
      forM_checkLeaf.mpr hvalid, ok_bind]
    dsimp only
    rw [checkDuplicates_eq_ok.mpr hne', heq]
    rfl

lemma Sortable.perm (h : Sortable leaves) (hperm : leaves.Perm sorted) : Sortable sorted where
  ne_nil hnil := h.ne_nil (hnil ▸ hperm).eq_nil
  length_le := hperm.length_eq ▸ h.length_le
  valid l hl := h.valid l (hperm.mem_iff.mpr hl)
  nodup := (hperm.map TreeLeaf.artifact).nodup_iff.mp h.nodup

lemma Sortable.exists_sorted (h : Sortable leaves) : ∃ sorted, sortTreeLeaves leaves = .ok sorted := by
  have hperm := @Buckets.bucketSort_perm _ bucketKey leafLe leaves
  have hnodup := (hperm.map TreeLeaf.artifact).nodup_iff.mpr h.nodup
  have horder := (inTreeOrder_iff (bucketSort_leaves h.valid)).mp (List.pairwise_map.mp hnodup).isChain
  exact ⟨_, sortTreeLeaves_eq_ok.mpr ⟨h, hperm, horder⟩⟩

/-! ### The whole list -/

structure BuiltTree where
  sorted : List TreeLeaf
  leafHashes : List Bytes
  root : Bytes
  tree : MerkleTree

section Whole

variable (H : HashFn)

def buildTree (leaves : List TreeLeaf) : Except Thrown BuiltTree := do
  let sorted ← sortTreeLeaves leaves
  -- the leaves were checked by the sort
  let leafHashes := sorted.map fun l => H (0 :: l.placement :: (l.artifact ++ l.origin))
  let tree ← MerkleTree.new H leafHashes []
  return ⟨sorted, leafHashes, tree.root, tree⟩

/-- Every leaf in tree order. -/
def encodeTreeLeaves (sorted : List TreeLeaf) : Except Thrown Bytes := do
  return (← sorted.mapM encodeTreeLeaf).flatten

/-- The loop of `decodeTreeLeaves` over the bytes that are left. -/
def decodeLeavesLoop (bytes : Bytes) : Option (List TreeLeaf) :=
  if bytes.length = 0 then some []
  else do
    let l ← decodeTreeLeaf (bytes.take TREE_LEAF_BYTES)
    return l :: (← decodeLeavesLoop (bytes.drop TREE_LEAF_BYTES))
termination_by bytes.length
decreasing_by
  rw [List.length_drop, TREE_LEAF_BYTES]
  omega

def decodeTreeLeaves (bytes : Bytes) : Option (List TreeLeaf) :=
  if bytes.length = 0 ∨ bytes.length % TREE_LEAF_BYTES ≠ 0 then none else decodeLeavesLoop bytes

structure TreeLeavesCheck where
  ok : Bool
  reason : Option Str
  count : Option ℕ

/-- The loop over neighbours, the second of them at `i`. -/
def orderReason : ℕ → List TreeLeaf → Option Str
  | i, x :: y :: rest =>
      let c := compareBytes x.artifact y.artifact
      if c = 0 then some (js "duplicate artifact digest at leaves " ++ decimal (i - 1) ++ js " and " ++ decimal i)
      else if 0 < c then
        some (js "leaves " ++ decimal (i - 1) ++ js " and " ++ decimal i ++ js " are out of order")
      else orderReason (i + 1) (y :: rest)
  | _, _ => none

def verifyTreeLeaves (rootDocument leavesBytes : Bytes) : Except Thrown TreeLeavesCheck :=
  let bad := fun reason : Str => (.ok ⟨false, some reason, none⟩ : Except Thrown TreeLeavesCheck)
  match parseTreeRootDocument rootDocument with
  | none => bad (js "the root document is not a tree/1 root document")
  | some doc =>
      match decodeTreeLeaves leavesBytes with
      | none => bad (js "the leaves are not a whole number of valid 65-byte leaves")
      | some leaves =>
          if leaves.length ≠ doc.count then
            bad (js "the list holds " ++ decimal leaves.length ++ js " leaves; the root document states "
              ++ decimal doc.count)
          else
            match orderReason 1 leaves with
            | some reason => bad reason
            | none => do
                let tree ← MerkleTree.new H (← leaves.mapM (treeLeafHash H)) []
                if bytesEqual tree.root doc.root = false then
                  bad (js "the leaves do not rebuild the committed root")
                else return ⟨true, none, some doc.count⟩

variable {H}

lemma encodeTreeLeaves_of_valid (h : ∀ l ∈ sorted, l.Valid) :
    encodeTreeLeaves sorted = .ok (sorted.flatMap TreeLeaf.bytes) := by
  have hmap : sorted.mapM encodeTreeLeaf = .ok (sorted.map TreeLeaf.bytes) :=
    mapM_eq_ok.mpr (List.forall₂_map_right_iff.mpr (List.forall₂_same.mpr fun l hl =>
      encodeTreeLeaf_of_valid (h l hl)))
  rw [encodeTreeLeaves, hmap, ok_bind]
  rfl

lemma length_flatMap_bytes (h : ∀ l ∈ sorted, l.Valid) :
    (sorted.flatMap TreeLeaf.bytes).length = TREE_LEAF_BYTES * sorted.length := by
  induction sorted with
  | nil => rfl
  | cons l rest ih =>
      obtain ⟨hl, hrest⟩ := List.forall_mem_cons.mp h
      rw [List.flatMap_cons, List.length_append, ih hrest, hl.length_bytes, List.length_cons]
      ring

/-- The list that was written is read back. -/
lemma decodeTreeLeaves_flatMap (hne : sorted ≠ []) (h : ∀ l ∈ sorted, l.Valid) :
    decodeTreeLeaves (sorted.flatMap TreeLeaf.bytes) = some sorted := by
  have hloop : decodeLeavesLoop (sorted.flatMap TreeLeaf.bytes) = some sorted := by
    clear hne
    induction sorted with
    | nil => rw [decodeLeavesLoop]; rfl
    | cons l rest ih =>
        obtain ⟨hl, hrest⟩ := List.forall_mem_cons.mp h
        have hlen := hl.length_bytes
        rw [List.flatMap_cons, decodeLeavesLoop, List.take_left' hlen, List.drop_left' hlen,
          decodeTreeLeaf_eq_some.mpr ⟨hl, rfl⟩, ih hrest, if_neg]
        · rfl
        · rw [List.length_append, hlen, TREE_LEAF_BYTES]
          omega
  have hpos := List.length_pos_iff.mpr hne
  rw [decodeTreeLeaves, if_neg, hloop]
  rw [length_flatMap_bytes h, Nat.mul_mod_right, TREE_LEAF_BYTES]
  omega

lemma orderReason_eq_none {i : ℕ} (h : InTreeOrder sorted) : orderReason i sorted = none := by
  induction sorted generalizing i with
  | nil => rfl
  | cons x rest ih =>
      cases rest with
      | nil => rfl
      | cons y rest =>
          have hlt := (List.pairwise_cons.mp h).1 y List.mem_cons_self
          have hneg := compareBytes_neg.mpr hlt
          rw [orderReason, if_neg (by omega), if_neg (by omega)]
          exact ih (List.pairwise_cons.mp h).2

/-- The tree of leaves of a tree, and its root of 32 bytes. -/
lemma exists_tree (hne : sorted ≠ []) (hle : sorted.length ≤ MAX_TREE_LEAVES) :
    ∃ tree, MerkleTree.new H (sorted.map fun l => merkleLeafHash H l.bytes) [] = .ok tree ∧
      tree.root.length = 32 := by
  have hmax : MAX_TREE_LEAVES = 1000000 := rfl
  set hashes := sorted.map fun l => merkleLeafHash H l.bytes with hhashes
  have hlength : hashes.length = sorted.length := by rw [hhashes, List.length_map]
  have hnil : hashes ≠ [] := by simpa [hhashes] using hne
  have hpos := List.length_pos_iff.mpr hnil
  have h32 : ∀ h ∈ hashes, h.length = 32 := by
    rw [hhashes, List.forall_mem_map]
    exact fun l _ => H.length_apply _
  have hkeys : KeysAgree H hashes := keysAgree_of_exact hnil (by rw [hlength]; nlinarith)
  have hknown : KnownCorrect H hashes [] := by
    intro k hk
    simp at hk
  obtain ⟨tree, htree, hroot, -⟩ := merkleAgrees_of_keysAgree hkeys hnil (by omega) h32 hknown
  refine ⟨tree, htree, ?_⟩
  rw [merkleRoot_of_valid hnil h32] at hroot
  rw [← Except.ok.inj hroot]
  exact length_subtreeHash h32 hpos

/-- What a producer builds of the sorted list passes the check of the whole list. -/
def Passes (H : HashFn) (leaves sorted : List TreeLeaf) : Prop :=
  ∀ commitment : Bytes, commitment.length = 32 → ∃ built rootDocument leavesBytes,
    buildTree H leaves = .ok built ∧ built.sorted = sorted ∧
    buildTreeRootDocument commitment sorted.length built.root = .ok rootDocument ∧
    encodeTreeLeaves sorted = .ok leavesBytes ∧
    verifyTreeLeaves H rootDocument leavesBytes = .ok ⟨true, none, some sorted.length⟩

lemma passes_of_sortTreeLeaves (h : sortTreeLeaves leaves = .ok sorted) : Passes H leaves sorted := by
  obtain ⟨hsortable, hperm, horder⟩ := sortTreeLeaves_eq_ok.mp h
  have hvalid : ∀ l ∈ sorted, l.Valid := fun l hl => hsortable.valid l (hperm.mem_iff.mp hl)
  have hne : sorted ≠ [] := fun hnil => hsortable.ne_nil (hnil ▸ hperm).nil_eq.symm
  have hle : sorted.length ≤ MAX_TREE_LEAVES := hperm.length_eq.trans_le hsortable.length_le
  have hpos := List.length_pos_iff.mpr hne
  obtain ⟨tree, htree, h32⟩ := @exists_tree sorted H hne hle
  have hbuilt : buildTree H leaves = .ok ⟨sorted, sorted.map fun l => merkleLeafHash H l.bytes, tree.root, tree⟩ := by
    rw [buildTree, h, ok_bind]
    change (MerkleTree.new H (sorted.map fun l => merkleLeafHash H l.bytes) [] >>= _) = _
    rw [htree]
    rfl
  have hmap : sorted.mapM (treeLeafHash H) = .ok (sorted.map fun l => merkleLeafHash H l.bytes) :=
    mapM_eq_ok.mpr (List.forall₂_map_right_iff.mpr (List.forall₂_same.mpr fun l hl =>
      treeLeafHash_of_valid (hvalid l hl)))
  intro commitment hcommitment
  have hdoc : buildTreeRootDocument commitment sorted.length tree.root
      = .ok (TREE_DOMAIN ++ Sha256.beBytes 4 sorted.length ++ tree.root ++ commitment) := by
    rw [buildTreeRootDocument, if_neg (by omega), if_neg (by omega)]
  refine ⟨_, _, _, hbuilt, rfl, hdoc, encodeTreeLeaves_of_valid hvalid, ?_⟩
  rw [verifyTreeLeaves]
  simp only [parseTreeRootDocument_build hdoc, decodeTreeLeaves_flatMap hne hvalid, orderReason_eq_none horder]
  rw [if_neg (not_not.mpr rfl), hmap, ok_bind, htree, ok_bind, bytesEqual_iff.mpr rfl, if_neg (by rintro ⟨⟩)]
  rfl

end Whole

/-- **Sorted leaves.** What is returned is the one permutation in strictly ascending order, the same for every
order of the leaves, and passes the check of the whole list; an error is thrown exactly for an empty list, too many
leaves, an ill-formed leaf, or two leaves of one artifact. -/
theorem tree_leaves_sorted (H : HashFn) (leaves : List TreeLeaf) :
    (∀ sorted, sortTreeLeaves leaves = .ok sorted →
      (sorted.Perm leaves ∧ InTreeOrder sorted ∧
        ∀ other : List TreeLeaf, other.Perm leaves → InTreeOrder other → other = sorted) ∧
      Passes H leaves sorted) ∧
    (∀ leaves' : List TreeLeaf, leaves'.Perm leaves →
      (sortTreeLeaves leaves').toOption = (sortTreeLeaves leaves).toOption) ∧
    ((∃ e, sortTreeLeaves leaves = .error e) ↔ leaves = [] ∨ MAX_TREE_LEAVES < leaves.length ∨
      (∃ l ∈ leaves, ¬ l.Valid) ∨ ¬ (leaves.map TreeLeaf.artifact).Nodup) := by
  refine ⟨fun sorted h => ?_, fun leaves' hperm => ?_, ?_⟩
  · obtain ⟨-, hperm, horder⟩ := sortTreeLeaves_eq_ok.mp h
    exact ⟨⟨hperm, horder, fun other hother hstrict =>
      hstrict.unique horder (hother.trans hperm.symm)⟩, passes_of_sortTreeLeaves h⟩
  · ext sorted
    rw [toOption_eq_some, toOption_eq_some, sortTreeLeaves_eq_ok, sortTreeLeaves_eq_ok]
    constructor
    · rintro ⟨h, hsorted, horder⟩
      exact ⟨h.perm hperm, hsorted.trans hperm, horder⟩
    · rintro ⟨h, hsorted, horder⟩
      exact ⟨h.perm hperm.symm, hsorted.trans hperm.symm, horder⟩
  · have hiff : (∃ e, sortTreeLeaves leaves = .error e) ↔ ¬ Sortable leaves := by
      constructor
      · rintro ⟨e, he⟩ h
        obtain ⟨sorted, hok⟩ := h.exists_sorted
        cases he.symm.trans hok
      · intro h
        cases hr : sortTreeLeaves leaves with
        | error e => exact ⟨e, rfl⟩
        | ok sorted => exact absurd (sortTreeLeaves_eq_ok.mp hr).1 h
    rw [hiff]
    constructor
    · intro h
      by_contra hn
      push Not at hn
      exact h ⟨hn.1, hn.2.1, hn.2.2.1, hn.2.2.2⟩
    · rintro (h | h | ⟨l, hl, h⟩ | h) hs
      · exact hs.ne_nil h
      · exact absurd hs.length_le (Nat.not_le.mpr h)
      · exact h (hs.valid l hl)
      · exact h hs.nodup

end BitGraph
