import BitGraph.Recovery.Plaintext
import BitGraph.Tree.Sort

/-!
The two checks of an owner's list: `recoveryTreeFromParts` of the recovery reader, and
`verifyTreeLeaves` of the verifier.

* **Cuts.** `cuts_eq_map_iff`: the reader's cuts of the bytes are the leaves that the verifier reads.
* **Lists.** `IsList` says what a list of a root document is; `verifyTreeLeaves_iff` and
  `recoveryTreeFromParts_iff`: each of the two accepts exactly the lists.
* **Main result.** `same_lists`: with matching parts the reader accepts what the verifier accepts, and both
  read the same leaf at every index.
-/

namespace BitGraph

open Js

namespace Recovery

variable {H : HashFn} {leaves : List TreeLeaf} {bytes : Bytes}

/-! ### Cuts -/

/-- Pieces of one length are determined by what they make together. -/
lemma eq_of_flatten {k : ℕ} {xs ys : List Bytes} (hx : ∀ x ∈ xs, x.length = k)
    (hy : ∀ y ∈ ys, y.length = k) (hlen : xs.length = ys.length) (h : xs.flatten = ys.flatten) :
    xs = ys := by
  induction xs generalizing ys with
  | nil => exact (List.length_eq_zero_iff.mp hlen.symm).symm
  | cons x xs ih =>
    obtain ⟨y, ys, rfl⟩ := List.exists_cons_of_length_eq_add_one (hlen.symm.trans List.length_cons)
    rw [List.flatten_cons, List.flatten_cons] at h
    have hxy : x.length = y.length := (hx x List.mem_cons_self).trans (hy y List.mem_cons_self).symm
    obtain ⟨rfl, hrest⟩ := List.append_inj h hxy
    rw [ih (fun z hz => hx z (List.mem_cons_of_mem _ hz)) (fun z hz => hy z (List.mem_cons_of_mem _ hz))
      (Nat.succ.inj hlen) hrest]

/-- The reader's cuts of `n` leaves. -/
def cuts (bytes : Bytes) (n : ℕ) : List Bytes := (List.range n).map (leafBytesAt bytes)

lemma flatten_cuts (bytes : Bytes) (n : ℕ) : (cuts bytes n).flatten = bytes.take (n * TREE_LEAF_BYTES) := by
  induction n with
  | zero => simp [cuts]
  | succ n ih =>
    have hpiece : leafBytesAt bytes n = (bytes.drop (n * TREE_LEAF_BYTES)).take TREE_LEAF_BYTES := by
      rw [leafBytesAt, slice, Nat.succ_mul, Nat.add_sub_cancel_left]
    rw [cuts] at ih ⊢
    rw [List.range_succ, List.map_append, List.flatten_append, ih, List.map_singleton,
      List.flatten_singleton, hpiece, Nat.succ_mul, List.take_add]

lemma length_cut {n i : ℕ} (hlen : bytes.length = n * TREE_LEAF_BYTES) (hi : i < n) :
    (leafBytesAt bytes i).length = TREE_LEAF_BYTES := by
  rw [leafBytesAt, slice, List.length_take, List.length_drop, hlen, Nat.succ_mul,
    Nat.add_sub_cancel_left, ← Nat.sub_mul]
  exact Nat.min_eq_left (Nat.le_mul_of_pos_left _ (Nat.sub_pos_of_lt hi))

/-- The cuts are the leaves of a list exactly where the bytes are theirs. -/
lemma cuts_eq_map_iff {n : ℕ} (hlen : bytes.length = n * TREE_LEAF_BYTES) (hv : ∀ l ∈ leaves, l.Valid) :
    cuts bytes n = leaves.map TreeLeaf.bytes ↔ bytes = leaves.flatMap TreeLeaf.bytes := by
  have hall : (cuts bytes n).flatten = bytes := by rw [flatten_cuts, ← hlen, List.take_length]
  constructor
  · intro h
    rw [← hall, h, List.flatMap_def]
  · intro h
    have hcount : n = leaves.length := by
      have hbytes := BitGraph.length_flatMap_bytes hv
      rw [← h, hlen, Nat.mul_comm] at hbytes
      exact Nat.eq_of_mul_eq_mul_left (by decide : 0 < TREE_LEAF_BYTES) hbytes
    refine @eq_of_flatten TREE_LEAF_BYTES _ _ ?_ ?_ ?_ ?_
    · rw [cuts, List.forall_mem_map]
      exact fun i hi => length_cut hlen (List.mem_range.mp hi)
    · rw [List.forall_mem_map]
      exact fun l hl => (hv l hl).length_bytes
    · rw [cuts, List.length_map, List.length_range, List.length_map, hcount]
    · rw [hall, h, List.flatMap_def]

/-! ### Order -/

/-- The two files compare bytes alike. -/
lemma compareBytes_eq (a b : Bytes) : compareBytes a b = BitGraph.compareBytes a b := by
  induction a generalizing b with
  | nil => cases b <;> rfl
  | cons x a ih =>
    cases b with
    | nil => rfl
    | cons y b => rw [compareBytes, BitGraph.compareBytes, ih]

lemma ascends_iff : Ascends none leaves ↔ InTreeOrder leaves := by
  rw [Ascends, Option.toList_none, List.nil_append, InTreeOrder]
  have hlt (a b : Bytes) : compareBytes a b < 0 ↔ a < b := by rw [compareBytes_eq, compareBytes_neg]
  have htrans : IsTrans Bytes fun a b => a < b := ⟨fun _ _ _ => Std.lt_trans⟩
  simp only [hlt]
  rw [List.isChain_iff_pairwise, List.pairwise_map]

lemma inTreeOrder_of_orderReason {i : ℕ} (h : orderReason i leaves = none) : InTreeOrder leaves := by
  rw [← ascends_iff, Ascends, Option.toList_none, List.nil_append]
  induction leaves generalizing i with
  | nil => exact .nil
  | cons x rest ih =>
    cases rest with
    | nil => exact .singleton _
    | cons y rest =>
      rw [orderReason] at h
      split_ifs at h with heq hlt
      refine .cons_cons ?_ (ih h)
      rw [compareBytes_eq]
      omega

/-- The leaves that pass the reader's loop. -/
lemma checkLeaves_eq_ok_iff {bs : List Bytes} {i : ℕ} {previous : Option Bytes} {hashes : List Bytes} :
    checkLeaves H i previous bs = .ok hashes ↔ ∃ leaves : List TreeLeaf, bs = leaves.map TreeLeaf.bytes ∧
      (∀ l ∈ leaves, l.Valid) ∧ Ascends previous leaves ∧ hashes = leafHashes H leaves := by
  constructor
  · intro h
    induction bs generalizing i previous hashes with
    | nil =>
      obtain rfl := Except.ok.inj h
      refine ⟨[], rfl, by simp, ?_, rfl⟩
      cases previous with
      | none => exact .nil
      | some a => exact .singleton a
    | cons b bs ih =>
      cases hb : decodeTreeLeaf b with
      | none => simp [checkLeaves, hb] at h
      | some l =>
        obtain ⟨hv, rfl⟩ := decodeTreeLeaf_eq_some.mp hb
        rw [checkLeaves, hb, if_neg (by simp), (slice_leaf hv).1] at h
        obtain ⟨_, horder, h⟩ := bind_eq_ok h
        obtain ⟨rest, hrest, h⟩ := bind_eq_ok h
        obtain rfl := Except.ok.inj h
        obtain ⟨leaves, rfl, hl, hchain, rfl⟩ := ih hrest
        refine ⟨l :: leaves, rfl, List.forall_mem_cons.mpr ⟨hv, hl⟩, ?_, rfl⟩
        cases previous with
        | none => exact hchain
        | some a =>
          unfold checkOrder at horder
          dsimp only at horder
          split_ifs at horder with heq hlt
          exact .cons_cons (by omega) hchain
  · rintro ⟨leaves, rfl, hv, ha, rfl⟩
    exact checkLeaves_of_ascends hv ha

/-! ### Lists -/

/-- `bytes` is the owner's list of a root document: the leaves, valid and ascending, as many as it states,
under its root. -/
structure IsList (H : HashFn) (rootDocument bytes : Bytes) (doc : TreeRootDocument) (leaves : List TreeLeaf)
    (tree : MerkleTree) : Prop where
  document : parseTreeRootDocument rootDocument = some doc
  ne_nil : leaves ≠ []
  valid : ∀ l ∈ leaves, l.Valid
  bytes_eq : bytes = leaves.flatMap TreeLeaf.bytes
  count : leaves.length = doc.count
  order : InTreeOrder leaves
  tree_eq : MerkleTree.new H (leafHashes H leaves) [] = .ok tree
  root : tree.root = doc.root

lemma decodeTreeLeaves_eq_some : decodeTreeLeaves bytes = some leaves ↔
    leaves ≠ [] ∧ (∀ l ∈ leaves, l.Valid) ∧ bytes = leaves.flatMap TreeLeaf.bytes := by
  constructor
  · intro h
    rw [decodeTreeLeaves] at h
    split_ifs at h with hwhole
    push Not at hwhole
    obtain ⟨hpos, -⟩ := hwhole
    have hloop : ∀ (n : ℕ) {bytes leaves}, bytes.length ≤ n → decodeLeavesLoop bytes = some leaves →
        (∀ l ∈ leaves, l.Valid) ∧ bytes = leaves.flatMap TreeLeaf.bytes := by
      intro n
      induction n with
      | zero =>
        intro bytes leaves hlen h
        obtain rfl := List.length_eq_zero_iff.mp (Nat.le_zero.mp hlen)
        rw [decodeLeavesLoop] at h
        obtain rfl := Option.some.inj h
        exact ⟨by simp, rfl⟩
      | succ n ih =>
        intro bytes leaves hlen h
        rw [decodeLeavesLoop] at h
        split_ifs at h with hnil
        · obtain rfl := Option.some.inj h
          exact ⟨by simp, List.length_eq_zero_iff.mp hnil⟩
        · obtain ⟨l, hl, h⟩ := Option.bind_eq_some_iff.mp h
          obtain ⟨rest, hrest, h⟩ := Option.bind_eq_some_iff.mp h
          obtain rfl := Option.some.inj h
          obtain ⟨hv, hbytes⟩ := decodeTreeLeaf_eq_some.mp hl
          have hdrop : (bytes.drop TREE_LEAF_BYTES).length ≤ n := by
            rw [List.length_drop, TREE_LEAF_BYTES]
            omega
          obtain ⟨hvs, hrest⟩ := ih hdrop hrest
          refine ⟨List.forall_mem_cons.mpr ⟨hv, hvs⟩, ?_⟩
          rw [List.flatMap_cons, ← hbytes, ← hrest, List.take_append_drop]
    obtain ⟨hv, hbytes⟩ := hloop _ le_rfl h
    refine ⟨?_, hv, hbytes⟩
    rintro rfl
    exact hpos (by rw [hbytes]; rfl)
  · rintro ⟨hne, hv, rfl⟩
    exact decodeTreeLeaves_flatMap hne hv

lemma mapM_treeLeafHash (hv : ∀ l ∈ leaves, l.Valid) :
    leaves.mapM (treeLeafHash H) = .ok (leafHashes H leaves) :=
  mapM_eq_ok.mpr (List.forall₂_map_right_iff.mpr (List.forall₂_same.mpr fun l hl =>
    treeLeafHash_of_valid (hv l hl)))

/-- The verifier accepts exactly the lists. -/
lemma verifyTreeLeaves_iff {rootDocument : Bytes} :
    (∃ c, verifyTreeLeaves H rootDocument bytes = .ok c ∧ c.ok = true) ↔
      ∃ doc leaves tree, IsList H rootDocument bytes doc leaves tree := by
  constructor
  · rintro ⟨c, h, hok⟩
    rw [verifyTreeLeaves] at h
    dsimp only at h
    split at h
    · obtain rfl := Except.ok.inj h
      cases hok
    next doc hdoc =>
    split at h
    · obtain rfl := Except.ok.inj h
      cases hok
    next leaves hleaves =>
    obtain ⟨hne, hv, hbytes⟩ := decodeTreeLeaves_eq_some.mp hleaves
    split_ifs at h with hcount
    · obtain rfl := Except.ok.inj h
      cases hok
    split at h
    · obtain rfl := Except.ok.inj h
      cases hok
    next horder =>
    rw [mapM_treeLeafHash hv, ok_bind] at h
    obtain ⟨tree, htree, h⟩ := bind_eq_ok h
    split_ifs at h with hroot
    · obtain rfl := Except.ok.inj h
      cases hok
    · refine ⟨doc, leaves, tree, hdoc, hne, hv, hbytes, not_not.mp hcount, inTreeOrder_of_orderReason horder,
        htree, bytesEqual_iff.mp ?_⟩
      simpa using hroot
  · rintro ⟨doc, leaves, tree, h⟩
    refine ⟨⟨true, none, some doc.count⟩, ?_, rfl⟩
    rw [verifyTreeLeaves]
    simp only [h.document, decodeTreeLeaves_eq_some.mpr ⟨h.ne_nil, h.valid, h.bytes_eq⟩,
      orderReason_eq_none h.order]
    rw [if_neg (not_not.mpr h.count), mapM_treeLeafHash h.valid, ok_bind, h.tree_eq, ok_bind,
      bytesEqual_iff.mpr h.root, if_neg (by rintro ⟨⟩)]
    rfl

/-- The proof hash is one, the locator is one, and it names the root document. -/
structure Matching (H : HashFn) (parts : RecoveryTreeParts) (proofHash32 : Bytes)
    (locator : RecoveryLocator) : Prop where
  hash : base64Of32 parts.proofHash = some proofHash32
  position : parseLocator parts.locator = some locator
  digest : bytesToBase64 (H parts.rootDocument) = locator.artifactDigestB64

/-- The reader accepts exactly the lists that come with matching parts. -/
lemma recoveryTreeFromParts_iff {parts : RecoveryTreeParts} {t : RecoveryTree} :
    recoveryTreeFromParts H parts = .ok t ↔ ∃ proofHash32 locator doc leaves tree,
      Matching H parts proofHash32 locator ∧ IsList H parts.rootDocument parts.leaves doc leaves tree ∧
      t = ⟨parts.proofHash, proofHash32, locator, parts.rootDocument, bytesToHex parts.rootDocument,
        leaves.length, parts.leaves, tree⟩ := by
  constructor
  · intro h
    rw [recoveryTreeFromParts] at h
    split at h
    · cases h
    · cases h
    · cases h
    next proofHash32 locator doc hproof hlocator hdoc =>
    dsimp only at h
    split_ifs at h with hdigest hwhole hcount
    obtain ⟨hashes, hhashes, h⟩ := bind_eq_ok h
    obtain ⟨tree, htree, h⟩ := bind_eq_ok h
    obtain ⟨tree', hnew, hroot⟩ := bind_eq_ok htree
    obtain rfl := Except.ok.inj h
    split_ifs at hroot with heq
    obtain rfl := Except.ok.inj hroot
    obtain ⟨leaves, hcuts, hv, horder, rfl⟩ := checkLeaves_eq_ok_iff.mp hhashes
    push Not at hdigest hcount hwhole
    have hlen : parts.leaves.length = parts.leaves.length / TREE_LEAF_BYTES * TREE_LEAF_BYTES :=
      (Nat.div_mul_cancel (Nat.dvd_of_mod_eq_zero hwhole.2)).symm
    have hbytes := (cuts_eq_map_iff hlen hv).mp hcuts
    have hleaves : leaves.length = parts.leaves.length / TREE_LEAF_BYTES := by
      have hlength := congrArg List.length hcuts
      rw [List.length_map, List.length_range, List.length_map] at hlength
      exact hlength.symm
    refine ⟨proofHash32, locator, doc, leaves, tree', ⟨hproof, hlocator, hdigest⟩, ⟨hdoc, ?_, hv, hbytes,
      hleaves.trans hcount, ascends_iff.mp horder, hnew, bytesEqual_iff.mp heq⟩, by rw [hleaves]⟩
    rintro rfl
    exact hwhole.1 (by rw [hbytes]; rfl)
  · rintro ⟨proofHash32, locator, doc, leaves, tree, hm, hlist, rfl⟩
    have hlen : parts.leaves.length = leaves.length * TREE_LEAF_BYTES := by
      rw [hlist.bytes_eq, BitGraph.length_flatMap_bytes hlist.valid, Nat.mul_comm]
    have hdiv : parts.leaves.length / TREE_LEAF_BYTES = leaves.length := by
      rw [hlen]
      exact Nat.mul_div_cancel _ (by decide)
    have hcuts := (cuts_eq_map_iff hlen hlist.valid).mpr hlist.bytes_eq
    have hchecked : checkLeaves H 0 none ((List.range leaves.length).map (leafBytesAt parts.leaves))
        = .ok (leafHashes H leaves) :=
      checkLeaves_eq_ok_iff.mpr ⟨leaves, hcuts, hlist.valid, ascends_iff.mpr hlist.order, rfl⟩
    have hpos := List.length_pos_iff.mpr hlist.ne_nil
    have hrebuilt : rebuildTree H (leafHashes H leaves) doc.root = .ok tree := by
      rw [rebuildTree, hlist.tree_eq, ok_bind, if_pos (bytesEqual_iff.mpr hlist.root)]
    have hwhole : ¬(parts.leaves.length = 0 ∨ parts.leaves.length % TREE_LEAF_BYTES ≠ 0) := by
      rw [hlen, Nat.mul_mod_left, TREE_LEAF_BYTES]
      omega
    rw [recoveryTreeFromParts]
    simp only [hm.hash, hm.position, hlist.document, hdiv]
    rw [if_neg (not_not.mpr hm.digest), if_neg hwhole, if_neg (not_not.mpr hlist.count), hchecked, ok_bind,
      hrebuilt]
    rfl

/-- **One list.** With a proof hash and a locator that name the root document, the reader accepts a list
exactly where the verifier does; and both read the same leaf at every index. -/
theorem same_lists (H : HashFn) (parts : RecoveryTreeParts) :
    ((∃ t, recoveryTreeFromParts H parts = .ok t) ↔ (∃ proofHash32 locator, Matching H parts proofHash32 locator)
      ∧ ∃ c, verifyTreeLeaves H parts.rootDocument parts.leaves = .ok c ∧ c.ok = true) ∧
    ∀ t, recoveryTreeFromParts H parts = .ok t → ∃ leaves, decodeTreeLeaves parts.leaves = some leaves ∧
      leaves.length = t.count ∧ ∀ i, i < t.count → decodeTreeLeaf (leafBytesAt t.leaves i) = leaves[i]? := by
  constructor
  · rw [verifyTreeLeaves_iff]
    constructor
    · rintro ⟨t, ht⟩
      obtain ⟨proofHash32, locator, doc, leaves, tree, hm, hlist, -⟩ := recoveryTreeFromParts_iff.mp ht
      exact ⟨⟨proofHash32, locator, hm⟩, doc, leaves, tree, hlist⟩
    · rintro ⟨⟨proofHash32, locator, hm⟩, doc, leaves, tree, hlist⟩
      exact ⟨_, recoveryTreeFromParts_iff.mpr ⟨proofHash32, locator, doc, leaves, tree, hm, hlist, rfl⟩⟩
  · intro t ht
    obtain ⟨proofHash32, locator, doc, leaves, tree, -, hlist, rfl⟩ := recoveryTreeFromParts_iff.mp ht
    refine ⟨leaves, decodeTreeLeaves_eq_some.mpr ⟨hlist.ne_nil, hlist.valid, hlist.bytes_eq⟩, rfl, fun i hi => ?_⟩
    have hlen : parts.leaves.length = leaves.length * TREE_LEAF_BYTES := by
      rw [hlist.bytes_eq, BitGraph.length_flatMap_bytes hlist.valid, Nat.mul_comm]
    have hcut := congrArg (·[i]?) ((cuts_eq_map_iff hlen hlist.valid).mpr hlist.bytes_eq)
    have hi : i < leaves.length := hi
    simp only [cuts, List.getElem?_map, List.getElem?_range hi, Option.map_some,
      List.getElem?_eq_getElem hi] at hcut
    rw [Option.some.inj hcut, List.getElem?_eq_getElem hi]
    exact decodeTreeLeaf_eq_some.mpr ⟨hlist.valid _ (List.getElem_mem hi), rfl⟩

end Recovery

end BitGraph
