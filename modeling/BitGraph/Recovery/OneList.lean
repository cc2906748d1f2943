import BitGraph.Recovery.Complete
import BitGraph.Recovery.Lists

/-!
One list for a root document.

* `Accepted` lists are those of the verifier, `verifyTreeLeaves`, and those of the recovery reader,
  `recoveryTreeFromParts`.
* `one_list`: a root document has one accepted list, or two byte strings that are hashed collide.
-/

namespace BitGraph

open Js

namespace Recovery

variable {H : HashFn} {rootDocument bytes : Bytes} {doc : TreeRootDocument} {leaves others : List TreeLeaf}
  {tree : MerkleTree}

/-- One of the two readers accepts the list for the root document. -/
def Accepted (H : HashFn) (rootDocument bytes : Bytes) : Prop :=
  (∃ c, verifyTreeLeaves H rootDocument bytes = .ok c ∧ c.ok = true)
    ∨ ∃ parts t, recoveryTreeFromParts H parts = .ok t ∧ parts.rootDocument = rootDocument
      ∧ parts.leaves = bytes

/-- What is hashed over a list: its leaves, and the nodes of their tree. -/
def listPreimages (H : HashFn) (bytes : Bytes) : List Bytes :=
  let leaves := (decodeTreeLeaves bytes).getD []
  leaves.map (fun l => 0 :: l.bytes) ++ buildPreimages H (leafHashes H leaves) 0 leaves.length

lemma Accepted.isList (h : Accepted H rootDocument bytes) :
    ∃ doc leaves tree, IsList H rootDocument bytes doc leaves tree := by
  rcases h with h | ⟨parts, t, ht, rfl, rfl⟩
  · exact verifyTreeLeaves_iff.mp h
  · obtain ⟨_, _, doc, leaves, tree, -, hlist, -⟩ := recoveryTreeFromParts_iff.mp ht
    exact ⟨doc, leaves, tree, hlist⟩

lemma bytes_injective {l l' : TreeLeaf} (hl : l.Valid) (hl' : l'.Valid) (h : l.bytes = l'.bytes) :
    l = l' := by
  have hread := decodeTreeLeaf_eq_some.mpr ⟨hl, rfl⟩
  rw [h, decodeTreeLeaf_eq_some.mpr ⟨hl', rfl⟩] at hread
  exact (Option.some.inj hread).symm

lemma IsList.preimages (h : IsList H rootDocument bytes doc leaves tree) : listPreimages H bytes
    = leaves.map (fun l => 0 :: l.bytes) ++ buildPreimages H (leafHashes H leaves) 0 leaves.length := by
  rw [listPreimages, decodeTreeLeaves_eq_some.mpr ⟨h.ne_nil, h.valid, h.bytes_eq⟩, Option.getD_some]

/-- The root that the document states is the hash of all leaves. -/
lemma IsList.root_eq (h : IsList H rootDocument bytes doc leaves tree) :
    (∀ x ∈ leafHashes H leaves, x.length = 32)
      ∧ doc.root = subtreeHash H (leafHashes H leaves) 0 (leafHashes H leaves).length := by
  have hle := (count_of_parseTreeRootDocument h.document).2
  have hmax : MAX_TREE_LEAVES = 1000000 := rfl
  have hlength : (leafHashes H leaves).length = doc.count := by rw [leafHashes, List.length_map, h.count]
  have hne : leafHashes H leaves ≠ [] := by simpa [leafHashes] using h.ne_nil
  have hkeys : KeysAgree H (leafHashes H leaves) := keysAgree_of_exact hne (by nlinarith)
  have h32 : ∀ x ∈ leafHashes H leaves, x.length = 32 := by
    rw [leafHashes, List.forall_mem_map]
    exact fun l _ => H.length_apply _
  have hknown : KnownCorrect H (leafHashes H leaves) [] := by
    intro k hk
    simp at hk
  obtain ⟨tree', htree, hroot, -⟩ := merkleAgrees_of_keysAgree hkeys hne (by omega) h32 hknown
  obtain rfl := Except.ok.inj (h.tree_eq.symm.trans htree)
  exact ⟨h32, h.root ▸ (merkleRoot_eq_ok.mp hroot).2.2⟩

/-- Leaves of one number whose hashes are the same are the same, or two of them collide. -/
lemma eq_of_leafHashes (hv : ∀ l ∈ leaves, l.Valid) (hv' : ∀ l ∈ others, l.Valid)
    (h : leafHashes H leaves = leafHashes H others) : leaves = others
      ∨ H.Collides (leaves.map fun l => 0 :: l.bytes) (others.map fun l => 0 :: l.bytes) := by
  induction leaves generalizing others with
  | nil => exact Or.inl (List.map_eq_nil_iff.mp h.symm).symm
  | cons l leaves ih =>
      cases others with
      | nil => cases h
      | cons l' others =>
          obtain ⟨hhash, htail⟩ := List.cons.inj h
          obtain ⟨hl, hrest⟩ := List.forall_mem_cons.mp hv
          obtain ⟨hl', hrest'⟩ := List.forall_mem_cons.mp hv'
          by_cases hsame : l = l'
          · subst hsame
            rcases ih hrest hrest' htail with rfl | hc
            · exact Or.inl rfl
            · exact Or.inr (hc.mono (fun _ => List.mem_cons_of_mem _) fun _ => List.mem_cons_of_mem _)
          · exact Or.inr ⟨_, List.mem_cons_self, _, List.mem_cons_self,
              fun hb => hsame (bytes_injective hl hl' (List.cons.inj hb).2), hhash⟩

/-- **One list.** Two lists that are accepted for one root document, by one of the two readers or by one
each, are the same bytes, or a byte string hashed over the one collides with one hashed over the other. -/
theorem one_list (H : HashFn) (rootDocument bytes others : Bytes) (h : Accepted H rootDocument bytes)
    (h' : Accepted H rootDocument others) :
    bytes = others ∨ H.Collides (listPreimages H bytes) (listPreimages H others) := by
  obtain ⟨doc, leaves, tree, hl⟩ := h.isList
  obtain ⟨doc', leaves', tree', hl'⟩ := h'.isList
  obtain rfl := Option.some.inj (hl.document.symm.trans hl'.document)
  obtain ⟨h32, hroot⟩ := hl.root_eq
  obtain ⟨h32', hroot'⟩ := hl'.root_eq
  have hlen : ∀ leaves, (leafHashes H leaves).length = leaves.length := fun _ => List.length_map _
  rw [hl.preimages, hl'.preimages, ← hlen leaves, ← hlen leaves']
  rcases eq_of_subtreeHash h32 h32' (by rw [hlen, hlen, hl.count, hl'.count])
    (hroot.symm.trans hroot') with heq | hc
  · rcases eq_of_leafHashes hl.valid hl'.valid heq with rfl | hc
    · exact Or.inl (hl.bytes_eq.trans hl'.bytes_eq.symm)
    · exact Or.inr (hc.mono (fun _ => List.mem_append_left _) fun _ => List.mem_append_left _)
  · exact Or.inr (hc.mono (fun _ => List.mem_append_right _) fun _ => List.mem_append_right _)

/-- The list of one leaf, to both readers. -/
theorem one_list_leaf : ∃ rootDocument bytes, Accepted sha256 rootDocument bytes
    ∧ (bytes = bytes ∨ sha256.Collides (listPreimages sha256 bytes) (listPreimages sha256 bytes)) := by
  have hv : ∀ l ∈ [TreeLeaf.mk LEAF_AS_IS zeros32 zeros32], l.Valid :=
    List.forall_mem_singleton.mpr ⟨rfl, rfl, rfl, fun _ => rfl⟩
  obtain ⟨t, ht, -⟩ := exists_accepted sha256 (List.cons_ne_nil _ _) (by decide) hv (.singleton _)
  have h : Accepted sha256 _ _ := Or.inr ⟨_, t, ht, rfl, rfl⟩
  exact ⟨_, _, h, one_list _ _ _ _ h h⟩

end Recovery

end BitGraph
