import BitGraph.Trie.Build

/-!
The keys of the transaction trie, and paths in nodes.

* **Keys.** No key begins another (`txTrieKey_behind`), so the entries have distinct keys, and
  `isTree_trieOf`: the builder makes the tree of the map from keys to values.
* **Paths.** `readPath_hexPrefix`: the path of a node is read back.
-/

namespace BitGraph

open Js Layout Radix

namespace Trie

open Rlp (bigEndian beNat_bigEndian length_bigEndian_le decodeAt_rlpEncode isSingle encodeLength
  length_encodeLength_le)

/-! ### Keys -/

lemma nibbles_cons (b : UInt8) (bytes : Bytes) :
    nibbles (b :: bytes) = highNibble b :: lowNibble b :: nibbles bytes := rfl

lemma length_nibbles (bytes : Bytes) : (nibbles bytes).length = 2 * bytes.length := by
  induction bytes with
  | nil => rfl
  | cons b bytes ih =>
      rw [nibbles_cons, List.length_cons, List.length_cons, List.length_cons, ih]
      omega

lemma eq_of_nibbles {b c : UInt8} (hhigh : highNibble b = highNibble c)
    (hlow : lowNibble b = lowNibble c) : b = c := by
  have h₁ : b.toNat / 16 = c.toNat / 16 := congrArg Fin.val hhigh
  have h₂ : b.toNat % 16 = c.toNat % 16 := congrArg Fin.val hlow
  exact UInt8.toNat_inj.mp (by omega)

lemma prefix_of_nibbles : ∀ {a b : Bytes}, nibbles a <+: nibbles b → a <+: b
  | [], _, _ => List.nil_prefix
  | x :: a, [], h => by
      rw [nibbles_cons] at h
      exact nomatch List.prefix_nil.mp h
  | x :: a, y :: b, h => by
      rw [nibbles_cons, nibbles_cons] at h
      obtain ⟨h₁, h⟩ := List.cons_prefix_cons.mp h
      obtain ⟨h₂, h⟩ := List.cons_prefix_cons.mp h
      exact List.cons_prefix_cons.mpr ⟨eq_of_nibbles h₁ h₂, prefix_of_nibbles h⟩

/-- A key that begins another is that key: RLP delimits itself. -/
lemma txTrieKey_behind {i j : ℕ} (hj : (txTrieKey j).length < 256 ^ 8)
    (h : txTrieKey i <+: txTrieKey j) : i = j := by
  obtain ⟨t, ht⟩ := h
  have hi : (txTrieKey i).length ≤ (txTrieKey j).length := by
    rw [← ht, List.length_append]
    omega
  have hread := @decodeAt_rlpEncode (txTrieKey j) (.bytes (bigEndian i)) 0
    (2 * (txTrieKey j).length + 1) t ht.symm (hi.trans_lt hj)
    (Nat.lt_succ_of_le (Nat.mul_le_mul_left 2 hi))
  have hread' := @decodeAt_rlpEncode (txTrieKey j) (.bytes (bigEndian j)) 0
    (2 * (txTrieKey j).length + 1) [] (List.append_nil _).symm hj (Nat.lt_succ_self _)
  have hsame := (Prod.mk.inj (Except.ok.inj (hread.symm.trans hread'))).1
  rw [← beNat_bigEndian i, RlpItem.bytes.inj hsame, beNat_bigEndian]

lemma length_rlpEncode_bytes {b : Bytes} (h : b.length < 256 ^ 8) :
    (rlpEncode (.bytes b)).length ≤ b.length + 9 := by
  rw [rlpEncode]
  split
  · omega
  · rw [List.length_append]
    have := @length_encodeLength_le b.length 0x80 h
    omega

lemma length_txTrieKey {i : ℕ} (h : i < 2 ^ 32) : (txTrieKey i).length ≤ 13 := by
  have hlen : (bigEndian i).length ≤ 4 := length_bigEndian_le (h.trans_eq (by norm_num))
  have := length_rlpEncode_bytes (b := bigEndian i) (by omega)
  rw [txTrieKey]
  omega

section Entries

variable {values : List Bytes}

lemma mem_entriesOf {e : Entry} : e ∈ entriesOf values
    ↔ ∃ i, ∃ h : i < values.length, e = ⟨nibbles (txTrieKey i), values[i]⟩ := by
  rw [entriesOf, List.mem_mapIdx]
  exact ⟨fun ⟨i, h, he⟩ => ⟨i, h, he.symm⟩, fun ⟨i, h, he⟩ => ⟨i, h, he.symm⟩⟩

lemma nodup_entriesOf (hs : Sized values) : ((entriesOf values).map Entry.key).Nodup := by
  have hget : ∀ i (h : i < ((entriesOf values).map Entry.key).length),
      ((entriesOf values).map Entry.key)[i] = nibbles (txTrieKey i) := by
    intro i h
    rw [List.getElem_map]
    simp [entriesOf]
  rw [List.nodup_iff_injective_get]
  intro i j hij
  have hj : j.val < values.length := by simpa [entriesOf] using j.isLt
  rw [List.get_eq_getElem, List.get_eq_getElem, hget, hget] at hij
  have hlen := length_txTrieKey (hj.trans hs.count)
  exact Fin.ext (txTrieKey_behind (by omega) (prefix_of_nibbles (hij ▸ List.prefix_refl _)))

lemma txMap_eq_some_iff (hs : Sized values) {k : List Nibble} {v : Bytes} :
    txMap values k = some v
      ↔ ∃ i, ∃ h : i < values.length, k = nibbles (txTrieKey i) ∧ v = values[i] := by
  constructor
  · intro h
    obtain ⟨e, he, hv⟩ := Option.map_eq_some_iff.mp h
    obtain ⟨i, hi, rfl⟩ := mem_entriesOf.mp (List.mem_of_find?_eq_some he)
    have hkey : nibbles (txTrieKey i) = k := by simpa using List.find?_some he
    exact ⟨i, hi, hkey.symm, hv.symm⟩
  · rintro ⟨i, hi, rfl, rfl⟩
    exact @mapOf_of_mem (entriesOf values) ⟨nibbles (txTrieKey i), values[i]⟩ (nodup_entriesOf hs)
      (mem_entriesOf.mpr ⟨i, hi, rfl⟩)

/-- The words and the values of a map are of a size that RLP can state. -/
def Bounded (J : List Nibble → Option Bytes) : Prop :=
  ∀ k v, J k = some v → k.length < 2 ^ 53 ∧ v.length < 2 ^ 53

lemma Bounded.behind {J : List Nibble → Option Bytes} (h : Bounded J) (p : List Nibble) :
    Bounded (behind J p) := by
  intro k v hk
  obtain ⟨hlen, hv⟩ := h (p ++ k) v hk
  rw [List.length_append] at hlen
  exact ⟨by omega, hv⟩

lemma bounded_txMap (hs : Sized values) : Bounded (txMap values) := by
  intro k v h
  obtain ⟨i, hi, rfl, rfl⟩ := (txMap_eq_some_iff hs).mp h
  have hlen := length_txTrieKey (hi.trans hs.count)
  rw [length_nibbles]
  exact ⟨by omega, hs.size _ (List.getElem_mem hi)⟩

lemma prefixFree_txMap (hs : Sized values) : PrefixFree (txMap values) := by
  intro k l hk hl hkl
  obtain ⟨v, hv⟩ := Option.ne_none_iff_exists'.mp hk
  obtain ⟨w, hw⟩ := Option.ne_none_iff_exists'.mp hl
  obtain ⟨i, hi, rfl, -⟩ := (txMap_eq_some_iff hs).mp hv
  obtain ⟨j, hj, rfl, -⟩ := (txMap_eq_some_iff hs).mp hw
  have hlen := length_txTrieKey (hj.trans hs.count)
  rw [txTrieKey_behind (by omega) (prefix_of_nibbles hkl)]

/-- **The trie of the builder** is the tree of the map from keys to values. -/
theorem isTree_trieOf (hs : Sized values) (hne : values ≠ []) :
    IsTree (txMap values) (trieOf values) := by
  have hentries : entriesOf values ≠ [] := by
    refine List.ne_nil_of_length_pos ?_
    rw [entriesOf, List.length_mapIdx]
    exact List.length_pos_of_ne_nil hne
  refine isTree_buildNode hentries (nodup_entriesOf hs) (fun e _ => List.nil_prefix) rfl fun e he => ?_
  have hle := List.single_le_sum (fun n _ => Nat.zero_le n) e.key.length
    (List.mem_map_of_mem (f := fun e : Entry => e.key.length) he)
  omega

end Entries

/-! ### Paths -/

lemma nibbles_packNibbles : ∀ {l : List Nibble}, l.length % 2 = 0 → nibbles (packNibbles l) = l
  | [], _ => rfl
  | [_], h => nomatch h
  | a :: b :: l, h => by
      have ha := a.isLt
      have hb := b.isLt
      have hval : (UInt8.ofNat (a.val * 16 + b.val)).toNat = a.val * 16 + b.val :=
        toNat_ofNat_byte (by omega)
      have hhigh : highNibble (UInt8.ofNat (a.val * 16 + b.val)) = a :=
        Fin.ext (by simp only [highNibble, hval]; omega)
      have hlow : lowNibble (UInt8.ofNat (a.val * 16 + b.val)) = b :=
        Fin.ext (by simp only [lowNibble, hval]; omega)
      simp only [List.length_cons] at h
      rw [packNibbles, nibbles_cons, hhigh, hlow, nibbles_packNibbles (by omega)]

lemma length_packNibbles : ∀ l : List Nibble, (packNibbles l).length = l.length / 2
  | [] => rfl
  | [_] => by simp [packNibbles]
  | a :: b :: l => by
      rw [packNibbles, List.length_cons, length_packNibbles l]
      simp only [List.length_cons]
      omega

lemma length_hexPrefix (nib : List Nibble) (leaf : Bool) :
    (hexPrefix nib leaf).length ≤ nib.length + 1 := by
  rw [hexPrefix, length_packNibbles]
  split <;> simp only [List.length_cons] <;> omega

/-- A path is read back. -/
lemma readPath_hexPrefix (nib : List Nibble) (leaf : Bool) :
    readPath (hexPrefix nib leaf) = .ok (nib, leaf) := by
  by_cases hodd : nib.length % 2 = 1
  · obtain ⟨a, nib, rfl⟩ := List.exists_cons_of_ne_nil (show nib ≠ [] by rintro rfl; simp at hodd)
    rw [readPath, hexPrefix]
    dsimp only
    rw [if_pos hodd, if_pos hodd, nibbles_packNibbles (by rw [List.length_cons]; omega)]
    cases leaf <;> rfl
  · rw [readPath, hexPrefix]
    dsimp only
    rw [if_neg hodd, if_neg hodd, nibbles_packNibbles (by simp only [List.length_cons]; omega)]
    cases leaf <;> rfl

end Trie

end BitGraph
