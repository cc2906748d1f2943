import BitGraph.FuseMerkle
import BitGraph.Codec
import BitGraph.Canonical.Form

/-!
`tree.ts`: the tree of a position.

A leaf is 65 bytes, the root document 84. Every reader returns `none` where the program returns
null.

* **Leaves.** `encodeTreeLeaf` and `decodeTreeLeaf`; `decodeTreeLeaf_eq_some` says which bytes a
  leaf has.
* **Root document.** `buildTreeRootDocument` and `parseTreeRootDocument`.
* **Evidence.** `buildTreeMemberEvidence` writes the evidence of a member, `evidenceValue` is its
  JSON and `parseTreeMemberEvidence` reads it back (`parseTreeMemberEvidence_evidenceValue`).
* **The tree.** `treeRootFromMember_path`: from the leaf of a member its path reaches the root.
-/

namespace BitGraph

open Js

/-! ### Constants -/

def TREE_PROFILE : Str := js "bitgraph-tree/1"

/-- The profile and a zero byte. -/
def TREE_DOMAIN : Bytes := utf8Encode TREE_PROFILE ++ [0]

def TREE_LEAF_BYTES : ℕ := 65
def TREE_ROOT_DOCUMENT_BYTES : ℕ := 84
def MAX_TREE_LEAVES : ℕ := 1000000

def LEAF_AS_IS : UInt8 := 0

/-- The registered placement codes are the first four. -/
def isLeafPlacement (code : UInt8) : Bool := code.toNat < 4

/-! ### Leaves -/

structure TreeLeaf where
  placement : UInt8
  artifact : Bytes
  origin : Bytes
  deriving DecidableEq

def checkLeaf (l : TreeLeaf) : Except Thrown Unit :=
  if !isLeafPlacement l.placement then
    .error (typeError (js "leaf placement code 0x" ++ bytesToHex [l.placement]
      ++ js " is not registered"))
  else if l.artifact.length ≠ 32 ∨ l.origin.length ≠ 32 then
    .error (typeError (js "leaf digests are 32 bytes"))
  else if l.placement = LEAF_AS_IS ∧ bytesEqual l.artifact l.origin = false then
    .error (typeError (js "an as-is leaf's artifact and origin are the same digest"))
  else .ok ()

def encodeTreeLeaf (l : TreeLeaf) : Except Thrown Bytes := do
  checkLeaf l
  return l.placement :: (l.artifact ++ l.origin)

def decodeTreeLeaf (bytes : Bytes) : Option TreeLeaf :=
  if bytes.length ≠ TREE_LEAF_BYTES then none
  else
    let leaf : TreeLeaf := ⟨bytes.getD 0 0, slice bytes 1 33, slice bytes 33 65⟩
    match checkLeaf leaf with
    | .error _ => none
    | .ok _ => some leaf

def treeLeafHash (H : HashFn) (l : TreeLeaf) : Except Thrown Bytes := do
  return merkleLeafHash H (← encodeTreeLeaf l)

/-- A registered placement, two digests of 32 bytes, and one digest for an as-is leaf. -/
structure TreeLeaf.Valid (l : TreeLeaf) : Prop where
  placement : isLeafPlacement l.placement = true
  artifact : l.artifact.length = 32
  origin : l.origin.length = 32
  asIs : l.placement = LEAF_AS_IS → l.artifact = l.origin

/-- The bytes of a leaf. -/
def TreeLeaf.bytes (l : TreeLeaf) : Bytes := l.placement :: (l.artifact ++ l.origin)

lemma TreeLeaf.Valid.length_bytes {l : TreeLeaf} (h : l.Valid) :
    l.bytes.length = TREE_LEAF_BYTES := by
  rw [bytes, List.length_cons, List.length_append, h.artifact, h.origin]
  rfl

lemma checkLeaf_eq_ok {l : TreeLeaf} : checkLeaf l = .ok () ↔ l.Valid := by
  rw [checkLeaf]
  split_ifs with hp hlen heq
  · refine iff_of_false (by simp) fun h => ?_
    simp [h.placement] at hp
  · refine iff_of_false (by simp) fun h => ?_
    exact hlen.elim (fun hl => hl h.artifact) fun hl => hl h.origin
  · refine iff_of_false (by simp) fun h => ?_
    have htrue := bytesEqual_iff.mpr (h.asIs heq.1)
    rw [htrue] at heq
    simp at heq
  · push Not at hlen
    refine iff_of_true rfl ⟨by simpa using hp, hlen.1, hlen.2, fun h0 => ?_⟩
    push Not at heq
    exact bytesEqual_iff.mp (by simpa using heq h0)

lemma encodeTreeLeaf_of_valid {l : TreeLeaf} (h : l.Valid) : encodeTreeLeaf l = .ok l.bytes := by
  rw [encodeTreeLeaf, checkLeaf_eq_ok.mpr h]
  rfl

lemma slice_leaf {l : TreeLeaf} (h : l.Valid) :
    slice l.bytes 1 33 = l.artifact ∧ slice l.bytes 33 65 = l.origin := by
  have hdrop : l.bytes.drop 33 = l.origin := by
    rw [TreeLeaf.bytes, List.drop_succ_cons]
    exact List.drop_left' h.artifact
  constructor
  · rw [slice, TreeLeaf.bytes, List.drop_succ_cons, List.drop_zero]
    exact List.take_left' h.artifact
  · rw [slice, hdrop]
    exact List.take_of_length_le h.origin.le

/-- What decodes is a valid leaf, from its bytes. -/
lemma decodeTreeLeaf_eq_some {b : Bytes} {l : TreeLeaf} :
    decodeTreeLeaf b = some l ↔ l.Valid ∧ b = l.bytes := by
  constructor
  · intro h
    rw [decodeTreeLeaf] at h
    split at h
    · cases h
    · next hlen =>
        push Not at hlen
        dsimp only at h
        split at h
        · cases h
        · next hcheck =>
            obtain rfl := Option.some.inj h
            refine ⟨checkLeaf_eq_ok.mp hcheck, ?_⟩
            obtain ⟨x, b, rfl⟩ := List.exists_cons_of_length_eq_add_one (n := 64) hlen
            have hb : b.length = 64 := by simpa [TREE_LEAF_BYTES] using hlen
            have hrest : (b.drop 32).take 32 = b.drop 32 :=
              List.take_of_length_le (by rw [List.length_drop]; omega)
            change x :: b = x :: (b.take 32 ++ (b.drop 32).take 32)
            rw [hrest, List.take_append_drop]
  · rintro ⟨h, rfl⟩
    obtain ⟨ha, ho⟩ := slice_leaf h
    have hl : (⟨l.bytes.getD 0 0, slice l.bytes 1 33, slice l.bytes 33 65⟩ : TreeLeaf) = l := by
      rw [ha, ho]
      rfl
    rw [decodeTreeLeaf, if_neg (by simp [h.length_bytes])]
    dsimp only
    rw [hl, checkLeaf_eq_ok.mpr h]

lemma treeLeafHash_of_valid {H : HashFn} {l : TreeLeaf} (h : l.Valid) :
    treeLeafHash H l = .ok (merkleLeafHash H l.bytes) := by
  rw [treeLeafHash, encodeTreeLeaf_of_valid h]
  rfl

/-! ### Root document -/

/-- A big-endian number. -/
def getUint32 (bytes : Bytes) (offset : ℕ) : ℕ := Sha256.beNat (slice bytes offset (offset + 4))

structure TreeRootDocument where
  count : ℕ
  root : Bytes
  commitment : Bytes
  deriving DecidableEq

def buildTreeRootDocument (commitment : Bytes) (count : ℕ) (root : Bytes) : Except Thrown Bytes :=
  if commitment.length ≠ 32 ∨ root.length ≠ 32 then
    .error (typeError (js "commitment and root are 32 bytes"))
  else if count < 1 ∨ MAX_TREE_LEAVES < count then
    .error (typeError (js "count must be an integer from 1 to " ++ decimal MAX_TREE_LEAVES))
  else .ok (TREE_DOMAIN ++ Sha256.beBytes 4 count ++ root ++ commitment)

def parseTreeRootDocument (bytes : Bytes) : Option TreeRootDocument :=
  if bytes.length ≠ TREE_ROOT_DOCUMENT_BYTES then none
  else if bytesEqual (slice bytes 0 16) TREE_DOMAIN = false then none
  else
    let count := getUint32 bytes 16
    if count < 1 ∨ MAX_TREE_LEAVES < count then none
    else some ⟨count, slice bytes 20 52, slice bytes 52 84⟩

lemma getUint32_append {a b : Bytes} {n : ℕ} (hn : n < 2 ^ 32) :
    getUint32 (a ++ (Sha256.beBytes 4 n ++ b)) a.length = n := by
  have hlen := Sha256.length_beBytes 4 n
  rw [getUint32, slice, List.drop_left, show a.length + 4 - a.length = 4 by omega,
    List.take_left' hlen, Sha256.beNat_beBytes, Nat.mod_eq_of_lt (by omega)]

/-- The document that was built is read back. -/
lemma parseTreeRootDocument_build {commitment root b : Bytes} {count : ℕ}
    (h : buildTreeRootDocument commitment count root = .ok b) :
    parseTreeRootDocument b = some ⟨count, root, commitment⟩ := by
  rw [buildTreeRootDocument] at h
  split_ifs at h with hlen hcount
  push Not at hlen
  obtain rfl := Except.ok.inj h
  have hdomain : TREE_DOMAIN.length = 16 := by decide
  have hbe := Sha256.length_beBytes 4 count
  have hmax : MAX_TREE_LEAVES = 1000000 := rfl
  have hsum : (TREE_DOMAIN ++ Sha256.beBytes 4 count ++ root ++ commitment).length = 84 := by
    simp [hdomain, hbe, hlen]
  have hnum : getUint32 (TREE_DOMAIN ++ Sha256.beBytes 4 count ++ root ++ commitment) 16 = count := by
    rw [List.append_assoc, List.append_assoc, ← hdomain, getUint32_append (by omega)]
  have hdom : slice (TREE_DOMAIN ++ Sha256.beBytes 4 count ++ root ++ commitment) 0 16
      = TREE_DOMAIN := by
    rw [List.append_assoc, List.append_assoc]
    exact List.take_left' hdomain
  have hhead : (TREE_DOMAIN ++ Sha256.beBytes 4 count).length = 20 := by
    rw [List.length_append, hdomain, hbe]
  have hroot : slice (TREE_DOMAIN ++ Sha256.beBytes 4 count ++ root ++ commitment) 20 52 = root := by
    rw [List.append_assoc, slice, List.drop_left' hhead]
    exact List.take_left' hlen.2
  have hcommit : slice (TREE_DOMAIN ++ Sha256.beBytes 4 count ++ root ++ commitment) 52 84
      = commitment := by
    rw [slice, List.drop_left' (by rw [List.length_append, hhead, hlen.2])]
    exact List.take_of_length_le hlen.1.le
  rw [parseTreeRootDocument, if_neg (by rw [hsum]; decide), hdom,
    if_neg (by simp [bytesEqual_iff.mpr])]
  simp only [hnum, hroot, hcommit]
  rw [if_neg hcount]

/-- A document is read only with a count from 1 to the limit. -/
lemma count_of_parseTreeRootDocument {b : Bytes} {doc : TreeRootDocument}
    (h : parseTreeRootDocument b = some doc) : 1 ≤ doc.count ∧ doc.count ≤ MAX_TREE_LEAVES := by
  rw [parseTreeRootDocument] at h
  split at h
  · cases h
  · split at h
    · cases h
    · dsimp only at h
      split at h
      · cases h
      · next hcount =>
          obtain rfl := Option.some.inj h
          dsimp only
          omega

/-! ### Evidence -/

/-- The evidence of a member, its leaf and the nodes of its path in hex. -/
structure TreeMemberEvidence where
  index : ℕ
  count : ℕ
  leaf : Str
  path : List Str
  deriving DecidableEq

/-- The evidence as a JSON value, its members in the order they are written. -/
def evidenceValue (e : TreeMemberEvidence) : Value :=
  .obj [(js "index", .num (Number.ofNat e.index)), (js "count", .num (Number.ofNat e.count)),
    (js "leaf", .str e.leaf), (js "path", .arr (e.path.map .str))]

def buildTreeMemberEvidence (leaf : TreeLeaf) (index count : ℕ) (path : List Bytes) :
    Except Thrown TreeMemberEvidence := do
  if count < 1 ∨ count ≤ index then throw (rangeError (js "member index out of range"))
  let bytes ← encodeTreeLeaf leaf
  if path.any fun p => p.length != 32 then throw (typeError (js "a path node is 32 bytes"))
  return ⟨index, count, bytesToHex bytes, path.map bytesToHex⟩

/-- What evidence says: the leaf, its index, the size of the tree and the path. -/
structure ParsedEvidence where
  leaf : TreeLeaf
  index : ℕ
  count : ℕ
  path : List Bytes
  deriving DecidableEq

/-- The texts of an array of texts. -/
def textsOf : Value → Option (List Str)
  | .arr l => l.mapM fun
    | .str s => some s
    | _ => none
  | _ => none

/-- Lower case hex of 32 bytes. -/
def hex32 (s : Str) : Option Bytes := (hexToBytes s).filter fun b => b.length = 32

def parseTreeMemberEvidence (value : Value) : Option ParsedEvidence :=
  match value with
  | .obj _ =>
      if value.sortedKeys ≠ js "count,index,leaf,path" then none
      else
        match value.get (js "count"), value.get (js "index"), value.get (js "leaf") with
        | .num count, .num index, .str leafHex => do
            let count ← (index? count (MAX_TREE_LEAVES + 1)).filter fun n => 1 ≤ n
            let index ← index? index count
            let leaf ← decodeTreeLeaf (← hexToBytes leafHex)
            let path ← (← textsOf (value.get (js "path"))).mapM hex32
            some ⟨leaf, index, count, path⟩
        | _, _, _ => none
  | _ => none

/-- The root a leaf and its path reach. -/
def treeRootFromMember (H : HashFn) (leaf : TreeLeaf) (index count : ℕ) (path : List Bytes) :
    Except Thrown (Option Bytes) := do
  let h ← treeLeafHash H leaf
  return merkleRootFromPath H h (Number.ofNat index) (Number.ofNat count) path

/-! ### Reading evidence back -/

lemma buildTreeMemberEvidence_eq {l : TreeLeaf} {index count : ℕ} {path : List Bytes}
    (hl : l.Valid) (hi : index < count) (hp : ∀ p ∈ path, p.length = 32) :
    buildTreeMemberEvidence l index count path
      = .ok ⟨index, count, bytesToHex l.bytes, path.map bytesToHex⟩ := by
  have hany : (path.any fun p => p.length != 32) = false := by
    rw [List.any_eq_false]
    intro p hpp
    simp [hp p hpp]
  rw [buildTreeMemberEvidence, if_neg (by omega), encodeTreeLeaf_of_valid hl, hany]
  rfl

def evidenceKeys : List Str := [js "index", js "count", js "leaf", js "path"]

lemma evidenceKeys_ordered : evidenceKeys.Pairwise KeyBefore := by decide

lemma proto_notMem_evidenceKeys : js "__proto__" ∉ evidenceKeys := by decide

lemma writable_evidenceValue {e : TreeMemberEvidence} (hi : e.index < 2 ^ 53)
    (hc : e.count < 2 ^ 53) : Value.Writable (evidenceValue e) := by
  refine Value.writable_obj (Fields.ordered_iff.mpr evidenceKeys_ordered) fun m hm => ⟨?_, ?_⟩
  · rintro hkey
    exact proto_notMem_evidenceKeys (hkey ▸ List.mem_map_of_mem (f := Prod.fst) hm)
  · simp only [List.mem_cons, List.not_mem_nil, or_false] at hm
    rcases hm with rfl | rfl | rfl | rfl
    · exact Value.writable_ofNat hi
    · exact Value.writable_ofNat hc
    · exact Value.writable_str _
    · exact Value.writable_texts _

/-- The members of evidence that was written and read. -/
lemma get_evidenceValue {e : TreeMemberEvidence} (hi : e.index < 2 ^ 53) (hc : e.count < 2 ^ 53) :
    (evidenceValue e).canonicalForm.get (js "index") = .num (Number.ofNat e.index)
    ∧ (evidenceValue e).canonicalForm.get (js "count") = .num (Number.ofNat e.count)
    ∧ (evidenceValue e).canonicalForm.get (js "leaf") = .str e.leaf
    ∧ (evidenceValue e).canonicalForm.get (js "path") = .arr (e.path.map .str) := by
  have hw := writable_evidenceValue hi hc
  simp only [Value.get_canonicalForm hw.isJson hw.lacksKey]
  refine ⟨?_, ?_, ?_, ?_⟩
  · exact Value.canonicalForm_ofNat hi
  · exact Value.canonicalForm_ofNat hc
  · rfl
  · exact Value.canonicalForm_texts e.path

lemma sortedKeys_evidenceValue (e : TreeMemberEvidence) :
    (evidenceValue e).sortedKeys = js "count,index,leaf,path" := by
  have hkeys : joinComma (evidenceKeys.insertionSort (· ≤ ·)) = js "count,index,leaf,path" := by
    decide
  exact hkeys

lemma textsOf_texts (l : List Str) : textsOf (.arr (l.map .str)) = some l := by
  rw [textsOf]
  induction l with
  | nil => rfl
  | cons s l ih =>
      rw [List.map_cons, List.mapM_cons, ih]
      rfl

lemma mapM_hex32 {path : List Bytes} (hp : ∀ p ∈ path, p.length = 32) :
    (path.map bytesToHex).mapM hex32 = some path := by
  induction path with
  | nil => rfl
  | cons p path ih =>
      have hhex : hex32 (bytesToHex p) = some p := by
        rw [hex32, hexToBytes_bytesToHex]
        exact Option.filter_some_pos (by simpa using hp p (by simp))
      rw [List.map_cons, List.mapM_cons, hhex, ih fun q hq => hp q (by simp [hq])]
      rfl

lemma canonicalForm_evidenceValue (e : TreeMemberEvidence) :
    ∃ l, (evidenceValue e).canonicalForm = .obj l := by
  refine Value.canonicalForm_obj (Fields.ordered_iff.mpr evidenceKeys_ordered) fun m hm hkey => ?_
  exact proto_notMem_evidenceKeys (hkey ▸ List.mem_map_of_mem (f := Prod.fst) hm)

/-- Evidence is read from its four members. -/
lemma parseTreeMemberEvidence_of_get {l : TreeLeaf} {index count : ℕ} {path : List Bytes} {v : Value}
    (hl : l.Valid) (hi : index < count) (hc : count ≤ MAX_TREE_LEAVES)
    (hp : ∀ p ∈ path, p.length = 32) (hobj : ∃ fields, v = .obj fields)
    (hkeys : v.sortedKeys = js "count,index,leaf,path")
    (hindex : v.get (js "index") = .num (Number.ofNat index))
    (hcount : v.get (js "count") = .num (Number.ofNat count))
    (hleaf : v.get (js "leaf") = .str (bytesToHex l.bytes))
    (hpath : v.get (js "path") = .arr ((path.map bytesToHex).map .str)) :
    parseTreeMemberEvidence v = some ⟨l, index, count, path⟩ := by
  have hmax : MAX_TREE_LEAVES = 1000000 := rfl
  obtain ⟨fields, rfl⟩ := hobj
  have hcount' : (index? (Number.ofNat count) (MAX_TREE_LEAVES + 1)).filter (fun n => 1 ≤ n)
      = some count := by
    rw [index?_ofNat (by omega) (by omega)]
    exact Option.filter_some_pos (by simpa using (by omega : 1 ≤ count))
  have hindex' : index? (Number.ofNat index) count = some index := index?_ofNat hi (by omega)
  simp only [parseTreeMemberEvidence, hkeys, hindex, hcount, hleaf, hpath, ne_eq, not_true_eq_false,
    if_false]
  change ((index? (Number.ofNat count) (MAX_TREE_LEAVES + 1)).filter fun n => 1 ≤ n).bind _ = _
  rw [hcount', Option.bind_some]
  change (index? (Number.ofNat index) count).bind _ = _
  rw [hindex', Option.bind_some]
  change (hexToBytes (bytesToHex l.bytes)).bind _ = _
  rw [hexToBytes_bytesToHex, Option.bind_some]
  change (decodeTreeLeaf l.bytes).bind _ = _
  rw [decodeTreeLeaf_eq_some.mpr ⟨hl, rfl⟩, Option.bind_some]
  change (textsOf (.arr ((path.map bytesToHex).map .str))).bind _ = _
  rw [textsOf_texts, Option.bind_some]
  change ((path.map bytesToHex).mapM hex32).bind _ = _
  rw [mapM_hex32 hp, Option.bind_some]

/-- The evidence of a member comes back as it was given. -/
theorem parseTreeMemberEvidence_evidenceValue {l : TreeLeaf} {index count : ℕ} {path : List Bytes}
    (hl : l.Valid) (hi : index < count) (hc : count ≤ MAX_TREE_LEAVES)
    (hp : ∀ p ∈ path, p.length = 32) :
    parseTreeMemberEvidence
        (evidenceValue ⟨index, count, bytesToHex l.bytes, path.map bytesToHex⟩).canonicalForm
      = some ⟨l, index, count, path⟩ := by
  have hmax : MAX_TREE_LEAVES = 1000000 := rfl
  have hi53 : index < 2 ^ 53 := by omega
  have hc53 : count < 2 ^ 53 := by omega
  set e : TreeMemberEvidence := ⟨index, count, bytesToHex l.bytes, path.map bytesToHex⟩
  have hw := writable_evidenceValue (e := e) hi53 hc53
  obtain ⟨hindex, hcount, hleaf, hpath⟩ := get_evidenceValue (e := e) hi53 hc53
  refine parseTreeMemberEvidence_of_get hl hi hc hp (canonicalForm_evidenceValue e) ?_ hindex hcount
    hleaf hpath
  rw [Value.sortedKeys_canonicalForm hw.isJson hw.lacksKey, sortedKeys_evidenceValue]

/-! ### Paths of a tree -/

/-- The path of a leaf: nodes of 32 bytes, from which its leaf reaches the root. -/
theorem treeRootFromMember_path {H : HashFn} {leaves : List TreeLeaf} {t : MerkleTree}
    (ht : MerkleTree.new H (leaves.map fun l => merkleLeafHash H l.bytes) [] = .ok t)
    (hlen : leaves.length ≤ MAX_TREE_LEAVES) {i : ℕ} (hi : i < leaves.length)
    (hl : leaves[i].Valid) :
    ∃ path t', t.path H (Number.ofNat i) = .ok (path, t')
      ∧ (∀ p ∈ path, p.length = 32)
      ∧ path.length = (HashTree.sides i (leaves.length - 1)).length
      ∧ treeRootFromMember H leaves[i] i leaves.length path = .ok (some t.root) := by
  have hmax : MAX_TREE_LEAVES = 1000000 := rfl
  set hashes := leaves.map fun l => merkleLeafHash H l.bytes with hhashes
  have hlength : hashes.length = leaves.length := by rw [hhashes, List.length_map]
  have hne : hashes ≠ [] := List.length_pos_iff.mp (by omega)
  have h32 : ∀ h ∈ hashes, h.length = 32 := by
    rw [hhashes, List.forall_mem_map]
    exact fun l _ => H.length_apply _
  have hkeys : KeysAgree H hashes := keysAgree_of_exact hne (by rw [hlength]; nlinarith)
  have hknown : KnownCorrect H hashes [] := by
    intro k hk
    simp at hk
  obtain ⟨tree, htree, -, hpaths⟩ := merkleAgrees_of_keysAgree hkeys hne (by omega) h32 hknown
  obtain rfl := Except.ok.inj (ht.symm.trans htree)
  obtain ⟨path, hpath, ⟨t', ht'⟩, hroot⟩ := hpaths [] i (by omega)
  obtain rfl := Except.ok.inj
    (hpath.symm.trans (merklePath_eq h32 (index?_ofNat (by omega) (by omega))))
  refine ⟨_, t', ht', fun p hp => ?_, ?_, ?_⟩
  · exact length_of_mem_subtreeAudit h32 (Nat.zero_le i) (by omega) le_rfl hp
  · rw [← hlength]
    exact HashTree.length_audit (by omega)
  · rw [treeRootFromMember, treeLeafHash_of_valid hl, ok_bind, ← hlength]
    have hget : hashes[i] = merkleLeafHash H leaves[i].bytes := by simp [hhashes]
    rw [← hget, hroot]
    rfl

end BitGraph
