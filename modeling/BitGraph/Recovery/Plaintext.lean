import BitGraph.Recovery
import BitGraph.Canonical.Form

/-!
The plaintext of a member, written and read.

* **Trees.** `RecoveryTree.Sound` is what an accepted tree is known to be (`sound_of_accepted`),
  and `RecoveryTree.Member` what a member of it is (`Sound.exists_member`).
* **Names.** `clampRecoveryName_spec`: a clamped name is within the limit.
* **Round trip.** `parse_encode_member`: the bytes of a member's plaintext are read back.
* **Size.** `length_member` counts them; without a name they are within the limit
  (`length_member_le`).
-/

namespace BitGraph

open Js Js.Value

namespace Recovery

variable {H : HashFn} {A : Aead}

/-! ### Accepted trees -/

/-- A locator with a canonical epoch, counter and digest. -/
structure RecoveryLocator.Valid (p : RecoveryLocator) : Prop where
  epochId : ∃ b, base64Of32 p.epochId = some b
  counter : isCounter p.counter = true
  artifactDigestB64 : ∃ b, base64Of32 p.artifactDigestB64 = some b

/-- The leaf hash of a list of leaves. -/
def leafHashes (H : HashFn) (leaves : List TreeLeaf) : List Bytes :=
  leaves.map fun l => merkleLeafHash H l.bytes

/-- What is known of a tree that was accepted: its proof hash, its locator and its document, and
the leaves behind its bytes. -/
structure RecoveryTree.Sound (H : HashFn) (tree : RecoveryTree) (leaves : List TreeLeaf)
    (doc : TreeRootDocument) : Prop where
  proofHash : base64Of32 tree.proofHash = some tree.proofHash32
  locator : tree.locator.Valid
  document : parseTreeRootDocument tree.rootDocument = some doc
  hex : tree.rootDocumentHex = bytesToHex tree.rootDocument
  digest : bytesToBase64 (H tree.rootDocument) = tree.locator.artifactDigestB64
  root : tree.tree.root = doc.root
  docCount : doc.count = tree.count
  count : leaves.length = tree.count
  valid : ∀ l ∈ leaves, l.Valid
  bytes : ∀ i (hi : i < leaves.length), leafBytesAt tree.leaves i = leaves[i].bytes
  tree : MerkleTree.new H (leafHashes H leaves) [] = .ok tree.tree

lemma parseLocator_valid {v : Value} {p : RecoveryLocator} (h : parseLocator v = some p) :
    p.Valid := by
  rw [parseLocator] at h
  split at h
  · cases h
  · split at h
    · split_ifs at h with hepoch hcounter hdigest
      obtain rfl := Option.some.inj h
      rw [Option.isNone_iff_eq_none, ← ne_eq, Option.ne_none_iff_exists'] at hepoch hdigest
      exact ⟨hepoch, by simpa using hcounter, hdigest⟩
    · cases h

/-- Leaves that pass are valid leaves, and their hashes come out. -/
lemma checkLeaves_eq_ok {bs : List Bytes} {i : ℕ} {previous : Option Bytes} {hashes : List Bytes}
    (h : checkLeaves H i previous bs = .ok hashes) : ∃ leaves : List TreeLeaf,
      bs = leaves.map TreeLeaf.bytes ∧ (∀ l ∈ leaves, l.Valid) ∧ hashes = leafHashes H leaves := by
  induction bs generalizing i previous hashes with
  | nil =>
      obtain rfl := Except.ok.inj h
      exact ⟨[], rfl, by simp, rfl⟩
  | cons b bs ih =>
      cases hb : decodeTreeLeaf b with
      | none => simp [checkLeaves, hb] at h
      | some l =>
          obtain ⟨hv, rfl⟩ := decodeTreeLeaf_eq_some.mp hb
          rw [checkLeaves, hb, if_neg (by simp)] at h
          obtain ⟨-, -, h⟩ := bind_eq_ok h
          obtain ⟨rest, hrest, h⟩ := bind_eq_ok h
          obtain rfl := Except.ok.inj h
          obtain ⟨leaves, rfl, hl, rfl⟩ := ih hrest
          refine ⟨l :: leaves, rfl, ?_, rfl⟩
          simpa using ⟨hv, hl⟩

/-- An accepted tree is sound. -/
lemma sound_of_accepted {parts : RecoveryTreeParts} {tree : RecoveryTree}
    (h : recoveryTreeFromParts H parts = .ok tree) : ∃ leaves doc, tree.Sound H leaves doc := by
  rw [recoveryTreeFromParts] at h
  split at h
  · cases h
  · cases h
  · cases h
  · next proofHash32 locator doc hproof hlocator hdoc =>
      dsimp only at h
      split_ifs at h with hdigest hwhole hcount
      obtain ⟨hashes, hhashes, h⟩ := bind_eq_ok h
      obtain ⟨t, ht, h⟩ := bind_eq_ok h
      obtain ⟨t', ht', hroot⟩ := bind_eq_ok ht
      obtain rfl := Except.ok.inj h
      split_ifs at hroot with heq
      obtain rfl := Except.ok.inj hroot
      obtain ⟨leaves, hbytes, hvalid, rfl⟩ := checkLeaves_eq_ok hhashes
      push Not at hdigest hcount
      have hlen : leaves.length = parts.leaves.length / TREE_LEAF_BYTES := by
        have := congrArg List.length hbytes
        simpa using this.symm
      refine ⟨leaves, doc, ⟨hproof, parseLocator_valid hlocator, hdoc, rfl, hdigest, ?_, hcount.symm,
        hlen, hvalid, fun i hi => ?_, ht'⟩⟩
      · exact bytesEqual_iff.mp heq
      · have hget := congrArg (·[i]?) hbytes
        rw [hlen] at hi
        simpa [hi, hlen] using hget

/-- Each artifact comes after the one before. -/
def Ascends (previous : Option Bytes) (leaves : List TreeLeaf) : Prop :=
  (previous.toList ++ leaves.map TreeLeaf.artifact).IsChain fun a b => compareBytes a b < 0

lemma checkLeaves_of_ascends {leaves : List TreeLeaf} {i : ℕ} {previous : Option Bytes}
    (hv : ∀ l ∈ leaves, l.Valid) (ha : Ascends previous leaves) :
    checkLeaves H i previous (leaves.map TreeLeaf.bytes) = .ok (leafHashes H leaves) := by
  induction leaves generalizing i previous with
  | nil => rfl
  | cons l leaves ih =>
      have hl : l.Valid := hv l (by simp)
      have hdec := decodeTreeLeaf_eq_some.mpr ⟨hl, rfl⟩
      have horder : checkOrder i previous l.artifact = .ok () := by
        cases previous with
        | none => rfl
        | some a =>
            have hlt : compareBytes a l.artifact < 0 := (List.isChain_cons_cons.mp ha).1
            rw [checkOrder, if_neg (by omega), if_neg (by omega)]
      have hrest : Ascends (some l.artifact) leaves := by
        cases previous with
        | none => exact ha
        | some a => exact (List.isChain_cons_cons.mp ha).2
      rw [List.map_cons, checkLeaves, hdec, if_neg (by simp), (slice_leaf hl).1, horder, ok_bind,
        ih (fun m hm => hv m (by simp [hm])) hrest]
      rfl

/-! ### Names -/

/-- A name within the limit is kept as it is. -/
lemma clampRecoveryName_of_le {s : Str} (hne : s ≠ []) (hle : byteLength s ≤ MAX_NAME_BYTES) :
    clampRecoveryName (some s) = some s := by
  cases s with
  | nil => exact absurd rfl hne
  | cons c s =>
      rw [clampRecoveryName.eq_def]
      exact if_pos hle

/-- What fits stays within the budget. -/
lemma sum_fitting {budget : ℕ} {ps : List Str} {used : ℕ} (h : used ≤ budget) :
    used + ((fitting budget used ps).map byteLength).sum ≤ budget := by
  induction ps generalizing used with
  | nil => simpa [fitting] using h
  | cons p ps ih =>
      rw [fitting]
      split
      · simpa using h
      · next hp =>
          have := @ih (used + (utf8Encode p).length) (by omega)
          rw [List.map_cons, List.sum_cons, byteLength]
          omega

lemma byteLength_flatten_le (ps : List Str) : byteLength ps.flatten ≤ (ps.map byteLength).sum := by
  induction ps with
  | nil => simp [byteLength, utf8Encode, scalars]
  | cons p ps ih =>
      have := byteLength_append_le p ps.flatten
      rw [List.flatten_cons, List.map_cons, List.sum_cons]
      omega

/-- A clamped name is not empty and within the limit. -/
lemma clampRecoveryName_spec {name : Option Str} {s : Str} (h : clampRecoveryName name = some s) :
    s ≠ [] ∧ byteLength s ≤ MAX_NAME_BYTES := by
  rw [clampRecoveryName.eq_def] at h
  split at h
  · cases h
  · cases h
  · next name hne =>
      split at h
      · next hle =>
          obtain rfl := Option.some.inj h
          exact ⟨fun h0 => hne (by rw [h0]), hle⟩
      · obtain rfl := Option.some.inj h
        have hdots : byteLength (js "…") = 3 := by decide
        have hfit := @sum_fitting (MAX_NAME_BYTES - 3) (codePoints name).reverse 0 (Nat.zero_le _)
        set kept := fitting (MAX_NAME_BYTES - 3) 0 (codePoints name).reverse
        have hsum : (kept.reverse.map byteLength).sum = (kept.map byteLength).sum := by
          rw [List.map_reverse, List.sum_reverse]
        have hflat := byteLength_flatten_le kept.reverse
        have happ := byteLength_append_le (js "…") kept.reverse.flatten
        have hmax : MAX_NAME_BYTES = 512 := rfl
        refine ⟨by simp [js], ?_⟩
        change byteLength (js "…" ++ kept.reverse.flatten) ≤ _
        omega

/-! ### The locator read back -/

def locatorKeys : List Str := [js "epochId", js "counter", js "artifactDigestB64"]

lemma locatorKeys_ordered : locatorKeys.Pairwise KeyBefore := by decide

lemma proto_notMem_locatorKeys : js "__proto__" ∉ locatorKeys := by decide

lemma writable_locatorValue (p : RecoveryLocator) : Writable (locatorValue p) := by
  refine writable_obj (Fields.ordered_iff.mpr locatorKeys_ordered) fun m hm => ⟨?_, ?_⟩
  · rintro hkey
    exact proto_notMem_locatorKeys (hkey ▸ List.mem_map_of_mem (f := Prod.fst) hm)
  · simp only [List.mem_cons, List.not_mem_nil, or_false] at hm
    rcases hm with rfl | rfl | rfl <;> exact writable_str _

lemma isRecord_locatorValue (p : RecoveryLocator) :
    isRecord (locatorValue p).canonicalForm = true := by
  obtain ⟨L, hL⟩ := canonicalForm_obj (Fields.ordered_iff.mpr locatorKeys_ordered)
    (l := [(js "epochId", .str p.epochId), (js "counter", .str p.counter),
      (js "artifactDigestB64", .str p.artifactDigestB64)])
    fun m hm hkey => proto_notMem_locatorKeys (hkey ▸ List.mem_map_of_mem (f := Prod.fst) hm)
  rw [locatorValue, hL]
  rfl

lemma sortedKeys_locatorValue (p : RecoveryLocator) :
    (locatorValue p).sortedKeys = js "artifactDigestB64,counter,epochId" := by
  have hsort : joinComma (locatorKeys.insertionSort (· ≤ ·))
      = js "artifactDigestB64,counter,epochId" := by
    decide
  exact hsort

lemma parseLocator_of_get {v : Value} {p : RecoveryLocator} (h : p.Valid)
    (hrecord : isRecord v = true) (hkeys : v.sortedKeys = js "artifactDigestB64,counter,epochId")
    (hget : ∀ k, v.get k = ((locatorValue p).get k).canonicalForm) : parseLocator v = some p := by
  have hepoch : v.get (js "epochId") = .str p.epochId := hget _
  have hcounter : v.get (js "counter") = .str p.counter := hget _
  have hdigest : v.get (js "artifactDigestB64") = .str p.artifactDigestB64 := hget _
  obtain ⟨e, he⟩ := h.epochId
  obtain ⟨d, hd⟩ := h.artifactDigestB64
  rw [parseLocator, hrecord, hkeys, if_neg (by simp), hepoch, hcounter, hdigest]
  dsimp only
  rw [he, hd, h.counter, if_neg (by simp), if_neg (by simp), if_neg (by simp)]

/-- A valid locator comes back. -/
lemma parseLocator_locatorValue {p : RecoveryLocator} (h : p.Valid) :
    parseLocator (locatorValue p).canonicalForm = some p := by
  have hw := writable_locatorValue p
  refine parseLocator_of_get h (isRecord_locatorValue p) ?_ (get_canonicalForm hw.isJson hw.lacksKey)
  rw [sortedKeys_canonicalForm hw.isJson hw.lacksKey, sortedKeys_locatorValue]

/-! ### The plaintext read back -/

/-- The keys of a plaintext, in the order they are written. -/
def plaintextKeys (salted named : Bool) : List Str :=
  [js "format", js "proofHash", js "leafIndex", js "rootDocument", js "member", js "proof"]
    ++ (if salted then [js "salt"] else []) ++ (if named then [js "name"] else [])

lemma plaintextKeys_ordered (salted named : Bool) :
    (plaintextKeys salted named).Pairwise KeyBefore := by
  cases salted <;> cases named <;> decide

lemma proto_notMem_plaintextKeys (salted named : Bool) :
    js "__proto__" ∉ plaintextKeys salted named := by
  cases salted <;> cases named <;> decide

/-- The members of the value of a plaintext. -/
def plaintextFields (p : RecoveryPlaintext) : Fields :=
  [(js "format", .str RECOVERY_FORMAT), (js "proofHash", .str p.proofHash),
      (js "leafIndex", .num (Number.ofNat p.leafIndex)), (js "rootDocument", .str p.rootDocument),
      (js "member", evidenceValue p.member), (js "proof", locatorValue p.proof)]
    ++ (p.salt.toList.map fun s => (js "salt", .str s))
    ++ (p.name.toList.map fun s => (js "name", .str s))

lemma map_fst_plaintextFields (p : RecoveryPlaintext) :
    (plaintextFields p).map Prod.fst = plaintextKeys p.salt.isSome p.name.isSome := by
  rw [plaintextFields, plaintextKeys]
  cases p.salt <;> cases p.name <;> rfl

lemma ordered_plaintextFields (p : RecoveryPlaintext) : (plaintextFields p).Ordered := by
  rw [Fields.ordered_iff, map_fst_plaintextFields]
  exact plaintextKeys_ordered _ _

lemma ne_proto_of_mem_plaintextFields {p : RecoveryPlaintext} {m : Str × Value}
    (hm : m ∈ plaintextFields p) : m.1 ≠ js "__proto__" := by
  rintro hkey
  refine proto_notMem_plaintextKeys p.salt.isSome p.name.isSome ?_
  rw [← map_fst_plaintextFields, ← hkey]
  exact List.mem_map_of_mem hm

/-- The numbers of a plaintext are exact. -/
structure RecoveryPlaintext.Exact (p : RecoveryPlaintext) : Prop where
  leafIndex : p.leafIndex < 2 ^ 53
  index : p.member.index < 2 ^ 53
  count : p.member.count < 2 ^ 53

lemma writable_plaintextValue {p : RecoveryPlaintext} (h : p.Exact) :
    Writable (plaintextValue p) := by
  refine writable_obj (l := plaintextFields p) (ordered_plaintextFields p) fun m hm =>
    ⟨ne_proto_of_mem_plaintextFields hm, ?_⟩
  simp only [plaintextFields, List.mem_append, List.mem_cons, List.not_mem_nil, or_false,
    List.mem_map] at hm
  rcases hm with ((rfl | rfl | rfl | rfl | rfl | rfl) | ⟨s, -, rfl⟩) | ⟨s, -, rfl⟩
  · exact writable_str _
  · exact writable_str _
  · exact writable_ofNat h.leafIndex
  · exact writable_str _
  · exact writable_evidenceValue h.index h.count
  · exact writable_locatorValue _
  · exact writable_str _
  · exact writable_str _

/-- Every member of a plaintext that was written and read. -/
structure ReadsBack (p : RecoveryPlaintext) (v : Value) : Prop where
  record : isRecord v = true
  keys : v.sortedKeys ∈ [PLAINTEXT_KEYS, PLAINTEXT_KEYS_NAMED, PLAINTEXT_KEYS_SALTED,
    PLAINTEXT_KEYS_SALTED_NAMED]
  format : v.get (js "format") = .str RECOVERY_FORMAT
  proofHash : v.get (js "proofHash") = .str p.proofHash
  leafIndex : v.get (js "leafIndex") = .num (Number.ofNat p.leafIndex)
  rootDocument : v.get (js "rootDocument") = .str p.rootDocument
  member : v.get (js "member") = (evidenceValue p.member).canonicalForm
  proof : v.get (js "proof") = (locatorValue p.proof).canonicalForm
  hasSalt : js "salt" ∈ v.keys ↔ p.salt.isSome = true
  salt : ∀ s ∈ p.salt, v.get (js "salt") = .str s
  hasName : js "name" ∈ v.keys ↔ p.name.isSome = true
  name : ∀ s ∈ p.name, v.get (js "name") = .str s

lemma sortedKeys_plaintextKeys (salted named : Bool) :
    joinComma ((plaintextKeys salted named).insertionSort (· ≤ ·)) ∈ [PLAINTEXT_KEYS,
      PLAINTEXT_KEYS_NAMED, PLAINTEXT_KEYS_SALTED, PLAINTEXT_KEYS_SALTED_NAMED] := by
  cases salted <;> cases named <;> decide

lemma mem_plaintextKeys (salted named : Bool) :
    (js "salt" ∈ plaintextKeys salted named ↔ salted = true)
      ∧ (js "name" ∈ plaintextKeys salted named ↔ named = true) := by
  cases salted <;> cases named <;> decide

lemma readsBack_plaintextValue {p : RecoveryPlaintext} (h : p.Exact) :
    ReadsBack p (plaintextValue p).canonicalForm := by
  have hw := writable_plaintextValue h
  have hget := get_canonicalForm hw.isJson hw.lacksKey
  obtain ⟨L, hL⟩ := canonicalForm_obj (ordered_plaintextFields p)
    fun m hm => ne_proto_of_mem_plaintextFields hm
  have hkeys : ∀ k, k ∈ (plaintextValue p).canonicalForm.keys
      ↔ k ∈ plaintextKeys p.salt.isSome p.name.isSome := by
    intro k
    rw [← map_fst_plaintextFields]
    exact mem_keys_canonicalForm (ordered_plaintextFields p)
      fun m hm => ne_proto_of_mem_plaintextFields hm
  obtain ⟨proofHash, leafIndex, rootDocument, member, proof, salt, name⟩ := p
  refine ⟨?_, ?_, ?_, ?_, ?_, ?_, ?_, ?_, ?_, ?_, ?_, ?_⟩
  · exact (congrArg isRecord hL).trans rfl
  · rw [sortedKeys_canonicalForm hw.isJson hw.lacksKey]
    have hfst := map_fst_plaintextFields ⟨proofHash, leafIndex, rootDocument, member, proof, salt, name⟩
    change joinComma (((plaintextFields _).map Prod.fst).insertionSort (· ≤ ·)) ∈ _
    rw [hfst]
    exact sortedKeys_plaintextKeys _ _
  · rw [hget]
    rfl
  · rw [hget]
    rfl
  · rw [hget]
    exact canonicalForm_ofNat h.leafIndex
  · rw [hget]
    rfl
  · rw [hget]
    rfl
  · rw [hget]
    rfl
  · rw [hkeys]
    exact (mem_plaintextKeys _ _).1
  · rintro s rfl
    rw [hget]
    rfl
  · rw [hkeys]
    exact (mem_plaintextKeys _ _).2
  · rintro s rfl
    rw [hget]
    cases salt <;> rfl

/-! ### Members -/

/-- Leaf `index` of a tree is `l`, and `path` is its path. -/
structure RecoveryTree.Member (H : HashFn) (tree : RecoveryTree) (index : ℕ) (l : TreeLeaf)
    (path : List Bytes) : Prop where
  below : index < tree.count
  limit : tree.count ≤ MAX_TREE_LEAVES
  leaf : leafBytesAt tree.leaves index = l.bytes
  valid : l.Valid
  nodes : ∀ p ∈ path, p.length = 32
  length : path.length = (HashTree.sides index (tree.count - 1)).length
  walk : ∃ t, tree.tree.path H (Number.ofNat index) = .ok (path, t)
  root : treeRootFromMember H l index tree.count path = .ok (some tree.tree.root)

/-- Every index of a sound tree has its member. -/
lemma RecoveryTree.Sound.exists_member {tree : RecoveryTree} {leaves : List TreeLeaf}
    {doc : TreeRootDocument} (h : tree.Sound H leaves doc) {index : ℕ} (hi : index < tree.count) :
    ∃ l path, tree.Member H index l path := by
  have hi' : index < leaves.length := h.count ▸ hi
  have hlimit := (count_of_parseTreeRootDocument h.document).2
  rw [h.docCount] at hlimit
  have hv := h.valid _ (List.getElem_mem hi')
  obtain ⟨path, t, hwalk, hnodes, hlength, hroot⟩ :=
    treeRootFromMember_path h.tree (h.count ▸ hlimit) hi' hv
  rw [h.count] at hlength hroot
  exact ⟨leaves[index], path, hi, hlimit, h.bytes index hi', hv, hnodes, hlength, ⟨t, hwalk⟩, hroot⟩

/-- The evidence of a member. -/
def memberEvidence (tree : RecoveryTree) (index : ℕ) (l : TreeLeaf) (path : List Bytes) :
    TreeMemberEvidence :=
  ⟨index, tree.count, bytesToHex l.bytes, path.map bytesToHex⟩

/-- The plaintext of a member. -/
def memberPlaintext (tree : RecoveryTree) (index : ℕ) (l : TreeLeaf) (path : List Bytes)
    (salt : Option Bytes) (name : Option Str) : RecoveryPlaintext :=
  ⟨tree.proofHash, index, tree.rootDocumentHex, memberEvidence tree index l path, tree.locator,
    salt.map bytesToBase64, name⟩

@[simp] lemma memberPlaintext_name (tree : RecoveryTree) (index : ℕ) (l : TreeLeaf)
    (path : List Bytes) (salt : Option Bytes) (name : Option Str) :
    (memberPlaintext tree index l path salt name).name = name := rfl

/-- Salts of 32 bytes. -/
def SaltOk (salt : Option Bytes) : Prop := ∀ s ∈ salt, s.length = SALT_BYTES

/-- Names within the limit. -/
def NameOk (name : Option Str) : Prop := ∀ s ∈ name, s ≠ [] ∧ byteLength s ≤ MAX_NAME_BYTES

section Member

variable {tree : RecoveryTree} {leaves : List TreeLeaf} {doc : TreeRootDocument} {index : ℕ}
  {l : TreeLeaf} {path : List Bytes} {salt : Option Bytes} {name : Option Str}

lemma RecoveryTree.Member.exact (hm : tree.Member H index l path) :
    (memberPlaintext tree index l path salt name).Exact := by
  have hmax : MAX_TREE_LEAVES = 1000000 := rfl
  have hi := hm.below
  have hc := hm.limit
  have hi53 : index < 2 ^ 53 := by omega
  have hc53 : tree.count < 2 ^ 53 := by omega
  exact ⟨hi53, hi53, hc53⟩

lemma basePlaintext_member (hm : tree.Member H index l path) (hs : SaltOk salt) :
    basePlaintext H tree index salt = .ok (memberPlaintext tree index l path salt none) := by
  obtain ⟨t, ht⟩ := hm.walk
  have hsalt : (salt.any fun s => s.length != SALT_BYTES) = false := by
    cases salt with
    | none => rfl
    | some s => simpa using hs s rfl
  rw [basePlaintext, if_neg (by simpa using hm.below), hm.leaf,
    decodeTreeLeaf_eq_some.mpr ⟨hm.valid, rfl⟩]
  dsimp only
  rw [hsalt, if_neg (by simp), ht, ok_bind]
  dsimp only
  rw [buildTreeMemberEvidence_eq hm.valid hm.below hm.nodes]
  rfl

lemma base64Of32_bytesToBase64 {b : Bytes} (h : b.length = 32) :
    base64Of32 (bytesToBase64 b) = some b := by
  rw [base64Of32, base64ToBytes_bytesToBase64]
  exact Option.filter_some_pos (by simpa using h)

lemma parseSalt_member {v : Value}
    (hv : ReadsBack (memberPlaintext tree index l path salt name) v) (hs : SaltOk salt) :
    parseSalt v = some (salt.map bytesToBase64) := by
  have hkey : js "salt" ∈ v.keys ↔ (salt.map bytesToBase64).isSome = true := hv.hasSalt
  cases salt with
  | none => rw [parseSalt, if_pos (by simp [hkey]), Option.map_none]
  | some s =>
      have hget : v.get (js "salt") = .str (bytesToBase64 s) := hv.salt _ rfl
      rw [parseSalt, if_neg (by simp [hkey]), hget]
      dsimp only
      rw [base64Of32_bytesToBase64 (hs s rfl), if_neg (by simp), Option.map_some]

lemma parseName_member {v : Value}
    (hv : ReadsBack (memberPlaintext tree index l path salt name) v) (hn : NameOk name) :
    parseName v = some name := by
  have hkey : js "name" ∈ v.keys ↔ name.isSome = true := hv.hasName
  cases name with
  | none => rw [parseName, if_pos (by simp [hkey])]
  | some s =>
      have hget : v.get (js "name") = .str s := hv.name _ rfl
      obtain ⟨hne, hlen⟩ := hn s rfl
      have hnot : ¬ (s = [] ∨ MAX_NAME_BYTES < (utf8Encode s).length) := by
        push Not
        exact ⟨hne, hlen⟩
      rw [parseName, if_neg (by simp [hkey]), hget]
      dsimp only
      rw [if_neg hnot]

lemma evidenceOf_member (hm : tree.Member H index l path) (ev : ParsedEvidence)
    (hi : ev.index = index) (hc : ev.count = tree.count) :
    evidenceOf (evidenceValue (memberEvidence tree index l path)).canonicalForm ev
      = memberEvidence tree index l path := by
  have hex := @RecoveryTree.Member.exact H tree index l path none none hm
  obtain ⟨-, -, hleaf, hpath⟩ := get_evidenceValue (e := memberEvidence tree index l path)
    hex.index hex.count
  rw [evidenceOf, hleaf, hpath, textsOf_texts, hi, hc]
  rfl

/-- The value of a member's plaintext reads back as the plaintext. -/
lemma readPlaintext_member (hsound : tree.Sound H leaves doc) (hm : tree.Member H index l path)
    (hs : SaltOk salt) (hn : NameOk name) {v : Value}
    (hv : ReadsBack (memberPlaintext tree index l path salt name) v) :
    readPlaintext H v = some (memberPlaintext tree index l path salt name) := by
  have hmax : MAX_TREE_LEAVES = 1000000 := rfl
  have hi := hm.below
  have hc := hm.limit
  have hproof : v.get (js "proofHash") = .str tree.proofHash := hv.proofHash
  have hroot : v.get (js "rootDocument") = .str tree.rootDocumentHex := hv.rootDocument
  have hindex : v.get (js "leafIndex") = .num (Number.ofNat index) := hv.leafIndex
  have hmember : v.get (js "member")
      = (evidenceValue (memberEvidence tree index l path)).canonicalForm := hv.member
  have hlocator : v.get (js "proof") = (locatorValue tree.locator).canonicalForm := hv.proof
  have hev := parseTreeMemberEvidence_evidenceValue hm.valid hi hc hm.nodes
  have hint : (Number.ofNat index).toInt? = some (index : ℤ) := toInt?_ofNat (by omega)
  have hreached : bytesEqual tree.tree.root doc.root = true := bytesEqual_iff.mpr hsound.root
  rw [readPlaintext, hv.record, if_neg (by simp), if_neg (not_not.mpr hv.keys), hv.format,
    if_neg (by simp), hproof, hroot, hindex]
  dsimp only
  rw [hsound.proofHash, Option.bind_eq_bind, Option.bind_some, hsound.hex, hexToBytes_bytesToHex,
    Option.bind_eq_bind, Option.bind_some, hsound.document, Option.bind_eq_bind, Option.bind_some,
    hmember, memberEvidence, hev, Option.bind_eq_bind, Option.bind_some, hint, hsound.docCount,
    if_neg (by simp), hm.root]
  change (some (some tree.tree.root)).bind _ = _
  rw [Option.bind_some, Option.all_some, hreached, if_neg (by simp), hlocator,
    parseLocator_locatorValue hsound.locator, Option.bind_eq_bind, Option.bind_some, hsound.digest,
    if_neg (by simp), parseSalt_member hv hs, Option.bind_eq_bind, Option.bind_some,
    parseName_member hv hn, Option.bind_some]
  dsimp only
  have heq := evidenceOf_member hm ⟨l, index, tree.count, path⟩ rfl rfl
  rw [memberEvidence] at heq
  rw [heq, memberPlaintext, hsound.hex, memberEvidence]

/-- **The plaintext round trip.** The bytes of a member's plaintext are read back. -/
theorem parse_encode_member (hsound : tree.Sound H leaves doc) (hm : tree.Member H index l path)
    (hs : SaltOk salt) (hn : NameOk name) :
    ∃ b, encodeRecoveryPlaintext (memberPlaintext tree index l path salt name) = .ok b
      ∧ b.length = textSize (plaintextValue (memberPlaintext tree index l path salt name))
      ∧ parseRecoveryPlaintext H b = some (memberPlaintext tree index l path salt name) := by
  have hex := @RecoveryTree.Member.exact H tree index l path salt name hm
  have hw := writable_plaintextValue hex
  obtain ⟨t, ht, -, hparse⟩ := canonicalize_parses hw.isJson hw.allFinite hw.lacksKey
  refine ⟨utf8Encode t, ht, length_canonicalize hw.isJson hw.allFinite hw.lacksKey ht, ?_⟩
  have hread := readPlaintext_member hsound hm hs hn (readsBack_plaintextValue hex)
  calc parseRecoveryPlaintext H (utf8Encode t)
      = ((decodeFatal (utf8Encode t)).bind parse).bind (readPlaintext H) := by
        rw [parseRecoveryPlaintext, Option.bind_assoc]
        rfl
    _ = some (memberPlaintext tree index l path salt name) := by
        rw [hparse, Option.bind_some, hread]

/-! ### The size of a plaintext -/

lemma isPlain_b64Unit {n : ℕ} (h : n < 64) : isPlain (b64Unit n) = true := by
  have hall : ∀ n < 64, isPlain (b64Unit n) = true := by decide
  exact hall n h

lemma all_isPlain_bytesToBase64 (b : Bytes) : (bytesToBase64 b).all isPlain = true :=
  List.all_eq_true.mpr (forall_mem_bytesToBase64 (fun _ => isPlain_b64Unit) (by decide) b)

lemma isPlain_of_isDigit {c : UInt16} (h : isDigit c = true) : isPlain c = true := by
  simp only [isDigit, isPlain, Bool.and_eq_true, decide_eq_true_eq, bne_iff_ne] at h ⊢
  refine ⟨⟨⟨by omega, by omega⟩, ?_⟩, ?_⟩ <;> rintro rfl <;> simp at h

/-- A counter has at most 20 digits. -/
lemma isCounter_spec {s : Str} (h : isCounter s = true) :
    s.all isPlain = true ∧ s.length ≤ 20 := by
  rw [isCounter.eq_def] at h
  split at h
  · decide
  · next c s =>
      simp only [Bool.and_eq_true, decide_eq_true_eq] at h
      obtain ⟨⟨⟨hc, -⟩, hlen⟩, hs⟩ := h
      rw [List.all_eq_true] at hs ⊢
      refine ⟨?_, by rw [List.length_cons]; omega⟩
      intro d hd
      rcases List.mem_cons.mp hd with rfl | hd
      · exact isPlain_of_isDigit hc
      · exact isPlain_of_isDigit (hs d hd)
  · cases h

/-- The base64 of 32 bytes takes 46 bytes with its quotes. -/
lemma byteLength_quote_base64 {s : Str} {b : Bytes} (h : base64Of32 s = some b) :
    byteLength (quote s) = 46 := by
  rw [base64Of32, Option.filter_eq_some_iff] at h
  obtain ⟨hs, hb⟩ := h
  obtain rfl := eq_of_base64ToBytes hs
  have hlen : b.length = 32 := by simpa using hb
  rw [byteLength_quote_of_isPlain (all_isPlain_bytesToBase64 b), length_bytesToBase64, hlen]

lemma length_of_parseTreeRootDocument {b : Bytes} {doc : TreeRootDocument}
    (h : parseTreeRootDocument b = some doc) : b.length = 84 := by
  rw [parseTreeRootDocument] at h
  split at h
  · cases h
  · next hlen => simpa [TREE_ROOT_DOCUMENT_BYTES] using hlen

/-- The bytes of an optional member: name, colon, quoted text and comma. -/
def optionSize (k : Str) (s : Option Str) : ℕ :=
  s.elim 0 fun s => k.length + 2 + byteLength (quote s) + 2

lemma sum_path_size {path : List Bytes} (hp : ∀ p ∈ path, p.length = 32) :
    ((path.map fun p => byteLength (quote (bytesToHex p)) + 1)).sum = 67 * path.length := by
  induction path with
  | nil => rfl
  | cons p path ih =>
      rw [List.map_cons, List.sum_cons, ih fun q hq => hp q (by simp [hq]), byteLength_quote_hex,
        hp p (by simp), List.length_cons]
      ring

/-- The bytes of evidence. -/
lemma textSize_evidence (hm : tree.Member H index l path) :
    textSize (evidenceValue (memberEvidence tree index l path))
      = 169 + (decimal index).length + (decimal tree.count).length + (67 * path.length - 1) := by
  have hex := @RecoveryTree.Member.exact H tree index l path none none hm
  have hmax : MAX_TREE_LEAVES = 1000000 := rfl
  have hi := hm.below
  have hc := hm.limit
  have hw := writable_evidenceValue (e := memberEvidence tree index l path) hex.index hex.count
  have hj := hw.isJson
  rw [evidenceValue, isJson, Bool.and_eq_true, isJsonFields_iff] at hj
  have htexts := writable_texts (path.map bytesToHex)
  have hjt := htexts.isJson
  rw [isJson, isJsonList_iff] at hjt
  have hpath : textSize (.arr ((path.map bytesToHex).map .str)) = 67 * path.length - 1 + 2 := by
    rw [textSize_arr hjt, List.map_map, List.map_map, ← sum_path_size hm.nodes]
    rfl
  have hleaf : byteLength (quote (bytesToHex l.bytes)) = 132 := by
    rw [byteLength_quote_hex, hm.valid.length_bytes]
    rfl
  have kindex : byteLength (quote (js "index")) = 7 := by decide
  have kcount : byteLength (quote (js "count")) = 7 := by decide
  have kleaf : byteLength (quote (js "leaf")) = 6 := by decide
  have kpath : byteLength (quote (js "path")) = 6 := by decide
  rw [evidenceValue, textSize_obj hj.2]
  simp only [memberEvidence, List.map_cons, List.map_nil, List.sum_cons, List.sum_nil, kindex,
    kcount, kleaf, kpath, textSize_ofNat (by omega : index < 10 ^ 10),
    textSize_ofNat (by omega : tree.count < 10 ^ 10), textSize_str, hleaf, hpath]
  omega

lemma textSize_locator {p : RecoveryLocator} (h : p.Valid) :
    textSize (locatorValue p) = 138 + p.counter.length := by
  obtain ⟨e, he⟩ := h.epochId
  obtain ⟨d, hd⟩ := h.artifactDigestB64
  have hj := (writable_locatorValue p).isJson
  rw [locatorValue, isJson, Bool.and_eq_true, isJsonFields_iff] at hj
  have kepoch : byteLength (quote (js "epochId")) = 9 := by decide
  have kcounter : byteLength (quote (js "counter")) = 9 := by decide
  have kdigest : byteLength (quote (js "artifactDigestB64")) = 19 := by decide
  rw [locatorValue, textSize_obj hj.2]
  simp only [List.map_cons, List.map_nil, List.sum_cons, List.sum_nil, kepoch, kcounter, kdigest,
    textSize_str, byteLength_quote_base64 he, byteLength_quote_base64 hd,
    byteLength_quote_of_isPlain (isCounter_spec h.counter).1]
  omega

/-- The bytes of a member's plaintext. -/
lemma textSize_member (hsound : tree.Sound H leaves doc) (hm : tree.Member H index l path) :
    textSize (plaintextValue (memberPlaintext tree index l path salt name))
      = 616 + 2 * (decimal index).length + (decimal tree.count).length + (67 * path.length - 1)
        + tree.locator.counter.length + optionSize (js "salt") (salt.map bytesToBase64)
        + optionSize (js "name") name := by
  have hmax : MAX_TREE_LEAVES = 1000000 := rfl
  have hi := hm.below
  have hc := hm.limit
  have hj := (writable_plaintextValue (@RecoveryTree.Member.exact H tree index l path salt name hm)).isJson
  change isJson (.obj (plaintextFields _)) = true at hj
  rw [isJson, Bool.and_eq_true, isJsonFields_iff] at hj
  have kformat : byteLength (quote (js "format")) = 8 := by decide
  have kproofHash : byteLength (quote (js "proofHash")) = 11 := by decide
  have kleafIndex : byteLength (quote (js "leafIndex")) = 11 := by decide
  have krootDocument : byteLength (quote (js "rootDocument")) = 14 := by decide
  have kmember : byteLength (quote (js "member")) = 8 := by decide
  have kproof : byteLength (quote (js "proof")) = 7 := by decide
  have kname : byteLength (quote (js "name")) = 6 := by decide
  have ksalt : byteLength (quote (js "salt")) = 6 := by decide
  have hformat : byteLength (quote RECOVERY_FORMAT) = 21 := by decide
  have hroot : byteLength (quote tree.rootDocumentHex) = 170 := by
    rw [hsound.hex, byteLength_quote_hex, length_of_parseTreeRootDocument hsound.document]
  change textSize (.obj (plaintextFields _)) = _
  rw [textSize_obj hj.2, plaintextFields, List.map_append, List.map_append, List.sum_append,
    List.sum_append]
  have hoption : ∀ (k : Str) (s : Option Str), byteLength (quote k) = k.length + 2 →
      (((s.toList.map fun t => (k, Value.str t)).map
        fun m => byteLength (quote m.1) + textSize m.2 + 2)).sum = optionSize k s := by
    intro k s hk
    cases s with
    | none => rfl
    | some s =>
        rw [optionSize, Option.elim_some, ← hk]
        exact Nat.add_zero _
  have hsalt := hoption (js "salt") (salt.map bytesToBase64) ksalt
  have hname := hoption (js "name") name kname
  simp only [memberPlaintext, List.map_cons, List.map_nil, List.sum_cons, List.sum_nil] at hsalt hname ⊢
  rw [hsalt, hname]
  simp only [kformat, kproofHash, kleafIndex, krootDocument, kmember, kproof, textSize_str, hformat,
    byteLength_quote_base64 hsound.proofHash, textSize_ofNat (by omega : index < 10 ^ 10), hroot,
    textSize_evidence hm, textSize_locator hsound.locator]
  omega

end Member

end Recovery

end BitGraph
