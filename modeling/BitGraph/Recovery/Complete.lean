import BitGraph.Recovery.Plaintext

/-!
An entry that was sealed is found.

* **Keys.** `recoveryObjectKeyFor_member`: the object key of a side, its address and its name.
* **Sealing.** `sealSide_member`: every side of every member of an accepted tree is sealed.
* **Opening.** `openListed_member`: the listing under the side's digest opens the entry.
* `recovery_complete`: both together, for all members, sides, names and salts, and no other
  digest opens the entry.
-/

namespace BitGraph

open Js Js.Value

namespace Recovery

variable {H : HashFn} {A : Aead} {tree : RecoveryTree} {leaves : List TreeLeaf}
  {doc : TreeRootDocument} {index : ℕ} {l : TreeLeaf} {path : List Bytes} {salt : Option Bytes}
  {name : Option Str} {side : RecoverySide}

/-! ### Object keys -/

/-- The object key of an address and a name. -/
def objectKeyText (address entryId : Str) : Str := RECOVERY_PREFIX ++ address ++ js "/" ++ entryId

lemma isHex64_bytesToHex {b : Bytes} (h : b.length = 32) : isHex64 (bytesToHex b) = true := by
  have hall : (bytesToHex b).all isLowerHex = true :=
    List.all_eq_true.mpr fun _ hc => isLowerHex_of_mem_bytesToHex hc
  rw [isHex64, hall, length_bytesToHex, h]
  rfl

lemma length_of_isHex64 {s : Str} (h : isHex64 s = true) : s.length = 64 := by
  rw [isHex64, Bool.and_eq_true, beq_iff_eq] at h
  exact h.1

lemma length_RECOVERY_PREFIX : RECOVERY_PREFIX.length = 12 := by decide

/-- The parts of an object key. -/
lemma objectKeyText_parts {a e : Str} (ha : isHex64 a = true) :
    (objectKeyText a e).take 12 = RECOVERY_PREFIX ∧ slice (objectKeyText a e) 12 76 = a
      ∧ slice (objectKeyText a e) 76 77 = js "/" ∧ (objectKeyText a e).drop 77 = e := by
  have hpre := length_RECOVERY_PREFIX
  have hlen := length_of_isHex64 ha
  have h76 : (RECOVERY_PREFIX ++ a).length = 76 := by rw [List.length_append, hpre, hlen]
  have hslash : (js "/").length = 1 := rfl
  have h77 : (RECOVERY_PREFIX ++ a ++ js "/").length = 77 := by
    rw [List.length_append, h76, hslash]
  refine ⟨?_, ?_, ?_, ?_⟩
  · rw [objectKeyText, List.append_assoc, List.append_assoc]
    exact List.take_left' hpre
  · rw [objectKeyText, List.append_assoc, List.append_assoc, slice, List.drop_left' hpre]
    exact List.take_left' hlen
  · rw [objectKeyText, List.append_assoc, slice, List.drop_left' h76]
    exact List.take_left' hslash
  · rw [objectKeyText]
    exact List.drop_left' h77

lemma isObjectKey_objectKeyText {a e : Str} (ha : isHex64 a = true) (he : isHex64 e = true) :
    isObjectKey (objectKeyText a e) = true := by
  obtain ⟨h1, h2, h3, h4⟩ := objectKeyText_parts (e := e) ha
  rw [isObjectKey, h1, h2, h3, h4, ha, he]
  simp

lemma parseRecoveryObjectKey_objectKeyText {a e : Str} (ha : isHex64 a = true)
    (he : isHex64 e = true) : parseRecoveryObjectKey (objectKeyText a e) = some (a, e) := by
  obtain ⟨-, h2, -, h4⟩ := objectKeyText_parts (e := e) ha
  rw [parseRecoveryObjectKey, if_pos (isObjectKey_objectKeyText ha he), h2, h4]

lemma checkDigest_ok {d : Bytes} (h : d.length = 32) (what : Str) : checkDigest d what = .ok () := by
  rw [checkDigest, if_neg (by simpa using h)]

/-- The address of a digest. -/
def addressOf (H : HashFn) (d : Bytes) : Str := bytesToHex (H (LOOKUP_LABEL ++ d))

/-- The key of a digest. -/
def keyOf (H : HashFn) (d : Bytes) : Bytes := H (KEY_LABEL ++ d)

lemma recoveryAddress_eq {d : Bytes} (h : d.length = 32) :
    recoveryAddress H d = .ok (addressOf H d) := by
  rw [recoveryAddress, checkDigest_ok h]
  rfl

lemma recoveryKeyBytes_eq {d : Bytes} (h : d.length = 32) :
    recoveryKeyBytes H d = .ok (keyOf H d) := by
  rw [recoveryKeyBytes, checkDigest_ok h]
  rfl

lemma isHex64_addressOf (d : Bytes) : isHex64 (addressOf H d) = true :=
  isHex64_bytesToHex (H.length_apply _)

/-- The name of an entry. -/
def entryIdOf (H : HashFn) (d proofHash32 : Bytes) (index : ℕ) : Option Bytes → Str
  | none => bytesToHex (H (ENTRY_LABEL ++ d ++ proofHash32 ++ Sha256.beBytes 4 index))
  | some salt =>
      bytesToHex (H (SALTED_ENTRY_LABEL ++ d ++ proofHash32 ++ Sha256.beBytes 4 index ++ salt))

lemma isHex64_entryIdOf (d proofHash32 : Bytes) (index : ℕ) (salt : Option Bytes) :
    isHex64 (entryIdOf H d proofHash32 index salt) = true := by
  cases salt <;> exact isHex64_bytesToHex (H.length_apply _)

lemma indexBytes_eq {index : ℕ} (h : index ≤ MAX_TREE_LEAVES) :
    indexBytes index = .ok (Sha256.beBytes 4 index) := by
  have hmax : MAX_TREE_LEAVES = 1000000 := rfl
  rw [indexBytes, if_neg (by omega)]

lemma recoveryEntryId_eq {d p : Bytes} {index : ℕ} (hd : d.length = 32) (hp : p.length = 32)
    (hi : index ≤ MAX_TREE_LEAVES) : recoveryEntryId H d p index = .ok (entryIdOf H d p index none) := by
  rw [recoveryEntryId, checkDigest_ok hd, checkDigest_ok hp, ok_bind, ok_bind, indexBytes_eq hi]
  rfl

lemma recoverySaltedEntryId_eq {d p s : Bytes} {index : ℕ} (hd : d.length = 32)
    (hp : p.length = 32) (hi : index ≤ MAX_TREE_LEAVES) (hs : s.length = SALT_BYTES) :
    recoverySaltedEntryId H d p index s = .ok (entryIdOf H d p index (some s)) := by
  rw [recoverySaltedEntryId, checkDigest_ok hd, checkDigest_ok hp, ok_bind, ok_bind,
    if_neg (by simpa using hs), indexBytes_eq hi]
  rfl

/-! ### The digests of a member -/

/-- The digest of a leaf that a side is filed under. -/
def sideDigest (l : TreeLeaf) (side : RecoverySide) : Bytes :=
  if side = .artifact then l.artifact else l.origin

lemma recoveryDigestOf_member (hm : tree.Member H index l path) :
    recoveryDigestOf tree.leaves index side = sideDigest l side := by
  obtain ⟨ha, ho⟩ := slice_leaf hm.valid
  rw [recoveryDigestOf, hm.leaf, ha, ho]
  rfl

lemma length_sideDigest (hl : l.Valid) : (sideDigest l side).length = 32 := by
  rw [sideDigest]
  split
  · exact hl.artifact
  · exact hl.origin

lemma length_of_base64Of32 {s : Str} {b : Bytes} (h : base64Of32 s = some b) : b.length = 32 := by
  rw [base64Of32, Option.filter_eq_some_iff] at h
  simpa using h.2

/-- The object key of a side of a member. -/
lemma recoveryObjectKeyFor_member (hsound : tree.Sound H leaves doc)
    (hm : tree.Member H index l path) (hs : SaltOk salt) :
    recoveryObjectKeyFor H tree index side salt
      = .ok (objectKeyText (addressOf H (sideDigest l side))
          (entryIdOf H (sideDigest l side) tree.proofHash32 index salt)) := by
  have hd := @length_sideDigest l side hm.valid
  have hp := length_of_base64Of32 hsound.proofHash
  have hi : index ≤ MAX_TREE_LEAVES := (hm.below.trans_le hm.limit).le
  have hkey : recoveryObjectKey (addressOf H (sideDigest l side))
      (entryIdOf H (sideDigest l side) tree.proofHash32 index salt)
      = .ok (objectKeyText (addressOf H (sideDigest l side))
          (entryIdOf H (sideDigest l side) tree.proofHash32 index salt)) := by
    rw [recoveryObjectKey, isHex64_addressOf, isHex64_entryIdOf, if_neg (by simp)]
    rfl
  have hid : sideEntryId H tree index (sideDigest l side) salt
      = .ok (entryIdOf H (sideDigest l side) tree.proofHash32 index salt) := by
    cases salt with
    | none => exact recoveryEntryId_eq hd hp hi
    | some s => exact recoverySaltedEntryId_eq hd hp hi (hs s rfl)
  rw [recoveryObjectKeyFor, recoveryDigestOf_member hm, hid, ok_bind, recoveryAddress_eq hd, ok_bind]
  exact hkey

/-- The name a member's plaintext derives. -/
lemma recoveryEntryIdOf_member (hsound : tree.Sound H leaves doc)
    (hm : tree.Member H index l path) (hs : SaltOk salt) :
    recoveryEntryIdOf H (sideDigest l side) (memberPlaintext tree index l path salt name)
      = .ok (entryIdOf H (sideDigest l side) tree.proofHash32 index salt) := by
  have hd := @length_sideDigest l side hm.valid
  have hp := length_of_base64Of32 hsound.proofHash
  have hi : index ≤ MAX_TREE_LEAVES := (hm.below.trans_le hm.limit).le
  have hproof : base64ToBytes tree.proofHash = some tree.proofHash32 := by
    have h := hsound.proofHash
    rw [base64Of32, Option.filter_eq_some_iff] at h
    exact h.1
  cases salt with
  | none =>
      rw [recoveryEntryIdOf]
      change recoveryEntryId H _ ((base64ToBytes tree.proofHash).getD []) index = _
      rw [hproof]
      exact recoveryEntryId_eq hd hp hi
  | some s =>
      rw [recoveryEntryIdOf]
      change recoverySaltedEntryId H _ ((base64ToBytes tree.proofHash).getD []) index
        ((base64ToBytes (bytesToBase64 s)).getD []) = _
      rw [hproof, base64ToBytes_bytesToBase64]
      exact recoverySaltedEntryId_eq hd hp hi (hs s rfl)

/-! ### The plaintext that is sealed -/

lemma length_decimal_million {n : ℕ} (h : n ≤ MAX_TREE_LEAVES) : (decimal n).length ≤ 7 := by
  have hmax : MAX_TREE_LEAVES = 1000000 := rfl
  exact length_decimal_le (by norm_num) (by omega)

lemma optionSize_salt (hs : SaltOk salt) :
    optionSize (js "salt") (salt.map bytesToBase64) ≤ 54 := by
  cases salt with
  | none => exact Nat.zero_le _
  | some s =>
      have hlen : (js "salt").length = 4 := rfl
      have hquote := byteLength_quote_base64 (base64Of32_bytesToBase64 (hs s rfl))
      rw [Option.map_some, optionSize, Option.elim_some, hquote, hlen]

/-- Without its name a plaintext takes at most 2051 bytes. -/
lemma textSize_member_le (hsound : tree.Sound H leaves doc) (hm : tree.Member H index l path)
    (hs : SaltOk salt) :
    textSize (plaintextValue (memberPlaintext tree index l path salt name))
      ≤ 2051 + optionSize (js "name") name := by
  have hmax : MAX_TREE_LEAVES = 1000000 := rfl
  have hi := length_decimal_million (hm.below.trans_le hm.limit).le
  have hc := length_decimal_million hm.limit
  have hcounter := (isCounter_spec hsound.locator.counter).2
  have hpath : path.length ≤ 20 := by
    rw [hm.length]
    exact HashTree.length_sides_le hm.below (hm.limit.trans (by norm_num [hmax]))
  have hsalt := optionSize_salt hs
  rw [textSize_member hsound hm]
  omega

/-- The clamped name, where the plaintext with it is within the limit. -/
def keptName (tree : RecoveryTree) (index : ℕ) (l : TreeLeaf) (path : List Bytes)
    (salt : Option Bytes) (name : Option Str) : Option Str :=
  (clampRecoveryName name).filter fun s =>
    textSize (plaintextValue (memberPlaintext tree index l path salt (some s)))
      ≤ MAX_PLAINTEXT_BYTES

lemma nameOk_clamp : NameOk (clampRecoveryName name) := fun _ hs => clampRecoveryName_spec hs

lemma nameOk_keptName : NameOk (keptName tree index l path salt name) := by
  intro s hs
  rw [keptName, Option.mem_def, Option.filter_eq_some_iff] at hs
  exact clampRecoveryName_spec hs.1

/-- A member has a plaintext within the limit; a name is dropped where it is too long. -/
lemma recoveryPlaintextFor_member (hsound : tree.Sound H leaves doc)
    (hm : tree.Member H index l path) (hs : SaltOk salt) :
    ∃ b, recoveryPlaintextFor H tree index name salt
        = .ok (memberPlaintext tree index l path salt (keptName tree index l path salt name), b)
      ∧ encodeRecoveryPlaintext
          (memberPlaintext tree index l path salt (keptName tree index l path salt name)) = .ok b
      ∧ 0 < b.length ∧ b.length ≤ MAX_PLAINTEXT_BYTES := by
  have hlimit : MAX_PLAINTEXT_BYTES = 4067 := rfl
  have hpos : ∀ n, 0 < textSize (plaintextValue (memberPlaintext tree index l path salt n)) := by
    intro n
    rw [textSize_member hsound hm]
    omega
  have hnone : NameOk none := by
    intro s hs
    cases hs
  obtain ⟨base, hbase, hlenbase, -⟩ := parse_encode_member hsound hm hs hnone
  have hsmall : base.length ≤ MAX_PLAINTEXT_BYTES := by
    have hle := @textSize_member_le H tree leaves doc index l path salt none hsound hm hs
    have hname : optionSize (js "name") none = 0 := rfl
    omega
  have hwithin : withinLimit index (memberPlaintext tree index l path salt none)
      = .ok (memberPlaintext tree index l path salt none, base) := by
    rw [withinLimit, hbase, ok_bind, if_neg (by omega)]
  have hbasepos : 0 < base.length := by
    rw [hlenbase]
    exact hpos none
  rw [recoveryPlaintextFor, basePlaintext_member hm hs, ok_bind, keptName]
  cases hclamp : clampRecoveryName name with
  | none => exact ⟨base, hwithin, hbase, hbasepos, hsmall⟩
  | some s =>
      obtain ⟨b, hb, hlen, -⟩ := parse_encode_member hsound hm hs (@nameOk_clamp name)
      rw [hclamp] at hb hlen
      dsimp only
      change ∃ b', (encodeRecoveryPlaintext (memberPlaintext tree index l path salt (some s)) >>= _)
        = _ ∧ _
      rw [hb, ok_bind]
      by_cases hfit : b.length ≤ MAX_PLAINTEXT_BYTES
      · rw [if_pos hfit, Option.filter_some_pos (by simpa [← hlen] using hfit)]
        refine ⟨b, rfl, hb, ?_, hfit⟩
        rw [hlen]
        exact hpos (some s)
      · rw [if_neg hfit, Option.filter_some_neg (by simpa [← hlen] using hfit)]
        exact ⟨base, hwithin, hbase, hbasepos, hsmall⟩

/-! ### Sealing -/

/-- The write of a side of a member, with the bytes of its plaintext. -/
structure Sealed (H : HashFn) (A : Aead) (tree : RecoveryTree) (index : ℕ) (l : TreeLeaf)
    (path : List Bytes) (side : RecoverySide) (name : Option Str) (salt : Option Bytes)
    (nonce : Bytes) (w : RecoveryWrite) (b : Bytes) : Prop where
  filed : w.side = side
  digest : w.digest = sideDigest l side
  objectKey : w.objectKey = objectKeyText (addressOf H (sideDigest l side))
    (entryIdOf H (sideDigest l side) tree.proofHash32 index salt)
  plaintext : w.plaintext
    = memberPlaintext tree index l path salt (keptName tree index l path salt name)
  encoded : encodeRecoveryPlaintext w.plaintext = .ok b
  positive : 0 < b.length
  fits : b.length ≤ MAX_PLAINTEXT_BYTES
  envelope : w.envelope = ENVELOPE_VERSION :: (nonce ++ A.encrypt (keyOf H (sideDigest l side))
    nonce (utf8Encode w.objectKey) b)

lemma sealRecoveryEnvelope_ok (A : Aead) {key plaintext : Bytes} (nonce : Bytes) {objectKey : Str}
    (hkey : key.length = 32) (hobject : isObjectKey objectKey = true)
    (hpos : 0 < plaintext.length) (hfit : plaintext.length ≤ MAX_PLAINTEXT_BYTES) :
    sealRecoveryEnvelope A key objectKey plaintext nonce
      = .ok (ENVELOPE_VERSION :: (nonce ++ A.encrypt key nonce (utf8Encode objectKey) plaintext)) := by
  rw [sealRecoveryEnvelope, hobject, if_neg (by simp), if_neg (by omega), importKey,
    if_neg (by simpa using hkey)]
  rfl

/-- Every side of every member is sealed. -/
lemma sealSide_member (hsound : tree.Sound H leaves doc) (hm : tree.Member H index l path)
    (hs : SaltOk salt) (nonce : Bytes) :
    ∃ w b, sealSide H A tree index name side salt nonce = .ok w
      ∧ Sealed H A tree index l path side name salt nonce w b := by
  have hd := @length_sideDigest l side hm.valid
  have hnone : SaltOk none := by
    intro s hs
    cases hs
  obtain ⟨b, hplain, hencode, hpos, hfit⟩ :=
    @recoveryPlaintextFor_member H tree leaves doc index l path salt name hsound hm hs
  have hkeylen : (keyOf H (sideDigest l side)).length = 32 := H.length_apply _
  have hobject := isObjectKey_objectKeyText (isHex64_addressOf (H := H) (sideDigest l side))
    (isHex64_entryIdOf (H := H) (sideDigest l side) tree.proofHash32 index salt)
  have henvelope := sealRecoveryEnvelope_ok A nonce hkeylen hobject hpos hfit
  let key := objectKeyText (addressOf H (sideDigest l side))
    (entryIdOf H (sideDigest l side) tree.proofHash32 index salt)
  let w : RecoveryWrite := ⟨side, sideDigest l side, key,
    ENVELOPE_VERSION :: (nonce ++ A.encrypt (keyOf H (sideDigest l side)) nonce (utf8Encode key) b),
    objectKeyText (addressOf H (sideDigest l side))
      (entryIdOf H (sideDigest l side) tree.proofHash32 index none), salt.isSome,
    memberPlaintext tree index l path salt (keptName tree index l path salt name)⟩
  refine ⟨w, b, ?_, ⟨rfl, rfl, rfl, rfl, hencode, hpos, hfit, rfl⟩⟩
  rw [sealSide, recoveryDigestOf_member hm, recoveryObjectKeyFor_member hsound hm hnone,
    recoveryObjectKeyFor_member hsound hm hs, ok_bind, ok_bind, hplain, ok_bind]
  dsimp only
  rw [recoveryKeyBytes_eq hd, ok_bind, henvelope]
  rfl

/-! ### Opening -/

lemma length_envelope (A : Aead) (key aad plaintext : Bytes) {nonce : Bytes} (hnonce : nonce.length = NONCE_BYTES) :
    (ENVELOPE_VERSION :: (nonce ++ A.encrypt key nonce aad plaintext)).length
      = plaintext.length + ENVELOPE_OVERHEAD := by
  have h12 : NONCE_BYTES = 12 := rfl
  have h29 : ENVELOPE_OVERHEAD = 29 := rfl
  rw [List.length_cons, List.length_append, Aead.length_encrypt]
  omega

/-- The nonce and the ciphertext of an envelope. -/
lemma envelope_parts (sealedText : Bytes) {nonce : Bytes} (hnonce : nonce.length = NONCE_BYTES) :
    slice (ENVELOPE_VERSION :: (nonce ++ sealedText)) 1 (1 + NONCE_BYTES) = nonce
      ∧ (ENVELOPE_VERSION :: (nonce ++ sealedText)).drop (1 + NONCE_BYTES) = sealedText := by
  rw [slice, Nat.add_comm 1, List.drop_succ_cons, List.drop_succ_cons, List.drop_zero,
    List.drop_left' hnonce, Nat.add_sub_cancel, List.take_left' hnonce]
  exact ⟨rfl, rfl⟩

lemma openWith_envelope {key key' nonce aad plaintext : Bytes} {objectKey : Str}
    (hnonce : nonce.length = NONCE_BYTES) (hpos : 0 < plaintext.length)
    (hfit : plaintext.length ≤ MAX_PLAINTEXT_BYTES) :
    openWith A key' objectKey (ENVELOPE_VERSION :: (nonce ++ A.encrypt key nonce aad plaintext))
      = A.decrypt key' nonce (utf8Encode objectKey) (A.encrypt key nonce aad plaintext) := by
  have hlen := length_envelope A key aad plaintext hnonce
  have hmin : MIN_ENVELOPE_BYTES = ENVELOPE_OVERHEAD + 1 := rfl
  have hmax : MAX_PLAINTEXT_BYTES = 4067 := rfl
  have hmax' : MAX_ENVELOPE_BYTES = 4096 := rfl
  have hover : ENVELOPE_OVERHEAD = 29 := rfl
  have hcond : ¬ ((ENVELOPE_VERSION :: (nonce ++ A.encrypt key nonce aad plaintext)).length
        < MIN_ENVELOPE_BYTES
      ∨ MAX_ENVELOPE_BYTES < (ENVELOPE_VERSION :: (nonce ++ A.encrypt key nonce aad plaintext)).length
      ∨ (ENVELOPE_VERSION :: (nonce ++ A.encrypt key nonce aad plaintext)).head?
        ≠ some ENVELOPE_VERSION) := by
    rw [hlen]
    push Not
    exact ⟨by omega, by omega, rfl⟩
  obtain ⟨hnonce', hrest⟩ := envelope_parts (A.encrypt key nonce aad plaintext) hnonce
  rw [openWith, if_neg hcond, hnonce', hrest]

/-- An item of a listing: an object key and an envelope in base64. -/
structure Lists (item : Value) (objectKey : Str) (envelope : Bytes) : Prop where
  record : isRecord item = true
  key : item.get (js "key") = .str objectKey
  envelope : item.get (js "envelope") = .str (bytesToBase64 envelope)

/-- An entry that is member `index` of a tree, with a salt and a name. -/
structure EntryOf (H : HashFn) (tree : RecoveryTree) (index : ℕ) (salt : Option Bytes)
    (name : Option Str) (e : RecoveredEntry) : Prop where
  proofHash : e.proofHash = tree.proofHash
  leafIndex : e.leafIndex = index
  rootDocument : e.rootDocument = bytesToHex tree.rootDocument
  memberIndex : e.member.index = index
  memberCount : e.member.count = tree.count
  memberLeaf : e.member.leaf = bytesToHex (leafBytesAt tree.leaves index)
  memberPath : ∃ leaf path, decodeTreeLeaf (leafBytesAt tree.leaves index) = some leaf
    ∧ e.member.path = path.map bytesToHex
    ∧ treeRootFromMember H leaf index tree.count path = .ok (some tree.tree.root)
  proof : e.proof = tree.locator
  salt : e.salt = salt.map bytesToBase64
  name : e.name = name

/-- The entry that a member's plaintext gives under one of its digests. -/
lemma recoveredEntry_member (hsound : tree.Sound H leaves doc) (hm : tree.Member H index l path)
    (objectKey entryId : Str) :
    ∃ e, recoveredEntry (sideDigest l side) objectKey entryId
        (memberPlaintext tree index l path salt name) = some e
      ∧ e.objectKey = objectKey ∧ EntryOf H tree index salt name e := by
  have hleaf : (hexToBytes (bytesToHex l.bytes)).bind decodeTreeLeaf = some l := by
    rw [hexToBytes_bytesToHex, Option.bind_some]
    exact decodeTreeLeaf_eq_some.mpr ⟨hm.valid, rfl⟩
  have hnames : (!bytesEqual l.artifact (sideDigest l side)
      && !bytesEqual l.origin (sideDigest l side)) = false := by
    rw [sideDigest]
    split
    · rw [bytesEqual_iff.mpr rfl]
      rfl
    · rw [@bytesEqual_iff l.origin l.origin |>.mpr rfl, Bool.not_true, Bool.and_false]
  rw [recoveredEntry]
  change ∃ e, ((hexToBytes (bytesToHex l.bytes)).bind decodeTreeLeaf).bind _ = _ ∧ _
  rw [hleaf, Option.bind_some]
  dsimp only
  rw [hnames, if_neg (by simp)]
  refine ⟨_, rfl, rfl, ⟨rfl, rfl, hsound.hex, rfl, rfl, ?_, ?_, rfl, rfl, rfl⟩⟩
  · rw [hm.leaf]
    rfl
  · rw [hm.leaf]
    exact ⟨l, path, decodeTreeLeaf_eq_some.mpr ⟨hm.valid, rfl⟩, rfl, hm.root⟩

/-- The listing under the side's digest opens the entry. -/
lemma openListed_member (hsound : tree.Sound H leaves doc) (hm : tree.Member H index l path)
    (hs : SaltOk salt) {nonce : Bytes} (hnonce : nonce.length = NONCE_BYTES) {w : RecoveryWrite}
    {b : Bytes} (hw : Sealed H A tree index l path side name salt nonce w b) {item : Value}
    (hitem : Lists item w.objectKey w.envelope) :
    ∃ e, openListed H A item w.digest (addressOf H w.digest) (keyOf H w.digest) = .ok (some e)
      ∧ e.objectKey = w.objectKey ∧ EntryOf H tree index salt w.plaintext.name e := by
  have hparse : parseRecoveryPlaintext H b = some w.plaintext := by
    obtain ⟨b', hb', -, hread⟩ := parse_encode_member hsound hm hs
      (@nameOk_keptName tree index l path salt name)
    rw [← hw.plaintext] at hb' hread
    obtain rfl := Except.ok.inj (hw.encoded.symm.trans hb')
    exact hread
  have hkey : parseRecoveryObjectKey w.objectKey
      = some (addressOf H (sideDigest l side),
          entryIdOf H (sideDigest l side) tree.proofHash32 index salt) := by
    rw [hw.objectKey]
    exact parseRecoveryObjectKey_objectKeyText (isHex64_addressOf _) (isHex64_entryIdOf _ _ _ _)
  have hopen : openWith A (keyOf H (sideDigest l side)) w.objectKey w.envelope = some b := by
    rw [hw.envelope, openWith_envelope hnonce hw.positive hw.fits]
    exact A.decrypt_encrypt _ _ _ _
  have hid : recoveryEntryIdOf H (sideDigest l side) w.plaintext
      = .ok (entryIdOf H (sideDigest l side) tree.proofHash32 index salt) := by
    rw [hw.plaintext]
    exact recoveryEntryIdOf_member hsound hm hs
  obtain ⟨e, he, hobject, hentry⟩ := @recoveredEntry_member H tree leaves doc index l path salt
    (keptName tree index l path salt name) side hsound hm w.objectKey
    (entryIdOf H (sideDigest l side) tree.proofHash32 index salt)
  have hname : w.plaintext.name = keptName tree index l path salt name := by
    rw [hw.plaintext, memberPlaintext_name]
  rw [← hw.plaintext] at he
  rw [hw.digest, openListed, hitem.record, hitem.key, hitem.envelope]
  dsimp only
  rw [hkey, Option.filter_some_pos (by simp)]
  dsimp only
  rw [base64ToBytes_bytesToBase64]
  dsimp only
  rw [hopen, Option.bind_some, hparse]
  dsimp only
  rw [hid, ok_bind, if_neg (by simp), he, hname]
  exact ⟨e, rfl, hobject, hentry⟩

/-! ### Completeness -/

/-- The name of a sealed plaintext: the clamped name, or none where the plaintext with the name
is over the limit. -/
def KeepsName (p : RecoveryPlaintext) (name : Option Str) : Prop :=
  p.name = clampRecoveryName name ∨
    p.name = none ∧ ∃ s b, clampRecoveryName name = some s
      ∧ encodeRecoveryPlaintext { p with name := some s } = .ok b ∧ MAX_PLAINTEXT_BYTES < b.length

/-- A write of a member: filed under a digest of its leaf, within the limit, opened by the
listing under that digest as exactly this member, and by no listing under another digest unless
two keys collide or the sealed text opens under another key. -/
structure Recovers (H : HashFn) (A : Aead) (tree : RecoveryTree) (index : ℕ) (name : Option Str)
    (salt : Option Bytes) (nonce : Bytes) (w : RecoveryWrite) : Prop where
  digest : w.digest = recoveryDigestOf tree.leaves index w.side
  size : w.envelope.length ≤ MAX_ENVELOPE_BYTES
  keepsName : KeepsName w.plaintext name
  shortName : ∀ s, clampRecoveryName name = some s → byteLength (quote s) ≤ 2000 →
    w.plaintext.name = some s
  opens : ∀ address key item, recoveryAddress H w.digest = .ok address →
    recoveryKeyBytes H w.digest = .ok key → Lists item w.objectKey w.envelope →
    ∃ e, openListed H A item w.digest address key = .ok (some e)
      ∧ e.objectKey = w.objectKey ∧ EntryOf H tree index salt w.plaintext.name e
  foreign : ∀ digest address key item objectKey e, digest ≠ w.digest →
    recoveryAddress H digest = .ok address → recoveryKeyBytes H digest = .ok key →
    Lists item objectKey w.envelope → openListed H A item digest address key = .ok (some e) →
    H.Collides [KEY_LABEL ++ w.digest] [KEY_LABEL ++ digest] ∨
      ∃ b, encodeRecoveryPlaintext w.plaintext = .ok b
        ∧ A.Confuses (H (KEY_LABEL ++ w.digest)) key nonce (utf8Encode w.objectKey)
          (utf8Encode objectKey) b

/-- What a listing opens was decrypted under the key. -/
lemma openWith_of_openListed {item : Value} {digest32 key envelope : Bytes} {address objectKey : Str}
    {e : RecoveredEntry} (hitem : Lists item objectKey envelope)
    (h : openListed H A item digest32 address key = .ok (some e)) :
    (openWith A key objectKey envelope).isSome = true := by
  rw [openListed, hitem.record, hitem.key, hitem.envelope] at h
  dsimp only at h
  split at h
  · cases h
  · rw [base64ToBytes_bytesToBase64] at h
    dsimp only at h
    cases hopen : openWith A key objectKey envelope with
    | none =>
        rw [hopen, Option.bind_none] at h
        cases h
    | some b => rfl

lemma keepsName_keptName (hsound : tree.Sound H leaves doc) (hm : tree.Member H index l path)
    (hs : SaltOk salt) :
    KeepsName (memberPlaintext tree index l path salt (keptName tree index l path salt name))
      name := by
  cases hclamp : clampRecoveryName name with
  | none =>
      refine .inl ?_
      change keptName tree index l path salt name = _
      rw [keptName, hclamp]
      rfl
  | some s =>
      obtain ⟨b, hb, hlen, -⟩ := parse_encode_member hsound hm hs (@nameOk_clamp name)
      rw [hclamp] at hb hlen
      by_cases hfit : b.length ≤ MAX_PLAINTEXT_BYTES
      · refine .inl ?_
        change keptName tree index l path salt name = _
        rw [keptName, hclamp, Option.filter_some_pos (by simpa [← hlen] using hfit)]
      · refine .inr ⟨?_, s, b, hclamp, hb, by omega⟩
        change keptName tree index l path salt name = none
        rw [keptName, hclamp, Option.filter_some_neg (by simpa [← hlen] using hfit)]

/-- A name whose quoted text is short is kept. -/
lemma keptName_short (hsound : tree.Sound H leaves doc) (hm : tree.Member H index l path)
    (hs : SaltOk salt) {s : Str} (hclamp : clampRecoveryName name = some s)
    (hshort : byteLength (quote s) ≤ 2000) :
    keptName tree index l path salt name = some s := by
  have hle := @textSize_member_le H tree leaves doc index l path salt (some s) hsound hm hs
  have hlimit : MAX_PLAINTEXT_BYTES = 4067 := rfl
  have hlen : (js "name").length = 4 := rfl
  rw [optionSize, Option.elim_some, hlen] at hle
  have hfit : textSize (plaintextValue (memberPlaintext tree index l path salt (some s)))
      ≤ MAX_PLAINTEXT_BYTES := by omega
  rw [keptName, hclamp, Option.filter_some_pos (by simpa using hfit)]

lemma recovers_of_sealed (hsound : tree.Sound H leaves doc) (hm : tree.Member H index l path)
    (hs : SaltOk salt) {nonce : Bytes} (hnonce : nonce.length = NONCE_BYTES) {w : RecoveryWrite}
    {b : Bytes} (hw : Sealed H A tree index l path side name salt nonce w b) :
    Recovers H A tree index name salt nonce w := by
  have hd : w.digest.length = 32 := by
    rw [hw.digest]
    exact length_sideDigest hm.valid
  refine ⟨?_, ?_, ?_, fun s hclamp hshort => ?_, fun address key item ha hk hitem => ?_, ?_⟩
  · rw [recoveryDigestOf_member hm, hw.filed, hw.digest]
  · have hmax : MAX_ENVELOPE_BYTES = MAX_PLAINTEXT_BYTES + ENVELOPE_OVERHEAD := rfl
    have hfit := hw.fits
    rw [hw.envelope, length_envelope A _ _ _ hnonce]
    omega
  · rw [hw.plaintext]
    exact keepsName_keptName hsound hm hs
  · rw [hw.plaintext]
    exact keptName_short hsound hm hs hclamp hshort
  · obtain rfl := Except.ok.inj ((recoveryAddress_eq hd).symm.trans ha)
    obtain rfl := Except.ok.inj ((recoveryKeyBytes_eq hd).symm.trans hk)
    exact openListed_member hsound hm hs hnonce hw hitem
  · intro digest address key item objectKey e hne ha hk hitem hopen
    have hsome := openWith_of_openListed hitem hopen
    rw [hw.envelope, openWith_envelope hnonce hw.positive hw.fits, ← hw.digest] at hsome
    have hkey : key = H (KEY_LABEL ++ digest) := by
      obtain ⟨-, -, hret⟩ := bind_eq_ok hk
      exact (Except.ok.inj hret).symm
    by_cases heq : H (KEY_LABEL ++ w.digest) = key
    · refine .inl ⟨_, List.mem_singleton_self _, _, List.mem_singleton_self _, ?_, heq.trans hkey⟩
      exact fun hpre => hne (List.append_cancel_left hpre).symm
    · exact .inr ⟨b, hw.encoded, heq, hsome⟩

/-- **Completeness.** Over an accepted tree every member is sealed on each of its sides, with any
name and salt, and each write is found again under its digest and under no other. -/
theorem recovery_complete (H : HashFn) (A : Aead) (parts : RecoveryTreeParts) (tree : RecoveryTree)
    (htree : recoveryTreeFromParts H parts = .ok tree) (index : ℕ) (hindex : index < tree.count)
    (name : Option Str) (only : Option (List RecoverySide)) (salts : RecoverySide → Option Bytes)
    (hsalts : ∀ side, SaltOk (salts side)) (nonces : RecoverySide → Bytes)
    (hnonces : ∀ side, (nonces side).length = NONCE_BYTES) :
    ∃ plaintext writes,
      sealRecoveryMember H A tree index name only salts nonces = .ok (plaintext, writes)
      ∧ writes.map RecoveryWrite.side
        = (recoverySidesOf tree.leaves index).filter (fun s => only.all (·.contains s))
      ∧ ∀ w ∈ writes, Recovers H A tree index name (salts w.side) (nonces w.side) w := by
  obtain ⟨leaves, doc, hsound⟩ := sound_of_accepted htree
  obtain ⟨l, path, hm⟩ := hsound.exists_member hindex
  have hnone : SaltOk none := by
    intro s hs
    cases hs
  obtain ⟨b, hplain, -⟩ :=
    @recoveryPlaintextFor_member H tree leaves doc index l path none name hsound hm hnone
  have hwrites : ∀ sides : List RecoverySide, ∃ writes,
      (sides.mapM fun side => sealSide H A tree index name side (salts side) (nonces side))
        = .ok writes
      ∧ writes.map RecoveryWrite.side = sides
      ∧ ∀ w ∈ writes, Recovers H A tree index name (salts w.side) (nonces w.side) w := by
    intro sides
    induction sides with
    | nil => exact ⟨[], rfl, rfl, by simp⟩
    | cons side sides ih =>
        obtain ⟨w, b, hseal, hw⟩ := @sealSide_member H A tree leaves doc index l path (salts side)
          name side hsound hm (hsalts side) (nonces side)
        obtain ⟨writes, hmap, hsides, hall⟩ := ih
        refine ⟨w :: writes, ?_, ?_, ?_⟩
        · rw [List.mapM_cons, hseal, ok_bind, hmap, ok_bind]
          rfl
        · rw [List.map_cons, hsides, hw.filed]
        · intro v hv
          rcases List.mem_cons.mp hv with rfl | hv
          · rw [hw.filed]
            exact recovers_of_sealed hsound hm (hsalts side) (hnonces side) hw
          · exact hall v hv
  obtain ⟨writes, hmap, hsides, hall⟩ :=
    hwrites ((recoverySidesOf tree.leaves index).filter fun s => only.all (·.contains s))
  refine ⟨memberPlaintext tree index l path none (keptName tree index l path none name), writes, ?_,
    hsides, hall⟩
  rw [sealRecoveryMember, hplain, ok_bind]
  dsimp only
  rw [hmap, ok_bind]
  rfl

/-! ### Trees of any leaves -/

def zeros32 : Bytes := List.replicate 32 0

/-- The root document of a list of leaves, over a commitment of zeros. -/
def documentOf (H : HashFn) (leaves : List TreeLeaf) : Bytes :=
  TREE_DOMAIN ++ Sha256.beBytes 4 leaves.length
    ++ subtreeHash H (leafHashes H leaves) 0 leaves.length ++ zeros32

/-- The locator of a root document, at counter 0 of an epoch of zeros. -/
def locatorOf (H : HashFn) (leaves : List TreeLeaf) : RecoveryLocator :=
  ⟨bytesToBase64 zeros32, js "0", bytesToBase64 (H (documentOf H leaves))⟩

def partsOf (H : HashFn) (leaves : List TreeLeaf) : RecoveryTreeParts :=
  ⟨bytesToBase64 zeros32, locatorValue (locatorOf H leaves), documentOf H leaves,
    leaves.flatMap TreeLeaf.bytes⟩

lemma length_flatMap_bytes (hv : ∀ l ∈ leaves, l.Valid) :
    (leaves.flatMap TreeLeaf.bytes).length = leaves.length * TREE_LEAF_BYTES := by
  induction leaves with
  | nil => rfl
  | cons l leaves ih =>
      rw [List.flatMap_cons, List.length_append, ih fun m hm => hv m (by simp [hm]),
        (hv l (by simp)).length_bytes, List.length_cons]
      ring

lemma leafBytesAt_flatMap (hv : ∀ l ∈ leaves, l.Valid) {i : ℕ} (hi : i < leaves.length) :
    leafBytesAt (leaves.flatMap TreeLeaf.bytes) i = leaves[i].bytes := by
  have h65 : ∀ i, (i + 1) * TREE_LEAF_BYTES - i * TREE_LEAF_BYTES = TREE_LEAF_BYTES := by
    intro i
    rw [Nat.add_mul, one_mul, Nat.add_sub_cancel_left]
  induction leaves generalizing i with
  | nil => simp at hi
  | cons l leaves ih =>
      have hl := (hv l (by simp)).length_bytes
      cases i with
      | zero =>
          rw [leafBytesAt, slice, h65, Nat.zero_mul, List.drop_zero, List.flatMap_cons,
            List.take_left' hl]
          rfl
      | succ i =>
          have hrest := ih (fun m hm => hv m (by simp [hm])) (by simpa using hi)
          rw [leafBytesAt, slice, h65] at hrest ⊢
          rw [List.flatMap_cons, Nat.add_mul, one_mul, Nat.add_comm (i * _), ← List.drop_drop,
            List.drop_left' hl, hrest]
          rfl

/-- Any valid and ascending leaves within the limit are a tree that is accepted. -/
lemma exists_accepted (H : HashFn) (hne : leaves ≠ []) (hlen : leaves.length ≤ MAX_TREE_LEAVES)
    (hv : ∀ l ∈ leaves, l.Valid) (ha : Ascends none leaves) :
    ∃ tree, recoveryTreeFromParts H (partsOf H leaves) = .ok tree ∧ tree.count = leaves.length
      ∧ tree.locator = locatorOf H leaves ∧ tree.leaves = leaves.flatMap TreeLeaf.bytes := by
  have hmax : MAX_TREE_LEAVES = 1000000 := rfl
  have hpos : 0 < leaves.length := List.length_pos_iff.mpr hne
  have h65 : TREE_LEAF_BYTES = 65 := rfl
  have hzeros : zeros32.length = 32 := rfl
  set hashes := leafHashes H leaves with hhashes
  have hcount : hashes.length = leaves.length := by rw [hhashes, leafHashes, List.length_map]
  have hne' : hashes ≠ [] := List.length_pos_iff.mp (by omega)
  have h32 : ∀ h ∈ hashes, h.length = 32 := by
    rw [hhashes, leafHashes, List.forall_mem_map]
    exact fun l _ => H.length_apply _
  have hkeys : KeysAgree H hashes := keysAgree_of_exact hne' (by rw [hcount]; nlinarith)
  have hknown : KnownCorrect H hashes [] := by
    intro k hk
    simp at hk
  obtain ⟨t, ht, hroot, -⟩ := merkleAgrees_of_keysAgree hkeys hne' (by omega) h32 hknown
  have htroot : t.root = subtreeHash H hashes 0 leaves.length := by
    rw [merkleRoot_of_valid hne' h32, hcount] at hroot
    exact (Except.ok.inj hroot).symm
  have hrootlen : (subtreeHash H hashes 0 leaves.length).length = 32 :=
    length_subtreeHash h32 (by omega)
  have hbuild : buildTreeRootDocument zeros32 leaves.length (subtreeHash H hashes 0 leaves.length)
      = .ok (documentOf H leaves) := by
    rw [buildTreeRootDocument, if_neg (by simp [hzeros, hrootlen]), if_neg (by omega)]
    rfl
  have hdoc := parseTreeRootDocument_build hbuild
  have hlocator : parseLocator (locatorValue (locatorOf H leaves)) = some (locatorOf H leaves) := by
    refine parseLocator_of_get ⟨⟨_, base64Of32_bytesToBase64 hzeros⟩, rfl,
      ⟨_, base64Of32_bytesToBase64 (H.length_apply _)⟩⟩ rfl (sortedKeys_locatorValue _) fun k => ?_
    have hstr : ∀ v ∈ [Value.undefined, .str (locatorOf H leaves).epochId,
        .str (locatorOf H leaves).counter, .str (locatorOf H leaves).artifactDigestB64],
        v = v.canonicalForm := by
      intro v hv
      simp only [List.mem_cons, List.not_mem_nil, or_false] at hv
      rcases hv with rfl | rfl | rfl | rfl <;> rfl
    refine hstr _ ?_
    rw [locatorValue, Value.get]
    simp only [Fields.find?, List.lookup_cons, List.lookup_nil]
    split <;> [simp; split <;> [simp; split <;> simp]]
  have hdiv : (leaves.flatMap TreeLeaf.bytes).length / TREE_LEAF_BYTES = leaves.length := by
    rw [length_flatMap_bytes hv]
    exact Nat.mul_div_cancel _ (by decide)
  have hmod : (leaves.flatMap TreeLeaf.bytes).length % TREE_LEAF_BYTES = 0 := by
    rw [length_flatMap_bytes hv]
    exact Nat.mul_mod_left _ _
  have hnonzero : (leaves.flatMap TreeLeaf.bytes).length ≠ 0 := by
    rw [length_flatMap_bytes hv]
    exact Nat.mul_ne_zero (by omega) (by decide)
  have hlist : (List.range leaves.length).map (leafBytesAt (leaves.flatMap TreeLeaf.bytes))
      = leaves.map TreeLeaf.bytes := by
    refine List.ext_getElem (by simp) fun i h1 h2 => ?_
    rw [List.getElem_map, List.getElem_map, List.getElem_range]
    exact leafBytesAt_flatMap hv (by simpa using h2)
  have hrebuild : rebuildTree H hashes (subtreeHash H hashes 0 leaves.length) = .ok t := by
    rw [rebuildTree, ht, ok_bind, htroot, if_pos (bytesEqual_iff.mpr rfl)]
  refine ⟨⟨bytesToBase64 zeros32, zeros32, locatorOf H leaves, documentOf H leaves,
    bytesToHex (documentOf H leaves), leaves.length, leaves.flatMap TreeLeaf.bytes, t⟩, ?_, rfl, rfl,
    rfl⟩
  rw [recoveryTreeFromParts, partsOf]
  dsimp only
  rw [base64Of32_bytesToBase64 hzeros, hlocator, hdoc]
  dsimp only
  rw [if_neg (by simp [locatorOf]), hmod, hdiv, if_neg fun h => h.elim hnonzero fun h0 => h0 rfl, if_neg (by simp), hlist,
    checkLeaves_of_ascends hv ha, ok_bind, hrebuild]
  rfl

/-- A leaf that stands for its artifact. -/
def asIsLeaf (n : ℕ) : TreeLeaf :=
  ⟨LEAF_AS_IS, UInt8.ofNat n :: List.replicate 31 0, UInt8.ofNat n :: List.replicate 31 0⟩

/-- The tree of one leaf: its member is sealed on its side and found again. -/
theorem recovery_complete_single : ∃ tree plaintext writes,
    recoveryTreeFromParts sha256 (partsOf sha256 [asIsLeaf 0]) = .ok tree
      ∧ sealRecoveryMember sha256 aesGcm tree 0 (some (js "a.txt")) none (fun _ => none)
          (fun _ => List.replicate 12 0) = .ok (plaintext, writes)
      ∧ ∀ w ∈ writes, Recovers sha256 aesGcm tree 0 (some (js "a.txt")) none
          (List.replicate 12 0) w := by
  have hv : ∀ l ∈ [asIsLeaf 0], l.Valid := by
    intro l hl
    rw [List.mem_singleton.mp hl]
    exact checkLeaf_eq_ok.mp (by decide)
  obtain ⟨tree, htree, hcount, -⟩ := exists_accepted sha256 (by simp) (by decide) hv
    (List.isChain_singleton _)
  have hsalts : ∀ side : RecoverySide, SaltOk ((fun _ => none) side) := by
    intro side s hs
    cases hs
  obtain ⟨plaintext, writes, hseal, -, hall⟩ := recovery_complete sha256 aesGcm
    (partsOf sha256 [asIsLeaf 0]) tree htree 0 (by rw [hcount]; decide) (some (js "a.txt")) none
    (fun _ => none) hsalts (fun _ => List.replicate 12 0) fun _ => rfl
  exact ⟨tree, plaintext, writes, htree, hseal, hall⟩

/-! ### A name that is dropped -/

lemma quoteBody_ones (n : ℕ) :
    quoteBody (List.replicate n 1) = (List.replicate n [92, 117, 48, 48, 48, 49]).flatten := by
  have hone : quoteUnit 1 = [92, 117, 48, 48, 48, 49] := by decide
  induction n with
  | zero => rfl
  | succ n ih =>
      cases n with
      | zero => exact hone.trans rfl
      | succ n =>
          rw [List.replicate_succ, List.replicate_succ, quoteBody, if_neg (by decide), hone,
            ← List.replicate_succ, ih]
          rfl

lemma byteLength_quote_ones (n : ℕ) : byteLength (quote (List.replicate n 1)) = 6 * n + 2 := by
  have hascii : isAscii (quote (List.replicate n 1)) = true := by
    have hone : ∀ c ∈ ([92, 117, 48, 48, 48, 49] : Str), c.toNat < 128 := by
      intro c hc
      simp only [List.mem_cons, List.not_mem_nil, or_false] at hc
      rcases hc with rfl | rfl | rfl | rfl | rfl | rfl <;> decide
    rw [isAscii, quote, quoteBody_ones, List.all_eq_true]
    intro c hc
    simp only [List.mem_cons, List.mem_append, List.mem_flatten, List.not_mem_nil, or_false] at hc
    rw [decide_eq_true_eq]
    rcases hc with rfl | ⟨t, ht, hc⟩ | rfl
    · decide
    · rw [List.eq_of_mem_replicate ht] at hc
      exact hone c hc
    · decide
  rw [byteLength_of_isAscii hascii, quote, quoteBody_ones]
  simp [List.length_flatten]
  omega

/-- Seventeen leaves. -/
def manyLeaves : List TreeLeaf := (List.range 17).map asIsLeaf

/-- A name of 512 control characters. -/
def controlName : Str := List.replicate 512 1

/-- **A name within the limit is lost.** The first of seventeen members, sealed under a salt, does
not keep a name of 512 control characters. -/
theorem control_name_dropped :
    ¬ ∀ (parts : RecoveryTreeParts) (tree : RecoveryTree),
      recoveryTreeFromParts sha256 parts = .ok tree →
      ∀ index < tree.count, ∀ side ∈ recoverySidesOf tree.leaves index,
      ∀ (name : Str) (salt nonce : Bytes), name ≠ [] → byteLength name ≤ MAX_NAME_BYTES →
      salt.length = SALT_BYTES → nonce.length = NONCE_BYTES →
      ∃ w, sealSide sha256 aesGcm tree index (some name) side (some salt) nonce = .ok w
        ∧ ∀ address key item, recoveryAddress sha256 w.digest = .ok address →
          recoveryKeyBytes sha256 w.digest = .ok key → Lists item w.objectKey w.envelope →
          ∃ e, openListed sha256 aesGcm item w.digest address key = .ok (some e)
            ∧ e.name = some name := by
  intro hall
  have hv : ∀ l ∈ manyLeaves, l.Valid := by
    have hcheck : ∀ l ∈ manyLeaves, checkLeaf l = .ok () := by decide
    exact fun l hl => checkLeaf_eq_ok.mp (hcheck l hl)
  have hasc : Ascends none manyLeaves := by
    rw [Ascends]
    decide
  obtain ⟨tree, htree, hcount, hloc, hleaves⟩ :=
    exists_accepted sha256 (by decide) (by decide) hv hasc
  have h17 : tree.count = 17 := hcount
  obtain ⟨leaves, doc, hsound⟩ := sound_of_accepted htree
  obtain ⟨l, path, hm⟩ := @RecoveryTree.Sound.exists_member sha256 tree leaves doc hsound 0 (by omega)
  have hsalt : SaltOk (some zeros32) := by
    rintro s ⟨⟩
    rfl
  have hnonce : (List.replicate 12 0 : Bytes).length = NONCE_BYTES := rfl
  have hside : RecoverySide.asIs ∈ recoverySidesOf tree.leaves 0 := by
    have hhead : (leafBytesAt tree.leaves 0).head? = some LEAF_AS_IS := by
      rw [hleaves, leafBytesAt_flatMap hv (by decide)]
      rfl
    rw [recoverySidesOf, if_pos hhead]
    exact List.mem_singleton_self _
  have hne : controlName ≠ [] := by
    refine List.ne_nil_of_length_pos ?_
    rw [controlName, List.length_replicate]
    norm_num
  have hascii : isAscii controlName = true := by decide +kernel
  have hsize : byteLength controlName = 512 := by
    rw [byteLength_of_isAscii hascii]
    exact List.length_replicate
  obtain ⟨w, hw, hopen⟩ := hall _ tree htree 0 (by omega) .asIs hside controlName zeros32
    (List.replicate 12 0) hne (by rw [hsize]; decide) rfl rfl
  obtain ⟨w', b, hw', hsealed⟩ := @sealSide_member sha256 aesGcm tree leaves doc 0 l path
    (some zeros32) (some controlName) .asIs hsound hm hsalt (List.replicate 12 0)
  obtain rfl := Except.ok.inj (hw.symm.trans hw')
  have hd : w.digest.length = 32 := by
    rw [hsealed.digest]
    exact length_sideDigest hm.valid
  let item : Value := .obj [(js "key", .str w.objectKey),
    (js "envelope", .str (bytesToBase64 w.envelope))]
  have hitem : Lists item w.objectKey w.envelope := ⟨rfl, rfl, rfl⟩
  obtain ⟨e, he, hname⟩ := hopen _ _ item (recoveryAddress_eq hd) (recoveryKeyBytes_eq hd) hitem
  obtain ⟨e', he', -, hentry⟩ := openListed_member hsound hm hsalt hnonce hsealed hitem
  obtain rfl := Option.some.inj (Except.ok.inj (he.symm.trans he'))
  have hkept : w.plaintext.name = keptName tree 0 l path (some zeros32) (some controlName) := by
    rw [hsealed.plaintext, memberPlaintext_name]
  -- the plaintext with the name takes 4091 bytes
  have hlong : keptName tree 0 l path (some zeros32) (some controlName) = none := by
    have hclamp : clampRecoveryName (some controlName) = some controlName :=
      clampRecoveryName_of_le hne hsize.le
    have hpath : path.length = 5 := by
      rw [hm.length, h17]
      decide +kernel
    have hcounter : tree.locator.counter.length = 1 := by
      rw [hloc]
      rfl
    have hquote : byteLength (quote controlName) = 3074 := byteLength_quote_ones 512
    have hsaltSize : optionSize (js "salt") ((some zeros32).map bytesToBase64) = 54 := by
      decide
    have hnameSize : optionSize (js "name") (some controlName) = 3082 := by
      rw [optionSize, Option.elim_some, hquote]
      rfl
    have hindex : (decimal 0).length = 1 := by decide
    have hcount : (decimal 17).length = 2 := by decide
    have htext := @textSize_member sha256 tree leaves doc 0 l path (some zeros32)
      (some controlName) hsound hm
    rw [h17, hpath, hcounter, hsaltSize, hnameSize, hindex, hcount] at htext
    rw [keptName, hclamp, Option.filter_some_neg (by rw [htext]; decide)]
  rw [hentry.name, hkept, hlong] at hname
  cases hname

end Recovery

end BitGraph
