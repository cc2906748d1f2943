import BitGraph.Tree
import BitGraph.Canonical
import BitGraph.AesGcm
import BitGraph.Js.Convert

/-!
`recovery.ts`: the entries from which a file's proof is found again.

For every digest of a leaf one entry is sealed under a key, an address and a name that the
digest gives. The random nonces and salts are arguments.

* **Derivations.** `recoveryAddress`, `recoveryKeyBytes`, `recoveryEntryId`,
  `recoverySaltedEntryId`, `recoveryObjectKey`.
* **Envelope.** `sealRecoveryEnvelope` and `openWith`.
* **Plaintext.** `encodeRecoveryPlaintext`, `parseRecoveryPlaintext`, `clampRecoveryName`.
* **Trees.** `recoveryTreeFromParts` checks a list of leaves, `sealRecoveryMember` seals a member.
* **Listing.** `openListed` opens one item of a listing.
-/

namespace BitGraph

open Js

namespace Recovery

/-! ### Constants -/

def RECOVERY_FORMAT : Str := js "bitgraph-recovery/1"
def RECOVERY_PREFIX : Str := js "recovery/v1/"
def ENVELOPE_VERSION : UInt8 := 1
def NONCE_BYTES : ℕ := 12
def TAG_BYTES : ℕ := 16
def ENVELOPE_OVERHEAD : ℕ := 1 + NONCE_BYTES + TAG_BYTES
def MAX_ENVELOPE_BYTES : ℕ := 4096
def MIN_ENVELOPE_BYTES : ℕ := ENVELOPE_OVERHEAD + 1
def MAX_PLAINTEXT_BYTES : ℕ := MAX_ENVELOPE_BYTES - ENVELOPE_OVERHEAD
def MAX_NAME_BYTES : ℕ := 512
def SALT_BYTES : ℕ := 32

def LOOKUP_LABEL : Bytes := utf8Encode (js "bitgraph-lookup")
def ENTRY_LABEL : Bytes := utf8Encode (js "bitgraph-lookup-entry")
def SALTED_ENTRY_LABEL : Bytes := utf8Encode (js "bitgraph-lookup-entry/salted")
def KEY_LABEL : Bytes := utf8Encode (js "bitgraph-lookup-key")

/-- `ADDRESS_PATTERN` and `ENTRY_ID_PATTERN`. -/
def isHex64 (s : Str) : Bool := s.length == 64 && s.all isLowerHex

/-- `OBJECT_KEY_PATTERN`. -/
def isObjectKey (key : Str) : Bool :=
  key.take 12 == RECOVERY_PREFIX && isHex64 (slice key 12 76) && slice key 76 77 == js "/"
    && isHex64 (key.drop 77)

/-- `COUNTER_PATTERN`: decimal, no leading zero, at most 20 digits. -/
def isCounter : Str → Bool
  | [48] => true
  | c :: s => isDigit c && c != 48 && s.length ≤ 19 && s.all isDigit
  | [] => false

/-- A `RecoveryInputError`. -/
def inputError (message : Str) : Thrown := error message

/-- A `RecoveryUnavailableError`. -/
def unavailable (place : Str) : Thrown := error (js "recovery read failed (" ++ place ++ js ")")

/-! ### Derivations -/

section Derivations

variable (H : HashFn)

def checkDigest (digest32 : Bytes) (what : Str) : Except Thrown Unit :=
  if digest32.length ≠ 32 then .error (typeError (what ++ js " is the raw 32-byte SHA-256"))
  else .ok ()

/-- The public folder of a file's entries. -/
def recoveryAddress (digest32 : Bytes) : Except Thrown Str := do
  checkDigest digest32 (js "a digest")
  return bytesToHex (H (LOOKUP_LABEL ++ digest32))

/-- The key the entries under a digest are sealed with. -/
def recoveryKeyBytes (digest32 : Bytes) : Except Thrown Bytes := do
  checkDigest digest32 (js "a digest")
  return H (KEY_LABEL ++ digest32)

/-- An index as four big-endian bytes. -/
def indexBytes (leafIndex : ℕ) : Except Thrown Bytes :=
  if 0xffffffff < leafIndex then .error (rangeError (js "a leaf index is a u32"))
  else .ok (Sha256.beBytes 4 leafIndex)

/-- The name of an entry inside its address. -/
def recoveryEntryId (digest32 proofHash32 : Bytes) (leafIndex : ℕ) : Except Thrown Str := do
  checkDigest digest32 (js "a digest")
  checkDigest proofHash32 (js "a proof hash")
  let index ← indexBytes leafIndex
  return bytesToHex (H (ENTRY_LABEL ++ digest32 ++ proofHash32 ++ index))

/-- The name of an entry whose deterministic name is held. -/
def recoverySaltedEntryId (digest32 proofHash32 : Bytes) (leafIndex : ℕ) (salt32 : Bytes) :
    Except Thrown Str := do
  checkDigest digest32 (js "a digest")
  checkDigest proofHash32 (js "a proof hash")
  if salt32.length ≠ SALT_BYTES then
    .error (typeError (js "a salt is " ++ decimal SALT_BYTES ++ js " bytes"))
  else do
    let index ← indexBytes leafIndex
    return bytesToHex (H (SALTED_ENTRY_LABEL ++ digest32 ++ proofHash32 ++ index ++ salt32))

def recoveryObjectKey (address entryId : Str) : Except Thrown Str :=
  if !isHex64 address || !isHex64 entryId then
    .error (typeError (js "an address and an entry id are 64 lowercase hex characters"))
  else .ok (RECOVERY_PREFIX ++ address ++ js "/" ++ entryId)

/-- The address and the entry id of an object key. -/
def parseRecoveryObjectKey (key : Str) : Option (Str × Str) :=
  if isObjectKey key then some (slice key 12 76, key.drop 77) else none

end Derivations

/-! ### The envelope -/

section Envelope

variable (A : Aead)

def importKey (keyBytes : Bytes) : Except Thrown Bytes :=
  if keyBytes.length ≠ 32 then .error (typeError (js "an AES-256 key is 32 bytes")) else .ok keyBytes

/-- The version byte, the nonce, and the plaintext encrypted for the object key. -/
def sealRecoveryEnvelope (keyBytes : Bytes) (objectKey : Str) (plaintext nonce : Bytes) :
    Except Thrown Bytes :=
  if !isObjectKey objectKey then .error (typeError (js "not a recovery object key"))
  else if plaintext.length = 0 ∨ MAX_PLAINTEXT_BYTES < plaintext.length then
    .error (rangeError (js "a plaintext is 1 to " ++ decimal MAX_PLAINTEXT_BYTES ++ js " bytes"))
  else do
    let key ← importKey keyBytes
    return ENVELOPE_VERSION :: (nonce ++ A.encrypt key nonce (utf8Encode objectKey) plaintext)

/-- The plaintext, where the envelope is version 1 and opens under the key at the object key. -/
def openWith (key : Bytes) (objectKey : Str) (envelope : Bytes) : Option Bytes :=
  if envelope.length < MIN_ENVELOPE_BYTES ∨ MAX_ENVELOPE_BYTES < envelope.length
      ∨ envelope.head? ≠ some ENVELOPE_VERSION then none
  else
    A.decrypt key (slice envelope 1 (1 + NONCE_BYTES)) (utf8Encode objectKey)
      (envelope.drop (1 + NONCE_BYTES))

end Envelope

/-! ### The plaintext -/

/-- Where the proof is. -/
structure RecoveryLocator where
  epochId : Str
  counter : Str
  artifactDigestB64 : Str
  deriving DecidableEq

structure RecoveryPlaintext where
  proofHash : Str
  leafIndex : ℕ
  rootDocument : Str
  member : TreeMemberEvidence
  proof : RecoveryLocator
  salt : Option Str
  name : Option Str
  deriving DecidableEq

def locatorValue (p : RecoveryLocator) : Value :=
  .obj [(js "epochId", .str p.epochId), (js "counter", .str p.counter),
    (js "artifactDigestB64", .str p.artifactDigestB64)]

/-- The plaintext as a value, its members in the order they are written. -/
def plaintextValue (p : RecoveryPlaintext) : Value :=
  .obj ([(js "format", .str RECOVERY_FORMAT), (js "proofHash", .str p.proofHash),
      (js "leafIndex", .num (Number.ofNat p.leafIndex)), (js "rootDocument", .str p.rootDocument),
      (js "member", evidenceValue p.member), (js "proof", locatorValue p.proof)]
    ++ (p.salt.toList.map fun s => (js "salt", .str s))
    ++ (p.name.toList.map fun s => (js "name", .str s)))

/-- The canonical bytes. -/
def encodeRecoveryPlaintext (p : RecoveryPlaintext) : Except Thrown Bytes :=
  canonicalize (plaintextValue p)

/-- Canonical base64 of 32 bytes. -/
def base64Of32 (s : Str) : Option Bytes := (base64ToBytes s).filter fun b => b.length = 32

def parseLocator (v : Value) : Option RecoveryLocator :=
  if isRecord v = false ∨ v.sortedKeys ≠ js "artifactDigestB64,counter,epochId" then none
  else
    match v.get (js "epochId"), v.get (js "counter"), v.get (js "artifactDigestB64") with
    | .str epochId, .str counter, .str artifactDigestB64 =>
        if (base64Of32 epochId).isNone then none
        else if !isCounter counter then none
        else if (base64Of32 artifactDigestB64).isNone then none
        else some ⟨epochId, counter, artifactDigestB64⟩
    | _, _, _ => none

def PLAINTEXT_KEYS : Str := js "format,leafIndex,member,proof,proofHash,rootDocument"
def PLAINTEXT_KEYS_NAMED : Str := js "format,leafIndex,member,name,proof,proofHash,rootDocument"
def PLAINTEXT_KEYS_SALTED : Str := js "format,leafIndex,member,proof,proofHash,rootDocument,salt"
def PLAINTEXT_KEYS_SALTED_NAMED : Str :=
  js "format,leafIndex,member,name,proof,proofHash,rootDocument,salt"

/-- The salt of a plaintext: none, or the base64 of 32 bytes. -/
def parseSalt (v : Value) : Option (Option Str) :=
  if js "salt" ∉ v.keys then some none
  else
    match v.get (js "salt") with
    | .str salt => if (base64Of32 salt).isNone then none else some (some salt)
    | _ => none

/-- The name of a plaintext: none, or a text within the limit. -/
def parseName (v : Value) : Option (Option Str) :=
  if js "name" ∉ v.keys then some none
  else
    match v.get (js "name") with
    | .str name =>
        if name = [] ∨ MAX_NAME_BYTES < (utf8Encode name).length then none else some (some name)
    | _ => none

/-- The evidence as it stands in a value that was read as evidence. -/
def evidenceOf (v : Value) (ev : ParsedEvidence) : TreeMemberEvidence :=
  { index := ev.index
    count := ev.count
    leaf := (v.get (js "leaf")).toText.getD []
    path := (textsOf (v.get (js "path"))).getD [] }

/-- Every check of a parsed plaintext. A leaf that was decoded has a hash, so `toOption` drops no
exception. -/
def readPlaintext (H : HashFn) (v : Value) : Option RecoveryPlaintext :=
  if isRecord v = false then none
  else if v.sortedKeys ∉ [PLAINTEXT_KEYS, PLAINTEXT_KEYS_NAMED, PLAINTEXT_KEYS_SALTED,
      PLAINTEXT_KEYS_SALTED_NAMED] then none
  else if v.get (js "format") ≠ .str RECOVERY_FORMAT then none
  else
    match v.get (js "proofHash"), v.get (js "rootDocument"), v.get (js "leafIndex") with
    | .str proofHash, .str rootDocument, .num leafIndex => do
        let _ ← base64Of32 proofHash
        let docBytes ← hexToBytes rootDocument
        let doc ← parseTreeRootDocument docBytes
        let ev ← parseTreeMemberEvidence (v.get (js "member"))
        if leafIndex.toInt? ≠ some (ev.index : ℤ) ∨ ev.count ≠ doc.count then none
        else do
          let reached ← (treeRootFromMember H ev.leaf ev.index ev.count ev.path).toOption
          if reached.all fun r => !bytesEqual r doc.root then none
          else do
            let proof ← parseLocator (v.get (js "proof"))
            if proof.artifactDigestB64 ≠ bytesToBase64 (H docBytes) then none
            else do
              let salt ← parseSalt v
              let name ← parseName v
              some ⟨proofHash, ev.index, rootDocument, evidenceOf (v.get (js "member")) ev, proof,
                salt, name⟩
    | _, _, _ => none

def parseRecoveryPlaintext (H : HashFn) (bytes : Bytes) : Option RecoveryPlaintext := do
  readPlaintext H (← parse (← decodeFatal bytes))

/-- The entry id a plaintext derives for a digest. -/
def recoveryEntryIdOf (H : HashFn) (digest32 : Bytes) (p : RecoveryPlaintext) : Except Thrown Str :=
  let proofHash32 := (base64ToBytes p.proofHash).getD []
  match p.salt with
  | some salt =>
      recoverySaltedEntryId H digest32 proofHash32 p.leafIndex ((base64ToBytes salt).getD [])
  | none => recoveryEntryId H digest32 proofHash32 p.leafIndex

/-- The same member of the same recording; salt and name are left out. -/
def sameRecoveryMember (a b : RecoveryPlaintext) : Bool :=
  a.proofHash == b.proofHash && a.leafIndex == b.leafIndex && a.rootDocument == b.rootDocument
    && a.member == b.member && a.proof == b.proof

/-! ### Names -/

/-- `Array.from`: the code points of a text. -/
def codePoints : Str → List Str
  | [] => []
  | [c] => [[c]]
  | c :: d :: s =>
      if isHigh c && isLow d then [c, d] :: codePoints s else [c] :: codePoints (d :: s)

/-- What fits the budget of a list of code points, in order; `used` bytes are spent. -/
def fitting (budget : ℕ) : ℕ → List Str → List Str
  | _, [] => []
  | used, p :: ps =>
      if budget < used + (utf8Encode p).length then []
      else p :: fitting budget (used + (utf8Encode p).length) ps

/-- A long name keeps its tail behind an ellipsis. -/
def clampRecoveryName (name : Option Str) : Option Str :=
  match name with
  | none | some [] => none
  | some name =>
      if (utf8Encode name).length ≤ MAX_NAME_BYTES then some name
      else
        let budget := MAX_NAME_BYTES - (utf8Encode (js "…")).length
        some (js "…" ++ (fitting budget 0 (codePoints name).reverse).reverse.flatten)

/-! ### A tree ready to seal -/

structure RecoveryTreeParts where
  proofHash : Str
  locator : Value
  rootDocument : Bytes
  leaves : Bytes

structure RecoveryTree where
  proofHash : Str
  proofHash32 : Bytes
  locator : RecoveryLocator
  rootDocument : Bytes
  rootDocumentHex : Str
  count : ℕ
  leaves : Bytes
  tree : MerkleTree

/-- The first difference, or the difference of the lengths. -/
def compareBytes : Bytes → Bytes → ℤ
  | x :: a, y :: b => if x ≠ y then (x.toNat : ℤ) - y.toNat else compareBytes a b
  | a, b => (a.length : ℤ) - b.length

/-- Leaf `index` of the list. -/
def leafBytesAt (leaves : Bytes) (index : ℕ) : Bytes :=
  slice leaves (index * TREE_LEAF_BYTES) ((index + 1) * TREE_LEAF_BYTES)

/-- The artifact of leaf `i` comes after the one before. -/
def checkOrder (i : ℕ) (previous : Option Bytes) (artifact : Bytes) : Except Thrown Unit :=
  match previous with
  | none => .ok ()
  | some previous =>
      if compareBytes previous artifact = 0 then
        .error (inputError (js "duplicate artifact digest at leaves " ++ decimal (i - 1)
          ++ js " and " ++ decimal i))
      else if 0 < compareBytes previous artifact then
        .error (inputError (js "leaves " ++ decimal (i - 1) ++ js " and " ++ decimal i
          ++ js " are out of order"))
      else .ok ()

/-- The leaves from `i` on, valid and ascending by artifact; gives their hashes. -/
def checkLeaves (H : HashFn) (i : ℕ) (previous : Option Bytes) : List Bytes → Except Thrown (List Bytes)
  | [] => .ok []
  | bytes :: rest =>
      if (decodeTreeLeaf bytes).isNone then
        .error (inputError (js "leaf " ++ decimal i ++ js " is not a valid tree/1 leaf"))
      else do
        checkOrder i previous (slice bytes 1 33)
        let hashes ← checkLeaves H (i + 1) (some (slice bytes 1 33)) rest
        return merkleLeafHash H bytes :: hashes

/-- The rebuilt tree, where it has the root of the document. -/
def rebuildTree (H : HashFn) (hashes : List Bytes) (root : Bytes) : Except Thrown MerkleTree := do
  let tree ← MerkleTree.new H hashes []
  if bytesEqual tree.root root then .ok tree
  else .error (inputError (js "the leaves do not rebuild the committed root"))

def recoveryTreeFromParts (H : HashFn) (parts : RecoveryTreeParts) : Except Thrown RecoveryTree :=
  match base64Of32 parts.proofHash, parseLocator parts.locator,
      parseTreeRootDocument parts.rootDocument with
  | none, _, _ => .error (inputError (js "the proof hash is not the base64 of 32 bytes"))
  | _, none, _ =>
      .error (inputError (js "the locator is not \x7b epochId, counter, artifactDigestB64 \x7d"))
  | _, _, none => .error (inputError (js "the root document is not 84 bytes of tree/1"))
  | some proofHash32, some locator, some doc =>
      if bytesToBase64 (H parts.rootDocument) ≠ locator.artifactDigestB64 then
        .error (inputError (js "the root document does not hash to the proof's artifact digest"))
      else if parts.leaves.length = 0 ∨ parts.leaves.length % TREE_LEAF_BYTES ≠ 0 then
        .error (inputError (js "the leaves are not a whole number of 65-byte leaves"))
      else
        let count := parts.leaves.length / TREE_LEAF_BYTES
        if count ≠ doc.count then
          .error (inputError (js "the list holds " ++ decimal count
            ++ js " leaves; the root document states " ++ decimal doc.count))
        else do
          let hashes ← checkLeaves H 0 none ((List.range count).map (leafBytesAt parts.leaves))
          let tree ← rebuildTree H hashes doc.root
          return ⟨parts.proofHash, proofHash32, locator, parts.rootDocument,
            bytesToHex parts.rootDocument, count, parts.leaves, tree⟩

/-- The plaintext of a member without a name. -/
def basePlaintext (H : HashFn) (tree : RecoveryTree) (index : ℕ) (salt : Option Bytes) :
    Except Thrown RecoveryPlaintext :=
  if tree.count ≤ index then .error (rangeError (js "member index out of range"))
  else
    match decodeTreeLeaf (leafBytesAt tree.leaves index) with
    | none => .error (inputError (js "leaf " ++ decimal index ++ js " is not a valid tree/1 leaf"))
    | some leaf =>
        if salt.any fun s => s.length != SALT_BYTES then
          .error (typeError (js "a salt is " ++ decimal SALT_BYTES ++ js " bytes"))
        else do
          let (path, _) ← tree.tree.path H (Number.ofNat index)
          let member ← buildTreeMemberEvidence leaf index tree.count path
          return ⟨tree.proofHash, index, tree.rootDocumentHex, member, tree.locator,
            salt.map bytesToBase64, none⟩

/-- A plaintext and its bytes, where they are within the limit. -/
def withinLimit (index : ℕ) (p : RecoveryPlaintext) : Except Thrown (RecoveryPlaintext × Bytes) := do
  let bytes ← encodeRecoveryPlaintext p
  if MAX_PLAINTEXT_BYTES < bytes.length then
    .error (inputError (js "member " ++ decimal index ++ js "'s plaintext is "
      ++ decimal bytes.length ++ js " bytes, over " ++ decimal MAX_PLAINTEXT_BYTES))
  else .ok (p, bytes)

/-- The plaintext of a member and its bytes; a name that makes it too long is dropped. -/
def recoveryPlaintextFor (H : HashFn) (tree : RecoveryTree) (index : ℕ) (name : Option Str)
    (salt : Option Bytes) : Except Thrown (RecoveryPlaintext × Bytes) := do
  let base ← basePlaintext H tree index salt
  match clampRecoveryName name with
  | none => withinLimit index base
  | some clamped => do
      let named := { base with name := some clamped }
      let bytes ← encodeRecoveryPlaintext named
      if bytes.length ≤ MAX_PLAINTEXT_BYTES then .ok (named, bytes) else withinLimit index base

/-! ### Sealing a member -/

/-- Which of a leaf's digests an entry is filed under. -/
inductive RecoverySide where
  | origin
  | artifact
  | asIs
  deriving DecidableEq

structure RecoveryWrite where
  side : RecoverySide
  digest : Bytes
  objectKey : Str
  envelope : Bytes
  deterministicKey : Str
  salted : Bool
  plaintext : RecoveryPlaintext

/-- The sides a member is filed under. -/
def recoverySidesOf (leaves : Bytes) (index : ℕ) : List RecoverySide :=
  if (leafBytesAt leaves index).head? = some LEAF_AS_IS then [.asIs] else [.origin, .artifact]

/-- The digest a side is filed under. -/
def recoveryDigestOf (leaves : Bytes) (index : ℕ) (side : RecoverySide) : Bytes :=
  let leaf := leafBytesAt leaves index
  if side = .artifact then slice leaf 1 33 else slice leaf 33 65

/-- The entry id of a member under a digest, salted where a salt is given. -/
def sideEntryId (H : HashFn) (tree : RecoveryTree) (index : ℕ) (digest : Bytes) :
    Option Bytes → Except Thrown Str
  | some salt => recoverySaltedEntryId H digest tree.proofHash32 index salt
  | none => recoveryEntryId H digest tree.proofHash32 index

/-- The object key of a side, salted where a salt is given. -/
def recoveryObjectKeyFor (H : HashFn) (tree : RecoveryTree) (index : ℕ) (side : RecoverySide)
    (salt : Option Bytes) : Except Thrown Str := do
  let id ← sideEntryId H tree index (recoveryDigestOf tree.leaves index side) salt
  let address ← recoveryAddress H (recoveryDigestOf tree.leaves index side)
  recoveryObjectKey address id

/-- The entry of one side. -/
def sealSide (H : HashFn) (A : Aead) (tree : RecoveryTree) (index : ℕ) (name : Option Str)
    (side : RecoverySide) (salt : Option Bytes) (nonce : Bytes) : Except Thrown RecoveryWrite := do
  let digest := recoveryDigestOf tree.leaves index side
  let deterministicKey ← recoveryObjectKeyFor H tree index side none
  let objectKey ← recoveryObjectKeyFor H tree index side salt
  let (plaintext, bytes) ← recoveryPlaintextFor H tree index name salt
  let envelope ← sealRecoveryEnvelope A (← recoveryKeyBytes H digest) objectKey bytes nonce
  return ⟨side, digest, objectKey, envelope, deterministicKey, salt.isSome, plaintext⟩

/-- The unsalted plaintext of a member and the entries of the sides asked for. -/
def sealRecoveryMember (H : HashFn) (A : Aead) (tree : RecoveryTree) (index : ℕ) (name : Option Str)
    (only : Option (List RecoverySide)) (salts : RecoverySide → Option Bytes)
    (nonces : RecoverySide → Bytes) : Except Thrown (RecoveryPlaintext × List RecoveryWrite) := do
  let (plaintext, _) ← recoveryPlaintextFor H tree index name none
  let sides := (recoverySidesOf tree.leaves index).filter fun s => only.all (·.contains s)
  let writes ← sides.mapM fun side => sealSide H A tree index name side (salts side) (nonces side)
  return (plaintext, writes)

/-! ### Listing -/

structure RecoveredEntry where
  objectKey : Str
  entryId : Str
  salted : Bool
  salt : Option Str
  matched : RecoverySide
  proofHash : Str
  leafIndex : ℕ
  rootDocument : Str
  member : TreeMemberEvidence
  proof : RecoveryLocator
  name : Option Str
  deriving DecidableEq

/-- The entry of a plaintext whose leaf names the digest. -/
def recoveredEntry (digest32 : Bytes) (objectKey entryId : Str) (p : RecoveryPlaintext) :
    Option RecoveredEntry := do
  let leaf ← (hexToBytes p.member.leaf).bind decodeTreeLeaf
  let isOrigin := bytesEqual leaf.origin digest32
  let matched : RecoverySide :=
    if leaf.placement = LEAF_AS_IS then .asIs else if isOrigin then .origin else .artifact
  if !bytesEqual leaf.artifact digest32 && !isOrigin then none
  else some ⟨objectKey, entryId, p.salt.isSome, p.salt, matched, p.proofHash, p.leafIndex,
    p.rootDocument, p.member, p.proof, p.name⟩

/-- A listed item: the entry it opens to, or none. An item of the wrong shape throws. -/
def openListed (H : HashFn) (A : Aead) (item : Value) (digest32 : Bytes) (address : Str)
    (key : Bytes) : Except Thrown (Option RecoveredEntry) :=
  match isRecord item, item.get (js "key"), item.get (js "envelope") with
  | true, .str objectKey, .str envelopeB64 =>
      match (parseRecoveryObjectKey objectKey).filter fun k => k.1 = address with
      | none => .error (unavailable (js "a listed entry's key is not under this address"))
      | some parsedKey =>
          match base64ToBytes envelopeB64 with
          | none => .error (unavailable (js "a listed entry's envelope is not canonical base64"))
          | some envelope =>
              match (openWith A key objectKey envelope).bind (parseRecoveryPlaintext H) with
              | none => .ok none
              | some p => do
                  let entryId ← recoveryEntryIdOf H digest32 p
                  .ok (if entryId ≠ parsedKey.2 then none
                    else recoveredEntry digest32 objectKey parsedKey.2 p)
  | _, _, _ => .error (unavailable (js "a listed entry is not \x7b key, envelope \x7d"))

end Recovery

end BitGraph
