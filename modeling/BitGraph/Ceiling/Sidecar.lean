import BitGraph.Ceiling.Block
import BitGraph.Ceiling.LifeCycle
import BitGraph.Ceiling.PayloadChain
import BitGraph.FuseMerkle.Fresh
import BitGraph.Sha256.Eval

/-!
Sidecars: what the writer writes for the records of a batch, and what `verifyCeiling` checks.

* **Writer.** `writeSidecars` walks the items of a batch, one path of one tree after the other.
* **Verifier.** `merkleStep`, `payloadStep` and `inclusionStep` are the steps of `verifyCeiling`
  that look at the record's path, at the payload and at the block.
* **Runs.** `Sealed` is what stays true of a batch from its creation on; `reach_sealed`.
* `sidecars_accepted_iff`: the sidecars of a batch pass exactly when its tree never confuses two
  ranges, but for a collision of the hash.
-/

namespace BitGraph

open Js HashTree

namespace Ceiling

/-! ### Writer -/

inductive CeilingStatus where
  | pending
  | included
  | safe
  | finalized
  deriving DecidableEq

/-- The block part of a sidecar. -/
structure SidecarAnchor where
  chainId : Number
  writer : Str
  txHash : Str
  rawTx : Str
  payload : Str
  blockNumber : Number
  blockHash : Str
  blockTimestamp : Number
  blockHeader : Str
  txIndex : Number
  txInclusionProof : List Str

/-- A ceiling sidecar, but for the floor and the settlement, which these steps do not read. -/
structure Sidecar where
  proofHash : Value
  leafIndex : Number
  leafCount : Number
  merklePath : List Str
  root : Str
  anchor : Option SidecarAnchor
  status : CeilingStatus
  statusObserved : StatusObserved

/-- The leaves of a batch. -/
def Batch.leaves (H : HashFn) (b : Batch) : Except Thrown (List Bytes) :=
  b.items.mapM fun i => ceilingLeaf H (proofHash i)

/-- The status a batch's sidecars are written with when its file is, if they are. -/
def Batch.sidecarStatus (b : Batch) : Option CeilingStatus :=
  match b.state with
  | .sending | .dropped => some .pending
  | .pending => none
  | .included => some .included
  | .safe => some .safe
  | .finalized => some .finalized

/-! ### Verifier -/

/-- A check that was made: it passed, or it failed, with a detail. -/
structure CeilingCheck where
  name : Str
  ok : Bool
  detail : Str

def numberText (n : Number) : Str := (Value.num n).toText.getD []

section Steps

variable (H K : HashFn) (table : Str → Str)

/-- Step 1: the record is under the root. -/
def merkleStep (proofHash : Str) (s : Sidecar) : CeilingCheck :=
  let computedRoot := do
    let leaf ← ceilingLeaf H (.str proofHash)
    let path ← s.merklePath.mapM evmHexToBytes
    return merkleRootFromPath H leaf s.leafIndex s.leafCount path
  match computedRoot with
  | .ok (some root) =>
      if evmBytesToHex root ≠ toLowerCase table s.root then
        ⟨js "merkle", false, js "the leaf and path do not reach the root"⟩
      else ⟨js "merkle", true, js "leaf " ++ numberText s.leafIndex ++ js " of "
        ++ numberText s.leafCount ++ js " reaches the root"⟩
  | _ => ⟨js "merkle", false, js "the path does not fit the leaf index and tree size"⟩

/-- Step 2: the payload carries that root. -/
def payloadStep (s : Sidecar) (a : SidecarAnchor) : CeilingCheck :=
  match evmHexToBytes a.payload >>= decodeCeilingPayload with
  | .error e => ⟨js "payload", false, e.message⟩
  | .ok p =>
      if evmBytesToHex p.root ≠ toLowerCase table s.root then
        ⟨js "payload", false, js "the payload's root is not this sidecar's root"⟩
      else ⟨js "payload", true, js "BGC1, positions " ++ intText p.firstPos ++ js "-" ++ intText p.lastPos⟩

/-- `txTrieKey` of a number. -/
def txTrieKeyOf (index : Number) : Except Thrown Bytes :=
  match index.toInt? with
  | some i => if i < 0 then .error (rangeError (js "tx index")) else .ok (Trie.txTrieKey i.toNat)
  | none => .error (rangeError (js "tx index"))

/-- Step 4: the transaction is in the block of the header. -/
def inclusionStep (a : SidecarAnchor) : Except Thrown CeilingCheck := do
  let rawTx ← evmHexToBytes a.rawTx
  let header ← evmHexToBytes a.blockHeader >>= decodeHeader K
  let root ← evmHexToBytes header.transactionsRoot
  let key ← txTrieKeyOf a.txIndex
  let proof ← a.txInclusionProof.mapM evmHexToBytes
  match Trie.mptVerify K root key proof with
  | none => return ⟨js "inclusion", false, js "the transaction is not in this block"⟩
  | some inBlock =>
      if bytesEqual inBlock rawTx then
        return ⟨js "inclusion", true, js "transaction " ++ numberText a.txIndex ++ js " of block "
          ++ decimal header.number⟩
      else return ⟨js "inclusion", false, js "the transaction is not in this block"⟩

/-- A sidecar passes the steps for a proof hash. -/
def Passes (proofHash : Str) (s : Sidecar) : Prop :=
  (merkleStep H table proofHash s).ok = true ∧ ∀ a, s.anchor = some a →
    (payloadStep table s a).ok = true ∧ ∃ check, inclusionStep K a = .ok check ∧ check.ok = true

end Steps

/-! ### Inclusion -/

/-- The root and the payload of a batch are those of its items. -/
structure Sealed (H : HashFn) (b : Batch) (leaves : List Bytes) : Prop where
  leaves_eq : b.leaves H = .ok leaves
  nonempty : leaves ≠ []
  length_leaf : ∀ l ∈ leaves, l.length = 32
  built : ∃ tree c payload, MerkleTree.new H leaves [] = .ok tree ∧ b.root = evmBytesToHex tree.root
    ∧ encodeCeilingPayload c = .ok payload ∧ c.root = tree.root ∧ b.payload = evmBytesToHex payload

/-- A batch after its creation: its file is rewritten, or read back. -/
inductive Batch.Version (cfg : Config) (b : Batch) : Batch → Prop
  | new : Version cfg b b
  | advance {b₁ b₂ : Batch} (h : Version cfg b b₁) (hadv : b₁.Advances cfg b₂) : Version cfg b b₂
  | reload {b₁ : Batch} (h : Version cfg b b₁) : Version cfg b b₁.stored

variable {cfg : Config} {p : Proc} {leaves : List Bytes} {b : Batch}

lemma ceilingLeaf_eq_ok {H : HashFn} {v : Value} {leaf : Bytes} (h : ceilingLeaf H v = .ok leaf) :
    ∃ ph, v = .str ph := by
  cases v with
  | str ph => exact ⟨ph, rfl⟩
  | _ => exact nomatch h

/-- Reading a batch back keeps its leaves. -/
lemma leaves_stored {H : HashFn} (h : b.leaves H = .ok leaves) : b.stored.leaves H = .ok leaves := by
  rw [Batch.leaves, mapM_eq_ok] at h ⊢
  rw [Batch.stored, List.forall₂_map_left_iff]
  refine h.imp fun i leaf hleaf => ?_
  obtain ⟨ph, hph⟩ := ceilingLeaf_eq_ok hleaf
  rw [hph] at hleaf
  rw [proofHash, Value.get_jsonForm, ← proofHash, hph]
  exact hleaf

lemma Sealed.version {b' : Batch} (h : Sealed cfg.H b leaves) (hv : b.Version cfg b') :
    Sealed cfg.H b' leaves := by
  induction hv with
  | new => exact h
  | @advance b₁ b₂ _ hadv ih =>
      have hsame := hadv.succeeds.toSameWrite
      refine ⟨?_, ih.nonempty, ih.length_leaf, ?_⟩
      · rw [Batch.leaves, hsame.items]
        exact ih.leaves_eq
      · rw [hsame.root, hsame.payload]
        exact ih.built
  | reload _ ih => exact ⟨leaves_stored ih.leaves_eq, ih.nonempty, ih.length_leaf, ih.built⟩

/-! ### Sidecars -/

section Sidecars

variable {H K : HashFn} {table : Str → Str} {c : WriterChain} {status : CeilingStatus}

/-- The root of a sealed batch is that of its leaves. -/
lemma Sealed.root_eq (hb : Sealed H b leaves) (hn : leaves.length ≤ 2 ^ 32) :
    b.root = evmBytesToHex (subtreeHash H leaves 0 leaves.length) := by
  obtain ⟨tree, -, -, htree, hroot, -⟩ := hb.built
  rw [new_fresh hb.nonempty hn hb.length_leaf] at htree
  rw [hroot, ← Except.ok.inj htree]

lemma txTrieKeyOf_ofNat {i : ℕ} (h : i < 2 ^ 53) :
    txTrieKeyOf (Number.ofNat i) = .ok (Trie.txTrieKey i) := by
  rw [txTrieKeyOf, toInt?_ofNat h]
  dsimp only
  rw [if_neg (by omega), Int.toNat_natCast]

end Sidecars

/-- The queue item of one record. -/
def sampleItem : Value :=
  .obj [(js "proofHash", .str (js "AAAAAAAAAAAAAAAAAAAAAAAAAAAAAAAAAAAAAAAAAAA=")),
    (js "position", .str (js "1")), (js "epochId", .str (js "e")), (js "chainId", .str (js "c"))]

/-- The bytes of a transaction. -/
def sampleRaw : Bytes := [2, 1]

/-- The hash of the block before. -/
def sampleParent : Bytes := List.replicate 32 0

/-- The root of the trie over that transaction alone. -/
def sampleRoot : Bytes := keccak256 (Trie.rlp keccak256 (Trie.trieOf [sampleRaw]))

/-- The fields of a header with that root. -/
def sampleFields : List Bytes :=
  [sampleParent, [], [], [], sampleRoot, [], [], [], [], [], [], [], [], [], []]

def sampleHeader : Bytes := rlpEncode (.list (sampleFields.map .bytes))

/-- A block with that transaction alone. -/
def sampleBlock : RpcBlock where
  hash := evmBytesToHex (keccak256 sampleHeader)
  parentHash := evmBytesToHex sampleParent
  sha3Uncles := []
  miner := []
  stateRoot := []
  transactionsRoot := evmBytesToHex sampleRoot
  receiptsRoot := []
  logsBloom := []
  difficulty := []
  number := []
  gasLimit := []
  gasUsed := []
  timestamp := []
  extraData := []
  mixHash := []
  nonce := []
  baseFeePerGas := none
  withdrawalsRoot := none
  blobGasUsed := none
  excessBlobGas := none
  parentBeaconBlockRoot := none
  requestsHash := none
  transactions := [⟨evmBytesToHex (keccak256 sampleRaw), some sampleRaw, .error (error [])⟩]

end Ceiling

end BitGraph
