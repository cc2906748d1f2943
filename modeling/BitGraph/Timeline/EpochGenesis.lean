import BitGraph.Timeline.BlockRead

/-!
`epoch-genesis.ts`: an epoch opens with a write to Base.

* **The record.** `parseEpochGenesisFile` reads the record of the mined transaction.
* **The check.** `checkEpochGenesis` compares it with its proof and, when they are given, with the
  transaction and the block a node reports.
* **On Base.** `checkEpochGenesis_ok`: a record that passes is of the proof's digest and epoch;
  `onBase_of_reasons`: a transaction and a block it passes with are the ones it names.
-/

namespace BitGraph

open Js

namespace EpochGenesis

open BlockRead (count? isHexOf)

def epochGenesisFormat : Str := js "bitgraph-epoch-genesis/1"

/-! ### The record -/

structure EpochGenesisFile where
  epochId : Str
  chainId : ℕ
  writer : Str
  txHash : Str
  blockNumber : ℕ
  blockHash : Str
  blockTimestamp : ℕ
  note : Str

/-- `b64ToBytes`: padded base64, whatever its last bits. -/
def b64ToBytes (s : Str) : Option Bytes :=
  if s.length % 4 ≠ 0 ∨ b64Pattern s = false then none
  else some ((b64Groups s).take (s.length / 4 * 3 - b64Pad s))

/-- `CHAIN_NAMES`. -/
def chainName : ℕ → Option Str
  | 8453 => some (js "base-mainnet")
  | 84532 => some (js "base-sepolia")
  | _ => none

def parseEpochGenesisFile (text : Str) : Option EpochGenesisFile := do
  let o ← parse text
  if o.get (js "format") ≠ .str epochGenesisFormat then none
  match o.get (js "epochId"), o.get (js "writer"), o.get (js "txHash"), o.get (js "blockHash") with
  | .str epochId, .str writer, .str txHash, .str blockHash =>
    if (b64ToBytes epochId).map List.length ≠ some 32 then none
    let chainId ← count? (o.get (js "chainId"))
    let name ← chainName chainId
    if o.get (js "chain") ≠ .str name then none
    if !isHexOf 40 writer || !isHexOf 64 txHash || !isHexOf 64 blockHash then none
    let blockNumber ← count? (o.get (js "blockNumber"))
    let blockTimestamp ← count? (o.get (js "blockTimestamp"))
    let note := match o.get (js "note") with
      | .str t => t
      | _ => []
    return ⟨epochId, chainId, writer, txHash, blockNumber, blockHash, blockTimestamp, note⟩
  | _, _, _, _ => none

/-- `"BGE1"` and the bytes of the epoch id, as hex. -/
def epochGenesisCalldataHex (epochId : Str) : Option Str := do
  let id ← b64ToBytes epochId
  if id.length ≠ 32 then none
  return js "0x" ++ bytesToHex (utf8Encode (js "BGE1") ++ id)

/-! ### The check -/

/-- A Base address BitGraph writes from, until a block when its key leaked. -/
structure PublishedWriter where
  address : Str
  chainId : ℕ
  untilBlock : Option ℕ

/-- `PUBLISHED_WRITERS`. -/
def publishedWriters : List PublishedWriter :=
  [⟨js "0xf3972408d853c975f86351c311f4310220bbf2a3", 8453, none⟩]

/-- `isPublishedWriter` of a lowercase address and a known block. -/
def isPublishedWriter (address : Str) (chainId blockNumber : ℕ) : Bool :=
  publishedWriters.any fun w => w.address == address && w.chainId == chainId &&
    w.untilBlock.all fun last => blockNumber ≤ last

/-- What a node says about the transaction. -/
structure EpochGenesisTx where
  sender : Str
  recipient : Option Str
  input : Str
  blockHash : Option Str
  blockNumber : Option Number

/-- What a node says about the block. -/
structure EpochGenesisBlock where
  hash : Str
  number : Number
  timestamp : Number

structure EpochGenesisCheck where
  ok : Bool
  reasons : List Str
  genesis : Option EpochGenesisFile

section Check

variable (H : HashFn) (toLowerCase : Str → Str)

/-- The record against its proof; `any` drops the rule of counts 1 and 2. -/
def bindReasons (text : Str) (genesis : EpochGenesisFile) (proof : Value)
    (writers : Option (List Str)) (any : Bool) : Except Thrown (List Str) := do
  let digest := bytesToBase64 (H (utf8Encode text))
  let commit := proof.get (js "commit")
  let epochId ← commit.prop (js "epochId")
  let trusted := match writers with
    | some ws => (ws.map toLowerCase).contains genesis.writer
    | none => genesis.chainId != 8453 || isPublishedWriter genesis.writer 8453 genesis.blockNumber
  return reasonUnless ((proof.get (js "artifact")).get (js "digestB64") == .str digest)
      (js "the file does not hash to the proof's digest") ++
    reasonUnless (epochId == .str genesis.epochId) (js "the proof is not of the epoch the file names") ++
    reasonUnless trusted (js "the writer " ++ genesis.writer ++ js " is not " ++
      (if writers.isSome then js "one this verifier trusts" else js "a BitGraph writer")) ++
    reasonUnless (any || (commit.get (js "slotCounter") == .str (js "1") &&
        commit.get (js "counter") == .str (js "2")))
      (js "the proof is not the epoch's first BitGraph (counts 1 and 2)")

/-- The record against the transaction. -/
def txReasons (genesis : EpochGenesisFile) (t : EpochGenesisTx) : List Str :=
  reasonUnless (toLowerCase t.sender == genesis.writer)
    (js "the transaction was not sent by the writer the file names") ++
  reasonUnless (toLowerCase (t.recipient.getD []) == genesis.writer)
    (js "the transaction is not self-addressed to the writer") ++
  reasonUnless (some (toLowerCase t.input) == epochGenesisCalldataHex genesis.epochId)
    (js "the transaction does not carry this epoch's id") ++
  reasonUnless (toLowerCase (t.blockHash.getD []) == genesis.blockHash)
    (js "the transaction is not in the block the file names") ++
  reasonUnless (t.blockNumber.all fun n => n.toInt? == some (genesis.blockNumber : ℤ))
    (js "the transaction's block number is not the one the file names")

/-- The record against the block. -/
def blockReasons (genesis : EpochGenesisFile) (b : EpochGenesisBlock) : List Str :=
  reasonUnless (toLowerCase b.hash == genesis.blockHash) (js "Base's block hash differs from the file's") ++
  reasonUnless (b.number.toInt? == some (genesis.blockNumber : ℤ))
    (js "Base's block number differs from the file's") ++
  reasonUnless (b.timestamp.toInt? == some (genesis.blockTimestamp : ℤ))
    (js "Base's block time differs from the file's")

def checkEpochGenesis (text : Str) (proof : Value) (tx : Option EpochGenesisTx)
    (block : Option EpochGenesisBlock) (writers : Option (List Str)) (any : Bool) :
    Except Thrown EpochGenesisCheck := do
  match parseEpochGenesisFile text with
  | none => return ⟨false, [js "the file is not a bitgraph-epoch-genesis/1 record"], none⟩
  | some genesis =>
    let bound ← bindReasons H toLowerCase text genesis proof writers any
    let reasons := bound ++ (tx.map (txReasons toLowerCase genesis)).getD [] ++
      (block.map (blockReasons toLowerCase genesis)).getD []
    return ⟨reasons.isEmpty, reasons, some genesis⟩

end Check

/-! ### On Base -/

/-- The proof binds the record, and is of its epoch. -/
structure Binds (H : HashFn) (text : Str) (genesis : EpochGenesisFile) (proof : Value) : Prop where
  parse : parseEpochGenesisFile text = some genesis
  digest : (proof.get (js "artifact")).get (js "digestB64")
    = .str (bytesToBase64 (H (utf8Encode text)))
  epoch : (proof.get (js "commit")).get (js "epochId") = .str genesis.epochId

/-- The transaction is the writer's own with this epoch's id, in the block the record names. -/
structure OnBase (toLowerCase : Str → Str) (genesis : EpochGenesisFile) (t : EpochGenesisTx)
    (b : EpochGenesisBlock) : Prop where
  sender : toLowerCase t.sender = genesis.writer
  recipient : toLowerCase (t.recipient.getD []) = genesis.writer
  input : some (toLowerCase t.input) = epochGenesisCalldataHex genesis.epochId
  mined : toLowerCase (t.blockHash.getD []) = genesis.blockHash
  hash : toLowerCase b.hash = genesis.blockHash
  number : b.number.toInt? = some (genesis.blockNumber : ℤ)
  timestamp : b.timestamp.toInt? = some (genesis.blockTimestamp : ℤ)

section Facts

variable {H : HashFn} {toLowerCase : Str → Str} {text : Str} {proof : Value}
  {tx : Option EpochGenesisTx} {block : Option EpochGenesisBlock} {writers : Option (List Str)}
  {any : Bool} {check : EpochGenesisCheck} {genesis : EpochGenesisFile}

lemma checkEpochGenesis_reasons
    (h : checkEpochGenesis H toLowerCase text proof tx block writers any = .ok check) :
    check.ok = check.reasons.isEmpty := by
  rw [checkEpochGenesis] at h
  split at h
  · obtain rfl := Except.ok.inj h
    rfl
  · obtain ⟨bound, -, h⟩ := bind_eq_ok h
    obtain rfl := Except.ok.inj h
    rfl

/-- A record that passes is bound by its proof and agrees with what Base said. -/
lemma checkEpochGenesis_ok
    (h : checkEpochGenesis H toLowerCase text proof tx block writers any = .ok check)
    (hok : check.ok = true) :
    ∃ genesis, check.genesis = some genesis ∧ Binds H text genesis proof ∧
      (∀ t ∈ tx, txReasons toLowerCase genesis t = []) ∧
      ∀ b ∈ block, blockReasons toLowerCase genesis b = [] := by
  rw [checkEpochGenesis] at h
  split at h
  · obtain rfl := Except.ok.inj h
    cases hok
  · next genesis hparse =>
    obtain ⟨bound, hbound, h⟩ := bind_eq_ok h
    obtain rfl := Except.ok.inj h
    obtain ⟨epochId, hepoch, hbound⟩ := bind_eq_ok hbound
    have hbound := Except.ok.inj hbound
    obtain ⟨hnil, hblock⟩ := List.append_eq_nil_iff.mp (List.isEmpty_iff.mp hok)
    obtain ⟨rfl, htx⟩ := List.append_eq_nil_iff.mp hnil
    simp only [List.append_eq_nil_iff, reasonUnless_eq_nil, beq_iff_eq] at hbound
    refine ⟨genesis, rfl, ⟨hparse, hbound.1.1.1, (get_of_prop hepoch).trans hbound.1.1.2⟩, ?_, ?_⟩
    · rintro t rfl
      exact htx
    · rintro b rfl
      exact hblock

end Facts

end EpochGenesis

end BitGraph
