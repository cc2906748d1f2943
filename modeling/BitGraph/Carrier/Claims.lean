import BitGraph.Carrier.Settlement

/-!
`carrier.ts`: what the claims about a proof block are made of.

* **Claims.** A step adds claims as it goes; what it throws ends the run, and the claims it had added
  stay.
* **Bindings.** `checkFloorBinding` and `checkCeilingBinding` compare the anchors with the proof.
* **Bounds.** `carrierBounds` are the bounds a payload states.

The modules that check the proof, the fused bytes, the tree and the attestation are parameters, each
with any answer. Of a claim only its id, its result and its level are kept; its prose matters where
it shows a value that has no text.
-/

namespace BitGraph

open Js Carrier

namespace CarrierVerify

/-! ### Claims -/

inductive ClaimResult where
  | true
  | false
  | undetermined
  | notCarried
  deriving DecidableEq

inductive Level where
  | offline
  | confirmed
  deriving DecidableEq

/-- What a step says of a claim. -/
structure Judged where
  id : Str
  result : ClaimResult
  deriving DecidableEq

structure CarrierClaim extends Judged where
  level : Level
  deriving DecidableEq

abbrev Run := Lib.Logged Thrown Judged

def add (id : Str) (result : ClaimResult) : Run Unit := .note ⟨id, result⟩

def judged (ok : Bool) : ClaimResult := if ok then .true else .false

/-- A check that was not reached leaves its claim open. -/
def judgedBy : Option Checked → ClaimResult
  | none => .undetermined
  | some c => judged c.ok

/-- The prose of a claim shows a value. -/
def shown (v : Value) : Run Unit := .of (v.string.map fun _ => ())

/-- `a ?? b`. -/
def orElse (a b : Value) : Value :=
  match a with
  | .undefined | .null => b
  | v => v

/-! ### What is called -/

/-- What a Nitro document says, where the attestation decodes to one. -/
structure NitroDocument where
  timestampMs : Option ℕ
  pcr0 : Option Str

structure NitroResult where
  checks : List Checked
  doc : Option NitroDocument

/-- What the check of a tree member found: its category, whether the tree stands, and the
placement of the member, where its path reached the root. -/
structure TreeVerifyResult where
  category : Str
  tree : Bool
  member : Option Str

structure Calls extends SettlementCalls where
  innerDigestMatches : Bytes → Value → Except Thrown Bool
  verify : Value → Bytes → Except Thrown Bool
  readFuseAttribution : Value → Except Thrown Bool
  /-- The category is FUSED_DIRECT or CARRIED_INLINE. -/
  verifyFuse : Value → Bytes → Except Thrown Bool
  verifyTreeMember : Value → Option Bytes → Value → Except Thrown TreeVerifyResult
  computeSignedBodyHash : Value → Except Thrown Str
  verifyNitroAttestation : Str → Option Str → Str → Except Thrown NitroResult
  witnessMatchesAttestation : Value → Str → Except Thrown Bool
  /-- The bytes an anchor signs, unless its digest is not theirs. -/
  anchorMessageBytes : Value → Except Thrown (Option Bytes)
  publishedPcr0s : List Str

/-- The pins of a caller; none is the default. -/
structure CarrierVerifyOptions where
  pcr0 : Option (List Str)
  ceilingWriter : Option Str
  baseChainId : Option Number
  settlement : Option SettlementPins

def CarrierVerifyOptions.pinnedWriter (opts : CarrierVerifyOptions) : Str :=
  opts.ceilingWriter.getD (js "0xf3972408D853c975F86351C311f4310220bbF2a3")

def CarrierVerifyOptions.chainId (opts : CarrierVerifyOptions) : Number :=
  opts.baseChainId.getD (Number.ofNat 8453)

structure CarrierLookups where
  ethereumBlockHash : Option Lookup
  baseBlockHash : Option Lookup

/-- A payload of versions 1 to 4. -/
structure BlockPayload extends CarrierPayload where
  block : isAtomic (value.get (js "carrier")) = false

/-! ### The block-header witness -/

/-- The time of a header with the hash and the number of its witness; none where it is not. -/
def verifyWitnessHeader (K : HashFn) (table : Str → Str) (w : Value) : Except Thrown (Option (Option ℕ)) :=
  match w.get (js "headerRlpHex") with
  | .str hex =>
      match Carrier.hexToBytes hex with
      | none => .ok none
      | some raw => do
          let blockHash ← lowerCase table (w.get (js "blockHash"))
          if evmBytesToHex (K raw) ≠ blockHash then return none
          else match decodeRlpTop raw with
          | none => return none
          | some items =>
              if items.length < 12 then return none
              else match rlpNumber (items.getD 8 []) with
              | none => return none
              | some num =>
                  if isCount (w.get (js "blockNumber")) num then
                    return some (rlpNumber (items.getD 11 []))
                  else return none
  | _ => .error (typeError (js "hex.startsWith is not a function"))

/-! ### Bindings -/

/-- The chain, the epoch, the key and the counter of a proof. -/
structure Partition where
  chainId : Str
  epochId : Str
  publicKeyB64 : Str
  counter : Str
  deriving DecidableEq

/-- A block as a proof signs it. -/
structure SignedBlock where
  blockNumber : Number
  blockHash : Str

def partitionOf (proof : Value) : Option Partition :=
  let commit := proof.get (js "commit")
  match commit.get (js "chainId"), commit.get (js "epochId"),
      (proof.get (js "signer")).get (js "publicKeyB64"), commit.get (js "counter") with
  | .str chainId, .str epochId, .str key, .str counter => some ⟨chainId, epochId, key, counter⟩
  | _, _, _, _ => none

/-- A block in a field of a `commit`. -/
def signedBlock (a : Value) : Option SignedBlock :=
  match a.get (js "blockNumber"), a.get (js "blockHash") with
  | .num n, .str hash => some ⟨n, hash⟩
  | _, _ => none

/-- The partition an anchor names, and its block. -/
def anchorIdentity (anchor : Value) : Option (Partition × SignedBlock) := do
  let part ← partitionOf anchor
  let block ← signedBlock ((anchor.get (js "commit")).get (js "anchor"))
  return (part, block)

/-- The anchor the enclave signed into the slot, and its counter. -/
def slotAnchorOf (proof : Value) : Option (Str × SignedBlock) :=
  let a := (proof.get (js "commit")).get (js "slotAnchor")
  match a.get (js "counter") with
  | .str counter => (signedBlock a).map fun block => (counter, block)
  | _ => none

/-- Two partitions are of one chain, epoch and key. -/
def Partition.same (a b : Partition) : Bool :=
  a.chainId == b.chainId && a.epochId == b.epochId && a.publicKeyB64 == b.publicKeyB64

/-- The floor is the anchor of the slot. -/
def checkFloorBinding (table : Str → Str) (proof floor : Value) : Except Thrown Bool :=
  match partitionOf proof, slotAnchorOf proof, anchorIdentity (floor.get (js "anchor")) with
  | some part, some (counter, slotAnchor), some (id, block) => do
      let w := floor.get (js "witness")
      let blockHash ← lowerCase table (w.get (js "blockHash"))
      return id.same part && id.counter == counter
        && Value.strictEq (.num block.blockNumber) (.num slotAnchor.blockNumber)
        && toLowerCase table block.blockHash == toLowerCase table slotAnchor.blockHash
        && Value.strictEq (w.get (js "blockNumber")) (.num block.blockNumber)
        && blockHash == toLowerCase table block.blockHash
  | _, _, _ => .ok false

/-- The ceiling is after the proof. -/
def checkCeilingBinding (table : Str → Str) (proof ceiling : Value) : Except Thrown Bool :=
  match partitionOf proof, anchorIdentity (ceiling.get (js "anchor")) with
  | some part, some (id, block) => do
      let w := ceiling.get (js "witness")
      let blockHash ← lowerCase table (w.get (js "blockHash"))
      let after := match stringToBigInt? id.counter, stringToBigInt? part.counter with
        | some n, some m => decide (m < n)
        | _, _ => false
      return id.same part && after
        && Value.strictEq (w.get (js "blockNumber")) (.num block.blockNumber)
        && blockHash == toLowerCase table block.blockHash
  | _, _ => .ok false

/-! ### The bounds a payload states -/

structure Bound where
  blockNumber : Value
  blockHash : Str
  timestamp : Value

structure CarrierBounds where
  floorChain : FloorChain
  notBefore : Bound
  notAfter : Option Bound
  existedBy : Option Bound
  settledBy : Option Bound

def countValue (n : ℕ) : Value := .num (Number.ofNat n)

/-- A time, or null. -/
def timeValue : Option ℕ → Value
  | some n => countValue n
  | none => .null

/-- `x && x.status === "present"`. -/
def isPresentPart (x : Value) : Bool := x.truthy && x.get (js "status") == .str (js "present")

/-- The block of a record with a number, a hash and a time. -/
def statedBound (table : Str → Str) (a : Value) : Option Bound :=
  match a.get (js "blockNumber"), a.get (js "blockHash"), a.get (js "blockTimestamp") with
  | .num n, .str hash, .num ts => some ⟨.num n, toLowerCase table hash, .num ts⟩
  | _, _, _ => none

section Bounds

variable (V : Calls)

/-- The bound of a witness. -/
def witnessBound (w : Value) : Except Thrown Bound := do
  let ts ← verifyWitnessHeader V.K V.table w
  let blockHash ← lowerCase V.table (w.get (js "blockHash"))
  return ⟨w.get (js "blockNumber"), blockHash, timeValue (ts.getD none)⟩

/-- The bound of a Base header. -/
def headerBound (header : Value) : Bound :=
  match header with
  | .str hex =>
      match Carrier.hexToBytes hex, baseHeaderFields hex with
      | some raw, some h =>
          ⟨countValue h.blockNumber, evmBytesToHex (V.K raw), countValue h.timestamp⟩
      | _, _ => ⟨countValue 0, [], .null⟩
  | _ => ⟨countValue 0, [], .null⟩

/-- `payload.floor.basis === "base-header"`. -/
def isBaseFloor (payload : Value) : Bool :=
  (payload.get (js "floor")).get (js "basis") == .str (js "base-header")

/-- A bound that a part of the payload states in its evidence. -/
def partBound (part : Value) (evidence key : Str) : Except Thrown (Option Bound) :=
  if isPresentPart part then do
    let a ← (part.get evidence).prop key
    return statedBound V.table a
  else .ok none

def floorBound (payload : Value) : Except Thrown Bound :=
  let floor := payload.get (js "floor")
  if isBaseFloor payload then .ok (headerBound V (floor.get (js "header")))
  else witnessBound V (floor.get (js "witness"))

def positionBound (payload : Value) : Except Thrown (Option Bound) :=
  let ceiling := payload.get (js "ceiling")
  if ceiling.get (js "status") == .str (js "present") then
    (witnessBound V (ceiling.get (js "witness"))).map some
  else .ok none

def carrierBounds (payload : Value) : Except Thrown CarrierBounds := do
  let notBefore ← floorBound V payload
  let notAfter ← positionBound V payload
  let existedBy ← partBound V (payload.get (js "ceilingInTime")) (js "sidecar") (js "anchor")
  let settledBy ← partBound V (payload.get (js "settlement")) (js "pointer") (js "l1")
  return ⟨if isBaseFloor payload then .base else .ethereum, notBefore, notAfter, existedBy, settledBy⟩

end Bounds

end CarrierVerify

end BitGraph
