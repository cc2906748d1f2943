import BitGraph.Carrier
import BitGraph.Ceiling.Sidecar
import BitGraph.Js.Arith
import BitGraph.Js.Object
import BitGraph.Lib.Logged

/-!
`verifyCeiling`, on a sidecar as it was read.

* **Raw data.** `lowerCase` and `hexOf` are the calls of the source on a field of any type, with what
  they throw.
* **Floor.** `signedFloorOf` is the floor a proof signs, `checkFloorHeader` a header against it.
* **Check.** `verifyCeiling` makes its checks in their order and stops at the first that fails; an
  exception is a failed check, too.

The check of the proof, the hash of a proof and the decoder of a signed transaction are parameters.
-/

namespace BitGraph

open Js Carrier

namespace CarrierVerify

/-! ### Raw data -/

/-- `v.toLowerCase()`. -/
def lowerCase (table : Str → Str) (v : Value) : Except Thrown Str :=
  match v with
  | .str s => .ok (toLowerCase table s)
  | v => do
      let _ ← v.prop (js "toLowerCase")
      .error (typeError (js "toLowerCase is not a function"))

/-- `hexToBytes(v)`. -/
def hexOf (v : Value) : Except Thrown Bytes :=
  match v with
  | .str s => evmHexToBytes s
  | v => do
      let _ ← v.prop (js "startsWith")
      .error (typeError (js "hex.startsWith is not a function"))

/-- `v.map(hexToBytes)`. -/
def hexListOf (v : Value) : Except Thrown (List Bytes) :=
  match v with
  | .arr l => l.mapM hexOf
  | v => do
      let _ ← v.prop (js "map")
      .error (typeError (js "map is not a function"))

/-- `Number.isSafeInteger(v)`. -/
def isSafeInteger : Value → Bool
  | .num n => n.toInt?.any fun i => i.natAbs < 2 ^ 53
  | _ => false

/-- `v === n`. -/
def isCount (v : Value) (n : ℕ) : Bool := Value.strictEq (.num (Number.ofNat n)) v

/-- `typeof v === "object"`, and not null. -/
def isObject : Value → Bool
  | .obj _ | .arr _ => true
  | _ => false

/-- `new Date(ms).toISOString()`, which throws outside the range of dates. -/
def isoMs (ms : ℕ) : Except Thrown Unit :=
  if 8640000000000000 < ms then .error (rangeError (js "Invalid time value")) else .ok ()

/-- `iso` and `isoSec`: seconds as a date. -/
def iso (ts : ℕ) : Except Thrown Unit := isoMs (ts * 1000)

/-! ### The signed floor -/

inductive FloorChain where
  | ethereum
  | base
  deriving DecidableEq

def FloorChain.name : FloorChain → Str
  | .ethereum => js "ethereum"
  | .base => js "base"

/-- The floor a proof signs; only a Base floor signs its time. -/
structure SignedFloor where
  chain : FloorChain
  blockNumber : Value
  blockHash : Str
  blockTimestamp : Value

/-- `/^0x[0-9a-f]{64}$/`. -/
def isBlockHash (s : Str) : Bool := s.take 2 == js "0x" && isLowerHexOf 64 (s.drop 2)

def signedFloorOf (table : Str → Str) (proof : Value) : Except Thrown (Option SignedFloor) := do
  let commit ← proof.prop (js "commit")
  let a := commit.get (js "slotAnchor")
  let f := commit.get (js "slotFloor")
  if a.truthy && f.truthy then
    .error (typeError (js "the proof signs two floors (commit.slotAnchor and commit.slotFloor); it is ambiguous and binds neither"))
  else if f.truthy then
    if !(f.get (js "chain") == .str (js "base") && isCount (f.get (js "evmChainId")) 8453) then
      .error (typeError (js "commit.slotFloor does not name Base mainnet"))
    else match f.get (js "blockHash") with
    | .str hash =>
        if !isBlockHash hash then
          .error (typeError (js "commit.slotFloor.blockHash is not a 32-byte hash"))
        else if !(isSafeInteger (f.get (js "blockNumber")) && isSafeInteger (f.get (js "blockTimestamp"))) then
          .error (typeError (js "commit.slotFloor carries no block number or time"))
        else return some ⟨.base, f.get (js "blockNumber"), hash, f.get (js "blockTimestamp")⟩
    | _ => .error (typeError (js "commit.slotFloor.blockHash is not a 32-byte hash"))
  else if a.truthy then
    match a.get (js "blockHash") with
    | .str hash => return some ⟨.ethereum, a.get (js "blockNumber"), toLowerCase table hash, .undefined⟩
    | _ => .error (typeError (js "commit.slotAnchor.blockHash is missing"))
  else return none

/-- `onBaseSchedule`: the stamp Base mainnet gives a block by its number. -/
def onBaseSchedule (blockNumber timestampSec : ℕ) : Bool :=
  timestampSec == 1686789347 + 2 * blockNumber

/-- A header against the signed floor: its fields, where it is the block that was signed. -/
def checkFloorHeader (K : HashFn) (table : Str → Str) (signed : SignedFloor) (headerRlp : Bytes)
    (declaredChain : Value) : Option DecodedHeader :=
  let declared : Value := match declaredChain with
    | .undefined | .null => .str (js "ethereum")
    | v => v
  if declared ≠ .str signed.chain.name then none
  else match decodeHeader K headerRlp with
  | .error _ => none
  | .ok h =>
      if h.hash = toLowerCase table signed.blockHash && isCount signed.blockNumber h.number
          && (signed.chain != .base
            || (isCount signed.blockTimestamp h.timestamp && onBaseSchedule h.number h.timestamp)) then
        some h
      else none

/-- The floor's time is no later than the attestation document. -/
def floorTimeIsBound (floorTimestampSec : ℕ) (attestedAtMs : Option ℕ) : Bool :=
  attestedAtMs.all fun ms => floorTimestampSec * 1000 ≤ ms

/-- Base's stamp is not known to be wrong: not before the floor, and at most two seconds before the
attestation document. -/
def baseTimeIsBound (baseTimestampSec : ℕ) (floorTimestampSec attestedAtMs : Option ℕ) : Bool :=
  (floorTimestampSec.all fun ts => ts ≤ baseTimestampSec)
    && attestedAtMs.all fun ms => ms ≤ (baseTimestampSec + 2) * 1000

/-! ### Checks -/

/-- A check that was made. -/
structure Checked where
  name : Str
  ok : Bool
  deriving DecidableEq

/-- `checks.find((c) => c.name === name)`. -/
def byName (checks : List Checked) (name : Str) : Option Checked := checks.find? fun c => c.name == name

/-- Why the checks stopped. -/
inductive Stop where
  | failed (name : Str)
  | thrown (e : Thrown)

abbrev Checks := Lib.Logged Stop Checked

section Steps

variable {α : Type}

def pass (name : Str) : Checks Unit := .note ⟨name, true⟩

def fail (name : Str) : Checks α := .stop [⟨name, false⟩] (.failed name)

/-- An exception here is not a failed check. -/
def orThrow (x : Except Thrown α) : Checks α := .of (x.mapError .thrown)

/-- An exception here is a failed check. -/
def orFail (name : Str) : Except Thrown α → Checks α
  | .ok a => pure a
  | .error _ => fail name

def require (ok : Bool) (name : Str) : Checks Unit := if ok then pure () else fail name

end Steps

/-! ### Checks that pass and fail -/

section Rules

open Lib

variable {α : Type} {checks : List Checked} {name name' : Str} {ok : Bool} {a : α}

lemma ends_require {u : Unit} : (require ok name).Ends checks u ↔ checks = [] ∧ ok = true := by
  rw [require]
  cases ok with
  | true => simp [Logged.ends_pure]
  | false => simpa [fail] using Logged.not_ends_stop

lemma stops_require : (require ok name).Stops checks (.failed name') ↔
    ok = false ∧ checks = [⟨name, false⟩] ∧ name = name' := by
  rw [require]
  cases ok with
  | true => simpa using Logged.not_stops_pure
  | false => simp [fail, Logged.stops_stop]

lemma ends_orThrow {x : Except Thrown α} : (orThrow x).Ends checks a ↔ checks = [] ∧ x = .ok a := by
  rw [orThrow, Logged.ends_of]
  cases x <;> simp [Except.mapError]

lemma not_stops_orThrow {x : Except Thrown α} : ¬ (orThrow x).Stops checks (.failed name) := by
  rw [orThrow, Logged.stops_of]
  cases x <;> simp [Except.mapError]

lemma ends_orFail {x : Except Thrown α} : (orFail name x).Ends checks a ↔ checks = [] ∧ x = .ok a := by
  cases x with
  | ok b => simp [orFail, Logged.ends_pure]
  | error e => simpa [orFail, fail] using Logged.not_ends_stop

lemma stops_orFail {x : Except Thrown α} (h : (orFail name x).Stops checks (.failed name')) :
    checks = [⟨name, false⟩] ∧ name = name' := by
  cases x with
  | ok b => exact absurd h Logged.not_stops_pure
  | error e => simpa [orFail, fail, Logged.stops_stop] using h

lemma ends_pass {u : Unit} : (pass name).Ends checks u ↔ checks = [⟨name, true⟩] := Logged.ends_note

lemma not_stops_pass {e : Stop} : ¬ (pass name).Stops checks e := Logged.not_stops_note

end Rules

/-! ### The ceiling -/

/-- A signed type-2 transaction: its chain, recipient, data, signer and hash. -/
structure DecodedTx where
  chainId : ℕ
  recipient : Option Str
  data : Bytes
  signer : Str
  hash : Str

/-- What the check of a ceiling calls. -/
structure CeilingCalls where
  H : HashFn
  K : HashFn
  table : Str → Str
  verifyProofIntegrity : Value → Except Thrown Bool
  computeProofHash : Value → Except Thrown Str
  decodeEip1559 : Bytes → Except Thrown DecodedTx

structure CeilingVerifyOptions where
  writerAddress : Str
  chainId : Number
  proofAlreadyVerified : Bool

/-- A block by its number, its hash and its time. -/
structure BlockTime where
  blockNumber : ℕ
  blockHash : Str
  blockTimestamp : ℕ
  deriving DecidableEq

/-- The floor and the ceiling of a record that was accepted. -/
structure CeilingWindow where
  floor : Option (SignedFloor × Option ℕ)
  ceiling : BlockTime
  widthSeconds : Option ℤ

section Ceiling

variable (V : CeilingCalls)

/-- Step 0: the proof itself, unless the caller has verified it. -/
def proofStep (proof : Value) (opts : CeilingVerifyOptions) : Checks Unit :=
  if opts.proofAlreadyVerified then pure ()
  else do
    let valid ← orThrow (V.verifyProofIntegrity proof)
    require valid (js "proof")
    pass (js "proof")

/-- Step 1: the record is under the root. -/
def recordStep (proof sidecar : Value) : Checks Unit := do
  let proofHash ← orFail (js "record") (V.computeProofHash proof)
  require (Value.strictEq (.str proofHash) (sidecar.get (js "proofHash"))) (js "record")
  let root := do
    let leaf ← ceilingLeaf V.H (.str proofHash)
    let path ← hexListOf (sidecar.get (js "merklePath"))
    match sidecar.get (js "leafIndex"), sidecar.get (js "leafCount") with
    | .num index, .num size => return merkleRootFromPath V.H leaf index size path
    | _, _ => return none
  match root with
  | .ok (some root) =>
      let stated ← orThrow (lowerCase V.table (sidecar.get (js "root")))
      require (evmBytesToHex root == stated) (js "merkle")
      pass (js "merkle")
  | _ => fail (js "merkle")

/-- Step 2: the payload carries that root. -/
def payloadStep (sidecar a : Value) : Checks Bytes := do
  let payloadBytes ← orFail (js "payload") (hexOf (a.get (js "payload")))
  let p ← orFail (js "payload") (decodeCeilingPayload payloadBytes)
  let stated ← orFail (js "payload") (lowerCase V.table (sidecar.get (js "root")))
  require (evmBytesToHex p.root == stated) (js "payload")
  pass (js "payload")
  return payloadBytes

/-- Step 3: the transaction is the writer's, to itself, and carries the payload. -/
def senderStep (opts : CeilingVerifyOptions) (a : Value) (payloadBytes : Bytes) : Checks Bytes := do
  let rawTx ← orFail (js "transaction") (hexOf (a.get (js "rawTx")))
  let tx ← orFail (js "transaction") (V.decodeEip1559 rawTx)
  let writer := toLowerCase V.table opts.writerAddress
  require (tx.signer == writer) (js "sender")
  require (tx.recipient == some writer) (js "sender")
  match opts.chainId.toInt? with
  | none => fail (js "transaction")
  | some chainId =>
      require ((tx.chainId : ℤ) == chainId) (js "chain")
      require (Value.strictEq (a.get (js "chainId")) (.num opts.chainId)) (js "chain")
      require (bytesEqual tx.data payloadBytes) (js "payload")
      let txHash ← orFail (js "transaction") (lowerCase V.table (a.get (js "txHash")))
      require (tx.hash == txHash) (js "transaction")
      pass (js "sender")
      return rawTx

/-- A header that is the block an anchor names. -/
def headerStep (a : Value) : Checks DecodedHeader := do
  let header ← orFail (js "header") (hexOf (a.get (js "blockHeader")) >>= decodeHeader V.K)
  let blockHash ← orThrow (lowerCase V.table (a.get (js "blockHash")))
  require (header.hash == blockHash) (js "header")
  require (isCount (a.get (js "blockNumber")) header.number) (js "header")
  require (isCount (a.get (js "blockTimestamp")) header.timestamp) (js "header")
  return header

/-- `txTrieKey(v)`. -/
def trieKeyOf : Value → Except Thrown Bytes
  | .num n => Ceiling.txTrieKeyOf n
  | _ => .error (rangeError (js "tx index"))

/-- The transaction is in the block of the header. -/
def inclusionStep (a : Value) (rawTx : Bytes) (header : DecodedHeader) : Checks Unit := do
  let root ← orThrow (evmHexToBytes header.transactionsRoot)
  let key ← orThrow (trieKeyOf (a.get (js "txIndex")))
  let proof ← orThrow (hexListOf (a.get (js "txInclusionProof")))
  require ((Trie.mptVerify V.K root key proof).any fun inBlock => bytesEqual inBlock rawTx) (js "inclusion")
  pass (js "inclusion")

/-- Step 5: the floor the proof signs, and its time where its header is carried. -/
def floorStep (proof sidecar : Value) : Checks (Option (SignedFloor × Option ℕ)) := do
  match ← orFail (js "floor") (signedFloorOf V.table proof) with
  | none => return none
  | some signed =>
      match sidecar.get (js "floor") with
      | .undefined | .null => return some (signed, none)
      | w =>
          if !(isObject w && isText (fun s => s != []) (w.get (js "blockHeader"))) then fail (js "floor")
          else
            let raw ← orFail (js "floor") (hexOf (w.get (js "blockHeader")))
            match checkFloorHeader V.K V.table signed raw (w.get (js "chain")) with
            | none => fail (js "floor")
            | some h =>
                pass (js "floor")
                return some (signed, some h.timestamp)

def verifyCeilingChecks (proof sidecar : Value) (opts : CeilingVerifyOptions) : Checks CeilingWindow := do
  require (sidecar.get (js "version") == .str ceilingSidecarVersion) (js "format")
  proofStep V proof opts
  recordStep V proof sidecar
  let a := sidecar.get (js "anchor")
  if !a.truthy then .stop [] (.failed (js "ceiling pending"))
  else
    let payloadBytes ← payloadStep V sidecar a
    let rawTx ← senderStep V opts a payloadBytes
    let header ← headerStep V a
    inclusionStep V a rawTx header
    let floor ← floorStep V proof sidecar
    orThrow (iso header.timestamp)
    let floorTs := floor.bind fun f => f.2
    return {
      floor := floor
      ceiling := ⟨header.number, header.hash, header.timestamp⟩
      widthSeconds := floorTs.map fun ts => (header.timestamp : ℤ) - ts }

/-- The checks that were made, and the window where all of them passed. -/
structure CeilingVerifyResult where
  checks : List Checked
  window : Option CeilingWindow

/-- A malformed field is a failed check. -/
def verifyCeiling (proof sidecar : Value) (opts : CeilingVerifyOptions) : CeilingVerifyResult :=
  let r := verifyCeilingChecks V proof sidecar opts
  match r.out with
  | .ok window => ⟨r.log, some window⟩
  | .error (.thrown _) => ⟨r.log ++ [⟨js "malformed", false⟩], none⟩
  | .error (.failed _) => ⟨r.log, none⟩

end Ceiling

/-! ### What an accepted ceiling names -/

section Accepted

open Lib

variable {V : CeilingCalls} {proof sidecar : Value} {opts : CeilingVerifyOptions} {checks : List Checked}

lemma decodeHeader_hash {K : HashFn} {raw : Bytes} {h : DecodedHeader} (hd : decodeHeader K raw = .ok h) :
    h.hash = evmBytesToHex (K raw) := by
  rw [decodeHeader] at hd
  obtain ⟨item, -, hd⟩ := bind_eq_ok hd
  cases item with
  | bytes b => cases hd
  | list f =>
      dsimp only at hd
      split at hd
      · cases hd
      · obtain ⟨num, -, hd⟩ := bind_eq_ok hd
        obtain ⟨ts, -, hd⟩ := bind_eq_ok hd
        split at hd
        · cases hd
        · obtain ⟨txRoot, -, hd⟩ := bind_eq_ok hd
          obtain ⟨parent, -, hd⟩ := bind_eq_ok hd
          split at hd
          · cases hd
          · rw [← Except.ok.inj hd]

lemma headerStep_ends {a : Value} {header : DecodedHeader} (h : (headerStep V a).Ends checks header) :
    lowerCase V.table (a.get (js "blockHash")) = .ok header.hash
      ∧ ∃ raw, header.hash = evmBytesToHex (V.K raw) := by
  obtain ⟨read, l₁, l₂, hread, hrest, -⟩ := Logged.ends_bind.mp h
  obtain ⟨blockHash, l₃, l₄, hlower, hrest', -⟩ := Logged.ends_bind.mp hrest
  obtain ⟨_, l₅, l₆, hsame, hrest'', -⟩ := Logged.ends_bind.mp hrest'
  obtain ⟨_, l₇, l₈, -, hrest₃, -⟩ := Logged.ends_bind.mp hrest''
  obtain ⟨_, l₉, l₀, -, hpure, -⟩ := Logged.ends_bind.mp hrest₃
  obtain rfl := (Logged.ends_pure.mp hpure).2
  obtain ⟨raw, -, hdecode⟩ := bind_eq_ok (ends_orFail.mp hread).2
  refine ⟨?_, raw, decodeHeader_hash hdecode⟩
  rw [(ends_orThrow.mp hlower).2, beq_iff_eq.mp (ends_require.mp hsame).2]

/-- A ceiling that is accepted is the block its anchor names, and that of a header. -/
lemma verifyCeiling_window {w : CeilingWindow} (h : (verifyCeiling V proof sidecar opts).window = some w) :
    (sidecar.get (js "anchor")).truthy = true
      ∧ lowerCase V.table ((sidecar.get (js "anchor")).get (js "blockHash")) = .ok w.ceiling.blockHash
      ∧ ∃ raw, w.ceiling.blockHash = evmBytesToHex (V.K raw) := by
  have hout : (verifyCeilingChecks V proof sidecar opts).out = .ok w := by
    rw [verifyCeiling] at h
    split at h
    · next window hw => rw [hw, Option.some.inj h]
    · cases h
    · cases h
  obtain ⟨_, l₁, l₂, -, hrest, -⟩ := Logged.ends_bind.mp (Logged.ends_of_out hout)
  obtain ⟨_, l₃, l₄, -, hrest', -⟩ := Logged.ends_bind.mp hrest
  obtain ⟨_, l₅, l₆, -, hrest'', -⟩ := Logged.ends_bind.mp hrest'
  dsimp only at hrest''
  split at hrest''
  · exact absurd hrest'' Logged.not_ends_stop
  · next htruthy =>
    obtain ⟨payloadBytes, _, _, -, h₁, -⟩ := Logged.ends_bind.mp hrest''
    obtain ⟨rawTx, _, _, -, h₂, -⟩ := Logged.ends_bind.mp h₁
    obtain ⟨header, _, _, hheader, h₃, -⟩ := Logged.ends_bind.mp h₂
    obtain ⟨_, _, _, -, h₄, -⟩ := Logged.ends_bind.mp h₃
    obtain ⟨floor, _, _, -, h₅, -⟩ := Logged.ends_bind.mp h₄
    obtain ⟨_, _, _, -, hpure, -⟩ := Logged.ends_bind.mp h₅
    obtain rfl := (Logged.ends_pure.mp hpure).2
    exact ⟨by simpa using htruthy, headerStep_ends hheader⟩

end Accepted

end CarrierVerify

end BitGraph
