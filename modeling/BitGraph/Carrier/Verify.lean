import BitGraph.Carrier.Claims

/-!
`carrier-verify.ts`: the claims about a proof block, and the verdict on them.

* **Offline.** `offline` makes every claim that needs no node, step after step.
* **Confirmed.** `confirm` asks the nodes the caller named, after every other step.
* **Result.** `verifyCarrierPayload` gives the verdict, and the bounds a reader may state; what a step
  throws makes the verdict FALSE.
-/

namespace BitGraph

open Js Carrier

namespace CarrierVerify

variable (V : Calls) (opts : CarrierVerifyOptions)

/-! ### The bytes, the proof and the commitment -/

def isMember (payload : Value) : Bool := carrierVersionOf payload == 4

/-- The block was found in a file. -/
def blockClaim (inner : Option Bytes) : Run Unit :=
  if inner.isSome then add (js "block") .true else pure ()

/-- Step 1: the bytes are those the proof names. -/
def bytesClaims (payload : Value) (inner : Option Bytes) : Run Unit :=
  if isMember payload then pure ()
  else match inner with
  | some inner => do
      let ok ← .of (V.innerDigestMatches inner payload)
      add (js "bytes.digest") (judged ok)
  | none => do
      let artifact := (payload.get (js "proof")).get (js "artifact")
      shown (orElse (artifact.get (js "digestB64")) (.str []))
      add (js "bytes.digest") .notCarried

/-- Step 2: the proof is valid. -/
def proofClaims (payload : Value) (inner : Option Bytes) : Run Bool := do
  let proof := payload.get (js "proof")
  let valid ← .of (match inner with
    | some inner => if isMember payload then V.verifyProofIntegrity proof else V.verify proof inner
    | none => V.verifyProofIntegrity proof)
  add (js "proof.signature") (judged valid)
  match proof.get (js "proofHash") with
  | .str ph => do
      let hash ← .of (V.computeProofHash proof)
      add (js "proof.hash") (judged (hash == ph))
      return valid
  | _ => return valid

/-- `TREE_MEMBER_CATEGORIES`. -/
def treeMemberCategories : List Str :=
  [js "TREE_MEMBER_DIRECT", js "TREE_MEMBER_AS_IS", js "TREE_MEMBER_FROM_ORIGIN"]

/-- The claims a tree makes in the place of the fused one. -/
def memberClaims (payload : Value) (inner : Option Bytes) : Run Unit := do
  let t := payload.get (js "tree")
  let tr ← .of (V.verifyTreeMember (payload.get (js "proof")) inner t)
  let unknownSpec := tr.category == js "UNKNOWN_SPEC"
  let specOk := !unknownSpec && tr.category != js "NOT_TREE" && tr.category != js "INVALID_TREE_MARKER"
  add (js "spec.pin") (if specOk then .true else if unknownSpec then .undetermined else .false)
  add (js "tree.root") (if tr.tree then .true else if unknownSpec then .undetermined else .false)
  add (js "tree.member")
    (if tr.member.isSome then .true else if tr.tree then .false else .undetermined)
  let asIs := tr.member == some (js "as-is")
    || isText (fun leaf => js "00" <+: leaf) ((t.get (js "member")).get (js "leaf"))
  match inner with
  | none => do
      add (js "bytes.digest") .notCarried
      add (js "proof.fused") .notCarried
  | some _ => do
      add (js "bytes.digest")
        (if tr.category == js "TREE_MEMBER_FROM_ORIGIN" then .false
          else if treeMemberCategories.contains tr.category then .true
          else if tr.member.isSome then .false else .undetermined)
      add (js "proof.fused")
        (if tr.category == js "TREE_MEMBER_DIRECT" then .true
          else if tr.category == js "TREE_MEMBER_AS_IS" || asIs then .notCarried
          else if tr.category == js "INVALID_SLOT_COMMITMENT" || tr.category == js "INVALID_ORIGIN" then
            .false
          else .notCarried)

/-- Step 3: the commitment is in the bytes; version 4 has its tree instead. -/
def fusedClaims (payload : Value) (inner : Option Bytes) : Run Unit := do
  let proof := payload.get (js "proof")
  let fused ← .of (V.readFuseAttribution proof)
  if isMember payload then memberClaims V payload inner
  else match inner with
  | some inner =>
      if fused then do
        let good ← .of (V.verifyFuse proof inner)
        add (js "proof.fused") (judged good)
      else add (js "proof.fused") .notCarried
  | none => add (js "proof.fused") .notCarried

/-! ### The attestation -/

/-- `n.checks.find((c) => c.name.startsWith(name))`. -/
def byStart (checks : List Checked) (name : Str) : Option Checked :=
  checks.find? fun c => c.name.take name.length == name

/-- `/^[0-9a-fA-F]+$/`, in lowercase. -/
def measurementOf (env : Value) : Option Str :=
  match env.get (js "measurement") with
  | .str s =>
      if s ≠ [] ∧ s.all (fun c => (hexDigitVal? c).isSome) then some (toLowerCase V.table s) else none
  | _ => none

/-- The report of an aws-nitro attestation. -/
def nitroReport (env : Value) : Option Str :=
  let att := env.get (js "attestation")
  match att.get (js "reportB64") with
  | .str report => if att.get (js "format") == .str (js "aws-nitro") then some report else none
  | _ => none

/-- The image is one the verifier accepts. -/
def pinResult (hardwareOk : Bool) (measured : Option Str) : ClaimResult :=
  let policy := (opts.pcr0.getD V.publishedPcr0s).map (toLowerCase V.table)
  match measured with
  | none => .undetermined
  | some measured =>
      if !hardwareOk then .undetermined
      else if policy.isEmpty then .undetermined
      else judged (policy.contains measured)

/-- The openssl witness is what the document decodes to. -/
def opensslClaim (payload : Value) (report : Str) : Run Unit :=
  let witness := payload.get (js "attestation")
  if 2 ≤ carrierVersionOf payload && witness.truthy then do
    let ok ← .of (V.witnessMatchesAttestation witness report)
    add (js "attestation.witness") (judged ok)
  else pure ()

/-- Step 4: the hardware's word; the time of its document, where that is AWS's. -/
def attestationClaims (payload : Value) : Run (Option ℕ) := do
  let proof := payload.get (js "proof")
  let env := proof.get (js "environment")
  match nitroReport env with
  | none => do
      add (js "attestation.signature") .notCarried
      return none
  | some report => do
      let measurement := measurementOf V env
      let userData ← .of (V.computeSignedBodyHash proof)
      let n ← .of (V.verifyNitroAttestation report measurement userData)
      let sig := byStart n.checks (js "AWS signature")
      let chain := byStart n.checks (js "Certificate chain")
      let root := (byStart n.checks (js "Chains to")).or (byStart n.checks (js "Trust root"))
      let validity := byStart n.checks (js "Certificate validity")
      let pcr0 := byStart n.checks (js "PCR0")
      let bound := byStart n.checks (js "Bound to this proof")
      add (js "attestation.signature") (if n.doc.isNone then .false else judgedBy sig)
      add (js "attestation.chain") (judgedBy chain)
      add (js "attestation.root") (judgedBy root)
      add (js "attestation.validity") (judgedBy validity)
      add (js "attestation.pcr0") (if measurement.isNone then .false else judgedBy pcr0)
      add (js "attestation.binding") (judgedBy bound)
      let passed : Option Checked → Bool := fun c => c.any fun c => c.ok
      let hardwareOk := n.doc.isSome && measurement.isSome
        && [sig, chain, root, validity, pcr0, bound].all passed
      let measured := (n.doc.bind fun d => d.pcr0).map (toLowerCase V.table)
      add (js "attestation.pins") (pinResult V opts hardwareOk measured)
      opensslClaim V payload report
      return if passed sig && passed chain && passed root then n.doc.bind fun d => d.timestampMs else none

/-! ### The floor -/

/-- The floor that was checked: its time, and whether that is withheld as a bound. -/
structure FloorRead where
  ts : Option ℕ
  withheld : Bool

/-- What the proof says of its floor: it signs one, or none; a proof with two says nothing. -/
def signedOf (proof : Value) : Option SignedFloor :=
  match signedFloorOf V.table proof with
  | .ok signed => signed
  | .error _ => none

/-- The Base header that is the floor. -/
def baseFloorHeader (payload : Value) : Option DecodedHeader :=
  match hexOf ((payload.get (js "floor")).get (js "header")) with
  | .error _ => none
  | .ok raw => (signedOf V (payload.get (js "proof"))).bind fun signed =>
      checkFloorHeader V.K V.table signed raw (.str (js "base"))

/-- The claim on an anchor: it verifies over the message it signs. -/
def anchorClaim (id : Str) (anchor : Value) : Run Unit := do
  match ← .of (V.anchorMessageBytes anchor) with
  | none => add id .false
  | some message => do
      let valid ← .of (V.verify anchor message)
      add id (judged valid)

/-- The claim on a witness; its time, where the header is the one with that hash. -/
def witnessClaim (id : Str) (w : Value) : Run (Option ℕ) := do
  match ← .of (verifyWitnessHeader V.K V.table w) with
  | none => do
      add id .false
      return none
  | some ts => do
      .of (ts.elim (.ok ()) iso)
      add id .true
      return ts

/-- The floor is bound to the proof: the anchor of the slot, where the proof signs no other. -/
def anchorBound (payload : Value) : Except Thrown Bool :=
  match signedFloorOf V.table (payload.get (js "proof")) with
  | .error _ => .ok false
  | .ok signed =>
      if signed.any fun s => s.chain == .base then .ok false
      else checkFloorBinding V.table (payload.get (js "proof")) (payload.get (js "floor"))

/-- The claims on the floor; its time. -/
def floorBlockClaims (payload : Value) : Run (Option ℕ) := do
  let floor := payload.get (js "floor")
  if isBaseFloor payload then
    let fh := baseFloorHeader V payload
    add (js "floor.binding") (judged fh.isSome)
    .of (fh.elim (.ok ()) fun h => iso h.timestamp)
    add (js "floor.header") (judged fh.isSome)
    return fh.map fun h => h.timestamp
  else do
    anchorClaim V (js "floor.anchor") (floor.get (js "anchor"))
    let bound ← .of (anchorBound V payload)
    add (js "floor.binding") (judged bound)
    witnessClaim V (js "floor.header") (floor.get (js "witness"))

/-- Step 5: the floor, and whether its time is a bound. -/
def floorClaims (payload : Value) (attestedAtMs : Option ℕ) : Run FloorRead := do
  let ts ← floorBlockClaims V payload
  return ⟨ts, ts.any fun ts => !floorTimeIsBound ts attestedAtMs⟩

/-! ### The ceilings -/

/-- Step 6: the ceiling in position. -/
def positionClaims (payload : Value) : Run Unit := do
  let ceiling := payload.get (js "ceiling")
  if ceiling.get (js "status") == .str (js "none") then add (js "ceiling.position") .notCarried
  else if ceiling.get (js "status") == .str (js "present") then do
    anchorClaim V (js "ceiling.position.anchor") (ceiling.get (js "anchor"))
    let bound ← .of (checkCeilingBinding V.table (payload.get (js "proof")) ceiling)
    add (js "ceiling.position.binding") (judged bound)
    let _ ← witnessClaim V (js "ceiling.position.header") (ceiling.get (js "witness"))
  else add (js "ceiling.position.binding") .notCarried

/-- The ceiling in time: the sidecar that was carried, and the block, where its stamp is a bound. -/
structure InTime where
  sidecar : Option Value
  ceilingTime : Option BlockTime
  withheld : Bool

/-- The prose on a block shows its number. -/
def blockShown (a : Value) : Run Unit := shown (orElse (a.get (js "blockNumber")) (.str (js "?")))

/-- The dates in the reason why a stamp is no bound. -/
def stampReason (baseTs : ℕ) (floorTs attestedAtMs : Option ℕ) : Except Thrown Unit := do
  iso baseTs
  if floorTs.any fun ts => baseTs < ts then floorTs.elim (.ok ()) iso
  else attestedAtMs.elim (.ok ()) isoMs

/-- Step 7: the ceiling in time. -/
def inTimeClaims (payload : Value) (proofValid : Bool) (floorTs attestedAtMs : Option ℕ) : Run InTime := do
  let ct := payload.get (js "ceilingInTime")
  if isPresentPart ct then
    let sidecar := ct.get (js "sidecar")
    let c := verifyCeiling V.toCeilingCalls (payload.get (js "proof")) sidecar
      ⟨opts.pinnedWriter, opts.chainId, proofValid⟩
    add (js "ceiling.time.record") (judgedBy (byName c.checks (js "merkle")))
    add (js "ceiling.time.payload") (judgedBy (byName c.checks (js "payload")))
    add (js "ceiling.time.sender") (judgedBy (byName c.checks (js "sender")))
    blockShown (sidecar.get (js "anchor"))
    add (js "ceiling.time.inclusion") (judgedBy (byName c.checks (js "inclusion")))
    add (js "ceiling.time.floor") (judgedBy (byName c.checks (js "floor")))
    match c.window with
    | none => do
        add (js "ceiling.time") .false
        shown (sidecar.get (js "status"))
        add (js "ceiling.time.status") .undetermined
        return ⟨some sidecar, none, false⟩
    | some w => do
        let floorTs := floorTs.or (w.floor.bind fun f => f.2)
        let stamp := baseTimeIsBound w.ceiling.blockTimestamp floorTs attestedAtMs
        .of (if stamp then .ok () else stampReason w.ceiling.blockTimestamp floorTs attestedAtMs)
        shown (sidecar.get (js "status"))
        add (js "ceiling.time.status") .undetermined
        return ⟨some sidecar, if stamp then some w.ceiling else none, !stamp⟩
  else
    add (js "ceiling.time.record") .notCarried
    return ⟨none, none, false⟩

/-! ### Settlement and pins -/

/-- The pointer names another Base block than the ceiling. -/
def otherBaseBlock (pointer : Value) (sidecar : Option Value) : Except Thrown Bool :=
  let named := pointer.get (js "baseBlockHash")
  match sidecar with
  | none => .ok false
  | some sidecar =>
      let a := sidecar.get (js "anchor")
      if named.truthy && a.truthy then do
        let named ← lowerCase V.table named
        let held ← lowerCase V.table (a.get (js "blockHash"))
        return named != held
      else .ok false

/-- A claim that is made only where it is FALSE. -/
def addFalse (wrong : Bool) (id : Str) : Run Unit := if wrong then add id .false else pure ()

/-- Step 8: the settlement. -/
def settlementClaims (payload : Value) (c : InTime) : Run Unit := do
  let st := payload.get (js "settlement")
  if isPresentPart st then
    let pointer := st.get (js "pointer")
    let sp ← .of (verifySettlementPointer V.toSettlementCalls pointer
      (opts.settlement.getD baseMainnetSettlementPins))
    blockShown (pointer.get (js "l1"))
    add (js "settlement.header") (judgedBy (byName sp.checks (js "header")))
    add (js "settlement.inclusion") (judgedBy (byName sp.checks (js "inclusion")))
    add (js "settlement.blobs") (judgedBy (byName sp.checks (js "blobs")))
    let other ← .of (otherBaseBlock V pointer c.sidecar)
    addFalse other (js "settlement.base")
    add (js "settlement.blobs.decoded") .undetermined
  else if c.ceilingTime.isSome then add (js "settlement.header") .notCarried
  else pure ()

/-- The declared pins are the verifier's. -/
def pinsAgree (pins proof : Value) : Except Thrown Bool := do
  let pcr0 := pins.get (js "pcr0")
  let measurement := (proof.get (js "environment")).get (js "measurement")
  let pcr0Agrees ←
    if pcr0.truthy then do
      let declared ← pcr0.string
      let measured ← measurement.string
      pure (toLowerCase V.table declared == toLowerCase V.table measured)
    else pure true
  let writer := pins.get (js "ceilingWriter")
  let writerAgrees ←
    if writer.truthy then do
      let declared ← lowerCase V.table writer
      pure (declared == toLowerCase V.table opts.pinnedWriter)
    else pure true
  let base := (pins.get (js "chains")).get (js "base")
  if base == .undefined || Value.strictEq base (.num opts.chainId) then return pcr0Agrees && writerAgrees
  else
    let _ ← base.string
    return false

/-- Step 9: the declared pins. -/
def pinsClaims (payload : Value) : Run Unit :=
  let pins := payload.get (js "pins")
  if pins.truthy then do
    let ok ← .of (pinsAgree V opts pins (payload.get (js "proof")))
    add (js "pins") (judged ok)
  else pure ()

/-! ### Offline -/

/-- What the steps before the lookups leave. -/
structure Offline where
  bounds : CarrierBounds
  floor : FloorRead
  inTime : InTime

/-- Steps 7 to 9, from version 2 on. -/
def laterClaims (payload : Value) (proofValid : Bool) (floorTs attestedAtMs : Option ℕ) : Run InTime :=
  if 2 ≤ carrierVersionOf payload then do
    let inTime ← inTimeClaims V opts payload proofValid floorTs attestedAtMs
    settlementClaims V opts payload inTime
    pinsClaims V opts payload
    return inTime
  else pure ⟨none, none, false⟩

/-- Every claim that needs no node. -/
def offline (payload : Value) (inner : Option Bytes) : Run Offline := do
  blockClaim inner
  bytesClaims V payload inner
  let proofValid ← proofClaims V payload inner
  fusedClaims V payload inner
  let attestedAtMs ← attestationClaims V opts payload
  let floor ← floorClaims V payload attestedAtMs
  positionClaims V payload
  let inTime ← laterClaims V opts payload proofValid floor.ts attestedAtMs
  let bounds ← .of (carrierBounds V payload)
  return ⟨bounds, floor, inTime⟩

/-! ### Confirmed -/

/-- `(await safe(() => ask()))?.toLowerCase()`. -/
def heard (table : Str → Str) : Answer → Option Str
  | .hash s => some (toLowerCase table s)
  | _ => none

/-- What a node said of a block: nothing, or whether it is the one with that hash. -/
def compared (answer : Option Str) (blockHash : Str) : ClaimResult :=
  match answer with
  | none | some [] => .undetermined
  | some h => judged (h == blockHash)

section Confirm

variable (lk : CarrierLookups)

/-- The lookup of the floor's chain. -/
def floorAsk (payload : Value) : Option Lookup :=
  if isBaseFloor payload then lk.baseBlockHash else lk.ethereumBlockHash

def confirmFloor (payload : Value) (b : CarrierBounds) : Run Unit :=
  match floorAsk lk payload with
  | some ask => add (js "confirmed.floor")
      (compared (heard V.table (ask 0 b.notBefore.blockNumber)) b.notBefore.blockHash)
  | none => add (js "confirmed.floor") .undetermined

def confirmPosition (payload : Value) : Run Unit :=
  let ceiling := payload.get (js "ceiling")
  match lk.ethereumBlockHash with
  | some ask =>
      if ceiling.get (js "status") == .str (js "present") then do
        let w := ceiling.get (js "witness")
        let blockHash ← .of (lowerCase V.table (w.get (js "blockHash")))
        add (js "confirmed.ceiling.position")
          (compared (heard V.table (ask 1 (w.get (js "blockNumber")))) blockHash)
      else pure ()
  | none => pure ()

def confirmSettlement (payload : Value) : Run Unit :=
  let st := payload.get (js "settlement")
  match lk.ethereumBlockHash with
  | some ask =>
      if isPresentPart st then do
        let ok ← .of (checkSettlementOnline V.table (ask 2) (st.get (js "pointer")))
        add (js "confirmed.settlement") (judged ok)
      else pure ()
  | none => pure ()

/-- A finding on the ceiling's block; what throws is none. -/
def checkCeilingOnline (ask : Value → Answer) (sidecar : Value) : Option Bool :=
  let a := sidecar.get (js "anchor")
  if !a.truthy then none
  else match heard V.table (ask (a.get (js "blockNumber"))) with
  | none | some [] => none
  | some h =>
      match lowerCase V.table (a.get (js "blockHash")), (a.get (js "blockNumber")).string with
      | .ok blockHash, .ok _ => some (h == blockHash)
      | _, _ => none

def confirmInTime (c : InTime) : Run Unit :=
  match c.sidecar with
  | none => pure ()
  | some sidecar =>
      match lk.baseBlockHash with
      | some ask => add (js "confirmed.ceiling.time")
          ((checkCeilingOnline V (ask 3) sidecar).elim .undetermined judged)
      | none => do
          blockShown (sidecar.get (js "anchor"))
          add (js "confirmed.ceiling.time") .undetermined

/-- Step 10: the block hashes against the nodes the caller named. -/
def confirm (payload : Value) (o : Offline) : Run Unit := do
  confirmFloor V lk payload o.bounds
  confirmPosition V lk payload
  confirmSettlement V lk payload
  confirmInTime V lk o.inTime

end Confirm

/-! ### The result -/

inductive Verdict where
  | true
  | false
  | undetermined
  deriving DecidableEq

/-- The claims of a tree that was not judged. -/
def treeClaimIds : List Str := [js "spec.pin", js "tree.root", js "tree.member", js "bytes.digest"]

def verdictOf (payload : Value) (claims : List CarrierClaim) : Verdict :=
  let pins := claims.find? fun c => c.id == js "attestation.pins"
  let treeUnjudged := isMember payload
    && claims.any fun c => treeClaimIds.contains c.id && c.result == .undetermined
  if claims.any fun c => c.result == .false then .false
  else if (pins.any fun c => c.result == .true) && !treeUnjudged then .true
  else .undetermined

/-- `iso` of a number that a payload states. -/
def isoOf (ts : Value) : Except Thrown Unit :=
  match ts with
  | .num (.fin d) =>
      match Number.ofRat (d.val * 1000) with
      | .fin e => if e.mag ≤ 8640000000000000 then .ok () else .error (rangeError (js "Invalid time value"))
      | _ => .error (rangeError (js "Invalid time value"))
  | _ => .error (rangeError (js "Invalid time value"))

/-- The values that the reading of a payload shows; a FALSE reading shows none. -/
def writeReading (payload : Value) (verdict : Verdict) (bounds : CarrierBounds) (o : Offline) :
    Except Thrown Unit :=
  let commit := (payload.get (js "proof")).get (js "commit")
  if verdict = .false then .ok ()
  else do
    let _ ← match orElse (commit.get (js "epochId")) (.str []) with
      | .str s => .ok s
      | _ => .error (typeError (js "replace is not a function"))
    if !o.floor.withheld then o.floor.ts.elim (.ok ()) iso
    o.inTime.ceilingTime.elim (.ok ()) fun c => iso c.blockTimestamp
    bounds.settledBy.elim (.ok ()) fun s => isoOf s.timestamp
    let _ ← (orElse (commit.get (js "counter")) (.str (js "?"))).string

structure CarrierVerifyResult where
  verdict : Verdict
  bounds : Option CarrierBounds
  claims : List CarrierClaim
  baseTimeWithheld : Bool
  floorTimeWithheld : Bool

/-- The bounds as they were verified. -/
def finalBounds (o : Offline) : CarrierBounds :=
  { o.bounds with
    existedBy := o.inTime.ceilingTime.map fun c =>
      ⟨countValue c.blockNumber, c.blockHash, countValue c.blockTimestamp⟩
    notBefore := { o.bounds.notBefore with
      timestamp := if o.floor.withheld then .null else timeValue o.floor.ts } }

/-- The claims of a run: those without a node, then those of the nodes. -/
def claimsOf (judgments confirmed : List Judged) : List CarrierClaim :=
  judgments.map (fun j => ⟨j, .offline⟩) ++ confirmed.map (fun j => ⟨j, .confirmed⟩)

/-- The result of a payload with a malformed part. -/
def malformed (claims : List CarrierClaim) : CarrierVerifyResult where
  verdict := .false
  bounds := none
  claims := claims ++ [⟨⟨js "wellformed", .false⟩, .offline⟩]
  baseTimeWithheld := false
  floorTimeWithheld := false

def verifyCarrierPayload (lk : CarrierLookups) (payload : BlockPayload) (inner : Option Bytes) :
    CarrierVerifyResult :=
  let first := offline V opts payload.value inner
  match first.out with
  | .error _ => malformed (claimsOf first.log [])
  | .ok o =>
      let last := confirm V lk payload.value o
      let claims := claimsOf first.log last.log
      match last.out with
      | .error _ => malformed claims
      | .ok _ =>
          let verdict := verdictOf payload.value claims
          match writeReading payload.value verdict o.bounds o with
          | .error _ => malformed claims
          | .ok _ => ⟨verdict, some (finalBounds o), claims, o.inTime.withheld, o.floor.withheld⟩

end CarrierVerify

end BitGraph
