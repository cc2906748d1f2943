import BitGraph.Canonical
import BitGraph.Js.Object
import BitGraph.Js.Convert
import BitGraph.Codec
import BitGraph.Sha256
import BitGraph.Lib.WriteOnce
import Mathlib.Data.List.SplitOn

/-!
`verifier.ts`: the checks of a proof.

A proof is any JSON value. `runChecks` gives no reason when it accepts, the reason when it
refuses, or throws, and it hands on the shared context of epoch links.

* **Primitives.** `Crypto` holds what the verifier calls of other libraries: SHA-256, Ed25519,
  P-256, and the host of an origin.
* **Checks.** `validateStructure`, `checkSignature`, `verifyAgency`, `verifySlotAllocation`,
  `checkPolicy`, `validateEpochLinkShape`, with the texts of the program.
* **Context.** `checkEpochLink` reads it, `runChecks` writes it on acceptance.
* **Main results.** `runChecks_accepted` and `runChecks_refused`: what an acceptance does to the
  context, and that nothing else touches it.
-/

namespace BitGraph

open Js

namespace Verifier

/-- What the verifier calls of other libraries. A signature check may throw, with a message. -/
structure Crypto where
  sha256 : HashFn
  /-- Signature, message, public key. -/
  ed25519 : Bytes → Bytes → Bytes → Except Str Bool
  /-- Public key, message, signature. -/
  p256 : Bytes → Bytes → Bytes → Except Str Bool
  /-- `new URL(origin).hostname.toLowerCase()`. -/
  hostname : Str → Option Str

/-- No reason, or the reason of a refusal; or an exception. -/
abbrev Check := Except Thrown (Option Str)

/-- Refuse with a reason. -/
def refuse (reason : Str) : Check := .ok (some reason)

/-- No objection. -/
def pass : Check := .ok none

/-- The next check runs where the first has no objection. -/
def Check.andThen (first next : Check) : Check := do
  match ← first with
  | some reason => refuse reason
  | none => next

/-- Base64 that is its own re-encoding. -/
def fromBase64 (b64 : Str) : Option Bytes :=
  let buf := bufferFromBase64 b64
  if bytesToBase64 buf = b64 then some buf else none

/-- `typeof v === "string" && v.length > 0`. -/
def isNonEmpty (v : Value) : Bool := isText (fun s => s != []) v

/-- The text of a value that was checked to be one. -/
def text : Value → Str
  | .str s => s
  | _ => []

/-! ### Structure -/

/-- `v` is undefined or a finite number that is not negative. -/
def isTime : Value → Bool
  | .undefined => true
  | .num (.fin d) => !Number.lt (.fin d) (.fin (.zero false))
  | _ => false

/-- `v` is undefined or a text. -/
def isOptionalText (v : Value) : Bool := v == .undefined || isText (fun _ => true) v

def validEnforcementTiers : List Value := [.str (js "stub"), .str (js "hw-key"), .str (js "measured-tee")]

/-- The first of a list of checks that fails. -/
def firstRefusal : List (Bool × Str) → Check
  | [] => pass
  | (true, _) :: l => firstRefusal l
  | (false, reason) :: _ => refuse reason

def validateStructure (p : Value) : Check := do
  let artifact := p.get (js "artifact")
  let commit := p.get (js "commit")
  let signer := p.get (js "signer")
  let env := p.get (js "environment")
  let att := env.get (js "attestation")
  match p with
  | .obj _ | .arr _ =>
      if p.get (js "version") ≠ .str (js "bitgraph/1") then
        refuse (js "unsupported proof version: " ++ (← (p.get (js "version")).string))
      else if isRecord artifact = false then
        refuse (js "proof.artifact is missing or not an object")
      else if artifact.get (js "hashAlg") ≠ .str (js "sha256") then
        refuse (js "unsupported hashAlg: " ++ (← (artifact.get (js "hashAlg")).string))
      else firstRefusal [
        (isNonEmpty (artifact.get (js "digestB64")),
          js "proof.artifact.digestB64 must be a non-empty string"),
        (isRecord commit, js "proof.commit is missing or not an object"),
        (isNonEmpty (commit.get (js "nonceB64")),
          js "proof.commit.nonceB64 must be a non-empty string"),
        (isOptionalText (commit.get (js "counter")),
          js "proof.commit.counter must be a string when present"),
        (isTime (commit.get (js "time")),
          js "proof.commit.time must be a non-negative finite number when present"),
        (isOptionalText (commit.get (js "prevB64")),
          js "proof.commit.prevB64 must be a string when present"),
        (isOptionalText (commit.get (js "epochId")),
          js "proof.commit.epochId must be a string when present"),
        (isRecord signer, js "proof.signer is missing or not an object"),
        (isNonEmpty (signer.get (js "publicKeyB64")),
          js "proof.signer.publicKeyB64 must be a non-empty string"),
        (isNonEmpty (signer.get (js "signatureB64")),
          js "proof.signer.signatureB64 must be a non-empty string"),
        (isRecord env, js "proof.environment is missing or not an object"),
        (validEnforcementTiers.contains (env.get (js "enforcement")),
          js "proof.environment.enforcement must be one of: stub, hw-key, measured-tee"),
        (isNonEmpty (env.get (js "measurement")),
          js "proof.environment.measurement must be a non-empty string"),
        (att == .undefined || isRecord att,
          js "proof.environment.attestation must be an object when present"),
        (att == .undefined || isNonEmpty (att.get (js "format")),
          js "proof.environment.attestation.format must be a non-empty string"),
        (att == .undefined || isNonEmpty (att.get (js "reportB64")),
          js "proof.environment.attestation.reportB64 must be a non-empty string")]
  | _ => refuse (js "proof must be an object")

/-! ### Policy -/

/-- The constraints a caller sets; a list that is empty constrains nothing. -/
structure VerificationPolicy where
  requireEnforcement : Option Str
  allowedMeasurements : List Str
  allowedPublicKeys : List Str
  requireAttestation : Bool
  requireAttestationFormat : List Str
  minCounter : Option Str
  maxCounter : Option Str
  minTime : Option Number
  maxTime : Option Number
  requireEpochId : Bool
  requireActor : Bool
  allowedActorKeyIds : List Str
  allowedActorProviders : List Str
  allowedOrigins : List Str
  requireSlot : Bool
  requireAtomic : Bool

/-- `allowed.includes(v)`. -/
def includes (allowed : List Str) (v : Value) : Bool := isText (fun s => allowed.contains s) v

/-- The counter against one bound; `outside` compares the counter with the bound. -/
def checkCounter (counter : Value) (bound : Option Str) (name : Str) (outside : ℤ → ℤ → Bool)
    (relation : Str) : Check :=
  match bound with
  | none => pass
  | some b =>
      match bigInt? counter, bigInt? (.str b) with
      | none, _ => refuse (js "could not parse proof counter value as integer")
      | some _, none => refuse (js "could not parse policy " ++ name ++ js " as integer")
      | some c, some m =>
          if outside c m then refuse (js "counter " ++ text counter ++ relation ++ b) else pass

/-- The time against one bound. -/
def checkTime (time : Value) (bound : Option Number) (outside : Number → Number → Bool)
    (relation : Str) : Check :=
  match bound, time with
  | some b, .num t =>
      if outside t b then refuse (js "commit time " ++ t.toStr ++ relation ++ b.toStr) else pass
  | _, _ => pass

/-- `"format" in auth && auth.format === "webauthn"`. -/
def isWebAuthn (auth : Value) : Except Thrown Bool :=
  match auth with
  | .obj _ | .arr _ => .ok (auth.get (js "format") == .str (js "webauthn"))
  | v => .error (typeError (js "Cannot use 'in' operator to search for 'format' in "
      ++ v.toText.getD []))

/-- The origin of a WebAuthn authorization, `none` where it cannot be read. -/
def originOf (auth : Value) : Option Value := do
  let clientData ← parse (← (auth.get (js "clientDataJSON")).toText)
  ((clientData.prop (js "origin")).toOption)

def checkOrigins (proof : Value) (allowed : List Str) : Check :=
  if allowed = [] then pass
  else
    let agency := proof.get (js "agency")
    if agency = .undefined then
      refuse (js "policy requires an allowed origin but proof has no agency")
    else do
      let auth ← agency.prop (js "authorization")
      if !(← isWebAuthn auth) then
        refuse (js "policy requires an allowed WebAuthn origin but the authorization is not WebAuthn")
      else
        let origin := (originOf auth).getD .undefined
        if includes allowed origin then pass
        else
          let shown := if origin = .undefined ∨ origin = .null then .str (js "(none)") else origin
          refuse (js "WebAuthn origin \"" ++ (← shown.string) ++ js "\" is not in the allowed set")

/-- The constraints on an actor, `field` read off it. -/
def checkActor (proof : Value) (allowed : List Str) (field : Str) (absent : Str)
    (other : Value → Check) : Check :=
  if allowed = [] then pass
  else
    let agency := proof.get (js "agency")
    if agency = .undefined then refuse absent
    else do
      let actor ← agency.prop (js "actor")
      let v ← actor.prop field
      if includes allowed v then pass else other v

def checkPolicy (proof : Value) (policy : VerificationPolicy) : Check :=
  let commit := proof.get (js "commit")
  let env := proof.get (js "environment")
  let att := env.get (js "attestation")
  let counter := commit.get (js "counter")
  let time := commit.get (js "time")
  let agency := proof.get (js "agency")
  let hasCounter := policy.minCounter.isNone && policy.maxCounter.isNone || counter != .undefined
  let hasTime := policy.minTime.isNone && policy.maxTime.isNone || time != .undefined
  (firstRefusal [
    (policy.requireEnforcement.all fun t => env.get (js "enforcement") == .str t,
      js "enforcement tier \"" ++ text (env.get (js "enforcement"))
        ++ js "\" does not meet required tier \"" ++ policy.requireEnforcement.getD [] ++ js "\""),
    (policy.allowedMeasurements == []
        || includes policy.allowedMeasurements (env.get (js "measurement")),
      js "measurement \"" ++ text (env.get (js "measurement")) ++ js "\" is not in the allowed set"),
    (policy.allowedPublicKeys == []
        || includes policy.allowedPublicKeys ((proof.get (js "signer")).get (js "publicKeyB64")),
      js "proof public key is not in the allowed set"),
    (!policy.requireAttestation || att != .undefined,
      js "policy requires attestation but proof has none"),
    (policy.requireAttestationFormat == [] || att != .undefined,
      js "policy requires attestation format but proof has no attestation"),
    (policy.requireAttestationFormat == []
        || includes policy.requireAttestationFormat (att.get (js "format")),
      js "attestation format \"" ++ text (att.get (js "format")) ++ js "\" is not in the required set"),
    (hasCounter, js "policy requires a counter but proof has none")]).andThen <|
  (checkCounter counter policy.minCounter (js "minCounter") (fun c m => c < m)
    (js " is below minimum ")).andThen <|
  (checkCounter counter policy.maxCounter (js "maxCounter") (fun c m => m < c)
    (js " is above maximum ")).andThen <|
  (firstRefusal [(hasTime, js "policy requires a time field but proof has none")]).andThen <|
  (checkTime time policy.minTime (fun t b => Number.lt t b) (js " is before minimum ")).andThen <|
  (checkTime time policy.maxTime (fun t b => Number.lt b t) (js " is after maximum ")).andThen <|
  (firstRefusal [
    (!policy.requireEpochId || isNonEmpty (commit.get (js "epochId")),
      js "policy requires epochId but proof has none"),
    (!policy.requireActor || agency != .undefined,
      js "policy requires actor (agency) but proof has none")]).andThen <|
  (checkActor proof policy.allowedActorKeyIds (js "keyId")
    (js "policy requires allowed actor key ID but proof has no agency")
    fun _ => refuse (js "actor key ID is not in the allowed set")).andThen <|
  (checkActor proof policy.allowedActorProviders (js "provider")
    (js "policy requires allowed actor provider but proof has no agency")
    fun v => do refuse (js "actor provider \"" ++ (← v.string)
      ++ js "\" is not in the allowed set")).andThen <|
  (checkOrigins proof policy.allowedOrigins).andThen <|
  firstRefusal [
    (!policy.requireSlot || proof.get (js "slotAllocation") != .undefined,
      js "policy requires slotAllocation (the reserved position's record) but proof has none"),
    (!policy.requireAtomic || commit.get (js "atomic") == .bool true,
      js ("policy requires a bind (commit.atomic: the nonce and the payload in one action) " ++
        "but proof has none"))]

/-! ### Agency -/

section Checks

variable (C : Crypto)

/-- The host and its parent domains with at least two labels. -/
def originCandidates (host : Str) : List Str :=
  let labels := host.splitOn 46
  ((List.range labels.length).takeWhile fun i => !(0 < i && labels.length - i < 2)).map fun i =>
    List.intercalate [46] (labels.drop i)

def checkWebAuthnOrigin (origin : Value) (authData : Bytes) : Check :=
  match origin with
  | .str (c :: s) =>
      match C.hostname (c :: s) with
      | none => refuse (js "agency: clientDataJSON origin is not a valid origin")
      | some [] => refuse (js "agency: clientDataJSON origin has no host")
      | some host =>
          let rpIdHash := bytesToHex (authData.take 32)
          if (originCandidates host).any fun c => bytesToHex (C.sha256 (utf8Encode c)) == rpIdHash
          then pass
          else refuse (js "agency: authenticatorData rpIdHash does not match the origin's domain")
  | _ => refuse (js "agency: clientDataJSON missing origin field")

/-- `+` and `/` for `-` and `_`, padded to groups of four. -/
def unUrl (s : Str) : Str :=
  let t := s.map fun c => if c = 45 then 43 else if c = 95 then 47 else c
  t ++ List.replicate ((4 - t.length % 4) % 4) 61

/-- Check a P-256 signature. -/
def checkP256 (key message signature : Bytes) (reason : Str) : Check :=
  match C.p256 key message signature with
  | .error message => .error (error message)
  | .ok true => pass
  | .ok false => refuse reason

/-- The client data against the challenge, the authenticator data and the signature. -/
def checkAssertion (authorization type challenge origin : Value) (pubKeyDer sigBytes : Bytes) :
    Check :=
  let authData := bufferFromBase64 (text (authorization.get (js "authenticatorDataB64")))
  let flags := (authData.getD 32 0).toNat
  if type ≠ .str (js "webauthn.get") then
    type.string.bind fun shown =>
      refuse (js "agency: clientDataJSON.type must be \"webauthn.get\", got \"" ++ shown ++ js "\"")
  else if !challenge.truthy then refuse (js "agency: clientDataJSON missing challenge field")
  else if !isText (fun _ => true) challenge then
    .error (typeError (js "clientData.challenge.replace is not a function"))
  else if authorization.get (js "challenge") ≠ .str (unUrl (text challenge)) then
    refuse (js "agency: clientDataJSON challenge does not match authorization.challenge")
  else if authData.length < 37 then refuse (js "agency: authenticatorData too short")
  else if flags % 2 = 0 then refuse (js "agency: authenticatorData UP flag not set")
  else if flags / 4 % 2 = 0 then refuse (js "agency: authenticatorData UV flag not set")
  else
    let clientDataHash := C.sha256 (utf8Encode (text (authorization.get (js "clientDataJSON"))))
    (checkWebAuthnOrigin C origin authData).andThen <|
      checkP256 C pubKeyDer (authData ++ clientDataHash) sigBytes
        (js "agency: WebAuthn P-256 signature verification failed")

/-- The WebAuthn assertion. -/
def verifyWebAuthn (authorization : Value) (pubKeyDer sigBytes : Bytes) : Check :=
  let json := authorization.get (js "clientDataJSON")
  if !isNonEmpty json then refuse (js "agency: WebAuthn authorization missing clientDataJSON")
  else if !isNonEmpty (authorization.get (js "authenticatorDataB64")) then
    refuse (js "agency: WebAuthn authorization missing authenticatorDataB64")
  else
    match parse (text json) with
    | none => refuse (js "agency: clientDataJSON is not valid JSON")
    | some clientData => do
        let type ← clientData.prop (js "type")
        let challenge := clientData.get (js "challenge")
        let origin := clientData.get (js "origin")
        checkAssertion C authorization type challenge origin pubKeyDer sigBytes

mutual

/-- What a list of property names keeps of a value, at every depth. -/
def pick (names : List Str) : Value → Value
  | .arr l => .arr (pickList names l)
  | .obj l => .obj (names.filterMap fun k => (List.lookup k (pickFields names l)).map fun v => (k, v))
  | v => v

def pickList (names : List Str) : List Value → List Value
  | [] => []
  | v :: l => pick names v :: pickList names l

def pickFields (names : List Str) : Fields → Fields
  | [] => []
  | (k, v) :: l => (k, pick names v) :: pickFields names l

end

/-- The payload of a direct authorization, its members in the order of their names. -/
def canonicalPayload (authorization : Value) : Value :=
  let names := [js "actorKeyId", js "artifactHash", js "challenge"]
    ++ (if authorization.get (js "protocolVersion") = .undefined then [] else [js "protocolVersion"])
    ++ [js "purpose", js "timestamp"]
  pick names (.obj (names.map fun k => (k, authorization.get k)))

/-- The signature of a device over the payload. -/
def verifyDirect (authorization : Value) (pubKeyDer sigBytes : Bytes) : Check :=
  match (canonicalPayload authorization).stringify with
  | .error _ => .error (typeError (js "Do not know how to serialize a BigInt"))
  | .ok t => checkP256 C pubKeyDer (utf8Encode (t.getD [])) sigBytes
      (js "agency: P-256 signature verification failed")

/-- What is thrown while a signature is checked is a reason. -/
def catchP256 (check : Check) : Check :=
  match check with
  | .error e => refuse (js "agency: P-256 signature verification error: " ++ e.message)
  | .ok r => .ok r

def verifyAgency (proof : Value) : Check := do
  let agency := proof.get (js "agency")
  let actor ← agency.prop (js "actor")
  let authorization ← agency.prop (js "authorization")
  let webAuthn ← isWebAuthn authorization
  let keyId ← actor.prop (js "keyId")
  let publicKey ← actor.prop (js "publicKeyB64")
  let algorithm ← actor.prop (js "algorithm")
  let purpose := authorization.get (js "purpose")
  let artifactHash := authorization.get (js "artifactHash")
  let digest := (proof.get (js "artifact")).get (js "digestB64")
  let batch := (agency.get (js "batchContext")).get (js "batchDigests")
  let pubKeyDer := bufferFromBase64 (text publicKey)
  let sigBytes := bufferFromBase64 (text (authorization.get (js "signatureB64")))
  if !isNonEmpty keyId then refuse (js "agency.actor.keyId must be a non-empty string")
  else if !isNonEmpty publicKey then
    refuse (js "agency.actor.publicKeyB64 must be a non-empty string")
  else if algorithm ≠ .str (js "ES256") then
    refuse (js "agency.actor.algorithm must be \"ES256\", got \"" ++ (← algorithm.string) ++ js "\"")
  else if !isNonEmpty (actor.get (js "provider")) then
    refuse (js "agency.actor.provider must be a non-empty string")
  else if purpose ≠ .str (js "bitgraph/commit-authorize/v1") then
    refuse (js "agency.authorization.purpose must be \"bitgraph/commit-authorize/v1\", got \""
      ++ (← purpose.string) ++ js "\"")
  else if !isNonEmpty (authorization.get (js "signatureB64")) then
    refuse (js "agency.authorization.signatureB64 must be a non-empty string")
  else if keyId ≠ .str (bytesToHex (C.sha256 pubKeyDer)) then
    refuse (js "agency: actor.keyId does not match SHA-256 of public key")
  else if !Value.strictEq (authorization.get (js "actorKeyId")) keyId then
    refuse (js "agency: authorization.actorKeyId does not match actor.keyId")
  else if !Value.strictEq artifactHash digest && !batchHolds batch digest artifactHash then
    refuse (js "agency: authorization.artifactHash does not match proof.artifact.digestB64")
  else catchP256 (if webAuthn then verifyWebAuthn C authorization pubKeyDer sigBytes
    else verifyDirect C authorization pubKeyDer sigBytes)
where
  /-- A batch that lists the digest and opens with the one that was signed. -/
  batchHolds (batch digest artifactHash : Value) : Bool :=
    match batch with
    | .arr l => l.any (fun v => Value.strictEq v digest)
        && Value.strictEq (l.getD 0 .undefined) artifactHash
    | _ => false

/-! ### Slot allocation -/

/-- The signed part of a slot record. -/
def slotBody (slot : Value) : Value :=
  let time := slot.get (js "time")
  let chainId := slot.get (js "chainId")
  .obj ([(js "version", slot.get (js "version")), (js "nonceB64", slot.get (js "nonceB64")),
      (js "counter", slot.get (js "counter"))]
    ++ (if time = .undefined then [] else [(js "time", time)])
    ++ [(js "epochId", slot.get (js "epochId")), (js "publicKeyB64", slot.get (js "publicKeyB64"))]
    ++ (if chainId.truthy then [(js "chainId", chainId)] else []))

/-- Check an Ed25519 signature, with the reason of what is thrown. -/
def checkEd25519 (signature message key : Bytes) (thrown : Str → Str) (reason : Str) : Check :=
  match C.ed25519 signature message key with
  | .error m => refuse (thrown m)
  | .ok true => pass
  | .ok false => refuse reason

/-- What is fixed by a slot record alone. -/
def verifySlotRecord (slot : Value) (canonicalBytes : Bytes) : Check :=
  match fromBase64 (text (slot.get (js "signatureB64"))),
      fromBase64 (text (slot.get (js "publicKeyB64"))) with
  | some sig, some key =>
      if sig.length ≠ 64 then
        refuse (js "slotAllocation.signatureB64 decodes to " ++ decimal sig.length
          ++ js " bytes; expected 64 (Ed25519)")
      else if key.length ≠ 32 then
        refuse (js "slotAllocation.publicKeyB64 decodes to " ++ decimal key.length
          ++ js " bytes; expected 32 (Ed25519)")
      else (checkEd25519 C sig canonicalBytes key
          (fun m => js "slotAllocation signature verification error: " ++ m)
          (js "slotAllocation signature verification failed")).andThen <|
        match (slotBody slot).keys.find? fun k => [js "digestB64", js "artifact", js "hashAlg",
            js "signatureB64"].contains k with
        | some k => refuse (js "slotAllocation body contains forbidden field '" ++ k
            ++ js "' — causal independence violated")
        | none => pass
  | _, _ => refuse (js "slotAllocation contains invalid base64")

/-- The slot record against the commit. -/
def verifySlotBinding (slot commit signer : Value) (canonicalBytes : Bytes) : Check :=
  let slotHash := commit.get (js "slotHashB64")
  let slotCounter := slot.get (js "counter")
  let counter := commit.get (js "counter")
  if !isNonEmpty slotHash then
    refuse (js "commit.slotHashB64 must be present when slotAllocation is present")
  else
    match fromBase64 (text slotHash) with
    | none => refuse (js "commit.slotHashB64 is not valid base64")
    | some hash =>
        if bytesEqual (C.sha256 canonicalBytes) hash = false then
          refuse (js ("commit.slotHashB64 does not match SHA-256 of the canonical position record: " ++
            "position binding broken"))
        else if !Value.strictEq (slot.get (js "nonceB64")) (commit.get (js "nonceB64")) then
          refuse (js "slotAllocation.nonceB64 does not match commit.nonceB64")
        else if !isNonEmpty (commit.get (js "slotCounter")) then
          refuse (js "commit.slotCounter must be present when slotAllocation is present")
        else if !Value.strictEq (commit.get (js "slotCounter")) slotCounter then
          refuse (js "commit.slotCounter does not match slotAllocation.counter")
        else if counter = .undefined then
          refuse (js "commit.counter must be present for position ordering verification")
        else
          match bigInt? slotCounter, bigInt? counter with
          | some m, some n =>
              if n ≤ m then
                refuse (js "slotAllocation.counter (" ++ text slotCounter
                  ++ js ") must be less than commit.counter (" ++ text counter ++ js ")")
              else if !Value.strictEq (slot.get (js "publicKeyB64")) (signer.get (js "publicKeyB64"))
              then refuse (js ("slotAllocation.publicKeyB64 does not match signer.publicKeyB64 — " ++
                "different enclave"))
              else if commit.get (js "epochId") ≠ .undefined
                  ∧ Value.strictEq (slot.get (js "epochId")) (commit.get (js "epochId")) = false
              then refuse (js ("slotAllocation.epochId does not match commit.epochId — " ++
                "different lifecycle"))
              else pass
          | _, _ => refuse (js "could not parse the reserved or commit counter as an integer")

def verifySlotAllocation (proof : Value) : Check := do
  let slot := proof.get (js "slotAllocation")
  let version ← slot.prop (js "version")
  if version ≠ .str (js "bitgraph/slot/1") then
    refuse (js "slotAllocation.version must be \"bitgraph/slot/1\", got \"" ++ (← version.string)
      ++ js "\"")
  else
    match ← firstRefusal [
      (isNonEmpty (slot.get (js "nonceB64")), js "slotAllocation.nonceB64 must be a non-empty string"),
      (isNonEmpty (slot.get (js "counter")), js "slotAllocation.counter must be a non-empty string"),
      (isTime (slot.get (js "time")),
        js "slotAllocation.time must be a non-negative finite number when present"),
      (isNonEmpty (slot.get (js "epochId")), js "slotAllocation.epochId must be a non-empty string"),
      (isNonEmpty (slot.get (js "publicKeyB64")),
        js "slotAllocation.publicKeyB64 must be a non-empty string"),
      (isNonEmpty (slot.get (js "signatureB64")),
        js "slotAllocation.signatureB64 must be a non-empty string")] with
    | some reason => refuse reason
    | none => do
        let canonicalBytes ← canonicalize (slotBody slot)
        (verifySlotRecord C slot canonicalBytes).andThen <|
          verifySlotBinding C slot (proof.get (js "commit")) (proof.get (js "signer")) canonicalBytes

/-- A bind: the payload at the count after the nonce. -/
def checkAtomic (proof : Value) : Check :=
  let commit := proof.get (js "commit")
  let slot := proof.get (js "slotAllocation")
  let atomic := commit.get (js "atomic")
  let counter := commit.get (js "counter")
  if atomic = .undefined then pass
  else if atomic ≠ .bool true then refuse (js "commit.atomic must be true when present")
  else if slot = .undefined then
    refuse (js "commit.atomic requires slotAllocation (the nonce's own record)")
  else
    match bigInt? (if counter = .undefined then .str (js "-1") else counter),
        bigInt? (slot.get (js "counter")) with
    | some n, some m =>
        if n ≠ m + 1 then
          refuse (js "commit.atomic: the payload count ("
            ++ (if counter = .undefined then js "undefined" else text counter)
            ++ js ") must be the nonce count (" ++ text (slot.get (js "counter")) ++ js ") plus one")
        else pass
    | _, _ => refuse (js
        "commit.atomic: could not parse the nonce or payload counter as an integer")

/-! ### The body -/

/-- What the proof's key signed. -/
def signedBody (proof : Value) : Except Thrown Value := do
  let env := proof.get (js "environment")
  let agency := proof.get (js "agency")
  let optional (k : Str) (v : Value) : Fields := if v = .undefined then [] else [(k, v)]
  let actor ← if agency = .undefined then pure .undefined else agency.prop (js "actor")
  return .obj ([(js "version", proof.get (js "version")), (js "artifact", proof.get (js "artifact")),
      (js "commit", proof.get (js "commit")),
      (js "publicKeyB64", (proof.get (js "signer")).get (js "publicKeyB64")),
      (js "enforcement", env.get (js "enforcement")), (js "measurement", env.get (js "measurement"))]
    ++ (if env.get (js "attestation") = .undefined then [] else
      [(js "attestationFormat", (env.get (js "attestation")).get (js "format"))])
    ++ (if agency = .undefined then [] else [(js "actor", actor)])
    ++ optional (js "policy") (proof.get (js "policy"))
    ++ optional (js "attribution") (proof.get (js "attribution")))

/-- The artifact, where its bytes are given. -/
def checkArtifact (proof : Value) (bytes : Option Bytes) : Check :=
  match fromBase64 (text ((proof.get (js "artifact")).get (js "digestB64"))) with
  | none => refuse (js "artifact.digestB64 is not valid base64")
  | some digest =>
      if bytes.any fun b => !bytesEqual (C.sha256 b) digest then
        refuse (js ("artifact digest mismatch: " ++
          "the provided bytes do not match the committed digest"))
      else pass

/-- The signature over the body. -/
def checkBodySignature (signatureB64 : Str) (canonicalBytes key : Bytes) : Check :=
  match fromBase64 signatureB64 with
  | none => refuse (js "signer.signatureB64 is not valid base64")
  | some sig =>
      if sig.length ≠ 64 then
        refuse (js "signer.signatureB64 decodes to " ++ decimal sig.length
          ++ js " bytes; expected 64 (Ed25519)")
      else
        checkEd25519 C sig canonicalBytes key (fun m => js "signature verification error: " ++ m)
          (js "signature verification failed: signature does not match")

def checkSignature (proof : Value) : Check :=
  let signer := proof.get (js "signer")
  match fromBase64 (text (signer.get (js "publicKeyB64"))) with
  | none => refuse (js "signer.publicKeyB64 is not valid base64")
  | some key =>
      if key.length ≠ 32 then
        refuse (js "signer.publicKeyB64 decodes to " ++ decimal key.length
          ++ js " bytes; expected 32 (Ed25519)")
      else do
        let canonicalBytes ← canonicalize (← signedBody proof)
        checkBodySignature C (text (signer.get (js "signatureB64"))) canonicalBytes key

/-! ### Epoch links -/

/-- `commit.epochLink`. -/
structure EpochLink where
  prevEpochId : Str
  prevPublicKeyB64 : Str
  prevCounter : Str
  prevProofHashB64 : Str
  toEpochId : Str
  toPublicKeyB64 : Str
  deriving DecidableEq

/-- The link of a proof, as its fields are read. -/
def epochLink (proof : Value) : EpochLink :=
  let link := (proof.get (js "commit")).get (js "epochLink")
  { prevEpochId := text (link.get (js "prevEpochId"))
    prevPublicKeyB64 := text (link.get (js "prevPublicKeyB64"))
    prevCounter := text (link.get (js "prevCounter"))
    prevProofHashB64 := text (link.get (js "prevProofHashB64"))
    toEpochId := text (link.get (js "toEpochId"))
    toPublicKeyB64 := text (link.get (js "toPublicKeyB64")) }

/-- The predecessors consumed so far, each with the epoch that consumed it. -/
abbrev VerificationContext := WriteOnce.Store Str Str

def createVerificationContext : VerificationContext := WriteOnce.Store.empty

/-- What the key of a predecessor is the hash of. -/
def successorInput (link : EpochLink) : Bytes :=
  utf8Encode (link.prevEpochId ++ js "|" ++ link.prevCounter ++ js "|" ++ link.prevProofHashB64)

def computeSuccessorKey (link : EpochLink) : Str := bytesToBase64 (C.sha256 (successorInput link))

def validateEpochLinkShape (proof : Value) : Check := do
  let commit := proof.get (js "commit")
  let link := commit.get (js "epochLink")
  let toEpochId := link.get (js "toEpochId")
  let toPublicKey := link.get (js "toPublicKeyB64")
  let prevEpochId ← link.prop (js "prevEpochId")
  firstRefusal [
    (isNonEmpty prevEpochId, js "epochLink.prevEpochId must be a non-empty string"),
    (isNonEmpty (link.get (js "prevPublicKeyB64")),
      js "epochLink.prevPublicKeyB64 must be a non-empty string"),
    (isNonEmpty (link.get (js "prevCounter")), js "epochLink.prevCounter must be a non-empty string"),
    (isNonEmpty (link.get (js "prevProofHashB64")),
      js "epochLink.prevProofHashB64 must be a non-empty string"),
    (isNonEmpty toEpochId, js "epochLink.toEpochId must be a non-empty string"),
    (isNonEmpty toPublicKey, js "epochLink.toPublicKeyB64 must be a non-empty string"),
    ((bigInt? (link.get (js "prevCounter"))).isSome,
      js "epochLink.prevCounter is not a valid decimal string"),
    (commit.get (js "epochId") == .undefined || Value.strictEq toEpochId (commit.get (js "epochId")),
      js "epochLink.toEpochId \"" ++ text toEpochId ++ js "\" does not match proof commit.epochId \""
        ++ text (commit.get (js "epochId")) ++ js "\" — successor binding broken"),
    (Value.strictEq toPublicKey ((proof.get (js "signer")).get (js "publicKeyB64")),
      js ("epochLink.toPublicKeyB64 does not match proof signer.publicKeyB64 — " ++
        "successor binding broken")),
    (!Value.strictEq prevEpochId toEpochId,
      js "epochLink.prevEpochId equals toEpochId — epoch link must cross epoch boundary"),
    (!Value.strictEq (link.get (js "prevPublicKeyB64")) toPublicKey,
      js "epochLink.prevPublicKeyB64 equals toPublicKeyB64 — epochs must have different keys")]

/-- The reason where another epoch consumed the predecessor. -/
def forkDetected (link : EpochLink) (existing : Str) : Str :=
  js "FORK DETECTED: predecessor (epoch=" ++ link.prevEpochId.take 12 ++ js "..., counter="
    ++ link.prevCounter ++ js ") already consumed by epoch " ++ existing.take 12
    ++ js "..., but this proof claims consumption by epoch " ++ link.toEpochId.take 12
    ++ js "... — single-successor invariant violated"

/-- The reason of a refusal, or what an acceptance records. -/
inductive LinkResult where
  | refused (reason : Str)
  | pending (consumption : Option (Str × Str))

/-- Reads the context, never writes it. -/
def checkEpochLink (proof : Value) (context : VerificationContext) : Except Thrown LinkResult := do
  let link := epochLink proof
  match ← validateEpochLinkShape proof with
  | some reason => return .refused reason
  | none =>
      match context (computeSuccessorKey C link) with
      | some existing =>
          if existing ≠ link.toEpochId then return .refused (forkDetected link existing)
          else return .pending none
      | none => return .pending (some (computeSuccessorKey C link, link.toEpochId))

/-! ### The checks in their order -/

/-- The checks before the context is read. -/
def checkProof (proof : Value) (bytes : Option Bytes) : Check :=
  (validateStructure proof).andThen <|
  (checkArtifact C proof bytes).andThen <|
  (checkSignature C proof).andThen <|
  (if proof.get (js "agency") = .undefined then pass else verifyAgency C proof).andThen <|
  (if proof.get (js "slotAllocation") = .undefined then pass
    else verifySlotAllocation C proof).andThen <|
  checkAtomic proof

/-- The link of a proof that has one. -/
def linkResult (proof : Value) (context : VerificationContext) : Except Thrown LinkResult :=
  if (proof.get (js "commit")).get (js "epochLink") = .undefined then .ok (.pending none)
  else checkEpochLink C proof context

/-- The context after what an acceptance records. -/
def consume (context : VerificationContext) : Option (Str × Str) → VerificationContext
  | some (key, toEpochId) => Function.update context key (some toEpochId)
  | none => context

/-- The result of the checks, and the context after them. -/
def runChecks (proof : Value) (bytes : Option Bytes) (trustAnchors : Option VerificationPolicy)
    (context : VerificationContext) : Check × VerificationContext :=
  match checkProof C proof bytes with
  | .error e => (.error e, context)
  | .ok (some reason) => (refuse reason, context)
  | .ok none =>
      match linkResult C proof context with
      | .error e => (.error e, context)
      | .ok (.refused reason) => (refuse reason, context)
      | .ok (.pending consumption) =>
          match (trustAnchors.map (checkPolicy proof)).getD pass with
          | .error e => (.error e, context)
          | .ok (some reason) => (refuse reason, context)
          | .ok none => (pass, consume context consumption)

/-- The result with a context of its own. -/
def verifyProofIntegrity (proof : Value) (trustAnchors : Option VerificationPolicy) : Check :=
  (runChecks C proof none trustAnchors createVerificationContext).1

end Checks

/-! ### Lists of checks -/

lemma firstRefusal_eq_pass {l : List (Bool × Str)} :
    firstRefusal l = pass ↔ ∀ x ∈ l, x.1 = true := by
  induction l with
  | nil => simp [firstRefusal]
  | cons x l ih =>
      obtain ⟨ok, reason⟩ := x
      cases ok with
      | true => simp [firstRefusal, ih]
      | false => simp [firstRefusal, refuse, pass]

lemma andThen_eq_pass {first next : Check} :
    first.andThen next = pass ↔ first = pass ∧ next = pass := by
  rcases first with e | _ | reason
  · simp [Check.andThen, pass]
  · simp [Check.andThen, pass]
  · simp [Check.andThen, pass, refuse]

lemma eq_pass_or_ne (check : Check) : check = pass ∨ check ≠ pass := by
  rcases check with e | _ | reason
  · exact Or.inr (by simp [pass])
  · exact Or.inl rfl
  · exact Or.inr (by simp [pass])

/-- What a valid structure says of its version, its counter and its attestation. -/
lemma of_validateStructure {p : Value} (h : validateStructure p = pass) :
    (∃ l, p = .obj l) ∧ p.get (js "version") = .str (js "bitgraph/1")
      ∧ isOptionalText ((p.get (js "commit")).get (js "counter")) = true
      ∧ ((p.get (js "environment")).get (js "attestation") = .undefined
        ∨ isRecord ((p.get (js "environment")).get (js "attestation")) = true) := by
  have hobj : ∃ l, p = .obj l := by
    cases p with
    | obj l => exact ⟨l, rfl⟩
    | arr l => cases h
    | _ => cases h
  obtain ⟨l, rfl⟩ := hobj
  rw [validateStructure] at h
  by_cases hversion : (Value.obj l).get (js "version") = .str (js "bitgraph/1")
  swap
  · simp only [hversion, ne_eq, not_false_eq_true, if_true] at h
    obtain ⟨s, -, hs⟩ := bind_eq_ok h
    cases hs
  by_cases hartifact : isRecord ((Value.obj l).get (js "artifact")) = true
  swap
  · simp only [hversion, ne_eq, not_true, if_false, Bool.not_eq_true _ ▸ hartifact, if_true] at h
    cases h
  by_cases halg : ((Value.obj l).get (js "artifact")).get (js "hashAlg") = .str (js "sha256")
  swap
  · simp only [hversion, hartifact, halg, ne_eq, not_true, not_false_eq_true, if_false, if_true,
      Bool.true_eq_false] at h
    obtain ⟨s, -, hs⟩ := bind_eq_ok h
    cases hs
  simp only [hversion, hartifact, halg, ne_eq, not_true, if_false, Bool.true_eq_false] at h
  rw [firstRefusal_eq_pass] at h
  simp only [List.forall_mem_cons] at h
  obtain ⟨-, -, -, hcounter, -, -, -, -, -, -, -, -, -, hatt, -⟩ := h
  rw [Bool.or_eq_true, beq_iff_eq] at hatt
  exact ⟨⟨l, rfl⟩, hversion, hcounter, hatt⟩

/-! ### What a verification does to the context -/

section Context

variable {C : Crypto} {proof : Value} {bytes : Option Bytes}
  {trustAnchors : Option VerificationPolicy} {context : VerificationContext}

/-- An acceptance passes every check and records what the link left pending. -/
theorem runChecks_accepted (h : (runChecks C proof bytes trustAnchors context).1 = pass) :
    checkProof C proof bytes = pass ∧ (trustAnchors.map (checkPolicy proof)).getD pass = pass
      ∧ ∃ consumption, linkResult C proof context = .ok (.pending consumption)
        ∧ (runChecks C proof bytes trustAnchors context).2 = consume context consumption := by
  rw [runChecks] at h ⊢
  rcases hproof : checkProof C proof bytes with e | _ | reason
  · simp [hproof, pass] at h
  · rcases hlink : linkResult C proof context with e | reason | consumption
    · simp [hproof, hlink, pass] at h
    · simp [hproof, hlink, pass, refuse] at h
    · rcases hpolicy : (trustAnchors.map (checkPolicy proof)).getD pass with e | _ | reason
      · simp only [hproof, hlink, hpolicy] at h
        simp [pass] at h
      · exact ⟨rfl, rfl, consumption, rfl, rfl⟩
      · simp only [hproof, hlink, hpolicy] at h
        simp [pass, refuse] at h
  · simp [hproof, pass, refuse] at h

/-- A refusal or an exception leaves the context as it was. -/
theorem runChecks_refused (h : (runChecks C proof bytes trustAnchors context).1 ≠ pass) :
    (runChecks C proof bytes trustAnchors context).2 = context := by
  rw [runChecks] at h ⊢
  rcases hproof : checkProof C proof bytes with e | _ | reason
  · rfl
  · rcases hlink : linkResult C proof context with e | reason | consumption
    · rfl
    · rfl
    · rcases hpolicy : (trustAnchors.map (checkPolicy proof)).getD pass with e | _ | reason
      · rfl
      · simp [hproof, hlink, hpolicy] at h
      · rfl
  · rfl

/-- The context enters the result only through the check of the link. -/
lemma runChecks_fst_congr {context' : VerificationContext}
    (h : linkResult C proof context = linkResult C proof context') :
    (runChecks C proof bytes trustAnchors context).1
      = (runChecks C proof bytes trustAnchors context').1 := by
  rw [runChecks, runChecks, h]
  rcases checkProof C proof bytes with e | _ | reason
  · rfl
  · rcases linkResult C proof context' with e | reason | consumption
    · rfl
    · rfl
    · rcases (trustAnchors.map (checkPolicy proof)).getD pass with e | _ | reason <;> rfl
  · rfl

end Context

end Verifier

end BitGraph
