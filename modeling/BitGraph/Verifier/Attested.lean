import BitGraph.Ceiling.Block
import BitGraph.Sha256.Eval
import BitGraph.TreeMember
import BitGraph.Verifier.ProofHash

/-!
`attested.ts`: the full check of a plain proof.

* **Hardware.** `verifyNitroAttestation` compares what an attestation document says with the proof; the
  document's decoding, signature, certificates and their validity are the parameter `chain`. `hardware`
  adds the image: published or named by the caller, not retired, and the body it may sign.
* **Bytes.** A member block of the metadata redirects the check from the bytes to the root text the
  tree's proof signs.
* **Main result.** `isValid_eq_iff`: two metadata values give one proof the same validity for the bytes
  it signs exactly where both blocks check or neither does, or another check fails. A block that does
  not check takes a valid verification away.
-/

namespace BitGraph

open Js Verifier TreeMember

namespace Attested

/-! ### Images -/

structure PublishedMeasurement where
  version : Str
  since : Str
  pcr0 : Str
  deriving DecidableEq

/-- The images, oldest first. -/
def PUBLISHED_ENCLAVE_MEASUREMENTS : List PublishedMeasurement :=
  [⟨js "genesis", js "2026-05-15", js
      "8530a6399399c4f23d89f5a1faa2e8bf2e09a5959f117070fca08148377f92c902c695fc926c17f67f35f110327dca92"⟩,
    ⟨js "v2", js "2026-06-27", js
      "bb9dd158703603ec222fe565495ceaa7edc08f665da5c1cddad91442ac2211731390267036d79deb720d13fb704f648a"⟩,
    ⟨js "v4", js "2026-07-05", js
      "e2fccbae77ee40aac4830e84f195e05d69eb4547bbd961f4d3459feba10807140424aca42ad03810354982598c86b9cb"⟩,
    ⟨js "v5", js "2026-07-29", js
      "6483cedffed74680ffb287507744a398b288c3fb943eb3f2e4fe889f8b60b3d575ad8942350360b69a1bd7bf713df27f"⟩,
    ⟨js "v6", js "2026-09-05", js
      "cd8ba52d340fb1be78610b59953ded2ceca23be1cfcc7ab504a26b8fdcd7ba92090f49e28a32d008df046ec4212f77bf"⟩,
    ⟨js "v7", js "2026-09-06", js
      "394c3cf515651dc27187d85e4716c12dfeb99c1227f1fe0eacfaa427d80018e1a28ebba9469e99c7936601f901d74e1d"⟩,
    ⟨js "v8", js "2026-09-07", js
      "eccfc1c78006f4b74f929c992785575c908a0f60eca08ff638cd6c0842f993f182ebb002457b8ef3e732a6a10805c72b"⟩,
    ⟨js "v9", js "2026-09-30", js
      "934feb8bb6f4f7e2d2f85d902a7d5edd0981f706d9d2385638988ac096a05ea0583c3d00eef2a7947865ec66efc1fcf8"⟩,
    ⟨js "v10", js "2026-10-08", js
      "5a947cc66095adcceefa9e5ece5d1416dfe08c3470df1bcaa5b2bc5267b0480e6cdc172fe077cd06b0afb07614307973"⟩,
    ⟨js "v11", js "2026-10-17", js
      "d9128d67c406a30f988f74ece8b5cced5c9a96491289037f50bddb5f10aac2bc9d1d315dd7bf65428899ccde72b95b86"⟩,
    ⟨js "v12", js "2026-10-18", js
      "cf1ca497e1c3f678cce99ec2215f3991c72fd1b54f083a1f58563e88f5fe742e5190c7ebaf27f3aa98622605687e27c9"⟩,
    ⟨js "v13", js "2026-10-19", js
      "adaad0bef62292d35197ae8db19e40685229f1a1e6070a7c77a148c4ada88ee66a1ca50819eebc2017c6716a49f2692f"⟩]

def PUBLISHED_PCR0S : List Str := PUBLISHED_ENCLAVE_MEASUREMENTS.map fun m => m.pcr0

/-- `Date.parse` of a day at midnight, from its year, month and day. -/
def dayMs (since : Str) : ℕ :=
  let y := readDecimal (since.take 4)
  let m := readDecimal ((since.drop 5).take 2)
  let d := readDecimal (since.drop 8)
  -- the year of the count begins in March
  let y := if m ≤ 2 then y - 1 else y
  let days := 365 * y + y / 4 - y / 100 + y / 400 + (153 * ((m + 9) % 12) + 2) / 5 + d - 1 - 719468
  days * 86400000

def imageIsAtomic (version : Str) : Bool := [js "v11", js "v12", js "v13"].contains version

def IMAGE_RETIREMENT_GRACE_DAYS : ℕ := 7

/-! ### What the code calls -/

structure NitroCheck where
  name : Str
  pass : Bool
  detail : Str

/-- What is read of an attestation document; `userData` has a byte where it is there. -/
structure NitroDocument where
  pcr0 : Option Str
  userData : Option Bytes
  timestampMs : Option Number

/-- A document down to the validity of its certificates. -/
structure ChainResult where
  checks : List NitroCheck
  doc : Option NitroDocument
  ok : Bool

/-- The parts that are parameters. -/
structure Calls where
  crypto : Crypto
  /-- The report and the root: decoding, signature, certificates, validity. -/
  chain : Str → Option Bytes → Except Thrown ChainResult
  /-- `toLowerCase` outside ASCII. -/
  table : Str → Str
  /-- `new Date(ms).toISOString()`. -/
  isoString : Number → Except Thrown Str

variable (V : Calls)

/-- The published image a measurement names. -/
def publishedMeasurement (pcr0 : Str) : Option PublishedMeasurement :=
  PUBLISHED_ENCLAVE_MEASUREMENTS.find? fun m => m.pcr0 == toLowerCase V.table pcr0

/-- The last instant of an image, none for the newest. -/
def imageRetiredAfterMs (pcr0 : Str) : Option ℕ := do
  let m ← publishedMeasurement V pcr0
  let next ← PUBLISHED_ENCLAVE_MEASUREMENTS[PUBLISHED_ENCLAVE_MEASUREMENTS.idxOf m + 1]?
  return dayMs next.since + (IMAGE_RETIREMENT_GRACE_DAYS + 1) * 86400000 - 1

/-! ### The attestation -/

structure NitroVerifyOptions where
  expectedPcr0 : Option Str
  expectedUserDataB64 : Str
  rootDer : Option Bytes

structure NitroVerifyResult where
  valid : Bool
  checks : List NitroCheck
  doc : Option NitroDocument

/-- The comparison of the first register with the declared measurement. -/
def pcr0Check (doc : NitroDocument) (expected : Str) : NitroCheck :=
  let ok := doc.pcr0.getD [] == toLowerCase V.table expected
  ⟨js "PCR0", ok, if ok then js "PCR0 inside the document equals the proof's measurement"
    else js "PCR0 " ++ (doc.pcr0.getD []).take 16 ++ js "… is not the proof's measurement "
      ++ expected.take 16 ++ js "…"⟩

/-- The comparison of `user_data` with the hash of the signed body. -/
def userDataCheck (doc : NitroDocument) (expected : Str) : NitroCheck :=
  let ud := doc.userData.map bytesToBase64
  let ok := ud == some expected
  ⟨js "Bound to this proof", ok,
    if ok then js "user_data equals the SHA-256 of this proof's signed body, recomputed here"
    else if ud.isNone then js "the document carries no user_data"
    else js "user_data is not this proof's signed-body hash"⟩

def verifyNitroAttestation (report : Str) (opts : NitroVerifyOptions) : Except Thrown NitroVerifyResult := do
  let r ← V.chain report opts.rootDer
  match r.doc with
  | some doc =>
      if !r.ok then return ⟨false, r.checks, some doc⟩
      else
        let checks := (opts.expectedPcr0.map (pcr0Check V doc)).toList
          ++ [userDataCheck doc opts.expectedUserDataB64]
        return ⟨checks.all fun c => c.pass, r.checks ++ checks, some doc⟩
  | none => return ⟨false, r.checks, none⟩

/-! ### The body of a strict image -/

def isPrintableAscii (s : Str) : Bool := s.all fun c => 32 ≤ c.toNat && c.toNat ≤ 126

mutual

def strictBodyProblem (path : Str) : Value → Option Str
  | .bool _ => none
  | .str s =>
      if isPrintableAscii s then none else some (path ++ js " holds a character outside printable ASCII")
  | .obj l => strictFieldsProblem path l
  | _ => some (path ++ js " is not a string, boolean or object")

def strictFieldsProblem (path : Str) : Fields → Option Str
  | [] => none
  | (k, v) :: l =>
      if !isPrintableAscii k then some (path ++ js " has a key outside printable ASCII")
      else (strictBodyProblem (path ++ js "." ++ k) v).or (strictFieldsProblem path l)

end

/-- Whether an image is one from v13 on. -/
def isStrict (pcr0 : Str) : Bool :=
  match PUBLISHED_ENCLAVE_MEASUREMENTS.findIdx? fun m => m.version == js "v13",
      PUBLISHED_ENCLAVE_MEASUREMENTS.findIdx? fun m => m.pcr0 == pcr0 with
  | some strictFrom, some i => strictFrom ≤ i
  | _, _ => false

/-! ### The checks -/

structure AttestedOptions where
  proof : Value
  bytes : Option Bytes
  pcr0 : Option (List Str)
  rootDer : Option Bytes
  trustAnchors : Option VerificationPolicy
  context : Option VerificationContext

/-- What the attestation and the image say: a refusal with its reason, or the image and the time. -/
inductive Hardware where
  | refused (reason : Str) (checks : List NitroCheck) (pcr0 : Option Str) (attestedAtMs : Option Number)
  | accepted (checks : List NitroCheck) (pcr0 : Str) (attestedAtMs : Option Number)

/-- The report of an attestation that is a Nitro one. -/
def reportOf (proof : Value) : Option Str :=
  let att := (proof.get (js "environment")).get (js "attestation")
  if att.get (js "format") ≠ .str (js "aws-nitro") then none
  else match att.get (js "reportB64") with
  | .str report => if report = [] then none else some report
  | _ => none

/-- `measurement.toLowerCase()`. -/
def declaredOf (proof : Value) : Option Str :=
  match (proof.get (js "environment")).get (js "measurement") with
  | .str s => some (toLowerCase V.table s)
  | _ => none

/-- The refusal of a document that does not verify. -/
def unverified (checks : List NitroCheck) : Str :=
  js "the attestation does not verify: "
    ++ match checks.find? fun c => !c.pass with
      | some bad => bad.name ++ js ": " ++ bad.detail
      | none => js "incomplete"

/-- The image: accepted, in its window, and strict about the body from v13 on. -/
def imageProblem (opts : AttestedOptions) (pcr0 : Str) (attestedAtMs : Option Number) :
    Except Thrown (Option Str) := do
  let accepted := (opts.pcr0.getD PUBLISHED_PCR0S).map (toLowerCase V.table)
  if !accepted.contains pcr0 then
    return some (js "PCR0 " ++ pcr0.take 16
      ++ if opts.pcr0.isSome then js "… is not an image this verifier accepts"
        else js "… is not an enclave image BitGraph published")
  else
    let retiredAfter := if opts.pcr0.isSome then none else imageRetiredAfterMs V pcr0
    match retiredAfter, attestedAtMs with
    | some retired, some at_ =>
        if Number.lt (Number.ofNat retired) at_ then do
          let v := ((publishedMeasurement V pcr0).map fun m => m.version).getD (js "this image")
          return some (v ++ js " was retired; the hardware dated this proof " ++ (← V.isoString at_)
            ++ js ", after its window closed " ++ (← V.isoString (Number.ofNat retired)))
        else strict
    | _, _ => strict
where
  strict : Except Thrown (Option Str) := do
    if isStrict pcr0 then return strictBodyProblem (js "the signed body") (← buildSignedBody opts.proof)
    else return none

/-- The attestation, then the image. -/
def hardware (opts : AttestedOptions) : Except Thrown Hardware :=
  match reportOf opts.proof with
  | none => .ok (.refused (js "no AWS Nitro attestation: a proof without one is not BitGraph's") [] none none)
  | some report => do
      let n ← verifyNitroAttestation V report
        ⟨declaredOf V opts.proof, ← computeSignedBodyHash V.crypto.sha256 opts.proof, opts.rootDer⟩
      let pcr0 := (n.doc.bind fun d => d.pcr0).map (toLowerCase V.table)
      if !n.valid then return .refused (unverified n.checks) n.checks pcr0 none
      else
        let attestedAtMs := n.doc.bind fun d => d.timestampMs
        match pcr0 with
        | none => return .refused (js "the attestation names no PCR0") n.checks none none
        | some pcr0 => do
            match ← imageProblem V opts pcr0 attestedAtMs with
            | some reason => return .refused reason n.checks (some pcr0) attestedAtMs
            | none => return .accepted n.checks pcr0 attestedAtMs

/-- A policy that asks for nothing. -/
def noPolicy : VerificationPolicy where
  requireEnforcement := none
  allowedMeasurements := []
  allowedPublicKeys := []
  requireAttestation := false
  requireAttestationFormat := []
  minCounter := none
  maxCounter := none
  minTime := none
  maxTime := none
  requireEpochId := false
  requireActor := false
  allowedActorKeyIds := []
  allowedActorProviders := []
  allowedOrigins := []
  requireSlot := false
  requireAtomic := false

/-- The proof's own consistency, atomic where the proof or its image is. -/
def consistency (opts : AttestedOptions) (pcr0 : Str) (bytes : Option Bytes) : Check :=
  let atomic := (opts.proof.get (js "commit")).get (js "atomic") == .bool true
    || (publishedMeasurement V pcr0).any fun m => imageIsAtomic m.version
  let policy := opts.trustAnchors.getD noPolicy
  let trustAnchors := if atomic then { policy with requireAtomic := true } else policy
  (runChecks V.crypto opts.proof bytes (some trustAnchors)
    (opts.context.getD createVerificationContext)).1

structure AttestedResult where
  valid : Bool
  reason : Option Str
  checks : List NitroCheck
  pcr0 : Option Str
  image : Option PublishedMeasurement
  attestedAtMs : Option Number
  artifactChecked : Bool
  treeMember : Option (Number × Number)

/-- `out`. -/
def answer (opts : AttestedOptions) (reason : Option Str) (checks : List NitroCheck) (pcr0 : Option Str)
    (attestedAtMs : Option Number) (treeMember : Option (Number × Number)) : AttestedResult :=
  ⟨reason.isNone, reason, checks, pcr0, pcr0.bind (publishedMeasurement V), attestedAtMs, opts.bytes.isSome,
    treeMember⟩

/-- The last step: the proof against the bytes it signs. -/
def conclude (opts : AttestedOptions) (checks : List NitroCheck) (pcr0 : Str) (attestedAtMs : Option Number)
    (bytes : Option Bytes) (treeMember : Option (Number × Number)) : Except Thrown AttestedResult := do
  let reason ← consistency V opts pcr0 bytes
  return answer V opts reason checks (some pcr0) attestedAtMs treeMember

def verifyAttested (opts : AttestedOptions) : Except Thrown AttestedResult := do
  match ← hardware V opts with
  | .refused reason checks pcr0 attestedAtMs =>
      return answer V opts (some reason) checks pcr0 attestedAtMs none
  | .accepted checks pcr0 attestedAtMs =>
      match opts.bytes, opts.bytes.bind fun _ => treeMemberOf opts.proof with
      | some bytes, some member =>
          if !checkTreeMember V.crypto.sha256 opts.proof (.bytes (V.crypto.sha256 bytes)) (some member) then
            return answer V opts (some (js "the file is not in the tree this proof binds")) checks (some pcr0)
              attestedAtMs none
          else
            conclude V opts checks pcr0 attestedAtMs (some (utf8Encode member.rootText))
              (some (member.index, member.files))
      | bytes, _ => conclude V opts checks pcr0 attestedAtMs bytes none

/-- A verification that ends with a valid result. -/
def isValid (opts : AttestedOptions) : Bool :=
  match verifyAttested V opts with
  | .ok r => r.valid
  | .error _ => false

/-! ### Metadata is not signed -/

variable {V} {p q : Value}

/-- Two proofs that differ in their metadata only. -/
structure SameSigned (p q : Value) : Prop where
  objects : (∃ l, p = .obj l) ∧ ∃ l, q = .obj l
  get : ∀ k, k ≠ js "metadata" → p.get k = q.get k

namespace SameSigned

/-- The properties the checks read. -/
lemma reads (h : SameSigned p q) : p.get (js "version") = q.get (js "version")
    ∧ p.get (js "artifact") = q.get (js "artifact") ∧ p.get (js "commit") = q.get (js "commit")
    ∧ p.get (js "signer") = q.get (js "signer") ∧ p.get (js "environment") = q.get (js "environment")
    ∧ p.get (js "agency") = q.get (js "agency") ∧ p.get (js "slotAllocation") = q.get (js "slotAllocation")
    ∧ p.get (js "policy") = q.get (js "policy") ∧ p.get (js "attribution") = q.get (js "attribution") :=
  ⟨h.get _ (by decide), h.get _ (by decide), h.get _ (by decide), h.get _ (by decide), h.get _ (by decide),
    h.get _ (by decide), h.get _ (by decide), h.get _ (by decide), h.get _ (by decide)⟩

lemma validateStructure_eq (h : SameSigned p q) : validateStructure p = validateStructure q := by
  obtain ⟨h1, h2, h3, h4, h5, -⟩ := h.reads
  obtain ⟨⟨l, rfl⟩, m, rfl⟩ := h.objects
  simp only [validateStructure, h1, h2, h3, h4, h5]

lemma signedBody_eq (h : SameSigned p q) : signedBody p = signedBody q := by
  obtain ⟨h1, h2, h3, h4, h5, h6, -, h8, h9⟩ := h.reads
  simp only [signedBody, h1, h2, h3, h4, h5, h6, h8, h9]

lemma buildSignedBody_eq (h : SameSigned p q) : buildSignedBody p = buildSignedBody q := by
  obtain ⟨h1, h2, h3, h4, h5, h6, -, h8, h9⟩ := h.reads
  have hsigner : p.prop (js "signer") = q.prop (js "signer") := by
    obtain ⟨⟨l, rfl⟩, m, rfl⟩ := h.objects
    exact congrArg Except.ok h4
  simp only [buildSignedBody, bodyFields, hsigner, h1, h2, h3, h4, h5, h6, h8, h9]

lemma checkProof_eq {C : Crypto} (h : SameSigned p q) (bytes : Option Bytes) :
    checkProof C p bytes = checkProof C q bytes := by
  obtain ⟨-, h2, h3, h4, -, h6, h7, -, -⟩ := h.reads
  simp only [checkProof, h.validateStructure_eq, checkArtifact, checkSignature, h.signedBody_eq, verifyAgency,
    verifySlotAllocation, checkAtomic, h2, h3, h4, h6, h7]

lemma linkResult_eq {C : Crypto} (h : SameSigned p q) (context : VerificationContext) :
    linkResult C p context = linkResult C q context := by
  obtain ⟨-, -, h3, h4, -⟩ := h.reads
  have hlink : epochLink p = epochLink q := by simp only [epochLink, h3]
  have hshape : validateEpochLinkShape p = validateEpochLinkShape q := by
    simp only [validateEpochLinkShape, h3, h4]
  rw [linkResult, linkResult, checkEpochLink, checkEpochLink, h3, hlink, hshape]

lemma checkPolicy_eq (h : SameSigned p q) (policy : VerificationPolicy) :
    checkPolicy p policy = checkPolicy q policy := by
  obtain ⟨-, -, h3, h4, h5, h6, h7, -⟩ := h.reads
  simp only [checkPolicy, checkActor, checkOrigins, h3, h4, h5, h6, h7]

/-- The checks of a proof do not read its metadata. -/
theorem runChecks_eq {C : Crypto} (h : SameSigned p q) (bytes : Option Bytes)
    (trustAnchors : Option VerificationPolicy) (context : VerificationContext) :
    runChecks C p bytes trustAnchors context = runChecks C q bytes trustAnchors context := by
  have hpolicy : trustAnchors.map (checkPolicy p) = trustAnchors.map (checkPolicy q) := by
    cases trustAnchors with
    | none => rfl
    | some policy => exact congrArg some (h.checkPolicy_eq policy)
  simp only [runChecks, h.checkProof_eq, h.linkResult_eq, hpolicy]

end SameSigned

/-! ### The two runs -/

lemma hardware_congr {opts : AttestedOptions} (h : SameSigned opts.proof q) :
    hardware V { opts with proof := q } = hardware V opts := by
  have hbody := h.buildSignedBody_eq
  have henv : opts.proof.get (js "environment") = q.get (js "environment") := h.get _ (by decide)
  simp only [hardware, reportOf, declaredOf, computeSignedBodyHash, imageProblem, imageProblem.strict, hbody,
    henv]

lemma consistency_congr {opts : AttestedOptions} (h : SameSigned opts.proof q) (pcr0 : Str)
    (bytes : Option Bytes) :
    consistency V { opts with proof := q } pcr0 bytes = consistency V opts pcr0 bytes := by
  have hcommit : opts.proof.get (js "commit") = q.get (js "commit") := h.get _ (by decide)
  simp only [consistency, hcommit, h.runChecks_eq]

/-- Bytes of one hash are one to the checks. -/
lemma consistency_bytes {opts : AttestedOptions} {pcr0 : Str} {b b' : Bytes}
    (h : V.crypto.sha256 b = V.crypto.sha256 b') :
    consistency V opts pcr0 (some b) = consistency V opts pcr0 (some b') := by
  simp only [consistency, runChecks, checkProof, checkArtifact, Option.any_some, h]

/-- No member block, or one the bytes are the member of. -/
def memberHolds (H : HashFn) (proof : Value) (bytes : Bytes) : Bool :=
  match treeMemberOf proof with
  | none => true
  | some block => checkTreeMember H proof (.bytes (H bytes)) (some block)

/-- The checks that do not read the metadata: the attestation, the image, the proof's own consistency with
the bytes. -/
def attests (V : Calls) (opts : AttestedOptions) : Bool :=
  match hardware V opts with
  | .ok (.accepted _ pcr0 _) =>
      match consistency V opts pcr0 opts.bytes with
      | .ok none => true
      | _ => false
  | _ => false

lemma attests_congr {opts : AttestedOptions} (h : SameSigned opts.proof q) :
    attests V { opts with proof := q } = attests V opts := by
  simp only [attests, hardware_congr h, consistency_congr h]

/-- A block that checks names the text the proof signs: it has the hash of the bytes. -/
lemma hash_of_member {H : HashFn} {proof : Value} {b : Bytes} {file : FileDigest} {block : TreeMemberBlock}
    (hd : (proof.get (js "artifact")).get (js "digestB64") = .str (bytesToBase64 (H b)))
    (h : checkTreeMember H proof file (some block) = true) : H (utf8Encode block.rootText) = H b := by
  obtain ⟨-, -, -, -, -, hsigned, -⟩ := checkTreeMember_eq_true h
  rw [signsText, hd] at hsigned
  obtain ⟨x, hx, hsame⟩ := (Option.any_eq_true _ _).mp hsigned
  rw [unb64_bytesToBase64] at hx
  rw [← Option.some.inj hx] at hsame
  exact bytesToBase64_injective (beq_iff_eq.mp hsame)

/-- **Validity for the bytes a proof signs**: the metadata's block, and the other checks. -/
theorem isValid_eq {opts : AttestedOptions} {b : Bytes} (hb : opts.bytes = some b)
    (hd : (opts.proof.get (js "artifact")).get (js "digestB64") = .str (bytesToBase64 (V.crypto.sha256 b))) :
    isValid V opts = (memberHolds V.crypto.sha256 opts.proof b && attests V opts) := by
  rw [isValid, verifyAttested, attests, memberHolds, hb]
  rcases hardware V opts with e | ⟨reason, checks, pcr0, at_⟩ | ⟨checks, pcr0, at_⟩
  · simp [bind, Except.bind]
  · simp [bind, Except.bind, pure, Except.pure, answer]
  · have hconclude : ∀ (bytes : Option Bytes) (member : Option (Number × Number)),
        (match conclude V opts checks pcr0 at_ bytes member with
          | .ok r => r.valid
          | .error _ => false)
        = match consistency V opts pcr0 bytes with
          | .ok none => true
          | _ => false := fun bytes member => by
      rw [conclude]
      rcases consistency V opts pcr0 bytes with e | _ | reason <;> rfl
    rw [ok_bind, Option.bind_some]
    cases hm : treeMemberOf opts.proof with
    | none =>
        dsimp only
        rw [hconclude, Bool.true_and]
    | some block =>
        dsimp only
        cases hc : checkTreeMember V.crypto.sha256 opts.proof (.bytes (V.crypto.sha256 b)) (some block) with
        | false => rfl
        | true =>
            rw [if_neg (by simp), hconclude, consistency_bytes (hash_of_member hd hc), Bool.true_and]

/-- **What metadata can take away.** For the bytes a proof signs, other metadata leaves the validity as it
was exactly where its member block holds as the first one does, or another check fails. -/
theorem isValid_eq_iff (V : Calls) (opts : AttestedOptions) (q : Value) (b : Bytes) (hb : opts.bytes = some b)
    (hq : SameSigned opts.proof q)
    (hd : (opts.proof.get (js "artifact")).get (js "digestB64") = .str (bytesToBase64 (V.crypto.sha256 b))) :
    isValid V { opts with proof := q } = isValid V opts
      ↔ memberHolds V.crypto.sha256 q b = memberHolds V.crypto.sha256 opts.proof b
        ∨ attests V opts = false := by
  have hdq : (q.get (js "artifact")).get (js "digestB64") = .str (bytesToBase64 (V.crypto.sha256 b)) := by
    rw [← hq.get (js "artifact") (by decide)]
    exact hd
  have hother : isValid V { opts with proof := q }
      = (memberHolds V.crypto.sha256 q b && attests V opts) := by
    rw [← attests_congr hq]
    exact @isValid_eq V { opts with proof := q } b hb hdq
  rw [hother, isValid_eq hb hd]
  cases attests V opts with
  | false => simp
  | true => simp

lemma attests_of {opts : AttestedOptions} {checks : List NitroCheck} {pcr0 : Str} {at_ : Option Number}
    (h : hardware V opts = .ok (.accepted checks pcr0 at_))
    (hc : consistency V opts pcr0 opts.bytes = pass) : attests V opts = true := by
  rw [attests, h]
  dsimp only
  rw [hc]
  rfl

/-! ### A proof of a tree and its root text -/

/-- The report of the fixture. -/
def memberReport : Str :=
  js "hEShATgi" ++ js (
    "oFkRIr9pbW9kdWxlX2lkeCdpLTA2NTAyNzM0MjNmZjY3NTY3LWVuYzAxYTE1NjlhYjdhYmNlNDVmZGlnZXN0ZlNIQTM4" ++
    "NGl0aW1lc3RhbXAbAAABoVjk50tkcGNyc7AAWDCtqtC+9iKS01GXro2xnkBoUinxoeYHCnx3oUjEraiO5mocpQgZ7rwg" ++
    "F8ZxaknyaS8BWDBLTVs2YbPvwSkgkAyA4Sbkzng8Ui3mwCoqW/evOiuTJ7hndvGI5L4cHEBKEp29pJMCWDDKyCscLu+j" ++
    "8QrYrh3GTPEzDxvyUHTarepFivQ7E9mAJfzjsJRgkzNKkRExtaCGItADWDD+UwK5y1gm9uJGWywTP7nx46KUMZGUv4pH" ++
    "EWPSDdx91LwKDPm88/yRbkF8pnByVT4EWDB/NnLXYAC6yWpaRfuiml8mtOMJ0c28NmxuHHZxb2qRGqxwMMGDPYSq4Peo" ++
    "5aubZAIFWDAAAAAAAAAAAAAAAAAAAAAAAAAAAAAAAAAAAAAAAAAAAAAAAAAAAAAAAAAAAAAAAAAGWDAAAAAAAAAAAAAA" ++
    "AAAAAAAAAAAAAAAAAAAAAAAAAAAAAAAAAAAAAAAAAAAAAAAAAAAHWDAAAAAAAAAAAAAAAAAAAAAAAAAAAAAAAAAAAAAA" ++
    "AAAAAAAAAAAAAAAAAAAAAAAAAAAIWDAAAAAAAAAAAAAAAAAAAAAAAAAAAAAAAAAAAAAAAAAAAAAAAAAAAAAAAAAAAAAA" ++
    "AAAJWDAAAAAAAAAAAAAAAAAAAAAAAAAAAAAAAAAAAAAAAAAAAAAAAAAAAAAAAAAAAAAAAAAKWDAAAAAAAAAAAAAAAAAA" ++
    "AAAAAAAAAAAAAAAAAAAAAAAAAAAAAAAAAAAAAAAAAAAAAAALWDAAAAAAAAAAAAAAAAAAAAAAAAAAAAAAAAAAAAAAAAAA" ++
    "AAAAAAAAAAAAAAAAAAAAAAAMWDAAAAAAAAAAAAAAAAAAAAAAAAAAAAAAAAAAAAAAAAAAAAAAAAAAAAAAAAAAAAAAAAAN" ++
    "WDAAAAAAAAAAAAAAAAAAAAAAAAAAAAAAAAAAAAAAAAAAAAAAAAAAAAAAAAAAAAAAAAAOWDAAAAAAAAAAAAAAAAAAAAAA" ++
    "AAAAAAAAAAAAAAAAAAAAAAAAAAAAAAAAAAAAAAAAAAAPWDAAAAAAAAAAAAAAAAAAAAAAAAAAAAAAAAAAAAAAAAAAAAAA" ++
    "AAAAAAAAAAAAAAAAAABrY2VydGlmaWNhdGVZAoAwggJ8MIICAaADAgECAhABoVaat6vORQAAAABq1zKVMAoGCCqGSM49" ++
    "BAMDMIGOMQswCQYDVQQGEwJVUzETMBEGA1UECAwKV2FzaGluZ3RvbjEQMA4GA1UEBwwHU2VhdHRsZTEPMA0GA1UECgwG" ++
    "QW1hem9uMQwwCgYDVQQLDANBV1MxOTA3BgNVBAMMMGktMDY1MDI3MzQyM2ZmNjc1NjcudXMtZWFzdC0yLmF3cy5uaXRy" ++
    "by1lbmNsYXZlczAeFw0yNjEwMjAwOTIxMjJaFw0yNjEwMjAxMjIxMjVaMIGTMQswCQYDVQQGEwJVUzETMBEGA1UECAwK" ++
    "V2FzaGluZ3RvbjEQMA4GA1UEBwwHU2VhdHRsZTEPMA0GA1UECgwGQW1hem9uMQwwCgYDVQQLDANBV1MxPjA8BgNVBAMM" ++
    "NWktMDY1MDI3MzQyM2ZmNjc1NjctZW5jMDFhMTU2OWFiN2FiY2U0NS51cy1lYXN0LTIuYXdzMHYwEAYHKoZIzj0CAQYF" ++
    "K4EEACIDYgAEljFWoYYLR5PVi15vM4q+pFRKJLYghyvRb65Pz5KSFfU9izsTFtduH4Fe9XVobnJBtu65Y3FYOaevfqpd" ++
    "Vwl62lB0YztZrnl+Dh18FvSlRXMfqKjlP15/r86+Rq240iPSox0wGzAMBgNVHRMBAf8EAjAAMAsGA1UdDwQEAwIGwDAK" ++
    "BggqhkjOPQQDAwNpADBmAjEAibTJvxVuw5etk3S9e0i+4MfQ8rwweyVguXmbbM3XNuNsl59ppFH7OsRACgc957i5AjEA" ++
    "nAULZAZwS8Rz8MHk6ensCh9m5K1jsxRL8USOKIi5waDj3bYgOvxIZ0pV9MXnHHN4aGNhYnVuZGxlhFkCFTCCAhEwggGW" ++
    "oAMCAQICEQD5MXVoG5Cv4R1GzLTk5/hWMAoGCCqGSM49BAMDMEkxCzAJBgNVBAYTAlVTMQ8wDQYDVQQKDAZBbWF6b24x" ++
    "DDAKBgNVBAsMA0FXUzEbMBkGA1UEAwwSYXdzLm5pdHJvLWVuY2xhdmVzMB4XDTE5MTAyODEzMjgwNVoXDTQ5MTAyODE0" ++
    "MjgwNVowSTELMAkGA1UEBhMCVVMxDzANBgNVBAoMBkFtYXpvbjEMMAoGA1UECwwDQVdTMRswGQYDVQQDDBJhd3Mubml0" ++
    "cm8tZW5jbGF2ZXMwdjAQBgcqhkjOPQIBBgUrgQQAIgNiAAT8AlTrpgjB82hw4prakL5GODKSc26JS//2ctmJREtQUeU0" ++
    "pLH22+PAvFgaMrexdgcO3hLWmj/qIRtm51LPfdHdCV9vE3D0FwhD2dwQASHkz2MBKAlmRIfJeWKEME3FP/SjQjBAMA8G" ++
    "A1UdEwEB/wQFMAMBAf8wHQYDVR0OBBYEFJAltQ3ZBUfnlsOW+nKdz5mp30uWMA4GA1UdDwEB/wQEAwIBhjAKBggqhkjO" ++
    "PQQDAwNpADBmAjEAo38vkaHJvV7nuGJ8FpjSVQOOHwND+VtjqWKMPTmAlUWhHry/LjtV2K7ucbTD1q3zAjEAovObFgWy" ++
    "cCil3UugabUBbmW0+96P4AYdalMZf5za9dlDvGH8K+sDy2/ujSMC89/2WQLCMIICvjCCAkSgAwIBAgIQZOnD/tSqZL5C" ++
    "HgPXg8BC/TAKBggqhkjOPQQDAzBJMQswCQYDVQQGEwJVUzEPMA0GA1UECgwGQW1hem9uMQwwCgYDVQQLDANBV1MxGzAZ" ++
    "BgNVBAMMEmF3cy5uaXRyby1lbmNsYXZlczAeFw0yNjEwMTUxOTQ4MDdaFw0yNjExMDQyMDQ4MDdaMGQxCzAJBgNVBAYT" ++
    "AlVTMQ8wDQYDVQQKDAZBbWF6b24xDDAKBgNVBAsMA0FXUzE2MDQGA1UEAwwtODU4NDI4YzlhYWE5YjUyOS51cy1lYXN0" ++
    "LTIuYXdzLm5pdHJvLWVuY2xhdmVzMHYwEAYHKoZIzj0CAQYFK4EEACIDYgAEUyGdgiP3r8pTgSCpWRh7qJ25SRQE+Mx8" ++
    "k0K5KM9Z5eN5ytl/u/Eekp0piyPE2iUlX+MkTncGx/58E4UHZcKsDDex7NyqFTeQHh24nsBUHOrTof+FZFrYJbrQswfY" ++
    "59lMo4HVMIHSMBIGA1UdEwEB/wQIMAYBAf8CAQIwHwYDVR0jBBgwFoAUkCW1DdkFR+eWw5b6cp3PmanfS5YwHQYDVR0O" ++
    "BBYEFN3pmZnnLY/UJaVH86icQyRntDMMMA4GA1UdDwEB/wQEAwIBhjBsBgNVHR8EZTBjMGGgX6BdhltodHRwOi8vYXdz" ++
    "LW5pdHJvLWVuY2xhdmVzLWNybC5zMy5hbWF6b25hd3MuY29tL2NybC9hYjQ5NjBjYy03ZDYzLTQyYmQtOWU5Zi01OTMz" ++
    "OGNiNjdmODQuY3JsMAoGCCqGSM49BAMDA2gAMGUCMQDMuyJw5lmcycP6FDOvltIwYC9rahi5DO1NbJ3oqcURuE6sLtwo" ++
    "Sd+E+o7BH2XuGf0CMAWceeKGnp77A+vf54XCTemCUshdWegYxDyrN/n1TTl7ZE5jDBL9bupTa8As/90idFkDFzCCAxMw" ++
    "ggKaoAMCAQICEFkVYxXWY/RNeWHQ2uib/xQwCgYIKoZIzj0EAwMwZDELMAkGA1UEBhMCVVMxDzANBgNVBAoMBkFtYXpv" ++
    "bjEMMAoGA1UECwwDQVdTMTYwNAYDVQQDDC04NTg0MjhjOWFhYTliNTI5LnVzLWVhc3QtMi5hd3Mubml0cm8tZW5jbGF2" ++
    "ZXMwHhcNMjYxMDE5MjEyMjQ1WhcNMjYxMDI1MTIyMjQ1WjCBiTE8MDoGA1UEAwwzOTk2YmRhMzE3Njg0NDIyMi56b25h" ++
    "bC51cy1lYXN0LTIuYXdzLm5pdHJvLWVuY2xhdmVzMQwwCgYDVQQLDANBV1MxDzANBgNVBAoMBkFtYXpvbjELMAkGA1UE" ++
    "BhMCVVMxCzAJBgNVBAgMAldBMRAwDgYDVQQHDAdTZWF0dGxlMHYwEAYHKoZIzj0CAQYFK4EEACIDYgAEBw1pz9BUQb5H" ++
    "2+KixDDUeru+HRiYbofItOjQXwc4hTDO2zWsfm8GxJRQCCBI6Qs4khaoc8tJonCH8MgNa/NHjoqdqmRTvZeXYFVG/9Nr" ++
    "qdT2ezuQwenQ+Z8g71CFD5rmo4HqMIHnMBIGA1UdEwEB/wQIMAYBAf8CAQEwHwYDVR0jBBgwFoAU3emZmectj9QlpUfz" ++
    "qJxDJGe0MwwwHQYDVR0OBBYEFB5dWUmfBKUgAsYB0dZzkLHOLf2ZMA4GA1UdDwEB/wQEAwIBhjCBgAYDVR0fBHkwdzB1" ++
    "oHOgcYZvaHR0cDovL2NybC11cy1lYXN0LTItYXdzLW5pdHJvLWVuY2xhdmVzLnMzLnVzLWVhc3QtMi5hbWF6b25hd3Mu" ++
    "Y29tL2NybC9kY2YzOTM2Yi1jMGYwLTQ5NGItOGQ2NS1mNDNmMmYyZDRlNGQuY3JsMAoGCCqGSM49BAMDA2cAMGQCMB0B" ++
    "b8d9lfo3Ej2PPm9y7c6LKdQ/RABL/3mxtNPv+RtxfLcNIDsUKb3iww8CkOmHHQIwekYK//eOxHWZX43U7TrdPFXh30GX" ++
    "cPNb+w/ADv2IZ7CzXGKwZOaUMUhOqR29+e/kWQLEMIICwDCCAkWgAwIBAgIVAIyUFY0SIpx+Q9ClX9tEpTLxTdCuMAoG" ++
    "CCqGSM49BAMDMIGJMTwwOgYDVQQDDDM5OTZiZGEzMTc2ODQ0MjIyLnpvbmFsLnVzLWVhc3QtMi5hd3Mubml0cm8tZW5j" ++
    "bGF2ZXMxDDAKBgNVBAsMA0FXUzEPMA0GA1UECgwGQW1hem9uMQswCQYDVQQGEwJVUzELMAkGA1UECAwCV0ExEDAOBgNV" ++
    "BAcMB1NlYXR0bGUwHhcNMjYxMDIwMDMxNjMwWhcNMjYxMDIxMDMxNjMwWjCBjjELMAkGA1UEBhMCVVMxEzARBgNVBAgM" ++
    "Cldhc2hpbmd0b24xEDAOBgNVBAcMB1NlYXR0bGUxDzANBgNVBAoMBkFtYXpvbjEMMAoGA1UECwwDQVdTMTkwNwYDVQQD" ++
    "DDBpLTA2NTAyNzM0MjNmZjY3NTY3LnVzLWVhc3QtMi5hd3Mubml0cm8tZW5jbGF2ZXMwdjAQBgcqhkjOPQIBBgUrgQQA" ++
    "IgNiAAQ4aDBVHG/Gz+QtU9zf6AI1uQJHWBdeJs3HEBfdEg1FngundrV0aDJvVV0IR9KVsPB393ZeByKaLoyj93RzQwXH" ++
    "CfAeHSn328FMp9vQlmTYOG1VwJLouWlWtuzd/+hks5yjZjBkMBIGA1UdEwEB/wQIMAYBAf8CAQAwDgYDVR0PAQH/BAQD" ++
    "AgIEMB0GA1UdDgQWBBSNxM+VQ9qvFhsYD6YnxtC3PzNNszAfBgNVHSMEGDAWgBQeXVlJnwSlIALGAdHWc5Cxzi39mTAK" ++
    "BggqhkjOPQQDAwNpADBmAjEA2l4zSEL6MrY8WkcHOsJGGo4zNjUyVj3lmPZ/YZP7Hkcwl76SNvCmNnRHAbcCoO/sAjEA" ++
    "j5Q3g328eE4xvm8yHWaW+hSSRK6uoT9hhHd4OL2t1WKQhY1wewwJ4xcUFPNQlAxcanB1YmxpY19rZXn2aXVzZXJfZGF0" ++
    "YVggF3v/oN1u4HsgBMQ1I7ldCYMYRrMciZ7FW5Xg2710lxFlbm9uY2X2/1hgLeIwvtI7CDoQreT/0aJNH5i70s8Sl/xQ" ++
    "HvMFnMbJj41h8jcZgYedpsfm7abUla30BsOUHOUMvnWT57Uc/zxEeCrkBU5qRw1w/A6EG9Y8c2BDk2fbpeYib7trfOs3" ++
    "ZT02")

/-- The measurement of the image that made the proof. -/
def memberPcr0 : Str :=
  js "adaad0bef62292d35197ae8db19e40685229f1a1e6070a7c77a148c4ada88ee66a1ca50819eebc2017c6716a49f2692f"

/-- The proof of a tree of three files, with the block of its second file or without metadata. -/
def memberProof (metadata : Fields) : Value :=
  .obj ([(js "version", .str (js "bitgraph/1")),
    (js "artifact", .obj [
      (js "hashAlg", .str (js "sha256")),
      (js "digestB64", .str (js "NnEA3zZSVMHvlHaOLo/8U6tGbzVJ16PVOpTweCvTzaY="))]),
    (js "commit", .obj [
      (js "nonceB64", .str (js "cPlJbkUyvU7tOhKR/jX8c916RTUH79Cxq4w5tNnKPXM=")),
      (js "counter", .str (js "18")),
      (js "slotCounter", .str (js "17")),
      (js "slotHashB64", .str (js "EcKQ2K+7BkAekJJ2++UhiKpeknLSgH+6OSxChoS/X6o=")),
      (js "epochId", .str (js "pa9RD2IkcWhwlIcWSn8bxqW0crZB0kISI/udNCY/nW4=")),
      (js "atomic", .bool true),
      (js "prevB64", .str (js "+4zLsWzHanm6r/iitL9kjIay/uQ8g9fqhvRHt3d+uJE=")),
      (js "chainId", .str (js "bitgraph:main"))]),
    (js "signer", .obj [
      (js "publicKeyB64", .str (js "z5sB0bPjfbTcKNkMaPLbnkxO4+OO56mHPtg3Cmed/+M=")),
      (js "signatureB64", .str (js
        "0+XvlSaGa/DCJV8AiNYJel5ifrxxvL8ixgDQUJ4Q47Vo84X5JKMXdohI0DiorQ4njFEflhSAHFYUmXPYUE/UBQ=="))]),
    (js "environment", .obj [
      (js "enforcement", .str (js "measured-tee")),
      (js "measurement", .str memberPcr0),
      (js "attestation", .obj [(js "format", .str (js "aws-nitro")), (js "reportB64", .str memberReport)])]),
    (js "slotAllocation", .obj [
      (js "version", .str (js "bitgraph/slot/1")),
      (js "nonceB64", .str (js "cPlJbkUyvU7tOhKR/jX8c916RTUH79Cxq4w5tNnKPXM=")),
      (js "counter", .str (js "17")),
      (js "epochId", .str (js "pa9RD2IkcWhwlIcWSn8bxqW0crZB0kISI/udNCY/nW4=")),
      (js "publicKeyB64", .str (js "z5sB0bPjfbTcKNkMaPLbnkxO4+OO56mHPtg3Cmed/+M=")),
      (js "chainId", .str (js "bitgraph:main")),
      (js "signatureB64", .str (js
        "pxOm1oyl0433ZzdOfYkgCCRl+PWnjU2qSUT9E4WpdFbHRMrP7XzwF5M3CAG3MM20zfWvMLH6F6ZUY4p82rvwAw=="))]),
    (js "proofHash", .str (js "F3v/oN1u4HsgBMQ1I7ldCYMYRrMciZ7FW5Xg2710lxE="))] ++ metadata)

/-- The root text of the tree. -/
def memberRootText : Str :=
  digestTreeRootText 3 (js "4991411ce6caf172253c9393ce310316e22ba7c0e16d1ce89453fc121362f6db")

/-- The block of the second file. -/
def memberMetadata : Fields :=
  [(js "metadata", .obj [(TREE_MEMBER_METADATA_KEY, .obj [(js "format", .str TREE_MEMBER_METADATA_KEY),
    (js "files", .num (Number.ofNat 3)), (js "index", .num (Number.ofNat 1)),
    (js "path", .str (js
      "MAc/7ka9k2CcJ/Mz+qf4XRJYt+EWTiHRIrchqo1rKB+Ed/3EhswCBiU2eRktCJuPJgnnP6VLJar0Y3GCnaAW1g==")),
    (js "rootText", .str memberRootText)])])]

/-- The signatures of the proof and of its slot, by their first bytes. -/
def memberSignatures : List Bytes :=
  [[211, 229, 239, 149, 38, 134, 107, 240], [167, 19, 166, 214, 140, 165, 211, 141]]

/-- A hash, with the two signatures. -/
def memberCrypto (H : HashFn) : Crypto where
  sha256 := H
  ed25519 sig _ _ := .ok (memberSignatures.contains (sig.take 8))
  p256 _ _ _ := .ok false
  hostname _ := none

/-- The attestation document of the fixture. -/
def memberDocument : NitroDocument :=
  ⟨some memberPcr0, some [23, 123, 255, 160, 221, 110, 224, 123, 32, 4, 196, 53, 35, 185, 93, 9, 131, 24, 70,
      179, 28, 137, 158, 197, 91, 149, 224, 219, 189, 116, 151, 17], some (Number.ofNat 1792492758859)⟩

/-- Its signature and its certificates. -/
def memberChain : ChainResult :=
  ⟨[⟨js "Attestation document", true, js "COSE_Sign1 over a Nitro attestation map"⟩,
      ⟨js "AWS signature verified", true,
        js "The document's ES384 signature checks against its leaf certificate"⟩,
      ⟨js "Certificate chain", true, js "Each certificate is signed by the one above it"⟩],
    some memberDocument, true⟩

/-- The libraries on the fixture: its signatures, and its document. -/
def memberCalls : Calls where
  crypto := memberCrypto sha256
  chain report _ :=
    if report = memberReport then .ok memberChain else .error (error (js "not a COSE_Sign1 array"))
  table s := s
  isoString _ := .error (rangeError (js "Invalid time value"))

/-- The check of the root text of the tree, by a caller who accepts the image. -/
def memberOptions (metadata : Fields) : AttestedOptions :=
  ⟨memberProof metadata, some (utf8Encode memberRootText), some [memberPcr0], none, none, none⟩

/-- The hash that the proof signs. -/
def memberHash : {h // computeSignedBodyHash sha256 (memberProof []) = .ok h} :=
  ⟨js "F3v/oN1u4HsgBMQ1I7ldCYMYRrMciZ7FW5Xg2710lxE=", by
    rw [sha256_eq_eval]
    decide +kernel⟩

/-- The digest of the root text. -/
def memberDigest : {d // d = bytesToBase64 (sha256 (utf8Encode memberRootText))} :=
  ⟨js "NnEA3zZSVMHvlHaOLo/8U6tGbzVJ16PVOpTweCvTzaY=", by
    rw [sha256_eq_eval]
    decide +kernel⟩

/-- The block of the second file does not hold of the root text. -/
def memberRefusal : {b // memberHolds sha256 (memberProof memberMetadata) (utf8Encode memberRootText) = b} :=
  ⟨false, by
    rw [sha256_eq_eval]
    decide +kernel⟩

/-- The body that is signed has the strict form. -/
def memberForm :
    {r // (buildSignedBody (memberProof [])).map (strictBodyProblem (js "the signed body")) = .ok r} :=
  ⟨none, by decide +kernel⟩

/-- The checks of the proof, its signatures among them. -/
def memberRun : {r // (runChecks (memberCrypto sha256) (memberProof []) (some (utf8Encode memberRootText))
    (some { noPolicy with requireAtomic := true }) createVerificationContext).1 = r} :=
  ⟨pass, by
    rw [sha256_eq_eval]
    decide +kernel⟩

lemma member_hash : computeSignedBodyHash sha256 (memberProof [])
    = .ok (js "F3v/oN1u4HsgBMQ1I7ldCYMYRrMciZ7FW5Xg2710lxE=") := memberHash.property

lemma member_digest : js "NnEA3zZSVMHvlHaOLo/8U6tGbzVJ16PVOpTweCvTzaY="
    = bytesToBase64 (sha256 (utf8Encode memberRootText)) := memberDigest.property

lemma lower_memberPcr0 : toLowerCase memberCalls.table memberPcr0 = memberPcr0 := by decide +kernel

/-- The image is accepted, whether it is strict about the body or not. -/
lemma member_image : imageProblem memberCalls (memberOptions []) memberPcr0
    (some (Number.ofNat 1792492758859)) = .ok none := by
  have hbody : (buildSignedBody (memberProof [])).map (strictBodyProblem (js "the signed body"))
      = .ok none := memberForm.property
  have hstrict : imageProblem.strict (memberOptions []) memberPcr0 = .ok none := by
    rw [imageProblem.strict]
    cases isStrict memberPcr0 with
    | false => rfl
    | true => exact hbody
  rw [imageProblem]
  simp [memberOptions, lower_memberPcr0] at hstrict ⊢
  exact hstrict

lemma member_consistency : consistency memberCalls (memberOptions []) memberPcr0
    (some (utf8Encode memberRootText)) = pass := by
  have hatomic : (((memberProof []).get (js "commit")).get (js "atomic") == .bool true) = true := by decide
  rw [consistency, show (memberOptions []).proof = memberProof [] from rfl, hatomic, Bool.true_or]
  exact memberRun.property

/-- The document says what the proof says. -/
lemma member_document : verifyNitroAttestation memberCalls memberReport
    ⟨some memberPcr0, js "F3v/oN1u4HsgBMQ1I7ldCYMYRrMciZ7FW5Xg2710lxE=", none⟩
      = .ok ⟨true, memberChain.checks ++ [pcr0Check memberCalls memberDocument memberPcr0,
          userDataCheck memberDocument (js "F3v/oN1u4HsgBMQ1I7ldCYMYRrMciZ7FW5Xg2710lxE=")],
        some memberDocument⟩ := by
  have hpcr0 : (pcr0Check memberCalls memberDocument memberPcr0).pass = true := by
    simp [pcr0Check, memberDocument, lower_memberPcr0]
  have huser : (userDataCheck memberDocument
      (js "F3v/oN1u4HsgBMQ1I7ldCYMYRrMciZ7FW5Xg2710lxE=")).pass = true := by decide +kernel
  have hchain : memberCalls.chain memberReport none = .ok memberChain := by simp [memberCalls]
  rw [verifyNitroAttestation, hchain, ok_bind]
  simp [memberChain, hpcr0, huser]
  rfl

lemma member_report : reportOf (memberProof []) = some memberReport := rfl

lemma member_declared : declaredOf memberCalls (memberProof []) = some memberPcr0 := by
  rw [declaredOf, show ((memberProof []).get (js "environment")).get (js "measurement") = .str memberPcr0
    from rfl]
  exact congrArg some lower_memberPcr0

lemma member_hardware : ∃ checks, hardware memberCalls (memberOptions [])
    = .ok (.accepted checks memberPcr0 (some (Number.ofNat 1792492758859))) := by
  have hhash : computeSignedBodyHash memberCalls.crypto.sha256 (memberOptions []).proof
      = .ok (js "F3v/oN1u4HsgBMQ1I7ldCYMYRrMciZ7FW5Xg2710lxE=") := member_hash
  rw [hardware, show (memberOptions []).proof = memberProof [] from rfl, member_report] at *
  dsimp only
  rw [hhash, ok_bind, member_declared, show (memberOptions []).rootDer = none from rfl, member_document,
    ok_bind]
  simp only [memberDocument, Option.bind_some, Option.map_some, lower_memberPcr0, Bool.not_true]
  rw [if_neg (by simp), member_image]
  exact ⟨_, rfl⟩

lemma member_attests : attests memberCalls (memberOptions []) = true := by
  obtain ⟨checks, hchecks⟩ := member_hardware
  exact attests_of hchecks member_consistency

lemma sameSigned_member (v : Value) : SameSigned (memberProof []) (memberProof [(js "metadata", v)]) where
  objects := ⟨⟨_, rfl⟩, _, rfl⟩
  get k hk := by
    have happend : ∀ l : Fields, Fields.find? (l ++ [(js "metadata", v)]) k = Fields.find? l k := fun l => by
      induction l with
      | nil => simp [Fields.find?, hk]
      | cons m l ih =>
          obtain ⟨j, w⟩ := m
          rw [Fields.find?, Fields.find?] at ih ⊢
          rw [List.cons_append, List.lookup_cons, List.lookup_cons, ih]
    rw [memberProof, memberProof, List.append_nil]
    exact congrArg (fun o => Option.getD o .undefined) (happend _).symm

/-- The root text of a tree is what the tree's proof signs; the block of the second file takes the
verification of the text away. -/
theorem member_block_refuses :
    isValid memberCalls (memberOptions []) = true
      ∧ isValid memberCalls (memberOptions memberMetadata) = false
      ∧ ¬ ∀ (V : Calls) (opts : AttestedOptions) (q : Value) (b : Bytes), opts.bytes = some b →
          SameSigned opts.proof q →
          (opts.proof.get (js "artifact")).get (js "digestB64")
            = .str (bytesToBase64 (V.crypto.sha256 b)) →
          isValid V { opts with proof := q } = isValid V opts := by
  have hd : ∀ metadata, ((memberProof metadata).get (js "artifact")).get (js "digestB64")
      = .str (bytesToBase64 (sha256 (utf8Encode memberRootText))) := fun metadata => by
    rw [← member_digest]
    rfl
  have hq : SameSigned (memberOptions []).proof (memberProof memberMetadata) := sameSigned_member _
  have hplain : isValid memberCalls (memberOptions []) = true := by
    have hnone : memberHolds sha256 (memberProof []) (utf8Encode memberRootText) = true := rfl
    rw [@isValid_eq memberCalls (memberOptions []) _ rfl (hd []), member_attests, Bool.and_true]
    exact hnone
  have hblock : isValid memberCalls (memberOptions memberMetadata) = false := by
    rw [@isValid_eq memberCalls (memberOptions memberMetadata) _ rfl (hd memberMetadata), Bool.and_eq_false_iff]
    exact Or.inl memberRefusal.property
  refine ⟨hplain, hblock, fun h => ?_⟩
  have hsame := h memberCalls (memberOptions []) _ _ rfl hq (hd [])
  rw [hplain] at hsame
  exact absurd (hblock.symm.trans hsame) (by simp)

/-- Another spelling of no metadata: an empty object. -/
theorem isValid_eq_iff_empty :
    isValid memberCalls { memberOptions [] with proof := memberProof [(js "metadata", .obj [])] }
        = isValid memberCalls (memberOptions [])
      ↔ memberHolds sha256 (memberProof [(js "metadata", .obj [])]) (utf8Encode memberRootText)
          = memberHolds sha256 (memberProof []) (utf8Encode memberRootText)
        ∨ attests memberCalls (memberOptions []) = false :=
  isValid_eq_iff memberCalls (memberOptions []) _ (utf8Encode memberRootText) rfl (sameSigned_member (.obj []))
    (by rw [show memberCalls.crypto.sha256 = sha256 from rfl, ← member_digest]; rfl)

end Attested

end BitGraph
