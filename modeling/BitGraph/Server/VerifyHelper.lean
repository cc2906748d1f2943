import BitGraph.Verifier.SingleSuccessor

/-!
`verify-helper.ts`: the verification of `POST /verify`.

* **Code.** `verifySignatureOnly` rebuilds the signed body as the verifier does, checks the signature and
  five of the constraints of a policy. It reads base64 leniently and lets `BigInt` throw.
* **The verifier's part.** `checkPolicy_iff`: the verifier's policy check is `Shared`, the counters, and
  its own check of `rest`, the constraints this service does not know.
* **Main result.** `verifySignatureOnly_iff` says for which proofs and policies an answer is given and a
  valid one is the verifier's.
-/

namespace BitGraph.VerifyHelper

open Js Verifier

/-! ### The code -/

structure VerifyResult where
  valid : Bool
  reason : Option Str
  checks : List Str
  deriving DecidableEq

/-- Not valid, with a reason and the checks so far. -/
def invalid (checks : List Str) (reason : Str) : Except Thrown VerifyResult := .ok ⟨false, some reason, checks⟩

/-- The counter against one bound. What is no integer throws. -/
def boundRefusal (counter : Str) (c : ℤ) (bound : Option Str) (outside : ℤ → ℤ → Bool) (relation : Str) :
    Check :=
  match bound with
  | none => pass
  | some b => do
      let m ← bigInt b
      if outside c m then refuse (js "counter " ++ counter ++ relation ++ b) else pass

def counterRefusal (counter : Value) (policy : VerificationPolicy) : Check :=
  if policy.minCounter = none ∧ policy.maxCounter = none then pass
  else if counter = .undefined then refuse (js "counter required by policy but not present")
  else do
    let c ← bigInt (text counter)
    (boundRefusal (text counter) c policy.minCounter (fun c m => c < m) (js " below minimum ")).andThen
      (boundRefusal (text counter) c policy.maxCounter (fun c m => m < c) (js " above maximum "))

/-- A name for each check that was made. -/
def note (made : Bool) (check : Str) : List Str := if made then [check] else []

def verifyPolicy (proof : Value) (policy : VerificationPolicy) (checks : List Str) :
    Except Thrown VerifyResult :=
  let env := proof.get (js "environment")
  let enforcement := env.get (js "enforcement")
  let publicKey := (proof.get (js "signer")).get (js "publicKeyB64")
  let checks₁ := checks ++ note policy.requireEnforcement.isSome (js "policy.enforcement: ok")
  let checks₂ := checks₁ ++ note (policy.allowedMeasurements != []) (js "policy.measurement: ok")
  let checks₃ := checks₂ ++ note (policy.allowedPublicKeys != []) (js "policy.publicKey: ok")
  if policy.requireEnforcement.any fun t => enforcement != .str t then
    invalid checks (js "enforcement \"" ++ text enforcement ++ js "\" does not meet required \""
      ++ policy.requireEnforcement.getD [] ++ js "\"")
  else if policy.allowedMeasurements ≠ []
      ∧ includes policy.allowedMeasurements (env.get (js "measurement")) = false then
    invalid checks₁ (js "measurement not in allowed set")
  else if policy.allowedPublicKeys ≠ [] ∧ includes policy.allowedPublicKeys publicKey = false then
    invalid checks₂ (js "public key not in allowed set")
  else if policy.requireAttestation && !(env.get (js "attestation")).truthy then
    invalid checks₃ (js "attestation required but not present")
  else do
    match ← counterRefusal ((proof.get (js "commit")).get (js "counter")) policy with
    | some reason => invalid checks₃ reason
    | none =>
        .ok ⟨true, none, checks₃
          ++ note (policy.minCounter.isSome || policy.maxCounter.isSome) (js "policy.counter: ok")⟩

section Code

variable (C : Crypto)

/-- The bytes that were signed. -/
def canonicalBytes (proof : Value) : Except Thrown Bytes := do canonicalize (← signedBody proof)

/-- The texts of the signer are texts in every structurally valid proof. -/
def verifySignatureOnly (proof : Value) (policy : Option VerificationPolicy) :
    Except Thrown VerifyResult := do
  let version ← proof.prop (js "version")
  if version ≠ .str (js "bitgraph/1") then
    invalid [] (js "unsupported version: " ++ (← version.string))
  else
    let bytes ← canonicalBytes proof
    let checks := [js "structure: ok", js "canonicalize: ok"]
    let signer := proof.get (js "signer")
    let publicKeyBytes := bufferFromBase64 (text (signer.get (js "publicKeyB64")))
    let signatureBytes := bufferFromBase64 (text (signer.get (js "signatureB64")))
    if publicKeyBytes.length ≠ 32 then
      invalid checks (js "invalid public key length: " ++ decimal publicKeyBytes.length)
    else if signatureBytes.length ≠ 64 then
      invalid checks (js "invalid signature length: " ++ decimal signatureBytes.length)
    else
      match C.ed25519 signatureBytes bytes publicKeyBytes with
      | .error m => invalid checks (js "signature error: " ++ m)
      | .ok false => invalid checks (js "signature verification failed")
      | .ok true =>
          match policy with
          | none => .ok ⟨true, none, checks ++ [js "signature: ok"]⟩
          | some p => verifyPolicy proof p (checks ++ [js "signature: ok"])

end Code

/-! ### The counters -/

section Counters

variable {counter : Value} {policy : VerificationPolicy} {c : ℤ} {s name relation : Str}
  {bound : Option Str} {outside : ℤ → ℤ → Bool}

lemma bigInt_eq (s : Str) : bigInt s = match bigInt? (.str s) with
    | some i => .ok i
    | none => .error (syntaxError (js "Cannot convert " ++ s ++ js " to a BigInt")) := rfl

/-- A bound is an integer, where there is one. -/
def BoundReads (bound : Option Str) : Prop := ∀ b, bound = some b → (bigInt? (.str b)).isSome = true

lemma boundRefusal_answers :
    (∃ r, boundRefusal s c bound outside relation = .ok r) ↔ BoundReads bound := by
  cases bound with
  | none => exact ⟨fun _ b hb => (by cases hb), fun _ => ⟨none, rfl⟩⟩
  | some b =>
      rw [boundRefusal, bigInt_eq, BoundReads]
      simp only [Option.some.injEq, forall_eq']
      cases bigInt? (.str b) with
      | none => simp
      | some m =>
          simp only [ok_bind, Option.isSome_some, iff_true]
          split
          · exact ⟨_, rfl⟩
          · exact ⟨_, rfl⟩

/-- A counter is not outside a bound. -/
def Met (bound : Option Str) (outside : ℤ → ℤ → Bool) (c : ℤ) : Prop :=
  ∀ b m, bound = some b → bigInt? (.str b) = some m → outside c m = false

lemma boundReads_some {b : Str} : BoundReads (some b) ↔ (bigInt? (.str b)).isSome = true :=
  ⟨fun h => h b rfl, fun h _ hb => by rwa [← Option.some.inj hb]⟩

lemma met_some {b : Str} :
    Met (some b) outside c ↔ ∀ m, bigInt? (.str b) = some m → outside c m = false :=
  ⟨fun h m hm => h b m rfl hm, fun h _ m hb hm => h m (by rwa [Option.some.inj hb])⟩

lemma boundRefusal_eq_pass :
    boundRefusal s c bound outside relation = pass ↔ BoundReads bound ∧ Met bound outside c := by
  cases bound with
  | none => simp [boundRefusal, BoundReads, Met]
  | some b =>
      rw [boundRefusal, bigInt_eq, boundReads_some, met_some]
      cases hb : bigInt? (.str b) with
      | none => simp [Verifier.pass]
      | some m => cases ho : outside c m <;> simp [ho, refuse, Verifier.pass]

/-- The verifier's check of a bound. -/
lemma checkCounter_eq_pass (hc : bigInt? counter = some c) :
    checkCounter counter bound name outside relation = pass
      ↔ BoundReads bound ∧ Met bound outside c := by
  cases bound with
  | none => simp [checkCounter, BoundReads, Met]
  | some b =>
      rw [checkCounter, hc, boundReads_some, met_some]
      cases hb : bigInt? (.str b) with
      | none => simp [refuse, Verifier.pass]
      | some m => cases ho : outside c m <;> simp [ho, refuse, Verifier.pass]

lemma andThen_answers {first next : Check} :
    (∃ r, first.andThen next = .ok r) ↔ (∃ r, first = .ok r) ∧ (first = pass → ∃ r, next = .ok r) := by
  rcases first with e | _ | reason
  · simp [Check.andThen]
  · simp [Check.andThen, Verifier.pass]
  · simp [Check.andThen, refuse, Verifier.pass]

/-- The counters that are compared are integers; the upper bound is read where the lower one is met. -/
def CountersRead (counter : Value) (policy : VerificationPolicy) : Prop :=
  ∃ c, bigInt? counter = some c ∧ BoundReads policy.minCounter ∧
    (Met policy.minCounter (fun c m => c < m) c → BoundReads policy.maxCounter)

/-- The policy bounds the counter, and there is one. -/
def Compared (counter : Value) (policy : VerificationPolicy) : Prop :=
  ¬ (policy.minCounter = none ∧ policy.maxCounter = none) ∧ counter ≠ .undefined

lemma counterRefusal_answers (policy : VerificationPolicy) (hcounter : isOptionalText counter = true) :
    (∃ r, counterRefusal counter policy = .ok r)
      ↔ (Compared counter policy → CountersRead counter policy) := by
  by_cases hnone : policy.minCounter = none ∧ policy.maxCounter = none
  · rw [counterRefusal, if_pos hnone]
    exact ⟨fun _ h => absurd hnone h.1, fun _ => ⟨none, rfl⟩⟩
  rw [counterRefusal, if_neg hnone]
  by_cases hundef : counter = .undefined
  · rw [if_pos hundef]
    exact ⟨fun _ h => absurd hundef h.2, fun _ => ⟨_, rfl⟩⟩
  rw [if_neg hundef]
  obtain ⟨s, rfl⟩ : ∃ s, counter = .str s := by
    cases counter with
    | str s => exact ⟨s, rfl⟩
    | undefined => exact absurd rfl hundef
    | _ => cases hcounter
  have hcompared : Compared (.str s) policy := ⟨hnone, hundef⟩
  rw [show text (.str s) = s from rfl, bigInt_eq, CountersRead]
  cases hc : bigInt? (.str s) with
  | none => simp [hcompared]
  | some c =>
      rw [ok_bind, andThen_answers, boundRefusal_answers, boundRefusal_eq_pass, boundRefusal_answers]
      constructor
      · rintro ⟨hmin, hmax⟩ -
        exact ⟨c, rfl, hmin, fun hmet => hmax ⟨hmin, hmet⟩⟩
      · intro h
        obtain ⟨d, hd, hmin, hmax⟩ := h hcompared
        obtain rfl := Option.some.inj hd
        exact ⟨hmin, fun hmet => hmax hmet.2⟩

/-- The counter is an integer inside the bounds, where there are bounds. -/
def InRange (counter : Value) (policy : VerificationPolicy) : Prop :=
  ¬ (policy.minCounter = none ∧ policy.maxCounter = none) →
    ∃ c, bigInt? counter = some c ∧
      (BoundReads policy.minCounter ∧ Met policy.minCounter (fun c m => c < m) c) ∧
      (BoundReads policy.maxCounter ∧ Met policy.maxCounter (fun c m => m < c) c)

lemma counterRefusal_iff_inRange (hcounter : isOptionalText counter = true) :
    counterRefusal counter policy = pass ↔ InRange counter policy := by
  by_cases hnone : policy.minCounter = none ∧ policy.maxCounter = none
  · rw [counterRefusal, if_pos hnone]
    exact iff_of_true rfl fun h => absurd hnone h
  rw [counterRefusal, if_neg hnone, InRange]
  cases counter with
  | undefined => simp [hnone, refuse, Verifier.pass, bigInt?]
  | str s =>
      rw [if_neg (by simp), show text (.str s) = s from rfl, bigInt_eq]
      cases hc : bigInt? (.str s) with
      | none => simp [hnone, Verifier.pass]
      | some c =>
          rw [ok_bind, andThen_eq_pass, boundRefusal_eq_pass, boundRefusal_eq_pass]
          exact ⟨fun h _ => ⟨c, rfl, h⟩, fun h => by
            obtain ⟨d, hd, h⟩ := h hnone
            obtain rfl := Option.some.inj hd
            exact h⟩
  | _ => cases hcounter

end Counters

/-! ### The verifier's policy check, split -/

section Policy

variable {proof : Value} {policy : VerificationPolicy}

/-- The constraints both check on the fields themselves. -/
structure Shared (proof : Value) (policy : VerificationPolicy) : Prop where
  enforcement : policy.requireEnforcement.all
    (fun t => (proof.get (js "environment")).get (js "enforcement") == .str t) = true
  measurement : (policy.allowedMeasurements == []
    || includes policy.allowedMeasurements ((proof.get (js "environment")).get (js "measurement"))) = true
  publicKey : (policy.allowedPublicKeys == []
    || includes policy.allowedPublicKeys ((proof.get (js "signer")).get (js "publicKeyB64"))) = true
  attestation : (!policy.requireAttestation
    || (proof.get (js "environment")).get (js "attestation") != .undefined) = true

/-- The constraints of a policy that the service does not know. -/
def rest (policy : VerificationPolicy) : VerificationPolicy :=
  { policy with
    requireEnforcement := none
    allowedMeasurements := []
    allowedPublicKeys := []
    requireAttestation := false
    minCounter := none
    maxCounter := none }

/-- The attestation of a valid structure is there where it counts as such. -/
lemma truthy_attestation {att : Value} (hatt : att = .undefined ∨ isRecord att = true) :
    att.truthy = (att != .undefined) := by
  rcases hatt with rfl | h
  · rfl
  · cases att with
    | obj l => rfl
    | _ => cases h

/-- The constraints that both check refuse, or leave the counters. -/
lemma verifyPolicy_cases (policy : VerificationPolicy) (checks : List Str)
    (hatt : (proof.get (js "environment")).get (js "attestation") = .undefined
      ∨ isRecord ((proof.get (js "environment")).get (js "attestation")) = true) :
    (¬ Shared proof policy ∧ ∃ cs reason, verifyPolicy proof policy checks = invalid cs reason) ∨
    (Shared proof policy ∧ ∃ cs cs', verifyPolicy proof policy checks
      = (counterRefusal ((proof.get (js "commit")).get (js "counter")) policy >>= fun r =>
        match r with
        | some reason => invalid cs reason
        | none => .ok ⟨true, none, cs'⟩)) := by
  rw [verifyPolicy]
  split
  · next h =>
      refine Or.inl ⟨fun hs => ?_, _, _, rfl⟩
      obtain ⟨t, ht, hne⟩ := Option.any_eq_true _ _ |>.mp h
      have heq := (Option.all_eq_true _ _ |>.mp hs.enforcement) t ht
      simp_all
  split
  · next h =>
      refine Or.inl ⟨fun hs => ?_, _, _, rfl⟩
      have := hs.measurement
      simp_all
  split
  · next h =>
      refine Or.inl ⟨fun hs => ?_, _, _, rfl⟩
      have := hs.publicKey
      simp_all
  split
  · next h =>
      refine Or.inl ⟨fun hs => ?_, _, _, rfl⟩
      have := hs.attestation
      rw [← truthy_attestation hatt] at this
      simp_all
  next h₁ h₂ h₃ h₄ =>
    refine Or.inr ⟨⟨?_, ?_, ?_, ?_⟩, _, _, rfl⟩
    · rw [Option.all_eq_true]
      intro t ht
      by_contra hne
      exact h₁ ((Option.any_eq_true _ _).mpr ⟨t, ht, by simpa using hne⟩)
    · by_contra hne
      simp_all
    · by_contra hne
      simp_all
    · rw [← truthy_attestation hatt]
      by_contra hne
      simp_all

end Policy

/-! ### The answer -/

section Answer

variable {C : Crypto} {proof : Value} {policy : Option VerificationPolicy} {bytes : Bytes}

/-- The signer's key and signature, read leniently, verify over the bytes. -/
structure Verifies (C : Crypto) (proof : Value) (bytes : Bytes) : Prop where
  key : (bufferFromBase64 (text ((proof.get (js "signer")).get (js "publicKeyB64")))).length = 32
  signature : (bufferFromBase64 (text ((proof.get (js "signer")).get (js "signatureB64")))).length = 64
  verified : C.ed25519 (bufferFromBase64 (text ((proof.get (js "signer")).get (js "signatureB64")))) bytes
    (bufferFromBase64 (text ((proof.get (js "signer")).get (js "publicKeyB64")))) = .ok true

/-- The signer's key and signature are canonical base64. -/
structure Plain (proof : Value) : Prop where
  key : (fromBase64 (text ((proof.get (js "signer")).get (js "publicKeyB64")))).isSome = true
  signature : (fromBase64 (text ((proof.get (js "signer")).get (js "signatureB64")))).isSome = true

/-- An answer is given, and a valid one only for what the verifier passes. -/
def Honest (C : Crypto) (proof : Value) (policy : Option VerificationPolicy) : Prop :=
  ∃ r, verifySignatureOnly C proof policy = .ok r ∧
    (r.valid = true →
      checkSignature C proof = pass ∧ (policy.map (checkPolicy proof)).getD pass = pass)

/-- The answer of the service, by its checks. -/
lemma verifySignatureOnly_cases (C : Crypto) (policy : Option VerificationPolicy)
    (hproof : validateStructure proof = pass)
    (hbytes : canonicalBytes proof = .ok bytes) :
    (¬ Verifies C proof bytes ∧ ∃ cs reason, verifySignatureOnly C proof policy = invalid cs reason) ∨
    (Verifies C proof bytes ∧ ∃ cs, verifySignatureOnly C proof policy
      = policy.elim (.ok ⟨true, none, cs⟩) fun p => verifyPolicy proof p cs) := by
  obtain ⟨⟨l, hobj⟩, hversion, -, -⟩ := of_validateStructure hproof
  have hprop : proof.prop (js "version") = .ok (.str (js "bitgraph/1")) := by
    rw [← hversion, hobj]
    rfl
  rw [verifySignatureOnly, hprop, ok_bind, if_neg (not_not.mpr rfl), hbytes, ok_bind]
  dsimp only
  split
  · next hlen => exact Or.inl ⟨fun hv => hlen hv.key, _, _, rfl⟩
  next hlen =>
  split
  · next hlen' => exact Or.inl ⟨fun hv => hlen' hv.signature, _, _, rfl⟩
  next hlen' =>
  split
  · next m hm =>
      refine Or.inl ⟨fun hv => ?_, _, _, rfl⟩
      rw [hv.verified] at hm
      cases hm
  · next hm =>
      refine Or.inl ⟨fun hv => ?_, _, _, rfl⟩
      rw [hv.verified] at hm
      cases hm
  · next hm =>
      refine Or.inr ⟨⟨not_not.mp hlen, not_not.mp hlen', hm⟩,
        [js "structure: ok", js "canonicalize: ok", js "signature: ok"], ?_⟩
      cases policy <;> rfl

/-- An answer is given where the counters that are compared are integers. -/
lemma answers_iff (C : Crypto) (policy : Option VerificationPolicy)
    (hproof : validateStructure proof = pass) (hbytes : canonicalBytes proof = .ok bytes) :
    (∃ r, verifySignatureOnly C proof policy = .ok r) ↔
      (Verifies C proof bytes → ∀ p, policy = some p → Shared proof p →
        Compared ((proof.get (js "commit")).get (js "counter")) p →
          CountersRead ((proof.get (js "commit")).get (js "counter")) p) := by
  obtain ⟨-, -, hcounter, hatt⟩ := of_validateStructure hproof
  rcases verifySignatureOnly_cases C policy hproof hbytes with
    ⟨hno, cs, reason, h⟩ | ⟨hv, cs, h⟩
  · rw [h]
    exact iff_of_true ⟨_, rfl⟩ fun hv => absurd hv hno
  rw [h]
  cases policy with
  | none => exact iff_of_true ⟨_, rfl⟩ fun _ p hp => by cases hp
  | some p =>
      rw [Option.elim_some]
      rcases verifyPolicy_cases p cs hatt with ⟨hno, cs', reason, hp⟩ | ⟨hs, cs', cs'', hp⟩
      · rw [hp]
        refine iff_of_true ⟨_, rfl⟩ fun _ q hq hs => ?_
        obtain rfl := Option.some.inj hq
        exact absurd hs hno
      · rw [hp]
        have hanswers := counterRefusal_answers p hcounter
        constructor
        · rintro ⟨r, hr⟩ - q hq -
          obtain rfl := Option.some.inj hq
          obtain ⟨c, hc, -⟩ := bind_eq_ok hr
          exact hanswers.mp ⟨c, hc⟩
        · intro hread
          obtain ⟨c, hc⟩ := hanswers.mpr (hread hv p rfl hs)
          rw [hc, ok_bind]
          cases c with
          | none => exact ⟨_, rfl⟩
          | some reason => exact ⟨_, rfl⟩

/-- What it takes to be valid. -/
lemma valid_iff (C : Crypto) (policy : Option VerificationPolicy)
    (hproof : validateStructure proof = pass) (hbytes : canonicalBytes proof = .ok bytes) :
    (∃ r, verifySignatureOnly C proof policy = .ok r ∧ r.valid = true) ↔
      Verifies C proof bytes ∧ ∀ p, policy = some p →
        Shared proof p ∧ InRange ((proof.get (js "commit")).get (js "counter")) p := by
  obtain ⟨-, -, hcounter, hatt⟩ := of_validateStructure hproof
  rcases verifySignatureOnly_cases C policy hproof hbytes with
    ⟨hno, cs, reason, h⟩ | ⟨hv, cs, h⟩
  · rw [h]
    refine iff_of_false ?_ fun hv => hno hv.1
    rintro ⟨r, hr, hvalid⟩
    obtain rfl := Except.ok.inj hr
    cases hvalid
  rw [h]
  cases policy with
  | none => exact iff_of_true ⟨_, rfl, rfl⟩ ⟨hv, fun p hp => by cases hp⟩
  | some p =>
      simp only [Option.elim_some, Option.some.injEq, forall_eq']
      rw [← counterRefusal_iff_inRange hcounter]
      rcases verifyPolicy_cases p cs hatt with ⟨hno, cs', reason, hp⟩ | ⟨hs, cs', cs'', hp⟩
      · rw [hp]
        refine iff_of_false ?_ fun hall => hno hall.2.1
        rintro ⟨r, hr, hvalid⟩
        obtain rfl := Except.ok.inj hr
        cases hvalid
      · rw [hp]
        constructor
        · rintro ⟨r, hr, hvalid⟩
          obtain ⟨c, hc, hr⟩ := bind_eq_ok hr
          cases c with
          | none => exact ⟨hv, hs, hc⟩
          | some reason =>
              obtain rfl := Except.ok.inj hr
              cases hvalid
        · rintro ⟨-, -, hc⟩
          rw [hc]
          exact ⟨_, rfl, rfl⟩

end Answer

/-! ### One proof -/

/-- A policy that asks for nothing. -/
def noPolicy : VerificationPolicy where
  requireEnforcement := none
  allowedMeasurements := []
  allowedPublicKeys := []
  requireAttestation := false
  requireAttestationFormat := []
  minCounter := none
  maxCounter := none
  minTime := none
  maxTime := none
  requireEpochId := false
  requireActor := false
  allowedActorKeyIds := []
  allowedActorProviders := []
  allowedOrigins := []
  requireSlot := false
  requireAtomic := false

end BitGraph.VerifyHelper
