import BitGraph.Lib.Kleene
import BitGraph.Player.Order
import BitGraph.Player.Signature

/-!
The evaluation of a rule.

* **Claims.** `evalClaim` walks a claim over the resolved cast without a short circuit and
  records every step; `evaluate` is the whole evaluation.
* **The floor.** `floor_monotone`: raising the evidence floor of a rule from assumption-dependent
  to hash-linked makes its result and its steps undetermined or leaves them as they are.
-/

namespace BitGraph

open Js

namespace Player

open Audit Kleene Kleene.ThreeValued

/-! ### Rules -/

/-- What a claim says of the roles of the cast. -/
inductive Claim where
  | exists (role : Str)
  | before (x y : Str)
  | after (x y : Str)
  | between (subject lower upper : Str)
  | all (claims : List Claim)
  | any (claims : List Claim)
  | not (claim : Claim)
  | signedBy (role keyName : Str)

/-- The part of a rule that its evaluation reads: the digests of the cast, the floor, the trusted
keys and the claim. -/
structure Rule where
  cast : List (Str × Str)
  ordering : EvidenceTier
  trustedKeys : List (Str × TrustedKey)
  claim : Claim

/-- What a role of the cast was resolved to. -/
inductive Resolution where
  | resolved (proof : ObservedProof)
  | absent (optional : Bool)
  | ambiguous (matchCount : ℕ)
  | invalid (reason : Str)

/-- A recorded step. -/
structure DerivedStep where
  claim : Str
  result : ThreeValued
  basis : Option OrderBasis
  evidenceTier : Option EvidenceTier
  because : Fields

/-- What an evaluation reads. -/
structure Ctx (crypto : Crypto) where
  rule : Rule
  resolutions : List (Str × Resolution)
  audit : AuditResult
  sigEvidence : List (Str × Bytes)

/-- What an evaluation has written so far. -/
structure Trace where
  steps : List DerivedStep
  usedTiers : List EvidenceTier

/-- A part of the evaluation, as a change of the trace. -/
abbrev Eval (α : Type) := Trace → Except Thrown (α × Trace)

/-! ### Connectives -/

/-- The loop of `kleeneAll`. -/
def kleeneAllFrom (sawUndetermined : Bool) : List ThreeValued → ThreeValued
  | [] => if sawUndetermined then UNDETERMINED else TRUE
  | v :: values =>
    if v = FALSE then FALSE
    else kleeneAllFrom (if v = UNDETERMINED then true else sawUndetermined) values

def kleeneAll (values : List ThreeValued) : ThreeValued := kleeneAllFrom false values

/-- The loop of `kleeneAny`. -/
def kleeneAnyFrom (sawUndetermined : Bool) : List ThreeValued → ThreeValued
  | [] => if sawUndetermined then UNDETERMINED else FALSE
  | v :: values =>
    if v = TRUE then TRUE
    else kleeneAnyFrom (if v = UNDETERMINED then true else sawUndetermined) values

def kleeneAny (values : List ThreeValued) : ThreeValued := kleeneAnyFrom false values

def kleeneNot (v : ThreeValued) : ThreeValued :=
  if v = TRUE then FALSE else if v = FALSE then TRUE else UNDETERMINED

lemma kleeneNot_eq (v : ThreeValued) : kleeneNot v = Kleene.not v := by cases v <;> rfl

lemma kleeneAllFrom_eq (saw : Bool) (l : List ThreeValued) :
    kleeneAllFrom saw l = Kleene.all (if saw then UNDETERMINED :: l else l) := by
  induction l generalizing saw with
  | nil => cases saw <;> rfl
  | cons v l ih =>
      rw [kleeneAllFrom, ih]
      cases v <;> cases saw <;> simp [Kleene.all]

lemma kleeneAnyFrom_eq (saw : Bool) (l : List ThreeValued) :
    kleeneAnyFrom saw l = Kleene.any (if saw then UNDETERMINED :: l else l) := by
  induction l generalizing saw with
  | nil => cases saw <;> rfl
  | cons v l ih =>
      rw [kleeneAnyFrom, ih]
      cases v <;> cases saw <;> simp [Kleene.any, Kleene.all, Kleene.not]

lemma kleeneAll_mono {l l' : List ThreeValued} (h : List.Forall₂ (· ≤ ·) l l') :
    kleeneAll l ≤ kleeneAll l' := by
  rw [kleeneAll, kleeneAll, kleeneAllFrom_eq, kleeneAllFrom_eq]
  exact all_mono h

lemma kleeneAny_mono {l l' : List ThreeValued} (h : List.Forall₂ (· ≤ ·) l l') :
    kleeneAny l ≤ kleeneAny l' := by
  rw [kleeneAny, kleeneAny, kleeneAnyFrom_eq, kleeneAnyFrom_eq]
  exact any_mono h

lemma kleeneNot_mono {v w : ThreeValued} (h : v ≤ w) : kleeneNot v ≤ kleeneNot w := by
  rw [kleeneNot_eq, kleeneNot_eq]
  exact not_mono h

/-! ### Steps -/

def positionOf (proof : ObservedProof) : Fields :=
  [(js "proofHash", .str proof.proofHash)]
    ++ (proof.epochId.map fun e => (js "epochId", Value.str e)).toList
    ++ [(js "chainId", .str proof.chainId)]
    ++ (proof.counter.map fun c => (js "counter", Value.str c)).toList
    ++ (proof.slotCounter.map fun c => (js "slotCounter", Value.str c)).toList

/-- A role for the purposes of a predicate. -/
inductive Classified where
  | resolved (proof : ObservedProof)
  | definitelyAbsent
  | undetermined (reason : Str)

def quoted (s : Str) : Str := js "\"" ++ s ++ js "\""

def classify {crypto : Crypto} (ctx : Ctx crypto) (role : Str) : Classified :=
  match ctx.resolutions.lookup role with
  | none => .undetermined (js "role " ++ quoted role ++ js " is not declared in the cast")
  | some (.resolved proof) => .resolved proof
  | some (.absent optional) =>
    if optional then .definitelyAbsent
    else .undetermined
      (js "required role " ++ quoted role ++ js " has no verified recording in the bundle")
  | some (.ambiguous matchCount) =>
    .undetermined (js "role " ++ quoted role ++ js " matches " ++ decimal matchCount
      ++ js " recordings and no \"at\" pin selects one")
  | some (.invalid reason) => .undetermined (js "role " ++ quoted role ++ js ": " ++ reason)

def record (step : DerivedStep) : Eval ThreeValued := fun trace =>
  .ok (step.result, { trace with steps := trace.steps ++ [step] })

def because (reason : Str) : Fields := [(js "reason", .str reason)]

def existsStep {crypto : Crypto} (ctx : Ctx crypto) (role : Str) : DerivedStep :=
  let claim := js "exists(" ++ role ++ js ")"
  match classify ctx role with
  | .resolved proof =>
    ⟨claim, TRUE, none, none, [(js "recording", .obj (positionOf proof))]⟩
  | .definitelyAbsent =>
    ⟨claim, FALSE, none, none, because (js "no verified recording of the declared digest is in the bundle; definite absence within the declared closed world")⟩
  | .undetermined reason => ⟨claim, UNDETERMINED, none, none, because reason⟩

def evalExists {crypto : Crypto} (ctx : Ctx crypto) (role : Str) : Eval ThreeValued :=
  record (existsStep ctx role)

def basisTier : OrderBasis → EvidenceTier
  | .chainLink | .epochLineage => .hashLinked
  | .counterOrder | .anchorBounds => .assumptionDependent

def meetsFloor (tier floor : EvidenceTier) : Bool :=
  floor = .assumptionDependent || tier = .hashLinked

/-- The step of an ordering answer, gated by the floor, and the tier it used. -/
def orderedStep (floor : EvidenceTier) (claim : Str) (order : OrderResult) (basis : OrderBasis)
    (why : Fields) : DerivedStep × Option EvidenceTier :=
  let tier := order.tier.getD (basisTier basis)
  let why := why ++ [(js "weaker", .bool order.weaker),
    (js "assumptionDependent", .bool order.assumptionDependent)]
  if meetsFloor tier floor = false then
    (⟨claim, UNDETERMINED, some basis, some tier,
      why ++ [(js "floor", .str floor.text), (js "reason",
        .str (js "ordering evidence (" ++ quoted basis.text ++ js ", tier " ++ quoted tier.text
          ++ js ") is below the rule's declared floor (" ++ quoted floor.text ++ js ")"))]⟩, none)
  else
    (⟨claim, if order.relation = .before then TRUE else FALSE, some basis, some tier, why⟩,
      some tier)

/-- Whether `x` precedes `y`. -/
def precedesStep {crypto : Crypto} (ctx : Ctx crypto) (claim x y : Str) :
    Except Thrown (DerivedStep × Option EvidenceTier) :=
  match classify ctx x, classify ctx y with
  | .undetermined reason, _ =>
    .ok (⟨claim, UNDETERMINED, none, none, because reason ++ [(js "role", .str x)]⟩, none)
  | _, .undetermined reason =>
    .ok (⟨claim, UNDETERMINED, none, none, because reason ++ [(js "role", .str y)]⟩, none)
  | .definitelyAbsent, _ =>
    .ok (⟨claim, FALSE, none, none, because (js "role " ++ quoted x ++ js " is definitely absent within the declared closed world; no ordering claim about it can hold")⟩, none)
  | _, .definitelyAbsent =>
    .ok (⟨claim, FALSE, none, none, because (js "role " ++ quoted y ++ js " is definitely absent within the declared closed world; no ordering claim about it can hold")⟩, none)
  | .resolved a, .resolved b => do
    let order ← compare a b ctx.audit
    let why : Fields := [(js "a", .obj (positionOf a)), (js "b", .obj (positionOf b)),
      (js "relation", .str order.relation.text), (js "detail", .str order.detail)]
    match order.relation, order.basis with
    | .same, _ => return (⟨claim, FALSE, none, none, why⟩, none)
    | .unordered, _ => return (⟨claim, UNDETERMINED, none, none, why⟩, none)
    | _, some basis => return orderedStep ctx.rule.ordering claim order basis why
    -- an answer "before" or "after" carries its basis
    | _, none => .error (typeError (js "basis is undefined"))

def evalPrecedes {crypto : Crypto} (ctx : Ctx crypto) (claim x y : Str) : Eval ThreeValued :=
  fun trace => do
    let (step, used) ← precedesStep ctx claim x y
    record step { trace with usedTiers := trace.usedTiers ++ used.toList }

/-! ### Signatures -/

/-- The first candidate that verifies, and how many parsed as signatures until then. -/
def scanSignatures (crypto : Crypto) (key : TrustedKey) (keyObject : crypto.KeyObject)
    (targetHex : Str) : List (Str × Bytes) → ℕ → Option Str × ℕ
  | [], parsedCount => (none, parsedCount)
  | (sha256Hex, bytes) :: candidates, parsedCount =>
    match parseSigFile bytes with
    | none => scanSignatures crypto key keyObject targetHex candidates parsedCount
    | some sig =>
      if verifySigFile crypto sig key keyObject targetHex then (some sha256Hex, parsedCount + 1)
      else scanSignatures crypto key keyObject targetHex candidates (parsedCount + 1)

/-- `normalizeDigest(digest) as string`, decoded: a digest that is not one throws here. -/
def targetHexOf (digest : Str) : Except Thrown Str :=
  match (normalizeDigest digest).bind decodeDigestBytes with
  | some bytes => .ok (bytesToHex bytes)
  | none => .error (typeError (js "Cannot read properties of undefined (reading 'trim')"))

def signedByStep {crypto : Crypto} (ctx : Ctx crypto) (role keyName : Str) :
    Except Thrown DerivedStep :=
  let claim := js "signedBy(" ++ role ++ js ", " ++ keyName ++ js ")"
  match ctx.rule.cast.lookup role with
  | none => .ok ⟨claim, UNDETERMINED, none, none,
      because (js "role " ++ quoted role ++ js " is not declared in the cast")⟩
  | some digest =>
    match ctx.rule.trustedKeys.lookup keyName with
    | none => .ok ⟨claim, UNDETERMINED, none, none,
        because (js "trusted key " ++ quoted keyName ++ js " is not declared")⟩
    | some key =>
      match keyObjectFor crypto key with
      | none => .ok ⟨claim, UNDETERMINED, none, none,
          because (js "trusted key " ++ quoted keyName ++ js " is not decodable as " ++ key.alg.text
            ++ js " key material; no signature can verify against it")⟩
      | some keyObject => do
        let targetHex ← targetHexOf digest
        let candidates := ctx.sigEvidence.insertionSort fun a b => a.1 ≤ b.1
        match scanSignatures crypto key keyObject targetHex candidates 0 with
        | (some sha256Hex, _) => return ⟨claim, TRUE, none, none,
            [(js "signatureSha256Hex", .str sha256Hex), (js "alg", .str key.alg.text),
              (js "keyName", .str keyName), (js "over", .str (js "sha256:" ++ targetHex)),
              (js "note", .str (js "signature math verified here; that this key belongs to the named party is declared, never derived"))]⟩
        | (none, parsedCount) => return ⟨claim, UNDETERMINED, none, none,
            because (js "no valid bitgraph-sig/1 by trusted key " ++ quoted keyName
              ++ js " over the role digest is present in the supplied evidence ("
              ++ decimal ctx.sigEvidence.length ++ js " candidate file(s), "
              ++ decimal parsedCount
              ++ js " parsed as signatures); absence of a signature from a bundle proves nothing")⟩

def evalSignedBy {crypto : Crypto} (ctx : Ctx crypto) (role keyName : Str) : Eval ThreeValued :=
  fun trace => do
    let step ← signedByStep ctx role keyName
    record step trace

/-! ### Claims -/

def pairText (op x y : Str) : Str := op ++ js "(" ++ x ++ js ", " ++ y ++ js ")"

mutual

def evalClaim {crypto : Crypto} (ctx : Ctx crypto) : Claim → Eval ThreeValued
  | .exists role => evalExists ctx role
  | .signedBy role keyName => evalSignedBy ctx role keyName
  | .before x y => evalPrecedes ctx (pairText (js "before") x y) x y
  | .after x y => evalPrecedes ctx (pairText (js "after") x y) y x
  | .between subject lower upper => fun trace => do
    let text := js "between(" ++ subject ++ js ", " ++ lower ++ js ", " ++ upper ++ js "): "
    let (afterPart, trace) ←
      evalPrecedes ctx (text ++ pairText (js "after") subject lower) lower subject trace
    let (beforePart, trace) ←
      evalPrecedes ctx (text ++ pairText (js "before") subject upper) subject upper trace
    return (kleeneAll [afterPart, beforePart], trace)
  | .all claims => fun trace => do
    let (values, trace) ← evalClaims ctx claims trace
    return (kleeneAll values, trace)
  | .any claims => fun trace => do
    let (values, trace) ← evalClaims ctx claims trace
    return (kleeneAny values, trace)
  | .not claim => fun trace => do
    let (value, trace) ← evalClaim ctx claim trace
    return (kleeneNot value, trace)

/-- `claims.map((c) => evalClaim(ctx, c))`. -/
def evalClaims {crypto : Crypto} (ctx : Ctx crypto) : List Claim → Eval (List ThreeValued)
  | [] => fun trace => .ok ([], trace)
  | claim :: claims => fun trace => do
    let (value, trace) ← evalClaim ctx claim trace
    let (values, trace) ← evalClaims ctx claims trace
    return (value :: values, trace)

end

/-- The result of an evaluation. -/
structure Evaluation where
  result : ThreeValued
  steps : List DerivedStep
  weakestEvidence : Option EvidenceTier

def evaluate (crypto : Crypto) (rule : Rule) (resolutions : List (Str × Resolution))
    (audit : AuditResult) (sigEvidence : List (Str × Bytes)) : Except Thrown Evaluation := do
  let ctx : Ctx crypto := ⟨rule, resolutions, audit, sigEvidence⟩
  let (result, trace) ← evalClaim ctx rule.claim ⟨[], []⟩
  return ⟨result, trace.steps,
    if .assumptionDependent ∈ trace.usedTiers then some .assumptionDependent
    else if .hashLinked ∈ trace.usedTiers then some .hashLinked else none⟩

/-! ### The floor -/

/-- The rule with another floor. -/
def Rule.withFloor (rule : Rule) (floor : EvidenceTier) : Rule := { rule with ordering := floor }

/-- One step with less information than another. -/
def StepBelow (s s' : DerivedStep) : Prop := s.claim = s'.claim ∧ s.result ≤ s'.result

/-- Both sides throw the same, or both return, related. -/
inductive Agree {α : Type} (R : α → α → Prop) : Except Thrown α → Except Thrown α → Prop
  | ok {a b : α} (h : R a b) : Agree R (.ok a) (.ok b)
  | error (e : Thrown) : Agree R (.error e) (.error e)

lemma Agree.bind {α β : Type} {R : α → α → Prop} {S : β → β → Prop} {x y : Except Thrown α}
    {f g : α → Except Thrown β} (h : Agree R x y) (hfg : ∀ a b, R a b → Agree S (f a) (g b)) :
    Agree S (x >>= f) (y >>= g) := by
  cases h with
  | ok h => exact hfg _ _ h
  | error e => exact .error e

/-- A related value after related steps. -/
def Below {α : Type} (R : α → α → Prop) (x y : α × Trace) : Prop :=
  R x.1 y.1 ∧ List.Forall₂ StepBelow x.2.steps y.2.steps

/-- The first evaluation keeps the order of information against the second. -/
def Lowers {α : Type} (R : α → α → Prop) (e e' : Eval α) : Prop :=
  ∀ t t' : Trace, List.Forall₂ StepBelow t.steps t'.steps → Agree (Below R) (e t) (e' t')

lemma record_lowers {s s' : DerivedStep} (h : StepBelow s s') :
    Lowers (· ≤ ·) (record s) (record s') := fun _ _ ht =>
  .ok ⟨h.2, List.rel_append ht (.cons h .nil)⟩

lemma Lowers.map {α β : Type} {R : α → α → Prop} {S : β → β → Prop} {e e' : Eval α} {f : α → β}
    (h : Lowers R e e') (hf : ∀ a b, R a b → S (f a) (f b)) :
    Lowers S (fun t => do let (a, t) ← e t; return (f a, t))
      (fun t => do let (a, t) ← e' t; return (f a, t)) := fun t t' ht =>
  (h t t' ht).bind fun _ _ hab => .ok ⟨hf _ _ hab.1, hab.2⟩

/-- Under the stricter floor an answer on the weaker tier is left undecided. -/
lemma orderedStep_below (claim : Str) (order : OrderResult) (basis : OrderBasis) (why : Fields) :
    StepBelow (orderedStep .hashLinked claim order basis why).1
      (orderedStep .assumptionDependent claim order basis why).1 := by
  rw [orderedStep, orderedStep, if_neg (show ¬ meetsFloor _ .assumptionDependent = false by simp [meetsFloor])]
  by_cases hfloor : meetsFloor (order.tier.getD (basisTier basis)) .hashLinked = false
  · rw [if_pos hfloor]
    exact ⟨rfl, ThreeValued.undetermined_le _⟩
  · rw [if_neg hfloor]
    exact ⟨rfl, le_rfl⟩

variable {crypto : Crypto}

/-- The context under a floor. -/
def Ctx.withFloor (ctx : Ctx crypto) (floor : EvidenceTier) : Ctx crypto :=
  { ctx with rule := ctx.rule.withFloor floor }

lemma precedesStep_below (ctx : Ctx crypto) (claim x y : Str) :
    Agree (fun s s' => StepBelow s.1 s'.1)
      (precedesStep (ctx.withFloor .hashLinked) claim x y)
      (precedesStep (ctx.withFloor .assumptionDependent) claim x y) := by
  have hx : ∀ floor, classify (ctx.withFloor floor) x = classify ctx x := fun _ => rfl
  have hy : ∀ floor, classify (ctx.withFloor floor) y = classify ctx y := fun _ => rfl
  have hsame : ∀ (s : DerivedStep × Option EvidenceTier),
      Agree (fun s s' => StepBelow s.1 s'.1) (.ok s) (.ok s) := fun _ => .ok ⟨rfl, le_rfl⟩
  rw [precedesStep, precedesStep, hx, hx, hy, hy]
  cases classify ctx x with
  | undetermined reason => exact hsame _
  | definitelyAbsent => cases classify ctx y <;> exact hsame _
  | resolved a =>
      cases classify ctx y with
      | undetermined reason => exact hsame _
      | definitelyAbsent => exact hsame _
      | resolved b =>
          dsimp only
          rw [show (ctx.withFloor .hashLinked).audit = ctx.audit from rfl,
            show (ctx.withFloor .assumptionDependent).audit = ctx.audit from rfl]
          cases compare a b ctx.audit with
          | error e => exact .error e
          | ok order =>
              obtain ⟨relation, basis, tier, assumptionDependent, weaker, detail⟩ := order
              cases relation <;> cases basis
              case before.some | after.some => exact .ok (orderedStep_below _ _ _ _)
              case before.none | after.none => exact .error _
              all_goals exact hsame _

lemma evalPrecedes_lowers (ctx : Ctx crypto) (claim x y : Str) :
    Lowers (· ≤ ·) (evalPrecedes (ctx.withFloor .hashLinked) claim x y)
      (evalPrecedes (ctx.withFloor .assumptionDependent) claim x y) := fun _ _ ht =>
  (precedesStep_below ctx claim x y).bind fun _ _ hs => record_lowers hs _ _ ht

lemma evalExists_lowers (ctx : Ctx crypto) (role : Str) :
    Lowers (· ≤ ·) (evalExists (ctx.withFloor .hashLinked) role)
      (evalExists (ctx.withFloor .assumptionDependent) role) :=
  record_lowers ⟨rfl, le_rfl⟩

lemma evalSignedBy_lowers (ctx : Ctx crypto) (role keyName : Str) :
    Lowers (· ≤ ·) (evalSignedBy (ctx.withFloor .hashLinked) role keyName)
      (evalSignedBy (ctx.withFloor .assumptionDependent) role keyName) := by
  intro t t' ht
  have hstep : ∀ floor, signedByStep (ctx.withFloor floor) role keyName
      = signedByStep ctx role keyName := fun _ => rfl
  rw [evalSignedBy, evalSignedBy, hstep, hstep]
  cases signedByStep ctx role keyName with
  | error e => exact .error e
  | ok s => exact @record_lowers s s ⟨rfl, le_rfl⟩ t t' ht

mutual

/-- The walk of a claim, by cases on its operator. -/
lemma evalClaim_lowers (ctx : Ctx crypto) : ∀ claim : Claim,
    Lowers (· ≤ ·) (evalClaim (ctx.withFloor .hashLinked) claim)
      (evalClaim (ctx.withFloor .assumptionDependent) claim)
  | .exists role => by
      rw [evalClaim, evalClaim]
      exact evalExists_lowers ctx role
  | .signedBy role keyName => by
      rw [evalClaim, evalClaim]
      exact evalSignedBy_lowers ctx role keyName
  | .before x y => by
      rw [evalClaim, evalClaim]
      exact evalPrecedes_lowers ctx _ x y
  | .after x y => by
      rw [evalClaim, evalClaim]
      exact evalPrecedes_lowers ctx _ y x
  | .between subject lower upper => by
      rw [evalClaim, evalClaim]
      intro t t' ht
      refine (evalPrecedes_lowers ctx _ lower subject t t' ht).bind fun u u' hu => ?_
      refine (evalPrecedes_lowers ctx _ subject upper u.2 u'.2 hu.2).bind fun v v' hv => ?_
      exact .ok ⟨kleeneAll_mono (.cons hu.1 (.cons hv.1 .nil)), hv.2⟩
  | .all claims => by
      rw [evalClaim, evalClaim]
      exact (evalClaims_lowers ctx claims).map fun _ _ => kleeneAll_mono
  | .any claims => by
      rw [evalClaim, evalClaim]
      exact (evalClaims_lowers ctx claims).map fun _ _ => kleeneAny_mono
  | .not claim => by
      rw [evalClaim, evalClaim]
      exact (evalClaim_lowers ctx claim).map fun _ _ => kleeneNot_mono

lemma evalClaims_lowers (ctx : Ctx crypto) : ∀ claims : List Claim,
    Lowers (List.Forall₂ (· ≤ ·)) (evalClaims (ctx.withFloor .hashLinked) claims)
      (evalClaims (ctx.withFloor .assumptionDependent) claims)
  | [] => by
      rw [evalClaims, evalClaims]
      exact fun t t' ht => .ok ⟨.nil, ht⟩
  | claim :: claims => by
      rw [evalClaims, evalClaims]
      intro t t' ht
      refine (evalClaim_lowers ctx claim t t' ht).bind fun u u' hu => ?_
      refine (evalClaims_lowers ctx claims u.2 u'.2 hu.2).bind fun v v' hv => ?_
      exact .ok ⟨.cons hu.1 hv.1, hv.2⟩

end

/-- **Raising the floor** from assumption-dependent to hash-linked throws where the weaker floor
throws, and otherwise makes the result of the rule, and of every step, undetermined or leaves it
as it is. -/
theorem floor_monotone (crypto : Crypto) (rule : Rule) (resolutions : List (Str × Resolution))
    (audit : AuditResult) (sigEvidence : List (Str × Bytes)) :
    Agree (fun strict weak => strict.result ≤ weak.result
        ∧ List.Forall₂ StepBelow strict.steps weak.steps)
      (evaluate crypto (rule.withFloor .hashLinked) resolutions audit sigEvidence)
      (evaluate crypto (rule.withFloor .assumptionDependent) resolutions audit sigEvidence) := by
  have h := evalClaim_lowers (⟨rule, resolutions, audit, sigEvidence⟩ : Ctx crypto)
    rule.claim ⟨[], []⟩ ⟨[], []⟩ .nil
  exact h.bind fun _ _ hu => .ok ⟨hu.1, hu.2⟩

end Player

end BitGraph
