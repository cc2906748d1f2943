import BitGraph.Audit
import BitGraph.Lib.Search
import Mathlib.Data.Fintype.Card

/-!
The order of two recordings.

* **Inside a partition** `isDirectedAncestor` walks the `prevB64` links; a path decides, and
  without one the commit counters do.
* **Across partitions** `lineagePrecedes` searches the epoch links, and `anchorPrecedes`
  compares the anchor bounds of the two segments.
* `compare` puts the answers together.
* `compare_antisymm`: the two orders of the arguments give the two sides of one answer.
-/

namespace BitGraph

open Js

namespace Player

open Audit

/-! ### Evidence -/

/-- The tiers of ordering evidence. -/
inductive EvidenceTier where
  | assumptionDependent
  | hashLinked
  deriving DecidableEq

namespace EvidenceTier

instance : Fintype EvidenceTier where
  elems := {assumptionDependent, hashLinked}
  complete t := by cases t <;> decide

/-- Hash links are the stronger evidence. -/
def strength : EvidenceTier → ℕ
  | assumptionDependent => 0
  | hashLinked => 1

instance : LinearOrder EvidenceTier :=
  LinearOrder.lift' strength fun a b h => by cases a <;> cases b <;> simp_all [strength]

instance : OrderTop EvidenceTier where
  top := hashLinked
  le_top a := by cases a <;> decide

lemma le_iff {s t : EvidenceTier} : s ≤ t ↔ t = hashLinked ∨ t = s := by
  cases s <;> cases t <;> decide

lemma top_le_iff {t : EvidenceTier} : hashLinked ≤ t ↔ t = hashLinked := by
  cases t <;> decide

/-- What is weaker than hash links is weaker than hash links only. -/
lemma eq_hashLinked {s t : EvidenceTier} (h : ¬ (some t = some hashLinked ∨ some t = some s)) :
    s = hashLinked := by
  cases s <;> cases t <;> first | rfl | exact absurd (by decide) h

/-- The tier's name in a rule. -/
def text : EvidenceTier → Str
  | assumptionDependent => js "assumption-dependent"
  | hashLinked => js "hash-linked"

end EvidenceTier

/-- What an ordering answer rests on. -/
inductive OrderBasis where
  | chainLink
  | counterOrder
  | epochLineage
  | anchorBounds
  deriving DecidableEq

/-- The basis's name. -/
def OrderBasis.text : OrderBasis → Str
  | .chainLink => js "chain-link"
  | .counterOrder => js "counter-order"
  | .epochLineage => js "epoch-lineage"
  | .anchorBounds => js "anchor-bounds"

/-- How two recordings stand to each other. -/
inductive Relation where
  | before
  | after
  | same
  | unordered
  deriving DecidableEq

/-- The relation's name. -/
def Relation.text : Relation → Str
  | .before => js "before"
  | .after => js "after"
  | .same => js "same"
  | .unordered => js "unordered"

/-- The answer of `compare`. -/
structure OrderResult where
  relation : Relation
  basis : Option OrderBasis
  tier : Option EvidenceTier
  assumptionDependent : Bool
  weaker : Bool
  detail : Str
  deriving DecidableEq

def unordered (detail : Str) : OrderResult := ⟨.unordered, none, none, false, false, detail⟩

def partitionOf (audit : AuditResult) (proofHash : Str) : Option ChainPartition :=
  audit.partitions.find? fun p => p.memberProofHashes.contains proofHash

def segmentOf (audit : AuditResult) (proofHash : Str) : Option TemporalSegment :=
  audit.segments.find? fun s => s.memberProofHashes.contains proofHash

/-- The map from canonical hashes to recordings. -/
def proofsByHash (audit : AuditResult) (proofHash : Str) : Option ObservedProof :=
  audit.proofs.reverse.find? fun p => p.proofHash = proofHash

/-! ### Links inside a partition -/

/-- The map from chain hashes to the members of a partition; a later member replaces an earlier
one of the same chain hash. -/
def chainHashIndex (audit : AuditResult) (partition : ChainPartition) (chainHash : Str) :
    Option ObservedProof :=
  (partition.memberProofHashes.filterMap (proofsByHash audit)).reverse.find? fun p =>
    p.chainHash = chainHash

/-- The member that `prevB64` names. -/
def parent (partition : ChainPartition) (byChainHash : Str → Option ObservedProof)
    (current : ObservedProof) : Option ObservedProof :=
  current.prevB64.bind fun prev => (byChainHash prev).filter fun parent =>
    partition.memberProofHashes.contains parent.proofHash

/-- Whether `ancestor` lies on the chain above `descendant`; the walk keeps the hashes it has
visited and stops where one comes back. -/
def isDirectedAncestor (ancestor descendant : ObservedProof) (partition : ChainPartition)
    (byChainHash : Str → Option ObservedProof) : Bool :=
  (Search.climb ObservedProof.proofHash (parent partition byChainHash) ancestor.proofHash
    (partition.memberProofHashes.length + 1) [] descendant).getD false

/-! ### Epoch lineage -/

/-- The hard edges with an observed predecessor. -/
def hardEdges (audit : AuditResult) : List EpochLineageEdge :=
  audit.edges.filter fun e => e.hardEdge && e.predecessorProofHash.isSome

/-- A partition key as the object it is. -/
def keyValue (key : PartitionKey) : Value :=
  .obj ([(js "publicKeyB64", .str key.publicKeyB64)]
    ++ (key.epochId.map fun e => (js "epochId", Value.str e)).toList
    ++ [(js "chainId", .str key.chainId)])

/-- `JSON.stringify(p.key)`. -/
def partitionKeyOf (p : ChainPartition) : Str := (keyValue p.key).serialize.getD []

/-- How the predecessor `pred` covers `a`. -/
def hopTier (a : ObservedProof) (partA : ChainPartition) (audit : AuditResult)
    (pred : ObservedProof) : Option EvidenceTier :=
  if pred.proofHash = a.proofHash ∨
      isDirectedAncestor a pred partA (chainHashIndex audit partA) = true then
    some .hashLinked
  else match parseCounter a.counter, parseCounter pred.counter with
    | some ca, some cp => if ca < cp then some .assumptionDependent else none
    | _, _ => none

/-- The first hops out of `a`'s partition. -/
def firstHops (a : ObservedProof) (partA : ChainPartition) (audit : AuditResult) :
    List (Str × EvidenceTier) :=
  (hardEdges audit).filterMap fun edge => do
    let pred ← edge.predecessorProofHash.bind (proofsByHash audit)
    let predPartition ← partitionOf audit pred.proofHash
    if predPartition ≠ partA then none
    else
      let tier ← hopTier a partA audit pred
      let viaPartition ← partitionOf audit edge.viaProofHash
      some (partitionKeyOf viaPartition, tier)

/-- The partitions one edge on from the partition with a given key. -/
def nextHops (audit : AuditResult) (key : Str) : List Str :=
  (hardEdges audit).filterMap fun edge => do
    let pred ← edge.predecessorProofHash.bind (proofsByHash audit)
    let predPartition ← partitionOf audit pred.proofHash
    if partitionKeyOf predPartition ≠ key then none
    else
      let viaPartition ← partitionOf audit edge.viaProofHash
      some (partitionKeyOf viaPartition)

/-- The search over subsequent hops; `none` means out of fuel. -/
def lineageLoop (audit : AuditResult) (targetKey : Str) : ℕ → List (Str × EvidenceTier) →
    (Str → Option EvidenceTier) → Option EvidenceTier → Option (Option EvidenceTier)
  | 0, _, _, _ => none
  | _ + 1, [], _, best => some best
  | fuel + 1, (partitionKey, tier) :: queue, bestTierByPartition, best =>
    let seen := bestTierByPartition partitionKey
    if seen = some .hashLinked ∨ seen = some tier then
      lineageLoop audit targetKey fuel queue bestTierByPartition best
    else
      let bestTierByPartition :=
        if seen = none ∨ tier = .hashLinked then
          Function.update bestTierByPartition partitionKey (some tier)
        else bestTierByPartition
      if partitionKey = targetKey then
        let best := if best = none ∨ tier = .hashLinked then some tier else best
        if best = some .hashLinked then some best
        else lineageLoop audit targetKey fuel queue bestTierByPartition best
      else
        lineageLoop audit targetKey fuel
          (queue ++ (nextHops audit partitionKey).map fun key => (key, tier))
          bestTierByPartition best

/-- Rounds enough for the search, `lineageLoop_isSome`. -/
def lineageFuel (audit : AuditResult) : ℕ :=
  audit.partitions.length * 2 * (audit.edges.length + 1) + audit.edges.length + 1

/-- Try to prove that `a` precedes `b` through a chain of hard edges. -/
def lineagePrecedes (a : ObservedProof) (partA : ChainPartition) (partB : ChainPartition)
    (audit : AuditResult) : Option EvidenceTier :=
  (lineageLoop audit (partitionKeyOf partB) (lineageFuel audit) (firstHops a partA audit)
    (fun _ => none) none).getD none

/-! ### Anchor bounds -/

def boundsStrictlyOrdered (upper lower : SegmentBound) : Except Thrown Bool :=
  match upper.blockNumber, lower.blockNumber with
  | some u, some l => do
    let m ← bigInt u
    let n ← bigInt l
    return decide (m < n)
  | _, _ => return Number.lt upper.timestamp lower.timestamp

def isFloorBound (b : SegmentBound) : Bool := b.source.isSome

/-- Two bounds that separate two segments. -/
structure Separation where
  weaker : Bool
  upper : SegmentBound
  lower : SegmentBound
  deriving DecidableEq

/-- The first separation found, or the first that does not rest on counter order. -/
def anchorPrecedes (firstSegment secondSegment : TemporalSegment) :
    Except Thrown (Option Separation) :=
  firstSegment.upperBounds.foldlM (fun best upper =>
    if isFloorBound upper then return best
    else secondSegment.lowerBounds.foldlM (fun best lower => do
      if isFloorBound lower then return best
      if !(← boundsStrictlyOrdered upper lower) then return best
      let weaker := upper.weaker || lower.weaker
      match best with
      | none => return some ⟨weaker, upper, lower⟩
      | some b => return if b.weaker && !weaker then some ⟨weaker, upper, lower⟩ else some b) best)
    none

def describeBound (bound : SegmentBound) : Str :=
  match bound.blockNumber with
  | some blockNumber => js "block " ++ blockNumber
  | none => js "t=" ++ bound.timestamp.toStr

/-! ### Comparing -/

/-- Two recordings of one partition. -/
def compareInPartition (a b : ObservedProof) (partition : ChainPartition) (audit : AuditResult) :
    OrderResult :=
  let chainIndex := chainHashIndex audit partition
  let aBeforeB := isDirectedAncestor a b partition chainIndex
  let bBeforeA := isDirectedAncestor b a partition chainIndex
  let ca := parseCounter a.counter
  let cb := parseCounter b.counter
  if aBeforeB && bBeforeA then
    unordered (js "prevB64 links form a cycle between these recordings: an anomaly, not an order")
  else if aBeforeB || bBeforeA then
    let contradicted : Bool := match ca, cb with
      | some ca, some cb => if aBeforeB then decide (cb ≤ ca) else decide (ca ≤ cb)
      | _, _ => false
    if contradicted then
      unordered
        (js "a verified prevB64 path contradicts the commit counters: an anomaly, not an order")
    else
      { relation := if aBeforeB then .before else .after
        basis := some .chainLink
        tier := some .hashLinked
        assumptionDependent := false
        weaker := false
        detail := js "a directed prevB64 path through observed proofs connects the recordings; the path decides the direction" }
  else match ca, cb with
    | some ca, some cb =>
      if ca = cb then
        unordered (js "two distinct recordings claim the same commit counter in one partition: an anomaly, not an order")
      else
        { relation := if ca < cb then .before else .after
          basis := some .counterOrder
          tier := some .assumptionDependent
          assumptionDependent := true
          weaker := true
          detail := js "no prevB64 path in the bundle connects the recordings; commit counters "
            ++ a.counter.getD [] ++ js " vs " ++ b.counter.getD []
            ++ js " rest on the authority's counter discipline" }
    | _, _ =>
      unordered (js "no prevB64 path connects the recordings and at least one carries no parseable strict-decimal commit counter")

/-- Two recordings of two partitions between which no lineage runs. -/
def compareAnchors (a b : ObservedProof) (audit : AuditResult) : Except Thrown OrderResult := do
  let concurrent := unordered (js "epochs " ++ a.epochId.getD (js "(none)") ++ js " and "
    ++ b.epochId.getD (js "(none)")
    ++ js " are concurrent-or-unordered for this pair: no covering lineage and no strict anchor-bound separation")
  match segmentOf audit a.proofHash, segmentOf audit b.proofHash with
  | some segA, some segB =>
    let forward ← anchorPrecedes segA segB
    let backward ← anchorPrecedes segB segA
    if forward.isSome && backward.isSome then
      return unordered (js "anchor bounds satisfy strict precedence in both directions: contradictory evidence, an anomaly, not an order")
    match forward.or backward with
    | some hit =>
      return {
        relation := if forward.isSome then .before else .after
        basis := some .anchorBounds
        tier := some .assumptionDependent
        assumptionDependent := true
        weaker := hit.weaker
        detail := js "not-after anchor " ++ describeBound hit.upper
          ++ js " strictly precedes not-before anchor " ++ describeBound hit.lower
          ++ js "; rests on the anchor-freshness assumption" }
    | none => return concurrent
  | _, _ => return concurrent

/-- Two recordings of two partitions. -/
def compareAcross (a b : ObservedProof) (partA partB : ChainPartition) (audit : AuditResult) :
    Except Thrown OrderResult :=
  if a.epochId.isSome ∧ a.epochId = b.epochId then
    return unordered (js "same epochId under a different signer key or chain: counters are not comparable and no cross-partition evidence orders them")
  else
    let lineageForward := lineagePrecedes a partA partB audit
    let lineageBackward := lineagePrecedes b partB partA audit
    if lineageForward.isSome && lineageBackward.isSome then
      return unordered (js "epochLink lineage evidence runs in both directions between these recordings: contradictory, an anomaly, not an order")
    else match lineageForward.or lineageBackward with
      | some tier =>
        let assumptionDependent := decide (tier = .assumptionDependent)
        return {
          relation := if lineageForward.isSome then .before else .after
          basis := some .epochLineage
          tier := some tier
          assumptionDependent := assumptionDependent
          weaker := assumptionDependent
          detail := if assumptionDependent then
              js "hard epochLink succession covers this pair, with the predecessor-side coverage resting on counter discipline"
            else
              js "hard epochLink succession covers this pair: the earlier recording precedes the referenced predecessor by hash links, and the later one is signed by a key created after it" }
      | none => compareAnchors a b audit

/-- Compare two recordings. -/
def compare (a b : ObservedProof) (audit : AuditResult) : Except Thrown OrderResult :=
  if a.proofHash = b.proofHash then
    return ⟨.same, none, none, false, false,
      js "both roles resolved to the identical recording"⟩
  else match partitionOf audit a.proofHash, partitionOf audit b.proofHash with
    | some partA, some partB =>
      if partA = partB then return compareInPartition a b partA audit
      else compareAcross a b partA partB audit
    | _, _ =>
      return unordered (js "at least one recording is observed-but-unchained (no counter or epochId): it holds no causal position to compare")

/-! ### Swapping the recordings -/

/-- The relation from the other side. -/
def Relation.flip : Relation → Relation
  | .before => .after
  | .after => .before
  | r => r

/-- The same answer from the other side. -/
structure Swapped (r r' : OrderResult) : Prop where
  relation : r'.relation = r.relation.flip
  basis : r'.basis = r.basis
  tier : r'.tier = r.tier
  assumptionDependent : r'.assumptionDependent = r.assumptionDependent
  weaker : r'.weaker = r.weaker

lemma swapped_unordered (d d' : Str) : Swapped (unordered d) (unordered d') :=
  ⟨rfl, rfl, rfl, rfl, rfl⟩

lemma compareInPartition_swap (a b : ObservedProof) (partition : ChainPartition)
    (audit : AuditResult) :
    Swapped (compareInPartition a b partition audit) (compareInPartition b a partition audit) := by
  rw [compareInPartition, compareInPartition]
  generalize isDirectedAncestor a b partition (chainHashIndex audit partition) = aBeforeB
  generalize isDirectedAncestor b a partition (chainHashIndex audit partition) = bBeforeA
  generalize parseCounter a.counter = ca
  generalize parseCounter b.counter = cb
  dsimp only
  cases aBeforeB <;> cases bBeforeA
  case true.true => exact swapped_unordered _ _
  case true.false | false.true =>
    -- the path decides, unless both counters parse and contradict it
    rcases ca with _ | ca <;> rcases cb with _ | cb <;>
      simp only [Bool.and_false, Bool.false_and, Bool.or_true, Bool.or_false, if_true,
        Bool.false_eq_true, if_false, decide_eq_true_eq]
    all_goals first
      | exact ⟨rfl, rfl, rfl, rfl, rfl⟩
      | split_ifs <;> exact ⟨rfl, rfl, rfl, rfl, rfl⟩
  case false.false =>
    rcases ca with _ | ca <;> rcases cb with _ | cb
    case some.some =>
      simp only [Bool.and_false, Bool.or_false, Bool.false_eq_true, if_false]
      rcases lt_trichotomy ca cb with h | h | h
      · rw [if_neg h.ne, if_neg h.ne', if_pos h, if_neg h.not_gt]
        exact ⟨rfl, rfl, rfl, rfl, rfl⟩
      · rw [if_pos h, if_pos h.symm]
        exact swapped_unordered _ _
      · rw [if_neg h.ne', if_neg h.ne, if_pos h, if_neg h.not_gt]
        exact ⟨rfl, rfl, rfl, rfl, rfl⟩
    all_goals exact swapped_unordered _ _

lemma compareAnchors_swap {a b : ObservedProof} {audit : AuditResult} {r : OrderResult}
    (h : compareAnchors a b audit = .ok r) :
    ∃ r', compareAnchors b a audit = .ok r' ∧ Swapped r r' := by
  rw [compareAnchors] at h ⊢
  cases ha : segmentOf audit a.proofHash with
  | none =>
      rw [ha] at h
      cases h
      cases segmentOf audit b.proofHash <;> exact ⟨_, rfl, swapped_unordered _ _⟩
  | some segA =>
      cases hb : segmentOf audit b.proofHash with
      | none =>
          rw [ha, hb] at h
          cases h
          exact ⟨_, rfl, swapped_unordered _ _⟩
      | some segB =>
          rw [ha, hb] at h
          dsimp only at h ⊢
          cases hf : anchorPrecedes segA segB with
          | error e =>
              rw [hf] at h
              cases h
          | ok forward =>
              cases hback : anchorPrecedes segB segA with
              | error e =>
                  rw [hf, hback] at h
                  cases h
              | ok backward =>
                  rw [hf, hback] at h
                  cases forward <;> cases backward <;> cases h <;>
                    exact ⟨_, rfl, rfl, rfl, rfl, rfl, rfl⟩

lemma compareAcross_swap {a b : ObservedProof} {partA partB : ChainPartition}
    {audit : AuditResult} {r : OrderResult} (h : compareAcross a b partA partB audit = .ok r) :
    ∃ r', compareAcross b a partB partA audit = .ok r' ∧ Swapped r r' := by
  rw [compareAcross] at h ⊢
  have hcomm : (b.epochId.isSome ∧ b.epochId = a.epochId)
      ↔ (a.epochId.isSome ∧ a.epochId = b.epochId) :=
    ⟨fun ⟨hb, he⟩ => ⟨he ▸ hb, he.symm⟩, fun ⟨ha, he⟩ => ⟨he ▸ ha, he.symm⟩⟩
  by_cases hepoch : a.epochId.isSome ∧ a.epochId = b.epochId
  · rw [if_pos hepoch] at h
    rw [if_pos (hcomm.mpr hepoch)]
    cases h
    exact ⟨_, rfl, swapped_unordered _ _⟩
  · rw [if_neg hepoch] at h
    rw [if_neg (mt hcomm.mp hepoch)]
    dsimp only at h ⊢
    cases hf : lineagePrecedes a partA partB audit with
    | none =>
        cases hb : lineagePrecedes b partB partA audit with
        | none =>
            rw [hf, hb] at h
            exact compareAnchors_swap h
        | some tier =>
            rw [hf, hb] at h
            cases h
            exact ⟨_, rfl, rfl, rfl, rfl, rfl, rfl⟩
    | some tier =>
        cases hb : lineagePrecedes b partB partA audit with
        | none =>
            rw [hf, hb] at h
            cases h
            exact ⟨_, rfl, rfl, rfl, rfl, rfl, rfl⟩
        | some tier' =>
            rw [hf, hb] at h
            cases h
            exact ⟨_, rfl, swapped_unordered _ _⟩

/-- An answer for one order of the recordings is the answer for the other order, seen from the
other side. -/
lemma compare_swap {a b : ObservedProof} {audit : AuditResult} {r : OrderResult}
    (h : compare a b audit = .ok r) : ∃ r', compare b a audit = .ok r' ∧ Swapped r r' := by
  rw [compare] at h ⊢
  by_cases hsame : a.proofHash = b.proofHash
  · rw [if_pos hsame] at h
    rw [if_pos hsame.symm]
    cases h
    exact ⟨_, rfl, rfl, rfl, rfl, rfl, rfl⟩
  · rw [if_neg hsame] at h
    rw [if_neg (Ne.symm hsame)]
    cases ha : partitionOf audit a.proofHash with
    | none =>
        rw [ha] at h
        cases h
        cases partitionOf audit b.proofHash <;> exact ⟨_, rfl, swapped_unordered _ _⟩
    | some partA =>
        cases hb : partitionOf audit b.proofHash with
        | none =>
            rw [ha, hb] at h
            cases h
            exact ⟨_, rfl, swapped_unordered _ _⟩
        | some partB =>
            rw [ha, hb] at h
            dsimp only at h ⊢
            by_cases hpart : partA = partB
            · subst hpart
              rw [if_pos rfl] at h ⊢
              cases h
              exact ⟨_, rfl, compareInPartition_swap a b partA audit⟩
            · rw [if_neg hpart] at h
              rw [if_neg (Ne.symm hpart)]
              exact compareAcross_swap h

/-- `compare(a, b)` answers with a relation, a basis and a tier. -/
def Answers (audit : AuditResult) (a b : ObservedProof) (relation : Relation)
    (basis : OrderBasis) (tier : EvidenceTier) : Prop :=
  ∃ r, compare a b audit = .ok r ∧ r.relation = relation ∧ r.basis = some basis
    ∧ r.tier = some tier

/-- `compare(a, b)` gives the two recordings a relation. -/
def Related (audit : AuditResult) (a b : ObservedProof) (relation : Relation) : Prop :=
  ∃ r, compare a b audit = .ok r ∧ r.relation = relation

/-- **Antisymmetry.** One recording is before the other exactly when the other is after the one,
on the same basis and tier, and they are unordered from both sides. -/
theorem compare_antisymm (audit : AuditResult) (a b : ObservedProof) :
    (∀ basis tier, Answers audit a b .before basis tier ↔ Answers audit b a .after basis tier)
      ∧ (Related audit a b .unordered ↔ Related audit b a .unordered) := by
  have hanswers : ∀ {a b : ObservedProof} {relation basis tier},
      Answers audit a b relation basis tier → Answers audit b a relation.flip basis tier := by
    rintro a b relation basis tier ⟨r, hr, rfl, hbasis, htier⟩
    obtain ⟨r', hr', hswap⟩ := compare_swap hr
    exact ⟨r', hr', hswap.relation, hswap.basis.trans hbasis, hswap.tier.trans htier⟩
  have hunordered : ∀ {a b : ObservedProof},
      Related audit a b .unordered → Related audit b a .unordered := by
    rintro a b ⟨r, hr, hrel⟩
    obtain ⟨r', hr', hswap⟩ := compare_swap hr
    exact ⟨r', hr', by rw [hswap.relation, hrel]; rfl⟩
  exact ⟨fun basis tier => ⟨hanswers, hanswers⟩, ⟨hunordered, hunordered⟩⟩

end Player

end BitGraph
