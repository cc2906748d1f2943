import BitGraph.Audit
import BitGraph.Lib.Best
import BitGraph.Lib.OrderedMap
import BitGraph.Lib.Search

/-!
`temporal.ts`: one-sided bounds on segments of the observed record.

Timestamps are whole seconds. The texts of the claims and notes are left out.

* **Evidence.** `anchorEvidenceOf` keeps the verified witnesses; Base floors come as a map from
  the proofs that sign them.
* **Links.** `pred` follows `prevB64` inside a partition; `collectAncestors` and
  `collectDescendants` walk it from an anchor.
* **Floors.** `chainFloors` and `counterFloors` hand floors on in one pass each.
* **Bounds.** `lowerCandidates` and `upperCandidates` of a member, and `selectBounds`.
* **Segments.** `buildPartitionSegments` groups the members with one set of bounds.
* **Epochs.** `aggregateEpochs` covers the epochs and orders them.
-/

namespace BitGraph

open Js

namespace Audit

namespace Temporal

/-! ### Evidence -/

inductive TimeSource where
  | header
  | signed
  deriving DecidableEq

/-- A Base floor that bounds the proof signing it. -/
structure FloorEvidence where
  proofHash : Str
  blockNumber : ℕ
  blockHash : Str
  timestamp : ℕ
  timeSource : TimeSource
  deriving DecidableEq

/-- `floor` is present for a Base floor. -/
structure VerifiedAnchorEvidence where
  anchorProofHash : Str
  timestamp : ℕ
  blockHash : Str
  blockNumber : Option Str
  floor : Option TimeSource
  deriving DecidableEq

/-- What a witness was found to say; the last three are there where it is verified. -/
structure AnchorWitnessOutcome where
  verified : Bool
  anchorProofHash : Option Str
  timestamp : ℕ
  computedBlockHash : Str
  blockNumber : Option Str

inductive BoundEvidence where
  | signedFloor
  | chainLink
  | counterOrder
  deriving DecidableEq

inductive BoundKind where
  | notBefore
  | notAfter
  deriving DecidableEq

/-- A bound of a segment; `floor` stands for `source`, `chain` and `timeSource`. -/
structure SegmentBound where
  kind : BoundKind
  anchorProofHash : Str
  floor : Option TimeSource
  blockNumber : Option Str
  blockHash : Str
  timestamp : ℕ
  evidence : BoundEvidence
  weaker : Bool
  deriving DecidableEq

abbrev Evidence := OrderedMap Str VerifiedAnchorEvidence
abbrev Floors := OrderedMap Str FloorEvidence

/-- A verified witness counts where it is the first of its anchor. -/
def addOutcome (evidence : Evidence) (outcome : AnchorWitnessOutcome) : Evidence :=
  match outcome.verified, outcome.anchorProofHash with
  | true, some hash =>
      if evidence.has hash then evidence
      else evidence.set hash
        ⟨hash, outcome.timestamp, outcome.computedBlockHash, outcome.blockNumber, none⟩
  | _, _ => evidence

def anchorEvidenceOf (outcomes : List AnchorWitnessOutcome) : Evidence :=
  outcomes.foldl addOutcome []

def EVIDENCE_RANK : BoundEvidence → ℕ
  | .signedFloor => 2
  | .chainLink => 1
  | .counterOrder => 0

def FLOOR_KEY : Str := js "floor:"

def floorSource (f : FloorEvidence) : VerifiedAnchorEvidence :=
  ⟨f.proofHash, f.timestamp, f.blockHash, some (decimal f.blockNumber), some f.timeSource⟩

/-- A floor is tighter with a later block time, at a tie with the lower proof hash. -/
def tighterFloor (b a : FloorEvidence) : Bool :=
  if a.timestamp ≠ b.timestamp then a.timestamp < b.timestamp else b.proofHash < a.proofHash

/-- The tighter of two floors. -/
def laterFloor (a b : Option FloorEvidence) : Option FloorEvidence :=
  match a, b with
  | none, b => b
  | a, none => a
  | some a, some b =>
      if a.timestamp ≠ b.timestamp then (if b.timestamp < a.timestamp then some a else some b)
      else if a.proofHash ≤ b.proofHash then some a else some b

/-! ### Links of a partition -/

section Links

variable (members : List ObservedProof)

/-- The members by chain hash. -/
def memberSet : OrderedMap Str ObservedProof :=
  OrderedMap.ofList (members.map fun m => (m.chainHash, m))

/-- The member a `prevB64` names. -/
def linked (m : ObservedProof) : Option ObservedProof :=
  m.prevB64.bind fun prev => (memberSet members).get prev

/-- The predecessor of a member, never itself. -/
def pred (m : ObservedProof) : Option ObservedProof :=
  (linked members m).filter fun p => p.proofHash ≠ m.proofHash

/-- Note a member after its predecessor. -/
def addSuccessor (successors : OrderedMap Str (List ObservedProof)) (m : ObservedProof) :
    OrderedMap Str (List ObservedProof) :=
  match pred members m with
  | none => successors
  | some p => successors.push p.proofHash m

/-- The members after each member, by its hash. -/
def successorMap : OrderedMap Str (List ObservedProof) := members.foldl (addSuccessor members) []

def successors (hash : Str) : List ObservedProof := ((successorMap members).get hash).getD []

/-- The loop of `collectDescendants`. -/
def descendantsLoop : ℕ → List ObservedProof → List Str → List Str
  | 0, _, reached => reached
  | _ + 1, [], reached => reached
  | fuel + 1, node :: stack, reached =>
      if node.proofHash ∈ reached then descendantsLoop fuel stack reached
      else descendantsLoop fuel ((successors members node.proofHash).reverse ++ stack)
        (node.proofHash :: reached)

/-- Every member is taken up once and put on the stack once for its predecessor. -/
def collectDescendants (anchor : ObservedProof) : List Str :=
  descendantsLoop members (2 * members.length + 1) (successors members anchor.proofHash).reverse []

/-- The loop of `collectAncestors`. -/
def ancestorsLoop (anchor : ObservedProof) : ℕ → ObservedProof → List Str → List Str
  | 0, _, reached => reached
  | fuel + 1, cursor, reached =>
      match linked members cursor with
      | none => reached
      | some p =>
          if p.proofHash ∈ reached ∨ p.proofHash = anchor.proofHash then reached
          else ancestorsLoop anchor fuel p (p.proofHash :: reached)

def collectAncestors (anchor : ObservedProof) : List Str :=
  ancestorsLoop members anchor (members.length + 1) anchor []

end Links

/-! ### Floors handed on -/

section FloorPasses

variable (members : List ObservedProof) (floors : Floors)

/-- What the first pass has found: for a member, the tightest floor above it. -/
abbrev FloorMemo := OrderedMap Str (Option FloorEvidence)

/-- Up from `cur` to a member that is known or was met; the path comes last member first. -/
def climbPath (memo : FloorMemo) :
    ℕ → Option ObservedProof → List ObservedProof → List ObservedProof × Option ObservedProof
  | 0, cur, path => (path, cur)
  | _ + 1, none, path => (path, none)
  | fuel + 1, some cur, path =>
      if memo.has cur.proofHash ∨ cur.proofHash ∈ path.map ObservedProof.proofHash then
        (path, some cur)
      else climbPath memo fuel (pred members cur) (cur :: path)

/-- Down a path, each member with what was carried to it. -/
def spread : List ObservedProof → Option FloorEvidence → FloorMemo → FloorMemo
  | [], _, memo => memo
  | node :: rest, carry, memo =>
      spread rest (laterFloor carry (floors.get node.proofHash)) (memo.set node.proofHash carry)

/-- What a known member hands on. -/
def carryOf (memo : FloorMemo) (cur : Option ObservedProof) : Option FloorEvidence :=
  cur.bind fun c => (memo.get c.proofHash).bind fun above =>
    laterFloor above (floors.get c.proofHash)

def chainFloorStep (memo : FloorMemo) (m : ObservedProof) : FloorMemo :=
  let climbed := climbPath members memo (members.length + 1) (some m) []
  spread floors climbed.1 (carryOf floors memo climbed.2) memo

/-- The tightest floor among the ancestors of each member. -/
def chainFloors : FloorMemo := members.foldl (chainFloorStep members floors) []

/-- The members with a counter, by counter. -/
def counted : List (ObservedProof × ℕ) :=
  (members.filterMap fun m => (parseCounter m.counter).map fun c => (m, c)).insertionSort
    fun a b => a.2 ≤ b.2

/-- One group of equal counters: each gets what was signed below; the floors of the group join. -/
def counterGroup (state : FloorMemo × Option FloorEvidence) (group : List (ObservedProof × ℕ)) :
    FloorMemo × Option FloorEvidence :=
  let memo := group.foldl (fun memo x => memo.set x.1.proofHash state.2) state.1
  let floor := group.foldl (fun floor x => laterFloor floor (floors.get x.1.proofHash)) none
  (memo, laterFloor state.2 floor)

/-- The groups of equal counters, in order. -/
def counterGroups : List (List (ObservedProof × ℕ)) :=
  (counted members).splitBy fun a b => a.2 == b.2

/-- The tightest floor at a lower counter of each member with a counter. -/
def counterFloors : FloorMemo :=
  ((counterGroups members).foldl (counterGroup floors) ([], none)).1

end FloorPasses

/-! ### Bounds of a member -/

/-- A candidate: its key, how it reaches the member, and its evidence. -/
structure Entry where
  anchorHash : Str
  evidenceKind : BoundEvidence
  info : VerifiedAnchorEvidence
  deriving DecidableEq

/-- `better` inside `selectBounds`. -/
def better (kind : BoundKind) (a b : Entry) : Bool :=
  if a.info.timestamp ≠ b.info.timestamp then
    match kind with
    | .notBefore => b.info.timestamp < a.info.timestamp
    | .notAfter => a.info.timestamp < b.info.timestamp
  else if a.evidenceKind ≠ b.evidenceKind then
    EVIDENCE_RANK b.evidenceKind < EVIDENCE_RANK a.evidenceKind
  else a.anchorHash < b.anchorHash

/-- A bound that an entry gives. -/
def makeBound (kind : BoundKind) (entry : Entry) : SegmentBound :=
  match entry.info.floor with
  | some timeSource =>
      ⟨.notBefore, entry.info.anchorProofHash, some timeSource, entry.info.blockNumber,
        entry.info.blockHash, entry.info.timestamp, entry.evidenceKind,
        entry.evidenceKind = .counterOrder⟩
  | none =>
      ⟨kind, entry.anchorHash, none, entry.info.blockNumber, entry.info.blockHash,
        entry.info.timestamp, entry.evidenceKind, entry.evidenceKind = .counterOrder⟩

abbrev Candidates := OrderedMap Str BoundEvidence

/-- The candidates with their evidence. -/
def entriesOf (evidence : Evidence) (candidates : Candidates) : List Entry :=
  candidates.filterMap fun c => (evidence.get c.1).map fun info => ⟨c.1, c.2, info⟩

/-- The tightest bound, and the tightest that does not rest on counters where it is another. -/
def selectBounds (kind : BoundKind) (candidates : Candidates) (evidence : Evidence) :
    List SegmentBound :=
  let entries := entriesOf evidence candidates
  let best := entries.foldl (fun best entry => Best.merge (better kind) best (some entry)) none
  let bestChain := entries.foldl (fun best entry =>
    if entry.evidenceKind ≠ .counterOrder then Best.merge (better kind) best (some entry)
    else best) none
  (best.toList ++ (bestChain.filter fun entry => some entry ≠ best).toList).map (makeBound kind)

section Candidates

variable (members anchors : List ObservedProof) (floors : Floors) (m : ObservedProof)

/-- The first number is above the second, where both are there. -/
def counterAbove (a b : Option ℕ) : Bool :=
  match a, b with
  | some a, some b => b < a
  | _, _ => false

/-- Add a weaker candidate where its key has none. -/
def setIfAbsent (candidates : Candidates) (key : Str) (e : BoundEvidence) : Candidates :=
  if candidates.has key then candidates else candidates.set key e

def lowerStep (candidates : Candidates) (anchor : ObservedProof) : Candidates :=
  if m.proofHash = anchor.proofHash ∨ m.proofHash ∈ collectDescendants members anchor then
    candidates.set anchor.proofHash .chainLink
  else if counterAbove (parseCounter m.counter) (parseCounter anchor.counter) then
    setIfAbsent candidates anchor.proofHash .counterOrder
  else candidates

def upperStep (candidates : Candidates) (anchor : ObservedProof) : Candidates :=
  if m.proofHash ∈ collectAncestors members anchor then
    candidates.set anchor.proofHash .chainLink
  else if m.proofHash ≠ anchor.proofHash
      ∧ counterAbove (parseCounter anchor.counter) (parseCounter m.counter) then
    setIfAbsent candidates anchor.proofHash .counterOrder
  else candidates

/-- Not-before candidates from anchors alone. -/
def anchorCandidates : Candidates := anchors.foldl (lowerStep members m) []

/-- Not-after candidates. -/
def upperCandidates : Candidates := anchors.foldl (upperStep members m) []

/-- A member's own floor. -/
def addOwnFloor (candidates : Candidates) (own : Option FloorEvidence) : Candidates :=
  match own with
  | some own => candidates.set (FLOOR_KEY ++ own.proofHash) .signedFloor
  | none => candidates

/-- A floor that was handed on. -/
def addFloor (candidates : Candidates) (floor : Option FloorEvidence) (e : BoundEvidence) :
    Candidates :=
  match floor with
  | some f => setIfAbsent candidates (FLOOR_KEY ++ f.proofHash) e
  | none => candidates

/-- The floors that reach a member: its own, the tightest above it, the tightest at a lower
counter. -/
def addFloors (candidates : Candidates) : Candidates :=
  addFloor
    (addFloor (addOwnFloor candidates (floors.get m.proofHash))
      ((chainFloors members floors).get m.proofHash).join .chainLink)
    ((counterFloors members floors).get m.proofHash).join .counterOrder

end Candidates

structure MemberBounds where
  member : ObservedProof
  lower : List SegmentBound
  upper : List SegmentBound

section Partition

variable (anchorEvidence : Evidence) (floors : Floors) (members : List ObservedProof)

/-- The members with a verified witness. -/
def anchorsOf : List ObservedProof := members.filter fun m => anchorEvidence.has m.proofHash

/-- The members that sign a floor. -/
def flooredOf : List ObservedProof := members.filter fun m => floors.has m.proofHash

/-- The evidence of anchors and, under keys of their own, of the floors signed here. -/
def evidenceOf : Evidence :=
  (flooredOf floors members).foldl (fun evidence m =>
    match floors.get m.proofHash with
    | some f => evidence.set (FLOOR_KEY ++ m.proofHash) (floorSource f)
    | none => evidence) anchorEvidence

/-- Anchors and floors in one partition. -/
def mixed : Bool := !(flooredOf floors members).isEmpty && !(anchorsOf anchorEvidence members).isEmpty

/-- Not-before candidates. -/
def lowerCandidates (m : ObservedProof) : Candidates :=
  let candidates := anchorCandidates members (anchorsOf anchorEvidence members) m
  if (flooredOf floors members).isEmpty then candidates else addFloors members floors m candidates

def memberBounds (m : ObservedProof) : MemberBounds :=
  { member := m
    lower := selectBounds .notBefore (lowerCandidates anchorEvidence floors members m)
      (evidenceOf anchorEvidence floors members)
    upper := selectBounds .notAfter
      (upperCandidates members (anchorsOf anchorEvidence members) m)
      (evidenceOf anchorEvidence floors members) }

/-- The anchor-only bounds of a member. -/
def keepAnchorLower (lower : OrderedMap Str (List SegmentBound)) (m : ObservedProof) :
    OrderedMap Str (List SegmentBound) :=
  let candidates := anchorCandidates members (anchorsOf anchorEvidence members) m
  if candidates.isEmpty then lower
  else lower.set m.proofHash
    (selectBounds .notBefore candidates (evidenceOf anchorEvidence floors members))

/-- The anchor-only bounds of the members, kept apart in a mixed partition. -/
def anchorLowerOf : OrderedMap Str (List SegmentBound) :=
  if mixed anchorEvidence floors members then
    members.foldl (keepAnchorLower anchorEvidence floors members) []
  else []

end Partition

/-! ### Segments -/

def evidenceText : BoundEvidence → Str
  | .signedFloor => js "signed-floor"
  | .chainLink => js "chain-link"
  | .counterOrder => js "counter-order"

/-- A bound in the key of its set. -/
def boundText (b : SegmentBound) : Str :=
  (if b.floor.isSome then FLOOR_KEY else []) ++ b.anchorProofHash ++ js ":" ++ evidenceText b.evidence

/-- `boundSetKey`. -/
def boundSetKey (mb : MemberBounds) : Str :=
  joinComma (mb.lower.map boundText) ++ js "|" ++ joinComma (mb.upper.map boundText)

inductive SegmentStatus where
  | lowerBoundedWithFollowingAnchor
  | lowerBounded
  | upperBounded
  | orderedButUnanchored
  deriving DecidableEq

structure TemporalSegment where
  partition : PartitionKey
  memberProofHashes : List Str
  positionRange : Option (ℕ × ℕ)
  status : SegmentStatus
  lowerBounds : List SegmentBound
  upperBounds : List SegmentBound

/-- Both counters of every member. -/
def positions (members : List ObservedProof) : List ℕ :=
  members.flatMap fun m => [m.counter, m.slotCounter].filterMap parseCounter

def positionRange (members : List ObservedProof) : Option (ℕ × ℕ) :=
  match positions members with
  | [] => none
  | n :: ns => some (ns.foldl min n, ns.foldl max n)

def segmentStatus (lower upper : List SegmentBound) : SegmentStatus :=
  if lower ≠ [] ∧ upper ≠ [] then .lowerBoundedWithFollowingAnchor
  else if lower ≠ [] then .lowerBounded
  else if upper ≠ [] then .upperBounded
  else .orderedButUnanchored

def compareSegments (a b : TemporalSegment) : ℤ :=
  let byHash := compareText (a.memberProofHashes.head?.getD []) (b.memberProofHashes.head?.getD [])
  match a.positionRange, b.positionRange with
  | some ra, some rb => if ra.1 ≠ rb.1 then (if ra.1 < rb.1 then -1 else 1) else byHash
  | some _, none => -1
  | none, some _ => 1
  | none, none => byHash

/-- The segment of members with one set of bounds. -/
def segmentOf (key : PartitionKey) (group : List MemberBounds) : TemporalSegment :=
  let members := (group.map MemberBounds.member).insertionSort fun a b => byCounterThenHash a b ≤ 0
  let lower := (group.head?.map MemberBounds.lower).getD []
  let upper := (group.head?.map MemberBounds.upper).getD []
  ⟨key, members.map ObservedProof.proofHash, positionRange members, segmentStatus lower upper, lower,
    upper⟩

/-- The members grouped by their set of bounds. -/
def boundGroups (bounds : List MemberBounds) : OrderedMap Str (List MemberBounds) :=
  bounds.foldl (fun groups mb => OrderedMap.push groups (boundSetKey mb) mb) []

def buildPartitionSegments (key : PartitionKey) (members : List ObservedProof)
    (anchorEvidence : Evidence) (floors : Floors) : List TemporalSegment :=
  ((boundGroups (members.map (memberBounds anchorEvidence floors members))).map
    fun g => segmentOf key g.2).insertionSort fun a b => compareSegments a b ≤ 0

/-! ### Epochs -/

/-- The bound that stands for an epoch on one side. -/
structure CoverageRepresentative where
  timestamp : ℕ
  anchorProofHash : Str
  blockHash : Str
  blockNumber : Option Str
  floor : Bool
  evidence : BoundEvidence
  weaker : Bool
  deriving DecidableEq

structure EpochCoverage where
  totalProofCount : ℕ
  lowerCovered : List Str
  lowerMin : Option CoverageRepresentative
  anchorLowerCovered : List Str
  anchorLowerMin : Option CoverageRepresentative
  upperCovered : List Str
  upperMax : Option CoverageRepresentative

def representative (b : SegmentBound) : CoverageRepresentative :=
  ⟨b.timestamp, b.anchorProofHash, b.blockHash, b.blockNumber, b.floor.isSome, b.evidence, b.weaker⟩

/-- The smaller not-before, at a tie the stronger. -/
def foldLower (current : Option CoverageRepresentative) (b : SegmentBound) :
    Option CoverageRepresentative :=
  match current with
  | none => some (representative b)
  | some c =>
      if b.timestamp < c.timestamp ∨ (b.timestamp = c.timestamp ∧ c.weaker ∧ ¬ b.weaker) then
        some (representative b)
      else some c

/-- The greater not-after, at a tie the stronger. -/
def foldUpper (current : Option CoverageRepresentative) (b : SegmentBound) :
    Option CoverageRepresentative :=
  match current with
  | none => some (representative b)
  | some c =>
      if c.timestamp < b.timestamp ∨ (b.timestamp = c.timestamp ∧ c.weaker ∧ ¬ b.weaker) then
        some (representative b)
      else some c

/-- `Set.add`, for each of a list. -/
def addAll (set hashes : List Str) : List Str :=
  hashes.foldl (fun set h => if h ∈ set then set else set ++ [h]) set

/-- A not-before bound covers the members of a segment. -/
def coverLower (hashes : List Str) (cov : EpochCoverage) (b : SegmentBound) : EpochCoverage :=
  { cov with lowerCovered := addAll cov.lowerCovered hashes, lowerMin := foldLower cov.lowerMin b }

/-- The same for the anchor-only side. -/
def coverAnchorLower (hashes : List Str) (cov : EpochCoverage) (b : SegmentBound) : EpochCoverage :=
  { cov with
    anchorLowerCovered := addAll cov.anchorLowerCovered hashes
    anchorLowerMin := foldLower cov.anchorLowerMin b }

def coverUpper (hashes : List Str) (cov : EpochCoverage) (b : SegmentBound) : EpochCoverage :=
  { cov with upperCovered := addAll cov.upperCovered hashes, upperMax := foldUpper cov.upperMax b }

/-- The anchor-only side of a segment: of each member where its partition is mixed, else of the
segment. -/
def coverAnchors (anchorLower : OrderedMap Str (List SegmentBound)) (segment : TemporalSegment)
    (cov : EpochCoverage) : EpochCoverage :=
  if segment.memberProofHashes.any fun h => anchorLower.has h then
    segment.memberProofHashes.foldl (fun cov h =>
      ((anchorLower.get h).getD []).foldl (coverAnchorLower [h]) cov) cov
  else
    (segment.lowerBounds.filter fun b => b.floor.isNone).foldl
      (coverAnchorLower segment.memberProofHashes) cov

def coverSegment (anchorLower : OrderedMap Str (List SegmentBound)) (segment : TemporalSegment)
    (cov : EpochCoverage) : EpochCoverage :=
  let cov := segment.lowerBounds.foldl (coverLower segment.memberProofHashes) cov
  let cov := coverAnchors anchorLower segment cov
  segment.upperBounds.foldl (coverUpper segment.memberProofHashes) cov

/-- Count the proofs of a partition to its epoch. -/
def addEpoch (counts : OrderedMap Str ℕ) (p : ChainPartition) : OrderedMap Str ℕ :=
  match p.key.epochId with
  | none => counts
  | some id => counts.set id ((counts.get id).getD 0 + p.memberProofHashes.length)

/-- The epochs with their numbers of proofs, in order of their ids. -/
def epochsOf (partitions : List ChainPartition) : List (Str × ℕ) :=
  (partitions.foldl addEpoch []).insertionSort fun a b => compareText a.1 b.1 ≤ 0

/-- The coverage of every epoch, before any segment. -/
def emptyCoverage (epochs : List (Str × ℕ)) : OrderedMap Str EpochCoverage :=
  OrderedMap.ofList (epochs.map fun e => (e.1, ⟨e.2, [], none, [], none, [], none⟩))

def coverEpochs (anchorLower : OrderedMap Str (List SegmentBound))
    (coverage : OrderedMap Str EpochCoverage) (segment : TemporalSegment) :
    OrderedMap Str EpochCoverage :=
  match segment.partition.epochId with
  | none => coverage
  | some id =>
      match coverage.get id with
      | none => coverage
      | some cov => coverage.set id (coverSegment anchorLower segment cov)

/-- A one-sided bound of an epoch. -/
structure EpochAnchorBound where
  kind : BoundKind
  bound : CoverageRepresentative
  coveredProofCount : ℕ
  totalProofCount : ℕ

def epochAnchorBounds (cov : EpochCoverage) : List EpochAnchorBound :=
  (cov.lowerMin.map fun c => ⟨.notBefore, c, cov.lowerCovered.length, cov.totalProofCount⟩).toList
    ++ (cov.upperMax.map fun c =>
      ⟨.notAfter, c, cov.upperCovered.length, cov.totalProofCount⟩).toList

structure AnchorOrderedPair where
  beforeEpochId : Str
  afterEpochId : Str
  upperAnchorProofHash : Str
  upperBoundTimestamp : ℕ
  lowerAnchorProofHash : Str
  lowerBoundTimestamp : ℕ
  upperEvidence : BoundEvidence
  lowerEvidence : BoundEvidence
  weaker : Bool
  beforeCoveredProofCount : ℕ
  beforeTotalProofCount : ℕ
  afterCoveredProofCount : ℕ
  afterTotalProofCount : ℕ
  deriving DecidableEq

/-- The pair of two epochs, where the first's not-after lies before the second's not-before. -/
def orderedPair (before after : Str × EpochCoverage) : Option AnchorOrderedPair :=
  match before.2.upperMax, after.2.anchorLowerMin with
  | some upper, some lower =>
      if after.1 = before.1 ∨ lower.timestamp ≤ upper.timestamp then none
      else some ⟨before.1, after.1, upper.anchorProofHash, upper.timestamp, lower.anchorProofHash,
        lower.timestamp, upper.evidence, lower.evidence, upper.weaker || lower.weaker,
        before.2.upperCovered.length, before.2.totalProofCount, after.2.anchorLowerCovered.length,
        after.2.totalProofCount⟩
  | _, _ => none

/-- By the first epoch, then by the second. -/
def comparePairs (a b : AnchorOrderedPair) : ℤ :=
  if a.beforeEpochId ≠ b.beforeEpochId then compareText a.beforeEpochId b.beforeEpochId
  else compareText a.afterEpochId b.afterEpochId

/-- The coverage of every epoch after all segments. -/
def coverageOf (epochs : List (Str × ℕ)) (segments : List TemporalSegment)
    (anchorLower : OrderedMap Str (List SegmentBound)) : OrderedMap Str EpochCoverage :=
  segments.foldl (coverEpochs anchorLower) (emptyCoverage epochs)

/-- The pairs of epochs and the bounds of every epoch. -/
def aggregateEpochs (epochs : List (Str × ℕ)) (segments : List TemporalSegment)
    (anchorLower : OrderedMap Str (List SegmentBound)) :
    List AnchorOrderedPair × List (Str × List EpochAnchorBound) :=
  let coverage := epochs.filterMap fun e =>
    ((coverageOf epochs segments anchorLower).get e.1).map fun cov => (e.1, cov)
  let pairs := coverage.flatMap fun before => coverage.filterMap fun after => orderedPair before after
  (pairs.insertionSort fun a b => comparePairs a b ≤ 0,
    coverage.map fun e => (e.1, epochAnchorBounds e.2))

/-! ### The analysis -/

structure TemporalAnalysis where
  segments : List TemporalSegment
  anchorOrderedPairs : List AnchorOrderedPair
  epochBounds : List (Str × List EpochAnchorBound)

/-- The members of a partition. -/
def membersOf (proofs : List ObservedProof) (partition : ChainPartition) : List ObservedProof :=
  partition.memberProofHashes.filterMap fun h => proofs.find? fun p => p.proofHash = h

/-- The segments of all partitions. -/
def segmentsOf (proofs : List ObservedProof) (partitions : List ChainPartition)
    (anchorEvidence : Evidence) (floors : Floors) : List TemporalSegment :=
  partitions.flatMap fun p =>
    buildPartitionSegments p.key (membersOf proofs p) anchorEvidence floors

/-- The anchor-only bounds of all partitions. -/
def anchorLowersOf (proofs : List ObservedProof) (partitions : List ChainPartition)
    (anchorEvidence : Evidence) (floors : Floors) : OrderedMap Str (List SegmentBound) :=
  OrderedMap.ofList (partitions.flatMap fun p =>
    anchorLowerOf anchorEvidence floors (membersOf proofs p))

def deriveTemporalBounds (proofs : List ObservedProof) (partitions : List ChainPartition)
    (outcomes : List AnchorWitnessOutcome) (floors : Floors) : TemporalAnalysis :=
  let anchorEvidence := anchorEvidenceOf outcomes
  let segments := segmentsOf proofs partitions anchorEvidence floors
  let epochs := aggregateEpochs (epochsOf partitions) segments
    (anchorLowersOf proofs partitions anchorEvidence floors)
  ⟨segments, epochs.1, epochs.2⟩

end Temporal

end Audit

end BitGraph
