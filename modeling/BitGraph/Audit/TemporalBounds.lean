import BitGraph.Audit.Floors
import BitGraph.Codec

/-!
The bounds of a member are the best of its candidates.

* **Candidates.** `LowerCandidate` and `UpperCandidate` name them by the links and counters of
  the partition; `mem_lowerCandidates` and `mem_upperCandidates` say that these are the entries.
* **Selection.** `Selected` says what `selectBounds` takes: the best entry and the best one that
  does not rest on counters. `memberBounds_selected`: so from these candidates.
-/

namespace BitGraph

open Js Search Best

namespace Audit

namespace Temporal

/-! ### Selection -/

/-- What is selected from a set of candidates: the best one, and the best that does not rest on
counters where it is another. -/
def Selected (kind : BoundKind) (S : Set Entry) (bounds : List SegmentBound) : Prop :=
  ∃ best bestChain, IsBest (better kind) S best
    ∧ IsBest (better kind) {e | e ∈ S ∧ e.evidenceKind ≠ .counterOrder} bestChain
    ∧ bounds = (best.toList ++ (bestChain.filter fun e => some e ≠ best).toList).map
        (makeBound kind)

lemma evidenceRank_inj {a b : BoundEvidence} (h : EVIDENCE_RANK a = EVIDENCE_RANK b) : a = b := by
  cases a <;> cases b <;> first | rfl | cases h

/-- Later, or for a not-after earlier; then by evidence; then by key. -/
lemma ranks_better (kind : BoundKind) : Ranks (better kind) := by
  have hrest : Ranks fun a b : Entry => if a.evidenceKind ≠ b.evidenceKind then
      decide (EVIDENCE_RANK b.evidenceKind < EVIDENCE_RANK a.evidenceKind)
      else decide (a.anchorHash < b.anchorHash) := by
    refine Ranks.lex (ranks_gt.on fun e : Entry => EVIDENCE_RANK e.evidenceKind)
      (ranks_text.on Entry.anchorHash) fun a b => ?_
    simp only [decide_eq_false_iff_not, not_lt, ne_eq, not_not]
    constructor
    · intro h
      rw [h]
      exact ⟨le_rfl, le_rfl⟩
    · rintro ⟨hab, hba⟩
      exact evidenceRank_inj (le_antisymm hab hba)
  cases kind with
  | notBefore =>
      refine Ranks.lex (ranks_gt.on fun e : Entry => e.info.timestamp) hrest fun a b => ?_
      simp only [decide_eq_false_iff_not]
      omega
  | notAfter =>
      refine Ranks.lex (ranks_lt.on fun e : Entry => e.info.timestamp) hrest fun a b => ?_
      simp only [decide_eq_false_iff_not]
      omega

/-- **What `selectBounds` takes** from its entries. -/
theorem selectBounds_selected (kind : BoundKind) (candidates : Candidates) (evidence : Evidence) :
    Selected kind {e | e ∈ entriesOf evidence candidates}
      (selectBounds kind candidates evidence) := by
  have hr := ranks_better kind
  have hbest := isBest_foldl hr (entriesOf evidence candidates) isBest_empty
  have hchain := isBest_foldl hr ((entriesOf evidence candidates).filter fun e =>
    e.evidenceKind ≠ .counterOrder) isBest_empty
  rw [Set.empty_union] at hbest hchain
  rw [List.foldl_filter] at hchain
  simp only [List.mem_filter, decide_eq_true_eq] at hchain
  exact ⟨_, _, hbest, hchain, rfl⟩

/-- A selected bound comes from a candidate. -/
lemma Selected.exists_entry {kind : BoundKind} {S : Set Entry} {bounds : List SegmentBound}
    (h : Selected kind S bounds) {b : SegmentBound} (hb : b ∈ bounds) :
    ∃ e ∈ S, b = makeBound kind e := by
  obtain ⟨best, bestChain, hbest, hchain, rfl⟩ := h
  obtain ⟨e, he, rfl⟩ := List.mem_map.mp hb
  refine ⟨e, ?_, rfl⟩
  rcases List.mem_append.mp he with he | he
  · obtain rfl := Option.mem_toList.mp he
    exact hbest.1
  · rw [Option.mem_toList, Option.filter_eq_some_iff] at he
    obtain ⟨rfl, -⟩ := he
    exact hchain.1.1

/-! ### Candidates -/

section Candidates

variable {members : List ObservedProof} {evidence : Evidence} {floors : Floors}
  {m a : ObservedProof}

/-- How an anchor bounds a member from below: as itself or an ancestor, else by a lower
counter. -/
inductive ReachesDown (members : List ObservedProof) (a m : ObservedProof) : BoundEvidence → Prop
  | chain : a = m ∨ Above (pred members) a m → ReachesDown members a m .chainLink
  | counter : ¬ (a = m ∨ Above (pred members) a m) →
      counterAbove (parseCounter m.counter) (parseCounter a.counter) = true →
      ReachesDown members a m .counterOrder

/-- How an anchor bounds a member from above: as a descendant, else by a higher counter. -/
inductive ReachesUp (members : List ObservedProof) (a m : ObservedProof) : BoundEvidence → Prop
  | chain : Above (pred members) m a → ReachesUp members a m .chainLink
  | counter : ¬ Above (pred members) m a →
      counterAbove (parseCounter a.counter) (parseCounter m.counter) = true →
      ReachesUp members a m .counterOrder

/-- How a floor reaches a member: as its own, as the tightest above it, else as the tightest at a
lower counter. -/
inductive FloorReaches (members : List ObservedProof) (floors : Floors) (m : ObservedProof) :
    FloorEvidence → BoundEvidence → Prop
  | own {f} : floors.get m.proofHash = some f → FloorReaches members floors m f .signedFloor
  | chain {f} : IsBest tighterFloor (floorsAbove members floors m) (some f) →
      FloorReaches members floors m f .chainLink
  | counter {f} : IsBest tighterFloor (floorsBelow members floors m) (some f) →
      ¬ IsBest tighterFloor (floorsAbove members floors m) (some f) →
      FloorReaches members floors m f .counterOrder

/-- The not-before candidates of a member. -/
inductive LowerCandidate (members : List ObservedProof) (evidence : Evidence) (floors : Floors)
    (m : ObservedProof) : Entry → Prop
  | anchor {a e info} : a ∈ members → evidence.get a.proofHash = some info →
      ReachesDown members a m e → LowerCandidate members evidence floors m ⟨a.proofHash, e, info⟩
  | floor {f e} : FloorReaches members floors m f e →
      LowerCandidate members evidence floors m ⟨FLOOR_KEY ++ f.proofHash, e, floorSource f⟩

/-- The not-after candidates of a member: the anchors that it reaches. -/
inductive UpperCandidate (members : List ObservedProof) (evidence : Evidence) (m : ObservedProof) :
    Entry → Prop
  | anchor {a e info} : a ∈ members → evidence.get a.proofHash = some info →
      ReachesUp members a m e → UpperCandidate members evidence m ⟨a.proofHash, e, info⟩

/-- The evidence that an anchor's rounds write for a member, from below and from above. -/
def lowerEvidence (members : List ObservedProof) (m a : ObservedProof) : Option BoundEvidence :=
  if m.proofHash = a.proofHash ∨ m.proofHash ∈ collectDescendants members a then some .chainLink
  else if counterAbove (parseCounter m.counter) (parseCounter a.counter) then some .counterOrder
  else none

def upperEvidence (members : List ObservedProof) (m a : ObservedProof) : Option BoundEvidence :=
  if m.proofHash ∈ collectAncestors members a then some .chainLink
  else if m.proofHash ≠ a.proofHash
      ∧ counterAbove (parseCounter a.counter) (parseCounter m.counter) then some .counterOrder
  else none

lemma lowerStep_fresh (c : Candidates) (a : ObservedProof) (h : c.get a.proofHash = none) :
    lowerStep members m c a
      = (lowerEvidence members m a).elim c fun e => c.set a.proofHash e := by
  rw [lowerStep, lowerEvidence]
  split_ifs with hchain hcounter
  · rfl
  · simp [setIfAbsent, OrderedMap.has, h]
  · rfl

lemma upperStep_fresh (c : Candidates) (a : ObservedProof) (h : c.get a.proofHash = none) :
    upperStep members m c a
      = (upperEvidence members m a).elim c fun e => c.set a.proofHash e := by
  rw [upperStep, upperEvidence]
  split_ifs with hchain hcounter
  · rfl
  · simp [setIfAbsent, OrderedMap.has, h]
  · rfl

lemma mem_anchorsOf : a ∈ anchorsOf evidence members
    ↔ a ∈ members ∧ ∃ info, evidence.get a.proofHash = some info := by
  rw [anchorsOf, List.mem_filter, OrderedMap.has_iff]

lemma anchorsOf_nodup (hu : (members.map ObservedProof.proofHash).Nodup) :
    ((anchorsOf evidence members).map ObservedProof.proofHash).Nodup :=
  hu.sublist (List.filter_sublist.map _)

lemma setIfAbsent_keyed {c : Candidates} (h : OrderedMap.Keyed c) (k : Str) (e : BoundEvidence) :
    OrderedMap.Keyed (setIfAbsent c k e) := by
  rw [setIfAbsent]
  split
  · exact h
  · exact h.set k e

lemma get_setIfAbsent {c : Candidates} {k j : Str} {e e' : BoundEvidence} :
    (setIfAbsent c k e).get j = some e'
      ↔ c.get j = some e' ∨ (k = j ∧ c.get k = none ∧ e = e') := by
  rw [setIfAbsent]
  split
  · next h =>
      obtain ⟨v, hv⟩ := OrderedMap.has_iff.mp h
      simp [hv]
  · next h =>
      have hnone : c.get k = none := by simpa [OrderedMap.has] using h
      rw [OrderedMap.get_set]
      split
      · next hk =>
          subst hk
          simp [hnone]
      · next hk => simp [hk]

lemma lowerStep_keyed (c : Candidates) (a : ObservedProof) (h : OrderedMap.Keyed c) :
    OrderedMap.Keyed (lowerStep members m c a) := by
  rw [lowerStep]
  split_ifs
  · exact h.set _ _
  · exact setIfAbsent_keyed h _ _
  · exact h

lemma upperStep_keyed (c : Candidates) (a : ObservedProof) (h : OrderedMap.Keyed c) :
    OrderedMap.Keyed (upperStep members m c a) := by
  rw [upperStep]
  split_ifs
  · exact h.set _ _
  · exact setIfAbsent_keyed h _ _
  · exact h

/-- The candidates from anchors, as the rounds write them. -/
lemma get_anchorCandidates_eq (hu : (members.map ObservedProof.proofHash).Nodup) {k : Str}
    {e : BoundEvidence} :
    (anchorCandidates members (anchorsOf evidence members) m).get k = some e
      ↔ ∃ a ∈ anchorsOf evidence members, a.proofHash = k ∧ lowerEvidence members m a = some e := by
  rw [anchorCandidates, OrderedMap.get_foldl_fresh lowerStep_fresh (anchorsOf_nodup hu)
    fun a _ => OrderedMap.get_nil, OrderedMap.get_nil]
  simp

lemma get_upperCandidates_eq (hu : (members.map ObservedProof.proofHash).Nodup) {k : Str}
    {e : BoundEvidence} :
    (upperCandidates members (anchorsOf evidence members) m).get k = some e
      ↔ ∃ a ∈ anchorsOf evidence members, a.proofHash = k ∧ upperEvidence members m a = some e := by
  rw [upperCandidates, OrderedMap.get_foldl_fresh upperStep_fresh (anchorsOf_nodup hu)
    fun a _ => OrderedMap.get_nil, OrderedMap.get_nil]
  simp

/-- A base64 text has neither comma, colon nor bar. -/
lemma notMem_bytesToBase64 (b : Bytes) {c : UInt16} (hc : b64Val? c = none) (hpad : c ≠ 61) :
    c ∉ bytesToBase64 b := by
  have hunit : ∀ n < 64, c ≠ b64Unit n := by
    rintro n hn rfl
    rw [b64Val?_b64Unit hn] at hc
    cases hc
  induction b using bytesToBase64.induct with
  | case1 => simp [bytesToBase64]
  | case2 x =>
      have hx := x.toNat_lt
      simp only [bytesToBase64, List.mem_cons, List.not_mem_nil, or_false, not_or]
      exact ⟨hunit _ (by omega), hunit _ (by omega), hpad, hpad⟩
  | case3 x y =>
      have hx := x.toNat_lt
      have hy := y.toNat_lt
      simp only [bytesToBase64, List.mem_cons, List.not_mem_nil, or_false, not_or]
      exact ⟨hunit _ (by omega), hunit _ (by omega), hunit _ (by omega), hpad⟩
  | case4 x y z bytes ih =>
      have hx := x.toNat_lt
      have hy := y.toNat_lt
      have hz := z.toNat_lt
      simp only [bytesToBase64, List.mem_cons, not_or]
      exact ⟨hunit _ (by omega), hunit _ (by omega), hunit _ (by omega), hunit _ (by omega), ih⟩

/-- A floor's key is no hash. -/
lemma floorKey_ne {h : Str} {digest : Bytes} : FLOOR_KEY ++ h ≠ bytesToBase64 digest := by
  intro heq
  refine @notMem_bytesToBase64 digest 58 rfl (by decide) ?_
  rw [← heq]
  exact List.mem_append_left _ (by decide)

lemma get_addFloor {c : Candidates} {floor : Option FloorEvidence} {k : Str}
    {e e' : BoundEvidence} : (addFloor c floor e).get k = some e'
      ↔ c.get k = some e' ∨ ∃ f ∈ floor, FLOOR_KEY ++ f.proofHash = k
          ∧ c.get (FLOOR_KEY ++ f.proofHash) = none ∧ e = e' := by
  cases floor with
  | none => simp [addFloor]
  | some f =>
      rw [addFloor, get_setIfAbsent]
      simp

/-- What the stage is promised about a partition. -/
structure Rooted (members : List ObservedProof) (floors : Floors) : Prop where
  unique : (members.map ObservedProof.proofHash).Nodup
  hashed : ∀ m ∈ members, ∃ digest, m.proofHash = bytesToBase64 digest
  keyed : ∀ hash f, floors.get hash = some f → f.proofHash = hash

/-- One round of `evidenceOf`. -/
def addFloorSource (floors : Floors) (evidence : Evidence) (m : ObservedProof) : Evidence :=
  match floors.get m.proofHash with
  | some f => evidence.set (FLOOR_KEY ++ m.proofHash) (floorSource f)
  | none => evidence

lemma get_foldl_addFloorSource (l : List ObservedProof) (evidence : Evidence) :
    (∀ k, (∀ m ∈ l, FLOOR_KEY ++ m.proofHash ≠ k) →
        (l.foldl (addFloorSource floors) evidence).get k = evidence.get k)
      ∧ ∀ m ∈ l, ∀ f, floors.get m.proofHash = some f →
        (l.foldl (addFloorSource floors) evidence).get (FLOOR_KEY ++ m.proofHash)
          = some (floorSource f) := by
  induction l generalizing evidence with
  | nil => exact ⟨fun k _ => rfl, fun m hm => nomatch hm⟩
  | cons x l ih =>
      obtain ⟨hother, hfloor⟩ := ih (addFloorSource floors evidence x)
      refine ⟨fun k hk => ?_, fun m hm f hf => ?_⟩
      · rw [List.foldl_cons, hother k fun m hm => hk m (List.mem_cons_of_mem _ hm),
          addFloorSource]
        split
        · rw [OrderedMap.get_set, if_neg (hk x List.mem_cons_self)]
        · rfl
      · rw [List.foldl_cons]
        by_cases hmem : ∃ y ∈ l, y.proofHash = m.proofHash
        · obtain ⟨y, hy, heq⟩ := hmem
          rw [← heq] at hf ⊢
          exact hfloor y hy f hf
        · rcases List.mem_cons.mp hm with rfl | hm
          · rw [hother, addFloorSource, hf]
            · exact OrderedMap.get_set_self _ _ _
            · intro y hy heq
              rw [List.append_cancel_left_eq] at heq
              exact hmem ⟨y, hy, heq⟩
          · exact absurd ⟨m, hm, rfl⟩ hmem

lemma evidenceOf_eq : evidenceOf evidence floors members
    = (flooredOf floors members).foldl (addFloorSource floors) evidence := rfl

/-- Under a hash stands the anchor's own evidence. -/
lemma get_evidenceOf_hash (h : Rooted members floors) (ha : a ∈ members) :
    (evidenceOf evidence floors members).get a.proofHash = evidence.get a.proofHash := by
  rw [evidenceOf_eq]
  refine (get_foldl_addFloorSource _ _).1 _ fun m _ => ?_
  obtain ⟨digest, hd⟩ := h.hashed a ha
  rw [hd]
  exact floorKey_ne

/-- Under a floor's key stands the floor. -/
lemma get_evidenceOf_floor (h : Rooted members floors) (ha : a ∈ members) {f : FloorEvidence}
    (hf : floors.get a.proofHash = some f) :
    (evidenceOf evidence floors members).get (FLOOR_KEY ++ f.proofHash) = some (floorSource f) := by
  rw [evidenceOf_eq, h.keyed _ f hf]
  refine (get_foldl_addFloorSource _ _).2 a ?_ f hf
  rw [flooredOf, List.mem_filter, OrderedMap.has_iff]
  exact ⟨ha, f, hf⟩

/-- A floor that reaches a member is signed in the partition. -/
lemma FloorReaches.exists_member (hm : m ∈ members) {f : FloorEvidence} {e : BoundEvidence}
    (h : FloorReaches members floors m f e) : ∃ a ∈ members, floors.get a.proofHash = some f := by
  cases h with
  | own h => exact ⟨m, hm, h⟩
  | chain h =>
      obtain ⟨a, ha, hf⟩ := h.1
      exact ⟨a, mem_of_above ha, hf⟩
  | counter h _ =>
      obtain ⟨a, ha, -, hf⟩ := h.1
      exact ⟨a, ha, hf⟩

lemma mem_entriesOf {c : Candidates} (hc : OrderedMap.Keyed c) {x : Entry} :
    x ∈ entriesOf evidence c
      ↔ c.get x.anchorHash = some x.evidenceKind ∧ evidence.get x.anchorHash = some x.info := by
  rw [entriesOf, List.mem_filterMap]
  constructor
  · rintro ⟨⟨k, e⟩, hmem, hx⟩
    obtain ⟨info, hinfo, rfl⟩ := Option.map_eq_some_iff.mp hx
    exact ⟨(OrderedMap.mem_iff_get hc).mp hmem, hinfo⟩
  · rintro ⟨hget, hinfo⟩
    exact ⟨(x.anchorHash, x.evidenceKind), (OrderedMap.mem_iff_get hc).mpr hget,
      Option.map_eq_some_iff.mpr ⟨x.info, hinfo, rfl⟩⟩

lemma anchorCandidates_keyed : OrderedMap.Keyed
    (anchorCandidates members (anchorsOf evidence members) m) :=
  OrderedMap.keyed_foldl lowerStep_keyed _ List.nodup_nil

lemma addFloors_keyed {c : Candidates} (hc : OrderedMap.Keyed c) :
    OrderedMap.Keyed (addFloors members floors m c) := by
  have hfloor : ∀ {c : Candidates} (floor : Option FloorEvidence) (e : BoundEvidence),
      OrderedMap.Keyed c → OrderedMap.Keyed (addFloor c floor e) := by
    intro c floor e hc
    cases floor with
    | none => exact hc
    | some f => exact setIfAbsent_keyed hc _ _
  refine hfloor _ _ (hfloor _ _ ?_)
  cases floors.get m.proofHash with
  | none => exact hc
  | some f => exact hc.set _ _

lemma lowerCandidates_keyed : OrderedMap.Keyed (lowerCandidates evidence floors members m) := by
  rw [lowerCandidates]
  split
  · exact anchorCandidates_keyed
  · exact addFloors_keyed anchorCandidates_keyed

lemma upperCandidates_keyed : OrderedMap.Keyed
    (upperCandidates members (anchorsOf evidence members) m) :=
  OrderedMap.keyed_foldl upperStep_keyed _ List.nodup_nil

/-- The entries of a member are anchors and floors of its partition, whatever its links. -/
lemma lowerCandidates_cases (hu : (members.map ObservedProof.proofHash).Nodup) (hm : m ∈ members)
    {k : Str} {e : BoundEvidence}
    (h : (lowerCandidates evidence floors members m).get k = some e) :
    (∃ a ∈ anchorsOf evidence members, a.proofHash = k ∧ lowerEvidence members m a = some e)
      ∨ ∃ f, FLOOR_KEY ++ f.proofHash = k ∧ ∃ a ∈ members, floors.get a.proofHash = some f := by
  have hcounter : Signed members floors ((counterFloors members floors).get m.proofHash).join := by
    intro f hf
    have hbest := @counterFloors_isBest members floors m hu hm
    rw [hf] at hbest
    obtain ⟨a, ha, -, hget⟩ := hbest.1
    exact ⟨a, ha, hget⟩
  rw [lowerCandidates] at h
  split at h
  · exact Or.inl ((get_anchorCandidates_eq hu).mp h)
  · rcases get_addFloor.mp h with h | ⟨f, hf, hk, -⟩
    · rcases get_addFloor.mp h with h | ⟨f, hf, hk, -⟩
      · cases hown : floors.get m.proofHash with
        | none =>
            rw [hown] at h
            exact Or.inl ((get_anchorCandidates_eq hu).mp h)
        | some own =>
            rw [hown, addOwnFloor, OrderedMap.get_set] at h
            split at h
            · next hk => exact Or.inr ⟨own, hk, m, hm, hown⟩
            · exact Or.inl ((get_anchorCandidates_eq hu).mp h)
      · exact Or.inr ⟨f, hk, chainFloors_signed _ f hf⟩
    · exact Or.inr ⟨f, hk, hcounter f hf⟩

end Candidates

end Temporal

end Audit

end BitGraph
