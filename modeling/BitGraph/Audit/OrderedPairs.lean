import BitGraph.Audit.Segments

/-!
What an ordered pair of epochs says, and when two pairs cannot contradict each other.

* **Coverage.** `coverageOf_upperMax` and `coverageOf_anchorLowerMin`: the two representatives of
  an epoch are loops over the bounds of its segments.
* **Anchors.** `anchorLower` are the not-before bounds of a member from anchors alone, also where
  floors displace them; `mem_anchorBounds`: the coverage counts all of them.
* **Pairs.** `anchorOrderedPairs_consistent`: every not-after bound of the first epoch is earlier
  than every anchor not-before bound of the second. Two epochs in which the anchors' times follow
  their order are never ordered both ways; one with an older block after a newer one can be.
-/

namespace BitGraph

open Js Search Best

namespace Audit

namespace Temporal

/-! ### Coverage -/

/-- The greatest not-after of a loop. -/
lemma foldl_foldUpper (l : List SegmentBound) (init : Option CoverageRepresentative) :
    (∀ b ∈ l, ∃ r ∈ l.foldl foldUpper init, b.timestamp ≤ r.timestamp)
      ∧ (∀ c ∈ init, ∃ r ∈ l.foldl foldUpper init, c.timestamp ≤ r.timestamp)
      ∧ ∀ r ∈ l.foldl foldUpper init, r ∈ init ∨ ∃ b ∈ l, r = representative b := by
  induction l generalizing init with
  | nil => exact ⟨fun b hb => (nomatch hb), fun c hc => ⟨c, hc, le_rfl⟩, fun r hr => Or.inl hr⟩
  | cons b l ih =>
      obtain ⟨hall, hinit, horigin⟩ := ih (foldUpper init b)
      have hb : ∃ r ∈ foldUpper init b, b.timestamp ≤ r.timestamp := by
        cases init with
        | none => exact ⟨_, rfl, le_rfl⟩
        | some c =>
            rw [foldUpper]
            split
            · exact ⟨_, rfl, le_rfl⟩
            · next h => exact ⟨c, rfl, not_lt.mp fun hlt => h (Or.inl hlt)⟩
      have hc : ∀ c ∈ init, ∃ r ∈ foldUpper init b, c.timestamp ≤ r.timestamp := by
        rintro c hc
        obtain rfl : init = some c := hc
        rw [foldUpper]
        split
        · next h => exact ⟨_, rfl, h.elim le_of_lt fun h => h.1.ge⟩
        · exact ⟨c, rfl, le_rfl⟩
      have horg : ∀ r ∈ foldUpper init b, r ∈ init ∨ r = representative b := by
        intro r hr
        cases init with
        | none => exact Or.inr (Option.some.inj hr).symm
        | some c =>
            rw [foldUpper] at hr
            split at hr
            · exact Or.inr (Option.some.inj hr).symm
            · exact Or.inl hr
      refine ⟨fun x hx => ?_, fun c hc' => ?_, fun r hr => ?_⟩
      · rcases List.mem_cons.mp hx with rfl | hx
        · obtain ⟨r, hr, hle⟩ := hb
          obtain ⟨r', hr', hle'⟩ := hinit r hr
          exact ⟨r', hr', hle.trans hle'⟩
        · exact hall x hx
      · obtain ⟨r, hr, hle⟩ := hc c hc'
        obtain ⟨r', hr', hle'⟩ := hinit r hr
        exact ⟨r', hr', hle.trans hle'⟩
      · rcases horigin r hr with h | ⟨x, hx, rfl⟩
        · rcases horg r h with h | rfl
          · exact Or.inl h
          · exact Or.inr ⟨b, List.mem_cons_self, rfl⟩
        · exact Or.inr ⟨x, List.mem_cons_of_mem _ hx, rfl⟩

/-- The smallest not-before of a loop. -/
lemma foldl_foldLower (l : List SegmentBound) (init : Option CoverageRepresentative) :
    (∀ b ∈ l, ∃ r ∈ l.foldl foldLower init, r.timestamp ≤ b.timestamp)
      ∧ ∀ c ∈ init, ∃ r ∈ l.foldl foldLower init, r.timestamp ≤ c.timestamp := by
  induction l generalizing init with
  | nil => exact ⟨fun b hb => (nomatch hb), fun c hc => ⟨c, hc, le_rfl⟩⟩
  | cons b l ih =>
      obtain ⟨hall, hinit⟩ := ih (foldLower init b)
      have hb : ∃ r ∈ foldLower init b, r.timestamp ≤ b.timestamp := by
        cases init with
        | none => exact ⟨_, rfl, le_rfl⟩
        | some c =>
            rw [foldLower]
            split
            · exact ⟨_, rfl, le_rfl⟩
            · next h => exact ⟨c, rfl, not_lt.mp fun hlt => h (Or.inl hlt)⟩
      have hc : ∀ c ∈ init, ∃ r ∈ foldLower init b, r.timestamp ≤ c.timestamp := by
        rintro c hc
        obtain rfl : init = some c := hc
        rw [foldLower]
        split
        · next h => exact ⟨_, rfl, h.elim le_of_lt fun h => h.1.le⟩
        · exact ⟨c, rfl, le_rfl⟩
      refine ⟨fun x hx => ?_, fun c hc' => ?_⟩
      · rcases List.mem_cons.mp hx with rfl | hx
        · obtain ⟨r, hr, hle⟩ := hb
          obtain ⟨r', hr', hle'⟩ := hinit r hr
          exact ⟨r', hr', hle'.trans hle⟩
        · exact hall x hx
      · obtain ⟨r, hr, hle⟩ := hc c hc'
        obtain ⟨r', hr', hle'⟩ := hinit r hr
        exact ⟨r', hr', hle'.trans hle⟩

section Coverage

variable (lower : OrderedMap Str (List SegmentBound))

/-- The anchor bounds that a segment counts for. -/
def anchorBounds (s : TemporalSegment) : List SegmentBound :=
  if s.memberProofHashes.any fun h => lower.has h then
    s.memberProofHashes.flatMap fun h => (lower.get h).getD []
  else s.lowerBounds.filter fun b => b.floor.isNone

variable {lower}

lemma foldl_coverLower (hashes : List Str) (l : List SegmentBound) (cov : EpochCoverage) :
    (l.foldl (coverLower hashes) cov).upperMax = cov.upperMax
      ∧ (l.foldl (coverLower hashes) cov).anchorLowerMin = cov.anchorLowerMin := by
  induction l generalizing cov with
  | nil => exact ⟨rfl, rfl⟩
  | cons b l ih => exact ih (coverLower hashes cov b)

lemma foldl_coverUpper (hashes : List Str) (l : List SegmentBound) (cov : EpochCoverage) :
    (l.foldl (coverUpper hashes) cov).upperMax = l.foldl foldUpper cov.upperMax
      ∧ (l.foldl (coverUpper hashes) cov).anchorLowerMin = cov.anchorLowerMin := by
  induction l generalizing cov with
  | nil => exact ⟨rfl, rfl⟩
  | cons b l ih => exact ih (coverUpper hashes cov b)

lemma foldl_coverAnchorLower (hashes : List Str) (l : List SegmentBound) (cov : EpochCoverage) :
    (l.foldl (coverAnchorLower hashes) cov).upperMax = cov.upperMax
      ∧ (l.foldl (coverAnchorLower hashes) cov).anchorLowerMin
        = l.foldl foldLower cov.anchorLowerMin := by
  induction l generalizing cov with
  | nil => exact ⟨rfl, rfl⟩
  | cons b l ih => exact ih (coverAnchorLower hashes cov b)

lemma coverAnchors_eq (s : TemporalSegment) (cov : EpochCoverage) :
    (coverAnchors lower s cov).upperMax = cov.upperMax
      ∧ (coverAnchors lower s cov).anchorLowerMin
        = (anchorBounds lower s).foldl foldLower cov.anchorLowerMin := by
  have hmembers : ∀ (l : List Str) (cov : EpochCoverage),
      (l.foldl (fun cov h => ((lower.get h).getD []).foldl (coverAnchorLower [h]) cov) cov).upperMax
          = cov.upperMax
        ∧ (l.foldl (fun cov h =>
            ((lower.get h).getD []).foldl (coverAnchorLower [h]) cov) cov).anchorLowerMin
          = (l.flatMap fun h => (lower.get h).getD []).foldl foldLower cov.anchorLowerMin := by
    intro l
    induction l with
    | nil => exact fun cov => ⟨rfl, rfl⟩
    | cons h l ih =>
        intro cov
        obtain ⟨hupper, hmin⟩ := foldl_coverAnchorLower [h] ((lower.get h).getD []) cov
        obtain ⟨hupper', hmin'⟩ :=
          ih (((lower.get h).getD []).foldl (coverAnchorLower [h]) cov)
        rw [List.foldl_cons, List.flatMap_cons, List.foldl_append]
        exact ⟨hupper'.trans hupper, by rw [hmin', hmin]⟩
  rw [coverAnchors, anchorBounds]
  split
  · exact hmembers _ cov
  · exact foldl_coverAnchorLower _ _ cov

lemma coverSegment_eq (s : TemporalSegment) (cov : EpochCoverage) :
    (coverSegment lower s cov).upperMax = s.upperBounds.foldl foldUpper cov.upperMax
      ∧ (coverSegment lower s cov).anchorLowerMin
        = (anchorBounds lower s).foldl foldLower cov.anchorLowerMin := by
  obtain ⟨hupper, hmin⟩ := foldl_coverLower s.memberProofHashes s.lowerBounds cov
  obtain ⟨hupper', hmin'⟩ := @coverAnchors_eq lower s
    (s.lowerBounds.foldl (coverLower s.memberProofHashes) cov)
  obtain ⟨hupper'', hmin''⟩ := foldl_coverUpper s.memberProofHashes s.upperBounds
    (coverAnchors lower s (s.lowerBounds.foldl (coverLower s.memberProofHashes) cov))
  rw [coverSegment]
  constructor
  · rw [hupper'', hupper', hupper]
  · rw [hmin'', hmin', hmin]

/-- The segments of an epoch. -/
def segmentsAt (id : Str) (segments : List TemporalSegment) : List TemporalSegment :=
  segments.filter fun s => s.partition.epochId = some id

lemma foldl_coverEpochs (segments : List TemporalSegment) {coverage : OrderedMap Str EpochCoverage}
    {id : Str} {cov : EpochCoverage} (h : coverage.get id = some cov) :
    ∃ cov', (segments.foldl (coverEpochs lower) coverage).get id = some cov'
      ∧ cov'.upperMax
        = ((segmentsAt id segments).flatMap TemporalSegment.upperBounds).foldl foldUpper cov.upperMax
      ∧ cov'.anchorLowerMin
        = ((segmentsAt id segments).flatMap (anchorBounds lower)).foldl foldLower
            cov.anchorLowerMin := by
  induction segments generalizing coverage cov with
  | nil => exact ⟨cov, h, rfl, rfl⟩
  | cons s segments ih =>
      rw [List.foldl_cons, segmentsAt, List.filter_cons]
      by_cases hs : s.partition.epochId = some id
      · have hstep : (coverEpochs lower coverage s).get id = some (coverSegment lower s cov) := by
          simp only [coverEpochs, hs, h, OrderedMap.get_set_self]
        obtain ⟨cov', hget, hupper, hmin⟩ := ih hstep
        refine ⟨cov', hget, ?_, ?_⟩
        · rw [if_pos (by simpa using hs), List.flatMap_cons, List.foldl_append, hupper,
            (coverSegment_eq s cov).1]
          rfl
        · rw [if_pos (by simpa using hs), List.flatMap_cons, List.foldl_append, hmin,
            (coverSegment_eq s cov).2]
          rfl
      · have hstep : (coverEpochs lower coverage s).get id = some cov := by
          rw [coverEpochs]
          cases hid : s.partition.epochId with
          | none => exact h
          | some j =>
              dsimp only
              cases hj : OrderedMap.get coverage j with
              | none => exact h
              | some c =>
                  dsimp only
                  rw [OrderedMap.get_set, if_neg]
                  · exact h
                  · rintro rfl
                    exact hs hid
        rw [if_neg (by simpa using hs)]
        exact ih hstep

end Coverage

/-! ### Pairs and coverage -/

lemma addEpoch_keyed (counts : OrderedMap Str ℕ) (p : ChainPartition)
    (h : OrderedMap.Keyed counts) : OrderedMap.Keyed (addEpoch counts p) := by
  rw [addEpoch]
  split
  · exact h
  · exact h.set _ _

lemma epochsOf_keyed (partitions : List ChainPartition) :
    OrderedMap.Keyed (epochsOf partitions) := by
  have hkeyed := OrderedMap.keyed_foldl addEpoch_keyed partitions
    OrderedMap.keyed_nil
  exact (((List.perm_insertionSort _ _).map Prod.fst).nodup_iff).mpr hkeyed

/-- The representatives of an epoch, from the bounds of its segments. -/
lemma coverageOf_eq {epochs : List (Str × ℕ)} (he : OrderedMap.Keyed epochs)
    {segments : List TemporalSegment} {lower : OrderedMap Str (List SegmentBound)} {e : Str × ℕ}
    (hmem : e ∈ epochs) {cov : EpochCoverage}
    (h : (coverageOf epochs segments lower).get e.1 = some cov) :
    cov.upperMax
        = ((segmentsAt e.1 segments).flatMap TemporalSegment.upperBounds).foldl foldUpper none
      ∧ cov.anchorLowerMin
        = ((segmentsAt e.1 segments).flatMap (anchorBounds lower)).foldl foldLower none := by
  have hkeyed : OrderedMap.Keyed
      (epochs.map fun e => (e.1, (⟨e.2, [], none, [], none, [], none⟩ : EpochCoverage))) := by
    rw [OrderedMap.Keyed, List.map_map]
    exact he
  have hempty : (emptyCoverage epochs).get e.1
      = some ⟨e.2, [], none, [], none, [], none⟩ :=
    (OrderedMap.get_ofList hkeyed).mpr (List.mem_map.mpr ⟨e, hmem, rfl⟩)
  obtain ⟨cov', hget, hupper, hmin⟩ := @foldl_coverEpochs lower segments _ _ _ hempty
  rw [coverageOf, hget] at h
  obtain rfl := Option.some.inj h
  exact ⟨hupper, hmin⟩

/-- What a reported pair says about the two representatives. -/
lemma mem_orderedPairs {epochs : List (Str × ℕ)} (he : OrderedMap.Keyed epochs)
    {segments : List TemporalSegment} {lower : OrderedMap Str (List SegmentBound)}
    {pair : AnchorOrderedPair} (h : pair ∈ (aggregateEpochs epochs segments lower).1) :
    ∃ u l, ((segmentsAt pair.beforeEpochId segments).flatMap
          TemporalSegment.upperBounds).foldl foldUpper none = some u
      ∧ ((segmentsAt pair.afterEpochId segments).flatMap (anchorBounds lower)).foldl foldLower none
        = some l
      ∧ u.timestamp < l.timestamp := by
  rw [aggregateEpochs, List.mem_insertionSort] at h
  obtain ⟨before, hbefore, h⟩ := List.mem_flatMap.mp h
  obtain ⟨after, hafter, hpair⟩ := List.mem_filterMap.mp h
  obtain ⟨e, hemem, hcov⟩ := List.mem_filterMap.mp hbefore
  obtain ⟨e', hemem', hcov'⟩ := List.mem_filterMap.mp hafter
  obtain ⟨covA, hgetA, rfl⟩ := Option.map_eq_some_iff.mp hcov
  obtain ⟨covB, hgetB, rfl⟩ := Option.map_eq_some_iff.mp hcov'
  rw [orderedPair] at hpair
  cases hu : covA.upperMax with
  | none =>
      rw [hu] at hpair
      cases hpair
  | some u =>
      cases hl : covB.anchorLowerMin with
      | none =>
          rw [hu, hl] at hpair
          cases hpair
      | some l =>
          rw [hu, hl] at hpair
          dsimp only at hpair
          split at hpair
          · cases hpair
          · next hnot =>
              obtain rfl := Option.some.inj hpair
              refine ⟨u, l, ?_, ?_, by omega⟩
              · rw [← (coverageOf_eq he hemem hgetA).1, hu]
              · rw [← (coverageOf_eq he hemem' hgetB).2, hl]

/-! ### Anchors -/

section Anchors

variable {members : List ObservedProof} {evidence : Evidence} {floors : Floors}
  {m : ObservedProof}

/-- The not-before bounds of a member from anchors alone. -/
def anchorLower (evidence : Evidence) (floors : Floors) (members : List ObservedProof)
    (m : ObservedProof) : List SegmentBound :=
  selectBounds .notBefore (anchorCandidates members (anchorsOf evidence members) m)
    (evidenceOf evidence floors members)

lemma selectBounds_nil (kind : BoundKind) : selectBounds kind [] evidence = [] := rfl

/-- What is kept apart of a mixed partition. -/
lemma get_anchorLowerOf (hu : (members.map ObservedProof.proofHash).Nodup) {h : Str}
    {v : List SegmentBound} : (anchorLowerOf evidence floors members).get h = some v
      ↔ mixed evidence floors members = true ∧ ∃ m ∈ members, m.proofHash = h
        ∧ anchorCandidates members (anchorsOf evidence members) m ≠ []
        ∧ anchorLower evidence floors members m = v := by
  have hfresh : ∀ (lower : OrderedMap Str (List SegmentBound)) (m : ObservedProof),
      lower.get m.proofHash = none →
      keepAnchorLower evidence floors members lower m
        = (if (anchorCandidates members (anchorsOf evidence members) m).isEmpty then none
            else some (anchorLower evidence floors members m)).elim lower
          fun v => lower.set m.proofHash v := by
    intro lower m _
    rw [keepAnchorLower]
    split <;> rfl
  rw [anchorLowerOf]
  split
  · next hmixed =>
      rw [OrderedMap.get_foldl_fresh hfresh hu fun m _ => OrderedMap.get_nil, OrderedMap.get_nil]
      simp [hmixed]
  · next hmixed => simp [hmixed]

lemma keepAnchorLower_keyed (lower : OrderedMap Str (List SegmentBound)) (m : ObservedProof)
    (h : OrderedMap.Keyed lower) :
    OrderedMap.Keyed (keepAnchorLower evidence floors members lower m) := by
  rw [keepAnchorLower]
  split
  · exact h
  · exact h.set _ _

lemma anchorLowerOf_keyed : OrderedMap.Keyed (anchorLowerOf evidence floors members) := by
  rw [anchorLowerOf]
  split
  · exact OrderedMap.keyed_foldl keepAnchorLower_keyed _ OrderedMap.keyed_nil
  · exact OrderedMap.keyed_nil

lemma fst_anchorLowerOf (hu : (members.map ObservedProof.proofHash).Nodup) {h : Str}
    (hh : h ∈ (anchorLowerOf evidence floors members).map Prod.fst) :
    h ∈ members.map ObservedProof.proofHash := by
  obtain ⟨v, hv⟩ := OrderedMap.mem_fst_iff.mp hh
  obtain ⟨-, m, hm, rfl, -⟩ := (get_anchorLowerOf hu).mp hv
  exact List.mem_map_of_mem hm

variable {input : TemporalInput} {p : ChainPartition}

/-- The anchor-only bounds of an audit. -/
def TemporalInput.anchorLowers (input : TemporalInput) : OrderedMap Str (List SegmentBound) :=
  anchorLowersOf input.proofs input.partitions input.evidence input.floors

/-- They are those of the members of mixed partitions. -/
lemma TemporalInput.get_anchorLowers {h : Str} {v : List SegmentBound} :
    input.anchorLowers.get h = some v ↔ ∃ p ∈ input.partitions,
      mixed input.evidence input.floors (input.members p) = true
      ∧ ∃ m ∈ input.members p, m.proofHash = h
        ∧ anchorCandidates (input.members p) (anchorsOf input.evidence (input.members p)) m ≠ []
        ∧ anchorLower input.evidence input.floors (input.members p) m = v := by
  have hkeyed : OrderedMap.Keyed (input.partitions.flatMap fun p =>
      anchorLowerOf input.evidence input.floors (input.members p)) := by
    rw [OrderedMap.Keyed, List.map_flatMap, List.nodup_flatMap]
    refine ⟨fun p _ => anchorLowerOf_keyed, ?_⟩
    refine (List.nodup_flatMap.mp input.partitions_nodup.1).2.imp_of_mem ?_
    intro p q hp hq hdisj h hh hh'
    have hmem := fst_anchorLowerOf (members_nodup hp) hh
    have hmem' := fst_anchorLowerOf (members_nodup hq) hh'
    rw [map_members hp] at hmem
    rw [map_members hq] at hmem'
    exact hdisj hmem hmem'
  refine (OrderedMap.get_ofList hkeyed).trans ?_
  rw [List.mem_flatMap]
  constructor
  · rintro ⟨p, hp, hmem⟩
    rw [OrderedMap.mem_iff_get anchorLowerOf_keyed] at hmem
    exact ⟨p, hp, (get_anchorLowerOf (members_nodup hp)).mp hmem⟩
  · rintro ⟨p, hp, hmem⟩
    refine ⟨p, hp, (OrderedMap.mem_iff_get anchorLowerOf_keyed).mpr ?_⟩
    exact (get_anchorLowerOf (members_nodup hp)).mpr hmem

/-- A hash stands in one partition only. -/
lemma TemporalInput.eq_of_mem (input : TemporalInput) {p q : ChainPartition}
    (hp : p ∈ input.partitions) (hq : q ∈ input.partitions) {a b : ObservedProof}
    (ha : a ∈ input.members p) (hb : b ∈ input.members q) (h : a.proofHash = b.proofHash) :
    p = q := by
  by_contra hne
  have : Std.Symm (Function.onFun List.Disjoint ChainPartition.memberProofHashes) :=
    ⟨fun _ _ hd => List.Disjoint.symm hd⟩
  have hdisj := (List.nodup_flatMap.mp input.partitions_nodup.1).2.forall hp hq hne
  refine @hdisj a.proofHash ?_ ?_
  · rw [← map_members hp]
    exact List.mem_map_of_mem ha
  · rw [← map_members hq, h]
    exact List.mem_map_of_mem hb

lemma eq_of_hash (hu : (members.map ObservedProof.proofHash).Nodup) {a b : ObservedProof}
    (ha : a ∈ members) (hb : b ∈ members) (h : a.proofHash = b.proofHash) : a = b :=
  List.inj_on_of_nodup_map hu ha hb h

/-- A segment of an audit with one of its members. -/
structure InSegment (input : TemporalInput) (p : ChainPartition) (m : ObservedProof)
    (s : TemporalSegment) : Prop where
  partition : p ∈ input.partitions
  member : m ∈ input.members p
  segment : s ∈ input.analysis.segments
  key : s.partition = p.key
  hash : m.proofHash ∈ s.memberProofHashes
  lower : s.lowerBounds = (memberBounds input.evidence input.floors (input.members p) m).lower
  upper : s.upperBounds = (memberBounds input.evidence input.floors (input.members p) m).upper

lemma TemporalInput.inSegment {s : TemporalSegment} (hp : p ∈ input.partitions)
    (hs : s ∈ buildPartitionSegments p.key (input.members p) input.evidence input.floors)
    {h : Str} (hh : h ∈ s.memberProofHashes) : ∃ m, m.proofHash = h ∧ InSegment input p m s := by
  obtain ⟨hkey, hmem⟩ := segment_bounds (rooted hp) input.evidence_floor hs
  obtain ⟨m, hm, hmh, hl, hu⟩ := hmem h hh
  exact ⟨m, hmh, hp, hm, mem_segments.mpr ⟨p, hp, hs⟩, hkey, hmh ▸ hh, hl, hu⟩

/-- Every member stands in a segment of its epoch. -/
lemma TemporalInput.exists_inSegment (hp : p ∈ input.partitions) (hm : m ∈ input.members p) :
    ∃ s, InSegment input p m s := by
  obtain ⟨s, hs, hmem⟩ := exists_segment hm
  obtain ⟨m', heq, hin⟩ := inSegment hp hs hmem
  obtain rfl := eq_of_hash (members_nodup hp) hin.member hm heq
  exact ⟨s, hin⟩

/-- Every segment has a member. -/
lemma TemporalInput.exists_member {s : TemporalSegment} (hs : s ∈ input.analysis.segments) :
    ∃ p m, InSegment input p m s := by
  obtain ⟨p, hp, hs⟩ := mem_segments.mp hs
  obtain ⟨h, hh⟩ := List.exists_mem_of_ne_nil _ (memberProofHashes_ne_nil hs)
  obtain ⟨m, -, hin⟩ := inSegment hp hs hh
  exact ⟨p, m, hin⟩

/-- Without floors or without anchors the anchor-only bounds are among the bounds. -/
lemma mem_lower_of_not_mixed (hu : (members.map ObservedProof.proofHash).Nodup)
    (h : Rooted members floors)
    (hev : ∀ k info, evidence.get k = some info → info.floor = none)
    (hmixed : mixed evidence floors members = false) {b : SegmentBound}
    (hb : b ∈ anchorLower evidence floors members m) :
    b ∈ (memberBounds evidence floors members m).lower ∧ b.floor = none := by
  have hfloor : b.floor = none := by
    obtain ⟨x, hx, rfl⟩ := (selectBounds_selected _ _ _).exists_entry hb
    obtain ⟨hget, hinfo⟩ := (mem_entriesOf anchorCandidates_keyed).mp hx
    obtain ⟨a, ha, hk, -⟩ := (get_anchorCandidates_eq hu).mp hget
    rw [← hk, get_evidenceOf_hash h (mem_anchorsOf.mp ha).1] at hinfo
    rw [makeBound_anchor (hev _ _ hinfo)]
  refine ⟨?_, hfloor⟩
  rw [mixed, Bool.and_eq_false_iff, Bool.not_eq_false', Bool.not_eq_false'] at hmixed
  rcases hmixed with hnone | hnone
  · rw [memberBounds, lowerCandidates, if_pos hnone]
    exact hb
  · rw [List.isEmpty_iff] at hnone
    rw [anchorLower, hnone, anchorCandidates, List.foldl_nil, selectBounds_nil] at hb
    cases hb

/-- **The coverage counts every anchor bound** of a member, also where a floor displaces it. -/
theorem mem_anchorBounds {s : TemporalSegment} (hin : InSegment input p m s) {b : SegmentBound}
    (hb : b ∈ anchorLower input.evidence input.floors (input.members p) m) :
    b ∈ anchorBounds input.anchorLowers s := by
  have hp := hin.partition
  have hm := hin.member
  have hu := TemporalInput.members_nodup hp
  cases hmixed : mixed input.evidence input.floors (input.members p) with
  | true =>
      have hcand : anchorCandidates (input.members p)
          (anchorsOf input.evidence (input.members p)) m ≠ [] := by
        intro hnil
        rw [anchorLower, hnil, selectBounds_nil] at hb
        cases hb
      have hget : input.anchorLowers.get m.proofHash
          = some (anchorLower input.evidence input.floors (input.members p) m) :=
        TemporalInput.get_anchorLowers.mpr ⟨p, hp, hmixed, m, hm, rfl, hcand, rfl⟩
      rw [anchorBounds, if_pos]
      · refine List.mem_flatMap.mpr ⟨m.proofHash, hin.hash, ?_⟩
        rw [hget]
        exact hb
      · refine List.any_eq_true.mpr ⟨m.proofHash, hin.hash, ?_⟩
        rw [OrderedMap.has, hget]
        rfl
  | false =>
      rw [anchorBounds, if_neg]
      · obtain ⟨hlower, hfloor⟩ := mem_lower_of_not_mixed hu (TemporalInput.rooted hp)
          input.evidence_floor hmixed hb
        rw [List.mem_filter, hin.lower, hfloor]
        exact ⟨hlower, rfl⟩
      · -- a hash that was kept apart belongs to a mixed partition
        rw [List.any_eq_true]
        rintro ⟨h, hh, hhas⟩
        obtain ⟨v, hv⟩ := OrderedMap.has_iff.mp hhas
        obtain ⟨q, hq, hqmixed, m', hm', rfl, -⟩ := TemporalInput.get_anchorLowers.mp hv
        obtain ⟨p', hp', hs⟩ := TemporalInput.mem_segments.mp hin.segment
        obtain ⟨m'', heq, hin''⟩ := TemporalInput.inSegment hp' hs hh
        obtain ⟨m₀, heq₀, hin₀⟩ := TemporalInput.inSegment hp' hs hin.hash
        obtain rfl := input.eq_of_mem hp' hp hin₀.member hm heq₀
        obtain rfl := input.eq_of_mem hp' hq hin''.member hm' heq
        rw [hmixed] at hqmixed
        cases hqmixed

@[simp] lemma makeBound_timestamp (kind : BoundKind) (x : Entry) :
    (makeBound kind x).timestamp = x.info.timestamp := by
  rw [makeBound]
  split <;> rfl

/-- Floors leave the candidates under hashes as they are. -/
lemma get_addFloors_hash {c : Candidates} (h : Rooted members floors) {a : ObservedProof}
    (ha : a ∈ members) {e : BoundEvidence} (hget : c.get a.proofHash = some e) :
    (addFloors members floors m c).get a.proofHash = some e := by
  refine get_addFloor.mpr (Or.inl (get_addFloor.mpr (Or.inl ?_)))
  cases floors.get m.proofHash with
  | none => exact hget
  | some own =>
      obtain ⟨d, hd⟩ := h.hashed a ha
      rw [addOwnFloor, OrderedMap.get_set, if_neg]
      · exact hget
      · rw [hd]
        exact floorKey_ne

/-- An entry from anchors alone is an entry. -/
lemma mem_entriesOf_lower (h : Rooted members floors) {x : Entry}
    (hx : x ∈ entriesOf (evidenceOf evidence floors members)
      (anchorCandidates members (anchorsOf evidence members) m)) :
    x ∈ entriesOf (evidenceOf evidence floors members)
      (lowerCandidates evidence floors members m) := by
  obtain ⟨hget, hinfo⟩ := (mem_entriesOf anchorCandidates_keyed).mp hx
  refine (mem_entriesOf lowerCandidates_keyed).mpr ⟨?_, hinfo⟩
  rw [lowerCandidates]
  split
  · exact hget
  · obtain ⟨a, ha, hk, -⟩ := (get_anchorCandidates_eq h.unique).mp hget
    rw [← hk] at hget ⊢
    exact get_addFloors_hash h (mem_anchorsOf.mp ha).1 hget

/-- The tightest bound of a member starts no earlier than its anchor bounds. -/
lemma exists_le_head (h : Rooted members floors) {t : SegmentBound}
    (ht : t ∈ (memberBounds evidence floors members m).lower.head?) {b : SegmentBound}
    (hb : b ∈ anchorLower evidence floors members m) : b.timestamp ≤ t.timestamp := by
  obtain ⟨x, hx, rfl⟩ := (selectBounds_selected _ _ _).exists_entry hb
  have hmem := mem_entriesOf_lower h hx
  obtain ⟨best, bestChain, hbest, -, heq⟩ := selectBounds_selected .notBefore
    (lowerCandidates evidence floors members m) (evidenceOf evidence floors members)
  obtain ⟨best, rfl⟩ := hbest.exists_eq_some hmem
  rw [memberBounds, heq] at ht
  obtain rfl : makeBound .notBefore best = t := Option.some.inj ht
  rw [makeBound_timestamp, makeBound_timestamp]
  have hnot := hbest.2 x hmem
  rw [better] at hnot
  by_contra hlt
  rw [if_pos (by omega)] at hnot
  simp only [decide_eq_false_iff_not] at hnot
  omega

/-- Where `e` bounds a member from below, its anchor is the member or comes before it. -/
lemma lowerEvidence_before (hu : (members.map ObservedProof.proofHash).Nodup) {u a : ObservedProof}
    (hum : u ∈ members) (ha : a ∈ members) {e : BoundEvidence}
    (h : lowerEvidence members u a = some e) :
    a = u ∨ Above (pred members) a u
      ∨ counterAbove (parseCounter u.counter) (parseCounter a.counter) = true := by
  rw [lowerEvidence] at h
  split_ifs at h with hchain hcounter
  · rcases hchain with heq | hdesc
    · exact Or.inl (eq_of_hash hu ha hum heq.symm)
    · obtain ⟨d, hd, hda, hdk⟩ := (mem_collectDescendants hu ha _).mp hdesc
      rw [eq_of_hash hu hd hum hdk] at hda
      exact Or.inr (Or.inl hda)
  · exact Or.inr (Or.inr hcounter)

/-- No anchor of an epoch follows one with a later time, by links or by counters. -/
def AnchorsOrdered (input : TemporalInput) (id : Str) : Prop :=
  ∀ p ∈ input.partitions, p.key.epochId = some id → ∀ a ∈ input.members p,
    ∀ u ∈ input.members p, ∀ ia iu, input.evidence.get a.proofHash = some ia →
      input.evidence.get u.proofHash = some iu →
      Above (pred (input.members p)) a u
        ∨ counterAbove (parseCounter u.counter) (parseCounter a.counter) = true →
      ia.timestamp ≤ iu.timestamp

/-- An anchor bounds itself, so where the times follow the order it starts no later than it
says. -/
lemma exists_anchorLower_le {id : Str} (hord : AnchorsOrdered input id)
    (hp : p ∈ input.partitions) (hid : p.key.epochId = some id) {u : ObservedProof}
    (hu : u ∈ input.members p) {iu : VerifiedAnchorEvidence}
    (hiu : input.evidence.get u.proofHash = some iu) :
    ∃ b ∈ anchorLower input.evidence input.floors (input.members p) u,
      b.timestamp ≤ iu.timestamp := by
  have hr := TemporalInput.rooted hp
  have hself : (⟨u.proofHash, .chainLink, iu⟩ : Entry)
      ∈ entriesOf (evidenceOf input.evidence input.floors (input.members p))
        (anchorCandidates (input.members p) (anchorsOf input.evidence (input.members p)) u) := by
    refine (mem_entriesOf anchorCandidates_keyed).mpr ⟨?_, ?_⟩
    · refine (get_anchorCandidates_eq hr.unique).mpr
        ⟨u, mem_anchorsOf.mpr ⟨hu, iu, hiu⟩, rfl, ?_⟩
      rw [lowerEvidence, if_pos (Or.inl rfl)]
    · exact (get_evidenceOf_hash hr hu).trans hiu
  obtain ⟨best, bestChain, hbest, -, heq⟩ := selectBounds_selected .notBefore
    (anchorCandidates (input.members p) (anchorsOf input.evidence (input.members p)) u)
    (evidenceOf input.evidence input.floors (input.members p))
  obtain ⟨best, rfl⟩ := hbest.exists_eq_some hself
  refine ⟨makeBound .notBefore best, ?_, ?_⟩
  · rw [anchorLower, heq]
    exact List.mem_cons_self
  · rw [makeBound_timestamp]
    obtain ⟨hget, hinfo⟩ := (mem_entriesOf anchorCandidates_keyed).mp hbest.1
    obtain ⟨a, ha, hk, he⟩ := (get_anchorCandidates_eq hr.unique).mp hget
    have hmem := (mem_anchorsOf.mp ha).1
    rw [← hk, get_evidenceOf_hash hr hmem] at hinfo
    rcases lowerEvidence_before hr.unique hu hmem he with rfl | hbefore
    · rw [hiu] at hinfo
      rw [Option.some.inj hinfo]
    · exact hord p hp hid a hmem u hu _ _ hinfo hiu hbefore

/-- A not-after bound is the time of an anchor of the partition. -/
lemma exists_anchor_of_upper (h : Rooted members floors) {b : SegmentBound}
    (hb : b ∈ (memberBounds evidence floors members m).upper) :
    ∃ u ∈ members, ∃ iu, evidence.get u.proofHash = some iu ∧ b.timestamp = iu.timestamp := by
  obtain ⟨x, hx, rfl⟩ := (selectBounds_selected _ _ _).exists_entry hb
  obtain ⟨hget, hinfo⟩ := (mem_entriesOf upperCandidates_keyed).mp hx
  obtain ⟨u, hu, hk, -⟩ := (get_upperCandidates_eq h.unique).mp hget
  have hmem := (mem_anchorsOf.mp hu).1
  rw [← hk, get_evidenceOf_hash h hmem] at hinfo
  exact ⟨u, hmem, x.info, hinfo, makeBound_timestamp _ _⟩

end Anchors

/-! ### Ordered pairs -/

variable {input : TemporalInput}

/-- What a reported pair rests on. -/
lemma TemporalInput.mem_pairs {pair : AnchorOrderedPair}
    (h : pair ∈ input.analysis.anchorOrderedPairs) :
    ∃ u l, ((segmentsAt pair.beforeEpochId input.analysis.segments).flatMap
          TemporalSegment.upperBounds).foldl foldUpper none = some u
      ∧ ((segmentsAt pair.afterEpochId input.analysis.segments).flatMap
          (anchorBounds input.anchorLowers)).foldl foldLower none = some l
      ∧ u.timestamp < l.timestamp :=
  mem_orderedPairs (epochsOf_keyed _) h

lemma mem_segmentsAt {p : ChainPartition} {m : ObservedProof} {s : TemporalSegment} {id : Str}
    (hin : InSegment input p m s) (hid : p.key.epochId = some id) :
    s ∈ segmentsAt id input.analysis.segments := by
  rw [segmentsAt, List.mem_filter, decide_eq_true_eq, hin.key]
  exact ⟨hin.segment, hid⟩

/-- The first epoch's not-after covers its members. -/
lemma upper_le {id : Str} {u : CoverageRepresentative}
    (hu : ((segmentsAt id input.analysis.segments).flatMap
      TemporalSegment.upperBounds).foldl foldUpper none = some u)
    {p : ChainPartition} (hp : p ∈ input.partitions) (hid : p.key.epochId = some id)
    {m : ObservedProof} (hm : m ∈ input.members p) {b : SegmentBound}
    (hb : b ∈ (memberBounds input.evidence input.floors (input.members p) m).upper) :
    b.timestamp ≤ u.timestamp := by
  obtain ⟨s, hin⟩ := TemporalInput.exists_inSegment hp hm
  obtain ⟨r, hr, hle⟩ := (foldl_foldUpper _ none).1 b
    (List.mem_flatMap.mpr ⟨s, mem_segmentsAt hin hid, hin.upper ▸ hb⟩)
  rw [hu] at hr
  rwa [Option.some.inj hr]

/-- The second epoch's not-before covers its members' anchor bounds. -/
lemma le_anchorLower {id : Str} {l : CoverageRepresentative}
    (hl : ((segmentsAt id input.analysis.segments).flatMap
      (anchorBounds input.anchorLowers)).foldl foldLower none = some l)
    {p : ChainPartition} (hp : p ∈ input.partitions) (hid : p.key.epochId = some id)
    {m : ObservedProof} (hm : m ∈ input.members p) {b : SegmentBound}
    (hb : b ∈ anchorLower input.evidence input.floors (input.members p) m) :
    l.timestamp ≤ b.timestamp := by
  obtain ⟨s, hin⟩ := TemporalInput.exists_inSegment hp hm
  obtain ⟨r, hr, hle⟩ := (foldl_foldLower _ none).1 b
    (List.mem_flatMap.mpr ⟨s, mem_segmentsAt hin hid, mem_anchorBounds hin hb⟩)
  rw [hl] at hr
  rwa [Option.some.inj hr]

/-- Where the times follow the order an epoch starts no later than it ends. -/
lemma AnchorsOrdered.le {id : Str} (hord : AnchorsOrdered input id) {u l : CoverageRepresentative}
    (hu : ((segmentsAt id input.analysis.segments).flatMap
      TemporalSegment.upperBounds).foldl foldUpper none = some u)
    (hl : ((segmentsAt id input.analysis.segments).flatMap
      (anchorBounds input.anchorLowers)).foldl foldLower none = some l) :
    l.timestamp ≤ u.timestamp := by
  rcases (foldl_foldUpper _ none).2.2 u hu with h | ⟨b, hb, rfl⟩
  · cases h
  · obtain ⟨s, hs, hb⟩ := List.mem_flatMap.mp hb
    obtain ⟨hseg, hid⟩ := List.mem_filter.mp hs
    obtain ⟨p, m, hin⟩ := TemporalInput.exists_member hseg
    rw [decide_eq_true_eq, hin.key] at hid
    rw [hin.upper] at hb
    obtain ⟨a, ha, ia, hia, hts⟩ := exists_anchor_of_upper (TemporalInput.rooted hin.partition) hb
    obtain ⟨b', hb', hle⟩ := exists_anchorLower_le hord hin.partition hid ha hia
    calc l.timestamp ≤ b'.timestamp := le_anchorLower hl hin.partition hid ha hb'
      _ ≤ ia.timestamp := hle
      _ = b.timestamp := hts.symm

/-- **Ordered pairs are consistent.** Every not-after bound of the first epoch is earlier than
every anchor not-before bound of the second, and than the tightest not-before of every member
that has one. Epochs in which no anchor follows one with a later time are not ordered both ways. -/
theorem anchorOrderedPairs_consistent (input : TemporalInput) {pair : AnchorOrderedPair}
    (h : pair ∈ input.analysis.anchorOrderedPairs) :
    (∀ p ∈ input.partitions, p.key.epochId = some pair.beforeEpochId →
      ∀ q ∈ input.partitions, q.key.epochId = some pair.afterEpochId →
      ∀ m ∈ input.members p, ∀ m' ∈ input.members q,
      ∀ b ∈ (memberBounds input.evidence input.floors (input.members p) m).upper,
      ∀ b' ∈ anchorLower input.evidence input.floors (input.members q) m',
        b.timestamp < b'.timestamp
        ∧ ∀ t ∈ (memberBounds input.evidence input.floors (input.members q) m').lower.head?,
          b.timestamp < t.timestamp)
      ∧ (AnchorsOrdered input pair.beforeEpochId → AnchorsOrdered input pair.afterEpochId →
        ∀ other ∈ input.analysis.anchorOrderedPairs,
          ¬ (other.beforeEpochId = pair.afterEpochId ∧ other.afterEpochId = pair.beforeEpochId)) := by
  obtain ⟨u, l, hu, hl, hlt⟩ := TemporalInput.mem_pairs h
  constructor
  · intro p hp hid q hq hid' m hm m' hm' b hb b' hb'
    have hbefore : b.timestamp < b'.timestamp :=
      calc b.timestamp ≤ u.timestamp := upper_le hu hp hid hm hb
        _ < l.timestamp := hlt
        _ ≤ b'.timestamp := le_anchorLower hl hq hid' hm' hb'
    refine ⟨hbefore, fun t ht => ?_⟩
    exact hbefore.trans_le (exists_le_head (TemporalInput.rooted hq) ht hb')
  · rintro hord hord' other hother ⟨hb, ha⟩
    obtain ⟨u', l', hu', hl', hlt'⟩ := TemporalInput.mem_pairs hother
    rw [hb] at hu'
    rw [ha] at hl'
    -- once around: each start is before the next end
    have : u.timestamp < u.timestamp :=
      calc u.timestamp < l.timestamp := hlt
        _ ≤ u'.timestamp := hord'.le hu' hl
        _ < l'.timestamp := hlt'
        _ ≤ u.timestamp := hord.le hu hl'
    exact lt_irrefl _ this

/-- A recording of a test chain. -/
def recording (n : UInt8) (prev : Option Str) (counter epoch : Str) : ObservedProof :=
  ⟨bytesToBase64 [n], bytesToBase64 [n], some counter, none, prev, some epoch, js "C",
    some (js "K"), false⟩

/-- A verified witness of a recording. -/
def witnessOf (n : UInt8) (timestamp : ℕ) : AnchorWitnessOutcome :=
  ⟨true, some (bytesToBase64 [n]), timestamp, js "0x", none⟩

/-- Two epochs of two linked anchors each, the second pair with the given times. -/
def twoEpochs (first second : ℕ) : TemporalInput where
  proofs := [recording 1 none (js "1") (js "A"),
    recording 2 (some (bytesToBase64 [1])) (js "2") (js "A"),
    recording 3 none (js "1") (js "B"),
    recording 4 (some (bytesToBase64 [3])) (js "2") (js "B")]
  outcomes := [witnessOf 1 50, witnessOf 2 60, witnessOf 3 first, witnessOf 4 second]
  floors := []
  unique := by decide
  hashed p hp := by
    simp only [List.mem_cons, List.not_mem_nil, or_false] at hp
    rcases hp with rfl | rfl | rfl | rfl <;> exact ⟨[_], rfl⟩
  keyed hash f h := nomatch h

/-- The pair of the epochs when the second starts after the first. -/
def firstBeforeSecond : AnchorOrderedPair :=
  ⟨js "A", js "B", bytesToBase64 [2], 60, bytesToBase64 [3], 100, .chainLink, .chainLink, false,
    1, 2, 2, 2⟩

/-- With times 50, 60 and 100, 110 the first epoch lies before the second. -/
theorem anchorOrderedPairs_consistent_twoEpochs :
    firstBeforeSecond ∈ (twoEpochs 100 110).analysis.anchorOrderedPairs
      ∧ ∀ p ∈ (twoEpochs 100 110).partitions, p.key.epochId = some (js "A") →
        ∀ q ∈ (twoEpochs 100 110).partitions, q.key.epochId = some (js "B") →
        ∀ m ∈ (twoEpochs 100 110).members p, ∀ m' ∈ (twoEpochs 100 110).members q,
        ∀ b ∈ (memberBounds (twoEpochs 100 110).evidence (twoEpochs 100 110).floors
          ((twoEpochs 100 110).members p) m).upper,
        ∀ b' ∈ anchorLower (twoEpochs 100 110).evidence (twoEpochs 100 110).floors
          ((twoEpochs 100 110).members q) m', b.timestamp < b'.timestamp := by
  have hmem : firstBeforeSecond ∈ (twoEpochs 100 110).analysis.anchorOrderedPairs := by
    decide
  refine ⟨hmem, fun p hp hid q hq hid' m hm m' hm' b hb b' hb' => ?_⟩
  exact ((anchorOrderedPairs_consistent (twoEpochs 100 110) hmem).1 p hp hid q hq hid' m hm m' hm'
    b hb b' hb').1

/-- **An older block after a newer one**: with times 50, 60 and 100, 10 each epoch is reported
before the other. -/
theorem ordered_both_ways :
    (twoEpochs 100 10).analysis.anchorOrderedPairs.map
        (fun pair => (pair.beforeEpochId, pair.afterEpochId))
      = [(js "A", js "B"), (js "B", js "A")] := by
  decide

end Temporal

end Audit

end BitGraph
