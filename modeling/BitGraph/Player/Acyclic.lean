import BitGraph.Player.Lineage

/-!
Cycles of the order.

* **Answers.** `compare_before` says on what an answer "before" rests: a directed path that the
  counters do not contradict, the counters alone, or lineage that does not also run back.
* **Hash links.** `hashLinked_acyclic`: answers from hash links never run in a circle, across
  any number of partitions.
* **One partition.** `partition_acyclic`: answers inside a partition run in a circle only
  through a recording whose counter does not parse, between two whose counters contradict the
  path over it; `partition_cycle` is such a circle.
-/

namespace BitGraph

open Js

namespace Player

open Audit

variable {audit : AuditResult}

/-! ### What an answer rests on -/

/-- A directed path leads from the one to the other and not back, and the counters, where both
parse, agree. -/
structure PathBefore (audit : AuditResult) (partition : ChainPartition) (a b : ObservedProof) :
    Prop where
  path : DirectedPath audit partition a b
  notBack : ¬ DirectedPath audit partition b a
  agree : ∀ ca ∈ parseCounter a.counter, ∀ cb ∈ parseCounter b.counter, ca < cb

/-- No path connects the two, and the counters parse and differ. -/
structure CounterBefore (audit : AuditResult) (partition : ChainPartition)
    (a b : ObservedProof) : Prop where
  notPath : ¬ DirectedPath audit partition a b
  notBack : ¬ DirectedPath audit partition b a
  less : CounterCovered a b

lemma compareInPartition_before {partition : ChainPartition} {a b : ObservedProof}
    (ha : a ∈ audit.proofs) (hb : b ∈ audit.proofs)
    (h : (compareInPartition a b partition audit).relation = .before) :
    PathBefore audit partition a b
      ∨ (CounterBefore audit partition a b
          ∧ (compareInPartition a b partition audit).tier = some .assumptionDependent) := by
  have hab := @isDirectedAncestor_iff audit partition a b ha
  have hba := @isDirectedAncestor_iff audit partition b a hb
  rw [compareInPartition] at h ⊢
  generalize isDirectedAncestor a b partition (chainHashIndex audit partition) = aBeforeB at *
  generalize isDirectedAncestor b a partition (chainHashIndex audit partition) = bBeforeA at *
  dsimp only at h ⊢
  cases aBeforeB <;> cases bBeforeA
  case true.true => cases h
  case false.true =>
    simp only [Bool.false_and, Bool.or_true, Bool.false_eq_true, if_false, if_true] at h
    split_ifs at h <;> cases h
  case true.false =>
    refine Or.inl ⟨hab.mp rfl, fun hback => Bool.false_ne_true (hba.mpr hback), ?_⟩
    intro ca hca cb hcb
    rw [Option.mem_def.mp hca, Option.mem_def.mp hcb] at h
    simp only [Bool.and_false, Bool.or_false, Bool.false_eq_true, if_false, if_true,
      decide_eq_true_eq] at h
    by_contra hlt
    rw [if_pos (not_lt.mp hlt)] at h
    cases h
  case false.false =>
    have hnab : ¬ DirectedPath audit partition a b := fun hp => Bool.false_ne_true (hab.mpr hp)
    have hnba : ¬ DirectedPath audit partition b a := fun hp => Bool.false_ne_true (hba.mpr hp)
    cases hca : parseCounter a.counter with
    | none =>
        rw [hca] at h
        cases h
    | some ca =>
        cases hcb : parseCounter b.counter with
        | none =>
            rw [hca, hcb] at h
            cases h
        | some cb =>
            rw [hca, hcb] at h
            simp only [Bool.and_false, Bool.or_false, Bool.false_eq_true, if_false] at h ⊢
            by_cases heq : ca = cb
            · rw [if_pos heq] at h
              cases h
            · rw [if_neg heq] at h ⊢
              by_cases hlt : ca < cb
              · exact Or.inr ⟨⟨hnab, hnba, ca, hca, cb, hcb, hlt⟩, rfl⟩
              · rw [if_neg hlt] at h
                cases h

lemma compareAnchors_tier {a b : ObservedProof} {r : OrderResult} {tier : EvidenceTier}
    (h : compareAnchors a b audit = .ok r) (ht : r.tier = some tier) :
    tier = .assumptionDependent := by
  rw [compareAnchors] at h
  cases ha : segmentOf audit a.proofHash with
  | none =>
      rw [ha] at h
      cases h
      cases ht
  | some segA =>
      cases hb : segmentOf audit b.proofHash with
      | none =>
          rw [ha, hb] at h
          cases h
          cases ht
      | some segB =>
          rw [ha, hb] at h
          dsimp only at h
          cases hf : anchorPrecedes segA segB with
          | error e =>
              rw [hf] at h
              cases h
          | ok forward =>
              cases hback : anchorPrecedes segB segA with
              | error e =>
                  rw [hf, hback] at h
                  cases h
              | ok backward =>
                  rw [hf, hback] at h
                  cases forward <;> cases backward <;> cases h <;> cases ht <;> rfl

/-- A hash-linked answer across partitions is lineage that does not run back. -/
lemma compareAcross_hashLinked {a b : ObservedProof} {partA partB : ChainPartition}
    {r : OrderResult} (ha : a ∈ audit.proofs) (hB : partB ∈ audit.partitions)
    (h : compareAcross a b partA partB audit = .ok r) (hrel : r.relation = .before)
    (ht : r.tier = some .hashLinked) :
    HashLineage audit a partA partB ∧ lineagePrecedes b partB partA audit = none := by
  rw [compareAcross] at h
  split_ifs at h with hepoch
  · cases h
    cases ht
  · cases hf : lineagePrecedes a partA partB audit with
    | none =>
        cases hback : lineagePrecedes b partB partA audit with
        | none =>
            rw [hf, hback] at h
            cases compareAnchors_tier h ht
        | some tier =>
            rw [hf, hback] at h
            cases h
            cases hrel
    | some tier =>
        cases hback : lineagePrecedes b partB partA audit with
        | none =>
            rw [hf, hback] at h
            cases h
            cases ht
            exact ⟨(lineagePrecedes_eq_hashLinked ha hB).mp hf, rfl⟩
        | some tier' =>
            rw [hf, hback] at h
            cases h
            cases ht

/-- The partitions of two recordings that `compare` finds in order. -/
lemma compare_before {a b : ObservedProof} {r : OrderResult} (h : compare a b audit = .ok r)
    (hrel : r.relation = .before) :
    ∃ partA partB, partitionOf audit a.proofHash = some partA
      ∧ partitionOf audit b.proofHash = some partB
      ∧ ((partA = partB ∧ r = compareInPartition a b partA audit)
        ∨ (partA ≠ partB ∧ compareAcross a b partA partB audit = .ok r)) := by
  rw [compare] at h
  split_ifs at h with hsame
  · cases h
    cases hrel
  · cases hA : partitionOf audit a.proofHash with
    | none =>
        rw [hA] at h
        cases h
        cases hrel
    | some partA =>
        cases hB : partitionOf audit b.proofHash with
        | none =>
            rw [hA, hB] at h
            cases h
            cases hrel
        | some partB =>
            rw [hA, hB] at h
            dsimp only at h
            refine ⟨partA, partB, rfl, rfl, ?_⟩
            split_ifs at h with hpart
            · cases h
              exact Or.inl ⟨hpart, rfl⟩
            · exact Or.inr ⟨hpart, h⟩

/-! ### Hash links -/

/-- `compare(a, b)` is "before" at tier hash-linked. -/
def HashBefore (audit : AuditResult) (a b : ObservedProof) : Prop :=
  ∃ basis, Answers audit a b .before basis .hashLinked

/-- One recording is before another by hash links, whether or not something contradicts it. -/
inductive HashEvidence (audit : AuditResult) (a b : ObservedProof) : Prop
  | path {P : ChainPartition} (hA : partitionOf audit a.proofHash = some P)
      (hB : partitionOf audit b.proofHash = some P) (h : DirectedPath audit P a b)
  | lineage {P Q : ChainPartition} (hA : partitionOf audit a.proofHash = some P)
      (hB : partitionOf audit b.proofHash = some Q) (h : HashLineage audit a P Q)

/-- Evidence from hash links composes: a path extends the coverage of a chain's first
predecessor, and chains of edges are joined end to end. -/
lemma HashEvidence.trans {a b c : ObservedProof} (h : HashEvidence audit a b)
    (h' : HashEvidence audit b c) : HashEvidence audit a c := by
  cases h with
  | path hA hB hpath =>
      cases h' with
      | path hB' hC hpath' =>
          cases hB.symm.trans hB'
          exact .path hA hC (hpath.trans hpath')
      | lineage hB' hC hline =>
          cases hB.symm.trans hB'
          obtain ⟨pred, hline, hcov⟩ := hline
          exact .lineage hA hC ⟨pred, hline, hcov.below hpath⟩
  | lineage hA hB hline =>
      cases h' with
      | path hB' hC hpath' =>
          cases hB.symm.trans hB'
          exact .lineage hA hC hline
      | lineage hB' hC hline' =>
          cases hB.symm.trans hB'
          obtain ⟨pred, hline, hcov⟩ := hline
          obtain ⟨pred', hline', -⟩ := hline'
          exact .lineage hA hC ⟨pred, hline.append hline', hcov⟩

/-- What a hash-linked answer says: evidence one way, and within a partition no path back, across
partitions no evidence back. -/
lemma HashBefore.spec {a b : ObservedProof} (ha : a ∈ audit.proofs) (hb : b ∈ audit.proofs)
    (h : HashBefore audit a b) :
    HashEvidence audit a b ∧ ∃ P Q, partitionOf audit a.proofHash = some P
      ∧ partitionOf audit b.proofHash = some Q
      ∧ ((P = Q ∧ PathBefore audit P a b) ∨ (P ≠ Q ∧ ¬ HashLineage audit b Q P)) := by
  obtain ⟨basis, r, hr, hrel, -, ht⟩ := h
  obtain ⟨P, Q, hA, hB, ⟨rfl, rfl⟩ | ⟨hne, hacross⟩⟩ := compare_before hr hrel
  · rcases compareInPartition_before ha hb hrel with hpath | ⟨-, ht'⟩
    · exact ⟨.path hA hB hpath.path, P, P, hA, hB, Or.inl ⟨rfl, hpath⟩⟩
    · rw [ht'] at ht
      cases ht
  · obtain ⟨hline, hback⟩ :=
      compareAcross_hashLinked ha (partitionOf_mem hB) hacross hrel ht
    refine ⟨.lineage hA hB hline, P, Q, hA, hB, Or.inr ⟨hne, fun hline' => ?_⟩⟩
    rw [(lineagePrecedes_eq_hashLinked hb (partitionOf_mem hA)).mpr hline'] at hback
    cases hback

/-- **The hash-linked order is acyclic.** No sequence of observed recordings, each before the
next at tier hash-linked, comes back to its start. -/
theorem hashLinked_acyclic (audit : AuditResult) {r : ObservedProof} {rs : List ObservedProof}
    (hobs : ∀ x ∈ r :: rs, x ∈ audit.proofs) :
    ¬ (r :: (rs ++ [r])).IsChain (HashBefore audit) := by
  intro hcycle
  have hspec : ∀ {a b}, Search.Within (HashBefore audit) (r :: rs) a b → _ := fun h =>
    HashBefore.spec (hobs _ h.2.1) (hobs _ h.2.2) h.1
  have hevidence : ∀ {a b}, Relation.TransGen (Search.Within (HashBefore audit) (r :: rs)) a b →
      HashEvidence audit a b := by
    intro a b h
    induction h with
    | single h => exact (hspec h).1
    | tail _ h ih => exact ih.trans (hspec h).1
  -- across partitions, the way back would be evidence back
  have hsame : ∀ {a b}, Search.Within (HashBefore audit) (r :: rs) a b →
      ∃ P, partitionOf audit a.proofHash = some P ∧ partitionOf audit b.proofHash = some P
        ∧ PathBefore audit P a b := by
    intro a b h
    obtain ⟨-, P, Q, hA, hB, ⟨rfl, hpath⟩ | ⟨hne, hback⟩⟩ := hspec h
    · exact ⟨P, hA, hB, hpath⟩
    · cases hevidence (Search.closed_walk hcycle h.2.2 h.2.1) with
      | path hB' hA' _ => exact absurd (Option.some.inj ((hA.symm.trans hA').trans
          (hB'.symm.trans hB))) hne
      | lineage hB' hA' hline =>
          cases hB.symm.trans hB'
          cases hA.symm.trans hA'
          exact absurd hline hback
  -- so the cycle lies in one partition, and the way back is a path
  have hpaths : ∀ {a b}, Relation.TransGen (Search.Within (HashBefore audit) (r :: rs)) a b →
      ∃ P, partitionOf audit a.proofHash = some P ∧ partitionOf audit b.proofHash = some P
        ∧ DirectedPath audit P a b := by
    intro a b h
    induction h with
    | single h =>
        obtain ⟨P, hA, hB, hpath⟩ := hsame h
        exact ⟨P, hA, hB, hpath.path⟩
    | tail _ h ih =>
        obtain ⟨P, hA, hB, hpath⟩ := ih
        obtain ⟨Q, hB', hC, hpath'⟩ := hsame h
        cases hB.symm.trans hB'
        exact ⟨P, hA, hC, hpath.trans hpath'.path⟩
  obtain ⟨b, hstep, -⟩ := Relation.TransGen.head'_iff.mp
    (Search.closed_walk hcycle (x := r) (y := r) List.mem_cons_self List.mem_cons_self)
  obtain ⟨P, hA, hB, hpath⟩ := hsame hstep
  obtain ⟨Q, hB', -, hback⟩ := hpaths (Search.closed_walk hcycle hstep.2.2 hstep.2.1)
  cases hB.symm.trans hB'
  exact hpath.notBack hback

lemma related_iff {a b : ObservedProof} {relation : Relation} :
    Related audit a b relation
      ↔ (compare a b audit).toOption.map OrderResult.relation = some relation := by
  rw [Related]
  cases compare a b audit <;> simp [Except.toOption]

/-- A chain of three recordings, the middle one without a counter and the last with a counter
below the first's, and one more recording beside it. -/
def bridgeFiles : List ObservedProof :=
  [sampleProof (js "p") (some (js "5")) none (js "e") (js "k"),
    sampleProof (js "x") none (some (js "chain-p")) (js "e") (js "k"),
    sampleProof (js "q") (some (js "3")) (some (js "chain-x")) (js "e") (js "k"),
    sampleProof (js "r") (some (js "4")) none (js "e") (js "k")]

def bridge : AuditResult := .ofFiles bridgeFiles [] []

/-- The first two are in order by hash links, and not both ways. -/
theorem hashLinked_acyclic_bridge :
    HashBefore bridge bridgeFiles[0] bridgeFiles[1]
      ∧ ¬ [bridgeFiles[0], bridgeFiles[1], bridgeFiles[0]].IsChain (HashBefore bridge) := by
  refine ⟨?_, @hashLinked_acyclic bridge bridgeFiles[0] [bridgeFiles[1]]
    (by decide)⟩
  have hanswer : (compare bridgeFiles[0] bridgeFiles[1] bridge).toOption.map
      (fun r => (r.relation, r.basis, r.tier))
        = some (.before, some .chainLink, some .hashLinked) := by decide
  obtain ⟨r, hr, hparts⟩ := Option.map_eq_some_iff.mp hanswer
  simp only [Prod.mk.injEq] at hparts
  exact ⟨.chainLink, r, toOption_eq_some.mp hr, hparts⟩

/-! ### One partition -/

/-- The counters at the two ends of every path over a recording without a parseable counter, among
the given recordings, agree with the path. -/
def ClearPaths (audit : AuditResult) (partition : ChainPartition) (l : List ObservedProof) :
    Prop :=
  ∀ p ∈ l, ∀ x ∈ l, ∀ q ∈ l, DirectedPath audit partition p x →
    DirectedPath audit partition x q → parseCounter x.counter = none →
      ∀ cp ∈ parseCounter p.counter, ∀ cq ∈ parseCounter q.counter, cp < cq

/-- The recordings are observed members of one partition. -/
def MembersOf (audit : AuditResult) (partition : ChainPartition) (l : List ObservedProof) : Prop :=
  ∀ x ∈ l, x ∈ audit.proofs ∧ partitionOf audit x.proofHash = some partition

lemma related_before {partition : ChainPartition} {l : List ObservedProof} {a b : ObservedProof}
    (hl : MembersOf audit partition l)
    (h : Search.Within (fun a b => Related audit a b .before) l a b) :
    PathBefore audit partition a b ∨ CounterBefore audit partition a b := by
  obtain ⟨⟨r, hr, hrel⟩, ha, hb⟩ := h
  obtain ⟨P, Q, hA, hB, ⟨rfl, rfl⟩ | ⟨hne, -⟩⟩ := compare_before hr hrel
  · cases hA.symm.trans (hl a ha).2
    exact (compareInPartition_before (hl a ha).1 (hl b hb).1 hrel).imp id And.left
  · exact absurd (Option.some.inj ((hA.symm.trans (hl a ha).2).trans
      ((hl b hb).2.symm.trans hB))) hne

/-- How far a walk from a counter `c` has come: a parseable counter has grown, and a recording
without one lies below a recording whose counter is no smaller than `c`. -/
def Risen (audit : AuditResult) (partition : ChainPartition) (l : List ObservedProof) (c : ℕ)
    (y : ObservedProof) : Prop :=
  (∀ cy ∈ parseCounter y.counter, c < cy)
    ∧ (parseCounter y.counter = none → ∃ p ∈ l, ∃ cp ∈ parseCounter p.counter, c ≤ cp
        ∧ DirectedPath audit partition p y)

/-- A step from a recording whose counter is at least `c`. -/
lemma risen_of_counter {partition : ChainPartition} {l : List ObservedProof}
    {y z : ObservedProof} {c cy : ℕ} (hy : y ∈ l) (hcy : parseCounter y.counter = some cy)
    (hle : c ≤ cy)
    (h : PathBefore audit partition y z ∨ CounterBefore audit partition y z) :
    Risen audit partition l c z := by
  rcases h with hpath | hcounter
  · exact ⟨fun cz hcz => hle.trans_lt (hpath.agree cy hcy cz hcz),
      fun _ => ⟨y, hy, cy, hcy, hle, hpath.path⟩⟩
  · obtain ⟨cy', hcy', cz, hcz, hlt⟩ := hcounter.less
    cases hcy.symm.trans hcy'
    refine ⟨fun cz' hcz' => ?_, fun hnone => ?_⟩
    · cases hcz.symm.trans hcz'
      exact hle.trans_lt hlt
    · cases hcz.symm.trans hnone

/-- A step of a walk. -/
lemma Risen.step {partition : ChainPartition} {l : List ObservedProof} {y z : ObservedProof}
    {c : ℕ} (hclear : ClearPaths audit partition l) (hy : y ∈ l) (hz : z ∈ l)
    (hrisen : Risen audit partition l c y)
    (h : PathBefore audit partition y z ∨ CounterBefore audit partition y z) :
    Risen audit partition l c z := by
  cases hcy : parseCounter y.counter with
  | some cy => exact risen_of_counter hy hcy (hrisen.1 cy hcy).le h
  | none =>
      -- only a path leads on from a recording without a counter
      rcases h with hpath | hcounter
      · obtain ⟨p, hp, cp, hcp, hle, habove⟩ := hrisen.2 hcy
        exact ⟨fun cz hcz => hle.trans_lt
            (hclear p hp y hy z hz habove hpath.path hcy cp hcp cz hcz),
          fun _ => ⟨p, hp, cp, hcp, hle, habove.trans hpath.path⟩⟩
      · obtain ⟨cy, hcy', -⟩ := hcounter.less
        cases hcy.symm.trans hcy'

/-- **The order inside a partition is acyclic** among recordings whose counters do not contradict
a path over a recording without a parseable counter. -/
theorem partition_acyclic (audit : AuditResult) (partition : ChainPartition)
    {r : ObservedProof} {rs : List ObservedProof} (hl : MembersOf audit partition (r :: rs))
    (hclear : ClearPaths audit partition (r :: rs)) :
    ¬ (r :: (rs ++ [r])).IsChain fun a b => Related audit a b .before := by
  intro hcycle
  have hstep : ∀ {a b}, Search.Within (fun a b => Related audit a b .before) (r :: rs) a b →
      PathBefore audit partition a b ∨ CounterBefore audit partition a b := related_before hl
  have haround := fun x hx => Search.closed_walk hcycle (x := x) (y := x) hx hx
  by_cases hcounter : ∃ x ∈ r :: rs, ∃ c, parseCounter x.counter = some c
  · -- once around, the counter has grown
    obtain ⟨x, hx, c, hc⟩ := hcounter
    have hrisen : ∀ {y}, Relation.TransGen
        (Search.Within (fun a b => Related audit a b .before) (r :: rs)) x y →
        Risen audit partition (r :: rs) c y := by
      intro y h
      induction h with
      | single h => exact risen_of_counter hx hc le_rfl (hstep h)
      | tail _ h ih => exact ih.step hclear h.2.1 h.2.2 (hstep h)
    exact absurd ((hrisen (haround x hx)).1 c hc) (lt_irrefl c)
  · -- without counters every step is a path
    have hnone : ∀ {a b}, Search.Within (fun a b => Related audit a b .before) (r :: rs) a b →
        PathBefore audit partition a b := by
      intro a b h
      refine (hstep h).resolve_right fun hc => ?_
      obtain ⟨ca, hca, -⟩ := hc.less
      exact hcounter ⟨a, h.2.1, ca, hca⟩
    have hpaths : ∀ {a b}, Relation.TransGen
        (Search.Within (fun a b => Related audit a b .before) (r :: rs)) a b →
        DirectedPath audit partition a b := by
      intro a b h
      induction h with
      | single h => exact (hnone h).path
      | tail _ h ih => exact ih.trans (hnone h).path
    obtain ⟨b, h, -⟩ := Relation.TransGen.head'_iff.mp (haround r List.mem_cons_self)
    exact (hnone h).notBack (hpaths (Search.closed_walk hcycle h.2.2 h.2.1))

/-- The partition of the four recordings. -/
def bridgePartition : ChainPartition :=
  ⟨⟨js "k", some (js "e"), js "global"⟩, [js "q", js "r", js "p", js "x"]⟩

/-- The two recordings with the counters 3 and 4 are not in order both ways. -/
theorem partition_acyclic_bridge :
    ¬ [bridgeFiles[2], bridgeFiles[3], bridgeFiles[2]].IsChain
      fun a b => Related bridge a b .before := by
  refine @partition_acyclic bridge bridgePartition bridgeFiles[2] [bridgeFiles[3]]
    (by unfold MembersOf; decide) ?_
  have hcounter : ∀ x ∈ [bridgeFiles[2], bridgeFiles[3]], parseCounter x.counter ≠ none := by
    decide
  exact fun _ _ x hx _ _ _ _ hnone => absurd hnone (hcounter x hx)

/-- Four recordings in a circle: over the one without a counter the links lead down to a smaller
counter, and the counters lead up again. -/
theorem partition_cycle :
    ¬ ∀ (audit : AuditResult) (partition : ChainPartition) (r : ObservedProof)
        (rs : List ObservedProof), MembersOf audit partition (r :: rs) →
          ¬ (r :: (rs ++ [r])).IsChain fun a b => Related audit a b .before := by
  intro h
  refine h bridge bridgePartition bridgeFiles[0] [bridgeFiles[1], bridgeFiles[2], bridgeFiles[3]]
    (by unfold MembersOf; decide) ?_
  simp only [related_iff, List.cons_append, List.nil_append]
  decide

end Player

end BitGraph
