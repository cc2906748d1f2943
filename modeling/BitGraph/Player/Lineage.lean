import BitGraph.Player.Order

/-!
What the two walks of the order decide.

* **Links.** `isDirectedAncestor_iff`: the walk up the `prevB64` links finds a recording exactly
  when a directed path leads to it.
* **Lineage.** `Lineage` is a chain of hard edges between two partitions, each anchored where
  the one before it arrived. `lineagePrecedes_iff` says that the search answers with the
  strongest coverage of a first predecessor, over all such chains, and that it ends on every
  graph.
-/

namespace BitGraph

open Js

namespace Player

open Audit

variable {audit : AuditResult}

lemma proofsByHash_eq_some {h : Str} {p : ObservedProof} :
    proofsByHash audit h = some p ↔ p ∈ audit.proofs ∧ p.proofHash = h := by
  rw [proofsByHash]
  constructor
  · intro hp
    exact ⟨List.mem_reverse.mp (List.mem_of_find?_eq_some hp), by simpa using List.find?_some hp⟩
  · rintro ⟨hp, rfl⟩
    obtain ⟨q, hq⟩ := Option.isSome_iff_exists.mp (List.find?_isSome.mpr
      ⟨p, List.mem_reverse.mpr hp, decide_eq_true rfl⟩ :
        (audit.proofs.reverse.find? fun x => x.proofHash = p.proofHash).isSome)
    have hmem := List.mem_reverse.mp (List.mem_of_find?_eq_some hq)
    have heq : q.proofHash = p.proofHash := by simpa using List.find?_some hq
    rw [hq, List.inj_on_of_nodup_map audit.unique hmem hp heq]

lemma proof_ext {p q : ObservedProof} (hp : p ∈ audit.proofs) (hq : q ∈ audit.proofs)
    (h : p.proofHash = q.proofHash) : p = q :=
  List.inj_on_of_nodup_map audit.unique hp hq h

lemma partitionOf_mem {h : Str} {p : ChainPartition} (hp : partitionOf audit h = some p) :
    p ∈ audit.partitions := List.mem_of_find?_eq_some hp

/-! ### Directed paths -/

/-- A directed `prevB64` path through members of the partition leads from the second recording
up to the first. -/
def DirectedPath (audit : AuditResult) (partition : ChainPartition) :
    ObservedProof → ObservedProof → Prop :=
  Search.Above (parent partition (chainHashIndex audit partition))

lemma DirectedPath.trans {partition : ChainPartition} {a b c : ObservedProof}
    (h : DirectedPath audit partition a b) (h' : DirectedPath audit partition b c) :
    DirectedPath audit partition a c := Search.Above.trans h h'

lemma parent_mem {partition : ChainPartition} {p q : ObservedProof}
    (h : parent partition (chainHashIndex audit partition) q = some p) :
    p ∈ audit.proofs ∧ p.proofHash ∈ partition.memberProofHashes := by
  obtain ⟨prev, -, hfilter⟩ := Option.bind_eq_some_iff.mp h
  obtain ⟨hindex, hmember⟩ := Option.filter_eq_some_iff.mp hfilter
  refine ⟨?_, by simpa using hmember⟩
  obtain ⟨m, -, hm⟩ := List.mem_filterMap.mp
    (List.mem_reverse.mp (List.mem_of_find?_eq_some hindex))
  exact (proofsByHash_eq_some.mp hm).1

lemma DirectedPath.observed {partition : ChainPartition} {a d : ObservedProof}
    (h : DirectedPath audit partition a d) : a ∈ audit.proofs := by
  obtain ⟨y, hy, -⟩ := Relation.TransGen.head'_iff.mp h
  exact (parent_mem hy).1

/-- **The walk up the links** ends on every link graph and finds the directed paths. -/
theorem isDirectedAncestor_iff {partition : ChainPartition} {a d : ObservedProof}
    (ha : a ∈ audit.proofs) :
    isDirectedAncestor a d partition (chainHashIndex audit partition) = true
      ↔ DirectedPath audit partition a d := by
  have hends : (Search.climb ObservedProof.proofHash
      (parent partition (chainHashIndex audit partition)) a.proofHash
      (partition.memberProofHashes.length + 1) [] d).isSome = true :=
    Search.climb_isSome (U := partition.memberProofHashes.toFinset)
      (fun u v h => List.mem_toFinset.mpr (parent_mem h).2)
      (Nat.lt_succ_of_le (List.toFinset_card_le _)) d
  obtain ⟨b, hb⟩ := Option.isSome_iff_exists.mp hends
  rw [isDirectedAncestor, hb, Option.getD_some,
    Search.climb_iff (fun _ _ _ _ h h' => proof_ext (parent_mem h).1 (parent_mem h').1) hb]
  constructor
  · rintro ⟨g, hg, habove⟩
    rw [← proof_ext (DirectedPath.observed habove) ha hg]
    exact habove
  · exact fun h => ⟨a, rfl, h⟩

/-! ### Chains of edges -/

/-- A hard edge whose predecessor is the observed recording `pred`. -/
structure Hop (audit : AuditResult) (edge : EpochLineageEdge) (pred : ObservedProof) : Prop where
  mem : edge ∈ audit.edges
  hard : edge.hardEdge = true
  names : edge.predecessorProofHash = some pred.proofHash
  observed : pred ∈ audit.proofs

/-- A finite chain of hard edges from one partition to another, with the first predecessor. -/
inductive Lineage (audit : AuditResult) : ChainPartition → ObservedProof → ChainPartition → Prop
  | last {edge : EpochLineageEdge} {pred : ObservedProof} {P Q : ChainPartition}
      (hop : Hop audit edge pred) (hpred : partitionOf audit pred.proofHash = some P)
      (hvia : partitionOf audit edge.viaProofHash = some Q) : Lineage audit P pred Q
  | cons {edge : EpochLineageEdge} {pred next : ObservedProof} {P R Q : ChainPartition}
      (hop : Hop audit edge pred) (hpred : partitionOf audit pred.proofHash = some P)
      (hvia : partitionOf audit edge.viaProofHash = some R) (rest : Lineage audit R next Q) :
      Lineage audit P pred Q

lemma Lineage.append {P Q R : ChainPartition} {p q : ObservedProof}
    (h : Lineage audit P p Q) (h' : Lineage audit Q q R) : Lineage audit P p R := by
  induction h with
  | last hop hpred hvia => exact .cons hop hpred hvia h'
  | cons hop hpred hvia _ ih => exact .cons hop hpred hvia (ih h')

/-- The predecessor is the recording or hangs below it. -/
def HashCovered (audit : AuditResult) (partition : ChainPartition) (a pred : ObservedProof) :
    Prop := pred = a ∨ DirectedPath audit partition a pred

/-- The predecessor has a strictly larger counter. -/
def CounterCovered (a pred : ObservedProof) : Prop :=
  ∃ ca ∈ parseCounter a.counter, ∃ cp ∈ parseCounter pred.counter, ca < cp

/-- A recording below a covered one's cover is covered. -/
lemma HashCovered.below {partition : ChainPartition} {a b pred : ObservedProof}
    (h : HashCovered audit partition b pred) (hab : DirectedPath audit partition a b) :
    HashCovered audit partition a pred := by
  rcases h with rfl | h
  · exact Or.inr hab
  · exact Or.inr (hab.trans h)

lemma mem_hardEdges {edge : EpochLineageEdge} {pred : ObservedProof} :
    (edge ∈ hardEdges audit ∧ edge.predecessorProofHash.bind (proofsByHash audit) = some pred)
      ↔ Hop audit edge pred := by
  rw [hardEdges, List.mem_filter, Option.bind_eq_some_iff, Bool.and_eq_true]
  constructor
  · rintro ⟨⟨hmem, hhard, -⟩, h, hnames, hproof⟩
    obtain ⟨hobs, rfl⟩ := proofsByHash_eq_some.mp hproof
    exact ⟨hmem, hhard, hnames, hobs⟩
  · rintro ⟨hmem, hhard, hnames, hobs⟩
    exact ⟨⟨hmem, hhard, by rw [hnames]; rfl⟩, pred.proofHash, hnames,
      proofsByHash_eq_some.mpr ⟨hobs, rfl⟩⟩

lemma hashCovered_iff {a pred : ObservedProof} {partA : ChainPartition}
    (ha : a ∈ audit.proofs) (hpred : pred ∈ audit.proofs) :
    (pred.proofHash = a.proofHash
        ∨ isDirectedAncestor a pred partA (chainHashIndex audit partA) = true)
      ↔ HashCovered audit partA a pred := by
  have hself : pred.proofHash = a.proofHash ↔ pred = a :=
    ⟨proof_ext hpred ha, congrArg _⟩
  rw [hself, isDirectedAncestor_iff ha, HashCovered]

/-- The tier of a hop out of `a`'s partition. -/
lemma hopTier_eq {a pred : ObservedProof} {partA : ChainPartition}
    (ha : a ∈ audit.proofs) (hpred : pred ∈ audit.proofs) {tier : EvidenceTier} :
    hopTier a partA audit pred = some tier
      ↔ (tier = .hashLinked ∧ HashCovered audit partA a pred)
        ∨ (tier = .assumptionDependent ∧ ¬ HashCovered audit partA a pred
            ∧ CounterCovered a pred) := by
  have hcov := @hashCovered_iff audit a pred partA ha hpred
  by_cases h : HashCovered audit partA a pred
  · rw [hopTier, if_pos (hcov.mpr h)]
    simp [h, eq_comm]
  · rw [hopTier, if_neg (mt hcov.mp h), CounterCovered]
    cases parseCounter a.counter with
    | none => simp [h]
    | some ca =>
        cases parseCounter pred.counter with
        | none => simp [h]
        | some cp => simp [h, and_comm, eq_comm]

/-! ### Hops between keys -/

lemma mem_nextHops {key via : Str} :
    via ∈ nextHops audit key ↔ ∃ edge pred P Q, Hop audit edge pred
      ∧ partitionOf audit pred.proofHash = some P ∧ partitionKeyOf P = key
      ∧ partitionOf audit edge.viaProofHash = some Q ∧ partitionKeyOf Q = via := by
  rw [nextHops, List.mem_filterMap]
  constructor
  · rintro ⟨edge, hedge, h⟩
    obtain ⟨pred, hpred, h⟩ := Option.bind_eq_some_iff.mp h
    obtain ⟨P, hP, h⟩ := Option.bind_eq_some_iff.mp h
    split_ifs at h with hkey
    obtain ⟨Q, hQ, h⟩ := Option.bind_eq_some_iff.mp h
    exact ⟨edge, pred, P, Q, mem_hardEdges.mp ⟨hedge, hpred⟩, hP, not_not.mp hkey, hQ,
      Option.some.inj h⟩
  · rintro ⟨edge, pred, P, Q, hop, hP, rfl, hQ, rfl⟩
    obtain ⟨hedge, hpred⟩ := mem_hardEdges.mpr hop
    refine ⟨edge, hedge, ?_⟩
    simp [hpred, hP, hQ]

lemma mem_firstHops {a : ObservedProof} {partA : ChainPartition} {via : Str}
    {tier : EvidenceTier} :
    (via, tier) ∈ firstHops a partA audit ↔ ∃ edge pred Q, Hop audit edge pred
      ∧ partitionOf audit pred.proofHash = some partA ∧ hopTier a partA audit pred = some tier
      ∧ partitionOf audit edge.viaProofHash = some Q ∧ partitionKeyOf Q = via := by
  rw [firstHops, List.mem_filterMap]
  constructor
  · rintro ⟨edge, hedge, h⟩
    obtain ⟨pred, hpred, h⟩ := Option.bind_eq_some_iff.mp h
    obtain ⟨P, hP, h⟩ := Option.bind_eq_some_iff.mp h
    split_ifs at h with hpart
    obtain ⟨t, ht, h⟩ := Option.bind_eq_some_iff.mp h
    obtain ⟨Q, hQ, h⟩ := Option.bind_eq_some_iff.mp h
    cases h
    exact ⟨edge, pred, Q, mem_hardEdges.mp ⟨hedge, hpred⟩, not_not.mp hpart ▸ hP, ht, hQ, rfl⟩
  · rintro ⟨edge, pred, Q, hop, hP, ht, hQ, rfl⟩
    obtain ⟨hedge, hpred⟩ := mem_hardEdges.mpr hop
    refine ⟨edge, hedge, ?_⟩
    simp [hpred, hP, hQ, ht]

lemma keyValue_isJson (key : PartitionKey) : (keyValue key).isJson = true := by
  rw [keyValue, Value.isJson, Bool.and_eq_true, decide_eq_true_iff, Fields.ordered_iff,
    Value.isJsonFields_iff]
  cases key.epochId with
  | none =>
      refine ⟨?_, by simp [Value.isJson]⟩
      show [js "publicKeyB64", js "chainId"].Pairwise KeyBefore
      decide
  | some e =>
      refine ⟨?_, by simp [Value.isJson]⟩
      show [js "publicKeyB64", js "epochId", js "chainId"].Pairwise KeyBefore
      decide

/-- A partition's text names its key. -/
lemma partitionKeyOf_injective {P Q : ChainPartition} (h : partitionKeyOf P = partitionKeyOf Q) :
    P.key = Q.key := by
  obtain ⟨t, ht, -⟩ := parse_serialize_jsonForm (keyValue_isJson P.key)
  obtain ⟨u, hu, -⟩ := parse_serialize_jsonForm (keyValue_isJson Q.key)
  have htext : (keyValue P.key).serialize = (keyValue Q.key).serialize := by
    rw [partitionKeyOf, partitionKeyOf, ht, hu, Option.getD_some, Option.getD_some] at h
    rw [ht, hu, h]
  have hform := jsonForm_eq_of_serialize (keyValue_isJson P.key) (keyValue_isJson Q.key) htext
  obtain ⟨⟨pk, ep, ch⟩, _⟩ := P
  obtain ⟨⟨pk', ep', ch'⟩, _⟩ := Q
  cases ep <;> cases ep' <;>
    simpa [keyValue, Value.jsonForm, Value.jsonFormFields] using hform

/-- Two partitions of an audit with one text are one partition. -/
lemma partition_ext {P Q : ChainPartition} (hP : P ∈ audit.partitions) (hQ : Q ∈ audit.partitions)
    (h : partitionKeyOf P = partitionKeyOf Q) : P = Q :=
  List.inj_on_of_nodup_map audit.keyed hP hQ (partitionKeyOf_injective h)

/-! ### The search -/

/-- The loop is the worklist search over partition keys. -/
lemma lineageLoop_eq_search (targetKey : Str) (fuel : ℕ) (queue : List (Str × EvidenceTier))
    (seen : Str → Option EvidenceTier) (best : Option EvidenceTier) :
    lineageLoop audit targetKey fuel queue seen best
      = Search.search (nextHops audit) targetKey fuel queue seen best := by
  induction fuel generalizing queue seen best with
  | zero => rfl
  | succ fuel ih =>
      cases queue with
      | nil => rfl
      | cons e queue =>
          obtain ⟨key, tier⟩ := e
          have hskip : (seen key = some .hashLinked ∨ seen key = some tier)
              ↔ ∃ t ∈ seen key, tier ≤ t := by
            cases hs : seen key with
            | none => simp
            | some t => simp [EvidenceTier.le_iff]
          have hbest : (if best = none ∨ tier = .hashLinked then some tier else best)
              = some (Search.better best tier) := by
            cases best with
            | none => rfl
            | some t => cases t <;> cases tier <;> decide
          rw [lineageLoop, Search.search]
          dsimp only
          by_cases hseen : seen key = some .hashLinked ∨ seen key = some tier
          · rw [if_pos hseen, if_pos (hskip.mp hseen)]
            exact ih _ _ _
          · rw [if_neg hseen, if_neg (mt hskip.mpr hseen)]
            have hnote : seen key = none ∨ tier = .hashLinked := by
              cases hs : seen key with
              | none => exact Or.inl rfl
              | some t =>
                  rw [hs] at hseen
                  exact Or.inr (EvidenceTier.eq_hashLinked hseen)
            rw [if_pos hnote, hbest]
            have htop : some (Search.better best tier) = some EvidenceTier.hashLinked
                ↔ Search.better best tier = ⊤ := Option.some_inj
            by_cases hkey : key = targetKey
            · rw [if_pos hkey, if_pos hkey]
              by_cases hbetter : Search.better best tier = ⊤
              · rw [if_pos (htop.mpr hbetter), if_pos hbetter]
              · rw [if_neg (mt htop.mp hbetter), if_neg hbetter]
                exact ih _ _ _
            · rw [if_neg hkey, if_neg hkey]
              exact ih _ _ _

/-- The search is never short of rounds. -/
lemma lineageLoop_isSome (a : ObservedProof) (partA : ChainPartition) (targetKey : Str) :
    (lineageLoop audit targetKey (lineageFuel audit) (firstHops a partA audit)
      (fun _ => none) none).isSome = true := by
  rw [lineageLoop_eq_search]
  have hmem : ∀ {h : Str} {P : ChainPartition}, partitionOf audit h = some P →
      partitionKeyOf P ∈ (audit.partitions.map partitionKeyOf).toFinset := fun hP =>
    List.mem_toFinset.mpr (List.mem_map_of_mem (partitionOf_mem hP))
  have hedges : (hardEdges audit).length ≤ audit.edges.length := List.length_filter_le _ _
  refine Search.search_isSome (U := (audit.partitions.map partitionKeyOf).toFinset)
    (d := audit.edges.length) (fun n m hm => ?_)
    (fun n => (List.length_filterMap_le _ _).trans hedges) (fun n s hn => ?_) ?_
  · obtain ⟨_, _, _, _, -, -, -, hQ, rfl⟩ := mem_nextHops.mp hm
    exact hmem hQ
  · obtain ⟨_, _, _, -, -, -, hQ, rfl⟩ := mem_firstHops.mp hn
    exact hmem hQ
  · have hcard : (audit.partitions.map partitionKeyOf).toFinset.card ≤ audit.partitions.length :=
      (List.toFinset_card_le _).trans_eq (List.length_map _)
    have hinit : (firstHops a partA audit).length ≤ audit.edges.length :=
      (List.length_filterMap_le _ _).trans hedges
    have hmul := Nat.mul_le_mul_right (2 * (audit.edges.length + 1)) hcard
    rw [lineageFuel, show Fintype.card EvidenceTier = 2 from rfl, mul_assoc, mul_assoc]
    omega

/-- With more rounds the search answers the same. -/
lemma lineageLoop_eq {a : ObservedProof} {partA partB : ChainPartition} {fuel : ℕ}
    (h : lineageFuel audit ≤ fuel) :
    lineageLoop audit (partitionKeyOf partB) fuel (firstHops a partA audit) (fun _ => none) none
      = some (lineagePrecedes a partA partB audit) := by
  obtain ⟨r, hr⟩ := Option.isSome_iff_exists.mp
    (@lineageLoop_isSome audit a partA (partitionKeyOf partB))
  obtain ⟨more, rfl⟩ := Nat.exists_eq_add_of_le h
  rw [lineagePrecedes, hr, lineageLoop_eq_search, Option.getD_some]
  rw [lineageLoop_eq_search] at hr
  exact Search.search_mono more hr

/-- A route between keys is a chain between partitions. -/
lemma lineage_of_path {P Q : ChainPartition} (hP : P ∈ audit.partitions)
    (hQ : Q ∈ audit.partitions)
    (h : Relation.ReflTransGen (fun u v => v ∈ nextHops audit u) (partitionKeyOf P)
      (partitionKeyOf Q)) : P = Q ∨ ∃ pred, Lineage audit P pred Q := by
  generalize hkey : partitionKeyOf P = key at h
  induction h using Relation.ReflTransGen.head_induction_on generalizing P with
  | refl => exact Or.inl (partition_ext hP hQ hkey)
  | head hstep _ ih =>
      obtain ⟨edge, pred, P', R, hop, hP', hkey', hR, hnext⟩ := mem_nextHops.mp hstep
      obtain rfl : P' = P := partition_ext (partitionOf_mem hP') hP (hkey'.trans hkey.symm)
      refine Or.inr ⟨pred, ?_⟩
      rcases ih (partitionOf_mem hR) hnext with rfl | ⟨next, hrest⟩
      · exact .last hop hP' hR
      · exact .cons hop hP' hR hrest

lemma Lineage.path {P Q : ChainPartition} {pred : ObservedProof} (h : Lineage audit P pred Q) :
    Relation.ReflTransGen (fun u v => v ∈ nextHops audit u) (partitionKeyOf P)
      (partitionKeyOf Q) := by
  induction h with
  | last hop hpred hvia =>
      exact .single (mem_nextHops.mpr ⟨_, _, _, _, hop, hpred, rfl, hvia, rfl⟩)
  | cons hop hpred hvia _ ih =>
      exact .head (mem_nextHops.mpr ⟨_, _, _, _, hop, hpred, rfl, hvia, rfl⟩) ih

/-- The routes of the search are the chains of edges with a covered first predecessor. -/
lemma reaches_iff {a : ObservedProof} {partA partB : ChainPartition} {tier : EvidenceTier}
    (hB : partB ∈ audit.partitions) :
    Search.Reaches (nextHops audit) (firstHops a partA audit) (partitionKeyOf partB) tier
      ↔ ∃ pred, Lineage audit partA pred partB ∧ hopTier a partA audit pred = some tier := by
  constructor
  · rintro ⟨via, hfirst, hpath⟩
    obtain ⟨edge, pred, R, hop, hpred, htier, hR, rfl⟩ := mem_firstHops.mp hfirst
    refine ⟨pred, ?_, htier⟩
    rcases lineage_of_path (partitionOf_mem hR) hB hpath with rfl | ⟨next, hrest⟩
    · exact .last hop hpred hR
    · exact .cons hop hpred hR hrest
  · rintro ⟨pred, hline, htier⟩
    cases hline with
    | last hop hpred hvia =>
        exact ⟨_, mem_firstHops.mpr ⟨_, _, _, hop, hpred, htier, hvia, rfl⟩, .refl⟩
    | cons hop hpred hvia hrest =>
        exact ⟨_, mem_firstHops.mpr ⟨_, _, _, hop, hpred, htier, hvia, rfl⟩, hrest.path⟩

lemma Lineage.observed {P Q : ChainPartition} {pred : ObservedProof}
    (h : Lineage audit P pred Q) : pred ∈ audit.proofs := by
  cases h with
  | last hop _ _ => exact hop.observed
  | cons hop _ _ _ => exact hop.observed

/-- Hash-linked evidence: a chain whose first predecessor the links cover. -/
def HashLineage (audit : AuditResult) (a : ObservedProof) (partA partB : ChainPartition) : Prop :=
  ∃ pred, Lineage audit partA pred partB ∧ HashCovered audit partA a pred

/-- Evidence from counters: a chain whose first predecessor has a larger counter. -/
def CounterLineage (audit : AuditResult) (a : ObservedProof) (partA partB : ChainPartition) :
    Prop :=
  ∃ pred, Lineage audit partA pred partB ∧ CounterCovered a pred

lemma lineagePrecedes_eq_hashLinked {a : ObservedProof} {partA partB : ChainPartition}
    (ha : a ∈ audit.proofs) (hB : partB ∈ audit.partitions) :
    lineagePrecedes a partA partB audit = some .hashLinked ↔ HashLineage audit a partA partB := by
  have hrun := @lineageLoop_eq audit a partA partB _ le_rfl
  rw [lineageLoop_eq_search] at hrun
  obtain ⟨hsound, hbest⟩ := Search.search_spec hrun
  constructor
  · intro h
    obtain ⟨pred, hline, htier⟩ := (reaches_iff hB).mp (hsound _ h)
    rcases (hopTier_eq ha hline.observed).mp htier with ⟨-, hcov⟩ | ⟨hne, -⟩
    · exact ⟨pred, hline, hcov⟩
    · cases hne
  · rintro ⟨pred, hline, hcov⟩
    obtain ⟨t, ht, hle⟩ := hbest .hashLinked ((reaches_iff hB).mpr ⟨pred, hline,
      (hopTier_eq ha hline.observed).mpr (Or.inl ⟨rfl, hcov⟩)⟩)
    rw [Option.mem_def.mp ht, EvidenceTier.top_le_iff.mp hle]

lemma lineagePrecedes_isSome {a : ObservedProof} {partA partB : ChainPartition}
    (ha : a ∈ audit.proofs) (hB : partB ∈ audit.partitions) :
    (∃ tier, lineagePrecedes a partA partB audit = some tier)
      ↔ HashLineage audit a partA partB ∨ CounterLineage audit a partA partB := by
  have hrun := @lineageLoop_eq audit a partA partB _ le_rfl
  rw [lineageLoop_eq_search] at hrun
  obtain ⟨hsound, hbest⟩ := Search.search_spec hrun
  constructor
  · rintro ⟨tier, h⟩
    obtain ⟨pred, hline, htier⟩ := (reaches_iff hB).mp (hsound _ h)
    rcases (hopTier_eq ha hline.observed).mp htier with ⟨-, hcov⟩ | ⟨-, -, hcov⟩
    · exact Or.inl ⟨pred, hline, hcov⟩
    · exact Or.inr ⟨pred, hline, hcov⟩
  · rintro (h | ⟨pred, hline, hcov⟩)
    · exact ⟨_, (lineagePrecedes_eq_hashLinked ha hB).mpr h⟩
    · by_cases hhash : HashCovered audit partA a pred
      · exact ⟨_, (lineagePrecedes_eq_hashLinked ha hB).mpr ⟨pred, hline, hhash⟩⟩
      · obtain ⟨t, ht, -⟩ := hbest .assumptionDependent ((reaches_iff hB).mpr ⟨pred, hline,
          (hopTier_eq ha hline.observed).mpr (Or.inr ⟨rfl, hhash, hcov⟩)⟩)
        exact ⟨t, ht⟩

/-- A recording signed by the key `k` in the epoch `e`. -/
def sampleProof (name : Str) (counter prevB64 : Option Str) (e k : Str) : ObservedProof where
  proofHash := name
  chainHash := js "chain-" ++ name
  counter := counter
  slotCounter := none
  prevB64 := prevB64
  epochId := some e
  chainId := js "global"
  publicKeyB64 := some k
  chainless := false

/-- The last recording of an epoch, and its first. -/
def firstEpoch : List ObservedProof :=
  [sampleProof (js "a") (some (js "1")) none (js "e1") (js "k1"),
    sampleProof (js "b") (some (js "2")) (some (js "chain-a")) (js "e1") (js "k1")]

/-- The first recording of the next epoch. -/
def secondEpoch : List ObservedProof :=
  [sampleProof (js "c") (some (js "1")) none (js "e2") (js "k2")]

/-- Two epochs, the second linked to the end of the first. -/
def twoEpochs : AuditResult :=
  .ofFiles (firstEpoch ++ secondEpoch) [⟨js "c", some (js "b"), true⟩] []

/-- **The search is the definition.** For recordings of two partitions it ends, answers
hash-linked exactly when a chain of hard edges starts at the recording or below it by links,
answers assumption-dependent exactly when no such chain exists but one starts at a larger
counter, and answers nothing otherwise. -/
theorem lineagePrecedes_iff (audit : AuditResult) {a b : ObservedProof}
    {partA partB : ChainPartition} (ha : a ∈ audit.proofs) (_hb : b ∈ audit.proofs)
    (_hA : partitionOf audit a.proofHash = some partA)
    (hB : partitionOf audit b.proofHash = some partB) (_hne : partA ≠ partB) :
    (∀ fuel, lineageFuel audit ≤ fuel →
        lineageLoop audit (partitionKeyOf partB) fuel (firstHops a partA audit)
          (fun _ => none) none = some (lineagePrecedes a partA partB audit))
      ∧ (lineagePrecedes a partA partB audit = some .hashLinked
          ↔ HashLineage audit a partA partB)
      ∧ (lineagePrecedes a partA partB audit = some .assumptionDependent
          ↔ ¬ HashLineage audit a partA partB ∧ CounterLineage audit a partA partB)
      ∧ (lineagePrecedes a partA partB audit = none
          ↔ ¬ HashLineage audit a partA partB ∧ ¬ CounterLineage audit a partA partB) := by
  have hhash := @lineagePrecedes_eq_hashLinked audit a partA partB ha (partitionOf_mem hB)
  have hsome := @lineagePrecedes_isSome audit a partA partB ha (partitionOf_mem hB)
  refine ⟨fun fuel hfuel => lineageLoop_eq hfuel, hhash, ?_, ?_⟩
  · rw [← hhash]
    constructor
    · intro h
      have hnot : lineagePrecedes a partA partB audit ≠ some .hashLinked := by
        rw [h]
        decide
      exact ⟨hnot, (hsome.mp ⟨_, h⟩).resolve_left (mt hhash.mpr hnot)⟩
    · rintro ⟨hnot, hcounter⟩
      obtain ⟨tier, ht⟩ := hsome.mpr (Or.inr hcounter)
      cases tier with
      | assumptionDependent => exact ht
      | hashLinked => exact absurd ht hnot
  · rw [← not_or, ← hsome, ← Option.ne_none_iff_exists', not_not]

/-- The first recording precedes the next epoch by hash links. -/
theorem lineagePrecedes_iff_twoEpochs :
    ∃ a b partA partB, a ∈ twoEpochs.proofs ∧ b ∈ twoEpochs.proofs
      ∧ partitionOf twoEpochs a.proofHash = some partA
      ∧ partitionOf twoEpochs b.proofHash = some partB
      ∧ HashLineage twoEpochs a partA partB := by
  have ha : firstEpoch[0] ∈ twoEpochs.proofs := by decide
  have hb : secondEpoch[0] ∈ twoEpochs.proofs := by decide
  have hA : partitionOf twoEpochs firstEpoch[0].proofHash
      = some ⟨⟨js "k1", some (js "e1"), js "global"⟩, [js "a", js "b"]⟩ := by decide
  have hB : partitionOf twoEpochs secondEpoch[0].proofHash
      = some ⟨⟨js "k2", some (js "e2"), js "global"⟩, [js "c"]⟩ := by decide
  exact ⟨_, _, _, _, ha, hb, hA, hB,
    (lineagePrecedes_iff twoEpochs ha hb hA hB (by decide)).2.1.mp (by decide)⟩

end Player

end BitGraph
