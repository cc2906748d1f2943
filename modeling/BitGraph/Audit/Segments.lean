import BitGraph.Audit.TemporalBounds
import BitGraph.Js.IntText

/-!
A segment carries the bounds of each of its members, over whole audits.

* **Texts.** `joinComma_inj` and `boundText_inj`: a set of bounds is read back from its key.
* **Segments.** `segment_bounds`: grouped members have one set of bounds.
* **Input.** `TemporalInput` holds what ingest and the floors promise: distinct base64 hashes,
  and floors under the hashes that sign them.
* `temporalBounds_exact` puts the passes, the selection and the segments together for every audit
  without a cycle of links.
-/

namespace BitGraph

open Js Search Best

namespace Audit

namespace Temporal

/-! ### Texts -/

lemma notMem_joinComma {c : UInt16} (hc : c ≠ 44) {l : List Str} (h : ∀ t ∈ l, c ∉ t) :
    c ∉ joinComma l := by
  induction l using joinComma.induct with
  | case1 => exact List.not_mem_nil
  | case2 t => exact h t List.mem_cons_self
  | case3 t u l ih =>
      rw [joinComma, List.mem_append, List.mem_cons, not_or, not_or]
      exact ⟨h t List.mem_cons_self, hc, ih fun v hv => h v (List.mem_cons_of_mem _ hv)⟩

/-- Texts without commas are read back from their list. -/
lemma joinComma_inj {l l' : List Str} (hl : ∀ t ∈ l, t ≠ [] ∧ (44 : UInt16) ∉ t)
    (hl' : ∀ t ∈ l', t ≠ [] ∧ (44 : UInt16) ∉ t) (h : joinComma l = joinComma l') : l = l' := by
  have hcomma : ∀ (t u v : Str) (rest : List Str), (44 : UInt16) ∉ t →
      t ≠ u ++ 44 :: joinComma (v :: rest) := by
    intro t u v rest ht heq
    rw [heq] at ht
    simp at ht
  induction l generalizing l' with
  | nil =>
      cases l' with
      | nil => rfl
      | cons t l' =>
          have ht := (hl' t List.mem_cons_self).1
          cases l' with
          | nil => exact absurd h.symm ht
          | cons u l' => simp [joinComma] at h
  | cons t l ih =>
      have ht := hl t List.mem_cons_self
      cases l' with
      | nil =>
          cases l with
          | nil => exact absurd h ht.1
          | cons u l => simp [joinComma] at h
      | cons t' l' =>
          have ht' := hl' t' List.mem_cons_self
          cases l with
          | nil =>
              cases l' with
              | nil => exact congrArg (fun s => [s]) h
              | cons u' l' => exact absurd h (hcomma t t' u' l' ht.2)
          | cons u l =>
              cases l' with
              | nil => exact absurd h.symm (hcomma t' t u l ht'.2)
              | cons u' l' =>
                  obtain ⟨rfl, hrest⟩ := append_cons_inj ht.2 ht'.2 h
                  rw [ih (fun v hv => hl v (List.mem_cons_of_mem _ hv))
                    (fun v hv => hl' v (List.mem_cons_of_mem _ hv)) hrest]

lemma evidenceText_inj {e e' : BoundEvidence} (h : evidenceText e = evidenceText e') : e = e' := by
  cases e <;> cases e' <;> first | rfl | exact absurd h (by decide)

lemma notMem_evidenceText (e : BoundEvidence) : (58 : UInt16) ∉ evidenceText e
    ∧ (44 : UInt16) ∉ evidenceText e ∧ (124 : UInt16) ∉ evidenceText e := by
  cases e <;> decide

/-- The text of a bound under a base64 hash: whether it is a floor, the hash, and how it reaches. -/
lemma boundText_eq (b : SegmentBound) : boundText b
    = (if b.floor.isSome then js "floor" ++ [58] else [])
      ++ (b.anchorProofHash ++ 58 :: evidenceText b.evidence) := by
  have hcolon : js ":" = [58] := rfl
  have hfloor : FLOOR_KEY = js "floor" ++ [58] := rfl
  rw [boundText, hcolon, hfloor]
  simp

lemma boundText_inj {b b' : SegmentBound} (hb : ∃ d, b.anchorProofHash = bytesToBase64 d)
    (hb' : ∃ d, b'.anchorProofHash = bytesToBase64 d) (h : boundText b = boundText b') :
    b.floor.isSome = b'.floor.isSome ∧ b.anchorProofHash = b'.anchorProofHash
      ∧ b.evidence = b'.evidence := by
  obtain ⟨d, hd⟩ := hb
  obtain ⟨d', hd'⟩ := hb'
  have hfloor : (58 : UInt16) ∉ js "floor" := by decide
  have hcolon : ∀ d, (58 : UInt16) ∉ bytesToBase64 d := fun d => notMem_bytesToBase64 d rfl (by decide)
  rw [boundText_eq, boundText_eq, hd, hd'] at h
  rw [hd, hd']
  -- a text with one colon is no text with two
  have hmixed : ∀ e e' : BoundEvidence, ∀ d d' : Bytes,
      js "floor" ++ 58 :: (bytesToBase64 d ++ 58 :: evidenceText e)
        ≠ bytesToBase64 d' ++ 58 :: evidenceText e' := by
    intro e e' d d' heq
    have hrest := (append_cons_inj hfloor (hcolon d') heq).2
    refine (notMem_evidenceText e').1 ?_
    rw [← hrest]
    simp
  cases hf : b.floor.isSome with
  | true =>
      cases hf' : b'.floor.isSome with
      | true =>
          simp only [hf, hf', if_true, List.append_assoc, List.append_cancel_left_eq] at h
          obtain ⟨hhash, hev⟩ := append_cons_inj (hcolon d) (hcolon d') h
          exact ⟨rfl, hhash, evidenceText_inj hev⟩
      | false =>
          simp only [hf, hf', if_true, List.append_assoc, List.singleton_append, List.nil_append,
            Bool.false_eq_true, if_false] at h
          exact absurd h (hmixed _ _ _ _)
  | false =>
      cases hf' : b'.floor.isSome with
      | true =>
          simp only [hf, hf', if_true, List.append_assoc, List.singleton_append, List.nil_append,
            Bool.false_eq_true, if_false] at h
          exact absurd h.symm (hmixed _ _ _ _)
      | false =>
          simp only [hf, hf', Bool.false_eq_true, if_false, List.nil_append] at h
          obtain ⟨hhash, hev⟩ := append_cons_inj (hcolon d) (hcolon d') h
          exact ⟨rfl, hhash, evidenceText_inj hev⟩

lemma boundText_plain {b : SegmentBound} (hb : ∃ d, b.anchorProofHash = bytesToBase64 d) :
    boundText b ≠ [] ∧ (44 : UInt16) ∉ boundText b ∧ (124 : UInt16) ∉ boundText b := by
  obtain ⟨d, hd⟩ := hb
  obtain ⟨-, hcomma, hbar⟩ := notMem_evidenceText b.evidence
  have hcomma' : (44 : UInt16) ∉ bytesToBase64 d := notMem_bytesToBase64 d rfl (by decide)
  have hbar' : (124 : UInt16) ∉ bytesToBase64 d := notMem_bytesToBase64 d rfl (by decide)
  rw [boundText_eq, hd]
  refine ⟨by simp, ?_, ?_⟩
  · have hfloor : (44 : UInt16) ∉ js "floor" ++ [58] := by decide
    split <;> simp_all
  · have hfloor : (124 : UInt16) ∉ js "floor" ++ [58] := by decide
    split <;> simp_all

/-! ### Segments -/

section Segments

variable {members : List ObservedProof} {evidence : Evidence} {floors : Floors}
  {m m' : ObservedProof} {kind : BoundKind}

/-- An entry that stands under its key, and whose bound names the key. -/
structure Standing (members : List ObservedProof) (evidence : Evidence) (floors : Floors)
    (kind : BoundKind) (x : Entry) : Prop where
  info : (evidenceOf evidence floors members).get x.anchorHash = some x.info
  named : ∃ d, (makeBound kind x).anchorProofHash = bytesToBase64 d
  key : x.anchorHash = (if (makeBound kind x).floor.isSome then FLOOR_KEY else [])
    ++ (makeBound kind x).anchorProofHash
  kept : (makeBound kind x).evidence = x.evidenceKind

/-- Two entries of one partition with one text are one. -/
lemma Standing.eq_of_text {x x' : Entry} (h : Standing members evidence floors kind x)
    (h' : Standing members evidence floors kind x')
    (htext : boundText (makeBound kind x) = boundText (makeBound kind x')) : x = x' := by
  obtain ⟨hfloor, hhash, hev⟩ := boundText_inj h.named h'.named htext
  have hkey : x.anchorHash = x'.anchorHash := by rw [h.key, h'.key, hfloor, hhash]
  have hkind : x.evidenceKind = x'.evidenceKind := by rw [← h.kept, ← h'.kept, hev]
  have hinfo : x.info = x'.info := by
    have hget := h.info
    rw [hkey, h'.info] at hget
    exact (Option.some.inj hget).symm
  obtain ⟨k, e, info⟩ := x
  obtain ⟨k', e', info'⟩ := x'
  obtain rfl : k = k' := hkey
  obtain rfl : e = e' := hkind
  obtain rfl : info = info' := hinfo
  rfl

lemma makeBound_anchor {x : Entry} (h : x.info.floor = none) : makeBound kind x
    = ⟨kind, x.anchorHash, none, x.info.blockNumber, x.info.blockHash, x.info.timestamp,
        x.evidenceKind, x.evidenceKind = .counterOrder⟩ := by
  rw [makeBound, h]

/-- An anchor's entry. -/
lemma standing_anchor (h : Rooted members floors)
    (hev : ∀ k info, evidence.get k = some info → info.floor = none) {a : ObservedProof}
    (ha : a ∈ members) {info : VerifiedAnchorEvidence} (hinfo : evidence.get a.proofHash = some info)
    (e : BoundEvidence) : Standing members evidence floors kind ⟨a.proofHash, e, info⟩ where
  info := (get_evidenceOf_hash h ha).trans hinfo
  named := by
    rw [makeBound_anchor (hev _ _ hinfo)]
    exact h.hashed a ha
  key := by
    rw [makeBound_anchor (hev _ _ hinfo)]
    rfl
  kept := by rw [makeBound_anchor (hev _ _ hinfo)]

/-- A floor's entry. -/
lemma standing_floor (h : Rooted members floors) {a : ObservedProof} (ha : a ∈ members)
    {f : FloorEvidence} (hget : floors.get a.proofHash = some f) (e : BoundEvidence) :
    Standing members evidence floors kind ⟨FLOOR_KEY ++ f.proofHash, e, floorSource f⟩ where
  info := get_evidenceOf_floor h ha hget
  named := by
    obtain ⟨d, hd⟩ := h.hashed a ha
    exact ⟨d, (h.keyed _ f hget).trans hd⟩
  key := rfl
  kept := rfl

lemma standing_of_mem_lower (h : Rooted members floors)
    (hev : ∀ k info, evidence.get k = some info → info.floor = none) (hm : m ∈ members) {x : Entry}
    (hx : x ∈ entriesOf (evidenceOf evidence floors members)
      (lowerCandidates evidence floors members m)) : Standing members evidence floors kind x := by
  obtain ⟨hget, hinfo⟩ := (mem_entriesOf lowerCandidates_keyed).mp hx
  obtain ⟨k, e, info⟩ := x
  rcases lowerCandidates_cases h.unique hm hget with ⟨a, ha, hk, -⟩ | ⟨f, hk, a, ha, hf⟩
  · obtain rfl : a.proofHash = k := hk
    have hmem := (mem_anchorsOf.mp ha).1
    rw [get_evidenceOf_hash h hmem] at hinfo
    exact standing_anchor h hev hmem hinfo e
  · obtain rfl : FLOOR_KEY ++ f.proofHash = k := hk
    rw [get_evidenceOf_floor h ha hf] at hinfo
    obtain rfl : floorSource f = info := Option.some.inj hinfo
    exact standing_floor h ha hf e

lemma standing_of_mem_upper (h : Rooted members floors)
    (hev : ∀ k info, evidence.get k = some info → info.floor = none) {x : Entry}
    (hx : x ∈ entriesOf (evidenceOf evidence floors members)
      (upperCandidates members (anchorsOf evidence members) m)) :
    Standing members evidence floors kind x := by
  obtain ⟨hget, hinfo⟩ := (mem_entriesOf upperCandidates_keyed).mp hx
  obtain ⟨k, e, info⟩ := x
  obtain ⟨a, ha, hk, -⟩ := (get_upperCandidates_eq h.unique).mp hget
  obtain rfl : a.proofHash = k := hk
  have hmem := (mem_anchorsOf.mp ha).1
  rw [get_evidenceOf_hash h hmem] at hinfo
  exact standing_anchor h hev hmem hinfo e

lemma map_inj_on {α β : Type*} {f : α → β} {l l' : List α}
    (hf : ∀ x ∈ l, ∀ y ∈ l', f x = f y → x = y) (h : l.map f = l'.map f) : l = l' := by
  induction l generalizing l' with
  | nil => exact (List.map_eq_nil_iff.mp h.symm).symm
  | cons x l ih =>
      cases l' with
      | nil => cases h
      | cons y l' =>
          obtain ⟨hxy, hrest⟩ := List.cons.inj h
          rw [hf x List.mem_cons_self y List.mem_cons_self hxy,
            ih (fun u hu v hv => hf u (List.mem_cons_of_mem _ hu) v (List.mem_cons_of_mem _ hv)) hrest]

/-- Two lists of bounds of one partition with one text are one. -/
lemma bounds_inj {bounds bounds' : List SegmentBound}
    (h : ∀ b ∈ bounds, ∃ x, Standing members evidence floors kind x ∧ b = makeBound kind x)
    (h' : ∀ b ∈ bounds', ∃ x, Standing members evidence floors kind x ∧ b = makeBound kind x)
    (htext : joinComma (bounds.map boundText) = joinComma (bounds'.map boundText)) :
    bounds = bounds' := by
  have hplain : ∀ {l : List SegmentBound},
      (∀ b ∈ l, ∃ x, Standing members evidence floors kind x ∧ b = makeBound kind x) →
      ∀ t ∈ l.map boundText, t ≠ [] ∧ (44 : UInt16) ∉ t := by
    intro l hl t ht
    obtain ⟨b, hb, rfl⟩ := List.mem_map.mp ht
    obtain ⟨x, hx, rfl⟩ := hl b hb
    exact ⟨(boundText_plain hx.named).1, (boundText_plain hx.named).2.1⟩
  refine map_inj_on (fun b hb b' hb' heq => ?_) (joinComma_inj (hplain h) (hplain h') htext)
  obtain ⟨x, hx, rfl⟩ := h b hb
  obtain ⟨x', hx', rfl⟩ := h' b' hb'
  rw [hx.eq_of_text hx' heq]

/-- What stands at a key before the bar has no bar. -/
lemma bar_notMem {bounds : List SegmentBound}
    (h : ∀ b ∈ bounds, ∃ x, Standing members evidence floors kind x ∧ b = makeBound kind x) :
    (124 : UInt16) ∉ joinComma (bounds.map boundText) := by
  refine notMem_joinComma (by decide) fun t ht => ?_
  obtain ⟨b, hb, rfl⟩ := List.mem_map.mp ht
  obtain ⟨x, hx, rfl⟩ := h b hb
  exact (boundText_plain hx.named).2.2

/-- **One key, one set of bounds.** -/
theorem boundSetKey_inj (h : Rooted members floors)
    (hev : ∀ k info, evidence.get k = some info → info.floor = none) (hm : m ∈ members)
    (hm' : m' ∈ members)
    (hkey : boundSetKey (memberBounds evidence floors members m)
      = boundSetKey (memberBounds evidence floors members m')) :
    (memberBounds evidence floors members m).lower = (memberBounds evidence floors members m').lower
      ∧ (memberBounds evidence floors members m).upper
        = (memberBounds evidence floors members m').upper := by
  have hlower : ∀ {m : ObservedProof}, m ∈ members →
      ∀ b ∈ (memberBounds evidence floors members m).lower,
        ∃ x, Standing members evidence floors .notBefore x ∧ b = makeBound .notBefore x := by
    intro m hm b hb
    obtain ⟨x, hx, rfl⟩ := (selectBounds_selected _ _ _).exists_entry hb
    exact ⟨x, standing_of_mem_lower h hev hm hx, rfl⟩
  have hupper : ∀ {m : ObservedProof}, m ∈ members →
      ∀ b ∈ (memberBounds evidence floors members m).upper,
        ∃ x, Standing members evidence floors .notAfter x ∧ b = makeBound .notAfter x := by
    intro m hm b hb
    obtain ⟨x, hx, rfl⟩ := (selectBounds_selected _ _ _).exists_entry hb
    exact ⟨x, standing_of_mem_upper h hev hx, rfl⟩
  have hbar : js "|" = [124] := rfl
  rw [boundSetKey, boundSetKey, hbar, List.append_assoc, List.append_assoc] at hkey
  obtain ⟨hl, hu⟩ := append_cons_inj (bar_notMem (hlower hm)) (bar_notMem (hlower hm')) hkey
  exact ⟨bounds_inj (hlower hm) (hlower hm') hl, bounds_inj (hupper hm) (hupper hm') hu⟩

lemma mem_boundGroups {bounds : List MemberBounds} {k : Str} {g : List MemberBounds} :
    (k, g) ∈ boundGroups bounds
      ↔ g = bounds.filter (fun mb => boundSetKey mb = k) ∧ g ≠ [] := by
  have hkeyed : OrderedMap.Keyed (boundGroups bounds) :=
    OrderedMap.keyed_foldl (fun c mb hc => hc.set _ _) bounds List.nodup_nil
  rw [OrderedMap.mem_iff_get hkeyed, boundGroups, OrderedMap.get_foldl_push]
  split
  · next hnil => simp [hnil]
  · next hne =>
      simp only [OrderedMap.get_nil, Option.getD_none, List.nil_append, Option.some.injEq]
      constructor
      · rintro rfl
        exact ⟨rfl, hne⟩
      · rintro ⟨rfl, -⟩
        rfl

lemma mem_buildPartitionSegments {key : PartitionKey} {s : TemporalSegment} :
    s ∈ buildPartitionSegments key members evidence floors
      ↔ ∃ g, (∃ k, (k, g) ∈ boundGroups (members.map (memberBounds evidence floors members)))
        ∧ s = segmentOf key g := by
  rw [buildPartitionSegments, List.mem_insertionSort, List.mem_map]
  constructor
  · rintro ⟨⟨k, g⟩, hg, rfl⟩
    exact ⟨g, ⟨k, hg⟩, rfl⟩
  · rintro ⟨g, ⟨k, hg⟩, rfl⟩
    exact ⟨(k, g), hg, rfl⟩

/-- **The bounds of a segment** are those of each of its members. -/
theorem segment_bounds (h : Rooted members floors)
    (hev : ∀ k info, evidence.get k = some info → info.floor = none) {key : PartitionKey}
    {s : TemporalSegment} (hs : s ∈ buildPartitionSegments key members evidence floors) :
    s.partition = key ∧ ∀ hash ∈ s.memberProofHashes, ∃ m ∈ members, m.proofHash = hash
      ∧ s.lowerBounds = (memberBounds evidence floors members m).lower
      ∧ s.upperBounds = (memberBounds evidence floors members m).upper := by
  obtain ⟨g, ⟨k, hg⟩, rfl⟩ := mem_buildPartitionSegments.mp hs
  obtain ⟨hgeq, hne⟩ := mem_boundGroups.mp hg
  have hmem : ∀ mb ∈ g, ∃ m ∈ members, mb = memberBounds evidence floors members m
      ∧ boundSetKey mb = k := by
    intro mb hmb
    rw [hgeq, List.mem_filter, decide_eq_true_eq] at hmb
    obtain ⟨m, hm, rfl⟩ := List.mem_map.mp hmb.1
    exact ⟨m, hm, rfl, hmb.2⟩
  refine ⟨rfl, fun hash hh => ?_⟩
  obtain ⟨q, hq, rfl⟩ := List.mem_map.mp hh
  rw [List.mem_insertionSort] at hq
  obtain ⟨mb, hmb, rfl⟩ := List.mem_map.mp hq
  obtain ⟨m, hm, rfl, hk⟩ := hmem mb hmb
  obtain ⟨first, rest, rfl⟩ := List.exists_cons_of_ne_nil hne
  obtain ⟨m', hm', hfirst, hk'⟩ := hmem first List.mem_cons_self
  obtain ⟨hl, hu⟩ := boundSetKey_inj h hev hm' hm (by rw [← hfirst, hk', hk])
  refine ⟨m, hm, rfl, ?_, ?_⟩
  · rw [← hl, ← hfirst]
    rfl
  · rw [← hu, ← hfirst]
    rfl

lemma memberProofHashes_ne_nil {key : PartitionKey} {s : TemporalSegment}
    (hs : s ∈ buildPartitionSegments key members evidence floors) : s.memberProofHashes ≠ [] := by
  obtain ⟨g, ⟨k, hg⟩, rfl⟩ := mem_buildPartitionSegments.mp hs
  have hlen : (segmentOf key g).memberProofHashes.length = g.length := by
    rw [segmentOf, List.length_map, List.length_insertionSort, List.length_map]
  intro hnil
  rw [hnil, List.length_nil] at hlen
  exact (mem_boundGroups.mp hg).2 (List.length_eq_zero_iff.mp hlen.symm)

/-- Every member is in a segment. -/
theorem exists_segment {key : PartitionKey} (hm : m ∈ members) :
    ∃ s ∈ buildPartitionSegments key members evidence floors, m.proofHash ∈ s.memberProofHashes := by
  have hmem : memberBounds evidence floors members m
      ∈ (members.map (memberBounds evidence floors members)).filter fun mb =>
        boundSetKey mb = boundSetKey (memberBounds evidence floors members m) := by
    rw [List.mem_filter, decide_eq_true_eq]
    exact ⟨List.mem_map_of_mem hm, rfl⟩
  have hgroup := mem_boundGroups.mpr ⟨rfl, List.ne_nil_of_mem hmem⟩
  refine ⟨_, mem_buildPartitionSegments.mpr ⟨_, ⟨_, hgroup⟩, rfl⟩, ?_⟩
  refine List.mem_map.mpr ⟨m, ?_, rfl⟩
  rw [List.mem_insertionSort]
  exact List.mem_map.mpr ⟨_, hmem, rfl⟩

end Segments

/-! ### Input -/

/-- What the stage is given. -/
structure TemporalInput where
  proofs : List ObservedProof
  outcomes : List AnchorWitnessOutcome
  floors : Floors
  /-- The recordings are unique by canonical hash. -/
  unique : (proofs.map ObservedProof.proofHash).Nodup
  /-- The hashes are base64 texts. -/
  hashed : ∀ p ∈ proofs, ∃ digest, p.proofHash = bytesToBase64 digest
  /-- A floor stands under the hash of the proof that signs it. -/
  keyed : ∀ hash f, floors.get hash = some f → f.proofHash = hash

namespace TemporalInput

variable (input : TemporalInput)

def partitions : List ChainPartition := reconstructPartitions input.proofs

def evidence : Evidence := anchorEvidenceOf input.outcomes

def analysis : TemporalAnalysis :=
  deriveTemporalBounds input.proofs input.partitions input.outcomes input.floors

/-- The members of a partition. -/
def members (p : ChainPartition) : List ObservedProof := membersOf input.proofs p

end TemporalInput

variable {input : TemporalInput} {p : ChainPartition}

lemma addOutcome_floor {evidence : Evidence} {outcome : AnchorWitnessOutcome}
    (h : ∀ k info, evidence.get k = some info → info.floor = none) (k : Str)
    (info : VerifiedAnchorEvidence) (hget : (addOutcome evidence outcome).get k = some info) :
    info.floor = none := by
  rw [addOutcome] at hget
  split at hget
  · split at hget
    · exact h k info hget
    · rw [OrderedMap.get_set] at hget
      split at hget
      · rw [← Option.some.inj hget]
      · exact h k info hget
  · exact h k info hget

/-- Evidence from witnesses names no floor. -/
lemma TemporalInput.evidence_floor (input : TemporalInput) (k : Str)
    (info : VerifiedAnchorEvidence) (h : input.evidence.get k = some info) : info.floor = none := by
  have hfold : ∀ (l : List AnchorWitnessOutcome) (evidence : Evidence),
      (∀ k info, evidence.get k = some info → info.floor = none) →
      ∀ k info, (l.foldl addOutcome evidence).get k = some info → info.floor = none := by
    intro l
    induction l with
    | nil => exact fun _ h => h
    | cons o l ih => exact fun evidence hev => ih _ (addOutcome_floor hev)
  exact hfold input.outcomes [] (fun _ _ h => nomatch h) k info h

/-- A partition's hashes are hashes of recordings, and no two partitions share one. -/
lemma TemporalInput.partitions_nodup (input : TemporalInput) :
    (input.partitions.flatMap ChainPartition.memberProofHashes).Nodup
      ∧ ∀ p ∈ input.partitions, ∀ h ∈ p.memberProofHashes, ∃ q ∈ input.proofs, q.proofHash = h := by
  have hperm := reconstructPartitions_members input.proofs
  have hsub : ((input.proofs.filter joins).map ObservedProof.proofHash).Sublist
      (input.proofs.map ObservedProof.proofHash) := List.filter_sublist.map _
  refine ⟨hperm.nodup_iff.mpr (input.unique.sublist hsub), fun p hp h hh => ?_⟩
  have hmem := hperm.mem_iff.mp (List.mem_flatMap.mpr ⟨p, hp, hh⟩)
  exact List.mem_map.mp (hsub.subset hmem)

/-- The members of a partition have its hashes. -/
lemma TemporalInput.map_members (hp : p ∈ input.partitions) :
    (input.members p).map ObservedProof.proofHash = p.memberProofHashes := by
  have hall := input.partitions_nodup.2 p hp
  have hlist : ∀ l : List Str, (∀ h ∈ l, ∃ q ∈ input.proofs, q.proofHash = h) →
      (l.filterMap fun h => input.proofs.find? fun q => q.proofHash = h).map
        ObservedProof.proofHash = l := by
    intro l
    induction l with
    | nil => exact fun _ => rfl
    | cons h l ih =>
        intro hl
        obtain ⟨q, hq, hqh⟩ := hl h List.mem_cons_self
        have hsome : (input.proofs.find? fun q => q.proofHash = h).isSome = true :=
          List.find?_isSome.mpr ⟨q, hq, by simpa using hqh⟩
        obtain ⟨r, hr⟩ := Option.isSome_iff_exists.mp hsome
        have hrh : r.proofHash = h := by simpa using List.find?_some hr
        rw [List.filterMap_cons, hr, List.map_cons, hrh,
          ih fun k hk => hl k (List.mem_cons_of_mem _ hk)]
  exact hlist _ hall

lemma TemporalInput.members_nodup (hp : p ∈ input.partitions) :
    ((input.members p).map ObservedProof.proofHash).Nodup := by
  rw [map_members hp]
  exact (List.nodup_flatMap.mp input.partitions_nodup.1).1 p hp

lemma TemporalInput.mem_proofs {m : ObservedProof} (hm : m ∈ input.members p) :
    m ∈ input.proofs := by
  obtain ⟨h, -, hfind⟩ := List.mem_filterMap.mp hm
  exact List.mem_of_find?_eq_some hfind

lemma TemporalInput.rooted (hp : p ∈ input.partitions) :
    Rooted (input.members p) input.floors where
  unique := members_nodup hp
  hashed _ hm := input.hashed _ (mem_proofs hm)
  keyed := input.keyed

lemma TemporalInput.mem_segments {s : TemporalSegment} : s ∈ input.analysis.segments
    ↔ ∃ p ∈ input.partitions,
      s ∈ buildPartitionSegments p.key (input.members p) input.evidence input.floors :=
  List.mem_flatMap

/-! ### The bounds of an audit -/

lemma LowerCandidate.link {members : List ObservedProof} {evidence : Evidence} {floors : Floors}
    {m : ObservedProof} (h : Rooted members floors)
    (hev : ∀ k info, evidence.get k = some info → info.floor = none) {x : Entry}
    (hx : LowerCandidate members evidence floors m x)
    (hlink : (makeBound .notBefore x).evidence = .chainLink) :
    ∃ a ∈ members, a.proofHash = (makeBound .notBefore x).anchorProofHash
      ∧ (a = m ∨ Above (pred members) a m) := by
  cases hx with
  | anchor ha hinfo hreach =>
      rw [makeBound_anchor (hev _ _ hinfo)] at hlink ⊢
      cases hreach with
      | chain hreach => exact ⟨_, ha, rfl, hreach⟩
      | counter => cases hlink
  | floor hf =>
      cases hf with
      | own => cases hlink
      | chain hbest =>
          obtain ⟨a, ha, hget⟩ := hbest.1
          exact ⟨a, mem_of_above ha, (h.keyed _ _ hget).symm, Or.inr ha⟩
      | counter => cases hlink

lemma UpperCandidate.link {members : List ObservedProof} {evidence : Evidence} {m : ObservedProof}
    (hev : ∀ k info, evidence.get k = some info → info.floor = none) {x : Entry}
    (hx : UpperCandidate members evidence m x) :
    ((makeBound .notAfter x).evidence = .chainLink →
        ∃ a ∈ members, a.proofHash = (makeBound .notAfter x).anchorProofHash
          ∧ Above (pred members) m a)
      ∧ (makeBound .notAfter x).floor = none ∧ (makeBound .notAfter x).kind = .notAfter := by
  cases hx with
  | anchor ha hinfo hreach =>
      rw [makeBound_anchor (hev _ _ hinfo)]
      refine ⟨fun hlink => ?_, rfl, rfl⟩
      cases hreach with
      | chain hreach => exact ⟨_, ha, rfl, hreach⟩
      | counter => cases hlink

end Temporal

end Audit

end BitGraph
