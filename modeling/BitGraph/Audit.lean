import BitGraph.Js.Convert
import BitGraph.Js.JsonText
import Mathlib.Data.List.Sort

/-!
What an audit hands on: observed proofs, their partitions, and the evidence between epochs.

* **Ingest.** `ObservedProof` is a recording with the chain fields read off it. `observe` keeps
  the first copy of each canonical hash.
* **Reconstruction.** `reconstructPartitions` groups the recordings by signer key, epoch and
  chain; `reconstructPartitions_members`: each joins at most one.
* **Result.** `AuditResult` carries what the two stages guarantee and no more: recordings have
  distinct hashes, partitions distinct keys. Counters, `prevB64` links, epoch links and bounds
  are whatever the bundle says.
-/

namespace BitGraph

open Js

namespace Audit

/-! ### Recordings and partitions -/

/-- A recording, keyed by its canonical hash. -/
structure ObservedProof where
  proofHash : Str
  chainHash : Str
  counter : Option Str
  slotCounter : Option Str
  prevB64 : Option Str
  epochId : Option Str
  chainId : Str
  publicKeyB64 : Option Str
  chainless : Bool
  deriving DecidableEq

/-- Signer key, epoch and chain. -/
structure PartitionKey where
  publicKeyB64 : Str
  epochId : Option Str
  chainId : Str
  deriving DecidableEq

/-- A partition: its key and the hashes of its members. -/
structure ChainPartition where
  key : PartitionKey
  memberProofHashes : List Str
  deriving DecidableEq

/-- What an `epochLink` was found to say. -/
structure EpochLineageEdge where
  viaProofHash : Str
  predecessorProofHash : Option Str
  hardEdge : Bool
  deriving DecidableEq

/-- A one-sided bound of a segment; `source` is present for Base floors only. -/
structure SegmentBound where
  source : Option Str
  blockNumber : Option Str
  timestamp : Number
  weaker : Bool
  deriving DecidableEq

/-- A segment with its tightest bounds. -/
structure TemporalSegment where
  memberProofHashes : List Str
  lowerBounds : List SegmentBound
  upperBounds : List SegmentBound
  deriving DecidableEq

/-- Digits and nothing else count as a counter. -/
def parseCounter (value : Option Str) : Option ℕ :=
  match value with
  | none => none
  | some s => if s.length = 0 ∨ s.all isDigit = false then none else some (readDecimal s)

/-- What an audit hands on. -/
structure AuditResult where
  proofs : List ObservedProof
  partitions : List ChainPartition
  edges : List EpochLineageEdge
  segments : List TemporalSegment
  /-- The recordings are unique by canonical hash. -/
  unique : (proofs.map ObservedProof.proofHash).Nodup
  /-- The partitions are unique by key. -/
  keyed : (partitions.map ChainPartition.key).Nodup

/-! ### Ingest and reconstruction -/

/-- A further copy of a recording already observed changes nothing. -/
def observe (proofs : List ObservedProof) (observed : ObservedProof) : List ObservedProof :=
  if observed.proofHash ∈ proofs.map ObservedProof.proofHash then proofs else proofs ++ [observed]

lemma observe_unique {proofs : List ObservedProof} {observed : ObservedProof}
    (h : (proofs.map ObservedProof.proofHash).Nodup) :
    ((observe proofs observed).map ObservedProof.proofHash).Nodup := by
  rw [observe]
  split_ifs with hmem
  · exact h
  · rw [List.map_append, List.map_singleton, ← List.concat_eq_append]
    exact h.concat hmem

lemma foldl_observe_unique (files : List ObservedProof) {proofs : List ObservedProof}
    (h : (proofs.map ObservedProof.proofHash).Nodup) :
    ((files.foldl observe proofs).map ObservedProof.proofHash).Nodup := by
  induction files generalizing proofs with
  | nil => exact h
  | cons f files ih => exact ih (observe_unique h)

/-- The order of two texts, by code unit. -/
def compareText (a b : Str) : ℤ := if a < b then -1 else if b < a then 1 else 0

/-- Chain, then epoch, then signer. -/
def comparePartitionKeys (a b : PartitionKey) : ℤ :=
  if a.chainId ≠ b.chainId then compareText a.chainId b.chainId
  else if a.epochId.getD [] ≠ b.epochId.getD [] then
    compareText (a.epochId.getD []) (b.epochId.getD [])
  else compareText a.publicKeyB64 b.publicKeyB64

/-- Parseable counter ascending, then canonical hash. -/
def byCounterThenHash (a b : ObservedProof) : ℤ :=
  match parseCounter a.counter, parseCounter b.counter with
  | some ca, some cb =>
    if ca ≠ cb then (if ca < cb then -1 else 1) else compareText a.proofHash b.proofHash
  | some _, none => -1
  | none, some _ => 1
  | none, none => compareText a.proofHash b.proofHash

/-- The key under which a partition is collected. -/
def mapKey (key : PartitionKey) : Str :=
  ((Value.arr [.str key.publicKeyB64, (key.epochId.map Value.str).getD .null,
    .str key.chainId]).serialize).getD []

/-- A group of recordings under one key, oldest group first. -/
abbrev Group := PartitionKey × List ObservedProof

/-- Add a recording to its group, or start one. -/
def addMember (groups : List Group) (key : PartitionKey) (proof : ObservedProof) : List Group :=
  match groups with
  | [] => [(key, [proof])]
  | g :: rest =>
    if mapKey g.1 = mapKey key then (g.1, g.2 ++ [proof]) :: rest
    else g :: addMember rest key proof

/-- One recording: chainless ones and those without a signer key join no partition. -/
def partitionProof (groups : List Group) (proof : ObservedProof) : List Group :=
  if proof.chainless then groups
  else match proof.publicKeyB64 with
    | none => groups
    | some publicKeyB64 => addMember groups ⟨publicKeyB64, proof.epochId, proof.chainId⟩ proof

/-- The partitions, in the order of their keys. -/
def reconstructPartitions (proofs : List ObservedProof) : List ChainPartition :=
  let groups := proofs.foldl partitionProof []
  (groups.insertionSort fun a b => comparePartitionKeys a.1 b.1 ≤ 0).map fun g =>
    ⟨g.1, (g.2.insertionSort fun a b => byCounterThenHash a b ≤ 0).map ObservedProof.proofHash⟩

lemma mapKey_addMember {groups : List Group} {key : PartitionKey} {proof : ObservedProof} :
    (addMember groups key proof).map (fun g => mapKey g.1)
      = if mapKey key ∈ groups.map (fun g => mapKey g.1) then groups.map (fun g => mapKey g.1)
        else groups.map (fun g => mapKey g.1) ++ [mapKey key] := by
  induction groups with
  | nil => simp [addMember]
  | cons g rest ih =>
      rw [addMember]
      by_cases hg : mapKey g.1 = mapKey key
      · rw [if_pos hg, if_pos (by rw [List.map_cons, hg]; exact List.mem_cons_self)]
        simp
      · rw [if_neg hg, List.map_cons, ih, List.map_cons]
        by_cases hrest : mapKey key ∈ rest.map fun g => mapKey g.1
        · rw [if_pos hrest, if_pos (List.mem_cons_of_mem _ hrest)]
        · rw [if_neg hrest, if_neg (by simp [Ne.symm hg, hrest] : mapKey key ∉ _)]
          rfl

lemma partitionProof_nodup {groups : List Group} {proof : ObservedProof}
    (h : (groups.map fun g => mapKey g.1).Nodup) :
    ((partitionProof groups proof).map fun g => mapKey g.1).Nodup := by
  rw [partitionProof]
  split_ifs with hc
  · exact h
  · split
    · exact h
    · rw [mapKey_addMember]
      split_ifs with hmem
      · exact h
      · rw [← List.concat_eq_append]
        exact h.concat hmem

/-- Reconstruction gives every partition its own key. -/
theorem reconstructPartitions_keyed (proofs : List ObservedProof) :
    ((reconstructPartitions proofs).map ChainPartition.key).Nodup := by
  have hgroups : ∀ (ps : List ObservedProof) (groups : List Group),
      (groups.map fun g => mapKey g.1).Nodup →
        ((ps.foldl partitionProof groups).map fun g => mapKey g.1).Nodup := by
    intro ps
    induction ps with
    | nil => exact fun _ h => h
    | cons p ps ih => exact fun _ h => ih _ (partitionProof_nodup h)
  have hkeys : ((proofs.foldl partitionProof []).map Prod.fst).Nodup := by
    refine List.Nodup.of_map mapKey ?_
    rw [List.map_map]
    exact hgroups proofs [] List.nodup_nil
  have hperm := List.perm_insertionSort
    (fun a b : Group => comparePartitionKeys a.1 b.1 ≤ 0) (proofs.foldl partitionProof [])
  rw [reconstructPartitions, List.map_map]
  exact ((hperm.map Prod.fst).nodup_iff).mpr hkeys

/-- A recording that joins a partition. -/
def joins (proof : ObservedProof) : Bool := !proof.chainless && proof.publicKeyB64.isSome

lemma flatMap_addMember (groups : List Group) (key : PartitionKey) (proof : ObservedProof) :
    ((addMember groups key proof).flatMap Prod.snd).Perm (groups.flatMap Prod.snd ++ [proof]) := by
  induction groups with
  | nil => exact List.Perm.refl _
  | cons g rest ih =>
      rw [addMember]
      split
      · simp only [List.flatMap_cons, List.append_assoc]
        exact List.perm_append_comm.append_left g.2
      · rw [List.flatMap_cons, List.flatMap_cons, List.append_assoc]
        exact ih.append_left g.2

lemma flatMap_foldl_partitionProof (proofs : List ObservedProof) (groups : List Group) :
    ((proofs.foldl partitionProof groups).flatMap Prod.snd).Perm
      (groups.flatMap Prod.snd ++ proofs.filter joins) := by
  induction proofs generalizing groups with
  | nil => simp
  | cons p proofs ih =>
      refine (ih _).trans ?_
      rw [partitionProof, List.filter_cons, joins]
      cases p.chainless with
      | true => simp
      | false =>
          cases p.publicKeyB64 with
          | none => simp
          | some k =>
              have hadd := flatMap_addMember groups ⟨k, p.epochId, p.chainId⟩ p
              simpa using hadd.append_right (proofs.filter joins)

/-- **Reconstruction puts every recording into at most one partition**: the members of all
partitions are the recordings that join one. -/
theorem reconstructPartitions_members (proofs : List ObservedProof) :
    ((reconstructPartitions proofs).flatMap ChainPartition.memberProofHashes).Perm
      ((proofs.filter joins).map ObservedProof.proofHash) := by
  have hsort : ∀ groups : List Group,
      (groups.flatMap fun g =>
        (g.2.insertionSort fun a b => byCounterThenHash a b ≤ 0).map ObservedProof.proofHash).Perm
      ((groups.flatMap Prod.snd).map ObservedProof.proofHash) := by
    intro groups
    induction groups with
    | nil => exact List.Perm.refl _
    | cons g groups ih =>
        rw [List.flatMap_cons, List.flatMap_cons, List.map_append]
        exact ((List.perm_insertionSort _ g.2).map _).append ih
  rw [reconstructPartitions, List.flatMap_map]
  refine (hsort _).trans (List.Perm.map _ ?_)
  refine ((List.perm_insertionSort _ _).flatMap_right Prod.snd).trans ?_
  have hgroups := flatMap_foldl_partitionProof proofs []
  rwa [List.flatMap_nil, List.nil_append] at hgroups

/-- The audit of a list of proof files, with the later stages' edges and segments. -/
def AuditResult.ofFiles (files : List ObservedProof) (edges : List EpochLineageEdge)
    (segments : List TemporalSegment) : AuditResult where
  proofs := files.foldl observe []
  partitions := reconstructPartitions (files.foldl observe [])
  edges := edges
  segments := segments
  unique := foldl_observe_unique files List.nodup_nil
  keyed := reconstructPartitions_keyed _

end Audit

end BitGraph
