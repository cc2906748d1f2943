import BitGraph.Lib.OrderedMap
import BitGraph.Recovery

/-!
`recovery-fold.ts`: the rows of a drop that are members of a recorded tree.

* **Proofs.** `fetchRecoveredProof` binds an entry to a proof of the ledger; what the ledger answered
  comes with the entry, and what judges a proof is a parameter.
* **Rows.** `foldRow` lists what a row writes into the answer, `foldRow_spec` what it leaves there: the
  positions verified before the first entry whose proof cannot be read, and an unknown row exactly
  where nothing was found and some read failed.
* **Runs.** The groups are folded at once, so a run is any interleaving of the rows' writes.
  `recoverRows_keeps_iff`: when fewer reads cost no verified match and make no file new.
  `recoverRows_hides_match`: one entry that cannot be read hides the next.

The lookups answer one address after another, so a row's reads are what it is given.
-/

namespace BitGraph

open Js

namespace Recovery

/-! ### The proof of an entry -/

inductive TreeCategory where
  | memberDirect
  | memberFromOrigin
  | memberAsIs
  | pathValid
  | rootValid
  | membershipUnproven
  | noMatch
  | reconstructionMismatch
  | invalidOrigin
  | invalidTreePath
  | invalidTreeRoot
  | invalidSlotCommitment
  | invalidTreeMarker
  | unknownSpec
  | invalidUnderlyingProof
  | notTree
  deriving DecidableEq

def TREE_MEMBER_CATEGORIES : List TreeCategory := [.memberDirect, .memberFromOrigin, .memberAsIs]

/-- What `verifyTreeMember` says of a proof, a member and a file. -/
structure TreeVerifyResult where
  category : TreeCategory
  reason : Str

/-- What `proofTrusted` says. -/
inductive Trust where
  | trusted
  | rejected
  | undetermined

/-- `computeProofHash`, none where it throws, `proofTrusted` under the policy of the call, and
`verifyTreeMember`. -/
structure Judge (F : Type) where
  computeProofHash : Value → Option Str
  proofTrusted : Value → Trust
  verifyTreeMember : Value → TreeMemberEvidence → Bytes → F → Except Thrown TreeVerifyResult

/-- The fields of an entry the fold reads. -/
structure LocalEntry where
  proofHash : Str
  rootDocument : Str
  member : TreeMemberEvidence
  proof : RecoveryLocator

structure RecoveredProof where
  proof : Value
  check : TreeVerifyResult

/-- A read that failed for a reason of its own. -/
def unavailableFor (place : Str) (cause : Thrown) : Thrown :=
  error ((unavailable place).message ++ js ": " ++ cause.message)

section Rows

variable {F : Type} (J : Judge F)

/-- The loop of `fetchRecoveredProof`. -/
def bindProof (entry : LocalEntry) (file : F) (rootDocument : Bytes) :
    List Value → Except Thrown (Option RecoveredProof)
  | [] => .ok none
  | item :: proofs =>
      let proof := item.get (js "proof")
      if !(isRecord item && isRecord proof) then bindProof entry file rootDocument proofs
      else if J.computeProofHash proof ≠ some entry.proofHash then
        bindProof entry file rootDocument proofs
      else if (proof.get (js "commit")).get (js "epochId") ≠ .str entry.proof.epochId
          ∨ (proof.get (js "commit")).get (js "counter") ≠ .str entry.proof.counter
          ∨ (proof.get (js "artifact")).get (js "digestB64") ≠ .str entry.proof.artifactDigestB64 then
        bindProof entry file rootDocument proofs
      else match J.proofTrusted proof with
        | .undetermined => .error (unavailable
            (js "the reader's measurement policy is empty, so the recovered proof's attestation was not judged"))
        | .rejected => bindProof entry file rootDocument proofs
        | .trusted => do
            let check ← J.verifyTreeMember proof entry.member rootDocument file
            if check.category = .unknownSpec then
              .error (unavailable (js "unresolved: " ++ check.reason))
            else return some ⟨proof, check⟩

/-- `fetchRecoveredProof`, with what its request comes to. -/
def fetchRecoveredProof (answer : Except Thrown Value) (entry : LocalEntry) (file : F) :
    Except Thrown (Option RecoveredProof) :=
  match answer with
  | .error cause => .error (unavailableFor (js "GET /api/proofs/<artifact digest>") cause)
  | .ok body =>
      match isRecord body, body.get (js "proofs") with
      | true, .arr proofs =>
          if proofs.isEmpty && body.get (js "discovery") == .str (js "retired") then
            .error (unavailable (js "the ledger's index of proofs by digest is retired; the entry's proof cannot be read through this route"))
          else match hexToBytes entry.rootDocument with
            | none => .ok none
            | some rootDocument => bindProof J entry file rootDocument proofs
      | _, _ => .error (unavailable (js "the proof route's answer is not \x7b proofs \x7d"))

/-! ### One row -/

structure RecoveredTree where
  proofKey : Str
  proof : Value
  rootDocument : Bytes
  rootDocumentHex : Str
  evidence : TreeMemberEvidence
  deriving DecidableEq

/-- `x ?? ""` in a template. -/
def orEmpty : Value → Str
  | .undefined | .null => []
  | v => v.toText.getD []

def treePositionKey (proof : Value) : Str :=
  orEmpty ((proof.get (js "commit")).get (js "epochId")) ++ js ":"
    ++ orEmpty ((proof.get (js "commit")).get (js "counter")) ++ js ":"
    ++ ((proof.get (js "artifact")).get (js "digestB64")).toText.getD []

/-- An entry, and what the ledger answers for its proof. -/
abbrev AskedEntry := LocalEntry × Except Thrown Value

/-- What the reads for a row come to: this browser's own records, and the store's answer. -/
structure RowReads where
  pending : Except Thrown (List AskedEntry)
  answer : Except Str (List AskedEntry)

/-- What an entry comes to: its proof cannot be read, it is no match, or a tree position. -/
abbrev Try := Except Thrown (Option RecoveredTree)

/-- One turn of the loop, up to the test of the position. -/
def tryEntry (file : F) (e : AskedEntry) : Try := do
  match ← fetchRecoveredProof J e.2 e.1 file with
  | none => return none
  | some bound =>
      if bound.check.category ∉ TREE_MEMBER_CATEGORIES then return none
      else return (hexToBytes e.1.rootDocument).map fun rootDocument =>
        ⟨treePositionKey bound.proof, bound.proof, rootDocument, e.1.rootDocument, e.1.member⟩

/-- A write of a row into the answer. -/
inductive Write where
  | found (trees : List RecoveredTree)
  | unknown (reason : Str)
  /-- `out.unknown.delete(i)`. -/
  | known

/-- The loop over the entries, what follows it and what catches its exceptions. -/
def foldEntries (trees : List RecoveredTree) : List Try → List Write
  | [] => if trees.isEmpty then [] else [.found trees, .known]
  | .error e :: _ => if trees.isEmpty then [.unknown e.message] else []
  | .ok none :: rest => foldEntries trees rest
  | .ok (some t) :: rest =>
      if trees.any fun u => u.proofKey == t.proofKey then foldEntries trees rest
      else .found (trees ++ [t]) :: .known :: foldEntries (trees ++ [t]) rest

/-- The entries that were read. -/
def entriesOf {ε α : Type} : Except ε (List α) → List α
  | .ok l => l
  | .error _ => []

/-- Why the own records could not be read. -/
def localFailure : Except Thrown (List AskedEntry) → Option Str
  | .ok _ => none
  | .error e => some (js "this browser's own pending records could not be read (" ++ e.message ++ js ")")

/-- `a.reason` of a failed lookup. -/
def lookupFailure : Except Str (List AskedEntry) → Option Str
  | .ok _ => none
  | .error reason => some reason

/-- What the entries of a row come to, its own first. -/
def triesOf (file : F) (r : RowReads) : List Try :=
  (entriesOf r.pending ++ entriesOf r.answer).map (tryEntry J file)

def noted (failure : Option Str) : List Write := failure.toList.map .unknown

def foldRow (file : F) (r : RowReads) : List Write :=
  if (localFailure r.pending).isSome && (entriesOf r.answer).isEmpty then
    noted (localFailure r.pending)
  else noted (localFailure r.pending) ++
    if (lookupFailure r.answer).isSome && (entriesOf r.pending).isEmpty then
      noted (lookupFailure r.answer)
    else if (entriesOf r.pending ++ entriesOf r.answer).isEmpty then []
    else noted (lookupFailure r.answer) ++ noted (localFailure r.pending)
      ++ foldEntries [] (triesOf J file r)

/-! ### Runs -/

structure RecoveryRow (F : Type) where
  digestB64 : Str
  file : F
  fromProofJson : Bool

/-- A row with bytes, under a digest of 32 bytes. -/
def RecoveryRow.asked (r : RecoveryRow F) : Bool :=
  !r.digestB64.isEmpty && !r.fromProofJson && (base64ToBytes r.digestB64).any fun d => d.length == 32

structure RecoveryFold where
  found : OrderedMap ℕ (List RecoveredTree)
  unknown : OrderedMap ℕ Str

/-- `out.failed`. -/
def RecoveryFold.failed (out : RecoveryFold) : ℕ := out.unknown.length

def RecoveryFold.write (out : RecoveryFold) (w : ℕ × Write) : RecoveryFold :=
  match w.2 with
  | .found trees => { out with found := out.found.set w.1 trees }
  | .unknown reason => { out with unknown := out.unknown.set w.1 reason }
  | .known => { out with unknown := out.unknown.erase w.1 }

/-- The writes of a row, none where it is not asked about. -/
def rowWrites (rows : List (RecoveryRow F)) (reads : ℕ → RowReads) (i : ℕ) : List Write :=
  match rows[i]? with
  | some r => if r.asked then foldRow J r.file (reads i) else []
  | none => []

/-- `recoverRows`: the rows' writes, in any interleaving. -/
def RecoverRows (rows : List (RecoveryRow F)) (reads : ℕ → RowReads) (out : RecoveryFold) : Prop :=
  ∃ writes : List (ℕ × Write),
    (∀ i, (writes.filter fun w => w.1 = i).map Prod.snd = rowWrites J rows reads i)
      ∧ out = writes.foldl RecoveryFold.write ⟨[], []⟩

variable {J} {file : F} {rows : List (RecoveryRow F)} {reads reads' : ℕ → RowReads}
  {out out' : RecoveryFold} {r r' : RowReads} {i : ℕ} {k : Str}

/-! ### What a row leaves -/

/-- A row's place in the answer. -/
structure Slot where
  found : Option (List RecoveredTree)
  unknown : Option Str

def RecoveryFold.slot (out : RecoveryFold) (i : ℕ) : Slot := ⟨out.found.get i, out.unknown.get i⟩

def Slot.write (s : Slot) : Write → Slot
  | .found trees => { s with found := some trees }
  | .unknown reason => { s with unknown := some reason }
  | .known => { s with unknown := none }

lemma slot_write (out : RecoveryFold) (w : ℕ × Write) (i : ℕ) :
    (out.write w).slot i = if w.1 = i then (out.slot i).write w.2 else out.slot i := by
  obtain ⟨j, w⟩ := w
  cases w <;> by_cases h : j = i <;>
    simp [RecoveryFold.write, RecoveryFold.slot, Slot.write, h, OrderedMap.get_set, OrderedMap.get_erase]

/-- A row's place depends on the row's own writes. -/
lemma slot_foldl (writes : List (ℕ × Write)) (out : RecoveryFold) (i : ℕ) :
    (writes.foldl RecoveryFold.write out).slot i
      = ((writes.filter fun w => w.1 = i).map Prod.snd).foldl Slot.write (out.slot i) := by
  induction writes generalizing out with
  | nil => rfl
  | cons w writes ih =>
      rw [List.foldl_cons, ih, slot_write]
      by_cases h : w.1 = i
      · rw [if_pos h, List.filter_cons_of_pos (by simpa using h), List.map_cons, List.foldl_cons]
      · rw [if_neg h, List.filter_cons_of_neg (by simpa using h)]

lemma slot_of_run (hrun : RecoverRows J rows reads out) (i : ℕ) :
    out.slot i = (rowWrites J rows reads i).foldl Slot.write ⟨none, none⟩ := by
  obtain ⟨writes, hwrites, rfl⟩ := hrun
  rw [slot_foldl, hwrites]
  rfl

/-- The proof of the entry could be read. -/
def readable (t : Try) : Bool := t.isOk

/-- The positions verified before the first entry whose proof cannot be read. -/
def reached (tries : List Try) : List Str :=
  (tries.takeWhile readable).filterMap fun t => (t.toOption.join).map RecoveredTree.proofKey

@[simp] lemma reached_nil : reached [] = [] := rfl

@[simp] lemma reached_error (e : Thrown) (l : List Try) : reached (.error e :: l) = [] := rfl

@[simp] lemma reached_none (l : List Try) : reached (.ok none :: l) = reached l := rfl

@[simp] lemma reached_some (t : RecoveredTree) (l : List Try) :
    reached (.ok (some t) :: l) = t.proofKey :: reached l := rfl

/-- The positions of a slot. -/
def Slot.positions (s : Slot) : List Str := (s.found.getD []).map RecoveredTree.proofKey

/-- The trees found so far, none before the first. -/
def someTrees (trees : List RecoveredTree) : Option (List RecoveredTree) :=
  if trees.isEmpty then none else some trees

/-- The loop finds the positions it reaches, and leaves a row unknown that it found nothing for and
that was unknown or has an entry it could not read. -/
lemma foldEntries_spec (tries : List Try) (trees : List RecoveredTree) (s : Slot)
    (hfound : s.found = someTrees trees) (hknown : trees ≠ [] → s.unknown = none) :
    (∃ trees', ((foldEntries trees tries).foldl Slot.write s).found = someTrees trees'
      ∧ ∀ k, k ∈ trees'.map RecoveredTree.proofKey
        ↔ k ∈ trees.map RecoveredTree.proofKey ∨ k ∈ reached tries)
    ∧ (((foldEntries trees tries).foldl Slot.write s).unknown = none
      ↔ trees ≠ [] ∨ reached tries ≠ [] ∨ s.unknown = none ∧ ∀ t ∈ tries, readable t = true) := by
  induction tries generalizing trees s with
  | nil =>
      rw [foldEntries]
      cases trees with
      | nil => exact ⟨⟨[], hfound, by simp⟩, by simp⟩
      | cons t trees => exact ⟨⟨t :: trees, rfl, by simp⟩, by simp [Slot.write]⟩
  | cons t tries ih =>
      match t with
      | .error e =>
          rw [foldEntries]
          cases trees with
          | nil => exact ⟨⟨[], hfound, by simp⟩, by simp [Slot.write, readable, Except.isOk, Except.toBool]⟩
          | cons t trees => exact ⟨⟨t :: trees, hfound, by simp⟩, by simpa using hknown (by simp)⟩
      | .ok none =>
          rw [foldEntries]
          obtain ⟨h1, h2⟩ := ih trees s hfound hknown
          exact ⟨h1, by rw [h2]; simp [readable, Except.isOk, Except.toBool]⟩
      | .ok (some t) =>
          rw [foldEntries]
          split
          · next hany =>
              obtain ⟨u, hu, heq⟩ := List.any_eq_true.mp hany
              have hne : trees ≠ [] := List.ne_nil_of_mem hu
              have hmem : t.proofKey ∈ trees.map RecoveredTree.proofKey :=
                List.mem_map.mpr ⟨u, hu, by simpa using heq⟩
              obtain ⟨⟨trees', hf, hk⟩, h2⟩ := ih trees s hfound hknown
              refine ⟨⟨trees', hf, fun k => ?_⟩, by rw [h2]; simp [hne]⟩
              rw [hk, reached_some, List.mem_cons]
              constructor
              · exact fun h => h.imp_right .inr
              · rintro (h | rfl | h)
                exacts [.inl h, .inl hmem, .inr h]
          · obtain ⟨⟨trees', hf, hk⟩, h2⟩ := ih (trees ++ [t]) ⟨some (trees ++ [t]), none⟩
              (by simp [someTrees]) fun _ => rfl
            refine ⟨⟨trees', hf, fun k => ?_⟩, h2.trans (by simp)⟩
            rw [hk]
            simp [or_assoc]

/-- Nothing was read that failed. -/
def RowReads.complete (J : Judge F) (file : F) (r : RowReads) : Prop :=
  localFailure r.pending = none ∧ lookupFailure r.answer = none
    ∧ ∀ t ∈ triesOf J file r, readable t = true

/-- A place as the loop leaves it. -/
def Slot.Settled (s : Slot) (tries : List Try) (whole : Prop) : Prop :=
  (∀ k, k ∈ s.positions ↔ k ∈ reached tries) ∧ (s.found = none ↔ reached tries = [])
    ∧ (s.unknown = none ↔ reached tries ≠ [] ∨ whole)

lemma settled_foldEntries (tries : List Try) {s : Slot} (hs : s.found = none) :
    ((foldEntries [] tries).foldl Slot.write s).Settled tries
      (s.unknown = none ∧ ∀ t ∈ tries, readable t = true) := by
  obtain ⟨⟨trees, hfound, hkeys⟩, hknown⟩ :=
    foldEntries_spec tries [] s hs fun h => absurd rfl h
  have hnil : trees = [] ↔ reached tries = [] := by
    rw [← List.map_eq_nil_iff, List.eq_nil_iff_forall_not_mem, List.eq_nil_iff_forall_not_mem]
    exact forall_congr' fun k => not_congr (by simpa using hkeys k)
  refine ⟨fun k => ?_, ?_, by simpa using hknown⟩
  · have hpositions : ((foldEntries [] tries).foldl Slot.write s).positions
        = trees.map RecoveredTree.proofKey := by
      rw [Slot.positions, hfound, someTrees]
      cases trees <;> rfl
    rw [hpositions, hkeys]
    simp
  · rw [hfound, ← hnil, someTrees]
    cases trees <;> simp

/-- **One row.** It is found at the positions reached, and unknown exactly where there are none and
something could not be read. -/
theorem foldRow_spec (J : Judge F) (file : F) (r : RowReads) :
    ((foldRow J file r).foldl Slot.write ⟨none, none⟩).Settled (triesOf J file r)
      (r.complete J file) := by
  have hnone : ∀ reason : Str, triesOf J file r = [] → ¬ r.complete J file →
      Slot.Settled ⟨none, some reason⟩ (triesOf J file r) (r.complete J file) := by
    intro reason htries hfailed
    simp [Slot.Settled, Slot.positions, htries, hfailed]
  have hloop : ∀ s : Slot, s.found = none →
      (s.unknown = none ↔ localFailure r.pending = none ∧ lookupFailure r.answer = none) →
      ((foldEntries [] (triesOf J file r)).foldl Slot.write s).Settled (triesOf J file r)
        (r.complete J file) := by
    intro s hfound hknown
    obtain ⟨h1, h2, h3⟩ := settled_foldEntries (triesOf J file r) hfound
    exact ⟨h1, h2, by rw [h3, hknown, RowReads.complete, and_assoc]⟩
  obtain ⟨pending, answer⟩ := r
  match pending, answer with
  | .error e, .error reason => exact hnone _ rfl fun h => by simp [RowReads.complete, localFailure] at h
  | .error e, .ok [] => exact hnone _ rfl fun h => by simp [RowReads.complete, localFailure] at h
  | .error e, .ok (a :: l) => exact hloop ⟨none, some _⟩ rfl (by simp [localFailure])
  | .ok [], .error reason => exact hnone _ rfl fun h => by simp [RowReads.complete, lookupFailure] at h
  | .ok (a :: l), .error reason => exact hloop ⟨none, some _⟩ rfl (by simp [lookupFailure])
  | .ok [], .ok [] => exact hloop ⟨none, none⟩ rfl (by simp [localFailure, lookupFailure])
  | .ok [], .ok (a :: l) => exact hloop ⟨none, none⟩ rfl (by simp [localFailure, lookupFailure])
  | .ok (a :: l), .ok s =>
      exact hloop ⟨none, none⟩ rfl (by simp [localFailure, lookupFailure])

/-! ### Fewer reads -/

/-- Whatever the second read, the first read as well. -/
def Fewer {ε α : Type} (R : α → α → Prop) (x x' : Except ε α) : Prop :=
  ∀ a', x' = .ok a' → ∃ a, x = .ok a ∧ R a a'

/-- The same entries, of which some proofs fail to be read. -/
def FewerProofs : List AskedEntry → List AskedEntry → Prop :=
  List.Forall₂ fun e e' => e.1 = e'.1 ∧ Fewer Eq e.2 e'.2

/-- The reads of a row in two runs, some of which fail in the second. -/
structure RowReads.Fewer (r r' : RowReads) : Prop where
  pending : Recovery.Fewer FewerProofs r.pending r'.pending
  answer : Recovery.Fewer FewerProofs r.answer r'.answer

lemma fewer_tryEntry {e e' : AskedEntry} (hentry : e.1 = e'.1) (hproof : Fewer Eq e.2 e'.2) :
    Fewer Eq (tryEntry J file e) (tryEntry J file e') := by
  obtain ⟨entry, answer⟩ := e
  obtain ⟨entry', answer'⟩ := e'
  obtain rfl : entry = entry' := hentry
  cases answer' with
  | error cause =>
      intro a h
      cases h
  | ok body =>
      obtain ⟨body', rfl, rfl⟩ := hproof body rfl
      exact fun a h => ⟨a, h, rfl⟩

lemma fewer_tries {l l' : List AskedEntry} (h : FewerProofs l l') :
    List.Forall₂ (Fewer Eq) (l.map (tryEntry J file)) (l'.map (tryEntry J file)) := by
  rw [List.forall₂_map_left_iff, List.forall₂_map_right_iff]
  exact h.imp fun e e' he => fewer_tryEntry he.1 he.2

/-- With fewer proofs read, the loop stops earlier. -/
lemma reached_of_fewer {l l' : List Try} (h : List.Forall₂ (Fewer Eq) l l') :
    reached l' <+: reached l := by
  induction h with
  | nil => exact List.prefix_rfl
  | @cons t t' l l' ht _ ih =>
      match t' with
      | .error e => exact List.nil_prefix
      | .ok none =>
          obtain ⟨a, rfl, rfl⟩ := ht none rfl
          exact ih
      | .ok (some tree) =>
          obtain ⟨a, rfl, rfl⟩ := ht (some tree) rfl
          exact List.cons_prefix_cons.mpr ⟨rfl, ih⟩

lemma reached_append (l s : List Try) : reached l <+: reached (l ++ s) := by
  induction l with
  | nil => exact List.nil_prefix
  | cons t l ih =>
      match t with
      | .error e => exact List.nil_prefix
      | .ok none => exact ih
      | .ok (some tree) => exact List.cons_prefix_cons.mpr ⟨rfl, ih⟩

/-- The own records are read in the first run and not in the second. -/
def RowReads.losesPending (r r' : RowReads) : Prop :=
  localFailure r.pending = none ∧ localFailure r'.pending ≠ none

/-- Where the own records are not what is lost, what is reached was reached before. -/
lemma RowReads.Fewer.reached_subset (h : r.Fewer r') (hpending : ¬ r.losesPending r') :
    reached (triesOf J file r') ⊆ reached (triesOf J file r) := by
  obtain ⟨pending, answer⟩ := r
  obtain ⟨pending', answer'⟩ := r'
  match pending', answer' with
  | .error e', .error reason' => exact List.nil_subset _
  | .error e', .ok s' =>
      obtain ⟨s, hs, hfewer⟩ := h.answer s' rfl
      cases pending with
      | ok l => exact absurd ⟨rfl, nofun⟩ hpending
      | error e =>
          cases hs
          exact (reached_of_fewer (fewer_tries hfewer)).subset
  | .ok l', .error reason' =>
      obtain ⟨l, hl, hfewer⟩ := h.pending l' rfl
      cases hl
      have hpre : reached (l'.map (tryEntry J file)) <+: reached (l.map (tryEntry J file)) :=
        reached_of_fewer (fewer_tries hfewer)
      rw [triesOf, triesOf, List.map_append]
      simpa [entriesOf] using (hpre.trans (reached_append _ _)).subset
  | .ok l', .ok s' =>
      obtain ⟨l, hl, hfewer⟩ := h.pending l' rfl
      obtain ⟨s, hs, hfewer'⟩ := h.answer s' rfl
      cases hl
      cases hs
      exact (reached_of_fewer (fewer_tries (List.rel_append hfewer hfewer'))).subset

lemma eq_of_fewer {l l' : List Try} (h : List.Forall₂ (Fewer Eq) l l')
    (hread : ∀ t ∈ l', readable t = true) : l = l' := by
  induction h with
  | nil => rfl
  | @cons t t' l l' ht _ ih =>
      cases t' with
      | error e => exact absurd (hread _ List.mem_cons_self) nofun
      | ok a =>
          obtain ⟨b, rfl, rfl⟩ := ht a rfl
          rw [ih fun t ht => hread t (List.mem_cons_of_mem _ ht)]

/-- Where the second run read everything, the first read the same. -/
lemma RowReads.Fewer.complete (h : r.Fewer r') (hcomplete : r'.complete J file) :
    r.complete J file ∧ triesOf J file r = triesOf J file r' := by
  obtain ⟨pending, answer⟩ := r
  obtain ⟨pending', answer'⟩ := r'
  obtain ⟨hpending, hanswer, hread⟩ := hcomplete
  match pending', answer' with
  | .error e', _ => cases hpending
  | .ok l', .error reason' => cases hanswer
  | .ok l', .ok s' =>
      obtain ⟨l, hl, hfewer⟩ := h.pending l' rfl
      obtain ⟨s, hs, hfewer'⟩ := h.answer s' rfl
      cases hl
      cases hs
      have heq : triesOf J file ⟨.ok l, .ok s⟩ = triesOf J file ⟨.ok l', .ok s'⟩ :=
        eq_of_fewer (fewer_tries (List.rel_append hfewer hfewer')) hread
      exact ⟨⟨rfl, rfl, heq ▸ hread⟩, heq⟩

/-! ### Two runs -/

def RecoveryFold.positions (out : RecoveryFold) (i : ℕ) : List Str := (out.slot i).positions

def RecoveryFold.isFound (out : RecoveryFold) (i : ℕ) : Prop := out.found.get i ≠ none

def RecoveryFold.isUnknown (out : RecoveryFold) (i : ℕ) : Prop := out.unknown.get i ≠ none

/-- A row the store is asked about, with what it comes to. -/
def Asked (J : Judge F) (rows : List (RecoveryRow F)) (reads : ℕ → RowReads) (i : ℕ)
    (tries : List Try) : Prop :=
  ∃ row, rows[i]? = some row ∧ row.asked = true ∧ tries = triesOf J row.file (reads i)

/-- An answered entry of the row whose proof can be read and verifies the file. -/
def Verifies (J : Judge F) (rows : List (RecoveryRow F)) (reads : ℕ → RowReads) (i : ℕ) : Prop :=
  ∃ tries tree, Asked J rows reads i tries ∧ Except.ok (some tree) ∈ tries

/-- In every row where an entry verifies, one does before the first whose proof cannot be read. -/
def ReadableFirst (J : Judge F) (rows : List (RecoveryRow F)) (reads : ℕ → RowReads) : Prop :=
  ∀ i tries tree, Asked J rows reads i tries → Except.ok (some tree) ∈ tries → reached tries ≠ []

/-- In every row whose own records are lost, the positions reached then were reached before. -/
def ReachedBefore (J : Judge F) (rows : List (RecoveryRow F)) (reads reads' : ℕ → RowReads) : Prop :=
  ∀ i tries tries', Asked J rows reads i tries → Asked J rows reads' i tries' →
    (reads i).losesPending (reads' i) → reached tries' ⊆ reached tries

/-- What a run leaves at a row that is asked about. -/
lemma settled_of_run (hrun : RecoverRows J rows reads out) {row : RecoveryRow F}
    (hrow : rows[i]? = some row) (hasked : row.asked = true) :
    (out.slot i).Settled (triesOf J row.file (reads i)) ((reads i).complete J row.file) := by
  rw [slot_of_run hrun, rowWrites, hrow]
  simpa only [hasked, if_true] using foldRow_spec J row.file (reads i)

/-- A row that is not asked about is left alone. -/
lemma slot_of_not_asked (hrun : RecoverRows J rows reads out)
    (h : ¬ ∃ row, rows[i]? = some row ∧ row.asked = true) : out.slot i = ⟨none, none⟩ := by
  rw [slot_of_run hrun, rowWrites]
  cases hrow : rows[i]? with
  | none => rfl
  | some row =>
      have hasked : row.asked = false := by
        by_contra hne
        exact h ⟨row, hrow, by simpa using hne⟩
      simp [hasked]

lemma verified_found_iff (hrun : RecoverRows J rows reads out) :
    (∀ i, Verifies J rows reads i → out.isFound i) ↔ ReadableFirst J rows reads := by
  constructor
  · rintro h i tries tree ⟨row, hrow, hasked, rfl⟩ htree hnil
    obtain ⟨-, hfound, -⟩ := settled_of_run hrun hrow hasked
    exact h i ⟨_, tree, ⟨row, hrow, hasked, rfl⟩, htree⟩ (hfound.mpr hnil)
  · rintro h i ⟨tries, tree, ⟨row, hrow, hasked, rfl⟩, htree⟩ hnone
    obtain ⟨-, hfound, -⟩ := settled_of_run hrun hrow hasked
    exact h i _ tree ⟨row, hrow, hasked, rfl⟩ htree (hfound.mp hnone)

lemma positions_kept_iff (hfewer : ∀ i, (reads i).Fewer (reads' i))
    (hrun : RecoverRows J rows reads out) (hrun' : RecoverRows J rows reads' out') :
    (∀ i, out'.positions i ⊆ out.positions i) ↔ ReachedBefore J rows reads reads' := by
  constructor
  · rintro h i tries tries' ⟨row, hrow, hasked, rfl⟩ ⟨row', hrow', -, rfl⟩ _ k hk
    obtain rfl : row = row' := Option.some.inj (hrow.symm.trans hrow')
    obtain ⟨hkeys, -⟩ := settled_of_run hrun hrow hasked
    obtain ⟨hkeys', -⟩ := settled_of_run hrun' hrow hasked
    exact (hkeys k).mp (h i ((hkeys' k).mpr hk))
  · intro h i k hk
    by_cases hasked : ∃ row, rows[i]? = some row ∧ row.asked = true
    · obtain ⟨row, hrow, hasked⟩ := hasked
      obtain ⟨hkeys, -⟩ := settled_of_run hrun hrow hasked
      obtain ⟨hkeys', -⟩ := settled_of_run hrun' hrow hasked
      refine (hkeys k).mpr ?_
      by_cases hpending : (reads i).losesPending (reads' i)
      · exact h i _ _ ⟨row, hrow, hasked, rfl⟩ ⟨row, hrow, hasked, rfl⟩ hpending ((hkeys' k).mp hk)
      · exact (hfewer i).reached_subset hpending ((hkeys' k).mp hk)
    · rw [RecoveryFold.positions, slot_of_not_asked hrun' hasked] at hk
      cases hk

/-- A row that reads as new with fewer reads is new. -/
theorem new_of_fewer (hfewer : ∀ i, (reads i).Fewer (reads' i))
    (hrun : RecoverRows J rows reads out) (hrun' : RecoverRows J rows reads' out')
    (hfound : ¬ out'.isFound i) (hunknown : ¬ out'.isUnknown i) :
    ¬ out.isFound i ∧ ¬ out.isUnknown i := by
  rw [RecoveryFold.isFound, not_not] at hfound ⊢
  rw [RecoveryFold.isUnknown, not_not] at hunknown ⊢
  by_cases hasked : ∃ row, rows[i]? = some row ∧ row.asked = true
  · obtain ⟨row, hrow, hasked⟩ := hasked
    obtain ⟨-, hf', hu'⟩ := settled_of_run hrun' hrow hasked
    obtain ⟨-, hf, hu⟩ := settled_of_run hrun hrow hasked
    have hnil := hf'.mp hfound
    obtain ⟨hfull, heq⟩ := (hfewer i).complete ((hu'.mp hunknown).resolve_left (absurd hnil))
    exact ⟨hf.mpr (heq ▸ hnil), hu.mpr (.inr hfull)⟩
  · have hslot := slot_of_not_asked hrun hasked
    exact ⟨congrArg Slot.found hslot, congrArg Slot.unknown hslot⟩

/-- **Failed reads.** For every drop and every two runs of which the second reads less: its positions
are found in the first, what is new in it is new in the first, and in both a row is found where an
answered entry verifies, exactly if no such entry stands behind one whose proof cannot be read: in
each run some entry that verifies comes first, and where the own records are lost, what the second
reaches the first had reached. -/
theorem recoverRows_keeps_iff (hfewer : ∀ i, (reads i).Fewer (reads' i))
    (hrun : RecoverRows J rows reads out) (hrun' : RecoverRows J rows reads' out') :
    ((∀ i, out'.positions i ⊆ out.positions i)
      ∧ (∀ i, ¬ out'.isFound i → ¬ out'.isUnknown i → ¬ out.isFound i ∧ ¬ out.isUnknown i)
      ∧ (∀ i, Verifies J rows reads i → out.isFound i)
      ∧ ∀ i, Verifies J rows reads' i → out'.isFound i)
    ↔ ReachedBefore J rows reads reads' ∧ ReadableFirst J rows reads
      ∧ ReadableFirst J rows reads' := by
  rw [positions_kept_iff hfewer hrun hrun', verified_found_iff hrun, verified_found_iff hrun']
  constructor
  · rintro ⟨h1, -, h3, h4⟩
    exact ⟨h1, h3, h4⟩
  · rintro ⟨h1, h3, h4⟩
    exact ⟨h1, fun i => new_of_fewer hfewer hrun hrun', h3, h4⟩

/-- There is a run: row after row. -/
lemma exists_run (J : Judge F) (rows : List (RecoveryRow F)) (reads : ℕ → RowReads) :
    ∃ out, RecoverRows J rows reads out := by
  have hrange : ∀ n i, ((List.range n).flatMap fun j =>
      (rowWrites J rows reads j).map (Prod.mk j)).filter (fun w => w.1 = i)
        = if i < n then (rowWrites J rows reads i).map (Prod.mk i) else [] := by
    intro n i
    induction n with
    | zero => rfl
    | succ n ih =>
        rw [List.range_succ, List.flatMap_append, List.filter_append, ih, List.flatMap_singleton]
        by_cases h : n = i
        · subst h
          simp [List.filter_map, Function.comp_def]
        · have hiff : i < n + 1 ↔ i < n := by omega
          simp [List.filter_map, Function.comp_def, h, hiff]
  refine ⟨_, (List.range rows.length).flatMap fun j => (rowWrites J rows reads j).map (Prod.mk j),
    fun i => ?_, rfl⟩
  rw [hrange]
  split
  · simp
  · next h => simp [rowWrites, List.getElem?_eq_none (Nat.le_of_not_lt h)]

lemma fewer_refl (r : RowReads) : r.Fewer r := by
  have hproofs : ∀ l : List AskedEntry, FewerProofs l l := fun l =>
    List.forall₂_same.mpr fun e _ => ⟨rfl, fun a h => ⟨a, h, rfl⟩⟩
  exact ⟨fun l h => ⟨l, h, hproofs l⟩, fun l h => ⟨l, h, hproofs l⟩⟩

end Rows

/-! ### A match behind an entry that cannot be read -/

section Sample

/-- A judge that takes every proof for the recording, and every file for its member. -/
def sampleJudge : Judge Unit := ⟨fun _ => some (js "h"), fun _ => .trusted,
  fun _ _ _ _ => .ok ⟨.memberDirect, []⟩⟩

def sampleEntry : LocalEntry := ⟨js "h", js "00", ⟨0, 1, [], []⟩, ⟨js "e", js "1", js "d"⟩⟩

/-- The ledger's answer: the proof the entry names. -/
def sampleAnswer : Value :=
  .obj [(js "proofs", .arr [.obj [(js "proof", .obj [
    (js "commit", .obj [(js "epochId", .str (js "e")), (js "counter", .str (js "1"))]),
    (js "artifact", .obj [(js "digestB64", .str (js "d"))])])]])]

/-- One file, whose first entry's proof is not served. -/
def sampleReads (_ : ℕ) : RowReads :=
  ⟨.ok [], .ok [(sampleEntry, .error (error (js "HTTP 503"))), (sampleEntry, .ok sampleAnswer)]⟩

def sampleRows : List (RecoveryRow Unit) := [⟨List.replicate 43 65 ++ [61], (), false⟩]

lemma sample_tries : ∃ e tree, triesOf sampleJudge () (sampleReads 0) = [.error e, .ok (some tree)] :=
  ⟨_, _, rfl⟩

lemma sample_asked : ∃ row, sampleRows[0]? = some row ∧ row.asked = true :=
  ⟨_, rfl, by decide +kernel⟩

/-- An entry whose proof cannot be read hides the next, which verifies. -/
theorem recoverRows_hides_match :
    ¬ ∀ (rows : List (RecoveryRow Unit)) (reads reads' : ℕ → RowReads) (out out' : RecoveryFold),
      (∀ i, (reads i).Fewer (reads' i)) → RecoverRows sampleJudge rows reads out →
      RecoverRows sampleJudge rows reads' out' →
      (∀ i, out'.positions i ⊆ out.positions i)
        ∧ (∀ i, ¬ out'.isFound i → ¬ out'.isUnknown i → ¬ out.isFound i ∧ ¬ out.isUnknown i)
        ∧ (∀ i, Verifies sampleJudge rows reads i → out.isFound i)
        ∧ ∀ i, Verifies sampleJudge rows reads' i → out'.isFound i := by
  intro h
  obtain ⟨out, hrun⟩ := exists_run sampleJudge sampleRows sampleReads
  obtain ⟨row, hrow, hasked⟩ := sample_asked
  obtain ⟨e, tree, htries⟩ := sample_tries
  obtain ⟨-, -, hverified, -⟩ := h _ _ _ _ _ (fun i => fewer_refl _) hrun hrun
  have hfirst := (verified_found_iff hrun).mp hverified 0 _ tree ⟨row, hrow, hasked, rfl⟩
  rw [show row.file = () from rfl, htries] at hfirst
  exact hfirst (by simp) rfl

/-- Two runs of a drop whose file is in the store, of which the second cannot ask the store. -/
theorem recoverRows_keeps_iff_sample :
    ∃ out out', RecoverRows sampleJudge sampleRows
        (fun _ => ⟨.ok [], .ok [(sampleEntry, .ok sampleAnswer)]⟩) out
      ∧ RecoverRows sampleJudge sampleRows (fun _ => ⟨.ok [], .error (js "HTTP 503")⟩) out'
      ∧ ∀ i, ¬ out'.isFound i → ¬ out'.isUnknown i → ¬ out.isFound i ∧ ¬ out.isUnknown i := by
  obtain ⟨out, hrun⟩ := exists_run sampleJudge sampleRows
    fun _ => ⟨.ok [], .ok [(sampleEntry, .ok sampleAnswer)]⟩
  obtain ⟨out', hrun'⟩ := exists_run sampleJudge sampleRows fun _ => ⟨.ok [], .error (js "HTTP 503")⟩
  have hfewer : RowReads.Fewer ⟨.ok [], .ok [(sampleEntry, .ok sampleAnswer)]⟩
      ⟨.ok [], .error (js "HTTP 503")⟩ :=
    ⟨fun l h => ⟨[], rfl, Except.ok.inj h ▸ List.Forall₂.nil⟩, fun l h => nomatch h⟩
  have htries : ∃ tree, triesOf sampleJudge ()
      ⟨.ok [], .ok [(sampleEntry, .ok sampleAnswer)]⟩ = [.ok (some tree)] := ⟨_, rfl⟩
  obtain ⟨tree, htree⟩ := htries
  have hlost : triesOf sampleJudge () ⟨.ok [], .error (js "HTTP 503")⟩ = [] := rfl
  refine ⟨out, out', hrun, hrun', ((recoverRows_keeps_iff (fun _ => hfewer) hrun hrun').mpr
    ⟨?_, ?_, ?_⟩).2.1⟩
  · rintro i - tries' - ⟨row, -, -, rfl⟩ -
    rw [show row.file = () from rfl, hlost]
    exact List.nil_subset _
  · rintro i - t ⟨row, -, -, rfl⟩ -
    rw [show row.file = () from rfl, htree]
    simp
  · rintro i - t ⟨row, -, -, rfl⟩ ht
    rw [show row.file = () from rfl, hlost] at ht
    cases ht

end Sample

end Recovery

end BitGraph
