import BitGraph.Lib.OrderedMap
import BitGraph.Lib.Since
import BitGraph.Timeline.Journal
import BitGraph.Verifier.ProofHash
import Mathlib.Data.List.DropRight

/-!
`persistToLedger`: the writes of a list of proofs to the ledger.

* **Store.** `send` is one write, of which the caller sees an answer; a write that fails may have been
  stored all the same. A create-only write never replaces an object.
* **Code.** `turn` is what one proof goes through, `persistToLedger` the loop inside its one catch.
* **Main result.** `kept_iff`: a by-digest object is never replaced; its journal comes first, and every
  proof has its turn, exactly where no journal is lost before the key is created and no write that is
  not caught fails before the last proof.
-/

namespace BitGraph.Ledger

open Js Verifier

/-! ### The store -/

/-- How a write ends. A failure has a status or none, and may come after the object was stored. -/
inductive Outcome where
  | ok
  | failed (status : Option ℕ) (stored : Bool)

/-- The object store, with what it stored in the order in which it did. -/
structure Store where
  objects : OrderedMap Str Value
  log : List (Str × Value)

/-- A `PutObjectCommand`; `createOnly` is `IfNoneMatch: "*"`. The body stands as the value of its text. -/
structure PutObject where
  key : Str
  body : Value
  createOnly : Bool

/-- What the caller sees. -/
inductive Answer where
  | done
  | failed (status : Option ℕ)
  deriving DecidableEq

def Store.write (S : Store) (p : PutObject) : Store :=
  ⟨S.objects.set p.key p.body, S.log ++ [(p.key, p.body)]⟩

/-- One write. -/
def send (S : Store) (p : PutObject) (o : Outcome) : Answer × Store :=
  if p.createOnly && S.objects.has p.key then
    match o with
    | .ok => (.failed (some 412), S)
    | .failed status _ => (.failed status, S)
  else
    match o with
    | .ok => (.done, S.write p)
    | .failed status stored => (.failed status, if stored then S.write p else S)

/-! ### The code -/

/-- The spelling of base64 in a key. -/
def safe (s : Str) : Str :=
  (s.map fun c => if c = 43 then 45 else if c = 47 then 95 else c).rdropWhile (· = 61)

/-- A proof of the list, the time and the number its journal entry gets, and how its writes end. -/
structure Item where
  proof : Value
  at_ : ℕ
  random : Str
  ledger : Outcome
  journal : Outcome
  index : Outcome

/-- `proof.artifact.digestB64`, a text in every proof. -/
def digestB64 (proof : Value) : Str := text ((proof.get (js "artifact")).get (js "digestB64"))

def ledgerKey (proof : Value) (proofHash : Str) : Str :=
  let commit := proof.get (js "commit")
  let epochId := if commit.get (js "epochId") = .undefined then js "unknown" else text (commit.get (js "epochId"))
  let counter := if (commit.get (js "counter")).truthy then text (commit.get (js "counter")) else js "0"
  js "proofs/" ++ safe epochId ++ js "/" ++ Timeline.padStart 12 counter ++ js "-" ++ safe proofHash ++ js ".json"

def journalKey (x : Item) : Str :=
  js "digest-journal/" ++ Timeline.padStart 13 (decimal x.at_) ++ js "-" ++ x.random ++ js ".json"

/-- The journal names the digest in both spellings. -/
def journalBody (x : Item) : Value :=
  .obj [(js "at", .num (.ofNat x.at_)),
    (js "digests", .arr [.str (digestB64 x.proof), .str (safe (digestB64 x.proof))])]

def digestKey (digest : Str) : Str := js "by-digest/" ++ safe digest ++ js ".json"

/-- How the turn of a proof ends. -/
inductive Turn where
  | done
  | hashFailed
  | writeFailed
  deriving DecidableEq

/-- The three writes of a proof. A journal that fails is a warning; a by-digest key that is there
already is none. -/
def turn (H : HashFn) (S : Store) (x : Item) : Turn × Store :=
  match computeProofHash H x.proof with
  | .error _ => (.hashFailed, S)
  | .ok proofHash =>
      let stored := x.proof.setProp (js "proofHash") (.str proofHash)
      match send S ⟨ledgerKey x.proof proofHash, stored, false⟩ x.ledger with
      | (.failed _, S₁) => (.writeFailed, S₁)
      | (.done, S₁) =>
          let S₂ := (send S₁ ⟨journalKey x, journalBody x, false⟩ x.journal).2
          match send S₂ ⟨digestKey (digestB64 x.proof), stored, true⟩ x.index with
          | (.done, S₃) => (.done, S₃)
          | (.failed status, S₃) =>
              (if status ≠ some 412 ∧ status ≠ some 409 then .writeFailed else .done, S₃)

/-- The loop: what is thrown ends it. -/
def persistToLedger (H : HashFn) : Store → List Item → List Turn × Store
  | S, [] => ([], S)
  | S, x :: l =>
      match turn H S x with
      | (.done, S') => (.done :: (persistToLedger H S' l).1, (persistToLedger H S' l).2)
      | (t, S') => ([t], S')

/-! ### What is promised -/

/-- An entry of the journal that names a digest in both spellings. -/
structure Journals (e : Str × Value) (digest : Str) : Prop where
  key : js "digest-journal/" <+: e.1
  plain : ∃ l, e.2.get (js "digests") = .arr l ∧ .str digest ∈ l ∧ .str (safe digest) ∈ l

/-- Every by-digest object among new ones has its journal before it. -/
def JournalFirst (old new : List (Str × Value)) : Prop :=
  ∀ pre e post, new = pre ++ e :: post → js "by-digest/" <+: e.1 →
    ∃ j ∈ old ++ pre, Journals j (digestB64 e.2)

/-- What the ledger keeps of a list of proofs. -/
structure Kept (H : HashFn) (S : Store) (l : List Item) : Prop where
  /-- A by-digest object is stored after its journal. -/
  journal : JournalFirst S.log ((persistToLedger H S l).2.log.drop S.log.length)
  /-- It is never replaced. -/
  once : ∀ k v, js "by-digest/" <+: k → S.objects.get k = some v →
    (persistToLedger H S l).2.objects.get k = some v
  /-- A write that fails keeps no other proof from its turn. -/
  turns : Turn.writeFailed ∈ (persistToLedger H S l).1 → (persistToLedger H S l).1.length = l.length

/-- The write takes effect. -/
def Outcome.stores : Outcome → Bool
  | .ok => true
  | .failed _ stored => stored

/-- The write succeeds. -/
def Outcome.isOk : Outcome → Bool
  | .ok => true
  | .failed _ _ => false

/-- A create-only write fails, and not because the key is there. -/
def Outcome.throws : Outcome → Bool
  | .ok => false
  | .failed status _ => status ≠ some 412 ∧ status ≠ some 409

/-- The proof has a hash. -/
def Item.Hashed (H : HashFn) (x : Item) : Prop := ∃ h, computeProofHash H x.proof = .ok h

/-- A write of the proof fails and is not caught in its turn. -/
def Item.Throws (x : Item) : Prop := x.ledger.isOk = false ∨ x.index.throws = true

instance : DecidablePred Item.Throws := fun _ => inferInstanceAs (Decidable (_ ∨ _))

/-- The turn of the proof ends well. -/
structure Item.Clean (H : HashFn) (x : Item) : Prop where
  hashed : x.Hashed H
  calm : ¬ x.Throws

/-- The by-digest key of the proof comes to be. -/
structure Item.Creates (H : HashFn) (S : Store) (x : Item) : Prop where
  hashed : x.Hashed H
  ledger : x.ledger.isOk = true
  index : x.index.stores = true
  absent : S.objects.has (digestKey (digestB64 x.proof)) = false

/-- Where the ledger keeps what it promises: no journal is lost before its key is created, and no write
is thrown before the last proof. -/
structure Spared (H : HashFn) (S : Store) (l : List Item) : Prop where
  journal : ∀ pre x post, l = pre ++ x :: post → (∀ y ∈ pre, y.Clean H) →
    x.Creates H (persistToLedger H S pre).2 → x.journal.stores = true ∨
      ∃ j ∈ (persistToLedger H S pre).2.log, Journals j (digestB64 x.proof)
  last : ∀ pre x post, l = pre ++ x :: post → (∀ y ∈ pre, y.Clean H) → x.Hashed H → x.Throws → post = []

/-! ### One write -/

section Write

variable {S : Store} {p : PutObject} {o : Outcome} {H : HashFn} {x : Item} {l : List Item}

lemma send_eq (h : (p.createOnly && S.objects.has p.key) = false) :
    (send S p o).2 = (if o.stores then S.write p else S) ∧ ((send S p o).1 = .done ↔ o.isOk = true) := by
  unfold send
  rw [if_neg (by simp [h])]
  cases o with
  | ok => exact ⟨rfl, iff_of_true rfl rfl⟩
  | failed status stored => exact ⟨rfl, iff_of_false (by simp) (by simp [Outcome.isOk])⟩

lemma send_existing (h : (p.createOnly && S.objects.has p.key) = true) :
    (send S p o).2 = S ∧ (send S p o).1
      = .failed (match o with | .ok => some 412 | .failed status _ => status) := by
  unfold send
  rw [if_pos h]
  cases o <;> exact ⟨rfl, rfl⟩

/-- The key is one of the index. -/
lemma byDigest_digestKey (d : Str) : js "by-digest/" <+: digestKey d := by
  rw [digestKey, List.append_assoc]
  exact List.prefix_append _ _

lemma not_byDigest {k : Str} (h : k.head? ≠ some 98) : ¬ js "by-digest/" <+: k := by
  rintro ⟨t, rfl⟩
  exact h rfl

lemma head_ledgerKey (proof : Value) (h : Str) : (ledgerKey proof h).head? = some 112 := by
  rw [ledgerKey]
  rfl

lemma head_journalKey (x : Item) : (journalKey x).head? = some 100 := by
  rw [journalKey]
  rfl

/-- What a proof is stored as. -/
def storedBody (x : Item) (proofHash : Str) : Value := x.proof.setProp (js "proofHash") (.str proofHash)

lemma digestB64_storedBody (x : Item) (h : Str) : digestB64 (storedBody x h) = digestB64 x.proof := by
  rw [digestB64, digestB64, storedBody]
  cases x.proof with
  | obj l => rw [Value.get_setProp, if_neg (by decide)]
  | _ => rfl

lemma journals_journalBody (x : Item) : Journals (journalKey x, journalBody x) (digestB64 x.proof) where
  key := by
    rw [journalKey, List.append_assoc, List.append_assoc, List.append_assoc]
    exact List.prefix_append _ _
  plain := ⟨_, rfl, by simp, by simp⟩

/-- The new entries of a turn. -/
def turnLog (S : Store) (x : Item) (proofHash : Str) : List (Str × Value) :=
  (if x.ledger.stores then [(ledgerKey x.proof proofHash, storedBody x proofHash)] else [])
    ++ (if x.ledger.isOk && x.journal.stores then [(journalKey x, journalBody x)] else [])
    ++ (if x.ledger.isOk && x.index.stores && !S.objects.has (digestKey (digestB64 x.proof)) then
        [(digestKey (digestB64 x.proof), storedBody x proofHash)] else [])

/-- A write of another kind of key, or none. -/
lemma get_unindexed {k : Str} (hk : js "by-digest/" <+: k) (hp : ¬ js "by-digest/" <+: p.key) (b : Bool) :
    (if b then S.write p else S).objects.get k = S.objects.get k := by
  cases b with
  | false => rfl
  | true =>
      rw [if_pos rfl, Store.write, OrderedMap.get_set, if_neg]
      rintro rfl
      exact hp hk

lemma log_written (b : Bool) :
    (if b then S.write p else S).log = S.log ++ if b then [(p.key, p.body)] else [] := by
  cases b with
  | false => exact (List.append_nil _).symm
  | true => rfl

/-- What a turn does to the store. -/
structure TurnSpec (S : Store) (x : Item) (proofHash : Str) (S' : Store) : Prop where
  log : S'.log = S.log ++ turnLog S x proofHash
  kept : ∀ k v, js "by-digest/" <+: k → S.objects.get k = some v → S'.objects.get k = some v

lemma turn_of_not_hashed (hx : ¬ x.Hashed H) : turn H S x = (.hashFailed, S) := by
  rw [turn]
  split
  · rfl
  · next h hh => exact absurd ⟨h, hh⟩ hx

/-- The end of a create-only write. -/
lemma send_createOnly (hp : p.createOnly = true) :
    (send S p o).2 = (if o.stores && !S.objects.has p.key then S.write p else S) ∧
      (match (send S p o).1 with
        | .done => False
        | .failed status => status ≠ some 412 ∧ status ≠ some 409) = (o.throws = true) := by
  cases hhas : S.objects.has p.key with
  | true =>
      obtain ⟨hstore, hanswer⟩ := send_existing (S := S) (p := p) (o := o) (by rw [hp, hhas]; rfl)
      rw [hstore, hanswer, Bool.not_true, Bool.and_false]
      refine ⟨rfl, ?_⟩
      cases o <;> simp [Outcome.throws]
  | false =>
      obtain ⟨hstore, -⟩ := send_eq (S := S) (p := p) (o := o) (by rw [hhas, Bool.and_false])
      rw [hstore, Bool.not_false, Bool.and_true]
      refine ⟨rfl, ?_⟩
      unfold send
      rw [if_neg (by simp [hhas])]
      cases o <;> simp [Outcome.throws]

lemma turn_spec {h : Str} (hx : computeProofHash H x.proof = .ok h) :
    ((turn H S x).1 = if x.Throws then .writeFailed else .done) ∧ TurnSpec S x h (turn H S x).2 := by
  set L : PutObject := ⟨ledgerKey x.proof h, storedBody x h, false⟩ with hL
  set J : PutObject := ⟨journalKey x, journalBody x, false⟩ with hJ
  set K : PutObject := ⟨digestKey (digestB64 x.proof), storedBody x h, true⟩ with hK
  have hledgerKey : ¬ js "by-digest/" <+: L.key := not_byDigest (by rw [hL, head_ledgerKey]; decide)
  have hjournalKey : ¬ js "by-digest/" <+: J.key := not_byDigest (by rw [hJ, head_journalKey]; decide)
  have hturn : turn H S x = match send S L x.ledger with
      | (.failed _, S₁) => (.writeFailed, S₁)
      | (.done, S₁) => match send (send S₁ J x.journal).2 K x.index with
        | (.done, S₃) => (.done, S₃)
        | (.failed status, S₃) =>
            (if status ≠ some 412 ∧ status ≠ some 409 then .writeFailed else .done, S₃) := by
    rw [turn, hx]
    rfl
  rw [hturn]
  obtain ⟨hstore, hanswer⟩ := send_eq (S := S) (p := L) (o := x.ledger) rfl
  generalize send S L x.ledger = r at hstore hanswer
  obtain ⟨answer, S₁⟩ := r
  dsimp only at hstore hanswer
  subst hstore
  cases answer with
  | failed status =>
      have hok : x.ledger.isOk = false := by
        rw [← Bool.not_eq_true, ← hanswer]
        simp
      refine ⟨(if_pos (Or.inl hok)).symm, ?_, fun k v hk hv => ?_⟩
      · rw [log_written, turnLog, hok]
        simp [hL]
      · rwa [get_unindexed hk hledgerKey]
  | done =>
      have hok : x.ledger.isOk = true := hanswer.mp rfl
      have hstores : x.ledger.stores = true := by
        cases ho : x.ledger with
        | ok => rfl
        | failed status stored => rw [ho] at hok; cases hok
      set S₁ := if x.ledger.stores then S.write L else S with hS₁
      obtain ⟨hjournal, -⟩ := send_eq (S := S₁) (p := J) (o := x.journal) rfl
      obtain ⟨S₂, hS₂⟩ : ∃ S₂, (send S₁ J x.journal).2 = S₂ := ⟨_, rfl⟩
      rw [hS₂] at hjournal
      have hget {k : Str} (hk : js "by-digest/" <+: k) : S₂.objects.get k = S.objects.get k := by
        rw [hjournal, get_unindexed hk hjournalKey, hS₁, get_unindexed hk hledgerKey]
      have hhas : S₂.objects.has K.key = S.objects.has K.key := by
        rw [OrderedMap.has, OrderedMap.has, hget (byDigest_digestKey _)]
      obtain ⟨hindex, hthrows⟩ := send_createOnly (S := S₂) (p := K) (o := x.index) rfl
      have hcalm : x.Throws ↔ x.index.throws = true := by
        rw [Item.Throws, hok]
        simp
      have hspec : TurnSpec S x h (send S₂ K x.index).2 := by
        refine ⟨?_, fun k v hk hv => ?_⟩
        · rw [hindex, log_written, hhas, hjournal, log_written, hS₁, log_written, turnLog, hok]
          simp [hL, hJ, hK]
        · rw [hindex]
          split
          · next hnew =>
              rw [Store.write, OrderedMap.get_set, if_neg, hget hk, hv]
              rintro rfl
              rw [Bool.and_eq_true, Bool.not_eq_true', hhas] at hnew
              rw [OrderedMap.has, hv] at hnew
              cases hnew.2
          · rw [hget hk, hv]
      dsimp only
      rw [hS₂]
      generalize send S₂ K x.index = r at hthrows hspec
      obtain ⟨answer, S₃⟩ := r
      dsimp only at hthrows hspec ⊢
      cases answer with
      | done =>
          rw [if_neg]
          · exact ⟨rfl, hspec⟩
          · rw [hcalm, ← hthrows]
            exact id
      | failed status =>
          refine ⟨?_, hspec⟩
          dsimp only at hthrows ⊢
          simp only [hcalm, ← hthrows]

end Write

/-! ### The journal before the key -/

section Journal

variable {S : Store} {H : HashFn} {x : Item} {old new : List (Str × Value)}

lemma journalFirst_nil : JournalFirst old [] := forall_split_nil

lemma journalFirst_cons {e : Str × Value} :
    JournalFirst old (e :: new)
      ↔ (js "by-digest/" <+: e.1 → ∃ j ∈ old, Journals j (digestB64 e.2)) ∧ JournalFirst (old ++ [e]) new := by
  rw [JournalFirst, forall_split_cons, List.append_nil, JournalFirst]
  simp only [List.append_assoc, List.singleton_append]

lemma journalFirst_append {a b : List (Str × Value)} :
    JournalFirst old (a ++ b) ↔ JournalFirst old a ∧ JournalFirst (old ++ a) b := by
  induction a generalizing old with
  | nil => rw [List.nil_append, List.append_nil, and_iff_right journalFirst_nil]
  | cons e a ih =>
      rw [List.cons_append, journalFirst_cons, journalFirst_cons, ih, and_assoc, List.append_assoc,
        List.singleton_append]

/-- A turn keeps the order where its journal, or an earlier one, is there. -/
lemma journalFirst_turnLog {h : Str} (hx : computeProofHash H x.proof = .ok h) :
    JournalFirst S.log (turnLog S x h) ↔
      (x.Creates H S → x.journal.stores = true ∨ ∃ j ∈ S.log, Journals j (digestB64 x.proof)) := by
  have hledger (old : List (Str × Value)) :
      JournalFirst old (if x.ledger.stores then [(ledgerKey x.proof h, storedBody x h)] else []) := by
    split
    · exact journalFirst_cons.mpr ⟨fun hk => absurd hk
        (not_byDigest (by rw [head_ledgerKey]; decide)), journalFirst_nil⟩
    · exact journalFirst_nil
  have hjournal (old : List (Str × Value)) :
      JournalFirst old (if x.ledger.isOk && x.journal.stores then [(journalKey x, journalBody x)] else []) := by
    split
    · exact journalFirst_cons.mpr ⟨fun hk => absurd hk
        (not_byDigest (by rw [head_journalKey]; decide)), journalFirst_nil⟩
    · exact journalFirst_nil
  rw [turnLog, journalFirst_append, journalFirst_append, and_iff_right (hledger _), and_iff_right (hjournal _)]
  have hcreates : x.Creates H S ↔
      (x.ledger.isOk && x.index.stores && !S.objects.has (digestKey (digestB64 x.proof))) = true := by
    rw [Bool.and_eq_true, Bool.and_eq_true, Bool.not_eq_true']
    exact ⟨fun hc => ⟨⟨hc.ledger, hc.index⟩, hc.absent⟩, fun hc => ⟨⟨h, hx⟩, hc.1.1, hc.1.2, hc.2⟩⟩
  rw [hcreates]
  by_cases hc : (x.ledger.isOk && x.index.stores && !S.objects.has (digestKey (digestB64 x.proof))) = true
  swap
  · rw [if_neg hc]
    exact iff_of_true journalFirst_nil fun h => absurd h hc
  have hok : x.ledger.isOk = true := (hcreates.mpr hc).ledger
  rw [if_pos hc, journalFirst_cons, and_iff_left journalFirst_nil, digestB64_storedBody,
    forall_prop_of_true hc, forall_prop_of_true (byDigest_digestKey _), hok, Bool.true_and]
  constructor
  · rintro ⟨j, hj, hjournals⟩
    by_cases hstores : x.journal.stores = true
    · exact .inl hstores
    refine .inr ⟨j, ?_, hjournals⟩
    rw [if_neg hstores, List.append_nil, List.mem_append] at hj
    refine hj.resolve_right fun hj => ?_
    -- the ledger's own object is no journal
    split at hj
    · rw [List.mem_singleton] at hj
      have hkey := hjournals.key
      rw [hj] at hkey
      obtain ⟨t, ht⟩ := hkey
      have hhead : (js "digest-journal/" ++ t).head? = some 112 := by rw [ht, head_ledgerKey]
      exact absurd hhead (by simp [js])
    · cases hj
  · rintro (hstores | ⟨j, hj, hjournals⟩)
    · exact ⟨_, by rw [if_pos hstores]; simp, journals_journalBody x⟩
    · exact ⟨j, by simp [hj], hjournals⟩

end Journal

/-! ### The loop -/

section Loop

variable {S : Store} {H : HashFn} {x : Item} {l : List Item}

lemma clean_iff : x.Clean H ↔ (turn H S x).1 = .done := by
  by_cases hx : x.Hashed H
  · obtain ⟨h, hh⟩ := hx
    rw [(turn_spec hh).1]
    split
    · next hthrows => exact iff_of_false (fun hc => hc.calm hthrows) (by simp)
    · next hcalm => exact iff_of_true ⟨⟨h, hh⟩, hcalm⟩ rfl
  · rw [turn_of_not_hashed hx]
    exact iff_of_false (fun hc => hx hc.hashed) (by simp)

lemma persist_of_clean (hx : x.Clean H) : persistToLedger H S (x :: l)
    = (.done :: (persistToLedger H (turn H S x).2 l).1, (persistToLedger H (turn H S x).2 l).2) := by
  have hdone := (clean_iff (S := S)).mp hx
  rw [persistToLedger]
  generalize turn H S x = r at hdone
  obtain ⟨t, S'⟩ := r
  obtain rfl : t = .done := hdone
  rfl

lemma persist_of_not_clean (hx : ¬ x.Clean H) :
    persistToLedger H S (x :: l) = ([(turn H S x).1], (turn H S x).2) := by
  have hdone : (turn H S x).1 ≠ .done := fun h => hx (clean_iff.mpr h)
  rw [persistToLedger]
  generalize turn H S x = r at hdone
  obtain ⟨t, S'⟩ := r
  cases t with
  | done => exact absurd rfl hdone
  | hashFailed => rfl
  | writeFailed => rfl

/-- The log grows. -/
lemma log_persist (H : HashFn) (S : Store) (l : List Item) :
    ∃ new, (persistToLedger H S l).2.log = S.log ++ new := by
  induction l generalizing S with
  | nil => exact ⟨[], (List.append_nil _).symm⟩
  | cons x l ih =>
      have hturn : ∃ new, (turn H S x).2.log = S.log ++ new := by
        by_cases hx : x.Hashed H
        · obtain ⟨h, hh⟩ := hx
          exact ⟨_, (turn_spec hh).2.log⟩
        · exact ⟨[], by rw [turn_of_not_hashed hx, List.append_nil]⟩
      by_cases hclean : x.Clean H
      · obtain ⟨new, hnew⟩ := hturn
        obtain ⟨more, hmore⟩ := ih (turn H S x).2
        exact ⟨new ++ more, by rw [persist_of_clean hclean, hmore, hnew, List.append_assoc]⟩
      · rw [persist_of_not_clean hclean]
        exact hturn

/-- An object of the index is never replaced. -/
theorem once (H : HashFn) (S : Store) (l : List Item) {k : Str} {v : Value} (hk : js "by-digest/" <+: k)
    (hv : S.objects.get k = some v) : (persistToLedger H S l).2.objects.get k = some v := by
  induction l generalizing S with
  | nil => exact hv
  | cons x l ih =>
      have hturn : (turn H S x).2.objects.get k = some v := by
        by_cases hx : x.Hashed H
        · obtain ⟨h, hh⟩ := hx
          exact (turn_spec hh).2.kept k v hk hv
        · rwa [turn_of_not_hashed hx]
      by_cases hclean : x.Clean H
      · rw [persist_of_clean hclean]
        exact ih (turn H S x).2 hturn
      · rwa [persist_of_not_clean hclean]

/-- The entries that a list of proofs adds. -/
def newLog (H : HashFn) (S : Store) (l : List Item) : List (Str × Value) :=
  (persistToLedger H S l).2.log.drop S.log.length

lemma newLog_eq {new : List (Str × Value)} (h : (persistToLedger H S l).2.log = S.log ++ new) :
    newLog H S l = new := by
  rw [newLog, h, List.drop_left]

/-- The places before a proof, in the list and after the first one. -/
lemma forall_clean_cons {P : List Item → Item → List Item → Prop} :
    (∀ pre y post, x :: l = pre ++ y :: post → (∀ z ∈ pre, z.Clean H) → P pre y post) ↔
      P [] x l ∧ (x.Clean H →
        ∀ pre y post, l = pre ++ y :: post → (∀ z ∈ pre, z.Clean H) → P (x :: pre) y post) := by
  rw [forall_split_cons]
  simp only [List.not_mem_nil, false_imp_iff, implies_true, true_imp_iff, List.forall_mem_cons, and_imp]
  exact and_congr_right fun _ => ⟨fun h hx pre y post hl => h pre y post hl hx,
    fun h pre y post hl hx => h hx pre y post hl⟩

theorem journalFirst_iff (H : HashFn) (S : Store) (l : List Item) :
    JournalFirst S.log (newLog H S l) ↔
      ∀ pre x post, l = pre ++ x :: post → (∀ y ∈ pre, y.Clean H) →
        x.Creates H (persistToLedger H S pre).2 → x.journal.stores = true ∨
          ∃ j ∈ (persistToLedger H S pre).2.log, Journals j (digestB64 x.proof) := by
  induction l generalizing S with
  | nil =>
      have hlog : (persistToLedger H S []).2.log = S.log ++ [] := (List.append_nil _).symm
      rw [newLog_eq hlog]
      exact iff_of_true journalFirst_nil forall_split_nil
  | cons x l ih =>
      rw [forall_clean_cons]
      by_cases hx : x.Hashed H
      swap
      · have hclean : ¬ x.Clean H := fun hc => hx hc.hashed
        have hlog : (persistToLedger H S (x :: l)).2.log = S.log ++ [] := by
          rw [persist_of_not_clean hclean, turn_of_not_hashed hx, List.append_nil]
        rw [newLog_eq hlog]
        exact iff_of_true journalFirst_nil ⟨fun hc => absurd hc.hashed hx, fun hc => absurd hc hclean⟩
      obtain ⟨h, hh⟩ := hx
      have hturn := (turn_spec (S := S) hh).2.log
      by_cases hclean : x.Clean H
      · obtain ⟨more, hmore⟩ := log_persist H (turn H S x).2 l
        have hlog : (persistToLedger H S (x :: l)).2.log = S.log ++ (turnLog S x h ++ more) := by
          rw [persist_of_clean hclean, hmore, hturn, List.append_assoc]
        have hih := ih (turn H S x).2
        rw [newLog_eq hmore, hturn] at hih
        rw [newLog_eq hlog, journalFirst_append, journalFirst_turnLog hh, hih]
        refine and_congr_right fun _ => ?_
        rw [forall_prop_of_true hclean]
        have hpre (pre : List Item) :
            (persistToLedger H S (x :: pre)).2 = (persistToLedger H (turn H S x).2 pre).2 := by
          rw [persist_of_clean hclean]
        simp only [hpre]
      · have hlog : (persistToLedger H S (x :: l)).2.log = S.log ++ turnLog S x h := by
          rw [persist_of_not_clean hclean, hturn]
        rw [newLog_eq hlog, journalFirst_turnLog hh]
        exact (and_iff_left fun hc => absurd hc hclean).symm

theorem turns_iff (H : HashFn) (S : Store) (l : List Item) :
    (Turn.writeFailed ∈ (persistToLedger H S l).1 → (persistToLedger H S l).1.length = l.length) ↔
      ∀ pre x post, l = pre ++ x :: post → (∀ y ∈ pre, y.Clean H) → x.Hashed H → x.Throws → post = [] := by
  induction l generalizing S with
  | nil => exact iff_of_true (fun h => by cases h) forall_split_nil
  | cons x l ih =>
      rw [forall_clean_cons]
      by_cases hclean : x.Clean H
      · rw [persist_of_clean hclean, forall_prop_of_true hclean, ← ih (turn H S x).2]
        simp [hclean.calm]
      rw [persist_of_not_clean hclean]
      by_cases hx : x.Hashed H
      · obtain ⟨h, hh⟩ := hx
        have hthrows : x.Throws := by
          by_contra hcalm
          exact hclean ⟨⟨h, hh⟩, hcalm⟩
        rw [(turn_spec hh).1, if_pos hthrows]
        have hhashed : x.Hashed H := ⟨h, hh⟩
        simp [hclean, hhashed, hthrows]
      · rw [turn_of_not_hashed hx]
        simp [hclean, hx]

/-- **The ledger keeps its promises** exactly where no journal is lost before its key is created and no
write is thrown before the last proof. -/
theorem kept_iff (H : HashFn) (S : Store) (l : List Item) : Kept H S l ↔ Spared H S l := by
  constructor
  · intro h
    exact ⟨(journalFirst_iff H S l).mp h.journal, (turns_iff H S l).mp h.turns⟩
  · intro h
    exact ⟨(journalFirst_iff H S l).mpr h.journal, fun k v hk hv => once H S l hk hv,
      (turns_iff H S l).mpr h.last⟩

end Loop

/-- A proof whose writes end as given. -/
def sampleItem (ledger journal : Outcome) : Item :=
  ⟨smallProof [], 1760000000000, js "a1b2c3", ledger, journal, .ok⟩

/-- A key whose journal failed, and a proof that lost its turn to another one's failure. -/
theorem journal_lost :
    ¬ Kept sha256 ⟨[], []⟩ [sampleItem .ok (.failed (some 503) false)] ∧
      ¬ Kept sha256 ⟨[], []⟩ [sampleItem (.failed (some 503) false) .ok, sampleItem .ok .ok] := by
  have hhash : ∃ h, computeProofHash sha256 (smallProof []) = .ok h := by
    have hsome : (computeProofHash sha256 (smallProof [])).toOption.isSome = true := by decide +kernel
    obtain ⟨h, hh⟩ := Option.isSome_iff_exists.mp hsome
    exact ⟨h, toOption_eq_some.mp hh⟩
  constructor
  · intro h
    have hfirst := (journalFirst_iff _ _ _).mp h.journal [] _ [] rfl (by simp)
      ⟨hhash, rfl, rfl, rfl⟩
    rcases hfirst with hstores | ⟨j, hj, -⟩
    · cases hstores
    · cases hj
  · intro h
    have hlast := (turns_iff _ _ _).mp h.turns [] _ _ rfl (by simp) hhash (.inl rfl)
    cases hlast

end BitGraph.Ledger
