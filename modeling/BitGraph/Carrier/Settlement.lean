import BitGraph.Ceiling.Verify

/-!
`settlement.ts`: the Ethereum block that holds the batch of a Base block.

* **Pointer.** `verifySettlementPointer` checks a pointer as it was read; it stops at the first check
  that fails, and an exception escapes it.
* **Online.** `checkSettlementOnline` asks a node for the hash of the block.
-/

namespace BitGraph

open Js Carrier

namespace CarrierVerify

/-! ### Pointer -/

structure SettlementPins where
  l1ChainId : Number
  batchInbox : Str
  batcher : Str

def baseMainnetSettlementPins : SettlementPins where
  l1ChainId := Number.ofNat 1
  batchInbox := js "0xff00000000000000000000000000000000008453"
  batcher := js "0x5050f69a9786f081509234f1a7f4684b5e5b76c9"

/-- A signed type-3 transaction: its chain, recipient, blobs and signer. -/
structure Eip4844Tx where
  chainId : ℕ
  recipient : Str
  blobVersionedHashes : List Str
  signer : Str

structure SettlementCalls extends CeilingCalls where
  decodeEip4844 : Bytes → Except Thrown Eip4844Tx

/-- `BigInt(n)`. -/
def bigIntOf (n : Number) : Except Thrown ℤ :=
  match n.toInt? with
  | some i => .ok i
  | none => .error (rangeError (js "The number cannot be converted to a BigInt because it is not an integer"))

/-- The name of the check that failed, the checks that were made, and the block, where all of them
passed. -/
structure SettlementPointerResult where
  reason : Option Str
  checks : List Checked
  existedBy : Option BlockTime

section Pointer

variable (V : SettlementCalls)

/-- `0x01 || SHA-256(commitment)[1:]`. -/
def versionedHashOf (kzgCommitment : Bytes) : Str := evmBytesToHex (1 :: (V.H kzgCommitment).tail)

/-- The text of a reason shows a value. -/
def showing (v : Value) : Checks Unit := orThrow (v.string.map fun _ => ())

/-- A block of one of the pointer's fields against the header. -/
def sameCount (v : Value) (n : ℕ) : Checks Unit :=
  if isCount v n then pure ()
  else do
    showing v
    fail (js "header")

/-- The header is the one with that hash, number and time. -/
def l1HeaderStep (l1 : Value) : Checks DecodedHeader := do
  let header ← orFail (js "header") (hexOf (l1.get (js "blockHeader")) >>= decodeHeader V.K)
  let blockHash ← orThrow (lowerCase V.table (l1.get (js "blockHash")))
  require (header.hash == blockHash) (js "header")
  sameCount (l1.get (js "blockNumber")) header.number
  sameCount (l1.get (js "blockTimestamp")) header.timestamp
  pass (js "header")
  return header

/-- The batcher transaction is in the block. -/
def batchStep (l1 : Value) (header : DecodedHeader) : Checks Bytes := do
  let rawTx ← orFail (js "transaction") (hexOf (l1.get (js "rawTx")))
  let txHash ← orThrow (lowerCase V.table (l1.get (js "txHash")))
  require (evmBytesToHex (V.K rawTx) == txHash) (js "transaction")
  let root ← orThrow (evmHexToBytes header.transactionsRoot)
  let key ← orThrow (trieKeyOf (l1.get (js "txIndex")))
  let proof ← orThrow (hexListOf (l1.get (js "txInclusionProof")))
  require ((Trie.mptVerify V.K root key proof).any fun inBlock => bytesEqual inBlock rawTx) (js "inclusion")
  pass (js "inclusion")
  return rawTx

/-- One blob is listed, and its hash is that of its commitment. -/
def blobStep (listed : List Str) (b : Value) : Checks Unit := do
  let vh ← orThrow (b.prop (js "versionedHash") >>= lowerCase V.table)
  require (listed.contains vh) (js "blobs")
  let commitment ← orThrow (hexOf (b.get (js "kzgCommitment")))
  require (versionedHashOf V commitment == vh) (js "blobs")

def blobLoop (listed : List Str) : List Value → Checks Unit
  | [] => pure ()
  | b :: blobs => do
      blobStep V listed b
      blobLoop listed blobs

/-- It is a blob transaction from the batcher to the inbox, and lists the blobs. -/
def blobsStep (pointer : Value) (pins : SettlementPins) (rawTx : Bytes) : Checks Unit := do
  let tx ← orFail (js "transaction") (V.decodeEip4844 rawTx)
  let chainId ← orThrow (bigIntOf pins.l1ChainId)
  require ((tx.chainId : ℤ) == chainId) (js "chain")
  require (tx.recipient == toLowerCase V.table pins.batchInbox) (js "inbox")
  require (tx.signer == toLowerCase V.table pins.batcher) (js "batcher")
  match pointer.get (js "blobs") with
  | .arr (b :: blobs) => do
      blobLoop V (tx.blobVersionedHashes.map (toLowerCase V.table)) (b :: blobs)
      pass (js "blobs")
  | _ => fail (js "blobs")

def settlementChecks (pointer : Value) (pins : SettlementPins) : Checks BlockTime := do
  require (pointer.get (js "version") == .str settlementPointerVersion) (js "format")
  let l1 := pointer.get (js "l1")
  require (isObject l1) (js "format")
  if Value.strictEq (l1.get (js "chainId")) (.num pins.l1ChainId) then
    let header ← l1HeaderStep V l1
    let rawTx ← batchStep V l1 header
    blobsStep V pointer pins rawTx
    return ⟨header.number, header.hash, header.timestamp⟩
  else
    showing (l1.get (js "chainId"))
    fail (js "chain")

def verifySettlementPointer (pointer : Value) (pins : SettlementPins) :
    Except Thrown SettlementPointerResult :=
  let r := settlementChecks V pointer pins
  match r.out with
  | .ok existedBy => .ok ⟨none, r.log, some existedBy⟩
  | .error (.failed name) => .ok ⟨some name, r.log, none⟩
  | .error (.thrown e) => .error e

end Pointer

/-! ### What a pointer that passes says -/

section Passed

open Lib

variable {V : SettlementCalls} {pointer l1 : Value} {pins : SettlementPins} {checks : List Checked}
  {name : Str}

/-- A block that agrees with the sections of a pointer that name it. -/
structure Names (table : Str → Str) (l1 : Value) (e : BlockTime) : Prop where
  blockNumber : isCount (l1.get (js "blockNumber")) e.blockNumber = true
  blockHash : lowerCase table (l1.get (js "blockHash")) = .ok e.blockHash
  blockTimestamp : isCount (l1.get (js "blockTimestamp")) e.blockTimestamp = true

lemma ends_sameCount {v : Value} {n : ℕ} {u : Unit} (h : (sameCount v n).Ends checks u) :
    checks = [] ∧ isCount v n = true := by
  rw [sameCount] at h
  split at h
  · next hcount => exact ⟨(Logged.ends_pure.mp h).1, hcount⟩
  · obtain ⟨_, l₁, l₂, -, hfail, -⟩ := Logged.ends_bind.mp h
    exact absurd hfail Logged.not_ends_stop

lemma stops_sameCount {v : Value} {n : ℕ} (h : (sameCount v n).Stops checks (.failed name)) :
    checks = [⟨js "header", false⟩] ∧ name = js "header" := by
  rw [sameCount] at h
  split at h
  · exact absurd h Logged.not_stops_pure
  · rcases Logged.stops_bind.mp h with hshow | ⟨_, l₁, l₂, hshow, hfail, rfl⟩
    · exact absurd hshow not_stops_orThrow
    · obtain rfl := (ends_orThrow.mp hshow).1
      obtain ⟨rfl, heq⟩ := Logged.stops_stop.mp hfail
      exact ⟨rfl, (Stop.failed.inj heq).symm⟩

lemma l1HeaderStep_ends {header : DecodedHeader} (h : (l1HeaderStep V l1).Ends checks header) :
    checks = [⟨js "header", true⟩]
      ∧ Names V.table l1 ⟨header.number, header.hash, header.timestamp⟩ := by
  obtain ⟨read, l₁, l₂, hread, hrest, rfl⟩ := Logged.ends_bind.mp h
  obtain ⟨blockHash, l₃, l₄, hlower, hrest', rfl⟩ := Logged.ends_bind.mp hrest
  obtain ⟨_, l₅, l₆, hsame, hrest'', rfl⟩ := Logged.ends_bind.mp hrest'
  obtain ⟨_, l₇, l₈, hnumber, hrest₃, rfl⟩ := Logged.ends_bind.mp hrest''
  obtain ⟨_, l₉, l₀, htime, hrest₄, rfl⟩ := Logged.ends_bind.mp hrest₃
  obtain ⟨_, m₁, m₂, hpass, hpure, rfl⟩ := Logged.ends_bind.mp hrest₄
  obtain ⟨rfl, rfl⟩ := Logged.ends_pure.mp hpure
  obtain rfl := (ends_orFail.mp hread).1
  obtain ⟨rfl, hhash⟩ := ends_orThrow.mp hlower
  obtain ⟨rfl, hok⟩ := ends_require.mp hsame
  obtain ⟨rfl, hcount⟩ := ends_sameCount hnumber
  obtain ⟨rfl, hcount'⟩ := ends_sameCount htime
  obtain rfl := ends_pass.mp hpass
  exact ⟨rfl, hcount, by rw [hhash, beq_iff_eq.mp hok], hcount'⟩

lemma l1HeaderStep_stops (h : (l1HeaderStep V l1).Stops checks (.failed name)) :
    checks = [⟨js "header", false⟩] ∧ name = js "header" := by
  rcases Logged.stops_bind.mp h with hread | ⟨read, l₁, l₂, hread, hrest, rfl⟩
  · obtain ⟨rfl, rfl⟩ := stops_orFail hread
    exact ⟨rfl, rfl⟩
  obtain rfl := (ends_orFail.mp hread).1
  rcases Logged.stops_bind.mp hrest with hlower | ⟨blockHash, l₃, l₄, hlower, hrest', rfl⟩
  · exact absurd hlower not_stops_orThrow
  obtain rfl := (ends_orThrow.mp hlower).1
  rcases Logged.stops_bind.mp hrest' with hsame | ⟨_, l₅, l₆, hsame, hrest'', rfl⟩
  · obtain ⟨-, rfl, rfl⟩ := stops_require.mp hsame
    exact ⟨rfl, rfl⟩
  obtain rfl := (ends_require.mp hsame).1
  rcases Logged.stops_bind.mp hrest'' with hnumber | ⟨_, l₇, l₈, hnumber, hrest₃, rfl⟩
  · exact stops_sameCount hnumber
  obtain rfl := (ends_sameCount hnumber).1
  rcases Logged.stops_bind.mp hrest₃ with htime | ⟨_, l₉, l₀, htime, hrest₄, rfl⟩
  · exact stops_sameCount htime
  obtain rfl := (ends_sameCount htime).1
  rcases Logged.stops_bind.mp hrest₄ with hpass | ⟨_, m₁, m₂, -, hpure, rfl⟩
  · exact absurd hpass not_stops_pass
  · exact absurd hpure Logged.not_stops_pure

/-- The names of the checks that no claim reports. -/
def unreported : List Str := [js "format", js "chain", js "transaction", js "inbox", js "batcher"]

/-- The names of the checks that a claim reports. -/
def reported : List Str := [js "header", js "inclusion", js "blobs"]

lemma batchStep_ends {header : DecodedHeader} {rawTx : Bytes}
    (h : (batchStep V l1 header).Ends checks rawTx) : checks = [⟨js "inclusion", true⟩] := by
  obtain ⟨read, l₁, l₂, hread, hrest, rfl⟩ := Logged.ends_bind.mp h
  obtain ⟨txHash, l₃, l₄, hlower, hrest', rfl⟩ := Logged.ends_bind.mp hrest
  obtain ⟨_, l₅, l₆, hsame, hrest'', rfl⟩ := Logged.ends_bind.mp hrest'
  obtain ⟨root, l₇, l₈, hroot, hrest₃, rfl⟩ := Logged.ends_bind.mp hrest''
  obtain ⟨key, l₉, l₀, hkey, hrest₄, rfl⟩ := Logged.ends_bind.mp hrest₃
  obtain ⟨proof, m₁, m₂, hproof, hrest₅, rfl⟩ := Logged.ends_bind.mp hrest₄
  obtain ⟨_, m₃, m₄, hin, hrest₆, rfl⟩ := Logged.ends_bind.mp hrest₅
  obtain ⟨_, m₅, m₆, hpass, hpure, rfl⟩ := Logged.ends_bind.mp hrest₆
  rw [(ends_orFail.mp hread).1, (ends_orThrow.mp hlower).1, (ends_require.mp hsame).1,
    (ends_orThrow.mp hroot).1, (ends_orThrow.mp hkey).1, (ends_orThrow.mp hproof).1,
    (ends_require.mp hin).1, ends_pass.mp hpass, (Logged.ends_pure.mp hpure).1]
  rfl

lemma batchStep_stops {header : DecodedHeader} (h : (batchStep V l1 header).Stops checks (.failed name)) :
    name = js "transaction" ∨ (checks = [⟨js "inclusion", false⟩] ∧ name = js "inclusion") := by
  rcases Logged.stops_bind.mp h with hread | ⟨read, l₁, l₂, hread, hrest, rfl⟩
  · exact .inl (stops_orFail hread).2.symm
  obtain rfl := (ends_orFail.mp hread).1
  rcases Logged.stops_bind.mp hrest with hlower | ⟨txHash, l₃, l₄, hlower, hrest', rfl⟩
  · exact absurd hlower not_stops_orThrow
  obtain rfl := (ends_orThrow.mp hlower).1
  rcases Logged.stops_bind.mp hrest' with hsame | ⟨_, l₅, l₆, hsame, hrest'', rfl⟩
  · exact .inl (stops_require.mp hsame).2.2.symm
  obtain rfl := (ends_require.mp hsame).1
  rcases Logged.stops_bind.mp hrest'' with hroot | ⟨root, l₇, l₈, hroot, hrest₃, rfl⟩
  · exact absurd hroot not_stops_orThrow
  obtain rfl := (ends_orThrow.mp hroot).1
  rcases Logged.stops_bind.mp hrest₃ with hkey | ⟨key, l₉, l₀, hkey, hrest₄, rfl⟩
  · exact absurd hkey not_stops_orThrow
  obtain rfl := (ends_orThrow.mp hkey).1
  rcases Logged.stops_bind.mp hrest₄ with hproof | ⟨proof, m₁, m₂, hproof, hrest₅, rfl⟩
  · exact absurd hproof not_stops_orThrow
  obtain rfl := (ends_orThrow.mp hproof).1
  rcases Logged.stops_bind.mp hrest₅ with hin | ⟨_, m₃, m₄, hin, hrest₆, rfl⟩
  · obtain ⟨-, rfl, rfl⟩ := stops_require.mp hin
    exact .inr ⟨rfl, rfl⟩
  obtain rfl := (ends_require.mp hin).1
  rcases Logged.stops_bind.mp hrest₆ with hpass | ⟨_, m₅, m₆, -, hpure, rfl⟩
  · exact absurd hpass not_stops_pass
  · exact absurd hpure Logged.not_stops_pure

lemma blobStep_ends {listed : List Str} {b : Value} {u : Unit} (h : (blobStep V listed b).Ends checks u) :
    checks = [] := by
  obtain ⟨vh, l₁, l₂, hvh, hrest, rfl⟩ := Logged.ends_bind.mp h
  obtain ⟨_, l₃, l₄, hlisted, hrest', rfl⟩ := Logged.ends_bind.mp hrest
  obtain ⟨commitment, l₅, l₆, hcommitment, hsame, rfl⟩ := Logged.ends_bind.mp hrest'
  rw [(ends_orThrow.mp hvh).1, (ends_require.mp hlisted).1, (ends_orThrow.mp hcommitment).1,
    (ends_require.mp hsame).1]
  rfl

lemma blobStep_stops {listed : List Str} {b : Value} (h : (blobStep V listed b).Stops checks (.failed name)) :
    checks = [⟨js "blobs", false⟩] ∧ name = js "blobs" := by
  rcases Logged.stops_bind.mp h with hvh | ⟨vh, l₁, l₂, hvh, hrest, rfl⟩
  · exact absurd hvh not_stops_orThrow
  obtain rfl := (ends_orThrow.mp hvh).1
  rcases Logged.stops_bind.mp hrest with hlisted | ⟨_, l₃, l₄, hlisted, hrest', rfl⟩
  · obtain ⟨-, rfl, rfl⟩ := stops_require.mp hlisted
    exact ⟨rfl, rfl⟩
  obtain rfl := (ends_require.mp hlisted).1
  rcases Logged.stops_bind.mp hrest' with hcommitment | ⟨commitment, l₅, l₆, hcommitment, hsame, rfl⟩
  · exact absurd hcommitment not_stops_orThrow
  obtain rfl := (ends_orThrow.mp hcommitment).1
  obtain ⟨-, rfl, rfl⟩ := stops_require.mp hsame
  exact ⟨rfl, rfl⟩

lemma blobLoop_stops {listed : List Str} {blobs : List Value}
    (h : (blobLoop V listed blobs).Stops checks (.failed name)) :
    checks = [⟨js "blobs", false⟩] ∧ name = js "blobs" := by
  induction blobs generalizing checks with
  | nil => exact absurd h Logged.not_stops_pure
  | cons b blobs ih =>
      rcases Logged.stops_bind.mp h with hstep | ⟨_, l₁, l₂, hstep, hloop, rfl⟩
      · exact blobStep_stops hstep
      · rw [blobStep_ends hstep]
        exact ih hloop

lemma blobsStep_stops {rawTx : Bytes} (h : (blobsStep V pointer pins rawTx).Stops checks (.failed name)) :
    name ∈ unreported ∨ (checks = [⟨js "blobs", false⟩] ∧ name = js "blobs") := by
  rcases Logged.stops_bind.mp h with htx | ⟨tx, l₁, l₂, htx, hrest, rfl⟩
  · rw [← (stops_orFail htx).2]
    exact .inl (by decide)
  obtain rfl := (ends_orFail.mp htx).1
  rcases Logged.stops_bind.mp hrest with hchain | ⟨chainId, l₃, l₄, hchain, hrest', rfl⟩
  · exact absurd hchain not_stops_orThrow
  obtain rfl := (ends_orThrow.mp hchain).1
  rcases Logged.stops_bind.mp hrest' with hsame | ⟨_, l₅, l₆, hsame, hrest'', rfl⟩
  · rw [← (stops_require.mp hsame).2.2]
    exact .inl (by decide)
  obtain rfl := (ends_require.mp hsame).1
  rcases Logged.stops_bind.mp hrest'' with hinbox | ⟨_, l₇, l₈, hinbox, hrest₃, rfl⟩
  · rw [← (stops_require.mp hinbox).2.2]
    exact .inl (by decide)
  obtain rfl := (ends_require.mp hinbox).1
  rcases Logged.stops_bind.mp hrest₃ with hbatcher | ⟨_, l₉, l₀, hbatcher, hrest₄, rfl⟩
  · rw [← (stops_require.mp hbatcher).2.2]
    exact .inl (by decide)
  obtain rfl := (ends_require.mp hbatcher).1
  right
  split at hrest₄
  · rcases Logged.stops_bind.mp hrest₄ with hloop | ⟨_, m₁, m₂, -, hpass, rfl⟩
    · exact blobLoop_stops hloop
    · exact absurd hpass not_stops_pass
  · obtain ⟨rfl, heq⟩ := Logged.stops_stop.mp hrest₄
    exact ⟨rfl, (Stop.failed.inj heq).symm⟩

/-- A check of a pointer fails with its name: it is the last of its checks, or no claim reports it. -/
lemma settlementChecks_stops (h : (settlementChecks V pointer pins).Stops checks (.failed name)) :
    name ∈ unreported ∨ (name ∈ reported ∧ byName checks name = some ⟨name, false⟩) := by
  rcases Logged.stops_bind.mp h with hformat | ⟨_, l₁, l₂, hformat, hrest, rfl⟩
  · rw [← (stops_require.mp hformat).2.2]
    exact .inl (by decide)
  obtain rfl := (ends_require.mp hformat).1
  rcases Logged.stops_bind.mp hrest with hl1 | ⟨_, l₃, l₄, hl1, hrest', rfl⟩
  · rw [← (stops_require.mp hl1).2.2]
    exact .inl (by decide)
  obtain rfl := (ends_require.mp hl1).1
  split at hrest'
  · rcases Logged.stops_bind.mp hrest' with hheader | ⟨header, l₅, l₆, hheader, hrest'', rfl⟩
    · obtain ⟨rfl, rfl⟩ := l1HeaderStep_stops hheader
      exact .inr (by decide)
    obtain rfl := (l1HeaderStep_ends hheader).1
    rcases Logged.stops_bind.mp hrest'' with hbatch | ⟨rawTx, l₇, l₈, hbatch, hrest₃, rfl⟩
    · rcases batchStep_stops hbatch with rfl | ⟨rfl, rfl⟩
      · exact .inl (by decide)
      · exact .inr (by decide)
    obtain rfl := batchStep_ends hbatch
    rcases Logged.stops_bind.mp hrest₃ with hblobs | ⟨_, l₉, l₀, -, hpure, rfl⟩
    · rcases blobsStep_stops hblobs with hname | ⟨rfl, rfl⟩
      · exact .inl hname
      · exact .inr (by decide)
    · exact absurd hpure Logged.not_stops_pure
  · rcases Logged.stops_bind.mp hrest' with hshow | ⟨_, l₅, l₆, -, hfail, rfl⟩
    · exact absurd hshow not_stops_orThrow
    · rw [← Stop.failed.inj (Logged.stops_stop.mp hfail).2]
      exact .inl (by decide)

lemma settlementChecks_ends {e : BlockTime} (h : (settlementChecks V pointer pins).Ends checks e) :
    Names V.table (pointer.get (js "l1")) e := by
  obtain ⟨_, l₁, l₂, -, hrest, -⟩ := Logged.ends_bind.mp h
  obtain ⟨_, l₃, l₄, -, hrest', -⟩ := Logged.ends_bind.mp hrest
  split at hrest'
  · obtain ⟨header, l₅, l₆, hheader, hrest'', -⟩ := Logged.ends_bind.mp hrest'
    obtain ⟨rawTx, l₇, l₈, -, hrest₃, -⟩ := Logged.ends_bind.mp hrest''
    obtain ⟨_, l₉, l₀, -, hpure, -⟩ := Logged.ends_bind.mp hrest₃
    obtain rfl := (Logged.ends_pure.mp hpure).2
    exact (l1HeaderStep_ends hheader).2
  · obtain ⟨_, l₅, l₆, -, hfail, -⟩ := Logged.ends_bind.mp hrest'
    exact absurd hfail Logged.not_ends_stop

/-- A pointer passes, for the block it names, or it fails a check that is reported under its name, or
one that is not reported. -/
theorem verifySettlementPointer_ok {sp : SettlementPointerResult}
    (h : verifySettlementPointer V pointer pins = .ok sp) :
    (∃ e, sp.reason = none ∧ sp.existedBy = some e ∧ Names V.table (pointer.get (js "l1")) e)
      ∨ ∃ name, sp.reason = some name ∧ sp.existedBy = none
        ∧ (name ∈ unreported ∨ (name ∈ reported ∧ byName sp.checks name = some ⟨name, false⟩)) := by
  rw [verifySettlementPointer] at h
  generalize hr : settlementChecks V pointer pins = r at h
  obtain ⟨log, out⟩ := r
  cases out with
  | ok e =>
      obtain rfl := Except.ok.inj h
      exact .inl ⟨e, rfl, rfl, settlementChecks_ends hr⟩
  | error stop =>
      cases stop with
      | failed name =>
          obtain rfl := Except.ok.inj h
          exact .inr ⟨name, rfl, rfl, settlementChecks_stops hr⟩
      | thrown e => cases h

end Passed

/-! ### Online -/

/-- What a node answers: it fails, it knows no block, or it names one by its hash. -/
inductive Answer where
  | threw (e : Thrown)
  | null
  | hash (s : Str)

/-- A lookup: what it answers when it is asked for a height. It may answer each question of a run in
its own way. -/
abbrev Lookup := ℕ → Value → Answer

/-- The settling block is Ethereum's own. -/
def checkSettlementOnline (table : Str → Str) (ask : Value → Answer) (pointer : Value) :
    Except Thrown Bool := do
  let l1 ← pointer.prop (js "l1")
  let blockNumber ← l1.prop (js "blockNumber")
  match ask blockNumber with
  | .threw e => .error e
  | .null =>
      let _ ← blockNumber.string
      return false
  | .hash chainHash =>
      let blockHash ← lowerCase table (l1.get (js "blockHash"))
      let _ ← blockNumber.string
      return toLowerCase table chainHash == blockHash

end CarrierVerify

end BitGraph
