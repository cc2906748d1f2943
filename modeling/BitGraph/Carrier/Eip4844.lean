import BitGraph.Carrier.Settlement
import BitGraph.Trie.Verify

/-!
`settlement.ts`: the batch transaction, and what the check of a pointer answers.

* **Transactions.** `decodeEip4844` decodes a signed type-3 transaction and recovers its sender; the
  curve is a parameter. `decodeEip4844_eq_ok`: what a transaction that decodes says.
* **Soundness.** `settled_of_ok`: what a pointer that passes rests on.
* **Exceptions.** `settlementPointer_iff`: the check answers exactly where every field it reads
  without a guard has its type.
-/

namespace BitGraph

open Js Carrier

namespace CarrierVerify

/-! ### Transactions -/

/-- The calls of the curve secp256k1: compact signatures, and the uncompressed public key that one
recovers to. -/
structure Secp256k1 where
  Signature : Type
  fromBytes : Bytes → Except Thrown Signature
  hasHighS : Signature → Bool
  recoverPublicKey : Signature → ℕ → Bytes → Except Thrown Bytes

/-- `n.toString(16)`. -/
def toHex (n : ℕ) : Str := if n = 0 then js "0" else (Nat.digits 16 n).reverse.map hexDigit

/-- `s.padStart(64, "0")`. -/
def padHex (s : Str) : Str := List.replicate (64 - s.length) 48 ++ s

def asList (item : Option RlpItem) (what : String) : Except Thrown (List RlpItem) :=
  match item with
  | some (.list l) => .ok l
  | _ => .error (typeError (js what ++ js ": expected a list"))

def asBytes (item : Option RlpItem) (what : String) : Except Thrown Bytes :=
  match item with
  | some (.bytes b) => .ok b
  | _ => .error (typeError (js what ++ js ": expected bytes"))

/-- A signed type-3 transaction in its network form, with its sender. -/
def decodeEip4844 (K : HashFn) (C : Secp256k1) (raw : Bytes) : Except Thrown Eip4844Tx := do
  if raw.length < 2 ∨ raw.head? ≠ some 3 then
    .error (typeError (js "tx: not an EIP-4844 (type 3) transaction"))
  else
    let item ← rlpDecode (raw.drop 1)
    let f ← asList (some item) "tx"
    if f.length ≠ 14 then .error (typeError (js "tx: a type-3 transaction has 14 fields"))
    else
      let chainId ← rlpUint f[0]? "tx.chainId"
      let _nonce ← rlpUint f[1]? "tx.nonce"
      let toBytes ← asBytes f[5]? "tx.to"
      if toBytes.length ≠ 20 then
        .error (typeError (js "tx: a blob transaction names a recipient"))
      else
        let _data ← asBytes f[7]? "tx.data"
        let _accessList ← asList f[8]? "tx.accessList"
        let listed ← asList f[10]? "tx.blobVersionedHashes"
        let hashes ← listed.mapM fun h =>
          evmBytesToHex <$> asBytes (some h) "tx.blobVersionedHashes[]"
        if hashes = [] then
          .error (typeError (js "tx: a blob transaction lists at least one blob"))
        else
          let yParity ← rlpUint f[11]? "tx.yParity"
          let r ← rlpUint f[12]? "tx.r"
          let s ← rlpUint f[13]? "tx.s"
          if 1 < yParity then .error (typeError (js "tx: yParity must be 0 or 1"))
          else
            let signingHash := K (3 :: rlpEncode (.list (f.take 11)))
            let compact ← evmHexToBytes (padHex (toHex r) ++ padHex (toHex s))
            let sig ← C.fromBytes compact
            if C.hasHighS sig then .error (typeError (js "tx: high-s signature"))
            else
              let pub ← C.recoverPublicKey sig yParity signingHash
              return {
                chainId
                recipient := evmBytesToHex toBytes
                blobVersionedHashes := hashes
                signer := evmBytesToHex ((K (pub.drop 1)).drop 12) }

lemma asBytes_eq_ok {item : Option RlpItem} {what : String} {b : Bytes} :
    asBytes item what = .ok b ↔ item = some (.bytes b) := by
  rw [asBytes.eq_def]
  split
  · simp
  · next h => exact ⟨fun heq => (nomatch heq), fun heq => absurd heq (h b)⟩

lemma asList_eq_ok {item : Option RlpItem} {what : String} {l : List RlpItem} :
    asList item what = .ok l ↔ item = some (.list l) := by
  rw [asList.eq_def]
  split
  · simp
  · next h => exact ⟨fun heq => (nomatch heq), fun heq => absurd heq (h l)⟩

/-- The texts of a list of byte strings. -/
lemma mapM_texts {what : String} : ∀ {listed : List RlpItem} {texts : List Str},
    listed.mapM (fun h => evmBytesToHex <$> asBytes (some h) what) = .ok texts →
      ∃ hashes : List Bytes, listed = hashes.map .bytes ∧ texts = hashes.map evmBytesToHex
  | [], texts, h => by
      rw [List.mapM_nil] at h
      cases h
      exact ⟨[], rfl, rfl⟩
  | item :: listed, texts, h => by
      rw [List.mapM_cons] at h
      obtain ⟨text, htext, h⟩ := bind_eq_ok h
      obtain ⟨rest, hrest, h⟩ := bind_eq_ok h
      cases h
      obtain ⟨hashes, rfl, rfl⟩ := mapM_texts hrest
      cases hb : asBytes (some item) what with
      | error e =>
          rw [hb] at htext
          cases htext
      | ok b =>
          rw [hb] at htext
          cases htext
          cases asBytes_eq_ok.mp hb
          exact ⟨b :: hashes, rfl, rfl⟩

/-- A signed type-3 transaction: its chain, its recipient, the versioned hashes of its blobs, and the
address that its low-s signature recovers to. -/
structure SignedBatch (K : HashFn) (C : Secp256k1) (raw : Bytes) (chainId : ℕ)
    (recipient signer : Bytes) (hashes : List Bytes) (f : List RlpItem) : Prop where
  encoding : raw = 3 :: rlpEncode (.list f)
  fields : f.length = 14
  chain : rlpUint f[0]? "tx.chainId" = .ok chainId
  recipient : f[5]? = some (.bytes recipient) ∧ recipient.length = 20
  hashes : f[10]? = some (.list (hashes.map .bytes)) ∧ hashes ≠ []
  signer : ∃ yParity r s compact sig pub, rlpUint f[11]? "tx.yParity" = .ok yParity
    ∧ rlpUint f[12]? "tx.r" = .ok r ∧ rlpUint f[13]? "tx.s" = .ok s ∧ yParity ≤ 1
    ∧ evmHexToBytes (padHex (toHex r) ++ padHex (toHex s)) = .ok compact
    ∧ C.fromBytes compact = .ok sig ∧ C.hasHighS sig = false
    ∧ C.recoverPublicKey sig yParity (K (3 :: rlpEncode (.list (f.take 11)))) = .ok pub
    ∧ signer = (K (pub.drop 1)).drop 12

/-- What a transaction that decodes says. -/
lemma decodeEip4844_eq_ok {K : HashFn} {C : Secp256k1} {raw : Bytes} {tx : Eip4844Tx}
    (h : decodeEip4844 K C raw = .ok tx) :
    ∃ recipient signer hashes f, SignedBatch K C raw tx.chainId recipient signer hashes f
      ∧ tx.recipient = evmBytesToHex recipient ∧ tx.signer = evmBytesToHex signer
      ∧ tx.blobVersionedHashes = hashes.map evmBytesToHex := by
  rw [decodeEip4844] at h
  split_ifs at h with htype
  rw [not_or, not_lt, not_not] at htype
  obtain ⟨item, hitem, h⟩ := bind_eq_ok h
  obtain ⟨f, hf, h⟩ := bind_eq_ok h
  have hlist : item = .list f := Option.some.inj (asList_eq_ok.mp hf)
  rw [hlist] at hitem
  split_ifs at h with hfields
  obtain ⟨chainId, hchain, h⟩ := bind_eq_ok h
  obtain ⟨nonce, -, h⟩ := bind_eq_ok h
  obtain ⟨toBytes, hto, h⟩ := bind_eq_ok h
  split_ifs at h with hlen
  obtain ⟨data, -, h⟩ := bind_eq_ok h
  obtain ⟨accessList, -, h⟩ := bind_eq_ok h
  obtain ⟨listed, hlisted, h⟩ := bind_eq_ok h
  obtain ⟨texts, htexts, h⟩ := bind_eq_ok h
  split_ifs at h with hnone
  obtain ⟨yParity, hparity, h⟩ := bind_eq_ok h
  obtain ⟨r, hr, h⟩ := bind_eq_ok h
  obtain ⟨s, hs, h⟩ := bind_eq_ok h
  split_ifs at h with hle
  obtain ⟨compact, hcompact, h⟩ := bind_eq_ok h
  obtain ⟨sig, hsig, h⟩ := bind_eq_ok h
  split_ifs at h with hhigh
  obtain ⟨pub, hpub, h⟩ := bind_eq_ok h
  cases h
  obtain ⟨hashes, rfl, rfl⟩ := mapM_texts htexts
  have hencode : raw = 3 :: rlpEncode (.list f) := by
    obtain ⟨x, rest, rfl⟩ : ∃ x rest, raw = x :: rest := by
      cases raw with
      | nil => cases htype.2
      | cons x rest => exact ⟨x, rest, rfl⟩
    cases htype.2
    rw [rlpEncode_of_rlpDecode hitem]
    rfl
  refine ⟨toBytes, _, hashes, f, ⟨hencode, not_not.mp hfields, hchain,
    ⟨asBytes_eq_ok.mp hto, not_not.mp hlen⟩, ⟨asList_eq_ok.mp hlisted, ?_⟩, yParity, r, s, compact, sig, pub,
    hparity, hr, hs, not_lt.mp hle, hcompact, hsig, by simpa using hhigh, hpub, rfl⟩, rfl, rfl, rfl⟩
  rintro rfl
  exact hnone rfl

/-! ### Outcomes of a check -/

section Outcomes

open Lib

variable {α β : Type} {x : Checks α} {f : α → Checks β} {a : α} {b : β} {name : Str} {ok : Bool}

/-- No exception escapes the check. -/
def Quiet (x : Checks α) : Prop := ∀ e, x.out ≠ .error (.thrown e)

lemma quiet_bind : Quiet (x >>= f) ↔ Quiet x ∧ ∀ a, x.out = .ok a → Quiet (f a) := by
  constructor
  · intro h
    refine ⟨fun e he => h e (Logged.out_bind_error.mpr (.inl he)), fun a ha e he => ?_⟩
    exact h e (Logged.out_bind_error.mpr (.inr ⟨a, ha, he⟩))
  · rintro ⟨hx, hf⟩ e he
    rcases Logged.out_bind_error.mp he with he | ⟨a, ha, he⟩
    · exact hx e he
    · exact hf a ha e he

@[simp] lemma quiet_pure : Quiet (pure a : Checks α) := fun _ h => nomatch h

@[simp] lemma quiet_pass : Quiet (pass name) := fun _ h => nomatch h

@[simp] lemma quiet_fail : Quiet (fail name : Checks α) := fun _ h => nomatch h

@[simp] lemma quiet_require : Quiet (require ok name) := by
  rw [require]
  split <;> simp

@[simp] lemma quiet_orFail {y : Except Thrown α} : Quiet (orFail name y) := by
  cases y <;> simp [orFail]

lemma quiet_orThrow {y : Except Thrown α} : Quiet (orThrow y) ↔ ∃ a, y = .ok a := by
  cases y with
  | ok a => exact iff_of_true (fun _ h => nomatch h) ⟨a, rfl⟩
  | error e => exact iff_of_false (fun h => h e rfl) fun ⟨_, h⟩ => nomatch h

@[simp] lemma out_require {u : Unit} : (require ok name).out = .ok u ↔ ok = true := by
  rw [require]
  cases ok with
  | true => exact iff_of_true rfl rfl
  | false => exact iff_of_false (fun h => by cases h) (fun h => by cases h)

@[simp] lemma out_orThrow {y : Except Thrown α} : (orThrow y).out = .ok a ↔ y = .ok a := by
  cases y with
  | ok b => exact ⟨fun h => congrArg _ (Except.ok.inj h), fun h => congrArg _ (Except.ok.inj h)⟩
  | error e => exact ⟨fun h => (nomatch h), fun h => (nomatch h)⟩

@[simp] lemma out_orFail {y : Except Thrown α} : (orFail name y).out = .ok a ↔ y = .ok a := by
  cases y with
  | ok b => exact ⟨fun h => congrArg _ (Except.ok.inj h), fun h => congrArg _ (Except.ok.inj h)⟩
  | error e => exact ⟨fun h => (nomatch h), fun h => (nomatch h)⟩

@[simp] lemma out_fail : ¬ (fail name : Checks α).out = .ok a := fun h => nomatch h

lemma out_pure {a' : α} : (pure a : Checks α).out = .ok a' ↔ a = a' :=
  ⟨fun h => Except.ok.inj h, fun h => congrArg _ h⟩

end Outcomes

/-! ### Soundness -/

section Soundness

open Lib

variable {V : SettlementCalls} {C : Secp256k1} {pointer l1 : Value} {pins : SettlementPins}

lemma lowerCase_eq_ok_iff {table : Str → Str} {v : Value} {t : Str} :
    lowerCase table v = .ok t ↔ ∃ s, v = .str s ∧ toLowerCase table s = t := by
  rw [lowerCase.eq_def]
  split
  · next s => exact ⟨fun h => ⟨s, rfl, Except.ok.inj h⟩, fun ⟨_, heq, h⟩ => by cases heq; rw [h]⟩
  · next h =>
    refine ⟨fun heq => ?_, fun ⟨s, hs, _⟩ => absurd hs (h s)⟩
    obtain ⟨_, -, herror⟩ := bind_eq_ok heq
    cases herror

/-- The header of the Ethereum block, its root of transactions and the block it is. -/
structure HeaderOf (V : SettlementCalls) (l1 : Value) (txRoot : Bytes) (e : BlockTime) : Prop where
  blockHash : lowerCase V.table (l1.get (js "blockHash")) = .ok e.blockHash
  fields : ∃ raw f number timestamp, hexOf (l1.get (js "blockHeader")) = .ok raw
    ∧ e.blockHash = evmBytesToHex (V.K raw) ∧ rlpDecode raw = .ok (.list f)
    ∧ f[4]? = some (.bytes txRoot)
    ∧ f[8]? = some (.bytes number) ∧ e.blockNumber = Sha256.beNat number
    ∧ f[11]? = some (.bytes timestamp) ∧ e.blockTimestamp = Sha256.beNat timestamp

/-- The transaction is the value at its index in the trie of the transactions, or a node of the proof
collides with a node of the trie. -/
structure InBlock (V : SettlementCalls) (l1 : Value) (txRoot rawTx : Bytes) : Prop where
  raw : hexOf (l1.get (js "rawTx")) = .ok rawTx
  value : ∃ n i, l1.get (js "txIndex") = .num n ∧ n.toInt? = some ((i : ℕ) : ℤ)
    ∧ ∀ values, Trie.Sized values → Trie.TrieRoot V.K values txRoot → values[i]? = some rawTx
      ∨ ∃ proof N, hexListOf (l1.get (js "txInclusionProof")) = .ok proof
        ∧ Radix.IsTree (Trie.txMap values) N ∧ V.K.Collides proof (Trie.encodings V.K N)

/-- The transaction is of the pinned chain, to the pinned inbox and by the pinned batcher. -/
structure Pinned (V : SettlementCalls) (pins : SettlementPins) (chainId : ℕ) (recipient signer : Bytes) :
    Prop where
  chain : bigIntOf pins.l1ChainId = .ok (chainId : ℤ)
  inbox : evmBytesToHex recipient = toLowerCase V.table pins.batchInbox
  batcher : evmBytesToHex signer = toLowerCase V.table pins.batcher

/-- The blobs of the pointer are blobs of the transaction, each with a commitment that hashes to its
versioned hash. -/
def BlobsOf (V : SettlementCalls) (pointer : Value) (hashes : List Bytes) : Prop :=
  ∃ l, pointer.get (js "blobs") = .arr l ∧ l ≠ [] ∧ ∀ b ∈ l, ∃ h ∈ hashes, ∃ commitment,
    lowerCase V.table (b.get (js "versionedHash")) = .ok (evmBytesToHex h)
      ∧ hexOf (b.get (js "kzgCommitment")) = .ok commitment ∧ h = 1 :: (V.H commitment).tail

/-- What an answer without a reason says of the block it names. -/
def Settled (V : SettlementCalls) (C : Secp256k1) (pointer : Value) (pins : SettlementPins)
    (e : BlockTime) : Prop :=
  ∃ txRoot rawTx chainId recipient signer hashes f,
    HeaderOf V (pointer.get (js "l1")) txRoot e ∧ InBlock V (pointer.get (js "l1")) txRoot rawTx
      ∧ SignedBatch V.K C rawTx chainId recipient signer hashes f
      ∧ Pinned V pins chainId recipient signer ∧ BlobsOf V pointer hashes

/-- A header that decodes, by its fields. -/
lemma decodeHeader_eq_ok {K : HashFn} {raw : Bytes} {h : DecodedHeader} (hd : decodeHeader K raw = .ok h) :
    ∃ f txRoot number timestamp, rlpDecode raw = .ok (.list f) ∧ f[4]? = some (.bytes txRoot)
      ∧ h.transactionsRoot = evmBytesToHex txRoot ∧ f[8]? = some (.bytes number)
      ∧ h.number = Sha256.beNat number ∧ f[11]? = some (.bytes timestamp)
      ∧ h.timestamp = Sha256.beNat timestamp := by
  have hbytes : ∀ {item : Option RlpItem} {what : String} {b : Bytes},
      BitGraph.asBytes item what = .ok b → item = some (.bytes b) := by
    intro item what b hb
    rw [BitGraph.asBytes.eq_def] at hb
    split at hb
    · rw [Except.ok.inj hb]
    · cases hb
  have huint : ∀ {item : Option RlpItem} {what : String} {n : ℕ}, rlpUint item what = .ok n →
      ∃ b, item = some (.bytes b) ∧ n = Sha256.beNat b := by
    intro item what n hn
    rw [rlpUint] at hn
    obtain ⟨b, hb, hn⟩ := bind_eq_ok hn
    split_ifs at hn
    exact ⟨b, hbytes hb, (Except.ok.inj hn).symm⟩
  rw [decodeHeader] at hd
  obtain ⟨item, hitem, hd⟩ := bind_eq_ok hd
  cases item with
  | bytes b => cases hd
  | list f =>
      dsimp only at hd
      split_ifs at hd
      obtain ⟨num, hnum, hd⟩ := bind_eq_ok hd
      obtain ⟨ts, hts, hd⟩ := bind_eq_ok hd
      split_ifs at hd
      obtain ⟨txRoot, hroot, hd⟩ := bind_eq_ok hd
      obtain ⟨parent, -, hd⟩ := bind_eq_ok hd
      split_ifs at hd
      cases hd
      obtain ⟨number, hnumber, rfl⟩ := huint hnum
      obtain ⟨timestamp, htimestamp, rfl⟩ := huint hts
      exact ⟨f, txRoot, number, timestamp, hitem, hbytes hroot, rfl, hnumber, rfl, htimestamp, rfl⟩

lemma out_sameCount {v : Value} {n : ℕ} {u : Unit} : (sameCount v n).out = .ok u ↔ isCount v n = true := by
  rw [sameCount]
  split_ifs with h
  · exact iff_of_true rfl h
  · rw [Logged.out_bind_ok]
    exact iff_of_false (by rintro ⟨_, _, hfail⟩; exact out_fail hfail) h

lemma out_l1HeaderStep {header : DecodedHeader} : (l1HeaderStep V l1).out = .ok header
    ↔ (hexOf (l1.get (js "blockHeader")) >>= decodeHeader V.K) = .ok header
      ∧ lowerCase V.table (l1.get (js "blockHash")) = .ok header.hash
      ∧ isCount (l1.get (js "blockNumber")) header.number = true
      ∧ isCount (l1.get (js "blockTimestamp")) header.timestamp = true := by
  simp only [l1HeaderStep, Logged.out_bind_ok, out_orFail, out_orThrow, out_require, out_sameCount,
    out_pure, beq_iff_eq]
  constructor
  · rintro ⟨header, hread, blockHash, hlower, _, hhash, _, hnumber, _, htimestamp, _, -, rfl⟩
    exact ⟨hread, hhash ▸ hlower, hnumber, htimestamp⟩
  · rintro ⟨hread, hlower, hnumber, htimestamp⟩
    exact ⟨header, hread, _, hlower, (), rfl, (), hnumber, (), htimestamp, (), rfl, rfl⟩

lemma out_batchStep {header : DecodedHeader} {rawTx : Bytes} :
    (batchStep V l1 header).out = .ok rawTx
    ↔ hexOf (l1.get (js "rawTx")) = .ok rawTx
      ∧ lowerCase V.table (l1.get (js "txHash")) = .ok (evmBytesToHex (V.K rawTx))
      ∧ ∃ root key proof, evmHexToBytes header.transactionsRoot = .ok root
        ∧ trieKeyOf (l1.get (js "txIndex")) = .ok key
        ∧ hexListOf (l1.get (js "txInclusionProof")) = .ok proof
        ∧ Trie.mptVerify V.K root key proof = some rawTx := by
  simp only [batchStep, Logged.out_bind_ok, out_orFail, out_orThrow, out_require, out_pure,
    beq_iff_eq, Option.any_eq_true, bytesEqual_iff]
  constructor
  · rintro ⟨raw, hraw, txHash, hlower, _, hhash, root, hroot, key, hkey, proof, hproof, _, ⟨v, hv, rfl⟩, _, -, rfl⟩
    exact ⟨hraw, hhash ▸ hlower, root, key, proof, hroot, hkey, hproof, hv⟩
  · rintro ⟨hraw, hlower, root, key, proof, hroot, hkey, hproof, hv⟩
    exact ⟨rawTx, hraw, _, hlower, (), rfl, root, hroot, key, hkey, proof, hproof, (), ⟨_, hv, rfl⟩, (), rfl,
      rfl⟩

lemma prop_lowerCase {table : Str → Str} {v : Value} {k t : Str} :
    (v.prop k >>= lowerCase table) = .ok t ↔ lowerCase table (v.get k) = .ok t := by
  rw [Value.prop.eq_def]
  split
  · exact iff_of_false (fun h => nomatch h) (fun h => nomatch h)
  · exact iff_of_false (fun h => nomatch h) (fun h => nomatch h)
  · exact Iff.rfl

/-- A blob that passes: it is listed, and its hash is that of its commitment. -/
def BlobOk (V : SettlementCalls) (listed : List Str) (b : Value) : Prop :=
  ∃ vh commitment, lowerCase V.table (b.get (js "versionedHash")) = .ok vh ∧ vh ∈ listed
    ∧ hexOf (b.get (js "kzgCommitment")) = .ok commitment ∧ versionedHashOf V commitment = vh

lemma out_blobStep {listed : List Str} {b : Value} {u : Unit} :
    (blobStep V listed b).out = .ok u ↔ BlobOk V listed b := by
  simp only [blobStep, Logged.out_bind_ok, out_orThrow, out_require, beq_iff_eq, List.contains_iff_mem,
    prop_lowerCase, BlobOk]
  constructor
  · rintro ⟨vh, hvh, _, hmem, commitment, hcommitment, heq⟩
    exact ⟨vh, commitment, hvh, hmem, hcommitment, heq⟩
  · rintro ⟨vh, commitment, hvh, hmem, hcommitment, heq⟩
    exact ⟨vh, hvh, (), hmem, commitment, hcommitment, heq⟩

lemma out_blobLoop {listed : List Str} {blobs : List Value} {u : Unit} :
    (blobLoop V listed blobs).out = .ok u ↔ ∀ b ∈ blobs, BlobOk V listed b := by
  induction blobs with
  | nil => exact iff_of_true rfl fun _ hb => nomatch hb
  | cons b blobs ih =>
      rw [blobLoop, Logged.out_bind_ok, List.forall_mem_cons]
      constructor
      · rintro ⟨_, hb, hrest⟩
        exact ⟨out_blobStep.mp hb, ih.mp hrest⟩
      · rintro ⟨hb, hrest⟩
        exact ⟨(), out_blobStep.mpr hb, ih.mpr hrest⟩

/-- The transaction is the one that the pins ask for. -/
def Sent (V : SettlementCalls) (pins : SettlementPins) (tx : Eip4844Tx) : Prop :=
  bigIntOf pins.l1ChainId = .ok (tx.chainId : ℤ) ∧ tx.recipient = toLowerCase V.table pins.batchInbox
    ∧ tx.signer = toLowerCase V.table pins.batcher

lemma out_blobsStep {rawTx : Bytes} {u : Unit} : (blobsStep V pointer pins rawTx).out = .ok u
    ↔ ∃ tx, V.decodeEip4844 rawTx = .ok tx ∧ Sent V pins tx
      ∧ ∃ blobs, pointer.get (js "blobs") = .arr blobs ∧ blobs ≠ []
        ∧ ∀ b ∈ blobs, BlobOk V (tx.blobVersionedHashes.map (toLowerCase V.table)) b := by
  simp only [blobsStep, Logged.out_bind_ok, out_orFail, out_orThrow, out_require, beq_iff_eq, Sent]
  constructor
  · rintro ⟨tx, htx, chainId, hchain, _, rfl, _, hrecipient, _, hsigner, h⟩
    split at h
    · next b blobs hblobs =>
      obtain ⟨_, hloop, -⟩ := Logged.out_bind_ok.mp h
      exact ⟨tx, htx, ⟨hchain, hrecipient, hsigner⟩, _, hblobs, List.cons_ne_nil _ _, out_blobLoop.mp hloop⟩
    · exact absurd h out_fail
  · rintro ⟨tx, htx, ⟨hchain, hrecipient, hsigner⟩, blobs, hblobs, hne, hall⟩
    refine ⟨tx, htx, _, hchain, (), rfl, (), hrecipient, (), hsigner, ?_⟩
    obtain ⟨b, blobs, rfl⟩ := List.exists_cons_of_ne_nil hne
    rw [hblobs]
    exact Logged.out_bind_ok.mpr ⟨(), out_blobLoop.mpr hall, rfl⟩

/-- The pointer is a record of the pinned chain. -/
structure OnChain (pointer : Value) (pins : SettlementPins) : Prop where
  version : pointer.get (js "version") = .str settlementPointerVersion
  l1 : isObject (pointer.get (js "l1")) = true
  chainId : Value.strictEq ((pointer.get (js "l1")).get (js "chainId")) (.num pins.l1ChainId) = true

lemma out_settlementChecks {e : BlockTime} : (settlementChecks V pointer pins).out = .ok e
    ↔ OnChain pointer pins ∧ ∃ header rawTx, (l1HeaderStep V (pointer.get (js "l1"))).out = .ok header
      ∧ (batchStep V (pointer.get (js "l1")) header).out = .ok rawTx
      ∧ (blobsStep V pointer pins rawTx).out = .ok ()
      ∧ (⟨header.number, header.hash, header.timestamp⟩ : BlockTime) = e := by
  simp only [settlementChecks, Logged.out_bind_ok, out_require, beq_iff_eq]
  constructor
  · rintro ⟨_, hversion, _, hl1, h⟩
    split_ifs at h with hchain
    · obtain ⟨header, hheader, h⟩ := Logged.out_bind_ok.mp h
      obtain ⟨rawTx, hbatch, h⟩ := Logged.out_bind_ok.mp h
      obtain ⟨_, hblobs, h⟩ := Logged.out_bind_ok.mp h
      exact ⟨⟨hversion, hl1, hchain⟩, header, rawTx, hheader, hbatch, hblobs, out_pure.mp h⟩
    · obtain ⟨_, -, h⟩ := Logged.out_bind_ok.mp h
      exact absurd h out_fail
  · rintro ⟨⟨hversion, hl1, hchain⟩, header, rawTx, hheader, hbatch, hblobs, rfl⟩
    refine ⟨(), hversion, (), hl1, ?_⟩
    rw [if_pos hchain]
    exact Logged.out_bind_ok.mpr ⟨header, hheader, Logged.out_bind_ok.mpr ⟨rawTx, hbatch,
      Logged.out_bind_ok.mpr ⟨(), hblobs, rfl⟩⟩⟩

/-- The calls, with the transaction decoder of the settlement. -/
def SettlementCalls.withCurve (V : SettlementCalls) (C : Secp256k1) : SettlementCalls :=
  { V with decodeEip4844 := CarrierVerify.decodeEip4844 V.K C }

lemma inBlock_of_batchStep {header : DecodedHeader} {rawTx txRoot : Bytes}
    (hroot : header.transactionsRoot = evmBytesToHex txRoot)
    (h : (batchStep V l1 header).out = .ok rawTx) : InBlock V l1 txRoot rawTx := by
  obtain ⟨hraw, -, root, key, proof, hread, hkey, hproof, hverify⟩ := out_batchStep.mp h
  rw [hroot, evmHexToBytes_evmBytesToHex] at hread
  cases hread
  refine ⟨hraw, ?_⟩
  rw [trieKeyOf.eq_def] at hkey
  split at hkey
  · next n hn =>
    rw [Ceiling.txTrieKeyOf] at hkey
    split at hkey
    · next i hi =>
      split_ifs at hkey with hneg
      cases hkey
      refine ⟨n, i.toNat, hn, by rw [Int.toNat_of_nonneg (not_lt.mp hneg)]; exact hi, fun values hs hT => ?_⟩
      rcases (Trie.mptVerify_sound V.K).2 hs hT _ _ _ hverify with h | ⟨N, hN, hcollides⟩
      · exact .inl h
      · exact .inr ⟨proof, N, hproof, hN, hcollides⟩
    · cases hkey
  · cases hkey

/-- **Soundness**: what an answer without a reason says. -/
theorem settled_of_ok {r : SettlementPointerResult}
    (h : verifySettlementPointer (V.withCurve C) pointer pins = .ok r) (hr : r.reason = none) :
    ∃ e, r.existedBy = some e ∧ Settled V C pointer pins e := by
  rw [verifySettlementPointer] at h
  cases hout : (settlementChecks (V.withCurve C) pointer pins).out with
  | error stop =>
      rw [hout] at h
      cases stop with
      | failed name =>
          cases h
          cases hr
      | thrown e => cases h
  | ok e =>
      rw [hout] at h
      cases h
      obtain ⟨-, header, rawTx, hheader, hbatch, hblobs, rfl⟩ := out_settlementChecks.mp hout
      obtain ⟨hread, hhash, hnumber, htimestamp⟩ := out_l1HeaderStep.mp hheader
      obtain ⟨raw, hraw, hdecode⟩ := bind_eq_ok hread
      obtain ⟨f, txRoot, number, timestamp, hf, hroot, hheaderRoot, hn, hnum, ht, hts⟩ :=
        decodeHeader_eq_ok hdecode
      obtain ⟨tx, htx, ⟨hchain, hinbox, hbatcher⟩, blobs, hlist, hne, hall⟩ := out_blobsStep.mp hblobs
      obtain ⟨recipient, signer, hashes, fields, hsigned, hto, hfrom, hlisted⟩ := decodeEip4844_eq_ok htx
      refine ⟨_, rfl, txRoot, rawTx, tx.chainId, recipient, signer, hashes, fields,
        ⟨hhash, raw, f, number, timestamp, hraw, decodeHeader_hash hdecode, hf, hroot, hn, hnum, ht, hts⟩,
        inBlock_of_batchStep hheaderRoot hbatch, hsigned, ⟨hchain, hto ▸ hinbox, hfrom ▸ hbatcher⟩,
        blobs, hlist, hne, fun b hb => ?_⟩
      obtain ⟨vh, commitment, hvh, hmem, hcommitment, heq⟩ := hall b hb
      rw [hlisted, List.map_map, List.mem_map] at hmem
      obtain ⟨hash, hhashes, hlower⟩ := hmem
      rw [Function.comp_apply, toLowerCase_evmBytesToHex] at hlower
      refine ⟨hash, hhashes, commitment, hlower ▸ hvh, hcommitment, ?_⟩
      · rw [← heq, versionedHashOf] at hlower
        exact Ceiling.evmBytesToHex_injective hlower

end Soundness

/-! ### Exceptions -/

section Exceptions

open Lib

variable {V : SettlementCalls} {C : Secp256k1} {pointer l1 : Value} {pins : SettlementPins}

/-- The value has a text. -/
def Shown (v : Value) : Prop := ∃ t, v.string = .ok t

def IsText (v : Value) : Prop := ∃ s, v = .str s

/-- The header of the record decodes. -/
structure Opened (V : SettlementCalls) (pointer : Value) (pins : SettlementPins) (header : DecodedHeader) :
    Prop extends OnChain pointer pins where
  decodes : (hexOf ((pointer.get (js "l1")).get (js "blockHeader")) >>= decodeHeader V.K) = .ok header

/-- It is the header of the block that the record names. -/
structure HeaderOk (V : SettlementCalls) (pointer : Value) (pins : SettlementPins)
    (header : DecodedHeader) : Prop extends Opened V pointer pins header where
  blockHash : lowerCase V.table ((pointer.get (js "l1")).get (js "blockHash")) = .ok header.hash
  blockNumber : isCount ((pointer.get (js "l1")).get (js "blockNumber")) header.number = true
  blockTimestamp : isCount ((pointer.get (js "l1")).get (js "blockTimestamp")) header.timestamp = true

/-- The record carries the transaction that it names. -/
structure Carried (V : SettlementCalls) (pointer : Value) (pins : SettlementPins)
    (header : DecodedHeader) (rawTx : Bytes) : Prop extends HeaderOk V pointer pins header where
  raw : hexOf ((pointer.get (js "l1")).get (js "rawTx")) = .ok rawTx
  txHash : lowerCase V.table ((pointer.get (js "l1")).get (js "txHash")) = .ok (evmBytesToHex (V.K rawTx))

/-- The proof leads to the transaction. -/
structure Included (V : SettlementCalls) (pointer : Value) (pins : SettlementPins)
    (header : DecodedHeader) (rawTx : Bytes) : Prop extends Carried V pointer pins header rawTx where
  inclusion : ∃ root key proof, evmHexToBytes header.transactionsRoot = .ok root
    ∧ trieKeyOf ((pointer.get (js "l1")).get (js "txIndex")) = .ok key
    ∧ hexListOf ((pointer.get (js "l1")).get (js "txInclusionProof")) = .ok proof
    ∧ Trie.mptVerify V.K root key proof = some rawTx

/-- A blob of the record that is read without an exception. -/
def ReadableBlob (V : SettlementCalls) (listed : List Str) (b : Value) : Prop :=
  ∃ vh, lowerCase V.table (b.get (js "versionedHash")) = .ok vh
    ∧ (vh ∈ listed → ∃ commitment, hexOf (b.get (js "kzgCommitment")) = .ok commitment)

/-- Every field that is read without a guard has its type, where the check comes to it. -/
structure Readable (V : SettlementCalls) (pointer : Value) (pins : SettlementPins) : Prop where
  chainId : pointer.get (js "version") = .str settlementPointerVersion →
    isObject (pointer.get (js "l1")) = true →
    Value.strictEq ((pointer.get (js "l1")).get (js "chainId")) (.num pins.l1ChainId) = false →
    Shown ((pointer.get (js "l1")).get (js "chainId"))
  blockHash : ∀ header, Opened V pointer pins header →
    IsText ((pointer.get (js "l1")).get (js "blockHash"))
  blockNumber : ∀ header, Opened V pointer pins header →
    lowerCase V.table ((pointer.get (js "l1")).get (js "blockHash")) = .ok header.hash →
    isCount ((pointer.get (js "l1")).get (js "blockNumber")) header.number = false →
    Shown ((pointer.get (js "l1")).get (js "blockNumber"))
  blockTimestamp : ∀ header, Opened V pointer pins header →
    lowerCase V.table ((pointer.get (js "l1")).get (js "blockHash")) = .ok header.hash →
    isCount ((pointer.get (js "l1")).get (js "blockNumber")) header.number = true →
    isCount ((pointer.get (js "l1")).get (js "blockTimestamp")) header.timestamp = false →
    Shown ((pointer.get (js "l1")).get (js "blockTimestamp"))
  txHash : ∀ header rawTx, HeaderOk V pointer pins header →
    hexOf ((pointer.get (js "l1")).get (js "rawTx")) = .ok rawTx →
    IsText ((pointer.get (js "l1")).get (js "txHash"))
  txIndex : ∀ header rawTx, Carried V pointer pins header rawTx →
    ∃ key, trieKeyOf ((pointer.get (js "l1")).get (js "txIndex")) = .ok key
  txInclusionProof : ∀ header rawTx, Carried V pointer pins header rawTx →
    ∃ proof, hexListOf ((pointer.get (js "l1")).get (js "txInclusionProof")) = .ok proof
  l1ChainId : ∀ header rawTx tx, Included V pointer pins header rawTx →
    V.decodeEip4844 rawTx = .ok tx → ∃ i, bigIntOf pins.l1ChainId = .ok i
  blobs : ∀ header rawTx tx, Included V pointer pins header rawTx → V.decodeEip4844 rawTx = .ok tx →
    Sent V pins tx → ∀ done b rest, pointer.get (js "blobs") = .arr (done ++ b :: rest) →
    (∀ d ∈ done, BlobOk V (tx.blobVersionedHashes.map (toLowerCase V.table)) d) →
    ReadableBlob V (tx.blobVersionedHashes.map (toLowerCase V.table)) b

lemma quiet_showing {v : Value} : Quiet (showing v) ↔ Shown v := by
  rw [showing, quiet_orThrow, Shown]
  cases v.string with
  | ok t => exact iff_of_true ⟨(), rfl⟩ ⟨t, rfl⟩
  | error e => exact iff_of_false (fun ⟨_, h⟩ => nomatch h) fun ⟨_, h⟩ => nomatch h

lemma quiet_sameCount {v : Value} {n : ℕ} : Quiet (sameCount v n) ↔ (isCount v n = false → Shown v) := by
  rw [sameCount]
  split_ifs with h
  · exact iff_of_true quiet_pure fun hfalse => by rw [h] at hfalse; cases hfalse
  · rw [quiet_bind, quiet_showing]
    exact ⟨fun hq _ => hq.1, fun hs => ⟨hs (Bool.eq_false_iff.mpr h), fun _ _ => quiet_fail⟩⟩

lemma lowerCase_isOk {table : Str → Str} {v : Value} : (∃ t, lowerCase table v = .ok t) ↔ IsText v :=
  ⟨fun ⟨_, h⟩ => let ⟨s, hs, _⟩ := lowerCase_eq_ok_iff.mp h; ⟨s, hs⟩,
    fun ⟨s, hs⟩ => ⟨_, lowerCase_eq_ok_iff.mpr ⟨s, hs, rfl⟩⟩⟩

lemma quiet_l1HeaderStep : Quiet (l1HeaderStep V l1) ↔
    ∀ header, (hexOf (l1.get (js "blockHeader")) >>= decodeHeader V.K) = .ok header →
      IsText (l1.get (js "blockHash"))
      ∧ (lowerCase V.table (l1.get (js "blockHash")) = .ok header.hash →
        (isCount (l1.get (js "blockNumber")) header.number = false → Shown (l1.get (js "blockNumber")))
        ∧ (isCount (l1.get (js "blockNumber")) header.number = true →
          isCount (l1.get (js "blockTimestamp")) header.timestamp = false →
          Shown (l1.get (js "blockTimestamp")))) := by
  simp only [l1HeaderStep, quiet_bind, quiet_orFail, quiet_orThrow, quiet_require, quiet_sameCount,
    quiet_pass, quiet_pure, out_orFail, out_orThrow, out_require, out_sameCount, lowerCase_isOk,
    beq_iff_eq, true_and, and_true, implies_true]
  refine forall₂_congr fun header hread => and_congr_right fun htext => ?_
  constructor
  · rintro h hlower
    exact ⟨(h _ hlower () rfl).1, fun hnumber => (h _ hlower () rfl).2 () hnumber⟩
  · rintro h blockHash hlower _ rfl
    exact ⟨(h hlower).1, fun _ hnumber => (h hlower).2 hnumber⟩

lemma quiet_batchStep {header : DecodedHeader} (hroot : ∃ root, evmHexToBytes header.transactionsRoot = .ok root) :
    Quiet (batchStep V l1 header) ↔ ∀ rawTx, hexOf (l1.get (js "rawTx")) = .ok rawTx →
      IsText (l1.get (js "txHash"))
      ∧ (lowerCase V.table (l1.get (js "txHash")) = .ok (evmBytesToHex (V.K rawTx)) →
        (∃ key, trieKeyOf (l1.get (js "txIndex")) = .ok key)
        ∧ ∃ proof, hexListOf (l1.get (js "txInclusionProof")) = .ok proof) := by
  simp only [batchStep, quiet_bind, quiet_orFail, quiet_orThrow, quiet_require,
    quiet_pass, quiet_pure, out_orFail, out_orThrow, out_require, lowerCase_isOk,
    beq_iff_eq, true_and, and_true, implies_true]
  refine forall₂_congr fun rawTx hraw => and_congr_right fun htext => ?_
  obtain ⟨root, hroot⟩ := hroot
  constructor
  · rintro h hlower
    obtain ⟨-, h⟩ := h _ hlower () rfl
    obtain ⟨⟨key, hkey⟩, h⟩ := h root hroot
    exact ⟨⟨key, hkey⟩, h key hkey⟩
  · rintro h txHash hlower _ rfl
    exact ⟨⟨root, hroot⟩, fun _ _ => ⟨(h hlower).1, fun _ _ => (h hlower).2⟩⟩

lemma quiet_blobStep {listed : List Str} {b : Value} :
    Quiet (blobStep V listed b) ↔ ReadableBlob V listed b := by
  simp only [blobStep, quiet_bind, quiet_orThrow, quiet_require, out_orThrow, out_require,
    List.contains_iff_mem, prop_lowerCase, true_and, and_true, implies_true, ReadableBlob]
  constructor
  · rintro ⟨⟨vh, hvh⟩, h⟩
    exact ⟨vh, hvh, fun hmem => h vh hvh () hmem⟩
  · rintro ⟨vh, hvh, h⟩
    refine ⟨⟨vh, hvh⟩, fun vh' hvh' _ hmem => ?_⟩
    rw [hvh] at hvh'
    cases hvh'
    exact h hmem

lemma quiet_blobLoop {listed : List Str} {blobs : List Value} : Quiet (blobLoop V listed blobs) ↔
    ∀ done b rest, blobs = done ++ b :: rest → (∀ d ∈ done, BlobOk V listed d) →
      ReadableBlob V listed b := by
  induction blobs with
  | nil => exact iff_of_true quiet_pure fun done b rest h => by simp at h
  | cons b blobs ih =>
      rw [blobLoop, quiet_bind, quiet_blobStep]
      constructor
      · rintro ⟨hb, hrest⟩ done b' rest heq hdone
        cases done with
        | nil =>
            cases heq
            exact hb
        | cons d done =>
            cases heq
            obtain ⟨hd, hdone⟩ := List.forall_mem_cons.mp hdone
            exact ih.mp (hrest () (out_blobStep.mpr hd)) done b' rest rfl hdone
      · intro h
        refine ⟨h [] b blobs rfl fun _ hd => (nomatch hd), fun _ hb => ?_⟩
        refine ih.mpr fun done b' rest heq hdone => h (b :: done) b' rest (by rw [heq]; rfl) ?_
        exact List.forall_mem_cons.mpr ⟨out_blobStep.mp hb, hdone⟩

lemma quiet_blobsStep {rawTx : Bytes} : Quiet (blobsStep V pointer pins rawTx) ↔
    ∀ tx, V.decodeEip4844 rawTx = .ok tx → (∃ i, bigIntOf pins.l1ChainId = .ok i)
      ∧ (Sent V pins tx → ∀ done b rest, pointer.get (js "blobs") = .arr (done ++ b :: rest) →
        (∀ d ∈ done, BlobOk V (tx.blobVersionedHashes.map (toLowerCase V.table)) d) →
        ReadableBlob V (tx.blobVersionedHashes.map (toLowerCase V.table)) b) := by
  simp only [blobsStep, quiet_bind, quiet_orFail, quiet_orThrow, quiet_require, out_orFail, out_orThrow,
    out_require, beq_iff_eq, true_and, Sent]
  refine forall₂_congr fun tx htx => and_congr_right fun hchain => ?_
  constructor
  · rintro h ⟨hsent, hinbox, hbatcher⟩ done b rest hblobs
    have hq := h _ hsent () rfl () hinbox () hbatcher
    rw [hblobs] at hq
    cases done with
    | nil => exact quiet_blobLoop.mp (quiet_bind.mp hq).1 [] b rest rfl
    | cons d done => exact quiet_blobLoop.mp (quiet_bind.mp hq).1 (d :: done) b rest rfl
  · rintro h chainId hsent _ rfl _ hinbox _ hbatcher
    split
    · next b blobs hblobs =>
      refine quiet_bind.mpr ⟨quiet_blobLoop.mpr fun done b' rest heq => ?_, fun _ _ => quiet_pass⟩
      exact h ⟨hsent, hinbox, hbatcher⟩ done b' rest (by rw [hblobs, heq])
    · exact quiet_fail

lemma root_of_opened {header : DecodedHeader} (h : Opened V pointer pins header) :
    ∃ root, evmHexToBytes header.transactionsRoot = .ok root := by
  obtain ⟨raw, -, hdecode⟩ := bind_eq_ok h.decodes
  obtain ⟨-, txRoot, -, -, -, -, hroot, -⟩ := decodeHeader_eq_ok hdecode
  exact ⟨txRoot, by rw [hroot, evmHexToBytes_evmBytesToHex]⟩

/-- The check is quiet exactly on the records that are readable. -/
lemma quiet_settlementChecks : Quiet (settlementChecks V pointer pins) ↔ Readable V pointer pins := by
  constructor
  · intro h
    simp only [settlementChecks, quiet_bind, quiet_require, out_require, beq_iff_eq, true_and] at h
    have hthen : OnChain pointer pins → Quiet (l1HeaderStep V (pointer.get (js "l1")) >>= fun header =>
        batchStep V (pointer.get (js "l1")) header >>= fun rawTx =>
        blobsStep V pointer pins rawTx >>= fun _ =>
          (pure ⟨header.number, header.hash, header.timestamp⟩ : Checks BlockTime)) := by
      intro hon
      have hq := h () hon.version () hon.l1
      rwa [if_pos hon.chainId] at hq
    have hheader : ∀ {header}, Opened V pointer pins header → _ := fun {header} hopened =>
      quiet_l1HeaderStep.mp (quiet_bind.mp (hthen hopened.toOnChain)).1 header hopened.decodes
    have hbatch : ∀ {header rawTx}, HeaderOk V pointer pins header →
        hexOf ((pointer.get (js "l1")).get (js "rawTx")) = .ok rawTx → _ := fun {header rawTx} hok hraw =>
      (quiet_batchStep (root_of_opened hok.toOpened)).mp (quiet_bind.mp
        ((quiet_bind.mp (hthen hok.toOnChain)).2 header
          (out_l1HeaderStep.mpr ⟨hok.decodes, hok.blockHash, hok.blockNumber, hok.blockTimestamp⟩))).1 rawTx hraw
    have hblobs : ∀ {header rawTx tx}, Included V pointer pins header rawTx →
        V.decodeEip4844 rawTx = .ok tx → _ := fun {header rawTx tx} hin htx =>
      quiet_blobsStep.mp (quiet_bind.mp ((quiet_bind.mp ((quiet_bind.mp (hthen hin.toOnChain)).2 header
        (out_l1HeaderStep.mpr ⟨hin.decodes, hin.blockHash, hin.blockNumber, hin.blockTimestamp⟩))).2 rawTx
        (out_batchStep.mpr ⟨hin.raw, hin.txHash, hin.inclusion⟩))).1 tx htx
    exact {
      chainId := fun hversion hl1 hchain => by
        have hq := h () hversion () hl1
        rw [if_neg (by rw [hchain]; decide)] at hq
        exact quiet_showing.mp (quiet_bind.mp hq).1
      blockHash := fun header hopened => (hheader hopened).1
      blockNumber := fun header hopened hhash hnumber => ((hheader hopened).2 hhash).1 hnumber
      blockTimestamp := fun header hopened hhash hnumber hts => ((hheader hopened).2 hhash).2 hnumber hts
      txHash := fun header rawTx hok hraw => (hbatch hok hraw).1
      txIndex := fun header rawTx hc => ((hbatch hc.toHeaderOk hc.raw).2 hc.txHash).1
      txInclusionProof := fun header rawTx hc => ((hbatch hc.toHeaderOk hc.raw).2 hc.txHash).2
      l1ChainId := fun header rawTx tx hin htx => (hblobs hin htx).1
      blobs := fun header rawTx tx hin htx hsent => (hblobs hin htx).2 hsent }
  · intro h
    simp only [settlementChecks, quiet_bind, quiet_require, out_require, beq_iff_eq, true_and]
    intro _ hversion _ hl1
    split_ifs with hchain
    · have hon : OnChain pointer pins := ⟨hversion, hl1, hchain⟩
      have hopened : ∀ {header}, (hexOf ((pointer.get (js "l1")).get (js "blockHeader")) >>= decodeHeader V.K)
          = .ok header → Opened V pointer pins header := fun hd => ⟨hon, hd⟩
      refine quiet_bind.mpr ⟨quiet_l1HeaderStep.mpr fun header hd => ⟨h.blockHash _ (hopened hd), fun hhash =>
        ⟨h.blockNumber _ (hopened hd) hhash, h.blockTimestamp _ (hopened hd) hhash⟩⟩, fun header hout => ?_⟩
      obtain ⟨hd, hhash, hnumber, hts⟩ := out_l1HeaderStep.mp hout
      have hok : HeaderOk V pointer pins header := ⟨hopened hd, hhash, hnumber, hts⟩
      refine quiet_bind.mpr ⟨(quiet_batchStep (root_of_opened hok.toOpened)).mpr fun rawTx hraw =>
        ⟨h.txHash _ _ hok hraw, fun htxHash => ⟨h.txIndex _ _ ⟨hok, hraw, htxHash⟩,
          h.txInclusionProof _ _ ⟨hok, hraw, htxHash⟩⟩⟩, fun rawTx hout => ?_⟩
      obtain ⟨hraw, htxHash, hinclusion⟩ := out_batchStep.mp hout
      have hin : Included V pointer pins header rawTx := ⟨⟨hok, hraw, htxHash⟩, hinclusion⟩
      exact quiet_bind.mpr ⟨quiet_blobsStep.mpr fun tx htx =>
        ⟨h.l1ChainId _ _ _ hin htx, h.blobs _ _ _ hin htx⟩, fun _ _ => quiet_pure⟩
    · exact quiet_bind.mpr ⟨quiet_showing.mpr (h.chainId hversion hl1 (Bool.eq_false_iff.mpr hchain)),
        fun _ _ => quiet_fail⟩

/-- The check answers, and what it answers without a reason holds. -/
structure SoundAndTotal (V : SettlementCalls) (C : Secp256k1) (pointer : Value) (pins : SettlementPins) :
    Prop where
  total : ∃ r, verifySettlementPointer (V.withCurve C) pointer pins = .ok r
  sound : ∀ r, verifySettlementPointer (V.withCurve C) pointer pins = .ok r → r.reason = none →
    ∃ e, r.existedBy = some e ∧ Settled V C pointer pins e

lemma answers_iff : (∃ r, verifySettlementPointer V pointer pins = .ok r)
    ↔ Quiet (settlementChecks V pointer pins) := by
  rw [verifySettlementPointer, Quiet]
  cases (settlementChecks V pointer pins).out with
  | ok e => exact iff_of_true ⟨_, rfl⟩ fun _ h => by cases h
  | error stop =>
      cases stop with
      | failed name => exact iff_of_true ⟨_, rfl⟩ fun _ h => by cases h
      | thrown e => exact iff_of_false (by rintro ⟨_, h⟩; cases h) fun h => h e rfl

/-- **Soundness and totality**: what is answered holds, and there is an answer exactly where every
field that is read without a guard has its type. -/
theorem soundAndTotal_iff (V : SettlementCalls) (C : Secp256k1) (pointer : Value) (pins : SettlementPins) :
    SoundAndTotal V C pointer pins ↔ Readable (V.withCurve C) pointer pins := by
  rw [← quiet_settlementChecks, ← answers_iff]
  exact ⟨fun h => h.total, fun h => ⟨h, fun _ hr hreason => settled_of_ok hr hreason⟩⟩

/-- A header of block 1, as far as it is read. -/
def bareHeader : Bytes :=
  rlpEncode (.list [.bytes (List.replicate 32 0), .bytes [], .bytes [], .bytes [],
    .bytes (List.replicate 32 0), .bytes [], .bytes [], .bytes [], .bytes [1], .bytes [], .bytes [],
    .bytes [1], .bytes [], .bytes [], .bytes []])

/-- A record with a header, and without the block's hash. -/
def unnamedBlock : Value :=
  .obj [(js "version", .str settlementPointerVersion), (js "l1", .obj [(js "chainId", .num (.ofNat 1)),
    (js "blockHeader", .str (evmBytesToHex bareHeader))])]

/-- **The failing input**: a record without `blockHash` makes the check throw. -/
theorem unnamedBlock_throws : ¬ ∀ (V : SettlementCalls) (C : Secp256k1) (pointer : Value)
    (pins : SettlementPins), SoundAndTotal V C pointer pins := by
  intro h
  let V : SettlementCalls := ⟨⟨sha256, keccak256, id, fun _ => .ok true, fun _ => .ok [],
    fun _ => .error (typeError [])⟩, fun _ => .error (typeError [])⟩
  let C : Secp256k1 := ⟨Bytes, .ok, fun _ => false, fun _ _ _ => .error (error (js "not recoverable"))⟩
  have hreads := quiet_settlementChecks.mp (answers_iff.mp (h V C unnamedBlock baseMainnetSettlementPins).total)
  have hdecode : ((hexOf (.str (evmBytesToHex bareHeader)) >>= decodeHeader keccak256).toOption).isSome
      = true := by decide +kernel
  obtain ⟨header, hheader⟩ := Option.isSome_iff_exists.mp hdecode
  obtain ⟨s, hs⟩ := hreads.blockHash header
    ⟨⟨rfl, rfl, by decide⟩, toOption_eq_some.mp hheader⟩
  cases hs

end Exceptions

end CarrierVerify

end BitGraph
