import BitGraph.Carrier.Eip4844
import BitGraph.Trie.State

/-!
`output-root.ts`: the Ethereum block that a Base block is settled in by an output root.

* **Check.** `verifyOutputRootSettlement` recomputes every link from bytes; an exception is a failed check.
* **History.** `served` is the ring buffer of the history contract; `served_eq`: what it holds for a block of
  its window.
* **Soundness.** `verifyOutputRootSettlement_sound`: the block hash of a settlement that passes is what the
  committed state holds for the block, or two of the byte strings at hand collide.
* **Nodes.** A settlement that repeats the last node of a proof passes (`repeated_node_passes`).
-/

namespace BitGraph

open Js Carrier CarrierVerify

namespace OutputRoot

/-! ### Check -/

def outputRootVersion : Str := js "bitgraph-output-root/1"

def historyStorageAddress : Str := js "0x0000f90827f1c53a10cb7a02335b175320002935"

def historyAddress : Bytes :=
  [0x00, 0x00, 0xf9, 0x08, 0x27, 0xf1, 0xc5, 0x3a, 0x10, 0xcb, 0x7a, 0x02, 0x33, 0x5b, 0x17, 0x53, 0x20, 0x00,
    0x29, 0x35]

lemma evmHexToBytes_historyStorageAddress : evmHexToBytes historyStorageAddress = .ok historyAddress := by
  decide

/-- The contract keeps the hashes of that many blocks. -/
def historyServeWindow : ℕ := 8191

structure OutputRootVerifyOptions where
  baseChainId : Option Number
  ethereumChainId : Option Number

/-- The Ethereum block the ceiling transaction existed by, and the output root that was recomputed. -/
structure Existed where
  chainId : Number
  block : BlockTime
  outputRoot : Bytes

/-- The checks that were made, the name of the one that failed, and the block where all passed. -/
structure OutputRootVerifyResult where
  reason : Option Str
  checks : List Checked
  existedBy : Option Existed

def zero32 : Bytes := List.replicate 32 0

def b32 (v : Value) (name : String) : Except Thrown Bytes := do
  let b ← hexOf v
  if b.length ≠ 32 then .error (typeError (js name ++ js " must be 32 bytes")) else return b

/-- The writes of the loop from the byte before `i` down. -/
def slotLoop : ℕ → ℕ → Bytes → Bytes
  | 0, _, slot => slot
  | i + 1, v, slot => if 0 < v then slotLoop i (v / 256) (slot.set i (UInt8.ofNat v)) else slot

/-- The slot that holds the hash of a block. -/
def historySlot (blockNumber : ℕ) : Bytes := slotLoop 32 (blockNumber % historyServeWindow) zero32

/-- Where the needle stands first in what is left of the bytes. -/
def indexOfBytes (needle : Bytes) : Bytes → ℕ → Option ℕ
  | [], i => if needle = [] then some i else none
  | b :: hay, i => if needle <+: b :: hay then some i else indexOfBytes needle hay (i + 1)

def storageWord : RlpItem → Option Bytes
  | .bytes b => if 32 < b.length then none else some (List.replicate (32 - b.length) 0 ++ b)
  | .list _ => none

/-- The chain a raw transaction is signed for: field 0 of a typed one, or what `v` says. -/
def transactionChainId : Bytes → Option ℕ
  | [] => none
  | b :: rest =>
      if b.toNat ≤ 0x7f then
        match rlpDecode rest with
        | .ok (.list (.bytes chain :: _)) => some (Sha256.beNat chain)
        | _ => none
      else match rlpDecode (b :: rest) with
        | .ok (.list [_, _, _, _, _, _, .bytes v, _, _]) =>
            if 35 ≤ Sha256.beNat v then some ((Sha256.beNat v - 35) / 2) else none
        | _ => none

/-- The third field of an account. -/
def storageRootOf (account : Bytes) : Option Bytes :=
  match rlpDecode account with
  | .ok (.list [_, _, .bytes root, _]) => if root.length = 32 then some root else none
  | _ => none

/-- `Number.isInteger(v)`, with the integer. -/
def integerOf : Value → Option ℤ
  | .num n => n.toInt?
  | _ => none

/-- Nothing here is a failed check. -/
def found {α : Type} (name : Str) : Option α → Checks α
  | some a => pure a
  | none => fail name

/-- The text of a check shows a value. -/
def sameBlock (v : Value) (n : ℕ) : Checks Unit :=
  if isCount v n then pure ()
  else do
    showing v
    fail (js "ethereum")

section Check

variable (K : HashFn) (table : Str → Str)

def computeOutputRoot (o : Value) : Except Thrown Bytes := do
  let version ← b32 (o.get (js "version")) "outputRoot.version"
  let stateRoot ← b32 (o.get (js "stateRoot")) "outputRoot.stateRoot"
  let passer ← b32 (o.get (js "messagePasserStorageRoot")) "outputRoot.messagePasserStorageRoot"
  let blockHash ← b32 (o.get (js "blockHash")) "outputRoot.blockHash"
  return K (version ++ stateRoot ++ passer ++ blockHash)

/-- Step 0: the chains. -/
def chainStep (part : Value) (chain : Number) : Checks Unit :=
  if Value.strictEq (part.get (js "chainId")) (.num chain) then pure ()
  else do
    showing (part.get (js "chainId"))
    fail (js "chain")

/-- Step 1: the output root from its preimage. -/
def rootStep (o : Value) : Checks Bytes := do
  let version ← orFail (js "output-root") (o.prop (js "version") >>= fun v => b32 v "outputRoot.version")
  require (bytesEqual version zero32) (js "output-root")
  let root ← orFail (js "output-root") (computeOutputRoot K o)
  showing (o.get (js "blockNumber"))
  pass (js "output-root")
  return root

/-- The record of the history contract in the state. -/
def accountOf (o h : Value) : Except Thrown (Option Bytes) := do
  let root ← b32 (o.get (js "stateRoot")) "outputRoot.stateRoot"
  let address ← evmHexToBytes historyStorageAddress
  let proof ← hexListOf (h.get (js "accountProof"))
  return Trie.mptVerify K root (K address) proof

def wordOf (h : Value) (storageRoot slot : Bytes) : Except Thrown (Option Bytes) := do
  let proof ← hexListOf (h.get (js "storageProof"))
  return Trie.mptVerify K storageRoot (K slot) proof

/-- Step 2, where `B < P`: the hash by a proof of storage. -/
def historyStep (o h : Value) (blockNumber : ℕ) (blockHash : Bytes) : Checks Unit := do
  require h.truthy (js "history")
  let address ← orThrow (lowerCase table (h.get (js "address")))
  require (address == historyStorageAddress) (js "history")
  let slot ← orFail (js "history") (b32 (h.get (js "slot")) "history.slot")
  require (bytesEqual slot (historySlot blockNumber)) (js "history")
  let account ← found (js "history") (accountOf K o h).toOption.join
  let storageRoot ← found (js "history") (storageRootOf account)
  let raw ← found (js "history") (wordOf K h storageRoot slot).toOption.join
  let word ← found (js "history") ((rlpDecode raw).toOption.bind storageWord)
  require (bytesEqual word blockHash) (js "history")
  pass (js "history")

/-- Step 2: the hash of the block, from the preimage where `B = P`. -/
def blockStep (s : Value) : Checks Unit := do
  let base := s.get (js "base")
  let o := s.get (js "outputRoot")
  let blockHash ← orFail (js "base") (b32 (base.get (js "blockHash")) "base.blockHash")
  match integerOf (base.get (js "blockNumber")), integerOf (o.get (js "blockNumber")) with
  | some blockNumber, some rootNumber =>
      if blockNumber < 0 then fail (js "base")
      else if blockNumber = rootNumber then do
        require (s.get (js "history") == .null) (js "history")
        let named ← orThrow (b32 (o.get (js "blockHash")) "outputRoot.blockHash")
        require (bytesEqual named blockHash) (js "history")
        pass (js "history")
      else
        let d := roundInt (rootNumber - blockNumber)
        if d < 1 ∨ historyServeWindow < d then fail (js "history")
        else historyStep K table o (s.get (js "history")) blockNumber.toNat blockHash
  | _, _ => fail (js "base")

def inBlockOf (e : Value) (header : DecodedHeader) : Except Thrown (Option Bytes) := do
  let root ← evmHexToBytes header.transactionsRoot
  let key ← trieKeyOf (e.get (js "txIndex"))
  let proof ← hexListOf (e.get (js "txInclusionProof"))
  return Trie.mptVerify K root key proof

/-- Step 3: the transaction carries the output root, and is in the Ethereum block. -/
def ethereumStep (e : Value) (l1Chain : Number) (outputRoot : Bytes) : Checks BlockTime := do
  let header ← orFail (js "ethereum") (hexOf (e.get (js "header")) >>= decodeHeader K)
  let blockHash ← orThrow (lowerCase table (e.get (js "blockHash")))
  require (header.hash == blockHash) (js "ethereum")
  sameBlock (e.get (js "blockNumber")) header.number
  sameBlock (e.get (js "blockTimestamp")) header.timestamp
  let rawTx ← orFail (js "ethereum") (hexOf (e.get (js "rawTx")))
  let txHash ← orThrow (lowerCase table (e.get (js "txHash")))
  require (evmBytesToHex (K rawTx) == txHash) (js "ethereum")
  let txChain ← found (js "ethereum") (transactionChainId rawTx)
  let chain ← orThrow (bigIntOf l1Chain)
  require ((txChain : ℤ) == chain) (js "ethereum")
  let inBlock ← found (js "ethereum") (inBlockOf K e header).toOption.join
  require (bytesEqual inBlock rawTx) (js "ethereum")
  require (indexOfBytes outputRoot rawTx 0).isSome (js "ethereum")
  pass (js "ethereum")
  return ⟨header.number, header.hash, header.timestamp⟩

def verifyOutputRootChecks (s : Value) (opts : OutputRootVerifyOptions) : Checks Existed := do
  require (s.get (js "version") == .str outputRootVersion) (js "format")
  let l1Chain := opts.ethereumChainId.getD (Number.ofNat 1)
  chainStep (s.get (js "base")) (opts.baseChainId.getD (Number.ofNat 8453))
  chainStep (s.get (js "ethereum")) l1Chain
  let outputRoot ← rootStep K (s.get (js "outputRoot"))
  blockStep K table s
  let block ← ethereumStep K table (s.get (js "ethereum")) l1Chain outputRoot
  return ⟨l1Chain, block, outputRoot⟩

/-- A malformed field is a failed check. -/
def verifyOutputRootSettlement (s : Value) (opts : OutputRootVerifyOptions) : OutputRootVerifyResult :=
  let r := verifyOutputRootChecks K table s opts
  match r.out with
  | .ok existed => ⟨none, r.log, some existed⟩
  | .error (.failed name) => ⟨some name, r.log, none⟩
  | .error (.thrown _) => ⟨some (js "malformed"), r.log ++ [⟨js "malformed", false⟩], none⟩

end Check

/-! ### The history contract -/

/-- The ring buffer of the history contract in the state of block `P`: from block `first + 1` on, each block
writes the hash of the one before. -/
def served (first : ℕ) (hashOf : ℕ → ℕ) : ℕ → ℕ → ℕ
  | 0, _ => 0
  | m + 1, slot => if first ≤ m ∧ m % historyServeWindow = slot then hashOf m else served first hashOf m slot

/-- The slot of a block of the window holds its hash. -/
lemma served_eq {first : ℕ} {hashOf : ℕ → ℕ} {B P : ℕ} (hlt : B < P) (hwindow : P ≤ B + historyServeWindow) :
    served first hashOf P (B % historyServeWindow) = if first ≤ B then hashOf B else 0 := by
  induction P with
  | zero => omega
  | succ m ih =>
      rw [served]
      rw [historyServeWindow] at hwindow ih ⊢
      by_cases hm : m = B
      · subst hm
        by_cases hfirst : first ≤ m
        · rw [if_pos ⟨hfirst, rfl⟩, if_pos hfirst]
        · rw [if_neg fun h => hfirst h.1, if_neg hfirst]
          -- no block before the first has written
          clear ih hlt hwindow
          have hnone : ∀ n ≤ m, served first hashOf n (m % 8191) = 0 := by
            intro n hn
            induction n with
            | zero => rfl
            | succ n ihn =>
                rw [served, if_neg fun h => hfirst (by omega)]
                exact ihn (by omega)
          exact hnone m le_rfl
      · rw [if_neg fun h => by omega]
        exact ih (by omega) (by omega)

lemma slotLoop_eq {v : ℕ} (h : v < 8191) : slotLoop 32 v zero32 = Sha256.beBytes 32 v := by
  have h₁ : v / 256 < 256 := by omega
  have hbytes : Sha256.beBytes 32 v = List.replicate 30 0 ++ [UInt8.ofNat (v / 256), UInt8.ofNat v] := by
    rw [Sha256.beBytes_succ, Sha256.beBytes_succ, Nat.div_div_eq_div_mul, Nat.div_eq_of_lt (by omega)]
    rfl
  rw [hbytes, slotLoop]
  split
  · rw [slotLoop]
    split
    · rw [slotLoop, if_neg (by omega)]
      rfl
    · next hlow =>
        rw [show v / 256 = 0 by omega]
        rfl
  · next hzero =>
      rw [show v = 0 by omega]
      rfl

/-- The slot is the number of the block modulo the window, as a word. -/
lemma historySlot_eq (n : ℕ) : historySlot n = Trie.word (n % historyServeWindow) :=
  slotLoop_eq (Nat.mod_lt _ (by decide))

/-! ### Checks that pass -/

section Passed

open Lib

variable {K : HashFn} {table : Str → Str} {s o h e part v : Value} {u : Unit}

lemma out_found {α : Type} {name : Str} {x : Option α} {a : α} : (found name x).out = .ok a ↔ x = some a := by
  cases x with
  | none => exact iff_of_false out_fail (fun h => nomatch h)
  | some b => exact out_pure.trans ⟨fun h => congrArg some h, Option.some.inj⟩

lemma out_sameBlock {n : ℕ} : (sameBlock v n).out = .ok u ↔ isCount v n = true := by
  rw [sameBlock]
  split
  · next h => exact iff_of_true rfl h
  · next h =>
      refine iff_of_false (fun hout => ?_) h
      obtain ⟨_, -, hfail⟩ := Logged.out_bind_ok.mp hout
      exact out_fail hfail

lemma out_chainStep {chain : Number} :
    (chainStep part chain).out = .ok u ↔ Value.strictEq (part.get (js "chainId")) (.num chain) = true := by
  rw [chainStep]
  split
  · next h => exact iff_of_true rfl h
  · next h =>
      refine iff_of_false (fun hout => ?_) h
      obtain ⟨_, -, hfail⟩ := Logged.out_bind_ok.mp hout
      exact out_fail hfail

lemma b32_eq_ok {name : String} {b : Bytes} : b32 v name = .ok b ↔ hexOf v = .ok b ∧ b.length = 32 := by
  rw [b32]
  constructor
  · intro hb
    obtain ⟨b', hb', hb⟩ := bind_eq_ok hb
    split_ifs at hb with hlen
    cases hb
    exact ⟨hb', not_not.mp hlen⟩
  · rintro ⟨hb, hlen⟩
    rw [hb, ok_bind, if_neg (not_not.mpr hlen)]
    rfl

/-- The roots and the hash of a preimage of version 0. -/
structure Preimage where
  stateRoot : Bytes
  passer : Bytes
  blockHash : Bytes
  stateRoot_length : stateRoot.length = 32
  passer_length : passer.length = 32
  blockHash_length : blockHash.length = 32

def Preimage.bytes (p : Preimage) : Bytes := zero32 ++ p.stateRoot ++ p.passer ++ p.blockHash

lemma Preimage.eq_of_bytes {p p' : Preimage} (h : p.bytes = p'.bytes) : p = p' := by
  have hstate := p.stateRoot_length
  have hstate' := p'.stateRoot_length
  have hpasser := p.passer_length
  have hpasser' := p'.passer_length
  rw [Preimage.bytes, Preimage.bytes] at h
  obtain ⟨h, hhash⟩ := List.append_inj h (by simp only [List.length_append]; omega)
  obtain ⟨h, hp⟩ := List.append_inj h (by simp only [List.length_append]; omega)
  have hs := List.append_cancel_left h
  cases p
  cases p'
  simp_all

/-- The preimage as the settlement states it. -/
structure Preimage.Stated (p : Preimage) (o : Value) : Prop where
  version : hexOf (o.get (js "version")) = .ok zero32
  stateRoot : hexOf (o.get (js "stateRoot")) = .ok p.stateRoot
  passer : hexOf (o.get (js "messagePasserStorageRoot")) = .ok p.passer
  blockHash : hexOf (o.get (js "blockHash")) = .ok p.blockHash

lemma computeOutputRoot_eq_ok {root : Bytes} (hversion : hexOf (o.get (js "version")) = .ok zero32) :
    computeOutputRoot K o = .ok root ↔ ∃ p : Preimage, p.Stated o ∧ root = K p.bytes := by
  rw [computeOutputRoot, b32_eq_ok.mpr ⟨hversion, rfl⟩, ok_bind]
  constructor
  · intro hroot
    obtain ⟨stateRoot, hstate, hroot⟩ := bind_eq_ok hroot
    obtain ⟨passer, hpasser, hroot⟩ := bind_eq_ok hroot
    obtain ⟨blockHash, hhash, hroot⟩ := bind_eq_ok hroot
    rw [b32_eq_ok] at hstate hpasser hhash
    exact ⟨⟨stateRoot, passer, blockHash, hstate.2, hpasser.2, hhash.2⟩,
      ⟨hversion, hstate.1, hpasser.1, hhash.1⟩, (Except.ok.inj hroot).symm⟩
  · rintro ⟨p, hp, rfl⟩
    rw [b32_eq_ok.mpr ⟨hp.stateRoot, p.stateRoot_length⟩, ok_bind,
      b32_eq_ok.mpr ⟨hp.passer, p.passer_length⟩, ok_bind,
      b32_eq_ok.mpr ⟨hp.blockHash, p.blockHash_length⟩, ok_bind]
    rfl

lemma out_rootStep {root : Bytes} (h : (rootStep K o).out = .ok root) :
    ∃ p : Preimage, p.Stated o ∧ root = K p.bytes := by
  simp only [rootStep, Logged.out_bind_ok, out_orFail, out_require, bytesEqual_iff] at h
  obtain ⟨version, hread, _, rfl, root', hroot, _, -, _, -, h⟩ := h
  obtain rfl := out_pure.mp h
  obtain ⟨v, hv, hread⟩ := bind_eq_ok hread
  have hget : v = o.get (js "version") := by
    rw [Value.prop.eq_def] at hv
    split at hv
    · cases hv
    · cases hv
    · exact (Except.ok.inj hv).symm
  rw [hget, b32_eq_ok] at hread
  exact (computeOutputRoot_eq_ok hread.1).mp hroot

lemma storageWord_bigEndian {n : ℕ} (h : n < 2 ^ 256) :
    storageWord (.bytes (Rlp.bigEndian n)) = some (Trie.word n) := by
  have hlen := Trie.length_bigEndian_of_lt h
  have hzeros : ∀ k : ℕ, Sha256.beNat (List.replicate k 0) = 0 := by
    intro k
    induction k with
    | zero => rfl
    | succ k ih =>
        rw [List.replicate_succ', Sha256.beNat_append, ih]
        rfl
  have hword : Sha256.beNat (List.replicate (32 - (Rlp.bigEndian n).length) 0 ++ Rlp.bigEndian n) = n := by
    rw [Sha256.beNat_append, hzeros, Nat.zero_mul, Nat.zero_add, Rlp.beNat_bigEndian]
  have hbytes := Sha256.beBytes_beNat (List.replicate (32 - (Rlp.bigEndian n).length) 0 ++ Rlp.bigEndian n)
  rw [hword, List.length_append, List.length_replicate, show 32 - (Rlp.bigEndian n).length
    + (Rlp.bigEndian n).length = 32 by omega] at hbytes
  rw [storageWord, if_neg (by omega), Trie.word, hbytes]

/-- What the proofs of a settlement for an earlier block give. -/
structure Proven (K : HashFn) (h : Value) (stateRoot : Bytes) (B : ℕ) (base : Bytes)
    (accountProof storageProof : List Bytes) (account storageRoot raw : Bytes) : Prop where
  accountNodes : hexListOf (h.get (js "accountProof")) = .ok accountProof
  storageNodes : hexListOf (h.get (js "storageProof")) = .ok storageProof
  toAccount : Trie.mptVerify K stateRoot (K historyAddress) accountProof = some account
  toStorage : storageRootOf account = some storageRoot
  toRaw : Trie.mptVerify K storageRoot (K (Trie.word (B % historyServeWindow))) storageProof = some raw
  toWord : ∃ item, rlpDecode raw = .ok item ∧ storageWord item = some base

lemma out_historyStep {p : Preimage} (hp : p.Stated o) {B : ℕ} {base : Bytes}
    (hout : (historyStep K table o h B base).out = .ok u) :
    ∃ accountProof storageProof account storageRoot raw,
      Proven K h p.stateRoot B base accountProof storageProof account storageRoot raw := by
  simp only [historyStep, Logged.out_bind_ok, out_require, out_orThrow, out_orFail, out_found, bytesEqual_iff,
    beq_iff_eq, Option.join_eq_some_iff, toOption_eq_some, Option.bind_eq_some_iff] at hout
  obtain ⟨_, -, address, -, _, -, slot, -, _, rfl, account, haccount, storageRoot, hroot, raw, hraw, word,
    ⟨item, hitem, hword⟩, _, rfl, -⟩ := hout
  rw [accountOf, b32_eq_ok.mpr ⟨hp.stateRoot, p.stateRoot_length⟩, ok_bind,
    evmHexToBytes_historyStorageAddress, ok_bind] at haccount
  obtain ⟨accountProof, hproof, haccount⟩ := bind_eq_ok haccount
  rw [wordOf] at hraw
  obtain ⟨storageProof, hproof', hraw⟩ := bind_eq_ok hraw
  rw [historySlot_eq] at hraw
  exact ⟨accountProof, storageProof, account, storageRoot, raw, hproof, hproof', Except.ok.inj haccount, hroot,
    Except.ok.inj hraw, item, hitem, hword⟩

/-- What is hashed on the way from the output root to the block hash. -/
def hashedHere (K : HashFn) (p p' : Preimage) (B : ℕ) (accountProof storageProof : List Bytes)
    (state : Trie.State) : List Bytes :=
  p.bytes :: p'.bytes :: historyAddress :: Trie.word (B % historyServeWindow) :: accountProof ++ storageProof
    ++ state.hashedOf K

/-- The hash is the word that the state holds for the block, unless byte strings collide. -/
lemma word_of_proven {p p' : Preimage} {B : ℕ} {base : Bytes} {accountProof storageProof : List Bytes}
    {account storageRoot raw : Bytes} {state : Trie.State}
    (hproven : Proven K h p.stateRoot B base accountProof storageProof account storageRoot raw)
    (hapart : Trie.Apart K (hashedHere K p p' B accountProof storageProof state))
    (hroot : K p'.bytes = K p.bytes) (hstate : state.stateRoot K = p'.stateRoot) :
    ∃ a, (historyAddress, a) ∈ state.accounts ∧ base = Trie.word (a.at (B % historyServeWindow))
      ∧ 0 < a.at (B % historyServeWindow) := by
  have hsame : p' = p := Preimage.eq_of_bytes (hapart _ (by simp [hashedHere]) _ (by simp [hashedHere]) hroot)
  have haccount := hproven.toAccount
  rw [← hsame, ← hstate] at haccount
  obtain ⟨a, ha, hfields⟩ := Trie.account_of_mptVerify (hapart.mono fun x hx => by
    simp only [hashedHere, List.mem_cons, List.mem_append, List.cons_append] at hx ⊢
    tauto) haccount
  have hstorage := hproven.toStorage
  rw [storageRootOf, hfields, rlpDecode_rlpEncode (a.length_fields.trans (by norm_num))] at hstorage
  dsimp only [Trie.Account.fields] at hstorage
  rw [if_pos (show (a.storageRoot K).length = 32 from HashFn.length_apply K _)] at hstorage
  have hraw := hproven.toRaw
  rw [← Option.some.inj hstorage] at hraw
  have hslot : B % historyServeWindow < 2 ^ 256 := (Nat.mod_lt _ (by decide)).trans (by norm_num [historyServeWindow])
  obtain ⟨hvalue, hpos, hlt⟩ := Trie.word_of_mptVerify hslot (hapart.mono fun x hx => by
    have hof : x ∈ Trie.hashedOf K a.pairs → x ∈ state.hashedOf K := fun h =>
      List.mem_append_right _ (List.mem_flatMap.mpr ⟨_, ha, h⟩)
    simp only [hashedHere, List.mem_cons, List.mem_append, List.cons_append] at hx ⊢
    tauto) hraw
  obtain ⟨item, hitem, hword⟩ := hproven.toWord
  have hshort := Trie.length_bigEndian_of_lt hlt
  have hlen := @Trie.length_rlpEncode_bytes (Rlp.bigEndian (a.at (B % historyServeWindow))) (by omega)
  rw [hvalue, rlpDecode_rlpEncode (by omega)] at hitem
  rw [← Except.ok.inj hitem, storageWord_bigEndian hlt] at hword
  exact ⟨a, ha, (Option.some.inj hword).symm, hpos⟩

/-! ### The Ethereum block -/

/-- The transaction of the settlement: in the block of the header, and with the output root in its bytes. -/
structure Carried (K : HashFn) (table : Str → Str) (e : Value) (x : Existed) (txRoot rawTx : Bytes) (i : ℕ)
    (proof : List Bytes) : Prop where
  blockHash : lowerCase table (e.get (js "blockHash")) = .ok x.block.blockHash
  header : ∃ raw f number timestamp, hexOf (e.get (js "header")) = .ok raw
    ∧ x.block.blockHash = evmBytesToHex (K raw) ∧ rlpDecode raw = .ok (.list f)
    ∧ f[4]? = some (.bytes txRoot) ∧ f[8]? = some (.bytes number)
    ∧ x.block.blockNumber = Sha256.beNat number ∧ f[11]? = some (.bytes timestamp)
    ∧ x.block.blockTimestamp = Sha256.beNat timestamp
  raw : hexOf (e.get (js "rawTx")) = .ok rawTx
  txHash : lowerCase table (e.get (js "txHash")) = .ok (evmBytesToHex (K rawTx))
  chain : ∃ n, transactionChainId rawTx = some n ∧ bigIntOf x.chainId = .ok (n : ℤ)
  index : trieKeyOf (e.get (js "txIndex")) = .ok (Trie.txTrieKey i)
  nodes : hexListOf (e.get (js "txInclusionProof")) = .ok proof
  inBlock : Trie.mptVerify K txRoot (Trie.txTrieKey i) proof = some rawTx
  carries : x.outputRoot <:+: rawTx

lemma infix_of_indexOfBytes {needle hay : Bytes} : ∀ {i : ℕ}, (indexOfBytes needle hay i).isSome = true →
    needle <:+: hay := by
  induction hay with
  | nil =>
      intro i h
      rw [indexOfBytes] at h
      split at h
      · next hnil => rw [hnil]
      · exact nomatch h
  | cons b hay ih =>
      intro i h
      rw [indexOfBytes] at h
      split at h
      · next hpre => exact hpre.isInfix
      · exact (ih h).trans (List.suffix_cons b hay).isInfix

lemma trieKeyOf_eq_ok {key : Bytes} (h : trieKeyOf v = .ok key) : ∃ i, key = Trie.txTrieKey i := by
  rw [trieKeyOf.eq_def] at h
  split at h
  · next n =>
      rw [Ceiling.txTrieKeyOf] at h
      split at h
      · split_ifs at h
        exact ⟨_, (Except.ok.inj h).symm⟩
      · cases h
  · cases h

lemma out_ethereumStep {l1Chain : Number} {outputRoot : Bytes} {block : BlockTime}
    (h : (ethereumStep K table e l1Chain outputRoot).out = .ok block) :
    ∃ txRoot rawTx i proof, Carried K table e ⟨l1Chain, block, outputRoot⟩ txRoot rawTx i proof := by
  simp only [ethereumStep, Logged.out_bind_ok, out_require, out_orThrow, out_orFail, out_found, out_sameBlock,
    bytesEqual_iff, beq_iff_eq, Option.join_eq_some_iff, toOption_eq_some] at h
  obtain ⟨header, hread, blockHash, hlower, _, hhash, _, hnumber, _, htime, rawTx, hraw, txHash, htxHash, _, htx,
    n, hn, chain, hchain, _, hsame, inBlock, hin, _, rfl, _, hcarries, _, -, h⟩ := h
  obtain rfl := out_pure.mp h
  obtain ⟨raw, hrawHeader, hdecode⟩ := bind_eq_ok hread
  obtain ⟨f, txRoot, number, timestamp, hf, h4, hroot, h8, hnum, h11, hts⟩ := decodeHeader_eq_ok hdecode
  rw [inBlockOf, hroot, evmHexToBytes_evmBytesToHex, ok_bind] at hin
  obtain ⟨key, hkey, hin⟩ := bind_eq_ok hin
  obtain ⟨proof, hproof, hin⟩ := bind_eq_ok hin
  obtain ⟨i, rfl⟩ := trieKeyOf_eq_ok hkey
  refine ⟨txRoot, inBlock, i, proof, ?_⟩
  exact {
    blockHash := by rw [hlower, hhash]
    header := ⟨raw, f, number, timestamp, hrawHeader, decodeHeader_hash hdecode, hf, h4, h8, hnum, h11, hts⟩
    raw := hraw
    txHash := by rw [htxHash, htx]
    chain := ⟨n, hn, by rw [hchain, hsame]⟩
    index := hkey
    nodes := hproof
    inBlock := Except.ok.inj hin
    carries := infix_of_indexOfBytes hcarries }

/-! ### Soundness -/

/-- What settles the block: the preimages of the output root commit to its hash, directly or by the state. -/
def Settled (K : HashFn) (s : Value) (p : Preimage) (B P : ℕ) (base : Bytes) : Prop :=
  (B = P ∧ ∀ p' : Preimage, K p'.bytes = K p.bytes →
    base = p'.blockHash ∨ K.Collides [p'.bytes] [p.bytes])
  ∨ (B < P ∧ P ≤ B + historyServeWindow ∧ ∃ accountProof storageProof account storageRoot raw,
    Proven K (s.get (js "history")) p.stateRoot B base accountProof storageProof account storageRoot raw
    ∧ Trie.Walked K p.stateRoot (K historyAddress) accountProof account
    ∧ Trie.Walked K storageRoot (K (Trie.word (B % historyServeWindow))) storageProof raw
    ∧ ∀ (p' : Preimage) (state : Trie.State), K p'.bytes = K p.bytes → state.stateRoot K = p'.stateRoot →
      (∃ a, (historyAddress, a) ∈ state.accounts ∧ base = Trie.word (a.at (B % historyServeWindow))
        ∧ ∀ first hashOf, (∀ slot, a.at slot = served first hashOf P slot) → base = Trie.word (hashOf B))
      ∨ K.Collides (hashedHere K p p' B accountProof storageProof state)
        (hashedHere K p p' B accountProof storageProof state))

lemma settled_of_proven {p : Preimage} {B P : ℕ} {base : Bytes} {accountProof storageProof : List Bytes}
    {account storageRoot raw : Bytes} (hlt : B < P) (hwindow : P ≤ B + historyServeWindow)
    (hproven : Proven K (s.get (js "history")) p.stateRoot B base accountProof storageProof account storageRoot
      raw) : Settled K s p B P base := by
  refine Or.inr ⟨hlt, hwindow, accountProof, storageProof, account, storageRoot, raw, hproven,
    Trie.walked_of_mptVerify hproven.toAccount, Trie.walked_of_mptVerify hproven.toRaw,
    fun p' state hroot hstate => ?_⟩
  rcases Trie.apart_or_collides K (hashedHere K p p' B accountProof storageProof state) with
    hapart | hcollides
  · obtain ⟨a, ha, hword, hpos⟩ := word_of_proven hproven hapart hroot hstate
    refine Or.inl ⟨a, ha, hword, fun first hashOf hserved => ?_⟩
    rw [hserved, served_eq hlt hwindow] at hword hpos
    by_cases hfirst : first ≤ B
    · rw [if_pos hfirst] at hword
      exact hword
    · rw [if_neg hfirst] at hpos
      exact absurd hpos (lt_irrefl 0)
  · exact Or.inr hcollides

lemma out_blockStep {p : Preimage} (hp : p.Stated (s.get (js "outputRoot")))
    (h : (blockStep K table s).out = .ok u) :
    ∃ (B P : ℕ) (base : Bytes), integerOf ((s.get (js "base")).get (js "blockNumber")) = some (B : ℤ)
      ∧ hexOf ((s.get (js "base")).get (js "blockHash")) = .ok base
      ∧ integerOf ((s.get (js "outputRoot")).get (js "blockNumber")) = some (P : ℤ) ∧ Settled K s p B P base := by
  simp only [blockStep, Logged.out_bind_ok, out_orFail] at h
  obtain ⟨base, hbase, h⟩ := h
  obtain ⟨hbase, -⟩ := b32_eq_ok.mp hbase
  split at h
  · next blockNumber rootNumber hB hP =>
      split_ifs at h with hneg hsame hd
      · exact absurd h out_fail
      · -- the output root names the block itself
        simp only [Logged.out_bind_ok, out_require, out_orThrow, bytesEqual_iff] at h
        obtain ⟨_, -, named, hnamed, _, rfl, -⟩ := h
        obtain ⟨B, rfl⟩ := Int.eq_ofNat_of_zero_le (not_lt.mp hneg)
        rw [b32_eq_ok, hp.blockHash] at hnamed
        refine ⟨B, B, named, hB, hbase, hsame ▸ hP, Or.inl ⟨rfl, fun p' hroot => ?_⟩⟩
        by_cases heq : p'.bytes = p.bytes
        · rw [Preimage.eq_of_bytes heq]
          exact Or.inl (Except.ok.inj hnamed.1).symm
        · exact Or.inr ⟨_, List.mem_singleton_self _, _, List.mem_singleton_self _, heq, hroot⟩
      · exact absurd h out_fail
      · -- the difference was not rounded
        rw [not_or, not_lt, not_lt, historyServeWindow] at hd
        have hround := roundInt_eq_of_lt (z := rootNumber - blockNumber) (by omega)
        rw [hround] at hd
        obtain ⟨B, rfl⟩ := Int.eq_ofNat_of_zero_le (not_lt.mp hneg)
        obtain ⟨P, rfl⟩ := Int.eq_ofNat_of_zero_le (show 0 ≤ rootNumber by omega)
        obtain ⟨accountProof, storageProof, account, storageRoot, raw, hproven⟩ := out_historyStep hp h
        exact ⟨B, P, base, hB, hbase, hP,
          settled_of_proven (by omega) (by rw [historyServeWindow]; omega) hproven⟩
  · exact absurd h out_fail

/-- **Soundness**: a settlement that passes names the value that the history contract holds for the block in the
state the output root commits to, or the block of the output root itself, and the Ethereum block holds the
transaction that carries the output root, unless byte strings collide. The nodes a proof is read by are those of
every proof that gives a value. -/
theorem verifyOutputRootSettlement_sound {opts : OutputRootVerifyOptions} {x : Existed}
    (h : (verifyOutputRootSettlement K table s opts).existedBy = some x) :
    ∃ (B P : ℕ) (base : Bytes) (p : Preimage),
      integerOf ((s.get (js "base")).get (js "blockNumber")) = some (B : ℤ)
      ∧ hexOf ((s.get (js "base")).get (js "blockHash")) = .ok base
      ∧ integerOf ((s.get (js "outputRoot")).get (js "blockNumber")) = some (P : ℤ)
      ∧ p.Stated (s.get (js "outputRoot")) ∧ x.outputRoot = K p.bytes ∧ Settled K s p B P base
      ∧ ∃ txRoot rawTx i proof, Carried K table (s.get (js "ethereum")) x txRoot rawTx i proof
        ∧ Trie.Walked K txRoot (Trie.txTrieKey i) proof rawTx
        ∧ ∀ values, Trie.Sized values → Trie.TrieRoot K values txRoot → values[i]? = some rawTx
          ∨ ∃ N, Radix.IsTree (Trie.txMap values) N ∧ K.Collides proof (Trie.encodings K N) := by
  have hout : (verifyOutputRootChecks K table s opts).out = .ok x := by
    rw [verifyOutputRootSettlement] at h
    split at h
    · next x' hx => rw [hx, Option.some.inj h]
    · cases h
    · cases h
  simp only [verifyOutputRootChecks, Logged.out_bind_ok] at hout
  obtain ⟨_, -, _, -, _, -, root, hroot, _, hblock, block, hethereum, hx⟩ := hout
  obtain rfl := out_pure.mp hx
  obtain ⟨p, hp, rfl⟩ := out_rootStep hroot
  obtain ⟨B, P, base, hB, hbase, hP, hsettled⟩ := out_blockStep hp hblock
  obtain ⟨txRoot, rawTx, i, proof, hcarried⟩ := out_ethereumStep hethereum
  exact ⟨B, P, base, p, hB, hbase, hP, hp, rfl, hsettled, txRoot, rawTx, i, proof, hcarried,
    Trie.walked_of_mptVerify hcarried.inBlock,
    fun values hs hroot => (Trie.mptVerify_sound K).2 hs hroot i proof rawTx hcarried.inBlock⟩

end Passed

/-! ### A settlement -/

section Sample

open Lib

variable (K : HashFn)

/-- The history contract with the hash 7 of block 1. -/
def sampleAccount : Trie.Account where
  nonce := 1
  balance := 0
  storage := [(1, 7)]
  codeHash := zero32
  nonce_lt := by norm_num
  balance_lt := by norm_num
  codeHash_length := rfl
  slots := by decide
  words := by decide

def sampleState : Trie.State := ⟨[(historyAddress, sampleAccount)], by decide⟩

def samplePreimage : Preimage where
  stateRoot := sampleState.stateRoot K
  passer := zero32
  blockHash := zero32
  stateRoot_length := HashFn.length_apply K _
  passer_length := rfl
  blockHash_length := rfl

def sampleRawTx : Bytes := 2 :: rlpEncode (.list [.bytes [1], .bytes (K (samplePreimage K).bytes)])

def sampleTxTrie : Trie.Node := Trie.trieOf [sampleRawTx K]

def sampleHeader : Bytes :=
  rlpEncode (.list ([zero32, [], [], [], K (Trie.rlp K (sampleTxTrie K)), [], [], [], [9], [], [], [5], [], [],
    []].map .bytes))

def text (b : Bytes) : Value := .str (evmBytesToHex b)

/-- The settlement of block 1 by the output root of block 2, with every node of its proofs that many times. -/
def sample (copies : ℕ) : Value := .obj [
  (js "version", .str outputRootVersion),
  (js "base", .obj [
    (js "chainId", .num (Number.ofNat 8453)),
    (js "blockNumber", .num (Number.ofNat 1)),
    (js "blockHash", text (Trie.word 7))]),
  (js "outputRoot", .obj [
    (js "version", text zero32),
    (js "blockNumber", .num (Number.ofNat 2)),
    (js "stateRoot", text (samplePreimage K).stateRoot),
    (js "messagePasserStorageRoot", text zero32),
    (js "blockHash", text zero32)]),
  (js "history", .obj [
    (js "address", .str historyStorageAddress),
    (js "slot", text (Trie.word 1)),
    (js "accountProof",
      .arr (List.replicate copies (text (Trie.rlp K (Trie.hashedTrie K (sampleState.pairs K)))))),
    (js "storageProof",
      .arr (List.replicate copies (text (Trie.rlp K (Trie.hashedTrie K sampleAccount.pairs)))))]),
  (js "ethereum", .obj [
    (js "chainId", .num (Number.ofNat 1)),
    (js "header", text (sampleHeader K)),
    (js "blockHash", text (K (sampleHeader K))),
    (js "blockNumber", .num (Number.ofNat 9)),
    (js "blockTimestamp", .num (Number.ofNat 5)),
    (js "rawTx", text (sampleRawTx K)),
    (js "txHash", text (K (sampleRawTx K))),
    (js "txIndex", .num (Number.ofNat 0)),
    (js "txInclusionProof", .arr (List.replicate copies (text (Trie.rlp K (sampleTxTrie K)))))])]

variable {K} {table : Str → Str} {n : ℕ}

lemma hexOf_text (b : Bytes) : hexOf (text b) = .ok b := evmHexToBytes_evmBytesToHex b

lemma lowerCase_text (b : Bytes) : lowerCase table (text b) = .ok (evmBytesToHex b) :=
  congrArg Except.ok (toLowerCase_evmBytesToHex table b)

lemma hexListOf_text (b : Bytes) : hexListOf (.arr (List.replicate n (text b))) = .ok (List.replicate n b) := by
  rw [hexListOf, mapM_eq_ok]
  induction n with
  | zero => exact List.Forall₂.nil
  | succ n ih => exact List.Forall₂.cons (hexOf_text b) ih

lemma samplePreimage_stated : (samplePreimage K).Stated ((sample K n).get (js "outputRoot")) where
  version := hexOf_text zero32
  stateRoot := hexOf_text _
  passer := hexOf_text _
  blockHash := hexOf_text _

lemma sample_rootStep :
    (rootStep K ((sample K n).get (js "outputRoot"))).out = .ok (K (samplePreimage K).bytes) := by
  simp only [rootStep, Logged.out_bind_ok, out_orFail, out_require, bytesEqual_iff]
  have hversion : b32 (((sample K n).get (js "outputRoot")).get (js "version")) "outputRoot.version" = .ok zero32 :=
    b32_eq_ok.mpr ⟨hexOf_text _, rfl⟩
  exact ⟨zero32, hversion, (), rfl, _, (computeOutputRoot_eq_ok samplePreimage_stated.version).mpr
    ⟨_, samplePreimage_stated, rfl⟩, (), rfl, (), rfl, rfl⟩

lemma sample_storageRootOf :
    storageRootOf (rlpEncode (.list (sampleAccount.fields K))) = some (sampleAccount.storageRoot K) := by
  rw [storageRootOf, rlpDecode_rlpEncode ((Trie.Account.length_fields sampleAccount).trans (by norm_num))]
  exact if_pos (HashFn.length_apply K _)

/-- Proofs with every node at least once prove the hash of block 1. -/
lemma sample_historyStep :
    (historyStep K table ((sample K (n + 1)).get (js "outputRoot")) ((sample K (n + 1)).get (js "history")) 1
      (Trie.word 7)).out = .ok () := by
  have hlower : lowerCase table (.str historyStorageAddress) = .ok historyStorageAddress := by
    have haddress : historyStorageAddress = evmBytesToHex historyAddress := by decide
    rw [haddress]
    exact lowerCase_text historyAddress
  have haccount : accountOf K ((sample K (n + 1)).get (js "outputRoot")) ((sample K (n + 1)).get (js "history"))
      = .ok (some (rlpEncode (.list (sampleAccount.fields K)))) := by
    have hroot : b32 (((sample K (n + 1)).get (js "outputRoot")).get (js "stateRoot")) "outputRoot.stateRoot"
        = .ok (sampleState.stateRoot K) := b32_eq_ok.mpr ⟨hexOf_text _, HashFn.length_apply K _⟩
    have hnodes : hexListOf (((sample K (n + 1)).get (js "history")).get (js "accountProof"))
        = .ok (List.replicate (n + 1) (Trie.rlp K (Trie.hashedTrie K (sampleState.pairs K)))) := hexListOf_text _
    rw [accountOf, hroot, ok_bind, evmHexToBytes_historyStorageAddress, ok_bind, hnodes, ok_bind]
    refine congrArg Except.ok (Trie.mptVerify_single ?_ (Trie.Account.length_fields sampleAccount) _)
    rw [HashFn.length_apply]
    norm_num
  have hword : wordOf K ((sample K (n + 1)).get (js "history")) (sampleAccount.storageRoot K) (Trie.word 1)
      = .ok (some (rlpEncode (.bytes (Rlp.bigEndian 7)))) := by
    have hnodes : hexListOf (((sample K (n + 1)).get (js "history")).get (js "storageProof"))
        = .ok (List.replicate (n + 1) (Trie.rlp K (Trie.hashedTrie K sampleAccount.pairs))) := hexListOf_text _
    rw [wordOf, hnodes, ok_bind]
    have hshort : (rlpEncode (.bytes (Rlp.bigEndian 7))).length < 2 ^ 53 := by decide
    refine congrArg Except.ok (Trie.mptVerify_single ?_ hshort _)
    rw [HashFn.length_apply]
    norm_num
  have hslot : b32 (((sample K (n + 1)).get (js "history")).get (js "slot")) "history.slot" = .ok (Trie.word 1) :=
    b32_eq_ok.mpr ⟨hexOf_text _, rfl⟩
  simp only [historyStep, Logged.out_bind_ok, out_require, out_orThrow, out_orFail, out_found, bytesEqual_iff,
    beq_iff_eq, Option.join_eq_some_iff, toOption_eq_some, Option.bind_eq_some_iff]
  exact ⟨(), rfl, _, hlower, (), rfl, _, hslot, (), (historySlot_eq 1).symm, _, haccount, _,
    sample_storageRootOf, _, hword, Trie.word 7,
    ⟨_, rlpDecode_rlpEncode (by decide), storageWord_bigEndian (by norm_num)⟩, (), rfl, rfl⟩

lemma sample_blockStep : (blockStep K table (sample K (n + 1))).out = .ok () := by
  have hbase : b32 (((sample K (n + 1)).get (js "base")).get (js "blockHash")) "base.blockHash"
      = .ok (Trie.word 7) := b32_eq_ok.mpr ⟨hexOf_text _, rfl⟩
  have hB : integerOf (((sample K (n + 1)).get (js "base")).get (js "blockNumber")) = some ((1 : ℕ) : ℤ) :=
    @toInt?_ofNat 1 (by norm_num)
  have hP : integerOf (((sample K (n + 1)).get (js "outputRoot")).get (js "blockNumber")) = some ((2 : ℕ) : ℤ) :=
    @toInt?_ofNat 2 (by norm_num)
  rw [blockStep]
  dsimp only
  rw [hbase, hB, hP]
  simp only [Logged.out_bind_ok, out_orFail]
  refine ⟨Trie.word 7, rfl, ?_⟩
  rw [if_neg (by norm_num), if_neg (by norm_num), roundInt_of_abs_lt (by decide), if_neg (by decide)]
  exact sample_historyStep

/-- What stands at the end of the bytes is found in them. -/
lemma indexOfBytes_of_suffix {needle hay : Bytes} (h : needle <:+ hay) :
    ∀ i, (indexOfBytes needle hay i).isSome = true := by
  induction hay with
  | nil =>
      intro i
      rw [indexOfBytes, if_pos (List.suffix_nil.mp h)]
      rfl
  | cons b hay ih =>
      intro i
      rw [indexOfBytes]
      split
      · rfl
      · next hpre =>
          rcases List.suffix_cons_iff.mp h with rfl | h
          · exact absurd (List.prefix_refl _) hpre
          · exact ih h (i + 1)

lemma rlpEncode_hash {b : Bytes} (h : b.length = 32) : rlpEncode (.bytes b) = 0xa0 :: b := by
  have hsingle : Rlp.isSingle b = false := by
    rw [Rlp.isSingle.eq_def]
    split
    · exact absurd h (by simp)
    · rfl
  rw [rlpEncode, hsingle, h]
  rfl

lemma sampleRawTx_eq : sampleRawTx K = [2, 0xe2, 1, 0xa0] ++ K (samplePreimage K).bytes := by
  have hlen : (K (samplePreimage K).bytes).length = 32 := HashFn.length_apply K _
  have hone : rlpEncode (.bytes [1]) = [1] := by decide
  rw [sampleRawTx, rlpEncode, rlpEncodeAll, rlpEncodeAll, rlpEncodeAll, hone, rlpEncode_hash hlen]
  simp only [List.length_append, List.length_cons, List.length_nil, List.append_nil, hlen]
  rfl

lemma sample_chain : transactionChainId (sampleRawTx K) = some 1 := by
  have hlen : (sampleRawTx K).length = 36 := by
    rw [sampleRawTx_eq, List.length_append, HashFn.length_apply]
    rfl
  rw [sampleRawTx, List.length_cons] at hlen
  rw [sampleRawTx, transactionChainId, if_pos (by decide), rlpDecode_rlpEncode (by omega)]
  rfl

/-- A list of few short byte strings is short. -/
lemma length_rlpEncode_fields {fields : List Bytes} (h : ∀ b ∈ fields, b.length ≤ 32) (hlen : fields.length ≤ 32) :
    (rlpEncode (.list (fields.map .bytes))).length < 2 ^ 53 := by
  have hall := @Trie.length_rlpEncodeAll_le (fields.map .bytes) 41 fun item hitem => by
    obtain ⟨b, hb, rfl⟩ := List.mem_map.mp hitem
    have hshort := h b hb
    have hle := @Trie.length_rlpEncode_bytes b (by omega)
    omega
  rw [List.length_map] at hall
  have hlist := @Trie.length_rlpEncode_list (fields.map .bytes) (by omega)
  omega

lemma sample_header : decodeHeader K (sampleHeader K) = .ok ⟨evmBytesToHex (K (sampleHeader K)),
    evmBytesToHex zero32, evmBytesToHex (K (Trie.rlp K (sampleTxTrie K))), 9, 5⟩ := by
  have hroot : (K (Trie.rlp K (sampleTxTrie K))).length = 32 := HashFn.length_apply K _
  have hlen : (sampleHeader K).length < 2 ^ 53 := by
    refine length_rlpEncode_fields (fun b hb => ?_) (by simp)
    simp only [List.mem_cons, List.not_mem_nil, or_false] at hb
    rcases hb with rfl | rfl | rfl | rfl | rfl | rfl | rfl | rfl | rfl | rfl | rfl | rfl | rfl | rfl | rfl <;>
      simp [zero32]
  rw [sampleHeader] at hlen ⊢
  rw [decodeHeader_of_fields hlen (by simp) rfl rfl rfl rfl (by decide) (by decide), if_neg (by decide),
    if_neg (by rw [hroot]; decide)]
  rfl

lemma sample_ethereumStep :
    (ethereumStep K table ((sample K (n + 1)).get (js "ethereum")) (Number.ofNat 1)
      (K (samplePreimage K).bytes)).out = .ok ⟨9, evmBytesToHex (K (sampleHeader K)), 5⟩ := by
  have hread : (hexOf (((sample K (n + 1)).get (js "ethereum")).get (js "header")) >>= decodeHeader K) = .ok
      ⟨evmBytesToHex (K (sampleHeader K)), evmBytesToHex zero32, evmBytesToHex (K (Trie.rlp K (sampleTxTrie K))),
        9, 5⟩ := by
    have htext : hexOf (((sample K (n + 1)).get (js "ethereum")).get (js "header")) = .ok (sampleHeader K) :=
      hexOf_text _
    rw [htext, ok_bind, sample_header]
  have hin : inBlockOf K ((sample K (n + 1)).get (js "ethereum")) ⟨evmBytesToHex (K (sampleHeader K)),
      evmBytesToHex zero32, evmBytesToHex (K (Trie.rlp K (sampleTxTrie K))), 9, 5⟩ = .ok (some (sampleRawTx K)) := by
    have hkey : trieKeyOf (((sample K (n + 1)).get (js "ethereum")).get (js "txIndex")) = .ok (Trie.txTrieKey 0) :=
      @Ceiling.txTrieKeyOf_ofNat 0 (by norm_num)
    have hnodes : hexListOf (((sample K (n + 1)).get (js "ethereum")).get (js "txInclusionProof"))
        = .ok (List.replicate (n + 1) (Trie.rlp K (sampleTxTrie K))) := hexListOf_text _
    have hshort : (sampleRawTx K).length < 2 ^ 53 := by
      rw [sampleRawTx_eq, List.length_append, HashFn.length_apply]
      norm_num
    rw [inBlockOf]
    dsimp only
    rw [evmHexToBytes_evmBytesToHex, ok_bind, hkey, ok_bind, hnodes, ok_bind]
    exact congrArg Except.ok (Trie.mptVerify_single (by decide) hshort _)
  have hcarries : (indexOfBytes (K (samplePreimage K).bytes) (sampleRawTx K) 0).isSome = true := by
    refine indexOfBytes_of_suffix ?_ 0
    rw [sampleRawTx_eq]
    exact List.suffix_append _ _
  have hchain : bigIntOf (Number.ofNat 1) = .ok ((1 : ℕ) : ℤ) := by
    rw [bigIntOf, toInt?_ofNat (by norm_num)]
  have hnumber : isCount (.num (Number.ofNat 9)) 9 = true := by decide
  have htime : isCount (.num (Number.ofNat 5)) 5 = true := by decide
  simp only [ethereumStep, Logged.out_bind_ok, out_require, out_orThrow, out_orFail, out_found, out_sameBlock,
    bytesEqual_iff, beq_iff_eq, Option.join_eq_some_iff, toOption_eq_some]
  exact ⟨_, hread, _, lowerCase_text _, (), rfl, (), hnumber, (), htime, _, hexOf_text _, _, lowerCase_text _,
    (), rfl, _, sample_chain, _, hchain, (), rfl, _, hin, (), rfl, (), hcarries, (), rfl, rfl⟩

/-- The settlement passes, with any number of copies of the nodes. -/
lemma sample_ok : (verifyOutputRootSettlement K table (sample K (n + 1)) ⟨none, none⟩).existedBy
    = some ⟨Number.ofNat 1, ⟨9, evmBytesToHex (K (sampleHeader K)), 5⟩, K (samplePreimage K).bytes⟩ := by
  have hout : (verifyOutputRootChecks K table (sample K (n + 1)) ⟨none, none⟩).out
      = .ok ⟨Number.ofNat 1, ⟨9, evmBytesToHex (K (sampleHeader K)), 5⟩, K (samplePreimage K).bytes⟩ := by
    have hbase : Value.strictEq (.num (Number.ofNat 8453)) (.num (Number.ofNat 8453)) = true := by decide
    have hl1 : Value.strictEq (.num (Number.ofNat 1)) (.num (Number.ofNat 1)) = true := by decide
    simp only [verifyOutputRootChecks, Logged.out_bind_ok, out_require, out_chainStep]
    exact ⟨(), beq_self_eq_true _, (), hbase, (), hl1, _, sample_rootStep, (), sample_blockStep, _,
      sample_ethereumStep, rfl⟩
  rw [verifyOutputRootSettlement, hout]

/-- What the settlement of block 1 says. -/
theorem verifyOutputRootSettlement_sound_sample :
    ∃ x, (verifyOutputRootSettlement keccak256 id (sample keccak256 1) ⟨none, none⟩).existedBy = some x
      ∧ ∃ (B P : ℕ) (base : Bytes) (p : Preimage), x.outputRoot = keccak256 p.bytes
        ∧ integerOf (((sample keccak256 1).get (js "base")).get (js "blockNumber")) = some (B : ℤ)
        ∧ Settled keccak256 (sample keccak256 1) p B P base := by
  have hok := @sample_ok keccak256 id 0
  obtain ⟨B, P, base, p, hB, -, -, -, hroot, hsettled, -⟩ := verifyOutputRootSettlement_sound hok
  exact ⟨_, hok, B, P, base, p, hroot, hB, hsettled⟩

/-- A proof with its last node twice is accepted: nodes after the last that is read are not looked at. -/
theorem repeated_node_passes :
    ¬ ∀ (table : Str → Str) (s : Value) (opts : OutputRootVerifyOptions) (proof : List Bytes),
      hexListOf ((s.get (js "ethereum")).get (js "txInclusionProof")) = .ok proof → ¬ proof.Nodup →
      (verifyOutputRootSettlement keccak256 table s opts).existedBy = none := by
  intro h
  have hnone := h id (sample keccak256 2) ⟨none, none⟩ (List.replicate 2 _) (hexListOf_text _)
    (by simp)
  rw [sample_ok] at hnone
  exact nomatch hnone

end Sample

end OutputRoot

end BitGraph
