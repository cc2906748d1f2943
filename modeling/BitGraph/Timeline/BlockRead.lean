import BitGraph.Timeline.Stretch

/-!
`block-read.ts`: a read of a public chain's block, bound as a BitGraph.

* **The file.** `parseBlockReadFile` accepts exactly the fields of a block read; a `BlockReadFile`
  carries what was checked of them.
* **The check.** `checkBlockRead` compares the file with its proof and with the chain's answer.
* **Confirmed.** `checkBlockRead_confirmed`: the file is one of the proof's digest and epoch, and
  every field is the chain's.
-/

namespace BitGraph

open Js

namespace BlockRead

def blockReadFormat : Str := js "bitgraph-block-read/1"

/-! ### The file -/

/-- The chains read. -/
inductive BlockReadChain where
  | base
  | ethereum
  deriving DecidableEq

def BlockReadChain.name : BlockReadChain → Str
  | .base => js "base"
  | .ethereum => js "ethereum"

/-- `BLOCK_READ_CHAIN_IDS`: the CAIP-2 ids of a chain, mainnet first. -/
def BlockReadChain.chainIds : BlockReadChain → List Str
  | .base => [js "eip155:8453", js "eip155:84532"]
  | .ethereum => [js "eip155:1", js "eip155:11155111"]

/-- `Number.MAX_SAFE_INTEGER`. -/
def maxSafe : ℕ := 2 ^ 53 - 1

/-- `isCount`, with the number. -/
def count? (v : Value) : Option ℕ :=
  match v with
  | .num n =>
    match n.toInt? with
    | some (.ofNat k) => if k ≤ maxSafe then some k else none
    | _ => none
  | _ => none

/-- `/^[A-Za-z0-9+/]{43}=$/`: 32 bytes, with whatever bits are left over. -/
def isB64Of32 (s : Str) : Bool :=
  s.length == 44 && s.getLast? == some 61 && s.dropLast.all fun c => (b64Val? c).isSome

/-- `0x` and `n` lowercase hex digits. -/
def isHexOf (n : ℕ) (s : Str) : Bool :=
  s.length == n + 2 && (js "0x").isPrefixOf s && (s.drop 2).all isLowerHex

def isBlockReadHash (s : Str) : Bool := isHexOf 64 s

/-- A block read's file. -/
structure BlockReadFile where
  epochId : Str
  chain : BlockReadChain
  chainId : Str
  number : ℕ
  hash : Str
  timestamp : ℕ
  epochId_b64 : isB64Of32 epochId = true
  chainId_mem : chainId ∈ chain.chainIds
  number_le : number ≤ maxSafe
  hash_hex : isBlockReadHash hash = true
  timestamp_le : timestamp ≤ maxSafe

def fields : List Str :=
  [js "format", js "epochId", js "chain", js "chainId", js "number", js "hash", js "timestamp"]

def chain? (v : Value) : Option BlockReadChain :=
  if v = .str (js "base") then some .base
  else if v = .str (js "ethereum") then some .ethereum else none

/-- What is wrong with the fields of a block read. -/
def shapeReasons (o : Fields) : List Str :=
  let get (k : String) : Value := (Value.obj o).get (js k)
  if get "format" ≠ .str blockReadFormat then [js "not " ++ blockReadFormat]
  else
    (o.filter fun m => !fields.contains m.1).map (fun m => js "unexpected field " ++ m.1) ++
    reasonUnless (isText isB64Of32 (get "epochId")) (js "epochId is not 32 bytes of standard base64") ++
    (match chain? (get "chain") with
      | none => [js "unknown chain " ++ (Value.serialize (get "chain")).getD (js "undefined")]
      | some c =>
        reasonUnless (isText (fun t => c.chainIds.contains t) (get "chainId")) (js "chainId is not one of " ++ c.name ++ js "'s") ++
        reasonUnless (isText isBlockReadHash (get "hash")) (js "hash is not a " ++ c.name ++ js " block hash")) ++
    reasonUnless (count? (get "number")).isSome (js "number is not a safe non-negative integer") ++
    reasonUnless (count? (get "timestamp")).isSome (js "timestamp is not a safe non-negative integer (Unix seconds)")

/-- The fields of a block read, read at their types. -/
def ofFields (o : Fields) : Option BlockReadFile :=
  let get (k : String) : Value := (Value.obj o).get (js k)
  match get "epochId", chain? (get "chain"), get "chainId", count? (get "number"), get "hash",
    count? (get "timestamp") with
  | .str epochId, some chain, .str chainId, some number, .str hash, some timestamp =>
    if h : isB64Of32 epochId = true ∧ chainId ∈ chain.chainIds ∧ number ≤ maxSafe ∧
        isBlockReadHash hash = true ∧ timestamp ≤ maxSafe then
      some ⟨epochId, chain, chainId, number, hash, timestamp, h.1, h.2.1, h.2.2.1, h.2.2.2.1,
        h.2.2.2.2⟩
    else none
  | _, _, _, _, _, _ => none

def parseBlockReadFile (text : Str) : Option BlockReadFile :=
  match parse text with
  | some (.obj o) => if shapeReasons o = [] then ofFields o else none
  | _ => none

/-! ### The check -/

/-- What the chain says about a block hash. -/
structure ChainBlock where
  chainId : Str
  hash : Str
  number : Number
  timestamp : Number
  canonical : Bool

/-- A block as its chain reports it. -/
structure Block where
  chain : BlockReadChain
  chainId : Str
  hash : Str
  number : ℕ
  timestamp : ℕ
  deriving DecidableEq

inductive Status where
  | confirmed
  | unconfirmed
  | failed
  deriving DecidableEq

structure BlockReadCheck where
  status : Status
  reasons : List Str
  file : Option BlockReadFile
  block : Option Block

/-- The file of a check that objects to nothing. -/
def BlockReadCheck.accepted (r : BlockReadCheck) : Option BlockReadFile :=
  if r.status = .failed then none else r.file

section Check

variable (H : HashFn) (toLowerCase : Str → Str)

def blockReadDigestB64 (text : Str) : Str := bytesToBase64 (H (utf8Encode text))

/-- The file against its proof. -/
def bindReasons (text : Str) (file : BlockReadFile) (proof : Value) : List Str :=
  reasonUnless ((proof.get (js "artifact")).get (js "digestB64") == .str (blockReadDigestB64 H text))
    (js "the file does not hash to the proof's digest") ++
  reasonUnless ((proof.get (js "commit")).get (js "epochId") == .str file.epochId)
    (js "the proof is not of the epoch the file names")

/-- The file against the chain's answer. -/
def chainReasons (file : BlockReadFile) (c : ChainBlock) : List Str :=
  reasonUnless (c.chainId == file.chainId) (js "the file names chain " ++ file.chainId ++ js "; the answer came from " ++ c.chainId) ++
  reasonUnless (toLowerCase c.hash == file.hash) (file.chain.name ++ js " answered for another block") ++
  reasonUnless c.canonical (js "block " ++ file.hash ++ js " is not on " ++ file.chain.name ++ js "'s canonical chain") ++
  reasonUnless (c.number.toInt? == some (file.number : ℤ)) (js "the file says block " ++ decimal file.number ++ js "; " ++ file.chain.name ++ js " says " ++ c.number.toStr) ++
  reasonUnless (c.timestamp.toInt? == some (file.timestamp : ℤ)) (js "the file says time " ++ decimal file.timestamp ++ js "; " ++ file.chain.name ++ js " says " ++ c.timestamp.toStr)

/-- `chain` is absent when the chain was not asked, and `some none` when it does not know the
hash. -/
def checkBlockRead (text : Str) (proof : Value) (chain : Option (Option ChainBlock)) :
    BlockReadCheck :=
  match parseBlockReadFile text with
  | none => ⟨.failed, [js "the file is not a " ++ blockReadFormat ++ js " record"], none, none⟩
  | some file =>
    let reasons := bindReasons H text file proof ++ match chain with
      | none => []
      | some none => [file.chain.name ++ js " does not know block " ++ file.hash]
      | some (some c) => chainReasons toLowerCase file c
    match reasons, chain with
    | _ :: _, _ => ⟨.failed, reasons, some file, none⟩
    | [], some (some c) => ⟨.confirmed, [], some file, some ⟨file.chain, file.chainId, file.hash,
        (c.number.toInt?.getD 0).toNat, (c.timestamp.toInt?.getD 0).toNat⟩⟩
    | [], _ => ⟨.unconfirmed, [], some file, none⟩

end Check

/-! ### What a check finds -/

/-- The proof binds the file, and is of its epoch. -/
structure Binds (H : HashFn) (text : Str) (file : BlockReadFile) (proof : Value) : Prop where
  parse : parseBlockReadFile text = some file
  digest : (proof.get (js "artifact")).get (js "digestB64") = .str (blockReadDigestB64 H text)
  epoch : (proof.get (js "commit")).get (js "epochId") = .str file.epochId

/-- Every field of the file is the chain's, and the block is on its canonical chain. -/
structure Confirms (toLowerCase : Str → Str) (file : BlockReadFile) (c : ChainBlock) : Prop where
  chainId : c.chainId = file.chainId
  hash : toLowerCase c.hash = file.hash
  canonical : c.canonical = true
  number : c.number.toInt? = some (file.number : ℤ)
  timestamp : c.timestamp.toInt? = some (file.timestamp : ℤ)

/-- The block of a file, as its chain reports it. -/
def BlockReadFile.block (file : BlockReadFile) : Block :=
  ⟨file.chain, file.chainId, file.hash, file.number, file.timestamp⟩

section Facts

variable {H : HashFn} {toLowerCase : Str → Str} {text : Str} {file : BlockReadFile} {proof : Value}
  {c : ChainBlock}

lemma bindReasons_eq_nil (hparse : parseBlockReadFile text = some file) :
    bindReasons H text file proof = [] ↔ Binds H text file proof := by
  simp only [bindReasons, List.append_eq_nil_iff, reasonUnless_eq_nil, beq_iff_eq]
  exact ⟨fun h => ⟨hparse, h.1, h.2⟩, fun h => ⟨h.digest, h.epoch⟩⟩

lemma chainReasons_eq_nil : chainReasons toLowerCase file c = [] ↔ Confirms toLowerCase file c := by
  simp only [chainReasons, List.append_eq_nil_iff, reasonUnless_eq_nil, beq_iff_eq]
  exact ⟨fun ⟨⟨⟨⟨h₁, h₂⟩, h₃⟩, h₄⟩, h₅⟩ => ⟨h₁, h₂, h₃, h₄, h₅⟩,
    fun h => ⟨⟨⟨⟨h.chainId, h.hash⟩, h.canonical⟩, h.number⟩, h.timestamp⟩⟩

lemma Binds.unique {f : BlockReadFile} (hf : Binds H text f proof) (h : Binds H text file proof) :
    f = file := Option.some.inj (hf.parse.symm.trans h.parse)

/-- Without an answer: the check has no objection exactly to a file the proof binds. -/
lemma checkBlockRead_offline :
    (checkBlockRead H toLowerCase text proof none).accepted = some file ↔ Binds H text file proof := by
  rw [checkBlockRead]
  cases hparse : parseBlockReadFile text with
  | none => exact iff_of_false (fun h => by cases h) fun h => by cases hparse.symm.trans h.parse
  | some f =>
      dsimp only
      rw [List.append_nil]
      cases hreasons : bindReasons H text f proof with
      | nil =>
          have hbinds := (bindReasons_eq_nil hparse).mp hreasons
          constructor
          · intro h
            cases h
            exact hbinds
          · intro h
            rw [← hbinds.unique h]
            rfl
      | cons reason reasons =>
          refine iff_of_false (fun h => by cases h) fun h => ?_
          rw [(bindReasons_eq_nil hparse).mpr (Option.some.inj (h.parse.symm.trans hparse) ▸ h)]
            at hreasons
          cases hreasons

/-- A check that accepts no file has a reason. -/
lemma checkBlockRead_rejected {chain : Option (Option ChainBlock)}
    (h : (checkBlockRead H toLowerCase text proof chain).accepted = none) :
    (checkBlockRead H toLowerCase text proof chain).reasons ≠ [] := by
  rw [checkBlockRead.eq_def] at h ⊢
  dsimp only at h ⊢
  split
  · exact List.cons_ne_nil _ _
  · next file hparse =>
    rw [hparse] at h
    dsimp only at h
    split
    · next reason reasons chain hreasons =>
      rw [hreasons]
      exact List.cons_ne_nil _ _
    · next hreasons =>
      rw [hreasons] at h
      cases h
    · next hchain hreasons =>
      rw [hreasons] at h
      split at h
      · next hcons => cases hcons
      all_goals cases h

/-- With an answer: a confirmed file is one the proof binds, and every field is the chain's. -/
lemma checkBlockRead_confirmed (hbinds : Binds H text file proof) :
    (checkBlockRead H toLowerCase text proof (some (some c))).status = .confirmed ↔
      Confirms toLowerCase file c := by
  rw [checkBlockRead, hbinds.parse]
  dsimp only
  rw [(bindReasons_eq_nil hbinds.parse).mpr hbinds, List.nil_append, ← chainReasons_eq_nil]
  cases hreasons : chainReasons toLowerCase file c with
  | nil => exact iff_of_true rfl rfl
  | cons reason reasons => exact iff_of_false (fun h => by cases h) fun h => by cases h

/-- The block of a confirmed file is the file's. -/
lemma checkBlockRead_block (hbinds : Binds H text file proof) (h : Confirms toLowerCase file c) :
    checkBlockRead H toLowerCase text proof (some (some c))
      = ⟨.confirmed, [], some file, some file.block⟩ := by
  rw [checkBlockRead, hbinds.parse]
  dsimp only
  rw [(bindReasons_eq_nil hbinds.parse).mpr hbinds, List.nil_append, chainReasons_eq_nil.mpr h]
  simp [BlockReadFile.block, h.number, h.timestamp]

end Facts

end BlockRead

end BitGraph
