import BitGraph.Timeline.EpochGenesis
import BitGraph.Js.Arith

/-!
`timeline-bundle.ts`: everything a file's place on the block timeline rests on, in one object.

* **The bundle.** `bundleShape` reads any value as a bundle; a `TimelineBundle` carries what was
  checked of it.
* **The proofs.** `attestProofs` verifies each proof and takes its hardware time; `reads` are the
  block reads whose files bind to their proofs.
* **The bracket.** `ask` asks the chain about one read. `floorLoop` keeps the highest block before
  the file, `ceilingLoop` the first that qualifies after it.
* **The verdict.** `verifyTimelineBundle` is verified when nothing failed and nothing was left
  open.

Hardware times are whole milliseconds, block times whole seconds. The lookups and the check of a
proof may answer anything; each call is told which one it is.
-/

namespace BitGraph

open Js

namespace TimelineBundle

open BlockRead EpochGenesis

def timelineBundleFormat : Str := js "bitgraph-timeline-bundle/1"

/-! ### The bundle -/

/-- An unbroken run of proofs, the place of the file's proof in it and the block files of its
reads. -/
structure TimelineBundle where
  proofs : List Value
  target : ℕ
  blockFile : ℕ → Option Str
  genesis : Option (Value × Str)
  target_pos : 0 < target
  target_lt : target < proofs.length
  blockFile_target : blockFile target = none
  blockFile_zero : (blockFile 0).isSome = true

/-- `v && typeof v === "object"`. -/
def isObject : Value → Bool
  | .obj _ | .arr _ => true
  | _ => false

/-- `/^(0|[1-9][0-9]*)$/`. -/
def isNumeral (k : Str) : Bool := k.all isDigit && decimal (readDecimal k) == k

/-- What is wrong with an entry of the block files. -/
def blockFileReason (length target : ℕ) (m : Str × Value) : Option Str :=
  if !isNumeral m.1 || length ≤ readDecimal m.1 || !isText (fun _ => true) m.2 then
    some (js "block file " ++ quote m.1 ++ js " names no proof of the bundle")
  else if readDecimal m.1 = target then some (js "the file's proof is not a block read")
  else none

/-- The text of the block file of a proof. -/
def blockFileAt (files : Fields) (i : ℕ) : Option Str :=
  match Fields.find? files (decimal i) with
  | some (.str text) => some text
  | _ => none

lemma isNumeral_decimal (n : ℕ) : isNumeral (decimal n) = true := by
  rw [isNumeral, Bool.and_eq_true, List.all_eq_true, beq_iff_eq, readDecimal_decimal]
  exact ⟨fun c hc => isDigit_of_mem_decimal hc, rfl⟩

lemma blockFileAt_target {length target : ℕ} {files : Fields}
    (h : files.findSome? (blockFileReason length target) = none) :
    blockFileAt files target = none := by
  rw [blockFileAt]
  split
  · next text hfind =>
    rw [Fields.find?, List.lookup_eq_some_iff] at hfind
    obtain ⟨before, after, rfl, -⟩ := hfind
    have hentry := List.findSome?_eq_none_iff.mp h (decimal target, .str text) (by simp)
    simp only [blockFileReason, readDecimal_decimal] at hentry
    split at hentry <;> simp at hentry
  · rfl

/-- The genesis entry, absent or a proof and its file. -/
def genesisEntry (g : Value) : Except Str (Option (Value × Str)) :=
  match g, g.get (js "file") with
  | .undefined, _ => .ok none
  | _, .str text =>
    if isObject (g.get (js "proof")) then .ok (some (g.get (js "proof"), text))
    else .error (js "the genesis entry holds a proof and its file")
  | _, _ => .error (js "the genesis entry holds a proof and its file")

/-- A bundle of these proofs, if its block files are those of its block reads. -/
def withFiles (proofs : List Value) (target : ℕ) (htarget : 0 < target ∧ target < proofs.length)
    (files : Fields) (genesis : Except Str (Option (Value × Str))) : Except Str TimelineBundle :=
  match hfiles : files.findSome? (blockFileReason proofs.length target) with
  | some reason => .error reason
  | none =>
    if hzero : (blockFileAt files 0).isSome then
      genesis.map fun g => ⟨proofs, target, blockFileAt files, g, htarget.1, htarget.2,
        blockFileAt_target hfiles, hzero⟩
    else .error (js "the first proof of a bundle is a block read, with its block file")

/-- The bundle, or why it is not one. -/
def bundleShape (v : Value) : Except Str TimelineBundle :=
  match v with
  | .obj _ =>
    if v.get (js "format") ≠ .str timelineBundleFormat then .error (js "not " ++ timelineBundleFormat)
    else
      match v.get (js "proofs") with
      | .arr proofs =>
        if proofs.length < 2 ∨ proofs.any (fun p => !isObject p) then
          .error (js "a bundle holds at least a block read and the file")
        else
          match count? (v.get (js "target")) with
          | some target =>
            if htarget : 0 < target ∧ target < proofs.length then
              match v.get (js "blockFiles") with
              | .obj files => withFiles proofs target htarget files (genesisEntry (v.get (js "genesis")))
              | _ => .error (js "a bundle carries the block files of its block reads")
            else .error (js "the file's proof must come after the first block read")
          | none => .error (js "the file's proof must come after the first block read")
      | _ => .error (js "a bundle holds at least a block read and the file")
  | _ => .error (js "a bundle is a JSON object")

lemma bundleShape_eq_withFiles {o : Fields} {proofs : List Value} {target : ℕ} {files : Fields}
    (hformat : (Value.obj o).get (js "format") = .str timelineBundleFormat)
    (hproofs : (Value.obj o).get (js "proofs") = .arr proofs)
    (hobjects : ¬ (proofs.length < 2 ∨ proofs.any (fun p => !isObject p) = true))
    {v : Value} (hv : (Value.obj o).get (js "target") = v) (hcount : count? v = some target)
    (htarget : 0 < target ∧ target < proofs.length)
    (hfiles : (Value.obj o).get (js "blockFiles") = .obj files) :
    bundleShape (.obj o)
      = withFiles proofs target htarget files (genesisEntry ((Value.obj o).get (js "genesis"))) := by
  rw [bundleShape, if_neg (not_not.mpr hformat), hproofs]
  dsimp only
  rw [if_neg hobjects, hv, hcount]
  dsimp only
  rw [dif_pos htarget, hfiles]

lemma withFiles_eq_map {proofs : List Value} {target : ℕ}
    {htarget : 0 < target ∧ target < proofs.length} {files : Fields}
    {genesis : Except Str (Option (Value × Str))}
    (hfiles : files.findSome? (blockFileReason proofs.length target) = none)
    (hzero : (blockFileAt files 0).isSome = true) :
    withFiles proofs target htarget files genesis = genesis.map fun g =>
      ⟨proofs, target, blockFileAt files, g, htarget.1, htarget.2, blockFileAt_target hfiles, hzero⟩ := by
  rw [withFiles]
  split
  · next reason hreason => rw [hfiles] at hreason; cases hreason
  · rw [dif_pos hzero]

/-! ### What the verifier is given -/

/-- A read is outside these when its lag is above `maxS` or below `minS`. -/
structure LagLimit where
  maxS : Number
  minS : Number

/-- `DEFAULT_LAG_LIMITS`. -/
def defaultLagLimits : BlockReadChain → LagLimit
  | .base => ⟨.ofNat 5, .ofRat (-2)⟩
  | .ethereum => ⟨.ofNat 60, .ofRat (-2)⟩

/-- What the check of one proof says of it. -/
structure AttestedResult where
  valid : Bool
  reason : Option Str
  attestedAtMs : Option ℤ

/-- The chains' answers; `block` is told which proof's block is asked for. An error is a lookup
that throws. -/
structure TimelineLookups where
  block : ℕ → BlockReadChain → Str → Str → Except Str (Option ChainBlock)
  genesisTx : Option (Str → Except Str (Option EpochGenesisTx))
  genesisBlock : Option (Str → Except Str (Option EpochGenesisBlock))

/-- `attested` is told which proof it checks, the genesis record's after the run's. -/
structure TimelineBundleOptions where
  bundle : Value
  fileBytes : Option Bytes
  lookups : Option TimelineLookups
  lagLimits : BlockReadChain → Option LagLimit
  attested : ℕ → Value → Option Bytes → Except Thrown AttestedResult

/-! ### What it finds -/

structure TimelineBound extends Block where
  index : ℕ
  counter : Str
  attestedAtMs : ℤ
  lagS : Number

inductive GenesisStatus where
  | confirmed
  | unconfirmed
  | missing
  deriving DecidableEq

inductive BundleStatus where
  | verified
  | unconfirmed
  | failed
  deriving DecidableEq

/-- What failed, what could not be settled, lags outside the limits and reads passed over. -/
structure Notes where
  reasons : List Str
  unconfirmed : List Str
  flags : List Str
  passedOver : List Str

structure TimelineFile where
  counter : Str
  digestB64 : Value
  attestedAtMs : Option ℤ

structure TimelineBundleResult where
  status : BundleStatus
  notes : Notes
  file : Option TimelineFile
  floor : Option TimelineBound
  ceiling : Option TimelineBound
  genesis : GenesisStatus
  preGenesis : Bool

namespace Notes

def empty : Notes := ⟨[], [], [], []⟩

def append (a b : Notes) : Notes :=
  ⟨a.reasons ++ b.reasons, a.unconfirmed ++ b.unconfirmed, a.flags ++ b.flags,
    a.passedOver ++ b.passedOver⟩

instance : Append Notes := ⟨append⟩

def failed (reasons : List Str) : Notes := ⟨reasons, [], [], []⟩

def open_ (why : Str) : Notes := ⟨[], [why], [], []⟩

def flag (why : Str) : Notes := ⟨[], [], [why], []⟩

def passed (why : Str) : Notes := ⟨[], [], [], [why]⟩

/-- Nothing failed and nothing was left open. -/
def Clear (n : Notes) : Prop := n.reasons = [] ∧ n.unconfirmed = []

instance (n : Notes) : Decidable n.Clear := inferInstanceAs (Decidable (_ ∧ _))

end Notes

/-! ### The proofs -/

section Verify

variable (H : HashFn) (toLowerCase : Str → Str) (opts : TimelineBundleOptions)

def TimelineBundle.proof (b : TimelineBundle) (i : ℕ) : Value := b.proofs.getD i .undefined

/-- The bytes a proof is checked against. -/
def proofBytes (b : TimelineBundle) (i : ℕ) : Option Bytes :=
  match b.blockFile i with
  | some text => some (utf8Encode text)
  | none => if i = b.target then opts.fileBytes else none

/-- The hardware time of a proof that verifies. -/
def AttestedResult.time (r : AttestedResult) : Option ℤ := if r.valid then r.attestedAtMs else none

/-- What is wrong with a proof, by its check. -/
def attestedReasons (b : TimelineBundle) (i : ℕ) (p : Value) (r : AttestedResult) :
    Except Thrown (List Str) := do
  let role := if i = b.target then js "the file's proof" else js "proof " ++ decimal i
  if !r.valid then
    let counter ← (orElse ((p.get (js "commit")).get (js "counter")) (.str (js "?"))).string
    return [role ++ js " (counter " ++ counter ++ js ") does not verify: " ++ r.reason.getD (js "invalid")]
  else return if r.attestedAtMs = none then [role ++ js " has no Nitro time"] else []

/-- Every proof from the `i`-th on: its hardware time, and what is wrong. -/
def attestProofs (b : TimelineBundle) :
    ℕ → List Value → Except Thrown (List (Option ℤ) × List Str)
  | _, [] => .ok ([], [])
  | i, p :: ps => do
    let r ← opts.attested i p (proofBytes opts b i)
    let reasons ← attestedReasons b i p r
    let (times, rest) ← attestProofs b (i + 1) ps
    return (r.time :: times, reasons ++ rest)

/-- The check of a block file against its proof. -/
def fileCheck (b : TimelineBundle) (i : ℕ) (text : Str) : BlockReadCheck :=
  checkBlockRead H toLowerCase text (b.proof i) none

def fileReasons (b : TimelineBundle) : List Str :=
  (List.range b.proofs.length).flatMap fun i =>
    match b.blockFile i with
    | none => []
    | some text =>
      if (fileCheck H toLowerCase b i text).accepted.isSome then []
      else (fileCheck H toLowerCase b i text).reasons.map fun x =>
        js "proof " ++ decimal i ++ js "'s block file: " ++ x

/-- The block read of a proof. -/
def reads (b : TimelineBundle) (i : ℕ) : Option BlockReadFile :=
  (b.blockFile i).bind fun text => (fileCheck H toLowerCase b i text).accepted

/-- The reads of a chain, in counter order. -/
def sameChain (b : TimelineBundle) (chain : BlockReadChain) : List (ℕ × BlockReadFile) :=
  (List.range b.proofs.length).filterMap fun i =>
    ((reads H toLowerCase b i).filter fun f => f.chain = chain).map fun f => (i, f)

/-! ### The bracket -/

inductive Asked where
  | bound (x : TimelineBound)
  | skip
  | stop

/-- Nitro time minus block time, in seconds. -/
def lagOf (attestedAtMs : ℤ) (timestamp : ℕ) : Number :=
  .ofRat (roundInt (attestedAtMs - roundNat (timestamp * 1000)) / 1000)

/-- A read the chain confirmed, as a bound. -/
def boundAt (b : TimelineBundle) (i : ℕ) (block : Block) (attestedAtMs : ℤ) :
    Except Thrown TimelineBound := do
  let counter ← (orElse (((b.proof i).get (js "commit")).get (js "counter")) (.str [])).string
  return { block with index := i, counter, attestedAtMs, lagS := lagOf attestedAtMs block.timestamp }

/-- Ask the chain about the read of a proof. -/
def ask (b : TimelineBundle) (times : List (Option ℤ)) (i : ℕ) (f : BlockReadFile) :
    Except Thrown (Asked × Notes) :=
  match opts.lookups with
  | none => return (.stop, .open_ (js "block " ++ f.hash ++ js " (proof " ++ decimal i ++ js ") was not looked up on " ++ f.chain.name))
  | some lookups =>
    match lookups.block i f.chain f.chainId f.hash with
    | .error e => return (.stop, .open_ (f.chain.name ++ js " could not be asked about block " ++ f.hash ++ js " (proof " ++ decimal i ++ js "): " ++ e))
    | .ok none => return (.skip, .passed (js "proof " ++ decimal i ++ js ": " ++ f.chain.name ++ js " does not know block " ++ f.hash))
    | .ok (some answer) =>
      if toLowerCase answer.hash ≠ f.hash then
        return (.skip, .passed (js "proof " ++ decimal i ++ js ": " ++ f.chain.name ++ js " does not know block " ++ f.hash))
      else if !answer.canonical then
        return (.skip, .passed (js "proof " ++ decimal i ++ js ": block " ++ f.hash ++ js " is not on " ++ f.chain.name ++ js "'s canonical chain"))
      else
        let r := checkBlockRead H toLowerCase ((b.blockFile i).getD []) (b.proof i) (some (some answer))
        match r.status, r.block with
        | .confirmed, some block =>
          match times.getD i none with
          | none => return (.stop, .empty)
          | some attestedAtMs => return (.bound (← boundAt b i block attestedAtMs), .empty)
        -- The chain knows the block and the file mislabels it: the host misreported a block.
        | _, _ => return (.stop, .failed (r.reasons.map fun x => js "proof " ++ decimal i ++ js ": " ++ x))

def lagLimit (chain : BlockReadChain) : LagLimit := (opts.lagLimits chain).getD (defaultLagLimits chain)

/-- Why a read's lag is outside the limits, if it is. -/
def outside (x : TimelineBound) : Option Str :=
  let lim := lagLimit opts x.chain
  if Number.lt lim.maxS x.lagS then
    some (x.chain.name ++ js " block " ++ decimal x.number ++ js " was read " ++ x.lagS.toFixed 1 ++ js " s after its timestamp (limit " ++ lim.maxS.toStr ++ js " s)")
  else if Number.lt x.lagS lim.minS then
    some (x.chain.name ++ js " block " ++ decimal x.number ++ js " was read " ++ x.lagS.neg.toFixed 1 ++ js " s before its timestamp (limit " ++ lim.minS.neg.toStr ++ js " s)")
  else none

/-- `(ms / 1000).toFixed(3)`. -/
def seconds (ms : ℤ) : Str := (Number.ofRat (ms / 1000)).toFixed 3

/-- The highest block before the file and at or before its time, from `best` on. -/
def floorLoop (b : TimelineBundle) (times : List (Option ℤ)) (fileMs : Option ℤ) :
    List (ℕ × BlockReadFile) → Option TimelineBound → Except Thrown (Option TimelineBound × Notes)
  | [], best => .ok (best, .empty)
  | (i, f) :: rest, best => do
    let (asked, notes) ← ask H toLowerCase opts b times i f
    match asked with
    | .stop => return (none, notes)
    | .skip =>
      let (floor, more) ← floorLoop b times fileMs rest best
      return (floor, notes ++ more)
    | .bound x =>
      match fileMs with
      | none => return (best, notes)
      | some ms =>
        if ms < x.timestamp * 1000 then
          let (floor, more) ← floorLoop b times fileMs rest best
          return (floor, notes ++ .passed (js "proof " ++ decimal i ++ js ": block " ++ decimal x.number ++ js "'s timestamp " ++ decimal x.timestamp ++ js " is after the file's Nitro time " ++ seconds ms ++ js ", so it is not a floor") ++ more)
        else
          let (floor, more) ← floorLoop b times fileMs rest
            (if best.all (fun y => y.number < x.number) then some x else best)
          return (floor, notes ++ more)

/-- `new Date(ms).toISOString()` returns. -/
def isDate (ms : ℤ) : Bool := ms.natAbs ≤ 8640000000000000

/-- Why a confirmed read is passed over as the ceiling, if it is. -/
def notCeiling (floor : TimelineBound) (ms : ℤ) (i : ℕ) (c : TimelineBound) : Option Notes :=
  if (c.timestamp : ℤ) * 1000 ≤ ms then
    some (.passed (js "proof " ++ decimal i ++ js ": block " ++ decimal c.number ++ js "'s timestamp " ++ decimal c.timestamp ++ js " is not after the file's Nitro time " ++ seconds ms ++ js ", so it is not a ceiling"))
  else if c.number ≤ floor.number then
    some (.passed (js "proof " ++ decimal i ++ js ": block " ++ decimal c.number ++ js " is not above the floor's " ++ decimal floor.number ++ js ", so it is not a ceiling"))
  else
    (outside opts c).map fun lag =>
      .flag (js "proof " ++ decimal i ++ js ", passed over as a ceiling: " ++ lag) ++
        .passed (js "proof " ++ decimal i ++ js ": its lag is outside the limits, so it is not a ceiling")

/-- The first read after the file that qualifies. -/
def ceilingLoop (b : TimelineBundle) (times : List (Option ℤ)) (fileMs : Option ℤ)
    (floor : TimelineBound) :
    List (ℕ × BlockReadFile) → Except Thrown (Option TimelineBound × Notes)
  | [] => .ok (none, .empty)
  | (i, f) :: rest => do
    let (asked, notes) ← ask H toLowerCase opts b times i f
    match asked with
    | .stop => return (none, notes)
    | .skip =>
      let (ceiling, more) ← ceilingLoop b times fileMs floor rest
      return (ceiling, notes ++ more)
    | .bound c =>
      match fileMs with
      | none => return (none, notes)
      | some ms =>
        match notCeiling opts floor ms i c with
        | some passed =>
          let (ceiling, more) ← ceilingLoop b times fileMs floor rest
          return (ceiling, notes ++ passed ++ more)
        | none =>
          if isDate ms && isDate (c.timestamp * 1000) then return (some c, notes)
          else throw ⟨.rangeError, js "Invalid time value"⟩

/-- A floor outside the lag limits is flagged and still used. -/
def floorFlags (x : TimelineBound) : Notes :=
  match outside opts x with
  | some lag => .flag (js "the floor: " ++ lag)
  | none => .empty

/-- The floor and the ceiling on a chain. -/
def bracket (b : TimelineBundle) (times : List (Option ℤ)) (chain : BlockReadChain) :
    Except Thrown (Option TimelineBound × Option TimelineBound × Notes) := do
  let fileMs := times.getD b.target none
  let candidates := sameChain H toLowerCase b chain
  let (floor, below) ← floorLoop H toLowerCase opts b times fileMs
    (candidates.filter fun c => c.1 < b.target) none
  match floor with
  | none =>
    return (none, none, if below.Clear then
      below ++ .open_ (js "no read before the file is a confirmed " ++ chain.name ++ js " block, so there is no floor") else below)
  | some x =>
    let (ceiling, above) ← ceilingLoop H toLowerCase opts b times fileMs x
      (candidates.filter fun c => b.target < c.1)
    let notes := below ++ floorFlags opts x ++ above
    return (some x, ceiling, if ceiling.isNone ∧ notes.Clear then
      notes ++ .open_ (js "no read after the file in this bundle qualifies as a " ++ chain.name ++ js " ceiling") else notes)

/-- The bracket, on the first read's chain, unless something failed already. -/
def bracketStage (b : TimelineBundle) (times : List (Option ℤ)) (failed : List Str) :
    Except Thrown (Option TimelineBound × Option TimelineBound × Notes) :=
  match reads H toLowerCase b 0, failed with
  | some first, [] => bracket H toLowerCase opts b times first.chain
  | _, _ => .ok (none, none, .empty)

/-- The hardware's clock must agree with the order. -/
def clockReasons (fileMs : Option ℤ) (floor ceiling : Option TimelineBound) : List Str :=
  match fileMs with
  | none => []
  | some ms =>
    reasonUnless (floor.all fun x => x.attestedAtMs ≤ ms) (js "the floor read's Nitro time is after the file's") ++
    reasonUnless (ceiling.all fun x => ms ≤ x.attestedAtMs) (js "the ceiling read's Nitro time is before the file's")

/-! ### The genesis record -/

/-- Whether the record is after the file, and what is wrong with it without the network. -/
def genesisOffline (b : TimelineBundle) (proof : Value) (text : Str) :
    Except Thrown (Option EpochGenesisFile × Bool × List Str) := do
  let target := b.proof b.target
  let r ← opts.attested b.proofs.length proof (some (utf8Encode text))
  let attested := reasonUnless r.valid (js "the genesis record does not verify: " ++ r.reason.getD (js "invalid"))
  let key := reasonUnless (Value.strictEq ((proof.get (js "signer")).get (js "publicKeyB64"))
    ((target.get (js "signer")).get (js "publicKeyB64"))) (js "the genesis record is signed by another key")
  let (preGenesis, order) := match payloadCount (proof.get (js "commit")), payloadCount (target.get (js "commit")) with
    | some gc, some tc => (decide (tc < gc), reasonUnless (gc != tc) (js "the genesis record is the file's own proof"))
    | _, _ => (true, [js "the genesis record's counter does not parse"])
  let offline ← checkEpochGenesis H toLowerCase text proof none none none true
  let shape := if offline.ok then [] else offline.reasons.map fun x => js "genesis: " ++ x
  let epoch := reasonUnless (offline.genesis.all fun g => (target.get (js "commit")).get (js "epochId") == .str g.epochId)
    (js "the genesis record is of another epoch")
  return (offline.genesis, preGenesis, attested ++ key ++ order ++ shape ++ epoch)

/-- Ask Base about the record. -/
def genesisOnline (proof : Value) (text : Str) (g : EpochGenesisFile) : GenesisStatus × Notes :=
  match opts.lookups.bind (·.genesisTx), opts.lookups.bind (·.genesisBlock) with
  | some genesisTx, some genesisBlock =>
    let answers := do return (← genesisTx g.txHash, ← genesisBlock g.blockHash)
    match answers with
    | .error e => (.unconfirmed, .open_ (js "genesis: Base could not be asked (" ++ e ++ js ")"))
    | .ok (tx, block) =>
      let unknown := reasonUnless tx.isSome (js "Base does not know the genesis transaction " ++ g.txHash) ++
        reasonUnless block.isSome (js "Base does not know the genesis block " ++ g.blockHash)
      match tx, block with
      | some t, some bk =>
        match checkEpochGenesis H toLowerCase text proof (some t) (some bk) none true with
        | .error e => (.unconfirmed, .open_ (js "genesis: Base could not be asked (" ++ e.message ++ js ")"))
        | .ok online =>
          if online.ok then (.confirmed, .empty)
          else (.unconfirmed, .failed (online.reasons.map fun x => js "genesis: " ++ x))
      | _, _ => (.unconfirmed, .failed unknown)
  | _, _ => (.unconfirmed, .open_ (js "genesis: the transaction was not looked up on Base"))

/-- This epoch's genesis record, under the same key and, when Base is asked, on Base. -/
def genesisStage (b : TimelineBundle) : Except Thrown (GenesisStatus × Bool × Notes) :=
  match b.genesis with
  | none => .ok (.missing, true, .open_ (js "the bundle does not carry its epoch's genesis record"))
  | some (proof, text) => do
    let (genesis, preGenesis, reasons) ← genesisOffline H toLowerCase opts b proof text
    match reasons, genesis with
    | [], some g =>
      let (status, notes) := genesisOnline H toLowerCase opts proof text g
      return (status, preGenesis, notes)
    | _, _ => return (.missing, preGenesis, .failed reasons)

/-! ### The verdict -/

def failedResult (why : Str) : TimelineBundleResult :=
  ⟨.failed, .failed [why], none, none, none, .missing, true⟩

/-- The stages of a bundle of the right shape. -/
def verifyBundle (b : TimelineBundle) : Except Thrown TimelineBundleResult := do
  let stretch ← verifyStretch H b.proofs
  let (times, attested) ← attestProofs opts b 0 b.proofs
  let failed := stretch.reasons ++ attested ++ fileReasons H toLowerCase b
  let (floor, ceiling, bracketed) ← bracketStage H toLowerCase opts b times failed
  let fileMs := times.getD b.target none
  let clock : Notes := .failed (clockReasons fileMs floor ceiling)
  let (genesis, preGenesis, genesisNotes) ← genesisStage H toLowerCase opts b
  let notes := .failed failed ++ bracketed ++ clock ++ genesisNotes
  let status : BundleStatus := if notes.reasons ≠ [] then .failed
    else if notes.unconfirmed ≠ [] then .unconfirmed else .verified
  let target := b.proof b.target
  let counter ← (orElse ((target.get (js "commit")).get (js "counter")) (.str [])).string
  return {
    status
    notes
    file := some ⟨counter, orElse ((target.get (js "artifact")).get (js "digestB64")) (.str []), fileMs⟩
    floor := if status = .failed then none else floor
    ceiling := if status = .failed then none else ceiling
    genesis
    preGenesis }

def verifyTimelineBundle : Except Thrown TimelineBundleResult :=
  match bundleShape opts.bundle with
  | .error why => .ok (failedResult why)
  | .ok b => verifyBundle H toLowerCase opts b

end Verify

end TimelineBundle

end BitGraph
