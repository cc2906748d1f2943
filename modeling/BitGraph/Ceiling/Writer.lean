import BitGraph.Ceiling
import BitGraph.Lib.Crash

/-!
`writer.ts`: the ceiling writer.

The writer is a `Machine`. A step runs the code between two disk writes, or between two calls
of the chain, so it makes at most one write; the phase of the process says where in `tick` it
stands. What the chain, the clock and the parent process answer is the `Answer` of the step.

* **State.** `Disk` is the queue file and the four files of the state directory, `Proc` the
  fields of the class. A file holds what JSON keeps of a value (`Value.jsonForm`).
* **Steps.** `ingest`, `startBatch`, `send`, `advance`, `pollStatus` and `reorged`, cut at their
  disk writes. `step` is executable; `writer` is the machine.
* **Inversion.** `step_move` says once what a step can do; the results on the writer derive
  from it.

An exception ends a tick and leaves the process as it is (`Answer.abort`); the process goes on
with the next tick. Disk writes do not fail.
-/

namespace BitGraph

open Js

namespace Ceiling

/-! ### Batches -/

/-- What the chain returns for a transaction it signs. -/
structure Signed where
  rawTx : Str
  txHash : Str
  maxFeePerGas : Str
  maxPriorityFeePerGas : Str
  deriving DecidableEq

/-- A transaction signed for a batch. -/
structure SentTx extends Signed where
  sentAt : Str
  sentHead : ℕ
  deriving DecidableEq

/-- The fees a transaction paid. -/
structure Fees where
  l2Wei : Str
  l1Wei : Str
  totalWei : Str
  gasUsed : Str
  deriving DecidableEq

/-- Where a transaction was mined. -/
structure Inclusion where
  blockNumber : ℕ
  blockHash : Str
  blockTimestamp : ℕ
  headerRlp : Str
  txIndex : ℕ
  txInclusionProof : List Str
  fees : Fees
  deriving DecidableEq

/-- The inclusion a batch records. -/
structure Included extends Inclusion where
  txHash : Str
  rawTx : Str
  observedAt : Str
  deriving DecidableEq

/-- The states of a batch. -/
inductive BatchState where
  | sending
  | pending
  | included
  | safe
  | finalized
  | dropped
  deriving DecidableEq

/-- When the states of a batch were seen. -/
structure StatusObserved where
  included : Option Str
  safe : Option Str
  finalized : Option Str
  deriving DecidableEq

/-- The epoch and the chain of a batch's records. -/
structure Group where
  epochId : Value
  chainId : Value
  deriving DecidableEq

/-- One ceiling transaction and its records. -/
structure Batch where
  id : Str
  group : Group
  items : List Value
  root : Str
  prev : Str
  payload : Str
  firstPos : Str
  lastPos : Str
  nonce : ℕ
  sends : List SentTx
  state : BatchState
  createdAt : Str
  inclusion : Option Included
  statusObserved : StatusObserved
  deriving DecidableEq

/-- Unsettled: a transaction is in flight. -/
def Batch.isActive (b : Batch) : Bool := b.state = .sending ∨ b.state = .pending

/-- A batch as its file keeps it. -/
def Batch.stored (b : Batch) : Batch :=
  { b with
    group := ⟨b.group.epochId.jsonForm, b.group.chainId.jsonForm⟩
    items := b.items.map Value.jsonForm }

/-- `batches.set(b.id, b)`, and the file of the batch. -/
def setBatch (b : Batch) (l : List Batch) : List Batch :=
  if l.any fun x => x.id = b.id then l.map fun x => if x.id = b.id then b else x else l ++ [b]

/-! ### Records -/

/-- The proof hash of a queue item. -/
def proofHash (i : Value) : Value := i.get (js "proofHash")

/-- Equality of map keys and of the operator `===`. Parsed arrays and objects are the same as
no other value. -/
def sameKey (v w : Value) : Bool :=
  match v, w with
  | .num (.fin d), .num (.fin e) => d.posZero == e.posZero
  | .arr _, _ => false
  | .obj _, _ => false
  | v, w => v == w

/-- Some item has this proof hash. -/
def holdsKey (l : List Value) (k : Value) : Bool := l.any fun i => sameKey (proofHash i) k

/-- The map from proof hashes to batches. -/
abbrev Anchored := List (Value × Str)

def Anchored.set (m : Anchored) (k : Value) (id : Str) : Anchored :=
  (m.filter fun e => !sameKey e.1 k) ++ [(k, id)]

def Anchored.delete (m : Anchored) (k : Value) : Anchored := m.filter fun e => !sameKey e.1 k

def Anchored.get? (m : Anchored) (k : Value) : Option Str :=
  (m.find? fun e => sameKey e.1 k).map Prod.snd

/-- All items of a batch set in the map. -/
def Anchored.setAll (m : Anchored) (b : Batch) : Anchored :=
  b.items.foldl (fun m i => m.set (proofHash i) b.id) m

/-- `groupKey`, `none` where the template literal throws. -/
def groupKey (i : Value) : Option Str := do
  let epochId ← (i.get (js "epochId")).toText
  let chainId ← (i.get (js "chainId")).toText
  return epochId ++ 0 :: chainId

/-! ### State -/

/-- The genesis value of the payload chain. -/
def zero32 : Str := js "0x" ++ List.replicate 64 48

/-- The queue file and the state directory. -/
structure Disk where
  queue : Bytes
  cursor : ℕ
  backlog : List Value
  lastPayloadHash : Str
  batches : List Batch

/-- No file yet: what `readJson` falls back to. -/
def Disk.empty : Disk := ⟨[], 0, [], zero32, []⟩

/-- Where in a tick the process stands: what comes next. -/
inductive Phase where
  /-- The next tick. -/
  | idle
  /-- `saveCursor`, the backlog being saved. -/
  | ingested (cursor : ℕ)
  /-- The batch in flight, or a new one. -/
  | ready
  /-- `saveBacklog` of `startBatch`, the batch being saved. -/
  | created (b : Batch) (payload : Bytes)
  /-- `saveChain`, batch and backlog being saved. -/
  | unqueued (b : Batch) (payload : Bytes)
  /-- `broadcast`. -/
  | sending (id : Str) (rawTx : Str)
  /-- `send` after the broadcast. -/
  | sent (id : Str)
  /-- `pollStatus`. -/
  | acted
  /-- The loop of `pollStatus` over the batches left. -/
  | polling (left : List Str) (safe fin : ℕ)
  /-- `saveBacklog` of `reorged`, the dropped batch being saved. -/
  | reorging (b : Batch) (left : List Str) (safe fin : ℕ)

/-- The fields of the process. -/
structure Proc where
  backlog : List Value
  cursor : ℕ
  lastPayloadHash : Str
  batches : List Batch
  anchored : Anchored
  phase : Phase

/-- `load`, the batch files read in the order of the directory. -/
def load (d : Disk) (batches : List Batch) : Proc where
  backlog := d.backlog
  cursor := d.cursor
  lastPayloadHash := d.lastPayloadHash
  batches := batches
  anchored := batches.foldl (fun m b => if b.state = .dropped then m else m.setAll b) []
  phase := .idle

def Proc.at (p : Proc) (q : Phase) : Proc := { p with phase := q }

def Proc.active (p : Proc) : Option Batch := p.batches.find? Batch.isActive

def Proc.batch? (p : Proc) (id : Str) : Option Batch := p.batches.find? fun b => b.id = id

/-- `saveBatch`, on disk and in memory. -/
def Disk.saveBatch (d : Disk) (b : Batch) : Disk :=
  { d with batches := setBatch b.stored d.batches }

def Proc.saveBatch (p : Proc) (b : Batch) : Proc := { p with batches := setBatch b p.batches }

/-- `saveBacklog`. -/
def Disk.saveBacklog (d : Disk) (backlog : List Value) : Disk :=
  { d with backlog := backlog.map Value.jsonForm }

/-! ### Parameters -/

/-- The hash function, the options, and what the writer calls of the language and the chain:
`Date.parse`, `toLowerCase`, and which transactions the chain may sign for a payload, a nonce
and a number of attempts before. -/
structure Config where
  H : HashFn
  rollRoot : Bool
  replaceAfterBlocks : ℕ
  dateParse : Str → Option ℤ
  toLowerCase : Str → Str
  signs : Bytes → ℕ → ℕ → Signed → Prop

/-- What the world answers in one step. -/
inductive Answer where
  /-- The parent appends to the queue file. -/
  | append (bytes : Bytes)
  /-- The next statements run. -/
  | proceed
  /-- An exception ends the tick. -/
  | abort
  /-- No batch is started, or no status is polled. -/
  | skip
  /-- A batch is due: the close requests, the mined openings, and what the chain gives. -/
  | start (asked mined : List (Str × ℤ)) (nonce : ℕ) (sign : Bytes → ℕ → ℕ → Signed) (head : ℕ)
      (now : Str)
  /-- The transaction `k` of the batch in flight is mined. -/
  | mined (k : ℕ) (inc : Inclusion) (now : Str)
  /-- No transaction of the batch in flight is mined. -/
  | unmined (head : ℕ) (sign : Bytes → ℕ → ℕ → Signed) (now : Str)
  /-- The heads of `pollStatus`. -/
  | poll (safe fin : ℕ)
  /-- The canonical block at a batch's height. -/
  | canonical (hash : Option Str) (now : Str)

/-- The queue file stays the text of whole characters, the last one possibly cut, and the chain
signs what it may sign. -/
def Answer.Admissible (cfg : Config) (d : Disk) : Answer → Prop
  | .append bytes => CutText (d.queue ++ bytes)
  | .start _ _ _ sign _ _ | .unmined _ sign _ =>
      ∀ data nonce bump, cfg.signs data nonce bump (sign data nonce bump)
  | _ => True

/-- What an observer sees: a batch file written for a new batch, or again, and a broadcast. -/
inductive Label where
  | create (b : Batch)
  | update (b : Batch)
  | broadcast (id rawTx : Str)
  deriving DecidableEq

/-! ### Ingest -/

/-- The loop of `ingest` over the lines: the backlog after it, and whether it ended without an
exception. -/
def ingestLines (anchored : Anchored) : List Value → List Str → List Value × Bool
  | backlog, [] => (backlog, true)
  | backlog, line :: lines =>
      if trim line = [] then ingestLines anchored backlog lines
      else match parse line with
        | none => ingestLines anchored backlog lines
        -- reading a property of `null` throws
        | some .null => (backlog, false)
        | some item =>
            if holdsKey backlog (proofHash item) then ingestLines anchored backlog lines
            else if (anchored.get? (proofHash item)).any (· ≠ []) then
              ingestLines anchored backlog lines
            else ingestLines anchored (backlog ++ [item]) lines

/-- `ingest` up to `saveBacklog`. -/
def ingest (d : Disk) (p : Proc) : Disk × Proc :=
  let complete := uptoLastNewline (bufferToString (d.queue.drop p.cursor))
  if d.queue.length ≤ p.cursor ∨ complete = [] then (d, p.at .ready)
  else
    match ingestLines p.anchored p.backlog (splitLines complete) with
    | (backlog, false) => (d, { p with backlog := backlog, phase := .idle })
    | (backlog, true) => (d.saveBacklog backlog,
        { p with
          backlog := backlog
          phase := .ingested (p.cursor + (utf8Encode complete).length) })

/-- `saveCursor`. -/
def saveCursor (cursor : ℕ) (d : Disk) (p : Proc) : Disk × Proc :=
  ({ d with cursor := cursor }, { p with cursor := cursor, phase := .ready })

/-! ### Starting a batch -/

/-- The map `newest` of `closedGroup`: the epoch and the newest time of every group, in the
order of the backlog. `none` where a conversion throws. -/
def newestTimes (cfg : Config) : List Value → List (Str × Value × ℤ) →
    Option (List (Str × Value × ℤ))
  | [], newest => some newest
  | i :: items, newest => do
      let committedAt ← (i.get (js "committedAt")).toText
      let ms := (cfg.dateParse committedAt).getD 0
      let k ← groupKey i
      if newest.any fun g => g.1 = k then
        newestTimes cfg items
          (newest.map fun g => if g.1 = k ∧ g.2.2 < ms then (g.1, g.2.1, ms) else g)
      else newestTimes cfg items (newest ++ [(k, i.get (js "epochId"), ms)])

/-- `closedGroup`: the group whose roll is over, if there is one. -/
def closedGroup (cfg : Config) (asked mined : List (Str × ℤ)) (backlog : List Value) :
    Option (Option Str) :=
  if asked = [] ∧ mined = [] then some none
  else (newestTimes cfg backlog []).map fun newest =>
    let closed := newest.find? fun g => asked.any fun r => .str r.1 = g.2.1 ∧ g.2.2 ≤ r.2
    let later := newest.find? fun g => mined.any fun m => .str m.1 ≠ g.2.1 ∧ g.2.2 < m.2
    (closed <|> later).map Prod.fst

/-- The group `tick` starts a batch for. -/
def dueGroup (cfg : Config) (asked mined : List (Str × ℤ)) (backlog : List Value) :
    Option (Option Str) :=
  if cfg.rollRoot then closedGroup cfg asked mined backlog
  else (backlog.head?.bind groupKey).map some

/-- The items with their positions, sorted by them. -/
def byPosition (items : List Value) : Option (List (ℤ × Value)) :=
  (items.mapM fun i => (bigInt? (i.get (js "position"))).map (·, i)).map
    (List.insertionSort fun a b => a.1 ≤ b.1)

/-- `now.replace(/[:.]/g, "-")` and the nonce. -/
def batchId (now : Str) (nonce : ℕ) : Str :=
  (now.map fun c => if c = 58 ∨ c = 46 then 45 else c) ++ 45 :: decimal nonce

/-- `startBatch` up to `saveBatch`: the batch and its payload, `none` where it throws. -/
def newBatch (cfg : Config) (p : Proc) (key : Str) (nonce : ℕ) (sign : Bytes → ℕ → ℕ → Signed)
    (head : ℕ) (now : Str) : Option (Batch × Bytes) := do
  if p.backlog.any fun i => (groupKey i).isNone then none
  let sorted ← byPosition (p.backlog.filter fun i => groupKey i = some key)
  let items := sorted.map Prod.snd
  let leaves ← (items.mapM fun i => ceilingLeaf cfg.H (proofHash i)).toOption
  let tree ← (MerkleTree.new cfg.H leaves []).toOption
  let first ← sorted.head?
  let last ← sorted.getLast?
  let prev ← (evmHexToBytes p.lastPayloadHash).toOption
  let payload ← (encodeCeilingPayload ⟨tree.root, prev, first.1, last.1⟩).toOption
  return ({
    id := batchId now nonce
    group := ⟨first.2.get (js "epochId"), first.2.get (js "chainId")⟩
    items := items
    root := evmBytesToHex tree.root
    prev := p.lastPayloadHash
    payload := evmBytesToHex payload
    firstPos := intText first.1
    lastPos := intText last.1
    nonce := nonce
    sends := [{ sign payload nonce 0 with sentAt := now, sentHead := head }]
    state := .sending
    createdAt := now
    inclusion := none
    statusObserved := ⟨none, none, none⟩ }, payload)

/-- `saveBacklog` of `startBatch`: the items leave the backlog. -/
def unqueue (b : Batch) (payload : Bytes) (d : Disk) (p : Proc) : Disk × Proc :=
  let backlog := p.backlog.filter fun i => !holdsKey b.items (proofHash i)
  (d.saveBacklog backlog, { p with backlog := backlog, phase := .unqueued b payload })

/-- `saveChain`: the payload becomes the head of the chain, and the batch is sent. -/
def saveChain (cfg : Config) (b : Batch) (payload : Bytes) (d : Disk) (p : Proc) : Disk × Proc :=
  let hash := evmBytesToHex (ceilingPayloadHash cfg.H payload)
  ({ d with lastPayloadHash := hash },
    { p with
      anchored := p.anchored.setAll b
      lastPayloadHash := hash
      phase := match b.sends.getLast? with
        | some s => .sending b.id s.rawTx
        | none => .idle })

/-! ### The batch in flight -/

/-- `included` up to `saveBatch`. -/
def Batch.mined (b : Batch) (s : SentTx) (inc : Inclusion) (now : Str) : Batch :=
  { b with
    inclusion := some { inc with txHash := s.txHash, rawTx := s.rawTx, observedAt := now }
    state := .included
    statusObserved := { b.statusObserved with included := some now } }

/-- The replacement of `advance`. -/
def Batch.replace (b : Batch) (s : SentTx) : Batch := { b with sends := b.sends ++ [s] }

/-- `advance` and `startBatch`, from `ready`. -/
def act (cfg : Config) (a : Answer) (d : Disk) (p : Proc) : Option (List Label × Disk × Proc) :=
  match p.active, a with
  | some b, .proceed =>
      if b.state = .sending then
        (b.sends.getLast?).map fun s => ([], d, p.at (.sending b.id s.rawTx))
      else none
  | some b, .mined k inc now =>
      if b.state = .pending then
        (b.sends[k]?).map fun s =>
          ([.update (b.mined s inc now)], d.saveBatch (b.mined s inc now),
            (p.saveBatch (b.mined s inc now)).at .acted)
      else none
  | some b, .unmined head sign now =>
      if b.state = .pending then do
        let last ← b.sends.getLast?
        if last.sentHead + cfg.replaceAfterBlocks ≤ head then
          let payload ← (evmHexToBytes b.payload).toOption
          let s : SentTx :=
            { sign payload b.nonce b.sends.length with sentAt := now, sentHead := head }
          return ([.update (b.replace s)], d.saveBatch (b.replace s),
            (p.saveBatch (b.replace s)).at (.sending b.id s.rawTx))
        else return ([], d, p.at .acted)
      else none
  | none, .skip => some ([], d, p.at .acted)
  | none, .start asked mined nonce sign head now =>
      if p.backlog = [] then none
      else match dueGroup cfg asked mined p.backlog with
        | none => some ([], d, p.at .idle)
        | some none => some ([], d, p.at .acted)
        | some (some key) =>
            match newBatch cfg p key nonce sign head now with
            | none => some ([], d, p.at .idle)
            | some (b, payload) =>
                some ([.create b], d.saveBatch b, (p.saveBatch b).at (.created b payload))
  | _, _ => none

/-- `send` after the broadcast. -/
def afterSend (id : Str) (d : Disk) (p : Proc) : List Label × Disk × Proc :=
  match p.batch? id with
  | some b =>
      if b.state = .sending then
        ([.update { b with state := .pending }], d.saveBatch { b with state := .pending },
          (p.saveBatch { b with state := .pending }).at .acted)
      else ([], d, p.at .acted)
  | none => ([], d, p.at .acted)

/-! ### Status -/

/-- The batches `pollStatus` walks. -/
def openBatches (p : Proc) : List Str :=
  (p.batches.filter fun b => b.state = .included ∨ b.state = .safe).map Batch.id

/-- `next` in the loop of `pollStatus`. -/
def Batch.nextState (b : Batch) (blockNumber safe fin : ℕ) : BatchState :=
  if blockNumber ≤ fin then .finalized else if blockNumber ≤ safe then .safe else b.state

/-- A batch that moves on to a next state, `safe` or `finalized`. -/
def Batch.observe (b : Batch) (next : BatchState) (now : Str) : Batch :=
  { b with
    state := next
    statusObserved := { b.statusObserved with
      safe := b.statusObserved.safe <|> some now
      finalized := if next = .finalized then some now else b.statusObserved.finalized } }

/-- One round of the loop of `pollStatus`, up to its disk write. -/
def pollOne (cfg : Config) (id : Str) (left : List Str) (safe fin : ℕ) (hash : Option Str)
    (now : Str) (d : Disk) (p : Proc) : List Label × Disk × Proc :=
  match p.batch? id with
  | none => ([], d, p.at (.polling left safe fin))
  | some b =>
      match b.inclusion with
      | none => ([], d, p.at .idle)
      | some inc =>
          if hash.any fun canon => cfg.toLowerCase canon ≠ cfg.toLowerCase inc.blockHash then
            if b.state = .included then
              let b := { b with state := .dropped }
              ([.update b], d.saveBatch b, (p.saveBatch b).at (.reorging b left safe fin))
            else ([], d, p.at (.polling left safe fin))
          else
            let next := b.nextState inc.blockNumber safe fin
            if next = b.state then ([], d, p.at (.polling left safe fin))
            else ([.update (b.observe next now)], d.saveBatch (b.observe next now),
              (p.saveBatch (b.observe next now)).at (.polling left safe fin))

/-- The rest of `reorged`: the items go back to the front of the queue. -/
def requeue (b : Batch) (left : List Str) (safe fin : ℕ) (d : Disk) (p : Proc) : Disk × Proc :=
  let backlog := b.items ++ p.backlog.filter fun x => !holdsKey b.items (proofHash x)
  (d.saveBacklog backlog,
    { p with
      anchored := b.items.foldl (fun m i => m.delete (proofHash i)) p.anchored
      backlog := backlog
      phase := .polling left safe fin })

/-! ### The machine -/

/-- Where an exception can end the tick. -/
def Phase.mayThrow : Phase → Bool
  | .ready | .sending _ _ | .sent _ | .acted | .polling _ _ _ | .reorging _ _ _ _ => true
  | _ => false

/-- One step under an answer, `none` when the answer is not one the code asks for here. -/
def step (cfg : Config) (a : Answer) (d : Disk) (p : Proc) : Option (List Label × Disk × Proc) :=
  match p.phase, a with
  | _, .append bytes => some ([], { d with queue := d.queue ++ bytes }, p)
  | q, .abort => if q.mayThrow then some ([], d, p.at .idle) else none
  | .idle, .proceed => some ([], ingest d p)
  | .ingested cursor, .proceed => some ([], saveCursor cursor d p)
  | .ready, a => act cfg a d p
  | .created b payload, .proceed => some ([], unqueue b payload d p)
  | .unqueued b payload, .proceed => some ([], saveChain cfg b payload d p)
  | .sending id rawTx, .proceed => some ([.broadcast id rawTx], d, p.at (.sent id))
  | .sent id, .proceed => some (afterSend id d p)
  | .acted, .skip => some ([], d, p.at .idle)
  | .acted, .poll safe fin => some ([], d, p.at (.polling (openBatches p) safe fin))
  | .polling [] _ _, .proceed => some ([], d, p.at .idle)
  | .polling (id :: left) safe fin, .canonical hash now =>
      some (pollOne cfg id left safe fin hash now d p)
  | .reorging b left safe fin, .proceed => some ([], requeue b left safe fin d p)
  | _, _ => none

/-- The writer and its state directory. A crash may come between any two steps. -/
def writer (cfg : Config) : Machine Disk Proc Label where
  fresh d := d = Disk.empty
  boot d p := ∃ batches, batches.Perm d.batches ∧ p = load d batches
  step d p ls d' p' := ∃ a, a.Admissible cfg d ∧ step cfg a d p = some (ls, d', p')
  dies _ _ := True

/-- The writer with the steps and the crashes of a policy only. -/
def supervised (cfg : Config) (okStep : Disk → Proc → List Label → Disk → Proc → Bool)
    (okDie : Proc → Bool) : Machine Disk Proc Label :=
  (writer cfg).restrict (fun d p ls d' p' => okStep d p ls d' p' = true) fun _ p => okDie p = true

/-- The policy that allows every step. -/
def anyStep (_ : Disk) (_ : Proc) (_ : List Label) (_ : Disk) (_ : Proc) : Bool := true

/-- The steps under a list of answers, if a policy allows them. -/
def run (cfg : Config) (okStep : Disk → Proc → List Label → Disk → Proc → Bool) :
    List Answer → Disk → Proc → Option (List Label × Disk × Proc)
  | [], d, p => some ([], d, p)
  | a :: as, d, p => do
      let (new, d', p') ← step cfg a d p
      if okStep d p new d' p' then
        let (rest, d'', p'') ← run cfg okStep as d' p'
        return (new ++ rest, d'', p'')
      else none

/-! ### What a step can do -/

/-- Between two operations: disk and memory agree, and nothing is about to be broadcast. -/
def Phase.quiet : Phase → Bool
  | .idle | .ready | .acted | .polling _ _ _ => true
  | _ => false

/-- No operation is half done on the disk. -/
def Phase.settled : Phase → Bool
  | .idle | .ready | .acted | .polling _ _ _ | .sending _ _ | .sent _ => true
  | _ => false

lemma settled_of_quiet {q : Phase} (hq : q.quiet = true) : q.settled = true := by
  cases q with
  | idle | ready | acted | polling => rfl
  | _ => cases hq

/-- The batches `pollStatus` has still to walk. -/
def Phase.left : Phase → List Str
  | .polling left _ _ => left
  | .reorging _ left _ _ => left
  | _ => []

def Batch.isOpen (b : Batch) : Bool := b.state = .included ∨ b.state = .safe

/-- How a batch file may be rewritten. -/
inductive Batch.Advances (cfg : Config) (b : Batch) : Batch → Prop
  | sent (h : b.state = .sending) : Advances cfg b { b with state := .pending }
  | replaced {s : SentTx} {payload : Bytes} (h : b.state = .pending)
      (hp : evmHexToBytes b.payload = .ok payload)
      (hs : cfg.signs payload b.nonce b.sends.length s.toSigned) : Advances cfg b (b.replace s)
  | mined {s : SentTx} (inc : Inclusion) (now : Str) (h : b.state = .pending) (hs : s ∈ b.sends) :
      Advances cfg b (b.mined s inc now)
  | observed {next : BatchState} (now : Str)
      (h : b.state = .included ∧ (next = .safe ∨ next = .finalized)
        ∨ b.state = .safe ∧ next = .finalized) : Advances cfg b (b.observe next now)
  | dropped (h : b.state = .included) : Advances cfg b { b with state := .dropped }

/-- Where the process goes after it has rewritten a batch file. -/
inductive Batch.Leads (b : Batch) : Phase → Prop
  | quiet {q : Phase} (h : b.state ≠ .dropped) (hq : q.quiet = true) : Leads b q
  | resend {s : SentTx} (h : b.state = .pending) (hs : s ∈ b.sends) : Leads b (.sending b.id s.rawTx)
  | requeue (left : List Str) (safe fin : ℕ) (h : b.state = .dropped) :
      Leads b (.reorging b left safe fin)

/-- What a step can do. -/
inductive Move (cfg : Config) (d : Disk) (p : Proc) : List Label → Disk → Proc → Prop
  | append {bytes : Bytes} (h : CutText (d.queue ++ bytes)) :
      Move cfg d p [] { d with queue := d.queue ++ bytes } p
  | pass {q : Phase} (h : p.phase.settled = true) (hq : q.quiet = true)
      (hl : q.left <:+ p.phase.left ∨ q.left = openBatches p) : Move cfg d p [] d (p.at q)
  | forget {b : Batch} {left : List Str} {safe fin : ℕ} (h : p.phase = .reorging b left safe fin) :
      Move cfg d p [] d (p.at .idle)
  | interrupt {backlog : List Value} (h : p.phase = .idle)
      (hl : ingestLines p.anchored p.backlog
        (splitLines (uptoLastNewline (bufferToString (d.queue.drop p.cursor)))) = (backlog, false)) :
      Move cfg d p [] d { p with backlog := backlog, phase := .idle }
  | ingest {backlog : List Value} (h : p.phase = .idle)
      (hl : ingestLines p.anchored p.backlog
        (splitLines (uptoLastNewline (bufferToString (d.queue.drop p.cursor)))) = (backlog, true)) :
      Move cfg d p [] (d.saveBacklog backlog)
        { p with
          backlog := backlog
          phase := .ingested (p.cursor
            + (utf8Encode (uptoLastNewline (bufferToString (d.queue.drop p.cursor)))).length) }
  | cursor {c : ℕ} (h : p.phase = .ingested c) :
      Move cfg d p [] (saveCursor c d p).1 (saveCursor c d p).2
  | create {b : Batch} {payload : Bytes} {key : Str} {nonce : ℕ} {sign : Bytes → ℕ → ℕ → Signed}
      {head : ℕ} {now : Str} (h : p.phase = .ready) (ha : p.active = none)
      (hb : newBatch cfg p key nonce sign head now = some (b, payload))
      (hs : ∀ data nonce bump, cfg.signs data nonce bump (sign data nonce bump)) :
      Move cfg d p [.create b] (d.saveBatch b) ((p.saveBatch b).at (.created b payload))
  | unqueue {b : Batch} {payload : Bytes} (h : p.phase = .created b payload) :
      Move cfg d p [] (unqueue b payload d p).1 (unqueue b payload d p).2
  | chain {b : Batch} {payload : Bytes} (h : p.phase = .unqueued b payload) :
      Move cfg d p [] (saveChain cfg b payload d p).1 (saveChain cfg b payload d p).2
  | resume {b : Batch} {s : SentTx} (h : p.phase = .ready) (ha : p.active = some b)
      (hb : b.state = .sending) (hs : s ∈ b.sends) :
      Move cfg d p [] d (p.at (.sending b.id s.rawTx))
  | broadcast {id rawTx : Str} (h : p.phase = .sending id rawTx) :
      Move cfg d p [.broadcast id rawTx] d (p.at (.sent id))
  | update {b b' : Batch} {q : Phase} (h : p.phase.settled = true) (hb : b ∈ p.batches)
      (hadv : b.Advances cfg b') (hq : b'.Leads q) (hl : q.left = [] ∨ p.phase.left = b.id :: q.left) :
      Move cfg d p [.update b'] (d.saveBatch b') ((p.saveBatch b').at q)
  | requeue {b : Batch} {left : List Str} {safe fin : ℕ}
      (h : p.phase = .reorging b left safe fin) :
      Move cfg d p [] (requeue b left safe fin d p).1 (requeue b left safe fin d p).2

/-- The batches `pollStatus` has still to walk are open. -/
def PollsOpen (p : Proc) : Prop :=
  ∀ id ∈ p.phase.left, ∀ b, p.batch? id = some b → b.isOpen = true

lemma mem_of_active {p : Proc} {b : Batch} (h : p.active = some b) : b ∈ p.batches :=
  List.mem_of_find?_eq_some h

lemma mem_of_batch? {p : Proc} {id : Str} {b : Batch} (h : p.batch? id = some b) :
    b ∈ p.batches ∧ b.id = id :=
  ⟨List.mem_of_find?_eq_some h, by simpa using List.find?_some h⟩

variable {cfg : Config} {d d' : Disk} {p p' : Proc} {ls : List Label}

lemma ingest_move (h : p.phase = .idle) : Move cfg d p [] (ingest d p).1 (ingest d p).2 := by
  rw [ingest]
  split
  · exact .pass (by rw [h]; rfl) rfl (Or.inl List.nil_suffix)
  · split
    · next hl => exact .interrupt h hl
    · next hl => exact .ingest h hl

/-- A batch is started, or nothing happens. -/
lemma start_move {asked mined : List (Str × ℤ)} {nonce : ℕ} {sign : Bytes → ℕ → ℕ → Signed}
    {head : ℕ} {now : Str} (h : p.phase = .ready) (hact : p.active = none)
    (hsign : ∀ data nonce bump, cfg.signs data nonce bump (sign data nonce bump))
    (hs : act cfg (.start asked mined nonce sign head now) d p = some (ls, d', p')) :
    Move cfg d p ls d' p' := by
  have hset : p.phase.settled = true := by rw [h]; rfl
  have idle : Move cfg d p [] d (p.at .idle) := .pass hset rfl (Or.inl List.nil_suffix)
  have acted : Move cfg d p [] d (p.at .acted) := .pass hset rfl (Or.inl List.nil_suffix)
  simp only [act, hact] at hs
  split at hs
  · cases hs
  · split at hs
    · cases hs
      exact idle
    · cases hs
      exact acted
    · split at hs
      · cases hs
        exact idle
      · next hb =>
          cases hs
          exact .create h hact hb hsign

lemma leads_replace {b : Batch} {s : SentTx} (h : b.state = .pending) :
    (b.replace s).Leads (.sending b.id s.rawTx) :=
  Batch.Leads.resend (b := b.replace s) h (List.mem_append_right _ (List.mem_singleton.mpr rfl))

lemma act_move {a : Answer} (h : p.phase = .ready) (ha : a.Admissible cfg d)
    (hs : act cfg a d p = some (ls, d', p')) : Move cfg d p ls d' p' := by
  have hset : p.phase.settled = true := by rw [h]; rfl
  have acted : Move cfg d p [] d (p.at .acted) := .pass hset rfl (Or.inl List.nil_suffix)
  cases hact : p.active with
  | none =>
      cases a with
      | skip =>
          simp only [act, hact, Option.some.injEq, Prod.mk.injEq] at hs
          obtain ⟨rfl, rfl, rfl⟩ := hs
          exact acted
      | start => exact start_move h hact ha hs
      | _ => simp [act, hact] at hs
  | some b =>
      have hmem := mem_of_active hact
      cases a with
      | proceed =>
          simp only [act, hact] at hs
          split at hs
          · next hstate =>
              obtain ⟨s, hlast, heq⟩ := Option.map_eq_some_iff.mp hs
              cases heq
              exact .resume h hact hstate (List.mem_of_getLast? hlast)
          · cases hs
      | mined k inc now =>
          simp only [act, hact] at hs
          split at hs
          · next hstate =>
              obtain ⟨s, hk, heq⟩ := Option.map_eq_some_iff.mp hs
              cases heq
              exact .update hset hmem (.mined inc now hstate (List.mem_of_getElem? hk))
                (.quiet (by simp [Batch.mined]) rfl) (Or.inl rfl)
          · cases hs
      | unmined head sign now =>
          simp only [act, hact] at hs
          split at hs
          · next hstate =>
              obtain ⟨last, -, hs⟩ := Option.bind_eq_some_iff.mp hs
              split at hs
              · obtain ⟨payload, hpayload, hs⟩ := Option.bind_eq_some_iff.mp hs
                cases hs
                exact .update hset hmem
                  (.replaced hstate (toOption_eq_some.mp hpayload) (ha payload b.nonce b.sends.length))
                  (leads_replace hstate) (Or.inl rfl)
              · cases hs
                exact acted
          · cases hs
      | _ => simp [act, hact] at hs

lemma afterSend_move {id : Str} (h : p.phase = .sent id)
    (hs : afterSend id d p = (ls, d', p')) : Move cfg d p ls d' p' := by
  have hset : p.phase.settled = true := by rw [h]; rfl
  have acted : Move cfg d p [] d (p.at .acted) := .pass hset rfl (Or.inl List.nil_suffix)
  rw [afterSend] at hs
  split at hs
  · next b hb =>
      split at hs
      · next hstate =>
          cases hs
          exact .update hset (mem_of_batch? hb).1 (.sent hstate) (.quiet (by simp) rfl) (Or.inl rfl)
      · cases hs
        exact acted
  · cases hs
    exact acted

/-- The next state of an open batch is one it may move on to. -/
lemma nextState_advances {b : Batch} {n safe fin : ℕ} (now : Str) (hb : b.isOpen = true)
    (hne : b.nextState n safe fin ≠ b.state) :
    b.Advances cfg (b.observe (b.nextState n safe fin) now)
      ∧ b.nextState n safe fin ≠ .dropped := by
  have hstate : b.nextState n safe fin = .finalized ∨ b.nextState n safe fin = .safe := by
    rw [Batch.nextState] at hne ⊢
    split_ifs at hne ⊢
    · exact Or.inl rfl
    · exact Or.inr rfl
    · exact absurd rfl hne
  simp only [Batch.isOpen, decide_eq_true_eq] at hb
  refine ⟨.observed now ?_, by rcases hstate with h | h <;> simp [h]⟩
  rcases hb with hb | hb
  · exact Or.inl ⟨hb, hstate.symm⟩
  · exact Or.inr ⟨hb, hstate.resolve_right fun hsafe => hne (hsafe.trans hb.symm)⟩

lemma pollOne_move {id : Str} {left : List Str} {safe fin : ℕ} {hash : Option Str} {now : Str}
    (h : p.phase = .polling (id :: left) safe fin) (hopen : PollsOpen p)
    (hs : pollOne cfg id left safe fin hash now d p = (ls, d', p')) : Move cfg d p ls d' p' := by
  have hset : p.phase.settled = true := by rw [h]; rfl
  have hleft : p.phase.left = id :: left := by rw [h]; rfl
  have pass : Move cfg d p [] d (p.at (.polling left safe fin)) :=
    .pass hset rfl (Or.inl (by rw [hleft]; exact List.suffix_cons id left))
  rw [pollOne] at hs
  split at hs
  · cases hs
    exact pass
  · next b hb =>
      obtain ⟨hmem, rfl⟩ := mem_of_batch? hb
      split at hs
      · cases hs
        exact .pass hset rfl (Or.inl List.nil_suffix)
      · split at hs
        · split at hs
          · next hstate =>
              cases hs
              exact .update hset hmem (.dropped hstate) (.requeue left safe fin rfl) (Or.inr hleft)
          · cases hs
            exact pass
        · dsimp only at hs
          split at hs
          · cases hs
            exact pass
          · next hne =>
              cases hs
              obtain ⟨hadv, hdropped⟩ := nextState_advances now
                (hopen b.id (by rw [hleft]; exact List.mem_cons_self) b hb) hne
              exact .update hset hmem hadv (.quiet hdropped rfl) (Or.inr hleft)

lemma step_append (bytes : Bytes) :
    step cfg (.append bytes) d p = some ([], { d with queue := d.queue ++ bytes }, p) := by
  unfold step
  cases p.phase <;> rfl

lemma step_abort : step cfg .abort d p = if p.phase.mayThrow then some ([], d, p.at .idle) else none := by
  unfold step
  cases p.phase <;> rfl

/-- An exception ends the tick between two operations, or leaves a reorged batch's items
where they are. -/
lemma abort_move (h : p.phase.mayThrow = true) : Move cfg d p [] d (p.at .idle) := by
  cases hp : p.phase with
  | reorging => exact .forget hp
  | ready | sending | sent | acted | polling =>
      exact .pass (by rw [hp]; rfl) rfl (Or.inl List.nil_suffix)
  | _ => simp [hp, Phase.mayThrow] at h

/-- The statements between two disk writes. -/
lemma proceed_move (hs : step cfg .proceed d p = some (ls, d', p')) : Move cfg d p ls d' p' := by
  cases hp : p.phase with
  | idle =>
      simp only [step, hp, Option.some.injEq, Prod.mk.injEq] at hs
      obtain ⟨rfl, hs⟩ := hs
      have hmove : Move cfg d p [] (ingest d p).1 (ingest d p).2 := ingest_move hp
      rwa [hs] at hmove
  | ingested c =>
      simp only [step, hp] at hs
      cases hs
      exact .cursor hp
  | ready =>
      simp only [step, hp] at hs
      exact act_move (a := .proceed) hp trivial hs
  | created b payload =>
      simp only [step, hp] at hs
      cases hs
      exact .unqueue hp
  | unqueued b payload =>
      simp only [step, hp] at hs
      cases hs
      exact .chain hp
  | sending id rawTx =>
      simp only [step, hp] at hs
      cases hs
      exact .broadcast hp
  | sent id =>
      simp only [step, hp, Option.some.injEq] at hs
      exact afterSend_move hp hs
  | acted => simp [step, hp] at hs
  | polling left safe fin =>
      cases left with
      | nil =>
          simp only [step, hp] at hs
          cases hs
          exact .pass (by rw [hp]; rfl) rfl (Or.inl List.nil_suffix)
      | cons id left => simp [step, hp] at hs
  | reorging b left safe fin =>
      simp only [step, hp] at hs
      cases hs
      exact .requeue hp

/-- **Inversion.** Every step is one of the moves. -/
theorem step_move {a : Answer} (hopen : PollsOpen p) (ha : a.Admissible cfg d)
    (hs : step cfg a d p = some (ls, d', p')) : Move cfg d p ls d' p' := by
  cases a with
  | append bytes =>
      rw [step_append] at hs
      cases hs
      exact .append ha
  | abort =>
      rw [step_abort] at hs
      split at hs
      · next h =>
          cases hs
          exact abort_move h
      · cases hs
  | proceed => exact proceed_move hs
  | skip =>
      cases hp : p.phase with
      | ready =>
          simp only [step, hp] at hs
          exact act_move (a := .skip) hp trivial hs
      | acted =>
          simp only [step, hp] at hs
          cases hs
          exact .pass (by rw [hp]; rfl) rfl (Or.inl List.nil_suffix)
      | _ => simp [step, hp] at hs
  | poll safe fin =>
      cases hp : p.phase with
      | ready =>
          simp only [step, hp] at hs
          exact act_move (a := .poll safe fin) hp trivial hs
      | acted =>
          simp only [step, hp] at hs
          cases hs
          exact .pass (by rw [hp]; rfl) rfl (Or.inr rfl)
      | _ => simp [step, hp] at hs
  | canonical hash now =>
      cases hp : p.phase with
      | ready =>
          simp only [step, hp] at hs
          exact act_move (a := .canonical hash now) hp trivial hs
      | polling left safe fin =>
          cases left with
          | nil => simp [step, hp] at hs
          | cons id left =>
              simp only [step, hp, Option.some.injEq] at hs
              exact pollOne_move hp hopen hs
      | _ => simp [step, hp] at hs
  | start | mined | unmined =>
      cases hp : p.phase with
      | ready =>
          simp only [step, hp] at hs
          exact act_move hp ha hs
      | _ => simp [step, hp] at hs

end Ceiling

end BitGraph
