import BitGraph.Recovery
import BitGraph.Lib.Events

/-!
`recovery-queue.ts`: the queue of a page that writes the recovery entries of a tree, over a storage
that all tabs of a browser share. One job is modelled, under the recording it belongs to.

* **Progress.** `recovery.ts` keeps one byte a member: `recoveryMemberStatus`, `recoverySideState`,
  and `mergeProgressBytes`, which never takes a bit away.
* **Storage.** `transact` is one transaction, of IndexedDB or of the store in memory.
* **Jobs.** `LiveJob` with `recount`, `adopt`, `setBits` and `takeProgress`, and the batches that
  `gather` plans.
* **Tabs.** A `Tab` holds the jobs it has made, and what its calls and its pump wait for. A
  transaction commits and its promise resolves at two different moments; `step` is executable.
-/

namespace BitGraph.RecoveryQueue

open Js Recovery

/-! ### Progress bytes -/

def ORIGIN_KEPT : UInt8 := 1
def ARTIFACT_KEPT : UInt8 := 2
def ORIGIN_BLOCKED : UInt8 := 4
def ARTIFACT_BLOCKED : UInt8 := 8

structure SideBits where
  kept : UInt8
  blocked : UInt8

def RECOVERY_SIDE_BITS : RecoverySide → SideBits
  | .origin => ⟨ORIGIN_KEPT, ORIGIN_BLOCKED⟩
  | .artifact => ⟨ARTIFACT_KEPT, ARTIFACT_BLOCKED⟩
  | .asIs => ⟨ORIGIN_KEPT ||| ARTIFACT_KEPT, ORIGIN_BLOCKED ||| ARTIFACT_BLOCKED⟩

inductive RecoveryMemberStatus where
  | pending
  | recoverable
  | blocked
  deriving DecidableEq

inductive RecoverySideState where
  | kept
  | pending
  | blocked
  deriving DecidableEq

def recoveryMemberStatus (b : UInt8) : RecoveryMemberStatus :=
  if b &&& (ORIGIN_KEPT ||| ARTIFACT_KEPT) = ORIGIN_KEPT ||| ARTIFACT_KEPT then .recoverable
  else if b &&& (ORIGIN_BLOCKED ||| ARTIFACT_BLOCKED) ≠ 0 then .blocked
  else .pending

def recoverySideState (b : UInt8) (side : RecoverySide) : RecoverySideState :=
  let s := RECOVERY_SIDE_BITS side
  if b &&& s.kept = s.kept then .kept
  else if b &&& s.blocked = s.blocked then .blocked
  else .pending

def recoverySideResolved (b : UInt8) (side : RecoverySide) : Bool :=
  recoverySideState b side ≠ .pending

/-- OR of two progress records; the longer length wins. -/
def mergeProgressBytes (stored : Option Bytes) (incoming : Bytes) : Bytes :=
  let a := stored.getD []
  (List.range (max a.length incoming.length)).map fun i => a.getD i 0 ||| incoming.getD i 0

/-! ### Storage -/

/-- `recoverySaltKey`. -/
abbrev SaltKey := ℕ × RecoverySide

/-- A table of salts, base64 by side of a member. -/
abbrev Salts := SaltKey → Option Str

/-- The stored salts win. -/
def mergeSaltTables (stored : Option Salts) (incoming : Salts) : Salts :=
  fun key => (stored.bind fun s => s key).or (incoming key)

/-- `RecoveryJobRecord`, without what names the recording. -/
structure Record where
  createdAt : ℕ
  keep : Bool
  count : ℕ
  leaves : Option Bytes
  salts : Option Salts
  done : Bool

/-- What is stored under the job's id. The version counts the writes to the record, and is not
stored. -/
structure Store where
  job : Option Record
  progress : Option Bytes
  version : ℕ

/-- The methods of `RecoveryQueueStore`. A record to save comes with the version of the stored
record its salts were read from, which the code does not keep. -/
inductive Op where
  | loadJobs
  | saveJob (r : Record) (seen : Option ℕ)
  | addJob (r : Record)
  | loadProgress
  | mergeProgress (progress : Bytes)
  | mergeSalts (salts : Salts)
  | deleteJob

/-- What a transaction answers; records and salts with the version they were read at. -/
inductive Answer where
  | record (r : Option Record) (seen : ℕ)
  | progress (p : Option Bytes)
  | salts (s : Salts) (seen : ℕ)
  | done
  | failed

/-- What an observer of the storage sees: a record or progress bytes stored, or the job deleted. -/
inductive Label where
  | record (r : Record)
  | progress (p : Bytes)
  | forgotten

/-- The record is stored. -/
def Store.put (s : Store) (r : Record) : Store :=
  { s with job := some r, version := s.version + 1 }

/-- One transaction. -/
def transact (s : Store) : Op → Answer × List Label × Store
  | .loadJobs => (.record s.job s.version, [], s)
  | .saveJob r _ => (.done, [.record r], s.put r)
  | .addJob r =>
      match s.job with
      | some existing => (.record (some existing) s.version, [], s)
      | none => (.record (some r) (s.version + 1), [.record r], s.put r)
  | .loadProgress => (.progress s.progress, [], s)
  | .mergeProgress progress =>
      let merged := mergeProgressBytes s.progress progress
      (.progress (some merged), [.progress merged], { s with progress := some merged })
  | .mergeSalts salts =>
      match s.job with
      | none => (.failed, [], s)
      | some job =>
          let merged := mergeSaltTables job.salts salts
          let job := { job with salts := some merged }
          (.salts merged (s.version + 1), [.record job], s.put job)
  | .deleteJob => (.done, [.forgotten], ⟨none, none, s.version + 1⟩)

/-! ### Jobs -/

/-- The recording of the job: the hash, the parts its tree is rebuilt from, with the list every
call brings, and the limit of a batch. -/
structure Env where
  H : HashFn
  parts : RecoveryTreeParts
  maxBatch : ℕ

/-- `recoveryTreeFromParts` takes the list. -/
def Env.rebuilds (env : Env) (leaves : Bytes) : Bool :=
  (recoveryTreeFromParts env.H { env.parts with leaves := leaves }).isOk

/-- The counters of a job. -/
structure Counts where
  recoverable : ℤ
  blocked : ℤ
  unresolved : ℤ
  deriving DecidableEq

/-- `LiveJob`. Of the tree only the list of its leaves is used. -/
structure LiveJob where
  record : Record
  progress : Bytes
  tree : Option Bytes
  broken : Bool
  cursor : ℕ
  dirty : Bool
  persisted : Bool
  counts : Counts

namespace LiveJob

/-- The sides a member needs. -/
def sidesOf (job : LiveJob) (index : ℕ) : List RecoverySide :=
  match job.tree.or job.record.leaves with
  | none => []
  | some leaves => recoverySidesOf leaves index

/-- The member has an entry to write, at a progress byte. -/
def isUnresolved (job : LiveJob) (index : ℕ) (b : UInt8) : Bool :=
  (job.sidesOf index).any fun side => !recoverySideResolved b side

/-- One round of the loop in `recount`. -/
def countMember (job : LiveJob) (c : Counts) (i : ℕ) : Counts :=
  let b := job.progress.getD i 0
  let working := job.record.keep && !job.record.done && job.record.leaves.isSome
  { recoverable := if recoveryMemberStatus b = .recoverable then c.recoverable + 1 else c.recoverable
    blocked := if recoveryMemberStatus b = .blocked then c.blocked + 1 else c.blocked
    unresolved := if working && job.isUnresolved i b then c.unresolved + 1 else c.unresolved }

/-- The counters that `recount` sets. -/
def recounted (job : LiveJob) : Counts :=
  (List.range job.record.count).foldl job.countMember ⟨0, 0, 0⟩

def recount (job : LiveJob) : LiveJob := { job with counts := job.recounted }

def adopt (record : Record) (saved : Option Bytes) (persisted : Bool) : LiveJob :=
  let bytes := (saved.getD []).take record.count
  let job : LiveJob :=
    { record := record
      progress := bytes ++ List.replicate (record.count - bytes.length) 0
      tree := none
      broken := false
      cursor := 0
      dirty := false
      persisted := persisted
      counts := ⟨0, 0, 0⟩ }
  job.recount

/-- A counter of the members with status `s`, when one goes from `s0` to `s1`. -/
def moveCount (s0 s1 s : RecoveryMemberStatus) (n : ℤ) : ℤ :=
  let n := if s0 ≠ s1 ∧ s0 = s then n - 1 else n
  if s0 ≠ s1 ∧ s1 = s then n + 1 else n

def setBits (job : LiveJob) (index : ℕ) (add : UInt8) : LiveJob :=
  let before := job.progress.getD index 0
  let after := before ||| add
  if after = before then job
  else
    let s0 := recoveryMemberStatus before
    let s1 := recoveryMemberStatus after
    { job with
      counts :=
        { recoverable := moveCount s0 s1 .recoverable job.counts.recoverable
          blocked := moveCount s0 s1 .blocked job.counts.blocked
          unresolved :=
            if job.isUnresolved index before && !job.isUnresolved index after then
              job.counts.unresolved - 1
            else job.counts.unresolved }
      progress := job.progress.set index after
      dirty := true }

/-- The progress another tab has stored is taken, in `persist`. -/
def takeProgress (job : LiveJob) (merged : Bytes) : LiveJob :=
  let progress := job.progress.mapIdx fun i b =>
    if i < job.record.count then merged.getD i 0 ||| b else b
  let taken := { job with progress := progress }
  { (if progress = job.progress then taken else taken.recount) with dirty := false }

/-- The list is rebuilt, or the job is set aside. -/
def treeOf (env : Env) (job : LiveJob) : LiveJob :=
  if job.tree.isSome then job
  else
    let leaves := job.record.leaves.getD []
    if env.rebuilds leaves then { job with tree := some leaves } else { job with broken := true }

/-- The job is one of `working()`. -/
def isWorking (job : LiveJob) : Bool :=
  job.record.keep && !job.record.done && !job.broken && 0 < job.counts.unresolved

/-- `run` closes the job before its first batch. -/
def isClosable (job : LiveJob) : Bool :=
  job.record.keep && !job.record.done && job.record.leaves.isSome && !job.broken
    && job.counts.unresolved = 0

/-- What `finish` leaves in memory once the progress is saved. -/
def markDone (job : LiveJob) : LiveJob :=
  { job with record := { job.record with done := true, leaves := none }, tree := none }

/-- `rec` with other salts. -/
def setSalts (job : LiveJob) (salts : Salts) : LiveJob :=
  { job with record := { job.record with salts := some salts } }

/-- A record of `refresh` for a job that is there. -/
def takeSalts (job : LiveJob) (r : Record) : LiveJob :=
  match r.salts with
  | none => job
  | some salts => job.setSalts (mergeSaltTables (some salts) (job.record.salts.getD fun _ => none))

end LiveJob

/-- The members of the next batch and the cursor behind them; `n` entries are planned, and
`remaining` members are left. -/
def gather (leaves progress : Bytes) (maxBatch : ℕ) :
    ℕ → ℕ → ℕ → List (ℕ × List RecoverySide) × ℕ
  | 0, cursor, _ => ([], cursor)
  | remaining + 1, cursor, n =>
      let sides := (recoverySidesOf leaves cursor).filter fun s =>
        !recoverySideResolved (progress.getD cursor 0) s
      if sides = [] then gather leaves progress maxBatch remaining (cursor + 1) n
      else if maxBatch < n + sides.length then ([], cursor)
      else
        let (members, last) := gather leaves progress maxBatch remaining (cursor + 1) (n + sides.length)
        ((cursor, sides) :: members, last)

/-- A planned write: the member, the side, and whether it goes under a salted name. -/
structure PlannedWrite where
  index : ℕ
  side : RecoverySide
  salted : Bool

/-- The writes of a batch, under the salts of the moment. -/
def plan (salts : Option Salts) (members : List (ℕ × List RecoverySide)) : List PlannedWrite :=
  members.flatMap fun m => m.2.map fun side =>
    ⟨m.1, side, ((salts.bind fun s => s (m.1, side))).isSome⟩

/-- The entries of one request, at most. -/
def MAX_BATCH_ENTRIES : ℕ := 500

/-! ### Tabs -/

/-- Where `persist` was called. -/
inductive After where
  /-- `afterBatch`. -/
  | loop
  /-- `persistDirty`, at the end of a pass. -/
  | pass
  | finish
  | stop

/-- The code behind a transaction; a job is named by when the tab made it. -/
inductive Cont where
  | load
  | loadProgress (r : Record)
  | refresh
  | refreshProgress (r : Record)
  /-- `addJob` in `enqueueTree`, with the job that was there and whether it is repaired. -/
  | enqueueAdd (existing : Option ℕ) (repair : Bool) (r : Record)
  /-- `saveJob` in `enqueueTree`, with `keep`. -/
  | enqueueSave (existing : Option ℕ) (keep : Bool) (r : Record)
  /-- Nothing follows: `forget`, or the page is gone. -/
  | ends
  /-- `mergeSalts` in `saltFor`. -/
  | salts (o : ℕ)
  | persist (o : ℕ) (after : After)
  /-- `mergeSalts` in `finish`. -/
  | finishSalts (o : ℕ)
  | finishSave (o : ℕ)

/-- What a call or the pump waits for. -/
inductive Wait where
  /-- A transaction that has not committed. -/
  | asked (op : Op) (k : Cont)
  /-- A promise that has not resolved. -/
  | answered (a : Answer) (k : Cont)
  /-- The head of the loop in `run`. -/
  | looping
  | sealing (o start : ℕ) (writes : List PlannedWrite)
  | posting (o start : ℕ) (writes : List PlannedWrite)
  /-- The loop of `apply`, at its first write. -/
  | applying (o : ℕ) (writes : List PlannedWrite) (toSalt : List SaltKey)
  /-- The loop of `saltFor`, at its first side. -/
  | choosing (o : ℕ) (sides : List SaltKey) (chosen : List (SaltKey × Str))

/-- A page: the jobs it has made, the one in its map, whether `run` is under way, and the waits. -/
structure Tab where
  loaded : Bool
  objects : List LiveJob
  current : Option ℕ
  running : Bool
  waits : List Wait

/-- A page whose `load` has asked for the saved jobs. -/
def Tab.opened : Tab := ⟨false, [], none, false, [.asked .loadJobs .load]⟩

/-- A transaction that the page before has asked for, and that may still commit. -/
def Wait.left : Wait → Option Wait
  | .asked op _ => some (.asked op .ends)
  | _ => none

/-- The page that comes after. -/
def Tab.reloaded (tab : Tab) : Tab :=
  { Tab.opened with waits := Tab.opened.waits ++ tab.waits.filterMap Wait.left }

namespace Tab

/-- The job in the map, with its name. -/
def currentJob (tab : Tab) : Option (ℕ × LiveJob) :=
  tab.current.bind fun o => tab.objects[o]?.map fun job => (o, job)

def modify (tab : Tab) (o : ℕ) (f : LiveJob → LiveJob) : Tab :=
  { tab with objects := tab.objects.modify o f }

/-- `adopt`, with the tree the call has. -/
def adopt (tab : Tab) (r : Record) (saved : Option Bytes) (persisted : Bool) (tree : Option Bytes) :
    Tab :=
  { tab with
    objects := tab.objects ++ [{ LiveJob.adopt r saved persisted with tree := tree }]
    current := some tab.objects.length }

/-- The end of `enqueueTree`. -/
def enqueued (env : Env) (tab : Tab) (existing : Option ℕ) (keep : Bool) (r : Record)
    (persisted : Bool) : Tab :=
  tab.adopt r ((existing.bind fun o => tab.objects[o]?).map (·.progress)) persisted
    (if keep && r.keep && r.leaves.isSome then some env.parts.leaves else none)

/-- The trees `localEntriesFor` looks into. -/
def lookInto (env : Env) (tab : Tab) : Tab :=
  match tab.currentJob with
  | some (o, job) =>
      if job.record.keep && !job.record.done && job.record.leaves.isSome then
        tab.modify o (LiveJob.treeOf env)
      else tab
  | none => tab

/-- `finish`. -/
def finish (tab : Tab) (o : ℕ) (job : LiveJob) : Tab × Option Wait :=
  (tab.modify o ({ · with dirty := true }),
    some (.asked (.mergeProgress job.progress) (.persist o .finish)))

/-- `afterBatch`; `save` says that `persistEveryMs` has passed. -/
def afterBatch (save : Bool) (tab : Tab) (o : ℕ) : Tab × Option Wait :=
  match tab.objects[o]? with
  | none => (tab, some .looping)
  | some job =>
      if job.counts.unresolved = 0 then tab.finish o job
      else if save && job.dirty then
        (tab, some (.asked (.mergeProgress job.progress) (.persist o .loop)))
      else (tab, some .looping)

/-- The end of a pass, once the progress is saved. -/
def afterPass (tab : Tab) : Tab × Option Wait :=
  match tab.currentJob with
  | some (o, job) =>
      if job.isWorking then (tab.modify o ({ · with cursor := 0 }), some .looping)
      else ({ tab with running := false }, none)
  | none => ({ tab with running := false }, none)

/-- No batch is left. -/
def passEnd (tab : Tab) : Tab × Option Wait :=
  match tab.currentJob with
  | some (o, job) =>
      if job.dirty then (tab, some (.asked (.mergeProgress job.progress) (.persist o .pass)))
      else tab.afterPass
  | none => tab.afterPass

/-- `nextBatch`. -/
def nextBatch (env : Env) (tab : Tab) : Tab × Option Wait :=
  match tab.currentJob with
  | none => tab.passEnd
  | some (o, job) =>
      if job.isWorking && job.cursor < job.record.count then
        let job' := job.treeOf env
        match job'.tree with
        | none => (tab.modify o fun _ => job').passEnd
        | some leaves =>
            let (members, cursor) := gather leaves job.progress env.maxBatch
              (job.record.count - job.cursor) job.cursor 0
            let tab := tab.modify o fun _ => { job' with cursor := cursor }
            if members = [] then tab.passEnd
            else (tab, some (.sealing o job.cursor (plan job.record.salts members)))
      else tab.passEnd

/-- The table of the salts a writer chose, the last one first. -/
def tableOf (chosen : List (SaltKey × Str)) : Salts := fun key => chosen.lookup key

/-- `saltFor` from the side it stands at; a side that has a salt is passed over. -/
def saltFor (save : Bool) (tab : Tab) (o : ℕ) (sides : List SaltKey)
    (chosen : List (SaltKey × Str)) : Tab × Option Wait :=
  match tab.objects[o]? with
  | none => (tab, some .looping)
  | some job =>
      match sides.dropWhile fun s => (job.record.salts.bind fun t => t s).isSome with
      | s :: sides => (tab, some (.choosing o (s :: sides) chosen))
      | [] =>
          if chosen = [] then tab.afterBatch save o
          else if job.persisted then (tab, some (.asked (.mergeSalts (tableOf chosen)) (.salts o)))
          else
            (tab.modify o fun job =>
              job.setSalts (mergeSaltTables job.record.salts (tableOf chosen))).afterBatch save o

/-- `apply` from the write it stands at. -/
def apply (env : Env) (save : Bool) (tab : Tab) (o : ℕ) (writes : List PlannedWrite)
    (toSalt : List SaltKey) : Tab × Option Wait :=
  match writes, toSalt with
  | _ :: _, _ => (tab, some (.applying o writes toSalt))
  | [], [] => tab.afterBatch save o
  | [], _ :: _ =>
      let tab := tab.modify o (LiveJob.treeOf env)
      match tab.objects[o]?.bind (·.tree) with
      | none => tab.afterBatch save o
      | some _ => tab.saltFor save o toSalt []

/-- `saveJob` at the end of `finish`. -/
def finishSave (tab : Tab) (o : ℕ) (seen : Option ℕ) : Tab × Option Wait :=
  match tab.objects[o]? with
  | none => (tab, some .looping)
  | some job => (tab, some (.asked (.saveJob job.record seen) (.finishSave o)))

/-- `finish` once the progress is saved, or could not be. -/
def afterFinishPersist (tab : Tab) (o : ℕ) : Tab × Option Wait :=
  let tab := tab.modify o LiveJob.markDone
  match tab.objects[o]? with
  | none => (tab, some .looping)
  | some job =>
      if job.persisted then
        (tab, some (.asked (.mergeSalts (job.record.salts.getD fun _ => none)) (.finishSalts o)))
      else tab.finishSave o none

/-- The end of `persist`. -/
def persisted (tab : Tab) (o : ℕ) : Answer → Tab
  | .progress (some merged) => tab.modify o (LiveJob.takeProgress · merged)
  | _ => tab

/-- The code behind `persist`. -/
def afterPersist (tab : Tab) (o : ℕ) : After → Tab × Option Wait
  | .loop => (tab, some .looping)
  | .pass => tab.afterPass
  | .finish => tab.afterFinishPersist o
  | .stop => (tab, none)

/-- The code behind a transaction, with its answer. -/
def resume (env : Env) (save : Bool) (tab : Tab) : Cont → Answer → Tab × Option Wait
  | .load, .record (some r) _ =>
      if tab.current.isSome then ({ tab with loaded := true }, none)
      else (tab, some (.asked .loadProgress (.loadProgress r)))
  | .load, _ => ({ tab with loaded := true }, none)
  | .loadProgress r, .progress saved => ({ tab.adopt r saved true none with loaded := true }, none)
  | .loadProgress r, _ => ({ tab.adopt r none true none with loaded := true }, none)
  | .refresh, .record (some r) _ =>
      match tab.current with
      | some o => ((tab.modify o (LiveJob.takeSalts · r)).lookInto env, none)
      | none => (tab, some (.asked .loadProgress (.refreshProgress r)))
  | .refresh, .record none _ => (tab.lookInto env, none)
  | .refresh, _ => (tab, none)
  | .refreshProgress r, .progress saved => ((tab.adopt r saved true none).lookInto env, none)
  | .refreshProgress r, _ => ((tab.adopt r none true none).lookInto env, none)
  | .enqueueAdd existing repair r, .record (some stored) seen =>
      if stored.createdAt ≠ r.createdAt || stored.salts.isSome then
        if repair || !stored.keep then
          let merged := { stored with keep := r.keep, leaves := r.leaves, done := r.done }
          (tab, some (.asked (.saveJob merged (some seen)) (.enqueueSave existing r.keep merged)))
        else (tab.enqueued env existing r.keep stored true, none)
      else (tab.enqueued env existing r.keep r true, none)
  | .enqueueAdd existing _ r, _ => (tab.enqueued env existing r.keep r false, none)
  | .enqueueSave existing keep r, .done => (tab.enqueued env existing keep r true, none)
  | .enqueueSave existing keep r, _ => (tab.enqueued env existing keep r false, none)
  | .ends, _ => (tab, none)
  | .salts o, .salts merged _ => (tab.modify o (LiveJob.setSalts · merged)).afterBatch save o
  | .salts o, _ => tab.afterBatch save o
  | .persist o after, a => (tab.persisted o a).afterPersist o after
  | .finishSalts o, .salts merged seen =>
      (tab.modify o (LiveJob.setSalts · merged)).finishSave o (some seen)
  | .finishSalts _, _ => (tab, some .looping)
  | .finishSave _, _ => (tab, some .looping)

end Tab

/-! ### Events -/

/-- The server's answer to one write, once `existingEntryHoldsMember` has read it. -/
inductive PostAnswer where
  /-- No result, a conflict, an error, or an entry that is not base64. -/
  | pending
  | created
  | mine
  | others

/-- What `findOwnRecoveryEntry` says. -/
inductive OwnEntry where
  | unreadable
  /-- No entry of the member; a new salt is drawn. -/
  | absent (newSalt : Str)
  | found (salt : Option Str)

/-- What can happen; `save` says whether `persistEveryMs` has passed. -/
inductive Event where
  | reload (t : ℕ)
  /-- The transaction of a wait goes through, or fails. -/
  | commit (t j : ℕ) (ok : Bool)
  | deliver (t j : ℕ) (save : Bool)
  | enqueueTree (t : ℕ) (keep : Bool) (count createdAt : ℕ)
  | forget (t : ℕ)
  | refresh (t : ℕ)
  | kick (t : ℕ)
  | persistDirty (t : ℕ)
  | loops (t j : ℕ)
  | sealed (t j : ℕ) (ok : Bool)
  | posted (t j : ℕ) (ok save : Bool)
  | answers (t j : ℕ) (a : PostAnswer) (save : Bool)
  | chooses (t j : ℕ) (own : OwnEntry) (save : Bool)

/-- The storage and the tabs. -/
structure System where
  store : Store
  tabs : ℕ → Tab

/-- The wait is over: the code behind it has run, and may wait again. -/
def Tab.continue (tab : Tab) (j : ℕ) (next : Tab × Option Wait) : Tab :=
  { next.1 with
    waits := match next.2 with
      | some w => tab.waits.set j w
      | none => tab.waits.eraseIdx j }

/-- A call, or the pump, begins to wait. -/
def Tab.begin (next : Tab × Option Wait) : Tab :=
  { next.1 with waits := next.1.waits ++ next.2.toList }

/-- A write is answered. -/
def answered (env : Env) (save : Bool) (tab : Tab) (o : ℕ) (w : PlannedWrite)
    (writes : List PlannedWrite) (toSalt : List SaltKey) : PostAnswer → Tab × Option Wait
  | .pending => tab.apply env save o writes toSalt
  | .created | .mine =>
      (tab.modify o (LiveJob.setBits · w.index (RECOVERY_SIDE_BITS w.side).kept)).apply env save o
        writes toSalt
  | .others =>
      if w.salted then
        (tab.modify o (LiveJob.setBits · w.index (RECOVERY_SIDE_BITS w.side).blocked)).apply env save
          o writes toSalt
      else tab.apply env save o writes (toSalt ++ [(w.index, w.side)])

/-- `findOwnRecoveryEntry` has read the address of a side. -/
def chose (save : Bool) (tab : Tab) (o : ℕ) (s : SaltKey) (sides : List SaltKey)
    (chosen : List (SaltKey × Str)) : OwnEntry → Tab × Option Wait
  | .unreadable => tab.saltFor save o sides chosen
  | .absent newSalt => tab.saltFor save o sides ((s, newSalt) :: chosen)
  | .found salt =>
      (tab.modify o (LiveJob.setBits · s.1 (RECOVERY_SIDE_BITS s.2).kept)).saltFor save o sides
        ((salt.map fun v => (s, v)).toList ++ chosen)

/-- What an event does to a tab, where it leaves the storage alone. -/
def tabStep (env : Env) (tab : Tab) : Event → Option Tab
  | .reload _ => some tab.reloaded
  | .commit _ _ _ => none
  | .deliver _ j save =>
      match tab.waits[j]? with
      | some (.answered a k) => some (tab.continue j (tab.resume env save k a))
      | _ => none
  | .enqueueTree _ keep count createdAt =>
      let existing := tab.currentJob.map (·.2)
      let repair := existing.any fun job => job.broken && job.record.keep && keep
      if !tab.loaded || (keep && !env.rebuilds env.parts.leaves) then none
      else if !repair && existing.any fun job => job.record.keep || !keep then none
      else
        let r : Record :=
          if keep then
            ⟨createdAt, true, env.parts.leaves.length / TREE_LEAF_BYTES, some env.parts.leaves, none,
              false⟩
          else ⟨createdAt, false, count, none, none, true⟩
        some (.begin (tab, some (.asked (.addJob r) (.enqueueAdd tab.current repair r))))
  | .forget _ => some (.begin ({ tab with current := none }, some (.asked .deleteJob .ends)))
  | .refresh _ =>
      if tab.loaded then some (.begin (tab, some (.asked .loadJobs .refresh))) else none
  | .kick _ =>
      if tab.running then none
      else
        let tab := { tab with running := true }
        match tab.currentJob with
        | some (o, job) =>
            if job.isClosable then some (.begin (tab.finish o job))
            else some (.begin (tab, some .looping))
        | none => some (.begin (tab, some .looping))
  | .persistDirty _ =>
      match tab.currentJob with
      | some (o, job) =>
          if job.dirty then
            some (.begin (tab, some (.asked (.mergeProgress job.progress) (.persist o .stop))))
          else none
      | none => none
  | .loops _ j =>
      match tab.waits[j]? with
      | some .looping => some (tab.continue j (tab.nextBatch env))
      | _ => none
  | .sealed _ j ok =>
      match tab.waits[j]? with
      | some (.sealing o start writes) =>
          some (tab.continue j (if ok then (tab, some (.posting o start writes))
            else (tab.modify o ({ · with cursor := start, broken := true }), some .looping)))
      | _ => none
  | .posted _ j ok save =>
      match tab.waits[j]? with
      | some (.posting o start writes) =>
          some (tab.continue j (if ok then tab.apply env save o writes []
            else (tab.modify o ({ · with cursor := start }), some .looping)))
      | _ => none
  | .answers _ j a save =>
      match tab.waits[j]? with
      | some (.applying o (w :: writes) toSalt) =>
          some (tab.continue j (answered env save tab o w writes toSalt a))
      | _ => none
  | .chooses _ j own save =>
      match tab.waits[j]? with
      | some (.choosing o (s :: sides) chosen) =>
          some (tab.continue j (chose save tab o s sides chosen own))
      | _ => none

/-- The tab of an event. -/
def Event.tab : Event → ℕ
  | .reload t | .commit t _ _ | .deliver t _ _ | .enqueueTree t _ _ _ | .forget t | .refresh t
  | .kick t | .persistDirty t | .loops t _ | .sealed t _ _ | .posted t _ _ _ | .answers t _ _ _
  | .chooses t _ _ _ => t

def System.setTab (sys : System) (t : ℕ) (tab : Tab) : System :=
  { sys with tabs := Function.update sys.tabs t tab }

/-- One event. -/
def step (env : Env) (e : Event) (sys : System) : Option (List Label × System) :=
  match e with
  | .commit t j ok =>
      match (sys.tabs t).waits[j]? with
      | some (.asked op k) =>
          let (a, ls, store) := if ok then transact sys.store op else (.failed, [], sys.store)
          some (ls, { store := store
                      tabs := (sys.setTab t { sys.tabs t with
                        waits := (sys.tabs t).waits.set j (.answered a k) }).tabs })
      | _ => none
  | e => (tabStep env (sys.tabs e.tab) e).map fun tab => ([], sys.setTab e.tab tab)

/-- An empty storage, and pages that have just been opened. -/
def System.init : System := ⟨⟨none, none, 0⟩, fun _ => .opened⟩

/-- All tabs over the storage, under a policy for the events. -/
def machine (env : Env) (ok : Event → System → Bool) : Machine System Unit Label :=
  .onEvents (· = .init) (fun _ _ => True)
    (fun e sys _ => (step env e sys).map fun r => (r.1, r.2, ())) fun e sys _ => ok e sys = true

end BitGraph.RecoveryQueue
