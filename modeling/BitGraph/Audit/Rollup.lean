import BitGraph.Js.Quotient

/-!
`rollup-schedule.ts`: the time that a rollup stamps on its blocks, and the numbers of the blocks of a
channel by their times.

* **Schedule.** One block a step up to a block, several blocks a second from there on; `timeOfBlock`,
  `blocksAt` and `headAt` go from numbers to times and back.
* **Channels.** `numberSingularBatches` counts off the batches that share a second.

Numbers are whole, and each operation on them rounds to the nearest double.
-/

namespace BitGraph

open Js

namespace Rollup

/-! ### Arithmetic -/

def plus (a b : ℤ) : ℤ := roundInt (a + b)

def minus (a b : ℤ) : ℤ := roundInt (a - b)

def times (a b : ℤ) : ℤ := roundInt (a * b)

/-- `${n}`. -/
def numText (n : ℤ) : Str := (Number.ofRat n).toStr

/-! ### The schedule -/

/-- From `fromBlock` on, stamped `fromTime`, each whole second holds `blocksPerSecond` blocks. -/
structure SubSecond where
  fromBlock : ℕ
  fromTime : ℕ
  blocksPerSecond : ℕ

structure RollupSchedule where
  l2GenesisTime : ℕ
  /-- Seconds per block before `subSecond` starts. -/
  blockTime : ℕ
  subSecond : Option SubSecond

def baseMainnetRollup : RollupSchedule where
  l2GenesisTime := 1686789347
  blockTime := 2
  subSecond := some ⟨53556127, 1793901601, 5⟩

/-- `sub`, where a test holds of it. -/
def RollupSchedule.sharedIf (s : RollupSchedule) (ok : SubSecond → Bool) : Option SubSecond :=
  s.subSecond.filter ok

/-- The timestamp of a block. -/
def timeOfBlock (blockNumber : ℤ) (s : RollupSchedule) : ℤ :=
  match s.sharedIf fun sub => sub.fromBlock ≤ blockNumber with
  | some sub => plus sub.fromTime (floorOf (quotient (minus blockNumber sub.fromBlock) sub.blocksPerSecond))
  | none => plus s.l2GenesisTime (times blockNumber s.blockTime)

/-- The first block with a timestamp, and how many there are. -/
structure BlocksAt where
  first : ℤ
  count : ℤ

def blocksAt (timestamp : ℤ) (s : RollupSchedule) : Option BlocksAt :=
  match s.sharedIf fun sub => sub.fromTime ≤ timestamp with
  | some sub =>
      some ⟨plus sub.fromBlock (times (minus timestamp sub.fromTime) sub.blocksPerSecond), sub.blocksPerSecond⟩
  | none =>
      match (quotient (minus timestamp s.l2GenesisTime) s.blockTime).toInt? with
      | some n => if n < 0 then none else some ⟨n, 1⟩
      | none => none

/-- The newest block by the clock alone. -/
def headAt (timestamp : ℤ) (s : RollupSchedule) : ℤ :=
  match s.sharedIf fun sub => sub.fromTime ≤ timestamp with
  | some sub =>
      minus (plus sub.fromBlock (times (plus (minus timestamp sub.fromTime) 1) sub.blocksPerSecond)) 1
  | none => max 0 (floorOf (quotient (minus timestamp s.l2GenesisTime) s.blockTime))

/-! ### Channels -/

/-- A batch that is known by its hash: its place in the channel, and its block's number. -/
structure Pin where
  index : ℕ
  number : ℤ

/-- Where the batches of one second begin among its blocks; `i` is the place of the first of them. -/
def runOffset (blocks : BlocksAt) (t : ℤ) (pin : Option Pin) (i run : ℕ) (closes : Bool) : Except Thrown ℤ :=
  let opens := i == 0
  if (run : ℤ) < blocks.count then
    if !opens && !closes then
      .error (typeError (numText run ++ js " batches are stamped " ++ numText t
        ++ js " in the middle of a channel, which holds " ++ numText blocks.count ++ js " blocks"))
    else if opens && !closes then .ok (minus blocks.count run)
    else
      match pin.filter fun pin => opens && closes && i ≤ pin.index && pin.index < i + run with
      | some pin =>
          let offset := minus (minus pin.number pin.index) blocks.first
          if offset < 0 || blocks.count < plus offset run then
            .error (typeError (js "block " ++ numText pin.number ++ js " is not stamped " ++ numText t
              ++ js " on the rollup's schedule"))
          else .ok offset
      | none => .ok 0
  else .ok 0

/-- The numbers of the batches of one second. -/
def runNumbers (blocks : BlocksAt) (t : ℤ) (pin : Option Pin) (i run : ℕ) (closes : Bool) :
    Except Thrown (List ℤ) :=
  if blocks.count < run then
    .error (typeError (numText run ++ js " batches are stamped " ++ numText t ++ js ", which holds "
      ++ numText blocks.count ++ js " block" ++ (if blocks.count = 1 then [] else js "s")))
  else do
    let offset ← runOffset blocks t pin i run closes
    return (List.range run).map fun k : ℕ => plus (plus blocks.first offset) k

/-- The numbers of the batches from place `i` on, one second after the other. -/
def numberRuns (s : RollupSchedule) (pin : Option Pin) (i : ℕ) : List ℕ → Except Thrown (List ℤ)
  | [] => .ok []
  | t :: rest =>
      match blocksAt t s with
      | none => .error (typeError (js "batch timestamp " ++ numText t ++ js " is not on the rollup's schedule"))
      | some blocks => do
          let run := (rest.takeWhile (· == t)).length + 1
          let later := rest.dropWhile (· == t)
          let numbers ← runNumbers blocks t pin i run later.isEmpty
          let more ← numberRuns s pin (i + run) later
          return numbers ++ more
  termination_by l => l.length
  decreasing_by
    have hle := (rest.dropWhile_sublist (· == t)).length_le
    simp only [List.length_cons]
    omega

/-- A gap where seconds are shared is refused. -/
def checkConsecutive (s : RollupSchedule) : List ℕ → List ℤ → Except Thrown Unit
  | t :: t' :: timestamps, n :: n' :: numbers =>
      if (s.sharedIf fun sub => sub.fromTime ≤ t').isSome && n' != plus n 1 then
        .error (typeError (js "the batches stamped " ++ numText t ++ js " and " ++ numText t'
          ++ js " are not consecutive blocks"))
      else checkConsecutive s (t' :: timestamps) (n' :: numbers)
  | _, _ => .ok ()

/-- Block numbers for the singular batches of one channel. -/
def numberSingularBatches (timestamps : List ℕ) (s : RollupSchedule) (pin : Option Pin) :
    Except Thrown (List ℤ) := do
  let out ← numberRuns s pin 0 timestamps
  checkConsecutive s timestamps out
  return out

end Rollup

end BitGraph
