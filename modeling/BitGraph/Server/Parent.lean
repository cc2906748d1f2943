import BitGraph.Codec
import BitGraph.Lib.Events

/-!
The parent and the enclave: `src/parent/server.ts`, `src/parent/vsock-client.ts` and
`src/enclave/app.ts`.

* **The enclave.** `handleBind` makes a record at the next two counts, under the hash of the
  record before it. Requests run one at a time under a lock, so the execution of one is a step.
* **The wire.** `VsockClient` has one call in flight and keeps the others waiting. A call on the
  wire may be executed at any later time, also after the client has given it up.
* **The sections.** `bindExclusive` runs one section at a time: a commit with its drop floor, a
  bind of a timeline poller, an attempt at the epoch's opening floor, or the closing note.
* **The parent.** `Event` is what can happen: startup, requests, pollers, the stop, and the
  steps of the wire; `step` is one event and `machine` the runs.
-/

namespace BitGraph.Server

open Js

/-! ### The enclave -/

/-- A record the enclave made; `seal` is its signature and its attestation. -/
structure Proof where
  digestB64 : Str
  nonceB64 : Str
  slotCounter : ℕ
  counter : ℕ
  prevB64 : Option Str
  sealB64 : Str
  deriving DecidableEq

/-- The enclave's chain, and whether the host has called `init`. -/
structure Enclave where
  initialized : Bool
  counter : ℕ
  lastProofHashB64 : Option Str
  deriving DecidableEq

/-- A 32-byte digest in standard base64. -/
def isDigest (digestB64 : Str) : Bool :=
  (bufferFromBase64 digestB64).length == 32 &&
    bytesToBase64 (bufferFromBase64 digestB64) == digestB64

/-- What the enclave draws for a bind: the nonce, and the signature with its attestation. -/
structure Drawn where
  nonceB64 : Str
  sealB64 : Str
  deriving DecidableEq

/-- The record of a bind. -/
def Enclave.record (e : Enclave) (digestB64 : Str) (drawn : Drawn) : Proof where
  digestB64 := digestB64
  nonceB64 := drawn.nonceB64
  slotCounter := e.counter + 1
  counter := e.counter + 2
  prevB64 := e.lastProofHashB64
  sealB64 := drawn.sealB64

/-- What a bind is for. The enclave does not see it. -/
inductive Kind where
  | dropFloor
  | file
  | timeline
  | opening
  | closing
  deriving DecidableEq

/-- A call of the enclave. -/
inductive Call where
  | init
  | key
  | bind (kind : Kind) (digestB64 : Str)
  deriving DecidableEq

def Call.isBind : Call → Bool
  | .bind _ _ => true
  | _ => false

/-- An answer of the enclave. -/
inductive Answer where
  | init (counter : ℕ)
  | key
  | proof (p : Proof)
  | error
  deriving DecidableEq

/-- The record in an answer. -/
def Answer.proof? : Answer → Option Proof
  | .proof p => some p
  | _ => none

/-- `handleRequest`, under the enclave's lock. Nothing is drawn when the hardware fails. -/
def handleRequest (computeChainHash : Proof → Str) (e : Enclave) (drawn : Option Drawn) :
    Call → Answer × Enclave
  | .init => (.init e.counter, { e with initialized := true })
  | .key => (.key, e)
  | .bind _ digestB64 =>
    match drawn with
    | some drawn =>
      if e.initialized && isDigest digestB64 then
        let proof := e.record digestB64 drawn
        (.proof proof, { e with
          counter := proof.counter
          lastProofHashB64 := some (computeChainHash proof) })
      else (.error, e)
    | none => (.error, e)

/-! ### The parent -/

/-- What runs under `bindExclusive`. -/
inductive Section where
  /-- The next digest of request `r`; `floor` when a drop floor goes before it. -/
  | commit (r : ℕ) (digestB64 : Str) (floor : Bool)
  | timeline (digestB64 : Str)
  | opening (digestB64 : Str)
  | closing (digestB64 : Str)
  deriving DecidableEq

/-- The section's own bind. -/
def Section.call : Section → Call
  | .commit _ digestB64 _ => .bind .file digestB64
  | .timeline digestB64 => .bind .timeline digestB64
  | .opening digestB64 => .bind .opening digestB64
  | .closing digestB64 => .bind .closing digestB64

/-- Where the running section stands. -/
inductive Phase where
  /-- Before `latestBaseBlock`. -/
  | reading
  /-- The bind of the drop floor is awaited. -/
  | floorCall (digestB64 : Str)
  /-- Before its own bind, after the drop floor it got. -/
  | ready (floor : Option Proof)
  /-- Its own bind is awaited. -/
  | bindCall (floor : Option Proof)
  deriving DecidableEq

/-- Where a section starts. -/
def startPhase : List Section → Phase
  | .commit _ _ true :: _ => .reading
  | _ => .ready none

/-- A request past the guard: the digests it has still to bind, and whether it awaits one. -/
structure Pending where
  digests : List Str
  awaits : Bool
  deriving DecidableEq

/-- How far the parent is. -/
inductive Life where
  | off
  /-- `initEnclave` is awaited. -/
  | initializing
  /-- `initEnclave` failed. -/
  | unopened
  /-- `bindEpochFloor`, between two attempts. -/
  | starting
  /-- `bindEpochFloor`, in an attempt's section. -/
  | attempting
  | serving
  | exited
  deriving DecidableEq

/-- `openEpochId` is set. -/
def Life.opened : Life → Bool
  | .starting | .attempting | .serving => true
  | _ => false

/-- The parent, the wire and the enclave. `sent` holds the calls put on the wire in order, and
`done` the answers, with the place of their call in `sent`, in the order of execution. -/
structure System where
  enclave : Enclave
  sent : List Call
  done : List (ℕ × Answer)
  waiting : List Call
  inFlight : Option ℕ
  sections : List Section
  phase : Phase
  requests : List Pending
  life : Life
  stopping : Bool
  closing : Bool
  deriving DecidableEq

/-- What an observer sees: a record made, a request that got its floor and its file, and an
opening floor bound. -/
inductive Label where
  | bound (kind : Kind) (p : Proof)
  | paired (floor file : Proof)
  | opened (p : Proof)
  deriving DecidableEq

/-- The service's settings. -/
structure Config where
  timeline : Bool
  epochFloor : Bool

/-- What can happen. -/
inductive Event where
  /-- The callback of `server.listen`. -/
  | listen
  /-- A handler asks for the enclave's key. -/
  | key
  /-- A commit passes the guard of `handleCommit`. -/
  | accept (digests : List Str)
  /-- A request comes to `bindExclusive`. -/
  | enter (r : ℕ) (floor : Bool)
  /-- A poller of the timeline, or its genesis, comes to `bindExclusive`. -/
  | poll (digestB64 : Str)
  /-- An attempt of `bindEpochFloor` has its file. -/
  | attempt (digestB64 : Str)
  /-- `bindEpochFloor` gives up. -/
  | giveUp
  /-- The stop, with the closing note when there is a close request. -/
  | stop (note : Option Str)
  /-- The running section goes on, with the file of a block read. -/
  | run (block : Option Str)
  | transmit
  /-- The enclave executes a call that was sent. -/
  | execute (i : ℕ) (drawn : Option Drawn)
  /-- The answer of the call in flight arrives. -/
  | settle
  /-- The call in flight is given up. -/
  | fail
  | exit

namespace System

/-- `bindChain` takes a section. -/
def queue (s : System) (sec : Section) : System :=
  { s with
    sections := s.sections ++ [sec]
    phase := if s.sections = [] then startPhase [sec] else s.phase }

/-- `enclaveClient.send` of the running section. -/
def call (s : System) (c : Call) (phase : Phase) : System :=
  { s with waiting := s.waiting ++ [c], phase := phase }

/-- The running section is over. -/
def finish (s : System) : System :=
  { s with sections := s.sections.tail, phase := startPhase s.sections.tail }

/-- Request `r` goes on, or is over when its bind failed. -/
def resume (s : System) (r : ℕ) (result : Option Proof) : System :=
  { s with requests := s.requests.modify r fun q =>
      ⟨if result.isSome then q.digests else [], false⟩ }

end System

/-- What follows a section: the request goes on, or `bindEpochFloor` does. -/
def afterSection (s : System) (sec : Section) (floor result : Option Proof) :
    List Label × System :=
  match sec with
  | .commit r _ _ =>
    ((match floor, result with
      | some f, some p => [.paired f p]
      | _, _ => []), s.resume r result)
  | .opening _ =>
    match result with
    | some p => ([.opened p], { s with life := .serving })
    | none => ([], { s with life := .starting })
  | .timeline _ | .closing _ => ([], s)

/-- The running section's call is over: `some` of the answer's record, `none` of a refusal, or
nothing at all when the call was given up. -/
def settleBind (s : System) (answer : Option (Option Proof)) : Option (List Label × System) :=
  match s.sections, s.phase with
  | sec :: _, .floorCall _ =>
    match answer with
    | some floor => some ([], { s with phase := .ready floor })
    | none => some (afterSection s.finish sec none none)
  | sec :: _, .bindCall floor => some (afterSection s.finish sec floor answer.join)
  | _, _ => none

/-- What follows `initEnclave`. -/
def afterInit (cfg : Config) (counter : Option ℕ) : Life :=
  match counter with
  | none => .unopened
  | some n => if !cfg.timeline && n == 0 && cfg.epochFloor then .starting else .serving

/-- The count in the answer to `init`. -/
def initCounter : Option Answer → Option ℕ
  | some (.init n) => some n
  | _ => none

/-- What an observer sees of an execution. -/
def boundLabels : Call → Answer → List Label
  | .bind kind _, .proof p => [.bound kind p]
  | _, _ => []

/-- The call in flight is over, with its answer or without. -/
def settleCall (cfg : Config) (s : System) (c : Call) (answer : Option Answer) :
    Option (List Label × System) :=
  let s := { s with inFlight := none }
  match c with
  | .key => some ([], s)
  | .init =>
    if s.life = .initializing then
      some ([], { s with life := afterInit cfg (initCounter answer) })
    else some ([], s)
  | .bind _ _ => settleBind s (answer.map Answer.proof?)

/-- One event. -/
def step (cfg : Config) (computeChainHash : Proof → Str) (e : Event) (s : System) :
    Option (List Label × System) :=
  match e with
  | .listen =>
    if s.life = .off then
      some ([], { s with life := .initializing, waiting := s.waiting ++ [.key, .init] })
    else none
  | .key =>
    if s.life ≠ .off ∧ s.life ≠ .exited then
      some ([], { s with waiting := s.waiting ++ [.key] })
    else none
  | .accept digests =>
    if s.life = .initializing ∨ s.life = .unopened ∨ s.life = .serving then
      some ([], { s with requests := s.requests ++ [⟨digests, false⟩] })
    else none
  | .enter r floor =>
    match s.requests[r]? with
    | some ⟨d :: ds, false⟩ =>
      some ([], { s.queue (.commit r d floor) with requests := s.requests.set r ⟨ds, true⟩ })
    | _ => none
  | .poll d =>
    if cfg.timeline && s.life = .serving then some ([], s.queue (.timeline d)) else none
  | .attempt d =>
    if s.life = .starting then
      some ([], { s.queue (.opening d) with life := .attempting })
    else none
  | .giveUp => if s.life = .starting then some ([], { s with life := .serving }) else none
  | .stop note =>
    if s.stopping || s.life = .off || s.life = .exited then none
    else
      match note with
      | some d =>
        if s.life.opened then
          some ([], { s.queue (.closing d) with stopping := true, closing := true })
        else some ([], { s with stopping := true })
      | none => some ([], { s with stopping := true })
  | .run block =>
    match s.sections, s.phase with
    | _ :: _, .reading =>
      match block with
      | some d =>
        if s.life.opened then some ([], s.call (.bind .dropFloor d) (.floorCall d))
        else some ([], { s with phase := .ready none })
      | none => some ([], { s with phase := .ready none })
    | sec :: _, .ready floor => some ([], s.call sec.call (.bindCall floor))
    | _, _ => none
  | .transmit =>
    match s.inFlight, s.waiting with
    | none, c :: cs =>
      some ([], { s with
        sent := s.sent ++ [c]
        waiting := cs
        inFlight := some s.sent.length })
    | _, _ => none
  | .execute i drawn =>
    match s.sent[i]? with
    | none => none
    | some c =>
      if s.done.any (·.1 == i) then none
      else
        let (answer, enclave) := handleRequest computeChainHash s.enclave drawn c
        some (boundLabels c answer, { s with enclave := enclave, done := s.done ++ [(i, answer)] })
  | .settle =>
    match s.inFlight with
    | none => none
    | some i =>
      match s.sent[i]?, s.done.lookup i with
      | some c, some answer => settleCall cfg s c (some answer)
      | _, _ => none
  | .fail =>
    match s.inFlight with
    | none => none
    | some i =>
      match s.sent[i]? with
      | some c => settleCall cfg s c none
      | none => none
  | .exit =>
    if s.stopping then
      some ([], { s with
        waiting := []
        inFlight := none
        sections := []
        phase := .ready none
        requests := []
        life := .exited })
    else none

/-- A parent that has not started yet, over an enclave that may have served before. -/
def System.init (enclave : Enclave) : System where
  enclave := enclave
  sent := []
  done := []
  waiting := []
  inFlight := none
  sections := []
  phase := .ready none
  requests := []
  life := .off
  stopping := false
  closing := false

/-- An enclave that has bound nothing has no last record. -/
def Enclave.Sound (e : Enclave) : Prop := e.counter = 0 → e.lastProofHashB64 = none

/-- The runs of one parent, under a policy for the events. What the parent keeps in memory is in
the system, and its end is `exit`. -/
def machine (cfg : Config) (computeChainHash : Proof → Str) (ok : Event → System → Bool) :
    Machine System Unit Label :=
  .onEvents (fun s => ∃ enclave : Enclave, enclave.Sound ∧ s = .init enclave) (fun _ _ => True)
    (fun e s _ => (step cfg computeChainHash e s).map fun r => (r.1, r.2, ()))
    fun e s _ => ok e s = true

end BitGraph.Server
