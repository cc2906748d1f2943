import BitGraph.Js.Convert

/-!
The parent's `POST /commit`, `src/parent/server.ts`: one request, served digest by digest.

What the enclave, the key cache, the Base headers and the block reads answer while the request is
served is an input (`Answers`), and any of it may be a rejected promise. What a request tells the
enclave is left out, since its answers are inputs.

* **The handler.** `readRequest`, `heldSlot` and `spend` are the checks in front of the loop,
  `commitOne` is what the loop does for one digest, `commitLoop` the loop, and `serve` the handler
  under the server's `catch`.
* **Attempts.** `attempts` are the digests' calls in order, up to the first that gives no proof.
* **Proofs made are returned.** `made_returned_iff`: every proof made in a request is kept and in
  the answer exactly when the first digest without a proof, if there is one, is the request's
  first or was refused by the enclave's own answer, and not for want of an anchor or of a slot.
  A call that times out at the second digest loses the first proof (`made_lost`).
-/

namespace BitGraph.Server

open Js

/-! ### What the handler is told -/

/-- An answer of the enclave, `data` as the type its caller reads. -/
structure EnclaveResponse (α : Type) where
  ok : Bool
  data : Option α
  error : Option Str

/-- The two fields of the enclave's key answer that say how it binds. -/
structure KeyInfo where
  bind : Option Str
  only : Option Str

/-- The service's settings, and whether its epoch is being opened or has been. -/
structure Settings where
  fuseEnabled : Bool
  atomicBindEnv : Option Str
  dropFloor : Bool
  baseFloor : Bool
  epochStarting : Bool
  openEpochId : Option Str

/-- A request: its body, and what its key, its content type and its rate limits come to. -/
structure Request where
  allowed : Bool
  exempt : Bool
  contentType : Option Str
  raw : Except Thrown Bytes
  /-- The refusal of `tryConsumeDigests` for a number of digests: reason and seconds to wait. -/
  limit : ℕ → Option (Str × ℕ)

/-- One call of `keepMade`. -/
structure Kept (P : Type) where
  proofs : List P
  ceiling : Bool
  blockFile : Option Str

/-- What is still to be answered, by kind, and what has been kept. A block read is absent when no
block was read, and else is the text of its file or what building it throws. -/
structure Answers (P : Type) where
  keys : List (Except Thrown KeyInfo)
  heads : List (Except Thrown Bool)
  slots : List (Except Thrown (EnclaveResponse Str))
  binds : List (Except Thrown (EnclaveResponse P))
  blocks : List (Option (Except Thrown Str))
  kept : List (Kept P)

/-- What an answer to `POST /commit` carries. -/
inductive Body (P : Type) where
  | error (error : Str) (code : Option Str)
  | madeSoFar (error : Str) (failedIndex : ℕ) (made : List P)
  | proofs (proofs : List P)

structure Response (P : Type) where
  status : ℕ
  retryAfter : Option Str
  body : Body P

def sendError {P : Type} (status : ℕ) (message : Str) : Response P :=
  ⟨status, none, .error message none⟩

/-- The proofs an answer carries. -/
def Response.made {P : Type} (r : Response P) : List P :=
  match r.body with
  | .error _ _ => []
  | .madeSoFar _ _ made => made
  | .proofs proofs => proofs

/-! ### The calls -/

section Calls

variable {P : Type}

/-- Code that awaits: it reads answers, keeps proofs and may throw. -/
abbrev Task (P : Type) := ExceptT Thrown (StateM (Answers P))

/-- `VsockClient` after thirty seconds. -/
def timedOut : Thrown := error (js "VsockClient: request timed out")

def getKeyInfo : Task P KeyInfo :=
  ExceptT.mk fun w => match w.keys with
    | [] => (.error timedOut, w)
    | a :: keys => (a, { w with keys := keys })

/-- `baseHead.forAllocation` and `ensureSaved`: whether there is a header. -/
def forAllocation : Task P Bool :=
  ExceptT.mk fun w => match w.heads with
    | [] => (.ok false, w)
    | a :: heads => (a, { w with heads := heads })

def sendAllocate : Task P (EnclaveResponse Str) :=
  ExceptT.mk fun w => match w.slots with
    | [] => (.error timedOut, w)
    | a :: slots => (a, { w with slots := slots })

/-- `enclaveClient.send` of a `bind` or a `commitDigest`. -/
def sendBind : Task P (EnclaveResponse P) :=
  ExceptT.mk fun w => match w.binds with
    | [] => (.error timedOut, w)
    | a :: binds => (a, { w with binds := binds })

def latestBaseBlock : Task P (Option (Except Thrown Str)) :=
  ExceptT.mk fun w => match w.blocks with
    | [] => (.ok none, w)
    | a :: blocks => (.ok a, { w with blocks := blocks })

def onlyBind : Task P Bool :=
  tryCatch (do return (← getKeyInfo).only == some (js "bind")) fun _ => return false

def atomicBind (s : Settings) : Task P Bool := do
  if s.atomicBindEnv = some (js "on") then return true
  if s.atomicBindEnv = some (js "off") then return false
  return (← getKeyInfo).bind == some (js "atomic")

/-- The test for `m` in an answer's error. -/
def EnclaveResponse.mentions {α : Type} (r : EnclaveResponse α) (m : String) : Bool :=
  decide (js m <:+: r.error.getD [])

/-- A call that carries a Base floor: once more with the previous header when the enclave says the
newest is ahead of its clock. -/
def withFloor {α : Type} (s : Settings) (send : Task P (EnclaveResponse α)) :
    Task P (EnclaveResponse α) := do
  if !s.baseFloor then return ← send
  let _ ← forAllocation
  let r ← send
  if r.ok || !r.mentions "ahead of the enclave clock" then return r
  if !(← forAllocation) then return r
  send

def allocateWithFloor (s : Settings) : Task P (EnclaveResponse Str) := withFloor s sendAllocate

def bindWithFloor (s : Settings) : Task P (EnclaveResponse P) := do
  if ← onlyBind then return ← sendBind
  withFloor s sendBind

/-! ### Keeping proofs -/

/-- The `proofHash` that `keepMade` puts on each proof, up to the first that has none. -/
def nameProofs (computeProofHash : P → Option P) : List P → List P
  | [] => []
  | p :: ps =>
    match computeProofHash p with
    | some q => q :: nameProofs computeProofHash ps
    | none => p :: ps

/-- The proofs as they are from then on: the objects themselves get their `proofHash`. -/
def keepMade (computeProofHash : P → Option P) (proofs : List P) (ceiling : Bool)
    (blockFile : Option Str) : StateM (Answers P) (List P) := fun w =>
  let named := nameProofs computeProofHash proofs
  (named, { w with kept := w.kept ++ [⟨named, ceiling, blockFile⟩] })

def bindDropFloor (s : Settings) (computeProofHash : P → Option P) : Task P Unit := do
  if s.openEpochId.isNone then return
  match ← latestBaseBlock with
  | none => return
  | some text =>
    let text ← liftExcept text
    let r ← sendBind
    match if r.ok then r.data else none with
    | none => return
    | some proof => let _ ← keepMade computeProofHash [proof] false (some text)
where
  liftExcept {α : Type} (x : Except Thrown α) : Task P α := ExceptT.mk (pure x)

/-! ### The loop -/

/-- What the calls for one digest came to. -/
inductive Attempt (P : Type) where
  | thrown (e : Thrown)
  | slotRefused (error : Option Str)
  | answered (r : EnclaveResponse P)

/-- The proof of an attempt that made one. -/
def Attempt.proof : Attempt P → Option P
  | .answered r => if r.ok then r.data else none
  | _ => none

/-- The calls for one digest: a bind with its floor, or a slot and a commit. -/
def ask (s : Settings) (computeProofHash : P → Option P) (held : Option Str) :
    Task P (Attempt P) := do
  match held with
  | some _ => return .answered (← sendBind)
  | none =>
    if ← atomicBind s then
      let only ← onlyBind
      if only && s.dropFloor then bindDropFloor s computeProofHash
      return .answered (← bindWithFloor s)
    let slot ← allocateWithFloor s
    if !slot.ok || slot.data.isNone then return .slotRefused slot.error
    return .answered (← sendBind)

def commitOne (s : Settings) (computeProofHash : P → Option P) (held : Option Str) :
    StateM (Answers P) (Attempt P) := do
  match ← (ask s computeProofHash held).run with
  | .ok a => return a
  | .error e => return .thrown e

/-- How a request ends: the proofs made in it, and its answer or what was thrown. -/
structure Ending (P : Type) where
  made : List P
  result : Except Thrown (Response P)

def slotUnavailable : Response P :=
  ⟨409, none, .error (js "The held slot is not available: it was already consumed, it expired, or the enclave restarted since allocation. Look the artifact digest up before allocating again.") (some (js "slot-unavailable"))⟩

/-- The loop over the digests, the `i`-th next, after the proofs already made. -/
def commitLoop (s : Settings) (computeProofHash : P → Option P) (held : Option Str) :
    List Str → ℕ → List P → StateM (Answers P) (Ending P)
  | [], _, proofs => do
    let named ← keepMade computeProofHash proofs true none
    return ⟨proofs, .ok ⟨200, none, .proofs named⟩⟩
  | _ :: digests, i, proofs => do
    match ← commitOne s computeProofHash held with
    | .thrown e => return ⟨proofs, .error e⟩
    | .slotRefused e => return ⟨proofs, .ok (sendError 500 (e.getD (js "slot allocation failed")))⟩
    | .answered r =>
      if !r.ok && r.mentions "no-anchor-floor" then
        return ⟨proofs, .ok { sendError 503 (r.error.getD (js "no anchor floor yet")) with
          retryAfter := some (js "15") }⟩
      match if r.ok then r.data else none with
      | none =>
        if held.isSome && r.mentions "Slot not found or expired" then
          return ⟨proofs, .ok slotUnavailable⟩
        if !proofs.isEmpty then
          let named ← keepMade computeProofHash proofs true none
          return ⟨proofs, .ok ⟨500, none, .madeSoFar (r.error.getD (js "commit failed")) i named⟩⟩
        return ⟨proofs, .ok (sendError 500 (r.error.getD (js "commit failed")))⟩
      | some proof => commitLoop s computeProofHash held digests (i + 1) (proofs ++ [proof])

/-! ### The request -/

/-- Why the handler stops before its loop: an answer, or an error for the server's `catch`. -/
inductive Stop (P : Type) where
  | answer (r : Response P)
  | thrown (e : Thrown)

/-- The body's `digests` and `slotId`, once they are checked. -/
structure Asked where
  digests : List Str
  slotId : Value

/-- A digest of the body. -/
def readDigest (d : Value) : Except (Stop P) Str := do
  let digestB64 ← (d.prop (js "digestB64")).mapError .thrown
  let bad := .error (.answer (sendError 400 (js "each digest must have \x7b digestB64: string, hashAlg: 'sha256' \x7d")))
  match digestB64 with
  | .str t =>
    let hashAlg ← (d.prop (js "hashAlg")).mapError .thrown
    if hashAlg == .str (js "sha256") then return t else bad
  | _ => bad

/-- The checks up to the digests. -/
def readRequest (s : Settings) (req : Request) : Except (Stop P) Asked := do
  if s.epochStarting then
    .error (.answer ⟨503, some (js "5"), .error (js "The epoch is starting: its first BitGraph, a Base block read, is being made. Try again in a few seconds.") (some (js "tee-restarting"))⟩)
  if !req.allowed then
    .error (.answer (sendError 401 (js "Unauthorized: valid API key required (Authorization: Bearer <key>)")))
  if ¬ js "application/json" <:+: req.contentType.getD [] then
    .error (.answer (sendError 400 (js "POST /commit requires Content-Type: application/json")))
  let raw ← req.raw.mapError .thrown
  if raw.length > 1024 * 1024 then
    .error (.answer (sendError 413 (js "Request body too large. Max 1 MB.")))
  match parse (bufferToString raw) with
  | none => .error (.answer (sendError 400 (js "Invalid JSON body")))
  | some body =>
    match ← (body.prop (js "digests")).mapError .thrown with
    | .arr (d :: ds) =>
      let digests ← (d :: ds).mapM readDigest
      return ⟨digests, body.get (js "slotId")⟩
    | _ => .error (.answer (sendError 400 (js "body.digests must be a non-empty array")))

/-- `SLOT_ID_PATTERN`: 43 base64 characters and one `=`. -/
def isSlotId (t : Str) : Bool :=
  t.length == 44 && t.getLast? == some 61 && t.dropLast.all fun c =>
    (65 ≤ c && c ≤ 90) || (97 ≤ c && c ≤ 122) || (48 ≤ c && c ≤ 57) || c == 43 || c == 47

/-- A request that may spend: its digests, and the slot it holds, which commits one digest. -/
structure Admitted where
  digests : List Str
  held : Option Str
  single : held.isSome → digests.length = 1

/-- The check of a slot the caller holds. -/
def heldSlot (s : Settings) (a : Asked) : StateM (Answers P) (Except (Stop P) Admitted) := do
  match a.slotId with
  | .undefined => return .ok ⟨a.digests, none, nofun⟩
  | slotId =>
    match ← (onlyBind (P := P)).run with
    | .error e => return .error (.thrown e)
    | .ok true => return .error (.answer ⟨410, none, .error (js "Held slots are gone: a BitGraph is made one way, one atomic action in the enclave. Send the digest without a slotId.") (some (js "bind-only"))⟩)
    | .ok false =>
      if !s.fuseEnabled then
        return .error (.answer (sendError 400 (js "client-held slots are not enabled on this service (FUSE_ENABLED)")))
      match slotId with
      | .str t =>
        if !isSlotId t then return .error (.answer (sendError 400 slotIdText))
        if h : a.digests.length = 1 then return .ok ⟨a.digests, some t, fun _ => h⟩
        return .error (.answer (sendError 400 (js "a client-held slot commits exactly one digest per request")))
      | _ => return .error (.answer (sendError 400 slotIdText))
where
  slotIdText : Str := js "body.slotId must be the slotId returned by POST /allocate-slot (a 44-character base64 nonce)"

/-- The rate limit, in digests. -/
def spend (req : Request) (a : Admitted) : Except (Stop P) Unit :=
  if req.exempt then .ok () else
    match req.limit a.digests.length with
    | none => .ok ()
    | some (reason, wait) =>
      .error (.answer ⟨429, if 0 < wait then some (decimal wait) else none,
        .error (js "Rate limit exceeded: " ++ reason) none⟩)

/-- The checks in front of the loop. -/
def checkRequest (s : Settings) (req : Request) : StateM (Answers P) (Except (Stop P) Admitted) := do
  match readRequest s req with
  | .error e => return .error e
  | .ok asked =>
    match ← heldSlot s asked with
    | .error e => return .error e
    | .ok a => return (spend req a).map fun _ => a

def handleCommit (s : Settings) (computeProofHash : P → Option P) (req : Request) :
    StateM (Answers P) (Ending P) := do
  match ← checkRequest s req with
  | .error (.answer r) => return ⟨[], .ok r⟩
  | .error (.thrown e) => return ⟨[], .error e⟩
  | .ok a => commitLoop s computeProofHash a.held a.digests 0 []

/-- A request served: the proofs made in it, its answer, and what was kept. -/
structure Served (P : Type) where
  made : List P
  response : Response P
  kept : List (Kept P)

/-- The server's `catch`. -/
def caught : Except Thrown (Response P) → Response P
  | .ok r => r
  | .error _ => sendError 500 (js "internal server error")

/-- The handler under the server's `catch`. -/
def serve (s : Settings) (computeProofHash : P → Option P) (req : Request) (w : Answers P) :
    Served P :=
  let r := handleCommit s computeProofHash req { w with kept := [] }
  ⟨r.1.made, caught r.1.result, r.2.kept⟩

/-! ### Attempts -/

/-- The attempts at the digests, up to the first that gives no proof. -/
def attemptsFrom (s : Settings) (computeProofHash : P → Option P) (held : Option Str) :
    List Str → StateM (Answers P) (List (Attempt P))
  | [] => return []
  | _ :: digests => do
    let a ← commitOne s computeProofHash held
    if a.proof.isNone then return [a]
    return a :: (← attemptsFrom s computeProofHash held digests)

/-- The attempts a request comes to. -/
def attempts (s : Settings) (computeProofHash : P → Option P) (req : Request) (w : Answers P) :
    List (Attempt P) :=
  match checkRequest s req { w with kept := [] } with
  | (.error _, _) => []
  | (.ok a, w) => (attemptsFrom s computeProofHash a.held a.digests w).1

/-- The enclave answered the bind itself, and not that it has no anchor yet. -/
def Attempt.Spoken : Attempt P → Prop
  | .answered r => (!r.ok && r.mentions "no-anchor-floor") = false
  | _ => False

lemma Attempt.spoken_of_proof {a : Attempt P} {p : P} (h : a.proof = some p) : a.Spoken := by
  cases a with
  | thrown e => cases h
  | slotRefused e => cases h
  | answered r =>
      cases hok : r.ok with
      | false => simp [Attempt.proof, hok] at h
      | true => simp [Attempt.Spoken, hok]

/-- Every proof made is in the answer and is kept for its Base write, under its `proofHash`. -/
def Served.Complete (computeProofHash : P → Option P) (r : Served P) : Prop :=
  ∀ p ∈ r.made, ∃ q, (q = p ∨ computeProofHash p = some q) ∧ q ∈ r.response.made ∧
    ∃ k ∈ r.kept, k.ceiling = true ∧ q ∈ k.proofs

/-- The same of an ending, before the server's `catch`. -/
def Ending.Complete (computeProofHash : P → Option P) (e : Ending P) (kept : List (Kept P)) :
    Prop :=
  ∀ p ∈ e.made, ∃ q, (q = p ∨ computeProofHash p = some q) ∧
    (∃ r, e.result = .ok r ∧ q ∈ r.made) ∧ ∃ k ∈ kept, k.ceiling = true ∧ q ∈ k.proofs

lemma mem_nameProofs (computeProofHash : P → Option P) {proofs : List P} {p : P}
    (h : p ∈ proofs) :
    ∃ q, (q = p ∨ computeProofHash p = some q) ∧ q ∈ nameProofs computeProofHash proofs := by
  induction proofs with
  | nil => exact absurd h List.not_mem_nil
  | cons a proofs ih =>
      rw [nameProofs]
      split
      · next q hq =>
        rcases List.mem_cons.mp h with rfl | h
        · exact ⟨q, .inr hq, List.mem_cons_self⟩
        · obtain ⟨r, hr, hmem⟩ := ih h
          exact ⟨r, hr, List.mem_cons_of_mem _ hmem⟩
      · exact ⟨p, .inl rfl, h⟩

/-- An ending whose answer carries the proofs that were just kept is complete. -/
lemma complete_of_kept {computeProofHash : P → Option P} {proofs : List P} {r : Response P}
    {kept : List (Kept P)} {blockFile : Option Str}
    (hr : r.made = nameProofs computeProofHash proofs) :
    Ending.Complete computeProofHash ⟨proofs, .ok r⟩
      (kept ++ [⟨nameProofs computeProofHash proofs, true, blockFile⟩]) := by
  intro p hp
  obtain ⟨q, hq, hmem⟩ := mem_nameProofs computeProofHash hp
  exact ⟨q, hq, ⟨r, rfl, hr ▸ hmem⟩, _, List.mem_append_right _ List.mem_cons_self, rfl, hmem⟩

/-- An ending whose answer carries no proof is complete only if none was made. -/
lemma complete_iff_of_none {computeProofHash : P → Option P} {proofs : List P}
    {result : Except Thrown (Response P)} {kept : List (Kept P)}
    (h : ∀ r, result = .ok r → r.made = []) :
    Ending.Complete computeProofHash ⟨proofs, result⟩ kept ↔ proofs = [] := by
  constructor
  · intro hc
    cases proofs with
    | nil => rfl
    | cons p proofs =>
        obtain ⟨q, -, ⟨r, hr, hq⟩, -⟩ := hc p List.mem_cons_self
        rw [h r hr] at hq
        exact absurd hq List.not_mem_nil
  · rintro rfl p hp
    exact absurd hp List.not_mem_nil

/-! ### The loop, case by case -/

section Loop

variable {s : Settings} {computeProofHash : P → Option P} {held : Option Str} {d : Str}
  {digests : List Str} {i : ℕ} {proofs : List P} {w w' : Answers P}

lemma pure_apply {σ α : Type} (a : α) (x : σ) : (pure a : StateM σ α) x = (a, x) := rfl

lemma attemptsFrom_of_none {a : Attempt P} (h : commitOne s computeProofHash held w = (a, w'))
    (ha : a.proof = none) :
    (attemptsFrom s computeProofHash held (d :: digests) w).1 = [a] := by
  simp [attemptsFrom, bind, StateT.bind, h, ha, pure_apply]

lemma attemptsFrom_of_some {a : Attempt P} {p : P}
    (h : commitOne s computeProofHash held w = (a, w')) (ha : a.proof = some p) :
    (attemptsFrom s computeProofHash held (d :: digests) w).1
      = a :: (attemptsFrom s computeProofHash held digests w').1 := by
  simp only [attemptsFrom, bind, StateT.bind, h, ha]
  rfl

lemma commitLoop_thrown {e : Thrown}
    (h : commitOne s computeProofHash held w = (.thrown e, w')) :
    commitLoop s computeProofHash held (d :: digests) i proofs w = (⟨proofs, .error e⟩, w') := by
  simp [commitLoop, bind, StateT.bind, h, pure_apply]

lemma commitLoop_slotRefused {e : Option Str}
    (h : commitOne s computeProofHash held w = (.slotRefused e, w')) :
    ∃ r : Response P, r.made = [] ∧
      commitLoop s computeProofHash held (d :: digests) i proofs w = (⟨proofs, .ok r⟩, w') := by
  refine ⟨sendError 500 (e.getD (js "slot allocation failed")), rfl, ?_⟩
  simp [commitLoop, bind, StateT.bind, h, pure_apply]

/-- No anchor yet: the answer is the enclave's refusal alone. -/
lemma commitLoop_noAnchor {r : EnclaveResponse P}
    (h : commitOne s computeProofHash held w = (.answered r, w'))
    (hr : (!r.ok && r.mentions "no-anchor-floor") = true) :
    ∃ r : Response P, r.made = [] ∧
      commitLoop s computeProofHash held (d :: digests) i proofs w = (⟨proofs, .ok r⟩, w') := by
  refine ⟨{ sendError 503 (r.error.getD (js "no anchor floor yet")) with
    retryAfter := some (js "15") }, rfl, ?_⟩
  simp only [commitLoop, bind, StateT.bind, h, hr, if_true]
  rfl

lemma commitLoop_made {a : Attempt P} {p : P}
    (h : commitOne s computeProofHash held w = (a, w')) (ha : a.proof = some p) :
    commitLoop s computeProofHash held (d :: digests) i proofs w
      = commitLoop s computeProofHash held digests (i + 1) (proofs ++ [p]) w' := by
  have hs : a.Spoken := Attempt.spoken_of_proof ha
  cases a with
  | thrown e => cases ha
  | slotRefused e => cases ha
  | answered r =>
      rw [Attempt.Spoken] at hs
      rw [Attempt.proof] at ha
      simp only [commitLoop, bind, StateT.bind, h, hs, ha]
      rfl

/-- A refusal after the first proof: the proofs are kept and are in the answer. -/
lemma commitLoop_refused {r : EnclaveResponse P}
    (h : commitOne s computeProofHash held w = (.answered r, w'))
    (hr : (!r.ok && r.mentions "no-anchor-floor") = false)
    (hproof : (Attempt.answered r).proof = none) (hheld : held = none) (hne : proofs ≠ []) :
    ∃ resp : Response P, resp.made = nameProofs computeProofHash proofs ∧
      commitLoop s computeProofHash held (d :: digests) i proofs w =
        (⟨proofs, .ok resp⟩,
          { w' with kept := w'.kept ++ [⟨nameProofs computeProofHash proofs, true, none⟩] }) := by
  refine ⟨⟨500, none, .madeSoFar (r.error.getD (js "commit failed")) i
    (nameProofs computeProofHash proofs)⟩, rfl, ?_⟩
  subst hheld
  rw [Attempt.proof] at hproof
  have hne : (!proofs.isEmpty) = true := by simpa using hne
  simp only [commitLoop, bind, StateT.bind, h, hr, hproof, hne]
  rfl

/-- A refusal of the first digest: nothing was made. -/
lemma commitLoop_refused_first {r : EnclaveResponse P}
    (h : commitOne s computeProofHash held w = (.answered r, w'))
    (hr : (!r.ok && r.mentions "no-anchor-floor") = false)
    (hproof : (Attempt.answered r).proof = none) (hnil : proofs = []) :
    ∃ resp : Response P, resp.made = [] ∧
      commitLoop s computeProofHash held (d :: digests) i proofs w = (⟨proofs, .ok resp⟩, w') := by
  subst hnil
  rw [Attempt.proof] at hproof
  by_cases hs : (held.isSome && r.mentions "Slot not found or expired") = true
  · refine ⟨slotUnavailable, rfl, ?_⟩
    simp only [commitLoop, bind, StateT.bind, h, hr, hproof, hs, if_true]
    rfl
  · refine ⟨sendError 500 (r.error.getD (js "commit failed")), rfl, ?_⟩
    simp only [commitLoop, bind, StateT.bind, h, hr, hproof, Bool.eq_false_iff.mpr hs]
    rfl

end Loop

/-- A request that holds a slot has one digest and no proof before it. -/
def SlotAlone (held : Option Str) (digests : List Str) (proofs : List P) : Prop :=
  held.isSome → digests.length + proofs.length ≤ 1

/-- The loop's ending is complete exactly when each attempt is spoken, the request's first
apart. -/
lemma commitLoop_complete_iff (s : Settings) (computeProofHash : P → Option P)
    (held : Option Str) (digests : List Str) (i : ℕ) (proofs : List P) (w : Answers P)
    (hheld : SlotAlone held digests proofs) :
    (commitLoop s computeProofHash held digests i proofs w).1.Complete computeProofHash
        (commitLoop s computeProofHash held digests i proofs w).2.kept ↔
      ∀ a ∈ (attemptsFrom s computeProofHash held digests w).1.drop (if proofs = [] then 1 else 0),
        a.Spoken := by
  induction digests generalizing i proofs w with
  | nil => exact iff_of_true (complete_of_kept rfl) (by simp [attemptsFrom, pure_apply])
  | cons d digests ih =>
      obtain ⟨a, w', h⟩ : ∃ a w', commitOne s computeProofHash held w = (a, w') := ⟨_, _, rfl⟩
      cases ha : a.proof with
      | some p =>
          rw [commitLoop_made h ha, attemptsFrom_of_some h ha, ih (i + 1) (proofs ++ [p]) w'
            fun hs => by have := hheld hs; simp at this ⊢; omega]
          have hs : a.Spoken := Attempt.spoken_of_proof ha
          by_cases hp : proofs = [] <;> simp [hp, hs]
      | none =>
          rw [attemptsFrom_of_none h ha]
          have hlost (hs : ¬ a.Spoken) : (∀ b ∈ [a].drop (if proofs = [] then 1 else 0), b.Spoken) ↔
              proofs = [] := by
            by_cases hp : proofs = [] <;> simp [hp, hs]
          cases a with
          | thrown e =>
              rw [commitLoop_thrown h, hlost id, complete_iff_of_none fun _ hx => by cases hx]
          | slotRefused e =>
              obtain ⟨r, hr, heq⟩ := commitLoop_slotRefused h
              rw [heq, hlost id, complete_iff_of_none fun _ hx => Except.ok.inj hx ▸ hr]
          | answered r =>
              by_cases hn : (!r.ok && r.mentions "no-anchor-floor") = true
              · obtain ⟨resp, hr, heq⟩ := commitLoop_noAnchor h hn
                rw [heq, hlost (by simpa [Attempt.Spoken] using hn),
                  complete_iff_of_none fun _ hx => Except.ok.inj hx ▸ hr]
              · have hn := Bool.eq_false_iff.mpr hn
                by_cases hp : proofs = []
                · obtain ⟨resp, hr, heq⟩ := commitLoop_refused_first h hn ha hp
                  rw [heq, complete_iff_of_none fun _ hx => Except.ok.inj hx ▸ hr]
                  simp [hp]
                · have hfree : held = none := by
                    cases held with
                    | none => rfl
                    | some t =>
                        have := hheld rfl
                        have := List.length_pos_iff.mpr hp
                        simp at *
                        omega
                  obtain ⟨resp, hr, heq⟩ := commitLoop_refused h hn ha hfree hp
                  rw [heq]
                  exact iff_of_true (complete_of_kept hr) (by simpa [hp, Attempt.Spoken] using hn)

/-- The server's `catch` answers with no proof. -/
lemma caught_complete_iff (computeProofHash : P → Option P) (e : Ending P)
    (kept : List (Kept P)) :
    (Served.mk e.made (caught e.result) kept).Complete computeProofHash ↔
      e.Complete computeProofHash kept := by
  obtain ⟨made, result⟩ := e
  cases result with
  | ok r => simp [Served.Complete, Ending.Complete, caught]
  | error e => simp [Served.Complete, Ending.Complete, caught, sendError, Response.made]

/-- **Proofs made are returned.** Every proof made in a request is kept and is in its answer
exactly when each attempt after the request's first was answered by the enclave, and not with
`no-anchor-floor`. -/
theorem made_returned_iff (s : Settings) (computeProofHash : P → Option P) (req : Request)
    (w : Answers P) :
    (serve s computeProofHash req w).Complete computeProofHash ↔
      ∀ a ∈ (attempts s computeProofHash req w).drop 1, a.Spoken := by
  obtain ⟨x, w', h⟩ : ∃ x w', checkRequest s req { w with kept := [] } = (x, w') := ⟨_, _, rfl⟩
  cases x with
  | error e =>
      have hmade : (serve s computeProofHash req w).made = [] := by
        cases e <;> simp only [serve, handleCommit, bind, StateT.bind, h] <;> rfl
      have hatt : attempts s computeProofHash req w = [] := by rw [attempts, h]
      rw [hatt, Served.Complete, hmade]
      simp
  | ok a =>
      have hatt : attempts s computeProofHash req w
          = (attemptsFrom s computeProofHash a.held a.digests w').1 := by rw [attempts, h]
      have hrun : handleCommit s computeProofHash req { w with kept := [] }
          = commitLoop s computeProofHash a.held a.digests 0 [] w' := by
        simp only [handleCommit, bind, StateT.bind, h]
      rw [hatt, serve, hrun, caught_complete_iff,
        commitLoop_complete_iff s computeProofHash a.held a.digests 0 [] w'
          fun hs => (a.single hs).le]
      simp

/-! ### The lost proof -/

/-- An enclave that binds and does nothing else. -/
def bindOnly : KeyInfo := ⟨some (js "atomic"), some (js "bind")⟩

/-- Two digests in one request. -/
def twoDigests : Request where
  allowed := true
  exempt := true
  contentType := some (js "application/json")
  raw := .ok (List.map (fun c => UInt8.ofNat c.toNat) (js "\x7b\"digests\":[\x7b\"digestB64\":\"YQ==\",\"hashAlg\":\"sha256\"\x7d,\x7b\"digestB64\":\"Yg==\",\"hashAlg\":\"sha256\"\x7d]\x7d"))
  limit _ := none

/-- The service's defaults. -/
def defaults : Settings := ⟨false, none, false, false, false, some (js "epoch")⟩

/-- The first bind is answered with a proof, the second times out. -/
def cutOff : Answers Str where
  keys := List.replicate 6 (.ok bindOnly)
  heads := []
  slots := []
  binds := [.ok ⟨true, some (js "proof"), none⟩, .error timedOut]
  blocks := []
  kept := []

theorem made_lost :
    ¬ ∀ (s : Settings) (req : Request) (w : Answers Str), (serve s some req w).Complete some := by
  intro h
  have hmade : (serve defaults some twoDigests cutOff).made = [js "proof"] := by decide +kernel
  have hresp : (serve defaults some twoDigests cutOff).response.made = [] := by decide +kernel
  obtain ⟨q, -, hq, -⟩ := h defaults twoDigests cutOff (js "proof") (by rw [hmade]; simp)
  rw [hresp] at hq
  exact absurd hq List.not_mem_nil

end Calls

end BitGraph.Server
