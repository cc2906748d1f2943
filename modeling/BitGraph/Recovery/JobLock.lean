import BitGraph.Lib.Events
import Mathlib.Logic.Function.Basic
import Mathlib.Logic.Relation

/-!
`recovery-jobs.ts`: the lock file that lets one process at a time work a recovery job.

A `Call` is one call of `runRecoveryJob`, by the file operation it does next. The operations of
all calls interleave, the clock moves, the touches of a holder run beside its work, and a call may
be killed anywhere; `step` is executable.

* **The lock.** `advance` is the code from one operation to the next: `lock()` with its takeover
  of a stale file, the fenced saves of `onState`, the end of the run, its `catch`, and `release`.
* **Moves.** `Moves` says once what an event does to the lock file and to the call it belongs to.
* **One worker.** `one_worker`: while no lock file is created between the moment a call last
  looked and what it then does to the job or to the lock (`undisturbed`), no call saves beside a
  fresh lock of another and no call removes a lock created after its check. Two calls that
  judge one stale file (`two_workers`) and a failed run (`failed_run_saves`) break it.
-/

namespace BitGraph.RecoveryJobs

/-! ### The lock file and the calls -/

def LOCK_STALE_MS : ℕ := 10 * 60000

/-- A lock file: which creation made it, the call that did, the token in it once it is written,
and its modification time. The token of a call is the call. -/
structure LockFile where
  inode : ℕ
  creator : ℕ
  token : Option ℕ
  touched : ℕ
  deriving DecidableEq

/-- The file was touched less than `LOCK_STALE_MS` ago. -/
def LockFile.isFresh (f : LockFile) (now : ℕ) : Bool := now - f.touched < LOCK_STALE_MS

/-- The next file operation of a call, with the local variables it still needs. -/
inductive Phase where
  /-- `mkdir` of the directory of jobs. -/
  | called
  /-- `open(path, "wx")`. -/
  | opening (attempt : ℕ)
  | stating (attempt : ℕ)
  /-- The file was there: `Date.now() - touched` comes next. -/
  | judging (attempt touched : ℕ)
  /-- `rm` of the stale file. -/
  | removing (attempt : ℕ)
  /-- `fh.writeFile` of the token. -/
  | writing (inode : ℕ)
  /-- In `writeRecoveryEntries`. -/
  | working
  /-- `saveJob` in `onState`. -/
  | saving
  /-- `writeRecoveryEntries` is back: `held()`. -/
  | resolved (done : Bool)
  /-- `rm` of the job, or `saveJob`. -/
  | recording (done : Bool)
  /-- `saveJob` in the `catch`. -/
  | failed (broken : Bool)
  /-- `rename` of a broken job. -/
  | settingAside
  /-- `held()` in `release`. -/
  | releasing
  /-- `rm` in `release`. -/
  | unlocking
  | ended
  deriving DecidableEq

/-- A call: what it does next, how many lock files had been created when it last looked at the
path, and how many of its touches stand before their `utimes`. -/
structure Call where
  phase : Phase
  looked : ℕ
  touches : ℕ
  deriving DecidableEq

/-- The clock, the number of lock files created, the lock file, and the calls. -/
structure System where
  now : ℕ
  created : ℕ
  lock : Option LockFile
  calls : ℕ → Call

/-- What a call does to the file of the job. -/
inductive JobWrite where
  | save
  | remove
  | setAside
  deriving DecidableEq

/-- What an observer sees: a write to the file of the job, with the lock file of that moment, and
a removal of the lock, with the file it removed. -/
inductive Label where
  | saves (i : ℕ) (write : JobWrite) (now : ℕ) (lock : Option LockFile)
  | removes (i looked : ℕ) (removed : Option LockFile)
  deriving DecidableEq

/-- No other call holds a fresh lock at a save, and a removed file of another call was there when
the call looked. -/
def Label.Ok : Label → Prop
  | .saves i _ now lock => ∀ f ∈ lock, f.creator ≠ i → f.isFresh now = false
  | .removes i looked removed => ∀ f ∈ removed, f.creator ≠ i → f.inode ≤ looked

/-! ### The code -/

namespace System

/-- Call `i` goes on at `phase`. -/
def go (s : System) (i : ℕ) (phase : Phase) : System :=
  { s with calls := Function.update s.calls i { s.calls i with phase := phase } }

/-- Call `i` has looked at the path, and goes on at `phase`. -/
def look (s : System) (i : ℕ) (phase : Phase) : System :=
  { s with
    calls := Function.update s.calls i { s.calls i with phase := phase, looked := s.created } }

/-- `open(path, "wx")` where no file is. -/
def create (s : System) (i : ℕ) : System :=
  { s with
    created := s.created + 1
    lock := some ⟨s.created + 1, i, none, s.now⟩
    calls := Function.update s.calls i
      { s.calls i with phase := .writing (s.created + 1), looked := s.created + 1 } }

/-- `fh.writeFile`: the file the handle is open on, which may not be at the path any more. -/
def writeToken (s : System) (i inode : ℕ) : System :=
  { s with lock := s.lock.map fun f =>
      if f.inode = inode then { f with token := some i, touched := s.now } else f }

/-- `rm(path, { force: true })`. -/
def unlink (s : System) : System := { s with lock := none }

/-- `utimes(path, now, now)`, which may fail. -/
def refresh (s : System) : System :=
  { s with lock := s.lock.map fun f => { f with touched := s.now } }

/-- `held()`. -/
def held (s : System) (i : ℕ) : Bool := s.lock.any fun f => f.token = some i

/-- The number of touches of call `i` under way. -/
def setTouches (s : System) (i touches : ℕ) : System :=
  { s with calls := Function.update s.calls i { s.calls i with touches := touches } }

end System

/-- The head of the loop in `lock()`. -/
def retry (attempt : ℕ) : Phase := if attempt + 1 < 2 then .opening (attempt + 1) else .ended

/-- The next file operation of call `i`, and the code after it. -/
def advance (s : System) (i : ℕ) : Phase → Option (List Label × System)
  | .called => some ([], s.go i (.opening 0))
  | .opening attempt =>
      match s.lock with
      | none => some ([], s.create i)
      | some _ => some ([], s.go i (.stating attempt))
  | .stating attempt =>
      match s.lock with
      | none => some ([], s.go i (retry attempt))
      | some f => some ([], s.look i (.judging attempt f.touched))
  | .judging attempt touched =>
      some ([], s.go i (if s.now - touched < LOCK_STALE_MS then .ended else .removing attempt))
  | .removing attempt =>
      some ([.removes i (s.calls i).looked s.lock], s.unlink.go i (retry attempt))
  | .writing inode => some ([], (s.writeToken i inode).go i .working)
  | .working => none
  | .saving => some ([.saves i .save s.now s.lock], s.go i .working)
  | .resolved done =>
      some ([], s.look i (if s.held i then .recording done else .releasing))
  | .recording done =>
      some ([.saves i (if done then .remove else .save) s.now s.lock], s.go i .releasing)
  | .failed broken =>
      some ([.saves i .save s.now s.lock], s.go i (if broken then .settingAside else .releasing))
  | .settingAside => some ([.saves i .setAside s.now s.lock], s.go i .releasing)
  | .releasing => some ([], s.look i (if s.held i then .unlocking else .ended))
  | .unlocking => some ([.removes i (s.calls i).looked s.lock], s.unlink.go i .ended)
  | .ended => none

/-- Where a call goes on when its operation fails, or `writeRecoveryEntries` does; `broken` is
`isBrokenTree`. A failed `stat` counts as a file that is gone, and `held()` never fails. -/
def rejected (broken : Bool) : Phase → Option Phase
  | .called | .opening _ | .removing _ | .writing _ | .unlocking => some .ended
  | .stating attempt => some (retry attempt)
  | .working | .saving | .recording _ => some (.failed broken)
  | .failed _ | .settingAside => some .releasing
  | .judging _ _ | .resolved _ | .releasing | .ended => none

/-- The call has its lock, and `setInterval` may fire. -/
def Phase.hasLock : Phase → Bool
  | .called | .opening _ | .stating _ | .judging _ _ | .removing _ | .writing _ => false
  | _ => true

/-- What can happen. -/
inductive Event where
  | ticks (ms : ℕ)
  | advances (i : ℕ)
  | rejects (i : ℕ) (broken : Bool)
  /-- `writeRecoveryEntries` calls `onState`. -/
  | onState (i : ℕ)
  /-- `writeRecoveryEntries` returns. -/
  | resolves (i : ℕ) (done : Bool)
  /-- `held()` in a `touch`, of the interval or of `onState`. -/
  | touch (i : ℕ)
  | utimes (i : ℕ)
  | kill (i : ℕ)

/-- One event. -/
def step (e : Event) (s : System) : Option (List Label × System) :=
  match e with
  | .ticks ms => some ([], { s with now := s.now + ms })
  | .advances i => advance s i (s.calls i).phase
  | .rejects i broken => (rejected broken (s.calls i).phase).map fun phase => ([], s.go i phase)
  | .onState i =>
      if (s.calls i).phase = .working then
        some ([], s.look i (if s.held i then .saving else .releasing))
      else none
  | .resolves i done =>
      if (s.calls i).phase = .working then some ([], s.go i (.resolved done)) else none
  | .touch i =>
      if (s.calls i).phase.hasLock && s.held i then
        some ([], s.setTouches i ((s.calls i).touches + 1))
      else none
  | .utimes i =>
      if 0 < (s.calls i).touches then
        some ([], s.refresh.setTouches i ((s.calls i).touches - 1))
      else none
  | .kill i => some ([], (s.setTouches i 0).go i .ended)

/-- Before the first call. -/
def System.init : System := ⟨0, 0, none, fun _ => ⟨.called, 0, 0⟩⟩

/-- All calls of all processes over one directory, under a policy for the events. What a process
keeps in memory is in `calls`, and a crash of one is the `kill` of its calls. -/
def machine (ok : Event → System → Bool) : Machine System Unit Label :=
  .onEvents (· = .init) (fun _ _ => True)
    (fun e s _ => (step e s).map fun r => (r.1, r.2, ())) fun e s _ => ok e s = true

/-- What a call does to the job, or to the lock, after it looked. -/
def Phase.acts : Phase → Bool
  | .removing _ | .saving | .recording _ | .failed _ | .settingAside | .unlocking => true
  | _ => false

/-- No lock file has been created since the call last looked at the path. -/
def undisturbed (e : Event) (s : System) : Bool :=
  match e with
  | .advances i => !(s.calls i).phase.acts || (s.calls i).looked == s.created
  | _ => true

/-! ### What a step can do -/

/-- The call has the lock file it last saw, or found none since. -/
def Phase.owns : Phase → Bool
  | .writing _ | .working | .saving | .recording _ | .failed _ | .settingAside | .unlocking => true
  | _ => false

/-- What an event does: the call goes on, looks, makes the file, writes to it, removes it, or
refreshes it. -/
inductive Moves (s : System) : System → Prop
  | ticks (now : ℕ) : Moves s { s with now := now }
  | goes (i : ℕ) (phase : Phase) (hown : phase.owns = true → (s.calls i).phase.owns = true)
      (hwriting : ∀ inode, phase ≠ .writing inode) : Moves s (s.go i phase)
  | looks (i : ℕ) (phase : Phase) (hown : phase.owns = true → s.held i = true)
      (hwriting : ∀ inode, phase ≠ .writing inode) : Moves s (s.look i phase)
  | creates (i : ℕ) (hlock : s.lock = none) : Moves s (s.create i)
  | writes (i inode : ℕ) (hphase : (s.calls i).phase = .writing inode) :
      Moves s (s.writeToken i inode)
  | unlinks : Moves s s.unlink
  | refreshes : Moves s s.refresh
  | touches (i n : ℕ) : Moves s (s.setTouches i n)

/-- The moves of an event. -/
abbrev Moved : System → System → Prop := Relation.ReflTransGen Moves

section Steps

variable {s s' : System} {i : ℕ} {ls : List Label}

lemma owns_retry (attempt : ℕ) : (retry attempt).owns = false := by
  rw [retry]
  split <;> rfl

lemma retry_ne_writing (attempt inode : ℕ) : retry attempt ≠ .writing inode := by
  rw [retry]
  split <;> exact nofun

lemma moved_go {phase : Phase} (hown : phase.owns = true → (s.calls i).phase.owns = true)
    (hwriting : ∀ inode, phase ≠ .writing inode) : Moved s (s.go i phase) :=
  .single (.goes i phase hown hwriting)

lemma moved_retry (attempt : ℕ) : Moved s (s.go i (retry attempt)) :=
  moved_go (fun h => by rw [owns_retry] at h; exact nomatch h) (retry_ne_writing attempt)

lemma moved_held {phase lost : Phase} (hlost : lost.owns = false)
    (hphase : ∀ inode, phase ≠ .writing inode) (hwriting : ∀ inode, lost ≠ .writing inode) :
    Moved s (s.look i (if s.held i then phase else lost)) := by
  refine .single (.looks i _ (fun h => ?_) fun inode => ?_)
  · split at h
    · assumption
    · rw [hlost] at h
      exact nomatch h
  · split
    · exact hphase inode
    · exact hwriting inode

/-- One file operation is moves. -/
lemma advance_moved (h : advance s i (s.calls i).phase = some (ls, s')) : Moved s s' := by
  have hgo : ∀ {phase : Phase}, phase.owns = false → Moved s (s.go i phase) := fun {phase} hown =>
    moved_go (fun h => by rw [hown] at h; exact nomatch h) (by rintro inode rfl; exact nomatch hown)
  generalize hphase : (s.calls i).phase = phase at h
  cases phase with
  | called =>
      cases h
      exact hgo rfl
  | opening attempt =>
      rw [advance] at h
      split at h <;> cases h
      · next hlock => exact .single (.creates i hlock)
      · exact hgo rfl
  | stating attempt =>
      rw [advance] at h
      split at h <;> cases h
      · exact moved_retry attempt
      · exact .single (.looks i _ (fun h => nomatch h) nofun)
  | judging attempt touched =>
      cases h
      exact hgo (by split <;> rfl)
  | removing attempt =>
      cases h
      exact .head .unlinks (moved_retry attempt)
  | writing inode =>
      cases h
      refine .head (.writes i inode hphase) (moved_go (fun _ => ?_) nofun)
      rw [System.writeToken, hphase]
      rfl
  | working => exact nomatch h
  | saving =>
      cases h
      exact moved_go (fun _ => by rw [hphase]; rfl) nofun
  | resolved done =>
      cases h
      exact moved_held rfl nofun nofun
  | recording done =>
      cases h
      exact hgo rfl
  | failed broken =>
      cases h
      exact moved_go (fun _ => by rw [hphase]; rfl) (fun inode => by split <;> exact nofun)
  | settingAside =>
      cases h
      exact hgo rfl
  | releasing =>
      cases h
      exact moved_held rfl nofun nofun
  | unlocking =>
      cases h
      exact .head .unlinks (moved_go (fun h => nomatch h) nofun)
  | ended => exact nomatch h

/-- A failed operation lets a call go on with what it has. -/
lemma owns_of_rejected {broken : Bool} {phase phase' : Phase}
    (h : rejected broken phase = some phase') :
    (phase'.owns = true → phase.owns = true) ∧ ∀ inode, phase' ≠ .writing inode := by
  cases phase with
  | stating attempt =>
      cases h
      exact ⟨fun h => by rw [owns_retry] at h; exact (nomatch h), retry_ne_writing attempt⟩
  | working | saving | recording _ =>
      cases h
      exact ⟨fun _ => rfl, nofun⟩
  | _ =>
      cases h <;> exact ⟨fun h => (nomatch h), nofun⟩

/-- One event is moves. -/
lemma step_moved {e : Event} (h : step e s = some (ls, s')) : Moved s s' := by
  cases e with
  | ticks ms =>
      cases h
      exact .single (.ticks _)
  | advances i => exact advance_moved h
  | rejects i broken =>
      obtain ⟨phase, hphase, heq⟩ := Option.map_eq_some_iff.mp h
      cases heq
      exact moved_go (owns_of_rejected hphase).1 (owns_of_rejected hphase).2
  | onState i =>
      rw [step] at h
      split at h <;> cases h
      exact moved_held rfl nofun nofun
  | resolves i done =>
      rw [step] at h
      split at h <;> cases h
      exact moved_go (fun h => nomatch h) nofun
  | touch i =>
      rw [step] at h
      split at h <;> cases h
      exact .single (.touches i _)
  | utimes i =>
      rw [step] at h
      split at h <;> cases h
      exact .head .refreshes (.single (.touches i _))
  | kill i =>
      cases h
      exact .head (.touches i 0) (moved_go (fun h => nomatch h) nofun)

/-- What an event shows: nothing, a save of a call that had its lock, or a removal. -/
lemma step_labels {e : Event} (h : step e s = some (ls, s')) : ls = [] ∨ ∃ i, e = .advances i
    ∧ (s.calls i).phase.acts = true
    ∧ ((s.calls i).phase.owns = true ∧ (∃ write, ls = [.saves i write s.now s.lock])
      ∨ ls = [.removes i (s.calls i).looked s.lock]) := by
  cases e with
  | advances i =>
      rw [step] at h
      generalize hphase : (s.calls i).phase = phase at h
      cases phase with
      | removing attempt =>
          cases h
          exact .inr ⟨i, rfl, by rw [hphase]; rfl, .inr rfl⟩
      | unlocking =>
          cases h
          exact .inr ⟨i, rfl, by rw [hphase]; rfl, .inr rfl⟩
      | saving | recording _ | failed _ | settingAside =>
          cases h
          exact .inr ⟨i, rfl, by rw [hphase]; rfl, .inl ⟨by rw [hphase]; rfl, _, rfl⟩⟩
      | opening attempt | stating attempt =>
          rw [advance] at h
          split at h <;> cases h <;> exact .inl rfl
      | _ => cases h <;> exact .inl rfl
  | rejects i broken =>
      obtain ⟨phase, -, heq⟩ := Option.map_eq_some_iff.mp h
      cases heq
      exact .inl rfl
  | ticks ms =>
      cases h
      exact .inl rfl
  | kill i =>
      cases h
      exact .inl rfl
  | onState i | resolves i done | touch i | utimes i =>
      rw [step] at h
      split at h <;> cases h
      exact .inl rfl

end Steps

/-! ### Runs -/

/-- What holds of the directory and the calls: a token is its creator's, and a call that has seen
every file created since owns the one that is there. -/
structure Fenced (s : System) : Prop where
  inode_le : ∀ f ∈ s.lock, f.inode ≤ s.created
  looked_le : ∀ i, (s.calls i).looked ≤ s.created
  writing_le : ∀ i inode, (s.calls i).phase = .writing inode → inode ≤ s.created
  writing : ∀ f ∈ s.lock, ∀ i, (s.calls i).phase = .writing f.inode → f.creator = i
  token : ∀ f ∈ s.lock, ∀ i, f.token = some i → f.creator = i
  own : ∀ i, (s.calls i).phase.owns = true → (s.calls i).looked = s.created →
    ∀ f ∈ s.lock, f.creator = i

section Runs

variable {s s' : System}

lemma Fenced.init : Fenced .init where
  inode_le := nofun
  looked_le _ := Nat.le_refl _
  writing_le := nofun
  writing := nofun
  token := nofun
  own := nofun

/-- A call holds only what it created. -/
lemma Fenced.of_held (h : Fenced s) {i : ℕ} (hheld : s.held i = true) :
    ∀ f ∈ s.lock, f.creator = i := by
  intro f hf
  obtain ⟨g, hg, htoken⟩ := (Option.any_eq_true _ _).mp hheld
  obtain rfl : g = f := Option.some.inj (hg.symm.trans hf)
  exact h.token g hf i (of_decide_eq_true htoken)

lemma Fenced.go (h : Fenced s) {i : ℕ} {phase : Phase}
    (hown : phase.owns = true → (s.calls i).phase.owns = true)
    (hwriting : ∀ inode, phase ≠ .writing inode) : Fenced (s.go i phase) := by
  refine ⟨h.inode_le, fun j => ?_, fun j inode hj => ?_, fun f hf j hj => ?_, h.token,
    fun j hj hlooked => ?_⟩ <;>
    rcases eq_or_ne j i with rfl | hne
  · simpa [System.go] using h.looked_le j
  · simpa [System.go, hne] using h.looked_le j
  · exact absurd (by simpa [System.go] using hj) (hwriting inode)
  · exact h.writing_le j inode (by simpa [System.go, hne] using hj)
  · exact absurd (by simpa [System.go] using hj) (hwriting f.inode)
  · exact h.writing f hf j (by simpa [System.go, hne] using hj)
  · exact h.own j (hown (by simpa [System.go] using hj)) (by simpa [System.go] using hlooked)
  · exact h.own j (by simpa [System.go, hne] using hj) (by simpa [System.go, hne] using hlooked)

lemma Fenced.look (h : Fenced s) {i : ℕ} {phase : Phase}
    (hown : phase.owns = true → s.held i = true)
    (hwriting : ∀ inode, phase ≠ .writing inode) : Fenced (s.look i phase) := by
  refine ⟨h.inode_le, fun j => ?_, fun j inode hj => ?_, fun f hf j hj => ?_, h.token,
    fun j hj hlooked => ?_⟩ <;>
    rcases eq_or_ne j i with rfl | hne
  · simp [System.look]
  · simpa [System.look, hne] using h.looked_le j
  · exact absurd (by simpa [System.look] using hj) (hwriting inode)
  · exact h.writing_le j inode (by simpa [System.look, hne] using hj)
  · exact absurd (by simpa [System.look] using hj) (hwriting f.inode)
  · exact h.writing f hf j (by simpa [System.look, hne] using hj)
  · exact h.of_held (hown (by simpa [System.look] using hj))
  · exact h.own j (by simpa [System.look, hne] using hj) (by simpa [System.look, hne] using hlooked)

lemma Fenced.create (h : Fenced s) (i : ℕ) : Fenced (s.create i) := by
  refine ⟨fun f hf => ?_, fun j => ?_, fun j inode hj => ?_, fun f hf j hj => ?_,
    fun f hf j hj => ?_, fun j hj hlooked f hf => ?_⟩
  · cases hf
    exact Nat.le_refl _
  · rcases eq_or_ne j i with rfl | hne
    · simp [System.create]
    · have := h.looked_le j
      simp only [System.create, Function.update_of_ne hne]
      omega
  · rcases eq_or_ne j i with rfl | hne
    · have : s.created + 1 = inode := by simpa [System.create] using hj
      exact Nat.le_of_eq this.symm
    · have := h.writing_le j inode (by simpa [System.create, hne] using hj)
      simp only [System.create]
      omega
  · cases hf
    rcases eq_or_ne j i with rfl | hne
    · rfl
    · have := h.writing_le j (s.created + 1) (by simpa [System.create, hne] using hj)
      omega
  · cases hf
    exact nomatch hj
  · cases hf
    rcases eq_or_ne j i with rfl | hne
    · rfl
    · have := h.looked_le j
      simp only [System.create, Function.update_of_ne hne] at hlooked
      omega

/-- A change of the lock file that keeps who made it. -/
lemma Fenced.map (h : Fenced s) {change : LockFile → LockFile}
    (hinode : ∀ f, (change f).inode = f.inode) (hcreator : ∀ f, (change f).creator = f.creator)
    (htoken : ∀ f ∈ s.lock, ∀ i, (change f).token = some i → f.creator = i) :
    Fenced { s with lock := s.lock.map change } := by
  have hall : ∀ {P : LockFile → Prop}, (∀ f ∈ s.lock, P (change f)) →
      ∀ f ∈ s.lock.map change, P f := by
    intro P hP f hf
    obtain ⟨g, hg, rfl⟩ := Option.map_eq_some_iff.mp hf
    exact hP g hg
  refine ⟨hall fun f hf => ?_, h.looked_le, h.writing_le, hall fun f hf i hi => ?_,
    hall fun f hf i hi => ?_, fun i hi hlooked => hall fun f hf => ?_⟩
  · rw [hinode]
    exact h.inode_le f hf
  · rw [hinode] at hi
    rw [hcreator]
    exact h.writing f hf i hi
  · rw [hcreator]
    exact htoken f hf i hi
  · rw [hcreator]
    exact h.own i hi hlooked f hf

lemma Fenced.writeToken (h : Fenced s) {i inode : ℕ} (hphase : (s.calls i).phase = .writing inode) :
    Fenced (s.writeToken i inode) := by
  refine h.map (fun f => by split <;> rfl) (fun f => by split <;> rfl) fun f hf j hj => ?_
  split at hj
  · next hinode =>
      cases hj
      exact h.writing f hf i (by rw [hphase, hinode])
  · exact h.token f hf j hj

lemma Fenced.setTouches (h : Fenced s) (i n : ℕ) : Fenced (s.setTouches i n) := by
  have hphase : ∀ j, ((s.setTouches i n).calls j).phase = (s.calls j).phase := by
    intro j
    rcases eq_or_ne j i with rfl | hne
    · simp [System.setTouches]
    · simp [System.setTouches, hne]
  have hlooked : ∀ j, ((s.setTouches i n).calls j).looked = (s.calls j).looked := by
    intro j
    rcases eq_or_ne j i with rfl | hne
    · simp [System.setTouches]
    · simp [System.setTouches, hne]
  refine ⟨h.inode_le, fun j => ?_, fun j inode hj => ?_, fun f hf j hj => ?_, h.token,
    fun j hj hl => ?_⟩
  · rw [hlooked]
    exact h.looked_le j
  · exact h.writing_le j inode (by rwa [hphase] at hj)
  · exact h.writing f hf j (by rwa [hphase] at hj)
  · exact h.own j (by rwa [hphase] at hj) (by rwa [hlooked] at hl)

/-- Every move keeps the fence. -/
lemma Fenced.moves (h : Fenced s) (hm : Moves s s') : Fenced s' := by
  cases hm with
  | ticks now => exact ⟨h.inode_le, h.looked_le, h.writing_le, h.writing, h.token, h.own⟩
  | goes i phase hown hwriting => exact h.go hown hwriting
  | looks i phase hown hwriting => exact h.look hown hwriting
  | creates i hlock => exact h.create i
  | writes i inode hphase => exact h.writeToken hphase
  | unlinks => exact ⟨nofun, h.looked_le, h.writing_le, nofun, nofun, fun _ _ _ => nofun⟩
  | refreshes => exact h.map (fun _ => rfl) (fun _ => rfl) h.token
  | touches i n => exact h.setTouches i n

lemma Fenced.moved (h : Fenced s) (hm : Moved s s') : Fenced s' := by
  induction hm with
  | refl => exact h
  | tail _ hm ih => exact ih.moves hm

/-- An undisturbed event shows only what is right. -/
lemma Fenced.labels_ok (h : Fenced s) {e : Event} {ls : List Label}
    (hok : undisturbed e s = true) (hstep : step e s = some (ls, s')) : ∀ l ∈ ls, l.Ok := by
  rcases step_labels hstep with rfl | ⟨i, rfl, hacts, hls⟩
  · exact fun l hl => absurd hl List.not_mem_nil
  have hlooked : (s.calls i).looked = s.created := by simpa [undisturbed, hacts] using hok
  rcases hls with ⟨hown, write, rfl⟩ | rfl
  · intro l hl
    rw [List.mem_singleton.mp hl]
    exact fun f hf hne => absurd (h.own i hown hlooked f hf) hne
  · intro l hl
    rw [List.mem_singleton.mp hl]
    exact fun f hf _ => hlooked ▸ h.inode_le f hf

/-- **One worker.** While no lock file is created between the moment a call last looked and what
it then does to the job or to the lock, a call saves the job only while no other holds a fresh
lock, and removes no lock that another created after its check. -/
theorem one_worker {ls : List Label} {p : Unit} (h : (machine undisturbed).Reach ls s p) :
    ∀ l ∈ ls, l.Ok := by
  have hinv : Fenced s ∧ ∀ l ∈ ls, l.Ok := by
    refine Machine.Reach.invariant (D := fun ls s => Fenced s ∧ ∀ l ∈ ls, l.Ok)
      (I := fun ls s _ => Fenced s ∧ ∀ l ∈ ls, l.Ok) ?_ ?_ ?_ ?_ h
    · rintro _ rfl
      exact ⟨.init, fun l hl => absurd hl List.not_mem_nil⟩
    · exact fun ls s p hI _ => hI
    · rintro e ls s p new s' p' ⟨hfenced, hls⟩ hok hfire
      obtain ⟨⟨new', s''⟩, hstep, heq⟩ := Option.map_eq_some_iff.mp hfire
      cases heq
      refine ⟨hfenced.moved (step_moved hstep), fun l hl => ?_⟩
      rcases List.mem_append.mp hl with hl | hl
      · exact hls l hl
      · exact hfenced.labels_ok hok hstep l hl
    · exact fun ls s p hI => hI
  exact hinv.2

end Runs

/-- The start of `lock()` where no file is: `mkdir`, `open` and the token. -/
def acquires (i : ℕ) : List Event := [.advances i, .advances i, .advances i]

/-- `lock()` up to the `rm` of a stale file: `mkdir`, `open`, `stat` and the age. -/
def judges (i : ℕ) : List Event := [.advances i, .advances i, .advances i, .advances i]

/-- Call 1 freezes while it works, call 2 takes its stale lock over, saves, and finishes; call 1
wakes up and stops. -/
def takeover : List Event :=
  acquires 1 ++ [.touch 1, .utimes 1, .ticks LOCK_STALE_MS] ++ judges 2
    ++ [.advances 2, .advances 2, .advances 2, .onState 2, .onState 1, .advances 2, .resolves 2 true,
      .advances 2, .advances 2, .advances 2, .advances 2, .advances 1]

/-- The lock file of call `i`. -/
def lockOf (i inode touched : ℕ) : LockFile := ⟨inode, i, some i, touched⟩

/-- What an observer sees of `takeover`. -/
def takeoverSeen : List Label :=
  [.removes 2 1 (some (lockOf 1 1 0)),
    .saves 2 .save LOCK_STALE_MS (some (lockOf 2 2 LOCK_STALE_MS)),
    .saves 2 .remove LOCK_STALE_MS (some (lockOf 2 2 LOCK_STALE_MS)),
    .removes 2 2 (some (lockOf 2 2 LOCK_STALE_MS))]

lemma sample_takeover : ∃ s, (machine undisturbed).Reach takeoverSeen s () := by
  obtain ⟨s, hrun⟩ : ∃ s, Machine.runAll (fun e s _ => (step e s).map fun r => (r.1, r.2, ()))
      (fun e s _ => undisturbed e s = true) takeover .init ()
      = some (takeoverSeen, s, ()) := ⟨_, rfl⟩
  have hstart : (machine undisturbed).Reach [] .init () := .start rfl trivial
  exact ⟨s, hstart.runAll hrun⟩

theorem one_worker_takeover :
    ∃ s, (machine undisturbed).Reach takeoverSeen s () ∧ ∀ l ∈ takeoverSeen, l.Ok := by
  obtain ⟨s, hrun⟩ := sample_takeover
  exact ⟨s, hrun, one_worker hrun⟩

/-- A run of events that are not restricted. -/
lemma reach_of_run {es : List Event} {ls : List Label} {s : System}
    (hrun : Machine.runAll (fun e s _ => (step e s).map fun r => (r.1, r.2, ()))
      (fun _ _ _ => true = true) es .init () = some (ls, s, ())) :
    (machine fun _ _ => true).Reach ls s () := by
  have hstart : (machine fun _ _ => true).Reach [] .init () := .start rfl trivial
  exact hstart.runAll hrun

/-- **Two workers.** Calls 2 and 3 judge one stale lock. Call 2 takes it over and is about to save
when call 3 removes the new lock and makes its own; call 2 then saves beside it. -/
theorem two_workers : ¬ ∀ ls s p, (machine fun _ _ => true).Reach ls s p → ∀ l ∈ ls, l.Ok := by
  intro hall
  obtain ⟨s, hrun⟩ : ∃ s, Machine.runAll (fun e s _ => (step e s).map fun r => (r.1, r.2, ()))
      (fun _ _ _ => true = true)
      (acquires 1 ++ [.ticks LOCK_STALE_MS] ++ judges 2 ++ judges 3
        ++ [.advances 2, .advances 2, .advances 2, .onState 2, .advances 3, .advances 3,
          .advances 3, .advances 2]) .init ()
      = some ([.removes 2 1 (some (lockOf 1 1 0)),
        .removes 3 1 (some (lockOf 2 2 LOCK_STALE_MS)),
        .saves 2 .save LOCK_STALE_MS (some (lockOf 3 3 LOCK_STALE_MS))], s, ()) := ⟨_, rfl⟩
  have hseen := hall _ s () (reach_of_run hrun)
  have hremoved : 2 ≤ 1 := hseen (.removes 3 1 (some (lockOf 2 2 LOCK_STALE_MS))) (by simp) _ rfl
    (by decide)
  exact absurd hremoved (by decide)

/-- A call whose run fails saves without a look at its lock: call 2 has taken over, and works. -/
theorem failed_run_saves : ∃ s, (machine fun _ _ => true).Reach
    [.removes 2 1 (some (lockOf 1 1 0)),
      .saves 1 .save LOCK_STALE_MS (some (lockOf 2 2 LOCK_STALE_MS))] s ()
    ∧ (lockOf 2 2 LOCK_STALE_MS).isFresh LOCK_STALE_MS = true := by
  obtain ⟨s, hrun⟩ : ∃ s, Machine.runAll (fun e s _ => (step e s).map fun r => (r.1, r.2, ()))
      (fun _ _ _ => true = true)
      (acquires 1 ++ [.ticks LOCK_STALE_MS] ++ judges 2
        ++ [.advances 2, .advances 2, .advances 2, .rejects 1 false, .advances 1]) .init ()
      = some ([.removes 2 1 (some (lockOf 1 1 0)),
        .saves 1 .save LOCK_STALE_MS (some (lockOf 2 2 LOCK_STALE_MS))], s, ()) := ⟨_, rfl⟩
  exact ⟨s, reach_of_run hrun, rfl⟩

end BitGraph.RecoveryJobs
