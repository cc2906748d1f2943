import BitGraph.Js.Text
import BitGraph.Lib.Events
import Mathlib.Logic.Relation

/-!
`timeline-poller.ts`: the poller of one chain.

The poller binds the blocks of a chain in order and keeps a cursor with the hashes it bound
recently. A block that does not follow the cursor makes it walk back to a hash the chain still
has, or, when it has none of them, to the block before the oldest. The chain and its two providers
are a `World` of blocks and a canonical chain in it, which moves between any two steps.

* **Steps.** `turn` is the loop of `pass`, `rewindFrom` the one of `rewind`; both stop at an
  `await`. The record of a block is in the journal one step before the cursor is saved.
* **Blocks.** `Covered` says that a block and its ancestors, from the first block bound on, are
  read. Every block the cursor or the journal knows is.
* **No block is skipped.** `no_block_skipped` under `admissible`: a start without a cursor finds
  no record, and a walk back past every hash ends at a block that is read. `block_skipped` is a
  crash before the first cursor, and `block_skipped_reorgs` two reorgs.

A text that is no block read, and what the providers or the enclave refuse, is an exception, which
ends the pass (`Event.fails`). The lags, the status and the log are left out.
-/

namespace BitGraph

open Js

namespace ChainPoller

/-! ### Blocks -/

/-- The chains of the timeline. -/
inductive TimelineChain where
  | base
  | ethereum
  deriving DecidableEq

/-- A block as the timeline uses it. -/
structure ChainHead where
  chain : TimelineChain
  chainId : Str
  number : ℕ
  hash : Str
  parentHash : Str
  timestamp : ℕ
  deriving DecidableEq

/-- The blocks that there are: a hash is of one block, and a block has the number after its
parent's. -/
structure World where
  block : ChainHead → Prop
  eq_of_hash : ∀ a b, block a → block b → a.hash = b.hash → a = b
  number_eq : ∀ a b, block a → block b → b.parentHash = a.hash → b.number = a.number + 1

/-- A canonical chain, newest block first. -/
structure Canonical (w : World) where
  head : ChainHead
  rest : List ChainHead
  isBlock : ∀ b ∈ head :: rest, w.block b
  linked : (head :: rest).IsChain fun b a => b.parentHash = a.hash
  genesis : ((head :: rest).getLast (List.cons_ne_nil _ _)).number = 0

/-- The blocks of the chain. -/
def Canonical.blocks {w : World} (c : Canonical w) : List ChainHead := c.head :: c.rest

/-- `at(n)`, `none` where there is no such block yet. -/
def Canonical.at {w : World} (c : Canonical w) (n : ℕ) : Option ChainHead :=
  c.blocks.find? fun b => b.number = n

/-- The blocks of the chain that another one does not have. -/
def Canonical.replaced {w : World} (c c' : Canonical w) : List ChainHead :=
  c.blocks.filter fun b => b ∉ c'.blocks

/-! ### The poller -/

/-- A block the poller remembers. -/
structure Mark where
  number : ℕ
  hash : Str
  deriving DecidableEq

/-- The last block bound, and the blocks bound most recently, oldest first. -/
structure Cursor where
  number : ℕ
  hash : Str
  recent : List Mark
  deriving DecidableEq

/-- The block read of a record. -/
structure BlockRead where
  epochId : Str
  chain : TimelineChain
  chainId : Str
  number : ℕ
  hash : Str
  timestamp : ℕ
  deriving DecidableEq

/-- The options, with their defaults filled in. -/
structure PollerOptions where
  maxPerPass : ℕ
  keepRecent : ℕ

/-- The cursor file, the block reads of the journal, and the chain. -/
structure PollerDisk (w : World) where
  cursor : Option Cursor
  journal : List BlockRead
  chain : Canonical w

/-- Where a pass stands. -/
inductive Phase where
  /-- No pass; what the last one returned, if it returned. -/
  | idle (caughtUp : Option Bool)
  | ready (epochId : Str)
  | latest (epochId : Str)
  /-- Waiting for the block after the cursor. -/
  | next (epochId : Str) (head : ChainHead) (done : ℕ)
  /-- Waiting for the enclave; `first` without a cursor. -/
  | binding (first : Bool) (epochId : Str) (head : ChainHead) (done : ℕ) (b : ChainHead)
  /-- The record is in the journal. -/
  | saving (first : Bool) (epochId : Str) (head : ChainHead) (done : ℕ) (b : ChainHead)
  /-- Waiting for the block of the remembered hash `i`. -/
  | rewinding (i : ℕ)
  /-- Waiting for the block before the oldest remembered one. -/
  | restarting
  deriving DecidableEq

/-- The fields of the class. -/
structure Poller where
  cursor : Option Cursor
  ready : Bool
  phase : Phase

/-- `l.slice(-keep)`. -/
def sliceLast {α : Type} (keep : ℕ) (l : List α) : List α :=
  if keep = 0 then l else l.drop (l.length - keep)

/-- The cursor behind a block that was bound. -/
def boundCursor (o : PollerOptions) (c : Option Cursor) (b : ChainHead) : Cursor where
  number := b.number
  hash := b.hash
  recent := sliceLast o.keepRecent ((c.map Cursor.recent).getD [] ++ [⟨b.number, b.hash⟩])

/-- The loop of `rewind`, with `i` remembered hashes left. -/
def rewindFrom : ℕ → Phase
  | 0 => .restarting
  | i + 1 => .rewinding i

/-- The block before the oldest remembered one, `none` below zero. -/
def baseNumber (c : Cursor) : Option ℕ :=
  match (c.recent.head?.map Mark.number).getD c.number with
  | 0 => none
  | n + 1 => some n

/-- A block that was read follows the cursor, or the poller walks back. -/
def follow (c : Cursor) (epochId : Str) (head : ChainHead) (done : ℕ) (b : ChainHead) : Phase :=
  if b.parentHash ≠ c.hash then rewindFrom c.recent.length
  else .binding false epochId head done b

/-- The loop of `pass`. -/
def turn (o : PollerOptions) (c : Cursor) (epochId : Str) (head : ChainHead) (done : ℕ) : Phase :=
  if c.number < head.number ∧ done < o.maxPerPass then
    if c.number + 1 = head.number then follow c epochId head done head
    else .next epochId head done
  else .idle (some (head.number = c.number))

/-- `pass` behind `latest`. -/
def behindLatest (o : PollerOptions) (cursor : Option Cursor) (epochId : Str) (head : ChainHead) :
    Phase :=
  match cursor with
  | none => .binding true epochId head 0 head
  | some c =>
      if head.number = c.number ∧ head.hash ≠ c.hash then rewindFrom c.recent.length
      else turn o c epochId head 0

/-- The record of a block. -/
def blockRead (epochId : Str) (b : ChainHead) : BlockRead :=
  ⟨epochId, b.chain, b.chainId, b.number, b.hash, b.timestamp⟩

/-- What can happen. -/
inductive PollerEvent (w : World) where
  /-- `pass` is called, with what `epochId` answers. -/
  | pass (epochId : Option Str)
  /-- The providers or the enclave answer. -/
  | answers
  | fails
  /-- The cursor is saved behind a record. -/
  | saves
  /-- The chain moves. -/
  | evolves (c : Canonical w)

variable {w : World}

/-- `rewind` takes a cursor and saves it; the pass returns false. -/
def takeCursor (c : Cursor) (d : PollerDisk w) (p : Poller) : PollerDisk w × Poller :=
  ({ d with cursor := some c }, { p with cursor := some c, phase := .idle (some false) })

/-- What the pass does with an answer. -/
def answer (o : PollerOptions) (d : PollerDisk w) (p : Poller) : Option (PollerDisk w × Poller) :=
  match p.phase, p.cursor with
  | .ready epochId, _ => some (d, { p with ready := true, phase := .latest epochId })
  | .latest epochId, cursor =>
      some (d, { p with phase := behindLatest o cursor epochId d.chain.head })
  | .next epochId head done, some c => do
      let b ← d.chain.at (c.number + 1)
      return (d, { p with phase := follow c epochId head done b })
  | .binding first epochId head done b, _ =>
      some ({ d with journal := d.journal ++ [blockRead epochId b] },
        { p with phase := .saving first epochId head done b })
  | .rewinding i, some c => do
      let r ← c.recent[i]?
      let now ← d.chain.at r.number
      if now.hash = r.hash then
        return takeCursor ⟨r.number, r.hash, c.recent.take (i + 1)⟩ d p
      else return (d, { p with phase := rewindFrom i })
  | .restarting, some c => do
      let base ← d.chain.at (← baseNumber c)
      return takeCursor ⟨base.number, base.hash, [⟨base.number, base.hash⟩]⟩ d p
  | _, _ => none

/-- One event. -/
def pollerFire (o : PollerOptions) (e : PollerEvent w) (d : PollerDisk w) (p : Poller) :
    Option (List Empty × PollerDisk w × Poller) :=
  match e, p.phase with
  | .pass none, .idle _ => some ([], d, { p with phase := .idle (some true) })
  | .pass (some epochId), .idle _ =>
      some ([], d, { p with phase := if p.ready then .latest epochId else .ready epochId })
  | .answers, _ => (answer o d p).map fun r => ([], r)
  | .fails, .idle _ => none
  | .fails, .saving _ _ _ _ _ => none
  | .fails, _ => some ([], d, { p with phase := .idle none })
  | .saves, .saving first epochId head done b =>
      let c := boundCursor o p.cursor b
      some ([], { d with cursor := some c }, { p with
        cursor := some c
        phase := if first then .idle (some true) else turn o c epochId head (done + 1) })
  | .evolves c, _ => some ([], { d with chain := c }, p)
  | _, _ => none

/-- The poller under a policy for the events. -/
def poller (o : PollerOptions) (ok : PollerEvent w → PollerDisk w → Poller → Prop) :
    Machine (PollerDisk w) Poller Empty :=
  .onEvents (fun d => d.cursor = none ∧ d.journal = []) (fun d p => p = ⟨d.cursor, false, .idle none⟩)
    (pollerFire o) ok

/-- The number of the first block bound. -/
def firstBound (journal : List BlockRead) : Option ℕ := journal.head?.map BlockRead.number

/-- The journal has a read of the block. -/
def isRead (journal : List BlockRead) (b : ChainHead) : Bool :=
  journal.any fun r => r.number = b.number && r.hash = b.hash

/-- Every block of the chain from the first block bound on is read. -/
def NothingSkipped (d : PollerDisk w) : Prop :=
  ∀ n, firstBound d.journal = some n → ∀ b ∈ d.chain.blocks, n ≤ b.number → isRead d.journal b = true

/-- A pass returned true, with the cursor at the head. -/
def CaughtUp (d : PollerDisk w) (p : Poller) : Prop :=
  p.phase = .idle (some true) ∧ ∃ c, p.cursor = some c ∧ c.number = d.chain.head.number
    ∧ c.hash = d.chain.head.hash

/-- Every reorg replaces at most `keepRecent` blocks. -/
def shallow (o : PollerOptions) (e : PollerEvent w) (d : PollerDisk w) (_ : Poller) : Bool :=
  match e with
  | .evolves c => (d.chain.replaced c).length ≤ o.keepRecent
  | _ => true

/-- A block without a cursor is bound only in an empty journal, and a walk back past every hash
ends at a block that is read, or comes before the first one. -/
def pollerAdmissible (e : PollerEvent w) (d : PollerDisk w) (p : Poller) : Bool :=
  match e, p.phase, p.cursor with
  | .answers, .binding _ _ _ _ _, none => d.journal = []
  | .answers, .restarting, some c =>
      ((baseNumber c).bind d.chain.at).all fun base =>
        isRead d.journal base || (firstBound d.journal).all fun n => base.number < n
  | _, _, _ => true

/-! ### Blocks and their ancestors -/

/-- One block is the parent of another. -/
def Parent (w : World) (a b : ChainHead) : Prop := w.block a ∧ w.block b ∧ b.parentHash = a.hash

/-- A block and what comes before it. -/
abbrev Ancestor (w : World) : ChainHead → ChainHead → Prop := Relation.ReflTransGen (Parent w)

/-- A block, and its ancestors from the first block bound on, are read. -/
structure Covered (w : World) (journal : List BlockRead) (b : ChainHead) : Prop where
  isBlock : w.block b
  read : ∀ a, Ancestor w a b → ∀ n, firstBound journal = some n → n ≤ a.number →
    isRead journal a = true

/-- The hash is of a block that is covered. -/
def Marked (w : World) (journal : List BlockRead) (number : ℕ) (hash : Str) : Prop :=
  ∃ b, Covered w journal b ∧ b.number = number ∧ b.hash = hash

section Blocks

variable {journal : List BlockRead} {r : BlockRead} {a b c : ChainHead}

/-- An ancestor is the block itself or has a smaller number. -/
lemma number_of_ancestor (h : Ancestor w a b) : a = b ∨ a.number < b.number := by
  induction h with
  | refl => exact .inl rfl
  | @tail m b _ hp ih =>
      have hnumber := w.number_eq m b hp.1 hp.2.1 hp.2.2
      rcases ih with rfl | hlt
      · exact .inr (by omega)
      · exact .inr (by omega)

/-- The ancestors of a child are the child and those of its parent. -/
lemma ancestor_cases (hc : w.block c) (hparent : b.parentHash = c.hash) (h : Ancestor w a b) :
    a = b ∨ Ancestor w a c := by
  rcases Relation.ReflTransGen.cases_tail h with heq | ⟨m, hm, hp⟩
  · exact .inl heq.symm
  · obtain rfl : m = c := w.eq_of_hash m c hp.1 hc (hp.2.2.symm.trans hparent)
    exact .inr hm

/-- The blocks of a canonical chain are ancestors of its head. -/
lemma Canonical.ancestor (c : Canonical w) (hb : b ∈ c.blocks) : Ancestor w b c.head := by
  have key : ∀ (l : List ChainHead) (head : ChainHead), (∀ x ∈ head :: l, w.block x) →
      (head :: l).IsChain (fun b a => b.parentHash = a.hash) → b ∈ head :: l →
      Ancestor w b head := by
    intro l
    induction l with
    | nil =>
        intro head _ _ hb
        rw [List.mem_singleton.mp hb]
    | cons x l ih =>
        intro head hblock hlinked hb
        rw [List.isChain_cons_cons] at hlinked
        rcases List.mem_cons.mp hb with rfl | hb
        · exact .refl
        · have hx := ih x (fun y hy => hblock y (List.mem_cons_of_mem _ hy)) hlinked.2 hb
          exact hx.tail ⟨hblock x (by simp), hblock head (by simp), hlinked.1⟩
  exact key c.rest c.head c.isBlock c.linked hb

lemma Canonical.block_of_at {c : Canonical w} {n : ℕ} (h : c.at n = some b) : w.block b :=
  c.isBlock b (List.mem_of_find?_eq_some h)

lemma isRead_append (h : isRead journal b = true) : isRead (journal ++ [r]) b = true := by
  rw [isRead, List.any_append, Bool.or_eq_true]
  exact .inl h

lemma isRead_blockRead (epochId : Str) (b : ChainHead) :
    isRead (journal ++ [blockRead epochId b]) b = true := by
  simp [isRead, blockRead]

lemma firstBound_append (h : journal ≠ []) : firstBound (journal ++ [r]) = firstBound journal := by
  cases journal with
  | nil => exact absurd rfl h
  | cons x journal => rfl

/-- A further record keeps what is covered. -/
lemma Covered.append (h : Covered w journal b) (hne : journal ≠ []) :
    Covered w (journal ++ [r]) b :=
  ⟨h.isBlock, fun a ha n hn hle =>
    isRead_append (h.read a ha n (by rwa [firstBound_append hne] at hn) hle)⟩

lemma Marked.append {number : ℕ} {hash : Str} (h : Marked w journal number hash)
    (hne : journal ≠ []) : Marked w (journal ++ [r]) number hash := by
  obtain ⟨b, hb, heq⟩ := h
  exact ⟨b, hb.append hne, heq⟩

/-- The first block bound is covered by its own read. -/
lemma covered_first (hb : w.block b) (epochId : Str) : Covered w [blockRead epochId b] b := by
  refine ⟨hb, fun a ha n hn hle => ?_⟩
  obtain rfl : b.number = n := Option.some.inj hn
  rcases number_of_ancestor ha with rfl | hlt
  · simp [isRead, blockRead]
  · omega

/-- A child of a covered block is covered by its own read. -/
lemma Covered.child (h : Covered w journal c) (hb : w.block b) (hparent : b.parentHash = c.hash)
    (hne : journal ≠ []) (epochId : Str) : Covered w (journal ++ [blockRead epochId b]) b := by
  refine ⟨hb, fun a ha n hn hle => ?_⟩
  rcases ancestor_cases h.isBlock hparent ha with rfl | hc
  · exact isRead_blockRead epochId a
  · exact isRead_append (h.read a hc n (by rwa [firstBound_append hne] at hn) hle)

end Blocks

/-! ### Invariants -/

/-- What a cursor remembers is covered. -/
structure CursorSound (w : World) (journal : List BlockRead) (c : Cursor) : Prop where
  marked : Marked w journal c.number c.hash
  recent : ∀ r ∈ c.recent, Marked w journal r.number r.hash
  started : journal ≠ []

/-- What a pass knows of the blocks it holds. -/
def PhaseSound (w : World) (journal : List BlockRead) (cursor : Option Cursor) : Phase → Prop
  | .next _ head _ => w.block head
  | .binding _ _ head _ b => w.block head ∧ w.block b ∧ ∀ c, cursor = some c → b.parentHash = c.hash
  | .saving _ _ head _ b => w.block head ∧ Covered w journal b ∧ journal ≠ []
  | _ => True

/-- The cursor file and the journal. -/
structure FilesSound (d : PollerDisk w) : Prop where
  journal : ∀ r ∈ d.journal, Marked w d.journal r.number r.hash
  cursor : ∀ c, d.cursor = some c → CursorSound w d.journal c

/-- The invariant of the poller. -/
structure PollerSound (d : PollerDisk w) (p : Poller) : Prop where
  files : FilesSound d
  cursor : ∀ c, p.cursor = some c → CursorSound w d.journal c
  phase : PhaseSound w d.journal p.cursor p.phase

section Passes

variable {o : PollerOptions} {d d' : PollerDisk w} {p p' : Poller} {c : Cursor} {b head : ChainHead}
  {journal : List BlockRead} {r : BlockRead} {epochId : Str} {done : ℕ}

lemma CursorSound.append (h : CursorSound w journal c) : CursorSound w (journal ++ [r]) c :=
  ⟨h.marked.append h.started, fun m hm => (h.recent m hm).append h.started, by simp⟩

lemma phaseSound_rewindFrom (cursor : Option Cursor) (i : ℕ) :
    PhaseSound w journal cursor (rewindFrom i) := by
  cases i <;> trivial

lemma phaseSound_follow (hhead : w.block head) (hb : w.block b) :
    PhaseSound w journal (some c) (follow c epochId head done b) := by
  rw [follow]
  split
  · exact phaseSound_rewindFrom _ _
  · next hparent =>
      refine ⟨hhead, hb, fun c' hc' => ?_⟩
      rw [← Option.some.inj hc']
      exact not_not.mp hparent

lemma phaseSound_turn (hhead : w.block head) :
    PhaseSound w journal (some c) (turn o c epochId head done) := by
  rw [turn]
  split
  · split
    · exact phaseSound_follow hhead hhead
    · exact hhead
  · trivial

lemma phaseSound_behindLatest (cursor : Option Cursor) (hhead : w.block head) :
    PhaseSound w journal cursor (behindLatest o cursor epochId head) := by
  cases cursor with
  | none => exact ⟨hhead, hhead, fun _ hc => nomatch hc⟩
  | some c =>
      rw [behindLatest]
      split
      · exact phaseSound_rewindFrom _ _
      · exact phaseSound_turn hhead

lemma mem_of_mem_sliceLast {α : Type} {keep : ℕ} {l : List α} {x : α} (h : x ∈ sliceLast keep l) :
    x ∈ l := by
  rw [sliceLast] at h
  split at h
  · exact h
  · exact List.mem_of_mem_drop h

/-- The cursor behind a covered block. -/
lemma cursorSound_boundCursor (hb : Covered w journal b) (hne : journal ≠ [])
    (hcursor : ∀ c, p.cursor = some c → CursorSound w journal c) :
    CursorSound w journal (boundCursor o p.cursor b) := by
  refine ⟨⟨b, hb, rfl, rfl⟩, fun m hm => ?_, hne⟩
  rcases List.mem_append.mp (mem_of_mem_sliceLast hm) with hm | hm
  · cases hc : p.cursor with
    | none =>
        rw [hc] at hm
        exact absurd hm List.not_mem_nil
    | some c =>
        rw [hc] at hm
        exact (hcursor c hc).recent m hm
  · rw [List.mem_singleton.mp hm]
    exact ⟨b, hb, rfl, rfl⟩

/-- A record of a block that follows the cursor, or of the first one. -/
lemma PollerSound.binding {first : Bool} (h : PollerSound d p)
    (hp : p.phase = .binding first epochId head done b)
    (hok : pollerAdmissible .answers d p = true) :
    PollerSound { d with journal := d.journal ++ [blockRead epochId b] }
      { p with phase := .saving first epochId head done b } := by
  obtain ⟨hhead, hb, hparent⟩ : w.block head ∧ w.block b
      ∧ ∀ c, p.cursor = some c → b.parentHash = c.hash := by
    have := h.phase
    rwa [hp] at this
  have hne : d.journal ++ [blockRead epochId b] ≠ [] := by simp
  have hmark : Covered w (d.journal ++ [blockRead epochId b]) b →
      Marked w (d.journal ++ [blockRead epochId b]) b.number b.hash := fun hc => ⟨b, hc, rfl, rfl⟩
  cases hc : p.cursor with
  | none =>
      obtain hnil : d.journal = [] := by
        simpa [pollerAdmissible, hp, hc] using hok
      have hcovered : Covered w (d.journal ++ [blockRead epochId b]) b := by
        rw [hnil]
        exact covered_first hb epochId
      refine ⟨⟨fun r hr => ?_, fun c hdisk => (h.files.cursor c hdisk).append⟩,
        fun c' hc' => (h.cursor c' (hc.trans hc')).append, hhead, hcovered, hne⟩
      rw [hnil, List.nil_append, List.mem_singleton] at hr
      rw [hr]
      exact hmark hcovered
  | some c =>
      have hcursor := h.cursor c hc
      obtain ⟨block, hblock, -, hhash⟩ := hcursor.marked
      have hcovered := hblock.child hb ((hparent c hc).trans hhash.symm) hcursor.started epochId
      refine ⟨⟨fun r hr => ?_, fun c hdisk => (h.files.cursor c hdisk).append⟩,
        fun c' hc' => (h.cursor c' (hc.trans hc')).append, hhead, hcovered, hne⟩
      rcases List.mem_append.mp hr with hr | hr
      · exact (h.files.journal r hr).append hcursor.started
      · rw [List.mem_singleton.mp hr]
        exact hmark hcovered

/-- The walk back takes a cursor that is sound. -/
lemma PollerSound.takeCursor (h : PollerSound d p) (hc : CursorSound w d.journal c) :
    PollerSound (takeCursor c d p).1 (takeCursor c d p).2 := by
  refine ⟨⟨h.files.journal, fun c' hc' => ?_⟩, fun c' hc' => ?_, trivial⟩
  · rw [← Option.some.inj hc']
    exact hc
  · rw [← Option.some.inj hc']
    exact hc

/-- The block a walk back ends at. -/
lemma PollerSound.base (h : PollerSound d p) {base : ChainHead} {n : ℕ} (hc : p.cursor = some c)
    (hp : p.phase = .restarting) (hn : baseNumber c = some n) (hbase : d.chain.at n = some base)
    (hok : pollerAdmissible .answers d p = true) : Covered w d.journal base := by
  have hblock := Canonical.block_of_at hbase
  simp only [pollerAdmissible, hp, hc, hn, Option.bind_some, hbase, Option.all_some,
    Bool.or_eq_true] at hok
  rcases hok with hread | hfirst
  · rw [isRead, List.any_eq_true] at hread
    obtain ⟨r, hr, heq⟩ := hread
    rw [Bool.and_eq_true, decide_eq_true_eq, decide_eq_true_eq] at heq
    obtain ⟨block, hcovered, -, hhash⟩ := h.files.journal r hr
    obtain rfl : block = base :=
      w.eq_of_hash _ _ hcovered.isBlock hblock (hhash.trans heq.2)
    exact hcovered
  · refine ⟨hblock, fun a ha m hm hle => ?_⟩
    rw [hm, Option.all_some, decide_eq_true_eq] at hfirst
    rcases number_of_ancestor ha with rfl | hlt <;> omega

/-- What the pass does with an answer keeps the invariant. -/
lemma PollerSound.answer (h : PollerSound d p) (hok : pollerAdmissible .answers d p = true)
    (ha : answer o d p = some (d', p')) : PollerSound d' p' := by
  rw [ChainPoller.answer.eq_def] at ha
  split at ha
  · cases ha
    exact ⟨h.files, h.cursor, trivial⟩
  · cases ha
    exact ⟨h.files, h.cursor, phaseSound_behindLatest _ (d.chain.isBlock _ List.mem_cons_self)⟩
  · next epochId head done c hp hc =>
      obtain ⟨b, hb, ha⟩ := Option.bind_eq_some_iff.mp ha
      cases ha
      have hhead : w.block head := by
        have := h.phase
        rwa [hp] at this
      refine ⟨h.files, h.cursor, ?_⟩
      rw [hc]
      exact phaseSound_follow hhead (Canonical.block_of_at hb)
  · next hp =>
      cases ha
      exact h.binding hp hok
  · next i c hp hc =>
      obtain ⟨r, hr, ha⟩ := Option.bind_eq_some_iff.mp ha
      obtain ⟨now, hnow, ha⟩ := Option.bind_eq_some_iff.mp ha
      have hcursor := h.cursor c hc
      split at ha
      · cases ha
        refine h.takeCursor ⟨hcursor.recent r (List.mem_of_getElem? hr), fun m hm => ?_,
          hcursor.started⟩
        exact hcursor.recent m (List.mem_of_mem_take hm)
      · cases ha
        exact ⟨h.files, h.cursor, phaseSound_rewindFrom _ _⟩
  · next c hp hc =>
      obtain ⟨n, hn, ha⟩ := Option.bind_eq_some_iff.mp ha
      obtain ⟨base, hbase, ha⟩ := Option.bind_eq_some_iff.mp ha
      cases ha
      have hmarked : Marked w d.journal base.number base.hash :=
        ⟨base, h.base hc hp hn hbase hok, rfl, rfl⟩
      refine h.takeCursor ⟨hmarked, fun m hm => ?_, (h.cursor c hc).started⟩
      rw [List.mem_singleton.mp hm]
      exact hmarked
  · exact nomatch ha

/-- Every admissible event keeps the invariant. -/
lemma PollerSound.fire {e : PollerEvent w} {new : List Empty} (h : PollerSound d p)
    (hok : pollerAdmissible e d p = true) (hfire : pollerFire o e d p = some (new, d', p')) :
    PollerSound d' p' := by
  rw [pollerFire.eq_def] at hfire
  split at hfire
  · cases hfire
    exact ⟨h.files, h.cursor, trivial⟩
  · cases hfire
    refine ⟨h.files, h.cursor, ?_⟩
    dsimp only
    split <;> trivial
  · obtain ⟨⟨d₁, p₁⟩, ha, heq⟩ := Option.map_eq_some_iff.mp hfire
    cases heq
    exact h.answer hok ha
  · exact nomatch hfire
  · exact nomatch hfire
  · cases hfire
    exact ⟨h.files, h.cursor, trivial⟩
  · next first epochId head done b hp =>
      cases hfire
      obtain ⟨hhead, hb, hne⟩ : w.block head ∧ Covered w d.journal b ∧ d.journal ≠ [] := by
        have := h.phase
        rwa [hp] at this
      have hcursor := @cursorSound_boundCursor w o p b d.journal hb hne h.cursor
      refine ⟨⟨h.files.journal, fun c hc => ?_⟩, fun c hc => ?_, ?_⟩
      · rw [← Option.some.inj hc]
        exact hcursor
      · rw [← Option.some.inj hc]
        exact hcursor
      · dsimp only
        split
        · trivial
        · exact phaseSound_turn hhead
  · cases hfire
    exact ⟨⟨h.files.journal, h.files.cursor⟩, h.cursor, h.phase⟩
  · exact nomatch hfire

/-- **No block is skipped.** Whenever a pass has returned true with the cursor at the head, every
block of the chain from the first one bound on is read, while no block is bound without a cursor
behind a record, and no walk back past every hash ends at a block that was never read. -/
theorem no_block_skipped {ls : List Empty}
    (h : (poller o fun e d p => pollerAdmissible e d p = true).Reach ls d p) (hc : CaughtUp d p) :
    NothingSkipped d := by
  have hsound : PollerSound d p := by
    refine Machine.Reach.invariant (D := fun _ d => FilesSound d) (I := fun _ d p => PollerSound d p)
      ?_ ?_ ?_ ?_ h
    · rintro d ⟨hcursor, hjournal⟩
      refine ⟨fun r hr => ?_, fun c hc => ?_⟩
      · rw [hjournal] at hr
        exact absurd hr List.not_mem_nil
      · rw [hcursor] at hc
        exact nomatch hc
    · rintro _ d p hfiles rfl
      exact ⟨hfiles, hfiles.cursor, trivial⟩
    · intro e _ d p new d' p' hI hok hfire
      exact hI.fire hok hfire
    · exact fun _ d p hI => hI.files
  obtain ⟨-, c, hcursor, -, hhash⟩ := hc
  obtain ⟨block, hcovered, -, hblock⟩ := (hsound.cursor c hcursor).marked
  obtain rfl : block = d.chain.head := w.eq_of_hash _ _ hcovered.isBlock
    (d.chain.isBlock _ List.mem_cons_self) (hblock.trans hhash)
  exact fun n hn b hb hle => hcovered.read b (d.chain.ancestor hb) n hn hle

end Passes

/-! ### Three runs -/

/-- A block of a sample chain, by its number and two digits for its parent and itself. -/
def sampleBlock (number : ℕ) (parent self : ℕ) : ChainHead :=
  ⟨.base, js "eip155:8453", number, decimal self, decimal parent, number⟩

/-- A chain of four blocks, and two that replace its blocks 2 and 3. -/
def sampleBlocks : List ChainHead :=
  [sampleBlock 0 9 0, sampleBlock 1 0 1, sampleBlock 2 1 2, sampleBlock 3 2 3, sampleBlock 2 1 4,
    sampleBlock 3 4 5]

/-- The world of these blocks. -/
def sampleWorld : World where
  block b := b ∈ sampleBlocks
  eq_of_hash a b ha hb :=
    (by decide : ∀ a ∈ sampleBlocks, ∀ b ∈ sampleBlocks, a.hash = b.hash → a = b) a ha b hb
  number_eq a b ha hb :=
    (by decide : ∀ a ∈ sampleBlocks, ∀ b ∈ sampleBlocks, b.parentHash = a.hash →
      b.number = a.number + 1) a ha b hb

def chainOne : Canonical sampleWorld :=
  ⟨sampleBlock 1 0 1, [sampleBlock 0 9 0], (by decide : ∀ b ∈ _, b ∈ sampleBlocks),
    by decide, rfl⟩

def chainTwo : Canonical sampleWorld :=
  ⟨sampleBlock 2 1 2, [sampleBlock 1 0 1, sampleBlock 0 9 0],
    (by decide : ∀ b ∈ _, b ∈ sampleBlocks), by decide, rfl⟩

def chainThree : Canonical sampleWorld :=
  ⟨sampleBlock 3 2 3, [sampleBlock 2 1 2, sampleBlock 1 0 1, sampleBlock 0 9 0],
    (by decide : ∀ b ∈ _, b ∈ sampleBlocks), by decide, rfl⟩

def chainOther : Canonical sampleWorld :=
  ⟨sampleBlock 3 4 5, [sampleBlock 2 1 4, sampleBlock 1 0 1, sampleBlock 0 9 0],
    (by decide : ∀ b ∈ _, b ∈ sampleBlocks), by decide, rfl⟩

/-- A cursor and a head. -/
def standing (d : PollerDisk w) (p : Poller) : Phase × Option Mark × Mark :=
  (p.phase, p.cursor.map fun c => ⟨c.number, c.hash⟩, ⟨d.chain.head.number, d.chain.head.hash⟩)

lemma caughtUp_of_standing {d : PollerDisk w} {p : Poller} {m : Mark}
    (h : standing d p = (.idle (some true), some m, m)) : CaughtUp d p := by
  obtain ⟨hphase, hcursor, hhead⟩ : p.phase = .idle (some true)
      ∧ p.cursor.map (fun c => (⟨c.number, c.hash⟩ : Mark)) = some m
      ∧ (⟨d.chain.head.number, d.chain.head.hash⟩ : Mark) = m := by
    simpa [standing] using h
  obtain ⟨c, hc, hm⟩ := Option.map_eq_some_iff.mp hcursor
  have heq := Mark.mk.inj (hm.trans hhead.symm)
  exact ⟨hphase, c, hc, heq⟩

lemma not_nothingSkipped {d : PollerDisk w} {n m : ℕ} {b : ChainHead}
    (hfirst : firstBound d.journal = some n) (hat : d.chain.at m = some b) (hle : n ≤ b.number)
    (hread : isRead d.journal b = false) : ¬ NothingSkipped d := fun h => by
  have := h n hfirst b (List.mem_of_find?_eq_some hat) hle
  rw [hread] at this
  exact nomatch this

/-- The first block, two more, and a reorg of both that the poller remembers. -/
theorem no_block_skipped_reorg : ∃ (d : PollerDisk sampleWorld) (p : Poller),
    (poller ⟨500, 2⟩ fun e d p => pollerAdmissible e d p = true).Reach [] d p ∧ CaughtUp d p
      ∧ d.journal.length = 5 ∧ NothingSkipped d := by
  have hstart : (poller ⟨500, 2⟩ fun e d p => pollerAdmissible e d p = true).Reach []
      (⟨none, [], chainOne⟩ : PollerDisk sampleWorld) ⟨none, false, .idle none⟩ :=
    .start ⟨rfl, rfl⟩ rfl
  have hruns : (Machine.runAll (pollerFire ⟨500, 2⟩)
      (fun e (d : PollerDisk sampleWorld) p => pollerAdmissible e d p = true)
      [.pass (some []), .answers, .answers, .answers, .saves, .evolves chainThree, .pass (some []),
        .answers, .answers, .answers, .saves, .answers, .saves, .evolves chainOther, .pass (some []),
        .answers, .answers, .answers, .answers, .pass (some []), .answers, .answers, .answers, .saves,
        .answers, .saves] ⟨none, [], chainOne⟩ ⟨none, false, .idle none⟩).map
      (fun r => (standing r.2.1 r.2.2, r.2.1.journal.length))
      = some ((.idle (some true), some ⟨3, decimal 5⟩, ⟨3, decimal 5⟩), 5) := by decide
  obtain ⟨⟨ls, d, p⟩, hrun, heq⟩ := Option.map_eq_some_iff.mp hruns
  obtain ⟨hstanding, hlen⟩ := Prod.mk.inj heq
  obtain rfl : ls = [] := List.eq_nil_iff_forall_not_mem.mpr fun l => l.elim
  have hreach := hstart.runAll hrun
  have hcaught := caughtUp_of_standing hstanding
  exact ⟨d, p, hreach, hcaught, hlen, no_block_skipped hreach hcaught⟩

/-- Two reorgs of one block each: the chain loses its head, and then the block before it. The
poller walks back past its one hash to a block that it never read. -/
theorem block_skipped : ¬ ∀ (w : World) (o : PollerOptions) (ls : List Empty) (d : PollerDisk w)
    (p : Poller), (poller o fun e d p => shallow o e d p = true).Reach ls d p → CaughtUp d p →
      NothingSkipped d := by
  intro h
  have hstart : (poller ⟨500, 1⟩ fun e d p => shallow ⟨500, 1⟩ e d p = true).Reach []
      (⟨none, [], chainOne⟩ : PollerDisk sampleWorld) ⟨none, false, .idle none⟩ :=
    .start ⟨rfl, rfl⟩ rfl
  have hruns : (Machine.runAll (pollerFire ⟨500, 1⟩)
      (fun e (d : PollerDisk sampleWorld) p => shallow ⟨500, 1⟩ e d p = true)
      [.pass (some []), .answers, .answers, .answers, .saves, .evolves chainThree, .pass (some []),
        .answers, .answers, .answers, .saves, .answers, .saves, .evolves chainTwo, .evolves chainOther,
        .pass (some []), .answers, .answers, .answers, .pass (some []), .answers, .answers, .saves]
      ⟨none, [], chainOne⟩ ⟨none, false, .idle none⟩).map
      (fun r => (standing r.2.1 r.2.2, firstBound r.2.1.journal, r.2.1.chain.at 2,
        isRead r.2.1.journal (sampleBlock 2 1 4)))
      = some ((.idle (some true), some ⟨3, decimal 5⟩, ⟨3, decimal 5⟩), some 1,
        some (sampleBlock 2 1 4), false) := by decide
  obtain ⟨⟨ls, d, p⟩, hrun, heq⟩ := Option.map_eq_some_iff.mp hruns
  simp only [Prod.mk.injEq] at heq
  obtain ⟨hstanding, hfirst, hat, hread⟩ := heq
  exact not_nothingSkipped hfirst hat (by decide) hread
    (h _ _ _ _ _ (hstart.runAll hrun) (caughtUp_of_standing hstanding))

/-- A crash between the first record and the first cursor: the next process starts at the head. -/
theorem block_skipped_crash : ∃ (d : PollerDisk sampleWorld) (p : Poller),
    (poller ⟨500, 2⟩ fun e d p => shallow ⟨500, 2⟩ e d p = true).Reach [] d p ∧ CaughtUp d p
      ∧ ¬ NothingSkipped d := by
  have hstart : (poller ⟨500, 2⟩ fun e d p => shallow ⟨500, 2⟩ e d p = true).Reach []
      (⟨none, [], chainOne⟩ : PollerDisk sampleWorld) ⟨none, false, .idle none⟩ :=
    .start ⟨rfl, rfl⟩ rfl
  obtain ⟨p, hfirst⟩ : ∃ p, Machine.runAll (pollerFire ⟨500, 2⟩)
      (fun e (d : PollerDisk sampleWorld) p => shallow ⟨500, 2⟩ e d p = true)
      [.pass (some []), .answers, .answers, .answers] ⟨none, [], chainOne⟩ ⟨none, false, .idle none⟩
      = some ([], ⟨none, [blockRead [] (sampleBlock 1 0 1)], chainOne⟩, p) := ⟨_, rfl⟩
  have hcrash : (poller ⟨500, 2⟩ fun e d p => shallow ⟨500, 2⟩ e d p = true).Reach []
      (⟨none, [blockRead [] (sampleBlock 1 0 1)], chainOne⟩ : PollerDisk sampleWorld)
      ⟨none, false, .idle none⟩ := (hstart.runAll hfirst).crash trivial rfl
  have hruns : (Machine.runAll (pollerFire ⟨500, 2⟩)
      (fun e (d : PollerDisk sampleWorld) p => shallow ⟨500, 2⟩ e d p = true)
      [.evolves chainThree, .pass (some []), .answers, .answers, .answers, .saves]
      ⟨none, [blockRead [] (sampleBlock 1 0 1)], chainOne⟩ ⟨none, false, .idle none⟩).map
      (fun r => (standing r.2.1 r.2.2, firstBound r.2.1.journal, r.2.1.chain.at 2,
        isRead r.2.1.journal (sampleBlock 2 1 2)))
      = some ((.idle (some true), some ⟨3, decimal 3⟩, ⟨3, decimal 3⟩), some 1,
        some (sampleBlock 2 1 2), false) := by decide
  obtain ⟨⟨ls, d, p⟩, hrun, heq⟩ := Option.map_eq_some_iff.mp hruns
  simp only [Prod.mk.injEq] at heq
  obtain ⟨hstanding, hbound, hat, hread⟩ := heq
  obtain rfl : ls = [] := List.eq_nil_iff_forall_not_mem.mpr fun l => l.elim
  exact ⟨d, p, hcrash.runAll hrun, caughtUp_of_standing hstanding,
    not_nothingSkipped hbound hat (by decide) hread⟩

end ChainPoller

end BitGraph
