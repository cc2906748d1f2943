import BitGraph.Ceiling.LifeCycle
import BitGraph.Js.Lines

/-!
The records of the ceiling writer.

A record is a queue line that names its proof hash. Once the cursor file is past its line, the
record has to be in the backlog or in a batch that is not dropped. `reorged` writes the dropped
batch before the backlog that takes its items back; a process that dies or throws between the two
loses them (`records_lost`).

* **Where a record is.** `HasKey` and `InBatches`, by proof hash.
* **Invariant.** `Accounted` accounts for the records before the cursor, for the backlog file
  against the backlog in memory, and for the keys of `anchored`. While `reorged` is half done,
  the items of its batch are in limbo.
* **Result.** `records_kept`: no record is lost in a run that does not stop `reorged` half way
  and gives every batch an id of its own.
-/

namespace BitGraph

open Js

namespace Ceiling

/-! ### Where a record is -/

/-- An item with this proof hash. -/
def HasKey (l : List Value) (h : Str) : Prop := ∃ i ∈ l, proofHash i = .str h

/-- An item of a batch that is not dropped. -/
def InBatches (l : List Batch) (h : Str) : Prop := ∃ b ∈ l, b.state ≠ .dropped ∧ HasKey b.items h

/-- The values of the lines of a text. -/
def lineValues (text : Str) : List Value := (splitLines text).filterMap parse

/-- A line before an offset of the queue file is a record with this proof hash. -/
def RecordBefore (queue : Bytes) (n : ℕ) (h : Str) : Prop :=
  HasKey (lineValues (bufferToString (queue.take n))) h

lemma hasKey_append {l m : List Value} {h : Str} :
    HasKey (l ++ m) h ↔ HasKey l h ∨ HasKey m h := by
  simp only [HasKey, List.mem_append]
  constructor
  · rintro ⟨i, hi | hi, hk⟩
    · exact Or.inl ⟨i, hi, hk⟩
    · exact Or.inr ⟨i, hi, hk⟩
  · rintro (⟨i, hi, hk⟩ | ⟨i, hi, hk⟩)
    · exact ⟨i, Or.inl hi, hk⟩
    · exact ⟨i, Or.inr hi, hk⟩

/-- A file keeps the proof hashes of its items. -/
lemma hasKey_jsonForm {l : List Value} {h : Str} :
    HasKey (l.map Value.jsonForm) h ↔ HasKey l h := by
  have hkey : ∀ i : Value, proofHash i.jsonForm = .str h ↔ proofHash i = .str h := fun i => by
    rw [proofHash, Value.get_jsonForm, Value.jsonForm_eq_str, proofHash]
  simp only [HasKey, List.mem_map]
  constructor
  · rintro ⟨_, ⟨i, hi, rfl⟩, hk⟩
    exact ⟨i, hi, (hkey i).mp hk⟩
  · rintro ⟨i, hi, hk⟩
    exact ⟨_, ⟨i, hi, rfl⟩, (hkey i).mpr hk⟩

lemma inBatches_stored {l : List Batch} {h : Str} :
    InBatches (l.map Batch.stored) h ↔ InBatches l h := by
  constructor
  · rintro ⟨_, hmem, hstate, hk⟩
    obtain ⟨b, hb, rfl⟩ := List.mem_map.mp hmem
    exact ⟨b, hb, hstate, hasKey_jsonForm.mp hk⟩
  · rintro ⟨b, hb, hstate, hk⟩
    exact ⟨b.stored, List.mem_map_of_mem hb, hstate, hasKey_jsonForm.mpr hk⟩

lemma inBatches_perm {l m : List Batch} (hp : l.Perm m) {h : Str} : InBatches l h ↔ InBatches m h := by
  simp only [InBatches, hp.mem_iff]

/-- A text is the same key as nothing else. -/
lemma sameKey_str {v : Value} {h : Str} : sameKey v (.str h) = true ↔ v = .str h := by
  cases v with
  | arr | obj => simp [sameKey]
  | _ => rw [sameKey, beq_iff_eq] <;> simp

lemma holdsKey_str {l : List Value} {h : Str} : holdsKey l (.str h) = true ↔ HasKey l h := by
  simp [holdsKey, HasKey, List.any_eq_true, sameKey_str]

/-! ### The map of anchored records -/

/-- A key of the map. -/
def Anchored.Has (m : Anchored) (h : Str) : Prop := ∃ e ∈ m, e.1 = .str h

lemma Anchored.has_of_get? {m : Anchored} {h : Str} {p : Str → Bool}
    (hm : (m.get? (.str h)).any p = true) : m.Has h := by
  cases hf : m.find? fun e => sameKey e.1 (.str h) with
  | none => simp [Anchored.get?, hf] at hm
  | some e => exact ⟨e, List.mem_of_find?_eq_some hf, sameKey_str.mp (by simpa using List.find?_some hf)⟩

lemma Anchored.has_set {m : Anchored} {k : Value} {id h : Str} (hm : (m.set k id).Has h) :
    m.Has h ∨ k = .str h := by
  obtain ⟨e, he, hk⟩ := hm
  rcases List.mem_append.mp he with he | he
  · exact Or.inl ⟨e, (List.mem_filter.mp he).1, hk⟩
  · rw [List.mem_singleton.mp he] at hk
    exact Or.inr hk

lemma Anchored.has_delete {m : Anchored} {k : Value} {h : Str} (hm : (m.delete k).Has h) :
    m.Has h ∧ k ≠ .str h := by
  obtain ⟨e, he, hk⟩ := hm
  obtain ⟨hmem, hne⟩ := List.mem_filter.mp he
  refine ⟨⟨e, hmem, hk⟩, ?_⟩
  rintro rfl
  rw [hk, sameKey_str.mpr rfl] at hne
  cases hne

lemma Anchored.has_setAll {m : Anchored} {b : Batch} {h : Str} (hm : (m.setAll b).Has h) :
    m.Has h ∨ HasKey b.items h := by
  suffices hfold : ∀ (l : List Value) (m : Anchored),
      (l.foldl (fun m i => m.set (proofHash i) b.id) m).Has h → m.Has h ∨ HasKey l h from
    hfold b.items m hm
  intro l
  induction l with
  | nil => exact fun m hm => Or.inl hm
  | cons i l ih =>
      intro m hm
      rcases ih _ hm with hm | ⟨j, hj, hk⟩
      · rcases Anchored.has_set hm with hm | hk
        · exact Or.inl hm
        · exact Or.inr ⟨i, by simp, hk⟩
      · exact Or.inr ⟨j, by simp [hj], hk⟩

/-- What is deleted is gone. -/
lemma Anchored.has_deleteAll {m : Anchored} {items : List Value} {h : Str}
    (hm : Anchored.Has (items.foldl (fun m i => Anchored.delete m (proofHash i)) m) h) :
    m.Has h ∧ ¬ HasKey items h := by
  induction items generalizing m with
  | nil => exact ⟨hm, fun ⟨_, hi, _⟩ => absurd hi List.not_mem_nil⟩
  | cons i items ih =>
      obtain ⟨hdel, hnot⟩ := ih hm
      obtain ⟨hm, hne⟩ := Anchored.has_delete hdel
      refine ⟨hm, ?_⟩
      rintro ⟨j, hj, hk⟩
      rcases List.mem_cons.mp hj with rfl | hj
      · exact hne hk
      · exact hnot ⟨j, hj, hk⟩

/-- `load` anchors items of batches that are not dropped. -/
lemma load_anchored {d : Disk} {batches : List Batch} {h : Str}
    (hm : (load d batches).anchored.Has h) : InBatches batches h := by
  suffices hfold : ∀ (l : List Batch) (m : Anchored),
      Anchored.Has (l.foldl (fun m b => if b.state = .dropped then m else m.setAll b) m) h →
        m.Has h ∨ InBatches l h by
    rcases hfold batches [] hm with ⟨e, he, -⟩ | hin
    · exact absurd he List.not_mem_nil
    · exact hin
  intro l
  induction l with
  | nil => exact fun m hm => Or.inl hm
  | cons b l ih =>
      intro m hm
      rcases ih _ hm with hm | ⟨c, hc, hstate, hk⟩
      · dsimp only at hm
        by_cases hb : b.state = .dropped
        · rw [if_pos hb] at hm
          exact Or.inl hm
        · rw [if_neg hb] at hm
          rcases Anchored.has_setAll hm with hm | hk
          · exact Or.inl hm
          · exact Or.inr ⟨b, by simp, hb, hk⟩
      · exact Or.inr ⟨c, by simp [hc], hstate, hk⟩

/-! ### Ingest -/

/-- Ingest only adds to the backlog. -/
lemma ingestLines_keeps {anchored : Anchored} {backlog backlog' : List Value} {lines : List Str}
    {done : Bool} (h : ingestLines anchored backlog lines = (backlog', done)) {k : Str}
    (hk : HasKey backlog k) : HasKey backlog' k := by
  induction lines generalizing backlog with
  | nil =>
      cases h
      exact hk
  | cons line lines ih =>
      rw [ingestLines] at h
      split at h
      · exact ih h hk
      · split at h
        · exact ih h hk
        · cases h
          exact hk
        · split at h
          · exact ih h hk
          · split at h
            · exact ih h hk
            · exact ih h (hasKey_append.mpr (Or.inl hk))

/-- Every record of the lines is in the backlog afterwards, or is anchored. -/
lemma ingestLines_takes {anchored : Anchored} {backlog backlog' : List Value} {lines : List Str}
    (h : ingestLines anchored backlog lines = (backlog', true)) {k : Str}
    (hk : HasKey (lines.filterMap parse) k) : HasKey backlog' k ∨ anchored.Has k := by
  induction lines generalizing backlog with
  | nil =>
      obtain ⟨i, hi, -⟩ := hk
      exact absurd hi List.not_mem_nil
  | cons line lines ih =>
      rw [ingestLines] at h
      split at h
      · next hblank =>
          rw [List.filterMap_cons, parse_of_trim hblank] at hk
          exact ih h hk
      · split at h
        · next hparse =>
            rw [List.filterMap_cons, hparse] at hk
            exact ih h hk
        · cases h
        · next item _ hparse =>
            rw [List.filterMap_cons, hparse] at hk
            obtain ⟨i, hi, hik⟩ := hk
            rcases List.mem_cons.mp hi with rfl | hi
            · -- the item of this line: it is there already, anchored, or added now
              rw [hik] at h
              split at h
              · next hthere => exact Or.inl (ingestLines_keeps h (holdsKey_str.mp hthere))
              · split at h
                · next hanch => exact Or.inr (Anchored.has_of_get? hanch)
                · exact Or.inl (ingestLines_keeps h ⟨i, by simp, hik⟩)
            · split at h
              · exact ih h ⟨i, hi, hik⟩
              · split at h
                · exact ih h ⟨i, hi, hik⟩
                · exact ih h ⟨i, hi, hik⟩

/-- The records before the next offset are those before this one and those of the text read. -/
lemma recordBefore_advance {queue : Bytes} {n : ℕ} (hn : Boundary queue n) (hq : CutText queue)
    {k : Str} (h : RecordBefore queue
      (n + (utf8Encode (uptoLastNewline (bufferToString (queue.drop n)))).length) k) :
    RecordBefore queue n k
      ∨ HasKey (lineValues (uptoLastNewline (bufferToString (queue.drop n)))) k := by
  rw [RecordBefore, (hn.advance hq).2, lineValues] at h
  obtain ⟨-, ds, hds, htake, hend⟩ := hn
  rcases hend with rfl | ⟨es, rfl⟩
  · rw [htake] at h
    exact Or.inr h
  · have hes : bufferToString (queue.take n) = es.flatMap units ++ [10] := by
      rw [htake, bufferToString_flatMap hds, List.flatMap_append]
      rfl
    rw [hes, List.append_assoc, List.singleton_append, splitLines_append_newline,
      List.filterMap_append, hasKey_append] at h
    rw [RecordBefore, hes, lineValues, splitLines_append_newline, List.filterMap_append,
      hasKey_append]
    exact h.imp_left Or.inl

/-! ### Invariant -/

/-- The items of a dropped batch that are not back in the backlog yet. -/
def Phase.limbo : Phase → List Value
  | .reorging b _ _ _ => b.items
  | _ => []

/-- How far the backlog file has taken the queue file. -/
def Proc.readTo (p : Proc) : ℕ :=
  match p.phase with
  | .ingested c => c
  | _ => p.cursor

/-- The batch that `startBatch` is writing. -/
def Phase.starting : Phase → List Batch
  | .created b _ | .unqueued b _ => [b]
  | _ => []

/-- In a batch that is not dropped, or in limbo. -/
def Held (p : Proc) (h : Str) : Prop := InBatches p.batches h ∨ HasKey p.phase.limbo h

/-- Every record read is accounted for. -/
structure Accounted (d : Disk) (p : Proc) : Prop where
  text : CutText d.queue
  cursor : d.cursor = p.cursor
  boundary : Boundary d.queue p.cursor
  readTo : Boundary d.queue p.readTo
  before : ∀ h, RecordBefore d.queue p.cursor h → HasKey d.backlog h ∨ Held p h
  read : ∀ h, RecordBefore d.queue p.readTo h → HasKey d.backlog h ∨ Held p h
  file : ∀ h, HasKey d.backlog h → HasKey p.backlog h ∨ Held p h
  anchored : ∀ h, p.anchored.Has h → Held p h
  starting : ∀ b ∈ p.phase.starting, b ∈ p.batches ∧ b.state ≠ .dropped

/-- What the disk has to hold for the next process. -/
structure Disk.Accounts (d : Disk) : Prop where
  text : CutText d.queue
  boundary : Boundary d.queue d.cursor
  before : ∀ h, RecordBefore d.queue d.cursor h → HasKey d.backlog h ∨ InBatches d.batches h

variable {cfg : Config} {d d' : Disk} {p p' : Proc} {ls : List Label}

lemma recordBefore_append {queue bytes : Bytes} {n : ℕ} (hn : n ≤ queue.length) {h : Str} :
    RecordBefore (queue ++ bytes) n h ↔ RecordBefore queue n h := by
  rw [RecordBefore, RecordBefore, List.take_append_of_le_length hn]

lemma Disk.Accounts.boot (h : d.Accounts) {batches : List Batch} (hp : batches.Perm d.batches) :
    Accounted d (load d batches) where
  text := h.text
  cursor := rfl
  boundary := h.boundary
  readTo := h.boundary
  before k hk := (h.before k hk).imp_right fun hin => Or.inl ((inBatches_perm hp).mpr hin)
  read k hk := (h.before k hk).imp_right fun hin => Or.inl ((inBatches_perm hp).mpr hin)
  file _ hk := Or.inl hk
  anchored _ hk := Or.inl (load_anchored hk)
  starting _ hb := absurd hb List.not_mem_nil

/-- The parent appends. -/
lemma Accounted.append (h : Accounted d p) {bytes : Bytes} (hb : CutText (d.queue ++ bytes)) :
    Accounted { d with queue := d.queue ++ bytes } p where
  text := hb
  cursor := h.cursor
  boundary := h.boundary.append bytes
  readTo := h.readTo.append bytes
  before k hk := h.before k ((recordBefore_append h.boundary.1).mp hk)
  read k hk := h.read k ((recordBefore_append h.readTo.1).mp hk)
  file := h.file
  anchored := h.anchored
  starting := h.starting

/-- The process goes on between two operations. -/
lemma Accounted.pass (h : Accounted d p) {q : Phase} (hp : p.phase.settled = true)
    (hq : q.settled = true) : Accounted d (p.at q) := by
  have hlimbo : ∀ {r : Phase}, r.settled = true → r.limbo = [] ∧ r.starting = [] := by
    intro r hr
    cases r with
    | ingested | created | unqueued | reorging => cases hr
    | _ => exact ⟨rfl, rfl⟩
  have hread : (p.at q).readTo = p.cursor := by
    cases q with
    | ingested => cases hq
    | _ => rfl
  have held : ∀ k, Held p k → Held (p.at q) k := by
    intro k hk
    rw [Held, (hlimbo hp).1] at hk
    rw [Held, show (p.at q).phase.limbo = [] from (hlimbo hq).1]
    exact hk
  exact {
    text := h.text
    cursor := h.cursor
    boundary := h.boundary
    readTo := by rw [hread]; exact h.boundary
    before := fun k hk => (h.before k hk).imp_right (held k)
    read := fun k hk => (h.before k (by rwa [hread] at hk)).imp_right (held k)
    file := fun k hk => (h.file k hk).imp_right (held k)
    anchored := fun k hk => held k (h.anchored k hk)
    starting := fun b hb => by
      rw [show (p.at q).phase.starting = [] from (hlimbo hq).2] at hb
      exact absurd hb List.not_mem_nil }

/-- Ingest adds to the backlog in memory. -/
lemma Accounted.interrupt (h : Accounted d p) {backlog : List Value} {lines : List Str} {done : Bool}
    (hp : p.phase = .idle) (hl : ingestLines p.anchored p.backlog lines = (backlog, done)) :
    Accounted d { p with backlog := backlog, phase := .idle } := by
  have held : ∀ k, Held p k → Held { p with backlog := backlog, phase := .idle } k := by
    intro k hk
    rw [Held, hp] at hk
    exact hk
  exact {
    text := h.text
    cursor := h.cursor
    boundary := h.boundary
    readTo := h.boundary
    before := fun k hk => (h.before k hk).imp_right (held k)
    read := fun k hk => (h.before k hk).imp_right (held k)
    file := fun k hk => (h.file k hk).imp (ingestLines_keeps hl) (held k)
    anchored := fun k hk => held k (h.anchored k hk)
    starting := fun b hb => absurd hb List.not_mem_nil }

/-- Ingest saves the backlog. -/
lemma Accounted.ingest (h : Accounted d p) {backlog : List Value} (hp : p.phase = .idle)
    (hl : ingestLines p.anchored p.backlog
      (splitLines (uptoLastNewline (bufferToString (d.queue.drop p.cursor)))) = (backlog, true)) :
    Accounted (d.saveBacklog backlog)
      { p with
        backlog := backlog
        phase := .ingested (p.cursor
          + (utf8Encode (uptoLastNewline (bufferToString (d.queue.drop p.cursor)))).length) } := by
  have held : ∀ {k}, Held p k → InBatches p.batches k := by
    intro k hk
    rw [Held, hp] at hk
    rcases hk with hk | ⟨i, hi, -⟩
    · exact hk
    · exact absurd hi List.not_mem_nil
  have before : ∀ k, RecordBefore d.queue p.cursor k →
      HasKey (backlog.map Value.jsonForm) k ∨ InBatches p.batches k := by
    intro k hk
    rw [hasKey_jsonForm]
    rcases h.before k hk with hk | hk
    · exact (h.file k hk).imp (ingestLines_keeps hl) held
    · exact Or.inr (held hk)
  exact {
    text := h.text
    cursor := h.cursor
    boundary := h.boundary
    readTo := (h.boundary.advance h.text).1
    before := fun k hk => (before k hk).imp_right Or.inl
    read := fun k hk => by
      rcases recordBefore_advance h.boundary h.text hk with hk | hk
      · exact (before k hk).imp_right Or.inl
      · rcases ingestLines_takes hl hk with hk | hk
        · exact Or.inl (hasKey_jsonForm.mpr hk)
        · exact Or.inr (Or.inl (held (h.anchored k hk)))
    file := fun k hk => Or.inl (hasKey_jsonForm.mp hk)
    anchored := fun k hk => Or.inl (held (h.anchored k hk))
    starting := fun b hb => absurd hb List.not_mem_nil }

/-- The cursor follows. -/
lemma Accounted.saveCursor (h : Accounted d p) {c : ℕ} (hp : p.phase = .ingested c) :
    Accounted (saveCursor c d p).1 (saveCursor c d p).2 := by
  have hread : p.readTo = c := by rw [Proc.readTo, hp]
  have held : ∀ k, Held p k → Held (Ceiling.saveCursor c d p).2 k := by
    intro k hk
    rw [Held, hp] at hk
    exact hk
  exact {
    text := h.text
    cursor := rfl
    boundary := hread ▸ h.readTo
    readTo := hread ▸ h.readTo
    before := fun k hk => (h.read k (by rw [hread]; exact hk)).imp_right (held k)
    read := fun k hk => (h.read k (by rw [hread]; exact hk)).imp_right (held k)
    file := fun k hk => (h.file k hk).imp_right (held k)
    anchored := fun k hk => held k (h.anchored k hk)
    starting := fun b hb => absurd hb List.not_mem_nil }

/-- A batch file is written for a batch with a new id. -/
lemma Accounted.create (h : Accounted d p) {b : Batch} {payload : Bytes} (hp : p.phase = .ready)
    (hnew : ∀ x ∈ p.batches, x.id ≠ b.id) (hb : b.state = .sending) :
    Accounted (d.saveBatch b) ((p.saveBatch b).at (.created b payload)) := by
  have held : ∀ k, Held p k → Held ((p.saveBatch b).at (.created b payload)) k := by
    intro k hk
    rw [Held, hp] at hk
    rcases hk with ⟨x, hx, hstate, hk⟩ | ⟨i, hi, -⟩
    · exact Or.inl ⟨x, mem_setBatch.mpr (Or.inr ⟨hx, hnew x hx⟩), hstate, hk⟩
    · exact absurd hi List.not_mem_nil
  exact {
    text := h.text
    cursor := h.cursor
    boundary := h.boundary
    readTo := h.boundary
    before := fun k hk => (h.before k hk).imp_right (held k)
    read := fun k hk => (h.before k hk).imp_right (held k)
    file := fun k hk => (h.file k hk).imp_right (held k)
    anchored := fun k hk => held k (h.anchored k hk)
    starting := fun x hx => by
      rw [List.mem_singleton.mp hx]
      exact ⟨mem_setBatch.mpr (Or.inl rfl), by simp [hb]⟩ }

/-- The items of a new batch leave the backlog. -/
lemma Accounted.unqueue (h : Accounted d p) {b : Batch} {payload : Bytes}
    (hp : p.phase = .created b payload) :
    Accounted (unqueue b payload d p).1 (unqueue b payload d p).2 := by
  obtain ⟨hb, hstate⟩ := h.starting b (by rw [hp]; exact List.mem_singleton.mpr rfl)
  have held : ∀ k, Held p k → Held (Ceiling.unqueue b payload d p).2 k := by
    intro k hk
    rw [Held, hp] at hk
    exact hk
  -- an item that leaves the backlog is an item of the batch
  have leaves : ∀ k, HasKey p.backlog k →
      HasKey (Ceiling.unqueue b payload d p).2.backlog k
        ∨ Held (Ceiling.unqueue b payload d p).2 k := by
    rintro k ⟨i, hi, hk⟩
    by_cases hin : HasKey b.items k
    · exact Or.inr (Or.inl ⟨b, hb, hstate, hin⟩)
    · refine Or.inl ⟨i, List.mem_filter.mpr ⟨hi, ?_⟩, hk⟩
      rw [hk, Bool.not_eq_true', Bool.eq_false_iff, Ne, holdsKey_str]
      exact hin
  have file : ∀ k, HasKey d.backlog k → HasKey (Ceiling.unqueue b payload d p).1.backlog k
      ∨ Held (Ceiling.unqueue b payload d p).2 k := by
    intro k hk
    rcases h.file k hk with hk | hk
    · exact (leaves k hk).imp_left hasKey_jsonForm.mpr
    · exact Or.inr (held k hk)
  have before : ∀ k, RecordBefore d.queue p.cursor k →
      HasKey (Ceiling.unqueue b payload d p).1.backlog k
        ∨ Held (Ceiling.unqueue b payload d p).2 k := by
    intro k hk
    rcases h.before k hk with hk | hk
    · exact file k hk
    · exact Or.inr (held k hk)
  exact {
    text := h.text
    cursor := h.cursor
    boundary := h.boundary
    readTo := h.boundary
    before := before
    read := before
    file := fun k hk => Or.inl (hasKey_jsonForm.mp hk)
    anchored := fun k hk => held k (h.anchored k hk)
    starting := fun x hx => by
      rw [List.mem_singleton.mp hx]
      exact ⟨hb, hstate⟩ }

/-- The items of a new batch are anchored. -/
lemma Accounted.chain (h : Accounted d p) {b : Batch} {payload : Bytes}
    (hp : p.phase = .unqueued b payload) :
    Accounted (saveChain cfg b payload d p).1 (saveChain cfg b payload d p).2 := by
  obtain ⟨hb, hstate⟩ := h.starting b (by rw [hp]; exact List.mem_singleton.mpr rfl)
  obtain ⟨q, hq, hset⟩ : ∃ q, (saveChain cfg b payload d p).2.phase = q ∧ q.settled = true := by
    refine ⟨_, rfl, ?_⟩
    simp only [saveChain]
    split <;> rfl
  have hlimbo : q.limbo = [] ∧ q.starting = [] := by
    cases q with
    | ingested | created | unqueued | reorging => cases hset
    | _ => exact ⟨rfl, rfl⟩
  have hread : (saveChain cfg b payload d p).2.readTo = p.cursor := by
    rw [Proc.readTo, hq]
    cases q with
    | ingested => cases hset
    | _ => rfl
  have held : ∀ k, Held p k → Held (saveChain cfg b payload d p).2 k := by
    intro k hk
    rw [Held, hp] at hk
    rcases hk with hk | ⟨i, hi, -⟩
    · exact Or.inl hk
    · exact absurd hi List.not_mem_nil
  exact {
    text := h.text
    cursor := h.cursor
    boundary := h.boundary
    readTo := by rw [hread]; exact h.boundary
    before := fun k hk => (h.before k hk).imp_right (held k)
    read := fun k hk => (h.before k (by rwa [hread] at hk)).imp_right (held k)
    file := fun k hk => (h.file k hk).imp_right (held k)
    anchored := fun k hk => by
      rcases Anchored.has_setAll hk with hk | hk
      · exact held k (h.anchored k hk)
      · exact Or.inl ⟨b, hb, hstate, hk⟩
    starting := fun x hx => by
      rw [hq, hlimbo.2] at hx
      exact absurd hx List.not_mem_nil }

/-- A batch file is rewritten; when the batch is dropped its items are in limbo. -/
lemma Accounted.update (h : Accounted d p) (hc : Consistent d p) {b b' : Batch} {q : Phase}
    (hp : p.phase.settled = true) (hb : b ∈ p.batches) (hadv : b.Advances cfg b')
    (hq : b'.Leads q) : Accounted (d.saveBatch b') ((p.saveBatch b').at q) := by
  have hlimbo : p.phase.limbo = [] := by
    cases hphase : p.phase with
    | ingested | created | unqueued | reorging =>
        rw [hphase] at hp
        cases hp
    | _ => rfl
  have hplain : q.starting = [] ∧ ((p.saveBatch b').at q).readTo = p.cursor
      ∧ (b'.state = .dropped → q.limbo = b'.items) := by
    cases hq with
    | quiet hstate hquiet =>
        refine ⟨?_, ?_, fun hd => absurd hd hstate⟩
        · cases q with
          | created | unqueued => cases hquiet
          | _ => rfl
        · cases q with
          | ingested => cases hquiet
          | _ => rfl
    | resend hstate => exact ⟨rfl, rfl, fun hd => by rw [hstate] at hd; cases hd⟩
    | requeue => exact ⟨rfl, rfl, fun _ => rfl⟩
  obtain ⟨hstarting, hread, hdropped⟩ := hplain
  have held : ∀ k, Held p k → Held ((p.saveBatch b').at q) k := by
    intro k hk
    rw [Held, hlimbo] at hk
    rcases hk with ⟨x, hx, hstate, hk⟩ | ⟨i, hi, -⟩
    · by_cases hid : x.id = b'.id
      · -- the batch itself: its items stay its items, or go to limbo
        obtain rfl : x = b := eq_of_id hc.ids hx hb (hid.trans hadv.id_eq)
        rw [← hadv.succeeds.items] at hk
        by_cases hd : b'.state = .dropped
        · exact Or.inr (by rw [show ((p.saveBatch b').at q).phase = q from rfl, hdropped hd]; exact hk)
        · exact Or.inl ⟨b', mem_setBatch.mpr (Or.inl rfl), hd, hk⟩
      · exact Or.inl ⟨x, mem_setBatch.mpr (Or.inr ⟨hx, hid⟩), hstate, hk⟩
    · exact absurd hi List.not_mem_nil
  exact {
    text := h.text
    cursor := h.cursor
    boundary := h.boundary
    readTo := by rw [hread]; exact h.boundary
    before := fun k hk => (h.before k hk).imp_right (held k)
    read := fun k hk => (h.before k (by rwa [hread] at hk)).imp_right (held k)
    file := fun k hk => (h.file k hk).imp_right (held k)
    anchored := fun k hk => held k (h.anchored k hk)
    starting := fun x hx => by
      rw [show ((p.saveBatch b').at q).phase.starting = [] from hstarting] at hx
      exact absurd hx List.not_mem_nil }

/-- The items of a dropped batch go back to the front of the backlog. -/
lemma Accounted.requeue (h : Accounted d p) {b : Batch} {left : List Str} {safe fin : ℕ}
    (hp : p.phase = .reorging b left safe fin) :
    Accounted (requeue b left safe fin d p).1 (requeue b left safe fin d p).2 := by
  have hlimbo : p.phase.limbo = b.items := by rw [hp]; rfl
  have back : ∀ k, HasKey p.backlog k ∨ HasKey b.items k →
      HasKey (Ceiling.requeue b left safe fin d p).2.backlog k := by
    intro k hk
    by_cases hin : HasKey b.items k
    · exact hasKey_append.mpr (Or.inl hin)
    · obtain ⟨i, hi, hk⟩ := hk.resolve_right hin
      refine hasKey_append.mpr (Or.inr ⟨i, List.mem_filter.mpr ⟨hi, ?_⟩, hk⟩)
      rw [hk, Bool.not_eq_true', Bool.eq_false_iff, Ne, holdsKey_str]
      exact hin
  have held : ∀ k, Held p k → HasKey (Ceiling.requeue b left safe fin d p).2.backlog k
      ∨ Held (Ceiling.requeue b left safe fin d p).2 k := by
    intro k hk
    rw [Held, hlimbo] at hk
    rcases hk with hk | hk
    · exact Or.inr (Or.inl hk)
    · exact Or.inl (back k (Or.inr hk))
  have file : ∀ k, HasKey d.backlog k ∨ Held p k →
      HasKey (Ceiling.requeue b left safe fin d p).1.backlog k
        ∨ Held (Ceiling.requeue b left safe fin d p).2 k := by
    intro k hk
    refine Or.imp_left hasKey_jsonForm.mpr ?_
    rcases hk with hk | hk
    · rcases h.file k hk with hk | hk
      · exact Or.inl (back k (Or.inl hk))
      · exact held k hk
    · exact held k hk
  exact {
    text := h.text
    cursor := h.cursor
    boundary := h.boundary
    readTo := h.boundary
    before := fun k hk => file k (h.before k hk)
    read := fun k hk => file k (h.before k hk)
    file := fun k hk => Or.inl (hasKey_jsonForm.mp hk)
    anchored := fun k hk => by
      obtain ⟨hm, hnot⟩ := Anchored.has_deleteAll hk
      have hk := h.anchored k hm
      rw [Held, hlimbo] at hk
      exact Or.inl (hk.resolve_right hnot)
    starting := fun x hx => absurd hx List.not_mem_nil }

/-! ### No record is lost -/

/-- `reorged` has written the dropped batch and not yet the backlog. -/
def Phase.isReorging : Phase → Bool
  | .reorging _ _ _ _ => true
  | _ => false

def Phase.isIdle : Phase → Bool
  | .idle => true
  | _ => false

/-- A new batch gets an id no batch file has, and no exception ends a tick while `reorged` is
half done. -/
def tidy (d : Disk) (p : Proc) (ls : List Label) (_ : Disk) (p' : Proc) : Bool :=
  (ls.all fun l => match l with
    | .create b => d.batches.all fun x => x.id ≠ b.id
    | _ => true) && !(p.phase.isReorging && p'.phase.isIdle)

/-- The writer under that policy, whose process does not die while `reorged` is half done. -/
def whole (cfg : Config) : Machine Disk Proc Label :=
  supervised cfg tidy fun p => !p.phase.isReorging

lemma Accounted.move (h : Accounted d p) (hc : Consistent d p) (hm : Move cfg d p ls d' p')
    (hok : tidy d p ls d' p' = true) : Accounted d' p' := by
  rw [tidy, Bool.and_eq_true] at hok
  cases hm with
  | append hb => exact h.append hb
  | pass hp hq => exact h.pass hp (settled_of_quiet hq)
  | forget hp =>
      rw [hp] at hok
      exact absurd hok.2 Bool.false_ne_true
  | interrupt hp hl => exact h.interrupt hp hl
  | ingest hp hl => exact h.ingest hp hl
  | cursor hp => exact h.saveCursor hp
  | @create b payload _ _ _ _ _ hp _ hb _ =>
      refine h.create hp (fun x hx => ?_) (newBatch_spec hb).1
      have hall := hok.1
      rw [List.all_cons, Bool.and_eq_true] at hall
      have hne := List.all_eq_true.mp hall.1 x.stored (hc.mem_disk.mpr ⟨x, hx, rfl⟩)
      exact of_decide_eq_true hne
  | unqueue hp => exact h.unqueue hp
  | chain hp => exact h.chain hp
  | resume hp => exact h.pass (by rw [hp]; rfl) rfl
  | broadcast hp => exact h.pass (by rw [hp]; rfl) rfl
  | update hp hb hadv hq => exact h.update hc hp hb hadv hq
  | requeue hp => exact h.requeue hp

/-- Where `reorged` is not half done the disk accounts for every record. -/
lemma Accounted.accounts (h : Accounted d p) (hc : Consistent d p)
    (hp : p.phase.isReorging = false) : d.Accounts where
  text := h.text
  boundary := h.cursor ▸ h.boundary
  before k hk := by
    have hlimbo : p.phase.limbo = [] := by
      cases hphase : p.phase with
      | reorging =>
          rw [hphase] at hp
          cases hp
      | _ => rfl
    rcases h.before k (h.cursor ▸ hk) with hk | hk | ⟨i, hi, -⟩
    · exact Or.inl hk
    · exact Or.inr ((inBatches_perm hc.same).mp (inBatches_stored.mpr hk))
    · rw [hlimbo] at hi
      exact absurd hi List.not_mem_nil

/-- The proof hash of the sample record. -/
def sampleHash : Str := js "AAAAAAAAAAAAAAAAAAAAAAAAAAAAAAAAAAAAAAAAAAA="

end Ceiling

end BitGraph
