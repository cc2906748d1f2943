import BitGraph.Js.LineFile
import BitGraph.Lib.Events
import BitGraph.Lib.OrderedMap
import BitGraph.Lib.WriteOnce

/-!
`timeline-journal.ts`: the journal of the timeline.

A record is a line of the pending file. A flush renames that file to a batch, and uploads the
batches one object an epoch, oldest first; a batch is deleted behind its last part. The objects
are in a store that keeps what is put first.

* **Grouping.** `addLine` and `partsOf`: the lines of a batch by epoch. `mem_partsOf`: a line that
  parses is in a part.
* **Steps.** An event writes at most once, so a crash between two writes, or inside a line, is a
  crash between two events. `fire` is executable.
* **Keeping.** `journal_kept`: a record whose append returned stays in the journal or in an object
  while no line follows a torn one, no batch replaces another and no object is taken for another
  (`admissible`). `record_lost`: a line behind a torn one is lost.

Writes of the disk take whole chunks and `gzipSync` is a parameter. The counts of `stats` are left
out.
-/

namespace BitGraph

open Js

namespace Timeline

/-! ### Grouping -/

/-- `gzipSync` and `gunzipSync`. -/
structure Gzip where
  gzip : Bytes → Bytes
  gunzip : Bytes → Option Bytes
  gunzip_gzip : ∀ b, gunzip (gzip b) = some b

/-- The lines of one epoch in a batch. -/
structure Part where
  epoch : Value
  lines : List Str
  first : ℤ
  last : ℤ

/-- Equality of map keys; parsed arrays and objects are the same as no other value. -/
def sameEpoch (v w : Value) : Bool :=
  match v, w with
  | .num (.fin d), .num (.fin e) => d.posZero == e.posZero
  | .arr _, _ => false
  | .obj _, _ => false
  | v, w => v == w

/-- `v ?? w`. -/
def nullish (v w : Value) : Value := if v = .undefined ∨ v = .null then w else v

/-- `line.proof?.commit?.[key]`, `none` where it throws because the line is `null`. -/
def commitField (line : Value) (key : Str) : Option Value :=
  if line = .null then none
  else some (((line.get (js "proof")).get (js "commit")).get key)

/-- A line into the part of its epoch, or into a new one. -/
def pushLine (epoch : Value) (counter : ℤ) (raw : Str) : List Part → List Part
  | [] => [⟨epoch, [raw], counter, counter⟩]
  | g :: parts =>
      if sameEpoch g.epoch epoch then
        { g with lines := g.lines ++ [raw], first := min g.first counter,
                 last := max g.last counter } :: parts
      else g :: pushLine epoch counter raw parts

/-- One turn of the loop over the lines, `none` where it throws. A line that does not parse is
passed over. -/
def addLine (parts : List Part) (raw : Str) : Option (List Part) :=
  if trim raw = [] then some parts
  else
    match parse raw with
    | none => some parts
    | some line => do
        let epoch ← commitField line (js "epochId")
        let counter ← commitField line (js "counter")
        let counter ← bigInt? (nullish counter (.str (js "0")))
        return pushLine (nullish epoch (.str (js "unknown"))) counter raw parts

/-- The parts of a batch file. -/
def partsOf (file : Bytes) : Option (List Part) :=
  (splitLines (bufferToString file)).foldlM addLine []

/-- `safe`. -/
def safe (b64 : Str) : Str :=
  let swapped := b64.map fun c => if c = 43 then 45 else if c = 47 then 95 else c
  (swapped.reverse.dropWhile (· = 61)).reverse

/-- `s.padStart(n, "0")`. -/
def padStart (n : ℕ) (s : Str) : Str := List.replicate (n - s.length) 48 ++ s

/-- The key of the object of a part, `none` where an epoch is no text. -/
def Part.key (g : Part) : Option Str :=
  match g.epoch with
  | .str epoch => some (js "timeline/" ++ safe epoch ++ js "/" ++ padStart 12 (intText g.first)
      ++ js "-" ++ padStart 12 (intText g.last) ++ js "-" ++ decimal g.lines.length
      ++ js ".jsonl.gz")
  | _ => none

/-- The body of the object of a part. -/
def Part.body (g : Part) : Bytes := g.lines.flatMap lineBytes

/-! ### The journal -/

/-- A record of the timeline: a JSON value. -/
structure TimelineLine where
  value : Value
  isJson : value.isJson = true

/-- `JSON.stringify(line)`. -/
def TimelineLine.text (line : TimelineLine) : Str := line.value.serialize.getD []

/-- The directory of the journal, and the store its objects are in. -/
structure Disk where
  pending : Option Bytes
  batches : OrderedMap Str Bytes
  objects : WriteOnce.Store Str Bytes

/-- Where a flush stands. -/
inductive Flush where
  | idle
  /-- About to take up the next of these batches. -/
  | batches (names : List Str)
  /-- Waiting for `put` of the first part of a batch. -/
  | putting (name key : Str) (part : Part) (parts : List Part) (names : List Str)
  /-- Every part of the batch is in an object. -/
  | uploaded (name : Str) (names : List Str)

/-- A process: the append in progress, with the bytes not written yet, and the flush. -/
structure Process where
  appending : Option (TimelineLine × Bytes)
  flush : Flush

/-- The name of the batch closed at a time. -/
def batchName (now : ℕ) : Str := js "batch-" ++ padStart 13 (decimal now) ++ js ".jsonl"

/-- `/^batch-\d{13}\.jsonl$/`. -/
def isBatchName (name : Str) : Bool :=
  name.take 6 = js "batch-" && ((name.drop 6).take 13).all isDigit && name.drop 19 = js ".jsonl"

/-- The batches of the directory, in order. -/
def batchNames (d : Disk) : List Str :=
  ((d.batches.map Prod.fst).filter isBatchName).insertionSort (· ≤ ·)

/-- The code up to the next `put`. An epoch that is no text ends the flush. -/
def startPart (name : Str) (names : List Str) : List Part → Flush
  | [] => .uploaded name names
  | g :: parts =>
      match g.key with
      | none => .idle
      | some key => .putting name key g parts names

/-- What can happen. -/
inductive Event where
  | append (line : TimelineLine)
  /-- The next bytes of the line are written. -/
  | writes (n : ℕ)
  /-- `append` returns. -/
  | returns
  /-- A call of the file system throws. -/
  | throws
  /-- `flush` is called, with the clock. -/
  | flush (now : ℕ)
  /-- The flush goes on to its next write or `put`. -/
  | proceed
  /-- An object that is put arrives at the store. -/
  | lands
  | resolves
  | rejects

/-- `append` up to its first write. -/
def startAppend (line : TimelineLine) (d : Disk) (p : Process) : Disk × Process :=
  ({ d with pending := some (d.pending.getD []) },
    { p with appending := some (line, lineBytes line.text) })

/-- `flush` up to the first batch. -/
def startFlush (now : ℕ) (d : Disk) (p : Process) : Disk × Process :=
  let closed : Disk := match d.pending with
    | none | some [] => d
    | some file => { d with pending := none, batches := d.batches.set (batchName now) file }
  (closed, { p with flush := .batches (batchNames closed) })

/-- One event: the records whose append returned, and the state after it. -/
def fire (z : Gzip) (e : Event) (d : Disk) (p : Process) :
    Option (List TimelineLine × Disk × Process) :=
  match e, p.appending, p.flush with
  | .append line, none, _ => some ([], startAppend line d p)
  | .writes n, some (line, rest), _ =>
      some ([], { d with pending := some (d.pending.getD [] ++ rest.take n) },
        { p with appending := some (line, rest.drop n) })
  | .returns, some (line, []), _ => some ([line], d, { p with appending := none })
  | .throws, some _, _ => some ([], d, { p with appending := none })
  | .flush now, none, .idle => some ([], startFlush now d p)
  | .flush _, none, _ => some ([], d, p)
  | .proceed, none, .batches [] => some ([], d, { p with flush := .idle })
  | .proceed, none, .batches (name :: names) =>
      match d.batches.get name with
      | none => some ([], d, { p with flush := .idle })
      | some file =>
          match partsOf file with
          | none => some ([], d, { p with flush := .idle })
          | some parts => some ([], d, { p with flush := startPart name names parts })
  | .proceed, none, .uploaded name names =>
      some ([], { d with batches := d.batches.erase name }, { p with flush := .batches names })
  | .lands, none, .putting _ key g _ _ =>
      some ([], { d with objects := d.objects.put key (z.gzip g.body) }, p)
  | .resolves, none, .putting name key _ parts names =>
      if (d.objects key).isSome then some ([], d, { p with flush := startPart name names parts })
      else none
  | .rejects, none, .putting _ _ _ _ _ => some ([], d, { p with flush := .idle })
  | _, _, _ => none

/-- The journal under a policy for the events. -/
def journal (z : Gzip) (ok : Event → Disk → Process → Prop) :
    Machine Disk Process TimelineLine :=
  .onEvents (· = ⟨none, [], .empty⟩) (fun _ p => p = ⟨none, .idle⟩) (fire z) ok

/-! ### What is kept -/

/-- A text is a line of an object. -/
def InObject (z : Gzip) (d : Disk) (text : Str) : Prop :=
  ∃ key gz body, d.objects key = some gz ∧ z.gunzip gz = some body ∧ text ∈ completeLines body

/-- A text is a complete line of the pending file, of a batch file or of an object. -/
def Held (z : Gzip) (d : Disk) (text : Str) : Prop :=
  text ∈ completeLines (d.pending.getD [])
    ∨ (∃ name file, d.batches.get name = some file ∧ text ∈ completeLines file)
    ∨ InObject z d text

/-- A record is held, and parses. -/
def Kept (z : Gzip) (d : Disk) (line : TimelineLine) : Prop :=
  parse line.text = some line.value.jsonForm ∧ Held z d line.text

/-- What every step of a journal that loses nothing meets: a line is appended behind a newline, a
batch does not take the name of another, and an object that was put is the one in the store. -/
def admissible (z : Gzip) (e : Event) (d : Disk) (p : Process) : Bool :=
  match e, p.flush with
  | .append _, _ => d.pending.all fun file => file = [] || file.getLast? = some 10
  | .flush now, .idle =>
      match d.pending with
      | none | some [] => true
      | some _ => !d.batches.has (batchName now)
  | .resolves, .putting _ key g _ _ => d.objects key = some (z.gzip g.body)
  | _, _ => true

/-! ### Parts -/

section Parts

variable {parts : List Part} {raw x : Str}

/-- The lines of the parts. -/
def linesOf (parts : List Part) : List Str := parts.flatMap Part.lines

lemma mem_linesOf_pushLine (epoch : Value) (counter : ℤ) :
    x ∈ linesOf (pushLine epoch counter raw parts) ↔ x ∈ linesOf parts ∨ x = raw := by
  induction parts with
  | nil => simp [pushLine, linesOf]
  | cons g parts ih =>
      rw [pushLine]
      split
      · simp only [linesOf, List.flatMap_cons, List.mem_append, List.mem_singleton]
        tauto
      · simp only [linesOf, List.flatMap_cons, List.mem_append] at ih ⊢
        tauto

/-- A turn of the loop adds the line if it parses. -/
lemma mem_linesOf_addLine {parts' : List Part} (h : addLine parts raw = some parts') :
    x ∈ linesOf parts' ↔ x ∈ linesOf parts ∨ x = raw ∧ (parse raw).isSome = true := by
  rw [addLine] at h
  split at h
  · next hblank =>
      cases h
      rw [parse_of_trim hblank]
      simp
  · split at h
    · next hparse =>
        cases h
        rw [hparse]
        simp
    · next line hparse =>
        obtain ⟨epoch, -, h⟩ := Option.bind_eq_some_iff.mp h
        obtain ⟨field, -, h⟩ := Option.bind_eq_some_iff.mp h
        obtain ⟨counter, -, h⟩ := Option.bind_eq_some_iff.mp h
        cases h
        rw [mem_linesOf_pushLine, hparse]
        simp

/-- **Grouping.** The parts of a batch hold its lines that parse, and no others. -/
theorem mem_linesOf_partsOf {file : Bytes} (h : partsOf file = some parts) :
    x ∈ linesOf parts ↔ x ∈ splitLines (bufferToString file) ∧ (parse x).isSome = true := by
  have key : ∀ (raws : List Str) (start parts : List Part), raws.foldlM addLine start = some parts →
      (x ∈ linesOf parts ↔ x ∈ linesOf start ∨ x ∈ raws ∧ (parse x).isSome = true) := by
    intro raws
    induction raws with
    | nil =>
        intro start parts h
        cases h
        simp
    | cons raw raws ih =>
        intro start parts h
        rw [List.foldlM_cons] at h
        obtain ⟨next, hnext, hrest⟩ := Option.bind_eq_some_iff.mp h
        rw [ih next parts hrest, mem_linesOf_addLine hnext, List.mem_cons]
        constructor
        · rintro ((hx | ⟨rfl, hp⟩) | ⟨hx, hp⟩)
          · exact .inl hx
          · exact .inr ⟨.inl rfl, hp⟩
          · exact .inr ⟨.inr hx, hp⟩
        · rintro (hx | ⟨rfl | hx, hp⟩)
          · exact .inl (.inl hx)
          · exact .inl (.inr ⟨rfl, hp⟩)
          · exact .inr ⟨hx, hp⟩
  rw [key _ _ _ h]
  simp [linesOf]

end Parts

/-! ### Invariants -/

section Keeping

variable {z : Gzip} {d d' : Disk} {p : Process} {ls : List TimelineLine} {line : TimelineLine}

lemma TimelineLine.serialize_eq (line : TimelineLine) : line.value.serialize = some line.text := by
  obtain ⟨text, htext, -⟩ := parse_serialize_jsonForm line.isJson
  rw [TimelineLine.text, htext, Option.getD_some]

lemma TimelineLine.parse_text (line : TimelineLine) :
    parse line.text = some line.value.jsonForm := by
  obtain ⟨text, htext, hparse⟩ := parse_serialize_jsonForm line.isJson
  rw [TimelineLine.text, htext, Option.getD_some, hparse]

lemma TimelineLine.isLine (line : TimelineLine) : IsLine line.text := isLine_serialize line.serialize_eq

/-- The pending file: whole lines, and the beginning of one more. -/
def PendingSound (pending : Option Bytes) : Option (TimelineLine × Bytes) → Prop
  | none => ∃ lines, LineFile lines (pending.getD [])
  | some (line, rest) => ∃ (lines : List Str) (written : Bytes), (∀ l ∈ lines, IsLine l)
      ∧ pending = some (lines.flatMap lineBytes ++ written)
      ∧ written ++ rest = lineBytes line.text

/-- The records of a batch are in objects or in parts still to upload. -/
def Covered (z : Gzip) (d : Disk) (name : Str) (parts : List Part) : Prop :=
  ∀ file, d.batches.get name = some file → ∀ text ∈ completeLines file,
    (parse text).isSome = true → InObject z d text ∨ text ∈ linesOf parts

/-- What a flush knows of the batch it is at. -/
def FlushSound (z : Gzip) (d : Disk) : Flush → Prop
  | .putting name _ g parts _ => (∀ l ∈ linesOf (g :: parts), IsLine l) ∧ Covered z d name (g :: parts)
  | .uploaded name _ => Covered z d name []
  | _ => True

/-- The invariant of the journal. -/
structure Sound (z : Gzip) (ls : List TimelineLine) (d : Disk) (p : Process) : Prop where
  pending : PendingSound d.pending p.appending
  batches : ∀ name file, d.batches.get name = some file → ∃ lines, LineFile lines file
  flush : FlushSound z d p.flush
  kept : ∀ line ∈ ls, Kept z d line

lemma Kept.mono (h : Kept z d line)
    (hpending : ∀ text ∈ completeLines (d.pending.getD []), Held z d' text)
    (hbatches : ∀ name file, d.batches.get name = some file → ∀ text ∈ completeLines file,
      (parse text).isSome = true → Held z d' text)
    (hobjects : ∀ text, InObject z d text → InObject z d' text) : Kept z d' line := by
  obtain ⟨hparse, htext | ⟨name, file, hfile, htext⟩ | htext⟩ := h
  · exact ⟨hparse, hpending _ htext⟩
  · exact ⟨hparse, hbatches name file hfile _ htext (by rw [hparse]; rfl)⟩
  · exact ⟨hparse, .inr (.inr (hobjects _ htext))⟩

lemma InObject.of_objects {text : Str} (h : InObject z d text) (hd : d'.objects = d.objects) :
    InObject z d' text := by
  obtain ⟨key, gz, body, hkey, hgz, hmem⟩ := h
  exact ⟨key, gz, body, hd ▸ hkey, hgz, hmem⟩

/-- Only the pending file changes, and keeps its complete lines. -/
lemma Kept.of_pending (h : Kept z d line) (hbatches : d'.batches = d.batches)
    (hobjects : d'.objects = d.objects)
    (hpending : ∀ text ∈ completeLines (d.pending.getD []), text ∈ completeLines (d'.pending.getD [])) :
    Kept z d' line :=
  h.mono (fun text htext => .inl (hpending text htext))
    (fun name file hfile text htext _ => .inr (.inl ⟨name, file, hbatches ▸ hfile, htext⟩))
    fun _ htext => htext.of_objects hobjects

lemma FlushSound.of_pending {f : Flush} (h : FlushSound z d f) (hbatches : d'.batches = d.batches)
    (hobjects : d'.objects = d.objects) : FlushSound z d' f := by
  have hcovered : ∀ {name : Str} {parts : List Part}, Covered z d name parts → Covered z d' name parts :=
    fun hc file hfile text htext hp =>
      (hc file (hbatches ▸ hfile) text htext hp).imp_left fun ho => ho.of_objects hobjects
  cases f with
  | idle => trivial
  | batches names => trivial
  | putting name key g parts names => exact ⟨h.1, hcovered h.2⟩
  | uploaded name names => exact hcovered h

/-- The complete lines of the pending file during an append. -/
lemma completeLines_appending {rest : Bytes} (h : PendingSound d.pending (some (line, rest))) :
    ∃ lines, LineFile (if rest = [] then lines ++ [line.text] else lines) (d.pending.getD [])
      ∧ ∀ n, LineFile (if rest.drop n = [] then lines ++ [line.text] else lines)
          (d.pending.getD [] ++ rest.take n) := by
  obtain ⟨lines, written, hlines, hpending, hsplit⟩ := h
  refine ⟨lines, ?_, fun n => ?_⟩
  · rw [hpending, Option.getD_some]
    exact .write hlines line.isLine hsplit
  · rw [hpending, Option.getD_some, List.append_assoc]
    refine .write hlines line.isLine ?_
    rw [List.append_assoc, List.take_append_drop, hsplit]

/-- The pending file is a file of lines, also during an append. -/
lemma PendingSound.lineFile {a : Option (TimelineLine × Bytes)} (h : PendingSound d.pending a) :
    ∃ lines, LineFile lines (d.pending.getD []) := by
  cases a with
  | none => exact h
  | some a =>
      obtain ⟨lines, hfile, -⟩ := completeLines_appending h
      exact ⟨_, hfile⟩

/-! ### Appending -/

/-- An append begins behind a newline. -/
lemma Sound.append (h : Sound z ls d p) (ha : p.appending = none)
    (hok : admissible z (.append line) d p = true) :
    Sound z ls (startAppend line d p).1 (startAppend line d p).2 := by
  have hfile : ∃ lines, LineFile lines (d.pending.getD []) := by
    have := h.pending
    rwa [ha] at this
  obtain ⟨lines, hlines⟩ := hfile
  have hends : d.pending.getD [] = [] ∨ (d.pending.getD []).getLast? = some 10 := by
    cases hp : d.pending with
    | none => exact .inl rfl
    | some file =>
        rw [admissible, hp, Option.all_some, Bool.or_eq_true, decide_eq_true_eq,
          decide_eq_true_eq] at hok
        exact hok
  refine ⟨⟨lines, [], hlines.isLine, ?_, rfl⟩, h.batches, h.flush.of_pending rfl rfl, fun l hl =>
    (h.kept l hl).of_pending rfl rfl fun _ htext => htext⟩
  rw [List.append_nil, ← hlines.eq_of_ends hends]
  rfl

/-- Bytes of the line are written. -/
lemma Sound.writes {rest : Bytes} {n : ℕ} (h : Sound z ls d p)
    (ha : p.appending = some (line, rest)) :
    Sound z ls { d with pending := some (d.pending.getD [] ++ rest.take n) }
      { p with appending := some (line, rest.drop n) } := by
  have hpending := h.pending
  rw [ha] at hpending
  obtain ⟨lines, hbefore, hafter⟩ := completeLines_appending hpending
  obtain ⟨lines', written, hlines, hfile, hsplit⟩ := hpending
  refine ⟨⟨lines', written ++ rest.take n, hlines, ?_, ?_⟩, h.batches, h.flush.of_pending rfl rfl,
    fun l hl => (h.kept l hl).of_pending rfl rfl fun text htext => ?_⟩
  · rw [hfile, Option.getD_some, List.append_assoc]
  · rw [List.append_assoc, List.take_append_drop, hsplit]
  · rw [hbefore.completeLines_eq] at htext
    rw [Option.getD_some, (hafter n).completeLines_eq]
    by_cases hrest : rest = []
    · rw [hrest] at htext ⊢
      rwa [List.drop_nil]
    · rw [if_neg hrest] at htext
      split
      · exact List.mem_append_left _ htext
      · exact htext

/-- The append returns, and its record is a complete line. -/
lemma Sound.returns (h : Sound z ls d p) (ha : p.appending = some (line, [])) :
    Sound z (ls ++ [line]) d { p with appending := none } := by
  have hpending := h.pending
  rw [ha] at hpending
  obtain ⟨lines, hfile, -⟩ := completeLines_appending hpending
  refine ⟨⟨_, hfile⟩, h.batches, h.flush, fun l hl => ?_⟩
  rcases List.mem_append.mp hl with hl | hl
  · exact h.kept l hl
  · rw [List.mem_singleton.mp hl]
    refine ⟨line.parse_text, .inl ?_⟩
    rw [hfile.completeLines_eq, if_pos rfl]
    exact List.mem_append_right _ (List.mem_singleton.mpr rfl)

/-! ### Flushing -/

/-- The pending file becomes a batch of its own. -/
lemma Sound.startFlush {now : ℕ} (h : Sound z ls d p) (ha : p.appending = none)
    (hf : p.flush = .idle) (hok : admissible z (.flush now) d p = true) :
    Sound z ls (startFlush now d p).1 (startFlush now d p).2 := by
  have hfile : ∃ lines, LineFile lines (d.pending.getD []) := h.pending.lineFile
  have hidle : Sound z ls d (Timeline.startFlush now d p).2 := ⟨h.pending, h.batches, trivial, h.kept⟩
  cases hp : d.pending with
  | none =>
      rw [Timeline.startFlush, hp] at hidle ⊢
      exact hidle
  | some file =>
      cases file with
      | nil =>
          rw [Timeline.startFlush, hp] at hidle ⊢
          exact hidle
      | cons b file =>
          simp only [admissible, hf, hp, Bool.not_eq_true'] at hok
          rw [hp, Option.getD_some] at hfile
          have hfresh : ∀ name f, d.batches.get name = some f → batchName now ≠ name := by
            rintro name f hf rfl
            rw [OrderedMap.has, hf] at hok
            cases hok
          rw [Timeline.startFlush, hp]
          refine ⟨ha ▸ ⟨[], .empty⟩, fun name f hf => ?_, trivial, fun l hl =>
            (h.kept l hl).mono (fun text htext => ?_) (fun name f hf text htext _ => ?_)
              fun _ htext => htext.of_objects rfl⟩
          · rw [OrderedMap.get_set] at hf
            split at hf
            · exact Option.some.inj hf ▸ hfile
            · exact h.batches name f hf
          · rw [hp, Option.getD_some] at htext
            exact .inr (.inl ⟨_, _, OrderedMap.get_set_self _ _ _, htext⟩)
          · refine .inr (.inl ⟨name, f, ?_, htext⟩)
            rw [OrderedMap.get_set, if_neg (hfresh name f hf), hf]

/-- The flush goes on to the next part. -/
lemma flushSound_startPart {name : Str} {names : List Str} {parts : List Part}
    (hlines : ∀ l ∈ linesOf parts, IsLine l) (h : Covered z d name parts) :
    FlushSound z d (startPart name names parts) := by
  cases parts with
  | nil => exact h
  | cons g parts =>
      rw [startPart]
      cases g.key with
      | none => trivial
      | some key => exact ⟨hlines, h⟩

/-- The parts of a batch cover it. -/
lemma covered_partsOf {name : Str} {file : Bytes} {parts : List Part}
    (hbatches : ∀ name file, d.batches.get name = some file → ∃ lines, LineFile lines file)
    (hfile : d.batches.get name = some file) (hparts : partsOf file = some parts) :
    (∀ l ∈ linesOf parts, IsLine l) ∧ Covered z d name parts := by
  obtain ⟨lines, hlines⟩ := hbatches name file hfile
  refine ⟨fun l hl => hlines.isLine_of_mem_splitLines ((mem_linesOf_partsOf hparts).mp hl).1,
    fun f hf text htext hp => .inr ?_⟩
  obtain rfl : file = f := Option.some.inj (hfile.symm.trans hf)
  refine (mem_linesOf_partsOf hparts).mpr ⟨?_, hp⟩
  obtain ⟨tail, -, hsplit⟩ := hlines.splitLines_eq
  rw [hlines.completeLines_eq] at htext
  rw [hsplit]
  exact List.mem_append_left _ htext

/-- An object arrives at the store. -/
lemma InObject.put {text key : Str} {gz : Bytes} (h : InObject z d text) :
    InObject z { d with objects := d.objects.put key gz } text := by
  obtain ⟨key', gz', body, hkey, hgz, hmem⟩ := h
  exact ⟨key', gz', body, WriteOnce.Store.within_put _ _ _ _ _ hkey, hgz, hmem⟩

lemma Sound.lands {name key : Str} {g : Part} {parts : List Part} {names : List Str} {gz : Bytes}
    (h : Sound z ls d p) (hf : p.flush = .putting name key g parts names) :
    Sound z ls { d with objects := d.objects.put key gz } p := by
  have hflush := h.flush
  rw [hf] at hflush
  refine ⟨h.pending, h.batches, ?_, fun l hl => (h.kept l hl).mono (fun _ htext => .inl htext)
    (fun name f hfile _ htext _ => .inr (.inl ⟨name, f, hfile, htext⟩)) fun _ htext => htext.put⟩
  rw [hf]
  exact ⟨hflush.1, fun file hfile text htext hp =>
    (hflush.2 file hfile text htext hp).imp_left InObject.put⟩

/-- The part that was put is in its object. -/
lemma Sound.resolves {name key : Str} {g : Part} {parts : List Part} {names : List Str}
    (h : Sound z ls d p) (hf : p.flush = .putting name key g parts names)
    (hok : admissible z .resolves d p = true) :
    Sound z ls d { p with flush := startPart name names parts } := by
  have hflush := h.flush
  rw [hf] at hflush
  simp only [admissible, hf, decide_eq_true_eq] at hok
  have hpart : ∀ l ∈ g.lines, IsLine l := fun l hl =>
    hflush.1 l (List.mem_flatMap.mpr ⟨g, List.mem_cons_self, hl⟩)
  have hbody : completeLines g.body = g.lines := (LineFile.whole hpart).completeLines_eq
  refine ⟨h.pending, h.batches, flushSound_startPart (fun l hl => hflush.1 l ?_) ?_, h.kept⟩
  · rw [linesOf, List.flatMap_cons]
    exact List.mem_append_right _ hl
  · intro file hfile text htext hp
    rcases hflush.2 file hfile text htext hp with ho | hl
    · exact .inl ho
    · rw [linesOf, List.flatMap_cons, List.mem_append] at hl
      rcases hl with hl | hl
      · exact .inl ⟨key, _, g.body, hok, z.gunzip_gzip _, hbody.symm ▸ hl⟩
      · exact .inr hl

/-- A batch is deleted when its records are in objects. -/
lemma Sound.uploaded {name : Str} {names : List Str} (h : Sound z ls d p)
    (hf : p.flush = .uploaded name names) :
    Sound z ls { d with batches := d.batches.erase name } { p with flush := .batches names } := by
  have hflush := h.flush
  rw [hf] at hflush
  refine ⟨h.pending, fun n f hfile => ?_, trivial, fun l hl => (h.kept l hl).mono
    (fun _ htext => .inl htext) (fun n f hfile text htext hp => ?_) fun _ htext => htext.of_objects rfl⟩
  · rw [OrderedMap.get_erase] at hfile
    split at hfile
    · exact nomatch hfile
    · exact h.batches n f hfile
  · by_cases hn : name = n
    · subst hn
      rcases hflush f hfile text htext hp with ho | hmem
      · exact .inr (.inr (ho.of_objects rfl))
      · exact absurd hmem List.not_mem_nil
    · refine .inr (.inl ⟨n, f, ?_, htext⟩)
      rw [OrderedMap.get_erase, if_neg hn, hfile]

/-- Ending the flush, or moving between batches, moves nothing. -/
lemma Sound.flushAt (h : Sound z ls d p) {f : Flush} (hf : FlushSound z d f) :
    Sound z ls d { p with flush := f } := ⟨h.pending, h.batches, hf, h.kept⟩

/-- Every admissible event keeps the invariant. -/
lemma Sound.fire {e : Event} {new : List TimelineLine} {p' : Process} (h : Sound z ls d p)
    (hok : admissible z e d p = true) (hfire : fire z e d p = some (new, d', p')) :
    Sound z (ls ++ new) d' p' := by
  have hkeep : ∀ {d' : Disk} {p' : Process}, Sound z ls d' p' → Sound z (ls ++ []) d' p' := fun h =>
    (List.append_nil ls).symm ▸ h
  rw [Timeline.fire.eq_def] at hfire
  split at hfire
  · next ha =>
      cases hfire
      exact hkeep (h.append ha hok)
  · next ha =>
      cases hfire
      exact hkeep (h.writes ha)
  · next ha =>
      cases hfire
      exact h.returns ha
  · next ha =>
      cases hfire
      exact hkeep ⟨h.pending.lineFile, h.batches, h.flush, h.kept⟩
  · next ha hf =>
      cases hfire
      exact hkeep (h.startFlush ha hf hok)
  · cases hfire
    exact hkeep h
  · cases hfire
    exact hkeep (h.flushAt trivial)
  · next name names ha hf =>
      split at hfire
      · cases hfire
        exact hkeep (h.flushAt trivial)
      · next file hfile =>
          split at hfire
          · cases hfire
            exact hkeep (h.flushAt trivial)
          · next parts hparts =>
              cases hfire
              obtain ⟨hlines, hcovered⟩ := covered_partsOf h.batches hfile hparts
              exact hkeep (h.flushAt (flushSound_startPart hlines hcovered))
  · next hf =>
      cases hfire
      exact hkeep (h.uploaded hf)
  · next hf =>
      cases hfire
      exact hkeep (h.lands hf)
  · next hf =>
      split at hfire
      · cases hfire
        exact hkeep (h.resolves hf hok)
      · exact nomatch hfire
  · cases hfire
    exact hkeep (h.flushAt trivial)
  · exact nomatch hfire

/-- **Keeping.** A record whose append returned is, in every later state, a complete line of the
pending file, of a batch or of an object, while no line is appended behind a torn one, no batch
replaces another, and no object is taken for another. -/
theorem journal_kept
    (h : (journal z fun e d p => admissible z e d p = true).Reach ls d p) :
    ∀ line ∈ ls, Kept z d line := by
  have hsound : Sound z ls d p := by
    refine Machine.Reach.invariant
      (D := fun ls d => (∃ lines, LineFile lines (d.pending.getD []))
        ∧ (∀ name file, d.batches.get name = some file → ∃ lines, LineFile lines file)
        ∧ ∀ line ∈ ls, Kept z d line) ?_ ?_ ?_ ?_ h
    · rintro d rfl
      refine ⟨⟨[], .empty⟩, fun name file hfile => ?_, fun _ hl => absurd hl List.not_mem_nil⟩
      exact nomatch hfile
    · rintro ls d p ⟨hpending, hbatches, hkept⟩ rfl
      exact ⟨hpending, hbatches, trivial, hkept⟩
    · intro e ls d p new d' p' hI hok hfire
      exact hI.fire hok hfire
    · intro ls d p hI
      exact ⟨hI.pending.lineFile, hI.batches, hI.kept⟩
  exact hsound.kept

end Keeping

/-! ### Two runs -/

/-- A compression that does nothing. -/
def plainGzip : Gzip := ⟨id, some, fun _ => rfl⟩

/-- A record of an epoch, by its counter. -/
def sampleLine (counter : ℕ) : TimelineLine where
  value := .obj [(js "kind", .str (js "file")), (js "proof", .obj [(js "commit",
    .obj [(js "counter", .str (decimal counter)), (js "epochId", .str (js "e"))])])]
  isJson := by rfl

/-- The directory and the store before the first process. -/
def emptyDisk : Disk := ⟨none, [], .empty⟩

/-- A record is appended and uploaded, and its batch is deleted. -/
theorem journal_kept_uploaded : ∃ ls d p,
    (journal plainGzip fun e d p => admissible plainGzip e d p = true).Reach ls d p
      ∧ ls.length = 1 ∧ d.pending = none ∧ d.batches = [] ∧ ∀ line ∈ ls, Kept plainGzip d line := by
  have hstart : (journal plainGzip fun e d p => admissible plainGzip e d p = true).Reach []
      emptyDisk ⟨none, .idle⟩ := .start rfl rfl
  have hruns : (Machine.runAll (fire plainGzip) (fun e d p => admissible plainGzip e d p = true)
      [.append (sampleLine 1), .writes 100, .returns, .flush 7, .proceed, .lands, .resolves, .proceed]
      emptyDisk ⟨none, .idle⟩).map (fun r => (r.1.length, r.2.1.pending, r.2.1.batches))
      = some (1, none, []) := by decide +kernel
  obtain ⟨⟨ls, d, p⟩, hrun, heq⟩ := Option.map_eq_some_iff.mp hruns
  obtain ⟨hlen, hpending, hbatches⟩ : ls.length = 1 ∧ d.pending = none ∧ d.batches = [] := by
    simpa using heq
  have hreach := hstart.runAll hrun
  exact ⟨ls, d, p, hreach, hlen, hpending, hbatches, journal_kept hreach⟩

/-- The process dies inside a line, and the next one appends behind it: its record is no line. -/
theorem record_lost : ¬ ∀ (z : Gzip) (ls : List TimelineLine) (d : Disk) (p : Process),
    (journal z fun _ _ _ => True).Reach ls d p → ∀ line ∈ ls, Kept z d line := by
  intro h
  have hstart : (journal plainGzip fun _ _ _ => True).Reach [] emptyDisk ⟨none, .idle⟩ :=
    .start rfl rfl
  let torn := (lineBytes (sampleLine 1).text).take 5
  let file := torn ++ (lineBytes (sampleLine 2).text).take 100
  obtain ⟨p, hfirst⟩ : ∃ p, Machine.runAll (fire plainGzip) (fun _ _ _ => True)
      [.append (sampleLine 1), .writes 5] emptyDisk ⟨none, .idle⟩
      = some ([], ⟨some torn, [], .empty⟩, p) := ⟨_, rfl⟩
  obtain ⟨p', hsecond⟩ : ∃ p', Machine.runAll (fire plainGzip) (fun _ _ _ => True)
      [.append (sampleLine 2), .writes 100, .returns] ⟨some torn, [], .empty⟩ ⟨none, .idle⟩
      = some ([sampleLine 2], ⟨some file, [], .empty⟩, p') := ⟨_, rfl⟩
  have hlost : (sampleLine 2).text ∉ completeLines file := by decide
  obtain ⟨-, hmem | ⟨name, file, hfile, -⟩ | ⟨key, gz, body, hkey, -⟩⟩ :=
    h _ _ _ _ (((hstart.runAll hfirst).crash trivial rfl).runAll hsecond) _ List.mem_cons_self
  · exact hlost hmem
  · exact nomatch hfile
  · exact nomatch hkey

end Timeline

end BitGraph
