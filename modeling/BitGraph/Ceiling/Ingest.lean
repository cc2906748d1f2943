import BitGraph.Ceiling.Records

/-!
`ingest` in `writer.ts`: how often a queue line reaches the backlog.

`ingest` saves the backlog first and the cursor second, and moves the cursor by the length of the
text it decoded. A process that dies between the two writes reads the lines again, and has to
recognise them.

* **Runs.** `logged` is the writer over a queue file to which anything is appended, labelled with
  the items `ingest` adds to the backlogs it saves. `orderly` is the same writer over text without
  the line `null`, in runs that lose no record.
* **Invariant.** `Traced` says that the log holds what is anywhere, that no proof hash is in it
  twice, and that the process recognises each of them (`Recognised`).
* **Result.** `ingest_exactly_once`: the cursor stands at the start of a line, and each record on
  a complete line is ingested once. `ingest_skips` is a run over bytes that are no text.
-/

namespace BitGraph

open Js

namespace Ceiling

/-! ### Complete lines -/

/-- The text of the complete lines of a file. -/
def completeText (b : Bytes) : Str := uptoLastNewline (bufferToString b)

/-- A complete line of the queue file is a record with this proof hash. -/
def RecordIn (queue : Bytes) (h : Str) : Prop := HasKey (lineValues (completeText queue)) h

/-- The offset is that of the start of a line. -/
def LineStart (b : Bytes) (n : ℕ) : Prop := n ≤ b.length ∧ (n = 0 ∨ b[n - 1]? = some 10)

/-- No complete line is the JSON text `null`. -/
def NullFree (queue : Bytes) : Prop := Value.null ∉ lineValues (completeText queue)

lemma LineStart.of_boundary {b : Bytes} {n : ℕ} (h : Boundary b n) : LineStart b n := by
  obtain ⟨hn, ds, -, htake, hend⟩ := h
  refine ⟨hn, ?_⟩
  rcases hend with rfl | ⟨es, rfl⟩
  · have hlen := congrArg List.length htake
    rw [List.length_take, min_eq_left hn] at hlen
    exact Or.inl hlen
  · rw [List.flatMap_append, show ([10] : List ℕ).flatMap encodeScalar = [10] from rfl] at htake
    have hlen := congrArg List.length htake
    rw [List.length_take, min_eq_left hn, List.length_append, List.length_singleton] at hlen
    have hlast : (b.take n)[n - 1]? = some 10 := by
      rw [htake, List.getElem?_append_right (by omega)]
      simp [hlen]
    rw [List.getElem?_take_of_lt (by omega)] at hlast
    exact Or.inr hlast

lemma uptoLastNewline_append_newline (s t : Str) :
    uptoLastNewline (s ++ 10 :: t) = s ++ 10 :: uptoLastNewline t := by
  induction t using List.reverseRecOn with
  | nil => exact uptoLastNewline_newline s
  | append_singleton t c ih =>
      by_cases hc : c = 10
      · subst hc
        rw [← List.cons_append, ← List.append_assoc, uptoLastNewline_newline, uptoLastNewline_newline,
          List.append_assoc, List.cons_append]
      · have hother : ∀ x ∈ [c], x ≠ 10 := fun x hx => by rwa [List.mem_singleton.mp hx]
        rw [← List.cons_append, ← List.append_assoc, uptoLastNewline_other hother, ih,
          uptoLastNewline_other hother]

lemma lineValues_nil : lineValues [] = [] := by
  rw [lineValues, splitLines, List.filterMap_cons, parse_of_trim rfl]
  rfl

/-- The complete lines are those before a boundary and those after it. -/
lemma completeText_eq {queue : Bytes} {n : ℕ} (hn : Boundary queue n) :
    completeText queue = bufferToString (queue.take n)
      ++ uptoLastNewline (bufferToString (queue.drop n)) := by
  obtain ⟨-, ds, hds, htake, hend⟩ := hn
  have htext : bufferToString queue = ds.flatMap units ++ bufferToString (queue.drop n) := by
    conv_lhs => rw [← List.take_append_drop n queue, htake]
    rw [bufferToString, utf8Decode_flatMap_append hds, List.flatMap_append, List.flatMap_map]
    rfl
  rw [htake, bufferToString_flatMap hds, completeText, htext]
  rcases hend with rfl | ⟨es, rfl⟩
  · rfl
  · rw [List.flatMap_append, show ([10] : List ℕ).flatMap units = [10] from rfl, List.append_assoc,
      List.singleton_append, uptoLastNewline_append_newline, List.append_assoc,
      List.singleton_append]

lemma lineValues_complete {queue : Bytes} {n : ℕ} (hn : Boundary queue n) :
    lineValues (completeText queue) = lineValues (bufferToString (queue.take n))
      ++ lineValues (uptoLastNewline (bufferToString (queue.drop n))) := by
  rw [completeText_eq hn]
  obtain ⟨-, ds, hds, htake, hend⟩ := hn
  rw [htake, bufferToString_flatMap hds]
  rcases hend with rfl | ⟨es, rfl⟩
  · rw [List.flatMap_nil, List.nil_append, lineValues_nil, List.nil_append]
  · have hnil : lineValues [] = [] := lineValues_nil
    rw [lineValues] at hnil
    rw [List.flatMap_append, show ([10] : List ℕ).flatMap units = [10] from rfl, List.append_assoc,
      List.singleton_append, lineValues, lineValues, lineValues, splitLines_append_newline,
      splitLines_append_newline, List.filterMap_append, List.filterMap_append, hnil,
      List.append_nil]

lemma recordIn_iff {queue : Bytes} {n : ℕ} (hn : Boundary queue n) {h : Str} :
    RecordIn queue h ↔ RecordBefore queue n h
      ∨ HasKey (lineValues (uptoLastNewline (bufferToString (queue.drop n)))) h := by
  rw [RecordIn, lineValues_complete hn, hasKey_append, RecordBefore]

/-- The next offset is past all complete lines. -/
lemma recordBefore_next {queue : Bytes} {n : ℕ} (hn : Boundary queue n) (hq : CutText queue)
    {h : Str} : RecordBefore queue
      (n + (utf8Encode (uptoLastNewline (bufferToString (queue.drop n)))).length) h
      ↔ RecordIn queue h := by
  rw [RecordBefore, (hn.advance hq).2, ← completeText_eq hn, RecordIn]

/-! ### The log -/

/-- How often a proof hash is among the items. -/
def times (l : List Value) (h : Str) : ℕ := l.countP fun i => proofHash i = .str h

lemma times_append (l m : List Value) (h : Str) : times (l ++ m) h = times l h + times m h :=
  List.countP_append

lemma times_pos {l : List Value} {h : Str} : 0 < times l h ↔ HasKey l h := by
  simp [times, HasKey, List.countP_pos_iff]

/-- The items `ingest` adds to the backlog it saves. -/
def taken (p p' : Proc) : List Value :=
  match p.phase, p'.phase with
  | .idle, .ingested _ => p'.backlog.drop p.backlog.length
  | _, _ => []

/-- The chain signs what it may sign. -/
def Answer.Honest (cfg : Config) : Answer → Prop
  | .start _ _ _ sign _ _ | .unmined _ sign _ =>
      ∀ data nonce bump, cfg.signs data nonce bump (sign data nonce bump)
  | _ => True

/-- The writer over a file to which anything is appended, and what it ingests. -/
def logged (cfg : Config) : Machine Disk Proc Value where
  fresh d := d = Disk.empty
  boot d p := ∃ batches, batches.Perm d.batches ∧ p = load d batches
  step d p new d' p' :=
    ∃ a ls, a.Honest cfg ∧ step cfg a d p = some (ls, d', p') ∧ new = taken p p'
  dies _ _ := True

/-- The same over text without the line `null`, in runs that lose no record. -/
def orderly (cfg : Config) : Machine Disk Proc Value where
  fresh := (whole cfg).fresh
  boot := (whole cfg).boot
  step d p new d' p' :=
    ∃ ls, (whole cfg).step d p ls d' p' ∧ NullFree d'.queue ∧ new = taken p p'
  dies := (whole cfg).dies

/-- The cursor is that of the start of a line, a record before it has been ingested once, no
record twice, only records of complete lines, and the next `ingest` leaves out none. -/
structure ExactlyOnce (log : List Value) (d : Disk) (p : Proc) : Prop where
  cursor : LineStart d.queue d.cursor
  readTo : LineStart d.queue p.readTo
  before : ∀ h, RecordBefore d.queue d.cursor h → times log h = 1
  once : ∀ h, times log h ≤ 1
  lines : ∀ h, HasKey log h → RecordIn d.queue h
  next : p.phase = .idle → ∀ h, RecordIn d.queue h → times (log ++ taken p (ingest d p).2) h = 1

variable {cfg : Config} {d d' : Disk} {p p' : Proc} {ls : List Label} {log new : List Value}

lemma taken_of_phase (h : ∀ c, p'.phase ≠ .ingested c) : taken p p' = [] := by
  rw [taken]
  split
  · next c _ hc => exact absurd hc (h c)
  · rfl

lemma taken_of_busy (h : p.phase ≠ .idle) : taken p p' = [] := by
  rw [taken]
  split
  · next hp _ => exact absurd hp h
  · rfl

/-! ### The loop over the lines -/

/-- A proof hash the map knows. -/
def Anchored.Knows (m : Anchored) (h : Str) : Prop := (m.get? (.str h)).any (· ≠ []) = true

/-- The loop adds records of its lines, each once and none it knows; it stops early at `null`. -/
lemma ingestLines_adds {anchored : Anchored} {backlog backlog' : List Value} {lines : List Str}
    {done : Bool} (h : ingestLines anchored backlog lines = (backlog', done)) :
    (done = false → Value.null ∈ lines.filterMap parse)
      ∧ ∃ added, backlog' = backlog ++ added ∧ ∀ k, times added k ≤ 1
        ∧ (HasKey added k → HasKey (lines.filterMap parse) k ∧ ¬ HasKey backlog k
          ∧ ¬ anchored.Knows k) := by
  induction lines generalizing backlog with
  | nil =>
      cases h
      exact ⟨fun hd => (nomatch hd), [], by simp, fun k => ⟨by simp [times], fun ⟨_, hi, _⟩ =>
        absurd hi List.not_mem_nil⟩⟩
  | cons line lines ih =>
      -- the line adds nothing
      have skip : ∀ {backlog : List Value}, ingestLines anchored backlog lines = (backlog', done) →
          (done = false → Value.null ∈ (line :: lines).filterMap parse)
          ∧ ∃ added, backlog' = backlog ++ added ∧ ∀ k, times added k ≤ 1
            ∧ (HasKey added k → HasKey ((line :: lines).filterMap parse) k ∧ ¬ HasKey backlog k
              ∧ ¬ anchored.Knows k) := by
        intro backlog hrest
        have hsub : ∀ {v : Value}, v ∈ lines.filterMap parse → v ∈ (line :: lines).filterMap parse :=
          fun hv => by
            rw [List.filterMap_cons]
            split
            · exact hv
            · exact List.mem_cons_of_mem _ hv
        obtain ⟨hnull, added, heq, hadded⟩ := ih hrest
        refine ⟨fun hd => hsub (hnull hd), added, heq, fun k => ⟨(hadded k).1, fun hk => ?_⟩⟩
        obtain ⟨⟨i, hi, hik⟩, hnot⟩ := (hadded k).2 hk
        exact ⟨⟨i, hsub hi, hik⟩, hnot⟩
      rw [ingestLines] at h
      split at h
      · exact skip h
      · split at h
        · exact skip h
        · next hparse =>
            cases h
            exact ⟨fun _ => by rw [List.filterMap_cons, hparse]; exact List.mem_cons_self,
              [], by simp, fun k => ⟨by simp [times], fun ⟨_, hi, _⟩ => absurd hi List.not_mem_nil⟩⟩
        · next item _ hparse =>
            split at h
            · exact skip h
            · next hthere =>
                split at h
                · exact skip h
                · next hanch =>
                    -- the item of the line is new, and known from here on
                    obtain ⟨hnull, added, rfl, hadded⟩ := skip h
                    refine ⟨hnull, item :: added, by simp, fun k => ?_⟩
                    obtain ⟨hle, hk⟩ := hadded k
                    by_cases hik : proofHash item = .str k
                    · have hzero : times added k = 0 := by
                        by_contra hne
                        refine (hk (times_pos.mp (Nat.pos_of_ne_zero hne))).2.1 ?_
                        exact ⟨item, by simp, hik⟩
                      refine ⟨?_, fun _ => ⟨⟨item, ?_, hik⟩, ?_, ?_⟩⟩
                      · have hcount : times (item :: added) k = times added k + 1 :=
                          List.countP_cons_of_pos (by simpa using hik)
                        omega
                      · rw [List.filterMap_cons, hparse]
                        exact List.mem_cons_self
                      · rw [← holdsKey_str, ← hik]
                        exact hthere
                      · rw [Anchored.Knows, ← hik]
                        exact hanch
                    · have hcount : times (item :: added) k = times added k :=
                        List.countP_cons_of_neg (by simpa using hik)
                      refine ⟨hcount ▸ hle, fun hmem => ?_⟩
                      have hrest : HasKey added k := by
                        rw [← times_pos, ← hcount]
                        exact times_pos.mpr hmem
                      obtain ⟨hline, hnot, hanch⟩ := hk hrest
                      exact ⟨hline, fun hold => hnot (hasKey_append.mpr (Or.inl hold)), hanch⟩

/-! ### What the process knows -/

/-- The process will not ingest a record with this proof hash again. -/
def Recognised (p : Proc) (h : Str) : Prop :=
  HasKey p.backlog h ∨ p.anchored.Knows h ∨ HasKey p.phase.limbo h
    ∨ ∃ b ∈ p.phase.starting, HasKey b.items h

/-- An item anywhere has this proof hash. -/
def Holds (d : Disk) (p : Proc) (h : Str) : Prop :=
  HasKey d.backlog h ∨ HasKey p.backlog h ∨ (∃ b ∈ p.batches, HasKey b.items h)
    ∨ HasKey p.phase.limbo h

lemma not_hasKey_nil {h : Str} : ¬ HasKey [] h := fun ⟨_, hi, _⟩ => absurd hi List.not_mem_nil

lemma str_sameKey {v : Value} {h : Str} : sameKey (.str h) v = true ↔ v = .str h := by
  rw [sameKey, beq_iff_eq]
  · exact eq_comm
  all_goals simp

/-- Other keys do not matter to what is found. -/
lemma find?_filter_other {m : Anchored} {k : Value} {h : Str} (hk : k ≠ .str h) :
    (m.filter fun e => !sameKey e.1 k).find? (fun e => sameKey e.1 (.str h))
      = m.find? fun e => sameKey e.1 (.str h) := by
  rw [List.find?_filter]
  congr 1
  funext e
  by_cases he : sameKey e.1 (.str h) = true
  · have hother : sameKey e.1 k = false := by
      rw [Bool.eq_false_iff, sameKey_str.mp he, Ne, str_sameKey]
      exact hk
    simp [he, hother]
  · simp [he]

lemma Anchored.knows_set {m : Anchored} {k : Value} {id h : Str} (hid : id ≠ [])
    (hm : m.Knows h ∨ k = .str h) : (m.set k id).Knows h := by
  rw [Knows, get?, Anchored.set, List.find?_append]
  by_cases hk : k = .str h
  · subst hk
    have hnone : (m.filter fun e => !sameKey e.1 (.str h)).find? (fun e => sameKey e.1 (.str h))
        = none := by
      refine List.find?_eq_none.mpr fun e he => ?_
      simpa using (List.mem_filter.mp he).2
    rw [hnone, Option.none_or, List.find?_cons_of_pos (by exact str_sameKey.mpr rfl)]
    simpa using hid
  · have hm := hm.resolve_right hk
    rw [Knows, get?] at hm
    rw [find?_filter_other hk]
    cases hf : m.find? fun e => sameKey e.1 (.str h) with
    | none => simp [hf] at hm
    | some e => simpa [hf] using hm

lemma Anchored.knows_delete {m : Anchored} {k : Value} {h : Str} (hm : m.Knows h)
    (hk : k ≠ .str h) : (m.delete k).Knows h := by
  rw [Knows, get?, Anchored.delete, find?_filter_other hk]
  exact hm

lemma Anchored.knows_setAll {m : Anchored} {b : Batch} {h : Str} (hid : b.id ≠ [])
    (hm : m.Knows h ∨ HasKey b.items h) : (m.setAll b).Knows h := by
  suffices hfold : ∀ (l : List Value) (m : Anchored), m.Knows h ∨ HasKey l h →
      Anchored.Knows (l.foldl (fun m i => m.set (proofHash i) b.id) m) h from hfold b.items m hm
  intro l
  induction l with
  | nil => exact fun m hm => hm.resolve_right not_hasKey_nil
  | cons i l ih =>
      rintro m (hm | ⟨j, hj, hk⟩)
      · exact ih _ (Or.inl (knows_set hid (Or.inl hm)))
      · rcases List.mem_cons.mp hj with rfl | hj
        · exact ih _ (Or.inl (knows_set hid (Or.inr hk)))
        · exact ih _ (Or.inr ⟨j, hj, hk⟩)

lemma Anchored.knows_deleteAll {m : Anchored} {items : List Value} {h : Str} (hm : m.Knows h)
    (hnot : ¬ HasKey items h) :
    Anchored.Knows (items.foldl (fun m i => Anchored.delete m (proofHash i)) m) h := by
  induction items generalizing m with
  | nil => exact hm
  | cons i items ih =>
      refine ih (knows_delete hm fun hk => hnot ⟨i, by simp, hk⟩) ?_
      rintro ⟨j, hj, hk⟩
      exact hnot ⟨j, by simp [hj], hk⟩

/-- `load` anchors the items of every batch that is not dropped. -/
lemma load_knows {d : Disk} {batches : List Batch} {h : Str} (hn : ∀ b ∈ batches, b.id ≠ [])
    (hin : InBatches batches h) : (load d batches).anchored.Knows h := by
  suffices hfold : ∀ (l : List Batch) (m : Anchored), (∀ b ∈ l, b.id ≠ []) →
      m.Knows h ∨ InBatches l h →
        Anchored.Knows (l.foldl (fun m b => if b.state = .dropped then m else m.setAll b) m) h from
    hfold batches [] hn (Or.inr hin)
  intro l
  induction l with
  | nil => exact fun m _ hm => hm.resolve_right fun ⟨_, hb, _⟩ => absurd hb List.not_mem_nil
  | cons b l ih =>
      intro m hn hm
      refine ih _ (fun c hc => hn c (List.mem_cons_of_mem _ hc)) ?_
      have hid := hn b List.mem_cons_self
      dsimp only
      rcases hm with hm | ⟨c, hc, hstate, hk⟩
      · refine Or.inl ?_
        split
        · exact hm
        · exact Anchored.knows_setAll hid (Or.inl hm)
      · rcases List.mem_cons.mp hc with rfl | hc
        · rw [if_neg hstate]
          exact Or.inl (Anchored.knows_setAll hid (Or.inr hk))
        · exact Or.inr ⟨c, hc, hstate, hk⟩

/-! ### Phases -/

lemma plain_of_settled {q : Phase} (hq : q.settled = true) : q.limbo = [] ∧ q.starting = [] := by
  cases q with
  | ingested | created | unqueued | reorging => cases hq
  | _ => exact ⟨rfl, rfl⟩

lemma readTo_of_settled (hp : p.phase.settled = true) : p.readTo = p.cursor := by
  rw [Proc.readTo]
  split
  · next hq => rw [hq] at hp; cases hp
  · rfl

lemma recognised_of_settled (hp : p.phase.settled = true) {h : Str} (hk : Recognised p h) :
    HasKey p.backlog h ∨ p.anchored.Knows h := by
  obtain ⟨hlimbo, hstarting⟩ := plain_of_settled hp
  rw [Recognised, hlimbo, hstarting] at hk
  rcases hk with hk | hk | hk | ⟨b, hb, -⟩
  · exact Or.inl hk
  · exact Or.inr hk
  · exact absurd hk not_hasKey_nil
  · exact absurd hb List.not_mem_nil

/-- After `saveChain` the batch is sent. -/
lemma settled_saveChain {b : Batch} {payload : Bytes} :
    (saveChain cfg b payload d p).2.phase.settled = true := by
  simp only [saveChain]
  split <;> rfl

/-- Where a rewritten batch leads: its items are in limbo, or nothing is. -/
lemma leads_limbo {b : Batch} {q : Phase} (h : b.Leads q) :
    q.starting = [] ∧ (q.limbo = [] ∨ q.limbo = b.items) ∧ ∀ c, q ≠ .ingested c := by
  cases h with
  | quiet _ hq =>
      obtain ⟨hlimbo, hstarting⟩ := plain_of_settled (settled_of_quiet hq)
      exact ⟨hstarting, Or.inl hlimbo, fun c hc => by rw [hc] at hq; cases hq⟩
  | resend => exact ⟨rfl, Or.inl rfl, fun c hc => (nomatch hc)⟩
  | requeue => exact ⟨rfl, Or.inr rfl, fun c hc => (nomatch hc)⟩

/-- The items of a new batch come from the backlog, and its id is a text. -/
lemma newBatch_source {key : Str} {nonce : ℕ} {sign : Bytes → ℕ → ℕ → Signed} {head : ℕ}
    {now : Str} {b : Batch} {payload : Bytes}
    (h : newBatch cfg p key nonce sign head now = some (b, payload)) :
    (∀ i ∈ b.items, i ∈ p.backlog) ∧ b.id ≠ [] := by
  simp only [newBatch, Option.bind_eq_bind, Option.pure_def] at h
  split at h
  · cases h
  · simp only [Option.bind_eq_some_iff] at h
    obtain ⟨sorted, hsorted, leaves, -, tree, -, first, -, last, -, prev, -, payload', -, h⟩ := h
    cases h
    refine ⟨fun i hi => ?_, by simp [batchId]⟩
    obtain ⟨found, hfound, rfl⟩ := Option.map_eq_some_iff.mp hsorted
    obtain ⟨⟨z, j⟩, hj, rfl⟩ := List.mem_map.mp hi
    have hmem : (z, j) ∈ found := (List.perm_insertionSort _ found).mem_iff.mp hj
    suffices hfrom : ∀ (l : List Value) (r : List (ℤ × Value)),
        (l.mapM fun i => (bigInt? (i.get (js "position"))).map (·, i)) = some r →
          ∀ e ∈ r, e.2 ∈ l from
      (List.mem_filter.mp (hfrom _ found hfound _ hmem)).1
    intro l
    induction l with
    | nil =>
        intro r hr e he
        cases hr
        exact absurd he List.not_mem_nil
    | cons i l ih =>
        intro r hr e he
        simp only [List.mapM_cons, Option.bind_eq_bind, Option.pure_def,
          Option.bind_eq_some_iff] at hr
        obtain ⟨e', he', r', hr', hcons⟩ := hr
        cases hcons
        obtain ⟨z', -, rfl⟩ := Option.map_eq_some_iff.mp he'
        rcases List.mem_cons.mp he with rfl | he
        · exact List.mem_cons_self
        · exact List.mem_cons_of_mem _ (ih r' hr' e he)

/-! ### What a move keeps -/

lemma readTo_move (hm : Move cfg d p ls d' p') (hp : p.phase ≠ .idle) : p'.readTo = p.readTo := by
  cases hm with
  | append => rfl
  | pass h hq => rw [readTo_of_settled h]; exact readTo_of_settled (settled_of_quiet hq)
  | forget h => simp only [Proc.readTo, Proc.at, h]
  | interrupt h | ingest h => exact absurd h hp
  | cursor h => simp only [Proc.readTo, saveCursor, h]
  | create h => simp only [Proc.readTo, Proc.at, Proc.saveBatch, h]
  | unqueue h => simp only [Proc.readTo, Ceiling.unqueue, h]
  | chain h =>
      rw [readTo_of_settled settled_saveChain]
      simp only [Proc.readTo, saveChain, h]
  | resume h => simp only [Proc.readTo, Proc.at, h]
  | broadcast h => simp only [Proc.readTo, Proc.at, h]
  | @update b b' q h _ _ hq =>
      rw [readTo_of_settled h, Proc.readTo]
      split
      · next c hc => exact absurd hc ((leads_limbo hq).2.2 c)
      · rfl
  | requeue h => simp only [Proc.readTo, Ceiling.requeue, h]

/-- Nothing comes from nowhere: past `ingest`, what is held was held before. -/
lemma Holds.of_move (hm : Move cfg d p ls d' p') (hp : p.phase ≠ .idle) {h : Str}
    (hk : Holds d' p' h) : Holds d p h := by
  have plain : ∀ {q : Phase}, q.limbo = [] → Holds d (p.at q) h → Holds d p h := by
    rintro q hq (hk | hk | hk | hk)
    · exact Or.inl hk
    · exact Or.inr (Or.inl hk)
    · exact Or.inr (Or.inr (Or.inl hk))
    · rw [show (p.at q).phase.limbo = [] from hq] at hk
      exact absurd hk not_hasKey_nil
  cases hm with
  | append => exact hk
  | pass _ hq => exact plain (plain_of_settled (settled_of_quiet hq)).1 hk
  | forget | resume | broadcast => exact plain rfl hk
  | interrupt h | ingest h => exact absurd h hp
  | cursor => exact plain (q := .ready) rfl hk
  | @create b payload _ _ _ _ _ _ _ hb =>
      rcases hk with hk | hk | ⟨x, hx, hk⟩ | hk
      · exact Or.inl hk
      · exact Or.inr (Or.inl hk)
      · rcases mem_setBatch.mp hx with rfl | ⟨hx, -⟩
        · obtain ⟨i, hi, hk⟩ := hk
          exact Or.inr (Or.inl ⟨i, (newBatch_source hb).1 i hi, hk⟩)
        · exact Or.inr (Or.inr (Or.inl ⟨x, hx, hk⟩))
      · exact absurd hk not_hasKey_nil
  | @unqueue b payload =>
      have hfilter : ∀ {l : List Value} {f : Value → Bool}, HasKey (l.filter f) h → HasKey l h :=
        fun ⟨i, hi, hk⟩ => ⟨i, (List.mem_filter.mp hi).1, hk⟩
      rcases hk with hk | hk | hk | hk
      · exact Or.inr (Or.inl (hfilter (hasKey_jsonForm.mp hk)))
      · exact Or.inr (Or.inl (hfilter hk))
      · exact Or.inr (Or.inr (Or.inl hk))
      · exact absurd hk not_hasKey_nil
  | chain =>
      rcases hk with hk | hk | hk | hk
      · exact Or.inl hk
      · exact Or.inr (Or.inl hk)
      · exact Or.inr (Or.inr (Or.inl hk))
      · rw [(plain_of_settled settled_saveChain).1] at hk
        exact absurd hk not_hasKey_nil
  | @update b b' q _ hb hadv hq =>
      have hitems : HasKey b'.items h → Holds d p h := fun hk =>
        Or.inr (Or.inr (Or.inl ⟨b, hb, hadv.succeeds.items ▸ hk⟩))
      rcases hk with hk | hk | ⟨x, hx, hk⟩ | hk
      · exact Or.inl hk
      · exact Or.inr (Or.inl hk)
      · rcases mem_setBatch.mp hx with rfl | ⟨hx, -⟩
        · exact hitems hk
        · exact Or.inr (Or.inr (Or.inl ⟨x, hx, hk⟩))
      · rw [show ((p.saveBatch b').at q).phase = q from rfl] at hk
        rcases (leads_limbo hq).2.1 with hlimbo | hlimbo
        · rw [hlimbo] at hk
          exact absurd hk not_hasKey_nil
        · exact hitems (hlimbo ▸ hk)
  | @requeue b left safe fin h' =>
      have hback : HasKey (Ceiling.requeue b left safe fin d p).2.backlog h → Holds d p h := by
        intro hk
        rcases hasKey_append.mp hk with hk | ⟨i, hi, hk⟩
        · refine Or.inr (Or.inr (Or.inr ?_))
          rw [h']
          exact hk
        · exact Or.inr (Or.inl ⟨i, (List.mem_filter.mp hi).1, hk⟩)
      rcases hk with hk | hk | hk | hk
      · exact hback (hasKey_jsonForm.mp hk)
      · exact hback hk
      · exact Or.inr (Or.inr (Or.inl hk))
      · exact absurd hk not_hasKey_nil

/-- What the process recognises it recognises later on. -/
lemma Recognised.move (hm : Move cfg d p ls d' p') (hok : tidy d p ls d' p' = true)
    (hacc : Accounted d p) (hn : ∀ b ∈ p.batches, b.id ≠ []) {h : Str} (hk : Recognised p h) :
    Recognised p' h := by
  have settled : p.phase.settled = true → HasKey p.backlog h ∨ p.anchored.Knows h :=
    fun hp => recognised_of_settled hp hk
  have stays : ∀ q, HasKey p.backlog h ∨ p.anchored.Knows h → Recognised (p.at q) h :=
    fun q hk => hk.elim Or.inl fun hk => Or.inr (Or.inl hk)
  cases hm with
  | append => exact hk
  | pass hp => exact stays _ (settled hp)
  | forget hp =>
      rw [tidy, hp, Bool.and_eq_true] at hok
      exact absurd hok.2 Bool.false_ne_true
  | interrupt hp hl | ingest hp hl =>
      exact (settled (by rw [hp]; rfl)).elim (fun hk => Or.inl (ingestLines_keeps hl hk))
        fun hk => Or.inr (Or.inl hk)
  | cursor hp =>
      rw [Recognised, hp] at hk
      rcases hk with hk | hk | hk | ⟨b, hb, -⟩
      · exact Or.inl hk
      · exact Or.inr (Or.inl hk)
      · exact absurd hk not_hasKey_nil
      · exact absurd hb List.not_mem_nil
  | create hp =>
      exact (settled (by rw [hp]; rfl)).elim Or.inl fun hk => Or.inr (Or.inl hk)
  | @unqueue b payload hp =>
      rw [Recognised, hp] at hk
      rcases hk with ⟨i, hi, hk⟩ | hk | hk | hk
      · by_cases hin : HasKey b.items h
        · exact Or.inr (Or.inr (Or.inr ⟨b, List.mem_singleton.mpr rfl, hin⟩))
        · refine Or.inl ⟨i, List.mem_filter.mpr ⟨hi, ?_⟩, hk⟩
          rw [hk, Bool.not_eq_true', Bool.eq_false_iff, Ne, holdsKey_str]
          exact hin
      · exact Or.inr (Or.inl hk)
      · exact absurd hk not_hasKey_nil
      · exact Or.inr (Or.inr (Or.inr hk))
  | @chain b payload hp =>
      obtain ⟨hb, -⟩ := hacc.starting b (by rw [hp]; exact List.mem_singleton.mpr rfl)
      have hset : p.anchored.Knows h ∨ HasKey b.items h →
          Recognised (saveChain cfg b payload d p).2 h := fun hm =>
        Or.inr (Or.inl (Anchored.knows_setAll (hn b hb) hm))
      rw [Recognised, hp] at hk
      rcases hk with hk | hk | hk | ⟨c, hc, hk⟩
      · exact Or.inl hk
      · exact hset (Or.inl hk)
      · exact absurd hk not_hasKey_nil
      · rw [List.mem_singleton.mp hc] at hk
        exact hset (Or.inr hk)
  | resume hp | broadcast hp => exact stays _ (settled (by rw [hp]; rfl))
  | update hp => exact (settled hp).elim Or.inl fun hk => Or.inr (Or.inl hk)
  | @requeue b left safe fin hp =>
      rw [Recognised, hp] at hk
      by_cases hin : HasKey b.items h
      · exact Or.inl (hasKey_append.mpr (Or.inl hin))
      · rcases hk with ⟨i, hi, hk⟩ | hk | hk | ⟨c, hc, -⟩
        · refine Or.inl (hasKey_append.mpr (Or.inr ⟨i, List.mem_filter.mpr ⟨hi, ?_⟩, hk⟩))
          rw [hk, Bool.not_eq_true', Bool.eq_false_iff, Ne, holdsKey_str]
          exact hin
        · exact Or.inr (Or.inl (Anchored.knows_deleteAll hk hin))
        · exact absurd hk hin
        · exact absurd hc List.not_mem_nil

/-- Every batch keeps a name. -/
lemma named_move (hm : Move cfg d p ls d' p') (hn : ∀ b ∈ p.batches, b.id ≠ []) :
    ∀ b ∈ p'.batches, b.id ≠ [] := by
  cases hm with
  | create _ _ hb =>
      intro x hx
      rcases mem_setBatch.mp hx with rfl | ⟨hx, -⟩
      · exact (newBatch_source hb).2
      · exact hn x hx
  | update _ hb hadv =>
      intro x hx
      rcases mem_setBatch.mp hx with rfl | ⟨hx, -⟩
      · rw [hadv.id_eq]
        exact hn _ hb
      · exact hn x hx
  | _ => exact hn

/-! ### Invariant -/

/-- The log against the queue file, the backlogs and the batches. -/
structure Traced (log : List Value) (d : Disk) (p : Proc) : Prop where
  once : ∀ h, times log h ≤ 1
  lines : ∀ h, HasKey log h → RecordIn d.queue h
  before : ∀ h, RecordBefore d.queue p.cursor h → HasKey log h
  read : ∀ h, RecordBefore d.queue p.readTo h → HasKey log h
  saved : ∀ h, HasKey log h → RecordBefore d.queue p.readTo h
    ∨ (p.phase = .idle ∧ (HasKey d.backlog h ∨ InBatches p.batches h))
  source : ∀ h, Holds d p h → HasKey log h
  known : ∀ h, HasKey log h → Recognised p h
  named : ∀ b ∈ p.batches, b.id ≠ []

/-- What the disk has to hold for the next process. -/
structure Disk.Traces (log : List Value) (d : Disk) : Prop where
  once : ∀ h, times log h ≤ 1
  lines : ∀ h, HasKey log h → RecordIn d.queue h
  before : ∀ h, RecordBefore d.queue d.cursor h → HasKey log h
  saved : ∀ h, HasKey log h → HasKey d.backlog h ∨ InBatches d.batches h
  source : ∀ h, HasKey d.backlog h ∨ (∃ b ∈ d.batches, HasKey b.items h) → HasKey log h
  named : ∀ b ∈ d.batches, b.id ≠ []

lemma Disk.Traces.boot (h : d.Traces log) {batches : List Batch} (hp : batches.Perm d.batches) :
    Traced log d (load d batches) := by
  have hn : ∀ b ∈ batches, b.id ≠ [] := fun b hb => h.named b (hp.mem_iff.mp hb)
  have hsaved : ∀ k, HasKey log k → HasKey d.backlog k ∨ InBatches batches k := fun k hk =>
    (h.saved k hk).imp_right (inBatches_perm hp).mpr
  exact {
    once := h.once
    lines := h.lines
    before := h.before
    read := h.before
    saved := fun k hk => Or.inr ⟨rfl, hsaved k hk⟩
    source := by
      rintro k (hk | hk | ⟨b, hb, hk⟩ | hk)
      · exact h.source k (Or.inl hk)
      · exact h.source k (Or.inl hk)
      · exact h.source k (Or.inr ⟨b, hp.mem_iff.mp hb, hk⟩)
      · exact absurd hk not_hasKey_nil
    known := fun k hk => (hsaved k hk).elim Or.inl fun hin => Or.inr (Or.inl (load_knows hn hin))
    named := hn }

/-- Where `reorged` is not half done the disk traces the log. -/
lemma Traced.traces (h : Traced log d p) (hacc : Accounted d p) (hc : Consistent d p)
    (hp : p.phase.isReorging = false) : d.Traces log where
  once := h.once
  lines := h.lines
  before k hk := h.before k (hacc.cursor ▸ hk)
  saved k hk := by
    have hlimbo : p.phase.limbo = [] := by
      cases hphase : p.phase with
      | reorging =>
          rw [hphase] at hp
          cases hp
      | _ => rfl
    have hdisk : HasKey d.backlog k ∨ InBatches p.batches k := by
      rcases h.saved k hk with hk | ⟨-, hk⟩
      · rcases hacc.read k hk with hk | hk | hk
        · exact Or.inl hk
        · exact Or.inr hk
        · rw [hlimbo] at hk
          exact absurd hk not_hasKey_nil
      · exact hk
    exact hdisk.imp_right fun hk => (inBatches_perm hc.same).mp (inBatches_stored.mpr hk)
  source := by
    rintro k (hk | ⟨b, hb, hk⟩)
    · exact h.source k (Or.inl hk)
    · obtain ⟨x, hx, rfl⟩ := hc.mem_disk.mp hb
      exact h.source k (Or.inr (Or.inr (Or.inl ⟨x, hx, hasKey_jsonForm.mp hk⟩)))
  named b hb := by
    obtain ⟨x, hx, rfl⟩ := hc.mem_disk.mp hb
    exact h.named x hx

/-- The records of complete lines stay when the file grows. -/
lemma RecordIn.append {queue bytes : Bytes} {n : ℕ} (hn : Boundary queue n) (hq : CutText queue)
    {h : Str} (hk : RecordIn queue h) : RecordIn (queue ++ bytes) h := by
  obtain ⟨hnext, -⟩ := hn.advance hq
  rw [← recordBefore_next hn hq] at hk
  exact (recordIn_iff (hnext.append bytes)).mpr (Or.inl ((recordBefore_append hnext.1).mpr hk))

/-- The parent appends. -/
lemma Traced.append (h : Traced log d p) (hacc : Accounted d p) (bytes : Bytes) :
    Traced log { d with queue := d.queue ++ bytes } p where
  once := h.once
  lines k hk := (h.lines k hk).append hacc.boundary hacc.text
  before k hk := h.before k ((recordBefore_append hacc.boundary.1).mp hk)
  read k hk := h.read k ((recordBefore_append hacc.readTo.1).mp hk)
  saved k hk := (h.saved k hk).imp_left (recordBefore_append hacc.readTo.1).mpr
  source := h.source
  known := h.known
  named := h.named

/-- Past `ingest` the log stays as it is. -/
lemma Traced.move (h : Traced log d p) (hacc : Accounted d p) (hm : Move cfg d p ls d' p')
    (hok : tidy d p ls d' p' = true) (hp : p.phase ≠ .idle) : Traced log d' p' := by
  have hread := readTo_move hm hp
  have hbefore : ∀ k, RecordBefore d.queue p.readTo k → HasKey log k := h.read
  have keep : d'.queue = d.queue → p'.cursor = p.cursor ∨ p'.cursor = p.readTo →
      Traced log d' p' := fun hqueue hcursor =>
    { once := h.once
      lines := by rw [hqueue]; exact h.lines
      before := by
        rw [hqueue]
        rcases hcursor with hcursor | hcursor
        · rw [hcursor]
          exact h.before
        · rw [hcursor]
          exact h.read
      read := by
        rw [hqueue, hread]
        exact h.read
      saved := fun k hk => by
        rw [hqueue, hread]
        exact (h.saved k hk).imp_right fun hidle => absurd hidle.1 hp
      source := fun k hk => h.source k (hk.of_move hm hp)
      known := fun k hk => (h.known k hk).move hm hok hacc h.named
      named := named_move hm h.named }
  cases hm with
  | append => exact h.append hacc _
  | cursor hphase => exact keep rfl (Or.inr (by rw [Proc.readTo, hphase]; rfl))
  | _ => exact keep rfl (Or.inl rfl)

/-- `ingest` logs every record of the complete lines that is not in the log. -/
lemma Traced.ingest (h : Traced log d p) (hacc : Accounted d p) (hnull : NullFree d.queue)
    (hp : p.phase = .idle) :
    Traced (log ++ taken p (ingest d p).2) (ingest d p).1 (ingest d p).2
      ∧ ∀ k, RecordIn d.queue k → HasKey (log ++ taken p (ingest d p).2) k := by
  have hset : p.phase.settled = true := by rw [hp]; rfl
  have hin := fun k => recordIn_iff (h := k) hacc.boundary
  have hknown : ∀ k, HasKey log k → HasKey p.backlog k ∨ p.anchored.Knows k := fun k hk =>
    recognised_of_settled hset (h.known k hk)
  rw [Ceiling.ingest]
  split
  · next hdone =>
      -- no complete line is left
      have hnil : uptoLastNewline (bufferToString (d.queue.drop p.cursor)) = [] := by
        rcases hdone with hdone | hdone
        · rw [List.drop_eq_nil_of_le hdone]
          rfl
        · exact hdone
      have hall : ∀ k, RecordIn d.queue k → RecordBefore d.queue p.cursor k := by
        intro k hk
        refine ((hin k).mp hk).resolve_right ?_
        rw [hnil, lineValues_nil]
        exact not_hasKey_nil
      have htaken : taken p (p.at .ready) = [] := taken_of_phase fun c hc => (by cases hc)
      rw [htaken, List.append_nil]
      exact ⟨{
        once := h.once
        lines := h.lines
        before := h.before
        read := h.before
        saved := fun k hk => Or.inl (hall k (h.lines k hk))
        source := fun k hk => h.source k (by
          rcases hk with hk | hk | hk | hk
          · exact Or.inl hk
          · exact Or.inr (Or.inl hk)
          · exact Or.inr (Or.inr (Or.inl hk))
          · exact absurd hk not_hasKey_nil)
        known := fun k hk => (hknown k hk).elim Or.inl fun hk => Or.inr (Or.inl hk)
        named := h.named }, fun k hk => h.before k (hall k hk)⟩
  · split
    · next backlog hl =>
        -- only `null` ends the loop early
        refine absurd ?_ hnull
        rw [lineValues_complete hacc.boundary]
        exact List.mem_append_right _ ((ingestLines_adds hl).1 rfl)
    · next backlog hl =>
        obtain ⟨-, added, rfl, hadded⟩ := ingestLines_adds hl
        have htaken : taken p { p with
            backlog := p.backlog ++ added
            phase := .ingested (p.cursor
              + (utf8Encode (uptoLastNewline (bufferToString (d.queue.drop p.cursor)))).length) }
            = added := by
          rw [taken, hp]
          exact List.drop_left
        have hlog : ∀ k, RecordIn d.queue k → HasKey (log ++ added) k := by
          intro k hk
          rcases (hin k).mp hk with hk | hk
          · exact hasKey_append.mpr (Or.inl (h.before k hk))
          · rcases ingestLines_takes hl hk with hk | hk
            · rcases hasKey_append.mp hk with hk | hk
              · exact hasKey_append.mpr (Or.inl (h.source k (Or.inr (Or.inl hk))))
              · exact hasKey_append.mpr (Or.inr hk)
            · refine hasKey_append.mpr (Or.inl (h.source k ?_))
              rcases hacc.anchored k hk with ⟨b, hb, -, hk⟩ | hk
              · exact Or.inr (Or.inr (Or.inl ⟨b, hb, hk⟩))
              · exact Or.inr (Or.inr (Or.inr hk))
        have hlines : ∀ k, HasKey (log ++ added) k → RecordIn d.queue k := by
          intro k hk
          rcases hasKey_append.mp hk with hk | hk
          · exact h.lines k hk
          · exact (hin k).mpr (Or.inr ((hadded k).2 hk).1)
        rw [htaken]
        refine ⟨?_, hlog⟩
        exact {
          once := fun k => by
            -- what is added was not in the log, which the process knows
            rw [times_append]
            by_cases hk : HasKey added k
            · obtain ⟨-, hnot, hanch⟩ := (hadded k).2 hk
              have hzero : times log k = 0 := by
                by_contra hne
                exact (hknown k (times_pos.mp (Nat.pos_of_ne_zero hne))).elim hnot hanch
              rw [hzero, zero_add]
              exact (hadded k).1
            · have hzero : times added k = 0 := by
                by_contra hne
                exact hk (times_pos.mp (Nat.pos_of_ne_zero hne))
              rw [hzero, add_zero]
              exact h.once k
          lines := hlines
          before := fun k hk => hasKey_append.mpr (Or.inl (h.before k hk))
          read := fun k hk => hlog k ((recordBefore_next hacc.boundary hacc.text).mp hk)
          saved := fun k hk =>
            Or.inl ((recordBefore_next hacc.boundary hacc.text).mpr (hlines k hk))
          source := fun k hk => by
            have hback : HasKey (p.backlog ++ added) k → HasKey (log ++ added) k := fun hk =>
              hasKey_append.mpr ((hasKey_append.mp hk).imp_left fun hk =>
                h.source k (Or.inr (Or.inl hk)))
            rcases hk with hk | hk | hk | hk
            · exact hback (hasKey_jsonForm.mp hk)
            · exact hback hk
            · exact hasKey_append.mpr (Or.inl (h.source k (Or.inr (Or.inr (Or.inl hk)))))
            · exact absurd hk not_hasKey_nil
          known := fun k hk => by
            rcases hasKey_append.mp hk with hk | hk
            · exact (hknown k hk).elim (fun hk => Or.inl (hasKey_append.mpr (Or.inl hk)))
                fun hk => Or.inr (Or.inl hk)
            · exact Or.inl (hasKey_append.mpr (Or.inr hk))
          named := h.named }

/-! ### Exactly once -/

/-- Between two ticks the next step is the parent's or `ingest`. -/
lemma step_idle {a : Answer} (hp : p.phase = .idle) (hs : step cfg a d p = some (ls, d', p')) :
    (∃ bytes, d' = { d with queue := d.queue ++ bytes } ∧ p' = p)
      ∨ (d' = (ingest d p).1 ∧ p' = (ingest d p).2) := by
  cases a with
  | append bytes =>
      rw [step_append] at hs
      cases hs
      exact Or.inl ⟨bytes, rfl, rfl⟩
  | proceed =>
      simp only [step, hp, Option.some.injEq, Prod.mk.injEq] at hs
      obtain ⟨-, hs⟩ := hs
      exact Or.inr ⟨(congrArg Prod.fst hs).symm, (congrArg Prod.snd hs).symm⟩
  | _ => simp [step, hp, Phase.mayThrow] at hs

/-- The invariants in every state of a run over text. -/
theorem reach_traced (h : (orderly cfg).Reach log d p) :
    Traced log d p ∧ Accounted d p ∧ NullFree d.queue := by
  refine (h.recover
    (D := fun log d => d.Traces log ∧ d.Accounts ∧ d.WellKept ∧ NullFree d.queue)
    (I := fun log d p => (Traced log d p ∧ Accounted d p ∧ NullFree d.queue) ∧ Consistent d p)
    ?_ ?_ ?_ ?_).1
  · rintro d rfl
    have hnil : lineValues (bufferToString (List.take Disk.empty.cursor Disk.empty.queue)) = [] :=
      lineValues_nil
    refine ⟨⟨fun k => Nat.zero_le 1, fun k hk => absurd hk not_hasKey_nil, fun k hk => ?_,
      fun k hk => absurd hk not_hasKey_nil, ?_, fun b hb => absurd hb List.not_mem_nil⟩,
      ⟨⟨[], by simp, List.nil_prefix⟩, ⟨le_rfl, [], by simp, rfl, Or.inl rfl⟩, fun k hk => ?_⟩,
      ⟨List.nodup_nil, fun b hb => absurd hb List.not_mem_nil⟩, ?_⟩
    · rw [RecordBefore, hnil] at hk
      exact absurd hk not_hasKey_nil
    · rintro k (hk | ⟨b, hb, -⟩)
      · exact absurd hk not_hasKey_nil
      · exact absurd hb List.not_mem_nil
    · rw [RecordBefore, hnil] at hk
      exact absurd hk not_hasKey_nil
    · rw [NullFree, show completeText Disk.empty.queue = [] from rfl, lineValues_nil]
      exact List.not_mem_nil
  · rintro log d p ⟨htr, hac, hkept, hnull⟩ ⟨batches, hperm, rfl⟩
    exact ⟨⟨htr.boot hperm, hac.boot hperm, hnull⟩, hkept.boot hperm⟩
  · rintro log d p new d' p' ⟨⟨htr, hac, hnull⟩, hc⟩ ⟨ls, ⟨⟨a, ha, hs⟩, hok⟩, hnull', rfl⟩
    have hm := step_move hc.pollsOpen ha hs
    refine ⟨⟨?_, hac.move hc hm hok, hnull'⟩, hc.move hm⟩
    by_cases hp : p.phase = .idle
    · rcases step_idle hp hs with ⟨bytes, rfl, rfl⟩ | ⟨rfl, rfl⟩
      · have htaken : taken p' p' = [] := taken_of_phase fun c hc => by
          rw [hp] at hc
          cases hc
        rw [htaken, List.append_nil]
        exact htr.append hac bytes
      · exact (htr.ingest hac hnull hp).1
    · rw [taken_of_busy hp, List.append_nil]
      exact htr.move hac hm hok hp
  · rintro log d p ⟨⟨htr, hac, hnull⟩, hc⟩ ⟨-, hok⟩
    have hp : p.phase.isReorging = false := by simpa using hok
    exact ⟨htr.traces hac hc hp, hac.accounts hc hp, hc.wellKept, hnull⟩

/-- **Exactly once.** Over a queue file that stays text without the line `null`, in a run that
loses no record: the cursor is that of the start of a line, and each record of a complete line is
ingested once, however the appends are read and wherever the process dies. -/
theorem ingest_exactly_once (cfg : Config) (log : List Value) (d : Disk) (p : Proc)
    (h : (orderly cfg).Reach log d p) : ExactlyOnce log d p := by
  obtain ⟨htr, hac, hnull⟩ := reach_traced h
  have hone : ∀ {l : List Value} {k : Str}, times l k ≤ 1 → HasKey l k → times l k = 1 :=
    fun hle hk => le_antisymm hle (times_pos.mpr hk)
  exact {
    cursor := LineStart.of_boundary (hac.cursor ▸ hac.boundary)
    readTo := LineStart.of_boundary hac.readTo
    before := fun k hk => hone (htr.once k) (htr.before k (hac.cursor ▸ hk))
    once := htr.once
    lines := htr.lines
    next := fun hp k hk =>
      have hingest := htr.ingest hac hnull hp
      hone (hingest.1.once k) (hingest.2 k hk) }

/-- No complete line is `null`, as a test. -/
def nullFree (queue : Bytes) : Bool := (lineValues (completeText queue)).all fun v => v ≠ .null

/-- The answers executed under a policy, with what is ingested. -/
def logRun (cfg : Config) (okStep : Disk → Proc → List Label → Disk → Proc → Bool) :
    List Answer → List Value → Disk → Proc → Option (List Value × Disk × Proc)
  | [], log, d, p => some (log, d, p)
  | a :: as, log, d, p => do
      let (ls, d', p') ← step cfg a d p
      if okStep d p ls d' p' then logRun cfg okStep as (log ++ taken p p') d' p' else none

/-- The policy of `orderly`. -/
def orderlyStep (d : Disk) (p : Proc) (ls : List Label) (d' : Disk) (p' : Proc) : Bool :=
  tidy d p ls d' p' && nullFree d'.queue

lemma nullFree_of_test {queue : Bytes} (h : nullFree queue = true) : NullFree queue := by
  intro hmem
  have hne := List.all_eq_true.mp h _ hmem
  exact of_decide_eq_true hne rfl

lemma reach_logRun {as : List Answer} {r : List Value × Disk × Proc}
    (h : (logged cfg).Reach log d p) (ha : ∀ a ∈ as, a.Honest cfg)
    (hr : logRun cfg anyStep as log d p = some r) : (logged cfg).Reach r.1 r.2.1 r.2.2 := by
  induction as generalizing log d p with
  | nil =>
      cases hr
      exact h
  | cons a as ih =>
      simp only [logRun, anyStep, if_true, Option.bind_eq_bind, Option.bind_eq_some_iff] at hr
      obtain ⟨⟨ls, d', p'⟩, hs, hr⟩ := hr
      exact ih (h.step ⟨a, ls, ha a (by simp), hs, rfl⟩) (fun b hb => ha b (by simp [hb])) hr

lemma reach_orderlyRun {as : List Answer} {r : List Value × Disk × Proc}
    (h : (orderly cfg).Reach log d p) (ha : ∀ a ∈ as, ∀ d, a.Admissible cfg d)
    (hr : logRun cfg orderlyStep as log d p = some r) : (orderly cfg).Reach r.1 r.2.1 r.2.2 := by
  induction as generalizing log d p with
  | nil =>
      cases hr
      exact h
  | cons a as ih =>
      simp only [logRun, Option.bind_eq_bind, Option.bind_eq_some_iff] at hr
      obtain ⟨⟨ls, d', p'⟩, hs, hr⟩ := hr
      split at hr
      · next hok =>
          rw [orderlyStep, Bool.and_eq_true] at hok
          exact ih (h.step ⟨ls, ⟨⟨a, ha a (by simp) d, hs⟩, hok.1⟩, nullFree_of_test hok.2, rfl⟩)
            (fun b hb => ha b (by simp [hb])) hr
      · cases hr

/-- The queue line of a record with a short proof hash. -/
def shortText : Str := js "\x7b\"proofHash\":\"k\"\x7d\n"

/-- The disk after `ingest` has saved the backlog and not the cursor. -/
def midway : Option (List Value × Disk × Proc) :=
  logRun sampleConfig orderlyStep [.proceed] [] { Disk.empty with queue := utf8Encode shortText }
    (load Disk.empty [])

/-- A record ingested by a process that dies before it saves the cursor, and read again by the
next one. -/
theorem ingest_exactly_once_sample : ∃ log d p, (orderly sampleConfig).Reach log d p
    ∧ 0 < times log (js "k") ∧ ExactlyOnce log d p := by
  have hcut : CutText (Disk.empty.queue ++ utf8Encode shortText) :=
    ⟨scalars shortText, fun c hc => isScalar_of_mem_scalars hc, List.prefix_rfl⟩
  have hstart : (orderly sampleConfig).Reach [] Disk.empty (load Disk.empty []) :=
    .start rfl ⟨[], List.Perm.nil, rfl⟩
  have happend : (orderly sampleConfig).Reach ([] ++ [])
      { Disk.empty with queue := utf8Encode shortText } (load Disk.empty []) :=
    .step hstart ⟨[], ⟨⟨.append (utf8Encode shortText), hcut, step_append _⟩, rfl⟩,
      nullFree_of_test (by decide +kernel), rfl⟩
  have hadm : ∀ a ∈ [Answer.proceed, .proceed], ∀ d, a.Admissible sampleConfig d := by
    simp [Answer.Admissible]
  have hrun : (midway.any fun r => r.2.2.phase.isReorging = false && r.2.1.batches.isEmpty
      && (logRun sampleConfig orderlyStep [.proceed, .proceed] r.1 r.2.1 (load r.2.1 [])).any
        fun s => times s.1 (js "k") == 1) = true := by
    decide +kernel
  obtain ⟨⟨log, d, p⟩, hr, htest⟩ := (Option.any_eq_true _ _).mp hrun
  rw [Bool.and_eq_true, Bool.and_eq_true] at htest
  obtain ⟨⟨hphase, hbatches⟩, hagain⟩ := htest
  have hsaved : (orderly sampleConfig).Reach log d p :=
    reach_orderlyRun happend (fun a ha => hadm a (by simpa using ha)) hr
  have hdied : (orderly sampleConfig).Reach log d (load d []) := by
    have hperm : [].Perm d.batches := by rw [List.isEmpty_iff.mp hbatches]
    exact .crash hsaved ⟨trivial, by simpa using hphase⟩ ⟨[], hperm, rfl⟩
  obtain ⟨⟨log', d', p'⟩, hr', htimes⟩ := (Option.any_eq_true _ _).mp hagain
  have hread := reach_orderlyRun hdied hadm hr'
  exact ⟨_, _, _, hread, by rw [eq_of_beq htimes]; exact Nat.one_pos,
    ingest_exactly_once sampleConfig _ _ _ hread⟩

/-- The parent's answers up to the second tick: a line that is the byte `0xFF`, then a record. -/
def tornAnswers : List Answer :=
  [.append [255, 10], .proceed, .proceed, .skip, .skip, .append (utf8Encode shortText)]

/-- A line that is no text. Its decoding is longer than the line, so the cursor is past the start
of the next record, which is never ingested. -/
theorem ingest_skips :
    ¬ ∀ log d p, (logged sampleConfig).Reach log d p → ExactlyOnce log d p := by
  intro hall
  have hadm : ∀ a ∈ tornAnswers, a.Honest sampleConfig := by
    simp [tornAnswers, Answer.Honest]
  have hrun : ((logRun sampleConfig anyStep tornAnswers [] Disk.empty (load Disk.empty [])).any
      fun r => r.2.2.phase.isIdle && (lineValues (completeText r.2.1.queue)).any
        (fun i => proofHash i = .str (js "k"))
        && (times (r.1 ++ taken r.2.2 (ingest r.2.1 r.2.2).2) (js "k") == 0)) = true := by
    decide +kernel
  obtain ⟨⟨log, d, p⟩, hr, htest⟩ := (Option.any_eq_true _ _).mp hrun
  rw [Bool.and_eq_true, Bool.and_eq_true] at htest
  obtain ⟨⟨hidle, hin⟩, hnone⟩ := htest
  have hphase : p.phase = .idle := by
    cases hp : p.phase with
    | idle => rfl
    | _ => simp [hp, Phase.isIdle] at hidle
  obtain ⟨i, hi, hk⟩ := List.any_eq_true.mp hin
  have hreach : (logged sampleConfig).Reach log d p :=
    reach_logRun (.start rfl ⟨[], List.Perm.nil, rfl⟩) hadm hr
  have hone := (hall log d p hreach).next hphase (js "k") ⟨i, hi, of_decide_eq_true hk⟩
  rw [eq_of_beq hnone] at hone
  cases hone

end Ceiling

end BitGraph
