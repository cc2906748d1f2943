import BitGraph.DigestFilter
import BitGraph.Lib.Events
import Mathlib.Data.List.TakeWhile

/-!
`digest-index.ts` and the compaction of `digest-index/compact/route.ts`: what the lookup calls
absent without asking the ledger.

* **The ledger.** A compaction folds the journal into the published filter: the filter first, the meta
  second.
* **An instance.** Calls of `digestIndex` share one load and the loaded object; a refresh holds on to
  the object it began with.
* **Folding.** `Fold` is `foldJournal`; what it reads comes in any order.
* **Main result.** `absent_told`: what an answer calls absent is in no journal that had landed at the
  last page of a listing it rests on, nor in the full build, while journals land in the order of their
  keys, compactions do not overlap and no refresh ends on an object loaded since it began (`inOrder`).

An instance may restart at any time. `DIGEST_INDEX` and `LEDGER_BUCKET` are set.
-/

namespace BitGraph

open Js

namespace DigestIndex

/-! ### The journal -/

def LIST_EVERY_MS : ℕ := 2000
def STAMP_WIDTH : ℕ := 13
def MAX_FOLD_KEYS : ℕ := 1500
def RETRY_AFTER_MS : ℕ := 30000
/-- The keys of a page. -/
def MaxKeys : ℕ := 1000
def MAX_JOURNALS : ℕ := 20000
def JOURNAL_PREFIX : Str := js "digest-journal/"

/-- `String(at).padStart(STAMP_WIDTH, "0")`. -/
def padStamp (n : ℕ) : Str := List.replicate (STAMP_WIDTH - (decimal n).length) 48 ++ decimal n

/-- What is listed comes in the order of its code units. -/
def codeUnits (s : Str) : List ℕ := s.map UInt16.toNat

/-- A key of `journalKeyFor`. -/
structure Key where
  stamp : ℕ
  rand : Str
  deriving DecidableEq

def Key.text (k : Key) : List ℕ :=
  codeUnits (JOURNAL_PREFIX ++ padStamp k.stamp ++ js "-" ++ k.rand ++ js ".json")

/-- Where the listing for a base begins. -/
def startAfter (cutoff : ℕ) : List ℕ := codeUnits (JOURNAL_PREFIX ++ padStamp cutoff)

/-- A journal object. -/
structure Entry where
  key : Key
  body : Bytes

/-- The digests of a journal object, `none` where it cannot be read. -/
def Entry.digests (e : Entry) : Option (List Str) :=
  (parse (decodeLossy e.body)).bind fun entry =>
    match entry.get (js "digests") with
    | .arr l => some (l.filterMap fun d => match d with
        | .str s => some s
        | _ => none)
    | _ => none

/-- A page of the listing after a key, and whether it is cut short. -/
def page (J : List Entry) (cursor : List ℕ) : List Key × Bool :=
  let rest := ((J.map Entry.key).filter fun k => cursor < k.text).mergeSort fun k k' => k.text ≤ k'.text
  (rest.take MaxKeys, MaxKeys < rest.length)

/-! ### Folding -/

/-- `foldJournal`: what is listed, and what of it is still to be read. -/
structure Fold where
  start : List ℕ
  cursor : List ℕ
  listed : List Key
  complete : Bool
  left : List Key
  /-- How many journals had landed at the last page. -/
  landed : ℕ
  deriving DecidableEq

def Fold.begin (start : List ℕ) : Fold := ⟨start, start, [], false, [], 0⟩

/-- One more page. -/
def Fold.list (f : Fold) (J : List Entry) : Fold :=
  let keys := (page J f.cursor).1
  let more := (page J f.cursor).2
  { f with
    cursor := (keys.getLast?.map Key.text).getD f.cursor
    listed := f.listed ++ keys
    complete := !more
    left := if more then [] else f.listed ++ keys
    landed := if more then f.landed else J.length }

/-- One more journal is read. -/
def Fold.read (f : Fold) (J : List Entry) (g : DigestFilter) (key : Key) : Option (Fold × DigestFilter) := do
  let e ← J.find? fun e => e.key = key
  let ds ← e.digests
  return ({ f with left := f.left.erase key }, ds.foldl (fun g d => g.add (canon d)) g)

/-- The furthest key that is folded. -/
def Fold.lastKey (f : Fold) : List ℕ := (f.listed.getLast?.map Key.text).getD f.start

def Fold.done (f : Fold) : Bool := f.complete && f.left.isEmpty

inductive FoldEvent where
  | page (ok : Bool)
  | read (key : Key) (ok : Bool)

/-- A step of `foldJournal`; the inner `none` is its `null`. -/
def Fold.step (f : Fold) (J : List Entry) (g : DigestFilter) :
    FoldEvent → Option (Option (Fold × DigestFilter))
  | .page ok =>
      if f.complete then none
      else if !ok then some none
      else if MAX_FOLD_KEYS < (f.list J).listed.length then some none
      else some (some (f.list J, g))
  | .read key ok =>
      if key ∉ f.left then none
      else if !ok then some none
      else some (f.read J g key)

/-! ### The ledger and its compaction -/

structure Meta where
  builtAt : ℕ
  cutoff : ℕ
  fullBuiltAt : Option ℕ

/-- A compaction between two answers of the ledger. -/
inductive Compact where
  | reads
  | base (m : Meta)
  | fold (m : Meta) (g : DigestFilter) (f : Fold)
  | putsBase (m : Meta) (g : DigestFilter)
  | putsMeta (m : Meta)

structure Ledger where
  journal : List Entry
  filter : Bytes
  baseMeta : Meta
  compacting : Option Compact
  /-- The digests of the full build, and its cutoff. -/
  built : List Str
  fullCutoff : ℕ

inductive CompactEvent where
  | starts
  | reads (ok : Bool)
  | page (ok : Bool)
  | read (key : Key) (ok : Bool)
  /-- Every worker is through, or stopped by a failure or by the budget. -/
  | stops
  | puts (now : ℕ)
  | dies

/-- The last key of the longest unbroken run that is folded. -/
def Fold.contiguous (f : Fold) : Option Key := (f.listed.takeWhile fun k => k ∉ f.left).getLast?

/-- A listing of a compaction also ends where it has enough. -/
def Fold.enough (f : Fold) : Fold :=
  if !f.complete && MAX_JOURNALS ≤ f.listed.length then { f with complete := true, left := f.listed } else f

def stepCompact (d : Ledger) : Option Compact → CompactEvent → Option Ledger
  | none, .starts => some { d with compacting := some .reads }
  | some .reads, .reads ok =>
      some { d with compacting := if ok then some (.base d.baseMeta) else none }
  | some (.base m), .reads ok =>
      match DigestFilter.parse d.filter with
      | some g =>
          if ok && m.fullBuiltAt.isSome then
            some { d with compacting := some (.fold m g (.begin (startAfter m.cutoff))) }
          else some { d with compacting := none }
      | none => some { d with compacting := none }
  | some (.fold m g f), .page ok =>
      if f.complete then none
      else if !ok then some { d with compacting := none }
      else some { d with compacting := some (.fold m g (f.list d.journal).enough) }
  | some (.fold m g f), .read key ok =>
      if key ∉ f.left then none
      else
        match if ok then f.read d.journal g key else none with
        | some (f', g') => some { d with compacting := some (.fold m g' f') }
        | none => some d
  | some (.fold m g f), .stops =>
      if !f.complete then none
      else
        match f.contiguous with
        | none => some { d with compacting := none }
        | some k =>
            if k.stamp < m.cutoff then some { d with compacting := none }
            else some { d with compacting := some (.putsBase { m with cutoff := k.stamp } g) }
  | some (.putsBase m g), .puts now =>
      some { d with filter := g.serialize, compacting := some (.putsMeta { m with builtAt := now }) }
  | some (.putsMeta m), .puts _ => some { d with baseMeta := m, compacting := none }
  | some _, .dies => some { d with compacting := none }
  | _, _ => none

/-! ### An instance -/

structure Loaded where
  filter : DigestFilter
  builtAt : ℕ
  lastKey : List ℕ
  listedAt : ℕ
  /-- How many journals had landed at the listing it rests on. -/
  landed : ℕ

/-- `load` between two answers of the ledger. -/
inductive Load where
  | reads
  | base (m : Option Meta)
  | fold (m : Meta) (g : DigestFilter) (f : Fold)

/-- A call of `digestIndex`. -/
inductive Call where
  | waits
  /-- The load it waited for returned. -/
  | resumes (loaded : Option ℕ)
  | refreshing (id : ℕ) (f : Fold)
  | noOpinion
  | answered (id : ℕ)
  | throws
  deriving DecidableEq

structure Instance where
  objects : List Loaded
  loaded : Option ℕ
  loading : Option Load
  coldUntil : ℕ
  calls : List Call

def Instance.boot : Instance := ⟨[], none, none, 0, []⟩

/-- `absent`. -/
def Loaded.absent (o : Loaded) (digest : Str) : Bool := !o.filter.has (canon digest)

/-- A call up to its first `await`. -/
def Instance.asks (p : Instance) (now : ℕ) : Option Instance :=
  match p.loaded with
  | none =>
      if now < p.coldUntil then some { p with calls := p.calls ++ [.noOpinion] }
      else some { p with loading := some (p.loading.getD .reads), calls := p.calls ++ [.waits] }
  | some id => do
      let o ← p.objects[id]?
      let call := if LIST_EVERY_MS < now - o.listedAt then .refreshing id (.begin o.lastKey) else .answered id
      return { p with calls := p.calls ++ [call] }

inductive LoadEvent where
  | reads (ok : Bool)
  | fold (e : FoldEvent)
  | ends (now : ℕ)

def Call.resume (r : Option ℕ) : Call → Call
  | .waits => .resumes r
  | c => c

/-- `load` returns, to all that wait for it. -/
def Instance.settles (p : Instance) : Option Loaded → Instance
  | none => { p with loading := none, calls := p.calls.map (Call.resume none) }
  | some o => { p with
      objects := p.objects ++ [o]
      loading := none
      calls := p.calls.map (Call.resume (some p.objects.length)) }

def stepLoad (d : Ledger) (p : Instance) : Option Load → LoadEvent → Option Instance
  | some .reads, .reads ok =>
      some { p with loading := some (.base (if ok then some d.baseMeta else none)) }
  | some (.base m), .reads ok =>
      match m, DigestFilter.parse d.filter with
      | some m, some g =>
          if ok && m.fullBuiltAt.isSome then
            some { p with loading := some (.fold m g (.begin (startAfter m.cutoff))) }
          else some (p.settles none)
      | _, _ => some (p.settles none)
  | some (.fold m g f), .fold e => do
      match ← f.step d.journal g e with
      | some (f', g') => return { p with loading := some (.fold m g' f') }
      | none => return p.settles none
  | some (.fold m g f), .ends now =>
      if f.done then some (p.settles (some ⟨g, m.builtAt, f.lastKey, now, f.landed⟩)) else none
  | _, _ => none

/-- A call goes on from `loaded = await loading`. -/
def Instance.resumes (p : Instance) (i now : ℕ) : Option Instance :=
  match p.calls[i]? with
  | some (.resumes none) =>
      some { p with loaded := none, coldUntil := now + RETRY_AFTER_MS, calls := p.calls.set i .noOpinion }
  | some (.resumes (some id)) => some { p with loaded := some id, calls := p.calls.set i (.answered id) }
  | _ => none

/-- A step of a refresh; a failed one drops what is loaded. -/
def Instance.refresh (p : Instance) (d : Ledger) (i : ℕ) (e : FoldEvent) (now : ℕ) : Option Instance :=
  match p.calls[i]? with
  | some (.refreshing id f) => do
      let o ← p.objects[id]?
      match ← f.step d.journal o.filter e with
      | some (f', g') => return { p with
          objects := p.objects.set id { o with filter := g' }
          calls := p.calls.set i (.refreshing id f') }
      | none => return { p with
          loaded := none
          coldUntil := now + RETRY_AFTER_MS
          calls := p.calls.set i .noOpinion }
  | _ => none

/-- A refresh is through: it writes to what is loaded by then. -/
def Instance.refreshed (p : Instance) (i now : ℕ) : Option Instance :=
  match p.calls[i]? with
  | some (.refreshing _ f) =>
      if !f.done then none
      else
        match p.loaded with
        | none => some { p with calls := p.calls.set i .throws }
        | some id => do
            let o ← p.objects[id]?
            return { p with
              objects := p.objects.set id { o with
                lastKey := f.lastKey, listedAt := now, landed := max o.landed f.landed }
              calls := p.calls.set i (.answered id) }
  | _ => none

/-! ### Runs -/

inductive Event where
  | lands (e : Entry)
  | compact (e : CompactEvent)
  | asks (now : ℕ)
  | load (e : LoadEvent)
  | resumes (i now : ℕ)
  | refresh (i : ℕ) (e : FoldEvent) (now : ℕ)
  | refreshed (i now : ℕ)

def fire : Event → Ledger → Instance → Option (List Empty × Ledger × Instance)
  | .lands e, d, p => some ([], { d with journal := d.journal ++ [e] }, p)
  | .compact e, d, p => (stepCompact d d.compacting e).map fun d' => ([], d', p)
  | .asks now, d, p => (p.asks now).map fun p' => ([], d, p')
  | .load e, d, p => (stepLoad d p p.loading e).map fun p' => ([], d, p')
  | .resumes i now, d, p => (p.resumes i now).map fun p' => ([], d, p')
  | .refresh i e now, d, p => (p.refresh d i e now).map fun p' => ([], d, p')
  | .refreshed i now, d, p => (p.refreshed i now).map fun p' => ([], d, p')

/-- Journals land in the order of their keys, behind the cutoff of the full build, and a refresh ends
on the object it began with, if any is loaded. -/
def inOrder : Event → Ledger → Instance → Bool
  | .lands e, d, _ => d.journal.all (fun e' => e'.key.text < e.key.text) && startAfter d.fullCutoff < e.key.text
  | .refreshed i _, _, p =>
      match p.calls[i]? with
      | some (.refreshing id _) => p.loaded.all (· == id)
      | _ => true
  | _, _, _ => true

/-- A full build has just been published. -/
structure Ledger.Fresh (d : Ledger) : Prop where
  journal : d.journal = []
  compacting : d.compacting = none
  cutoff : d.baseMeta.cutoff = d.fullCutoff
  filter : ∃ g : DigestFilter, g.Sound ∧ d.filter = g.serialize ∧ ∀ x ∈ d.built, g.has (canon x) = true

/-- The ledger, and an instance that may restart at any time. -/
def index : Machine Ledger Instance Empty :=
  Machine.onEvents Ledger.Fresh (fun _ p => p = .boot) fire fun e d p => inOrder e d p = true

/-! ### Keys -/

lemma lt_append_cons {l r : List ℕ} {x : ℕ} : l < l ++ x :: r := by
  induction l with
  | nil => exact List.nil_lt_cons x r
  | cons y l ih => exact List.cons_lt_cons_self.mpr ih

lemma startAfter_lt (k : Key) : startAfter k.stamp < k.text := by
  have htext : k.text = startAfter k.stamp ++ codeUnits (js "-" ++ k.rand ++ js ".json") := by
    simp [Key.text, startAfter, codeUnits]
  rw [htext]
  exact lt_append_cons

/-! ### What a filter was told -/

/-- A filter admits the digests of a journal. -/
def Told (g : DigestFilter) (e : Entry) : Prop :=
  ∀ ds, e.digests = some ds → ∀ x ∈ ds, g.has (canon x) = true

lemma Told.mono {g g' : DigestFilter} {e : Entry} (h : Told g e) (hle : g.Le g') : Told g' e :=
  fun ds hds x hx => hle _ (h ds hds x hx)

section Ordered

variable {J : List Entry} {built : List Str} {cutoff : ℕ} {g g' : DigestFilter} {k : List ℕ} {f : Fold}
  {e : Entry} {key : Key}

/-- The filter admits the full build and the journals up to a key. -/
structure Covers (J : List Entry) (built : List Str) (g : DigestFilter) (k : List ℕ) : Prop where
  sound : g.Sound
  built : ∀ x ∈ built, g.has (canon x) = true
  told : ∀ e ∈ J, ¬ k < e.key.text → Told g e

/-- No journal that lands in order has a key up to this one. -/
def Passed (J : List Entry) (cutoff : ℕ) (k : List ℕ) : Prop :=
  k ≤ startAfter cutoff ∨ ∃ e ∈ J, k ≤ e.key.text

/-- The journal may land. -/
structure Lands (J : List Entry) (cutoff : ℕ) (e : Entry) : Prop where
  last : ∀ e' ∈ J, e'.key.text < e.key.text
  cutoff : startAfter cutoff < e.key.text

/-- The keys of the journals ascend. -/
def Ascending (J : List Entry) : Prop := J.Pairwise fun e e' => e.key.text < e'.key.text

lemma Passed.lt (h : Passed J cutoff k) (he : Lands J cutoff e) : k < e.key.text := by
  rcases h with h | ⟨e', he', h⟩
  · exact h.trans_lt he.cutoff
  · exact h.trans_lt (he.last e' he')

lemma Passed.lands (h : Passed J cutoff k) : Passed (J ++ [e]) cutoff k := by
  rcases h with h | ⟨e', he', h⟩
  · exact Or.inl h
  · exact Or.inr ⟨e', List.mem_append_left _ he', h⟩

lemma Passed.startAfter {e : Entry} (he : e ∈ J) : Passed J cutoff (startAfter e.key.stamp) :=
  Or.inr ⟨e, he, (startAfter_lt e.key).le⟩

lemma Covers.mono (h : Covers J built g k) (hle : g.Le g') (hs : g'.Sound) : Covers J built g' k :=
  ⟨hs, fun x hx => hle _ (h.built x hx), fun e he hk => (h.told e he hk).mono hle⟩

lemma Covers.lands (h : Covers J built g k) (hk : k < e.key.text) : Covers (J ++ [e]) built g k := by
  refine { h with told := fun e' he' hk' => ?_ }
  rcases List.mem_append.mp he' with he' | he'
  · exact h.told e' he' hk'
  · rw [List.mem_singleton.mp he'] at hk'
    exact absurd hk hk'

lemma Ascending.nodup (hJ : Ascending J) : (J.map Entry.key).Nodup := by
  refine List.pairwise_map.mpr (hJ.imp fun {e e'} hlt heq => ?_)
  rw [heq] at hlt
  exact lt_irrefl _ hlt

lemma Ascending.lands (hJ : Ascending J) (he : Lands J cutoff e) : Ascending (J ++ [e]) :=
  List.pairwise_append.mpr ⟨hJ, List.pairwise_singleton _ _, fun e' he' _ hx =>
    List.mem_singleton.mp hx ▸ he.last e' he'⟩

/-! ### What a fold has done -/

/-- What is listed and read of the journal behind the start of a fold. -/
structure Fold.Good (J : List Entry) (built : List Str) (cutoff : ℕ) (g : DigestFilter) (f : Fold) : Prop where
  covers : Covers J built g f.start
  passed : Passed J cutoff f.start
  cursor : f.cursor = f.lastKey
  mem : ∀ key ∈ f.listed, ∃ e ∈ J, e.key = key
  ascending : f.listed.Pairwise fun key key' => key.text < key'.text
  listed : ∀ e ∈ J, f.start < e.key.text → e.key ∈ f.listed ∨ f.cursor < e.key.text
  read : f.complete = true → ∀ e ∈ J, e.key ∈ f.listed → e.key ∈ f.left ∨ Told g e
  landed_le : f.landed ≤ J.length
  landed : ∀ e ∈ J.take f.landed, f.start < e.key.text → e.key ∈ f.listed

lemma Fold.Good.begin (hc : Covers J built g k) (hp : Passed J cutoff k) :
    (Fold.begin k).Good J built cutoff g where
  covers := hc
  passed := hp
  cursor := rfl
  mem := fun _ h => absurd h List.not_mem_nil
  ascending := .nil
  listed := fun _ _ h => Or.inr h
  read := fun h => by cases h
  landed_le := Nat.zero_le _
  landed := fun _ h => absurd h List.not_mem_nil

lemma Fold.Good.lastKey_passed (h : f.Good J built cutoff g) : Passed J cutoff f.lastKey := by
  rw [Fold.lastKey]
  cases hlast : f.listed.getLast? with
  | none => exact h.passed
  | some key =>
      obtain ⟨e, he, rfl⟩ := h.mem key (List.mem_of_getLast? hlast)
      exact Or.inr ⟨e, he, le_rfl⟩

lemma Fold.Good.mono (h : f.Good J built cutoff g) (hle : g.Le g') (hs : g'.Sound) :
    f.Good J built cutoff g' :=
  { h with
    covers := h.covers.mono hle hs
    read := fun hc e he hl => (h.read hc e he hl).imp_right fun ht => ht.mono hle }

/-- A journal that lands is behind the cursor. -/
lemma Fold.Good.lands (h : f.Good J built cutoff g) (he : Lands J cutoff e) :
    f.Good (J ++ [e]) built cutoff g where
  covers := h.covers.lands (h.passed.lt he)
  passed := h.passed.lands
  cursor := h.cursor
  mem := by
    intro key hkey
    obtain ⟨e', he', heq⟩ := h.mem key hkey
    exact ⟨e', List.mem_append_left _ he', heq⟩
  ascending := h.ascending
  listed := by
    intro e' he' hlt
    rcases List.mem_append.mp he' with he' | he'
    · exact h.listed e' he' hlt
    · rw [List.mem_singleton.mp he']
      exact Or.inr (h.cursor ▸ h.lastKey_passed.lt he)
  read := by
    intro hc e' he' hl
    rcases List.mem_append.mp he' with he' | he'
    · exact h.read hc e' he' hl
    · rw [List.mem_singleton.mp he'] at hl
      obtain ⟨e'', he'', heq⟩ := h.mem _ hl
      have hlt := he.last e'' he''
      rw [heq] at hlt
      exact absurd hlt (lt_irrefl _)
  landed_le := h.landed_le.trans (by simp)
  landed := by rw [List.take_append_of_le_length h.landed_le]; exact h.landed

/-- What a page holds: the next keys, and all of them unless it is cut short. -/
lemma page_spec (hJ : Ascending J) (cursor : List ℕ) :
    (∀ key ∈ (page J cursor).1, cursor < key.text ∧ ∃ e ∈ J, e.key = key)
      ∧ ((page J cursor).1.Pairwise fun key key' => key.text < key'.text)
      ∧ (∀ e ∈ J, cursor < e.key.text → e.key ∈ (page J cursor).1
          ∨ (((page J cursor).1.getLast?.map Key.text).getD cursor) < e.key.text)
      ∧ ((page J cursor).2 = false → ∀ e ∈ J, cursor < e.key.text → e.key ∈ (page J cursor).1) := by
  set rest := (J.map Entry.key).filter fun k => cursor < k.text with hrest
  have hkeys : (J.map Entry.key).Pairwise fun k k' => k.text < k'.text := List.pairwise_map.mpr hJ
  have hasc : rest.Pairwise fun k k' => k.text < k'.text := hkeys.filter _
  have hsort : rest.mergeSort (fun k k' => decide (k.text ≤ k'.text)) = rest :=
    List.mergeSort_of_pairwise (hasc.imp fun hlt => decide_eq_true hlt.le)
  have hpage : page J cursor = (rest.take MaxKeys, decide (MaxKeys < rest.length)) := by
    rw [page, ← hrest, hsort]
  have hmem : ∀ e ∈ J, cursor < e.key.text → e.key ∈ rest := fun e he hlt =>
    List.mem_filter.mpr ⟨List.mem_map_of_mem he, decide_eq_true hlt⟩
  rw [hpage]
  refine ⟨fun key hkey => ?_, hasc.sublist (List.take_sublist _ _), fun e he hlt => ?_,
    fun hmore e he hlt => ?_⟩
  · obtain ⟨hin, hlt⟩ := List.mem_filter.mp (List.mem_of_mem_take hkey)
    obtain ⟨e, he, heq⟩ := List.mem_map.mp hin
    exact ⟨of_decide_eq_true hlt, e, he, heq⟩
  · have hin := hmem e he hlt
    rw [← List.take_append_drop MaxKeys rest] at hin hasc
    rcases List.mem_append.mp hin with hin | hin
    · exact Or.inl hin
    · right
      cases hlast : (rest.take MaxKeys).getLast? with
      | none => exact hlt
      | some key => exact (List.pairwise_append.mp hasc).2.2 key (List.mem_of_getLast? hlast) _ hin
  · rw [List.take_of_length_le (not_lt.mp (of_decide_eq_false hmore))]
    exact hmem e he hlt

/-- The last key of a fold is its greatest. -/
lemma Fold.Good.le_lastKey (h : f.Good J built cutoff g) (hkey : key ∈ f.listed) :
    key.text ≤ f.lastKey := by
  obtain ⟨init, last, heq⟩ : ∃ init last, f.listed = init ++ [last] :=
    ⟨_, _, (List.dropLast_append_getLast (List.ne_nil_of_mem hkey)).symm⟩
  have hasc := h.ascending
  rw [Fold.lastKey, heq, List.getLast?_append, List.getLast?_singleton]
  rw [heq] at hkey hasc
  rcases List.mem_append.mp hkey with hkey | hkey
  · exact ((List.pairwise_append.mp hasc).2.2 key hkey last (List.mem_singleton_self _)).le
  · rw [List.mem_singleton.mp hkey]
    rfl

lemma Fold.Good.list (hJ : Ascending J) (h : f.Good J built cutoff g) :
    (f.list J).Good J built cutoff g := by
  obtain ⟨hmem, hpage, hnext, hall⟩ := page_spec hJ f.cursor
  set keys := (page J f.cursor).1 with hkeys
  have hlisted : ∀ e ∈ J, f.start < e.key.text → e.key ∈ f.listed ++ keys
      ∨ ((keys.getLast?.map Key.text).getD f.cursor) < e.key.text := by
    intro e he hlt
    rcases h.listed e he hlt with hl | hl
    · exact Or.inl (List.mem_append_left _ hl)
    · exact (hnext e he hl).imp_left fun hin => List.mem_append_right _ hin
  have hcomplete : (page J f.cursor).2 = false → ∀ e ∈ J, f.start < e.key.text →
      e.key ∈ f.listed ++ keys := by
    intro hmore e he hlt
    rcases h.listed e he hlt with hl | hl
    · exact List.mem_append_left _ hl
    · exact List.mem_append_right _ (hall hmore e he hl)
  refine ⟨h.covers, h.passed, ?_, ?_, ?_, hlisted, ?_, ?_, ?_⟩
  · rw [Fold.list, Fold.lastKey]
    dsimp only
    rw [← hkeys, List.getLast?_append]
    cases hlast : keys.getLast? with
    | none => rw [Option.map_none, Option.getD_none, h.cursor, Fold.lastKey, Option.none_or]
    | some key => rfl
  · intro key hkey
    rcases List.mem_append.mp hkey with hkey | hkey
    · exact h.mem key hkey
    · exact (hmem key hkey).2
  · refine List.pairwise_append.mpr ⟨h.ascending, hpage, fun key hkey key' hkey' => ?_⟩
    exact (h.le_lastKey hkey).trans_lt (h.cursor ▸ (hmem key' hkey').1)
  · intro hdone e he hl
    rw [Fold.list] at hdone hl ⊢
    dsimp only at hdone hl ⊢
    rw [Bool.not_eq_true'] at hdone
    rw [hdone, if_neg Bool.false_ne_true]
    exact Or.inl hl
  · rw [Fold.list]
    dsimp only
    split
    · exact h.landed_le
    · exact le_rfl
  · intro e he hlt
    rw [Fold.list] at he ⊢
    dsimp only at he ⊢
    split at he
    · exact List.mem_append_left _ (h.landed e he hlt)
    · next hmore => exact hcomplete (by simpa using hmore) e (List.mem_of_mem_take he) hlt

lemma Fold.Good.read_step (hJ : Ascending J) (h : f.Good J built cutoff g) {f' : Fold}
    (hr : f.read J g key = some (f', g')) :
    f'.Good J built cutoff g' ∧ g.Le g' ∧ g'.Sound := by
  rw [Fold.read] at hr
  obtain ⟨e, he, hr⟩ := Option.bind_eq_some_iff.mp hr
  obtain ⟨ds, hds, hr⟩ := Option.bind_eq_some_iff.mp hr
  obtain ⟨rfl, rfl⟩ := Prod.mk.inj (Option.some.inj hr)
  obtain ⟨hs, hle, hhas⟩ := DigestFilter.foldl_add h.covers.sound (ds.map canon)
  rw [List.foldl_map] at hs hle hhas
  have hkey : e.key = key := by simpa using List.find?_some he
  have hnow : Told (ds.foldl (fun g d => g.add (canon d)) g) e := by
    intro ds' hds' x hx
    obtain rfl := Option.some.inj (hds.symm.trans hds')
    exact hhas _ (List.mem_map_of_mem hx)
  refine ⟨{ h with covers := h.covers.mono hle hs, read := fun hc e' he' hl => ?_ }, hle, hs⟩
  rcases h.read hc e' he' hl with hleft | ht
  · by_cases hsame : e'.key = key
    · rw [List.inj_on_of_nodup_map hJ.nodup he' (List.mem_of_find?_eq_some he) (hsame.trans hkey.symm)]
      exact Or.inr hnow
    · exact Or.inl ((List.mem_erase_of_ne hsame).mpr hleft)
  · exact Or.inr (ht.mono hle)

lemma Fold.Good.step (hJ : Ascending J) (h : f.Good J built cutoff g) {ev : FoldEvent} {f' : Fold}
    (hs : f.step J g ev = some (some (f', g'))) : f'.Good J built cutoff g' ∧ g.Le g' ∧ g'.Sound := by
  cases ev with
  | page ok =>
      rw [Fold.step] at hs
      split at hs
      · cases hs
      · split at hs
        · cases hs
        · split at hs
          · cases hs
          · obtain ⟨rfl, rfl⟩ := Prod.mk.inj (Option.some.inj (Option.some.inj hs))
            exact ⟨h.list hJ, .refl g, h.covers.sound⟩
  | read key ok =>
      rw [Fold.step] at hs
      split at hs
      · cases hs
      · split at hs
        · cases hs
        · exact h.read_step hJ (Option.some.inj hs)

/-- A fold that is through covers its last key, and all that had landed at its last page. -/
lemma Fold.Good.done (h : f.Good J built cutoff g) (hd : f.done = true) :
    Covers J built g f.lastKey ∧ ∀ e ∈ J.take f.landed, Told g e := by
  rw [Fold.done, Bool.and_eq_true, List.isEmpty_iff] at hd
  have htold : ∀ e ∈ J, e.key ∈ f.listed → Told g e := by
    intro e he hl
    have hread := h.read hd.1 e he hl
    rw [hd.2] at hread
    exact hread.resolve_left List.not_mem_nil
  have hall : ∀ e ∈ J, ¬ f.lastKey < e.key.text → Told g e := by
    intro e he hlt
    by_cases hstart : f.start < e.key.text
    · exact htold e he ((h.listed e he hstart).resolve_right (h.cursor ▸ hlt))
    · exact h.covers.told e he hstart
  refine ⟨⟨h.covers.sound, h.covers.built, hall⟩, fun e he => ?_⟩
  by_cases hstart : f.start < e.key.text
  · exact htold e (List.mem_of_mem_take he) (h.landed e he hstart)
  · exact h.covers.told e (List.mem_of_mem_take he) hstart

/-- The unbroken run of a compaction covers the stamp of its last key. -/
lemma Fold.Good.contiguous (h : f.Good J built cutoff g) (hc : f.complete = true)
    (hk : f.contiguous = some key) :
    Covers J built g (startAfter key.stamp) ∧ Passed J cutoff (startAfter key.stamp) := by
  have hrun := List.mem_of_getLast? hk
  have hkey : key ∈ f.listed := (List.takeWhile_sublist _).mem hrun
  refine ⟨⟨h.covers.sound, h.covers.built, fun e he hlt => ?_⟩, ?_⟩
  · by_cases hstart : f.start < e.key.text
    · have hbefore : e.key.text < key.text := (not_lt.mp hlt).trans_lt (startAfter_lt key)
      have hl : e.key ∈ f.listed := by
        refine (h.listed e he hstart).resolve_right fun hcursor => ?_
        rw [h.cursor] at hcursor
        exact absurd (hcursor.trans hbefore) (not_lt.mpr (h.le_lastKey hkey))
      have hfolded : e.key ∈ f.listed.takeWhile fun k => k ∉ f.left := by
        have hasc := h.ascending
        rw [← List.takeWhile_append_dropWhile (p := fun k => decide (k ∉ f.left)) (l := f.listed)] at hl hasc
        refine (List.mem_append.mp hl).resolve_right fun hdrop => ?_
        exact absurd ((List.pairwise_append.mp hasc).2.2 key hrun _ hdrop) (not_lt.mpr hbefore.le)
      have hleft : e.key ∉ f.left := by simpa using List.mem_takeWhile_imp hfolded
      exact (h.read hc e he hl).resolve_left hleft
    · exact h.covers.told e he hstart
  · obtain ⟨e, he, rfl⟩ := h.mem key hkey
    exact .startAfter he

end Ordered

/-! ### The ledger -/

section Invariants

variable {d d' : Ledger} {p p' : Instance} {cutoff : ℕ} {e : Entry}

/-- The published filter covers a cutoff. -/
def Published (d : Ledger) (cutoff : ℕ) : Prop :=
  (∃ g, DigestFilter.parse d.filter = some g ∧ Covers d.journal d.built g (startAfter cutoff))
    ∧ Passed d.journal d.fullCutoff (startAfter cutoff)

/-- A filter admits what the published one does. -/
def Above (d : Ledger) (g : DigestFilter) : Prop :=
  ∀ g₀, DigestFilter.parse d.filter = some g₀ → g₀.Le g

def Compact.Good (d : Ledger) : Option Compact → Prop
  | some (.base m) => Published d m.cutoff
  | some (.fold _ g f) => Above d g ∧ f.Good d.journal d.built d.fullCutoff g
  | some (.putsBase m g) => Above d g ∧ Covers d.journal d.built g (startAfter m.cutoff)
      ∧ Passed d.journal d.fullCutoff (startAfter m.cutoff)
  | some (.putsMeta m) => Published d m.cutoff
  | _ => True

structure Ledger.Good (d : Ledger) : Prop where
  ascending : Ascending d.journal
  published : Published d d.baseMeta.cutoff
  compacting : Compact.Good d d.compacting

/-- What no step of a compaction touches, and what a published filter covers stays covered. -/
structure Ledger.Keeps (d d' : Ledger) : Prop where
  journal : d'.journal = d.journal
  built : d'.built = d.built
  fullCutoff : d'.fullCutoff = d.fullCutoff
  published : ∀ cutoff, Published d cutoff → Published d' cutoff

lemma Published.lands (h : Published d cutoff) (he : Lands d.journal d.fullCutoff e) :
    Published { d with journal := d.journal ++ [e] } cutoff := by
  obtain ⟨⟨g, hg, hc⟩, hp⟩ := h
  exact ⟨⟨g, hg, hc.lands (hp.lt he)⟩, hp.lands⟩

lemma Ledger.Good.lands (h : d.Good) (he : Lands d.journal d.fullCutoff e) :
    Ledger.Good { d with journal := d.journal ++ [e] } where
  ascending := h.ascending.lands he
  published := h.published.lands he
  compacting := by
    have hc := h.compacting
    cases hphase : d.compacting with
    | none => exact trivial
    | some phase =>
        rw [hphase] at hc
        cases phase with
        | reads => exact trivial
        | base m => exact Published.lands hc he
        | fold m g f => exact ⟨hc.1, hc.2.lands he⟩
        | putsBase m g => exact ⟨hc.1, hc.2.1.lands (hc.2.2.lt he), hc.2.2.lands⟩
        | putsMeta m => exact Published.lands hc he

/-- The filter is put over one that admits no more. -/
lemma Ledger.Good.putsBase (h : d.Good) {m : Meta} {g : DigestFilter} (ha : Above d g)
    (hc : Covers d.journal d.built g (startAfter m.cutoff))
    (hp : Passed d.journal d.fullCutoff (startAfter m.cutoff)) (now : ℕ) :
    let d' : Ledger := { d with
      filter := g.serialize, compacting := some (.putsMeta { m with builtAt := now }) }
    d'.Good ∧ d.Keeps d' := by
  intro d'
  have hparse : DigestFilter.parse d'.filter = some { g with added := g.added % 2 ^ 32 } :=
    DigestFilter.parse_serialize hc.sound
  have hs := hc.sound.recount (g.added % 2 ^ 32)
  have hkeep : ∀ cutoff, Published d cutoff → Published d' cutoff := by
    rintro cutoff ⟨⟨g₀, hg₀, hc₀⟩, hp₀⟩
    exact ⟨⟨_, hparse, hc₀.mono (ha g₀ hg₀) hs⟩, hp₀⟩
  exact ⟨⟨h.ascending, hkeep _ h.published, ⟨_, hparse, hc.mono (.refl _) hs⟩, hp⟩, rfl, rfl, rfl, hkeep⟩

lemma Fold.Good.enough {J : List Entry} {built : List Str} {g : DigestFilter} {f : Fold}
    (h : f.Good J built cutoff g) : f.enough.Good J built cutoff g := by
  rw [Fold.enough]
  split
  · exact { h with read := fun _ _ _ hl => Or.inl hl }
  · exact h

lemma Ledger.Good.compact (h : d.Good) {ev : CompactEvent}
    (hs : stepCompact d d.compacting ev = some d') : d'.Good ∧ d.Keeps d' := by
  have hmove : ∀ c, Compact.Good d c → Ledger.Good { d with compacting := c }
      ∧ d.Keeps { d with compacting := c } := fun c hc =>
    ⟨⟨h.ascending, h.published, by
      cases c with
      | none => exact trivial
      | some phase => cases phase <;> exact hc⟩, rfl, rfl, rfl, fun _ hp => hp⟩
  have hc := h.compacting
  cases hphase : d.compacting with
  | none =>
      rw [hphase] at hs
      cases ev <;> cases hs
      exact hmove _ trivial
  | some phase =>
      rw [hphase] at hs hc
      cases phase with
      | reads =>
          cases ev <;> cases hs
          · refine hmove _ ?_
            split
            · exact h.published
            · exact trivial
          · exact hmove _ trivial
      | base m =>
          cases ev with
          | reads ok =>
              obtain ⟨⟨g, hg, hcovers⟩, hp⟩ := hc
              rw [stepCompact, hg] at hs
              dsimp only at hs
              split at hs <;> cases hs
              · refine hmove _ ⟨fun g₀ hg₀ => ?_, .begin hcovers hp⟩
                obtain rfl := Option.some.inj (hg.symm.trans hg₀)
                exact .refl _
              · exact hmove _ trivial
          | dies =>
              cases hs
              exact hmove _ trivial
          | _ => cases hs
      | fold m g f =>
          obtain ⟨ha, hgood⟩ := hc
          cases ev with
          | page ok =>
              rw [stepCompact] at hs
              split at hs
              · cases hs
              · split at hs <;> cases hs
                · exact hmove _ trivial
                · exact hmove _ ⟨ha, (hgood.list h.ascending).enough⟩
          | read key ok =>
              rw [stepCompact] at hs
              split at hs
              · cases hs
              · split at hs
                · next f' g' hread =>
                    cases hs
                    split at hread
                    · obtain ⟨hgood', hle, -⟩ := hgood.read_step h.ascending hread
                      exact hmove _ ⟨fun g₀ hg₀ => (ha g₀ hg₀).trans hle, hgood'⟩
                    · cases hread
                · cases hs
                  exact ⟨h, rfl, rfl, rfl, fun _ hp => hp⟩
          | stops =>
              rw [stepCompact] at hs
              split at hs
              · cases hs
              · next hcomplete =>
                  split at hs
                  · cases hs
                    exact hmove _ trivial
                  · next k hk =>
                      split at hs <;> cases hs
                      · exact hmove _ trivial
                      · exact hmove _ ⟨ha, hgood.contiguous (by simpa using hcomplete) hk⟩
          | dies =>
              cases hs
              exact hmove _ trivial
          | _ => cases hs
      | putsBase m g =>
          cases ev <;> cases hs
          · exact h.putsBase hc.1 hc.2.1 hc.2.2 _
          · exact hmove _ trivial
      | putsMeta m =>
          cases ev <;> cases hs
          · exact ⟨⟨h.ascending, hc, trivial⟩, rfl, rfl, rfl, fun _ hp => hp⟩
          · exact hmove _ trivial

/-! ### The instance -/

/-- What a loaded object knows. -/
structure Loaded.Good (d : Ledger) (o : Loaded) : Prop where
  covers : Covers d.journal d.built o.filter o.lastKey
  passed : Passed d.journal d.fullCutoff o.lastKey
  landed_le : o.landed ≤ d.journal.length
  landed : ∀ e ∈ d.journal.take o.landed, Told o.filter e

def Load.Good (d : Ledger) : Option Load → Prop
  | some (.base (some m)) => Published d m.cutoff
  | some (.fold _ g f) => f.Good d.journal d.built d.fullCutoff g
  | _ => True

def Call.Good (d : Ledger) (objects : List Loaded) : Call → Prop
  | .resumes (some id) => id < objects.length
  | .refreshing id f => ∃ o, objects[id]? = some o ∧ f.Good d.journal d.built d.fullCutoff o.filter
  | .answered id => id < objects.length
  | _ => True

structure Instance.Good (d : Ledger) (p : Instance) : Prop where
  objects : ∀ o ∈ p.objects, o.Good d
  loaded : ∀ id ∈ p.loaded, id < p.objects.length
  loading : Load.Good d p.loading
  calls : ∀ c ∈ p.calls, c.Good d p.objects

lemma Instance.Good.boot : Instance.boot.Good d where
  objects := fun _ h => absurd h List.not_mem_nil
  loaded := fun _ h => by cases h
  loading := trivial
  calls := fun _ h => absurd h List.not_mem_nil

/-- What a ledger keeps of published filters, folds and objects, it keeps of an instance. -/
lemma Instance.Good.transfer (h : p.Good d) (hpublished : ∀ cutoff, Published d cutoff → Published d' cutoff)
    (hfold : ∀ {f : Fold} {g : DigestFilter}, f.Good d.journal d.built d.fullCutoff g →
      f.Good d'.journal d'.built d'.fullCutoff g)
    (hobject : ∀ o : Loaded, o.Good d → o.Good d') : p.Good d' where
  objects := fun o ho => hobject o (h.objects o ho)
  loaded := h.loaded
  loading := by
    have hl := h.loading
    cases hphase : p.loading with
    | none => exact trivial
    | some phase =>
        rw [hphase] at hl
        cases phase with
        | reads => exact trivial
        | base m =>
            cases m with
            | none => exact trivial
            | some m => exact hpublished _ hl
        | fold m g f => exact hfold hl
  calls := by
    intro c hc
    have hgood := h.calls c hc
    cases c with
    | resumes r => cases r <;> exact hgood
    | refreshing id f =>
        obtain ⟨o, ho, hf⟩ := hgood
        exact ⟨o, ho, hfold hf⟩
    | answered id => exact hgood
    | _ => exact trivial

lemma Instance.Good.lands (h : p.Good d) (he : Lands d.journal d.fullCutoff e) :
    p.Good { d with journal := d.journal ++ [e] } := by
  refine h.transfer (fun _ hp => hp.lands he) (fun hf => hf.lands he) fun o ho => ?_
  refine ⟨ho.covers.lands (ho.passed.lt he), ho.passed.lands, ho.landed_le.trans (by simp), ?_⟩
  rw [List.take_append_of_le_length ho.landed_le]
  exact ho.landed

lemma Instance.Good.keeps (h : p.Good d) (hk : d.Keeps d') : p.Good d' := by
  refine h.transfer hk.published (fun hf => ?_) fun o ho => ?_
  · rwa [hk.journal, hk.built, hk.fullCutoff]
  · exact ⟨by rw [hk.journal, hk.built]; exact ho.covers, by rw [hk.journal, hk.fullCutoff]; exact ho.passed,
      by rw [hk.journal]; exact ho.landed_le, by rw [hk.journal]; exact ho.landed⟩

/-- Another call, or another state of one. -/
lemma Instance.Good.push {c : Call} (h : p.Good d) (hc : c.Good d p.objects) :
    Instance.Good d { p with calls := p.calls ++ [c] } :=
  { h with
    calls := by
      intro c' hc'
      rcases List.mem_append.mp hc' with hc' | hc'
      · exact h.calls c' hc'
      · exact List.mem_singleton.mp hc' ▸ hc }

lemma Instance.Good.turn {c : Call} (h : p.Good d) (i : ℕ) (hc : c.Good d p.objects) :
    Instance.Good d { p with calls := p.calls.set i c } :=
  { h with
    calls := by
      intro c' hc'
      rcases List.mem_or_eq_of_mem_set hc' with hc' | rfl
      · exact h.calls c' hc'
      · exact hc }

/-- Nothing is loaded. -/
lemma Instance.Good.drop (h : p.Good d) (coldUntil : ℕ) :
    Instance.Good d { p with loaded := none, coldUntil := coldUntil } :=
  { h with loaded := fun _ hid => by cases hid }

/-- An object of which more is known, and whose filter admits no less. -/
lemma Instance.Good.update {id : ℕ} {o o' : Loaded} (h : p.Good d) (ho : p.objects[id]? = some o)
    (hg : o'.Good d) (hle : o.filter.Le o'.filter) :
    Instance.Good d { p with objects := p.objects.set id o' } where
  loading := h.loading
  objects := by
    intro x hx
    rcases List.mem_or_eq_of_mem_set hx with hx | rfl
    · exact h.objects x hx
    · exact hg
  loaded := by
    rw [List.length_set]
    exact h.loaded
  calls := by
    intro c hc
    have hgood := h.calls c hc
    have hlen : (p.objects.set id o').length = p.objects.length := List.length_set
    cases c with
    | resumes r =>
        cases r with
        | none => exact trivial
        | some j => exact Nat.lt_of_lt_of_eq hgood hlen.symm
    | refreshing j f =>
        obtain ⟨x, hx, hf⟩ := hgood
        by_cases hj : id = j
        · subst hj
          obtain rfl := Option.some.inj (ho.symm.trans hx)
          refine ⟨o', ?_, hf.mono hle hg.covers.sound⟩
          rw [List.getElem?_set_self (List.getElem?_eq_some_iff.mp ho).1]
        · exact ⟨x, by rwa [List.getElem?_set_ne hj], hf⟩
    | answered j => exact Nat.lt_of_lt_of_eq hgood hlen.symm
    | _ => exact trivial

lemma Call.Good.append {c : Call} {objects : List Loaded} {o : Loaded} (h : c.Good d objects) :
    c.Good d (objects ++ [o]) := by
  cases c with
  | resumes r =>
      cases r with
      | none => exact trivial
      | some id => exact Nat.lt_of_lt_of_le h (by simp)
  | refreshing id f =>
      obtain ⟨x, hx, hf⟩ := h
      exact ⟨x, by rw [List.getElem?_append_left (List.getElem?_eq_some_iff.mp hx).1, hx], hf⟩
  | answered id => exact Nat.lt_of_lt_of_le h (by simp)
  | _ => exact trivial

lemma Call.Good.resume {c : Call} {objects : List Loaded} {r : Option ℕ} (h : c.Good d objects)
    (hr : ∀ id ∈ r, id < objects.length) : (c.resume r).Good d objects := by
  cases c with
  | waits =>
      cases r with
      | none => exact trivial
      | some id => exact hr id rfl
  | _ => exact h

lemma Instance.Good.settles {r : Option Loaded} (h : p.Good d) (hr : ∀ o ∈ r, o.Good d) :
    (p.settles r).Good d := by
  cases r with
  | none =>
      refine ⟨h.objects, h.loaded, trivial, fun c' hc' => ?_⟩
      obtain ⟨c, hc, rfl⟩ := List.mem_map.mp hc'
      exact (h.calls c hc).resume fun _ hid => by cases hid
  | some o =>
      refine ⟨fun x hx => ?_, fun id hid => ?_, trivial, fun c' hc' => ?_⟩
      · rcases List.mem_append.mp hx with hx | hx
        · exact h.objects x hx
        · exact List.mem_singleton.mp hx ▸ hr o rfl
      · exact (h.loaded id hid).trans_le (by simp [Instance.settles])
      · obtain ⟨c, hc, rfl⟩ := List.mem_map.mp hc'
        refine (h.calls c hc).append.resume fun id hid => ?_
        cases hid
        simp

lemma Instance.Good.asks (h : p.Good d) {now : ℕ} (hs : p.asks now = some p') : p'.Good d := by
  rw [Instance.asks] at hs
  split at hs
  · split at hs
    · cases hs
      exact h.push trivial
    · cases hs
      have hp : Instance.Good d { p with loading := some (p.loading.getD .reads) } := by
        refine ⟨h.objects, h.loaded, ?_, h.calls⟩
        have hl := h.loading
        cases hphase : p.loading with
        | none => exact trivial
        | some phase => exact hphase ▸ hl
      exact hp.push trivial
  · next id hid =>
      obtain ⟨o, ho, ⟨⟩⟩ := Option.bind_eq_some_iff.mp hs
      refine h.push ?_
      split
      · have hgood := h.objects o (List.mem_of_getElem? ho)
        exact ⟨o, ho, .begin hgood.covers hgood.passed⟩
      · exact h.loaded id hid

lemma Instance.Good.load (hd : d.Good) (h : p.Good d) {ev : LoadEvent}
    (hs : stepLoad d p p.loading ev = some p') : p'.Good d := by
  have hmove : ∀ l, Load.Good d l → Instance.Good d { p with loading := l } := fun l hl =>
    ⟨h.objects, h.loaded, hl, h.calls⟩
  have hnull : (p.settles none).Good d := h.settles fun _ ho => by cases ho
  have hl := h.loading
  cases hphase : p.loading with
  | none =>
      rw [hphase] at hs
      cases hs
  | some phase =>
      rw [hphase] at hs hl
      cases phase with
      | reads =>
          cases ev <;> cases hs
          refine hmove _ ?_
          split
          · exact hd.published
          · exact trivial
      | base m =>
          cases ev with
          | reads ok =>
              cases m with
              | none =>
                  cases hs
                  exact hnull
              | some m =>
                  obtain ⟨⟨g, hg, hcovers⟩, hp⟩ := hl
                  simp only [stepLoad, hg] at hs
                  split at hs <;> cases hs
                  · exact hmove _ (.begin hcovers hp)
                  · exact hnull
          | _ => cases hs
      | fold m g f =>
          have hf : f.Good d.journal d.built d.fullCutoff g := hl
          cases ev with
          | fold e =>
              obtain ⟨r, hr, hs⟩ := Option.bind_eq_some_iff.mp hs
              cases r with
              | none =>
                  cases hs
                  exact hnull
              | some fg =>
                  cases hs
                  exact hmove _ (hf.step hd.ascending hr).1
          | ends now =>
              rw [stepLoad] at hs
              split at hs
              · next hdone =>
                  cases hs
                  obtain ⟨hcovers, hlanded⟩ := hf.done hdone
                  refine h.settles fun o ho => ?_
                  cases ho
                  exact ⟨hcovers, hf.lastKey_passed, hf.landed_le, hlanded⟩
              · cases hs
          | _ => cases hs

lemma Instance.Good.resumes (h : p.Good d) {i now : ℕ} (hs : p.resumes i now = some p') : p'.Good d := by
  rw [Instance.resumes] at hs
  split at hs
  · cases hs
    exact (h.drop _).turn i trivial
  · next id hcall =>
      cases hs
      have hid : id < p.objects.length := h.calls _ (List.mem_of_getElem? hcall)
      have hp := @Instance.Good.turn d p (.answered id) h i hid
      refine ⟨hp.objects, fun j hj => ?_, hp.loading, hp.calls⟩
      cases hj
      exact hid
  · cases hs

lemma Instance.Good.refresh (hd : d.Good) (h : p.Good d) {i now : ℕ} {ev : FoldEvent}
    (hs : p.refresh d i ev now = some p') : p'.Good d := by
  rw [Instance.refresh] at hs
  split at hs
  · next id f hcall =>
      obtain ⟨o, ho, hs⟩ := Option.bind_eq_some_iff.mp hs
      obtain ⟨r, hr, hs⟩ := Option.bind_eq_some_iff.mp hs
      cases r with
      | none =>
          cases hs
          exact (h.drop _).turn i trivial
      | some fg =>
          obtain ⟨f', g'⟩ := fg
          cases hs
          obtain ⟨x, hx, hf⟩ := h.calls _ (List.mem_of_getElem? hcall)
          obtain rfl := Option.some.inj (ho.symm.trans hx)
          obtain ⟨hf', hle, hsound⟩ := hf.step hd.ascending hr
          have hgood := h.objects o (List.mem_of_getElem? ho)
          have hgood' : Loaded.Good d { o with filter := g' } := ⟨hgood.covers.mono hle hsound, hgood.passed,
            hgood.landed_le, fun e he => (hgood.landed e he).mono hle⟩
          exact (h.update ho hgood' hle).turn i
            ⟨_, List.getElem?_set_self (List.getElem?_eq_some_iff.mp ho).1, hf'⟩
  · cases hs

/-- A refresh that ends on the object it began with. -/
lemma Instance.Good.refreshed (h : p.Good d) {i now : ℕ} (hok : inOrder (.refreshed i now) d p = true)
    (hs : p.refreshed i now = some p') : p'.Good d := by
  rw [Instance.refreshed] at hs
  split at hs
  · next id f hcall =>
      rw [inOrder, hcall] at hok
      dsimp only at hok
      split at hs
      · cases hs
      · next hdone =>
          split at hs
          · cases hs
            exact h.turn i trivial
          · next j hj =>
              rw [hj, Option.all_some, beq_iff_eq] at hok
              subst hok
              obtain ⟨o, ho, ⟨⟩⟩ := Option.bind_eq_some_iff.mp hs
              obtain ⟨x, hx, hf⟩ := h.calls _ (List.mem_of_getElem? hcall)
              obtain rfl := Option.some.inj (ho.symm.trans hx)
              obtain ⟨hcovers, hlanded⟩ := hf.done (by simpa using hdone)
              have hgood := h.objects o (List.mem_of_getElem? ho)
              have hmax : ∀ e ∈ d.journal.take (max o.landed f.landed), Told o.filter e := by
                rcases max_choice o.landed f.landed with hm | hm <;> rw [hm]
                · exact hgood.landed
                · exact hlanded
              have hgood' : Loaded.Good d { o with
                  lastKey := f.lastKey, listedAt := now, landed := max o.landed f.landed } :=
                ⟨hcovers, hf.lastKey_passed, max_le hgood.landed_le hf.landed_le, hmax⟩
              have hp := h.update ho hgood' (.refl _)
              exact hp.turn i (hp.loaded _ hj)
  · cases hs

/-! ### Every run -/

lemma lands_of_inOrder (hok : inOrder (.lands e) d p = true) : Lands d.journal d.fullCutoff e := by
  rw [inOrder, Bool.and_eq_true, List.all_eq_true] at hok
  exact ⟨fun e' he' => of_decide_eq_true (hok.1 e' he'), of_decide_eq_true hok.2⟩

lemma good_step {ev : Event} {ls : List Empty} (hd : d.Good) (hp : p.Good d) (hok : inOrder ev d p = true)
    (hs : fire ev d p = some (ls, d', p')) : d'.Good ∧ p'.Good d' := by
  cases ev with
  | lands e =>
      cases hs
      have he := lands_of_inOrder hok
      exact ⟨hd.lands he, hp.lands he⟩
  | compact ev =>
      obtain ⟨_, hd₁, ⟨⟩⟩ := Option.map_eq_some_iff.mp hs
      obtain ⟨hgood, hkeeps⟩ := hd.compact hd₁
      exact ⟨hgood, hp.keeps hkeeps⟩
  | asks now =>
      obtain ⟨_, hp₁, ⟨⟩⟩ := Option.map_eq_some_iff.mp hs
      exact ⟨hd, hp.asks hp₁⟩
  | load ev =>
      obtain ⟨_, hp₁, ⟨⟩⟩ := Option.map_eq_some_iff.mp hs
      exact ⟨hd, hp.load hd hp₁⟩
  | resumes i now =>
      obtain ⟨_, hp₁, ⟨⟩⟩ := Option.map_eq_some_iff.mp hs
      exact ⟨hd, hp.resumes hp₁⟩
  | refresh i ev now =>
      obtain ⟨_, hp₁, ⟨⟩⟩ := Option.map_eq_some_iff.mp hs
      exact ⟨hd, hp.refresh hd hp₁⟩
  | refreshed i now =>
      obtain ⟨_, hp₁, ⟨⟩⟩ := Option.map_eq_some_iff.mp hs
      exact ⟨hd, hp.refreshed hok hp₁⟩

lemma Ledger.Fresh.good (h : d.Fresh) : d.Good := by
  obtain ⟨g, hg, hfilter, hbuilt⟩ := h.filter
  have hs := hg.recount (g.added % 2 ^ 32)
  have hparse := DigestFilter.parse_serialize hg
  rw [← hfilter] at hparse
  refine ⟨?_, ⟨⟨_, hparse, hs, hbuilt, ?_⟩, Or.inl ?_⟩, ?_⟩
  · rw [h.journal]
    exact .nil
  · rw [h.journal]
    exact fun _ he => absurd he List.not_mem_nil
  · rw [h.cutoff]
  · rw [h.compacting]
    exact trivial

lemma good_of_reach {ls : List Empty} (h : index.Reach ls d p) : d.Good ∧ p.Good d :=
  h.invariant (D := fun _ d => d.Good) (I := fun _ d p => d.Good ∧ p.Good d) (fun _ hd => hd.good)
    (fun _ _ _ hd hp => ⟨hd, hp ▸ .boot⟩)
    (fun _ _ _ _ _ _ _ hI hok hs => good_step hI.1 hI.2 hok hs) fun _ _ _ hI => hI.1

/-- **What is called absent was never told.** In every run, what an answer calls absent is no digest of
the full build, and in no journal that had landed at the last page of a listing that the answer
rests on. -/
theorem absent_told {ls : List Empty} (h : index.Reach ls d p) {i id : ℕ}
    (hcall : p.calls[i]? = some (.answered id)) :
    ∃ o, p.objects[id]? = some o ∧ ∀ x, o.absent x = true → x ∉ d.built
      ∧ ∀ e ∈ d.journal.take o.landed, ∀ ds, e.digests = some ds → x ∉ ds := by
  have hp := (good_of_reach h).2
  have hid : id < p.objects.length := hp.calls _ (List.mem_of_getElem? hcall)
  have hgood := hp.objects _ (List.getElem_mem hid)
  refine ⟨_, List.getElem?_eq_getElem hid, fun x hx => ?_⟩
  rw [Loaded.absent, Bool.not_eq_true'] at hx
  refine ⟨fun hbuilt => ?_, fun e he ds hds hmem => ?_⟩
  · rw [hgood.covers.built x hbuilt] at hx
    cases hx
  · rw [hgood.landed e he ds hds x hmem] at hx
    cases hx

end Invariants

/-! ### A run of one journal -/

/-- `{"digests":["a"]}` -/
def sampleEntry : Entry := ⟨⟨1, []⟩, utf8Encode (js "\x7b\x22digests\x22:[\x22a\x22]\x7d")⟩

def sampleLedger : Ledger := ⟨[], (DigestFilter.empty 8 1).serialize, ⟨0, 0, some 0⟩, none, [], 0⟩

/-- A load that folds one journal, and its answer. -/
def sampleRun : List Event :=
  [.lands sampleEntry, .asks 0, .load (.reads true), .load (.reads true), .load (.fold (.page true)),
    .load (.fold (.read sampleEntry.key true)), .load (.ends 0), .resumes 0 0]

lemma sampleLedger_fresh : sampleLedger.Fresh where
  journal := rfl
  compacting := rfl
  cutoff := rfl
  filter := ⟨.empty 8 1, ⟨by decide, by decide, by decide, by decide⟩, rfl, fun _ h => absurd h List.not_mem_nil⟩

/-- The digest of the one journal is not called absent. -/
theorem absent_told_sample : ∃ d p, index.Reach [] d p ∧ p.calls[0]? = some (.answered 0)
    ∧ ∃ o, p.objects[0]? = some o ∧ ∀ x, o.absent x = true → x ∉ d.built
      ∧ ∀ e ∈ d.journal.take o.landed, ∀ ds, e.digests = some ds → x ∉ ds := by
  have hstart : index.Reach [] sampleLedger .boot := .start sampleLedger_fresh rfl
  have hruns : (Machine.runAll fire (fun e d p => inOrder e d p = true) sampleRun sampleLedger .boot).map
      (fun r => r.2.2.calls[0]?) = some (some (.answered 0)) := by decide +kernel
  obtain ⟨⟨ls, d, p⟩, hrun, hcall⟩ := Option.map_eq_some_iff.mp hruns
  have hreach := hstart.runAll hrun
  obtain rfl : [] ++ ls = [] := List.eq_nil_iff_forall_not_mem.mpr fun l => l.elim
  exact ⟨d, p, hreach, hcall, absent_told hreach hcall⟩

end DigestIndex

end BitGraph
