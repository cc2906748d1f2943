import BitGraph.Codec
import BitGraph.Js.JsonText
import BitGraph.Sha256

/-!
`ingest.ts`: the reading of one entry of a bundle.

* **Openings.** `exportOpening` reads the format that the first bytes of an export declare.
* **Reading.** `hashEntryStream` reads chunk after chunk, decides what is kept on the way, and hashes.
* **Reference.** `hashEntry` is the result by the content and the cap alone.
* **Entries.** `makeScannedEntry` and `finalEntry`: what the classification is given, from a directory, an
  archive or memory.
* **Main result.** `entries_alike`: the chunks and the declared size make no difference, and an entry comes out
  of the three containers alike.
-/

namespace BitGraph

open Js

namespace Ingest

def MAX_CANDIDATE_JSON_BYTES : ℕ := 8 * 1024 * 1024

def MAX_EXPORT_JSON_BYTES : ℕ := 192 * 1024 * 1024

def EXPORT_SNIFF_BYTES : ℕ := 256

/-! ### Openings -/

/-- `\s` on a text of bytes. -/
def isBlank (c : UInt16) : Bool := (9 ≤ c && c ≤ 13) || c == 32 || c == 160

def skipBlank (s : Str) : Str := s.dropWhile isBlank

/-- The rest after white space and a text. -/
def after (t s : Str) : Option Str :=
  if t.isPrefixOf (skipBlank s) then some ((skipBlank s).drop t.length) else none

/-- The text up to the closing quote, of 64 units at most and without a backslash. -/
def quoted (s : Str) : Option Str :=
  let text := s.takeWhile fun c => c != 34 && c != 92
  if text.length ≤ 64 ∧ (s.drop text.length).head? = some 34 then some text else none

/-- `EXPORT_OPENING`. -/
def openingOf (s : Str) : Option Str := do
  let s ← after (js "\x7b") s
  let s ← after (js "\"format\"") s
  let s ← after (js ":") s
  let s ← after (js "\"bitgraph-export/") s
  return js "bitgraph-export/" ++ (← quoted s)

/-- The bytes without a byte order mark. -/
def withoutBom (b : Bytes) : Bytes := if b.take 3 = [0xef, 0xbb, 0xbf] then b.drop 3 else b

/-- The export format that the opening bytes declare. -/
def exportOpening (head : Bytes) : Option Str :=
  openingOf ((withoutBom head).map fun b => UInt16.ofNat b.toNat)

/-! ### Reading -/

/-- Within the ordinary cap; declared past it; an export within its cap; hashed only. -/
inductive Mode where
  | json
  | sniff
  | exported
  | off
  deriving DecidableEq

/-- The state of the reading: what the hashers were given, and what is kept. -/
structure Reading where
  content : Bytes
  full : Bytes
  stripped : Option Bytes
  mode : Mode
  exportTooLarge : Option Str
  head : Bytes
  buffered : List Bytes
  total : ℕ

namespace Reading

def stop (r : Reading) : Reading := { r with mode := .off, buffered := [] }

def tooLarge (r : Reading) : Reading :=
  { r with
    mode := .off
    buffered := []
    exportTooLarge := some ((exportOpening r.head).getD (js "bitgraph-export/")) }

/-- The chunk hashed, counted and seen by the sniff. -/
def take (r : Reading) (chunk : Bytes) : Reading :=
  { r with
    content := r.content ++ chunk
    full := r.full ++ chunk
    stripped := r.stripped.map (· ++ chunk)
    total := r.total + chunk.length
    head := r.head ++ chunk.take (EXPORT_SNIFF_BYTES - r.head.length) }

/-- What the full sniff decides. -/
def sniffed (declaredSize : Option ℕ) (exportCap : ℕ) (r : Reading) : Reading :=
  if r.mode = .sniff ∧ r.head.length = EXPORT_SNIFF_BYTES then
    if exportOpening r.head = none then r.stop
    else if declaredSize.any fun n => exportCap < n then r.tooLarge
    else { r with mode := .exported }
  else r

/-- The chunk kept. -/
def keep (exportCap : ℕ) (chunk : Bytes) (r : Reading) : Reading :=
  let r := { r with buffered := r.buffered ++ [chunk] }
  let r := if r.mode = .json ∧ MAX_CANDIDATE_JSON_BYTES < r.total then
    if exportOpening r.head = none then r.stop else { r with mode := .exported } else r
  if r.mode = .exported ∧ exportCap < r.total then r.tooLarge else r

/-- One turn of the loop. -/
def feed (declaredSize : Option ℕ) (exportCap : ℕ) (r : Reading) (chunk : Bytes) : Reading :=
  let r := r.take chunk
  if r.mode = .off then r
  else
    let r := r.sniffed declaredSize exportCap
    if r.mode = .off then r else r.keep exportCap chunk

end Reading

structure HashedEntry where
  sha256Hex : Str
  byteLength : ℕ
  entryDigestFull : Bytes
  entryDigestStripped : Option Bytes
  buffered : Option Bytes
  exportTooLarge : Option Str

/-- The chunks one after another in an array of `total` bytes. -/
def concatBytes (chunks : List Bytes) (total : ℕ) : Except Thrown Bytes :=
  if total < chunks.flatten.length then .error (rangeError (js "offset is out of bounds"))
  else .ok (chunks.flatten ++ List.replicate (total - chunks.flatten.length) 0)

/-- What the entry digest of a path starts with. -/
def pathBytes (path : Str) : Bytes := utf8Encode path ++ [0]

/-- Before the first chunk. -/
def start (path : Str) (strippedPathVariant : Option Str) (declaredSize : Option ℕ) : Reading where
  content := []
  full := pathBytes path
  stripped := strippedPathVariant.map pathBytes
  mode := if declaredSize.all fun n => n ≤ MAX_CANDIDATE_JSON_BYTES then .json else .sniff
  exportTooLarge := none
  head := []
  buffered := []
  total := 0

/-- After the last chunk: an entry shorter than the sniff. -/
def Reading.ended (exportCap : ℕ) (r : Reading) : Reading :=
  if r.mode = .sniff then
    if exportOpening r.head = none ∨ exportCap < r.total then r.stop else { r with mode := .exported }
  else r

def hashEntryStream (H : HashFn) (path : Str) (strippedPathVariant : Option Str) (declaredSize : Option ℕ)
    (chunks : List Bytes) (exportCap : ℕ) : Except Thrown HashedEntry := do
  let read := chunks.foldl (Reading.feed declaredSize exportCap) (start path strippedPathVariant declaredSize)
  let r := read.ended exportCap
  let buffered ← if r.mode = .json ∨ r.mode = .exported then some <$> concatBytes r.buffered r.total
    else pure none
  return ⟨bytesToHex (H r.content), r.total, H r.full, r.stripped.map H, buffered, r.exportTooLarge⟩

/-! ### The reference -/

def entryDigest (H : HashFn) (path : Str) (content : Bytes) : Bytes := H (pathBytes path ++ content)

/-- The format that the content declares. -/
def formatOf (content : Bytes) : Option Str := exportOpening (content.take EXPORT_SNIFF_BYTES)

/-- The result by the content and the cap alone. -/
def hashEntry (H : HashFn) (path : Str) (strippedPathVariant : Option Str) (content : Bytes) (exportCap : ℕ) :
    HashedEntry where
  sha256Hex := bytesToHex (H content)
  byteLength := content.length
  entryDigestFull := entryDigest H path content
  entryDigestStripped := strippedPathVariant.map fun path => entryDigest H path content
  buffered := if content.length ≤ MAX_CANDIDATE_JSON_BYTES
    ∨ ((formatOf content).isSome = true ∧ content.length ≤ exportCap) then some content else none
  exportTooLarge := if MAX_CANDIDATE_JSON_BYTES < content.length ∧ exportCap < content.length then
    formatOf content else none

/-! ### What is kept on the way -/

/-- What is kept of an export of `n` bytes at least, of which `p` are read. -/
def judged (exportCap n : ℕ) (p : Bytes) : Mode × Bytes × Option Str :=
  match formatOf p with
  | none => (.off, [], none)
  | some f => if exportCap < n then (.off, [], some f) else (.exported, p, none)

/-- What is kept after the bytes `p`. -/
def keptAfter (declaredSize : Option ℕ) (exportCap : ℕ) (p : Bytes) : Mode × Bytes × Option Str :=
  match declaredSize.filter fun n => MAX_CANDIDATE_JSON_BYTES < n with
  | none => if p.length ≤ MAX_CANDIDATE_JSON_BYTES then (.json, p, none) else judged exportCap p.length p
  | some n => if p.length < EXPORT_SNIFF_BYTES then (.sniff, p, none) else judged exportCap n p

/-- The state after the bytes `p`. -/
structure After (path : Str) (variant : Option Str) (declaredSize : Option ℕ) (exportCap : ℕ) (p : Bytes)
    (r : Reading) : Prop where
  content : r.content = p
  full : r.full = pathBytes path ++ p
  stripped : r.stripped = variant.map fun path => pathBytes path ++ p
  head : r.head = p.take EXPORT_SNIFF_BYTES
  total : r.total = p.length
  kept : (r.mode, r.buffered.flatten, r.exportTooLarge) = keptAfter declaredSize exportCap p

section Steps

variable {path : Str} {variant : Option Str} {declaredSize : Option ℕ} {exportCap : ℕ} {p chunk : Bytes}
  {r : Reading}

lemma formatOf_append (h : EXPORT_SNIFF_BYTES ≤ p.length) : formatOf (p ++ chunk) = formatOf p := by
  rw [formatOf, formatOf, List.take_append_of_le_length h]

/-- The hashed and counted part of a turn. -/
lemma take_after (h : After path variant declaredSize exportCap p r) :
    (r.take chunk).content = p ++ chunk ∧ (r.take chunk).full = pathBytes path ++ (p ++ chunk) ∧
      (r.take chunk).stripped = (variant.map fun path => pathBytes path ++ (p ++ chunk)) ∧
      (r.take chunk).head = (p ++ chunk).take EXPORT_SNIFF_BYTES ∧ (r.take chunk).total = (p ++ chunk).length := by
  refine ⟨?_, ?_, ?_, ?_, ?_⟩
  · rw [Reading.take, h.content]
  · simp only [Reading.take, h.full, List.append_assoc]
  · simp only [Reading.take, h.stripped, Option.map_map]
    congr 1
    funext path
    rw [Function.comp_apply, List.append_assoc]
  · simp only [Reading.take, h.head, List.take_append, List.length_take]
    congr 2
    omega
  · simp only [Reading.take, h.total, List.length_append]

/-- What is kept of the state. -/
def Reading.kept (r : Reading) : Mode × Bytes × Option Str := (r.mode, r.buffered.flatten, r.exportTooLarge)

/-- The decisions leave what was hashed and counted. -/
structure SameFed (r r' : Reading) : Prop where
  content : r'.content = r.content
  full : r'.full = r.full
  stripped : r'.stripped = r.stripped
  head : r'.head = r.head
  total : r'.total = r.total

lemma sameFed_sniffed (r : Reading) : SameFed r (r.sniffed declaredSize exportCap) := by
  rw [Reading.sniffed]
  split_ifs <;> exact ⟨rfl, rfl, rfl, rfl, rfl⟩

lemma sameFed_keep (r : Reading) : SameFed r (r.keep exportCap chunk) := by
  simp only [Reading.keep]
  split_ifs <;> exact ⟨rfl, rfl, rfl, rfl, rfl⟩

lemma sameFed_feed : SameFed (r.take chunk) (r.feed declaredSize exportCap chunk) := by
  rw [Reading.feed]
  dsimp only
  have hs := @sameFed_sniffed declaredSize exportCap (r.take chunk)
  have hk := @sameFed_keep exportCap chunk ((r.take chunk).sniffed declaredSize exportCap)
  split_ifs
  · exact ⟨rfl, rfl, rfl, rfl, rfl⟩
  · exact hs
  · exact ⟨hk.content.trans hs.content, hk.full.trans hs.full, hk.stripped.trans hs.stripped,
      hk.head.trans hs.head, hk.total.trans hs.total⟩

/-- Nothing more is kept. -/
lemma feed_off {f : Option Str} (h : r.kept = (.off, [], f)) :
    (r.feed declaredSize exportCap chunk).kept = (.off, [], f) := by
  have hmode : (r.take chunk).mode = .off := congrArg (·.1) h
  rw [Reading.feed]
  dsimp only
  rw [if_pos hmode]
  exact h

/-- An export goes on within the cap. -/
lemma feed_exported {f : Str} (hr : r.kept = (.exported, p, none))
    (hhead : exportOpening (r.take chunk).head = some f) :
    (r.feed declaredSize exportCap chunk).kept = if exportCap < (r.take chunk).total then (.off, [], some f)
      else (.exported, p ++ chunk, none) := by
  obtain ⟨hmode, hrest⟩ := Prod.mk.inj hr
  obtain ⟨hbuffered, hflag⟩ := Prod.mk.inj hrest
  have hmode : (r.take chunk).mode = .exported := hmode
  have hflat : ((r.take chunk).buffered ++ [chunk]).flatten = p ++ chunk := by
    rw [List.flatten_append, List.flatten_singleton]
    exact congrArg (· ++ chunk) hbuffered
  have hflag : (r.take chunk).exportTooLarge = none := hflag
  rw [Reading.feed]
  simp only [hmode, Reading.sniffed, Reading.keep, reduceCtorEq, if_false, false_and, true_and]
  split_ifs with hcap
  · simp only [Reading.kept, Reading.tooLarge, hhead, Option.getD_some, List.flatten_nil]
  · simp only [Reading.kept, hflat, hflag]

/-- A candidate goes on within its cap; past it an export is judged. -/
lemma feed_json (hr : r.kept = (.json, p, none))
    (hhead : (r.take chunk).head = (p ++ chunk).take EXPORT_SNIFF_BYTES)
    (htotal : (r.take chunk).total = (p ++ chunk).length) :
    (r.feed declaredSize exportCap chunk).kept =
      if (p ++ chunk).length ≤ MAX_CANDIDATE_JSON_BYTES then (.json, p ++ chunk, none)
      else judged exportCap (p ++ chunk).length (p ++ chunk) := by
  obtain ⟨hmode, hrest⟩ := Prod.mk.inj hr
  obtain ⟨hbuffered, hflag⟩ := Prod.mk.inj hrest
  have hmode : (r.take chunk).mode = .json := hmode
  have hflat : ((r.take chunk).buffered ++ [chunk]).flatten = p ++ chunk := by
    rw [List.flatten_append, List.flatten_singleton]
    exact congrArg (· ++ chunk) hbuffered
  have hflag : (r.take chunk).exportTooLarge = none := hflag
  have hformat : exportOpening (r.take chunk).head = formatOf (p ++ chunk) := by rw [hhead, formatOf]
  rw [Reading.feed]
  simp only [hmode, Reading.sniffed, Reading.keep, reduceCtorEq, if_false, false_and, true_and, htotal, hformat]
  by_cases hmax : (p ++ chunk).length ≤ MAX_CANDIDATE_JSON_BYTES
  · rw [if_pos hmax, if_neg (Nat.not_lt.mpr hmax)]
    simp only [reduceCtorEq, false_and, if_false, Reading.kept, hflat, hflag, hmode]
  · rw [if_neg hmax, if_pos (Nat.lt_of_not_le hmax), judged]
    cases hf : formatOf (p ++ chunk) with
    | none => simp only [if_true, Reading.stop, reduceCtorEq, false_and, if_false, Reading.kept, hflag, List.flatten_nil]
    | some f =>
      simp only [reduceCtorEq, if_false, true_and, htotal]
      split_ifs with hcap
      · simp only [Reading.kept, Reading.tooLarge, hformat, hf, Option.getD_some, List.flatten_nil]
      · simp only [Reading.kept, hflat, hflag]

/-- An entry declared past the ordinary cap is judged when the sniff is full. -/
lemma feed_sniff {n : ℕ} (hr : r.kept = (.sniff, p, none))
    (hhead : (r.take chunk).head = (p ++ chunk).take EXPORT_SNIFF_BYTES)
    (htotal : (r.take chunk).total = (p ++ chunk).length) (hle : (p ++ chunk).length ≤ n) :
    (r.feed (some n) exportCap chunk).kept =
      if (p ++ chunk).length < EXPORT_SNIFF_BYTES then (.sniff, p ++ chunk, none)
      else judged exportCap n (p ++ chunk) := by
  obtain ⟨hmode, hrest⟩ := Prod.mk.inj hr
  obtain ⟨hbuffered, hflag⟩ := Prod.mk.inj hrest
  have hmode : (r.take chunk).mode = .sniff := hmode
  have hflat : ((r.take chunk).buffered ++ [chunk]).flatten = p ++ chunk := by
    rw [List.flatten_append, List.flatten_singleton]
    exact congrArg (· ++ chunk) hbuffered
  have hflag : (r.take chunk).exportTooLarge = none := hflag
  have hformat : exportOpening (r.take chunk).head = formatOf (p ++ chunk) := by rw [hhead, formatOf]
  have hlength : (r.take chunk).head.length = EXPORT_SNIFF_BYTES ↔ ¬(p ++ chunk).length < EXPORT_SNIFF_BYTES := by
    rw [hhead, List.length_take]
    omega
  rw [Reading.feed]
  simp only [hmode, reduceCtorEq, if_false, Reading.sniffed, true_and, hlength, hformat, Option.any_some,
    decide_eq_true_eq]
  by_cases hshort : (p ++ chunk).length < EXPORT_SNIFF_BYTES
  · rw [if_pos hshort, if_neg (not_not.mpr hshort)]
    simp only [hmode, reduceCtorEq, if_false, Reading.keep, false_and, Reading.kept, hflat, hflag]
  · rw [if_neg hshort, if_pos hshort, judged]
    cases hf : formatOf (p ++ chunk) with
    | none => simp only [if_true, Reading.stop, Reading.kept, hflag, List.flatten_nil]
    | some f =>
      by_cases hcap : exportCap < n
      · simp only [reduceCtorEq, if_false, if_pos hcap, Reading.tooLarge, if_true, Reading.kept, hformat, hf,
          Option.getD_some, List.flatten_nil]
      · have hwithin : ¬exportCap < (p ++ chunk).length := by omega
        simp only [reduceCtorEq, if_false, if_neg hcap, Reading.keep, false_and, true_and, htotal, if_neg hwithin,
          Reading.kept, hflat, hflag]

/-- One turn. -/
lemma feed_after (h : After path variant declaredSize exportCap p r)
    (hsize : ∀ n ∈ declaredSize, (p ++ chunk).length ≤ n) :
    After path variant declaredSize exportCap (p ++ chunk) (r.feed declaredSize exportCap chunk) := by
  obtain ⟨hcontent, hfull, hstripped, hhead, htotal⟩ := @take_after _ _ _ _ _ chunk _ h
  have hfed := @sameFed_feed declaredSize exportCap chunk r
  refine ⟨hfed.content.trans hcontent, hfed.full.trans hfull, hfed.stripped.trans hstripped,
    hfed.head.trans hhead, hfed.total.trans htotal, ?_⟩
  have hkept : r.kept = keptAfter declaredSize exportCap p := h.kept
  change (r.feed declaredSize exportCap chunk).kept = _
  -- what is judged stays judged
  have hjudged : ∀ n n', r.kept = judged exportCap n p → EXPORT_SNIFF_BYTES ≤ p.length → n ≤ n' →
      (exportCap < n' → exportCap < n ∨ exportCap < (p ++ chunk).length) →
      ((p ++ chunk).length ≤ n') →
      (r.feed declaredSize exportCap chunk).kept = judged exportCap n' (p ++ chunk) := by
    intro n n' hr hlong hle hcap hle'
    have hformat : exportOpening (r.take chunk).head = formatOf p := by
      rw [hhead, ← formatOf, formatOf_append hlong]
    rw [judged] at hr
    rw [judged, formatOf_append hlong]
    cases hf : formatOf p with
    | none =>
      rw [hf] at hr
      exact feed_off hr
    | some f =>
      rw [hf] at hr hformat
      dsimp only at hr ⊢
      split_ifs at hr with hn
      · rw [if_pos (Nat.lt_of_lt_of_le hn hle)]
        exact feed_off hr
      · rw [feed_exported hr hformat, htotal]
        congr 1
        exact propext ⟨fun h => Nat.lt_of_lt_of_le h hle', fun h => (hcap h).resolve_left hn⟩
  rw [keptAfter] at hkept ⊢
  cases hd : declaredSize.filter fun n => MAX_CANDIDATE_JSON_BYTES < n with
  | none =>
    rw [hd] at hkept
    dsimp only at hkept ⊢
    split_ifs at hkept with hmax
    · exact feed_json hkept hhead htotal
    · have hlonger : ¬(p ++ chunk).length ≤ MAX_CANDIDATE_JSON_BYTES := by
        rw [List.length_append]
        omega
      rw [if_neg hlonger]
      refine hjudged _ _ hkept ?_ ?_ (fun h => .inr h) le_rfl
      · rw [EXPORT_SNIFF_BYTES]
        rw [MAX_CANDIDATE_JSON_BYTES] at hmax
        omega
      · rw [List.length_append]
        omega
  | some n =>
    obtain ⟨rfl, -⟩ := Option.filter_eq_some_iff.mp hd
    rw [hd] at hkept
    dsimp only at hkept ⊢
    have hle := hsize n rfl
    split_ifs at hkept with hshort
    · exact feed_sniff hkept hhead htotal hle
    · have hlonger : ¬(p ++ chunk).length < EXPORT_SNIFF_BYTES := by
        rw [List.length_append]
        omega
      rw [if_neg hlonger]
      exact hjudged _ _ hkept (Nat.le_of_not_lt hshort) le_rfl (fun h => .inl h) hle

/-- The whole run. -/
lemma foldl_after {chunks : List Bytes} (h : After path variant declaredSize exportCap p r)
    (hsize : ∀ n ∈ declaredSize, (p ++ chunks.flatten).length ≤ n) :
    After path variant declaredSize exportCap (p ++ chunks.flatten)
      (chunks.foldl (Reading.feed declaredSize exportCap) r) := by
  induction chunks generalizing p r with
  | nil => rwa [List.flatten_nil, List.append_nil]
  | cons chunk chunks ih =>
    rw [List.flatten_cons, ← List.append_assoc] at hsize ⊢
    refine ih (feed_after h fun n hn => ?_) hsize
    have hall := hsize n hn
    rw [List.length_append] at hall
    exact Nat.le_of_add_right_le hall

lemma after_start (path : Str) (variant : Option Str) (declaredSize : Option ℕ) (exportCap : ℕ) :
    After path variant declaredSize exportCap [] (start path variant declaredSize) := by
  refine ⟨rfl, (List.append_nil _).symm, ?_, rfl, rfl, ?_⟩
  · have hnil : (fun path => pathBytes path ++ []) = pathBytes := funext fun path => List.append_nil _
    rw [hnil, start]
  · rw [keptAfter, start]
    cases declaredSize with
    | none => rfl
    | some n =>
      by_cases hn : MAX_CANDIDATE_JSON_BYTES < n
      · rw [Option.filter_some_pos (by simpa using hn)]
        simp [EXPORT_SNIFF_BYTES, Nat.not_le.mpr hn]
      · rw [Option.filter_some_neg (by simpa using hn)]
        simp [Nat.le_of_not_lt hn]

lemma concatBytes_flatten {chunks : List Bytes} {content : Bytes} (h : chunks.flatten = content) :
    concatBytes chunks content.length = .ok content := by
  rw [concatBytes, h, if_neg (lt_irrefl _), Nat.sub_self, List.replicate_zero, List.append_nil]

/-- The sizes that a reader may declare: none, or the size of the content. -/
lemma keptAfter_content {content : Bytes} (hsize : declaredSize = none ∨ declaredSize = some content.length) :
    keptAfter declaredSize exportCap content =
      if content.length ≤ MAX_CANDIDATE_JSON_BYTES then (.json, content, none)
      else judged exportCap content.length content := by
  rw [keptAfter]
  rcases hsize with rfl | rfl
  · rfl
  · by_cases hn : MAX_CANDIDATE_JSON_BYTES < content.length
    · have hshort : ¬content.length < EXPORT_SNIFF_BYTES := by
        rw [MAX_CANDIDATE_JSON_BYTES] at hn
        rw [EXPORT_SNIFF_BYTES]
        omega
      rw [Option.filter_some_pos (by simpa using hn), if_neg (Nat.not_le.mpr hn)]
      exact if_neg hshort
    · rw [Option.filter_some_neg (by simpa using hn)]

/-- The chunks and the declared size make no difference. -/
lemma hashEntryStream_eq (H : HashFn) (path : Str) (variant : Option Str) (chunks : List Bytes) (exportCap : ℕ)
    (hsize : declaredSize = none ∨ declaredSize = some chunks.flatten.length) :
    hashEntryStream H path variant declaredSize chunks exportCap
      = .ok (hashEntry H path variant chunks.flatten exportCap) := by
  have hrun : After path variant declaredSize exportCap chunks.flatten
      (chunks.foldl (Reading.feed declaredSize exportCap) (start path variant declaredSize)) := by
    refine foldl_after (after_start path variant declaredSize exportCap) fun n hn => ?_
    rcases hsize with rfl | rfl
    · cases hn
    · obtain rfl := Option.some.inj hn
      exact le_rfl
  rw [hashEntryStream]
  dsimp only
  set r := chunks.foldl (Reading.feed declaredSize exportCap) (start path variant declaredSize)
  set content := chunks.flatten
  have hkept : r.kept = _ := hrun.kept.trans (keptAfter_content hsize)
  have hdigests : bytesToHex (H r.content) = bytesToHex (H content) ∧ r.total = content.length ∧
      H r.full = entryDigest H path content ∧
      r.stripped.map H = variant.map fun path => entryDigest H path content := by
    rw [hrun.content, hrun.total, hrun.full, hrun.stripped, Option.map_map]
    exact ⟨rfl, rfl, rfl, rfl⟩
  obtain ⟨hhex, htotal, hfull, hstripped⟩ := hdigests
  have hresult : ∀ {m : Mode} {kept : Bytes} {flag : Option Str}, r.kept = (m, kept, flag) → m ≠ .sniff →
      ((m = .json ∨ m = .exported) → kept = content) →
      (do
        let buffered ← if (r.ended exportCap).mode = .json ∨ (r.ended exportCap).mode = .exported then
          some <$> concatBytes (r.ended exportCap).buffered (r.ended exportCap).total else pure none
        return (⟨bytesToHex (H (r.ended exportCap).content), (r.ended exportCap).total,
          H (r.ended exportCap).full, (r.ended exportCap).stripped.map H, buffered,
          (r.ended exportCap).exportTooLarge⟩ : HashedEntry)) =
      (Except.ok : HashedEntry → Except Thrown HashedEntry) ⟨bytesToHex (H content), content.length, entryDigest H path content,
        variant.map fun path => entryDigest H path content,
        if m = .json ∨ m = .exported then some content else none, flag⟩ := by
    intro m kept flag hk hm hcontent
    obtain ⟨rfl, hrest⟩ := Prod.mk.inj hk
    obtain ⟨rfl, rfl⟩ := Prod.mk.inj hrest
    have hended : r.ended exportCap = r := if_neg hm
    rw [hended, hhex, htotal, hfull, hstripped]
    split_ifs with hkeep
    · rw [concatBytes_flatten (hcontent hkeep)]
      rfl
    · rfl
  rw [hashEntry]
  by_cases hmax : content.length ≤ MAX_CANDIDATE_JSON_BYTES
  · rw [if_pos hmax] at hkept
    rw [hresult hkept nofun fun _ => rfl]
    simp [hmax, Nat.not_lt.mpr hmax]
  · rw [if_neg hmax, judged] at hkept
    cases hf : formatOf content with
    | none =>
      rw [hf] at hkept
      rw [hresult hkept nofun (by simp)]
      simp [hmax]
    | some f =>
      rw [hf] at hkept
      dsimp only at hkept
      split_ifs at hkept with hcap
      · rw [hresult hkept nofun (by simp)]
        simp [hmax, hcap, Nat.lt_of_not_le hmax]
      · rw [hresult hkept nofun fun _ => rfl]
        simp [hcap, Nat.le_of_not_lt hcap]

end Steps

/-! ### Entries -/

/-- A JSON object in UTF-8, with or without a byte order mark. -/
def tryParseJsonObject (b : Bytes) : Option Value := do
  let v ← parse (← decodeFatal (withoutBom b))
  match v with
  | .obj _ => some v
  | _ => none

structure ScannedEntry where
  rawPath : Str
  sha256Hex : Str
  byteLength : ℕ
  entryDigestFull : Bytes
  entryDigestStripped : Option Bytes
  json : Option Value
  exportTooLarge : Option Str

def makeScannedEntry (rawPath : Str) (hashed : HashedEntry) : ScannedEntry :=
  ⟨rawPath, hashed.sha256Hex, hashed.byteLength, hashed.entryDigestFull, hashed.entryDigestStripped,
    hashed.buffered.bind tryParseJsonObject, hashed.exportTooLarge⟩

/-- What the classification is given of an entry. -/
structure FinalEntry where
  path : Str
  sha256Hex : Str
  byteLength : ℕ
  entryDigest : Bytes
  json : Option Value
  exportTooLarge : Option Str

/-- The entry under its path in the bundle. -/
def finalEntry (strippedRootPrefix : Option Str) (e : ScannedEntry) : FinalEntry :=
  match strippedRootPrefix with
  | none => ⟨e.rawPath, e.sha256Hex, e.byteLength, e.entryDigestFull, e.json, e.exportTooLarge⟩
  | some root => ⟨e.rawPath.drop (root.length + 1), e.sha256Hex, e.byteLength, e.entryDigestStripped.getD [],
      e.json, e.exportTooLarge⟩

/-- A file of a directory. -/
def scanFile (H : HashFn) (exportCap : ℕ) (path : Str) (chunks : List Bytes) : Except Thrown ScannedEntry := do
  return makeScannedEntry path (← hashEntryStream H path none none chunks exportCap)

/-- The path without its first component, where it has more than one. -/
def strippedVariant (path : Str) : Option Str :=
  match path.dropWhile (· ≠ 47) with
  | [] => none
  | _ :: rest => some rest

/-- An entry of an archive, with the size of its header. -/
def scanTarEntry (H : HashFn) (exportCap : ℕ) (path : Str) (size : ℕ) (body : List Bytes) :
    Except Thrown ScannedEntry := do
  return makeScannedEntry path (← hashEntryStream H path (strippedVariant path) (some size) body exportCap)

/-- An entry in memory. -/
def scanMemoryEntry (H : HashFn) (path : Str) (chunks : List Bytes) : Except Thrown ScannedEntry := do
  return makeScannedEntry path (← hashEntryStream H path none none chunks MAX_EXPORT_JSON_BYTES)

lemma strippedVariant_cons {root path : Str} (hroot : 47 ∉ root) :
    strippedVariant (root ++ 47 :: path) = some path := by
  have hall : ∀ c ∈ root, (decide (c ≠ 47)) = true := fun c hc =>
    decide_eq_true fun heq => hroot (heq ▸ hc)
  rw [strippedVariant, List.dropWhile_append_of_pos hall, List.dropWhile_cons_of_neg (by simp)]

/-- **Delivery makes no difference.** For every cutting into chunks, with the size or without, the result is that
of the content and the cap; and a file of a directory, an entry of an archive under one root, and an entry in
memory come out alike. -/
theorem entries_alike (H : HashFn) (root path : Str) (hroot : 47 ∉ root) (file body memory : List Bytes)
    (hbody : body.flatten = file.flatten) (hmemory : memory.flatten = file.flatten) :
    (∀ (path : Str) (variant : Option Str) (chunks : List Bytes) (exportCap : ℕ),
      hashEntryStream H path variant none chunks exportCap
          = .ok (hashEntry H path variant chunks.flatten exportCap) ∧
        hashEntryStream H path variant (some chunks.flatten.length) chunks exportCap
          = .ok (hashEntry H path variant chunks.flatten exportCap)) ∧
      (∀ exportCap, (scanTarEntry H exportCap (root ++ 47 :: path) body.flatten.length body).map
          (finalEntry (some root)) = (scanFile H exportCap path file).map (finalEntry none)) ∧
      (scanMemoryEntry H path memory).map (finalEntry none)
        = (scanFile H MAX_EXPORT_JSON_BYTES path file).map (finalEntry none) := by
  refine ⟨fun path variant chunks exportCap => ⟨hashEntryStream_eq H path variant chunks exportCap (.inl rfl),
    hashEntryStream_eq H path variant chunks exportCap (.inr rfl)⟩, fun exportCap => ?_, ?_⟩
  · have hstripped : (root ++ 47 :: path).drop (root.length + 1) = path := by
      rw [List.append_cons, List.drop_left' (by rw [List.length_append, List.length_singleton])]
    rw [scanTarEntry, scanFile, hashEntryStream_eq H _ _ body exportCap (.inr rfl),
      hashEntryStream_eq H path none file exportCap (.inl rfl), strippedVariant_cons hroot, hbody]
    simp only [ok_bind, Except.map, pure, Except.pure, makeScannedEntry, finalEntry, hashEntry, hstripped,
      Option.map_some, Option.getD_some]
  · rw [scanMemoryEntry, scanFile, hashEntryStream_eq H path none memory _ (.inl rfl),
      hashEntryStream_eq H path none file _ (.inl rfl), hmemory]

/-- One file cut in three ways. -/
theorem entries_alike_cut :
    (∀ (path : Str) (variant : Option Str) (chunks : List Bytes) (exportCap : ℕ),
      hashEntryStream sha256 path variant none chunks exportCap
          = .ok (hashEntry sha256 path variant chunks.flatten exportCap) ∧
        hashEntryStream sha256 path variant (some chunks.flatten.length) chunks exportCap
          = .ok (hashEntry sha256 path variant chunks.flatten exportCap)) ∧
      (∀ exportCap, (scanTarEntry sha256 exportCap (js "a" ++ 47 :: js "b") [[123], [125]].flatten.length
          [[123], [125]]).map (finalEntry (some (js "a")))
        = (scanFile sha256 exportCap (js "b") [[123, 125]]).map (finalEntry none)) ∧
      (scanMemoryEntry sha256 (js "b") [[123, 125], []]).map (finalEntry none)
        = (scanFile sha256 MAX_EXPORT_JSON_BYTES (js "b") [[123, 125]]).map (finalEntry none) :=
  entries_alike sha256 (js "a") (js "b") (by decide) [[123, 125]] [[123], [125]] [[123, 125], []] rfl rfl

end Ingest

end BitGraph
