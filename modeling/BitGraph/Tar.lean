import BitGraph.Js.ToNumber
import BitGraph.Lib.Layout
import BitGraph.Lib.OrderedMap

/-!
`tar.ts`: a streaming reader of tar archives and a minimal writer.

* **Chunks.** `ChunkReader` pulls chunks from a source and gives out the bytes asked for.
* **Headers.** `parseHeader` with its checksum and numeric fields.
* **PAX.** `parsePaxRecords`.
* **Reader.** `readTarEntries` reads entry after entry; here the consumer takes every body whole.
* **Writer.** `writeTarArchive` puts a path into the name field, into prefix and name, or into a
  PAX record.
-/

namespace BitGraph

open Js Layout

namespace Tar

def BLOCK : ℕ := 512

structure TarLimits where
  maxTotalBytes : ℕ
  maxEntryCount : ℕ
  maxMetadataEntryBytes : ℕ

inductive EntryKind where
  | file
  | other
  deriving DecidableEq

/-- An entry with its body. -/
structure TarEntry where
  path : Str
  size : ℕ
  kind : EntryKind
  typeflag : Str
  content : Bytes
  deriving DecidableEq

def padOf (size : ℕ) : ℕ := (BLOCK - size % BLOCK) % BLOCK

def decodeString (bytes : Bytes) : Str := decodeLossy bytes

/-! ### Chunks -/

/-- `source` is what the iterator has yet to give; the reader has ended when it is empty. -/
structure ChunkReader where
  source : List Bytes
  chunks : List Bytes
  head : ℕ
  available : ℕ
  totalPulled : ℕ
  maxTotalBytes : Option ℕ

def truncated : Thrown := error (js "tar: truncated archive (unexpected end of stream)")

def truncatedBody : Thrown :=
  error (js "tar: truncated archive (unexpected end of stream inside entry body)")

namespace ChunkReader

def new (source : List Bytes) (maxTotalBytes : Option ℕ) : ChunkReader :=
  ⟨source, [], 0, 0, 0, maxTotalBytes⟩

/-- Pull one chunk; false at the end of the source. -/
def fill (r : ChunkReader) : Except Thrown (Bool × ChunkReader) :=
  match r.source with
  | [] => .ok (false, r)
  | chunk :: source =>
      if 0 < chunk.length then
        let totalPulled := r.totalPulled + chunk.length
        match r.maxTotalBytes.filter fun limit => limit < totalPulled with
        | some limit =>
            .error (error (js "tar: archive exceeds the maximum decompressed size of "
              ++ decimal limit ++ js " bytes"))
        | none =>
            .ok (true, { r with
              source := source
              totalPulled := totalPulled
              chunks := r.chunks ++ [chunk]
              available := r.available + chunk.length })
      else .ok (true, { r with source := source })

/-- Pull until `n` bytes are there or the source has ended. -/
def fillTo (n : ℕ) : ℕ → ChunkReader → Except Thrown ChunkReader
  | 0, r => .ok r
  | fuel + 1, r =>
      if n ≤ r.available then .ok r
      else match r.fill with
        | .error e => .error e
        | .ok (false, r) => .ok r
        | .ok (true, r) => fillTo n fuel r

/-- The loop of `take`: the bytes, the chunks left and the position in the first. -/
def takeLoop : ℕ → List Bytes → ℕ → Bytes × List Bytes × ℕ
  | _, [], head => ([], [], head)
  | n, first :: chunks, head =>
      if n = 0 then ([], first :: chunks, head)
      else
        let take := min n (first.length - head)
        let out := field first head take
        if head + take = first.length then
          let rest := takeLoop (n - take) chunks 0
          (out ++ rest.1, rest.2)
        else (out, first :: chunks, head + take)

def take (r : ChunkReader) (n : ℕ) : Bytes × ChunkReader :=
  let out := takeLoop n r.chunks r.head
  (out.1, { r with chunks := out.2.1, head := out.2.2, available := r.available - n })

/-- Exactly `n` bytes; none at a clean end. -/
def readExact (r : ChunkReader) (n : ℕ) : Except Thrown (Option Bytes × ChunkReader) := do
  let r ← fillTo n (r.source.length + 1) r
  if r.available < n then
    if r.available = 0 then .ok (none, r) else .error truncated
  else
    let out := r.take n
    .ok (some out.1, out.2)

/-- Between 1 and `max` bytes, out of one chunk; none at the end. -/
def readSome (r : ChunkReader) (max : ℕ) : Except Thrown (Option Bytes × ChunkReader) := do
  let r ← fillTo 1 (r.source.length + 1) r
  match r.chunks with
  | [] => .ok (none, r)
  | first :: chunks =>
      let take := min max (first.length - r.head)
      let out := field first r.head take
      let moved := { r with head := r.head + take, available := r.available - take }
      .ok (some out, if moved.head = first.length then { moved with chunks := chunks, head := 0 }
        else moved)

/-- Read on until `remaining` bytes have come; every read brings one. -/
def drain (ends : Thrown) : ℕ → ℕ → ChunkReader → Except Thrown (Bytes × ChunkReader)
  | 0, _, r => .ok ([], r)
  | fuel + 1, remaining, r =>
      if remaining = 0 then .ok ([], r)
      else do
        let (chunk, r) ← r.readSome remaining
        match chunk with
        | none => .error ends
        | some chunk => do
            let (rest, r) ← drain ends fuel (remaining - chunk.length) r
            .ok (chunk ++ rest, r)

def skip (r : ChunkReader) (n : ℕ) : Except Thrown ChunkReader := do
  let (_, r) ← drain truncated n n r
  .ok r

/-- A body read to its end. -/
def readBody (r : ChunkReader) (size : ℕ) : Except Thrown (Bytes × ChunkReader) :=
  drain truncatedBody size size r

def readAll (r : ChunkReader) (size : ℕ) : Except Thrown (Bytes × ChunkReader) :=
  if size = 0 then .ok ([], r)
  else do
    let (data, r) ← r.readExact size
    match data with
    | none => .error truncated
    | some data => .ok (data, r)

end ChunkReader

/-! ### Headers -/

structure RawHeader where
  name : Str
  size : ℕ
  typeflag : Str

/-- A NUL-terminated field. -/
def fieldBytes (block : Bytes) (offset length : ℕ) : Bytes :=
  (field block offset length).takeWhile (· ≠ 0)

/-- Strip NULs at the end. -/
def stripNuls (s : Str) : Str := (s.reverse.dropWhile (· = 0)).reverse

/-- An octal field, or a base-256 one where the high bit of its first byte is set. -/
def parseNumeric (f : Bytes) : Except Thrown ℕ :=
  match f with
  | b :: rest =>
      if 128 ≤ b.toNat then
        let value := ((b.toNat - 128) :: rest.map UInt8.toNat).foldl (fun a d => a * 256 + d) 0
        if 2 ^ 53 - 1 < value then
          .error (error (js "tar: numeric field exceeds the supported range"))
        else .ok value
      else octalField f
  | [] => octalField f
where
  octalField (f : Bytes) : Except Thrown ℕ :=
    let text := trim (stripNuls (trim (decodeString f)))
    if text = [] then .ok 0
    else
      let invalid := error (js "tar: invalid octal numeric field: \"" ++ text ++ js "\"")
      match parseOctal text with
      | none => .error invalid
      | some value => if 2 ^ 53 - 1 < value ∨ value < 0 then .error invalid else .ok value.toNat

/-- The sum of a header's bytes with its checksum field read as spaces. -/
def headerSum (block : Bytes) : ℕ :=
  ((field block 0 148).map UInt8.toNat).sum + 8 * 0x20 + ((block.drop 156).map UInt8.toNat).sum

def verifyChecksum (block : Bytes) : Except Thrown Unit := do
  let stored ← parseNumeric (field block 148 8)
  if headerSum block ≠ stored then
    .error (error (js "tar: header checksum mismatch (corrupt or not a tar archive)"))
  else .ok ()

def isZeroBlock (block : Bytes) : Bool := block.all (· = 0)

def parseHeader (block : Bytes) : Except Thrown RawHeader := do
  verifyChecksum block
  let typeflag : Str := (field block 156 1).map fun b => UInt16.ofNat b.toNat
  let name := decodeString (fieldBytes block 0 100)
  let magic := decodeString (fieldBytes block 257 6)
  let pre := decodeString (fieldBytes block 345 155)
  let size ← parseNumeric (field block 124 12)
  .ok ⟨if magic = js "ustar" ∧ pre ≠ [] then pre ++ 47 :: name else name, size, typeflag⟩

/-! ### PAX records -/

abbrev Pax := OrderedMap Str Str

def malformed (what : String) : Thrown :=
  error (js "tar: malformed PAX record (" ++ js what ++ js ")")

/-- The length that a record states. -/
def recordLength (digits : Bytes) : Option ℤ := (stringToNumber (decodeString digits)).toInt?

/-- The key and the value of a record. -/
def recordEntry (text : Str) : Option (Str × Str) :=
  let key := text.takeWhile (· ≠ 61)
  if key.length = text.length then none else some (key, text.drop (key.length + 1))

/-- The records from here on; each has a length of its own. -/
def paxLoop : ℕ → Bytes → Pax → Except Thrown Pax
  | 0, _, records => .ok records
  | fuel + 1, data, records =>
      if data = [] then .ok records
      else
        let digits := data.takeWhile (· ≠ 0x20)
        if digits.length = data.length then .error (malformed "no length delimiter")
        else match recordLength digits with
          | none => .error (malformed "bad length")
          | some length =>
              if length ≤ 0 ∨ data.length < length then .error (malformed "bad length")
              else
                let entry := (data.take length.toNat).drop (digits.length + 1)
                if entry.getLast? ≠ some 0x0a then .error (malformed "missing newline")
                else match recordEntry (decodeString entry.dropLast) with
                  | none => .error (malformed "missing '='")
                  | some (key, value) =>
                      paxLoop fuel (data.drop length.toNat) (records.set key value)

def parsePaxRecords (data : Bytes) : Except Thrown Pax := paxLoop (data.length + 1) data []

def mergePax (base : Option Pax) (overlay : Pax) : Pax :=
  overlay.foldl (fun merged e => merged.set e.1 e.2) (base.getD [])

/-! ### The reader -/

/-- What the loop carries from block to block; `padding` is skipped when it goes on after an
entry. -/
structure State where
  pendingPax : Option Pax
  globalPax : Option Pax
  pendingLongName : Option Str
  entryCount : ℕ
  padding : ℕ

def State.init : State := ⟨none, none, none, 0, 0⟩

/-- One turn of the loop. -/
inductive Round where
  | ended
  | skipped (st : State) (r : ChunkReader)
  | entry (e : TarEntry) (st : State) (r : ChunkReader)

def guardMetadata (limits : Option TarLimits) (size : ℕ) (kind : String) : Except Thrown Unit :=
  match limits.filter fun l => l.maxMetadataEntryBytes < size with
  | some l =>
      .error (error (js "tar: " ++ js kind ++ js " metadata entry of " ++ decimal size
        ++ js " bytes exceeds the " ++ decimal l.maxMetadataEntryBytes ++ js "-byte cap"))
  | none => .ok ()

/-- A metadata body with its padding. -/
def readMetadata (limits : Option TarLimits) (r : ChunkReader) (size : ℕ) (kind : String) :
    Except Thrown (Bytes × ChunkReader) := do
  guardMetadata limits size kind
  let (data, r) ← r.readAll size
  let r ← r.skip (padOf size)
  .ok (data, r)

/-- The path of a real entry: its own record, a long name, a global record, the header's. -/
def entryPath (st : State) (name : Str) : Str :=
  ((st.pendingPax.bind (·.get (js "path"))).or
    (st.pendingLongName.or (st.globalPax.bind (·.get (js "path"))))).getD name

/-- The size of a real entry. -/
def entrySize (st : State) (size : ℕ) : Except Thrown ℕ :=
  match (st.pendingPax.bind (·.get (js "size"))).or (st.globalPax.bind (·.get (js "size"))) with
  | none => .ok size
  | some text =>
      match (stringToNumber text).toInt? with
      | some n =>
          if n < 0 ∨ 2 ^ 53 - 1 < n then .error (error (js "tar: invalid PAX size value"))
          else .ok n.toNat
      | none => .error (error (js "tar: invalid PAX size value"))

/-- A real entry. -/
def readEntry (st : State) (header : RawHeader) (r : ChunkReader) : Except Thrown Round := do
  let size ← entrySize st header.size
  let (content, r) ← r.readBody size
  let kind := if header.typeflag = js "0" ∨ header.typeflag = [0] then .file else .other
  .ok (.entry ⟨entryPath st header.name, size, kind, header.typeflag, content⟩
    { st with pendingPax := none, pendingLongName := none, padding := padOf size } r)

/-- An entry of either sort. -/
def readHeader (limits : Option TarLimits) (st : State) (block : Bytes) (r : ChunkReader) :
    Except Thrown Round := do
  let header ← parseHeader block
  if header.typeflag = js "x" then
    let (data, r) ← readMetadata limits r header.size "PAX"
    let records ← parsePaxRecords data
    .ok (.skipped { st with pendingPax := some records } r)
  else if header.typeflag = js "g" then
    let (data, r) ← readMetadata limits r header.size "PAX"
    let records ← parsePaxRecords data
    .ok (.skipped { st with globalPax := some (mergePax st.globalPax records) } r)
  else if header.typeflag = js "L" then
    let (data, r) ← readMetadata limits r header.size "GNU long-name"
    let name := decodeString (data.reverse.dropWhile (· = 0)).reverse
    .ok (.skipped { st with pendingLongName := some name } r)
  else if header.typeflag = js "K" then
    let r ← r.skip (header.size + padOf header.size)
    .ok (.skipped st r)
  else readEntry st header r

def readRound (limits : Option TarLimits) (st : State) (r : ChunkReader) : Except Thrown Round := do
  let r ← r.skip st.padding
  let (block, r) ← r.readExact BLOCK
  match block with
  | none => .ok .ended
  | some block =>
      if isZeroBlock block then .ok .ended
      else
        let st := { st with entryCount := st.entryCount + 1, padding := 0 }
        match limits.filter fun l => l.maxEntryCount < st.entryCount with
        | some l =>
            .error (error (js "tar: archive exceeds the maximum of " ++ decimal l.maxEntryCount
              ++ js " entries"))
        | none => readHeader limits st block r

/-- How a reading ends. -/
inductive Finish where
  | done
  | threw (e : Thrown)
  | outOfFuel
  deriving DecidableEq

/-- The entries that came whole, and the end. -/
structure Reading where
  entries : List TarEntry
  finish : Finish
  deriving DecidableEq

def readLoop (limits : Option TarLimits) : ℕ → State → ChunkReader → Reading
  | 0, _, _ => ⟨[], .outOfFuel⟩
  | fuel + 1, st, r =>
      match readRound limits st r with
      | .error e => ⟨[], .threw e⟩
      | .ok .ended => ⟨[], .done⟩
      | .ok (.skipped st r) => readLoop limits fuel st r
      | .ok (.entry e st r) =>
          let rest := readLoop limits fuel st r
          ⟨e :: rest.entries, rest.finish⟩

/-- Every turn takes a block out of the source. -/
def readTarEntries (source : List Bytes) (limits : Option TarLimits) : Reading :=
  readLoop limits (source.flatten.length + 1) .init
    (.new source (limits.map TarLimits.maxTotalBytes))

/-! ### The writer -/

structure TarWriteFile where
  path : Str
  content : Bytes
  deriving DecidableEq

def zeros (n : ℕ) : Bytes := List.replicate n 0

/-- The bytes of an ASCII text. -/
def ascii (text : Str) : Bytes := text.map fun c => UInt8.ofNat c.toNat

/-- Zeros before a text, up to a length. -/
def padStart (text : Str) (length : ℕ) : Str := List.replicate (length - text.length) 48 ++ text

/-- A numeric field: what does not fit is cut off, and the last byte is NUL. -/
def octalField (value length : ℕ) : Bytes :=
  (ascii (padStart (octal value) (length - 1))).take (length - 1) ++ [0]

/-- A text in a field of a header. -/
def putText (block : Bytes) (offset length : ℕ) (text : Str) : Bytes :=
  put block offset ((utf8Encode text).take length)

/-- A header with spaces for its checksum. -/
def headerFields (name pre : Str) (size : ℕ) (typeflag : UInt8) : Bytes :=
  let block := putText (zeros BLOCK) 0 100 name
  let block := put block 100 (octalField 0o644 8)
  let block := put block 108 (octalField 0 8)
  let block := put block 116 (octalField 0 8)
  let block := put block 124 (octalField size 12)
  let block := put block 136 (octalField 0 12)
  let block := put block 148 (List.replicate 8 0x20)
  let block := put block 156 [typeflag]
  let block := putText block 257 6 (js "ustar")
  let block := putText block 263 2 (js "00")
  if 0 < pre.length then putText block 345 155 pre else block

def writeHeader (name pre : Str) (size : ℕ) (typeflag : UInt8) : Bytes :=
  let block := headerFields name pre size typeflag
  let sum := (block.map UInt8.toNat).sum
  let block := putText block 148 6 (padStart (octal sum) 6)
  let block := put block 154 [0]
  put block 155 [0x20]

/-- The rightmost slash from `i` down that splits a path into a prefix and a name that fit. -/
def splitFrom (path : Str) (pathLen : ℕ) : ℕ → Option (Str × Str)
  | 0 => none
  | i + 1 =>
      let pre := path.take (i + 1)
      let name := path.drop (i + 2)
      let prefixLen := (utf8Encode pre).length
      if path[i + 1]? = some 47 ∧ 0 < name.length ∧ pathLen - prefixLen - 1 ≤ 100
          ∧ prefixLen ≤ 155 then
        some (pre, name)
      else splitFrom path pathLen i

def splitUstarPath (path : Str) : Option (Str × Str) :=
  splitFrom path (utf8Encode path).length (path.length - 1)

/-- The loop of `paxPathRecord`. -/
def paxLength (base : ℕ) : ℕ → ℕ → ℕ
  | 0, length => length
  | fuel + 1, length =>
      if (decimal length).length + base = length then length
      else paxLength base fuel ((decimal length).length + base)

/-- A record of a path; its length counts itself. -/
def paxPathRecord (path : Str) : Bytes :=
  let base := utf8Encode (js " path=" ++ path ++ [10])
  ascii (decimal (paxLength base.length (base.length + 2) (base.length + 1))) ++ base

/-- The last index up to `n` that does not stand inside a character. -/
def cutBefore (bytes : Bytes) : ℕ → ℕ
  | 0 => 0
  | i + 1 => if (bytes[i + 1]?.getD 0).toNat / 64 = 2 then cutBefore bytes i else i + 1

def truncateBytes (text : Str) (n : ℕ) : Str :=
  let bytes := utf8Encode text
  if bytes.length ≤ n then text else decodeString (bytes.take (cutBefore bytes n))

def padBlock (content : Bytes) : Bytes := content ++ zeros (padOf content.length)

/-- The parts of one file. -/
def writeFile (file : TarWriteFile) : Bytes :=
  let header :=
    if (utf8Encode file.path).length ≤ 100 then writeHeader file.path [] file.content.length 48
    else match splitUstarPath file.path with
      | some (pre, name) => writeHeader name pre file.content.length 48
      | none =>
          let record := paxPathRecord file.path
          let paxName := truncateBytes (js "PaxHeaders.0/" ++ file.path) 100
          writeHeader paxName [] record.length 120 ++ padBlock record
            ++ writeHeader (truncateBytes file.path 100) [] file.content.length 48
  header ++ padBlock file.content

def writeTarArchive (files : List TarWriteFile) : Bytes :=
  files.flatMap writeFile ++ zeros BLOCK ++ zeros BLOCK

end Tar

end BitGraph
