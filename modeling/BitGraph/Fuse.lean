import BitGraph.Canonical.Form
import BitGraph.Sha256
import BitGraph.Tar.Header

/-!
`fuse.ts`: how a commitment is placed in a file, and found again.

* **Payload.** `buildFusePayload` writes a commitment, and maybe the digest of an original, as
  canonical JSON; `parseFusePayload` takes nothing but what it writes.
* **Archive.** `buildUstarHeader` and `parseTar`, two entries and two zero blocks.
* **Placements.** `PlacementId.build`, `locate`, `frame` and `scanPrefix` of the four placements.
* **Main results.** `parseFusePayload_build` and `build_of_parseFusePayload`: payloads have one byte
  form. `placements_locate`: each placement finds what it built, its frame is what it puts around
  the original, and a container that is found was built. Containers hold up to `MAX_ENTRY` bytes;
  `container_refuses` is an original beyond.
-/

namespace BitGraph

open Js Layout

namespace Fuse

def FUSE_PROFILE : Str := js "bitgraph-fuse/1"

/-! ### JSON of one form -/

/-- The value of a JSON text, with the byte order mark dropped. -/
def readJson (bytes : Bytes) : Option Value := (decodeFatal bytes).bind parse

/-- `new TextDecoder("utf-8", { fatal: true, ignoreBOM: true }).decode`. -/
def decodeFatalKeepBom (b : Bytes) : Option Str :=
  (allSome (utf8Decode .init b)).map fun l => l.flatMap units

/-- The value of a JSON text, with the byte order mark kept. -/
def readJsonKeepBom (bytes : Bytes) : Option Value := (decodeFatalKeepBom bytes).bind parse

/-- `{ algorithm: "sha256", digest }`. -/
def digestField (digest : Bytes) : Value :=
  .obj [(js "algorithm", .str (js "sha256")), (js "digest", .str (bytesToHex digest))]

def readDigestField (x : Value) : Option Bytes :=
  if !isRecord x || x.keys.length != 2 || x.get (js "algorithm") != .str (js "sha256") then none
  else
    match x.get (js "digest") with
    | .str s => (hexToBytes s).filter fun b => b.length = 32
    | _ => none

/-- Whether what is built again is what was read; a build that throws is not. -/
def rebuilds (built : Except Thrown Bytes) (bytes : Bytes) : Bool :=
  match built with
  | .ok b => bytesEqual b bytes
  | .error _ => false

/-! ### Payload -/

structure FusePayload where
  commitment : Bytes
  originDigest : Option Bytes
  deriving DecidableEq

def payloadValue (commitment : Bytes) (originDigest : Option Bytes) : Value :=
  .obj ((js "type", .str FUSE_PROFILE)
    :: (originDigest.toList.map (fun d => (js "origin", digestField d))
      ++ [(js "slotCommitment", digestField commitment)]))

def buildFusePayload (commitment : Bytes) (originDigest : Option Bytes) : Except Thrown Bytes :=
  if commitment.length ≠ 32 then .error (typeError (js "commitment must be 32 bytes"))
  else if originDigest.any fun d => d.length != 32 then
    .error (typeError (js "originDigest must be 32 bytes"))
  else canonicalize (payloadValue commitment originDigest)

/-- The keys a payload may have, by their number. -/
def payloadKeys (n : ℕ) : Option Str :=
  if n = 2 then some (js "slotCommitment,type")
  else if n = 3 then some (js "origin,slotCommitment,type")
  else none

/-- The origin of a payload, when it has one. -/
def readOrigin (parsed : Value) : Option (Option Bytes) :=
  if js "origin" ∈ parsed.keys then (readDigestField (parsed.get (js "origin"))).map some
  else some none

/-- The rebuild does not throw, the digests that were read have 32 bytes. -/
def parseFusePayload (bytes : Bytes) : Option FusePayload := do
  let parsed ← readJson bytes
  if !isRecord parsed || payloadKeys parsed.keys.length != some parsed.sortedKeys
    || parsed.get (js "type") != .str FUSE_PROFILE then none
  else
    let commitment ← readDigestField (parsed.get (js "slotCommitment"))
    let originDigest ← readOrigin parsed
    if rebuilds (buildFusePayload commitment originDigest) bytes then
      some ⟨commitment, originDigest⟩
    else none

/-! ### Archive -/

def BLOCK : ℕ := 512

/-- The largest file a container can hold. -/
def MAX_ENTRY : ℕ := 8 ^ 11 - 1

def CONTAINER_MANIFEST_PATH : Str := js "bitgraph-fuse/manifest.json"
def CONTAINER_ORIGINAL_PATH : Str := js "bitgraph-fuse/original"

/-- `new Uint8Array(n)`. -/
def zeros (n : ℕ) : Bytes := List.replicate n 0

def octalField (n width : ℕ) : Except Thrown Bytes :=
  let s := Tar.padStart (octal n) (width - 1) ++ [0]
  if s.length ≠ width then .error (rangeError (js "field overflow")) else .ok (utf8Encode s)

def NUL : Str := [0]

/-- The fields of a header before its checksum. -/
def headerWrites (nameBytes sizeField : Bytes) : List (ℕ × Bytes) :=
  [(0, nameBytes), (100, utf8Encode (js "0000644" ++ NUL)), (108, utf8Encode (js "0000000" ++ NUL)),
    (116, utf8Encode (js "0000000" ++ NUL)), (124, sizeField),
    (136, utf8Encode (js "00000000000" ++ NUL)), (148, utf8Encode (js "        ")), (156, [0x30]),
    (257, utf8Encode (js "ustar" ++ NUL)), (263, utf8Encode (js "00"))]

def buildUstarHeader (name : Str) (size : ℕ) : Except Thrown Bytes :=
  if MAX_ENTRY < size then
    .error (rangeError (js "container entries are limited to 8 GiB"))
  else
    let nameBytes := utf8Encode name
    if 100 < nameBytes.length then .error (rangeError (js "ustar name too long"))
    else do
      let h := writeAll (zeros BLOCK) (headerWrites nameBytes (← octalField size 12))
      let sum := (h.map UInt8.toNat).sum
      .ok (put h 148 (utf8Encode (Tar.padStart (octal sum) 6 ++ NUL ++ js " ")))

def padTo (n : ℕ) : ℕ := (BLOCK - n % BLOCK) % BLOCK

/-- An entry: its header, its bytes and zeros up to a block. -/
def entryBytes (name : Str) (data : Bytes) : Except Thrown Bytes := do
  return (← buildUstarHeader name data.length) ++ data ++ zeros (padTo data.length)

def buildContainer (original manifest : Bytes) : Except Thrown Bytes := do
  let m ← entryBytes CONTAINER_MANIFEST_PATH manifest
  let o ← entryBytes CONTAINER_ORIGINAL_PATH original
  return m ++ o ++ zeros (BLOCK * 2)

def buildContainer2 (original manifest : Bytes) : Except Thrown Bytes := do
  let o ← entryBytes CONTAINER_ORIGINAL_PATH original
  let m ← entryBytes CONTAINER_MANIFEST_PATH manifest
  return o ++ m ++ zeros (BLOCK * 2)

structure TarEntry where
  name : Str
  data : Bytes
  headerBytes : Bytes
  deriving DecidableEq

/-- The name in a header, up to the first NUL. -/
def headerName (h : Bytes) : Str :=
  let nameEnd := h.findIdx (· == 0)
  decodeLossy (h.take (if 100 < nameEnd then 100 else nameEnd))

/-- The size in a header: eleven octal digits. -/
def headerSize (h : Bytes) : Option ℕ :=
  let sizeText := decodeLossy (field h 124 11)
  if sizeText.length = 11 ∧ sizeText.all isOctal then some (readOctal sizeText) else none

/-- The entries up to two zero blocks that end the bytes. -/
def parseTar (bytes : Bytes) : Option (List TarEntry) :=
  if BLOCK ≤ bytes.length then
    let h := bytes.take BLOCK
    if h.all (· == 0) then
      if bytes.length ≠ BLOCK * 2 ∨ bytes.all (· == 0) = false then none else some []
    else
      match headerSize h with
      | none => none
      | some size =>
          if bytes.length < BLOCK + size then none
          else
            (parseTar (bytes.drop (BLOCK + size + padTo size))).map fun entries =>
              ⟨headerName h, field bytes BLOCK size, h⟩ :: entries
  else none
termination_by bytes.length
decreasing_by
  rw [List.length_drop, BLOCK] at *
  omega

/-! ### Placements -/

def TRAILER_MAGIC : Str := js "BGFUSE01"
def TRAILER_LENGTH : ℕ := 48

inductive PlacementId where
  | trailer1
  | container1
  | container2
  | produced1
  deriving DecidableEq

structure Located where
  commitment : Bytes
  originDigest : Option Bytes
  originalBytes : Option Bytes
  deriving DecidableEq

/-- What stands around the original. -/
structure FusedFrame where
  front : Bytes
  suffix : Bytes
  deriving DecidableEq

namespace PlacementId

variable (H : HashFn)

def trailer (commitment : Bytes) : Bytes := utf8Encode TRAILER_MAGIC ++ zeros 8 ++ commitment

def build (p : PlacementId) (original originDigest : Option Bytes) (commitment : Bytes) :
    Except Thrown Bytes :=
  match p, original with
  | .trailer1, none => .error (typeError (js "trailer/1 requires the original bytes"))
  | .trailer1, some original =>
      if commitment.length ≠ 32 then .error (typeError (js "commitment must be 32 bytes"))
      else .ok (original ++ trailer commitment)
  | .container1, none => .error (typeError (js "container/1 requires the original bytes"))
  | .container1, some original => do
      let digest := originDigest.getD (H original)
      buildContainer original (← buildFusePayload commitment (some digest))
  | .container2, none => .error (typeError (js "container/2 requires the original bytes"))
  | .container2, some original => do
      let digest := originDigest.getD (H original)
      buildContainer2 original (← buildFusePayload commitment (some digest))
  | .produced1, some _ =>
      .error (typeError (js "produced/1 takes no original; pass originDigest for a source reference"))
  | .produced1, none => buildFusePayload commitment originDigest

/-- The checks of a container's two entries. -/
def locateIn (rebuilt : Bytes → Bytes → Except Thrown Bytes) (fused : Bytes) (o m : TarEntry) :
    Option Located := do
  if o.name ≠ CONTAINER_ORIGINAL_PATH ∨ m.name ≠ CONTAINER_MANIFEST_PATH then none
  else
    let payload ← parseFusePayload m.data
    let originDigest ← payload.originDigest
    if !rebuilds (rebuilt o.data m.data) fused || !bytesEqual (H o.data) originDigest then none
    else some ⟨payload.commitment, some originDigest, some o.data⟩

def locate (p : PlacementId) (fused : Bytes) : Option Located :=
  match p with
  | .trailer1 =>
      if fused.length < TRAILER_LENGTH then none
      else
        let t := fused.drop (fused.length - TRAILER_LENGTH)
        if !bytesEqual (field t 0 8) (utf8Encode TRAILER_MAGIC) || !(field t 8 8).all (· == 0) then none
        else some ⟨field t 16 32, none, some (fused.take (fused.length - TRAILER_LENGTH))⟩
  | .container1 =>
      match parseTar fused with
      | some [m, o] => locateIn H buildContainer fused o m
      | _ => none
  | .container2 =>
      match parseTar fused with
      | some [o, m] => locateIn H buildContainer2 fused o m
      | _ => none
  | .produced1 => (parseFusePayload fused).map fun payload =>
      ⟨payload.commitment, payload.originDigest, none⟩

/-- `frame` of the placements that have one. -/
def frame? (p : PlacementId) (originalSize : ℕ) (originDigest commitment : Bytes) :
    Option (Except Thrown FusedFrame) :=
  match p with
  | .trailer1 => some (
      if commitment.length ≠ 32 then .error (typeError (js "commitment must be 32 bytes"))
      else .ok ⟨[], trailer commitment⟩)
  | .container1 => some do
      let manifest ← buildFusePayload commitment (some originDigest)
      let m ← entryBytes CONTAINER_MANIFEST_PATH manifest
      let h ← buildUstarHeader CONTAINER_ORIGINAL_PATH originalSize
      return ⟨m ++ h, zeros (padTo originalSize) ++ zeros (BLOCK * 2)⟩
  | .container2 => some do
      let manifest ← buildFusePayload commitment (some originDigest)
      let h ← buildUstarHeader CONTAINER_ORIGINAL_PATH originalSize
      let m ← entryBytes CONTAINER_MANIFEST_PATH manifest
      return ⟨h, zeros (padTo originalSize) ++ m ++ zeros (BLOCK * 2)⟩
  | .produced1 => none

/-- `scanPrefix`, with `none` for `null` and where a placement has no such method. -/
def scanPrefix (p : PlacementId) (originalSize : ℕ) : Except Thrown (Option Bytes) :=
  match p with
  | .trailer1 => .ok (some [])
  | .container1 => .ok none
  | .container2 => (buildUstarHeader CONTAINER_ORIGINAL_PATH originalSize).map some
  | .produced1 => .ok none

end PlacementId

/-! ### Canonical bytes read back -/

lemma decodeFatalKeepBom_utf8Encode {s : Str} (h : wellFormed s = true) :
    decodeFatalKeepBom (utf8Encode s) = some s := by
  rw [decodeFatalKeepBom, utf8Decode_utf8Encode, allSome_map_some, Option.map_some,
    flatMap_units_scalars h]

/-- Both readers read the canonical form. -/
lemma canonicalize_read {v : Value} (hw : v.Writable) :
    ∃ b, canonicalize v = .ok b ∧ readJson b = some v.canonicalForm
      ∧ readJsonKeepBom b = some v.canonicalForm := by
  obtain ⟨t, hbytes, ht, hparse⟩ := Value.canonicalize_parses hw.isJson hw.allFinite hw.lacksKey
  refine ⟨_, hbytes, hparse, ?_⟩
  rw [decodeFatal_serialize ht, Option.bind_some] at hparse
  rw [readJsonKeepBom, decodeFatalKeepBom_utf8Encode (wellFormed_serialize ht), Option.bind_some,
    hparse]

lemma rebuilds_iff {built : Except Thrown Bytes} {bytes : Bytes} :
    rebuilds built bytes = true ↔ built = .ok bytes := by
  cases built with
  | ok b => rw [rebuilds, bytesEqual_iff, Except.ok.injEq]
  | error e => simp [rebuilds]

/-! ### Digest fields -/

@[simp] lemma canonicalForm_digestField (d : Bytes) :
    (digestField d).canonicalForm = digestField d := rfl

@[simp] lemma isRecord_digestField (d : Bytes) : isRecord (digestField d) = true := rfl

/-- An object of given keys. -/
lemma writable_fields (keys : List Str) {l : Fields} (hl : l.map Prod.fst = keys)
    (hkeys : keys.Pairwise KeyBefore ∧ js "__proto__" ∉ keys) (hv : ∀ m ∈ l, m.2.Writable) :
    (Value.obj l).Writable := by
  subst hl
  refine Value.writable_obj (Fields.ordered_iff.mpr hkeys.1) fun m hm => ⟨fun hkey => ?_, hv m hm⟩
  exact hkeys.2 (hkey ▸ List.mem_map_of_mem hm)

lemma writable_digestField (d : Bytes) : (digestField d).Writable := by
  refine writable_fields [js "algorithm", js "digest"] rfl (by decide) fun m hm => ?_
  simp only [List.mem_cons, List.not_mem_nil, or_false] at hm
  rcases hm with rfl | rfl <;> exact Value.writable_str _

lemma readDigestField_digestField {d : Bytes} (h : d.length = 32) :
    readDigestField (digestField d) = some d := by
  have hget : (digestField d).get (js "digest") = .str (bytesToHex d) := rfl
  have halg : (digestField d).get (js "algorithm") = .str (js "sha256") := rfl
  have hkeys : (digestField d).keys.length = 2 := rfl
  rw [readDigestField, isRecord_digestField, hkeys, halg, hget]
  simp [hexToBytes_bytesToHex, h]

/-! ### Payloads read back -/

section Payload

variable {commitment : Bytes} {originDigest : Option Bytes}

lemma writable_payloadValue (commitment : Bytes) (originDigest : Option Bytes) :
    (payloadValue commitment originDigest).Writable := by
  cases originDigest with
  | none =>
      refine writable_fields [js "type", js "slotCommitment"] rfl (by decide) fun m hm => ?_
      simp only [Option.toList_none, List.map_nil, List.nil_append, List.mem_cons,
        List.not_mem_nil, or_false] at hm
      rcases hm with rfl | rfl
      · exact Value.writable_str _
      · exact writable_digestField _
  | some d =>
      refine writable_fields [js "type", js "origin", js "slotCommitment"] rfl (by decide)
        fun m hm => ?_
      simp only [Option.toList_some, List.map_cons, List.map_nil, List.cons_append,
        List.nil_append, List.mem_cons, List.not_mem_nil, or_false] at hm
      rcases hm with rfl | rfl | rfl
      · exact Value.writable_str _
      · exact writable_digestField _
      · exact writable_digestField _

/-- The digests a payload takes. -/
structure PayloadValid (commitment : Bytes) (originDigest : Option Bytes) : Prop where
  commitment : commitment.length = 32
  originDigest : ∀ d ∈ originDigest, d.length = 32

lemma buildFusePayload_eq (h : PayloadValid commitment originDigest) :
    buildFusePayload commitment originDigest
      = canonicalize (payloadValue commitment originDigest) := by
  have hany : ¬ (originDigest.any fun d => d.length != 32) = true := by
    cases originDigest with
    | none => simp
    | some d => simp [h.originDigest d rfl]
  rw [buildFusePayload, if_neg (not_not.mpr h.commitment), if_neg hany]

lemma valid_of_buildFusePayload {b : Bytes} (h : buildFusePayload commitment originDigest = .ok b) :
    PayloadValid commitment originDigest := by
  rw [buildFusePayload] at h
  split at h
  · cases h
  · next hc =>
      split at h
      · cases h
      · next hd =>
          refine ⟨not_not.mp hc, fun d hd' => ?_⟩
          cases hd'
          simpa using hd

/-- The fields of a payload in the order of their keys. -/
def payloadFields (commitment : Bytes) (originDigest : Option Bytes) : Fields :=
  originDigest.toList.map (fun d => (js "origin", digestField d))
    ++ [(js "slotCommitment", digestField commitment), (js "type", .str FUSE_PROFILE)]

lemma canonicalForm_payloadValue : (payloadValue commitment originDigest).canonicalForm
    = .obj (payloadFields commitment originDigest) := by
  cases originDigest <;> rfl

/-- What the parser reads in the fields. -/
lemma payloadFields_read (h : PayloadValid commitment originDigest) :
    payloadKeys (Value.obj (payloadFields commitment originDigest)).keys.length
        = some (Value.obj (payloadFields commitment originDigest)).sortedKeys
      ∧ (Value.obj (payloadFields commitment originDigest)).get (js "type") = .str FUSE_PROFILE
      ∧ readDigestField ((Value.obj (payloadFields commitment originDigest)).get
          (js "slotCommitment")) = some commitment
      ∧ readOrigin (Value.obj (payloadFields commitment originDigest)) = some originDigest := by
  cases originDigest with
  | none =>
      refine ⟨rfl, rfl, readDigestField_digestField h.commitment, if_neg ?_⟩
      change js "origin" ∉ [js "slotCommitment", js "type"]
      decide
  | some d =>
      refine ⟨rfl, rfl, readDigestField_digestField h.commitment, (if_pos List.mem_cons_self).trans ?_⟩
      exact congrArg (Option.map some) (readDigestField_digestField (h.originDigest d rfl))

/-- What was built is read back. -/
lemma parseFusePayload_build (h : PayloadValid commitment originDigest) :
    ∃ b, buildFusePayload commitment originDigest = .ok b
      ∧ parseFusePayload b = some ⟨commitment, originDigest⟩ := by
  obtain ⟨b, hb, hread, -⟩ := canonicalize_read (writable_payloadValue commitment originDigest)
  rw [← buildFusePayload_eq h] at hb
  rw [canonicalForm_payloadValue] at hread
  obtain ⟨hkeys, htype, hslot, horigin⟩ := payloadFields_read h
  refine ⟨b, hb, ?_⟩
  rw [parseFusePayload, hread]
  simp only [Option.bind_eq_bind, Option.bind_some, hkeys, htype, hslot, horigin, isRecord,
    rebuilds_iff.mpr hb, bne_self_eq_false, Bool.not_true, Bool.or_self, Bool.false_eq_true,
    if_false, if_true]

/-- What is read was built. -/
lemma build_of_parseFusePayload {b : Bytes} {p : FusePayload} (h : parseFusePayload b = some p) :
    buildFusePayload p.commitment p.originDigest = .ok b := by
  rw [parseFusePayload, Option.bind_eq_bind, Option.bind_eq_some_iff] at h
  obtain ⟨parsed, -, h⟩ := h
  split at h
  · cases h
  · simp only [Option.bind_eq_bind, Option.bind_eq_some_iff] at h
    obtain ⟨c, -, o, -, h⟩ := h
    split at h
    · next hreb =>
        obtain rfl := Option.some.inj h
        exact rebuilds_iff.mp hreb
    · cases h

end Payload

/-! ### The size of a manifest -/

lemma textSize_digestField {d : Bytes} (h : d.length = 32) : (digestField d).textSize = 98 := by
  have hjson : ∀ m ∈ [(js "algorithm", Value.str (js "sha256")),
      (js "digest", .str (bytesToHex d))], m.2.isJson = true := by
    intro m hm
    simp only [List.mem_cons, List.not_mem_nil, or_false] at hm
    rcases hm with rfl | rfl <;> rfl
  have halg : Value.byteLength (quote (js "algorithm")) = 11 := by decide
  have hsha : Value.byteLength (quote (js "sha256")) = 8 := by decide
  have hdig : Value.byteLength (quote (js "digest")) = 8 := by decide
  rw [digestField, Value.textSize_obj hjson]
  simp only [List.map_cons, List.map_nil, List.sum_cons, List.sum_nil, Value.textSize_str, halg, hsha,
    hdig, Value.byteLength_quote_hex, h]
  norm_num

/-- A manifest has 250 bytes. -/
lemma length_manifest {commitment d b : Bytes} (h : buildFusePayload commitment (some d) = .ok b) :
    b.length = 250 := by
  have hvalid := valid_of_buildFusePayload h
  have hw := writable_payloadValue commitment (some d)
  have hslot := textSize_digestField hvalid.commitment
  have horigin := textSize_digestField (hvalid.originDigest d rfl)
  have hjson := hw.isJson
  rw [buildFusePayload_eq hvalid] at h
  rw [Value.length_canonicalize hw.isJson hw.allFinite hw.lacksKey h]
  have h1 : Value.byteLength (quote (js "type")) = 6 := by decide
  have h2 : Value.byteLength (quote (js "origin")) = 8 := by decide
  have h3 : Value.byteLength (quote (js "slotCommitment")) = 16 := by decide
  have h4 : Value.byteLength (quote FUSE_PROFILE) = 17 := by decide
  rw [payloadValue] at hjson ⊢
  rw [Value.isJson, Bool.and_eq_true, Value.isJsonFields_iff] at hjson
  rw [Value.textSize_obj hjson.2]
  simp only [Option.toList_some, List.map_cons, List.map_nil, List.cons_append, List.nil_append,
    List.sum_cons, List.sum_nil, Value.textSize_str, h1, h2, h3, h4, hslot, horigin]
  norm_num

/-! ### Headers read back -/

section Header

variable {name : Str} {size : ℕ}

lemma octalField_eq (h : size ≤ MAX_ENTRY) : octalField size 12
    = .ok (Tar.ascii (Tar.padStart (octal size) 11) ++ [0]) := by
  have hlen : (Tar.padStart (octal size) 11).length = 11 := by
    refine Tar.length_padStart ((length_octal_le (by norm_num)).mpr ?_)
    rw [MAX_ENTRY] at h
    omega
  have hoct : isAscii (Tar.padStart (octal size) 11 ++ [0]) = true := by
    rw [Tar.isAscii_append, Tar.isAscii_of_octal
      (Tar.padStart_octal (fun c hc => isOctal_of_mem_octal hc) 11)]
    rfl
  rw [octalField, if_neg (by rw [List.length_append, hlen]; decide), ← Tar.ascii_eq hoct,
    Tar.ascii_append]
  rfl

variable {nameBytes sizeField : Bytes}

lemma headerWrites_fit (hname : nameBytes.length ≤ 100) (hsize : sizeField.length = 12) :
    ∀ w ∈ headerWrites nameBytes sizeField, w.1 + w.2.length ≤ (zeros BLOCK).length := by
  have hb : (zeros BLOCK).length = 512 := List.length_replicate
  have h8 : (utf8Encode (js "0000644" ++ NUL)).length = 8 := by decide
  have h8' : (utf8Encode (js "0000000" ++ NUL)).length = 8 := by decide
  have h12 : (utf8Encode (js "00000000000" ++ NUL)).length = 12 := by decide
  have hsp : (utf8Encode (js "        ")).length = 8 := by decide
  have h6 : (utf8Encode (js "ustar" ++ NUL)).length = 6 := by decide
  have h2 : (utf8Encode (js "00")).length = 2 := by decide
  intro w hw
  simp only [headerWrites, List.mem_cons, List.not_mem_nil, or_false] at hw
  rcases hw with rfl | rfl | rfl | rfl | rfl | rfl | rfl | rfl | rfl | rfl <;>
    simp only [hb, h8, h8', h12, hsp, h6, h2, hsize, List.length_singleton] <;> omega

lemma headerWrites_apart (hname : nameBytes.length ≤ 100) (hsize : sizeField.length = 12) :
    Apart (headerWrites nameBytes sizeField) := by
  have h8 : (utf8Encode (js "0000644" ++ NUL)).length = 8 := by decide
  have h8' : (utf8Encode (js "0000000" ++ NUL)).length = 8 := by decide
  have h12 : (utf8Encode (js "00000000000" ++ NUL)).length = 12 := by decide
  have hsp : (utf8Encode (js "        ")).length = 8 := by decide
  have h6 : (utf8Encode (js "ustar" ++ NUL)).length = 6 := by decide
  simp only [Apart, headerWrites, List.pairwise_cons, List.mem_cons, List.not_mem_nil, or_false,
    forall_eq_or_imp, forall_eq, h8, h8', h12, hsp, h6, hsize, List.length_singleton,
    List.Pairwise.nil, false_implies, implies_true, and_true]
  omega

/-- A field that one of the writes fills, up to the next one. -/
lemma field_header (hname : nameBytes.length ≤ 100) (hsize : sizeField.length = 12)
    (ws₁ ws₂ : List (ℕ × Bytes)) {off n : ℕ} {x : Bytes}
    (h : headerWrites nameBytes sizeField = ws₁ ++ (off, x) :: ws₂) (hx : x.length ≤ n)
    (hn : off + n ≤ 512) (hnext : ∀ w ∈ ws₂.head?, off + n ≤ w.1) :
    field (writeAll (zeros BLOCK) (headerWrites nameBytes sizeField)) off n
      = x ++ zeros (n - x.length) := by
  have hfit := headerWrites_fit hname hsize
  have hapart := headerWrites_apart hname hsize
  rw [h] at hfit hapart
  rw [h, field_writeAll_of_apart ws₁ hfit hapart hx hnext, field, zeros, List.drop_replicate,
    List.take_replicate, zeros, BLOCK]
  congr 2
  omega

/-- What a reader finds in a header. -/
structure HeaderOf (name : Str) (size : ℕ) (h : Bytes) : Prop where
  length : h.length = BLOCK
  name : headerName h = name
  size : headerSize h = some size
  kept : h.all (· == 0) = false

lemma headerName_of_field {h : Bytes} (hz : (0 : UInt8) ∉ utf8Encode name)
    (hlt : (utf8Encode name).length < 100) (hascii : isAscii name = true)
    (hf : field h 0 100 = utf8Encode name ++ zeros (100 - (utf8Encode name).length)) :
    headerName h = name := by
  have hzero : zeros (100 - (utf8Encode name).length)
      = 0 :: zeros (99 - (utf8Encode name).length) := by
    rw [zeros, show 100 - (utf8Encode name).length = 99 - (utf8Encode name).length + 1 by omega]
    rfl
  have hsplit : h = utf8Encode name ++ (0 :: (zeros (99 - (utf8Encode name).length)
      ++ h.drop 100)) := by
    conv_lhs => rw [← List.take_append_drop 100 h]
    rw [field, List.drop_zero, hzero] at hf
    rw [hf, List.append_assoc, List.cons_append]
  have hidx : (utf8Encode name).findIdx (· == 0) = (utf8Encode name).length := by
    rw [List.findIdx_eq_length]
    intro x hx
    rw [beq_eq_false_iff_ne]
    rintro rfl
    exact hz hx
  have hend : h.findIdx (· == 0) = (utf8Encode name).length := by
    rw [hsplit, List.findIdx_append, hidx, if_neg (lt_irrefl _), List.findIdx_cons]
    simp
  rw [headerName, hend, if_neg (by omega), hsplit, List.take_left]
  exact (congrArg decodeLossy (Tar.ascii_eq hascii).symm).trans (Tar.decodeString_ascii hascii)

lemma headerSize_of_field {h : Bytes} (hsize : size ≤ MAX_ENTRY)
    (hf : field h 124 12 = Tar.ascii (Tar.padStart (octal size) 11) ++ [0]) :
    headerSize h = some size := by
  have hlen : (Tar.padStart (octal size) 11).length = 11 := by
    refine Tar.length_padStart ((length_octal_le (by norm_num)).mpr ?_)
    rw [MAX_ENTRY] at hsize
    omega
  have hoct := Tar.padStart_octal (s := octal size) (fun c hc => isOctal_of_mem_octal hc) 11
  have hcut : field h 124 11 = Tar.ascii (Tar.padStart (octal size) 11) := by
    have htake : field h 124 11 = (field h 124 12).take 11 := by
      rw [field, field, List.take_take]
      rfl
    rw [htake, hf, List.take_left' (by rw [Tar.ascii, List.length_map, hlen])]
  have htext : decodeLossy (field h 124 11) = Tar.padStart (octal size) 11 := by
    rw [hcut]
    exact Tar.decodeString_ascii (Tar.isAscii_of_octal hoct)
  rw [headerSize, htext, if_pos ⟨hlen, List.all_eq_true.mpr hoct⟩, Tar.readOctal_padStart, readOctal_octal]

/-- A name and a size that fit have a header, which gives them. -/
lemma buildUstarHeader_ok (hz : (0 : UInt8) ∉ utf8Encode name)
    (hlt : (utf8Encode name).length < 100) (hascii : isAscii name = true)
    (hsize : size ≤ MAX_ENTRY) :
    ∃ h, buildUstarHeader name size = .ok h ∧ HeaderOf name size h := by
  have hdigits : (Tar.ascii (Tar.padStart (octal size) 11) ++ [0]).length = 12 := by
    have hle : (octal size).length ≤ 11 := (length_octal_le (by norm_num)).mpr (by
      rw [MAX_ENTRY] at hsize
      omega)
    rw [List.length_append, Tar.ascii, List.length_map, Tar.length_padStart hle]
    rfl
  set sizeField := Tar.ascii (Tar.padStart (octal size) 11) ++ [0] with hfield
  set h₀ := writeAll (zeros BLOCK) (headerWrites (utf8Encode name) sizeField) with hh₀
  have hlen₀ : h₀.length = 512 := by
    rw [hh₀, length_writeAll (headerWrites_fit hlt.le hdigits)]
    exact List.length_replicate
  have hname : field h₀ 0 100 = utf8Encode name ++ zeros (100 - (utf8Encode name).length) :=
    field_header hlt.le hdigits [] _ rfl hlt.le (by norm_num) fun w hw => by
      obtain rfl := Option.some.inj hw
      norm_num
  have hnum : field h₀ 124 12 = sizeField := by
    rw [hh₀, field_header hlt.le hdigits ((headerWrites (utf8Encode name) sizeField).take 4) _ rfl
      hdigits.le (by norm_num) fun w hw => ?_, hdigits]
    · exact List.append_nil _
    · obtain rfl := Option.some.inj hw
      norm_num
  have htype : field h₀ 156 1 = [0x30] := by
    refine field_header hlt.le hdigits ((headerWrites (utf8Encode name) sizeField).take 7) _ rfl
      (le_refl 1) (by norm_num) fun w hw => ?_
    obtain rfl := Option.some.inj hw
    norm_num
  -- the checksum is in none of these fields
  set sum := (h₀.map UInt8.toNat).sum with hsum
  have hsumlt : sum < 8 ^ 6 := by
    have hle := List.sum_le_card_nsmul (h₀.map UInt8.toNat) 255 fun x hx => by
      obtain ⟨b, -, rfl⟩ := List.mem_map.mp hx
      exact Nat.le_of_lt_succ b.toNat_lt
    rw [List.length_map, hlen₀, smul_eq_mul] at hle
    omega
  set check := utf8Encode (Tar.padStart (octal sum) 6 ++ NUL ++ js " ") with hcheck
  have hclen : check.length = 8 := by
    have hoct : isAscii (Tar.padStart (octal sum) 6 ++ NUL ++ js " ") = true := by
      rw [Tar.isAscii_append, Tar.isAscii_append, Tar.isAscii_of_octal
        (Tar.padStart_octal (fun c hc => isOctal_of_mem_octal hc) 6)]
      decide
    rw [hcheck, utf8Encode_of_isAscii hoct, List.length_map, List.length_append,
      List.length_append, Tar.length_padStart ((length_octal_le (by norm_num)).mpr hsumlt)]
    rfl
  have hput : (put h₀ 148 check).length = 512 := by
    rw [length_put (by omega), hlen₀]
  refine ⟨put h₀ 148 check, ?_, ⟨hput, ?_, ?_, ?_⟩⟩
  · rw [buildUstarHeader, if_neg (by omega)]
    dsimp only
    rw [if_neg (by omega), octalField_eq hsize]
    rfl
  · refine headerName_of_field hz hlt hascii ?_
    rw [field_put_of_le (by omega) (by norm_num), hname]
  · refine headerSize_of_field hsize ?_
    rw [field_put_of_le (by omega) (by norm_num), hnum]
  · have hmem : (0x30 : UInt8) ∈ put h₀ 148 check := by
      have hfield' : (0x30 : UInt8) ∈ field (put h₀ 148 check) 156 1 := by
        rw [field_put_of_ge (by omega) (by omega), htype]
        exact List.mem_singleton_self _
      exact List.mem_of_mem_drop (List.mem_of_mem_take hfield')
    rw [Bool.eq_false_iff]
    intro hall
    exact absurd (List.all_eq_true.mp hall _ hmem) (by decide)

end Header

/-! ### Archives read back -/

lemma parseTar_entry {name : Str} {data h : Bytes} (hh : HeaderOf name data.length h)
    (rest : Bytes) : parseTar (h ++ data ++ zeros (padTo data.length) ++ rest)
      = (parseTar rest).map fun entries => ⟨name, data, h⟩ :: entries := by
  set bytes := h ++ data ++ zeros (padTo data.length) ++ rest with hbytes
  have hz : (zeros (padTo data.length)).length = padTo data.length := List.length_replicate
  have hlen : bytes.length = BLOCK + data.length + padTo data.length + rest.length := by
    rw [hbytes, List.length_append, List.length_append, List.length_append, hh.length, hz]
  have htake : bytes.take BLOCK = h := by
    rw [hbytes, List.append_assoc, List.append_assoc, ← hh.length, List.take_left]
  have hdata : field bytes BLOCK data.length = data := by
    rw [field, hbytes, List.append_assoc, List.append_assoc, ← hh.length, List.drop_left,
      List.take_left]
  have hdrop : bytes.drop (BLOCK + data.length + padTo data.length) = rest := by
    rw [hbytes, List.drop_left']
    rw [List.length_append, List.length_append, hh.length, hz]
  rw [parseTar, if_pos (by omega)]
  dsimp only
  rw [htake, if_neg (by rw [hh.kept]; exact Bool.false_ne_true), hh.size]
  dsimp only
  rw [if_neg (by omega), hdrop, hdata, hh.name]

lemma parseTar_end : parseTar (zeros (BLOCK * 2)) = some [] := by
  have hall : ∀ n, (zeros n).all (· == 0) = true := by
    intro n
    rw [zeros, List.all_eq_true]
    intro x hx
    rw [(List.mem_replicate.mp hx).2]
    rfl
  have hlen : (zeros (BLOCK * 2)).length = BLOCK * 2 := List.length_replicate
  have htake : (zeros (BLOCK * 2)).take BLOCK = zeros BLOCK := by
    rw [zeros, List.take_replicate, zeros]
    rfl
  rw [parseTar, if_pos (by rw [hlen]; decide)]
  dsimp only
  rw [htake, if_pos (hall _), if_neg]
  rw [hlen, hall]
  simp

section Container

variable {o m b : Bytes}

/-- The two entries of a container, in the order they are given. -/
lemma entries_ok (name name' : Str) {data data' : Bytes}
    (hn : ∀ n ∈ [name, name'], (0 : UInt8) ∉ utf8Encode n ∧ (utf8Encode n).length < 100
      ∧ isAscii n = true)
    (hs : data.length ≤ MAX_ENTRY) (hs' : data'.length ≤ MAX_ENTRY) :
    ∃ h h', buildUstarHeader name data.length = .ok h ∧ buildUstarHeader name' data'.length = .ok h'
      ∧ parseTar ((h ++ data ++ zeros (padTo data.length))
          ++ (h' ++ data' ++ zeros (padTo data'.length)) ++ zeros (BLOCK * 2))
        = some [⟨name, data, h⟩, ⟨name', data', h'⟩] := by
  obtain ⟨hz, hlt, hascii⟩ := hn name List.mem_cons_self
  obtain ⟨hz', hlt', hascii'⟩ := hn name' (List.mem_cons_of_mem _ List.mem_cons_self)
  obtain ⟨h, hh, hof⟩ := buildUstarHeader_ok hz hlt hascii hs
  obtain ⟨h', hh', hof'⟩ := buildUstarHeader_ok hz' hlt' hascii' hs'
  refine ⟨h, h', hh, hh', ?_⟩
  rw [List.append_assoc, parseTar_entry hof, parseTar_entry hof', parseTar_end]
  rfl

lemma entryBytes_eq {name : Str} {data h : Bytes} (hh : buildUstarHeader name data.length = .ok h) :
    entryBytes name data = .ok (h ++ data ++ zeros (padTo data.length)) := by
  rw [entryBytes, hh]
  rfl

/-- An entry that is too large is refused. -/
lemma entryBytes_ne_ok {name : Str} {data b : Bytes} (h : MAX_ENTRY < data.length) :
    entryBytes name data ≠ .ok b := by
  rw [entryBytes, buildUstarHeader, if_pos h]
  rintro ⟨⟩

lemma nameFits {n : Str} (h : n = CONTAINER_MANIFEST_PATH ∨ n = CONTAINER_ORIGINAL_PATH) :
    (0 : UInt8) ∉ utf8Encode n ∧ (utf8Encode n).length < 100 ∧ isAscii n = true := by
  rcases h with rfl | rfl <;> decide

/-- The two ways a container is built. -/
lemma containers_eq {hm ho : Bytes}
    (hhm : buildUstarHeader CONTAINER_MANIFEST_PATH m.length = .ok hm)
    (hho : buildUstarHeader CONTAINER_ORIGINAL_PATH o.length = .ok ho) :
    buildContainer o m = .ok ((hm ++ m ++ zeros (padTo m.length))
        ++ (ho ++ o ++ zeros (padTo o.length)) ++ zeros (BLOCK * 2))
      ∧ buildContainer2 o m = .ok ((ho ++ o ++ zeros (padTo o.length))
        ++ (hm ++ m ++ zeros (padTo m.length)) ++ zeros (BLOCK * 2)) := by
  rw [buildContainer, buildContainer2, entryBytes_eq hhm, entryBytes_eq hho]
  exact ⟨rfl, rfl⟩

end Container

namespace PlacementId

variable {H : HashFn} {rebuilt : Bytes → Bytes → Except Thrown Bytes} {fused : Bytes}

lemma locateIn_eq {original manifest h h' c : Bytes} (hreb : rebuilt original manifest = .ok fused)
    (hm : parseFusePayload manifest = some ⟨c, some (H original)⟩) :
    locateIn H rebuilt fused ⟨CONTAINER_ORIGINAL_PATH, original, h⟩
        ⟨CONTAINER_MANIFEST_PATH, manifest, h'⟩
      = some ⟨c, some (H original), some original⟩ := by
  rw [locateIn, if_neg (by simp), hm]
  simp only [Option.bind_eq_bind, Option.bind_some, rebuilds_iff.mpr hreb, bytesEqual_iff.mpr rfl,
    Bool.not_true, Bool.or_self, Bool.false_eq_true, if_false]

/-- What two entries that pass the checks are. -/
lemma of_locateIn {o m : TarEntry} {loc : Located} (h : locateIn H rebuilt fused o m = some loc) :
    ∃ c, loc = ⟨c, some (H o.data), some o.data⟩
      ∧ buildFusePayload c (some (H o.data)) = .ok m.data ∧ rebuilt o.data m.data = .ok fused := by
  rw [locateIn] at h
  split at h
  · cases h
  · simp only [Option.bind_eq_bind, Option.bind_eq_some_iff] at h
    obtain ⟨p, hp, d, hd, h⟩ := h
    split at h
    · cases h
    · next hpass =>
        simp only [Bool.or_eq_true, Bool.not_eq_true', not_or, Bool.not_eq_false] at hpass
        obtain rfl := bytesEqual_iff.mp hpass.2
        have hbuild := build_of_parseFusePayload hp
        rw [hd] at hbuild
        exact ⟨p.commitment, (Option.some.inj h).symm, hbuild, rebuilds_iff.mp hpass.1⟩

/-- Whether an original fits. -/
def Fits (p : PlacementId) (size : ℕ) : Prop := p = .trailer1 ∨ size ≤ MAX_ENTRY

/-- What a placement must do with an original and a commitment. -/
structure Places (H : HashFn) (p : PlacementId) (original commitment fused : Bytes) : Prop where
  built : p.build H (some original) none commitment = .ok fused
  located : ∃ d, p.locate H fused = some ⟨commitment, d, some original⟩
  framed : ∃ f, p.frame? original.length (H original) commitment = some (.ok f)
    ∧ fused = f.front ++ original ++ f.suffix

variable {original commitment : Bytes}

lemma places_trailer (hc : commitment.length = 32) :
    Places H .trailer1 original commitment (original ++ trailer commitment) := by
  have hmagic : (utf8Encode TRAILER_MAGIC).length = 8 := by decide
  have hz : (zeros 8).length = 8 := List.length_replicate
  have hlen : (trailer commitment).length = TRAILER_LENGTH := by
    rw [trailer, List.length_append, List.length_append, hmagic, hz, hc]
    rfl
  have htotal : (original ++ trailer commitment).length - TRAILER_LENGTH = original.length := by
    rw [List.length_append, hlen, Nat.add_sub_cancel]
  have h0 : field (trailer commitment) 0 8 = utf8Encode TRAILER_MAGIC := by
    rw [field, trailer, List.drop_zero, List.append_assoc, List.take_left' hmagic]
  have h8 : field (trailer commitment) 8 8 = zeros 8 := by
    rw [field, trailer, List.append_assoc, List.drop_left' hmagic, List.take_left' hz]
  have h16 : field (trailer commitment) 16 32 = commitment := by
    rw [field, trailer, List.drop_left' (by rw [List.length_append, hmagic, hz]),
      List.take_of_length_le hc.le]
  refine ⟨?_, ⟨none, ?_⟩, ⟨[], trailer commitment⟩, ?_, rfl⟩
  · rw [build, if_neg (not_not.mpr hc)]
  · rw [locate, if_neg (by rw [List.length_append, hlen]; omega), htotal, List.drop_left,
      List.take_left]
    dsimp only
    rw [h0, h8, h16, if_neg]
    rw [bytesEqual_iff.mpr rfl]
    decide
  · rw [frame?, if_neg (not_not.mpr hc)]

lemma places_container (hc : commitment.length = 32) (hs : original.length ≤ MAX_ENTRY) :
    (∃ b, Places H .container1 original commitment b)
      ∧ ∃ b, Places H .container2 original commitment b := by
  have hvalid : PayloadValid commitment (some (H original)) :=
    ⟨hc, fun d hd => by cases hd; exact H.length_apply _⟩
  obtain ⟨m, hm, hparse⟩ := parseFusePayload_build hvalid
  have hmlen : m.length ≤ MAX_ENTRY := by
    rw [length_manifest hm, MAX_ENTRY]
    norm_num
  constructor
  · obtain ⟨h, h', hh, hh', htar⟩ := entries_ok CONTAINER_MANIFEST_PATH CONTAINER_ORIGINAL_PATH
      (fun n hn => nameFits (by simpa using hn)) hmlen hs
    have hb := (containers_eq hh hh').1
    refine ⟨(h ++ m ++ zeros (padTo m.length)) ++ (h' ++ original ++ zeros (padTo original.length))
      ++ zeros (BLOCK * 2), ?_, ⟨some (H original), ?_⟩, ⟨⟨(h ++ m ++ zeros (padTo m.length)) ++ h',
      zeros (padTo original.length) ++ zeros (BLOCK * 2)⟩, ?_, ?_⟩⟩
    · rw [build, Option.getD_none, hm, ok_bind, hb]
    · rw [locate, htar]
      exact locateIn_eq hb hparse
    · rw [frame?, hm, ok_bind, entryBytes_eq hh, ok_bind, hh', ok_bind]
      rfl
    · simp only [List.append_assoc]
  · obtain ⟨h', h, hh', hh, htar⟩ := entries_ok CONTAINER_ORIGINAL_PATH CONTAINER_MANIFEST_PATH
      (fun n hn => nameFits (by simpa [or_comm] using hn)) hs hmlen
    have hb := (containers_eq hh hh').2
    refine ⟨(h' ++ original ++ zeros (padTo original.length)) ++ (h ++ m ++ zeros (padTo m.length))
      ++ zeros (BLOCK * 2), ?_, ⟨some (H original), ?_⟩, ⟨⟨h', zeros (padTo original.length)
      ++ (h ++ m ++ zeros (padTo m.length)) ++ zeros (BLOCK * 2)⟩, ?_, ?_⟩⟩
    · rw [build, Option.getD_none, hm, ok_bind, hb]
    · rw [locate, htar]
      exact locateIn_eq hb hparse
    · rw [frame?, hm, ok_bind, hh', ok_bind, entryBytes_eq hh, ok_bind]
      rfl
    · simp only [List.append_assoc]

/-- A container that is found was built. -/
lemma build_of_locate {p : PlacementId} (hp : p = .container1 ∨ p = .container2) {loc : Located}
    (h : p.locate H fused = some loc) :
    ∃ o, loc.originalBytes = some o ∧ p.build H (some o) none loc.commitment = .ok fused := by
  rcases hp with rfl | rfl
  · rw [locate] at h
    split at h
    · next m o heq =>
        obtain ⟨c, rfl, hm, hb⟩ := of_locateIn h
        refine ⟨o.data, rfl, ?_⟩
        rw [build, Option.getD_none, hm, ok_bind, hb]
    · cases h
  · rw [locate] at h
    split at h
    · next o m heq =>
        obtain ⟨c, rfl, hm, hb⟩ := of_locateIn h
        refine ⟨o.data, rfl, ?_⟩
        rw [build, Option.getD_none, hm, ok_bind, hb]
    · cases h

/-- A container takes no original beyond `MAX_ENTRY`. -/
lemma build_ne_ok {p : PlacementId} (hp : p = .container1 ∨ p = .container2)
    (hs : MAX_ENTRY < original.length) (b : Bytes) :
    p.build H (some original) none commitment ≠ .ok b := by
  intro h
  rcases hp with rfl | rfl
  · rw [build] at h
    obtain ⟨m, -, h⟩ := bind_eq_ok h
    rw [buildContainer] at h
    obtain ⟨m', -, h⟩ := bind_eq_ok h
    obtain ⟨o, ho, -⟩ := bind_eq_ok h
    exact entryBytes_ne_ok hs ho
  · rw [build] at h
    obtain ⟨m, -, h⟩ := bind_eq_ok h
    rw [buildContainer2] at h
    obtain ⟨o, ho, -⟩ := bind_eq_ok h
    exact entryBytes_ne_ok hs ho

end PlacementId

open PlacementId in
/-- **Placements find what they built.** A trailer is placed behind any original, a container around
an original of up to `MAX_ENTRY` bytes; what is located is that original and that commitment, and the
frame is what stands around the original. A container that is located was built. -/
theorem placements_locate (H : HashFn) (p : PlacementId) (hp : p ≠ .produced1) :
    (∀ original commitment, p.Fits original.length → commitment.length = 32 →
        ∃ b, p.Places H original commitment b)
      ∧ (∀ original commitment b, ¬ p.Fits original.length →
        p.build H (some original) none commitment ≠ .ok b)
      ∧ ∀ fused loc, p ≠ .trailer1 → p.locate H fused = some loc → ∃ o, loc.originalBytes = some o
        ∧ p.build H (some o) none loc.commitment = .ok fused := by
  have hcont : p ≠ .trailer1 → p = .container1 ∨ p = .container2 := by
    intro ht
    cases p with
    | trailer1 => exact absurd rfl ht
    | container1 => exact Or.inl rfl
    | container2 => exact Or.inr rfl
    | produced1 => exact absurd rfl hp
  refine ⟨fun original commitment hfits hc => ?_, fun original commitment b hfits => ?_,
    fun fused loc ht h => build_of_locate (hcont ht) h⟩
  · by_cases ht : p = .trailer1
    · subst ht
      exact ⟨_, places_trailer hc⟩
    · have hs := hfits.resolve_left ht
      rcases hcont ht with rfl | rfl
      · exact (places_container hc hs).1
      · exact (places_container hc hs).2
  · rw [Fits, not_or, not_le] at hfits
    exact build_ne_ok (hcont hfits.1) hfits.2 b

theorem placements_locate_sample : ∃ b, PlacementId.trailer1.Places sha256 [1] (zeros 32) b :=
  (placements_locate sha256 .trailer1 (by decide)).1 [1] (zeros 32) (Or.inl rfl)
    List.length_replicate

/-- A container does not take every original. -/
theorem container_refuses : ¬ ∀ (p : PlacementId), p ≠ .produced1 → ∀ original commitment : Bytes,
    commitment.length = 32 → ∃ b, p.Places sha256 original commitment b := by
  intro h
  obtain ⟨b, hb⟩ := h .container1 (by decide) (zeros (8 ^ 11)) (zeros 32) List.length_replicate
  refine PlacementId.build_ne_ok (Or.inl rfl) ?_ b hb.built
  rw [zeros, List.length_replicate, MAX_ENTRY]
  norm_num

end Fuse

end BitGraph
