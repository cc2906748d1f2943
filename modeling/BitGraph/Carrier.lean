import BitGraph.Js.Object
import BitGraph.Js.Convert
import BitGraph.Codec
import BitGraph.Sha256
import BitGraph.Lib.Trailer

/-!
`carrier.ts`: the file that carries its own proof.

A carrier is the committed bytes followed by one block with a JSON payload. The block is found
from the end of the file.

* **Headers.** `baseHeaderFields` reads the number and the time of a block header, one RLP list.
* **Payloads.** `payloadShapeError` is the check of a payload, version by version;
  `payloadShapeError_eq_none` says what it accepts, field by field (`AtomicShape`, `BlockShape`).
* **Files.** `buildCarrier` appends a block and `parseCarrier` reads one.
  `parseCarrier_eq_carrier_iff` reduces both to the format of `Lib.Trailer`.
* **Round trip.** `strip_wrap`: what was built is read back, block by block, whatever the bytes
  before it are. `parse_build_infinite` shows what the condition on numbers is for.
-/

namespace BitGraph

open Js

namespace Carrier

/-! ### The block -/

/-- "BGPROOF" and a block version. -/
def carrierMagic : Bytes := [0x42, 0x47, 0x50, 0x52, 0x4f, 0x4f, 0x46, 0x01]

def carrierOverhead : ℕ := 24

def maxCarrierPayload : ℕ := 8 * 1024 * 1024

def carrierVersion : Str := js "bitgraph-carrier/1"

def carrierVersion2 : Str := js "bitgraph-carrier/2"

def carrierVersion3 : Str := js "bitgraph-carrier/3"

def carrierVersion4 : Str := js "bitgraph-carrier/4"

def carrierVersion5 : Str := js "bitgraph-carrier/5"

def carrierVersion6 : Str := js "bitgraph-carrier/6"

def ceilingSidecarVersion : Str := js "bitgraph-ceiling/1"

def settlementPointerVersion : Str := js "bitgraph-settlement/1"

def attestationWitnessVersion : Str := js "aws-nitro-witness/1"

def u32be (n : ℕ) : Bytes := Sha256.beBytes 4 n

def readU32be (b : Bytes) (i : ℕ) : ℕ := Sha256.beNat ((b.drop i).take 4)

def magicAt (b : Bytes) (i : ℕ) : Bool := (b.drop i).take 8 == carrierMagic

/-! ### Block headers -/

/-- Hexadecimal in either case, after an optional `0x`. -/
def hexToBytes (hex : Str) : Option Bytes :=
  let clean := if js "0x" <+: hex ∨ js "0X" <+: hex then hex.drop 2 else hex
  if clean.length % 2 ≠ 0 ∨ clean.all (fun c => (hexDigitVal? c).isSome) = false then none
  else some (hexPairs clean)

/-- One item of a list and the bytes after it: `len` bytes, where there are so many. -/
def rlpSlice (len : ℕ) (rest : Bytes) : Option (Bytes × Bytes) :=
  if rest.length < len then none else some (rest.take len, rest.drop len)

/-- One item of the top level, by its first byte. Lengths are exact here: a length from `2 ^ 53`
on is rounded in the program, and is past the end of any array either way. -/
def rlpItem (h : UInt8) (rest : Bytes) : Option (Bytes × Bytes) :=
  let b := h.toNat
  if b < 0x80 then some ([h], rest)
  else if b ≤ 0xb7 then rlpSlice (b - 0x80) rest
  else if b ≤ 0xbf then
    let ll := b - 0xb7
    if rest.length < ll then none else rlpSlice (Sha256.beNat (rest.take ll)) (rest.drop ll)
  else if b ≤ 0xf7 then rlpSlice (b - 0xc0) rest
  else
    let ll := b - 0xf7
    -- the length of a nested list that is cut short is `NaN`: an empty item, and the loop ends
    if rest.length < ll then some ([], [])
    else rlpSlice (Sha256.beNat (rest.take ll)) (rest.drop ll)

lemma rlpSlice_length {len : ℕ} {rest item rest' : Bytes}
    (h : rlpSlice len rest = some (item, rest')) : rest'.length ≤ rest.length := by
  rw [rlpSlice] at h
  split_ifs at h
  rw [Option.some.injEq, Prod.mk.injEq] at h
  rw [← h.2, List.length_drop]
  omega

lemma rlpItem_length {h : UInt8} {rest item rest' : Bytes}
    (hitem : rlpItem h rest = some (item, rest')) : rest'.length ≤ rest.length := by
  rw [rlpItem] at hitem
  dsimp only at hitem
  split_ifs at hitem
  · rw [Option.some.injEq, Prod.mk.injEq] at hitem
    rw [← hitem.2]
  · exact rlpSlice_length hitem
  · have hdrop := rlpSlice_length hitem
    rw [List.length_drop] at hdrop
    omega
  · exact rlpSlice_length hitem
  · rw [Option.some.injEq, Prod.mk.injEq] at hitem
    rw [← hitem.2]
    exact Nat.zero_le _
  · have hdrop := rlpSlice_length hitem
    rw [List.length_drop] at hdrop
    omega

/-- The loop over the items. -/
def rlpItems : Bytes → Option (List Bytes)
  | [] => some []
  | h :: rest =>
      match hitem : rlpItem h rest with
      | none => none
      | some (item, rest') => (rlpItems rest').map fun items => item :: items
  termination_by b => b.length
  decreasing_by
    have hle := rlpItem_length hitem
    simp only [List.length_cons]
    omega

/-- The items of one list, as raw bytes. -/
def decodeRlpTop : Bytes → Option (List Bytes)
  | [] => none
  | b0 :: rest =>
      let b := b0.toNat
      if 0xf8 ≤ b then
        let ll := b - 0xf7
        if rest.length < ll then none
        else if Sha256.beNat (rest.take ll) = (rest.drop ll).length
          then rlpItems (rest.drop ll) else none
      else if 0xc0 ≤ b then
        if b - 0xc0 = rest.length then rlpItems rest else none
      else none

def rlpNumber (item : Bytes) : Option ℕ :=
  if 6 < item.length then none else some (Sha256.beNat item)

/-- The number and the time of a block. -/
structure HeaderFields where
  blockNumber : ℕ
  timestamp : ℕ
  deriving DecidableEq

/-- What a header in hexadecimal says of its block. -/
def baseHeaderFields (headerHex : Str) : Option HeaderFields := do
  let raw ← hexToBytes headerHex
  let items ← decodeRlpTop raw
  if items.length < 12 then none
  else
    let blockNumber ← rlpNumber (items.getD 8 [])
    let timestamp ← rlpNumber (items.getD 11 [])
    return ⟨blockNumber, timestamp⟩

/-! ### The payload check -/

/-- The integer of a number that is one. -/
def whole? : Value → Option ℤ
  | .num n => n.toInt?
  | _ => none

/-- A list of elements that all pass a test. -/
def isListOf (ok : Value → Bool) : Value → Bool
  | .arr l => l.all ok
  | _ => false

/-- The pattern `^[0-9a-f]{n}$`. -/
def isLowerHexOf (n : ℕ) (s : Str) : Bool := s.length == n && s.all isLowerHex

/-- The first of a list of checks that fails, by its message. -/
def firstError : List (Bool × Str) → Option Str
  | [] => none
  | (true, _) :: l => firstError l
  | (false, message) :: _ => some message

/-- `${JSON.stringify(v)}`. -/
def jsonText (v : Value) : Str := v.serialize.getD (js "undefined")

/-- A header, a number and a hash. -/
def isWitness (w : Value) : Bool :=
  isRecord w && isText (fun _ => true) (w.get (js "headerRlpHex"))
    && isNumber (w.get (js "blockNumber")) && isText (fun _ => true) (w.get (js "blockHash"))

/-- `treeShapeError`, as its checks. -/
def treeChecks (t : Value) : List (Bool × Str) :=
  let m := t.get (js "member")
  let count := whole? (m.get (js "count"))
  let index := whole? (m.get (js "index"))
  [(isRecord t,
      js "a " ++ carrierVersion4 ++ js " block carries its tree member: \"tree\" is missing"),
    (t.sortedKeys == js "member,rootDocument", js "tree must hold exactly rootDocument and member"),
    (isText (isLowerHexOf 168) (t.get (js "rootDocument")),
      js "tree.rootDocument is not 84 bytes of lowercase hex"),
    (isRecord m && m.sortedKeys == js "count,index,leaf,path",
      js "tree.member must hold exactly index, count, leaf and path"),
    (count.any fun c => 1 ≤ c, js "tree.member.count is not a whole number of leaves"),
    (index.any fun i => 0 ≤ i ∧ count.any fun c => i < c,
      js "tree.member.index is not a leaf of the tree"),
    (isText (isLowerHexOf 130) (m.get (js "leaf")),
      js "tree.member.leaf is not 65 bytes of lowercase hex"),
    (isListOf (isText (isLowerHexOf 64)) (m.get (js "path")),
      js "tree.member.path is not a list of 32-byte lowercase-hex nodes")]

/-- The checks of versions 5 and 6: the proof and its ceiling in time, and in version 6 the
floor in time. -/
def atomicChecks (o : Value) : List (Bool × Str) :=
  let v6 := o.get (js "carrier") == .str carrierVersion6
  let f := o.get (js "floorInTime")
  let c := o.get (js "ceilingInTime")
  [(o.sortedKeys == (if v6 then js "carrier,ceilingInTime,floorInTime,proof"
        else js "carrier,ceilingInTime,proof"),
      if v6 then js "a " ++ carrierVersion6
        ++ js " block holds exactly carrier, proof, ceilingInTime and floorInTime"
      else js "a " ++ carrierVersion5 ++ js " block holds exactly carrier, proof and ceilingInTime"),
    (!v6 || (isRecord f && (f.get (js "status") == .str (js "none")
        || (f.get (js "status") == .str (js "present") && isRecord (f.get (js "proof"))
          && isText (fun _ => true) (f.get (js "blockFile"))))),
      js "floorInTime must be present (with its proof and block file) or none"),
    (isRecord (o.get (js "proof")), js "payload carries no proof object"),
    (isRecord c && (c.get (js "status") == .str (js "unfetched")
        || (c.get (js "status") == .str (js "present") && isRecord (c.get (js "sidecar")))),
      js "ceilingInTime must be present (with its sidecar) or unfetched")]

/-- The checks of a floor and a ceiling over a Base header. -/
def baseFloorChecks (carrier floor ceil : Value) : List (Bool × Str) :=
  let v4 := carrier == .str carrierVersion4
  let name := js "a " ++ jsonName carrier
  [(floor.get (js "basis") == .str (js "base-header"),
      js "a " ++ carrierVersion3 ++ js " floor must be a Base header (basis \"base-header\"), got "
        ++ jsonText (floor.get (js "basis"))),
    (isText (fun s => (baseHeaderFields s).isSome) (floor.get (js "header")),
      js "floor carries no readable Base block header"),
    (floor.get (js "anchor") == .undefined && floor.get (js "witness") == .undefined,
      name ++ (if v4 then js " Base " else js " ") ++ js "floor carries no anchor proof"),
    (ceil.get (js "status") == .str (js "none") && ceil.get (js "basis") == .str (js "hash-chain"),
      name ++ js " block " ++ (if v4 then js "over a Base floor " else [])
        ++ js "states no ceiling in position (\x7b status: \"none\", basis: \"hash-chain\" \x7d)")]
where
  /-- `${String(o["carrier"])}` of a version text. -/
  jsonName : Value → Str
    | .str s => s
    | _ => []

/-- The checks of a floor that is an anchor and its header. -/
def anchorFloorChecks (carrier floor : Value) : List (Bool × Str) :=
  [(floor.get (js "basis") == .undefined,
      js "unknown floor basis " ++ jsonText (floor.get (js "basis")) ++ js " on "
        ++ baseFloorChecks.jsonName carrier),
    (isRecord (floor.get (js "anchor")), js "floor carries no anchor proof"),
    (isWitness (floor.get (js "witness")), js "floor carries no readable block-header witness")]

/-- The checks of a ceiling in position that is not unfetched. -/
def ceilingChecks (ceil : Value) : List (Bool × Str) :=
  [(ceil.get (js "status") == .str (js "present"),
      js "ceiling status must be \"unfetched\" or \"present\", got "
        ++ jsonText (ceil.get (js "status"))),
    (ceil.get (js "basis") == .str (js "counter-order"),
      js "unknown ceiling basis " ++ jsonText (ceil.get (js "basis"))),
    (isRecord (ceil.get (js "anchor")), js "ceiling carries no anchor proof"),
    (isWitness (ceil.get (js "witness")), js "ceiling carries no readable block-header witness")]

/-- The checks of a part that is present, with evidence of a version, or unfetched. -/
def partChecks (part : Value) (evidence version : Str) (noEvidence status : Str) :
    List (Bool × Str) :=
  if part.get (js "status") = .str (js "present") then
    [(isRecord (part.get evidence) && (part.get evidence).get (js "version") == .str version,
      noEvidence)]
  else
    [(part.get (js "status") == .str (js "unfetched"),
      status ++ jsonText (part.get (js "status")))]

/-- The checks of versions 2 to 4: the ceiling in time, and what may stand beside it. -/
def laterChecks (o : Value) : List (Bool × Str) :=
  let ct := o.get (js "ceilingInTime")
  let st := o.get (js "settlement")
  let pins := o.get (js "pins")
  let att := o.get (js "attestation")
  (isRecord ct, js ("ceilingInTime is missing: " ++
      "a v2 block states the ceiling in time or that it was not fetched"))
    :: partChecks ct (js "sidecar") ceilingSidecarVersion
      (js "ceilingInTime carries no " ++ ceilingSidecarVersion ++ js " sidecar")
      (js "ceilingInTime status must be \"unfetched\" or \"present\", got ")
    ++ (if st = .undefined then [] else
      (isRecord st, js "settlement is not an object")
        :: partChecks st (js "pointer") settlementPointerVersion
          (js "settlement carries no " ++ settlementPointerVersion ++ js " pointer")
          (js "settlement status must be \"unfetched\" or \"present\", got "))
    ++ [(pins == .undefined || isRecord pins, js "pins is not an object"),
      (att == .undefined
          || (isRecord att && att.get (js "format") == .str attestationWitnessVersion),
        js "attestation is not an " ++ attestationWitnessVersion ++ js " witness")]

/-- The versions that name a part of a tree, a floor on Base, or more than the floor. -/
def isV4 (carrier : Value) : Bool := carrier == .str carrierVersion4

def isV3 (carrier : Value) : Bool := carrier == .str carrierVersion3

def isV2 (carrier : Value) : Bool :=
  carrier == .str carrierVersion2 || isV3 carrier || isV4 carrier

/-- The floor is a Base header: version 3, and version 4 where it says so. -/
def baseFloor (carrier floor : Value) : Bool :=
  isV3 carrier || (isV4 carrier && floor.get (js "basis") == .str (js "base-header"))

/-- The checks of versions 1 to 4. -/
def blockChecks (o : Value) : List (Bool × Str) :=
  let carrier := o.get (js "carrier")
  let floor := o.get (js "floor")
  let ceil := o.get (js "ceiling")
  [(carrier == .str carrierVersion || isV2 carrier,
      js "unknown carrier version " ++ jsonText carrier),
    (isRecord (o.get (js "proof")), js "payload carries no proof object")]
    ++ (if isV4 carrier then treeChecks (o.get (js "tree")) else [])
    ++ [(isRecord floor && floor.get (js "status") == .str (js "present"),
        js "floor must be present: a floorless carrier is not a not-before"),
      (isRecord ceil, js "ceiling is missing: absence must be a stated fact, not a missing key")]
    ++ (if baseFloor carrier floor then baseFloorChecks carrier floor ceil
      else anchorFloorChecks carrier floor
        ++ (if ceil.get (js "status") = .str (js "unfetched") then [] else ceilingChecks ceil))
    ++ (if isV2 carrier then laterChecks o else [])

/-- Versions 5 and 6, made in one atomic action. -/
def isAtomic (carrier : Value) : Bool :=
  carrier == .str carrierVersion5 || carrier == .str carrierVersion6

/-- Why a value is no payload. -/
def payloadShapeError (p : Value) : Option Str :=
  firstError ((isRecord p, js "payload is not an object")
    :: if isAtomic (p.get (js "carrier")) then atomicChecks p else blockChecks p)

/-! ### Files -/

/-- A payload that was read: data of JSON that passes the check. -/
structure CarrierPayload where
  value : Value
  json : value.isJson = true
  shape : payloadShapeError value = none

/-- 1 to 6. -/
def carrierVersionOf (payload : Value) : ℕ :=
  let carrier := payload.get (js "carrier")
  if carrier = .str carrierVersion6 then 6
  else if carrier = .str carrierVersion5 then 5
  else if carrier = .str carrierVersion4 then 4
  else if carrier = .str carrierVersion3 then 3
  else if carrier = .str carrierVersion2 then 2
  else 1

inductive CarrierParse where
  | none
  | corrupt (reason : Str)
  | carrier (inner : Bytes) (payload : CarrierPayload) (blockOffset : ℕ)

/-- The bytes of a payload. -/
def encodePayload (payload : Value) : Except Thrown Bytes :=
  match payload.stringify with
  | .error _ => .error (typeError (js "Do not know how to serialize a BigInt"))
  | .ok t => .ok (utf8Encode (t.getD []))

def encodeCarrierBlock (payload : Value) : Except Thrown Bytes := do
  let body ← encodePayload payload
  if maxCarrierPayload < body.length then
    throw (error (js "carrier payload too large: " ++ decimal body.length ++ js " bytes"))
  return carrierMagic ++ (u32be body.length ++ (body ++ (u32be body.length ++ carrierMagic)))

/-- The committed bytes followed by their block. -/
def buildCarrier (inner : Bytes) (payload : Value) : Except Thrown Bytes := do
  let block ← encodeCarrierBlock payload
  return inner ++ block

/-- The payload of a block: UTF-8, JSON, and the check. -/
def readPayload (body : Bytes) : Except Str CarrierPayload :=
  match hparse : (decodeFatal body).bind parse with
  | none => .error (js "payload is not valid UTF-8 JSON")
  | some payload =>
      match hshape : payloadShapeError payload with
      | some reason => .error reason
      | none => .ok ⟨payload, by
          obtain ⟨t, -, ht⟩ := Option.bind_eq_some_iff.mp hparse
          exact isJson_of_parse ht, hshape⟩

def parseCarrier (bytes : Bytes) : CarrierParse :=
  if bytes.length < carrierOverhead + 2 then .none
  else if magicAt bytes (bytes.length - 8) = false then .none
  else
    let len := readU32be bytes (bytes.length - 12)
    if maxCarrierPayload < len then
      .corrupt (js "declared payload length " ++ decimal len ++ js " exceeds the cap")
    else if bytes.length < carrierOverhead + len then
      .corrupt (js "declared payload length runs past the start of the file")
    else
      let start := bytes.length - carrierOverhead - len
      if magicAt bytes start = false then
        .corrupt (js "leading magic missing where the trailing length points")
      else if readU32be bytes (start + 8) ≠ len then
        .corrupt (js "leading and trailing payload lengths disagree")
      else
        match readPayload ((bytes.drop (start + 12)).take len) with
        | .error reason => .corrupt reason
        | .ok payload => .carrier (bytes.take start) payload start

/-! ### What the check accepts -/

/-- Every check of a list passes. -/
def Pass (l : List (Bool × Str)) : Prop := ∀ c ∈ l, c.1 = true

lemma firstError_eq_none {l : List (Bool × Str)} : firstError l = none ↔ Pass l := by
  induction l with
  | nil => simp [firstError, Pass]
  | cons c l ih =>
      obtain ⟨ok, message⟩ := c
      cases ok with
      | false => simp [firstError, Pass]
      | true => simpa [firstError, Pass] using ih

@[simp] lemma pass_nil : Pass [] := by simp [Pass]

@[simp] lemma pass_cons {c : Bool × Str} {l : List (Bool × Str)} :
    Pass (c :: l) ↔ c.1 = true ∧ Pass l := by simp [Pass]

@[simp] lemma pass_append {l m : List (Bool × Str)} : Pass (l ++ m) ↔ Pass l ∧ Pass m := by
  simp [Pass, or_imp, forall_and]

/-- A part that is present, with evidence of a version, or unfetched. -/
structure PartShape (part : Value) (evidence version : Str) : Prop where
  record : isRecord part = true
  stated : (part.get (js "status") = .str (js "present") ∧ isRecord (part.get evidence) = true
      ∧ (part.get evidence).get (js "version") = .str version)
    ∨ part.get (js "status") = .str (js "unfetched")

/-- What versions 2 to 4 hold beside the floor and the ceiling in position. -/
structure LaterShape (o : Value) : Prop where
  inTime : PartShape (o.get (js "ceilingInTime")) (js "sidecar") ceilingSidecarVersion
  settlement : o.get (js "settlement") ≠ .undefined →
    PartShape (o.get (js "settlement")) (js "pointer") settlementPointerVersion
  pins : o.get (js "pins") = .undefined ∨ isRecord (o.get (js "pins")) = true
  attestation : o.get (js "attestation") = .undefined ∨ isRecord (o.get (js "attestation")) = true
    ∧ (o.get (js "attestation")).get (js "format") = .str attestationWitnessVersion

/-- A payload of versions 1 to 4. -/
structure BlockShape (o : Value) : Prop where
  version : o.get (js "carrier") = .str carrierVersion ∨ isV2 (o.get (js "carrier")) = true
  proof : isRecord (o.get (js "proof")) = true
  tree : isV4 (o.get (js "carrier")) = true → Pass (treeChecks (o.get (js "tree")))
  floor : isRecord (o.get (js "floor")) = true
    ∧ (o.get (js "floor")).get (js "status") = .str (js "present")
  ceiling : isRecord (o.get (js "ceiling")) = true
  base : baseFloor (o.get (js "carrier")) (o.get (js "floor")) = true →
    Pass (baseFloorChecks (o.get (js "carrier")) (o.get (js "floor")) (o.get (js "ceiling")))
  anchor : baseFloor (o.get (js "carrier")) (o.get (js "floor")) = false →
    Pass (anchorFloorChecks (o.get (js "carrier")) (o.get (js "floor")))
  bound : baseFloor (o.get (js "carrier")) (o.get (js "floor")) = false →
    (o.get (js "ceiling")).get (js "status") ≠ .str (js "unfetched") →
      Pass (ceilingChecks (o.get (js "ceiling")))
  later : isV2 (o.get (js "carrier")) = true → LaterShape o

/-- A payload of version 5 or 6. -/
structure AtomicShape (o : Value) : Prop where
  keys : o.sortedKeys = if o.get (js "carrier") = .str carrierVersion6
    then js "carrier,ceilingInTime,floorInTime,proof" else js "carrier,ceilingInTime,proof"
  floorInTime : o.get (js "carrier") = .str carrierVersion6 →
    isRecord (o.get (js "floorInTime")) = true
      ∧ ((o.get (js "floorInTime")).get (js "status") = .str (js "none")
        ∨ (o.get (js "floorInTime")).get (js "status") = .str (js "present")
          ∧ isRecord ((o.get (js "floorInTime")).get (js "proof")) = true
          ∧ isText (fun _ => true) ((o.get (js "floorInTime")).get (js "blockFile")) = true)
  proof : isRecord (o.get (js "proof")) = true
  ceilingInTime : isRecord (o.get (js "ceilingInTime")) = true
    ∧ ((o.get (js "ceilingInTime")).get (js "status") = .str (js "unfetched")
      ∨ (o.get (js "ceilingInTime")).get (js "status") = .str (js "present")
        ∧ isRecord ((o.get (js "ceilingInTime")).get (js "sidecar")) = true)

lemma pass_partChecks {part : Value} {evidence version noEvidence status : Str} :
    isRecord part = true ∧ Pass (partChecks part evidence version noEvidence status)
      ↔ PartShape part evidence version := by
  rw [partChecks]
  constructor
  · rintro ⟨hrecord, hpass⟩
    refine ⟨hrecord, ?_⟩
    split_ifs at hpass with hstatus
    · simp only [pass_cons, Bool.and_eq_true, beq_iff_eq] at hpass
      exact Or.inl ⟨hstatus, hpass.1⟩
    · simp only [pass_cons, beq_iff_eq] at hpass
      exact Or.inr hpass.1
  · rintro ⟨hrecord, hstated⟩
    refine ⟨hrecord, ?_⟩
    rcases hstated with ⟨hstatus, hevidence⟩ | hstatus
    · simpa [hstatus] using hevidence
    · rw [hstatus, if_neg (by decide)]
      simp

lemma pass_laterChecks {o : Value} : Pass (laterChecks o) ↔ LaterShape o := by
  rw [laterChecks]
  simp only [pass_cons, pass_append, pass_nil, and_true, Bool.or_eq_true, Bool.and_eq_true,
    beq_iff_eq, List.cons_append]
  rw [and_assoc, ← and_assoc, pass_partChecks]
  constructor
  · rintro ⟨hct, hst, hpins, hatt⟩
    refine ⟨hct, fun hne => ?_, hpins, hatt⟩
    rw [if_neg hne, pass_cons] at hst
    exact pass_partChecks.mp hst
  · rintro ⟨hct, hst, hpins, hatt⟩
    refine ⟨hct, ?_, hpins, hatt⟩
    split_ifs with hne
    · exact pass_nil
    · rw [pass_cons]
      exact pass_partChecks.mpr (hst hne)

lemma pass_blockChecks {o : Value} : Pass (blockChecks o) ↔ BlockShape o := by
  rw [blockChecks]
  simp only [pass_cons, pass_append, pass_nil, and_true, Bool.or_eq_true, Bool.and_eq_true,
    beq_iff_eq]
  constructor
  · rintro ⟨⟨⟨⟨⟨hversion, hproof⟩, htree⟩, hfloor, hceil⟩, hbound⟩, hlater⟩
    refine ⟨hversion, hproof, fun h4 => ?_, hfloor, hceil, fun hb => ?_, fun hb => ?_,
      fun hb hs => ?_, fun h2 => ?_⟩
    · rwa [if_pos h4] at htree
    · rwa [if_pos hb] at hbound
    · rw [if_neg (by simp [hb]), pass_append] at hbound
      exact hbound.1
    · rw [if_neg (by simp [hb]), pass_append, if_neg hs] at hbound
      exact hbound.2
    · rw [if_pos h2, pass_laterChecks] at hlater
      exact hlater
  · intro h
    refine ⟨⟨⟨⟨⟨h.version, h.proof⟩, ?_⟩, h.floor, h.ceiling⟩, ?_⟩, ?_⟩
    · split_ifs with h4
      · exact h.tree h4
      · exact pass_nil
    · by_cases hb : baseFloor (o.get (js "carrier")) (o.get (js "floor")) = true
      · rw [if_pos hb]
        exact h.base hb
      · rw [if_neg hb, pass_append]
        rw [Bool.not_eq_true] at hb
        refine ⟨h.anchor hb, ?_⟩
        split_ifs with hs
        · exact pass_nil
        · exact h.bound hb hs
    · split_ifs with h2
      · exact pass_laterChecks.mpr (h.later h2)
      · exact pass_nil

lemma pass_atomicChecks {o : Value} : Pass (atomicChecks o) ↔ AtomicShape o := by
  rw [atomicChecks]
  simp only [pass_cons, pass_nil, and_true, Bool.or_eq_true, Bool.and_eq_true, beq_iff_eq,
    Bool.not_eq_true', beq_eq_false_iff_ne, and_assoc]
  constructor
  · rintro ⟨hkeys, hfloor, hproof, hceil⟩
    exact ⟨hkeys, fun h6 => hfloor.resolve_left (not_not.mpr h6), hproof, hceil⟩
  · intro h
    refine ⟨h.keys, ?_, h.proof, h.ceilingInTime⟩
    by_cases h6 : o.get (js "carrier") = .str carrierVersion6
    · exact Or.inr (h.floorInTime h6)
    · exact Or.inl h6

/-- **What the check accepts.** -/
theorem payloadShapeError_eq_none {p : Value} : payloadShapeError p = none ↔ isRecord p = true
    ∧ (isAtomic (p.get (js "carrier")) = true ∧ AtomicShape p
      ∨ isAtomic (p.get (js "carrier")) = false ∧ BlockShape p) := by
  rw [payloadShapeError, firstError_eq_none, pass_cons]
  refine and_congr_right fun _ => ?_
  cases h : isAtomic (p.get (js "carrier")) with
  | true => simpa using pass_atomicChecks
  | false => simpa using pass_blockChecks

/-! ### The check and what JSON keeps -/

lemma toInt?_posZero (d : Double) : (Number.fin d.posZero).toInt? = (Number.fin d).toInt? := by
  by_cases h : d.sig = 0
  · rw [Double.posZero, if_pos h]
    simp only [Number.toInt?, Double.zero, h, Nat.zero_mul, Nat.zero_mod, Nat.zero_div, ite_self,
      if_true, Option.map_some]
    simp
  · rw [Double.posZero, if_neg h]

lemma whole?_jsonForm (v : Value) : whole? v.jsonForm = whole? v := by
  cases v with
  | num n =>
      cases n with
      | fin d => exact toInt?_posZero d
      | nan | inf => rfl
  | _ => rfl

lemma isListOf_jsonForm {ok : Value → Bool} (hok : ∀ v, ok v.jsonForm = ok v) (v : Value) :
    isListOf ok v.jsonForm = isListOf ok v := by
  cases v with
  | arr l =>
      rw [Value.jsonForm, isListOf, isListOf, Value.jsonFormList_eq, List.all_map]
      congr 1
      funext w
      exact hok w
  | num n => cases n <;> rfl
  | _ => rfl

lemma sortedKeys_jsonForm (v : Value) : v.jsonForm.sortedKeys = v.sortedKeys := by
  rw [Value.sortedKeys, Value.sortedKeys, Value.keys_jsonForm]

lemma isWitness_jsonForm {w : Value} (hf : (w.get (js "blockNumber")).allFinite = true) :
    isWitness w.jsonForm = isWitness w := by
  rw [isWitness, isWitness, isRecord_jsonForm, Value.get_jsonForm, Value.get_jsonForm,
    Value.get_jsonForm, isText_jsonForm, isText_jsonForm, isNumber_jsonForm hf]

lemma pass_treeChecks_jsonForm {t : Value} (h : Pass (treeChecks t)) :
    Pass (treeChecks t.jsonForm) := by
  simpa only [treeChecks, pass_cons, Value.get_jsonForm, isRecord_jsonForm, isText_jsonForm,
    whole?_jsonForm, sortedKeys_jsonForm, isListOf_jsonForm (isText_jsonForm _)] using h

lemma pass_baseFloorChecks_jsonForm {carrier floor ceil : Value}
    (h : Pass (baseFloorChecks carrier floor ceil)) :
    Pass (baseFloorChecks carrier.jsonForm floor.jsonForm ceil.jsonForm) := by
  simpa only [baseFloorChecks, pass_cons, Value.get_jsonForm, isText_jsonForm, beq_str_jsonForm,
    beq_undefined_jsonForm] using h

lemma pass_anchorFloorChecks_jsonForm {carrier floor : Value} (hf : floor.allFinite = true)
    (h : Pass (anchorFloorChecks carrier floor)) :
    Pass (anchorFloorChecks carrier.jsonForm floor.jsonForm) := by
  have hnumber := allFinite_get (allFinite_get hf (js "witness")) (js "blockNumber")
  simpa only [anchorFloorChecks, pass_cons, Value.get_jsonForm, isRecord_jsonForm,
    beq_undefined_jsonForm, isWitness_jsonForm hnumber] using h

lemma pass_ceilingChecks_jsonForm {ceil : Value}
    (hf : ((ceil.get (js "witness")).get (js "blockNumber")).allFinite = true)
    (h : Pass (ceilingChecks ceil)) : Pass (ceilingChecks ceil.jsonForm) := by
  simpa only [ceilingChecks, pass_cons, Value.get_jsonForm, isRecord_jsonForm, beq_str_jsonForm,
    isWitness_jsonForm hf] using h

lemma PartShape.jsonForm {part : Value} {evidence version : Str}
    (h : PartShape part evidence version) : PartShape part.jsonForm evidence version := by
  refine ⟨by rw [isRecord_jsonForm, h.record], ?_⟩
  simpa only [Value.get_jsonForm, Value.jsonForm_eq_str, isRecord_jsonForm] using h.stated

lemma LaterShape.jsonForm {o : Value} (h : LaterShape o) : LaterShape o.jsonForm := by
  constructor
  · rw [Value.get_jsonForm]
    exact h.inTime.jsonForm
  · rw [Value.get_jsonForm, Ne, jsonForm_eq_undefined]
    exact fun hne => (h.settlement hne).jsonForm
  · simpa only [Value.get_jsonForm, jsonForm_eq_undefined, isRecord_jsonForm] using h.pins
  · simpa only [Value.get_jsonForm, jsonForm_eq_undefined, isRecord_jsonForm,
      Value.jsonForm_eq_str] using h.attestation

lemma isV4_jsonForm (v : Value) : isV4 v.jsonForm = isV4 v := beq_str_jsonForm _ _

lemma isV2_jsonForm (v : Value) : isV2 v.jsonForm = isV2 v := by
  rw [isV2, isV2, isV3, isV3, isV4_jsonForm, beq_str_jsonForm, beq_str_jsonForm]

lemma isAtomic_jsonForm (v : Value) : isAtomic v.jsonForm = isAtomic v := by
  rw [isAtomic, isAtomic, beq_str_jsonForm, beq_str_jsonForm]

lemma baseFloor_jsonForm (carrier floor : Value) :
    baseFloor carrier.jsonForm floor.jsonForm = baseFloor carrier floor := by
  rw [baseFloor, baseFloor, isV3, isV3, isV4_jsonForm, beq_str_jsonForm, Value.get_jsonForm,
    beq_str_jsonForm]

lemma BlockShape.jsonForm {o : Value} (h : BlockShape o) (hf : o.allFinite = true) :
    BlockShape o.jsonForm := by
  constructor
  · rw [Value.get_jsonForm, Value.jsonForm_eq_str, isV2_jsonForm]
    exact h.version
  · rw [Value.get_jsonForm, isRecord_jsonForm, h.proof]
  · rw [Value.get_jsonForm, Value.get_jsonForm, isV4_jsonForm]
    exact fun h4 => pass_treeChecks_jsonForm (h.tree h4)
  · simpa only [Value.get_jsonForm, isRecord_jsonForm, Value.jsonForm_eq_str] using h.floor
  · rw [Value.get_jsonForm, isRecord_jsonForm, h.ceiling]
  · rw [Value.get_jsonForm, Value.get_jsonForm, Value.get_jsonForm, baseFloor_jsonForm]
    exact fun hb => pass_baseFloorChecks_jsonForm (h.base hb)
  · rw [Value.get_jsonForm, Value.get_jsonForm, baseFloor_jsonForm]
    exact fun hb => pass_anchorFloorChecks_jsonForm (allFinite_get hf _) (h.anchor hb)
  · rw [Value.get_jsonForm, Value.get_jsonForm, Value.get_jsonForm, baseFloor_jsonForm,
      Value.get_jsonForm, Ne, Value.jsonForm_eq_str]
    exact fun hb hs => pass_ceilingChecks_jsonForm
      (allFinite_get (allFinite_get (allFinite_get hf _) _) _) (h.bound hb hs)
  · rw [Value.get_jsonForm, isV2_jsonForm]
    exact fun h2 => (h.later h2).jsonForm

lemma AtomicShape.jsonForm {o : Value} (h : AtomicShape o) : AtomicShape o.jsonForm := by
  constructor
  · simpa only [sortedKeys_jsonForm, Value.get_jsonForm, Value.jsonForm_eq_str] using h.keys
  · simpa only [Value.get_jsonForm, Value.jsonForm_eq_str, isRecord_jsonForm, isText_jsonForm]
      using h.floorInTime
  · rw [Value.get_jsonForm, isRecord_jsonForm, h.proof]
  · simpa only [Value.get_jsonForm, Value.jsonForm_eq_str, isRecord_jsonForm]
      using h.ceilingInTime

/-- A payload with finite numbers passes the check again after JSON. -/
lemma payloadShapeError_jsonForm {p : Value} (hf : p.allFinite = true)
    (h : payloadShapeError p = none) : payloadShapeError p.jsonForm = none := by
  rw [payloadShapeError_eq_none] at h ⊢
  rw [isRecord_jsonForm, Value.get_jsonForm, isAtomic_jsonForm]
  obtain ⟨hrecord, ⟨ha, hshape⟩ | ⟨ha, hshape⟩⟩ := h
  · exact ⟨hrecord, Or.inl ⟨ha, hshape.jsonForm⟩⟩
  · exact ⟨hrecord, Or.inr ⟨ha, hshape.jsonForm hf⟩⟩

/-! ### Reading what was built -/

/-- The format of the block. -/
def trailer : Lib.Trailer UInt8 where
  magic := carrierMagic
  width := 4
  cap := maxCarrierPayload
  least := 2
  enc := u32be
  dec := Sha256.beNat
  length_enc := fun n => Sha256.length_beBytes 4 n
  dec_enc := fun n hn => by
    rw [u32be, Sha256.beNat_beBytes, Nat.mod_eq_of_lt (hn.trans_lt (by decide))]
  enc_dec := fun w hw => by rw [u32be, ← hw, Sha256.beBytes_beNat]

lemma readPayload_eq_ok {body : Bytes} {p : CarrierPayload} :
    readPayload body = .ok p ↔ (decodeFatal body).bind parse = some p.value := by
  rw [readPayload]
  constructor
  · intro h
    split at h
    · cases h
    · next payload hparse =>
        split at h
        · cases h
        · rw [Except.ok.injEq] at h
          rw [hparse, ← h]
  · intro h
    split
    · next hparse => rw [h] at hparse; cases hparse
    · next payload hparse =>
        obtain rfl := Option.some.inj (h.symm.trans hparse)
        split
        · next reason hshape => rw [p.shape] at hshape; cases hshape
        · rfl

lemma magicAt_iff {bytes : Bytes} {i : ℕ} : magicAt bytes i = false ↔ ¬ trailer.MagicAt bytes i := by
  rw [magicAt, beq_eq_false_iff_ne]
  rfl

/-- The reading of the format, in the positions the program computes. -/
lemma locate_eq (bytes : Bytes) : trailer.locate bytes =
    if bytes.length < carrierOverhead + 2 then .error .absent
    else if ¬ trailer.MagicAt bytes (bytes.length - 8) then .error .absent
    else
      let len := readU32be bytes (bytes.length - 12)
      if maxCarrierPayload < len then .error (.tooLong len)
      else if bytes.length < carrierOverhead + len then .error .overrun
      else
        let start := bytes.length - carrierOverhead - len
        if ¬ trailer.MagicAt bytes start then .error .unopened
        else if readU32be bytes (start + 8) ≠ len then .error .disagree
        else .ok (bytes.take start, (bytes.drop (start + 12)).take len) := by
  have hover : trailer.overhead = carrierOverhead := rfl
  have hleast : trailer.least = 2 := rfl
  have hcap : trailer.cap = maxCarrierPayload := rfl
  have hmagic : trailer.magic.length = 8 := rfl
  have hwidth : trailer.width = 4 := rfl
  have hword : ∀ i, trailer.wordAt bytes i = readU32be bytes i := fun _ => rfl
  simp only [Lib.Trailer.locate, hover, hleast, hcap, hmagic, hwidth, hword]

/-- `parseCarrier` is the reading of the format, then of the payload. -/
lemma parseCarrier_of_locate {bytes inner body : Bytes}
    (h : trailer.locate bytes = .ok (inner, body)) :
    parseCarrier bytes = match readPayload body with
      | .error reason => .corrupt reason
      | .ok payload => .carrier inner payload inner.length := by
  rw [locate_eq] at h
  dsimp only at h
  split_ifs at h with hshort hclose hcap hrun hopen hagree
  rw [Except.ok.injEq, Prod.mk.injEq] at h
  obtain ⟨rfl, rfl⟩ := h
  rw [parseCarrier, if_neg hshort, if_neg (mt magicAt_iff.mp (not_not.mpr hclose))]
  dsimp only
  rw [if_neg hcap, if_neg hrun, if_neg (mt magicAt_iff.mp (not_not.mpr hopen)), if_neg hagree,
    List.length_take, Nat.min_eq_left ((Nat.sub_le _ _).trans (Nat.sub_le _ _))]

/-- A carrier that is read is a format that is read. -/
lemma locate_of_parseCarrier {bytes inner : Bytes} {p : CarrierPayload} {blockOffset : ℕ}
    (h : parseCarrier bytes = .carrier inner p blockOffset) :
    ∃ body, trailer.locate bytes = .ok (inner, body) ∧ readPayload body = .ok p
      ∧ blockOffset = inner.length := by
  rw [parseCarrier] at h
  dsimp only at h
  split_ifs at h with hshort hclose hcap hrun hopen hagree
  split at h
  · cases h
  · next payload hpayload =>
      rw [CarrierParse.carrier.injEq] at h
      obtain ⟨rfl, rfl, rfl⟩ := h
      refine ⟨_, ?_, hpayload, ?_⟩
      · rw [locate_eq, if_neg hshort, if_neg (mt magicAt_iff.mpr hclose)]
        dsimp only
        rw [if_neg hcap, if_neg hrun, if_neg (mt magicAt_iff.mpr hopen), if_neg hagree]
      · rw [List.length_take]
        exact (Nat.min_eq_left ((Nat.sub_le _ _).trans (Nat.sub_le _ _))).symm

/-- **What is a carrier**: bytes that end with the block of a payload. -/
theorem parseCarrier_eq_carrier_iff {bytes inner : Bytes} {p : CarrierPayload} {blockOffset : ℕ} :
    parseCarrier bytes = .carrier inner p blockOffset ↔ blockOffset = inner.length
      ∧ ∃ body, bytes = trailer.enclose inner body ∧ body.length ≤ maxCarrierPayload
        ∧ 2 ≤ inner.length + body.length ∧ (decodeFatal body).bind parse = some p.value := by
  constructor
  · intro h
    obtain ⟨body, hlocate, hread, hoffset⟩ := locate_of_parseCarrier h
    obtain ⟨hbytes, hcap, hleast⟩ := trailer.locate_eq_ok_iff.mp hlocate
    exact ⟨hoffset, body, hbytes, hcap, hleast, readPayload_eq_ok.mp hread⟩
  · rintro ⟨rfl, body, hbytes, hcap, hleast, hread⟩
    rw [parseCarrier_of_locate (trailer.locate_eq_ok_iff.mpr ⟨hbytes, hcap, hleast⟩),
      readPayload_eq_ok.mpr hread]

/-- The bytes of a payload that is data of JSON. -/
def payloadBytes (payload : Value) : Bytes := utf8Encode (payload.serialize.getD [])

/-- A payload within the size limit. -/
def Fits (payload : Value) : Prop := (payloadBytes payload).length ≤ maxCarrierPayload

lemma encodePayload_of_isJson {payload : Value} (hj : payload.isJson = true) :
    encodePayload payload = .ok (payloadBytes payload) := by
  rw [encodePayload, Value.stringify_of_isJson hj]
  rfl

/-- What a payload's bytes read as. -/
lemma parse_payloadBytes {payload : Value} (hj : payload.isJson = true) :
    (decodeFatal (payloadBytes payload)).bind parse = some payload.jsonForm := by
  obtain ⟨t, ht, hparse⟩ := parse_serialize_jsonForm hj
  rw [payloadBytes, ht, Option.getD_some, decodeFatal_serialize ht]
  exact hparse

lemma two_le_payloadBytes {payload : Value} (hr : isRecord payload = true) :
    2 ≤ (payloadBytes payload).length := by
  cases payload with
  | obj l =>
      refine le_trans ?_ (length_le_utf8Encode _)
      simp only [Value.serialize, Option.getD_some, List.length_cons, List.length_append]
      omega
  | _ => simp [isRecord] at hr

/-- A payload within the limit is built. -/
lemma buildCarrier_of_fits {payload : Value} (hj : payload.isJson = true) (hfits : Fits payload)
    (inner : Bytes) :
    buildCarrier inner payload = .ok (trailer.enclose inner (payloadBytes payload)) := by
  rw [buildCarrier, encodeCarrierBlock, encodePayload_of_isJson hj, ok_bind,
    if_neg (not_lt.mpr hfits)]
  rfl

/-- A payload past the limit is not. -/
lemma buildCarrier_of_not_fits {payload : Value} (hj : payload.isJson = true)
    (hfits : ¬ Fits payload) (inner : Bytes) :
    ∃ e, buildCarrier inner payload = .error e := by
  rw [buildCarrier, encodeCarrierBlock, encodePayload_of_isJson hj, ok_bind,
    if_pos (not_le.mp hfits)]
  exact ⟨_, rfl⟩

/-- What was built is read as what JSON keeps of it. -/
lemma parse_enclose_iff {payload : Value} (hj : payload.isJson = true)
    (hr : isRecord payload = true) (hfits : Fits payload) (inner : Bytes) (p : CarrierPayload) :
    parseCarrier (trailer.enclose inner (payloadBytes payload)) = .carrier inner p inner.length
      ↔ p.value = payload.jsonForm := by
  have hlocate : trailer.locate (trailer.enclose inner (payloadBytes payload))
      = .ok (inner, payloadBytes payload) :=
    trailer.locate_enclose hfits ((two_le_payloadBytes hr).trans (Nat.le_add_left _ _))
  have hread : readPayload (payloadBytes payload) = .ok p ↔ p.value = payload.jsonForm := by
    rw [readPayload_eq_ok, parse_payloadBytes hj, Option.some.injEq]
    exact eq_comm
  rw [parseCarrier_of_locate hlocate, ← hread]
  cases readPayload (payloadBytes payload) with
  | error reason => simp
  | ok q => simp

/-- A payload to write: data of JSON with finite numbers that passes the check. -/
structure Writable (payload : Value) : Prop where
  json : payload.isJson = true
  finite : payload.allFinite = true
  shape : payloadShapeError payload = none
  fits : Fits payload

lemma isRecord_of_shape {p : Value} (h : payloadShapeError p = none) : isRecord p = true :=
  (payloadShapeError_eq_none.mp h).1

/-- With finite numbers JSON keeps all but the sign of zeros. -/
lemma jsonForm_of_allFinite {v : Value} (hj : v.isJson = true) (hf : v.allFinite = true) :
    v.jsonForm = v.posZero := by
  obtain ⟨t, ht, hparse⟩ := parse_serialize hj hf
  obtain ⟨u, hu, hparse'⟩ := parse_serialize_jsonForm hj
  rw [ht] at hu
  cases hu
  exact Option.some.inj (hparse'.symm.trans hparse)

/-- The payload read back. -/
def Writable.read {payload : Value} (h : Writable payload) : CarrierPayload :=
  ⟨payload.posZero, by rw [← jsonForm_of_allFinite h.json h.finite]; exact (jsonForm_isJson h.json).1,
    by
      rw [← jsonForm_of_allFinite h.json h.finite]
      exact payloadShapeError_jsonForm h.finite h.shape⟩

lemma Writable.parse {payload : Value} (h : Writable payload) (inner : Bytes) :
    ∃ bytes, buildCarrier inner payload = .ok bytes
      ∧ parseCarrier bytes = .carrier inner h.read inner.length :=
  ⟨_, buildCarrier_of_fits h.json h.fits inner,
    (parse_enclose_iff h.json (isRecord_of_shape h.shape) h.fits inner h.read).mpr
      (jsonForm_of_allFinite h.json h.finite).symm⟩

/-- Blocks appended one after another. -/
def wrap (inner : Bytes) (payloads : List Value) : Except Thrown Bytes :=
  payloads.foldlM buildCarrier inner

/-- Blocks stripped one at a time, from the outermost in. -/
def strip : ℕ → Bytes → Option (List Value × Bytes)
  | 0, bytes => some ([], bytes)
  | n + 1, bytes =>
      match parseCarrier bytes with
      | .carrier inner p _ => (strip n inner).map fun r => (p.value :: r.1, r.2)
      | _ => none

lemma strip_succ {bytes inner : Bytes} {p : CarrierPayload} {k : ℕ} {n : ℕ}
    (h : parseCarrier bytes = .carrier inner p k) :
    strip (n + 1) bytes = (strip n inner).map fun r => (p.value :: r.1, r.2) := by
  rw [strip, h]

lemma wrap_ok (inner : Bytes) {payloads : List Value} (h : ∀ payload ∈ payloads, Writable payload) :
    ∃ layer, wrap inner payloads = .ok layer := by
  induction payloads generalizing inner with
  | nil => exact ⟨inner, rfl⟩
  | cons payload payloads ih =>
      obtain ⟨bytes, hbuild, -⟩ := (h payload (by simp)).parse inner
      obtain ⟨layer, hlayer⟩ := ih bytes fun p hp => h p (by simp [hp])
      refine ⟨layer, ?_⟩
      rw [wrap, List.foldlM_cons, hbuild, ok_bind]
      exact hlayer

/-- **Round trip.** One block is read back, with its payload up to the sign of zeros, whatever
the bytes before it are; and of nested blocks the outermost is read, so that stripping them one
at a time meets each layer. -/
theorem strip_wrap (inner : Bytes) (init rest : List Value)
    (h : ∀ payload ∈ init ++ rest, Writable payload) :
    (∀ payload ∈ init ++ rest, ∃ bytes p, buildCarrier inner payload = .ok bytes
        ∧ parseCarrier bytes = .carrier inner p inner.length ∧ p.value = payload.posZero)
      ∧ ∃ layer bytes, wrap inner init = .ok layer ∧ wrap inner (init ++ rest) = .ok bytes
        ∧ strip rest.length bytes = some ((rest.map Value.posZero).reverse, layer) := by
  refine ⟨fun payload hp => ?_, ?_⟩
  · obtain ⟨bytes, hbuild, hparse⟩ := (h payload hp).parse inner
    exact ⟨bytes, _, hbuild, hparse, rfl⟩
  · -- from the innermost layer out: the last block is the first one stripped
    induction rest using List.reverseRecOn with
    | nil =>
        obtain ⟨layer, hlayer⟩ := wrap_ok inner (by simpa using h)
        exact ⟨layer, layer, hlayer, by rw [List.append_nil, hlayer], rfl⟩
    | append_singleton rest payload ih =>
        obtain ⟨layer, bytes, hlayer, hbytes, hstrip⟩ := ih fun p hp => h p (by
          rw [List.mem_append] at hp ⊢
          exact hp.imp id fun hp => List.mem_append_left _ hp)
        obtain ⟨outer, hbuild, hparse⟩ := (h payload (by simp)).parse bytes
        refine ⟨layer, outer, hlayer, ?_, ?_⟩
        · rw [← List.append_assoc, wrap, List.foldlM_append, ← wrap, hbytes, ok_bind,
            List.foldlM_cons, hbuild, ok_bind]
          rfl
        · rw [List.length_append, List.length_singleton, strip_succ hparse, hstrip]
          simp [Writable.read]

/-- A payload of version 5, the ceiling in time not fetched. -/
def atomicPayload : Value :=
  .obj [(js "carrier", .str carrierVersion5), (js "proof", .obj []),
    (js "ceilingInTime", .obj [(js "status", .str (js "unfetched"))])]

lemma writable_atomicPayload : Writable atomicPayload :=
  ⟨by decide, by decide, by decide, by unfold Fits; decide⟩

/-- Two blocks on a file that is a block itself. -/
theorem strip_wrap_atomic :
    (∀ payload ∈ [atomicPayload] ++ [atomicPayload, atomicPayload], ∃ bytes p,
        buildCarrier carrierMagic payload = .ok bytes
          ∧ parseCarrier bytes = .carrier carrierMagic p carrierMagic.length
          ∧ p.value = payload.posZero)
      ∧ ∃ layer bytes, wrap carrierMagic [atomicPayload] = .ok layer
        ∧ wrap carrierMagic ([atomicPayload] ++ [atomicPayload, atomicPayload]) = .ok bytes
        ∧ strip 2 bytes = some (([atomicPayload, atomicPayload].map Value.posZero).reverse, layer) :=
  strip_wrap carrierMagic [atomicPayload] [atomicPayload, atomicPayload] fun payload hp => by
    simp only [List.mem_append, List.mem_cons, List.not_mem_nil, or_false, or_self] at hp
    rw [hp]
    exact writable_atomicPayload

/-- A payload of version 1 whose header stands at block `Infinity`. -/
def infinitePayload : Value :=
  .obj [(js "carrier", .str carrierVersion), (js "proof", .obj []),
    (js "floor", .obj [(js "status", .str (js "present")), (js "anchor", .obj []),
      (js "witness", .obj [(js "headerRlpHex", .str []), (js "blockNumber", .num (.inf false)),
        (js "blockHash", .str [])])]),
    (js "ceiling", .obj [(js "status", .str (js "unfetched"))])]

/-- JSON writes `Infinity` as `null`: a payload that passes the check is built into a block that
does not. -/
theorem parse_build_infinite : ¬ ∀ (inner : Bytes) (payload : Value), payload.isJson = true →
    payloadShapeError payload = none → Fits payload → ∃ bytes p,
      buildCarrier inner payload = .ok bytes
        ∧ parseCarrier bytes = .carrier inner p inner.length ∧ p.value = payload := by
  intro h
  have hj : infinitePayload.isJson = true := by decide
  have hshape : payloadShapeError infinitePayload = none := by decide
  have hfits : Fits infinitePayload := by unfold Fits; decide +kernel
  obtain ⟨bytes, p, hbuild, hparse, -⟩ := h [] infinitePayload hj hshape hfits
  rw [buildCarrier_of_fits hj hfits, Except.ok.injEq] at hbuild
  rw [← hbuild] at hparse
  have hvalue := (parse_enclose_iff hj (isRecord_of_shape hshape) hfits [] p).mp hparse
  have hlost : payloadShapeError infinitePayload.jsonForm
      = some (js "floor carries no readable block-header witness") := by decide
  rw [← hvalue, p.shape] at hlost
  cases hlost

end Carrier

end BitGraph
