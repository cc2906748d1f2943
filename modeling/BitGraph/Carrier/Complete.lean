import BitGraph.Carrier

/-!
`carrier.ts`: parts stamped into a carrier after it was written.

`completeCarrier`, `completeCarrierInTime` and `completeCarrierSettlement` write one part of a
payload: the ceiling in position, the ceiling in time, the settlement. They refuse to replace a
part that is present.

* **Parts.** `CeilingPart`, `Evidence` and `JsonObject` are what callers offer, with the shape
  they have by then.
* **Completions.** `Completion` is a call of one of the three, `Completion.run` its result.
* **Being conservative.** `Completion.Conservative`: nothing is thrown, the file is unchanged or
  is a carrier with all else as it was, and a second call changes nothing.
* **Main result.** `conservative_iff`: a completion is conservative on exactly the carriers of
  `Completion.Safe`. `atomic_ceiling_throws` is a carrier where the first one throws.
-/

namespace BitGraph

open Js

namespace Carrier

/-! ### What callers offer -/

/-- An object that is data of JSON. -/
structure JsonObject where
  fields : Fields
  json : (Value.obj fields).isJson = true

/-- A verified ceiling in position: an anchor and the header of its block. -/
structure CeilingPart where
  anchor : Value
  witness : Value
  anchor_json : anchor.isJson = true
  witness_json : witness.isJson = true
  anchor_record : isRecord anchor = true
  witness_shape : isWitness witness = true
  number_finite : (witness.get (js "blockNumber")).allFinite = true

/-- A verified sidecar or pointer: an object of a version whose reference names a transaction
and a block. -/
structure Evidence (version reference : Str) where
  value : Value
  json : value.isJson = true
  record : isRecord value = true
  version_eq : value.get (js "version") = .str version
  reference_record : isRecord (value.get reference) = true
  txHash : ∃ s, (value.get reference).get (js "txHash") = .str s
  blockHash : ∃ s, (value.get reference).get (js "blockHash") = .str s

abbrev Sidecar := Evidence ceilingSidecarVersion (js "anchor")

abbrev Pointer := Evidence settlementPointerVersion (js "l1")

/-! ### The completions -/

structure Completed where
  changed : Bool
  bytes : Bytes
  error : Option Str

def unchanged (bytes : Bytes) (error : Option Str) : Completed := ⟨false, bytes, error⟩

/-- The text of a value that is one. -/
def textOf : Value → Str
  | .str s => s
  | _ => []

/-- A part not fetched, with what a completion looked for. -/
def unfetched (searched : Option JsonObject) : Value :=
  .obj ((js "status", .str (js "unfetched"))
    :: match searched with
      | none => []
      | some s => [(js "searched", .obj s.fields)])

/-- A part that is present. -/
def present (members : Fields) : Value := .obj ((js "status", .str (js "present")) :: members)

/-- The part is present. -/
def isPresent (part : Value) : Bool := part.get (js "status") == .str (js "present")

section Completions

variable (toLowerCase : Str → Str)

/-- Two ceilings have one counter and one block. -/
def sameCeiling (cur : Value) (ceiling : CeilingPart) : Bool :=
  let a := (cur.get (js "anchor")).get (js "commit")
  let b := ceiling.anchor.get (js "commit")
  isRecord a && isRecord b && Value.strictEq (a.get (js "counter")) (b.get (js "counter"))
    && toLowerCase (textOf ((cur.get (js "witness")).get (js "blockHash")))
      == toLowerCase (textOf (ceiling.witness.get (js "blockHash")))

/-- `String(a["blockHash"] ?? "").toLowerCase()`. -/
def blockHashText (a : Value) : Except Thrown Str :=
  let hash := a.get (js "blockHash")
  match (if hash = .undefined ∨ hash = .null then .str [] else hash).toText with
  | some t => .ok (toLowerCase t)
  | none => .error (typeError (js "Cannot convert object to primitive value"))

/-- Two references name one transaction in one block. -/
def sameReference (a b : Value) : Except Thrown Bool :=
  if isRecord a && isRecord b && Value.strictEq (a.get (js "txHash")) (b.get (js "txHash")) then do
    let x ← blockHashText toLowerCase a
    let y ← blockHashText toLowerCase b
    return x == y
  else .ok false

/-- The carrier with one part written. -/
def stamp (inner : Bytes) (payload : Value) (field : Str) (part : Value) : Except Thrown Completed := do
  let bytes ← buildCarrier inner (payload.setProp field part)
  return ⟨true, bytes, none⟩

/-- The answer on bytes that are no carrier, or what comes after reading one. -/
def onCarrier (bytes : Bytes) (k : Bytes → Value → Except Thrown Completed) :
    Except Thrown Completed :=
  match parseCarrier bytes with
  | .none => .ok (unchanged bytes (some (js "not a carrier")))
  | .corrupt reason => .ok (unchanged bytes (some (js "corrupt block: " ++ reason)))
  | .carrier inner payload _ => k inner payload.value

/-- The ceiling in position, or that a completion looked for it. -/
def completeCarrier (bytes : Bytes) (ceiling : Option CeilingPart) (searched : Option JsonObject) :
    Except Thrown Completed :=
  onCarrier bytes fun inner payload => do
    let cur := payload.get (js "ceiling")
    let status ← cur.prop (js "status")
    if status = .str (js "none") then
      return unchanged bytes (some ((if payload.get (js "carrier") = .str carrierVersion3
        then js "a " ++ carrierVersion3 ++ js " block" else js "a block over a Base floor")
        ++ js " has no ceiling in position: its order is the chain of proof hashes"))
    else if status = .str (js "present") then
      match ceiling with
      | none => return unchanged bytes none
      | some c =>
          return unchanged bytes (if sameCeiling toLowerCase cur c then none else some (js
            "carrier already holds a different ceiling; refusing to overwrite it"))
    else
      match ceiling, searched with
      | none, none => return unchanged bytes none
      | none, some s => stamp inner payload (js "ceiling") (unfetched (some s))
      | some c, _ => stamp inner payload (js "ceiling") (present
          [(js "basis", .str (js "counter-order")), (js "anchor", c.anchor),
            (js "witness", c.witness)])

/-- The ceiling in time, or that a completion looked for it. -/
def completeCarrierInTime (bytes : Bytes) (sidecar : Option Sidecar)
    (searched : Option JsonObject) : Except Thrown Completed :=
  onCarrier bytes fun inner payload =>
    if carrierVersionOf payload = 1 then
      .ok (unchanged bytes (some (js ("a bitgraph-carrier/1 block has no ceiling in time; " ++
        "rebuild the file as carrier/2"))))
    else
      let cur := payload.get (js "ceilingInTime")
      if isPresent cur then
        match sidecar with
        | none => .ok (unchanged bytes none)
        | some s => do
            let same ← sameReference toLowerCase ((cur.get (js "sidecar")).get (js "anchor"))
              (s.value.get (js "anchor"))
            return unchanged bytes (if same then none else some (js
              "carrier already holds a different ceiling in time; refusing to overwrite it"))
      else
        match sidecar, searched with
        | none, none => .ok (unchanged bytes none)
        | none, some s => stamp inner payload (js "ceilingInTime") (unfetched (some s))
        | some s, _ => stamp inner payload (js "ceilingInTime") (present [(js "sidecar", s.value)])

/-- The settlement. -/
def completeCarrierSettlement (bytes : Bytes) (pointer : Pointer) : Except Thrown Completed :=
  onCarrier bytes fun inner payload =>
    if carrierVersionOf payload = 1 then
      .ok (unchanged bytes (some (js ("a bitgraph-carrier/1 block has no settlement; " ++
        "rebuild the file as carrier/2"))))
    else
      let cur := payload.get (js "settlement")
      if isPresent cur then do
        let same ← sameReference toLowerCase ((cur.get (js "pointer")).get (js "l1"))
          (pointer.value.get (js "l1"))
        return unchanged bytes (if same then none else some (js
          "carrier already holds a different settlement; refusing to overwrite it"))
      else stamp inner payload (js "settlement") (present [(js "pointer", pointer.value)])

end Completions

/-- A call of one of the three. -/
inductive Completion where
  | ceiling (part : Option CeilingPart) (searched : Option JsonObject)
  | inTime (sidecar : Option Sidecar) (searched : Option JsonObject)
  | settlement (pointer : Pointer)

namespace Completion

def run (toLowerCase : Str → Str) (c : Completion) (bytes : Bytes) : Except Thrown Completed :=
  match c with
  | .ceiling part searched => completeCarrier toLowerCase bytes part searched
  | .inTime sidecar searched => completeCarrierInTime toLowerCase bytes sidecar searched
  | .settlement pointer => completeCarrierSettlement toLowerCase bytes pointer

/-- The field a completion writes. -/
def field : Completion → Str
  | .ceiling _ _ => js "ceiling"
  | .inTime _ _ => js "ceilingInTime"
  | .settlement _ => js "settlement"

/-- What a completion writes, when it writes. -/
def offer : Completion → Option Value
  | .ceiling (some c) _ => some (present [(js "basis", .str (js "counter-order")),
      (js "anchor", c.anchor), (js "witness", c.witness)])
  | .inTime (some s) _ => some (present [(js "sidecar", s.value)])
  | .settlement pointer => some (present [(js "pointer", pointer.value)])
  | .ceiling none (some s) => some (unfetched (some s))
  | .inTime none (some s) => some (unfetched (some s))
  | .ceiling none none => none
  | .inTime none none => none

/-- The references a completion compares with those of a part that is present. -/
def reference : Completion → Option (Str × Str × Value)
  | .inTime (some s) _ => some (js "sidecar", js "anchor", s.value.get (js "anchor"))
  | .settlement pointer => some (js "pointer", js "l1", pointer.value.get (js "l1"))
  | _ => none

/-- Version 1 has no part but the ceiling in position. -/
def Has (c : Completion) (payload : Value) : Prop :=
  c.field = js "ceiling" ∨ payload.get (js "carrier") ≠ .str carrierVersion

/-- The part is open: the version has it, and it is neither present nor ruled out. -/
def Open (c : Completion) (payload : Value) : Prop :=
  c.Has payload ∧ (payload.get c.field).get (js "status") ≠ .str (js "present")
    ∧ (payload.get c.field).get (js "status") ≠ .str (js "none")

/-- **Conservative.** Nothing is thrown; the file is the same, or is a carrier of the same bytes
with every other field as it was, where a part that was present is not replaced; and a second
call changes nothing. -/
def Conservative (toLowerCase : Str → Str) (c : Completion) (bytes inner : Bytes)
    (payload : Value) : Prop :=
  ∃ r, c.run toLowerCase bytes = .ok r
    ∧ (r.changed = false ∧ r.bytes = bytes
      ∨ r.changed = true ∧ ∃ p, parseCarrier r.bytes = .carrier inner p inner.length
        ∧ (∀ k ≠ c.field, p.value.get k = payload.get k)
        ∧ (isPresent (payload.get c.field) = true →
            p.value.get c.field = payload.get c.field))
    ∧ ∃ r', c.run toLowerCase r.bytes = .ok r' ∧ r'.bytes = r.bytes

/-- The carriers a completion is fit for. -/
structure Safe (c : Completion) (payload : Value) : Prop where
  /-- Versions 5 and 6 have a ceiling in time only. -/
  supported : isAtomic (payload.get (js "carrier")) = true → c.field = js "ceilingInTime"
  /-- The block hash of a reference that is compared converts to a text. -/
  readable : ∀ evidence key b, c.reference = some (evidence, key, b) →
    c.Has payload → isPresent (payload.get c.field) = true →
    isRecord (((payload.get c.field).get evidence).get key) = true →
    Value.strictEq ((((payload.get c.field).get evidence).get key).get (js "txHash"))
      (b.get (js "txHash")) = true →
    ((((payload.get c.field).get evidence).get key).get (js "blockHash")).toText ≠ none
  /-- A payload that is written fits, and JSON keeps its other fields. -/
  kept : ∀ part, c.offer = some part → c.Open payload → Fits (payload.setProp c.field part)
    ∧ ∀ k ≠ c.field, (payload.get k).jsonForm = payload.get k

end Completion

/-! ### Payloads with one field written -/

lemma isJson_present {members : Fields}
    (hkeys : (js "status" :: members.map Prod.fst).Pairwise KeyBefore)
    (h : ∀ m ∈ members, m.2.isJson = true) : (present members).isJson = true := by
  rw [present, Value.isJson, Bool.and_eq_true, decide_eq_true_eq, Value.isJsonFields_iff,
    Fields.ordered_iff]
  exact ⟨hkeys, List.forall_mem_cons.mpr ⟨rfl, h⟩⟩

lemma isJson_unfetched (s : JsonObject) : (unfetched (some s)).isJson = true := by
  rw [unfetched, Value.isJson, Bool.and_eq_true, decide_eq_true_eq, Value.isJsonFields_iff]
  refine ⟨?_, ?_⟩
  · rw [Fields.ordered_iff]
    simp only [List.map_cons, List.map_nil]
    decide
  · simpa [Value.isJson] using s.json

lemma Completion.isJson_offer {c : Completion} {part : Value} (h : c.offer = some part) :
    part.isJson = true := by
  rcases c with ⟨_ | c, _ | s⟩ | ⟨_ | c, _ | s⟩ | pointer <;>
    simp only [Completion.offer, Option.some.injEq, reduceCtorEq] at h <;> subst h
  · exact isJson_unfetched s
  · refine isJson_present (by simp only [List.map_cons, List.map_nil]; decide) ?_
    simp [Value.isJson, c.anchor_json, c.witness_json]
  · refine isJson_present (by simp only [List.map_cons, List.map_nil]; decide) ?_
    simp [Value.isJson, c.anchor_json, c.witness_json]
  · exact isJson_unfetched s
  · exact isJson_present (by simp only [List.map_cons, List.map_nil]; decide) (by simp [c.json])
  · exact isJson_present (by simp only [List.map_cons, List.map_nil]; decide) (by simp [c.json])
  · exact isJson_present (by simp only [List.map_cons, List.map_nil]; decide) (by simp [pointer.json])

lemma isRecord_setProp {v : Value} (h : isRecord v = true) (k : Str) (w : Value) :
    isRecord (v.setProp k w) = true := by
  cases v with
  | obj l => rfl
  | _ => simp [isRecord] at h

/-- A field of a payload that was stamped and read back. -/
lemma get_stamped (p : CarrierPayload) (k : Str) (part : Value) (j : Str) :
    (p.value.setProp k part).jsonForm.get j
      = if j = k then part.jsonForm else (p.value.get j).jsonForm := by
  have hrecord := isRecord_of_shape p.shape
  rw [Value.get_jsonForm]
  cases hv : p.value with
  | obj l =>
      rw [Value.get_setProp]
      split <;> rfl
  | _ => simp [hv, isRecord] at hrecord

/-- Stamping the same part again writes the same bytes. -/
lemma payloadBytes_restamp {v part : Value} {k : Str} (hv : v.isJson = true)
    (hpart : part.isJson = true) :
    payloadBytes ((v.setProp k part).jsonForm.setProp k part) = payloadBytes (v.setProp k part) := by
  have hstamped := Value.isJson_setProp k hv hpart
  have hagain := Value.isJson_setProp k (jsonForm_isJson hstamped).1 hpart
  have hform : ((v.setProp k part).jsonForm.setProp k part).jsonForm = (v.setProp k part).jsonForm := by
    rw [Value.jsonForm_setProp, Value.jsonForm_jsonForm, Value.jsonForm_setProp,
      Value.setProp_setProp]
  rw [payloadBytes, payloadBytes, ← serialize_jsonForm hagain, hform, serialize_jsonForm hstamped]

lemma stamp_of_fits {p : CarrierPayload} {k : Str} {part : Value} (hpart : part.isJson = true)
    (hfits : Fits (p.value.setProp k part)) (inner : Bytes) :
    stamp inner p.value k part
      = .ok ⟨true, trailer.enclose inner (payloadBytes (p.value.setProp k part)), none⟩ := by
  rw [stamp, buildCarrier_of_fits (Value.isJson_setProp k p.json hpart) hfits]
  rfl

lemma stamp_of_not_fits {p : CarrierPayload} {k : Str} {part : Value} (hpart : part.isJson = true)
    (hfits : ¬ Fits (p.value.setProp k part)) (inner : Bytes) :
    ∃ e, stamp inner p.value k part = .error e := by
  obtain ⟨e, he⟩ := buildCarrier_of_not_fits (Value.isJson_setProp k p.json hpart) hfits inner
  exact ⟨e, by rw [stamp, he]; rfl⟩

/-! ### The check after one field was written -/

/-- The ceiling in position is written. -/
lemma BlockShape.ceiling_written {o o' : Value} (h : BlockShape o)
    (hget : ∀ j ≠ js "ceiling", o'.get j = o.get j)
    (hbase : baseFloor (o.get (js "carrier")) (o.get (js "floor")) = false)
    (hrecord : isRecord (o'.get (js "ceiling")) = true)
    (hpass : (o'.get (js "ceiling")).get (js "status") ≠ .str (js "unfetched") →
      Pass (ceilingChecks (o'.get (js "ceiling")))) : BlockShape o' := by
  have hcarrier := hget (js "carrier") (by decide)
  have hfloor := hget (js "floor") (by decide)
  constructor
  · rw [hcarrier]
    exact h.version
  · rw [hget _ (by decide)]
    exact h.proof
  · rw [hcarrier, hget (js "tree") (by decide)]
    exact h.tree
  · rw [hfloor]
    exact h.floor
  · exact hrecord
  · rw [hcarrier, hfloor, hbase]
    exact fun hb => absurd hb (by decide)
  · rw [hcarrier, hfloor]
    exact h.anchor
  · exact fun _ => hpass
  · rw [hcarrier]
    intro h2
    obtain ⟨hct, hst, hpins, hatt⟩ := h.later h2
    constructor
    · rwa [hget _ (by decide)]
    · rwa [hget (js "settlement") (by decide)]
    · rwa [hget (js "pins") (by decide)]
    · rwa [hget (js "attestation") (by decide)]

/-- A field that versions 2 to 4 add is written. -/
lemma BlockShape.later_written {o o' : Value} (h : BlockShape o) {k : Str}
    (hk : k = js "ceilingInTime" ∨ k = js "settlement") (hget : ∀ j ≠ k, o'.get j = o.get j)
    (hlater : LaterShape o → LaterShape o') : BlockShape o' := by
  have hfixed : ∀ j, j ≠ js "ceilingInTime" → j ≠ js "settlement" → o'.get j = o.get j := by
    intro j hj hj'
    rcases hk with rfl | rfl
    · exact hget j hj
    · exact hget j hj'
  have hcarrier := hfixed (js "carrier") (by decide) (by decide)
  have hfloor := hfixed (js "floor") (by decide) (by decide)
  have hceiling := hfixed (js "ceiling") (by decide) (by decide)
  constructor
  · rw [hcarrier]
    exact h.version
  · rw [hfixed _ (by decide) (by decide)]
    exact h.proof
  · rw [hcarrier, hfixed (js "tree") (by decide) (by decide)]
    exact h.tree
  · rw [hfloor]
    exact h.floor
  · rw [hceiling]
    exact h.ceiling
  · rw [hcarrier, hfloor, hceiling]
    exact h.base
  · rw [hcarrier, hfloor]
    exact h.anchor
  · rw [hcarrier, hfloor, hceiling]
    exact h.bound
  · rw [hcarrier]
    exact fun h2 => hlater (h.later h2)

lemma LaterShape.inTime_written {o o' : Value} (h : LaterShape o)
    (hget : ∀ j ≠ js "ceilingInTime", o'.get j = o.get j)
    (hpart : PartShape (o'.get (js "ceilingInTime")) (js "sidecar") ceilingSidecarVersion) :
    LaterShape o' := by
  constructor
  · exact hpart
  · rw [hget (js "settlement") (by decide)]
    exact h.settlement
  · rw [hget (js "pins") (by decide)]
    exact h.pins
  · rw [hget (js "attestation") (by decide)]
    exact h.attestation

lemma LaterShape.settlement_written {o o' : Value} (h : LaterShape o)
    (hget : ∀ j ≠ js "settlement", o'.get j = o.get j)
    (hpart : PartShape (o'.get (js "settlement")) (js "pointer") settlementPointerVersion) :
    LaterShape o' := by
  constructor
  · rw [hget _ (by decide)]
    exact h.inTime
  · exact fun _ => hpart
  · rw [hget (js "pins") (by decide)]
    exact h.pins
  · rw [hget (js "attestation") (by decide)]
    exact h.attestation

/-- Versions 5 and 6 have no other fields. -/
lemma AtomicShape.get_eq_undefined {o : Value} (h : AtomicShape o)
    (ha : isAtomic (o.get (js "carrier")) = true) {k : Str}
    (hk : k ∉ [js "carrier", js "ceilingInTime", js "floorInTime", js "proof"]) :
    o.get k = .undefined := by
  by_contra hne
  have hcarrier : js "carrier" ∈ o.keys := Value.mem_keys_of_get fun h0 => by
    rw [h0] at ha
    exact absurd ha (by decide)
  have hrecord : ∀ {j : Str}, isRecord (o.get j) = true → j ∈ o.keys := fun hj =>
    Value.mem_keys_of_get fun h0 => by
      rw [h0] at hj
      exact absurd hj (by decide)
  have hproof := hrecord h.proof
  have hceiling := hrecord h.ceilingInTime.1
  have hkey := Value.mem_keys_of_get hne
  simp only [List.mem_cons, List.not_mem_nil, or_false, not_or] at hk
  obtain ⟨hk1, hk2, hk3, hk4⟩ := hk
  have hkeys := h.keys
  -- the joined keys are too short for one more
  by_cases h6 : o.get (js "carrier") = .str carrierVersion6
  · have hfloor := hrecord (h.floorInTime h6).1
    have hle := Value.length_le_sortedKeys
      (l := [k, js "carrier", js "ceilingInTime", js "floorInTime", js "proof"])
      (v := o) (List.nodup_cons.mpr ⟨by simp [hk1, hk2, hk3, hk4], by decide⟩)
      (by simp [hkey, hcarrier, hceiling, hfloor, hproof])
    rw [hkeys, if_pos h6] at hle
    simp [js] at hle
  · have hle := Value.length_le_sortedKeys
      (l := [k, js "carrier", js "ceilingInTime", js "proof"])
      (v := o) (List.nodup_cons.mpr ⟨by simp [hk1, hk2, hk4], by decide⟩)
      (by simp [hkey, hcarrier, hceiling, hproof])
    rw [hkeys, if_neg h6] at hle
    simp [js] at hle

/-! ### What a completion does -/

lemma onCarrier_carrier {bytes inner : Bytes} {p : CarrierPayload} {blockOffset : ℕ}
    (h : parseCarrier bytes = .carrier inner p blockOffset)
    (k : Bytes → Value → Except Thrown Completed) : onCarrier bytes k = k inner p.value := by
  rw [onCarrier, h]

section Conservative

variable {toLowerCase : Str → Str} {c : Completion} {bytes inner : Bytes} {p : CarrierPayload}

/-- A completion that leaves the file as it is. -/
lemma conservative_of_unchanged {payload : Value} {error : Option Str}
    (h : c.run toLowerCase bytes = .ok (unchanged bytes error)) :
    c.Conservative toLowerCase bytes inner payload :=
  ⟨_, h, Or.inl ⟨rfl, rfl⟩, _, h, rfl⟩

lemma not_conservative_of_error {payload : Value} {e : Thrown}
    (h : c.run toLowerCase bytes = .error e) : ¬ c.Conservative toLowerCase bytes inner payload := by
  rintro ⟨r, hr, -⟩
  rw [h] at hr
  cases hr

/-- A completion that writes its part: it has to fit, and JSON has to keep the other fields. -/
lemma conservative_stamp_iff {part : Value}
    (hrun : c.run toLowerCase bytes = stamp inner p.value c.field part)
    (hpart : part.isJson = true) (hopen : isPresent (p.value.get c.field) = false)
    (hshape : (∀ k ≠ c.field, (p.value.get k).jsonForm = p.value.get k) →
      payloadShapeError (p.value.setProp c.field part).jsonForm = none)
    (hagain : ∀ (q : CarrierPayload) (b : Bytes),
      q.value = (p.value.setProp c.field part).jsonForm →
      parseCarrier b = .carrier inner q inner.length →
      (∃ error, c.run toLowerCase b = .ok (unchanged b error))
        ∨ c.run toLowerCase b = stamp inner q.value c.field part) :
    c.Conservative toLowerCase bytes inner p.value ↔ Fits (p.value.setProp c.field part)
      ∧ ∀ k ≠ c.field, (p.value.get k).jsonForm = p.value.get k := by
  have hj := Value.isJson_setProp c.field p.json hpart
  have hrecord := isRecord_setProp (isRecord_of_shape p.shape) c.field part
  constructor
  · rintro ⟨r, hr, hresult, -⟩
    have hfits : Fits (p.value.setProp c.field part) := by
      by_contra hfits
      obtain ⟨e, he⟩ := stamp_of_not_fits hpart hfits inner
      rw [hrun, he] at hr
      cases hr
    refine ⟨hfits, fun k hk => ?_⟩
    rw [hrun, stamp_of_fits hpart hfits, Except.ok.injEq] at hr
    subst hr
    obtain ⟨hchanged, -⟩ | ⟨-, q, hq, hkept, -⟩ := hresult
    · cases hchanged
    · have hvalue := (parse_enclose_iff hj hrecord hfits inner q).mp hq
      have hread : q.value.get k = (p.value.get k).jsonForm := by
        rw [hvalue, get_stamped, if_neg hk]
      rw [← hread, hkept k hk]
  · rintro ⟨hfits, hkept⟩
    let q : CarrierPayload := ⟨_, (jsonForm_isJson hj).1, hshape hkept⟩
    have hparse := (parse_enclose_iff hj hrecord hfits inner q).mpr rfl
    refine ⟨_, hrun.trans (stamp_of_fits hpart hfits inner), Or.inr ⟨rfl, q, hparse, ?_, ?_⟩, ?_⟩
    · intro k hk
      rw [get_stamped, if_neg hk, hkept k hk]
    · intro hpresent
      rw [hopen] at hpresent
      cases hpresent
    · obtain ⟨error, herror⟩ | hstamp := hagain q _ rfl hparse
      · exact ⟨_, herror, rfl⟩
      · have hsame := payloadBytes_restamp (k := c.field) p.json hpart
        have hfits' : Fits (q.value.setProp c.field part) := by rwa [Fits, hsame]
        refine ⟨_, hstamp.trans (stamp_of_fits hpart hfits' inner), ?_⟩
        exact congrArg (trailer.enclose inner) hsame

/-! ### The ceiling in position -/

lemma prop_of_record {v : Value} (h : isRecord v = true) (k : Str) : v.prop k = .ok (v.get k) := by
  cases v with
  | obj l => rfl
  | _ => simp [isRecord] at h

variable {part : Option CeilingPart} {searched : Option JsonObject} {blockOffset : ℕ}

lemma run_ceiling_closed (h : parseCarrier bytes = .carrier inner p blockOffset)
    (hrecord : isRecord (p.value.get (js "ceiling")) = true)
    (hstatus : (p.value.get (js "ceiling")).get (js "status") = .str (js "present")
      ∨ (p.value.get (js "ceiling")).get (js "status") = .str (js "none")) :
    ∃ error, (Completion.ceiling part searched).run toLowerCase bytes
      = .ok (unchanged bytes error) := by
  rw [Completion.run, completeCarrier, onCarrier_carrier h]
  dsimp only
  rw [prop_of_record hrecord, ok_bind]
  rcases hstatus with hs | hs
  · rw [hs, if_neg (by decide), if_pos rfl]
    cases part with
    | none => exact ⟨_, rfl⟩
    | some c => exact ⟨_, rfl⟩
  · rw [hs, if_pos rfl]
    exact ⟨_, rfl⟩

lemma run_ceiling_open (h : parseCarrier bytes = .carrier inner p blockOffset)
    (hrecord : isRecord (p.value.get (js "ceiling")) = true)
    (hstatus : (p.value.get (js "ceiling")).get (js "status") = .str (js "unfetched")) :
    (Completion.ceiling part searched).run toLowerCase bytes
      = match (Completion.ceiling part searched).offer with
        | none => .ok (unchanged bytes none)
        | some v => stamp inner p.value (js "ceiling") v := by
  rw [Completion.run, completeCarrier, onCarrier_carrier h]
  dsimp only
  rw [prop_of_record hrecord, ok_bind, hstatus, if_neg (by decide), if_neg (by decide)]
  cases part with
  | none => cases searched <;> rfl
  | some c => cases searched <;> rfl

/-- What is written is a ceiling. -/
lemma ceiling_offer_shape {v : Value} (h : (Completion.ceiling part searched).offer = some v) :
    isRecord v.jsonForm = true ∧ (v.jsonForm.get (js "status") = .str (js "present")
        ∨ v.jsonForm.get (js "status") = .str (js "unfetched"))
      ∧ (v.jsonForm.get (js "status") ≠ .str (js "unfetched") → Pass (ceilingChecks v.jsonForm)) := by
  rcases part with _ | c
  · rcases searched with _ | s
    · cases h
    · obtain rfl := Option.some.inj h
      have hs : (unfetched (some s)).jsonForm.get (js "status") = .str (js "unfetched") := by
        rw [Value.get_jsonForm]
        rfl
      exact ⟨rfl, Or.inr hs, fun hne => absurd hs hne⟩
  · obtain rfl : present [(js "basis", .str (js "counter-order")), (js "anchor", c.anchor),
        (js "witness", c.witness)] = v := by
      cases searched <;> exact Option.some.inj h
    refine ⟨rfl, Or.inl ?_, fun _ => pass_ceilingChecks_jsonForm c.number_finite ?_⟩
    · rw [Value.get_jsonForm]
      rfl
    · simp only [ceilingChecks, pass_cons, pass_nil, and_true]
      exact ⟨rfl, rfl, c.anchor_record, c.witness_shape⟩

/-- The ceiling of versions 1 to 4 stands open, is present or is ruled out. -/
lemma BlockShape.ceiling_status {o : Value} (h : BlockShape o) :
    (o.get (js "ceiling")).get (js "status") = .str (js "unfetched")
        ∧ baseFloor (o.get (js "carrier")) (o.get (js "floor")) = false
      ∨ (o.get (js "ceiling")).get (js "status") = .str (js "present")
      ∨ (o.get (js "ceiling")).get (js "status") = .str (js "none") := by
  cases hb : baseFloor (o.get (js "carrier")) (o.get (js "floor")) with
  | true =>
      have hpass := h.base hb
      simp only [baseFloorChecks, pass_cons, Bool.and_eq_true, beq_iff_eq] at hpass
      exact Or.inr (Or.inr hpass.2.2.2.1.1)
  | false =>
      by_cases hs : (o.get (js "ceiling")).get (js "status") = .str (js "unfetched")
      · exact Or.inl ⟨hs, rfl⟩
      · have hpass := h.bound hb hs
        simp only [ceilingChecks, pass_cons, beq_iff_eq] at hpass
        exact Or.inr (Or.inl hpass.1)

lemma safe_of_closed {payload : Value} (hsupported : isAtomic (payload.get (js "carrier")) = true →
      c.field = js "ceilingInTime") (hreference : c.reference = none ∨ ¬ c.Has payload
      ∨ isPresent (payload.get c.field) = false)
    (hclosed : c.offer = none ∨ ¬ c.Open payload) : c.Safe payload := by
  refine ⟨hsupported, fun evidence key b hb hhas hpresent => ?_, fun v hv hopen => ?_⟩
  · rcases hreference with h | h | h
    · rw [h] at hb
      cases hb
    · exact absurd hhas h
    · rw [h] at hpresent
      cases hpresent
  · rcases hclosed with h | h
    · rw [h] at hv
      cases hv
    · exact absurd hopen h

lemma safe_iff_of_open {payload v : Value} (hsupported : isAtomic (payload.get (js "carrier")) = true →
      c.field = js "ceilingInTime") (hoffer : c.offer = some v) (hopen : c.Open payload) :
    c.Safe payload ↔ Fits (payload.setProp c.field v)
      ∧ ∀ k ≠ c.field, (payload.get k).jsonForm = payload.get k := by
  refine ⟨fun hsafe => hsafe.kept v hoffer hopen, fun hkept => ⟨hsupported, ?_, ?_⟩⟩
  · intro evidence key b _ _ hpresent
    rw [isPresent, beq_iff_eq] at hpresent
    exact absurd hpresent hopen.2.1
  · intro v' hv' _
    rw [hoffer, Option.some.injEq] at hv'
    rw [← hv']
    exact hkept

/-- A payload of versions 1 to 4 whose other fields JSON keeps passes the check again when the
written field does. -/
lemma shape_stamped {k : Str} {v : Value} (ha : isAtomic (p.value.get (js "carrier")) = false)
    (hk : k ≠ js "carrier") (hkept : ∀ j ≠ k, (p.value.get j).jsonForm = p.value.get j)
    (h : (∀ j ≠ k, (p.value.setProp k v).jsonForm.get j = p.value.get j) →
      (p.value.setProp k v).jsonForm.get k = v.jsonForm →
        BlockShape (p.value.setProp k v).jsonForm) :
    payloadShapeError (p.value.setProp k v).jsonForm = none := by
  have hget : ∀ j ≠ k, (p.value.setProp k v).jsonForm.get j = p.value.get j := by
    intro j hj
    rw [get_stamped, if_neg hj, hkept j hj]
  rw [payloadShapeError_eq_none, isRecord_jsonForm, hget _ hk.symm]
  exact ⟨isRecord_setProp (isRecord_of_shape p.shape) k v,
    Or.inr ⟨ha, h hget (by rw [get_stamped, if_pos rfl])⟩⟩

lemma ceiling_iff (h : parseCarrier bytes = .carrier inner p blockOffset) :
    (Completion.ceiling part searched).Conservative toLowerCase bytes inner p.value
      ↔ (Completion.ceiling part searched).Safe p.value := by
  obtain ⟨-, ⟨ha, hshape⟩ | ⟨ha, hshape⟩⟩ := payloadShapeError_eq_none.mp p.shape
  · -- the payload has no ceiling: reading its status throws
    have hnone := hshape.get_eq_undefined ha (show js "ceiling" ∉ _ by decide)
    refine iff_of_false (not_conservative_of_error (e := typeError
      (js "Cannot read properties of undefined (reading 'status')")) ?_) fun hsafe => ?_
    · rw [Completion.run, completeCarrier, onCarrier_carrier h]
      dsimp only
      rw [hnone]
      rfl
    · have hfield : js "ceiling" = js "ceilingInTime" := hsafe.supported ha
      exact absurd hfield (by decide)
  · have hsupported : isAtomic (p.value.get (js "carrier")) = true →
        (Completion.ceiling part searched).field = js "ceilingInTime" := by
      rw [ha]
      exact fun h0 => absurd h0 (by decide)
    obtain ⟨hstatus, hbase⟩ | hstatus := hshape.ceiling_status
    · have hopen : (Completion.ceiling part searched).Open p.value := by
        refine ⟨Or.inl rfl, ?_, ?_⟩ <;> rw [Completion.field, hstatus] <;> decide
      have hpresent : isPresent (p.value.get (js "ceiling")) = false := by
        rw [isPresent, hstatus]
        decide
      have hrun : (Completion.ceiling part searched).run toLowerCase bytes = _ :=
        run_ceiling_open h hshape.ceiling hstatus
      cases hoffer : (Completion.ceiling part searched).offer with
      | none =>
          rw [hoffer] at hrun
          exact iff_of_true (conservative_of_unchanged hrun)
            (safe_of_closed hsupported (Or.inl rfl) (Or.inl hoffer))
      | some v =>
          rw [hoffer] at hrun
          obtain ⟨hrecord, hwritten, hpass⟩ := ceiling_offer_shape hoffer
          refine (conservative_stamp_iff hrun (Completion.isJson_offer hoffer) hpresent ?_ ?_).trans
            (safe_iff_of_open hsupported hoffer hopen).symm
          · intro hkept
            change payloadShapeError (p.value.setProp (js "ceiling") v).jsonForm = none
            refine shape_stamped ha (by decide) hkept fun hget hfield => ?_
            exact hshape.ceiling_written hget hbase (by rw [hfield, hrecord]) (by rwa [hfield])
          · intro q b hq hparse
            have hfield : q.value.get (js "ceiling") = v.jsonForm := by
              rw [hq]
              exact (get_stamped p _ v _).trans (if_pos rfl)
            rcases hwritten with hs | hs
            · exact Or.inl (run_ceiling_closed hparse (by rw [hfield, hrecord])
                (Or.inl (by rw [hfield, hs])))
            · refine Or.inr ?_
              rw [run_ceiling_open hparse (by rw [hfield, hrecord]) (by rw [hfield, hs]), hoffer]
              rfl
    · have hclosed : ¬ (Completion.ceiling part searched).Open p.value := by
        rintro ⟨-, h1, h2⟩
        exact hstatus.elim h1 h2
      obtain ⟨error, hrun⟩ := run_ceiling_closed h hshape.ceiling hstatus
      exact iff_of_true (conservative_of_unchanged hrun)
        (safe_of_closed hsupported (Or.inl rfl) (Or.inr hclosed))

/-! ### Parts with a reference -/

lemma carrierVersionOf_eq_one {v : Value} (h : payloadShapeError v = none) :
    carrierVersionOf v = 1 ↔ v.get (js "carrier") = .str carrierVersion := by
  rw [carrierVersionOf]
  obtain ⟨-, ⟨ha, -⟩ | ⟨-, hshape⟩⟩ := payloadShapeError_eq_none.mp h
  · rw [isAtomic, Bool.or_eq_true, beq_iff_eq, beq_iff_eq] at ha
    rcases ha with hv | hv <;> rw [hv] <;> decide
  · have hversion := hshape.version
    rw [isV2, isV3, isV4, Bool.or_eq_true, Bool.or_eq_true, beq_iff_eq, beq_iff_eq, beq_iff_eq]
      at hversion
    rcases hversion with hv | (hv | hv) | hv <;> rw [hv] <;> decide

/-- The text of a block hash is there when the hash converts. -/
lemma blockHashText_ok_iff {a : Value} :
    (∃ x, blockHashText toLowerCase a = .ok x) ↔ (a.get (js "blockHash")).toText ≠ none := by
  have htext : (if a.get (js "blockHash") = .undefined ∨ a.get (js "blockHash") = .null then
      .str [] else a.get (js "blockHash")).toText = none ↔ (a.get (js "blockHash")).toText = none := by
    split
    · next h => rcases h with h | h <;> rw [h] <;> simp [Value.toText]
    · rfl
  rw [blockHashText, Ne, ← htext]
  split
  · next ht => simp [ht]
  · next ht => simp [ht]

/-- References are compared unless a block hash does not convert. -/
lemma sameReference_ok_iff {a b : Value} (hb : isRecord b = true)
    (hash : ∃ s, b.get (js "blockHash") = .str s) :
    (∃ x, sameReference toLowerCase a b = .ok x)
      ↔ (isRecord a = true → Value.strictEq (a.get (js "txHash")) (b.get (js "txHash")) = true →
          (a.get (js "blockHash")).toText ≠ none) := by
  rw [sameReference]
  obtain ⟨s, hs⟩ := hash
  have hy : blockHashText toLowerCase b = .ok (toLowerCase s) := by
    rw [blockHashText, hs]
    rfl
  by_cases hcond : (isRecord a && isRecord b
      && Value.strictEq (a.get (js "txHash")) (b.get (js "txHash"))) = true
  · rw [if_pos hcond, hy]
    simp only [Bool.and_eq_true] at hcond
    rw [← @blockHashText_ok_iff toLowerCase]
    constructor
    · rintro ⟨x, hx⟩ _ _
      cases hread : blockHashText toLowerCase a with
      | ok t => exact ⟨t, rfl⟩
      | error e => rw [hread] at hx; cases hx
    · intro hread
      obtain ⟨t, ht⟩ := hread hcond.1.1 hcond.2
      exact ⟨_, by rw [ht, ok_bind, ok_bind]; rfl⟩
  · rw [if_neg hcond]
    refine iff_of_true ⟨_, rfl⟩ fun ha htx => absurd ?_ hcond
    simp [ha, hb, htx]

/-- A completion that compares a part that is present. -/
lemma conservative_compare_iff {payload a b : Value} {message : Bool → Option Str}
    (hrun : c.run toLowerCase bytes = (do
      let same ← sameReference toLowerCase a b
      return unchanged bytes (message same))) :
    c.Conservative toLowerCase bytes inner payload
      ↔ ∃ x, sameReference toLowerCase a b = .ok x := by
  cases hsame : sameReference toLowerCase a b with
  | ok x =>
      rw [hsame, ok_bind] at hrun
      exact iff_of_true (conservative_of_unchanged hrun) ⟨x, rfl⟩
  | error e =>
      rw [hsame, error_bind] at hrun
      exact iff_of_false (not_conservative_of_error hrun) (by simp)

/-- A part that is present leaves a completion nothing to write. -/
lemma safe_iff_of_present {payload : Value} {evidence key : Str} {b : Value}
    (hsupported : isAtomic (payload.get (js "carrier")) = true → c.field = js "ceilingInTime")
    (hreference : c.reference = some (evidence, key, b)) (hhas : c.Has payload)
    (hpresent : isPresent (payload.get c.field) = true) :
    c.Safe payload ↔ (isRecord (((payload.get c.field).get evidence).get key) = true →
      Value.strictEq ((((payload.get c.field).get evidence).get key).get (js "txHash"))
        (b.get (js "txHash")) = true →
      ((((payload.get c.field).get evidence).get key).get (js "blockHash")).toText ≠ none) := by
  refine ⟨fun hsafe => hsafe.readable _ _ _ hreference hhas hpresent,
    fun hread => ⟨hsupported, ?_, ?_⟩⟩
  · intro evidence' key' b' hb' _ _
    rw [hreference, Option.some.injEq, Prod.mk.injEq, Prod.mk.injEq] at hb'
    obtain ⟨rfl, rfl, rfl⟩ := hb'
    exact hread
  · rintro v - ⟨-, hnot, -⟩
    rw [isPresent, beq_iff_eq] at hpresent
    exact absurd hpresent hnot

/-- A reference that was stamped is read back as the one offered. -/
lemma sameReference_stamped {version key : Str} (e : Evidence version key) :
    ∃ x, sameReference toLowerCase (e.value.jsonForm.get key) (e.value.get key) = .ok x := by
  refine (sameReference_ok_iff e.reference_record e.blockHash).mpr fun _ _ => ?_
  obtain ⟨s, hs⟩ := e.blockHash
  rw [Value.get_jsonForm, Value.get_jsonForm, hs]
  simp [Value.jsonForm, Value.toText]

/-- Evidence that was stamped is a part that is present. -/
lemma present_evidence {version key evidence : Str} (e : Evidence version key)
    (hne : evidence ≠ js "status") :
    let part := (present [(evidence, e.value)]).jsonForm
    isPresent part = true ∧ part.get evidence = e.value.jsonForm
      ∧ PartShape part evidence version := by
  have hstatus : (present [(evidence, e.value)]).get (js "status") = .str (js "present") := by
    rw [present, Value.get, Fields.find?_cons, if_pos rfl]
    rfl
  have hvalue : (present [(evidence, e.value)]).get evidence = e.value := by
    rw [present, Value.get, Fields.find?_cons, if_neg hne, Fields.find?_cons, if_pos rfl]
    rfl
  intro part
  have hs : part.get (js "status") = .str (js "present") := by
    rw [Value.get_jsonForm, hstatus]
    rfl
  have hv : part.get evidence = e.value.jsonForm := by
    rw [Value.get_jsonForm, hvalue]
  refine ⟨by rw [isPresent, hs, beq_self_eq_true], hv, rfl, Or.inl ⟨hs, ?_, ?_⟩⟩
  · rw [hv, isRecord_jsonForm, e.record]
  · rw [hv, Value.get_jsonForm, e.version_eq]
    rfl

/-! ### The ceiling in time -/

variable {sidecar : Option Sidecar}

lemma run_inTime_present (h : parseCarrier bytes = .carrier inner p blockOffset)
    (hv : p.value.get (js "carrier") ≠ .str carrierVersion)
    (hpresent : isPresent (p.value.get (js "ceilingInTime")) = true) :
    (Completion.inTime sidecar searched).run toLowerCase bytes = match sidecar with
      | none => .ok (unchanged bytes none)
      | some s => do
          let same ← sameReference toLowerCase
            (((p.value.get (js "ceilingInTime")).get (js "sidecar")).get (js "anchor"))
            (s.value.get (js "anchor"))
          return unchanged bytes (if same then none else some (js
            "carrier already holds a different ceiling in time; refusing to overwrite it")) := by
  rw [Completion.run, completeCarrierInTime, onCarrier_carrier h]
  dsimp only
  rw [if_neg (mt (carrierVersionOf_eq_one p.shape).mp hv), if_pos hpresent]

lemma run_inTime_open (h : parseCarrier bytes = .carrier inner p blockOffset)
    (hv : p.value.get (js "carrier") ≠ .str carrierVersion)
    (hopen : isPresent (p.value.get (js "ceilingInTime")) = false) :
    (Completion.inTime sidecar searched).run toLowerCase bytes
      = match (Completion.inTime sidecar searched).offer with
        | none => .ok (unchanged bytes none)
        | some v => stamp inner p.value (js "ceilingInTime") v := by
  rw [Completion.run, completeCarrierInTime, onCarrier_carrier h]
  dsimp only
  rw [if_neg (mt (carrierVersionOf_eq_one p.shape).mp hv), hopen]
  cases sidecar with
  | none => cases searched <;> rfl
  | some s => cases searched <;> rfl

/-- What is written is a ceiling in time. -/
lemma inTime_offer_shape {v : Value} (h : (Completion.inTime sidecar searched).offer = some v) :
    PartShape v.jsonForm (js "sidecar") ceilingSidecarVersion
      ∧ (isPresent v.jsonForm = true → ∃ s : Sidecar, sidecar = some s
          ∧ v.jsonForm.get (js "sidecar") = s.value.jsonForm) := by
  rcases sidecar with _ | e
  · rcases searched with _ | s
    · cases h
    · obtain rfl := Option.some.inj h
      have hs : (unfetched (some s)).jsonForm.get (js "status") = .str (js "unfetched") := by
        rw [Value.get_jsonForm]
        rfl
      refine ⟨⟨rfl, Or.inr hs⟩, fun hpresent => ?_⟩
      rw [isPresent, hs] at hpresent
      exact absurd hpresent (by decide)
  · obtain rfl : present [(js "sidecar", e.value)] = v := by
      cases searched <;> exact Option.some.inj h
    obtain ⟨-, hvalue, hshape⟩ := present_evidence e (show js "sidecar" ≠ js "status" by decide)
    exact ⟨hshape, fun _ => ⟨e, rfl, hvalue⟩⟩

/-- From version 2 on a ceiling in time that is not present is unfetched. -/
lemma inTime_unfetched (hv : p.value.get (js "carrier") ≠ .str carrierVersion)
    (hpresent : isPresent (p.value.get (js "ceilingInTime")) = false) :
    (p.value.get (js "ceilingInTime")).get (js "status") = .str (js "unfetched") := by
  rw [isPresent, beq_eq_false_iff_ne] at hpresent
  obtain ⟨-, ⟨-, hshape⟩ | ⟨-, hshape⟩⟩ := payloadShapeError_eq_none.mp p.shape
  · exact hshape.ceilingInTime.2.resolve_right fun h => hpresent h.1
  · have hpart := (hshape.later (hshape.version.resolve_left hv)).inTime
    exact hpart.stated.resolve_left fun h => hpresent h.1

/-- The check of a payload with another ceiling in time. -/
lemma shape_inTime {v : Value} (hv : p.value.get (js "carrier") ≠ .str carrierVersion)
    (hpart : PartShape v.jsonForm (js "sidecar") ceilingSidecarVersion)
    (hkept : ∀ j ≠ js "ceilingInTime", (p.value.get j).jsonForm = p.value.get j) :
    payloadShapeError (p.value.setProp (js "ceilingInTime") v).jsonForm = none := by
  obtain ⟨hrecord, ⟨ha, hshape⟩ | ⟨ha, hshape⟩⟩ := payloadShapeError_eq_none.mp p.shape
  · have hget : ∀ j ≠ js "ceilingInTime",
        (p.value.setProp (js "ceilingInTime") v).jsonForm.get j = p.value.get j := by
      intro j hj
      rw [get_stamped, if_neg hj, hkept j hj]
    have hfield : (p.value.setProp (js "ceilingInTime") v).jsonForm.get (js "ceilingInTime")
        = v.jsonForm := by
      rw [get_stamped, if_pos rfl]
    have hkeys : (p.value.setProp (js "ceilingInTime") v).jsonForm.sortedKeys
        = p.value.sortedKeys := by
      have hmem : js "ceilingInTime" ∈ p.value.keys := Value.mem_keys_of_get fun h0 => by
        have hpart := hshape.ceilingInTime.1
        rw [h0] at hpart
        exact absurd hpart (by decide)
      rw [sortedKeys_jsonForm]
      cases hp : p.value with
      | obj l =>
          rw [hp, Value.keys] at hmem
          rw [Value.sortedKeys, Value.sortedKeys, Value.setProp, Value.keys, Value.keys,
            Fields.map_fst_setProp hmem]
      | _ => rw [hp] at hrecord; cases hrecord
    have hcarrier := hget (js "carrier") (by decide)
    rw [payloadShapeError_eq_none, isRecord_jsonForm, hcarrier]
    refine ⟨isRecord_setProp hrecord _ v, Or.inl ⟨ha, ?_, ?_, ?_, ?_⟩⟩
    · rw [hkeys, hcarrier]
      exact hshape.keys
    · rw [hcarrier, hget (js "floorInTime") (by decide)]
      exact hshape.floorInTime
    · rw [hget (js "proof") (by decide)]
      exact hshape.proof
    · rw [hfield]
      exact ⟨hpart.record, hpart.stated.symm.imp_right fun h => ⟨h.1, h.2.1⟩⟩
  · refine shape_stamped ha (by decide) hkept fun hget hfield => ?_
    refine hshape.later_written (Or.inl rfl) hget fun hlater => ?_
    exact hlater.inTime_written hget (by rwa [hfield])

lemma run_inTime_v1 (h : parseCarrier bytes = .carrier inner p blockOffset)
    (hv : p.value.get (js "carrier") = .str carrierVersion) :
    ∃ error, (Completion.inTime sidecar searched).run toLowerCase bytes
      = .ok (unchanged bytes error) := by
  rw [Completion.run, completeCarrierInTime, onCarrier_carrier h]
  dsimp only
  rw [if_pos ((carrierVersionOf_eq_one p.shape).mpr hv)]
  exact ⟨_, rfl⟩

/-- The version of a payload that was stamped elsewhere. -/
lemma carrier_stamped {q : CarrierPayload} {k : Str} {v : Value}
    (hq : q.value = (p.value.setProp k v).jsonForm) (hk : k ≠ js "carrier") {s : Str} :
    q.value.get (js "carrier") = .str s ↔ p.value.get (js "carrier") = .str s := by
  rw [hq, get_stamped, if_neg hk.symm, Value.jsonForm_eq_str]

lemma inTime_iff (h : parseCarrier bytes = .carrier inner p blockOffset) :
    (Completion.inTime sidecar searched).Conservative toLowerCase bytes inner p.value
      ↔ (Completion.inTime sidecar searched).Safe p.value := by
  by_cases hv : p.value.get (js "carrier") = .str carrierVersion
  · have hhas : ¬ (Completion.inTime sidecar searched).Has p.value := by
      rintro (hfield | hne)
      · have hfield : js "ceilingInTime" = js "ceiling" := hfield
        exact absurd hfield (by decide)
      · exact hne hv
    obtain ⟨error, hrun⟩ := run_inTime_v1 h hv
    exact iff_of_true (conservative_of_unchanged hrun)
      (safe_of_closed (fun _ => rfl) (Or.inr (Or.inl hhas)) (Or.inr fun hopen => hhas hopen.1))
  · have hhas : (Completion.inTime sidecar searched).Has p.value := Or.inr hv
    cases hpresent : isPresent (p.value.get (js "ceilingInTime")) with
    | true =>
        have hrun : (Completion.inTime sidecar searched).run toLowerCase bytes = _ :=
          run_inTime_present h hv hpresent
        have hclosed : ¬ (Completion.inTime sidecar searched).Open p.value := by
          rintro ⟨-, hnot, -⟩
          rw [isPresent, beq_iff_eq] at hpresent
          exact hnot hpresent
        cases sidecar with
        | none =>
            exact iff_of_true (conservative_of_unchanged hrun)
              (safe_of_closed (fun _ => rfl) (Or.inl rfl) (Or.inr hclosed))
        | some s =>
            exact (conservative_compare_iff hrun).trans
              ((sameReference_ok_iff s.reference_record s.blockHash).trans
                (safe_iff_of_present (fun _ => rfl) rfl hhas hpresent).symm)
    | false =>
        have hrun : (Completion.inTime sidecar searched).run toLowerCase bytes = _ :=
          run_inTime_open h hv hpresent
        cases hoffer : (Completion.inTime sidecar searched).offer with
        | none =>
            rw [hoffer] at hrun
            exact iff_of_true (conservative_of_unchanged hrun)
              (safe_of_closed (fun _ => rfl) (Or.inr (Or.inr hpresent)) (Or.inl hoffer))
        | some v =>
            rw [hoffer] at hrun
            obtain ⟨hshape, hevidence⟩ := inTime_offer_shape hoffer
            have hopen : (Completion.inTime sidecar searched).Open p.value := by
              refine ⟨hhas, ?_, ?_⟩ <;>
                rw [Completion.field, inTime_unfetched hv hpresent] <;> decide
            refine (conservative_stamp_iff hrun (Completion.isJson_offer hoffer) hpresent
              (shape_inTime hv hshape) ?_).trans (safe_iff_of_open (fun _ => rfl) hoffer hopen).symm
            intro q b hq hparse
            have hvq := mt (carrier_stamped hq (show js "ceilingInTime" ≠ _ by decide)).mp hv
            have hfield : q.value.get (js "ceilingInTime") = v.jsonForm := by
              rw [hq]
              exact (get_stamped p _ v _).trans (if_pos rfl)
            cases hpresent' : isPresent (q.value.get (js "ceilingInTime")) with
            | true =>
                rw [hfield] at hpresent'
                obtain ⟨s, rfl, hs⟩ := hevidence hpresent'
                obtain ⟨x, hx⟩ := @sameReference_stamped toLowerCase _ _ s
                left
                rw [run_inTime_present hparse hvq (by rwa [hfield])]
                simp only [hfield, hs, hx, ok_bind]
                exact ⟨_, rfl⟩
            | false =>
                right
                rw [run_inTime_open hparse hvq hpresent', hoffer]
                rfl

/-! ### The settlement -/

variable {pointer : Pointer}

lemma run_settlement_v1 (h : parseCarrier bytes = .carrier inner p blockOffset)
    (hv : p.value.get (js "carrier") = .str carrierVersion) :
    ∃ error, (Completion.settlement pointer).run toLowerCase bytes
      = .ok (unchanged bytes error) := by
  rw [Completion.run, completeCarrierSettlement, onCarrier_carrier h]
  dsimp only
  rw [if_pos ((carrierVersionOf_eq_one p.shape).mpr hv)]
  exact ⟨_, rfl⟩

lemma run_settlement_present (h : parseCarrier bytes = .carrier inner p blockOffset)
    (hv : p.value.get (js "carrier") ≠ .str carrierVersion)
    (hpresent : isPresent (p.value.get (js "settlement")) = true) :
    (Completion.settlement pointer).run toLowerCase bytes = (do
      let same ← sameReference toLowerCase
        (((p.value.get (js "settlement")).get (js "pointer")).get (js "l1"))
        (pointer.value.get (js "l1"))
      return unchanged bytes (if same then none else some (js
        "carrier already holds a different settlement; refusing to overwrite it"))) := by
  rw [Completion.run, completeCarrierSettlement, onCarrier_carrier h]
  dsimp only
  rw [if_neg (mt (carrierVersionOf_eq_one p.shape).mp hv), if_pos hpresent]

lemma run_settlement_open (h : parseCarrier bytes = .carrier inner p blockOffset)
    (hv : p.value.get (js "carrier") ≠ .str carrierVersion)
    (hopen : isPresent (p.value.get (js "settlement")) = false) :
    (Completion.settlement pointer).run toLowerCase bytes
      = stamp inner p.value (js "settlement") (present [(js "pointer", pointer.value)]) := by
  rw [Completion.run, completeCarrierSettlement, onCarrier_carrier h]
  dsimp only
  rw [if_neg (mt (carrierVersionOf_eq_one p.shape).mp hv), hopen]
  rfl

/-- Versions 5 and 6 cannot hold a settlement: what is written for one is no carrier. -/
lemma atomic_settlement (h : parseCarrier bytes = .carrier inner p blockOffset)
    (ha : isAtomic (p.value.get (js "carrier")) = true) (hshape : AtomicShape p.value) :
    ¬ (Completion.settlement pointer).Conservative toLowerCase bytes inner p.value := by
  have hv : p.value.get (js "carrier") ≠ .str carrierVersion := by
    intro hv
    rw [hv] at ha
    exact absurd ha (by decide)
  have hnone := hshape.get_eq_undefined ha (show js "settlement" ∉ _ by decide)
  have hpart : (present [(js "pointer", pointer.value)]).isJson = true :=
    Completion.isJson_offer (c := .settlement pointer) rfl
  rintro ⟨r, hr, hresult, -⟩
  rw [run_settlement_open h hv (by rw [hnone]; decide)] at hr
  by_cases hfits : Fits (p.value.setProp (js "settlement") (present [(js "pointer", pointer.value)]))
  · rw [stamp_of_fits hpart hfits, Except.ok.injEq] at hr
    subst hr
    obtain ⟨hchanged, -⟩ | ⟨-, q, hq, hkept, -⟩ := hresult
    · cases hchanged
    · have hrecord := isRecord_setProp (isRecord_of_shape p.shape) (js "settlement")
        (present [(js "pointer", pointer.value)])
      have hvalue := (parse_enclose_iff (Value.isJson_setProp _ p.json hpart) hrecord hfits inner
        q).mp hq
      have hcarrier : q.value.get (js "carrier") = p.value.get (js "carrier") :=
        hkept _ (show js "carrier" ≠ js "settlement" by decide)
      have hsettled : q.value.get (js "settlement")
          = (present [(js "pointer", pointer.value)]).jsonForm := by
        rw [hvalue, get_stamped, if_pos rfl]
      obtain ⟨-, ⟨ha', hshape'⟩ | ⟨ha', -⟩⟩ := payloadShapeError_eq_none.mp q.shape
      · have hnone' := hshape'.get_eq_undefined ha' (show js "settlement" ∉ _ by decide)
        rw [hsettled] at hnone'
        cases hnone'
      · rw [hcarrier, ha] at ha'
        cases ha'
  · obtain ⟨e, he⟩ := stamp_of_not_fits hpart hfits inner
    rw [he] at hr
    cases hr

lemma settlement_iff (h : parseCarrier bytes = .carrier inner p blockOffset) :
    (Completion.settlement pointer).Conservative toLowerCase bytes inner p.value
      ↔ (Completion.settlement pointer).Safe p.value := by
  obtain ⟨-, ⟨ha, hshape⟩ | ⟨ha, hshape⟩⟩ := payloadShapeError_eq_none.mp p.shape
  · refine iff_of_false (atomic_settlement h ha hshape) fun hsafe => ?_
    have hfield : js "settlement" = js "ceilingInTime" := hsafe.supported ha
    exact absurd hfield (by decide)
  · have hsupported : isAtomic (p.value.get (js "carrier")) = true →
        (Completion.settlement pointer).field = js "ceilingInTime" := by
      rw [ha]
      exact fun h0 => absurd h0 (by decide)
    by_cases hv : p.value.get (js "carrier") = .str carrierVersion
    · have hhas : ¬ (Completion.settlement pointer).Has p.value := by
        rintro (hfield | hne)
        · have hfield : js "settlement" = js "ceiling" := hfield
          exact absurd hfield (by decide)
        · exact hne hv
      obtain ⟨error, hrun⟩ := run_settlement_v1 h hv
      exact iff_of_true (conservative_of_unchanged hrun)
        (safe_of_closed hsupported (Or.inr (Or.inl hhas)) (Or.inr fun hopen => hhas hopen.1))
    · have hhas : (Completion.settlement pointer).Has p.value := Or.inr hv
      cases hpresent : isPresent (p.value.get (js "settlement")) with
      | true =>
          exact (conservative_compare_iff (run_settlement_present h hv hpresent)).trans
            ((sameReference_ok_iff pointer.reference_record pointer.blockHash).trans
              (safe_iff_of_present hsupported rfl hhas hpresent).symm)
      | false =>
          have hlater := hshape.later (hshape.version.resolve_left hv)
          have hopen : (Completion.settlement pointer).Open p.value := by
            rw [isPresent, beq_eq_false_iff_ne] at hpresent
            refine ⟨hhas, hpresent, fun hnone => ?_⟩
            have hpart := hlater.settlement (by
              intro hundef
              have hnone : (p.value.get (js "settlement")).get (js "status") = _ := hnone
              rw [hundef] at hnone
              cases hnone)
            have hnone : (p.value.get (js "settlement")).get (js "status") = _ := hnone
            rcases hpart.stated with hs | hs
            · exact hpresent hs.1
            · rw [hnone] at hs
              exact absurd hs (by decide)
          obtain ⟨hpresent', hvalue, hpart⟩ :=
            present_evidence pointer (show js "pointer" ≠ js "status" by decide)
          refine (conservative_stamp_iff (run_settlement_open h hv hpresent)
            (Completion.isJson_offer (c := .settlement pointer) rfl) hpresent ?_ ?_).trans
            (safe_iff_of_open hsupported rfl hopen).symm
          · intro hkept
            change payloadShapeError (p.value.setProp (js "settlement") _).jsonForm = none
            refine shape_stamped ha (by decide) hkept fun hget hfield => ?_
            refine hshape.later_written (Or.inr rfl) hget fun hlater => ?_
            exact hlater.settlement_written hget (by rw [hfield]; exact hpart)
          · intro q b hq hparse
            have hvq := mt (carrier_stamped hq (show js "settlement" ≠ _ by decide)).mp hv
            have hfield : q.value.get (js "settlement")
                = (present [(js "pointer", pointer.value)]).jsonForm := by
              rw [hq]
              exact (get_stamped p _ _ _).trans (if_pos rfl)
            obtain ⟨x, hx⟩ := @sameReference_stamped toLowerCase _ _ pointer
            left
            rw [run_settlement_present hparse hvq (by rw [hfield]; exact hpresent')]
            simp only [hfield, hvalue, hx, ok_bind]
            exact ⟨_, rfl⟩

end Conservative

/-- **A completion is conservative on exactly the carriers it is fit for.** -/
theorem conservative_iff (toLowerCase : Str → Str) (c : Completion) (bytes inner : Bytes)
    (p : CarrierPayload) (blockOffset : ℕ)
    (h : parseCarrier bytes = .carrier inner p blockOffset) :
    c.Conservative toLowerCase bytes inner p.value ↔ c.Safe p.value := by
  cases c with
  | ceiling part searched => exact ceiling_iff h
  | inTime sidecar searched => exact inTime_iff h
  | settlement pointer => exact settlement_iff h

/-- A carrier of version 5 with no bytes before its block. -/
def atomicCarrier : Bytes := trailer.enclose [] (payloadBytes atomicPayload)

lemma parse_atomicCarrier :
    parseCarrier atomicCarrier = .carrier [] writable_atomicPayload.read 0 :=
  (parse_enclose_iff writable_atomicPayload.json (isRecord_of_shape writable_atomicPayload.shape)
    writable_atomicPayload.fits [] _).mpr
    (jsonForm_of_allFinite writable_atomicPayload.json writable_atomicPayload.finite).symm

theorem conservative_iff_atomic :
    (Completion.inTime none none).Conservative id atomicCarrier []
        writable_atomicPayload.read.value
      ↔ (Completion.inTime none none).Safe writable_atomicPayload.read.value :=
  conservative_iff id (.inTime none none) atomicCarrier [] writable_atomicPayload.read 0
    parse_atomicCarrier

/-- A carrier of version 5 has no ceiling in position, and asking for one throws. -/
theorem atomic_ceiling_throws : ¬ ∀ (toLowerCase : Str → Str) (c : Completion)
    (bytes inner : Bytes) (p : CarrierPayload) (blockOffset : ℕ),
    parseCarrier bytes = .carrier inner p blockOffset →
      c.Conservative toLowerCase bytes inner p.value := by
  intro h
  have hsafe := (ceiling_iff parse_atomicCarrier).mp
    (h id (.ceiling none none) atomicCarrier [] _ 0 parse_atomicCarrier)
  have hatomic : isAtomic (writable_atomicPayload.read.value.get (js "carrier")) = true := by
    decide
  have hfield : js "ceiling" = js "ceilingInTime" := hsafe.supported hatomic
  exact absurd hfield (by decide)

end Carrier

end BitGraph
