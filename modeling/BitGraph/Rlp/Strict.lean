import BitGraph.Rlp

/-!
RLP over the arrays of the program: what is written, and what is read.

* `rlpEncodeArray`: the writer, whose parts are put together in new arrays; one that would be too
  long throws.
* `rlp_strict`: the reader is its inverse, and what is not an encoding is rejected: more bytes or
  fewer, a byte with a length in front, a length that is not the shortest.
-/

namespace BitGraph

open Js Layout

open Sha256 (beNat)

namespace Rlp

/-! ### Arrays -/

/-- The length of the longest array. -/
def maxArrayLength : ℕ := 2 ^ 53 - 1

abbrev Uint8Array := {b : Bytes // b.length ≤ maxArrayLength}

/-- `concat(...parts)`: a new array, which throws past the longest. -/
def concat (parts : List Bytes) : Except Thrown Uint8Array :=
  if h : parts.flatten.length ≤ maxArrayLength then .ok ⟨parts.flatten, h⟩
  else .error (rangeError (js "Invalid typed array length"))

mutual

def rlpEncodeArray : RlpItem → Except Thrown Uint8Array
  | .bytes b => if isSingle b then concat [b] else concat [encodeLength b.length 0x80, b]
  | .list items => do
      let parts ← rlpEncodeArrays items
      let body ← concat (parts.map Subtype.val)
      concat [encodeLength body.val.length 0xc0, body.val]

/-- `items.map(rlpEncode)`. -/
def rlpEncodeArrays : List RlpItem → Except Thrown (List Uint8Array)
  | [] => .ok []
  | item :: items => do
      let part ← rlpEncodeArray item
      let parts ← rlpEncodeArrays items
      return part :: parts

end

/-! ### What is written -/

variable {parts : List Bytes} {a : Uint8Array} {item : RlpItem} {items : List RlpItem}

lemma concat_eq_ok : concat parts = .ok a ↔ parts.flatten = a.val := by
  rw [concat]
  constructor
  · intro h
    split at h
    · rw [← Except.ok.inj h]
    · cases h
  · intro h
    rw [dif_pos (by rw [h]; exact a.property)]
    exact congrArg Except.ok (Subtype.ext h)

mutual

/-- An array is written exactly where the encoding fits in one. -/
lemma rlpEncodeArray_eq_ok : ∀ (item : RlpItem) {a : Uint8Array},
    rlpEncodeArray item = .ok a ↔ rlpEncode item = a.val
  | .bytes b, a => by
      rw [rlpEncodeArray, rlpEncode]
      split <;> simp [concat_eq_ok]
  | .list items, a => by
      rw [rlpEncodeArray, rlpEncode]
      constructor
      · intro h
        obtain ⟨parts, hparts, h⟩ := bind_eq_ok h
        obtain ⟨body, hbody, h⟩ := bind_eq_ok h
        have hall := rlpEncodeArrays_flatten items hparts
        rw [concat_eq_ok, ← hall] at hbody
        rw [concat_eq_ok, ← hbody] at h
        simpa using h
      · intro h
        have hlen : (rlpEncodeAll items).length ≤ maxArrayLength := by
          have hle := a.property
          rw [← h, List.length_append] at hle
          omega
        obtain ⟨parts, hparts⟩ := rlpEncodeArrays_fits items hlen
        have hall := rlpEncodeArrays_flatten items hparts
        have hbody : concat (parts.map Subtype.val) = .ok ⟨rlpEncodeAll items, hlen⟩ :=
          concat_eq_ok.mpr hall.symm
        rw [hparts, ok_bind, hbody, ok_bind, concat_eq_ok]
        simpa using h

lemma rlpEncodeArrays_flatten : ∀ (items : List RlpItem) {parts : List Uint8Array},
    rlpEncodeArrays items = .ok parts → rlpEncodeAll items = (parts.map Subtype.val).flatten
  | [], parts, h => by
      rw [rlpEncodeArrays] at h
      rw [← Except.ok.inj h]
      rfl
  | item :: items, parts, h => by
      rw [rlpEncodeArrays] at h
      obtain ⟨part, hpart, h⟩ := bind_eq_ok h
      obtain ⟨rest, hrest, h⟩ := bind_eq_ok h
      rw [← Except.ok.inj h, rlpEncodeAll, (rlpEncodeArray_eq_ok item).mp hpart,
        rlpEncodeArrays_flatten items hrest]
      rfl

lemma rlpEncodeArrays_fits : ∀ (items : List RlpItem),
    (rlpEncodeAll items).length ≤ maxArrayLength → ∃ parts, rlpEncodeArrays items = .ok parts
  | [], _ => ⟨[], rfl⟩
  | item :: items, h => by
      rw [rlpEncodeAll, List.length_append] at h
      obtain ⟨parts, hparts⟩ := rlpEncodeArrays_fits items (by omega)
      have hpart : rlpEncodeArray item = .ok ⟨rlpEncode item, by omega⟩ :=
        (rlpEncodeArray_eq_ok item).mpr rfl
      exact ⟨_, by rw [rlpEncodeArrays, hpart, ok_bind, hparts, ok_bind]; rfl⟩

end

/-! ### What is read -/

/-- No item is read. -/
def Rejected (bytes : Bytes) : Prop := ∀ item, rlpDecode bytes ≠ .ok item

/-- The encoding of an item in an array is short enough to be read. -/
lemma rlpDecode_array {bytes : Uint8Array} (h : rlpEncode item = bytes.val) :
    rlpDecode bytes.val = .ok item := by
  have hle := bytes.property
  have hlt : maxArrayLength < 256 ^ 8 := by norm_num [maxArrayLength]
  rw [← h] at hle ⊢
  exact rlpDecode_rlpEncode (by omega)

/-- One encoding does not begin another. -/
lemma rejected_append {bytes more : Uint8Array} {rest : Bytes} (hmore : more.val = bytes.val ++ rest)
    (hrest : rest ≠ []) (h : rlpDecode bytes.val = .ok item) : Rejected more.val := by
  intro item' hitem'
  have henc := rlpEncode_of_rlpDecode h
  have hle := bytes.property
  have hlt : maxArrayLength < 256 ^ 8 := by norm_num [maxArrayLength]
  have hread := @decodeAt_rlpEncode more.val item 0 (2 * more.val.length + 1) rest
    (by rw [henc, List.drop_zero, hmore]) (by rw [henc]; omega)
    (by rw [henc, hmore, List.length_append]; omega)
  rw [rlpDecode, hread, ok_bind] at hitem'
  dsimp only at hitem'
  have hpos := List.length_pos_of_ne_nil hrest
  rw [henc, hmore, List.length_append, if_pos (by omega)] at hitem'
  cases hitem'

/-- An encoding that is cut short is none. -/
lemma rejected_take {bytes : Uint8Array} {n : ℕ} (hn : n < bytes.val.length)
    (h : rlpDecode bytes.val = .ok item) : Rejected (bytes.val.take n) := by
  intro item' hitem'
  have hle := bytes.property
  have hcut : (bytes.val.take n).length ≤ maxArrayLength := by
    rw [List.length_take]
    omega
  have hrest : bytes.val.drop n ≠ [] := by
    rw [← List.length_pos_iff_ne_nil, List.length_drop]
    omega
  exact @rejected_append _ ⟨_, hcut⟩ bytes _ (List.take_append_drop n bytes.val).symm hrest hitem' item h

/-- A small byte with a length in front. -/
lemma rejected_prefixed {x : UInt8} (hx : x.toNat < 0x80) : Rejected [0x81, x] := by
  have hsingle : isSingle (field [0x81, x] 1 1) = true := decide_eq_true hx
  have hread : decodeString [0x81, x] 0 129 = .error (fail "single byte should encode as itself") := by
    rw [decodeString, if_pos (by omega)]
    dsimp only
    rw [if_neg (by simp), if_pos ⟨rfl, hsingle⟩]
  have hval : (0x81 : UInt8).toNat = 129 := rfl
  intro item h
  rw [rlpDecode] at h
  obtain ⟨⟨item', stop⟩, hdecode, -⟩ := bind_eq_ok h
  rw [decodeAt, List.getElem?_cons_zero] at hdecode
  dsimp only at hdecode
  rw [hval, if_neg (by omega), if_pos (by omega), hread] at hdecode
  cases hdecode

/-- A length in a longer form than it needs is not read. -/
lemma readLength_long {x : UInt8} {l rest : Bytes} (hl : 1 ≤ l.length)
    (hlong : l.head? = some 0 ∨ beNat l < 56) (len : ℕ) :
    readLength (x :: l ++ rest) 1 l.length ≠ .ok len := by
  intro h
  have hfield : field (x :: l ++ rest) 1 l.length = l := field_of_drop rfl
  rw [readLength] at h
  split at h
  · cases h
  · split at h
    · cases h
    · next hzero =>
      dsimp only at h
      rw [hfield] at h
      rcases hlong with hhead | hshort
      · cases l with
        | nil => cases hhead
        | cons y l => exact hzero hhead
      · rw [if_pos hshort] at h
        cases h

/-- A length in a longer form than it needs. -/
lemma rejected_long {offset : ℕ} {l rest : Bytes} (hoffset : offset = 0x80 ∨ offset = 0xc0)
    (hl : 1 ≤ l.length) (hl' : l.length ≤ 8) (hlong : l.head? = some 0 ∨ beNat l < 56) :
    Rejected (UInt8.ofNat (offset + 55 + l.length) :: l ++ rest) := by
  intro item h
  have hval : (UInt8.ofNat (offset + 55 + l.length)).toNat = offset + 55 + l.length :=
    toNat_ofNat_byte (by omega)
  generalize UInt8.ofNat (offset + 55 + l.length) = x at h hval
  have hnot := @readLength_long x _ rest hl hlong
  rw [rlpDecode] at h
  obtain ⟨⟨item', stop⟩, hread, -⟩ := bind_eq_ok h
  rw [decodeAt, List.cons_append, List.getElem?_cons_zero] at hread
  dsimp only at hread
  rw [if_neg (by omega)] at hread
  rcases hoffset with rfl | rfl
  · rw [if_pos (by omega), decodeString, if_neg (by omega)] at hread
    obtain ⟨len, hlen, -⟩ := bind_eq_ok hread
    rw [hval, show 0x80 + 55 + l.length - 0xb7 = l.length by omega] at hlen
    exact hnot len hlen
  · rw [if_neg (by omega)] at hread
    obtain ⟨⟨start, len⟩, hhead, -⟩ := bind_eq_ok hread
    rw [listHead, if_neg (by omega)] at hhead
    dsimp only at hhead
    rw [hval, show 0xc0 + 55 + l.length - 0xf7 = l.length by omega] at hhead
    cases hlen : readLength (x :: (l ++ rest)) 1 l.length with
    | ok len' => exact hnot len' hlen
    | error e =>
        rw [hlen] at hhead
        cases hhead

end Rlp

open Rlp

/-- **Strict.** What is written is read back, and nothing else is read. -/
theorem rlp_strict : (∀ (item : RlpItem) (bytes : Uint8Array),
      rlpEncodeArray item = .ok bytes ↔ rlpDecode bytes.val = .ok item) ∧
    (∀ (item : RlpItem) (bytes more : Uint8Array) (rest : Bytes), rlpDecode bytes.val = .ok item →
      rest ≠ [] → more.val = bytes.val ++ rest → Rejected more.val) ∧
    (∀ (item : RlpItem) (bytes : Uint8Array) (n : ℕ), rlpDecode bytes.val = .ok item →
      n < bytes.val.length → Rejected (bytes.val.take n)) ∧
    (∀ x : UInt8, x.toNat < 0x80 → Rejected [0x81, x]) ∧
    (∀ (offset : ℕ) (l rest : Bytes), offset = 0x80 ∨ offset = 0xc0 → 1 ≤ l.length → l.length ≤ 8 →
      l.head? = some 0 ∨ beNat l < 56 → Rejected (UInt8.ofNat (offset + 55 + l.length) :: l ++ rest)) := by
  refine ⟨fun item bytes => ?_, fun item bytes more rest h hrest hmore => rejected_append hmore hrest h,
    fun item bytes n h hn => rejected_take hn h, fun x hx => rejected_prefixed hx,
    fun offset l rest hoffset hl hl' hlong => rejected_long hoffset hl hl' hlong⟩
  rw [rlpEncodeArray_eq_ok]
  exact ⟨rlpDecode_array, rlpEncode_of_rlpDecode⟩

end BitGraph
