import BitGraph.Carrier
import BitGraph.Ceiling.Block
import BitGraph.Keccak
import BitGraph.Rlp.Strict

/-!
The two readers of a block header: `decodeRlpTop` with `rlpNumber`, and the strict `decodeHeader`.

* **Tiles.** `Framed`, `TopItem` and `Tiles`: items one after the other, each with its length in front
  in any of its forms; `rlpItems_iff` is the loop over them.
* `header_readers`: `decodeRlpTop` accepts a list that its items tile, and reads of a strict header what
  `decodeHeader` reads, as far as the numbers have six bytes.
-/

namespace BitGraph

open Js Rlp

open Sha256 (beNat)

namespace Carrier

/-! ### Items in a row -/

/-- A length in front of its content, in either form. -/
inductive Framed (offset : ℕ) : Bytes → Bytes → Prop
  | short {x : UInt8} {content : Bytes} (hlen : content.length < 56)
      (hx : x.toNat = offset + content.length) : Framed offset (x :: content) content
  | long {x : UInt8} {l content : Bytes} (hx : x.toNat = offset + 55 + l.length) (hl : 1 ≤ l.length)
      (hl' : l.length ≤ 8) (hlen : beNat l = content.length) : Framed offset (x :: (l ++ content)) content

/-- One item, a string or a list, and its content. -/
inductive TopItem : Bytes → Bytes → Prop
  | single {x : UInt8} (hx : x.toNat < 0x80) : TopItem [x] [x]
  | string {enc content : Bytes} (h : Framed 0x80 enc content) : TopItem enc content
  | list {enc content : Bytes} (h : Framed 0xc0 enc content) : TopItem enc content

/-- The items fill the bytes. -/
inductive Tiles : Bytes → List Bytes → Prop
  | nil : Tiles [] []
  | cons {enc content rest : Bytes} {items : List Bytes} (h : TopItem enc content) (ih : Tiles rest items) :
      Tiles (enc ++ rest) (content :: items)

/-- One list whose items tile its payload. -/
def ListOf (bytes : Bytes) (items : List Bytes) : Prop :=
  ∃ payload, Framed 0xc0 bytes payload ∧ Tiles payload items

/-- After some items there is a list in the long form, and the bytes end within its length. -/
inductive CutShort : Bytes → Prop
  | here {x : UInt8} {rest : Bytes} (hx : 0xf8 ≤ x.toNat) (hrest : rest.length < x.toNat - 0xf7) :
      CutShort (x :: rest)
  | there {enc content rest : Bytes} (h : TopItem enc content) (ih : CutShort rest) :
      CutShort (enc ++ rest)

/-- The payload of one list is cut short. -/
def CutNested (bytes : Bytes) : Prop := ∃ payload, Framed 0xc0 bytes payload ∧ CutShort payload

/-! ### One item -/

variable {x : UInt8} {rest item rest' payload enc content : Bytes} {items : List Bytes} {offset len : ℕ}

lemma rlpSlice_eq_some :
    rlpSlice len rest = some (item, rest') ↔ item.length = len ∧ rest = item ++ rest' := by
  rw [rlpSlice]
  constructor
  · intro h
    split at h
    · cases h
    · next hle =>
      obtain ⟨rfl, rfl⟩ := Prod.mk.inj (Option.some.inj h)
      exact ⟨by rw [List.length_take]; omega, (List.take_append_drop _ _).symm⟩
  · rintro ⟨rfl, rfl⟩
    rw [if_neg (by simp), List.take_left, List.drop_left]

/-- A slice after the bytes of its length. -/
lemma rlpSlice_long {ll : ℕ} (h : rlpSlice (beNat (rest.take ll)) (rest.drop ll) = some (item, rest'))
    (hle : ll ≤ rest.length) :
    ∃ l : Bytes, l.length = ll ∧ beNat l = item.length ∧ rest = l ++ (item ++ rest') := by
  obtain ⟨hlen, hdrop⟩ := rlpSlice_eq_some.mp h
  exact ⟨rest.take ll, by rw [List.length_take]; omega, hlen.symm, by rw [← hdrop, List.take_append_drop]⟩

/-- An item that is read is one of the bytes, or a list that is cut short. -/
lemma rlpItem_cases (h : rlpItem x rest = some (item, rest')) :
    (∃ enc, TopItem enc item ∧ x :: rest = enc ++ rest') ∨ CutShort (x :: rest) := by
  rw [rlpItem] at h
  dsimp only at h
  split at h
  · next hx =>
    obtain ⟨rfl, rfl⟩ := Prod.mk.inj (Option.some.inj h)
    exact .inl ⟨[x], .single hx, rfl⟩
  split at h
  · obtain ⟨hlen, rfl⟩ := rlpSlice_eq_some.mp h
    exact .inl ⟨x :: item, .string (.short (by omega) (by omega)), rfl⟩
  split at h
  · split at h
    · cases h
    · obtain ⟨l, hl, hlen, rfl⟩ := rlpSlice_long h (by omega)
      exact .inl ⟨x :: (l ++ item), .string (.long (by omega) (by omega) (by omega) hlen), by simp⟩
  split at h
  · obtain ⟨hlen, rfl⟩ := rlpSlice_eq_some.mp h
    exact .inl ⟨x :: item, .list (.short (by omega) (by omega)), rfl⟩
  split at h
  · next hshort => exact .inr (.here (by omega) hshort)
  · obtain ⟨l, hl, hlen, rfl⟩ := rlpSlice_long h (by omega)
    have hx := x.toNat_lt
    exact .inl ⟨x :: (l ++ item), .list (.long (by omega) (by omega) (by omega) hlen), by simp⟩

/-- An item in front of anything is read. -/
lemma rlpItem_of_framed (hoffset : offset = 0x80 ∨ offset = 0xc0) (h : Framed offset enc content) :
    ∃ x t, enc = x :: t ∧ rlpItem x (t ++ rest') = some (content, rest') := by
  cases h with
  | short hlen hx =>
      refine ⟨_, content, rfl, ?_⟩
      have hslice : rlpSlice content.length (content ++ rest') = some (content, rest') :=
        rlpSlice_eq_some.mpr ⟨rfl, rfl⟩
      rw [rlpItem]
      dsimp only
      rcases hoffset with rfl | rfl
      · rw [if_neg (by omega), if_pos (by omega), hx, Nat.add_sub_cancel_left, hslice]
      · rw [if_neg (by omega), if_neg (by omega), if_neg (by omega), if_pos (by omega), hx,
          Nat.add_sub_cancel_left, hslice]
  | @long x l _ hx hl hl' hlen =>
      refine ⟨x, l ++ content, rfl, ?_⟩
      have htake : ((l ++ content) ++ rest').take l.length = l := by simp
      have hdrop : ((l ++ content) ++ rest').drop l.length = content ++ rest' := by simp
      have hslice : rlpSlice content.length (content ++ rest') = some (content, rest') :=
        rlpSlice_eq_some.mpr ⟨rfl, rfl⟩
      rw [rlpItem]
      dsimp only
      rcases hoffset with rfl | rfl
      · rw [if_neg (by omega), if_neg (by omega), if_pos (by omega),
          show x.toNat - 0xb7 = l.length by omega, if_neg (by simp), htake, hdrop, hlen, hslice]
      · rw [if_neg (by omega), if_neg (by omega), if_neg (by omega), if_neg (by omega),
          show x.toNat - 0xf7 = l.length by omega, if_neg (by simp), htake, hdrop, hlen, hslice]

lemma rlpItem_of_topItem (h : TopItem enc content) :
    ∃ x t, enc = x :: t ∧ rlpItem x (t ++ rest') = some (content, rest') := by
  cases h with
  | single hx => exact ⟨_, [], rfl, by rw [rlpItem]; dsimp only; rw [if_pos hx]; rfl⟩
  | string h => exact rlpItem_of_framed (.inl rfl) h
  | list h => exact rlpItem_of_framed (.inr rfl) h

/-! ### The loop -/

/-- Items that fill the bytes are read. -/
lemma rlpItems_of_tiles (h : Tiles payload items) : rlpItems payload = some items := by
  induction h with
  | nil => rw [rlpItems]
  | @cons enc content rest items h _ ih =>
      obtain ⟨x, t, rfl, hitem⟩ := @rlpItem_of_topItem rest _ _ h
      rw [List.cons_append, rlpItems]
      split
      · next hnone => cases hnone.symm.trans hitem
      · next item rest' hsome =>
        obtain ⟨rfl, rfl⟩ := Prod.mk.inj (Option.some.inj (hsome.symm.trans hitem))
        rw [ih]
        rfl

/-- Where no list is cut short, what is read fills the bytes. -/
lemma tiles_of_rlpItems (hcut : ¬ CutShort payload) (h : rlpItems payload = some items) :
    Tiles payload items := by
  induction hn : payload.length using Nat.strong_induction_on generalizing payload items with
  | _ n ih =>
      cases payload with
      | nil =>
          rw [rlpItems] at h
          rw [← Option.some.inj h]
          exact .nil
      | cons x rest =>
          rw [rlpItems] at h
          split at h
          · cases h
          · next item rest' hitem =>
            obtain ⟨items', hitems, rfl⟩ := Option.map_eq_some_iff.mp h
            have hle := rlpItem_length hitem
            rcases rlpItem_cases hitem with ⟨enc, htop, heq⟩ | hshort
            · rw [heq] at hcut ⊢
              have hrest : ¬ CutShort rest' := fun hc => hcut (.there htop hc)
              have hlt : rest'.length < n := by
                rw [← hn, List.length_cons]
                omega
              exact .cons htop (ih _ hlt hrest hitems rfl)
            · exact absurd hshort hcut

/-- The reader of the top level, by the payload of the list. -/
lemma decodeRlpTop_eq_some {bytes : Bytes} :
    decodeRlpTop bytes = some items ↔ ∃ payload, Framed 0xc0 bytes payload ∧ rlpItems payload = some items := by
  constructor
  · intro h
    rw [decodeRlpTop.eq_def] at h
    split at h
    · cases h
    · next x rest =>
      have hx := x.toNat_lt
      dsimp only at h
      split at h
      · split at h
        · cases h
        · split at h
          · next hlen =>
            refine ⟨rest.drop (x.toNat - 0xf7), ?_, h⟩
            have hframed : Framed 0xc0 (x :: (rest.take (x.toNat - 0xf7) ++ rest.drop (x.toNat - 0xf7)))
                (rest.drop (x.toNat - 0xf7)) := by
              have hl : (rest.take (x.toNat - 0xf7)).length = x.toNat - 0xf7 := by
                rw [List.length_take]
                omega
              exact .long (by omega) (by omega) (by omega) hlen
            rwa [List.take_append_drop] at hframed
          · cases h
      · split at h
        · split at h
          · exact ⟨rest, .short (by omega) (by omega), h⟩
          · cases h
        · cases h
  · rintro ⟨payload, hframed, h⟩
    cases hframed with
    | short hlen hx =>
        rw [decodeRlpTop]
        dsimp only
        rw [if_neg (by omega), if_pos (by omega), if_pos (by omega), h]
    | @long x l _ hx hl hl' hlen =>
        rw [decodeRlpTop]
        dsimp only
        rw [if_pos (by omega), show x.toNat - 0xf7 = l.length by omega, if_neg (by simp), List.take_left,
          List.drop_left, if_pos hlen, h]

/-! ### Strict items -/

/-- What stands behind the length of an item. -/
def contentOf : RlpItem → Bytes
  | .bytes b => b
  | .list items => rlpEncodeAll items

lemma framed_encodeLength (hoffset : offset = 0x80 ∨ offset = 0xc0) (hlen : content.length < 256 ^ 8) :
    Framed offset (encodeLength content.length offset ++ content) content := by
  rcases encodeLength_cases offset hlen with ⟨hshort, henc⟩ | ⟨-, hk, hk', henc⟩
  · rw [henc, List.singleton_append]
    exact .short hshort (toNat_ofNat_byte (by omega))
  · rw [henc, List.cons_append]
    exact .long (toNat_ofNat_byte (by omega)) hk hk' (beNat_bigEndian _)

lemma topItem_rlpEncode {item : RlpItem} (hlen : (rlpEncode item).length < 256 ^ 8) :
    TopItem (rlpEncode item) (contentOf item) := by
  cases item with
  | bytes b =>
      rw [rlpEncode] at hlen ⊢
      split at hlen
      · next hsingle =>
        obtain ⟨x, rfl, hx⟩ := isSingle_iff.mp hsingle
        rw [if_pos hsingle]
        exact .single hx
      · next hsingle =>
        rw [List.length_append] at hlen
        rw [if_neg hsingle]
        exact .string (framed_encodeLength (.inl rfl) (by omega))
  | list items =>
      rw [rlpEncode, List.length_append] at hlen
      rw [rlpEncode]
      exact .list (framed_encodeLength (.inr rfl) (by omega))

lemma tiles_rlpEncodeAll {items : List RlpItem} (hlen : (rlpEncodeAll items).length < 256 ^ 8) :
    Tiles (rlpEncodeAll items) (items.map contentOf) := by
  induction items with
  | nil => exact .nil
  | cons item items ih =>
      rw [rlpEncodeAll, List.length_append] at hlen
      rw [rlpEncodeAll, List.map_cons]
      exact .cons (topItem_rlpEncode (by omega)) (ih (by omega))

/-- A list that the strict reader accepts is one that its items tile. -/
lemma listOf_of_rlpDecode {raw : Uint8Array} {f : List RlpItem} (h : rlpDecode raw.val = .ok (.list f)) :
    ListOf raw.val (f.map contentOf) := by
  have henc := rlpEncode_of_rlpDecode h
  have hle := raw.property
  have hlt : maxArrayLength < 256 ^ 8 := by norm_num [maxArrayLength]
  rw [rlpEncode] at henc
  have hlen : (rlpEncodeAll f).length ≤ raw.val.length := by
    rw [← henc, List.length_append]
    omega
  refine ⟨rlpEncodeAll f, ?_, tiles_rlpEncodeAll (by omega)⟩
  rw [← henc]
  exact framed_encodeLength (.inr rfl) (by omega)

lemma Framed.head (h : Framed offset enc content) :
    ∃ x t, enc = x :: t ∧ offset ≤ x.toNat ∧ x.toNat ≤ offset + 63 := by
  cases h with
  | short hlen hx => exact ⟨_, _, rfl, by omega, by omega⟩
  | long hx hl hl' hlen => exact ⟨_, _, rfl, by omega, by omega⟩

/-- A byte string is no list. -/
lemma decodeRlpTop_of_bytes {raw : Uint8Array} {b : Bytes} (h : rlpDecode raw.val = .ok (.bytes b)) :
    decodeRlpTop raw.val = none := by
  have henc := rlpEncode_of_rlpDecode h
  have hle := raw.property
  have hlt : maxArrayLength < 256 ^ 8 := by norm_num [maxArrayLength]
  cases hread : decodeRlpTop raw.val with
  | none => rfl
  | some items =>
      obtain ⟨payload, hframed, -⟩ := decodeRlpTop_eq_some.mp hread
      obtain ⟨x, t, hx, hlist, -⟩ := hframed.head
      rw [hx, rlpEncode] at henc
      split at henc
      · next hsingle =>
        obtain ⟨y, rfl, hy⟩ := isSingle_iff.mp hsingle
        obtain rfl := (List.cons.inj henc).1
        omega
      · have hlen : b.length < 256 ^ 8 := by
          have htotal := congrArg List.length henc
          rw [List.length_append, ← hx] at htotal
          omega
        obtain ⟨y, t', hy, -, hstring⟩ := (framed_encodeLength (.inl rfl) hlen).head
        rw [hy] at henc
        obtain rfl := (List.cons.inj henc).1
        omega

/-! ### Numbers -/

/-- Bytes without a zero in front give a number below `2 ^ 48` exactly where there are at most six. -/
lemma rlpNumber_of_head {b : Bytes} (h : b.head? ≠ some 0) :
    rlpNumber b = if beNat b < 2 ^ 48 then some (beNat b) else none := by
  have hb : bigEndian (beNat b) = b := bigEndian_beNat fun x hx h0 => h (h0 ▸ hx)
  have hlen : b.length ≤ 6 ↔ beNat b < 256 ^ 6 := by
    rw [← Nat.digits_length_le_iff (by norm_num), ← hb, bigEndian, List.length_map, List.length_reverse,
      ← bigEndian, hb]
  rw [rlpNumber]
  split
  · next hlong => rw [if_neg (by omega)]
  · next hshort => rw [if_pos (by omega)]

/-! ### The two readers -/

/-- What the strict reader finds in a header. -/
lemma decodeHeader_parts {K : HashFn} {raw : Bytes} {h : DecodedHeader} (hd : decodeHeader K raw = .ok h) :
    ∃ f num ts, rlpDecode raw = .ok (.list f) ∧ 15 ≤ f.length ∧
      f[8]? = some (.bytes num) ∧ num.head? ≠ some 0 ∧ beNat num = h.number ∧
      f[11]? = some (.bytes ts) ∧ ts.head? ≠ some 0 ∧ beNat ts = h.timestamp := by
  have huint : ∀ {item : Option RlpItem} {what : String} {n : ℕ}, rlpUint item what = .ok n →
      ∃ b, item = some (.bytes b) ∧ b.head? ≠ some 0 ∧ beNat b = n := by
    intro item what n hn
    obtain ⟨b, hb, hn⟩ := bind_eq_ok hn
    rw [asBytes.eq_def] at hb
    split at hb
    · obtain rfl := Except.ok.inj hb
      split at hn
      · cases hn
      · next hzero => exact ⟨_, rfl, hzero, Except.ok.inj hn⟩
    · cases hb
  rw [decodeHeader] at hd
  obtain ⟨item, hitem, hd⟩ := bind_eq_ok hd
  cases item with
  | bytes b => cases hd
  | list f =>
      dsimp only at hd
      split at hd
      · cases hd
      · next hlong =>
        obtain ⟨n, hn, hd⟩ := bind_eq_ok hd
        obtain ⟨t, ht, hd⟩ := bind_eq_ok hd
        split at hd
        · cases hd
        · obtain ⟨txRoot, -, hd⟩ := bind_eq_ok hd
          obtain ⟨parent, -, hd⟩ := bind_eq_ok hd
          split at hd
          · cases hd
          · obtain rfl := Except.ok.inj hd
            obtain ⟨num, hnum, hzero, rfl⟩ := huint hn
            obtain ⟨ts, hts, hzero', rfl⟩ := huint ht
            exact ⟨f, num, ts, hitem, by omega, hnum, hzero, rfl, hts, hzero', rfl⟩

/-- An item of a strict list, as the other reader has it. -/
lemma getD_contentOf {f : List RlpItem} {i : ℕ} {b : Bytes} (h : f[i]? = some (.bytes b)) :
    (f.map contentOf).getD i [] = b := by
  rw [List.getD_eq_getElem?_getD, List.getElem?_map, h]
  rfl

/-- **Two readers.** Where no nested list is cut short, `decodeRlpTop` accepts exactly the lists that
their items tile; it accepts every list that the strict reader does, with the same items, and no byte
string; of a strict header it reads the number and the time, where they have at most six bytes. -/
theorem header_readers (K : HashFn) :
    (∀ bytes items, ¬ CutNested bytes → (decodeRlpTop bytes = some items ↔ ListOf bytes items)) ∧
    (∀ (raw : Uint8Array) f, rlpDecode raw.val = .ok (.list f) →
      decodeRlpTop raw.val = some (f.map contentOf)) ∧
    (∀ (raw : Uint8Array) b, rlpDecode raw.val = .ok (.bytes b) → decodeRlpTop raw.val = none) ∧
    (∀ (raw : Uint8Array) h, decodeHeader K raw.val = .ok h → ∃ items,
      decodeRlpTop raw.val = some items ∧ 12 ≤ items.length ∧
      rlpNumber (items.getD 8 []) = (if h.number < 2 ^ 48 then some h.number else none) ∧
      rlpNumber (items.getD 11 []) = (if h.timestamp < 2 ^ 48 then some h.timestamp else none)) := by
  have hlist : ∀ (raw : Uint8Array) f, rlpDecode raw.val = .ok (.list f) →
      decodeRlpTop raw.val = some (f.map contentOf) := by
    intro raw f h
    obtain ⟨payload, hframed, htiles⟩ := listOf_of_rlpDecode h
    exact decodeRlpTop_eq_some.mpr ⟨payload, hframed, rlpItems_of_tiles htiles⟩
  refine ⟨fun bytes items hcut => ⟨fun h => ?_, fun h => ?_⟩, hlist, fun raw b => decodeRlpTop_of_bytes,
    fun raw h hd => ?_⟩
  · obtain ⟨payload, hframed, hitems⟩ := decodeRlpTop_eq_some.mp h
    exact ⟨payload, hframed, tiles_of_rlpItems (fun hc => hcut ⟨payload, hframed, hc⟩) hitems⟩
  · obtain ⟨payload, hframed, htiles⟩ := h
    exact decodeRlpTop_eq_some.mpr ⟨payload, hframed, rlpItems_of_tiles htiles⟩
  · obtain ⟨f, num, ts, hf, hlong, hnum, hzero, hnumber, hts, hzero', htime⟩ := decodeHeader_parts hd
    refine ⟨f.map contentOf, hlist raw f hf, by rw [List.length_map]; omega, ?_, ?_⟩
    · rw [getD_contentOf hnum, rlpNumber_of_head hzero, hnumber]
    · rw [getD_contentOf hts, rlpNumber_of_head hzero', htime]

/-- A header with a number of seven bytes. -/
def longNumberHeader : Bytes :=
  [0xf8, 0x56] ++ ((0xa0 :: List.replicate 32 0) ++ ([0x80, 0x80, 0x80] ++ ((0xa0 :: List.replicate 32 0)
    ++ [0x80, 0x80, 0x80, 0x87, 1, 0, 0, 0, 0, 0, 0, 0x80, 0x80, 1, 0x80, 0x80, 0x80])))

/-- The strict reader accepts the number, and the other does not. -/
theorem longNumberHeader_unread : ¬ ∀ (K : HashFn) (raw : Uint8Array) h,
    decodeHeader K raw.val = .ok h → ∃ items, decodeRlpTop raw.val = some items ∧
      rlpNumber (items.getD 8 []) = some h.number ∧ rlpNumber (items.getD 11 []) = some h.timestamp := by
  intro h
  have hread : ((decodeHeader keccak256 longNumberHeader).toOption.map fun h => h.number)
      = some (2 ^ 48) := by decide
  have hunread : (decodeRlpTop longNumberHeader).bind (fun items => rlpNumber (items.getD 8 [])) = none := by
    decide +kernel
  obtain ⟨header, hd, -⟩ := Option.map_eq_some_iff.mp hread
  have hfits : longNumberHeader.length ≤ maxArrayLength := by decide
  obtain ⟨items, hitems, hnumber, -⟩ := h keccak256 ⟨longNumberHeader, hfits⟩ header (toOption_eq_some.mp hd)
  rw [hitems, Option.bind_some, hnumber] at hunread
  cases hunread

end Carrier

end BitGraph
