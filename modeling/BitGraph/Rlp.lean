import BitGraph.Lib.Layout
import BitGraph.Sha256

/-!
RLP, as `ceiling-evm.ts` writes and reads it.

* `rlpEncode`: a byte string, or a list of items, with its length in front.
* `rlpDecode` is strict: one item that fills the bytes, every length in its shortest form.
  `readLength`, `decodeAt` and `decodeItems` are its parts.
* `rlpDecode_rlpEncode` and `rlpEncode_of_rlpDecode`: every encoding is read back, and nothing but
  encodings is read.
-/

namespace BitGraph

open Js Layout

open Sha256 (beNat)

inductive RlpItem where
  | bytes (b : Bytes)
  | list (items : List RlpItem)

namespace Rlp

/-- A number as big-endian bytes, none for zero. -/
def bigEndian (n : ℕ) : Bytes := (Nat.digits 256 n).reverse.map UInt8.ofNat

def encodeLength (len offset : ℕ) : Bytes :=
  if len < 56 then [UInt8.ofNat (offset + len)]
  else
    let lenBytes := bigEndian len
    UInt8.ofNat (offset + 55 + lenBytes.length) :: lenBytes

/-- One byte that stands for itself. -/
def isSingle (b : Bytes) : Bool :=
  match b with
  | [x] => decide (x.toNat < 0x80)
  | _ => false

end Rlp

open Rlp

mutual

def rlpEncode : RlpItem → Bytes
  | .bytes b => if isSingle b then b else encodeLength b.length 0x80 ++ b
  | .list items => encodeLength (rlpEncodeAll items).length 0xc0 ++ rlpEncodeAll items

/-- The encodings of items in a row. -/
def rlpEncodeAll : List RlpItem → Bytes
  | [] => []
  | item :: items => rlpEncode item ++ rlpEncodeAll items

end

namespace Rlp

/-! ### Reading -/

def fail (what : String) : Thrown := typeError (js "rlp: " ++ js what)

/-- A length of `lenOfLen` bytes. -/
def readLength (bytes : Bytes) (pos lenOfLen : ℕ) : Except Thrown ℕ :=
  if bytes.length < pos + lenOfLen then .error (fail "truncated length")
  else if bytes[pos]? = some 0 then .error (fail "length with a leading zero")
  else
    let n := beNat (field bytes pos lenOfLen)
    if n < 56 then .error (fail "long form for a short length") else .ok n

/-- Where the content of a list begins, and its length. -/
def listHead (bytes : Bytes) (pos b : ℕ) : Except Thrown (ℕ × ℕ) :=
  if b ≤ 0xf7 then .ok (pos + 1, b - 0xc0)
  else
    let lenOfLen := b - 0xf7
    (readLength bytes (pos + 1) lenOfLen).map fun len => (pos + 1 + lenOfLen, len)

/-- A byte string whose first byte is `b`. -/
def decodeString (bytes : Bytes) (pos b : ℕ) : Except Thrown (RlpItem × ℕ) :=
  if b ≤ 0xb7 then
    let len := b - 0x80
    let stop := pos + 1 + len
    if bytes.length < stop then .error (fail "truncated string")
    else if len = 1 ∧ isSingle (field bytes (pos + 1) 1) then
      .error (fail "single byte should encode as itself")
    else .ok (.bytes (field bytes (pos + 1) len), stop)
  else do
    let lenOfLen := b - 0xb7
    let len ← readLength bytes (pos + 1) lenOfLen
    let start := pos + 1 + lenOfLen
    if bytes.length < start + len then .error (fail "truncated string")
    else .ok (.bytes (field bytes start len), start + len)

mutual

/-- The item at `pos`, and the place behind it. -/
def decodeAt (bytes : Bytes) : ℕ → ℕ → Except Thrown (RlpItem × ℕ)
  | 0, _ => .error (fail "out of fuel")
  | fuel + 1, pos =>
      match bytes[pos]? with
      | none => .error (fail "truncated")
      | some x =>
          if x.toNat < 0x80 then .ok (.bytes (field bytes pos 1), pos + 1)
          else if x.toNat ≤ 0xbf then decodeString bytes pos x.toNat
          else do
            let (start, len) ← listHead bytes pos x.toNat
            let stop := start + len
            if bytes.length < stop then .error (fail "truncated list")
            else do
              let (items, p) ← decodeItems bytes fuel start stop
              if p ≠ stop then .error (fail "list overran its length")
              else .ok (.list items, stop)

/-- The items from `p` on, until `stop` is reached. -/
def decodeItems (bytes : Bytes) : ℕ → ℕ → ℕ → Except Thrown (List RlpItem × ℕ)
  | 0, _, _ => .error (fail "out of fuel")
  | fuel + 1, p, stop =>
      if p < stop then do
        let (item, next) ← decodeAt bytes fuel p
        let (items, p) ← decodeItems bytes fuel next stop
        .ok (item :: items, p)
      else .ok ([], p)

end

end Rlp

/-- Exactly one item that fills the bytes; two turns for every byte are enough. -/
def rlpDecode (bytes : Bytes) : Except Thrown RlpItem := do
  let (item, stop) ← decodeAt bytes (2 * bytes.length + 1) 0
  if stop ≠ bytes.length then .error (fail "trailing bytes") else .ok item

namespace Rlp

/-! ### Lengths -/

lemma toNat_bigEndian (n : ℕ) : (bigEndian n).map UInt8.toNat = (Nat.digits 256 n).reverse := by
  rw [bigEndian, List.map_map]
  conv_rhs => rw [← List.map_id (Nat.digits 256 n).reverse]
  refine List.map_congr_left fun d hd => ?_
  exact toNat_ofNat_byte (Nat.digits_lt_base (by norm_num) (List.mem_reverse.mp hd))

lemma beNat_eq_ofDigits (b : Bytes) : beNat b = Nat.ofDigits 256 (b.reverse.map UInt8.toNat) := by
  induction b using List.reverseRecOn with
  | nil => rfl
  | append_singleton b x ih =>
      rw [List.reverse_append, List.reverse_singleton, List.singleton_append, List.map_cons,
        Nat.ofDigits_cons, ← ih, beNat, beNat, List.foldl_append]
      simp only [List.foldl_cons, List.foldl_nil, Nat.cast_id]
      ring

/-- Big-endian bytes read back as their number. -/
lemma beNat_bigEndian (n : ℕ) : beNat (bigEndian n) = n := by
  rw [beNat_eq_ofDigits, List.map_reverse, toNat_bigEndian, List.reverse_reverse, Nat.ofDigits_digits]

lemma length_bigEndian_le {n k : ℕ} (h : n < 256 ^ k) : (bigEndian n).length ≤ k := by
  rw [bigEndian, List.length_map, List.length_reverse]
  exact (Nat.digits_length_le_iff (by norm_num) n).mpr h

lemma bigEndian_head {n : ℕ} (h : 0 < n) : ∃ x l, bigEndian n = x :: l ∧ x ≠ 0 := by
  have hne : Nat.digits 256 n ≠ [] := Nat.digits_ne_nil_iff_ne_zero.mpr h.ne'
  have hlast := Nat.getLast_digit_ne_zero 256 h.ne'
  have hlt : (Nat.digits 256 n).getLast hne < 256 :=
    Nat.digits_lt_base (by norm_num) (List.getLast_mem hne)
  refine ⟨UInt8.ofNat ((Nat.digits 256 n).getLast hne),
    ((Nat.digits 256 n).dropLast.reverse).map UInt8.ofNat, ?_, fun h0 => hlast ?_⟩
  · rw [bigEndian, ← List.map_cons, ← List.reverse_concat, List.dropLast_append_getLast]
  · have hval := congrArg UInt8.toNat h0
    rwa [toNat_ofNat_byte hlt] at hval

/-- Bytes without a zero in front are the big-endian bytes of their number. -/
lemma bigEndian_beNat {b : Bytes} (h : ∀ x ∈ b.head?, x ≠ 0) : bigEndian (beNat b) = b := by
  have hdigits : Nat.digits 256 (beNat b) = b.reverse.map UInt8.toNat := by
    rw [beNat_eq_ofDigits]
    refine Nat.digits_ofDigits 256 (by norm_num) _ (fun d hd => ?_) fun hne => ?_
    · obtain ⟨x, -, rfl⟩ := List.mem_map.mp hd
      exact x.toNat_lt
    · rw [List.getLast_map, List.getLast_reverse]
      intro h0
      cases b with
      | nil => exact hne rfl
      | cons x b => exact h x rfl (UInt8.toNat_inj.mp h0)
  rw [bigEndian, hdigits, ← List.map_reverse, List.reverse_reverse, List.map_map]
  conv_rhs => rw [← List.map_id b]
  exact List.map_congr_left fun x _ => UInt8.ofNat_toNat

lemma encodeLength_ne_nil (len offset : ℕ) : encodeLength len offset ≠ [] := by
  rw [encodeLength]
  split <;> simp

lemma length_encodeLength_le {len offset : ℕ} (h : len < 256 ^ 8) :
    (encodeLength len offset).length ≤ 9 := by
  have hle := length_bigEndian_le h
  rw [encodeLength]
  split
  · rw [List.length_singleton]
    omega
  · rw [List.length_cons]
    omega

/-! ### Encodings are read back -/

variable {bytes post : Bytes} {pos fuel : ℕ}

lemma getElem?_of_drop {x : UInt8} {l : Bytes} (h : bytes.drop pos = x :: l) :
    bytes[pos]? = some x := by
  rw [← List.head?_drop, h, List.head?_cons]

lemma field_of_drop {l : Bytes} (h : bytes.drop pos = l ++ post) : field bytes pos l.length = l := by
  rw [field, h, List.take_left]

lemma drop_add_of_drop {l : Bytes} (h : bytes.drop pos = l ++ post) :
    bytes.drop (pos + l.length) = post := by
  rw [← List.drop_drop, h, List.drop_left]

lemma length_of_drop {l : Bytes} (h : bytes.drop pos = l ++ post) (hne : l ≠ []) :
    pos + l.length + post.length = bytes.length := by
  have hlen := congrArg List.length h
  have hpos := List.length_pos_of_ne_nil hne
  rw [List.length_drop, List.length_append] at hlen
  omega

/-- A long length is read back. -/
lemma readLength_bigEndian {len : ℕ} (hlong : 56 ≤ len)
    (h : bytes.drop pos = bigEndian len ++ post) :
    readLength bytes pos (bigEndian len).length = .ok len := by
  obtain ⟨x, l, hx, hne⟩ := bigEndian_head (show 0 < len by omega)
  have hlen := length_of_drop h (by rw [hx]; simp)
  have hget : bytes[pos]? = some x := getElem?_of_drop (by rw [h, hx, List.cons_append])
  rw [readLength, if_neg (by omega), hget, if_neg (by simpa using hne), field_of_drop h,
    beNat_bigEndian]
  dsimp only
  rw [if_neg (by omega)]

/-- A length in front of something: its first byte, and what the reader finds behind it. -/
lemma encodeLength_cases {len : ℕ} (offset : ℕ) (hlen : len < 256 ^ 8) :
    (len < 56 ∧ encodeLength len offset = [UInt8.ofNat (offset + len)])
      ∨ (56 ≤ len ∧ 1 ≤ (bigEndian len).length ∧ (bigEndian len).length ≤ 8
        ∧ encodeLength len offset
          = UInt8.ofNat (offset + 55 + (bigEndian len).length) :: bigEndian len) := by
  by_cases h : len < 56
  · exact Or.inl ⟨h, by rw [encodeLength, if_pos h]⟩
  · obtain ⟨x, l, hx, -⟩ := bigEndian_head (show 0 < len by omega)
    refine Or.inr ⟨by omega, by rw [hx]; simp, length_bigEndian_le hlen, ?_⟩
    rw [encodeLength, if_neg h]

/-- A byte string that does not stand for itself is read back. -/
lemma decodeString_encode {b : Bytes} (hsingle : isSingle b = false) (hlen : b.length < 256 ^ 8)
    (h : bytes.drop pos = encodeLength b.length 0x80 ++ b ++ post) :
    ∃ x, bytes[pos]? = some x ∧ 0x80 ≤ x.toNat ∧ x.toNat ≤ 0xbf
      ∧ decodeString bytes pos x.toNat
        = .ok (.bytes b, pos + (encodeLength b.length 0x80 ++ b).length) := by
  have htotal := length_of_drop h (by simp [encodeLength_ne_nil])
  rcases encodeLength_cases 0x80 hlen with ⟨hshort, henc⟩ | ⟨hlong, hk, hk', henc⟩
  · rw [henc, List.singleton_append, List.length_cons] at htotal ⊢
    rw [henc, List.singleton_append, List.cons_append] at h
    have hval : (UInt8.ofNat (0x80 + b.length)).toNat = 0x80 + b.length :=
      toNat_ofNat_byte (by omega)
    have hdrop : bytes.drop (pos + 1) = b ++ post := by
      rw [← List.drop_drop, h]
      rfl
    have hfield : field bytes (pos + 1) b.length = b := field_of_drop hdrop
    refine ⟨_, getElem?_of_drop h, by omega, by omega, ?_⟩
    have hone : ¬ (b.length = 1 ∧ isSingle (field bytes (pos + 1) 1) = true) := by
      rintro ⟨h1, hs⟩
      rw [h1] at hfield
      rw [hfield, hsingle] at hs
      exact Bool.false_ne_true hs
    rw [decodeString, hval, if_pos (by omega), Nat.add_sub_cancel_left]
    dsimp only
    rw [if_neg (by omega), if_neg hone, hfield]
    congr 2
    omega
  · rw [henc, List.cons_append, List.length_cons, List.length_append] at htotal ⊢
    rw [henc, List.cons_append, List.cons_append, List.append_assoc] at h
    have hval : (UInt8.ofNat (0x80 + 55 + (bigEndian b.length).length)).toNat
        = 0xb7 + (bigEndian b.length).length := by
      rw [toNat_ofNat_byte (by omega)]
    have hdrop : bytes.drop (pos + 1) = bigEndian b.length ++ (b ++ post) := by
      rw [← List.drop_drop, h]
      rfl
    have hfield : field bytes (pos + 1 + (bigEndian b.length).length) b.length = b :=
      field_of_drop (drop_add_of_drop hdrop)
    refine ⟨_, getElem?_of_drop h, by omega, by omega, ?_⟩
    rw [decodeString, hval, if_neg (by omega), Nat.add_sub_cancel_left]
    dsimp only
    rw [readLength_bigEndian hlong hdrop, ok_bind, if_neg (by omega), hfield]
    congr 2
    omega

/-- The head of a list is read back. -/
lemma listHead_encode {len : ℕ} {body : Bytes} (hlen : len < 256 ^ 8)
    (h : bytes.drop pos = encodeLength len 0xc0 ++ body) :
    ∃ x, bytes[pos]? = some x ∧ 0xc0 ≤ x.toNat
      ∧ listHead bytes pos x.toNat = .ok (pos + (encodeLength len 0xc0).length, len) := by
  rcases encodeLength_cases 0xc0 hlen with ⟨hshort, henc⟩ | ⟨hlong, hk, hk', henc⟩
  · rw [henc, List.singleton_append] at h
    have hval : (UInt8.ofNat (0xc0 + len)).toNat = 0xc0 + len := toNat_ofNat_byte (by omega)
    refine ⟨_, getElem?_of_drop h, by omega, ?_⟩
    rw [listHead, hval, if_pos (by omega), Nat.add_sub_cancel_left, henc]
    rfl
  · rw [henc, List.cons_append] at h
    have hval : (UInt8.ofNat (0xc0 + 55 + (bigEndian len).length)).toNat
        = 0xf7 + (bigEndian len).length := by
      rw [toNat_ofNat_byte (by omega)]
    have hdrop : bytes.drop (pos + 1) = bigEndian len ++ body := by
      rw [← List.drop_drop, h]
      rfl
    refine ⟨_, getElem?_of_drop h, by omega, ?_⟩
    rw [listHead, hval, if_neg (by omega), Nat.add_sub_cancel_left]
    dsimp only
    rw [readLength_bigEndian hlong hdrop, henc, List.length_cons]
    exact congrArg Except.ok (Prod.ext (by dsimp only; omega) rfl)

lemma isSingle_iff {b : Bytes} : isSingle b = true ↔ ∃ x, b = [x] ∧ x.toNat < 0x80 := by
  constructor
  · intro h
    match b with
    | [x] => exact ⟨x, rfl, of_decide_eq_true h⟩
  · rintro ⟨x, rfl, hx⟩
    exact decide_eq_true hx

lemma rlpEncode_ne_nil (item : RlpItem) : rlpEncode item ≠ [] := by
  cases item with
  | bytes b =>
      rw [rlpEncode]
      split
      · next h =>
          obtain ⟨x, rfl, -⟩ := isSingle_iff.mp h
          simp
      · simp [encodeLength_ne_nil]
  | list items =>
      rw [rlpEncode]
      simp [encodeLength_ne_nil]

mutual

/-- The encoding of an item is read back, wherever it stands. -/
lemma decodeAt_rlpEncode : ∀ (item : RlpItem) {pos fuel : ℕ} {post : Bytes},
    bytes.drop pos = rlpEncode item ++ post → (rlpEncode item).length < 256 ^ 8 →
    2 * (rlpEncode item).length < fuel →
    decodeAt bytes fuel pos = .ok (item, pos + (rlpEncode item).length)
  | .bytes b, pos, fuel, post, h, hlen, hfuel => by
      obtain ⟨k, rfl⟩ : ∃ k, fuel = k + 1 := ⟨fuel - 1, by omega⟩
      by_cases hsingle : isSingle b = true
      · rw [rlpEncode, if_pos hsingle] at h ⊢
        obtain ⟨x, rfl, hx⟩ := isSingle_iff.mp hsingle
        rw [decodeAt, getElem?_of_drop h]
        dsimp only
        rw [if_pos hx, ← List.length_singleton (a := x), field_of_drop h]
      · rw [rlpEncode, if_neg hsingle] at h hlen ⊢
        rw [List.length_append] at hlen
        obtain ⟨x, hget, hge, hle, hdecode⟩ :=
          decodeString_encode (Bool.eq_false_iff.mpr hsingle) (by omega) h
        rw [decodeAt, hget]
        dsimp only
        rw [if_neg (by omega), if_pos hle, hdecode]
  | .list items, pos, fuel, post, h, hlen, hfuel => by
      obtain ⟨k, rfl⟩ : ∃ k, fuel = k + 1 := ⟨fuel - 1, by omega⟩
      have htotal := length_of_drop h (rlpEncode_ne_nil _)
      rw [rlpEncode] at h hlen hfuel htotal ⊢
      rw [List.length_append] at hlen hfuel htotal ⊢
      rw [List.append_assoc] at h
      obtain ⟨x, hget, hge, hhead⟩ := listHead_encode (by omega) h
      have hbody := drop_add_of_drop h
      have hpos := List.length_pos_of_ne_nil (encodeLength_ne_nil (rlpEncodeAll items).length 0xc0)
      have hitems := @decodeItems_rlpEncodeAll items _ k _ hbody (by omega) (by omega)
      rw [decodeAt, hget]
      dsimp only
      rw [if_neg (by omega), if_neg (by omega), hhead, ok_bind]
      dsimp only
      rw [if_neg (by omega), hitems, ok_bind]
      dsimp only
      rw [if_neg (not_not.mpr rfl), Nat.add_assoc]

/-- Items in a row are read back. -/
lemma decodeItems_rlpEncodeAll : ∀ (items : List RlpItem) {pos fuel : ℕ} {post : Bytes},
    bytes.drop pos = rlpEncodeAll items ++ post → (rlpEncodeAll items).length < 256 ^ 8 →
    2 * (rlpEncodeAll items).length + 1 < fuel →
    decodeItems bytes fuel pos (pos + (rlpEncodeAll items).length)
      = .ok (items, pos + (rlpEncodeAll items).length)
  | [], pos, fuel, post, h, hlen, hfuel => by
      obtain ⟨k, rfl⟩ : ∃ k, fuel = k + 1 := ⟨fuel - 1, by omega⟩
      rw [rlpEncodeAll, decodeItems, if_neg (by simp)]
      rfl
  | item :: items, pos, fuel, post, h, hlen, hfuel => by
      obtain ⟨k, rfl⟩ : ∃ k, fuel = k + 1 := ⟨fuel - 1, by omega⟩
      have hpos := List.length_pos_of_ne_nil (rlpEncode_ne_nil item)
      rw [rlpEncodeAll] at h hlen hfuel ⊢
      rw [List.length_append] at hlen hfuel ⊢
      rw [List.append_assoc] at h
      have hitem := @decodeAt_rlpEncode item _ k _ h (by omega) (by omega)
      have hitems := @decodeItems_rlpEncodeAll items _ k _ (drop_add_of_drop h) (by omega) (by omega)
      rw [Nat.add_assoc] at hitems
      rw [decodeItems, if_pos (by omega), hitem, ok_bind]
      dsimp only
      rw [hitems, ok_bind]

end

end Rlp

open Rlp

/-- **Encodings are read back.** -/
theorem rlpDecode_rlpEncode {item : RlpItem} (h : (rlpEncode item).length < 256 ^ 8) :
    rlpDecode (rlpEncode item) = .ok item := by
  have hread := @decodeAt_rlpEncode (rlpEncode item) item 0 (2 * (rlpEncode item).length + 1) []
    (List.append_nil _).symm h (by omega)
  rw [rlpDecode, hread, ok_bind]
  dsimp only
  rw [Nat.zero_add, if_neg (not_not.mpr rfl)]

namespace Rlp

/-! ### Nothing else is read -/

/-- A length that is read is the one that is written. -/
lemma encodeLength_readLength {len lenOfLen offset : ℕ} (h : readLength bytes pos lenOfLen = .ok len) :
    pos + lenOfLen ≤ bytes.length
      ∧ encodeLength len offset = UInt8.ofNat (offset + 55 + lenOfLen) :: field bytes pos lenOfLen := by
  rw [readLength] at h
  split at h
  · cases h
  next hfits =>
  split at h
  · cases h
  next hzero =>
  dsimp only at h
  split at h
  · cases h
  next hlong =>
  obtain rfl := Except.ok.inj h
  have hhead : ∀ x ∈ (field bytes pos lenOfLen).head?, x ≠ 0 := by
    intro x hx h0
    have hmem := hx
    rw [field, List.head?_take] at hx
    split at hx
    · cases hx
    · rw [List.head?_drop] at hx
      rw [h0] at hx
      exact hzero hx
  have hlen : (field bytes pos lenOfLen).length = lenOfLen := by
    rw [length_field]
    omega
  refine ⟨by omega, ?_⟩
  rw [encodeLength, if_neg hlong]
  dsimp only
  rw [bigEndian_beNat hhead, hlen]

/-- A piece of the bytes as its first byte and the rest. -/
lemma field_cons {x : UInt8} (h : bytes[pos]? = some x) (n : ℕ) :
    field bytes pos (n + 1) = x :: field bytes (pos + 1) n := by
  obtain ⟨hlt, hx⟩ := List.getElem?_eq_some_iff.mp h
  rw [field, List.drop_eq_getElem_cons hlt, hx, List.take_succ_cons, field]

lemma ofNat_toNat_sub {x : UInt8} {a : ℕ} (h : a ≤ x.toNat) :
    UInt8.ofNat (a + (x.toNat - a)) = x := by
  rw [Nat.add_sub_cancel' h, UInt8.ofNat_toNat]

/-- A byte string that is read is an encoding. -/
lemma rlpEncode_decodeString {x : UInt8} {item : RlpItem} {stop : ℕ} (hx : bytes[pos]? = some x)
    (hge : 0x80 ≤ x.toNat) (h : decodeString bytes pos x.toNat = .ok (item, stop)) :
    pos < stop ∧ stop ≤ bytes.length ∧ rlpEncode item = field bytes pos (stop - pos) := by
  rw [decodeString] at h
  split at h
  · next hshort =>
      dsimp only at h
      split at h
      · exact nomatch h
      next hfits =>
      split at h
      · exact nomatch h
      next hsingle =>
      obtain ⟨rfl, rfl⟩ := Prod.mk.inj (Except.ok.inj h)
      have hlen : (field bytes (pos + 1) (x.toNat - 0x80)).length = x.toNat - 0x80 := by
        rw [length_field]
        omega
      have hnot : ¬ isSingle (field bytes (pos + 1) (x.toNat - 0x80)) = true := by
        intro hs
        obtain ⟨y, hy, -⟩ := isSingle_iff.mp hs
        have hone : x.toNat - 0x80 = 1 := by rw [← hlen, hy, List.length_singleton]
        rw [hone] at hs
        exact hsingle ⟨hone, hs⟩
      refine ⟨by omega, by omega, ?_⟩
      rw [rlpEncode, if_neg hnot, hlen, encodeLength, if_pos (by omega), ofNat_toNat_sub hge,
        show pos + 1 + (x.toNat - 0x80) - pos = (x.toNat - 0x80) + 1 by omega, field_cons hx,
        List.singleton_append]
  · next hlong =>
      dsimp only at h
      obtain ⟨len, hread, h⟩ := bind_eq_ok h
      split at h
      · exact nomatch h
      next hfits =>
      obtain ⟨rfl, rfl⟩ := Prod.mk.inj (Except.ok.inj h)
      obtain ⟨hk, henc⟩ := @encodeLength_readLength bytes (pos + 1) len _ 0x80 hread
      have hlen : (field bytes (pos + 1 + (x.toNat - 0xb7)) len).length = len := by
        rw [length_field]
        omega
      have hnot : ¬ isSingle (field bytes (pos + 1 + (x.toNat - 0xb7)) len) = true := by
        intro hs
        obtain ⟨y, hy, -⟩ := isSingle_iff.mp hs
        have hone : len = 1 := by rw [← hlen, hy, List.length_singleton]
        rw [hone, encodeLength, if_pos (by norm_num)] at henc
        have hcount := congrArg List.length henc
        simp only [List.length_cons, List.length_nil, length_field] at hcount
        omega
      refine ⟨by omega, by omega, ?_⟩
      rw [rlpEncode, if_neg hnot, hlen, henc, show 0x80 + 55 = 0xb7 from rfl,
        ofNat_toNat_sub (by omega),
        show pos + 1 + (x.toNat - 0xb7) + len - pos = (x.toNat - 0xb7 + len) + 1 by omega,
        field_cons hx, field_append, List.cons_append]

/-- The head of a list that is read is the one that is written. -/
lemma encodeLength_listHead {x : UInt8} {start len : ℕ} (hx : bytes[pos]? = some x)
    (hge : 0xc0 ≤ x.toNat) (h : listHead bytes pos x.toNat = .ok (start, len)) :
    pos < start ∧ start ≤ bytes.length ∧ encodeLength len 0xc0 = field bytes pos (start - pos) := by
  obtain ⟨hlt, -⟩ := List.getElem?_eq_some_iff.mp hx
  rw [listHead] at h
  split at h
  · next hshort =>
      obtain ⟨rfl, rfl⟩ := Prod.mk.inj (Except.ok.inj h)
      refine ⟨by omega, by omega, ?_⟩
      rw [encodeLength, if_pos (by omega), ofNat_toNat_sub hge, Nat.add_sub_cancel_left,
        ← Nat.zero_add 1, field_cons hx]
      rfl
  · next hlong =>
      dsimp only at h
      cases hread : readLength bytes (pos + 1) (x.toNat - 0xf7) with
      | error e =>
          rw [hread] at h
          exact nomatch h
      | ok n =>
          rw [hread] at h
          obtain ⟨rfl, rfl⟩ := Prod.mk.inj (Except.ok.inj h)
          obtain ⟨hk, henc⟩ := @encodeLength_readLength bytes (pos + 1) n _ 0xc0 hread
          refine ⟨by omega, by omega, ?_⟩
          rw [henc, show 0xc0 + 55 = 0xf7 from rfl, ofNat_toNat_sub (by omega),
            show pos + 1 + (x.toNat - 0xf7) - pos = (x.toNat - 0xf7) + 1 by omega, field_cons hx]

/-- What the two readers keep, at every fuel. -/
lemma rlpEncode_decode (bytes : Bytes) : ∀ fuel : ℕ,
    (∀ {pos stop : ℕ} {item : RlpItem}, decodeAt bytes fuel pos = .ok (item, stop) →
      pos < stop ∧ stop ≤ bytes.length ∧ rlpEncode item = field bytes pos (stop - pos))
    ∧ ∀ {pos stop stop' : ℕ} {items : List RlpItem}, pos ≤ bytes.length →
      decodeItems bytes fuel pos stop = .ok (items, stop') →
      pos ≤ stop' ∧ stop' ≤ bytes.length ∧ rlpEncodeAll items = field bytes pos (stop' - pos) := by
  intro fuel
  induction fuel with
  | zero => exact ⟨fun h => (nomatch h), fun _ h => (nomatch h)⟩
  | succ fuel ih =>
      constructor
      · intro pos stop item h
        rw [decodeAt] at h
        split at h
        · exact nomatch h
        next x hx =>
        obtain ⟨hlt, -⟩ := List.getElem?_eq_some_iff.mp hx
        split at h
        · next hsmall =>
            obtain ⟨rfl, rfl⟩ := Prod.mk.inj (Except.ok.inj h)
            have hone : field bytes pos 1 = [x] := by
              rw [← Nat.zero_add 1, field_cons hx]
              rfl
            refine ⟨by omega, by omega, ?_⟩
            rw [Nat.add_sub_cancel_left, rlpEncode, if_pos]
            exact isSingle_iff.mpr ⟨x, hone, hsmall⟩
        next hge =>
        split at h
        · exact rlpEncode_decodeString hx (by omega) h
        next hlist =>
        obtain ⟨⟨start, len⟩, hhead, h⟩ := bind_eq_ok h
        obtain ⟨hstart, hstart', henc⟩ := encodeLength_listHead hx (by omega) hhead
        dsimp only at h
        split at h
        · exact nomatch h
        next hfits =>
        obtain ⟨⟨items, p⟩, hitems, h⟩ := bind_eq_ok h
        dsimp only at h
        split at h
        · exact nomatch h
        next hp =>
        obtain ⟨rfl, rfl⟩ := Prod.mk.inj (Except.ok.inj h)
        obtain ⟨-, -, hbody⟩ := ih.2 hstart' hitems
        obtain rfl := not_not.mp hp
        rw [Nat.add_sub_cancel_left] at hbody
        have hlen : (field bytes start len).length = len := by
          rw [length_field]
          omega
        refine ⟨by omega, by omega, ?_⟩
        rw [rlpEncode, hbody, hlen, henc,
          show start + len - pos = (start - pos) + len by omega, field_append,
          Nat.add_sub_cancel' hstart.le]
      · intro pos stop stop' items hpos h
        rw [decodeItems] at h
        split at h
        · obtain ⟨⟨item, next⟩, hitem, h⟩ := bind_eq_ok h
          obtain ⟨⟨items', p⟩, hitems, h⟩ := bind_eq_ok h
          obtain ⟨rfl, rfl⟩ := Prod.mk.inj (Except.ok.inj h)
          obtain ⟨hlt, hle, henc⟩ := ih.1 hitem
          obtain ⟨hlt', hle', henc'⟩ := ih.2 hle hitems
          refine ⟨by omega, hle', ?_⟩
          rw [rlpEncodeAll, henc, henc', show p - pos = (next - pos) + (p - next) by omega,
            field_append, Nat.add_sub_cancel' hlt.le]
        · obtain ⟨rfl, rfl⟩ := Prod.mk.inj (Except.ok.inj h)
          refine ⟨le_rfl, hpos, ?_⟩
          rw [Nat.sub_self, rlpEncodeAll]
          rfl

end Rlp

/-- **The reader is strict**: what is read is the encoding of what came out. -/
theorem rlpEncode_of_rlpDecode {bytes : Bytes} {item : RlpItem} (h : rlpDecode bytes = .ok item) :
    rlpEncode item = bytes := by
  rw [rlpDecode] at h
  obtain ⟨⟨item', stop⟩, hread, h⟩ := bind_eq_ok h
  dsimp only at h
  split at h
  · exact nomatch h
  next hstop =>
  obtain rfl := Except.ok.inj h
  obtain ⟨-, -, henc⟩ := (rlpEncode_decode bytes _).1 hread
  rw [henc, not_not.mp hstop, field, Nat.sub_zero, List.drop_zero, List.take_length]

end BitGraph
