import BitGraph.Tar

/-!
A written header is read back.

* **Numeric fields.** `parseNumeric_octalField`: a number that fits is read back, and one that
  does not fit comes out smaller.
* **Fields.** What stands in each field of `headerFields`.
* **Checksum.** `verifyChecksum_writeHeader`.
* `parseHeader_writeHeader`: the type, the name with its prefix, and the size.
-/

namespace BitGraph

open Js Layout

namespace Tar

/-! ### Texts in bytes -/

lemma decodeString_utf8Encode {s : Str} (h : (scalars s).head? ≠ some 0xFEFF) :
    decodeString (utf8Encode s) = (scalars s).flatMap units := by
  have hmap : ((scalars s).map some).map (fun c => c.getD 0xFFFD) = scalars s := by
    rw [List.map_map]
    exact List.map_id _
  rw [decodeString, decodeLossy, utf8Decode_utf8Encode, hmap, dropBom_of_head h]

/-- A leading byte order mark is lost. -/
lemma decodeString_bom (s : Str) : decodeString (utf8Encode (0xFEFF :: s)) = (scalars s).flatMap units := by
  have hscalars : scalars (0xFEFF :: s) = 0xFEFF :: scalars s := by
    rw [show (0xFEFF :: s : Str) = units 0xFEFF ++ s from rfl, scalars_units (Or.inr (by decide))]
  have hmap : ((scalars (0xFEFF :: s)).map some).map (fun c => c.getD 0xFFFD)
      = scalars (0xFEFF :: s) := by
    rw [List.map_map]
    exact List.map_id _
  rw [decodeString, decodeLossy, utf8Decode_utf8Encode, hmap, hscalars, dropBom]

lemma ascii_eq {s : Str} (h : isAscii s = true) : ascii s = utf8Encode s := by
  rw [utf8Encode_of_isAscii h]
  rfl

lemma decodeString_ascii {s : Str} (h : isAscii s = true) : decodeString (ascii s) = s := by
  have hhead : (scalars s).head? ≠ some 0xFEFF := by
    rw [scalars_of_isAscii h]
    cases s with
    | nil => simp
    | cons c s =>
        rw [isAscii, List.all_cons, Bool.and_eq_true, decide_eq_true_eq] at h
        simp only [List.map_cons, List.head?_cons, ne_eq, Option.some.injEq]
        omega
  rw [ascii_eq h, decodeString_utf8Encode hhead]
  exact flatMap_units_scalars (wellFormed_of_isAscii h)

lemma ascii_append (s t : Str) : ascii (s ++ t) = ascii s ++ ascii t := List.map_append

lemma isAscii_append {s t : Str} : isAscii (s ++ t) = (isAscii s && isAscii t) := List.all_append

lemma isAscii_of_octal {s : Str} (h : ∀ c ∈ s, isOctal c = true) : isAscii s = true := by
  rw [isAscii, List.all_eq_true]
  intro c hc
  have := h c hc
  rw [isOctal, Bool.and_eq_true, decide_eq_true_eq, decide_eq_true_eq] at this
  rw [decide_eq_true_eq]
  omega

/-! ### Numeric fields -/

lemma padStart_octal {s : Str} (h : ∀ c ∈ s, isOctal c = true) (n : ℕ) :
    ∀ c ∈ padStart s n, isOctal c = true := by
  intro c hc
  rcases List.mem_append.mp hc with hc | hc
  · rw [(List.mem_replicate.mp hc).2]
    rfl
  · exact h c hc

lemma readOctal_padStart (s : Str) (n : ℕ) : readOctal (padStart s n) = readOctal s := by
  have hzero : ∀ k, readOctal (List.replicate k 48) = 0 := by
    intro k
    induction k with
    | zero => rfl
    | succ k ih =>
        rw [List.replicate_succ', readOctal_append, ih]
        rfl
  rw [padStart, readOctal_append, hzero, Nat.zero_mul, Nat.zero_add]

lemma length_padStart {s : Str} {n : ℕ} (h : s.length ≤ n) : (padStart s n).length = n := by
  rw [padStart, List.length_append, List.length_replicate]
  omega

/-- A blank at the end is trimmed. -/
lemma trim_append_blank {s : Str} (hne : s ≠ []) (h : ∀ c ∈ s, isBlank c = false) :
    trim (s ++ [32]) = s := by
  have hdrop : ∀ l : Str, l ≠ [] → (∀ c ∈ l, isBlank c = false) → ∀ t, (l ++ t).dropWhile isBlank
      = l ++ t := by
    intro l hl hb t
    cases l with
    | nil => exact absurd rfl hl
    | cons c l =>
        rw [List.cons_append, List.dropWhile_cons_of_neg]
        rw [hb c List.mem_cons_self]
        simp
  have hrev : ∀ c ∈ s.reverse, isBlank c = false := fun c hc => h c (List.mem_reverse.mp hc)
  have hback := hdrop s.reverse (by simpa using hne) hrev []
  rw [List.append_nil] at hback
  rw [trim, hdrop s hne h, List.reverse_append, List.reverse_singleton, List.singleton_append,
    List.dropWhile_cons_of_pos (by rfl), hback, List.reverse_reverse]

/-- Octal digits with a NUL, or a NUL and a blank, behind them are read as their number. -/
lemma parseNumeric_octal {s : Str} (hne : s ≠ []) (hs : ∀ c ∈ s, isOctal c = true)
    (hlt : readOctal s < 2 ^ 53) {tail : Str} (htail : tail = [0] ∨ tail = [0, 32]) :
    parseNumeric (ascii (s ++ tail)) = .ok (readOctal s) := by
  have hascii : isAscii (s ++ tail) = true := by
    rw [isAscii_append, isAscii_of_octal hs, Bool.true_and]
    rcases htail with rfl | rfl <;> rfl
  have hblank : ∀ c ∈ s, isBlank c = false := fun c hc => isBlank_of_isOctal (hs c hc)
  have hblank' : ∀ c ∈ s ++ [0], isBlank c = false := by
    intro c hc
    rcases List.mem_append.mp hc with hc | hc
    · exact hblank c hc
    · rw [List.mem_singleton.mp hc]
      rfl
  have htrim : trim (s ++ tail) = s ++ [0] := by
    rcases htail with rfl | rfl
    · exact trim_eq_self hblank'
    · rw [show s ++ [0, 32] = (s ++ [0]) ++ [32] by simp]
      exact trim_append_blank (by simp) hblank'
  have hstrip : stripNuls (s ++ [0]) = s := by
    have hlast : s.reverse.dropWhile (fun c => c = 0) = s.reverse := by
      cases hr : s.reverse with
      | nil => rfl
      | cons c l =>
          have hc : c ∈ s := List.mem_reverse.mp (hr ▸ List.mem_cons_self)
          rw [List.dropWhile_cons_of_neg]
          rintro h
          obtain rfl : c = 0 := by simpa using h
          exact absurd (hs 0 hc) (by decide)
    rw [stripNuls, List.reverse_append, List.reverse_singleton, List.singleton_append,
      List.dropWhile_cons_of_pos (by rfl), hlast, List.reverse_reverse]
  have hfield : parseNumeric.octalField (ascii (s ++ tail)) = .ok (readOctal s) := by
    have hnot : ¬ ((2 ^ 53 - 1 : ℤ) < (readOctal s : ℤ) ∨ (readOctal s : ℤ) < 0) := by
      push_neg
      have hlt' : (readOctal s : ℤ) < 2 ^ 53 := by exact_mod_cast hlt
      constructor <;> omega
    rw [parseNumeric.octalField, decodeString_ascii hascii, htrim, hstrip, trim_eq_self hblank]
    dsimp only
    rw [if_neg hne, parseOctal_of_octal hne hs]
    dsimp only
    rw [if_neg hnot, Int.toNat_natCast]
  cases s with
  | nil => exact absurd rfl hne
  | cons c s =>
      have hc : ¬ 128 ≤ (UInt8.ofNat c.toNat).toNat := by
        have := hs c List.mem_cons_self
        rw [isOctal, Bool.and_eq_true, decide_eq_true_eq, decide_eq_true_eq] at this
        rw [toNat_ofNat_byte (by omega)]
        omega
      rw [parseNumeric.eq_def]
      change (if 128 ≤ (UInt8.ofNat c.toNat).toNat then _ else _) = _
      rw [if_neg hc]
      exact hfield

/-- A numeric field as text: its digits, cut to the field. -/
lemma octalField_eq (value length : ℕ) : octalField value length
    = ascii ((padStart (octal value) (length - 1)).take (length - 1) ++ [0]) := by
  rw [octalField, ascii_append, ascii, ← List.map_take]
  rfl

lemma length_octalField (value : ℕ) {length : ℕ} (h : 0 < length) :
    (octalField value length).length = length := by
  have hlen : length - 1 ≤ (padStart (octal value) (length - 1)).length := by
    rw [padStart, List.length_append, List.length_replicate]
    omega
  rw [octalField_eq, ascii, List.length_map, List.length_append, List.length_take,
    List.length_singleton, Nat.min_eq_left hlen]
  omega

/-- A size field: read back where it fits, else something smaller. -/
lemma parseNumeric_octalField (value : ℕ) : ∃ v, parseNumeric (octalField value 12) = .ok v
    ∧ v < 8 ^ 11 ∧ (value < 8 ^ 11 → v = value) ∧ (8 ^ 11 ≤ value → 0 < v) := by
  have hlen : 11 ≤ (padStart (octal value) 11).length := by
    rw [padStart, List.length_append, List.length_replicate]
    omega
  have hoct : ∀ c ∈ (padStart (octal value) 11).take 11, isOctal c = true := fun c hc =>
    padStart_octal (fun c hc => isOctal_of_mem_octal hc) 11 c (List.mem_of_mem_take hc)
  have hlt : readOctal ((padStart (octal value) 11).take 11) < 8 ^ 11 := by
    have := readOctal_lt hoct
    rwa [List.length_take, Nat.min_eq_left hlen] at this
  have hne : (padStart (octal value) 11).take 11 ≠ [] := by
    refine List.ne_nil_of_length_pos ?_
    rw [List.length_take]
    omega
  refine ⟨_, ?_, hlt, fun hfit => ?_, fun hlong => ?_⟩
  · rw [octalField_eq]
    exact parseNumeric_octal hne hoct (hlt.trans (by norm_num)) (Or.inl rfl)
  · have hfits : (octal value).length ≤ 11 := (length_octal_le (by norm_num)).mpr hfit
    rw [List.take_of_length_le (length_padStart hfits).le, readOctal_padStart, readOctal_octal]
  · -- the first digit of what is cut off stays
    have hlong' : ¬ (octal value).length ≤ 11 := fun hle =>
      absurd ((length_octal_le (by norm_num)).mp hle) (not_lt.mpr hlong)
    have hpad : padStart (octal value) 11 = octal value := by
      rw [padStart, Nat.sub_eq_zero_of_le (by omega)]
      rfl
    obtain ⟨c, s, hcs, hc⟩ := octal_head (show value ≠ 0 by omega)
    have hsplit : readOctal (c :: s.take 10) = readOctal [c] * 8 ^ (s.take 10).length
        + readOctal (s.take 10) := readOctal_append [c] (s.take 10)
    have hone : readOctal [c] = digitVal c := by simp [readOctal]
    rw [hpad, hcs, List.take_succ_cons, hsplit, hone]
    have hpos : 0 < digitVal c * 8 ^ (s.take 10).length :=
      Nat.mul_pos (Nat.pos_of_ne_zero hc) (by positivity)
    omega

/-! ### Fields -/

section Fields

variable (name pre : Str) (size : ℕ) (typeflag : UInt8)

/-- The writes of a header before its checksum. -/
def headerWrites : List (ℕ × Bytes) :=
  [(0, (utf8Encode name).take 100), (100, octalField 0o644 8), (108, octalField 0 8),
    (116, octalField 0 8), (124, octalField size 12), (136, octalField 0 12),
    (148, List.replicate 8 0x20), (156, [typeflag]), (257, (utf8Encode (js "ustar")).take 6),
    (263, (utf8Encode (js "00")).take 2), (345, (utf8Encode pre).take 155)]

lemma headerWrites_fit : ∀ w ∈ headerWrites name pre size typeflag,
    w.1 + w.2.length ≤ (zeros BLOCK).length := by
  intro w hw
  have h8 : ∀ v, (octalField v 8).length = 8 := fun v => length_octalField v (by norm_num)
  have h12 : ∀ v, (octalField v 12).length = 12 := fun v => length_octalField v (by norm_num)
  simp only [headerWrites, List.mem_cons, List.not_mem_nil, or_false] at hw
  rw [zeros, List.length_replicate, BLOCK]
  rcases hw with rfl | rfl | rfl | rfl | rfl | rfl | rfl | rfl | rfl | rfl | rfl <;>
    simp only [h8, h12, List.length_take, List.length_replicate, List.length_singleton] <;> omega

lemma headerFields_eq : headerFields name pre size typeflag
    = writeAll (zeros BLOCK) (headerWrites name pre size typeflag) := by
  cases pre with
  | nil =>
      have hfit : 345 ≤ (writeAll (zeros BLOCK)
          ((headerWrites name [] size typeflag).take 10)).length := by
        rw [length_writeAll fun w hw =>
          headerWrites_fit name [] size typeflag w (List.mem_of_mem_take hw)]
        rw [zeros, List.length_replicate, BLOCK]
        omega
      exact (put_nil hfit).symm
  | cons c pre => rfl

lemma length_headerFields : (headerFields name pre size typeflag).length = 512 := by
  rw [headerFields_eq, length_writeAll (headerWrites_fit name pre size typeflag), zeros,
    List.length_replicate, BLOCK]

variable {name pre size typeflag}

lemma headerWrites_apart : Apart (headerWrites name pre size typeflag) := by
  have h8 : ∀ v, (octalField v 8).length = 8 := fun v => length_octalField v (by norm_num)
  have h12 : ∀ v, (octalField v 12).length = 12 := fun v => length_octalField v (by norm_num)
  simp only [Apart, headerWrites, List.pairwise_cons, List.mem_cons, List.not_mem_nil, or_false,
    forall_eq_or_imp, forall_eq, h8, h12, List.length_take, List.length_replicate,
    List.length_singleton, List.Pairwise.nil, false_implies, implies_true, and_true]
  omega

/-- A field that one of the writes fills, up to the next one. -/
lemma field_headerFields (ws₁ ws₂ : List (ℕ × Bytes)) {off n : ℕ} {x : Bytes}
    (h : headerWrites name pre size typeflag = ws₁ ++ (off, x) :: ws₂) (hx : x.length ≤ n)
    (hn : off + n ≤ 512) (hnext : ∀ w ∈ ws₂.head?, off + n ≤ w.1) :
    field (headerFields name pre size typeflag) off n = x ++ zeros (n - x.length) := by
  have hfit := headerWrites_fit name pre size typeflag
  have hapart : Apart (headerWrites name pre size typeflag) := headerWrites_apart
  rw [h] at hfit hapart
  rw [headerFields_eq, h, field_writeAll_of_apart ws₁ hfit hapart hx hnext, field, zeros,
    List.drop_replicate, List.take_replicate, zeros, BLOCK]
  congr 2
  omega

lemma name_headerFields : field (headerFields name pre size typeflag) 0 100
    = (utf8Encode name).take 100 ++ zeros (100 - ((utf8Encode name).take 100).length) := by
  refine field_headerFields [] _ rfl ?_ (by norm_num) fun w hw => ?_
  · rw [List.length_take]
    omega
  · obtain rfl := Option.some.inj hw
    norm_num

lemma size_headerFields : field (headerFields name pre size typeflag) 124 12
    = octalField size 12 := by
  have hlen : (octalField size 12).length = 12 := length_octalField size (by norm_num)
  rw [field_headerFields ((headerWrites name pre size typeflag).take 4) _ rfl hlen.le
    (by norm_num) fun w hw => ?_, hlen]
  · exact List.append_nil _
  · obtain rfl := Option.some.inj hw
    norm_num

/-- The checksum is spaces before it is written. -/
lemma checksum_headerFields : field (headerFields name pre size typeflag) 148 8
    = List.replicate 8 0x20 := by
  refine field_headerFields ((headerWrites name pre size typeflag).take 6) _ rfl (le_refl 8)
    (by norm_num) fun w hw => ?_
  obtain rfl := Option.some.inj hw
  norm_num

lemma typeflag_headerFields : field (headerFields name pre size typeflag) 156 1 = [typeflag] := by
  refine field_headerFields ((headerWrites name pre size typeflag).take 7) _ rfl (le_refl 1)
    (by norm_num) fun w hw => ?_
  obtain rfl := Option.some.inj hw
  norm_num

lemma magic_headerFields : field (headerFields name pre size typeflag) 257 6
    = (utf8Encode (js "ustar")).take 6 ++ zeros 1 := by
  refine field_headerFields ((headerWrites name pre size typeflag).take 8) _ rfl (by decide)
    (by norm_num) fun w hw => ?_
  obtain rfl := Option.some.inj hw
  norm_num

lemma prefix_headerFields : field (headerFields name pre size typeflag) 345 155
    = (utf8Encode pre).take 155 ++ zeros (155 - ((utf8Encode pre).take 155).length) := by
  refine field_headerFields ((headerWrites name pre size typeflag).take 10) _ rfl ?_ (by norm_num)
    fun w hw => nomatch hw
  rw [List.length_take]
  omega

/-! ### Checksum -/

/-- The sum that the checksum states. -/
def fieldsSum (name pre : Str) (size : ℕ) (typeflag : UInt8) : ℕ :=
  ((headerFields name pre size typeflag).map UInt8.toNat).sum

lemma fieldsSum_lt : fieldsSum name pre size typeflag < 8 ^ 6 := by
  have hle := List.sum_le_card_nsmul ((headerFields name pre size typeflag).map UInt8.toNat) 255
    fun x hx => by
      obtain ⟨b, -, rfl⟩ := List.mem_map.mp hx
      exact Nat.le_of_lt_succ b.toNat_lt
  rw [List.length_map, length_headerFields, smul_eq_mul] at hle
  rw [fieldsSum]
  omega

/-- The digits of the checksum. -/
def sumDigits (name pre : Str) (size : ℕ) (typeflag : UInt8) : Str :=
  padStart (octal (fieldsSum name pre size typeflag)) 6

lemma isOctal_sumDigits : ∀ c ∈ sumDigits name pre size typeflag, isOctal c = true :=
  padStart_octal (fun _ hc => isOctal_of_mem_octal hc) 6

lemma length_sumDigits : (sumDigits name pre size typeflag).length = 6 :=
  length_padStart ((length_octal_le (by norm_num)).mpr fieldsSum_lt)

/-- The writes of the checksum field. -/
def checksumWrites (name pre : Str) (size : ℕ) (typeflag : UInt8) : List (ℕ × Bytes) :=
  [(148, ascii (sumDigits name pre size typeflag)), (154, [0]), (155, [0x20])]

lemma length_ascii_sumDigits : (ascii (sumDigits name pre size typeflag)).length = 6 := by
  rw [ascii, List.length_map, length_sumDigits]

lemma writeHeader_eq : writeHeader name pre size typeflag
    = writeAll (headerFields name pre size typeflag) (checksumWrites name pre size typeflag) := by
  have htext : (utf8Encode (sumDigits name pre size typeflag)).take 6
      = ascii (sumDigits name pre size typeflag) := by
    rw [← ascii_eq (isAscii_of_octal isOctal_sumDigits),
      List.take_of_length_le length_ascii_sumDigits.le]
  rw [writeAll, checksumWrites, ← htext]
  rfl

lemma checksumWrites_fit : ∀ w ∈ checksumWrites name pre size typeflag,
    w.1 + w.2.length ≤ (headerFields name pre size typeflag).length := by
  intro w hw
  simp only [checksumWrites, List.mem_cons, List.not_mem_nil, or_false] at hw
  rw [length_headerFields]
  rcases hw with rfl | rfl | rfl <;>
    simp only [length_ascii_sumDigits, List.length_singleton] <;> norm_num

@[simp] lemma length_writeHeader : (writeHeader name pre size typeflag).length = 512 := by
  rw [writeHeader_eq, length_writeAll checksumWrites_fit, length_headerFields]

/-- Fields off the checksum are those written first. -/
lemma field_writeHeader {off n : ℕ} (h : off + n ≤ 148 ∨ 156 ≤ off) :
    field (writeHeader name pre size typeflag) off n
      = field (headerFields name pre size typeflag) off n := by
  rw [writeHeader_eq, field_writeAll checksumWrites_fit]
  intro w hw
  simp only [checksumWrites, List.mem_cons, List.not_mem_nil, or_false] at hw
  rcases hw with rfl | rfl | rfl <;>
    simp only [length_ascii_sumDigits, List.length_singleton] <;> omega

lemma checksum_writeHeader : field (writeHeader name pre size typeflag) 148 8
    = ascii (sumDigits name pre size typeflag ++ [0, 32]) := by
  have hfit : ∀ w ∈ checksumWrites name pre size typeflag,
      w.1 + w.2.length ≤ (headerFields name pre size typeflag).length := checksumWrites_fit
  have hapart : Apart (checksumWrites name pre size typeflag) := by
    simp only [Apart, checksumWrites, List.pairwise_cons, List.mem_cons, List.not_mem_nil, or_false,
      forall_eq_or_imp, forall_eq, length_ascii_sumDigits, List.length_singleton,
      List.Pairwise.nil, false_implies, implies_true, and_true]
    norm_num
  have hdigits : field (writeHeader name pre size typeflag) 148 6
      = ascii (sumDigits name pre size typeflag) := by
    rw [writeHeader_eq]
    refine (field_writeAll_of_apart [] hfit hapart length_ascii_sumDigits.le
      fun w hw => ?_).trans ?_
    · obtain rfl := Option.some.inj hw
      norm_num
    · rw [length_ascii_sumDigits]
      exact List.append_nil _
  have hnul : field (writeHeader name pre size typeflag) 154 1 = [0] := by
    rw [writeHeader_eq]
    refine field_writeAll_of_apart ((checksumWrites name pre size typeflag).take 1) hfit
      hapart (le_refl 1) fun w hw => ?_
    obtain rfl := Option.some.inj hw
    norm_num
  have hblank : field (writeHeader name pre size typeflag) 155 1 = [0x20] := by
    rw [writeHeader_eq]
    exact field_writeAll_of_apart ((checksumWrites name pre size typeflag).take 2) hfit
      hapart (le_refl 1) fun w hw => by cases hw
  rw [show (8 : ℕ) = 6 + (1 + 1) from rfl, field_append, field_append, hdigits, hnul, hblank,
    ascii_append]
  rfl

/-- A block is its fields before, in and behind the checksum. -/
lemma block_eq {block : Bytes} (h : block.length = 512) :
    block = field block 0 148 ++ (field block 148 8 ++ field block 156 356) := by
  rw [← field_append block 148 8 356, ← field_append block 0 148 364, field, List.drop_zero,
    List.take_of_length_le (by omega)]

/-- A block whose checksum field is not read. -/
lemma headerSum_eq {block : Bytes} (h : block.length = 512) :
    headerSum block = ((field block 0 148).map UInt8.toNat).sum + 8 * 0x20
      + ((field block 156 356).map UInt8.toNat).sum := by
  rw [headerSum, field.eq_def block 156 356, List.take_of_length_le (by rw [List.length_drop]; omega)]

/-- The checksum of a written header fits. -/
theorem verifyChecksum_writeHeader : verifyChecksum (writeHeader name pre size typeflag) = .ok () := by
  have hsum : headerSum (writeHeader name pre size typeflag)
      = fieldsSum name pre size typeflag := by
    rw [headerSum_eq length_writeHeader, field_writeHeader (Or.inl le_rfl),
      field_writeHeader (Or.inr le_rfl), fieldsSum]
    conv_rhs => rw [block_eq (length_headerFields name pre size typeflag), checksum_headerFields]
    simp only [List.map_append, List.sum_append, List.map_replicate, List.sum_replicate]
    rw [← Nat.add_assoc]
    rfl
  have hread : readOctal (sumDigits name pre size typeflag) = fieldsSum name pre size typeflag := by
    rw [sumDigits, readOctal_padStart, readOctal_octal]
  have hne : sumDigits name pre size typeflag ≠ [] := by
    refine List.ne_nil_of_length_pos ?_
    rw [length_sumDigits]
    norm_num
  have hlt : readOctal (sumDigits name pre size typeflag) < 2 ^ 53 := by
    rw [hread]
    exact fieldsSum_lt.trans (by norm_num)
  rw [verifyChecksum, checksum_writeHeader, parseNumeric_octal hne isOctal_sumDigits hlt (Or.inr rfl),
    ok_bind, hread, if_neg (not_not.mpr hsum)]

/-! ### Reading a header back -/

/-- The text that a field of `n` bytes keeps. -/
def fieldText (s : Str) (n : ℕ) : Str :=
  decodeString (((utf8Encode s).take n).takeWhile (· ≠ 0))

lemma takeWhile_zeros (x : Bytes) (k : ℕ) :
    (x ++ zeros k).takeWhile (· ≠ 0) = x.takeWhile (· ≠ 0) := by
  induction x with
  | nil =>
      cases k with
      | zero => rfl
      | succ k => rfl
  | cons b x ih =>
      rw [List.cons_append, List.takeWhile_cons, List.takeWhile_cons, ih]

/-- The name that a header gives. -/
def storedName (name pre : Str) : Str :=
  if fieldText pre 155 ≠ [] then fieldText pre 155 ++ 47 :: fieldText name 100
  else fieldText name 100

/-- **A written header is read back**: its type, its name as far as the fields keep it, and its
size where it fits. -/
theorem parseHeader_writeHeader (name pre : Str) (size : ℕ) (typeflag : UInt8) :
    ∃ v, parseHeader (writeHeader name pre size typeflag)
        = .ok ⟨storedName name pre, v, [UInt16.ofNat typeflag.toNat]⟩
      ∧ v < 8 ^ 11 ∧ (size < 8 ^ 11 → v = size) ∧ (8 ^ 11 ≤ size → 0 < v) := by
  obtain ⟨v, hv, hlt, hfit, hlong⟩ := parseNumeric_octalField size
  have htype : field (writeHeader name pre size typeflag) 156 1 = [typeflag] := by
    rw [field_writeHeader (Or.inr le_rfl), typeflag_headerFields]
  have hsize : field (writeHeader name pre size typeflag) 124 12 = octalField size 12 := by
    rw [field_writeHeader (Or.inl (by norm_num)), size_headerFields]
  have hname : decodeString (fieldBytes (writeHeader name pre size typeflag) 0 100)
      = fieldText name 100 := by
    rw [fieldBytes, field_writeHeader (Or.inl (by norm_num)), name_headerFields, takeWhile_zeros,
      fieldText]
  have hmagic : decodeString (fieldBytes (writeHeader name pre size typeflag) 257 6)
      = js "ustar" := by
    rw [fieldBytes, field_writeHeader (Or.inr (by norm_num)), magic_headerFields, takeWhile_zeros]
    decide
  have hpre : decodeString (fieldBytes (writeHeader name pre size typeflag) 345 155)
      = fieldText pre 155 := by
    rw [fieldBytes, field_writeHeader (Or.inr (by norm_num)), prefix_headerFields, takeWhile_zeros,
      fieldText]
  refine ⟨v, ?_, hlt, hfit, hlong⟩
  rw [parseHeader, verifyChecksum_writeHeader, ok_bind, hname, hmagic, hpre, hsize, htype, hv,
    storedName]
  simp only [ok_bind, true_and]
  rfl

/-- A header with a type is no end of an archive. -/
lemma isZeroBlock_writeHeader (h : typeflag ≠ 0) :
    isZeroBlock (writeHeader name pre size typeflag) = false := by
  have hmem : typeflag ∈ writeHeader name pre size typeflag := by
    have htype : field (writeHeader name pre size typeflag) 156 1 = [typeflag] := by
      rw [field_writeHeader (Or.inr le_rfl), typeflag_headerFields]
    have hfield : typeflag ∈ field (writeHeader name pre size typeflag) 156 1 :=
      htype ▸ List.mem_singleton_self typeflag
    exact List.mem_of_mem_drop (List.mem_of_mem_take hfield)
  rw [isZeroBlock, Bool.eq_false_iff]
  intro hall
  exact h (of_decide_eq_true (List.all_eq_true.mp hall typeflag hmem))

end Fields

end Tar

end BitGraph
