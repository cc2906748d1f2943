import BitGraph.Tar.Header

/-!
Paths in headers and in PAX records.

* **Texts.** `recode` writes a text in UTF-8 and reads it; `recode_eq_self_iff` says when it stays.
* **Headers.** A path stands in the name field, in prefix and name, or in neither; `storedPath` is
  what the two fields give back. `storedPath_eq_iff` says when that is the path.
* **Records.** `parsePaxRecords_paxPathRecord` for a record that is there whole, and
  `parsePaxRecords_cut` for one that was cut off.
-/

namespace BitGraph

open Js Layout

namespace Tar

/-! ### Texts -/

/-- A text written in UTF-8 and read again. -/
def recode (s : Str) : Str := decodeString (utf8Encode s)

/-- What is spelled by a text's scalar values: the text with U+FFFD for its lone surrogates. -/
def respell (s : Str) : Str := (scalars s).flatMap units

lemma wellFormed_respell (s : Str) : wellFormed (respell s) = true :=
  wellFormed_flatMap_units fun _ h => isScalar_of_mem_scalars h

lemma respell_eq_self_iff {s : Str} : respell s = s ↔ wellFormed s = true :=
  ⟨fun h => h ▸ wellFormed_respell s, flatMap_units_scalars⟩

lemma recode_eq_respell {s : Str} (h : s.head? ≠ some 0xFEFF) : recode s = respell s :=
  decodeString_utf8Encode fun hbom => h (head_scalars_bom.mp hbom)

/-- A text with a byte order mark in front loses it. -/
lemma recode_bom {s : Str} (h : s.head? = some 0xFEFF) : recode s = respell s.tail := by
  cases s with
  | nil => nomatch h
  | cons c s =>
      obtain rfl : c = 0xFEFF := Option.some.inj h
      exact decodeString_bom s

lemma wellFormed_recode (s : Str) : wellFormed (recode s) = true := by
  by_cases h : s.head? = some 0xFEFF
  · rw [recode_bom h]
    exact wellFormed_respell _
  · rw [recode_eq_respell h]
    exact wellFormed_respell s

/-- The length tells whether a byte order mark was lost. -/
lemma length_recode (s : Str) :
    (recode s).length = s.length - if s.head? = some 0xFEFF then 1 else 0 := by
  split
  · next h => rw [recode_bom h, respell, length_flatMap_units_scalars, List.length_tail]
  · next h => rw [recode_eq_respell h, respell, length_flatMap_units_scalars, Nat.sub_zero]

lemma recode_eq_self_iff {s : Str} :
    recode s = s ↔ wellFormed s = true ∧ s.head? ≠ some 0xFEFF := by
  constructor
  · intro h
    refine ⟨h ▸ wellFormed_recode s, fun hbom => ?_⟩
    have hlen := length_recode s
    rw [h, if_pos hbom] at hlen
    cases s with
    | nil => nomatch hbom
    | cons c s =>
        rw [List.length_cons] at hlen
        omega
  · rintro ⟨hw, hbom⟩
    rw [recode_eq_respell hbom, respell_eq_self_iff.mpr hw]

lemma scalars_append_slash (s t : Str) : scalars (s ++ 47 :: t) = scalars s ++ scalars (47 :: t) := by
  refine scalars_append fun c _ d hd => ?_
  obtain rfl : 47 = d := Option.some.inj hd
  rw [Bool.and_eq_false_iff]
  exact Or.inr (by decide)

lemma scalars_slash (t : Str) : scalars (47 :: t) = 47 :: scalars t :=
  @scalars_units 47 (Or.inl (by norm_num)) t

lemma wellFormed_slash (s t : Str) :
    wellFormed (s ++ 47 :: t) = (wellFormed s && wellFormed t) := by
  rw [wellFormed_append_eq fun c _ d hd => ?_]
  · congr 1
    exact @wellFormed_units_append 47 (Or.inl (by norm_num)) t
  · obtain rfl : 47 = d := Option.some.inj hd
    rw [Bool.and_eq_false_iff]
    exact Or.inr (by decide)

lemma utf8Encode_slash (s t : Str) :
    utf8Encode (s ++ 47 :: t) = utf8Encode s ++ 47 :: utf8Encode t := by
  rw [utf8Encode, scalars_append_slash, scalars_slash, List.flatMap_append, List.flatMap_cons]
  rfl

/-! ### Paths in headers -/

lemma fieldText_eq {s : Str} {n : ℕ} (h0 : (0 : UInt16) ∉ s) (hn : (utf8Encode s).length ≤ n) :
    fieldText s n = recode s := by
  rw [fieldText, List.take_of_length_le hn, recode]
  congr 1
  refine List.takeWhile_eq_self_iff.mpr fun b hb => ?_
  have hne : b ≠ 0 := fun h => zero_notMem_utf8Encode h0 (h ▸ hb)
  simpa using hne

/-- A split of a path: two parts about a slash that fit. -/
lemma splitFrom_spec {path pre name : Str} {pathLen i : ℕ}
    (h : splitFrom path pathLen i = some (pre, name)) :
    path = pre ++ 47 :: name ∧ pre ≠ [] ∧ (utf8Encode pre).length ≤ 155
      ∧ pathLen - (utf8Encode pre).length - 1 ≤ 100 := by
  induction i with
  | zero => exact nomatch h
  | succ i ih =>
      rw [splitFrom] at h
      split at h
      · next hfit =>
          obtain ⟨hslash, -, hname, hpre⟩ := hfit
          obtain ⟨rfl, rfl⟩ := Prod.mk.inj (Option.some.inj h)
          obtain ⟨hlt, hget⟩ := List.getElem?_eq_some_iff.mp hslash
          refine ⟨?_, ?_, hpre, hname⟩
          · rw [← hget, List.getElem_cons_drop, List.take_append_drop]
          · refine List.ne_nil_of_length_pos ?_
            rw [List.length_take]
            omega
      · exact ih h

lemma splitUstarPath_spec {path pre name : Str} (h : splitUstarPath path = some (pre, name)) :
    path = pre ++ 47 :: name ∧ pre ≠ [] ∧ (utf8Encode pre).length ≤ 155
      ∧ (utf8Encode name).length ≤ 100 := by
  obtain ⟨hpath, hne, hpre, hname⟩ := splitFrom_spec h
  refine ⟨hpath, hne, hpre, ?_⟩
  rw [hpath, utf8Encode_slash, List.length_append, List.length_cons] at hname
  omega

/-- The texts that stand in the fields of a header for a path: none for a PAX record. -/
def headerTexts (path : Str) : List Str :=
  if (utf8Encode path).length ≤ 100 then [path]
  else match splitUstarPath path with
    | some (pre, name) => [pre, name]
    | none => []

/-- A short path comes back when it is kept in UTF-8. -/
lemma storedName_short {path : Str} (h0 : (0 : UInt16) ∉ path)
    (hlen : (utf8Encode path).length ≤ 100) : storedName path [] = recode path := by
  have hnil : fieldText [] 155 = [] := rfl
  rw [storedName, hnil, if_neg (not_not.mpr rfl), fieldText_eq h0 hlen]

/-- A split path comes back when both its parts are kept. -/
lemma storedName_split_iff {path pre name : Str} (h0 : (0 : UInt16) ∉ path)
    (h : splitUstarPath path = some (pre, name)) :
    storedName name pre = path
      ↔ wellFormed path = true ∧ pre.head? ≠ some 0xFEFF ∧ name.head? ≠ some 0xFEFF := by
  obtain ⟨rfl, hne, hpre, hname⟩ := splitUstarPath_spec h
  have hpre0 : (0 : UInt16) ∉ pre := fun hm => h0 (List.mem_append_left _ hm)
  have hname0 : (0 : UInt16) ∉ name := fun hm =>
    h0 (List.mem_append_right _ (List.mem_cons_of_mem _ hm))
  have hlen₁ := length_recode pre
  have hlen₂ := length_recode name
  rw [storedName, fieldText_eq hpre0 hpre, fieldText_eq hname0 hname]
  constructor
  · intro heq
    have hboth : recode pre = pre ∧ recode name = name := by
      -- the fields give no more code units than the parts have
      have hlen := congrArg List.length heq
      split at heq
      · rw [if_pos ‹_›, List.length_append, List.length_append, List.length_cons,
          List.length_cons] at hlen
        obtain ⟨h₁, h₂⟩ := List.append_inj heq (by omega)
        exact ⟨h₁, List.tail_eq_of_cons_eq h₂⟩
      · rw [if_neg ‹_›, List.length_append, List.length_cons] at hlen
        omega
    obtain ⟨⟨hw₁, hb₁⟩, hw₂, hb₂⟩ :=
      And.intro (recode_eq_self_iff.mp hboth.1) (recode_eq_self_iff.mp hboth.2)
    exact ⟨by rw [wellFormed_slash, hw₁, hw₂]; rfl, hb₁, hb₂⟩
  · rintro ⟨hw, hb₁, hb₂⟩
    rw [wellFormed_slash, Bool.and_eq_true] at hw
    rw [recode_eq_self_iff.mpr ⟨hw.1, hb₁⟩, recode_eq_self_iff.mpr ⟨hw.2, hb₂⟩, if_pos hne]

/-! ### PAX records -/

/-- What a record says besides its length. -/
def recordBase (path : Str) : Bytes := utf8Encode (js " path=" ++ path ++ [10])

/-- The length of a record, as its digits say it. -/
def statedLength (path : Str) : ℕ :=
  paxLength (recordBase path).length ((recordBase path).length + 2) ((recordBase path).length + 1)

lemma paxPathRecord_eq (path : Str) :
    paxPathRecord path = ascii (decimal (statedLength path)) ++ recordBase path := rfl

lemma length_decimal_mono {n m : ℕ} (h : n ≤ m) : (decimal n).length ≤ (decimal m).length := by
  by_contra hlt
  rw [not_le] at hlt
  have hpos : 0 < (decimal m).length := List.length_pos_of_ne_nil (decimal_ne_nil m)
  have hm : m < 10 ^ (decimal m).length := by
    by_contra hge
    exact lt_irrefl _ (lt_length_decimal (not_lt.mp hge))
  exact absurd (length_decimal_le hpos (h.trans_lt hm)) (not_le.mpr hlt)

/-- A length has fewer digits than it counts bytes. -/
lemma length_decimal_le_add_two {base n : ℕ} (h : n ≤ 2 * base + 2) :
    (decimal n).length ≤ base + 2 := by
  have hpow : base + 1 < 10 ^ (base + 1) := Nat.lt_pow_self (by norm_num)
  refine length_decimal_le (by omega) ?_
  calc n ≤ 2 * base + 2 := h
    _ < 10 ^ (base + 1) * 10 := by omega
    _ = 10 ^ (base + 2) := (pow_succ 10 (base + 1)).symm

/-- The loop ends in a length that counts itself; the lengths it tries grow. -/
lemma paxLength_fixpoint {base : ℕ} : ∀ {fuel length : ℕ},
    length ≤ (decimal length).length + base → length ≤ 2 * base + 2 →
    2 * base + 2 < fuel + length →
    (decimal (paxLength base fuel length)).length + base = paxLength base fuel length
  | 0, length, _, hle, hfuel => by omega
  | fuel + 1, length, hup, hle, hfuel => by
      have hdigits := length_decimal_le_add_two hle
      have hmono := length_decimal_mono hup
      rw [paxLength]
      split
      · next h => exact h
      · exact paxLength_fixpoint (by omega) (by omega) (by omega)

/-- A length that `k` digits can state is stated so. -/
lemma paxLength_le {base k : ℕ} (hk : 0 < k) (h : base + k < 10 ^ k) :
    ∀ {fuel length : ℕ}, length ≤ base + k → paxLength base fuel length ≤ base + k
  | 0, _, hle => hle
  | fuel + 1, length, hle => by
      have hdigits : (decimal length).length ≤ k := length_decimal_le hk (by omega)
      rw [paxLength]
      split
      · exact hle
      · exact paxLength_le hk h (by omega)

lemma statedLength_eq (path : Str) :
    (decimal (statedLength path)).length + (recordBase path).length = statedLength path := by
  have hpos : ∀ n, 0 < (decimal n).length := fun n => List.length_pos_of_ne_nil (decimal_ne_nil n)
  refine paxLength_fixpoint ?_ (by omega) (by omega)
  have := hpos ((recordBase path).length + 1)
  omega

lemma length_paxPathRecord (path : Str) : (paxPathRecord path).length = statedLength path := by
  rw [paxPathRecord_eq, List.length_append, ascii, List.length_map, statedLength_eq]

lemma recordBase_eq (path : Str) :
    recordBase path = 0x20 :: (utf8Encode (js "path=" ++ path) ++ [0x0a]) := by
  have hblank : ∀ t : Str, utf8Encode (32 :: t) = 32 :: utf8Encode t := by
    intro t
    rw [utf8Encode, show (32 :: t : Str) = units 32 ++ t from rfl,
      scalars_units (Or.inl (by norm_num))]
    rfl
  have hline : ∀ t : Str, utf8Encode (t ++ [10]) = utf8Encode t ++ [10] := by
    intro t
    rw [utf8Encode, scalars_append fun c _ d hd => ?_, List.flatMap_append]
    · rfl
    · obtain rfl : 10 = d := Option.some.inj hd
      rw [Bool.and_eq_false_iff]
      exact Or.inr (by decide)
  rw [recordBase, ← hline, ← hblank]
  rfl

/-- The bound on a path whose record an octal field can size. -/
lemma statedLength_lt_iff (path : Str) :
    statedLength path < 8 ^ 11 ↔ (utf8Encode path).length + 17 < 8 ^ 11 := by
  have hbase : (recordBase path).length = (utf8Encode path).length + 7 := by
    have hkey : utf8Encode (js "path=" ++ path) = utf8Encode (js "path=") ++ utf8Encode path := by
      rw [utf8Encode, scalars_append fun c hc d _ => ?_, List.flatMap_append]
      · rfl
      · obtain rfl : 61 = c := Option.some.inj hc
        rfl
    have hlen : (utf8Encode (js "path=")).length = 5 := by decide
    rw [recordBase_eq, hkey, List.length_cons, List.length_append, List.length_append, hlen,
      List.length_singleton]
    omega
  have hfix := statedLength_eq path
  rw [hbase] at hfix
  constructor
  · intro h
    by_contra hge
    have hdigits := lt_length_decimal (n := statedLength path) (k := 9) (by omega)
    omega
  · intro h
    have hle : statedLength path ≤ (recordBase path).length + 10 :=
      paxLength_le (by norm_num) (by omega) (by omega)
    omega

/-! ### Reading a record -/

lemma ne_blank_of_mem_digits {n : ℕ} {b : UInt8} (h : b ∈ ascii (decimal n)) : b ≠ 0x20 := by
  obtain ⟨c, hc, rfl⟩ := List.mem_map.mp h
  have hdigit := isDigit_of_mem_decimal hc
  rw [isDigit, Bool.and_eq_true, decide_eq_true_eq, decide_eq_true_eq] at hdigit
  intro heq
  have hval := congrArg UInt8.toNat heq
  have h32 : (0x20 : UInt8).toNat = 32 := rfl
  rw [toNat_ofNat_byte (by omega), h32] at hval
  omega

lemma takeWhile_digits (n : ℕ) (t : Bytes) :
    (ascii (decimal n) ++ 0x20 :: t).takeWhile (· ≠ 0x20) = ascii (decimal n) := by
  rw [List.takeWhile_append_of_pos fun b hb => decide_eq_true (ne_blank_of_mem_digits hb)]
  exact List.append_nil _

lemma recordLength_decimal (n : ℕ) : recordLength (ascii (decimal n)) = (Number.ofNat n).toInt? := by
  have hascii : isAscii (decimal n) = true := by
    rw [isAscii, List.all_eq_true]
    intro c hc
    have := isDigit_of_mem_decimal hc
    rw [isDigit, Bool.and_eq_true, decide_eq_true_eq, decide_eq_true_eq] at this
    rw [decide_eq_true_eq]
    omega
  rw [recordLength, decodeString_ascii hascii, stringToNumber_decimal]

lemma recordEntry_path (value : Str) :
    recordEntry (js "path=" ++ value) = some (js "path", value) := by
  have hkey : (js "path=" ++ value).takeWhile (· ≠ 61) = js "path" := rfl
  rw [recordEntry, hkey, if_neg]
  · rfl
  · rw [List.length_append]
    have h4 : (js "path").length = 4 := rfl
    have h5 : (js "path=").length = 5 := rfl
    omega

lemma decodeString_path (path : Str) :
    decodeString (utf8Encode (js "path=" ++ path)) = js "path=" ++ respell path := by
  have hscalars : scalars (js "path=" ++ path) = scalars (js "path=") ++ scalars path := by
    refine scalars_append fun c hc d _ => ?_
    obtain rfl : 61 = c := Option.some.inj hc
    rfl
  have hhead : (scalars (js "path=" ++ path)).head? ≠ some 0xFEFF := by
    rw [hscalars, show scalars (js "path=") = 112 :: [97, 116, 104, 61] from rfl, List.cons_append,
      List.head?_cons]
    decide
  rw [decodeString_utf8Encode hhead, hscalars, List.flatMap_append]
  rfl

/-- A record that is there whole names its path. -/
lemma parsePaxRecords_paxPathRecord {path : Str} (h : statedLength path < 2 ^ 53) :
    parsePaxRecords (paxPathRecord path) = .ok [(js "path", respell path)] := by
  have hlen := length_paxPathRecord path
  have hfix := statedLength_eq path
  have hbase := recordBase_eq path
  have hdigits : (ascii (decimal (statedLength path))).length
      = (decimal (statedLength path)).length := List.length_map _
  have hrecord : paxPathRecord path = ascii (decimal (statedLength path))
      ++ 0x20 :: (utf8Encode (js "path=" ++ path) ++ [0x0a]) := by
    rw [paxPathRecord_eq, hbase]
  have hne : paxPathRecord path ≠ [] := by
    rw [hrecord]
    simp
  have htake : (paxPathRecord path).takeWhile (· ≠ 0x20) = ascii (decimal (statedLength path)) := by
    rw [hrecord, takeWhile_digits]
  have hlt : (decimal (statedLength path)).length < (paxPathRecord path).length := by
    rw [hbase, List.length_cons] at hfix
    omega
  have hall : (paxPathRecord path).take (statedLength path) = paxPathRecord path :=
    List.take_of_length_le hlen.le
  have hnone : (paxPathRecord path).drop (statedLength path) = [] := List.drop_eq_nil_of_le hlen.le
  have hentry : (paxPathRecord path).drop ((decimal (statedLength path)).length + 1)
      = utf8Encode (js "path=" ++ path) ++ [0x0a] := by
    rw [hrecord, ← hdigits, ← List.drop_drop, List.drop_left, List.drop_one, List.tail_cons]
  rw [parsePaxRecords, paxLoop, if_neg hne]
  dsimp only
  rw [htake, hdigits, if_neg (by omega), recordLength_decimal, toInt?_ofNat h]
  dsimp only
  rw [if_neg (by omega), Int.toNat_natCast, hall, hnone, hentry, List.getLast?_concat,
    if_neg (not_not.mpr rfl), List.dropLast_concat, decodeString_path, recordEntry_path]
  dsimp only
  cases (paxPathRecord path).length with
  | zero => rfl
  | succ n => rfl

/-- A record that is cut off is refused. -/
lemma parsePaxRecords_cut {path : Str} {k : ℕ} (hk : 0 < k) (hlt : k < 2 ^ 53)
    (hcut : k < statedLength path) :
    ∃ e, parsePaxRecords ((paxPathRecord path).take k) = .error e := by
  have hlen : ((paxPathRecord path).take k).length = k := by
    rw [List.length_take, length_paxPathRecord]
    omega
  have hne : (paxPathRecord path).take k ≠ [] := List.ne_nil_of_length_pos (by omega)
  have hdigits : (ascii (decimal (statedLength path))).length
      = (decimal (statedLength path)).length := List.length_map _
  have hrecord : paxPathRecord path = ascii (decimal (statedLength path))
      ++ 0x20 :: (utf8Encode (js "path=" ++ path) ++ [0x0a]) := by
    rw [paxPathRecord_eq, recordBase_eq]
  rw [parsePaxRecords, paxLoop, if_neg hne]
  dsimp only
  by_cases hspace : (((paxPathRecord path).take k).takeWhile (· ≠ 0x20)).length
      = ((paxPathRecord path).take k).length
  · rw [if_pos hspace]
    exact ⟨_, rfl⟩
  · -- the digits are all there, and say more than came
    have htake : ((paxPathRecord path).take k).takeWhile (· ≠ 0x20)
        = ascii (decimal (statedLength path)) := by
      have hk' : (decimal (statedLength path)).length < k := by
        by_contra hle
        refine hspace ?_
        rw [hrecord, List.take_append_of_le_length (by omega), List.takeWhile_eq_self_iff.mpr]
        exact fun b hb => decide_eq_true (ne_blank_of_mem_digits (List.mem_of_mem_take hb))
      rw [hrecord, List.take_append, List.take_of_length_le (by omega), hdigits]
      obtain ⟨j, hj⟩ : ∃ j, k - (decimal (statedLength path)).length = j + 1 :=
        ⟨k - (decimal (statedLength path)).length - 1, by omega⟩
      rw [hj, List.take_succ_cons, takeWhile_digits]
    rw [if_neg hspace, htake, recordLength_decimal]
    cases hint : (Number.ofNat (statedLength path)).toInt? with
    | none => exact ⟨_, rfl⟩
    | some m =>
        have hm : (k : ℤ) < m := by
          by_cases hsafe : statedLength path < 2 ^ 53
          · rw [toInt?_ofNat hsafe] at hint
            have := Option.some.inj hint
            omega
          · have := le_of_toInt?_ofNat (not_lt.mp hsafe) hint
            omega
        dsimp only
        rw [if_pos (by omega)]
        exact ⟨_, rfl⟩

end Tar

end BitGraph
