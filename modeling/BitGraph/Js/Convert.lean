import BitGraph.Js.Json

/-!
Conversions between JavaScript values.

* **White space.** `trim`, and the lines of a text.
* **To strings.** `Value.toText` is `String(v)` on what JSON parsing produces: an object has
  the text of its class unless an own property hides the inherited conversion, which then
  throws.
* **Properties.** `Value.prop` is `v.k`, which throws on `undefined` and `null`.
* **To big integers.** `bigInt?` is `BigInt(v)`, `none` where it throws.
* **Buffers.** `bufferToString` is `Buffer.toString("utf8")`, which keeps a byte order mark.
-/

namespace Js

/-! ### White space -/

/-- White space and line terminators of the language. -/
def isBlank (c : UInt16) : Bool :=
  (9 ≤ c.toNat && c.toNat ≤ 13) || c == 32 || c == 0xA0 || c == 0x1680
    || (0x2000 ≤ c.toNat && c.toNat ≤ 0x200A) || c == 0x2028 || c == 0x2029 || c == 0x202F
    || c == 0x205F || c == 0x3000 || c == 0xFEFF

/-- `String.prototype.trim`. -/
def trim (s : Str) : Str := ((s.dropWhile isBlank).reverse.dropWhile isBlank).reverse

/-- `split("\n")`. -/
def splitLines : Str → List Str
  | [] => [[]]
  | c :: s =>
      if c = 10 then [] :: splitLines s
      else match splitLines s with
        | [] => [[c]]
        | l :: ls => (c :: l) :: ls

/-- The text up to its last newline, that newline included; empty without one. -/
def uptoLastNewline (s : Str) : Str := (s.reverse.dropWhile fun c => c != 10).reverse

/-! ### To strings -/

/-- The decimal text of a big integer. -/
def intText (i : ℤ) : Str := if i < 0 then 45 :: decimal i.natAbs else decimal i.natAbs

namespace Value

mutual

/-- `String(v)`, `none` where it throws a type error. An own `toString` of parsed JSON is no
function, and what `valueOf` returns then is no primitive. -/
def toText : Value → Option Str
  | .undefined => some (js "undefined")
  | .null => some (js "null")
  | .bool b => some (if b then js "true" else js "false")
  | .num n => some n.toStr
  | .str s => some s
  | .bigint i => some (intText i)
  | .symbol => none
  | .function => some (js "function")
  | .arr l => (toTexts l).map joinComma
  | .obj l => if (Fields.find? l (js "toString")).isSome then none else some (js "[object Object]")

/-- The elements of an array as `join` converts them. -/
def toTexts : List Value → Option (List Str)
  | [] => some []
  | .undefined :: l => (toTexts l).map fun ts => [] :: ts
  | .null :: l => (toTexts l).map fun ts => [] :: ts
  | v :: l => do
      let t ← toText v
      let ts ← toTexts l
      some (t :: ts)

end

end Value

/-- `String(v)` and `${v}`, with what it throws. -/
def Value.string (v : Value) : Except Thrown Str :=
  match v.toText with
  | some t => .ok t
  | none => .error (typeError (js "Cannot convert object to primitive value"))

/-! ### Reading a property -/

/-- `v.k`, with what it throws. -/
def Value.prop (v : Value) (k : Str) : Except Thrown Value :=
  match v with
  | .undefined => .error (typeError (js "Cannot read properties of undefined (reading '" ++ k ++ js "')"))
  | .null => .error (typeError (js "Cannot read properties of null (reading '" ++ k ++ js "')"))
  | v => .ok (v.get k)

/-- The condition of an `if`. -/
def Value.truthy : Value → Bool
  | .undefined | .null => false
  | .bool b => b
  | .num (.fin d) => d.sig != 0
  | .num (.inf _) => true
  | .num .nan => false
  | .str s => s != []
  | .bigint i => i != 0
  | _ => true

/-! ### To big integers -/

/-- Digits in a base up to sixteen, read as a number. -/
def readDigits? (base : ℕ) (s : Str) : Option ℕ :=
  if s = [] then none
  else s.foldl (fun acc c => do
    let a ← acc
    let d ← hexVal? c
    if d < base then some (a * base + d) else none) (some 0)

/-- `StringToBigInt`. -/
def stringToBigInt? (s : Str) : Option ℤ :=
  match trim s with
  | [] => some 0
  | 48 :: 120 :: t | 48 :: 88 :: t => (readDigits? 16 t).map Int.ofNat
  | 48 :: 111 :: t | 48 :: 79 :: t => (readDigits? 8 t).map Int.ofNat
  | 48 :: 98 :: t | 48 :: 66 :: t => (readDigits? 2 t).map Int.ofNat
  | 45 :: t => (readDigits? 10 t).map fun n => -(n : ℤ)
  | 43 :: t => (readDigits? 10 t).map Int.ofNat
  | t => (readDigits? 10 t).map Int.ofNat

/-- `BigInt(v)`, `none` where it throws. -/
def bigInt? : Value → Option ℤ
  | .str s => stringToBigInt? s
  | .num n => n.toInt?
  | .bool b => some (if b then 1 else 0)
  | .bigint i => some i
  | .arr l => (Value.toText (.arr l)).bind stringToBigInt?
  | _ => none

/-- `BigInt(s)` of a text, with what it throws. -/
def bigInt (s : Str) : Except Thrown ℤ :=
  match stringToBigInt? s with
  | some i => .ok i
  | none => .error (syntaxError (js "Cannot convert " ++ s ++ js " to a BigInt"))

/-! ### Numerals as big integers -/

lemma isBlank_of_isDigit {c : UInt16} (h : isDigit c = true) : isBlank c = false := by
  have hc : 48 ≤ c.toNat ∧ c.toNat ≤ 57 := by simpa [isDigit] using h
  obtain ⟨n, hn, hcn⟩ : ∃ n, c = UInt16.ofNat n ∧ 48 ≤ n ∧ n ≤ 57 :=
    ⟨c.toNat, (UInt16.ofNat_toNat).symm, hc⟩
  obtain ⟨hlo, hhi⟩ := hcn
  rw [hn]
  interval_cases n <;> rfl

lemma trim_eq_self {s : Str} (h : ∀ c ∈ s, isBlank c = false) : trim s = s := by
  have hdrop : ∀ t : Str, (∀ c ∈ t, isBlank c = false) → t.dropWhile isBlank = t := by
    intro t ht
    cases t with
    | nil => rfl
    | cons c t => rw [List.dropWhile_cons_of_neg (by simp [ht c (by simp)])]
  rw [trim, hdrop s h, hdrop s.reverse fun c hc => h c (List.mem_reverse.mp hc), List.reverse_reverse]

lemma readDigits?_ten {s : Str} (hne : s ≠ []) (h : ∀ c ∈ s, isDigit c = true) :
    readDigits? 10 s = some (readDecimal s) := by
  have hval : ∀ c : UInt16, isDigit c = true → hexVal? c = some (digitVal c) ∧ digitVal c < 10 := by
    intro c hc
    have hc : 48 ≤ c.toNat ∧ c.toNat ≤ 57 := by simpa [isDigit] using hc
    rw [hexVal?, if_pos hc, digitVal]
    exact ⟨rfl, by omega⟩
  -- the accumulator of the fold is the number read so far
  have key : ∀ (t : Str) (a : ℕ), (∀ c ∈ t, isDigit c = true) →
      t.foldl (fun acc c => do
        let a ← acc
        let d ← hexVal? c
        if d < 10 then some (a * 10 + d) else none) (some a)
        = some (t.foldl (fun a c => a * 10 + digitVal c) a) := by
    intro t
    induction t with
    | nil => intro a _; rfl
    | cons c t ih =>
        intro a ht
        obtain ⟨hc, hlt⟩ := hval c (ht c (by simp))
        rw [List.foldl_cons, List.foldl_cons, ← ih _ fun d hd => ht d (by simp [hd])]
        simp only [hc, Option.bind_eq_bind, Option.bind_some, if_pos hlt]
  rw [readDigits?, if_neg hne, key s 0 h]
  rfl

/-- A numeral is the big integer it spells. -/
lemma stringToBigInt?_of_digits {s : Str} (hne : s ≠ []) (h : ∀ c ∈ s, isDigit c = true) :
    stringToBigInt? s = some (readDecimal s : ℤ) := by
  -- no sign and no letter of a radix is a digit
  have hnot : ∀ c ∈ s, c ∈ ([120, 88, 111, 79, 98, 66, 45, 43] : Str) → False := by
    intro c hc hmem
    have hd := h c hc
    simp only [List.mem_cons, List.not_mem_nil, or_false] at hmem
    rcases hmem with rfl | rfl | rfl | rfl | rfl | rfl | rfl | rfl <;> exact absurd hd (by decide)
  rw [stringToBigInt?, trim_eq_self fun c hc => isBlank_of_isDigit (h c hc)]
  split
  · exact absurd rfl hne
  all_goals first
    | exact (hnot _ (List.mem_cons_of_mem _ List.mem_cons_self) (by decide)).elim
    | exact (hnot _ List.mem_cons_self (by decide)).elim
    | rw [readDigits?_ten hne h]; rfl

lemma stringToBigInt?_decimal (n : ℕ) : stringToBigInt? (decimal n) = some (n : ℤ) := by
  rw [stringToBigInt?_of_digits (decimal_ne_nil n) fun c hc => isDigit_of_mem_decimal hc,
    readDecimal_decimal]

/-! ### Buffers -/

/-- `Buffer.toString("utf8")`: every ill-formed sequence is U+FFFD, a byte order mark stays. -/
def bufferToString (b : Bytes) : Str :=
  (utf8Decode .init b).flatMap fun cp => units (cp.getD 0xFFFD)

/-! ### Text cut anywhere -/

/-- The bytes of scalar values, possibly cut inside the last one. -/
def CutText (b : Bytes) : Prop :=
  ∃ cs : List ℕ, (∀ c ∈ cs, IsScalar c) ∧ b <+: cs.flatMap encodeScalar

lemma scalars_units {cp : ℕ} (h : IsScalar cp) (s : Str) : scalars (units cp ++ s) = cp :: scalars s := by
  by_cases hlt : cp < 0x10000
  · have hval : (UInt16.ofNat cp).toNat = cp := by
      rw [UInt16.toNat_ofNat']
      omega
    have hnot : isHigh (UInt16.ofNat cp) = false ∧ isLow (UInt16.ofNat cp) = false := by
      simp only [isHigh, isLow, hval, Bool.and_eq_false_iff, decide_eq_false_iff_not]
      rw [IsScalar] at h
      omega
    rw [units, if_pos hlt, List.singleton_append]
    cases s with
    | nil => simp [scalars, hnot.1, hnot.2, hval]
    | cons d s => simp [scalars, hnot.1, hnot.2, hval]
  · rw [IsScalar] at h
    have hhi : (UInt16.ofNat (0xD800 + (cp - 0x10000) / 0x400)).toNat
        = 0xD800 + (cp - 0x10000) / 0x400 := by
      rw [UInt16.toNat_ofNat']
      omega
    have hlo : (UInt16.ofNat (0xDC00 + (cp - 0x10000) % 0x400)).toNat
        = 0xDC00 + (cp - 0x10000) % 0x400 := by
      rw [UInt16.toNat_ofNat']
      omega
    have hpair : (isHigh (UInt16.ofNat (0xD800 + (cp - 0x10000) / 0x400))
        && isLow (UInt16.ofNat (0xDC00 + (cp - 0x10000) % 0x400))) = true := by
      simp only [isHigh, isLow, hhi, hlo, Bool.and_eq_true, decide_eq_true_eq]
      omega
    have hval : pairValue (UInt16.ofNat (0xD800 + (cp - 0x10000) / 0x400))
        (UInt16.ofNat (0xDC00 + (cp - 0x10000) % 0x400)) = cp := by
      unfold pairValue
      rw [hhi, hlo]
      omega
    rw [units, if_neg hlt, List.cons_append, List.cons_append, List.nil_append, scalars,
      if_pos hpair, hval]

/-- The scalar values of a text are those it was made of. -/
lemma scalars_flatMap_units {cs : List ℕ} (h : ∀ c ∈ cs, IsScalar c) :
    scalars (cs.flatMap units) = cs := by
  induction cs with
  | nil => rfl
  | cons c cs ih =>
      rw [List.flatMap_cons, scalars_units (h c (by simp)), ih fun d hd => h d (by simp [hd])]

lemma utf8Encode_flatMap_units {cs : List ℕ} (h : ∀ c ∈ cs, IsScalar c) :
    utf8Encode (cs.flatMap units) = cs.flatMap encodeScalar := by
  rw [utf8Encode, scalars_flatMap_units h]

lemma bufferToString_flatMap {cs : List ℕ} (h : ∀ c ∈ cs, IsScalar c) :
    bufferToString (cs.flatMap encodeScalar) = cs.flatMap units := by
  rw [bufferToString, utf8Decode_flatMap h, List.flatMap_map]
  rfl

/-- The decoder at the end of a character cut off reports one error. -/
lemma utf8Decode_cut {cp : ℕ} (h : IsScalar cp) {j : ℕ} (h0 : 0 < j)
    (hj : j < (encodeScalar cp).length) : utf8Decode .init ((encodeScalar cp).take j) = [none] := by
  rw [IsScalar] at h
  rw [encodeScalar] at hj ⊢
  by_cases h1 : cp < 0x80
  · rw [if_pos h1] at hj
    simp at hj
    omega
  by_cases h2 : cp < 0x800
  · rw [if_neg h1, if_pos h2] at hj ⊢
    obtain rfl : j = 1 := by
      simp at hj
      omega
    rw [List.take_succ_cons, List.take_zero, utf8Decode_init (by omega), decodeLead,
      if_neg (by omega), if_pos (by omega)]
    rfl
  by_cases h3 : cp < 0x10000
  · rw [if_neg h1, if_neg h2, if_pos h3] at hj ⊢
    have hj' : j = 1 ∨ j = 2 := by
      simp at hj
      omega
    rcases hj' with rfl | rfl
    · rw [List.take_succ_cons, List.take_zero, utf8Decode_init (by omega), decodeLead,
        if_neg (by omega), if_neg (by omega), if_pos (by omega)]
      rfl
    · rw [List.take_succ_cons, List.take_succ_cons, List.take_zero, utf8Decode_init (by omega),
        decodeLead, if_neg (by omega), if_neg (by omega), if_pos (by omega)]
      simp only [Option.toList_none, List.nil_append]
      rw [utf8Decode_more (by omega) (by omega) (by split <;> omega) (by split <;> omega)]
      rfl
  · rw [if_neg h1, if_neg h2, if_neg h3] at hj ⊢
    have hj' : j = 1 ∨ j = 2 ∨ j = 3 := by
      simp at hj
      omega
    rcases hj' with rfl | rfl | rfl
    · rw [List.take_succ_cons, List.take_zero, utf8Decode_init (by omega), decodeLead,
        if_neg (by omega), if_neg (by omega), if_neg (by omega), if_pos (by omega)]
      rfl
    · rw [List.take_succ_cons, List.take_succ_cons, List.take_zero, utf8Decode_init (by omega),
        decodeLead, if_neg (by omega), if_neg (by omega), if_neg (by omega), if_pos (by omega)]
      simp only [Option.toList_none, List.nil_append]
      rw [utf8Decode_more (by omega) (by omega) (by split <;> omega) (by split <;> omega)]
      rfl
    · rw [List.take_succ_cons, List.take_succ_cons, List.take_succ_cons, List.take_zero,
        utf8Decode_init (by omega), decodeLead, if_neg (by omega), if_neg (by omega),
        if_neg (by omega), if_pos (by omega)]
      simp only [Option.toList_none, List.nil_append]
      rw [utf8Decode_more (by omega) (by omega) (by split <;> omega) (by split <;> omega),
        utf8Decode_more (by omega) (by omega) (by omega) (by omega)]
      rfl

/-- A text cut anywhere is whole characters and the start of one more. -/
lemma prefix_flatMap {cs : List ℕ} {b : Bytes} (h : b <+: cs.flatMap encodeScalar) :
    ∃ ds es : List ℕ, ∃ tail : Bytes, cs = ds ++ es ∧ b = ds.flatMap encodeScalar ++ tail
      ∧ (tail = [] ∨ ∃ cp ∈ es, ∃ j, 0 < j ∧ j < (encodeScalar cp).length
        ∧ tail = (encodeScalar cp).take j) := by
  induction cs generalizing b with
  | nil =>
      obtain rfl : b = [] := List.prefix_nil.mp h
      exact ⟨[], [], [], rfl, rfl, Or.inl rfl⟩
  | cons c cs ih =>
      rw [List.flatMap_cons] at h
      by_cases hlen : (encodeScalar c).length ≤ b.length
      · obtain ⟨b', rfl⟩ : encodeScalar c <+: b :=
          List.prefix_of_prefix_length_le (List.prefix_append _ _) h hlen
        obtain ⟨ds, es, tail, rfl, rfl, htail⟩ := ih ((List.prefix_append_right_inj _).mp h)
        exact ⟨c :: ds, es, tail, rfl, by simp, htail⟩
      · have hb : b = (encodeScalar c).take b.length := by
          have hp : b <+: encodeScalar c :=
            List.prefix_of_prefix_length_le h (List.prefix_append _ _) (by omega)
          exact List.prefix_iff_eq_take.mp hp
        by_cases hnil : b = []
        · exact ⟨[], c :: cs, [], rfl, by simp [hnil], Or.inl rfl⟩
        · refine ⟨[], c :: cs, b, rfl, rfl, Or.inr ⟨c, by simp, b.length, ?_, by omega, hb⟩⟩
          exact List.length_pos_iff.mpr hnil

/-- Whole characters decode to themselves before anything else. -/
lemma utf8Decode_flatMap_append {ds : List ℕ} (h : ∀ c ∈ ds, IsScalar c) (b : Bytes) :
    utf8Decode .init (ds.flatMap encodeScalar ++ b) = ds.map some ++ utf8Decode .init b := by
  induction ds with
  | nil => rfl
  | cons d ds ih =>
      rw [List.flatMap_cons, List.append_assoc, utf8Decode_encodeScalar (h d (by simp)),
        ih fun c hc => h c (by simp [hc])]
      rfl

/-- What a text cut anywhere decodes to: its whole characters, and one replacement character
for a start of one more. -/
lemma bufferToString_cut {cs : List ℕ} {b : Bytes} (hcs : ∀ c ∈ cs, IsScalar c)
    (h : b <+: cs.flatMap encodeScalar) :
    ∃ ds : List ℕ, ds <+: cs ∧ ds.flatMap encodeScalar <+: b
      ∧ (bufferToString b = ds.flatMap units ∨ bufferToString b = ds.flatMap units ++ [0xFFFD]) := by
  obtain ⟨ds, es, tail, rfl, rfl, htail⟩ := prefix_flatMap h
  refine ⟨ds, List.prefix_append _ _, List.prefix_append _ _, ?_⟩
  have hds : ∀ c ∈ ds, IsScalar c := fun c hc => hcs c (by simp [hc])
  rw [bufferToString, utf8Decode_flatMap_append hds, List.flatMap_append, List.flatMap_map]
  rcases htail with rfl | ⟨cp, hcp, j, h0, hj, rfl⟩
  · exact Or.inl (by simp [utf8Decode, DecodeState.init])
  · rw [utf8Decode_cut (hcs cp (by simp [hcp])) h0 hj]
    exact Or.inr rfl

end Js
