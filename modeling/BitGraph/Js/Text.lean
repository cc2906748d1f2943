import Mathlib.Tactic
import Mathlib.Data.Nat.Digits.Lemmas
import Mathlib.Data.List.SplitOn

/-!
JavaScript text and its UTF-8 bytes.

A JavaScript string is a sequence of UTF-16 code units, paired or not. The module fixes
that reading and the two conversions the platform offers on it.

* **Strings.** `Str` is a list of code units, `js` reads an ASCII literal, `decimal` is the
  decimal numeral of a natural number and `readDecimal` its inverse (`readDecimal_decimal`).
* **Errors.** `Thrown` is a thrown error; a function that can throw returns `Except Thrown`.
* **Encoding.** `utf8Encode` is `TextEncoder.encode`: code units to scalar values
  (`scalars`, a lone surrogate read as U+FFFD) to bytes.
* **Decoding.** `utf8Decode` is the WHATWG decoder, one byte a step. `decodeFatal` and
  `decodeLossy` are `TextDecoder.decode` in its two modes, both dropping a leading byte
  order mark.
* **Round trip.** `decodeFatal_utf8Encode`: a string without lone surrogates and without a
  leading U+FEFF comes back from its bytes.
-/

namespace Js

/-- Raw bytes, a `Uint8Array`. -/
abbrev Bytes := List UInt8

/-- A JavaScript string: its UTF-16 code units. -/
abbrev Str := List UInt16

instance : LawfulBEq Str := inferInstance

/-- The code units of a literal of the Basic Multilingual Plane. -/
def js (s : String) : Str := s.toList.map fun c => UInt16.ofNat c.toNat

/-- The error classes thrown. -/
inductive ErrorClass where
  | error
  | typeError
  | rangeError
  | syntaxError
  deriving DecidableEq, Repr

/-- A thrown error: its class and its message. -/
structure Thrown where
  cls : ErrorClass
  message : Str
  deriving DecidableEq, Repr

@[simp] lemma ok_bind {ε α β : Type} (a : α) (f : α → Except ε β) :
    (Except.ok a >>= f) = f a := rfl

@[simp] lemma error_bind {ε α β : Type} (e : ε) (f : α → Except ε β) :
    (Except.error e >>= f) = Except.error e := rfl

/-- A sequence that returns: both parts return. -/
lemma bind_eq_ok {ε α β : Type} {x : Except ε α} {f : α → Except ε β} {b : β}
    (h : x >>= f = .ok b) : ∃ a, x = .ok a ∧ f a = .ok b := by
  cases x with
  | error e => cases h
  | ok a => exact ⟨a, rfl, h⟩

/-- A function mapped over a list returns: it returns on every element. -/
lemma mapM_eq_ok {ε α β : Type} {f : α → Except ε β} {l : List α} {r : List β} :
    l.mapM f = .ok r ↔ List.Forall₂ (fun a b => f a = .ok b) l r := by
  induction l generalizing r with
  | nil =>
      rw [List.mapM_nil, List.forall₂_nil_left_iff]
      exact ⟨fun h => (Except.ok.inj h).symm, fun h => by rw [h]; rfl⟩
  | cons a l ih =>
      rw [List.mapM_cons, List.forall₂_cons_left_iff]
      constructor
      · intro h
        obtain ⟨b, hb, h⟩ := bind_eq_ok h
        obtain ⟨bs, hbs, h⟩ := bind_eq_ok h
        exact ⟨b, bs, hb, ih.mp hbs, (Except.ok.inj h).symm⟩
      · rintro ⟨b, bs, hb, hbs, rfl⟩
        rw [hb, ok_bind, ih.mpr hbs, ok_bind]
        rfl

lemma toOption_eq_some {α : Type} {x : Except Thrown α} {a : α} :
    x.toOption = some a ↔ x = .ok a := by
  cases x <;> simp [Except.toOption]

/-- `throw new Error(m)`. -/
def error (m : Str) : Thrown := ⟨.error, m⟩

/-- `throw new TypeError(m)`. -/
def typeError (m : Str) : Thrown := ⟨.typeError, m⟩

/-- `throw new RangeError(m)`. -/
def rangeError (m : Str) : Thrown := ⟨.rangeError, m⟩

/-- `throw new SyntaxError(m)`. -/
def syntaxError (m : Str) : Thrown := ⟨.syntaxError, m⟩

/-! ### Decimal numerals -/

/-- The code unit of a decimal digit. -/
def digitUnit (d : ℕ) : UInt16 := UInt16.ofNat (48 + d)

/-- A decimal digit. -/
def isDigit (c : UInt16) : Bool := 48 ≤ c.toNat && c.toNat ≤ 57

/-- The value of a decimal digit. -/
def digitVal (c : UInt16) : ℕ := c.toNat - 48

/-- The decimal numeral of a natural number, `String(n)`. -/
def decimal (n : ℕ) : Str :=
  if n = 0 then [48] else (Nat.digits 10 n).reverse.map digitUnit

/-- A run of digits read as a number, most significant first. -/
def readDecimal (s : Str) : ℕ := s.foldl (fun a c => a * 10 + digitVal c) 0

lemma digitUnit_toNat {d : ℕ} (h : d < 10) : (digitUnit d).toNat = 48 + d := by
  rw [digitUnit, UInt16.toNat_ofNat']
  omega

lemma digitVal_digitUnit {d : ℕ} (h : d < 10) : digitVal (digitUnit d) = d := by
  rw [digitVal, digitUnit_toNat h]
  omega

lemma isDigit_digitUnit {d : ℕ} (h : d < 10) : isDigit (digitUnit d) = true := by
  rw [isDigit, digitUnit_toNat h]
  simp
  omega

lemma readDecimal_append (s t : Str) :
    readDecimal (s ++ t) = readDecimal s * 10 ^ t.length + readDecimal t := by
  have key : ∀ (t : Str) (a : ℕ), t.foldl (fun a c => a * 10 + digitVal c) a
      = a * 10 ^ t.length + readDecimal t := by
    intro t
    induction t with
    | nil => intro a; simp [readDecimal]
    | cons c t ih =>
        intro a
        simp only [readDecimal, List.foldl_cons, List.length_cons, pow_succ] at ih ⊢
        rw [ih, ih (0 * 10 + digitVal c)]
        ring
  rw [readDecimal, List.foldl_append, key]
  rfl

lemma readDecimal_reverse_map {l : List ℕ} (h : ∀ d ∈ l, d < 10) :
    readDecimal (l.reverse.map digitUnit) = Nat.ofDigits 10 l := by
  induction l with
  | nil => rfl
  | cons d l ih =>
      have hd : d < 10 := h d (by simp)
      have hl := ih fun x hx => h x (by simp [hx])
      rw [List.reverse_cons, List.map_append, readDecimal_append, hl, Nat.ofDigits_cons]
      simp [readDecimal, digitVal_digitUnit hd]
      ring

/-- A numeral reads back as its number. -/
theorem readDecimal_decimal (n : ℕ) : readDecimal (decimal n) = n := by
  rw [decimal]
  split
  · next h => rw [h]; rfl
  · rw [readDecimal_reverse_map fun d hd => Nat.digits_lt_base (by norm_num) hd,
      Nat.ofDigits_digits]

lemma decimal_injective : Function.Injective decimal := fun a b h => by
  have := congrArg readDecimal h
  rwa [readDecimal_decimal, readDecimal_decimal] at this

lemma decimal_ne_nil (n : ℕ) : decimal n ≠ [] := by
  rw [decimal]
  split
  · simp
  · next h => simpa using Nat.digits_ne_nil_iff_ne_zero.mpr h

lemma isDigit_of_mem_decimal {n : ℕ} {c : UInt16} (h : c ∈ decimal n) : isDigit c = true := by
  rw [decimal] at h
  split at h
  · rw [List.mem_singleton.mp h]; rfl
  · obtain ⟨d, hd, rfl⟩ := List.mem_map.mp h
    exact isDigit_digitUnit (Nat.digits_lt_base (by norm_num) (List.mem_reverse.mp hd))

/-- `join`: texts without the separator are told apart by what they join to. -/
lemma intercalate_inj {c : UInt16} {ss ts : List Str} (hs : ss ≠ []) (ht : ts ≠ [])
    (hsc : ∀ s ∈ ss, c ∉ s) (htc : ∀ t ∈ ts, c ∉ t)
    (h : [c].intercalate ss = [c].intercalate ts) : ss = ts := by
  rw [← List.splitOn_intercalate c hsc hs, ← List.splitOn_intercalate c htc ht, h]

/-- The leading digit of a positive number is not zero. -/
lemma decimal_head_ne_zero {n : ℕ} (h : n ≠ 0) : ∃ c s, decimal n = c :: s ∧ c ≠ 48 := by
  have hne : Nat.digits 10 n ≠ [] := Nat.digits_ne_nil_iff_ne_zero.mpr h
  have hrev : (Nat.digits 10 n).reverse ≠ [] := by simpa using hne
  obtain ⟨d, l, hdl⟩ := List.exists_cons_of_ne_nil hrev
  have hlast : (Nat.digits 10 n).getLast hne = d := by
    rw [← List.head_reverse hrev]
    simp [hdl]
  have hd0 : d ≠ 0 := hlast ▸ Nat.getLast_digit_ne_zero 10 h
  have hd10 : d < 10 := hlast ▸ Nat.digits_lt_base (by norm_num) (List.getLast_mem hne)
  refine ⟨digitUnit d, l.map digitUnit, by rw [decimal, if_neg h, hdl, List.map_cons], ?_⟩
  intro hc
  have := congrArg UInt16.toNat hc
  rw [digitUnit_toNat hd10] at this
  simp at this
  omega

/-! ### Scalar values -/

/-- A high (leading) surrogate code unit. -/
def isHigh (c : UInt16) : Bool := 0xD800 ≤ c.toNat && c.toNat ≤ 0xDBFF

/-- A low (trailing) surrogate code unit. -/
def isLow (c : UInt16) : Bool := 0xDC00 ≤ c.toNat && c.toNat ≤ 0xDFFF

/-- The scalar value of a surrogate pair. -/
def pairValue (c d : UInt16) : ℕ := 0x10000 + (c.toNat - 0xD800) * 0x400 + (d.toNat - 0xDC00)

/-- The scalar values of a string, a lone surrogate read as U+FFFD. -/
def scalars : Str → List ℕ
  | [] => []
  | [c] => [if isHigh c || isLow c then 0xFFFD else c.toNat]
  | c :: d :: s =>
      if isHigh c && isLow d then pairValue c d :: scalars s
      else (if isHigh c || isLow c then 0xFFFD else c.toNat) :: scalars (d :: s)

/-- A string whose surrogates are all paired. -/
def wellFormed : Str → Bool
  | [] => true
  | [c] => !(isHigh c || isLow c)
  | c :: d :: s =>
      if isHigh c && isLow d then wellFormed s
      else !(isHigh c || isLow c) && wellFormed (d :: s)

/-- The code units of a scalar value. -/
def units (cp : ℕ) : Str :=
  if cp < 0x10000 then [UInt16.ofNat cp]
  else [UInt16.ofNat (0xD800 + (cp - 0x10000) / 0x400),
        UInt16.ofNat (0xDC00 + (cp - 0x10000) % 0x400)]

/-- A Unicode scalar value: a code point that is no surrogate. -/
def IsScalar (cp : ℕ) : Prop := cp < 0xD800 ∨ (0xDFFF < cp ∧ cp < 0x110000)

lemma units_toNat {c : UInt16} : units c.toNat = [c] := by
  rw [units, if_pos (by have := c.toNat_lt; omega), UInt16.ofNat_toNat]

lemma units_pairValue {c d : UInt16} (hc : isHigh c = true) (hd : isLow d = true) :
    units (pairValue c d) = [c, d] := by
  simp only [isHigh, isLow, Bool.and_eq_true, decide_eq_true_eq] at hc hd
  have h1 : 0xD800 + (pairValue c d - 0x10000) / 0x400 = c.toNat := by
    unfold pairValue; omega
  have h2 : 0xDC00 + (pairValue c d - 0x10000) % 0x400 = d.toNat := by
    unfold pairValue; omega
  rw [units, if_neg (by unfold pairValue; omega), h1, h2, UInt16.ofNat_toNat, UInt16.ofNat_toNat]

lemma isScalar_pairValue {c d : UInt16} (hc : isHigh c = true) (hd : isLow d = true) :
    IsScalar (pairValue c d) := by
  simp only [isHigh, isLow, Bool.and_eq_true, decide_eq_true_eq] at hc hd
  right
  unfold pairValue
  omega

lemma isScalar_single (c : UInt16) :
    IsScalar (if isHigh c || isLow c then 0xFFFD else c.toNat) := by
  have := c.toNat_lt
  simp only [IsScalar, isHigh, isLow, Bool.or_eq_true, Bool.and_eq_true, decide_eq_true_eq]
  split <;> omega

/-- Every value read from a string is a scalar value. -/
lemma isScalar_of_mem_scalars : ∀ {s : Str} {cp : ℕ}, cp ∈ scalars s → IsScalar cp
  | [], _, h => by simp [scalars] at h
  | [c], cp, h => by
      rw [scalars, List.mem_singleton] at h
      exact h ▸ isScalar_single c
  | c :: d :: s, cp, h => by
      rw [scalars] at h
      split at h
      · next hp =>
          rw [Bool.and_eq_true] at hp
          rcases List.mem_cons.mp h with h | h
          · exact h ▸ isScalar_pairValue hp.1 hp.2
          · exact isScalar_of_mem_scalars h
      · rcases List.mem_cons.mp h with h | h
        · exact h ▸ isScalar_single c
        · exact isScalar_of_mem_scalars h

/-- A string without lone surrogates is spelled by its scalar values. -/
lemma flatMap_units_scalars : ∀ {s : Str}, wellFormed s = true →
    (scalars s).flatMap units = s
  | [], _ => rfl
  | [c], h => by
      simp only [wellFormed, Bool.not_eq_true'] at h
      simp [scalars, h, units_toNat]
  | c :: d :: s, h => by
      rw [wellFormed] at h
      rw [scalars]
      split at h
      · next hp =>
          rw [if_pos hp, List.flatMap_cons, flatMap_units_scalars h]
          rw [Bool.and_eq_true] at hp
          rw [units_pairValue hp.1 hp.2]
          rfl
      · next hp =>
          simp only [Bool.and_eq_true, Bool.not_eq_true'] at h
          rw [if_neg hp, List.flatMap_cons, flatMap_units_scalars h.2, if_neg (by simp [h.1]),
            units_toNat]
          rfl

/-- Two texts in a row are read one after the other, unless a pair stands across them. -/
lemma scalars_append : ∀ {s t : Str}, (∀ c ∈ s.getLast?, ∀ d ∈ t.head?, (isHigh c && isLow d) = false) →
    scalars (s ++ t) = scalars s ++ scalars t
  | [], _, _ => rfl
  | [c], [], _ => by simp [scalars]
  | [c], d :: t, h => by
      have hcd := h c rfl d rfl
      rw [List.singleton_append, scalars.eq_def]
      dsimp only
      rw [hcd]
      rfl
  | c :: d :: s, t, h => by
      rw [List.cons_append, List.cons_append, scalars, scalars]
      split
      · rw [scalars_append fun e he => ?_, List.cons_append]
        cases s with
        | nil => nomatch he
        | cons e' s => exact h e (by simpa using he)
      · rw [← List.cons_append, scalars_append fun e he => h e (by simpa using he), List.cons_append]

lemma wellFormed_append_eq : ∀ {s t : Str},
    (∀ c ∈ s.getLast?, ∀ d ∈ t.head?, (isHigh c && isLow d) = false) →
    wellFormed (s ++ t) = (wellFormed s && wellFormed t)
  | [], _, _ => rfl
  | [c], [], _ => by simp [wellFormed]
  | [c], d :: t, h => by
      have hcd := h c rfl d rfl
      rw [List.singleton_append, wellFormed.eq_def]
      dsimp only
      rw [hcd]
      rfl
  | c :: d :: s, t, h => by
      rw [List.cons_append, List.cons_append, wellFormed, wellFormed]
      split
      · rw [wellFormed_append_eq fun e he => ?_]
        cases s with
        | nil => nomatch he
        | cons e' s => exact h e (by simpa using he)
      · rw [← List.cons_append, wellFormed_append_eq fun e he => h e (by simpa using he), Bool.and_assoc]

/-- Reading and writing keep the number of code units. -/
lemma length_flatMap_units_scalars : ∀ s : Str, ((scalars s).flatMap units).length = s.length
  | [] => rfl
  | [c] => by
      rw [scalars]
      split
      · rfl
      · rw [List.flatMap_singleton, units_toNat]
  | c :: d :: s => by
      have hd := length_flatMap_units_scalars (d :: s)
      have hs := length_flatMap_units_scalars s
      rw [scalars]
      split
      · next hp =>
          rw [Bool.and_eq_true] at hp
          rw [List.flatMap_cons, units_pairValue hp.1 hp.2, List.length_append, hs]
          simp only [List.length_cons, List.length_nil]
          omega
      · have hone : (units (if isHigh c || isLow c then 0xFFFD else c.toNat)).length = 1 := by
          split
          · rfl
          · rw [units_toNat]
            rfl
        rw [List.flatMap_cons, List.length_append, hone, hd, List.length_cons (a := c)]
        omega

/-- Scalar values are spelled without lone surrogates. -/
lemma wellFormed_units_append {cp : ℕ} (h : IsScalar cp) (s : Str) :
    wellFormed (units cp ++ s) = wellFormed s := by
  rw [units]
  split
  · next hlt =>
      have hto : (UInt16.ofNat cp).toNat = cp := by
        rw [UInt16.toNat_ofNat']
        omega
      have hc : isHigh (UInt16.ofNat cp) = false ∧ isLow (UInt16.ofNat cp) = false := by
        rw [isHigh, isLow, hto]
        rcases h with h | h <;> simp <;> omega
      cases s with
      | nil => simp [wellFormed, hc]
      | cons d s => simp [wellFormed, hc]
  · next hge =>
      have hhi : (UInt16.ofNat (0xD800 + (cp - 0x10000) / 0x400)).toNat
          = 0xD800 + (cp - 0x10000) / 0x400 := by
        rw [UInt16.toNat_ofNat']
        rcases h with h | h <;> omega
      have hlo : (UInt16.ofNat (0xDC00 + (cp - 0x10000) % 0x400)).toNat
          = 0xDC00 + (cp - 0x10000) % 0x400 := by
        rw [UInt16.toNat_ofNat']
        omega
      have hpair : (isHigh (UInt16.ofNat (0xD800 + (cp - 0x10000) / 0x400))
          && isLow (UInt16.ofNat (0xDC00 + (cp - 0x10000) % 0x400))) = true := by
        rw [isHigh, isLow, hhi, hlo]
        rcases h with h | h <;> simp <;> omega
      rw [List.cons_append, List.cons_append, List.nil_append, wellFormed, if_pos hpair]

lemma wellFormed_flatMap_units {l : List ℕ} (h : ∀ cp ∈ l, IsScalar cp) :
    wellFormed (l.flatMap units) = true := by
  induction l with
  | nil => rfl
  | cons cp l ih =>
      rw [List.flatMap_cons, wellFormed_units_append (h cp List.mem_cons_self)]
      exact ih fun x hx => h x (List.mem_cons_of_mem _ hx)

/-- Only a text with a code unit in front has its scalar value in front. -/
lemma head_scalars_bom {s : Str} : (scalars s).head? = some 0xFEFF ↔ s.head? = some 0xFEFF := by
  have hone : ∀ c : UInt16, (if isHigh c || isLow c then 0xFFFD else c.toNat) = 0xFEFF
      ↔ c = 0xFEFF := by
    intro c
    constructor
    · intro h
      split at h
      · omega
      · exact UInt16.toNat_inj.mp h
    · rintro rfl
      rfl
  match s with
  | [] => simp [scalars]
  | [c] =>
      rw [scalars, List.head?_cons, List.head?_cons, Option.some.injEq, Option.some.injEq, hone]
  | c :: d :: s =>
      rw [scalars]
      split
      · next hp =>
          rw [List.head?_cons, List.head?_cons, Option.some.injEq, Option.some.injEq]
          rw [Bool.and_eq_true] at hp
          constructor
          · intro h
            unfold pairValue at h
            omega
          · rintro rfl
            exact absurd hp.1 (by decide)
      · rw [List.head?_cons, List.head?_cons, Option.some.injEq, Option.some.injEq, hone]

/-- No NUL comes out of a text without one. -/
lemma zero_notMem_scalars : ∀ {s : Str}, (0 : UInt16) ∉ s → 0 ∉ scalars s
  | [], _ => by simp [scalars]
  | [c], h => by
      rw [scalars, List.mem_singleton]
      intro h0
      split at h0
      · omega
      · obtain rfl : 0 = c := UInt16.toNat_inj.mp h0
        exact h (List.mem_singleton_self 0)
  | c :: d :: s, h => by
      rw [scalars]
      split
      · rw [List.mem_cons]
        rintro (h0 | hs)
        · unfold pairValue at h0
          omega
        · exact zero_notMem_scalars (fun hm => h (by simp [hm])) hs
      · rw [List.mem_cons]
        rintro (h0 | hs)
        · split at h0
          · omega
          · obtain rfl : 0 = c := UInt16.toNat_inj.mp h0
            exact h List.mem_cons_self
        · exact zero_notMem_scalars (fun hm => h (List.mem_cons_of_mem _ hm)) hs

/-! ### Encoding -/

/-- The UTF-8 bytes of a scalar value. -/
def encodeScalar (cp : ℕ) : Bytes :=
  if cp < 0x80 then [UInt8.ofNat cp]
  else if cp < 0x800 then [UInt8.ofNat (0xC0 + cp / 0x40), UInt8.ofNat (0x80 + cp % 0x40)]
  else if cp < 0x10000 then
    [UInt8.ofNat (0xE0 + cp / 0x1000), UInt8.ofNat (0x80 + cp / 0x40 % 0x40),
      UInt8.ofNat (0x80 + cp % 0x40)]
  else
    [UInt8.ofNat (0xF0 + cp / 0x40000), UInt8.ofNat (0x80 + cp / 0x1000 % 0x40),
      UInt8.ofNat (0x80 + cp / 0x40 % 0x40), UInt8.ofNat (0x80 + cp % 0x40)]

/-- `TextEncoder.encode`. -/
def utf8Encode (s : Str) : Bytes := (scalars s).flatMap encodeScalar

lemma encodeScalar_pos (cp : ℕ) : 0 < (encodeScalar cp).length := by
  rw [encodeScalar]
  split_ifs <;> simp

/-- No zero byte comes out of a text without NUL. -/
lemma zero_notMem_utf8Encode {s : Str} (h : (0 : UInt16) ∉ s) : (0 : UInt8) ∉ utf8Encode s := by
  intro hmem
  obtain ⟨cp, hcp, hb⟩ := List.mem_flatMap.mp hmem
  have hne : cp ≠ 0 := fun h0 => zero_notMem_scalars h (h0 ▸ hcp)
  have hscalar : IsScalar cp := isScalar_of_mem_scalars hcp
  have hbyte : ∀ n, 0 < n → n < 256 → (0 : UInt8) ≠ UInt8.ofNat n := by
    intro n hn hlt h0
    have := congrArg UInt8.toNat h0
    rw [UInt8.toNat_ofNat', UInt8.toNat_zero] at this
    omega
  rw [encodeScalar] at hb
  unfold IsScalar at hscalar
  split_ifs at hb <;> simp only [List.mem_cons, List.not_mem_nil, or_false] at hb
  · exact hbyte cp (by omega) (by omega) hb
  · rcases hb with hb | hb <;> exact hbyte _ (by omega) (by omega) hb
  · rcases hb with hb | hb | hb <;> exact hbyte _ (by omega) (by omega) hb
  · rcases hb with hb | hb | hb | hb <;> exact hbyte _ (by omega) (by omega) hb

/-- Every code unit takes a byte. -/
lemma length_le_utf8Encode : ∀ s : Str, s.length ≤ (utf8Encode s).length
  | [] => Nat.zero_le _
  | [c] => by
      have hpos := encodeScalar_pos (if isHigh c || isLow c then 0xFFFD else c.toNat)
      simp only [utf8Encode, scalars, List.flatMap_cons, List.flatMap_nil, List.append_nil,
        List.length_singleton]
      omega
  | c :: d :: s => by
      rw [utf8Encode, scalars]
      split
      · have hs := length_le_utf8Encode s
        have hbig : 0x10000 ≤ pairValue c d := by
          unfold pairValue
          omega
        have hpair : (encodeScalar (pairValue c d)).length = 4 := by
          rw [encodeScalar, if_neg (by omega), if_neg (by omega), if_neg (by omega)]
          rfl
        rw [utf8Encode] at hs
        simp only [List.flatMap_cons, List.length_append, List.length_cons]
        omega
      · have hs := length_le_utf8Encode (d :: s)
        have hpos := encodeScalar_pos (if isHigh c || isLow c then 0xFFFD else c.toNat)
        rw [utf8Encode] at hs
        simp only [List.flatMap_cons, List.length_append, List.length_cons] at hs ⊢
        omega

/-! ### Decoding -/

/-- The state of the decoder: continuation bytes owed, the value so far and the range the
next byte must lie in. -/
structure DecodeState where
  need : ℕ
  cp : ℕ
  lo : ℕ
  hi : ℕ

/-- Between characters. -/
def DecodeState.init : DecodeState := ⟨0, 0, 0x80, 0xBF⟩

/-- The first byte of a character: what it emits, a value, an error or nothing yet, and the
state after it. -/
def decodeLead (b : ℕ) : Option (Option ℕ) × DecodeState :=
  if b < 0x80 then (some (some b), .init)
  else if 0xC2 ≤ b ∧ b ≤ 0xDF then (none, ⟨1, b - 0xC0, 0x80, 0xBF⟩)
  else if 0xE0 ≤ b ∧ b ≤ 0xEF then
    (none, ⟨2, b - 0xE0, if b = 0xE0 then 0xA0 else 0x80, if b = 0xED then 0x9F else 0xBF⟩)
  else if 0xF0 ≤ b ∧ b ≤ 0xF4 then
    (none, ⟨3, b - 0xF0, if b = 0xF0 then 0x90 else 0x80, if b = 0xF4 then 0x8F else 0xBF⟩)
  else (some none, .init)

/-- The WHATWG UTF-8 decoder: scalar values and, as `none`, decoding errors. A byte that
breaks a character off is read again as a first byte. -/
def utf8Decode : DecodeState → Bytes → List (Option ℕ)
  | st, [] => if st.need = 0 then [] else [none]
  | st, b :: bs =>
      if st.need = 0 then
        (decodeLead b.toNat).1.toList ++ utf8Decode (decodeLead b.toNat).2 bs
      else if st.lo ≤ b.toNat ∧ b.toNat ≤ st.hi then
        if st.need = 1 then some (st.cp * 0x40 + (b.toNat - 0x80)) :: utf8Decode .init bs
        else utf8Decode ⟨st.need - 1, st.cp * 0x40 + (b.toNat - 0x80), 0x80, 0xBF⟩ bs
      else none :: ((decodeLead b.toNat).1.toList ++ utf8Decode (decodeLead b.toNat).2 bs)

/-- All values, when none is an error. -/
def allSome : List (Option ℕ) → Option (List ℕ)
  | [] => some []
  | none :: _ => none
  | some a :: l => (allSome l).map (a :: ·)

/-- A leading byte order mark is dropped. -/
def dropBom : List ℕ → List ℕ
  | 0xFEFF :: l => l
  | l => l

/-- `new TextDecoder("utf-8", { fatal: true }).decode`: `none` where it throws. -/
def decodeFatal (b : Bytes) : Option Str :=
  (allSome (utf8Decode .init b)).map fun l => (dropBom l).flatMap units

/-- `new TextDecoder().decode`: an error reads as U+FFFD. -/
def decodeLossy (b : Bytes) : Str :=
  (dropBom ((utf8Decode .init b).map (·.getD 0xFFFD))).flatMap units

lemma toNat_ofNat_byte {n : ℕ} (h : n < 256) : (UInt8.ofNat n).toNat = n := by
  rw [UInt8.toNat_ofNat']
  omega

/-- A continuation byte in its range, with more owed after it. -/
lemma utf8Decode_more {need cp lo hi n : ℕ} {bs : Bytes} (hn : 1 < need) (hb : n < 256)
    (hlo : lo ≤ n) (hhi : n ≤ hi) :
    utf8Decode ⟨need, cp, lo, hi⟩ (UInt8.ofNat n :: bs)
      = utf8Decode ⟨need - 1, cp * 0x40 + (n - 0x80), 0x80, 0xBF⟩ bs := by
  rw [utf8Decode, toNat_ofNat_byte hb]
  simp only [show ¬ need = 0 by omega, show ¬ need = 1 by omega, hlo, hhi, and_self, if_true,
    if_false]

/-- The last continuation byte of a character. -/
lemma utf8Decode_last {cp lo hi n : ℕ} {bs : Bytes} (hb : n < 256) (hlo : lo ≤ n)
    (hhi : n ≤ hi) :
    utf8Decode ⟨1, cp, lo, hi⟩ (UInt8.ofNat n :: bs)
      = some (cp * 0x40 + (n - 0x80)) :: utf8Decode .init bs := by
  rw [utf8Decode, toNat_ofNat_byte hb]
  simp only [hlo, hhi, and_self, if_true, one_ne_zero, if_false]

/-- A first byte, from between characters. -/
lemma utf8Decode_init {n : ℕ} {bs : Bytes} (hb : n < 256) :
    utf8Decode .init (UInt8.ofNat n :: bs)
      = (decodeLead n).1.toList ++ utf8Decode (decodeLead n).2 bs := by
  rw [utf8Decode, toNat_ofNat_byte hb]
  simp [DecodeState.init]

/-- The bytes of a scalar value decode to it. -/
lemma utf8Decode_encodeScalar {cp : ℕ} (h : IsScalar cp) (bs : Bytes) :
    utf8Decode .init (encodeScalar cp ++ bs) = some cp :: utf8Decode .init bs := by
  rw [IsScalar] at h
  rw [encodeScalar]
  by_cases h1 : cp < 0x80
  · rw [if_pos h1, List.singleton_append, utf8Decode_init (by omega), decodeLead, if_pos h1]
    rfl
  by_cases h2 : cp < 0x800
  · rw [if_neg h1, if_pos h2, List.cons_append, List.singleton_append,
      utf8Decode_init (by omega), decodeLead, if_neg (by omega), if_pos (by omega)]
    simp only [Option.toList_none, List.nil_append]
    rw [utf8Decode_last (by omega) (by omega) (by omega),
      show (0xC0 + cp / 0x40 - 0xC0) * 0x40 + (0x80 + cp % 0x40 - 0x80) = cp by omega]
  by_cases h3 : cp < 0x10000
  · rw [if_neg h1, if_neg h2, if_pos h3, List.cons_append, List.cons_append,
      List.singleton_append, utf8Decode_init (by omega), decodeLead, if_neg (by omega),
      if_neg (by omega), if_pos (by omega)]
    simp only [Option.toList_none, List.nil_append]
    rw [utf8Decode_more (by omega) (by omega) (by split <;> omega) (by split <;> omega),
      utf8Decode_last (by omega) (by omega) (by omega),
      show ((0xE0 + cp / 0x1000 - 0xE0) * 0x40 + (0x80 + cp / 0x40 % 0x40 - 0x80)) * 0x40
        + (0x80 + cp % 0x40 - 0x80) = cp by omega]
  · rw [if_neg h1, if_neg h2, if_neg h3, List.cons_append, List.cons_append, List.cons_append,
      List.singleton_append, utf8Decode_init (by omega), decodeLead, if_neg (by omega),
      if_neg (by omega), if_neg (by omega), if_pos (by omega)]
    simp only [Option.toList_none, List.nil_append]
    rw [utf8Decode_more (by omega) (by omega) (by split <;> omega) (by split <;> omega),
      utf8Decode_more (by omega) (by omega) (by omega) (by omega),
      utf8Decode_last (by omega) (by omega) (by omega),
      show (((0xF0 + cp / 0x40000 - 0xF0) * 0x40 + (0x80 + cp / 0x1000 % 0x40 - 0x80)) * 0x40
        + (0x80 + cp / 0x40 % 0x40 - 0x80)) * 0x40 + (0x80 + cp % 0x40 - 0x80) = cp by omega]

lemma utf8Decode_flatMap {l : List ℕ} (h : ∀ cp ∈ l, IsScalar cp) :
    utf8Decode .init (l.flatMap encodeScalar) = l.map some := by
  induction l with
  | nil => rfl
  | cons cp l ih =>
      rw [List.flatMap_cons, utf8Decode_encodeScalar (h cp (by simp)),
        ih fun x hx => h x (by simp [hx]), List.map_cons]

lemma allSome_map_some (l : List ℕ) : allSome (l.map some) = some l := by
  induction l with
  | nil => rfl
  | cons a l ih => rw [List.map_cons, allSome, ih]; rfl

/-- The decoder reads an encoded string as the scalar values it was encoded from. -/
lemma utf8Decode_utf8Encode (s : Str) : utf8Decode .init (utf8Encode s) = (scalars s).map some :=
  utf8Decode_flatMap fun _ h => isScalar_of_mem_scalars h

/-- Strings without lone surrogates have bytes of their own. -/
lemma utf8Encode_inj {s t : Str} (hs : wellFormed s = true) (ht : wellFormed t = true)
    (h : utf8Encode s = utf8Encode t) : s = t := by
  have hmap : (scalars s).map some = (scalars t).map some := by
    rw [← utf8Decode_utf8Encode, h, utf8Decode_utf8Encode]
  rw [← flatMap_units_scalars hs, ← flatMap_units_scalars ht,
    List.map_injective_iff.mpr (Option.some_injective _) hmap]

lemma dropBom_of_head {l : List ℕ} (h : l.head? ≠ some 0xFEFF) : dropBom l = l := by
  rw [dropBom.eq_def]
  split
  · exact absurd rfl h
  · rfl

/-- **The UTF-8 round trip**: a string without lone surrogates and without a leading byte
order mark comes back from its bytes. -/
theorem decodeFatal_utf8Encode {s : Str} (hw : wellFormed s = true)
    (hb : (scalars s).head? ≠ some 0xFEFF) : decodeFatal (utf8Encode s) = some s := by
  rw [decodeFatal, utf8Decode_utf8Encode, allSome_map_some, Option.map_some, dropBom_of_head hb,
    flatMap_units_scalars hw]

/-- The lossy decoder agrees with the fatal one wherever that one does not throw. -/
lemma decodeLossy_of_decodeFatal {b : Bytes} {s : Str} (h : decodeFatal b = some s) :
    decodeLossy b = s := by
  obtain ⟨l, hl, rfl⟩ := Option.map_eq_some_iff.mp h
  have key : ∀ (o : List (Option ℕ)) (l : List ℕ), allSome o = some l →
      o.map (·.getD 0xFFFD) = l := by
    intro o
    induction o with
    | nil => intro l h; simpa [allSome] using h
    | cons a o ih =>
        intro l h
        cases a with
        | none => simp [allSome] at h
        | some a =>
            obtain ⟨l', hl', rfl⟩ := Option.map_eq_some_iff.mp h
            simp [ih l' hl']
  rw [decodeLossy, key _ _ hl]

/-! ### ASCII strings -/

/-- Every code unit is ASCII. -/
def isAscii (s : Str) : Bool := s.all fun c => c.toNat < 0x80

lemma scalars_of_isAscii : ∀ {s : Str}, isAscii s = true → scalars s = s.map UInt16.toNat
  | [], _ => rfl
  | [c], h => by
      simp only [isAscii, List.all_cons, List.all_nil, Bool.and_true, decide_eq_true_eq] at h
      simp [scalars, isHigh, isLow]
      omega
  | c :: d :: s, h => by
      simp only [isAscii, List.all_cons, Bool.and_eq_true, decide_eq_true_eq] at h
      have ih : scalars (d :: s) = (d :: s).map UInt16.toNat :=
        scalars_of_isAscii (by simpa [isAscii] using h.2)
      have hc : isHigh c = false ∧ isLow c = false := by simp [isHigh, isLow]; omega
      rw [scalars, hc.1, hc.2, ih]
      simp

lemma wellFormed_of_isAscii : ∀ {s : Str}, isAscii s = true → wellFormed s = true
  | [], _ => rfl
  | [c], h => by
      simp only [isAscii, List.all_cons, List.all_nil, Bool.and_true, decide_eq_true_eq] at h
      simp [wellFormed, isHigh, isLow]
      omega
  | c :: d :: s, h => by
      simp only [isAscii, List.all_cons, Bool.and_eq_true, decide_eq_true_eq] at h
      have ih : wellFormed (d :: s) = true :=
        wellFormed_of_isAscii (by simpa [isAscii] using h.2)
      have hc : isHigh c = false ∧ isLow c = false := by simp [isHigh, isLow]; omega
      rw [wellFormed, hc.1, hc.2, ih]
      simp

/-- ASCII text is one byte a code unit. -/
lemma utf8Encode_of_isAscii {s : Str} (h : isAscii s = true) :
    utf8Encode s = s.map fun c => UInt8.ofNat c.toNat := by
  rw [utf8Encode, scalars_of_isAscii h, List.flatMap_map]
  induction s with
  | nil => rfl
  | cons c s ih =>
      simp only [isAscii, List.all_cons, Bool.and_eq_true, decide_eq_true_eq] at h
      rw [List.flatMap_cons, ih (by simpa [isAscii] using h.2), encodeScalar, if_pos h.1]
      rfl

end Js
