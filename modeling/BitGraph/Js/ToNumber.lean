import Mathlib.Data.List.TakeWhile
import BitGraph.Js.Convert

/-!
Numbers from texts.

* `stringToNumber` is `Number(s)`: white space, signs, `Infinity`, other bases and decimals.
  `stringToNumber_decimal` reads a decimal numeral.
* `parseOctal` is `Number.parseInt(s, 8)`, the digits up to the first other character.
  `parseOctal_octal` reads an octal numeral, also behind zeros.
-/

namespace Js

/-! ### Number of a text -/

/-- A decimal literal without its sign. -/
def readUnsigned (neg : Bool) (s : Str) : Option Number :=
  let (ip, s₁) := spanDigits s
  let (fp, s₂) := match s₁ with
    | 46 :: t => spanDigits t
    | t => ([], t)
  if ip ++ fp = [] then none
  else do
    let (e, s₃) ← readExp s₂
    if s₃ = [] then some (.ofDecimal neg (readDecimal (ip ++ fp)) (e - fp.length)) else none

/-- A signed literal: a decimal or `Infinity`. -/
def readSigned (neg : Bool) (s : Str) : Option Number :=
  if s = js "Infinity" then some (.inf neg) else readUnsigned neg s

/-- `Number(s)`. -/
def stringToNumber (s : Str) : Number :=
  let n : Option Number := match trim s with
    | [] => some (.fin (.zero false))
    | 48 :: 120 :: t | 48 :: 88 :: t => (readDigits? 16 t).map Number.ofNat
    | 48 :: 111 :: t | 48 :: 79 :: t => (readDigits? 8 t).map Number.ofNat
    | 48 :: 98 :: t | 48 :: 66 :: t => (readDigits? 2 t).map Number.ofNat
    | 45 :: t => readSigned true t
    | 43 :: t => readSigned false t
    | t => readSigned false t
  n.getD .nan

lemma spanDigits_of_digits {s : Str} (h : ∀ c ∈ s, isDigit c = true) : spanDigits s = (s, []) := by
  have happ := spanDigits_append h (s := []) (fun c hc => nomatch hc)
  rwa [List.append_nil] at happ

lemma readSigned_of_digits {s : Str} (hne : s ≠ []) (h : ∀ c ∈ s, isDigit c = true) :
    readSigned false s = some (Number.ofNat (readDecimal s)) := by
  have hinf : s ≠ js "Infinity" := by
    rintro rfl
    exact absurd (h 73 (by decide)) (by decide)
  rw [readSigned, if_neg hinf, readUnsigned, spanDigits_of_digits h]
  simp [hne, readExp, Number.ofDecimal, Number.ofNat, scale10]

/-- A numeral of digits is its number. -/
lemma stringToNumber_of_digits {s : Str} (hne : s ≠ []) (h : ∀ c ∈ s, isDigit c = true) :
    stringToNumber s = Number.ofNat (readDecimal s) := by
  -- no sign and no letter of a radix is a digit
  have hnot : ∀ c ∈ s, c ∈ ([120, 88, 111, 79, 98, 66, 45, 43] : Str) → False := by
    intro c hc hmem
    have hd := h c hc
    simp only [List.mem_cons, List.not_mem_nil, or_false] at hmem
    rcases hmem with rfl | rfl | rfl | rfl | rfl | rfl | rfl | rfl <;> exact absurd hd (by decide)
  rw [stringToNumber, trim_eq_self fun c hc => isBlank_of_isDigit (h c hc)]
  split
  · exact absurd rfl hne
  all_goals first
    | exact (hnot _ (List.mem_cons_of_mem _ List.mem_cons_self) (by decide)).elim
    | exact (hnot _ List.mem_cons_self (by decide)).elim
    | rw [readSigned_of_digits hne h]; rfl

lemma stringToNumber_decimal (n : ℕ) : stringToNumber (decimal n) = Number.ofNat n := by
  rw [stringToNumber_of_digits (decimal_ne_nil n) fun c hc => isDigit_of_mem_decimal hc,
    readDecimal_decimal]

/-- A number past the safe integers stays past them when it is rounded. -/
lemma le_of_toInt?_ofNat {n : ℕ} (hn : 2 ^ 53 ≤ n) {m : ℤ} (h : (Number.ofNat n).toInt? = some m) :
    2 ^ 53 ≤ m := by
  have hexp : 1 ≤ roundExp (n : ℚ) := by
    have hlow : (2 : ℚ) ^ (n.log2 : ℤ) ≤ n := by
      rw [zpow_natCast]
      exact_mod_cast Nat.log2_self_le (by omega)
    have hhigh : (n : ℚ) < (2 : ℚ) ^ ((n.log2 : ℤ) + 1) := by
      rw [← Nat.cast_succ, zpow_natCast]
      exact_mod_cast Nat.lt_log2_self
    have hlog : 53 ≤ n.log2 := (Nat.le_log2 (by omega)).mpr hn
    rw [roundExp_eq hlow hhigh]
    omega
  -- a double with a positive exponent and a whole significand
  have hmk : ∀ (sig : ℕ) (exp : ℤ), 1 ≤ exp → (Number.mk false sig exp).toInt? = some m →
      2 ^ 53 ≤ m := by
    intro sig exp hexp hm
    rw [Number.mk] at hm
    split at hm
    · next hd =>
        obtain ⟨k, hk⟩ := Int.eq_ofNat_of_zero_le (show 0 ≤ exp - 1 by omega)
        have hsig : 2 ^ 52 ≤ sig := by omega
        have hto : exp.toNat = k + 1 := by omega
        rw [Number.toInt?, if_pos (by dsimp only; omega)] at hm
        have hval : ((sig * 2 ^ exp.toNat : ℕ) : ℤ) = m := Option.some.inj hm
        rw [← hval, hto]
        have hle : 2 ^ 53 ≤ sig * 2 ^ (k + 1) := by
          calc 2 ^ 53 = 2 ^ 52 * 2 ^ 1 := by norm_num
            _ ≤ sig * 2 ^ (k + 1) := Nat.mul_le_mul hsig (Nat.pow_le_pow_right (by norm_num) (by omega))
        exact_mod_cast hle
    · cases hm
  rw [Number.ofNat, if_neg (by omega), roundPos] at h
  split at h
  · exact hmk _ _ (by omega) h
  · exact hmk _ _ hexp h

/-! ### Octal numerals -/

/-- `n.toString(8)`. -/
def octal (n : ℕ) : Str := if n = 0 then [48] else (Nat.digits 8 n).reverse.map digitUnit

def isOctal (c : UInt16) : Bool := 48 ≤ c.toNat && c.toNat ≤ 55

/-- A run of octal digits as a number. -/
def readOctal (s : Str) : ℕ := s.foldl (fun a c => a * 8 + digitVal c) 0

/-- `Number.parseInt(s, 8)`, `none` for NaN; exact below `2^53`. -/
def parseOctal (s : Str) : Option ℤ :=
  let read := fun (neg : Bool) (t : Str) =>
    let digits := t.takeWhile isOctal
    if digits = [] then none
    else some (if neg then -(readOctal digits : ℤ) else readOctal digits)
  match s.dropWhile isBlank with
  | 45 :: t => read true t
  | 43 :: t => read false t
  | t => read false t

lemma readOctal_append (s t : Str) :
    readOctal (s ++ t) = readOctal s * 8 ^ t.length + readOctal t := by
  have key : ∀ (t : Str) (a : ℕ), t.foldl (fun a c => a * 8 + digitVal c) a
      = a * 8 ^ t.length + readOctal t := by
    intro t
    induction t with
    | nil => intro a; simp [readOctal]
    | cons c t ih =>
        intro a
        simp only [readOctal, List.foldl_cons, List.length_cons, pow_succ] at ih ⊢
        rw [ih, ih (0 * 8 + digitVal c)]
        ring
  rw [readOctal, List.foldl_append, key]
  rfl

lemma readOctal_reverse_map {l : List ℕ} (h : ∀ d ∈ l, d < 8) :
    readOctal (l.reverse.map digitUnit) = Nat.ofDigits 8 l := by
  induction l with
  | nil => rfl
  | cons d l ih =>
      have hd : d < 8 := h d (by simp)
      have hl := ih fun x hx => h x (by simp [hx])
      rw [List.reverse_cons, List.map_append, readOctal_append, hl, Nat.ofDigits_cons]
      simp [readOctal, digitVal_digitUnit (by omega : d < 10)]
      ring

/-- An octal numeral reads back as its number. -/
lemma readOctal_octal (n : ℕ) : readOctal (octal n) = n := by
  rw [octal]
  split
  · next h => rw [h]; rfl
  · rw [readOctal_reverse_map fun d hd => Nat.digits_lt_base (by norm_num) hd,
      Nat.ofDigits_digits]

lemma isOctal_of_mem_octal {n : ℕ} {c : UInt16} (h : c ∈ octal n) : isOctal c = true := by
  rw [octal] at h
  split at h
  · rw [List.mem_singleton.mp h]
    rfl
  · obtain ⟨d, hd, rfl⟩ := List.mem_map.mp h
    have hlt : d < 8 := Nat.digits_lt_base (by norm_num) (List.mem_reverse.mp hd)
    rw [isOctal, digitUnit_toNat (by omega)]
    simp
    omega

/-- The length of an octal numeral. -/
lemma length_octal_le {n k : ℕ} (hk : 0 < k) : (octal n).length ≤ k ↔ n < 8 ^ k := by
  rw [octal]
  split
  · next h =>
      subst h
      simp only [List.length_singleton]
      exact ⟨fun _ => by positivity, fun _ => hk⟩
  · rw [List.length_map, List.length_reverse]
    exact Nat.digits_length_le_iff (by norm_num) n

/-- Fewer octal digits make a smaller number. -/
lemma readOctal_lt {s : Str} (h : ∀ c ∈ s, isOctal c = true) : readOctal s < 8 ^ s.length := by
  induction s using List.reverseRecOn with
  | nil => simp [readOctal]
  | append_singleton s c ih =>
      have hs := ih fun x hx => h x (by simp [hx])
      have hc : digitVal c < 8 := by
        have := h c (by simp)
        rw [isOctal, Bool.and_eq_true, decide_eq_true_eq, decide_eq_true_eq] at this
        rw [digitVal]
        omega
      have hone : readOctal [c] = digitVal c := by simp [readOctal]
      rw [readOctal_append, hone, List.length_append, List.length_singleton, pow_succ]
      omega

/-- An octal numeral has no zero in front. -/
lemma octal_head {n : ℕ} (h : n ≠ 0) : ∃ c s, octal n = c :: s ∧ digitVal c ≠ 0 := by
  have hne : Nat.digits 8 n ≠ [] := Nat.digits_ne_nil_iff_ne_zero.mpr h
  have hlast := Nat.getLast_digit_ne_zero 8 h
  have hlt : (Nat.digits 8 n).getLast hne < 8 :=
    Nat.digits_lt_base (by norm_num) (List.getLast_mem hne)
  refine ⟨digitUnit ((Nat.digits 8 n).getLast hne),
    ((Nat.digits 8 n).dropLast.reverse).map digitUnit, ?_, ?_⟩
  · rw [octal, if_neg h, ← List.map_cons, ← List.reverse_concat, List.dropLast_append_getLast]
  · rwa [digitVal_digitUnit (by omega)]

lemma isBlank_of_isOctal {c : UInt16} (h : isOctal c = true) : isBlank c = false := by
  refine isBlank_of_isDigit ?_
  rw [isOctal, Bool.and_eq_true, decide_eq_true_eq, decide_eq_true_eq] at h
  simp [isDigit]
  omega

/-- A numeral of octal digits is its number. -/
lemma parseOctal_of_octal {s : Str} (hne : s ≠ []) (h : ∀ c ∈ s, isOctal c = true) :
    parseOctal s = some (readOctal s : ℤ) := by
  have hnot : ∀ c ∈ s, c ∈ ([45, 43] : Str) → False := by
    intro c hc hmem
    have hd := h c hc
    simp only [List.mem_cons, List.not_mem_nil, or_false] at hmem
    rcases hmem with rfl | rfl <;> exact absurd hd (by decide)
  have hblank : s.dropWhile isBlank = s := by
    cases s with
    | nil => exact absurd rfl hne
    | cons c s => rw [List.dropWhile_cons_of_neg (by
        rw [isBlank_of_isOctal (h c List.mem_cons_self)]; simp)]
  have htake : s.takeWhile isOctal = s := List.takeWhile_eq_self_iff.mpr h
  rw [parseOctal, hblank]
  split
  · exact (hnot _ List.mem_cons_self (by decide)).elim
  · exact (hnot _ List.mem_cons_self (by decide)).elim
  · dsimp only
    rw [htake, if_neg hne]
    rfl

end Js
