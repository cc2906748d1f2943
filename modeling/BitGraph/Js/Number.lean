import BitGraph.Js.Text
import Mathlib.Data.Rat.Floor
import Mathlib.Data.Nat.Digits.Lemmas

/-!
JavaScript numbers: IEEE 754 binary64 values, their decimal text and the reading of it.

* **Values.** `Double` is a finite double in its one canonical form `sig · 2^exp`, signed
  zeros included; `Number` adds `NaN` and the infinities.
* **Rounding.** `roundPos` takes a positive rational to the nearest double, ties to even, and
  to an infinity on overflow. `roundPos_mag`: a double rounds to itself.
* **Text.** `Number.toStr` is `Number::toString`: the shortest decimal that rounds back
  (`shortest`, `roundPos_shortest`) in the layout of the specification.
* **Reading.** `readNumber` is the JSON number grammar. `readNumber_toStr`: a finite number
  reads back as itself, a negative zero as zero.
* **Integers.** `Number.toInt?` is `Number.isInteger` with the integer, `Number.ofNat` the double
  of a natural number, exact below `2^53` (`toInt?_ofNat`); `roundNat` is that rounding on
  natural numbers alone. `toStr_ofNat`: the text of a small one is its numeral.
-/

namespace Js

/-! ### Values -/

/-- A finite double, `(-1)^neg · sig · 2^exp`, in canonical form: normal, or with the least
exponent. -/
structure Double where
  neg : Bool
  sig : ℕ
  exp : ℤ
  canonical : (2 ^ 52 ≤ sig ∧ sig < 2 ^ 53 ∧ -1074 ≤ exp ∧ exp ≤ 971) ∨
    (sig < 2 ^ 52 ∧ exp = -1074)
  deriving DecidableEq

/-- A JavaScript number. -/
inductive Number where
  | nan
  | inf (neg : Bool)
  | fin (d : Double)
  deriving DecidableEq

/-- The zero of a sign. -/
def Double.zero (neg : Bool) : Double := ⟨neg, 0, -1074, by norm_num⟩

/-- `m · 2^e` as a rational. -/
def scale2 (m : ℕ) (e : ℤ) : ℚ :=
  if 0 ≤ e then ((m * 2 ^ e.toNat : ℕ) : ℚ) else mkRat m (2 ^ (-e).toNat)

/-- `m · 10^e` as a rational. -/
def scale10 (m : ℕ) (e : ℤ) : ℚ :=
  if 0 ≤ e then ((m * 10 ^ e.toNat : ℕ) : ℚ) else mkRat m (10 ^ (-e).toNat)

/-- The magnitude of a double. -/
def Double.mag (d : Double) : ℚ := scale2 d.sig d.exp

lemma scale2_eq (m : ℕ) (e : ℤ) : scale2 m e = m * (2 : ℚ) ^ e := by
  rw [scale2]
  split
  · next h =>
      obtain ⟨n, rfl⟩ := Int.eq_ofNat_of_zero_le h
      simp
  · next h =>
      obtain ⟨n, hn⟩ := Int.eq_ofNat_of_zero_le (show 0 ≤ -e by omega)
      rw [Rat.mkRat_eq_div, show e = -(n : ℤ) by omega, zpow_neg]
      simp [div_eq_mul_inv]

lemma scale10_eq (m : ℕ) (e : ℤ) : scale10 m e = m * (10 : ℚ) ^ e := by
  rw [scale10]
  split
  · next h =>
      obtain ⟨n, rfl⟩ := Int.eq_ofNat_of_zero_le h
      simp
  · next h =>
      obtain ⟨n, hn⟩ := Int.eq_ofNat_of_zero_le (show 0 ≤ -e by omega)
      rw [Rat.mkRat_eq_div, show e = -(n : ℤ) by omega, zpow_neg]
      simp [div_eq_mul_inv]

lemma Double.mag_eq (d : Double) : d.mag = d.sig * (2 : ℚ) ^ d.exp := scale2_eq _ _

lemma Double.mag_pos {d : Double} (h : d.sig ≠ 0) : 0 < d.mag := by
  rw [d.mag_eq]
  have : (0 : ℚ) < d.sig := by exact_mod_cast Nat.pos_of_ne_zero h
  positivity

/-! ### Rounding -/

/-- `2^l · b ≤ a`, in natural numbers. -/
def leScaled (l : ℤ) (a b : ℕ) : Bool :=
  if 0 ≤ l then b * 2 ^ l.toNat ≤ a else b ≤ a * 2 ^ (-l).toNat

/-- The exponent of the largest power of two at most `a / b`. -/
def floorLog2 (a b : ℕ) : ℤ :=
  let l : ℤ := (a.log2 : ℤ) - b.log2
  if leScaled l a b then l else l - 1

/-- The exponent a positive rational is rounded at: 53 significant bits, none below
`2^-1074`. -/
def roundExp (x : ℚ) : ℤ := max (floorLog2 x.num.toNat x.den - 52) (-1074)

/-- The quotient rounded to the nearest natural number, ties to even. -/
def roundEven (n d : ℕ) : ℕ :=
  if 2 * (n % d) < d then n / d
  else if d < 2 * (n % d) then n / d + 1
  else n / d + n / d % 2

/-- `x / 2^u` rounded to the nearest natural number, ties to even. -/
def roundAt (x : ℚ) (u : ℤ) : ℕ :=
  if 0 ≤ u then roundEven x.num.toNat (x.den * 2 ^ u.toNat)
  else roundEven (x.num.toNat * 2 ^ (-u).toNat) x.den

/-- The double of a sign, significand and exponent, an infinity past the largest exponent. -/
def Number.mk (neg : Bool) (sig : ℕ) (exp : ℤ) : Number :=
  if h : (2 ^ 52 ≤ sig ∧ sig < 2 ^ 53 ∧ -1074 ≤ exp ∧ exp ≤ 971) ∨ (sig < 2 ^ 52 ∧ exp = -1074)
  then .fin ⟨neg, sig, exp, h⟩ else .inf neg

/-- The double nearest to a positive rational, ties to even, with a sign. -/
def roundPos (neg : Bool) (x : ℚ) : Number :=
  let u := roundExp x
  let q := roundAt x u
  -- rounding up out of the 53 bits moves to the next exponent
  if q = 2 ^ 53 then .mk neg (2 ^ 52) (u + 1) else .mk neg q u

lemma leScaled_iff {l : ℤ} {a b : ℕ} :
    leScaled l a b = true ↔ (b : ℚ) * (2 : ℚ) ^ l ≤ a := by
  rw [leScaled]
  split
  · next h =>
      obtain ⟨n, rfl⟩ := Int.eq_ofNat_of_zero_le h
      simp only [Int.toNat_natCast, decide_eq_true_eq, zpow_natCast]
      exact_mod_cast Iff.rfl
  · next h =>
      obtain ⟨n, hn⟩ := Int.eq_ofNat_of_zero_le (show 0 ≤ -l by omega)
      rw [show l = -(n : ℤ) by omega]
      simp only [neg_neg, Int.toNat_natCast, decide_eq_true_eq, zpow_neg, zpow_natCast]
      rw [← div_eq_mul_inv, div_le_iff₀ (by positivity)]
      exact_mod_cast Iff.rfl

/-- The exponent found is that of the largest power of two below the quotient. -/
lemma floorLog2_spec {a b : ℕ} (ha : 0 < a) (hb : 0 < b) :
    (b : ℚ) * (2 : ℚ) ^ floorLog2 a b ≤ a ∧ (a : ℚ) < b * (2 : ℚ) ^ (floorLog2 a b + 1) := by
  have ha1 : ((2 ^ a.log2 : ℕ) : ℚ) ≤ a := by exact_mod_cast Nat.log2_self_le (by omega)
  have ha2 : (a : ℚ) < ((2 ^ (a.log2 + 1) : ℕ) : ℚ) := by exact_mod_cast Nat.lt_log2_self
  have hb1 : ((2 ^ b.log2 : ℕ) : ℚ) ≤ b := by exact_mod_cast Nat.log2_self_le (by omega)
  have hb2 : (b : ℚ) < ((2 ^ (b.log2 + 1) : ℕ) : ℚ) := by exact_mod_cast Nat.lt_log2_self
  push_cast at ha1 ha2 hb1 hb2
  set l : ℤ := (a.log2 : ℤ) - b.log2 with hl
  have h2 : (0 : ℚ) < (2 : ℚ) ^ l := by positivity
  -- the two powers bracketing the quotient
  have hlow : (b : ℚ) * (2 : ℚ) ^ (l - 1) ≤ a := by
    calc (b : ℚ) * (2 : ℚ) ^ (l - 1)
        ≤ 2 ^ (b.log2 + 1) * (2 : ℚ) ^ (l - 1) := by gcongr
      _ = 2 ^ a.log2 := by
          rw [← zpow_natCast, ← zpow_natCast, ← zpow_add₀ (by norm_num)]
          congr 1
          push_cast
          omega
      _ ≤ a := ha1
  have hhigh : (a : ℚ) < b * (2 : ℚ) ^ (l + 1) := by
    calc (a : ℚ) < 2 ^ (a.log2 + 1) := ha2
      _ = 2 ^ b.log2 * (2 : ℚ) ^ (l + 1) := by
          rw [← zpow_natCast, ← zpow_natCast, ← zpow_add₀ (by norm_num)]
          congr 1
          push_cast
          omega
      _ ≤ b * (2 : ℚ) ^ (l + 1) := by gcongr
  rw [floorLog2, ← hl]
  by_cases h : leScaled l a b = true
  · rw [if_pos h]
    exact ⟨leScaled_iff.mp h, hhigh⟩
  · rw [if_neg h, sub_add_cancel]
    exact ⟨hlow, not_le.mp fun h' => h (leScaled_iff.mpr h')⟩

lemma num_div_den {x : ℚ} (hx : 0 < x) : x = (x.num.toNat : ℚ) / x.den := by
  have hn : (x.num.toNat : ℚ) = x.num := by
    exact_mod_cast Int.toNat_of_nonneg (Rat.num_nonneg.mpr hx.le)
  rw [hn]
  exact (Rat.num_div_den x).symm

/-- The rounding exponent of a rational between two powers of two. -/
lemma roundExp_eq {x : ℚ} {e : ℤ} (h1 : (2 : ℚ) ^ e ≤ x) (h2 : x < (2 : ℚ) ^ (e + 1)) :
    roundExp x = max (e - 52) (-1074) := by
  have hx : 0 < x := lt_of_lt_of_le (by positivity) h1
  have hnum : 0 < x.num.toNat := by
    have := Rat.num_pos.mpr hx
    omega
  have hden : (0 : ℚ) < x.den := by exact_mod_cast x.den_pos
  have hs := floorLog2_spec hnum x.den_pos
  set f := floorLog2 x.num.toNat x.den with hf
  have hxe := num_div_den hx
  have h3 : (2 : ℚ) ^ f ≤ x := by
    rw [hxe, le_div_iff₀ hden, mul_comm]
    exact hs.1
  have h4 : x < (2 : ℚ) ^ (f + 1) := by
    rw [hxe, div_lt_iff₀ hden, mul_comm]
    exact hs.2
  have hfe : f < e + 1 := (zpow_lt_zpow_iff_right₀ (by norm_num)).mp (h3.trans_lt h2)
  have hef : e < f + 1 := (zpow_lt_zpow_iff_right₀ (by norm_num)).mp (h1.trans_lt h4)
  rw [roundExp, ← hf, show f = e by omega]

lemma roundEven_of_eq {n d m : ℕ} (hd : 0 < d) (h : n = m * d) : roundEven n d = m := by
  rw [roundEven, h, Nat.mul_mod_left, if_pos (by omega), Nat.mul_div_cancel _ hd]

/-- A multiple of the unit in the last place is not rounded. -/
lemma roundAt_of_eq {x : ℚ} {u : ℤ} {m : ℕ} (hx : 0 < x) (h : x = m * (2 : ℚ) ^ u) :
    roundAt x u = m := by
  have hden : (x.den : ℚ) ≠ 0 := by exact_mod_cast x.den_nz
  have hxe := num_div_den hx
  have hnum : (x.num.toNat : ℚ) = m * (2 : ℚ) ^ u * x.den := by
    rw [← h]
    field_simp at hxe
    linarith [hxe]
  rw [roundAt]
  split
  · next hu =>
      obtain ⟨n, rfl⟩ := Int.eq_ofNat_of_zero_le hu
      refine roundEven_of_eq (Nat.mul_pos x.den_pos (by positivity)) ?_
      rw [zpow_natCast] at hnum
      have : x.num.toNat = m * 2 ^ n * x.den := by exact_mod_cast hnum
      rw [this, Int.toNat_natCast]
      ring
  · next hu =>
      obtain ⟨n, hn⟩ := Int.eq_ofNat_of_zero_le (show 0 ≤ -u by omega)
      refine roundEven_of_eq x.den_pos ?_
      rw [show u = -(n : ℤ) by omega, zpow_neg, zpow_natCast] at hnum
      rw [hn, Int.toNat_natCast]
      have h2 : (x.num.toNat : ℚ) * 2 ^ n = m * x.den := by
        rw [hnum]
        field_simp
      exact_mod_cast h2

/-- **A double rounds to itself.** -/
theorem roundPos_mag {d : Double} (h : d.sig ≠ 0) : roundPos d.neg d.mag = .fin d := by
  have hpos := Double.mag_pos h
  have hsig1 : (1 : ℚ) ≤ d.sig := by exact_mod_cast Nat.one_le_iff_ne_zero.mpr h
  have hexp : roundExp d.mag = d.exp := by
    rcases d.canonical with hn | hs
    · have h1 : ((2 ^ 52 : ℕ) : ℚ) ≤ d.sig := by exact_mod_cast hn.1
      have h2 : (d.sig : ℚ) < ((2 ^ 53 : ℕ) : ℚ) := by exact_mod_cast hn.2.1
      push_cast at h1 h2
      rw [roundExp_eq (e := d.exp + 52)]
      · omega
      · rw [d.mag_eq, zpow_add₀ (by norm_num), mul_comm]
        gcongr
        exact_mod_cast h1
      · rw [d.mag_eq, show d.exp + 52 + 1 = 53 + d.exp by ring, zpow_add₀ (by norm_num)]
        gcongr
        exact_mod_cast h2
    · -- a subnormal: whatever its leading bit, the exponent is the least one
      have hsig : d.sig.log2 < 52 := (Nat.log2_lt h).mpr hs.1
      have h1 : ((2 ^ d.sig.log2 : ℕ) : ℚ) ≤ d.sig := by exact_mod_cast Nat.log2_self_le h
      have h2 : (d.sig : ℚ) < ((2 ^ (d.sig.log2 + 1) : ℕ) : ℚ) := by
        exact_mod_cast Nat.lt_log2_self
      push_cast at h1 h2
      rw [roundExp_eq (e := d.sig.log2 + d.exp)]
      · omega
      · rw [d.mag_eq, zpow_add₀ (by norm_num), zpow_natCast]
        gcongr
      · rw [d.mag_eq, show (d.sig.log2 : ℤ) + d.exp + 1 = ((d.sig.log2 + 1 : ℕ) : ℤ) + d.exp by
          push_cast; ring, zpow_add₀ (by norm_num), zpow_natCast]
        gcongr
  have hat : roundAt d.mag d.exp = d.sig := roundAt_of_eq hpos d.mag_eq
  have hlt : d.sig ≠ 2 ^ 53 := by
    rcases d.canonical with hn | hs
    · omega
    · intro he
      omega
  simp only [roundPos, hexp, hat, if_neg hlt, Number.mk, dif_pos d.canonical]

/-! ### Text -/

/-- Whether `s · 10^j` rounds to the double. -/
def Double.hits (d : Double) (s : ℕ) (j : ℤ) : Bool :=
  s ≠ 0 && roundPos d.neg (scale10 s j) == .fin d

/-- The exponent at which the decimal expansion of a double is exact. -/
def Double.lowExp (d : Double) : ℤ := min d.exp 0

/-- The digits of a double down to `10^j`, cut off there. -/
def Double.digitsTo (d : Double) (j : ℤ) : ℕ := ⌊d.mag / scale10 1 j⌋.toNat

/-- A decimal with the last digit at `10^j` that rounds to the double, if there is one; of two,
the nearer. -/
def Double.decimalAt (d : Double) (j : ℤ) : Option (ℕ × ℤ) :=
  let s := d.digitsTo j
  match d.hits s j, d.hits (s + 1) j with
  | true, true =>
      if d.mag - scale10 s j ≤ scale10 (s + 1) j - d.mag then some (s, j) else some (s + 1, j)
  | true, false => some (s, j)
  | false, true => some (s + 1, j)
  | false, false => none

/-- The decimal `s · 10^j` of fewest digits that rounds to the double, searched from
`j = lowExp + k` down to the exact expansion. -/
def Double.shortestFrom (d : Double) : ℕ → ℕ × ℤ
  | 0 => (d.digitsTo d.lowExp, d.lowExp)
  | k + 1 => (d.decimalAt (d.lowExp + (k + 1 : ℕ))).getD (d.shortestFrom k)

/-- The digits and exponent `Number::toString` writes. -/
def Double.shortest (d : Double) : ℕ × ℤ :=
  d.shortestFrom (decimal (d.digitsTo d.lowExp)).length

/-- The exact expansion is an expansion. -/
lemma Double.lowExp_exact (d : Double) :
    scale10 (d.digitsTo d.lowExp) d.lowExp = d.mag := by
  have key : ∃ m : ℕ, d.mag = m * (10 : ℚ) ^ d.lowExp := by
    rw [d.mag_eq, Double.lowExp]
    by_cases h : 0 ≤ d.exp
    · obtain ⟨n, hn⟩ := Int.eq_ofNat_of_zero_le h
      refine ⟨d.sig * 2 ^ n, ?_⟩
      rw [min_eq_right h, hn]
      simp
    · obtain ⟨n, hn⟩ := Int.eq_ofNat_of_zero_le (show 0 ≤ -d.exp by omega)
      refine ⟨d.sig * 5 ^ n, ?_⟩
      rw [min_eq_left (by omega), show d.exp = -(n : ℤ) by omega, zpow_neg, zpow_neg,
        zpow_natCast, zpow_natCast]
      push_cast
      rw [show (10 : ℚ) = 5 * 2 by norm_num, mul_pow]
      field_simp
  obtain ⟨m, hm⟩ := key
  have hfloor : d.digitsTo d.lowExp = m := by
    rw [digitsTo, hm, scale10_eq, Nat.cast_one, one_mul, mul_div_assoc, div_self (by positivity), mul_one]
    simp
  rw [hfloor, scale10_eq, hm]

lemma Double.decimalAt_spec {d : Double} {j : ℤ} {p : ℕ × ℤ} (h : d.decimalAt j = some p) :
    d.hits p.1 p.2 = true := by
  rw [decimalAt] at h
  split at h
  · next h1 h2 =>
      split at h
      · exact Option.some.inj h ▸ h1
      · exact Option.some.inj h ▸ h2
  · next h1 h2 => exact Option.some.inj h ▸ h1
  · next h1 h2 => exact Option.some.inj h ▸ h2
  · exact absurd h (by simp)

lemma Double.hits_lowExp {d : Double} (h : d.sig ≠ 0) :
    d.hits (d.digitsTo d.lowExp) d.lowExp = true := by
  have hx := d.lowExp_exact
  rw [hits, hx, roundPos_mag h, beq_self_eq_true, Bool.and_true, decide_eq_true_eq]
  intro h0
  rw [h0, scale10_eq, Nat.cast_zero, zero_mul] at hx
  exact absurd hx (Double.mag_pos h).ne

lemma Double.hits_shortestFrom {d : Double} (h : d.sig ≠ 0) (k : ℕ) :
    d.hits (d.shortestFrom k).1 (d.shortestFrom k).2 = true := by
  induction k with
  | zero => exact hits_lowExp h
  | succ k ih =>
      rw [shortestFrom]
      cases hd : d.decimalAt (d.lowExp + (k + 1 : ℕ)) with
      | none => exact ih
      | some p => exact decimalAt_spec hd

/-- The shortest decimal rounds back to the double. -/
theorem roundPos_shortest {d : Double} (h : d.sig ≠ 0) :
    roundPos d.neg (scale10 d.shortest.1 d.shortest.2) = .fin d ∧ d.shortest.1 ≠ 0 := by
  have hh := Double.hits_shortestFrom h (decimal (d.digitsTo d.lowExp)).length
  rw [Double.hits, Bool.and_eq_true, decide_eq_true_eq, beq_iff_eq] at hh
  exact ⟨hh.2, hh.1⟩

/-- The digits `ds` with the decimal exponent `n` of `Number::toString`: the value is
`0.ds · 10^n`. -/
def layout (ds : Str) (n : ℤ) : Str :=
  if ds.length ≤ n ∧ n ≤ 21 then ds ++ List.replicate (n - ds.length).toNat 48
  else if 0 < n ∧ n ≤ 21 then ds.take n.toNat ++ 46 :: ds.drop n.toNat
  else if -6 < n ∧ n ≤ 0 then 48 :: 46 :: (List.replicate (-n).toNat 48 ++ ds)
  else ds.take 1 ++ (if ds.length = 1 then [] else 46 :: ds.drop 1) ++
    101 :: (if n ≤ 0 then 45 else 43) :: decimal (n - 1).natAbs

/-- `Number::toString` of the magnitude of a finite number. -/
def Double.magStr (d : Double) : Str :=
  if d.sig = 0 then [48]
  else layout (decimal d.shortest.1) ((decimal d.shortest.1).length + d.shortest.2)

/-- `Number::toString`. -/
def Number.toStr : Number → Str
  | .nan => js "NaN"
  | .inf neg => if neg then js "-Infinity" else js "Infinity"
  | .fin d => if d.neg && d.sig ≠ 0 then 45 :: d.magStr else d.magStr

/-! ### Reading -/

/-- The leading run of digits and the rest. -/
def spanDigits : Str → Str × Str
  | [] => ([], [])
  | c :: s => if isDigit c then (c :: (spanDigits s).1, (spanDigits s).2) else ([], c :: s)

/-- The fraction part of a number: its digits, none when there is no point. -/
def readFrac : Str → Option (Str × Str)
  | 46 :: s => if (spanDigits s).1 = [] then none else some (spanDigits s)
  | s => some ([], s)

/-- The exponent part of a number. -/
def readExp : Str → Option (ℤ × Str)
  | [] => some (0, [])
  | c :: s =>
      if c = 101 ∨ c = 69 then
        let neg := s.head? == some 45
        let s := if s.head? == some 45 || s.head? == some 43 then s.tail else s
        if (spanDigits s).1 = [] then none
        else some (if neg then -(readDecimal (spanDigits s).1 : ℤ)
          else readDecimal (spanDigits s).1, (spanDigits s).2)
      else some (0, c :: s)

/-- The double nearest to `m · 10^e`. -/
def Number.ofDecimal (neg : Bool) (m : ℕ) (e : ℤ) : Number :=
  if m = 0 then .fin (.zero neg) else roundPos neg (scale10 m e)

/-- A JSON number without its sign. -/
def readMagnitude (neg : Bool) (s : Str) : Option (Number × Str) :=
  let (ip, s₁) := spanDigits s
  if ip = [] ∨ (ip.head? = some 48 ∧ ip ≠ [48]) then none
  else do
    let (fp, s₂) ← readFrac s₁
    let (e, s₃) ← readExp s₂
    some (.ofDecimal neg (readDecimal (ip ++ fp)) (e - fp.length), s₃)

/-- A JSON number at the head of a text, and the rest of the text. -/
def readNumber : Str → Option (Number × Str)
  | 45 :: s => readMagnitude true s
  | s => readMagnitude false s

/-- What may follow a number without being read into it. -/
def numberStops (s : Str) : Prop :=
  ∀ c ∈ s.head?, isDigit c = false ∧ c ≠ 46 ∧ c ≠ 101 ∧ c ≠ 69

lemma spanDigits_spec (s : Str) :
    (spanDigits s).1 ++ (spanDigits s).2 = s ∧ ∀ c ∈ (spanDigits s).1, isDigit c = true := by
  induction s with
  | nil => simp [spanDigits]
  | cons c s ih =>
      rw [spanDigits]
      split
      · next h =>
          refine ⟨by rw [List.cons_append, ih.1], fun d hd => ?_⟩
          rcases List.mem_cons.mp hd with rfl | hd
          · exact h
          · exact ih.2 d hd
      · simp

lemma spanDigits_append {ds s : Str} (h : ∀ c ∈ ds, isDigit c = true)
    (hs : ∀ c ∈ s.head?, isDigit c = false) : spanDigits (ds ++ s) = (ds, s) := by
  induction ds with
  | nil =>
      cases s with
      | nil => rfl
      | cons c s => simp [spanDigits, hs c rfl]
  | cons c ds ih =>
      rw [List.cons_append, spanDigits, if_pos (h c (by simp)), ih fun x hx => h x (by simp [hx])]

lemma readFrac_of_stops {s : Str} (h : ∀ c ∈ s.head?, c ≠ 46) : readFrac s = some ([], s) := by
  rw [readFrac.eq_def]
  split
  · exact absurd rfl (h 46 rfl)
  · rfl

lemma readFrac_point {fp s : Str} (hf : ∀ c ∈ fp, isDigit c = true) (hne : fp ≠ [])
    (hs : ∀ c ∈ s.head?, isDigit c = false) : readFrac (46 :: (fp ++ s)) = some (fp, s) := by
  rw [readFrac, spanDigits_append hf hs, if_neg hne]

lemma readExp_of_stops {s : Str} (h : numberStops s) : readExp s = some (0, s) := by
  cases s with
  | nil => rfl
  | cons c s =>
      have := h c rfl
      rw [readExp, if_neg (by tauto)]

/-- The exponent part `Number::toString` writes. -/
lemma readExp_written {e : ℤ} {c : UInt16} {s : Str} (hc : c = if e < 0 then 45 else 43)
    (hs : numberStops s) : readExp (101 :: c :: (decimal e.natAbs ++ s)) = some (e, s) := by
  have hspan := spanDigits_append (s := s) (fun _ => isDigit_of_mem_decimal (n := e.natAbs))
    (fun c hc => (hs c hc).1)
  rw [readExp, if_pos (Or.inl rfl)]
  by_cases he : e < 0
  · rw [if_pos he] at hc
    subst hc
    simp only [List.head?_cons, BEq.rfl, Bool.true_or, if_true, List.tail_cons, hspan,
      if_neg (decimal_ne_nil _), readDecimal_decimal]
    rw [show -((e.natAbs : ℕ) : ℤ) = e by omega]
  · rw [if_neg he] at hc
    subst hc
    simp only [List.head?_cons, BEq.rfl, Bool.or_true, if_true, List.tail_cons, hspan,
      if_neg (decimal_ne_nil _), readDecimal_decimal, show (some (43 : UInt16) == some 45) = false
        from rfl, Bool.false_eq_true, if_false]
    rw [show ((e.natAbs : ℕ) : ℤ) = e by omega]

lemma readDecimal_replicate_zero (n : ℕ) : readDecimal (List.replicate n 48) = 0 := by
  induction n with
  | zero => rfl
  | succ n ih =>
      rw [List.replicate_succ, ← List.singleton_append, readDecimal_append, ih]
      simp [readDecimal, digitVal]

/-- The value a decimal text names, whichever way its digits are split. -/
lemma scale10_shift (m z : ℕ) (j : ℤ) : scale10 (m * 10 ^ z) j = scale10 m (z + j) := by
  rw [scale10_eq, scale10_eq, zpow_add₀ (by norm_num), zpow_natCast]
  push_cast
  ring

/-- The four layouts of `Number::toString` read back as the number they lay out. -/
lemma readMagnitude_layout {m : ℕ} {j : ℤ} {neg : Bool} {s : Str} (hm : m ≠ 0)
    (hs : numberStops s) :
    readMagnitude neg (layout (decimal m) ((decimal m).length + j) ++ s)
      = some (roundPos neg (scale10 m j), s) := by
  set ds := decimal m with hds
  have hdig : ∀ c ∈ ds, isDigit c = true := fun _ => isDigit_of_mem_decimal
  obtain ⟨c₀, ds', hcons, hc₀⟩ := decimal_head_ne_zero hm
  rw [← hds] at hcons
  have hlen : 0 < ds.length := by rw [hcons]; simp
  have hval : readDecimal ds = m := readDecimal_decimal m
  have hnz : ∀ t : Str, ¬ (ds ++ t = [] ∨ ((ds ++ t).head? = some 48 ∧ ds ++ t ≠ [48])) := by
    intro t
    simp [hcons, hc₀]
  have hs1 : ∀ c ∈ s.head?, isDigit c = false := fun c hc => (hs c hc).1
  have hs2 : ∀ c ∈ s.head?, c ≠ 46 := fun c hc => (hs c hc).2.1
  have hz : ∀ k, ∀ c ∈ List.replicate k (48 : UInt16), isDigit c = true := by
    intro k c hc
    rw [List.eq_of_mem_replicate hc]
    rfl
  rw [layout]
  by_cases h1 : (ds.length : ℤ) ≤ ds.length + j ∧ (ds.length : ℤ) + j ≤ 21
  · -- an integer: the digits and then zeros
    obtain ⟨z, rfl⟩ := Int.eq_ofNat_of_zero_le (show 0 ≤ j by omega)
    rw [if_pos h1, show ((ds.length : ℤ) + z - ds.length).toNat = z by omega, readMagnitude,
      spanDigits_append (fun c hc => (List.mem_append.mp hc).elim (hdig c) (hz z c)) hs1]
    simp only [if_neg (hnz _), readFrac_of_stops hs2, readExp_of_stops hs, Option.bind_eq_bind,
      Option.bind_some, List.append_nil, List.length_nil]
    rw [readDecimal_append, readDecimal_replicate_zero, hval, List.length_replicate, add_zero,
      Number.ofDecimal, if_neg (by positivity), scale10_shift]
    simp
  rw [if_neg h1]
  by_cases h2 : 0 < (ds.length : ℤ) + j ∧ (ds.length : ℤ) + j ≤ 21
  · -- a point inside the digits
    obtain ⟨k, hk⟩ := Int.eq_ofNat_of_zero_le h2.1.le
    have hk0 : 0 < k := by omega
    have hkl : k < ds.length := by omega
    have htake : ds.take k = c₀ :: ds'.take (k - 1) := by
      rw [hcons]
      obtain ⟨k', rfl⟩ := Nat.exists_eq_succ_of_ne_zero hk0.ne'
      simp
    rw [if_pos h2, hk, Int.toNat_natCast, List.append_assoc, List.cons_append, readMagnitude,
      spanDigits_append (fun c hc => hdig c (List.mem_of_mem_take hc)) (by simp [isDigit])]
    have hdrop : ds.drop k ≠ [] := by
      intro h
      have := congrArg List.length h
      simp at this
      omega
    simp only [readFrac_point (fun c hc => hdig c (List.mem_of_mem_drop hc)) hdrop hs1,
      readExp_of_stops hs, Option.bind_eq_bind, Option.bind_some, List.take_append_drop, hval]
    rw [if_neg (by simp [htake, hc₀]), Number.ofDecimal, if_neg hm, List.length_drop,
      show (0 : ℤ) - ((ds.length - k : ℕ) : ℤ) = j by omega]
  rw [if_neg h2]
  by_cases h3 : -6 < (ds.length : ℤ) + j ∧ (ds.length : ℤ) + j ≤ 0
  · -- a fraction below one
    obtain ⟨z, hz'⟩ := Int.eq_ofNat_of_zero_le (show 0 ≤ -((ds.length : ℤ) + j) by omega)
    have hfd : ∀ c ∈ List.replicate z (48 : UInt16) ++ ds, isDigit c = true := by
      intro c hc
      rcases List.mem_append.mp hc with hc | hc
      · exact hz _ c hc
      · exact hdig c hc
    rw [if_pos h3, hz', Int.toNat_natCast, List.cons_append, List.cons_append, readMagnitude,
      show (48 :: 46 :: (List.replicate z 48 ++ ds ++ s) : Str)
        = [48] ++ (46 :: ((List.replicate z 48 ++ ds) ++ s)) by simp,
      spanDigits_append (by simp [isDigit]) (by simp [isDigit])]
    simp only [readFrac_point hfd (by simp [hcons]) hs1, readExp_of_stops hs,
      Option.bind_eq_bind, Option.bind_some]
    rw [if_neg (by simp), readDecimal_append, readDecimal_append, readDecimal_replicate_zero,
      hval, show readDecimal [48] = 0 from rfl, zero_mul, zero_mul, zero_add, zero_add,
      Number.ofDecimal, if_neg hm, List.length_append, List.length_replicate,
      show (0 : ℤ) - ((z + ds.length : ℕ) : ℤ) = j by push_cast; omega]
  · -- exponent notation
    rw [if_neg h3]
    have hsign : ∀ n : ℤ, (if n ≤ 0 then (45 : UInt16) else 43)
        = if n - 1 < 0 then 45 else 43 := by
      intro n
      by_cases hn : n ≤ 0
      · rw [if_pos hn, if_pos (by omega)]
      · rw [if_neg hn, if_neg (by omega)]
    have hexp := readExp_written (hsign ((ds.length : ℤ) + j)) hs
    by_cases h4 : ds.length = 1
    · have hd1 : ds.take 1 = ds := by rw [List.take_of_length_le (by omega)]
      rw [if_pos h4, hd1, List.append_nil, List.append_assoc, readMagnitude]
      simp only [List.cons_append]
      rw [spanDigits_append hdig (by simp [isDigit])]
      simp only [readFrac_of_stops (s := 101 :: _) (by simp), hexp, Option.bind_eq_bind,
        Option.bind_some, List.append_nil, hval, List.length_nil]
      rw [if_neg (by simpa using hnz []), Number.ofDecimal, if_neg hm,
        show (ds.length : ℤ) + j - 1 - ((0 : ℕ) : ℤ) = j by omega]
    · have htd : ds.take 1 = [c₀] := by rw [hcons]; simp
      have hdrop : ds.drop 1 ≠ [] := by
        intro h
        have := congrArg List.length h
        simp at this
        omega
      rw [if_neg h4, List.append_assoc, List.append_assoc, readMagnitude]
      simp only [List.cons_append]
      rw [spanDigits_append (fun c hc => hdig c (List.mem_of_mem_take hc)) (by simp [isDigit])]
      simp only [readFrac_point (s := 101 :: _) (fun c hc => hdig c (List.mem_of_mem_drop hc))
        hdrop (by simp [isDigit]), hexp, Option.bind_eq_bind, Option.bind_some,
        List.take_append_drop, hval]
      rw [if_neg (by simp [htd, hc₀]), Number.ofDecimal, if_neg hm, List.length_drop,
        show (ds.length : ℤ) + j - 1 - ((ds.length - 1 : ℕ) : ℤ) = j by omega]

lemma readNumber_of_head {s : Str} (h : ∀ c ∈ s.head?, c ≠ 45) :
    readNumber s = readMagnitude false s := by
  rw [readNumber.eq_def]
  split
  · exact absurd rfl (h 45 rfl)
  · rfl

/-- The sign of a zero is lost in text. -/
def Double.posZero (d : Double) : Double := if d.sig = 0 then .zero false else d

/-- The first code unit of a magnitude is a digit. -/
lemma layout_head {m : ℕ} (hm : m ≠ 0) (n : ℤ) :
    ∀ c ∈ (layout (decimal m) n).head?, isDigit c = true := by
  obtain ⟨c₀, ds', hcons, -⟩ := decimal_head_ne_zero hm
  have hc₀ : isDigit c₀ = true := isDigit_of_mem_decimal (n := m) (by simp [hcons])
  intro c hc
  rw [layout, hcons] at hc
  split_ifs at hc with h1 h2 h3
  · obtain rfl : c₀ = c := by simpa using hc
    exact hc₀
  · obtain ⟨k, hk⟩ := Nat.exists_eq_succ_of_ne_zero (show n.toNat ≠ 0 by omega)
    rw [hk] at hc
    obtain rfl : c₀ = c := by simpa using hc
    exact hc₀
  · obtain rfl : 48 = c := by simpa using hc
    rfl
  all_goals
    obtain rfl : c₀ = c := by simpa using hc
    exact hc₀

lemma isDigit_ne_minus {c : UInt16} (h : isDigit c = true) : c ≠ 45 := by
  rintro rfl
  simp [isDigit] at h

/-- **A finite number reads back as itself**, a negative zero as zero. -/
theorem readNumber_toStr {d : Double} {s : Str} (hs : numberStops s) :
    readNumber ((Number.fin d).toStr ++ s) = some (.fin d.posZero, s) := by
  by_cases h0 : d.sig = 0
  · have hspan : spanDigits (48 :: s) = ([48], s) :=
      @spanDigits_append [48] s (by simp [isDigit]) fun c hc => (hs c hc).1
    have hread : readMagnitude false (48 :: s) = some (.fin (.zero false), s) := by
      rw [readMagnitude, hspan]
      simp only [readFrac_of_stops fun c hc => (hs c hc).2.1, readExp_of_stops hs,
        Option.bind_eq_bind, Option.bind_some]
      rfl
    rw [Number.toStr, if_neg (by simp [h0]), Double.magStr, if_pos h0, List.singleton_append,
      readNumber_of_head (by simp), hread, Double.posZero, if_pos h0]
  · obtain ⟨hround, hs0⟩ := roundPos_shortest h0
    have hread := @readMagnitude_layout _ d.shortest.2 d.neg s hs0 hs
    rw [hround] at hread
    rw [Number.toStr, Double.magStr, if_neg h0, Double.posZero, if_neg h0]
    cases hn : d.neg with
    | true =>
        rw [hn] at hread
        simp only [Bool.true_and, ne_eq, h0, not_false_eq_true, decide_true, if_true,
          List.cons_append, readNumber, hread]
    | false =>
        rw [hn] at hread
        simp only [Bool.false_and, Bool.false_eq_true, if_false]
        rw [readNumber_of_head, hread]
        intro c hc
        rcases hl : layout (decimal d.shortest.1) ((decimal d.shortest.1).length + d.shortest.2)
          with _ | ⟨x, xs⟩
        · rw [hl, List.nil_append, readMagnitude] at hread
          rw [hl, List.nil_append] at hc
          cases s with
          | nil => simp at hc
          | cons y s =>
              have hy := hs y rfl
              simp [spanDigits, hy.1] at hread
        · have hx := layout_head hs0 ((decimal d.shortest.1).length + d.shortest.2) x
            (by rw [hl]; rfl)
          rw [hl, List.cons_append, List.head?_cons] at hc
          obtain rfl : x = c := by simpa using hc
          exact isDigit_ne_minus hx

/-! ### Comparison -/

/-- The value of a double. -/
def Double.val (d : Double) : ℚ := if d.neg then -d.mag else d.mag

/-- `a < b` on numbers; nothing compares with NaN. -/
def Number.lt : Number → Number → Bool
  | .nan, _ => false
  | _, .nan => false
  | .inf neg, .inf neg' => neg && !neg'
  | .inf neg, .fin _ => neg
  | .fin _, .inf neg => !neg
  | .fin d, .fin e => decide (d.val < e.val)

/-! ### Integers -/

/-- The integer a number is, when `Number.isInteger` holds of it. -/
def Number.toInt? : Number → Option ℤ
  | .fin d =>
      let m : Option ℕ :=
        if 0 ≤ d.exp then some (d.sig * 2 ^ d.exp.toNat)
        else if d.sig % 2 ^ (-d.exp).toNat = 0 then some (d.sig / 2 ^ (-d.exp).toNat) else none
      m.map fun m => if d.neg then -(m : ℤ) else m
  | _ => none

/-- The double of a natural number. -/
def Number.ofNat (n : ℕ) : Number := if n = 0 then .fin (.zero false) else roundPos false n

/-- The double of a natural number below `2^53`, spelled out. -/
lemma ofNat_eq_fin {n : ℕ} (h0 : n ≠ 0) (h : n < 2 ^ 53) :
    ∃ d : Double, Number.ofNat n = .fin d ∧ d.neg = false ∧ d.sig = n * 2 ^ (52 - n.log2)
      ∧ d.exp = (n.log2 : ℤ) - 52 := by
  have hlog : n.log2 < 53 := (Nat.log2_lt h0).mpr h
  have h1 : 2 ^ n.log2 ≤ n := Nat.log2_self_le h0
  have h2 : n < 2 ^ (n.log2 + 1) := Nat.lt_log2_self
  have hs1 : 2 ^ 52 ≤ n * 2 ^ (52 - n.log2) := by
    calc 2 ^ 52 = 2 ^ n.log2 * 2 ^ (52 - n.log2) := by rw [← pow_add]; congr 1; omega
      _ ≤ n * 2 ^ (52 - n.log2) := Nat.mul_le_mul_right _ h1
  have hs2 : n * 2 ^ (52 - n.log2) < 2 ^ 53 := by
    calc n * 2 ^ (52 - n.log2) < 2 ^ (n.log2 + 1) * 2 ^ (52 - n.log2) :=
          Nat.mul_lt_mul_of_pos_right h2 (by positivity)
      _ = 2 ^ 53 := by rw [← pow_add]; congr 1; omega
  let d : Double := ⟨false, n * 2 ^ (52 - n.log2), (n.log2 : ℤ) - 52,
    Or.inl ⟨hs1, hs2, by omega, by omega⟩⟩
  have hmag : d.mag = n := by
    rw [d.mag_eq, show d.exp = -((52 - n.log2 : ℕ) : ℤ) by simp only [d]; omega, zpow_neg,
      zpow_natCast]
    simp only [d]
    push_cast
    field_simp
  have hsig : d.sig ≠ 0 := by simp only [d]; positivity
  refine ⟨d, ?_, rfl, rfl, rfl⟩
  rw [Number.ofNat, if_neg h0, ← hmag]
  exact roundPos_mag hsig

/-- A natural number below `2^53` is its own double. -/
theorem toInt?_ofNat {n : ℕ} (h : n < 2 ^ 53) : (Number.ofNat n).toInt? = some (n : ℤ) := by
  by_cases h0 : n = 0
  · subst h0
    simp only [Number.ofNat, if_true, Number.toInt?, Double.zero, Nat.zero_mod, Nat.zero_div]
    decide
  · obtain ⟨d, hd, hneg, hsig, hexp⟩ := ofNat_eq_fin h0 h
    have hlog : n.log2 < 53 := (Nat.log2_lt h0).mpr h
    rw [hd, Number.toInt?]
    by_cases he : 0 ≤ d.exp
    · have h52 : n.log2 = 52 := by omega
      simp [hneg, hsig, hexp, h52]
    · have hexp' : (-d.exp).toNat = 52 - n.log2 := by omega
      simp [he, hneg, hsig, hexp']

/-- The double nearest to a natural number, ties to even, as a natural number. -/
def roundNat (n : ℕ) : ℕ :=
  if n < 2 ^ 53 then n
  else roundEven n (2 ^ (n.log2 - 52)) * 2 ^ (n.log2 - 52)

lemma roundNat_of_lt {n : ℕ} (h : n < 2 ^ 53) : roundNat n = n := if_pos h

/-! ### Numerals of integers -/

lemma length_decimal_le {n k : ℕ} (hk : 0 < k) (h : n < 10 ^ k) : (decimal n).length ≤ k := by
  rw [decimal]
  split
  · exact hk
  · rw [List.length_map, List.length_reverse]
    exact (Nat.digits_length_le_iff (by norm_num) n).mpr h

lemma lt_length_decimal {n k : ℕ} (h : 10 ^ k ≤ n) : k < (decimal n).length := by
  rw [decimal, if_neg (by have : 0 < 10 ^ k := by positivity
                          omega), List.length_map, List.length_reverse]
  exact (Nat.lt_digits_length_iff (by norm_num) n).mpr h

lemma decimal_mul_pow {n : ℕ} (h : n ≠ 0) (k : ℕ) :
    decimal (n * 10 ^ k) = decimal n ++ List.replicate k 48 := by
  have h' : n * 10 ^ k ≠ 0 := by positivity
  rw [decimal, if_neg h', decimal, if_neg h, mul_comm,
    Nat.digits_base_pow_mul (by norm_num) (by omega), List.reverse_append, List.map_append]
  simp [digitUnit]

/-- What rounds to a small natural number from nearby is that number. -/
lemma eq_of_roundPos {n m : ℕ} (hn : n < 2 ^ 53) (hm0 : m ≠ 0) (hm : m < 2 ^ 53) (hn0 : n ≠ 0)
    (h : roundPos false (m : ℚ) = Number.ofNat n) : m = n := by
  have hm' : Number.ofNat m = Number.ofNat n := by rw [← h, Number.ofNat, if_neg hm0]
  have hint := congrArg Number.toInt? hm'
  rw [toInt?_ofNat hm, toInt?_ofNat hn] at hint
  exact_mod_cast Option.some.inj hint

lemma decimalAt_eq {d : Double} {j : ℤ} {p : ℕ × ℤ} (h : d.decimalAt j = some p) :
    p.2 = j ∧ (p.1 = d.digitsTo j ∨ p.1 = d.digitsTo j + 1) := by
  rw [Double.decimalAt] at h
  split at h
  · split at h
    · obtain rfl := Option.some.inj h
      exact ⟨rfl, Or.inl rfl⟩
    · obtain rfl := Option.some.inj h
      exact ⟨rfl, Or.inr rfl⟩
  · obtain rfl := Option.some.inj h
    exact ⟨rfl, Or.inl rfl⟩
  · obtain rfl := Option.some.inj h
    exact ⟨rfl, Or.inr rfl⟩
  · exact absurd h (by simp)

/-- The search for the shortest decimal of a small natural number stops at its own digits, less
the zeros at the end. -/
lemma shortestFrom_ofNat {n : ℕ} (h0 : n ≠ 0) (hn : n < 10 ^ 10) {d : Double}
    (hd : Number.ofNat n = .fin d) (hneg : d.neg = false) (hmag : d.mag = n) {e : ℕ}
    (he : d.lowExp = -(e : ℤ)) {k : ℕ} (hek : e ≤ k) (hk : k ≤ 10 + e) :
    ∃ s j : ℕ, d.shortestFrom k = (s, (j : ℤ)) ∧ s * 10 ^ j = n := by
  have hn53 : n < 2 ^ 53 := hn.trans_le (by norm_num)
  have hscale : ∀ s j : ℕ, scale10 s (j : ℤ) = ((s * 10 ^ j : ℕ) : ℚ) := by
    intro s j
    rw [scale10_eq, zpow_natCast]
    push_cast
    rfl
  have hdigits : ∀ j : ℕ, d.digitsTo (j : ℤ) = n / 10 ^ j := by
    intro j
    rw [Double.digitsTo, hmag, hscale, one_mul, Rat.floor_natCast_div_natCast]
    rfl
  have hhits : ∀ s j : ℕ, s ≠ 0 → s * 10 ^ j < 2 ^ 53 →
      (d.hits s (j : ℤ) = true ↔ s * 10 ^ j = n) := by
    intro s j hs hlt
    rw [Double.hits, hneg, hscale, Bool.and_eq_true, decide_eq_true_eq, beq_iff_eq, ← hd]
    constructor
    · exact fun h => eq_of_roundPos hn53 (by positivity) hlt h0 h.2
    · intro h
      rw [h, Number.ofNat, if_neg h0]
      exact ⟨hs, rfl⟩
  induction k, hek using Nat.le_induction with
  | base =>
      have hzero : d.digitsTo 0 = n := by simpa using hdigits 0
      cases e with
      | zero =>
          refine ⟨n, 0, ?_, by simp⟩
          rw [Double.shortestFrom, he]
          simpa using hzero
      | succ e =>
          have h1 : d.hits n ((0 : ℕ) : ℤ) = true := (hhits n 0 h0 (by omega)).mpr (by simp)
          have h2 : d.hits (n + 1) ((0 : ℕ) : ℤ) = false := by
            rw [Bool.eq_false_iff, Ne, hhits (n + 1) 0 (by omega) (by omega)]
            omega
          refine ⟨n, 0, ?_, by simp⟩
          rw [Double.shortestFrom, he, neg_add_cancel, Double.decimalAt, hzero]
          simp only [Nat.cast_zero] at h1 h2
          simp only [h1, h2, Option.getD_some, Nat.cast_zero]
  | succ k hek ih =>
      rw [Double.shortestFrom]
      cases hdec : d.decimalAt (d.lowExp + (k + 1 : ℕ)) with
      | none => exact ih (by omega)
      | some p =>
          obtain ⟨j, hj⟩ : ∃ j : ℕ, d.lowExp + (k + 1 : ℕ) = (j : ℤ) := ⟨k + 1 - e, by omega⟩
          have hj10 : 10 ^ j ≤ 10 ^ 10 := Nat.pow_le_pow_right (by norm_num) (by omega)
          rw [hj] at hdec
          have hhit := Double.decimalAt_spec hdec
          obtain ⟨hp, hs⟩ := decimalAt_eq hdec
          rw [hp] at hhit
          have hs0 : p.1 ≠ 0 := by
            intro h
            simp [Double.hits, h] at hhit
          have hle : p.1 * 10 ^ j ≤ n + 10 ^ j := by
            rw [hdigits] at hs
            have hdiv := Nat.div_mul_le_self n (10 ^ j)
            rcases hs with hs | hs
            · rw [hs]
              exact hdiv.trans (Nat.le_add_right _ _)
            · rw [hs, Nat.add_mul, one_mul]
              exact Nat.add_le_add_right hdiv _
          refine ⟨p.1, j, ?_, (hhits p.1 j hs0 (hle.trans_lt (by omega))).mp hhit⟩
          rw [Option.getD_some]
          exact Prod.ext rfl hp

/-- The text of a small natural number is its numeral. -/
theorem toStr_ofNat {n : ℕ} (hn : n < 10 ^ 10) : (Number.ofNat n).toStr = decimal n := by
  by_cases h0 : n = 0
  · subst h0
    rfl
  obtain ⟨d, hd, hneg, hsig, hexp⟩ := ofNat_eq_fin h0 (hn.trans_le (by norm_num))
  have hlog : n.log2 < 53 := (Nat.log2_lt h0).mpr (hn.trans_le (by norm_num))
  have hmag : d.mag = n := by
    rw [d.mag_eq, hsig, show d.exp = -((52 - n.log2 : ℕ) : ℤ) by omega, zpow_neg, zpow_natCast]
    push_cast
    field_simp
  obtain ⟨e, he⟩ : ∃ e : ℕ, d.lowExp = -(e : ℤ) := ⟨52 - n.log2, by rw [Double.lowExp]; omega⟩
  -- the search starts at the length of the exact expansion
  have hexact : d.digitsTo d.lowExp = n * 10 ^ e := by
    have h := d.lowExp_exact
    rw [scale10_eq, hmag, he, zpow_neg, zpow_natCast] at h
    have h10 : (10 : ℚ) ^ e ≠ 0 := by positivity
    field_simp at h
    rw [he, mul_comm]
    exact_mod_cast h
  have hpos : 0 < 10 ^ e := by positivity
  have hlow : e < (decimal (n * 10 ^ e)).length :=
    lt_length_decimal (Nat.le_mul_of_pos_left _ (Nat.pos_of_ne_zero h0))
  have hhigh : (decimal (n * 10 ^ e)).length ≤ 10 + e := by
    refine length_decimal_le (by omega) ?_
    rw [pow_add]
    exact Nat.mul_lt_mul_of_pos_right hn hpos
  obtain ⟨s, j, hshort, hsj⟩ := shortestFrom_ofNat h0 hn hd hneg hmag he hlow.le hhigh
  have hs0 : s ≠ 0 := by
    rintro rfl
    omega
  have hd0 : d.sig ≠ 0 := by
    rw [hsig]
    positivity
  have hdec : decimal n = decimal s ++ List.replicate j 48 := by rw [← hsj, decimal_mul_pow hs0]
  have hlen : (decimal s).length + j ≤ 10 := by
    have := length_decimal_le (by norm_num) hn
    rw [hdec, List.length_append, List.length_replicate] at this
    exact this
  have hlayout : layout (decimal s) ((decimal s).length + (j : ℤ))
      = decimal s ++ List.replicate j 48 := by
    rw [layout, if_pos ⟨by omega, by omega⟩, add_sub_cancel_left, Int.toNat_natCast]
  rw [hd, Number.toStr, hneg, Bool.false_and, if_neg (by simp), Double.magStr, if_neg hd0,
    Double.shortest, hexact, hshort, hlayout, hdec]

end Js
