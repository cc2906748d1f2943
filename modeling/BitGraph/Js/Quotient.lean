import BitGraph.Js.Arith
import Mathlib.Data.Int.Log

/-!
Quotients of whole numbers, as doubles.

* `roundPos_near`: a double is within half a unit in the last place of what it rounds.
* `floorOf_quotient`, `toInt?_quotient`: below `2^53` the floor of a rounded quotient is the floor of
  the quotient, and it is whole only where the quotient is.
-/

namespace Js

/-! ### The error of rounding -/

lemma roundEven_near (n : ℕ) {d : ℕ} (hd : 0 < d) : |(roundEven n d : ℚ) - n / d| ≤ 1 / 2 := by
  have hdq : (0 : ℚ) < d := by exact_mod_cast hd
  have hn : (n : ℚ) / d = (n / d : ℕ) + ((n % d : ℕ) : ℚ) / d := by
    rw [eq_comm, ← sub_eq_zero]
    field_simp
    have hdiv : ((d * (n / d) + n % d : ℕ) : ℚ) = n := by rw [Nat.div_add_mod]
    push_cast at hdiv ⊢
    linarith
  have hle : 0 ≤ ((n % d : ℕ) : ℚ) / d := by positivity
  have hlt : ((n % d : ℕ) : ℚ) / d < 1 := by
    rw [div_lt_one hdq]
    exact_mod_cast Nat.mod_lt n hd
  rw [hn, roundEven, abs_le]
  split
  · next h =>
    have hhalf : ((n % d : ℕ) : ℚ) / d ≤ 1 / 2 := by
      rw [div_le_iff₀ hdq]
      have : (2 * (n % d : ℕ) : ℚ) ≤ d := by exact_mod_cast h.le
      linarith
    constructor <;> linarith
  · split
    · next h =>
      have hhalf : 1 / 2 ≤ ((n % d : ℕ) : ℚ) / d := by
        rw [le_div_iff₀ hdq]
        have : (d : ℚ) ≤ 2 * (n % d : ℕ) := by exact_mod_cast h.le
        linarith
      push_cast
      constructor <;> linarith
    · next h₁ h₂ =>
      have hhalf : ((n % d : ℕ) : ℚ) / d = 1 / 2 := by
        rw [div_eq_iff hdq.ne']
        have : (2 * (n % d : ℕ) : ℚ) = d := by exact_mod_cast (show 2 * (n % d) = d by omega)
        linarith
      have hparity : ((n / d % 2 : ℕ) : ℚ) = 0 ∨ ((n / d % 2 : ℕ) : ℚ) = 1 := by
        rcases Nat.mod_two_eq_zero_or_one (n / d) with h | h <;> simp [h]
      push_cast at hparity ⊢
      rcases hparity with h | h <;> rw [h] <;> constructor <;> linarith

lemma roundAt_near {x : ℚ} (hx : 0 < x) (u : ℤ) : |(roundAt x u : ℚ) - x / (2 : ℚ) ^ u| ≤ 1 / 2 := by
  have hden : (x.den : ℚ) ≠ 0 := by exact_mod_cast x.den_nz
  have hxe := num_div_den hx
  rw [roundAt]
  split
  · next hu =>
    obtain ⟨n, rfl⟩ := Int.eq_ofNat_of_zero_le hu
    have hnear := roundEven_near x.num.toNat (Nat.mul_pos x.den_pos (by positivity : 0 < 2 ^ n))
    have heq : (x.num.toNat : ℚ) / ((x.den * 2 ^ n : ℕ) : ℚ) = x / (2 : ℚ) ^ (n : ℤ) := by
      conv_rhs => rw [hxe]
      rw [zpow_natCast]
      push_cast
      field_simp
    rw [heq] at hnear
    exact hnear
  · next hu =>
    obtain ⟨n, hn⟩ := Int.eq_ofNat_of_zero_le (show 0 ≤ -u by omega)
    have hnear := roundEven_near (x.num.toNat * 2 ^ n) x.den_pos
    have heq : ((x.num.toNat * 2 ^ n : ℕ) : ℚ) / (x.den : ℚ) = x / (2 : ℚ) ^ u := by
      conv_rhs => rw [hxe]
      rw [show u = -(n : ℤ) by omega, zpow_neg, zpow_natCast]
      push_cast
      field_simp
    rw [heq] at hnear
    rw [hn, Int.toNat_natCast]
    exact hnear

/-- The double nearest to a number is half a unit in the last place away, at most. -/
theorem roundPos_near {x : ℚ} (h1 : (2 : ℚ) ^ (-53 : ℤ) ≤ x) (h2 : x < 2 ^ 53) (neg : Bool) :
    ∃ d : Double, roundPos neg x = .fin d ∧ d.neg = neg ∧ |d.mag - x| ≤ x / 2 ^ 53 := by
  have hx : 0 < x := lt_of_lt_of_le (by positivity) h1
  obtain ⟨e, he⟩ : ∃ e, e = Int.log 2 x := ⟨_, rfl⟩
  have hlow : (2 : ℚ) ^ e ≤ x := by
    rw [he]
    exact_mod_cast Int.zpow_log_le_self (by norm_num) hx
  have hhigh : x < (2 : ℚ) ^ (e + 1) := by
    rw [he]
    exact_mod_cast Int.lt_zpow_succ_log_self (b := 2) (by norm_num) x
  have he1 : -53 ≤ e := by
    have : (2 : ℚ) ^ (-53 : ℤ) < (2 : ℚ) ^ (e + 1) := h1.trans_lt hhigh
    have := (zpow_lt_zpow_iff_right₀ (by norm_num)).mp this
    omega
  have he2 : e < 53 := by
    have : (2 : ℚ) ^ e < (2 : ℚ) ^ (53 : ℤ) := hlow.trans_lt (by exact_mod_cast h2)
    exact (zpow_lt_zpow_iff_right₀ (by norm_num)).mp this
  have hexp : roundExp x = e - 52 := by
    rw [roundExp_eq hlow hhigh]
    omega
  have hnear := roundAt_near hx (e - 52)
  have hu : (0 : ℚ) < (2 : ℚ) ^ (e - 52) := by positivity
  have hy1 : (2 : ℚ) ^ 52 ≤ x / (2 : ℚ) ^ (e - 52) := by
    rw [le_div_iff₀ hu, ← zpow_natCast, ← zpow_add₀ (by norm_num)]
    simpa using hlow
  have hy2 : x / (2 : ℚ) ^ (e - 52) < (2 : ℚ) ^ 53 := by
    rw [div_lt_iff₀ hu, ← zpow_natCast, ← zpow_add₀ (by norm_num)]
    rwa [show ((53 : ℕ) : ℤ) + (e - 52) = e + 1 by ring]
  rw [abs_le] at hnear
  have hq1 : 2 ^ 52 ≤ roundAt x (e - 52) := by
    have : ((2 ^ 52 : ℕ) : ℚ) < (roundAt x (e - 52) : ℚ) + 1 := by
      push_cast
      linarith
    have : 2 ^ 52 < roundAt x (e - 52) + 1 := by exact_mod_cast this
    omega
  have hq2 : roundAt x (e - 52) ≤ 2 ^ 53 := by
    have : (roundAt x (e - 52) : ℚ) < ((2 ^ 53 : ℕ) : ℚ) + 1 := by
      push_cast
      linarith
    have : roundAt x (e - 52) < 2 ^ 53 + 1 := by exact_mod_cast this
    omega
  have herr : |(roundAt x (e - 52) : ℚ) * (2 : ℚ) ^ (e - 52) - x| ≤ x / 2 ^ 53 := by
    have hfactor : (roundAt x (e - 52) : ℚ) * (2 : ℚ) ^ (e - 52) - x
        = ((roundAt x (e - 52) : ℚ) - x / (2 : ℚ) ^ (e - 52)) * (2 : ℚ) ^ (e - 52) := by
      field_simp
    have hulp : (2 : ℚ) ^ (e - 52) / 2 ≤ x / 2 ^ 53 := by
      rw [div_le_div_iff₀ (by norm_num) (by norm_num)]
      calc (2 : ℚ) ^ (e - 52) * 2 ^ 53
          = (2 : ℚ) ^ e * 2 := by
            rw [← zpow_natCast, ← zpow_add₀ (by norm_num), ← zpow_add_one₀ (by norm_num)]
            congr 1
            push_cast
            ring
        _ ≤ x * 2 := by gcongr
    rw [hfactor, abs_mul, abs_of_pos hu]
    have hhalf : |(roundAt x (e - 52) : ℚ) - x / (2 : ℚ) ^ (e - 52)| ≤ 1 / 2 := abs_le.mpr hnear
    calc |(roundAt x (e - 52) : ℚ) - x / (2 : ℚ) ^ (e - 52)| * (2 : ℚ) ^ (e - 52)
        ≤ 1 / 2 * (2 : ℚ) ^ (e - 52) := by gcongr
      _ ≤ x / 2 ^ 53 := by linarith
  simp only [roundPos, hexp]
  by_cases htop : roundAt x (e - 52) = 2 ^ 53
  · have hcanon : (2 ^ 52 ≤ 2 ^ 52 ∧ 2 ^ 52 < 2 ^ 53 ∧ -1074 ≤ e - 52 + 1 ∧ e - 52 + 1 ≤ 971)
        ∨ (2 ^ 52 < 2 ^ 52 ∧ e - 52 + 1 = -1074) := .inl ⟨le_rfl, by norm_num, by omega, by omega⟩
    refine ⟨⟨neg, 2 ^ 52, e - 52 + 1, hcanon⟩, ?_, rfl, ?_⟩
    · rw [if_pos htop, Number.mk, dif_pos hcanon]
    · rw [htop] at herr
      rw [Double.mag_eq, zpow_add_one₀ (by norm_num)]
      push_cast at herr ⊢
      rwa [show (4503599627370496 : ℚ) * ((2 : ℚ) ^ (e - 52) * 2) = 9007199254740992 * (2 : ℚ) ^ (e - 52) by ring]
  · have hcanon : (2 ^ 52 ≤ roundAt x (e - 52) ∧ roundAt x (e - 52) < 2 ^ 53 ∧ -1074 ≤ e - 52 ∧ e - 52 ≤ 971)
        ∨ (roundAt x (e - 52) < 2 ^ 52 ∧ e - 52 = -1074) := .inl ⟨hq1, by omega, by omega, by omega⟩
    refine ⟨⟨neg, roundAt x (e - 52), e - 52, hcanon⟩, ?_, rfl, ?_⟩
    · rw [if_neg htop, Number.mk, dif_pos hcanon]
    · rw [Double.mag_eq]
      exact herr

/-! ### Quotients -/

/-- `Math.floor` of a finite number. -/
def floorOf : Number → ℤ
  | .fin d => ⌊d.val⌋
  | _ => 0

/-- `a / b`. -/
def quotient (a b : ℤ) : Number := Number.ofRat (a / b)

lemma val_of_toInt? {d : Double} {i : ℤ} (h : (Number.fin d).toInt? = some i) : d.val = i := by
  rw [Number.toInt?] at h
  obtain ⟨m, hm, rfl⟩ := Option.map_eq_some_iff.mp h
  obtain ⟨k, hk, rfl⟩ : ∃ k : ℕ, (if 0 ≤ d.exp then some (d.sig * 2 ^ d.exp.toNat)
      else if d.sig % 2 ^ (-d.exp).toNat = 0 then some (d.sig / 2 ^ (-d.exp).toNat) else none) = some k
        ∧ (k : ℤ) = m := by
    simpa [Option.bind_eq_some_iff] using hm
  have hmag : d.mag = k := by
    rw [d.mag_eq]
    split at hk
    · next he =>
      obtain ⟨n, hn⟩ := Int.eq_ofNat_of_zero_le he
      rw [← Option.some.inj hk, hn]
      push_cast
      simp
    · next he =>
      obtain ⟨n, hn⟩ := Int.eq_ofNat_of_zero_le (show 0 ≤ -d.exp by omega)
      split at hk
      · next hmod =>
        rw [hn, Int.toNat_natCast] at hk hmod
        have hsig : d.sig = k * 2 ^ n := by
          rw [← Option.some.inj hk, Nat.div_mul_cancel (Nat.dvd_of_mod_eq_zero hmod)]
        rw [show d.exp = -(n : ℤ) by omega, zpow_neg, zpow_natCast, hsig]
        push_cast
        field_simp
      · cases hk
  rw [Double.val, hmag]
  split <;> simp

section Quotient

variable {a b : ℕ}

/-- A quotient is rounded by less than the distance between two of them. -/
lemma roundPos_div (ha : 0 < a) (ha' : a < 2 ^ 53) (hb : 0 < b) (hb' : b < 2 ^ 53) (neg : Bool) :
    ∃ d : Double, roundPos neg ((a : ℚ) / b) = .fin d ∧ d.neg = neg ∧ |d.mag - (a : ℚ) / b| < 1 / b := by
  have hbq : (0 : ℚ) < b := by exact_mod_cast hb
  have haq : (1 : ℚ) ≤ a := by exact_mod_cast ha
  have haq' : (a : ℚ) < 2 ^ 53 := by exact_mod_cast ha'
  have hbq' : (b : ℚ) < 2 ^ 53 := by exact_mod_cast hb'
  have hlow : (2 : ℚ) ^ (-53 : ℤ) ≤ (a : ℚ) / b := by
    rw [le_div_iff₀ hbq, zpow_neg, inv_mul_le_iff₀ (by positivity)]
    calc (b : ℚ) ≤ 2 ^ 53 * 1 := by linarith
      _ ≤ (2 : ℚ) ^ (53 : ℤ) * a := by
          rw [show (53 : ℤ) = ((53 : ℕ) : ℤ) from rfl, zpow_natCast]
          gcongr
  have hhigh : (a : ℚ) / b < 2 ^ 53 := by
    rw [div_lt_iff₀ hbq]
    have hb1 : (1 : ℚ) ≤ b := by exact_mod_cast hb
    nlinarith
  obtain ⟨d, hd, hneg, herr⟩ := roundPos_near hlow hhigh neg
  refine ⟨d, hd, hneg, herr.trans_lt ?_⟩
  rw [div_div, div_lt_div_iff₀ (by positivity) hbq]
  nlinarith

/-- A whole quotient is exact. -/
lemma quotient_mul (hb : 0 < b) {k : ℕ} (hk : k < 2 ^ 53) :
    quotient ((k * b : ℕ) : ℤ) b = Number.ofNat k := by
  have hbq : (b : ℚ) ≠ 0 := by exact_mod_cast hb.ne'
  rw [quotient, Number.ofRat, Number.ofNat]
  push_cast
  rw [mul_div_cancel_right₀ _ hbq]
  by_cases h0 : k = 0
  · rw [h0]
    simp
  · have hkq : (k : ℚ) ≠ 0 := by exact_mod_cast h0
    rw [if_neg hkq, if_neg h0, abs_of_nonneg (by positivity),
      decide_eq_false (not_lt.mpr (Nat.cast_nonneg k))]

/-- A quotient that is not whole lies between the same whole numbers when it is rounded. -/
lemma quotient_between (ha' : a < 2 ^ 53) (hb : 0 < b) (hb' : b < 2 ^ 53) (hdvd : ¬ b ∣ a) :
    ∃ d : Double, quotient a b = .fin d ∧ ((a / b : ℕ) : ℚ) < d.val ∧ d.val < ((a / b : ℕ) : ℚ) + 1 := by
  have ha : 0 < a := Nat.pos_of_ne_zero fun h0 => hdvd (h0 ▸ dvd_zero b)
  have hbq : (0 : ℚ) < b := by exact_mod_cast hb
  have haq : (0 : ℚ) < a := by exact_mod_cast ha
  have hmod : 0 < a % b := Nat.pos_of_ne_zero fun h0 => hdvd (Nat.dvd_of_mod_eq_zero h0)
  have hlt := Nat.mod_lt a hb
  obtain ⟨d, hd, hneg, herr⟩ := roundPos_div ha ha' hb hb' false
  have hsplit : (a : ℚ) / b = ((a / b : ℕ) : ℚ) + ((a % b : ℕ) : ℚ) / b := by
    rw [div_eq_iff hbq.ne', add_mul, div_mul_cancel₀ _ hbq.ne']
    have : ((b * (a / b) + a % b : ℕ) : ℚ) = a := by rw [Nat.div_add_mod]
    push_cast at this ⊢
    linarith
  have hone : 1 / (b : ℚ) ≤ ((a % b : ℕ) : ℚ) / b := by
    gcongr
    exact_mod_cast hmod
  have htop : ((a % b : ℕ) : ℚ) / b + 1 / b ≤ 1 := by
    rw [← add_div, div_le_one hbq]
    exact_mod_cast hlt
  have hval : d.val = d.mag := by rw [Double.val, hneg]; rfl
  rw [abs_lt] at herr
  refine ⟨d, ?_, ?_, ?_⟩
  · rw [quotient, Number.ofRat]
    push_cast
    have hpos : (0 : ℚ) < (a : ℚ) / b := by positivity
    rw [if_neg hpos.ne', decide_eq_false (not_lt.mpr hpos.le), abs_of_pos hpos, hd]
  · rw [hval]
    linarith
  · rw [hval]
    linarith

/-- **Floor.** The floor of the rounded quotient is that of the quotient. -/
theorem floorOf_quotient (ha' : a < 2 ^ 53) (hb : 0 < b) (hb' : b < 2 ^ 53) :
    floorOf (quotient a b) = (a / b : ℕ) := by
  by_cases hdvd : b ∣ a
  · obtain ⟨k, rfl⟩ := hdvd
    have hk : k < 2 ^ 53 := lt_of_le_of_lt (Nat.le_mul_of_pos_left k hb) ha'
    rw [Nat.mul_comm b k, quotient_mul hb hk, Nat.mul_div_cancel _ hb]
    have hint := toInt?_ofNat hk
    cases hn : Number.ofNat k with
    | fin d =>
        rw [hn] at hint
        rw [floorOf, val_of_toInt? hint]
        exact Int.floor_intCast _
    | nan => rw [hn] at hint; cases hint
    | inf neg => rw [hn] at hint; cases hint
  · obtain ⟨d, hd, hlow, hhigh⟩ := quotient_between ha' hb hb' hdvd
    rw [hd, floorOf, Int.floor_eq_iff]
    exact ⟨by exact_mod_cast hlow.le, by exact_mod_cast hhigh⟩

/-- **Whole.** The rounded quotient is whole exactly where the quotient is. -/
theorem toInt?_quotient (ha' : a < 2 ^ 53) (hb : 0 < b) (hb' : b < 2 ^ 53) :
    (quotient a b).toInt? = if b ∣ a then some ((a / b : ℕ) : ℤ) else none := by
  split
  · next hdvd =>
    obtain ⟨k, rfl⟩ := hdvd
    have hk : k < 2 ^ 53 := lt_of_le_of_lt (Nat.le_mul_of_pos_left k hb) ha'
    rw [Nat.mul_comm b k, quotient_mul hb hk, Nat.mul_div_cancel _ hb, toInt?_ofNat hk]
  · next hdvd =>
    obtain ⟨d, hd, hlow, hhigh⟩ := quotient_between ha' hb hb' hdvd
    rw [hd]
    cases hi : (Number.fin d).toInt? with
    | none => rfl
    | some i =>
        rw [val_of_toInt? hi] at hlow hhigh
        generalize a / b = k at hlow hhigh
        have h1 : (k : ℤ) < i := by exact_mod_cast hlow
        have h2 : i < (k : ℤ) + 1 := by exact_mod_cast hhigh
        omega

/-- A negative quotient stays negative. -/
lemma quotient_neg (ha : 0 < a) (ha' : a < 2 ^ 53) (hb : 0 < b) (hb' : b < 2 ^ 53) :
    ∃ d : Double, quotient (-(a : ℤ)) b = .fin d ∧ d.val < 0 := by
  have hbq : (0 : ℚ) < b := by exact_mod_cast hb
  have haq : (1 : ℚ) ≤ a := by exact_mod_cast ha
  obtain ⟨d, hd, hneg, herr⟩ := roundPos_div ha ha' hb hb' true
  have hle : 1 / (b : ℚ) ≤ (a : ℚ) / b := by gcongr
  have hpos : (0 : ℚ) < (a : ℚ) / b := by positivity
  rw [abs_lt] at herr
  refine ⟨d, ?_, ?_⟩
  · rw [quotient, Number.ofRat]
    push_cast
    rw [neg_div, if_neg (neg_ne_zero.mpr hpos.ne'), decide_eq_true (neg_lt_zero.mpr hpos), abs_neg,
      abs_of_pos hpos, hd]
  · rw [Double.val, hneg, if_pos rfl]
    linarith

end Quotient

end Js
