import BitGraph.Audit.Rollup

/-!
What the times of a rollup's blocks are, without rounding.

* **Schedule.** A `Schedule` has two regimes that meet; `stamp` is the time of a block, in whole numbers.
* **Seconds.** `IsSecond`: the blocks of one time are consecutive.
* `timeOfBlock_eq`, `blocksAt_spec` and `headAt_spec`: below `2^53` the functions of the program say what
  the schedule says.
-/

namespace BitGraph

open Js

namespace Rollup

variable {s : RollupSchedule} {sub : SubSecond} {ok : SubSecond → Bool} {n m t : ℕ}

/-! ### Schedules -/

/-- The second regime follows the first: its first block comes after the others, and no later than the
first regime would have it. -/
structure SubSecond.Meets (sub : SubSecond) (genesis blockTime : ℕ) : Prop where
  pos : 0 < sub.blocksPerSecond
  perSecond_lt : sub.blocksPerSecond < 2 ^ 53
  after : ∀ n < sub.fromBlock, genesis + n * blockTime < sub.fromTime
  before : sub.fromTime ≤ genesis + sub.fromBlock * blockTime

/-- The schedule of a rollup. -/
structure Schedule extends RollupSchedule where
  blockTime_pos : 0 < blockTime
  blockTime_lt : blockTime < 2 ^ 53
  genesis_lt : l2GenesisTime < 2 ^ 53
  meets : ∀ sub, subSecond = some sub → sub.Meets l2GenesisTime blockTime

lemma sharedIf_eq_some : s.sharedIf ok = some sub ↔ s.subSecond = some sub ∧ ok sub = true :=
  Option.filter_eq_some_iff

lemma sharedIf_eq_none : s.sharedIf ok = none ↔ ∀ sub, s.subSecond = some sub → ok sub = false := by
  simp [RollupSchedule.sharedIf, Option.filter_eq_none_iff]

/-- The time of a block. -/
def stamp (s : Schedule) (n : ℕ) : ℕ :=
  match s.sharedIf fun sub => sub.fromBlock ≤ n with
  | some sub => sub.fromTime + (n - sub.fromBlock) / sub.blocksPerSecond
  | none => s.l2GenesisTime + n * s.blockTime

/-- The numbers of the blocks stamped `t` are exact. -/
structure SafeTime (s : RollupSchedule) (t : ℕ) : Prop where
  time : t < 2 ^ 53
  block : ∀ sub, s.subSecond = some sub → sub.fromTime ≤ t →
    sub.fromBlock + (t - sub.fromTime + 1) * sub.blocksPerSecond < 2 ^ 53

/-- The blocks stamped `t` are `count` from `first` on. -/
def IsSecond (s : Schedule) (t first count : ℕ) : Prop :=
  ∀ m, stamp s m = t ↔ first ≤ m ∧ m < first + count

variable {s : Schedule}

lemma stamp_shared (hsub : s.subSecond = some sub) (h : sub.fromBlock ≤ n) :
    stamp s n = sub.fromTime + (n - sub.fromBlock) / sub.blocksPerSecond := by
  rw [stamp, sharedIf_eq_some.mpr ⟨hsub, decide_eq_true h⟩]

lemma stamp_single (h : ∀ sub, s.subSecond = some sub → n < sub.fromBlock) :
    stamp s n = s.l2GenesisTime + n * s.blockTime := by
  have hnone : s.sharedIf (fun sub => sub.fromBlock ≤ n) = none :=
    sharedIf_eq_none.mpr fun sub hsub => decide_eq_false (by have := h sub hsub; omega)
  rw [stamp, hnone]

/-- The blocks from `fromBlock` on are those from `fromTime` on. -/
lemma fromTime_le_stamp (hsub : s.subSecond = some sub) : sub.fromTime ≤ stamp s n ↔ sub.fromBlock ≤ n := by
  constructor
  · intro h
    by_contra hlt
    rw [stamp_single fun sub' hsub' => by
      obtain rfl := Option.some.inj (hsub.symm.trans hsub')
      omega] at h
    have := (s.meets sub hsub).after n (by omega)
    omega
  · intro h
    rw [stamp_shared hsub h]
    exact Nat.le_add_right _ _

/-- Later blocks are not stamped earlier. -/
lemma stamp_mono (h : n ≤ m) : stamp s n ≤ stamp s m := by
  by_cases hsingle : ∀ sub, s.subSecond = some sub → n < sub.fromBlock
  · by_cases hsingle' : ∀ sub, s.subSecond = some sub → m < sub.fromBlock
    · rw [stamp_single hsingle, stamp_single hsingle']
      gcongr
    · push Not at hsingle'
      obtain ⟨sub, hsub, hm⟩ := hsingle'
      have hn := mt (fromTime_le_stamp hsub).mp (by have := hsingle sub hsub; omega : ¬ sub.fromBlock ≤ n)
      have hle := (fromTime_le_stamp hsub).mpr hm
      omega
  · push Not at hsingle
    obtain ⟨sub, hsub, hn⟩ := hsingle
    rw [stamp_shared hsub hn, stamp_shared hsub (hn.trans h)]
    gcongr

/-- A second of the second regime. -/
lemma isSecond_shared (hsub : s.subSecond = some sub) (h : sub.fromTime ≤ t) :
    IsSecond s t (sub.fromBlock + (t - sub.fromTime) * sub.blocksPerSecond) sub.blocksPerSecond := by
  have hpos := (s.meets sub hsub).pos
  intro m
  by_cases hm : sub.fromBlock ≤ m
  · have hdiv : (m - sub.fromBlock) / sub.blocksPerSecond = t - sub.fromTime ↔
        (t - sub.fromTime) * sub.blocksPerSecond ≤ m - sub.fromBlock ∧
          m - sub.fromBlock < (t - sub.fromTime + 1) * sub.blocksPerSecond := by
      rw [Nat.div_eq_iff hpos, Nat.add_mul, one_mul]
      omega
    rw [stamp_shared hsub hm]
    rw [Nat.add_mul, one_mul] at hdiv
    omega
  · have hlt := mt (fromTime_le_stamp hsub).mp hm
    constructor
    · intro heq
      omega
    · omega

/-- Before the second regime a time has one block, or none. -/
lemma stamp_eq_single (h : ∀ sub, s.subSecond = some sub → t < sub.fromTime) :
    stamp s m = t ↔ s.l2GenesisTime + m * s.blockTime = t := by
  constructor
  · intro heq
    rw [← heq, stamp_single]
    intro sub hsub
    have hlt := h sub hsub
    rw [← heq] at hlt
    have := mt (fromTime_le_stamp hsub (n := m)).mpr (by omega)
    omega
  · intro heq
    rw [stamp_single, heq]
    intro sub hsub
    by_contra hle
    have hlt := h sub hsub
    have hbefore := (s.meets sub hsub).before
    have hmul : sub.fromBlock * s.blockTime ≤ m * s.blockTime := Nat.mul_le_mul_right _ (by omega)
    omega

/-! ### Exact arithmetic -/

lemma plus_eq {a b : ℕ} (h : a + b < 2 ^ 53) : plus a b = ((a + b : ℕ) : ℤ) := by
  rw [plus, roundInt_of_abs_lt (by omega)]
  push_cast
  rfl

lemma times_eq {a b : ℕ} (h : a * b < 2 ^ 53) : times a b = ((a * b : ℕ) : ℤ) := by
  rw [times, roundInt_of_abs_lt]
  · push_cast
    rfl
  · rw [Int.natAbs_mul]
    simpa using h

lemma minus_eq {a b : ℕ} (ha : a < 2 ^ 53) (hb : b ≤ a) : minus a b = ((a - b : ℕ) : ℤ) := by
  rw [minus, roundInt_of_abs_lt (by omega)]
  omega

/-- **Times.** The program computes the time of a block. -/
theorem timeOfBlock_eq (h : SafeTime s.toRollupSchedule (stamp s n)) :
    timeOfBlock n s.toRollupSchedule = stamp s n := by
  have htime := h.time
  by_cases hsingle : ∀ sub, s.subSecond = some sub → n < sub.fromBlock
  · have hnone : s.sharedIf (fun sub => (sub.fromBlock : ℤ) ≤ n) = none :=
      sharedIf_eq_none.mpr fun sub hsub => decide_eq_false (by have := hsingle sub hsub; omega)
    rw [stamp_single hsingle] at htime ⊢
    rw [timeOfBlock, hnone]
    dsimp only
    rw [times_eq (by omega), plus_eq htime]
  · push Not at hsingle
    obtain ⟨sub, hsub, hn⟩ := hsingle
    have hsome : s.sharedIf (fun sub => (sub.fromBlock : ℤ) ≤ n) = some sub :=
      sharedIf_eq_some.mpr ⟨hsub, decide_eq_true (by omega)⟩
    have hmeets := s.meets sub hsub
    have hblock := h.block sub hsub ((fromTime_le_stamp hsub).mpr hn)
    have hlast := ((isSecond_shared hsub ((fromTime_le_stamp hsub).mpr hn)) n).mp rfl
    rw [Nat.add_mul, one_mul] at hblock
    have hn53 : n < 2 ^ 53 := by omega
    rw [stamp_shared hsub hn] at htime ⊢
    rw [timeOfBlock, hsome]
    dsimp only
    rw [minus_eq hn53 hn, floorOf_quotient (by omega) hmeets.pos hmeets.perSecond_lt, plus_eq htime]

/-- **Blocks.** The program finds exactly the blocks with a time. -/
theorem blocksAt_spec (h : SafeTime s.toRollupSchedule t) :
    match blocksAt t s.toRollupSchedule with
    | none => ∀ m, stamp s m ≠ t
    | some blocks => ∃ first count : ℕ, blocks = ⟨first, count⟩ ∧ count < 2 ^ 53 ∧ first + count ≤ 2 ^ 53 ∧
        ((∃ sub, s.subSecond = some sub ∧ sub.fromTime ≤ t) → first + count < 2 ^ 53) ∧
        IsSecond s t first count := by
  have htime := h.time
  by_cases hsingle : ∀ sub, s.subSecond = some sub → t < sub.fromTime
  · have hnone : s.sharedIf (fun sub => (sub.fromTime : ℤ) ≤ t) = none :=
      sharedIf_eq_none.mpr fun sub hsub => decide_eq_false (by have := hsingle sub hsub; omega)
    rw [blocksAt, hnone]
    dsimp only
    by_cases hg : s.l2GenesisTime ≤ t
    · rw [minus_eq htime hg, toInt?_quotient (by omega) s.blockTime_pos s.blockTime_lt]
      by_cases hdvd : s.blockTime ∣ t - s.l2GenesisTime
      · obtain ⟨k, hk⟩ := hdvd
        have hkt : k ≤ s.blockTime * k := Nat.le_mul_of_pos_left k s.blockTime_pos
        rw [hk, if_pos (dvd_mul_right _ _), Nat.mul_div_cancel_left _ s.blockTime_pos]
        dsimp only
        rw [if_neg (by omega)]
        refine ⟨k, 1, rfl, by norm_num, by omega, ?_, fun m => ?_⟩
        · rintro ⟨sub, hsub, hle⟩
          have := hsingle sub hsub
          omega
        · have hcancel : m * s.blockTime = k * s.blockTime ↔ m = k :=
            Nat.mul_left_inj s.blockTime_pos.ne'
          rw [stamp_eq_single hsingle]
          rw [Nat.mul_comm] at hk
          omega
      · rw [if_neg hdvd]
        intro m hm
        rw [stamp_eq_single hsingle] at hm
        exact hdvd ⟨m, by rw [Nat.mul_comm]; omega⟩
    · have hgt := s.genesis_lt
      have hneg : minus t s.l2GenesisTime = -((s.l2GenesisTime - t : ℕ) : ℤ) := by
        rw [minus, roundInt_of_abs_lt (by omega)]
        omega
      obtain ⟨d, hd, hval⟩ := quotient_neg (a := s.l2GenesisTime - t) (by omega) (by omega)
        s.blockTime_pos s.blockTime_lt
      have hno : ∀ m, stamp s m ≠ t := by
        intro m hm
        rw [stamp_eq_single hsingle] at hm
        omega
      rw [hneg, hd]
      cases hi : (Number.fin d).toInt? with
      | none => exact hno
      | some i =>
          rw [val_of_toInt? hi] at hval
          have hi0 : i < 0 := by exact_mod_cast hval
          dsimp only
          rw [if_pos hi0]
          exact hno
  · push Not at hsingle
    obtain ⟨sub, hsub, ht⟩ := hsingle
    have hsome : s.sharedIf (fun sub => (sub.fromTime : ℤ) ≤ t) = some sub :=
      sharedIf_eq_some.mpr ⟨hsub, decide_eq_true (by omega)⟩
    have hmeets := s.meets sub hsub
    have hblock := h.block sub hsub ht
    rw [Nat.add_mul, one_mul] at hblock
    rw [blocksAt, hsome]
    dsimp only
    rw [minus_eq htime ht, times_eq (by omega), plus_eq (by omega)]
    exact ⟨_, _, rfl, hmeets.perSecond_lt, by omega, fun _ => by omega, isSecond_shared hsub ht⟩

/-- **Head.** The newest block by the clock; before the first block the program says block 0. -/
theorem headAt_spec (h : SafeTime s.toRollupSchedule t) :
    ∃ head : ℕ, headAt t s.toRollupSchedule = head ∧ (stamp s 0 ≤ t → ∀ m, stamp s m ≤ t ↔ m ≤ head) ∧
      (t < stamp s 0 → head = 0) := by
  have htime := h.time
  by_cases hsingle : ∀ sub, s.subSecond = some sub → t < sub.fromTime
  · have hnone : s.sharedIf (fun sub => (sub.fromTime : ℤ) ≤ t) = none :=
      sharedIf_eq_none.mpr fun sub hsub => decide_eq_false (by have := hsingle sub hsub; omega)
    have hle : ∀ m, stamp s m ≤ t ↔ s.l2GenesisTime + m * s.blockTime ≤ t := by
      intro m
      constructor
      · intro hm
        rwa [← stamp_single]
        intro sub hsub
        have := mt (fromTime_le_stamp hsub (n := m)).mpr (by have := hsingle sub hsub; omega)
        omega
      · intro hm
        rwa [stamp_single]
        intro sub hsub
        by_contra hge
        have hmul : sub.fromBlock * s.blockTime ≤ m * s.blockTime := Nat.mul_le_mul_right _ (by omega)
        have := (s.meets sub hsub).before
        have := hsingle sub hsub
        omega
    rw [headAt, hnone]
    dsimp only
    by_cases hg : s.l2GenesisTime ≤ t
    · rw [minus_eq htime hg, floorOf_quotient (by omega) s.blockTime_pos s.blockTime_lt,
        max_eq_right (Int.natCast_nonneg _)]
      refine ⟨(t - s.l2GenesisTime) / s.blockTime, rfl, fun _ m => ?_, fun hlt => ?_⟩
      · rw [hle, Nat.le_div_iff_mul_le s.blockTime_pos]
        omega
      · have h0 := (hle 0).mpr (by omega)
        omega
    · have hgt := s.genesis_lt
      have hneg : minus t s.l2GenesisTime = -((s.l2GenesisTime - t : ℕ) : ℤ) := by
        rw [minus, roundInt_of_abs_lt (by omega)]
        omega
      obtain ⟨d, hd, hval⟩ := quotient_neg (a := s.l2GenesisTime - t) (by omega) (by omega)
        s.blockTime_pos s.blockTime_lt
      have hfloor : ⌊d.val⌋ ≤ 0 := Int.floor_nonpos hval.le
      rw [hneg, hd, floorOf, max_eq_left hfloor]
      refine ⟨0, rfl, fun h0 => ?_, fun _ => rfl⟩
      have := (hle 0).mp h0
      omega
  · push Not at hsingle
    obtain ⟨sub, hsub, ht⟩ := hsingle
    have hsome : s.sharedIf (fun sub => (sub.fromTime : ℤ) ≤ t) = some sub :=
      sharedIf_eq_some.mpr ⟨hsub, decide_eq_true (by omega)⟩
    have hpos := (s.meets sub hsub).pos
    have hblock := h.block sub hsub ht
    have hcount : 0 < (t - sub.fromTime + 1) * sub.blocksPerSecond := by positivity
    have hle : ∀ m, stamp s m ≤ t ↔ m < sub.fromBlock + (t - sub.fromTime + 1) * sub.blocksPerSecond := by
      intro m
      by_cases hm : sub.fromBlock ≤ m
      · have hdiv : (m - sub.fromBlock) / sub.blocksPerSecond < t - sub.fromTime + 1 ↔
            m - sub.fromBlock < (t - sub.fromTime + 1) * sub.blocksPerSecond :=
          Nat.div_lt_iff_lt_mul hpos
        rw [stamp_shared hsub hm]
        omega
      · have hlt := mt (fromTime_le_stamp hsub).mp hm
        omega
    have hone : t - sub.fromTime + 1 < 2 ^ 53 := by
      have := Nat.le_mul_of_pos_right (t - sub.fromTime + 1) hpos
      omega
    have hsucc : plus (minus t sub.fromTime) 1 = ((t - sub.fromTime + 1 : ℕ) : ℤ) := by
      rw [minus_eq htime ht]
      exact plus_eq (b := 1) hone
    rw [headAt, hsome]
    dsimp only
    rw [hsucc, times_eq (by omega), plus_eq hblock]
    have hlast : minus ((sub.fromBlock + (t - sub.fromTime + 1) * sub.blocksPerSecond : ℕ) : ℤ) 1
        = ((sub.fromBlock + (t - sub.fromTime + 1) * sub.blocksPerSecond - 1 : ℕ) : ℤ) :=
      minus_eq (b := 1) hblock (by omega)
    refine ⟨_, hlast, fun _ m => ?_, fun hlt => ?_⟩
    · rw [hle]
      omega
    · have h0 := (hle 0).mpr (by omega)
      omega

end Rollup

end BitGraph
