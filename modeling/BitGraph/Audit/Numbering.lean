import BitGraph.Audit.Schedule

/-!
The numbers of the batches of a channel.

* **Runs.** `numberRuns_spec`: the batches of one second get consecutive numbers of that second.
* **Channels.** `numberRuns_range`: the batches of consecutive blocks get their numbers back.
* `numbering`: what `numberSingularBatches`, `blocksAt` and `headAt` say.
-/

namespace BitGraph

open Js

namespace Rollup

variable {s : Schedule} {pin : Option Pin} {t i j : ℕ} {later : List ℕ}

/-! ### One second -/

/-- A run of batches of one second, and what is after it. -/
lemma takeWhile_run (hlater : later.head? ≠ some t) :
    (List.replicate j t ++ later).takeWhile (· == t) = List.replicate j t
      ∧ (List.replicate j t ++ later).dropWhile (· == t) = later := by
  induction j with
  | zero =>
      cases later with
      | nil => exact ⟨rfl, rfl⟩
      | cons x later =>
          have hx : (x == t) = false := by
            rw [beq_eq_false_iff_ne]
            rintro rfl
            exact hlater rfl
          rw [List.replicate_zero, List.nil_append, List.takeWhile_cons, List.dropWhile_cons, hx]
          exact ⟨rfl, rfl⟩
  | succ j ih =>
      rw [List.replicate_succ, List.cons_append, List.takeWhile_cons, List.dropWhile_cons, beq_self_eq_true,
        if_pos rfl, if_pos rfl, ih.1, ih.2]
      exact ⟨rfl, rfl⟩

/-- Every list begins with a run. -/
lemma exists_run (t : ℕ) (rest : List ℕ) :
    ∃ j later, rest = List.replicate j t ++ later ∧ later.head? ≠ some t := by
  induction rest with
  | nil => exact ⟨0, [], rfl, by simp⟩
  | cons x rest ih =>
      by_cases hx : x = t
      · obtain ⟨j, later, rfl, hlater⟩ := ih
        exact ⟨j + 1, later, by rw [hx, List.replicate_succ, List.cons_append], hlater⟩
      · exact ⟨0, x :: rest, rfl, by simpa using hx⟩

/-- The first run of a list. -/
lemma numberRuns_run {blocks : BlocksAt} (hblocks : blocksAt t s.toRollupSchedule = some blocks)
    (hlater : later.head? ≠ some t) :
    numberRuns s.toRollupSchedule pin i (t :: (List.replicate j t ++ later)) = (do
      let numbers ← runNumbers blocks t pin i (j + 1) later.isEmpty
      let more ← numberRuns s.toRollupSchedule pin (i + (j + 1)) later
      return numbers ++ more) := by
  obtain ⟨htake, hdrop⟩ := takeWhile_run (j := j) hlater
  rw [numberRuns, hblocks]
  simp only [htake, hdrop, List.length_replicate]

lemma numberRuns_none {rest : List ℕ} {out : List ℤ} (hblocks : blocksAt t s.toRollupSchedule = none) :
    numberRuns s.toRollupSchedule pin i (t :: rest) ≠ .ok out := by
  rw [numberRuns, hblocks]
  rintro ⟨⟩

/-- The numbers of a run that begins at a block of its second are exact. -/
lemma map_plus_range {first offset run : ℕ} (h : first + offset + run ≤ 2 ^ 53) :
    (List.range run).map (fun k : ℕ => plus (plus (first : ℤ) (offset : ℤ)) k)
      = (List.range' (first + offset) run).map (Nat.cast : ℕ → ℤ) := by
  rw [List.range'_eq_map_range, List.map_map]
  refine List.map_congr_left fun k hk => ?_
  have hk := List.mem_range.mp hk
  rw [plus_eq (by omega), plus_eq (by omega)]
  rfl

/-- A sum that is rounded below `2 ^ 53` was not rounded. -/
lemma plus_lt {a b : ℕ} (h : plus a b < 2 ^ 53) : a + b < 2 ^ 53 := by
  by_contra hge
  have hround := le_roundNat (n := a + b) (by omega)
  rw [plus, roundInt, if_neg (by omega)] at h
  have hcast : ((a : ℤ) + b).natAbs = a + b := by omega
  rw [hcast] at h
  omega

/-- The offset of a run leaves it within its second. -/
lemma runOffset_ok {first count run : ℕ} {closes : Bool} {offset : ℤ} (hcount : count < 2 ^ 53)
    (hrun : run ≤ count) (h : runOffset ⟨first, count⟩ t pin i run closes = .ok offset) :
    ∃ o : ℕ, offset = o ∧ o + run ≤ count := by
  rw [runOffset] at h
  dsimp only at h
  split at h
  · split at h
    · cases h
    · split at h
      · rw [minus_eq hcount hrun] at h
        exact ⟨count - run, (Except.ok.inj h).symm, by omega⟩
      · split at h
        · next pin _ =>
          split at h
          · cases h
          · next hbound =>
            obtain rfl := Except.ok.inj h
            rw [Bool.or_eq_true, decide_eq_true_eq, decide_eq_true_eq, not_or, not_lt, not_lt] at hbound
            obtain ⟨o, ho⟩ := Int.eq_ofNat_of_zero_le hbound.1
            rw [ho] at hbound ⊢
            have hlt := plus_lt (a := o) (b := run) (by omega)
            rw [plus_eq hlt] at hbound
            exact ⟨o, rfl, by omega⟩
        · exact ⟨0, (Except.ok.inj h).symm, by omega⟩
  · exact ⟨0, (Except.ok.inj h).symm, by omega⟩

/-- The numbers of the batches of one second are consecutive blocks of it. -/
lemma runNumbers_ok {first count run : ℕ} {closes : Bool} {out : List ℤ} (hcount : count < 2 ^ 53)
    (hfits : first + count ≤ 2 ^ 53) (h : runNumbers ⟨first, count⟩ t pin i run closes = .ok out) :
    ∃ o : ℕ, o + run ≤ count ∧ out = (List.range' (first + o) run).map (Nat.cast : ℕ → ℤ) := by
  rw [runNumbers] at h
  dsimp only at h
  split at h
  · cases h
  · next hrun =>
    obtain ⟨offset, hoffset, h⟩ := bind_eq_ok h
    obtain ⟨o, rfl, ho⟩ := runOffset_ok hcount (by omega) hoffset
    exact ⟨o, ho, by rw [← Except.ok.inj h, map_plus_range (by omega)]⟩

/-! ### Lists that are accepted -/

/-- Numbers of one time that are next to each other are consecutive. -/
def RunsCounted (s : Schedule) (numbers : List ℕ) : Prop :=
  numbers.IsChain fun n m => stamp s n = stamp s m → m = n + 1

/-- **Runs.** The numbers that a list is given have its times, and those of a run are consecutive. -/
lemma numberRuns_spec {timestamps : List ℕ} {out : List ℤ}
    (hsafe : ∀ t ∈ timestamps, SafeTime s.toRollupSchedule t)
    (h : numberRuns s.toRollupSchedule pin i timestamps = .ok out) :
    ∃ numbers : List ℕ, out = numbers.map (Nat.cast : ℕ → ℤ) ∧ numbers.map (stamp s) = timestamps ∧
      RunsCounted s numbers := by
  induction hn : timestamps.length using Nat.strong_induction_on generalizing timestamps i out with
  | _ n ih =>
      cases timestamps with
      | nil =>
          rw [numberRuns] at h
          exact ⟨[], (Except.ok.inj h).symm, rfl, .nil⟩
      | cons t rest =>
          have hspec := blocksAt_spec (hsafe t List.mem_cons_self)
          cases hblocks : blocksAt t s.toRollupSchedule with
          | none => exact absurd h (numberRuns_none hblocks)
          | some blocks =>
              rw [hblocks] at hspec
              obtain ⟨first, count, rfl, hcount, hfits, -, hsecond⟩ := hspec
              obtain ⟨j, later, rfl, hlater⟩ := exists_run t rest
              rw [numberRuns_run hblocks hlater] at h
              obtain ⟨run, hrun, h⟩ := bind_eq_ok h
              obtain ⟨more, hmore, h⟩ := bind_eq_ok h
              obtain ⟨o, ho, rfl⟩ := runNumbers_ok hcount hfits hrun
              have hlen : later.length < n := by
                rw [← hn, List.length_cons, List.length_append]
                omega
              have hsafe' : ∀ u ∈ later, SafeTime s.toRollupSchedule u := fun u hu =>
                hsafe u (List.mem_cons_of_mem _ (List.mem_append_right _ hu))
              obtain ⟨numbers, rfl, hstamp, hchain⟩ := ih _ hlen hsafe' hmore rfl
              have hall : ∀ m ∈ List.range' (first + o) (j + 1), stamp s m = t := by
                intro m hm
                rw [List.mem_range'_1] at hm
                exact (hsecond m).mpr (by omega)
              refine ⟨List.range' (first + o) (j + 1) ++ numbers, ?_, ?_, List.isChain_append.mpr ⟨?_, hchain, ?_⟩⟩
              · rw [← Except.ok.inj h, List.map_append]
              · rw [List.map_append, hstamp, List.map_eq_replicate_iff.mpr hall, List.length_range']
                rfl
              · rw [List.range'_eq_map_range, List.isChain_map, List.isChain_range]
                exact fun m _ _ => rfl
              · intro x hx y hy heq
                exfalso
                apply hlater
                rw [← hstamp, List.head?_map, Option.mem_def.mp hy, Option.map_some, ← heq,
                  hall x (List.mem_of_getLast? hx)]

/-- Where seconds are shared, a number follows the one before it. -/
def SharedConsecutive (s : Schedule) (numbers : List ℕ) : Prop :=
  numbers.IsChain fun n m => (∃ sub, s.subSecond = some sub ∧ sub.fromTime ≤ stamp s m) → m = n + 1

/-- The number of a block is exact, and so is the one after it where seconds are shared. -/
lemma lt_of_safeTime {n : ℕ} (h : SafeTime s.toRollupSchedule (stamp s n)) : n < 2 ^ 53 := by
  have hspec := blocksAt_spec h
  split at hspec
  · exact absurd rfl (hspec n)
  · obtain ⟨first, count, -, -, hfits, -, hsecond⟩ := hspec
    have := (hsecond n).mp rfl
    omega

lemma succ_lt_of_safeTime {n m : ℕ} {sub : SubSecond} (hn : SafeTime s.toRollupSchedule (stamp s n))
    (hm : SafeTime s.toRollupSchedule (stamp s m)) (hsub : s.subSecond = some sub)
    (hle : sub.fromTime ≤ stamp s m) : n + 1 < 2 ^ 53 := by
  by_cases hshared : sub.fromTime ≤ stamp s n
  · have hspec := blocksAt_spec hn
    split at hspec
    · exact absurd rfl (hspec n)
    · obtain ⟨first, count, -, -, -, hfits, hsecond⟩ := hspec
      have := (hsecond n).mp rfl
      have := hfits ⟨sub, hsub, hshared⟩
      omega
  · have hblock := hm.block sub hsub hle
    have hbefore := mt (fromTime_le_stamp hsub).mpr hshared
    omega

/-- A list of numbers that passes. -/
lemma checkConsecutive_ok {numbers : List ℕ}
    (hsafe : ∀ n ∈ numbers, SafeTime s.toRollupSchedule (stamp s n))
    (h : checkConsecutive s.toRollupSchedule (numbers.map (stamp s)) (numbers.map (Nat.cast : ℕ → ℤ)) = .ok ()) :
    SharedConsecutive s numbers := by
  induction numbers with
  | nil => exact .nil
  | cons n numbers ih =>
      cases numbers with
      | nil => exact .singleton n
      | cons m numbers =>
          rw [List.map_cons, List.map_cons, List.map_cons, List.map_cons, checkConsecutive] at h
          split at h
          · cases h
          · next hpass =>
            rw [← List.map_cons, ← List.map_cons] at h
            refine .cons_cons ?_ (ih (fun k hk => hsafe k (List.mem_cons_of_mem _ hk)) h)
            rintro ⟨sub, hsub, hle⟩
            have hsome : s.sharedIf (fun sub => sub.fromTime ≤ stamp s m) = some sub :=
              sharedIf_eq_some.mpr ⟨hsub, decide_eq_true hle⟩
            have hlt := succ_lt_of_safeTime (hsafe n List.mem_cons_self)
              (hsafe m (List.mem_cons_of_mem _ List.mem_cons_self)) hsub hle
            have hplus : plus n 1 = ((n + 1 : ℕ) : ℤ) := plus_eq (b := 1) hlt
            rw [hsome, Option.isSome_some, Bool.true_and, hplus, bne_iff_ne, not_not] at hpass
            exact_mod_cast hpass

/-- Batches in the order of their times have increasing numbers. -/
lemma pairwise_lt_of_runsCounted {numbers : List ℕ} (hruns : RunsCounted s numbers)
    (hsorted : (numbers.map (stamp s)).Pairwise (· ≤ ·)) : numbers.Pairwise (· < ·) := by
  rw [← List.isChain_iff_pairwise] at hsorted ⊢
  rw [List.isChain_map] at hsorted
  induction numbers with
  | nil => exact .nil
  | cons n numbers ih =>
      cases numbers with
      | nil => exact .singleton n
      | cons m numbers =>
          obtain ⟨hle, hsorted⟩ := List.isChain_cons_cons.mp hsorted
          obtain ⟨hrun, hruns⟩ := List.isChain_cons_cons.mp hruns
          refine .cons_cons ?_ (ih hruns hsorted)
          by_contra hge
          have hmono := stamp_mono (s := s) (show m ≤ n by omega)
          have := hrun (by omega)
          omega

/-! ### Consecutive blocks -/

/-- The first of its second. -/
def Opens (s : Schedule) (n : ℕ) : Prop := ∀ m, stamp s m = stamp s n → n ≤ m

/-- The block after a second is the first of the next. -/
lemma opens_next {first count : ℕ} (h : IsSecond s t first count) (hcount : 0 < count) :
    Opens s (first + count) := by
  intro m hm
  by_contra hlt
  have hlast : stamp s (first + count - 1) = t := (h _).mpr (by omega)
  have h₁ := stamp_mono (s := s) (show m ≤ first + count - 1 by omega)
  have h₂ := stamp_mono (s := s) (show first + count - 1 ≤ first + count by omega)
  have := (h (first + count)).mp (by omega)
  omega

/-- The blocks of a run that are of the second of the first of them, and those after them. -/
structure FirstSecond (s : Schedule) (b m first count run : ℕ) : Prop where
  blocks : blocksAt (stamp s b) s.toRollupSchedule = some ⟨first, count⟩
  second : IsSecond s (stamp s b) first count
  lt : count < 2 ^ 53
  fits : first + count ≤ 2 ^ 53
  length : run + 1 = min (first + count - b) m
  split : (List.range' b m).map (stamp s) = stamp s b :: (List.replicate run (stamp s b)
    ++ (List.range' (b + (run + 1)) (m - (run + 1))).map (stamp s))
  later : ((List.range' (b + (run + 1)) (m - (run + 1))).map (stamp s)).head? ≠ some (stamp s b)

lemma exists_firstSecond {b m : ℕ} (hm : 0 < m) (h : SafeTime s.toRollupSchedule (stamp s b)) :
    ∃ first count run, FirstSecond s b m first count run := by
  have hspec := blocksAt_spec h
  cases hblocks : blocksAt (stamp s b) s.toRollupSchedule with
  | none =>
      rw [hblocks] at hspec
      exact absurd rfl (hspec b)
  | some blocks =>
      rw [hblocks] at hspec
      obtain ⟨first, count, rfl, hlt, hfits, -, hsecond⟩ := hspec
      have hb := (hsecond b).mp rfl
      obtain ⟨run, hrun⟩ : ∃ run, run + 1 = min (first + count - b) m :=
        ⟨min (first + count - b) m - 1, by omega⟩
      refine ⟨first, count, run, hblocks, hsecond, hlt, hfits, hrun, ?_, ?_⟩
      · have happend : List.range' b m
            = List.range' b (run + 1) ++ List.range' (b + (run + 1)) (m - (run + 1)) := by
          rw [List.range'_append_1, Nat.add_sub_cancel' (by omega)]
        have hall : ∀ k ∈ List.range' b (run + 1), stamp s k = stamp s b := by
          intro k hk
          rw [List.mem_range'_1] at hk
          exact (hsecond k).mpr (by omega)
        rw [happend, List.map_append, List.map_eq_replicate_iff.mpr hall, List.length_range']
        rfl
      · intro hhead
        cases hm' : m - (run + 1) with
        | zero => rw [hm'] at hhead; cases hhead
        | succ k =>
            rw [hm', List.range'_succ, List.map_cons, List.head?_cons] at hhead
            have := (hsecond _).mp (Option.some.inj hhead)
            omega

/-- The numbers of a run with a known offset. -/
lemma runNumbers_eq {first count run o : ℕ} {closes : Bool} (hrun : run ≤ count)
    (hfits : first + o + run ≤ 2 ^ 53) (h : runOffset ⟨first, count⟩ t pin i run closes = .ok (o : ℤ)) :
    runNumbers ⟨first, count⟩ t pin i run closes
      = .ok ((List.range' (first + o) run).map (Nat.cast : ℕ → ℤ)) := by
  rw [runNumbers, if_neg (by dsimp only; omega), h, ok_bind, map_plus_range hfits]
  rfl

/-- A run of blocks whose first second is counted off from its place. -/
lemma numberRuns_firstSecond {b m first count run o : ℕ} (h : FirstSecond s b m first count run)
    (ho : first + o = b) (hrun : run + 1 ≤ count)
    (hoffset : runOffset ⟨first, count⟩ (stamp s b) pin i (run + 1) (decide (m = run + 1)) = .ok (o : ℤ))
    (hmore : m ≠ run + 1 → numberRuns s.toRollupSchedule pin (i + (run + 1))
      ((List.range' (b + (run + 1)) (m - (run + 1))).map (stamp s))
        = .ok ((List.range' (b + (run + 1)) (m - (run + 1))).map (Nat.cast : ℕ → ℤ))) :
    numberRuns s.toRollupSchedule pin i ((List.range' b m).map (stamp s))
      = .ok ((List.range' b m).map (Nat.cast : ℕ → ℤ)) := by
  have hlength := h.length
  have hfits := h.fits
  have hempty : ((List.range' (b + (run + 1)) (m - (run + 1))).map (stamp s)).isEmpty
      = decide (m = run + 1) := by
    rw [List.isEmpty_map, Bool.eq_iff_iff, List.isEmpty_iff, List.range'_eq_nil_iff, decide_eq_true_eq]
    omega
  have hlater : numberRuns s.toRollupSchedule pin (i + (run + 1))
      ((List.range' (b + (run + 1)) (m - (run + 1))).map (stamp s))
        = .ok ((List.range' (b + (run + 1)) (m - (run + 1))).map (Nat.cast : ℕ → ℤ)) := by
    by_cases hm : m = run + 1
    · rw [← hm, Nat.sub_self]
      exact numberRuns.eq_1 _ _ _
    · exact hmore hm
  have happend : List.range' b m = List.range' b (run + 1) ++ List.range' (b + (run + 1)) (m - (run + 1)) := by
    rw [List.range'_append_1, Nat.add_sub_cancel' (by omega)]
  rw [h.split, numberRuns_run h.blocks h.later, hempty, runNumbers_eq hrun (by omega) hoffset, ok_bind,
    hlater, ok_bind, ho, ← List.map_append, ← happend]
  rfl

/-- **Channels.** Blocks from the first of a second on, after others, get their numbers back. -/
lemma numberRuns_opens {b m : ℕ} (hi : i ≠ 0) (hopens : Opens s b)
    (hsafe : ∀ k ∈ List.range' b m, SafeTime s.toRollupSchedule (stamp s k)) :
    numberRuns s.toRollupSchedule pin i ((List.range' b m).map (stamp s))
      = .ok ((List.range' b m).map (Nat.cast : ℕ → ℤ)) := by
  induction hn : m using Nat.strong_induction_on generalizing b m i with
  | _ n ih =>
      subst hn
      rcases Nat.eq_zero_or_pos m with rfl | hm
      · exact numberRuns.eq_1 _ _ _
      · obtain ⟨first, count, run, h⟩ := exists_firstSecond hm
          (hsafe b (List.mem_range'_1.mpr (by omega)))
        have hb := (h.second b).mp rfl
        have hfirst : first = b := le_antisymm hb.1 (hopens first ((h.second first).mpr (by omega)))
        have hlength := h.length
        have hoffset : runOffset ⟨first, count⟩ (stamp s b) pin i (run + 1) (decide (m = run + 1))
            = .ok ((0 : ℕ) : ℤ) := by
          have hi0 : (i == 0) = false := beq_eq_false_iff_ne.mpr hi
          rw [runOffset]
          dsimp only
          rw [hi0]
          split
          · rw [decide_eq_true (show m = run + 1 by omega)]
            simp
          · rfl
        refine numberRuns_firstSecond h (o := 0) (by omega) (by omega) hoffset fun hmore => ?_
        refine ih (m - (run + 1)) (by omega) (by omega) ?_ (fun k hk => hsafe k ?_) rfl
        · rw [show b + (run + 1) = first + count by omega]
          exact opens_next h.second (by omega)
        · rw [List.mem_range'_1] at hk ⊢
          omega

/-- The blocks of a channel reach past one second, or fill it, or one of them is known. -/
def Placed (s : Schedule) (first n : ℕ) (pin : Option Pin) : Prop :=
  (∃ m, first ≤ m ∧ m < first + n ∧ stamp s m ≠ stamp s first) ∨
    (∀ m, stamp s m = stamp s first → first ≤ m ∧ m < first + n) ∨
    ∃ p, pin = some p ∧ p.index < n ∧ p.number = (first + p.index : ℕ)

/-- The first second of a channel is counted off from the place of its first block. -/
lemma runOffset_opens {b m first count run : ℕ} (h : FirstSecond s b m first count run) (hm : 0 < m)
    (hplaced : Placed s b m pin) :
    runOffset ⟨first, count⟩ (stamp s b) pin 0 (run + 1) (decide (m = run + 1)) = .ok ((b - first : ℕ) : ℤ) := by
  have hb := (h.second b).mp rfl
  have hlength := h.length
  have hfits := h.fits
  have hcount := h.lt
  rw [runOffset]
  dsimp only
  split
  · next hrun =>
    by_cases hcloses : m = run + 1
    · rw [decide_eq_true hcloses]
      rcases hplaced with ⟨k, hk, hk', hother⟩ | hfills | ⟨p, rfl, hindex, hnumber⟩
      · exact absurd ((h.second k).mpr (by omega)) hother
      · have hlow := hfills first ((h.second first).mpr (by omega))
        have hhigh := hfills (first + count - 1) ((h.second _).mpr (by omega))
        omega
      · have hin : (0 == 0 && true && decide (0 ≤ p.index) && decide (p.index < 0 + (run + 1))) = true := by
          simp
          omega
        have hminus : minus (minus p.number p.index) first = ((b - first : ℕ) : ℤ) := by
          rw [hnumber, minus_eq (by omega) (by omega), Nat.add_sub_cancel, minus_eq (by omega) hb.1]
        have hplus : plus ((b - first : ℕ) : ℤ) ((run + 1 : ℕ) : ℤ) = ((b - first + (run + 1) : ℕ) : ℤ) :=
          plus_eq (by omega)
        have hfilter : (some p).filter (fun pin => 0 == 0 && true && 0 ≤ pin.index && pin.index < 0 + (run + 1))
            = some p := by
          rw [Option.filter_some, if_pos hin]
        have hbound : (decide (((b - first : ℕ) : ℤ) < 0)
            || decide ((count : ℤ) < ((b - first + (run + 1) : ℕ) : ℤ))) = false := by
          rw [Bool.or_eq_false_iff, decide_eq_false_iff_not, decide_eq_false_iff_not]
          omega
        rw [if_neg (by simp), if_neg (by simp), hfilter]
        dsimp only
        rw [hminus, hplus, hbound, if_neg Bool.false_ne_true]
    · rw [decide_eq_false hcloses, minus_eq hcount (by omega)]
      simp
      omega
  · rw [show b - first = 0 by omega]
    rfl

/-- Consecutive numbers pass. -/
lemma checkConsecutive_range {b m : ℕ}
    (hsafe : ∀ k ∈ List.range' b m, SafeTime s.toRollupSchedule (stamp s k)) :
    checkConsecutive s.toRollupSchedule ((List.range' b m).map (stamp s))
      ((List.range' b m).map (Nat.cast : ℕ → ℤ)) = .ok () := by
  induction m generalizing b with
  | zero => rfl
  | succ m ih =>
      cases m with
      | zero => rfl
      | succ m =>
          have hlater : ∀ k ∈ List.range' (b + 1) (m + 1), SafeTime s.toRollupSchedule (stamp s k) := by
            intro k hk
            rw [List.mem_range'_1] at hk
            exact hsafe k (List.mem_range'_1.mpr (by omega))
          have hlt := lt_of_safeTime (hsafe (b + 1) (List.mem_range'_1.mpr (by omega)))
          have hplus : plus b 1 = ((b + 1 : ℕ) : ℤ) := plus_eq (b := 1) hlt
          have hrest := ih hlater
          rw [List.range'_succ, List.map_cons, List.map_cons] at hrest ⊢
          rw [List.range'_succ, List.map_cons, List.map_cons, checkConsecutive, hplus, bne_self_eq_false,
            Bool.and_false, if_neg Bool.false_ne_true]
          exact hrest

/-! ### Main result -/

/-- Timestamps that the program gives consecutive blocks. -/
lemma timestamps_eq {timestamps : List ℕ} {first n : ℕ}
    (hsafe : ∀ k ∈ List.range' first n, SafeTime s.toRollupSchedule (stamp s k))
    (h : timestamps.map (Nat.cast : ℕ → ℤ)
      = (List.range' first n).map fun k : ℕ => timeOfBlock k s.toRollupSchedule) :
    timestamps = (List.range' first n).map (stamp s) := by
  have hcast : timestamps.map (Nat.cast : ℕ → ℤ) = ((List.range' first n).map (stamp s)).map (Nat.cast : ℕ → ℤ) := by
    rw [h, List.map_map]
    exact List.map_congr_left fun k hk => timeOfBlock_eq (hsafe k hk)
  exact List.map_injective_iff.mpr Nat.cast_injective hcast

/-- **Numbering.** Over a schedule, as far as its numbers are exact: the timestamps of consecutive blocks
give their numbers; the numbers of a list that is accepted have its timestamps, follow each other where
seconds are shared, and increase where the timestamps are in order; `blocksAt` and `headAt` are the
schedule's, and before the first block `headAt` is 0. -/
theorem numbering (s : Schedule) :
    (∀ timestamps first n pin, (∀ k ∈ List.range' first n, SafeTime s.toRollupSchedule (stamp s k)) →
      timestamps.map (Nat.cast : ℕ → ℤ)
        = (List.range' first n).map (fun k : ℕ => timeOfBlock k s.toRollupSchedule) →
      Placed s first n pin → numberSingularBatches timestamps s.toRollupSchedule pin
        = .ok ((List.range' first n).map (Nat.cast : ℕ → ℤ))) ∧
    (∀ timestamps pin out, (∀ t ∈ timestamps, SafeTime s.toRollupSchedule t) →
      numberSingularBatches timestamps s.toRollupSchedule pin = .ok out → ∃ numbers : List ℕ,
        out = numbers.map (Nat.cast : ℕ → ℤ) ∧ SharedConsecutive s numbers ∧
        out.map (fun n => timeOfBlock n s.toRollupSchedule) = timestamps.map (Nat.cast : ℕ → ℤ) ∧
        (timestamps.Pairwise (· ≤ ·) → out.Pairwise (· < ·))) ∧
    (∀ t, SafeTime s.toRollupSchedule t → ∀ n : ℕ,
      (∃ b, blocksAt t s.toRollupSchedule = some b ∧ b.first ≤ n ∧ (n : ℤ) < b.first + b.count) ↔ stamp s n = t) ∧
    (∀ t, SafeTime s.toRollupSchedule t → ∃ head : ℕ, headAt t s.toRollupSchedule = head ∧
      (stamp s 0 ≤ t → ∀ n, stamp s n ≤ t ↔ n ≤ head) ∧ (t < stamp s 0 → head = 0)) := by
  refine ⟨?_, ?_, ?_, fun t ht => headAt_spec ht⟩
  · intro timestamps first n pin hsafe htimes hplaced
    obtain rfl := timestamps_eq hsafe htimes
    have hruns : numberRuns s.toRollupSchedule pin 0 ((List.range' first n).map (stamp s))
        = .ok ((List.range' first n).map (Nat.cast : ℕ → ℤ)) := by
      rcases Nat.eq_zero_or_pos n with rfl | hn
      · exact numberRuns.eq_1 _ _ _
      · obtain ⟨b, count, run, h⟩ := exists_firstSecond hn (hsafe first (List.mem_range'_1.mpr (by omega)))
        have hb := (h.second first).mp rfl
        have hlength := h.length
        refine numberRuns_firstSecond h (o := first - b) (by omega) (by omega)
          (runOffset_opens h hn hplaced) fun hmore => ?_
        refine numberRuns_opens (by omega) ?_ fun k hk => hsafe k ?_
        · rw [show first + (run + 1) = b + count by omega]
          exact opens_next h.second (by omega)
        · rw [List.mem_range'_1] at hk ⊢
          omega
    rw [numberSingularBatches, hruns, ok_bind, checkConsecutive_range hsafe]
    rfl
  · intro timestamps pin out hsafe h
    obtain ⟨numbers', hruns, h⟩ := bind_eq_ok h
    obtain ⟨_, hcheck, h⟩ := bind_eq_ok h
    obtain rfl := Except.ok.inj h
    obtain ⟨numbers, rfl, rfl, hcounted⟩ := numberRuns_spec hsafe hruns
    have hsafe' : ∀ n ∈ numbers, SafeTime s.toRollupSchedule (stamp s n) := fun n hn =>
      hsafe _ (List.mem_map_of_mem hn)
    refine ⟨numbers, rfl, checkConsecutive_ok hsafe' hcheck, ?_, fun hsorted => ?_⟩
    · rw [List.map_map, List.map_map]
      exact List.map_congr_left fun n hn => timeOfBlock_eq (hsafe' n hn)
    · rw [List.pairwise_map]
      exact (pairwise_lt_of_runsCounted hcounted hsorted).imp fun hlt => by exact_mod_cast hlt
  · intro t ht n
    have hspec := blocksAt_spec ht
    cases hblocks : blocksAt t s.toRollupSchedule with
    | none =>
        rw [hblocks] at hspec
        exact ⟨(by rintro ⟨b, hb, _⟩; cases hb), fun heq => absurd heq (hspec n)⟩
    | some b =>
        rw [hblocks] at hspec
        obtain ⟨first, count, rfl, -, -, -, hsecond⟩ := hspec
        rw [hsecond n]
        constructor
        · rintro ⟨b, hb, hlow, hhigh⟩
          obtain rfl := Option.some.inj hb
          dsimp only at hlow hhigh
          omega
        · rintro ⟨hlow, hhigh⟩
          exact ⟨_, rfl, by dsimp only; omega, by dsimp only; omega⟩

/-- The schedule of Base. -/
def baseMainnetSchedule : Schedule where
  toRollupSchedule := baseMainnetRollup
  blockTime_pos := by decide
  blockTime_lt := by decide
  genesis_lt := by decide
  meets := by
    intro sub hsub
    obtain rfl := Option.some.inj hsub
    exact ⟨by decide, by decide, fun n hn => by dsimp only [baseMainnetRollup] at hn ⊢; omega, by decide⟩

/-- Two blocks in the wrong order are accepted. -/
theorem wrong_order : ¬ ∀ (s : Schedule) timestamps pin out,
    numberSingularBatches timestamps s.toRollupSchedule pin = .ok out → out.Pairwise (· < ·) := by
  intro h
  have hout : (numberSingularBatches [1686789355, 1686789349] baseMainnetRollup none).toOption = some [4, 1] := by
    decide +kernel
  have hsorted := h baseMainnetSchedule _ _ _ (toOption_eq_some.mp hout)
  simp at hsorted

end Rollup

end BitGraph
