import Mathlib.Data.List.Range
import Mathlib.Data.Set.Card

/-!
The maximal runs of a set of numbers, and those between the members of an ascending list.

* `IsRun P r`: the numbers from `r.1` to `r.2` satisfy `P`, and neither neighbour of them does.
  Two runs that share a number are one (`IsRun.eq_of_mem`).
* `gaps a l` are the ranges between neighbours of `a :: l` that hold a number at all.
  `mem_gaps`: they are the maximal runs of the numbers inside `a :: l` and not in it.
* `spread` lists the numbers of a list of ranges; `spread_gaps` counts them.
-/

namespace Runs

/-! ### Maximal runs -/

/-- From `r.1` to `r.2` without a break, and no further on either side. -/
structure IsRun (P : ℕ → Prop) (r : ℕ × ℕ) : Prop where
  le : r.1 ≤ r.2
  inside : ∀ p, r.1 ≤ p → p ≤ r.2 → P p
  below : ∀ p, p + 1 = r.1 → ¬ P p
  above : ¬ P (r.2 + 1)

variable {P : ℕ → Prop} {r s : ℕ × ℕ} {p : ℕ}

lemma IsRun.low_le (hr : IsRun P r) (hs : IsRun P s) (h : s.1 ≤ r.2) (h' : r.1 ≤ s.2) :
    r.1 ≤ s.1 := by
  by_contra hlt
  obtain ⟨q, hq⟩ : ∃ q, q + 1 = r.1 := ⟨r.1 - 1, by omega⟩
  exact hr.below q hq (hs.inside q (by omega) (by omega))

lemma IsRun.high_le (hr : IsRun P r) (hs : IsRun P s) (h : s.1 ≤ r.2) (h' : r.1 ≤ s.2) :
    s.2 ≤ r.2 := by
  by_contra hlt
  exact hr.above (hs.inside (r.2 + 1) (by omega) (by omega))

/-- Two maximal runs that share a number are one. -/
lemma IsRun.eq_of_mem (hr : IsRun P r) (hs : IsRun P s) (hpr : r.1 ≤ p ∧ p ≤ r.2)
    (hps : s.1 ≤ p ∧ p ≤ s.2) : r = s := by
  have h : s.1 ≤ r.2 := hps.1.trans hpr.2
  have h' : r.1 ≤ s.2 := hpr.1.trans hps.2
  exact Prod.ext ((hr.low_le hs h h').antisymm (hs.low_le hr h' h))
    ((hs.high_le hr h' h).antisymm (hr.high_le hs h h'))

/-! ### The ranges between the members of a list -/

/-- The ranges between neighbours of `a :: l`, the empty ones left out. -/
def gaps (a : ℕ) : List ℕ → List (ℕ × ℕ)
  | [] => []
  | b :: l => if b - 1 < a + 1 then gaps b l else (a + 1, b - 1) :: gaps b l

/-- Behind `a`, before some member of `l`, and no member itself. -/
def Inside (a : ℕ) (l : List ℕ) (p : ℕ) : Prop := p ∉ l ∧ a < p ∧ ∃ b ∈ l, p < b

variable {a b : ℕ} {l : List ℕ}

lemma not_inside_nil : ¬ Inside a [] p := fun h => by
  obtain ⟨-, -, b, hb, -⟩ := h
  exact absurd hb List.not_mem_nil

lemma inside_cons (hab : a < b) (hl : ∀ c ∈ l, b < c) :
    Inside a (b :: l) p ↔ a < p ∧ p < b ∨ Inside b l p := by
  constructor
  · rintro ⟨hmem, hap, c, hc, hpc⟩
    have hne : p ≠ b := fun h => hmem (h ▸ List.mem_cons_self)
    rcases hne.lt_or_gt with hlt | hgt
    · exact .inl ⟨hap, hlt⟩
    · rcases List.mem_cons.mp hc with rfl | hc
      · exact absurd hpc hgt.not_gt
      · exact .inr ⟨fun h => hmem (List.mem_cons_of_mem _ h), hgt, c, hc, hpc⟩
  · rintro (⟨hap, hpb⟩ | ⟨hmem, hbp, c, hc, hpc⟩)
    · refine ⟨fun h => ?_, hap, b, List.mem_cons_self, hpb⟩
      rcases List.mem_cons.mp h with rfl | h
      · exact lt_irrefl _ hpb
      · exact lt_asymm hpb (hl p h)
    · refine ⟨fun h => ?_, hab.trans hbp, c, List.mem_cons_of_mem _ hc, hpc⟩
      rcases List.mem_cons.mp h with rfl | h
      · exact lt_irrefl _ hbp
      · exact hmem h

/-- A number lies inside the list exactly if one of the ranges holds it. -/
lemma inside_iff (h : (a :: l).Pairwise (· < ·)) :
    Inside a l p ↔ ∃ r ∈ gaps a l, r.1 ≤ p ∧ p ≤ r.2 := by
  induction l generalizing a with
  | nil => simp [gaps, not_inside_nil]
  | cons b l ih =>
      obtain ⟨ha, hl⟩ := List.pairwise_cons.mp h
      have hab := ha b List.mem_cons_self
      rw [inside_cons hab (List.pairwise_cons.mp hl).1, ih hl, gaps]
      split
      · refine ⟨fun hp => hp.resolve_left (by omega), .inr⟩
      · rw [List.exists_mem_cons_iff]
        exact or_congr_left (by dsimp only; omega)

/-- A range starts behind one member of the list and ends before another. -/
lemma neighbours_of_mem_gaps (h : (a :: l).Pairwise (· < ·)) (hr : r ∈ gaps a l) :
    r.1 ≤ r.2 ∧ (∃ q ∈ a :: l, r.1 = q + 1) ∧ r.2 + 1 ∈ l := by
  induction l generalizing a with
  | nil => exact absurd hr List.not_mem_nil
  | cons b l ih =>
      have hl := (List.pairwise_cons.mp h).2
      have hrest : r ∈ gaps b l → r.1 ≤ r.2 ∧ (∃ q ∈ a :: b :: l, r.1 = q + 1) ∧
          r.2 + 1 ∈ b :: l := fun hr => by
        obtain ⟨hle, ⟨q, hq, hlow⟩, hhigh⟩ := ih hl hr
        exact ⟨hle, ⟨q, List.mem_cons_of_mem _ hq, hlow⟩, List.mem_cons_of_mem _ hhigh⟩
      rw [gaps] at hr
      split at hr
      · exact hrest hr
      · next hlt =>
          rcases List.mem_cons.mp hr with rfl | hr
          · have hb : b - 1 + 1 = b := by omega
            exact ⟨by dsimp only; omega, ⟨a, List.mem_cons_self, rfl⟩, by simp [hb]⟩
          · exact hrest hr

lemma not_inside_of_mem (h : (a :: l).Pairwise (· < ·)) (hp : p ∈ a :: l) : ¬ Inside a l p := by
  rintro ⟨hmem, hap, -⟩
  rcases List.mem_cons.mp hp with rfl | hp
  · exact lt_irrefl _ hap
  · exact hmem hp

lemma isRun_of_mem_gaps (h : (a :: l).Pairwise (· < ·)) (hr : r ∈ gaps a l) :
    IsRun (Inside a l) r := by
  obtain ⟨hle, ⟨q, hq, hlow⟩, hhigh⟩ := neighbours_of_mem_gaps h hr
  refine ⟨hle, fun p h1 h2 => (inside_iff h).mpr ⟨r, hr, h1, h2⟩, fun p hp => ?_, ?_⟩
  · obtain rfl : p = q := by omega
    exact not_inside_of_mem h hq
  · exact not_inside_of_mem h (List.mem_cons_of_mem _ hhigh)

/-- The ranges are the maximal runs of the numbers inside the list. -/
theorem mem_gaps (h : (a :: l).Pairwise (· < ·)) : r ∈ gaps a l ↔ IsRun (Inside a l) r := by
  refine ⟨isRun_of_mem_gaps h, fun hr => ?_⟩
  obtain ⟨s, hs, hlow, hhigh⟩ := (inside_iff h).mp (hr.inside r.1 le_rfl hr.le)
  obtain rfl := hr.eq_of_mem (isRun_of_mem_gaps h hs) ⟨le_rfl, hr.le⟩ ⟨hlow, hhigh⟩
  exact hs

/-- The ranges ascend. -/
lemma pairwise_gaps (h : (a :: l).Pairwise (· < ·)) :
    (gaps a l).Pairwise fun r s => r.2 < s.1 := by
  induction l generalizing a with
  | nil => exact List.Pairwise.nil
  | cons b l ih =>
      have hl := (List.pairwise_cons.mp h).2
      rw [gaps]
      split
      · exact ih hl
      · refine List.pairwise_cons.mpr ⟨fun s hs => ?_, ih hl⟩
        obtain ⟨-, ⟨q, hq, hlow⟩, -⟩ := neighbours_of_mem_gaps hl hs
        have hbq : b ≤ q := by
          rcases List.mem_cons.mp hq with rfl | hq
          · exact le_rfl
          · exact ((List.pairwise_cons.mp hl).1 q hq).le
        dsimp only
        omega

/-! ### The numbers of a list of ranges -/

/-- How many numbers a range holds. -/
def size (r : ℕ × ℕ) : ℕ := r.2 + 1 - r.1

/-- The numbers of the ranges, range by range. -/
def spread (rs : List (ℕ × ℕ)) : List ℕ := rs.flatMap fun r => List.range' r.1 (size r)

lemma mem_spread {rs : List (ℕ × ℕ)} : p ∈ spread rs ↔ ∃ r ∈ rs, r.1 ≤ p ∧ p ≤ r.2 := by
  simp only [spread, List.mem_flatMap, List.mem_range'_1, size]
  exact exists_congr fun r => and_congr_right fun _ => by omega

lemma length_spread (rs : List (ℕ × ℕ)) : (spread rs).length = (rs.map size).sum := by
  simp [spread, List.length_flatMap, Function.comp_def]

lemma pairwise_spread {rs : List (ℕ × ℕ)} (h : rs.Pairwise fun r s => r.2 < s.1) :
    (spread rs).Pairwise (· < ·) := by
  induction rs with
  | nil => exact List.Pairwise.nil
  | cons r rs ih =>
      obtain ⟨hr, hrs⟩ := List.pairwise_cons.mp h
      rw [spread, List.flatMap_cons]
      refine List.pairwise_append.mpr ⟨List.pairwise_lt_range', ih hrs, fun p hp q hq => ?_⟩
      obtain ⟨s, hs, hlow, -⟩ := mem_spread.mp hq
      obtain ⟨hrp, hpr⟩ := List.mem_range'_1.mp hp
      have := hr s hs
      rw [size] at hpr
      omega

/-- A list without repetitions has as many members as the set it lists. -/
lemma ncard_of_mem_iff {ps : List ℕ} (hnodup : ps.Nodup) (h : ∀ p, p ∈ ps ↔ P p) :
    {p | P p}.ncard = ps.length := by
  have hset : {p | P p} = (ps.toFinset : Set ℕ) := by
    ext p
    simp [h]
  rw [hset, Set.ncard_coe_finset, List.toFinset_card_of_nodup hnodup]

lemma mem_spread_gaps (h : (a :: l).Pairwise (· < ·)) : p ∈ spread (gaps a l) ↔ Inside a l p := by
  rw [mem_spread, inside_iff h]

/-- The ranges hold as many numbers as lie inside the list. -/
theorem spread_gaps (h : (a :: l).Pairwise (· < ·)) :
    ((gaps a l).map size).sum = {p | Inside a l p}.ncard := by
  rw [← length_spread]
  exact (ncard_of_mem_iff (pairwise_spread (pairwise_gaps h)).nodup fun p => mem_spread_gaps h).symm

end Runs
