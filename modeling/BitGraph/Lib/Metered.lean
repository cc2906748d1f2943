import Mathlib.Algebra.Order.Field.Basic
import Mathlib.Tactic.Linarith
import Mathlib.Tactic.Ring

/-!
Metered runs: what the accepted steps of a run may cost together.

* **Runs.** `after` is the state after a list of events, `total` the cost of those that are counted.
* **Levels.** `Level` is a store that refills at a rate up to a capacity and pays every cost; `Level.total_le`
  bounds what a run costs inside any interval by the capacity and the refill over it. `refill` is the
  arithmetic of such a store.
* **Windows.** `Window` is a budget that starts anew at some events. `Window.total_le`: where every
  restart comes a whole window after the last cost, no window of that length, wherever it starts, costs
  more than the budget.
-/

namespace Metered

/-! ### Runs -/

section Runs

variable {σ ε 𝕜 : Type*} [Field 𝕜]

/-- The state after events. -/
def after (step : σ → ε → σ) (s : σ) (l : List ε) : σ := l.foldl step s

/-- The cost of the counted events of a run. -/
def total (step : σ → ε → σ) (cost : σ → ε → 𝕜) (counted : ε → Prop) [DecidablePred counted] :
    σ → List ε → 𝕜
  | _, [] => 0
  | s, e :: l => (if counted e then cost s e else 0) + total step cost counted (step s e) l

variable {step : σ → ε → σ} {cost : σ → ε → 𝕜} {counted : ε → Prop} [DecidablePred counted] {s : σ}
  {l : List ε}

lemma total_of_not_counted (h : ∀ e ∈ l, ¬ counted e) : total step cost counted s l = 0 := by
  induction l generalizing s with
  | nil => rfl
  | cons e l ih =>
      rw [total, if_neg (h e (by simp)), ih fun x hx => h x (List.mem_cons_of_mem _ hx), add_zero]

/-- A condition on what is counted is a condition on what it costs. -/
lemma total_and (p : ε → Prop) [DecidablePred p] :
    total step cost (fun e => p e ∧ counted e) s l
      = total step (fun s e => if p e then cost s e else 0) counted s l := by
  induction l generalizing s with
  | nil => rfl
  | cons e l ih =>
      rw [total, total, ih]
      by_cases hp : p e
      · simp only [hp, true_and, if_true]
      · simp only [hp, false_and, if_false, ite_self]

end Runs

section Clock

variable {ε 𝕜 : Type*} [LinearOrder 𝕜] {time : ε → 𝕜} {e : ε} {l : List ε} {t a : 𝕜}

/-- A clock that does not go back, from a time on. -/
def Clock (time : ε → 𝕜) (t : 𝕜) (l : List ε) : Prop :=
  (∀ e ∈ l, t ≤ time e) ∧ l.Pairwise fun e f => time e ≤ time f

lemma Clock.tail (h : Clock time t (e :: l)) : Clock time (time e) l :=
  ⟨fun _ hf => List.rel_of_pairwise_cons h.2 hf, h.2.of_cons⟩

lemma Clock.head (h : Clock time t (e :: l)) : t ≤ time e := h.1 e (by simp)

/-- The clock of what comes after an event. -/
lemma Clock.rest {pre post : List ε} (h : Clock time t (pre ++ e :: post)) : Clock time (time e) post := by
  induction pre generalizing t with
  | nil => exact h.tail
  | cons f pre ih => exact ih h.tail

end Clock

variable {σ ε 𝕜 : Type*} [Field 𝕜] [LinearOrder 𝕜]

/-! ### The arithmetic of a refill -/

section Refill

variable [IsStrictOrderedRing 𝕜] {cap rate x dt t : 𝕜}

/-- What is there after some time, up to a capacity. -/
def refill (cap rate x dt : 𝕜) : 𝕜 := min cap (x + dt * rate)

/-- Two refills are one. -/
lemma refill_refill (hr : 0 ≤ rate) (hd : 0 ≤ t) :
    refill cap rate (refill cap rate x dt) t = refill cap rate x (dt + t) := by
  have hmul : 0 ≤ t * rate := mul_nonneg hd hr
  rw [refill, refill, refill, add_mul, ← add_assoc]
  rcases le_total cap (x + dt * rate) with h | h
  · rw [min_eq_left h, min_eq_left (by linarith), min_eq_left (by linarith)]
  · rw [min_eq_right h]

/-- What is full stays full. -/
lemma refill_full (hr : 0 ≤ rate) (h : cap ≤ x + dt * rate) (hd : dt ≤ t) : refill cap rate x t = cap := by
  have hmul := mul_le_mul_of_nonneg_right hd hr
  exact min_eq_left (by linarith)

lemma refill_cap (hr : 0 ≤ rate) (hd : 0 ≤ t) : refill cap rate cap t = cap :=
  refill_full hr (by simp) hd

lemma refill_nonneg (hc : 0 ≤ cap) (hr : 0 ≤ rate) (hx : 0 ≤ x) (hd : 0 ≤ dt) : 0 ≤ refill cap rate x dt :=
  le_min hc (add_nonneg hx (mul_nonneg hd hr))

end Refill

variable {step : σ → ε → σ} {cost : σ → ε → 𝕜} {counted : ε → Prop} [DecidablePred counted]
  {time : ε → 𝕜} {s : σ} {e : ε} {l : List ε} {t a b : 𝕜}

/-! ### Levels -/

/-- A level that refills at a rate up to a capacity, and pays what the steps cost. `Known s t` says that
the state is one of the time `t`, or of an earlier one. -/
structure Level (step : σ → ε → σ) (cost : σ → ε → 𝕜) (time : ε → 𝕜) (cap rate : 𝕜) where
  Known : σ → 𝕜 → Prop
  level : σ → 𝕜 → 𝕜
  later : ∀ {s t u}, Known s t → t ≤ u → Known s u
  nonneg : ∀ {s t}, Known s t → 0 ≤ level s t
  le_cap : ∀ s t, level s t ≤ cap
  grows : ∀ {s t u}, t ≤ u → level s u ≤ level s t + (u - t) * rate
  known : ∀ {s e}, Known s (time e) → Known (step s e) (time e)
  pays : ∀ {s e}, Known s (time e) → level (step s e) (time e) = level s (time e) - cost s e

namespace Level

variable [IsStrictOrderedRing 𝕜] {cap rate : 𝕜} (L : Level step cost time cap rate)

/-- From a time on: the level there, and the refill up to the end. -/
lemma total_le_level (hr : 0 ≤ rate) (hs : L.Known s t) (hl : Clock time t l) (hb : t ≤ b)
    (hcounted : ∀ e ∈ l, counted e ↔ time e ≤ b) :
    total step cost counted s l ≤ L.level s t + (b - t) * rate := by
  induction l generalizing s t with
  | nil =>
      have := L.nonneg hs
      have : 0 ≤ (b - t) * rate := mul_nonneg (sub_nonneg.mpr hb) hr
      rw [total]
      linarith
  | cons e l ih =>
      have hknown := L.later hs hl.head
      by_cases he : time e ≤ b
      · have htail := ih (L.known hknown) hl.tail he fun f hf => hcounted f (List.mem_cons_of_mem _ hf)
        have hpays := L.pays hknown
        have hgrows := L.grows (s := s) hl.head
        rw [total, if_pos ((hcounted e (by simp)).mpr he)]
        have hring : (time e - t) * rate + (b - time e) * rate = (b - t) * rate := by ring
        linarith
      · -- the clock has passed the end
        have hnone : ∀ f ∈ e :: l, ¬ counted f := fun f hf => by
          rw [hcounted f hf, not_le]
          rcases List.mem_cons.mp hf with rfl | hf'
          · exact not_le.mp he
          · exact (not_le.mp he).trans_le (hl.tail.1 f hf')
        have := L.nonneg hs
        have : 0 ≤ (b - t) * rate := mul_nonneg (sub_nonneg.mpr hb) hr
        rw [total_of_not_counted hnone]
        linarith

/-- **Any interval** costs at most the capacity and the refill over it. -/
theorem total_le (hr : 0 ≤ rate) (hc : 0 ≤ cap) (hs : L.Known s t) (hl : Clock time t l) (hab : a ≤ b)
    (hcounted : ∀ e ∈ l, counted e ↔ a ≤ time e ∧ time e ≤ b) :
    total step cost counted s l ≤ cap + (b - a) * rate := by
  have hwhole : 0 ≤ (b - a) * rate := mul_nonneg (sub_nonneg.mpr hab) hr
  induction l generalizing s t with
  | nil =>
      rw [total]
      linarith
  | cons e l ih =>
      have hknown := L.later hs hl.head
      by_cases ha : a ≤ time e
      · -- from here on every event is inside or beyond
        by_cases hb : time e ≤ b
        · have hle : total step cost counted s (e :: l) ≤ L.level s (time e) + (b - time e) * rate :=
            L.total_le_level hr hknown
            ⟨fun f hf => by
              rcases List.mem_cons.mp hf with rfl | hf
              · exact le_rfl
              · exact hl.tail.1 f hf, hl.2⟩ hb fun f hf => by
              rw [hcounted f hf]
              rcases List.mem_cons.mp hf with rfl | hf
              · exact and_iff_right ha
              · exact and_iff_right (ha.trans (hl.tail.1 f hf))
          have hcap := L.le_cap s (time e)
          have hshort : (b - time e) * rate ≤ (b - a) * rate :=
            mul_le_mul_of_nonneg_right (by linarith) hr
          linarith
        · have hnone : ∀ f ∈ e :: l, ¬ counted f := fun f hf => by
            rw [hcounted f hf, not_and_or, not_le, not_le]
            rcases List.mem_cons.mp hf with rfl | hf
            · exact Or.inr (not_le.mp hb)
            · exact Or.inr ((not_le.mp hb).trans_le (hl.tail.1 f hf))
          rw [total_of_not_counted hnone]
          linarith
      · rw [total, if_neg fun h => ha ((hcounted e (by simp)).mp h).1, zero_add]
        exact ih (L.known hknown) hl.tail fun f hf => hcounted f (List.mem_cons_of_mem _ hf)

end Level

/-! ### Windows -/

/-- A budget that some events start anew. -/
structure Window (step : σ → ε → σ) (cost : σ → ε → 𝕜) (budget : 𝕜) where
  used : σ → 𝕜
  restarts : σ → ε → Prop
  cost_nonneg : ∀ s e, 0 ≤ cost s e
  used_le : ∀ {s e}, used s ≤ budget → used (step s e) ≤ budget
  kept : ∀ {s e}, ¬ restarts s e → used (step s e) = used s + cost s e
  anew : ∀ s e, cost s e ≤ used (step s e)

namespace Window

variable {budget len : 𝕜} (W : Window step cost budget)

/-- Every restart comes a window after the last cost. -/
def Quiet (time : ε → 𝕜) (len : 𝕜) (s : σ) (l : List ε) : Prop :=
  ∀ pre e post, l = pre ++ e :: post → W.restarts (after step s pre) e →
    ∀ pre' f post', pre = pre' ++ f :: post' → 0 < cost (after step s pre') f → time f + len ≤ time e

lemma Quiet.tail {W : Window step cost budget} (h : W.Quiet time len s (e :: l)) :
    W.Quiet time len (step s e) l := by
  intro pre f post hl hr pre' g post' hpre hcost
  exact h (e :: pre) f post (by rw [hl]; rfl) hr (e :: pre') g post' (by rw [hpre]; rfl) hcost

variable [IsStrictOrderedRing 𝕜]

/-- Without a restart inside, what is left of the budget. -/
lemma total_le_left (hu : W.used s ≤ budget) (hl : Clock time t l)
    (hcounted : ∀ e ∈ l, counted e → time e < b)
    (hnone : ∀ pre e post, l = pre ++ e :: post → time e < b → ¬ W.restarts (after step s pre) e) :
    total step cost counted s l ≤ budget - W.used s := by
  induction l generalizing s t with
  | nil =>
      rw [total]
      linarith
  | cons e l ih =>
      by_cases he : time e < b
      · have hkept : W.used (step s e) = W.used s + cost s e := W.kept (hnone [] e l rfl he)
        have htail := ih (W.used_le hu) hl.tail (fun f hf => hcounted f (List.mem_cons_of_mem _ hf))
          fun pre f post hpre => hnone (e :: pre) f post (by rw [hpre]; rfl)
        have hcost := W.cost_nonneg s e
        rw [total]
        split <;> linarith
      · have hnot : ∀ f ∈ e :: l, ¬ counted f := fun f hf hc => by
          have hlt := hcounted f hf hc
          rcases List.mem_cons.mp hf with rfl | hf'
          · exact he hlt
          · exact he ((hl.tail.1 f hf').trans_lt hlt)
        rw [total_of_not_counted hnot]
        linarith

/-- **Any window** costs at most the budget, where restarts are quiet. -/
theorem total_le (h0 : 0 ≤ budget) (hu : W.used s ≤ budget) (hl : Clock time t l)
    (hq : W.Quiet time len s l) (hcounted : ∀ e ∈ l, counted e ↔ a ≤ time e ∧ time e < a + len) :
    total step cost counted s l ≤ budget := by
  induction l generalizing s t with
  | nil => exact h0
  | cons e l ih =>
      have htail : ∀ f ∈ l, counted f ↔ a ≤ time f ∧ time f < a + len :=
        fun f hf => hcounted f (List.mem_cons_of_mem _ hf)
      have hrest := ih (W.used_le hu) hl.tail hq.tail htail
      rw [total]
      split
      swap
      · rwa [zero_add]
      · next hin =>
          rcases (W.cost_nonneg s e).eq_or_lt with hzero | hpos
          · rwa [← hzero, zero_add]
          · -- the first cost inside: no restart before the end of the window
            have ha := ((hcounted e (by simp)).mp hin).1
            have hle := W.total_le_left (b := a + len) (W.used_le hu) hl.tail
              (fun f hf hc => ((htail f hf).mp hc).2) fun pre f post hl' hlt hr => by
                have := hq (e :: pre) f post (by rw [hl']; rfl) hr [] e pre rfl hpos
                linarith
            have := W.anew s e
            linarith

end Window

end Metered
