import Mathlib.Data.List.Basic

/-!
Runs that log as they go and may be stopped.

* **Runs.** `Logged ε κ α` logs entries of `κ` and ends in an `α` or is stopped by an `ε`. What was
  logged before the stop stays.
* **Steps.** `note` logs an entry, `of` runs a computation that logs nothing, `stop` ends the run.
* `bind_eq_ended`: two runs in a row end exactly when both do, with both logs.
-/

namespace Lib

/-- A run: what it logged, and what it ended in. -/
structure Logged (ε κ α : Type) where
  log : List κ
  out : Except ε α

namespace Logged

variable {ε κ α β : Type}

instance : Monad (Logged ε κ) where
  pure a := ⟨[], .ok a⟩
  bind x f := match x.out with
    | .ok a => ⟨x.log ++ (f a).log, (f a).out⟩
    | .error e => ⟨x.log, .error e⟩

/-- A run that logs nothing. -/
def of (x : Except ε α) : Logged ε κ α := ⟨[], x⟩

def note (c : κ) : Logged ε κ Unit := ⟨[c], .ok ()⟩

def stop (log : List κ) (e : ε) : Logged ε κ α := ⟨log, .error e⟩

/-! ### Runs that end -/

/-- The run logs `log` and ends in `a`. -/
def Ends (x : Logged ε κ α) (log : List κ) (a : α) : Prop := x = ⟨log, .ok a⟩

variable {x : Logged ε κ α} {f : α → Logged ε κ β} {l : List κ} {a b : α} {e : ε}

lemma ends_of_out (h : x.out = .ok a) : x.Ends x.log a := by
  obtain ⟨log, out⟩ := x
  cases h
  rfl

lemma bind_of_ends (h : x.Ends l a) : x >>= f = ⟨l ++ (f a).log, (f a).out⟩ := by
  rw [h]
  rfl

lemma bind_of_error (h : x.out = .error e) : x >>= f = ⟨x.log, .error e⟩ := by
  obtain ⟨log, out⟩ := x
  cases h
  rfl

/-- Two runs in a row end exactly when both do. -/
theorem ends_bind {c : β} : (x >>= f).Ends l c
    ↔ ∃ a l₁ l₂, x.Ends l₁ a ∧ (f a).Ends l₂ c ∧ l = l₁ ++ l₂ := by
  constructor
  · intro h
    cases hx : x.out with
    | error e =>
        rw [Ends, bind_of_error hx] at h
        cases h
    | ok a =>
        have hends := ends_of_out hx
        rw [Ends, bind_of_ends hends] at h
        injection h with hlog hout
        exact ⟨a, x.log, (f a).log, hends, ends_of_out hout, hlog.symm⟩
  · rintro ⟨a, l₁, l₂, hx, hf, rfl⟩
    rw [Ends, bind_of_ends hx, hf]

lemma ends_pure : (pure a : Logged ε κ α).Ends l b ↔ l = [] ∧ a = b := by
  constructor
  · intro h
    injection h with hlog hout
    exact ⟨hlog.symm, Except.ok.inj hout⟩
  · rintro ⟨rfl, rfl⟩
    rfl

lemma ends_note {c : κ} {u : Unit} : (note c : Logged ε κ Unit).Ends l u ↔ l = [c] := by
  constructor
  · intro h
    injection h with hlog hout
    exact hlog.symm
  · rintro rfl
    rfl

lemma ends_of {y : Except ε α} : (of y : Logged ε κ α).Ends l a ↔ l = [] ∧ y = .ok a := by
  constructor
  · intro h
    injection h with hlog hout
    exact ⟨hlog.symm, hout⟩
  · rintro ⟨rfl, rfl⟩
    rfl

lemma not_ends_stop {l' : List κ} : ¬ (stop l' e : Logged ε κ α).Ends l a := by
  intro h
  injection h with hlog hout
  cases hout

/-! ### Runs that stop -/

/-- The run logs `log` and is stopped by `e`. -/
def Stops (x : Logged ε κ α) (log : List κ) (e : ε) : Prop := x = ⟨log, .error e⟩

/-- Two runs in a row stop where the first does, or the second after it. -/
theorem stops_bind : (x >>= f).Stops l e
    ↔ x.Stops l e ∨ ∃ a l₁ l₂, x.Ends l₁ a ∧ (f a).Stops l₂ e ∧ l = l₁ ++ l₂ := by
  constructor
  · intro h
    cases hx : x.out with
    | error e' =>
        rw [Stops, bind_of_error hx] at h
        injection h with hlog hout
        left
        obtain ⟨log, out⟩ := x
        cases hx
        cases hlog
        obtain rfl := Except.error.inj hout
        rfl
    | ok a =>
        have hends := ends_of_out hx
        rw [Stops, bind_of_ends hends] at h
        injection h with hlog hout
        right
        refine ⟨a, x.log, (f a).log, hends, ?_, hlog.symm⟩
        rw [Stops, ← hout]
  · rintro (hx | ⟨a, l₁, l₂, hx, hf, rfl⟩)
    · rw [Stops, hx]
      rfl
    · rw [Stops, bind_of_ends hx, hf]

lemma not_stops_pure : ¬ (pure a : Logged ε κ α).Stops l e := by
  intro h
  injection h with hlog hout
  cases hout

lemma not_stops_note {c : κ} : ¬ (note c : Logged ε κ Unit).Stops l e := by
  intro h
  injection h with hlog hout
  cases hout

lemma stops_stop {l' : List κ} {e' : ε} : (stop l' e' : Logged ε κ α).Stops l e ↔ l = l' ∧ e' = e := by
  constructor
  · intro h
    injection h with hlog hout
    exact ⟨hlog.symm, Except.error.inj hout⟩
  · rintro ⟨rfl, rfl⟩
    rfl

lemma stops_of {y : Except ε α} : (of y : Logged ε κ α).Stops l e ↔ l = [] ∧ y = .error e := by
  constructor
  · intro h
    injection h with hlog hout
    exact ⟨hlog.symm, hout⟩
  · rintro ⟨rfl, rfl⟩
    rfl

/-! ### Outcomes -/

lemma out_bind_ok {c : β} : (x >>= f).out = .ok c ↔ ∃ a, x.out = .ok a ∧ (f a).out = .ok c := by
  constructor
  · intro h
    obtain ⟨a, l₁, l₂, hx, hf, -⟩ := ends_bind.mp (ends_of_out h)
    exact ⟨a, congrArg out hx, congrArg out hf⟩
  · rintro ⟨a, hx, hf⟩
    exact congrArg out (ends_bind.mpr ⟨a, _, _, ends_of_out hx, ends_of_out hf, rfl⟩)

lemma out_bind_error : (x >>= f).out = .error e
    ↔ x.out = .error e ∨ ∃ a, x.out = .ok a ∧ (f a).out = .error e := by
  cases hx : x.out with
  | error e' => simp [bind_of_error hx]
  | ok a => simp [bind_of_ends (ends_of_out hx)]

end Logged

end Lib
