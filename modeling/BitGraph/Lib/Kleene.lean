import Mathlib.Order.Basic
import Mathlib.Order.BoundedOrder.Basic
import Mathlib.Data.List.Forall2

/-!
Strong Kleene logic and its order of information.

A value is true, false or undetermined; `v ≤ w` says that `v` is undetermined or is `w`. The
connectives are monotone in that order, so that a formula whose atoms lose information can only
become undetermined: `not_mono`, `all_mono`, `any_mono`.
-/

namespace Kleene

/-- A three-valued truth value. -/
inductive ThreeValued where
  | TRUE
  | FALSE
  | UNDETERMINED
  deriving DecidableEq, Repr

open ThreeValued

namespace ThreeValued

/-- Undetermined is below everything, and a determined value only below itself. -/
instance : PartialOrder ThreeValued where
  le v w := v = UNDETERMINED ∨ v = w
  le_refl _ := Or.inr rfl
  le_trans u v w huv hvw := by
    rcases huv with rfl | rfl
    · exact Or.inl rfl
    · exact hvw
  le_antisymm v w hvw hwv := by
    rcases hvw with rfl | rfl
    · rcases hwv with rfl | rfl <;> rfl
    · rfl

instance : OrderBot ThreeValued where
  bot := UNDETERMINED
  bot_le _ := Or.inl rfl

lemma undetermined_le (v : ThreeValued) : UNDETERMINED ≤ v := Or.inl rfl

/-- A determined value stays what it is. -/
lemma eq_of_le {v w : ThreeValued} (h : v ≤ w) (hv : v ≠ UNDETERMINED) : w = v :=
  (h.resolve_left hv).symm

end ThreeValued

/-- Negation. -/
def not : ThreeValued → ThreeValued
  | TRUE => FALSE
  | FALSE => TRUE
  | UNDETERMINED => UNDETERMINED

/-- Conjunction of a list: false where one is false, true where all are. -/
def all (l : List ThreeValued) : ThreeValued :=
  if FALSE ∈ l then FALSE else if UNDETERMINED ∈ l then UNDETERMINED else TRUE

/-- Disjunction of a list. -/
def any (l : List ThreeValued) : ThreeValued := not (all (l.map not))

lemma not_mono {v w : ThreeValued} (h : v ≤ w) : not v ≤ not w := by
  rcases h with rfl | rfl
  · exact ThreeValued.undetermined_le _
  · exact le_rfl

/-- A determined element of the lower list stands in the upper one. -/
lemma mem_of_forall₂ {l l' : List ThreeValued} (h : List.Forall₂ (· ≤ ·) l l')
    {v : ThreeValued} (hv : v ≠ UNDETERMINED) (hmem : v ∈ l) : v ∈ l' := by
  induction h with
  | nil => cases hmem
  | cons hle _ ih =>
      rcases List.mem_cons.mp hmem with rfl | hmem
      · rw [← ThreeValued.eq_of_le hle hv]
        exact List.mem_cons_self
      · exact List.mem_cons_of_mem _ (ih hmem)

/-- Without an undetermined element the two lists are one. -/
lemma eq_of_forall₂ {l l' : List ThreeValued} (h : List.Forall₂ (· ≤ ·) l l')
    (hdet : UNDETERMINED ∉ l) : l' = l := by
  induction h with
  | nil => rfl
  | cons hle _ ih =>
      rw [List.mem_cons, not_or] at hdet
      rw [ThreeValued.eq_of_le hle (Ne.symm hdet.1), ih hdet.2]

lemma all_eq_true_iff {l : List ThreeValued} : all l = TRUE ↔ ∀ v ∈ l, v = TRUE := by
  rw [all]
  split_ifs with hfalse hund
  · exact ⟨fun h => (nomatch h), fun h => (nomatch h _ hfalse)⟩
  · exact ⟨fun h => (nomatch h), fun h => (nomatch h _ hund)⟩
  · refine ⟨fun _ v hv => ?_, fun _ => rfl⟩
    cases v with
    | TRUE => rfl
    | FALSE => exact absurd hv hfalse
    | UNDETERMINED => exact absurd hv hund

lemma all_eq_false_iff {l : List ThreeValued} : all l = FALSE ↔ FALSE ∈ l := by
  rw [all]
  split_ifs <;> simp_all

lemma any_eq_true_iff {l : List ThreeValued} : any l = TRUE ↔ TRUE ∈ l := by
  have hnot : ∀ v, not v = TRUE ↔ v = FALSE := fun v => by cases v <;> decide
  have hfalse : FALSE ∈ l.map not ↔ TRUE ∈ l := by
    rw [List.mem_map]
    constructor
    · rintro ⟨v, hv, h⟩
      cases v with
      | TRUE => exact hv
      | FALSE => cases h
      | UNDETERMINED => cases h
    · exact fun h => ⟨TRUE, h, rfl⟩
  rw [any, hnot, all_eq_false_iff, hfalse]

lemma any_eq_false_iff {l : List ThreeValued} : any l = FALSE ↔ ∀ v ∈ l, v = FALSE := by
  have hnot : ∀ v, not v = FALSE ↔ v = TRUE := fun v => by cases v <;> decide
  have hnot' : ∀ v, not v = TRUE ↔ v = FALSE := fun v => by cases v <;> decide
  rw [any, hnot, all_eq_true_iff, List.forall_mem_map]
  simp only [hnot']

/-- A connective of values that all avoid a determined value avoids it. -/
lemma all_ne {l : List ThreeValued} {v : ThreeValued} (hne : l ≠ []) (hv : v ≠ UNDETERMINED)
    (h : ∀ w ∈ l, w ≠ v) : all l ≠ v := by
  cases v with
  | TRUE =>
      obtain ⟨w, hw⟩ := List.exists_mem_of_ne_nil l hne
      exact fun hall => h w hw (all_eq_true_iff.mp hall w hw)
  | FALSE => exact fun hall => h _ (all_eq_false_iff.mp hall) rfl
  | UNDETERMINED => exact absurd rfl hv

lemma any_ne {l : List ThreeValued} {v : ThreeValued} (hne : l ≠ []) (hv : v ≠ UNDETERMINED)
    (h : ∀ w ∈ l, w ≠ v) : any l ≠ v := by
  cases v with
  | TRUE => exact fun hany => h _ (any_eq_true_iff.mp hany) rfl
  | FALSE =>
      obtain ⟨w, hw⟩ := List.exists_mem_of_ne_nil l hne
      exact fun hany => h w hw (any_eq_false_iff.mp hany w hw)
  | UNDETERMINED => exact absurd rfl hv

lemma all_mono {l l' : List ThreeValued} (h : List.Forall₂ (· ≤ ·) l l') : all l ≤ all l' := by
  rw [all]
  split_ifs with hfalse hund
  · rw [all, if_pos (mem_of_forall₂ h (by decide) hfalse)]
  · exact ThreeValued.undetermined_le _
  · rw [eq_of_forall₂ h hund, all, if_neg hfalse, if_neg hund]

lemma any_mono {l l' : List ThreeValued} (h : List.Forall₂ (· ≤ ·) l l') : any l ≤ any l' := by
  refine not_mono (all_mono ?_)
  rw [List.forall₂_map_left_iff, List.forall₂_map_right_iff]
  exact h.imp fun _ _ hle => not_mono hle

end Kleene
