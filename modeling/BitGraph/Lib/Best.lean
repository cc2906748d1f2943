import Mathlib.Data.Set.Insert
import Mathlib.Data.List.Basic

/-!
The best element of a set.

`better a b` says that `a` is strictly better than `b`; where it is a strict weak order (`Ranks`)
a loop that keeps the best element seen ends with a best element of all.

* `Ranks.lex` and `Ranks.on` build such orders from others.
* `IsBest` is what such a loop ends with, none for an empty set.
* `IsBest.merge`: of the best of two sets the better one is best of both.
* `isBest_foldl`: a loop over a list.
* `IsBest.unique`: where different elements are never level there is one best element.
-/

namespace Best

variable {α : Type*} {better : α → α → Bool}

/-- A strict weak order. -/
structure Ranks (better : α → α → Bool) : Prop where
  asymm : ∀ a b, better a b = true → better b a = false
  negTrans : ∀ a b c, better a b = false → better b c = false → better a c = false

/-- The best of a set: one of its elements that no other is better than. -/
def IsBest (better : α → α → Bool) (S : Set α) : Option α → Prop
  | none => S = ∅
  | some a => a ∈ S ∧ ∀ b ∈ S, better b a = false

lemma isBest_empty : IsBest better (∅ : Set α) none := rfl

lemma Ranks.irrefl (h : Ranks better) (a : α) : better a a = false := by
  by_contra hne
  rw [Bool.not_eq_false] at hne
  exact absurd (h.asymm a a hne) (by simp [hne])

/-- An order pulled back along a map. -/
lemma Ranks.on {β : Type*} (h : Ranks better) (f : β → α) :
    Ranks fun a b => better (f a) (f b) where
  asymm a b := h.asymm (f a) (f b)
  negTrans a b c := h.negTrans (f a) (f b) (f c)

/-- A second order decides where the first has both level. -/
lemma Ranks.lex {rest : α → α → Bool} (h : Ranks better) (hrest : Ranks rest)
    {differ : α → α → Prop} [DecidableRel differ]
    (hdiffer : ∀ a b, ¬ differ a b ↔ better a b = false ∧ better b a = false) :
    Ranks fun a b => if differ a b then better a b else rest a b where
  asymm a b hab := by
    have hsymm : differ a b ↔ differ b a := by
      rw [← not_iff_not, hdiffer, hdiffer]
      exact and_comm
    by_cases hd : differ a b
    · rw [if_pos hd] at hab
      rw [if_pos (hsymm.mp hd)]
      exact h.asymm a b hab
    · rw [if_neg hd] at hab
      rw [if_neg fun hba => hd (hsymm.mpr hba)]
      exact hrest.asymm a b hab
  negTrans a b c hab hbc := by
    have hfalse : ∀ {x y : α}, (if differ x y then better x y else rest x y) = false →
        better x y = false := by
      intro x y hxy
      by_cases hd : differ x y
      · rwa [if_pos hd] at hxy
      · exact ((hdiffer x y).mp hd).1
    have hac := h.negTrans a b c (hfalse hab) (hfalse hbc)
    by_cases hd : differ a c
    · rw [if_pos hd]
      exact hac
    · -- level ends: what lies between them is level with both
      have hca := ((hdiffer a c).mp hd).2
      have hb : ¬ differ a b :=
        (hdiffer a b).mpr ⟨hfalse hab, h.negTrans b c a (hfalse hbc) hca⟩
      have hc : ¬ differ b c :=
        (hdiffer b c).mpr ⟨hfalse hbc, h.negTrans c a b hca (hfalse hab)⟩
      rw [if_neg hb] at hab
      rw [if_neg hc] at hbc
      rw [if_neg hd]
      exact hrest.negTrans a b c hab hbc

/-- More is better. -/
lemma ranks_gt {β : Type*} [LinearOrder β] : Ranks fun a b : β => decide (b < a) where
  asymm a b hab := by
    rw [decide_eq_true_eq] at hab
    simpa using hab.le
  negTrans a b c hab hbc := by
    simp only [decide_eq_false_iff_not, not_lt] at hab hbc ⊢
    exact hab.trans hbc

/-- Less is better. -/
lemma ranks_lt {β : Type*} [LinearOrder β] : Ranks fun a b : β => decide (a < b) where
  asymm a b hab := by
    rw [decide_eq_true_eq] at hab
    simpa using hab.le
  negTrans a b c hab hbc := by
    simp only [decide_eq_false_iff_not, not_lt] at hab hbc ⊢
    exact hbc.trans hab

/-- A set with an element has a best one. -/
lemma IsBest.exists_eq_some {S : Set α} {o : Option α} (h : IsBest better S o) {a : α}
    (ha : a ∈ S) : ∃ b, o = some b := by
  cases o with
  | none =>
      obtain rfl : S = ∅ := h
      exact absurd ha (Set.notMem_empty a)
  | some b => exact ⟨b, rfl⟩

/-- What an option holds is the best of it. -/
lemma isBest_option (h : Ranks better) (o : Option α) : IsBest better {a | o = some a} o := by
  cases o with
  | none => exact Set.eq_empty_of_forall_notMem fun a ha => nomatch ha
  | some a =>
      refine ⟨rfl, ?_⟩
      rintro b hb
      obtain rfl := Option.some.inj hb
      exact h.irrefl a

lemma isBest_singleton (h : Ranks better) (a : α) : IsBest better {a} (some a) := by
  refine ⟨rfl, ?_⟩
  rintro b rfl
  exact h.irrefl b

lemma IsBest.congr {S T : Set α} {o : Option α} (h : IsBest better S o) (hST : S = T) :
    IsBest better T o := hST ▸ h

/-- The better of two that may be missing, the first where they are level. -/
def merge (better : α → α → Bool) : Option α → Option α → Option α
  | none, b => b
  | a, none => a
  | some a, some b => if better b a then some b else some a

@[simp] lemma merge_none_left (b : Option α) : merge better none b = b := by
  cases b <;> rfl

@[simp] lemma merge_none_right (a : Option α) : merge better a none = a := by
  cases a <;> rfl

/-- Of the best of two sets the better one is best of both. -/
lemma IsBest.merge (hr : Ranks better) {S T : Set α} {a b : Option α} (ha : IsBest better S a)
    (hb : IsBest better T b) : IsBest better (S ∪ T) (merge better a b) := by
  cases a with
  | none =>
      obtain rfl : S = ∅ := ha
      rw [Set.empty_union, merge_none_left]
      exact hb
  | some a =>
      cases b with
      | none =>
          obtain rfl : T = ∅ := hb
          rw [Set.union_empty, merge_none_right]
          exact ha
      | some b =>
          obtain ⟨ha, hS⟩ := ha
          obtain ⟨hb, hT⟩ := hb
          rw [Best.merge]
          split
          · next hba =>
              refine ⟨Or.inr hb, ?_⟩
              rintro c (hc | hc)
              · exact hr.negTrans c a b (hS c hc) (hr.asymm b a hba)
              · exact hT c hc
          · next hba =>
              refine ⟨Or.inl ha, ?_⟩
              rintro c (hc | hc)
              · exact hS c hc
              · exact hr.negTrans c b a (hT c hc) (by simpa using hba)

/-- A loop over a list keeps the best. -/
lemma isBest_foldl (hr : Ranks better) (l : List α) {S : Set α} {o : Option α}
    (h : IsBest better S o) :
    IsBest better (S ∪ {a | a ∈ l}) (l.foldl (fun o a => merge better o (some a)) o) := by
  induction l generalizing S o with
  | nil => simpa using h
  | cons a l ih =>
      rw [List.foldl_cons]
      refine (ih (h.merge hr (isBest_singleton hr a))).congr ?_
      ext b
      simp only [Set.mem_union, Set.mem_singleton_iff, Set.mem_setOf_eq, List.mem_cons]
      exact or_assoc

/-- Where different elements are never level there is one best element. -/
lemma IsBest.unique {S : Set α} {a b : Option α} (ha : IsBest better S a)
    (hb : IsBest better S b)
    (hlevel : ∀ x ∈ S, ∀ y ∈ S, better x y = false → better y x = false → x = y) : a = b := by
  cases a with
  | none =>
      cases b with
      | none => rfl
      | some b =>
          obtain rfl : S = ∅ := ha
          exact absurd hb.1 (Set.notMem_empty b)
  | some a =>
      cases b with
      | none =>
          obtain rfl : S = ∅ := hb
          exact absurd ha.1 (Set.notMem_empty a)
      | some b =>
          rw [hlevel a ha.1 b hb.1 (hb.2 a ha.1) (ha.2 b hb.1)]

end Best
