import Mathlib.Tactic

/-!
Stores that keep the first value written to a key.

* **Stores.** `put` writes where the key has no value, `Within` says that one store has
  everything another has. `within_put`: a value that was read once is read ever after.
* **Claims.** `Holds` ties a store to the list of the claims it took. `Holds.put` carries it
  over a claim that meets no other value, and `Holds.unique` gives one value to a key.
-/

namespace WriteOnce

variable {κ ν : Type*}

/-- At most one value for a key. -/
abbrev Store (κ ν : Type*) := κ → Option ν

namespace Store

/-- The store without a value. -/
def empty : Store κ ν := fun _ => none

/-- Write a value where the key has none. -/
def put [DecidableEq κ] (s : Store κ ν) (k : κ) (v : ν) : Store κ ν :=
  if (s k).isSome then s else Function.update s k (some v)

/-- What the first store has is in the second. -/
def Within (s t : Store κ ν) : Prop := ∀ k v, s k = some v → t k = some v

section Put

variable [DecidableEq κ] {s : Store κ ν} {k : κ}

lemma put_of_none (h : s k = none) (v : ν) : s.put k v = Function.update s k (some v) := by
  rw [put, h, if_neg (by simp)]

lemma put_of_some {w : ν} (h : s k = some w) (v : ν) : s.put k v = s := by
  rw [put, h, Option.isSome_some, if_pos rfl]

lemma within_put (s : Store κ ν) (k : κ) (v : ν) : s.Within (s.put k v) := by
  intro j w hj
  cases hk : s k with
  | none =>
      have hne : j ≠ k := by
        rintro rfl
        rw [hk] at hj
        exact absurd hj (by simp)
      rw [put_of_none hk, Function.update_of_ne hne, hj]
  | some u => rw [put_of_some hk, hj]

/-- The key a value was offered to has a value. -/
lemma put_self (s : Store κ ν) (k : κ) (v : ν) : s.put k v k = some ((s k).getD v) := by
  cases hk : s k with
  | none => rw [put_of_none hk, Function.update_self, Option.getD_none]
  | some u => rw [put_of_some hk, hk, Option.getD_some]

end Put

/-! ### Claims -/

/-- The store holds the claims of a list and nothing else. -/
def Holds (s : Store κ ν) (claims : List (κ × ν)) : Prop :=
  ∀ k v, s k = some v ↔ (k, v) ∈ claims

lemma holds_empty : Holds (empty : Store κ ν) [] := fun k v => by simp [empty]

/-- The claims of a store give a key one value. -/
lemma Holds.unique {s : Store κ ν} {claims : List (κ × ν)} (h : s.Holds claims) {k : κ} {v w : ν}
    (hv : (k, v) ∈ claims) (hw : (k, w) ∈ claims) : v = w := by
  have hsv := (h k v).mpr hv
  have hsw := (h k w).mpr hw
  exact Option.some.inj (hsv.symm.trans hsw)

lemma Holds.eq_none {s : Store κ ν} {claims : List (κ × ν)} (h : s.Holds claims) {k : κ}
    (hk : ∀ v, (k, v) ∉ claims) : s k = none :=
  Option.eq_none_iff_forall_ne_some.mpr fun v hv => hk v ((h k v).mp hv)

/-- A claim that meets no other value joins the claims of the store. -/
lemma Holds.put [DecidableEq κ] {s : Store κ ν} {claims : List (κ × ν)} (h : s.Holds claims)
    {k : κ} {v : ν} (hk : ∀ w, s k = some w → w = v) : (s.put k v).Holds (claims ++ [(k, v)]) := by
  intro j w
  rw [List.mem_append, List.mem_singleton, Prod.mk.injEq, ← h j w]
  by_cases hj : j = k
  · subst hj
    have hself : (s j).getD v = v := by
      cases hs : s j with
      | none => rfl
      | some u => exact hk u hs
    rw [put_self, hself, Option.some.injEq]
    constructor
    · rintro rfl
      exact Or.inr ⟨rfl, rfl⟩
    · rintro (hs | ⟨-, rfl⟩)
      · exact (hk w hs).symm
      · rfl
  · have hput : s.put k v j = s j := by
      rw [Store.put]
      split
      · rfl
      · exact Function.update_of_ne hj _ _
    rw [hput]
    exact ⟨Or.inl, fun hs => hs.resolve_right fun he => hj he.1⟩

end Store

end WriteOnce
