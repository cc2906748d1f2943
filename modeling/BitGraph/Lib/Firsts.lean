import Mathlib.Data.List.Induction
import Mathlib.Tactic.Common

/-!
The first entry of each class of a list.

* `firsts same l`: the entries that no earlier one is the same as, in their order.
* `exists_firsts`: every entry is the same as one of them; `pairwise_firsts`: no two of them are.
* `foldl_keepNew`: a loop that remembers the keys it met keeps these entries, where two entries
  have one key exactly if they are the same.
-/

section Firsts

variable {α κ : Type*} {same : α → α → Bool} {l : List α} {x : α}

/-- The entries that no earlier one is the same as. -/
def firsts (same : α → α → Bool) (l : List α) : List α :=
  (l.zipIdx.filter fun e => !(l.take e.2).any (same · e.1)).map Prod.fst

lemma firsts_snoc : firsts same (l ++ [x])
    = firsts same l ++ if l.any (same · x) then [] else [x] := by
  have hold : ∀ e ∈ l.zipIdx, (l ++ [x]).take e.2 = l.take e.2 := by
    intro e he
    have hlt := List.snd_lt_of_mem_zipIdx he
    exact List.take_append_of_le_length (by omega)
  rw [firsts, List.zipIdx_append, List.filter_append, List.map_append]
  congr 1
  · rw [firsts]
    congr 1
    refine List.filter_congr fun e he => ?_
    rw [hold e he]
  · cases h : l.any (same · x) <;> simp [h]

lemma firsts_sublist : (firsts same l).Sublist l := by
  have h := (List.filter_sublist (p := fun e => !(l.take e.2).any (same · e.1))
    (l := l.zipIdx)).map Prod.fst
  rwa [List.zipIdx_map_fst] at h

/-- Every entry is the same as one that is kept. -/
lemma exists_firsts (hrefl : ∀ a, same a a = true)
    (htrans : ∀ a b c, same a b = true → same b c = true → same a c = true) (hx : x ∈ l) :
    ∃ k ∈ firsts same l, same k x = true := by
  induction l using List.reverseRecOn generalizing x with
  | nil => cases hx
  | append_singleton l y ih =>
    rw [firsts_snoc]
    rcases List.mem_append.mp hx with hx | hx
    · obtain ⟨k, hk, hs⟩ := ih hx
      exact ⟨k, List.mem_append_left _ hk, hs⟩
    · obtain rfl := List.mem_singleton.mp hx
      cases h : l.any (same · x) with
      | false => exact ⟨x, by simp, hrefl x⟩
      | true =>
        obtain ⟨y, hy, hs⟩ := List.any_eq_true.mp h
        obtain ⟨k, hk, hky⟩ := ih hy
        exact ⟨k, List.mem_append_left _ hk, htrans k y x hky hs⟩

/-- No entry that is kept is the same as a later one. -/
lemma pairwise_firsts : (firsts same l).Pairwise fun a b => same a b = false := by
  induction l using List.reverseRecOn with
  | nil => exact .nil
  | append_singleton l y ih =>
    rw [firsts_snoc, List.pairwise_append]
    refine ⟨ih, by split <;> simp, fun a ha b hb => ?_⟩
    split at hb
    · cases hb
    · next hany =>
      obtain rfl := List.mem_singleton.mp hb
      rw [Bool.not_eq_true, List.any_eq_false] at hany
      exact Bool.eq_false_iff.mpr (hany a (firsts_sublist.subset ha))

/-- One entry of the loop: the keys met and the entries kept. -/
def keepNew [DecidableEq κ] (key : α → κ) (s : List κ × List α) (x : α) : List κ × List α :=
  if key x ∈ s.1 then s else (key x :: s.1, s.2 ++ [x])

/-- The loop keeps the first entry of each class. -/
theorem foldl_keepNew [DecidableEq κ] {key : α → κ}
    (h : ∀ a ∈ l, ∀ b ∈ l, key a = key b ↔ same a b = true) :
    (l.foldl (keepNew key) ([], [])).2 = firsts same l := by
  have hseen : ∀ (l : List α) (k : κ), k ∈ (l.foldl (keepNew key) ([], [])).1 ↔ k ∈ l.map key := by
    intro l k
    induction l using List.reverseRecOn with
    | nil => rfl
    | append_singleton l y ih =>
      rw [List.foldl_append, List.map_append, List.mem_append, ← ih, List.foldl_cons,
        List.foldl_nil, keepNew]
      split
      · next hy => exact ⟨.inl, fun hk => hk.elim id fun hk => List.mem_singleton.mp hk ▸ hy⟩
      · rw [List.mem_cons, List.map_singleton, List.mem_singleton, or_comm]
  induction l using List.reverseRecOn with
  | nil => rfl
  | append_singleton l y ih =>
    have hl : ∀ a ∈ l, a ∈ l ++ [y] := fun a ha => List.mem_append_left _ ha
    have hy : key y ∈ l.map key ↔ l.any (same · y) = true := by
      rw [List.mem_map, List.any_eq_true]
      refine exists_congr fun a => and_congr_right fun ha => h a (hl a ha) y (by simp)
    rw [List.foldl_append, List.foldl_cons, List.foldl_nil, firsts_snoc,
      ← ih fun a ha b hb => h a (hl a ha) b (hl b hb), keepNew]
    simp only [hseen, hy]
    split <;> simp

end Firsts
