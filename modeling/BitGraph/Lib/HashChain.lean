import Mathlib.Data.List.Basic
import Mathlib.Data.List.GetD

/-!
Chains linked by hashes.

Each element names its predecessor by a key: the hash of the element before it, or a genesis
key for the first. `Linked` says so of a list, oldest first, and `linked_append` extends it at
its tip.

An element's hash is meant to fix its key. Then a chain does not fork: `Linked.fork` turns two
elements with one key into two elements with one hash and different keys, or into an element
whose hash is the genesis key.
-/

namespace HashChain

variable {α κ : Type*} (hash prev : α → κ)

/-- The key the next element has to name. -/
def tip (g : κ) : List α → κ
  | [] => g
  | a :: l => tip (hash a) l

/-- Every element names the one before it, the first one names `g`. -/
def Linked (g : κ) : List α → Prop
  | [] => True
  | a :: l => prev a = g ∧ Linked (hash a) l

variable {hash prev}

lemma tip_append (g : κ) (l : List α) (a : α) : tip hash g (l ++ [a]) = hash a := by
  induction l generalizing g with
  | nil => rfl
  | cons b l ih => exact ih (hash b)

lemma linked_append {g : κ} {l : List α} {a : α} :
    Linked hash prev g (l ++ [a]) ↔ Linked hash prev g l ∧ prev a = tip hash g l := by
  induction l generalizing g with
  | nil => simp [Linked, tip]
  | cons b l ih => simp [Linked, tip, ih, and_assoc]

/-- The first element names the genesis key. -/
lemma Linked.first {g : κ} {l : List α} (h : Linked hash prev g l) (h0 : 0 < l.length) :
    prev l[0] = g := by
  cases l with
  | nil => cases h0
  | cons a l => exact h.1

/-- Every later element names the hash of the one before it. -/
lemma Linked.next {g : κ} {l : List α} (h : Linked hash prev g l) {i : ℕ}
    (hi : i + 1 < l.length) : prev l[i + 1] = hash l[i] := by
  induction l generalizing g i with
  | nil => cases hi
  | cons a l ih =>
      cases i with
      | zero => exact h.2.first (by simpa using hi)
      | succ i => exact ih h.2 (by simpa using hi)

/-- **No fork.** Two elements with one key are one element, or two elements have one hash and
different keys, or an element hashes to the genesis key. -/
theorem Linked.fork {g : κ} {l : List α} (h : Linked hash prev g l) {i j : ℕ} (hi : i < l.length)
    (hj : j < l.length) (heq : prev l[i] = prev l[j]) :
    i = j ∨ (∃ a ∈ l, ∃ b ∈ l, prev a ≠ prev b ∧ hash a = hash b) ∨ ∃ a ∈ l, hash a = g := by
  -- back from both elements to their predecessors, until one of them is the first
  induction i generalizing j with
  | zero =>
      cases j with
      | zero => exact Or.inl rfl
      | succ j =>
          refine Or.inr (Or.inr ⟨l[j], List.getElem_mem _, ?_⟩)
          rw [← h.next hj, ← heq, h.first hi]
  | succ i ih =>
      cases j with
      | zero =>
          refine Or.inr (Or.inr ⟨l[i], List.getElem_mem _, ?_⟩)
          rw [← h.next hi, heq, h.first hj]
      | succ j =>
          have hhash : hash l[i] = hash l[j] := by rw [← h.next hi, ← h.next hj, heq]
          by_cases hprev : prev l[i] = prev l[j]
          · rcases ih (by omega) (by omega) hprev with rfl | hrest
            · exact Or.inl rfl
            · exact Or.inr hrest
          · exact Or.inr (Or.inl ⟨l[i], List.getElem_mem _, l[j], List.getElem_mem _, hprev, hhash⟩)

end HashChain
