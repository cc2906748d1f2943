import Mathlib.Data.List.Basic
import Mathlib.Data.List.Infix
import Mathlib.Tactic.Common

/-!
Radix trees over maps from words to values.

* `Node` is a tree whose edges carry words.
* `IsTree J N`: the tree `N` is that of the map `J`. A map of one word is a leaf; several words
  with a common beginning go through an extension by the longest one; else they part at a branch.
-/

namespace Radix

variable {α β : Type*}

inductive Node (α β : Type*) where
  | empty
  | leaf (path : List α) (value : β)
  | ext (path : List α) (child : Node α β)
  | branch (children : α → Node α β) (value : Option β)

/-- No tree. -/
def Node.isEmpty : Node α β → Bool
  | .empty => true
  | _ => false

/-! ### Maps -/

/-- What a map says behind a beginning. -/
def behind (J : List α → Option β) (p k : List α) : Option β := J (p ++ k)

/-- Every word of the map begins so. -/
def Common (J : List α → Option β) (p : List α) : Prop := ∀ k, J k ≠ none → p <+: k

/-- The longest common beginning. -/
def Longest (J : List α → Option β) (p : List α) : Prop := Common J p ∧ ∀ q, Common J q → q <+: p

/-- There are two words at least. -/
def Many (J : List α → Option β) : Prop := ∃ k l, k ≠ l ∧ J k ≠ none ∧ J l ≠ none

/-- The tree of a map. -/
inductive IsTree : (List α → Option β) → Node α β → Prop
  | empty {J : List α → Option β} (none : ∀ k, J k = none) : IsTree J .empty
  | leaf {J : List α → Option β} {path : List α} {value : β} (here : J path = some value)
      (only : ∀ k, J k ≠ none → k = path) : IsTree J (.leaf path value)
  | ext {J : List α → Option β} {path : List α} {child : Node α β} (many : Many J)
      (nonempty : path ≠ []) (longest : Longest J path) (below : IsTree (behind J path) child) :
      IsTree J (.ext path child)
  | branch {J : List α → Option β} {children : α → Node α β} (many : Many J)
      (parted : Longest J []) (below : ∀ a, IsTree (behind J [a]) (children a)) :
      IsTree J (.branch children (J []))

variable {J : List α → Option β} {N M : Node α β} {p k : List α}

/-- Behind a common beginning there are as many words. -/
lemma Many.behind (h : Many J) (hp : Common J p) : Many (behind J p) := by
  obtain ⟨k, l, hne, hk, hl⟩ := h
  obtain ⟨k, rfl⟩ := hp k hk
  obtain ⟨l, rfl⟩ := hp l hl
  exact ⟨k, l, fun h => hne (congrArg (p ++ ·) h), hk, hl⟩

lemma IsTree.isEmpty_iff (h : IsTree J N) : N.isEmpty = true ↔ ∀ k, J k = none := by
  cases h with
  | empty none => exact ⟨fun _ => none, fun _ => rfl⟩
  | leaf here only =>
      rename_i path value
      exact ⟨fun h => Bool.noConfusion h, fun h => nomatch (h path).symm.trans here⟩
  | ext many nonempty longest below =>
      obtain ⟨k, -, -, hk, -⟩ := many
      exact ⟨fun h => Bool.noConfusion h, fun h => absurd (h k) hk⟩
  | branch many parted below =>
      obtain ⟨k, -, -, hk, -⟩ := many
      exact ⟨fun h => Bool.noConfusion h, fun h => absurd (h k) hk⟩

/-- No word of the map is the beginning of another. -/
def PrefixFree (J : List α → Option β) : Prop :=
  ∀ k l, J k ≠ none → J l ≠ none → k <+: l → k = l

lemma PrefixFree.behind (h : PrefixFree J) (p : List α) : PrefixFree (behind J p) := by
  intro k l hk hl hkl
  exact List.append_cancel_left (h (p ++ k) (p ++ l) hk hl ((List.prefix_append_right_inj p).mpr hkl))

/-- Where words part, none of them ends, unless one begins another. -/
lemma PrefixFree.nil_eq_none (h : PrefixFree J) (hm : Many J) : J [] = none := by
  by_contra hnil
  obtain ⟨k, l, hne, hk, hl⟩ := hm
  exact hne ((h [] k hnil hk List.nil_prefix).symm.trans (h [] l hnil hl List.nil_prefix))

end Radix
