import Mathlib.Data.List.Basic

/-!
Records of fixed fields in a list: writing a field in its place, and reading one.

* `field l off len` reads `len` elements from `off` on, `put l off x` writes `x` at `off`.
* `field_put_of_le` and `field_put_of_ge`: other fields stay as they are; `field_writeAll` says so
  for a row of writes.
-/

namespace Layout

variable {α : Type*}

/-- The elements from `off` on, `len` of them. -/
def field (l : List α) (off len : ℕ) : List α := (l.drop off).take len

/-- Write over a list from `off` on. -/
def put (l : List α) (off : ℕ) (x : List α) : List α := l.take off ++ x ++ l.drop (off + x.length)

variable {l x : List α} {off o n : ℕ}

lemma length_field : (field l o n).length = min n (l.length - o) := by
  rw [field, List.length_take, List.length_drop]

lemma length_put (h : off + x.length ≤ l.length) : (put l off x).length = l.length := by
  rw [put, List.length_append, List.length_append, List.length_take, List.length_drop]
  omega

/-- A longer field reads back what was written and what stood behind it. -/
lemma field_put_of_length_le (h : off ≤ l.length) (hn : x.length ≤ n) :
    field (put l off x) off n = x ++ field l (off + x.length) (n - x.length) := by
  have hlen : (l.take off).length = off := by
    rw [List.length_take]
    omega
  rw [field, put, List.append_assoc, List.drop_left' hlen, List.take_append,
    List.take_of_length_le hn]
  rfl

/-- A field before the place of writing stays. -/
lemma field_put_of_le (h : off ≤ l.length) (hle : o + n ≤ off) :
    field (put l off x) o n = field l o n := by
  have hlen : (l.take off).length = off := by
    rw [List.length_take]
    omega
  rw [field, field, put, List.append_assoc, List.drop_append_of_le_length (by omega),
    List.take_append_of_le_length, List.drop_take, List.take_take]
  · congr 1
    omega
  · rw [List.length_drop]
    omega

/-- A field behind the place of writing stays. -/
lemma field_put_of_ge (h : off + x.length ≤ l.length) (hge : off + x.length ≤ o) :
    field (put l off x) o n = field l o n := by
  have hlen : (l.take off ++ x).length = off + x.length := by
    rw [List.length_append, List.length_take]
    omega
  rw [field, field, put, List.drop_append, List.drop_eq_nil_of_le (by omega), List.nil_append,
    List.drop_drop, hlen]
  congr 2
  omega

lemma put_nil (h : off ≤ l.length) : put l off [] = l := by
  rw [put, List.length_nil, Nat.add_zero, List.append_nil, List.take_append_drop]

/-- A row of writes. -/
def writeAll (l : List α) (ws : List (ℕ × List α)) : List α := ws.foldl (fun l w => put l w.1 w.2) l

lemma length_writeAll {ws : List (ℕ × List α)} (h : ∀ w ∈ ws, w.1 + w.2.length ≤ l.length) :
    (writeAll l ws).length = l.length := by
  induction ws generalizing l with
  | nil => rfl
  | cons w ws ih =>
      have hw := length_put (h w List.mem_cons_self)
      rw [writeAll, List.foldl_cons]
      refine (ih fun v hv => ?_).trans hw
      rw [hw]
      exact h v (List.mem_cons_of_mem _ hv)

/-- A field that no write touches stays. -/
lemma field_writeAll {ws : List (ℕ × List α)} (h : ∀ w ∈ ws, w.1 + w.2.length ≤ l.length)
    (hdisjoint : ∀ w ∈ ws, o + n ≤ w.1 ∨ w.1 + w.2.length ≤ o) :
    field (writeAll l ws) o n = field l o n := by
  induction ws generalizing l with
  | nil => rfl
  | cons w ws ih =>
      have hw := h w List.mem_cons_self
      rw [writeAll, List.foldl_cons]
      refine (ih (fun v hv => ?_) fun v hv => hdisjoint v (List.mem_cons_of_mem _ hv)).trans ?_
      · rw [length_put hw]
        exact h v (List.mem_cons_of_mem _ hv)
      · rcases hdisjoint w List.mem_cons_self with hle | hge
        · exact field_put_of_le (by omega) hle
        · exact field_put_of_ge hw hge

/-- A field that one write of a row fills, and no other touches. -/
lemma field_writeAll_at {ws₁ ws₂ : List (ℕ × List α)}
    (h : ∀ w ∈ ws₁ ++ (off, x) :: ws₂, w.1 + w.2.length ≤ l.length) (hn : x.length ≤ n)
    (hdisjoint : ∀ w ∈ ws₁ ++ ws₂, off + n ≤ w.1 ∨ w.1 + w.2.length ≤ off) :
    field (writeAll l (ws₁ ++ (off, x) :: ws₂)) off n
      = x ++ field l (off + x.length) (n - x.length) := by
  have h₁ : ∀ w ∈ ws₁, w.1 + w.2.length ≤ l.length := fun w hw => h w (List.mem_append_left _ hw)
  have hx : off + x.length ≤ l.length := h (off, x) (by simp)
  have hlen₁ := length_writeAll h₁
  have hlen : (put (writeAll l ws₁) off x).length = l.length := by
    rw [length_put (by omega), hlen₁]
  rw [writeAll, List.foldl_append, List.foldl_cons, ← writeAll, ← writeAll, field_writeAll,
    field_put_of_length_le (by omega) hn, field_writeAll h₁]
  · intro w hw
    rcases hdisjoint w (List.mem_append_left _ hw) with hle | hge
    · exact Or.inl (by omega)
    · exact Or.inr (by omega)
  · intro w hw
    rw [hlen]
    exact h w (List.mem_append_right _ (List.mem_cons_of_mem _ hw))
  · exact fun w hw => hdisjoint w (List.mem_append_right _ hw)

/-- Writes in order, none over another. -/
abbrev Apart (ws : List (ℕ × List α)) : Prop := ws.Pairwise fun v w => v.1 + v.2.length ≤ w.1

/-- A field that one write fills, up to the next one. -/
lemma field_writeAll_of_apart (ws₁ : List (ℕ × List α)) {ws₂ : List (ℕ × List α)}
    (h : ∀ w ∈ ws₁ ++ (off, x) :: ws₂, w.1 + w.2.length ≤ l.length)
    (hapart : Apart (ws₁ ++ (off, x) :: ws₂)) (hn : x.length ≤ n)
    (hnext : ∀ w ∈ ws₂.head?, off + n ≤ w.1) :
    field (writeAll l (ws₁ ++ (off, x) :: ws₂)) off n
      = x ++ field l (off + x.length) (n - x.length) := by
  obtain ⟨-, hbehind, hbefore⟩ := List.pairwise_append.mp hapart
  refine field_writeAll_at h hn fun w hw => ?_
  rcases List.mem_append.mp hw with hw | hw
  · exact Or.inr (hbefore w hw (off, x) List.mem_cons_self)
  · left
    cases ws₂ with
    | nil => nomatch hw
    | cons v ws₂ =>
        have hv := hnext v rfl
        rcases List.mem_cons.mp hw with rfl | hw
        · exact hv
        · have hvw := List.rel_of_pairwise_cons (List.pairwise_cons.mp hbehind).2 hw
          omega

/-- A list is its fields in a row. -/
lemma field_append (l : List α) (o n k : ℕ) :
    field l o (n + k) = field l o n ++ field l (o + n) k := by
  rw [field, field, field, List.take_add, List.drop_drop]

end Layout
