import Mathlib.Data.List.Basic

/-!
What holds between two labels of a run that no reset stands between.

* `Since reset P ls`: the labels from the last reset of `ls` on satisfy `P`, the reset included.
* `Between reset R ls`: `R` holds from every label to every later one, while no reset stands
  between them.
* `Between.snoc` is the step: a run that grows by `b` keeps `Between` where `Since` has `R · b`.
* `forall_split_cons` goes through the places of a list from its head.
-/

section Since

variable {Label : Type*} {reset : Label → Prop} {P Q : Label → Prop} {R : Label → Label → Prop}
  {ls : List Label} {b : Label}

/-- The labels behind the last reset, and that reset. -/
def Since (reset P : Label → Prop) (ls : List Label) : Prop :=
  ∀ before a after, ls = before ++ a :: after → (∀ l ∈ after, ¬ reset l) → P a

/-- From every label to every later one, up to the next reset. -/
def Between (reset : Label → Prop) (R : Label → Label → Prop) (ls : List Label) : Prop :=
  ∀ before a mid b after, ls = before ++ a :: (mid ++ b :: after) → (∀ l ∈ mid, ¬ reset l) → R a b

lemma Since.nil : Since reset P [] := fun before a after h => absurd h (by simp)

lemma Since.mono (h : Since reset P ls) (hPQ : ∀ a, P a → Q a) : Since reset Q ls :=
  fun before a after heq hafter => hPQ a (h before a after heq hafter)

/-- A list ends with its last label, or has it further in front. -/
lemma snoc_eq_append_cons {before after : List Label} {a : Label}
    (h : ls ++ [b] = before ++ a :: after) :
    (after = [] ∧ a = b ∧ before = ls) ∨ ∃ rest, after = rest ++ [b] ∧ ls = before ++ a :: rest := by
  rcases List.eq_nil_or_concat after with rfl | ⟨rest, c, rfl⟩
  · obtain ⟨rfl, hb⟩ := List.append_inj' h rfl
    exact .inl ⟨rfl, (List.singleton_inj.mp hb).symm, rfl⟩
  · rw [List.concat_eq_append, ← List.cons_append, ← List.append_assoc] at h
    obtain ⟨rfl, hb⟩ := List.append_inj' h rfl
    obtain rfl := List.singleton_inj.mp hb
    exact .inr ⟨rest, List.concat_eq_append, rfl⟩

/-- The places of a list, one by one. -/
lemma forall_split_cons {P : List Label → Label → List Label → Prop} {a : Label} :
    (∀ pre f post, a :: ls = pre ++ f :: post → P pre f post)
      ↔ P [] a ls ∧ ∀ pre f post, ls = pre ++ f :: post → P (a :: pre) f post := by
  constructor
  · intro h
    exact ⟨h [] a ls rfl, fun pre f post hl => h (a :: pre) f post (by rw [hl]; rfl)⟩
  · rintro ⟨hhead, htail⟩ pre f post hl
    cases pre with
    | nil =>
        obtain ⟨rfl, rfl⟩ := List.cons_eq_cons.mp hl
        exact hhead
    | cons g pre =>
        obtain ⟨rfl, hrest⟩ := List.cons_eq_cons.mp hl
        exact htail pre f post hrest

lemma forall_split_nil {P : List Label → Label → List Label → Prop} :
    ∀ pre f post, [] = pre ++ f :: post → P pre f post := fun _ _ _ h => by simp at h

lemma Since.snoc (h : ¬ reset b → Since reset P ls) (hb : P b) : Since reset P (ls ++ [b]) := by
  intro before a after heq hafter
  rcases snoc_eq_append_cons heq with ⟨rfl, rfl, rfl⟩ | ⟨rest, rfl, hls⟩
  · exact hb
  · exact h (hafter b (by simp)) before a rest hls fun l hl => hafter l (by simp [hl])

lemma Between.nil : Between reset R [] := fun before a mid b after h => absurd h (by simp)

lemma Between.snoc (h : Between reset R ls) (hb : Since reset (R · b) ls) :
    Between reset R (ls ++ [b]) := by
  intro before a mid c after heq hmid
  rcases snoc_eq_append_cons heq with ⟨hnil, -⟩ | ⟨rest, hrest, hls⟩
  · exact absurd hnil (by simp)
  · rcases snoc_eq_append_cons hrest.symm with ⟨rfl, rfl, rfl⟩ | ⟨rest', rfl, rfl⟩
    · exact hb before a mid hls hmid
    · exact h before a mid c rest' hls hmid

end Since
