import Mathlib.Data.List.Nodup
import Mathlib.Logic.Function.Basic
import Mathlib.Order.Nat

/-!
Instances handed out of a free list.

* **Pool.** `take` hands out an idle instance or makes one, `give` puts one back while fewer than
  `cap` are idle.
* **Ownership.** `Sound p held`: what each user holds is held by no other and is not idle.
  `Sound.take` and `Sound.give` keep it, so users that write only to what they hold do not meet.
-/

namespace Lib

/-- The contents of the instances made so far, and those that are idle. -/
structure Pool (S : Type*) where
  heap : ℕ → S
  next : ℕ
  idle : List ℕ

namespace Pool

variable {S U : Type*}

/-- A new instance. -/
def make (fresh : S) (p : Pool S) : ℕ × Pool S :=
  (p.next, { p with heap := Function.update p.heap p.next fresh, next := p.next + 1 })

/-- An idle instance, else a new one. -/
def take (fresh : S) (p : Pool S) : ℕ × Pool S :=
  match p.idle with
  | i :: idle => (i, { p with idle := idle })
  | [] => p.make fresh

/-- Put an instance back, or drop it. -/
def give (cap : ℕ) (p : Pool S) (i : ℕ) : Pool S :=
  if p.idle.length < cap then { p with idle := i :: p.idle } else p

/-- New contents of an instance. -/
def write (p : Pool S) (i : ℕ) (s : S) : Pool S := { p with heap := Function.update p.heap i s }

@[simp] lemma write_next (p : Pool S) (i : ℕ) (s : S) : (p.write i s).next = p.next := rfl
@[simp] lemma write_idle (p : Pool S) (i : ℕ) (s : S) : (p.write i s).idle = p.idle := rfl

@[simp] lemma write_heap_self (p : Pool S) (i : ℕ) (s : S) : (p.write i s).heap i = s :=
  Function.update_self ..

lemma write_heap_of_ne (p : Pool S) {i j : ℕ} (h : j ≠ i) (s : S) :
    (p.write i s).heap j = p.heap j := Function.update_of_ne h ..

@[simp] lemma give_heap (cap : ℕ) (p : Pool S) (i : ℕ) : (p.give cap i).heap = p.heap := by
  rw [give]
  split <;> rfl

/-- No instance is held twice, or held and idle. -/
structure Sound (p : Pool S) (held : U → List ℕ) : Prop where
  nodup : ∀ u, (held u).Nodup
  apart : ∀ {u u' i}, i ∈ held u → i ∈ held u' → u = u'
  idle_nodup : p.idle.Nodup
  idle_free : ∀ {i}, i ∈ p.idle → ∀ u, i ∉ held u
  idle_lt : ∀ {i}, i ∈ p.idle → i < p.next
  held_lt : ∀ {u i}, i ∈ held u → i < p.next

variable {p : Pool S} {held : U → List ℕ} {fresh s : S} {cap i : ℕ}

/-- What is held does not depend on the contents. -/
lemma Sound.write (h : Sound p held) : Sound (p.write i s) held :=
  ⟨h.nodup, h.apart, h.idle_nodup, h.idle_free, h.idle_lt, h.held_lt⟩

/-- Taking leaves the contents of what is held. -/
lemma Sound.take_heap (h : Sound p held) {u : U} (hi : i ∈ held u) :
    (p.take fresh).2.heap i = p.heap i := by
  rw [Pool.take]
  split
  · rfl
  · exact Function.update_of_ne (h.held_lt hi).ne ..

lemma Sound.perm (h : Sound p held) {held' : U → List ℕ} (hp : ∀ u, (held' u).Perm (held u)) :
    Sound p held' :=
  ⟨fun u => (hp u).nodup_iff.mpr (h.nodup u),
    fun hi hi' => h.apart ((hp _).subset hi) ((hp _).subset hi'), h.idle_nodup,
    fun hi u hu => h.idle_free hi u ((hp u).subset hu), h.idle_lt,
    fun hi => h.held_lt ((hp _).subset hi)⟩

variable [DecidableEq U]

/-- A user may take an instance that is new, or no longer idle. -/
lemma Sound.hand {q : Pool S} (h : Sound p held) (u : U) (hnot : ∀ v, i ∉ held v)
    (hidle : q.idle ⊆ p.idle ∧ q.idle.Nodup ∧ i ∉ q.idle) (hnext : p.next ≤ q.next ∧ i < q.next) :
    Sound q (Function.update held u (i :: held u)) := by
  have hmem : ∀ {v j}, j ∈ Function.update held u (i :: held u) v →
      v = u ∧ j = i ∨ j ∈ held v := by
    intro v j hj
    by_cases hv : v = u
    · subst hv
      rw [Function.update_self] at hj
      exact (List.mem_cons.mp hj).imp_left fun he => ⟨rfl, he⟩
    · rw [Function.update_of_ne hv] at hj
      exact Or.inr hj
  refine ⟨fun v => ?_, fun {v v' i} hi hi' => ?_, hidle.2.1, fun {i} hi v hv => ?_,
    fun hi => (h.idle_lt (hidle.1 hi)).trans_le hnext.1, fun {v i} hi => ?_⟩
  · by_cases hv : v = u
    · subst hv
      rw [Function.update_self]
      exact List.nodup_cons.mpr ⟨hnot v, h.nodup v⟩
    · rw [Function.update_of_ne hv]
      exact h.nodup v
  · rcases hmem hi with ⟨hv, hj⟩ | hi
    · rcases hmem hi' with ⟨hv', -⟩ | hi'
      · rw [hv, hv']
      · exact absurd (hj ▸ hi') (hnot v')
    · rcases hmem hi' with ⟨-, hj⟩ | hi'
      · exact absurd (hj ▸ hi) (hnot v)
      · exact h.apart hi hi'
  · rcases hmem hv with ⟨-, hj⟩ | hv
    · exact hidle.2.2 (hj ▸ hi)
    · exact h.idle_free (hidle.1 hi) v hv
  · rcases hmem hi with ⟨-, hj⟩ | hi
    · exact hj ▸ hnext.2
    · exact (h.held_lt hi).trans_le hnext.1

lemma Sound.make (h : Sound p held) (u : U) :
    Sound (p.make fresh).2 (Function.update held u ((p.make fresh).1 :: held u)) :=
  h.hand u (fun _ hmem => lt_irrefl _ (h.held_lt hmem))
    ⟨fun _ hi => hi, h.idle_nodup, fun hi => lt_irrefl _ (h.idle_lt hi)⟩
    ⟨Nat.le_succ _, Nat.lt_succ_self _⟩

lemma Sound.take (h : Sound p held) (u : U) :
    Sound (p.take fresh).2 (Function.update held u ((p.take fresh).1 :: held u)) := by
  rw [Pool.take]
  split
  · next i idle he =>
      have hn := h.idle_nodup
      have hi : i ∈ p.idle := by rw [he]; exact List.mem_cons_self
      rw [he, List.nodup_cons] at hn
      exact h.hand u (h.idle_free hi) ⟨by rw [he]; exact List.subset_cons_self i idle, hn.2, hn.1⟩
        ⟨le_rfl, h.idle_lt hi⟩
  · exact h.make u

/-- What a user gives back may be kept. -/
lemma Sound.give (h : Sound p held) {u : U} {l : List ℕ} (hu : held u = i :: l) :
    Sound (p.give cap i) (Function.update held u l) := by
  have hmem : ∀ {v j}, j ∈ Function.update held u l v → j ∈ held v ∧ j ≠ i := by
    intro v j hj
    by_cases hv : v = u
    · subst hv
      rw [Function.update_self] at hj
      refine ⟨by rw [hu]; exact List.mem_cons_of_mem _ hj, ?_⟩
      rintro rfl
      have hn := h.nodup v
      rw [hu, List.nodup_cons] at hn
      exact hn.1 hj
    · rw [Function.update_of_ne hv] at hj
      refine ⟨hj, ?_⟩
      rintro rfl
      exact hv (h.apart hj (by rw [hu]; exact List.mem_cons_self))
  have hi : i ∈ held u := by rw [hu]; exact List.mem_cons_self
  have hnodup : ∀ v, (Function.update held u l v).Nodup := by
    intro v
    by_cases hv : v = u
    · subst hv
      have hn := h.nodup v
      rw [hu, List.nodup_cons] at hn
      rw [Function.update_self]
      exact hn.2
    · rw [Function.update_of_ne hv]
      exact h.nodup v
  rw [Pool.give]
  split
  · refine ⟨hnodup, fun hj hj' => h.apart (hmem hj).1 (hmem hj').1, ?_, fun {j} hj v hv => ?_,
      fun {j} hj => ?_, fun hj => h.held_lt (hmem hj).1⟩
    · exact List.nodup_cons.mpr ⟨fun hmem' => h.idle_free hmem' u hi, h.idle_nodup⟩
    · rcases List.mem_cons.mp hj with rfl | hj
      · exact (hmem hv).2 rfl
      · exact h.idle_free hj v (hmem hv).1
    · rcases List.mem_cons.mp hj with rfl | hj
      · exact h.held_lt hi
      · exact h.idle_lt hj
  · exact ⟨hnodup, fun hj hj' => h.apart (hmem hj).1 (hmem hj').1, h.idle_nodup,
      fun hj v hv => h.idle_free hj v (hmem hv).1, h.idle_lt, fun hj => h.held_lt (hmem hj).1⟩

end Pool

end Lib
