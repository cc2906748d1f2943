import Mathlib.Data.List.Nodup
import Mathlib.Logic.Basic

/-!
Maps that remember the order in which their keys came.

* `get`, `has`, `set` and `erase` on a list of entries; `set` writes a known key in its place and a new
  key at the end.
* `get_set` and `get_erase` say what a map holds after a write or without a key, `Keyed` that no key is there twice
  (`Keyed.set`), and `mem_iff_get` that its entries are what it holds.
* Loops: `get_foldl_fresh` for one that writes every key at most once, `get_foldl_push` for one
  that collects values in lists.
-/

/-- Entries in the order of their keys' first writes. -/
abbrev OrderedMap (κ α : Type*) := List (κ × α)

namespace OrderedMap

variable {κ α : Type*} [DecidableEq κ]

def get (m : OrderedMap κ α) (k : κ) : Option α := m.lookup k

def has (m : OrderedMap κ α) (k : κ) : Bool := (m.get k).isSome

def set : OrderedMap κ α → κ → α → OrderedMap κ α
  | [], k, v => [(k, v)]
  | e :: m, k, v => if e.1 = k then (k, v) :: m else e :: set m k v

/-- Take a key away. -/
def erase (m : OrderedMap κ α) (k : κ) : OrderedMap κ α := m.filter fun e => e.1 ≠ k

/-- A map from a list of entries, a later one over an earlier one. -/
def ofList (l : List (κ × α)) : OrderedMap κ α := l.foldl (fun m e => set m e.1 e.2) []

/-- Append to the list under a key. -/
def push (m : OrderedMap κ (List α)) (k : κ) (v : α) : OrderedMap κ (List α) :=
  set m k ((m.get k).getD [] ++ [v])

variable {m : OrderedMap κ α} {k j : κ} {v w : α}

@[simp] lemma get_nil : get ([] : OrderedMap κ α) k = none := rfl

lemma get_cons (e : κ × α) (m : OrderedMap κ α) (k : κ) :
    get (e :: m) k = if e.1 = k then some e.2 else get m k := by
  obtain ⟨j, v⟩ := e
  by_cases h : j = k
  · subst h
    simp [get]
  · have hne : (k == j) = false := by simpa using Ne.symm h
    simp [get, List.lookup_cons, hne, h]

/-- What a map holds after a write. -/
lemma get_set (m : OrderedMap κ α) (k j : κ) (v : α) :
    (m.set k v).get j = if k = j then some v else m.get j := by
  induction m with
  | nil => rw [set, get_cons]
  | cons e m ih =>
      rw [set]
      by_cases h : e.1 = k
      · rw [if_pos h, get_cons, get_cons, h]
        split <;> rfl
      · rw [if_neg h, get_cons, get_cons, ih]
        by_cases hj : e.1 = j
        · rw [if_pos hj, if_neg (fun hk => h (hj.trans hk.symm)), if_pos hj]
        · rw [if_neg hj, if_neg hj]

lemma get_erase (m : OrderedMap κ α) (k j : κ) :
    (m.erase k).get j = if k = j then none else m.get j := by
  induction m with
  | nil => rw [erase, List.filter_nil, get_nil, ite_self]
  | cons e m ih =>
      rw [erase] at ih
      rw [erase, get_cons]
      by_cases h : e.1 = k
      · rw [List.filter_cons_of_neg (by simp [h]), ih, h]
        split <;> rfl
      · rw [List.filter_cons_of_pos (by simp [h]), get_cons, ih]
        by_cases hj : e.1 = j
        · rw [if_pos hj, if_pos hj, if_neg fun hk => h (hj.trans hk.symm)]
        · rw [if_neg hj, if_neg hj]

@[simp] lemma get_set_self (m : OrderedMap κ α) (k : κ) (v : α) : (m.set k v).get k = some v := by
  rw [get_set, if_pos rfl]

lemma has_iff : m.has k = true ↔ ∃ v, m.get k = some v := Option.isSome_iff_exists

lemma has_set : (m.set k v).has j = true ↔ k = j ∨ m.has j = true := by
  rw [has, get_set]
  split
  · next h => simp [h]
  · next h => simp [h, has]

/-- No key twice. -/
def Keyed (m : OrderedMap κ α) : Prop := (m.map Prod.fst).Nodup

omit [DecidableEq κ] in
lemma keyed_nil : Keyed ([] : OrderedMap κ α) := List.nodup_nil

lemma mem_fst_iff : k ∈ m.map Prod.fst ↔ ∃ v, m.get k = some v := by
  induction m with
  | nil => simp
  | cons e m ih =>
      rw [get_cons, List.map_cons, List.mem_cons, ih]
      by_cases h : e.1 = k
      · simp [h]
      · simp [h, Ne.symm h]

lemma fst_set (m : OrderedMap κ α) (k : κ) (v : α) :
    (m.set k v).map Prod.fst
      = if k ∈ m.map Prod.fst then m.map Prod.fst else m.map Prod.fst ++ [k] := by
  induction m with
  | nil => rfl
  | cons e m ih =>
      rw [set]
      by_cases h : e.1 = k
      · rw [if_pos h, List.map_cons, List.map_cons, h, if_pos List.mem_cons_self]
      · rw [if_neg h, List.map_cons, ih, List.map_cons]
        by_cases hk : k ∈ m.map Prod.fst
        · rw [if_pos hk, if_pos (List.mem_cons_of_mem _ hk)]
        · have hcons : k ∉ e.1 :: m.map Prod.fst := by
            rw [List.mem_cons]
            exact not_or.mpr ⟨Ne.symm h, hk⟩
          rw [if_neg hk, if_neg hcons, List.cons_append]

lemma Keyed.set (h : Keyed m) (k : κ) (v : α) : Keyed (m.set k v) := by
  rw [Keyed, fst_set]
  split
  · exact h
  · next hk =>
      rw [← List.concat_eq_append]
      exact h.concat hk

/-- The entries are what the map holds. -/
lemma mem_iff_get (h : Keyed m) : (k, v) ∈ m ↔ m.get k = some v := by
  induction m with
  | nil => simp
  | cons e m ih =>
      rw [Keyed, List.map_cons, List.nodup_cons] at h
      rw [List.mem_cons, get_cons, ih h.2]
      by_cases hk : e.1 = k
      · have hnone : get m k = none := by
          by_contra hne
          obtain ⟨w, hw⟩ := Option.ne_none_iff_exists'.mp hne
          exact h.1 (hk ▸ mem_fst_iff.mpr ⟨w, hw⟩)
        rw [if_pos hk, hnone]
        constructor
        · rintro (rfl | hm)
          · rfl
          · cases hm
        · intro hv
          refine Or.inl (Prod.ext hk.symm ?_)
          exact (Option.some.inj hv).symm
      · rw [if_neg hk]
        constructor
        · rintro (rfl | hm)
          · exact absurd rfl hk
          · exact hm
        · exact Or.inr

/-! ### Loops -/

section Loops

variable {β : Type*} {f : OrderedMap κ α → β → OrderedMap κ α} {key : β → κ} {val : β → Option α}

/-- A loop that writes every key at most once holds what it wrote. -/
lemma get_foldl_fresh
    (hf : ∀ m b, get m (key b) = none → f m b = (val b).elim m fun v => set m (key b) v)
    {l : List β} (hl : (l.map key).Nodup) {m : OrderedMap κ α}
    (hm : ∀ b ∈ l, get m (key b) = none) {k : κ} {v : α} :
    get (l.foldl f m) k = some v
      ↔ get m k = some v ∨ ∃ b ∈ l, key b = k ∧ val b = some v := by
  induction l generalizing m with
  | nil => simp
  | cons b l ih =>
      rw [List.map_cons, List.nodup_cons] at hl
      have hb := hm b List.mem_cons_self
      have hrest : ∀ c ∈ l, get m (key c) = none := fun c hc => hm c (List.mem_cons_of_mem _ hc)
      rw [List.foldl_cons, hf m b hb]
      cases hv : val b with
      | none =>
          rw [Option.elim_none, ih hl.2 hrest]
          simp [hv]
      | some w =>
          have hne : ∀ c ∈ l, key b ≠ key c := fun c hc heq => hl.1 (heq ▸ List.mem_map_of_mem hc)
          rw [Option.elim_some, ih hl.2, get_set]
          · by_cases hk : key b = k
            · subst hk
              have hno : ¬ ∃ c ∈ l, key c = key b ∧ val c = some v := by
                rintro ⟨c, hc, heq, -⟩
                exact hne c hc heq.symm
              simp [hb, hv, hno]
            · simp [hk]
          · intro c hc
            rw [get_set, if_neg (hne c hc)]
            exact hrest c hc

/-- A map from entries with distinct keys holds the entries. -/
lemma get_ofList {l : List (κ × α)} (hl : Keyed l) {k : κ} {v : α} :
    get (ofList l) k = some v ↔ (k, v) ∈ l := by
  have hfresh : ∀ (m : OrderedMap κ α) (e : κ × α), get m e.1 = none →
      set m e.1 e.2 = (some e.2).elim m fun v => set m e.1 v := fun _ _ _ => rfl
  rw [ofList, get_foldl_fresh hfresh hl fun e _ => get_nil, get_nil]
  constructor
  · rintro (h | ⟨⟨j, w⟩, he, rfl, hv⟩)
    · cases h
    · rwa [← Option.some.inj hv]
  · exact fun h => Or.inr ⟨(k, v), h, rfl, rfl⟩

/-- A loop whose rounds keep the keys distinct does so. -/
lemma keyed_foldl (hf : ∀ m b, Keyed m → Keyed (f m b)) (l : List β) {m : OrderedMap κ α}
    (hm : Keyed m) : Keyed (l.foldl f m) := by
  induction l generalizing m with
  | nil => exact hm
  | cons b l ih => exact ih (hf m b hm)

/-- What was collected under a key, in the order of the list. -/
lemma get_foldl_push (key : β → κ) (l : List β) (m : OrderedMap κ (List β)) (k : κ) :
    get (l.foldl (fun m b => push m (key b) b) m) k
      = if (l.filter fun b => key b = k) = [] then get m k
        else some ((get m k).getD [] ++ l.filter fun b => key b = k) := by
  induction l generalizing m with
  | nil => simp
  | cons b l ih =>
      rw [List.foldl_cons, ih, push, get_set, List.filter_cons]
      by_cases hb : key b = k
      · subst hb
        by_cases hl : (l.filter fun c => key c = key b) = []
        · simp [hl]
        · simp [hl]
      · simp [hb]

end Loops

end OrderedMap
