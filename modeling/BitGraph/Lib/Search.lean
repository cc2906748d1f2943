import Mathlib.Logic.Relation
import Mathlib.Data.Finset.Card
import Mathlib.Data.List.Nodup
import Mathlib.Data.List.Chain
import Mathlib.Order.Lattice
import Mathlib.Algebra.Group.Action.Defs
import Mathlib.Algebra.BigOperators.Group.Finset.Basic
import Mathlib.Algebra.Order.BigOperators.Group.Finset
import Mathlib.Data.Fintype.Card

/-!
Loops over a graph that may have cycles, with what they decide.

* **Climbing.** Every node has at most one parent. `climb` follows the parents and stops where
  a key comes back; `climb_iff` says that it finds exactly the keys `Above` the start, and
  `climb_isSome` bounds the rounds it takes. Where no node is above itself the parent of a node
  is less high (`height_lt`).
* **Searching.** Every node has a list of successors. `search` starts from nodes that carry a
  strength each, keeps the best strength seen at every node and expands a node again only for
  a better one; `search_spec` says that its answer is the best strength on any route to the
  target, and `search_isSome` bounds the rounds.
* **Closed walks.** `closed_walk`: along a cyclic sequence every element leads to every other.
-/

namespace Search

/-! ### Climbing -/

section Climb

variable {α κ : Type*} [DecidableEq κ] {key : α → κ} {parent : α → Option α} {goal : κ}

/-- The first is reached from the second by one or more parent steps. -/
def Above (parent : α → Option α) : α → α → Prop :=
  Relation.TransGen fun u v => parent v = some u

/-- Follow the parents to a key; `none` means out of fuel. -/
def climb (key : α → κ) (parent : α → Option α) (goal : κ) : ℕ → List κ → α → Option Bool
  | 0, _, _ => none
  | fuel + 1, visited, x =>
    match parent x with
    | none => some false
    | some y =>
      if key y ∈ visited then some false
      else if key y = goal then some true
      else climb key parent goal fuel (key y :: visited) y

lemma Above.trans {x y z : α} (h : Above parent x y) (h' : Above parent y z) : Above parent x z :=
  Relation.TransGen.trans h h'

/-- What is above a node is its parent or above its parent. -/
lemma above_iff {g x : α} :
    Above parent g x ↔ ∃ y, parent x = some y ∧ (g = y ∨ Above parent g y) := by
  constructor
  · intro h
    cases h with
    | single h => exact ⟨g, h, Or.inl rfl⟩
    | tail h hlast => exact ⟨_, hlast, Or.inr h⟩
  · rintro ⟨y, hy, rfl | h⟩
    · exact Relation.TransGen.single hy
    · exact Relation.TransGen.tail h hy

/-- One round of the loop. -/
lemma climb_succ {fuel : ℕ} {visited : List κ} {x y : α} (h : parent x = some y) :
    climb key parent goal (fuel + 1) visited x
      = if key y ∈ visited then some false
        else if key y = goal then some true
        else climb key parent goal fuel (key y :: visited) y := by
  rw [climb, h]

lemma climb_root {fuel : ℕ} {visited : List κ} {x : α} (h : parent x = none) :
    climb key parent goal (fuel + 1) visited x = some false := by
  rw [climb, h]

/-- A key found is above the start. -/
lemma above_of_climb {fuel : ℕ} {visited : List κ} {x : α}
    (h : climb key parent goal fuel visited x = some true) :
    ∃ g, key g = goal ∧ Above parent g x := by
  induction fuel generalizing visited x with
  | zero => cases h
  | succ fuel ih =>
      cases hp : parent x with
      | none =>
          rw [climb_root hp] at h
          cases h
      | some y =>
          rw [climb_succ hp] at h
          split_ifs at h with hseen hgoal
          · cases h
          · exact ⟨y, hgoal, Relation.TransGen.single hp⟩
          · obtain ⟨g, hg, habove⟩ := ih h
            exact ⟨g, hg, Relation.TransGen.tail habove hp⟩

/-- The keys visited so far are closed under parents, except at the node the loop stands on. -/
def Trail (key : α → κ) (parent : α → Option α) (visited : List κ) (x : α) : Prop :=
  ∀ v u, parent u = some v → key v ∈ visited → v = x ∨ ∃ w, parent v = some w ∧ key w ∈ visited

omit [DecidableEq κ] in
/-- When a visited key comes back, everything above has been visited. -/
lemma Trail.closed {visited : List κ} {x y g : α} (h : Trail key parent visited x)
    (hy : parent x = some y) (hseen : key y ∈ visited) (hg : Above parent g x) :
    key g ∈ visited := by
  have hstep : ∀ u, Above parent u x → ∀ v, parent u = some v →
      key u ∈ visited → key v ∈ visited := by
    intro u hu v hv hmem
    obtain ⟨w, hw⟩ : ∃ w, parent w = some u := by
      obtain ⟨w, hw, -⟩ := Relation.TransGen.head'_iff.mp hu
      exact ⟨w, hw⟩
    rcases h u w hw hmem with rfl | ⟨w', hw', hmem'⟩
    · rw [hy] at hv
      cases hv
      exact hseen
    · rw [hw'] at hv
      cases hv
      exact hmem'
  have hall : ∀ g, Above parent g x → key g ∈ visited := by
    intro g hg
    induction hg using Relation.TransGen.head_induction_on with
    | single h1 =>
        rw [hy] at h1
        cases h1
        exact hseen
    | head h1 h2 ih => exact hstep _ h2 _ h1 ih
  exact hall g hg

/-- A climb that finds nothing has missed nothing. -/
lemma not_above_of_climb (hkey : ∀ u v u' v', parent u = some v → parent u' = some v' →
    key v = key v' → v = v') {fuel : ℕ} {visited : List κ} {x : α}
    (htrail : Trail key parent visited x) (hgoal : goal ∉ visited)
    (h : climb key parent goal fuel visited x = some false) {g : α} (hg : Above parent g x) :
    key g ≠ goal := by
  induction fuel generalizing visited x with
  | zero => cases h
  | succ fuel ih =>
      obtain ⟨y, hp, hgy⟩ := above_iff.mp hg
      rw [climb_succ hp] at h
      split_ifs at h with hseen hfound
      · intro heq
        exact hgoal (heq ▸ htrail.closed hp hseen hg)
      · cases h
      · rcases hgy with rfl | habove
        · exact hfound
        · refine ih (fun v u hu hmem => ?_) ?_ h habove
          · rcases List.mem_cons.mp hmem with heq | hmem
            · exact Or.inl (hkey _ _ _ _ hu hp heq)
            · rcases htrail v u hu hmem with rfl | ⟨w, hw, hmem'⟩
              · exact Or.inr ⟨y, hp, List.mem_cons_self⟩
              · exact Or.inr ⟨w, hw, List.mem_cons_of_mem _ hmem'⟩
          · rw [List.mem_cons, not_or]
            exact ⟨fun heq => hfound heq.symm, hgoal⟩

/-- **What a climb finds.** -/
theorem climb_iff (hkey : ∀ u v u' v', parent u = some v → parent u' = some v' →
    key v = key v' → v = v') {fuel : ℕ} {x : α} {b : Bool}
    (h : climb key parent goal fuel [] x = some b) :
    b = true ↔ ∃ g, key g = goal ∧ Above parent g x := by
  cases b with
  | true => simpa using above_of_climb h
  | false =>
      have hnone : ∀ g, Above parent g x → key g ≠ goal := fun g hg =>
        not_above_of_climb hkey (fun _ _ _ hmem => absurd hmem List.not_mem_nil)
          List.not_mem_nil h hg
      constructor
      · intro hb
        cases hb
      · rintro ⟨g, hgoal, hg⟩
        exact absurd hgoal (hnone g hg)

/-- Every round visits a key of a finite set for the first time. -/
lemma climb_isSome_of {U : Finset κ} (hU : ∀ u v, parent u = some v → key v ∈ U) {fuel : ℕ}
    {visited : List κ} {x : α} (hnd : visited.Nodup) (hvis : ∀ k ∈ visited, k ∈ U)
    (hfuel : U.card < fuel + visited.length) :
    (climb key parent goal fuel visited x).isSome = true := by
  induction fuel generalizing visited x with
  | zero =>
      have hle : visited.length ≤ U.card := by
        rw [← List.toFinset_card_of_nodup hnd]
        exact Finset.card_le_card fun k hk => hvis k (List.mem_toFinset.mp hk)
      omega
  | succ fuel ih =>
      cases hp : parent x with
      | none =>
          rw [climb_root hp]
          rfl
      | some y =>
          rw [climb_succ hp]
          split_ifs with hseen hfound
          · rfl
          · rfl
          · refine ih (List.nodup_cons.mpr ⟨hseen, hnd⟩) ?_ (by rw [List.length_cons]; omega)
            intro k hk
            rcases List.mem_cons.mp hk with rfl | hk
            · exact hU x y hp
            · exact hvis k hk

/-- **A climb ends**, on every graph, within one round more than there are keys. -/
theorem climb_isSome {U : Finset κ} (hU : ∀ u v, parent u = some v → key v ∈ U) {fuel : ℕ}
    (hfuel : U.card < fuel) (x : α) : (climb key parent goal fuel [] x).isSome = true :=
  climb_isSome_of hU List.nodup_nil (fun _ h => absurd h List.not_mem_nil) hfuel

/-! ### Parents without cycles -/

end Climb

/-! ### Searching -/

section Search

variable {ν σ : Type*} [DecidableEq ν] [LinearOrder σ] {next : ν → List ν} {target : ν}

/-- The better of a strength and the best so far. -/
def better (best : Option σ) (s : σ) : σ :=
  match best with
  | none => s
  | some t => max t s

/-- The search loop: the queue, the best strength seen at each node, and the best strength with
which the target was reached. It ends early once nothing better can come; `none` means out of
fuel. -/
def search [OrderTop σ] (next : ν → List ν) (target : ν) :
    ℕ → List (ν × σ) → (ν → Option σ) → Option σ → Option (Option σ)
  | 0, _, _, _ => none
  | _ + 1, [], _, best => some best
  | fuel + 1, (n, s) :: queue, seen, best =>
    if ∃ t ∈ seen n, s ≤ t then search next target fuel queue seen best
    else if n = target then
      if better best s = ⊤ then some (some (better best s))
      else search next target fuel queue (Function.update seen n (some s)) (some (better best s))
    else search next target fuel (queue ++ (next n).map fun m => (m, s))
      (Function.update seen n (some s)) best

/-- A node is reached from a start that carries strength `s`. -/
def Reaches (next : ν → List ν) (init : List (ν × σ)) (n : ν) (s : σ) : Prop :=
  ∃ n₀, (n₀, s) ∈ init ∧ Relation.ReflTransGen (fun u v => v ∈ next u) n₀ n

/-- What has been noted at a node, or waits in the queue, is at least `s`. -/
def Covered (queue : List (ν × σ)) (seen : ν → Option σ) (n : ν) (s : σ) : Prop :=
  (∃ t ∈ seen n, s ≤ t) ∨ ∃ t, (n, t) ∈ queue ∧ s ≤ t

/-- The loop invariant: only what is reached is queued or answered, every start is covered, and
so is every successor of a node that has been expanded; the target counts for the answer. -/
structure Searched (next : ν → List ν) (target : ν) (init queue : List (ν × σ))
    (seen : ν → Option σ) (best : Option σ) : Prop where
  reached : ∀ n s, (n, s) ∈ queue → Reaches next init n s
  answered : ∀ s ∈ best, Reaches next init target s
  start : ∀ n s, (n, s) ∈ init → Covered queue seen n s
  expanded : ∀ n, n ≠ target → ∀ s ∈ seen n, ∀ m ∈ next n, Covered queue seen m s
  arrived : ∀ s ∈ seen target, ∃ t ∈ best, s ≤ t

omit [DecidableEq ν] [LinearOrder σ] in
lemma Reaches.step {init : List (ν × σ)} {n m : ν} {s : σ} (h : Reaches next init n s)
    (hm : m ∈ next n) : Reaches next init m s := by
  obtain ⟨n₀, hn₀, hpath⟩ := h
  exact ⟨n₀, hn₀, hpath.tail hm⟩

lemma le_better (best : Option σ) (s : σ) : s ≤ better best s := by
  cases best with
  | none => exact le_rfl
  | some t => exact le_max_right t s

lemma better_cases (best : Option σ) (s : σ) : better best s = s ∨ better best s ∈ best := by
  cases best with
  | none => exact Or.inl rfl
  | some t =>
      rcases max_choice t s with h | h
      · exact Or.inr (congrArg some h.symm)
      · exact Or.inl h

omit [DecidableEq ν] in
/-- Taking the head of the queue for what was seen already. -/
lemma Covered.skip {queue : List (ν × σ)} {seen : ν → Option σ} {n m : ν} {s u : σ}
    (hseen : ∃ t ∈ seen n, s ≤ t) (h : Covered ((n, s) :: queue) seen m u) :
    Covered queue seen m u := by
  rcases h with h | ⟨t, ht, hle⟩
  · exact Or.inl h
  · rcases List.mem_cons.mp ht with heq | ht
    · cases heq
      obtain ⟨w, hw, hsw⟩ := hseen
      exact Or.inl ⟨w, hw, hle.trans hsw⟩
    · exact Or.inr ⟨t, ht, hle⟩

omit [DecidableEq ν] in
lemma Covered.more {queue : List (ν × σ)} {seen : ν → Option σ} {n : ν} {s : σ}
    (h : Covered queue seen n s) (new : List (ν × σ)) : Covered (queue ++ new) seen n s := by
  rcases h with h | ⟨t, ht, hle⟩
  · exact Or.inl h
  · exact Or.inr ⟨t, List.mem_append_left _ ht, hle⟩

/-- Noting the head of the queue, which is better than what was seen. -/
lemma Covered.note {queue : List (ν × σ)} {seen : ν → Option σ} {n m : ν} {s u : σ}
    (hseen : ¬ ∃ t ∈ seen n, s ≤ t) (h : Covered ((n, s) :: queue) seen m u) :
    Covered queue (Function.update seen n (some s)) m u := by
  rcases h with ⟨t, ht, hle⟩ | ⟨t, ht, hle⟩
  · by_cases hmn : m = n
    · subst hmn
      refine Or.inl ⟨s, by rw [Function.update_self]; rfl, hle.trans (le_of_lt ?_)⟩
      exact lt_of_not_ge fun hst => hseen ⟨t, ht, hst⟩
    · exact Or.inl ⟨t, by rwa [Function.update_of_ne hmn], hle⟩
  · rcases List.mem_cons.mp ht with heq | ht
    · cases heq
      exact Or.inl ⟨s, by rw [Function.update_self]; rfl, hle⟩
    · exact Or.inr ⟨t, ht, hle⟩

variable {init queue : List (ν × σ)} {seen : ν → Option σ} {best : Option σ} {n : ν} {s : σ}

omit [DecidableEq ν] in
lemma Searched.skip (h : Searched next target init ((n, s) :: queue) seen best)
    (hseen : ∃ t ∈ seen n, s ≤ t) : Searched next target init queue seen best where
  reached m u hm := h.reached m u (List.mem_cons_of_mem _ hm)
  answered := h.answered
  start m u hm := (h.start m u hm).skip hseen
  expanded m hm u hu k hk := (h.expanded m hm u hu k hk).skip hseen
  arrived := h.arrived

/-- Arriving at the target. -/
lemma Searched.arrive (h : Searched next target init ((target, s) :: queue) seen best)
    (hseen : ¬ ∃ t ∈ seen target, s ≤ t) :
    Searched next target init queue (Function.update seen target (some s))
      (some (better best s)) where
  reached m u hm := h.reached m u (List.mem_cons_of_mem _ hm)
  answered u hu := by
    cases hu
    rcases better_cases best s with heq | hmem
    · rw [heq]
      exact h.reached target s List.mem_cons_self
    · exact h.answered _ hmem
  start m u hm := (h.start m u hm).note hseen
  expanded m hm u hu k hk := by
    rw [Function.update_of_ne hm] at hu
    exact (h.expanded m hm u hu k hk).note hseen
  arrived u hu := by
    rw [Function.update_self] at hu
    cases hu
    exact ⟨_, rfl, le_better best s⟩

/-- Expanding a node. -/
lemma Searched.expand (h : Searched next target init ((n, s) :: queue) seen best)
    (hseen : ¬ ∃ t ∈ seen n, s ≤ t) (hn : n ≠ target) :
    Searched next target init (queue ++ (next n).map fun m => (m, s))
      (Function.update seen n (some s)) best where
  reached m u hm := by
    rcases List.mem_append.mp hm with hm | hm
    · exact h.reached m u (List.mem_cons_of_mem _ hm)
    · obtain ⟨k, hk, heq⟩ := List.mem_map.mp hm
      cases heq
      exact (h.reached n s List.mem_cons_self).step hk
  answered := h.answered
  start m u hm := ((h.start m u hm).note hseen).more _
  expanded m hm u hu k hk := by
    by_cases hmn : m = n
    · subst hmn
      rw [Function.update_self] at hu
      cases hu
      exact Or.inr ⟨s, List.mem_append_right _ (List.mem_map.mpr ⟨k, hk, rfl⟩), le_rfl⟩
    · rw [Function.update_of_ne hmn] at hu
      exact ((h.expanded m hm u hu k hk).note hseen).more _
  arrived u hu := by
    rw [Function.update_of_ne (Ne.symm hn)] at hu
    exact h.arrived u hu

/-- With the queue empty the answer covers every route to the target. -/
lemma Searched.complete (h : Searched next target init [] seen best)
    (hr : Reaches next init target s) : ∃ t ∈ best, s ≤ t := by
  obtain ⟨n₀, hn₀, hpath⟩ := hr
  have hcov : Covered [] seen n₀ s := h.start n₀ s hn₀
  clear hn₀
  -- along the route every node has been noted with `s` or better, up to the first target
  induction hpath using Relation.ReflTransGen.head_induction_on with
  | refl =>
      rcases hcov with ⟨t, ht, hle⟩ | ⟨t, ht, -⟩
      · obtain ⟨u, hu, htu⟩ := h.arrived t ht
        exact ⟨u, hu, hle.trans htu⟩
      · cases ht
  | @head n m hstep _ ih =>
      rcases hcov with ⟨t, ht, hle⟩ | ⟨t, ht, -⟩
      · by_cases hn : n = target
        · subst hn
          obtain ⟨u, hu, htu⟩ := h.arrived t ht
          exact ⟨u, hu, hle.trans htu⟩
        · refine ih ?_
          rcases h.expanded n hn t ht m hstep with ⟨u, hu, htu⟩ | ⟨u, hu, -⟩
          · exact Or.inl ⟨u, hu, hle.trans htu⟩
          · cases hu
      · cases ht

lemma search_invariant [OrderTop σ] {fuel : ℕ} {r : Option σ}
    (h : Searched next target init queue seen best)
    (hrun : search next target fuel queue seen best = some r) :
    (∀ t ∈ r, Reaches next init target t)
      ∧ ∀ u, Reaches next init target u → ∃ t ∈ r, u ≤ t := by
  induction fuel generalizing queue seen best with
  | zero => cases hrun
  | succ fuel ih =>
      cases queue with
      | nil =>
          rw [search] at hrun
          cases hrun
          exact ⟨h.answered, fun u hu => h.complete hu⟩
      | cons e queue =>
          obtain ⟨n, s⟩ := e
          rw [search] at hrun
          split_ifs at hrun with hseen hn htop
          · exact ih (h.skip hseen) hrun
          · subst hn
            cases hrun
            refine ⟨(h.arrive hseen).answered, fun u _ => ⟨_, rfl, ?_⟩⟩
            rw [htop]
            exact le_top
          · subst hn
            exact ih (h.arrive hseen) hrun
          · exact ih (h.expand hseen hn) hrun

/-- **What a search answers:** the best strength on any route to the target. -/
theorem search_spec [OrderTop σ] {fuel : ℕ} {r : Option σ}
    (hrun : search next target fuel init (fun _ => none) none = some r) :
    (∀ t ∈ r, Reaches next init target t)
      ∧ ∀ u, Reaches next init target u → ∃ t ∈ r, u ≤ t := by
  refine search_invariant ⟨fun n s hs => ⟨n, hs, .refl⟩, ?_, fun n s hs => ?_, ?_, ?_⟩ hrun
  · intro s hs
    cases hs
  · exact Or.inr ⟨s, hs, le_rfl⟩
  · intro n _ s hs
    cases hs
  · intro s hs
    cases hs

/-- More fuel does not change an answer. -/
lemma search_mono [OrderTop σ] {fuel : ℕ} {r : Option σ} (more : ℕ)
    (h : search next target fuel queue seen best = some r) :
    search next target (fuel + more) queue seen best = some r := by
  induction fuel generalizing queue seen best with
  | zero => cases h
  | succ fuel ih =>
      rw [Nat.succ_add]
      cases queue with
      | nil => exact h
      | cons e queue =>
          obtain ⟨n, s⟩ := e
          rw [search] at h ⊢
          split_ifs at h ⊢
          · exact ih h
          · exact h
          · exact ih h
          · exact ih h

/-! ### The rounds of a search -/

section Rounds

variable [Fintype σ]

/-- The strengths that would still be noted at a node. -/
def room (seen : ν → Option σ) (n : ν) : ℕ :=
  (Finset.univ.filter fun s : σ => ¬ ∃ t ∈ seen n, s ≤ t).card

/-- Noting a better strength leaves less room. -/
lemma room_update_lt (hseen : ¬ ∃ t ∈ seen n, s ≤ t) :
    room (Function.update seen n (some s)) n < room seen n := by
  refine Finset.card_lt_card ⟨fun u hu => ?_, fun hsub => ?_⟩
  · rw [Finset.mem_filter] at hu ⊢
    refine ⟨hu.1, fun ⟨t, ht, hut⟩ => hu.2 ⟨s, by rw [Function.update_self]; rfl, ?_⟩⟩
    exact hut.trans (le_of_lt (lt_of_not_ge fun hst => hseen ⟨t, ht, hst⟩))
  · have hs := hsub (Finset.mem_filter.mpr ⟨Finset.mem_univ s, hseen⟩)
    exact (Finset.mem_filter.mp hs).2 ⟨s, by rw [Function.update_self]; rfl, le_rfl⟩

lemma sum_room_update_lt {U : Finset ν} (hn : n ∈ U) (hseen : ¬ ∃ t ∈ seen n, s ≤ t) :
    ∑ m ∈ U, room (Function.update seen n (some s)) m < ∑ m ∈ U, room seen m := by
  refine Finset.sum_lt_sum (fun m _ => ?_) ⟨n, hn, room_update_lt hseen⟩
  by_cases hm : m = n
  · subst hm
    exact (room_update_lt hseen).le
  · rw [room, room, Function.update_of_ne hm]

/-- Every round shortens the queue, or notes a better strength at a node of a finite set. -/
lemma search_isSome_of [OrderTop σ] {U : Finset ν} {d fuel : ℕ}
    (hU : ∀ n, ∀ m ∈ next n, m ∈ U) (hd : ∀ n, (next n).length ≤ d)
    (hqueue : ∀ n s, (n, s) ∈ queue → n ∈ U)
    (hfuel : (∑ m ∈ U, room seen m) * (d + 1) + queue.length < fuel) :
    (search next target fuel queue seen best).isSome = true := by
  induction fuel generalizing queue seen best with
  | zero => cases hfuel
  | succ fuel ih =>
      cases queue with
      | nil => rfl
      | cons e queue =>
          obtain ⟨n, s⟩ := e
          have hrest : ∀ m u, (m, u) ∈ queue → m ∈ U := fun m u hm =>
            hqueue m u (List.mem_cons_of_mem _ hm)
          rw [List.length_cons] at hfuel
          rw [search]
          by_cases hseen : ∃ t ∈ seen n, s ≤ t
          · rw [if_pos hseen]
            exact ih hrest (by omega)
          · rw [if_neg hseen]
            have hless := sum_room_update_lt (hqueue n s List.mem_cons_self) hseen
            have hmul : (∑ m ∈ U, room (Function.update seen n (some s)) m) * (d + 1) + (d + 1)
                ≤ (∑ m ∈ U, room seen m) * (d + 1) := by
              rw [← Nat.succ_mul]
              exact Nat.mul_le_mul_right _ hless
            split_ifs with hn htop
            · rfl
            · exact ih hrest (by omega)
            · refine ih (fun m u hm => ?_) ?_
              · rcases List.mem_append.mp hm with hm | hm
                · exact hrest m u hm
                · obtain ⟨k, hk, heq⟩ := List.mem_map.mp hm
                  cases heq
                  exact hU n m hk
              · rw [List.length_append, List.length_map]
                have := hd n
                omega

/-- **A search ends**, on every graph, within a bound from the numbers of nodes, strengths and
successors. -/
theorem search_isSome [OrderTop σ] {U : Finset ν} {d fuel : ℕ}
    (hU : ∀ n, ∀ m ∈ next n, m ∈ U) (hd : ∀ n, (next n).length ≤ d)
    (hinit : ∀ n s, (n, s) ∈ init → n ∈ U)
    (hfuel : U.card * Fintype.card σ * (d + 1) + init.length < fuel) :
    (search next target fuel init (fun _ => none) none).isSome = true := by
  refine search_isSome_of hU hd hinit (lt_of_le_of_lt ?_ hfuel)
  have hroom : ∑ m ∈ U, room (fun _ => (none : Option σ)) m ≤ U.card * Fintype.card σ := by
    rw [← smul_eq_mul]
    exact Finset.sum_le_card_nsmul _ _ _ fun m _ => Finset.card_le_univ _
  exact Nat.add_le_add_right (Nat.mul_le_mul_right _ hroom) _

end Rounds

end Search

/-! ### Closed walks -/

/-- A step between two elements of a sequence. -/
def Within {α : Type*} (R : α → α → Prop) (l : List α) (a b : α) : Prop :=
  R a b ∧ a ∈ l ∧ b ∈ l

/-- Every element of a cyclic sequence leads to every other, and to itself, inside it. -/
lemma closed_walk {α : Type*} {R : α → α → Prop} {r : α} {rs : List α}
    (h : (r :: (rs ++ [r])).IsChain R) {x y : α} (hx : x ∈ r :: rs) (hy : y ∈ r :: rs) :
    Relation.TransGen (Within R (r :: rs)) x y := by
  have hmem : ∀ a, a ∈ r :: (rs ++ [r]) → a ∈ r :: rs := by
    intro a ha
    simpa [or_comm, or_left_comm] using ha
  have hchain := (h.imp_of_mem_imp (S := Within R (r :: rs))
    fun a b ha hb hab => ⟨hab, hmem a ha, hmem b hb⟩)
  have hpair := List.isChain_iff_pairwise.mp (hchain.imp fun a b hab => Relation.TransGen.single hab)
  obtain ⟨hfirst, hrest⟩ := List.pairwise_cons.mp hpair
  have hlast : ∀ a ∈ r :: rs, Relation.TransGen (Within R (r :: rs)) a r := by
    intro a ha
    rcases List.mem_cons.mp ha with rfl | ha
    · exact hfirst _ (List.mem_append_right _ (List.mem_singleton_self _))
    · exact (List.pairwise_append.mp hrest).2.2 a ha r (List.mem_singleton_self _)
  rcases List.mem_cons.mp hy with rfl | hy
  · exact hlast x hx
  · exact (hlast x hx).trans (hfirst y (List.mem_append_left _ hy))

end Search
