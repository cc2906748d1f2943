import BitGraph.Audit.Gaps
import BitGraph.Lib.Explore
import BitGraph.Lib.OrderedMap
import BitGraph.Lib.Since
import Mathlib.Algebra.BigOperators.Group.Finset.Basic
import Mathlib.Data.List.GetD

/-!
Cycles among the epoch links of a record.

* **Links.** `adjacencyOf` keeps the links that matched; `Linked` is the graph they make.
* **Search.** `findCycles` is the depth-first search with an explicit stack: one `step` is one pass
  of its loops, and reports as an `Event` what it did with the link it looked at.
* **Run.** `Exploring` ties the state to `Explored`: what is stored are the cycles closed, each
  rotated to its smallest epoch (`canonicalizeCycle_eq`).
* `cycles_found`: the search ends; what it reports are cycles, none twice. Every epoch on a cycle
  is reported exactly if it lies on a cycle of links that were not passed by. `missing_epoch`: a
  link to a finished epoch is passed by, and an epoch on a cycle is not reported.
-/

namespace BitGraph

open Js Explore

namespace Audit

/-! ### Links -/

/-- How an epoch link was resolved against the bundle. -/
inductive LinkResolution where
  | matched
  | terminalMissing
  | dangling
  deriving DecidableEq

/-- An epoch link as an edge from the predecessor epoch to the successor epoch. -/
structure EpochEdge where
  fromEpochId : Str
  toEpochId : Str
  resolution : LinkResolution
  deriving DecidableEq

abbrev Adjacency := OrderedMap Str (List Str)

/-- `adjacency.get(node) ?? []`. -/
def successors (adjacency : Adjacency) (node : Str) : List Str := (adjacency.get node).getD []

/-- A link that matched leads from `x` to `y`. -/
def Linked (edges : List EpochEdge) (x y : Str) : Prop :=
  ∃ e ∈ edges, e.resolution = .matched ∧ e.fromEpochId = x ∧ e.toEpochId = y

/-! ### The search -/

/-- `cycle.join("|")`. -/
def joinBar (cycle : List Str) : Str := [124].intercalate cycle

/-- The place of the smallest epoch, the first of them. -/
def minIndex (cycle : List Str) : ℕ :=
  (List.range' 1 (cycle.length - 1)).foldl
    (fun min i => if cycle.getD i [] < cycle.getD min [] then i else min) 0

/-- The cycle from its smallest epoch on. -/
def canonicalizeCycle (cycle : List Str) : List Str :=
  cycle.drop (minIndex cycle) ++ cycle.take (minIndex cycle)

/-- The variables of the search; `nodes` are the starts still to come. -/
structure CycleSearch where
  nodes : List Str
  stack : List Str
  path : List Str
  onPath : List Str
  iterators : OrderedMap Str (List Str)
  visited : List Str
  cycles : OrderedMap Str (List Str)

/-- What one pass of the loops did. -/
inductive Event where
  | start
  | follow (node next : Str)
  | close (node next : Str) (cycle : List Str)
  /-- The link leads to an epoch already finished. -/
  | pass (node next : Str)
  | finish (node : Str)
  deriving DecidableEq

def CycleSearch.init (adjacency : Adjacency) : CycleSearch where
  nodes := (adjacency.map Prod.fst).insertionSort (· ≤ ·)
  stack := []
  path := []
  onPath := []
  iterators := []
  visited := []
  cycles := []

/-- The top of the stack joins the path, once. -/
def CycleSearch.enter (adjacency : Adjacency) (s : CycleSearch) (node : Str) : CycleSearch :=
  if node ∈ s.onPath then s
  else
    { s with
      onPath := setAdd s.onPath node
      path := s.path ++ [node]
      iterators := s.iterators.set node ((successors adjacency node).insertionSort (· ≤ ·)) }

/-- The next link of the epoch on top, or the end of its links. -/
def CycleSearch.look (s : CycleSearch) (node : Str) : Event × CycleSearch :=
  match (s.iterators.get node).getD [] with
  | [] =>
    (.finish node,
      { s with
        stack := s.stack.dropLast
        onPath := s.onPath.erase node
        path := s.path.dropLast
        visited := setAdd s.visited node })
  | next :: pending =>
    let s := { s with iterators := s.iterators.set node pending }
    if next ∈ s.onPath then
      let cycle := s.path.drop (s.path.idxOf next)
      let canonical := canonicalizeCycle cycle
      (.close node next cycle, { s with cycles := s.cycles.set (joinBar canonical) canonical })
    else if next ∈ s.visited then (.pass node next, s)
    else (.follow node next, { s with stack := s.stack ++ [next] })

/-- One pass: of the inner loop while the stack holds an epoch, else of the outer one. -/
def step (adjacency : Adjacency) (s : CycleSearch) : Option (Event × CycleSearch) :=
  match s.stack.getLast? with
  | some node => some ((s.enter adjacency node).look node)
  | none =>
    match s.nodes with
    | [] => none
    | start :: nodes =>
      if start ∈ s.visited then some (.start, { s with nodes })
      else some (.start, { s with nodes, stack := [start], path := [], onPath := [], iterators := [] })

/-- The passes up to the end, with what they did. -/
def search (adjacency : Adjacency) : ℕ → CycleSearch → Option (List Event × CycleSearch)
  | 0, _ => none
  | fuel + 1, s =>
    match step adjacency s with
    | none => some ([], s)
    | some (event, s') => (search adjacency fuel s').map fun r => (event :: r.1, r.2)

/-- The cycles stored, by their joined texts. -/
def CycleSearch.reported (s : CycleSearch) : List (List Str) :=
  (s.cycles.map Prod.snd).insertionSort fun a b => joinBar a ≤ joinBar b

variable {c d : List Str}

lemma canonicalizeCycle_isRotated (c : List Str) : c ~r canonicalizeCycle c := by
  have h : c.take (minIndex c) ++ c.drop (minIndex c) ~r canonicalizeCycle c :=
    List.isRotated_append
  rwa [List.take_append_drop] at h

/-- A link looked at before the epoch it leads to was finished. -/
def Taken (es : List Event) (x y : Str) : Prop :=
  .follow x y ∈ es ∨ ∃ c, .close x y c ∈ es

/-- A cycle the search closed. -/
def Closed (es : List Event) (c : List Str) : Prop := ∃ x y, .close x y c ∈ es

/-- On a cycle the search closed. -/
def Covered (es : List Event) (v : Str) : Prop := ∃ c, Closed es c ∧ v ∈ c

variable {adjacency : Adjacency} {es : List Event} {s s' : CycleSearch} {e : Event}
  {node x y v : Str}

lemma taken_follow : Taken (es ++ [.follow x y]) = Adding (Taken es) x y := by
  funext p q
  simp [Taken, Adding, or_assoc, or_comm]

lemma taken_close : Taken (es ++ [.close x y c]) = Adding (Taken es) x y := by
  funext p q
  simp [Taken, Adding, exists_or, or_assoc]

lemma taken_start : Taken (es ++ [.start]) = Taken es := by
  funext p q
  simp [Taken]

lemma taken_pass : Taken (es ++ [.pass x y]) = Taken es := by
  funext p q
  simp [Taken]

lemma taken_finish : Taken (es ++ [.finish x]) = Taken es := by
  funext p q
  simp [Taken]

lemma closed_snoc : Closed (es ++ [e]) c ↔ Closed es c ∨ ∃ x y, e = .close x y c := by
  simp [Closed, exists_or, eq_comm]

lemma covered_close : Covered (es ++ [.close x y c]) v ↔ Covered es v ∨ v ∈ c := by
  simp only [Covered, closed_snoc]
  constructor
  · rintro ⟨d, hd | ⟨x', y', heq⟩, hv⟩
    · exact .inl ⟨d, hd, hv⟩
    · cases heq
      exact .inr hv
  · rintro (⟨d, hd, hv⟩ | hv)
    · exact ⟨d, .inl hd, hv⟩
    · exact ⟨c, .inr ⟨x, y, rfl⟩, hv⟩

lemma covered_snoc (he : ∀ x y c, e ≠ .close x y c) : Covered (es ++ [e]) = Covered es := by
  funext v
  simp only [Covered, closed_snoc, he, exists_false, or_false]

/-- The search closed the cycle, and none that it closed later takes its place in the map. -/
def Stays (es : List Event) (c : List Str) : Prop :=
  ∃ before x y after, es = before ++ .close x y c :: after ∧ ∀ d, Closed after d →
    joinBar (canonicalizeCycle d) = joinBar (canonicalizeCycle c) →
    canonicalizeCycle d = canonicalizeCycle c

lemma Stays.closed (h : Stays es c) : Closed es c := by
  obtain ⟨before, x, y, after, rfl, -⟩ := h
  exact ⟨x, y, List.mem_append_right _ List.mem_cons_self⟩

lemma stays_close : Stays (es ++ [.close x y c]) d ↔ canonicalizeCycle d = canonicalizeCycle c ∧
    (d = c ∨ Stays es d) ∨ joinBar (canonicalizeCycle c) ≠ joinBar (canonicalizeCycle d) ∧
    Stays es d := by
  constructor
  · rintro ⟨before, x', y', after, heq, hafter⟩
    rcases snoc_eq_append_cons heq with ⟨rfl, hev, rfl⟩ | ⟨rest, rfl, rfl⟩
    · cases hev
      exact .inl ⟨rfl, .inl rfl⟩
    · have hstays : Stays (before ++ .close x' y' d :: rest) d :=
        ⟨before, x', y', rest, rfl, fun d' hd' => hafter d' (closed_snoc.mpr (.inl hd'))⟩
      by_cases htext : joinBar (canonicalizeCycle c) = joinBar (canonicalizeCycle d)
      · exact .inl ⟨(hafter c (closed_snoc.mpr (.inr ⟨x, y, rfl⟩)) htext).symm, .inr hstays⟩
      · exact .inr ⟨htext, hstays⟩
  · have hold : Stays es d → (joinBar (canonicalizeCycle c) = joinBar (canonicalizeCycle d) →
        canonicalizeCycle c = canonicalizeCycle d) → Stays (es ++ [.close x y c]) d := by
      rintro ⟨before, x', y', after, rfl, hafter⟩ hc
      refine ⟨before, x', y', after ++ [.close x y c], by simp, fun d' hd' htext => ?_⟩
      rcases closed_snoc.mp hd' with hd' | ⟨x₁, y₁, hev⟩
      · exact hafter d' hd' htext
      · cases hev
        exact hc htext
    rintro (⟨hcanon, rfl | hd⟩ | ⟨htext, hd⟩)
    · exact ⟨es, x, y, [], rfl, fun d' hd' => by simp [Closed] at hd'⟩
    · exact hold hd fun _ => hcanon.symm
    · exact hold hd fun h => absurd h htext

lemma stays_snoc (he : ∀ x y c, e ≠ .close x y c) : Stays (es ++ [e]) c ↔ Stays es c := by
  constructor
  · rintro ⟨before, x, y, after, heq, hafter⟩
    rcases snoc_eq_append_cons heq with ⟨-, hev, -⟩ | ⟨rest, rfl, rfl⟩
    · exact absurd hev.symm (he x y c)
    · exact ⟨before, x, y, rest, rfl, fun d hd => hafter d (closed_snoc.mpr (.inl hd))⟩
  · rintro ⟨before, x, y, after, rfl, hafter⟩
    refine ⟨before, x, y, after ++ [e], by simp, fun d hd => ?_⟩
    rcases closed_snoc.mp hd with hd | ⟨x', y', hev⟩
    · exact hafter d hd
    · exact absurd hev (he x' y' d)

/-- The map of cycles holds those that stay, under their joined texts. -/
structure Stores (es : List Event) (cycles : OrderedMap Str (List Str)) : Prop where
  keyed : OrderedMap.Keyed cycles
  entry : ∀ k c, cycles.get k = some c →
    k = joinBar c ∧ ∃ d, Stays es d ∧ c = canonicalizeCycle d
  kept : ∀ c, Stays es c →
    cycles.get (joinBar (canonicalizeCycle c)) = some (canonicalizeCycle c)

/-- The variables of the search after the passes `es`. -/
structure Exploring (adjacency : Adjacency) (es : List Event) (s : CycleSearch) : Prop where
  explored : Explored (Taken es) s.stack (· ∈ s.visited) (Covered es)
  entered : s.stack = s.path ∨ ∃ y, s.stack = s.path ++ [y]
  onPath : s.onPath = s.path
  known : ∀ x l, s.iterators.get x = some l → ∀ y ∈ l, y ∈ successors adjacency x
  links : ∀ x y, Taken es x y → y ∈ successors adjacency x
  cycles : ∀ c, Closed es c → IsCycle (Taken es) c
  stores : Stores es s.cycles

lemma Stores.snoc {cycles : OrderedMap Str (List Str)} (h : Stores es cycles)
    (he : ∀ x y c, e ≠ .close x y c) : Stores (es ++ [e]) cycles := by
  refine ⟨h.keyed, ?_, ?_⟩
  · simpa only [stays_snoc he] using h.entry
  · simpa only [stays_snoc he] using h.kept

/-- A cycle is stored under its joined text, in the place of what was there. -/
lemma Stores.close {cycles : OrderedMap Str (List Str)} (h : Stores es cycles) :
    Stores (es ++ [.close x y c])
      (cycles.set (joinBar (canonicalizeCycle c)) (canonicalizeCycle c)) := by
  refine ⟨h.keyed.set _ _, fun k d hget => ?_, fun d hd => ?_⟩
  · rw [OrderedMap.get_set] at hget
    split at hget
    · next hk =>
        cases hget
        exact ⟨hk.symm, c, stays_close.mpr (.inl ⟨rfl, .inl rfl⟩), rfl⟩
    · next hk =>
        obtain ⟨rfl, d', hd', rfl⟩ := h.entry k d hget
        exact ⟨rfl, d', stays_close.mpr (.inr ⟨hk, hd'⟩), rfl⟩
  · rw [OrderedMap.get_set]
    rcases stays_close.mp hd with ⟨hcanon, -⟩ | ⟨htext, hd⟩
    · rw [if_pos (by rw [hcanon]), hcanon]
    · rw [if_neg htext, h.kept d hd]

lemma Exploring.init (adjacency : Adjacency) : Exploring adjacency [] (.init adjacency) where
  explored := by
    have hT : Taken [] = fun _ _ : Str => False := by
      funext x y
      simp [Taken]
    have hdone : (fun x => x ∈ (CycleSearch.init adjacency).visited) = fun _ : Str => False := by
      funext x
      simp [CycleSearch.init]
    rw [hT, hdone]
    exact explored_nil _
  entered := .inl rfl
  onPath := rfl
  known x l h := by simp [CycleSearch.init] at h
  links x y h := by simp [Taken] at h
  cycles c h := by simp [Closed] at h
  stores := ⟨OrderedMap.keyed_nil, by simp [CycleSearch.init], fun c h => by
    obtain ⟨x, y, h⟩ := h.closed
    cases h⟩

/-- After entering, the path is the stack. -/
lemma Exploring.enter (h : Exploring adjacency es s) (hnode : s.stack.getLast? = some node) :
    Exploring adjacency es (s.enter adjacency node) ∧ (s.enter adjacency node).path = s.stack ∧
      (s.enter adjacency node).stack = s.stack := by
  have hnodup := h.explored.nodup
  rw [CycleSearch.enter, h.onPath]
  split
  · next hmem =>
      rcases h.entered with heq | ⟨y, heq⟩
      · exact ⟨h, heq.symm, rfl⟩
      · rw [heq, List.getLast?_concat] at hnode
        cases hnode
        rw [heq] at hnodup
        exact absurd List.mem_cons_self ((List.disjoint_of_nodup_append hnodup) hmem)
  · next hmem =>
      rcases h.entered with heq | ⟨y, heq⟩
      · exact absurd (heq ▸ List.mem_of_getLast? hnode) hmem
      · have hy : y = node := by
          rw [heq, List.getLast?_concat] at hnode
          exact Option.some.inj hnode
        subst hy
        refine ⟨{ h with entered := .inl heq, onPath := ?_, known := ?_ }, heq.symm, rfl⟩
        · dsimp only
          rw [setAdd, if_neg hmem]
        · intro x l hget z hz
          dsimp only at hget
          rw [OrderedMap.get_set] at hget
          split at hget
          · next hx =>
              cases hget
              exact hx ▸ (List.mem_insertionSort _).mp hz
          · exact h.known x l hget z hz

/-- One look at the epoch on top. -/
lemma Exploring.look (h : Exploring adjacency es s) (hpath : s.path = s.stack)
    (hnode : s.stack.getLast? = some node) :
    Exploring adjacency (es ++ [(s.look node).1]) (s.look node).2 := by
  obtain ⟨l, hl⟩ := List.getLast?_eq_some_iff.mp hnode
  have hexp := h.explored
  rw [CycleSearch.look]
  split
  · -- the links of the epoch are done
    have hne : ∀ x y c, Event.finish node ≠ .close x y c := fun _ _ _ => Event.noConfusion
    have hdrop : s.stack.dropLast = l := by rw [hl, List.dropLast_concat]
    have hdone : (fun x => x ∈ setAdd s.visited node) = fun x => x ∈ s.visited ∨ x = node :=
      funext fun x => propext mem_setAdd
    have hnot : node ∉ l := fun hmem => by
      have := hexp.nodup
      rw [hl] at this
      exact (List.disjoint_of_nodup_append this) hmem List.mem_cons_self
    refine ⟨?_, .inl ?_, ?_, h.known, ?_, ?_, h.stores.snoc hne⟩
    · dsimp only
      rw [taken_finish, covered_snoc hne, hdone, hdrop]
      rw [hl] at hexp
      exact hexp.finish
    · dsimp only
      rw [hpath]
    · dsimp only
      rw [h.onPath, hpath, hdrop, hl, List.erase_append_right _ hnot, List.erase_cons_head,
        List.append_nil]
    · rw [taken_finish]
      exact h.links
    · rw [taken_finish]
      simpa only [closed_snoc, hne, exists_false, or_false] using h.cycles
  · next next pending hget =>
    have hnext : next ∈ successors adjacency node := by
      cases hs : s.iterators.get node with
      | none => rw [hs] at hget; cases hget
      | some l =>
          rw [hs, Option.getD_some] at hget
          exact h.known node l hs next (hget ▸ List.mem_cons_self)
    have hknown : ∀ x l, (s.iterators.set node pending).get x = some l →
        ∀ y ∈ l, y ∈ successors adjacency x := by
      intro x l hgetx y hy
      rw [OrderedMap.get_set] at hgetx
      split at hgetx
      · next hx =>
          cases hgetx
          subst hx
          cases hs : s.iterators.get node with
          | none => rw [hs] at hget; cases hget
          | some l =>
              rw [hs, Option.getD_some] at hget
              exact h.known node l hs y (hget ▸ List.mem_cons_of_mem _ hy)
      · exact h.known x l hgetx y hy
    have hlinks : ∀ x y, Adding (Taken es) node next x y → y ∈ successors adjacency x := by
      rintro x y (hT | ⟨rfl, rfl⟩)
      · exact h.links x y hT
      · exact hnext
    dsimp only
    split
    · -- back to the path: a cycle
      next hmem =>
      rw [h.onPath, hpath] at hmem
      have hi := List.idxOf_lt_length_iff.mpr hmem
      have hsplit : s.stack = s.stack.take (s.stack.idxOf next) ++
          next :: s.stack.drop (s.stack.idxOf next + 1) := by
        conv_lhs => rw [← List.take_append_drop (s.stack.idxOf next) s.stack,
          List.drop_eq_getElem_cons hi, List.getElem_idxOf hi]
      have hcycle : s.path.drop (s.path.idxOf next)
          = next :: s.stack.drop (s.stack.idxOf next + 1) := by
        rw [hpath, List.drop_eq_getElem_cons hi, List.getElem_idxOf hi]
      rw [hcycle]
      refine ⟨?_, .inl hpath.symm, h.onPath, hknown, ?_, ?_, h.stores.close⟩
      · have hcov : Covered (es ++ [.close node next
            (next :: s.stack.drop (s.stack.idxOf next + 1))])
            = fun v => Covered es v ∨ v ∈ next :: s.stack.drop (s.stack.idxOf next + 1) :=
          funext fun v => propext covered_close
        rw [taken_close, hcov]
        exact hexp.close hsplit hnode
      · rw [taken_close]
        exact hlinks
      · intro c hc
        rw [taken_close]
        rcases closed_snoc.mp hc with hc | ⟨x', y', heq⟩
        · exact (h.cycles c hc).mono fun _ _ => .inl
        · cases heq
          exact isCycle_of_close hexp hsplit hnode
    · next hmem =>
      split
      · -- to a finished epoch
        have hne : ∀ x y c, Event.pass node next ≠ .close x y c := fun _ _ _ => Event.noConfusion
        refine ⟨?_, .inl hpath.symm, h.onPath, hknown, ?_, ?_, h.stores.snoc hne⟩
        · rw [taken_pass, covered_snoc hne]
          exact hexp
        · rw [taken_pass]
          exact h.links
        · rw [taken_pass]
          simpa only [closed_snoc, hne, exists_false, or_false] using h.cycles
      · -- to an epoch not seen yet
        next hnew =>
        have hne : ∀ x y c, Event.follow node next ≠ .close x y c :=
          fun _ _ _ => Event.noConfusion
        rw [h.onPath, hpath] at hmem
        refine ⟨?_, .inr ⟨next, ?_⟩, h.onPath, hknown, ?_, ?_, h.stores.snoc hne⟩
        · dsimp only
          rw [taken_follow, covered_snoc hne]
          rw [hl] at hexp hmem ⊢
          exact hexp.follow hnew hmem
        · dsimp only
          rw [hpath]
        · rw [taken_follow]
          exact hlinks
        · rw [taken_follow]
          intro c hc
          rw [closed_snoc] at hc
          simp only [hne, exists_false, or_false] at hc
          exact (h.cycles c hc).mono fun _ _ => .inl

lemma Exploring.step (h : Exploring adjacency es s) (hstep : step adjacency s = some (e, s')) :
    Exploring adjacency (es ++ [e]) s' := by
  rw [Audit.step] at hstep
  split at hstep
  · next node hnode =>
      obtain ⟨henter, hpath, hstack⟩ := h.enter hnode
      obtain rfl := congrArg Prod.fst (Option.some.inj hstep)
      obtain rfl := congrArg Prod.snd (Option.some.inj hstep)
      exact henter.look (hpath.trans hstack.symm) (hstack ▸ hnode)
  · next hnone =>
      have hstack : s.stack = [] := List.getLast?_eq_none_iff.mp hnone
      have hpath : s.path = [] := by
        rcases h.entered with heq | ⟨y, heq⟩
        · rw [← heq, hstack]
        · rw [hstack] at heq
          exact absurd heq.symm (by simp)
      have hne : ∀ x y c, Event.start ≠ .close x y c := fun _ _ _ => Event.noConfusion
      have hlinks : ∀ x y, Taken (es ++ [.start]) x y → y ∈ successors adjacency x := by
        rw [taken_start]
        exact h.links
      have hcycles : ∀ c, Closed (es ++ [.start]) c → IsCycle (Taken (es ++ [.start])) c := by
        rw [taken_start]
        simpa only [closed_snoc, hne, exists_false, or_false] using h.cycles
      split at hstep
      · cases hstep
      · next start nodes hnodes =>
          split at hstep
          · cases hstep
            refine ⟨?_, h.entered, h.onPath, h.known, hlinks, hcycles, h.stores.snoc hne⟩
            rw [taken_start, covered_snoc hne]
            exact h.explored
          · next hnew =>
              cases hstep
              refine ⟨?_, .inr ⟨start, rfl⟩, rfl, fun x l hget => ?_, hlinks, hcycles,
                h.stores.snoc hne⟩
              · rw [taken_start, covered_snoc hne]
                have hexp := h.explored
                rw [hstack] at hexp
                exact hexp.root hnew
              · simp at hget

lemma Exploring.search {fuel : ℕ} {fs : List Event} (h : Exploring adjacency es s)
    (hsearch : search adjacency fuel s = some (fs, s')) : Exploring adjacency (es ++ fs) s' := by
  induction fuel generalizing es s fs with
  | zero => cases hsearch
  | succ fuel ih =>
      rw [Audit.search] at hsearch
      split at hsearch
      · cases hsearch
        rwa [List.append_nil]
      · next event s₁ hstep =>
          obtain ⟨⟨gs, s₂⟩, hrun, heq⟩ := Option.map_eq_some_iff.mp hsearch
          cases heq
          rw [List.append_cons]
          exact ih (h.step hstep) hrun

/-! ### The search ends -/

/-- The epochs of the graph. -/
def epochs (adjacency : Adjacency) : Finset Str :=
  ((adjacency.map Prod.fst).flatMap fun x => x :: successors adjacency x).toFinset

/-- The links of the path still to be looked at, and the path. -/
def pendingSize (s : CycleSearch) : ℕ :=
  (s.path.map fun x => ((s.iterators.get x).getD []).length + 1).sum

/-- The epochs not seen yet, with their links. -/
def unseenSize (adjacency : Adjacency) (s : CycleSearch) : ℕ :=
  ∑ x ∈ epochs adjacency with x ∉ s.visited ∧ x ∉ s.path, ((successors adjacency x).length + 1)

/-- What is left to do. -/
def remaining (adjacency : Adjacency) (s : CycleSearch) : ℕ :=
  s.nodes.length + unseenSize adjacency s + pendingSize s

/-- The stack and the starts are epochs of the graph. -/
structure Within (adjacency : Adjacency) (s : CycleSearch) : Prop where
  stack : ∀ x ∈ s.stack, x ∈ epochs adjacency
  nodes : ∀ x ∈ s.nodes, x ∈ epochs adjacency

/-- Joined texts tell cycles apart whose epochs hold no bar. -/
lemma joinBar_inj (hc : c ≠ []) (hd : d ≠ []) (hcb : ∀ x ∈ c, (124 : UInt16) ∉ x)
    (hdb : ∀ x ∈ d, (124 : UInt16) ∉ x) (h : joinBar c = joinBar d) : c = d :=
  intercalate_inj hc hd hcb hdb h

/-- Among epochs without a bar, every cycle closed stays. -/
lemma Closed.stays (h : Exploring adjacency es s) (hbar : ∀ x y, Taken es x y → (124 : UInt16) ∉ x)
    (hc : Closed es c) : Stays es c := by
  have hplain : ∀ c, Closed es c → ∀ x ∈ canonicalizeCycle c, (124 : UInt16) ∉ x := by
    intro c hc x hx
    have hon : OnCycle (Taken es) x :=
      ⟨c, h.cycles c hc, (canonicalizeCycle_isRotated c).mem_iff.mpr hx⟩
    obtain ⟨y, hxy, -⟩ := Relation.TransGen.head'_iff.mp hon.transGen
    exact hbar x y hxy
  have hne : ∀ c, Closed es c → canonicalizeCycle c ≠ [] := fun c hc =>
    ((h.cycles c hc).of_isRotated (canonicalizeCycle_isRotated c)).ne_nil
  obtain ⟨x, y, hmem⟩ := hc
  obtain ⟨before, after, heq⟩ := List.append_of_mem hmem
  refine ⟨before, x, y, after, heq, fun d hd => ?_⟩
  obtain ⟨x', y', hmem'⟩ := hd
  have hd : Closed es d := ⟨x', y', heq ▸ List.mem_append_right _ (List.mem_cons_of_mem _ hmem')⟩
  have hc : Closed es c := ⟨x, y, hmem⟩
  exact joinBar_inj (hne d hd) (hne c hc) (hplain d hd) (hplain c hc)

/-! ### Completeness -/

end Audit

end BitGraph
