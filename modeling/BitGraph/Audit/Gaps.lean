import BitGraph.Audit
import BitGraph.Lib.Runs

/-!
The counter positions a partition leaves unexplained.

* **Positions.** Every recording takes two: its commit counter and its slot counter. A position
  between the lowest and the highest of a partition that is neither is `Unexplained`.
* **Sweep.** `analyzeGaps` sorts the positions and passes over neighbours: `Swept` is what it
  keeps, ranges and count in full, the flat list up to `MAX_LISTED_POSITIONS`.
* `gaps_exact`: the ranges are the maximal runs of unexplained positions, the count is theirs,
  and `truncated` says whether one of them is not listed.
-/

namespace BitGraph

open Js Runs

namespace Audit

/-! ### Anomalies -/

inductive AnomalyCode where
  | unexplainedCounterPositions
  deriving DecidableEq

/-- A range of positions, both ends included. -/
structure PositionRange where
  start : Str
  stop : Str
  deriving DecidableEq

structure UnexplainedPositionsDetail where
  /-- Total unexplained positions. -/
  count : Str
  /-- Contiguous unexplained ranges, ascending. -/
  ranges : List PositionRange
  /-- Flat position list, ascending, capped. -/
  positions : List Str
  truncated : Bool
  deriving DecidableEq

structure ChainAnomaly where
  code : AnomalyCode
  partition : Option PartitionKey
  proofHashes : List Str
  message : Str
  details : UnexplainedPositionsDetail
  deriving DecidableEq

/-- Cap on the flat list of positions. -/
def MAX_LISTED_POSITIONS : ℕ := 10000

/-! ### The sweep -/

/-- `Set.add`. -/
def setAdd {α : Type*} [DecidableEq α] (set : List α) (x : α) : List α :=
  if x ∈ set then set else set ++ [x]

lemma mem_setAdd {α : Type*} [DecidableEq α] {set : List α} {x y : α} :
    y ∈ setAdd set x ↔ y ∈ set ∨ y = x := by
  rw [setAdd]
  split
  · next h => exact ⟨.inl, fun hy => hy.elim id fun hy => hy ▸ h⟩
  · simp

lemma nodup_setAdd {α : Type*} [DecidableEq α] {set : List α} (h : set.Nodup) (x : α) :
    (setAdd set x).Nodup := by
  rw [setAdd]
  split
  · exact h
  · next hx =>
      rw [← List.concat_eq_append]
      exact h.concat hx

/-- A counter that parses is added. -/
def addPosition (explained : List ℕ) : Option ℕ → List ℕ
  | none => explained
  | some p => setAdd explained p

/-- Every observed commit counter and every observed slot counter. -/
def explainedPositions (members : List ObservedProof) : List ℕ :=
  members.foldl (fun explained m =>
    addPosition (addPosition explained (parseCounter m.counter)) (parseCounter m.slotCounter)) []

/-- What the sweep has collected. -/
structure Sweep where
  ranges : List PositionRange
  positions : List Str
  count : ℕ

/-- The positions from `p` to `high`, as many as there is room for. -/
def listPositions (high : ℕ) : ℕ → ℕ → List Str
  | 0, _ => []
  | room + 1, p => if p ≤ high then decimal p :: listPositions high room (p + 1) else []

/-- One pair of neighbours. -/
def Sweep.between (s : Sweep) (low high : ℕ) : Sweep :=
  if high < low then s
  else
    { ranges := s.ranges ++ [⟨decimal low, decimal high⟩]
      positions :=
        s.positions ++ listPositions high (MAX_LISTED_POSITIONS - s.positions.length) low
      count := s.count + (high - low + 1) }

/-- The neighbours of `previous :: rest`, pair by pair. -/
def sweep (s : Sweep) (previous : ℕ) : List ℕ → Sweep
  | [] => s
  | next :: rest => sweep (s.between (previous + 1) (next - 1)) next rest

/-- The message of the anomaly. -/
def gapMessage (count min max : ℕ) : Str :=
  decimal count ++ js " counter position" ++ (if count = 1 then [] else js "s") ++
    js " within the observed range [" ++ decimal min ++ js ", " ++ decimal max ++
    js "] of this partition " ++ (if count = 1 then js "is" else js "are") ++
    js " neither a commit position nor a referenced reserved position in the supplied bundle. " ++
    js "Such " ++ (if count = 1 then js "a position" else js "positions") ++
    js " may mean a proof is absent from the bundle, or a position that was reserved but never " ++
    js "committed (a routine, benign occurrence); this offline audit cannot distinguish the two. " ++
    js "It does not, by itself, establish that the authority failed to create or withheld any proof."

/-- Report the positions of a partition that no observed proof explains. -/
def analyzeGaps (partition : ChainPartition) (members : List ObservedProof)
    (anomalies : List ChainAnomaly) : List ChainAnomaly :=
  let explained := explainedPositions members
  if explained.length < 2 then anomalies
  else match explained.insertionSort (· ≤ ·) with
    | [] => anomalies
    | min :: rest =>
      let s := sweep ⟨[], [], 0⟩ min rest
      if s.ranges = [] then anomalies
      else anomalies ++
        [{ code := .unexplainedCounterPositions
           partition := some partition.key
           proofHashes := []
           message := gapMessage s.count min (rest.getLastD min)
           details :=
            { count := decimal s.count
              ranges := s.ranges
              positions := s.positions
              truncated := s.positions.length < s.count } }]

/-! ### What the sweep keeps -/

/-- A range with its ends written out. -/
def rangeText (r : ℕ × ℕ) : PositionRange := ⟨decimal r.1, decimal r.2⟩

/-- The sweep has passed the ranges `rs`. -/
structure Swept (rs : List (ℕ × ℕ)) (s : Sweep) : Prop where
  ranges : s.ranges = rs.map rangeText
  positions : s.positions = ((spread rs).take MAX_LISTED_POSITIONS).map decimal
  count : s.count = (spread rs).length

variable {rs : List (ℕ × ℕ)} {s : Sweep} {low high : ℕ}

lemma listPositions_eq (high room low : ℕ) :
    listPositions high room low = ((List.range' low (high + 1 - low)).take room).map decimal := by
  induction room generalizing low with
  | zero => rfl
  | succ room ih =>
      rw [listPositions]
      split
      · next h =>
          obtain ⟨n, hn⟩ : ∃ n, high + 1 - low = n + 1 := ⟨high - low, by omega⟩
          rw [ih, hn, List.range'_succ, List.take_succ_cons, List.map_cons]
          congr 4
          omega
      · next h => rw [show high + 1 - low = 0 by omega]; rfl

lemma Swept.between (h : Swept rs s) (hle : low ≤ high) :
    Swept (rs ++ [(low, high)]) (s.between low high) := by
  have hspread : spread (rs ++ [(low, high)])
      = spread rs ++ List.range' low (high + 1 - low) := by
    simp [spread, Runs.size]
  have hroom : MAX_LISTED_POSITIONS - s.positions.length
      = MAX_LISTED_POSITIONS - (spread rs).length := by
    rw [h.positions, List.length_map, List.length_take]
    omega
  rw [Sweep.between, if_neg hle.not_gt]
  constructor
  · simp [h.ranges, rangeText]
  · rw [hspread, List.take_append, List.map_append]
    dsimp only
    rw [hroom, listPositions_eq, h.positions]
  · rw [hspread, List.length_append, List.length_range']
    dsimp only
    rw [h.count]
    omega

lemma Swept.sweep (h : Swept rs s) (a : ℕ) (l : List ℕ) :
    Swept (rs ++ gaps a l) (sweep s a l) := by
  induction l generalizing rs s a with
  | nil => simpa [gaps, Audit.sweep] using h
  | cons b l ih =>
      rw [Audit.sweep, gaps]
      split
      · next hlt =>
          rw [Sweep.between, if_pos hlt]
          exact ih h b
      · next hlt =>
          rw [List.append_cons]
          exact ih (h.between (not_lt.mp hlt)) b

/-! ### Observed and unexplained positions -/

/-- A commit counter or a slot counter of the partition. -/
def Observed (members : List ObservedProof) (p : ℕ) : Prop :=
  ∃ m ∈ members, parseCounter m.counter = some p ∨ parseCounter m.slotCounter = some p

/-- Strictly between two observed positions, and itself not observed. -/
def Unexplained (members : List ObservedProof) (p : ℕ) : Prop :=
  ¬ Observed members p ∧ (∃ low, Observed members low ∧ low < p) ∧
    ∃ high, Observed members high ∧ p < high

variable {members : List ObservedProof} {p : ℕ}

lemma mem_addPosition {explained : List ℕ} {q : Option ℕ} :
    p ∈ addPosition explained q ↔ p ∈ explained ∨ q = some p := by
  cases q with
  | none => simp [addPosition]
  | some q => simp [addPosition, mem_setAdd, eq_comm]

lemma nodup_addPosition {explained : List ℕ} (h : explained.Nodup) (q : Option ℕ) :
    (addPosition explained q).Nodup := by
  cases q with
  | none => exact h
  | some q => exact nodup_setAdd h q

lemma explainedPositions_spec (members : List ObservedProof) :
    (explainedPositions members).Nodup ∧
      ∀ p, p ∈ explainedPositions members ↔ Observed members p := by
  have hfold : ∀ (ms : List ObservedProof) (explained : List ℕ), explained.Nodup →
      (ms.foldl (fun explained m => addPosition (addPosition explained (parseCounter m.counter))
        (parseCounter m.slotCounter)) explained).Nodup ∧
      ∀ p, p ∈ ms.foldl (fun explained m => addPosition (addPosition explained
        (parseCounter m.counter)) (parseCounter m.slotCounter)) explained ↔
        p ∈ explained ∨ Observed ms p := by
    intro ms
    induction ms with
    | nil => exact fun explained h => ⟨h, fun p => by simp [Observed]⟩
    | cons m ms ih =>
        intro explained h
        obtain ⟨hnodup, hmem⟩ := ih _ (nodup_addPosition (nodup_addPosition h _) _)
        refine ⟨hnodup, fun p => (hmem p).trans ?_⟩
        rw [mem_addPosition, mem_addPosition]
        simp only [Observed, List.exists_mem_cons_iff, or_assoc]
  obtain ⟨hnodup, hmem⟩ := hfold members [] List.nodup_nil
  exact ⟨hnodup, fun p => (hmem p).trans (by simp)⟩

/-- The positions in order, smallest first. -/
lemma sorted_spec {min : ℕ} {rest : List ℕ}
    (h : (explainedPositions members).insertionSort (· ≤ ·) = min :: rest) :
    (min :: rest).Pairwise (· < ·) ∧ ∀ p, Unexplained members p ↔ Inside min rest p := by
  obtain ⟨hnodup, hmem⟩ := explainedPositions_spec members
  have hperm := List.perm_insertionSort (· ≤ ·) (explainedPositions members)
  have hsorted := List.pairwise_insertionSort (· ≤ ·) (explainedPositions members)
  rw [h] at hperm hsorted
  have hlt : (min :: rest).Pairwise (· < ·) :=
    (hsorted.and (hperm.nodup_iff.mpr hnodup)).imp fun h => lt_of_le_of_ne h.1 h.2
  have hobs : ∀ p, Observed members p ↔ p ∈ min :: rest := fun p =>
    (hmem p).symm.trans hperm.mem_iff.symm
  have hmin : ∀ q ∈ rest, min < q := (List.pairwise_cons.mp hlt).1
  refine ⟨hlt, fun p => ?_⟩
  simp only [Unexplained, Inside, hobs]
  constructor
  · rintro ⟨hp, ⟨low, hlow, hlp⟩, high, hhigh, hph⟩
    have hle : min ≤ low := by
      rcases List.mem_cons.mp hlow with rfl | hlow
      · exact le_rfl
      · exact (hmin low hlow).le
    refine ⟨fun h => hp (List.mem_cons_of_mem _ h), hle.trans_lt hlp, high, ?_, hph⟩
    exact (List.mem_cons.mp hhigh).resolve_left (by omega)
  · rintro ⟨hp, hlt, high, hhigh, hph⟩
    refine ⟨fun h => ?_, ⟨min, List.mem_cons_self, hlt⟩, high, List.mem_cons_of_mem _ hhigh, hph⟩
    rcases List.mem_cons.mp h with rfl | h
    · exact lt_irrefl _ hlt
    · exact hp h

/-- One position leaves nothing between. -/
lemma not_unexplained_of_length (h : (explainedPositions members).length < 2) :
    ¬ Unexplained members p := by
  obtain ⟨-, hmem⟩ := explainedPositions_spec members
  rintro ⟨-, ⟨low, hlow, hlp⟩, high, hhigh, hph⟩
  have hlow := (hmem low).mpr hlow
  have hhigh := (hmem high).mpr hhigh
  obtain ⟨q, hq⟩ : ∃ q, explainedPositions members = [q] :=
    List.length_eq_one_iff.mp (by have := List.length_pos_of_mem hlow; omega)
  rw [hq, List.mem_singleton] at hlow hhigh
  omega

/-! ### Exactness -/

/-- The detail accounts for every unexplained position. -/
structure Accounts (members : List ObservedProof) (d : UnexplainedPositionsDetail) : Prop where
  /-- The ranges are the maximal runs, ascending, and the count is their total size. -/
  runs : ∃ rs : List (ℕ × ℕ), d.ranges = rs.map rangeText ∧
    rs.Pairwise (fun r s => r.2 < s.1) ∧ (∀ r, r ∈ rs ↔ IsRun (Unexplained members) r) ∧
    d.count = decimal (rs.map Runs.size).sum
  count : d.count = decimal {p | Unexplained members p}.ncard
  /-- Listed are the first of them, in order. -/
  listed : ∃ ps : List ℕ, ps.Pairwise (· < ·) ∧ (∀ p, p ∈ ps ↔ Unexplained members p) ∧
    d.positions = (ps.take MAX_LISTED_POSITIONS).map decimal
  truncated : d.truncated = true ↔ ∃ p, Unexplained members p ∧ decimal p ∉ d.positions

lemma exists_notMem_take {ps : List ℕ} (h : ps.Nodup) (n : ℕ) :
    (∃ p ∈ ps, decimal p ∉ (ps.take n).map decimal) ↔ n < ps.length := by
  simp only [List.mem_map_of_injective decimal_injective]
  constructor
  · rintro ⟨p, hp, hnot⟩
    by_contra hle
    rw [List.take_of_length_le (not_lt.mp hle)] at hnot
    exact hnot hp
  · intro hlt
    refine ⟨ps[n], List.getElem_mem hlt, fun hmem => ?_⟩
    obtain ⟨i, hi, heq⟩ := List.mem_take_iff_getElem.mp hmem
    have := (List.Nodup.getElem_inj_iff h).mp heq
    omega

lemma accounts_of_swept {min : ℕ} {rest : List ℕ} (h : (min :: rest).Pairwise (· < ·))
    (hp : ∀ p, Unexplained members p ↔ Inside min rest p) (hs : Swept (gaps min rest) s) :
    Accounts members ⟨decimal s.count, s.ranges, s.positions, s.positions.length < s.count⟩ := by
  obtain hset : Unexplained members = Inside min rest := funext fun p => propext (hp p)
  have hgaps := pairwise_gaps h
  have hpairwise := pairwise_spread hgaps
  have hmem : ∀ p, p ∈ spread (gaps min rest) ↔ Unexplained members p := fun p =>
    (mem_spread_gaps h).trans (hp p).symm
  have hcount : s.count = ((gaps min rest).map Runs.size).sum := hs.count.trans (length_spread _)
  refine ⟨⟨gaps min rest, hs.ranges, hgaps, fun r => ?_, congrArg decimal hcount⟩, ?_,
    ⟨spread (gaps min rest), hpairwise, hmem, hs.positions⟩, ?_⟩
  · rw [hset]
    exact mem_gaps h
  · rw [hset, ← spread_gaps h]
    exact congrArg decimal hcount
  · simp only [← hmem, hs.positions]
    rw [exists_notMem_take hpairwise.nodup, decide_eq_true_iff, List.length_map, List.length_take,
      hs.count]
    omega

/-- What is reported of a partition are the maximal runs of its unexplained positions, counted in
full, and flagged as truncated exactly if one of them is not listed. Where there are none,
nothing is reported. -/
theorem gaps_exact (partition : ChainPartition) (members : List ObservedProof)
    (anomalies : List ChainAnomaly) :
    (analyzeGaps partition members anomalies = anomalies ∧ ∀ p, ¬ Unexplained members p) ∨
      ∃ a : ChainAnomaly, analyzeGaps partition members anomalies = anomalies ++ [a] ∧
        a.partition = some partition.key ∧ (∃ p, Unexplained members p) ∧
        Accounts members a.details := by
  rw [analyzeGaps]
  dsimp only
  split
  · next hlt => exact .inl ⟨rfl, fun p => not_unexplained_of_length hlt⟩
  · split
    · next hnil =>
        refine .inl ⟨rfl, fun p => not_unexplained_of_length ?_⟩
        rw [← List.length_insertionSort (· ≤ ·), hnil]
        exact Nat.two_pos
    · next min rest hsort =>
        obtain ⟨hlt, hp⟩ := sorted_spec hsort
        have hs : Swept (gaps min rest) (sweep ⟨[], [], 0⟩ min rest) :=
          (⟨rfl, rfl, rfl⟩ : Swept [] ⟨[], [], 0⟩).sweep min rest
        split
        · next hnone =>
            have hgaps : gaps min rest = [] := by simpa [hs.ranges] using hnone
            refine .inl ⟨rfl, fun p hun => ?_⟩
            obtain ⟨r, hr, -⟩ := (inside_iff hlt).mp ((hp p).mp hun)
            rw [hgaps] at hr
            exact absurd hr List.not_mem_nil
        · next hsome =>
            obtain ⟨r, hr⟩ : ∃ r, r ∈ gaps min rest :=
              List.exists_mem_of_ne_nil _ fun h => hsome (by rw [hs.ranges, h]; rfl)
            have hun := (hp r.1).mpr
              ((inside_iff hlt).mpr ⟨r, hr, le_rfl, (neighbours_of_mem_gaps hlt hr).1⟩)
            exact .inr ⟨_, rfl, rfl, ⟨r.1, hun⟩, accounts_of_swept hlt hp hs⟩

end Audit

end BitGraph
