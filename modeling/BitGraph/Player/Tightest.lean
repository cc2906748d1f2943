import BitGraph.Audit
import BitGraph.Lib.OrderedMap

/-!
The tightest bound that a check shows of a recording.

* **Order.** `compareBounds`: by block number within a chain, else by time; at a tie the stronger
  evidence first. `tightest` is the first bound of a kind in that order.
* **Fused floor.** `fusedFloor` keeps the largest of the anchors that precede a slot.
* **Agreement.** Where the keys of a list compare like a quantity (`Compares`), the bound selected
  is extreme in it (`tightest_of_compares`). `Orderly`: in every chain the block numbers rise with
  the times, and are there or not for all.
* `tightest_extreme`: the bound selected is extreme in time, in every order of the list.
  `larger_number_first`: within a chain the block number decides, whatever the times.
-/

namespace BitGraph

open Js Audit

namespace Player

/-! ### Bounds -/

inductive BoundKind where
  | notBefore
  | notAfter
  deriving DecidableEq

inductive BoundChain where
  | base
  deriving DecidableEq

/-- A one-sided bound. `chain` is absent for Ethereum; the time is in whole Unix seconds. -/
structure FloorAwareBound where
  kind : BoundKind
  anchorProofHash : Str
  chain : Option BoundChain
  blockNumber : Option ℕ
  blockHash : Str
  timestamp : ℤ
  weaker : Bool
  deriving DecidableEq

/-- The block number, where it is to be compared and there is one, else the time. -/
def boundKey (byNumber : Bool) (b : FloorAwareBound) : ℤ :=
  match b.blockNumber with
  | some n => if byNumber then n else b.timestamp
  | none => b.timestamp

/-- The comparator of the sort. -/
def compareBounds (kind : BoundKind) (a b : FloorAwareBound) : ℤ :=
  let sameChain := decide (a.chain = b.chain)
  let an := boundKey sameChain a
  let bn := boundKey sameChain b
  if an ≠ bn then
    match kind with
    | .notBefore => if bn < an then -1 else 1
    | .notAfter => if an < bn then -1 else 1
  else if a.weaker ≠ b.weaker then (if a.weaker then 1 else -1)
  else 0

def ofKind (bounds : List FloorAwareBound) (kind : BoundKind) : List FloorAwareBound :=
  bounds.filter fun b => b.kind = kind

/-- The tightest bound of a kind. -/
def tightest (bounds : List FloorAwareBound) (kind : BoundKind) : Option FloorAwareBound :=
  ((ofKind bounds kind).insertionSort fun a b => compareBounds kind a b ≤ 0).head?

/-! ### The fused floor -/

/-- The chain that has anchors. -/
def ANCHORED_CHAIN : Str := js "bitgraph:main"

/-- What the fused floor reads of an anchor. -/
structure AnchorRecord where
  counter : Option Str
  deriving DecidableEq

structure CheckFloor where
  blockNumber : Option ℕ
  blockHash : Str
  timestamp : ℤ
  anchorProofHash : Str
  deriving DecidableEq

/-- A not-before anchor whose counter precedes the slot. -/
def precedesSlot (anchorByHash : OrderedMap Str AnchorRecord) (slot : ℕ) (b : FloorAwareBound) :
    Bool :=
  match b.kind, anchorByHash.get b.anchorProofHash with
  | .notBefore, some anchor =>
    match parseCounter anchor.counter with
    | none => false
    | some c => c < slot
  | _, _ => false

/-- One bound of the loop. -/
def fusedStep (anchorByHash : OrderedMap Str AnchorRecord) (slot : ℕ)
    (best : Option FloorAwareBound) (b : FloorAwareBound) : Option FloorAwareBound :=
  if precedesSlot anchorByHash slot b = false then best
  else match best with
    | none => some b
    | some c => if boundKey true c < boundKey true b then some b else some c

/-- The fused floor of a slot: none for a slot outside the anchored chain. -/
def fusedFloor (lowerBounds : Option (List FloorAwareBound))
    (anchorByHash : Option (OrderedMap Str AnchorRecord)) (slotCounter : Option Str)
    (chainId : Str) : Option CheckFloor :=
  if chainId ≠ ANCHORED_CHAIN then none
  else match lowerBounds, anchorByHash, parseCounter slotCounter with
    | some bounds, some anchors, some slot =>
      (bounds.foldl (fusedStep anchors slot) none).map fun b =>
        ⟨b.blockNumber, b.blockHash, b.timestamp, b.anchorProofHash⟩
    | _, _, _ => none

/-! ### Selection by a quantity -/

/-- `x` is as tight as `y`. -/
def AsTight (kind : BoundKind) (x y : ℤ) : Prop :=
  match kind with
  | .notBefore => y ≤ x
  | .notAfter => x ≤ y

/-- The keys of the bounds compare like the quantity `f`. -/
def Compares (f : FloorAwareBound → ℤ) (bs : List FloorAwareBound) : Prop :=
  ∀ a ∈ bs, ∀ b ∈ bs,
    (boundKey (decide (a.chain = b.chain)) a < boundKey (decide (a.chain = b.chain)) b ↔ f a < f b)

variable {f : FloorAwareBound → ℤ} {bs bounds bounds' : List FloorAwareBound} {kind : BoundKind}
  {a b c : FloorAwareBound}

lemma AsTight.trans {x y z : ℤ} (h : AsTight kind x y) (h' : AsTight kind y z) :
    AsTight kind x z := by
  cases kind with
  | notBefore => exact le_trans h' h
  | notAfter => exact le_trans h h'

lemma asTight_antisymm {x y : ℤ} (h : AsTight kind x y) (h' : AsTight kind y x) : x = y := by
  cases kind with
  | notBefore => exact le_antisymm h' h
  | notAfter => exact le_antisymm h h'

/-- The comparator, said of the quantity. -/
lemma compareBounds_le (h : Compares f bs) (ha : a ∈ bs) (hb : b ∈ bs) :
    (compareBounds kind a b ≤ 0 → AsTight kind (f a) (f b)) ∧
      (¬ compareBounds kind a b ≤ 0 → AsTight kind (f b) (f a)) := by
  have hab := h a ha b hb
  have hba := h b hb a ha
  have hcomm : decide (b.chain = a.chain) = decide (a.chain = b.chain) :=
    decide_eq_decide.mpr eq_comm
  rw [hcomm] at hba
  unfold compareBounds
  dsimp only
  generalize boundKey (decide (a.chain = b.chain)) a = an at hab hba ⊢
  generalize boundKey (decide (a.chain = b.chain)) b = bn at hab hba ⊢
  cases kind with
  | notBefore => simp only [AsTight]; split_ifs <;> omega
  | notAfter => simp only [AsTight]; split_ifs <;> omega

/-- The head of the sorted list is compared with each member in turn. -/
lemma head?_insertionSort_cons {α : Type*} (r : α → α → Prop) [DecidableRel r] (a : α)
    (l : List α) : ((a :: l).insertionSort r).head? = some (match (l.insertionSort r).head? with
      | none => a
      | some h => if r a h then a else h) := by
  rw [List.insertionSort_cons]
  cases l.insertionSort r with
  | nil => rfl
  | cons h t =>
      rw [List.orderedInsert]
      split
      · next hr => simp [hr]
      · next hr => simp [hr]

/-- The first bound in the order of the comparator is extreme. -/
lemma exists_head (h : Compares f bs) (hsub : bounds ⊆ bs) (hne : bounds ≠ []) :
    ∃ b ∈ bounds, (bounds.insertionSort fun a b => compareBounds kind a b ≤ 0).head? = some b ∧
      ∀ c ∈ bounds, AsTight kind (f b) (f c) := by
  have hrefl : ∀ x, AsTight kind x x := fun x => by cases kind <;> exact le_rfl
  induction bounds with
  | nil => exact absurd rfl hne
  | cons a rest ih =>
      rw [head?_insertionSort_cons]
      rcases eq_or_ne rest [] with rfl | hrest
      · exact ⟨a, List.mem_cons_self, rfl, fun c hc => List.mem_singleton.mp hc ▸ hrefl _⟩
      · obtain ⟨b, hb, hhead, hall⟩ := ih (fun x hx => hsub (List.mem_cons_of_mem _ hx)) hrest
        obtain ⟨hle, hgt⟩ : (compareBounds kind a b ≤ 0 → AsTight kind (f a) (f b)) ∧
            (¬ compareBounds kind a b ≤ 0 → AsTight kind (f b) (f a)) :=
          compareBounds_le h (hsub List.mem_cons_self) (hsub (List.mem_cons_of_mem _ hb))
        rw [hhead]
        dsimp only
        split
        · next hab =>
            refine ⟨a, List.mem_cons_self, rfl, fun c hc => ?_⟩
            rcases List.mem_cons.mp hc with rfl | hc
            · exact hrefl _
            · exact (hle hab).trans (hall c hc)
        · next hab =>
            refine ⟨b, List.mem_cons_of_mem _ hb, rfl, fun c hc => ?_⟩
            rcases List.mem_cons.mp hc with rfl | hc
            · exact hgt hab
            · exact hall c hc

/-- Where the keys compare like `f`, the bound selected is extreme in `f`. -/
lemma tightest_of_compares (h : Compares f (ofKind bounds kind)) (hne : ofKind bounds kind ≠ []) :
    ∃ b ∈ ofKind bounds kind, tightest bounds kind = some b ∧
      ∀ c ∈ ofKind bounds kind, AsTight kind (f b) (f c) :=
  exists_head h (List.Subset.refl _) hne

lemma Compares.perm (h : Compares f (ofKind bounds kind)) (hperm : bounds.Perm bounds') :
    Compares f (ofKind bounds' kind) := fun a ha b hb =>
  h a ((hperm.filter _).mem_iff.mpr ha) b ((hperm.filter _).mem_iff.mpr hb)

/-- Another order of the list selects a bound of the same quantity. -/
lemma tightest_perm (h : Compares f (ofKind bounds kind)) (hb : tightest bounds kind = some b)
    (hperm : bounds.Perm bounds') : ∃ b', tightest bounds' kind = some b' ∧ f b' = f b := by
  have hmem : ∀ c, c ∈ ofKind bounds kind ↔ c ∈ ofKind bounds' kind := fun c =>
    (hperm.filter _).mem_iff
  have hne : ofKind bounds kind ≠ [] := fun hnil => by
    rw [tightest, hnil] at hb
    cases hb
  obtain ⟨b₁, hb₁, heq, hall⟩ := tightest_of_compares h hne
  obtain rfl : b₁ = b := Option.some.inj (heq.symm.trans hb)
  have hne' : ofKind bounds' kind ≠ [] := List.ne_nil_of_mem ((hmem b₁).mp hb₁)
  obtain ⟨b', hb', heq', hall'⟩ := tightest_of_compares (h.perm hperm) hne'
  exact ⟨b', heq', asTight_antisymm (hall' b₁ ((hmem b₁).mp hb₁)) (hall b' ((hmem b').mpr hb'))⟩

/-! ### Times and block numbers -/

/-- In every chain the bounds all have block numbers, or none has; and the numbers rise with the
times. -/
structure Orderly (bs : List FloorAwareBound) : Prop where
  numbered : ∀ a ∈ bs, ∀ b ∈ bs, a.chain = b.chain →
    (a.blockNumber.isSome ↔ b.blockNumber.isSome)
  rising : ∀ a ∈ bs, ∀ b ∈ bs, a.chain = b.chain → ∀ m ∈ a.blockNumber, ∀ n ∈ b.blockNumber,
    (m < n ↔ a.timestamp < b.timestamp)

/-- Bounds of one chain, all with block numbers. -/
structure OneChain (bs : List FloorAwareBound) : Prop where
  chain : ∀ a ∈ bs, ∀ b ∈ bs, a.chain = b.chain
  numbered : ∀ a ∈ bs, a.blockNumber.isSome

lemma Orderly.key_lt (h : Orderly bs) (ha : a ∈ bs) (hb : b ∈ bs) (hchain : a.chain = b.chain) :
    boundKey true a < boundKey true b ↔ a.timestamp < b.timestamp := by
  have hnumbered := h.numbered a ha b hb hchain
  have hrising := h.rising a ha b hb hchain
  cases hm : a.blockNumber with
  | none =>
      have hn : b.blockNumber = none := by
        rw [hm] at hnumbered
        simpa using hnumbered
      simp [boundKey, hm, hn]
  | some m =>
      obtain ⟨n, hn⟩ : ∃ n, b.blockNumber = some n := by
        rw [hm] at hnumbered
        exact Option.isSome_iff_exists.mp (hnumbered.mp rfl)
      have := hrising m hm n hn
      simp only [boundKey, hm, hn, if_true]
      omega

lemma boundKey_false (b : FloorAwareBound) : boundKey false b = b.timestamp := by
  rw [boundKey]
  split <;> rfl

/-- Orderly bounds compare like their times. -/
lemma Orderly.compares (h : Orderly bs) : Compares FloorAwareBound.timestamp bs := by
  intro a ha b hb
  by_cases hchain : a.chain = b.chain
  · rw [decide_eq_true hchain]
    exact h.key_lt ha hb hchain
  · rw [decide_eq_false hchain, boundKey_false, boundKey_false]

lemma OneChain.compares (h : OneChain bs) : Compares (boundKey true) bs := by
  intro a ha b hb
  rw [decide_eq_true (h.chain a ha b hb)]

/-! ### The loop of the fused floor -/

/-- What the loop holds is one of the bounds passed, and none of them has a larger key. -/
def Largest (bs : List FloorAwareBound) : Option FloorAwareBound → Prop
  | none => bs = []
  | some b => b ∈ bs ∧ ∀ c ∈ bs, boundKey true c ≤ boundKey true b

lemma largest_fold (anchors : OrderedMap Str AnchorRecord) (slot : ℕ)
    (bounds : List FloorAwareBound) :
    Largest (bounds.filter (precedesSlot anchors slot))
      (bounds.foldl (fusedStep anchors slot) none) := by
  induction bounds using List.reverseRecOn with
  | nil => rfl
  | append_singleton bounds b ih =>
      rw [List.foldl_append, List.filter_append, List.foldl_cons, List.foldl_nil,
        fusedStep.eq_def]
      cases hb : precedesSlot anchors slot b with
      | false => simpa [hb] using ih
      | true =>
          rw [List.filter_cons_of_pos hb, List.filter_nil, if_neg (by simp)]
          cases hbest : bounds.foldl (fusedStep anchors slot) none with
          | none =>
              rw [hbest] at ih
              have hnil : bounds.filter (precedesSlot anchors slot) = [] := ih
              rw [hnil]
              exact ⟨List.mem_singleton_self b, fun c hc => (List.mem_singleton.mp hc ▸ le_rfl)⟩
          | some best =>
              rw [hbest] at ih
              obtain ⟨hmem, hall⟩ := ih
              have hlast : b ∈ bounds.filter (precedesSlot anchors slot) ++ [b] :=
                List.mem_append_right _ List.mem_cons_self
              dsimp only
              split
              · next hlt =>
                  refine ⟨hlast, fun c hc => ?_⟩
                  rcases List.mem_append.mp hc with hc | hc
                  · exact (hall c hc).trans hlt.le
                  · exact List.mem_singleton.mp hc ▸ le_rfl
              · next hle =>
                  refine ⟨List.mem_append_left _ hmem, fun c hc => ?_⟩
                  rcases List.mem_append.mp hc with hc | hc
                  · exact hall c hc
                  · exact List.mem_singleton.mp hc ▸ not_lt.mp hle

/-- The bounds that can be the fused floor of a slot. -/
def beforeSlot (bounds : List FloorAwareBound) (anchors : OrderedMap Str AnchorRecord)
    (slot : ℕ) : List FloorAwareBound := bounds.filter (precedesSlot anchors slot)

lemma fusedFloor_latest {anchors : OrderedMap Str AnchorRecord} {slotCounter : Str} {slot : ℕ}
    (hslot : parseCounter (some slotCounter) = some slot)
    (h : Orderly (beforeSlot bounds anchors slot))
    (hchain : ∀ a ∈ beforeSlot bounds anchors slot, ∀ b ∈ beforeSlot bounds anchors slot,
      a.chain = b.chain) (hne : beforeSlot bounds anchors slot ≠ []) :
    ∃ floor, fusedFloor (some bounds) (some anchors) (some slotCounter) ANCHORED_CHAIN
        = some floor ∧
      ∃ b ∈ beforeSlot bounds anchors slot, floor.timestamp = b.timestamp ∧
        ∀ c ∈ beforeSlot bounds anchors slot, c.timestamp ≤ floor.timestamp := by
  have hlargest := largest_fold anchors slot bounds
  have hfloor : fusedFloor (some bounds) (some anchors) (some slotCounter) ANCHORED_CHAIN
      = (bounds.foldl (fusedStep anchors slot) none).map fun b =>
        ⟨b.blockNumber, b.blockHash, b.timestamp, b.anchorProofHash⟩ := by
    simp [fusedFloor, hslot]
  rw [hfloor]
  cases hbest : bounds.foldl (fusedStep anchors slot) none with
  | none =>
      rw [hbest] at hlargest
      exact absurd hlargest hne
  | some b =>
      rw [hbest] at hlargest
      obtain ⟨hb, hall⟩ := hlargest
      refine ⟨_, rfl, b, hb, rfl, fun c hc => ?_⟩
      exact not_lt.mp ((h.key_lt hb hc (hchain b hb c hc)).not.mp (hall c hc).not_gt)

/-! ### Tightest -/

lemma OneChain.asTight (h : OneChain bs) (hb : b ∈ bs) (hc : c ∈ bs)
    (hbc : AsTight kind (boundKey true b) (boundKey true c)) :
    ∃ m n : ℕ, b.blockNumber = some m ∧ c.blockNumber = some n ∧ AsTight kind m n := by
  obtain ⟨m, hm⟩ := Option.isSome_iff_exists.mp (h.numbered b hb)
  obtain ⟨n, hn⟩ := Option.isSome_iff_exists.mp (h.numbered c hc)
  refine ⟨m, n, hm, hn, ?_⟩
  rwa [boundKey, boundKey, hm, hn] at hbc

/-- **Tightest.** Among orderly bounds the one selected is extreme in time, the latest not-before or
the earliest not-after, and its time is the same in every order of the list. Among numbered bounds
of one chain the block number decides, whatever the times. The fused floor of a slot is the latest
of the anchors before it, where these are orderly and of one chain. -/
theorem tightest_extreme {bounds : List FloorAwareBound} {kind : BoundKind}
    (hne : ofKind bounds kind ≠ []) :
    (Orderly (ofKind bounds kind) → ∃ b ∈ ofKind bounds kind, tightest bounds kind = some b ∧
      (∀ c ∈ ofKind bounds kind, AsTight kind b.timestamp c.timestamp) ∧
      ∀ bounds', bounds.Perm bounds' →
        ∃ b', tightest bounds' kind = some b' ∧ b'.timestamp = b.timestamp) ∧
    (OneChain (ofKind bounds kind) → ∃ b ∈ ofKind bounds kind, tightest bounds kind = some b ∧
      ∀ c ∈ ofKind bounds kind,
        ∃ m n : ℕ, b.blockNumber = some m ∧ c.blockNumber = some n ∧ AsTight kind m n) ∧
    ∀ anchors slotCounter slot, parseCounter (some slotCounter) = some slot →
      Orderly (beforeSlot bounds anchors slot) →
      (∀ a ∈ beforeSlot bounds anchors slot, ∀ b ∈ beforeSlot bounds anchors slot,
        a.chain = b.chain) → beforeSlot bounds anchors slot ≠ [] →
      ∃ floor, fusedFloor (some bounds) (some anchors) (some slotCounter) ANCHORED_CHAIN
          = some floor ∧
        ∃ b ∈ beforeSlot bounds anchors slot, floor.timestamp = b.timestamp ∧
          ∀ c ∈ beforeSlot bounds anchors slot, c.timestamp ≤ floor.timestamp := by
  refine ⟨fun h => ?_, fun h => ?_, fun anchors slotCounter slot hslot h hchain hsome =>
    fusedFloor_latest hslot h hchain hsome⟩
  · obtain ⟨b, hb, heq, hall⟩ := tightest_of_compares h.compares hne
    exact ⟨b, hb, heq, hall, fun bounds' hperm => tightest_perm h.compares heq hperm⟩
  · obtain ⟨b, hb, heq, hall⟩ := tightest_of_compares h.compares hne
    exact ⟨b, hb, heq, fun c hc => h.asTight hb hc (hall c hc)⟩

/-- A not-before bound of Ethereum. -/
def sampleBound (number : ℕ) (time : ℤ) : FloorAwareBound :=
  ⟨.notBefore, [], none, some number, [], time, false⟩

/-- Two Ethereum bounds and an earlier one from Base. -/
def sampleBounds : List FloorAwareBound :=
  [sampleBound 9 100, { sampleBound 500 90 with chain := some .base }, sampleBound 10 112]

/-- The three are orderly, and the one at time 112 is selected. -/
theorem tightest_sample : ofKind sampleBounds .notBefore ≠ [] ∧
    ∃ b ∈ ofKind sampleBounds .notBefore, tightest sampleBounds .notBefore = some b ∧
      b.timestamp = 112 := by
  have hne : ofKind sampleBounds .notBefore ≠ [] := by decide
  have h : Orderly (ofKind sampleBounds .notBefore) := ⟨by decide, by decide⟩
  obtain ⟨b, hb, heq, -⟩ := (tightest_extreme hne).1 h
  have hsel : tightest sampleBounds .notBefore = some (sampleBound 10 112) := by decide
  refine ⟨hne, b, hb, heq, ?_⟩
  obtain rfl := Option.some.inj (heq.symm.trans hsel)
  rfl

/-- Within a chain the larger block number is selected, at an earlier time than the other's. -/
theorem larger_number_first :
    ¬ ∀ bounds : List FloorAwareBound, ofKind bounds .notBefore ≠ [] →
      ∃ b, tightest bounds .notBefore = some b ∧
        ∀ c ∈ ofKind bounds .notBefore, c.timestamp ≤ b.timestamp := by
  intro h
  obtain ⟨b, hb, hall⟩ := h [sampleBound 9 100, sampleBound 10 50] (by decide)
  have hsel : tightest [sampleBound 9 100, sampleBound 10 50] .notBefore
      = some (sampleBound 10 50) := by decide
  obtain rfl := Option.some.inj (hb.symm.trans hsel)
  exact absurd (hall (sampleBound 9 100) (by decide)) (by decide)

end Player

end BitGraph
