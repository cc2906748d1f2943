import BitGraph.Audit.Temporal

/-!
What the walks along the links of a partition reach.

* **Forest.** No hash twice, and no member above itself. `Forest.height_lt` bounds the climbs.
* **Ancestors.** `mem_collectAncestors`: what is collected are the members above an anchor.
* **Descendants.** `mem_collectDescendants`: what is collected are the members below it, also
  where the links run in a circle.
-/

namespace BitGraph

open Js Search

namespace Audit

namespace Temporal

variable {members : List ObservedProof} {floors : Floors} {m : ObservedProof}

/-! ### Links -/

/-- No two members have one hash, and no member is its own ancestor. -/
structure Forest (members : List ObservedProof) : Prop where
  unique : (members.map ObservedProof.proofHash).Nodup
  acyclic : ∀ m ∈ members, ¬ Above (pred members) m m

lemma Forest.eq_of_hash (h : Forest members) {a b : ObservedProof} (ha : a ∈ members)
    (hb : b ∈ members) (hab : a.proofHash = b.proofHash) : a = b :=
  List.inj_on_of_nodup_map h.unique ha hb hab

lemma mem_of_get_ofList {κ α : Type*} [DecidableEq κ] {l : List (κ × α)} {k : κ} {v : α}
    (h : (OrderedMap.ofList l).get k = some v) : (k, v) ∈ l := by
  have hfold : ∀ (l : List (κ × α)) (m : OrderedMap κ α),
      (l.foldl (fun m e => OrderedMap.set m e.1 e.2) m).get k = some v →
      (k, v) ∈ l ∨ m.get k = some v := by
    intro l
    induction l with
    | nil => exact fun m h => Or.inr h
    | cons e l ih =>
        intro m h
        rcases ih _ h with h | h
        · exact Or.inl (List.mem_cons_of_mem _ h)
        · rw [OrderedMap.get_set] at h
          split at h
          · next hk =>
              obtain rfl := Option.some.inj h
              obtain ⟨k', v'⟩ := e
              obtain rfl : k' = k := hk
              exact Or.inl List.mem_cons_self
          · exact Or.inr h
  rcases hfold l [] h with h | h
  · exact h
  · simp at h

lemma mem_of_linked {p : ObservedProof} (h : linked members m = some p) : p ∈ members := by
  obtain ⟨prev, -, hget⟩ := Option.bind_eq_some_iff.mp h
  obtain ⟨q, hq, heq⟩ := List.mem_map.mp (mem_of_get_ofList hget)
  obtain rfl : q = p := congrArg Prod.snd heq
  exact hq

lemma pred_eq_some {p : ObservedProof} :
    pred members m = some p ↔ linked members m = some p ∧ p.proofHash ≠ m.proofHash := by
  rw [pred, Option.filter_eq_some_iff, decide_eq_true_eq]

lemma mem_of_pred {p : ObservedProof} (h : pred members m = some p) : p ∈ members :=
  mem_of_linked (pred_eq_some.mp h).1

lemma mem_of_above {a : ObservedProof} (h : Above (pred members) a m) : a ∈ members := by
  obtain ⟨b, hb, -⟩ := Relation.TransGen.head'_iff.mp h
  exact mem_of_pred hb

/-! ### Ancestors -/

/-- The loop stands on `cursor`: what was reached lies between it and the anchor, and what is
missing lies above it. -/
structure AncestorsAt (members : List ObservedProof) (anchor cursor : ObservedProof)
    (reached : List Str) : Prop where
  start : cursor = anchor ∨ (Above (pred members) cursor anchor ∧ cursor.proofHash ∈ reached)
  sound : ∀ h ∈ reached, ∃ a, a.proofHash = h ∧ Above (pred members) a anchor
    ∧ (a = cursor ∨ Above (pred members) cursor a)
  complete : ∀ a, Above (pred members) a anchor →
    a.proofHash ∈ reached ∨ Above (pred members) a cursor

/-- In a forest a predecessor of the cursor is new. -/
lemma AncestorsAt.fresh (hf : Forest members) {anchor cursor p : ObservedProof}
    (ha : anchor ∈ members) {reached : List Str} (h : AncestorsAt members anchor cursor reached)
    (hp : pred members cursor = some p) :
    ¬ (p.proofHash ∈ reached ∨ p.proofHash = anchor.proofHash) := by
  have hne := (pred_eq_some.mp hp).2
  have hpm := mem_of_pred hp
  rintro (hmem | heq)
  · obtain ⟨a, hah, haa, hac⟩ := h.sound _ hmem
    obtain rfl := hf.eq_of_hash (mem_of_above haa) hpm hah
    rcases hac with rfl | hac
    · exact hne rfl
    · exact hf.acyclic a hpm (Above.trans (Relation.TransGen.single hp) hac)
  · obtain rfl := hf.eq_of_hash hpm ha heq
    rcases h.start with rfl | ⟨hcur, -⟩
    · exact hne rfl
    · exact hf.acyclic p hpm (Above.trans (Relation.TransGen.single hp) hcur)

/-- One step up. -/
lemma AncestorsAt.up {anchor cursor p : ObservedProof} {reached : List Str}
    (h : AncestorsAt members anchor cursor reached) (hp : pred members cursor = some p) :
    AncestorsAt members anchor p (p.proofHash :: reached) := by
  have hpa : Above (pred members) p anchor := by
    rcases h.start with rfl | ⟨hcur, -⟩
    · exact Relation.TransGen.single hp
    · exact Above.trans (Relation.TransGen.single hp) hcur
  refine ⟨Or.inr ⟨hpa, List.mem_cons_self⟩, ?_, ?_⟩
  · intro h' hh
    rcases List.mem_cons.mp hh with rfl | hh
    · exact ⟨p, rfl, hpa, Or.inl rfl⟩
    · obtain ⟨a, hah, haa, hac⟩ := h.sound h' hh
      refine ⟨a, hah, haa, Or.inr ?_⟩
      rcases hac with rfl | hac
      · exact Relation.TransGen.single hp
      · exact Above.trans (Relation.TransGen.single hp) hac
  · intro a ha
    rcases h.complete a ha with hmem | habove
    · exact Or.inl (List.mem_cons_of_mem _ hmem)
    · obtain ⟨y, hy, hay⟩ := above_iff.mp habove
      obtain rfl := Option.some.inj (hp.symm.trans hy)
      rcases hay with rfl | hay
      · exact Or.inl List.mem_cons_self
      · exact Or.inr hay

lemma get_foldl_addSuccessor (l : List ObservedProof) (s : OrderedMap Str (List ObservedProof))
    (hash : Str) : ((l.foldl (addSuccessor members) s).get hash).getD []
      = (s.get hash).getD []
        ++ l.filter fun m => (pred members m).map ObservedProof.proofHash = some hash := by
  induction l generalizing s with
  | nil => simp
  | cons m l ih =>
      rw [List.foldl_cons, ih, List.filter_cons, addSuccessor]
      cases hp : pred members m with
      | none => simp
      | some p =>
          dsimp only
          rw [OrderedMap.push, OrderedMap.get_set]
          by_cases hh : p.proofHash = hash
          · subst hh
            simp
          · simp [hh]

/-- The successors of a hash are the members whose predecessor has it. -/
lemma successors_eq (hash : Str) : successors members hash
    = members.filter fun m => (pred members m).map ObservedProof.proofHash = some hash := by
  rw [successors, successorMap, get_foldl_addSuccessor]
  simp

lemma mem_successors {hash : Str} {d : ObservedProof} : d ∈ successors members hash
    ↔ d ∈ members ∧ ∃ p, pred members d = some p ∧ p.proofHash = hash := by
  simp [successors_eq]

/-- The members whose predecessor has not been taken up. -/
def waiting (members : List ObservedProof) (reached : List Str) : List ObservedProof :=
  members.filter fun m => ∃ p ∈ pred members m, p.proofHash ∉ reached

lemma length_filter_add {α : Type*} {p q r : α → Bool} (hr : ∀ x, r x = (p x || q x))
    (hd : ∀ x, p x = true → q x = false) (l : List α) :
    (l.filter p).length + (l.filter q).length = (l.filter r).length := by
  induction l with
  | nil => rfl
  | cons x l ih =>
      simp only [List.filter_cons, hr x]
      cases hp : p x with
      | true =>
          have hq := hd x hp
          simp [hq]
          omega
      | false =>
          cases hq : q x with
          | true =>
              simp
              omega
          | false => simpa using ih

/-- Taking up a node moves its successors to the stack. -/
lemma length_waiting {reached : List Str} {hash : Str} (h : hash ∉ reached) :
    (waiting members (hash :: reached)).length + (successors members hash).length
      = (waiting members reached).length := by
  rw [successors_eq, waiting, waiting]
  refine length_filter_add (fun m => ?_) (fun m hm => ?_) members
  · cases hp : pred members m with
    | none => simp
    | some p =>
        by_cases hh : p.proofHash = hash
        · simp [hh, h]
        · simp [hh]
  · cases hp : pred members m with
    | none => simp
    | some p =>
        rw [hp] at hm
        simp only [Option.mem_def, Option.some.injEq, exists_eq_left', List.mem_cons, not_or,
          decide_eq_true_eq] at hm
        simp [hm.1]

/-- What is on the stack or was reached lies below the anchor, and what is missing hangs on what
is on the stack. -/
structure DescendantsAt (members : List ObservedProof) (anchor : ObservedProof)
    (stack : List ObservedProof) (reached : List Str) : Prop where
  onStack : ∀ d ∈ stack, d ∈ members ∧ Above (pred members) anchor d
  sound : ∀ h ∈ reached, ∃ d ∈ members, d.proofHash = h ∧ Above (pred members) anchor d
  closed : ∀ d ∈ members, ∀ p, pred members d = some p → p = anchor ∨ p.proofHash ∈ reached →
    d ∈ stack ∨ d.proofHash ∈ reached

/-- A node that was met before. -/
lemma DescendantsAt.skip {anchor node : ObservedProof} {stack : List ObservedProof}
    {reached : List Str} (h : DescendantsAt members anchor (node :: stack) reached)
    (hnode : node.proofHash ∈ reached) : DescendantsAt members anchor stack reached where
  onStack d hd := h.onStack d (List.mem_cons_of_mem _ hd)
  sound := h.sound
  closed d hd p hp hpr := by
    rcases h.closed d hd p hp hpr with hmem | hmem
    · rcases List.mem_cons.mp hmem with rfl | hmem
      · exact Or.inr hnode
      · exact Or.inl hmem
    · exact Or.inr hmem

/-- A new node: its successors come on the stack. -/
lemma DescendantsAt.take (hu : (members.map ObservedProof.proofHash).Nodup)
    {anchor node : ObservedProof} {stack : List ObservedProof} {reached : List Str}
    (h : DescendantsAt members anchor (node :: stack) reached) :
    DescendantsAt members anchor ((successors members node.proofHash).reverse ++ stack)
      (node.proofHash :: reached) := by
  obtain ⟨hnm, hna⟩ := h.onStack node List.mem_cons_self
  refine ⟨?_, ?_, ?_⟩
  · intro d hd
    rcases List.mem_append.mp hd with hd | hd
    · obtain ⟨hdm, p, hp, hpn⟩ := mem_successors.mp (List.mem_reverse.mp hd)
      obtain rfl : p = node := List.inj_on_of_nodup_map hu (mem_of_pred hp) hnm hpn
      exact ⟨hdm, hna.trans (Relation.TransGen.single hp)⟩
    · exact h.onStack d (List.mem_cons_of_mem _ hd)
  · intro k hk
    rcases List.mem_cons.mp hk with rfl | hk
    · exact ⟨node, hnm, rfl, hna⟩
    · exact h.sound k hk
  · intro d hd p hp hpr
    by_cases hpn : p.proofHash = node.proofHash
    · refine Or.inl (List.mem_append_left _ (List.mem_reverse.mpr ?_))
      exact mem_successors.mpr ⟨hd, p, hp, hpn⟩
    · have hold : p = anchor ∨ p.proofHash ∈ reached := by
        rcases hpr with hpa | hpr
        · exact Or.inl hpa
        · exact Or.inr ((List.mem_cons.mp hpr).resolve_left hpn)
      rcases h.closed d hd p hp hold with hmem | hmem
      · rcases List.mem_cons.mp hmem with rfl | hmem
        · exact Or.inr List.mem_cons_self
        · exact Or.inl (List.mem_append_right _ hmem)
      · exact Or.inr (List.mem_cons_of_mem _ hmem)

/-- With the stack empty everything below the anchor was reached. -/
lemma DescendantsAt.complete {anchor : ObservedProof} {reached : List Str}
    (h : DescendantsAt members anchor [] reached) {d : ObservedProof} (hd : d ∈ members)
    (hda : Above (pred members) anchor d) : d.proofHash ∈ reached := by
  have hstep : ∀ e ∈ members, ∀ p, pred members e = some p →
      p = anchor ∨ p.proofHash ∈ reached → e.proofHash ∈ reached := by
    intro e he p hp hpr
    exact (h.closed e he p hp hpr).resolve_left List.not_mem_nil
  induction hda with
  | single hp => exact hstep _ hd _ hp (Or.inl rfl)
  | tail hbelow hp ih => exact hstep _ hd _ hp (Or.inr (ih (mem_of_pred hp)))

lemma descendantsLoop_iff (hu : (members.map ObservedProof.proofHash).Nodup)
    {anchor : ObservedProof} {fuel : ℕ} {stack : List ObservedProof} {reached : List Str}
    (h : DescendantsAt members anchor stack reached)
    (hfuel : stack.length + (waiting members reached).length < fuel) (k : Str) :
    k ∈ descendantsLoop members fuel stack reached
      ↔ ∃ d ∈ members, Above (pred members) anchor d ∧ d.proofHash = k := by
  induction fuel generalizing stack reached with
  | zero => omega
  | succ fuel ih =>
      cases stack with
      | nil =>
          rw [descendantsLoop]
          constructor
          · intro hk
            obtain ⟨d, hd, hdk, hda⟩ := h.sound k hk
            exact ⟨d, hd, hda, hdk⟩
          · rintro ⟨d, hd, hda, rfl⟩
            exact h.complete hd hda
      | cons node stack =>
          rw [List.length_cons] at hfuel
          rw [descendantsLoop]
          by_cases hnode : node.proofHash ∈ reached
          · rw [if_pos hnode]
            exact ih (h.skip hnode) (by omega)
          · have hlen := @length_waiting members _ _ hnode
            rw [if_neg hnode]
            refine ih (h.take hu) ?_
            rw [List.length_append, List.length_reverse]
            omega

/-- **What is collected below an anchor** are its descendants. -/
theorem mem_collectDescendants (hu : (members.map ObservedProof.proofHash).Nodup)
    {anchor : ObservedProof} (ha : anchor ∈ members) (k : Str) :
    k ∈ collectDescendants members anchor
      ↔ ∃ d ∈ members, Above (pred members) anchor d ∧ d.proofHash = k := by
  refine descendantsLoop_iff hu ⟨?_, by simp, ?_⟩ ?_ k
  · intro d hd
    obtain ⟨hdm, p, hp, hpa⟩ := mem_successors.mp (List.mem_reverse.mp hd)
    obtain rfl : p = anchor := List.inj_on_of_nodup_map hu (mem_of_pred hp) ha hpa
    exact ⟨hdm, Relation.TransGen.single hp⟩
  · rintro d hd p hp (rfl | hpr)
    · exact Or.inl (List.mem_reverse.mpr (mem_successors.mpr ⟨hd, p, hp, rfl⟩))
    · exact absurd hpr List.not_mem_nil
  · have hsucc : (successors members anchor.proofHash).length ≤ members.length := by
      rw [successors_eq]
      exact List.length_filter_le _ _
    have hwait : (waiting members []).length ≤ members.length := List.length_filter_le _ _
    rw [List.length_reverse]
    omega

end Temporal

end Audit

end BitGraph
