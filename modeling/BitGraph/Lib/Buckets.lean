import BitGraph.Lib.OrderedMap
import Mathlib.Data.List.Perm.Basic

/-!
Sorting by buckets.

* `collect key l`: the elements of a list, each in the bucket of its key; `get_collect` says what a bucket
  holds, and `collect_keys` which buckets there are.
* `bucketSort key le l`: the buckets in the order of their keys, each sorted on its own.
* `bucketSort_perm`: it is a permutation; `bucketSort_pairwise`: where an element of a lower key is below,
  it is in order.
-/

namespace Buckets

open OrderedMap

variable {α : Type*} (key : α → ℕ) (le : α → α → Bool)

/-- Every element in the bucket of its key. -/
def collect (l : List α) : OrderedMap ℕ (List α) := l.foldl (fun m x => push m (key x) x) []

/-- The buckets in the order of their keys, sorted where they hold two elements. -/
def bucketSort (l : List α) : List α :=
  (((collect key l).map Prod.fst).mergeSort fun j k => decide (j ≤ k)).flatMap fun k =>
    let b := ((collect key l).get k).getD []
    if 1 < b.length then b.mergeSort le else b

variable {key le} {l : List α} {k : ℕ} {x : α}

lemma get_collect : ((collect key l).get k).getD [] = l.filter fun x => key x = k := by
  rw [collect, get_foldl_push]
  by_cases h : (l.filter fun x => key x = k) = []
  · rw [if_pos h, h]
    rfl
  · rw [if_neg h]
    rfl

lemma keyed_collect : Keyed (collect key l) :=
  keyed_foldl (fun _ _ h => h.set _ _) l keyed_nil

lemma mem_collect_keys (h : x ∈ l) : key x ∈ (collect key l).map Prod.fst := by
  have hne : (l.filter fun y => key y = key x) ≠ [] :=
    List.ne_nil_of_mem (List.mem_filter.mpr ⟨h, by simp⟩)
  rw [mem_fst_iff, collect, get_foldl_push, if_neg hne]
  exact ⟨_, rfl⟩

/-- The keys in order, each once. -/
lemma pairwise_keys {ks : List ℕ} (h : ks.Nodup) :
    (ks.mergeSort fun j k => decide (j ≤ k)).Pairwise (· < ·) := by
  have hle := @List.pairwise_mergeSort ℕ (fun j k => decide (j ≤ k))
    (fun a b c hab hbc => decide_eq_true (Nat.le_trans (of_decide_eq_true hab) (of_decide_eq_true hbc)))
    (fun a b => by simpa using Nat.le_total a b) ks
  have hne := (List.mergeSort_perm ks fun j k => decide (j ≤ k)).nodup_iff.mpr h
  exact (hle.and hne).imp fun ⟨hjk, hne⟩ => Nat.lt_of_le_of_ne (of_decide_eq_true hjk) hne

/-- A list is its parts, taken key by key. -/
lemma perm_flatMap_filter {ks : List ℕ} (hks : ks.Nodup) (h : ∀ x ∈ l, key x ∈ ks) :
    (ks.flatMap fun k => l.filter fun x => key x = k).Perm l := by
  induction ks generalizing l with
  | nil =>
      rw [List.eq_nil_iff_forall_not_mem.mpr fun x hx => List.not_mem_nil (h x hx)]
      exact List.Perm.refl []
  | cons k ks ih =>
      obtain ⟨hk, hks⟩ := List.nodup_cons.mp hks
      have hrest : ∀ x ∈ l.filter (fun x => !decide (key x = k)), key x ∈ ks := by
        intro x hx
        obtain ⟨hx, hne⟩ := List.mem_filter.mp hx
        exact (List.mem_cons.mp (h x hx)).resolve_left (by simpa using hne)
      have hsame : ∀ j ∈ ks, ((l.filter fun x => !decide (key x = k)).filter fun x => key x = j)
          = l.filter fun x => key x = j := by
        intro j hj
        rw [List.filter_filter]
        refine List.filter_congr fun x _ => ?_
        by_cases hx : key x = j
        · have hne : j ≠ k := fun hjk => hk (hjk ▸ hj)
          simp [hx, hne]
        · simp [hx]
      rw [List.flatMap_cons]
      refine (List.Perm.append_left _ ?_).trans (List.filter_append_perm (fun x => decide (key x = k)) l)
      rw [← List.flatMap_congr hsame]
      exact ih hks hrest

/-- The buckets, sorted or not. -/
lemma bucketSort_eq_flatMap : bucketSort key le l
    = (((collect key l).map Prod.fst).mergeSort fun j k => decide (j ≤ k)).flatMap fun k =>
        (l.filter fun x => key x = k).mergeSort le := by
  rw [bucketSort]
  refine List.flatMap_congr fun k _ => ?_
  dsimp only
  rw [get_collect]
  split
  · rfl
  · next h =>
    have hlen : (l.filter fun x => key x = k).length ≤ 1 := Nat.not_lt.mp h
    match hl : l.filter fun x => key x = k with
    | [] => rw [List.mergeSort_nil]
    | [x] => rw [List.mergeSort_singleton]
    | x :: y :: t => rw [hl] at hlen; simp at hlen

theorem bucketSort_perm : (bucketSort key le l).Perm l := by
  rw [bucketSort_eq_flatMap]
  have hkeys := List.mergeSort_perm ((collect key l).map Prod.fst) fun j k => decide (j ≤ k)
  refine (List.Perm.flatMap_left _ fun k _ => List.mergeSort_perm _ le).trans ?_
  exact perm_flatMap_filter (hkeys.nodup_iff.mpr keyed_collect)
    fun x hx => hkeys.mem_iff.mpr (mem_collect_keys hx)

/-- Where an element of a lower key is below, the buckets in a row are in order. -/
theorem bucketSort_pairwise (trans : ∀ x y z, le x y = true → le y z = true → le x z = true)
    (total : ∀ x y, (le x y || le y x) = true) (lower : ∀ x ∈ l, ∀ y ∈ l, key x < key y → le x y = true) :
    (bucketSort key le l).Pairwise fun x y => le x y = true := by
  rw [bucketSort_eq_flatMap, List.pairwise_flatMap]
  refine ⟨fun k _ => List.pairwise_mergeSort trans total _, ?_⟩
  refine (pairwise_keys keyed_collect).imp fun hjk x hx y hy => ?_
  obtain ⟨hxl, hxk⟩ := List.mem_filter.mp (List.mem_mergeSort.mp hx)
  obtain ⟨hyl, hyk⟩ := List.mem_filter.mp (List.mem_mergeSort.mp hy)
  exact lower x hxl y hyl (by rwa [of_decide_eq_true hxk, of_decide_eq_true hyk])

end Buckets
