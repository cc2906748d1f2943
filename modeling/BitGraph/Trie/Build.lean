import BitGraph.Trie

/-!
The builder makes the radix tree of its entries.

* **Maps.** `mapOf` is the map of a list of entries.
* **Steps.** `common_spec` for the shared beginning, `mapOf_group` for one way out of a branch,
  `valueAt_eq` for the value that stands at it.
* `isTree_buildNode`: the builder's node is the tree of the map of its entries behind the nibbles
  they share.
-/

namespace BitGraph

open Js Layout Radix

namespace Trie

/-! ### Maps -/

/-- The map of a list of entries. -/
def mapOf (entries : List Entry) (k : List Nibble) : Option Bytes :=
  (entries.find? fun e => e.key = k).map Entry.value

variable {entries : List Entry} {e : Entry} {k pre : List Nibble} {depth : ℕ}

lemma mapOf_ne_none_iff : mapOf entries k ≠ none ↔ ∃ e ∈ entries, e.key = k := by
  rw [mapOf, ne_eq, Option.map_eq_none_iff, List.find?_eq_none]
  push Not
  simp

lemma eq_of_mem_of_key {l : List Entry} (hl : (l.map Entry.key).Nodup) {e e' : Entry} (he : e ∈ l)
    (he' : e' ∈ l) (h : e.key = e'.key) : e = e' :=
  List.inj_on_of_nodup_map hl he he' h

lemma mapOf_of_mem (hl : (entries.map Entry.key).Nodup) (he : e ∈ entries) :
    mapOf entries e.key = some e.value := by
  cases hfind : entries.find? fun e' => e'.key = e.key with
  | none => exact absurd (decide_eq_true rfl) (List.find?_eq_none.mp hfind e he)
  | some e' =>
      have hkey : e'.key = e.key := by simpa using List.find?_some hfind
      rw [mapOf, hfind, Option.map_some,
        eq_of_mem_of_key hl (List.mem_of_find?_eq_some hfind) he hkey]

lemma behind_behind (J : List Nibble → Option Bytes) (p q : List Nibble) :
    behind (behind J p) q = behind J (p ++ q) :=
  funext fun k => congrArg J (List.append_assoc p q k).symm

/-- The words behind what all keys share are the rests of the keys. -/
lemma behind_ne_none_iff (hpre : ∀ e ∈ entries, pre <+: e.key) :
    behind (mapOf entries) pre k ≠ none ↔ ∃ e ∈ entries, e.key.drop pre.length = k := by
  rw [behind, mapOf_ne_none_iff]
  constructor
  · rintro ⟨e, he, hkey⟩
    exact ⟨e, he, by rw [hkey, List.drop_left]⟩
  · rintro ⟨e, he, rfl⟩
    obtain ⟨t, ht⟩ := hpre e he
    exact ⟨e, he, by rw [← ht, List.drop_left]⟩

/-! ### Steps -/

lemma common_le {rest : List Nibble} : ∀ {pos : ℕ}, common entries rest pos ≤ rest.length := by
  induction rest with
  | nil => exact fun {_} => le_rfl
  | cons n rest ih =>
      intro pos
      rw [common]
      split
      · exact Nat.succ_le_succ ih
      · exact Nat.zero_le _

/-- What all keys share from `pos` on, and no more. -/
lemma common_spec {rest : List Nibble} : ∀ {pos : ℕ},
    (∀ e ∈ entries, rest.take (common entries rest pos) <+: e.key.drop pos)
      ∧ ∀ q, q <+: rest → (∀ e ∈ entries, q <+: e.key.drop pos) →
        q.length ≤ common entries rest pos := by
  induction rest with
  | nil =>
      intro pos
      refine ⟨fun e _ => List.nil_prefix, fun q hq _ => ?_⟩
      rw [List.prefix_nil.mp hq]
      exact Nat.zero_le _
  | cons n rest ih =>
      intro pos
      have hdrop : ∀ e : Entry, e.key[pos]? = some n → e.key.drop pos = n :: e.key.drop (pos + 1) := by
        intro e he
        obtain ⟨hlt, hget⟩ := List.getElem?_eq_some_iff.mp he
        rw [List.drop_eq_getElem_cons hlt, hget]
      rw [common]
      split
      · next hall =>
          have hhere : ∀ e ∈ entries, e.key[pos]? = some n := fun e he =>
            of_decide_eq_true (List.all_eq_true.mp hall e he)
          obtain ⟨hshare, hmax⟩ := @ih (pos + 1)
          refine ⟨fun e he => ?_, fun q hq hqs => ?_⟩
          · rw [List.take_succ_cons, hdrop e (hhere e he)]
            exact List.cons_prefix_cons.mpr ⟨rfl, hshare e he⟩
          · cases q with
            | nil => exact Nat.zero_le _
            | cons a q =>
                refine Nat.succ_le_succ (hmax q (List.cons_prefix_cons.mp hq).2 fun e he => ?_)
                have hqe := hqs e he
                rw [hdrop e (hhere e he)] at hqe
                exact (List.cons_prefix_cons.mp hqe).2
      · next hall =>
          refine ⟨fun e _ => List.nil_prefix, fun q hq hqs => ?_⟩
          cases q with
          | nil => exact le_rfl
          | cons a q =>
              obtain rfl := (List.cons_prefix_cons.mp hq).1
              refine absurd (List.all_eq_true.mpr fun e he => decide_eq_true ?_) hall
              obtain ⟨t, ht⟩ := hqs e he
              rw [← List.head?_drop, ← ht]
              rfl

/-- One way out of a branch. -/
lemma mapOf_group (hdepth : pre.length = depth) (a : Nibble) :
    behind (mapOf (group entries depth a)) (pre ++ [a]) = behind (behind (mapOf entries) pre) [a] := by
  funext k
  rw [behind_behind, behind, behind, mapOf, mapOf, group, List.find?_filter]
  congr 2
  funext e
  rw [decide_eq_decide, decide_eq_true_eq, decide_eq_true_eq]
  refine ⟨And.right, fun hkey => ⟨?_, hkey⟩⟩
  rw [hkey, List.append_assoc, List.getElem?_append_right hdepth.le, hdepth, Nat.sub_self]
  rfl

lemma valueAt_foldl (value : Option Bytes) (hnone : ∀ e ∈ entries, e.key.length ≠ depth) :
    entries.foldl (fun value e => if e.key.length = depth then some e.value else value) value
      = value := by
  induction entries with
  | nil => rfl
  | cons e entries ih =>
      rw [List.foldl_cons, if_neg (hnone e List.mem_cons_self)]
      exact ih fun e' he' => hnone e' (List.mem_cons_of_mem _ he')

/-- The value at a branch is that of the shared nibbles themselves. -/
lemma valueAt_eq (hl : (entries.map Entry.key).Nodup) (hpre : ∀ e ∈ entries, pre <+: e.key)
    (hdepth : pre.length = depth) : valueAt entries depth = mapOf entries pre := by
  have hkey : ∀ e ∈ entries, e.key.length = depth → e.key = pre := fun e he hlen =>
    ((hpre e he).eq_of_length (hdepth.trans hlen.symm)).symm
  by_cases hnone : ∀ e ∈ entries, e.key.length ≠ depth
  · have hmap : mapOf entries pre = none := by
      by_contra hne
      obtain ⟨e, he, rfl⟩ := mapOf_ne_none_iff.mp hne
      exact hnone e he hdepth
    rw [valueAt, valueAt_foldl none hnone, hmap]
  · push Not at hnone
    obtain ⟨e, he, hlen⟩ := hnone
    obtain rfl := hkey e he hlen
    obtain ⟨l₁, l₂, rfl⟩ := List.append_of_mem he
    have hafter : ∀ e' ∈ l₂, e'.key.length ≠ depth := by
      intro e' he' hlen'
      have hsame := hkey e' (List.mem_append_right _ (List.mem_cons_of_mem _ he')) hlen'
      rw [List.map_append, List.map_cons] at hl
      refine (List.nodup_cons.mp (List.nodup_append.mp hl).2.1).1 ?_
      exact hsame ▸ List.mem_map_of_mem he'
    rw [mapOf_of_mem hl he, valueAt, List.foldl_append, List.foldl_cons, if_pos hlen,
      valueAt_foldl _ hafter]

/-! ### The builder -/

lemma many_behind (hl : (entries.map Entry.key).Nodup) (hpre : ∀ e ∈ entries, pre <+: e.key)
    {e e' : Entry} (he : e ∈ entries) (he' : e' ∈ entries) (hne : e ≠ e') :
    Many (behind (mapOf entries) pre) := by
  refine ⟨e.key.drop pre.length, e'.key.drop pre.length, fun h => hne ?_,
    (behind_ne_none_iff hpre).mpr ⟨e, he, rfl⟩, (behind_ne_none_iff hpre).mpr ⟨e', he', rfl⟩⟩
  obtain ⟨t, ht⟩ := hpre e he
  obtain ⟨t', ht'⟩ := hpre e' he'
  rw [← ht, ← ht', List.drop_left, List.drop_left] at h
  exact eq_of_mem_of_key hl he he' (by rw [← ht, ← ht', h])

/-- The beginning that the builder finds is the longest. -/
lemma longest_common {first : Entry} (hfirst : first ∈ entries)
    (hpre : ∀ e ∈ entries, pre <+: e.key) (hdepth : pre.length = depth) :
    Longest (behind (mapOf entries) pre)
      (field first.key depth (common entries (first.key.drop depth) depth)) := by
  obtain ⟨hshare, hmax⟩ := @common_spec entries (first.key.drop depth) depth
  constructor
  · intro k hk
    obtain ⟨e, he, rfl⟩ := (behind_ne_none_iff hpre).mp hk
    rw [hdepth]
    exact hshare e he
  · intro q hq
    have hall : ∀ e ∈ entries, q <+: e.key.drop depth := fun e he =>
      hdepth ▸ hq _ ((behind_ne_none_iff hpre).mpr ⟨e, he, rfl⟩)
    have hrest := hall first hfirst
    rw [field, List.prefix_take_iff]
    exact ⟨hrest, hmax q hrest hall⟩

/-- **The builder**: its node is the tree of its entries, behind the nibbles they share. -/
theorem isTree_buildNode : ∀ {fuel depth : ℕ} {entries : List Entry} {pre : List Nibble},
    entries ≠ [] → (entries.map Entry.key).Nodup → (∀ e ∈ entries, pre <+: e.key) →
    pre.length = depth → (∀ e ∈ entries, e.key.length < depth + fuel) →
    IsTree (behind (mapOf entries) pre) (buildNode fuel entries depth) := by
  intro fuel
  induction fuel with
  | zero =>
      intro depth entries pre hne _ hpre hdepth hfuel
      obtain ⟨e, he⟩ := List.exists_mem_of_ne_nil entries hne
      have hlen := (hpre e he).length_le
      have := hfuel e he
      omega
  | succ fuel ih =>
      intro depth entries pre hne hl hpre hdepth hfuel
      match entries, hne with
      | [e], _ =>
          obtain ⟨t, ht⟩ := hpre e (List.mem_singleton_self e)
          rw [buildNode]
          refine .leaf ?_ fun k hk => ?_
          · have hkey : pre ++ e.key.drop depth = e.key := by
              rw [← ht, ← hdepth, List.drop_left]
            rw [behind, hkey]
            exact mapOf_of_mem hl (List.mem_singleton_self e)
          · obtain ⟨e', he', rfl⟩ := (behind_ne_none_iff hpre).mp hk
            rw [List.mem_singleton.mp he', hdepth]
      | first :: second :: rest, hne =>
          have hfirst : first ∈ first :: second :: rest := List.mem_cons_self
          have hsecond : second ∈ first :: second :: rest :=
            List.mem_cons_of_mem _ List.mem_cons_self
          have hdiff : first ≠ second := by
            rintro rfl
            exact (List.nodup_cons.mp hl).1 List.mem_cons_self
          have hmany := many_behind hl hpre hfirst hsecond hdiff
          have hlongest := longest_common hfirst hpre hdepth
          rw [buildNode]
          generalize first :: second :: rest = entries at *
          generalize hn : common entries (first.key.drop depth) depth = n at *
          split
          · next hpos =>
              have hlen : (field first.key depth n).length = n := by
                have hle := @common_le entries (first.key.drop depth) depth
                rw [hn] at hle
                rw [field, List.length_take, Nat.min_eq_left hle]
              have hpath : ∀ e ∈ entries, pre ++ field first.key depth n <+: e.key := by
                intro e he
                have hshare := hlongest.1 _ ((behind_ne_none_iff hpre).mpr ⟨e, he, rfl⟩)
                obtain ⟨t, ht⟩ := hpre e he
                rw [← ht, List.drop_left] at hshare
                rw [← ht]
                exact (List.prefix_append_right_inj pre).mpr hshare
              refine .ext hmany (List.ne_nil_of_length_pos (by omega)) hlongest ?_
              rw [behind_behind]
              refine ih hne hl hpath (by rw [List.length_append, hlen, hdepth]) fun e he => ?_
              have := hfuel e he
              omega
          · next hzero =>
              have hnil : field first.key depth n = [] := by
                rw [show n = 0 by omega]
                rfl
              rw [hnil] at hlongest
              have hvalue : valueAt entries depth = behind (mapOf entries) pre [] := by
                rw [valueAt_eq hl hpre hdepth, behind, List.append_nil]
              rw [hvalue]
              refine .branch hmany hlongest fun a => ?_
              rw [← mapOf_group hdepth a]
              have hmem : ∀ e ∈ group entries depth a, e ∈ entries ∧ pre ++ [a] <+: e.key := by
                intro e he
                obtain ⟨hmem, hget⟩ := List.mem_filter.mp he
                obtain ⟨t, ht⟩ := hpre e hmem
                have hget' : e.key[depth]? = some a := of_decide_eq_true hget
                rw [← ht, List.getElem?_append_right hdepth.le, hdepth, Nat.sub_self] at hget'
                cases t with
                | nil => cases hget'
                | cons b t =>
                    obtain rfl : b = a := Option.some.inj hget'
                    exact ⟨hmem, t, by rw [← ht, List.append_assoc]; rfl⟩
              split
              · next hgroup =>
                  rw [hgroup]
                  exact .empty fun k => rfl
              · next hgroup =>
                  refine ih hgroup (hl.sublist ((List.filter_sublist).map _))
                    (fun e he => (hmem e he).2) (by rw [List.length_append, hdepth]; rfl)
                    fun e he => ?_
                  have := hfuel e (hmem e he).1
                  omega

end Trie

end BitGraph
