import Mathlib.Data.List.Sort
import BitGraph.Js.JsonText

/-!
`canonical.ts`: canonical JSON.

`canonicalize` rebuilds a value with the keys of every object sorted, writes it with
`JSON.stringify` and encodes the text.

* **Program.** `sortedReplacer`, `canonicalizeToString`, `canonicalize`. The rebuilt object is
  filled by assignment, in sorted order; its own order of properties is the language's.
* **Equality up to key order.** `Value.norm` sorts the members of every object and drops the
  sign of zeros; two values are the same up to key order when their normal forms are equal.
* **Faithfulness.** `canonicalize_faithful`: the text of a value with finite numbers and no
  member `__proto__` parses back to the value, with its keys in order, and belongs to no
  other value. `canonicalize_unfaithful` shows what each condition is for.
-/

namespace BitGraph

open Js

/-! ### The program -/

/-- Two members, by the code units of their keys: the order of `Array.prototype.sort`. -/
def keyLe {α : Type*} (a b : Str × α) : Prop := a.1 ≤ b.1

instance {α : Type*} : DecidableRel (keyLe (α := α)) := fun a b =>
  inferInstanceAs (Decidable (a.1 ≤ b.1))

/-- The loop over the sorted keys: each child was rebuilt, was `undefined`, or threw. -/
def assignSorted : List (Str × Except Thrown (Option Value)) → Fields → Except Thrown Fields
  | [], sorted => .ok sorted
  | (_, .error e) :: _, _ => .error e
  | (_, .ok none) :: l, sorted => assignSorted l sorted
  | (key, .ok (some child)) :: l, sorted => assignSorted l (sorted.assign key child)

mutual

/-- Rebuild a value with the keys of its objects sorted. -/
def sortedReplacer : Value → Except Thrown Value
  | .undefined => .error (typeError (js
      "bitgraph-core/canonical: undefined values are not serializable to canonical JSON"))
  | .function => .error (typeError (js
      "bitgraph-core/canonical: function values are not serializable to canonical JSON"))
  | .symbol => .error (typeError (js
      "bitgraph-core/canonical: symbol values are not serializable to canonical JSON"))
  | .bigint _ => .error (typeError (js
      ("bitgraph-core/canonical: BigInt values are not serializable to canonical JSON; " ++
        "convert to string (decimal) before canonicalizing")))
  | .arr l => do return .arr (← sortedElements l)
  | .obj l => do
      return .obj (← assignSorted ((sortedChildren l).insertionSort keyLe) [])
  | v => .ok v

/-- `value.map(sortedReplacer)`. -/
def sortedElements : List Value → Except Thrown (List Value)
  | [] => .ok []
  | v :: l => do
      let w ← sortedReplacer v
      let m ← sortedElements l
      return w :: m

/-- Each key with its child rebuilt, `none` for a child left out. -/
def sortedChildren : Fields → List (Str × Except Thrown (Option Value))
  | [] => []
  | (k, .undefined) :: l => (k, .ok none) :: sortedChildren l
  | (k, v) :: l => (k, (sortedReplacer v).map some) :: sortedChildren l

end

/-- The canonical text, absent where `JSON.stringify` returns `undefined`. -/
def canonicalizeToString (v : Value) : Except Thrown (Option Str) := do
  let sorted ← sortedReplacer v
  match sorted.stringify with
  | .ok t => return t
  | .error _ => throw (typeError (js "Do not know how to serialize a BigInt"))

/-- The canonical bytes. -/
def canonicalize (v : Value) : Except Thrown Bytes := do
  let json ← canonicalizeToString v
  return utf8Encode (json.getD [])

end BitGraph

/-! ### Equality up to key order -/

namespace Js.Value

open BitGraph

mutual

/-- The normal form of a value up to the order of members and the sign of zeros. -/
def norm : Value → Value
  | .num (.fin d) => .num (.fin d.posZero)
  | .arr l => .arr (normList l)
  | .obj l => .obj ((normFields l).insertionSort keyLe)
  | v => v

def normList : List Value → List Value
  | [] => []
  | v :: l => norm v :: normList l

def normFields : Fields → Fields
  | [] => []
  | (k, v) :: l => (k, norm v) :: normFields l

end

mutual

/-- No object has a member of key `k`. -/
def lacksKey (k : Str) : Value → Bool
  | .arr l => lacksKeyList k l
  | .obj l => lacksKeyFields k l
  | _ => true

def lacksKeyList (k : Str) : List Value → Bool
  | [] => true
  | v :: l => lacksKey k v && lacksKeyList k l

def lacksKeyFields (k : Str) : Fields → Bool
  | [] => true
  | (j, v) :: l => (j != k) && lacksKey k v && lacksKeyFields k l

end

/-- The key of an earlier member against a later one: an array index is followed by
anything, another key only by greater keys that are no array indices. -/
def KeyAscends (a b : Str × Value) : Prop :=
  arrayIndex? a.1 ≠ none ∨ (arrayIndex? b.1 = none ∧ a.1 < b.1)

instance : DecidableRel KeyAscends := fun a b => by
  unfold KeyAscends
  infer_instance

mutual

/-- In every object the members come with ascending keys. -/
def keysAscend : Value → Bool
  | .arr l => keysAscendList l
  | .obj l => decide (l.Pairwise KeyAscends) && keysAscendFields l
  | _ => true

def keysAscendList : List Value → Bool
  | [] => true
  | v :: l => keysAscend v && keysAscendList l

def keysAscendFields : Fields → Bool
  | [] => true
  | (_, v) :: l => keysAscend v && keysAscendFields l

end

mutual

/-- The value `sortedReplacer` rebuilds. -/
def sorted : Value → Value
  | .arr l => .arr (sortedList l)
  | .obj l => .obj (((sortedFields l).insertionSort keyLe).foldl
      (fun (acc : Fields) m => acc.assign m.1 m.2) [])
  | v => v

def sortedList : List Value → List Value
  | [] => []
  | v :: l => sorted v :: sortedList l

def sortedFields : Fields → Fields
  | [] => []
  | (k, v) :: l => (k, sorted v) :: sortedFields l

end

lemma normList_eq (l : List Value) : normList l = l.map norm := by
  induction l with
  | nil => rfl
  | cons v l ih => rw [normList, ih, List.map_cons]

lemma normFields_eq (l : Fields) : normFields l = l.map fun m => (m.1, norm m.2) := by
  induction l with
  | nil => rfl
  | cons m l ih => rw [normFields, ih, List.map_cons]

lemma sortedList_eq (l : List Value) : sortedList l = l.map sorted := by
  induction l with
  | nil => rfl
  | cons v l ih => rw [sortedList, ih, List.map_cons]

lemma sortedFields_eq (l : Fields) : sortedFields l = l.map fun m => (m.1, sorted m.2) := by
  induction l with
  | nil => rfl
  | cons m l ih => rw [sortedFields, ih, List.map_cons]

lemma lacksKeyList_iff {k : Str} {l : List Value} :
    lacksKeyList k l = true ↔ ∀ v ∈ l, lacksKey k v = true := by
  induction l with
  | nil => simp [lacksKeyList]
  | cons v l ih => simp [lacksKeyList, ih]

lemma lacksKeyFields_iff {k : Str} {l : Fields} :
    lacksKeyFields k l = true ↔ ∀ m ∈ l, m.1 ≠ k ∧ lacksKey k m.2 = true := by
  induction l with
  | nil => simp [lacksKeyFields]
  | cons m l ih => simp [lacksKeyFields, ih, and_assoc]

lemma keysAscendList_iff {l : List Value} :
    keysAscendList l = true ↔ ∀ v ∈ l, keysAscend v = true := by
  induction l with
  | nil => simp [keysAscendList]
  | cons v l ih => simp [keysAscendList, ih]

lemma keysAscendFields_iff {l : Fields} :
    keysAscendFields l = true ↔ ∀ m ∈ l, keysAscend m.2 = true := by
  induction l with
  | nil => simp [keysAscendFields]
  | cons m l ih => simp [keysAscendFields, ih]

end Js.Value

namespace BitGraph

open Js Value

/-! ### Sorting members -/

section Sorting

variable {α β : Type*}

instance : Std.Total (keyLe (α := α)) := ⟨fun a b => List.le_total a.1 b.1⟩

instance : IsTrans (Str × α) keyLe := ⟨fun _ _ _ h h' => List.le_trans h h'⟩

/-- Sorting looks at keys only. -/
lemma map_sort (f : Str × α → β) (l : List (Str × α)) :
    (l.insertionSort keyLe).map (fun m => (m.1, f m))
      = (l.map fun m => (m.1, f m)).insertionSort keyLe :=
  List.map_insertionSort _ _ _ _ fun _ _ _ _ => Iff.rfl

/-- Lists of members with distinct keys that are permutations sort alike. -/
lemma sort_eq_of_perm {l m : List (Str × α)} (h : l.Perm m) (hn : (l.map Prod.fst).Nodup) :
    l.insertionSort keyLe = m.insertionSort keyLe := by
  have hl := List.perm_insertionSort keyLe l
  have hm := List.perm_insertionSort keyLe m
  refine List.Perm.eq_of_pairwise (fun a b ha hb hab hba => ?_)
    (List.pairwise_insertionSort keyLe l) (List.pairwise_insertionSort keyLe m)
    (hl.trans (h.trans hm.symm))
  exact List.inj_on_of_nodup_map hn (hl.subset ha) ((hm.trans h.symm).subset hb)
    (List.le_antisymm hab hba)

/-- Sorted members with distinct keys have strictly ascending keys. -/
lemma sort_strict {l : List (Str × α)} (hn : (l.map Prod.fst).Nodup) :
    (l.insertionSort keyLe).Pairwise fun a b => a.1 < b.1 := by
  have hp := List.perm_insertionSort keyLe l
  have hn' : ((l.insertionSort keyLe).map Prod.fst).Nodup := (hp.map Prod.fst).nodup_iff.mpr hn
  refine (List.pairwise_insertionSort keyLe l).imp₂ (fun a b hab hne => ?_)
    (List.pairwise_map.mp hn')
  by_contra hlt
  exact hne (List.le_antisymm hab (List.not_lt.mp hlt))

end Sorting

/-! ### The rebuilt value -/

lemma assignSorted_ok (l : Fields) (acc : Fields) :
    assignSorted (l.map fun m => (m.1, .ok (some m.2))) acc
      = .ok (l.foldl (fun (acc : Fields) m => acc.assign m.1 m.2) acc) := by
  induction l generalizing acc with
  | nil => rfl
  | cons m l ih => exact ih _

/-- On what parsing produces, `sortedReplacer` does not throw. -/
lemma sortedReplacer_eq {v : Value} (h : v.isJson = true) : sortedReplacer v = .ok v.sorted := by
  induction v using Value.ind with
  | undefined | bigint | symbol | function => simp [isJson] at h
  | null | bool | num | str => rfl
  | arr l ih =>
      rw [isJson, isJsonList_iff] at h
      have hl : sortedElements l = .ok (sortedList l) := by
        induction l with
        | nil => rfl
        | cons v l ihl =>
            rw [sortedElements, ih v (by simp) (h v (by simp)),
              ihl (fun w hw => ih w (by simp [hw])) fun w hw => h w (by simp [hw])]
            rfl
      rw [sortedReplacer, hl]
      rfl
  | obj l ih =>
      rw [isJson, Bool.and_eq_true, isJsonFields_iff] at h
      have hl : sortedChildren l = (sortedFields l).map fun m => (m.1, .ok (some m.2)) := by
        obtain ⟨-, h⟩ := h
        induction l with
        | nil => rfl
        | cons m l ihl =>
            obtain ⟨k, v⟩ := m
            have hv := h (k, v) (by simp)
            have hne : v ≠ .undefined := by
              rintro rfl
              simp [isJson] at hv
            rw [sortedChildren, ih (k, v) (by simp) hv,
              ihl (fun w hw => ih w (by simp [hw])) fun w hw => h w (by simp [hw])]
            · rfl
            · exact hne
      rw [sortedReplacer, hl, ← map_sort (fun m => Except.ok (some m.2)), assignSorted_ok]
      rfl

/-- Without a member `__proto__` assignment defines properties. -/
lemma foldl_assign {l : Fields} (h : ∀ m ∈ l, m.1 ≠ js "__proto__") (acc : Fields) :
    l.foldl (fun (acc : Fields) m => acc.assign m.1 m.2) acc
      = l.foldl (fun (acc : Fields) m => acc.setProp m.1 m.2) acc := by
  induction l generalizing acc with
  | nil => rfl
  | cons m l ih =>
      rw [List.foldl_cons, List.foldl_cons, Fields.assign, if_neg (h m (by simp)),
        ih fun n hn => h n (by simp [hn])]

lemma insertKey_perm (l : Fields) (k : Str) (v : Value) :
    (l.insertKey k v).Perm ((k, v) :: l) := by
  induction l with
  | nil => exact List.Perm.refl _
  | cons m l ih =>
      rw [Fields.insertKey]
      split
      · exact List.Perm.refl _
      · exact (ih.cons m).trans (List.Perm.swap _ _ _)

/-- Defining properties with distinct new keys collects them. -/
lemma foldl_setProp_perm {l acc : Fields} (h : ((acc ++ l).map Prod.fst).Nodup) :
    (l.foldl (fun (acc : Fields) m => acc.setProp m.1 m.2) acc).Perm (acc ++ l) := by
  induction l generalizing acc with
  | nil => simp
  | cons m l ih =>
      have hm : m.1 ∉ acc.map Prod.fst := by
        rw [List.map_append, List.map_cons, List.nodup_append] at h
        exact fun hmem => h.2.2 _ hmem _ (by simp) rfl
      have hperm : (acc.setProp m.1 m.2 ++ l).Perm (acc ++ m :: l) := by
        rw [Fields.setProp, if_neg hm]
        exact ((insertKey_perm acc m.1 m.2).append_right l).trans
          (List.perm_middle.symm)
      rw [List.foldl_cons]
      exact (ih ((hperm.map Prod.fst).nodup_iff.mpr h)).trans hperm

lemma foldl_setProp_ordered {l acc : Fields} (h : acc.Ordered) :
    Fields.Ordered (l.foldl (fun (acc : Fields) m => acc.setProp m.1 m.2) acc) := by
  induction l generalizing acc with
  | nil => exact h
  | cons m l ih => exact ih (h.setProp m.1 m.2)

lemma insertKey_ascends {l : Fields} {k : Str} {v : Value} (hl : l.Pairwise KeyAscends)
    (h : ∀ a ∈ l, a.1 < k) : (l.insertKey k v).Pairwise KeyAscends := by
  induction l with
  | nil => simp [Fields.insertKey]
  | cons m l ih =>
      obtain ⟨j, w⟩ := m
      rw [List.pairwise_cons] at hl
      rw [Fields.insertKey]
      split
      · next hc =>
          rw [List.pairwise_cons]
          exact ⟨fun n _ => Or.inl hc.2, List.pairwise_cons.mpr hl⟩
      · next hc =>
          rw [List.pairwise_cons]
          refine ⟨fun n hn => ?_, ih hl.2 fun a ha => h a (by simp [ha])⟩
          rcases Fields.mem_insertKey.mp hn with rfl | hn
          · -- an index would have gone before a key that is none
            by_cases hj : arrayIndex? j = none
            · refine Or.inr ⟨?_, h (j, w) (by simp)⟩
              by_contra hk
              refine hc ⟨?_, hk⟩
              obtain ⟨n, hn⟩ := Option.ne_none_iff_exists'.mp hk
              simp [KeyBefore, hn, hj]
            · exact Or.inl hj
          · exact hl.1 n hn

/-- Properties defined in ascending order are ascending, array indices apart. -/
lemma foldl_setProp_ascends {l acc : Fields} (hl : l.Pairwise fun a b => a.1 < b.1)
    (ha : acc.Pairwise KeyAscends) (h : ∀ a ∈ acc, ∀ m ∈ l, a.1 < m.1) :
    List.Pairwise KeyAscends
      (l.foldl (fun (acc : Fields) m => acc.setProp m.1 m.2) acc) := by
  induction l generalizing acc with
  | nil => exact ha
  | cons m l ih =>
      rw [List.pairwise_cons] at hl
      have hlt : ∀ a ∈ acc, a.1 < m.1 := fun a ha => h a ha m (by simp)
      have hm : m.1 ∉ acc.map Prod.fst := by
        rintro hmem
        obtain ⟨a, ha, heq⟩ := List.mem_map.mp hmem
        exact List.lt_irrefl _ (heq ▸ hlt a ha)
      rw [List.foldl_cons]
      refine ih hl.2 ?_ fun a ha n hn => ?_
      · rw [Fields.setProp, if_neg hm]
        exact insertKey_ascends ha hlt
      · rcases Fields.mem_setProp ha with rfl | ha
        · exact hl.1 n hn
        · exact h a ha n (by simp [hn])

/-- The members of a rebuilt object: those of the object, rebuilt, in property order and
ascending. -/
lemma sorted_obj {l : Fields} (hl : l.Ordered) (h : ∀ m ∈ l, m.1 ≠ js "__proto__") :
    ∃ L : Fields, sorted (.obj l) = .obj L ∧ L.Perm (sortedFields l) ∧ L.Ordered
      ∧ L.Pairwise KeyAscends := by
  have hkeys : (sortedFields l).map Prod.fst = l.map Prod.fst := by
    rw [sortedFields_eq, List.map_map]
    rfl
  have hnodup : ((sortedFields l).map Prod.fst).Nodup := hkeys ▸ hl.nodup
  have hp := List.perm_insertionSort keyLe (sortedFields l)
  have hproto : ∀ m ∈ (sortedFields l).insertionSort keyLe, m.1 ≠ js "__proto__" := by
    intro m hm
    have hmem : m.1 ∈ (sortedFields l).map Prod.fst := List.mem_map_of_mem (hp.subset hm)
    rw [hkeys] at hmem
    obtain ⟨n, hn, heq⟩ := List.mem_map.mp hmem
    exact heq ▸ h n hn
  have hnodup' : (([] ++ (sortedFields l).insertionSort keyLe).map Prod.fst).Nodup :=
    (hp.map Prod.fst).nodup_iff.mpr hnodup
  refine ⟨_, by rw [sorted, foldl_assign hproto], (foldl_setProp_perm hnodup').trans hp,
    foldl_setProp_ordered (by simp [Fields.Ordered]),
    foldl_setProp_ascends (sort_strict hnodup) List.Pairwise.nil (by simp)⟩

/-- What the rebuilt value keeps and gains. -/
structure Rebuilt (v w : Value) : Prop where
  norm : w.norm = v.norm
  isJson : w.isJson = true
  finite : v.allFinite = true → w.allFinite = true
  ascends : w.keysAscend = true

lemma rebuilt_sorted {v : Value} (hj : v.isJson = true)
    (hp : v.lacksKey (js "__proto__") = true) : Rebuilt v v.sorted := by
  induction v using Value.ind with
  | undefined | bigint | symbol | function => simp [isJson] at hj
  | null | bool | num | str => exact ⟨rfl, hj, id, rfl⟩
  | arr l ih =>
      rw [isJson, isJsonList_iff] at hj
      rw [lacksKey, lacksKeyList_iff] at hp
      have hr := fun v hv => ih v hv (hj v hv) (hp v hv)
      rw [sorted, sortedList_eq]
      refine ⟨?_, ?_, fun hf => ?_, ?_⟩
      · rw [Value.norm, Value.norm, normList_eq, normList_eq, List.map_map]
        congr 1
        exact List.map_congr_left fun v hv => (hr v hv).norm
      · rw [isJson, isJsonList_iff, List.forall_mem_map]
        exact fun v hv => (hr v hv).isJson
      · rw [allFinite, allFiniteList_iff] at hf ⊢
        rw [List.forall_mem_map]
        exact fun v hv => (hr v hv).finite (hf v hv)
      · rw [keysAscend, keysAscendList_iff, List.forall_mem_map]
        exact fun v hv => (hr v hv).ascends
  | obj l ih =>
      rw [isJson, Bool.and_eq_true, decide_eq_true_eq, isJsonFields_iff] at hj
      rw [lacksKey, lacksKeyFields_iff] at hp
      have hr := fun m hm => ih m hm (hj.2 m hm) (hp m hm).2
      obtain ⟨L, hL, hperm, hord, hasc⟩ := sorted_obj hj.1 fun m hm => (hp m hm).1
      rw [sortedFields_eq] at hperm
      -- a property of every rebuilt member is one of every member of the rebuilt object
      have hall : ∀ (P : Value → Prop), (∀ m ∈ l, P m.2.sorted) → ∀ m ∈ L, P m.2 := by
        intro P hP m hm
        obtain ⟨n, hn, rfl⟩ := List.mem_map.mp (hperm.subset hm)
        exact hP n hn
      rw [hL]
      refine ⟨?_, ?_, fun hf => ?_, ?_⟩
      · rw [Value.norm, Value.norm, normFields_eq, normFields_eq]
        have hnorm : (L.map fun m => (m.1, m.2.norm)).Perm (l.map fun m => (m.1, m.2.norm)) := by
          refine (hperm.map _).trans (List.Perm.of_eq ?_)
          rw [List.map_map]
          exact List.map_congr_left fun m hm => by
            rw [Function.comp_apply, (hr m hm).norm]
        congr 1
        refine sort_eq_of_perm hnorm ?_
        rw [List.map_map]
        exact hord.nodup
      · rw [isJson, decide_eq_true hord, Bool.true_and, isJsonFields_iff]
        exact hall (fun v => v.isJson = true) fun m hm => (hr m hm).isJson
      · rw [allFinite, allFiniteFields_iff] at hf ⊢
        exact hall (fun v => v.allFinite = true) fun m hm => (hr m hm).finite (hf m hm)
      · rw [keysAscend, decide_eq_true hasc, Bool.true_and, keysAscendFields_iff]
        exact hall (fun v => v.keysAscend = true) fun m hm => (hr m hm).ascends

/-! ### The sign of zeros -/

lemma toStr_posZero (d : Double) : (Number.fin d.posZero).toStr = (Number.fin d).toStr := by
  rw [Double.posZero]
  split
  · next h => simp [Number.toStr, Double.magStr, Double.zero, h]
  · rfl

/-- The sign of a zero is not written. -/
lemma serialize_posZero (v : Value) : v.posZero.serialize = v.serialize := by
  induction v using Value.ind with
  | undefined | bigint | symbol | function | null | bool | str => rfl
  | num n =>
      cases n with
      | nan | inf => rfl
      | fin d => rw [posZero, serialize, serialize, toStr_posZero]
  | arr l ih =>
      have hl : serializeList (posZeroList l) = serializeList l := by
        induction l with
        | nil => rfl
        | cons v l ihl =>
            rw [posZeroList, serializeList, serializeList, ih v (by simp),
              ihl fun w hw => ih w (by simp [hw])]
      rw [posZero, serialize, serialize, hl]
  | obj l ih =>
      have hl : serializeFields (posZeroFields l) = serializeFields l := by
        induction l with
        | nil => rfl
        | cons m l ihl =>
            obtain ⟨k, v⟩ := m
            rw [posZeroFields, serializeFields, serializeFields, ih (k, v) (by simp),
              ihl fun w hw => ih w (by simp [hw])]
      rw [posZero, serialize, serialize, hl]

lemma norm_posZero (v : Value) : v.posZero.norm = v.norm := by
  induction v using Value.ind with
  | undefined | bigint | symbol | function | null | bool | str => rfl
  | num n =>
      cases n with
      | nan | inf => rfl
      | fin d =>
          have hd : d.posZero.posZero = d.posZero := by
            rw [Double.posZero, Double.posZero]
            split <;> rfl
          rw [posZero, Value.norm, Value.norm, hd]
  | arr l ih =>
      rw [posZero, posZeroList_eq, Value.norm, Value.norm, normList_eq, normList_eq, List.map_map]
      congr 1
      exact List.map_congr_left fun v hv => ih v hv
  | obj l ih =>
      rw [posZero, posZeroFields_eq, Value.norm, Value.norm, normFields_eq, normFields_eq,
        List.map_map]
      congr 2
      exact List.map_congr_left fun m hm => by
        rw [Function.comp_apply, ih m hm]

lemma keysAscend_posZero (v : Value) : v.posZero.keysAscend = v.keysAscend := by
  induction v using Value.ind with
  | undefined | bigint | symbol | function | null | bool | str => rfl
  | num n => cases n <;> rfl
  | arr l ih =>
      rw [Bool.eq_iff_iff, posZero, posZeroList_eq, keysAscend, keysAscend, keysAscendList_iff,
        keysAscendList_iff, List.forall_mem_map]
      exact forall₂_congr fun v hv => by rw [ih v hv]
  | obj l ih =>
      rw [Bool.eq_iff_iff, posZero, posZeroFields_eq, keysAscend, keysAscend, Bool.and_eq_true,
        Bool.and_eq_true, decide_eq_true_eq, decide_eq_true_eq, keysAscendFields_iff,
        keysAscendFields_iff, List.forall_mem_map, List.pairwise_map]
      exact and_congr Iff.rfl (forall₂_congr fun m hm => by rw [ih m hm])

/-! ### Faithfulness -/

/-- The canonical text of a value is the text of the rebuilt value, which it parses to. -/
lemma canonicalizeToString_eq {v : Value} (hj : v.isJson = true) (hf : v.allFinite = true)
    (hp : v.lacksKey (js "__proto__") = true) :
    ∃ t, canonicalizeToString v = .ok (some t) ∧ canonicalize v = .ok (utf8Encode t)
      ∧ v.sorted.serialize = some t ∧ parse t = some v.sorted.posZero := by
  have hr := rebuilt_sorted hj hp
  obtain ⟨t, ht, hparse⟩ := parse_serialize hr.isJson (hr.finite hf)
  have htext : canonicalizeToString v = .ok (some t) := by
    rw [canonicalizeToString, sortedReplacer_eq hj, ok_bind, stringify_of_isJson hr.isJson, ht]
    rfl
  refine ⟨t, htext, ?_, ht, hparse⟩
  rw [canonicalize, htext]
  rfl

/-- **Canonical JSON is faithful** on values with finite numbers and no member `__proto__`:
the text parses back to the value, up to key order; its objects are written with ascending
keys; and values with the same bytes are the same up to key order. -/
theorem canonicalize_faithful (s s' : Str) (v v' : Value) (hs : parse s = some v)
    (hf : v.allFinite = true) (hp : v.lacksKey (js "__proto__") = true)
    (hs' : parse s' = some v') (hf' : v'.allFinite = true)
    (hp' : v'.lacksKey (js "__proto__") = true) :
    (∃ t w, canonicalizeToString v = .ok (some t) ∧ canonicalize v = .ok (utf8Encode t)
        ∧ decodeFatal (utf8Encode t) = some t ∧ parse t = some w ∧ w.norm = v.norm
        ∧ w.serialize = some t ∧ w.keysAscend = true)
      ∧ (canonicalize v = canonicalize v' → v.norm = v'.norm) := by
  have hj := isJson_of_parse hs
  have hj' := isJson_of_parse hs'
  have hr := rebuilt_sorted hj hp
  obtain ⟨t, htext, hbytes, ht, hparse⟩ := canonicalizeToString_eq hj hf hp
  refine ⟨⟨t, _, htext, hbytes, decodeFatal_serialize ht, hparse, ?_, ?_, ?_⟩, fun heq => ?_⟩
  · rw [norm_posZero, hr.norm]
  · rw [serialize_posZero, ht]
  · rw [keysAscend_posZero, hr.ascends]
  · obtain ⟨t', -, hbytes', ht', hparse'⟩ := canonicalizeToString_eq hj' hf' hp'
    rw [hbytes, hbytes'] at heq
    have hdec := congrArg decodeFatal (Except.ok.inj heq)
    rw [decodeFatal_serialize ht, decodeFatal_serialize ht'] at hdec
    rw [Option.some.inj hdec, hparse'] at hparse
    have hnorm := congrArg norm (Option.some.inj hparse)
    rw [norm_posZero, norm_posZero, hr.norm, (rebuilt_sorted hj' hp').norm] at hnorm
    exact hnorm.symm

/-- A string against the empty object. -/
theorem canonicalize_faithful_string :
    (∃ t w, canonicalizeToString (.str (js "a")) = .ok (some t)
        ∧ canonicalize (.str (js "a")) = .ok (utf8Encode t)
        ∧ decodeFatal (utf8Encode t) = some t ∧ parse t = some w ∧ w.norm = (Value.str (js "a")).norm
        ∧ w.serialize = some t ∧ w.keysAscend = true)
      ∧ (canonicalize (.str (js "a")) = canonicalize (.obj []) →
        (Value.str (js "a")).norm = (Value.obj []).norm) :=
  canonicalize_faithful (js "\"a\"") (js "\x7b\x7d") (.str (js "a")) (.obj []) (by decide) rfl
    (by decide) (by decide) rfl (by decide)

/-- Outside those conditions: a number past the largest double is infinite and written as
`null`; a member `__proto__` is lost; array indices are written in numeric order. -/
theorem canonicalize_unfaithful :
    (parse (js "1e400") = some (.num (.inf false))
        ∧ canonicalizeToString (.num (.inf false)) = .ok (some (js "null"))
        ∧ parse (js "null") = some .null ∧ Value.null.norm ≠ (Value.num (.inf false)).norm)
      ∧ (parse (js "\x7b\"__proto__\":null\x7d") = some (.obj [(js "__proto__", .null)])
        ∧ canonicalizeToString (.obj [(js "__proto__", .null)]) = .ok (some (js "\x7b\x7d"))
        ∧ parse (js "\x7b\x7d") = some (.obj [])
        ∧ (Value.obj []).norm ≠ (Value.obj [(js "__proto__", .null)]).norm)
      ∧ (parse (js "\x7b\"10\":null,\"9\":null\x7d")
          = some (.obj [(js "9", .null), (js "10", .null)])
        ∧ canonicalizeToString (.obj [(js "9", .null), (js "10", .null)])
          = .ok (some (js "\x7b\"9\":null,\"10\":null\x7d"))
        ∧ js "10" < js "9") := by
  decide +kernel

end BitGraph
