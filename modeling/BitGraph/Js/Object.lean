import BitGraph.Js.JsonText

/-!
Objects: copies with one property defined, keys, and strict equality.

* **Defining a property.** `Value.setProp` is the spread `{ ...v, [k]: w }`. `get_setProp` reads
  it, `jsonForm_setProp` and `isJson_setProp` carry it through JSON.
* **Keys.** `Value.keys` are the own keys and `sortedKeys` is their sorted text.
* **Equality.** `strictEq` is `===` between values of two documents.
* **Tests.** `isRecord`, `isText` and `isNumber` are the type tests of the programs; JSON keeps
  what they test.
-/

namespace Js

/-- `{ ...v, [k]: w }` of an object. -/
def Value.setProp (v : Value) (k : Str) (w : Value) : Value :=
  match v with
  | .obj l => .obj (Fields.setProp l k w)
  | v => v

/-- `Object.keys`. -/
def Value.keys : Value → List Str
  | .obj l => l.map Prod.fst
  | _ => []

/-- `Object.keys(v).sort().join(",")`. -/
def Value.sortedKeys (v : Value) : Str := joinComma (v.keys.insertionSort (· ≤ ·))

/-- `a === b` of values from two documents: an object is never another one. -/
def Value.strictEq : Value → Value → Bool
  | .num (.fin d), .num (.fin e) => d.posZero == e.posZero
  | .num .nan, .num .nan => false
  | .arr _, .arr _ => false
  | .obj _, .obj _ => false
  | v, w => v == w

/-! ### What a value is -/

/-- An object that is no array. -/
def isRecord : Value → Bool
  | .obj _ => true
  | _ => false

/-- `typeof v === "string"` and the text passes a test. -/
def isText (ok : Str → Bool) : Value → Bool
  | .str s => ok s
  | _ => false

/-- `typeof v === "number"`. -/
def isNumber : Value → Bool
  | .num _ => true
  | _ => false

/-! ### Properties after one was defined -/

lemma Fields.find?_cons (k j : Str) (v : Value) (l : Fields) :
    Fields.find? ((j, v) :: l) k = if k = j then some v else Fields.find? l k := by
  by_cases h : k = j
  · simp [Fields.find?, h]
  · simp [Fields.find?, List.lookup_cons, beq_false_of_ne h, h]

lemma Fields.find?_insertKey {l : Fields} {k : Str} (hk : k ∉ l.map Prod.fst) (v : Value) (j : Str) :
    (l.insertKey k v).find? j = if j = k then some v else l.find? j := by
  induction l with
  | nil => exact Fields.find?_cons j k v []
  | cons m l ih =>
      obtain ⟨i, w⟩ := m
      rw [List.map_cons, List.mem_cons, not_or] at hk
      rw [Fields.insertKey]
      split
      · rw [Fields.find?_cons]
      · rw [Fields.find?_cons, Fields.find?_cons, ih hk.2]
        by_cases hji : j = i
        · subst hji
          rw [if_pos rfl, if_pos rfl, if_neg (Ne.symm hk.1)]
        · rw [if_neg hji, if_neg hji]

lemma Fields.find?_replace (l : Fields) (k : Str) (v : Value) (j : Str) :
    Fields.find? (l.map fun m => if m.1 = k then (k, v) else m) j
      = if j = k ∧ k ∈ l.map Prod.fst then some v else l.find? j := by
  induction l with
  | nil => simp
  | cons m l ih =>
      obtain ⟨i, w⟩ := m
      rw [List.map_cons, Fields.find?_cons j i]
      simp only [List.map_cons, List.mem_cons]
      by_cases hik : i = k
      · subst hik
        rw [if_pos rfl, Fields.find?_cons, ih]
        by_cases hji : j = i <;> simp [hji]
      · rw [if_neg hik, Fields.find?_cons, ih]
        by_cases hji : j = i
        · simp [hji, hik]
        · have hki : k ≠ i := Ne.symm hik
          simp only [if_neg hji, hki, false_or]

/-- Reading a property after one was defined. -/
lemma Fields.find?_setProp (l : Fields) (k : Str) (v : Value) (j : Str) :
    (l.setProp k v).find? j = if j = k then some v else l.find? j := by
  rw [Fields.setProp]
  split
  · next hk => rw [Fields.find?_replace]; simp only [hk, and_true]
  · next hk => exact Fields.find?_insertKey hk v j

lemma Value.get_setProp (l : Fields) (k : Str) (w : Value) (j : Str) :
    ((Value.obj l).setProp k w).get j = if j = k then w else (Value.obj l).get j := by
  rw [Value.setProp, Value.get, Value.get, Fields.find?_setProp]
  split <;> rfl

lemma Fields.map_fst_insertKey (l : Fields) (k : Str) (v : Value) :
    ((l.insertKey k v).map Prod.fst).Perm (k :: l.map Prod.fst) := by
  induction l with
  | nil => rfl
  | cons m l ih =>
      rw [Fields.insertKey]
      split
      · rfl
      · exact (ih.cons _).trans (List.Perm.swap _ _ _)

lemma Fields.map_fst_setProp {l : Fields} {k : Str} (h : k ∈ l.map Prod.fst) (v : Value) :
    (l.setProp k v).map Prod.fst = l.map Prod.fst := by
  rw [Fields.setProp, if_pos h, List.map_map]
  refine List.map_congr_left fun m _ => ?_
  rw [Function.comp_apply]
  split
  · next hm => exact hm.symm
  · rfl

lemma Fields.insertKey_jsonForm (l : Fields) (k : Str) (v : Value) :
    Value.jsonFormFields (l.insertKey k v) = (Value.jsonFormFields l).insertKey k v.jsonForm := by
  induction l with
  | nil => rfl
  | cons m l ih =>
      obtain ⟨i, w⟩ := m
      rw [Value.jsonFormFields, Fields.insertKey, Fields.insertKey]
      split
      · rw [Value.jsonFormFields, Value.jsonFormFields]
      · rw [Value.jsonFormFields, ih]

lemma Fields.setProp_jsonForm (l : Fields) (k : Str) (v : Value) :
    Value.jsonFormFields (l.setProp k v) = (Value.jsonFormFields l).setProp k v.jsonForm := by
  have hkeys : (Value.jsonFormFields l).map Prod.fst = l.map Prod.fst := by
    rw [Value.jsonFormFields_eq, List.map_map]
    rfl
  rw [Fields.setProp, Fields.setProp, hkeys]
  split
  · rw [Value.jsonFormFields_eq, Value.jsonFormFields_eq, List.map_map, List.map_map]
    refine List.map_congr_left fun m _ => ?_
    simp only [Function.comp_apply]
    split <;> rfl
  · exact Fields.insertKey_jsonForm l k v

/-! ### What JSON keeps -/

/-- What JSON keeps after a property was defined. -/
lemma Value.jsonForm_setProp (v : Value) (k : Str) (w : Value) :
    (v.setProp k w).jsonForm = v.jsonForm.setProp k w.jsonForm := by
  cases v with
  | obj l => rw [Value.setProp, Value.jsonForm, Value.jsonForm, Value.setProp, Fields.setProp_jsonForm]
  | num n => cases n <;> rfl
  | _ => rfl

lemma Fields.mem_setProp_self (l : Fields) (k : Str) (v : Value) :
    k ∈ (l.setProp k v).map Prod.fst := by
  by_cases h : k ∈ l.map Prod.fst
  · rw [Fields.map_fst_setProp h]
    exact h
  · rw [Fields.setProp, if_neg h]
    exact (Fields.map_fst_insertKey l k v).mem_iff.mpr (by simp)

lemma Fields.replace_insertKey {l : Fields} {k : Str} (h : k ∉ l.map Prod.fst) (v w : Value) :
    (l.insertKey k v).map (fun m => if m.1 = k then (k, w) else m) = l.insertKey k w := by
  induction l with
  | nil => simp [Fields.insertKey]
  | cons m l ih =>
      rw [List.map_cons, List.mem_cons, not_or] at h
      have hrest : l.map (fun m => if m.1 = k then (k, w) else m) = l := by
        refine (List.map_congr_left fun m hm => ?_).trans (List.map_id l)
        rw [if_neg, id]
        rintro rfl
        exact h.2 (List.mem_map_of_mem hm)
      rw [Fields.insertKey, Fields.insertKey]
      split
      · rw [List.map_cons, if_pos rfl, List.map_cons, if_neg (Ne.symm h.1), hrest]
      · rw [List.map_cons, if_neg (Ne.symm h.1), ih h.2]

/-- Defining a property twice. -/
lemma Value.setProp_setProp (x : Value) (k : Str) (v w : Value) :
    (x.setProp k v).setProp k w = x.setProp k w := by
  cases x with
  | obj l =>
      rw [Value.setProp, Value.setProp, Value.setProp, Fields.setProp, if_pos (Fields.mem_setProp_self l k v)]
      congr 1
      rw [Fields.setProp, Fields.setProp]
      split
      · rw [List.map_map]
        refine List.map_congr_left fun m _ => ?_
        rw [Function.comp_apply]
        split <;> simp [*]
      · next h => exact Fields.replace_insertKey h v w
  | _ => rfl

/-- A property defined on data of JSON. -/
lemma Value.isJson_setProp {v w : Value} (k : Str) (hv : v.isJson = true) (hw : w.isJson = true) :
    (v.setProp k w).isJson = true := by
  cases v with
  | obj l =>
      rw [Value.isJson, Bool.and_eq_true, decide_eq_true_eq, Value.isJsonFields_iff] at hv
      rw [Value.setProp, Value.isJson, Bool.and_eq_true, decide_eq_true_eq, Value.isJsonFields_iff]
      refine ⟨hv.1.setProp k w, fun m hm => ?_⟩
      rcases Fields.mem_setProp hm with rfl | hm
      · exact hw
      · exact hv.2 m hm
  | _ => exact hv

lemma isRecord_jsonForm (v : Value) : isRecord v.jsonForm = isRecord v := by
  cases v with
  | num n => cases n <;> rfl
  | _ => rfl

lemma isText_jsonForm (ok : Str → Bool) (v : Value) : isText ok v.jsonForm = isText ok v := by
  cases v with
  | num n => cases n <;> rfl
  | _ => rfl

lemma isNumber_jsonForm {v : Value} (hf : v.allFinite = true) : isNumber v.jsonForm = isNumber v := by
  cases v with
  | num n =>
      cases n with
      | fin d => rfl
      | nan | inf => simp [Value.allFinite] at hf
  | _ => rfl

lemma beq_str_jsonForm (v : Value) (s : Str) : (v.jsonForm == .str s) = (v == .str s) := by
  rw [Bool.eq_iff_iff, beq_iff_eq, beq_iff_eq, Value.jsonForm_eq_str]

lemma jsonForm_eq_undefined {v : Value} : v.jsonForm = .undefined ↔ v = .undefined := by
  cases v with
  | num n => cases n <;> simp [Value.jsonForm]
  | _ => simp [Value.jsonForm]

lemma beq_undefined_jsonForm (v : Value) : (v.jsonForm == .undefined) = (v == .undefined) := by
  rw [Bool.eq_iff_iff, beq_iff_eq, beq_iff_eq, jsonForm_eq_undefined]

lemma allFinite_get {v : Value} (hf : v.allFinite = true) (k : Str) :
    (v.get k).allFinite = true := by
  cases v with
  | obj l =>
      rw [Value.allFinite, Value.allFiniteFields_iff] at hf
      rw [Value.get]
      cases h : Fields.find? l k with
      | none => rfl
      | some w =>
          rw [Fields.find?, List.lookup_eq_some_iff] at h
          obtain ⟨a, b, rfl, -⟩ := h
          exact hf (k, w) (by simp)
  | _ => rfl

/-! ### Keys -/

/-- A joined text has a comma between its parts. -/
lemma length_joinComma (l : List Str) :
    (joinComma l).length = (l.map fun t => t.length + 1).sum - 1 := by
  induction l with
  | nil => rfl
  | cons t l ih =>
      cases l with
      | nil => simp [joinComma]
      | cons u l =>
          have hpos : 0 < ((u :: l).map fun t => t.length + 1).sum := by simp
          rw [joinComma, List.length_append, List.length_cons, ih,
            show ((t :: u :: l).map fun t => t.length + 1).sum
              = t.length + 1 + ((u :: l).map fun t => t.length + 1).sum from rfl]
          omega

lemma Value.length_sortedKeys (v : Value) :
    v.sortedKeys.length = (v.keys.map fun k => k.length + 1).sum - 1 := by
  rw [Value.sortedKeys, length_joinComma]
  congr 1
  exact ((List.perm_insertionSort _ _).map _).sum_eq

/-- Keys that are all there are no longer than the joined text. -/
lemma Value.length_le_sortedKeys {v : Value} {l : List Str} (hl : l.Nodup)
    (h : ∀ k ∈ l, k ∈ v.keys) :
    (l.map fun k => k.length + 1).sum - 1 ≤ v.sortedKeys.length := by
  rw [v.length_sortedKeys]
  obtain ⟨r, hr, hsub⟩ := List.subperm_of_subset hl h
  have hsum := (hr.map fun k : Str => k.length + 1).sum_eq
  have hle := (hsub.map fun k : Str => k.length + 1).sum_le_sum fun _ _ => Nat.zero_le _
  omega

lemma Value.keys_jsonForm (v : Value) : v.jsonForm.keys = v.keys := by
  cases v with
  | obj l =>
      rw [Value.jsonForm, Value.keys, Value.keys, Value.jsonFormFields_eq, List.map_map]
      rfl
  | num n => cases n <;> rfl
  | _ => rfl

/-- A key that reads as something is there. -/
lemma Value.mem_keys_of_get {v : Value} {k : Str} (h : v.get k ≠ .undefined) : k ∈ v.keys := by
  cases v with
  | obj l =>
      rw [Value.get] at h
      by_contra hk
      apply h
      have hnone : Fields.find? l k = none := by
        rw [Fields.find?, List.lookup_eq_none_iff]
        intro m hm
        rw [bne_iff_ne]
        rintro rfl
        exact hk (List.mem_map_of_mem hm)
      rw [hnone]
      rfl
  | _ => exact absurd rfl h

end Js
