import BitGraph.Canonical
import BitGraph.Codec
import BitGraph.Js.Object

/-!
What a reader of canonical JSON gets.

* **The form.** `canonicalForm` is the value a canonical text parses to (`canonicalize_parses`).
  `sortedKeys_canonicalForm` and `get_canonicalForm`: it has the keys and the members of the
  value that was written.
* **The size.** `textSize` counts the bytes of a JSON text; `length_canonicalize`: sorting the
  keys does not change it. `textSize_obj` and `textSize_arr` add it up.
-/

namespace Js.Value

open BitGraph

/-! ### The value a canonical text parses to -/

/-- The rebuilt value with its zeros positive. -/
def canonicalForm (v : Value) : Value := v.sorted.posZero

lemma sorted_keys_perm {l : Fields} (hl : l.Ordered) (h : ∀ m ∈ l, m.1 ≠ js "__proto__") :
    ((Value.obj l).canonicalForm.keys).Perm (l.map Prod.fst) := by
  obtain ⟨L, hL, hperm, -, -⟩ := sorted_obj hl h
  rw [canonicalForm, hL, posZero, keys, posZeroFields_eq, List.map_map]
  have hfst : (Prod.fst ∘ fun m : Str × Value => (m.1, m.2.posZero)) = Prod.fst := rfl
  rw [hfst]
  refine (hperm.map Prod.fst).trans (List.Perm.of_eq ?_)
  rw [sortedFields_eq, List.map_map]
  rfl

/-- The canonical form of an object is an object. -/
lemma canonicalForm_obj {l : Fields} (hl : l.Ordered) (h : ∀ m ∈ l, m.1 ≠ js "__proto__") :
    ∃ L, (Value.obj l).canonicalForm = .obj L := by
  obtain ⟨L, hL, -, -, -⟩ := sorted_obj hl h
  exact ⟨_, by rw [canonicalForm, hL, posZero]⟩

lemma mem_keys_canonicalForm {l : Fields} (hl : l.Ordered) (h : ∀ m ∈ l, m.1 ≠ js "__proto__")
    {k : Str} : k ∈ (Value.obj l).canonicalForm.keys ↔ k ∈ l.map Prod.fst :=
  (sorted_keys_perm hl h).mem_iff

/-- The keys of the canonical form are those of the value. -/
lemma sortedKeys_canonicalForm {v : Value} (hj : v.isJson = true)
    (hp : v.lacksKey (js "__proto__") = true) : v.canonicalForm.sortedKeys = v.sortedKeys := by
  cases v with
  | obj l =>
      rw [isJson, Bool.and_eq_true, decide_eq_true_eq] at hj
      rw [lacksKey, lacksKeyFields_iff] at hp
      have hperm := sorted_keys_perm hj.1 fun m hm => (hp m hm).1
      rw [sortedKeys, sortedKeys]
      congr 1
      refine List.Perm.eq_of_pairwise' (List.pairwise_insertionSort _ _)
        (List.pairwise_insertionSort _ _) ?_
      exact ((List.perm_insertionSort _ _).trans hperm).trans (List.perm_insertionSort _ _).symm
  | num n => cases n <;> rfl
  | _ => rfl

/-- The members of the canonical form are the canonical forms of the members. -/
lemma get_canonicalForm {v : Value} (hj : v.isJson = true)
    (hp : v.lacksKey (js "__proto__") = true) (k : Str) :
    v.canonicalForm.get k = (v.get k).canonicalForm := by
  cases v with
  | obj l =>
      rw [isJson, Bool.and_eq_true, decide_eq_true_eq] at hj
      rw [lacksKey, lacksKeyFields_iff] at hp
      obtain ⟨L, hL, hperm, hord, -⟩ := sorted_obj hj.1 fun m hm => (hp m hm).1
      have hord' : Fields.Ordered (L.map fun m => (m.1, m.2.posZero)) := by
        rw [Fields.ordered_iff, List.map_map]
        exact Fields.ordered_iff.mp hord
      rw [canonicalForm, hL, posZero, posZeroFields_eq, get, get]
      cases hfind : Fields.find? l k with
      | none =>
          have hnone : Fields.find? (L.map fun m => (m.1, m.2.posZero)) k = none := by
            refine Option.eq_none_iff_forall_ne_some.mpr fun w hw => ?_
            obtain ⟨m, hm, hmk⟩ := List.mem_map.mp ((Fields.find?_eq_some hord').mp hw)
            have hml := hperm.subset hm
            rw [sortedFields_eq] at hml
            obtain ⟨n, hn, rfl⟩ := List.mem_map.mp hml
            have hkn : n.1 = k := congrArg Prod.fst hmk
            have hsome := (Fields.find?_eq_some hj.1).mpr (show (k, n.2) ∈ l from hkn ▸ hn)
            rw [hsome] at hfind
            exact absurd hfind (by simp)
          rw [hnone]
          rfl
      | some w =>
          have hw := (Fields.find?_eq_some hj.1).mp hfind
          have hsome : Fields.find? (L.map fun m => (m.1, m.2.posZero)) k
              = some w.sorted.posZero := by
            refine (Fields.find?_eq_some hord').mpr (List.mem_map.mpr ⟨(k, w.sorted), ?_, rfl⟩)
            refine hperm.symm.subset ?_
            rw [sortedFields_eq]
            exact List.mem_map.mpr ⟨(k, w), hw, rfl⟩
          rw [hsome]
          rfl
  | num n => cases n <;> rfl
  | _ => rfl

@[simp] lemma canonicalForm_str (s : Str) : (Value.str s).canonicalForm = .str s := rfl

lemma canonicalForm_ofNat {n : ℕ} (hn : n < 2 ^ 53) :
    (Value.num (Number.ofNat n)).canonicalForm = .num (Number.ofNat n) := by
  by_cases h0 : n = 0
  · subst h0
    rfl
  · obtain ⟨d, hd, -, hsig, -⟩ := ofNat_eq_fin h0 hn
    have hsig0 : d.sig ≠ 0 := by
      rw [hsig]
      positivity
    simp [hd, canonicalForm, sorted, posZero, Double.posZero, hsig0]

lemma canonicalForm_texts (l : List Str) :
    (Value.arr (l.map .str)).canonicalForm = .arr (l.map .str) := by
  rw [canonicalForm, sorted, sortedList_eq, posZero, posZeroList_eq, List.map_map, List.map_map]
  rfl

/-- Canonical JSON parses to the canonical form. -/
lemma canonicalize_parses {v : Value} (hj : v.isJson = true) (hf : v.allFinite = true)
    (hp : v.lacksKey (js "__proto__") = true) :
    ∃ t, canonicalize v = .ok (utf8Encode t) ∧ v.sorted.serialize = some t
      ∧ (decodeFatal (utf8Encode t)).bind parse = some v.canonicalForm := by
  obtain ⟨t, -, hbytes, ht, hparse⟩ := canonicalizeToString_eq hj hf hp
  refine ⟨t, hbytes, ht, ?_⟩
  rw [decodeFatal_serialize ht, Option.bind_some, hparse]
  rfl

/-! ### Values that canonical JSON carries -/

/-- A JSON value of finite numbers without a member `__proto__`. -/
structure Writable (v : Value) : Prop where
  isJson : v.isJson = true
  allFinite : v.allFinite = true
  lacksKey : v.lacksKey (js "__proto__") = true

lemma writable_str (s : Str) : Writable (.str s) := ⟨rfl, rfl, rfl⟩

lemma writable_ofNat {n : ℕ} (hn : n < 2 ^ 53) : Writable (.num (Number.ofNat n)) := by
  by_cases h0 : n = 0
  · subst h0
    exact ⟨by decide, by decide, by decide⟩
  · obtain ⟨d, hd, -⟩ := ofNat_eq_fin h0 hn
    rw [hd]
    exact ⟨by simp [Value.isJson], rfl, rfl⟩

lemma writable_texts (l : List Str) : Writable (.arr (l.map .str)) := by
  refine ⟨?_, ?_, ?_⟩
  · rw [Value.isJson, isJsonList_iff, List.forall_mem_map]
    exact fun _ _ => rfl
  · rw [Value.allFinite, allFiniteList_iff, List.forall_mem_map]
    exact fun _ _ => rfl
  · rw [Value.lacksKey, lacksKeyList_iff, List.forall_mem_map]
    exact fun _ _ => rfl

lemma writable_obj {l : Fields} (hl : l.Ordered) (h : ∀ m ∈ l, m.1 ≠ js "__proto__" ∧ Writable m.2) :
    Writable (.obj l) := by
  refine ⟨?_, ?_, ?_⟩
  · rw [Value.isJson, Bool.and_eq_true, decide_eq_true_eq, isJsonFields_iff]
    exact ⟨hl, fun m hm => (h m hm).2.isJson⟩
  · rw [Value.allFinite, allFiniteFields_iff]
    exact fun m hm => (h m hm).2.allFinite
  · rw [Value.lacksKey, lacksKeyFields_iff]
    exact fun m hm => ⟨(h m hm).1, (h m hm).2.lacksKey⟩

/-! ### The size of a text -/

lemma scalars_append {s : Str} (hs : wellFormed s = true) (t : Str) :
    scalars (s ++ t) = scalars s ++ scalars t := by
  have hone : ∀ c : UInt16, ∀ t : Str, (isHigh c = false ∧ isLow c = false) →
      scalars (c :: t) = c.toNat :: scalars t := by
    intro c t hc
    cases t with
    | nil => simp [scalars, hc.1, hc.2]
    | cons d t => simp [scalars, hc.1, hc.2]
  induction s using wellFormed.induct with
  | case1 => rfl
  | case2 c =>
      have hc : isHigh c = false ∧ isLow c = false := by simpa [wellFormed] using hs
      rw [List.singleton_append, hone c t hc, hone c [] hc]
      rfl
  | case3 c d s h ih =>
      rw [wellFormed, if_pos h] at hs
      rw [List.cons_append, List.cons_append, scalars, scalars, if_pos h, if_pos h, ih hs,
        List.cons_append]
  | case4 c d s h ih =>
      rw [wellFormed, if_neg h, Bool.and_eq_true] at hs
      have hc : isHigh c = false ∧ isLow c = false := by simpa using hs.1
      rw [List.cons_append, hone c _ hc, hone c _ hc, ih hs.2, List.cons_append]

lemma utf8Encode_append {s : Str} (hs : wellFormed s = true) (t : Str) :
    utf8Encode (s ++ t) = utf8Encode s ++ utf8Encode t := by
  rw [utf8Encode, scalars_append hs, List.flatMap_append]
  rfl

/-- The bytes of a text. -/
def byteLength (s : Str) : ℕ := (utf8Encode s).length

lemma byteLength_append {s : Str} (hs : wellFormed s = true) (t : Str) :
    byteLength (s ++ t) = byteLength s + byteLength t := by
  rw [byteLength, utf8Encode_append hs, List.length_append]
  rfl

lemma byteLength_of_scalars {s t : Str} {cp : ℕ} (h : scalars s = cp :: scalars t) :
    byteLength s = (encodeScalar cp).length + byteLength t := by
  rw [byteLength, utf8Encode, h, List.flatMap_cons, List.length_append]
  rfl

/-- Two lone halves of a pair may meet, and then the bytes are fewer. -/
lemma byteLength_append_le (s t : Str) : byteLength (s ++ t) ≤ byteLength s + byteLength t := by
  induction s using scalars.induct with
  | case1 => simp
  | case2 c =>
      cases t with
      | nil => simp [byteLength, utf8Encode, scalars]
      | cons d t =>
          by_cases h : (isHigh c && isLow d) = true
          · have hc : isHigh c = true := (Bool.and_eq_true _ _ ▸ h).1
            have hd : isLow d = true := (Bool.and_eq_true _ _ ▸ h).2
            have hdh : isHigh d = false := by
              simp only [isHigh, isLow, Bool.and_eq_true, Bool.and_eq_false_iff, decide_eq_true_eq,
                decide_eq_false_iff_not] at hd ⊢
              omega
            have hpair : byteLength ([c] ++ d :: t)
                = (encodeScalar (pairValue c d)).length + byteLength t :=
              byteLength_of_scalars (by rw [List.singleton_append, scalars, if_pos h])
            have hsingle : byteLength [c] = 3 := by
              simp [byteLength, utf8Encode, scalars, hc, encodeScalar]
            have hlow : byteLength (d :: t) = 3 + byteLength t := by
              have hs : scalars (d :: t) = 0xFFFD :: scalars t := by
                cases t with
                | nil => simp [scalars, hd]
                | cons e t => simp [scalars, hdh, hd]
              rw [byteLength_of_scalars hs]
              rfl
            have hfour : (encodeScalar (pairValue c d)).length ≤ 4 := by
              rw [encodeScalar]
              split_ifs <;> simp
            omega
          · have hsplit : byteLength ([c] ++ d :: t) = byteLength [c] + byteLength (d :: t) := by
              rw [byteLength_of_scalars (s := [c] ++ d :: t) (t := d :: t)
                (by rw [List.singleton_append, scalars, if_neg h])]
              rw [byteLength_of_scalars (s := [c]) (t := []) (by rw [scalars]; rfl)]
              rfl
            exact hsplit.le
  | case3 c d s h ih =>
      have hboth : byteLength ((c :: d :: s) ++ t)
          = (encodeScalar (pairValue c d)).length + byteLength (s ++ t) :=
        byteLength_of_scalars (by rw [List.cons_append, List.cons_append, scalars, if_pos h])
      have hleft : byteLength (c :: d :: s)
          = (encodeScalar (pairValue c d)).length + byteLength s :=
        byteLength_of_scalars (by rw [scalars, if_pos h])
      omega
  | case4 c d s h ih =>
      have hboth := byteLength_of_scalars (s := (c :: d :: s) ++ t) (t := (d :: s) ++ t)
        (by rw [List.cons_append, List.cons_append, scalars, if_neg h])
      have hleft := byteLength_of_scalars (s := c :: d :: s) (t := d :: s)
        (by rw [scalars, if_neg h])
      omega

lemma byteLength_of_isAscii {s : Str} (h : isAscii s = true) : byteLength s = s.length := by
  rw [byteLength, utf8Encode_of_isAscii h, List.length_map]

lemma byteLength_cons {c : UInt16} (h : c.toNat < 128) (s : Str) :
    byteLength (c :: s) = byteLength s + 1 := by
  have hc : isAscii [c] = true := by simp [isAscii, h]
  rw [← List.singleton_append, byteLength_append (wellFormed_of_isAscii hc),
    byteLength_of_isAscii hc, List.length_singleton, add_comm]

lemma byteLength_joinComma {l : List Str} (h : ∀ t ∈ l, wellFormed t = true) :
    byteLength (joinComma l) = (l.map fun t => byteLength t + 1).sum - 1 := by
  induction l with
  | nil => rfl
  | cons t l ih =>
      cases l with
      | nil => simp [joinComma]
      | cons u l =>
          have hpos : 0 < ((u :: l).map fun t => byteLength t + 1).sum := by simp
          rw [joinComma, byteLength_append (h t (by simp)), byteLength_cons (by decide),
            ih fun w hw => h w (by simp [hw]),
            show ((t :: u :: l).map fun t => byteLength t + 1).sum
              = byteLength t + 1 + ((u :: l).map fun t => byteLength t + 1).sum from rfl]
          omega

/-- The bytes of the JSON text of a value. -/
def textSize (v : Value) : ℕ := byteLength (v.serialize.getD [])

@[simp] lemma textSize_str (s : Str) : textSize (.str s) = byteLength (quote s) := rfl

lemma exists_serialize {v : Value} (h : v.isJson = true) : ∃ t, v.serialize = some t := by
  cases v with
  | num n => cases n <;> exact ⟨_, rfl⟩
  | undefined | bigint | symbol | function => simp [isJson] at h
  | _ => exact ⟨_, rfl⟩

lemma serializeList_of_isJson {l : List Value} (h : ∀ v ∈ l, v.isJson = true) :
    serializeList l = l.map fun v => v.serialize.getD [] := by
  induction l with
  | nil => rfl
  | cons v l ih =>
      obtain ⟨t, ht⟩ := exists_serialize (h v (by simp))
      rw [serializeList, ih fun w hw => h w (by simp [hw]), List.map_cons, ht]
      rfl

lemma serializeFields_of_isJson {l : Fields} (h : ∀ m ∈ l, m.2.isJson = true) :
    serializeFields l = l.map fun m => quote m.1 ++ 58 :: m.2.serialize.getD [] := by
  induction l with
  | nil => rfl
  | cons m l ih =>
      obtain ⟨k, v⟩ := m
      obtain ⟨t, ht⟩ := exists_serialize (h (k, v) (by simp))
      rw [serializeFields, ht, List.map_cons, ht]
      exact congrArg (_ :: ·) (ih fun w hw => h w (by simp [hw]))

lemma wellFormed_text {v : Value} (h : v.isJson = true) : wellFormed (v.serialize.getD []) = true := by
  obtain ⟨t, ht⟩ := exists_serialize h
  rw [ht]
  exact wellFormed_serialize ht

/-- An array: brackets, elements and commas. -/
lemma textSize_arr {l : List Value} (h : ∀ v ∈ l, v.isJson = true) :
    textSize (.arr l) = (l.map fun v => textSize v + 1).sum - 1 + 2 := by
  have hw : ∀ t ∈ l.map fun v => v.serialize.getD [], wellFormed t = true := by
    intro t ht
    obtain ⟨v, hv, rfl⟩ := List.mem_map.mp ht
    exact wellFormed_text (h v hv)
  rw [textSize, serialize, Option.getD_some, byteLength_cons (by decide),
    serializeList_of_isJson h, byteLength_append (wellFormed_joinComma hw), byteLength_joinComma hw,
    List.map_map]
  rfl

/-- An object: braces, names, colons, members and commas. -/
lemma textSize_obj {l : Fields} (h : ∀ m ∈ l, m.2.isJson = true) :
    textSize (.obj l)
      = (l.map fun m => byteLength (quote m.1) + textSize m.2 + 2).sum - 1 + 2 := by
  have hw : ∀ t ∈ l.map fun m => quote m.1 ++ 58 :: m.2.serialize.getD [], wellFormed t = true := by
    intro t ht
    obtain ⟨m, hm, rfl⟩ := List.mem_map.mp ht
    refine wellFormed_append (wellFormed_quote m.1) ?_
    rw [wellFormed_cons (by decide)]
    exact wellFormed_text (h m hm)
  rw [textSize, serialize, Option.getD_some, byteLength_cons (by decide),
    serializeFields_of_isJson h, byteLength_append (wellFormed_joinComma hw),
    byteLength_joinComma hw, List.map_map]
  have hsum : (l.map ((fun t => byteLength t + 1) ∘ fun m =>
      quote m.1 ++ 58 :: m.2.serialize.getD []))
      = l.map fun m => byteLength (quote m.1) + textSize m.2 + 2 := by
    refine List.map_congr_left fun m _ => ?_
    rw [Function.comp_apply, byteLength_append (wellFormed_quote m.1), byteLength_cons (by decide),
      textSize]
    ring
  rw [hsum]
  rfl

/-- Sorting keys does not change the size. -/
lemma textSize_sorted {v : Value} (hj : v.isJson = true)
    (hp : v.lacksKey (js "__proto__") = true) : textSize v.sorted = textSize v := by
  induction v using Value.ind with
  | undefined | bigint | symbol | function => simp [isJson] at hj
  | null | bool | num | str => rfl
  | arr l ih =>
      rw [isJson, isJsonList_iff] at hj
      rw [lacksKey, lacksKeyList_iff] at hp
      have hj' : ∀ v ∈ l.map sorted, v.isJson = true := by
        rw [List.forall_mem_map]
        exact fun v hv => (rebuilt_sorted (hj v hv) (hp v hv)).isJson
      rw [sorted, sortedList_eq, textSize_arr hj', textSize_arr hj, List.map_map]
      congr 3
      exact List.map_congr_left fun v hv => by
        rw [Function.comp_apply, ih v hv (hj v hv) (hp v hv)]
  | obj l ih =>
      have hr := (rebuilt_sorted hj hp).isJson
      rw [isJson, Bool.and_eq_true, decide_eq_true_eq, isJsonFields_iff] at hj
      rw [lacksKey, lacksKeyFields_iff] at hp
      obtain ⟨L, hL, hperm, -, -⟩ := sorted_obj hj.1 fun m hm => (hp m hm).1
      rw [hL] at hr ⊢
      rw [isJson, Bool.and_eq_true, isJsonFields_iff] at hr
      rw [textSize_obj hr.2, textSize_obj hj.2,
        (hperm.map fun m => byteLength (quote m.1) + textSize m.2 + 2).sum_eq, sortedFields_eq,
        List.map_map]
      congr 3
      exact List.map_congr_left fun m hm => by
        rw [Function.comp_apply, ih m hm (hj.2 m hm) (hp m hm).2]

/-- The length of canonical JSON. -/
lemma length_canonicalize {v : Value} (hj : v.isJson = true) (hf : v.allFinite = true)
    (hp : v.lacksKey (js "__proto__") = true) {b : Bytes} (h : canonicalize v = .ok b) :
    b.length = textSize v := by
  obtain ⟨t, hbytes, ht, -⟩ := canonicalize_parses hj hf hp
  obtain rfl := Except.ok.inj (h.symm.trans hbytes)
  rw [← textSize_sorted hj hp, textSize, ht]
  rfl

lemma textSize_ofNat {n : ℕ} (h : n < 10 ^ 10) :
    textSize (.num (Number.ofNat n)) = (decimal n).length := by
  have hser : (Value.num (Number.ofNat n)).serialize = some (Number.ofNat n).toStr := by
    by_cases h0 : n = 0
    · subst h0
      rfl
    · obtain ⟨d, hd, -⟩ := ofNat_eq_fin h0 (by omega : n < 2 ^ 53)
      rw [hd]
      rfl
  have hascii : isAscii (decimal n) = true := by
    rw [isAscii, List.all_eq_true]
    intro c hc
    have := isDigit_of_mem_decimal hc
    simp only [isDigit, Bool.and_eq_true, decide_eq_true_eq] at this
    simp only [decide_eq_true_eq]
    omega
  rw [textSize, hser, Option.getD_some, toStr_ofNat h, byteLength_of_isAscii hascii]

/-! ### Quoted texts -/

/-- A code unit that is quoted as it is. -/
def isPlain (c : UInt16) : Bool := 32 ≤ c.toNat && c.toNat < 128 && c != 34 && c != 92

lemma quoteUnit_of_isPlain {c : UInt16} (h : isPlain c = true) : quoteUnit c = [c] := by
  simp only [isPlain, Bool.and_eq_true, decide_eq_true_eq, bne_iff_ne] at h
  obtain ⟨⟨⟨h32, h128⟩, h34⟩, h92⟩ := h
  have hne : ∀ d : UInt16, d.toNat < 32 → c ≠ d := by
    rintro d hd rfl
    omega
  have hesc : (c.toNat < 32 || isHigh c || isLow c) = false := by
    simp only [isHigh, isLow, Bool.or_eq_false_iff, Bool.and_eq_false_iff, decide_eq_false_iff_not]
    omega
  rw [quoteUnit, if_neg (hne 8 (by decide)), if_neg (hne 9 (by decide)), if_neg (hne 10 (by decide)),
    if_neg (hne 12 (by decide)), if_neg (hne 13 (by decide)), if_neg h34, if_neg h92, hesc]
  rfl

lemma quoteBody_of_isPlain {s : Str} (h : s.all isPlain = true) : quoteBody s = s := by
  induction s using quoteBody.induct with
  | case1 => rfl
  | case2 c => exact quoteUnit_of_isPlain (by simpa using h)
  | case3 c d s hp ih =>
      have hc : isPlain c = true := by
        simp only [List.all_cons, Bool.and_eq_true] at h
        exact h.1
      simp only [isPlain, isHigh, Bool.and_eq_true, decide_eq_true_eq] at hc hp
      omega
  | case4 c d s hp ih =>
      rw [List.all_cons, Bool.and_eq_true] at h
      rw [quoteBody, if_neg hp, quoteUnit_of_isPlain h.1, ih h.2]
      rfl

/-- A plain text is quoted as it is. -/
lemma byteLength_quote_of_isPlain {s : Str} (h : s.all isPlain = true) :
    byteLength (quote s) = s.length + 2 := by
  have ha : isAscii s = true := by
    rw [isAscii, List.all_eq_true]
    intro c hc
    have := List.all_eq_true.mp h c hc
    simp only [isPlain, Bool.and_eq_true, decide_eq_true_eq] at this
    simpa using this.1.1.2
  have hq : isAscii [34] = true := by decide
  rw [quote, quoteBody_of_isPlain h, byteLength_cons (by decide),
    byteLength_append (wellFormed_of_isAscii ha), byteLength_of_isAscii ha, byteLength_of_isAscii hq]
  rfl

lemma isPlain_of_isLowerHex {c : UInt16} (h : isLowerHex c = true) : isPlain c = true := by
  simp only [isLowerHex, isPlain, Bool.or_eq_true, Bool.and_eq_true, decide_eq_true_eq,
    bne_iff_ne] at h ⊢
  refine ⟨⟨⟨by omega, by omega⟩, ?_⟩, ?_⟩ <;> rintro rfl <;> simp at h

lemma all_isPlain_bytesToHex (b : Bytes) : (bytesToHex b).all isPlain = true :=
  List.all_eq_true.mpr fun _ hc => isPlain_of_isLowerHex (isLowerHex_of_mem_bytesToHex hc)

lemma byteLength_quote_hex (b : Bytes) :
    byteLength (quote (bytesToHex b)) = 2 * b.length + 2 := by
  rw [byteLength_quote_of_isPlain (all_isPlain_bytesToHex b), length_bytesToHex]

end Js.Value
