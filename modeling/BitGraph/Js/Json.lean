import BitGraph.Js.Number

/-!
JavaScript values, their properties, and JSON.

* **Values.** `Value` is a value without identity: the primitives, arrays and plain objects,
  an object being its own enumerable properties in property order. `get` reads a property and
  `setProp` defines one: array indices come first, in numeric order, then the other keys in
  the order they were made (`KeyBefore`).
* **Writing.** `serialize` is the text `JSON.stringify` gives, `none` where it gives
  `undefined`; `stringify` adds the exception on a big integer.
* **Reading.** `parse` is `JSON.parse`, `none` where it throws; a repeated key keeps its first
  place and its last value. The recursion is on fuel, one unit a call, more than the text can
  use.
* **What parsing produces.** `isJson` says of a value that a JSON text can denote it, so its
  objects are in property order; `allFinite` says that its numbers are finite. The sign of a
  zero does not survive text: `posZero` drops it.
-/

namespace Js

/-- A JavaScript value without identity. -/
inductive Value where
  | undefined
  | null
  | bool (b : Bool)
  | num (n : Number)
  | str (s : Str)
  | bigint (i : ℤ)
  | symbol
  | function
  | arr (l : List Value)
  | obj (l : List (Str × Value))

/-- The own properties of an object, in property order. -/
abbrev Fields := List (Str × Value)

namespace Value

mutual

/-- Structural equality of values. -/
def beq : Value → Value → Bool
  | .undefined, .undefined => true
  | .null, .null => true
  | .bool a, .bool b => a == b
  | .num a, .num b => a == b
  | .str a, .str b => a == b
  | .bigint a, .bigint b => a == b
  | .symbol, .symbol => true
  | .function, .function => true
  | .arr a, .arr b => beqList a b
  | .obj a, .obj b => beqFields a b
  | _, _ => false

def beqList : List Value → List Value → Bool
  | [], [] => true
  | v :: a, w :: b => beq v w && beqList a b
  | _, _ => false

def beqFields : Fields → Fields → Bool
  | [], [] => true
  | (k, v) :: a, (j, w) :: b => k == j && beq v w && beqFields a b
  | _, _ => false

end

/-- The induction principle of the nested inductive: arrays and objects inherit from their
elements and members. -/
@[elab_as_elim]
theorem ind {P : Value → Prop} (undefined : P .undefined) (null : P .null)
    (bool : ∀ b, P (.bool b)) (num : ∀ n, P (.num n)) (str : ∀ s, P (.str s))
    (bigint : ∀ i, P (.bigint i)) (symbol : P .symbol) (function : P .function)
    (arr : ∀ l, (∀ v ∈ l, P v) → P (.arr l))
    (obj : ∀ l : Fields, (∀ m ∈ l, P m.2) → P (.obj l)) (v : Value) : P v :=
  @Value.rec P (fun l => ∀ v ∈ l, P v) (fun l => ∀ m ∈ l, P m.2) (fun m => P m.2)
    undefined null bool num str bigint symbol function (fun l ih => arr l ih)
    (fun l ih => obj l ih) (fun v hv => absurd hv (by simp))
    (fun _ _ ihh iht v hv => by
      rcases List.mem_cons.mp hv with rfl | hv
      · exact ihh
      · exact iht v hv)
    (fun m hm => absurd hm (by simp))
    (fun _ _ ihh iht m hm => by
      rcases List.mem_cons.mp hm with rfl | hm
      · exact ihh
      · exact iht m hm)
    (fun _ _ ih => ih) v

lemma beqList_iff {a b : List Value} (h : ∀ v ∈ a, ∀ w, beq v w = true ↔ v = w) :
    beqList a b = true ↔ a = b := by
  induction a generalizing b with
  | nil => cases b <;> simp [beqList]
  | cons v a ih =>
      cases b with
      | nil => simp [beqList]
      | cons w b =>
          rw [beqList, Bool.and_eq_true, h v (by simp), ih fun x hx => h x (by simp [hx]),
            List.cons.injEq]

lemma beqFields_iff {a b : Fields} (h : ∀ m ∈ a, ∀ w, beq m.2 w = true ↔ m.2 = w) :
    beqFields a b = true ↔ a = b := by
  induction a generalizing b with
  | nil => cases b <;> simp [beqFields]
  | cons m a ih =>
      obtain ⟨k, v⟩ := m
      cases b with
      | nil => simp [beqFields]
      | cons n b =>
          obtain ⟨j, w⟩ := n
          rw [beqFields, Bool.and_eq_true, Bool.and_eq_true, h (k, v) (by simp),
            ih fun x hx => h x (by simp [hx]), List.cons.injEq, Prod.mk.injEq, beq_iff_eq]

lemma beq_iff (v w : Value) : beq v w = true ↔ v = w := by
  induction v using ind generalizing w with
  | arr l ih => cases w <;> simp [beq, beqList_iff ih]
  | obj l ih => cases w <;> simp [beq, beqFields_iff ih]
  | _ => cases w <;> simp [beq]

instance : DecidableEq Value := fun v w => decidable_of_iff _ (beq_iff v w)

end Value

/-! ### Properties -/

/-- The array index a key spells: a canonical numeral below `2^32 - 1`. -/
def arrayIndex? (k : Str) : Option ℕ :=
  if k.all isDigit && decimal (readDecimal k) == k && readDecimal k < 2 ^ 32 - 1
  then some (readDecimal k) else none

/-- The order of own properties: indices before other keys, indices in numeric order. -/
def KeyBefore (k j : Str) : Prop :=
  match arrayIndex? k, arrayIndex? j with
  | some m, some n => m < n
  | some _, none => True
  | none, some _ => False
  | none, none => k ≠ j

instance (k j : Str) : Decidable (KeyBefore k j) := by
  unfold KeyBefore
  cases arrayIndex? k <;> cases arrayIndex? j <;> infer_instance

/-- Own properties in property order. -/
def Fields.Ordered (l : Fields) : Prop := l.Pairwise fun a b => KeyBefore a.1 b.1

instance (l : Fields) : Decidable l.Ordered := by
  unfold Fields.Ordered
  infer_instance

/-- The order is one of the keys. -/
lemma Fields.ordered_iff {l : Fields} : l.Ordered ↔ (l.map Prod.fst).Pairwise KeyBefore :=
  List.pairwise_map.symm

/-- The own property of a key. -/
def Fields.find? (l : Fields) (k : Str) : Option Value := List.lookup k l

/-- The new property of a key not yet there: an index at its place among the indices, another
key at the end. -/
def Fields.insertKey (k : Str) (v : Value) : Fields → Fields
  | [] => [(k, v)]
  | (j, w) :: l => if KeyBefore k j ∧ arrayIndex? k ≠ none then (k, v) :: (j, w) :: l
      else (j, w) :: insertKey k v l

/-- Define a property: in place when the key is there, otherwise as a new one. -/
def Fields.setProp (l : Fields) (k : Str) (v : Value) : Fields :=
  if k ∈ l.map Prod.fst then l.map fun m => if m.1 = k then (k, v) else m
  else l.insertKey k v

/-- Assignment `o[k] = v` on an object made by a literal: the key `__proto__` reaches the
setter of the prototype and makes no property. -/
def Fields.assign (l : Fields) (k : Str) (v : Value) : Fields :=
  if k = js "__proto__" then l else l.setProp k v

/-- Property access on an object; anything else has none of the properties the programs read. -/
def Value.get (v : Value) (k : Str) : Value :=
  match v with
  | .obj l => (Fields.find? l k).getD .undefined
  | _ => .undefined

lemma keyBefore_ne {k j : Str} (h : KeyBefore k j) : k ≠ j := by
  rintro rfl
  rw [KeyBefore] at h
  cases hk : arrayIndex? k with
  | none => simp [hk] at h
  | some n => simp [hk] at h

lemma arrayIndex?_eq_some {k : Str} {n : ℕ} (h : arrayIndex? k = some n) : decimal n = k := by
  rw [arrayIndex?] at h
  split at h
  · next hc =>
      simp only [Bool.and_eq_true, beq_iff_eq] at hc
      rw [← Option.some.inj h]
      exact hc.1.2
  · exact absurd h (by simp)

/-- Two keys are the same or one comes before the other, other keys in either order. -/
lemma keyBefore_total {k j : Str} (h : k ≠ j) : KeyBefore k j ∨ KeyBefore j k := by
  rw [KeyBefore, KeyBefore]
  cases hk : arrayIndex? k with
  | none => cases hj : arrayIndex? j <;> simp [h]
  | some m =>
      cases hj : arrayIndex? j with
      | none => simp
      | some n =>
          have hmn : m ≠ n := by
            rintro rfl
            exact h ((arrayIndex?_eq_some hk).symm.trans (arrayIndex?_eq_some hj))
          simp only
          omega

lemma Fields.insertKey_append {l : Fields} {k : Str} {v : Value}
    (h : ∀ m ∈ l, KeyBefore m.1 k) : l.insertKey k v = l ++ [(k, v)] := by
  induction l with
  | nil => rfl
  | cons m l ih =>
      have hm := h m (by simp)
      have hnot : ¬ (KeyBefore k m.1 ∧ arrayIndex? k ≠ none) := by
        rintro ⟨hk, hne⟩
        rw [KeyBefore] at hm hk
        cases hik : arrayIndex? k with
        | none => exact hne hik
        | some n =>
            cases him : arrayIndex? m.1 with
            | none => simp [hik, him] at hm
            | some p =>
                simp only [hik, him] at hm hk
                omega
      rw [insertKey, if_neg hnot, ih fun x hx => h x (by simp [hx])]
      rfl

/-- A key that comes after every other is appended. -/
lemma Fields.setProp_append {l : Fields} {k : Str} {v : Value}
    (h : ∀ m ∈ l, KeyBefore m.1 k) : l.setProp k v = l ++ [(k, v)] := by
  rw [setProp, if_neg, insertKey_append h]
  intro hk
  obtain ⟨m, hm, rfl⟩ := List.mem_map.mp hk
  exact keyBefore_ne (h m hm) rfl

/-- Properties defined in property order stay as they are. -/
lemma Fields.foldl_setProp {l : Fields} (h : l.Ordered) (acc : Fields)
    (hacc : ∀ a ∈ acc, ∀ m ∈ l, KeyBefore a.1 m.1) :
    l.foldl (fun acc m => acc.setProp m.1 m.2) acc = acc ++ l := by
  induction l generalizing acc with
  | nil => simp
  | cons m l ih =>
      rw [Ordered, List.pairwise_cons] at h
      rw [List.foldl_cons, setProp_append fun a ha => hacc a ha m (by simp), ih h.2]
      · simp
      · intro a ha x hx
        rcases List.mem_append.mp ha with ha | ha
        · exact hacc a ha x (by simp [hx])
        · obtain rfl : a = (m.1, m.2) := by simpa using ha
          exact h.1 x hx

lemma Fields.Ordered.nodup {l : Fields} (h : l.Ordered) : (l.map Prod.fst).Nodup :=
  List.Pairwise.map _ (fun _ _ => keyBefore_ne) h

lemma Fields.find?_eq_some {l : Fields} (h : l.Ordered) {k : Str} {v : Value} :
    l.find? k = some v ↔ (k, v) ∈ l := by
  induction l with
  | nil => simp [find?]
  | cons m l ih =>
      obtain ⟨j, w⟩ := m
      rw [Ordered, List.pairwise_cons] at h
      have hih := ih h.2
      rw [find?] at hih ⊢
      rw [List.lookup_cons, List.mem_cons, Prod.mk.injEq]
      by_cases hkj : k = j
      · subst hkj
        have hno : (k, v) ∉ l := fun hm => keyBefore_ne (h.1 _ hm) rfl
        simp [hno, eq_comm]
      · have : (k == j) = false := by simpa using hkj
        simp [this, hkj, hih]

/-! ### Writing -/

/-- A lowercase hexadecimal digit. -/
def hexUnit (d : ℕ) : UInt16 := if d < 10 then UInt16.ofNat (48 + d) else UInt16.ofNat (87 + d)

/-- The escape `\uXXXX` of a code unit. -/
def unicodeEscape (c : UInt16) : Str :=
  [92, 117, hexUnit (c.toNat / 4096), hexUnit (c.toNat / 256 % 16), hexUnit (c.toNat / 16 % 16),
    hexUnit (c.toNat % 16)]

/-- A code unit, not half of a pair, inside a JSON string. -/
def quoteUnit (c : UInt16) : Str :=
  if c = 8 then [92, 98]
  else if c = 9 then [92, 116]
  else if c = 10 then [92, 110]
  else if c = 12 then [92, 102]
  else if c = 13 then [92, 114]
  else if c = 34 then [92, 34]
  else if c = 92 then [92, 92]
  else if c.toNat < 32 || isHigh c || isLow c then unicodeEscape c
  else [c]

/-- The inside of `QuoteJSONString`: surrogate pairs pass, lone surrogates are escaped. -/
def quoteBody : Str → Str
  | [] => []
  | [c] => quoteUnit c
  | c :: d :: s =>
      if isHigh c && isLow d then c :: d :: quoteBody s
      else quoteUnit c ++ quoteBody (d :: s)

/-- `QuoteJSONString`. -/
def quote (s : Str) : Str := 34 :: (quoteBody s ++ [34])

/-- Texts separated by commas. -/
def joinComma : List Str → Str
  | [] => []
  | [t] => t
  | t :: u :: l => t ++ 44 :: joinComma (u :: l)

namespace Value

mutual

/-- `SerializeJSONProperty`: `none` for what has no JSON text. -/
def serialize : Value → Option Str
  | .null => some (js "null")
  | .bool b => some (if b then js "true" else js "false")
  | .num (.fin d) => some (Number.fin d).toStr
  | .num _ => some (js "null")
  | .str s => some (quote s)
  | .arr l => some (91 :: (joinComma (serializeList l) ++ [93]))
  | .obj l => some (123 :: (joinComma (serializeFields l) ++ [125]))
  | _ => none

/-- The elements of an array; what has no text is `null`. -/
def serializeList : List Value → List Str
  | [] => []
  | v :: l => (serialize v).getD (js "null") :: serializeList l

/-- The members of an object; what has no text is left out. -/
def serializeFields : Fields → List Str
  | [] => []
  | (k, v) :: l =>
      match serialize v with
      | none => serializeFields l
      | some t => (quote k ++ 58 :: t) :: serializeFields l

end

mutual

/-- Whether a big integer is reached. -/
def hasBigint : Value → Bool
  | .bigint _ => true
  | .arr l => hasBigintList l
  | .obj l => hasBigintFields l
  | _ => false

def hasBigintList : List Value → Bool
  | [] => false
  | v :: l => hasBigint v || hasBigintList l

def hasBigintFields : Fields → Bool
  | [] => false
  | (_, v) :: l => hasBigint v || hasBigintFields l

end

/-- `JSON.stringify`: an exception on a big integer, else the text, if there is one. -/
def stringify (v : Value) : Except Unit (Option Str) :=
  if v.hasBigint then .error () else .ok v.serialize

end Value

/-! ### Reading -/

/-- JSON white space. -/
def isSpace (c : UInt16) : Bool := c == 32 || c == 9 || c == 10 || c == 13

/-- The text after white space. -/
def skipSpace : Str → Str
  | [] => []
  | c :: s => if isSpace c then skipSpace s else c :: s

/-- The value of a hexadecimal digit. -/
def hexVal? (c : UInt16) : Option ℕ :=
  if 48 ≤ c.toNat ∧ c.toNat ≤ 57 then some (c.toNat - 48)
  else if 97 ≤ c.toNat ∧ c.toNat ≤ 102 then some (c.toNat - 87)
  else if 65 ≤ c.toNat ∧ c.toNat ≤ 70 then some (c.toNat - 55)
  else none

/-- The code unit of four hexadecimal digits. -/
def hex4? (a b c d : UInt16) : Option UInt16 := do
  let w ← hexVal? a
  let x ← hexVal? b
  let y ← hexVal? c
  let z ← hexVal? d
  some (UInt16.ofNat (w * 4096 + x * 256 + y * 16 + z))

/-- The code unit of a one-letter escape. -/
def simpleEscape? (c : UInt16) : Option UInt16 :=
  if c = 34 ∨ c = 92 ∨ c = 47 then some c
  else if c = 98 then some 8
  else if c = 102 then some 12
  else if c = 110 then some 10
  else if c = 114 then some 13
  else if c = 116 then some 9
  else none

/-- The inside of a JSON string up to its closing quote, and the text after it. -/
def readString : Str → Option (Str × Str)
  | [] => none
  | 34 :: s => some ([], s)
  | 92 :: 117 :: a :: b :: c :: d :: s => do
      let u ← hex4? a b c d
      let (t, r) ← readString s
      some (u :: t, r)
  | 92 :: e :: s => do
      let u ← simpleEscape? e
      let (t, r) ← readString s
      some (u :: t, r)
  | c :: s =>
      if c.toNat < 32 ∨ c = 92 then none
      else do
        let (t, r) ← readString s
        some (c :: t, r)

/-- The text after a literal prefix. -/
def stripPrefix? : Str → Str → Option Str
  | [], s => some s
  | _ :: _, [] => none
  | p :: ps, c :: s => if p = c then stripPrefix? ps s else none

lemma stripPrefix?_eq_some {p s t : Str} : stripPrefix? p s = some t ↔ s = p ++ t := by
  induction p generalizing s with
  | nil => simp [stripPrefix?]
  | cons c p ih =>
      cases s with
      | nil => simp [stripPrefix?]
      | cons d s =>
          by_cases h : c = d
          · simp [stripPrefix?, h, ih]
          · simp [stripPrefix?, h, Ne.symm h]

lemma stripPrefix?_append (p t : Str) : stripPrefix? p (p ++ t) = some t :=
  stripPrefix?_eq_some.mpr rfl

mutual

/-- A JSON value at the head of a text, and the rest of the text. -/
def readValue : ℕ → Str → Option (Value × Str)
  | 0, _ => none
  | f + 1, s =>
      match skipSpace s with
      | [] => none
      | c :: r =>
          if c = 34 then (readString r).map fun (t, r) => (.str t, r)
          else if c = 91 then
            match skipSpace r with
            | 93 :: r => some (.arr [], r)
            | _ => (readElements f r).map fun (l, r) => (.arr l, r)
          else if c = 123 then
            match skipSpace r with
            | 125 :: r => some (.obj [], r)
            | _ => (readMembers f [] r).map fun (l, r) => (.obj l, r)
          else if c = 110 then (stripPrefix? (js "ull") r).map fun r => (.null, r)
          else if c = 116 then (stripPrefix? (js "rue") r).map fun r => (.bool true, r)
          else if c = 102 then (stripPrefix? (js "alse") r).map fun r => (.bool false, r)
          else (readNumber (c :: r)).map fun (n, r) => (.num n, r)

/-- The elements of an array, up to its closing bracket. -/
def readElements : ℕ → Str → Option (List Value × Str)
  | 0, _ => none
  | f + 1, s => do
      let (v, r) ← readValue f s
      match skipSpace r with
      | 44 :: r => do
          let (l, r) ← readElements f r
          some (v :: l, r)
      | 93 :: r => some ([v], r)
      | _ => none

/-- The members of an object, up to its closing brace, defined one after the other. -/
def readMembers : ℕ → Fields → Str → Option (Fields × Str)
  | 0, _, _ => none
  | f + 1, acc, s => do
      let s ← stripPrefix? [34] (skipSpace s)
      let (k, r) ← readString s
      let r ← stripPrefix? [58] (skipSpace r)
      let (v, r) ← readValue f r
      match skipSpace r with
      | 44 :: r => readMembers f (Fields.setProp acc k v) r
      | 125 :: r => some (Fields.setProp acc k v, r)
      | _ => none

end

/-- `JSON.parse`: `none` where it throws a syntax error. -/
def parse (s : Str) : Option Value :=
  match readValue (2 * s.length + 2) s with
  | some (v, r) => if skipSpace r = [] then some v else none
  | none => none

/-! ### What parsing produces -/

namespace Value

mutual

/-- A value a JSON text can denote. -/
def isJson : Value → Bool
  | .null | .bool _ | .str _ => true
  | .num n => n ≠ .nan
  | .arr l => isJsonList l
  | .obj l => decide (Fields.Ordered l) && isJsonFields l
  | _ => false

def isJsonList : List Value → Bool
  | [] => true
  | v :: l => isJson v && isJsonList l

def isJsonFields : Fields → Bool
  | [] => true
  | (_, v) :: l => isJson v && isJsonFields l

end

mutual

/-- Every number is finite. -/
def allFinite : Value → Bool
  | .num (.fin _) => true
  | .num _ => false
  | .arr l => allFiniteList l
  | .obj l => allFiniteFields l
  | _ => true

def allFiniteList : List Value → Bool
  | [] => true
  | v :: l => allFinite v && allFiniteList l

def allFiniteFields : Fields → Bool
  | [] => true
  | (_, v) :: l => allFinite v && allFiniteFields l

end

mutual

/-- The value with every negative zero made positive. -/
def posZero : Value → Value
  | .num (.fin d) => .num (.fin d.posZero)
  | .arr l => .arr (posZeroList l)
  | .obj l => .obj (posZeroFields l)
  | v => v

def posZeroList : List Value → List Value
  | [] => []
  | v :: l => posZero v :: posZeroList l

def posZeroFields : Fields → Fields
  | [] => []
  | (k, v) :: l => (k, posZero v) :: posZeroFields l

end

mutual

/-- What JSON keeps of a value: a number that is not finite is `null`, a negative zero is zero. -/
def jsonForm : Value → Value
  | .num (.fin d) => .num (.fin d.posZero)
  | .num _ => .null
  | .arr l => .arr (jsonFormList l)
  | .obj l => .obj (jsonFormFields l)
  | v => v

def jsonFormList : List Value → List Value
  | [] => []
  | v :: l => jsonForm v :: jsonFormList l

def jsonFormFields : Fields → Fields
  | [] => []
  | (k, v) :: l => (k, jsonForm v) :: jsonFormFields l

end

lemma isJsonList_iff {l : List Value} : isJsonList l = true ↔ ∀ v ∈ l, isJson v = true := by
  induction l with
  | nil => simp [isJsonList]
  | cons v l ih => simp [isJsonList, ih]

lemma isJsonFields_iff {l : Fields} : isJsonFields l = true ↔ ∀ m ∈ l, isJson m.2 = true := by
  induction l with
  | nil => simp [isJsonFields]
  | cons m l ih => simp [isJsonFields, ih]

lemma allFiniteList_iff {l : List Value} :
    allFiniteList l = true ↔ ∀ v ∈ l, allFinite v = true := by
  induction l with
  | nil => simp [allFiniteList]
  | cons v l ih => simp [allFiniteList, ih]

lemma allFiniteFields_iff {l : Fields} :
    allFiniteFields l = true ↔ ∀ m ∈ l, allFinite m.2 = true := by
  induction l with
  | nil => simp [allFiniteFields]
  | cons m l ih => simp [allFiniteFields, ih]

lemma posZeroList_eq (l : List Value) : posZeroList l = l.map posZero := by
  induction l with
  | nil => rfl
  | cons v l ih => rw [posZeroList, ih, List.map_cons]

lemma posZeroFields_eq (l : Fields) :
    posZeroFields l = l.map fun m => (m.1, posZero m.2) := by
  induction l with
  | nil => rfl
  | cons m l ih => rw [posZeroFields, ih, List.map_cons]

lemma jsonFormList_eq (l : List Value) : jsonFormList l = l.map jsonForm := by
  induction l with
  | nil => rfl
  | cons v l ih => rw [jsonFormList, ih, List.map_cons]

lemma jsonFormFields_eq (l : Fields) :
    jsonFormFields l = l.map fun m => (m.1, jsonForm m.2) := by
  induction l with
  | nil => rfl
  | cons m l ih => rw [jsonFormFields, ih, List.map_cons]

lemma posZero_posZero (d : Double) : d.posZero.posZero = d.posZero := by
  by_cases h : d.sig = 0
  · simp [Double.posZero, h, Double.zero]
  · simp [Double.posZero, h]

/-- JSON keeps no less the second time. -/
lemma jsonForm_jsonForm (v : Value) : v.jsonForm.jsonForm = v.jsonForm := by
  induction v using ind with
  | num n => cases n <;> simp [jsonForm, posZero_posZero]
  | arr l ih => simpa [jsonForm, jsonFormList_eq] using ih
  | obj l ih =>
      simp only [jsonForm, jsonFormFields_eq, List.map_map, obj.injEq]
      exact List.map_congr_left fun m hm => by simp [ih m hm]
  | _ => rfl

lemma find?_jsonForm (l : Fields) (k : Str) :
    Fields.find? (l.map fun m => (m.1, jsonForm m.2)) k = (Fields.find? l k).map jsonForm := by
  induction l with
  | nil => rfl
  | cons m l ih =>
      obtain ⟨j, v⟩ := m
      by_cases h : k = j
      · subst h
        simp [Fields.find?]
      · simpa [Fields.find?, List.lookup_cons, beq_false_of_ne h] using ih

/-- Property access commutes with what JSON keeps. -/
lemma get_jsonForm (v : Value) (k : Str) : v.jsonForm.get k = (v.get k).jsonForm := by
  cases v with
  | obj l =>
      rw [jsonForm, get, get, jsonFormFields_eq, find?_jsonForm]
      cases Fields.find? l k <;> rfl
  | num n => cases n <;> rfl
  | _ => rfl

/-- A text is kept as it is, and nothing else becomes one. -/
lemma jsonForm_eq_str {v : Value} {s : Str} : v.jsonForm = .str s ↔ v = .str s := by
  cases v with
  | num n => cases n <;> simp [jsonForm]
  | _ => simp [jsonForm]

end Value

end Js
