import BitGraph.Js.Json

/-!
JSON text reads back.

* **Strings.** `readString_quoteBody`: every string, lone surrogates included, comes back
  from its quoted form.
* **Values.** `readValue_serialize` reads the text of a value off the head of a longer text,
  `parse_serialize` is the round trip: a value that JSON can denote, with finite numbers, is
  what its text parses to, up to the sign of zeros.
* **Bytes.** `decodeFatal_serialize`: the text has no lone surrogate and starts with no byte
  order mark, so it survives UTF-8.
* **Parsing.** `isJson_of_parse`: what parsing produces is a value JSON can denote.
-/

namespace Js

/-! ### Strings -/

lemma hexVal?_hexUnit {d : ℕ} (h : d < 16) : hexVal? (hexUnit d) = some d := by
  interval_cases d <;> rfl

lemma hex4?_unicodeEscape (c : UInt16) :
    hex4? (hexUnit (c.toNat / 4096)) (hexUnit (c.toNat / 256 % 16)) (hexUnit (c.toNat / 16 % 16))
      (hexUnit (c.toNat % 16)) = some c := by
  have hc := c.toNat_lt
  rw [hex4?, hexVal?_hexUnit (by omega), hexVal?_hexUnit (by omega), hexVal?_hexUnit (by omega),
    hexVal?_hexUnit (by omega)]
  simp only [Option.bind_eq_bind, Option.bind_some, Option.some.injEq]
  rw [show c.toNat / 4096 * 4096 + c.toNat / 256 % 16 * 256 + c.toNat / 16 % 16 * 16
    + c.toNat % 16 = c.toNat by omega, UInt16.ofNat_toNat]

/-- An escaped code unit is read as the unit. -/
lemma readString_unicodeEscape (c : UInt16) (s : Str) :
    readString (unicodeEscape c ++ s) = (readString s).map fun p => (c :: p.1, p.2) := by
  simp only [unicodeEscape, List.cons_append, List.nil_append, readString, hex4?_unicodeEscape]
  cases readString s <;> rfl

lemma readString_plain {c : UInt16} (h1 : c ≠ 34) (h2 : c ≠ 92) (h3 : ¬ c.toNat < 32) (s : Str) :
    readString (c :: s) = (readString s).map fun p => (c :: p.1, p.2) := by
  rw [readString]
  · rw [if_neg (by simp [h2, h3])]
    cases readString s <;> rfl
  · exact h1
  · exact fun _ _ _ _ _ hc => absurd hc h2
  · exact fun _ _ hc => absurd hc h2

lemma readString_simple {e c : UInt16} (he : simpleEscape? e = some c) (hu : e ≠ 117) (s : Str) :
    readString (92 :: e :: s) = (readString s).map fun p => (c :: p.1, p.2) := by
  rw [readString]
  · rw [he]
    cases readString s <;> rfl
  · intro a b c d s' h
    exact absurd h hu

/-- A quoted code unit is read as the unit. -/
lemma readString_quoteUnit (c : UInt16) (s : Str) :
    readString (quoteUnit c ++ s) = (readString s).map fun p => (c :: p.1, p.2) := by
  rw [quoteUnit]
  split_ifs with h1 h2 h3 h4 h5 h6 h7 h8
  · rw [h1]
    exact readString_simple rfl (by decide) s
  · rw [h2]
    exact readString_simple rfl (by decide) s
  · rw [h3]
    exact readString_simple rfl (by decide) s
  · rw [h4]
    exact readString_simple rfl (by decide) s
  · rw [h5]
    exact readString_simple rfl (by decide) s
  · rw [h6]
    exact readString_simple rfl (by decide) s
  · rw [h7]
    exact readString_simple rfl (by decide) s
  · exact readString_unicodeEscape c s
  · refine readString_plain h6 h7 ?_ s
    simp only [Bool.or_eq_true, not_or, decide_eq_true_eq] at h8
    exact h8.1.1

lemma isHigh_plain {c : UInt16} (h : isHigh c = true ∨ isLow c = true) :
    c ≠ 34 ∧ c ≠ 92 ∧ ¬ c.toNat < 32 := by
  refine ⟨?_, ?_, ?_⟩
  · rintro rfl
    revert h
    decide
  · rintro rfl
    revert h
    decide
  · simp only [isHigh, isLow, Bool.and_eq_true, decide_eq_true_eq] at h
    omega

/-- **A quoted string reads back.** -/
lemma readString_quoteBody (s rest : Str) :
    readString (quoteBody s ++ 34 :: rest) = some (s, rest) := by
  induction s using quoteBody.induct with
  | case1 => rfl
  | case2 c =>
      rw [quoteBody, readString_quoteUnit]
      rfl
  | case3 c d s h ih =>
      have h' := h
      rw [Bool.and_eq_true] at h'
      obtain ⟨hc1, hc2, hc3⟩ := isHigh_plain (Or.inl h'.1)
      obtain ⟨hd1, hd2, hd3⟩ := isHigh_plain (Or.inr h'.2)
      rw [quoteBody, if_pos h, List.cons_append, List.cons_append,
        readString_plain hc1 hc2 hc3, readString_plain hd1 hd2 hd3, ih]
      rfl
  | case4 c d s h ih =>
      rw [quoteBody, if_neg h, List.append_assoc, readString_quoteUnit, ih]
      rfl

lemma quote_append (s rest : Str) : quote s ++ rest = 34 :: (quoteBody s ++ 34 :: rest) := by
  simp [quote]

/-! ### Values -/

lemma skipSpace_of_head {c : UInt16} {s : Str} (h : isSpace c = false) :
    skipSpace (c :: s) = c :: s := by
  rw [skipSpace, if_neg (by simp [h])]

/-- The code units a value can start with. -/
def startsValue (c : UInt16) : Bool :=
  c == 34 || c == 91 || c == 123 || c == 110 || c == 116 || c == 102 || c == 45 || isDigit c

lemma isSpace_of_startsValue {c : UInt16} (h : startsValue c = true) : isSpace c = false := by
  by_contra hs
  simp only [isSpace, Bool.not_eq_false, Bool.or_eq_true, beq_iff_eq] at hs
  rcases hs with ((rfl | rfl) | rfl) | rfl <;> revert h <;> decide

/-- A number starts with a digit or a minus sign. -/
lemma head_toStr (d : Double) : ∃ c s, (Number.fin d).toStr = c :: s ∧ (isDigit c = true ∨ c = 45) := by
  have hread := readNumber_toStr (d := d) (s := []) (by simp [numberStops])
  rw [List.append_nil] at hread
  rcases hs : (Number.fin d).toStr with _ | ⟨c, s⟩
  · rw [hs] at hread
    simp [readNumber, readMagnitude, spanDigits] at hread
  · refine ⟨c, s, rfl, ?_⟩
    by_contra hc
    push Not at hc
    rw [hs, readNumber_of_head (by simpa using hc.2), readMagnitude, spanDigits,
      if_neg hc.1] at hread
    simp at hread

/-- The text of a value starts a value. -/
lemma head_serialize {v : Value} {t : Str} (h : v.serialize = some t) :
    ∃ c s, t = c :: s ∧ startsValue c = true := by
  cases v with
  | null => exact ⟨_, _, (Option.some.inj h).symm, rfl⟩
  | bool b =>
      cases b with
      | true => exact ⟨_, _, (Option.some.inj h).symm, rfl⟩
      | false => exact ⟨_, _, (Option.some.inj h).symm, rfl⟩
  | num n =>
      cases n with
      | nan => exact ⟨_, _, (Option.some.inj h).symm, rfl⟩
      | inf neg => exact ⟨_, _, (Option.some.inj h).symm, rfl⟩
      | fin d =>
          obtain ⟨c, s, hs, hc⟩ := head_toStr d
          refine ⟨c, s, by rw [← hs]; exact (Option.some.inj h).symm, ?_⟩
          rcases hc with hc | rfl
          · simp [startsValue, hc]
          · rfl
  | str s => exact ⟨_, _, (Option.some.inj h).symm, rfl⟩
  | arr l => exact ⟨_, _, (Option.some.inj h).symm, rfl⟩
  | obj l => exact ⟨_, _, (Option.some.inj h).symm, rfl⟩
  | undefined | bigint | symbol | function => simp [Value.serialize] at h

lemma readValue_num {d : Double} {f : ℕ} {rest : Str} (hr : numberStops rest) :
    readValue (f + 1) ((Number.fin d).toStr ++ rest) = some (.num (.fin d.posZero), rest) := by
  obtain ⟨c, s, hs, hc⟩ := head_toStr d
  have hread := readNumber_toStr (d := d) hr
  rw [hs, List.cons_append] at hread ⊢
  have hstart : startsValue c = true := by
    rcases hc with hc | rfl
    · simp [startsValue, hc]
    · rfl
  have hne : c ≠ 34 ∧ c ≠ 91 ∧ c ≠ 123 ∧ c ≠ 110 ∧ c ≠ 116 ∧ c ≠ 102 := by
    rcases hc with hc | rfl
    · refine ⟨?_, ?_, ?_, ?_, ?_, ?_⟩ <;> (rintro rfl; revert hc; decide)
    · decide
  obtain ⟨h1, h2, h3, h4, h5, h6⟩ := hne
  rw [readValue, skipSpace_of_head (isSpace_of_startsValue hstart)]
  simp only [h1, h2, h3, h4, h5, h6, if_false, hread, Option.map_some]

/-- A value has a text, which is read off the head of a longer text. -/
def Value.Reads (v : Value) : Prop :=
  ∃ t, v.serialize = some t ∧ ∀ f rest, t.length ≤ f + 1 → numberStops rest →
    readValue (f + 1) (t ++ rest) = some (v.posZero, rest)

lemma numberStops_comma (s : Str) : numberStops (44 :: s) := by
  intro c hc
  obtain rfl : 44 = c := by simpa using hc
  decide

lemma numberStops_bracket (s : Str) : numberStops (93 :: s) := by
  intro c hc
  obtain rfl : 93 = c := by simpa using hc
  decide

lemma numberStops_brace (s : Str) : numberStops (125 :: s) := by
  intro c hc
  obtain rfl : 125 = c := by simpa using hc
  decide

lemma serialize_pos {v : Value} {t : Str} (h : v.serialize = some t) : 0 < t.length := by
  obtain ⟨c, s, rfl, -⟩ := head_serialize h
  simp

lemma Value.Reads.read {v : Value} (h : v.Reads) : ∃ t, v.serialize = some t ∧
    ∀ {f rest}, t.length ≤ f → numberStops rest →
      readValue f (t ++ rest) = some (v.posZero, rest) := by
  obtain ⟨t, ht, hread⟩ := h
  refine ⟨t, ht, fun {f rest} hf hr => ?_⟩
  have hpos := serialize_pos ht
  obtain ⟨g, rfl⟩ := Nat.exists_eq_succ_of_ne_zero (show f ≠ 0 by omega)
  exact hread g rest hf hr

/-- The elements of an array are read one after the other. -/
lemma readElements_serialize {l : List Value} (hl : l ≠ []) (h : ∀ v ∈ l, v.Reads) {f : ℕ}
    {rest : Str} (hf : (joinComma (Value.serializeList l)).length + 1 ≤ f) :
    readElements f (joinComma (Value.serializeList l) ++ 93 :: rest)
      = some (l.map Value.posZero, rest) := by
  induction l generalizing f with
  | nil => exact absurd rfl hl
  | cons v l ih =>
      obtain ⟨t, ht, hread⟩ := (h v (by simp)).read
      obtain ⟨f, rfl⟩ := Nat.exists_eq_succ_of_ne_zero (show f ≠ 0 by omega)
      cases l with
      | nil =>
          rw [Value.serializeList, ht, Value.serializeList, joinComma, Option.getD_some] at hf ⊢
          rw [readElements, hread (by omega) (numberStops_bracket rest)]
          rfl
      | cons w l =>
          have hstep := @ih (by simp) fun v hv => h v (by simp [hv])
          have hpos := serialize_pos ht
          have hjoin : joinComma (Value.serializeList (v :: w :: l))
              = t ++ 44 :: joinComma (Value.serializeList (w :: l)) := by
            rw [Value.serializeList, ht]
            rfl
          rw [hjoin] at hf ⊢
          rw [List.length_append, List.length_cons] at hf
          rw [readElements, List.append_assoc, List.cons_append,
            hread (by omega) (numberStops_comma _)]
          simp only [Option.bind_eq_bind, Option.bind_some, skipSpace_of_head (c := 44) rfl,
            hstep (show _ + 1 ≤ f by omega)]
          rfl

/-- The members of an object are read and defined one after the other. -/
lemma readMembers_serialize {l : Fields} (hl : l ≠ []) (h : ∀ m ∈ l, m.2.Reads) {f : ℕ}
    {acc : Fields} {rest : Str} (hf : (joinComma (Value.serializeFields l)).length + 1 ≤ f) :
    readMembers f acc (joinComma (Value.serializeFields l) ++ 125 :: rest)
      = some ((l.map fun m => (m.1, m.2.posZero)).foldl (fun acc m => acc.setProp m.1 m.2) acc,
        rest) := by
  induction l generalizing f acc with
  | nil => exact absurd rfl hl
  | cons m l ih =>
      obtain ⟨k, v⟩ := m
      obtain ⟨t, ht, hread⟩ := (h (k, v) (by simp)).read
      dsimp only at ht hread
      obtain ⟨f, rfl⟩ := Nat.exists_eq_succ_of_ne_zero (show f ≠ 0 by omega)
      cases l with
      | nil =>
          rw [Value.serializeFields, ht, Value.serializeFields] at hf ⊢
          simp only [joinComma, List.length_append, List.length_cons] at hf ⊢
          rw [readMembers, List.append_assoc, quote_append, skipSpace_of_head rfl]
          simp only [stripPrefix?, if_true, Option.bind_eq_bind, Option.bind_some,
            readString_quoteBody, List.cons_append, skipSpace_of_head (c := 58) rfl,
            hread (show t.length ≤ f by omega) (numberStops_brace rest), skipSpace_of_head (c := 125) rfl]
          rfl
      | cons n l =>
          have hstep := @ih (by simp) fun v hv => h v (by simp [hv])
          have hjoin : joinComma (Value.serializeFields ((k, v) :: n :: l))
              = quote k ++ 58 :: (t ++ 44 :: joinComma (Value.serializeFields (n :: l))) := by
            obtain ⟨u, hu, -⟩ := h n (by simp)
            rw [Value.serializeFields, ht]
            obtain ⟨j, w⟩ := n
            dsimp only at hu
            simp only [Value.serializeFields, hu, joinComma, List.append_assoc, List.cons_append]
          rw [hjoin] at hf ⊢
          simp only [List.length_append, List.length_cons] at hf
          rw [readMembers, List.append_assoc, quote_append, skipSpace_of_head rfl]
          simp only [stripPrefix?, if_true, Option.bind_eq_bind, Option.bind_some,
            readString_quoteBody, List.cons_append, skipSpace_of_head (c := 58) rfl,
            List.append_assoc, hread (show t.length ≤ f by omega) (numberStops_comma _),
            skipSpace_of_head (c := 44) rfl, hstep (show _ + 1 ≤ f by omega)]
          rfl

lemma readValue_null (f : ℕ) (rest : Str) :
    readValue (f + 1) (js "null" ++ rest) = some (.null, rest) := rfl

lemma readValue_bool (f : ℕ) (b : Bool) (rest : Str) :
    readValue (f + 1) ((if b then js "true" else js "false") ++ rest) = some (.bool b, rest) := by
  cases b <;> rfl

/-- An array whose elements are read is read: past the bracket comes a value, not the end. -/
lemma readValue_arr {f : ℕ} {t r : Str} {c : UInt16} {l : List Value} {rest : Str}
    (ht : t = c :: r) (hc : startsValue c = true) (h : readElements f t = some (l, rest)) :
    readValue (f + 1) (91 :: t) = some (.arr l, rest) := by
  subst ht
  rw [readValue, skipSpace_of_head rfl]
  simp only [show ((91 : UInt16) = 34) = False by decide, if_true, if_false,
    skipSpace_of_head (isSpace_of_startsValue hc)]
  split
  · next heq =>
      obtain ⟨rfl, rfl⟩ := List.cons.inj heq
      simp [startsValue, isDigit] at hc
  · rw [h]
    rfl

/-- An object whose members are read is read. -/
lemma readValue_obj {f : ℕ} {t r : Str} {l : Fields} {rest : Str} (ht : t = 34 :: r)
    (h : readMembers f [] t = some (l, rest)) :
    readValue (f + 1) (123 :: t) = some (.obj l, rest) := by
  subst ht
  rw [readValue, skipSpace_of_head rfl]
  simp only [show ((123 : UInt16) = 34) = False by decide,
    show ((123 : UInt16) = 91) = False by decide, if_true, if_false,
    skipSpace_of_head (c := 34) rfl, h]
  rfl

lemma posZero_keys_ordered {l : Fields} (h : l.Ordered) :
    Fields.Ordered (l.map fun m => (m.1, m.2.posZero)) := by
  rw [Fields.Ordered, List.pairwise_map]
  exact h

/-- **The text of a value reads back**, off the head of a longer text. -/
theorem reads_of_isJson {v : Value} (hj : v.isJson = true) (hf : v.allFinite = true) :
    v.Reads := by
  induction v using Value.ind with
  | undefined | bigint | symbol | function => simp [Value.isJson] at hj
  | null => exact ⟨_, rfl, fun f rest _ _ => readValue_null f rest⟩
  | bool b => exact ⟨_, rfl, fun f rest _ _ => readValue_bool f b rest⟩
  | num n =>
      cases n with
      | nan => simp [Value.allFinite] at hf
      | inf neg => simp [Value.allFinite] at hf
      | fin d => exact ⟨_, rfl, fun f rest _ hr => readValue_num hr⟩
  | str s =>
      refine ⟨_, rfl, fun f rest _ _ => ?_⟩
      rw [quote_append, readValue, skipSpace_of_head rfl]
      simp only [if_true, readString_quoteBody]
      rfl
  | arr l ih =>
      rw [Value.isJson, Value.isJsonList_iff] at hj
      rw [Value.allFinite, Value.allFiniteList_iff] at hf
      refine ⟨_, rfl, fun f rest hlen _ => ?_⟩
      simp only [List.length_cons, List.length_append] at hlen
      rw [Value.posZero, Value.posZeroList_eq, List.cons_append, List.append_assoc,
        List.singleton_append]
      cases l with
      | nil => rfl
      | cons v l =>
          have hread := fun w hw => ih w hw (hj w hw) (hf w hw)
          obtain ⟨t, ht, -⟩ := hread v (by simp)
          obtain ⟨c, r, rfl, hc⟩ := head_serialize ht
          have helems : readElements f (joinComma (Value.serializeList (v :: l)) ++ 93 :: rest)
              = some ((v :: l).map Value.posZero, rest) :=
            readElements_serialize (by simp) hread (by omega)
          obtain ⟨s, hs⟩ : ∃ s, joinComma (Value.serializeList (v :: l)) = c :: s := by
            rw [Value.serializeList, ht]
            cases Value.serializeList l <;> exact ⟨_, rfl⟩
          rw [hs] at helems ⊢
          exact readValue_arr rfl hc helems
  | obj l ih =>
      rw [Value.isJson, Bool.and_eq_true, decide_eq_true_eq, Value.isJsonFields_iff] at hj
      rw [Value.allFinite, Value.allFiniteFields_iff] at hf
      refine ⟨_, rfl, fun f rest hlen _ => ?_⟩
      simp only [List.length_cons, List.length_append] at hlen
      rw [Value.posZero, Value.posZeroFields_eq, List.cons_append, List.append_assoc,
        List.singleton_append]
      cases l with
      | nil => rfl
      | cons m l =>
          have hread := fun n hn => ih n hn (hj.2 n hn) (hf n hn)
          have hmembers := @readMembers_serialize _ (by simp) hread f [] rest (by omega)
          rw [Fields.foldl_setProp (posZero_keys_ordered hj.1) [] (by simp)] at hmembers
          obtain ⟨k, v⟩ := m
          obtain ⟨t, ht, -⟩ := hread (k, v) (by simp)
          dsimp only at ht
          obtain ⟨s, hs⟩ : ∃ s, joinComma (Value.serializeFields ((k, v) :: l)) = 34 :: s := by
            rw [Value.serializeFields, ht]
            cases Value.serializeFields l <;> exact ⟨_, rfl⟩
          rw [hs] at hmembers ⊢
          exact readValue_obj rfl hmembers

/-- **Round trip.** A value JSON can denote, with finite numbers, is what its text parses to,
the sign of zeros apart. -/
theorem parse_serialize {v : Value} (hj : v.isJson = true) (hf : v.allFinite = true) :
    ∃ t, v.serialize = some t ∧ parse t = some v.posZero := by
  obtain ⟨t, ht, hread⟩ := (reads_of_isJson hj hf).read
  refine ⟨t, ht, ?_⟩
  have hwhole := hread (show t.length ≤ 2 * t.length + 2 by omega) (show numberStops [] by simp [numberStops])
  rw [List.append_nil] at hwhole
  rw [parse, hwhole]
  rfl

lemma toStr_posZero (d : Double) : (Number.fin d.posZero).toStr = (Number.fin d).toStr := by
  by_cases h : d.sig = 0
  · simp [Double.posZero, h, Double.zero, Number.toStr, Double.magStr]
  · rw [Double.posZero, if_neg h]

/-- The text of a value is the text of what JSON keeps of it. -/
lemma serialize_jsonForm {v : Value} (hj : v.isJson = true) : v.jsonForm.serialize = v.serialize := by
  induction v using Value.ind with
  | undefined | bigint | symbol | function => simp [Value.isJson] at hj
  | null | bool | str => rfl
  | num n =>
      cases n with
      | fin d => rw [Value.jsonForm, Value.serialize, Value.serialize, toStr_posZero]
      | nan | inf => rfl
  | arr l ih =>
      rw [Value.isJson, Value.isJsonList_iff] at hj
      rw [Value.jsonForm, Value.serialize, Value.serialize]
      congr 4
      induction l with
      | nil => rfl
      | cons v l ihl =>
          rw [Value.jsonFormList, Value.serializeList, Value.serializeList, ih v (by simp) (hj v (by simp)),
            ihl (fun w hw => ih w (by simp [hw])) fun w hw => hj w (by simp [hw])]
  | obj l ih =>
      rw [Value.isJson, Bool.and_eq_true, Value.isJsonFields_iff] at hj
      rw [Value.jsonForm, Value.serialize, Value.serialize]
      congr 4
      replace hj := hj.2
      induction l with
      | nil => rfl
      | cons m l ihl =>
          obtain ⟨k, v⟩ := m
          rw [Value.jsonFormFields, Value.serializeFields, Value.serializeFields,
            ih (k, v) (by simp) (hj (k, v) (by simp)),
            ihl (fun w hw => ih w (by simp [hw])) fun w hw => hj w (by simp [hw])]

/-- What JSON keeps is a value JSON can denote, with finite numbers. -/
lemma jsonForm_isJson {v : Value} (hj : v.isJson = true) :
    v.jsonForm.isJson = true ∧ v.jsonForm.allFinite = true ∧ v.jsonForm.posZero = v.jsonForm := by
  induction v using Value.ind with
  | undefined | bigint | symbol | function => simp [Value.isJson] at hj
  | null | bool | str => exact ⟨rfl, rfl, rfl⟩
  | num n => cases n <;> simp [Value.jsonForm, Value.isJson, Value.allFinite, Value.posZero,
      Value.posZero_posZero]
  | arr l ih =>
      rw [Value.isJson, Value.isJsonList_iff] at hj
      rw [Value.jsonForm, Value.isJson, Value.allFinite, Value.posZero, Value.posZeroList_eq,
        Value.jsonFormList_eq, Value.isJsonList_iff, Value.allFiniteList_iff, List.map_map]
      refine ⟨?_, ?_, congrArg _ (List.map_congr_left fun w hw => (ih w hw (hj w hw)).2.2)⟩
      · intro x hx
        obtain ⟨w, hw, rfl⟩ := List.mem_map.mp hx
        exact (ih w hw (hj w hw)).1
      · intro x hx
        obtain ⟨w, hw, rfl⟩ := List.mem_map.mp hx
        exact (ih w hw (hj w hw)).2.1
  | obj l ih =>
      rw [Value.isJson, Bool.and_eq_true, Value.isJsonFields_iff, decide_eq_true_iff] at hj
      rw [Value.jsonForm, Value.isJson, Value.allFinite, Value.posZero, Value.posZeroFields_eq,
        Value.jsonFormFields_eq, Bool.and_eq_true, Value.isJsonFields_iff,
        Value.allFiniteFields_iff, List.map_map, decide_eq_true_iff]
      refine ⟨⟨?_, ?_⟩, ?_, congrArg _ (List.map_congr_left fun m hm => ?_)⟩
      · rw [Fields.Ordered, List.pairwise_map]
        exact hj.1
      · intro x hx
        obtain ⟨m, hm, rfl⟩ := List.mem_map.mp hx
        exact (ih m hm (hj.2 m hm)).1
      · intro x hx
        obtain ⟨m, hm, rfl⟩ := List.mem_map.mp hx
        exact (ih m hm (hj.2 m hm)).2.1
      · exact Prod.ext rfl (ih m hm (hj.2 m hm)).2.2

/-- **What is written and read again** is what JSON keeps. -/
theorem parse_serialize_jsonForm {v : Value} (hj : v.isJson = true) :
    ∃ t, v.serialize = some t ∧ parse t = some v.jsonForm := by
  obtain ⟨hform, hfinite, hzero⟩ := jsonForm_isJson hj
  obtain ⟨t, ht, hparse⟩ := parse_serialize hform hfinite
  rw [serialize_jsonForm hj] at ht
  rw [hzero] at hparse
  exact ⟨t, ht, hparse⟩

/-- Two values with one text are one value to JSON. -/
lemma jsonForm_eq_of_serialize {v w : Value} (hv : v.isJson = true) (hw : w.isJson = true)
    (h : v.serialize = w.serialize) : v.jsonForm = w.jsonForm := by
  obtain ⟨t, ht, hparse⟩ := parse_serialize_jsonForm hv
  obtain ⟨u, hu, hparse'⟩ := parse_serialize_jsonForm hw
  rw [ht, hu] at h
  cases h
  exact Option.some.inj (hparse.symm.trans hparse')

lemma Value.hasBigint_of_isJson {v : Value} (h : v.isJson = true) : v.hasBigint = false := by
  induction v using Value.ind with
  | undefined | bigint | symbol | function => simp [Value.isJson] at h
  | null | bool | num | str => rfl
  | arr l ih =>
      rw [Value.isJson, Value.isJsonList_iff] at h
      rw [Value.hasBigint]
      induction l with
      | nil => rfl
      | cons v l ihl =>
          rw [Value.hasBigintList, ih v (by simp) (h v (by simp)),
            ihl (fun w hw => ih w (by simp [hw])) fun w hw => h w (by simp [hw])]
          rfl
  | obj l ih =>
      rw [Value.isJson, Bool.and_eq_true, Value.isJsonFields_iff] at h
      obtain ⟨-, h⟩ := h
      rw [Value.hasBigint]
      induction l with
      | nil => rfl
      | cons m l ihl =>
          obtain ⟨k, v⟩ := m
          rw [Value.hasBigintFields, ih (k, v) (by simp) (h (k, v) (by simp)),
            ihl (fun w hw => ih w (by simp [hw])) fun w hw => h w (by simp [hw])]
          rfl

/-- Data of JSON is written without an exception. -/
lemma Value.stringify_of_isJson {v : Value} (h : v.isJson = true) :
    v.stringify = .ok v.serialize := by
  rw [Value.stringify, Value.hasBigint_of_isJson h]
  rfl

/-! ### Bytes -/

lemma wellFormed_cons {c : UInt16} {s : Str} (hc : isHigh c = false ∧ isLow c = false) :
    wellFormed (c :: s) = wellFormed s := by
  cases s with
  | nil => simp [wellFormed, hc.1, hc.2]
  | cons d s => simp [wellFormed, hc.1, hc.2]

lemma wellFormed_append {s t : Str} (hs : wellFormed s = true) (ht : wellFormed t = true) :
    wellFormed (s ++ t) = true := by
  induction s using wellFormed.induct with
  | case1 => exact ht
  | case2 c =>
      have hc : isHigh c = false ∧ isLow c = false := by simpa [wellFormed] using hs
      rw [List.singleton_append, wellFormed_cons hc]
      exact ht
  | case3 c d s h ih =>
      rw [wellFormed, if_pos h] at hs
      rw [List.cons_append, List.cons_append, wellFormed, if_pos h]
      exact ih hs
  | case4 c d s h ih =>
      rw [wellFormed, if_neg h, Bool.and_eq_true] at hs
      have hc : isHigh c = false ∧ isLow c = false := by simpa using hs.1
      rw [List.cons_append, wellFormed_cons hc]
      exact ih hs.2

lemma isAscii_hexUnit {d : ℕ} (h : d < 16) : (hexUnit d).toNat < 128 := by
  interval_cases d <;> decide

lemma wellFormed_quoteUnit (c : UInt16) : wellFormed (quoteUnit c) = true := by
  rw [quoteUnit]
  split_ifs with h1 h2 h3 h4 h5 h6 h7 h8
  all_goals try decide
  · have hc := c.toNat_lt
    refine wellFormed_of_isAscii ?_
    have h1 := isAscii_hexUnit (d := c.toNat / 4096) (by omega)
    have h2 := isAscii_hexUnit (d := c.toNat / 256 % 16) (by omega)
    have h3 := isAscii_hexUnit (d := c.toNat / 16 % 16) (by omega)
    have h4 := isAscii_hexUnit (d := c.toNat % 16) (by omega)
    simp [isAscii, unicodeEscape, h1, h2, h3, h4]
  · simp only [Bool.or_eq_true, not_or, Bool.not_eq_true] at h8
    simp [wellFormed, h8.1.2, h8.2]

lemma wellFormed_quoteBody (s : Str) : wellFormed (quoteBody s) = true := by
  induction s using quoteBody.induct with
  | case1 => rfl
  | case2 c => exact wellFormed_quoteUnit c
  | case3 c d s h ih => rw [quoteBody, if_pos h, wellFormed, if_pos h, ih]
  | case4 c d s h ih =>
      rw [quoteBody, if_neg h]
      exact wellFormed_append (wellFormed_quoteUnit c) ih

lemma wellFormed_quote (s : Str) : wellFormed (quote s) = true := by
  rw [quote, wellFormed_cons (by decide)]
  exact wellFormed_append (wellFormed_quoteBody s) (by decide)

lemma wellFormed_joinComma {l : List Str} (h : ∀ t ∈ l, wellFormed t = true) :
    wellFormed (joinComma l) = true := by
  induction l using joinComma.induct with
  | case1 => rfl
  | case2 t => exact h t (by simp)
  | case3 t u l ih =>
      refine wellFormed_append (h t (by simp)) ?_
      rw [wellFormed_cons (by decide)]
      exact ih fun x hx => h x (by simp [hx])

lemma isAscii_append (s t : Str) : isAscii (s ++ t) = (isAscii s && isAscii t) :=
  List.all_append

lemma isAscii_cons (c : UInt16) (s : Str) :
    isAscii (c :: s) = (decide (c.toNat < 0x80) && isAscii s) := rfl

lemma isAscii_digits {ds : Str} (h : ∀ c ∈ ds, isDigit c = true) : isAscii ds = true := by
  rw [isAscii, List.all_eq_true]
  intro c hc
  have hd := h c hc
  simp only [isDigit, Bool.and_eq_true, decide_eq_true_eq] at hd ⊢
  omega

/-- A number is written in ASCII. -/
lemma isAscii_layout {ds : Str} (h : ∀ c ∈ ds, isDigit c = true) (n : ℤ) :
    isAscii (layout ds n) = true := by
  have htake : ∀ k, isAscii (ds.take k) = true := fun k =>
    isAscii_digits fun c hc => h c (List.mem_of_mem_take hc)
  have hdrop : ∀ k, isAscii (ds.drop k) = true := fun k =>
    isAscii_digits fun c hc => h c (List.mem_of_mem_drop hc)
  have hrep : ∀ k : ℕ, isAscii (List.replicate k 48) = true := fun k =>
    isAscii_digits fun c hc => by
      rw [(List.mem_replicate.mp hc).2]
      rfl
  have hdec : ∀ k, isAscii (decimal k) = true := fun k =>
    isAscii_digits fun c hc => isDigit_of_mem_decimal hc
  have hnil : isAscii [] = true := rfl
  rw [layout]
  split_ifs <;>
    simp only [isAscii_append, isAscii_cons, isAscii_digits h, htake, hdrop, hrep, hdec, hnil] <;>
    decide

lemma isAscii_toStr (d : Double) : isAscii (Number.fin d).toStr = true := by
  have hmag : isAscii d.magStr = true := by
    rw [Double.magStr]
    split
    · rfl
    · exact isAscii_layout (fun _ => isDigit_of_mem_decimal) _
  rw [Number.toStr]
  split
  · rw [isAscii_cons, hmag]
    rfl
  · exact hmag

lemma wellFormed_serializeList {l : List Value}
    (h : ∀ v ∈ l, ∀ t, v.serialize = some t → wellFormed t = true) :
    ∀ t ∈ Value.serializeList l, wellFormed t = true := by
  induction l with
  | nil => simp [Value.serializeList]
  | cons v l ih =>
      intro t ht
      rw [Value.serializeList, List.mem_cons] at ht
      rcases ht with rfl | ht
      · cases hv : v.serialize with
        | none => decide
        | some u => exact h v (by simp) u hv
      · exact ih (fun w hw => h w (by simp [hw])) t ht

lemma wellFormed_serializeFields {l : Fields}
    (h : ∀ m ∈ l, ∀ t, m.2.serialize = some t → wellFormed t = true) :
    ∀ t ∈ Value.serializeFields l, wellFormed t = true := by
  induction l with
  | nil => simp [Value.serializeFields]
  | cons m l ih =>
      obtain ⟨k, v⟩ := m
      have htail := ih fun n hn => h n (by simp [hn])
      intro t ht
      rw [Value.serializeFields] at ht
      cases hv : v.serialize with
      | none =>
          rw [hv] at ht
          exact htail t ht
      | some u =>
          rw [hv] at ht
          rcases List.mem_cons.mp ht with rfl | ht
          · refine wellFormed_append (wellFormed_quote k) ?_
            rw [wellFormed_cons (by decide)]
            exact h (k, v) (by simp) u hv
          · exact htail t ht

/-- The text of a value has no lone surrogate: those in its strings are escaped. -/
lemma wellFormed_serialize {v : Value} {t : Str} (h : v.serialize = some t) :
    wellFormed t = true := by
  induction v using Value.ind generalizing t with
  | undefined | bigint | symbol | function => simp [Value.serialize] at h
  | null =>
      obtain rfl := Option.some.inj h
      decide
  | bool b =>
      obtain rfl := Option.some.inj h
      cases b <;> decide
  | num n =>
      cases n with
      | nan =>
          obtain rfl := Option.some.inj h
          decide
      | inf neg =>
          obtain rfl := Option.some.inj h
          decide
      | fin d =>
          obtain rfl := Option.some.inj h
          exact wellFormed_of_isAscii (isAscii_toStr d)
  | str s =>
      obtain rfl := Option.some.inj h
      exact wellFormed_quote s
  | arr l ih =>
      obtain rfl := Option.some.inj h
      rw [wellFormed_cons (by decide)]
      exact wellFormed_append (wellFormed_joinComma (wellFormed_serializeList fun v hv t ht =>
        ih v hv ht)) (by decide)
  | obj l ih =>
      obtain rfl := Option.some.inj h
      rw [wellFormed_cons (by decide)]
      exact wellFormed_append (wellFormed_joinComma (wellFormed_serializeFields fun m hm t ht =>
        ih m hm ht)) (by decide)

/-- The text of a value comes back from its UTF-8 bytes. -/
lemma decodeFatal_serialize {v : Value} {t : Str} (h : v.serialize = some t) :
    decodeFatal (utf8Encode t) = some t := by
  refine decodeFatal_utf8Encode (wellFormed_serialize h) ?_
  obtain ⟨c, s, rfl, hc⟩ := head_serialize h
  have hlt : c.toNat < 128 := by
    simp only [startsValue, isDigit, Bool.or_eq_true, beq_iff_eq, Bool.and_eq_true,
      decide_eq_true_eq] at hc
    rcases hc with ((((((rfl | rfl) | rfl) | rfl) | rfl) | rfl) | rfl) | hc
    all_goals first | decide | omega
  have hhigh : isHigh c = false ∧ isLow c = false := by
    simp only [isHigh, isLow, Bool.and_eq_false_iff, decide_eq_false_iff_not]
    omega
  have hhead : (scalars (c :: s)).head? = some c.toNat := by
    cases s with
    | nil => simp [scalars, hhigh.1, hhigh.2]
    | cons d s => simp [scalars, hhigh.1, hhigh.2]
  rw [hhead]
  simp only [ne_eq, Option.some.injEq]
  omega

/-! ### What parsing produces -/

lemma roundPos_ne_nan (neg : Bool) (x : ℚ) : roundPos neg x ≠ .nan := by
  have hmk : ∀ (sig : ℕ) (exp : ℤ), Number.mk neg sig exp ≠ .nan := by
    intro sig exp
    rw [Number.mk]
    split <;> simp
  unfold roundPos
  dsimp only
  split <;> exact hmk _ _

lemma readNumber_ne_nan {s r : Str} {n : Number} (h : readNumber s = some (n, r)) : n ≠ .nan := by
  have hmag : ∀ {neg : Bool} {s : Str}, readMagnitude neg s = some (n, r) → n ≠ .nan := by
    intro neg s h
    rw [readMagnitude] at h
    simp only at h
    split at h
    · cases h
    · obtain ⟨p, -, h⟩ := Option.bind_eq_some_iff.mp h
      obtain ⟨q, -, h⟩ := Option.bind_eq_some_iff.mp h
      obtain ⟨rfl, -⟩ := Prod.mk.inj (Option.some.inj h)
      rw [Number.ofDecimal]
      split
      · simp
      · exact roundPos_ne_nan _ _
  rw [readNumber.eq_def] at h
  split at h
  · exact hmag h
  · exact hmag h

lemma keyBefore_trans {k j i : Str} (hk : arrayIndex? k ≠ none) (h : KeyBefore k j)
    (h' : KeyBefore j i) : KeyBefore k i := by
  rw [KeyBefore] at h h' ⊢
  obtain ⟨n, hn⟩ := Option.ne_none_iff_exists'.mp hk
  rw [hn] at h ⊢
  cases hj : arrayIndex? j <;> cases hi : arrayIndex? i <;> simp_all
  omega

lemma Fields.mem_insertKey {l : Fields} {k : Str} {v : Value} {n : Str × Value} :
    n ∈ l.insertKey k v ↔ n = (k, v) ∨ n ∈ l := by
  induction l with
  | nil => simp [Fields.insertKey]
  | cons m l ih =>
      rw [Fields.insertKey]
      split
      · rw [List.mem_cons]
      · rw [List.mem_cons, ih, List.mem_cons]
        tauto

/-- A new property keeps the property order. -/
lemma Fields.Ordered.insertKey {l : Fields} {k : Str} {v : Value} (h : l.Ordered)
    (hk : k ∉ l.map Prod.fst) : (l.insertKey k v).Ordered := by
  induction l with
  | nil => simp [Fields.insertKey, Fields.Ordered]
  | cons m l ih =>
      obtain ⟨j, w⟩ := m
      rw [Fields.Ordered, List.pairwise_cons] at h
      rw [List.map_cons, List.mem_cons, not_or] at hk
      rw [Fields.insertKey]
      split
      · next hc =>
          rw [Fields.Ordered, List.pairwise_cons]
          refine ⟨fun n hn => ?_, List.pairwise_cons.mpr h⟩
          rcases List.mem_cons.mp hn with rfl | hn
          · exact hc.1
          · exact keyBefore_trans hc.2 hc.1 (h.1 n hn)
      · next hc =>
          rw [Fields.Ordered, List.pairwise_cons]
          refine ⟨fun n hn => ?_, ih h.2 hk.2⟩
          rcases Fields.mem_insertKey.mp hn with rfl | hn
          · rcases keyBefore_total hk.1 with hkj | hjk
            · have hnone : arrayIndex? k = none := by
                by_contra hne
                exact hc ⟨hkj, hne⟩
              rw [KeyBefore, hnone] at hkj
              rw [KeyBefore, hnone]
              cases hj : arrayIndex? j with
              | none => exact Ne.symm hk.1
              | some n => simp [hj] at hkj
            · exact hjk
          · exact h.1 n hn

lemma Fields.Ordered.setProp {l : Fields} (h : l.Ordered) (k : Str) (v : Value) :
    (l.setProp k v).Ordered := by
  rw [Fields.setProp]
  split
  · rw [Fields.Ordered, List.pairwise_map]
    refine List.Pairwise.imp (fun {a b} hab => ?_) h
    have hkey : ∀ m : Str × Value, (if m.1 = k then (k, v) else m).1 = m.1 := by
      intro m
      split
      · next hm => exact hm.symm
      · rfl
    rw [hkey, hkey]
    exact hab
  · next hk => exact h.insertKey hk

lemma Fields.mem_setProp {l : Fields} {k : Str} {v : Value} {n : Str × Value}
    (h : n ∈ l.setProp k v) : n = (k, v) ∨ n ∈ l := by
  rw [Fields.setProp] at h
  split at h
  · obtain ⟨m, hm, rfl⟩ := List.mem_map.mp h
    split
    · exact Or.inl rfl
    · exact Or.inr hm
  · exact Fields.mem_insertKey.mp h

/-- Reading gives values JSON can denote, with any fuel. -/
lemma isJson_of_read (f : ℕ) :
    (∀ {s r v}, readValue f s = some (v, r) → v.isJson = true)
    ∧ (∀ {s r l}, readElements f s = some (l, r) → Value.isJsonList l = true)
    ∧ (∀ {s r acc l}, Fields.Ordered acc → Value.isJsonFields acc = true →
        readMembers f acc s = some (l, r) → Fields.Ordered l ∧ Value.isJsonFields l = true) := by
  induction f with
  | zero => simp [readValue, readElements, readMembers]
  | succ f ih =>
      obtain ⟨ihv, ihe, ihm⟩ := ih
      refine ⟨fun {s r v} h => ?_, fun {s r l} h => ?_, fun {s r acc l} ho hj h => ?_⟩
      · rw [readValue] at h
        split at h
        · cases h
        · next c r' _ =>
            split_ifs at h
            · obtain ⟨p, -, hp⟩ := Option.map_eq_some_iff.mp h
              obtain ⟨rfl, -⟩ := Prod.mk.inj hp
              rfl
            · split at h
              · obtain ⟨rfl, -⟩ := Prod.mk.inj (Option.some.inj h)
                rfl
              · obtain ⟨p, hp, hp'⟩ := Option.map_eq_some_iff.mp h
                obtain ⟨rfl, -⟩ := Prod.mk.inj hp'
                exact ihe hp
            · split at h
              · obtain ⟨rfl, -⟩ := Prod.mk.inj (Option.some.inj h)
                decide
              · obtain ⟨p, hp, hp'⟩ := Option.map_eq_some_iff.mp h
                obtain ⟨rfl, -⟩ := Prod.mk.inj hp'
                obtain ⟨hord, hval⟩ := ihm (by simp [Fields.Ordered]) rfl hp
                simp [Value.isJson, hord, hval]
            · obtain ⟨p, -, hp⟩ := Option.map_eq_some_iff.mp h
              obtain ⟨rfl, -⟩ := Prod.mk.inj hp
              rfl
            · obtain ⟨p, -, hp⟩ := Option.map_eq_some_iff.mp h
              obtain ⟨rfl, -⟩ := Prod.mk.inj hp
              rfl
            · obtain ⟨p, -, hp⟩ := Option.map_eq_some_iff.mp h
              obtain ⟨rfl, -⟩ := Prod.mk.inj hp
              rfl
            · obtain ⟨p, hp, hp'⟩ := Option.map_eq_some_iff.mp h
              obtain ⟨rfl, -⟩ := Prod.mk.inj hp'
              simpa [Value.isJson] using readNumber_ne_nan hp
      · rw [readElements] at h
        obtain ⟨p, hp, h⟩ := Option.bind_eq_some_iff.mp h
        dsimp only at h
        split at h
        · obtain ⟨q, hq, h⟩ := Option.bind_eq_some_iff.mp h
          obtain ⟨rfl, -⟩ := Prod.mk.inj (Option.some.inj h)
          rw [Value.isJsonList, ihv hp, ihe hq]
          rfl
        · obtain ⟨rfl, -⟩ := Prod.mk.inj (Option.some.inj h)
          rw [Value.isJsonList, ihv hp]
          rfl
        · cases h
      · rw [readMembers] at h
        obtain ⟨s₁, -, h⟩ := Option.bind_eq_some_iff.mp h
        obtain ⟨⟨k, r₁⟩, -, h⟩ := Option.bind_eq_some_iff.mp h
        obtain ⟨r₂, -, h⟩ := Option.bind_eq_some_iff.mp h
        obtain ⟨⟨v, r₃⟩, hv, h⟩ := Option.bind_eq_some_iff.mp h
        have hset : Value.isJsonFields (acc.setProp k v) = true := by
          rw [Value.isJsonFields_iff] at hj ⊢
          intro m hm
          rcases Fields.mem_setProp hm with rfl | hm
          · exact ihv hv
          · exact hj m hm
        dsimp only at h
        split at h
        · exact ihm (ho.setProp k v) hset h
        · obtain ⟨rfl, -⟩ := Prod.mk.inj (Option.some.inj h)
          exact ⟨ho.setProp k v, hset⟩
        · cases h

/-- What parsing produces is a value JSON can denote. -/
theorem isJson_of_parse {s : Str} {v : Value} (h : parse s = some v) : v.isJson = true := by
  rw [parse] at h
  split at h
  · next v' r hr =>
      split at h
      · obtain rfl := Option.some.inj h
        exact (isJson_of_read _).1 hr
      · cases h
  · cases h

end Js
