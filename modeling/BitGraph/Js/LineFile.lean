import BitGraph.Js.JsonText
import BitGraph.Js.Lines

/-!
Files of JSON lines that a crash may cut.

* **Texts.** `newline_notMem_serialize`: the text of a value has no newline, so it is a line.
* **Files.** `LineFile` is a file of whole lines and the beginning of one more.
  `LineFile.splitLines_eq` reads the lines back; `completeLines` are those a newline ends.
* **Growing.** `LineFile.write`: bytes of a further line leave such a file, with the line in it
  once all of them are written.
-/

namespace Js

/-! ### Control characters -/

/-- No code unit is a control character. -/
def NoControl (s : Str) : Prop := ∀ c ∈ s, 32 ≤ c.toNat

lemma NoControl.append {s t : Str} (hs : NoControl s) (ht : NoControl t) : NoControl (s ++ t) :=
  fun c hc => (List.mem_append.mp hc).elim (hs c) (ht c)

lemma NoControl.cons {c : UInt16} {s : Str} (hc : 32 ≤ c.toNat) (hs : NoControl s) :
    NoControl (c :: s) := fun d hd => by
  rcases List.mem_cons.mp hd with rfl | hd
  · exact hc
  · exact hs d hd

lemma noControl_nil : NoControl [] := fun _ hc => absurd hc List.not_mem_nil

/-- Decided by running over the text. -/
lemma noControl_of_all {s : Str} (h : (s.all fun c => decide (32 ≤ c.toNat)) = true) : NoControl s :=
  fun c hc => of_decide_eq_true (List.all_eq_true.mp h c hc)

lemma noControl_digits {s : Str} (h : ∀ c ∈ s, isDigit c = true) : NoControl s := fun c hc => by
  have hd : 48 ≤ c.toNat ∧ c.toNat ≤ 57 := by simpa [isDigit] using h c hc
  omega

lemma noControl_layout {ds : Str} (h : ∀ c ∈ ds, isDigit c = true) (n : ℤ) :
    NoControl (layout ds n) := by
  have htake : ∀ k, NoControl (ds.take k) := fun k =>
    noControl_digits fun c hc => h c (List.mem_of_mem_take hc)
  have hdrop : ∀ k, NoControl (ds.drop k) := fun k =>
    noControl_digits fun c hc => h c (List.mem_of_mem_drop hc)
  have hzeros : ∀ k : ℕ, NoControl (List.replicate k 48) := fun k =>
    noControl_digits fun c hc => by rw [List.eq_of_mem_replicate hc]; rfl
  rw [layout]
  split_ifs
  · exact (noControl_digits h).append (hzeros _)
  · exact (htake _).append (.cons (by decide) (hdrop _))
  · exact .cons (by decide) (.cons (by decide) ((hzeros _).append (noControl_digits h)))
  all_goals
    refine ((htake 1).append ?_).append (.cons (by decide) (.cons (by decide)
      (noControl_digits fun c hc => isDigit_of_mem_decimal hc)))
    first
      | exact noControl_nil
      | exact .cons (by decide) (hdrop 1)

lemma noControl_toStr (d : Double) : NoControl (Number.fin d).toStr := by
  have hmag : NoControl d.magStr := by
    rw [Double.magStr]
    split
    · exact .cons (by decide) noControl_nil
    · exact noControl_layout (fun _ => isDigit_of_mem_decimal) _
  rw [Number.toStr]
  split
  · exact .cons (by decide) hmag
  · exact hmag

lemma noControl_quoteUnit (c : UInt16) : NoControl (quoteUnit c) := by
  have hhex : ∀ d : ℕ, d < 16 → 32 ≤ (hexUnit d).toNat := by decide
  have hlt := c.toNat_lt
  rw [quoteUnit]
  split_ifs with h1 h2 h3 h4 h5 h6 h7 h8
  all_goals first
    | exact .cons (by decide) (.cons (by decide) noControl_nil)
    | skip
  · have h : ∀ x ∈ unicodeEscape c, 32 ≤ x.toNat := by
      intro x hx
      simp only [unicodeEscape, List.mem_cons, List.not_mem_nil, or_false] at hx
      rcases hx with rfl | rfl | rfl | rfl | rfl | rfl
      · decide
      · decide
      all_goals exact hhex _ (by omega)
    exact h
  · simp only [Bool.or_eq_true, decide_eq_true_eq, not_or, not_lt] at h8
    exact .cons h8.1.1 noControl_nil

lemma noControl_quoteBody (s : Str) : NoControl (quoteBody s) := by
  induction s using quoteBody.induct with
  | case1 => exact noControl_nil
  | case2 c => exact noControl_quoteUnit c
  | case3 c d s h ih =>
      rw [quoteBody, if_pos h]
      have hpair : 32 ≤ c.toNat ∧ 32 ≤ d.toNat := by
        simp only [isHigh, isLow, Bool.and_eq_true, decide_eq_true_eq] at h
        omega
      exact .cons hpair.1 (.cons hpair.2 ih)
  | case4 c d s h ih =>
      rw [quoteBody, if_neg h]
      exact (noControl_quoteUnit c).append ih

lemma noControl_quote (s : Str) : NoControl (quote s) :=
  .cons (by decide) ((noControl_quoteBody s).append (.cons (by decide) noControl_nil))

lemma noControl_joinComma {l : List Str} (h : ∀ t ∈ l, NoControl t) : NoControl (joinComma l) := by
  induction l using joinComma.induct with
  | case1 => exact noControl_nil
  | case2 t => exact h t List.mem_cons_self
  | case3 t u l ih =>
      refine (h t List.mem_cons_self).append (.cons (by decide) ?_)
      exact ih fun x hx => h x (List.mem_cons_of_mem _ hx)

lemma noControl_serializeList {l : List Value}
    (h : ∀ v ∈ l, ∀ t, v.serialize = some t → NoControl t) :
    ∀ t ∈ Value.serializeList l, NoControl t := by
  induction l with
  | nil => exact fun t ht => absurd ht List.not_mem_nil
  | cons v l ih =>
      intro t ht
      rcases List.mem_cons.mp ht with rfl | ht
      · cases hv : v.serialize with
        | none => exact noControl_of_all rfl
        | some u => exact h v List.mem_cons_self u hv
      · exact ih (fun w hw => h w (List.mem_cons_of_mem _ hw)) t ht

lemma noControl_serializeFields {l : Fields}
    (h : ∀ m ∈ l, ∀ t, m.2.serialize = some t → NoControl t) :
    ∀ t ∈ Value.serializeFields l, NoControl t := by
  induction l with
  | nil => exact fun t ht => absurd ht List.not_mem_nil
  | cons m l ih =>
      obtain ⟨k, v⟩ := m
      have htail := ih fun n hn => h n (List.mem_cons_of_mem _ hn)
      intro t ht
      rw [Value.serializeFields] at ht
      cases hv : v.serialize with
      | none =>
          rw [hv] at ht
          exact htail t ht
      | some u =>
          rw [hv] at ht
          rcases List.mem_cons.mp ht with rfl | ht
          · exact (noControl_quote k).append (.cons (by decide) (h (k, v) List.mem_cons_self u hv))
          · exact htail t ht

/-- The text of a value has no control character: those in its strings are escaped. -/
lemma noControl_serialize {v : Value} {t : Str} (h : v.serialize = some t) : NoControl t := by
  induction v using Value.ind generalizing t with
  | undefined | bigint | symbol | function => simp [Value.serialize] at h
  | null =>
      obtain rfl := Option.some.inj h
      exact noControl_of_all rfl
  | bool b =>
      obtain rfl := Option.some.inj h
      cases b
      · exact noControl_of_all rfl
      · exact noControl_of_all rfl
  | num n =>
      cases n with
      | nan =>
          obtain rfl := Option.some.inj h
          exact noControl_of_all rfl
      | inf neg =>
          obtain rfl := Option.some.inj h
          exact noControl_of_all rfl
      | fin d =>
          obtain rfl := Option.some.inj h
          exact noControl_toStr d
  | str s =>
      obtain rfl := Option.some.inj h
      exact noControl_quote s
  | arr l ih =>
      obtain rfl := Option.some.inj h
      refine .cons (by decide) (NoControl.append ?_ (.cons (by decide) noControl_nil))
      exact noControl_joinComma (noControl_serializeList fun v hv t ht => ih v hv ht)
  | obj l ih =>
      obtain rfl := Option.some.inj h
      refine .cons (by decide) (NoControl.append ?_ (.cons (by decide) noControl_nil))
      exact noControl_joinComma (noControl_serializeFields fun m hm t ht => ih m hm ht)

/-- The text of a value is one line. -/
lemma newline_notMem_serialize {v : Value} {t : Str} (h : v.serialize = some t) :
    (10 : UInt16) ∉ t := fun hmem => absurd (noControl_serialize h 10 hmem) (by decide)

/-! ### Files -/

/-- The bytes of a line. -/
def lineBytes (s : Str) : Bytes := utf8Encode (s ++ [10])

/-- A text on one line, which its bytes give back. -/
def IsLine (s : Str) : Prop := wellFormed s = true ∧ (10 : UInt16) ∉ s

/-- The lines of a file that a newline ends. -/
def completeLines (file : Bytes) : List Str := (splitLines (bufferToString file)).dropLast

lemma isLine_serialize {v : Value} {t : Str} (h : v.serialize = some t) : IsLine t :=
  ⟨wellFormed_serialize h, newline_notMem_serialize h⟩

lemma splitLines_of_notMem {s : Str} (h : (10 : UInt16) ∉ s) : splitLines s = [s] := by
  induction s with
  | nil => rfl
  | cons c s ih =>
      rw [List.mem_cons, not_or] at h
      rw [splitLines, if_neg (Ne.symm h.1), ih h.2]

/-- A newline is its own byte. -/
lemma lineBytes_eq (s : Str) : lineBytes s = utf8Encode s ++ [10] := by
  have hnot : ∀ c ∈ s.getLast?, ∀ d ∈ ([10] : Str).head?, (isHigh c && isLow d) = false := by
    rintro c - d hd
    obtain rfl : 10 = d := Option.some.inj hd
    rw [Bool.and_eq_false_iff]
    exact .inr (by decide)
  rw [lineBytes, utf8Encode, scalars_append hnot, List.flatMap_append]
  rfl

/-- No newline byte comes out of a text without newline. -/
lemma newline_notMem_utf8Encode {s : Str} (h : IsLine s) : (10 : UInt8) ∉ utf8Encode s := by
  intro hmem
  obtain ⟨cp, hcp, hb⟩ := List.mem_flatMap.mp hmem
  have hscalar : IsScalar cp := isScalar_of_mem_scalars hcp
  have hne : cp ≠ 10 := by
    rintro rfl
    refine h.2 ?_
    rw [← flatMap_units_scalars h.1]
    exact List.mem_flatMap.mpr ⟨10, hcp, List.mem_singleton.mpr rfl⟩
  have hbyte : ∀ n, n ≠ 10 → n < 256 → (10 : UInt8) ≠ UInt8.ofNat n := by
    intro n hn hlt h0
    have := congrArg UInt8.toNat h0
    rw [UInt8.toNat_ofNat'] at this
    have h10 : (10 : UInt8).toNat = 10 := rfl
    omega
  rw [encodeScalar] at hb
  unfold IsScalar at hscalar
  split_ifs at hb <;> simp only [List.mem_cons, List.not_mem_nil, or_false] at hb
  · exact hbyte cp hne (by omega) hb
  · rcases hb with hb | hb <;> exact hbyte _ (by omega) (by omega) hb
  · rcases hb with hb | hb | hb <;> exact hbyte _ (by omega) (by omega) hb
  · rcases hb with hb | hb | hb | hb <;> exact hbyte _ (by omega) (by omega) hb

/-- A file of whole lines, and of the beginning of one more. -/
structure LineFile (lines : List Str) (file : Bytes) : Prop where
  isLine : ∀ l ∈ lines, IsLine l
  split : ∃ torn t, IsLine t ∧ torn <+: utf8Encode t ∧ file = lines.flatMap lineBytes ++ torn

namespace LineFile

variable {lines : List Str} {file : Bytes}

/-- A file of whole lines. -/
lemma whole (h : ∀ l ∈ lines, IsLine l) : LineFile lines (lines.flatMap lineBytes) :=
  ⟨h, [], [], ⟨rfl, List.not_mem_nil⟩, List.nil_prefix, (List.append_nil _).symm⟩

lemma empty : LineFile [] [] := @whole [] fun _ hl => absurd hl List.not_mem_nil

/-- The bytes of whole lines are the bytes of their characters. -/
lemma bytes_eq (h : ∀ l ∈ lines, IsLine l) :
    ∃ ds : List ℕ, (∀ d ∈ ds, IsScalar d) ∧ lines.flatMap lineBytes = ds.flatMap encodeScalar
      ∧ ds.flatMap units = lines.flatMap fun l => l ++ [10] := by
  induction lines with
  | nil => exact ⟨[], fun _ hd => absurd hd List.not_mem_nil, rfl, rfl⟩
  | cons l lines ih =>
      obtain ⟨ds, hds, hbytes, htext⟩ := ih fun x hx => h x (List.mem_cons_of_mem _ hx)
      refine ⟨scalars l ++ 10 :: ds, ?_, ?_, ?_⟩
      · intro d hd
        rcases List.mem_append.mp hd with hd | hd
        · exact isScalar_of_mem_scalars hd
        · rcases List.mem_cons.mp hd with rfl | hd
          · exact .inl (by decide)
          · exact hds d hd
      · rw [List.flatMap_cons, lineBytes_eq, List.flatMap_append, List.flatMap_cons, ← hbytes,
          List.append_assoc]
        rfl
      · rw [List.flatMap_cons, List.flatMap_append, List.flatMap_cons, htext,
          flatMap_units_scalars (h l List.mem_cons_self).1, List.append_assoc]
        rfl

/-- What the reader of the file sees: the lines, and a tail without newline. -/
lemma text_eq (h : LineFile lines file) : ∃ tail, IsLine tail
    ∧ bufferToString file = (lines.flatMap fun l => l ++ [10]) ++ tail := by
  obtain ⟨torn, t, ht, hpre, rfl⟩ := h.split
  obtain ⟨ds, hds, hbytes, htext⟩ := bytes_eq h.isLine
  obtain ⟨es, hes, -, htorn⟩ := bufferToString_cut (fun _ hc => isScalar_of_mem_scalars hc) hpre
  have hes' : ∀ e ∈ es, IsScalar e := fun e he => isScalar_of_mem_scalars (hes.subset he)
  have hnot : (10 : UInt16) ∉ es.flatMap units := fun hmem => ht.2 <| by
    rw [← flatMap_units_scalars ht.1]
    obtain ⟨fs, hfs⟩ := hes
    rw [← hfs, List.flatMap_append]
    exact List.mem_append_left _ hmem
  have hread : bufferToString (lines.flatMap lineBytes ++ torn)
      = (lines.flatMap fun l => l ++ [10]) ++ bufferToString torn := by
    rw [hbytes, bufferToString, utf8Decode_flatMap_append hds, List.flatMap_append,
      List.flatMap_map, ← htext]
    rfl
  refine ⟨bufferToString torn, ?_, hread⟩
  rcases htorn with htorn | htorn
  · exact htorn ▸ ⟨wellFormed_flatMap_units hes', hnot⟩
  · have hall : ∀ e ∈ es ++ [0xFFFD], IsScalar e := fun e he => by
      rcases List.mem_append.mp he with he | he
      · exact hes' e he
      · rw [List.mem_singleton.mp he]
        exact .inr (by decide)
    have heq : bufferToString torn = (es ++ [0xFFFD]).flatMap units := by
      rw [htorn, List.flatMap_append]
      rfl
    refine ⟨heq ▸ wellFormed_flatMap_units hall, ?_⟩
    rw [htorn, List.mem_append, not_or]
    exact ⟨hnot, by decide⟩

lemma splitLines_eq (h : LineFile lines file) : ∃ tail, IsLine tail
    ∧ splitLines (bufferToString file) = lines ++ [tail] := by
  obtain ⟨tail, htail, htext⟩ := h.text_eq
  refine ⟨tail, htail, ?_⟩
  have key : ∀ l : List Str, (∀ x ∈ l, IsLine x) →
      splitLines ((l.flatMap fun x => x ++ [10]) ++ tail) = l ++ [tail] := by
    intro l
    induction l with
    | nil => exact fun _ => splitLines_of_notMem htail.2
    | cons x l ih =>
        intro hl
        rw [List.flatMap_cons, List.append_assoc, List.append_assoc, List.singleton_append,
          splitLines_append_newline, splitLines_of_notMem (hl x List.mem_cons_self).2,
          ih fun y hy => hl y (List.mem_cons_of_mem _ hy)]
        rfl
  rw [htext, key lines h.isLine]

/-- The lines are read back. -/
lemma completeLines_eq (h : LineFile lines file) : completeLines file = lines := by
  obtain ⟨tail, -, hsplit⟩ := h.splitLines_eq
  rw [completeLines, hsplit, List.dropLast_concat]

lemma isLine_of_mem_splitLines (h : LineFile lines file) {l : Str}
    (hl : l ∈ splitLines (bufferToString file)) : IsLine l := by
  obtain ⟨tail, htail, hsplit⟩ := h.splitLines_eq
  rw [hsplit] at hl
  rcases List.mem_append.mp hl with hl | hl
  · exact h.isLine l hl
  · rw [List.mem_singleton.mp hl]
    exact htail

/-- A file that ends behind a newline has no torn tail. -/
lemma eq_of_ends (h : LineFile lines file) (hends : file = [] ∨ file.getLast? = some 10) :
    file = lines.flatMap lineBytes := by
  obtain ⟨torn, t, ht, hpre, rfl⟩ := h.split
  rcases List.eq_nil_or_concat torn with rfl | ⟨front, b, rfl⟩
  · rw [List.append_nil]
  · rcases hends with hends | hends
    · simp at hends
    · rw [List.getLast?_append, List.concat_eq_append, List.getLast?_concat] at hends
      obtain rfl : b = 10 := by simpa using hends
      refine absurd (hpre.subset ?_) (newline_notMem_utf8Encode ht)
      simp

/-- **Growing.** Behind whole lines, some bytes of a further line leave a file of lines, with that
line in it once no byte is left. -/
theorem write {l : Str} {written rest : Bytes} (h : ∀ x ∈ lines, IsLine x) (hl : IsLine l)
    (hsplit : written ++ rest = lineBytes l) :
    LineFile (if rest = [] then lines ++ [l] else lines) (lines.flatMap lineBytes ++ written) := by
  by_cases hrest : rest = []
  · rw [hrest, List.append_nil] at hsplit
    have hall : ∀ x ∈ lines ++ [l], IsLine x := fun x hx => by
      rcases List.mem_append.mp hx with hx | hx
      · exact h x hx
      · exact List.mem_singleton.mp hx ▸ hl
    have hbytes : (lines ++ [l]).flatMap lineBytes = lines.flatMap lineBytes ++ written := by
      rw [List.flatMap_append, List.flatMap_singleton, hsplit]
    rw [if_pos hrest, ← hbytes]
    exact whole hall
  · rw [if_neg hrest]
    refine ⟨h, written, l, hl, ?_, rfl⟩
    rw [lineBytes_eq] at hsplit
    obtain ⟨front, b, rfl⟩ := (List.eq_nil_or_concat rest).resolve_left hrest
    rw [List.concat_eq_append, ← List.append_assoc] at hsplit
    exact ⟨front, (List.append_inj' hsplit rfl).1⟩

end LineFile

end Js
