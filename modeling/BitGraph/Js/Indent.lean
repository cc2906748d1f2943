import BitGraph.Js.JsonText
import BitGraph.Js.Convert

/-!
`JSON.stringify(value, null, 2)`, for objects.

* `indentedObject pad members`: an object whose members have texts, each on a line of its own, two spaces
  further in than `pad`.
* `Yields t v`: the text `t` is read as `v` off the head of a longer text. `yields_quote` for strings, and
  `yields_indentedObject` for objects of what is read.
* `parse_indentedObject`: such an object is parsed back, with a newline behind it.
-/

namespace Js

/-! ### Texts -/

/-- The members of an object, each on a line of its own. -/
def indentedMembers (pad : Str) : List (Str × Str) → Str
  | [] => []
  | [m] => 10 :: (pad ++ (quote m.1 ++ 58 :: 32 :: m.2))
  | m :: n :: l => 10 :: (pad ++ (quote m.1 ++ 58 :: 32 :: (m.2 ++ 44 :: indentedMembers pad (n :: l))))

/-- An object whose members have texts, closed at `pad`. -/
def indentedObject (pad : Str) (members : List (Str × Str)) : Str :=
  if members = [] then [123, 125]
  else 123 :: (indentedMembers (pad ++ [32, 32]) members ++ 10 :: (pad ++ [125]))

/-- A member of an object: its key, its text, and the value it spells. -/
abbrev Member := Str × Str × Value

namespace Member

def line (m : Member) : Str × Str := (m.1, m.2.1)

def prop (m : Member) : Str × Value := (m.1, m.2.2)

/-- A string. -/
def text (k s : Str) : Member := (k, quote s, .str s)

/-- An object inside, closed at `pad`. -/
def object (pad k : Str) (members : List Member) : Member :=
  (k, indentedObject pad (members.map line), .obj (members.map prop))

end Member

variable {pad stop s t rest : Str} {l : List Member} {v : Value}

lemma wellFormed_after {c : UInt16} (hs : wellFormed s = true)
    (hc : isHigh c = false ∧ isLow c = false := by decide) : wellFormed (c :: s) = true :=
  (wellFormed_cons hc).trans hs

lemma wellFormed_line (h : wellFormed pad = true) (hs : wellFormed s = true) :
    wellFormed (10 :: (pad ++ s)) = true :=
  wellFormed_after (wellFormed_append h hs)

lemma wellFormed_indentedMembers {members : List (Str × Str)} (hpad : wellFormed pad = true)
    (h : ∀ m ∈ members, wellFormed m.2 = true) : wellFormed (indentedMembers pad members) = true := by
  induction members with
  | nil => rfl
  | cons m rest ih =>
      obtain ⟨hm, hrest⟩ := List.forall_mem_cons.mp h
      have hkey := wellFormed_quote m.1
      cases rest with
      | nil =>
          exact wellFormed_line hpad (wellFormed_append hkey (wellFormed_after (wellFormed_after hm)))
      | cons n rest =>
          have htail := wellFormed_append hm (wellFormed_after (c := 44) (ih hrest))
          exact wellFormed_line hpad (wellFormed_append hkey (wellFormed_after (wellFormed_after htail)))

lemma wellFormed_indentedObject {members : List (Str × Str)} (hpad : wellFormed pad = true)
    (h : ∀ m ∈ members, wellFormed m.2 = true) : wellFormed (indentedObject pad members) = true := by
  rw [indentedObject]
  split
  · rfl
  · have hmembers := wellFormed_indentedMembers (wellFormed_append hpad (t := [32, 32]) rfl) h
    exact wellFormed_after (wellFormed_append hmembers (wellFormed_line hpad rfl))

/-- No text of a member has a lone surrogate, and so has none of the object. -/
lemma wellFormed_members (hpad : wellFormed pad = true) (h : ∀ m ∈ l, wellFormed m.2.1 = true) :
    wellFormed (indentedObject pad (l.map Member.line)) = true := by
  refine wellFormed_indentedObject hpad fun m hm => ?_
  obtain ⟨n, hn, rfl⟩ := List.mem_map.mp hm
  exact h n hn

/-! ### Reading -/

/-- White space throughout. -/
def Blank (pad : Str) : Prop := ∀ c ∈ pad, isSpace c = true

instance : Decidable (Blank pad) := List.decidableBAll (fun c => isSpace c = true) pad

lemma skipSpace_blank (h : Blank pad) : skipSpace (pad ++ s) = skipSpace s := by
  induction pad with
  | nil => rfl
  | cons c pad ih =>
      obtain ⟨hc, hpad⟩ := List.forall_mem_cons.mp h
      rw [List.cons_append, skipSpace, if_pos hc, ih hpad]

/-- A line begins with white space. -/
lemma skipSpace_line (h : Blank pad) : skipSpace (10 :: (pad ++ s)) = skipSpace s :=
  @skipSpace_blank (10 :: pad) s (List.forall_mem_cons.mpr ⟨rfl, h⟩)

lemma readValue_space {f : ℕ} : readValue f (32 :: s) = readValue f s := by
  cases f <;> rfl

lemma numberStops_newline (s : Str) : numberStops (10 :: s) := by
  intro c hc
  obtain rfl : 10 = c := by simpa using hc
  decide

/-- The text starts a value, which is read off the head of a longer text. -/
structure Yields (t : Str) (v : Value) : Prop where
  starts : ∃ c s, t = c :: s ∧ startsValue c = true
  read : ∀ f rest, t.length ≤ f + 1 → numberStops rest → readValue (f + 1) (t ++ rest) = some (v, rest)

lemma yields_quote (s : Str) : Yields (quote s) (.str s) where
  starts := ⟨_, _, rfl, rfl⟩
  read f rest _ _ := by
    rw [quote_append, readValue, skipSpace_of_head rfl]
    simp only [if_true, readString_quoteBody]
    rfl

lemma Yields.read_le (h : Yields t v) {f : ℕ} (hf : t.length ≤ f) (hr : numberStops rest) :
    readValue f (t ++ rest) = some (v, rest) := by
  obtain ⟨c, s, rfl, -⟩ := h.starts
  obtain ⟨g, rfl⟩ := Nat.exists_eq_succ_of_ne_zero (show f ≠ 0 by rw [List.length_cons] at hf; omega)
  exact h.read g rest hf hr

/-- The lines of an object are read and defined one after the other. -/
lemma readMembers_indented (hl : l ≠ []) (h : ∀ m ∈ l, Yields m.2.1 m.2.2) (hpad : Blank pad)
    (hstop : Blank stop) {f : ℕ} {acc : Fields}
    (hf : (indentedMembers pad (l.map Member.line)).length + 1 ≤ f) :
    readMembers f acc (indentedMembers pad (l.map Member.line) ++ 10 :: (stop ++ 125 :: rest))
      = some ((l.map Member.prop).foldl (fun acc m => acc.setProp m.1 m.2) acc, rest) := by
  induction l generalizing f acc with
  | nil => exact absurd rfl hl
  | cons m l ih =>
      obtain ⟨k, t, v⟩ := m
      obtain ⟨hm, hrest⟩ := List.forall_mem_cons.mp h
      dsimp only at hm
      obtain ⟨f, rfl⟩ := Nat.exists_eq_succ_of_ne_zero (show f ≠ 0 by omega)
      cases l with
      | nil =>
          simp only [List.map_cons, List.map_nil, Member.line, Member.prop, indentedMembers, List.length_cons, List.length_append] at hf ⊢
          rw [readMembers, List.cons_append, List.append_assoc, skipSpace_line hpad, List.append_assoc, quote_append,
            skipSpace_of_head rfl]
          simp only [stripPrefix?, if_true, Option.bind_eq_bind, Option.bind_some,
            readString_quoteBody, List.cons_append, skipSpace_of_head (c := 58) rfl, readValue_space,
            hm.read_le (show t.length ≤ f by omega) (numberStops_newline _), skipSpace_line hstop,
            skipSpace_of_head (c := 125) rfl]
          rfl
      | cons n l =>
          have hstep := @ih (by simp) hrest f
          simp only [List.map_cons, Member.line, Member.prop, indentedMembers, List.length_cons, List.length_append] at hf hstep ⊢
          rw [readMembers, List.cons_append, List.append_assoc, skipSpace_line hpad, List.append_assoc, quote_append,
            skipSpace_of_head rfl]
          simp only [stripPrefix?, if_true, Option.bind_eq_bind, Option.bind_some,
            readString_quoteBody, List.cons_append, List.append_assoc, skipSpace_of_head (c := 58) rfl,
            readValue_space, hm.read_le (show t.length ≤ f by omega) (numberStops_comma _),
            skipSpace_of_head (c := 44) rfl]
          exact hstep (by omega)

lemma Blank.append (h : Blank pad) (hs : Blank stop) : Blank (pad ++ stop) := by
  intro c hc
  rcases List.mem_append.mp hc with hc | hc
  · exact h c hc
  · exact hs c hc

/-- **Objects.** The lines of an object yield it. -/
lemma yields_indentedObject (hpad : Blank pad) (hl : l ≠ []) (h : ∀ m ∈ l, Yields m.2.1 m.2.2)
    (hordered : Fields.Ordered (l.map Member.prop)) :
    Yields (indentedObject pad (l.map Member.line)) (.obj (l.map Member.prop)) := by
  have hne : (l.map Member.line) ≠ [] := by simpa using hl
  have hin : Blank (pad ++ [32, 32]) := hpad.append (by decide)
  rw [indentedObject, if_neg hne]
  refine ⟨⟨_, _, rfl, rfl⟩, fun f rest hf _ => ?_⟩
  simp only [List.length_cons, List.length_append] at hf
  have hmembers := @readMembers_indented (pad ++ [32, 32]) pad rest l hl h hin hpad f [] (by omega)
  rw [Fields.foldl_setProp hordered [] (by simp), List.nil_append] at hmembers
  have hhead : ∃ r, skipSpace (indentedMembers (pad ++ [32, 32]) (l.map Member.line)
      ++ 10 :: (pad ++ 125 :: rest)) = 34 :: r := by
    obtain ⟨m, l, rfl⟩ := List.exists_cons_of_ne_nil hl
    cases l with
    | nil =>
        rw [List.map_cons, List.map_nil, indentedMembers, List.cons_append, List.append_assoc, skipSpace_line hin,
          List.append_assoc, quote_append]
        exact ⟨_, rfl⟩
    | cons n l =>
        rw [List.map_cons, List.map_cons, indentedMembers, List.cons_append, List.append_assoc, skipSpace_line hin,
          List.append_assoc, quote_append]
        exact ⟨_, rfl⟩
  obtain ⟨r, hr⟩ := hhead
  rw [List.cons_append, List.append_assoc, List.cons_append, List.append_assoc, List.singleton_append, readValue,
    skipSpace_of_head rfl]
  simp only [show ((123 : UInt16) = 34) = False by decide,
    show ((123 : UInt16) = 91) = False by decide, if_true, if_false, hr, hmembers]
  rfl

/-- The text of an object, with a newline behind it, is parsed back. -/
lemma parse_of_yields (h : Yields t v) : parse (t ++ [10]) = some v := by
  have hread := h.read_le (show t.length ≤ 2 * (t ++ [10]).length + 2 by rw [List.length_append]; omega)
    (numberStops_newline [])
  rw [parse, hread]
  rfl

/-- Text that is written to a buffer is read back. -/
lemma bufferToString_utf8Encode (h : wellFormed s = true) : bufferToString (utf8Encode s) = s := by
  rw [utf8Encode, bufferToString_flatMap fun c hc => isScalar_of_mem_scalars hc, flatMap_units_scalars h]

end Js
