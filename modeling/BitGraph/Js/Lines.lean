import Mathlib.Data.List.TakeWhile
import BitGraph.Js.Convert

/-!
A growing text file, read by whole lines.

A reader holds the offset up to which it has read, decodes the bytes after it and takes the text
up to the last newline. `Boundary` says that the offset stands behind whole characters and, but
at the start, behind a newline. `Boundary.advance`: the reader's next offset is one again, and
the text read so far grows by exactly the text taken, whatever character the file is cut in.
-/

namespace Js

/-! ### Lines of a text -/

lemma splitLines_ne_nil (s : Str) : splitLines s ≠ [] := by
  cases s with
  | nil => simp [splitLines]
  | cons c s =>
      rw [splitLines]
      split
      · simp
      · split <;> simp

/-- A newline ends a line. -/
lemma splitLines_append_newline (s t : Str) :
    splitLines (s ++ 10 :: t) = splitLines s ++ splitLines t := by
  induction s with
  | nil => rfl
  | cons c s ih =>
      by_cases hc : c = 10
      · rw [List.cons_append, splitLines, if_pos hc, ih, splitLines, if_pos hc, List.cons_append]
      · rw [List.cons_append, splitLines, if_neg hc, ih, splitLines, if_neg hc]
        cases hs : splitLines s with
        | nil => exact absurd hs (splitLines_ne_nil s)
        | cons l ls => rfl

lemma uptoLastNewline_newline (s : Str) : uptoLastNewline (s ++ [10]) = s ++ [10] := by
  simp [uptoLastNewline]

lemma uptoLastNewline_other {s t : Str} (h : ∀ c ∈ t, c ≠ 10) :
    uptoLastNewline (s ++ t) = uptoLastNewline s := by
  rw [uptoLastNewline, uptoLastNewline, List.reverse_append,
    List.dropWhile_append_of_pos fun c hc => by simpa using h c (List.mem_reverse.mp hc)]

/-- The code units of a character other than a newline hold none. -/
lemma ne_newline_of_mem_units {cp : ℕ} (h : IsScalar cp) (hne : cp ≠ 10) {c : UInt16}
    (hc : c ∈ units cp) : c ≠ 10 := by
  rintro rfl
  have hten : (10 : UInt16).toNat = 10 := rfl
  rw [IsScalar] at h
  rw [units] at hc
  split at hc
  · have heq := congrArg UInt16.toNat (List.mem_singleton.mp hc)
    rw [hten, UInt16.toNat_ofNat'] at heq
    omega
  · simp only [List.mem_cons, List.not_mem_nil, or_false] at hc
    rcases hc with hc | hc
    · have heq := congrArg UInt16.toNat hc
      rw [hten, UInt16.toNat_ofNat'] at heq
      omega
    · have heq := congrArg UInt16.toNat hc
      rw [hten, UInt16.toNat_ofNat'] at heq
      omega

/-- Whole lines are whole characters. -/
lemma uptoLastNewline_flatMap {cs : List ℕ} (h : ∀ c ∈ cs, IsScalar c) :
    ∃ ds, ds <+: cs ∧ uptoLastNewline (cs.flatMap units) = ds.flatMap units
      ∧ (ds = [] ∨ ∃ es, ds = es ++ [10]) := by
  induction cs using List.reverseRecOn with
  | nil => exact ⟨[], List.nil_prefix, rfl, Or.inl rfl⟩
  | append_singleton cs c ih =>
      by_cases hc : c = 10
      · subst hc
        refine ⟨cs ++ [10], List.prefix_rfl, ?_, Or.inr ⟨cs, rfl⟩⟩
        rw [List.flatMap_append, show ([10] : List ℕ).flatMap units = [10] from rfl,
          uptoLastNewline_newline]
      · obtain ⟨ds, hds, heq, hend⟩ := ih fun x hx => h x (by simp [hx])
        refine ⟨ds, hds.trans (List.prefix_append _ _), ?_, hend⟩
        rw [List.flatMap_append, uptoLastNewline_other, heq]
        intro x hx
        rw [List.flatMap_singleton] at hx
        exact ne_newline_of_mem_units (h c (by simp)) hc hx

/-! ### Blank lines -/

lemma isBlank_of_trim {s : Str} (h : trim s = []) : ∀ c ∈ s, isBlank c = true := by
  rw [trim, List.reverse_eq_nil_iff, List.dropWhile_eq_nil_iff] at h
  refine List.dropWhile_eq_nil_iff.mp ?_
  by_contra hne
  have hhead := List.head_dropWhile_not isBlank hne
  rw [h _ (List.mem_reverse.mpr (List.head_mem hne))] at hhead
  cases hhead

lemma mem_of_mem_skipSpace {s : Str} {c : UInt16} (h : c ∈ skipSpace s) : c ∈ s := by
  induction s with
  | nil => exact h
  | cons d s ih =>
      rw [skipSpace] at h
      split at h
      · exact List.mem_cons_of_mem _ (ih h)
      · exact h

lemma readNumber_of_blank {c : UInt16} {r : Str} (h : isBlank c = true) :
    readNumber (c :: r) = none := by
  have hdigit : isDigit c = false := by
    by_contra hd
    simp only [isDigit, Bool.not_eq_false, Bool.and_eq_true, decide_eq_true_eq] at hd
    simp only [isBlank, Bool.or_eq_true, Bool.and_eq_true, decide_eq_true_eq, beq_iff_eq] at h
    rcases h with (((((((((h | rfl) | rfl) | rfl) | h) | rfl) | rfl) | rfl) | rfl) | rfl) | rfl
    all_goals first | omega | exact absurd hd (by decide)
  have hminus : c ≠ 45 := by
    rintro rfl
    cases h
  rw [readNumber_of_head (by simpa using hminus), readMagnitude, spanDigits, hdigit]
  simp

/-- A blank line is no JSON. -/
lemma parse_of_trim {s : Str} (h : trim s = []) : parse s = none := by
  have hread : readValue (2 * s.length + 2) s = none := by
    rw [readValue]
    split
    · rfl
    · next c r hs =>
        have hc : isBlank c = true :=
          isBlank_of_trim h c (mem_of_mem_skipSpace (by rw [hs]; exact List.mem_cons_self))
        have hne : ∀ k : UInt16, isBlank k = false → c ≠ k := by
          rintro k hk rfl
          rw [hc] at hk
          cases hk
        rw [if_neg (hne 34 rfl), if_neg (hne 91 rfl), if_neg (hne 123 rfl), if_neg (hne 110 rfl),
          if_neg (hne 116 rfl), if_neg (hne 102 rfl), readNumber_of_blank hc]
        rfl
  rw [parse, hread]

/-! ### Reading on -/

/-- The offset stands behind whole characters and, but at the start, behind a newline. -/
def Boundary (b : Bytes) (n : ℕ) : Prop :=
  n ≤ b.length ∧ ∃ ds : List ℕ, (∀ c ∈ ds, IsScalar c) ∧ b.take n = ds.flatMap encodeScalar
    ∧ (ds = [] ∨ ∃ es, ds = es ++ [10])

lemma Boundary.append {b : Bytes} {n : ℕ} (h : Boundary b n) (b' : Bytes) : Boundary (b ++ b') n := by
  obtain ⟨hn, ds, hds, htake, hend⟩ := h
  refine ⟨by rw [List.length_append]; omega, ds, hds, ?_, hend⟩
  rw [List.take_append_of_le_length hn, htake]

/-- What follows whole characters of a cut text is a cut text. -/
lemma CutText.drop {ds : List ℕ} {b : Bytes} (hds : ∀ c ∈ ds, IsScalar c)
    (h : CutText (ds.flatMap encodeScalar ++ b)) : CutText b := by
  obtain ⟨cs, hcs, t, ht⟩ := h
  have hdec := utf8Decode_flatMap hcs
  rw [← ht, List.append_assoc, utf8Decode_flatMap_append hds] at hdec
  obtain ⟨es, rfl⟩ : ds <+: cs := by
    have hmap : ds.map some <+: cs.map some := hdec ▸ List.prefix_append _ _
    exact (List.prefix_map_iff_of_injective (Option.some_injective ℕ)).mp hmap
  rw [List.flatMap_append, List.append_assoc, List.append_cancel_left_eq] at ht
  exact ⟨es, fun c hc => hcs c (by simp [hc]), t, ht⟩

/-- **Reading on.** From a boundary of a cut text, the text up to the last newline ends at a
boundary again, and the text before it grows by what was read. -/
theorem Boundary.advance {b : Bytes} {n : ℕ} (h : Boundary b n) (hb : CutText b) :
    Boundary b (n + (utf8Encode (uptoLastNewline (bufferToString (b.drop n)))).length)
      ∧ bufferToString (b.take (n + (utf8Encode (uptoLastNewline (bufferToString (b.drop n)))).length))
        = bufferToString (b.take n) ++ uptoLastNewline (bufferToString (b.drop n)) := by
  obtain ⟨hn, ds, hds, htake, hend⟩ := h
  have hsplit : b = ds.flatMap encodeScalar ++ b.drop n := by rw [← htake, List.take_append_drop]
  obtain ⟨cs, hcs, hpre⟩ : CutText (b.drop n) := CutText.drop hds (hsplit ▸ hb)
  obtain ⟨es, hes, hbytes, htext⟩ := bufferToString_cut hcs hpre
  have hes' : ∀ c ∈ es, IsScalar c := fun c hc => hcs c (hes.subset hc)
  obtain ⟨fs, hfs, hupto, hfsend⟩ := uptoLastNewline_flatMap hes'
  have hfs' : ∀ c ∈ fs, IsScalar c := fun c hc => hes' c (hfs.subset hc)
  have hcomplete : uptoLastNewline (bufferToString (b.drop n)) = fs.flatMap units := by
    rcases htext with htext | htext
    · rw [htext, hupto]
    · rw [htext, uptoLastNewline_other (by simp), hupto]
  have hfsbytes : fs.flatMap encodeScalar <+: b.drop n := by
    obtain ⟨gs, rfl⟩ := hfs
    refine List.IsPrefix.trans ?_ hbytes
    rw [List.flatMap_append]
    exact List.prefix_append _ _
  have hall : ∀ c ∈ ds ++ fs, IsScalar c := fun c hc => by
    rcases List.mem_append.mp hc with hc | hc
    · exact hds c hc
    · exact hfs' c hc
  have hgrown : b.take (n + (fs.flatMap encodeScalar).length) = (ds ++ fs).flatMap encodeScalar := by
    rw [List.take_add, htake, List.flatMap_append, ← List.prefix_iff_eq_take.mp hfsbytes]
  rw [hcomplete, utf8Encode_flatMap_units hfs']
  refine ⟨⟨?_, ds ++ fs, hall, hgrown, ?_⟩, ?_⟩
  · have hlen := hfsbytes.length_le
    rw [List.length_drop] at hlen
    omega
  · rcases hfsend with rfl | ⟨gs, rfl⟩
    · rwa [List.append_nil]
    · exact Or.inr ⟨ds ++ gs, by rw [List.append_assoc]⟩
  · rw [hgrown, htake, bufferToString_flatMap hall, bufferToString_flatMap hds, List.flatMap_append]

end Js
