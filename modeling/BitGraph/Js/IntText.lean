import Mathlib.Data.List.TakeWhile
import BitGraph.Js.Convert

/-!
Big integers as text.

* `stringToBigInt?_intText`: a big integer comes back from its decimal text.
* `trimEnd` is `replace(/\s+$/, "")`; `trimEnd_append_blanks` takes trailing blanks off again.
* `decodeLossy_of_isAscii`: ASCII bytes decode to their text.
* `append_cons_inj` splits a text at its first separator.
-/

namespace Js

/-- What stands before the first separator, and after it. -/
lemma append_cons_inj {c : UInt16} {s s' t t' : Str} (hs : c ∉ s) (hs' : c ∉ s')
    (h : s ++ c :: t = s' ++ c :: t') : s = s' ∧ t = t' := by
  induction s generalizing s' with
  | nil =>
      cases s' with
      | nil => exact ⟨rfl, (List.cons.inj h).2⟩
      | cons d s' =>
          obtain ⟨rfl, -⟩ := List.cons.inj h
          exact absurd List.mem_cons_self hs'
  | cons d s ih =>
      cases s' with
      | nil =>
          obtain ⟨rfl, -⟩ := List.cons.inj h
          exact absurd List.mem_cons_self hs
      | cons d' s' =>
          obtain ⟨rfl, htail⟩ := List.cons.inj h
          have hrest := ih (fun hm => hs (List.mem_cons_of_mem _ hm))
            (fun hm => hs' (List.mem_cons_of_mem _ hm)) htail
          exact ⟨congrArg (d :: ·) hrest.1, hrest.2⟩

/-- `s.replace(/\s+$/, "")`. -/
def trimEnd (s : Str) : Str := (s.reverse.dropWhile isBlank).reverse

/-- The units of a decimal text: digits and the sign. -/
lemma mem_intText {i : ℤ} {c : UInt16} (h : c ∈ intText i) : c = 45 ∨ isDigit c = true := by
  rw [intText] at h
  split at h
  · rcases List.mem_cons.mp h with h | h
    · exact .inl h
    · exact .inr (isDigit_of_mem_decimal h)
  · exact .inr (isDigit_of_mem_decimal h)

lemma isBlank_of_mem_intText {i : ℤ} {c : UInt16} (h : c ∈ intText i) : isBlank c = false := by
  rcases mem_intText h with rfl | hd
  · rfl
  · exact isBlank_of_isDigit hd

lemma isAscii_intText (i : ℤ) : isAscii (intText i) = true := by
  rw [isAscii, List.all_eq_true]
  intro c hc
  rw [decide_eq_true_eq]
  rcases mem_intText hc with rfl | hd
  · decide
  · have : 48 ≤ c.toNat ∧ c.toNat ≤ 57 := by simpa [isDigit] using hd
    omega

/-- A big integer comes back from its decimal text. -/
theorem stringToBigInt?_intText (i : ℤ) : stringToBigInt? (intText i) = some i := by
  rw [intText]
  split
  · next hneg =>
      have hblank : ∀ c ∈ 45 :: decimal i.natAbs, isBlank c = false := by
        intro c hc
        rcases List.mem_cons.mp hc with rfl | hc
        · rfl
        · exact isBlank_of_isDigit (isDigit_of_mem_decimal hc)
      have hread : readDigits? 10 (decimal i.natAbs) = some i.natAbs := by
        rw [readDigits?_ten (decimal_ne_nil _) fun c hc => isDigit_of_mem_decimal hc,
          readDecimal_decimal]
      rw [stringToBigInt?, trim_eq_self hblank]
      change (readDigits? 10 (decimal i.natAbs) >>= fun a => some (a : ℤ)).map (fun n => -n) = some i
      rw [hread, Option.bind_eq_bind, Option.bind_some, Option.map_some]
      congr 1
      omega
  · next hpos =>
      rw [stringToBigInt?_decimal]
      congr 1
      omega

theorem intText_injective : Function.Injective intText := fun i j h =>
  Option.some_injective _ (by rw [← stringToBigInt?_intText, h, stringToBigInt?_intText])

/-- Trailing blanks go. -/
lemma trimEnd_append_blanks {s t : Str} (hs : ∀ c ∈ s, isBlank c = false)
    (ht : ∀ c ∈ t, isBlank c = true) : trimEnd (s ++ t) = s := by
  have hdrop : ∀ u v : Str, (∀ c ∈ u, isBlank c = true) → (∀ c ∈ v, isBlank c = false) →
      (u ++ v).dropWhile isBlank = v := by
    intro u v hu hv
    rw [List.dropWhile_append, List.dropWhile_eq_nil_iff.mpr hu, List.isEmpty_nil, if_pos rfl]
    cases v with
    | nil => rfl
    | cons c v => rw [List.dropWhile_cons_of_neg (by simp [hv c List.mem_cons_self])]
  rw [trimEnd, List.reverse_append, hdrop _ _ (fun c hc => ht c (List.mem_reverse.mp hc))
    (fun c hc => hs c (List.mem_reverse.mp hc)), List.reverse_reverse]

/-- ASCII bytes decode to their text. -/
lemma decodeLossy_of_isAscii {s : Str} (h : isAscii s = true) :
    decodeLossy (s.map fun c => UInt8.ofNat c.toNat) = s := by
  have hhead : (scalars s).head? ≠ some 0xFEFF := by
    rw [scalars_of_isAscii h]
    cases s with
    | nil => simp
    | cons c s =>
        rw [isAscii, List.all_cons, Bool.and_eq_true, decide_eq_true_eq] at h
        simp only [List.map_cons, List.head?_cons, ne_eq, Option.some.injEq]
        omega
  rw [← utf8Encode_of_isAscii h]
  exact decodeLossy_of_decodeFatal (decodeFatal_utf8Encode (wellFormed_of_isAscii h) hhead)

end Js
