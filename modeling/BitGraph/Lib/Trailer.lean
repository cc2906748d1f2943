import Mathlib.Tactic

/-!
A block appended to arbitrary data and found again from the end.

* **Format.** A `Trailer` fixes a marker, a length field of fixed width and a bound on the body.
  `enclose` appends a body between two markers and two length fields.
* **Reading.** `locate` reads a block from the end alone: the closing marker, the closing
  length, then the opening marker and the opening length where the closing length points.
* **Main results.** `locate_eq_ok_iff`: `locate` succeeds exactly on the results of `enclose`,
  and returns what was enclosed, whatever precedes the block.
-/

namespace Lib

/-- A marker, a length field of `width` symbols, a bound on bodies, and the fewest symbols that
may stand beside the markers and lengths. -/
structure Trailer (α : Type*) where
  magic : List α
  width : ℕ
  cap : ℕ
  least : ℕ
  enc : ℕ → List α
  dec : List α → ℕ
  length_enc : ∀ n, (enc n).length = width
  dec_enc : ∀ n ≤ cap, dec (enc n) = n
  enc_dec : ∀ w, w.length = width → enc (dec w) = w

namespace Trailer

variable {α : Type*} (t : Trailer α)

/-- Two markers and two length fields. -/
def overhead : ℕ := 2 * (t.magic.length + t.width)

/-- The block of a body. -/
def block (body : List α) : List α :=
  t.magic ++ (t.enc body.length ++ (body ++ (t.enc body.length ++ t.magic)))

/-- Data followed by the block of a body. -/
def enclose (inner body : List α) : List α := inner ++ t.block body

/-- Why no block can be read. -/
inductive Fault where
  | absent
  | tooLong (n : ℕ)
  | overrun
  | unopened
  | disagree
  deriving DecidableEq

/-- The marker stands at a position. -/
def MagicAt (bytes : List α) (i : ℕ) : Prop := (bytes.drop i).take t.magic.length = t.magic

instance [DecidableEq α] (bytes : List α) (i : ℕ) : Decidable (t.MagicAt bytes i) :=
  inferInstanceAs (Decidable (_ = _))

/-- The length field at a position. -/
def wordAt (bytes : List α) (i : ℕ) : ℕ := t.dec ((bytes.drop i).take t.width)

/-- The data and the body of the block at the end. -/
def locate [DecidableEq α] (bytes : List α) : Except Fault (List α × List α) :=
  if bytes.length < t.overhead + t.least then .error .absent
  else if ¬ t.MagicAt bytes (bytes.length - t.magic.length) then .error .absent
  else
    let len := t.wordAt bytes (bytes.length - (t.width + t.magic.length))
    if t.cap < len then .error (.tooLong len)
    else if bytes.length < t.overhead + len then .error .overrun
    else
      let start := bytes.length - t.overhead - len
      if ¬ t.MagicAt bytes start then .error .unopened
      else if t.wordAt bytes (start + t.magic.length) ≠ len then .error .disagree
      else .ok (bytes.take start, (bytes.drop (start + (t.magic.length + t.width))).take len)

lemma length_block (body : List α) : (t.block body).length = t.overhead + body.length := by
  simp only [block, overhead, List.length_append, t.length_enc]
  omega

lemma length_enclose (inner body : List α) :
    (t.enclose inner body).length = inner.length + (t.overhead + body.length) := by
  rw [enclose, List.length_append, length_block]

/-- Any data is cut at a position. -/
lemma drop_append_length {a b : List α} {n : ℕ} (h : n = a.length) : (a ++ b).drop n = b := by
  rw [h, List.drop_left]

/-- A field read at its position. -/
lemma take_drop_field {a b c : List α} {i n : ℕ} (hi : i = a.length) (hn : n = b.length) :
    ((a ++ (b ++ c)).drop i).take n = b := by
  rw [drop_append_length hi, hn, List.take_left]

/-- Reading what was enclosed. -/
lemma locate_enclose [DecidableEq α] {inner body : List α} (hcap : body.length ≤ t.cap)
    (hleast : t.least ≤ inner.length + body.length) :
    t.locate (t.enclose inner body) = .ok (inner, body) := by
  have hlen := t.length_enclose inner body
  have hover : t.overhead = 2 * (t.magic.length + t.width) := rfl
  have henc := t.length_enc body.length
  -- the six parts, regrouped so that each field is met with what precedes it
  have hclose : t.enclose inner body
      = (inner ++ (t.magic ++ (t.enc body.length ++ (body ++ t.enc body.length))))
        ++ (t.magic ++ []) := by
    simp only [enclose, block, List.append_assoc, List.append_nil]
  have hlast : t.enclose inner body
      = (inner ++ (t.magic ++ (t.enc body.length ++ body)))
        ++ (t.enc body.length ++ t.magic) := by
    simp only [enclose, block, List.append_assoc]
  have hfirst : t.enclose inner body
      = (inner ++ t.magic) ++ (t.enc body.length
        ++ (body ++ (t.enc body.length ++ t.magic))) := by
    simp only [enclose, block, List.append_assoc]
  have hbody : t.enclose inner body
      = (inner ++ (t.magic ++ t.enc body.length))
        ++ (body ++ (t.enc body.length ++ t.magic)) := by
    simp only [enclose, block, List.append_assoc]
  have hword : t.wordAt (t.enclose inner body)
      ((t.enclose inner body).length - (t.width + t.magic.length)) = body.length := by
    rw [wordAt, hlen, hlast, take_drop_field, t.dec_enc _ hcap]
    · simp only [List.length_append, henc]
      omega
    · exact henc.symm
  have hstart : (t.enclose inner body).length - t.overhead - body.length = inner.length := by
    omega
  have hopen : t.MagicAt (t.enclose inner body) inner.length := by
    rw [MagicAt, enclose, block]
    exact take_drop_field rfl rfl
  have hmagic : t.MagicAt (t.enclose inner body)
      ((t.enclose inner body).length - t.magic.length) := by
    rw [MagicAt, hlen, hclose]
    refine take_drop_field ?_ rfl
    simp only [List.length_append, henc]
    omega
  have hagree : t.wordAt (t.enclose inner body) (inner.length + t.magic.length) = body.length := by
    rw [wordAt, hfirst, take_drop_field, t.dec_enc _ hcap]
    · rw [List.length_append]
    · exact henc.symm
  rw [locate, if_neg (by omega), if_neg (not_not.mpr hmagic)]
  simp only [hword]
  rw [if_neg (by omega), if_neg (by omega), hstart, if_neg (not_not.mpr hopen),
    if_neg (not_not.mpr hagree), hbody, take_drop_field _ rfl]
  · rw [List.append_assoc, List.take_left]
  · simp only [List.length_append, henc]

/-- A block that is read was enclosed. -/
lemma eq_enclose_of_locate [DecidableEq α] {bytes inner body : List α}
    (h : t.locate bytes = .ok (inner, body)) :
    bytes = t.enclose inner body ∧ body.length ≤ t.cap
      ∧ t.least ≤ inner.length + body.length := by
  have hover : t.overhead = 2 * (t.magic.length + t.width) := rfl
  rw [locate] at h
  dsimp only at h
  split_ifs at h with hshort hmagic hcap hrun hopen hagree
  rw [ne_eq, not_not] at hagree
  rw [Except.ok.injEq, Prod.mk.injEq] at h
  obtain ⟨hinner, hbody⟩ := h
  set len := t.wordAt bytes (bytes.length - (t.width + t.magic.length)) with hlen
  set start := bytes.length - t.overhead - len with hstart
  have hinnerLen : inner.length = start := by
    rw [← hinner, List.length_take]
    omega
  have hbodyLen : body.length = len := by
    rw [← hbody, List.length_take, List.length_drop]
    omega
  have hwordLen : ∀ i, i + t.width ≤ bytes.length → ((bytes.drop i).take t.width).length = t.width := by
    intro i hi
    rw [List.length_take, List.length_drop]
    omega
  have hfirst : (bytes.drop (start + t.magic.length)).take t.width = t.enc len := by
    rw [← t.enc_dec _ (hwordLen _ (by omega)), ← wordAt, hagree]
  have hlast : (bytes.drop (bytes.length - (t.width + t.magic.length))).take t.width
      = t.enc len := by
    rw [← t.enc_dec _ (hwordLen _ (by omega)), ← wordAt, ← hlen]
  -- cut the bytes at the five positions, from the start
  have hcut : ∀ i n, bytes.drop i = (bytes.drop i).take n ++ bytes.drop (i + n) := by
    intro i n
    rw [← List.drop_drop, List.take_append_drop]
  refine ⟨?_, by omega, by omega⟩
  calc bytes = bytes.take start ++ bytes.drop start := (List.take_append_drop _ _).symm
    _ = inner ++ (t.magic ++ bytes.drop (start + t.magic.length)) := by
        rw [hinner, hcut start t.magic.length, hopen]
    _ = inner ++ (t.magic ++ (t.enc len ++ bytes.drop (start + (t.magic.length + t.width)))) := by
        rw [hcut (start + t.magic.length) t.width, hfirst, Nat.add_assoc]
    _ = inner ++ (t.magic ++ (t.enc len ++ (body
          ++ bytes.drop (bytes.length - (t.width + t.magic.length))))) := by
        rw [hcut (start + (t.magic.length + t.width)) len, hbody]
        congr 6
        omega
    _ = inner ++ (t.magic ++ (t.enc len ++ (body ++ (t.enc len
          ++ bytes.drop (bytes.length - t.magic.length))))) := by
        rw [hcut (bytes.length - (t.width + t.magic.length)) t.width, hlast]
        congr 7
        omega
    _ = t.enclose inner body := by
        have hend : bytes.drop (bytes.length - t.magic.length) = t.magic := by
          rw [MagicAt] at hmagic
          refine (List.take_of_length_le ?_).symm.trans hmagic
          rw [List.length_drop]
          omega
        rw [hend, enclose, block, hbodyLen]

/-- **Reading inverts enclosing**, and reads nothing else. -/
theorem locate_eq_ok_iff [DecidableEq α] {bytes inner body : List α} :
    t.locate bytes = .ok (inner, body) ↔ bytes = t.enclose inner body ∧ body.length ≤ t.cap
      ∧ t.least ≤ inner.length + body.length := by
  refine ⟨t.eq_enclose_of_locate, ?_⟩
  rintro ⟨rfl, hcap, hleast⟩
  exact t.locate_enclose hcap hleast

end Trailer

end Lib
