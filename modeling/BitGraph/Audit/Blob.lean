import BitGraph.Lib.Layout
import BitGraph.Sha256

/-!
`decodeOpBlob`: the data that a blob carries.

* **Reader.** Four field elements a round, each a byte of six bits and 31 bytes of data; the four bytes
  of six bits are three more bytes of data. The first element begins with the version and the length.
* **Words.** A `Word` is what the last three elements of a round carry; `finishRound_eq_ok` and
  `rounds_eq_ok` say what a round and a run of them read.
* `decodeOpBlob_eq_ok`: what is accepted is the words of the data, padded with zeros.
* `opBlob_bijection`: every data that fits has exactly one blob.
-/

namespace BitGraph

open Js Layout

open Sha256 (beNat)

namespace OpBlob

/-! ### Reader -/

def blobBytes : ℕ := 131072

def maxBlobDataBytes : ℕ := 130044

/-- The data so far, the next place in it, and the next place in the blob. -/
structure Reader where
  out : Bytes
  opos : ℕ
  ipos : ℕ

/-- A field element: its byte of six bits; the rest goes to the data. -/
def fe (blob : Bytes) (r : Reader) : Except Thrown (ℕ × Reader) :=
  let b := (blob.getD r.ipos 0).toNat
  if b &&& 0xc0 ≠ 0 then
    .error (typeError (js "blob: field element at " ++ decimal r.ipos ++ js " has its high bits set"))
  else .ok (b, ⟨put r.out r.opos (field blob (r.ipos + 1) 31), r.opos + 32, r.ipos + 32⟩)

/-- The three bytes of data in four bytes of six bits. -/
def reassemble (enc0 enc1 enc2 enc3 : ℕ) (r : Reader) : Reader :=
  let opos := r.opos - 1
  let x := (enc0 &&& 0x3f) ||| ((enc1 &&& 0x30) <<< 2)
  let y := (enc1 &&& 0x0f) ||| ((enc3 &&& 0x0f) <<< 4)
  let z := (enc2 &&& 0x3f) ||| ((enc3 &&& 0x30) <<< 2)
  { r with
    out := ((r.out.set (opos - 32) (UInt8.ofNat z)).set (opos - 64) (UInt8.ofNat y)).set (opos - 96) (UInt8.ofNat x)
    opos := opos }

/-- The last three elements of a round. -/
def finishRound (blob : Bytes) (enc0 : ℕ) (r : Reader) : Except Thrown Reader := do
  let (enc1, r) ← fe blob r
  let (enc2, r) ← fe blob r
  let (enc3, r) ← fe blob r
  return reassemble enc0 enc1 enc2 enc3 r

/-- The rounds after the first, until the data is there. -/
def rounds (blob : Bytes) (outLen : ℕ) : ℕ → Reader → Except Thrown Reader
  | 0, r => .ok r
  | left + 1, r =>
      if r.opos < outLen then do
        let (enc0, r) ← fe blob r
        let r ← finishRound blob enc0 r
        rounds blob outLen left r
      else .ok r

def decodeOpBlob (blob : Bytes) : Except Thrown Bytes :=
  if blob.length ≠ blobBytes then
    .error (typeError (js "blob: " ++ decimal blob.length ++ js " bytes, expected " ++ decimal blobBytes))
  else if blob.getD 1 0 ≠ 0 then
    .error (typeError (js "blob: encoding version " ++ decimal (blob.getD 1 0).toNat ++ js ", expected 0"))
  else
    -- the three bytes of the length, the first one highest
    let outLen := beNat (field blob 2 3)
    if maxBlobDataBytes < outLen then
      .error (typeError (js "blob: data length " ++ decimal outLen ++ js " exceeds " ++ decimal maxBlobDataBytes))
    else
      let enc0 := (blob.getD 0 0).toNat
      if enc0 &&& 0xc0 ≠ 0 then .error (typeError (js "blob: field element 0 has its high bits set"))
      else do
        let out := put (List.replicate (maxBlobDataBytes + 4 * 32) 0) 0 (field blob 5 27)
        let r ← finishRound blob enc0 ⟨out, 28, 32⟩
        let r ← rounds blob outLen 1023 r
        if (field r.out outLen (r.opos - outLen)).any (· != 0) then
          .error (typeError (js "blob: non-zero bytes where padding was expected"))
        else match (blob.drop r.ipos).findIdx? (· != 0) with
        | some i => .error (typeError (js "blob: non-zero field element at " ++ decimal (r.ipos + i)
            ++ js " past the data"))
        | none => .ok (r.out.take outLen)

/-! ### Bytes of six bits -/

lemma highBits_eq_zero {b : UInt8} : b.toNat &&& 0xc0 = 0 ↔ b.toNat < 64 := by
  have hall : ∀ n : Fin 256, n.val &&& 0xc0 = 0 ↔ n.val < 64 := by decide +kernel
  exact hall ⟨b.toNat, b.toNat_lt⟩

/-- The first and the third byte: six bits, and two of another. -/
lemma or_high {a b : ℕ} (ha : a < 64) (hb : b < 64) :
    (a &&& 0x3f) ||| ((b &&& 0x30) <<< 2) = a + 64 * (b / 16) := by
  have hall : ∀ a b : Fin 64, (a.val &&& 0x3f) ||| ((b.val &&& 0x30) <<< 2) = a.val + 64 * (b.val / 16) := by
    decide
  exact hall ⟨a, ha⟩ ⟨b, hb⟩

/-- The second byte: four bits and four. -/
lemma or_low {a b : ℕ} (ha : a < 64) (hb : b < 64) :
    (a &&& 0x0f) ||| ((b &&& 0x0f) <<< 4) = a % 16 + 16 * (b % 16) := by
  have hall : ∀ a b : Fin 64, (a.val &&& 0x0f) ||| ((b.val &&& 0x0f) <<< 4) = a.val % 16 + 16 * (b.val % 16) := by
    decide
  exact hall ⟨a, ha⟩ ⟨b, hb⟩

/-! ### Words -/

/-- What the last three elements of a round carry: 31 bytes each, and three bytes in six bits of each
element of the round. -/
structure Word where
  x : UInt8
  y : UInt8
  z : UInt8
  a : Bytes
  b : Bytes
  c : Bytes
  length_a : a.length = 31
  length_b : b.length = 31
  length_c : c.length = 31

namespace Word

/-- The data. -/
def data (w : Word) : Bytes := (w.x :: w.a) ++ ((w.y :: w.b) ++ (w.z :: w.c))

/-- The six bits of the first element. -/
def enc0 (w : Word) : ℕ := w.x.toNat % 64

def enc1 (w : Word) : ℕ := w.y.toNat % 16 + 16 * (w.x.toNat / 64)

def enc2 (w : Word) : ℕ := w.z.toNat % 64

def enc3 (w : Word) : ℕ := w.y.toNat / 16 + 16 * (w.z.toNat / 64)

/-- The last three elements. -/
def elements (w : Word) : Bytes :=
  (UInt8.ofNat w.enc1 :: w.a) ++ ((UInt8.ofNat w.enc2 :: w.b) ++ (UInt8.ofNat w.enc3 :: w.c))

variable {w v : Word}

@[simp] lemma length_data : w.data.length = 96 := by
  simp [data, w.length_a, w.length_b, w.length_c]

@[simp] lemma length_elements : w.elements.length = 96 := by
  simp [elements, w.length_a, w.length_b, w.length_c]

lemma enc0_lt : w.enc0 < 64 := Nat.mod_lt _ (by norm_num)

lemma enc1_lt : w.enc1 < 64 := by
  have := w.x.toNat_lt
  rw [enc1]
  omega

lemma enc2_lt : w.enc2 < 64 := Nat.mod_lt _ (by norm_num)

lemma enc3_lt : w.enc3 < 64 := by
  have := w.y.toNat_lt
  have := w.z.toNat_lt
  rw [enc3]
  omega

/-- Three parts of a list, by their lengths. -/
lemma append_inj {x x' y y' z z' : UInt8} {a a' b b' c c' : Bytes} (ha : a.length = a'.length)
    (hb : b.length = b'.length)
    (h : (x :: a) ++ ((y :: b) ++ (z :: c)) = (x' :: a') ++ ((y' :: b') ++ (z' :: c'))) :
    (x = x' ∧ a = a') ∧ (y = y' ∧ b = b') ∧ z = z' ∧ c = c' := by
  obtain ⟨h₁, h₂⟩ := List.append_inj h (by simp [ha])
  obtain ⟨h₂, h₃⟩ := List.append_inj h₂ (by simp [hb])
  exact ⟨List.cons.inj h₁, List.cons.inj h₂, List.cons.inj h₃⟩

lemma data_injective (h : w.data = v.data) : w = v := by
  obtain ⟨⟨hx, ha⟩, ⟨hy, hb⟩, hz, hc⟩ := append_inj (by rw [w.length_a, v.length_a])
    (by rw [w.length_b, v.length_b]) h
  cases w
  cases v
  simp_all

/-- Every 96 bytes of data are those of a word. -/
lemma exists_data {l : Bytes} (h : l.length = 96) : ∃ w : Word, w.data = l := by
  obtain ⟨x, a, ha⟩ := List.exists_of_length_succ (n := 31) (l.take 32) (by rw [List.length_take]; omega)
  obtain ⟨y, b, hb⟩ := List.exists_of_length_succ (n := 31) ((l.drop 32).take 32)
    (by rw [List.length_take, List.length_drop]; omega)
  obtain ⟨z, c, hc⟩ := List.exists_of_length_succ (n := 31) ((l.drop 32).drop 32)
    (by rw [List.length_drop, List.length_drop]; omega)
  have hla := congrArg List.length ha
  have hlb := congrArg List.length hb
  have hlc := congrArg List.length hc
  rw [List.length_take, List.length_cons] at hla hlb
  rw [List.length_drop, List.length_cons] at hlc
  rw [List.length_drop] at hlb hlc
  refine ⟨⟨x, y, z, a, b, c, by omega, by omega, by omega⟩, ?_⟩
  rw [data, ← ha, ← hb, ← hc, List.take_append_drop, List.take_append_drop]

/-! The three bytes, from the bytes of six bits. -/

lemma x_eq (w : Word) : UInt8.ofNat (w.enc0 + 64 * (w.enc1 / 16)) = w.x := by
  have := w.x.toNat_lt
  rw [enc0, enc1, show w.x.toNat % 64 + 64 * ((w.y.toNat % 16 + 16 * (w.x.toNat / 64)) / 16) = w.x.toNat by omega,
    UInt8.ofNat_toNat]

lemma y_eq (w : Word) : UInt8.ofNat (w.enc1 % 16 + 16 * (w.enc3 % 16)) = w.y := by
  have := w.y.toNat_lt
  rw [enc1, enc3, show (w.y.toNat % 16 + 16 * (w.x.toNat / 64)) % 16
      + 16 * ((w.y.toNat / 16 + 16 * (w.z.toNat / 64)) % 16) = w.y.toNat by omega, UInt8.ofNat_toNat]

lemma z_eq (w : Word) : UInt8.ofNat (w.enc2 + 64 * (w.enc3 / 16)) = w.z := by
  have := w.y.toNat_lt
  have := w.z.toNat_lt
  rw [enc2, enc3, show w.z.toNat % 64 + 64 * ((w.y.toNat / 16 + 16 * (w.z.toNat / 64)) / 16) = w.z.toNat by omega,
    UInt8.ofNat_toNat]

/-- The word that four bytes of six bits carry. -/
lemma exists_enc {e₀ e₁ e₂ e₃ : ℕ} {a b c : Bytes} (h₀ : e₀ < 64) (h₁ : e₁ < 64) (h₂ : e₂ < 64)
    (h₃ : e₃ < 64) (ha : a.length = 31) (hb : b.length = 31) (hc : c.length = 31) :
    ∃ w : Word, w.enc0 = e₀ ∧ w.enc1 = e₁ ∧ w.enc2 = e₂ ∧ w.enc3 = e₃ ∧ w.a = a ∧ w.b = b ∧ w.c = c := by
  have hx : (UInt8.ofNat (e₀ + 64 * (e₁ / 16))).toNat = e₀ + 64 * (e₁ / 16) := toNat_ofNat_byte (by omega)
  have hy : (UInt8.ofNat (e₁ % 16 + 16 * (e₃ % 16))).toNat = e₁ % 16 + 16 * (e₃ % 16) :=
    toNat_ofNat_byte (by omega)
  have hz : (UInt8.ofNat (e₂ + 64 * (e₃ / 16))).toNat = e₂ + 64 * (e₃ / 16) := toNat_ofNat_byte (by omega)
  refine ⟨⟨UInt8.ofNat (e₀ + 64 * (e₁ / 16)), UInt8.ofNat (e₁ % 16 + 16 * (e₃ % 16)),
    UInt8.ofNat (e₂ + 64 * (e₃ / 16)), a, b, c, ha, hb, hc⟩, ?_, ?_, ?_, ?_, rfl, rfl, rfl⟩
  · rw [enc0, hx]
    omega
  · rw [enc1, hx, hy]
    omega
  · rw [enc2, hz]
    omega
  · rw [enc3, hy, hz]
    omega

end Word

/-! ### One round -/

section Round

variable {blob q a b c zs : Bytes} {Z g ipos i e₀ e₁ e₂ e₃ : ℕ} {r : Reader}

def zeros (n : ℕ) : Bytes := List.replicate n 0

@[simp] lemma length_zeros {n : ℕ} : (zeros n).length = n := List.length_replicate

lemma zeros_add (m n : ℕ) : zeros (m + n) = zeros m ++ zeros n := List.replicate_add m n 0

lemma put_zeros (h : g + a.length ≤ Z) :
    put (q ++ zeros Z) (q.length + g) a = q ++ zeros g ++ a ++ zeros (Z - g - a.length) := by
  have hsplit : q ++ zeros Z = (q ++ zeros g) ++ (zeros a.length ++ zeros (Z - g - a.length)) := by
    rw [List.append_assoc, ← zeros_add, ← zeros_add, show g + (a.length + (Z - g - a.length)) = Z by omega]
  have hlen : (q ++ zeros g).length = q.length + g := by simp
  rw [put, hsplit, List.take_left' hlen, ← List.drop_drop, List.drop_left' hlen,
    List.drop_left' length_zeros]

lemma set_length (l : Bytes) (x y : UInt8) (m : Bytes) : (l ++ x :: m).set l.length y = l ++ y :: m := by
  rw [List.set_append_right _ _ le_rfl, Nat.sub_self, List.set_cons_zero]

lemma fe_eq_ok {p : ℕ × Reader} : fe blob r = .ok p ↔ (blob.getD r.ipos 0).toNat < 64 ∧
    p = ((blob.getD r.ipos 0).toNat, ⟨put r.out r.opos (field blob (r.ipos + 1) 31), r.opos + 32, r.ipos + 32⟩) := by
  rw [fe]
  split
  · next h => exact ⟨nofun, fun hp => absurd (highBits_eq_zero.mpr hp.1) h⟩
  · next h =>
    rw [not_not] at h
    exact ⟨fun hp => ⟨highBits_eq_zero.mp h, (Except.ok.inj hp).symm⟩, fun hp => by rw [hp.2]⟩

/-- The three places left open are filled. -/
lemma reassemble_eq (ha : a.length = 31) (hb : b.length = 31) (h₀ : e₀ < 64)
    (h₁ : e₁ < 64) (h₂ : e₂ < 64) (h₃ : e₃ < 64) :
    reassemble e₀ e₁ e₂ e₃ ⟨q ++ ((0 :: a) ++ ((0 :: b) ++ (0 :: c))) ++ zs, q.length + 97, i⟩
      = ⟨q ++ ((UInt8.ofNat (e₀ + 64 * (e₁ / 16)) :: a) ++ ((UInt8.ofNat (e₁ % 16 + 16 * (e₃ % 16)) :: b)
          ++ (UInt8.ofNat (e₂ + 64 * (e₃ / 16)) :: c))) ++ zs, q.length + 96, i⟩ := by
  have hz : ∀ x y z w : UInt8, (q ++ ((x :: a) ++ ((y :: b) ++ (z :: c))) ++ zs).set (q.length + 64) w
      = q ++ ((x :: a) ++ ((y :: b) ++ (w :: c))) ++ zs := by
    intro x y z w
    have h := set_length (q ++ (x :: a) ++ (y :: b)) z w (c ++ zs)
    rw [show (q ++ (x :: a) ++ (y :: b)).length = q.length + 64 by simp [ha, hb]] at h
    simpa using h
  have hy : ∀ x y z w : UInt8, (q ++ ((x :: a) ++ ((y :: b) ++ (z :: c))) ++ zs).set (q.length + 32) w
      = q ++ ((x :: a) ++ ((w :: b) ++ (z :: c))) ++ zs := by
    intro x y z w
    have h := set_length (q ++ (x :: a)) y w (b ++ (z :: c) ++ zs)
    rw [show (q ++ (x :: a)).length = q.length + 32 by simp [ha]] at h
    simpa using h
  have hx : ∀ x y z w : UInt8, (q ++ ((x :: a) ++ ((y :: b) ++ (z :: c))) ++ zs).set q.length w
      = q ++ ((w :: a) ++ ((y :: b) ++ (z :: c))) ++ zs := by
    intro x y z w
    simp
  rw [reassemble]
  simp only [Nat.add_sub_cancel, show q.length + 97 - 1 = q.length + 96 by omega,
    show q.length + 96 - 32 = q.length + 64 by omega, show q.length + 96 - 64 = q.length + 32 by omega,
    hz, hy, hx, or_high h₀ h₁, or_low h₁ h₃, or_high h₂ h₃]

lemma field_succ {n : ℕ} (h : i < blob.length) :
    field blob i (n + 1) = blob.getD i 0 :: field blob (i + 1) n := by
  rw [field, List.drop_eq_getElem_cons h, List.take_succ_cons, List.getD_eq_getElem?_getD,
    List.getElem?_eq_getElem h]
  rfl

/-- The last three elements of a blob, byte by byte. -/
lemma field_elements (h : ipos + 96 ≤ blob.length) :
    field blob ipos 96 = (blob.getD ipos 0 :: field blob (ipos + 1) 31)
      ++ ((blob.getD (ipos + 32) 0 :: field blob (ipos + 33) 31)
        ++ (blob.getD (ipos + 64) 0 :: field blob (ipos + 65) 31)) := by
  rw [field_append blob ipos 32 64, field_append blob (ipos + 32) 32 32, field_succ (n := 31) (by omega),
    field_succ (n := 31) (by omega), field_succ (n := 31) (by omega)]

/-- An element after a place that is left open. -/
lemma fe_gap (hZ : 32 ≤ Z) (hblob : ipos + 32 ≤ blob.length) {p : ℕ × Reader} :
    fe blob ⟨q ++ zeros Z, q.length + 1, ipos⟩ = .ok p ↔ (blob.getD ipos 0).toNat < 64 ∧
      p = ((blob.getD ipos 0).toNat, ⟨(q ++ 0 :: field blob (ipos + 1) 31) ++ zeros (Z - 32),
        (q ++ 0 :: field blob (ipos + 1) 31).length + 1, ipos + 32⟩) := by
  have hlen : (field blob (ipos + 1) 31).length = 31 := by
    rw [length_field]
    omega
  have hput : put (q ++ zeros Z) (q.length + 1) (field blob (ipos + 1) 31)
      = (q ++ 0 :: field blob (ipos + 1) 31) ++ zeros (Z - 32) := by
    rw [put_zeros (by omega), hlen, show Z - 1 - 31 = Z - 32 by omega]
    simp [zeros]
  rw [fe_eq_ok, hput, List.length_append, List.length_cons, hlen]

/-- The three elements are read. -/
lemma finishRound_read (hZ : 96 ≤ Z) (hblob : ipos + 96 ≤ blob.length) {r' : Reader} :
    finishRound blob e₀ ⟨q ++ zeros Z, q.length + 1, ipos⟩ = .ok r' ↔
      ((blob.getD ipos 0).toNat < 64 ∧ (blob.getD (ipos + 32) 0).toNat < 64 ∧
        (blob.getD (ipos + 64) 0).toNat < 64) ∧
      r' = reassemble e₀ (blob.getD ipos 0).toNat (blob.getD (ipos + 32) 0).toNat
        (blob.getD (ipos + 64) 0).toNat ⟨q ++ ((0 :: field blob (ipos + 1) 31)
          ++ ((0 :: field blob (ipos + 33) 31) ++ (0 :: field blob (ipos + 65) 31))) ++ zeros (Z - 96),
          q.length + 97, ipos + 96⟩ := by
  have hlast : ∀ a b c : Bytes, a.length = 31 → b.length = 31 → c.length = 31 →
      (⟨((q ++ 0 :: a) ++ 0 :: b) ++ 0 :: c ++ zeros (Z - 32 - 32 - 32),
        (((q ++ 0 :: a) ++ 0 :: b) ++ 0 :: c).length + 1, ipos + 32 + 32 + 32⟩ : Reader)
      = ⟨q ++ ((0 :: a) ++ ((0 :: b) ++ (0 :: c))) ++ zeros (Z - 96), q.length + 97, ipos + 96⟩ := by
    intro a b c ha hb hc
    rw [Nat.sub_sub, Nat.sub_sub]
    simp [ha, hb, hc]
  have hlen : ∀ i, i + 31 ≤ blob.length → (field blob i 31).length = 31 := by
    intro i hi
    rw [length_field]
    omega
  have hreader := hlast (field blob (ipos + 1) 31) (field blob (ipos + 33) 31) (field blob (ipos + 65) 31)
    (hlen _ (by omega)) (hlen _ (by omega)) (hlen _ (by omega))
  constructor
  · intro h
    obtain ⟨p₁, h₁, h⟩ := bind_eq_ok h
    obtain ⟨hb₁, rfl⟩ := (fe_gap (by omega) (by omega)).mp h₁
    obtain ⟨p₂, h₂, h⟩ := bind_eq_ok h
    obtain ⟨hb₂, rfl⟩ := (fe_gap (by omega) (by omega)).mp h₂
    obtain ⟨p₃, h₃, h⟩ := bind_eq_ok h
    obtain ⟨hb₃, rfl⟩ := (fe_gap (by omega) (by omega)).mp h₃
    refine ⟨⟨hb₁, hb₂, hb₃⟩, ?_⟩
    rw [← Except.ok.inj h]
    exact congrArg _ hreader
  · rintro ⟨⟨hb₁, hb₂, hb₃⟩, rfl⟩
    rw [finishRound, (fe_gap (by omega) (by omega)).mpr ⟨hb₁, rfl⟩, ok_bind]
    dsimp only
    rw [(fe_gap (by omega) (by omega)).mpr ⟨hb₂, rfl⟩, ok_bind]
    dsimp only
    rw [(fe_gap (by omega) (by omega)).mpr ⟨hb₃, rfl⟩, ok_bind]
    exact congrArg (fun r => Except.ok (reassemble e₀ _ _ _ r)) hreader

/-- **Round.** What the last three elements of a round read is a word. -/
lemma finishRound_eq_ok (hZ : 96 ≤ Z) (hblob : ipos + 96 ≤ blob.length) (h₀ : e₀ < 64) {r' : Reader} :
    finishRound blob e₀ ⟨q ++ zeros Z, q.length + 1, ipos⟩ = .ok r' ↔ ∃ w : Word, w.enc0 = e₀ ∧
      field blob ipos 96 = w.elements ∧ r' = ⟨q ++ w.data ++ zeros (Z - 96), q.length + 96, ipos + 96⟩ := by
  have hlen : ∀ i, i + 31 ≤ blob.length → (field blob i 31).length = 31 := by
    intro i hi
    rw [length_field]
    omega
  have ha := hlen (ipos + 1) (by omega)
  have hb := hlen (ipos + 33) (by omega)
  have hc := hlen (ipos + 65) (by omega)
  rw [finishRound_read hZ hblob, field_elements hblob]
  constructor
  · rintro ⟨⟨h₁, h₂, h₃⟩, rfl⟩
    obtain ⟨w, hw₀, hw₁, hw₂, hw₃, hwa, hwb, hwc⟩ := Word.exists_enc h₀ h₁ h₂ h₃ ha hb hc
    refine ⟨w, hw₀, ?_, ?_⟩
    · rw [Word.elements, hw₁, hw₂, hw₃, hwa, hwb, hwc, UInt8.ofNat_toNat, UInt8.ofNat_toNat, UInt8.ofNat_toNat]
    · rw [reassemble_eq ha hb h₀ h₁ h₂ h₃, Word.data, hwa, hwb, hwc, ← w.x_eq, ← w.y_eq, ← w.z_eq, hw₀, hw₁,
        hw₂, hw₃]
  · rintro ⟨w, rfl, hfield, rfl⟩
    obtain ⟨⟨h₁, hwa⟩, ⟨h₂, hwb⟩, h₃, hwc⟩ :=
      Word.append_inj (by rw [ha, w.length_a]) (by rw [hb, w.length_b]) hfield
    have hn : ∀ {e : ℕ}, e < 64 → (UInt8.ofNat e).toNat = e := fun he => toNat_ofNat_byte (by omega)
    have hn₁ : (blob.getD ipos 0).toNat = w.enc1 := by rw [h₁, hn w.enc1_lt]
    have hn₂ : (blob.getD (ipos + 32) 0).toNat = w.enc2 := by rw [h₂, hn w.enc2_lt]
    have hn₃ : (blob.getD (ipos + 64) 0).toNat = w.enc3 := by rw [h₃, hn w.enc3_lt]
    refine ⟨⟨hn₁ ▸ w.enc1_lt, hn₂ ▸ w.enc2_lt, hn₃ ▸ w.enc3_lt⟩, ?_⟩
    rw [hn₁, hn₂, hn₃, reassemble_eq ha hb w.enc0_lt w.enc1_lt w.enc2_lt w.enc3_lt, hwa, hwb, hwc, w.x_eq,
      w.y_eq, w.z_eq]
    rfl

end Round

/-! ### Rounds -/

/-- What a round after the first carries. -/
structure Round where
  front : Bytes
  word : Word
  length_front : front.length = 31

namespace Round

def data (w : Round) : Bytes := w.front ++ w.word.data

def elements (w : Round) : Bytes := (UInt8.ofNat w.word.enc0 :: w.front) ++ w.word.elements

variable {w v : Round} {ws vs : List Round}

@[simp] lemma length_data : w.data.length = 127 := by
  simp [data, w.length_front]

@[simp] lemma length_elements : w.elements.length = 128 := by
  simp [elements, w.length_front]

@[simp] lemma length_flatMap_data : (ws.flatMap data).length = 127 * ws.length := by
  induction ws with
  | nil => rfl
  | cons w ws ih =>
      rw [List.flatMap_cons, List.length_append, ih, length_data, List.length_cons]
      ring

@[simp] lemma length_flatMap_elements : (ws.flatMap elements).length = 128 * ws.length := by
  induction ws with
  | nil => rfl
  | cons w ws ih =>
      rw [List.flatMap_cons, List.length_append, ih, length_elements, List.length_cons]
      ring

lemma data_injective (h : w.data = v.data) : w = v := by
  obtain ⟨hfront, hword⟩ := List.append_inj h (by rw [w.length_front, v.length_front])
  have := Word.data_injective hword
  cases w
  cases v
  simp_all

lemma flatMap_data_injective (hlen : ws.length = vs.length) (h : ws.flatMap data = vs.flatMap data) :
    ws = vs := by
  induction ws generalizing vs with
  | nil => exact (List.length_eq_zero_iff.mp hlen.symm).symm
  | cons w ws ih =>
      cases vs with
      | nil => cases hlen
      | cons v vs =>
          rw [List.flatMap_cons, List.flatMap_cons] at h
          obtain ⟨hw, hws⟩ := List.append_inj h (by rw [length_data, length_data])
          rw [data_injective hw, ih (Nat.succ.inj hlen) hws]

/-- Data of a whole number of rounds is that of rounds. -/
lemma exists_flatMap_data {k : ℕ} {l : Bytes} (h : l.length = 127 * k) :
    ∃ ws : List Round, ws.length = k ∧ ws.flatMap data = l := by
  induction k generalizing l with
  | zero => exact ⟨[], rfl, (List.length_eq_zero_iff.mp h).symm⟩
  | succ k ih =>
      obtain ⟨ws, hlen, hws⟩ := ih (l := l.drop 127) (by rw [List.length_drop]; omega)
      obtain ⟨w, hw⟩ := Word.exists_data (l := (l.take 127).drop 31)
        (by rw [List.length_drop, List.length_take]; omega)
      refine ⟨⟨(l.take 127).take 31, w, by rw [List.length_take, List.length_take]; omega⟩ :: ws,
        by rw [List.length_cons, hlen], ?_⟩
      rw [List.flatMap_cons, hws, data, hw, List.take_append_drop, List.take_append_drop]

end Round

section Rounds

variable {blob q : Bytes} {Z ipos left outLen : ℕ}

/-- One round. -/
lemma round_eq_ok (hZ : 127 ≤ Z) (hblob : ipos + 128 ≤ blob.length) {r' : Reader} :
    (do let (enc0, r) ← fe blob ⟨q ++ zeros Z, q.length, ipos⟩
        finishRound blob enc0 r) = .ok r' ↔ ∃ w : Round, field blob ipos 128 = w.elements ∧
      r' = ⟨q ++ w.data ++ zeros (Z - 127), q.length + 127, ipos + 128⟩ := by
  have hlen : (field blob (ipos + 1) 31).length = 31 := by
    rw [length_field]
    omega
  have hput : put (q ++ zeros Z) q.length (field blob (ipos + 1) 31)
      = (q ++ field blob (ipos + 1) 31) ++ zeros (Z - 31) := by
    have h := put_zeros (q := q) (a := field blob (ipos + 1) 31) (g := 0) (Z := Z) (by omega)
    rw [hlen] at h
    simpa [zeros] using h
  have hfe : ∀ p : ℕ × Reader, fe blob ⟨q ++ zeros Z, q.length, ipos⟩ = .ok p ↔
      (blob.getD ipos 0).toNat < 64 ∧ p = ((blob.getD ipos 0).toNat,
        ⟨(q ++ field blob (ipos + 1) 31) ++ zeros (Z - 31), (q ++ field blob (ipos + 1) 31).length + 1, ipos + 32⟩) := by
    intro p
    rw [fe_eq_ok, hput, List.length_append, hlen]
  have hfield : field blob ipos 128
      = (blob.getD ipos 0 :: field blob (ipos + 1) 31) ++ field blob (ipos + 32) 96 := by
    rw [field_append blob ipos 32 96, field_succ (n := 31) (by omega)]
  rw [hfield]
  constructor
  · intro h
    obtain ⟨p, hp, h⟩ := bind_eq_ok h
    obtain ⟨h₀, rfl⟩ := (hfe p).mp hp
    obtain ⟨w, hw₀, hw, rfl⟩ := (finishRound_eq_ok (by omega) (by omega) h₀).mp h
    refine ⟨⟨field blob (ipos + 1) 31, w, hlen⟩, ?_, ?_⟩
    · rw [Round.elements, hw₀, UInt8.ofNat_toNat, hw]
    · rw [Round.data, Nat.sub_sub, ← List.append_assoc, List.length_append, hlen]
  · rintro ⟨w, hw, rfl⟩
    obtain ⟨hhead, hword⟩ := List.append_inj hw (by simp [hlen, w.length_front])
    obtain ⟨h₀, hfront⟩ := List.cons.inj hhead
    have hn₀ : (blob.getD ipos 0).toNat = w.word.enc0 := by
      rw [h₀]
      exact toNat_ofNat_byte (by have := w.word.enc0_lt; omega)
    have hlt : (blob.getD ipos 0).toNat < 64 := hn₀ ▸ w.word.enc0_lt
    rw [(hfe _).mpr ⟨hlt, rfl⟩, ok_bind]
    refine (finishRound_eq_ok (by omega) (by omega) hlt).mpr ⟨w.word, hn₀.symm, hword, ?_⟩
    rw [Round.data, Nat.sub_sub, ← List.append_assoc, ← hfront, List.length_append, hlen]

/-- How many rounds there are. -/
def needed (outLen : ℕ) : ℕ → ℕ → ℕ
  | 0, _ => 0
  | left + 1, len => if len < outLen then needed outLen left (len + 127) + 1 else 0

lemma needed_le (len : ℕ) : needed outLen left len ≤ left := by
  induction left generalizing len with
  | zero => exact le_rfl
  | succ left ih =>
      rw [needed]
      split
      · exact Nat.succ_le_succ (ih _)
      · exact Nat.zero_le _

/-- The rounds are enough for the data. -/
lemma le_needed {len : ℕ} (h : outLen ≤ len + 127 * left) : outLen ≤ len + 127 * needed outLen left len := by
  induction left generalizing len with
  | zero => exact h
  | succ left ih =>
      rw [needed]
      split
      · have := @ih (len + 127) (by omega)
        omega
      · omega

lemma read_nil {r' : Reader} {ws : List Round} (hws : ws.length = 0) :
    (field blob ipos (128 * ws.length) = ws.flatMap Round.elements ∧
      r' = ⟨q ++ ws.flatMap Round.data ++ zeros (Z - 127 * ws.length), q.length + 127 * ws.length,
        ipos + 128 * ws.length⟩) ↔ r' = ⟨q ++ zeros Z, q.length, ipos⟩ := by
  rw [List.length_eq_zero_iff.mp hws]
  simp [field]

/-- **Rounds.** A run of rounds reads as many as are needed. -/
lemma rounds_eq_ok (hZ : 127 * left ≤ Z) (hblob : ipos + 128 * left ≤ blob.length) {r' : Reader} :
    rounds blob outLen left ⟨q ++ zeros Z, q.length, ipos⟩ = .ok r' ↔ ∃ ws : List Round,
      ws.length = needed outLen left q.length ∧ field blob ipos (128 * ws.length) = ws.flatMap Round.elements ∧
      r' = ⟨q ++ ws.flatMap Round.data ++ zeros (Z - 127 * ws.length), q.length + 127 * ws.length,
        ipos + 128 * ws.length⟩ := by
  have hnone : ∀ {n : ℕ} {ipos : ℕ} {q : Bytes} {Z : ℕ}, n = 0 →
      (Except.ok ⟨q ++ zeros Z, q.length, ipos⟩ = (.ok r' : Except Thrown Reader) ↔ ∃ ws : List Round,
        ws.length = n ∧ field blob ipos (128 * ws.length) = ws.flatMap Round.elements ∧
        r' = ⟨q ++ ws.flatMap Round.data ++ zeros (Z - 127 * ws.length), q.length + 127 * ws.length,
          ipos + 128 * ws.length⟩) := by
    rintro n ipos q Z rfl
    constructor
    · intro h
      exact ⟨[], rfl, (read_nil rfl).mpr (Except.ok.inj h).symm⟩
    · rintro ⟨ws, hws, h⟩
      rw [(read_nil hws).mp h]
  induction left generalizing q Z ipos with
  | zero => exact hnone rfl
  | succ left ih =>
      rw [rounds, needed]
      dsimp only
      by_cases hlt : q.length < outLen
      · rw [if_pos hlt, if_pos hlt]
        have hround : ∀ {r₁ : Reader}, _ := @round_eq_ok blob q Z ipos (by omega) (by omega)
        have hlater : ∀ w : Round,
            rounds blob outLen left ⟨q ++ w.data ++ zeros (Z - 127), q.length + 127, ipos + 128⟩ = .ok r' ↔
              ∃ ws : List Round, ws.length = needed outLen left (q.length + 127) ∧
                field blob (ipos + 128) (128 * ws.length) = ws.flatMap Round.elements ∧
                r' = ⟨q ++ w.data ++ ws.flatMap Round.data ++ zeros (Z - 127 - 127 * ws.length),
                  q.length + 127 + 127 * ws.length, ipos + 128 + 128 * ws.length⟩ := by
          intro w
          have h := @ih (q ++ w.data) (Z - 127) (ipos + 128) (by omega) (by omega)
          rwa [List.length_append, Round.length_data] at h
        -- the reader after `w` and `ws` is the one after `w :: ws`
        have hreader : ∀ (w : Round) (ws : List Round),
            (⟨q ++ w.data ++ ws.flatMap Round.data ++ zeros (Z - 127 - 127 * ws.length),
              q.length + 127 + 127 * ws.length, ipos + 128 + 128 * ws.length⟩ : Reader)
            = ⟨q ++ (w :: ws).flatMap Round.data ++ zeros (Z - 127 * (w :: ws).length),
              q.length + 127 * (w :: ws).length, ipos + 128 * (w :: ws).length⟩ := by
          intro w ws
          rw [List.flatMap_cons, List.length_cons, Nat.sub_sub, List.append_assoc q w.data,
            show 127 * (ws.length + 1) = 127 + 127 * ws.length by ring,
            show 128 * (ws.length + 1) = 128 + 128 * ws.length by ring, Nat.add_assoc, Nat.add_assoc]
        have hfield : ∀ (w : Round) (ws : List Round), field blob ipos (128 * (w :: ws).length)
            = field blob ipos 128 ++ field blob (ipos + 128) (128 * ws.length) := by
          intro w ws
          rw [List.length_cons, show 128 * (ws.length + 1) = 128 + 128 * ws.length by ring, field_append]
        constructor
        · intro h
          obtain ⟨p, hp, h⟩ := bind_eq_ok h
          obtain ⟨r₁, hr₁, h⟩ := bind_eq_ok h
          obtain ⟨w, hw, rfl⟩ := hround.mp (by rw [hp, ok_bind]; exact hr₁)
          obtain ⟨ws, hlen, hws, rfl⟩ := (hlater w).mp h
          exact ⟨w :: ws, by rw [List.length_cons, hlen], by rw [hfield, hw, hws, List.flatMap_cons],
            hreader w ws⟩
        · rintro ⟨ws, hlen, hws, rfl⟩
          cases ws with
          | nil => cases hlen
          | cons w ws =>
              have hle : ws.length ≤ left := by
                rw [Nat.succ.inj hlen]
                exact needed_le _
              rw [hfield, List.flatMap_cons] at hws
              obtain ⟨hw, hws⟩ := List.append_inj hws (by rw [length_field, Round.length_elements]; omega)
              obtain ⟨p, hp, hr₁⟩ := bind_eq_ok (hround.mpr ⟨w, hw, rfl⟩)
              rw [hp, ok_bind]
              dsimp only at hr₁ ⊢
              rw [hr₁, ok_bind]
              exact (hlater w).mpr ⟨ws, Nat.succ.inj hlen, hws, (hreader w ws).symm⟩
      · rw [if_neg hlt, if_neg hlt]
        exact hnone rfl

end Rounds

/-! ### Blobs -/

section Blobs

variable {blob d front : Bytes} {w : Word} {ws : List Round} {n Z : ℕ} {l : Bytes}

lemma any_ne_zero : l.any (· != 0) = false ↔ l = zeros l.length := by
  rw [List.any_eq_false, zeros, List.eq_replicate_iff]
  simp

lemma findIdx?_ne_zero : l.findIdx? (· != 0) = none ↔ l = zeros l.length := by
  rw [List.findIdx?_eq_none_iff, zeros, List.eq_replicate_iff]
  simp

/-- The padding of the last round. -/
lemma padding_eq (h : n ≤ l.length) :
    (field (l ++ zeros Z) n (l.length - n)).any (· != 0) = false ↔ l = l.take n ++ zeros (l.length - n) := by
  have hdrop : field (l ++ zeros Z) n (l.length - n) = l.drop n := by
    rw [field, List.drop_append_of_le_length h, List.take_left' (List.length_drop ..)]
  rw [hdrop, any_ne_zero, List.length_drop]
  constructor
  · intro hz
    rw [← hz, List.take_append_drop]
  · intro hz
    exact List.append_cancel_left ((List.take_append_drop n l).trans hz)

lemma put_first (h : front.length = 27) :
    (⟨put (zeros (maxBlobDataBytes + 4 * 32)) 0 front, 28, 32⟩ : Reader)
      = ⟨front ++ zeros 130145, front.length + 1, 32⟩ := by
  rw [put, h, List.take_zero, List.nil_append, zeros, List.drop_replicate]
  rfl

/-- The words of data, padded with zeros to whole rounds. -/
structure Carries (d front : Bytes) (w : Word) (ws : List Round) : Prop where
  length_le : d.length ≤ maxBlobDataBytes
  length_front : front.length = 27
  length_rounds : ws.length = needed d.length 1023 123
  data_eq : front ++ w.data ++ ws.flatMap Round.data = d ++ zeros (123 + 127 * ws.length - d.length)

/-- The blob of words: the first of six bits, the version, the length, and the words; zeros behind. -/
def layout (n : ℕ) (front : Bytes) (w : Word) (ws : List Round) : Bytes :=
  UInt8.ofNat w.enc0 :: 0 :: (Sha256.beBytes 3 n ++ (front ++ (w.elements
    ++ (ws.flatMap Round.elements ++ zeros (blobBytes - (128 + 128 * ws.length))))))

/-- A blob, part by part. -/
lemma eq_parts (h : blob.length = blobBytes) (k : ℕ) :
    blob = blob.getD 0 0 :: blob.getD 1 0 :: (field blob 2 3 ++ (field blob 5 27 ++ (field blob 32 96
      ++ (field blob 128 (128 * k) ++ blob.drop (128 + 128 * k))))) := by
  have hhead : field blob 0 5 = blob.getD 0 0 :: blob.getD 1 0 :: field blob 2 3 := by
    rw [field_succ (n := 4) (by rw [h, blobBytes]; norm_num), field_succ (n := 3) (by rw [h, blobBytes]; norm_num)]
  have hall : blob = field blob 0 (5 + (27 + (96 + 128 * k))) ++ blob.drop (128 + 128 * k) := by
    rw [field, List.drop_zero, show 5 + (27 + (96 + 128 * k)) = 128 + 128 * k by ring, List.take_append_drop]
  rw [field_append, field_append, field_append, hhead] at hall
  simpa using hall

/-- What a blob that is laid out so reads. -/
structure Parts (blob : Bytes) (n : ℕ) (front : Bytes) (w : Word) (ws : List Round) : Prop where
  length : blob.length = blobBytes
  enc0 : (blob.getD 0 0).toNat = w.enc0
  version : blob.getD 1 0 = 0
  len : field blob 2 3 = Sha256.beBytes 3 n
  front : field blob 5 27 = front
  word : field blob 32 96 = w.elements
  rounds : field blob 128 (128 * ws.length) = ws.flatMap Round.elements
  rest : blob.drop (128 + 128 * ws.length) = zeros (blob.drop (128 + 128 * ws.length)).length

lemma length_layout (hfront : front.length = 27) (hws : ws.length ≤ 1023) :
    (layout n front w ws).length = blobBytes := by
  simp only [layout, List.length_cons, List.length_append, Sha256.length_beBytes, hfront, Word.length_elements,
    Round.length_flatMap_elements, length_zeros, blobBytes]
  omega

lemma parts_iff (hfront : front.length = 27) (hws : ws.length ≤ 1023) :
    Parts blob n front w ws ↔ blob = layout n front w ws := by
  constructor
  · intro h
    have hrest := h.rest
    rw [List.length_drop, h.length] at hrest
    rw [eq_parts h.length ws.length, h.version, h.len, h.front, h.word, h.rounds, hrest, layout, ← h.enc0,
      UInt8.ofNat_toNat]
  · rintro rfl
    have hlen := length_layout (n := n) (w := w) hfront hws
    have hfield : ∀ o m, o + m ≤ blobBytes → (field (layout n front w ws) o m).length = m := by
      intro o m h
      rw [length_field, hlen]
      omega
    have h := eq_parts hlen ws.length
    conv at h => lhs; rw [layout]
    obtain ⟨h₀, h⟩ := List.cons.inj h
    obtain ⟨h₁, h⟩ := List.cons.inj h
    obtain ⟨h₂, h⟩ := List.append_inj h (by rw [Sha256.length_beBytes, hfield _ _ (by norm_num [blobBytes])])
    obtain ⟨h₃, h⟩ := List.append_inj h (by rw [hfront, hfield _ _ (by norm_num [blobBytes])])
    obtain ⟨h₄, h⟩ := List.append_inj h (by rw [Word.length_elements, hfield _ _ (by norm_num [blobBytes])])
    obtain ⟨h₅, h₆⟩ := List.append_inj h
      (by rw [Round.length_flatMap_elements, hfield _ _ (by rw [blobBytes]; omega)])
    exact {
      length := hlen
      enc0 := by
        rw [← h₀]
        exact toNat_ofNat_byte (by have := w.enc0_lt; omega)
      version := h₁.symm
      len := h₂.symm
      front := h₃.symm
      word := h₄.symm
      rounds := h₅.symm
      rest := by rw [← h₆, length_zeros] }

/-- The checks of a blob, in order. -/
lemma decode_steps : decodeOpBlob blob = .ok d ↔ blob.length = blobBytes ∧ blob.getD 1 0 = 0 ∧
    beNat (field blob 2 3) ≤ maxBlobDataBytes ∧ (blob.getD 0 0).toNat < 64 ∧ ∃ r₁ r₂,
      finishRound blob (blob.getD 0 0).toNat
        ⟨put (zeros (maxBlobDataBytes + 4 * 32)) 0 (field blob 5 27), 28, 32⟩ = .ok r₁ ∧
      rounds blob (beNat (field blob 2 3)) 1023 r₁ = .ok r₂ ∧
      (field r₂.out (beNat (field blob 2 3)) (r₂.opos - beNat (field blob 2 3))).any (· != 0) = false ∧
      (blob.drop r₂.ipos).findIdx? (· != 0) = none ∧ d = r₂.out.take (beNat (field blob 2 3)) := by
  rw [decodeOpBlob]
  by_cases hlen : blob.length = blobBytes
  swap
  · rw [if_pos hlen]
    exact ⟨nofun, fun h => absurd h.1 hlen⟩
  rw [if_neg (not_not.mpr hlen)]
  by_cases hversion : blob.getD 1 0 = 0
  swap
  · rw [if_pos hversion]
    exact ⟨nofun, fun h => absurd h.2.1 hversion⟩
  rw [if_neg (not_not.mpr hversion)]
  by_cases hle : beNat (field blob 2 3) ≤ maxBlobDataBytes
  swap
  · rw [if_pos (Nat.lt_of_not_le hle)]
    exact ⟨nofun, fun h => absurd h.2.2.1 hle⟩
  rw [if_neg (Nat.not_lt.mpr hle)]
  by_cases h₀ : (blob.getD 0 0).toNat < 64
  swap
  · rw [if_pos fun h => h₀ (highBits_eq_zero.mp h)]
    exact ⟨nofun, fun h => absurd h.2.2.2.1 h₀⟩
  rw [if_neg (not_not.mpr (highBits_eq_zero.mpr h₀))]
  constructor
  · intro h
    obtain ⟨r₁, hr₁, h⟩ := bind_eq_ok h
    obtain ⟨r₂, hr₂, h⟩ := bind_eq_ok h
    split at h
    · cases h
    · next hany =>
      split at h
      · cases h
      · next hrest =>
        exact ⟨hlen, hversion, hle, h₀, r₁, r₂, hr₁, hr₂, Bool.eq_false_iff.mpr hany, hrest,
          (Except.ok.inj h).symm⟩
  · rintro ⟨-, -, -, -, r₁, r₂, hr₁, hr₂, hany, hrest, rfl⟩
    rw [zeros] at hr₁
    dsimp only
    rw [hr₁, ok_bind, hr₂, ok_bind, if_neg (Bool.eq_false_iff.mp hany)]
    split
    · next i hi => cases hrest.symm.trans hi
    · rfl

/-- The first round and those after it. -/
lemma words_eq_ok (hlen : blob.length = blobBytes) (hfront : front.length = 27) {e₀ : ℕ} (h₀ : e₀ < 64)
    {r₂ : Reader} :
    (∃ r₁, finishRound blob e₀ ⟨front ++ zeros 130145, front.length + 1, 32⟩ = .ok r₁ ∧
      rounds blob n 1023 r₁ = .ok r₂) ↔
    ∃ (w : Word) (ws : List Round), w.enc0 = e₀ ∧ field blob 32 96 = w.elements ∧
      ws.length = needed n 1023 123 ∧ field blob 128 (128 * ws.length) = ws.flatMap Round.elements ∧
      r₂ = ⟨front ++ w.data ++ ws.flatMap Round.data ++ zeros (130049 - 127 * ws.length),
        123 + 127 * ws.length, 128 + 128 * ws.length⟩ := by
  have hrounds : ∀ w : Word, rounds blob n 1023 ⟨front ++ w.data ++ zeros 130049, 123, 128⟩ = .ok r₂ ↔
      ∃ ws : List Round, ws.length = needed n 1023 123 ∧
        field blob 128 (128 * ws.length) = ws.flatMap Round.elements ∧
        r₂ = ⟨front ++ w.data ++ ws.flatMap Round.data ++ zeros (130049 - 127 * ws.length),
          123 + 127 * ws.length, 128 + 128 * ws.length⟩ := by
    intro w
    have h := @rounds_eq_ok blob (front ++ w.data) 130049 128 1023 n (by norm_num)
      (by rw [hlen, blobBytes]) r₂
    rwa [List.length_append, hfront, Word.length_data] at h
  have hfirst : ∀ {r₁ : Reader}, finishRound blob e₀ ⟨front ++ zeros 130145, front.length + 1, 32⟩ = .ok r₁ ↔
      ∃ w : Word, w.enc0 = e₀ ∧ field blob 32 96 = w.elements ∧
        r₁ = ⟨front ++ w.data ++ zeros 130049, 123, 128⟩ := by
    intro r₁
    rw [finishRound_eq_ok (by norm_num) (by rw [hlen, blobBytes]; norm_num) h₀, hfront]
  constructor
  · rintro ⟨r₁, hr₁, hr₂⟩
    obtain ⟨w, hw₀, hw, rfl⟩ := hfirst.mp hr₁
    obtain ⟨ws, hws⟩ := (hrounds w).mp hr₂
    exact ⟨w, ws, hw₀, hw, hws⟩
  · rintro ⟨w, ws, hw₀, hw, hws⟩
    exact ⟨_, hfirst.mpr ⟨w, hw₀, hw, rfl⟩, (hrounds w).mpr ⟨ws, hws⟩⟩

lemma needed_rounds (h : n ≤ maxBlobDataBytes) : n ≤ 123 + 127 * needed n 1023 123 :=
  le_needed (by rwa [maxBlobDataBytes] at h)

/-- **Blob.** What is accepted is laid out from the words of its data. -/
lemma decodeOpBlob_eq_ok : decodeOpBlob blob = .ok d ↔
    ∃ front w ws, Carries d front w ws ∧ blob = layout d.length front w ws := by
  have hwords : ∀ {front : Bytes} (w : Word) {ws : List Round}, front.length = 27 →
      (front ++ w.data ++ ws.flatMap Round.data).length = 123 + 127 * ws.length := by
    intro front w ws hfront
    rw [List.length_append, List.length_append, hfront, Word.length_data, Round.length_flatMap_data]
  constructor
  · intro h
    obtain ⟨hlen, hversion, hle, h₀, r₁, r₂, hr₁, hr₂, hany, hrest, hd⟩ := decode_steps.mp h
    have hfront : (field blob 5 27).length = 27 := by
      rw [length_field, hlen]
      norm_num [blobBytes]
    rw [put_first hfront] at hr₁
    obtain ⟨w, ws, hw₀, hw, hn, hws, rfl⟩ := (words_eq_ok hlen hfront h₀).mp ⟨r₁, hr₁, hr₂⟩
    have hle' : beNat (field blob 2 3) ≤ (field blob 5 27 ++ w.data ++ ws.flatMap Round.data).length := by
      rw [hwords w hfront, hn]
      exact needed_rounds hle
    dsimp only at hany hrest hd
    rw [← hwords w hfront, padding_eq hle'] at hany
    rw [List.take_append_of_le_length hle'] at hd
    have hdlen : d.length = beNat (field blob 2 3) := by
      rw [hd, List.length_take]
      exact min_eq_left hle'
    have hlen3 : field blob 2 3 = Sha256.beBytes 3 (beNat (field blob 2 3)) := by
      have h := Sha256.beBytes_beNat (field blob 2 3)
      rw [length_field, hlen] at h
      exact h.symm
    refine ⟨field blob 5 27, w, ws, ⟨hdlen ▸ hle, hfront, by rw [hdlen, hn], ?_⟩, ?_⟩
    · rw [← hwords w hfront, hdlen]
      rw [← hd] at hany
      exact hany
    · refine (parts_iff hfront (by rw [hn]; exact needed_le _)).mp ⟨hlen, hw₀.symm, hversion, ?_, rfl, hw, hws, ?_⟩
      · rw [hdlen]
        exact hlen3
      · exact findIdx?_ne_zero.mp hrest
  · rintro ⟨front, w, ws, hc, hblob⟩
    have hws : ws.length ≤ 1023 := by
      rw [hc.length_rounds]
      exact needed_le _
    have h := (parts_iff hc.length_front hws).mpr hblob
    have hlen : beNat (field blob 2 3) = d.length := by
      rw [h.len, Sha256.beNat_beBytes, Nat.mod_eq_of_lt]
      exact lt_of_le_of_lt hc.length_le (by norm_num [maxBlobDataBytes])
    obtain ⟨r₁, hr₁, hr₂⟩ := (words_eq_ok (n := d.length) h.length hc.length_front w.enc0_lt).mpr
      ⟨w, ws, rfl, h.word, hc.length_rounds, h.rounds, rfl⟩
    have hle : d.length ≤ (front ++ w.data ++ ws.flatMap Round.data).length := by
      rw [hwords w hc.length_front, hc.length_rounds]
      exact needed_rounds hc.length_le
    have htake : (front ++ w.data ++ ws.flatMap Round.data).take d.length = d := by
      rw [hc.data_eq, List.take_left]
    refine decode_steps.mpr ⟨h.length, h.version, ?_, h.enc0 ▸ w.enc0_lt, r₁,
      ⟨front ++ w.data ++ ws.flatMap Round.data ++ zeros (130049 - 127 * ws.length), 123 + 127 * ws.length,
        128 + 128 * ws.length⟩, ?_, ?_, ?_, ?_, ?_⟩
    · rw [hlen]
      exact hc.length_le
    · rw [h.enc0, h.front, put_first hc.length_front]
      exact hr₁
    · rw [hlen]
      exact hr₂
    · dsimp only
      rw [hlen, ← hwords w hc.length_front, padding_eq hle, htake, hwords w hc.length_front]
      exact hc.data_eq
    · exact findIdx?_ne_zero.mpr h.rest
    · dsimp only
      rw [hlen, List.take_append_of_le_length hle, htake]

/-- Data of a blob has words. -/
lemma exists_carries (h : d.length ≤ maxBlobDataBytes) : ∃ front w ws, Carries d front w ws := by
  have hle := needed_rounds h
  set k := needed d.length 1023 123 with hk
  have hlen : (d ++ zeros (123 + 127 * k - d.length)).length = 27 + (96 + 127 * k) := by
    rw [List.length_append, length_zeros]
    omega
  set l := d ++ zeros (123 + 127 * k - d.length) with hl
  obtain ⟨w, hw⟩ := @Word.exists_data ((l.drop 27).take 96)
    (by rw [List.length_take, List.length_drop]; omega)
  obtain ⟨ws, hws, hdata⟩ := @Round.exists_flatMap_data k ((l.drop 27).drop 96)
    (by rw [List.length_drop, List.length_drop]; omega)
  refine ⟨l.take 27, w, ws, h, by rw [List.length_take]; omega, hws, ?_⟩
  rw [List.append_assoc, hw, hdata, List.take_append_drop, List.take_append_drop, hws]

/-- The words are determined. -/
lemma Carries.unique {front' : Bytes} {w' : Word} {ws' : List Round} (h : Carries d front w ws)
    (h' : Carries d front' w' ws') : front = front' ∧ w = w' ∧ ws = ws' := by
  have hlen : ws.length = ws'.length := h.length_rounds.trans h'.length_rounds.symm
  have heq := h.data_eq.trans (by rw [hlen, h'.data_eq] :
    d ++ zeros (123 + 127 * ws.length - d.length) = front' ++ w'.data ++ ws'.flatMap Round.data)
  obtain ⟨hfw, hws⟩ := List.append_inj heq
    (by rw [List.length_append, List.length_append, h.length_front, h'.length_front, Word.length_data,
      Word.length_data])
  obtain ⟨hfront, hw⟩ := List.append_inj hfw (by rw [h.length_front, h'.length_front])
  exact ⟨hfront, Word.data_injective hw, Round.flatMap_data_injective hlen hws⟩

end Blobs

end OpBlob

open OpBlob

/-- **One blob for each data.** Data that fits has exactly one blob, and no two blobs have the same data. -/
theorem opBlob_bijection :
    (∀ d : Bytes, d.length ≤ maxBlobDataBytes →
      ∃! blob : Bytes, blob.length = blobBytes ∧ decodeOpBlob blob = .ok d) ∧
    (∀ blob blob' d : Bytes, decodeOpBlob blob = .ok d → decodeOpBlob blob' = .ok d → blob = blob') ∧
    ∀ blob d : Bytes, decodeOpBlob blob = .ok d → d.length ≤ maxBlobDataBytes := by
  have hunique : ∀ blob blob' d : Bytes, decodeOpBlob blob = .ok d → decodeOpBlob blob' = .ok d →
      blob = blob' := by
    intro blob blob' d h h'
    obtain ⟨front, w, ws, hc, rfl⟩ := decodeOpBlob_eq_ok.mp h
    obtain ⟨front', w', ws', hc', rfl⟩ := decodeOpBlob_eq_ok.mp h'
    obtain ⟨rfl, rfl, rfl⟩ := hc.unique hc'
    rfl
  refine ⟨fun d hd => ?_, hunique, fun blob d h => ?_⟩
  · obtain ⟨front, w, ws, hc⟩ := exists_carries hd
    have h := decodeOpBlob_eq_ok.mpr ⟨front, w, ws, hc, rfl⟩
    exact ⟨_, ⟨(decode_steps.mp h).1, h⟩, fun blob' h' => hunique _ _ d h'.2 h⟩
  · obtain ⟨front, w, ws, hc, -⟩ := decodeOpBlob_eq_ok.mp h
    exact hc.length_le

end BitGraph
