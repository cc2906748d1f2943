import BitGraph.Js.Text

/-!
The byte encodings of `fuse.ts` and `ceiling-evm.ts`.

* **Base64.** `bytesToBase64` and the strict `base64ToBytes`: each undoes the other
  (`base64ToBytes_bytesToBase64`, `eq_of_base64ToBytes`), so a byte string has one spelling.
* **Hexadecimal.** `bytesToHex` and `hexToBytes` of `fuse.ts`, lowercase only;
  `evmBytesToHex` and `evmHexToBytes` of `ceiling-evm.ts`, with the prefix `0x`.
* **Equality.** `bytesEqual` compares in constant time and decides equality
  (`bytesEqual_iff`).
-/

namespace BitGraph

open Js

/-! ### Base64 -/

/-- `B64[n]`. -/
def b64Unit (n : ℕ) : UInt16 :=
  if n < 26 then UInt16.ofNat (65 + n)
  else if n < 52 then UInt16.ofNat (71 + n)
  else if n < 62 then UInt16.ofNat (n - 4)
  else if n = 62 then 43 else 47

/-- `B64_LOOKUP[c]`. -/
def b64Val? (c : UInt16) : Option ℕ :=
  if 65 ≤ c.toNat ∧ c.toNat ≤ 90 then some (c.toNat - 65)
  else if 97 ≤ c.toNat ∧ c.toNat ≤ 122 then some (c.toNat - 71)
  else if 48 ≤ c.toNat ∧ c.toNat ≤ 57 then some (c.toNat + 4)
  else if c = 43 then some 62
  else if c = 47 then some 63
  else none

/-- The base64 text of a byte string. -/
def bytesToBase64 : Bytes → Str
  | [] => []
  | [a] => [b64Unit (a.toNat / 4), b64Unit (a.toNat % 4 * 16), 61, 61]
  | [a, b] =>
      [b64Unit (a.toNat / 4), b64Unit (a.toNat % 4 * 16 + b.toNat / 16),
        b64Unit (b.toNat % 16 * 4), 61]
  | a :: b :: c :: bytes =>
      b64Unit (a.toNat / 4) :: b64Unit (a.toNat % 4 * 16 + b.toNat / 16)
        :: b64Unit (b.toNat % 16 * 4 + c.toNat / 64) :: b64Unit (c.toNat % 64)
        :: bytesToBase64 bytes

/-- The pattern `^[A-Za-z0-9+/]*={0,2}$`. -/
def b64Pattern (s : Str) : Bool :=
  let rest := s.dropWhile fun c => (b64Val? c).isSome
  rest == [] || rest == [61] || rest == [61, 61]

/-- The three bytes of four code units, `=` read as zero. -/
def b64Group (w x y z : UInt16) : Bytes :=
  let n := (b64Val? w).getD 0 * 2 ^ 18 + (b64Val? x).getD 0 * 2 ^ 12
    + (b64Val? y).getD 0 * 2 ^ 6 + (b64Val? z).getD 0
  [UInt8.ofNat (n / 2 ^ 16 % 256), UInt8.ofNat (n / 2 ^ 8 % 256), UInt8.ofNat (n % 256)]

/-- The bytes of all groups of four. -/
def b64Groups : Str → Bytes
  | w :: x :: y :: z :: s => b64Group w x y z ++ b64Groups s
  | _ => []

/-- The padding of a base64 text. -/
def b64Pad (s : Str) : ℕ :=
  match s.reverse with
  | 61 :: 61 :: _ => 2
  | 61 :: _ => 1
  | _ => 0

/-- Strict base64: the pattern, and no spelling but the one `bytesToBase64` gives. -/
def base64ToBytes (s : Str) : Option Bytes :=
  if s.length % 4 ≠ 0 ∨ b64Pattern s = false then none
  else
    let out := (b64Groups s).take (s.length / 4 * 3 - b64Pad s)
    if bytesToBase64 out ≠ s then none else some out

lemma b64Val?_b64Unit {n : ℕ} (h : n < 64) : b64Val? (b64Unit n) = some n := by
  interval_cases n <;> rfl

lemma isSome_b64Unit {n : ℕ} (h : n < 64) : (b64Val? (b64Unit n)).isSome = true := by
  rw [b64Val?_b64Unit h]
  rfl

lemma b64Unit_ne_pad {n : ℕ} (h : n < 64) : b64Unit n ≠ 61 := by
  intro heq
  have hsome := isSome_b64Unit h
  rw [heq] at hsome
  exact absurd hsome (by decide)

/-- A spelling is the one its bytes have. -/
lemma eq_of_base64ToBytes {s : Str} {b : Bytes} (h : base64ToBytes s = some b) :
    bytesToBase64 b = s := by
  rw [base64ToBytes] at h
  split at h
  · cases h
  · dsimp only at h
    split at h
    · cases h
    · next heq =>
        rw [← Option.some.inj h]
        exact not_not.mp heq

/-- What holds of every unit of the alphabet and of the padding holds of every encoding. -/
lemma forall_mem_bytesToBase64 {P : UInt16 → Prop} (hunit : ∀ n < 64, P (b64Unit n)) (hpad : P 61)
    (b : Bytes) : ∀ c ∈ bytesToBase64 b, P c := by
  induction b using bytesToBase64.induct with
  | case1 => simp [bytesToBase64]
  | case2 a =>
      have ha := a.toNat_lt
      simp only [bytesToBase64, List.forall_mem_cons, List.not_mem_nil, false_imp_iff, implies_true,
        and_true]
      exact ⟨hunit _ (by omega), hunit _ (by omega), hpad, hpad⟩
  | case3 a b =>
      have ha := a.toNat_lt
      have hb := b.toNat_lt
      simp only [bytesToBase64, List.forall_mem_cons, List.not_mem_nil, false_imp_iff, implies_true,
        and_true]
      exact ⟨hunit _ (by omega), hunit _ (by omega), hunit _ (by omega), hpad⟩
  | case4 a b c bytes ih =>
      have ha := a.toNat_lt
      have hb := b.toNat_lt
      have hc := c.toNat_lt
      simp only [bytesToBase64, List.forall_mem_cons]
      exact ⟨hunit _ (by omega), hunit _ (by omega), hunit _ (by omega), hunit _ (by omega), ih⟩

lemma length_bytesToBase64 (b : Bytes) : (bytesToBase64 b).length = (b.length + 2) / 3 * 4 := by
  induction b using bytesToBase64.induct with
  | case1 => rfl
  | case2 | case3 => simp [bytesToBase64]
  | case4 a b c bytes ih =>
      simp only [bytesToBase64, List.length_cons, ih]
      omega

lemma b64Pattern_bytesToBase64 (b : Bytes) : b64Pattern (bytesToBase64 b) = true := by
  induction b using bytesToBase64.induct with
  | case1 => rfl
  | case2 a =>
      have ha := a.toNat_lt
      simp [b64Pattern, bytesToBase64, List.dropWhile, isSome_b64Unit (n := a.toNat / 4) (by omega),
        isSome_b64Unit (n := a.toNat % 4 * 16) (by omega), show b64Val? 61 = none from rfl]
  | case3 a b =>
      have ha := a.toNat_lt
      have hb := b.toNat_lt
      simp [b64Pattern, bytesToBase64, List.dropWhile, isSome_b64Unit (n := a.toNat / 4) (by omega),
        isSome_b64Unit (n := a.toNat % 4 * 16 + b.toNat / 16) (by omega),
        isSome_b64Unit (n := b.toNat % 16 * 4) (by omega), show b64Val? 61 = none from rfl]
  | case4 a b c bytes ih =>
      have ha := a.toNat_lt
      have hb := b.toNat_lt
      have hc := c.toNat_lt
      rw [b64Pattern] at ih ⊢
      simpa [bytesToBase64, List.dropWhile, isSome_b64Unit (n := a.toNat / 4) (by omega),
        isSome_b64Unit (n := a.toNat % 4 * 16 + b.toNat / 16) (by omega),
        isSome_b64Unit (n := b.toNat % 16 * 4 + c.toNat / 64) (by omega),
        isSome_b64Unit (n := c.toNat % 64) (by omega)] using ih

/-- The padding fills the last group. -/
lemma b64Groups_bytesToBase64 (b : Bytes) :
    b64Groups (bytesToBase64 b) = b ++ List.replicate ((b.length + 2) / 3 * 3 - b.length) 0 := by
  have pad : b64Val? 61 = none := rfl
  induction b using bytesToBase64.induct with
  | case1 => rfl
  | case2 a =>
      have ha := a.toNat_lt
      have hn : (a.toNat / 4 * 2 ^ 18 + a.toNat % 4 * 16 * 2 ^ 12) / 2 ^ 16 % 256 = a.toNat := by
        omega
      have h8 : (a.toNat / 4 * 2 ^ 18 + a.toNat % 4 * 16 * 2 ^ 12) / 2 ^ 8 % 256 = 0 := by omega
      have h0 : (a.toNat / 4 * 2 ^ 18 + a.toNat % 4 * 16 * 2 ^ 12) % 256 = 0 := by omega
      simp only [bytesToBase64, b64Groups, b64Group, List.append_nil,
        b64Val?_b64Unit (n := a.toNat / 4) (by omega),
        b64Val?_b64Unit (n := a.toNat % 4 * 16) (by omega), pad, Option.getD_some, Option.getD_none,
        Nat.zero_mul, Nat.add_zero, hn, h8, h0, UInt8.ofNat_toNat]
      simp [List.replicate]
  | case3 a b =>
      have ha := a.toNat_lt
      have hb := b.toNat_lt
      have hn : (a.toNat / 4 * 2 ^ 18 + (a.toNat % 4 * 16 + b.toNat / 16) * 2 ^ 12
          + b.toNat % 16 * 4 * 2 ^ 6) / 2 ^ 16 % 256 = a.toNat := by omega
      have h8 : (a.toNat / 4 * 2 ^ 18 + (a.toNat % 4 * 16 + b.toNat / 16) * 2 ^ 12
          + b.toNat % 16 * 4 * 2 ^ 6) / 2 ^ 8 % 256 = b.toNat := by omega
      have h0 : (a.toNat / 4 * 2 ^ 18 + (a.toNat % 4 * 16 + b.toNat / 16) * 2 ^ 12
          + b.toNat % 16 * 4 * 2 ^ 6) % 256 = 0 := by omega
      simp only [bytesToBase64, b64Groups, b64Group, List.append_nil,
        b64Val?_b64Unit (n := a.toNat / 4) (by omega),
        b64Val?_b64Unit (n := a.toNat % 4 * 16 + b.toNat / 16) (by omega),
        b64Val?_b64Unit (n := b.toNat % 16 * 4) (by omega), pad, Option.getD_some,
        Option.getD_none, Nat.add_zero, hn, h8, h0, UInt8.ofNat_toNat]
      simp
  | case4 a b c bytes ih =>
      have ha := a.toNat_lt
      have hb := b.toNat_lt
      have hc := c.toNat_lt
      have hn : (a.toNat / 4 * 2 ^ 18 + (a.toNat % 4 * 16 + b.toNat / 16) * 2 ^ 12
          + (b.toNat % 16 * 4 + c.toNat / 64) * 2 ^ 6 + c.toNat % 64) / 2 ^ 16 % 256 = a.toNat := by
        omega
      have h8 : (a.toNat / 4 * 2 ^ 18 + (a.toNat % 4 * 16 + b.toNat / 16) * 2 ^ 12
          + (b.toNat % 16 * 4 + c.toNat / 64) * 2 ^ 6 + c.toNat % 64) / 2 ^ 8 % 256 = b.toNat := by
        omega
      have h0 : (a.toNat / 4 * 2 ^ 18 + (a.toNat % 4 * 16 + b.toNat / 16) * 2 ^ 12
          + (b.toNat % 16 * 4 + c.toNat / 64) * 2 ^ 6 + c.toNat % 64) % 256 = c.toNat := by omega
      have hlen : (bytes.length + 1 + 1 + 1 + 2) / 3 * 3 - (bytes.length + 1 + 1 + 1)
          = (bytes.length + 2) / 3 * 3 - bytes.length := by omega
      simp only [bytesToBase64, b64Groups, b64Group,
        b64Val?_b64Unit (n := a.toNat / 4) (by omega),
        b64Val?_b64Unit (n := a.toNat % 4 * 16 + b.toNat / 16) (by omega),
        b64Val?_b64Unit (n := b.toNat % 16 * 4 + c.toNat / 64) (by omega),
        b64Val?_b64Unit (n := c.toNat % 64) (by omega), Option.getD_some, hn, h8, h0,
        UInt8.ofNat_toNat, ih, List.length_cons, hlen, List.cons_append, List.nil_append]

lemma b64Pad_append {p s : Str} (h : 2 ≤ s.length) : b64Pad (p ++ s) = b64Pad s := by
  obtain ⟨x, y, r, hr⟩ : ∃ x y r, s.reverse = x :: y :: r := by
    match hs : s.reverse with
    | [] => simp [List.reverse_eq_nil_iff.mp hs] at h
    | [x] =>
        have := congrArg List.length hs
        simp at this
        omega
    | x :: y :: r => exact ⟨x, y, r, rfl⟩
  rw [b64Pad, b64Pad, List.reverse_append, hr]
  by_cases hx : x = 61
  · by_cases hy : y = 61
    · simp [hx, hy]
    · simp [hx, hy]
  · simp [hx]

lemma b64Pad_bytesToBase64 (b : Bytes) :
    b64Pad (bytesToBase64 b) = (b.length + 2) / 3 * 3 - b.length := by
  induction b using bytesToBase64.induct with
  | case1 => rfl
  | case2 a => simp [bytesToBase64, b64Pad]
  | case3 a b =>
      have hb := b.toNat_lt
      have hne := b64Unit_ne_pad (n := b.toNat % 16 * 4) (by omega)
      simp [bytesToBase64, b64Pad, hne]
  | case4 a b c bytes ih =>
      have hc := c.toNat_lt
      have hne := b64Unit_ne_pad (n := c.toNat % 64) (by omega)
      rw [bytesToBase64]
      cases bytes with
      | nil => simp [bytesToBase64, b64Pad, hne]
      | cons d bytes =>
          have hlen : 2 ≤ (bytesToBase64 (d :: bytes)).length := by
            rw [length_bytesToBase64, List.length_cons]
            omega
          have happ := @b64Pad_append [b64Unit (a.toNat / 4),
            b64Unit (a.toNat % 4 * 16 + b.toNat / 16), b64Unit (b.toNat % 16 * 4 + c.toNat / 64),
            b64Unit (c.toNat % 64)] _ hlen
          simp only [List.cons_append, List.nil_append] at happ
          rw [happ, ih]
          simp only [List.length_cons]
          omega

/-- **Base64 reads back.** -/
theorem base64ToBytes_bytesToBase64 (b : Bytes) : base64ToBytes (bytesToBase64 b) = some b := by
  have hlen := length_bytesToBase64 b
  have htake : (b64Groups (bytesToBase64 b)).take
      ((bytesToBase64 b).length / 4 * 3 - b64Pad (bytesToBase64 b)) = b := by
    rw [b64Groups_bytesToBase64, b64Pad_bytesToBase64, hlen,
      show (b.length + 2) / 3 * 4 / 4 * 3 - ((b.length + 2) / 3 * 3 - b.length) = b.length by omega,
      List.take_left]
  rw [base64ToBytes, if_neg]
  · dsimp only
    rw [htake, if_neg (by simp)]
  · rw [b64Pattern_bytesToBase64, hlen]
    simp

lemma bytesToBase64_injective : Function.Injective bytesToBase64 := by
  intro a b h
  have hb := base64ToBytes_bytesToBase64 b
  rw [← h, base64ToBytes_bytesToBase64] at hb
  exact Option.some.inj hb

/-- **Strict base64 is a bijection.** A byte string comes back from its text, and a text is accepted
only if it is the one of the bytes it gives: whole groups of digits of the one alphabet and of
padding. -/
theorem base64_bijection : (∀ b, base64ToBytes (bytesToBase64 b) = some b)
    ∧ ∀ s b, base64ToBytes s = some b →
      s = bytesToBase64 b ∧ s.length % 4 = 0 ∧ ∀ c ∈ s, (b64Val? c).isSome = true ∨ c = 61 := by
  refine ⟨base64ToBytes_bytesToBase64, fun s b h => ?_⟩
  obtain rfl := eq_of_base64ToBytes h
  refine ⟨rfl, ?_, forall_mem_bytesToBase64 (fun n hn => .inl (isSome_b64Unit hn)) (.inr rfl) b⟩
  rw [length_bytesToBase64]
  omega

/-! ### Buffers -/

/-- The sextet of a digit of either base64 alphabet. -/
def b64Sextet? (c : UInt16) : Option ℕ :=
  if c = 45 then some 62 else if c = 95 then some 63 else b64Val? c

/-- The bytes of a list of sextets; what is left over from the last byte is dropped. -/
def sextetBytes : List ℕ → Bytes
  | w :: x :: y :: z :: l =>
      UInt8.ofNat (w * 4 + x / 16) :: UInt8.ofNat (x % 16 * 16 + y / 4)
        :: UInt8.ofNat (y % 4 * 64 + z) :: sextetBytes l
  | [w, x, y] => [UInt8.ofNat (w * 4 + x / 16), UInt8.ofNat (x % 16 * 16 + y / 4)]
  | [w, x] => [UInt8.ofNat (w * 4 + x / 16)]
  | _ => []

/-- `Buffer.from(s, "base64")` and `Buffer.from(s, "base64url")`: either alphabet, padding
skipped. -/
def bufferFromBase64 (s : Str) : Bytes := sextetBytes (s.filterMap b64Sextet?)

lemma b64Sextet?_b64Unit {n : ℕ} (h : n < 64) : b64Sextet? (b64Unit n) = some n := by
  have hval := b64Val?_b64Unit h
  rw [b64Sextet?, if_neg, if_neg, hval]
  · intro heq
    rw [heq] at hval
    exact absurd hval (by simp [b64Val?])
  · intro heq
    rw [heq] at hval
    exact absurd hval (by simp [b64Val?])

lemma b64Sextet?_pad : b64Sextet? 61 = none := by decide

/-- A buffer is read back from its base64 text. -/
lemma bufferFromBase64_bytesToBase64 (b : Bytes) : bufferFromBase64 (bytesToBase64 b) = b := by
  have hbyte : ∀ {n : ℕ} {x : UInt8}, n = x.toNat → UInt8.ofNat n = x := by
    rintro n x rfl
    exact UInt8.ofNat_toNat
  rw [bufferFromBase64]
  induction b using bytesToBase64.induct with
  | case1 => rfl
  | case2 a =>
      have ha := a.toNat_lt
      rw [bytesToBase64]
      simp only [List.filterMap_cons, b64Sextet?_b64Unit (show a.toNat / 4 < 64 by omega),
        b64Sextet?_b64Unit (show a.toNat % 4 * 16 < 64 by omega), b64Sextet?_pad,
        List.filterMap_nil, sextetBytes]
      rw [hbyte (show _ = a.toNat by omega)]
  | case3 a b =>
      have ha := a.toNat_lt
      have hb := b.toNat_lt
      rw [bytesToBase64]
      simp only [List.filterMap_cons, b64Sextet?_b64Unit (show a.toNat / 4 < 64 by omega),
        b64Sextet?_b64Unit (show a.toNat % 4 * 16 + b.toNat / 16 < 64 by omega),
        b64Sextet?_b64Unit (show b.toNat % 16 * 4 < 64 by omega), b64Sextet?_pad,
        List.filterMap_nil, sextetBytes]
      rw [hbyte (show _ = a.toNat by omega), hbyte (show _ = b.toNat by omega)]
  | case4 a b c bytes ih =>
      have ha := a.toNat_lt
      have hb := b.toNat_lt
      have hc := c.toNat_lt
      rw [bytesToBase64]
      simp only [List.filterMap_cons, b64Sextet?_b64Unit (show a.toNat / 4 < 64 by omega),
        b64Sextet?_b64Unit (show a.toNat % 4 * 16 + b.toNat / 16 < 64 by omega),
        b64Sextet?_b64Unit (show b.toNat % 16 * 4 + c.toNat / 64 < 64 by omega),
        b64Sextet?_b64Unit (show c.toNat % 64 < 64 by omega), sextetBytes, ih]
      rw [hbyte (show _ = a.toNat by omega), hbyte (show _ = b.toNat by omega),
        hbyte (show _ = c.toNat by omega)]

/-! ### Hexadecimal -/

/-- A lowercase hexadecimal digit. -/
def hexDigit (n : ℕ) : UInt16 := if n < 10 then UInt16.ofNat (48 + n) else UInt16.ofNat (87 + n)

/-- The value of a hexadecimal digit, in either case. -/
def hexDigitVal? (c : UInt16) : Option ℕ :=
  if 48 ≤ c.toNat ∧ c.toNat ≤ 57 then some (c.toNat - 48)
  else if 97 ≤ c.toNat ∧ c.toNat ≤ 102 then some (c.toNat - 87)
  else if 65 ≤ c.toNat ∧ c.toNat ≤ 70 then some (c.toNat - 55)
  else none

/-- A lowercase hexadecimal digit, `[0-9a-f]`. -/
def isLowerHex (c : UInt16) : Bool :=
  (48 ≤ c.toNat && c.toNat ≤ 57) || (97 ≤ c.toNat && c.toNat ≤ 102)

/-- Two lowercase digits a byte. -/
def bytesToHex (b : Bytes) : Str :=
  b.flatMap fun x => [hexDigit (x.toNat / 16), hexDigit (x.toNat % 16)]

/-- The bytes of pairs of digits. -/
def hexPairs : Str → Bytes
  | a :: b :: s =>
      UInt8.ofNat ((hexDigitVal? a).getD 0 * 16 + (hexDigitVal? b).getD 0) :: hexPairs s
  | _ => []

/-- Lowercase hexadecimal only. -/
def hexToBytes (s : Str) : Option Bytes :=
  if s.length % 2 ≠ 0 ∨ s.all isLowerHex = false then none else some (hexPairs s)

/-- `bytesToHex` of `ceiling-evm.ts`. -/
def evmBytesToHex (b : Bytes) : Str := js "0x" ++ bytesToHex b

/-- `hexToBytes` of `ceiling-evm.ts`: either case, the prefix optional, an odd length padded. -/
def evmHexToBytes (s : Str) : Except Thrown Bytes :=
  let h := if js "0x" <+: s ∨ js "0X" <+: s then s.drop 2 else s
  let h := if h.length % 2 = 1 then 48 :: h else h
  if h.all fun c => (hexDigitVal? c).isSome then .ok (hexPairs h)
  else .error (typeError (js "not hex"))

lemma hexDigitVal?_hexDigit {n : ℕ} (h : n < 16) : hexDigitVal? (hexDigit n) = some n := by
  interval_cases n <;> rfl

lemma isLowerHex_hexDigit {n : ℕ} (h : n < 16) : isLowerHex (hexDigit n) = true := by
  interval_cases n <;> rfl

lemma length_bytesToHex (b : Bytes) : (bytesToHex b).length = 2 * b.length := by
  induction b with
  | nil => rfl
  | cons x b ih =>
      rw [bytesToHex, List.flatMap_cons, List.length_append, ← bytesToHex, ih, List.length_cons]
      simp only [List.length_cons, List.length_nil]
      omega

lemma isLowerHex_of_mem_bytesToHex {b : Bytes} {c : UInt16} (h : c ∈ bytesToHex b) :
    isLowerHex c = true := by
  obtain ⟨x, -, hx⟩ := List.mem_flatMap.mp h
  have hlt := x.toNat_lt
  simp only [List.mem_cons, List.not_mem_nil, or_false] at hx
  rcases hx with rfl | rfl
  · exact isLowerHex_hexDigit (by omega)
  · exact isLowerHex_hexDigit (by omega)

lemma hexPairs_bytesToHex (b : Bytes) : hexPairs (bytesToHex b) = b := by
  induction b with
  | nil => rfl
  | cons x b ih =>
      have hx := x.toNat_lt
      rw [bytesToHex, List.flatMap_cons]
      simp only [List.cons_append, List.nil_append, hexPairs,
        hexDigitVal?_hexDigit (n := x.toNat / 16) (by omega),
        hexDigitVal?_hexDigit (n := x.toNat % 16) (by omega), Option.getD_some]
      rw [show x.toNat / 16 * 16 + x.toNat % 16 = x.toNat by omega, UInt8.ofNat_toNat,
        ← bytesToHex, ih]

/-- **Hexadecimal reads back.** -/
theorem hexToBytes_bytesToHex (b : Bytes) : hexToBytes (bytesToHex b) = some b := by
  have hall : (bytesToHex b).all isLowerHex = true :=
    List.all_eq_true.mpr fun c hc => isLowerHex_of_mem_bytesToHex hc
  rw [hexToBytes, if_neg, hexPairs_bytesToHex]
  rw [length_bytesToHex, hall]
  simp

lemma hexDigitVal?_of_isLowerHex {c : UInt16} (h : isLowerHex c = true) :
    ∃ n < 16, hexDigitVal? c = some n ∧ hexDigit n = c := by
  simp only [isLowerHex, Bool.or_eq_true, Bool.and_eq_true, decide_eq_true_eq] at h
  have back : ∀ n, UInt16.ofNat n = c ↔ n % 2 ^ 16 = c.toNat := by
    intro n
    rw [← UInt16.toNat_inj, UInt16.toNat_ofNat']
  rcases h with h | h
  · refine ⟨c.toNat - 48, by omega, by rw [hexDigitVal?, if_pos h], ?_⟩
    rw [hexDigit, if_pos (by omega), back]
    omega
  · refine ⟨c.toNat - 87, by omega, by rw [hexDigitVal?, if_neg (by omega), if_pos h], ?_⟩
    rw [hexDigit, if_neg (by omega), back]
    omega

lemma bytesToHex_hexPairs {s : Str} (h2 : s.length % 2 = 0) (h : ∀ c ∈ s, isLowerHex c = true) :
    bytesToHex (hexPairs s) = s := by
  induction s using hexPairs.induct with
  | case1 a b s ih =>
      obtain ⟨m, hm, hma, hda⟩ := hexDigitVal?_of_isLowerHex (h a (by simp))
      obtain ⟨n, hn, hnb, hdb⟩ := hexDigitVal?_of_isLowerHex (h b (by simp))
      rw [hexPairs, hma, hnb, bytesToHex, List.flatMap_cons, ← bytesToHex,
        ih (by simp only [List.length_cons] at h2; omega) fun c hc => h c (by simp [hc])]
      simp only [Option.getD_some, UInt8.toNat_ofNat']
      rw [show (m * 16 + n) % 2 ^ 8 / 16 = m by omega, show (m * 16 + n) % 2 ^ 8 % 16 = n by omega,
        hda, hdb]
      rfl
  | case2 s hs =>
      match s, hs with
      | [], _ => rfl
      | [c], _ => simp at h2
      | a :: b :: s, hs => exact absurd rfl (hs a b s)

/-- A lowercase spelling is the one its bytes have. -/
lemma eq_of_hexToBytes {s : Str} {b : Bytes} (h : hexToBytes s = some b) : bytesToHex b = s := by
  rw [hexToBytes] at h
  split at h
  · cases h
  · next hc =>
      push Not at hc
      rw [← Option.some.inj h]
      refine bytesToHex_hexPairs (by omega) fun c hc' => ?_
      have hall : s.all isLowerHex = true := by simpa using hc.2
      exact List.all_eq_true.mp hall c hc'

/-- **Hexadecimal with its prefix reads back.** -/
theorem evmHexToBytes_evmBytesToHex (b : Bytes) : evmHexToBytes (evmBytesToHex b) = .ok b := by
  have hpre : js "0x" <+: evmBytesToHex b := List.prefix_append _ _
  have hdrop : (evmBytesToHex b).drop 2 = bytesToHex b := rfl
  have heven : (bytesToHex b).length % 2 = 0 := by
    rw [length_bytesToHex]
    omega
  have hall : ((bytesToHex b).all fun c => (hexDigitVal? c).isSome) = true := by
    rw [List.all_eq_true]
    intro c hc
    obtain ⟨n, -, hn, -⟩ := hexDigitVal?_of_isLowerHex (isLowerHex_of_mem_bytesToHex hc)
    rw [hn]
    rfl
  rw [evmHexToBytes, if_pos (Or.inl hpre), hdrop]
  simp only [heven, Nat.zero_ne_one, if_false, hall, if_true, hexPairs_bytesToHex]

/-! ### Equality -/

/-- Comparison without an early exit: the differences are collected. -/
def bytesEqual (a b : Bytes) : Bool :=
  if a.length ≠ b.length then false
  else (a.zip b).foldl (fun diff p => diff ||| (p.1 ^^^ p.2)) 0 == 0

lemma foldl_or_eq_zero {l : List (UInt8 × UInt8)} {d : UInt8} :
    l.foldl (fun diff p => diff ||| (p.1 ^^^ p.2)) d = 0 ↔ d = 0 ∧ ∀ p ∈ l, p.1 = p.2 := by
  induction l generalizing d with
  | nil => simp
  | cons p l ih =>
      rw [List.foldl_cons, ih]
      constructor
      · rintro ⟨h, hl⟩
        obtain ⟨hd, hp⟩ := UInt8.or_eq_zero_iff.mp h
        exact ⟨hd, fun q hq => by
          rcases List.mem_cons.mp hq with rfl | hq
          · exact UInt8.xor_eq_zero_iff.mp hp
          · exact hl q hq⟩
      · rintro ⟨hd, hl⟩
        have hp : p.1 ^^^ p.2 = 0 := UInt8.xor_eq_zero_iff.mpr (hl p (by simp))
        exact ⟨UInt8.or_eq_zero_iff.mpr ⟨hd, hp⟩, fun q hq => hl q (by simp [hq])⟩

lemma bytesEqual_iff {a b : Bytes} : bytesEqual a b = true ↔ a = b := by
  rw [bytesEqual]
  constructor
  · intro h
    split at h
    · cases h
    · next hlen =>
        rw [beq_iff_eq, foldl_or_eq_zero] at h
        refine List.ext_getElem (not_not.mp hlen) fun i hi hj => ?_
        have hz : i < (a.zip b).length := by
          rw [List.length_zip]
          omega
        have := h.2 _ (List.getElem_mem hz)
        rwa [List.getElem_zip] at this
  · rintro rfl
    rw [if_neg (by simp), beq_iff_eq, foldl_or_eq_zero]
    refine ⟨rfl, fun p hp => ?_⟩
    rw [List.zip_eq_zipWith, List.zipWith_self] at hp
    obtain ⟨x, -, rfl⟩ := List.mem_map.mp hp
    rfl

end BitGraph
