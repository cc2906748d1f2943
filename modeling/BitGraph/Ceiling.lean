import BitGraph.Codec
import BitGraph.FuseMerkle
import BitGraph.Js.Convert

/-!
`ceiling.ts`: the payload of a ceiling transaction and the leaf of a record.

* **Payload.** 84 bytes: the magic, the Merkle root, the hash of the payload before it and two
  positions. `decodeCeilingPayload_encode` reads it back, positions modulo `2 ^ 64`; so the
  payload fixes the hash it names (`prev_of_payload`).
* **Leaf.** `ceilingLeaf` is the leaf hash of a record's proof hash.
-/

namespace BitGraph

open Js

variable (H : HashFn)

/-! ### Payload -/

/-- `CEILING_MAGIC`, encoded. -/
def ceilingMagic : Bytes := utf8Encode (js "BGC1")

/-- The fields of a payload. -/
structure CeilingPayload where
  root : Bytes
  prev : Bytes
  firstPos : ℤ
  lastPos : ℤ
  deriving DecidableEq

/-- `DataView.setBigUint64`, the value taken modulo `2 ^ 64`. -/
def bigUint64 (i : ℤ) : Bytes := Sha256.beBytes 8 (i % 2 ^ 64).toNat

/-- The 84 bytes of a payload. -/
def encodeCeilingPayload (p : CeilingPayload) : Except Thrown Bytes :=
  if p.root.length ≠ 32 ∨ p.prev.length ≠ 32 then
    .error (typeError (js "root and prev are 32 bytes"))
  else .ok (ceilingMagic ++ p.root ++ p.prev ++ bigUint64 p.firstPos ++ bigUint64 p.lastPos)

/-- The fields of 84 bytes. -/
def decodeCeilingPayload (bytes : Bytes) : Except Thrown CeilingPayload :=
  if bytes.length ≠ 84 then
    .error (typeError (js "payload is " ++ decimal bytes.length ++ js " bytes, expected 84"))
  else if decodeLossy (slice bytes 0 4) ≠ js "BGC1" then
    .error (typeError (js "payload magic is " ++ quote (decodeLossy (slice bytes 0 4))
      ++ js ", expected BGC1"))
  else .ok {
    root := slice bytes 4 36
    prev := slice bytes 36 68
    firstPos := Sha256.beNat (slice bytes 68 76)
    lastPos := Sha256.beNat (slice bytes 76 84) }

/-- The hash of a payload, which the next payload names. -/
def ceilingPayloadHash (payload : Bytes) : Bytes := H payload

lemma length_bigUint64 (i : ℤ) : (bigUint64 i).length = 8 := by
  simp [bigUint64, Sha256.beBytes]

lemma beNat_bigUint64 (i : ℤ) : (Sha256.beNat (bigUint64 i) : ℤ) = i % 2 ^ 64 := by
  have hpos : 0 ≤ i % 2 ^ 64 := Int.emod_nonneg i (by norm_num)
  have hlt : i % 2 ^ 64 < 2 ^ 64 := Int.emod_lt_of_pos i (by norm_num)
  rw [bigUint64, Sha256.beNat_beBytes, Nat.mod_eq_of_lt (by omega), Int.toNat_of_nonneg hpos]

/-- The pieces of an encoded payload. -/
lemma slice_payload {m r v f l : Bytes} (hm : m.length = 4) (hr : r.length = 32)
    (hv : v.length = 32) (hf : f.length = 8) (hl : l.length = 8) :
    slice (m ++ r ++ v ++ f ++ l) 0 4 = m ∧ slice (m ++ r ++ v ++ f ++ l) 4 36 = r
      ∧ slice (m ++ r ++ v ++ f ++ l) 36 68 = v ∧ slice (m ++ r ++ v ++ f ++ l) 68 76 = f
      ∧ slice (m ++ r ++ v ++ f ++ l) 76 84 = l := by
  simp only [slice, List.append_assoc]
  have drop : ∀ {a b : Bytes} {n : ℕ}, a.length ≤ n → (a ++ b).drop n = b.drop (n - a.length) := by
    intro a b n hle
    rw [List.drop_append, List.drop_of_length_le hle, List.nil_append]
  have take : ∀ {a b : Bytes} {n : ℕ}, a.length = n → (a ++ b).take n = a := by
    intro a b n heq
    rw [List.take_append_of_le_length heq.ge, List.take_of_length_le heq.le]
  refine ⟨?_, ?_, ?_, ?_, ?_⟩
  · rw [List.drop_zero, take hm]
  · rw [drop hm.le, hm, Nat.sub_self, List.drop_zero, take hr]
  · rw [drop (by omega), drop (by omega), hm, hr, List.drop_zero, take hv]
  · rw [drop (by omega), drop (by omega), drop (by omega), hm, hr, hv, List.drop_zero, take hf]
  · rw [drop (by omega), drop (by omega), drop (by omega), drop (by omega), hm, hr, hv, hf,
      List.drop_zero, List.take_of_length_le (by omega)]

/-- **Round trip.** A payload reads back, its positions modulo `2 ^ 64`. -/
theorem decodeCeilingPayload_encode {p : CeilingPayload} {bytes : Bytes}
    (h : encodeCeilingPayload p = .ok bytes) :
    decodeCeilingPayload bytes
      = .ok { p with firstPos := p.firstPos % 2 ^ 64, lastPos := p.lastPos % 2 ^ 64 } := by
  rw [encodeCeilingPayload] at h
  split at h
  · cases h
  · next hlen =>
      obtain ⟨hroot, hprev⟩ : p.root.length = 32 ∧ p.prev.length = 32 := by omega
      obtain ⟨h0, h1, h2, h3, h4⟩ := slice_payload (m := ceilingMagic) rfl hroot hprev
        (length_bigUint64 p.firstPos) (length_bigUint64 p.lastPos)
      have hbytes : (ceilingMagic ++ p.root ++ p.prev ++ bigUint64 p.firstPos
          ++ bigUint64 p.lastPos).length = 84 := by
        simp [hroot, hprev, length_bigUint64, show ceilingMagic.length = 4 from rfl]
      rw [← Except.ok.inj h, decodeCeilingPayload, if_neg (not_not.mpr hbytes), h0, h1, h2, h3, h4,
        if_neg (not_not.mpr (by decide)), beNat_bigUint64, beNat_bigUint64]

/-- A payload fixes the hash it names. -/
lemma prev_of_payload {p q : CeilingPayload} {bytes : Bytes} (hp : encodeCeilingPayload p = .ok bytes)
    (hq : encodeCeilingPayload q = .ok bytes) : p.prev = q.prev := by
  have h := decodeCeilingPayload_encode hp
  rw [decodeCeilingPayload_encode hq] at h
  exact (congrArg CeilingPayload.prev (Except.ok.inj h)).symm

/-! ### Leaf -/

/-- The leaf hash of one record. -/
def ceilingLeaf (proofHash : Value) : Except Thrown Bytes :=
  match proofHash with
  | .str b64 => match base64ToBytes b64 with
      | some raw => if raw.length = 32 then .ok (merkleLeafHash H raw)
          else .error (typeError (js "proofHash must decode to 32 bytes"))
      | none => .error (typeError (js "proofHash must decode to 32 bytes"))
  | _ => .error (typeError (js "proofHash must decode to 32 bytes"))

end BitGraph
