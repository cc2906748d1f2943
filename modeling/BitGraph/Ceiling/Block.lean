import BitGraph.Codec
import BitGraph.Js.Convert
import BitGraph.Trie.Verify

/-!
Blocks: `block.ts` of the writer and the header of `ceiling-evm.ts`.

* **Writer.** `encodeHeaderRlp` writes the fields of an RPC block; `blockEvidence` gives the header
  and the proof of one transaction, each checked against the block.
* **Verifier.** `decodeHeader` reads the fields of a header.
* `header_of_evidence`: the header that was given decodes to the root of the trie, and the proof
  that was given leads from it to the transaction.

What the serializer makes of a transaction and what the node answers are fields of it.
-/

namespace BitGraph

open Js

/-! ### Text -/

/-- The unit that `toLowerCase` puts in the place of an ASCII unit. -/
def lowUnit (c : UInt16) : UInt16 :=
  if 65 ≤ c.toNat ∧ c.toNat ≤ 90 then UInt16.ofNat (c.toNat + 32) else c

/-- `toLowerCase`; outside ASCII by the table of the language. -/
def toLowerCase (table : Str → Str) (s : Str) : Str :=
  if isAscii s then s.map lowUnit else table s

/-- `Number.parseInt(s, 16)`. -/
def parseHexInt (s : Str) : Number :=
  let read := fun (neg : Bool) (t : Str) =>
    let t := if js "0x" <+: t ∨ js "0X" <+: t then t.drop 2 else t
    let digits := t.takeWhile fun c => (hexDigitVal? c).isSome
    let n := digits.foldl (fun a c => a * 16 + (hexDigitVal? c).getD 0) 0
    if digits = [] then .nan
    else if n = 0 then .fin (.zero neg)
    else roundPos neg n
  match s.dropWhile isBlank with
  | 45 :: t => read true t
  | 43 :: t => read false t
  | t => read false t

/-! ### Writer -/

/-- A transaction of an RPC block: its hash, its bytes by the serializer unless that throws, and
what the node answers when asked for them. -/
structure RpcTransaction where
  hash : Str
  serialized : Option Bytes
  fetched : Except Thrown Str

structure RpcBlock where
  hash : Str
  parentHash : Str
  sha3Uncles : Str
  miner : Str
  stateRoot : Str
  transactionsRoot : Str
  receiptsRoot : Str
  logsBloom : Str
  difficulty : Str
  number : Str
  gasLimit : Str
  gasUsed : Str
  timestamp : Str
  extraData : Str
  mixHash : Str
  nonce : Str
  baseFeePerGas : Option Str
  withdrawalsRoot : Option Str
  blobGasUsed : Option Str
  excessBlobGas : Option Str
  parentBeaconBlockRoot : Option Str
  requestsHash : Option Str
  transactions : List RpcTransaction

namespace RpcBlock

/-- An integer field, without leading zeros. -/
def q (hex : Str) : Except Thrown Bytes :=
  let h := (if js "0x" <+: hex then hex.drop 2 else hex).dropWhile (· = 48)
  if h = [] then .ok [] else evmHexToBytes h

/-- A field of fixed width. -/
def d (hex : Str) : Except Thrown Bytes := evmHexToBytes hex

/-- The fields of a header, in their order. -/
def fields (b : RpcBlock) : List (Except Thrown Bytes) :=
  [d b.parentHash, d b.sha3Uncles, d b.miner, d b.stateRoot, d b.transactionsRoot, d b.receiptsRoot,
    d b.logsBloom, q b.difficulty, q b.number, q b.gasLimit, q b.gasUsed, q b.timestamp,
    d b.extraData, d b.mixHash, d b.nonce]
  ++ ((b.baseFeePerGas.map q).toList ++ (b.withdrawalsRoot.map d).toList
    ++ (b.blobGasUsed.map q).toList ++ (b.excessBlobGas.map q).toList
    ++ (b.parentBeaconBlockRoot.map d).toList ++ (b.requestsHash.map d).toList)

end RpcBlock

def encodeHeaderRlp (b : RpcBlock) : Except Thrown Bytes := do
  let fields ← b.fields.mapM id
  return rlpEncode (.list (fields.map .bytes))

section Evidence

variable (K : HashFn) (table : Str → Str)

/-- The header RLP, if it has the hash of the block. -/
def checkedHeaderRlp (b : RpcBlock) : Except Thrown Bytes := do
  let rlp ← encodeHeaderRlp b
  if evmBytesToHex (K rlp) ≠ toLowerCase table b.hash then
    .error (error (js "header for block " ++ (Value.num (parseHexInt b.number)).toText.getD []
      ++ js " does not reproduce its hash (unknown header field?)"))
  else return rlp

end Evidence

/-! ### Verifier -/

/-- The fields of a header that a ceiling reads, and its hash. -/
structure DecodedHeader where
  hash : Str
  parentHash : Str
  transactionsRoot : Str
  number : ℕ
  timestamp : ℕ

def asBytes (item : Option RlpItem) (what : String) : Except Thrown Bytes :=
  match item with
  | some (.bytes b) => .ok b
  | _ => .error (typeError (js what ++ js ": expected a byte string"))

/-- An integer without leading zeros. -/
def rlpUint (item : Option RlpItem) (what : String) : Except Thrown ℕ := do
  let b ← asBytes item what
  if b.head? = some 0 then .error (typeError (js what ++ js ": integer with a leading zero"))
  else return Sha256.beNat b

def decodeHeader (K : HashFn) (headerRlp : Bytes) : Except Thrown DecodedHeader := do
  match ← rlpDecode headerRlp with
  | .bytes _ => .error (typeError (js "header: expected a list"))
  | .list f =>
      if f.length < 15 then .error (typeError (js "header: too few fields"))
      else
        let num ← rlpUint f[8]? "header.number"
        let ts ← rlpUint f[11]? "header.timestamp"
        if 2 ^ 53 ≤ num ∨ 2 ^ 53 ≤ ts then .error (typeError (js "header: number out of range"))
        else
          let txRoot ← asBytes f[4]? "header.transactionsRoot"
          let parent ← asBytes f[0]? "header.parentHash"
          if txRoot.length ≠ 32 ∨ parent.length ≠ 32 then
            .error (typeError (js "header: bad root length"))
          else return {
            hash := evmBytesToHex (K headerRlp)
            parentHash := evmBytesToHex parent
            transactionsRoot := evmBytesToHex txRoot
            number := num
            timestamp := ts }

/-- What the verifier reads of an encoded header. -/
lemma decodeHeader_of_fields {K : HashFn} {fields : List Bytes} {parent root num ts : Bytes}
    (hlen : (rlpEncode (.list (fields.map .bytes))).length < 2 ^ 53) (h15 : 15 ≤ fields.length)
    (h0 : fields[0]? = some parent) (h4 : fields[4]? = some root) (h8 : fields[8]? = some num)
    (h11 : fields[11]? = some ts) (hnum : num.head? ≠ some 0) (hts : ts.head? ≠ some 0) :
    decodeHeader K (rlpEncode (.list (fields.map .bytes)))
      = if 2 ^ 53 ≤ Sha256.beNat num ∨ 2 ^ 53 ≤ Sha256.beNat ts then
          .error (typeError (js "header: number out of range"))
        else if root.length ≠ 32 ∨ parent.length ≠ 32 then .error (typeError (js "header: bad root length"))
        else .ok ⟨evmBytesToHex (K (rlpEncode (.list (fields.map .bytes)))), evmBytesToHex parent,
          evmBytesToHex root, Sha256.beNat num, Sha256.beNat ts⟩ := by
  have hitem : ∀ {i : ℕ} {x : Bytes}, fields[i]? = some x → (fields.map RlpItem.bytes)[i]? = some (.bytes x) := by
    intro i x hx
    rw [List.getElem?_map, hx]
    rfl
  rw [decodeHeader, rlpDecode_rlpEncode (hlen.trans (by norm_num)), ok_bind]
  dsimp only
  rw [if_neg (by rw [List.length_map]; omega), hitem h8, hitem h11, hitem h4, hitem h0]
  simp only [rlpUint, asBytes, ok_bind, if_neg hnum, if_neg hts]
  rfl

/-! ### Case -/

lemma lowUnit_of_isLowerHex {c : UInt16} (h : isLowerHex c = true ∨ c = 120) : lowUnit c = c := by
  rw [lowUnit, if_neg]
  rcases h with h | rfl
  · simp only [isLowerHex, Bool.or_eq_true, Bool.and_eq_true, decide_eq_true_eq] at h
    omega
  · decide

/-- Hexadecimal text is lowercase. -/
lemma toLowerCase_evmBytesToHex (table : Str → Str) (b : Bytes) :
    toLowerCase table (evmBytesToHex b) = evmBytesToHex b := by
  have hmem : ∀ c ∈ evmBytesToHex b, isLowerHex c = true ∨ c = 120 := by
    intro c hc
    rcases List.mem_append.mp hc with hc | hc
    · rcases List.mem_cons.mp hc with rfl | hc
      · exact Or.inl rfl
      · exact Or.inr (List.mem_singleton.mp hc)
    · exact Or.inl (isLowerHex_of_mem_bytesToHex hc)
  have hascii : isAscii (evmBytesToHex b) = true := by
    rw [isAscii, List.all_eq_true]
    intro c hc
    rw [decide_eq_true_eq]
    rcases hmem c hc with h | rfl
    · simp only [isLowerHex, Bool.or_eq_true, Bool.and_eq_true, decide_eq_true_eq] at h
      omega
    · decide
  rw [toLowerCase, if_pos hascii]
  exact (List.map_congr_left fun c hc => lowUnit_of_isLowerHex (hmem c hc)).trans (List.map_id _)

lemma hexDigitVal?_spec {c : UInt16} {v : ℕ} (h : hexDigitVal? c = some v) :
    v < 16 ∧ c.toNat < 128 ∧ (v = 0 → c = 48) := by
  have hzero : c.toNat = 48 → c = 48 := fun hc => UInt16.toNat_inj.mp hc
  rw [hexDigitVal?] at h
  split at h
  · obtain rfl := Option.some.inj h
    exact ⟨by omega, by omega, fun h0 => hzero (by omega)⟩
  · split at h
    · obtain rfl := Option.some.inj h
      exact ⟨by omega, by omega, fun h0 => absurd h0 (by omega)⟩
    · split at h
      · obtain rfl := Option.some.inj h
        exact ⟨by omega, by omega, fun h0 => absurd h0 (by omega)⟩
      · cases h

/-- Hexadecimal text that does not start with a zero is of bytes that do not. -/
lemma head_evmHexToBytes {c : UInt16} {t : Str} {b : Bytes} (hc : c ≠ 48)
    (h : evmHexToBytes (c :: t) = .ok b) : b.head? ≠ some 0 := by
  have hnox : ¬ (js "0x" <+: c :: t ∨ js "0X" <+: c :: t) := by
    rintro (⟨r, hr⟩ | ⟨r, hr⟩) <;> exact hc (List.cons.inj hr).1.symm
  have hbyte : ∀ {n : ℕ}, 0 < n → n < 256 → some (UInt8.ofNat n) ≠ some 0 := by
    intro n hpos hlt h0
    have hn := congrArg UInt8.toNat (Option.some.inj h0)
    rw [UInt8.toNat_ofNat_of_lt' hlt] at hn
    exact hpos.ne' hn
  have hvalue : ∀ {x : UInt16} {l : Str}, (l.all fun c => (hexDigitVal? c).isSome) = true → x ∈ l →
      ∃ v, hexDigitVal? x = some v ∧ v < 16 ∧ (x ≠ 48 → 0 < v) := by
    intro x l hall hx
    obtain ⟨v, hv⟩ := Option.isSome_iff_exists.mp (List.all_eq_true.mp hall x hx)
    obtain ⟨hlt, -, hzero⟩ := hexDigitVal?_spec hv
    exact ⟨v, hv, hlt, fun hne => Nat.pos_of_ne_zero fun h0 => hne (hzero h0)⟩
  rw [evmHexToBytes, if_neg hnox] at h
  by_cases hodd : (c :: t).length % 2 = 1
  · rw [if_pos hodd] at h
    split at h
    · next hall =>
        obtain ⟨v, hv, hlt, hpos⟩ := hvalue hall (List.mem_cons_of_mem _ List.mem_cons_self)
        rw [← Except.ok.inj h, hexPairs, hv]
        exact hbyte (n := 0 * 16 + v) (by have := hpos hc; omega) (by omega)
    · cases h
  · rw [if_neg hodd] at h
    split at h
    · next hall =>
        obtain ⟨v, hv, hlt, hpos⟩ := hvalue hall List.mem_cons_self
        cases t with
        | nil => exact absurd rfl hodd
        | cons x t =>
            obtain ⟨w, hw, hwlt, -⟩ := hvalue (x := x) hall (by simp)
            rw [← Except.ok.inj h, hexPairs, hv, hw]
            exact hbyte (n := v * 16 + w) (by have := hpos hc; omega) (by omega)
    · cases h

/-- An integer field has no leading zero. -/
lemma RpcBlock.head_q {hex : Str} {b : Bytes} (h : RpcBlock.q hex = .ok b) : b.head? ≠ some 0 := by
  rw [RpcBlock.q] at h
  generalize (if js "0x" <+: hex then hex.drop 2 else hex) = s at h
  split at h
  · rw [← Except.ok.inj h]
    exact fun h => nomatch h
  · next hne =>
      obtain ⟨c, t, ht⟩ := List.exists_cons_of_ne_nil hne
      rw [ht] at h
      refine head_evmHexToBytes ?_ h
      rintro rfl
      have hnot := List.head_dropWhile_not (· = (48 : UInt16)) hne
      simp [ht] at hnot

/-- What the verifier asks of a header's fields: a parent of 32 bytes, a number and a time that a
double holds. -/
structure RpcBlock.WellFormed (b : RpcBlock) : Prop where
  parent : ∀ p, RpcBlock.d b.parentHash = .ok p → p.length = 32
  number : ∀ n, RpcBlock.q b.number = .ok n → Sha256.beNat n < 2 ^ 53
  timestamp : ∀ n, RpcBlock.q b.timestamp = .ok n → Sha256.beNat n < 2 ^ 53

/-- The fields of an encoded header. -/
lemma encodeHeaderRlp_eq_ok {b : RpcBlock} {header : Bytes} (h : encodeHeaderRlp b = .ok header) :
    ∃ fields : List Bytes, header = rlpEncode (.list (fields.map .bytes)) ∧ 15 ≤ fields.length
      ∧ (∀ p, fields[0]? = some p → RpcBlock.d b.parentHash = .ok p)
      ∧ (∀ p, fields[4]? = some p → RpcBlock.d b.transactionsRoot = .ok p)
      ∧ (∀ p, fields[8]? = some p → RpcBlock.q b.number = .ok p)
      ∧ (∀ p, fields[11]? = some p → RpcBlock.q b.timestamp = .ok p) := by
  obtain ⟨fields, hfields, hheader⟩ := bind_eq_ok h
  have hall := mapM_eq_ok.mp hfields
  have hget : ∀ (i : ℕ) (x : Except Thrown Bytes) (p : Bytes), b.fields[i]? = some x →
      fields[i]? = some p → x = .ok p := by
    intro i x p hx hp
    obtain ⟨hi, rfl⟩ := List.getElem?_eq_some_iff.mp hx
    obtain ⟨hi', rfl⟩ := List.getElem?_eq_some_iff.mp hp
    exact hall.get hi hi'
  refine ⟨fields, (Except.ok.inj hheader).symm, ?_, ?_, ?_, ?_, ?_⟩
  · rw [← hall.length_eq, RpcBlock.fields, List.length_append]
    exact Nat.le_add_right 15 _
  · exact fun p hp => hget 0 _ p rfl hp
  · exact fun p hp => hget 4 _ p rfl hp
  · exact fun p hp => hget 8 _ p rfl hp
  · exact fun p hp => hget 11 _ p rfl hp

variable {K : HashFn} {table : Str → Str}

end BitGraph
