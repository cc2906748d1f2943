import BitGraph.Ceiling.Block
import BitGraph.Keccak
import BitGraph.Rlp.Strict
import Mathlib.Data.List.TakeWhile

/-!
The three encoders of a block header: `base-head.ts`, `block.ts` and `headerRlpFromRpc` of `ceiling.ts`.

* **Code.** `encodeBaseHeaderRlp` has its own RLP and its own readers of a field; `headerRlpFromRpc` reads fields
  its own way and checks the hash. All put the same fields in the same order (`RpcBlock.fieldsBy`).
* **Fields.** On texts `0x` and hexadecimal digits the readers agree (`baseD_eq`, `baseQ_eq`, `rpcQ_eq`), and
  what they read is the number that the callers read (`beNat_q`).
* **Main result.** `header_encoders_agree`: one encoding, which `decodeHeader` reads as the fields where it
  reads it at all, under the hash that was checked.
-/

namespace BitGraph

open Js Rlp

/-! ### The code -/

/-- The fields of a header in their order, by the readers of an encoder. -/
def RpcBlock.fieldsBy (d q : Str → Except Thrown Bytes) (b : RpcBlock) : List (Except Thrown Bytes) :=
  [d b.parentHash, d b.sha3Uncles, d b.miner, d b.stateRoot, d b.transactionsRoot, d b.receiptsRoot,
    d b.logsBloom, q b.difficulty, q b.number, q b.gasLimit, q b.gasUsed, q b.timestamp,
    d b.extraData, d b.mixHash, d b.nonce]
  ++ ((b.baseFeePerGas.map q).toList ++ (b.withdrawalsRoot.map d).toList
    ++ (b.blobGasUsed.map q).toList ++ (b.excessBlobGas.map q).toList
    ++ (b.parentBeaconBlockRoot.map d).toList ++ (b.requestsHash.map d).toList)

/-- `hex.replace(/^0x/i, "")`. -/
def strip0x (hex : Str) : Str := if js "0x" <+: hex ∨ js "0X" <+: hex then hex.drop 2 else hex

/-- `hex.replace(/^0+/, "")`. -/
def stripZeros (hex : Str) : Str := hex.dropWhile (· = 48)

namespace BaseHead

def hexToBytes (hex : Str) : Except Thrown Bytes :=
  let h := strip0x hex
  let h := if h.length % 2 = 1 then 48 :: h else h
  if h.all fun c => (hexDigitVal? c).isSome then .ok (hexPairs h) else .error (error (js "not hex"))

/-- An integer field, without leading zeros. -/
def q (hex : Str) : Except Thrown Bytes :=
  let h := stripZeros (strip0x hex)
  if h = [] then .ok [] else hexToBytes h

/-- A field of fixed width. -/
def d (hex : Str) : Except Thrown Bytes := hexToBytes hex

/-- `for (n = len; n > 0; n = Math.floor(n / 256)) lenBytes.unshift(n % 256)`. -/
def lenBytes (n : ℕ) (l : Bytes) : Bytes :=
  if 0 < n then lenBytes (n / 256) (UInt8.ofNat (n % 256) :: l) else l
termination_by n

def encodeLength (len offset : ℕ) : Bytes :=
  if len < 56 then [UInt8.ofNat (offset + len)]
  else UInt8.ofNat (offset + 55 + (lenBytes len []).length) :: lenBytes len []

def rlpBytes (b : Bytes) : Bytes :=
  if b.length = 1 ∧ (b.headD 0).toNat < 0x80 then b else encodeLength b.length 0x80 ++ b

def rlpList (items : List Bytes) : Bytes :=
  let body := (items.map rlpBytes).flatten
  encodeLength body.length 0xc0 ++ body

end BaseHead

/-- The header RLP, field for field. -/
def encodeBaseHeaderRlp (b : RpcBlock) : Except Thrown Bytes := do
  let fields ← (b.fieldsBy BaseHead.d BaseHead.q).mapM id
  return BaseHead.rlpList fields

section Checked

variable (K : HashFn) (table : Str → Str)

/-- The header RLP, or an error when it does not reproduce the block's own hash. -/
def checkedBaseHeaderRlp (b : RpcBlock) : Except Thrown Bytes := do
  let rlp ← encodeBaseHeaderRlp b
  if evmBytesToHex (K rlp) ≠ toLowerCase table b.hash then
    .error (error (js "Base header for block " ++ (Value.num (parseHexInt b.number)).toText.getD []
      ++ js " does not reproduce its hash (unknown header field?)"))
  else return rlp

/-- The integer reader of `headerRlpFromRpc`. -/
def rpcQ (x : Str) : Except Thrown Bytes :=
  let h := stripZeros (strip0x x)
  if h = [] then .ok [] else evmHexToBytes (if h.length % 2 = 1 then 48 :: h else h)

/-- The header of a node's block, or nothing when it does not reproduce the hash; what throws is caught. -/
def headerRlpFromRpc (b : RpcBlock) (expectedHash : Str) : Option Bytes :=
  match (b.fieldsBy evmHexToBytes rpcQ).mapM id with
  | .error _ => none
  | .ok fields =>
      let rlp := rlpEncode (.list (fields.map .bytes))
      if evmBytesToHex (K rlp) = toLowerCase table expectedHash then some rlp else none

end Checked

/-! ### Fields -/

/-- The digits of a text. -/
def IsHex (t : Str) : Prop := (t.all fun c => (hexDigitVal? c).isSome) = true

/-- `0x` and hexadecimal digits, in any number. -/
def IsHexText (s : Str) : Prop := ∃ t, s = js "0x" ++ t ∧ IsHex t

/-- The fields that are there are such texts. -/
structure RpcBlock.HexFields (b : RpcBlock) : Prop where
  all : ∀ s ∈ [b.parentHash, b.sha3Uncles, b.miner, b.stateRoot, b.transactionsRoot, b.receiptsRoot,
    b.logsBloom, b.difficulty, b.number, b.gasLimit, b.gasUsed, b.timestamp, b.extraData, b.mixHash, b.nonce]
    ++ (b.baseFeePerGas.toList ++ b.withdrawalsRoot.toList ++ b.blobGasUsed.toList
      ++ b.excessBlobGas.toList ++ b.parentBeaconBlockRoot.toList ++ b.requestsHash.toList), IsHexText s

section Fields

variable {s t : Str}

/-- The number of hexadecimal digits. -/
def hexNat (t : Str) : ℕ := t.foldl (fun a c => a * 16 + (hexDigitVal? c).getD 0) 0

lemma strip0x_hex (t : Str) : strip0x (js "0x" ++ t) = t := by
  rw [strip0x, if_pos (Or.inl (List.prefix_append _ _))]
  rfl

/-- Digits do not begin with the prefix. -/
lemma strip0x_of_isHex (ht : IsHex t) : strip0x t = t := by
  rw [strip0x, if_neg]
  have hx : ∀ c : UInt16, (hexDigitVal? c).isSome = true → c ≠ 120 ∧ c ≠ 88 := fun c hc => by
    constructor <;> (rintro rfl; exact absurd hc (by decide))
  have hall := List.all_eq_true.mp ht
  rintro (⟨u, hu⟩ | ⟨u, hu⟩)
  · exact (hx 120 (hall 120 (by rw [← hu]; simp [js]))).1 rfl
  · exact (hx 88 (hall 88 (by rw [← hu]; simp [js]))).2 rfl

lemma evmHexToBytes_eq (s : Str) : evmHexToBytes s =
    let h := if (strip0x s).length % 2 = 1 then 48 :: strip0x s else strip0x s
    if h.all fun c => (hexDigitVal? c).isSome then .ok (hexPairs h)
    else .error (typeError (js "not hex")) := rfl

lemma isHex_pad (ht : IsHex t) : IsHex (if t.length % 2 = 1 then 48 :: t else t) := by
  split
  · rw [IsHex, List.all_cons, Bool.and_eq_true]
    exact ⟨by decide, ht⟩
  · exact ht

lemma isHex_stripZeros (ht : IsHex t) : IsHex (stripZeros t) := by
  rw [IsHex, List.all_eq_true] at ht ⊢
  exact fun c hc => ht c (List.dropWhile_subset _ hc)

/-- What a reader makes of digits, with or without the prefix. -/
def bytesOf (t : Str) : Bytes := hexPairs (if t.length % 2 = 1 then 48 :: t else t)

lemma evmHexToBytes_of_isHex (ht : IsHex t) (hs : strip0x s = t) : evmHexToBytes s = .ok (bytesOf t) := by
  rw [evmHexToBytes_eq, hs]
  exact if_pos (isHex_pad ht)

lemma baseHexToBytes_of_isHex (ht : IsHex t) (hs : strip0x s = t) :
    BaseHead.hexToBytes s = .ok (bytesOf t) := by
  rw [BaseHead.hexToBytes, hs]
  exact if_pos (isHex_pad ht)

/-- The integer field of digits. -/
def quantityOf (t : Str) : Bytes := if stripZeros t = [] then [] else bytesOf (stripZeros t)

lemma d_eq (ht : IsHex t) : RpcBlock.d (js "0x" ++ t) = .ok (bytesOf t) :=
  evmHexToBytes_of_isHex ht (strip0x_hex t)

lemma baseD_eq (ht : IsHex t) : BaseHead.d (js "0x" ++ t) = .ok (bytesOf t) :=
  baseHexToBytes_of_isHex ht (strip0x_hex t)

lemma q_eq (ht : IsHex t) : RpcBlock.q (js "0x" ++ t) = .ok (quantityOf t) := by
  have hstrip : (if js "0x" <+: js "0x" ++ t then (js "0x" ++ t).drop 2 else js "0x" ++ t) = t :=
    if_pos (List.prefix_append _ _)
  have hzeros := isHex_stripZeros ht
  rw [RpcBlock.q, hstrip, quantityOf, ← stripZeros]
  split
  · rfl
  · exact evmHexToBytes_of_isHex hzeros (strip0x_of_isHex hzeros)

lemma baseQ_eq (ht : IsHex t) : BaseHead.q (js "0x" ++ t) = .ok (quantityOf t) := by
  have hzeros := isHex_stripZeros ht
  rw [BaseHead.q, strip0x_hex, quantityOf]
  split
  · rfl
  · exact baseHexToBytes_of_isHex hzeros (strip0x_of_isHex hzeros)

lemma rpcQ_eq (ht : IsHex t) : rpcQ (js "0x" ++ t) = .ok (quantityOf t) := by
  have hpad := isHex_pad (isHex_stripZeros ht)
  have heven : (if (stripZeros t).length % 2 = 1 then 48 :: stripZeros t else stripZeros t).length % 2 ≠ 1 := by
    split
    · rw [List.length_cons]
      omega
    · assumption
  rw [rpcQ, strip0x_hex, quantityOf]
  split
  · rfl
  · rw [evmHexToBytes_of_isHex hpad (strip0x_of_isHex hpad), bytesOf, if_neg heven, bytesOf]

/-! ### The number that is read -/

lemma foldl_hexPairs : ∀ (t : Str) (a : ℕ), t.length % 2 = 0 →
    (hexPairs t).foldl (fun n x => n * 256 + x.toNat) a
      = t.foldl (fun a c => a * 16 + (hexDigitVal? c).getD 0) a
  | [], _, _ => rfl
  | [_], _, h => by simp at h
  | x :: y :: t, a, h => by
      have hlen : t.length % 2 = 0 := by
        rw [List.length_cons, List.length_cons] at h
        omega
      have hlt : ∀ c, (hexDigitVal? c).getD 0 < 16 := fun c => by
        cases hc : hexDigitVal? c with
        | none => simp
        | some v => exact (hexDigitVal?_spec hc).1
      have hx := hlt x
      have hy := hlt y
      rw [hexPairs, List.foldl_cons, List.foldl_cons, List.foldl_cons, ← foldl_hexPairs t _ hlen]
      congr 1
      rw [UInt8.toNat_ofNat_of_lt' (by rw [UInt8.size]; omega)]
      ring

lemma hexNat_zero_cons (t : Str) : hexNat (48 :: t) = hexNat t := rfl

lemma hexNat_stripZeros (t : Str) : hexNat (stripZeros t) = hexNat t := by
  induction t with
  | nil => rfl
  | cons c t ih =>
      rw [stripZeros, List.dropWhile_cons]
      split
      · next hc =>
          rw [decide_eq_true_eq] at hc
          rw [hc, hexNat_zero_cons, ← ih, stripZeros]
      · rfl

lemma beNat_bytesOf (t : Str) : Sha256.beNat (bytesOf t) = hexNat t := by
  rw [bytesOf]
  split
  · next hodd =>
      rw [← hexNat_zero_cons, hexNat, ← foldl_hexPairs _ 0 (by rw [List.length_cons]; omega)]
      rfl
  · next heven =>
      rw [hexNat, ← foldl_hexPairs _ 0 (by omega)]
      rfl

/-- The bytes of an integer field are the number of its digits. -/
lemma beNat_quantityOf (t : Str) : Sha256.beNat (quantityOf t) = hexNat t := by
  rw [quantityOf]
  split
  · next hnil =>
      rw [← hexNat_stripZeros, hnil]
      rfl
  · rw [beNat_bytesOf, hexNat_stripZeros]

/-- The callers read the same number, where there is a digit. -/
lemma parseHexInt_hex (ht : IsHex t) (hne : t ≠ []) : parseHexInt (js "0x" ++ t) = .ofNat (hexNat t) := by
  have htake : t.takeWhile (fun c => (hexDigitVal? c).isSome) = t := by
    rw [List.takeWhile_eq_self_iff]
    exact List.all_eq_true.mp ht
  have hread : parseHexInt (js "0x" ++ t) =
      let u := if js "0x" <+: js "0x" ++ t ∨ js "0X" <+: js "0x" ++ t then (js "0x" ++ t).drop 2
        else js "0x" ++ t
      let digits := u.takeWhile fun c => (hexDigitVal? c).isSome
      if digits = [] then .nan else .ofNat (hexNat digits) := rfl
  rw [hread, if_pos (Or.inl (List.prefix_append _ _))]
  show (if (t.takeWhile fun c => (hexDigitVal? c).isSome) = [] then Number.nan
    else .ofNat (hexNat (t.takeWhile fun c => (hexDigitVal? c).isSome))) = _
  rw [htake, if_neg hne]

end Fields

/-! ### One encoding -/

lemma lenBytes_eq (n : ℕ) (l : Bytes) : BaseHead.lenBytes n l = bigEndian n ++ l := by
  induction n using Nat.strong_induction_on generalizing l with
  | _ n ih =>
      rw [BaseHead.lenBytes]
      split
      · next hn =>
          rw [ih _ (Nat.div_lt_self hn (by norm_num)), bigEndian, bigEndian,
            Nat.digits_def' (by norm_num : 1 < 256) hn]
          simp
      · next hn =>
          obtain rfl : n = 0 := by omega
          simp [bigEndian]

lemma baseEncodeLength_eq (len offset : ℕ) : BaseHead.encodeLength len offset = encodeLength len offset := by
  rw [BaseHead.encodeLength, encodeLength, lenBytes_eq, List.append_nil]

lemma rlpBytes_eq (b : Bytes) : BaseHead.rlpBytes b = rlpEncode (.bytes b) := by
  rw [BaseHead.rlpBytes, rlpEncode, baseEncodeLength_eq]
  match b with
  | [] => rfl
  | [x] => simp [isSingle]
  | _ :: _ :: _ => simp [isSingle]

lemma rlpList_eq (items : List Bytes) : BaseHead.rlpList items = rlpEncode (.list (items.map .bytes)) := by
  have hall : (items.map BaseHead.rlpBytes).flatten = rlpEncodeAll (items.map .bytes) := by
    induction items with
    | nil => rfl
    | cons b items ih => rw [List.map_cons, List.flatten_cons, ih, rlpBytes_eq, List.map_cons, rlpEncodeAll]
  rw [BaseHead.rlpList, rlpEncode, hall, baseEncodeLength_eq]

section Encoders

variable {K : HashFn} {table : Str → Str} {b : RpcBlock}

/-- Readers that agree on the fields of a block give the same fields. -/
lemma fieldsBy_congr {d d' q q' : Str → Except Thrown Bytes}
    (hd : ∀ s, IsHexText s → d s = d' s) (hq : ∀ s, IsHexText s → q s = q' s) (hb : b.HexFields) :
    b.fieldsBy d q = b.fieldsBy d' q' := by
  have hall := hb.all
  have hoption {f f' : Str → Except Thrown Bytes} (hf : ∀ s, IsHexText s → f s = f' s) {o : Option Str}
      (ho : ∀ s ∈ o.toList, IsHexText s) : o.map f = o.map f' := by
    cases o with
    | none => rfl
    | some s => exact congrArg some (hf s (ho s (by simp)))
  simp only [List.mem_append, or_imp, forall_and, List.forall_mem_cons] at hall
  obtain ⟨⟨h₁, h₂, h₃, h₄, h₅, h₆, h₇, h₈, h₉, h₁₀, h₁₁, h₁₂, h₁₃, h₁₄, h₁₅, -⟩,
    ⟨⟨⟨⟨ho₁, ho₂⟩, ho₃⟩, ho₄⟩, ho₅⟩, ho₆⟩ := hall
  rw [RpcBlock.fieldsBy, RpcBlock.fieldsBy, hd _ h₁, hd _ h₂, hd _ h₃, hd _ h₄, hd _ h₅, hd _ h₆, hd _ h₇,
    hq _ h₈, hq _ h₉, hq _ h₁₀, hq _ h₁₁, hq _ h₁₂, hd _ h₁₃, hd _ h₁₄, hd _ h₁₅, hoption hq ho₁,
    hoption hd ho₂, hoption hq ho₃, hoption hq ho₄, hoption hd ho₅, hoption hd ho₆]

lemma encodeBaseHeaderRlp_eq (hb : b.HexFields) : encodeBaseHeaderRlp b = encodeHeaderRlp b := by
  have hfields : b.fieldsBy BaseHead.d BaseHead.q = b.fields := by
    refine (fieldsBy_congr ?_ ?_ hb : _ = b.fieldsBy RpcBlock.d RpcBlock.q)
    · rintro s ⟨t, rfl, ht⟩
      rw [baseD_eq ht, d_eq ht]
    · rintro s ⟨t, rfl, ht⟩
      rw [baseQ_eq ht, q_eq ht]
  rw [encodeBaseHeaderRlp, encodeHeaderRlp, hfields]
  simp only [rlpList_eq]

lemma fieldsBy_rpc (hb : b.HexFields) : b.fieldsBy evmHexToBytes rpcQ = b.fields := by
  refine (fieldsBy_congr (fun _ _ => rfl) ?_ hb : _ = b.fieldsBy RpcBlock.d RpcBlock.q)
  rintro s ⟨t, rfl, ht⟩
  rw [rpcQ_eq ht, q_eq ht]

lemma headerRlpFromRpc_eq_some (hb : b.HexFields) {expectedHash : Str} {rlp : Bytes}
    (h : headerRlpFromRpc K table b expectedHash = some rlp) :
    encodeHeaderRlp b = .ok rlp ∧ evmBytesToHex (K rlp) = toLowerCase table expectedHash := by
  rw [headerRlpFromRpc, fieldsBy_rpc hb] at h
  split at h
  · cases h
  · next fields hok =>
      dsimp only at h
      split at h
      · next hhash =>
          obtain rfl := Option.some.inj h
          exact ⟨by rw [encodeHeaderRlp, hok]; rfl, hhash⟩
      · cases h

/-- A node's block passes under its own hash. -/
lemma headerRlpFromRpc_of_encode (hb : b.HexFields) {rlp : Bytes} (h : encodeHeaderRlp b = .ok rlp) :
    headerRlpFromRpc K table b (evmBytesToHex (K rlp)) = some rlp := by
  obtain ⟨fields, hok, hrlp⟩ := bind_eq_ok h
  obtain rfl := Except.ok.inj hrlp
  rw [headerRlpFromRpc, fieldsBy_rpc hb, hok]
  dsimp only
  rw [toLowerCase_evmBytesToHex, if_pos rfl]

lemma checkedBaseHeaderRlp_eq_ok {rlp : Bytes} (h : checkedBaseHeaderRlp K table b = .ok rlp) :
    encodeBaseHeaderRlp b = .ok rlp ∧ evmBytesToHex (K rlp) = toLowerCase table b.hash := by
  obtain ⟨rlp', hrlp, h⟩ := bind_eq_ok h
  split at h
  · cases h
  · next hhash =>
      obtain rfl := Except.ok.inj h
      exact ⟨hrlp, not_not.mp hhash⟩

lemma checkedHeaderRlp_eq_ok {rlp : Bytes} (h : checkedHeaderRlp K table b = .ok rlp) :
    encodeHeaderRlp b = .ok rlp ∧ evmBytesToHex (K rlp) = toLowerCase table b.hash := by
  obtain ⟨rlp', hrlp, h⟩ := bind_eq_ok h
  split at h
  · cases h
  · next hhash =>
      obtain rfl := Except.ok.inj h
      exact ⟨hrlp, not_not.mp hhash⟩

/-- The header commits to what the callers read off the fields: `decodeHeader` reads it back, or refuses a root
that has not 32 bytes and a number that is too large. -/
def Commits (K : HashFn) (b : RpcBlock) (rlp : Bytes) : Prop :=
  ∃ number timestamp parent root,
    (b.number ≠ js "0x" → parseHexInt b.number = .ofNat number) ∧
    (b.timestamp ≠ js "0x" → parseHexInt b.timestamp = .ofNat timestamp) ∧
    evmHexToBytes b.parentHash = .ok parent ∧ evmHexToBytes b.transactionsRoot = .ok root ∧
    if number < 2 ^ 53 ∧ timestamp < 2 ^ 53 ∧ parent.length = 32 ∧ root.length = 32 then
      decodeHeader K rlp
        = .ok ⟨evmBytesToHex (K rlp), evmBytesToHex parent, evmBytesToHex root, number, timestamp⟩
    else ∃ e, decodeHeader K rlp = .error e

lemma quantity_spec {s : Str} {p : Bytes} (hs : IsHexText s) (hp : RpcBlock.q s = .ok p) :
    s ≠ js "0x" → parseHexInt s = .ofNat (Sha256.beNat p) := by
  obtain ⟨t, rfl, ht⟩ := hs
  rw [q_eq ht] at hp
  rw [← Except.ok.inj hp, beNat_quantityOf]
  intro hne
  refine parseHexInt_hex ht ?_
  rintro rfl
  exact hne (List.append_nil _)

lemma commits_of_encode (hb : b.HexFields) {rlp : Uint8Array} (h : encodeHeaderRlp b = .ok rlp.val) :
    Commits K b rlp.val := by
  obtain ⟨fields, hrlp, h15, hparent, hroot, hnum, hts⟩ := encodeHeaderRlp_eq_ok h
  have hlen : (rlpEncode (.list (fields.map .bytes))).length < 2 ^ 53 := by
    rw [← hrlp]
    exact lt_of_le_of_lt rlp.property (by norm_num [maxArrayLength])
  have hget {i : ℕ} (hi : i < 15) : fields[i]? = some (fields.get ⟨i, by omega⟩) :=
    List.getElem?_eq_getElem (by omega)
  have hq8 := hnum _ (hget (by norm_num))
  have hq11 := hts _ (hget (by norm_num))
  have hall := hb.all
  simp only [List.mem_append, or_imp, forall_and, List.forall_mem_cons] at hall
  have hdecode := decodeHeader_of_fields (K := K) hlen h15 (hget (by norm_num)) (hget (by norm_num))
    (hget (by norm_num)) (hget (by norm_num)) (RpcBlock.head_q hq8) (RpcBlock.head_q hq11)
  refine ⟨_, _, _, _, quantity_spec hall.1.2.2.2.2.2.2.2.2.1 hq8,
    quantity_spec hall.1.2.2.2.2.2.2.2.2.2.2.2.1 hq11, hparent _ (hget (by norm_num)),
    hroot _ (hget (by norm_num)), ?_⟩
  rw [hrlp, hdecode]
  split
  · next hin =>
      rw [if_neg (by omega), if_neg (by rw [not_or, not_not, not_not]; exact ⟨hin.2.2.2, hin.2.2.1⟩)]
  · next hout =>
      split
      · exact ⟨_, rfl⟩
      · next hrange =>
          rw [if_pos]
          · exact ⟨_, rfl⟩
          · by_contra hlens
            rw [not_or, not_not, not_not] at hlens
            exact hout ⟨by omega, by omega, hlens.2, hlens.1⟩

/-- **The three encoders agree** on blocks of hexadecimal texts, the checked ones give a header with the hash they
were given, and the header commits to the fields. -/
theorem header_encoders_agree (K : HashFn) (table : Str → Str) (b : RpcBlock) (hb : b.HexFields) :
    encodeBaseHeaderRlp b = encodeHeaderRlp b ∧
    (∀ expectedHash rlp, headerRlpFromRpc K table b expectedHash = some rlp →
      encodeHeaderRlp b = .ok rlp ∧ evmBytesToHex (K rlp) = toLowerCase table expectedHash) ∧
    (∀ rlp, checkedBaseHeaderRlp K table b = .ok rlp →
      encodeHeaderRlp b = .ok rlp ∧ evmBytesToHex (K rlp) = toLowerCase table b.hash) ∧
    (∀ rlp, checkedHeaderRlp K table b = .ok rlp →
      encodeHeaderRlp b = .ok rlp ∧ evmBytesToHex (K rlp) = toLowerCase table b.hash) ∧
    ∀ rlp : Uint8Array, encodeHeaderRlp b = .ok rlp.val → Commits K b rlp.val :=
  ⟨encodeBaseHeaderRlp_eq hb, fun _ _ h => headerRlpFromRpc_eq_some hb h,
    fun _ h => by
      rw [← encodeBaseHeaderRlp_eq hb]
      exact checkedBaseHeaderRlp_eq_ok h,
    fun _ h => checkedHeaderRlp_eq_ok h, fun _ h => commits_of_encode hb h⟩

end Encoders

/-! ### Blocks whose fields are short -/

lemma isHexText_iff {s : Str} : IsHexText s ↔ s.take 2 = js "0x" ∧ IsHex (s.drop 2) := by
  constructor
  · rintro ⟨t, rfl, ht⟩
    exact ⟨rfl, ht⟩
  · rintro ⟨hs, ht⟩
    exact ⟨s.drop 2, by rw [← hs, List.take_append_drop], ht⟩

instance (t : Str) : Decidable (IsHex t) := inferInstanceAs (Decidable (_ = _))

instance (s : Str) : Decidable (IsHexText s) := decidable_of_iff _ isHexText_iff.symm

/-- A block of empty data. -/
def shortBlock (number root : Str) : RpcBlock where
  hash := js "0x"
  parentHash := root
  sha3Uncles := js "0x"
  miner := js "0x"
  stateRoot := js "0x"
  transactionsRoot := root
  receiptsRoot := js "0x"
  logsBloom := js "0x"
  difficulty := js "0x0"
  number := number
  gasLimit := js "0x0"
  gasUsed := js "0x0"
  timestamp := js "0x1"
  extraData := js "0x"
  mixHash := js "0x"
  nonce := js "0x"
  baseFeePerGas := none
  withdrawalsRoot := none
  blobGasUsed := none
  excessBlobGas := none
  parentBeaconBlockRoot := none
  requestsHash := none
  transactions := []

/-- A root of zeros. -/
def zeroRoot : Str := js "0x" ++ List.replicate 64 48

theorem header_encoders_agree_short :
    encodeBaseHeaderRlp (shortBlock (js "0x01") zeroRoot) = encodeHeaderRlp (shortBlock (js "0x01") zeroRoot) ∧
    (∀ expectedHash rlp, headerRlpFromRpc keccak256 id (shortBlock (js "0x01") zeroRoot) expectedHash = some rlp →
      encodeHeaderRlp (shortBlock (js "0x01") zeroRoot) = .ok rlp ∧
        evmBytesToHex (keccak256 rlp) = toLowerCase id expectedHash) ∧
    (∀ rlp, checkedBaseHeaderRlp keccak256 id (shortBlock (js "0x01") zeroRoot) = .ok rlp →
      encodeHeaderRlp (shortBlock (js "0x01") zeroRoot) = .ok rlp ∧
        evmBytesToHex (keccak256 rlp) = toLowerCase id (js "0x")) ∧
    (∀ rlp, checkedHeaderRlp keccak256 id (shortBlock (js "0x01") zeroRoot) = .ok rlp →
      encodeHeaderRlp (shortBlock (js "0x01") zeroRoot) = .ok rlp ∧
        evmBytesToHex (keccak256 rlp) = toLowerCase id (js "0x")) ∧
    ∀ rlp : Uint8Array, encodeHeaderRlp (shortBlock (js "0x01") zeroRoot) = .ok rlp.val →
      Commits keccak256 (shortBlock (js "0x01") zeroRoot) rlp.val :=
  header_encoders_agree keccak256 id (shortBlock (js "0x01") zeroRoot) ⟨by decide⟩

/-- A header of short roots is encoded by all and decoded by none; and a number without a digit is zero in the header
and `NaN` for its readers. -/
theorem short_root_refused :
    (∃ rlp : Uint8Array, (shortBlock (js "0x1") (js "0x")).HexFields ∧
      encodeBaseHeaderRlp (shortBlock (js "0x1") (js "0x")) = .ok rlp.val ∧
      encodeHeaderRlp (shortBlock (js "0x1") (js "0x")) = .ok rlp.val ∧
      headerRlpFromRpc keccak256 id (shortBlock (js "0x1") (js "0x")) (evmBytesToHex (keccak256 rlp.val))
        = some rlp.val ∧
      ∀ dec, decodeHeader keccak256 rlp.val ≠ .ok dec) ∧
    ∃ rlp : Uint8Array, (shortBlock (js "0x") zeroRoot).HexFields ∧
      encodeHeaderRlp (shortBlock (js "0x") zeroRoot) = .ok rlp.val ∧
      (∃ dec, decodeHeader keccak256 rlp.val = .ok dec ∧ dec.number = 0) ∧
      parseHexInt (shortBlock (js "0x") zeroRoot).number = .nan := by
  constructor
  · have hb : (shortBlock (js "0x1") (js "0x")).HexFields := ⟨by decide⟩
    have hencode : encodeHeaderRlp (shortBlock (js "0x1") (js "0x"))
        = .ok [207, 128, 128, 128, 128, 128, 128, 128, 128, 1, 128, 128, 1, 128, 128, 128] := by
      decide +kernel
    have hdecode : (decodeHeader keccak256
        [207, 128, 128, 128, 128, 128, 128, 128, 128, 1, 128, 128, 1, 128, 128, 128]).toOption.isNone = true := by
      decide +kernel
    refine ⟨⟨_, by decide⟩, hb, (encodeBaseHeaderRlp_eq hb).trans hencode, hencode,
      headerRlpFromRpc_of_encode hb hencode, fun dec h => ?_⟩
    rw [h] at hdecode
    cases hdecode
  · have hb : (shortBlock (js "0x") zeroRoot).HexFields := ⟨by decide⟩
    have hencode : encodeHeaderRlp (shortBlock (js "0x") zeroRoot)
        = .ok ([248, 79, 160] ++ List.replicate 32 0 ++ [128, 128, 128, 160] ++ List.replicate 32 0
          ++ [128, 128, 128, 128, 128, 128, 1, 128, 128, 128]) := by
      decide +kernel
    have hdecode : (decodeHeader keccak256 ([248, 79, 160] ++ List.replicate 32 0 ++ [128, 128, 128, 160]
          ++ List.replicate 32 0 ++ [128, 128, 128, 128, 128, 128, 1, 128, 128, 128])).toOption.map
        DecodedHeader.number = some 0 := by
      decide +kernel
    obtain ⟨dec, hdec, hnumber⟩ := Option.map_eq_some_iff.mp hdecode
    exact ⟨⟨_, by decide⟩, hb, hencode, ⟨dec, toOption_eq_some.mp hdec, hnumber⟩, by decide⟩

end BitGraph
