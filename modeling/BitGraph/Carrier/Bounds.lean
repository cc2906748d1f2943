import BitGraph.Carrier.Lookups

/-!
Bounds: what stands behind the bounds of a TRUE verdict.

* **Backed.** `FloorBacked`, `PositionBacked`, `TimeBacked` and `SettlementBacked`: each bound comes
  from evidence that was checked.
* `backed_iff`: in a TRUE verdict the bounds are backed exactly when the pointer behind `settledBy`
  fails none of the checks whose names no claim reports, and the block it names is compared.
-/

namespace BitGraph

open Js Carrier Lib

namespace CarrierVerify

/-! ### Backed bounds -/

section Backed

variable (V : Calls) (opts : CarrierVerifyOptions) (payload : Value)

/-- The text of the header that is the floor. -/
def floorHeader : Value :=
  let floor := payload.get (js "floor")
  if isBaseFloor payload then floor.get (js "header")
  else (floor.get (js "witness")).get (js "headerRlpHex")

/-- A number in a header that `decodeRlpTop` reads. -/
def headerNumber (raw : Bytes) (i : ℕ) : Option ℕ :=
  (decodeRlpTop raw).bind fun items => rlpNumber (items.getD i [])

/-- The time of a header, by one of the two readers. -/
def HeaderTime (K : HashFn) (raw : Bytes) (ts : ℕ) : Prop :=
  headerNumber raw 11 = some ts ∨ ∃ h, decodeHeader K raw = .ok h ∧ h.timestamp = ts

/-- The floor is that of a header whose hash the proof signs. -/
def FloorBacked (b : CarrierBounds) : Prop :=
  ∃ hex raw s n, floorHeader payload = .str hex ∧ Carrier.hexToBytes hex = some raw ∧
    signedFloorOf V.table (payload.get (js "proof")) = .ok (some s) ∧ b.floorChain = s.chain ∧
    evmBytesToHex (V.K raw) = toLowerCase V.table s.blockHash ∧
    b.notBefore.blockHash = evmBytesToHex (V.K raw) ∧
    headerNumber raw 8 = some n ∧ isCount b.notBefore.blockNumber n = true ∧
    (b.notBefore.timestamp = .null ∨ ∃ ts, b.notBefore.timestamp = countValue ts ∧ HeaderTime V.K raw ts)

/-- The ceiling in position is an anchor after the proof, with the header of its block. -/
def PositionBacked (b : CarrierBounds) : Prop :=
  let ceiling := payload.get (js "ceiling")
  let w := ceiling.get (js "witness")
  ∀ n, b.notAfter = some n → ∃ message ts,
    V.anchorMessageBytes (ceiling.get (js "anchor")) = .ok (some message) ∧
    V.verify (ceiling.get (js "anchor")) message = .ok true ∧
    checkCeilingBinding V.table (payload.get (js "proof")) ceiling = .ok true ∧
    verifyWitnessHeader V.K V.table w = .ok (some ts) ∧
    n.blockNumber = w.get (js "blockNumber") ∧ lowerCase V.table (w.get (js "blockHash")) = .ok n.blockHash ∧
    n.timestamp = timeValue ts

/-- `verifyCeiling` accepts the sidecar, with this ceiling. -/
def CeilingAccepted (c : BlockTime) : Prop :=
  let ct := payload.get (js "ceilingInTime")
  isPresentPart ct = true ∧ ∃ valid w, (verifyCeiling V.toCeilingCalls (payload.get (js "proof"))
    (ct.get (js "sidecar")) ⟨opts.pinnedWriter, opts.chainId, valid⟩).window = some w ∧ w.ceiling = c

def BlockTime.bound (c : BlockTime) : Bound := ⟨countValue c.blockNumber, c.blockHash, countValue c.blockTimestamp⟩

/-- The time it existed by is that of a ceiling that was accepted. -/
def TimeBacked (b : CarrierBounds) : Prop :=
  ∀ n, b.existedBy = some n → ∃ c, CeilingAccepted V opts payload c ∧ n = BlockTime.bound c

def pointerOf : Value := (payload.get (js "settlement")).get (js "pointer")

/-- The result of the pointer's check. -/
def pointerResult : Except Thrown SettlementPointerResult :=
  verifySettlementPointer V.toSettlementCalls (pointerOf payload)
    (opts.settlement.getD baseMainnetSettlementPins)

/-- The settlement is that of a pointer that passed its check, for the Base block of a ceiling that was
accepted; version 1 carries none. -/
def SettlementBacked (b : CarrierBounds) : Prop :=
  ∀ n, b.settledBy = some n → 2 ≤ carrierVersionOf payload ∧ ∃ sp e c,
    pointerResult V opts payload = .ok sp ∧ sp.existedBy = some e ∧
    isCount n.blockNumber e.blockNumber = true ∧ n.blockHash = e.blockHash ∧
    isCount n.timestamp e.blockTimestamp = true ∧ CeilingAccepted V opts payload c ∧
    lowerCase V.table ((pointerOf payload).get (js "baseBlockHash")) = .ok c.blockHash

structure Backed (b : CarrierBounds) : Prop where
  floor : FloorBacked V payload b
  position : PositionBacked V payload b
  time : TimeBacked V opts payload b
  settlement : SettlementBacked V opts payload b

/-- A pointer that states a settlement stands in version 2 or later, beside a ceiling in time, names a
Base block, and fails no check that is not reported. -/
def PointerReported : Prop :=
  isPresentPart (payload.get (js "settlement")) = true →
    (statedBound V.table ((pointerOf payload).get (js "l1"))).isSome = true →
      2 ≤ carrierVersionOf payload ∧ isPresentPart (payload.get (js "ceilingInTime")) = true ∧
      ((pointerOf payload).get (js "baseBlockHash")).truthy = true ∧
      ∀ sp name, pointerResult V opts payload = .ok sp → sp.reason = some name → name ∉ unreported

end Backed

/-! ### Claims that are not FALSE -/

/-- No claim of a step is FALSE. -/
def Clean (l : List Judged) : Prop := ∀ j ∈ l, j.result ≠ .false

@[simp] lemma clean_nil : Clean [] := by simp [Clean]

@[simp] lemma clean_append {l m : List Judged} : Clean (l ++ m) ↔ Clean l ∧ Clean m := by
  simp [Clean, or_imp, forall_and]

@[simp] lemma clean_cons {j : Judged} {l : List Judged} :
    Clean (j :: l) ↔ j.result ≠ .false ∧ Clean l := by simp [Clean]

@[simp] lemma judged_ne_false {ok : Bool} : judged ok ≠ .false ↔ ok = true := by
  cases ok <;> simp [judged]

lemma ends_add {id : Str} {r : ClaimResult} {l : List Judged} {u : Unit} :
    (add id r).Ends l u ↔ l = [⟨id, r⟩] := Logged.ends_note

section Steps

variable {V : Calls} {opts : CarrierVerifyOptions} {payload : Value} {l : List Judged}

lemma anchorClaim_clean {id : Str} {anchor : Value} (h : (anchorClaim V id anchor).Ends l ())
    (hl : Clean l) : ∃ message, V.anchorMessageBytes anchor = .ok (some message)
      ∧ V.verify anchor message = .ok true := by
  obtain ⟨message, l₁, l₂, hmessage, hrest, rfl⟩ := Logged.ends_bind.mp h
  obtain ⟨rfl, hbytes⟩ := Logged.ends_of.mp hmessage
  cases message with
  | none =>
      rw [ends_add.mp hrest] at hl
      simp at hl
  | some message =>
      obtain ⟨valid, l₃, l₄, hvalid, hadd, rfl⟩ := Logged.ends_bind.mp hrest
      obtain ⟨rfl, hverify⟩ := Logged.ends_of.mp hvalid
      obtain rfl := ends_add.mp hadd
      have hok : valid = true := by simpa using hl
      exact ⟨message, hbytes, hok ▸ hverify⟩

lemma witnessClaim_clean {id : Str} {w : Value} {ts : Option ℕ}
    (h : (witnessClaim V id w).Ends l ts) (hl : Clean l) :
    verifyWitnessHeader V.K V.table w = .ok (some ts) := by
  obtain ⟨read, l₁, l₂, hread, hrest, rfl⟩ := Logged.ends_bind.mp h
  obtain ⟨rfl, hheader⟩ := Logged.ends_of.mp hread
  cases read with
  | none =>
      obtain ⟨_, l₃, l₄, hadd, -, rfl⟩ := Logged.ends_bind.mp hrest
      rw [ends_add.mp hadd] at hl
      simp at hl
  | some read =>
      obtain ⟨_, l₃, l₄, -, hadd, -⟩ := Logged.ends_bind.mp hrest
      obtain ⟨_, l₅, l₆, -, hpure, -⟩ := Logged.ends_bind.mp hadd
      rw [hheader, (Logged.ends_pure.mp hpure).2]

/-! ### The floor -/

/-- A header that passes is that of the block the proof signs. -/
lemma checkFloorHeader_eq_some {K : HashFn} {table : Str → Str} {s : SignedFloor} {raw : Bytes}
    {h : DecodedHeader} (hc : checkFloorHeader K table s raw (.str (js "base")) = some h) :
    s.chain = .base ∧ decodeHeader K raw = .ok h ∧ evmBytesToHex (K raw) = toLowerCase table s.blockHash := by
  simp only [checkFloorHeader] at hc
  split at hc
  · cases hc
  · next hchain =>
    split at hc
    · cases hc
    · next hd =>
      split at hc
      · next hall =>
        obtain rfl := Option.some.inj hc
        rw [Bool.and_eq_true, Bool.and_eq_true, decide_eq_true_eq, decodeHeader_hash hd] at hall
        refine ⟨?_, hd, hall.1.1⟩
        cases hs : s.chain with
        | base => rfl
        | ethereum => exact absurd (by rw [hs]; decide) hchain
      · cases hc

/-- The two readers of hexadecimal agree. -/
lemma evmHexToBytes_of_hexToBytes {hex : Str} {raw : Bytes} (h : Carrier.hexToBytes hex = some raw) :
    evmHexToBytes hex = .ok raw := by
  simp only [Carrier.hexToBytes] at h
  simp only [evmHexToBytes]
  generalize (if js "0x" <+: hex ∨ js "0X" <+: hex then hex.drop 2 else hex) = clean at h ⊢
  split at h
  · cases h
  · next hok =>
    rw [not_or, not_not, Bool.not_eq_false] at hok
    have heven : ¬ clean.length % 2 = 1 := by omega
    rw [if_neg heven, if_pos hok.2, Option.some.inj h]

/-- A Base floor without a FALSE claim is a header that passes. -/
lemma floorBlockClaims_base (hbase : isBaseFloor payload = true) {ts : Option ℕ}
    (h : (floorBlockClaims V payload).Ends l ts) (hl : Clean l) :
    ∃ header, baseFloorHeader V payload = some header ∧ ts = some header.timestamp := by
  rw [floorBlockClaims, if_pos hbase] at h
  obtain ⟨_, l₁, l₂, hadd, hrest, rfl⟩ := Logged.ends_bind.mp h
  obtain ⟨_, l₃, l₄, -, hdate, -⟩ := Logged.ends_bind.mp hrest
  obtain ⟨_, l₅, l₆, -, hpure, -⟩ := Logged.ends_bind.mp hdate
  obtain rfl := ends_add.mp hadd
  have hsome : (baseFloorHeader V payload).isSome = true := by
    have := (clean_append.mp hl).1
    simpa using this
  obtain ⟨header, hheader⟩ := Option.isSome_iff_exists.mp hsome
  refine ⟨header, hheader, ?_⟩
  rw [← (Logged.ends_pure.mp hpure).2, hheader]
  rfl

/-- An anchor as the floor without a FALSE claim is the anchor of the slot, with its header. -/
lemma floorBlockClaims_anchor (hbase : isBaseFloor payload = false) {ts : Option ℕ}
    (h : (floorBlockClaims V payload).Ends l ts) (hl : Clean l) :
    anchorBound V payload = .ok true ∧ verifyWitnessHeader V.K V.table
      ((payload.get (js "floor")).get (js "witness")) = .ok (some ts) := by
  rw [floorBlockClaims, if_neg (by rw [hbase]; decide)] at h
  obtain ⟨_, l₁, l₂, -, hrest, rfl⟩ := Logged.ends_bind.mp h
  obtain ⟨bound, l₃, l₄, hbound, hrest', rfl⟩ := Logged.ends_bind.mp hrest
  obtain ⟨_, l₅, l₆, hadd, hwitness, rfl⟩ := Logged.ends_bind.mp hrest'
  obtain rfl := ends_add.mp hadd
  simp only [clean_append, clean_cons, judged_ne_false] at hl
  obtain ⟨-, -, ⟨rfl, -⟩, hclean⟩ := hl
  exact ⟨(Logged.ends_of.mp hbound).2, witnessClaim_clean hwitness hclean⟩

/-- What a witness that passes says. -/
lemma verifyWitnessHeader_eq_some {K : HashFn} {table : Str → Str} {w : Value} {ts : Option ℕ}
    (h : verifyWitnessHeader K table w = .ok (some ts)) :
    ∃ hex raw num, w.get (js "headerRlpHex") = .str hex ∧ Carrier.hexToBytes hex = some raw ∧
      lowerCase table (w.get (js "blockHash")) = .ok (evmBytesToHex (K raw)) ∧
      headerNumber raw 8 = some num ∧ isCount (w.get (js "blockNumber")) num = true ∧
      headerNumber raw 11 = ts := by
  rw [verifyWitnessHeader] at h
  split at h
  · next hex hhex =>
    split at h
    · cases h
    · next raw hraw =>
      obtain ⟨blockHash, hhash, h⟩ := bind_eq_ok h
      split at h
      · cases h
      · next heq =>
        split at h
        · cases h
        · next items hitems =>
          split at h
          · cases h
          · split at h
            · cases h
            · next num hnum =>
              split at h
              · next hcount =>
                refine ⟨hex, raw, num, hhex, hraw, ?_, ?_, hcount, ?_⟩
                · rw [hhash, not_not.mp heq]
                · rw [headerNumber, hitems, Option.bind_some, hnum]
                · rw [headerNumber, hitems, Option.bind_some]
                  exact Option.some.inj (Except.ok.inj h)
              · cases h
  · cases h

lemma baseFloorHeader_eq_some {header : DecodedHeader} (h : baseFloorHeader V payload = some header) :
    ∃ raw s, hexOf ((payload.get (js "floor")).get (js "header")) = .ok raw ∧
      signedFloorOf V.table (payload.get (js "proof")) = .ok (some s) ∧ s.chain = .base ∧
      decodeHeader V.K raw = .ok header ∧ evmBytesToHex (V.K raw) = toLowerCase V.table s.blockHash := by
  rw [baseFloorHeader] at h
  split at h
  · cases h
  · next raw hraw =>
    obtain ⟨s, hs, hc⟩ := Option.bind_eq_some_iff.mp h
    obtain ⟨hchain, hd, hhash⟩ := checkFloorHeader_eq_some hc
    refine ⟨raw, s, hraw, ?_, hchain, hd, hhash⟩
    rw [signedOf] at hs
    split at hs
    · next signed hsigned => rw [hsigned, hs]
    · cases hs

/-- A proof with the anchor of its slot signs that floor. -/
lemma signedFloorOf_anchor {proof : Value} {counter : Str} {block : SignedBlock} {signed : Option SignedFloor}
    (hslot : slotAnchorOf proof = some (counter, block))
    (h : signedFloorOf V.table proof = .ok signed) :
    ∃ s, signed = some s ∧ s.chain = .ethereum ∧ s.blockHash = toLowerCase V.table block.blockHash := by
  have hget : ∀ {v w : Value} {k : Str}, v.prop k = .ok w → w = v.get k := by
    intro v w k hv
    cases v <;> first | exact (Except.ok.inj hv).symm | cases hv
  obtain ⟨commit, hcommit, h⟩ := bind_eq_ok h
  obtain rfl := hget hcommit
  rw [slotAnchorOf] at hslot
  dsimp only at hslot h
  generalize (proof.get (js "commit")).get (js "slotAnchor") = a at hslot h
  have hhash : a.get (js "blockHash") = .str block.blockHash := by
    split at hslot
    · obtain ⟨block', hblock, heq⟩ := Option.map_eq_some_iff.mp hslot
      obtain rfl := (Prod.mk.inj heq).2
      rw [signedBlock] at hblock
      split at hblock
      · next hash _ hhash => rw [hhash, ← Option.some.inj hblock]
      · cases hblock
    · cases hslot
  have htruthy : a.truthy = true := by
    cases a <;> first | rfl | cases hhash
  rw [htruthy] at h
  split at h
  · cases h
  · next hf =>
    rw [Bool.true_and] at hf
    rw [if_neg hf, if_pos rfl, hhash] at h
    exact ⟨_, (Except.ok.inj h).symm, rfl, rfl⟩

/-- What the anchor of a slot signs of its block. -/
lemma anchorBound_eq_true (h : anchorBound V payload = .ok true) :
    ∃ s blockHash, signedFloorOf V.table (payload.get (js "proof")) = .ok (some s) ∧ s.chain = .ethereum ∧
      lowerCase V.table (((payload.get (js "floor")).get (js "witness")).get (js "blockHash")) = .ok blockHash ∧
      blockHash = s.blockHash := by
  rw [anchorBound] at h
  split at h
  · cases h
  · next signed hsigned =>
    split at h
    · cases h
    · next hchain =>
      rw [checkFloorBinding] at h
      split at h
      · next part counter slotAnchor id block hpart hslot hid =>
        obtain ⟨blockHash, hhash, h⟩ := bind_eq_ok h
        have hall := Except.ok.inj h
        simp only [Bool.and_eq_true, beq_iff_eq] at hall
        obtain ⟨⟨⟨-, hslotHash⟩, -⟩, hblock⟩ := hall
        obtain ⟨s, rfl, hethereum, hs⟩ := signedFloorOf_anchor hslot hsigned
        exact ⟨s, blockHash, hsigned, hethereum, hhash, hblock.trans (hslotHash.trans hs.symm)⟩
      · cases h

end Steps

/-- A Base floor of a payload carries a header that is read. -/
lemma baseFloor_header (p : BlockPayload) (h : isBaseFloor p.value = true) :
    isText (fun s => (baseHeaderFields s).isSome) ((p.value.get (js "floor")).get (js "header")) = true := by
  have hshape : BlockShape p.value := by
    rcases (payloadShapeError_eq_none.mp p.shape).2 with ⟨hatomic, -⟩ | ⟨-, hshape⟩
    · cases hatomic.symm.trans p.block
    · exact hshape
  have hbasis : (p.value.get (js "floor")).get (js "basis") = .str (js "base-header") := by
    simpa [isBaseFloor] using h
  cases hfloor : baseFloor (p.value.get (js "carrier")) (p.value.get (js "floor")) with
  | true =>
      have hpass := hshape.base hfloor
      rw [baseFloorChecks] at hpass
      simp only [pass_cons] at hpass
      exact hpass.2.1
  | false =>
      have hpass := hshape.anchor hfloor
      rw [anchorFloorChecks] at hpass
      simp only [pass_cons] at hpass
      rw [hbasis] at hpass
      cases hpass.1

section Floor

variable {V : Calls} {p : BlockPayload} {l : List Judged} {ts : Option ℕ}

/-- The bound of a Base header that is read. -/
lemma headerBound_eq {hex : Str} (h : (baseHeaderFields hex).isSome = true) :
    ∃ raw n, Carrier.hexToBytes hex = some raw ∧ headerNumber raw 8 = some n ∧
      (headerBound V (.str hex)).blockNumber = countValue n ∧
      (headerBound V (.str hex)).blockHash = evmBytesToHex (V.K raw) := by
  obtain ⟨fields, hfields⟩ := Option.isSome_iff_exists.mp h
  have hall := hfields
  simp only [baseHeaderFields, Option.bind_eq_bind, Option.bind_eq_some_iff] at hall
  obtain ⟨raw, hraw, items, hitems, hrest⟩ := hall
  split at hrest
  · cases hrest
  · simp only [Option.bind_eq_some_iff] at hrest
    obtain ⟨n, hn, ts, hts, hpair⟩ := hrest
    obtain rfl := Option.some.inj hpair
    refine ⟨raw, n, hraw, ?_, ?_, ?_⟩
    · rw [headerNumber, hitems, Option.bind_some, hn]
    · rw [headerBound, hraw, hfields]
    · rw [headerBound, hraw, hfields]

lemma isCount_countValue (n : ℕ) : isCount (countValue n) n = true := by
  have hnan : Number.ofNat n ≠ .nan := by
    rw [Number.ofNat]
    split
    · simp
    · exact roundPos_ne_nan _ _
  rw [isCount, countValue, Value.strictEq.eq_def]
  split <;> simp_all

/-- **Floor.** The floor of a payload without a FALSE claim on it is backed. -/
lemma floorBacked_of_clean {b : CarrierBounds} (h : (floorBlockClaims V p.value).Ends l ts) (hl : Clean l)
    (hb : carrierBounds V p.value = .ok b) (t : Value) (ht : t = .null ∨ t = timeValue ts) :
    FloorBacked V p.value { b with notBefore := { b.notBefore with timestamp := t } } := by
  obtain ⟨notBefore, hfloor, hrest⟩ := bind_eq_ok hb
  obtain ⟨notAfter, -, hrest⟩ := bind_eq_ok hrest
  obtain ⟨existedBy, -, hrest⟩ := bind_eq_ok hrest
  obtain ⟨settledBy, -, hrest⟩ := bind_eq_ok hrest
  obtain rfl := Except.ok.inj hrest
  cases hbase : isBaseFloor p.value with
  | true =>
      obtain ⟨header, hheader, rfl⟩ := floorBlockClaims_base hbase h hl
      obtain ⟨raw', s, hraw', hsigned, hchain, hd, hhash⟩ := baseFloorHeader_eq_some hheader
      have htext := baseFloor_header p hbase
      rw [floorBound, if_pos hbase] at hfloor
      cases hhex : (p.value.get (js "floor")).get (js "header") with
      | str hex =>
          rw [hhex] at htext hfloor hraw'
          obtain ⟨raw, n, hraw, hnum, hblockNumber, hblockHash⟩ := headerBound_eq (V := V) htext
          have hsame : raw' = raw := by
            have := evmHexToBytes_of_hexToBytes hraw
            rw [hexOf, this] at hraw'
            exact (Except.ok.inj hraw').symm
          obtain rfl := hsame
          obtain rfl := Except.ok.inj hfloor
          refine ⟨hex, raw', s, n, ?_, hraw, hsigned, ?_, hhash, hblockHash, hnum, ?_, ?_⟩
          · rw [floorHeader, if_pos hbase, hhex]
          · rw [hchain]
            rfl
          · rw [hblockNumber]
            exact isCount_countValue n
          · rcases ht with rfl | rfl
            · exact .inl rfl
            · exact .inr ⟨header.timestamp, rfl, .inr ⟨header, hd, rfl⟩⟩
      | _ => rw [hhex] at htext; cases htext
  | false =>
      obtain ⟨hbound, hwitness⟩ := floorBlockClaims_anchor hbase h hl
      obtain ⟨hex, raw, num, hhex, hraw, hlower, hnum, hcount, htime⟩ := verifyWitnessHeader_eq_some hwitness
      obtain ⟨s, blockHash, hsigned, hchain, hlower', hs⟩ := anchorBound_eq_true hbound
      obtain rfl := Except.ok.inj (hlower.symm.trans hlower')
      rw [floorBound, if_neg (by rw [hbase]; decide), witnessBound, hwitness, ok_bind, hlower, ok_bind] at hfloor
      obtain rfl := Except.ok.inj hfloor
      refine ⟨hex, raw, s, num, ?_, hraw, hsigned, ?_, ?_, rfl, hnum, hcount, ?_⟩
      · rw [floorHeader, if_neg (by rw [hbase]; decide), hhex]
      · rw [hchain]
        rfl
      · rw [← hs, toLowerCase_evmBytesToHex]
      · rcases ht with rfl | rfl
        · exact .inl rfl
        · cases ts with
          | none => exact .inl rfl
          | some ts => exact .inr ⟨ts, rfl, .inl htime⟩

end Floor

/-! ### The ceilings -/

section Ceilings

variable {V : Calls} {opts : CarrierVerifyOptions} {payload : Value} {l : List Judged}

/-- **Position.** A ceiling in position without a FALSE claim on it is backed. -/
lemma positionBacked_of_clean {b : CarrierBounds} (h : (positionClaims V payload).Ends l ()) (hl : Clean l)
    (hb : carrierBounds V payload = .ok b) : PositionBacked V payload b := by
  obtain ⟨notBefore, -, hrest⟩ := bind_eq_ok hb
  obtain ⟨notAfter, hafter, hrest⟩ := bind_eq_ok hrest
  obtain ⟨existedBy, -, hrest⟩ := bind_eq_ok hrest
  obtain ⟨settledBy, -, hrest⟩ := bind_eq_ok hrest
  obtain rfl := Except.ok.inj hrest
  intro n hn
  obtain rfl : notAfter = some n := hn
  rw [positionBound] at hafter
  split at hafter
  · next hpresent =>
    rw [beq_iff_eq] at hpresent
    rw [positionClaims, if_neg (by rw [hpresent]; decide), if_pos (by rw [hpresent]; decide)] at h
    obtain ⟨_, l₁, l₂, hanchor, hrest, rfl⟩ := Logged.ends_bind.mp h
    obtain ⟨bound, l₃, l₄, hbound, hrest', rfl⟩ := Logged.ends_bind.mp hrest
    obtain ⟨_, l₅, l₆, hadd, hrest'', rfl⟩ := Logged.ends_bind.mp hrest'
    obtain ⟨ts, l₇, l₈, hwitness, -, rfl⟩ := Logged.ends_bind.mp hrest''
    obtain rfl := ends_add.mp hadd
    simp only [clean_append, clean_cons, judged_ne_false] at hl
    obtain ⟨hclean, -, ⟨rfl, -⟩, hclean', -⟩ := hl
    obtain ⟨message, hmessage, hverify⟩ := anchorClaim_clean hanchor hclean
    have hts := witnessClaim_clean hwitness hclean'
    refine ⟨message, ts, hmessage, hverify, (Logged.ends_of.mp hbound).2, hts, ?_⟩
    obtain ⟨hex, raw, num, hhex, hraw, hlower, -⟩ := verifyWitnessHeader_eq_some hts
    rw [witnessBound, hts, ok_bind, hlower, ok_bind] at hafter
    obtain rfl := Option.some.inj (Except.ok.inj hafter)
    exact ⟨rfl, hlower, rfl⟩
  · cases hafter

/-- **Time.** The ceiling in time, where no claim on it is FALSE: a sidecar that was carried is
accepted, and the time it gives is that of the accepted ceiling. -/
lemma inTimeClaims_clean {valid : Bool} {floorTs at_ : Option ℕ} {c : InTime}
    (h : (inTimeClaims V opts payload valid floorTs at_).Ends l c) (hl : Clean l) :
    (∀ t, c.ceilingTime = some t → CeilingAccepted V opts payload t) ∧
      (isPresentPart (payload.get (js "ceilingInTime")) = true →
        c.sidecar = some ((payload.get (js "ceilingInTime")).get (js "sidecar")) ∧
          ∃ t, CeilingAccepted V opts payload t) := by
  rw [inTimeClaims] at h
  split at h
  · next hpresent =>
    obtain ⟨_, l₁, l₂, -, h₁, rfl⟩ := Logged.ends_bind.mp h
    obtain ⟨_, l₃, l₄, -, h₂, rfl⟩ := Logged.ends_bind.mp h₁
    obtain ⟨_, l₅, l₆, -, h₃, rfl⟩ := Logged.ends_bind.mp h₂
    obtain ⟨_, l₇, l₈, -, h₄, rfl⟩ := Logged.ends_bind.mp h₃
    obtain ⟨_, l₉, l₀, -, h₅, rfl⟩ := Logged.ends_bind.mp h₄
    obtain ⟨_, m₁, m₂, -, h₆, rfl⟩ := Logged.ends_bind.mp h₅
    split at h₆
    · obtain ⟨_, m₃, m₄, hadd, -, rfl⟩ := Logged.ends_bind.mp h₆
      obtain rfl := ends_add.mp hadd
      simp only [clean_append, clean_cons] at hl
      exact absurd rfl hl.2.2.2.2.2.2.1.1
    · next w hw =>
      obtain ⟨_, m₃, m₄, -, h₇, -⟩ := Logged.ends_bind.mp h₆
      obtain ⟨_, m₅, m₆, -, h₈, -⟩ := Logged.ends_bind.mp h₇
      obtain ⟨_, m₇, m₈, -, hpure, -⟩ := Logged.ends_bind.mp h₈
      obtain rfl := (Logged.ends_pure.mp hpure).2
      have haccepted : CeilingAccepted V opts payload w.ceiling := ⟨hpresent, valid, w, hw, rfl⟩
      refine ⟨fun t ht => ?_, fun _ => ⟨rfl, _, haccepted⟩⟩
      dsimp only at ht
      split at ht
      · obtain rfl := Option.some.inj ht
        exact haccepted
      · cases ht
  · next hpresent =>
    obtain ⟨_, l₁, l₂, -, hpure, -⟩ := Logged.ends_bind.mp h
    obtain rfl := (Logged.ends_pure.mp hpure).2
    exact ⟨fun t ht => (by cases ht), fun hp => absurd hp hpresent⟩

/-- A settlement without a FALSE claim: its pointer fails no check that is reported, and names no other
block than the sidecar. -/
lemma settlementClaims_clean {c : InTime} (h : (settlementClaims V opts payload c).Ends l ()) (hl : Clean l)
    (hpresent : isPresentPart (payload.get (js "settlement")) = true) :
    ∃ sp, pointerResult V opts payload = .ok sp ∧
      (∀ name ∈ reported, byName sp.checks name ≠ some ⟨name, false⟩) ∧
      otherBaseBlock V (pointerOf payload) c.sidecar = .ok false := by
  rw [settlementClaims, if_pos hpresent] at h
  obtain ⟨sp, l₁, l₂, hsp, h₁, rfl⟩ := Logged.ends_bind.mp h
  obtain ⟨_, l₃, l₄, -, h₂, rfl⟩ := Logged.ends_bind.mp h₁
  obtain ⟨_, l₅, l₆, hheader, h₃, rfl⟩ := Logged.ends_bind.mp h₂
  obtain ⟨_, l₇, l₈, hinclusion, h₄, rfl⟩ := Logged.ends_bind.mp h₃
  obtain ⟨_, l₉, l₀, hblobs, h₅, rfl⟩ := Logged.ends_bind.mp h₄
  obtain ⟨other, m₁, m₂, hother, h₆, rfl⟩ := Logged.ends_bind.mp h₅
  obtain ⟨_, m₃, m₄, hfalse, -, rfl⟩ := Logged.ends_bind.mp h₆
  obtain rfl := ends_add.mp hheader
  obtain rfl := ends_add.mp hinclusion
  obtain rfl := ends_add.mp hblobs
  simp only [clean_append, clean_cons] at hl
  obtain ⟨-, -, ⟨hheader, -⟩, ⟨hinclusion, -⟩, ⟨hblobs, -⟩, -, hclean, -⟩ := hl
  refine ⟨sp, (Logged.ends_of.mp hsp).2, ?_, ?_⟩
  · intro name hname heq
    rw [reported, List.mem_cons, List.mem_cons, List.mem_singleton] at hname
    rcases hname with rfl | rfl | rfl
    · exact hheader (by rw [heq]; rfl)
    · exact hinclusion (by rw [heq]; rfl)
    · exact hblobs (by rw [heq]; rfl)
  · have hno : other = false := by
      cases other with
      | false => rfl
      | true =>
          obtain rfl := ends_add.mp hfalse
          exact absurd rfl (clean_cons.mp hclean).1
    rw [← hno]
    exact (Logged.ends_of.mp hother).2

end Ceilings

/-! ### A TRUE verdict -/

section Verdict

variable {V : Calls} {opts : CarrierVerifyOptions} {lk : CarrierLookups} {p : BlockPayload}
  {inner : Option Bytes} {o : Offline}

/-- The parts of a run without a node that went through. -/
lemma offline_parts {log : List Judged} (h : (offline V opts p.value inner).Ends log o) (hl : Clean log) :
    carrierBounds V p.value = .ok o.bounds ∧ ∃ valid at_ lf lp ll,
      (floorBlockClaims V p.value).Ends lf o.floor.ts ∧ Clean lf ∧
      (positionClaims V p.value).Ends lp () ∧ Clean lp ∧
      (laterClaims V opts p.value valid o.floor.ts at_).Ends ll o.inTime ∧ Clean ll := by
  rw [offline] at h
  obtain ⟨_, l₁, l₂, -, h₁, rfl⟩ := Logged.ends_bind.mp h
  obtain ⟨_, l₃, l₄, -, h₂, rfl⟩ := Logged.ends_bind.mp h₁
  obtain ⟨valid, l₅, l₆, -, h₃, rfl⟩ := Logged.ends_bind.mp h₂
  obtain ⟨_, l₇, l₈, -, h₄, rfl⟩ := Logged.ends_bind.mp h₃
  obtain ⟨at_, l₉, l₀, -, h₅, rfl⟩ := Logged.ends_bind.mp h₄
  obtain ⟨floor, lf, m₂, hfloor, h₆, rfl⟩ := Logged.ends_bind.mp h₅
  obtain ⟨_, lp, m₄, hposition, h₇, rfl⟩ := Logged.ends_bind.mp h₆
  obtain ⟨inTime, ll, m₆, hlater, h₈, rfl⟩ := Logged.ends_bind.mp h₇
  obtain ⟨bounds, m₇, m₈, hbounds, hpure, rfl⟩ := Logged.ends_bind.mp h₈
  obtain ⟨-, rfl⟩ := Logged.ends_pure.mp hpure
  obtain ⟨ts, lf', m₉, hts, hpure', rfl⟩ := Logged.ends_bind.mp hfloor
  obtain ⟨rfl, rfl⟩ := Logged.ends_pure.mp hpure'
  simp only [clean_append] at hl
  obtain ⟨-, -, -, -, -, ⟨hf, -⟩, hp, hll, -⟩ := hl
  exact ⟨(Logged.ends_of.mp hbounds).2, valid, at_, lf', lp, ll, hts, hf, hposition, hp, hlater, hll⟩

/-- A TRUE verdict is over a run that went through, without a FALSE claim. -/
lemma verdict_true (h : (verifyCarrierPayload V opts lk p inner).verdict = .true) :
    ∃ log o, (offline V opts p.value inner).Ends log o ∧ Clean log ∧
      (verifyCarrierPayload V opts lk p inner).bounds = some (finalBounds o) := by
  rw [verifyCarrierPayload] at h ⊢
  dsimp only at h ⊢
  cases hout : (offline V opts p.value inner).out with
  | error e => rw [hout] at h; cases h
  | ok o =>
      rw [hout] at h
      dsimp only at h ⊢
      cases hlast : (confirm V lk p.value o).out with
      | error e => rw [hlast] at h; cases h
      | ok u =>
          rw [hlast] at h
          dsimp only at h ⊢
          split at h
          · cases h
          · next hread =>
            refine ⟨(offline V opts p.value inner).log, o, Logged.ends_of_out hout, ?_, ?_⟩
            · intro j hj hfalse
              have hany : (claimsOf (offline V opts p.value inner).log (confirm V lk p.value o).log).any
                  (fun c => c.result == .false) = true := by
                rw [List.any_eq_true]
                exact ⟨⟨j, .offline⟩, List.mem_append_left _ (List.mem_map_of_mem hj), by simp [hfalse]⟩
              dsimp only at h
              rw [verdictOf, if_pos hany] at h
              cases h
            · rfl

lemma settledBy_of_bounds {b : CarrierBounds} (hb : carrierBounds V p.value = .ok b) :
    b.settledBy = if isPresentPart (p.value.get (js "settlement")) = true then
      statedBound V.table ((pointerOf p.value).get (js "l1")) else none := by
  obtain ⟨notBefore, -, hrest⟩ := bind_eq_ok hb
  obtain ⟨notAfter, -, hrest⟩ := bind_eq_ok hrest
  obtain ⟨existedBy, -, hrest⟩ := bind_eq_ok hrest
  obtain ⟨settledBy, hsettled, hrest⟩ := bind_eq_ok hrest
  obtain rfl := Except.ok.inj hrest
  rw [partBound] at hsettled
  split at hsettled
  · next hpresent =>
    obtain ⟨a, ha, hstated⟩ := bind_eq_ok hsettled
    have hget : ∀ {v w : Value} {k : Str}, v.prop k = .ok w → w = v.get k := by
      intro v w k hv
      cases v <;> first | exact (Except.ok.inj hv).symm | cases hv
    rw [if_pos hpresent, ← Except.ok.inj hstated, hget ha]
    rfl
  · next hpresent =>
    rw [if_neg hpresent, Except.ok.inj hsettled]

/-- The text of a hash is not empty. -/
lemma truthy_of_lowerCase {table : Str → Str} {v : Value} {b : Bytes}
    (h : lowerCase table v = .ok (evmBytesToHex b)) : v.truthy = true := by
  rw [lowerCase.eq_def] at h
  split at h
  · next s =>
    cases s with
    | nil => cases Except.ok.inj h
    | cons c s => rfl
  · obtain ⟨_, -, hthrow⟩ := bind_eq_ok h
    cases hthrow

/-- A pointer that names a block, and no other than the sidecar, names that of the sidecar. -/
lemma lowerCase_of_otherBaseBlock {pointer sidecar : Value} {held : Option Value} {blockHash : Str}
    (h : otherBaseBlock V pointer held = .ok false) (hheld : held = some sidecar)
    (hnamed : (pointer.get (js "baseBlockHash")).truthy = true)
    (hanchor : (sidecar.get (js "anchor")).truthy = true)
    (hblock : lowerCase V.table ((sidecar.get (js "anchor")).get (js "blockHash")) = .ok blockHash) :
    lowerCase V.table (pointer.get (js "baseBlockHash")) = .ok blockHash := by
  subst hheld
  rw [otherBaseBlock] at h
  rw [hnamed, hanchor, Bool.and_self, if_pos rfl] at h
  obtain ⟨named, hlower, h⟩ := bind_eq_ok h
  obtain ⟨block, hheld, h⟩ := bind_eq_ok h
  obtain rfl := Except.ok.inj (hheld.symm.trans hblock)
  have hsame : (named != block) = false := Except.ok.inj h
  rw [hlower, bne_eq_false_iff_eq.mp hsame]

/-- The bound of a section is the block that agrees with it. -/
lemma names_of_statedBound {table : Str → Str} {l1 : Value} {e : BlockTime} {n : Bound}
    (h : Names table l1 e) (hn : statedBound table l1 = some n) :
    isCount n.blockNumber e.blockNumber = true ∧ n.blockHash = e.blockHash
      ∧ isCount n.timestamp e.blockTimestamp = true := by
  obtain ⟨hnumber, hhash, htime⟩ := h
  rw [statedBound.eq_def] at hn
  split at hn
  · next num hash ts h₁ h₂ h₃ =>
    obtain rfl := Option.some.inj hn
    rw [h₁] at hnumber
    rw [h₂] at hhash
    rw [h₃] at htime
    exact ⟨hnumber, Except.ok.inj hhash, htime⟩
  · cases hn

/-- **Settlement.** Where no claim is FALSE, what stands behind `settledBy` is a pointer that is
reported. -/
lemma settlementBacked_iff {log : List Judged} (h : (offline V opts p.value inner).Ends log o)
    (hl : Clean log) :
    SettlementBacked V opts p.value (finalBounds o) ↔ PointerReported V opts p.value := by
  obtain ⟨hb, valid, at_, lf, lp, ll, -, -, -, -, hlater, hll⟩ := offline_parts h hl
  have hsettledBy : (finalBounds o).settledBy = if isPresentPart (p.value.get (js "settlement")) = true then
      statedBound V.table ((pointerOf p.value).get (js "l1")) else none :=
    (settledBy_of_bounds hb : o.bounds.settledBy = _)
  constructor
  · intro hbacked hpresent hstated
    obtain ⟨n, hn⟩ := Option.isSome_iff_exists.mp hstated
    rw [if_pos hpresent, hn] at hsettledBy
    obtain ⟨hversion, sp, e, c, hsp, he, -, -, -, hc, hnamed⟩ := hbacked n hsettledBy
    refine ⟨hversion, hc.1, ?_, ?_⟩
    · obtain ⟨-, valid', w, hw, rfl⟩ := hc
      obtain ⟨-, -, raw, hraw⟩ := verifyCeiling_window hw
      rw [hraw] at hnamed
      exact truthy_of_lowerCase hnamed
    · intro sp' name hsp' hreason
      obtain rfl := Except.ok.inj (hsp.symm.trans hsp')
      rcases verifySettlementPointer_ok hsp with ⟨e', hnone, -⟩ | ⟨name', -, hnone, -⟩
      · cases hnone.symm.trans hreason
      · cases hnone.symm.trans he
  · intro hreported n hn
    rw [hsettledBy] at hn
    split at hn
    · next hpresent =>
      obtain ⟨hversion, hct, htruthy, hname⟩ := hreported hpresent (by rw [hn]; rfl)
      rw [laterClaims, if_pos hversion] at hlater
      obtain ⟨inTime, l₁, l₂, htime, hrest, rfl⟩ := Logged.ends_bind.mp hlater
      obtain ⟨_, l₃, l₄, hsettlement, hrest', rfl⟩ := Logged.ends_bind.mp hrest
      obtain ⟨_, l₅, l₆, -, hpure, rfl⟩ := Logged.ends_bind.mp hrest'
      simp only [clean_append] at hll
      obtain ⟨hsidecar, c, hc⟩ := (inTimeClaims_clean htime hll.1).2 hct
      obtain ⟨sp, hsp, hchecks, hother⟩ := settlementClaims_clean hsettlement hll.2.1 hpresent
      obtain ⟨-, valid', w, hw, rfl⟩ := id hc
      obtain ⟨hanchor, hblock, -⟩ := verifyCeiling_window hw
      have hnamed := lowerCase_of_otherBaseBlock hother hsidecar htruthy hanchor hblock
      rcases verifySettlementPointer_ok hsp with ⟨e, -, he, hnames⟩ | ⟨name, hreason, -, hfailed⟩
      · obtain ⟨hnumber, hhash, htimestamp⟩ := names_of_statedBound hnames hn
        exact ⟨hversion, sp, e, w.ceiling, hsp, he, hnumber, hhash, htimestamp, hc, hnamed⟩
      · rcases hfailed with hmem | ⟨hmem, hfound⟩
        · exact absurd hmem (hname sp name hsp hreason)
        · exact absurd hfound (hchecks name hmem)
    · cases hn

/-- The time of the final bounds is that of a ceiling that was accepted. -/
lemma timeBacked_of_clean {log : List Judged} (h : (offline V opts p.value inner).Ends log o)
    (hl : Clean log) : TimeBacked V opts p.value (finalBounds o) := by
  obtain ⟨-, valid, at_, lf, lp, ll, -, -, -, -, hlater, hll⟩ := offline_parts h hl
  intro n hn
  obtain ⟨c, hc, rfl⟩ := Option.map_eq_some_iff.mp (hn : o.inTime.ceilingTime.map _ = some n)
  refine ⟨c, ?_, rfl⟩
  rw [laterClaims] at hlater
  split at hlater
  · obtain ⟨inTime, l₁, l₂, htime, hrest, rfl⟩ := Logged.ends_bind.mp hlater
    obtain ⟨_, l₃, l₄, -, hrest', rfl⟩ := Logged.ends_bind.mp hrest
    obtain ⟨_, l₅, l₆, -, hpure, rfl⟩ := Logged.ends_bind.mp hrest'
    obtain ⟨-, rfl⟩ := Logged.ends_pure.mp hpure
    exact (inTimeClaims_clean htime (clean_append.mp hll).1).1 c hc
  · obtain ⟨-, hnone⟩ := Logged.ends_pure.mp hlater
    rw [← hnone] at hc
    cases hc

/-- **Backed.** In a TRUE verdict every bound is backed, exactly when the pointer of a stated settlement
is reported. -/
theorem backed_iff (V : Calls) (opts : CarrierVerifyOptions) (lk : CarrierLookups) (p : BlockPayload)
    (inner : Option Bytes) (h : (verifyCarrierPayload V opts lk p inner).verdict = .true) :
    ∃ b, (verifyCarrierPayload V opts lk p inner).bounds = some b ∧
      (Backed V opts p.value b ↔ PointerReported V opts p.value) := by
  obtain ⟨log, o, hends, hclean, hbounds⟩ := verdict_true h
  refine ⟨finalBounds o, hbounds, fun hb => (settlementBacked_iff hends hclean).mp hb.settlement,
    fun hp => ?_⟩
  obtain ⟨hb, valid, at_, lf, lp, ll, hfloor, hlf, hposition, hlp, -, -⟩ := offline_parts hends hclean
  constructor
  · have htime : (if o.floor.withheld then .null else timeValue o.floor.ts) = Value.null ∨
        (if o.floor.withheld then .null else timeValue o.floor.ts) = timeValue o.floor.ts := by
      split
      · exact .inl rfl
      · exact .inr rfl
    exact floorBacked_of_clean hfloor hlf hb _ htime
  · have hbacked := positionBacked_of_clean hposition hlp hb
    exact hbacked
  · exact timeBacked_of_clean hends hclean
  · exact (settlementBacked_iff hends hclean).mpr hp

/-- A record whose checks pass. -/
theorem backed_iff_sample : ∃ b,
    (verifyCarrierPayload sampleCalls defaultOptions noLookups samplePayload none).bounds = some b ∧
      (Backed sampleCalls defaultOptions samplePayload.value b
        ↔ PointerReported sampleCalls defaultOptions samplePayload.value) :=
  backed_iff sampleCalls defaultOptions noLookups samplePayload none sample_runs.1

/-- A pointer to another chain than Ethereum: it fails, and the block it states is a bound of a TRUE
verdict. -/
theorem other_chain : ¬ ∀ (V : Calls) (opts : CarrierVerifyOptions) (lk : CarrierLookups)
    (p : BlockPayload) (inner : Option Bytes), (verifyCarrierPayload V opts lk p inner).verdict = .true →
      ∃ b, (verifyCarrierPayload V opts lk p inner).bounds = some b ∧ Backed V opts p.value b := by
  intro h
  obtain ⟨htrue, hsome, -, -⟩ := sample_runs
  obtain ⟨b, hb, hbacked⟩ := h sampleCalls defaultOptions noLookups samplePayload none htrue
  rw [hb, Option.bind_some] at hsome
  obtain ⟨n, hn⟩ := Option.isSome_iff_exists.mp hsome
  obtain ⟨-, sp, e, c, hsp, he, -⟩ := hbacked.settlement n hn
  have hfails : ((pointerResult sampleCalls defaultOptions samplePayload.value).toOption.bind
      fun sp => sp.existedBy) = none := by decide
  rw [hsp] at hfails
  cases he.symm.trans hfails

end Verdict

end CarrierVerify

end BitGraph
