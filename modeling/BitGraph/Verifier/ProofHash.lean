import BitGraph.Canonical.Form
import BitGraph.Sha256.Eval
import BitGraph.Verifier

/-!
`proof-hash.ts`: the hash that names a proof in the ledger, and the hash of its signed body.

* **Program.** `computeProofHash` hashes a frozen part of the body, `computeSignedBodyHash` the whole
  body that `buildSignedBody` rebuilds.
* **Canonical bodies.** `canonicalize_perm`: the order of the members does not count.
  `length_lt_canonicalize`: one more member is a longer text.
* **Shape.** `BodyShape` is what the check of the structure gives of the members of a body.
* **Main result.** `proofHash_eq_iff`: without agency and policy the two hashes are equal exactly where
  the attribution is absent or truthy; `null_attribution` is a proof with a member that only one of
  the two counts.
-/

namespace BitGraph

open Js Value

namespace Verifier

/-! ### The program -/

/-- The members that every body has. -/
def bodyFields (proof : Value) : Fields :=
  let env := proof.get (js "environment")
  [(js "version", proof.get (js "version")), (js "artifact", proof.get (js "artifact")),
    (js "commit", proof.get (js "commit")),
    (js "publicKeyB64", (proof.get (js "signer")).get (js "publicKeyB64")),
    (js "enforcement", env.get (js "enforcement")), (js "measurement", env.get (js "measurement"))]

/-- The part of the body that names a proof in the ledger. -/
def hashedSubset (proof : Value) : Except Thrown Value := do
  let _ ← proof.prop (js "signer")
  let attribution := proof.get (js "attribution")
  let attestation := (proof.get (js "environment")).get (js "attestation")
  return .obj (bodyFields proof
    ++ (if attribution.truthy then [(js "attribution", attribution)] else [])
    ++ (if attestation.truthy then [(js "attestationFormat", attestation.get (js "format"))] else []))

/-- The whole body. -/
def buildSignedBody (proof : Value) : Except Thrown Value := do
  let _ ← proof.prop (js "signer")
  let attestation := (proof.get (js "environment")).get (js "attestation")
  let agency := proof.get (js "agency")
  let optional (k : Str) (v : Value) : Fields := if v = .undefined then [] else [(k, v)]
  let format ← if attestation = .undefined then pure .undefined else attestation.prop (js "format")
  let actor ← if agency = .undefined then pure .undefined else agency.prop (js "actor")
  return .obj (bodyFields proof
    ++ (if attestation = .undefined then [] else [(js "attestationFormat", format)])
    ++ (if agency = .undefined then [] else [(js "actor", actor)])
    ++ optional (js "policy") (proof.get (js "policy"))
    ++ optional (js "attribution") (proof.get (js "attribution")))

/-- The hash of a body, in base64. -/
def hashBody (H : HashFn) (body : Value) : Except Thrown Str := do
  return bytesToBase64 (H (← canonicalize body))

def computeProofHash (H : HashFn) (proof : Value) : Except Thrown Str := do
  hashBody H (← hashedSubset proof)

def computeSignedBodyHash (H : HashFn) (proof : Value) : Except Thrown Str := do
  hashBody H (← buildSignedBody proof)

/-! ### Canonical bodies -/

lemma isJson_get {v : Value} (hj : v.isJson = true) {k : Str} (h : v.get k ≠ .undefined) :
    (v.get k).isJson = true := by
  cases v with
  | obj l =>
    rw [Value.isJson, Bool.and_eq_true, decide_eq_true_eq, Value.isJsonFields_iff] at hj
    rw [Value.get] at h ⊢
    cases hf : Fields.find? l k with
    | none =>
      rw [hf] at h
      exact absurd rfl h
    | some w => exact hj.2 _ ((Fields.find?_eq_some hj.1).mp hf)
  | _ => exact absurd rfl h

/-- Plain names, each once. -/
structure Named (l : Fields) : Prop where
  nodup : (l.map Prod.fst).Nodup
  plain : ∀ k ∈ l.map Prod.fst, arrayIndex? k = none ∧ k ≠ js "__proto__"

namespace Named

variable {l m : Fields}

lemma perm (h : Named l) (hp : l.Perm m) : Named m :=
  ⟨(hp.map Prod.fst).nodup_iff.mp h.nodup,
    fun k hk => h.plain k ((hp.map Prod.fst).symm.subset hk)⟩

lemma ordered (h : Named l) : l.Ordered := by
  rw [Fields.ordered_iff]
  refine List.Pairwise.imp_of_mem (fun {a b} ha hb hne => ?_) h.nodup
  rw [KeyBefore, (h.plain a ha).1, (h.plain b hb).1]
  exact hne

lemma isJson (h : Named l) (hv : ∀ m ∈ l, m.2.isJson = true) : (Value.obj l).isJson = true := by
  rw [Value.isJson, decide_eq_true h.ordered, Bool.true_and, Value.isJsonFields_iff]
  exact hv

end Named

/-- A member assigned to an object keeps what holds of every value. -/
lemma foldl_assign_all {P : Value → Prop} {l acc : Fields} (hacc : acc.Ordered ∧ ∀ m ∈ acc, P m.2)
    (hl : ∀ m ∈ l, P m.2) :
    (l.foldl (fun (acc : Fields) m => acc.assign m.1 m.2) acc).Ordered ∧
      ∀ m ∈ l.foldl (fun (acc : Fields) m => acc.assign m.1 m.2) acc, P m.2 := by
  induction l generalizing acc with
  | nil => exact hacc
  | cons m l ih =>
    refine ih ?_ fun n hn => hl n (List.mem_cons_of_mem _ hn)
    simp only [Fields.assign]
    split
    · exact hacc
    · refine ⟨hacc.1.setProp m.1 m.2, fun n hn => ?_⟩
      rcases Fields.mem_setProp hn with rfl | hn
      · exact hl m List.mem_cons_self
      · exact hacc.2 n hn

/-- The rebuilt value is data of JSON, whatever the names of its members. -/
lemma isJson_sorted {v : Value} (hj : v.isJson = true) : v.sorted.isJson = true := by
  induction v using Value.ind with
  | arr l ih =>
    rw [Value.isJson, Value.isJsonList_iff] at hj
    rw [Value.sorted, Value.sortedList_eq, Value.isJson, Value.isJsonList_iff, List.forall_mem_map]
    exact fun v hv => ih v hv (hj v hv)
  | obj l ih =>
    rw [Value.isJson, Bool.and_eq_true, decide_eq_true_eq, Value.isJsonFields_iff] at hj
    have hmembers : ∀ m ∈ (Value.sortedFields l).insertionSort keyLe, m.2.isJson = true := by
      intro m hm
      have hm := (List.perm_insertionSort keyLe _).subset hm
      rw [Value.sortedFields_eq] at hm
      obtain ⟨n, hn, rfl⟩ := List.mem_map.mp hm
      exact ih n hn (hj.2 n hn)
    have hnone : Fields.Ordered [] ∧ ∀ m ∈ ([] : Fields), m.2.isJson = true :=
      ⟨List.Pairwise.nil, fun m hm => absurd hm List.not_mem_nil⟩
    have hall := foldl_assign_all (P := fun v => v.isJson = true) hnone hmembers
    rw [Value.sorted, Value.isJson, decide_eq_true hall.1, Bool.true_and, Value.isJsonFields_iff]
    exact hall.2
  | _ => exact hj

/-- The canonical bytes of an object, and their number. -/
lemma canonicalize_named {l : Fields} (h : Named l) (hv : ∀ m ∈ l, m.2.isJson = true) :
    ∃ b, canonicalize (.obj l) = .ok b ∧ b.length
      = (l.map fun m => byteLength (quote m.1) + textSize m.2.sorted + 2).sum - 1 + 2 := by
  have hj := h.isJson hv
  have hjs := isJson_sorted hj
  obtain ⟨t, ht⟩ := exists_serialize hjs
  have htext : canonicalizeToString (.obj l) = .ok (some t) := by
    rw [canonicalizeToString, sortedReplacer_eq hj, ok_bind, Value.stringify_of_isJson hjs, ht]
    rfl
  obtain ⟨L, hL, hperm, -, -⟩ := sorted_obj h.ordered fun m hm =>
    (h.plain m.1 (List.mem_map_of_mem hm)).2
  have hLj : ∀ m ∈ L, m.2.isJson = true := by
    rw [hL, Value.isJson, Bool.and_eq_true, Value.isJsonFields_iff] at hjs
    exact hjs.2
  refine ⟨utf8Encode t, by rw [canonicalize, htext]; rfl, ?_⟩
  calc (utf8Encode t).length = textSize (Value.obj l).sorted := by rw [textSize, ht]; rfl
    _ = (L.map fun m => byteLength (quote m.1) + textSize m.2 + 2).sum - 1 + 2 := by
        rw [hL, textSize_obj hLj]
    _ = _ := by
        rw [(hperm.map fun m => byteLength (quote m.1) + textSize m.2 + 2).sum_eq,
          Value.sortedFields_eq, List.map_map]
        rfl

/-- One more member is a longer text. -/
lemma length_lt_canonicalize {l m : Fields} {k : Str} {v : Value} (h : Named m)
    (hv : ∀ n ∈ m, n.2.isJson = true) (hp : m.Perm ((k, v) :: l)) :
    ∃ a b, canonicalize (.obj l) = .ok a ∧ canonicalize (.obj m) = .ok b ∧ a.length < b.length := by
  have hl : Named l := by
    have hm := h.perm hp
    refine ⟨(List.nodup_cons.mp hm.nodup).2, fun j hj => hm.plain j (List.mem_cons_of_mem _ hj)⟩
  have hlv : ∀ n ∈ l, n.2.isJson = true := fun n hn => hv n (hp.symm.subset (List.mem_cons_of_mem _ hn))
  obtain ⟨a, ha, hlen⟩ := canonicalize_named hl hlv
  obtain ⟨b, hb, hlen'⟩ := canonicalize_named h hv
  refine ⟨a, b, ha, hb, ?_⟩
  rw [(hp.map _).sum_eq, List.map_cons, List.sum_cons] at hlen'
  omega

/-- The order of the members does not count. -/
lemma canonicalize_perm {l m : Fields} (h : Named l) (hv : ∀ n ∈ l, n.2.isJson = true)
    (hp : l.Perm m) : canonicalize (.obj l) = canonicalize (.obj m) := by
  have hsorted : (Value.obj l).sorted = (Value.obj m).sorted := by
    rw [Value.sorted, Value.sorted, Value.sortedFields_eq, Value.sortedFields_eq,
      sort_eq_of_perm (hp.map _)]
    rw [List.map_map]
    exact h.nodup
  rw [canonicalize, canonicalize, canonicalizeToString, canonicalizeToString,
    sortedReplacer_eq (h.isJson hv),
    sortedReplacer_eq ((h.perm hp).isJson fun n hn => hv n (hp.symm.subset hn)), hsorted]

/-! ### The shape of a body -/

def attestationOf (p : Value) : Value := (p.get (js "environment")).get (js "attestation")

/-- What the check of the structure gives of the members of a body. -/
structure BodyShape (p : Value) : Prop where
  isObject : ∃ l, p = .obj l
  members : ∀ m ∈ bodyFields p, m.2 ≠ .undefined
  attestation : attestationOf p = .undefined ∨
    (isRecord (attestationOf p) = true ∧ (attestationOf p).get (js "format") ≠ .undefined)

lemma ne_undefined_of_isNonEmpty {v : Value} (h : isNonEmpty v = true) : v ≠ .undefined := by
  rintro rfl
  cases h

lemma ne_undefined_of_isRecord {v : Value} (h : isRecord v = true) : v ≠ .undefined := by
  rintro rfl
  cases h

lemma bodyShape_of_valid {p : Value} (h : validateStructure p = pass) : BodyShape p := by
  have hobj : ∃ l, p = .obj l := by
    cases p with
    | obj l => exact ⟨l, rfl⟩
    | arr l => cases h
    | _ => cases h
  obtain ⟨l, rfl⟩ := hobj
  rw [validateStructure] at h
  by_cases hversion : (Value.obj l).get (js "version") = .str (js "bitgraph/1")
  swap
  · simp only [hversion, ne_eq, not_false_eq_true, if_true] at h
    obtain ⟨s, -, hs⟩ := bind_eq_ok h
    cases hs
  by_cases hartifact : isRecord ((Value.obj l).get (js "artifact")) = true
  swap
  · simp only [hversion, ne_eq, not_true, if_false, Bool.not_eq_true _ ▸ hartifact, if_true] at h
    cases h
  by_cases halg : ((Value.obj l).get (js "artifact")).get (js "hashAlg") = .str (js "sha256")
  swap
  · simp only [hversion, hartifact, halg, ne_eq, not_true, not_false_eq_true, if_false, if_true,
      Bool.true_eq_false] at h
    obtain ⟨s, -, hs⟩ := bind_eq_ok h
    cases hs
  simp only [hversion, hartifact, halg, ne_eq, not_true, if_false, Bool.true_eq_false] at h
  rw [firstRefusal_eq_pass] at h
  simp only [List.forall_mem_cons] at h
  obtain ⟨-, hcommit, -, -, -, -, -, -, hkey, -, -, htier, hmeasurement, hatt, hformat, -⟩ := h
  have htier : ((Value.obj l).get (js "environment")).get (js "enforcement") ≠ .undefined := by
    intro hnone
    rw [hnone] at htier
    exact absurd htier (by decide)
  refine ⟨⟨l, rfl⟩, ?_, ?_⟩
  · simp only [bodyFields, List.forall_mem_cons]
    refine ⟨by rw [hversion]; rintro ⟨⟩, ne_undefined_of_isRecord hartifact, ne_undefined_of_isRecord hcommit,
      ne_undefined_of_isNonEmpty hkey, htier, ne_undefined_of_isNonEmpty hmeasurement, (by rintro _ ⟨⟩)⟩
  · rw [Bool.or_eq_true, beq_iff_eq] at hatt hformat
    rcases hatt with hatt | hatt
    · exact .inl hatt
    rcases hformat with hformat | hformat
    · exact .inl hformat
    · exact .inr ⟨hatt, ne_undefined_of_isNonEmpty hformat⟩

/-! ### The two hashes -/

section Hashes

variable {H : HashFn} {p : Value}

/-- The format of the attestation, where there is one. -/
def formatFields (p : Value) : Fields :=
  if attestationOf p = .undefined then []
  else [(js "attestationFormat", (attestationOf p).get (js "format"))]

def attributionField (p : Value) : Str × Value := (js "attribution", p.get (js "attribution"))

lemma truthy_attestation (h : BodyShape p) :
    (attestationOf p).truthy = true ↔ attestationOf p ≠ .undefined := by
  rcases h.attestation with hnone | ⟨hrecord, -⟩
  · rw [hnone]
    exact ⟨nofun, fun h => absurd rfl h⟩
  · refine ⟨fun _ => ne_undefined_of_isRecord hrecord, fun _ => ?_⟩
    cases ha : attestationOf p with
    | obj l => rfl
    | _ =>
      rw [ha] at hrecord
      cases hrecord

lemma hashedSubset_eq (h : BodyShape p) : hashedSubset p = .ok (.obj (bodyFields p
    ++ (if (p.get (js "attribution")).truthy then [attributionField p] else []) ++ formatFields p)) := by
  obtain ⟨l, rfl⟩ := h.isObject
  have hatt := truthy_attestation h
  rw [hashedSubset, formatFields]
  by_cases hnone : attestationOf (.obj l) = .undefined
  · have hfalse : (attestationOf (.obj l)).truthy = false := by
      rw [Bool.eq_false_iff, ne_eq, hatt]
      exact not_not.mpr hnone
    rw [if_pos hnone]
    rw [attestationOf] at hfalse
    simp only [hfalse]
    rfl
  · have htrue := hatt.mpr hnone
    rw [if_neg hnone]
    rw [attestationOf] at htrue
    simp only [htrue]
    rfl

/-- The body that the verifier rebuilds in place. -/
lemma buildSignedBody_eq_signedBody (h : BodyShape p) : buildSignedBody p = signedBody p := by
  obtain ⟨l, rfl⟩ := h.isObject
  rcases h.attestation with hnone | ⟨hrecord, -⟩
  · rw [attestationOf] at hnone
    simp only [buildSignedBody, signedBody, hnone, if_true]
    rfl
  · have hdefined := ne_undefined_of_isRecord hrecord
    have hformat : (attestationOf (.obj l)).prop (js "format")
        = .ok ((attestationOf (.obj l)).get (js "format")) := by
      cases ha : attestationOf (.obj l) with
      | obj l => rfl
      | _ =>
        rw [ha] at hrecord
        cases hrecord
    rw [attestationOf] at hdefined hformat
    simp only [buildSignedBody, signedBody, hdefined, hformat, if_false]
    rfl

lemma buildSignedBody_eq (h : BodyShape p) (hagency : p.get (js "agency") = .undefined)
    (hpolicy : p.get (js "policy") = .undefined) : buildSignedBody p = .ok (.obj (bodyFields p
      ++ formatFields p ++ if p.get (js "attribution") = .undefined then [] else [attributionField p])) := by
  rw [buildSignedBody_eq_signedBody h, signedBody, hagency, hpolicy]
  simp only [if_true, List.append_nil]
  rfl

/-- Every body is an object of data of JSON with plain names. -/
lemma named_body (p : Value) : Named (attributionField p :: (bodyFields p ++ formatFields p)) := by
  rw [formatFields]
  split
  · exact ⟨(by decide : List.Nodup [js "attribution", js "version", js "artifact", js "commit",
      js "publicKeyB64", js "enforcement", js "measurement"]), (by decide : ∀ k ∈ [js "attribution",
      js "version", js "artifact", js "commit", js "publicKeyB64", js "enforcement", js "measurement"],
      arrayIndex? k = none ∧ k ≠ js "__proto__")⟩
  · exact ⟨(by decide : List.Nodup [js "attribution", js "version", js "artifact", js "commit",
      js "publicKeyB64", js "enforcement", js "measurement", js "attestationFormat"]),
      (by decide : ∀ k ∈ [js "attribution", js "version", js "artifact", js "commit",
      js "publicKeyB64", js "enforcement", js "measurement", js "attestationFormat"],
      arrayIndex? k = none ∧ k ≠ js "__proto__")⟩

lemma isJson_body (hj : p.isJson = true) (h : BodyShape p) :
    ∀ m ∈ bodyFields p ++ formatFields p, m.2.isJson = true := by
  have hget (k j : Str) (hne : (p.get k).get j ≠ .undefined) : ((p.get k).get j).isJson = true := by
    refine isJson_get (isJson_get hj fun hnone => hne ?_) hne
    rw [hnone]
    rfl
  intro m hm
  rcases List.mem_append.mp hm with hm | hm
  · have hne := h.members m hm
    simp only [bodyFields, List.mem_cons, List.not_mem_nil, or_false] at hm
    rcases hm with rfl | rfl | rfl | rfl | rfl | rfl
    · exact isJson_get hj hne
    · exact isJson_get hj hne
    · exact isJson_get hj hne
    · exact hget _ _ hne
    · exact hget _ _ hne
    · exact hget _ _ hne
  · rw [formatFields] at hm
    split_ifs at hm with hnone
    · cases hm
    · obtain rfl := List.mem_singleton.mp hm
      have hne := (h.attestation.resolve_left hnone).2
      exact isJson_get (hget _ _ hnone) hne

/-- The two canonical bodies have one hash. -/
def BodiesCollide (H : HashFn) (p : Value) : Prop :=
  ∃ v w a b, hashedSubset p = .ok v ∧ buildSignedBody p = .ok w ∧ canonicalize v = .ok a ∧
    canonicalize w = .ok b ∧ H.Collides [a] [b]

/-- **The two hashes.** Without agency and policy the hash of a proof is that of its signed body exactly
where the attribution is absent or truthy; and the body that is built is the one that the verifier rebuilds. -/
theorem proofHash_eq_iff (hj : p.isJson = true) (hvalid : validateStructure p = pass)
    (hagency : p.get (js "agency") = .undefined) (hpolicy : p.get (js "policy") = .undefined) :
    buildSignedBody p = signedBody p ∧
      (computeProofHash H p = computeSignedBodyHash H p ↔
        p.get (js "attribution") = .undefined ∨ (p.get (js "attribution")).truthy = true ∨
          BodiesCollide H p) := by
  have h := bodyShape_of_valid hvalid
  refine ⟨buildSignedBody_eq_signedBody h, ?_⟩
  have hsubset := hashedSubset_eq h
  have hbody := buildSignedBody_eq h hagency hpolicy
  have hnamed := named_body p
  have hjson := isJson_body hj h
  rw [computeProofHash, computeSignedBodyHash, hsubset, hbody, ok_bind, ok_bind]
  by_cases hnone : p.get (js "attribution") = .undefined
  · have hfalse : (p.get (js "attribution")).truthy = false := by rw [hnone]; rfl
    rw [if_pos hnone, hfalse, List.append_nil]
    simp [hnone]
  have hattribution : (attributionField p).2.isJson = true := isJson_get hj hnone
  have hall : ∀ m ∈ attributionField p :: (bodyFields p ++ formatFields p), m.2.isJson = true :=
    List.forall_mem_cons.mpr ⟨hattribution, hjson⟩
  rw [if_neg hnone] at hbody ⊢
  cases htruthy : (p.get (js "attribution")).truthy with
  | true =>
    have hperm : (bodyFields p ++ [attributionField p] ++ formatFields p).Perm
        (bodyFields p ++ formatFields p ++ [attributionField p]) := by
      rw [List.append_assoc, List.append_assoc]
      exact (List.perm_append_comm).append_left _
    have hfirst : (attributionField p :: (bodyFields p ++ formatFields p)).Perm
        (bodyFields p ++ [attributionField p] ++ formatFields p) := by
      rw [List.append_assoc]
      exact List.perm_middle.symm
    refine iff_of_true ?_ (.inr (.inl rfl))
    rw [if_pos rfl, hashBody, hashBody, canonicalize_perm (hnamed.perm hfirst)
      (fun n hn => hall n (hfirst.symm.subset hn)) hperm]
  | false =>
    have hperm : (bodyFields p ++ formatFields p ++ [attributionField p]).Perm
        ((js "attribution", p.get (js "attribution")) :: (bodyFields p ++ formatFields p)) :=
      List.perm_append_comm
    obtain ⟨a, b, ha, hb, hlt⟩ := length_lt_canonicalize (hnamed.perm hperm.symm)
      (fun n hn => hall n (hperm.subset hn)) hperm
    have hne : a ≠ b := fun heq => hlt.ne (congrArg List.length heq)
    rw [htruthy] at hsubset
    simp only [Bool.false_eq_true, if_false, List.append_nil] at hsubset ⊢
    rw [hashBody, hashBody, ha, hb]
    constructor
    · intro heq
      have hhash : H a = H b := bytesToBase64_injective (Except.ok.inj heq)
      exact .inr (.inr ⟨_, _, a, b, hsubset, hbody, ha, hb, a, by simp, b, by simp, hne, hhash⟩)
    · rintro (hmissing | hmore | ⟨v, w, a', b', hv, hw, ha', hb', x, hx, y, hy, -, hhash⟩)
      · exact absurd hmissing hnone
      · cases hmore
      · obtain rfl := Except.ok.inj (hsubset.symm.trans hv)
        obtain rfl := Except.ok.inj (hbody.symm.trans hw)
        obtain rfl := Except.ok.inj (ha.symm.trans ha')
        obtain rfl := Except.ok.inj (hb.symm.trans hb')
        obtain rfl := List.mem_singleton.mp hx
        obtain rfl := List.mem_singleton.mp hy
        exact congrArg (fun d => Except.ok (bytesToBase64 d)) hhash

end Hashes

/-! ### An attribution that is null -/

/-- A proof with the members that the structure needs, and more. -/
def smallProof (more : Fields) : Value :=
  .obj ([(js "version", .str (js "bitgraph/1")),
    (js "artifact", .obj [(js "hashAlg", .str (js "sha256")), (js "digestB64", .str (js "a"))]),
    (js "commit", .obj [(js "nonceB64", .str (js "b"))]),
    (js "signer", .obj [(js "publicKeyB64", .str (js "c")), (js "signatureB64", .str (js "d"))]),
    (js "environment", .obj [(js "enforcement", .str (js "stub")), (js "measurement", .str (js "e"))])]
    ++ more)

theorem proofHash_eq_iff_small : buildSignedBody (smallProof []) = signedBody (smallProof []) ∧
    (computeProofHash sha256 (smallProof []) = computeSignedBodyHash sha256 (smallProof []) ↔
      (smallProof []).get (js "attribution") = .undefined ∨
        ((smallProof []).get (js "attribution")).truthy = true ∨ BodiesCollide sha256 (smallProof [])) :=
  proofHash_eq_iff (by decide) (by decide) (by decide) (by decide)

/-- An attribution that is null is in the signed body, and not in the part that names the proof. -/
theorem null_attribution : ¬ ∀ p : Value, p.isJson = true → validateStructure p = pass →
    p.get (js "agency") = .undefined → p.get (js "policy") = .undefined →
      computeProofHash sha256 p = computeSignedBodyHash sha256 p ∧ buildSignedBody p = signedBody p := by
  intro h
  have heq := (h (smallProof [(js "attribution", .null)]) (by decide) (by decide)
    (by decide) (by decide)).1
  rw [sha256_eq_eval] at heq
  exact absurd heq (by decide +kernel)

end Verifier

end BitGraph
