import BitGraph.Lib.Firsts
import BitGraph.Recovery.Complete

/-!
Recovered members, one listing each.

* **Loop.** `memberKey` joins the ten parts that tell members apart, `dedupeRecovered` keeps the
  entries whose key it has not met.
* **Fields.** What a plaintext that parsed holds (`RecoveryPlaintext.Admitted`): canonical base64, hex and
  decimals, so no bar and, in a path node, no comma.
* **Members.** On such fields one key is one member (`memberKey_eq_iff`), so the loop keeps the first
  entry of each member (`deduped_exactly`).
-/

namespace BitGraph

open Js Js.Value

namespace Recovery

variable {H : HashFn} {A : Aead} {p : RecoveryPlaintext} {a b e : RecoveredEntry}

/-! ### The loop -/

def asPlaintext (e : RecoveredEntry) : RecoveryPlaintext :=
  ⟨e.proofHash, e.leafIndex, e.rootDocument, e.member, e.proof, none, none⟩

/-- The ten parts of a member's identity. -/
def memberParts (e : RecoveredEntry) : List Str :=
  [e.proofHash, decimal e.leafIndex, e.rootDocument, decimal e.member.index, decimal e.member.count,
    e.member.leaf, joinComma e.member.path, e.proof.epochId, e.proof.counter, e.proof.artifactDigestB64]

/-- The parts, joined by bars. -/
def memberKey (e : RecoveredEntry) : Str := [124].intercalate (memberParts e)

/-- One listing per member; the state is the keys met and the entries kept. -/
def dedupeRecovered (entries : List RecoveredEntry) : List RecoveredEntry :=
  (entries.foldl (keepNew memberKey) ([], [])).2

/-- Two entries of one member of one recording. -/
def sameMember (a b : RecoveredEntry) : Bool := sameRecoveryMember (asPlaintext a) (asPlaintext b)

lemma sameMember_iff : sameMember a b = true ↔ a.proofHash = b.proofHash ∧ a.leafIndex = b.leafIndex ∧
    a.rootDocument = b.rootDocument ∧ a.member = b.member ∧ a.proof = b.proof := by
  simp [sameMember, sameRecoveryMember, asPlaintext, and_assoc]

/-! ### What parses -/

/-- The fields of a plaintext that was read. -/
structure RecoveryPlaintext.Admitted (p : RecoveryPlaintext) : Prop where
  proofHash : ∃ b, base64Of32 p.proofHash = some b
  rootDocument : ∃ b, hexToBytes p.rootDocument = some b
  leaf : ∃ b, hexToBytes p.member.leaf = some b
  path : ∀ n ∈ p.member.path, ∃ b, hex32 n = some b
  proof : p.proof.Valid

lemma forall_of_mapM {α β : Type} {f : α → Option β} {l : List α} {r : List β}
    (h : l.mapM f = some r) : ∀ a ∈ l, ∃ b, f a = some b := by
  induction l generalizing r with
  | nil => simp
  | cons a l ih =>
    simp only [List.mapM_cons, Option.bind_eq_bind, Option.bind_eq_some_iff] at h
    obtain ⟨b, hb, rs, hrs, -⟩ := h
    exact List.forall_mem_cons.mpr ⟨⟨b, hb⟩, ih hrs⟩

/-- Evidence that was read keeps its texts. -/
lemma evidenceOf_admitted {v : Value} {ev : ParsedEvidence} (h : parseTreeMemberEvidence v = some ev) :
    (∃ b, hexToBytes (evidenceOf v ev).leaf = some b) ∧
      ∀ n ∈ (evidenceOf v ev).path, ∃ b, hex32 n = some b := by
  rw [parseTreeMemberEvidence.eq_def] at h
  split at h
  · split at h
    · cases h
    · split at h
      · next leafHex hcount hindex hleaf =>
        simp only [Option.bind_eq_bind, Option.bind_eq_some_iff] at h
        obtain ⟨count, -, index, -, leafBytes, hbytes, leaf, -, texts, htexts, path, hpath, -⟩ := h
        rw [evidenceOf]
        dsimp only
        rw [hleaf, htexts]
        exact ⟨⟨leafBytes, hbytes⟩, forall_of_mapM hpath⟩
      · cases h
  · cases h

lemma readPlaintext_admitted {v : Value} (h : readPlaintext H v = some p) : p.Admitted := by
  rw [readPlaintext] at h
  split_ifs at h
  split at h
  · simp only [Option.bind_eq_bind, Option.bind_eq_some_iff] at h
    obtain ⟨proofHash, hproofHash, docBytes, hdoc, doc, -, ev, hev, h⟩ := h
    split_ifs at h
    simp only [Option.bind_eq_some_iff] at h
    obtain ⟨reached, -, h⟩ := h
    split_ifs at h
    simp only [Option.bind_eq_some_iff] at h
    obtain ⟨proof, hproof, h⟩ := h
    split_ifs at h
    simp only [Option.bind_eq_some_iff] at h
    obtain ⟨salt, -, name, -, h⟩ := h
    obtain rfl := Option.some.inj h
    obtain ⟨hleaf, hpath⟩ := evidenceOf_admitted hev
    exact ⟨⟨proofHash, hproofHash⟩, ⟨docBytes, hdoc⟩, hleaf, hpath, parseLocator_valid hproof⟩
  · cases h

/-- The entry of some listed item that opens under some digest. -/
def Recovered (H : HashFn) (A : Aead) (e : RecoveredEntry) : Prop :=
  ∃ item digest32 address key, openListed H A item digest32 address key = .ok (some e)

/-- A recovered entry carries the fields of a plaintext that parsed. -/
lemma Recovered.exists_plaintext (h : Recovered H A e) :
    ∃ p : RecoveryPlaintext, p.Admitted ∧ e.proofHash = p.proofHash ∧ e.leafIndex = p.leafIndex ∧
      e.rootDocument = p.rootDocument ∧ e.member = p.member ∧ e.proof = p.proof := by
  obtain ⟨item, digest32, address, key, h⟩ := h
  rw [openListed] at h
  split at h
  · split at h
    · cases h
    · split at h
      · cases h
      · split at h
        · cases h
        · next p hp =>
          obtain ⟨bytes, -, hparse⟩ := Option.bind_eq_some_iff.mp hp
          rw [parseRecoveryPlaintext] at hparse
          obtain ⟨text, -, hparse⟩ := Option.bind_eq_some_iff.mp hparse
          obtain ⟨v, -, hread⟩ := Option.bind_eq_some_iff.mp hparse
          obtain ⟨entryId, -, hentry⟩ := bind_eq_ok h
          have hentry := Except.ok.inj hentry
          split_ifs at hentry
          rw [recoveredEntry] at hentry
          obtain ⟨leaf, -, hentry⟩ := Option.bind_eq_some_iff.mp hentry
          dsimp only at hentry
          split_ifs at hentry
          all_goals
            obtain rfl := Option.some.inj hentry
            exact ⟨p, readPlaintext_admitted hread, rfl, rfl, rfl, rfl, rfl⟩
  · cases h

/-! ### Bars and commas -/

/-- A text without the two separators. -/
def Unseparated (s : Str) : Prop := (124 : UInt16) ∉ s ∧ (44 : UInt16) ∉ s

lemma unseparated_bytesToHex (b : Bytes) : Unseparated (bytesToHex b) :=
  ⟨fun h => absurd (isLowerHex_of_mem_bytesToHex h) (by decide),
    fun h => absurd (isLowerHex_of_mem_bytesToHex h) (by decide)⟩

lemma unseparated_of_isDigit {s : Str} (h : ∀ c ∈ s, isDigit c = true) : Unseparated s :=
  ⟨fun hc => absurd (h _ hc) (by decide), fun hc => absurd (h _ hc) (by decide)⟩

lemma unseparated_of_isCounter {s : Str} (h : isCounter s = true) : Unseparated s := by
  refine unseparated_of_isDigit ?_
  rw [isCounter.eq_def] at h
  split at h
  · intro c hc
    rw [List.mem_singleton.mp hc]
    rfl
  · next c s =>
    simp only [Bool.and_eq_true, List.all_eq_true] at h
    exact List.forall_mem_cons.mpr ⟨h.1.1.1, h.2⟩
  · cases h

lemma unseparated_of_base64Of32 {s : Str} (h : ∃ b, base64Of32 s = some b) : Unseparated s := by
  obtain ⟨b, h⟩ := h
  obtain rfl := eq_of_base64ToBytes (Option.filter_eq_some_iff.mp h).1
  have hunit : ∀ n < 64, b64Unit n ≠ 124 ∧ b64Unit n ≠ 44 := by decide
  have hall := forall_mem_bytesToBase64 (P := fun c => c ≠ 124 ∧ c ≠ 44) hunit (by decide) b
  exact ⟨fun hc => (hall _ hc).1 rfl, fun hc => (hall _ hc).2 rfl⟩

lemma unseparated_of_hexToBytes {s : Str} (h : ∃ b, hexToBytes s = some b) : Unseparated s := by
  obtain ⟨b, h⟩ := h
  rw [← eq_of_hexToBytes h]
  exact unseparated_bytesToHex b

lemma unseparated_decimal (n : ℕ) : Unseparated (decimal n) :=
  unseparated_of_isDigit fun _ => isDigit_of_mem_decimal

lemma joinComma_eq (l : List Str) : joinComma l = [44].intercalate l := by
  induction l with
  | nil => rfl
  | cons t l ih =>
    cases l with
    | nil => simp [joinComma]
    | cons u l => rw [joinComma, ih, List.intercalate_cons_cons, List.append_assoc, List.singleton_append]

/-- The nodes of a path are told apart by what they join to; no path is an empty text. -/
lemma joinComma_inj {ns ms : List Str} (hn : ∀ n ∈ ns, ∃ b, hex32 n = some b)
    (hm : ∀ m ∈ ms, ∃ b, hex32 m = some b) (h : joinComma ns = joinComma ms) : ns = ms := by
  have hnode : ∀ n, (∃ b, hex32 n = some b) → n ≠ [] ∧ (44 : UInt16) ∉ n := by
    rintro n ⟨b, hb⟩
    obtain ⟨hb, hlen⟩ := Option.filter_eq_some_iff.mp hb
    refine ⟨?_, (unseparated_of_hexToBytes ⟨b, hb⟩).2⟩
    rintro rfl
    obtain rfl := Option.some.inj hb
    cases hlen
  have hempty : ∀ n ms, (∀ m ∈ n :: ms, ∃ b, hex32 m = some b) → joinComma (n :: ms) ≠ [] := by
    intro n ms hms hjoin
    have hn := (hnode n (hms n (by simp))).1
    cases ms with
    | nil => exact hn hjoin
    | cons m ms => simp [joinComma] at hjoin
  cases ns with
  | nil =>
    cases ms with
    | nil => rfl
    | cons m ms => exact absurd h.symm (hempty m ms hm)
  | cons n ns =>
    cases ms with
    | nil => exact absurd h (hempty n ns hn)
    | cons m ms =>
      rw [joinComma_eq, joinComma_eq] at h
      exact intercalate_inj (by simp) (by simp) (fun x hx => (hnode x (hn x hx)).2)
        (fun x hx => (hnode x (hm x hx)).2) h

lemma notMem_joinComma {c : UInt16} (hc : c ≠ 44) {l : List Str} (h : ∀ t ∈ l, c ∉ t) :
    c ∉ joinComma l := by
  rw [joinComma_eq]
  induction l with
  | nil => simp
  | cons t l ih =>
    obtain ⟨ht, hl⟩ := List.forall_mem_cons.mp h
    cases l with
    | nil => simpa using ht
    | cons u l =>
      rw [List.intercalate_cons_cons]
      simp only [List.mem_append, List.mem_singleton, not_or]
      exact ⟨⟨ht, hc⟩, ih hl⟩

/-! ### Members -/

lemma memberParts_plain (h : Recovered H A e) : ∀ s ∈ memberParts e, (124 : UInt16) ∉ s := by
  obtain ⟨p, hp, hproofHash, -, hdoc, hmember, hproof⟩ := h.exists_plaintext
  have hpath : ∀ n ∈ p.member.path, (124 : UInt16) ∉ n := fun n hn => by
    obtain ⟨b, hb⟩ := hp.path n hn
    exact (unseparated_of_hexToBytes ⟨b, (Option.filter_eq_some_iff.mp hb).1⟩).1
  rw [memberParts, hproofHash, hdoc, hmember, hproof]
  simp only [List.forall_mem_cons, List.not_mem_nil, false_imp_iff, implies_true, and_true]
  exact ⟨(unseparated_of_base64Of32 hp.proofHash).1, (unseparated_decimal _).1,
    (unseparated_of_hexToBytes hp.rootDocument).1, (unseparated_decimal _).1,
    (unseparated_decimal _).1, (unseparated_of_hexToBytes hp.leaf).1,
    notMem_joinComma (by decide) hpath, (unseparated_of_base64Of32 hp.proof.epochId).1,
    (unseparated_of_isCounter hp.proof.counter).1,
    (unseparated_of_base64Of32 hp.proof.artifactDigestB64).1⟩

lemma Recovered.path_nodes (h : Recovered H A e) : ∀ n ∈ e.member.path, ∃ b, hex32 n = some b := by
  obtain ⟨p, hp, -, -, -, hmember, -⟩ := h.exists_plaintext
  rw [hmember]
  exact hp.path

/-- One key is one member. -/
theorem memberKey_eq_iff (ha : Recovered H A a) (hb : Recovered H A b) :
    memberKey a = memberKey b ↔ sameMember a b = true := by
  rw [sameMember_iff]
  constructor
  · intro h
    have hparts : memberParts a = memberParts b :=
      intercalate_inj (by simp [memberParts]) (by simp [memberParts]) (memberParts_plain ha)
        (memberParts_plain hb) h
    simp only [memberParts, List.cons.injEq, and_true, decimal_injective.eq_iff] at hparts
    obtain ⟨hhash, hleafIndex, hdoc, hindex, hcount, hleaf, hpath, hepoch, hcounter, hdigest⟩ := hparts
    have hpath := joinComma_inj ha.path_nodes hb.path_nodes hpath
    refine ⟨hhash, hleafIndex, hdoc, ?_, ?_⟩
    · calc a.member
        _ = ⟨a.member.index, a.member.count, a.member.leaf, a.member.path⟩ := rfl
        _ = b.member := by rw [hindex, hcount, hleaf, hpath]
    · calc a.proof
        _ = ⟨a.proof.epochId, a.proof.counter, a.proof.artifactDigestB64⟩ := rfl
        _ = b.proof := by rw [hepoch, hcounter, hdigest]
  · rintro ⟨hhash, hleafIndex, hdoc, hmember, hproof⟩
    rw [memberKey, memberKey, memberParts, memberParts, hhash, hleafIndex, hdoc, hmember, hproof]

/-- **Deduplication.** Of recovered entries the loop keeps the first of each member, in their order:
every entry is of a member that is kept, and no two that are kept are of one member. -/
theorem deduped_exactly (H : HashFn) (A : Aead) (entries : List RecoveredEntry)
    (h : ∀ e ∈ entries, Recovered H A e) :
    dedupeRecovered entries = firsts sameMember entries
      ∧ (∀ e ∈ entries, ∃ k ∈ dedupeRecovered entries, sameMember k e = true)
      ∧ (dedupeRecovered entries).Pairwise fun a b => sameMember a b = false := by
  have hfirsts : dedupeRecovered entries = firsts sameMember entries :=
    foldl_keepNew fun a ha b hb => memberKey_eq_iff (h a ha) (h b hb)
  have hrefl : ∀ e, sameMember e e = true := fun e => sameMember_iff.mpr ⟨rfl, rfl, rfl, rfl, rfl⟩
  have htrans : ∀ a b c, sameMember a b = true → sameMember b c = true → sameMember a c = true := by
    intro a b c hab hbc
    rw [sameMember_iff] at hab hbc ⊢
    exact ⟨hab.1.trans hbc.1, hab.2.1.trans hbc.2.1, hab.2.2.1.trans hbc.2.2.1,
      hab.2.2.2.1.trans hbc.2.2.2.1, hab.2.2.2.2.trans hbc.2.2.2.2⟩
  rw [hfirsts]
  exact ⟨rfl, fun e he => exists_firsts hrefl htrans he, pairwise_firsts⟩

/-- Every member of an accepted tree is recovered. -/
lemma exists_recovered {parts : RecoveryTreeParts} {tree : RecoveryTree}
    (htree : recoveryTreeFromParts H parts = .ok tree) (hpos : 0 < tree.count) :
    ∃ e, Recovered H A e := by
  obtain ⟨leaves, doc, hsound⟩ := sound_of_accepted htree
  obtain ⟨l, path, hm⟩ := hsound.exists_member hpos
  have hsalt : SaltOk none := fun s hs => by cases hs
  have hnonce : (List.replicate 12 (0 : UInt8)).length = NONCE_BYTES := rfl
  obtain ⟨w, b, -, hsealed⟩ := @sealSide_member H A tree leaves doc 0 l path none none .asIs
    hsound hm hsalt (List.replicate 12 0)
  have hitem : Lists (.obj [(js "key", .str w.objectKey),
      (js "envelope", .str (bytesToBase64 w.envelope))]) w.objectKey w.envelope := ⟨rfl, rfl, rfl⟩
  obtain ⟨e, he, -⟩ := openListed_member hsound hm hsalt hnonce hsealed hitem
  exact ⟨e, _, _, _, _, he⟩

/-- A member listed twice is one recovery. -/
theorem deduped_exactly_twice : ∃ e, Recovered sha256 aesGcm e ∧ dedupeRecovered [e, e] = [e] := by
  have hv : ∀ l ∈ [asIsLeaf 0], l.Valid := by
    intro l hl
    rw [List.mem_singleton.mp hl]
    exact checkLeaf_eq_ok.mp (by decide)
  obtain ⟨tree, htree, hcount, -⟩ := exists_accepted sha256 (by simp) (by decide) hv
    (List.isChain_singleton _)
  obtain ⟨e, he⟩ := exists_recovered (A := aesGcm) htree (by rw [hcount]; decide)
  have hkept := (deduped_exactly sha256 aesGcm [e, e] (by simp [he])).1
  have hsame : sameMember e e = true := sameMember_iff.mpr ⟨rfl, rfl, rfl, rfl, rfl⟩
  exact ⟨e, he, hkept.trans (by simp [firsts, hsame])⟩

end Recovery
end BitGraph
