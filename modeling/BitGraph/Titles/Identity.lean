import BitGraph.Titles.Pm

/-!
One signed message, and its files.

* **Content.** `eq_of_signingBytes`: what is signed determines every field but the signature.
* **Spellings.** The check reads the signature as base64 of any spelling, the parser keeps its text:
  `respell` is another file of one message.
* `message_identity`: files of one message and one signature are the same exactly when they spell the signature
  alike, and every message has another file.
-/

namespace BitGraph

open Js

namespace Titles

open Player (SigAlg Crypto keyObjectFor)

variable {pm pm' : Pm} {raw : Value} {C : Crypto} {H : HashFn}

/-! ### Content -/

lemma PmClaim.text_injective {c c' : PmClaim} (h : c.text = c'.text) : c = c' := by
  have hc := parseClaim_text c
  rw [h, parseClaim_text] at hc
  exact (Option.some.inj hc).symm

lemma sigAlg_text_injective {a a' : SigAlg} (h : a.text = a'.text) : a = a' := by
  have ha := parseSigAlg_text a
  rw [h, parseSigAlg_text] at ha
  exact (Option.some.inj ha).symm

lemma keyValue_injective {k k' : PmKeyRef} (h : keyValue k = keyValue k') : k = k' := by
  obtain ⟨alg, key⟩ := k
  obtain ⟨alg', key'⟩ := k'
  have halg : Value.str alg.text = .str alg'.text := congrArg (Value.get · (js "alg")) h
  have hkey : Value.str key = .str key' := congrArg (Value.get · (js "publicKey")) h
  rw [sigAlg_text_injective (Value.str.inj halg), Value.str.inj hkey]

/-- An optional member is told from its value. -/
lemma getD_undefined_injective {α : Type} {f : α → Value} (hf : ∀ a b, f a = f b → a = b)
    (hne : ∀ a, f a ≠ .undefined) {o o' : Option α}
    (h : (o.map f).getD .undefined = (o'.map f).getD .undefined) : o = o' := by
  cases o with
  | none =>
      cases o' with
      | none => rfl
      | some b => exact absurd h.symm (hne b)
  | some a =>
      cases o' with
      | none => exact absurd h (hne a)
      | some b => rw [hf a b h]

/-- A value spells one message. -/
lemma Spells.unique (h : Spells raw pm) (h' : Spells raw pm') : pm = pm' := by
  have hstr : ∀ {o o' : Option Str}, (o.map Value.str).getD .undefined = (o'.map Value.str).getD .undefined →
      o = o' := getD_undefined_injective (fun _ _ => Value.str.inj) nofun
  have habout := Value.str.inj (h.about.symm.trans h'.about)
  have hclaim := PmClaim.text_injective (Value.str.inj (h.claim.symm.trans h'.claim))
  have hre := hstr (h.re.symm.trans h'.re)
  have hto := getD_undefined_injective (fun _ _ => keyValue_injective) nofun (h.recipient.symm.trans h'.recipient)
  have hbody := hstr (h.body.symm.trans h'.body)
  have hsalt := Value.str.inj (h.salt.symm.trans h'.salt)
  have hpossession := Value.str.inj (h.possession.symm.trans h'.possession)
  have halg := sigAlg_text_injective (Value.str.inj (h.alg.symm.trans h'.alg))
  have hkey := Value.str.inj (h.publicKey.symm.trans h'.publicKey)
  have hsig := Value.str.inj (h.signature.symm.trans h'.signature)
  cases pm
  cases pm'
  dsimp only at habout hclaim hre hto hbody hsalt hpossession halg hkey hsig
  subst habout hclaim hre hto hbody hsalt hpossession halg hkey hsig
  rfl

/-- What is signed is parsed as the fields before the signature. -/
lemma parse_signed (pm : Pm) :
    parse (indentedObject [] (pm.ordered.map Member.line) ++ [10]) = some (.obj (pm.ordered.map Member.prop)) := by
  have hsub : pm.ordered.Sublist pm.members := List.sublist_append_left _ _
  have hne : pm.ordered ≠ [] := by simp [Pm.ordered]
  refine parse_of_yields (yields_indentedObject (by simp [Blank]) hne
    (fun m hm => pm.yields_members m (hsub.subset hm)) ?_)
  exact pm.fields_ordered.sublist (hsub.map Member.prop)

/-- **Content.** What is signed determines the message, its signature apart. -/
lemma eq_of_signingBytes (h : pmSigningBytes pm = pmSigningBytes pm') (hsig : pm.signature = pm'.signature) :
    pm = pm' := by
  have hwell : ∀ pm : Pm, wellFormed (indentedObject [] (pm.ordered.map Member.line) ++ [10]) = true := by
    intro pm
    refine wellFormed_append (Js.wellFormed_members rfl fun m hm => ?_) rfl
    exact pm.wellFormed_members m (List.mem_append_left _ hm)
  have htext := utf8Encode_inj (hwell pm) (hwell pm') h
  have hparse := parse_signed pm
  rw [htext, parse_signed] at hparse
  have hordered := Value.obj.inj (Option.some.inj hparse)
  have hfields : pm.fields = pm'.fields := by
    rw [Pm.fields, Pm.fields, Pm.members, Pm.members, List.map_append, List.map_append, hordered, hsig]
  exact pm.spells_fields.unique (hfields ▸ pm'.spells_fields)

/-! ### Spellings -/

/-- The message with another text for its signature. -/
def Pm.respell (pm : Pm) (signature : Str) : Pm := { pm with signature := signature }

@[simp] lemma pmSigningBytes_respell (s : Str) : pmSigningBytes (pm.respell s) = pmSigningBytes pm := rfl

@[simp] lemma Pm.respell_alg (s : Str) : (pm.respell s).alg = pm.alg := rfl

@[simp] lemma Pm.respell_publicKey (s : Str) : (pm.respell s).publicKey = pm.publicKey := rfl

@[simp] lemma Pm.respell_signature (s : Str) : (pm.respell s).signature = s := rfl

lemma Pm.WellFormed.respell (h : pm.WellFormed) {s : Str} (hs : s ≠ []) : (pm.respell s).WellFormed :=
  { h with signature := hs }

/-- A spelling of the same bytes verifies alike. -/
lemma checkSignature_respell {s : Str} (h : bufferFromBase64 s = bufferFromBase64 pm.signature) :
    (checkSignature C (pm.respell s)).1 = (checkSignature C pm).1 := by
  have hok : ∀ keyObject, signatureOk C (pm.respell s) keyObject = signatureOk C pm keyObject := by
    intro keyObject
    simp only [signatureOk, pmSigningBytes_respell, Pm.respell_alg, Pm.respell_signature, h]
  simp only [checkSignature, Pm.respell_alg, Pm.respell_publicKey, hok]

/-- A blank behind a base64 text is skipped. -/
lemma bufferFromBase64_blank (s : Str) : bufferFromBase64 (s ++ [32]) = bufferFromBase64 s := by
  rw [bufferFromBase64, List.filterMap_append, show [32].filterMap b64Sextet? = [] by decide, List.append_nil,
    bufferFromBase64]

/-- A message that was read and whose signature verifies. -/
structure Verified (C : Crypto) (bytes : Bytes) (pm : Pm) : Prop where
  parsed : parsePm bytes = .ok pm
  signed : ∀ (H : HashFn) (subjectBytes : Option Bytes), (checkPm C H pm subjectBytes).signature = true

lemma verified_of (h : pm.WellFormed) (hsig : (checkSignature C pm).1 = true) :
    Verified C (utf8Encode (serializePm pm)) pm :=
  ⟨parsePm_eq_ok.mpr ⟨h, rfl⟩, fun _ _ => hsig⟩

lemma Verified.respell {bytes : Bytes} (h : Verified C bytes pm) {s : Str} (hne : s ≠ [])
    (hs : bufferFromBase64 s = bufferFromBase64 pm.signature) :
    Verified C (utf8Encode (serializePm (pm.respell s))) (pm.respell s) where
  parsed := parsePm_eq_ok.mpr ⟨(parsePm_eq_ok.mp h.parsed).1.respell hne, rfl⟩
  signed H subjectBytes := (checkSignature_respell hs).trans (h.signed H subjectBytes)

/-- Two files carry one message: the same signed content, and the same bytes of the signature. -/
def SameMessage (pm pm' : Pm) : Prop :=
  pmSigningBytes pm = pmSigningBytes pm' ∧ bufferFromBase64 pm.signature = bufferFromBase64 pm'.signature

/-- **One identity.** Files of one message and one signature are the same file exactly when they spell the
signature alike; every message whose signature verifies has another file. What is read is the canonical text. -/
theorem message_identity (C : Crypto) :
    (∀ bytes pm, parsePm bytes = .ok pm → bytes = utf8Encode (serializePm pm)) ∧
    (∀ bytes bytes' pm pm', Verified C bytes pm → Verified C bytes' pm' → SameMessage pm pm' →
      (bytes = bytes' ↔ pm.signature = pm'.signature)) ∧
    ∀ bytes pm, Verified C bytes pm →
      ∃ bytes' pm', Verified C bytes' pm' ∧ SameMessage pm pm' ∧ bytes' ≠ bytes := by
  refine ⟨fun bytes pm h => (parsePm_eq_ok.mp h).2, ?_, ?_⟩
  · intro bytes bytes' pm pm' h h' hsame
    constructor
    · rintro rfl
      rw [Except.ok.inj (h.parsed.symm.trans h'.parsed)]
    · intro hsig
      rw [(parsePm_eq_ok.mp h.parsed).2, (parsePm_eq_ok.mp h'.parsed).2, eq_of_signingBytes hsame.1 hsig]
  · intro bytes pm h
    have hblank := bufferFromBase64_blank pm.signature
    refine ⟨_, _, h.respell (by simp) hblank, ⟨rfl, hblank.symm⟩, ?_⟩
    intro heq
    have hparsed := (h.respell (by simp) hblank).parsed
    rw [heq, h.parsed] at hparsed
    have hlen := congrArg (fun pm => pm.signature.length) (Except.ok.inj hparsed)
    simp at hlen

/-- The answers of `node:crypto` where these messages and signatures, and no others, verify. -/
def tableCrypto (signed : List (Bytes × Bytes)) : Crypto where
  KeyObject := Bytes
  createPublicKey := some
  asymmetricKeyType := fun _ => some (js "ed25519")
  namedCurve := fun _ => none
  verify := fun _ message _ sig => some (decide ((message, sig) ∈ signed))

lemma keyObjectFor_table {signed : List (Bytes × Bytes)} {key : Bytes}
    (hloose : Player.isB64Loose (bytesToBase64 key) = true) (hlen : key.length = 32) :
    keyObjectFor (tableCrypto signed) ⟨.ed25519, bytesToBase64 key⟩ = some (Player.ed25519SpkiPrefix ++ key) := by
  have hkey : Player.decodeB64Strict (bytesToBase64 key) = some key := by
    rw [Player.decodeB64Strict, bufferFromBase64_bytesToBase64, if_pos ⟨hloose, rfl⟩]
  rw [keyObjectFor, hkey]
  simp [hlen, tableCrypto]

/-- A message in the table verifies. -/
lemma checkSignature_table {signed : List (Bytes × Bytes)} {key sig : Bytes} (halg : pm.alg = .ed25519)
    (hkey : pm.publicKey = bytesToBase64 key) (hloose : Player.isB64Loose (bytesToBase64 key) = true)
    (hlen : key.length = 32) (hsig : pm.signature = bytesToBase64 sig) (hmem : (pmSigningBytes pm, sig) ∈ signed) :
    (checkSignature (tableCrypto signed) pm).1 = true := by
  have hobject : keyObjectFor (tableCrypto signed) ⟨pm.alg, pm.publicKey⟩
      = some (Player.ed25519SpkiPrefix ++ key) := by
    rw [halg, hkey]
    exact keyObjectFor_table hloose hlen
  have hok : signatureOk (tableCrypto signed) pm (Player.ed25519SpkiPrefix ++ key) = true := by
    unfold signatureOk
    rw [halg, hsig, bufferFromBase64_bytesToBase64]
    exact decide_eq_true hmem
  rw [checkSignature, hobject]
  dsimp only
  rw [hok, if_pos rfl]

/-- The SHA-256 digest of a subject. -/
def subjectDigest : Bytes :=
  [0x00, 0xe1, 0x3e, 0xd7, 0xaf, 0x55, 0xb2, 0x76, 0x22, 0xf1, 0xd6, 0xea, 0xb5, 0xbe, 0xc0, 0x14,
    0x7e, 0x68, 0xef, 0xe2, 0x8d, 0xc2, 0xb1, 0x24, 0x61, 0x11, 0x7a, 0xfa, 0x1a, 0x5e, 0xd4, 0x0e]

/-- Its possession hash. -/
def subjectPossession : Bytes :=
  [0xfd, 0x43, 0x96, 0x78, 0x15, 0x6b, 0xde, 0xf2, 0x7a, 0x2f, 0xfb, 0xf9, 0x51, 0x81, 0x5f, 0xfe,
    0x23, 0x16, 0x78, 0xe9, 0x91, 0xf5, 0xe5, 0xcf, 0xad, 0x39, 0xe7, 0x3d, 0xd9, 0x64, 0x35, 0x55]

/-- An Ed25519 public key. -/
def ownerKey : Bytes :=
  [0x8a, 0x88, 0xe3, 0xdd, 0x74, 0x09, 0xf1, 0x95, 0xfd, 0x52, 0xdb, 0x2d, 0x3c, 0xba, 0x5d, 0x72,
    0xca, 0x67, 0x09, 0xbf, 0x1d, 0x94, 0x12, 0x1b, 0xf3, 0x74, 0x88, 0x01, 0xb4, 0x0f, 0x6f, 0x5c]

/-- The signature of the sample. -/
def heldSig : Bytes :=
  [0xed, 0x98, 0x26, 0x5c, 0x46, 0xe1, 0xc3, 0xd4, 0xd1, 0x9c, 0xda, 0xc3, 0x7e, 0x02, 0xba, 0xda,
    0xfe, 0x43, 0x1c, 0x17, 0xff, 0x22, 0x54, 0xe8, 0x2e, 0xc9, 0xd1, 0xb6, 0x61, 0x2e, 0xf5, 0xda,
    0x84, 0x4a, 0x68, 0xe1, 0x3d, 0x5e, 0xb9, 0x54, 0xd5, 0x17, 0xaa, 0xdc, 0xd2, 0xf3, 0x91, 0x7b,
    0x60, 0x31, 0xe7, 0x2a, 0x65, 0x87, 0x18, 0xfc, 0x5b, 0xc0, 0x15, 0xfd, 0x9a, 0x16, 0xa0, 0x0b]

def sampleHeld : Pm where
  about := js "sha256:" ++ bytesToHex subjectDigest
  claim := .held
  re := none
  recipient := none
  body := none
  salt := bytesToHex (List.replicate 16 0)
  possession := bytesToHex subjectPossession
  alg := .ed25519
  publicKey := bytesToBase64 ownerKey
  signature := bytesToBase64 heldSig

lemma isHexOf_bytesToHex {b : Bytes} {n : ℕ} (h : 2 * b.length = n) : isHexOf n (bytesToHex b) = true := by
  rw [isHexOf, length_bytesToHex, h, beq_self_eq_true, Bool.true_and, List.all_eq_true]
  exact fun c hc => isLowerHex_of_mem_bytesToHex hc

lemma digestSpelling_bytesToHex {b : Bytes} (h : b.length = 32) : DigestSpelling (js "sha256:" ++ bytesToHex b) :=
  ⟨_, isHexOf_bytesToHex (by omega), rfl⟩

lemma bytesToBase64_ne_nil {b : Bytes} (h : b.length ≠ 0) : bytesToBase64 b ≠ [] := by
  intro hnil
  have hlen := congrArg List.length hnil
  rw [length_bytesToBase64, List.length_nil] at hlen
  omega

lemma sampleHeld_wellFormed : sampleHeld.WellFormed where
  about := digestSpelling_bytesToHex rfl
  re := nofun
  recipient := nofun
  salt := isHexOf_bytesToHex rfl
  possession := isHexOf_bytesToHex rfl
  publicKey := bytesToBase64_ne_nil (by decide)
  signature := bytesToBase64_ne_nil (by decide)
  give := by decide
  predecessor := by decide
  origin := fun _ => rfl

lemma ownerKey_loose : Player.isB64Loose (bytesToBase64 ownerKey) = true := by decide

def heldCrypto : Crypto := tableCrypto [(pmSigningBytes sampleHeld, heldSig)]

/-- The sample with and without the padding of its signature. -/
theorem padding_respelled : ¬ ∀ bytes bytes' pm pm', Verified heldCrypto bytes pm → Verified heldCrypto bytes' pm' →
    SameMessage pm pm' → bytes = bytes' := by
  have hverified : Verified heldCrypto _ sampleHeld :=
    verified_of sampleHeld_wellFormed (checkSignature_table rfl rfl ownerKey_loose rfl rfl List.mem_cons_self)
  -- the same bytes, without the two signs of padding
  have hbytes : bufferFromBase64 (sampleHeld.signature.take 86) = bufferFromBase64 sampleHeld.signature := by
    decide
  have hverified' := hverified.respell (by decide) hbytes
  intro h
  have heq := h _ _ _ _ hverified hverified' ⟨rfl, hbytes.symm⟩
  have hparsed := hverified'.parsed
  rw [← heq, hverified.parsed] at hparsed
  have hsame := congrArg (fun pm => pm.signature.length) (Except.ok.inj hparsed)
  exact absurd hsame (by decide)

end Titles

end BitGraph
