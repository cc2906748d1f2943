import BitGraph.Player.Evaluate

/-!
What a signature claim rests on.

* **Spellings.** `canonicalBytes` reads the canonical spellings of a digest, `spelledBytes` every
  spelling that the check of a signature file takes; `spelledBytes_of_canonicalBytes`.
* **The scan.** `signedBy_cases`: a claim is true when a file of the evidence signs the digest of
  the role as the check reads it, and undetermined otherwise.
* **The specification.** `followsSpec_iff`: the claim is true exactly on canonical spellings when
  no file counts only for a spelling that is not canonical.
* **Negations.** `underNots_ne`: a claim built of negated signature claims is never true.
-/

namespace BitGraph

open Js

namespace Player

open Audit Kleene Kleene.ThreeValued

/-! ### Spellings of a digest -/

/-- The bytes of a canonical digest spelling. -/
def canonicalBytes (s : Str) : Option Bytes := (normalizeDigest s).bind decodeDigestBytes

/-- The bytes of a digest as the check of a signature file reads its field `over`. -/
def spelledBytes (s : Str) : Option Bytes := decodeDigestBytes (dropSha256 (trim s))

lemma not_blank_of_hex {c : UInt16} (h : (hexDigitVal? c).isSome = true) : isBlank c = false := by
  by_contra hblank
  have hrange := isBlank_range (by simpa using hblank)
  rw [hexDigitVal?] at h
  split_ifs at h <;> first | omega | cases h

lemma not_blank_of_b64Url {c : UInt16} (h : isB64Url c = true) : isBlank c = false := by
  by_contra hblank
  have hrange := isBlank_range (by simpa using hblank)
  rw [isB64Url, b64Sextet?] at h
  simp only [Bool.and_eq_true, bne_iff_ne, ne_eq, ← UInt16.toNat_inj, UInt16.reduceToNat] at h
  obtain ⟨-, h⟩ := h
  split_ifs at h <;> first | omega | skip
  have hdigit : (b64Val? c).isSome = true := h
  rw [not_blank_of_b64 hdigit] at hblank
  exact hblank rfl

lemma trim_of_all {p : UInt16 → Bool} (hp : ∀ c, p c = true → isBlank c = false) {s : Str}
    (h : s.all p = true) : trim s = s :=
  trim_of_no_blank fun c hc => hp c (List.all_eq_true.mp h c hc)

/-- A text of digits and then padding matches the loose pattern of its alphabet. -/
lemma padded_of_all {p : UInt16 → Bool} (hp : p 61 = false) {s pad : Str} (hs : s ≠ [])
    (h : s.all p = true) (hpad : pad.all (fun c => c == 61) = true) : padded p (s ++ pad) = true := by
  have hhead : pad.takeWhile p = [] ∧ pad.dropWhile p = pad := by
    cases pad with
    | nil => exact ⟨rfl, rfl⟩
    | cons c pad =>
        rw [List.all_cons, Bool.and_eq_true, beq_iff_eq] at hpad
        rw [List.takeWhile_cons, List.dropWhile_cons, hpad.1, hp]
        exact ⟨rfl, rfl⟩
  have htake : (s ++ pad).takeWhile p = s := by
    rw [List.takeWhile_append_of_pos (List.all_eq_true.mp h), hhead.1, List.append_nil]
  have hdrop : (s ++ pad).dropWhile p = pad := by
    rw [List.dropWhile_append_of_pos (List.all_eq_true.mp h), hhead.2]
  rw [padded, htake, hdrop, hpad, Bool.and_true, bne_iff_ne]
  exact hs

/-- A canonical spelling is read as the digest it is canonical for. -/
lemma spelledBytes_of_canonicalBytes {s : Str} {b : Bytes} (h : canonicalBytes s = some b) :
    spelledBytes s = some b := by
  rw [canonicalBytes, Option.bind_eq_some_iff] at h
  obtain ⟨d, hd, hb⟩ := h
  rw [normalizeDigest] at hd
  rw [spelledBytes]
  generalize dropSha256 (trim s) = t at hd ⊢
  dsimp only at hd
  split_ifs at hd with hhex hshape hstd hshape hurl
  · cases hd
    have hlen : (hexPairs t).length = 32 := by
      rw [isHex64, Bool.and_eq_true, beq_iff_eq] at hhex
      rw [length_hexPairs, hhex.1]
    rw [decodeDigestBytes_bytesToBase64 hlen] at hb
    cases hb
    have htrim : trim t = t := by
      rw [isHex64, Bool.and_eq_true] at hhex
      exact trim_of_all (fun _ => not_blank_of_hex) hhex.2
    rw [decodeDigestBytes]
    dsimp only
    rw [htrim, if_pos hhex]
  · cases hd
    exact hb
  · cases hd
    rw [decodeDigestBytes_bytesToBase64 hurl.1] at hb
    cases hb
    have hsplit : t.take 43 ++ t.drop 43 = t := List.take_append_drop 43 t
    have hpad : (t.drop 43).all (fun c => c == 61) = true := by
      rcases hshape.2.2 with h | h <;> rw [h] <;> rfl
    have htrim : trim t = t := by
      refine trim_of_no_blank fun c hc => ?_
      rw [← hsplit, List.mem_append] at hc
      rcases hc with hc | hc
      · exact not_blank_of_b64Url (List.all_eq_true.mp hshape.2.1 c hc)
      · rw [beq_iff_eq.mp (List.all_eq_true.mp hpad c hc)]
        decide
    have hpadded : padded isB64Url t = true := by
      rw [← hsplit]
      refine padded_of_all (by decide) ?_ hshape.2.1 hpad
      intro hnil
      have hlen := hshape.1
      rw [hnil] at hlen
      cases hlen
    rw [decodeDigestBytes]
    dsimp only
    rw [htrim, if_neg hhex, hpadded, if_pos rfl, if_pos hurl.1]
    exact ite_self _

/-! ### The scan of the evidence -/

variable {crypto : Crypto}

/-- The signature of a file verifies under the trusted key over the bytes `target`, whatever its
field `over` says. -/
structure Verifies (crypto : Crypto) (key : TrustedKey) (target : Bytes) (sig : SigFile) :
    Prop where
  alg : sig.alg = key.alg
  publicKey : sig.publicKey = key.publicKey
  signature : ∃ keyObject signature, keyObjectFor crypto key = some keyObject
    ∧ decodeB64Strict sig.signature = some signature
    ∧ (match key.alg with
      | .ed25519 => signature.length = 64 ∧ crypto.verify none
          (utf8Encode (js "bitgraph-sig/1\n" ++ bytesToHex target)) keyObject signature = some true
      | .es256 => crypto.verify (some (js "sha256"))
          (utf8Encode (js "bitgraph-sig/1\n" ++ bytesToHex target)) keyObject signature = some true)

/-- A file of the evidence is a signature of the role's digest by the named key, where `reads`
gives the bytes that its field `over` names. -/
def Signs (reads : Str → Option Bytes) (ctx : Ctx crypto) (role keyName : Str) : Prop :=
  ∃ digest key target, ctx.rule.cast.lookup role = some digest
    ∧ ctx.rule.trustedKeys.lookup keyName = some key ∧ canonicalBytes digest = some target
    ∧ ∃ file ∈ ctx.sigEvidence, ∃ sig, parseSigFile file.2 = some sig
      ∧ reads sig.overDigest = some target ∧ Verifies crypto key target sig

lemma asciiLower_bytesToHex (b : Bytes) : asciiLower (bytesToHex b) = bytesToHex b := by
  rw [asciiLower]
  conv_rhs => rw [← List.map_id (bytesToHex b)]
  refine List.map_congr_left fun c hc => ?_
  have hlower := isLowerHex_of_mem_bytesToHex hc
  rw [isLowerHex] at hlower
  simp only [Bool.or_eq_true, Bool.and_eq_true, decide_eq_true_eq] at hlower
  exact if_neg (by omega)

/-- The hexadecimal text of 32 bytes is a digest spelling. -/
lemma decodeDigestBytes_bytesToHex {b : Bytes} (h : b.length = 32) :
    decodeDigestBytes (bytesToHex b) = some b := by
  have hall : (bytesToHex b).all (fun c => (hexDigitVal? c).isSome) = true := by
    refine List.all_eq_true.mpr fun c hc => ?_
    obtain ⟨n, -, hn, -⟩ := hexDigitVal?_of_isLowerHex (isLowerHex_of_mem_bytesToHex hc)
    rw [hn]
    rfl
  have hhex : isHex64 (bytesToHex b) = true := by
    rw [isHex64, hall, length_bytesToHex, h]
    rfl
  rw [decodeDigestBytes]
  dsimp only
  rw [trim_of_all (fun _ => not_blank_of_hex) hall, if_pos hhex, hexPairs_bytesToHex]

lemma length_of_canonicalBytes {s : Str} {b : Bytes} (h : canonicalBytes s = some b) :
    b.length = 32 := by
  rw [canonicalBytes, Option.bind_eq_some_iff] at h
  obtain ⟨d, hd, hb⟩ := h
  obtain ⟨b', hb', hlen⟩ := decodeDigestBytes_normalize hd
  rw [hb] at hb'
  cases hb'
  exact hlen

/-- What the check of a signature file asks, against the target's hexadecimal text. -/
lemma verifySigFile_iff {key : TrustedKey} {keyObject : crypto.KeyObject} {target : Bytes}
    {sig : SigFile} (hkey : keyObjectFor crypto key = some keyObject) (ht : target.length = 32) :
    verifySigFile crypto sig key keyObject (bytesToHex target) = true
      ↔ spelledBytes sig.overDigest = some target ∧ Verifies crypto key target sig := by
  have hmessage : sigMessage (bytesToHex target)
      = utf8Encode (js "bitgraph-sig/1\n" ++ bytesToHex target) := by
    rw [sigMessage, asciiLower_bytesToHex]
  rw [verifySigFile, decodeDigestBytes_bytesToHex ht, ← spelledBytes]
  by_cases halg : sig.alg = key.alg
  case neg =>
    rw [if_pos halg]
    exact ⟨fun h => (nomatch h), fun h => absurd h.2.alg halg⟩
  by_cases hpublic : sig.publicKey = key.publicKey
  case neg =>
    rw [if_neg (not_not_intro halg), if_pos hpublic]
    exact ⟨fun h => (nomatch h), fun h => absurd h.2.publicKey hpublic⟩
  rw [if_neg (not_not_intro halg), if_neg (not_not_intro hpublic), halg]
  constructor
  · intro h
    cases hbytes : spelledBytes sig.overDigest with
    | none =>
        rw [hbytes] at h
        cases h
    | some bytes =>
        rw [hbytes] at h
        dsimp only at h
        split_ifs at h with heq
        have heq : bytes = target := not_not.mp heq
        cases hsignature : decodeB64Strict sig.signature with
        | none =>
            rw [hsignature] at h
            cases h
        | some signature =>
            rw [hsignature] at h
            dsimp only at h
            refine ⟨congrArg some heq, halg, hpublic, keyObject, signature, hkey, hsignature, ?_⟩
            cases hkind : key.alg with
            | ed25519 =>
                rw [hkind, hmessage] at h
                dsimp only at h ⊢
                split_ifs at h with hlen
                exact ⟨not_not.mp hlen, by simpa [Option.getD_eq_iff] using h⟩
            | es256 =>
                rw [hkind, hmessage] at h
                simpa [Option.getD_eq_iff] using h
  · rintro ⟨hbytes, -, -, keyObject', signature, hkey', hsignature, hverify⟩
    rw [hkey] at hkey'
    cases hkey'
    rw [hbytes, hsignature]
    dsimp only
    rw [if_neg (not_not_intro rfl), hmessage]
    cases hkind : key.alg with
    | ed25519 =>
        rw [hkind] at hverify
        dsimp only at hverify ⊢
        rw [if_neg (not_not_intro hverify.1), hverify.2]
        rfl
    | es256 =>
        rw [hkind] at hverify
        dsimp only at hverify ⊢
        rw [hverify]
        rfl

lemma scanSignatures_isSome_iff {key : TrustedKey} {keyObject : crypto.KeyObject}
    {targetHex : Str} {candidates : List (Str × Bytes)} {parsedCount : ℕ} :
    (scanSignatures crypto key keyObject targetHex candidates parsedCount).1.isSome = true
      ↔ ∃ file ∈ candidates, ∃ sig, parseSigFile file.2 = some sig
        ∧ verifySigFile crypto sig key keyObject targetHex = true := by
  induction candidates generalizing parsedCount with
  | nil => simp [scanSignatures]
  | cons file candidates ih =>
      obtain ⟨sha256Hex, bytes⟩ := file
      rw [scanSignatures, List.exists_mem_cons_iff]
      cases hparse : parseSigFile bytes with
      | none => simp [ih]
      | some sig =>
          dsimp only
          by_cases hverify : verifySigFile crypto sig key keyObject targetHex = true
          · simp [hverify]
          · rw [if_neg hverify, ih]
            simp [hverify]

/-- A rule as its reader leaves it: every digest of the cast has a canonical spelling. -/
def Rule.Spelled (rule : Rule) : Prop := ∀ entry ∈ rule.cast, (normalizeDigest entry.2).isSome = true

lemma Rule.Spelled.canonicalBytes {rule : Rule} (h : rule.Spelled) {role digest : Str}
    (hrole : rule.cast.lookup role = some digest) : ∃ b, canonicalBytes digest = some b := by
  obtain ⟨l, r, hcast, -⟩ := List.lookup_eq_some_iff.mp hrole
  have hmem : (role, digest) ∈ rule.cast := by
    rw [hcast]
    exact List.mem_append_right _ List.mem_cons_self
  obtain ⟨d, hd⟩ := Option.isSome_iff_exists.mp (h _ hmem)
  obtain ⟨b, hb, -⟩ := decodeDigestBytes_normalize hd
  exact ⟨b, by rw [Player.canonicalBytes, hd, Option.bind_some, hb]⟩

/-- The step of a signature claim: true when a file signs the role's digest as the check reads
it, undetermined otherwise. -/
lemma signedByStep_cases {ctx : Ctx crypto} (hrule : ctx.rule.Spelled) (role keyName : Str) :
    ∃ step, signedByStep ctx role keyName = .ok step
      ∧ (Signs spelledBytes ctx role keyName ∧ step.result = TRUE
        ∨ ¬ Signs spelledBytes ctx role keyName ∧ step.result = UNDETERMINED) := by
  rw [signedByStep]
  dsimp only
  cases hrole : ctx.rule.cast.lookup role with
  | none =>
      refine ⟨_, rfl, .inr ⟨?_, rfl⟩⟩
      rintro ⟨digest, key, target, hrole', -⟩
      rw [hrole] at hrole'
      cases hrole'
  | some digest =>
      cases hname : ctx.rule.trustedKeys.lookup keyName with
      | none =>
          refine ⟨_, rfl, .inr ⟨?_, rfl⟩⟩
          rintro ⟨digest, key, target, -, hname', -⟩
          rw [hname] at hname'
          cases hname'
      | some key =>
          obtain ⟨target, htarget⟩ := hrule.canonicalBytes hrole
          have hlen := length_of_canonicalBytes htarget
          have hhex : targetHexOf digest = .ok (bytesToHex target) := by
            rw [targetHexOf, ← Player.canonicalBytes, htarget]
          have hsigns : Signs spelledBytes ctx role keyName ↔ ∃ file ∈ ctx.sigEvidence, ∃ sig,
              parseSigFile file.2 = some sig ∧ spelledBytes sig.overDigest = some target
              ∧ Verifies crypto key target sig := by
            constructor
            · rintro ⟨digest', key', target', hrole', hname', htarget', hfile⟩
              rw [hrole] at hrole'
              cases hrole'
              rw [hname] at hname'
              cases hname'
              rw [htarget] at htarget'
              cases htarget'
              exact hfile
            · exact fun hfile => ⟨digest, key, target, hrole, hname, htarget, hfile⟩
          cases hkey : keyObjectFor crypto key with
          | none =>
              refine ⟨_, by simp only [hkey]; rfl, .inr ⟨?_, rfl⟩⟩
              rw [hsigns]
              rintro ⟨file, -, sig, -, -, hverifies⟩
              obtain ⟨keyObject, signature, hkey', -⟩ := hverifies.signature
              rw [hkey] at hkey'
              cases hkey'
          | some keyObject =>
              have hscan := @scanSignatures_isSome_iff crypto key keyObject (bytesToHex target)
                (ctx.sigEvidence.insertionSort fun a b => a.1 ≤ b.1) 0
              simp only [List.mem_insertionSort, verifySigFile_iff hkey hlen] at hscan
              rw [← hsigns] at hscan
              simp only [hkey, hhex, ok_bind]
              generalize scanSignatures crypto key keyObject (bytesToHex target)
                (ctx.sigEvidence.insertionSort fun a b => a.1 ≤ b.1) 0 = scanned at hscan ⊢
              obtain ⟨found, parsedCount⟩ := scanned
              cases found with
              | none => exact ⟨_, rfl, .inr ⟨fun h => (nomatch hscan.mpr h), rfl⟩⟩
              | some sha256Hex => exact ⟨_, rfl, .inl ⟨hscan.mp rfl, rfl⟩⟩

/-! ### The claim -/

/-- The claim evaluates to `v`, whatever was recorded before. -/
def EvalsTo (ctx : Ctx crypto) (claim : Claim) (v : ThreeValued) : Prop :=
  ∀ trace, ∃ trace', evalClaim ctx claim trace = .ok (v, trace')

lemma EvalsTo.unique {ctx : Ctx crypto} {claim : Claim} {v w : ThreeValued} {trace trace' : Trace}
    (h : EvalsTo ctx claim v) (hw : evalClaim ctx claim trace = .ok (w, trace')) : w = v := by
  obtain ⟨trace'', hv⟩ := h trace
  rw [hv] at hw
  cases hw
  rfl

lemma signedBy_cases {ctx : Ctx crypto} (hrule : ctx.rule.Spelled) (role keyName : Str) :
    Signs spelledBytes ctx role keyName ∧ EvalsTo ctx (.signedBy role keyName) TRUE
      ∨ ¬ Signs spelledBytes ctx role keyName
        ∧ EvalsTo ctx (.signedBy role keyName) UNDETERMINED := by
  obtain ⟨step, hstep, hcases⟩ := signedByStep_cases hrule role keyName
  have heval : EvalsTo ctx (.signedBy role keyName) step.result := by
    intro trace
    refine ⟨{ trace with steps := trace.steps ++ [step] }, ?_⟩
    rw [evalClaim, evalSignedBy, hstep]
    rfl
  rcases hcases with ⟨hsigns, hresult⟩ | ⟨hsigns, hresult⟩
  · exact .inl ⟨hsigns, hresult ▸ heval⟩
  · exact .inr ⟨hsigns, hresult ▸ heval⟩

/-- **The code's own rule**: a signature claim is true when a file signs the role's digest in any
spelling that the check takes. -/
theorem signedBy_true_iff {ctx : Ctx crypto} (hrule : ctx.rule.Spelled) (role keyName : Str) :
    EvalsTo ctx (.signedBy role keyName) TRUE ↔ Signs spelledBytes ctx role keyName := by
  rcases signedBy_cases hrule role keyName with ⟨hsigns, heval⟩ | ⟨hsigns, heval⟩
  · exact iff_of_true heval hsigns
  · refine iff_of_false (fun htrue => ?_) hsigns
    obtain ⟨trace', h⟩ := htrue ⟨[], []⟩
    cases heval.unique h

/-- The context with other files of evidence. -/
def Ctx.withEvidence (ctx : Ctx crypto) (evidence : List (Str × Bytes)) : Ctx crypto :=
  { ctx with sigEvidence := evidence }

lemma Signs.mono {reads : Str → Option Bytes} {ctx : Ctx crypto} {role keyName : Str}
    {evidence : List (Str × Bytes)} (h : Signs reads ctx role keyName)
    (hmore : ctx.sigEvidence ⊆ evidence) : Signs reads (ctx.withEvidence evidence) role keyName := by
  obtain ⟨digest, key, target, hrole, hname, htarget, file, hfile, hsig⟩ := h
  exact ⟨digest, key, target, hrole, hname, htarget, file, hmore hfile, hsig⟩

/-! ### Negated signature claims -/

/-- Every claim at a leaf is a signature claim, under exactly `n` negations. -/
inductive Claim.UnderNots : ℕ → Claim → Prop
  | signedBy (role keyName : Str) : UnderNots 0 (.signedBy role keyName)
  | not {n : ℕ} {claim : Claim} (h : UnderNots n claim) : UnderNots (n + 1) (.not claim)
  | all {n : ℕ} {claims : List Claim} (hne : claims ≠ []) (h : ∀ c ∈ claims, UnderNots n c) :
      UnderNots n (.all claims)
  | any {n : ℕ} {claims : List Claim} (hne : claims ≠ []) (h : ∀ c ∈ claims, UnderNots n c) :
      UnderNots n (.any claims)

/-- The value that signature claims under `n` negations never have. -/
def barred (n : ℕ) : ThreeValued := if n % 2 = 0 then FALSE else TRUE

lemma barred_ne_undetermined (n : ℕ) : barred n ≠ UNDETERMINED := by
  rw [barred]
  split_ifs <;> decide

lemma kleeneNot_ne_barred {n : ℕ} {v : ThreeValued} (h : v ≠ barred n) :
    kleeneNot v ≠ barred (n + 1) := by
  rw [barred] at h ⊢
  rcases Nat.mod_two_eq_zero_or_one n with hn | hn
  · rw [if_pos hn] at h
    rw [if_neg (by omega)]
    cases v with
    | TRUE => decide
    | FALSE => exact absurd rfl h
    | UNDETERMINED => decide
  · rw [if_neg (by omega)] at h
    rw [if_pos (by omega)]
    cases v with
    | TRUE => exact absurd rfl h
    | FALSE => decide
    | UNDETERMINED => decide

/-- A list of claims that each evaluate evaluates. -/
lemma evalClaims_of_evalsTo {ctx : Ctx crypto} {P : ThreeValued → Prop} {claims : List Claim}
    (h : ∀ c ∈ claims, ∃ v, EvalsTo ctx c v ∧ P v) :
    ∃ values, values.length = claims.length ∧ (∀ v ∈ values, P v)
      ∧ ∀ trace, ∃ trace', evalClaims ctx claims trace = .ok (values, trace') := by
  induction claims with
  | nil => exact ⟨[], rfl, fun _ hv => (nomatch hv), fun trace => ⟨trace, rfl⟩⟩
  | cons claim claims ih =>
      obtain ⟨v, hv, hP⟩ := h claim List.mem_cons_self
      obtain ⟨values, hlen, hPs, hvalues⟩ := ih fun c hc => h c (List.mem_cons_of_mem _ hc)
      refine ⟨v :: values, congrArg (· + 1) hlen, List.forall_mem_cons.mpr ⟨hP, hPs⟩, fun trace => ?_⟩
      obtain ⟨trace₁, h₁⟩ := hv trace
      obtain ⟨trace₂, h₂⟩ := hvalues trace₁
      refine ⟨trace₂, ?_⟩
      rw [evalClaims]
      dsimp only
      rw [h₁, ok_bind]
      dsimp only
      rw [h₂]
      rfl

lemma EvalsTo.not {ctx : Ctx crypto} {claim : Claim} {v : ThreeValued} (h : EvalsTo ctx claim v) :
    EvalsTo ctx (.not claim) (kleeneNot v) := by
  intro trace
  obtain ⟨trace', h'⟩ := h trace
  refine ⟨trace', ?_⟩
  rw [evalClaim]
  dsimp only
  rw [h']
  rfl

lemma evalsTo_all {ctx : Ctx crypto} {claims : List Claim} {values : List ThreeValued}
    (h : ∀ trace, ∃ trace', evalClaims ctx claims trace = .ok (values, trace')) :
    EvalsTo ctx (.all claims) (kleeneAll values) := by
  intro trace
  obtain ⟨trace', h'⟩ := h trace
  refine ⟨trace', ?_⟩
  rw [evalClaim]
  dsimp only
  rw [h']
  rfl

lemma evalsTo_any {ctx : Ctx crypto} {claims : List Claim} {values : List ThreeValued}
    (h : ∀ trace, ∃ trace', evalClaims ctx claims trace = .ok (values, trace')) :
    EvalsTo ctx (.any claims) (kleeneAny values) := by
  intro trace
  obtain ⟨trace', h'⟩ := h trace
  refine ⟨trace', ?_⟩
  rw [evalClaim]
  dsimp only
  rw [h']
  rfl

lemma ne_nil_of_length {α β : Type} {l : List α} {m : List β} (h : l.length = m.length)
    (hm : m ≠ []) : l ≠ [] :=
  fun hnil => hm (List.length_eq_zero_iff.mp (h ▸ congrArg List.length hnil))

/-- Signature claims under `n` negations evaluate, and never to the barred value. -/
lemma underNots_ne {ctx : Ctx crypto} (hrule : ctx.rule.Spelled) {n : ℕ} {claim : Claim}
    (h : claim.UnderNots n) : ∃ v, EvalsTo ctx claim v ∧ v ≠ barred n := by
  induction h with
  | signedBy role keyName =>
      rcases signedBy_cases hrule role keyName with ⟨-, heval⟩ | ⟨-, heval⟩
      · exact ⟨TRUE, heval, by decide⟩
      · exact ⟨UNDETERMINED, heval, by decide⟩
  | not _ ih =>
      obtain ⟨v, hv, hne⟩ := ih
      exact ⟨kleeneNot v, hv.not, kleeneNot_ne_barred hne⟩
  | all hne _ ih =>
      obtain ⟨values, hlen, hvalues, heval⟩ := evalClaims_of_evalsTo ih
      refine ⟨kleeneAll values, evalsTo_all heval, ?_⟩
      rw [kleeneAll, kleeneAllFrom_eq]
      exact all_ne (ne_nil_of_length hlen hne) (barred_ne_undetermined _) hvalues
  | any hne _ ih =>
      obtain ⟨values, hlen, hvalues, heval⟩ := evalClaims_of_evalsTo ih
      refine ⟨kleeneAny values, evalsTo_any heval, ?_⟩
      rw [kleeneAny, kleeneAnyFrom_eq]
      exact any_ne (ne_nil_of_length hlen hne) (barred_ne_undetermined _) hvalues

/-! ### The specification -/

/-- The bytes of a spelling that is taken although it is not canonical. -/
def looseBytes (s : Str) : Option Bytes := if normalizeDigest s = none then spelledBytes s else none

lemma spelledBytes_iff {s : Str} {b : Bytes} :
    spelledBytes s = some b ↔ canonicalBytes s = some b ∨ looseBytes s = some b := by
  rw [looseBytes]
  cases hd : normalizeDigest s with
  | none => simp [canonicalBytes, hd]
  | some d =>
      obtain ⟨b', hb', -⟩ := decodeDigestBytes_normalize hd
      have hcanonical : canonicalBytes s = some b' := by rw [canonicalBytes, hd, Option.bind_some, hb']
      rw [spelledBytes_of_canonicalBytes hcanonical, hcanonical]
      simp

lemma signs_spelled_iff {ctx : Ctx crypto} {role keyName : Str} :
    Signs spelledBytes ctx role keyName
      ↔ Signs canonicalBytes ctx role keyName ∨ Signs looseBytes ctx role keyName := by
  constructor
  · rintro ⟨digest, key, target, hrole, hname, htarget, file, hfile, sig, hparse, hread, hsig⟩
    rcases spelledBytes_iff.mp hread with hread | hread
    · exact .inl ⟨digest, key, target, hrole, hname, htarget, file, hfile, sig, hparse, hread, hsig⟩
    · exact .inr ⟨digest, key, target, hrole, hname, htarget, file, hfile, sig, hparse, hread, hsig⟩
  · rintro (⟨digest, key, target, hrole, hname, htarget, file, hfile, sig, hparse, hread, hsig⟩
      | ⟨digest, key, target, hrole, hname, htarget, file, hfile, sig, hparse, hread, hsig⟩)
    · exact ⟨digest, key, target, hrole, hname, htarget, file, hfile, sig, hparse,
        spelledBytes_iff.mpr (.inl hread), hsig⟩
    · exact ⟨digest, key, target, hrole, hname, htarget, file, hfile, sig, hparse,
        spelledBytes_iff.mpr (.inr hread), hsig⟩

/-- What sections 9.2 and 9.3 of the specification say of a signature claim of a rule. -/
structure FollowsSpec (ctx : Ctx crypto) (role keyName : Str) : Prop where
  true_iff : EvalsTo ctx (.signedBy role keyName) TRUE ↔ Signs canonicalBytes ctx role keyName
  otherwise : ¬ Signs canonicalBytes ctx role keyName →
    EvalsTo ctx (.signedBy role keyName) UNDETERMINED
  never_false : ∀ trace v trace', evalClaim ctx (.signedBy role keyName) trace = .ok (v, trace') →
    v ≠ FALSE
  more : ∀ evidence, ctx.sigEvidence ⊆ evidence → EvalsTo ctx (.signedBy role keyName) TRUE →
    EvalsTo (ctx.withEvidence evidence) (.signedBy role keyName) TRUE
  negated : ctx.rule.claim.UnderNots 1 → ∀ e,
    evaluate crypto ctx.rule ctx.resolutions ctx.audit ctx.sigEvidence = .ok e → e.result ≠ TRUE

/-- A signature claim follows the specification exactly when no file signs by a spelling of the
digest that is not canonical, unless one signs by a canonical spelling too. -/
theorem followsSpec_iff (ctx : Ctx crypto) (hrule : ctx.rule.Spelled) (role keyName : Str) :
    FollowsSpec ctx role keyName
      ↔ (Signs looseBytes ctx role keyName → Signs canonicalBytes ctx role keyName) := by
  have htrue := signedBy_true_iff hrule role keyName
  constructor
  · intro h hloose
    exact h.true_iff.mp (htrue.mpr (signs_spelled_iff.mpr (.inr hloose)))
  · intro hcover
    have hiff : Signs spelledBytes ctx role keyName ↔ Signs canonicalBytes ctx role keyName :=
      signs_spelled_iff.trans ⟨fun h => h.elim id hcover, .inl⟩
    refine ⟨htrue.trans hiff, fun hnot => ?_, fun trace v trace' heval hfalse => ?_,
      fun evidence hmore h => ?_, fun hclaim e he => ?_⟩
    · rcases signedBy_cases hrule role keyName with ⟨hsigns, -⟩ | ⟨-, heval⟩
      · exact absurd (hiff.mp hsigns) hnot
      · exact heval
    · rcases signedBy_cases hrule role keyName with ⟨-, h⟩ | ⟨-, h⟩
      · cases hfalse.symm.trans (h.unique heval)
      · cases hfalse.symm.trans (h.unique heval)
    · have hmono := (htrue.mp h).mono hmore
      exact (@signedBy_true_iff crypto (ctx.withEvidence evidence) hrule role keyName).mpr hmono
    · obtain ⟨v, hv, hne⟩ := underNots_ne hrule hclaim
      obtain ⟨trace', hv'⟩ := hv ⟨[], []⟩
      rw [evaluate] at he
      dsimp only at he
      rw [hv'] at he
      cases he
      exact hne

/-! ### A spelling that is not canonical -/

/-- A trusted Ed25519 key. -/
def trustedKey : TrustedKey := ⟨.ed25519, js "iojj3XQJ8ZX9UtstPLpdcspnCb8dlBIb83SIAbQPb1w="⟩

/-- The key's signature over 32 zero bytes. -/
def zeroSignature : Bytes :=
  [5, 174, 149, 47, 123, 6, 9, 169, 148, 17, 180, 58, 227, 212, 74, 237, 234, 140, 0, 174, 135, 98,
    24, 169, 25, 183, 79, 188, 36, 127, 76, 117, 174, 139, 124, 18, 18, 145, 19, 139, 152, 175,
    151, 179, 2, 163, 195, 173, 204, 234, 80, 127, 119, 253, 112, 171, 149, 77, 148, 9, 207, 178,
    226, 12]

/-- Ed25519 on the one signature above. -/
def signatureCrypto : Crypto where
  KeyObject := Bytes
  createPublicKey der := some der
  asymmetricKeyType _ := some (js "ed25519")
  namedCurve _ := none
  verify _ message keyObject signature :=
    some (message = sigMessage (js "0000000000000000000000000000000000000000000000000000000000000000")
      && keyObject = ed25519SpkiPrefix ++ (decodeB64Strict trustedKey.publicKey).getD []
      && signature = zeroSignature)

/-- A signature file over a spelling of 32 zero bytes. -/
def zeroSigFile (overDigest : Str) : Bytes :=
  utf8Encode (js "\x7b\"sig\":\"bitgraph-sig/1\",\"over\":\"" ++ overDigest
    ++ js "\",\"alg\":\"ed25519\",\"publicKey\":\"" ++ trustedKey.publicKey
    ++ js "\",\"signature\":\"" ++ bytesToBase64 zeroSignature ++ js "\"\x7d")

/-- A rule that asks for the signature, with one file of evidence. -/
def zeroCtx (overDigest : Str) : Ctx signatureCrypto where
  rule := ⟨[(js "doc", js "AAAAAAAAAAAAAAAAAAAAAAAAAAAAAAAAAAAAAAAAAAA=")], .hashLinked,
    [(js "author", trustedKey)], .not (.signedBy (js "doc") (js "author"))⟩
  resolutions := []
  audit := ⟨[], [], [], [], List.nodup_nil, List.nodup_nil⟩
  sigEvidence := [(js "f", zeroSigFile overDigest)]

lemma zeroCtx_spelled (overDigest : Str) : (zeroCtx overDigest).rule.Spelled := by
  intro entry hentry
  rw [List.mem_singleton.mp hentry]
  decide +kernel

theorem followsSpec_iff_canonical :
    FollowsSpec (zeroCtx (js "AAAAAAAAAAAAAAAAAAAAAAAAAAAAAAAAAAAAAAAAAAA=")) (js "doc") (js "author")
      ↔ (Signs looseBytes (zeroCtx (js "AAAAAAAAAAAAAAAAAAAAAAAAAAAAAAAAAAAAAAAAAAA="))
            (js "doc") (js "author") →
          Signs canonicalBytes (zeroCtx (js "AAAAAAAAAAAAAAAAAAAAAAAAAAAAAAAAAAAAAAAAAAA="))
            (js "doc") (js "author")) :=
  followsSpec_iff _ (zeroCtx_spelled _) _ _

/-- The spelling of 32 zero bytes with a bit in its padding. -/
def looseZero : Str := js "AAAAAAAAAAAAAAAAAAAAAAAAAAAAAAAAAAAAAAAAAAB="

/-- 32 zero bytes. -/
def zeroBytes : Bytes := List.replicate 32 0

lemma looseZero_facts :
    parseSigFile (zeroSigFile looseZero)
        = some ⟨looseZero, .ed25519, trustedKey.publicKey, bytesToBase64 zeroSignature⟩
      ∧ canonicalBytes (js "AAAAAAAAAAAAAAAAAAAAAAAAAAAAAAAAAAAAAAAAAAA=") = some zeroBytes
      ∧ spelledBytes looseZero = some zeroBytes ∧ canonicalBytes looseZero = none
      ∧ decodeB64Strict (bytesToBase64 zeroSignature) = some zeroSignature := by
  decide +kernel

lemma trustedKey_facts :
    ∃ keyObject : Bytes, keyObjectFor signatureCrypto trustedKey = some keyObject
      ∧ signatureCrypto.verify none (utf8Encode (js "bitgraph-sig/1\n" ++ bytesToHex zeroBytes))
        keyObject zeroSignature = some true := by
  have hmaterial : decodeB64Strict trustedKey.publicKey
      = some ((decodeB64Strict trustedKey.publicKey).getD [])
      ∧ ((decodeB64Strict trustedKey.publicKey).getD []).length = 32
      ∧ utf8Encode (js "bitgraph-sig/1\n" ++ bytesToHex zeroBytes)
        = sigMessage (js "0000000000000000000000000000000000000000000000000000000000000000") := by
    decide +kernel
  obtain ⟨hmaterial, hlen, hmessage⟩ := hmaterial
  refine ⟨ed25519SpkiPrefix ++ (decodeB64Strict trustedKey.publicKey).getD [], ?_, ?_⟩
  · rw [keyObjectFor, hmaterial, Option.bind_eq_bind, Option.bind_some]
    exact if_neg (not_not_intro hlen)
  · rw [hmessage]
    simp [signatureCrypto]

/-- **The failing input**: a signature file whose `over` spells the digest with a bit in its
padding makes the claim true. -/
theorem loose_spelling_counts : ∃ (crypto : Crypto) (ctx : Ctx crypto) (role keyName : Str),
    ctx.rule.Spelled ∧ ¬ FollowsSpec ctx role keyName := by
  refine ⟨signatureCrypto, zeroCtx looseZero, js "doc", js "author", zeroCtx_spelled _, fun h => ?_⟩
  obtain ⟨hparse, hdigest, hspelled, hloose, hdecode⟩ := looseZero_facts
  obtain ⟨keyObject, hkey, hverify⟩ := trustedKey_facts
  have hcounts : Signs spelledBytes (zeroCtx looseZero) (js "doc") (js "author") :=
    ⟨_, trustedKey, zeroBytes, rfl, rfl, hdigest, _, List.mem_singleton_self _, _, hparse, hspelled,
      rfl, rfl, keyObject, zeroSignature, hkey, hdecode, rfl, hverify⟩
  have htrue := (signedBy_true_iff (zeroCtx_spelled looseZero) _ _).mpr hcounts
  obtain ⟨_, _, _, _, _, _, file, hfile, sig, hsig, hread, -⟩ := h.true_iff.mp htrue
  rw [List.mem_singleton.mp hfile, hparse] at hsig
  cases hsig
  rw [hloose] at hread
  cases hread

end Player

end BitGraph
