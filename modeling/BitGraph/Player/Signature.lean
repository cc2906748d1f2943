import BitGraph.Js.JsonText
import BitGraph.Js.Convert
import BitGraph.Codec
import Mathlib.Data.List.TakeWhile

/-!
Digest spellings and detached signatures.

* **Digests.** `normalizeDigest` accepts the spellings of a SHA-256 digest in a rule and gives
  its base64 form; `decodeDigestBytes` reads any spelling as bytes. `decodeDigestBytes_normalize`
  says that the one reads what the other gives.
* **Signatures.** `parseSigFile` reads a signature file, `keyObjectFor` a trusted key, and
  `verifySigFile` checks one against the other. The signature algorithms are parameters.
-/

namespace BitGraph

open Js

namespace Player

/-! ### Digests -/

/-- `Buffer.toString("base64url")`. -/
def base64url (b : Bytes) : Str :=
  ((bytesToBase64 b).filter fun c => c != 61).map fun c =>
    if c = 43 then 45 else if c = 47 then 95 else c

/-- Lower case of ASCII letters; nothing else lowers to a letter of the texts compared here. -/
def asciiLower (s : Str) : Str :=
  s.map fun c => if 65 ≤ c.toNat ∧ c.toNat ≤ 90 then c + 32 else c

/-- The pattern `^[0-9a-fA-F]{64}$`. -/
def isHex64 (s : Str) : Bool := s.length == 64 && s.all fun c => (hexDigitVal? c).isSome

/-- A digit of the URL alphabet. -/
def isB64Url (c : UInt16) : Bool := c != 43 && c != 47 && (b64Sextet? c).isSome

/-- The text without its trailing padding. -/
def stripPad (s : Str) : Str := (s.reverse.dropWhile fun c => c == 61).reverse

/-- The pattern `^[A]+=*$` for an alphabet `A`. -/
def padded (digit : UInt16 → Bool) (s : Str) : Bool :=
  s.takeWhile digit != [] && (s.dropWhile digit).all fun c => c == 61

/-- The pattern `^[A-Za-z0-9+/]+=*$`. -/
def isB64Loose (s : Str) : Bool := padded (fun c => (b64Val? c).isSome) s

/-- Text after the prefix `sha256:`, in either case. -/
def dropSha256 (s : Str) : Str :=
  if js "sha256:" <+: asciiLower s then s.drop 7 else s

/-- The standard base64 form of a canonical digest spelling. -/
def normalizeDigest (input : Str) : Option Str :=
  let s := dropSha256 (trim input)
  if isHex64 s then some (bytesToBase64 (hexPairs s))
  else if s.length = 44 ∧ (s.take 43).all (fun c => (b64Val? c).isSome) = true ∧ s.drop 43 = [61] then
    let bytes := bufferFromBase64 s
    if bytes.length = 32 ∧ bytesToBase64 bytes = s then some s else none
  else if (s.take 43).length = 43 ∧ (s.take 43).all isB64Url = true
      ∧ (s.drop 43 = [] ∨ s.drop 43 = [61]) then
    let bytes := bufferFromBase64 s
    if bytes.length = 32 ∧ base64url bytes = stripPad s then some (bytesToBase64 bytes) else none
  else none

/-- The bytes of a digest in any spelling. -/
def decodeDigestBytes (input : Str) : Option Bytes :=
  let s := trim input
  if isHex64 s then some (hexPairs s)
  else if isB64Loose s then
    let bytes := bufferFromBase64 s
    if bytes.length = 32 then some bytes else none
  else if padded isB64Url s then
    let bytes := bufferFromBase64 s
    if bytes.length = 32 then some bytes else none
  else none

lemma trim_of_no_blank {s : Str} (h : ∀ c ∈ s, isBlank c = false) : trim s = s := by
  have hdrop : ∀ {t : Str}, (∀ c ∈ t, isBlank c = false) → t.dropWhile isBlank = t := by
    intro t ht
    cases t with
    | nil => rfl
    | cons c t =>
        rw [List.dropWhile_cons, ht c List.mem_cons_self]
        rfl
  rw [trim, hdrop h, hdrop fun c hc => h c (List.mem_reverse.mp hc), List.reverse_reverse]

lemma isBlank_range {c : UInt16} (h : isBlank c = true) :
    c.toNat ≤ 13 ∨ c.toNat = 32 ∨ 160 ≤ c.toNat := by
  rw [isBlank] at h
  simp only [Bool.or_eq_true, Bool.and_eq_true, decide_eq_true_eq, beq_iff_eq,
    ← UInt16.toNat_inj] at h
  simp only [UInt16.reduceToNat] at h
  omega

lemma not_blank_of_b64 {c : UInt16} (h : (b64Val? c).isSome = true) : isBlank c = false := by
  by_contra hblank
  have hrange := isBlank_range (by simpa using hblank)
  rw [b64Val?] at h
  simp only [← UInt16.toNat_inj, UInt16.reduceToNat] at h
  split_ifs at h <;> first | omega | cases h

/-- The base64 text of 32 bytes is a digest spelling. -/
lemma decodeDigestBytes_bytesToBase64 {b : Bytes} (h : b.length = 32) :
    decodeDigestBytes (bytesToBase64 b) = some b := by
  have hlen : (bytesToBase64 b).length = 44 := by rw [length_bytesToBase64, h]
  have hrest : (bytesToBase64 b).dropWhile (fun c => (b64Val? c).isSome) = []
      ∨ (bytesToBase64 b).dropWhile (fun c => (b64Val? c).isSome) = [61]
      ∨ (bytesToBase64 b).dropWhile (fun c => (b64Val? c).isSome) = [61, 61] := by
    have hpattern := b64Pattern_bytesToBase64 b
    simpa [b64Pattern, or_assoc] using hpattern
  have hsplit := List.takeWhile_append_dropWhile (p := fun c => (b64Val? c).isSome)
    (l := bytesToBase64 b)
  have htrim : trim (bytesToBase64 b) = bytesToBase64 b := by
    refine trim_of_no_blank fun c hc => ?_
    rw [← hsplit, List.mem_append] at hc
    rcases hc with hc | hc
    · have hdigit := List.mem_takeWhile_imp (p := fun c => (b64Val? c).isSome) hc
      exact not_blank_of_b64 hdigit
    · have hpad : c = 61 := by
        rcases hrest with hr | hr | hr <;> rw [hr] at hc
        · cases hc
        · exact List.mem_singleton.mp hc
        · simpa using hc
      rw [hpad]
      decide
  have hloose : isB64Loose (bytesToBase64 b) = true := by
    rw [isB64Loose, padded, Bool.and_eq_true, bne_iff_ne]
    constructor
    · intro hnil
      have hlen' := congrArg List.length hsplit
      rw [hnil, List.nil_append, hlen] at hlen'
      rcases hrest with hr | hr | hr <;> rw [hr] at hlen' <;> simp at hlen'
    · rcases hrest with hr | hr | hr <;> rw [hr] <;> decide
  have hhex : isHex64 (bytesToBase64 b) = false := by
    rw [isHex64, hlen]
    rfl
  rw [decodeDigestBytes]
  dsimp only
  rw [htrim, hhex, hloose, bufferFromBase64_bytesToBase64, if_neg Bool.false_ne_true,
    if_pos rfl, if_pos h]

lemma length_hexPairs : ∀ s : Str, (hexPairs s).length = s.length / 2
  | [] => rfl
  | [_] => by simp [hexPairs]
  | _ :: _ :: s => by
      rw [hexPairs, List.length_cons, length_hexPairs s, List.length_cons, List.length_cons]
      omega

/-- What a rule's digest is normalized to is read as 32 bytes. -/
theorem decodeDigestBytes_normalize {s d : Str} (h : normalizeDigest s = some d) :
    ∃ b, decodeDigestBytes d = some b ∧ b.length = 32 := by
  have hform : ∃ b : Bytes, d = bytesToBase64 b ∧ b.length = 32 := by
    rw [normalizeDigest] at h
    dsimp only at h
    split_ifs at h with hhex _ hstd _ hurl
    · cases h
      refine ⟨_, rfl, ?_⟩
      rw [isHex64, Bool.and_eq_true, beq_iff_eq] at hhex
      rw [length_hexPairs, hhex.1]
    · cases h
      exact ⟨_, hstd.2.symm, hstd.1⟩
    · cases h
      exact ⟨_, rfl, hurl.1⟩
  obtain ⟨b, rfl, hb⟩ := hform
  exact ⟨b, decodeDigestBytes_bytesToBase64 hb, hb⟩

/-! ### Signatures -/

/-- The signature algorithms of a rule. -/
inductive SigAlg where
  | ed25519
  | es256
  deriving DecidableEq

def SigAlg.text : SigAlg → Str
  | ed25519 => js "ed25519"
  | es256 => js "es256"

/-- A key that the author of a rule trusts. -/
structure TrustedKey where
  alg : SigAlg
  publicKey : Str
  deriving DecidableEq

/-- A signature file; `overDigest` is its field `over`. -/
structure SigFile where
  overDigest : Str
  alg : SigAlg
  publicKey : Str
  signature : Str
  deriving DecidableEq

/-- The algorithms of `node:crypto`; `none` is a thrown error. -/
structure Crypto where
  KeyObject : Type
  createPublicKey : Bytes → Option KeyObject
  asymmetricKeyType : KeyObject → Option Str
  namedCurve : KeyObject → Option Str
  verify : Option Str → Bytes → KeyObject → Bytes → Option Bool

/-- The prefix of the DER form of a raw Ed25519 key. -/
def ed25519SpkiPrefix : Bytes := hexPairs (js "302a300506032b6570032100")

/-- The message a signature covers. -/
def sigMessage (targetSha256Hex : Str) : Bytes :=
  utf8Encode (js "bitgraph-sig/1\n" ++ asciiLower targetSha256Hex)

def parseSigAlg (v : Value) : Option SigAlg :=
  if v = .str (js "ed25519") then some .ed25519
  else if v = .str (js "es256") then some .es256 else none

def nonEmptyText (v : Value) : Option Str :=
  match v with
  | .str s => if s = [] then none else some s
  | _ => none

/-- A signature file, or nothing. -/
def parseSigFile (bytes : Bytes) : Option SigFile := do
  let raw ← parse (bufferToString bytes)
  let .obj _ := raw | none
  if raw.get (js "sig") ≠ .str (js "bitgraph-sig/1") then none
  else
    let overDigest ← nonEmptyText (raw.get (js "over"))
    let alg ← parseSigAlg (raw.get (js "alg"))
    let publicKey ← nonEmptyText (raw.get (js "publicKey"))
    let signature ← nonEmptyText (raw.get (js "signature"))
    return ⟨overDigest, alg, publicKey, signature⟩

/-- Base64 that spells its bytes canonically. -/
def decodeB64Strict (s : Str) : Option Bytes :=
  if isB64Loose s = true ∧ bytesToBase64 (bufferFromBase64 s) = s then some (bufferFromBase64 s)
  else none

/-- The key object of a trusted key, when its material is well formed. -/
def keyObjectFor (crypto : Crypto) (key : TrustedKey) : Option crypto.KeyObject := do
  let material ← decodeB64Strict key.publicKey
  match key.alg with
  | .ed25519 =>
    if material.length ≠ 32 then none
    else crypto.createPublicKey (ed25519SpkiPrefix ++ material)
  | .es256 =>
    let keyObject ← crypto.createPublicKey material
    if crypto.asymmetricKeyType keyObject ≠ some (js "ec")
        ∨ crypto.namedCurve keyObject ≠ some (js "prime256v1") then none
    else some keyObject

/-- Whether a signature file is by the trusted key over the target. -/
def verifySigFile (crypto : Crypto) (sig : SigFile) (key : TrustedKey)
    (keyObject : crypto.KeyObject) (targetSha256Hex : Str) : Bool :=
  if sig.alg ≠ key.alg then false
  else if sig.publicKey ≠ key.publicKey then false
  else match decodeDigestBytes (dropSha256 (trim sig.overDigest)), decodeDigestBytes targetSha256Hex with
    | some overBytes, some targetBytes =>
      if overBytes ≠ targetBytes then false
      else match decodeB64Strict sig.signature with
        | none => false
        | some signature =>
          let message := sigMessage targetSha256Hex
          match sig.alg with
          | .ed25519 =>
            if signature.length ≠ 64 then false
            else (crypto.verify none message keyObject signature).getD false
          | .es256 => (crypto.verify (some (js "sha256")) message keyObject signature).getD false
    | _, _ => false

end Player

end BitGraph
