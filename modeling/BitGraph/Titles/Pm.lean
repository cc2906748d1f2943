import BitGraph.Js.Indent
import BitGraph.Player.Signature
import BitGraph.Sha256

/-!
`bitgraph-pm/1`: possession messages.

* **Text.** `serializePm` is the canonical text of a message, `pmSigningBytes` what its signature covers.
* **Parser.** `parsePm` reads a message and collects what is wrong with it; a file that is not the canonical text
  of what was read is refused. `parsePm_eq_ok`: what is accepted are the canonical texts of the messages that
  are `WellFormed`.
* **Check.** `checkPm` verifies the signature, and the possession hash where the subject is there.
-/

namespace BitGraph

open Js

namespace Titles

open Player (SigAlg Crypto parseSigAlg nonEmptyText asciiLower keyObjectFor)

def PM_VERSION : Str := js "bitgraph-pm/1"

def POSSESSION_DOMAIN : Str := js "bitgraph-pm-possession/1\n"

inductive PmClaim where
  | held
  | give
  | take
  | controlsKey
  | supersedes
  deriving DecidableEq

def PmClaim.text : PmClaim → Str
  | held => js "held"
  | give => js "give"
  | take => js "take"
  | controlsKey => js "controls-key"
  | supersedes => js "supersedes"

def CLAIMS : List PmClaim := [.held, .give, .take, .controlsKey, .supersedes]

/-- A public key, spelled like a trusted key. -/
abbrev PmKeyRef := Player.TrustedKey

/-- A possession message; `recipient` is its field `to`. -/
structure Pm where
  about : Str
  claim : PmClaim
  re : Option Str
  recipient : Option PmKeyRef
  body : Option Str
  salt : Str
  possession : Str
  alg : SigAlg
  publicKey : Str
  signature : Str
  deriving DecidableEq

/-! ### Digests -/

section Digests

variable (H : HashFn)

def sha256HexOf (bytes : Bytes) : Str := bytesToHex (H bytes)

def digestSpelling (bytes : Bytes) : Str := js "sha256:" ++ sha256HexOf H bytes

/-- Only a holder of every byte of the subject can compute it. -/
def possessionHash (subjectBytes : Bytes) : Str :=
  bytesToHex (H (utf8Encode POSSESSION_DOMAIN ++ subjectBytes))

end Digests

/-- The pattern `^[0-9a-f]{n}$`. -/
def isHexOf (n : ℕ) (s : Str) : Bool := s.length == n && s.all isLowerHex

/-- Without the label `sha256:`. -/
def dropLabel (s : Str) : Str := if js "sha256:" <+: s then s.drop 7 else s

def normalizeDigestField (v : Value) : Option Str :=
  match v with
  | .str s =>
      let s := dropLabel (asciiLower (trim s))
      if isHexOf 64 s then some (js "sha256:" ++ s) else none
  | _ => none

/-! ### Text -/

/-- The members before the signature, in the order of the format. -/
def Pm.ordered (pm : Pm) : List Member :=
  [Member.text (js "pm") PM_VERSION, Member.text (js "about") pm.about, Member.text (js "claim") pm.claim.text]
    ++ (pm.re.map fun re => Member.text (js "re") re).toList
    ++ (pm.recipient.map fun key => Member.object (js "  ") (js "to")
        [Member.text (js "alg") key.alg.text, Member.text (js "publicKey") key.publicKey]).toList
    ++ (pm.body.map fun body => Member.text (js "body") body).toList
    ++ [Member.text (js "salt") pm.salt, Member.text (js "possession") pm.possession,
        Member.text (js "alg") pm.alg.text, Member.text (js "publicKey") pm.publicKey]

/-- All members. -/
def Pm.members (pm : Pm) : List Member := pm.ordered ++ [Member.text (js "signature") pm.signature]

/-- The canonical text: a fixed order, absent members left out, two spaces of indent, a newline. -/
def serializePm (pm : Pm) : Str :=
  indentedObject [] (pm.members.map Member.line) ++ [10]

/-- What the signature covers: the canonical object without `signature`. -/
def pmSigningBytes (pm : Pm) : Bytes :=
  utf8Encode (indentedObject [] (pm.ordered.map Member.line) ++ [10])

/-! ### Parser -/

/-- A `PmError`: text that is not JSON, or the issues. -/
inductive PmError where
  | notJson
  | issues (l : List Str)
  deriving DecidableEq

/-- A key reference, and what is wrong with it. -/
def parseKeyRef (v : Value) (place : Str) : List Str × Option PmKeyRef :=
  match v with
  | .obj l =>
      let unknown := (l.filter fun m => m.1 != js "alg" && m.1 != js "publicKey").map fun m =>
        place ++ js ": unknown field \"" ++ m.1 ++ js "\""
      match parseSigAlg (v.get (js "alg")) with
      | none => (unknown ++ [place ++ js ": \"alg\" must be \"ed25519\" or \"es256\""], none)
      | some alg =>
          match nonEmptyText (v.get (js "publicKey")) with
          | none => (unknown ++ [place ++ js ": \"publicKey\" is required"], none)
          | some publicKey => (unknown, some ⟨alg, publicKey⟩)
  | _ => ([place ++ js ": must be an object \x7b alg, publicKey \x7d"], none)

def parseClaim (v : Value) : Option PmClaim := CLAIMS.find? fun c => v = .str c.text

/-- A string with a property. -/
def textWhere (p : Str → Bool) (v : Value) : Option Str :=
  match v with
  | .str s => if p s then some s else none
  | _ => none

/-- What is read of a message, part by part. -/
structure PmParts where
  about : Option Str
  claim : Option PmClaim
  re : Option Str
  recipient : Option PmKeyRef
  body : Option Str
  salt : Option Str
  possession : Option Str
  alg : Option SigAlg
  publicKey : Option Str
  signature : Option Str

def pmParts (raw : Value) : PmParts where
  about := normalizeDigestField (raw.get (js "about"))
  claim := parseClaim (raw.get (js "claim"))
  re := normalizeDigestField (raw.get (js "re"))
  recipient := (parseKeyRef (raw.get (js "to")) (js "\"to\"")).2
  body := textWhere (fun _ => true) (raw.get (js "body"))
  salt := textWhere (isHexOf 32) (raw.get (js "salt"))
  possession := textWhere (isHexOf 64) (raw.get (js "possession"))
  alg := parseSigAlg (raw.get (js "alg"))
  publicKey := nonEmptyText (raw.get (js "publicKey"))
  signature := nonEmptyText (raw.get (js "signature"))

def allowed : List Str :=
  [js "pm", js "about", js "claim", js "re", js "to", js "body", js "salt", js "possession", js "alg",
    js "publicKey", js "signature"]

/-- An issue, when there is one. -/
def issueIf (c : Bool) (text : Str) : List Str := if c then [text] else []

/-- The rules of the shape of a claim. -/
def claimIssues (p : PmParts) : List Str :=
  issueIf (p.claim = some .give && p.recipient = none) (js "a \"give\" must name its recipient in \"to\"")
    ++ issueIf (p.claim != some .give && p.recipient != none) (js "\"to\" is only meaningful on a \"give\"")
    ++ issueIf (p.claim = some .take && p.re = none) (js "a \"take\" must name its predecessor in \"re\"")
    ++ issueIf (p.claim = some .supersedes && p.re = none)
        (js "a \"supersedes\" must name its predecessor in \"re\"")
    ++ issueIf (p.claim = some .held && p.re != none)
        (js "a \"held\" is an origin statement and must not carry \"re\"")

def pmIssues (l : Fields) : List Str :=
  let raw := Value.obj l
  let has := fun k : Str => (Fields.find? l k).isSome
  let p := pmParts raw
  ((l.filter fun m => !(allowed.contains m.1)).map fun m => js "unknown field \"" ++ m.1 ++ js "\"")
    ++ issueIf (raw.get (js "pm") ≠ .str PM_VERSION)
        (js "\"pm\" must be exactly \"" ++ PM_VERSION ++ js "\"")
    ++ issueIf (p.about = none) (js "\"about\" must be a sha256 digest (\"sha256:<64 hex>\")")
    ++ issueIf (p.claim = none)
        (js "\"claim\" must be one of: held, give, take, controls-key, supersedes")
    ++ issueIf (has (js "re") && p.re = none)
        (js "\"re\" must be a sha256 digest of the predecessor message file")
    ++ (if has (js "to") then (parseKeyRef (raw.get (js "to")) (js "\"to\"")).1 else [])
    ++ issueIf (has (js "body") && p.body = none) (js "\"body\" must be a string")
    ++ issueIf (p.salt = none) (js "\"salt\" is mandatory: 32 lowercase hex characters (128 bits)")
    ++ issueIf (p.possession = none)
        (js "\"possession\" is mandatory: lowercase hex SHA-256 (the possession hash)")
    ++ issueIf (p.alg = none) (js "\"alg\" must be \"ed25519\" or \"es256\"")
    ++ issueIf (p.publicKey = none) (js "\"publicKey\" is required")
    ++ issueIf (p.signature = none) (js "\"signature\" is required")
    ++ claimIssues p

/-- The message of parts that have no issue. -/
def PmParts.pm (p : PmParts) : Pm where
  about := p.about.getD []
  claim := p.claim.getD .held
  re := p.re
  recipient := p.recipient
  body := p.body
  salt := p.salt.getD []
  possession := p.possession.getD []
  alg := p.alg.getD .ed25519
  publicKey := p.publicKey.getD []
  signature := p.signature.getD []

def parsePm (bytes : Bytes) : Except PmError Pm :=
  match parse (bufferToString bytes) with
  | none => .error .notJson
  | some (.obj l) =>
      let issues := pmIssues l
      if issues ≠ [] then .error (.issues issues)
      else
        let pm := (pmParts (.obj l)).pm
        -- canonical bytes or nothing
        if bytes ≠ utf8Encode (serializePm pm) then
          .error (.issues [js ("not the canonical serialization (SPEC-PM.md section 3): a message file must be "
            ++ "byte-identical to its canonical form")])
        else .ok pm
  | some _ => .error (.issues [js "a possession message must be a JSON object"])

/-! ### What is accepted -/

/-- A canonical digest: 64 lowercase hexadecimal digits behind `sha256:`. -/
def DigestSpelling (s : Str) : Prop := ∃ hex, isHexOf 64 hex = true ∧ s = js "sha256:" ++ hex

/-- The rules of a message. -/
structure Pm.WellFormed (pm : Pm) : Prop where
  about : DigestSpelling pm.about
  re : ∀ r ∈ pm.re, DigestSpelling r
  recipient : ∀ k ∈ pm.recipient, k.publicKey ≠ []
  salt : isHexOf 32 pm.salt = true
  possession : isHexOf 64 pm.possession = true
  publicKey : pm.publicKey ≠ []
  signature : pm.signature ≠ []
  give : pm.claim = .give ↔ pm.recipient.isSome = true
  predecessor : pm.claim = .take ∨ pm.claim = .supersedes → pm.re.isSome = true
  origin : pm.claim = .held → pm.re = none

variable {pm : Pm} {bytes : Bytes} {s : Str} {v : Value} {l : Fields}

lemma normalizeDigestField_spelling (h : normalizeDigestField v = some s) : DigestSpelling s := by
  rw [normalizeDigestField.eq_def] at h
  split at h
  · dsimp only at h
    split at h
    · next hhex => exact ⟨_, hhex, (Option.some.inj h).symm⟩
    · cases h
  · cases h

lemma isLowerHex_range {c : UInt16} (h : isLowerHex c = true) :
    (48 ≤ c.toNat ∧ c.toNat ≤ 57) ∨ (97 ≤ c.toNat ∧ c.toNat ≤ 102) := by
  simpa [isLowerHex] using h

/-- A canonical digest is left as it is. -/
lemma normalizeDigestField_of_spelling (h : DigestSpelling s) : normalizeDigestField (.str s) = some s := by
  obtain ⟨hex, hhex, rfl⟩ := h
  have hall : ∀ c ∈ hex, isLowerHex c = true := by
    rw [isHexOf, Bool.and_eq_true] at hhex
    exact List.all_eq_true.mp hhex.2
  have htext : ∀ c ∈ js "sha256:" ++ hex, 48 ≤ c.toNat ∧ c.toNat ≤ 58 ∨ 97 ≤ c.toNat ∧ c.toNat ≤ 122 := by
    have hlabel : (js "sha256:").all (fun c =>
        decide (48 ≤ c.toNat ∧ c.toNat ≤ 58 ∨ 97 ≤ c.toNat ∧ c.toNat ≤ 122)) = true := by
      decide
    intro c hc
    rcases List.mem_append.mp hc with hc | hc
    · exact of_decide_eq_true (List.all_eq_true.mp hlabel c hc)
    · have := isLowerHex_range (hall c hc)
      omega
  have hblank : ∀ c ∈ js "sha256:" ++ hex, isBlank c = false := by
    intro c hc
    by_contra hb
    have := Player.isBlank_range (by simpa using hb)
    have := htext c hc
    omega
  have hlower : asciiLower (js "sha256:" ++ hex) = js "sha256:" ++ hex := by
    refine (List.map_congr_left fun c hc => ?_).trans (List.map_id _)
    have := htext c hc
    rw [if_neg (by omega)]
    rfl
  have hdrop : dropLabel (js "sha256:" ++ hex) = hex := by
    rw [dropLabel, if_pos (List.prefix_append _ _)]
    rfl
  rw [normalizeDigestField, Player.trim_of_no_blank hblank, hlower, hdrop, if_pos hhex]

/-! The parts of a canonical text. -/

lemma textWhere_of {q : Str → Bool} (h : q s = true) : textWhere q (.str s) = some s := by
  rw [textWhere, if_pos h]

lemma textWhere_spec {q : Str → Bool} (h : textWhere q v = some s) : q s = true := by
  rw [textWhere.eq_def] at h
  split at h
  · split at h
    · next hq => exact Option.some.inj h ▸ hq
    · cases h
  · cases h

lemma nonEmptyText_of (h : s ≠ []) : nonEmptyText (.str s) = some s := by
  rw [nonEmptyText, if_neg h]

lemma nonEmptyText_spec (h : nonEmptyText v = some s) : s ≠ [] := by
  unfold nonEmptyText at h
  split at h
  · split at h
    · cases h
    · next hs => exact Option.some.inj h ▸ hs
  · cases h

lemma parseSigAlg_text (alg : SigAlg) : parseSigAlg (.str alg.text) = some alg := by
  cases alg <;> decide

lemma parseClaim_text (claim : PmClaim) : parseClaim (.str claim.text) = some claim := by
  cases claim <;> decide

/-- A key reference as it is written. -/
def keyValue (k : PmKeyRef) : Value :=
  .obj [(js "alg", .str k.alg.text), (js "publicKey", .str k.publicKey)]

lemma parseKeyRef_keyValue {k : PmKeyRef} (h : k.publicKey ≠ []) :
    parseKeyRef (keyValue k) s = ([], some k) := by
  have halg : (keyValue k).get (js "alg") = .str k.alg.text := rfl
  have hkey : (keyValue k).get (js "publicKey") = .str k.publicKey := rfl
  have hunknown : ([(js "alg", Value.str k.alg.text), (js "publicKey", .str k.publicKey)].filter fun m =>
      m.1 != js "alg" && m.1 != js "publicKey") = [] := rfl
  rw [keyValue] at halg hkey ⊢
  rw [parseKeyRef]
  simp only [halg, hkey, hunknown, parseSigAlg_text, nonEmptyText_of h, List.map_nil]

lemma parseKeyRef_spec {k : PmKeyRef} (h : (parseKeyRef v s).2 = some k) : k.publicKey ≠ [] := by
  rw [parseKeyRef.eq_def] at h
  split at h
  · dsimp only at h
    split at h
    · cases h
    · split at h
      · cases h
      · next hkey =>
        rw [← Option.some.inj h]
        exact nonEmptyText_spec hkey
  · cases h

/-- The value that a canonical text spells. -/
def Pm.fields (pm : Pm) : Fields := pm.members.map Member.prop

lemma allowed_ordered : allowed.Pairwise KeyBefore := by decide

/-- The keys of a message with or without the optional members. -/
def keysOf (re recipient body : Bool) : List Str :=
  [js "pm", js "about", js "claim"] ++ (if re then [js "re"] else []) ++ (if recipient then [js "to"] else [])
    ++ (if body then [js "body"] else [])
    ++ [js "salt", js "possession", js "alg", js "publicKey", js "signature"]

lemma Pm.fields_keys (pm : Pm) :
    pm.fields.map Prod.fst = keysOf pm.re.isSome pm.recipient.isSome pm.body.isSome := by
  obtain ⟨about, claim, re, recipient, body, salt, possession, alg, publicKey, signature⟩ := pm
  cases re <;> cases recipient <;> cases body <;> rfl

lemma keysOf_sublist : ∀ re recipient body, (keysOf re recipient body).Sublist allowed := by decide

lemma Pm.fields_ordered (pm : Pm) : pm.fields.Ordered := by
  rw [Fields.ordered_iff, pm.fields_keys]
  exact allowed_ordered.sublist (keysOf_sublist _ _ _)

/-- The members of a message, read. -/
structure Spells (raw : Value) (pm : Pm) : Prop where
  version : raw.get (js "pm") = .str PM_VERSION
  about : raw.get (js "about") = .str pm.about
  claim : raw.get (js "claim") = .str pm.claim.text
  re : raw.get (js "re") = (pm.re.map Value.str).getD .undefined
  recipient : raw.get (js "to") = (pm.recipient.map keyValue).getD .undefined
  body : raw.get (js "body") = (pm.body.map Value.str).getD .undefined
  salt : raw.get (js "salt") = .str pm.salt
  possession : raw.get (js "possession") = .str pm.possession
  alg : raw.get (js "alg") = .str pm.alg.text
  publicKey : raw.get (js "publicKey") = .str pm.publicKey
  signature : raw.get (js "signature") = .str pm.signature

lemma Pm.spells_fields (pm : Pm) : Spells (.obj pm.fields) pm := by
  obtain ⟨about, claim, re, recipient, body, salt, possession, alg, publicKey, signature⟩ := pm
  cases re <;> cases recipient <;> cases body <;>
    exact ⟨rfl, rfl, rfl, rfl, rfl, rfl, rfl, rfl, rfl, rfl, rfl⟩

/-- What holds of every string and of every key holds of the members. -/
lemma Pm.forall_members {P : Member → Prop} (text : ∀ k s, P (Member.text k s))
    (key : ∀ k : PmKeyRef, P (Member.object (js "  ") (js "to")
      [Member.text (js "alg") k.alg.text, Member.text (js "publicKey") k.publicKey])) :
    ∀ m ∈ pm.members, P m := by
  intro m hm
  simp only [Pm.members, Pm.ordered, List.mem_append, List.mem_cons, List.not_mem_nil, or_false,
    Option.mem_toList, Option.map_eq_some_iff] at hm
  rcases hm with ((((h | ⟨re, -, rfl⟩) | ⟨k, -, rfl⟩) | ⟨body, -, rfl⟩) | h) | rfl
  · rcases h with rfl | rfl | rfl <;> exact text _ _
  · exact text _ _
  · exact key k
  · exact text _ _
  · rcases h with rfl | rfl | rfl | rfl <;> exact text _ _
  · exact text _ _

lemma blank_two : Blank (js "  ") := by decide

lemma wellFormed_two : wellFormed (js "  ") = true := by decide

/-- Each member is read. -/
lemma Pm.yields_members (pm : Pm) : ∀ m ∈ pm.members, Yields m.2.1 m.2.2 := by
  refine Pm.forall_members (fun _ s => yields_quote s) fun k => ?_
  have hkeys : [js "alg", js "publicKey"].Pairwise KeyBefore := by decide
  have hmembers : ∀ m ∈ [Member.text (js "alg") k.alg.text, Member.text (js "publicKey") k.publicKey],
      Yields m.2.1 m.2.2 := by
    intro m hm
    rcases List.mem_pair.mp hm with rfl | rfl <;> exact yields_quote _
  exact yields_indentedObject blank_two (List.cons_ne_nil _ _) hmembers (Fields.ordered_iff.mpr hkeys)

/-- No text of a member has a lone surrogate. -/
lemma Pm.wellFormed_members (pm : Pm) : ∀ m ∈ pm.members, wellFormed m.2.1 = true := by
  refine Pm.forall_members (fun _ s => wellFormed_quote s) fun k => ?_
  have hmembers : ∀ m ∈ [Member.text (js "alg") k.alg.text, Member.text (js "publicKey") k.publicKey],
      wellFormed m.2.1 = true := by
    intro m hm
    rcases List.mem_pair.mp hm with rfl | rfl <;> exact wellFormed_quote _
  exact Js.wellFormed_members wellFormed_two hmembers

lemma Pm.wellFormed_text (pm : Pm) : wellFormed (serializePm pm) = true :=
  wellFormed_append (Js.wellFormed_members rfl pm.wellFormed_members) rfl

/-- The canonical text is parsed as the fields of the message. -/
lemma parse_serializePm (pm : Pm) : parse (serializePm pm) = some (.obj pm.fields) := by
  have hne : pm.members ≠ [] := by simp [Pm.members]
  exact parse_of_yields (yields_indentedObject (by simp [Blank]) hne pm.yields_members pm.fields_ordered)

lemma Pm.has_fields (pm : Pm) : (Fields.find? pm.fields (js "re")).isSome = pm.re.isSome ∧
    (Fields.find? pm.fields (js "to")).isSome = pm.recipient.isSome ∧
    (Fields.find? pm.fields (js "body")).isSome = pm.body.isSome := by
  obtain ⟨about, claim, re, recipient, body, salt, possession, alg, publicKey, signature⟩ := pm
  cases re <;> cases recipient <;> cases body <;> exact ⟨rfl, rfl, rfl⟩

/-- The parts of a message that follows the rules. -/
lemma pmParts_fields (h : pm.WellFormed) : pmParts (.obj pm.fields) =
    { about := some pm.about, claim := some pm.claim, re := pm.re, recipient := pm.recipient, body := pm.body,
      salt := some pm.salt, possession := some pm.possession, alg := some pm.alg,
      publicKey := some pm.publicKey, signature := some pm.signature } := by
  have hs := pm.spells_fields
  have hre : normalizeDigestField ((pm.re.map Value.str).getD .undefined) = pm.re := by
    cases hr : pm.re with
    | none => rfl
    | some r => exact normalizeDigestField_of_spelling (h.re r hr)
  have hto : (parseKeyRef ((pm.recipient.map keyValue).getD .undefined) (js "\"to\"")).2 = pm.recipient := by
    cases hk : pm.recipient with
    | none => rfl
    | some k => exact congrArg Prod.snd (parseKeyRef_keyValue (h.recipient k hk))
  have hbody : textWhere (fun _ => true) ((pm.body.map Value.str).getD .undefined) = pm.body := by
    cases pm.body <;> rfl
  rw [pmParts, hs.about, hs.claim, hs.re, hs.recipient, hs.body, hs.salt, hs.possession, hs.alg, hs.publicKey,
    hs.signature, normalizeDigestField_of_spelling h.about, parseClaim_text, hre, hto, hbody,
    textWhere_of h.salt, textWhere_of h.possession, parseSigAlg_text, nonEmptyText_of h.publicKey,
    nonEmptyText_of h.signature]

lemma issueIf_eq_nil {c : Bool} : issueIf c s = [] ↔ c = false := by
  cases c <;> simp [issueIf]

/-- The shape of a claim. -/
lemma claimIssues_eq_nil {p : PmParts} : claimIssues p = [] ↔
    (p.claim = some .give ↔ p.recipient.isSome = true) ∧
    (p.claim = some .take ∨ p.claim = some .supersedes → p.re.isSome = true) ∧
    (p.claim = some .held → p.re = none) := by
  simp only [claimIssues, List.append_eq_nil_iff, issueIf_eq_nil]
  cases p.recipient <;> cases p.re <;> cases p.claim <;> simp
  all_goals rename_i c; cases c <;> simp

lemma pmIssues_fields (h : pm.WellFormed) : pmIssues pm.fields = [] := by
  obtain ⟨hre, hto, hbody⟩ := pm.has_fields
  have hunknown : pm.fields.filter (fun m => !(allowed.contains m.1)) = [] := by
    rw [List.filter_eq_nil_iff]
    intro m hm
    have hkey : m.1 ∈ allowed := (pm.fields_keys ▸ keysOf_sublist _ _ _).subset (List.mem_map_of_mem hm)
    simpa using hkey
  have hkeyRef : (if pm.recipient.isSome then
      (parseKeyRef ((Value.obj pm.fields).get (js "to")) (js "\"to\"")).1 else []) = [] := by
    rw [pm.spells_fields.recipient]
    cases hk : pm.recipient with
    | none => rfl
    | some k => exact congrArg Prod.fst (parseKeyRef_keyValue (h.recipient k hk))
  have hclaim : claimIssues (pmParts (.obj pm.fields)) = [] := by
    rw [pmParts_fields h, claimIssues_eq_nil]
    simpa using ⟨h.give, h.predecessor, h.origin⟩
  have hparts := pmParts_fields h
  simp only [pmIssues, hunknown, hre, hto, hbody, hkeyRef, hclaim, pm.spells_fields.version]
  rw [hparts]
  cases pm.re <;> cases pm.body <;> rfl

/-- Parts without issues are those of a message that follows the rules. -/
lemma wellFormed_of_issues (h : pmIssues l = []) : (pmParts (.obj l)).pm.WellFormed := by
  simp only [pmIssues, List.append_eq_nil_iff, issueIf_eq_nil, claimIssues_eq_nil, decide_eq_false_iff_not] at h
  obtain ⟨⟨⟨⟨⟨⟨⟨⟨⟨⟨⟨⟨-, -⟩, habout⟩, hclaim⟩, -⟩, -⟩, -⟩, hsalt⟩, hpossession⟩, -⟩, hkey⟩, hsignature⟩,
    hgive, hpredecessor, horigin⟩ := h
  obtain ⟨about, ha⟩ := Option.ne_none_iff_exists'.mp habout
  obtain ⟨claim, hc⟩ := Option.ne_none_iff_exists'.mp hclaim
  obtain ⟨salt, hs⟩ := Option.ne_none_iff_exists'.mp hsalt
  obtain ⟨possession, hp⟩ := Option.ne_none_iff_exists'.mp hpossession
  obtain ⟨publicKey, hk⟩ := Option.ne_none_iff_exists'.mp hkey
  obtain ⟨signature, hg⟩ := Option.ne_none_iff_exists'.mp hsignature
  rw [hc] at hgive hpredecessor horigin
  simp only [Option.some.injEq] at hgive hpredecessor horigin
  refine ⟨?_, fun r hr => normalizeDigestField_spelling hr, fun k hk => ?_, ?_, ?_, ?_, ?_, ?_, ?_, ?_⟩
  · rw [PmParts.pm, ha]
    exact normalizeDigestField_spelling ha
  · exact parseKeyRef_spec hk
  · rw [PmParts.pm, hs]
    exact textWhere_spec hs
  · rw [PmParts.pm, hp]
    exact textWhere_spec hp
  · rw [PmParts.pm, hk]
    exact nonEmptyText_spec hk
  · rw [PmParts.pm, hg]
    exact nonEmptyText_spec hg
  · rw [PmParts.pm, hc]
    exact hgive
  · rw [PmParts.pm, hc]
    exact hpredecessor
  · rw [PmParts.pm, hc]
    exact horigin

/-- **Parser.** What is accepted is the canonical text of a message that follows the rules. -/
lemma parsePm_eq_ok : parsePm bytes = .ok pm ↔ pm.WellFormed ∧ bytes = utf8Encode (serializePm pm) := by
  constructor
  · intro h
    rw [parsePm.eq_def] at h
    split at h
    · cases h
    · next l _ =>
      dsimp only at h
      split at h
      · cases h
      · next hissues =>
        split at h
        · cases h
        · next hbytes =>
          obtain rfl := Except.ok.inj h
          exact ⟨wellFormed_of_issues (not_not.mp hissues), not_not.mp hbytes⟩
    · cases h
  · rintro ⟨h, rfl⟩
    have hpm : (pmParts (.obj pm.fields)).pm = pm := by rw [pmParts_fields h]; rfl
    rw [parsePm, bufferToString_utf8Encode, parse_serializePm]
    · simp only [pmIssues_fields h, hpm, ne_eq, not_true_eq_false, if_false]
    · exact pm.wellFormed_text

/-! ### Check -/

inductive Possession where
  | verified
  | unverifiable
  | refuted
  deriving DecidableEq

/-- What is checked of a message; it was parsed, so its structure holds. -/
structure PmCheck where
  signature : Bool
  possession : Possession
  issues : List Str

section Check

variable (C : Crypto) (H : HashFn)

/-- Whether the signature verifies with a key object. -/
def signatureOk (pm : Pm) (keyObject : C.KeyObject) : Bool :=
  let message := pmSigningBytes pm
  let sig := bufferFromBase64 pm.signature
  match pm.alg with
  | .ed25519 => (C.verify none message keyObject sig).getD false
  | .es256 => (C.verify (some (js "sha256")) message keyObject sig).getD false

def checkSignature (pm : Pm) : Bool × List Str :=
  match keyObjectFor C ⟨pm.alg, pm.publicKey⟩ with
  | none => (false, [js "publicKey is not decodable as " ++ pm.alg.text ++ js " key material"])
  | some keyObject =>
      if signatureOk C pm keyObject then (true, [])
      else (false, [js "signature does not verify over the canonical message bytes"])

def checkPossession (pm : Pm) (subjectBytes : Option Bytes) : Possession × List Str :=
  match subjectBytes with
  | none => (.unverifiable, [])
  | some subject =>
      if digestSpelling H subject ≠ pm.about then
        (.refuted, [js "supplied subject bytes do not match `about`"])
      else if possessionHash H subject = pm.possession then (.verified, [])
      else (.refuted, [js "possession hash does not match the subject bytes"])

/-- The signature always, the possession where the subject is there. -/
def checkPm (pm : Pm) (subjectBytes : Option Bytes) : PmCheck :=
  let signature := checkSignature C pm
  let possession := checkPossession H pm subjectBytes
  ⟨signature.1, possession.1, signature.2 ++ possession.2⟩

end Check

end Titles

end BitGraph
