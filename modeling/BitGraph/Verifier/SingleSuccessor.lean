import BitGraph.Verifier
import BitGraph.Js.IntText

/-!
One successor for a predecessor.

A run verifies a list of requests against one context.

* **Predecessors.** `SamePredecessor` compares what the fields of two links name, the program
  compares `successorInput`. `Unambiguous` says that this is the same.
* **Runs.** `Run.step` is one verification. `Run.step_cases` says what it can do, `run_records`
  ties the context to the links accepted so far.
* **Main result.** `single_successor`: with unambiguous links a run gives every predecessor one
  successor, a link is judged by the accepted links of its own predecessor only, and what is
  not accepted leaves no trace; or two keys of the run collide.
* **Exactness.** `accepted_pair_iff`: two links with one predecessor and different successors
  are both accepted exactly when their keys differ.
-/

namespace BitGraph

open Js

namespace Verifier

/-! ### Predecessors -/

/-- The same epoch, the same count and the same last hash. -/
def EpochLink.SamePredecessor (l m : EpochLink) : Prop :=
  l.prevEpochId = m.prevEpochId ∧ stringToBigInt? l.prevCounter = stringToBigInt? m.prevCounter
    ∧ l.prevProofHashB64 = m.prevProofHashB64

/-- Two links have the same bytes under their keys exactly when they name one predecessor. -/
def Unambiguous (links : Set EpochLink) : Prop :=
  ∀ l ∈ links, ∀ m ∈ links, l.SamePredecessor m ↔ successorInput l = successorInput m

/-- Two keys that are one hash of different bytes. -/
def KeysCollide (H : HashFn) (links : Set EpochLink) : Prop :=
  ∃ l ∈ links, ∃ m ∈ links, successorInput l ≠ successorInput m
    ∧ H (successorInput l) = H (successorInput m)

section Keys

variable {C : Crypto} {links : Set EpochLink}

lemma computeSuccessorKey_inj {l m : EpochLink} :
    computeSuccessorKey C l = computeSuccessorKey C m
      ↔ C.sha256 (successorInput l) = C.sha256 (successorInput m) := by
  rw [computeSuccessorKey, computeSuccessorKey]
  constructor
  · intro h
    have hb := congrArg bufferFromBase64 h
    rwa [bufferFromBase64_bytesToBase64, bufferFromBase64_bytesToBase64] at hb
  · intro h
    rw [h]

/-- Without a collision the keys of unambiguous links are equal for one predecessor only. -/
lemma computeSuccessorKey_eq_iff (hU : Unambiguous links) (hC : ¬ KeysCollide C.sha256 links)
    {l m : EpochLink} (hl : l ∈ links) (hm : m ∈ links) :
    computeSuccessorKey C l = computeSuccessorKey C m ↔ l.SamePredecessor m := by
  rw [computeSuccessorKey_inj, hU l hl m hm]
  constructor
  · intro h
    by_contra hne
    exact hC ⟨l, hl, m, hm, hne, h⟩
  · intro h
    rw [h]

end Keys

/-! ### Links in plain spelling -/

/-- The spelling of a link: a decimal count and ASCII text, the epoch without a bar. -/
structure EpochLink.Plain (l : EpochLink) : Prop where
  prevCounter : ∃ n, l.prevCounter = decimal n
  prevEpochId : isAscii l.prevEpochId = true ∧ 124 ∉ l.prevEpochId
  prevProofHash : isAscii l.prevProofHashB64 = true

lemma isAscii_of_isDigit {s : Str} (h : ∀ c ∈ s, isDigit c = true) : isAscii s = true := by
  refine List.all_eq_true.mpr fun c hc => ?_
  have hd := h c hc
  simp only [isDigit, Bool.and_eq_true, decide_eq_true_eq] at hd
  simp only [decide_eq_true_eq]
  omega

lemma successorInput_inj {l m : EpochLink} (hl : l.Plain) (hm : m.Plain)
    (h : successorInput l = successorInput m) :
    l.prevEpochId = m.prevEpochId ∧ l.prevCounter = m.prevCounter
      ∧ l.prevProofHashB64 = m.prevProofHashB64 := by
  have hdigits : ∀ k : EpochLink, k.Plain → ∀ c ∈ k.prevCounter, isDigit c = true := by
    rintro k ⟨⟨n, hn⟩, -, -⟩ c hc
    exact isDigit_of_mem_decimal (hn ▸ hc)
  have hascii : ∀ k : EpochLink, k.Plain →
      wellFormed (k.prevEpochId ++ js "|" ++ k.prevCounter ++ js "|" ++ k.prevProofHashB64) = true := by
    intro k hk
    have hcount := isAscii_of_isDigit (hdigits k hk)
    refine wellFormed_of_isAscii ?_
    simp only [isAscii, List.all_append, Bool.and_eq_true] at hcount ⊢
    exact ⟨⟨⟨⟨hk.prevEpochId.1, by decide⟩, hcount⟩, by decide⟩, hk.prevProofHash⟩
  have hbar : ∀ k : EpochLink, k.Plain → (124 : UInt16) ∉ k.prevCounter := fun k hk hmem =>
    absurd (hdigits k hk _ hmem) (by decide)
  have htext := utf8Encode_inj (hascii l hl) (hascii m hm) h
  simp only [show js "|" = [124] from rfl, List.append_assoc, List.singleton_append] at htext
  obtain ⟨hepoch, hrest⟩ := append_cons_inj hl.prevEpochId.2 hm.prevEpochId.2 htext
  obtain ⟨hcount, hhash⟩ := append_cons_inj (hbar l hl) (hbar m hm) hrest
  exact ⟨hepoch, hcount, hhash⟩

/-- Links in plain spelling are unambiguous. -/
theorem unambiguous_of_plain {links : Set EpochLink} (h : ∀ l ∈ links, l.Plain) :
    Unambiguous links := by
  intro l hl m hm
  constructor
  · rintro ⟨hepoch, hcount, hhash⟩
    obtain ⟨a, ha⟩ := (h l hl).prevCounter
    obtain ⟨b, hb⟩ := (h m hm).prevCounter
    rw [ha, hb, stringToBigInt?_decimal, stringToBigInt?_decimal, Option.some.injEq,
      Int.natCast_inj] at hcount
    rw [successorInput, successorInput, hepoch, hhash, ha, hb, hcount]
  · intro heq
    obtain ⟨hepoch, hcount, hhash⟩ := successorInput_inj (h l hl) (h m hm) heq
    exact ⟨hepoch, by rw [hcount], hhash⟩

/-! ### Runs -/

/-- One call of the verifier. -/
structure Request where
  proof : Value
  bytes : Option Bytes
  trustAnchors : Option VerificationPolicy

namespace Request

/-- The link of a proof that has one. -/
def link? (r : Request) : Option EpochLink :=
  if (r.proof.get (js "commit")).get (js "epochLink") = .undefined then none
  else some (epochLink r.proof)

/-- The result, and the context after it. -/
def check (C : Crypto) (r : Request) (context : VerificationContext) : Check × VerificationContext :=
  runChecks C r.proof r.bytes r.trustAnchors context

end Request

/-- The links of a list of requests, those with every field in order. -/
def shapedLinks (rs : List Request) : Set EpochLink :=
  {l | ∃ r ∈ rs, r.link? = some l ∧ validateEpochLinkShape r.proof = pass}

lemma shapedLinks_mono {rs rs' : List Request} (h : rs ⊆ rs') : shapedLinks rs ⊆ shapedLinks rs' :=
  fun _ ⟨r, hr, hl⟩ => ⟨r, h hr, hl⟩

/-- The context, and the links accepted so far. -/
structure Run where
  context : VerificationContext
  accepted : List EpochLink

namespace Run

variable (C : Crypto)

/-- One verification. -/
def step (s : Run) (r : Request) : Run :=
  match r.check C s.context with
  | (.ok none, context) => ⟨context, s.accepted ++ r.link?.toList⟩
  | (_, context) => ⟨context, s.accepted⟩

/-- The run over a list of requests, from a fresh context. -/
def after (rs : List Request) : Run := rs.foldl (step C) ⟨createVerificationContext, []⟩

/-- The context holds the successors of the accepted links. -/
structure Records (s : Run) (rs : List Request) : Prop where
  holds : s.context.Holds (s.accepted.map fun l => (computeSuccessorKey C l, l.toEpochId))
  shaped : ∀ l ∈ s.accepted, l ∈ shapedLinks rs

end Run

section Steps

variable {C : Crypto} {proof : Value} {context : VerificationContext}

/-- A link that leaves no objection: there is none, or its fields are in order, no other epoch
consumed its predecessor, and its own epoch is recorded. -/
lemma linkResult_eq_pending {consumption : Option (Str × Str)}
    (h : linkResult C proof context = .ok (.pending consumption)) :
    ((proof.get (js "commit")).get (js "epochLink") = .undefined
      ∧ consume context consumption = context)
    ∨ ((proof.get (js "commit")).get (js "epochLink") ≠ .undefined
      ∧ validateEpochLinkShape proof = pass
      ∧ (∀ w, context (computeSuccessorKey C (epochLink proof)) = some w
          → w = (epochLink proof).toEpochId)
      ∧ consume context consumption
        = context.put (computeSuccessorKey C (epochLink proof)) (epochLink proof).toEpochId) := by
  rw [linkResult] at h
  split_ifs at h with hlink
  · obtain rfl : none = consumption := by simpa using h
    exact Or.inl ⟨hlink, rfl⟩
  · right
    rw [checkEpochLink] at h
    rcases hshape : validateEpochLinkShape proof with e | _ | reason
    · simp [hshape] at h
    · rcases hfound : context (computeSuccessorKey C (epochLink proof)) with _ | existing
      · obtain rfl : some _ = consumption := by simpa [hshape, hfound, pure, Except.pure] using h
        exact ⟨hlink, rfl, by simp, (WriteOnce.Store.put_of_none hfound _).symm⟩
      · by_cases hsame : existing = (epochLink proof).toEpochId
        · obtain rfl : none = consumption := by
            simpa [hshape, hfound, hsame, pure, Except.pure] using h
          refine ⟨hlink, rfl, ?_, (WriteOnce.Store.put_of_some hfound _).symm⟩
          intro w hw
          rw [← Option.some.inj hw, hsame]
        · simp [hshape, hfound, hsame, pure, Except.pure] at h
    · simp [hshape, pure, Except.pure] at h

/-- The context decides a link through the one key of its predecessor. -/
lemma linkResult_congr {context' : VerificationContext}
    (h : (proof.get (js "commit")).get (js "epochLink") ≠ .undefined →
      validateEpochLinkShape proof = pass →
      context (computeSuccessorKey C (epochLink proof))
        = context' (computeSuccessorKey C (epochLink proof))) :
    linkResult C proof context = linkResult C proof context' := by
  rw [linkResult, linkResult]
  split_ifs with hlink
  · rfl
  · rw [checkEpochLink, checkEpochLink]
    rcases hshape : validateEpochLinkShape proof with e | _ | reason
    · rfl
    · rw [h hlink hshape]
    · rfl

end Steps

namespace Run

variable {C : Crypto}

/-- What one verification can do: nothing where it does not accept or the proof has no link;
else the predecessor of the link has its epoch, and the link joins the accepted ones. -/
lemma step_cases (s : Run) (r : Request) :
    (s.step C r = s ∧ ((r.check C s.context).1 ≠ pass ∨ r.link? = none))
    ∨ ((r.check C s.context).1 = pass ∧ ∃ l, r.link? = some l
      ∧ validateEpochLinkShape r.proof = pass
      ∧ (∀ w, s.context (computeSuccessorKey C l) = some w → w = l.toEpochId)
      ∧ s.step C r = ⟨s.context.put (computeSuccessorKey C l) l.toEpochId, s.accepted ++ [l]⟩) := by
  rcases hcheck : r.check C s.context with ⟨result, context⟩
  rcases eq_pass_or_ne result with rfl | hne
  · obtain ⟨-, -, consumption, hlink, hafter⟩ :=
      runChecks_accepted (C := C) (show (r.check C s.context).1 = pass by rw [hcheck])
    have hcontext : context = consume s.context consumption := by
      rw [← hafter]
      exact (congrArg Prod.snd hcheck).symm
    have hstep : s.step C r = ⟨context, s.accepted ++ r.link?.toList⟩ := by
      rw [step, hcheck]
      rfl
    rcases linkResult_eq_pending hlink with ⟨hnone, hsame⟩ | ⟨hsome, hshape, hfree, hput⟩
    · have hl : r.link? = none := by rw [Request.link?, if_pos hnone]
      refine Or.inl ⟨?_, Or.inr hl⟩
      rw [hstep, hcontext, hsame, hl, Option.toList_none, List.append_nil]
    · have hl : r.link? = some (epochLink r.proof) := by rw [Request.link?, if_neg hsome]
      refine Or.inr ⟨rfl, epochLink r.proof, hl, hshape, hfree, ?_⟩
      rw [hstep, hcontext, hput, hl, Option.toList_some]
  · refine Or.inl ⟨?_, Or.inl hne⟩
    have hcontext : context = s.context := by
      have := runChecks_refused (C := C) (show (r.check C s.context).1 ≠ pass by rwa [hcheck])
      rw [← this]
      exact (congrArg Prod.snd hcheck).symm
    rw [step, hcheck]
    rcases result with e | _ | reason
    · simp only [hcontext]
    · exact absurd rfl hne
    · simp only [hcontext]

lemma step_accepted {s : Run} {r : Request} {l : EpochLink} (hl : r.link? = some l)
    (h : (r.check C s.context).1 = pass) : (s.step C r).accepted = s.accepted ++ [l] := by
  rcases step_cases s r with ⟨-, hne | hnone⟩ | ⟨-, m, hm, -, -, hs⟩
  · exact absurd h hne
  · exact absurd (hnone.symm.trans hl) (by simp)
  · rw [hs, Option.some.inj (hm.symm.trans hl)]

lemma after_singleton {r : Request} {l : EpochLink} (hl : r.link? = some l)
    (h : (r.check C createVerificationContext).1 = pass) : (after C [r]).accepted = [l] :=
  step_accepted (s := ⟨createVerificationContext, []⟩) hl h

lemma after_append (rs : List Request) (r : Request) :
    after C (rs ++ [r]) = (after C rs).step C r := by
  rw [after, List.foldl_append]
  rfl

/-- A verification keeps the record. -/
lemma Records.step {s : Run} {rs : List Request} (h : s.Records C rs) (r : Request) :
    (s.step C r).Records C (rs ++ [r]) := by
  have hmono : shapedLinks rs ⊆ shapedLinks (rs ++ [r]) :=
    shapedLinks_mono (List.subset_append_left _ _)
  rcases step_cases s r with ⟨hs, -⟩ | ⟨-, l, hl, hshape, hfree, hs⟩
  · rw [hs]
    exact ⟨h.holds, fun l hl => hmono (h.shaped l hl)⟩
  · rw [hs]
    refine ⟨?_, ?_⟩
    · rw [List.map_append]
      exact h.holds.put hfree
    · intro m hm
      rcases List.mem_append.mp hm with hm | hm
      · exact hmono (h.shaped m hm)
      · rw [List.mem_singleton.mp hm]
        exact ⟨r, by simp, hl, hshape⟩

/-- **The record of a run**: whatever is verified in whatever order. -/
theorem run_records (rs : List Request) : (after C rs).Records C rs := by
  induction rs using List.reverseRecOn with
  | nil => exact ⟨WriteOnce.Store.holds_empty, fun l hl => by simp [after] at hl⟩
  | append_singleton rs r ih =>
      rw [after_append]
      exact ih.step r

end Run

/-! ### One successor -/

/-- What a run keeps. -/
structure SingleSuccessor (C : Crypto) (rs : List Request) : Prop where
  /-- Accepted links of one predecessor name one epoch. -/
  agree : ∀ l ∈ (Run.after C rs).accepted, ∀ m ∈ (Run.after C rs).accepted,
    l.SamePredecessor m → l.toEpochId = m.toEpochId
  /-- Accepted links of other predecessors change no result. -/
  apart : ∀ before r, before ++ [r] <+: rs →
    (∀ l ∈ r.link?, ∀ m ∈ (Run.after C before).accepted, ¬ l.SamePredecessor m) →
    (r.check C (Run.after C before).context).1 = (r.check C createVerificationContext).1
  /-- What is not accepted leaves no trace. -/
  untouched : ∀ before r, before ++ [r] <+: rs →
    (r.check C (Run.after C before).context).1 ≠ pass →
    (Run.after C (before ++ [r])).context = (Run.after C before).context

section Main

variable {C : Crypto} {rs : List Request}

/-- Two accepted links with one key name one epoch. -/
lemma toEpochId_eq_of_key_eq {l m : EpochLink} (hl : l ∈ (Run.after C rs).accepted)
    (hm : m ∈ (Run.after C rs).accepted)
    (h : computeSuccessorKey C l = computeSuccessorKey C m) : l.toEpochId = m.toEpochId := by
  refine (Run.run_records rs).holds.unique (List.mem_map.mpr ⟨l, hl, rfl⟩) ?_
  rw [h]
  exact List.mem_map.mpr ⟨m, hm, rfl⟩

/-- A link whose key no accepted link has is judged as on a fresh context. -/
lemma check_eq_of_key_ne (r : Request)
    (h : ∀ l ∈ r.link?, validateEpochLinkShape r.proof = pass →
      ∀ m ∈ (Run.after C rs).accepted, computeSuccessorKey C l ≠ computeSuccessorKey C m) :
    (r.check C (Run.after C rs).context).1 = (r.check C createVerificationContext).1 := by
  refine runChecks_fst_congr (linkResult_congr fun hlink hshape => ?_)
  refine (Run.run_records rs).holds.eq_none fun v hv => ?_
  obtain ⟨m, hm, heq⟩ := List.mem_map.mp hv
  have hl : epochLink r.proof ∈ r.link? := by rw [Request.link?, if_neg hlink]; rfl
  exact h _ hl hshape m hm (congrArg Prod.fst heq).symm

/-- **Single successor**: in every run whose links are unambiguous, accepted links of one
predecessor name one epoch, a result depends on the accepted links of the own predecessor only,
and what is not accepted leaves the context alone; or two keys of the run collide. -/
theorem single_successor (C : Crypto) (rs : List Request) (hU : Unambiguous (shapedLinks rs)) :
    SingleSuccessor C rs ∨ KeysCollide C.sha256 (shapedLinks rs) := by
  by_cases hC : KeysCollide C.sha256 (shapedLinks rs)
  · exact Or.inr hC
  refine Or.inl ⟨?_, ?_, ?_⟩
  · intro l hl m hm hsame
    have hshaped := (Run.run_records (C := C) rs).shaped
    refine toEpochId_eq_of_key_eq hl hm ?_
    exact (computeSuccessorKey_eq_iff hU hC (hshaped l hl) (hshaped m hm)).mpr hsame
  · intro before r hp hother
    refine check_eq_of_key_ne r fun l hl hshape m hm hkey => hother l hl m hm ?_
    have hlin : l ∈ shapedLinks rs := ⟨r, hp.subset (by simp), hl, hshape⟩
    have hmin : m ∈ shapedLinks rs := by
      refine shapedLinks_mono ?_ ((Run.run_records (C := C) before).shaped m hm)
      exact fun x hx => hp.subset (List.mem_append_left _ hx)
    exact (computeSuccessorKey_eq_iff hU hC hlin hmin).mp hkey
  · rintro before r - hne
    rw [Run.after_append]
    rcases Run.step_cases (Run.after C before) r with ⟨hs, -⟩ | ⟨hpass, -⟩
    · rw [hs]
    · exact absurd hpass hne

/-- Where two links of one predecessor with different successors are both accepted: exactly where
their keys differ. -/
theorem accepted_pair_iff {r r' : Request} {l m : EpochLink} (hl : r.link? = some l)
    (hm : r'.link? = some m) (hne : l.toEpochId ≠ m.toEpochId)
    (h : (r.check C createVerificationContext).1 = pass)
    (h' : (r'.check C createVerificationContext).1 = pass) :
    (Run.after C [r, r']).accepted = [l, m] ↔ computeSuccessorKey C l ≠ computeSuccessorKey C m := by
  have hfirst : (Run.after C [r]).accepted = [l] := Run.after_singleton hl h
  constructor
  · intro hboth hkey
    refine hne (@toEpochId_eq_of_key_eq C [r, r'] l m ?_ ?_ hkey)
    · rw [hboth]; simp
    · rw [hboth]; simp
  · intro hkey
    have hfresh : (r'.check C (Run.after C [r]).context).1 = pass := by
      rw [@check_eq_of_key_ne C [r] r' ?_, h']
      rintro k hk - j hj
      rw [hfirst, List.mem_singleton] at hj
      obtain rfl : m = k := Option.some.inj (hm.symm.trans hk)
      rw [hj]
      exact hkey.symm
    calc (Run.after C [r, r']).accepted
        = ((Run.after C [r]).step C r').accepted := rfl
      _ = (Run.after C [r]).accepted ++ [m] := Run.step_accepted hm hfresh
      _ = [l, m] := by rw [hfirst]; rfl

end Main

/-! ### Signed proofs -/

/-- A proof of a development key that follows epoch `epoch-1`. -/
def linkedProof (prevCounter toEpochId signatureB64 : Str) : Value :=
  let publicKeyB64 := .str (js "CGL6YdGBYMddHmHan7uCO6y/T1iFHHmyMnZatw2O9vA=")
  .obj [(js "version", .str (js "bitgraph/1")),
    (js "artifact", .obj [(js "hashAlg", .str (js "sha256")),
      (js "digestB64", .str (js "47DEQpj8HBSa+/TImW+5JCeuQeRkm5NMpJWZG3hSuFU="))]),
    (js "commit", .obj [(js "nonceB64", .str (js "bm9uY2U=")), (js "epochId", .str toEpochId),
      (js "epochLink", .obj [(js "prevEpochId", .str (js "epoch-1")),
        (js "prevPublicKeyB64", .str (js "k1")), (js "prevCounter", .str prevCounter),
        (js "prevProofHashB64", .str (js "h1")), (js "toEpochId", .str toEpochId),
        (js "toPublicKeyB64", publicKeyB64)])]),
    (js "signer", .obj [(js "publicKeyB64", publicKeyB64), (js "signatureB64", .str signatureB64)]),
    (js "environment", .obj [(js "enforcement", .str (js "stub")), (js "measurement", .str (js "dev"))])]

/-- The signatures of the development key, by their first bytes. -/
def devSignatures : List Bytes :=
  [[219, 191, 25, 67, 151, 28, 189, 32],
    [188, 25, 7, 225, 22, 45, 219, 1],
    [163, 31, 214, 70, 42, 244, 179, 100]]

/-- SHA-256, and Ed25519 on the proofs the development key signed. -/
def devCrypto : Crypto where
  sha256 := sha256
  ed25519 sig _ _ := .ok (devSignatures.contains (sig.take 8))
  p256 _ _ _ := .ok false
  hostname _ := none

/-- The three proofs: epoch 2 follows count 7, and epoch 3 follows the same count, spelled with
and without a leading zero. -/
def followed : Request :=
  ⟨linkedProof (js "7") (js "epoch-2")
    (js "278ZQ5ccvSAXxPPOyeyaTO+UA2IuICEnFihUtPeU2ep6NiHU3RTGvSzdV4zFjFAMgSG2mojE7BWRG6vPqk/+Bg=="),
    none, none⟩

def respelled : Request :=
  ⟨linkedProof (js "07") (js "epoch-3")
    (js "vBkH4RYt2wET/TLQvzxj70VE3fu5tJvgTCNuv5eiW6YYEOJRixYcbsdLbVDzo8dooDgfuqY4qFD1kyUkTz0vCQ=="),
    none, none⟩

def forked : Request :=
  ⟨linkedProof (js "7") (js "epoch-3")
    (js "ox/WRir0s2TGcjobMB36G3ZwMDvLoVLXoJ7XCVCIrSIZvoA2opM8urTwZs1OWBcM3tmwNY095SlHSfEDpyEpAw=="),
    none, none⟩

lemma mem_shapedLinks_pair {r r' : Request} {l : EpochLink} (h : l ∈ shapedLinks [r, r']) :
    l = epochLink r.proof ∨ l = epochLink r'.proof := by
  obtain ⟨q, hq, hl, -⟩ := h
  rw [Request.link?] at hl
  split_ifs at hl
  obtain rfl := Option.some.inj hl
  rcases List.mem_cons.mp hq with rfl | hq
  · exact Or.inl rfl
  · exact Or.inr (by rw [List.mem_singleton.mp hq])

lemma followed_accepted : (followed.check devCrypto createVerificationContext).1 = pass := by
  decide

/-- A leading zero gives a predecessor two successors. -/
theorem respelled_accepted :
    ¬ (SingleSuccessor devCrypto [followed, respelled]
      ∨ KeysCollide sha256 (shapedLinks [followed, respelled])) := by
  have hboth : (Run.after devCrypto [followed, respelled]).accepted
      = [epochLink followed.proof, epochLink respelled.proof] := by
    refine (accepted_pair_iff ?_ ?_ ?_ followed_accepted ?_).mpr ?_
    all_goals decide +kernel
  have hhash : sha256 (successorInput (epochLink followed.proof))
      ≠ sha256 (successorInput (epochLink respelled.proof)) := by decide +kernel
  rintro (h | ⟨l, hl, m, hm, hne, heq⟩)
  · have hto := h.agree (epochLink followed.proof) (by simp [hboth]) (epochLink respelled.proof)
      (by simp [hboth]) (by rw [EpochLink.SamePredecessor]; decide)
    exact absurd hto (by decide)
  · rcases mem_shapedLinks_pair hl with rfl | rfl <;> rcases mem_shapedLinks_pair hm with rfl | rfl
    · exact hne rfl
    · exact hhash heq
    · exact hhash heq.symm
    · exact hne rfl

/-- The same count in plain spelling: one successor. -/
theorem single_successor_forked :
    (SingleSuccessor devCrypto [followed, forked]
      ∨ KeysCollide sha256 (shapedLinks [followed, forked]))
    ∧ epochLink followed.proof ∈ (Run.after devCrypto [followed]).accepted := by
  have hlink : followed.link? = some (epochLink followed.proof) := by decide
  have hfirst := Run.after_singleton hlink followed_accepted
  refine ⟨single_successor devCrypto [followed, forked] (unambiguous_of_plain fun l hl => ?_),
    by rw [hfirst]; simp⟩
  rcases mem_shapedLinks_pair hl with rfl | rfl
  · exact ⟨⟨7, by decide⟩, by decide, by decide⟩
  · exact ⟨⟨7, by decide⟩, by decide, by decide⟩

end Verifier

end BitGraph
