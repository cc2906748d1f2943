import BitGraph.Titles.Custody

/-!
More files beside a thread.

* **Transfer.** A run over the nodes of a thread is a run over more nodes, up to where the larger walk stops:
  `run_transfer`. A step is determined by the walk it starts from.
* `holder_kept`: files that the holder did not sign leave the holder, or the larger presentation has an issue, or
  one of them is the take that an open give of the holder names.
-/

namespace BitGraph

open Js

namespace Titles

open Player (SigAlg Crypto keyObjectFor)

variable {C : Crypto} {H : HashFn} {subjectBytes : Option Bytes} {files files' added : List Bytes}
  {nodes nodes' : List ThreadLink} {w w' v : Walk} {n : ThreadLink} {t t' : Thread} {origin origin' : ThreadLink}

/-! ### Transfer -/

/-- A step over fewer nodes is the step over more of them. -/
lemma Moves.eq_of_subset (hsub : nodes ⊆ nodes') (h : Moves C nodes w w') (h' : Moves C nodes' w v) : w' = v := by
  obtain ⟨n, holder, hone, _, hgate, rfl⟩ := h
  obtain ⟨n', holder', hone', _, hgate', rfl⟩ := h'
  have hmem : n ∈ following nodes w.cursor := hone ▸ List.mem_cons_self
  obtain ⟨hn, hre, hmove⟩ := mem_following_iff.mp hmem
  have hmem' : n ∈ following nodes' w.cursor := mem_following_iff.mpr ⟨hsub hn, hre, hmove⟩
  obtain rfl : n = n' := List.mem_singleton.mp (hone' ▸ hmem')
  rw [Except.ok.inj (hgate.symm.trans hgate')]

/-- A walk that stops over more nodes passes where it stops over fewer. -/
lemma run_transfer (hsub : nodes ⊆ nodes') (hrun : Relation.ReflTransGen (Moves C nodes) w v)
    (hrun' : Relation.ReflTransGen (Moves C nodes') w w') (hlast : following nodes' w'.cursor = []) :
    Relation.ReflTransGen (Moves C nodes') v w' := by
  induction hrun using Relation.ReflTransGen.head_induction_on with
  | refl => exact hrun'
  | @head w u hstep _ ih =>
      refine ih ?_
      rcases hrun'.cases_head with rfl | ⟨u', hstep', hrest⟩
      · obtain ⟨n, _, hone, _⟩ := hstep
        obtain ⟨hn, hre⟩ := mem_following_iff.mp (hone ▸ List.mem_cons_self : n ∈ following nodes w.cursor)
        have hmem : n ∈ following nodes' w.cursor := mem_following_iff.mpr ⟨hsub hn, hre⟩
        rw [hlast] at hmem
        cases hmem
      · rwa [hstep.eq_of_subset hsub hstep']

/-- An open give is the holder's. -/
def OwnGive (w : Walk) : Prop := w.cursor.pm.claim = .give → w.cursor.pm.key = w.holderKey

lemma Moves.ownGive (hstep : Moves C nodes w w') : OwnGive w' := by
  obtain ⟨n, holder, hone, _, hgate, rfl⟩ := hstep
  have hmove := (mem_following_iff.mp (hone ▸ List.mem_cons_self : n ∈ following nodes w.cursor)).2.2
  intro hgive
  rcases gate_ok hgate hmove with ⟨_, hkey, rfl⟩ | ⟨htake, _⟩
  · exact hkey
  · exact absurd (htake.symm.trans hgive) nofun

/-- The last message of a run is one of the links, and an open give is the holder's. -/
lemma run_last (hheld : origin.pm.claim = .held) (hrun : Relation.ReflTransGen (Moves C nodes) (startAt origin) w) :
    w.cursor ∈ w.links ∧ OwnGive w := by
  rcases hrun.cases_tail with heq | ⟨u, _, hstep⟩
  · subst heq
    exact ⟨List.mem_cons_self, fun hgive => absurd (hheld.symm.trans hgive) nofun⟩
  · refine ⟨?_, hstep.ownGive⟩
    obtain ⟨n, holder, _, _, _, rfl⟩ := hstep
    exact List.mem_append_right _ List.mem_cons_self

/-! ### Added files -/

/-- An added take, signed by the key that an open give of the holder names: no presented message answers the
give. -/
def TakesOpenGive (H : HashFn) (files added : List Bytes) (t : Thread) : Prop :=
  ∃ g ∈ t.links, g.pm.claim = .give ∧ g.pm.key = t.holderKey ∧
    (∀ f ∈ files, ∀ pm, parsePm f = .ok pm → pm.claim = .give ∨ pm.claim = .take →
      ¬ Answers ⟨sha256HexOf H f, pm⟩ g) ∧
    ∃ f ∈ added, ∃ pm, parsePm f = .ok pm ∧ pm.claim = .take ∧ Answers ⟨sha256HexOf H f, pm⟩ g ∧
      g.pm.recipient = some pm.key

/-- A file that one of the holders signed. -/
def SignedBy (f : Bytes) (key : PmKeyRef) : Prop := ∃ pm, parsePm f = .ok pm ∧ pm.key = key

/-- The nodes of a presentation are among those of a larger one. -/
lemma Nodes.subset (h : Nodes H files nodes) (h' : Nodes H files' nodes') (hsub : files ⊆ files')
    (hfree : ¬ H.Collides files' files') : nodes ⊆ nodes' := by
  intro n hn
  obtain ⟨f, hf, hpm, hhex⟩ := h.source n hn
  have hmem := h'.mem hfree (hsub hf) hpm
  rwa [← hhex] at hmem

/-- What follows where the smaller walk stopped is a take of the open give. -/
lemma Built.next (h : Built C H subjectBytes files t nodes origin w) (h' : Nodes H files' nodes')
    (hperm : files'.Perm (files ++ added)) (hunsigned : ∀ f ∈ added, ¬ SignedBy f t.holderKey)
    (hfree : ¬ H.Collides files' files') (hstep : Moves C nodes' w w') : TakesOpenGive H files added t := by
  obtain ⟨n, holder, hone, _, hgate, rfl⟩ := hstep
  obtain ⟨hn, hre, hmove⟩ := mem_following_iff.mp (hone ▸ List.mem_cons_self : n ∈ following nodes' w.cursor)
  have hanswers := h'.answers hn hre
  have hfreeBase : ¬ H.Collides files files := fun hc => hfree (hc.mono
    (fun f hf => hperm.mem_iff.mpr (List.mem_append_left _ hf))
    fun f hf => hperm.mem_iff.mpr (List.mem_append_left _ hf))
  -- it is not presented, or the smaller walk would go on
  have hnew : n ∉ nodes := by
    intro hmem
    have hfollow : n ∈ following nodes w.cursor := mem_following_iff.mpr ⟨hmem, hre, hmove⟩
    rw [h.last] at hfollow
    cases hfollow
  obtain ⟨f, hf, hpm, hhex⟩ := h'.source n hn
  have hadded : f ∈ added := by
    rcases List.mem_append.mp (hperm.mem_iff.mp hf) with hf | hf
    · have hmem := h.collected.mem hfreeBase hf hpm
      rw [← hhex] at hmem
      exact absurd hmem hnew
    · exact hf
  have hkey : n.pm.key ≠ w.holderKey := fun hkey => hunsigned f hadded ⟨n.pm, hpm, hkey.trans h.holderKey.symm⟩
  have horigin := List.mem_filter.mp (h.held ▸ List.mem_cons_self : origin ∈ nodes.filter _)
  obtain ⟨hlink, hown⟩ := run_last (of_decide_eq_true horigin.2) h.run
  rcases gate_ok hgate hmove with ⟨_, hholder, _⟩ | ⟨htake, hgive, hnamed, _⟩
  · exact absurd hholder hkey
  · refine ⟨w.cursor, h.links ▸ hlink, hgive, (hown hgive).trans h.holderKey.symm, ?_, f, hadded, n.pm, hpm, htake,
      hanswers, hnamed⟩
    intro f hf pm hpm hclaim hans
    have hmem := h.collected.mem hfreeBase hf hpm
    have hdrop : pm.re.map (List.drop 7) = some w.cursor.sha256Hex := by
      rw [show pm.re = some (js "sha256:" ++ w.cursor.sha256Hex) from hans, Option.map_some]
      rfl
    have hfollow : (⟨sha256HexOf H f, pm⟩ : ThreadLink) ∈ following nodes w.cursor :=
      mem_following_iff.mpr ⟨hmem, hdrop, by rcases hclaim with h | h <;> simp [isMove, h]⟩
    rw [h.last] at hfollow
    cases hfollow

/-- The origins of two presentations, one within the other. -/
lemma Built.origin_eq (h : Built C H subjectBytes files t nodes origin w)
    (h' : Built C H subjectBytes files' t' nodes' origin' w') (hsub : nodes ⊆ nodes') : origin = origin' := by
  obtain ⟨hmem, hheld⟩ := List.mem_filter.mp (h.held ▸ List.mem_cons_self : origin ∈ nodes.filter _)
  have hmem' : origin ∈ nodes'.filter fun n => n.pm.claim = .held := List.mem_filter.mpr ⟨hsub hmem, hheld⟩
  rw [h'.held] at hmem'
  exact List.mem_singleton.mp hmem'

/-- **The holder's signature.** Beside a thread without issues, files that its holder did not sign make a
presentation with an issue, or leave the holder, or take an open give of the holder with the key that it names. -/
theorem holder_kept (C : Crypto) (H : HashFn) (subjectBytes : Option Bytes) (files added files' : List Bytes)
    (t t' : Thread) (hbuild : buildThread C H files subjectBytes = .ok t) (hissues : t.issues = [])
    (hperm : files'.Perm (files ++ added)) (hunsigned : ∀ f ∈ added, ¬ SignedBy f t.holderKey)
    (hbuild' : buildThread C H files' subjectBytes = .ok t') :
    t'.issues ≠ [] ∨ t'.holderKey = t.holderKey ∨ TakesOpenGive H files added t ∨ H.Collides files' files' := by
  by_cases hissues' : t'.issues = []
  · refine .inr ?_
    by_cases hfree : H.Collides files' files'
    · exact .inr (.inr hfree)
    · obtain ⟨nodes, origin, w, h⟩ := built_of_buildThread hbuild hissues
      obtain ⟨nodes', origin', w', h'⟩ := built_of_buildThread hbuild' hissues'
      have hsub : nodes ⊆ nodes' := h.collected.subset h'.collected
        (fun f hf => hperm.mem_iff.mpr (List.mem_append_left _ hf)) hfree
      obtain rfl := h.origin_eq h' hsub
      rcases (run_transfer hsub h.run h'.run h'.last).cases_head with heq | ⟨u, hstep, _⟩
      · rw [h'.holderKey, ← heq, h.holderKey]
        exact .inl rfl
      · exact .inr (.inl (h.next h'.collected hperm hunsigned hfree hstep))
  · exact .inl hissues'

/-! A statement about a key, by the taker, beside an origin. -/

def noteSig : Bytes :=
  [0x5c, 0xf1, 0xe9, 0x1c, 0x0c, 0x0f, 0xb1, 0x49, 0xd2, 0x45, 0x36, 0x09, 0x5f, 0x54, 0x50, 0x6a,
    0x42, 0xfb, 0xf2, 0xae, 0x5f, 0xf4, 0x96, 0x05, 0x05, 0x90, 0x36, 0x40, 0x09, 0x11, 0x17, 0x3b,
    0x34, 0x10, 0xb9, 0x60, 0xb5, 0xf5, 0xc9, 0x37, 0x23, 0x57, 0x59, 0xed, 0x47, 0x67, 0x12, 0x65,
    0xf9, 0x3b, 0x07, 0xb9, 0x9d, 0xcf, 0xef, 0xbb, 0x55, 0xcd, 0xf5, 0x82, 0x50, 0x95, 0x9f, 0x0c]

def noteDigest : Bytes :=
  [0xd0, 0x9a, 0x34, 0xb0, 0xa4, 0xde, 0xf4, 0x35, 0xa3, 0xc6, 0xc5, 0x41, 0x2d, 0x56, 0xb2, 0x27,
    0x17, 0x62, 0xe8, 0xe2, 0x62, 0xda, 0x67, 0x25, 0x84, 0xe2, 0x8d, 0x3d, 0x34, 0xc5, 0x7c, 0xfb]

def sampleNote : Pm :=
  { sampleHeld with
    claim := .controlsKey
    salt := bytesToHex (List.replicate 16 3)
    publicKey := bytesToBase64 takerKey
    signature := bytesToBase64 noteSig }

lemma sampleNote_wellFormed : sampleNote.WellFormed where
  about := sampleHeld_wellFormed.about
  re := nofun
  recipient := nofun
  salt := isHexOf_bytesToHex rfl
  possession := sampleHeld_wellFormed.possession
  publicKey := bytesToBase64_ne_nil (by decide)
  signature := bytesToBase64_ne_nil (by decide)
  give := by decide
  predecessor := by decide
  origin := nofun

def noteCrypto : Crypto := tableCrypto [(pmSigningBytes sampleHeld, heldSig), (pmSigningBytes sampleNote, noteSig)]

/-- It has the digests that SHA-256 has of the two files. -/
def noteHash : HashFn where
  digest b := if b = fileOf sampleHeld then heldDigest else noteDigest
  length_digest b := by split <;> rfl

lemma noteHash_held : noteHash (fileOf sampleHeld) = heldDigest := by
  simp only [noteHash, if_true]

lemma noteHash_note : noteHash (fileOf sampleNote) = noteDigest := by
  have hne : fileOf sampleNote ≠ fileOf sampleHeld := by
    intro h
    have hparsed := parsePm_fileOf sampleNote_wellFormed
    rw [h, parsePm_fileOf sampleHeld_wellFormed] at hparsed
    exact absurd (congrArg Pm.claim (Except.ok.inj hparsed)) (by decide)
  simp only [noteHash, hne, if_false]

def noteLink : ThreadLink := ⟨bytesToHex noteDigest, sampleNote⟩

lemma noteCrypto_held : (checkSignature noteCrypto sampleHeld).1 = true :=
  checkSignature_table rfl rfl ownerKey_loose rfl rfl List.mem_cons_self

lemma noteCrypto_note : (checkSignature noteCrypto sampleNote).1 = true :=
  checkSignature_table rfl rfl takerKey_loose rfl rfl (List.mem_cons_of_mem _ List.mem_cons_self)

lemma thread_held : ∃ t, buildThread noteCrypto noteHash [fileOf sampleHeld] none = .ok t ∧ t.issues = [] ∧
    t.holderKey = sampleHeld.key := by
  have hcollect : collect noteCrypto noteHash none [fileOf sampleHeld] [] [] = .ok ([heldLink], []) := by
    rw [collect_new (parsePm_fileOf sampleHeld_wellFormed) List.not_mem_nil noteCrypto_held, sha256HexOf,
      noteHash_held]
    rfl
  have hwalk : walk noteCrypto [heldLink] (startAt heldLink) = (startAt heldLink, []) := walk_none rfl
  obtain ⟨t, ht, _, hholder, hissues⟩ := @buildThread_eq _ _ _ _ _ _ heldLink hcollect rfl
  rw [hwalk] at hissues hholder
  have hnone : aboutIssues [heldLink] sampleHeld.about ++ [] ++ unconnected [heldLink] [heldLink.sha256Hex] = [] := by
    decide
  exact ⟨t, ht, hissues.trans hnone, hholder⟩

lemma thread_note : ∃ t, buildThread noteCrypto noteHash [fileOf sampleNote, fileOf sampleHeld] none = .ok t ∧
    t.issues = [] := by
  have hnew : sha256HexOf noteHash (fileOf sampleHeld) ∉ [bytesToHex noteDigest] := by
    rw [sha256HexOf, noteHash_held]
    decide
  have hcollect : collect noteCrypto noteHash none [fileOf sampleNote, fileOf sampleHeld] [] []
      = .ok ([noteLink, heldLink], []) := by
    rw [collect_new (parsePm_fileOf sampleNote_wellFormed) List.not_mem_nil noteCrypto_note, sha256HexOf,
      noteHash_note, collect_new (parsePm_fileOf sampleHeld_wellFormed) hnew noteCrypto_held, sha256HexOf,
      noteHash_held]
    rfl
  have hwalk : walk noteCrypto [noteLink, heldLink] (startAt heldLink) = (startAt heldLink, []) := walk_none rfl
  obtain ⟨t, ht, _, _, hissues⟩ := @buildThread_eq _ _ _ _ _ _ heldLink hcollect rfl
  rw [hwalk] at hissues
  have hnone : aboutIssues [noteLink, heldLink] sampleHeld.about ++ []
      ++ unconnected [noteLink, heldLink] [heldLink.sha256Hex] = [] := by
    decide
  exact ⟨t, ht, hissues.trans hnone⟩

theorem holder_kept_note : ∃ t t', buildThread noteCrypto noteHash [fileOf sampleHeld] none = .ok t ∧
    buildThread noteCrypto noteHash [fileOf sampleNote, fileOf sampleHeld] none = .ok t' ∧
    (t'.issues ≠ [] ∨ t'.holderKey = t.holderKey ∨ TakesOpenGive noteHash [fileOf sampleHeld] [fileOf sampleNote] t ∨
      noteHash.Collides [fileOf sampleNote, fileOf sampleHeld] [fileOf sampleNote, fileOf sampleHeld]) := by
  obtain ⟨t, ht, hissues, hholder⟩ := thread_held
  obtain ⟨t', ht', _⟩ := thread_note
  refine ⟨t, t', ht, ht', holder_kept _ _ none _ _ _ t t' ht hissues (List.Perm.swap _ _ []) ?_ ht'⟩
  rintro f hf ⟨pm, hpm, hkey⟩
  rw [List.mem_singleton.mp hf, parsePm_fileOf sampleNote_wellFormed] at hpm
  rw [← Except.ok.inj hpm, hholder] at hkey
  exact absurd (congrArg (fun k : PmKeyRef => k.publicKey.head?) hkey) (by decide)

end Titles

end BitGraph
