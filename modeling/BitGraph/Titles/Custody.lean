import BitGraph.Titles.Thread

/-!
Custody as the specification has it, and what `buildThread` accepts.

* **Specification.** `Custody` is one origin, then gives by the holder and takes by the named key, in turn.
* **Walk.** A step keeps `OnTrack` where no give answers a give; the walk asks of a give only that the holder
  signs it.
* `custody_thread`: a thread without issues follows the specification exactly when no presented give answers
  another one; links and holder do not depend on the order or the repetition of the files.
-/

namespace BitGraph

open Js

namespace Titles

open Player (SigAlg Crypto keyObjectFor)

variable {C : Crypto} {H : HashFn} {subjectBytes : Option Bytes} {files files' : List Bytes}
  {nodes nodes' : List ThreadLink} {w w' : Walk} {n : ThreadLink} {holder : PmKeyRef} {t : Thread}

/-! ### Specification -/

/-- A message names another as its predecessor. -/
def Answers (n last : ThreadLink) : Prop := n.pm.re = some (js "sha256:" ++ last.sha256Hex)

/-- The links of a thread, its holder, and the give that is open. -/
inductive Custody : List ThreadLink → PmKeyRef → Option ThreadLink → Prop
  | origin {o : ThreadLink} : o.pm.claim = .held → Custody [o] o.pm.key none
  | give {links : List ThreadLink} {holder : PmKeyRef} {last g : ThreadLink} : Custody links holder none →
      links.getLast? = some last → g.pm.claim = .give → Answers g last → g.pm.key = holder →
      Custody (links ++ [g]) holder (some g)
  | take {links : List ThreadLink} {holder : PmKeyRef} {g t : ThreadLink} : Custody links holder (some g) →
      t.pm.claim = .take → Answers t g → g.pm.recipient = some t.pm.key →
      Custody (links ++ [t]) t.pm.key none

/-- The key of the last take, of the origin when there is none. -/
def holderOf (links : List ThreadLink) : Option PmKeyRef :=
  (((links.filter fun l => l.pm.claim = .take).getLast?).or links.head?).map fun l => l.pm.key

/-- What the specification says of a thread. -/
structure FollowsSpec (C : Crypto) (H : HashFn) (files : List Bytes) (t : Thread) : Prop where
  custody : ∃ offered, Custody t.links t.holderKey offered
  complete : ∀ f ∈ files, ∀ pm, parsePm f = .ok pm → pm.claim = .held ∨ pm.claim = .give ∨ pm.claim = .take →
    (⟨sha256HexOf H f, pm⟩ : ThreadLink) ∈ t.links
  presented : ∀ l ∈ t.links, ∃ f ∈ files, parsePm f = .ok l.pm ∧ l.sha256Hex = sha256HexOf H f
  once : (t.links.map ThreadLink.sha256Hex).Nodup
  signed : ∀ l ∈ t.links, (checkSignature C l.pm).1 = true
  holder : holderOf t.links = some t.holderKey

/-- A presented give names another presented give as its predecessor. -/
def GiveOnGive (H : HashFn) (files : List Bytes) : Prop :=
  ∃ f ∈ files, ∃ g ∈ files, ∃ pm pm', parsePm f = .ok pm ∧ parsePm g = .ok pm' ∧
    pm.claim = .give ∧ pm'.claim = .give ∧ pm'.re = some (digestSpelling H f)

/-! Custody starts at an origin, and its holder is the last taker. -/

lemma holderOf_snoc {links : List ThreadLink} (hne : links ≠ []) (h : n.pm.claim ≠ .take) :
    holderOf (links ++ [n]) = holderOf links := by
  obtain ⟨l, links, rfl⟩ := List.exists_cons_of_ne_nil hne
  simp [holderOf, h]

lemma holderOf_take {links : List ThreadLink} (h : n.pm.claim = .take) :
    holderOf (links ++ [n]) = some n.pm.key := by
  simp [holderOf, List.filter_append, h]

lemma Custody.ne_nil {links : List ThreadLink} {offered : Option ThreadLink} (h : Custody links holder offered) :
    links ≠ [] := by
  cases h <;> simp

lemma Custody.holderOf {links : List ThreadLink} {offered : Option ThreadLink} (h : Custody links holder offered) :
    holderOf links = some holder := by
  induction h with
  | origin ho => simp [Titles.holderOf, ho]
  | give h _ hg _ _ ih => rw [holderOf_snoc h.ne_nil (by simp [hg]), ih]
  | take _ ht _ _ _ => exact holderOf_take ht

/-- A give in custody answers a link that is not a give. -/
lemma Custody.answered {links : List ThreadLink} {offered : Option ThreadLink} (h : Custody links holder offered) :
    (offered = none → ∀ last, links.getLast? = some last → last.pm.claim ≠ .give) ∧
      ∀ g ∈ links, g.pm.claim = .give → ∃ last ∈ links, Answers g last ∧ last.pm.claim ≠ .give := by
  induction h with
  | @origin o ho =>
      refine ⟨fun _ last hlast => ?_, fun g hg hgive => ?_⟩
      · obtain rfl : o = last := by simpa using hlast
        simp [ho]
      · rw [List.mem_singleton.mp hg, ho] at hgive
        cases hgive
  | @give links holder last g h hlast hg hanswers _ ih =>
      refine ⟨nofun, fun g' hg' hgive => ?_⟩
      rcases List.mem_append.mp hg' with hg' | hg'
      · obtain ⟨m, hm, h⟩ := ih.2 g' hg' hgive
        exact ⟨m, List.mem_append_left _ hm, h⟩
      · rw [List.mem_singleton.mp hg']
        exact ⟨last, List.mem_append_left _ (List.mem_of_getLast? hlast), hanswers, ih.1 rfl last hlast⟩
  | @take links holder g t h ht _ _ ih =>
      refine ⟨fun _ last hlast => ?_, fun g' hg' hgive => ?_⟩
      · obtain rfl : t = last := by simpa using hlast
        simp [ht]
      · rcases List.mem_append.mp hg' with hg' | hg'
        · obtain ⟨m, hm, h⟩ := ih.2 g' hg' hgive
          exact ⟨m, List.mem_append_left _ hm, h⟩
        · rw [List.mem_singleton.mp hg', ht] at hgive
          cases hgive

/-! ### Walk -/

lemma mem_following_iff : n ∈ following nodes w.cursor ↔
    n ∈ nodes ∧ n.pm.re.map (List.drop 7) = some w.cursor.sha256Hex ∧ isMove n = true := by
  simp only [following, repliesTo, List.mem_filter, decide_eq_true_eq, and_assoc]

/-- A predecessor is spelled with its label. -/
lemma Nodes.answers (h : Nodes H files nodes) (hn : n ∈ nodes) {last : ThreadLink}
    (hre : n.pm.re.map (List.drop 7) = some last.sha256Hex) : Answers n last := by
  obtain ⟨f, _, hpm, _⟩ := h.source n hn
  obtain ⟨re, hsome, hdrop⟩ := Option.map_eq_some_iff.mp hre
  obtain ⟨hex, _, hspelled⟩ := (parsePm_eq_ok.mp hpm).1.re re hsome
  have hhex : re.drop 7 = hex := hspelled ▸ rfl
  rw [Answers, hsome, hspelled, ← hdrop, hhex]

/-- What the gate lets through. -/
lemma gate_ok (h : gate C w n = .ok holder) (hmove : isMove n = true) :
    (n.pm.claim = .give ∧ n.pm.key = w.holderKey ∧ holder = w.holderKey) ∨
      (n.pm.claim = .take ∧ w.cursor.pm.claim = .give ∧ w.cursor.pm.recipient = some n.pm.key ∧
        holder = n.pm.key) := by
  rw [gate] at h
  split at h
  · next hgive =>
    split at h
    · cases h
    · next hkey =>
      split at h
      · cases h
      · exact .inl ⟨hgive, (not_not.mp hkey).symm, (Except.ok.inj h).symm⟩
  · next hgive =>
    split at h
    · cases h
    · next hcursor =>
      split at h
      · cases h
      · next hkey =>
        have htake : n.pm.claim = .take := by simpa [isMove, hgive] using hmove
        exact .inr ⟨htake, not_not.mp hcursor, not_not.mp hkey, (Except.ok.inj h).symm⟩

lemma gate_give {key : PmKeyRef} {keyObject : C.KeyObject} (hgive : n.pm.claim = .give)
    (hkey : w.holderKey = n.pm.key) (hnamed : n.pm.recipient = some key)
    (hobject : keyObjectFor C key = some keyObject) : gate C w n = .ok w.holderKey := by
  rw [gate, if_pos hgive, if_neg (not_not.mpr hkey), hnamed, Option.bind_some, hobject]
  rfl

def openGive (cursor : ThreadLink) : Option ThreadLink :=
  if cursor.pm.claim = .give then some cursor else none

/-- The invariant of the walk. -/
structure OnTrack (nodes : List ThreadLink) (w : Walk) : Prop where
  custody : Custody w.links w.holderKey (openGive w.cursor)
  last : w.links.getLast? = some w.cursor
  visited : ∀ hex, hex ∈ w.visited ↔ hex ∈ w.links.map ThreadLink.sha256Hex
  once : (w.links.map ThreadLink.sha256Hex).Nodup
  presented : w.links ⊆ nodes

lemma onTrack_startAt {origin : ThreadLink} (hmem : origin ∈ nodes) (hheld : origin.pm.claim = .held) :
    OnTrack nodes (startAt origin) where
  custody := by
    have hopen : openGive origin = none := by rw [openGive, hheld]; rfl
    rw [startAt, hopen]
    exact .origin hheld
  last := rfl
  visited _ := Iff.rfl
  once := List.nodup_singleton _
  presented := by simpa [startAt] using hmem

lemma OnTrack.snoc (h : OnTrack nodes w) (hmem : n ∈ nodes) (hnew : n.sha256Hex ∉ w.visited)
    (hcustody : Custody (w.links ++ [n]) holder (openGive n)) :
    OnTrack nodes ⟨w.links ++ [n], holder, n, n.sha256Hex :: w.visited⟩ where
  custody := hcustody
  last := List.getLast?_concat
  visited hex := by simp [h.visited hex, or_comm]
  once := by
    rw [List.map_append]
    exact h.once.append (List.nodup_singleton _) (List.disjoint_singleton.mpr ((h.visited _).not.mp hnew))
  presented := List.append_subset.mpr ⟨h.presented, by simpa using hmem⟩

/-- A step keeps the invariant, where no give answers a give. -/
lemma Moves.onTrack (hnodes : Nodes H files nodes)
    (halternate : ∀ g ∈ nodes, ∀ g' ∈ nodes, g.pm.claim = .give → g'.pm.claim = .give → ¬ Answers g' g)
    (hstep : Moves C nodes w w') (h : OnTrack nodes w) : OnTrack nodes w' := by
  obtain ⟨n, holder, hone, hnew, hgate, rfl⟩ := hstep
  obtain ⟨hmem, hre, hmove⟩ := mem_following_iff.mp (hone ▸ List.mem_cons_self : n ∈ following nodes w.cursor)
  have hanswers := hnodes.answers hmem hre
  have hcursor : w.cursor ∈ nodes := h.presented (List.mem_of_getLast? h.last)
  have hcustody := h.custody
  refine h.snoc hmem hnew ?_
  rcases gate_ok hgate hmove with ⟨hgive, hkey, rfl⟩ | ⟨htake, hopen, hkey, rfl⟩
  · have hnone : openGive w.cursor = none :=
      if_neg fun hcursorGive => halternate _ hcursor _ hmem hcursorGive hgive hanswers
    rw [hnone] at hcustody
    rw [show openGive n = some n from if_pos hgive]
    exact .give hcustody h.last hgive hanswers hkey
  · rw [openGive, if_pos hopen] at hcustody
    rw [show openGive n = none by rw [openGive, htake]; rfl]
    exact .take hcustody htake hanswers hkey

/-- A run keeps it. -/
lemma onTrack_run (hnodes : Nodes H files nodes)
    (halternate : ∀ g ∈ nodes, ∀ g' ∈ nodes, g.pm.claim = .give → g'.pm.claim = .give → ¬ Answers g' g)
    (hrun : Relation.ReflTransGen (Moves C nodes) w w') (h : OnTrack nodes w) : OnTrack nodes w' := by
  induction hrun with
  | refl => exact h
  | tail _ hstep ih => exact hstep.onTrack hnodes halternate ih

/-! ### Threads -/

variable {origin : ThreadLink}

/-- A presented message that moves the subject, or its origin, joined the walk. -/
lemma Built.mem_links (h : Built C H subjectBytes files t nodes origin w) (htrack : OnTrack nodes w)
    (hn : n ∈ nodes) (hclaim : n.pm.claim = .held ∨ n.pm.claim = .give ∨ n.pm.claim = .take) : n ∈ t.links := by
  have hkey : n.pm.claim ≠ .controlsKey ∧ n.pm.claim ≠ .supersedes := by
    rcases hclaim with h | h | h <;> simp [h]
  obtain ⟨l, hl, hhex⟩ := List.mem_map.mp ((htrack.visited _).mp (h.joined n hn hkey.1 hkey.2))
  have heq := List.inj_on_of_nodup_map h.collected.nodup (htrack.presented hl) hn hhex
  rw [h.links, ← heq]
  exact hl

/-- Where no give answers a give, the specification is followed. -/
lemma Built.followsSpec (h : Built C H subjectBytes files t nodes origin w) (hfree : ¬ H.Collides files files)
    (halternate : ¬ GiveOnGive H files) : FollowsSpec C H files t := by
  have hno : ∀ g ∈ nodes, ∀ g' ∈ nodes, g.pm.claim = .give → g'.pm.claim = .give → ¬ Answers g' g := by
    intro g hg g' hg' hgive hgive' hanswers
    obtain ⟨f, hf, hpm, hhex⟩ := h.collected.source g hg
    obtain ⟨f', hf', hpm', _⟩ := h.collected.source g' hg'
    refine halternate ⟨f, hf, f', hf', g.pm, g'.pm, hpm, hpm', hgive, hgive', ?_⟩
    rw [hanswers, hhex, digestSpelling]
  obtain ⟨horigin, hheld⟩ := List.mem_filter.mp (h.held ▸ List.mem_cons_self : origin ∈ nodes.filter _)
  have htrack := onTrack_run h.collected hno h.run (onTrack_startAt horigin (of_decide_eq_true hheld))
  have hcustody : Custody t.links t.holderKey (openGive w.cursor) := by
    rw [h.links, h.holderKey]
    exact htrack.custody
  refine ⟨⟨_, hcustody⟩, ?_, ?_, ?_, ?_, hcustody.holderOf⟩
  · exact fun f hf pm hpm hclaim => h.mem_links htrack (h.collected.mem hfree hf hpm) hclaim
  · exact fun l hl => h.collected.source l (htrack.presented (h.links ▸ hl))
  · exact h.links ▸ htrack.once
  · intro l hl
    have hquiet := h.quiet l (htrack.presented (h.links ▸ hl))
    by_contra hsig
    simp [messageIssues, checkPm, issueIf, hsig] at hquiet

/-- A thread that follows the specification has no give that answers a give. -/
lemma FollowsSpec.alternate (h : FollowsSpec C H files t) : ¬ GiveOnGive H files := by
  rintro ⟨f, hf, g, hg, pm, pm', hpm, hpm', hgive, hgive', hre⟩
  obtain ⟨offered, hcustody⟩ := h.custody
  obtain ⟨last, hlast, hanswers, hclaim⟩ :=
    hcustody.answered.2 _ (h.complete g hg pm' hpm' (.inr (.inl hgive'))) hgive'
  have hmem := h.complete f hf pm hpm (.inr (.inl hgive))
  -- the two predecessors have one digest, so they are one link
  have hhex : last.sha256Hex = sha256HexOf H f := by
    rw [Answers, hre, digestSpelling] at hanswers
    exact (List.append_cancel_left (Option.some.inj hanswers)).symm
  have heq := List.inj_on_of_nodup_map h.once hlast hmem hhex
  rw [heq] at hclaim
  exact hclaim hgive

/-- The links and the holder. -/
def Thread.custody (t : Thread) : List ThreadLink × PmKeyRef := (t.links, t.holderKey)

/-- The same files have the same links and the same holder. -/
lemma buildThread_same (hfree : ¬ H.Collides files files) (hsame : ∀ f, f ∈ files ↔ f ∈ files') :
    (buildThread C H files subjectBytes).toOption.map Thread.custody
      = (buildThread C H files' subjectBytes).toOption.map Thread.custody := by
  have hok := @collect_eq_ok_iff C H subjectBytes
  rcases hcollect : collect C H subjectBytes files [] [] with e | ⟨nodes, issues⟩
  · rcases hcollect' : collect C H subjectBytes files' [] [] with e' | r
    · rw [buildThread_error hcollect, buildThread_error hcollect']
    · -- a file that is not read is one of both
      obtain ⟨r', hr'⟩ := hok.mpr fun f hf => hok.mp ⟨r, hcollect'⟩ f ((hsame f).mp hf)
      cases hcollect.symm.trans hr'
  · obtain ⟨⟨nodes', issues'⟩, hcollect'⟩ := hok.mpr fun f hf => hok.mp ⟨_, hcollect⟩ f ((hsame f).mpr hf)
    have hperm : nodes.Perm nodes' :=
      (collect_spec nodes_nil hcollect).1.perm (collect_spec nodes_nil hcollect').1 hfree hsame
    have horigins := hperm.filter fun n => n.pm.claim = .held
    by_cases hone : ∃ origin, nodes.filter (fun n => n.pm.claim = .held) = [origin]
    · obtain ⟨origin, horigin⟩ := hone
      have horigin' := List.perm_singleton.mp (horigin ▸ horigins).symm
      obtain ⟨t, ht, hlinks, hholder, _⟩ := buildThread_eq hcollect horigin
      obtain ⟨t', ht', hlinks', hholder', _⟩ := buildThread_eq hcollect' horigin'
      rw [← walk_perm hperm] at hlinks' hholder'
      have hcustody : t.custody = t'.custody := by
        rw [Thread.custody, Thread.custody, hlinks, hholder, hlinks', hholder']
      rw [ht, ht']
      exact congrArg some hcustody
    · have hone' : ∀ origin, nodes'.filter (fun n => n.pm.claim = .held) ≠ [origin] := fun origin horigin =>
        hone ⟨origin, List.perm_singleton.mp (horigin ▸ horigins)⟩
      rw [buildThread_origins hcollect fun origin horigin => hone ⟨origin, horigin⟩,
        buildThread_origins hcollect' hone']

/-- **Custody.** A thread without issues follows the specification exactly when no presented give answers another
presented give; the links and the holder depend neither on the order nor on the repetition of the files. Both
where no two files have one digest. -/
theorem custody_thread (C : Crypto) (H : HashFn) (subjectBytes : Option Bytes) (files : List Bytes) :
    ((∀ t, buildThread C H files subjectBytes = .ok t → t.issues = [] →
        (FollowsSpec C H files t ↔ ¬ GiveOnGive H files)) ∧
      ∀ files', (∀ f, f ∈ files ↔ f ∈ files') →
        (buildThread C H files' subjectBytes).toOption.map Thread.custody
          = (buildThread C H files subjectBytes).toOption.map Thread.custody) ∨
    H.Collides files files := by
  by_cases hfree : H.Collides files files
  · exact .inr hfree
  · refine .inl ⟨fun t ht hissues => ?_, fun files' hsame => (buildThread_same hfree hsame).symm⟩
    obtain ⟨nodes, origin, w, hbuilt⟩ := built_of_buildThread ht hissues
    exact ⟨FollowsSpec.alternate, hbuilt.followsSpec hfree⟩

/-! ### Two gives in a row -/

/-- The key that the gives name. -/
def takerKey : Bytes :=
  [0x81, 0x39, 0x77, 0x0e, 0xa8, 0x7d, 0x17, 0x5f, 0x56, 0xa3, 0x54, 0x66, 0xc3, 0x4c, 0x7e, 0xcc,
    0xcb, 0x8d, 0x8a, 0x91, 0xb4, 0xee, 0x37, 0xa2, 0x5d, 0xf6, 0x0f, 0x5b, 0x8f, 0xc9, 0xb3, 0x94]

lemma takerKey_loose : Player.isB64Loose (bytesToBase64 takerKey) = true := by decide

def giveSig : Bytes :=
  [0x86, 0x4e, 0xbb, 0xa5, 0xf7, 0x4c, 0xb7, 0xe9, 0x07, 0x35, 0x40, 0x4b, 0x91, 0x15, 0x63, 0xaf,
    0x1c, 0xb1, 0x52, 0xc4, 0x83, 0x8d, 0x7e, 0x79, 0x84, 0xd7, 0xab, 0x84, 0x87, 0xdb, 0x4c, 0x33,
    0x6a, 0xf9, 0xf6, 0xcf, 0xbd, 0xc9, 0x40, 0x39, 0x25, 0x7d, 0x97, 0x56, 0xaa, 0xe2, 0x18, 0xe3,
    0xad, 0xc5, 0xd9, 0x97, 0x81, 0xfb, 0x4e, 0xa2, 0x3e, 0x90, 0x34, 0x1d, 0x77, 0xe0, 0xee, 0x0c]

def secondGiveSig : Bytes :=
  [0x4b, 0x71, 0xec, 0xb9, 0xd6, 0x13, 0x7a, 0x82, 0x0d, 0x6e, 0xe4, 0x73, 0xbb, 0x54, 0x75, 0xd5,
    0xaf, 0x1c, 0x13, 0x33, 0x64, 0x57, 0xc8, 0x94, 0x04, 0xfe, 0x96, 0x3e, 0xd2, 0x74, 0x36, 0x2e,
    0x85, 0x44, 0x9b, 0x63, 0x49, 0xa2, 0x95, 0x31, 0x43, 0x7c, 0x19, 0x18, 0x2a, 0x20, 0x8b, 0xbc,
    0x07, 0xdb, 0x18, 0xcc, 0xcb, 0xeb, 0x7f, 0x88, 0x85, 0x4b, 0x29, 0xa0, 0x16, 0xb5, 0x3a, 0x06]

/-! The SHA-256 digests of the three files. -/

def heldDigest : Bytes :=
  [0xaf, 0xe7, 0xeb, 0x83, 0xf7, 0x83, 0xc9, 0xa8, 0x8c, 0x6a, 0x3d, 0xf3, 0x5f, 0xe8, 0xa9, 0xde,
    0x2a, 0x22, 0x72, 0x7f, 0x9b, 0xbf, 0x79, 0x54, 0xaa, 0x92, 0x9f, 0xb6, 0xa0, 0x98, 0x11, 0x29]

def giveDigest : Bytes :=
  [0x26, 0xa3, 0xc8, 0xbd, 0xd3, 0x6f, 0xa4, 0xbf, 0x49, 0x06, 0x5b, 0xf7, 0x17, 0x2c, 0xe7, 0x31,
    0x9c, 0x0a, 0x39, 0x38, 0x70, 0x5e, 0x63, 0x10, 0xa5, 0x7c, 0x47, 0x85, 0x10, 0xfb, 0xd6, 0x33]

def secondGiveDigest : Bytes :=
  [0x60, 0xd7, 0x0f, 0x2f, 0x92, 0x36, 0x01, 0x42, 0xa4, 0xc7, 0x78, 0x40, 0x89, 0x71, 0xbf, 0xd1,
    0x20, 0xaf, 0x36, 0x7d, 0xc3, 0x37, 0x2d, 0x7a, 0x05, 0x78, 0xa4, 0x9c, 0xf0, 0x44, 0xb5, 0xcd]

/-- A give by the owner that answers a message. -/
def giveBy (re : Bytes) (salt : UInt8) (sig : Bytes) : Pm where
  about := sampleHeld.about
  claim := .give
  re := some (js "sha256:" ++ bytesToHex re)
  recipient := some ⟨.ed25519, bytesToBase64 takerKey⟩
  body := none
  salt := bytesToHex (List.replicate 16 salt)
  possession := sampleHeld.possession
  alg := .ed25519
  publicKey := sampleHeld.publicKey
  signature := bytesToBase64 sig

def sampleGive : Pm := giveBy heldDigest 1 giveSig

def sampleSecondGive : Pm := giveBy giveDigest 2 secondGiveSig

def threadCrypto : Crypto :=
  tableCrypto [(pmSigningBytes sampleHeld, heldSig), (pmSigningBytes sampleGive, giveSig),
    (pmSigningBytes sampleSecondGive, secondGiveSig)]

lemma giveBy_wellFormed {re sig : Bytes} {salt : UInt8} (hre : re.length = 32) (hsig : sig.length ≠ 0) :
    (giveBy re salt sig).WellFormed where
  about := sampleHeld_wellFormed.about
  re r hr := Option.mem_some.mp hr ▸ digestSpelling_bytesToHex hre
  recipient k hk := Option.mem_some.mp hk ▸ bytesToBase64_ne_nil (by decide)
  salt := isHexOf_bytesToHex (by rw [List.length_replicate])
  possession := sampleHeld_wellFormed.possession
  publicKey := sampleHeld_wellFormed.publicKey
  signature := bytesToBase64_ne_nil hsig
  give := iff_of_true rfl rfl
  predecessor _ := rfl
  origin := nofun

lemma sampleGive_wellFormed : sampleGive.WellFormed := giveBy_wellFormed rfl (by decide)

lemma sampleSecondGive_wellFormed : sampleSecondGive.WellFormed := giveBy_wellFormed rfl (by decide)

/-- The file of a message. -/
def fileOf (pm : Pm) : Bytes := utf8Encode (serializePm pm)

lemma parsePm_fileOf {pm : Pm} (h : pm.WellFormed) : parsePm (fileOf pm) = .ok pm := parsePm_eq_ok.mpr ⟨h, rfl⟩

/-- It has the digests that SHA-256 has of the three files. -/
def sampleHash : HashFn where
  digest b :=
    if b = fileOf sampleHeld then heldDigest
    else if b = fileOf sampleGive then giveDigest
    else secondGiveDigest
  length_digest b := by
    split
    · rfl
    · split <;> rfl

lemma give_ne_held : fileOf sampleGive ≠ fileOf sampleHeld := by
  intro h
  have hparsed := parsePm_fileOf sampleGive_wellFormed
  rw [h, parsePm_fileOf sampleHeld_wellFormed] at hparsed
  exact absurd (congrArg Pm.claim (Except.ok.inj hparsed)) (by decide)

lemma secondGive_ne_held : fileOf sampleSecondGive ≠ fileOf sampleHeld := by
  intro h
  have hparsed := parsePm_fileOf sampleSecondGive_wellFormed
  rw [h, parsePm_fileOf sampleHeld_wellFormed] at hparsed
  exact absurd (congrArg Pm.claim (Except.ok.inj hparsed)) (by decide)

lemma secondGive_ne_give : fileOf sampleSecondGive ≠ fileOf sampleGive := by
  intro h
  have hparsed := parsePm_fileOf sampleSecondGive_wellFormed
  rw [h, parsePm_fileOf sampleGive_wellFormed] at hparsed
  exact absurd (congrArg Pm.salt (Except.ok.inj hparsed)) (by decide)

lemma hash_held : sampleHash (fileOf sampleHeld) = heldDigest := by
  simp only [sampleHash, if_true]

lemma hash_give : sampleHash (fileOf sampleGive) = giveDigest := by
  simp only [sampleHash, give_ne_held, if_false, if_true]

lemma hash_secondGive : sampleHash (fileOf sampleSecondGive) = secondGiveDigest := by
  simp only [sampleHash, secondGive_ne_held, secondGive_ne_give, if_false]

/-- A message that verifies and was not there. -/
lemma collect_new {f : Bytes} {pm : Pm} {issues : List Str} (hpm : parsePm f = .ok pm)
    (hnew : sha256HexOf H f ∉ nodes.map ThreadLink.sha256Hex) (hsig : (checkSignature C pm).1 = true) :
    collect C H none (f :: files) nodes issues = collect C H none files (nodes ++ [⟨sha256HexOf H f, pm⟩]) issues := by
  have hany : (nodes.any fun n => n.sha256Hex = sha256HexOf H f) = false := by
    rw [← Bool.not_eq_true, List.any_eq_true]
    rintro ⟨n, hn, heq⟩
    exact hnew (List.mem_map.mpr ⟨n, hn, of_decide_eq_true heq⟩)
  have hquiet : messageIssues (sha256HexOf H f) (checkPm C H pm none) = [] := by
    simp [messageIssues, checkPm, hsig, checkPossession, issueIf]
  rw [collect, hpm]
  dsimp only
  rw [hany, if_neg (by simp), hquiet, List.append_nil]

/-- The links of the three files. -/
def heldLink : ThreadLink := ⟨bytesToHex heldDigest, sampleHeld⟩

def giveLink : ThreadLink := ⟨bytesToHex giveDigest, sampleGive⟩

def secondGiveLink : ThreadLink := ⟨bytesToHex secondGiveDigest, sampleSecondGive⟩

def sampleNodes : List ThreadLink := [heldLink, giveLink, secondGiveLink]

def sampleFiles : List Bytes := [fileOf sampleHeld, fileOf sampleGive, fileOf sampleSecondGive]

lemma collect_sample : collect threadCrypto sampleHash none sampleFiles [] [] = .ok (sampleNodes, []) := by
  have hheld : (checkSignature threadCrypto sampleHeld).1 = true :=
    checkSignature_table rfl rfl ownerKey_loose rfl rfl List.mem_cons_self
  have hgive : (checkSignature threadCrypto sampleGive).1 = true :=
    checkSignature_table rfl rfl ownerKey_loose rfl rfl (List.mem_cons_of_mem _ List.mem_cons_self)
  have hsecond : (checkSignature threadCrypto sampleSecondGive).1 = true :=
    checkSignature_table rfl rfl ownerKey_loose rfl rfl
      (List.mem_cons_of_mem _ (List.mem_cons_of_mem _ List.mem_cons_self))
  have hnew : sha256HexOf sampleHash (fileOf sampleGive) ∉ [bytesToHex heldDigest] := by
    rw [sha256HexOf, hash_give]
    decide
  have hnew' : sha256HexOf sampleHash (fileOf sampleSecondGive)
      ∉ [bytesToHex heldDigest, bytesToHex giveDigest] := by
    rw [sha256HexOf, hash_secondGive]
    decide
  rw [sampleFiles, collect_new (parsePm_fileOf sampleHeld_wellFormed) List.not_mem_nil hheld, sha256HexOf, hash_held,
    collect_new (parsePm_fileOf sampleGive_wellFormed) hnew hgive, sha256HexOf, hash_give,
    collect_new (parsePm_fileOf sampleSecondGive_wellFormed) hnew' hsecond, sha256HexOf, hash_secondGive]
  rfl

/-- Where the walk of the sample ends. -/
def sampleEnd : Walk where
  links := sampleNodes
  holderKey := sampleHeld.key
  cursor := secondGiveLink
  visited := [secondGiveLink.sha256Hex, giveLink.sha256Hex, heldLink.sha256Hex]

lemma walk_sample : walk threadCrypto sampleNodes (startAt heldLink) = (sampleEnd, []) := by
  have hobject : keyObjectFor threadCrypto ⟨.ed25519, bytesToBase64 takerKey⟩ = some _ :=
    keyObjectFor_table takerKey_loose rfl
  have hfirst : Moves threadCrypto sampleNodes (startAt heldLink)
      ⟨[heldLink, giveLink], sampleHeld.key, giveLink, [giveLink.sha256Hex, heldLink.sha256Hex]⟩ :=
    ⟨giveLink, sampleHeld.key, by decide, by decide, gate_give rfl rfl rfl hobject, rfl⟩
  have hsecond : Moves threadCrypto sampleNodes
      ⟨[heldLink, giveLink], sampleHeld.key, giveLink, [giveLink.sha256Hex, heldLink.sha256Hex]⟩ sampleEnd :=
    ⟨secondGiveLink, sampleHeld.key, by decide, by decide, gate_give rfl rfl rfl hobject, rfl⟩
  rw [walk_step hfirst, walk_step hsecond, walk_none (by decide)]

/-- Both gives are signed by the origin's key, and nothing is reported. -/
theorem give_answers_give : ¬ ∀ files t, buildThread threadCrypto sampleHash files none = .ok t → t.issues = [] →
    ∃ offered, Custody t.links t.holderKey offered := by
  have horigin : sampleNodes.filter (fun n => n.pm.claim = .held) = [heldLink] := rfl
  obtain ⟨t, ht, hlinks, _, hissues⟩ := buildThread_eq collect_sample horigin
  have habout : aboutIssues sampleNodes ((sampleNodes.head?.map fun n => n.pm.about).getD []) = [] := by
    decide
  have hjoined : unconnected sampleNodes sampleEnd.visited = [] := by decide
  rw [walk_sample, habout] at hissues
  rw [walk_sample] at hlinks
  intro h
  obtain ⟨offered, hcustody⟩ := h sampleFiles t ht (hissues.trans hjoined)
  have hmem : secondGiveLink ∈ t.links := by
    rw [hlinks]
    exact List.mem_of_getLast? rfl
  -- the second give would have to answer the origin
  obtain ⟨last, hlast, hanswers, hclaim⟩ := hcustody.answered.2 _ hmem rfl
  rw [hlinks] at hlast
  have hno : ∀ last ∈ sampleNodes, last.pm.claim ≠ .give →
      bytesToHex giveDigest ≠ last.sha256Hex := by
    decide
  exact hno last hlast hclaim (List.append_cancel_left (Option.some.inj hanswers))

end Titles

end BitGraph
