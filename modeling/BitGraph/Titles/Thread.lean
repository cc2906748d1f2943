import BitGraph.Titles.Identity

/-!
`buildThread`: custody from message files in any order.

* **Nodes.** `collect` parses the files and drops repetitions; `Nodes` says what it leaves.
* **Walk.** `walk` follows the replies from the origin while the gates let it; `Moves` is one step of it, and
  `walk_spec` says that a walk is a run of steps that stops.
-/

namespace BitGraph

open Js

namespace Titles

open Player (SigAlg Crypto keyObjectFor)

structure ThreadLink where
  sha256Hex : Str
  pm : Pm
  deriving DecidableEq

/-- The key that signs a message. -/
def Pm.key (pm : Pm) : PmKeyRef := ⟨pm.alg, pm.publicKey⟩

structure Thread where
  about : Str
  links : List ThreadLink
  head : ThreadLink
  holderKey : PmKeyRef
  issues : List Str

/-- A `PmError` of a file, or a `ThreadError`. -/
inductive ThreadError where
  | message (e : PmError)
  | issues (l : List Str)

section Build

variable (C : Crypto) (H : HashFn)

/-! ### Nodes -/

def shortHex (hex : Str) : Str := hex.take 12 ++ js "…"

def messageIssues (hex : Str) (check : PmCheck) : List Str :=
  issueIf (!check.signature) (js "message " ++ shortHex hex ++ js ": signature does not verify")
    ++ issueIf (check.possession = .refuted)
        (js "message " ++ shortHex hex ++ js ": possession hash refuted by the supplied subject bytes")

/-- The loop over the files; a digest that is there already is a repetition. -/
def collect (subjectBytes : Option Bytes) :
    List Bytes → List ThreadLink → List Str → Except ThreadError (List ThreadLink × List Str)
  | [], nodes, issues => .ok (nodes, issues)
  | bytes :: files, nodes, issues =>
      match parsePm bytes with
      | .error e => .error (.message e)
      | .ok pm =>
          let hex := sha256HexOf H bytes
          if nodes.any fun n => n.sha256Hex = hex then collect subjectBytes files nodes issues
          else
            collect subjectBytes files (nodes ++ [⟨hex, pm⟩])
              (issues ++ messageIssues hex (checkPm C H pm subjectBytes))

/-! ### Walk -/

/-- The messages that name a predecessor, in the order of the nodes. -/
def repliesTo (nodes : List ThreadLink) (hex : Str) : List ThreadLink :=
  nodes.filter fun n => n.pm.re.map (List.drop 7) = some hex

def isMove (n : ThreadLink) : Bool := n.pm.claim = .give || n.pm.claim = .take

/-- The replies that move the subject. -/
def following (nodes : List ThreadLink) (cursor : ThreadLink) : List ThreadLink :=
  (repliesTo nodes cursor.sha256Hex).filter isMove

lemma mem_of_mem_following {nodes : List ThreadLink} {cursor n : ThreadLink} (h : n ∈ following nodes cursor) :
    n ∈ nodes :=
  (List.mem_filter.mp (List.mem_filter.mp h).1).1

/-- A visit leaves fewer messages. -/
lemma length_unvisited {nodes : List ThreadLink} {node : ThreadLink} {visited : List Str} (h : node ∈ nodes)
    (hv : node.sha256Hex ∉ visited) :
    (nodes.filter fun n => n.sha256Hex ∉ node.sha256Hex :: visited).length
      < (nodes.filter fun n => n.sha256Hex ∉ visited).length := by
  have hsplit : (nodes.filter fun n => n.sha256Hex ∉ node.sha256Hex :: visited)
      = (nodes.filter fun n => n.sha256Hex ∉ visited).filter fun n => n.sha256Hex ≠ node.sha256Hex := by
    rw [List.filter_filter]
    refine List.filter_congr fun n _ => ?_
    simp [not_or]
  rw [hsplit, List.length_filter_lt_length_iff_exists]
  exact ⟨node, List.mem_filter.mpr ⟨h, by simpa using hv⟩, by simp⟩

/-- The links so far, the holder, the last message, and what was visited. -/
structure Walk where
  links : List ThreadLink
  holderKey : PmKeyRef
  cursor : ThreadLink
  visited : List Str

/-- The walk at its origin. -/
def startAt (origin : ThreadLink) : Walk := ⟨[origin], origin.pm.key, origin, [origin.sha256Hex]⟩

/-- The holder after a message, or why it does not extend the thread. -/
def gate (w : Walk) (node : ThreadLink) : Except Str PmKeyRef :=
  if node.pm.claim = .give then
    if w.holderKey ≠ node.pm.key then
      .error (js "give " ++ shortHex node.sha256Hex ++ js " is not signed by the current holder key; "
        ++ js "only the holder can offer the subject onward")
    else if (node.pm.recipient.bind (keyObjectFor C)).isNone then
      .error (js "give " ++ shortHex node.sha256Hex ++ js ": \"to\" is not decodable key material")
    else .ok w.holderKey
  else if w.cursor.pm.claim ≠ .give then
    .error (js "take " ++ shortHex node.sha256Hex ++ js " replies to a \"" ++ w.cursor.pm.claim.text
      ++ js "\", not to a give")
  else if w.cursor.pm.recipient ≠ some node.pm.key then
    .error (js "take " ++ shortHex node.sha256Hex ++ js " is signed by a key the give did not name; "
      ++ js "a conveyance is give-names-taker, take-signed-by-named-key")
  else .ok node.pm.key

def cycleIssue (hex : Str) : Str :=
  js "message " ++ shortHex hex ++ js " appears twice in the reply walk (cycle)"

def branchIssue (hex : Str) (replies : ℕ) : Str :=
  js "message " ++ shortHex hex ++ js " has " ++ decimal replies ++ js " replies in this presentation; "
    ++ js "a presented thread must be linear — competing replies race at the adjudication layer, not here"

/-- The loop of the walk, and the issue it stops with. -/
def walk (nodes : List ThreadLink) (w : Walk) : Walk × List Str :=
  match _h : following nodes w.cursor with
  | [] => (w, [])
  | [node] =>
      if _hv : node.sha256Hex ∈ w.visited then
        (w, [cycleIssue node.sha256Hex])
      else
        match gate C w node with
        | .error issue => ({ w with visited := node.sha256Hex :: w.visited }, [issue])
        | .ok holder => walk nodes ⟨w.links ++ [node], holder, node, node.sha256Hex :: w.visited⟩
  | next => (w, [branchIssue w.cursor.sha256Hex next.length])
termination_by (nodes.filter fun n => n.sha256Hex ∉ w.visited).length
decreasing_by
  have hmem : node ∈ following nodes w.cursor := _h ▸ List.mem_cons_self
  exact length_unvisited (mem_of_mem_following hmem) _hv

/-- Messages that never joined the walk. -/
def unconnected (nodes : List ThreadLink) (visited : List Str) : List Str :=
  (nodes.filter fun n => n.sha256Hex ∉ visited ∧ n.pm.claim ≠ .controlsKey ∧ n.pm.claim ≠ .supersedes).map fun n =>
    js "message " ++ shortHex n.sha256Hex ++ js " (" ++ n.pm.claim.text
      ++ js ") is not connected to the thread walk"

def aboutIssues (nodes : List ThreadLink) (about : Str) : List Str :=
  (nodes.filter fun n => n.pm.about ≠ about).map fun n =>
    js "message " ++ shortHex n.sha256Hex ++ js ": about \"" ++ n.pm.about
      ++ js "\" differs from the thread subject \"" ++ about ++ js "\""

def buildThread (messageFiles : List Bytes) (subjectBytes : Option Bytes) : Except ThreadError Thread :=
  if messageFiles.length = 0 then .error (.issues [js "a thread needs at least its origin message"])
  else
    match collect C H subjectBytes messageFiles [] [] with
    | .error e => .error e
    | .ok (nodes, issues) =>
        let about := (nodes.head?.map fun n => n.pm.about).getD []
        let issues := issues ++ aboutIssues nodes about
        match nodes.filter fun n => n.pm.claim = .held with
        | [origin] =>
            let (w, stopped) := walk C nodes (startAt origin)
            .ok ⟨about, w.links, w.links.getLastD origin, w.holderKey,
              issues ++ stopped ++ unconnected nodes w.visited⟩
        | origins =>
            .error (.issues (issues ++ [js "a thread has exactly one \"held\" origin; found "
              ++ decimal origins.length]))

end Build

/-! ### What is collected -/

section Collect

variable {C : Crypto} {H : HashFn} {subjectBytes : Option Bytes} {files files' : List Bytes}
  {nodes nodes' : List ThreadLink} {issues issues' : List Str}

/-- The messages of the files, each digest once. -/
structure Nodes (H : HashFn) (files : List Bytes) (nodes : List ThreadLink) : Prop where
  source : ∀ n ∈ nodes, ∃ f ∈ files, parsePm f = .ok n.pm ∧ n.sha256Hex = sha256HexOf H f
  parsed : ∀ f ∈ files, ∃ pm, parsePm f = .ok pm
  present : ∀ f ∈ files, sha256HexOf H f ∈ nodes.map ThreadLink.sha256Hex
  nodup : (nodes.map ThreadLink.sha256Hex).Nodup

/-- Nodes whose messages have no issue. -/
def Quiet (C : Crypto) (H : HashFn) (subjectBytes : Option Bytes) (nodes : List ThreadLink) : Prop :=
  ∀ n ∈ nodes, messageIssues n.sha256Hex (checkPm C H n.pm subjectBytes) = []

lemma Nodes.parsed_snoc {seen : List Bytes} {f : Bytes} {pm : Pm} (h : Nodes H seen nodes)
    (hpm : parsePm f = .ok pm) : ∀ g ∈ seen ++ [f], ∃ pm, parsePm g = .ok pm := by
  intro g hg
  rcases List.mem_append.mp hg with hg | hg
  · exact h.parsed g hg
  · exact ⟨pm, List.mem_singleton.mp hg ▸ hpm⟩

/-- A digest that is there already. -/
lemma Nodes.again {seen : List Bytes} {f : Bytes} {pm : Pm} (h : Nodes H seen nodes) (hpm : parsePm f = .ok pm)
    (hold : sha256HexOf H f ∈ nodes.map ThreadLink.sha256Hex) : Nodes H (seen ++ [f]) nodes where
  source n hn := by
    obtain ⟨g, hg, hn⟩ := h.source n hn
    exact ⟨g, List.mem_append_left _ hg, hn⟩
  parsed := h.parsed_snoc hpm
  present g hg := by
    rcases List.mem_append.mp hg with hg | hg
    · exact h.present g hg
    · exact List.mem_singleton.mp hg ▸ hold
  nodup := h.nodup

/-- A new digest. -/
lemma Nodes.add {seen : List Bytes} {f : Bytes} {pm : Pm} (h : Nodes H seen nodes) (hpm : parsePm f = .ok pm)
    (hnew : sha256HexOf H f ∉ nodes.map ThreadLink.sha256Hex) :
    Nodes H (seen ++ [f]) (nodes ++ [⟨sha256HexOf H f, pm⟩]) where
  source n hn := by
    rcases List.mem_append.mp hn with hn | hn
    · obtain ⟨g, hg, hn⟩ := h.source n hn
      exact ⟨g, List.mem_append_left _ hg, hn⟩
    · rw [List.mem_singleton.mp hn]
      exact ⟨f, List.mem_append_right _ List.mem_cons_self, hpm, rfl⟩
  parsed := h.parsed_snoc hpm
  present g hg := by
    rw [List.map_append]
    rcases List.mem_append.mp hg with hg | hg
    · exact List.mem_append_left _ (h.present g hg)
    · rw [List.mem_singleton.mp hg]
      exact List.mem_append_right _ List.mem_cons_self
  nodup := by
    rw [List.map_append]
    exact h.nodup.append (List.nodup_singleton _) (List.disjoint_singleton.mpr hnew)

/-- The loop collects the nodes of the files; without issues every message is quiet. -/
lemma collect_spec {seen : List Bytes} (hseen : Nodes H seen nodes)
    (h : collect C H subjectBytes files nodes issues = .ok (nodes', issues')) :
    Nodes H (seen ++ files) nodes' ∧
      (issues' = [] → issues = [] ∧ (Quiet C H subjectBytes nodes → Quiet C H subjectBytes nodes')) := by
  induction files generalizing seen nodes issues with
  | nil =>
      obtain ⟨rfl, rfl⟩ := Prod.mk.inj (Except.ok.inj h)
      rw [List.append_nil]
      exact ⟨hseen, fun h => ⟨h, id⟩⟩
  | cons f files ih =>
      rw [collect] at h
      split at h
      · cases h
      · next pm hpm =>
        dsimp only at h
        rw [show seen ++ f :: files = (seen ++ [f]) ++ files by simp]
        split at h
        · next hold =>
          obtain ⟨n, hn, heq⟩ := List.any_eq_true.mp hold
          exact ih (hseen.again hpm (List.mem_map.mpr ⟨n, hn, of_decide_eq_true heq⟩)) h
        · next hnew =>
          have hnotin : sha256HexOf H f ∉ nodes.map ThreadLink.sha256Hex := by
            intro hmem
            obtain ⟨n, hn, heq⟩ := List.mem_map.mp hmem
            exact hnew (List.any_eq_true.mpr ⟨n, hn, decide_eq_true heq⟩)
          obtain ⟨hnodes, hquiet⟩ := ih (hseen.add hpm hnotin) h
          refine ⟨hnodes, fun hnil => ?_⟩
          obtain ⟨hissues, hrest⟩ := hquiet hnil
          obtain ⟨hissues, hmessage⟩ := List.append_eq_nil_iff.mp hissues
          refine ⟨hissues, fun hold => hrest fun n hn => ?_⟩
          rcases List.mem_append.mp hn with hn | hn
          · exact hold n hn
          · rw [List.mem_singleton.mp hn]
            exact hmessage

/-- Whether the loop ends in an error is a matter of the files alone. -/
lemma collect_eq_ok_iff : (∃ r, collect C H subjectBytes files nodes issues = .ok r) ↔
    ∀ f ∈ files, ∃ pm, parsePm f = .ok pm := by
  induction files generalizing nodes issues with
  | nil => exact iff_of_true ⟨_, rfl⟩ nofun
  | cons f files ih =>
      rw [List.forall_mem_cons, collect]
      split
      · next e he => exact iff_of_false nofun fun ⟨⟨pm, hpm⟩, _⟩ => nomatch he.symm.trans hpm
      · next pm hpm =>
        dsimp only
        split
        · exact ih.trans ⟨fun h => ⟨⟨pm, hpm⟩, h⟩, And.right⟩
        · exact ih.trans ⟨fun h => ⟨⟨pm, hpm⟩, h⟩, And.right⟩

lemma nodes_nil : Nodes H [] [] := ⟨nofun, nofun, nofun, List.nodup_nil⟩

/-- Every file is a node, where no two digests collide. -/
lemma Nodes.mem (h : Nodes H files nodes) (hfree : ¬ H.Collides files files) {f : Bytes} {pm : Pm} (hf : f ∈ files)
    (hpm : parsePm f = .ok pm) : (⟨sha256HexOf H f, pm⟩ : ThreadLink) ∈ nodes := by
  obtain ⟨n, hn, hhex⟩ := List.mem_map.mp (h.present f hf)
  obtain ⟨g, hg, hgpm, hghex⟩ := h.source n hn
  have hdigest : H f = H g := by
    have h := congrArg hexToBytes (hhex.symm.trans hghex)
    rw [sha256HexOf, sha256HexOf, hexToBytes_bytesToHex, hexToBytes_bytesToHex] at h
    exact Option.some.inj h
  obtain rfl : f = g := not_not.mp fun hne => hfree ⟨f, hf, g, hg, hne, hdigest⟩
  obtain ⟨hex, npm⟩ := n
  dsimp only at hhex hgpm
  rw [← hhex, Except.ok.inj (hpm.symm.trans hgpm)]
  exact hn

/-- The same files in another order, and repeated otherwise, have the same nodes in another order. -/
lemma Nodes.perm (h : Nodes H files nodes) (h' : Nodes H files' nodes') (hfree : ¬ H.Collides files files)
    (hsame : ∀ f, f ∈ files ↔ f ∈ files') : nodes.Perm nodes' := by
  have hfree' : ¬ H.Collides files' files' := fun h =>
    hfree (h.mono (fun f => (hsame f).mpr) fun f => (hsame f).mpr)
  refine (List.perm_ext_iff_of_nodup h.nodup.of_map h'.nodup.of_map).mpr fun n => ?_
  constructor
  · intro hn
    obtain ⟨f, hf, hpm, hhex⟩ := h.source n hn
    have := h'.mem hfree' ((hsame f).mp hf) hpm
    rwa [← hhex] at this
  · intro hn
    obtain ⟨f, hf, hpm, hhex⟩ := h'.source n hn
    have := h.mem hfree ((hsame f).mpr hf) hpm
    rwa [← hhex] at this

end Collect

/-! ### Steps of the walk -/

section Steps

variable {C : Crypto} {H : HashFn} {files : List Bytes} {nodes nodes' : List ThreadLink} {w w' : Walk}
  {n : ThreadLink} {issues : List Str}

/-- One step: the only reply that moves the subject passes the gate. -/
def Moves (C : Crypto) (nodes : List ThreadLink) (w w' : Walk) : Prop :=
  ∃ node holder, following nodes w.cursor = [node] ∧ node.sha256Hex ∉ w.visited ∧
    gate C w node = .ok holder ∧ w' = ⟨w.links ++ [node], holder, node, node.sha256Hex :: w.visited⟩

/-! One equation for each exit of the loop. -/

lemma walk_none (h : following nodes w.cursor = []) : walk C nodes w = (w, []) := by
  rw [walk.eq_def]
  split
  · rfl
  · next node hone => cases h.symm.trans hone
  · next hnil _ => exact absurd h hnil

lemma walk_visited (h : following nodes w.cursor = [n]) (hv : n.sha256Hex ∈ w.visited) :
    walk C nodes w = (w, [cycleIssue n.sha256Hex]) := by
  rw [walk.eq_def]
  split
  · next hnil => cases h.symm.trans hnil
  · next node hone =>
    obtain rfl : n = node := by simpa using h.symm.trans hone
    exact dif_pos hv
  · next _ hone => exact absurd h (hone n)

lemma walk_gate {issue : Str} (h : following nodes w.cursor = [n]) (hv : n.sha256Hex ∉ w.visited)
    (hg : gate C w n = .error issue) :
    walk C nodes w = ({ w with visited := n.sha256Hex :: w.visited }, [issue]) := by
  rw [walk.eq_def]
  split
  · next hnil => cases h.symm.trans hnil
  · next node hone =>
    obtain rfl : n = node := by simpa using h.symm.trans hone
    rw [dif_neg hv, hg]
  · next _ hone => exact absurd h (hone n)

lemma walk_step (h : Moves C nodes w w') : walk C nodes w = walk C nodes w' := by
  obtain ⟨n, holder, h, hv, hg, rfl⟩ := h
  rw [walk.eq_def]
  split
  · next hnil => cases h.symm.trans hnil
  · next node hone =>
    obtain rfl : n = node := by simpa using h.symm.trans hone
    rw [dif_neg hv, hg]
  · next _ hone => exact absurd h (hone n)

lemma walk_branch (hnil : following nodes w.cursor ≠ []) (hone : ∀ n, following nodes w.cursor ≠ [n]) :
    walk C nodes w = (w, [branchIssue w.cursor.sha256Hex (following nodes w.cursor).length]) := by
  rw [walk.eq_def]
  split
  · next h => exact absurd h hnil
  · next node h => exact absurd h (hone node)
  · rfl

/-- A walk without an issue is a run of steps to where nothing follows. -/
lemma walk_spec (h : walk C nodes w = (w', [])) :
    Relation.ReflTransGen (Moves C nodes) w w' ∧ following nodes w'.cursor = [] := by
  induction w using walk.induct C nodes with
  | case1 w hnone =>
      rw [walk_none hnone] at h
      obtain rfl := (Prod.mk.inj h).1
      exact ⟨.refl, hnone⟩
  | case2 w node hone hv =>
      cases (walk_visited hone hv).symm.trans h
  | case3 w node hone hv issue hg => cases (walk_gate hone hv hg).symm.trans h
  | case4 w node hone hv holder hg ih =>
      have hstep : Moves C nodes w _ := ⟨node, holder, hone, hv, hg, rfl⟩
      obtain ⟨hrun, hlast⟩ := ih ((walk_step hstep).symm.trans h)
      exact ⟨.head hstep hrun, hlast⟩
  | case5 w hnil hone =>
      cases (walk_branch hnil hone).symm.trans h

/-- Nodes in another order are walked alike. -/
lemma walk_perm (hperm : nodes.Perm nodes') : walk C nodes w = walk C nodes' w := by
  have hfollow : ∀ c, (following nodes c).Perm (following nodes' c) := fun c => (hperm.filter _).filter _
  have hone' : ∀ {c n}, following nodes c = [n] → following nodes' c = [n] :=
    fun {c n} h => List.perm_singleton.mp (h ▸ hfollow c).symm
  have hone'' : ∀ {c n}, following nodes' c = [n] → following nodes c = [n] :=
    fun {c n} h => List.perm_singleton.mp (h ▸ hfollow c)
  induction w using walk.induct C nodes with
  | case1 w hnone => rw [walk_none hnone, walk_none (List.perm_nil.mp (hnone ▸ hfollow w.cursor).symm)]
  | case2 w node hone hv => rw [walk_visited hone hv, walk_visited (hone' hone) hv]
  | case3 w node hone hv issue hg => rw [walk_gate hone hv hg, walk_gate (hone' hone) hv hg]
  | case4 w node hone hv holder hg ih =>
      have hstep : Moves C nodes w _ := ⟨node, holder, hone, hv, hg, rfl⟩
      have hstep' : Moves C nodes' w _ := ⟨node, holder, hone' hone, hv, hg, rfl⟩
      rw [walk_step hstep, walk_step hstep', ih]
  | case5 w hnil hone =>
      have hnil' : following nodes' w.cursor ≠ [] := fun h => hnil (List.perm_nil.mp (h ▸ hfollow w.cursor))
      rw [walk_branch hnil hone, walk_branch hnil' fun n h => hone n (hone'' h), (hfollow w.cursor).length_eq]

end Steps

/-! ### A presentation without issues -/

section Built

variable {C : Crypto} {H : HashFn} {subjectBytes : Option Bytes} {files : List Bytes} {nodes : List ThreadLink}
  {issues : List Str} {origin : ThreadLink} {w : Walk} {t : Thread}

/-- What a thread without issues was built from. -/
structure Built (C : Crypto) (H : HashFn) (subjectBytes : Option Bytes) (files : List Bytes) (t : Thread)
    (nodes : List ThreadLink) (origin : ThreadLink) (w : Walk) : Prop where
  collected : Nodes H files nodes
  quiet : Quiet C H subjectBytes nodes
  held : nodes.filter (fun n => n.pm.claim = .held) = [origin]
  run : Relation.ReflTransGen (Moves C nodes) (startAt origin) w
  last : following nodes w.cursor = []
  joined : ∀ n ∈ nodes, n.pm.claim ≠ .controlsKey → n.pm.claim ≠ .supersedes → n.sha256Hex ∈ w.visited
  links : t.links = w.links
  holderKey : t.holderKey = w.holderKey

/-- The thread of a presentation that is collected and has one origin. -/
lemma buildThread_eq (hcollect : collect C H subjectBytes files [] [] = .ok (nodes, issues))
    (horigin : nodes.filter (fun n => n.pm.claim = .held) = [origin]) :
    ∃ t, buildThread C H files subjectBytes = .ok t ∧ t.links = (walk C nodes (startAt origin)).1.links ∧
      t.holderKey = (walk C nodes (startAt origin)).1.holderKey ∧
      t.issues = issues ++ aboutIssues nodes ((nodes.head?.map fun n => n.pm.about).getD [])
        ++ (walk C nodes (startAt origin)).2 ++ unconnected nodes (walk C nodes (startAt origin)).1.visited := by
  have hne : files ≠ [] := by
    rintro rfl
    obtain ⟨rfl, _⟩ := Prod.mk.inj (Except.ok.inj hcollect)
    cases horigin
  rw [buildThread, if_neg (by simpa using hne), hcollect]
  dsimp only
  rw [horigin]
  exact ⟨_, rfl, rfl, rfl, rfl⟩

/-- Without exactly one origin there is none. -/
lemma buildThread_origins (hcollect : collect C H subjectBytes files [] [] = .ok (nodes, issues))
    (horigins : ∀ origin, nodes.filter (fun n => n.pm.claim = .held) ≠ [origin]) :
    (buildThread C H files subjectBytes).toOption = none := by
  rw [buildThread]
  split
  · rfl
  · rw [hcollect]
    dsimp only
    split
    · next origin horigin => exact absurd horigin (horigins origin)
    · rfl

lemma buildThread_error {e : ThreadError} (hcollect : collect C H subjectBytes files [] [] = .error e) :
    (buildThread C H files subjectBytes).toOption = none := by
  rw [buildThread, hcollect]
  split <;> rfl

lemma built_of_buildThread (h : buildThread C H files subjectBytes = .ok t) (hnil : t.issues = []) :
    ∃ nodes origin w, Built C H subjectBytes files t nodes origin w := by
  rw [buildThread] at h
  split at h
  · cases h
  · rcases hcollect : collect C H subjectBytes files [] [] with e | ⟨nodes, issues⟩
    · rw [hcollect] at h
      cases h
    · rw [hcollect] at h
      dsimp only at h
      obtain ⟨hnodes, hquiet⟩ := collect_spec nodes_nil hcollect
      split at h
      · next origin horigin =>
        obtain rfl := Except.ok.inj h
        obtain ⟨hissues, hunconnected⟩ := List.append_eq_nil_iff.mp hnil
        obtain ⟨hissues, hstopped⟩ := List.append_eq_nil_iff.mp hissues
        obtain ⟨hissues, habout⟩ := List.append_eq_nil_iff.mp hissues
        obtain ⟨hrun, hlast⟩ := walk_spec (Prod.ext rfl hstopped : walk C nodes (startAt origin) = (_, []))
        refine ⟨nodes, origin, _, hnodes, (hquiet hissues).2 nofun, horigin, hrun, hlast, ?_, rfl, rfl⟩
        intro n hn hkey hsupersedes
        by_contra hv
        have hmem : n ∈ nodes.filter fun n => n.sha256Hex ∉ (walk C nodes (startAt origin)).1.visited ∧
            n.pm.claim ≠ .controlsKey ∧ n.pm.claim ≠ .supersedes :=
          List.mem_filter.mpr ⟨hn, by simpa using ⟨hv, hkey, hsupersedes⟩⟩
        rw [List.map_eq_nil_iff.mp hunconnected] at hmem
        cases hmem
      · cases h

end Built

end Titles

end BitGraph
