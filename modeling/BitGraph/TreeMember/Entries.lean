import BitGraph.Js.Arith
import BitGraph.Recovery
import BitGraph.Server.SetMembers
import BitGraph.TreeMember.Exact

/-!
`tree-entries.ts`: a file's place in a tree, found through a sealed entry.

* **Entries.** `parsePlain` reads an opened entry, `rootFromPath` walks the leaf up its siblings,
  `checkEntry` is one turn of the loop of `findInTree`, with what it throws.
* **Walk.** `rootFromPath_climbs`: an index below `2 ^ 31` is walked along the sides of the abstract
  tree, whatever the count; the shift reads 32 bits of the index.
* **Main result.** `findInTree_true_iff`: a place is proven, and an entry that passes is found, exactly
  if none that throws stands before the first that passes. `checkEntry_throws_iff` says which throw,
  `findInTree_hides` is a list where one does.

The store's answer is a list of entries, the answers of the proof route are a parameter.
-/

namespace BitGraph

open Js HashTree Recovery

namespace TreeEntries

/-! ### Text -/

def TREE_ENTRY_FORMAT : Str := js "bitgraph-tree-entry/1"

def L_ADDRESS : Bytes := utf8Encode (js "bitgraph-tree-entry/1 address")
def L_KEY : Bytes := utf8Encode (js "bitgraph-tree-entry/1 key")
def L_ENTRY : Bytes := utf8Encode (js "bitgraph-tree-entry/1 entry")

/-- White space that `atob` leaves out. -/
def isAsciiBlank (c : UInt16) : Bool := c == 9 || c == 10 || c == 12 || c == 13 || c == 32

/-- At most two padding characters at the end. -/
def dropPadding (s : Str) : Str :=
  if s.drop (s.length - 2) = [61, 61] then s.take (s.length - 2)
  else if s.drop (s.length - 1) = [61] then s.take (s.length - 1)
  else s

/-- `atob`: padding may be missing where white space is left out, and what is left over from the
last byte is dropped. -/
def atob (s : Str) : Option Bytes :=
  let t := s.filter fun c => !isAsciiBlank c
  let t := if t.length % 4 = 0 then dropPadding t else t
  if t.length % 4 = 1 then none else (TreeMember.sextets t).map sextetBytes

def unb64 (s : Str) : Except Thrown Bytes :=
  match atob s with
  | some b => .ok b
  | none => .error (error (js "The string to be decoded is not correctly encoded."))

/-- `ToUint32` of a number that is an integer. -/
def u32 (x : Number) : ℕ := ((x.toInt?.getD 0) % 2 ^ 32).toNat

section Derivations

variable (H : HashFn)

def leafOf (file : Bytes) : Bytes := merkleLeafHash H file

def entryAddress (leaf32 : Bytes) : Str := bytesToHex (H (L_ADDRESS ++ leaf32))

def entryKey (leaf32 : Bytes) : Bytes := H (L_KEY ++ leaf32)

def entryId (leaf32 proofHash32 : Bytes) (leafIndex : Number) : Str :=
  bytesToHex (H (L_ENTRY ++ leaf32 ++ proofHash32 ++ Sha256.beBytes 4 (u32 leafIndex)))

def rootTextFor (files : Number) (rootHex : Str) : Str :=
  js "Merkle root (RFC 6962, SHA-256) of " ++ files.toStr ++ js " files:\n" ++ rootHex ++ [10]

/-! ### The walk -/

/-- The loop of `rootFromPath`; `n - 1` is a double. -/
def walkUp (h : Bytes) (idx : ℤ) (n : ℕ) (siblings : Bytes) : Option Bytes :=
  if 1 < n then
    if idx = roundNat (n - 1) ∧ idx.tmod 2 = 0 then
      walkUp h (TreeMember.sar1 idx) ((n + 1) / 2) siblings
    else if siblings.length < 32 then none
    else
      let s := siblings.take 32
      let h := if idx.tmod 2 = 1 then merkleNodeHash H s h else merkleNodeHash H h s
      walkUp h (TreeMember.sar1 idx) ((n + 1) / 2) (siblings.drop 32)
  else if siblings = [] then some h else none
termination_by n

def rootFromPath (leaf32 : Bytes) (leafIndex files : Number) (siblings : Bytes) : Option Str :=
  match leafIndex.toInt?, files.toInt? with
  | some i, some n =>
      if i < 0 ∨ n ≤ i ∨ siblings.length % 32 ≠ 0 then none
      else (walkUp H leaf32 i n.toNat siblings).map bytesToHex
  | _, _ => none

end Derivations

/-! ### Entries -/

/-- An opened entry. -/
structure TreeEntryPlain where
  proofHash : Str
  leafIndex : Number
  files : Number
  path : Str
  epochId : Str
  counter : Str
  digestB64 : Str
  name : Option Str
  deriving DecidableEq

/-- The text of a value that is one. -/
def textOf? : Value → Option Str
  | .str s => some s
  | _ => none

/-- `parsePlain`, none for what it catches too. -/
def parsePlain (bytes : Bytes) : Option TreeEntryPlain := do
  let o ← parse (decodeLossy bytes)
  if o.get (js "format") ≠ .str TREE_ENTRY_FORMAT then none
  else match o.get (js "proofHash"), o.get (js "leafIndex"), o.get (js "files"), o.get (js "path") with
    | .str proofHash, .num leafIndex, .num files, .str path =>
        if leafIndex.toInt? = none ∨ files.toInt? = none then none
        else do
          let proof := o.get (js "proof")
          let epochId ← textOf? (proof.get (js "epochId"))
          let counter ← textOf? (proof.get (js "counter"))
          let digestB64 ← textOf? (proof.get (js "digestB64"))
          some ⟨proofHash, leafIndex, files, path, epochId, counter, digestB64,
            textOf? (o.get (js "name"))⟩
    | _, _, _, _ => none

/-- A stored entry. -/
structure SealedEntry where
  key : Str
  envelope : Str

structure FoundInTree where
  files : Number
  leafIndex : Number
  name : Option Str
  epochId : Str
  counter : Str
  digestB64 : Str
  proofHash : Str

/-- What the proof route answers: nothing that is ok, a body that is no JSON, or a body. -/
inductive RouteAnswer where
  | failed
  | garbled
  | body (v : Value)

/-- The test of one proof. -/
def isNamed (p : TreeEntryPlain) (x : Value) : Except Thrown Bool := do
  let proof ← x.prop (js "proof")
  let proofHash ← proof.prop (js "proofHash")
  if proofHash ≠ .str p.proofHash then return false
  let counter ← ((proof.get (js "commit")).get (js "counter")).string
  return counter == p.counter

/-- `proofs.some(…)`. -/
def someNamed (p : TreeEntryPlain) : List Value → Except Thrown Bool
  | [] => .ok false
  | x :: proofs => do
      if ← isNamed p x then return true
      someNamed p proofs

/-- Whether the proof route names the entry's proof. -/
def proofNamed (p : TreeEntryPlain) : RouteAnswer → Except Thrown Bool
  | .failed => .ok false
  | .garbled => .error (syntaxError (js "Unexpected token in JSON"))
  | .body v => do
      match ← v.prop (js "proofs") with
      | .undefined | .null => return false
      | .arr proofs => someNamed p proofs
      | _ => .error (typeError (js "proofs.some is not a function"))

section Find

variable (H : HashFn) (A : Aead) (route : Str → RouteAnswer)

/-- What an entry opens to under the file's key. -/
def openEntry (leaf32 : Bytes) (key : Str) (envelope : Bytes) : Option TreeEntryPlain :=
  (openWith A (entryKey H leaf32) key envelope).bind parsePlain

/-- One turn of the loop of `findInTree`. -/
def checkEntry (leaf32 : Bytes) (e : SealedEntry) : Except Thrown (Option FoundInTree) := do
  let envelope ← unb64 e.envelope
  match openEntry H A leaf32 e.key envelope with
  | none => return none
  | some p => do
      let proofHash32 ← unb64 p.proofHash
      let objectKey ← recoveryObjectKey (entryAddress H leaf32)
        (entryId H leaf32 proofHash32 p.leafIndex)
      if e.key ≠ objectKey then return none
      let path ← unb64 p.path
      match rootFromPath H leaf32 p.leafIndex p.files path with
      | none => return none
      | some root => do
          if bytesToBase64 (H (utf8Encode (rootTextFor p.files root))) ≠ p.digestB64 then return none
          if !(← proofNamed p (route (SetMembers.toSafe p.digestB64))) then return none
          return some ⟨p.files, p.leafIndex, p.name, p.epochId, p.counter, p.digestB64, p.proofHash⟩

/-- The loop of `findInTree`: the first entry that holds. -/
def findEntry (leaf32 : Bytes) : List SealedEntry → Except Thrown (Option FoundInTree)
  | [] => .ok none
  | e :: entries => do
      match ← checkEntry H A route leaf32 e with
      | some place => return some place
      | none => findEntry leaf32 entries

/-- `findInTree`, with what the store answers for the file's address. -/
def findInTree (file : Bytes) (entries : List SealedEntry) : Except Thrown (Option FoundInTree) :=
  findEntry H A route (leafOf H file) entries

end Find

/-! ### The walk along the sides -/

section Walk

variable {H : HashFn} {h : Bytes} {idx : ℤ} {n : ℕ} {siblings : Bytes}

lemma last_iff (hidx : idx.natAbs < 2 ^ 53) (hn : 1 < n) : idx = roundNat (n - 1) ↔ idx = n - 1 := by
  by_cases h : n - 1 < 2 ^ 53
  · rw [roundNat_of_lt h]
    omega
  · have := le_roundNat (Nat.le_of_not_lt h)
    omega

/-- Below `2 ^ 53` the walk is that of `tree-member.ts`. -/
lemma walkUp_eq (hidx : idx.natAbs < 2 ^ 53) :
    walkUp H h idx n siblings = TreeMember.walkUp H h idx n siblings := by
  induction n using Nat.strong_induction_on generalizing h idx siblings with
  | _ n ih =>
      rw [walkUp, TreeMember.walkUp]
      by_cases h1 : 1 < n
      · have hup : (TreeMember.sar1 idx).natAbs < 2 ^ 53 := by
          have := TreeMember.sar1_bounds idx
          omega
        have hstep : ∀ h siblings, walkUp H h (TreeMember.sar1 idx) ((n + 1) / 2) siblings
            = TreeMember.walkUp H h (TreeMember.sar1 idx) ((n + 1) / 2) siblings :=
          fun h siblings => ih _ (by omega) hup
        simp only [h1, if_true, last_iff hidx h1, hstep]
      · simp only [h1, if_false]

/-- **The walk.** A root that an index below `2 ^ 31` reaches is that of a climb along its sides. -/
theorem rootFromPath_climbs {leafIndex files : Number} {root : Str} {i : ℤ}
    (hi : leafIndex.toInt? = some i) (h31 : i < 2 ^ 31)
    (hroot : rootFromPath H h leafIndex files siblings = some root) :
    ∃ (m n : ℕ) (path : List Bytes), i = m ∧ files.toInt? = some (n : ℤ) ∧ m < n
      ∧ (∀ s ∈ path, s.length = 32) ∧ path.length = (sides m (n - 1)).length
      ∧ root = bytesToHex (climb (merkleNodeHash H) h ((sides m (n - 1)).zip path)) := by
  rw [rootFromPath, hi] at hroot
  cases hn : files.toInt? with
  | none => simp [hn] at hroot
  | some count =>
      simp only [hn] at hroot
      split at hroot
      · cases hroot
      next hcond =>
      obtain ⟨m, rfl⟩ := Int.eq_ofNat_of_zero_le (show 0 ≤ i by omega)
      obtain ⟨n, rfl⟩ := Int.eq_ofNat_of_zero_le (show 0 ≤ count by omega)
      obtain ⟨path, h32, rfl⟩ := TreeMember.exists_nodes (show siblings.length % 32 = 0 by omega)
      rw [Int.toNat_natCast, walkUp_eq (by omega),
        TreeMember.walkUp_eq (by omega) (by omega) h32] at hroot
      split at hroot
      · next hlen =>
          rw [Option.map_some] at hroot
          exact ⟨m, n, path, rfl, rfl, by omega, h32, hlen, (Option.some.inj hroot).symm⟩
      · cases hroot

end Walk

/-! ### One entry -/

section Entry

variable {H : HashFn} {A : Aead} {route : Str → RouteAnswer} {leaf32 file : Bytes} {e : SealedEntry}
  {place : FoundInTree} {entries : List SealedEntry}

/-- The plaintext an entry opens to. -/
def Opens (H : HashFn) (A : Aead) (leaf32 : Bytes) (e : SealedEntry) (p : TreeEntryPlain) : Prop :=
  ∃ envelope, atob e.envelope = some envelope ∧ openEntry H A leaf32 e.key envelope = some p

/-- The entry is under the name its plaintext derives. -/
def Named (H : HashFn) (leaf32 : Bytes) (e : SealedEntry) (p : TreeEntryPlain) (proofHash32 : Bytes) :
    Prop :=
  e.key = RECOVERY_PREFIX ++ entryAddress H leaf32 ++ js "/" ++ entryId H leaf32 proofHash32 p.leafIndex

/-- The path walks to a root whose text has the digest. -/
def Reaches (H : HashFn) (leaf32 : Bytes) (p : TreeEntryPlain) (path : Bytes) : Prop :=
  ∃ root, rootFromPath H leaf32 p.leafIndex p.files path = some root
    ∧ bytesToBase64 (H (utf8Encode (rootTextFor p.files root))) = p.digestB64

/-- An envelope, a proof hash or a path that is no base64, or a proof route that answers with
something of another shape: what the loop does not catch. -/
def Throws (H : HashFn) (A : Aead) (route : Str → RouteAnswer) (leaf32 : Bytes) (e : SealedEntry) :
    Prop :=
  atob e.envelope = none ∨ ∃ p, Opens H A leaf32 e p ∧
    (atob p.proofHash = none ∨ ∃ proofHash32, atob p.proofHash = some proofHash32
      ∧ Named H leaf32 e p proofHash32 ∧ (atob p.path = none ∨ ∃ path, atob p.path = some path
        ∧ Reaches H leaf32 p path
        ∧ (proofNamed p (route (SetMembers.toSafe p.digestB64))).toOption = none))

/-- An entry that passes all of its checks. -/
def Passes (H : HashFn) (A : Aead) (route : Str → RouteAnswer) (leaf32 : Bytes) (e : SealedEntry) :
    Prop := ∃ place, checkEntry H A route leaf32 e = .ok (some place)

lemma recoveryObjectKey_entry (proofHash32 : Bytes) (leafIndex : Number) :
    recoveryObjectKey (entryAddress H leaf32) (entryId H leaf32 proofHash32 leafIndex)
      = .ok (RECOVERY_PREFIX ++ entryAddress H leaf32 ++ js "/"
        ++ entryId H leaf32 proofHash32 leafIndex) := by
  have hhex : ∀ b, isHex64 (bytesToHex (H b)) = true := by
    intro b
    rw [isHex64, length_bytesToHex, H.length_apply, Bool.and_eq_true, List.all_eq_true]
    exact ⟨rfl, fun c hc => isLowerHex_of_mem_bytesToHex hc⟩
  rw [recoveryObjectKey, entryAddress, entryId, hhex, hhex]
  rfl

lemma unb64_some {s : Str} {b : Bytes} (h : atob s = some b) : unb64 s = .ok b := by
  rw [unb64, h]

/-- **What throws.** A turn of the loop throws exactly on these entries. -/
theorem checkEntry_throws_iff :
    (∃ err, checkEntry H A route leaf32 e = .error err) ↔ Throws H A route leaf32 e := by
  rw [checkEntry, Throws]
  cases henv : atob e.envelope with
  | none => simp [unb64, henv]
  | some envelope =>
      have hopens : ∀ p, Opens H A leaf32 e p ↔ openEntry H A leaf32 e.key envelope = some p := by
        intro p
        simp [Opens, henv]
      simp only [unb64_some henv, ok_bind, hopens]
      cases openEntry H A leaf32 e.key envelope with
      | none => simp [pure, Except.pure]
      | some p =>
          cases hhash : atob p.proofHash with
          | none => simp [unb64, hhash]
          | some proofHash32 =>
              simp only [unb64_some hhash, ok_bind, recoveryObjectKey_entry]
              by_cases hname : e.key = RECOVERY_PREFIX ++ entryAddress H leaf32 ++ js "/"
                  ++ entryId H leaf32 proofHash32 p.leafIndex
              · rw [if_neg (not_not_intro hname)]
                have hnamed : Named H leaf32 e p proofHash32 := hname
                cases hpath : atob p.path with
                | none => simp [unb64, hpath, hhash, hnamed]
                | some path =>
                    simp only [unb64_some hpath, ok_bind]
                    cases hroot : rootFromPath H leaf32 p.leafIndex p.files path with
                    | none => simp [pure, Except.pure, hhash, hpath, Reaches, hroot]
                    | some root =>
                        by_cases hdigest : bytesToBase64 (H (utf8Encode (rootTextFor p.files root)))
                            = p.digestB64
                        · simp only [hdigest, ne_eq, not_true_eq_false, if_false]
                          cases hproof : proofNamed p (route (SetMembers.toSafe p.digestB64)) with
                          | error err =>
                              simp [hhash, hpath, hnamed, Reaches, hroot, hdigest, hproof,
                                Except.toOption]
                          | ok named =>
                              cases named <;>
                                simp [pure, Except.pure, hhash, hpath, hproof, Except.toOption]
                        · simp [pure, Except.pure, hhash, hpath, Reaches, hroot, hdigest]
              · have hnamed : ¬ Named H leaf32 e p proofHash32 := hname
                rw [if_pos hname]
                simp [pure, Except.pure, hhash, hnamed]

/-- What is returned for an entry that passes. -/
lemma checkEntry_passes (h : checkEntry H A route leaf32 e = .ok (some place)) :
    ∃ p path, Opens H A leaf32 e p ∧ Reaches H leaf32 p path ∧ place.leafIndex = p.leafIndex
      ∧ place.files = p.files ∧ place.digestB64 = p.digestB64 := by
  rw [checkEntry] at h
  obtain ⟨envelope, henv, h⟩ := bind_eq_ok h
  have henv : atob e.envelope = some envelope := by
    rw [unb64] at henv
    cases ha : atob e.envelope with
    | none => simp [ha] at henv
    | some b => simpa [ha] using henv
  cases hopen : openEntry H A leaf32 e.key envelope with
  | none => simp [hopen, pure, Except.pure] at h
  | some p =>
      simp only [hopen] at h
      obtain ⟨proofHash32, -, h⟩ := bind_eq_ok h
      obtain ⟨objectKey, -, h⟩ := bind_eq_ok h
      split at h
      · cases h
      obtain ⟨path, -, h⟩ := bind_eq_ok h
      cases hroot : rootFromPath H leaf32 p.leafIndex p.files path with
      | none => simp [hroot, pure, Except.pure] at h
      | some root =>
          simp only [hroot] at h
          split at h
          · cases h
          next hdigest =>
          obtain ⟨named, -, h⟩ := bind_eq_ok h
          split at h
          · cases h
          cases h
          exact ⟨p, path, ⟨envelope, henv, hopen⟩, ⟨root, hroot, not_not.mp hdigest⟩, rfl, rfl, rfl⟩

/-! ### The loop -/

/-- The file's leaf hash walks to a root whose text for the place's count has the place's digest. -/
def Proven (H : HashFn) (file : Bytes) (place : FoundInTree) : Prop :=
  ∃ (m n : ℕ) (path : List Bytes), place.leafIndex.toInt? = some (m : ℤ)
    ∧ place.files.toInt? = some (n : ℤ) ∧ m < n ∧ (∀ s ∈ path, s.length = 32)
    ∧ path.length = (sides m (n - 1)).length
    ∧ bytesToBase64 (H (utf8Encode (rootTextFor place.files (bytesToHex
        (climb (merkleNodeHash H) (leafOf H file) ((sides m (n - 1)).zip path)))))) = place.digestB64

/-- Every entry that opens names an index below `2 ^ 31`. -/
def IndicesBelow (H : HashFn) (A : Aead) (leaf32 : Bytes) (entries : List SealedEntry) : Prop :=
  ∀ e ∈ entries, ∀ p, Opens H A leaf32 e p → ∀ i, p.leafIndex.toInt? = some i → i < 2 ^ 31

/-- No entry that throws stands before the first that passes. -/
def NoneHides (H : HashFn) (A : Aead) (route : Str → RouteAnswer) (leaf32 : Bytes)
    (entries : List SealedEntry) : Prop :=
  ∀ before e after, entries = before ++ e :: after → Passes H A route leaf32 e →
    (∀ b ∈ before, ¬ Passes H A route leaf32 b) → ∀ b ∈ before, ¬ Throws H A route leaf32 b

/-- A place is returned for the first entry that does more than fail. -/
lemma findEntry_eq_ok : findEntry H A route leaf32 entries = .ok (some place) ↔
    ∃ before e after, entries = before ++ e :: after
      ∧ checkEntry H A route leaf32 e = .ok (some place)
      ∧ ∀ b ∈ before, checkEntry H A route leaf32 b = .ok none := by
  induction entries with
  | nil => simp [findEntry]
  | cons e entries ih =>
      rw [findEntry]
      constructor
      · intro h
        obtain ⟨found, hfound, h⟩ := bind_eq_ok h
        cases found with
        | some p =>
            cases h
            exact ⟨[], e, entries, rfl, hfound, by simp⟩
        | none =>
            obtain ⟨before, f, after, rfl, hf, hbefore⟩ := ih.mp h
            exact ⟨e :: before, f, after, rfl, hf, List.forall_mem_cons.mpr ⟨hfound, hbefore⟩⟩
      · rintro ⟨before, f, after, heq, hf, hbefore⟩
        cases before with
        | nil =>
            obtain ⟨rfl, rfl⟩ := List.cons.inj heq
            rw [hf]
            rfl
        | cons b before =>
            obtain ⟨rfl, rfl⟩ := List.cons.inj heq
            rw [hbefore e List.mem_cons_self]
            exact ih.mpr ⟨before, f, after, rfl, hf, fun b hb => hbefore b (List.mem_cons_of_mem _ hb)⟩

lemma exists_first {α : Type*} {P : α → Prop} {l : List α} (h : ∃ a ∈ l, P a) :
    ∃ before a after, l = before ++ a :: after ∧ P a ∧ ∀ b ∈ before, ¬ P b := by
  induction l with
  | nil => simp at h
  | cons c l ih =>
      by_cases hc : P c
      · exact ⟨[], c, l, rfl, hc, by simp⟩
      · obtain ⟨a, ha, hp⟩ := h
        rcases List.mem_cons.mp ha with rfl | ha
        · exact absurd hp hc
        · obtain ⟨before, b, after, rfl, hb, hbefore⟩ := ih ⟨a, ha, hp⟩
          exact ⟨c :: before, b, after, rfl, hb, List.forall_mem_cons.mpr ⟨hc, hbefore⟩⟩

/-- An entry that passes is found exactly if none that throws hides it. -/
lemma findInTree_complete_iff :
    ((∃ e ∈ entries, Passes H A route (leafOf H file) e) →
        ∃ place, findInTree H A route file entries = .ok (some place))
      ↔ NoneHides H A route (leafOf H file) entries := by
  constructor
  · rintro h before e after rfl he hbefore b hb hthrows
    obtain ⟨place, hplace⟩ := h ⟨e, by simp, he⟩
    obtain ⟨before', f, after', heq, hf, hbefore'⟩ := findEntry_eq_ok.mp hplace
    obtain ⟨err, herr⟩ := checkEntry_throws_iff.mpr hthrows
    have hnot : b ∉ before' := fun hmem => by
      rw [hbefore' b hmem] at herr
      cases herr
    rcases List.append_eq_append_iff.mp heq with ⟨rest, rfl, -⟩ | ⟨rest, rfl, hrest⟩
    · exact hnot (List.mem_append_left _ hb)
    · cases rest with
      | nil => exact hnot (by simpa using hb)
      | cons g rest =>
          obtain ⟨rfl, -⟩ := List.cons.inj hrest
          exact hbefore f (by simp) ⟨place, hf⟩
  · intro h hpasses
    obtain ⟨before, e, after, rfl, ⟨place, hplace⟩, hbefore⟩ := exists_first hpasses
    refine ⟨place, findEntry_eq_ok.mpr ⟨before, e, after, rfl, hplace, fun b hb => ?_⟩⟩
    cases hcheck : checkEntry H A route (leafOf H file) b with
    | error err =>
        exact absurd (checkEntry_throws_iff.mp ⟨err, hcheck⟩)
          (h before e after rfl ⟨place, hplace⟩ hbefore b hb)
    | ok found =>
        cases found with
        | none => rfl
        | some p => exact absurd ⟨p, hcheck⟩ (hbefore b hb)

/-- What is found is proven, where the indices are. -/
lemma findInTree_sound (hbelow : IndicesBelow H A (leafOf H file) entries)
    (h : findInTree H A route file entries = .ok (some place)) : Proven H file place := by
  obtain ⟨before, e, after, rfl, he, -⟩ := findEntry_eq_ok.mp h
  obtain ⟨p, path, hopens, ⟨root, hroot, hdigest⟩, hindex, hfiles, hplace⟩ := checkEntry_passes he
  cases hi : p.leafIndex.toInt? with
  | none => simp [rootFromPath, hi] at hroot
  | some i =>
      obtain ⟨m, n, blocks, rfl, hn, hlt, h32, hlen, rfl⟩ :=
        rootFromPath_climbs hi (hbelow e (by simp) p hopens i hi) hroot
      exact ⟨m, n, blocks, hindex ▸ hi, hfiles ▸ hn, hlt, h32, hlen, by rw [hfiles, hplace, hdigest]⟩

/-- **A found place is true, and a bad entry hides none.** Where the entries that open name indices
below `2 ^ 31`, both hold exactly if no entry that throws stands before the first that passes. -/
theorem findInTree_true_iff (H : HashFn) (A : Aead) (route : Str → RouteAnswer) (file : Bytes)
    (entries : List SealedEntry) (hbelow : IndicesBelow H A (leafOf H file) entries) :
    ((∀ place, findInTree H A route file entries = .ok (some place) → Proven H file place)
      ∧ ((∃ e ∈ entries, Passes H A route (leafOf H file) e) →
          ∃ place, findInTree H A route file entries = .ok (some place)))
    ↔ NoneHides H A route (leafOf H file) entries := by
  rw [findInTree_complete_iff]
  exact ⟨And.right, fun h => ⟨fun place hplace => findInTree_sound hbelow hplace, h⟩⟩

end Entry

/-! ### An entry that hides another -/

section Sample

/-- A hash that tells nothing apart. -/
lemma length_sampleDigest (_ : Bytes) : (List.replicate 32 (0 : UInt8)).length = 32 :=
  List.length_replicate

def sampleHash : HashFn := ⟨fun _ => List.replicate 32 0, length_sampleDigest⟩

/-- A cipher that leaves the text and tags it with zeros. -/
def sampleAead : Aead :=
  ⟨fun _ _ n => List.replicate n 0, fun _ _ _ _ => List.replicate 16 0,
    fun _ _ _ => List.length_replicate, fun _ _ _ _ => List.length_replicate⟩

/-- The proof of the sample, which is in the ledger. -/
def sampleRoute (_ : Str) : RouteAnswer :=
  .body (.obj [(js "proofs", .arr [.obj [(js "proof", .obj [(js "proofHash", .str []),
    (js "commit", .obj [(js "counter", .str (js "1"))])])]])])

/-- A tree of the one file, opened. -/
def samplePlain : Value :=
  .obj [(js "format", .str TREE_ENTRY_FORMAT), (js "proofHash", .str []),
    (js "leafIndex", .num (Number.ofNat 0)), (js "files", .num (Number.ofNat 1)), (js "path", .str []),
    (js "proof", .obj [(js "epochId", .str []), (js "counter", .str (js "1")),
      (js "digestB64", .str (bytesToBase64 (sampleHash [])))])]

def sampleEntry : SealedEntry where
  key := RECOVERY_PREFIX ++ entryAddress sampleHash (leafOf sampleHash []) ++ js "/"
    ++ entryId sampleHash (leafOf sampleHash []) [] (Number.ofNat 0)
  envelope := bytesToBase64 (ENVELOPE_VERSION :: (List.replicate 12 0
    ++ sampleAead.encrypt [] [] [] (utf8Encode (samplePlain.serialize.getD []))))

lemma sampleEntry_passes :
    Passes sampleHash sampleAead sampleRoute (leafOf sampleHash []) sampleEntry := by
  have h : (checkEntry sampleHash sampleAead sampleRoute (leafOf sampleHash [])
      sampleEntry).toOption.join.isSome = true := by decide +kernel
  cases hcheck : checkEntry sampleHash sampleAead sampleRoute (leafOf sampleHash []) sampleEntry with
  | error err => simp [hcheck, Except.toOption] at h
  | ok found =>
      cases found with
      | none => simp [hcheck, Except.toOption] at h
      | some place => exact ⟨place, hcheck⟩

lemma sampleEntry_below : IndicesBelow sampleHash sampleAead (leafOf sampleHash []) [sampleEntry] := by
  rintro e he p ⟨envelope, henv, hopen⟩ i hi
  obtain rfl := List.mem_singleton.mp he
  have h : ((atob sampleEntry.envelope).bind fun envelope =>
      (openEntry sampleHash sampleAead (leafOf sampleHash []) sampleEntry.key envelope).bind
        fun p => p.leafIndex.toInt?) = some 0 := by decide +kernel
  rw [henv, Option.bind_some, hopen, Option.bind_some, hi] at h
  obtain rfl := Option.some.inj h
  decide

theorem findInTree_true_iff_sample :
    (∃ place, findInTree sampleHash sampleAead sampleRoute [] [sampleEntry] = .ok (some place))
      ∧ ∀ place, findInTree sampleHash sampleAead sampleRoute [] [sampleEntry] = .ok (some place) →
          Proven sampleHash [] place := by
  have hnone : NoneHides sampleHash sampleAead sampleRoute (leafOf sampleHash []) [sampleEntry] := by
    rintro (_ | ⟨b, before⟩) e after heq - - c hc
    · cases hc
    · simp at heq
  obtain ⟨hsound, hcomplete⟩ := (findInTree_true_iff sampleHash sampleAead sampleRoute [] [sampleEntry]
    sampleEntry_below).mpr hnone
  exact ⟨hcomplete ⟨sampleEntry, by simp, sampleEntry_passes⟩, hsound⟩

/-- An envelope that is no base64, before an entry that passes: the lookup throws. -/
theorem findInTree_hides :
    ¬ ∀ (H : HashFn) (A : Aead) (route : Str → RouteAnswer) (file : Bytes) (entries : List SealedEntry),
      (∀ place, findInTree H A route file entries = .ok (some place) → Proven H file place)
        ∧ ((∃ e ∈ entries, Passes H A route (leafOf H file) e) →
            ∃ place, findInTree H A route file entries = .ok (some place)) := by
  intro h
  obtain ⟨place, hplace⟩ := (h sampleHash sampleAead sampleRoute []
    [⟨[], js "!"⟩, sampleEntry]).2 ⟨sampleEntry, by simp, sampleEntry_passes⟩
  have hthrows : unb64 (js "!") = .error (error
      (js "The string to be decoded is not correctly encoded.")) := by decide +kernel
  rw [findInTree, findEntry, checkEntry, hthrows] at hplace
  cases hplace

end Sample

end TreeEntries

end BitGraph
