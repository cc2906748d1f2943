import BitGraph.Fuse
import BitGraph.Tree

/-!
The set documents of `fuse.ts`: the manifest of a set and the root of a Merkle set.

* **Manifest.** `buildSetManifest` lists the rows by their artifacts, `parseSetManifest` takes
  nothing but what it writes.
* **Root.** `buildSetRoot` and `parseSetRoot`.
* **Main result.** `set_documents_one_form`: what is built is read back, the rows sorted, in
  whatever order they were given, and what is read was built.
-/

namespace BitGraph

open Js

namespace Fuse

def SET_PLACEMENT_ID : Str := js "set/1"
def SET2_PLACEMENT_ID : Str := js "set/2"
def MAX_SET2_MEMBERS : ℕ := 1000000

/-- `[a-z0-9]`. -/
def isIdUnit (c : UInt16) : Bool := isDigit c || (97 ≤ c.toNat && c.toNat ≤ 122)

/-- `/^[a-z0-9][a-z0-9-]*\/[1-9][0-9]*$/`. -/
def isPlacementId : Str → Bool
  | [] => false
  | c :: s =>
      isIdUnit c && match s.dropWhile fun c => isIdUnit c || c == 45 with
        | 47 :: d :: t => isDigit d && d != 48 && t.all isDigit
        | _ => false

structure SetMember where
  artifact : Bytes
  origin : Bytes
  placement : Str
  deriving DecidableEq

/-! ### Manifest -/

/-- A row of a manifest. -/
def rowValue (m : SetMember) : Value :=
  .obj [(js "artifact", digestField m.artifact), (js "origin", digestField m.origin),
    (js "placement", .str m.placement)]

def manifestValue (commitment : Bytes) (rows : List SetMember) : Value :=
  .obj [(js "members", .arr (rows.map rowValue)), (js "placement", .str SET_PLACEMENT_ID),
    (js "slotCommitment", digestField commitment), (js "type", .str FUSE_PROFILE)]

/-- The checks of the loop over the members, with the artifacts seen before. -/
def checkRows (seen : List Str) : List SetMember → Except Thrown Unit
  | [] => .ok ()
  | m :: members =>
      if m.artifact.length ≠ 32 then .error (typeError (js "member artifact digest must be 32 bytes"))
      else if m.origin.length ≠ 32 then .error (typeError (js "member origin digest must be 32 bytes"))
      else if !isPlacementId m.placement then
        .error (typeError (js "member placement \"" ++ m.placement ++ js "\" is not a placement id"))
      else if m.placement = SET_PLACEMENT_ID ∨ m.placement = SET2_PLACEMENT_ID then
        .error (typeError (js "a set cannot list a set as a member"))
      else
        let artifact := bytesToHex m.artifact
        if artifact ∈ seen then
          .error (typeError (js "duplicate member artifact digest " ++ artifact))
        else checkRows (artifact :: seen) members

/-- The order of the rows; no two of them have one artifact. -/
def rowLe (a b : SetMember) : Prop := bytesToHex a.artifact ≤ bytesToHex b.artifact

instance : DecidableRel rowLe := fun a b =>
  inferInstanceAs (Decidable (bytesToHex a.artifact ≤ bytesToHex b.artifact))

def buildSetManifest (commitment : Bytes) (members : List SetMember) : Except Thrown Bytes :=
  if commitment.length ≠ 32 then .error (typeError (js "commitment must be 32 bytes"))
  else if members.length = 0 then .error (typeError (js "a set lists at least one member"))
  else do
    checkRows [] members
    canonicalize (manifestValue commitment (members.insertionSort rowLe))

def readRow (row : Value) : Option SetMember :=
  if !isRecord row || row.sortedKeys != js "artifact,origin,placement" then none
  else
    match readDigestField (row.get (js "artifact")), readDigestField (row.get (js "origin")),
        row.get (js "placement") with
    | some artifact, some origin, .str placement =>
        if !isPlacementId placement || placement == SET_PLACEMENT_ID
          || placement == SET2_PLACEMENT_ID then none
        else some ⟨artifact, origin, placement⟩
    | _, _, _ => none

structure SetManifest where
  commitment : Bytes
  members : List SetMember
  deriving DecidableEq

def parseSetManifest (bytes : Bytes) : Option SetManifest := do
  let parsed ← readJsonKeepBom bytes
  if !isRecord parsed || parsed.sortedKeys != js "members,placement,slotCommitment,type"
    || parsed.get (js "type") != .str FUSE_PROFILE
    || parsed.get (js "placement") != .str SET_PLACEMENT_ID then none
  else
    let commitment ← readDigestField (parsed.get (js "slotCommitment"))
    match parsed.get (js "members") with
    | .arr (row :: list) =>
        let members ← (row :: list).mapM readRow
        if rebuilds (buildSetManifest commitment members) bytes then some ⟨commitment, members⟩
        else none
    | _ => none

/-! ### Root -/

def rootValue (commitment : Bytes) (count : Number) (root : Bytes) : Value :=
  .obj [(js "count", .num count), (js "placement", .str SET2_PLACEMENT_ID),
    (js "root", digestField root), (js "slotCommitment", digestField commitment),
    (js "type", .str FUSE_PROFILE)]

/-- `Number.isInteger(count)`, at least one and at most `MAX_SET2_MEMBERS`. -/
def isCount (count : Number) : Bool :=
  match count.toInt? with
  | some n => 1 ≤ n && n ≤ MAX_SET2_MEMBERS
  | none => false

def buildSetRoot (commitment : Bytes) (count : Number) (root : Bytes) : Except Thrown Bytes :=
  if commitment.length ≠ 32 then .error (typeError (js "commitment must be 32 bytes"))
  else if root.length ≠ 32 then .error (typeError (js "root must be 32 bytes"))
  else if !isCount count then
    .error (typeError (js "count must be an integer from 1 to " ++ decimal MAX_SET2_MEMBERS))
  else canonicalize (rootValue commitment count root)

structure SetRoot where
  commitment : Bytes
  count : Number
  root : Bytes
  deriving DecidableEq

def parseSetRoot (bytes : Bytes) : Option SetRoot := do
  let parsed ← readJsonKeepBom bytes
  if !isRecord parsed || parsed.sortedKeys != js "count,placement,root,slotCommitment,type"
    || parsed.get (js "type") != .str FUSE_PROFILE
    || parsed.get (js "placement") != .str SET2_PLACEMENT_ID then none
  else
    match parsed.get (js "count") with
    | .num count =>
        if !isCount count then none
        else
          let commitment ← readDigestField (parsed.get (js "slotCommitment"))
          let root ← readDigestField (parsed.get (js "root"))
          if rebuilds (buildSetRoot commitment count root) bytes then some ⟨commitment, count, root⟩
          else none
    | _ => none

/-! ### Rows -/

lemma bytesToHex_injective : Function.Injective bytesToHex := fun a b h =>
  Option.some.inj ((hexToBytes_bytesToHex a).symm.trans (h ▸ hexToBytes_bytesToHex b))

/-- A row that a manifest takes. -/
structure RowValid (m : SetMember) : Prop where
  artifact : m.artifact.length = 32
  origin : m.origin.length = 32
  placement : isPlacementId m.placement = true
  notSet : m.placement ≠ SET_PLACEMENT_ID ∧ m.placement ≠ SET2_PLACEMENT_ID

/-- A set of rows: valid, and no two with one artifact. -/
structure RowsValid (rows : List SetMember) : Prop where
  nonempty : rows ≠ []
  valid : ∀ m ∈ rows, RowValid m
  nodup : (rows.map SetMember.artifact).Nodup

variable {rows : List SetMember} {commitment : Bytes}

lemma checkRows_eq_ok {seen : List Str} : checkRows seen rows = .ok () ↔ (∀ m ∈ rows, RowValid m)
    ∧ (rows.map SetMember.artifact).Nodup ∧ ∀ m ∈ rows, bytesToHex m.artifact ∉ seen := by
  induction rows generalizing seen with
  | nil => exact iff_of_true rfl ⟨by simp, List.nodup_nil, by simp⟩
  | cons m rows ih =>
      have hrow : RowValid m ↔ m.artifact.length = 32 ∧ m.origin.length = 32
          ∧ isPlacementId m.placement = true
          ∧ ¬ (m.placement = SET_PLACEMENT_ID ∨ m.placement = SET2_PLACEMENT_ID) := by
        rw [not_or]
        exact ⟨fun h => ⟨h.artifact, h.origin, h.placement, h.notSet⟩,
          fun h => ⟨h.1, h.2.1, h.2.2.1, h.2.2.2⟩⟩
      rw [checkRows]
      simp only [List.forall_mem_cons, List.map_cons, List.nodup_cons, hrow]
      split_ifs with ha ho hp hs hseen
      · simp [ha]
      · simp [ho]
      · simp at hp
        simp [hp]
      · simp [hs]
      · simp [hseen]
      · rw [ih]
        constructor
        · rintro ⟨hrows, hnodup, hout⟩
          have hnew : m.artifact ∉ rows.map SetMember.artifact := by
            intro hmem
            obtain ⟨n, hn, heq⟩ := List.mem_map.mp hmem
            exact hout n hn (heq ▸ List.mem_cons_self)
          exact ⟨⟨⟨not_not.mp ha, not_not.mp ho, by simpa using hp, hs⟩, hrows⟩, ⟨hnew, hnodup⟩,
            hseen, fun n hn hmem => hout n hn (List.mem_cons_of_mem _ hmem)⟩
        · rintro ⟨⟨-, hrows⟩, ⟨hnew, hnodup⟩, -, hout⟩
          refine ⟨hrows, hnodup, fun n hn hmem => ?_⟩
          rcases List.mem_cons.mp hmem with heq | hmem
          · exact hnew (List.mem_map.mpr ⟨n, hn, bytesToHex_injective heq⟩)
          · exact hout n hn hmem

lemma checkRows_of_valid (h : RowsValid rows) : checkRows [] rows = .ok () :=
  checkRows_eq_ok.mpr ⟨h.valid, h.nodup, fun _ _ => List.not_mem_nil⟩

lemma RowsValid.perm {rows' : List SetMember} (h : RowsValid rows) (hp : rows'.Perm rows) :
    RowsValid rows' where
  nonempty := fun hnil => h.nonempty (hnil ▸ hp).symm.eq_nil
  valid := fun m hm => h.valid m (hp.subset hm)
  nodup := (hp.map _).nodup_iff.mpr h.nodup

/-- The rows in the order of the manifest. -/
def sortRows (rows : List SetMember) : List SetMember := rows.insertionSort rowLe

lemma sortRows_perm : (sortRows rows).Perm rows := List.perm_insertionSort _ _

instance : Std.Total rowLe := ⟨fun _ _ => List.le_total _ _⟩

instance : IsTrans SetMember rowLe := ⟨fun _ _ _ h h' => List.le_trans h h'⟩

/-- Sorted rows have ascending artifacts. -/
lemma sortRows_ascends (h : RowsValid rows) : (sortRows rows).Pairwise fun a b =>
    bytesToHex a.artifact < bytesToHex b.artifact := by
  have hnodup := (h.perm sortRows_perm).nodup
  refine (List.pairwise_insertionSort rowLe rows).imp₂ (fun a b hab hne => ?_)
    (List.pairwise_map.mp hnodup)
  by_contra hlt
  exact hne (bytesToHex_injective (List.le_antisymm hab (List.not_lt.mp hlt)))

/-- Rows of one set are sorted alike. -/
lemma sortRows_eq {rows' : List SetMember} (h : RowsValid rows) (hp : rows'.Perm rows) :
    sortRows rows' = sortRows rows := by
  have hl := List.perm_insertionSort rowLe rows'
  have hm := List.perm_insertionSort rowLe rows
  refine List.Perm.eq_of_pairwise (fun a b ha hb hab hba => ?_)
    (List.pairwise_insertionSort rowLe rows') (List.pairwise_insertionSort rowLe rows)
    (hl.trans (hp.trans hm.symm))
  exact List.inj_on_of_nodup_map h.nodup (hp.subset (hl.subset ha)) (hm.subset hb)
    (bytesToHex_injective (List.le_antisymm hab hba))

/-! ### Documents read back -/

lemma writable_rowValue (m : SetMember) : (rowValue m).Writable := by
  refine writable_fields [js "artifact", js "origin", js "placement"] rfl (by decide) fun f hf => ?_
  simp only [List.mem_cons, List.not_mem_nil, or_false] at hf
  rcases hf with rfl | rfl | rfl
  · exact writable_digestField _
  · exact writable_digestField _
  · exact Value.writable_str _

lemma readRow_rowValue {m : SetMember} (h : RowValid m) : readRow (rowValue m) = some m := by
  have ha : (rowValue m).get (js "artifact") = digestField m.artifact := rfl
  have ho : (rowValue m).get (js "origin") = digestField m.origin := rfl
  have hp : (rowValue m).get (js "placement") = .str m.placement := rfl
  have hk : (rowValue m).sortedKeys = js "artifact,origin,placement" := by
    change joinComma ([js "artifact", js "origin", js "placement"].insertionSort (· ≤ ·)) = _
    decide
  have hr : isRecord (rowValue m) = true := rfl
  rw [readRow, ha, ho, hp, hk, hr, readDigestField_digestField h.artifact,
    readDigestField_digestField h.origin]
  simp [h.placement, h.notSet.1, h.notSet.2]

lemma mapM_readRow (h : ∀ m ∈ rows, RowValid m) : (rows.map rowValue).mapM readRow = some rows := by
  induction rows with
  | nil => rfl
  | cons m rows ih =>
      rw [List.map_cons, List.mapM_cons, readRow_rowValue (h m List.mem_cons_self),
        ih fun n hn => h n (List.mem_cons_of_mem _ hn)]
      rfl

lemma writable_arr {l : List Value} (h : ∀ v ∈ l, v.Writable) : (Value.arr l).Writable := by
  refine ⟨?_, ?_, ?_⟩
  · rw [Value.isJson, Value.isJsonList_iff]
    exact fun v hv => (h v hv).isJson
  · rw [Value.allFinite, Value.allFiniteList_iff]
    exact fun v hv => (h v hv).allFinite
  · rw [Value.lacksKey, Value.lacksKeyList_iff]
    exact fun v hv => (h v hv).lacksKey

lemma writable_manifestValue (commitment : Bytes) (rows : List SetMember) :
    (manifestValue commitment rows).Writable := by
  refine writable_fields [js "members", js "placement", js "slotCommitment", js "type"] rfl
    (by decide) fun f hf => ?_
  simp only [List.mem_cons, List.not_mem_nil, or_false] at hf
  rcases hf with rfl | rfl | rfl | rfl
  · refine writable_arr fun v hv => ?_
    obtain ⟨m, -, rfl⟩ := List.mem_map.mp hv
    exact writable_rowValue m
  · exact Value.writable_str _
  · exact writable_digestField _
  · exact Value.writable_str _

lemma canonicalForm_manifestValue :
    (manifestValue commitment rows).canonicalForm = manifestValue commitment rows := by
  have hmembers : (Value.arr (rows.map rowValue)).canonicalForm = .arr (rows.map rowValue) := by
    rw [Value.canonicalForm, Value.sorted, Value.sortedList_eq, Value.posZero, Value.posZeroList_eq,
      List.map_map, List.map_map]
    rfl
  have hobj : (manifestValue commitment rows).canonicalForm
      = .obj [(js "members", (Value.arr (rows.map rowValue)).canonicalForm),
        (js "placement", .str SET_PLACEMENT_ID), (js "slotCommitment", digestField commitment),
        (js "type", .str FUSE_PROFILE)] := rfl
  rw [hobj, hmembers]
  rfl

/-- What the parser reads in a manifest that was built. -/
lemma parseSetManifest_build (hc : commitment.length = 32) (h : RowsValid rows) :
    ∃ b, buildSetManifest commitment rows = .ok b
      ∧ parseSetManifest b = some ⟨commitment, sortRows rows⟩ := by
  obtain ⟨b, hb, -, hread⟩ := canonicalize_read (writable_manifestValue commitment (sortRows rows))
  rw [canonicalForm_manifestValue] at hread
  have hbuild : ∀ rows', rows'.Perm rows → buildSetManifest commitment rows' = .ok b := by
    intro rows' hp
    have hvalid := h.perm hp
    rw [buildSetManifest, if_neg (not_not.mpr hc), if_neg (by simpa using hvalid.nonempty),
      checkRows_of_valid hvalid, ok_bind]
    exact (congrArg (fun l => canonicalize (manifestValue commitment l)) (sortRows_eq h hp)).trans hb
  refine ⟨b, hbuild rows (List.Perm.refl _), ?_⟩
  have hsorted := h.perm sortRows_perm
  have hmap := mapM_readRow hsorted.valid
  have hmembers : (manifestValue commitment (sortRows rows)).get (js "members")
      = .arr ((sortRows rows).map rowValue) := rfl
  have htype : (manifestValue commitment (sortRows rows)).get (js "type") = .str FUSE_PROFILE := rfl
  have hplace : (manifestValue commitment (sortRows rows)).get (js "placement")
      = .str SET_PLACEMENT_ID := rfl
  have hslot : (manifestValue commitment (sortRows rows)).get (js "slotCommitment")
      = digestField commitment := rfl
  have hkeys : (manifestValue commitment (sortRows rows)).sortedKeys
      = js "members,placement,slotCommitment,type" := by
    change joinComma ([js "members", js "placement", js "slotCommitment", js "type"].insertionSort
      (· ≤ ·)) = _
    decide
  have hrec : isRecord (manifestValue commitment (sortRows rows)) = true := rfl
  obtain ⟨m, l, hml⟩ := List.exists_cons_of_ne_nil hsorted.nonempty
  have hlist : (manifestValue commitment (sortRows rows)).get (js "members")
      = .arr (rowValue m :: l.map rowValue) := hmembers.trans (by rw [hml, List.map_cons])
  rw [hml, List.map_cons] at hmap
  rw [parseSetManifest, hread]
  simp only [Option.bind_eq_bind, Option.bind_some, hkeys, htype, hplace, hslot, hrec, hlist, hmap,
    readDigestField_digestField hc, bne_self_eq_false, Bool.not_true, Bool.or_self,
    Bool.false_eq_true, if_false]
  rw [← hml, if_pos (rebuilds_iff.mpr (hbuild _ sortRows_perm))]

lemma valid_of_buildSetManifest {b : Bytes} (h : buildSetManifest commitment rows = .ok b) :
    commitment.length = 32 ∧ RowsValid rows := by
  rw [buildSetManifest] at h
  split at h
  · cases h
  · next hc =>
      split at h
      · cases h
      · next hlen =>
          obtain ⟨u, hrows, -⟩ := bind_eq_ok h
          obtain ⟨hvalid, hnodup, -⟩ := checkRows_eq_ok.mp hrows
          exact ⟨not_not.mp hc, fun hnil => hlen (hnil ▸ rfl), hvalid, hnodup⟩

/-- A manifest does not depend on the order of its rows. -/
lemma buildSetManifest_perm {rows' : List SetMember} (hc : commitment.length = 32)
    (h : RowsValid rows) (hp : rows'.Perm rows) :
    buildSetManifest commitment rows' = buildSetManifest commitment rows := by
  have hlen : ∀ {l}, RowsValid l → ¬ l.length = 0 := fun hl => by simpa using hl.nonempty
  rw [buildSetManifest, buildSetManifest, if_neg (not_not.mpr hc), if_neg (not_not.mpr hc),
    if_neg (hlen (h.perm hp)), if_neg (hlen h), checkRows_of_valid (h.perm hp), checkRows_of_valid h]
  exact congrArg (fun l => canonicalize (manifestValue commitment l)) (sortRows_eq h hp)

lemma build_of_parseSetManifest {b : Bytes} {m : SetManifest} (h : parseSetManifest b = some m) :
    buildSetManifest m.commitment m.members = .ok b := by
  rw [parseSetManifest, Option.bind_eq_bind, Option.bind_eq_some_iff] at h
  obtain ⟨parsed, -, h⟩ := h
  split at h
  · cases h
  · rw [Option.bind_eq_bind, Option.bind_eq_some_iff] at h
    obtain ⟨c, -, h⟩ := h
    split at h
    · rw [Option.bind_eq_bind, Option.bind_eq_some_iff] at h
      obtain ⟨members, -, h⟩ := h
      split at h
      · next hreb =>
          obtain rfl := Option.some.inj h
          exact rebuilds_iff.mp hreb
      · cases h
    · cases h

/-! ### Roots read back -/

section Root

variable {count : Number} {root : Bytes}

/-- A count has its number in the canonical form. -/
lemma canonicalForm_count (h : isCount count = true) :
    (Value.num count).Writable ∧ (Value.num count).canonicalForm = .num count := by
  cases count with
  | fin d =>
      have hsig : d.sig ≠ 0 := by
        intro h0
        rw [isCount, Number.toInt?] at h
        simp [h0] at h
      refine ⟨⟨?_, rfl, rfl⟩, ?_⟩
      · simp [Value.isJson]
      · simp [Value.canonicalForm, Value.sorted, Value.posZero, Double.posZero, hsig]
  | inf neg => cases h
  | nan => cases h

lemma writable_rootValue (commitment root : Bytes) (h : isCount count = true) :
    (rootValue commitment count root).Writable := by
  refine writable_fields [js "count", js "placement", js "root", js "slotCommitment", js "type"] rfl
    (by decide) fun f hf => ?_
  simp only [List.mem_cons, List.not_mem_nil, or_false] at hf
  rcases hf with rfl | rfl | rfl | rfl | rfl
  · exact (canonicalForm_count h).1
  · exact Value.writable_str _
  · exact writable_digestField _
  · exact writable_digestField _
  · exact Value.writable_str _

lemma canonicalForm_rootValue (h : isCount count = true) :
    (rootValue commitment count root).canonicalForm = rootValue commitment count root := by
  have hobj : (rootValue commitment count root).canonicalForm
      = .obj [(js "count", (Value.num count).canonicalForm), (js "placement", .str SET2_PLACEMENT_ID),
        (js "root", digestField root), (js "slotCommitment", digestField commitment),
        (js "type", .str FUSE_PROFILE)] := rfl
  rw [hobj, (canonicalForm_count h).2]
  rfl

lemma parseSetRoot_build (hc : commitment.length = 32) (hr : root.length = 32)
    (h : isCount count = true) : ∃ b, buildSetRoot commitment count root = .ok b
      ∧ parseSetRoot b = some ⟨commitment, count, root⟩ := by
  obtain ⟨b, hb, -, hread⟩ := canonicalize_read (writable_rootValue commitment root h)
  rw [canonicalForm_rootValue h] at hread
  have hbuild : buildSetRoot commitment count root = .ok b := by
    rw [buildSetRoot, if_neg (not_not.mpr hc), if_neg (not_not.mpr hr), h]
    exact hb
  refine ⟨b, hbuild, ?_⟩
  have hcount : (rootValue commitment count root).get (js "count") = .num count := rfl
  have htype : (rootValue commitment count root).get (js "type") = .str FUSE_PROFILE := rfl
  have hplace : (rootValue commitment count root).get (js "placement") = .str SET2_PLACEMENT_ID := rfl
  have hslot : (rootValue commitment count root).get (js "slotCommitment")
      = digestField commitment := rfl
  have hroot : (rootValue commitment count root).get (js "root") = digestField root := rfl
  have hkeys : (rootValue commitment count root).sortedKeys
      = js "count,placement,root,slotCommitment,type" := by
    change joinComma ([js "count", js "placement", js "root", js "slotCommitment",
      js "type"].insertionSort (· ≤ ·)) = _
    decide
  have hrec : isRecord (rootValue commitment count root) = true := rfl
  rw [parseSetRoot, hread]
  simp only [Option.bind_eq_bind, Option.bind_some, hkeys, htype, hplace, hslot, hroot, hrec, hcount,
    h, readDigestField_digestField hc, readDigestField_digestField hr, bne_self_eq_false,
    Bool.not_true, Bool.or_self, Bool.false_eq_true, if_false, rebuilds_iff.mpr hbuild, if_true]

lemma valid_of_buildSetRoot {b : Bytes} (h : buildSetRoot commitment count root = .ok b) :
    commitment.length = 32 ∧ root.length = 32 ∧ isCount count = true := by
  rw [buildSetRoot] at h
  split_ifs at h with hc hr hn
  exact ⟨not_not.mp hc, not_not.mp hr, by simpa using hn⟩

lemma build_of_parseSetRoot {b : Bytes} {r : SetRoot} (h : parseSetRoot b = some r) :
    buildSetRoot r.commitment r.count r.root = .ok b := by
  rw [parseSetRoot, Option.bind_eq_bind, Option.bind_eq_some_iff] at h
  obtain ⟨parsed, -, h⟩ := h
  split at h
  · cases h
  · split at h
    · split at h
      · cases h
      · simp only [Option.bind_eq_bind, Option.bind_eq_some_iff] at h
        obtain ⟨c, -, root, -, h⟩ := h
        split at h
        · next hreb =>
            obtain rfl := Option.some.inj h
            exact rebuilds_iff.mp hreb
        · cases h
    · cases h

end Root

/-- A builder that takes what is valid, and a parser that takes what is built. -/
structure OneForm {α : Type} (build : α → Except Thrown Bytes) (parse : Bytes → Option α)
    (valid : α → Prop) (normal : α → α) : Prop where
  builds : ∀ a, (∃ b, build a = .ok b) ↔ valid a
  reads : ∀ a b, build a = .ok b → parse b = some (normal a)
  built : ∀ b a, parse b = some a → build a = .ok b
  apart : ∀ b b' a, parse b = some a → parse b' = some a → b = b'

lemma OneForm.of_built {α : Type} {build : α → Except Thrown Bytes} {parse : Bytes → Option α}
    {valid : α → Prop} {normal : α → α} (hvalid : ∀ a b, build a = .ok b → valid a)
    (hreads : ∀ a, valid a → ∃ b, build a = .ok b ∧ parse b = some (normal a))
    (hbuilt : ∀ b a, parse b = some a → build a = .ok b) : OneForm build parse valid normal where
  builds := fun a => ⟨by rintro ⟨b, h⟩; exact hvalid a b h,
    fun h => (hreads a h).imp fun _ hb => hb.1⟩
  reads := by
    intro a b h
    obtain ⟨b', hb', hparse⟩ := hreads a (hvalid a b h)
    rwa [← Except.ok.inj (h.symm.trans hb')] at hparse
  built := hbuilt
  apart := fun _ _ a h h' => Except.ok.inj ((hbuilt _ a h).symm.trans (hbuilt _ a h'))

/-- **Payloads, manifests and roots have one byte form.** Valid data is built, and what is built is
read back, a manifest with its rows sorted; a parser accepts only what is built from what it
returns; and a manifest does not depend on the order of its rows. -/
theorem set_documents_one_form :
    OneForm (fun p => buildFusePayload p.commitment p.originDigest) parseFusePayload
        (fun p => PayloadValid p.commitment p.originDigest) id
      ∧ OneForm (fun m => buildSetManifest m.commitment m.members) parseSetManifest
        (fun m => m.commitment.length = 32 ∧ RowsValid m.members)
        (fun m => ⟨m.commitment, sortRows m.members⟩)
      ∧ OneForm (fun r => buildSetRoot r.commitment r.count r.root) parseSetRoot
        (fun r => r.commitment.length = 32 ∧ r.root.length = 32 ∧ isCount r.count = true) id
      ∧ ∀ commitment rows rows', commitment.length = 32 → RowsValid rows → rows'.Perm rows →
        buildSetManifest commitment rows' = buildSetManifest commitment rows
          ∧ (sortRows rows).Perm rows
          ∧ (sortRows rows).Pairwise fun a b => bytesToHex a.artifact < bytesToHex b.artifact := by
  refine ⟨.of_built (fun _ _ => valid_of_buildFusePayload) (fun _ h => parseFusePayload_build h)
      fun _ _ => build_of_parseFusePayload,
    .of_built (fun _ _ => valid_of_buildSetManifest) (fun _ h => parseSetManifest_build h.1 h.2)
      fun _ _ => build_of_parseSetManifest,
    .of_built (fun _ _ => valid_of_buildSetRoot) (fun _ h => parseSetRoot_build h.1 h.2.1 h.2.2)
      fun _ _ => build_of_parseSetRoot,
    fun commitment rows rows' hc h hp => ?_⟩
  exact ⟨buildSetManifest_perm hc h hp, sortRows_perm, sortRows_ascends h⟩

end Fuse

end BitGraph
