import BitGraph.TreeMember

/-!
When the membership of a digest tree is exact.

* **Statement.** `WalkExact` says of a count and an index that `treeRootFromPath` agrees with
  `merkleRootFromPath`, gives the root of a list of digests for the member at the index and for nothing
  else, and that `checkTreeMember` and `checkTreeFloor` answer for the member at the index only.
* **Where it holds.** `walkExact_iff`: for an index below `2 ^ 31` in a tree of at most `2 ^ 32` files,
  and for every index outside the tree.
* **Where it fails.** From `2 ^ 31` on `>>` turns the index negative and the walk takes every sibling as
  a right one (`walkUp_left`); above `2 ^ 32` files `merkleRootFromPath` drops the upper bits of the last
  index and takes a shorter path than the walk (`length_of_rootFromPathLoop`).
-/

namespace BitGraph

open Js HashTree

namespace TreeMember

variable {H : HashFn} {index : Number} {files m : ℕ}

/-! ### Numbers -/

lemma safe?_ofNat (h : files < 2 ^ 53) : safe? (Number.ofNat files) = some (files : ℤ) := by
  rw [safe?, toInt?_ofNat h, Option.filter_some, if_pos (by simpa using h)]

lemma safe?_of_index (hi : index? index files = some m) (hn : files < 2 ^ 53) :
    safe? index = some (m : ℤ) := by
  obtain ⟨hint, hm⟩ := index?_eq_some.mp hi
  rw [safe?, hint, Option.filter_some, if_pos]
  simp only [Int.natAbs_natCast, decide_eq_true_eq]
  omega

/-- An index of the tree: the walk of its number. -/
lemma treeRootFromPath_eq {leaf siblings : Bytes} (hi : index? index files = some m)
    (hn : files < 2 ^ 53) : treeRootFromPath H leaf index (Number.ofNat files) siblings =
      if siblings.length % 32 = 0 then (walkUp H leaf m files siblings).map bytesToHex else none := by
  have hm := (index?_eq_some.mp hi).2
  rw [treeRootFromPath, safe?_of_index hi hn, safe?_ofNat hn]
  dsimp only
  rw [Int.toNat_natCast]
  by_cases h32 : siblings.length % 32 = 0
  · rw [if_neg (by omega), if_pos h32]
  · rw [if_pos (by omega), if_neg h32]

lemma index?_eq_none (h : index? index files = none) {k : ℤ} (hk : index.toInt? = some k) :
    k < 0 ∨ (files : ℤ) ≤ k := by
  rw [index?, hk, Option.bind_some] at h
  by_contra hc
  rw [if_neg hc] at h
  cases h

/-- No index of the tree, no root. -/
lemma treeRootFromPath_eq_none {leaf siblings : Bytes} (hi : index? index files = none)
    (hn : files < 2 ^ 53) : treeRootFromPath H leaf index (Number.ofNat files) siblings = none := by
  rw [treeRootFromPath, safe?_ofNat hn]
  cases hs : safe? index with
  | none => rfl
  | some k =>
      have hk := index?_eq_none hi (Option.filter_eq_some_iff.mp hs).1
      dsimp only
      rw [if_pos (by omega)]

lemma merkleRootFromPath_eq_none {leaf : Bytes} {path : List Bytes} (hi : index? index files = none)
    (hn : files < 2 ^ 53) : merkleRootFromPath H leaf index (Number.ofNat files) path = none := by
  rw [merkleRootFromPath, toInt?_ofNat hn]
  cases hs : index.toInt? with
  | none => rfl
  | some k =>
      have hk := index?_eq_none hi hs
      dsimp only
      rw [if_pos (by omega)]

/-- The root depends on the integer a number is. -/
lemma treeRootFromPath_congr {leaf siblings : Bytes} {n n' : Number} (h : n.toInt? = n'.toInt?) :
    treeRootFromPath H leaf index n siblings = treeRootFromPath H leaf index n' siblings := by
  rw [treeRootFromPath, treeRootFromPath, safe?, safe?, safe?, h]

/-! ### Nodes of 32 bytes -/

/-- Bytes of a length that 32 divides are nodes laid end to end. -/
lemma exists_nodes {b : Bytes} (h : b.length % 32 = 0) :
    ∃ path : List Bytes, (∀ p ∈ path, p.length = 32) ∧ path.flatten = b := by
  obtain ⟨k, hk⟩ : ∃ k, b.length = 32 * k := ⟨b.length / 32, by omega⟩
  clear h
  induction k generalizing b with
  | zero => exact ⟨[], by simp, (List.eq_nil_of_length_eq_zero (by omega)).symm⟩
  | succ k ih =>
      obtain ⟨path, h32, hflat⟩ := @ih (b.drop 32) (by rw [List.length_drop]; omega)
      refine ⟨b.take 32 :: path, fun p hp => ?_, ?_⟩
      · rcases List.mem_cons.mp hp with rfl | hp
        · rw [List.length_take]
          omega
        · exact h32 p hp
      · rw [List.flatten_cons, hflat, List.take_append_drop]

lemma length_flatten_nodes {path : List Bytes} (h : ∀ p ∈ path, p.length = 32) :
    path.flatten.length = 32 * path.length := by
  induction path with
  | nil => rfl
  | cons p path ih =>
      rw [List.flatten_cons, List.length_append, ih fun q hq => h q (List.mem_cons_of_mem p hq),
        h p (by simp), List.length_cons]
      omega

lemma bytesToHex_inj {a b : Bytes} (h : bytesToHex a = bytesToHex b) : a = b := by
  have hb := hexToBytes_bytesToHex a
  rw [h, hexToBytes_bytesToHex] at hb
  exact (Option.some.inj hb).symm

/-! ### Members -/

variable (H)

/-- The leaf hashes of the digests of files. -/
def memberLeaves (digests : List Bytes) : List Bytes := digests.map (merkleLeafHash H)

/-- The digest at an index, with the audit path of its leaf laid end to end. -/
def IsMember (digests : List Bytes) (index : Number) (d siblings : Bytes) : Prop :=
  ∃ i, index? index digests.length = some i ∧ digests[i]? = some d
    ∧ ∃ path, merklePath H (memberLeaves H digests) index = .ok path ∧ siblings = path.flatten

/-- The byte strings hashed to walk a digest up. -/
def memberPreimages (d : Bytes) (index : Number) (files : ℕ) (siblings : Bytes) : List Bytes :=
  (0x00 :: d) :: walkPreimages H (merkleLeafHash H d) ((safe? index).getD 0) files siblings

/-- The byte strings hashed to build the tree. -/
def treePreimages (digests : List Bytes) : List Bytes :=
  digests.map (List.cons 0x00) ++ buildPreimages H (memberLeaves H digests) 0 digests.length

/-- The text of the tree of a list of digests with a root. -/
def boundText (digests : List Bytes) (root : Bytes) : Str :=
  digestTreeRootText digests.length (bytesToHex root)

/-- The member of a block is the file at its index, or two byte strings that were hashed collide. -/
def BlockMember (digests : List Bytes) (root : Bytes) (rootText : Str) (index : Number) (d siblings : Bytes) :
    Prop :=
  IsMember H digests index d siblings
    ∨ H.Collides (utf8Encode rootText :: memberPreimages H d index digests.length siblings)
        (utf8Encode (boundText digests root) :: treePreimages H digests)

variable {H}

/-- What a count and an index owe: for every hash, list of digests, digest and siblings. -/
structure WalkExact (files : ℕ) (index : Number) : Prop where
  agrees : ∀ (H : HashFn) (leaf : Bytes) (path : List Bytes), leaf.length = 32 →
    (∀ p ∈ path, p.length = 32) →
    treeRootFromPath H leaf index (Number.ofNat files) path.flatten
      = (merkleRootFromPath H leaf index (Number.ofNat files) path).map bytesToHex
  complete : ∀ (H : HashFn) (digests : List Bytes) (d siblings root : Bytes), digests.length = files →
    merkleRoot H (memberLeaves H digests) = .ok root → IsMember H digests index d siblings →
    treeRootFromPath H (merkleLeafHash H d) index (Number.ofNat files) siblings = some (bytesToHex root)
  sound : ∀ (H : HashFn) (digests : List Bytes) (d siblings root : Bytes), digests.length = files →
    merkleRoot H (memberLeaves H digests) = .ok root →
    treeRootFromPath H (merkleLeafHash H d) index (Number.ofNat files) siblings
      = some (bytesToHex root) →
    IsMember H digests index d siblings
      ∨ H.Collides (memberPreimages H d index files siblings) (treePreimages H digests)
  member : ∀ (H : HashFn) (digests : List Bytes) (root : Bytes) (proof : Value) (file : FileDigest)
    (block : TreeMemberBlock), digests.length = files →
    merkleRoot H (memberLeaves H digests) = .ok root →
    signsText H proof (boundText digests root) = true → block.index = index →
    checkTreeMember H proof file (some block) = true →
    ∃ d siblings, file.read = some d ∧ unb64 block.path = some siblings
      ∧ BlockMember H digests root block.rootText index d siblings
  floor : ∀ (H : HashFn) (digests : List Bytes) (root : Bytes) (proof : Value) (text : Str)
    (block : TreeMemberBlock) (floor : TreeFloorBlock), digests.length = files →
    merkleRoot H (memberLeaves H digests) = .ok root →
    signsText H proof (boundText digests root) = true →
    block.floor.get (js "file") = .str text → block.floor.get (js "index") = .num index →
    checkTreeFloor H proof (some block) = some floor →
    (∃ o, parse text = some o ∧ readFloor o = some floor)
      ∧ ∃ siblings, BlockMember H digests root block.rootText index (H (utf8Encode text)) siblings

/-! ### An index the walk reads as it is -/

section Below

variable {digests : List Bytes} {d siblings root : Bytes}

lemma length_memberLeaves (H : HashFn) (digests : List Bytes) :
    (memberLeaves H digests).length = digests.length := List.length_map ..

lemma length_of_merkleRoot (hroot : merkleRoot H (memberLeaves H digests) = .ok root) :
    root.length = 32 := by
  obtain ⟨hne, h32, rfl⟩ := merkleRoot_eq_ok.mp hroot
  exact length_subtreeHash h32 (List.length_pos_iff.mpr hne)

lemma getD_memberLeaves (hd : digests[m]? = some d) :
    (memberLeaves H digests).getD m [] = merkleLeafHash H d := by
  rw [List.getD_eq_getElem?_getD, memberLeaves, List.getElem?_map, hd]
  rfl

/-- Two walkers, one root. -/
lemma agrees_of_lt (hi : index? index files = some m) (hm : m < 2 ^ 31) (hn : files ≤ 2 ^ 32)
    {leaf : Bytes} {path : List Bytes} (hleaf : leaf.length = 32) (h32 : ∀ p ∈ path, p.length = 32) :
    treeRootFromPath H leaf index (Number.ofNat files) path.flatten
      = (merkleRootFromPath H leaf index (Number.ofNat files) path).map bytesToHex := by
  have hlt := (index?_eq_some.mp hi).2
  rw [treeRootFromPath_eq hi (by omega), length_flatten_nodes h32,
    if_pos (Nat.mul_mod_right 32 _), walkUp_eq hm hlt h32]
  congr 1
  by_cases hlen : path.length = (sides m (files - 1)).length
  · rw [if_pos hlen]
    exact ((merkleRootFromPath_eq_some hn).mpr ⟨m, hi, hleaf, hlen, h32, rfl⟩).symm
  · rw [if_neg hlen, eq_comm, Option.eq_none_iff_forall_ne_some]
    intro r hr
    obtain ⟨m', hi', -, hlen', -⟩ := (merkleRootFromPath_eq_some hn).mp hr
    rw [hi] at hi'
    obtain rfl := Option.some.inj hi'
    exact hlen hlen'

/-- A member walks to the root. -/
lemma complete_of_lt (hn : digests.length < 2 ^ 53) (hi : index? index digests.length = some m)
    (hm : m < 2 ^ 31) (hroot : merkleRoot H (memberLeaves H digests) = .ok root)
    (hmem : IsMember H digests index d siblings) :
    treeRootFromPath H (merkleLeafHash H d) index (Number.ofNat digests.length) siblings
      = some (bytesToHex root) := by
  obtain ⟨m', hi', hd, path, hpath, rfl⟩ := hmem
  obtain rfl : m' = m := Option.some.inj (hi'.symm.trans hi)
  obtain ⟨-, h32, rfl⟩ := merkleRoot_eq_ok.mp hroot
  have hlt := (index?_eq_some.mp hi).2
  have hlt' : m' < (memberLeaves H digests).length := by rwa [length_memberLeaves]
  rw [merklePath_eq h32 (by rw [length_memberLeaves]; exact hi)] at hpath
  obtain rfl := Except.ok.inj hpath
  have hp32 : ∀ p ∈ subtreeAudit H (memberLeaves H digests) 0 (memberLeaves H digests).length m',
      p.length = 32 := fun p hp => length_of_mem_subtreeAudit h32 (Nat.zero_le _) hlt' le_rfl hp
  have hleaf : (memberLeaves H digests).getD m' [] = merkleLeafHash H d := getD_memberLeaves hd
  have hlen : (subtreeAudit H (memberLeaves H digests) 0 (memberLeaves H digests).length m').length
      = (sides m' (digests.length - 1)).length := by
    rw [← length_memberLeaves H digests]
    exact length_audit hlt'
  have hclimb := @climb_audit _ (merkleNodeHash H) (fun i => (memberLeaves H digests).getD i []) 0 _ _ hlt'
  simp only [Nat.zero_add, hleaf] at hclimb
  rw [treeRootFromPath_eq hi hn, length_flatten_nodes hp32, if_pos (Nat.mul_mod_right 32 _),
    walkUp_eq hm hlt hp32, if_pos hlen, Option.map_some, ← length_memberLeaves H digests]
  exact congrArg (fun r => some (bytesToHex r)) hclimb

/-- What walks to the root is the member. -/
lemma sound_of_lt (hn : digests.length < 2 ^ 53) (hi : index? index digests.length = some m)
    (hm : m < 2 ^ 31) (hroot : merkleRoot H (memberLeaves H digests) = .ok root)
    (hwalk : treeRootFromPath H (merkleLeafHash H d) index (Number.ofNat digests.length) siblings
      = some (bytesToHex root)) : IsMember H digests index d siblings
        ∨ H.Collides (memberPreimages H d index digests.length siblings) (treePreimages H digests) := by
  have hlt := (index?_eq_some.mp hi).2
  have hlt' : m < (memberLeaves H digests).length := by rwa [length_memberLeaves]
  obtain ⟨-, h32, rfl⟩ := merkleRoot_eq_ok.mp hroot
  rw [treeRootFromPath_eq hi hn] at hwalk
  split at hwalk
  swap
  · cases hwalk
  next hmod =>
    obtain ⟨path, hp32, rfl⟩ := exists_nodes hmod
    rw [walkUp_eq hm hlt hp32] at hwalk
    split at hwalk
    swap
    · cases hwalk
    next hplen =>
      have hclimb := bytesToHex_inj (Option.some.inj hwalk)
      rw [← length_memberLeaves H digests] at hplen hclimb
      rcases audit_of_climb h32 hlt' (H.length_apply _) hplen hp32 hclimb with ⟨hleaf, haudit⟩ | hcoll
      · -- the leaf is that of the digest at the index, or two leaves collide
        rw [getD_memberLeaves (List.getElem?_eq_getElem hlt)] at hleaf
        by_cases hd : d = digests[m]
        · refine Or.inl ⟨m, hi, by rw [List.getElem?_eq_getElem hlt, hd], path, ?_, rfl⟩
          rw [merklePath_eq h32 (by rw [length_memberLeaves]; exact hi), haudit]
        · refine Or.inr ⟨0x00 :: d, List.mem_cons_self .., 0x00 :: digests[m], ?_, by simpa using hd, hleaf⟩
          exact List.mem_append_left _ (List.mem_map_of_mem (List.getElem_mem hlt))
      · refine Or.inr (hcoll.mono (fun x hx => ?_) fun y hy => ?_)
        · rw [memberPreimages, safe?_of_index hi hn, Option.getD_some]
          refine List.mem_cons_of_mem _ ?_
          rw [length_memberLeaves] at hx hplen
          rwa [walkPreimages_eq hm hlt hp32 hplen]
        · rw [length_memberLeaves] at hy
          exact List.mem_append_right _ hy

end Below

/-! ### From the root text to the tree -/

section Bound

variable {digests : List Bytes} {d siblings root : Bytes} {proof : Value} {rootText : Str}
  {parsed : RootText}

lemma isAscii_ROOT_TEXT : isAscii ROOT_TEXT = true ∧ isAscii (js " files:\n") = true := by decide

/-- What a root text is made of. -/
lemma parseDigestTreeRootText_spec (h : parseDigestTreeRootText rootText = some parsed) :
    ∃ digits : Str, (∀ c ∈ digits, isDigit c = true) ∧ (∀ c ∈ parsed.root, isLowerHex c = true)
      ∧ rootText = ROOT_TEXT ++ (digits ++ (js " files:\n" ++ (parsed.root ++ [10]))) := by
  rw [parseDigestTreeRootText] at h
  obtain ⟨t, ht, h⟩ := Option.bind_eq_some_iff.mp h
  obtain ⟨u, hu, h⟩ := Option.bind_eq_some_iff.mp h
  dsimp only at h
  split at h
  · cases h
  · next hc =>
      split at h
      swap
      · cases h
      · obtain rfl := Option.some.inj h
        simp only [not_or, not_not, Bool.not_eq_false] at hc
        obtain ⟨-, -, hall, hend⟩ := hc
        refine ⟨(spanDigits t).1, (spanDigits_spec t).2, List.all_eq_true.mp hall, ?_⟩
        rw [stripPrefix?_eq_some.mp ht]
        congr 1
        calc t = (spanDigits t).1 ++ (spanDigits t).2 := (spanDigits_spec t).1.symm
          _ = (spanDigits t).1 ++ (js " files:\n" ++ u) := by rw [stripPrefix?_eq_some.mp hu]
          _ = (spanDigits t).1 ++ (js " files:\n" ++ (u.take 64 ++ [10])) := by
              rw [← hend, List.take_append_drop]

lemma isAscii_of_isLowerHex {s : Str} (h : ∀ c ∈ s, isLowerHex c = true) : isAscii s = true := by
  refine List.all_eq_true.mpr fun c hc => ?_
  have hrange := h c hc
  simp only [isLowerHex, Bool.or_eq_true, Bool.and_eq_true, decide_eq_true_eq] at hrange
  rw [decide_eq_true_eq]
  omega

lemma isAscii_of_digits {s : Str} (h : ∀ c ∈ s, isDigit c = true) : isAscii s = true := by
  refine List.all_eq_true.mpr fun c hc => ?_
  have hrange := h c hc
  simp only [isDigit, Bool.and_eq_true, decide_eq_true_eq] at hrange
  rw [decide_eq_true_eq]
  omega

lemma isAscii_rootText {digits hex : Str} (hd : ∀ c ∈ digits, isDigit c = true)
    (hh : ∀ c ∈ hex, isLowerHex c = true) :
    isAscii (ROOT_TEXT ++ (digits ++ (js " files:\n" ++ (hex ++ [10])))) = true := by
  have key : ∀ s t : Str, isAscii s = true → isAscii t = true → isAscii (s ++ t) = true :=
    fun s t hs ht => by
      rw [isAscii, List.all_append, Bool.and_eq_true]
      exact ⟨hs, ht⟩
  exact key _ _ isAscii_ROOT_TEXT.1 (key _ _ (isAscii_of_digits hd)
    (key _ _ isAscii_ROOT_TEXT.2 (key _ _ (isAscii_of_isLowerHex hh) (by decide))))

lemma boundText_eq : boundText digests root = ROOT_TEXT ++ (decimal digests.length
    ++ (js " files:\n" ++ (bytesToHex root ++ [10]))) := by
  rw [boundText, digestTreeRootText]
  simp only [List.append_assoc]

/-- The text of a tree reads back. -/
lemma parse_boundText (h1 : 1 ≤ digests.length) (hn : digests.length < 2 ^ 53) (hroot : root.length = 32) :
    parseDigestTreeRootText (boundText digests root) = some ⟨digests.length, bytesToHex root⟩ := by
  have hspan : spanDigits (decimal digests.length ++ (js " files:\n" ++ (bytesToHex root ++ [10])))
      = (decimal digests.length, js " files:\n" ++ (bytesToHex root ++ [10])) :=
    spanDigits_append (fun _ => isDigit_of_mem_decimal) fun c hc => by
      rw [show js " files:\n" = 32 :: js "files:\n" from rfl, List.cons_append, List.head?_cons] at hc
      rw [← Option.some.inj hc]
      rfl
  have hlen : (bytesToHex root).length = 64 := by rw [length_bytesToHex, hroot]
  have hall : (bytesToHex root).all isLowerHex = true :=
    List.all_eq_true.mpr fun c hc => isLowerHex_of_mem_bytesToHex hc
  rw [parseDigestTreeRootText, boundText_eq, stripPrefix?_append, Option.bind_eq_bind, Option.bind_some,
    hspan]
  simp only [stripPrefix?_append, Option.bind_some, List.take_left' hlen, List.drop_left' hlen, hlen, hall,
    decimal_ne_nil, readDecimal_decimal]
  rw [if_neg (by simp), if_pos ⟨h1, hn⟩]

/-- Texts that one proof signs have one hash. -/
lemma hash_of_signsText {s t : Str} (hs : signsText H proof s = true) (ht : signsText H proof t = true) :
    H (utf8Encode s) = H (utf8Encode t) := by
  rw [signsText] at hs ht
  split at hs
  · next bound hbound =>
      rw [hbound] at ht
      obtain ⟨b, hb, hsb⟩ := (Option.any_eq_true _ _).mp hs
      obtain ⟨b', hb', htb⟩ := (Option.any_eq_true _ _).mp ht
      obtain rfl : b = b' := Option.some.inj (hb.symm.trans hb')
      exact bytesToBase64_injective ((beq_iff_eq.mp hsb).trans (beq_iff_eq.mp htb).symm)
  · cases hs

/-- A root text the proof of a tree signs is that of the tree, or the two collide. -/
lemma parsed_of_signsText (h1 : 1 ≤ digests.length) (hn : digests.length < 2 ^ 53) (hroot : root.length = 32)
    (hbound : signsText H proof (boundText digests root) = true) (hsigned : signsText H proof rootText = true)
    (hparse : parseDigestTreeRootText rootText = some parsed) :
    parsed = ⟨digests.length, bytesToHex root⟩
      ∨ utf8Encode rootText ≠ utf8Encode (boundText digests root)
        ∧ H (utf8Encode rootText) = H (utf8Encode (boundText digests root)) := by
  by_cases heq : utf8Encode rootText = utf8Encode (boundText digests root)
  · left
    obtain ⟨digits, hd, hh, htext⟩ := parseDigestTreeRootText_spec hparse
    have hascii : isAscii rootText = true := by
      rw [htext]
      exact isAscii_rootText hd hh
    have hascii' : isAscii (boundText digests root) = true := by
      rw [boundText_eq]
      exact isAscii_rootText (fun _ => isDigit_of_mem_decimal) fun _ => isLowerHex_of_mem_bytesToHex
    have hsame := utf8Encode_inj (wellFormed_of_isAscii hascii) (wellFormed_of_isAscii hascii') heq
    rw [hsame, parse_boundText h1 hn hroot] at hparse
    exact (Option.some.inj hparse).symm
  · exact Or.inr ⟨heq, hash_of_signsText hsigned hbound⟩

/-- A walk to the root a signed text names is the walk of a member. -/
lemma blockMember_of_root {n : Number} (h1 : 1 ≤ digests.length) (hn : digests.length < 2 ^ 53)
    (hroot : root.length = 32) (hsound : treeRootFromPath H (merkleLeafHash H d) index
        (Number.ofNat digests.length) siblings = some (bytesToHex root) →
      IsMember H digests index d siblings
        ∨ H.Collides (memberPreimages H d index digests.length siblings) (treePreimages H digests))
    (hbound : signsText H proof (boundText digests root) = true) (hsigned : signsText H proof rootText = true)
    (hparse : parseDigestTreeRootText rootText = some parsed)
    (hfiles : sameInt (Number.ofNat parsed.files) n = true)
    (hwalk : treeRootFromPath H (merkleLeafHash H d) index n siblings = some parsed.root) :
    BlockMember H digests root rootText index d siblings := by
  rcases parsed_of_signsText h1 hn hroot hbound hsigned hparse with rfl | ⟨hne, heq⟩
  · rw [sameInt, beq_iff_eq] at hfiles
    rw [← treeRootFromPath_congr hfiles] at hwalk
    rcases hsound hwalk with hmem | hcoll
    · exact Or.inl hmem
    · exact Or.inr (hcoll.mono (fun x hx => List.mem_cons_of_mem _ hx)
        fun y hy => List.mem_cons_of_mem _ hy)
  · exact Or.inr ⟨_, List.mem_cons_self .., _, List.mem_cons_self .., hne, heq⟩

end Bound

/-! ### Exactness -/

/-- Everything follows from the agreement of the walkers and from what a walk to the root means. -/
lemma WalkExact.of_walk (h1 : 1 ≤ files) (hn : files < 2 ^ 53)
    (hagrees : ∀ (H : HashFn) (leaf : Bytes) (path : List Bytes), leaf.length = 32 →
      (∀ p ∈ path, p.length = 32) →
      treeRootFromPath H leaf index (Number.ofNat files) path.flatten
        = (merkleRootFromPath H leaf index (Number.ofNat files) path).map bytesToHex)
    (hcomplete : ∀ (H : HashFn) (digests : List Bytes) (d siblings root : Bytes), digests.length = files →
      merkleRoot H (memberLeaves H digests) = .ok root → IsMember H digests index d siblings →
      treeRootFromPath H (merkleLeafHash H d) index (Number.ofNat files) siblings
        = some (bytesToHex root))
    (hsound : ∀ (H : HashFn) (digests : List Bytes) (d siblings root : Bytes), digests.length = files →
      merkleRoot H (memberLeaves H digests) = .ok root →
      treeRootFromPath H (merkleLeafHash H d) index (Number.ofNat files) siblings
        = some (bytesToHex root) →
      IsMember H digests index d siblings
        ∨ H.Collides (memberPreimages H d index files siblings) (treePreimages H digests)) :
    WalkExact files index where
  agrees := hagrees
  complete := hcomplete
  sound := hsound
  member := by
    rintro H digests root proof file block rfl hroot hbound rfl h
    obtain ⟨parsed, d, siblings, hparse, hfiles, hsigned, hd, hs, hwalk⟩ := checkTreeMember_eq_true h
    exact ⟨d, siblings, hd, hs, blockMember_of_root h1 hn (length_of_merkleRoot hroot)
      (hsound H digests d siblings root rfl hroot) hbound hsigned hparse hfiles hwalk⟩
  floor := by
    rintro H digests root proof text block floor rfl hroot hbound htext hindex h
    obtain ⟨parsed, siblings, o, hparse, hfiles, hsigned, hwalk, ho, hfloor⟩ :=
      checkTreeFloor_eq_some htext hindex h
    exact ⟨⟨o, ho, hfloor⟩, siblings, blockMember_of_root h1 hn (length_of_merkleRoot hroot)
      (hsound H digests _ siblings root rfl hroot) hbound hsigned hparse hfiles hwalk⟩

/-- An index outside the tree has no root on either side. -/
lemma walkExact_of_outside (h1 : 1 ≤ files) (hn : files < 2 ^ 53) (hi : index? index files = none) :
    WalkExact files index := by
  refine .of_walk h1 hn (fun H leaf path _ _ => ?_) ?_ ?_
  · rw [treeRootFromPath_eq_none hi hn, merkleRootFromPath_eq_none hi hn, Option.map_none]
  · rintro H digests d siblings root rfl - ⟨i, hi', -⟩
    rw [hi] at hi'
    cases hi'
  · intro H digests d siblings root _ _ hwalk
    rw [treeRootFromPath_eq_none hi hn] at hwalk
    cases hwalk

lemma walkExact_of_lt (h1 : 1 ≤ files) (hi : index? index files = some m) (hm : m < 2 ^ 31)
    (hn : files ≤ 2 ^ 32) : WalkExact files index := by
  refine .of_walk h1 (by omega) (fun H leaf path hleaf h32 => agrees_of_lt hi hm hn hleaf h32) ?_ ?_
  · rintro H digests d siblings root rfl hroot hmem
    exact complete_of_lt (by omega) hi hm hroot hmem
  · rintro H digests d siblings root rfl hroot hwalk
    exact sound_of_lt (by omega) hi hm hroot hwalk

/-! ### Above `2 ^ 32` files -/

lemma shr1_lt (x : ℕ) : shr1 x < 2 ^ 31 := by
  rw [shr1]
  omega

lemma shr1_le (x : ℕ) : shr1 x ≤ x / 2 := by
  rw [shr1]
  omega

lemma skipLevels_snd_le (fn sn : ℕ) : (skipLevels fn sn).2 ≤ sn := by
  induction fn, sn using skipLevels.induct with
  | case1 fn sn h ih =>
      have := shr1_le sn
      rw [skipLevels, if_pos h]
      omega
  | case2 fn sn h => rw [skipLevels, if_neg h]

/-- The last index has room for so many siblings. -/
lemma length_of_rootFromPathLoop {k fn sn : ℕ} {r x : Bytes} {path : List Bytes} (hs : sn < 2 ^ k)
    (h : rootFromPathLoop H fn sn r path = some x) : path.length ≤ k := by
  induction path generalizing k fn sn r with
  | nil => exact Nat.zero_le k
  | cons p path ih =>
      rw [rootFromPathLoop] at h
      split at h
      · cases h
      split at h
      · cases h
      next h0 =>
        obtain ⟨k, rfl⟩ : ∃ j, k = j + 1 := by
          refine Nat.exists_eq_succ_of_ne_zero ?_
          rintro rfl
          omega
        rw [pow_succ] at hs
        have hhalf : ∀ {s : ℕ}, s ≤ sn → shr1 s < 2 ^ k := fun {s} hle => by
          have := shr1_le s
          omega
        rw [List.length_cons]
        refine Nat.succ_le_succ ?_
        split at h
        · refine ih (hhalf ?_) h
          split
          · exact skipLevels_snd_le fn sn
          · exact le_rfl
        · exact ih (hhalf le_rfl) h

/-- Above `2 ^ 32` files the walk takes more siblings than the last index has room for. -/
lemma rootFromPathLoop_of_large (hm : m < files) (hn : 2 ^ 32 < files) {r : Bytes} {path : List Bytes}
    (hlen : path.length = levels m files) : rootFromPathLoop H m (files - 1) r path = none := by
  rw [Option.eq_none_iff_forall_ne_some]
  intro x hx
  obtain ⟨hlow, hhigh⟩ := sar1_bounds m
  have hrest : 31 < levels (sar1 m) ((files + 1) / 2) :=
    lt_levels (by omega) (by omega) (by omega) (by omega)
  cases path with
  | nil =>
      rw [levels, if_pos (by omega)] at hlen
      split at hlen
      · simp only [List.length_nil] at hlen
        omega
      · cases hlen
  | cons p path =>
      rw [rootFromPathLoop] at hx
      split at hx
      · cases hx
      rw [if_neg (by omega)] at hx
      rw [levels, if_pos (by omega), List.length_cons] at hlen
      by_cases hlast : m = files - 1 ∧ m % 2 = 0
      · -- the last node rises: two levels of the last index go at once
        obtain ⟨hl, he⟩ := hlast
        rw [if_pos ⟨by omega, tmod_two_eq_zero.mpr he⟩] at hlen
        rw [if_pos (Or.inr hl)] at hx
        simp only [he, if_true] at hx
        rw [skipLevels, if_pos ⟨he, by omega⟩] at hx
        have hle := skipLevels_snd_le (shr1 m) (shr1 (files - 1))
        have hlt := shr1_lt (files - 1)
        have hlt' := shr1_le (skipLevels (shr1 m) (shr1 (files - 1))).2
        have := length_of_rootFromPathLoop (k := 30) (by omega) hx
        omega
      · rw [if_neg fun hc => hlast ⟨by omega, tmod_two_eq_zero.mp hc.2⟩] at hlen
        have hshort : path.length ≤ 31 := by
          split at hx
          · next hc =>
              have hodd : ¬ m % 2 = 0 := fun he => hlast ⟨by omega, he⟩
              simp only [if_neg hodd] at hx
              exact length_of_rootFromPathLoop (shr1_lt _) hx
          · exact length_of_rootFromPathLoop (shr1_lt _) hx
        omega

lemma disagrees_of_large (hi : index? index files = some m) (hn : 2 ^ 32 < files) (hlt : files < 2 ^ 53)
    (H : HashFn) : treeRootFromPath H zeroLeaf index (Number.ofNat files)
        (List.replicate (levels m files) zeroLeaf).flatten
      ≠ (merkleRootFromPath H zeroLeaf index (Number.ofNat files)
        (List.replicate (levels m files) zeroLeaf)).map bytesToHex := by
  obtain ⟨hint, hm⟩ := index?_eq_some.mp hi
  have h32 : ∀ p ∈ List.replicate (levels m files) zeroLeaf, p.length = 32 := fun p hp => by
    rw [List.eq_of_mem_replicate hp]
    rfl
  have hsome : (walkUp H zeroLeaf m files (List.replicate (levels m files) zeroLeaf).flatten).isSome
      = true := (walkUp_isSome h32).mpr (List.length_replicate ..)
  have hnone : merkleRootFromPath H zeroLeaf index (Number.ofNat files)
      (List.replicate (levels m files) zeroLeaf) = none := by
    rw [merkleRootFromPath, hint, toInt?_ofNat hlt]
    dsimp only
    rw [if_neg (by omega), if_neg (by decide), Int.toNat_natCast, Int.toNat_natCast,
      roundNat_of_lt (by omega)]
    exact rootFromPathLoop_of_large hm hn (List.length_replicate ..)
  rw [treeRootFromPath_eq hi hlt, length_flatten_nodes h32, if_pos (Nat.mul_mod_right 32 _), hnone]
  intro hc
  rw [Option.map_none, Option.map_eq_none_iff] at hc
  rw [hc] at hsome
  cases hsome

/-! ### An index from `2 ^ 31` on -/

/-- A hash that gives a node the value of its left child. -/
def leftHash : HashFn where
  digest b := (b.drop 1 ++ zeroLeaf).take 32
  length_digest b := by
    rw [List.length_take, List.length_append, show zeroLeaf.length = 32 from rfl]
    omega

lemma merkleNodeHash_leftHash {l : Bytes} (r : Bytes) (h : l.length = 32) :
    merkleNodeHash leftHash l r = l := by
  change ((nodePreimage l r).drop 1 ++ zeroLeaf).take 32 = l
  rw [nodePreimage, List.drop_succ_cons, List.drop_zero, List.append_assoc, List.take_left' h]

/-- A negative index is the right child on no level. -/
lemma walkUp_left {idx : ℤ} {h r siblings : Bytes} {n : ℕ} (h0 : idx < 0) (h31 : -2 ^ 31 ≤ idx)
    (h32 : h.length = 32) (hw : walkUp leftHash h idx n siblings = some r) : r = h := by
  induction n using Nat.strong_induction_on generalizing idx siblings with
  | _ n ih =>
      rw [walkUp] at hw
      split at hw
      · next h1 =>
          have hneg : sar1 idx < 0 ∧ -2 ^ 31 ≤ sar1 idx := by
            rw [sar1, toInt32]
            omega
          have hodd : idx.tmod 2 ≠ 1 := by
            have := Int.tmod_nonneg (a := -idx) 2 (by omega)
            rw [Int.neg_tmod] at this
            omega
          rw [if_neg (show ¬ (idx = (n : ℤ) - 1 ∧ idx.tmod 2 = 0) by omega)] at hw
          split at hw
          · cases hw
          · simp only [merkleNodeHash_leftHash _ h32] at hw
            exact ih _ (by omega) hneg.1 hneg.2 hw
      · split at hw
        · exact (Option.some.inj hw).symm
        · cases hw

/-- A negative index needs a sibling. -/
lemma walkUp_nil {idx : ℤ} {h : Bytes} {n : ℕ} (h0 : idx < 0) (hn : 1 < n) : walkUp H h idx n [] = none := by
  rw [walkUp, if_pos hn, if_neg (by omega), if_pos (by simp)]

/-- Thirty-two bytes that are not zero. -/
def oneLeaf : Bytes := List.replicate 32 1

/-- The siblings that tell the two walkers apart: the last one is the left child of the root. -/
def topPath (m files : ℕ) : List Bytes :=
  List.replicate (sides (m - 2 ^ 31) (files - 1 - 2 ^ 31)).length zeroLeaf ++ [oneLeaf]

lemma length_of_mem_topPath {p : Bytes} (hp : p ∈ topPath m files) : p.length = 32 := by
  rcases List.mem_append.mp hp with hp | hp
  · rw [List.eq_of_mem_replicate hp]
    rfl
  · rw [List.mem_singleton.mp hp]
    rfl

/-- The path verifier takes the last sibling as the left child. -/
lemma merkleRootFromPath_topPath (hi : index? index files = some m) (hm : 2 ^ 31 ≤ m) (hn : files ≤ 2 ^ 32) :
    merkleRootFromPath leftHash zeroLeaf index (Number.ofNat files) (topPath m files) = some oneLeaf := by
  have hlt := (index?_eq_some.mp hi).2
  have hsides : sides m (files - 1) = sides (m - 2 ^ 31) (files - 1 - 2 ^ 31) ++ [true] :=
    sides_right (e := 31) hm (by omega) (by omega)
  refine (merkleRootFromPath_eq_some hn).mpr ⟨m, hi, rfl, ?_, fun p hp => length_of_mem_topPath hp, ?_⟩
  · rw [hsides, topPath, List.length_append, List.length_append, List.length_replicate]
    rfl
  · rw [hsides, topPath, List.zip_append (List.length_replicate ..).symm, climb_append]
    exact merkleNodeHash_leftHash _ rfl

/-- The walk takes it as a right child, or finds no end. -/
lemma walkUp_topPath (hm : 2 ^ 31 ≤ m) (hlt : m < files) (hn : files ≤ 2 ^ 32) :
    walkUp leftHash zeroLeaf m files (topPath m files).flatten ≠ some oneLeaf := by
  intro hw
  have hneg : sar1 m < 0 ∧ -2 ^ 31 ≤ sar1 m := by
    rw [sar1, toInt32]
    omega
  have hzero : ∀ {s : Bytes}, walkUp leftHash zeroLeaf (sar1 m) ((files + 1) / 2) s ≠ some oneLeaf :=
    fun h => absurd (walkUp_left hneg.1 hneg.2 rfl h) (by decide)
  rw [walkUp, if_pos (by omega)] at hw
  split at hw
  · exact hzero hw
  split at hw
  · cases hw
  dsimp only at hw
  cases hk : (sides (m - 2 ^ 31) (files - 1 - 2 ^ 31)).length with
  | zero =>
      rw [topPath, hk] at hw
      rw [show ((List.replicate 0 zeroLeaf ++ [oneLeaf]).flatten.drop 32) = [] from rfl,
        walkUp_nil hneg.1 (by omega)] at hw
      cases hw
  | succ k =>
      have hhead : (zeroLeaf ++ (List.replicate k zeroLeaf ++ [oneLeaf]).flatten).take 32 = zeroLeaf :=
        List.take_left' rfl
      rw [topPath, hk, List.replicate_succ, List.cons_append, List.flatten_cons, hhead] at hw
      split at hw
      · rw [merkleNodeHash_leftHash _ rfl] at hw
        exact hzero hw
      · rw [merkleNodeHash_leftHash _ rfl] at hw
        exact hzero hw

lemma disagrees_of_high (hi : index? index files = some m) (hm : 2 ^ 31 ≤ m) (hn : files ≤ 2 ^ 32) :
    treeRootFromPath leftHash zeroLeaf index (Number.ofNat files) (topPath m files).flatten
      ≠ (merkleRootFromPath leftHash zeroLeaf index (Number.ofNat files) (topPath m files)).map
        bytesToHex := by
  have hlt := (index?_eq_some.mp hi).2
  rw [merkleRootFromPath_topPath hi hm hn, treeRootFromPath_eq hi (by omega),
    length_flatten_nodes fun p hp => length_of_mem_topPath hp, if_pos (Nat.mul_mod_right 32 _)]
  intro hc
  rw [Option.map_some, Option.map_eq_some_iff] at hc
  obtain ⟨r, hr, hhex⟩ := hc
  rw [bytesToHex_inj hhex] at hr
  exact walkUp_topPath hm hlt hn hr

/-! ### The condition -/

/-- **Membership is exact** at an index exactly where the index is below `2 ^ 31` and the tree has at
most `2 ^ 32` files, or the index is outside the tree. -/
theorem walkExact_iff (files : ℕ) (index : Number) (h1 : 1 ≤ files) (hn : files < 2 ^ 53) :
    WalkExact files index ↔ ∀ i, index? index files = some i → i < 2 ^ 31 ∧ files ≤ 2 ^ 32 := by
  constructor
  · intro h i hi
    by_contra hc
    rw [not_and_or, not_lt, not_le] at hc
    by_cases hlarge : 2 ^ 32 < files
    · refine disagrees_of_large hi hlarge hn sha256 (h.agrees sha256 _ _ rfl fun p hp => ?_)
      rw [List.eq_of_mem_replicate hp]
      rfl
    · exact disagrees_of_high hi (by omega) (by omega)
        (h.agrees leftHash _ _ rfl fun p hp => length_of_mem_topPath hp)
  · intro h
    cases hi : index? index files with
    | none => exact walkExact_of_outside h1 hn hi
    | some i => exact walkExact_of_lt h1 hi (h i hi).1 (h i hi).2

/-- The first of two files. -/
theorem walkExact_iff_first : WalkExact 2 (Number.ofNat 0) :=
  (walkExact_iff 2 (Number.ofNat 0) (by norm_num) (by norm_num)).mpr fun i hi => by
    have := (index?_eq_some.mp hi).2
    omega

/-- The last of `2 ^ 31 + 1` files: one sibling takes it to the root, and the walk finds no end. -/
theorem last_member_refused :
    merkleRootFromPath sha256 zeroLeaf (Number.ofNat (2 ^ 31)) (Number.ofNat (2 ^ 31 + 1)) [oneLeaf]
        = some (merkleNodeHash sha256 oneLeaf zeroLeaf)
      ∧ treeRootFromPath sha256 zeroLeaf (Number.ofNat (2 ^ 31)) (Number.ofNat (2 ^ 31 + 1)) oneLeaf = none
      ∧ ¬ ∀ (files : ℕ) (index : Number), 1 ≤ files → files < 2 ^ 53 → WalkExact files index := by
  have hi : index? (Number.ofNat (2 ^ 31)) (2 ^ 31 + 1) = some (2 ^ 31) :=
    index?_ofNat (by norm_num) (by norm_num)
  have hsides : sides (2 ^ 31) (2 ^ 31) = [true] := by
    rw [sides_right (e := 31) le_rfl le_rfl (by norm_num), Nat.sub_self, sides_zero]
    rfl
  have hpath : merkleRootFromPath sha256 zeroLeaf (Number.ofNat (2 ^ 31)) (Number.ofNat (2 ^ 31 + 1))
      [oneLeaf] = some (merkleNodeHash sha256 oneLeaf zeroLeaf) := by
    refine (merkleRootFromPath_eq_some (by norm_num)).mpr ⟨_, hi, rfl, ?_, by decide, ?_⟩
    · rw [Nat.add_sub_cancel, hsides]
      rfl
    · rw [Nat.add_sub_cancel, hsides]
      rfl
  have hwalk : treeRootFromPath sha256 zeroLeaf (Number.ofNat (2 ^ 31)) (Number.ofNat (2 ^ 31 + 1)) oneLeaf
      = none := by
    rw [treeRootFromPath_eq hi (by norm_num), if_pos (by decide), Option.map_eq_none_iff,
      ← Option.not_isSome_iff_eq_none]
    intro hsome
    have h32 : ∀ p ∈ [oneLeaf], p.length = 32 := by decide
    have hlen := (walkUp_isSome h32).mp hsome
    have hlevels : 30 < levels (sar1 (2 ^ 31)) ((2 ^ 31 + 1 + 1) / 2) :=
      lt_levels (by decide) (by decide) (by decide) (by norm_num)
    rw [levels, if_pos (by norm_num), if_pos (by decide)] at hlen
    simp only [List.length_singleton] at hlen
    exact absurd (hlen.symm.le.trans_lt (show 1 < 30 by norm_num)) (not_lt.mpr hlevels.le)
  refine ⟨hpath, hwalk, fun h => ?_⟩
  have hagree := (h (2 ^ 31 + 1) (Number.ofNat (2 ^ 31)) (by norm_num) (by norm_num)).agrees sha256 zeroLeaf
    [oneLeaf] rfl (by decide)
  rw [hpath, List.flatten_singleton, hwalk] at hagree
  cases hagree

end TreeMember

end BitGraph
