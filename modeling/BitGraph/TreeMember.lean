import BitGraph.Codec
import BitGraph.FuseMerkle
import BitGraph.Js.Object

/-!
`tree-member.ts`: a file of a tree, checked by its own hash.

* **Walk.** `treeRootFromPath` walks a leaf up its siblings, the index halved by `>>`, which reads 32
  bits (`sar1`), the count by division.
* **Text.** `digestTreeRootText` is what a tree binds, `parseDigestTreeRootText` reads it back, `unb64`
  is the base64 reader of the file.
* **Block.** `treeMemberOf` reads the block of a proof's metadata, `checkTreeMember` and
  `checkTreeFloor` check a file and a floor against it.
* **Main results.** `walkUp_eq`: an index below `2 ^ 31` is walked along the sides of the abstract
  tree. `walkUp_isSome` says how long a path any index takes. `unb64_bytesToBase64`: padded base64 reads
  back. `checkTreeMember_eq_true` and `checkTreeFloor_eq_some`: what a positive answer rests on.
-/

namespace BitGraph

open Js HashTree

namespace TreeMember

variable (H : HashFn)

/-! ### The walk -/

/-- `ToInt32`. -/
def toInt32 (x : ℤ) : ℤ := (x + 2 ^ 31) % 2 ^ 32 - 2 ^ 31

/-- `x >> 1`. -/
def sar1 (x : ℤ) : ℤ := toInt32 x / 2

/-- The loop: the running hash, the index and the count of the level, and the siblings left. -/
def walkUp (h : Bytes) (idx : ℤ) (n : ℕ) (siblings : Bytes) : Option Bytes :=
  if 1 < n then
    if idx = n - 1 ∧ idx.tmod 2 = 0 then walkUp h (sar1 idx) ((n + 1) / 2) siblings
    else if siblings.length < 32 then none
    else
      let s := siblings.take 32
      let h := if idx.tmod 2 = 1 then merkleNodeHash H s h else merkleNodeHash H h s
      walkUp h (sar1 idx) ((n + 1) / 2) (siblings.drop 32)
  else if siblings = [] then some h else none
termination_by n

/-- The byte strings the loop hashes. -/
def walkPreimages (h : Bytes) (idx : ℤ) (n : ℕ) (siblings : Bytes) : List Bytes :=
  if 1 < n then
    if idx = n - 1 ∧ idx.tmod 2 = 0 then walkPreimages h (sar1 idx) ((n + 1) / 2) siblings
    else if siblings.length < 32 then []
    else
      let s := siblings.take 32
      let p := if idx.tmod 2 = 1 then nodePreimage s h else nodePreimage h s
      p :: walkPreimages (H p) (sar1 idx) ((n + 1) / 2) (siblings.drop 32)
  else []
termination_by n

/-- A number that `Number.isSafeInteger` accepts. -/
def safe? (x : Number) : Option ℤ := x.toInt?.filter fun i => i.natAbs < 2 ^ 53

/-- Walk a leaf up its siblings: the root in hex. -/
def treeRootFromPath (leaf32 : Bytes) (index files : Number) (siblings : Bytes) : Option Str :=
  match safe? index, safe? files with
  | some i, some n =>
      if i < 0 ∨ n ≤ i ∨ siblings.length % 32 ≠ 0 then none
      else (walkUp H leaf32 i n.toNat siblings).map bytesToHex
  | _, _ => none

/-! ### Text -/

/-- The six bits of a unit of the alphabet. -/
def sextets (s : Str) : Option (List ℕ) := s.mapM b64Val?

/-- Base64 of either alphabet, padded or not. -/
def unb64 (s : Str) : Option Bytes :=
  let t := ((s.map fun c => if c = 45 then 43 else if c = 95 then 47 else c).reverse.dropWhile
    fun c => c == 61).reverse
  (sextets t).bind fun l => if t.length % 4 = 1 then none else some (sextetBytes l)

def ROOT_TEXT : Str := js "Merkle root (RFC 6962, SHA-256; each leaf is a file's SHA-256) of "

/-- The text a digest-leaf tree binds. -/
def digestTreeRootText (files : ℕ) (rootHex : Str) : Str :=
  ROOT_TEXT ++ decimal files ++ js " files:\n" ++ rootHex ++ [10]

structure RootText where
  files : ℕ
  root : Str
  deriving DecidableEq

/-- The count and the root of a text; a numeral from `2 ^ 53` on is no safe integer. -/
def parseDigestTreeRootText (text : Str) : Option RootText := do
  let t ← stripPrefix? ROOT_TEXT text
  let (digits, t) := spanDigits t
  let t ← stripPrefix? (js " files:\n") t
  let root := t.take 64
  let files := readDecimal digits
  if digits = [] ∨ root.length ≠ 64 ∨ root.all isLowerHex = false ∨ t.drop 64 ≠ [10] then none
  else if 1 ≤ files ∧ files < 2 ^ 53 then some ⟨files, root⟩
  else none

/-! ### Blocks -/

def TREE_MEMBER_METADATA_KEY : Str := js "bitgraph-tree-member/1"
def BASE_BLOCK_FORMAT : Str := js "bitgraph-base-block/1"

/-- The block of a member; its floor stays as it was read. -/
structure TreeMemberBlock where
  files : Number
  index : Number
  path : Str
  rootText : Str
  floor : Value

structure TreeFloorBlock where
  chain : Str
  chainId : Number
  number : Number
  hash : Str
  timestamp : Number

/-- A number that is a safe integer. -/
def safeNumber? : Value → Option Number
  | .num n => if (safe? n).isSome then some n else none
  | _ => none

/-- The member block a proof carries. -/
def treeMemberOf (proof : Value) : Option TreeMemberBlock :=
  let m := (proof.get (js "metadata")).get TREE_MEMBER_METADATA_KEY
  if m.get (js "format") ≠ .str TREE_MEMBER_METADATA_KEY then none
  else
    match safeNumber? (m.get (js "files")), safeNumber? (m.get (js "index")), m.get (js "path"),
        m.get (js "rootText") with
    | some files, some index, .str path, .str rootText =>
        if 512 < rootText.length ∨ 4096 < path.length then none
        else some ⟨files, index, path, rootText, m.get (js "floor")⟩
    | _, _, _, _ => none

/-- Whether the digest a proof signs is the hash of a text. -/
def signsText (proof : Value) (text : Str) : Bool :=
  match (proof.get (js "artifact")).get (js "digestB64") with
  | .str bound =>
      (unb64 bound).any fun b => bytesToBase64 (H (utf8Encode text)) == bytesToBase64 b
  | _ => false

/-- The digest of a file, as bytes or in base64. -/
inductive FileDigest where
  | bytes (b : Bytes)
  | base64 (s : Str)

def FileDigest.read : FileDigest → Option Bytes
  | .bytes b => some b
  | .base64 s => unb64 s

/-- `a === b` of two safe integers. -/
def sameInt (a b : Number) : Bool := a.toInt? == b.toInt?

/-- Whether a file is the block's member of the tree the proof signs. -/
def checkTreeMember (proof : Value) (fileDigest : FileDigest) (block : Option TreeMemberBlock) : Bool :=
  match block with
  | none => false
  | some block =>
      match parseDigestTreeRootText block.rootText with
      | none => false
      | some parsed =>
          if !sameInt (Number.ofNat parsed.files) block.files
            || (index? block.index parsed.files).isNone then false
          else if !signsText H proof block.rootText then false
          else
            match fileDigest.read, unb64 block.path with
            | some d, some path =>
                d.length == 32 && treeRootFromPath H (merkleLeafHash H d) block.index block.files path
                  == some parsed.root
            | _, _ => false

/-- `/^0x[0-9a-f]{64}$/i`. -/
def isBlockHash : Str → Bool
  | 48 :: c :: s => (c == 120 || c == 88) && s.length == 64 && s.all fun c => (hexDigitVal? c).isSome
  | _ => false

/-- The fields of a floor's text. -/
def readFloor (o : Value) : Option TreeFloorBlock :=
  if o.get (js "format") ≠ .str BASE_BLOCK_FORMAT then none
  else
    match o.get (js "chain"), safeNumber? (o.get (js "chainId")), safeNumber? (o.get (js "number")),
        o.get (js "hash"), safeNumber? (o.get (js "timestamp")) with
    | .str chain, some chainId, some number, .str hash, some timestamp =>
        if isBlockHash hash then some ⟨chain, chainId, number, hash, timestamp⟩ else none
    | _, _, _, _, _ => none

/-- The floor block, when its file is in the tree the proof signs. -/
def checkTreeFloor (proof : Value) (block : Option TreeMemberBlock) : Option TreeFloorBlock := do
  let block ← block
  let f := block.floor
  match f.get (js "file"), f.get (js "path"), safeNumber? (f.get (js "index")) with
  | .str file, .str path, some index =>
      if 2048 < file.length then none
      else do
        let parsed ← parseDigestTreeRootText block.rootText
        if !sameInt (Number.ofNat parsed.files) block.files || !signsText H proof block.rootText then none
        else do
          let path ← unb64 path
          let leaf := merkleLeafHash H (H (utf8Encode file))
          if treeRootFromPath H leaf index block.files path ≠ some parsed.root then none
          else readFloor (← parse file)
  | _, _, _ => none

/-! ### The walk along the sides -/

variable {H} {h : Bytes} {m n : ℕ}

/-- Below `2 ^ 31` the shift halves. -/
lemma sar1_natCast (hm : m < 2 ^ 31) : sar1 m = (m / 2 : ℕ) := by
  rw [sar1, toInt32]
  omega

lemma sar1_bounds (x : ℤ) : -2 ^ 30 ≤ sar1 x ∧ sar1 x < 2 ^ 30 := by
  rw [sar1, toInt32]
  omega

lemma tmod_two_eq_zero : (m : ℤ).tmod 2 = 0 ↔ m % 2 = 0 := by
  rw [Int.tmod_eq_emod_of_nonneg (by omega)]
  omega

lemma tmod_two_eq_one : (m : ℤ).tmod 2 = 1 ↔ m % 2 = 1 := by
  rw [Int.tmod_eq_emod_of_nonneg (by omega)]
  omega

/-- The level above a last node with an even index. -/
lemma half_pred_even (h : m = n - 1) (he : m % 2 = 0) (hn : 1 < n) : (n + 1) / 2 - 1 = m / 2 := by
  omega

lemma half_pred (hn : 1 < n) : (n + 1) / 2 - 1 = (n - 1) / 2 := by
  omega

/-- An index below `2 ^ 31` is walked along its sides. -/
lemma walkUp_eq (hm : m < 2 ^ 31) (hn : m < n) {path : List Bytes}
    (h32 : ∀ p ∈ path, p.length = 32) : walkUp H h m n path.flatten =
      if path.length = (sides m (n - 1)).length then
        some (climb (merkleNodeHash H) h ((sides m (n - 1)).zip path))
      else none := by
  induction n using Nat.strong_induction_on generalizing m h path with
  | _ n ih =>
      rw [walkUp]
      by_cases h1 : 1 < n
      · rw [if_pos h1, sar1_natCast hm]
        by_cases hlast : m = n - 1 ∧ m % 2 = 0
        · -- the last node rises
          obtain ⟨hl, he⟩ := hlast
          rw [if_pos ⟨by omega, tmod_two_eq_zero.mpr he⟩,
            ih _ (by omega) (by omega) (by omega) h32, half_pred_even hl he h1, ← hl,
            sides_last he]
        · rw [if_neg fun hc => hlast ⟨by omega, tmod_two_eq_zero.mp hc.2⟩]
          cases path with
          | nil =>
              have hne : (sides m (n - 1)).length ≠ 0 := by
                simpa using sides_ne_nil (by omega) (by omega)
              rw [if_pos (by simp), if_neg fun h => hne h.symm]
          | cons p path =>
              have hp : p.length = 32 := h32 p (by simp)
              have h32' : ∀ q ∈ path, q.length = 32 := fun q hq => h32 q (List.mem_cons_of_mem p hq)
              have hstep := fun r : Bytes => @ih ((n + 1) / 2) (by omega) r (m / 2) (by omega)
                (by omega) path h32'
              rw [half_pred h1] at hstep
              rw [List.flatten_cons, if_neg (by simp [hp]), List.take_left' hp, List.drop_left' hp,
                hstep]
              by_cases hodd : m % 2 = 1
              · rw [if_pos (tmod_two_eq_one.mpr hodd), sides_odd (by omega) hodd]
                simp [climb, up]
              · rw [if_neg fun hc => hodd (tmod_two_eq_one.mp hc),
                  @sides_even m (n - 1) (by omega) (by omega) (by omega)]
                simp [climb, up]
      · obtain rfl : n = 1 := by omega
        have hnil : path.flatten = [] ↔ path.length = 0 := by
          cases path with
          | nil => simp
          | cons p path =>
              have hp : p.length = 32 := h32 p (by simp)
              simp [List.ne_nil_of_length_pos (show 0 < p.length by omega)]
        rw [if_neg h1, sides_zero, List.length_nil]
        simp [hnil, climb]

/-- Along a path of the right length the walk hashes the pairs of the climb. -/
lemma walkPreimages_eq (hm : m < 2 ^ 31) (hn : m < n) {path : List Bytes}
    (h32 : ∀ p ∈ path, p.length = 32) (hlen : path.length = (sides m (n - 1)).length) :
    walkPreimages H h m n path.flatten
      = (climbPairs (merkleNodeHash H) h ((sides m (n - 1)).zip path)).map
        fun p => nodePreimage p.1 p.2 := by
  induction n using Nat.strong_induction_on generalizing m h path with
  | _ n ih =>
      rw [walkPreimages]
      by_cases h1 : 1 < n
      · rw [if_pos h1, sar1_natCast hm]
        by_cases hlast : m = n - 1 ∧ m % 2 = 0
        · obtain ⟨hl, he⟩ := hlast
          have hsides : sides m (n - 1) = sides (m / 2) ((n + 1) / 2 - 1) := by
            rw [half_pred_even hl he h1, ← hl, sides_last he]
          rw [hsides] at hlen ⊢
          rw [if_pos ⟨by omega, tmod_two_eq_zero.mpr he⟩]
          exact ih _ (by omega) (by omega) (by omega) h32 hlen
        · rw [if_neg fun hc => hlast ⟨by omega, tmod_two_eq_zero.mp hc.2⟩]
          cases path with
          | nil =>
              have hne : (sides m (n - 1)).length ≠ 0 := by
                simpa using sides_ne_nil (by omega) (by omega)
              exact absurd hlen.symm hne
          | cons p path =>
              have hp : p.length = 32 := h32 p (by simp)
              have h32' : ∀ q ∈ path, q.length = 32 := fun q hq => h32 q (List.mem_cons_of_mem p hq)
              have hstep := fun r : Bytes => @ih ((n + 1) / 2) (by omega) r (m / 2) (by omega)
                (by omega) path h32'
              rw [half_pred h1] at hstep
              rw [List.flatten_cons, if_neg (by simp [hp]), List.take_left' hp, List.drop_left' hp]
              by_cases hodd : m % 2 = 1
              · rw [sides_odd (by omega) hodd] at hlen ⊢
                dsimp only
                rw [if_pos (tmod_two_eq_one.mpr hodd), hstep _ (by simpa using hlen)]
                simp [climbPairs, up, merkleNodeHash]
              · rw [@sides_even m (n - 1) (by omega) (by omega) (by omega)] at hlen ⊢
                dsimp only
                rw [if_neg fun hc => hodd (tmod_two_eq_one.mp hc), hstep _ (by simpa using hlen)]
                simp [climbPairs, up, merkleNodeHash]
      · obtain rfl : n = 1 := by omega
        rw [if_neg h1, sides_zero]
        rfl

/-! ### The length of a walk -/

/-- The levels on which the walk reads a sibling. -/
def levels (idx : ℤ) (n : ℕ) : ℕ :=
  if 1 < n then
    if idx = n - 1 ∧ idx.tmod 2 = 0 then levels (sar1 idx) ((n + 1) / 2)
    else levels (sar1 idx) ((n + 1) / 2) + 1
  else 0
termination_by n

/-- A walk ends on a path of one length. -/
lemma walkUp_isSome {idx : ℤ} {path : List Bytes} (h32 : ∀ p ∈ path, p.length = 32) :
    (walkUp H h idx n path.flatten).isSome = true ↔ path.length = levels idx n := by
  induction n using Nat.strong_induction_on generalizing idx h path with
  | _ n ih =>
      rw [walkUp, levels]
      by_cases h1 : 1 < n
      · rw [if_pos h1, if_pos h1]
        by_cases hlast : idx = n - 1 ∧ idx.tmod 2 = 0
        · rw [if_pos hlast, if_pos hlast]
          exact ih _ (by omega) h32
        · rw [if_neg hlast, if_neg hlast]
          cases path with
          | nil => simp
          | cons p path =>
              have hp : p.length = 32 := h32 p (by simp)
              rw [List.flatten_cons, if_neg (by simp [hp]), List.drop_left' hp]
              have hstep := @ih _ (show (n + 1) / 2 < n by omega)
                (if idx.tmod 2 = 1 then merkleNodeHash H ((p ++ path.flatten).take 32) h
                  else merkleNodeHash H h ((p ++ path.flatten).take 32)) (sar1 idx) path
                fun q hq => h32 q (List.mem_cons_of_mem p hq)
              rw [List.length_cons, Nat.add_right_cancel_iff]
              exact hstep
      · rw [if_neg h1, if_neg h1]
        cases path with
        | nil => simp
        | cons p path =>
            have hp : p.length = 32 := h32 p (by simp)
            simp [List.ne_nil_of_length_pos (show 0 < p.length by omega)]

/-- An index that stays below the count reads a sibling on every level. -/
lemma lt_levels {e : ℕ} {idx : ℤ} (h0 : -2 ^ 31 ≤ idx) (h31 : idx < 2 ^ 31) (hi : idx < 2 ^ e)
    (hn : 2 ^ e < n) : e < levels idx n := by
  induction e generalizing idx n with
  | zero =>
      rw [levels, if_pos (by omega), if_neg (by omega)]
      omega
  | succ e ih =>
      have hp : 2 ^ (e + 1) = 2 * 2 ^ e := pow_succ' 2 e
      have hpz : (2 : ℤ) ^ (e + 1) = 2 * 2 ^ e := pow_succ' 2 e
      have hcast : ((2 ^ e : ℕ) : ℤ) = 2 ^ e := by norm_num
      have hpos : 0 < 2 ^ e := by positivity
      have hhalf : sar1 idx = idx / 2 := by
        rw [sar1, toInt32]
        omega
      rw [levels, if_pos (by omega), if_neg (by omega), hhalf]
      have hnext : e < levels (idx / 2) ((n + 1) / 2) :=
        ih (by omega) (by omega) (by omega) (by omega)
      omega

/-! ### Base64 -/

/-- A base64 text is units of the alphabet and the padding. -/
lemma bytesToBase64_eq (b : Bytes) : ∃ (t : Str) (k : ℕ), bytesToBase64 b = t ++ List.replicate k 61
    ∧ (∀ c ∈ t, ∃ n < 64, c = b64Unit n) ∧ t.length % 4 ≠ 1 := by
  induction b using bytesToBase64.induct with
  | case1 => exact ⟨[], 0, rfl, by simp, by simp⟩
  | case2 a =>
      have ha := a.toNat_lt
      refine ⟨[b64Unit (a.toNat / 4), b64Unit (a.toNat % 4 * 16)], 2, rfl, fun c hc => ?_, by simp⟩
      simp only [List.mem_cons, List.not_mem_nil, or_false] at hc
      rcases hc with rfl | rfl
      · exact ⟨_, by omega, rfl⟩
      · exact ⟨_, by omega, rfl⟩
  | case3 a b =>
      have ha := a.toNat_lt
      have hb := b.toNat_lt
      refine ⟨[b64Unit (a.toNat / 4), b64Unit (a.toNat % 4 * 16 + b.toNat / 16),
        b64Unit (b.toNat % 16 * 4)], 1, rfl, fun c hc => ?_, by simp⟩
      simp only [List.mem_cons, List.not_mem_nil, or_false] at hc
      rcases hc with rfl | rfl | rfl
      · exact ⟨_, by omega, rfl⟩
      · exact ⟨_, by omega, rfl⟩
      · exact ⟨_, by omega, rfl⟩
  | case4 a b c bytes ih =>
      have ha := a.toNat_lt
      have hb := b.toNat_lt
      have hc := c.toNat_lt
      obtain ⟨t, k, ht, hunits, hlen⟩ := ih
      refine ⟨b64Unit (a.toNat / 4) :: b64Unit (a.toNat % 4 * 16 + b.toNat / 16)
        :: b64Unit (b.toNat % 16 * 4 + c.toNat / 64) :: b64Unit (c.toNat % 64) :: t, k, ?_,
        fun d hd => ?_, by simp only [List.length_cons]; omega⟩
      · rw [bytesToBase64, ht]
        rfl
      · simp only [List.mem_cons] at hd
        rcases hd with rfl | rfl | rfl | rfl | hd
        · exact ⟨_, by omega, rfl⟩
        · exact ⟨_, by omega, rfl⟩
        · exact ⟨_, by omega, rfl⟩
        · exact ⟨_, by omega, rfl⟩
        · exact hunits d hd

lemma sextets_of_units {t : Str} (h : ∀ c ∈ t, ∃ n < 64, c = b64Unit n) :
    sextets t = some (t.filterMap b64Sextet?) := by
  rw [sextets]
  induction t with
  | nil => rfl
  | cons c t ih =>
      obtain ⟨n, hn, rfl⟩ := h c (by simp)
      rw [List.mapM_cons, b64Val?_b64Unit hn, ih fun d hd => h d (List.mem_cons_of_mem _ hd),
        List.filterMap_cons, b64Sextet?_b64Unit hn]
      rfl

/-- Padded base64 reads back. -/
theorem unb64_bytesToBase64 (b : Bytes) : unb64 (bytesToBase64 b) = some b := by
  obtain ⟨t, k, ht, hunits, hlen⟩ := bytesToBase64_eq b
  have hmap : ((bytesToBase64 b).map fun c => if c = 45 then 43 else if c = 95 then 47 else c)
      = bytesToBase64 b := by
    refine (List.map_congr_left fun c hc => ?_).trans (List.map_id _)
    refine forall_mem_bytesToBase64 (P := fun c => (if c = 45 then 43 else if c = 95 then 47 else c) = id c)
      (fun n hn => ?_) rfl b c hc
    interval_cases n <;> rfl
  have hstrip : ((bytesToBase64 b).reverse.dropWhile fun c => c == 61).reverse = t := by
    rw [ht, List.reverse_append, List.reverse_replicate, List.dropWhile_append_of_pos (by simp)]
    cases hr : t.reverse with
    | nil =>
        rw [List.reverse_eq_nil_iff] at hr
        rw [hr]
        rfl
    | cons c r =>
        obtain ⟨n, hn, hc⟩ := hunits c (by rw [← List.mem_reverse, hr]; simp)
        rw [List.dropWhile_cons, if_neg (by rw [hc]; simpa using b64Unit_ne_pad hn), ← hr,
          List.reverse_reverse]
  have hbuffer : sextetBytes (t.filterMap b64Sextet?) = b := by
    have hpad : (List.replicate k (61 : UInt16)).filterMap b64Sextet? = [] := by
      rw [List.filterMap_eq_nil_iff]
      intro c hc
      rw [List.eq_of_mem_replicate hc]
      exact b64Sextet?_pad
    have hread := bufferFromBase64_bytesToBase64 b
    rwa [bufferFromBase64, ht, List.filterMap_append, hpad, List.append_nil] at hread
  rw [unb64, hmap, hstrip, sextets_of_units hunits, Option.bind_some, if_neg hlen, hbuffer]

/-! ### The checks -/

section Checks

variable {proof : Value} {index : Number}

/-- What a positive answer about a member rests on. -/
lemma checkTreeMember_eq_true {file : FileDigest} {block : TreeMemberBlock}
    (h : checkTreeMember H proof file (some block) = true) :
    ∃ parsed d siblings, parseDigestTreeRootText block.rootText = some parsed
      ∧ sameInt (Number.ofNat parsed.files) block.files = true
      ∧ signsText H proof block.rootText = true ∧ file.read = some d ∧ unb64 block.path = some siblings
      ∧ treeRootFromPath H (merkleLeafHash H d) block.index block.files siblings = some parsed.root := by
  rw [checkTreeMember] at h
  split at h
  · cases h
  next parsed hparsed =>
    split at h
    · cases h
    next hfiles =>
      split at h
      · cases h
      next hsigned =>
        split at h
        · next d siblings hd hs =>
            rw [Bool.and_eq_true, beq_iff_eq, beq_iff_eq] at h
            refine ⟨parsed, d, siblings, hparsed, ?_, by simpa using hsigned, hd, hs, h.2⟩
            rw [Bool.or_eq_true, not_or] at hfiles
            simpa using hfiles.1
        · cases h

/-- What a floor rests on. -/
lemma checkTreeFloor_eq_some {text : Str} {block : TreeMemberBlock} {floor : TreeFloorBlock}
    (htext : block.floor.get (js "file") = .str text) (hindex : block.floor.get (js "index") = .num index)
    (h : checkTreeFloor H proof (some block) = some floor) :
    ∃ parsed siblings o, parseDigestTreeRootText block.rootText = some parsed
      ∧ sameInt (Number.ofNat parsed.files) block.files = true
      ∧ signsText H proof block.rootText = true
      ∧ treeRootFromPath H (merkleLeafHash H (H (utf8Encode text))) index block.files siblings
        = some parsed.root
      ∧ parse text = some o ∧ readFloor o = some floor := by
  rw [checkTreeFloor, Option.bind_eq_bind, Option.bind_some] at h
  dsimp only at h
  split at h
  swap
  · cases h
  next file path index' hfile hpath hindex' =>
    obtain rfl : file = text := Value.str.inj (hfile.symm.trans htext)
    obtain rfl : index' = index := by
      rw [hindex, safeNumber?] at hindex'
      split at hindex'
      · exact (Option.some.inj hindex').symm
      · cases hindex'
    split at h
    · cases h
    obtain ⟨parsed, hparsed, h⟩ := Option.bind_eq_some_iff.mp h
    split at h
    · cases h
    next hsigned =>
      obtain ⟨siblings, -, h⟩ := Option.bind_eq_some_iff.mp h
      split at h
      · cases h
      next hwalk =>
        obtain ⟨o, ho, h⟩ := Option.bind_eq_some_iff.mp h
        rw [Bool.or_eq_true, not_or] at hsigned
        exact ⟨parsed, siblings, o, hparsed, by simpa using hsigned.1, by simpa using hsigned.2,
          not_not.mp hwalk, ho, h⟩

end Checks

end TreeMember

end BitGraph
