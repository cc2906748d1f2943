import BitGraph.Keccak.Eval
import BitGraph.Trie.Keys

/-!
The proof check against the trie.

* **Nodes.** `rlpDecode_rlp`: a node of the trie is decoded as it was encoded.
* **Turns.** `mptNode_leaf`, `mptNode_ext` and `mptNode_branch`: the walk at a node of the trie.
* **Termination.** `mptLoop_terminates`: every turn uses a node up, or goes inside one.
* `mptVerify_txTrieProof`: the proof that was written is accepted, and gives the value.
* `mptVerify_sound`: whatever is accepted is a value of the trie, or two nodes collide.
-/

namespace BitGraph

open Js Layout Radix

namespace Trie

variable {H : HashFn} {J : List Nibble → Option Bytes} {N : Node} {path : List Nibble}

/-! ### Nodes -/

lemma rlpEncodeAll_append (l₁ l₂ : List RlpItem) :
    rlpEncodeAll (l₁ ++ l₂) = rlpEncodeAll l₁ ++ rlpEncodeAll l₂ := by
  induction l₁ with
  | nil => rfl
  | cons item l₁ ih => rw [List.cons_append, rlpEncodeAll, rlpEncodeAll, ih, List.append_assoc]

lemma length_rlpEncodeAll_le {l : List RlpItem} {c : ℕ} (h : ∀ item ∈ l, (rlpEncode item).length ≤ c) :
    (rlpEncodeAll l).length ≤ c * l.length := by
  induction l with
  | nil => exact Nat.zero_le _
  | cons item l ih =>
      have hitem := h item List.mem_cons_self
      have hl := ih fun i hi => h i (List.mem_cons_of_mem _ hi)
      rw [rlpEncodeAll, List.length_append, List.length_cons, Nat.mul_succ]
      omega

lemma length_rlpEncode_list {l : List RlpItem} (h : (rlpEncodeAll l).length < 256 ^ 8) :
    (rlpEncode (.list l)).length ≤ (rlpEncodeAll l).length + 9 := by
  have hle := @Rlp.length_encodeLength_le (rlpEncodeAll l).length 0xc0 h
  rw [rlpEncode, List.length_append]
  omega

/-- A reference takes 41 bytes at most. -/
lemma length_capped (i : RlpItem) : (rlpEncode (capped H i)).length ≤ 41 := by
  rw [capped]
  split
  · omega
  · have hle := @length_rlpEncode_bytes (H (rlpEncode i)) (by rw [HashFn.length_apply]; norm_num)
    rw [HashFn.length_apply] at hle
    exact hle

/-- Every node of a trie of bounded words has a size that RLP can state. -/
lemma length_rlp (h : IsTree J N) (hb : Bounded J) : (rlp H N).length < 256 ^ 8 := by
  have hbytes : ∀ b : Bytes, b.length < 2 ^ 53 + 1 → (rlpEncode (.bytes b)).length ≤ b.length + 9 :=
    fun b hb => length_rlpEncode_bytes (by omega)
  cases h with
  | empty none => exact (by decide : (rlpEncode (.bytes [])).length < 256 ^ 8)
  | @leaf _ path value here only =>
      obtain ⟨hpath, hvalue⟩ := hb _ _ here
      have hhex := length_hexPrefix path true
      have h₁ := hbytes (hexPrefix path true) (by omega)
      have h₂ := hbytes value (by omega)
      have hbody : (rlpEncodeAll [.bytes (hexPrefix path true), .bytes value]).length ≤ 2 ^ 55 := by
        simp only [rlpEncodeAll, List.append_nil, List.length_append]
        omega
      have hlist := length_rlpEncode_list (l := [.bytes (hexPrefix path true), .bytes value]) (by omega)
      rw [rlp, item]
      omega
  | @ext _ path child many nonempty longest below =>
      have hpath : path.length < 2 ^ 53 := by
        obtain ⟨k, -, -, hk, -⟩ := many
        obtain ⟨v, hv⟩ := Option.ne_none_iff_exists'.mp hk
        exact (longest.1 k hk).length_le.trans_lt (hb k v hv).1
      have hhex := length_hexPrefix path false
      have h₁ := hbytes (hexPrefix path false) (by omega)
      have h₂ := length_capped (H := H) (item H child)
      have hbody : (rlpEncodeAll [.bytes (hexPrefix path false), capped H (item H child)]).length
          ≤ 2 ^ 55 := by
        simp only [rlpEncodeAll, List.append_nil, List.length_append]
        omega
      have hlist := length_rlpEncode_list
        (l := [.bytes (hexPrefix path false), capped H (item H child)]) (by omega)
      rw [rlp, item]
      omega
  | @branch _ children many parted below =>
      have hvalue : ((J []).getD []).length < 2 ^ 53 := by
        cases hJ : J [] with
        | none => exact (by norm_num : 0 < 2 ^ 53)
        | some v => exact (hb [] v hJ).2
      have h₁ := hbytes ((J []).getD []) (by omega)
      have h₂ := length_rlpEncodeAll_le
        (l := (List.finRange 16).map fun n => capped H (item H (children n))) (c := 41) fun i hi => by
          obtain ⟨n, -, rfl⟩ := List.mem_map.mp hi
          exact length_capped _
      rw [List.length_map, List.length_finRange] at h₂
      have hbody : (rlpEncodeAll ((List.finRange 16).map (fun n => capped H (item H (children n)))
          ++ [.bytes ((J []).getD [])])).length ≤ 2 ^ 55 := by
        rw [rlpEncodeAll_append, List.length_append]
        simp only [rlpEncodeAll, List.append_nil]
        omega
      have hlist := length_rlpEncode_list
        (l := (List.finRange 16).map (fun n => capped H (item H (children n)))
          ++ [.bytes ((J []).getD [])]) (by omega)
      rw [rlp, item]
      omega

lemma rlpDecode_rlp (h : IsTree J N) (hb : Bounded J) : rlpDecode (rlp H N) = .ok (item H N) :=
  rlpDecode_rlpEncode (length_rlp h hb)

/-! ### Turns -/

/-- A child's reference as bytes: its RLP when that is under 32 bytes, else the hash of it. -/
def refBytes (H : HashFn) (node : Node) : Bytes :=
  if (rlp H node).length < 32 then rlp H node else H (rlp H node)

lemma item_list (h : N.isEmpty = false) : ∃ items, item H N = .list items := by
  cases N with
  | empty => exact nomatch h
  | leaf path value => exact ⟨_, rfl⟩
  | ext path child => exact ⟨_, rfl⟩
  | branch children value => exact ⟨_, rfl⟩

/-- The reference of a child is found in its parent. -/
lemma wanted_capped (h : N.isEmpty = false) : wanted (capped H (item H N)) = refBytes H N := by
  obtain ⟨items, hitems⟩ := item_list (H := H) h
  rw [capped, refBytes, rlp]
  split
  · rw [hitems, wanted]
  · rfl

lemma capped_ne_nil (h : N.isEmpty = false) : capped H (item H N) ≠ .bytes [] := by
  obtain ⟨items, hitems⟩ := item_list (H := H) h
  rw [capped]
  split
  · rw [hitems]
    exact fun h => nomatch h
  · intro hnil
    have hlen := HashFn.length_apply H (rlpEncode (item H N))
    rw [RlpItem.bytes.inj hnil] at hlen
    exact nomatch hlen

variable {depth : ℕ}

/-- A node of two items. -/
lemma mptNode_pair {nodeRlp : Bytes} {head child : RlpItem}
    (h : rlpDecode nodeRlp = .ok (.list [head, child])) :
    mptNode path depth nodeRlp = pathTurn path depth head child := by
  rw [mptNode, h]
  dsimp only
  rw [if_neg (by simp)]

lemma mptNode_leaf {seg : List Nibble} {value : Bytes} (h : IsTree J (.leaf seg value))
    (hb : Bounded J) (hd : depth ≤ path.length) : mptNode path depth (rlp H (.leaf seg value))
      = .done (if path.drop depth = seg then some value else none) := by
  rw [mptNode_pair (rlpDecode_rlp h hb), pathTurn.eq_def]
  dsimp only
  rw [readPath_hexPrefix]
  dsimp only
  by_cases hpre : seg <+: path.drop depth
  · obtain ⟨t, ht⟩ := hpre
    have hlen := congrArg List.length ht
    rw [List.length_append, List.length_drop] at hlen
    rw [if_neg (not_not.mpr ⟨t, ht⟩), if_pos rfl, ← ht]
    cases t with
    | nil =>
        rw [List.length_nil] at hlen
        rw [if_neg (by omega), List.append_nil, if_pos rfl]
    | cons a t =>
        rw [List.length_cons] at hlen
        rw [if_pos (by omega), if_neg]
        intro heq
        have hlen' := congrArg List.length heq
        rw [List.length_append, List.length_cons] at hlen'
        omega
  · rw [if_pos hpre, if_neg]
    rintro rfl
    exact hpre (List.prefix_refl _)

lemma mptNode_ext {seg : List Nibble} {child : Node} (h : IsTree J (.ext seg child)) (hb : Bounded J)
    (hchild : child.isEmpty = false) : mptNode path depth (rlp H (.ext seg child))
      = if seg <+: path.drop depth then .on (refBytes H child) (depth + seg.length)
        else .done none := by
  rw [mptNode_pair (rlpDecode_rlp h hb), pathTurn.eq_def]
  dsimp only
  rw [readPath_hexPrefix, wanted_capped hchild]
  dsimp only
  by_cases hpre : seg <+: path.drop depth
  · rw [if_neg (not_not.mpr hpre), if_pos hpre]
    rfl
  · rw [if_pos hpre, if_neg hpre]

lemma mptNode_branch {children : Nibble → Node} {value : Option Bytes}
    (h : IsTree J (.branch children value)) (hb : Bounded J) (hd : depth ≤ path.length) :
    mptNode path depth (rlp H (.branch children value))
      = match path.drop depth with
        | [] => .done (value.filter fun v => 0 < v.length)
        | n :: _ => if (children n).isEmpty then .done none
            else .on (refBytes H (children n)) (depth + 1) := by
  have hlen : ((List.finRange 16).map fun n => capped H (item H (children n))).length = 16 := by
    rw [List.length_map, List.length_finRange]
  rw [mptNode, rlpDecode_rlp h hb, item]
  dsimp only
  rw [if_pos (by rw [List.length_append, hlen, List.length_singleton]), branchTurn]
  split
  · next hend =>
      rw [hend, List.drop_length, List.getElem?_append_right hlen.le, hlen]
      cases value with
      | none => rfl
      | some v =>
          dsimp only [Nat.sub_self, List.getElem?_cons_zero, Option.getD_some]
          rw [Option.filter_some]
          simp
  · next hend =>
      have hlt : depth < path.length := by omega
      have hget : ∀ n : Nibble, ((List.finRange 16).map (fun n => capped H (item H (children n)))
          ++ [.bytes (value.getD [])])[n.val]? = some (capped H (item H (children n))) := by
        intro n
        rw [List.getElem?_append_left (by rw [hlen]; exact n.isLt), List.getElem?_map]
        simp
      rw [List.getElem?_eq_getElem hlt, Option.bind_some, hget, List.drop_eq_getElem_cons hlt]
      dsimp only
      cases hempty : (children path[depth]).isEmpty with
      | true =>
          have hc : children path[depth] = .empty := by
            cases hc : children path[depth] with
            | empty => rfl
            | leaf p v => rw [hc] at hempty; exact nomatch hempty
            | ext p c => rw [hc] at hempty; exact nomatch hempty
            | branch c v => rw [hc] at hempty; exact nomatch hempty
          rw [hc, if_pos rfl]
          rfl
      | false =>
          rw [if_neg Bool.false_ne_true]
          have hne := capped_ne_nil (H := H) hempty
          split
          · next heq => exact nomatch heq
          · next heq => exact absurd (Option.some.inj heq) hne
          · next child _ heq =>
              rw [← Option.some.inj heq, wanted_capped hempty]

/-! ### Termination -/

lemma length_le_rlpEncode_bytes (b : Bytes) : b.length ≤ (rlpEncode (.bytes b)).length := by
  rw [rlpEncode]
  split
  · exact le_rfl
  · rw [List.length_append]
    omega

lemma length_wanted (i : RlpItem) : (wanted i).length ≤ (rlpEncode i).length := by
  cases i with
  | bytes b => exact length_le_rlpEncode_bytes b
  | list items => exact le_rfl

lemma length_rlpEncode_le_all {l : List RlpItem} {i : RlpItem} (h : i ∈ l) :
    (rlpEncode i).length ≤ (rlpEncodeAll l).length := by
  induction l with
  | nil => nomatch h
  | cons j l ih =>
      rw [rlpEncodeAll, List.length_append]
      rcases List.mem_cons.mp h with rfl | h
      · omega
      · have := ih h
        omega

/-- What stands in a node is shorter than the node. -/
lemma length_wanted_lt {nodeRlp : Bytes} {node : List RlpItem} {i : RlpItem}
    (h : rlpDecode nodeRlp = .ok (.list node)) (hi : i ∈ node) :
    (wanted i).length < nodeRlp.length := by
  have hitem := length_rlpEncode_le_all hi
  have hwanted := length_wanted i
  have hhead := List.length_pos_of_ne_nil (Rlp.encodeLength_ne_nil (rlpEncodeAll node).length 0xc0)
  rw [← rlpEncode_of_rlpDecode h, rlpEncode, List.length_append]
  omega

/-- A turn that goes on goes inside the node. -/
lemma mptNode_on {nodeRlp want : Bytes} {depth' : ℕ}
    (h : mptNode path depth nodeRlp = .on want depth') : want.length < nodeRlp.length := by
  rw [mptNode] at h
  split at h
  · next node hdecode =>
      split at h
      · rw [branchTurn] at h
        split at h
        · split at h <;> cases h
        · split at h
          · cases h
          · cases h
          · next child _ hget =>
              obtain ⟨rfl, -⟩ := Turn.on.inj h
              obtain ⟨n, -, hchild⟩ := Option.bind_eq_some_iff.mp hget
              exact length_wanted_lt hdecode (List.mem_of_getElem? hchild)
      · split at h
        · next head child =>
            rw [pathTurn.eq_def] at h
            split at h
            · cases h
            · split at h
              · cases h
              · split at h
                · cases h
                · split at h
                  · split at h
                    · cases h
                    · split at h <;> cases h
                  · obtain ⟨rfl, -⟩ := Turn.on.inj h
                    exact length_wanted_lt hdecode (by simp)
        · cases h
  · cases h

/-- What a turn leaves to be done. -/
def after (H : HashFn) (path : List Nibble) (fuel : ℕ) (turn : Turn) (proof : List Bytes) :
    Option (Option Bytes) :=
  match turn with
  | .done value => some value
  | .on want depth => mptLoop H path fuel want depth proof

lemma mptLoop_succ (fuel : ℕ) (want : Bytes) (depth : ℕ) (proof : List Bytes) :
    mptLoop H path (fuel + 1) want depth proof
      = if want.length = 32 then
          match proof with
          | [] => some none
          | next :: proof =>
              if H next ≠ want then some none
              else after H path fuel (mptNode path depth next) proof
        else after H path fuel (mptNode path depth want) proof := by
  rw [mptLoop.eq_def]
  rfl

/-- **The walk ends**: what it looks for shrinks, or a node of the proof is used up. -/
theorem mptLoop_terminates {fuel : ℕ} : ∀ {want : Bytes} {depth : ℕ} {proof : List Bytes},
    want.length + (proof.map fun node => node.length + 1).sum < fuel →
    ∃ r, mptLoop H path fuel want depth proof = some r := by
  induction fuel with
  | zero => exact fun h => absurd h (Nat.not_lt_zero _)
  | succ fuel ih =>
      intro want depth proof hfuel
      have hafter : ∀ (nodeRlp : Bytes) (rest : List Bytes),
          nodeRlp.length + (rest.map fun node => node.length + 1).sum ≤ fuel →
          ∃ r, after H path fuel (mptNode path depth nodeRlp) rest = some r := by
        intro nodeRlp rest hle
        cases hturn : mptNode path depth nodeRlp with
        | done value => exact ⟨value, rfl⟩
        | on want' depth' =>
            have hlt := mptNode_on hturn
            exact ih (by omega)
      rw [mptLoop_succ]
      split
      · cases proof with
        | nil => exact ⟨none, rfl⟩
        | cons next proof =>
            rw [List.map_cons, List.sum_cons] at hfuel
            dsimp only
            split
            · exact ⟨none, rfl⟩
            · exact hafter next proof (by omega)
      · exact hafter want proof (by omega)

/-- More fuel does not change what came out. -/
lemma mptLoop_mono {fuel : ℕ} : ∀ {want : Bytes} {depth : ℕ} {proof : List Bytes} {r : Option Bytes},
    mptLoop H path fuel want depth proof = some r → ∀ {fuel'}, fuel ≤ fuel' →
    mptLoop H path fuel' want depth proof = some r := by
  induction fuel with
  | zero => exact fun h => nomatch h
  | succ fuel ih =>
      intro want depth proof r h fuel' hle
      obtain ⟨k, rfl⟩ : ∃ k, fuel' = k + 1 := ⟨fuel' - 1, by omega⟩
      have hafter : ∀ (turn : Turn) (rest : List Bytes), after H path fuel turn rest = some r →
          after H path k turn rest = some r := by
        intro turn rest hturn
        cases turn with
        | done value => exact hturn
        | on want' depth' => exact ih hturn (by omega)
      rw [mptLoop_succ] at h ⊢
      split at h
      · next h32 =>
          rw [if_pos h32]
          cases proof with
          | nil => exact h
          | cons next proof =>
              dsimp only at h ⊢
              split at h
              · next hne => rwa [if_pos hne]
              · next hne =>
                  rw [if_neg hne]
                  exact hafter _ _ h
      · next h32 =>
          rw [if_neg h32]
          exact hafter _ _ h

/-- The check ends, and says what the walk says at any fuel that lets it end. -/
lemma mptVerify_eq {root key : Bytes} {proof : List Bytes} {fuel : ℕ} {r : Option Bytes}
    (h : mptLoop H (nibbles key) fuel root 0 proof = some r) : mptVerify H root key proof = r := by
  obtain ⟨r', hr'⟩ := @mptLoop_terminates H (nibbles key) (mptFuel root proof) root 0 proof
    (Nat.lt_succ_self _)
  have hmax := mptLoop_mono h (le_max_left fuel (mptFuel root proof))
  rw [mptLoop_mono hr' (le_max_right fuel (mptFuel root proof))] at hmax
  rw [mptVerify, hr', Option.getD_some]
  exact Option.some.inj hmax

/-! ### Acceptance -/

/-- A child is fetched from the proof, or is there already. -/
lemma mptLoop_refBytes (fuel depth : ℕ) (proof : List Bytes) :
    mptLoop H path (fuel + 1) (refBytes H N) depth
        (if 32 ≤ (rlp H N).length then rlp H N :: proof else proof)
      = after H path fuel (mptNode path depth (rlp H N)) proof := by
  rw [mptLoop_succ, refBytes]
  by_cases hlen : (rlp H N).length < 32
  · rw [if_pos hlen, if_neg (by omega), if_neg (by omega)]
  · rw [if_neg hlen, if_pos (HashFn.length_apply H _), if_pos (by omega)]
    dsimp only
    rw [if_neg (not_not.mpr rfl)]

/-- What the tree looks up, the walk finds along the nodes that were written. -/
lemma after_proofLoop (h : IsTree J N) (hb : Bounded J) (hfree : PrefixFree J) :
    ∀ {depth : ℕ} {v : Bytes}, depth ≤ path.length → J (path.drop depth) = some v →
      ∃ proof fuel, proofLoop H path N depth = .ok proof
        ∧ after H path fuel (mptNode path depth (rlp H N)) proof = some (some v) := by
  induction h with
  | empty none => exact fun _ hv => nomatch (none _).symm.trans hv
  | @leaf J seg value here only =>
      intro depth v hd hv
      have hseg := only _ (by rw [hv]; simp)
      rw [hseg, here] at hv
      refine ⟨[], 0, rfl, ?_⟩
      rw [mptNode_leaf (.leaf here only) hb hd, if_pos hseg, ← hv]
      rfl
  | @ext J seg child many nonempty longest below ih =>
      intro depth v hd hv
      have hpre := longest.1 _ (by rw [hv]; simp : J (path.drop depth) ≠ none)
      have hchild : child.isEmpty = false := by
        rw [Bool.eq_false_iff]
        intro hempty
        obtain ⟨k, -, -, hk, -⟩ := many.behind longest.1
        exact hk (below.isEmpty_iff.mp hempty k)
      obtain ⟨t, ht⟩ := hpre
      have hlen := congrArg List.length ht
      rw [List.length_append, List.length_drop] at hlen
      have hrest : path.drop (depth + seg.length) = t := by
        rw [← List.drop_drop, ← ht, List.drop_left]
      have hbelow : behind J seg (path.drop (depth + seg.length)) = some v := by
        rw [hrest, behind, ht, hv]
      obtain ⟨proof, fuel, hproof, hafter⟩ :=
        @ih (hb.behind seg) (hfree.behind seg) (depth + seg.length) v (by omega) hbelow
      refine ⟨_, fuel + 1, by rw [proofLoop, hproof, ok_bind], ?_⟩
      rw [mptNode_ext (.ext many nonempty longest below) hb hchild, if_pos ⟨t, ht⟩, after,
        mptLoop_refBytes, hafter]
  | @branch J children many parted below ih =>
      intro depth v hd hv
      have hnil := hfree.nil_eq_none many
      have hlt : depth < path.length := by
        by_contra hge
        rw [List.drop_eq_nil_of_le (not_lt.mp hge), hnil] at hv
        exact nomatch hv
      rw [List.drop_eq_getElem_cons hlt] at hv
      obtain ⟨proof, fuel, hproof, hafter⟩ := @ih path[depth] (hb.behind [path[depth]])
        (hfree.behind [path[depth]]) (depth + 1) v hlt hv
      have hchild : (children path[depth]).isEmpty = false := by
        rw [Bool.eq_false_iff]
        intro hempty
        exact nomatch ((below path[depth]).isEmpty_iff.mp hempty _).symm.trans hv
      refine ⟨if 32 ≤ (rlp H (children path[depth])).length then
        rlp H (children path[depth]) :: proof else proof, fuel + 1, ?_, ?_⟩
      · rw [proofLoop, if_neg (by omega), List.getElem?_eq_getElem hlt]
        dsimp only
        rw [hchild, if_neg Bool.false_ne_true, hproof, ok_bind]
      · rw [mptNode_branch (.branch many parted below) hb hd, List.drop_eq_getElem_cons hlt]
        dsimp only
        rw [hchild, if_neg Bool.false_ne_true, after, mptLoop_refBytes, hafter]

/-- What the builder returns, and what the check makes of it. -/
lemma txTrieProof_accepted {values : List Bytes} (hs : Sized values) {index : ℕ}
    (hi : index < values.length) : ∃ proof,
      txTrieProof H values index = .ok (H (rlp H (trieOf values)), proof)
      ∧ mptVerify H (H (rlp H (trieOf values))) (txTrieKey index) proof = some values[index] := by
  have hne : values ≠ [] := List.ne_nil_of_length_pos (by omega)
  have htree := isTree_trieOf hs hne
  have hv : txMap values ((nibbles (txTrieKey index)).drop 0) = some values[index] :=
    (txMap_eq_some_iff hs).mpr ⟨index, hi, rfl, rfl⟩
  obtain ⟨proof, fuel, hproof, hafter⟩ := @after_proofLoop H _ _ (nibbles (txTrieKey index)) htree
    (bounded_txMap hs) (prefixFree_txMap hs) 0 _ (Nat.zero_le _) hv
  refine ⟨rlp H (trieOf values) :: proof, ?_, ?_⟩
  · rw [txTrieProof, if_neg (by omega), if_neg (by omega)]
    dsimp only
    rw [hproof, ok_bind]
  · refine @mptVerify_eq H _ _ _ (fuel + 1) _ ?_
    rw [mptLoop_succ, if_pos (HashFn.length_apply H _)]
    dsimp only
    rw [if_neg (not_not.mpr rfl), hafter]

/-- **The proof that was written is accepted**: the builder's root is that of the trie, and the
check gives back the value. -/
theorem mptVerify_txTrieProof {values : List Bytes} (hs : Sized values) {index : ℕ}
    (hi : index < values.length) :
    ∃ root proof, txTrieProof H values index = .ok (root, proof) ∧ TrieRoot H values root
      ∧ mptVerify H root (txTrieKey index) proof = some values[index] := by
  have hne : values ≠ [] := List.ne_nil_of_length_pos (by omega)
  obtain ⟨proof, hproof, hverify⟩ := @txTrieProof_accepted H values hs index hi
  exact ⟨_, proof, hproof, ⟨_, isTree_trieOf hs hne, rfl⟩, hverify⟩

/-- Three transactions. -/
def sampleValues : List Bytes := [[1, 2, 3], [4], List.replicate 40 5]

lemma sized_sampleValues : Sized sampleValues := ⟨by decide, by decide⟩

/-- The second of three transactions. -/
theorem mptVerify_txTrieProof_sample :
    ∃ root proof, txTrieProof keccak256 sampleValues 1 = .ok (root, proof)
      ∧ TrieRoot keccak256 sampleValues root
      ∧ mptVerify keccak256 root (txTrieKey 1) proof = some [4] :=
  mptVerify_txTrieProof sized_sampleValues (by decide : 1 < sampleValues.length)

/-! ### Soundness -/

/-- The nodes of a trie as they are encoded. -/
def encodings (H : HashFn) : Node → List Bytes
  | .empty => [rlp H .empty]
  | .leaf seg value => [rlp H (.leaf seg value)]
  | .ext seg child => rlp H (.ext seg child) :: encodings H child
  | .branch children value =>
      rlp H (.branch children value) :: (List.finRange 16).flatMap fun n => encodings H (children n)

lemma rlp_mem_encodings (H : HashFn) (N : Node) : rlp H N ∈ encodings H N := by
  cases N <;> exact List.mem_cons_self

/-- A child that was fetched is the child, or collides with it. -/
lemma after_of_mptLoop {fuel depth : ℕ} {proof : List Bytes} {v : Bytes}
    (h : mptLoop H path fuel (refBytes H N) depth proof = some (some v)) :
    (∃ fuel' rest, rest ⊆ proof
        ∧ after H path fuel' (mptNode path depth (rlp H N)) rest = some (some v))
      ∨ H.Collides proof [rlp H N] := by
  cases fuel with
  | zero => exact nomatch h
  | succ fuel =>
      rw [mptLoop_succ, refBytes] at h
      by_cases hlen : (rlp H N).length < 32
      · rw [if_pos hlen, if_neg (by omega)] at h
        exact Or.inl ⟨fuel, proof, List.Subset.refl _, h⟩
      · rw [if_neg hlen, if_pos (HashFn.length_apply H _)] at h
        cases proof with
        | nil => exact nomatch h
        | cons next proof =>
            dsimp only at h
            split at h
            · exact nomatch h
            · next heq =>
                by_cases hnext : next = rlp H N
                · exact Or.inl ⟨fuel, proof, List.subset_cons_self _ _, hnext ▸ h⟩
                · exact Or.inr ⟨next, List.mem_cons_self, rlp H N, List.mem_singleton_self _, hnext,
                    not_not.mp heq⟩

/-- What the walk finds below a node, the tree looks up there, or two nodes collide. -/
lemma lookup_of_after (h : IsTree J N) (hb : Bounded J) :
    ∀ {fuel depth : ℕ} {proof : List Bytes} {v : Bytes}, depth ≤ path.length →
      after H path fuel (mptNode path depth (rlp H N)) proof = some (some v) →
      J (path.drop depth) = some v ∨ H.Collides proof (encodings H N) := by
  -- a child that is reached says so itself
  have hstep : ∀ {M child : Node} {K : List Nibble → Option Bytes} {d fuel : ℕ} {proof : List Bytes}
      {v : Bytes}, (∀ {fuel : ℕ} {proof : List Bytes} {v : Bytes},
        after H path fuel (mptNode path d (rlp H child)) proof = some (some v) →
        K (path.drop d) = some v ∨ H.Collides proof (encodings H child)) →
      (∀ e ∈ encodings H child, e ∈ encodings H M) →
      mptLoop H path fuel (refBytes H child) d proof = some (some v) →
      K (path.drop d) = some v ∨ H.Collides proof (encodings H M) := by
    intro M child K d fuel proof v ih hsub hloop
    rcases after_of_mptLoop hloop with ⟨fuel', rest, hrest, hafter⟩ | hcollides
    · rcases ih hafter with hK | hcollides
      · exact Or.inl hK
      · exact Or.inr (hcollides.mono hrest hsub)
    · refine Or.inr (hcollides.mono (fun _ hx => hx) fun e he => ?_)
      rw [List.mem_singleton.mp he]
      exact hsub _ (rlp_mem_encodings H child)
  induction h with
  | empty none =>
      intro fuel depth proof v hd hafter
      cases hafter
  | @leaf J seg value here only =>
      intro fuel depth proof v hd hafter
      rw [mptNode_leaf (.leaf here only) hb hd] at hafter
      split at hafter
      · next hseg =>
          left
          rw [hseg, here]
          exact Option.some.inj hafter
      · cases hafter
  | @ext J seg child many nonempty longest below ih =>
      intro fuel depth proof v hd hafter
      have hchild : child.isEmpty = false := by
        rw [Bool.eq_false_iff]
        intro hempty
        obtain ⟨k, -, -, hk, -⟩ := many.behind longest.1
        exact hk (below.isEmpty_iff.mp hempty k)
      rw [mptNode_ext (.ext many nonempty longest below) hb hchild] at hafter
      split at hafter
      · next hpre =>
          obtain ⟨t, ht⟩ := hpre
          have hlen := congrArg List.length ht
          rw [List.length_append, List.length_drop] at hlen
          have hrest : path.drop (depth + seg.length) = t := by
            rw [← List.drop_drop, ← ht, List.drop_left]
          have hbelow := hstep (M := .ext seg child) (ih (hb.behind seg) (by omega))
            (fun e he => List.mem_cons_of_mem _ he) hafter
          rwa [hrest, behind, ht] at hbelow
      · cases hafter
  | @branch J children many parted below ih =>
      intro fuel depth proof v hd hafter
      rw [mptNode_branch (.branch many parted below) hb hd] at hafter
      by_cases hlt : depth < path.length
      · rw [List.drop_eq_getElem_cons hlt] at hafter ⊢
        dsimp only at hafter
        split at hafter
        · cases hafter
        · refine hstep (M := .branch children (J [])) (ih path[depth] (hb.behind [path[depth]]) hlt)
            (fun e he => List.mem_cons_of_mem _ (List.mem_flatMap.mpr ⟨path[depth], ?_, he⟩)) hafter
          exact List.mem_finRange _
      · rw [List.drop_eq_nil_of_le (not_lt.mp hlt)] at hafter ⊢
        left
        have hfilter := Option.some.inj hafter
        exact Option.eq_some_of_filter_eq_some hfilter

/-- What comes out of the check comes out of the walk. -/
lemma mptLoop_of_mptVerify {root key : Bytes} {proof : List Bytes} {v : Bytes}
    (h : mptVerify H root key proof = some v) :
    mptLoop H (nibbles key) (mptFuel root proof) root 0 proof = some (some v) := by
  obtain ⟨r, hr⟩ := @mptLoop_terminates H (nibbles key) (mptFuel root proof) root 0 proof
    (Nat.lt_succ_self _)
  rw [hr, ← mptVerify_eq hr, h]

/-- Against the root of a trie a value that comes out is the value of the key, or a node of the proof
collides with a node of the trie. -/
lemma lookup_of_mptVerify {J : List Nibble → Option Bytes} {N : Node} (h : IsTree J N) (hb : Bounded J)
    {key : Bytes} {proof : List Bytes} {v : Bytes} (hverify : mptVerify H (H (rlp H N)) key proof = some v) :
    J (nibbles key) = some v ∨ H.Collides proof (encodings H N) := by
  have hloop := mptLoop_of_mptVerify hverify
  rw [mptFuel, mptLoop_succ, if_pos (HashFn.length_apply H _)] at hloop
  cases proof with
  | nil => exact nomatch hloop
  | cons next proof =>
      dsimp only at hloop
      split at hloop
      · exact nomatch hloop
      next heq =>
      by_cases hnext : next = rlp H N
      · rw [hnext] at hloop
        rcases lookup_of_after h hb (Nat.zero_le _) hloop with hmap | hcollides
        · exact Or.inl hmap
        · exact Or.inr (hcollides.mono (List.subset_cons_self _ _) fun _ he => he)
      · exact Or.inr ⟨next, List.mem_cons_self, rlp H N, rlp_mem_encodings H N, hnext, not_not.mp heq⟩

/-- **Soundness and termination**: the walk ends on any root, key and proof; and against the root
of a trie a value that comes out for a key of an index is the value there, or a node of the proof
collides with a node of the trie. -/
theorem mptVerify_sound (H : HashFn) :
    (∀ (root key : Bytes) (proof : List Bytes),
      ∃ r, mptLoop H (nibbles key) (mptFuel root proof) root 0 proof = some r)
    ∧ ∀ {values : List Bytes} {root : Bytes}, Sized values → TrieRoot H values root →
      ∀ (i : ℕ) (proof : List Bytes) (v : Bytes), mptVerify H root (txTrieKey i) proof = some v →
        values[i]? = some v
          ∨ ∃ N, IsTree (txMap values) N ∧ H.Collides proof (encodings H N) := by
  refine ⟨fun root key proof => mptLoop_terminates (Nat.lt_succ_self _), ?_⟩
  rintro values root hs ⟨N, htree, rfl⟩ i proof v hverify
  rcases lookup_of_mptVerify htree (bounded_txMap hs) hverify with hmap | hcollides
  · left
    obtain ⟨j, hj, hkey, rfl⟩ := (txMap_eq_some_iff hs).mp hmap
    have hlen := length_txTrieKey (hj.trans hs.count)
    have hij : i = j := by
      refine txTrieKey_behind (by omega) (prefix_of_nibbles ?_)
      rw [← hkey]
    rw [hij, List.getElem?_eq_getElem hj]
  · exact Or.inr ⟨N, htree, hcollides⟩

/-- The one node of a block with one transaction. -/
def singleNode : Bytes := rlp keccak256 (trieOf [[1, 2, 3]])

/-- The value that comes out of a block with one transaction. -/
theorem mptVerify_sound_single :
    mptVerify keccak256 (keccak256 singleNode) (txTrieKey 0) [singleNode] = some [1, 2, 3]
      ∧ (([[1, 2, 3]] : List Bytes)[0]? = some [1, 2, 3]
        ∨ ∃ N, IsTree (txMap [[1, 2, 3]]) N
          ∧ keccak256.Collides [singleNode] (encodings keccak256 N)) := by
  have hs : Sized [[1, 2, 3]] := ⟨by decide, by decide⟩
  have hroot : TrieRoot keccak256 [[1, 2, 3]] (keccak256 singleNode) :=
    ⟨_, isTree_trieOf hs (by simp), rfl⟩
  have hverify : mptVerify keccak256 (keccak256 singleNode) (txTrieKey 0) [singleNode]
      = some [1, 2, 3] := by
    rw [singleNode, keccak256_eq_eval]
    decide +kernel
  exact ⟨hverify, (mptVerify_sound keccak256).2 hs hroot 0 [singleNode] [1, 2, 3] hverify⟩

end Trie

end BitGraph
