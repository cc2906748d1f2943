import BitGraph.Trie.Verify

/-!
The state of a block, and the two tries that commit to it.

* **State.** `Account` and `State`: accounts by address, words by slot; `stateRoot` is the root of their
  tries, whose keys are hashes.
* **Walks.** `walked_of_mptVerify`: the nodes that a proof is read by are those of every proof for the key.
* `account_of_mptVerify` and `word_of_mptVerify`: whatever a proof gives is the account of the address and
  the word of the slot, or two of the byte strings at hand collide.
-/

namespace BitGraph

open Js Layout Radix

namespace Trie

open Rlp (bigEndian)

variable {H : HashFn} {path : List Nibble}

/-! ### State -/

/-- A number of a slot as it is hashed. -/
def word (n : ℕ) : Bytes := Sha256.beBytes 32 n

/-- An account. A slot that is not listed holds zero. -/
structure Account where
  nonce : ℕ
  balance : ℕ
  storage : List (ℕ × ℕ)
  codeHash : Bytes
  nonce_lt : nonce < 2 ^ 256
  balance_lt : balance < 2 ^ 256
  codeHash_length : codeHash.length = 32
  slots : (storage.map Prod.fst).Nodup
  words : ∀ e ∈ storage, e.1 < 2 ^ 256 ∧ 0 < e.2 ∧ e.2 < 2 ^ 256

/-- The word in a slot. -/
def Account.at (a : Account) (slot : ℕ) : ℕ := ((a.storage.find? fun e => e.1 = slot).map Prod.snd).getD 0

/-- Accounts by address. -/
structure State where
  accounts : List (Bytes × Account)
  addresses : (accounts.map Prod.fst).Nodup

section Tries

variable (H)

/-- The entries of a trie whose keys are hashed. -/
def hashed (pairs : List (Bytes × Bytes)) : List Entry := pairs.map fun p => ⟨nibbles (H p.1), p.2⟩

def hashedTrie (pairs : List (Bytes × Bytes)) : Node :=
  buildNode (((hashed H pairs).map fun e => e.key.length).sum + 1) (hashed H pairs) 0

def Account.pairs (a : Account) : List (Bytes × Bytes) :=
  a.storage.map fun e => (word e.1, rlpEncode (.bytes (bigEndian e.2)))

def Account.storageRoot (a : Account) : Bytes := H (rlp H (hashedTrie H a.pairs))

/-- `[nonce, balance, storageRoot, codeHash]`. -/
def Account.fields (a : Account) : List RlpItem :=
  [.bytes (bigEndian a.nonce), .bytes (bigEndian a.balance), .bytes (a.storageRoot H), .bytes a.codeHash]

def State.pairs (s : State) : List (Bytes × Bytes) :=
  s.accounts.map fun e => (e.1, rlpEncode (.list (e.2.fields H)))

def State.stateRoot (s : State) : Bytes := H (rlp H (hashedTrie H (s.pairs H)))

/-- What is hashed for a trie: its nodes and its keys. -/
def hashedOf (pairs : List (Bytes × Bytes)) : List Bytes :=
  rlp H (hashedTrie H pairs) :: encodings H (hashedTrie H pairs) ++ pairs.map Prod.fst

/-- What is hashed for the state. -/
def State.hashedOf (s : State) : List Bytes :=
  Trie.hashedOf H (s.pairs H) ++ s.accounts.flatMap fun e => Trie.hashedOf H e.2.pairs

end Tries

/-! ### Walks -/

/-- The proof gives the value by its first nodes, and a proof that gives anything begins with them, or a
node of the one collides with a node of the other. -/
def Walked (H : HashFn) (root key : Bytes) (proof : List Bytes) (v : Bytes) : Prop :=
  ∃ read, read <+: proof ∧ mptVerify H root key read = some v ∧ ∀ proof' v',
    mptVerify H root key proof' = some v' → (read <+: proof' ∧ v' = v) ∨ H.Collides read proof'

/-- Two walks for one reference read the same nodes. -/
lemma walk_of_mptLoop {fuel : ℕ} : ∀ {want : Bytes} {depth : ℕ} {proof : List Bytes} {v : Bytes},
    mptLoop H path fuel want depth proof = some (some v) →
    ∃ read, read <+: proof ∧ mptLoop H path fuel want depth read = some (some v) ∧
      ∀ fuel' proof' v', mptLoop H path fuel' want depth proof' = some (some v') →
        (read <+: proof' ∧ v' = v) ∨ H.Collides read proof' := by
  induction fuel with
  | zero => exact fun h => nomatch h
  | succ fuel ih =>
      intro want depth proof v h
      -- what is left to be done once the node is at hand
      have hafter : ∀ {node : Bytes} {rest : List Bytes},
          after H path fuel (mptNode path depth node) rest = some (some v) →
          ∃ read, read <+: rest ∧ after H path fuel (mptNode path depth node) read = some (some v) ∧
            ∀ fuel' rest' v', after H path fuel' (mptNode path depth node) rest' = some (some v') →
              (read <+: rest' ∧ v' = v) ∨ H.Collides read rest' := by
        intro node rest hrest
        cases hturn : mptNode path depth node with
        | done value =>
            rw [hturn] at hrest
            refine ⟨[], List.nil_prefix, hrest, fun fuel' rest' v' h' => Or.inl ⟨List.nil_prefix, ?_⟩⟩
            exact Option.some.inj ((Option.some.inj h').symm.trans (Option.some.inj hrest))
        | on want' depth' =>
            rw [hturn] at hrest
            exact ih hrest
      rw [mptLoop_succ] at h
      by_cases h32 : want.length = 32
      · rw [if_pos h32] at h
        cases proof with
        | nil => exact nomatch h
        | cons node rest =>
            dsimp only at h
            split at h
            · exact nomatch h
            next hnode =>
            obtain ⟨read, hpre, hread, hall⟩ := hafter h
            refine ⟨node :: read, List.cons_prefix_cons.mpr ⟨rfl, hpre⟩, ?_, fun fuel' proof' v' h' => ?_⟩
            · rw [mptLoop_succ, if_pos h32]
              dsimp only
              rw [if_neg hnode, hread]
            · cases fuel' with
              | zero => exact nomatch h'
              | succ fuel' =>
                  rw [mptLoop_succ, if_pos h32] at h'
                  cases proof' with
                  | nil => exact nomatch h'
                  | cons node' rest' =>
                      dsimp only at h'
                      split at h'
                      · exact nomatch h'
                      next hnode' =>
                      by_cases heq : node = node'
                      · subst heq
                        rcases hall fuel' rest' v' h' with ⟨hpre', hv⟩ | hcollides
                        · exact Or.inl ⟨List.cons_prefix_cons.mpr ⟨rfl, hpre'⟩, hv⟩
                        · exact Or.inr (hcollides.mono (fun _ hx => List.mem_cons_of_mem _ hx)
                            fun _ hy => List.mem_cons_of_mem _ hy)
                      · exact Or.inr ⟨node, List.mem_cons_self, node', List.mem_cons_self, heq,
                          (not_not.mp hnode).trans (not_not.mp hnode').symm⟩
      · rw [if_neg h32] at h
        obtain ⟨read, hpre, hread, hall⟩ := hafter h
        refine ⟨read, hpre, ?_, fun fuel' proof' v' h' => ?_⟩
        · rw [mptLoop_succ, if_neg h32, hread]
        · cases fuel' with
          | zero => exact nomatch h'
          | succ fuel' =>
              rw [mptLoop_succ, if_neg h32] at h'
              exact hall fuel' proof' v' h'

/-- **The nodes that are read** are the same in every proof that gives a value. -/
theorem walked_of_mptVerify {root key : Bytes} {proof : List Bytes} {v : Bytes}
    (h : mptVerify H root key proof = some v) : Walked H root key proof v := by
  obtain ⟨read, hpre, hread, hall⟩ := walk_of_mptLoop (mptLoop_of_mptVerify h)
  exact ⟨read, hpre, mptVerify_eq hread, fun proof' v' h' => hall _ proof' v' (mptLoop_of_mptVerify h')⟩

/-! ### Values -/

/-- No two of the byte strings collide. -/
def Apart (H : HashFn) (l : List Bytes) : Prop := ∀ x ∈ l, ∀ y ∈ l, H x = H y → x = y

lemma Apart.mono {l l' : List Bytes} (h : Apart H l) (hsub : ∀ x ∈ l', x ∈ l) : Apart H l' :=
  fun x hx y hy heq => h x (hsub x hx) y (hsub y hy) heq

lemma Apart.not_collides {l xs ys : List Bytes} (h : Apart H l) (hx : ∀ x ∈ xs, x ∈ l)
    (hy : ∀ y ∈ ys, y ∈ l) : ¬ H.Collides xs ys :=
  fun ⟨x, hxs, y, hys, hne, heq⟩ => hne (h x (hx x hxs) y (hy y hys) heq)

lemma apart_or_collides (H : HashFn) (l : List Bytes) : Apart H l ∨ H.Collides l l := by
  by_cases h : Apart H l
  · exact Or.inl h
  · rw [Apart] at h
    push Not at h
    obtain ⟨x, hx, y, hy, heq, hne⟩ := h
    exact Or.inr ⟨x, hx, y, hy, hne, heq⟩

lemma nibbles_injective {a b : Bytes} (h : nibbles a = nibbles b) : a = b := by
  have hlen := congrArg List.length h
  rw [length_nibbles, length_nibbles] at hlen
  exact (prefix_of_nibbles (h ▸ List.prefix_refl _)).eq_of_length (by omega)

variable {pairs : List (Bytes × Bytes)}

lemma nodup_hashed (hnodup : (pairs.map Prod.fst).Nodup) (hapart : Apart H (pairs.map Prod.fst)) :
    ((hashed H pairs).map Entry.key).Nodup := by
  have hkeys : (hashed H pairs).map Entry.key = (pairs.map Prod.fst).map fun k => nibbles (H k) := by
    rw [hashed, List.map_map, List.map_map]
    rfl
  rw [hkeys]
  exact hnodup.map_on fun x hx y hy heq => hapart x hx y hy (nibbles_injective heq)

lemma mapOf_hashed {k : List Nibble} {v : Bytes} (h : mapOf (hashed H pairs) k = some v) :
    ∃ p ∈ pairs, nibbles (H p.1) = k ∧ p.2 = v := by
  obtain ⟨e, he, hv⟩ := Option.map_eq_some_iff.mp h
  obtain ⟨p, hp, rfl⟩ := List.mem_map.mp (List.mem_of_find?_eq_some he)
  exact ⟨p, hp, by simpa using List.find?_some he, hv⟩

lemma isTree_hashedTrie (hnodup : (pairs.map Prod.fst).Nodup) (hapart : Apart H (pairs.map Prod.fst)) :
    IsTree (mapOf (hashed H pairs)) (hashedTrie H pairs) := by
  cases pairs with
  | nil => exact .empty fun _ => rfl
  | cons p rest =>
      have hne : hashed H (p :: rest) ≠ [] := List.cons_ne_nil _ _
      refine isTree_buildNode hne (nodup_hashed hnodup hapart) (fun _ _ => List.nil_prefix) rfl fun e he => ?_
      have hle := List.single_le_sum (fun n _ => Nat.zero_le n) e.key.length
        (List.mem_map_of_mem (f := fun e : Entry => e.key.length) he)
      omega

/-- A value that comes out of a trie with hashed keys is that of the key. -/
lemma pair_of_mptVerify (hnodup : (pairs.map Prod.fst).Nodup) (hsize : ∀ p ∈ pairs, p.2.length < 2 ^ 53)
    {key : Bytes} {proof : List Bytes} {v : Bytes}
    (hapart : Apart H (key :: proof ++ hashedOf H pairs))
    (h : mptVerify H (H (rlp H (hashedTrie H pairs))) (H key) proof = some v) : (key, v) ∈ pairs := by
  have hkeys : ∀ x ∈ pairs.map Prod.fst, x ∈ key :: proof ++ hashedOf H pairs := fun x hx =>
    List.mem_append_right _ (List.mem_append_right _ hx)
  have hbounded : Bounded (mapOf (hashed H pairs)) := by
    intro k v hk
    obtain ⟨p, hp, rfl, rfl⟩ := mapOf_hashed hk
    refine ⟨?_, hsize p hp⟩
    rw [length_nibbles, HashFn.length_apply]
    norm_num
  rcases lookup_of_mptVerify (isTree_hashedTrie hnodup (hapart.mono hkeys)) hbounded h with hmap | hcollides
  · obtain ⟨p, hp, hkey, rfl⟩ := mapOf_hashed hmap
    have hp1 : p.1 = key := hapart _ (hkeys _ (List.mem_map_of_mem hp)) _ List.mem_cons_self
      (nibbles_injective hkey)
    rw [← hp1]
    exact hp
  · refine absurd hcollides (hapart.not_collides (fun x hx => ?_) fun y hy => ?_)
    · exact List.mem_append_left _ (List.mem_cons_of_mem _ hx)
    · exact List.mem_append_right _ (List.mem_append_left _ (List.mem_cons_of_mem _ hy))

/-- The one entry of a trie is proved by its one node. -/
lemma mptVerify_single {key v : Bytes} (hkey : key.length < 2 ^ 52) (hv : v.length < 2 ^ 53)
    (rest : List Bytes) :
    mptVerify H (H (rlp H (.leaf (nibbles key) v))) key (rlp H (.leaf (nibbles key) v) :: rest) = some v := by
  have htree : IsTree (mapOf [⟨nibbles key, v⟩]) (.leaf (nibbles key) v) := by
    refine .leaf ?_ fun k hk => ?_
    · exact mapOf_of_mem (by simp) (List.mem_singleton_self (⟨nibbles key, v⟩ : Entry))
    · obtain ⟨e, he, hkey⟩ := mapOf_ne_none_iff.mp hk
      rw [← hkey, List.mem_singleton.mp he]
  have hbounded : Bounded (mapOf [⟨nibbles key, v⟩]) := by
    intro k w hk
    obtain ⟨e, he, rfl⟩ := Option.map_eq_some_iff.mp hk
    have hmem := List.mem_of_find?_eq_some he
    have hk' : e.key = k := by simpa using List.find?_some he
    rw [← hk', List.mem_singleton.mp hmem, length_nibbles]
    exact ⟨by omega, hv⟩
  refine @mptVerify_eq H _ _ _ 2 _ ?_
  rw [mptLoop_succ, if_pos (HashFn.length_apply H _)]
  dsimp only
  rw [if_neg (not_not.mpr rfl), mptNode_leaf htree hbounded (Nat.zero_le _), List.drop_zero, if_pos rfl]
  rfl

/-! ### Accounts and words -/

lemma length_bigEndian_of_lt {n : ℕ} (h : n < 2 ^ 256) : (bigEndian n).length ≤ 32 :=
  Rlp.length_bigEndian_le (h.trans_eq (by norm_num))

lemma Account.length_fields (a : Account) : (rlpEncode (.list (a.fields H))).length < 2 ^ 53 := by
  have hbytes : ∀ b : Bytes, b.length ≤ 32 → (rlpEncode (.bytes b)).length ≤ 41 := fun b hb => by
    have := @length_rlpEncode_bytes b (by omega)
    omega
  have h₁ := hbytes _ (length_bigEndian_of_lt a.nonce_lt)
  have h₂ := hbytes _ (length_bigEndian_of_lt a.balance_lt)
  have h₃ := hbytes (a.storageRoot H) (HashFn.length_apply H _).le
  have h₄ := hbytes _ a.codeHash_length.le
  have hall : (rlpEncodeAll (a.fields H)).length ≤ 164 := by
    simp only [Account.fields, rlpEncodeAll, List.append_nil, List.length_append]
    omega
  have := length_rlpEncode_list (l := a.fields H) (by omega)
  omega

/-- **An account that a proof gives** is the account of the address. -/
theorem account_of_mptVerify {s : State} {address : Bytes} {proof : List Bytes} {v : Bytes}
    (hapart : Apart H (address :: proof ++ s.hashedOf H))
    (h : mptVerify H (s.stateRoot H) (H address) proof = some v) :
    ∃ a, (address, a) ∈ s.accounts ∧ v = rlpEncode (.list (a.fields H)) := by
  have hnodup : ((s.pairs H).map Prod.fst).Nodup := by
    rw [State.pairs, List.map_map]
    exact s.addresses
  have hmem := pair_of_mptVerify hnodup (fun p hp => ?_) (hapart.mono fun x hx => ?_) h
  · obtain ⟨⟨address', a⟩, he, heq⟩ := List.mem_map.mp hmem
    obtain ⟨rfl, rfl⟩ := Prod.mk.inj heq
    exact ⟨a, he, rfl⟩
  · obtain ⟨e, -, rfl⟩ := List.mem_map.mp hp
    exact e.2.length_fields
  · rw [State.hashedOf]
    rw [List.mem_append] at hx ⊢
    rw [List.mem_append]
    exact hx.imp_right Or.inl

lemma word_injective {m n : ℕ} (hm : m < 2 ^ 256) (hn : n < 2 ^ 256) (h : word m = word n) : m = n := by
  have hnat := congrArg Sha256.beNat h
  rw [word, word, Sha256.beNat_beBytes, Sha256.beNat_beBytes, Nat.mod_eq_of_lt, Nat.mod_eq_of_lt] at hnat
  · exact hnat
  · exact hn.trans_eq (by norm_num)
  · exact hm.trans_eq (by norm_num)

lemma Account.at_of_mem {a : Account} {slot w : ℕ} (h : (slot, w) ∈ a.storage) : a.at slot = w := by
  rw [Account.at]
  cases hfind : a.storage.find? fun e => e.1 = slot with
  | none => exact absurd (decide_eq_true rfl) (List.find?_eq_none.mp hfind _ h)
  | some e =>
      have hslot : e.1 = slot := by simpa using List.find?_some hfind
      have heq := List.inj_on_of_nodup_map a.slots (List.mem_of_find?_eq_some hfind) h hslot
      rw [heq]
      rfl

/-- **A word that a proof gives** is the word in the slot, and is not zero. -/
theorem word_of_mptVerify {a : Account} {slot : ℕ} (hslot : slot < 2 ^ 256) {proof : List Bytes} {v : Bytes}
    (hapart : Apart H (word slot :: proof ++ hashedOf H a.pairs))
    (h : mptVerify H (a.storageRoot H) (H (word slot)) proof = some v) :
    v = rlpEncode (.bytes (bigEndian (a.at slot))) ∧ 0 < a.at slot ∧ a.at slot < 2 ^ 256 := by
  have hnodup : (a.pairs.map Prod.fst).Nodup := by
    have hkeys : a.pairs.map Prod.fst = (a.storage.map Prod.fst).map word := by
      rw [Account.pairs, List.map_map, List.map_map]
      rfl
    rw [hkeys]
    refine a.slots.map_on fun m hm n hn heq => ?_
    obtain ⟨e, he, rfl⟩ := List.mem_map.mp hm
    obtain ⟨e', he', rfl⟩ := List.mem_map.mp hn
    exact word_injective (a.words e he).1 (a.words e' he').1 heq
  have hsize : ∀ p ∈ a.pairs, p.2.length < 2 ^ 53 := by
    intro p hp
    obtain ⟨e, he, rfl⟩ := List.mem_map.mp hp
    have hle := length_bigEndian_of_lt (a.words e he).2.2
    have := @length_rlpEncode_bytes (bigEndian e.2) (by omega)
    dsimp only
    omega
  obtain ⟨⟨slot', w⟩, he, heq⟩ := List.mem_map.mp (pair_of_mptVerify hnodup hsize hapart h)
  obtain ⟨hkey, rfl⟩ := Prod.mk.inj heq
  obtain ⟨hslot', hpos, hlt⟩ := a.words _ he
  obtain rfl := word_injective hslot' hslot hkey
  rw [Account.at_of_mem he]
  exact ⟨rfl, hpos, hlt⟩

end Trie

end BitGraph
