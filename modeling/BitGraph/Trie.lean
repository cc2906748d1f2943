import BitGraph.Lib.Radix
import BitGraph.Rlp

/-!
The transaction trie: `ceiling-trie.ts` and the proof check of `ceiling-evm.ts`.

* **Keys.** `txTrieKey` and its nibbles.
* **Builder.** `buildNode` splits the entries along their keys; `item` is a node as RLP, a child
  below 32 bytes inline; `txTrieProof` gives the root and the nodes on the way.
* **Check.** `mptVerify` walks a proof from a root; `mptNode` is what it does at one node.
* **Reference.** `TrieRoot`: the root of the one radix tree of the map from keys to values.
-/

namespace BitGraph

open Js Layout Radix

namespace Trie

open Rlp (bigEndian)

abbrev Nibble := Fin 16

def highNibble (b : UInt8) : Nibble := ⟨b.toNat / 16, by have := b.toNat_lt; omega⟩

def lowNibble (b : UInt8) : Nibble := ⟨b.toNat % 16, Nat.mod_lt _ (by norm_num)⟩

def nibbles (bytes : Bytes) : List Nibble := bytes.flatMap fun b => [highNibble b, lowNibble b]

/-- Two nibbles a byte. -/
def packNibbles : List Nibble → Bytes
  | a :: b :: rest => UInt8.ofNat (a.val * 16 + b.val) :: packNibbles rest
  | _ => []

def hexPrefix (nib : List Nibble) (leaf : Bool) : Bytes :=
  let odd := nib.length % 2 = 1
  let flag : Nibble := (if leaf then 2 else 0) + (if odd then 1 else 0)
  packNibbles (if odd then flag :: nib else flag :: 0 :: nib)

/-- `rlp(index)`. -/
def txTrieKey (index : ℕ) : Bytes := rlpEncode (.bytes (bigEndian index))

/-! ### Builder -/

/-- Null is `empty`; a branch without a value has none. -/
abbrev Node := Radix.Node Nibble Bytes

structure Entry where
  key : List Nibble
  value : Bytes

/-- How far all keys agree from `pos` on with the rest of the first. -/
def common (entries : List Entry) : List Nibble → ℕ → ℕ
  | [], _ => 0
  | n :: rest, pos =>
      if entries.all fun e => e.key[pos]? = some n then common entries rest (pos + 1) + 1 else 0

/-- The entries that go on with a nibble. -/
def group (entries : List Entry) (depth : ℕ) (n : Nibble) : List Entry :=
  entries.filter fun e => e.key[depth]? = some n

/-- The value of the last entry whose key ends here. -/
def valueAt (entries : List Entry) (depth : ℕ) : Option Bytes :=
  entries.foldl (fun value e => if e.key.length = depth then some e.value else value) none

/-- The trie of entries whose keys agree up to `depth`. -/
def buildNode : ℕ → List Entry → ℕ → Node
  | 0, _, _ => .empty
  | _ + 1, [], _ => .empty
  | _ + 1, [e], depth => .leaf (e.key.drop depth) e.value
  | fuel + 1, first :: second :: entries, depth =>
      let all := first :: second :: entries
      let n := common all (first.key.drop depth) depth
      if 0 < n then .ext (field first.key depth n) (buildNode fuel all (depth + n))
      else
        .branch (fun a => if group all depth a = [] then .empty
          else buildNode fuel (group all depth a) (depth + 1)) (valueAt all depth)

section Encoder

variable (H : HashFn)

/-- A child as its parent holds it: inline when its RLP is under 32 bytes, else its hash. -/
def capped (item : RlpItem) : RlpItem :=
  if (rlpEncode item).length < 32 then item else .bytes (H (rlpEncode item))

def item : Node → RlpItem
  | .empty => .bytes []
  | .leaf path value => .list [.bytes (hexPrefix path true), .bytes value]
  | .ext path child => .list [.bytes (hexPrefix path false), capped H (item child)]
  | .branch children value =>
      .list ((List.finRange 16).map (fun n => capped H (item (children n)))
        ++ [.bytes (value.getD [])])

def rlp (node : Node) : Bytes := rlpEncode (item H node)

/-- The nodes from a node down to the target that are referenced by hash. -/
def proofLoop (target : List Nibble) : Node → ℕ → Except Thrown (List Bytes)
  | .empty, _ => .ok []
  | .leaf _ _, _ => .ok []
  | .ext path child, depth => do
      let proof ← proofLoop target child (depth + path.length)
      .ok (if 32 ≤ (rlp H child).length then rlp H child :: proof else proof)
  | .branch children _, depth =>
      if depth = target.length then .ok []
      else match target[depth]? with
        | none => .error (error (js "target not in trie"))
        | some n =>
            if (children n).isEmpty then .error (error (js "target not in trie"))
            else do
              let proof ← proofLoop target (children n) (depth + 1)
              .ok (if 32 ≤ (rlp H (children n)).length then rlp H (children n) :: proof else proof)

def entriesOf (values : List Bytes) : List Entry :=
  values.mapIdx fun i v => ⟨nibbles (txTrieKey i), v⟩

/-- No key is longer than the fuel. -/
def trieOf (values : List Bytes) : Node :=
  buildNode (((entriesOf values).map fun e => e.key.length).sum + 1) (entriesOf values) 0

/-- The root, and the proof for one transaction. -/
def txTrieProof (values : List Bytes) (index : ℕ) : Except Thrown (Bytes × List Bytes) :=
  if values.length = 0 then
    .error (typeError (js "an empty block has no transaction to prove"))
  else if values.length ≤ index then .error (rangeError (js "transaction index out of range"))
  else do
    let root := trieOf values
    let proof ← proofLoop H (nibbles (txTrieKey index)) root 0
    .ok (H (rlp H root), rlp H root :: proof)

end Encoder

/-! ### Check -/

def mptFail (what : String) : Thrown := typeError (js "mpt: " ++ js what)

/-- Hex-prefix decode: the nibbles, and whether it is a leaf. -/
def readPath (encoded : Bytes) : Except Thrown (List Nibble × Bool) :=
  match nibbles encoded with
  | flag :: second :: rest =>
      if 3 < flag.val then .error (mptFail "bad path flag")
      else
        let isLeaf := decide (2 ≤ flag.val)
        if flag.val % 2 = 1 then .ok (second :: rest, isLeaf)
        else if second ≠ 0 then .error (mptFail "even path must pad with zero")
        else .ok (rest, isLeaf)
  | _ => .error (mptFail "empty path")

/-- What the walk does at a node: it ends, or goes on to a child. -/
inductive Turn where
  | done (value : Option Bytes)
  | on (want : Bytes) (depth : ℕ)

/-- A child by its reference: a hash, or an inline node's own RLP. -/
def wanted : RlpItem → Bytes
  | .bytes b => b
  | .list items => rlpEncode (.list items)

def branchTurn (path : List Nibble) (depth : ℕ) (node : List RlpItem) : Turn :=
  if depth = path.length then
    match (node[16]? : Option RlpItem) with
    | some (.bytes v) => .done (if 0 < v.length then some v else none)
    | _ => .done none
  else match path[depth]?.bind fun n => (node[n.val]? : Option RlpItem) with
    | none => .done none
    | some (.bytes []) => .done none
    | some child => .on (wanted child) (depth + 1)

def pathTurn (path : List Nibble) (depth : ℕ) (head child : RlpItem) : Turn :=
  match head with
  | .list _ => .done none
  | .bytes encoded =>
      match readPath encoded with
      | .error _ => .done none
      | .ok (seg, isLeaf) =>
          if ¬ seg <+: path.drop depth then .done none
          else if isLeaf then
            if depth + seg.length ≠ path.length then .done none
            else match child with
              | .bytes v => .done (some v)
              | .list _ => .done none
          else .on (wanted child) (depth + seg.length)

/-- One node of the walk. -/
def mptNode (path : List Nibble) (depth : ℕ) (nodeRlp : Bytes) : Turn :=
  match rlpDecode nodeRlp with
  | .ok (.list node) =>
      if node.length = 17 then branchTurn path depth node
      else match node with
        | [head, child] => pathTurn path depth head child
        | _ => .done none
  | _ => .done none

/-- The walk; `none` where the fuel does not suffice. -/
def mptLoop (H : HashFn) (path : List Nibble) : ℕ → Bytes → ℕ → List Bytes → Option (Option Bytes)
  | 0, _, _, _ => none
  | fuel + 1, want, depth, proof =>
      if want.length = 32 then
        match proof with
        | [] => some none
        | next :: proof =>
            if H next ≠ want then some none
            else match mptNode path depth next with
              | .done value => some value
              | .on want depth => mptLoop H path fuel want depth proof
      else match mptNode path depth want with
        | .done value => some value
        | .on want depth => mptLoop H path fuel want depth proof

/-- Every turn takes a node of the proof or something out of a node. -/
def mptFuel (root : Bytes) (proof : List Bytes) : ℕ :=
  root.length + (proof.map fun node => node.length + 1).sum + 1

def mptVerify (H : HashFn) (root key : Bytes) (proof : List Bytes) : Option Bytes :=
  (mptLoop H (nibbles key) (mptFuel root proof) root 0 proof).getD none

/-! ### Reference -/

/-- The map from keys to values. -/
def txMap (values : List Bytes) (k : List Nibble) : Option Bytes :=
  ((entriesOf values).find? fun e => e.key = k).map Entry.value

/-- The root of the trie over all pairs of `rlp(index)` and value. -/
def TrieRoot (H : HashFn) (values : List Bytes) (root : Bytes) : Prop :=
  ∃ N, IsTree (txMap values) N ∧ root = H (rlp H N)

/-- An array of byte arrays: fewer than `2^32` elements, each of fewer than `2^53` bytes. -/
structure Sized (values : List Bytes) : Prop where
  count : values.length < 2 ^ 32
  size : ∀ v ∈ values, v.length < 2 ^ 53

end Trie

end BitGraph
