import BitGraph.Canonical
import BitGraph.Codec
import BitGraph.Js.Convert
import BitGraph.Js.Object
import BitGraph.Sha256

/-!
`stretch.ts`: an unbroken run of binds.

* **The chain hash.** `computeChainHash` is the hash of a proof without the fields a ledger adds.
* **The check.** `verifyStretch` walks the run and collects what is wrong with it.
* **Unbroken.** `unbroken_of_verifyStretch`: a run it finds nothing wrong with is unbroken, each
  proof a bind on the counts right after the proof before it, whose chain hash it names.
-/

namespace BitGraph

open Js

/-! ### The chain hash -/

/-- The fields a ledger adds to a proof. -/
def ledgerAddedFields : List Str := [js "proofHash", js "ethereum"]

def computeChainHash (H : HashFn) (proof : Value) : Except Thrown Str := do
  let hashable : Value := match proof with
    | .obj l => .obj (l.filter fun m => !ledgerAddedFields.contains m.1)
    | v => v
  return bytesToBase64 (H (← canonicalize hashable))

/-! ### The check -/

/-- `a ?? b`. -/
def orElse (a b : Value) : Value :=
  match a with
  | .undefined | .null => b
  | v => v

/-- The chain of a proof, from its `commit`. -/
def chainOf (commit : Value) : Value := orElse (commit.get (js "chainId")) (.str (js "global"))

/-- The counter of a `commit` as a big integer. -/
def payloadCount (commit : Value) : Option ℤ :=
  bigInt? (orElse (commit.get (js "counter")) (.str []))

/-- `a === b` between the first proof's field and the `i`-th's: the first proof is itself. -/
def sameAsFirst (i : ℕ) (a b : Value) : Bool := i == 0 || Value.strictEq a b

structure StretchResult where
  ok : Bool
  reasons : List Str
  first : Option Value
  last : Option Value

/-- The reason, when the test is not met. -/
def reasonUnless (ok : Bool) (reason : Str) : List Str := if ok then [] else [reason]

/-- The counts, the epoch, the key and the chain of a bind. -/
def ownReasons (at_ : Str) (i : ℕ) (commit firstCommit key firstKey : Value) (n n1 : ℤ) :
    List Str :=
  reasonUnless (n1 == n + 1) (at_ ++ js ": payload count " ++ intText n1 ++ js " is not nonce count " ++ intText n ++ js " plus one") ++
  reasonUnless (sameAsFirst i (commit.get (js "epochId")) (firstCommit.get (js "epochId")))
    (at_ ++ js " is in another epoch") ++
  reasonUnless (sameAsFirst i key firstKey) (at_ ++ js " is signed by another key") ++
  reasonUnless (sameAsFirst i (chainOf commit) (chainOf firstCommit)) (at_ ++ js " is on another chain")

/-- A bind against the proof before it, of chain hash `hash`. -/
def linkReasons (at_ : Str) (i : ℕ) (prevCommit commit : Value) (n : ℤ) (hash : Str) : List Str :=
  (match payloadCount prevCommit with
    | some prevEnd => reasonUnless (n == prevEnd + 1)
        (at_ ++ js ": nonce count " ++ intText n ++ js " does not follow the previous payload count " ++ intText prevEnd ++ js " (counts " ++ intText (prevEnd + 1) ++ js " to " ++ intText (n - 1) ++ js " are unaccounted for)")
    | none => [js "proof " ++ decimal (i - 1) ++ js " has a counter that does not parse"]) ++
  reasonUnless (Value.strictEq (commit.get (js "prevB64")) (.str hash))
    (at_ ++ js " does not link to the proof before it (prevB64)")

/-- What is wrong with the `i`-th proof. -/
def proofReasons (H : HashFn) (first : Value) (i : ℕ) (prev : Option Value) (p : Value) :
    Except Thrown (List Str) := do
  let commit := p.get (js "commit")
  let counter ← commit.prop (js "counter")
  let at_ := js "proof " ++ decimal i ++ js " (counter " ++ (← (orElse counter (.str (js "?"))).string) ++ js ")"
  if commit.get (js "atomic") ≠ .bool true ∨ p.get (js "slotAllocation") = .undefined then
    return [at_ ++ js " is not a bind: its nonce and payload were not one action"]
  match bigInt? ((p.get (js "slotAllocation")).get (js "counter")), payloadCount commit with
  | some n, some n1 =>
    let key ← (p.get (js "signer")).prop (js "publicKeyB64")
    let firstKey ← (first.get (js "signer")).prop (js "publicKeyB64")
    let own := ownReasons at_ i commit (first.get (js "commit")) key firstKey n n1
    match prev with
    | none => return own
    | some prev =>
      return own ++ linkReasons at_ i (prev.get (js "commit")) commit n (← computeChainHash H prev)
  | _, _ => return [at_ ++ js " has a counter that does not parse"]

/-- What is wrong with the proofs from the `i`-th on. -/
def stretchReasons (H : HashFn) (first : Value) :
    ℕ → Option Value → List Value → Except Thrown (List Str)
  | _, _, [] => .ok []
  | i, prev, p :: ps => do
    let here ← proofReasons H first i prev p
    return here ++ (← stretchReasons H first (i + 1) (some p) ps)

def verifyStretch (H : HashFn) (proofs : List Value) : Except Thrown StretchResult :=
  match proofs with
  | first :: p :: ps => do
    let reasons ← stretchReasons H first 0 none (first :: p :: ps)
    let last := (p :: ps).getLast (List.cons_ne_nil p ps)
    return ⟨reasons.isEmpty, reasons, some ((first.get (js "slotAllocation")).get (js "counter")),
      some ((last.get (js "commit")).get (js "counter"))⟩
  | _ => .ok ⟨false, [js "a stretch needs at least two proofs (A and B)"], none, none⟩

/-! ### Unbroken runs -/

/-- A bind of the run that starts with `first`. -/
structure IsBind (first p : Value) : Prop where
  atomic : (p.get (js "commit")).get (js "atomic") = .bool true
  counts : ∃ n : ℤ, bigInt? ((p.get (js "slotAllocation")).get (js "counter")) = some n ∧
    payloadCount (p.get (js "commit")) = some (n + 1)
  epoch : p = first ∨ Value.strictEq ((p.get (js "commit")).get (js "epochId"))
    ((first.get (js "commit")).get (js "epochId")) = true
  key : p = first ∨ Value.strictEq ((p.get (js "signer")).get (js "publicKeyB64"))
    ((first.get (js "signer")).get (js "publicKeyB64")) = true
  chain : p = first ∨ Value.strictEq (chainOf (p.get (js "commit")))
    (chainOf (first.get (js "commit"))) = true

/-- `p` is the bind right after `prev`: on the next count, and under its chain hash. -/
structure Follows (H : HashFn) (prev p : Value) : Prop where
  counts : ∃ n : ℤ, payloadCount (prev.get (js "commit")) = some n ∧
    bigInt? ((p.get (js "slotAllocation")).get (js "counter")) = some (n + 1)
  link : ∃ hash, computeChainHash H prev = .ok hash ∧
    (p.get (js "commit")).get (js "prevB64") = .str hash

/-- A run with nothing missing inside. -/
structure Unbroken (H : HashFn) (proofs : List Value) : Prop where
  binds : ∀ first ∈ proofs.head?, ∀ p ∈ proofs, IsBind first p
  follows : proofs.IsChain (Follows H)

lemma reasonUnless_eq_nil {ok : Bool} {reason : Str} : reasonUnless ok reason = [] ↔ ok = true := by
  cases ok <;> simp [reasonUnless]

lemma get_of_prop {v w : Value} {k : Str} (h : v.prop k = .ok w) : v.get k = w := by
  cases v <;> cases h <;> rfl

lemma strictEq_str {v : Value} {s : Str} : Value.strictEq v (.str s) = true ↔ v = .str s := by
  cases v <;> simp [Value.strictEq]

/-- The field of a bind is the first proof's: the first proof is itself. -/
lemma of_sameAsFirst {first p a b : Value} {i : ℕ} (hfirst : i = 0 → p = first)
    (h : sameAsFirst i a b = true) : p = first ∨ Value.strictEq a b = true := by
  rw [sameAsFirst, Bool.or_eq_true, beq_iff_eq] at h
  exact h.imp_left hfirst

section Facts

variable {H : HashFn} {first p : Value} {i : ℕ}

lemma ownReasons_eq_nil {at_ : Str} {key firstKey : Value} {n n1 : ℤ}
    (hfirst : i = 0 → p = first)
    (hatomic : (p.get (js "commit")).get (js "atomic") = .bool true)
    (hn : bigInt? ((p.get (js "slotAllocation")).get (js "counter")) = some n)
    (hn1 : payloadCount (p.get (js "commit")) = some n1)
    (hkey : (p.get (js "signer")).get (js "publicKeyB64") = key)
    (hfirstKey : (first.get (js "signer")).get (js "publicKeyB64") = firstKey)
    (h : ownReasons at_ i (p.get (js "commit")) (first.get (js "commit")) key firstKey n n1 = []) :
    IsBind first p := by
  simp only [ownReasons, List.append_eq_nil_iff, reasonUnless_eq_nil, beq_iff_eq] at h
  obtain ⟨⟨⟨rfl, hepoch⟩, hsame⟩, hchain⟩ := h
  subst hkey hfirstKey
  exact ⟨hatomic, ⟨n, hn, hn1⟩, of_sameAsFirst hfirst hepoch, of_sameAsFirst hfirst hsame,
    of_sameAsFirst hfirst hchain⟩

lemma linkReasons_eq_nil {at_ : Str} {prev : Value} {n : ℤ} {hash : Str}
    (hn : bigInt? ((p.get (js "slotAllocation")).get (js "counter")) = some n)
    (hhash : computeChainHash H prev = .ok hash)
    (h : linkReasons at_ i (prev.get (js "commit")) (p.get (js "commit")) n hash = []) :
    Follows H prev p := by
  rw [linkReasons, List.append_eq_nil_iff, reasonUnless_eq_nil, strictEq_str] at h
  obtain ⟨hfollows, hlink⟩ := h
  split at hfollows
  · next prevEnd hprev =>
    rw [reasonUnless_eq_nil, beq_iff_eq] at hfollows
    subst hfollows
    exact ⟨⟨prevEnd, hprev, hn⟩, ⟨hash, hhash, hlink⟩⟩
  · cases hfollows

/-- A proof with nothing wrong is a bind, right after the proof before it. -/
lemma proofReasons_eq_nil {prev : Option Value} (hfirst : i = 0 → p = first)
    (h : proofReasons H first i prev p = .ok []) : IsBind first p ∧ ∀ q ∈ prev, Follows H q p := by
  rw [proofReasons] at h
  obtain ⟨counter, -, h⟩ := bind_eq_ok h
  obtain ⟨text, -, h⟩ := bind_eq_ok h
  dsimp only at h
  split at h
  · cases h
  next hatomic =>
  rw [not_or, not_not] at hatomic
  split at h
  · next n n1 hn hn1 =>
    obtain ⟨key, hkey, h⟩ := bind_eq_ok h
    obtain ⟨firstKey, hfirstKey, h⟩ := bind_eq_ok h
    cases prev with
    | none =>
        refine ⟨ownReasons_eq_nil hfirst hatomic.1 hn hn1 (get_of_prop hkey)
          (get_of_prop hfirstKey) (Except.ok.inj h), fun q hq => by cases hq⟩
    | some prev =>
        obtain ⟨hash, hhash, h⟩ := bind_eq_ok h
        obtain ⟨hown, hlink⟩ := List.append_eq_nil_iff.mp (Except.ok.inj h)
        refine ⟨ownReasons_eq_nil hfirst hatomic.1 hn hn1 (get_of_prop hkey)
          (get_of_prop hfirstKey) hown, fun q hq => ?_⟩
        cases hq
        exact linkReasons_eq_nil hn hhash hlink
  · cases h

/-- The proofs after `prev`: binds that follow one another. -/
lemma stretchReasons_eq_nil (ps : List Value) {i : ℕ} {prev : Option Value}
    (hfirst : i = 0 → ps.head? = some first) (h : stretchReasons H first i prev ps = .ok []) :
    (∀ p ∈ ps, IsBind first p) ∧ (prev.toList ++ ps).IsChain (Follows H) := by
  induction ps generalizing i prev with
  | nil =>
      refine ⟨List.forall_mem_nil _, ?_⟩
      cases prev <;> simp
  | cons p ps ih =>
      rw [stretchReasons] at h
      obtain ⟨here, hhere, h⟩ := bind_eq_ok h
      obtain ⟨rest, hrest, h⟩ := bind_eq_ok h
      have hnil := List.append_eq_nil_iff.mp (Except.ok.inj h)
      obtain ⟨rfl, rfl⟩ := hnil
      obtain ⟨hbind, hfollows⟩ := proofReasons_eq_nil
        (fun hi => Option.some.inj (hfirst hi)) hhere
      obtain ⟨hbinds, hchain⟩ := ih (fun hi => absurd hi (Nat.succ_ne_zero i)) hrest
      refine ⟨List.forall_mem_cons.mpr ⟨hbind, hbinds⟩, ?_⟩
      cases prev with
      | none => exact hchain
      | some q => exact List.IsChain.cons_cons (hfollows q rfl) hchain

/-- A run that nothing is wrong with is unbroken. -/
theorem unbroken_of_verifyStretch {proofs : List Value} {result : StretchResult}
    (h : verifyStretch H proofs = .ok result) (hreasons : result.reasons = []) :
    Unbroken H proofs := by
  rw [verifyStretch.eq_def] at h
  dsimp only at h
  split at h
  · next first p ps =>
    obtain ⟨reasons, hall, h⟩ := bind_eq_ok h
    obtain rfl := Except.ok.inj h
    obtain rfl : reasons = [] := hreasons
    obtain ⟨hbinds, hchain⟩ := stretchReasons_eq_nil _ (fun _ => rfl) hall
    refine ⟨fun f hf => ?_, hchain⟩
    cases hf
    exact hbinds
  · obtain rfl := Except.ok.inj h
    cases hreasons

end Facts

end BitGraph
