import BitGraph.Tree

/-!
`digest-filter.ts`: the filter of the digests that the ledger indexes.

* **The filter.** `DigestFilter.add` sets the bits of a digest, `DigestFilter.has` asks for them.
* **Its bytes.** `DigestFilter.serialize` and `DigestFilter.parse`.
* **Growing.** `DigestFilter.has_add`, and `DigestFilter.Le`, the order in which a filter grows.
* **The format.** `parse_serialize`: what was written is read back.
* **Main result.** `has_run`: what a filter admits after any adding, writing and reading back.

`bloomParamsFor` sizes a filter with floating point and is left out; a filter's `m` and `k` are any.
-/

namespace BitGraph

open Js

/-! ### Digests -/

/-- Padded with `=` to a multiple of four. -/
def padQuad (d : Str) : Str := d ++ List.replicate ((4 - d.length % 4) % 4) 61

/-- `canon`: the one spelling the filter speaks. -/
def canon (digest : Str) : Str :=
  let swapped := digest.map fun c => if c = 45 then 43 else if c = 95 then 47 else c
  padQuad (swapped.reverse.dropWhile (· = 61)).reverse

/-- `fnv1a`, with 32-bit products. -/
def fnv1a (bytes : Bytes) (seed : ℕ) : ℕ :=
  bytes.foldl (fun h b => (h ^^^ b.toNat) * 16777619 % 2 ^ 32) (2166136261 ^^^ seed)

/-! ### The filter -/

structure DigestFilter where
  m : ℕ
  k : ℕ
  bits : Bytes
  added : ℕ
  deriving DecidableEq

namespace DigestFilter

/-- `new DigestFilter(params)`. -/
def empty (m k : ℕ) : DigestFilter := ⟨m, k, List.replicate ((m + 7) / 8) 0, 0⟩

/-- The bits of a key; over no bits they are `NaN`, which reads as bit 0 of byte 0. -/
def positions (f : DigestFilter) (key : Str) : List ℕ :=
  let bytes := utf8Encode key
  let a := fnv1a bytes 0
  let b := fnv1a bytes 0x9e3779b9 ||| 1
  (List.range f.k).map fun i => if f.m = 0 then 0 else (a + i * b) % 2 ^ 32 % f.m

/-- `bits[p >>> 3] & (1 << (p & 7))`. -/
def bit (bits : Bytes) (p : ℕ) : Bool := (bits.getD (p / 8) 0).toNat.testBit (p % 8)

/-- `bits[p >>> 3] |= 1 << (p & 7)`; outside the array nothing is written. -/
def setBit (bits : Bytes) (p : ℕ) : Bytes :=
  bits.set (p / 8) (UInt8.ofNat ((bits.getD (p / 8) 0).toNat ||| 2 ^ (p % 8)))

def add (f : DigestFilter) (key : Str) : DigestFilter :=
  { f with bits := (f.positions key).foldl setBit f.bits, added := f.added + 1 }

def has (f : DigestFilter) (key : Str) : Bool := (f.positions key).all (bit f.bits)

/-! ### Its bytes -/

def MAGIC : Bytes := utf8Encode (js "BGDIGEST")

def serialize (f : DigestFilter) : Bytes :=
  MAGIC ++ Sha256.beBytes 4 1 ++ Sha256.beBytes 4 f.m ++ Sha256.beBytes 4 f.k
    ++ Sha256.beBytes 4 f.added ++ List.replicate 8 0 ++ f.bits

def parse (bytes : Bytes) : Option DigestFilter :=
  if bytes.length < 32 then none
  else if decodeLossy (slice bytes 0 8) ≠ js "BGDIGEST" then none
  else if getUint32 bytes 8 ≠ 1 then none
  else
    let m := getUint32 bytes 12
    let bits := bytes.drop 32
    if bits.length ≠ (m + 7) / 8 then none
    else some ⟨m, getUint32 bytes 16, bits, getUint32 bytes 20⟩

/-! ### Bits -/

variable {f g : DigestFilter} {key x : Str} {bits : Bytes} {p q : ℕ}

@[simp] lemma length_setBit : (setBit bits p).length = bits.length := by
  rw [setBit, List.length_set]

lemma bit_setBit : bit (setBit bits p) q = (bit bits q || decide (p = q ∧ p / 8 < bits.length)) := by
  rw [bit, bit, setBit, List.getD_eq_getElem?_getD, List.getElem?_set, List.getD_eq_getElem?_getD,
    List.getD_eq_getElem?_getD]
  have hbyte : ∀ b : UInt8, b.toNat ||| 2 ^ (p % 8) < 256 := fun b =>
    Nat.or_lt_two_pow (n := 8) b.toNat_lt (Nat.pow_lt_pow_right (by decide) (Nat.mod_lt _ (by decide)))
  by_cases hpq : p / 8 = q / 8
  · rw [if_pos hpq]
    by_cases hlt : p / 8 < bits.length
    · rw [if_pos hlt, Option.getD_some, UInt8.toNat_ofNat', Nat.mod_eq_of_lt (hbyte _), Nat.testBit_or,
        Nat.testBit_two_pow, hpq]
      congr 1
      refine decide_eq_decide.mpr ⟨fun hmod => ⟨?_, hpq ▸ hlt⟩, fun hsame => by rw [hsame.1]⟩
      rw [← Nat.div_add_mod p 8, hpq, hmod, Nat.div_add_mod]
    · rw [if_neg hlt, ← hpq, List.getElem?_eq_none (not_lt.mp hlt)]
      simp [hlt]
  · rw [if_neg hpq]
    have hne : ¬ (p = q ∧ p / 8 < bits.length) := fun hsame => hpq (by rw [hsame.1])
    simp [hne]

lemma length_foldl_setBit {ps : List ℕ} : (ps.foldl setBit bits).length = bits.length := by
  induction ps generalizing bits with
  | nil => rfl
  | cons p ps ih => rw [List.foldl_cons, ih, length_setBit]

lemma bit_foldl_setBit {ps : List ℕ} : bit (ps.foldl setBit bits) q = true
    ↔ bit bits q = true ∨ q ∈ ps ∧ q / 8 < bits.length := by
  induction ps generalizing bits with
  | nil => simp
  | cons p ps ih =>
      rw [List.foldl_cons, ih, bit_setBit, length_setBit, List.mem_cons, Bool.or_eq_true, decide_eq_true_eq]
      constructor
      · rintro ((h | ⟨rfl, h⟩) | ⟨h, hlt⟩)
        · exact Or.inl h
        · exact Or.inr ⟨Or.inl rfl, h⟩
        · exact Or.inr ⟨Or.inr h, hlt⟩
      · rintro (h | ⟨rfl | h, hlt⟩)
        · exact Or.inl (Or.inl h)
        · exact Or.inl (Or.inr ⟨rfl, hlt⟩)
        · exact Or.inr ⟨h, hlt⟩

/-! ### What a filter admits -/

/-- A filter of some bits, with as many bytes as they need, that fits its header. -/
structure Sound (f : DigestFilter) : Prop where
  pos : 0 < f.m
  length : f.bits.length = (f.m + 7) / 8
  m_lt : f.m < 2 ^ 32
  k_lt : f.k < 2 ^ 32

/-- One filter admits what the other does. -/
def Le (f g : DigestFilter) : Prop := ∀ x, f.has x = true → g.has x = true

lemma Le.refl (f : DigestFilter) : f.Le f := fun _ h => h

lemma Le.trans {e : DigestFilter} (h : e.Le f) (h' : f.Le g) : e.Le g := fun x hx => h' x (h x hx)

lemma positions_lt (hf : f.Sound) (hp : p ∈ f.positions key) : p < f.m := by
  obtain ⟨i, -, rfl⟩ := List.mem_map.mp hp
  rw [if_neg hf.pos.ne']
  exact Nat.mod_lt _ hf.pos

lemma Sound.add (hf : f.Sound) (key : Str) : (f.add key).Sound :=
  ⟨hf.pos, length_foldl_setBit.trans hf.length, hf.m_lt, hf.k_lt⟩

lemma Sound.recount (hf : f.Sound) (n : ℕ) : Sound { f with added := n } :=
  ⟨hf.pos, hf.length, hf.m_lt, hf.k_lt⟩

lemma le_add (f : DigestFilter) (key : Str) : f.Le (f.add key) := by
  intro x hx
  rw [has, List.all_eq_true] at hx ⊢
  exact fun p hp => bit_foldl_setBit.mpr (Or.inl (hx p hp))

/-- What was added is admitted. -/
lemma has_add (hf : f.Sound) (key : Str) : (f.add key).has key = true := by
  rw [has, List.all_eq_true]
  intro p hp
  have hlt := positions_lt hf hp
  refine bit_foldl_setBit.mpr (Or.inr ⟨hp, ?_⟩)
  rw [hf.length]
  omega

/-- What is told of a list of keys. -/
lemma foldl_add (hf : f.Sound) (keys : List Str) : (keys.foldl add f).Sound ∧ f.Le (keys.foldl add f)
    ∧ ∀ x ∈ keys, (keys.foldl add f).has x = true := by
  induction keys generalizing f with
  | nil => exact ⟨hf, .refl f, fun x hx => absurd hx List.not_mem_nil⟩
  | cons key keys ih =>
      obtain ⟨hs, hle, hhas⟩ := ih (hf.add key)
      refine ⟨hs, (f.le_add key).trans hle, fun x hx => ?_⟩
      rcases List.mem_cons.mp hx with rfl | hx
      · exact hle _ (has_add hf _)
      · exact hhas x hx

/-! ### The format -/

lemma length_MAGIC : MAGIC.length = 8 := by decide

/-- The fields of the header, in any bytes behind it. -/
lemma header_fields (m k n : ℕ) (rest : Bytes) (hm : m < 2 ^ 32) (hk : k < 2 ^ 32) (hn : n < 2 ^ 32) :
    let bytes := MAGIC ++ Sha256.beBytes 4 1 ++ Sha256.beBytes 4 m ++ Sha256.beBytes 4 k
      ++ Sha256.beBytes 4 n ++ rest
    slice bytes 0 8 = MAGIC ∧ getUint32 bytes 8 = 1 ∧ getUint32 bytes 12 = m
      ∧ getUint32 bytes 16 = k ∧ getUint32 bytes 20 = n := by
  have hmagic := length_MAGIC
  have hbe := fun n => Sha256.length_beBytes 4 n
  intro bytes
  refine ⟨?_, ?_, ?_, ?_, ?_⟩
  · simp only [bytes, List.append_assoc]
    exact List.take_left' hmagic
  · have h := @getUint32_append MAGIC (Sha256.beBytes 4 m ++ (Sha256.beBytes 4 k
      ++ (Sha256.beBytes 4 n ++ rest))) 1 (by decide)
    rw [hmagic] at h
    simpa only [bytes, List.append_assoc] using h
  · have h := @getUint32_append (MAGIC ++ Sha256.beBytes 4 1) (Sha256.beBytes 4 k
      ++ (Sha256.beBytes 4 n ++ rest)) m hm
    rw [List.length_append, hmagic, hbe] at h
    simpa only [bytes, List.append_assoc] using h
  · have h := @getUint32_append (MAGIC ++ Sha256.beBytes 4 1 ++ Sha256.beBytes 4 m)
      (Sha256.beBytes 4 n ++ rest) k hk
    rw [List.length_append, List.length_append, hmagic, hbe, hbe] at h
    simpa only [bytes, List.append_assoc] using h
  · have h := @getUint32_append (MAGIC ++ Sha256.beBytes 4 1 ++ Sha256.beBytes 4 m
      ++ Sha256.beBytes 4 k) rest n hn
    rw [List.length_append, List.length_append, List.length_append, hmagic, hbe, hbe, hbe] at h
    simpa only [bytes, List.append_assoc] using h

lemma decodeLossy_MAGIC : decodeLossy MAGIC = js "BGDIGEST" := by decide

/-- What was written is read back; the count of what was added is kept in 32 bits. -/
lemma parse_serialize (hf : f.Sound) :
    parse f.serialize = some { f with added := f.added % 2 ^ 32 } := by
  have hwrap : Sha256.beBytes 4 f.added = Sha256.beBytes 4 (f.added % 2 ^ 32) := by
    rw [← Sha256.beBytes_beNat (Sha256.beBytes 4 f.added), Sha256.beNat_beBytes, Sha256.length_beBytes]
    rfl
  have hshape : f.serialize = MAGIC ++ Sha256.beBytes 4 1 ++ Sha256.beBytes 4 f.m ++ Sha256.beBytes 4 f.k
      ++ Sha256.beBytes 4 (f.added % 2 ^ 32) ++ (List.replicate 8 0 ++ f.bits) := by
    rw [serialize, hwrap, List.append_assoc _ (List.replicate 8 0)]
  obtain ⟨h0, h1, h2, h3, h4⟩ := header_fields f.m f.k (f.added % 2 ^ 32) (List.replicate 8 0 ++ f.bits)
    hf.m_lt hf.k_lt (Nat.mod_lt _ (by decide))
  have hlen : f.serialize.length = 32 + f.bits.length := by
    simp only [serialize, List.length_append, length_MAGIC, Sha256.length_beBytes, List.length_replicate]
  have hdrop : f.serialize.drop 32 = f.bits := by
    rw [serialize]
    exact List.drop_left' (by simp [length_MAGIC, Sha256.length_beBytes])
  rw [← hshape] at h0 h1 h2 h3 h4
  rw [parse, if_neg (by omega), h0, decodeLossy_MAGIC, if_neg (not_not.mpr rfl), h1,
    if_neg (not_not.mpr rfl), h2, hdrop]
  dsimp only
  rw [if_neg (not_not.mpr hf.length), h3, h4]

/-! ### Any order of adding and reading back -/

inductive Op where
  | add (key : Str)
  | reload

def Op.run (f : DigestFilter) : Op → Option DigestFilter
  | .add key => some (f.add key)
  | .reload => parse f.serialize

/-- **What a filter admits.** Whatever is added, and however often it is written and read back between,
a filter admits exactly the keys each of whose bits was set before or is one of an added key. -/
theorem has_run (hf : f.Sound) (ops : List Op) : ∃ g, ops.foldlM Op.run f = some g ∧ ∀ x,
    g.has x = true ↔ ∀ p ∈ f.positions x,
      bit f.bits p = true ∨ ∃ key, Op.add key ∈ ops ∧ p ∈ f.positions key := by
  induction ops generalizing f with
  | nil => exact ⟨f, rfl, fun x => by simp [has]⟩
  | cons op ops ih =>
      cases op with
      | add key =>
          obtain ⟨g, hrun, hhas⟩ := ih (hf.add key)
          refine ⟨g, hrun, fun x => (hhas x).trans (forall₂_congr fun p hp => ?_)⟩
          have hset : bit (f.add key).bits p = true ↔ bit f.bits p = true ∨ p ∈ f.positions key := by
            have hlt := positions_lt hf hp
            have hin : p / 8 < f.bits.length := by
              rw [hf.length]
              omega
            rw [add, bit_foldl_setBit, and_iff_left hin]
          simp only [hset, or_assoc, List.mem_cons, Op.add.injEq, or_and_right, exists_or, exists_eq_left]
          rfl
      | reload =>
          obtain ⟨g, hrun, hhas⟩ := ih (hf.recount (f.added % 2 ^ 32))
          refine ⟨g, ?_, fun x => (hhas x).trans (forall₂_congr fun p _ => ?_)⟩
          · rw [List.foldlM_cons, Op.run, parse_serialize hf]
            exact hrun
          · simp [positions]

def sampleOps : List Op := [.add (js "a"), .reload, .add (js "b")]

/-- A filter of a byte that is read back between two keys. -/
theorem has_run_sample : ∃ g, sampleOps.foldlM Op.run (empty 8 1) = some g ∧ ∀ x,
    g.has x = true ↔ ∀ p ∈ (empty 8 1).positions x, bit (empty 8 1).bits p = true
      ∨ ∃ key, Op.add key ∈ sampleOps ∧ p ∈ (empty 8 1).positions key :=
  has_run ⟨by decide, by decide, by decide, by decide⟩ _

end DigestFilter

end BitGraph
