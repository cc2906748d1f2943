import Mathlib.Data.List.DropRight
import Mathlib.Data.List.Perm.Basic
import BitGraph.Js.IntText
import BitGraph.Lib.OrderedMap
import BitGraph.Timeline.Journal

/-!
`set-members.ts`: the list of a set's members, in chunks that are read whole.

* **Writing.** `memberListChunks` sorts the entries of one index write by member and cuts them into
  objects named by their lowest index and length. `nodup_keys`: writes of different slices of one
  set share no key.
* **Reading.** `decodeChunkInto` takes a stored text into a map. `decodeChunkInto_encodeChunk`: a
  written chunk puts its entries in; `decodeChunkInto_frame`: no text changes an entry, and one that
  is refused adds none.
* **Round trip.** `set_member_lists`: the chunks of all slices, in any order, are the map of the
  members. A text is answered exactly if it is `Answerable`; `decodeChunkInto_throws` is one that
  is not.

An index is a natural number, a map is what its keys hold in the order of their first writes.
-/

namespace BitGraph

open Js

namespace SetMembers

/-! ### Data -/

inductive MemberKind where
  | setMember
  | fusedDescendant
  deriving DecidableEq

structure SetMemberRef where
  setDigest : Str
  epochId : Str
  counter : Str
  kind : MemberKind
  index : Number
  count : Number
  writeTime : Option Number
  deriving DecidableEq

/-- What the chunks of a set have in common. -/
structure Meta where
  setDigest : Str
  epochId : Str
  counter : Str
  count : ℕ

/-- One digest of a member. -/
structure Entry where
  digestB64 : Str
  kind : MemberKind
  index : ℕ
  deriving DecidableEq

/-- An object to write. -/
structure ChunkObject where
  key : Str
  body : Str
  deriving DecidableEq

def SET_MEMBER_CHUNK : ℕ := 5000

def SET_MEMBER_VERSION : ℕ := 1

/-- One character in the url-safe alphabet. -/
def safeUnit (c : UInt16) : UInt16 := if c = 43 then 45 else if c = 47 then 95 else c

def toSafe (d : Str) : Str := (d.map safeUnit).rdropWhile (· == 61)

/-- `toSafe(v)`, with what it throws on a value that is no text. -/
def safeOf : Value → Except Thrown Str
  | .str s => .ok (toSafe s)
  | v => do
      let _ ← v.prop (js "replace")
      .error (typeError (js "d.replace is not a function"))

/-! ### Writing -/

def setMembersPrefix (epochId counter : Str) : Str :=
  js "set-members/" ++ toSafe epochId ++ js "/" ++ counter ++ js "/"

/-- The letter of a kind. -/
def MemberKind.letter : MemberKind → Str
  | .setMember => js "m"
  | .fusedDescendant => js "f"

def Entry.value (e : Entry) : Value :=
  .arr [.str (toSafe e.digestB64), .str e.kind.letter, .num (Number.ofNat e.index)]

/-- The chunk `encodeChunk` writes out; the list of a set has no write time. -/
def chunkValue (info : Meta) (entries : List Entry) (first : ℕ) : Value :=
  .obj [(js "v", .num (Number.ofNat SET_MEMBER_VERSION)), (js "setDigest", .str info.setDigest),
    (js "epochId", .str (toSafe info.epochId)), (js "counter", .str info.counter),
    (js "count", .num (Number.ofNat info.count)), (js "writeTime", .null),
    (js "from", .num (Number.ofNat first)), (js "entries", .arr (entries.map Entry.value))]

def encodeChunk (info : Meta) (entries : List Entry) (first : ℕ) : Str :=
  (chunkValue info entries first).serialize.getD []

/-- `[...entries].sort((a, b) => a.index - b.index)`. -/
def sorted (entries : List Entry) : List Entry :=
  entries.mergeSort fun a b => decide (a.index ≤ b.index)

/-- The slices of at most `SET_MEMBER_CHUNK` entries, one a turn of the loop. -/
def parts (entries : List Entry) : List (List Entry) :=
  (List.range ((entries.length + SET_MEMBER_CHUNK - 1) / SET_MEMBER_CHUNK)).map fun turn =>
    ((sorted entries).drop (turn * SET_MEMBER_CHUNK)).take SET_MEMBER_CHUNK

/-- `part[0].index`. -/
def lowest (part : List Entry) : ℕ := (part.head?.map Entry.index).getD 0

def chunkOf (info : Meta) (part : List Entry) : ChunkObject where
  key := setMembersPrefix info.epochId info.counter
    ++ (Timeline.padStart 6 (decimal (lowest part)) ++ 45 :: (decimal part.length ++ js ".json"))
  body := encodeChunk info part (lowest part)

def memberListChunks (info : Meta) (entries : List Entry) : List ChunkObject :=
  (parts entries).map (chunkOf info)

/-! ### Reading -/

abbrev MemberMap := OrderedMap Str SetMemberRef

/-- The kind a letter stands for. -/
def kindOf? (k : Value) : Option MemberKind :=
  if k = .str (js "m") then some .setMember
  else if k = .str (js "f") then some .fusedDescendant
  else none

/-- One turn of the loop over the entries; `shared` is what the entries have from their chunk. -/
def readEntry (shared : MemberKind → Number → SetMemberRef) (into : MemberMap) : Value → MemberMap
  | .arr [.str d, k, .num i] =>
      match kindOf? k with
      | some kind => if into.has d then into else into.set d (shared kind i)
      | none => into
  | _ => into

/-- `typeof c.writeTime === "number" ? c.writeTime : null`. -/
def writeTimeOf : Value → Option Number
  | .num t => some t
  | _ => none

/-- The position a reader expects. -/
structure Position where
  epochId : Str
  counter : Str

def decodeChunkInto (text : Str) (expect : Position) (into : MemberMap) :
    Except Thrown (Bool × MemberMap) :=
  match parse text with
  | none => .ok (false, into)
  | some c =>
      if c.get (js "v") ≠ .num (Number.ofNat SET_MEMBER_VERSION) then .ok (false, into)
      else match c.get (js "entries") with
        | .arr entries => do
            let epochId ← safeOf (c.get (js "epochId"))
            if epochId ≠ toSafe expect.epochId then return (false, into)
            let counter ← (c.get (js "counter")).string
            if counter ≠ expect.counter then return (false, into)
            match c.get (js "setDigest"), c.get (js "count") with
            | .str setDigest, .num count =>
                return (true, entries.foldl (readEntry fun kind index =>
                  ⟨setDigest, epochId, counter, kind, index, count,
                    writeTimeOf (c.get (js "writeTime"))⟩) into)
            | _, _ => return (false, into)
        | _ => .ok (false, into)

/-- Every chunk under the set's prefix, one after another. -/
def decodeAll (expect : Position) (into : MemberMap) : List Str → Except Thrown MemberMap
  | [] => .ok into
  | text :: texts => do
      let (_, next) ← decodeChunkInto text expect into
      decodeAll expect next texts

/-! ### The url-safe spelling -/

section Spelling

lemma safeUnit_safeUnit (c : UInt16) : safeUnit (safeUnit c) = safeUnit c := by
  rw [safeUnit, safeUnit]
  split_ifs <;> simp_all

lemma toSafe_toSafe (d : Str) : toSafe (toSafe d) = toSafe d := by
  have hmap : (toSafe d).map safeUnit = toSafe d := by
    conv_rhs => rw [← List.map_id (toSafe d)]
    refine List.map_congr_left fun c hc => ?_
    have hmem : c ∈ d.map safeUnit := (List.rdropWhile_prefix _ _).subset hc
    obtain ⟨b, -, rfl⟩ := List.mem_map.mp hmem
    exact safeUnit_safeUnit b
  rw [toSafe, hmap, toSafe, List.rdropWhile_idempotent]

end Spelling

/-! ### The chunks of a write -/

section Parts

variable {α : Type*} {entries : List Entry} {e : Entry}

/-- The slices of a list, put together again. -/
lemma flatten_slices (l : List α) (n turns : ℕ) :
    ((List.range turns).map fun turn => (l.drop (turn * n)).take n).flatten = l.take (turns * n) := by
  induction turns with
  | zero => simp
  | succ turns ih =>
      rw [List.range_succ, List.map_append, List.flatten_append, ih, List.map_singleton,
        List.flatten_singleton, Nat.succ_mul, List.take_add]

lemma sorted_perm (entries : List Entry) : (sorted entries).Perm entries := List.mergeSort_perm _ _

lemma flatten_parts (entries : List Entry) : (parts entries).flatten = sorted entries := by
  rw [parts, flatten_slices, List.take_of_length_le]
  rw [(sorted_perm entries).length_eq]
  have := Nat.div_add_mod (entries.length + SET_MEMBER_CHUNK - 1) SET_MEMBER_CHUNK
  have := Nat.mod_lt (entries.length + SET_MEMBER_CHUNK - 1) (show 0 < SET_MEMBER_CHUNK by decide)
  simp only [SET_MEMBER_CHUNK] at *
  omega

lemma sorted_pairwise (entries : List Entry) :
    (sorted entries).Pairwise fun a b => a.index ≤ b.index := by
  have htrans : ∀ a b c : Entry, decide (a.index ≤ b.index) → decide (b.index ≤ c.index) →
      decide (a.index ≤ c.index) := by
    intro a b c hab hbc
    simp only [decide_eq_true_eq] at *
    omega
  have htotal : ∀ a b : Entry, decide (a.index ≤ b.index) || decide (b.index ≤ a.index) := by
    intro a b
    simp only [Bool.or_eq_true, decide_eq_true_eq]
    omega
  exact (List.pairwise_mergeSort htrans htotal entries).imp fun h => of_decide_eq_true h

/-- No member has three entries. -/
def AtMostTwo (entries : List Entry) : Prop := ∀ i, entries.countP (fun e => e.index = i) ≤ 2

/-- In order, a member's entries are next to each other. -/
lemma index_lt_of_gap {l : List Entry} (h : l.Pairwise fun a b => a.index ≤ b.index)
    (htwo : AtMostTwo l) {i j : ℕ} (hij : i + 2 ≤ j) (hj : j < l.length) :
    l[i].index < l[j].index := by
  have hle := List.pairwise_iff_getElem.mp h
  by_contra hge
  have h1 := hle i (i + 1) (by omega) (by omega) (by omega)
  have h2 := hle (i + 1) j (by omega) (by omega) (by omega)
  have hsub := @List.map_getElem_sublist _ l [⟨i, by omega⟩, ⟨i + 1, by omega⟩, ⟨j, hj⟩]
    (by simp; omega)
  have hcount := hsub.countP_le (p := fun e => decide (e.index = l[i].index))
  have hthree : l[i + 1].index = l[i].index ∧ l[j].index = l[i].index := by omega
  have hle := htwo l[i].index
  simp [hthree] at hcount
  omega

/-- A part begins at a place of its own. -/
lemma exists_lowest {part : List Entry} {turn : ℕ}
    (hturn : turn < (entries.length + SET_MEMBER_CHUNK - 1) / SET_MEMBER_CHUNK)
    (hpart : part = ((sorted entries).drop (turn * SET_MEMBER_CHUNK)).take SET_MEMBER_CHUNK) :
    ∃ h : turn * SET_MEMBER_CHUNK < (sorted entries).length,
      lowest part = (sorted entries)[turn * SET_MEMBER_CHUNK].index := by
  have hlt : turn * SET_MEMBER_CHUNK < (sorted entries).length := by
    rw [(sorted_perm entries).length_eq]
    have := Nat.div_mul_le_self (entries.length + SET_MEMBER_CHUNK - 1) SET_MEMBER_CHUNK
    have := Nat.mul_le_mul_right SET_MEMBER_CHUNK (Nat.succ_le_of_lt hturn)
    simp only [SET_MEMBER_CHUNK] at *
    omega
  refine ⟨hlt, ?_⟩
  rw [hpart, lowest, List.head?_take, if_neg (by decide), List.head?_drop,
    List.getElem?_eq_getElem hlt, Option.map_some, Option.getD_some]

/-- The parts of one write begin at different members. -/
lemma nodup_lowest (htwo : AtMostTwo entries) : ((parts entries).map lowest).Nodup := by
  have htwo' : AtMostTwo (sorted entries) := fun i => (sorted_perm entries).countP_eq _ ▸ htwo i
  rw [parts, List.map_map, List.nodup_iff_pairwise_ne, List.pairwise_map]
  refine List.pairwise_lt_range.imp_of_mem fun {a b} ha hb hab => ?_
  obtain ⟨h1, he1⟩ := exists_lowest (List.mem_range.mp ha) rfl
  obtain ⟨h2, he2⟩ := exists_lowest (List.mem_range.mp hb) rfl
  rw [Function.comp_apply, Function.comp_apply, he1, he2]
  refine (index_lt_of_gap (sorted_pairwise entries) htwo' ?_ h2).ne
  simp only [SET_MEMBER_CHUNK]
  omega

/-- A part begins at a member of the write. -/
lemma lowest_mem {k : ℕ} (h : k ∈ (parts entries).map lowest) : ∃ e ∈ entries, e.index = k := by
  obtain ⟨part, hpart, rfl⟩ := List.mem_map.mp h
  obtain ⟨turn, hturn, rfl⟩ := List.mem_map.mp hpart
  obtain ⟨hlt, he⟩ := exists_lowest (List.mem_range.mp hturn) rfl
  exact ⟨_, (sorted_perm entries).subset (List.getElem_mem hlt), he.symm⟩

end Parts

/-! ### Keys -/

section Keys

variable {info : Meta} {slices : List (List Entry)} {p q : List Entry}

/-- Index writes of one set: of disjoint slices of its members, whose digests are distinct. -/
structure Sliced (info : Meta) (slices : List (List Entry)) : Prop where
  digests : (slices.flatten.map fun e => toSafe e.digestB64).Nodup
  pairs : ∀ slice ∈ slices, AtMostTwo slice
  disjoint : slices.Pairwise fun a b => ∀ e ∈ a, ∀ f ∈ b, e.index ≠ f.index
  indices : ∀ e ∈ slices.flatten, e.index < info.count
  exact : info.count < 2 ^ 53

lemma notMem_padStart (n : ℕ) : (45 : UInt16) ∉ Timeline.padStart 6 (decimal n) := by
  intro h
  rw [Timeline.padStart, List.mem_append] at h
  rcases h with h | h
  · exact absurd (List.eq_of_mem_replicate h) (by decide)
  · exact absurd (isDigit_of_mem_decimal h) (by decide)

lemma padStart_decimal_inj {n m : ℕ}
    (h : Timeline.padStart 6 (decimal n) = Timeline.padStart 6 (decimal m)) : n = m := by
  have hread : ∀ k, readDecimal (Timeline.padStart 6 (decimal k)) = k := by
    intro k
    rw [Timeline.padStart, readDecimal_append, readDecimal_replicate_zero, readDecimal_decimal]
    simp
  rw [← hread n, h, hread m]

/-- A key names the lowest index of its chunk. -/
lemma lowest_eq_of_key (h : (chunkOf info p).key = (chunkOf info q).key) : lowest p = lowest q := by
  obtain ⟨hpad, -⟩ := append_cons_inj (notMem_padStart _) (notMem_padStart _)
    (List.append_cancel_left h)
  exact padStart_decimal_inj hpad

/-- **Keys.** No two chunks of disjoint slices are one object. -/
theorem nodup_keys (h : Sliced info slices) :
    ((slices.flatMap (memberListChunks info)).map ChunkObject.key).Nodup := by
  have hlow : ((slices.flatMap parts).map lowest).Nodup := by
    rw [List.map_flatMap, List.nodup_flatMap]
    refine ⟨fun slice hs => nodup_lowest (h.pairs slice hs), h.disjoint.imp fun hab k ha hb => ?_⟩
    obtain ⟨e, he, rfl⟩ := lowest_mem ha
    obtain ⟨f, hf, heq⟩ := lowest_mem hb
    exact hab e he f hf heq.symm
  have hmap : slices.flatMap (memberListChunks info) = (slices.flatMap parts).map (chunkOf info) :=
    List.map_flatMap.symm
  rw [hmap, List.map_map]
  refine List.Nodup.map_on (fun p hp q hq hkey => ?_) hlow.of_map
  exact List.inj_on_of_nodup_map hlow hp hq (lowest_eq_of_key hkey)

end Keys

/-! ### Reading what was written -/

section Reading

variable {info : Meta} {part : List Entry} {expect : Position} {into : MemberMap} {first : ℕ}

/-- A count is a double that JSON keeps. -/
lemma ofNat_kept {n : ℕ} (h : n < 2 ^ 53) : ∃ d : Double, Number.ofNat n = .fin d ∧ d.posZero = d := by
  by_cases h0 : n = 0
  · exact ⟨.zero false, by rw [h0]; rfl, rfl⟩
  · obtain ⟨d, hd, -, hsig, -⟩ := ofNat_eq_fin h0 h
    have hne : d.sig ≠ 0 := by
      rw [hsig]
      positivity
    exact ⟨d, hd, by rw [Double.posZero, if_neg hne]⟩

lemma jsonForm_entry {e : Entry} (h : e.index < 2 ^ 53) :
    e.value.isJson = true ∧ e.value.jsonForm = e.value := by
  obtain ⟨d, hd, hzero⟩ := ofNat_kept h
  simp [Entry.value, Value.isJson, Value.isJsonList, Value.jsonForm, Value.jsonFormList, hd, hzero]

/-- The list a chunk keeps is data, all of which JSON keeps. -/
lemma jsonForm_chunkValue (hpart : ∀ e ∈ part, e.index < 2 ^ 53) (hcount : info.count < 2 ^ 53)
    (hfirst : first < 2 ^ 53) :
    (chunkValue info part first).isJson = true
      ∧ (chunkValue info part first).jsonForm = chunkValue info part first := by
  obtain ⟨version, hversion, hversion0⟩ := ofNat_kept (show SET_MEMBER_VERSION < 2 ^ 53 by decide)
  obtain ⟨total, htotal, htotal0⟩ := ofNat_kept hcount
  obtain ⟨start, hstart, hstart0⟩ := ofNat_kept hfirst
  have hlist : Value.isJsonList (part.map Entry.value) = true := by
    rw [Value.isJsonList_iff]
    intro v hv
    obtain ⟨e, he, rfl⟩ := List.mem_map.mp hv
    exact (jsonForm_entry (hpart e he)).1
  have hform : (part.map Entry.value).map Value.jsonForm = part.map Entry.value := by
    rw [List.map_map]
    exact List.map_congr_left fun e he => (jsonForm_entry (hpart e he)).2
  have hordered : ([js "v", js "setDigest", js "epochId", js "counter", js "count",
      js "writeTime", js "from", js "entries"] : List Str).Pairwise KeyBefore := by decide +kernel
  rw [chunkValue, hversion, htotal, hstart]
  constructor
  · rw [Value.isJson, Bool.and_eq_true, decide_eq_true_eq, Fields.ordered_iff]
    refine ⟨hordered, ?_⟩
    simp [Value.isJsonFields, Value.isJson, hlist]
  · simp [Value.jsonForm, Value.jsonFormFields, Value.jsonFormList_eq, hform, hversion0, htotal0,
      hstart0]

lemma parse_encodeChunk (hpart : ∀ e ∈ part, e.index < 2 ^ 53) (hcount : info.count < 2 ^ 53)
    (hfirst : first < 2 ^ 53) :
    parse (encodeChunk info part first) = some (chunkValue info part first) := by
  obtain ⟨hjson, hform⟩ := jsonForm_chunkValue hpart hcount hfirst
  obtain ⟨text, htext, hparse⟩ := parse_serialize_jsonForm hjson
  rw [encodeChunk, htext, Option.getD_some, hparse, hform]

/-- What an entry of the set is read as. -/
def refOf (info : Meta) (e : Entry) : SetMemberRef :=
  ⟨info.setDigest, toSafe info.epochId, info.counter, e.kind, Number.ofNat e.index,
    Number.ofNat info.count, none⟩

/-- An entry goes in unless its digest is there. -/
def addEntry (info : Meta) (into : MemberMap) (e : Entry) : MemberMap :=
  if into.has (toSafe e.digestB64) then into else into.set (toSafe e.digestB64) (refOf info e)

lemma kindOf?_letter (kind : MemberKind) : kindOf? (.str kind.letter) = some kind := by
  cases kind <;> decide

/-- **A written chunk** is read as its entries, under any spelling of the epoch. -/
theorem decodeChunkInto_encodeChunk (hpart : ∀ e ∈ part, e.index < 2 ^ 53)
    (hcount : info.count < 2 ^ 53) (hfirst : first < 2 ^ 53)
    (hepoch : toSafe expect.epochId = toSafe info.epochId) (hcounter : expect.counter = info.counter) :
    decodeChunkInto (encodeChunk info part first) expect into
      = .ok (true, part.foldl (addEntry info) into) := by
  have hread : (part.map Entry.value).foldl (readEntry fun kind index =>
      ⟨info.setDigest, toSafe info.epochId, info.counter, kind, index, Number.ofNat info.count, none⟩)
      into = part.foldl (addEntry info) into := by
    rw [List.foldl_map]
    congr 1
    funext m e
    rw [Entry.value, readEntry, kindOf?_letter]
    rfl
  have hversion : (chunkValue info part first).get (js "v")
      = .num (Number.ofNat SET_MEMBER_VERSION) := rfl
  have hentries : (chunkValue info part first).get (js "entries")
      = .arr (part.map Entry.value) := rfl
  have hepochId : (chunkValue info part first).get (js "epochId")
      = .str (toSafe info.epochId) := rfl
  have hposition : (chunkValue info part first).get (js "counter") = .str info.counter := rfl
  have hset : (chunkValue info part first).get (js "setDigest") = .str info.setDigest := rfl
  have htotal : (chunkValue info part first).get (js "count")
      = .num (Number.ofNat info.count) := rfl
  have htime : (chunkValue info part first).get (js "writeTime") = .null := rfl
  have hsafe : safeOf (.str (toSafe info.epochId)) = .ok (toSafe info.epochId) := by
    rw [safeOf, toSafe_toSafe]
  have htext : (Value.str info.counter).string = .ok info.counter := rfl
  simp only [decodeChunkInto, parse_encodeChunk hpart hcount hfirst, hversion, hentries, hepochId,
    hposition, hset, htotal, htime, hsafe, htext, hepoch, hcounter, ← hread]
  simp [bind, Except.bind, pure, Except.pure, writeTimeOf]

/-! ### Any text -/

variable {text : Str} {b : Bool} {m : MemberMap} {d : Str} {r : SetMemberRef}

lemma readEntry_frame {shared : MemberKind → Number → SetMemberRef} {v : Value}
    (h : into.get d = some r) : (readEntry shared into v).get d = some r := by
  rw [readEntry.eq_def]
  split
  · next j k i =>
      cases kindOf? k with
      | none => exact h
      | some kind =>
          show (if into.has j then into else into.set j (shared kind i)).get d = some r
          split
          · exact h
          · next hj =>
              have hne : j ≠ d := by
                rintro rfl
                exact hj (OrderedMap.has_iff.mpr ⟨r, h⟩)
              rw [OrderedMap.get_set, if_neg hne, h]
  · exact h

/-- The ways a call ends well: refused with nothing added, or read entry by entry. -/
lemma decodeChunkInto_cases (h : decodeChunkInto text expect into = .ok (b, m)) :
    b = false ∧ m = into ∨ b = true ∧ ∃ shared entries, m = List.foldl (readEntry shared) into entries := by
  rw [decodeChunkInto] at h
  split at h
  · cases h
    exact .inl ⟨rfl, rfl⟩
  split at h
  · cases h
    exact .inl ⟨rfl, rfl⟩
  split at h
  · obtain ⟨epochId, -, h⟩ := bind_eq_ok h
    split at h
    · cases h
      exact .inl ⟨rfl, rfl⟩
    obtain ⟨counter, -, h⟩ := bind_eq_ok h
    split at h
    · cases h
      exact .inl ⟨rfl, rfl⟩
    split at h
    · cases h
      exact .inr ⟨rfl, _, _, rfl⟩
    · cases h
      exact .inl ⟨rfl, rfl⟩
  · cases h
    exact .inl ⟨rfl, rfl⟩

/-- **Frame.** A text that is refused adds nothing, and none changes an entry that is there. -/
theorem decodeChunkInto_frame (h : decodeChunkInto text expect into = .ok (b, m)) :
    (b = false → m = into) ∧ ∀ d r, into.get d = some r → m.get d = some r := by
  rcases decodeChunkInto_cases h with ⟨rfl, rfl⟩ | ⟨rfl, shared, entries, rfl⟩
  · exact ⟨fun _ => rfl, fun _ _ hd => hd⟩
  · refine ⟨fun hb => Bool.noConfusion hb, fun d r hd => ?_⟩
    clear h
    induction entries generalizing into with
    | nil => exact hd
    | cons v entries ih => exact ih (readEntry_frame hd)

/-- A text that names no list of this version, or whose epoch is a text and, where that is the one
expected, whose counter has a text. -/
def Answerable (text : Str) (expect : Position) : Prop :=
  ∀ c entries, parse text = some c → c.get (js "v") = .num (Number.ofNat SET_MEMBER_VERSION) →
    c.get (js "entries") = .arr entries →
    ∃ epochId, c.get (js "epochId") = .str epochId
      ∧ (toSafe epochId = toSafe expect.epochId → (c.get (js "counter")).toText ≠ none)

lemma safeOf_eq_ok {v : Value} {s : Str} (h : safeOf v = .ok s) : ∃ t, v = .str t ∧ toSafe t = s := by
  rw [safeOf.eq_def] at h
  split at h
  · next t => exact ⟨t, rfl, Except.ok.inj h⟩
  · obtain ⟨w, -, h⟩ := bind_eq_ok h
    cases h

/-- A call ends well exactly on these. -/
theorem decodeChunkInto_returns_iff :
    (∃ b m, decodeChunkInto text expect into = .ok (b, m)) ↔ Answerable text expect := by
  constructor
  · rintro ⟨b, m, h⟩ c entries hparse hversion hentries
    simp only [decodeChunkInto, hparse, hversion, hentries, ne_eq, not_true_eq_false, if_false] at h
    obtain ⟨epochId, hepoch, h⟩ := bind_eq_ok h
    obtain ⟨s, hs, rfl⟩ := safeOf_eq_ok hepoch
    refine ⟨s, hs, fun heq hnone => ?_⟩
    rw [if_neg (not_not_intro heq)] at h
    obtain ⟨counter, hcounter, -⟩ := bind_eq_ok h
    rw [Value.string, hnone] at hcounter
    cases hcounter
  · intro h
    cases hparse : parse text with
    | none => exact ⟨false, into, by rw [decodeChunkInto, hparse]⟩
    | some c =>
        by_cases hversion : c.get (js "v") = .num (Number.ofNat SET_MEMBER_VERSION)
        · by_cases hlist : ∃ entries, c.get (js "entries") = .arr entries
          · obtain ⟨entries, hentries⟩ := hlist
            obtain ⟨s, hs, htext⟩ := h c entries hparse hversion hentries
            have hsafe : safeOf (.str s) = .ok (toSafe s) := rfl
            simp only [decodeChunkInto, hparse, hversion, hentries, hs, hsafe]
            by_cases heq : toSafe s = toSafe expect.epochId
            · obtain ⟨counter, hcounter⟩ := Option.ne_none_iff_exists'.mp (htext heq)
              simp only [heq, Value.string, hcounter]
              by_cases hc : counter = expect.counter
              · simp only [hc, bind, Except.bind, pure, Except.pure, ne_eq, not_true_eq_false, if_false]
                split <;> exact ⟨_, _, rfl⟩
              · simp [bind, Except.bind, pure, Except.pure, hc]
            · simp [bind, Except.bind, pure, Except.pure, heq]
          · refine ⟨false, into, ?_⟩
            simp only [decodeChunkInto, hparse, hversion]
            cases hentries : c.get (js "entries") with
            | arr entries => exact absurd ⟨entries, hentries⟩ hlist
            | _ => simp
        · exact ⟨false, into, by rw [decodeChunkInto, hparse]; simp [hversion]⟩

end Reading

/-! ### Round trip -/

section RoundTrip

variable {info : Meta} {slices : List (List Entry)} {expect : Position} {ps : List (List Entry)}

lemma Sliced.index_lt (h : Sliced info slices) {part : List Entry}
    (hpart : part ∈ slices.flatMap parts) {e : Entry} (he : e ∈ part) : e.index < 2 ^ 53 := by
  obtain ⟨slice, hslice, hp⟩ := List.mem_flatMap.mp hpart
  have hsorted : e ∈ sorted slice := flatten_parts slice ▸ List.mem_flatten.mpr ⟨part, hp, he⟩
  have hmem : e ∈ slices.flatten :=
    List.mem_flatten.mpr ⟨slice, hslice, (sorted_perm slice).subset hsorted⟩
  exact (h.indices e hmem).trans h.exact

lemma lowest_lt {part : List Entry} {k : ℕ} (hk : 0 < k) (h : ∀ e ∈ part, e.index < k) :
    lowest part < k := by
  cases part with
  | nil => exact hk
  | cons e part => exact h e List.mem_cons_self

/-- Chunks one after another, entry by entry. -/
lemma decodeAll_bodies (h : Sliced info slices) (hps : ∀ p ∈ ps, p ∈ slices.flatMap parts)
    (hepoch : toSafe expect.epochId = toSafe info.epochId) (hcounter : expect.counter = info.counter)
    (into : MemberMap) :
    decodeAll expect into (ps.map fun p => (chunkOf info p).body)
      = .ok (ps.flatten.foldl (addEntry info) into) := by
  induction ps generalizing into with
  | nil => rfl
  | cons p ps ih =>
      have hp : ∀ e ∈ p, e.index < 2 ^ 53 := fun e he => h.index_lt (hps p List.mem_cons_self) he
      rw [List.map_cons, decodeAll, chunkOf,
        decodeChunkInto_encodeChunk hp h.exact (lowest_lt (by decide) hp) hepoch hcounter,
        List.flatten_cons, List.foldl_append]
      exact ih (fun q hq => hps q (List.mem_cons_of_mem _ hq)) _

lemma flatten_flatMap_parts (slices : List (List Entry)) :
    (slices.flatMap parts).flatten.Perm slices.flatten := by
  induction slices with
  | nil => exact .refl _
  | cons slice slices ih =>
      rw [List.flatMap_cons, List.flatten_append, flatten_parts, List.flatten_cons]
      exact (sorted_perm slice).append ih

/-- A permutation of the images is the images of a permutation. -/
lemma exists_perm_of_map {α β : Type*} {f : α → β} {l : List α} {l' : List β}
    (h : l'.Perm (l.map f)) : ∃ l'' : List α, l''.Perm l ∧ l' = l''.map f := by
  have hmap : List.Forall₂ (fun b a => b = f a) (l.map f) l := by
    rw [List.forall₂_map_left_iff]
    exact List.forall₂_same.mpr fun _ _ => rfl
  obtain ⟨l'', hl, hperm⟩ := List.perm_comp_forall₂ h hmap
  refine ⟨l'', hperm, ?_⟩
  rw [← List.forall₂_eq_eq_eq, List.forall₂_map_right_iff]
  exact hl

/-- **Reading back.** The chunks in any order are the map of the entries. -/
theorem decodeAll_chunks (h : Sliced info slices)
    (hepoch : toSafe expect.epochId = toSafe info.epochId) (hcounter : expect.counter = info.counter)
    {chunks : List ChunkObject} (hchunks : chunks.Perm (slices.flatMap (memberListChunks info))) :
    ∃ m, decodeAll expect [] (chunks.map ChunkObject.body) = .ok m ∧ ∀ d r, m.get d = some r
      ↔ ∃ e ∈ slices.flatten, toSafe e.digestB64 = d ∧ refOf info e = r := by
  have hmap : slices.flatMap (memberListChunks info) = (slices.flatMap parts).map (chunkOf info) :=
    List.map_flatMap.symm
  rw [hmap] at hchunks
  obtain ⟨ps, hperm, rfl⟩ := exists_perm_of_map hchunks
  have hflat : ps.flatten.Perm slices.flatten := hperm.flatten.trans (flatten_flatMap_parts slices)
  have hfresh : ∀ (m : MemberMap) (e : Entry), m.get (toSafe e.digestB64) = none →
      addEntry info m e = (some (refOf info e)).elim m fun v => m.set (toSafe e.digestB64) v := by
    intro m e hm
    rw [addEntry, OrderedMap.has, hm]
    rfl
  refine ⟨ps.flatten.foldl (addEntry info) [], ?_, fun d r => ?_⟩
  · rw [List.map_map]
    exact decodeAll_bodies h (fun p hp => hperm.subset hp) hepoch hcounter []
  · rw [OrderedMap.get_foldl_fresh hfresh ((hflat.map _).nodup_iff.mpr h.digests) fun _ _ => rfl]
    constructor
    · rintro (hd | ⟨e, he, hd, hr⟩)
      · cases hd
      · exact ⟨e, hflat.subset he, hd, Option.some.inj hr⟩
    · rintro ⟨e, he, hd, hr⟩
      exact .inr ⟨e, hflat.symm.subset he, hd, congrArg some hr⟩

/-- **Lists of a set.** The chunks of disjoint slices have distinct keys and, in any order, are read
back as the map of the members; a text of any kind is answered, with nothing added where it is
refused and no entry changed, exactly if it is `Answerable`. -/
theorem set_member_lists (h : Sliced info slices)
    (hepoch : toSafe expect.epochId = toSafe info.epochId) (hcounter : expect.counter = info.counter) :
    ((slices.flatMap (memberListChunks info)).map ChunkObject.key).Nodup
      ∧ (∀ chunks : List ChunkObject, chunks.Perm (slices.flatMap (memberListChunks info)) →
          ∃ m, decodeAll expect [] (chunks.map ChunkObject.body) = .ok m ∧ ∀ d r, m.get d = some r
            ↔ ∃ e ∈ slices.flatten, toSafe e.digestB64 = d ∧ refOf info e = r)
      ∧ ∀ text position into,
          (∃ b m, decodeChunkInto text position into = .ok (b, m) ∧ (b = false → m = into)
            ∧ ∀ d r, into.get d = some r → m.get d = some r) ↔ Answerable text position := by
  refine ⟨nodup_keys h, fun chunks hc => decodeAll_chunks h hepoch hcounter hc,
    fun text position into => ?_⟩
  rw [← decodeChunkInto_returns_iff]
  constructor
  · rintro ⟨b, m, hok, -, -⟩
    exact ⟨b, m, hok⟩
  · rintro ⟨b, m, hok⟩
    obtain ⟨hfalse, hframe⟩ := decodeChunkInto_frame hok
    exact ⟨b, m, hok, hfalse, hframe⟩

/-- Two writes of one set: a member with both its digests, and a member with one. -/
def sampleInfo : Meta := ⟨js "S", js "E+=", js "7", 2⟩

def sampleSlices : List (List Entry) :=
  [[⟨js "a/=", .fusedDescendant, 0⟩, ⟨js "b", .setMember, 0⟩], [⟨js "c", .setMember, 1⟩]]

lemma sliced_sample : Sliced sampleInfo sampleSlices where
  digests := by decide
  pairs slice hslice i := by
    refine List.countP_le_length.trans ?_
    have : ∀ slice ∈ sampleSlices, slice.length ≤ 2 := by decide
    exact this slice hslice
  disjoint := by decide
  indices := by decide
  exact := by decide

theorem set_member_lists_sample :
    ((sampleSlices.flatMap (memberListChunks sampleInfo)).map ChunkObject.key).Nodup :=
  (@set_member_lists sampleInfo sampleSlices ⟨js "E-", js "7"⟩ sliced_sample (by decide) rfl).1

/-- A list that names no epoch is not refused: reading it throws. -/
theorem decodeChunkInto_throws :
    ¬ ∀ text position into, ∃ b m, decodeChunkInto text position into = .ok (b, m)
      ∧ (b = false → m = into) ∧ ∀ d r, into.get d = some r → m.get d = some r := by
  intro h
  obtain ⟨b, m, hok, -⟩ := h (js "\x7b\"v\":1,\"entries\":[]\x7d") ⟨js "E", js "7"⟩ []
  have hthrows : (decodeChunkInto (js "\x7b\"v\":1,\"entries\":[]\x7d") ⟨js "E", js "7"⟩ []).toOption
      = none := by decide +kernel
  rw [hok] at hthrows
  cases hthrows

end RoundTrip

end SetMembers

end BitGraph
