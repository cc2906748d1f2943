import BitGraph.Fuse
import BitGraph.Lib.Pool

/-!
`scan-hash.ts`: one pass over a file gives its digest and the hasher's state, from which its fused
digest is finished later.

* **Placement.** `placementForBytes` and `treePlacementFor` of `fuse.ts` read the first bytes.
* **Scan.** `hashChunks` as the steps of a scan: every `await` lets other scans and finishes run on
  the pool of hashers that they share.
* **Main result.** `scan_finishes`: in every run a scan ends with the digest and the placement of
  its content, however it was cut, and a state it saves finishes to the hash of the placement's
  build.

The hasher is a parameter, `Faithful` is what it promises: `Fed s xs` says that an instance was
initialised and then fed `xs`.
-/

namespace BitGraph

open Js Lib

namespace ScanHash

open Fuse

/-! ### Placement of a file -/

/-- A magic number at the start. -/
def startsWith (bytes sig : Bytes) : Bool := sig.isPrefixOf bytes

def placementForBytes (bytes : Bytes) : PlacementId :=
  let trailerSafe :=
    startsWith bytes [0xff, 0xd8, 0xff]
    || startsWith bytes [0x89, 0x50, 0x4e, 0x47, 0x0d, 0x0a, 0x1a, 0x0a]
    || startsWith bytes [0x47, 0x49, 0x46, 0x38]
    || startsWith bytes [0x49, 0x49, 0x2a, 0x00] || startsWith bytes [0x4d, 0x4d, 0x00, 0x2a]
    || (startsWith bytes [0x42, 0x4d] && 14 ≤ bytes.length)
    || (startsWith bytes [0x52, 0x49, 0x46, 0x46] && 12 ≤ bytes.length)
  if trailerSafe then .trailer1 else .container2

def treePlacementFor (size : ℕ) (head : Bytes) : PlacementId :=
  if MAX_ENTRY < size then .trailer1 else placementForBytes head

/-! ### The hasher -/

/-- `IHasher`, by the contents of an instance. -/
structure Hasher (S : Type*) where
  create : S
  init : S → S
  update : S → Bytes → S
  save : S → Bytes
  load : S → Bytes → S
  digest : S → Bytes × S

/-- What the hasher promises. -/
structure Hasher.Faithful {S : Type*} (h : Hasher S) (H : HashFn) (Fed : S → Bytes → Prop) : Prop where
  init : ∀ s, Fed (h.init s) []
  update : ∀ {s xs} ys, Fed s xs → Fed (h.update s ys) (xs ++ ys)
  load : ∀ {s xs} t, Fed s xs → Fed (h.load t (h.save s)) xs
  digest : ∀ {s xs}, Fed s xs → (h.digest s).1 = H xs

/-! ### Scans -/

/-- Bytes the placement decision needs. -/
def SNIFF : ℕ := 64

/-- The hashers that are idle at most. -/
def IDLE : ℕ := 8

structure Result where
  digestB64 : Str
  placement : PlacementId
  state : Option Bytes
  bytes : ℕ
  deriving DecidableEq

/-- Where a scan stands, with the hashers it holds. -/
inductive Phase where
  | idle
  /-- The hasher of the origin was taken. -/
  | opening (origin : ℕ)
  | reading (origin : ℕ) (fused : Option ℕ)
  /-- A second hasher was taken, for the placement's prefix. -/
  | starting (origin fused : ℕ) (front : Bytes)
  | done (r : Result)
  | failed

def Phase.held : Phase → List ℕ
  | .opening i => [i]
  | .reading i f => i :: f.toList
  | .starting i j _ => [i, j]
  | _ => []

/-- A scan. `source` is what its stream gives in all, `left` what is still to come. -/
structure Scan where
  size : Option ℕ
  source : List Bytes
  left : List Bytes
  phase : Phase
  stateless : Bool
  placement : Option PlacementId
  head : Option Bytes
  bytes : ℕ

def Scan.unused : Scan := ⟨none, [], [], .idle, false, none, none, 0⟩

def placementOf (size : Option ℕ) (head : Bytes) : PlacementId :=
  match size with
  | none => placementForBytes head
  | some n => treePlacementFor n head

def scanPrefixOf (size : Option ℕ) (p : PlacementId) : Except Thrown (Option Bytes) :=
  match size with
  | none => .ok none
  | some n => p.scanPrefix n

/-- What `finishState` returned. -/
structure Finish where
  state : Bytes
  suffix : Bytes
  digest : Bytes

structure Sys (S : Type*) where
  pool : Pool S
  finisher : Option ℕ
  scans : ℕ → Scan
  finished : List Finish

section Steps

variable {S : Type*} (h : Hasher S)

def Sys.start : Sys S := ⟨⟨fun _ => h.create, 0, []⟩, none, fun _ => .unused, []⟩

/-- A scan that has moved, with the pool it leaves. -/
def Sys.put (sys : Sys S) (k : ℕ) (pool : Pool S) (sc : Scan) : Sys S :=
  { sys with pool := pool, scans := Function.update sys.scans k sc }

/-- `h.update(chunk)` of an instance. -/
def absorb (pool : Pool S) (i : ℕ) (chunk : Bytes) : Pool S :=
  pool.write i (h.update (pool.heap i) chunk)

def feed (pool : Pool S) (origin : ℕ) (fused : Option ℕ) (chunk : Bytes) : Pool S :=
  match fused with
  | none => absorb h pool origin chunk
  | some j => absorb h (absorb h pool origin chunk) j chunk

/-- The `finally` of a scan. -/
def giveAll (pool : Pool S) (origin : ℕ) (fused : Option ℕ) : Pool S :=
  match fused with
  | none => pool.give IDLE origin
  | some j => (pool.give IDLE origin).give IDLE j

/-- `start`, and the feeding of the head behind it. -/
def Sys.begin (sys : Sys S) (k : ℕ) (sc : Scan) (origin : ℕ) : Sys S :=
  let p := placementOf sc.size ((sc.head.getD []).take SNIFF)
  match scanPrefixOf sc.size p with
  | .error _ => sys.put k (giveAll sys.pool origin none) { sc with phase := .failed }
  | .ok (some (b :: front)) =>
      let taken := sys.pool.take h.create
      sys.put k taken.2
        { sc with placement := some p, phase := .starting origin taken.1 (b :: front) }
  | .ok front =>
      sys.put k (sc.head.elim sys.pool (feed h sys.pool origin none))
        { sc with
          placement := some p
          head := none
          stateless := sc.stateless || front.isNone
          phase := .reading origin none }

/-- What stands behind the loop, once the placement is known. -/
def Sys.close (sys : Sys S) (k : ℕ) (sc : Scan) (origin : ℕ) (fused : Option ℕ)
    (p : PlacementId) : Sys S :=
  let stateless := sc.stateless || sc.size.any fun n => sc.bytes != n
  let state := if stateless then none else some (h.save (sys.pool.heap (fused.getD origin)))
  let digest := h.digest (sys.pool.heap origin)
  sys.put k (giveAll (sys.pool.write origin digest.2) origin fused)
    { sc with phase := .done ⟨bytesToBase64 digest.1, p, state, sc.bytes⟩ }

/-- One chunk of the loop. -/
def Sys.chunk (sys : Sys S) (k : ℕ) (sc : Scan) (origin : ℕ) (fused : Option ℕ) (chunk : Bytes) :
    Sys S :=
  let sc := { sc with bytes := sc.bytes + chunk.length }
  if sc.placement.isNone then
    let head := sc.head.elim chunk (· ++ chunk)
    if SNIFF ≤ head.length then sys.begin h k { sc with head := some head } origin
    else sys.put k sys.pool { sc with head := some head }
  else sys.put k (feed h sys.pool origin fused chunk) sc

inductive Act where
  /-- `hashChunks` is called: it takes a hasher. -/
  | call (k : ℕ) (size : Option ℕ) (chunks : List Bytes)
  /-- A scan goes on to its next `await`. -/
  | advance (k : ℕ)
  /-- The stream of a scan throws. -/
  | fail (k : ℕ)
  /-- `finishState`. -/
  | finish (state suffix : Bytes)

def Sys.advance (sys : Sys S) (k : ℕ) : Sys S :=
  let sc := sys.scans k
  match sc.phase with
  | .opening i =>
      sys.put k (sys.pool.write i (h.init (sys.pool.heap i))) { sc with phase := .reading i none }
  | .starting i j front =>
      let pool := absorb h (sys.pool.write j (h.init (sys.pool.heap j))) j front
      sys.put k (sc.head.elim pool (feed h pool i (some j)))
        { sc with head := none, phase := .reading i (some j) }
  | .reading i f =>
      match sc.left with
      | chunk :: left => sys.chunk h k { sc with left := left } i f chunk
      | [] =>
          match sc.placement with
          | none => sys.begin h k sc i
          | some p => sys.close h k sc i f p
  | _ => sys

def Sys.fail (sys : Sys S) (k : ℕ) : Sys S :=
  let sc := sys.scans k
  match sc.phase with
  | .reading i f => sys.put k (giveAll sys.pool i f) { sc with phase := .failed }
  | _ => sys

/-- The finisher is made once, and its three calls run with no `await` between them. -/
def Sys.finish (sys : Sys S) (state suffix : Bytes) : Sys S :=
  let made := match sys.finisher with
    | some i => (i, sys.pool)
    | none => sys.pool.make h.create
  let digest := h.digest (h.update (h.load (made.2.heap made.1) state) suffix)
  { sys with
    pool := made.2.write made.1 digest.2
    finisher := some made.1
    finished := ⟨state, suffix, digest.1⟩ :: sys.finished }

def Sys.step (sys : Sys S) : Act → Sys S
  | .call k size chunks =>
      match (sys.scans k).phase with
      | .idle =>
          let taken := sys.pool.take h.create
          sys.put k taken.2 ⟨size, chunks, chunks, .opening taken.1, false, none, none, 0⟩
      | _ => sys
  | .advance k => sys.advance h k
  | .fail k => sys.fail k
  | .finish state suffix => sys.finish h state suffix

def Sys.run (acts : List Act) : Sys S := acts.foldl (Sys.step h) (Sys.start h)

end Steps

/-! ### Placements and prefixes -/

lemma placementForBytes_cases (bytes : Bytes) :
    placementForBytes bytes = .trailer1 ∨ placementForBytes bytes = .container2 := by
  rw [placementForBytes]
  split
  · exact Or.inl rfl
  · exact Or.inr rfl

/-- A file of a tree fits its placement, whose prefix is known from the size. -/
lemma treePlacementFor_fits (size : ℕ) (head : Bytes) :
    (treePlacementFor size head = .trailer1 ∨ treePlacementFor size head = .container2)
      ∧ (treePlacementFor size head).Fits size
      ∧ ∃ front, (treePlacementFor size head).scanPrefix size = .ok (some front) := by
  rw [treePlacementFor]
  split
  · exact ⟨Or.inl rfl, Or.inl rfl, [], rfl⟩
  · next hle =>
      rcases placementForBytes_cases head with hp | hp
      · rw [hp]
        exact ⟨Or.inl rfl, Or.inl rfl, [], rfl⟩
      · obtain ⟨hz, hlt, hascii⟩ := nameFits (n := CONTAINER_ORIGINAL_PATH) (Or.inr rfl)
        obtain ⟨header, hh, -⟩ := buildUstarHeader_ok hz hlt hascii (not_lt.mp hle)
        rw [hp]
        refine ⟨Or.inr rfl, Or.inr (not_lt.mp hle), header, ?_⟩
        rw [PlacementId.scanPrefix, hh]
        rfl

/-- The prefix that is scanned is the frame's. -/
lemma front_eq_scanPrefix {p : PlacementId} {size : ℕ} {d c front : Bytes} {f : FusedFrame}
    (hf : p.frame? size d c = some (.ok f)) (hp : p.scanPrefix size = .ok (some front)) :
    f.front = front := by
  cases p with
  | trailer1 =>
      rw [PlacementId.frame?, Option.some.injEq] at hf
      split at hf
      · cases hf
      · cases hf
        exact Option.some.inj (Except.ok.inj hp)
  | container1 => cases hp
  | container2 =>
      rw [PlacementId.frame?, Option.some.injEq] at hf
      obtain ⟨m, -, hf⟩ := bind_eq_ok hf
      obtain ⟨header, hh, hf⟩ := bind_eq_ok hf
      obtain ⟨e, -, hf⟩ := bind_eq_ok hf
      cases hf
      rw [PlacementId.scanPrefix, hh] at hp
      exact Option.some.inj (Except.ok.inj hp)
  | produced1 => cases hp

lemma scanPrefixOf_ok (size : Option ℕ) (head : Bytes) :
    ∃ front, scanPrefixOf size (placementOf size head) = .ok front := by
  cases size with
  | none => exact ⟨none, rfl⟩
  | some n =>
      obtain ⟨-, -, front, hfront⟩ := treePlacementFor_fits n head
      exact ⟨some front, hfront⟩

/-! ### The invariant -/

section Invariant

variable {S : Type*} (h : Hasher S) (H : HashFn) (Fed : S → Bytes → Prop)

/-- The chunks read so far. -/
structure Scan.ReadTo (sc : Scan) (past : List Bytes) : Prop where
  source : sc.source = past ++ sc.left
  bytes : sc.bytes = past.flatten.length

/-- The placement of a scan and its prefix are those of the whole content. -/
structure Scan.Decided (sc : Scan) (front : Option Bytes) : Prop where
  placement : sc.placement = some (placementOf sc.size (sc.source.flatten.take SNIFF))
  chosen : scanPrefixOf sc.size (placementOf sc.size (sc.source.flatten.take SNIFF)) = .ok front
  stateless : sc.stateless = front.isNone

/-- What the hashers of a scan were fed. -/
inductive Scan.Reading (sc : Scan) (heap : ℕ → S) (i : ℕ) : Option ℕ → Prop where
  | sniffing (past : List Bytes) : sc.ReadTo past → sc.head.getD [] = past.flatten →
      sc.placement = none → sc.stateless = false → past.flatten.length < SNIFF → Fed (heap i) [] →
      sc.Reading heap i none
  | plain (past : List Bytes) (front : Option Bytes) : sc.ReadTo past → sc.head = none →
      sc.Decided front → (∀ b ∈ front, b = []) → Fed (heap i) past.flatten →
      sc.Reading heap i none
  | fused (past : List Bytes) (front : Bytes) (j : ℕ) : sc.ReadTo past → sc.head = none →
      sc.Decided (some front) → Fed (heap i) past.flatten → Fed (heap j) (front ++ past.flatten) →
      sc.Reading heap i (some j)

/-- What a scan returns is right for its content. -/
structure Scan.Right (sc : Scan) (r : Result) : Prop where
  digest : r.digestB64 = bytesToBase64 (H sc.source.flatten)
  placement : r.placement = placementOf sc.size (sc.source.flatten.take SNIFF)
  saved : ∀ st ∈ r.state, ∃ s front, scanPrefixOf sc.size r.placement = .ok (some front)
    ∧ Fed s (front ++ sc.source.flatten) ∧ st = h.save s
  saves : sc.size = some sc.source.flatten.length →
    ∀ front, scanPrefixOf sc.size r.placement = .ok (some front) → r.state.isSome = true

def Scan.Good (sc : Scan) (heap : ℕ → S) : Prop :=
  match sc.phase with
  | .idle => True
  | .opening _ => sc.ReadTo [] ∧ sc.head = none ∧ sc.placement = none ∧ sc.stateless = false
  | .reading i f => sc.Reading Fed heap i f
  | .starting i _ front => ∃ past, sc.ReadTo past ∧ sc.head.getD [] = past.flatten
      ∧ sc.Decided (some front) ∧ Fed (heap i) []
  | .done r => sc.Right h H Fed r
  | .failed => True

/-- The hashers of the finisher and of each scan. -/
def Sys.held (sys : Sys S) : Option ℕ → List ℕ
  | none => sys.finisher.toList
  | some k => (sys.scans k).phase.held

structure Sys.Inv (sys : Sys S) : Prop where
  sound : sys.pool.Sound sys.held
  good : ∀ k, (sys.scans k).Good h H Fed sys.pool.heap
  finished : ∀ e ∈ sys.finished, ∀ s xs, e.state = h.save s → Fed s xs →
    e.digest = H (xs ++ e.suffix)

variable {h H Fed}

lemma Scan.Reading.congr {sc : Scan} {heap heap' : ℕ → S} {i : ℕ} {f : Option ℕ}
    (hr : sc.Reading Fed heap i f) (heq : ∀ j ∈ (Phase.reading i f).held, heap' j = heap j) :
    sc.Reading Fed heap' i f := by
  have hi := heq i List.mem_cons_self
  cases hr with
  | sniffing past hread hhead hplace hstate hlt hfed =>
      exact .sniffing past hread hhead hplace hstate hlt (hi ▸ hfed)
  | plain past front hread hhead hdec hfront hfed =>
      exact .plain past front hread hhead hdec hfront (hi ▸ hfed)
  | fused past front j hread hhead hdec hfed hfed' =>
      have hj := heq j (List.mem_cons_of_mem _ List.mem_cons_self)
      exact .fused past front j hread hhead hdec (hi ▸ hfed) (hj ▸ hfed')

/-- A scan depends on the hashers it holds. -/
lemma Scan.Good.congr {sc : Scan} {heap heap' : ℕ → S} (hg : sc.Good h H Fed heap)
    (heq : ∀ i ∈ sc.phase.held, heap' i = heap i) : sc.Good h H Fed heap' := by
  rw [Scan.Good] at hg ⊢
  cases hphase : sc.phase with
  | reading i f =>
      rw [hphase] at hg heq
      exact Scan.Reading.congr hg heq
  | starting i j front =>
      rw [hphase] at hg heq
      obtain ⟨past, hread, hhead, hdec, hfed⟩ := hg
      exact ⟨past, hread, hhead, hdec, heq i List.mem_cons_self ▸ hfed⟩
  | _ => rwa [hphase] at hg

lemma held_put (sys : Sys S) (k : ℕ) (pool : Pool S) (sc : Scan) :
    (sys.put k pool sc).held = Function.update sys.held (some k) sc.phase.held := by
  funext o
  cases o with
  | none => rfl
  | some l =>
      by_cases hl : l = k
      · subst hl
        rw [Function.update_self]
        exact congrArg (fun s : Scan => s.phase.held) (Function.update_self ..)
      · rw [Function.update_of_ne (by simpa using hl)]
        exact congrArg (fun s : Scan => s.phase.held) (Function.update_of_ne hl ..)

/-- One scan moves, and writes to what it held or has just taken. -/
lemma Sys.Inv.put {sys : Sys S} (hi : sys.Inv h H Fed) {k : ℕ} {pool : Pool S} {sc : Scan}
    (hs : pool.Sound (Function.update sys.held (some k) sc.phase.held))
    (hframe : ∀ l, l ≠ k → ∀ i ∈ sys.held (some l), pool.heap i = sys.pool.heap i)
    (hgood : sc.Good h H Fed pool.heap) : (sys.put k pool sc).Inv h H Fed where
  sound := by
    rw [held_put]
    exact hs
  good := by
    intro l
    by_cases hl : l = k
    · subst hl
      have hself : (sys.put l pool sc).scans l = sc := Function.update_self ..
      rw [hself]
      exact hgood
    · have hother : (sys.put k pool sc).scans l = sys.scans l := Function.update_of_ne hl ..
      rw [hother]
      exact (hi.good l).congr (hframe l hl)
  finished := hi.finished

/-! ### What the steps do to the pool -/

lemma absorb_sound {pool : Pool S} {held : Option ℕ → List ℕ} (hs : pool.Sound held) (i : ℕ)
    (chunk : Bytes) : (absorb h pool i chunk).Sound held := hs.write

lemma feed_sound {pool : Pool S} {held : Option ℕ → List ℕ} (hs : pool.Sound held) (i : ℕ)
    (f : Option ℕ) (chunk : Bytes) : (feed h pool i f chunk).Sound held := by
  cases f with
  | none => exact absorb_sound hs i chunk
  | some j => exact absorb_sound (absorb_sound hs i chunk) j chunk

lemma feed_heap {pool : Pool S} {i j : ℕ} {f : Option ℕ} {chunk : Bytes}
    (hj : j ∉ (Phase.reading i f).held) : (feed h pool i f chunk).heap j = pool.heap j := by
  rw [Phase.held, List.mem_cons, not_or] at hj
  cases f with
  | none => exact Pool.write_heap_of_ne _ hj.1 _
  | some l =>
      have hl : j ≠ l := fun he => hj.2 (by simp [he])
      rw [feed, absorb, Pool.write_heap_of_ne _ hl, absorb, Pool.write_heap_of_ne _ hj.1]

lemma feed_origin {pool : Pool S} {i : ℕ} {f : Option ℕ} {chunk : Bytes} (hf : i ∉ f.toList) :
    (feed h pool i f chunk).heap i = h.update (pool.heap i) chunk := by
  cases f with
  | none => exact Pool.write_heap_self _ _ _
  | some j =>
      have hne : i ≠ j := fun he => hf (by simp [he])
      rw [feed, absorb, Pool.write_heap_of_ne _ hne, absorb, Pool.write_heap_self]

lemma feed_fused {pool : Pool S} {i j : ℕ} {chunk : Bytes} (hne : j ≠ i) :
    (feed h pool i (some j) chunk).heap j = h.update (pool.heap j) chunk := by
  rw [feed, absorb, Pool.write_heap_self, absorb, Pool.write_heap_of_ne _ hne]

lemma giveAll_heap {pool : Pool S} {i : ℕ} {f : Option ℕ} :
    (giveAll pool i f).heap = pool.heap := by
  cases f with
  | none => exact Pool.give_heap ..
  | some j => rw [giveAll, Pool.give_heap, Pool.give_heap]

lemma giveAll_sound {pool : Pool S} {held : Option ℕ → List ℕ} {o : Option ℕ} {i : ℕ}
    {f : Option ℕ} (hs : pool.Sound held) (ho : held o = (Phase.reading i f).held) :
    (giveAll pool i f).Sound (Function.update held o []) := by
  cases f with
  | none => exact hs.give ho
  | some j =>
      have h1 : Pool.Sound (pool.give IDLE i) _ := hs.give ho
      have h2 : Pool.Sound ((pool.give IDLE i).give IDLE j) _ :=
        h1.give (l := []) (Function.update_self ..)
      rwa [Function.update_idem] at h2

/-! ### Every step keeps the invariant -/

variable {sys : Sys S} {k i : ℕ} {sc : Scan} {past : List Bytes}

/-- What two scans hold differs. -/
lemma Sys.Inv.ne (hi : sys.Inv h H Fed) {l j : ℕ} (hl : l ≠ k) (hj : j ∈ sys.held (some l))
    (hik : i ∈ sys.held (some k)) : j ≠ i := by
  rintro rfl
  exact hl (Option.some.inj (hi.sound.apart hj hik))

lemma inv_begin (hf : h.Faithful H Fed) (hi : sys.Inv h H Fed) (hheld : sys.held (some k) = [i])
    (hread : sc.ReadTo past) (hhead : sc.head.getD [] = past.flatten)
    (hstate : sc.stateless = false) (hfed : Fed (sys.pool.heap i) [])
    (hsniff : SNIFF ≤ past.flatten.length ∨ sc.left = []) : (sys.begin h k sc i).Inv h H Fed := by
  have hmem : i ∈ sys.held (some k) := hheld ▸ List.mem_singleton_self i
  have hcontent : (sc.head.getD []).take SNIFF = sc.source.flatten.take SNIFF := by
    rw [hhead, hread.source, List.flatten_append]
    rcases hsniff with hle | hnil
    · rw [List.take_append_of_le_length hle]
    · rw [hnil, List.flatten_nil, List.append_nil]
  have hsame : Function.update sys.held (some k) [i] = sys.held := by
    rw [← hheld, Function.update_eq_self]
  -- the head is fed to the hasher of the origin
  have hpool : (sc.head.elim sys.pool (feed h sys.pool i none)).Sound sys.held
      ∧ (∀ j, j ≠ i → (sc.head.elim sys.pool (feed h sys.pool i none)).heap j = sys.pool.heap j)
      ∧ Fed ((sc.head.elim sys.pool (feed h sys.pool i none)).heap i) past.flatten := by
    cases hd : sc.head with
    | none =>
        rw [hd, Option.getD_none] at hhead
        exact ⟨hi.sound, fun _ _ => rfl, hhead ▸ hfed⟩
    | some head =>
        rw [hd, Option.getD_some] at hhead
        refine ⟨feed_sound hi.sound i none head, fun j hj => ?_, ?_⟩
        · rw [Option.elim_some, feed_heap (by simp [Phase.held, hj])]
        · rw [Option.elim_some, feed_origin (by simp), ← hhead]
          exact hf.update head hfed
  have hplain : ∀ front, (∀ b ∈ front, b = []) →
      scanPrefixOf sc.size (placementOf sc.size (sc.source.flatten.take SNIFF)) = .ok front →
      (sys.put k (sc.head.elim sys.pool (feed h sys.pool i none))
        { sc with
          placement := some (placementOf sc.size (sc.source.flatten.take SNIFF))
          head := none
          stateless := sc.stateless || front.isNone
          phase := .reading i none }).Inv h H Fed := by
    intro front hempty hchosen
    refine hi.put (hsame.symm ▸ hpool.1) (fun l hl j hj => hpool.2.1 j (hi.ne hl hj hmem)) ?_
    exact .plain past front ⟨hread.source, hread.bytes⟩ rfl
      ⟨rfl, hchosen, by rw [hstate, Bool.false_or]⟩ hempty hpool.2.2
  rw [Sys.begin]
  dsimp only
  rw [hcontent]
  cases hchosen : scanPrefixOf sc.size (placementOf sc.size (sc.source.flatten.take SNIFF)) with
  | error e =>
      refine hi.put (giveAll_sound hi.sound hheld) (fun l hl j hj => ?_) trivial
      rw [giveAll_heap]
  | ok front =>
      cases front with
      | none => exact hplain none (by simp) hchosen
      | some front =>
          cases front with
          | nil => exact hplain (some []) (by simp) hchosen
          | cons b front =>
              have htake : Pool.Sound (sys.pool.take h.create).2 _ := hi.sound.take (some k)
              refine hi.put (htake.perm fun o => ?_) (fun l hl j hj => hi.sound.take_heap hj) ?_
              · by_cases ho : o = some k
                · subst ho
                  rw [Function.update_self, Function.update_self, hheld]
                  exact List.Perm.swap _ _ _
                · rw [Function.update_of_ne ho, Function.update_of_ne ho]
              · refine ⟨past, ⟨hread.source, hread.bytes⟩, hhead, ⟨rfl, hchosen, hstate⟩, ?_⟩
                rw [hi.sound.take_heap hmem]
                exact hfed

/-- A placed scan feeds a chunk to the hashers it holds. -/
lemma inv_feed (hi : sys.Inv h H Fed) {f : Option ℕ}
    (hheld : sys.held (some k) = (Phase.reading i f).held) (hphase : sc.phase = .reading i f)
    {chunk : Bytes} (hgood : sc.Reading Fed (feed h sys.pool i f chunk).heap i f) :
    (sys.put k (feed h sys.pool i f chunk) sc).Inv h H Fed := by
  refine hi.put ?_ (fun l hl j hj => feed_heap fun hmem => ?_) ?_
  · rw [hphase, ← hheld, Function.update_eq_self]
    exact feed_sound hi.sound i f chunk
  · exact hi.ne hl hj (hheld ▸ hmem) rfl
  · rw [Scan.Good, hphase]
    exact hgood

lemma inv_chunk (hf : h.Faithful H Fed) (hi : sys.Inv h H Fed) {f : Option ℕ}
    (hheld : sys.held (some k) = (Phase.reading i f).held) (hphase : sc.phase = .reading i f)
    {chunk : Bytes} {left : List Bytes} (hleft : sc.left = chunk :: left)
    (hr : sc.Reading Fed sys.pool.heap i f) :
    (sys.chunk h k { sc with left := left } i f chunk).Inv h H Fed := by
  have hnext : ∀ {past}, sc.ReadTo past →
      ({ sc with left := left, bytes := sc.bytes + chunk.length } : Scan).ReadTo (past ++ [chunk]) := by
    intro past hread
    refine ⟨by rw [List.append_assoc, List.singleton_append, ← hleft]; exact hread.source, ?_⟩
    change sc.bytes + chunk.length = _
    rw [hread.bytes, List.flatten_append, List.flatten_singleton, List.length_append]
  have hflat : ∀ past : List Bytes, (past ++ [chunk]).flatten = past.flatten ++ chunk := fun past => by
    rw [List.flatten_append, List.flatten_singleton]
  have hphase' : ({ sc with left := left, bytes := sc.bytes + chunk.length } : Scan).phase
      = .reading i f := hphase
  rw [Sys.chunk]
  cases hr with
  | sniffing past hread hhead hplace hstate hlt hfed =>
      have hhead' : sc.head.elim chunk (· ++ chunk) = (past ++ [chunk]).flatten := by
        rw [hflat, ← hhead]
        cases sc.head <;> rfl
      dsimp only
      rw [hplace, Option.isNone_none, if_pos rfl, hhead']
      split
      · next hle =>
          exact inv_begin hf hi hheld ⟨(hnext hread).source, (hnext hread).bytes⟩ rfl hstate hfed
            (Or.inl hle)
      · next hle =>
          refine hi.put ?_ (fun _ _ _ _ => rfl) ?_
          · change sys.pool.Sound (Function.update sys.held (some k) sc.phase.held)
            rw [hphase, ← hheld, Function.update_eq_self]
            exact hi.sound
          · rw [Scan.Good]
            dsimp only
            rw [hphase]
            exact .sniffing _ ⟨(hnext hread).source, (hnext hread).bytes⟩ rfl rfl hstate
              (not_le.mp hle) hfed
  | plain past front hread hhead hdec hfront hfed =>
      have hsome : sc.placement.isNone = false := by rw [hdec.placement, Option.isNone_some]
      dsimp only
      rw [hsome, if_neg Bool.false_ne_true]
      refine inv_feed hi hheld hphase' (.plain _ front (hnext hread) hhead
        ⟨hdec.placement, hdec.chosen, hdec.stateless⟩ hfront ?_)
      rw [feed_origin (by simp), hflat]
      exact hf.update chunk hfed
  | fused past front j hread hhead hdec hfed hfed' =>
      have hne : i ∉ (some j).toList := by
        have hn := hi.sound.nodup (some k)
        rw [hheld] at hn
        exact (List.nodup_cons.mp hn).1
      have hsome : sc.placement.isNone = false := by rw [hdec.placement, Option.isNone_some]
      dsimp only
      rw [hsome, if_neg Bool.false_ne_true]
      refine inv_feed hi hheld hphase' (.fused _ front j (hnext hread) hhead
        ⟨hdec.placement, hdec.chosen, hdec.stateless⟩ ?_ ?_)
      · rw [feed_origin hne, hflat]
        exact hf.update chunk hfed
      · rw [feed_fused (by rintro rfl; exact hne (by simp)), hflat, ← List.append_assoc]
        exact hf.update chunk hfed'

lemma inv_close (hf : h.Faithful H Fed) (hi : sys.Inv h H Fed) {f : Option ℕ}
    (hheld : sys.held (some k) = (Phase.reading i f).held) (hleft : sc.left = [])
    {p : PlacementId} (hp : sc.placement = some p) (hr : sc.Reading Fed sys.pool.heap i f) :
    (sys.close h k sc i f p).Inv h H Fed := by
  rw [Sys.close]
  have hmem : i ∈ sys.held (some k) := hheld ▸ List.mem_cons_self
  have hsource : ∀ {past}, sc.ReadTo past → past.flatten = sc.source.flatten := by
    intro past hread
    rw [hread.source, hleft, List.append_nil]
  refine hi.put ?_ (fun l hl j hj => ?_) ?_
  · refine giveAll_sound ?_ hheld
    exact hi.sound.write
  · rw [giveAll_heap, Pool.write_heap_of_ne _ (hi.ne hl hj hmem)]
  · -- the digest is of the whole content, the state of the prefix and the content
    have hright : ∀ {past : List Bytes} {front : Option Bytes}, sc.ReadTo past → sc.Decided front →
        Fed (sys.pool.heap i) past.flatten →
        (∀ b ∈ front, Fed (sys.pool.heap (f.getD i)) (b ++ past.flatten)) →
        Scan.Right h H Fed { sc with
          phase := .done ⟨bytesToBase64 (h.digest (sys.pool.heap i)).1, p,
            if (sc.stateless || sc.size.any fun n => sc.bytes != n) = true then none
            else some (h.save (sys.pool.heap (f.getD i))), sc.bytes⟩ }
          ⟨bytesToBase64 (h.digest (sys.pool.heap i)).1, p,
            if (sc.stateless || sc.size.any fun n => sc.bytes != n) = true then none
            else some (h.save (sys.pool.heap (f.getD i))), sc.bytes⟩ := by
      intro past front hread hdec hfed hsave
      have hpe : p = placementOf sc.size (sc.source.flatten.take SNIFF) :=
        Option.some.inj (hp.symm.trans hdec.placement)
      refine ⟨?_, hpe, fun st hst => ?_, fun hsize b hb => ?_⟩
      · change bytesToBase64 _ = _
        rw [hf.digest hfed, hsource hread]
      · dsimp only at hst
        split at hst
        · cases hst
        · next hkeep =>
            rw [Bool.or_eq_true, not_or, hdec.stateless] at hkeep
            cases front with
            | none => exact absurd rfl hkeep.1
            | some b =>
                refine ⟨_, b, ?_, hsource hread ▸ hsave b rfl, (Option.some.inj hst).symm⟩
                change scanPrefixOf sc.size p = _
                rw [hpe, hdec.chosen]
      · have hfront : front = some b := by
          have hb' : scanPrefixOf sc.size p = .ok (some b) := hb
          rw [hpe, hdec.chosen] at hb'
          exact Except.ok.inj hb'
        have hsize' : sc.size = some sc.source.flatten.length := hsize
        have hnot : ¬ (sc.stateless || sc.size.any fun n => sc.bytes != n) = true := by
          rw [hdec.stateless, hfront, hsize', hread.bytes, hsource hread]
          simp
        rw [if_neg hnot]
        rfl
    cases hr with
    | sniffing past hread hhead hplace hstate hlt hfed =>
        rw [hp] at hplace
        cases hplace
    | plain past front hread hhead hdec hfront hfed =>
        refine hright hread hdec hfed fun b hb => ?_
        rw [hfront b hb]
        exact hfed
    | fused past front j hread hhead hdec hfed hfed' =>
        refine hright hread hdec hfed fun b hb => ?_
        cases hb
        exact hfed'

lemma inv_advance (hf : h.Faithful H Fed) (hi : sys.Inv h H Fed) (k : ℕ) :
    (sys.advance h k).Inv h H Fed := by
  have hgood := hi.good k
  rw [Sys.advance]
  dsimp only
  rw [Scan.Good] at hgood
  cases hphase : (sys.scans k).phase with
  | opening i =>
      rw [hphase] at hgood
      obtain ⟨hread, hhead, hplace, hstate⟩ := hgood
      have hheld : sys.held (some k) = [i] := by rw [Sys.held, hphase]; rfl
      have hmem : i ∈ sys.held (some k) := hheld ▸ List.mem_singleton_self i
      refine hi.put ?_ (fun l hl j hj => Pool.write_heap_of_ne _ (hi.ne hl hj hmem) _) ?_
      · change Pool.Sound _ (Function.update sys.held (some k) [i])
        rw [← hheld, Function.update_eq_self]
        exact hi.sound.write
      · refine .sniffing [] ⟨hread.source, hread.bytes⟩ (by rw [hhead]; rfl) hplace hstate
          (by decide) ?_
        rw [Pool.write_heap_self]
        exact hf.init _
  | starting i j front =>
      rw [hphase] at hgood
      obtain ⟨past, hread, hhead, hdec, hfed⟩ := hgood
      have hheld : sys.held (some k) = [i, j] := by rw [Sys.held, hphase]; rfl
      have hij : i ≠ j := by
        have hn := hi.sound.nodup (some k)
        rw [hheld] at hn
        simpa using hn
      have hmem : i ∈ sys.held (some k) ∧ j ∈ sys.held (some k) := by simp [hheld]
      dsimp only
      set pool := absorb h (sys.pool.write j (h.init (sys.pool.heap j))) j front with hpool
      have hsound : pool.Sound sys.held := absorb_sound hi.sound.write j front
      have hother : ∀ l, l ≠ j → pool.heap l = sys.pool.heap l := fun l hl => by
        rw [hpool, absorb, Pool.write_heap_of_ne _ hl, Pool.write_heap_of_ne _ hl]
      have hfront : Fed (pool.heap j) front := by
        rw [hpool, absorb, Pool.write_heap_self, Pool.write_heap_self]
        exact hf.update front (hf.init _)
      have hfed' : Fed (pool.heap i) [] := by
        rw [hother i hij]
        exact hfed
      have hend : (sc' : Scan) → sc'.phase = .reading i (some j) →
          Function.update sys.held (some k) sc'.phase.held = sys.held := by
        intro sc' hsc
        rw [hsc]
        change Function.update sys.held (some k) [i, j] = sys.held
        rw [← hheld, Function.update_eq_self]
      cases hd : (sys.scans k).head with
      | none =>
          rw [hd, Option.getD_none] at hhead
          refine hi.put ?_ (fun l hl m hm => hother m (hi.ne hl hm hmem.2)) ?_
          · rw [hend _ rfl]
            exact hsound
          · refine .fused past front j ⟨hread.source, hread.bytes⟩ rfl
              ⟨hdec.placement, hdec.chosen, hdec.stateless⟩ (hhead ▸ hfed') ?_
            rw [← hhead, List.append_nil]
            exact hfront
      | some head =>
          rw [hd, Option.getD_some] at hhead
          refine hi.put ?_ (fun l hl m hm => ?_) ?_
          · rw [hend _ rfl]
            exact feed_sound hsound i (some j) head
          · have hmi := hi.ne hl hm hmem.1
            have hmj := hi.ne hl hm hmem.2
            rw [Option.elim_some, feed_heap (by simp [Phase.held, hmi, hmj]), hother m hmj]
          · refine .fused past front j ⟨hread.source, hread.bytes⟩ rfl
              ⟨hdec.placement, hdec.chosen, hdec.stateless⟩ ?_ ?_
            · rw [Option.elim_some, feed_origin (by simpa using hij), ← hhead]
              exact hf.update head hfed'
            · rw [Option.elim_some, feed_fused hij.symm, ← hhead]
              exact hf.update head hfront
  | reading i f =>
      rw [hphase] at hgood
      have hheld : sys.held (some k) = (Phase.reading i f).held := by rw [Sys.held, hphase]
      dsimp only
      cases hleft : (sys.scans k).left with
      | cons chunk left =>
          have hstep := inv_chunk hf hi hheld hphase hleft hgood
          rw [hphase] at hstep
          exact hstep
      | nil =>
          cases hplace : (sys.scans k).placement with
          | some p => exact inv_close hf hi hheld hleft hplace hgood
          | none =>
              cases hgood with
              | sniffing past hread hhead _ hstate hlt hfed =>
                  exact inv_begin hf hi hheld hread hhead hstate hfed (Or.inr hleft)
              | plain past front hread hhead hdec hfront hfed =>
                  cases hplace.symm.trans hdec.placement
              | fused past front j hread hhead hdec hfed hfed' =>
                  cases hplace.symm.trans hdec.placement
  | _ => exact hi

lemma inv_finish (hf : h.Faithful H Fed) (hi : sys.Inv h H Fed) (state suffix : Bytes) :
    (sys.finish h state suffix).Inv h H Fed := by
  rw [Sys.finish]
  -- the finisher's hasher is no scan's
  have hmade : ∀ made : ℕ × Pool S, made = (match sys.finisher with
      | some i => (i, sys.pool)
      | none => sys.pool.make h.create) →
      made.2.Sound (Function.update sys.held none [made.1])
        ∧ ∀ l, ∀ j ∈ sys.held (some l), made.2.heap j = sys.pool.heap j ∧ j ≠ made.1 := by
    rintro made rfl
    cases hfin : sys.finisher with
    | some i =>
        have hheld : sys.held none = [i] := by rw [Sys.held, hfin]; rfl
        refine ⟨?_, fun l j hj => ⟨rfl, ?_⟩⟩
        · rw [← hheld, Function.update_eq_self]
          exact hi.sound
        · rintro rfl
          cases hi.sound.apart hj (hheld ▸ List.mem_singleton_self _)
    | none =>
        have hheld : sys.held none = [] := by rw [Sys.held, hfin]; rfl
        have hmake : Pool.Sound (sys.pool.make h.create).2 _ := hi.sound.make none
        rw [hheld] at hmake
        refine ⟨hmake, fun l j hj => ?_⟩
        have hlt : j < sys.pool.next := hi.sound.held_lt hj
        exact ⟨Function.update_of_ne hlt.ne .., hlt.ne⟩
  set made := (match sys.finisher with
    | some i => (i, sys.pool)
    | none => sys.pool.make h.create) with hdef
  obtain ⟨hsound, hother⟩ := hmade made hdef
  refine ⟨?_, fun l => (hi.good l).congr fun j hj => ?_, fun e he s xs hs hfed => ?_⟩
  · refine (hsound.write).perm fun o => List.Perm.of_eq ?_
    cases o with
    | none => rfl
    | some l => rfl
  · have hj' := hother l j hj
    exact (Pool.write_heap_of_ne _ hj'.2 _).trans hj'.1
  · rcases List.mem_cons.mp he with rfl | he
    · have hdigest := hf.digest (hf.update suffix (hf.load (made.2.heap made.1) hfed))
      dsimp only at hs ⊢
      rw [hs, hdigest]
    · exact hi.finished e he s xs hs hfed

lemma inv_step (hf : h.Faithful H Fed) (hi : sys.Inv h H Fed) (a : Act) :
    (sys.step h a).Inv h H Fed := by
  cases a with
  | call k size chunks =>
      rw [Sys.step]
      split
      · next hphase =>
          have htake : Pool.Sound (sys.pool.take h.create).2 _ := hi.sound.take (some k)
          have hheld : sys.held (some k) = [] := by rw [Sys.held, hphase]; rfl
          rw [hheld] at htake
          exact hi.put htake (fun l hl j hj => hi.sound.take_heap hj) ⟨⟨rfl, rfl⟩, rfl, rfl, rfl⟩
      · exact hi
  | advance k => exact inv_advance hf hi k
  | fail k =>
      rw [Sys.step, Sys.fail]
      split
      · next i f hphase =>
          refine hi.put (giveAll_sound hi.sound ?_) (fun l hl j hj => ?_) trivial
          · rw [Sys.held, hphase]
          · rw [giveAll_heap]
      · exact hi
  | finish state suffix => exact inv_finish hf hi state suffix

/-- Every run keeps hashers apart and fed as they should be. -/
lemma inv_run (hf : h.Faithful H Fed) (acts : List Act) : (Sys.run h acts).Inv h H Fed := by
  have hnone : ∀ o, (Sys.start h).held o = [] := fun o => by cases o <;> rfl
  have hout : ∀ {o j}, j ∉ (Sys.start h).held o := fun {o j} hj => by
    rw [hnone] at hj
    exact List.not_mem_nil hj
  have hstart : (Sys.start h).Inv h H Fed := by
    refine ⟨⟨fun o => ?_, fun hj => absurd hj hout, List.nodup_nil,
      fun hj => absurd hj List.not_mem_nil, fun hj => absurd hj List.not_mem_nil,
      fun hj => absurd hj hout⟩, fun _ => trivial, fun e he => absurd he List.not_mem_nil⟩
    rw [hnone]
    exact List.nodup_nil
  have hfold : ∀ sys : Sys S, sys.Inv h H Fed → (acts.foldl (Sys.step h) sys).Inv h H Fed := by
    induction acts with
    | nil => exact fun _ hi => hi
    | cons a acts ih => exact fun sys hi => ih _ (inv_step hf hi a)
  exact hfold _ hstart

/-! ### A scan keeps its source, and ends -/

/-- What a step leaves of a scan, where `fails` says that its stream throws. -/
structure Scan.Keeps (fails : Prop) (sc sc' : Scan) : Prop where
  source : sc'.source = sc.source
  size : sc'.size = sc.size
  called : sc.phase ≠ .idle → sc'.phase ≠ .idle
  failed : sc'.phase = .failed → sc.phase = .failed ∨ fails

lemma Scan.Keeps.refl {fails : Prop} (sc : Scan) : sc.Keeps fails sc := ⟨rfl, rfl, id, Or.inl⟩

lemma keeps_put {fails : Prop} {pool : Pool S} {l : ℕ}
    (hk : l = k → (sys.scans k).Keeps fails sc) :
    (sys.scans l).Keeps fails ((sys.put k pool sc).scans l) := by
  by_cases hl : l = k
  · subst hl
    have hself : (sys.put l pool sc).scans l = sc := Function.update_self ..
    rw [hself]
    exact hk rfl
  · have hother : (sys.put k pool sc).scans l = sys.scans l := Function.update_of_ne hl ..
    rw [hother]
    exact .refl _

lemma keeps_begin {fails : Prop} (hk : (sys.scans k).Keeps fails sc) (l : ℕ) :
    (sys.scans l).Keeps fails ((sys.begin h k sc i).scans l) := by
  obtain ⟨front, hfront⟩ := scanPrefixOf_ok sc.size ((sc.head.getD []).take SNIFF)
  rw [Sys.begin, hfront]
  dsimp only
  split
  · next he => cases he
  · refine keeps_put fun _ => ?_
    exact ⟨hk.source, hk.size, fun _ => by rintro ⟨⟩, by rintro ⟨⟩⟩
  · refine keeps_put fun _ => ?_
    exact ⟨hk.source, hk.size, fun _ => by rintro ⟨⟩, by rintro ⟨⟩⟩

lemma keeps_advance {fails : Prop} (k l : ℕ) :
    (sys.scans l).Keeps fails ((sys.advance h k).scans l) := by
  rw [Sys.advance]
  dsimp only
  split
  · refine keeps_put fun _ => ?_
    exact ⟨rfl, rfl, fun _ => by rintro ⟨⟩, by rintro ⟨⟩⟩
  · refine keeps_put fun _ => ?_
    exact ⟨rfl, rfl, fun _ => by rintro ⟨⟩, by rintro ⟨⟩⟩
  · split
    · rw [Sys.chunk]
      dsimp only
      split
      · split
        · refine keeps_begin ?_ l
          exact ⟨rfl, rfl, id, Or.inl⟩
        · refine keeps_put fun _ => ?_
          exact ⟨rfl, rfl, id, Or.inl⟩
      · refine keeps_put fun _ => ?_
        exact ⟨rfl, rfl, id, Or.inl⟩
    · split
      · exact keeps_begin (.refl _) l
      · refine keeps_put fun _ => ?_
        exact ⟨rfl, rfl, fun _ => by rintro ⟨⟩, by rintro ⟨⟩⟩
  · exact .refl _

/-- A call leaves the other scans, and those that were called before. -/
lemma keeps_step (a : Act) (l : ℕ) (hl : (sys.scans l).phase ≠ .idle) :
    (sys.scans l).Keeps (a = .fail l) ((sys.step h a).scans l) := by
  cases a with
  | call k size chunks =>
      rw [Sys.step]
      split
      · next hphase =>
          refine keeps_put ?_
          rintro rfl
          exact absurd hphase hl
      · exact .refl _
  | advance k => exact keeps_advance k l
  | fail k =>
      rw [Sys.step, Sys.fail]
      split
      · refine keeps_put ?_
        rintro rfl
        exact ⟨rfl, rfl, fun _ => by rintro ⟨⟩, fun _ => Or.inr rfl⟩
      · exact .refl _
  | finish state suffix => exact .refl _

/-- A scan was called. -/
structure Called (h : Hasher S) (acts : List Act) (k : ℕ) (size : Option ℕ) (chunks : List Bytes) :
    Prop where
  exists_call : ∃ before after, acts = before ++ .call k size chunks :: after
    ∧ ((Sys.run h before).scans k).phase = .idle

lemma Called.keeps {acts : List Act} {size : Option ℕ} {chunks : List Bytes}
    (hc : Called h acts k size chunks) : ((Sys.run h acts).scans k).source = chunks
      ∧ ((Sys.run h acts).scans k).size = size ∧ ((Sys.run h acts).scans k).phase ≠ .idle
      ∧ (((Sys.run h acts).scans k).phase = .failed → .fail k ∈ acts) := by
  obtain ⟨before, after, rfl, hidle⟩ := hc.exists_call
  have hcall : ∃ pool sc, (Sys.run h before).step h (.call k size chunks)
      = (Sys.run h before).put k pool sc ∧ sc.source = chunks ∧ sc.size = size
      ∧ sc.phase ≠ .idle ∧ sc.phase ≠ .failed := by
    rw [Sys.step, hidle]
    exact ⟨_, _, rfl, rfl, rfl, by rintro ⟨⟩, by rintro ⟨⟩⟩
  obtain ⟨pool, sc, hstep, hsource, hsize, hphase, hfine⟩ := hcall
  have hself : ((Sys.run h before).put k pool sc).scans k = sc := Function.update_self ..
  have hrest : ∀ (after : List Act) (sys : Sys S), (sys.scans k).phase ≠ .idle →
      (sys.scans k).Keeps (.fail k ∈ after) ((after.foldl (Sys.step h) sys).scans k) := by
    intro after
    induction after with
    | nil => exact fun _ _ => .refl _
    | cons a after ih =>
        intro sys hidle
        have hk := keeps_step (h := h) a k hidle
        have hk' := ih (sys.step h a) (hk.called hidle)
        refine ⟨hk'.source.trans hk.source, hk'.size.trans hk.size, fun _ => hk'.called
          (hk.called hidle), fun hfail => ?_⟩
        rcases hk'.failed hfail with hfail | hmem
        · rcases hk.failed hfail with hfail | rfl
          · exact Or.inl hfail
          · exact Or.inr List.mem_cons_self
        · exact Or.inr (List.mem_cons_of_mem _ hmem)
  rw [Sys.run, List.foldl_append, List.foldl_cons]
  rw [Sys.run] at hstep hself
  rw [hstep]
  have hk := hrest after (Sys.put _ k pool sc) (hself.symm ▸ hphase)
  rw [hself] at hk
  refine ⟨hk.source.trans hsource, hk.size.trans hsize, hk.called hphase, fun hfail => ?_⟩
  have hmem := (hk.failed hfail).resolve_left hfine
  exact List.mem_append_right _ (List.mem_cons_of_mem _ hmem)

end Invariant

/-! ### A scan ends -/

section Ends

variable {S : Type*} {h : Hasher S} {H : HashFn} {Fed : S → Bytes → Prop} {sys : Sys S} {k i : ℕ}
  {sc : Scan}

/-- The steps that are left at most. -/
def Scan.weight (sc : Scan) : ℕ :=
  match sc.phase with
  | .opening _ => 2 * sc.left.length + 4
  | .reading _ _ => 2 * sc.left.length + if sc.placement.isNone then 3 else 1
  | .starting _ _ _ => 2 * sc.left.length + 2
  | _ => 0

/-- A scan goes on, or has returned. -/
def Scan.Ends (sc : Scan) (w : ℕ) : Prop :=
  sc.weight < w ∧ (0 < sc.weight ∨ ∃ r, sc.phase = .done r)

lemma ends_put {pool : Pool S} {w : ℕ} (he : sc.Ends w) :
    ((sys.put k pool sc).scans k).Ends w := by
  have hself : (sys.put k pool sc).scans k = sc := Function.update_self ..
  rw [hself]
  exact he

lemma ends_begin : ((sys.begin h k sc i).scans k).Ends (2 * sc.left.length + 3) := by
  obtain ⟨front, hfront⟩ := scanPrefixOf_ok sc.size ((sc.head.getD []).take SNIFF)
  rw [Sys.begin, hfront]
  rcases front with _ | _ | ⟨b, front⟩
  · refine ends_put ⟨?_, Or.inl ?_⟩ <;> simp [Scan.weight]
  · refine ends_put ⟨?_, Or.inl ?_⟩ <;> simp [Scan.weight]
  · refine ends_put ⟨?_, Or.inl ?_⟩ <;> simp [Scan.weight]

lemma ends_advance (hi : sys.Inv h H Fed) (hlive : 0 < (sys.scans k).weight) :
    ((sys.advance h k).scans k).Ends (sys.scans k).weight := by
  have hgood := hi.good k
  rw [Scan.Good] at hgood
  rw [Sys.advance]
  rw [Scan.weight] at hlive
  cases hphase : (sys.scans k).phase with
  | opening i =>
      rw [hphase] at hgood
      refine ends_put ⟨?_, Or.inl ?_⟩ <;> simp [Scan.weight, hphase, hgood.2.2.1]
  | starting i j front =>
      rw [hphase] at hgood
      obtain ⟨past, -, -, hdec, -⟩ := hgood
      refine ends_put ⟨?_, Or.inl ?_⟩ <;> simp [Scan.weight, hphase, hdec.placement]
  | reading i f =>
      rw [hphase] at hgood
      dsimp only
      cases hleft : (sys.scans k).left with
      | cons chunk left =>
          dsimp only
          rw [Sys.chunk]
          dsimp only
          cases hplace : (sys.scans k).placement with
          | none =>
              rw [Option.isNone_none, if_pos rfl]
              split
              · have hbegin := @ends_begin S h sys k i
                  { sys.scans k with
                    left := left
                    bytes := (sys.scans k).bytes + chunk.length
                    head := some ((sys.scans k).head.elim chunk (· ++ chunk)) }
                dsimp only at hbegin
                rw [hplace] at hbegin
                refine ⟨hbegin.1.trans ?_, hbegin.2⟩
                simp [Scan.weight, hphase, hleft, hplace]
              · refine ends_put ⟨?_, Or.inl ?_⟩ <;> simp [Scan.weight, hphase, hleft, hplace]
          | some p =>
              rw [Option.isNone_some, if_neg Bool.false_ne_true]
              refine ends_put ⟨?_, Or.inl ?_⟩ <;> simp [Scan.weight, hphase, hleft, hplace]
      | nil =>
          dsimp only
          cases hplace : (sys.scans k).placement with
          | none =>
              have hbegin := @ends_begin S h sys k i (sys.scans k)
              refine ⟨hbegin.1.trans_le ?_, hbegin.2⟩
              simp [Scan.weight, hphase, hleft, hplace]
          | some p =>
              refine ends_put ⟨?_, Or.inr ⟨_, rfl⟩⟩
              simp [Scan.weight, hphase, hleft, hplace]
  | _ =>
      rw [hphase] at hlive
      cases hlive

/-- A scan that goes on returns after some more of its steps. -/
lemma exists_done (hf : h.Faithful H Fed) : ∀ (w : ℕ) (sys : Sys S), sys.Inv h H Fed →
    (sys.scans k).weight ≤ w → (0 < (sys.scans k).weight ∨ ∃ r, (sys.scans k).phase = .done r) →
    ∃ n r, (((List.replicate n (Act.advance k)).foldl (Sys.step h) sys).scans k).phase = .done r := by
  intro w
  induction w with
  | zero =>
      intro sys _ hw hlive
      obtain ⟨r, hr⟩ := hlive.resolve_left (by omega)
      exact ⟨0, r, hr⟩
  | succ w ih =>
      intro sys hi hw hlive
      rcases hlive with hlive | ⟨r, hr⟩
      · obtain ⟨hlt, hnext⟩ := ends_advance hi hlive
        obtain ⟨n, r, hr⟩ := ih _ (inv_advance hf hi k) (by omega) hnext
        exact ⟨n + 1, r, hr⟩
      · exact ⟨0, r, hr⟩

/-- What a placement of a content is, and the build it finishes to. -/
structure Result.Finishes (h : Hasher S) (H : HashFn) (content : Bytes) (r : Result) : Prop where
  digest : r.digestB64 = bytesToBase64 (H content)
  placement : r.placement = treePlacementFor content.length (content.take SNIFF)
  saved : r.state.isSome = true
  finished : ∀ commitment : Bytes, commitment.length = 32 → ∃ b frame,
    r.placement.Places H content commitment b
      ∧ r.placement.frame? content.length (H content) commitment = some (.ok frame)
      ∧ ∀ acts, ∀ e ∈ (Sys.run h acts).finished, r.state = some e.state →
        e.suffix = frame.suffix → e.digest = H b

/-- A placement of a file of a tree, with its front. -/
lemma treePlacementFor_places {content commitment : Bytes} (hc : commitment.length = 32) :
    ∃ b front, (treePlacementFor content.length (content.take SNIFF)).Places H content commitment b
      ∧ (treePlacementFor content.length (content.take SNIFF)).scanPrefix content.length
        = .ok (some front) := by
  obtain ⟨hcases, hfits, front, hfront⟩ :=
    treePlacementFor_fits content.length (content.take SNIFF)
  rcases hcases with hp | hp
  · rw [hp] at hfront ⊢
    exact ⟨_, front, PlacementId.places_trailer hc, hfront⟩
  · rw [hp] at hfits hfront ⊢
    obtain ⟨b, hb⟩ := (PlacementId.places_container hc (hfits.resolve_left (by rintro ⟨⟩))).2
    exact ⟨b, front, hb, hfront⟩

/-- A scan that has returned, with its size given. -/
lemma finishes_of_done (hf : h.Faithful H Fed) {acts : List Act} {chunks : List Bytes}
    (hc : Called h acts k (some chunks.flatten.length) chunks) {r : Result}
    (hr : ((Sys.run h acts).scans k).phase = .done r) : r.Finishes h H chunks.flatten := by
  obtain ⟨hsource, hsize, -, -⟩ := hc.keeps
  have hgood := (inv_run hf acts).good k
  rw [Scan.Good, hr] at hgood
  have hplace : r.placement = treePlacementFor chunks.flatten.length (chunks.flatten.take SNIFF) := by
    rw [hgood.placement, hsource, hsize]
    rfl
  refine ⟨by rw [hgood.digest, hsource], hplace, ?_, fun commitment hlen => ?_⟩
  · obtain ⟨-, -, front, hfront⟩ :=
      treePlacementFor_fits chunks.flatten.length (chunks.flatten.take SNIFF)
    refine hgood.saves (by rw [hsource, hsize]) front ?_
    rw [hsize, hplace]
    exact hfront
  · -- the state is of the frame's front and the content, so the suffix completes the build
    obtain ⟨b, -, hb, -⟩ := @treePlacementFor_places H chunks.flatten commitment hlen
    rw [← hplace] at hb
    obtain ⟨frame, hframe, hcut⟩ := hb.framed
    refine ⟨b, frame, hb, hframe, fun acts' e he hst hsuffix => ?_⟩
    obtain ⟨s, front, hfront, hfed, hsave⟩ := hgood.saved _ hst
    have hsame : frame.front = front := by
      refine front_eq_scanPrefix hframe ?_
      rw [hsize] at hfront
      exact hfront
    rw [hsource] at hfed
    calc e.digest = H ((front ++ chunks.flatten) ++ e.suffix) :=
          (inv_run hf acts').finished e he s _ hsave hfed
      _ = H b := by rw [hcut, hsame, hsuffix]

end Ends

section Main

variable {S : Type*} {h : Hasher S} {H : HashFn} {Fed : S → Bytes → Prop} {k : ℕ}
  {acts : List Act} {chunks : List Bytes}

/-- **A scanned file finishes to its committed digest.** However its chunks are cut and whatever
runs beside it, a scan with its size given returns the digest and the placement of its content, as a
scan of one chunk does, and a state; and a finish of that state with the suffix of the placement's
frame returns the hash of what the placement builds. Unless its stream throws, it returns. -/
theorem scan_finishes (hf : h.Faithful H Fed)
    (hc : Called h acts k (some chunks.flatten.length) chunks) :
    (.fail k ∉ acts → ∃ n r,
        ((Sys.run h (acts ++ List.replicate n (.advance k))).scans k).phase = .done r)
      ∧ ∀ r, ((Sys.run h acts).scans k).phase = .done r →
        r.digestB64 = bytesToBase64 (H chunks.flatten)
          ∧ r.placement = treePlacementFor chunks.flatten.length (chunks.flatten.take SNIFF)
          ∧ r.state.isSome = true
          ∧ (∀ acts' k' r',
            Called h acts' k' (some chunks.flatten.length) [chunks.flatten] →
            ((Sys.run h acts').scans k').phase = .done r' →
            r'.digestB64 = r.digestB64 ∧ r'.placement = r.placement)
          ∧ ∀ commitment : Bytes, commitment.length = 32 → ∃ b frame,
            r.placement.build H (some chunks.flatten) none commitment = .ok b
              ∧ r.placement.frame? chunks.flatten.length (H chunks.flatten) commitment
                = some (.ok frame)
              ∧ ∀ acts', ∀ e ∈ (Sys.run h acts').finished, r.state = some e.state →
                e.suffix = frame.suffix → e.digest = H b := by
  obtain ⟨hsource, hsize, hidle, hfailed⟩ := hc.keeps
  constructor
  · intro hfail
    have hlive : 0 < ((Sys.run h acts).scans k).weight
        ∨ ∃ r, ((Sys.run h acts).scans k).phase = .done r := by
      rw [Scan.weight]
      cases hphase : ((Sys.run h acts).scans k).phase with
      | idle => exact absurd hphase hidle
      | failed => exact absurd (hfailed hphase) hfail
      | done r => exact Or.inr ⟨r, rfl⟩
      | opening i => exact Or.inl (Nat.succ_pos _)
      | starting i j front => exact Or.inl (Nat.succ_pos _)
      | reading i f =>
          left
          dsimp only
          split <;> exact Nat.succ_pos _
    obtain ⟨n, r, hr⟩ := exists_done hf _ _ (inv_run hf acts) le_rfl hlive
    refine ⟨n, r, ?_⟩
    rw [Sys.run, List.foldl_append]
    exact hr
  · intro r hr
    have hright := finishes_of_done hf hc hr
    refine ⟨hright.digest, hright.placement, hright.saved, fun acts' k' r' hc' hr' => ?_,
      fun commitment hlen => ?_⟩
    · have hone : [chunks.flatten].flatten = chunks.flatten := List.flatten_singleton
      have hright' := finishes_of_done hf (by rwa [hone]) hr'
      rw [hone] at hright'
      exact ⟨hright'.digest.trans hright.digest.symm,
        hright'.placement.trans hright.placement.symm⟩
    · obtain ⟨b, frame, hb, hframe, hfinish⟩ := hright.finished commitment hlen
      exact ⟨b, frame, hb.built, hframe, hfinish⟩

/-- A hasher that keeps what it was fed. -/
def sampleHasher : Hasher Bytes where
  create := []
  init := fun _ => []
  update := fun s ys => s ++ ys
  save := id
  load := fun _ s => s
  digest := fun s => (sha256 s, s)

lemma faithful_sampleHasher : sampleHasher.Faithful sha256 fun s xs => s = xs where
  init := fun _ => rfl
  update := fun _ hs => hs ▸ rfl
  load := fun _ hs => hs
  digest := fun hs => hs ▸ rfl

def sampleChunks : List Bytes := [[1], [], [2]]

theorem scan_finishes_sample : ∃ n r, ((Sys.run sampleHasher
    ([.call 0 (some 2) sampleChunks] ++ List.replicate n (.advance 0))).scans 0).phase
      = .done r := by
  have hc : Called sampleHasher [.call 0 (some 2) sampleChunks] 0
      (some sampleChunks.flatten.length) sampleChunks := ⟨[], [], rfl, rfl⟩
  exact (scan_finishes faithful_sampleHasher hc).1 (by simp)

end Main

end ScanHash

end BitGraph
