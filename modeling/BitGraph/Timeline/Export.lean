import BitGraph.Lib.Best
import BitGraph.Timeline.BundleSound

/-!
`timeline-export.ts`: a bundle for a file, from the timeline's records.

* **The records.** `recordsOf` sorts the records of the file's epoch by count.
* **The bracket.** `pick` chooses the floor and the ceiling of one chain by the labels of the block
  files and the times of the attestations; `choose` tries Base, then Ethereum, then the read right
  before the file.
* **The bundle.** `buildTimelineBundle` cuts the run from the floor to the ceiling. A `Plan` is what
  it cuts by, `Plan.bundle` the bundle.
* **What is cut.** `cut_of_build`: the floor is the highest read of the run before the file, and
  the ceiling the first after it that qualifies by its label.
-/

namespace BitGraph

open Js

namespace TimelineBundle

open BlockRead EpochGenesis

/-! ### The records -/

inductive RecordKind where
  | block
  | file
  | genesis
  deriving DecidableEq

/-- One record of the timeline, as the parent's journal keeps it. A proof is an object with a
`commit`. -/
structure TimelineRecordLine where
  kind : RecordKind
  proof : Value
  blockFile : Option Str
  genesisFile : Option Str
  proof_isObject : isObject proof = true
  commit_isObject : isObject (proof.get (js "commit")) = true
  deriving DecidableEq

/-- `nitroTimeMs` reads the time of an attestation without verifying it. An array has fewer than
`2^32` elements. -/
structure BuildArgs where
  lines : List TimelineRecordLine
  length_lt : lines.length < 2 ^ 32
  counter : Str
  genesis : Option TimelineRecordLine
  lagLimits : BlockReadChain → Option LagLimit
  nitroTimeMs : Value → Option ℤ

namespace TimelineRecordLine

variable (l : TimelineRecordLine)

def commit : Value := l.proof.get (js "commit")

def isAt (counter : Str) : Bool := l.commit.get (js "counter") == .str counter

/-- `BigInt(l.proof.commit.counter ?? "0")`. -/
def count : Except Thrown ℤ := do
  match bigInt? (orElse (← l.commit.prop (js "counter")) (.str (js "0"))) with
  | some n => return n
  | none => throw (syntaxError (js "Cannot convert the counter to a BigInt"))

/-- The text of a block record's file. -/
def block? : Option Str := if l.kind = .block then l.blockFile else none

def read? : Option BlockReadFile := l.block?.bind parseBlockReadFile

end TimelineRecordLine

/-- The records of an epoch, in counter order; one record alone is not compared. -/
def recordsOf (lines : List TimelineRecordLine) (epochId : Value) :
    Except Thrown (List TimelineRecordLine) := do
  let own := lines.filter fun l => l.commit.get (js "epochId") == epochId
  if own.length < 2 then return own
  let keyed ← own.mapM fun l => do return ((← l.count), l)
  return (keyed.insertionSort fun a b => a.1 ≤ b.1).map Prod.snd

/-! ### The bracket -/

structure Chosen where
  chain : BlockReadChain
  floor : ℕ
  ceiling : Option ℕ
  deriving DecidableEq

/-- `a <= b` on numbers; nothing compares with NaN. -/
def numberLe (a b : Number) : Bool := a != .nan && b != .nan && !Number.lt b a

section Build

variable (H : HashFn) (args : BuildArgs)

def readAt (lines : List TimelineRecordLine) (i : ℕ) : Option BlockReadFile :=
  lines[i]?.bind fun l => l.read?

/-- The highest read of a chain before the file and no later than it. -/
def pickFloor (lines : List TimelineRecordLine) (t : ℕ) (fileMs : ℤ) (chain : BlockReadChain) :
    Option (ℕ × BlockReadFile) :=
  let reads := (List.range t).filterMap fun i =>
    ((readAt lines i).filter fun f => f.chain = chain ∧ (f.timestamp : ℤ) * 1000 ≤ fileMs).map fun f => (i, f)
  reads.foldl (fun best r => if best.all (fun y => y.2.number < r.2.number) then some r else best) none

/-- A read after the file that qualifies as the ceiling. -/
def qualifies (lines : List TimelineRecordLine) (fileMs : ℤ) (floor : BlockReadFile) (i : ℕ) : Bool :=
  match readAt lines i, lines[i]?.bind fun l => args.nitroTimeMs l.proof with
  | some f, some at_ =>
    let lim := (args.lagLimits floor.chain).getD (defaultLagLimits floor.chain)
    decide (f.chain = floor.chain) && decide (fileMs < (f.timestamp : ℤ) * 1000) &&
      decide (floor.number < f.number) && numberLe (lagOf at_ f.timestamp) lim.maxS &&
      numberLe lim.minS (lagOf at_ f.timestamp)
  | _, _ => false

def pickCeiling (lines : List TimelineRecordLine) (t : ℕ) (fileMs : ℤ) (floor : BlockReadFile) :
    Option ℕ :=
  (List.range' (t + 1) (lines.length - (t + 1))).find? (qualifies args lines fileMs floor)

/-- The bracket on one chain, or why there is none. -/
def pick (lines : List TimelineRecordLine) (t : ℕ) (fileMs : ℤ) (chain : BlockReadChain) :
    Except Str Chosen :=
  match pickFloor lines t fileMs chain with
  | none => .error (js "no " ++ chain.name ++ js " read before the file in these records")
  | some (i, f) =>
    match pickCeiling args lines t fileMs f with
    | none => .error (js "no qualifying " ++ chain.name ++ js " ceiling after the file yet")
    | some c => .ok ⟨chain, i, some c⟩

/-- The read right before the file, when it is the floor the host bound for that drop. -/
def ownFloor (lines : List TimelineRecordLine) (t : ℕ) (fileMs : ℤ) : Option Chosen :=
  match t with
  | 0 => none
  | k + 1 =>
    match readAt lines k with
    | some f => if f.chain = .base ∧ (f.timestamp : ℤ) * 1000 ≤ fileMs then some ⟨.base, k, none⟩ else none
    | none => none

def choose (lines : List TimelineRecordLine) (t : ℕ) (fileMs : ℤ) : Except (List Str) (Chosen × List Str) :=
  match pick args lines t fileMs .base with
  | .ok c => .ok (c, [])
  | .error why =>
    match pick args lines t fileMs .ethereum with
    | .ok c => .ok (c, [js "bracketed on Ethereum: Base had no qualifying ceiling", why])
    | .error why' =>
      match ownFloor lines t fileMs with
      | some c => .ok (c, [])
      | none => .error [why, why']

/-! ### The bundle -/

structure BuildFailure where
  retryable : Bool
  reason : Str

/-- What a bundle is cut by: the records, the place of the file and the bracket. -/
structure Plan where
  lines : List TimelineRecordLine
  t : ℕ
  chosen : Chosen
  notes : List Str
  genesis : Option (Value × Str)
  deriving DecidableEq

/-- The records from the floor to the ceiling, or to the file. -/
def Plan.run (p : Plan) : List TimelineRecordLine :=
  (p.lines.take (p.chosen.ceiling.getD p.t + 1)).drop p.chosen.floor

def Plan.blockFiles (p : Plan) : Fields :=
  p.run.zipIdx.filterMap fun m => m.1.block?.map fun text => (decimal m.2, .str text)

def Plan.bundle (p : Plan) : Value :=
  .obj ([(js "format", .str timelineBundleFormat),
    (js "proofs", .arr (p.run.map fun l => l.proof)),
    (js "target", .num (.ofNat (p.t - p.chosen.floor))),
    (js "blockFiles", .obj p.blockFiles)] ++
    match p.genesis with
    | some (proof, file) => [(js "genesis", .obj [(js "proof", proof), (js "file", .str file)])]
    | none => [])

/-- The genesis record with its file. -/
def genesisOf (genesis : Option TimelineRecordLine) : Option (Value × Str) :=
  genesis.bind fun g => if g.kind = .genesis then g.genesisFile.map fun file => (g.proof, file) else none

def joinReasons (rs : List Str) : Str := List.intercalate (js "; ") rs

def buildTimelineBundle : Except Thrown (Except BuildFailure Plan) := do
  match args.lines.find? fun l => l.isAt args.counter with
  | none => return .error ⟨false, js "no record at count " ++ args.counter ++ js " in the records given"⟩
  | some target =>
    if target.kind = .block then return .error ⟨false, js "that record is a block read, not a file"⟩
    let lines ← recordsOf args.lines (target.commit.get (js "epochId"))
    let t := lines.findIdx fun l => l.isAt args.counter
    match args.nitroTimeMs target.proof with
    | none => return .error ⟨false, js "the file's attestation time cannot be read"⟩
    | some fileMs =>
      match choose args lines t fileMs with
      | .error why => return .error ⟨true, js "not ready: " ++ joinReasons why⟩
      | .ok (chosen, notes) =>
        let plan : Plan := ⟨lines, t, chosen, notes, genesisOf args.genesis⟩
        let s ← verifyStretch H (plan.run.map fun l => l.proof)
        match s.reasons with
        | reason :: _ => return .error ⟨false, js "the records are not one unbroken run: " ++ reason⟩
        | [] => return .ok { plan with notes := notes ++
            if plan.genesis.isNone then [js "no genesis record for this epoch: the bundle cannot verify fully"] else [] }

end Build

/-! ### The place of the file -/

section Sorted

variable {α : Type} {r : α → α → Prop} [DecidableRel r] {p : α → Bool}

lemma find?_orderedInsert (a : α) {l : List α} (h : ∀ b ∈ l, p a = true → p b = true → r a b) :
    (l.orderedInsert r a).find? p = (a :: l).find? p := by
  induction l with
  | nil => rfl
  | cons b l ih =>
      rw [List.orderedInsert_cons]
      split
      · rfl
      · next hab =>
        obtain ⟨hb, hl⟩ := List.forall_mem_cons.mp h
        rw [List.find?_cons, ih hl, List.find?_cons, List.find?_cons, List.find?_cons]
        by_cases ha : p a = true
        · have hpb : p b = false := by
            by_contra hpb
            exact hab (hb ha (Bool.not_eq_false _ ▸ hpb))
          simp [ha, hpb]
        · rw [Bool.not_eq_true] at ha
          simp only [ha]

/-- Sorting keeps the first of elements that are level. -/
lemma find?_insertionSort {l : List α}
    (h : ∀ a ∈ l, ∀ b ∈ l, p a = true → p b = true → r a b) :
    (l.insertionSort r).find? p = l.find? p := by
  induction l with
  | nil => rfl
  | cons a l ih =>
      obtain ⟨ha, hl⟩ := List.forall_mem_cons.mp h
      rw [List.insertionSort_cons, find?_orderedInsert, List.find?_cons, List.find?_cons,
        ih fun b hb c hc => hl b hb c (List.mem_cons_of_mem _ hc)]
      intro b hb
      exact ha b (List.mem_cons_of_mem _ ((List.perm_insertionSort r l).mem_iff.mp hb))

end Sorted

lemma map_of_forall₂ {α β : Type} {R : α → β → Prop} {l : List α} {m : List β} {f : β → α}
    (h : List.Forall₂ R l m) (hf : ∀ a b, R a b → f b = a) : m.map f = l := by
  induction h with
  | nil => rfl
  | cons hab _ ih => rw [List.map_cons, hf _ _ hab, ih]

lemma count_of_isAt {l : TimelineRecordLine} {counter : Str} {n : ℤ} (h : l.isAt counter = true)
    (hn : l.count = .ok n) : stringToBigInt? counter = some n := by
  rw [TimelineRecordLine.isAt, beq_iff_eq] at h
  obtain ⟨v, hv, hn⟩ := bind_eq_ok hn
  rw [← get_of_prop hv, h] at hn
  dsimp only [orElse, bigInt?] at hn
  split at hn
  · next n' hn' =>
    obtain rfl := Except.ok.inj hn
    exact hn'
  · cases hn

/-- The first record at a count is the first after sorting, too. -/
lemma find?_recordsOf {lines sorted : List TimelineRecordLine} {epochId : Value} {counter : Str}
    (h : recordsOf lines epochId = .ok sorted) :
    sorted.find? (fun l => l.isAt counter)
      = (lines.filter fun l => l.commit.get (js "epochId") == epochId).find? fun l => l.isAt counter := by
  rw [recordsOf] at h
  split at h
  · rw [Except.ok.inj h]
  · obtain ⟨keyed, hkeyed, h⟩ := bind_eq_ok h
    have hall := mapM_eq_ok.mp hkeyed
    have hkey : ∀ m ∈ keyed, m.2.count = .ok m.1 := fun m hm => by
      obtain ⟨l, -, hl⟩ := exists_of_forall₂ hall hm
      obtain ⟨n, hn, hm⟩ := bind_eq_ok hl
      obtain rfl := Except.ok.inj hm
      exact hn
    have hsnd := map_of_forall₂ (f := Prod.snd) hall fun l m hl => by
      obtain ⟨n, -, hm⟩ := bind_eq_ok hl
      obtain rfl := Except.ok.inj hm
      rfl
    rw [← Except.ok.inj h, ← hsnd, List.find?_map, List.find?_map, find?_insertionSort]
    rintro ⟨m, k⟩ hk ⟨n, l⟩ hl hpk hpl
    have hm := count_of_isAt hpk (hkey _ hk)
    have hn := count_of_isAt hpl (hkey _ hl)
    exact (Option.some.inj (hm.symm.trans hn)).le

/-! ### What is cut -/

section Cut

variable (args : BuildArgs) (lines : List TimelineRecordLine) (t : ℕ) (fileMs : ℤ)

/-- `f` is the floor of the records before the file: no read of its chain from it on, no later than
the file, is higher. -/
structure CutFloor (i : ℕ) (f : BlockReadFile) : Prop where
  lt : i < t
  read : readAt lines i = some f
  time : (f.timestamp : ℤ) * 1000 ≤ fileMs
  highest : ∀ j g, i ≤ j → j < t → readAt lines j = some g → g.chain = f.chain →
    (g.timestamp : ℤ) * 1000 ≤ fileMs → g.number ≤ f.number

/-- `c` is the first record after the file that qualifies. -/
structure CutCeiling (f : BlockReadFile) (c : ℕ) : Prop where
  gt : t < c
  lt : c < lines.length
  qualifies : qualifies args lines fileMs f c = true
  first : ∀ j, t < j → j < c → TimelineBundle.qualifies args lines fileMs f j = false

variable {args lines t fileMs}

lemma pickFloor_spec {chain : BlockReadChain} {i : ℕ} {f : BlockReadFile}
    (h : pickFloor lines t fileMs chain = some (i, f)) :
    f.chain = chain ∧ CutFloor lines t fileMs i f := by
  have hmem : ∀ r : ℕ × BlockReadFile, r ∈ (List.range t).filterMap (fun i =>
      ((readAt lines i).filter fun f => f.chain = chain ∧ (f.timestamp : ℤ) * 1000 ≤ fileMs).map
        fun f => (i, f)) ↔ r.1 < t ∧ readAt lines r.1 = some r.2 ∧ r.2.chain = chain ∧
          (r.2.timestamp : ℤ) * 1000 ≤ fileMs := by
    rintro ⟨j, g⟩
    rw [List.mem_filterMap]
    constructor
    · rintro ⟨k, hk, h⟩
      obtain ⟨g', hg, h⟩ := Option.map_eq_some_iff.mp h
      obtain ⟨rfl, rfl⟩ := Prod.mk.inj h
      obtain ⟨hread, htest⟩ := Option.filter_eq_some_iff.mp hg
      exact ⟨List.mem_range.mp hk, hread, of_decide_eq_true htest⟩
    · rintro ⟨hj, hread, htest⟩
      exact ⟨j, List.mem_range.mpr hj, Option.map_eq_some_iff.mpr
        ⟨g, Option.filter_eq_some_iff.mpr ⟨hread, decide_eq_true htest⟩, rfl⟩⟩
  have hbest := Best.isBest_foldl
    (Best.ranks_gt.on fun r : ℕ × BlockReadFile => r.2.number)
    ((List.range t).filterMap fun i => ((readAt lines i).filter fun f =>
      f.chain = chain ∧ (f.timestamp : ℤ) * 1000 ≤ fileMs).map fun f => (i, f)) Best.isBest_empty
  have hstep : (fun (best : Option (ℕ × BlockReadFile)) r =>
      if best.all (fun y => y.2.number < r.2.number) then some r else best)
      = fun o a => Best.merge (fun a b => decide (b.2.number < a.2.number)) o (some a) := by
    funext o a
    cases o <;> simp [Best.merge]
  rw [pickFloor, hstep] at h
  rw [h, Set.empty_union] at hbest
  obtain ⟨hin, hall⟩ := hbest
  obtain ⟨hlt, hread, hchain, htime⟩ := (hmem _).mp hin
  refine ⟨hchain, hlt, hread, htime, fun j g _ hj hg hgchain hgtime => ?_⟩
  have := hall (j, g) ((hmem (j, g)).mpr ⟨hj, hg, hgchain.trans hchain, hgtime⟩)
  simpa using this

lemma pickCeiling_spec {f : BlockReadFile} {c : ℕ}
    (h : pickCeiling args lines t fileMs f = some c) : CutCeiling args lines t fileMs f c := by
  rw [pickCeiling, List.find?_range'_eq_some] at h
  obtain ⟨hq, hmem, hfirst⟩ := h
  obtain ⟨k, hk, rfl⟩ := List.mem_range'.mp hmem
  refine ⟨by omega, by omega, hq, fun j hj hjc => ?_⟩
  simpa using hfirst j (by omega) hjc

lemma pick_spec {chain : BlockReadChain} {chosen : Chosen}
    (h : pick args lines t fileMs chain = .ok chosen) :
    ∃ f, CutFloor lines t fileMs chosen.floor f ∧
      ∀ c ∈ chosen.ceiling, CutCeiling args lines t fileMs f c := by
  rw [pick] at h
  split at h
  · cases h
  · next i f hfloor =>
    split at h
    · cases h
    · next c hceiling =>
      obtain rfl := Except.ok.inj h
      refine ⟨f, (pickFloor_spec hfloor).2, fun c' hc' => ?_⟩
      obtain rfl := Option.some.inj hc'
      exact pickCeiling_spec hceiling

lemma ownFloor_spec {chosen : Chosen} (h : ownFloor lines t fileMs = some chosen) :
    ∃ f, CutFloor lines t fileMs chosen.floor f ∧ chosen.ceiling = none := by
  rw [ownFloor.eq_def] at h
  split at h
  · cases h
  · next k =>
    split at h
    · next f hread =>
      split at h
      · next htest =>
        obtain rfl := Option.some.inj h
        refine ⟨f, ⟨Nat.lt_succ_self k, hread, htest.2, fun j g hj hlt hg _ _ => ?_⟩, rfl⟩
        obtain rfl : j = k := Nat.le_antisymm (Nat.lt_succ_iff.mp hlt) hj
        rw [Option.some.inj (hg.symm.trans hread)]
      · cases h
    · cases h

lemma choose_spec {chosen : Chosen} {notes : List Str}
    (h : choose args lines t fileMs = .ok (chosen, notes)) :
    ∃ f, CutFloor lines t fileMs chosen.floor f ∧
      ∀ c ∈ chosen.ceiling, CutCeiling args lines t fileMs f c := by
  rw [choose] at h
  split at h
  · next c hbase =>
    obtain ⟨rfl, -⟩ := Prod.mk.inj (Except.ok.inj h)
    exact pick_spec hbase
  split at h
  · next c hethereum =>
    obtain ⟨rfl, -⟩ := Prod.mk.inj (Except.ok.inj h)
    exact pick_spec hethereum
  split at h
  · next c hown =>
    obtain ⟨rfl, -⟩ := Prod.mk.inj (Except.ok.inj h)
    obtain ⟨f, hfloor, hnone⟩ := ownFloor_spec hown
    exact ⟨f, hfloor, fun c hc => by rw [hnone] at hc; cases hc⟩
  · cases h

end Cut

lemma length_recordsOf {lines sorted : List TimelineRecordLine} {epochId : Value}
    (h : recordsOf lines epochId = .ok sorted) : sorted.length ≤ lines.length := by
  rw [recordsOf] at h
  split at h
  · rw [← Except.ok.inj h]
    exact List.length_filter_le _ _
  · obtain ⟨keyed, hkeyed, h⟩ := bind_eq_ok h
    rw [← Except.ok.inj h, List.length_map, List.length_insertionSort,
      ← (mapM_eq_ok.mp hkeyed).length_eq]
    exact List.length_filter_le _ _

/-- The run of a plan: an unbroken one, from its floor to its ceiling or to the file. -/
structure Cut (H : HashFn) (args : BuildArgs) (p : Plan) (f : BlockReadFile) (fileMs : ℤ) : Prop where
  file : ∃ l, p.lines[p.t]? = some l ∧ l.kind ≠ .block ∧ args.nitroTimeMs l.proof = some fileMs
  floor : CutFloor p.lines p.t fileMs p.chosen.floor f
  ceiling : ∀ c ∈ p.chosen.ceiling, CutCeiling args p.lines p.t fileMs f c
  stretch : ∃ s, verifyStretch H (p.run.map fun l => l.proof) = .ok s ∧ s.reasons = []
  genesis : p.genesis = genesisOf args.genesis
  length_lt : p.lines.length < 2 ^ 32

/-- A bracket over an unbroken run is built. -/
lemma build_eq_ok {H : HashFn} {args : BuildArgs} (target : TimelineRecordLine)
    {lines : List TimelineRecordLine} {fileMs : ℤ} {chosen : Chosen} {notes : List Str}
    {genesis : Value × Str} {s : StretchResult}
    (htarget : args.lines.find? (fun l => l.isAt args.counter) = some target)
    (hkind : target.kind ≠ .block)
    (hlines : recordsOf args.lines (target.commit.get (js "epochId")) = .ok lines)
    (hms : args.nitroTimeMs target.proof = some fileMs)
    (hchoose : choose args lines (lines.findIdx fun l => l.isAt args.counter) fileMs = .ok (chosen, notes))
    (hgenesis : genesisOf args.genesis = some genesis)
    (hs : verifyStretch H (Plan.run ⟨lines, lines.findIdx fun l => l.isAt args.counter, chosen, notes,
      some genesis⟩ |>.map fun l => l.proof) = .ok s) (hreasons : s.reasons = []) :
    buildTimelineBundle H args = .ok (.ok ⟨lines, lines.findIdx fun l => l.isAt args.counter, chosen,
      notes, some genesis⟩) := by
  rw [buildTimelineBundle, htarget]
  dsimp only
  rw [if_neg hkind, hlines, ok_bind, hms]
  dsimp only
  rw [hchoose]
  dsimp only
  rw [hgenesis, hs, ok_bind, hreasons]
  dsimp only
  rw [Option.isNone_some, if_neg Bool.false_ne_true, List.append_nil]
  rfl

/-- What a built plan is cut by. -/
theorem cut_of_build {H : HashFn} {args : BuildArgs} {p : Plan}
    (h : buildTimelineBundle H args = .ok (.ok p)) : ∃ f fileMs, Cut H args p f fileMs := by
  rw [buildTimelineBundle.eq_def] at h
  dsimp only at h
  split at h
  · cases Except.ok.inj h
  next target htarget =>
  split at h
  · cases Except.ok.inj h
  next hkind =>
  obtain ⟨lines, hlines, h⟩ := bind_eq_ok h
  split at h
  · cases Except.ok.inj h
  next fileMs hfileMs =>
  split at h
  · cases Except.ok.inj h
  next chosen notes hchoose =>
  obtain ⟨s, hs, h⟩ := bind_eq_ok h
  split at h
  · cases Except.ok.inj h
  next hreasons =>
  obtain rfl := Except.ok.inj (Except.ok.inj h)
  obtain ⟨f, hfloor, hceiling⟩ := choose_spec hchoose
  have hat : lines.find? (fun l => l.isAt args.counter) = some target := by
    rw [find?_recordsOf hlines, List.find?_filter, List.find?_eq_some_iff_append]
    obtain ⟨hisAt, before, after, hsplit, hbefore⟩ := List.find?_eq_some_iff_append.mp htarget
    refine ⟨by simp [hisAt], before, after, hsplit, fun l hl => ?_⟩
    have := hbefore l hl
    simp_all
  rw [List.find?_eq_getElem?_findIdx] at hat
  exact ⟨f, fileMs, ⟨target, hat, hkind, hfileMs⟩, hfloor, hceiling, ⟨s, hs, hreasons⟩, rfl,
    (length_recordsOf hlines).trans_lt args.length_lt⟩

end TimelineBundle

end BitGraph
