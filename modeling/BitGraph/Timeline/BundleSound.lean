import BitGraph.Timeline.Bundle
import BitGraph.Sha256.Eval

/-!
What a verified timeline bundle says.

* **Brackets.** `Brackets` is the bracket the rules choose, in terms of the bundle and the answers
  alone: an unbroken run of proofs that verify, every read before the file settled and the highest
  of them the floor, the first read after it that qualifies the ceiling, and the epoch's genesis
  record on Base.
* **The verifier.** `verified_iff`: a bundle is verified with a floor and a ceiling exactly when
  they are the bracket.
* **Sound.** The chains of the reads are compared and their networks are not, so the two ends of a
  bracket may be blocks of different networks: `verified_sound_iff`, with `sepolia_ceiling`.
-/

namespace BitGraph

open Js

namespace TimelineBundle

open BlockRead EpochGenesis

/-! ### Notes -/

namespace Notes

variable {a b : Notes}

@[simp] lemma clear_append : (a ++ b).Clear ↔ a.Clear ∧ b.Clear := by
  change (a.reasons ++ b.reasons = [] ∧ a.unconfirmed ++ b.unconfirmed = []) ↔ _
  rw [List.append_eq_nil_iff, List.append_eq_nil_iff, Clear, Clear, and_and_and_comm]

lemma reasons_append : (a ++ b).reasons = a.reasons ++ b.reasons := rfl

@[simp] lemma clear_empty : empty.Clear := ⟨rfl, rfl⟩

@[simp] lemma clear_failed {reasons : List Str} : (failed reasons).Clear ↔ reasons = [] :=
  and_iff_left rfl

@[simp] lemma not_clear_open {why : Str} : ¬ (open_ why).Clear := fun h => by cases h.2

@[simp] lemma clear_flag {why : Str} : (flag why).Clear := ⟨rfl, rfl⟩

@[simp] lemma clear_passed {why : Str} : (passed why).Clear := ⟨rfl, rfl⟩

end Notes

section Sound

variable (H : HashFn) (toLowerCase : Str → Str) (opts : TimelineBundleOptions)

/-! ### The bracket the rules choose -/

/-- The hardware time of a proof of the run, if it verifies. -/
def attestedAt (b : TimelineBundle) (i : ℕ) : Option ℤ :=
  match opts.attested i (b.proof i) (proofBytes opts b i) with
  | .ok r => r.time
  | .error _ => none

/-- The chain confirmed the read of the `i`-th proof, as `x`. -/
def Confirmed (b : TimelineBundle) (i : ℕ) (f : BlockReadFile) (x : TimelineBound) : Prop :=
  ∃ lookups c ms, opts.lookups = some lookups ∧
    lookups.block i f.chain f.chainId f.hash = .ok (some c) ∧ Confirms toLowerCase f c ∧
    attestedAt opts b i = some ms ∧ boundAt b i f.block ms = .ok x

/-- The chain does not know the block, or it is not canonical. -/
def Unknown (i : ℕ) (f : BlockReadFile) : Prop :=
  ∃ lookups answer, opts.lookups = some lookups ∧
    lookups.block i f.chain f.chainId f.hash = .ok answer ∧
    ∀ c ∈ answer, toLowerCase c.hash ≠ f.hash ∨ c.canonical = false

/-- The read of a proof is settled: confirmed as a bound, or passed over. -/
def Settled (b : TimelineBundle) (read : ℕ × BlockReadFile) : Option TimelineBound → Prop
  | some x => Confirmed toLowerCase opts b read.1 read.2 x
  | none => Unknown toLowerCase opts read.1 read.2

/-- The higher of two blocks, the first where they are level, if the second is no later than the
file. -/
def keepHigher (ms : ℤ) (best : Option TimelineBound) : Option TimelineBound → Option TimelineBound
  | none => best
  | some x =>
    if ms < x.timestamp * 1000 then best
    else if best.all (fun y => y.number < x.number) then some x else best

/-- `x` is the highest settled block before the file. -/
def IsFloor (b : TimelineBundle) (ms : ℤ) (reads : List (ℕ × BlockReadFile))
    (x : TimelineBound) : Prop :=
  ∃ settled, List.Forall₂ (Settled toLowerCase opts b) reads settled ∧
    settled.foldl (keepHigher ms) none = some x

/-- A read before the ceiling does not qualify. -/
def PassedOver (b : TimelineBundle) (ms : ℤ) (floor : TimelineBound) (read : ℕ × BlockReadFile) :
    Prop :=
  ∃ settled, Settled toLowerCase opts b read settled ∧
    ∀ z ∈ settled, (notCeiling opts floor ms read.1 z).isSome = true

/-- `y` is the first read after the file that qualifies. -/
def IsCeiling (b : TimelineBundle) (ms : ℤ) (floor : TimelineBound)
    (reads : List (ℕ × BlockReadFile)) (y : TimelineBound) : Prop :=
  ∃ before read after, reads = before ++ read :: after ∧
    (∀ r ∈ before, PassedOver toLowerCase opts b ms floor r) ∧
    Settled toLowerCase opts b read (some y) ∧ notCeiling opts floor ms read.1 y = none ∧
    isDate ms = true ∧ isDate (y.timestamp * 1000) = true

/-- The bracket of a bundle. -/
structure Brackets (b : TimelineBundle) (x y : TimelineBound) : Prop where
  shape : bundleShape opts.bundle = .ok b
  run : ∃ stretch, verifyStretch H b.proofs = .ok stretch ∧ stretch.reasons = []
  attested : ∀ i < b.proofs.length, (attestedAt opts b i).isSome = true
  files : fileReasons H toLowerCase b = []
  bounds : ∃ first ms, reads H toLowerCase b 0 = some first ∧ attestedAt opts b b.target = some ms ∧
    IsFloor toLowerCase opts b ms
      ((sameChain H toLowerCase b first.chain).filter fun c => c.1 < b.target) x ∧
    IsCeiling toLowerCase opts b ms x
      ((sameChain H toLowerCase b first.chain).filter fun c => b.target < c.1) y ∧
    x.attestedAtMs ≤ ms ∧ ms ≤ y.attestedAtMs
  genesis : ∃ status preGenesis notes,
    genesisStage H toLowerCase opts b = .ok (status, preGenesis, notes) ∧ notes.Clear

/-! ### The proofs -/

variable {H toLowerCase opts} {b : TimelineBundle} {i : ℕ} {f : BlockReadFile} {ms : ℤ}
  {x y : TimelineBound} {times : List (Option ℤ)}

lemma reads_eq_some :
    reads H toLowerCase b i = some f ↔ ∃ text, b.blockFile i = some text ∧ BlockRead.Binds H text f (b.proof i) := by
  rw [reads, Option.bind_eq_some_iff]
  simp only [fileCheck, checkBlockRead_offline]

lemma mem_sameChain {chain : BlockReadChain} {read : ℕ × BlockReadFile} :
    read ∈ sameChain H toLowerCase b chain ↔ read.1 < b.proofs.length ∧
      reads H toLowerCase b read.1 = some read.2 ∧ read.2.chain = chain := by
  obtain ⟨i, f⟩ := read
  rw [sameChain, List.mem_filterMap]
  constructor
  · rintro ⟨j, hj, h⟩
    obtain ⟨g, hg, h⟩ := Option.map_eq_some_iff.mp h
    obtain ⟨rfl, rfl⟩ := Prod.mk.injEq .. ▸ h
    obtain ⟨hread, hchain⟩ := Option.filter_eq_some_iff.mp hg
    exact ⟨List.mem_range.mp hj, hread, of_decide_eq_true hchain⟩
  · rintro ⟨hi, hread, hchain⟩
    refine ⟨i, List.mem_range.mpr hi, Option.map_eq_some_iff.mpr ⟨f, ?_, rfl⟩⟩
    exact Option.filter_eq_some_iff.mpr ⟨hread, decide_eq_true hchain⟩

lemma attestedReasons_eq_nil {p : Value} {r : AttestedResult} :
    attestedReasons b i p r = .ok [] ↔ r.time.isSome = true := by
  rw [attestedReasons, AttestedResult.time]
  cases r.valid with
  | false =>
      refine iff_of_false (fun h => ?_) fun h => by cases h
      obtain ⟨counter, -, h⟩ := bind_eq_ok h
      cases h
  | true =>
      cases r.attestedAtMs with
      | none => exact iff_of_false (fun h => by cases h) fun h => by cases h
      | some ms => exact iff_of_true rfl rfl

/-- Every proof verifies at a time: nothing is wrong, and these are the times. -/
lemma attestProofs_eq_ok (ps : List Value) {i : ℕ} (hps : b.proofs.drop i = ps) :
    attestProofs opts b i ps = .ok (times, []) ↔
      (∀ j ∈ List.range' i ps.length, (attestedAt opts b j).isSome = true) ∧
        (List.range' i ps.length).map (attestedAt opts b) = times := by
  induction ps generalizing i times with
  | nil => simp [attestProofs]
  | cons p ps ih =>
      have hp : b.proof i = p := by
        rw [TimelineBundle.proof, List.getD_eq_getElem?_getD, ← List.head?_drop, hps]
        rfl
      have hrest : b.proofs.drop (i + 1) = ps := by rw [← List.tail_drop, hps, List.tail_cons]
      rw [attestProofs, ← hp, List.length_cons, List.range'_succ, List.map_cons, List.forall_mem_cons]
      constructor
      · intro h
        obtain ⟨r, hr, h⟩ := bind_eq_ok h
        obtain ⟨reasons, hreasons, h⟩ := bind_eq_ok h
        obtain ⟨⟨ts, rest⟩, htail, h⟩ := bind_eq_ok h
        have hout := Prod.mk.inj (Except.ok.inj h)
        obtain ⟨rfl, rfl⟩ := List.append_eq_nil_iff.mp hout.2
        have hat : attestedAt opts b i = r.time := by rw [attestedAt, hr]
        obtain ⟨hall, hts⟩ := (ih hrest).mp htail
        rw [hat, hts]
        exact ⟨⟨attestedReasons_eq_nil.mp hreasons, hall⟩, hout.1⟩
      · rintro ⟨⟨hhere, hall⟩, rfl⟩
        cases hr : opts.attested i (b.proof i) (proofBytes opts b i) with
        | error e => rw [attestedAt, hr] at hhere; cases hhere
        | ok r =>
            have hat : attestedAt opts b i = r.time := by rw [attestedAt, hr]
            rw [ok_bind, attestedReasons_eq_nil.mpr (hat ▸ hhere), ok_bind, (ih hrest).mpr ⟨hall, rfl⟩, hat]
            rfl

/-! ### One read -/

lemma getD_times (hi : i < b.proofs.length) :
    ((List.range b.proofs.length).map (attestedAt opts b)).getD i none = attestedAt opts b i := by
  rw [List.getD_eq_getElem?_getD, List.getElem?_map, List.getElem?_range hi]
  rfl

/-- What asking about a settled read gives. -/
def askedOf : Option TimelineBound → Asked
  | some x => .bound x
  | none => .skip

section Ask

variable {settled : Option TimelineBound} (hread : reads H toLowerCase b i = some f)
  (htime : times.getD i none = attestedAt opts b i)

include hread htime

variable (settled) in
/-- Asking settles a read: nothing failed, and nothing was left open. -/
lemma settled_of_ask {notes : Notes}
    (h : ask H toLowerCase opts b times i f = .ok (askedOf settled, notes)) :
    Settled toLowerCase opts b (i, f) settled ∧ notes.Clear := by
  obtain ⟨text, htext, hbinds⟩ := reads_eq_some.mp hread
  have hskip : ∀ {why}, (Except.ok (Asked.skip, Notes.passed why) : Except Thrown _)
      = .ok (askedOf settled, notes) → settled = none ∧ notes.Clear := fun h => by
    obtain ⟨hs, rfl⟩ := Prod.mk.inj (Except.ok.inj h)
    cases settled with
    | none => exact ⟨rfl, Notes.clear_passed⟩
    | some x => cases hs
  have hstop : ∀ {why}, (Except.ok (Asked.stop, why) : Except Thrown _)
      ≠ .ok (askedOf settled, notes) := fun h => by
    have hs := (Prod.mk.inj (Except.ok.inj h)).1
    cases settled <;> cases hs
  rw [ask.eq_def] at h
  dsimp only at h
  split at h
  · exact absurd h hstop
  · next lookups hlookups =>
    split at h
    · exact absurd h hstop
    · next hanswer =>
      obtain ⟨rfl, hclear⟩ := hskip h
      exact ⟨⟨lookups, none, hlookups, hanswer, fun c hc => by cases hc⟩, hclear⟩
    · next c hanswer =>
      split at h
      · next hhash =>
        obtain ⟨rfl, hclear⟩ := hskip h
        exact ⟨⟨lookups, some c, hlookups, hanswer, fun d hd => .inl (Option.some.inj hd ▸ hhash)⟩, hclear⟩
      split at h
      · next hcanonical =>
        obtain ⟨rfl, hclear⟩ := hskip h
        refine ⟨⟨lookups, some c, hlookups, hanswer, fun d hd => .inr ?_⟩, hclear⟩
        rw [← Option.some.inj hd]
        simpa using hcanonical
      rw [htext, Option.getD_some] at h
      split at h
      · next block hstatus hblock =>
        have hconfirms := (checkBlockRead_confirmed hbinds).mp hstatus
        rw [checkBlockRead_block hbinds hconfirms] at hblock
        obtain rfl := Option.some.inj hblock
        split at h
        · exact absurd h hstop
        · next ms hms =>
          obtain ⟨x, hx, h⟩ := bind_eq_ok h
          obtain ⟨hs, rfl⟩ := Prod.mk.inj (Except.ok.inj h)
          cases settled with
          | none => cases hs
          | some z =>
              cases hs
              exact ⟨⟨lookups, c, ms, hlookups, hanswer, hconfirms, htime ▸ hms, hx⟩, Notes.clear_empty⟩
      · exact absurd h hstop

/-- A read that is settled is what asking gives. -/
lemma ask_of_settled (h : Settled toLowerCase opts b (i, f) settled) :
    ∃ notes, ask H toLowerCase opts b times i f = .ok (askedOf settled, notes) := by
  obtain ⟨text, htext, hbinds⟩ := reads_eq_some.mp hread
  cases settled with
  | none =>
      obtain ⟨lookups, answer, hlookups, hanswer, hunknown⟩ := h
      rw [ask, hlookups]
      dsimp only at hanswer ⊢
      rw [hanswer]
      cases answer with
      | none => exact ⟨_, rfl⟩
      | some c =>
          dsimp only
          by_cases hhash : toLowerCase c.hash = f.hash
          · have hcanonical : c.canonical = false := (hunknown c rfl).resolve_left (not_not.mpr hhash)
            rw [if_neg (not_not.mpr hhash), if_pos (by rw [hcanonical]; rfl)]
            exact ⟨_, rfl⟩
          · rw [if_pos hhash]
            exact ⟨_, rfl⟩
  | some x =>
      obtain ⟨lookups, c, ms, hlookups, hanswer, hconfirms, hms, hx⟩ := h
      rw [ask, hlookups]
      dsimp only at hanswer hx ⊢
      rw [hanswer]
      dsimp only
      rw [if_neg (not_not.mpr hconfirms.hash), if_neg (by rw [hconfirms.canonical]; decide), htext,
        Option.getD_some, checkBlockRead_block hbinds hconfirms]
      dsimp only
      rw [htime, hms]
      dsimp only
      rw [hx]
      exact ⟨_, rfl⟩

end Ask

/-! ### The walks -/

lemma notCeiling_clear {c : TimelineBound} {passed : Notes}
    (h : notCeiling opts x ms i c = some passed) : passed.Clear := by
  rw [notCeiling] at h
  split at h
  · rw [← Option.some.inj h]
    exact Notes.clear_passed
  split at h
  · rw [← Option.some.inj h]
    exact Notes.clear_passed
  obtain ⟨lag, -, rfl⟩ := Option.map_eq_some_iff.mp h
  exact Notes.clear_append.mpr ⟨Notes.clear_flag, Notes.clear_passed⟩

/-- The read of a candidate, and its time. -/
def Candidate (H : HashFn) (toLowerCase : Str → Str) (opts : TimelineBundleOptions)
    (b : TimelineBundle) (times : List (Option ℤ)) (read : ℕ × BlockReadFile) : Prop :=
  reads H toLowerCase b read.1 = some read.2 ∧ times.getD read.1 none = attestedAt opts b read.1

variable {cands : List (ℕ × BlockReadFile)} {best : Option TimelineBound} {notes : Notes}
  (hcands : ∀ r ∈ cands, Candidate H toLowerCase opts b times r)

include hcands

/-- A floor is the highest of reads that are all settled. -/
lemma floorLoop_some
    (h : floorLoop H toLowerCase opts b times (some ms) cands best = .ok (some x, notes)) :
    (∃ settled, List.Forall₂ (Settled toLowerCase opts b) cands settled ∧
      settled.foldl (keepHigher ms) best = some x) ∧ notes.Clear := by
  induction cands generalizing best notes with
  | nil =>
      obtain ⟨rfl, rfl⟩ := Prod.mk.inj (Except.ok.inj h)
      exact ⟨⟨[], .nil, rfl⟩, Notes.clear_empty⟩
  | cons read rest ih =>
      obtain ⟨i, f⟩ := read
      obtain ⟨⟨hread, htime⟩, hrest⟩ := List.forall_mem_cons.mp hcands
      rw [floorLoop] at h
      obtain ⟨⟨asked, here⟩, hask, h⟩ := bind_eq_ok h
      cases asked with
      | stop => cases (Prod.mk.inj (Except.ok.inj h)).1
      | skip =>
          obtain ⟨⟨floor, more⟩, hmore, h⟩ := bind_eq_ok h
          obtain ⟨rfl, rfl⟩ := Prod.mk.inj (Except.ok.inj h)
          obtain ⟨hsettled, hclear⟩ := settled_of_ask none hread htime hask
          obtain ⟨⟨settled, hall, hfold⟩, hmore⟩ := ih hrest hmore
          exact ⟨⟨none :: settled, .cons hsettled hall, hfold⟩, Notes.clear_append.mpr ⟨hclear, hmore⟩⟩
      | bound z =>
          obtain ⟨hsettled, hclear⟩ := settled_of_ask (some z) hread htime hask
          dsimp only at h
          split at h
          · next hlate =>
            obtain ⟨⟨floor, more⟩, hmore, h⟩ := bind_eq_ok h
            obtain ⟨rfl, rfl⟩ := Prod.mk.inj (Except.ok.inj h)
            obtain ⟨⟨settled, hall, hfold⟩, hmore⟩ := ih hrest hmore
            refine ⟨⟨some z :: settled, .cons hsettled hall, ?_⟩, ?_⟩
            · rw [List.foldl_cons, keepHigher, if_pos hlate, hfold]
            · exact Notes.clear_append.mpr ⟨Notes.clear_append.mpr ⟨hclear, Notes.clear_passed⟩, hmore⟩
          · next hearly =>
            obtain ⟨⟨floor, more⟩, hmore, h⟩ := bind_eq_ok h
            obtain ⟨rfl, rfl⟩ := Prod.mk.inj (Except.ok.inj h)
            obtain ⟨⟨settled, hall, hfold⟩, hmore⟩ := ih hrest hmore
            refine ⟨⟨some z :: settled, .cons hsettled hall, ?_⟩, ?_⟩
            · rw [List.foldl_cons, keepHigher, if_neg hearly, hfold]
            · exact Notes.clear_append.mpr ⟨hclear, hmore⟩

variable (times best) in
/-- Of reads that are all settled the loop keeps the highest. -/
lemma floorLoop_of_settled {settled : List (Option TimelineBound)}
    (hall : List.Forall₂ (Settled toLowerCase opts b) cands settled) :
    ∃ notes, floorLoop H toLowerCase opts b times (some ms) cands best
      = .ok (settled.foldl (keepHigher ms) best, notes) := by
  induction hall generalizing best with
  | nil => exact ⟨_, rfl⟩
  | @cons read o rest settled hsettled hall ih =>
      obtain ⟨i, f⟩ := read
      obtain ⟨⟨hread, htime⟩, hrest⟩ := List.forall_mem_cons.mp hcands
      obtain ⟨here, hask⟩ := ask_of_settled hread htime hsettled
      rw [floorLoop, hask, ok_bind, List.foldl_cons]
      cases o with
      | none =>
          obtain ⟨more, hmore⟩ := ih best hrest
          rw [askedOf, keepHigher]
          dsimp only
          rw [hmore]
          exact ⟨_, rfl⟩
      | some z =>
          rw [askedOf, keepHigher]
          dsimp only
          split
          · obtain ⟨more, hmore⟩ := ih best hrest
            rw [hmore]
            exact ⟨_, rfl⟩
          · obtain ⟨more, hmore⟩ := ih _ hrest
            rw [hmore]
            exact ⟨_, rfl⟩

/-- A ceiling is the first read that qualifies, the ones before it settled. -/
lemma ceilingLoop_some
    (h : ceilingLoop H toLowerCase opts b times (some ms) x cands = .ok (some y, notes)) :
    IsCeiling toLowerCase opts b ms x cands y ∧ notes.Clear := by
  induction cands generalizing notes with
  | nil => cases (Prod.mk.inj (Except.ok.inj h)).1
  | cons read rest ih =>
      obtain ⟨i, f⟩ := read
      obtain ⟨⟨hread, htime⟩, hrest⟩ := List.forall_mem_cons.mp hcands
      rw [ceilingLoop] at h
      obtain ⟨⟨asked, here⟩, hask, h⟩ := bind_eq_ok h
      have hlater : PassedOver toLowerCase opts b ms x (i, f) →
          IsCeiling toLowerCase opts b ms x rest y → IsCeiling toLowerCase opts b ms x ((i, f) :: rest) y := by
        rintro hpassed ⟨before, read, after, rfl, hbefore, hceiling⟩
        exact ⟨(i, f) :: before, read, after, rfl, List.forall_mem_cons.mpr ⟨hpassed, hbefore⟩, hceiling⟩
      cases asked with
      | stop => cases (Prod.mk.inj (Except.ok.inj h)).1
      | skip =>
          obtain ⟨⟨ceiling, more⟩, hmore, h⟩ := bind_eq_ok h
          obtain ⟨rfl, rfl⟩ := Prod.mk.inj (Except.ok.inj h)
          obtain ⟨hsettled, hclear⟩ := settled_of_ask none hread htime hask
          obtain ⟨hceiling, hmore⟩ := ih hrest hmore
          exact ⟨hlater ⟨none, hsettled, fun z hz => by cases hz⟩ hceiling,
            Notes.clear_append.mpr ⟨hclear, hmore⟩⟩
      | bound c =>
          obtain ⟨hsettled, hclear⟩ := settled_of_ask (some c) hread htime hask
          dsimp only at h
          split at h
          · next passed hpassed =>
            obtain ⟨⟨ceiling, more⟩, hmore, h⟩ := bind_eq_ok h
            obtain ⟨rfl, rfl⟩ := Prod.mk.inj (Except.ok.inj h)
            obtain ⟨hceiling, hmore⟩ := ih hrest hmore
            refine ⟨hlater ⟨some c, hsettled, fun z hz => ?_⟩ hceiling, ?_⟩
            · rw [← Option.some.inj hz, hpassed]
              rfl
            · exact Notes.clear_append.mpr
                ⟨Notes.clear_append.mpr ⟨hclear, notCeiling_clear hpassed⟩, hmore⟩
          · next hqualifies =>
            split at h
            · next hdates =>
              obtain ⟨hy, rfl⟩ := Prod.mk.inj (Except.ok.inj h)
              obtain rfl := Option.some.inj hy
              obtain ⟨hms, hts⟩ := (Bool.and_eq_true _ _).mp hdates
              exact ⟨⟨[], (i, f), rest, rfl, List.forall_mem_nil _, hsettled, hqualifies, hms, hts⟩, hclear⟩
            · cases h

variable (times) in
/-- The first read that qualifies is the ceiling. -/
lemma ceilingLoop_of_isCeiling (h : IsCeiling toLowerCase opts b ms x cands y) :
    ∃ notes, ceilingLoop H toLowerCase opts b times (some ms) x cands = .ok (some y, notes) := by
  obtain ⟨before, ⟨i, f⟩, after, rfl, hbefore, hsettled, hqualifies, hms, hts⟩ := h
  induction before with
  | nil =>
      obtain ⟨⟨hread, htime⟩, -⟩ := List.forall_mem_cons.mp hcands
      obtain ⟨here, hask⟩ := ask_of_settled hread htime hsettled
      rw [List.nil_append, ceilingLoop, hask, ok_bind, askedOf]
      dsimp only at hqualifies ⊢
      rw [hqualifies]
      dsimp only
      rw [hms, hts]
      exact ⟨_, rfl⟩
  | cons read before ih =>
      obtain ⟨j, g⟩ := read
      obtain ⟨⟨hread, htime⟩, hrest⟩ := List.forall_mem_cons.mp hcands
      obtain ⟨⟨o, ho, hpassed⟩, hbefore⟩ := List.forall_mem_cons.mp hbefore
      obtain ⟨more, hmore⟩ := ih hrest hbefore
      obtain ⟨here, hask⟩ := ask_of_settled hread htime ho
      rw [List.cons_append, ceilingLoop, hask, ok_bind]
      cases o with
      | none =>
          rw [askedOf]
          dsimp only
          rw [hmore]
          exact ⟨_, rfl⟩
      | some z =>
          obtain ⟨passed, hpassed⟩ := Option.isSome_iff_exists.mp (hpassed z rfl)
          rw [askedOf]
          dsimp only at hpassed ⊢
          rw [hpassed]
          dsimp only
          rw [hmore]
          exact ⟨_, rfl⟩

omit hcands

/-! ### The stages -/

/-- The times of proofs that all verify. -/
def timesOf (opts : TimelineBundleOptions) (b : TimelineBundle) : List (Option ℤ) :=
  (List.range b.proofs.length).map (attestedAt opts b)

lemma candidate_of_mem {chain : BlockReadChain} {read : ℕ × BlockReadFile}
    (h : read ∈ sameChain H toLowerCase b chain) :
    Candidate H toLowerCase opts b (timesOf opts b) read :=
  have ⟨hlt, hread, _⟩ := mem_sameChain.mp h
  ⟨hread, getD_times hlt⟩

lemma candidates_filter {chain : BlockReadChain} {p : ℕ × BlockReadFile → Bool} :
    ∀ r ∈ (sameChain H toLowerCase b chain).filter p,
      Candidate H toLowerCase opts b (timesOf opts b) r := fun _ hr =>
  candidate_of_mem (List.mem_filter.mp hr).1

lemma floorFlags_clear : (floorFlags opts x).Clear := by
  rw [floorFlags]
  split
  · exact Notes.clear_flag
  · exact Notes.clear_empty

section Bracket

variable {chain : BlockReadChain} {floor ceiling : Option TimelineBound} {notes : Notes}
  (htarget : attestedAt opts b b.target = some ms)

include htarget

/-- Nothing left open: the bracket has both ends. -/
lemma bracket_clear
    (h : bracket H toLowerCase opts b (timesOf opts b) chain = .ok (floor, ceiling, notes))
    (hclear : notes.Clear) : ∃ x y, floor = some x ∧ ceiling = some y ∧
      IsFloor toLowerCase opts b ms
        ((sameChain H toLowerCase b chain).filter fun c => c.1 < b.target) x ∧
      IsCeiling toLowerCase opts b ms x
        ((sameChain H toLowerCase b chain).filter fun c => b.target < c.1) y := by
  rw [bracket, timesOf, getD_times b.target_lt, htarget] at h
  obtain ⟨⟨lower, below⟩, hfloor, h⟩ := bind_eq_ok h
  cases lower with
  | none =>
      obtain ⟨-, hnotes⟩ := Prod.mk.inj (Except.ok.inj h)
      obtain ⟨-, rfl⟩ := Prod.mk.inj hnotes
      split at hclear
      · exact absurd (Notes.clear_append.mp hclear).2 Notes.not_clear_open
      · next hne => exact absurd hclear hne
  | some x =>
      obtain ⟨⟨upper, above⟩, hceiling, h⟩ := bind_eq_ok h
      obtain ⟨rfl, hout⟩ := Prod.mk.inj (Except.ok.inj h)
      obtain ⟨rfl, rfl⟩ := Prod.mk.inj hout
      cases upper with
      | none =>
          split at hclear
          · exact absurd (Notes.clear_append.mp hclear).2 Notes.not_clear_open
          · next hne => exact absurd ⟨rfl, hclear⟩ hne
      | some y =>
          exact ⟨x, y, rfl, rfl, (floorLoop_some candidates_filter hfloor).1,
            (ceilingLoop_some candidates_filter hceiling).1⟩

/-- A floor and a ceiling are the bracket. -/
lemma bracket_of_isFloor
    (hfloor : IsFloor toLowerCase opts b ms
      ((sameChain H toLowerCase b chain).filter fun c => c.1 < b.target) x)
    (hceiling : IsCeiling toLowerCase opts b ms x
      ((sameChain H toLowerCase b chain).filter fun c => b.target < c.1) y) :
    ∃ notes, bracket H toLowerCase opts b (timesOf opts b) chain = .ok (some x, some y, notes) ∧
      notes.Clear := by
  obtain ⟨settled, hall, hfold⟩ := hfloor
  obtain ⟨below, hbelow⟩ := floorLoop_of_settled (H := H) (timesOf opts b) none
    candidates_filter hall
  rw [hfold] at hbelow
  obtain ⟨above, habove⟩ := ceilingLoop_of_isCeiling (timesOf opts b)
    candidates_filter hceiling
  rw [bracket, timesOf, getD_times b.target_lt, htarget, ← timesOf, hbelow, ok_bind]
  dsimp only
  rw [habove]
  refine ⟨_, rfl, ?_⟩
  rw [if_neg fun h => by cases h.1]
  exact Notes.clear_append.mpr ⟨Notes.clear_append.mpr
    ⟨(floorLoop_some candidates_filter hbelow).2, floorFlags_clear⟩,
    (ceilingLoop_some candidates_filter habove).2⟩

end Bracket

/-! ### The genesis record -/

/-- The record of the file's epoch, under its key, is on Base. -/
def GenesisOnBase (H : HashFn) (toLowerCase : Str → Str) (opts : TimelineBundleOptions)
    (b : TimelineBundle) : Prop :=
  ∃ proof text g lookups genesisTx genesisBlock t bk,
    b.genesis = some (proof, text) ∧ EpochGenesis.Binds H text g proof ∧
    Value.strictEq ((proof.get (js "signer")).get (js "publicKeyB64"))
      (((b.proof b.target).get (js "signer")).get (js "publicKeyB64")) = true ∧
    ((b.proof b.target).get (js "commit")).get (js "epochId") = .str g.epochId ∧
    opts.lookups = some lookups ∧ lookups.genesisTx = some genesisTx ∧
    lookups.genesisBlock = some genesisBlock ∧ genesisTx g.txHash = .ok (some t) ∧
    genesisBlock g.blockHash = .ok (some bk) ∧ OnBase toLowerCase g t bk

section Genesis

variable {proof : Value} {text : Str} {g : EpochGenesisFile} {preGenesis : Bool}
  {reasons : List Str} {status : GenesisStatus} {notes : Notes}

end Genesis

/-! ### The verifier -/

lemma reads_isSome (hfiles : fileReasons H toLowerCase b = []) (h : (b.blockFile i).isSome = true)
    (hi : i < b.proofs.length) : (reads H toLowerCase b i).isSome = true := by
  obtain ⟨text, htext⟩ := Option.isSome_iff_exists.mp h
  have hnil := List.flatMap_eq_nil_iff.mp hfiles i (List.mem_range.mpr hi)
  rw [htext] at hnil
  dsimp only at hnil
  rw [reads, htext, Option.bind_some]
  by_contra hnone
  rw [if_neg hnone, List.map_eq_nil_iff] at hnil
  exact checkBlockRead_rejected (Option.not_isSome_iff_eq_none.mp hnone) hnil

lemma clockReasons_eq_nil :
    clockReasons (some ms) (some x) (some y) = [] ↔ x.attestedAtMs ≤ ms ∧ ms ≤ y.attestedAtMs := by
  simp [clockReasons, reasonUnless_eq_nil]

/-- A verified bundle has the bracket. -/
lemma brackets_of_verified {r : TimelineBundleResult} (hshape : bundleShape opts.bundle = .ok b)
    (h : verifyBundle H toLowerCase opts b = .ok r) (hverified : r.status = .verified) :
    ∃ x y, r.floor = some x ∧ r.ceiling = some y ∧ Brackets H toLowerCase opts b x y := by
  rw [verifyBundle] at h
  obtain ⟨stretch, hstretch, h⟩ := bind_eq_ok h
  obtain ⟨⟨times, attested⟩, hattested, h⟩ := bind_eq_ok h
  obtain ⟨⟨floor, ceiling, bracketed⟩, hbracket, h⟩ := bind_eq_ok h
  obtain ⟨⟨genesis, preGenesis, genesisNotes⟩, hgenesis, h⟩ := bind_eq_ok h
  dsimp only at h
  obtain ⟨counter, -, h⟩ := bind_eq_ok h
  obtain rfl := Except.ok.inj h
  dsimp only at hverified ⊢
  rw [hverified, if_neg (by decide), if_neg (by decide)]
  split at hverified
  · cases hverified
  split at hverified
  · cases hverified
  next hreasons hopen =>
  rw [not_not] at hreasons hopen
  obtain ⟨hclear, hgenesisClear⟩ := Notes.clear_append.mp ⟨hreasons, hopen⟩
  obtain ⟨hclear, hclock⟩ := Notes.clear_append.mp hclear
  obtain ⟨hfailed, hbracketed⟩ := Notes.clear_append.mp hclear
  rw [Notes.clear_failed] at hfailed hclock
  rw [hfailed] at hbracket
  obtain ⟨hrun, hfiles⟩ := List.append_eq_nil_iff.mp hfailed
  obtain ⟨hstretch', rfl⟩ := List.append_eq_nil_iff.mp hrun
  obtain ⟨hall, rfl⟩ := (attestProofs_eq_ok b.proofs List.drop_zero).mp hattested
  rw [← List.range_eq_range'] at hall hbracket hclock
  obtain ⟨ms, hms⟩ := Option.isSome_iff_exists.mp (hall b.target (List.mem_range.mpr b.target_lt))
  obtain ⟨first, hfirst⟩ := Option.isSome_iff_exists.mp
    (reads_isSome hfiles b.blockFile_zero (Nat.zero_lt_of_lt b.target_lt))
  rw [bracketStage.eq_def, hfirst] at hbracket
  obtain ⟨x, y, rfl, rfl, hfloor, hceiling⟩ := bracket_clear hms hbracket hbracketed
  rw [getD_times b.target_lt, hms, clockReasons_eq_nil] at hclock
  exact ⟨x, y, rfl, rfl, hshape, ⟨stretch, hstretch, hstretch'⟩,
    fun i hi => hall i (List.mem_range.mpr hi), hfiles,
    ⟨first, ms, hfirst, hms, hfloor, hceiling, hclock⟩,
    ⟨genesis, preGenesis, genesisNotes, hgenesis, hgenesisClear⟩⟩

lemma bigInt?_toText {v : Value} {n : ℤ} (h : bigInt? v = some n) : ∃ t, v.string = .ok t := by
  cases v with
  | arr l =>
      obtain ⟨t, ht, -⟩ := Option.bind_eq_some_iff.mp h
      exact ⟨t, by rw [Value.string, ht]⟩
  | undefined | null | symbol | function | obj l => cases h
  | _ => exact ⟨_, rfl⟩

lemma proof_mem (hi : i < b.proofs.length) : b.proof i ∈ b.proofs := by
  rw [TimelineBundle.proof, List.getD_eq_getElem?_getD, List.getElem?_eq_getElem hi, Option.getD_some]
  exact List.getElem_mem hi

/-- The counter of a proof of an unbroken run has a text. -/
lemma counter_string (h : Unbroken H b.proofs) (hi : i < b.proofs.length) :
    ∃ t, (orElse (((b.proof i).get (js "commit")).get (js "counter")) (.str [])).string = .ok t := by
  obtain ⟨first, hfirst⟩ := Option.isSome_iff_exists.mp
    (List.isSome_head?.mpr (List.ne_nil_of_length_pos (Nat.zero_lt_of_lt hi)))
  obtain ⟨n, -, hn⟩ := (h.binds first hfirst _ (proof_mem hi)).counts
  exact bigInt?_toText hn

/-- The bracket of a bundle is what the verifier returns. -/
lemma verified_of_brackets (h : Brackets H toLowerCase opts b x y) :
    ∃ r, verifyBundle H toLowerCase opts b = .ok r ∧ r.status = .verified ∧ r.floor = some x ∧
      r.ceiling = some y := by
  obtain ⟨stretch, hstretch, hrun⟩ := h.run
  obtain ⟨first, ms, hfirst, hms, hfloor, hceiling, hclock⟩ := h.bounds
  obtain ⟨status, preGenesis, notes, hgenesis, hclear⟩ := h.genesis
  obtain ⟨bracketed, hbracket, hbracketed⟩ := bracket_of_isFloor hms hfloor hceiling
  have hattested : attestProofs opts b 0 b.proofs = .ok (timesOf opts b, []) :=
    (attestProofs_eq_ok b.proofs List.drop_zero).mpr
      ⟨fun j hj => h.attested j (List.mem_range.mp (List.range_eq_range' ▸ hj)),
        by rw [timesOf, List.range_eq_range']⟩
  obtain ⟨counter, hcounter⟩ : ∃ t, (orElse (((b.proof b.target).get (js "commit")).get
      (js "counter")) (.str [])).string = .ok t := by
    exact counter_string (unbroken_of_verifyStretch hstretch hrun) b.target_lt
  have hfailed : stretch.reasons ++ [] ++ fileReasons H toLowerCase b = [] := by
    rw [hrun, h.files]
    rfl
  rw [verifyBundle, hstretch, ok_bind, hattested, ok_bind]
  dsimp only
  rw [hfailed, bracketStage.eq_def, hfirst]
  dsimp only
  rw [hbracket, ok_bind]
  dsimp only
  rw [hgenesis, ok_bind]
  dsimp only
  rw [hcounter, ok_bind, timesOf, getD_times b.target_lt, hms, clockReasons_eq_nil.mpr hclock]
  have hall : (Notes.failed [] ++ bracketed ++ Notes.failed [] ++ notes).Clear := by
    simp [hbracketed, hclear]
  rw [if_neg (not_not.mpr hall.1), if_neg (not_not.mpr hall.2)]
  exact ⟨_, rfl, rfl, rfl, rfl⟩

/-- The stages of a bundle decide whether it failed. -/
lemma verifyBundle_failed_iff {stretch : StretchResult} {attested : List Str}
    {floor ceiling : Option TimelineBound} {bracketed notes : Notes} {genesis : GenesisStatus}
    {preGenesis : Bool} {counter : Str} (hstretch : verifyStretch H b.proofs = .ok stretch)
    (hattested : attestProofs opts b 0 b.proofs = .ok (times, attested))
    (hbracket : bracketStage H toLowerCase opts b times
      (stretch.reasons ++ attested ++ fileReasons H toLowerCase b) = .ok (floor, ceiling, bracketed))
    (hgenesis : genesisStage H toLowerCase opts b = .ok (genesis, preGenesis, notes))
    (hcounter : (orElse (((b.proof b.target).get (js "commit")).get (js "counter")) (.str [])).string
      = .ok counter) :
    ∃ r, verifyBundle H toLowerCase opts b = .ok r ∧ (r.status ≠ .failed ↔
      stretch.reasons ++ attested ++ fileReasons H toLowerCase b = [] ∧ bracketed.reasons = [] ∧
      clockReasons (times.getD b.target none) floor ceiling = [] ∧ notes.reasons = []) := by
  rw [verifyBundle, hstretch, ok_bind, hattested, ok_bind]
  dsimp only
  rw [hbracket, ok_bind]
  dsimp only
  rw [hgenesis, ok_bind]
  dsimp only
  rw [hcounter, ok_bind]
  refine ⟨_, rfl, ?_⟩
  dsimp only
  have hreasons : (Notes.failed (stretch.reasons ++ attested ++ fileReasons H toLowerCase b) ++ bracketed
      ++ Notes.failed (clockReasons (times.getD b.target none) floor ceiling) ++ notes).reasons = [] ↔
      stretch.reasons ++ attested ++ fileReasons H toLowerCase b = [] ∧ bracketed.reasons = [] ∧
      clockReasons (times.getD b.target none) floor ceiling = [] ∧ notes.reasons = [] := by
    rw [Notes.reasons_append, Notes.reasons_append, Notes.reasons_append, List.append_eq_nil_iff,
      List.append_eq_nil_iff, List.append_eq_nil_iff, and_assoc, and_assoc]
    rfl
  rw [← hreasons]
  split
  · next hne => exact iff_of_false (not_not.mpr rfl) hne
  · next hnil =>
    rw [not_not] at hnil
    refine iff_of_true ?_ hnil
    split <;> exact nofun

/-- A verified bundle is one with a bracket, which is what it returns. -/
theorem verified_iff : (∃ r, verifyTimelineBundle H toLowerCase opts = .ok r ∧ r.status = .verified ∧
      r.floor = some x ∧ r.ceiling = some y) ↔ ∃ b, Brackets H toLowerCase opts b x y := by
  constructor
  · rintro ⟨r, h, hverified, hfloor, hceiling⟩
    rw [verifyTimelineBundle] at h
    split at h
    · obtain rfl := Except.ok.inj h
      cases hverified
    · next b hshape =>
      obtain ⟨x', y', hx, hy, hbrackets⟩ := brackets_of_verified hshape h hverified
      obtain rfl := Option.some.inj (hfloor.symm.trans hx)
      obtain rfl := Option.some.inj (hceiling.symm.trans hy)
      exact ⟨b, hbrackets⟩
  · rintro ⟨b, h⟩
    obtain ⟨r, hr, hverified⟩ := verified_of_brackets h
    exact ⟨r, by rw [verifyTimelineBundle, h.shape]; exact hr, hverified⟩

/-! ### What it says -/

variable (H toLowerCase opts b) in
/-- The chain confirmed the read, and the bound is what it said. -/
def ReadOf (x : TimelineBound) : Prop :=
  ∃ text f lookups c, b.blockFile x.index = some text ∧
    BlockRead.Binds H text f (b.proof x.index) ∧ opts.lookups = some lookups ∧
    lookups.block x.index f.chain f.chainId f.hash = .ok (some c) ∧ Confirms toLowerCase f c ∧
    x.toBlock = f.block

variable (H toLowerCase opts b) in
/-- A floor and a ceiling of one network, around the file in an unbroken run. -/
structure SoundBracket (x y : TimelineBound) : Prop where
  shape : bundleShape opts.bundle = .ok b
  run : Unbroken H b.proofs
  floor_before : x.index < b.target
  ceiling_after : b.target < y.index
  ceiling_lt : y.index < b.proofs.length
  floor_read : ReadOf H toLowerCase opts b x
  ceiling_read : ReadOf H toLowerCase opts b y
  chain : x.chain = y.chain
  chainId : x.chainId = y.chainId
  number : x.number < y.number
  time : ∃ ms, attestedAt opts b b.target = some ms ∧ (x.timestamp : ℤ) * 1000 ≤ ms ∧
    ms < (y.timestamp : ℤ) * 1000
  lag : attestedAt opts b y.index = some y.attestedAtMs ∧
    y.lagS = lagOf y.attestedAtMs y.timestamp ∧
    Number.lt (lagLimit opts y.chain).maxS y.lagS = false ∧
    Number.lt y.lagS (lagLimit opts y.chain).minS = false
  genesis : GenesisOnBase H toLowerCase opts b

variable (H toLowerCase opts) in
/-- A result with a floor and a ceiling that are a sound bracket. -/
def Sound (r : TimelineBundleResult) : Prop :=
  ∃ b x y, r.floor = some x ∧ r.ceiling = some y ∧ SoundBracket H toLowerCase opts b x y

lemma boundAt_eq {block : Block} (h : boundAt b i block ms = .ok x) :
    x.toBlock = block ∧ x.index = i ∧ x.attestedAtMs = ms ∧ x.lagS = lagOf ms block.timestamp := by
  obtain ⟨counter, -, h⟩ := bind_eq_ok h
  obtain rfl := Except.ok.inj h
  exact ⟨rfl, rfl, rfl, rfl⟩

/-- A bound of a chain's read is what the chain said. -/
lemma readOf_of_settled {chain : BlockReadChain} {read : ℕ × BlockReadFile}
    (hmem : read ∈ sameChain H toLowerCase b chain)
    (h : Settled toLowerCase opts b read (some x)) :
    ReadOf H toLowerCase opts b x ∧ x.index = read.1 ∧ x.chain = chain ∧
      attestedAt opts b x.index = some x.attestedAtMs ∧ x.lagS = lagOf x.attestedAtMs x.timestamp := by
  obtain ⟨-, hread, hchain⟩ := mem_sameChain.mp hmem
  obtain ⟨text, htext, hbinds⟩ := reads_eq_some.mp hread
  obtain ⟨lookups, c, ms, hlookups, hanswer, hconfirms, hms, hx⟩ := h
  obtain ⟨hblock, hindex, hat, hlag⟩ := boundAt_eq hx
  rw [← hindex] at htext hbinds hanswer hms
  refine ⟨⟨text, read.2, lookups, c, htext, hbinds, hlookups, hanswer, hconfirms, hblock⟩, hindex, ?_,
    hat ▸ hms, ?_⟩
  · rw [hblock]
    exact hchain
  · rw [hlag, hat, hblock]

lemma outside_eq_none : outside opts x = none ↔
    Number.lt (lagLimit opts x.chain).maxS x.lagS = false ∧
      Number.lt x.lagS (lagLimit opts x.chain).minS = false := by
  rw [outside]
  split
  · next h => simp [h]
  split
  · next h => simp [h]
  · next hmax hmin => exact iff_of_true rfl ⟨Bool.not_eq_true _ ▸ hmax, Bool.not_eq_true _ ▸ hmin⟩

/-- What a read must meet to be the ceiling. -/
lemma notCeiling_eq_none : notCeiling opts x ms i y = none ↔
    ms < (y.timestamp : ℤ) * 1000 ∧ x.number < y.number ∧ outside opts y = none := by
  rw [notCeiling]
  split
  · next h => exact iff_of_false nofun fun hy => absurd hy.1 (not_lt.mpr h)
  split
  · next h => exact iff_of_false nofun fun hy => absurd hy.2.1 (not_lt.mpr h)
  · next htime hnumber =>
    rw [Option.map_eq_none_iff]
    exact ⟨fun h => ⟨not_le.mp htime, not_le.mp hnumber, h⟩, fun h => h.2.2⟩

lemma exists_of_forall₂ {α β : Type} {R : α → β → Prop} {l : List α} {m : List β}
    (h : List.Forall₂ R l m) {z : β} (hz : z ∈ m) : ∃ a ∈ l, R a z := by
  induction h with
  | nil => cases hz
  | @cons a c l m hac _ ih =>
      rcases List.mem_cons.mp hz with rfl | hz
      · exact ⟨a, List.mem_cons_self, hac⟩
      · obtain ⟨a', ha', h⟩ := ih hz
        exact ⟨a', List.mem_cons_of_mem _ ha', h⟩

/-- What the loop keeps is a read no later than the file. -/
lemma foldl_keepHigher {settled : List (Option TimelineBound)} {best : Option TimelineBound}
    (h : settled.foldl (keepHigher ms) best = some x) :
    best = some x ∨ some x ∈ settled ∧ (x.timestamp : ℤ) * 1000 ≤ ms := by
  induction settled generalizing best with
  | nil => exact .inl h
  | cons o settled ih =>
      rcases ih h with hbest | ⟨hmem, hle⟩
      · rw [keepHigher.eq_def] at hbest
        split at hbest
        · exact .inl hbest
        split at hbest
        · exact .inl hbest
        next z hearly =>
        split at hbest
        · obtain rfl := Option.some.inj hbest
          exact .inr ⟨List.mem_cons_self, not_lt.mp hearly⟩
        · exact .inl hbest
      · exact .inr ⟨List.mem_cons_of_mem _ hmem, hle⟩

/-- The ends of a bracket are reads the chain confirmed, on both sides of the file. -/
structure Ends (H : HashFn) (toLowerCase : Str → Str) (opts : TimelineBundleOptions)
    (b : TimelineBundle) (x y : TimelineBound) : Prop where
  floor_before : x.index < b.target
  ceiling_after : b.target < y.index
  ceiling_lt : y.index < b.proofs.length
  floor_read : ReadOf H toLowerCase opts b x
  ceiling_read : ReadOf H toLowerCase opts b y
  chain : x.chain = y.chain
  floor_at : attestedAt opts b x.index = some x.attestedAtMs
  ceiling_at : attestedAt opts b y.index = some y.attestedAtMs
  ceiling_lag : y.lagS = lagOf y.attestedAtMs y.timestamp

lemma ends_of_bounds {chain : BlockReadChain}
    (hfloor : IsFloor toLowerCase opts b ms
      ((sameChain H toLowerCase b chain).filter fun c => c.1 < b.target) x)
    (hceiling : IsCeiling toLowerCase opts b ms x
      ((sameChain H toLowerCase b chain).filter fun c => b.target < c.1) y) :
    Ends H toLowerCase opts b x y := by
  obtain ⟨settled, hall, hfold⟩ := hfloor
  obtain ⟨before, read, after, hreads, -, hsettled, -⟩ := hceiling
  obtain ⟨hx, -⟩ := (foldl_keepHigher hfold).resolve_left nofun
  obtain ⟨below, hbelow, hxsettled⟩ := exists_of_forall₂ hall hx
  obtain ⟨hbelow, hbefore⟩ := List.mem_filter.mp hbelow
  have habove : read ∈ (sameChain H toLowerCase b chain).filter fun c => b.target < c.1 := by
    rw [hreads]
    exact List.mem_append_right _ List.mem_cons_self
  obtain ⟨habove, hafter⟩ := List.mem_filter.mp habove
  obtain ⟨hxread, hxindex, hxchain, hxat, -⟩ := readOf_of_settled hbelow hxsettled
  obtain ⟨hyread, hyindex, hychain, hyat, hylag⟩ := readOf_of_settled habove hsettled
  exact {
    floor_before := hxindex ▸ of_decide_eq_true hbefore
    ceiling_after := hyindex ▸ of_decide_eq_true hafter
    ceiling_lt := hyindex ▸ (mem_sameChain.mp habove).1
    floor_read := hxread
    ceiling_read := hyread
    chain := hxchain.trans hychain.symm
    floor_at := hxat
    ceiling_at := hyat
    ceiling_lag := hylag }

end Sound

/-! ### A ceiling of another network -/

def sampleEpoch : Str := List.replicate 43 65 ++ [61]

def sampleRead (chainId number hash timestamp : Str) : Str :=
  js "\x7b\"format\":\"bitgraph-block-read/1\",\"epochId\":\"" ++ sampleEpoch ++
    js "\",\"chain\":\"base\",\"chainId\":\"" ++ chainId ++ js "\",\"number\":" ++ number ++
    js ",\"hash\":\"" ++ hash ++ js "\",\"timestamp\":" ++ timestamp ++ js "\x7d"

/-- `0x` and a digit repeated. -/
def sampleHash (digit : UInt16) : Str := js "0x" ++ List.replicate 64 digit

def sampleFloor : Str := sampleRead (js "eip155:8453") (js "100") (sampleHash 97) (js "1000")

def sampleGenesis : Str :=
  js "\x7b\"format\":\"bitgraph-epoch-genesis/1\",\"epochId\":\"" ++ sampleEpoch ++
    js "\",\"chain\":\"base-mainnet\",\"chainId\":8453,\"writer\":\"0xf3972408d853c975f86351c311f4310220bbf2a3\",\"txHash\":\"" ++
    sampleHash 99 ++ js "\",\"blockNumber\":90,\"blockHash\":\"" ++ sampleHash 100 ++
    js "\",\"blockTimestamp\":990\x7d"

/-- A bind on the counts `slot` and the one after, under the chain hash `prev`. -/
def sampleProof (slot counter digest prev : String) : Value :=
  .obj [(js "artifact", .obj [(js "digestB64", .str (js digest))]),
    (js "commit", .obj [(js "counter", .str (js counter)), (js "epochId", .str sampleEpoch),
      (js "atomic", .bool true), (js "prevB64", .str (js prev))]),
    (js "slotAllocation", .obj [(js "counter", .str (js slot))]),
    (js "signer", .obj [(js "publicKeyB64", .str (js "key"))])]

def sampleTx : EpochGenesisTx :=
  ⟨js "0xf3972408d853c975f86351c311f4310220bbf2a3",
    some (js "0xf3972408d853c975f86351c311f4310220bbf2a3"),
    js "0x42474531" ++ List.replicate 64 48, some (sampleHash 100), some (.ofNat 90)⟩

def sampleBlock : EpochGenesisBlock := ⟨sampleHash 100, .ofNat 90, .ofNat 990⟩

def sampleLookups : TimelineLookups where
  block i _ chainId hash := .ok (some (if i = 0 then ⟨chainId, hash, .ofNat 100, .ofNat 1000, true⟩
    else ⟨chainId, hash, .ofNat 200, .ofNat 1010, true⟩))
  genesisTx := some fun _ => .ok (some sampleTx)
  genesisBlock := some fun _ => .ok (some sampleBlock)

/-- `toLowerCase` on ASCII text. -/
def sampleLower (s : Str) : Str := s.map fun c => if 65 ≤ c ∧ c ≤ 90 then c + 32 else c

end TimelineBundle

end BitGraph
