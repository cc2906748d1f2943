import BitGraph.Timeline.Export

/-!
The builder and the verifier of timeline bundles.

* **The bundle.** `bundleShape_bundle`: what the builder makes has the shape of a bundle, with the
  proofs of the run and the block files of its block records.
* **The facts.** `Vouched`: the proofs verify at the times the builder read, and the lookups confirm
  every label of the run and the genesis record.
* **Agreement.** `agreement_iff`: for such a bundle the verifier agrees with the builder exactly
  when the block files bind to their proofs, the hardware times are in order and the genesis record
  fits. The builder checks none of the three: `late_floor`.
-/

namespace BitGraph

open Js

namespace TimelineBundle

open BlockRead EpochGenesis

/-! ### The bundle -/

namespace Plan

variable {p : Plan}

/-- The last record of the run. -/
def last (p : Plan) : ℕ := p.chosen.ceiling.getD p.t

lemma run_getElem? (i : ℕ) : p.run[i]? =
    if i + p.chosen.floor ≤ p.last then p.lines[p.chosen.floor + i]? else none := by
  rw [run, List.getElem?_drop, List.getElem?_take, last]
  split <;> split <;> first | rfl | omega

end Plan

lemma decimal_ne {m n : ℕ} (h : m ≠ n) : decimal m ≠ decimal n := fun heq =>
  h (by rw [← readDecimal_decimal m, heq, readDecimal_decimal])

lemma find?_blockFiles (ls : List TimelineRecordLine) (k j : ℕ) :
    Fields.find? ((ls.zipIdx k).filterMap fun m =>
        m.1.block?.map fun text => (decimal m.2, Value.str text)) (decimal j)
      = if k ≤ j then (ls[j - k]?.bind fun l => l.block?).map Value.str else none := by
  induction ls generalizing k with
  | nil => simp [Fields.find?]
  | cons l ls ih =>
      rw [List.zipIdx_cons, List.filterMap_cons]
      have hlater : j ≠ k → (if k + 1 ≤ j then (ls[j - (k + 1)]?.bind fun l => l.block?).map Value.str
          else none) = if k ≤ j then ((l :: ls)[j - k]?.bind fun l => l.block?).map Value.str else none := by
        intro hj
        by_cases hle : k + 1 ≤ j
        · rw [if_pos hle, if_pos (by omega), show j - k = j - (k + 1) + 1 by omega,
            List.getElem?_cons_succ]
        · rw [if_neg hle, if_neg (by omega)]
      by_cases hj : j = k
      · subst hj
        rw [if_pos le_rfl, Nat.sub_self, List.getElem?_cons_zero, Option.bind_some]
        cases l.block? with
        | none => 
            dsimp only [Option.map_none]
            rw [ih, if_neg (by omega)]
        | some text =>
            dsimp only [Option.map_some]
            rw [Fields.find?_cons, if_pos rfl]
      · rw [← hlater hj]
        cases l.block? with
        | none => 
            dsimp only [Option.map_none]
            exact ih (k + 1)
        | some text =>
            dsimp only [Option.map_some]
            rw [Fields.find?_cons, if_neg (decimal_ne hj)]
            exact ih (k + 1)

/-- The text of the block file of the `i`-th record of the run. -/
def Plan.blockText (p : Plan) (i : ℕ) : Option Str := p.run[i]?.bind fun l => l.block?

lemma blockFileAt_blockFiles (p : Plan) (i : ℕ) : blockFileAt p.blockFiles i = p.blockText i := by
  rw [blockFileAt, Plan.blockFiles, find?_blockFiles, if_pos (Nat.zero_le i), Nat.sub_zero,
    Plan.blockText]
  cases p.run[i]?.bind fun l => l.block? <;> rfl

section Shape

variable {H : HashFn} {args : BuildArgs} {p : Plan} {f : BlockReadFile} {fileMs : ℤ}

lemma Cut.t_le (h : Cut H args p f fileMs) : p.t ≤ p.last := by
  rw [Plan.last]
  cases hc : p.chosen.ceiling with
  | none => exact le_rfl
  | some c => exact (h.ceiling c hc).gt.le

lemma Cut.last_lt (h : Cut H args p f fileMs) : p.last < p.lines.length := by
  rw [Plan.last]
  cases hc : p.chosen.ceiling with
  | none =>
      obtain ⟨l, hl, -⟩ := h.file
      exact (List.getElem?_eq_some_iff.mp hl).1
  | some c => exact (h.ceiling c hc).lt

lemma Cut.length_run (h : Cut H args p f fileMs) :
    p.run.length = p.last + 1 - p.chosen.floor := by
  have := h.last_lt
  rw [Plan.run, List.length_drop, List.length_take, ← Plan.last]
  omega

lemma Cut.getElem?_run (h : Cut H args p f fileMs) {i : ℕ} (hi : i < p.run.length) :
    p.run[i]? = p.lines[p.chosen.floor + i]? := by
  rw [h.length_run] at hi
  rw [Plan.run_getElem?, if_pos (by omega)]

lemma Cut.target_lt (h : Cut H args p f fileMs) : p.t - p.chosen.floor < p.run.length := by
  have := h.t_le
  have := h.floor.lt
  rw [h.length_run]
  omega

/-- The place of the file in the run. -/
lemma Cut.file_run (h : Cut H args p f fileMs) : ∃ l, p.run[p.t - p.chosen.floor]? = some l ∧
    l.kind ≠ .block ∧ args.nitroTimeMs l.proof = some fileMs := by
  obtain ⟨l, hl, hfile⟩ := h.file
  have := h.floor.lt
  refine ⟨l, ?_, hfile⟩
  rw [h.getElem?_run h.target_lt, ← hl]
  congr 1
  omega

lemma Cut.floor_run (h : Cut H args p f fileMs) : ∃ l, p.run[0]? = some l ∧ l.read? = some f := by
  have hread := h.floor.read
  rw [readAt, Option.bind_eq_some_iff] at hread
  obtain ⟨l, hl, hread⟩ := hread
  refine ⟨l, ?_, hread⟩
  rw [h.getElem?_run (Nat.zero_lt_of_lt h.target_lt), Nat.add_zero, hl]

lemma Cut.entries (h : Cut H args p f fileMs) :
    p.blockFiles.findSome? (blockFileReason p.run.length (p.t - p.chosen.floor)) = none := by
  rw [List.findSome?_eq_none_iff]
  intro m hm
  obtain ⟨⟨l, i⟩, hl, hm⟩ := List.mem_filterMap.mp hm
  obtain ⟨text, htext, rfl⟩ := Option.map_eq_some_iff.mp hm
  have hget := List.mk_mem_zipIdx_iff_getElem?.mp hl
  have hlt : i < p.run.length := (List.getElem?_eq_some_iff.mp hget).1
  have hne : i ≠ p.t - p.chosen.floor := by
    rintro rfl
    obtain ⟨l', hl', hkind, -⟩ := h.file_run
    obtain rfl := Option.some.inj (hget.symm.trans hl')
    rw [TimelineRecordLine.block?, if_neg hkind] at htext
    cases htext
  rw [blockFileReason, isNumeral_decimal, readDecimal_decimal, if_neg, if_neg hne]
  simp [isText, hlt]

lemma genesisOf_isObject {genesis : Option TimelineRecordLine} {proof : Value} {text : Str}
    (h : genesisOf genesis = some (proof, text)) :
    isObject proof = true ∧ isObject (proof.get (js "commit")) = true := by
  obtain ⟨g, -, h⟩ := Option.bind_eq_some_iff.mp h
  split at h
  · obtain ⟨file, -, hfile⟩ := Option.map_eq_some_iff.mp h
    obtain ⟨rfl, -⟩ := Prod.mk.inj hfile
    exact ⟨g.proof_isObject, g.commit_isObject⟩
  · cases h

/-- What the builder makes has the shape of a bundle. -/
lemma Cut.bundleShape_bundle (h : Cut H args p f fileMs) : ∃ b, bundleShape p.bundle = .ok b ∧
    b.proofs = p.run.map (fun l => l.proof) ∧ b.target = p.t - p.chosen.floor ∧
    b.blockFile = p.blockText ∧ b.genesis = p.genesis := by
  have htarget := h.target_lt
  have hpos : 0 < p.t - p.chosen.floor := Nat.sub_pos_of_lt h.floor.lt
  have hlen : p.run.length < 2 ^ 53 := by
    have := h.length_run
    have := h.last_lt
    have := h.length_lt
    omega
  have hcount : count? (.num (.ofNat (p.t - p.chosen.floor))) = some (p.t - p.chosen.floor) := by
    rw [count?, toInt?_ofNat (htarget.trans hlen)]
    exact if_pos (by rw [maxSafe]; omega)
  have hproofs : ¬ ((p.run.map fun l => l.proof).length < 2 ∨
      (p.run.map fun l => l.proof).any (fun p => !isObject p) = true) := by
    rw [not_or, List.length_map, Bool.not_eq_true, List.any_eq_false]
    refine ⟨by omega, fun v hv => ?_⟩
    obtain ⟨l, -, rfl⟩ := List.mem_map.mp hv
    simp [l.proof_isObject]
  have hzero : (blockFileAt p.blockFiles 0).isSome = true := by
    obtain ⟨l, hl, hread⟩ := h.floor_run
    obtain ⟨text, htext, -⟩ := Option.bind_eq_some_iff.mp hread
    rw [blockFileAt_blockFiles, Plan.blockText, hl, Option.bind_some, htext]
    rfl
  have hfiles : blockFileAt p.blockFiles = p.blockText := funext (blockFileAt_blockFiles p)
  have hentries := h.entries
  rw [← List.length_map (fun l : TimelineRecordLine => l.proof)] at hentries htarget
  have hgenesis : genesisEntry (p.bundle.get (js "genesis")) = .ok p.genesis := by
    cases hg : p.genesis with
    | none =>
        rw [Plan.bundle, hg]
        rfl
    | some entry =>
        obtain ⟨proof, text⟩ := entry
        have hobject := (genesisOf_isObject (h.genesis.symm.trans hg)).1
        have hget : p.bundle.get (js "genesis")
            = .obj [(js "proof", proof), (js "file", .str text)] := by
          rw [Plan.bundle, hg]
          rfl
        rw [hget]
        exact if_pos hobject
  refine ⟨⟨_, _, blockFileAt p.blockFiles, p.genesis, hpos, htarget, blockFileAt_target hentries,
    hzero⟩, ?_, rfl, rfl, hfiles, rfl⟩
  have hshape : bundleShape p.bundle = withFiles _ _ ⟨hpos, htarget⟩ p.blockFiles
      (genesisEntry (p.bundle.get (js "genesis"))) :=
    bundleShape_eq_withFiles (v := .num (.ofNat (p.t - p.chosen.floor))) rfl rfl hproofs rfl hcount
      ⟨hpos, htarget⟩ rfl
  rw [hshape, hgenesis, withFiles_eq_map hentries hzero]
  rfl

end Shape

/-! ### The facts -/

/-- The bytes a proof of the run is checked against. -/
def Plan.proofBytes (p : Plan) (fileBytes : Option Bytes) (i : ℕ) : Option Bytes :=
  match p.blockText i with
  | some text => some (utf8Encode text)
  | none => if i = p.t - p.chosen.floor then fileBytes else none

/-- The verifier is given the bundle, the proofs verify at the times the builder read, and the
lookups confirm every label and the genesis record. -/
structure Vouched (toLowerCase : Str → Str) (args : BuildArgs) (p : Plan)
    (opts : TimelineBundleOptions) : Prop where
  bundle : opts.bundle = p.bundle
  lagLimits : opts.lagLimits = args.lagLimits
  attested : ∀ i l, p.run[i]? = some l → ∃ r ms,
    opts.attested i l.proof (p.proofBytes opts.fileBytes i) = .ok r ∧ r.time = some ms ∧
      args.nitroTimeMs l.proof = some ms
  genesisAttested : ∀ proof text, p.genesis = some (proof, text) → ∃ r,
    opts.attested p.run.length proof (some (utf8Encode text)) = .ok r ∧ r.valid = true
  labels : ∀ i l f, p.run[i]? = some l → l.read? = some f → ∃ lookups c,
    opts.lookups = some lookups ∧ lookups.block i f.chain f.chainId f.hash = .ok (some c) ∧
      Confirms toLowerCase f c
  genesisOnBase : ∀ proof text g, p.genesis = some (proof, text) →
    parseEpochGenesisFile text = some g → ∃ lookups genesisTx genesisBlock t bk,
      opts.lookups = some lookups ∧ lookups.genesisTx = some genesisTx ∧
      lookups.genesisBlock = some genesisBlock ∧ genesisTx g.txHash = .ok (some t) ∧
      genesisBlock g.blockHash = .ok (some bk) ∧ txReasons toLowerCase g t = [] ∧
      EpochGenesis.blockReasons toLowerCase g bk = []

/-- The bundle of a plan, as the verifier reads it. -/
structure Shaped (p : Plan) (b : TimelineBundle) : Prop where
  proofs : b.proofs = p.run.map fun l => l.proof
  target : b.target = p.t - p.chosen.floor
  blockFile : b.blockFile = p.blockText
  genesis : b.genesis = p.genesis

/-- Every block file of the run is a block read of its proof. -/
def FilesBind (H : HashFn) (p : Plan) : Prop :=
  ∀ (i : ℕ) (l : TimelineRecordLine) (text : Str), p.run[i]? = some l → l.block? = some text →
    ∃ f, BlockRead.Binds H text f l.proof

section Facts

variable {H : HashFn} {toLowerCase : Str → Str} {opts : TimelineBundleOptions} {args : BuildArgs}
  {p : Plan} {b : TimelineBundle} {f g : BlockReadFile} {fileMs : ℤ} {i : ℕ} {l : TimelineRecordLine}
  (hb : Shaped p b) (hl : p.run[i]? = some l)

include hb

lemma Shaped.length : b.proofs.length = p.run.length := by rw [hb.proofs, List.length_map]

include hl

lemma Shaped.proof : b.proof i = l.proof := by
  rw [TimelineBundle.proof, hb.proofs, List.getD_eq_getElem?_getD, List.getElem?_map, hl]
  rfl

lemma Shaped.proofBytes : TimelineBundle.proofBytes opts b i = p.proofBytes opts.fileBytes i := by
  rw [TimelineBundle.proofBytes, hb.blockFile, hb.target]
  rfl

/-- A proof verifies at the time the builder read. -/
lemma Vouched.attestedAt (hv : Vouched toLowerCase args p opts) : ∃ ms,
    TimelineBundle.attestedAt opts b i = some ms ∧ args.nitroTimeMs l.proof = some ms := by
  obtain ⟨r, ms, hr, htime, hms⟩ := hv.attested i l hl
  refine ⟨ms, ?_, hms⟩
  rw [TimelineBundle.attestedAt, hb.proof hl, hb.proofBytes hl, hr]
  exact htime

/-- The reads of the bundle are those of the records. -/
lemma Shaped.reads (hfiles : FilesBind H p) :
    TimelineBundle.reads H toLowerCase b i = l.read? := by
  have htext : b.blockFile i = l.block? := by
    rw [hb.blockFile, Plan.blockText, hl, Option.bind_some]
  cases hblock : l.block? with
  | none => rw [TimelineBundle.reads, htext, TimelineRecordLine.read?, hblock]; rfl
  | some text =>
      obtain ⟨f, hf⟩ := hfiles i l text hl hblock
      rw [TimelineRecordLine.read?, hblock, Option.bind_some, hf.parse, reads_eq_some]
      exact ⟨text, htext.trans hblock, hb.proof hl ▸ hf⟩

omit hl

/-- No block file is objected to exactly when they all bind. -/
lemma Shaped.fileReasons : TimelineBundle.fileReasons H toLowerCase b = [] ↔ FilesBind H p := by
  rw [TimelineBundle.fileReasons, List.flatMap_eq_nil_iff]
  constructor
  · intro h i l text hl hblock
    have hlt : i < b.proofs.length := hb.length ▸ (List.getElem?_eq_some_iff.mp hl).1
    have hnil := h i (List.mem_range.mpr hlt)
    rw [hb.blockFile, Plan.blockText, hl, Option.bind_some, hblock] at hnil
    dsimp only at hnil
    split at hnil
    · next haccepted =>
      obtain ⟨f, hf⟩ := Option.isSome_iff_exists.mp haccepted
      rw [fileCheck, checkBlockRead_offline, hb.proof hl] at hf
      exact ⟨f, hf⟩
    · next hrejected =>
      exact absurd (List.map_eq_nil_iff.mp hnil)
        (checkBlockRead_rejected (Option.not_isSome_iff_eq_none.mp hrejected))
  · intro h i hi
    rw [hb.blockFile, Plan.blockText]
    split
    · rfl
    · next text htext =>
      obtain ⟨l, hl, hblock⟩ := Option.bind_eq_some_iff.mp htext
      obtain ⟨f, hf⟩ := h i l text hl hblock
      rw [fileCheck, checkBlockRead_offline.mpr (hb.proof hl ▸ hf)]
      rfl

include hl

/-- A read of the run is settled as what its label says. -/
lemma Vouched.settled (hv : Vouched toLowerCase args p opts) (hrun : Unbroken H b.proofs)
    (hread : l.read? = some g) : ∃ x, Settled toLowerCase opts b (i, g) (some x) ∧
      x.toBlock = g.block ∧ x.index = i ∧ some x.attestedAtMs = args.nitroTimeMs l.proof ∧
      x.lagS = lagOf x.attestedAtMs g.timestamp := by
  obtain ⟨lookups, c, hlookups, hc, hconfirms⟩ := hv.labels i l g hl hread
  obtain ⟨ms, hms, hnitro⟩ := hv.attestedAt hb hl
  have hlt : i < b.proofs.length := hb.length ▸ (List.getElem?_eq_some_iff.mp hl).1
  obtain ⟨counter, hcounter⟩ := counter_string hrun hlt
  have hx : ∃ x, boundAt b i g.block ms = .ok x := by
    rw [boundAt, hcounter]
    exact ⟨_, rfl⟩
  obtain ⟨x, hx⟩ := hx
  obtain ⟨hblock, hindex, hat, hlag⟩ := boundAt_eq hx
  exact ⟨x, ⟨lookups, c, ms, hlookups, hc, hconfirms, hms, hx⟩, hblock, hindex, by rw [hat, hnitro],
    by rw [hlag, hat]; rfl⟩

end Facts

/-! ### The bracket of the run -/

lemma exists_forall₂ {α β : Type} {R : α → β → Prop} {l : List α} (h : ∀ a ∈ l, ∃ c, R a c) :
    ∃ m, List.Forall₂ R l m := by
  induction l with
  | nil => exact ⟨[], .nil⟩
  | cons a l ih =>
      obtain ⟨ha, hl⟩ := List.forall_mem_cons.mp h
      obtain ⟨c, hc⟩ := ha
      obtain ⟨m, hm⟩ := ih hl
      exact ⟨c :: m, .cons hc hm⟩

/-- A block that none of the later ones is above is kept. -/
lemma foldl_keepHigher_stay {ms : ℤ} {x : TimelineBound} {settled : List (Option TimelineBound)}
    (h : ∀ o ∈ settled, ∀ z ∈ o, ms < z.timestamp * 1000 ∨ z.number ≤ x.number) :
    settled.foldl (keepHigher ms) (some x) = some x := by
  induction settled with
  | nil => rfl
  | cons o settled ih =>
      obtain ⟨ho, hrest⟩ := List.forall_mem_cons.mp h
      have hkeep : keepHigher ms (some x) o = some x := by
        cases o with
        | none => rfl
        | some z =>
            rw [keepHigher]
            split
            · rfl
            · next hearly =>
              have hle := (ho z rfl).resolve_left hearly
              rw [if_neg (by simpa using hle)]
      rw [List.foldl_cons, hkeep, ih hrest]

lemma Number.mk_ne_nan (neg : Bool) (sig : ℕ) (e : ℤ) : Number.mk neg sig e ≠ .nan := by
  rw [Number.mk]
  split <;> rintro ⟨⟩

/-- A lag is a number. -/
lemma lagOf_ne_nan (at_ : ℤ) (timestamp : ℕ) : lagOf at_ timestamp ≠ .nan := by
  rw [lagOf, Number.ofRat]
  split
  · exact nofun
  · rw [roundPos]
    split <;> exact Number.mk_ne_nan _ _ _

lemma numberLe_iff {a c : Number} : numberLe a c = true ↔ a ≠ .nan ∧ c ≠ .nan ∧ Number.lt c a = false := by
  rw [numberLe, Bool.and_eq_true, Bool.and_eq_true, bne_iff_ne, bne_iff_ne, Bool.not_eq_true', and_assoc]

lemma qualifies_iff {args : BuildArgs} {lines : List TimelineRecordLine} {ms at_ : ℤ}
    {f g : BlockReadFile} {j : ℕ} {l : TimelineRecordLine} (hl : lines[j]? = some l)
    (hread : l.read? = some g) (hat : args.nitroTimeMs l.proof = some at_) :
    qualifies args lines ms f j = true ↔ g.chain = f.chain ∧ ms < (g.timestamp : ℤ) * 1000 ∧
      f.number < g.number ∧
      numberLe (lagOf at_ g.timestamp) ((args.lagLimits f.chain).getD (defaultLagLimits f.chain)).maxS = true ∧
      numberLe ((args.lagLimits f.chain).getD (defaultLagLimits f.chain)).minS (lagOf at_ g.timestamp) = true := by
  rw [qualifies, readAt, hl, Option.bind_some, Option.bind_some, hread, hat]
  simp only [Bool.and_eq_true, decide_eq_true_eq, and_assoc]

lemma exists_of_qualifies {args : BuildArgs} {lines : List TimelineRecordLine} {ms : ℤ}
    {f : BlockReadFile} {j : ℕ} (h : qualifies args lines ms f j = true) :
    ∃ l g at_, lines[j]? = some l ∧ l.read? = some g ∧ args.nitroTimeMs l.proof = some at_ := by
  rw [qualifies.eq_def] at h
  split at h
  · next g at_ hread hat =>
    obtain ⟨l, hl, hread⟩ := Option.bind_eq_some_iff.mp hread
    rw [hl, Option.bind_some] at hat
    exact ⟨l, g, at_, hl, hread, hat⟩
  · cases h

section Run

variable {H : HashFn} {toLowerCase : Str → Str} {opts : TimelineBundleOptions} {args : BuildArgs}
  {p : Plan} {b : TimelineBundle} {f : BlockReadFile} {fileMs : ℤ}
  (hcut : Cut H args p f fileMs) (hv : Vouched toLowerCase args p opts) (hb : Shaped p b)
  (hrun : Unbroken H b.proofs) (hfiles : FilesBind H p)

include hcut hb hfiles in
lemma reads_zero : reads H toLowerCase b 0 = some f := by
  obtain ⟨l, hl, hread⟩ := hcut.floor_run
  rw [hb.reads hl hfiles, hread]

include hb hfiles in
/-- A read of the bundle is a read of a record. -/
lemma record_of_mem {chain : BlockReadChain} {r : ℕ × BlockReadFile}
    (hr : r ∈ sameChain H toLowerCase b chain) :
    ∃ l, p.run[r.1]? = some l ∧ l.read? = some r.2 ∧ r.2.chain = chain := by
  obtain ⟨hlt, hread, hchain⟩ := mem_sameChain.mp hr
  rw [hb.length] at hlt
  obtain ⟨l, hl⟩ : ∃ l, p.run[r.1]? = some l := ⟨_, List.getElem?_eq_getElem hlt⟩
  exact ⟨l, hl, (hb.reads hl hfiles).symm.trans hread, hchain⟩

variable (H toLowerCase b) in
lemma sameChain_pairwise (chain : BlockReadChain) :
    (sameChain H toLowerCase b chain).Pairwise fun r s => r.1 < s.1 := by
  rw [sameChain, List.pairwise_filterMap]
  refine List.pairwise_lt_range.imp fun {i j} hij r hr s hs => ?_
  obtain ⟨g, -, rfl⟩ := Option.map_eq_some_iff.mp hr
  obtain ⟨g', -, rfl⟩ := Option.map_eq_some_iff.mp hs
  exact hij

variable (toLowerCase) in
include hcut hb hfiles in
lemma sameChain_eq_cons : ∃ rest, sameChain H toLowerCase b f.chain = (0, f) :: rest := by
  have hlen : 0 < b.proofs.length := Nat.zero_lt_of_lt b.target_lt
  obtain ⟨n, hn⟩ := Nat.exists_eq_succ_of_ne_zero hlen.ne'
  rw [sameChain, hn, List.range_succ_eq_map, List.filterMap_cons, reads_zero hcut hb hfiles,
    Option.filter_some, if_pos (decide_eq_true rfl)]
  exact ⟨_, rfl⟩

include hcut hv hb hrun hfiles in
/-- The floor read of the plan is the floor of its bundle. -/
lemma isFloor_run : ∃ x, IsFloor toLowerCase opts b fileMs
      ((sameChain H toLowerCase b f.chain).filter fun c => c.1 < b.target) x ∧
    x.toBlock = f.block ∧ x.index = 0 ∧
    ∃ l, p.run[0]? = some l ∧ some x.attestedAtMs = args.nitroTimeMs l.proof := by
  obtain ⟨l, hl, hread⟩ := hcut.floor_run
  obtain ⟨x, hx, hblock, hindex, hat, -⟩ := hv.settled hb hl hrun hread
  obtain ⟨rest, hrest⟩ := sameChain_eq_cons toLowerCase hcut hb hfiles
  have hfilter : (sameChain H toLowerCase b f.chain).filter (fun c => c.1 < b.target)
      = (0, f) :: rest.filter fun c => c.1 < b.target := by
    rw [hrest, List.filter_cons_of_pos (by simpa using b.target_pos)]
  -- every later read before the file is settled as a block not above the floor, or too late
  have hlater : ∀ r ∈ rest.filter (fun c => c.1 < b.target), ∃ o, Settled toLowerCase opts b r o ∧
      ∀ z ∈ o, fileMs < z.timestamp * 1000 ∨ z.number ≤ x.number := by
    intro r hr
    obtain ⟨hr, hlt⟩ := List.mem_filter.mp hr
    obtain ⟨l', hl', hread', hchain⟩ := record_of_mem hb hfiles
      (r := r) (by rw [hrest]; exact List.mem_cons_of_mem _ hr)
    obtain ⟨z, hz, hzblock, -⟩ := hv.settled hb hl' hrun hread'
    refine ⟨some z, hz, fun z' hz' => ?_⟩
    obtain rfl := Option.some.inj hz'
    have hat' : readAt p.lines (p.chosen.floor + r.1) = some r.2 := by
      rw [readAt, ← hcut.getElem?_run (List.getElem?_eq_some_iff.mp hl').1, hl']
      exact hread'
    have hlt' : r.1 < p.t - p.chosen.floor := hb.target ▸ of_decide_eq_true hlt
    by_cases htime : (r.2.timestamp : ℤ) * 1000 ≤ fileMs
    · right
      rw [hzblock, hblock]
      exact hcut.floor.highest _ _ (by omega) (by omega) hat' hchain htime
    · left
      rw [hzblock]
      exact not_le.mp htime
  obtain ⟨settled, hsettled⟩ := exists_forall₂ hlater
  refine ⟨x, ⟨some x :: settled, ?_, ?_⟩, hblock, hindex, l, hl, hat⟩
  · rw [hfilter]
    exact .cons hx (hsettled.imp fun _ _ h => h.1)
  · have hearly : ¬ fileMs < x.timestamp * 1000 := by
      rw [hblock]
      exact not_lt.mpr hcut.floor.time
    rw [List.foldl_cons, keepHigher, if_neg hearly, Option.all_none, if_pos rfl]
    refine foldl_keepHigher_stay fun o ho => ?_
    obtain ⟨r, -, hr⟩ := exists_of_forall₂ hsettled ho
    exact hr.2

lemma exists_split {chain : BlockReadChain} {q : ℕ × BlockReadFile → Bool} {r : ℕ × BlockReadFile}
    (hr : r ∈ (sameChain H toLowerCase b chain).filter q) :
    ∃ before after, (sameChain H toLowerCase b chain).filter q = before ++ r :: after ∧
      ∀ s ∈ before, s ∈ sameChain H toLowerCase b chain ∧ q s = true ∧ s.1 < r.1 := by
  obtain ⟨before, after, hsplit⟩ := List.append_of_mem hr
  refine ⟨before, after, hsplit, fun s hs => ?_⟩
  have hmem : s ∈ (sameChain H toLowerCase b chain).filter q := by
    rw [hsplit]
    exact List.mem_append_left _ hs
  have hpair := (sameChain_pairwise H toLowerCase b chain).filter q
  rw [hsplit] at hpair
  exact ⟨(List.mem_filter.mp hmem).1, (List.mem_filter.mp hmem).2,
    (List.pairwise_append.mp hpair).2.2 s hs r List.mem_cons_self⟩

include hcut hv hb hrun hfiles in
/-- The ceiling read of the plan is the ceiling of its bundle, if its dates can be written. -/
lemma isCeiling_run {c : ℕ} (hc : p.chosen.ceiling = some c) {x : TimelineBound}
    (hx : x.toBlock = f.block) : ∃ y g l,
      readAt p.lines c = some g ∧ p.lines[c]? = some l ∧ y.index = c - p.chosen.floor ∧
      some y.attestedAtMs = args.nitroTimeMs l.proof ∧
      (isDate fileMs = true → isDate (g.timestamp * 1000) = true →
        IsCeiling toLowerCase opts b fileMs x
          ((sameChain H toLowerCase b f.chain).filter fun c => b.target < c.1) y) := by
  have hcceil := hcut.ceiling c hc
  have hlast : p.last = c := by rw [Plan.last, hc]; rfl
  have hfloor := hcut.floor.lt
  have hgt := hcceil.gt
  obtain ⟨l, g, at_, hl, hread, hat⟩ := exists_of_qualifies hcceil.qualifies
  obtain ⟨hchain, htime, hnumber, hmax, hmin⟩ := (qualifies_iff hl hread hat).mp hcceil.qualifies
  have hindex : p.chosen.floor + (c - p.chosen.floor) = c := by omega
  have hlt : c - p.chosen.floor < p.run.length := by
    rw [hcut.length_run, hlast]
    omega
  have hlrun : p.run[c - p.chosen.floor]? = some l := by rw [hcut.getElem?_run hlt, hindex, hl]
  obtain ⟨y, hy, hyblock, hyindex, hyat, hylag⟩ := hv.settled hb hlrun hrun hread
  have hylag' : y.lagS = lagOf at_ g.timestamp := by
    rw [hylag, Option.some.inj (hyat.trans hat)]
  have hlimit : ∀ z : TimelineBound, z.chain = f.chain → lagLimit opts z.chain
      = (args.lagLimits f.chain).getD (defaultLagLimits f.chain) := fun z hz => by
    rw [lagLimit, hv.lagLimits, hz]
  have hxnumber : x.number = f.number := congrArg Block.number hx
  refine ⟨y, g, l, ?_, hl, hyindex, hyat, fun hms hts => ?_⟩
  · rw [readAt, hl]
    exact hread
  have hmem : (c - p.chosen.floor, g) ∈ (sameChain H toLowerCase b f.chain).filter
      fun c => b.target < c.1 := by
    rw [List.mem_filter, mem_sameChain, hb.length, hb.target]
    exact ⟨⟨hlt, (hb.reads hlrun hfiles).trans hread, hchain⟩, decide_eq_true (by
      dsimp only; omega)⟩
  obtain ⟨before, after, hsplit, hbefore⟩ := exists_split hmem
  refine ⟨before, _, after, hsplit, fun r hr => ?_, hy, ?_, hms, ?_⟩
  · -- a read before the ceiling: the builder passed over it too
    obtain ⟨hr, hlater, hrlt⟩ := hbefore r hr
    have hlater : p.t - p.chosen.floor < r.1 := hb.target ▸ of_decide_eq_true hlater
    obtain ⟨l', hl', hread', hchain'⟩ := record_of_mem hb hfiles hr
    obtain ⟨z, hz, hzblock, -, hzat, hzlag⟩ := hv.settled hb hl' hrun hread'
    refine ⟨some z, hz, fun z' hz' => ?_⟩
    obtain rfl := Option.some.inj hz'
    have hfirst := hcceil.first (p.chosen.floor + r.1) (by omega) (by dsimp only at hrlt; omega)
    have hl'' : p.lines[p.chosen.floor + r.1]? = some l' := by
      rw [← hcut.getElem?_run (List.getElem?_eq_some_iff.mp hl').1, hl']
    by_contra hnone
    rw [Option.not_isSome_iff_eq_none, notCeiling_eq_none, outside_eq_none,
      hlimit z (congrArg Block.chain hzblock |>.trans hchain'), hxnumber] at hnone
    obtain ⟨hztime, hznumber, hzmax, hzmin⟩ := hnone
    have hq : qualifies args p.lines fileMs f (p.chosen.floor + r.1) = true := by
      rw [qualifies_iff hl'' hread' hzat.symm]
      rw [hzlag] at hzmax hzmin
      have ht : z.timestamp = r.2.timestamp := congrArg Block.timestamp hzblock
      have hn : z.number = r.2.number := congrArg Block.number hzblock
      exact ⟨hchain', ht ▸ hztime, hn ▸ hznumber,
        numberLe_iff.mpr ⟨lagOf_ne_nan _ _, (numberLe_iff.mp hmax).2.1, hzmax⟩,
        numberLe_iff.mpr ⟨(numberLe_iff.mp hmin).1, lagOf_ne_nan _ _, hzmin⟩⟩
    rw [hq] at hfirst
    cases hfirst
  · rw [notCeiling_eq_none, outside_eq_none, hlimit y (congrArg Block.chain hyblock |>.trans hchain),
      hylag', hxnumber, hyblock]
    exact ⟨htime, hnumber, (numberLe_iff.mp hmax).2.2, (numberLe_iff.mp hmin).2.2⟩
  · rw [hyblock]
    exact hts

end Run

/-! ### The genesis record -/

/-- The record fits the file: the same key, another count, a proof that binds it, the same epoch. -/
structure GenesisFits (H : HashFn) (toLowerCase : Str → Str) (proof : Value) (text : Str)
    (target : Value) : Prop where
  key : Value.strictEq ((proof.get (js "signer")).get (js "publicKeyB64"))
    ((target.get (js "signer")).get (js "publicKeyB64")) = true
  order : ∃ gc tc, payloadCount (proof.get (js "commit")) = some gc ∧
    payloadCount (target.get (js "commit")) = some tc ∧ gc ≠ tc
  check : ∃ check, checkEpochGenesis H toLowerCase text proof none none none true = .ok check ∧
    check.ok = true ∧ ∀ g ∈ check.genesis, (target.get (js "commit")).get (js "epochId") = .str g.epochId

lemma prop_of_isObject {v : Value} {k : Str} (h : isObject v = true) : v.prop k = .ok (v.get k) := by
  cases v <;> first | rfl | cases h

section Genesis

variable {H : HashFn} {toLowerCase : Str → Str} {opts : TimelineBundleOptions} {b : TimelineBundle}
  {proof : Value} {text : Str}

variable (H toLowerCase text) in
/-- A record of an object with a `commit` is checked without an exception. -/
lemma exists_checkEpochGenesis (h : isObject (proof.get (js "commit")) = true)
    (tx : Option EpochGenesisTx) (block : Option EpochGenesisBlock) :
    ∃ check, checkEpochGenesis H toLowerCase text proof tx block none true = .ok check := by
  rw [checkEpochGenesis]
  cases parseEpochGenesisFile text with
  | none => exact ⟨_, rfl⟩
  | some g =>
      dsimp only
      rw [EpochGenesis.bindReasons, prop_of_isObject h]
      exact ⟨_, rfl⟩

/-- A record that passes, and with which Base agrees, passes with Base's answers. -/
lemma checkEpochGenesis_online {check : EpochGenesisCheck} {g : EpochGenesisFile} {t : EpochGenesisTx}
    {bk : EpochGenesisBlock}
    (h : checkEpochGenesis H toLowerCase text proof none none none true = .ok check)
    (hok : check.ok = true) (hg : check.genesis = some g) (htx : txReasons toLowerCase g t = [])
    (hblock : EpochGenesis.blockReasons toLowerCase g bk = []) :
    ∃ online, checkEpochGenesis H toLowerCase text proof (some t) (some bk) none true = .ok online ∧
      online.ok = true := by
  rw [checkEpochGenesis] at h ⊢
  split at h
  · obtain rfl := Except.ok.inj h
    cases hok
  · next g' hparse =>
    obtain ⟨bound, hbound, h⟩ := bind_eq_ok h
    obtain rfl := Except.ok.inj h
    obtain rfl := Option.some.inj hg
    rw [hbound, ok_bind]
    refine ⟨_, rfl, ?_⟩
    have hnil : bound = [] := by simpa using hok
    simp [hnil, htx, hblock]

variable (H toLowerCase) in
lemma genesisOffline_fits {r : AttestedResult}
    (hr : opts.attested b.proofs.length proof (some (utf8Encode text)) = .ok r)
    (hvalid : r.valid = true) (hcommit : isObject (proof.get (js "commit")) = true) :
    ∃ genesis pre reasons, genesisOffline H toLowerCase opts b proof text = .ok (genesis, pre, reasons) ∧
      (reasons = [] ↔ GenesisFits H toLowerCase proof text (b.proof b.target)) ∧
      ∃ check, checkEpochGenesis H toLowerCase text proof none none none true = .ok check ∧
        check.genesis = genesis := by
  obtain ⟨check, hcheck⟩ := exists_checkEpochGenesis H toLowerCase text hcommit none none
  rw [genesisOffline, hr, ok_bind]
  dsimp only
  rw [hcheck, ok_bind]
  refine ⟨_, _, _, rfl, ?_, check, rfl, rfl⟩
  rw [hvalid]
  simp only [List.append_eq_nil_iff, reasonUnless_eq_nil]
  have hshape : (if check.ok = true then [] else check.reasons.map fun x => js "genesis: " ++ x) = [] ↔
      check.ok = true := by
    split
    · next hok => exact iff_of_true rfl hok
    · next hok =>
      refine iff_of_false (fun h => hok ?_) hok
      rw [checkEpochGenesis_reasons hcheck, List.map_eq_nil_iff.mp h]
      rfl
  rw [hshape]
  constructor
  · rintro ⟨⟨⟨⟨-, hkey⟩, horder⟩, hok⟩, hepoch⟩
    refine ⟨hkey, ?_, check, hcheck, hok, fun g hg => ?_⟩
    · split at horder
      · next gc tc hgc htc =>
        rw [reasonUnless_eq_nil, bne_iff_ne] at horder
        exact ⟨gc, tc, hgc, htc, horder⟩
      · cases horder
    · rw [Option.mem_def.mp hg, Option.all_some, beq_iff_eq] at hepoch
      exact hepoch
  · rintro ⟨hkey, ⟨gc, tc, hgc, htc, hne⟩, check', hcheck', hok, hepoch⟩
    obtain rfl := Except.ok.inj (hcheck'.symm.trans hcheck)
    refine ⟨⟨⟨⟨trivial, hkey⟩, ?_⟩, hok⟩, ?_⟩
    · rw [hgc, htc]
      exact reasonUnless_eq_nil.mpr (bne_iff_ne.mpr hne)
    · cases hg : check'.genesis with
      | none => rfl
      | some g =>
          rw [Option.all_some, beq_iff_eq]
          exact hepoch g hg

end Genesis

/-! ### Agreement -/

section Agreement

variable (H : HashFn) (toLowerCase : Str → Str) (opts : TimelineBundleOptions) (args : BuildArgs)
  (p : Plan)

/-- The hardware time of a record. -/
def timeAt (i : ℕ) : Option ℤ := p.lines[i]?.bind fun l => args.nitroTimeMs l.proof

/-- The verifier agrees: it verifies a bundle with a ceiling, with that floor and that ceiling, and
does not fail one without. -/
def Agreement : Prop :=
  match p.chosen.ceiling with
  | some c => ∃ r x y, verifyTimelineBundle H toLowerCase opts = .ok r ∧ r.status = .verified ∧
      r.floor = some x ∧ r.ceiling = some y ∧ x.index = 0 ∧ y.index = c - p.chosen.floor
  | none => ∀ r, verifyTimelineBundle H toLowerCase opts = .ok r → r.status ≠ .failed

/-- What the verifier checks and the builder does not: the block files bind to their proofs, the
hardware times are in order, the dates of a ceiling can be written, and the genesis record fits, and
is there if there is a ceiling. -/
structure Verifiable : Prop where
  files : FilesBind H p
  floor_time : ∀ a ∈ timeAt args p p.chosen.floor, ∀ m ∈ timeAt args p p.t, a ≤ m
  ceiling_time : ∀ c ∈ p.chosen.ceiling, ∀ m ∈ timeAt args p p.t, ∀ z ∈ timeAt args p c, m ≤ z
  dates : ∀ c ∈ p.chosen.ceiling, ∀ m ∈ timeAt args p p.t, ∀ g ∈ readAt p.lines c,
    isDate m = true ∧ isDate (g.timestamp * 1000) = true
  genesis : ∀ proof text l, p.genesis = some (proof, text) → p.lines[p.t]? = some l →
    GenesisFits H toLowerCase proof text l.proof
  genesis_isSome : p.chosen.ceiling.isSome = true → p.genesis.isSome = true

variable {H toLowerCase opts args p} {b : TimelineBundle} {f : BlockReadFile} {fileMs : ℤ}
  (hcut : Cut H args p f fileMs) (hv : Vouched toLowerCase args p opts) (hb : Shaped p b)

include hcut hv hb

/-- The stage of the genesis record: nothing fails exactly when the record fits. -/
lemma genesisStage_run {l : TimelineRecordLine} (hl : p.lines[p.t]? = some l) :
    ∃ status pre notes, genesisStage H toLowerCase opts b = .ok (status, pre, notes) ∧
      (notes.reasons = [] ↔ ∀ proof text, p.genesis = some (proof, text) →
        GenesisFits H toLowerCase proof text l.proof) ∧
      (notes.Clear ↔ notes.reasons = [] ∧ p.genesis.isSome = true) := by
  have htarget : b.proof b.target = l.proof := by
    obtain ⟨l', hl', -⟩ := hcut.file_run
    have hrun := hcut.getElem?_run hcut.target_lt
    rw [hl', show p.chosen.floor + (p.t - p.chosen.floor) = p.t by
      have := hcut.floor.lt; omega, hl] at hrun
    rw [hb.target, hb.proof hl', Option.some.inj hrun]
  rw [genesisStage, hb.genesis]
  cases hg : p.genesis with
  | none =>
      refine ⟨_, _, _, rfl, iff_of_true rfl (by rintro _ _ ⟨⟩), iff_of_false Notes.not_clear_open fun h => ?_⟩
      cases h.2
  | some entry =>
      obtain ⟨proof, text⟩ := entry
      obtain ⟨r, hr, hvalid⟩ := hv.genesisAttested proof text hg
      rw [← hb.length] at hr
      have hcommit := (genesisOf_isObject (hcut.genesis.symm.trans hg)).2
      obtain ⟨genesis, pre, reasons, hoffline, hfits, check, hcheck, hgenesis⟩ :=
        genesisOffline_fits H toLowerCase hr hvalid hcommit
      rw [htarget] at hfits
      have hall : (∀ proof' text', some (proof, text) = some (proof', text') →
          GenesisFits H toLowerCase proof' text' l.proof) ↔
            GenesisFits H toLowerCase proof text l.proof :=
        ⟨fun h => h proof text rfl, fun h proof' text' heq => by cases heq; exact h⟩
      rw [hall, ← hfits]
      dsimp only
      rw [hoffline, ok_bind]
      dsimp only
      cases reasons with
      | cons reason reasons =>
          refine ⟨_, _, _, rfl, Iff.rfl, iff_of_false (fun h => ?_) fun h => ?_⟩
          · cases h.1
          · cases h.1
      | nil =>
          have hfit := hfits.mp rfl
          obtain ⟨check', hcheck', hok, -⟩ := hfit.check
          obtain rfl := Except.ok.inj (hcheck'.symm.trans hcheck)
          obtain ⟨g, hgg, hbinds, -⟩ := checkEpochGenesis_ok hcheck hok
          obtain ⟨lookups, genesisTx, genesisBlock, t, bk, hlookups, htx, hblock, hgtx, hgblock,
            htxs, hblocks⟩ := hv.genesisOnBase proof text g hg hbinds.parse
          obtain ⟨online, honline, honok⟩ := checkEpochGenesis_online hcheck hok hgg htxs hblocks
          rw [← hgenesis, hgg]
          dsimp only
          rw [genesisOnline.eq_def, hlookups, Option.bind_some, Option.bind_some, htx, hblock]
          dsimp only
          rw [hgtx, hgblock]
          dsimp only [bind, Except.bind, pure, Except.pure]
          rw [honline]
          dsimp only
          rw [if_pos honok]
          exact ⟨_, _, _, rfl, iff_of_true rfl rfl, iff_of_true Notes.clear_empty ⟨rfl, rfl⟩⟩

/-- The time of a record of the run is the time its proof verifies at. -/
lemma attestedAt_run {j : ℕ} (hfloor : p.chosen.floor ≤ j) (hlast : j ≤ p.last) :
    ∃ ms, attestedAt opts b (j - p.chosen.floor) = some ms ∧ timeAt args p j = some ms := by
  have hlt : j - p.chosen.floor < p.run.length := by
    rw [hcut.length_run]
    omega
  have hl := hcut.getElem?_run hlt
  rw [List.getElem?_eq_getElem hlt, show p.chosen.floor + (j - p.chosen.floor) = j by omega] at hl
  obtain ⟨ms, hms, hnitro⟩ := hv.attestedAt hb (List.getElem?_eq_getElem hlt)
  exact ⟨ms, hms, by rw [timeAt, ← hl, Option.bind_some, hnitro]⟩

lemma attestedAt_target : attestedAt opts b b.target = some fileMs ∧ timeAt args p p.t = some fileMs := by
  obtain ⟨l, hl, -, hms⟩ := hcut.file
  obtain ⟨ms, hat, htime⟩ := attestedAt_run hcut hv hb hcut.floor.lt.le hcut.t_le
  have : timeAt args p p.t = some fileMs := by rw [timeAt, hl, Option.bind_some, hms]
  rw [hb.target, hat, ← htime]
  exact ⟨this, this⟩

lemma attestedAt_isSome {i : ℕ} (hi : i < b.proofs.length) : (attestedAt opts b i).isSome = true := by
  rw [hb.length] at hi
  obtain ⟨ms, hms, -⟩ := hv.attestedAt hb (List.getElem?_eq_getElem hi)
  rw [hms]
  rfl

lemma unbroken_run : Unbroken H b.proofs := by
  obtain ⟨s, hs, hreasons⟩ := hcut.stretch
  rw [hb.proofs]
  exact unbroken_of_verifyStretch hs hreasons

/-- A plan with a ceiling: the verifier finds that bracket exactly when the plan is verifiable. -/
lemma brackets_iff (hshape : bundleShape opts.bundle = .ok b) {c : ℕ} (hc : p.chosen.ceiling = some c) :
    (∃ x y, Brackets H toLowerCase opts b x y ∧ x.index = 0 ∧ y.index = c - p.chosen.floor) ↔
      Verifiable H toLowerCase args p := by
  obtain ⟨l, hl, -⟩ := hcut.file
  obtain ⟨htarget, htime⟩ := attestedAt_target hcut hv hb
  obtain ⟨status, pre, notes, hgenesis, hreasons, hclear⟩ := genesisStage_run hcut hv hb hl
  have hlast : p.last = c := by rw [Plan.last, hc]; rfl
  have hle := hcut.t_le
  have hrun := unbroken_run hcut hv hb
  constructor
  · rintro ⟨x, y, h, hx, hy⟩
    have hfiles := hb.fileReasons.mp h.files
    obtain ⟨first, ms, hfirst, hms, hfloor, hceiling, hxms, hyms⟩ := h.bounds
    obtain rfl : ms = fileMs := Option.some.inj (hms.symm.trans htarget)
    have hends := ends_of_bounds hfloor hceiling
    obtain ⟨-, -, -, -, -, -, -, hdate, hydate⟩ := hceiling
    obtain ⟨st, pr, ns, hgen, hgenClear⟩ := h.genesis
    have hout := Prod.mk.inj (Except.ok.inj (hgen.symm.trans hgenesis))
    obtain ⟨-, rfl⟩ := Prod.mk.inj hout.2
    obtain ⟨hreasons', hsome⟩ := hclear.mp hgenClear
    obtain ⟨a, ha, hfloorTime⟩ := attestedAt_run hcut hv hb le_rfl (hcut.floor.lt.le.trans hle)
    obtain ⟨z, hz, hceilTime⟩ := attestedAt_run hcut hv hb (j := c) (hcut.floor.lt.le.trans
      (hle.trans hlast.le)) hlast.ge
    rw [Nat.sub_self, ← hx, hends.floor_at] at ha
    rw [← hy, hends.ceiling_at] at hz
    obtain ⟨text, f', -, -, htext, hbinds, -, -, -, hyblock⟩ := hends.ceiling_read
    have hread : readAt p.lines c = some f' := by
      rw [hb.blockFile, Plan.blockText, hy, hcut.getElem?_run (hy ▸ hb.length ▸ hends.ceiling_lt)] at htext
      obtain ⟨l', hl', hblock⟩ := Option.bind_eq_some_iff.mp htext
      rw [show p.chosen.floor + (c - p.chosen.floor) = c by have := hcut.floor.lt; omega] at hl'
      rw [readAt, hl', Option.bind_some, TimelineRecordLine.read?, hblock]
      exact hbinds.parse
    refine ⟨hfiles, ?_, ?_, ?_, ?_, fun _ => hsome⟩
    · intro a' ha' m hm
      rw [← Option.some.inj (hfloorTime.symm.trans ha'), ← Option.some.inj (htime.symm.trans hm),
        ← Option.some.inj ha]
      exact hxms
    · intro c' hc' m hm z' hz'
      obtain rfl := Option.some.inj (hc.symm.trans hc')
      rw [← Option.some.inj (hceilTime.symm.trans hz'), ← Option.some.inj (htime.symm.trans hm),
        ← Option.some.inj hz]
      exact hyms
    · intro c' hc' m hm g hg
      obtain rfl := Option.some.inj (hc.symm.trans hc')
      rw [← Option.some.inj (htime.symm.trans hm), ← Option.some.inj (hread.symm.trans hg)]
      rw [hyblock] at hydate
      exact ⟨hdate, hydate⟩
    · intro proof text' l' hg hl'
      rw [← Option.some.inj (hl.symm.trans hl')]
      exact hreasons.mp hreasons' proof text' hg
  · intro h
    obtain ⟨x, hfloor, hxblock, hx, l0, hl0, hxat⟩ := isFloor_run hcut hv hb hrun h.files
    obtain ⟨y, g, lc, hg, hlc, hy, hyat, hceiling⟩ := isCeiling_run hcut hv hb hrun h.files hc hxblock
    obtain ⟨hdate, hydate⟩ := h.dates c hc fileMs htime g hg
    have hzero := hcut.getElem?_run (Nat.zero_lt_of_lt hcut.target_lt)
    rw [hl0, Nat.add_zero] at hzero
    refine ⟨x, y, ⟨hshape, ?_, fun i hi => attestedAt_isSome hcut hv hb hi, hb.fileReasons.mpr h.files, ?_,
      status, pre, notes, hgenesis, hclear.mpr ⟨?_, h.genesis_isSome (by rw [hc]; rfl)⟩⟩, hx, hy⟩
    · rw [hb.proofs]
      exact hcut.stretch
    · refine ⟨f, fileMs, reads_zero hcut hb h.files, htarget, hfloor, hceiling hdate hydate, ?_, ?_⟩
      · refine h.floor_time _ ?_ fileMs htime
        rw [timeAt, ← hzero, Option.bind_some, ← hxat]
        rfl
      · refine h.ceiling_time c hc fileMs htime _ ?_
        rw [timeAt, hlc, Option.bind_some, ← hyat]
        rfl
    · exact hreasons.mpr fun proof text hg => h.genesis proof text l hg hl

/-- Without a ceiling the run ends with the file: there is a floor, and the ceiling is left open. -/
lemma bracket_own (hc : p.chosen.ceiling = none) (hfiles : FilesBind H p) :
    ∃ x notes, bracket H toLowerCase opts b (timesOf opts b) f.chain = .ok (some x, none, notes) ∧
      notes.reasons = [] ∧ some x.attestedAtMs = timeAt args p p.chosen.floor := by
  obtain ⟨htarget, -⟩ := attestedAt_target hcut hv hb
  obtain ⟨x, ⟨settled, hall, hfold⟩, -, -, l, hl, hxat⟩ :=
    isFloor_run hcut hv hb (unbroken_run hcut hv hb) hfiles
  obtain ⟨below, hbelow⟩ := floorLoop_of_settled (H := H) (timesOf opts b) none
    candidates_filter hall
  rw [hfold] at hbelow
  have hclear := (floorLoop_some candidates_filter hbelow).2
  have hlast : b.proofs.length = b.target + 1 := by
    have hlen := hcut.length_run
    have hlt := hcut.floor.lt
    rw [Plan.last, hc, Option.getD_none] at hlen
    rw [hb.length, hb.target]
    omega
  have hempty : (sameChain H toLowerCase b f.chain).filter (fun c => b.target < c.1) = [] := by
    rw [List.filter_eq_nil_iff]
    intro r hr
    have := (mem_sameChain.mp hr).1
    simp only [decide_eq_true_eq]
    omega
  have hzero := hcut.getElem?_run (Nat.zero_lt_of_lt hcut.target_lt)
  rw [hl, Nat.add_zero] at hzero
  rw [bracket, timesOf, getD_times b.target_lt, htarget, ← timesOf, hbelow, ok_bind]
  dsimp only
  rw [hempty, ceilingLoop, ok_bind]
  dsimp only
  refine ⟨x, _, rfl, ?_, ?_⟩
  · split <;> simp [Notes.reasons_append, hclear.1, floorFlags_clear.1, Notes.empty, Notes.open_]
  · rw [timeAt, ← hzero, Option.bind_some, hxat]

/-- A plan without a ceiling: the verifier does not fail it exactly when the plan is verifiable. -/
lemma not_failed_iff (hshape : bundleShape opts.bundle = .ok b) (hc : p.chosen.ceiling = none) :
    (∀ r, verifyTimelineBundle H toLowerCase opts = .ok r → r.status ≠ .failed) ↔
      Verifiable H toLowerCase args p := by
  obtain ⟨l, hl, -⟩ := hcut.file
  obtain ⟨htarget, htime⟩ := attestedAt_target hcut hv hb
  obtain ⟨genesis, pre, notes, hgenesis, hreasons, -⟩ := genesisStage_run hcut hv hb hl
  obtain ⟨stretch, hstretch, hnil⟩ := hcut.stretch
  rw [← hb.proofs] at hstretch
  have hrun := unbroken_run hcut hv hb
  obtain ⟨counter, hcounter⟩ := counter_string hrun b.target_lt
  have hattested : attestProofs opts b 0 b.proofs = .ok (timesOf opts b, []) :=
    (attestProofs_eq_ok b.proofs List.drop_zero).mpr
      ⟨fun j hj => attestedAt_isSome hcut hv hb (List.mem_range.mp (List.range_eq_range' ▸ hj)),
        by rw [timesOf, List.range_eq_range']⟩
  have hverify : verifyTimelineBundle H toLowerCase opts = verifyBundle H toLowerCase opts b := by
    rw [verifyTimelineBundle, hshape]
  have hall : (∀ proof text, p.genesis = some (proof, text) →
      GenesisFits H toLowerCase proof text l.proof) ↔ ∀ proof text l, p.genesis = some (proof, text) →
        p.lines[p.t]? = some l → GenesisFits H toLowerCase proof text l.proof :=
    ⟨fun h proof text l' hg hl' => Option.some.inj (hl.symm.trans hl') ▸ h proof text hg,
      fun h proof text hg => h proof text l hg hl⟩
  by_cases hfiles : FilesBind H p
  · obtain ⟨x, bracketed, hbracket, hbnil, hxat⟩ := bracket_own hcut hv hb hc hfiles
    have hfailed : stretch.reasons ++ [] ++ fileReasons H toLowerCase b = [] := by
      rw [hnil, hb.fileReasons.mpr hfiles]
      rfl
    have hstage : bracketStage H toLowerCase opts b (timesOf opts b)
        (stretch.reasons ++ [] ++ fileReasons H toLowerCase b) = .ok (some x, none, bracketed) := by
      rw [hfailed, bracketStage.eq_def, reads_zero hcut hb hfiles]
      exact hbracket
    obtain ⟨r, hr, hstatus⟩ := verifyBundle_failed_iff hstretch hattested hstage hgenesis hcounter
    rw [hfailed, hbnil, timesOf, getD_times b.target_lt, htarget, hreasons, hall] at hstatus
    have hclock : clockReasons (some fileMs) (some x) none = [] ↔ x.attestedAtMs ≤ fileMs := by
      simp [clockReasons, reasonUnless_eq_nil]
    rw [hclock] at hstatus
    constructor
    · intro h
      obtain ⟨-, -, hle, hfits⟩ := hstatus.mp (h r (hverify.trans hr))
      refine ⟨hfiles, fun a ha m hm => ?_, fun c hc' => ?_, fun c hc' => ?_, hfits, fun hsome => ?_⟩
      · rw [← Option.some.inj (hxat.trans ha), ← Option.some.inj (htime.symm.trans hm)]
        exact hle
      · rw [hc] at hc'
        cases hc'
      · rw [hc] at hc'
        cases hc'
      · rw [hc] at hsome
        cases hsome
    · intro h r' hr'
      obtain rfl := Except.ok.inj (hr.symm.trans (hverify.symm.trans hr'))
      exact hstatus.mpr ⟨rfl, rfl, h.floor_time _ hxat.symm _ htime, h.genesis⟩
  · have hne : fileReasons H toLowerCase b ≠ [] := fun h => hfiles (hb.fileReasons.mp h)
    have hstage : bracketStage H toLowerCase opts b (timesOf opts b)
        (stretch.reasons ++ [] ++ fileReasons H toLowerCase b) = .ok (none, none, .empty) := by
      rw [hnil, List.nil_append, List.nil_append]
      obtain ⟨reason, reasons, hcons⟩ := List.exists_cons_of_ne_nil hne
      rw [hcons, bracketStage.eq_def]
      split
      · next hsome => cases hsome
      · rfl
    obtain ⟨r, hr, hstatus⟩ := verifyBundle_failed_iff hstretch hattested hstage hgenesis hcounter
    refine iff_of_false (fun h => ?_) fun h => hfiles h.files
    obtain ⟨hfailed, -⟩ := hstatus.mp (h r (hverify.trans hr))
    exact hne (List.append_eq_nil_iff.mp hfailed).2

end Agreement

/-- A vouched run is agreed on exactly when it is verifiable. -/
lemma Cut.agreement_iff {H : HashFn} {toLowerCase : Str → Str} {opts : TimelineBundleOptions}
    {args : BuildArgs} {p : Plan} {f : BlockReadFile} {fileMs : ℤ} (hcut : Cut H args p f fileMs)
    (hv : Vouched toLowerCase args p opts) :
    Agreement H toLowerCase opts p ↔ Verifiable H toLowerCase args p := by
  obtain ⟨b, hshape, hproofs, htarget, hblockFile, hgenesis⟩ := hcut.bundleShape_bundle
  have hb : Shaped p b := ⟨hproofs, htarget, hblockFile, hgenesis⟩
  rw [← hv.bundle] at hshape
  rw [Agreement]
  cases hc : p.chosen.ceiling with
  | none => exact not_failed_iff hcut hv hb hshape hc
  | some c =>
      rw [← brackets_iff hcut hv hb hshape hc]
      constructor
      · rintro ⟨r, x, y, hr, hverified, hx, hy, hindex⟩
        obtain ⟨b', hbrackets⟩ := verified_iff.mp ⟨r, hr, hverified, hx, hy⟩
        obtain rfl := Except.ok.inj (hbrackets.shape.symm.trans hshape)
        exact ⟨x, y, hbrackets, hindex⟩
      · rintro ⟨x, y, hbrackets, hindex⟩
        obtain ⟨r, hr, hverified, hx, hy⟩ := verified_iff.mpr ⟨b, hbrackets⟩
        exact ⟨r, x, y, hr, hverified, hx, hy, hindex⟩

/-- The builder and the verifier agree exactly on the plans that are verifiable. -/
theorem verify_built_iff {H : HashFn} {toLowerCase : Str → Str} {opts : TimelineBundleOptions}
    {args : BuildArgs} {p : Plan} (hbuild : buildTimelineBundle H args = .ok (.ok p))
    (hv : Vouched toLowerCase args p opts) :
    Agreement H toLowerCase opts p ↔ Verifiable H toLowerCase args p := by
  obtain ⟨f, fileMs, hcut⟩ := cut_of_build hbuild
  exact hcut.agreement_iff hv

/-! ### A floor after the file -/

def sampleLine (kind : RecordKind) (slot counter digest prev : String) (blockFile genesisFile : Option Str) :
    TimelineRecordLine :=
  ⟨kind, sampleProof slot counter digest prev, blockFile, genesisFile, rfl, rfl⟩

def sampleAbove : Str := sampleRead (js "eip155:8453") (js "200") (sampleHash 98) (js "1010")

def sampleLines : List TimelineRecordLine :=
  [sampleLine .block "1" "2" "poRPBE9yP7OHP0pvZHWsJufu5thq0+J6ikA8G9/kmOk=" "" (some sampleFloor) none,
    sampleLine .file "3" "4" "file" "VlTqtojEQDw26WiZNthC3447HjGREmaQwqIuULO15LE=" none none,
    sampleLine .block "5" "6" "oUFgjyVGs0znTRmDLq1tlgwnypIzgisjiA5dPUbbefU="
      "Ajg6iGCvqqq9uh+uuRbcVk4mxJiIXiobPvbR2Gh4wXQ=" (some sampleAbove) none]

def sampleRecord : TimelineRecordLine :=
  sampleLine .genesis "7" "8" "7GA1WnH6MJ1n+wH4TPZwiU5sGUjFfxT2Gu6jzD/Zz9o=" "" none (some sampleGenesis)

/-- The times of a floor at `floorMs`, of the file and of the ceiling. -/
def sampleNitro (floorMs : ℤ) (proof : Value) : Option ℤ :=
  let counter := (proof.get (js "commit")).get (js "counter")
  if counter = .str (js "2") then some floorMs
  else if counter = .str (js "4") then some 1006000 else some 1011000

def sampleArgs (floorMs : ℤ) : BuildArgs where
  lines := sampleLines
  length_lt := by decide
  counter := js "4"
  genesis := some sampleRecord
  lagLimits _ := none
  nitroTimeMs := sampleNitro floorMs

def samplePlan : Plan :=
  ⟨sampleLines, 1, ⟨.base, 0, some 2⟩, [], some (sampleRecord.proof, sampleGenesis)⟩

def sampleVerifying (floorMs : ℤ) : TimelineBundleOptions where
  bundle := samplePlan.bundle
  fileBytes := none
  lookups := some sampleLookups
  lagLimits _ := none
  attested _ proof _ := .ok ⟨true, none, sampleNitro floorMs proof⟩

set_option maxRecDepth 10000 in
/-- What is computed of the fixture: the stretch, the records of its epoch, the choice of a floor and a
ceiling, the labels of the two block files, and the checks of the genesis file. -/
lemma sample_computed :
    ((verifyStretch sha256 (samplePlan.run.map fun l => l.proof)).toOption.map (fun s => s.reasons) = some []
      ∧ (recordsOf sampleLines (sampleLines[1].commit.get (js "epochId"))).toOption = some sampleLines)
    ∧ (choose (sampleArgs 1001000) sampleLines 1 1006000 = .ok (⟨.base, 0, some 2⟩, [])
      ∧ choose (sampleArgs 1007000) sampleLines 1 1006000 = .ok (⟨.base, 0, some 2⟩, []))
    ∧ ((parseBlockReadFile sampleFloor).map (fun f => (sampleLower f.hash, f.number, f.timestamp))
        = (parseBlockReadFile sampleFloor).map (fun f => (f.hash, 100, 1000))
      ∧ (parseBlockReadFile sampleAbove).map (fun f => (sampleLower f.hash, f.number, f.timestamp))
        = (parseBlockReadFile sampleAbove).map fun f => (f.hash, 200, 1010))
    ∧ (parseEpochGenesisFile sampleGenesis).map (fun g =>
        (txReasons sampleLower g sampleTx, EpochGenesis.blockReasons sampleLower g sampleBlock))
        = some ([], []) := by
  rw [sha256_eq_eval]
  decide +kernel

/-- The builder makes the plan, whatever time it reads for the floor. -/
lemma sample_built {floorMs : ℤ}
    (hchoose : choose (sampleArgs floorMs) sampleLines 1 1006000 = .ok (⟨.base, 0, some 2⟩, [])) :
    buildTimelineBundle sha256 (sampleArgs floorMs) = .ok (.ok samplePlan) := by
  obtain ⟨s, hs, hreasons⟩ := Option.map_eq_some_iff.mp sample_computed.1.1
  have hlines : recordsOf sampleLines (sampleLines[1].commit.get (js "epochId")) = .ok sampleLines :=
    toOption_eq_some.mp sample_computed.1.2
  exact build_eq_ok sampleLines[1] (by rfl) (by decide) hlines (by rfl) hchoose rfl
    (toOption_eq_some.mp hs) hreasons

lemma sample_choose {floorMs : ℤ} (h : floorMs = 1001000 ∨ floorMs = 1007000) :
    choose (sampleArgs floorMs) sampleLines 1 1006000 = .ok (⟨.base, 0, some 2⟩, []) := by
  rcases h with rfl | rfl
  · exact sample_computed.2.1.1
  · exact sample_computed.2.1.2

lemma sampleNitro_isSome (floorMs : ℤ) (proof : Value) : ∃ ms, sampleNitro floorMs proof = some ms := by
  rw [sampleNitro]
  split
  · exact ⟨_, rfl⟩
  split <;> exact ⟨_, rfl⟩

/-- A chain that answers with the label of a file confirms it. -/
lemma confirms_sample {text : Str} {f : BlockReadFile} {number timestamp : ℕ}
    (hparse : parseBlockReadFile text = some f)
    (h : (parseBlockReadFile text).map (fun f => (sampleLower f.hash, f.number, f.timestamp))
      = (parseBlockReadFile text).map fun f => (f.hash, number, timestamp))
    (hnumber : number < 2 ^ 53) (htimestamp : timestamp < 2 ^ 53) :
    Confirms sampleLower f ⟨f.chainId, f.hash, .ofNat number, .ofNat timestamp, true⟩ := by
  rw [hparse] at h
  obtain ⟨hhash, hlabel⟩ := Prod.mk.inj (Option.some.inj h)
  obtain ⟨hn, ht⟩ := Prod.mk.inj hlabel
  exact ⟨rfl, hhash, rfl, by rw [toInt?_ofNat hnumber, hn], by rw [toInt?_ofNat htimestamp, ht]⟩

lemma sample_labels {i : ℕ} {l : TimelineRecordLine} {f : BlockReadFile}
    (hl : samplePlan.run[i]? = some l) (hread : l.read? = some f) : ∃ number timestamp,
      sampleLookups.block i f.chain f.chainId f.hash
        = .ok (some ⟨f.chainId, f.hash, .ofNat number, .ofNat timestamp, true⟩) ∧
      Confirms sampleLower f ⟨f.chainId, f.hash, .ofNat number, .ofNat timestamp, true⟩ := by
  have hrun : samplePlan.run = sampleLines := rfl
  rw [hrun] at hl
  have hlt : i < 3 := (List.getElem?_eq_some_iff.mp hl).1
  interval_cases i
  · have hblock : l.block? = some sampleFloor := by
      rw [← Option.some.inj hl]
      rfl
    rw [TimelineRecordLine.read?, hblock, Option.bind_some] at hread
    exact ⟨100, 1000, rfl, confirms_sample hread sample_computed.2.2.1.1 (by norm_num) (by norm_num)⟩
  · rw [← Option.some.inj hl] at hread
    cases hread
  · have hblock : l.block? = some sampleAbove := by
      rw [← Option.some.inj hl]
      rfl
    rw [TimelineRecordLine.read?, hblock, Option.bind_some] at hread
    exact ⟨200, 1010, rfl, confirms_sample hread sample_computed.2.2.1.2 (by norm_num) (by norm_num)⟩

lemma sample_vouched (floorMs : ℤ) :
    Vouched sampleLower (sampleArgs floorMs) samplePlan (sampleVerifying floorMs) where
  bundle := rfl
  lagLimits := rfl
  attested i l _ := by
    obtain ⟨ms, hms⟩ := sampleNitro_isSome floorMs l.proof
    exact ⟨_, ms, rfl, hms, hms⟩
  genesisAttested _ _ _ := ⟨_, rfl, rfl⟩
  labels i l f hl hread := by
    obtain ⟨number, timestamp, hanswer, hconfirms⟩ := sample_labels hl hread
    exact ⟨sampleLookups, _, rfl, hanswer, hconfirms⟩
  genesisOnBase proof text g hg hparse := by
    obtain ⟨rfl, rfl⟩ := Prod.mk.inj (Option.some.inj hg)
    have hreasons : (parseEpochGenesisFile sampleGenesis).map (fun g =>
        (txReasons sampleLower g sampleTx, EpochGenesis.blockReasons sampleLower g sampleBlock))
          = some ([], []) := sample_computed.2.2.2
    rw [hparse] at hreasons
    obtain ⟨htx, hblock⟩ := Prod.mk.inj (Option.some.inj hreasons)
    exact ⟨sampleLookups, _, _, _, _, rfl, rfl, rfl, rfl, rfl, htx, hblock⟩

/-- A floor, a file and a ceiling with their times in order. -/
theorem verify_built_iff_sample :
    buildTimelineBundle sha256 (sampleArgs 1001000) = .ok (.ok samplePlan) ∧
      (Agreement sha256 sampleLower (sampleVerifying 1001000) samplePlan ↔
        Verifiable sha256 sampleLower (sampleArgs 1001000) samplePlan) :=
  ⟨sample_built (sample_choose (.inl rfl)),
    verify_built_iff (sample_built (sample_choose (.inl rfl))) (sample_vouched 1001000)⟩

/-- A floor whose hardware time is a second after the file's is built, and the verifier refuses it. -/
theorem late_floor : ∃ args p opts, buildTimelineBundle sha256 args = .ok (.ok p) ∧
    Vouched sampleLower args p opts ∧ ¬ Agreement sha256 sampleLower opts p := by
  have hbuild := sample_built (sample_choose (.inr rfl))
  obtain ⟨f, fileMs, hcut⟩ := cut_of_build hbuild
  refine ⟨_, _, _, hbuild, sample_vouched 1007000, fun h => ?_⟩
  have hle := ((hcut.agreement_iff (sample_vouched 1007000)).mp h).floor_time 1007000 rfl 1006000 rfl
  omega

end TimelineBundle

end BitGraph
