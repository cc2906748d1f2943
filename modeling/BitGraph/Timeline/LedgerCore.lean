import Mathlib.Data.List.Sort
import Mathlib.Data.Rat.Defs
import BitGraph.Js.IntText

/-!
`timeline-ledger-core.ts`: what accounts for every payload count of an epoch.

The ledger shows an epoch's file rows, and between them one row for all the block reads in a gap.
`spanState` says of such a span whether its records are uploaded, on their way or lost.

* **Spans.** `sweep` is the loop of `spanState` over the sorted batches. `sweep_spec` names the
  first count of the span that no complete batch holds, and the answer given there.
* **Lost spans.** `Judges` is what the answers mean. `spanState_judges_iff`: the one kind of span
  it fails on ends below the live records and begins to be open above the newest upload, the other
  meets an upload named with more records than it has counts. `spanState_calls_lost` is a span of
  the first kind.
* **Rows.** `interleaveEpoch` and `interleaveDay` put the reads rows between the file rows.
  `interleaveDay_partition`: the rows of an epoch fall, and cover each of its counts once; pages of
  an epoch join to the same rows.

Counts are integers below 2⁵³, and the index signatures are lookups.
-/

namespace BitGraph

open Js

namespace LedgerCore

/-! ### Spans -/

/-- An uploaded batch, or the live records in place of the batch to come. -/
structure TimelineBatchKey where
  key : Str
  first : ℤ
  last : ℤ
  records : ℤ
  live : Bool
  deriving DecidableEq

/-- `state` of a reads row. -/
inductive State where
  | recorded
  | uploading
  | missing
  | unlisted
  deriving DecidableEq

/-- `b.records === (b.last - b.first) / 2 + 1`. -/
def complete (b : TimelineBatchKey) : Bool := 2 * b.records = b.last - b.first + 2

/-- What the batch says of a count it should account for. -/
def openState (b : TimelineBatchKey) : State := if b.live then .uploading else .missing

/-- The end of `spanState`, behind the loop. -/
def restState (newest cursor : ℤ) : State := if newest < cursor then .uploading else .missing

/-- The loop of `spanState` over the sorted batches. -/
def sweep (stop newest : ℤ) : ℤ → List TimelineBatchKey → State
  | cursor, [] => restState newest cursor
  | cursor, b :: batches =>
      if b.last < cursor then sweep stop newest cursor batches
      else if stop < b.first then restState newest cursor
      else if cursor < b.first then openState b
      else if complete b = false then openState b
      else if stop < b.last + 2 then .recorded
      else sweep stop newest (b.last + 2) batches

/-- What accounts for the records with payload counts from `start` to `stop`. -/
def spanState (start stop : ℤ) (batches : List TimelineBatchKey) : State :=
  let sorted := batches.insertionSort fun a b => a.first ≤ b.first
  match sorted.getLast? with
  | none => .unlisted
  | some b => sweep stop b.last start sorted

/-- The live records as one batch. -/
def liveBatch (epoch : Str) (counters : List ℤ) : Option TimelineBatchKey :=
  match counters with
  | [] => none
  | c :: counters => some {
      key := js "live:" ++ epoch
      first := counters.foldl min c
      last := counters.foldl max c
      records := (c :: counters).dedup.length
      live := true }

/-! ### What a span is -/

/-- A count of the span. -/
def InSpan (start stop c : ℤ) : Prop := start ≤ c ∧ c ≤ stop ∧ c % 2 = start % 2

/-- The count is one of the batch's. -/
def Holds (b : TimelineBatchKey) (c : ℤ) : Prop := b.first ≤ c ∧ c ≤ b.last

/-- The batches of an epoch and a span of its counts: no two overlap, a live one is above the
others, and all counts have one parity. -/
structure Laid (start stop : ℤ) (batches : List TimelineBatchKey) : Prop where
  valid : ∀ b ∈ batches, b.first ≤ b.last
  apart : batches.Pairwise fun a b => a.last < b.first ∨ b.last < a.first
  live : ∀ a ∈ batches, ∀ b ∈ batches, b.live = true → a ≠ b → a.last < b.first
  parity : ∀ b ∈ batches, b.first % 2 = start % 2 ∧ b.last % 2 = start % 2
  nonempty : start ≤ stop
  stop : stop % 2 = start % 2

variable (start stop : ℤ) (batches : List TimelineBatchKey)

/-- A complete batch has the count. -/
def Accounted (c : ℤ) : Prop := ∃ b ∈ batches, complete b = true ∧ Holds b c

/-- Every count is in a complete batch. -/
def Recorded : Prop := ∀ c, InSpan start stop c → Accounted batches c

/-- A count in no batch below the last one of an upload. -/
def Hole : Prop :=
  ∃ c, InSpan start stop c ∧ (∀ b ∈ batches, ¬ Holds b c) ∧ ∃ b ∈ batches, b.live = false ∧ c < b.last

/-- The span meets the batch. -/
def Meets (b : TimelineBatchKey) : Prop := b.first ≤ stop ∧ start ≤ b.last

/-- An upload that holds fewer records than its counts. -/
def Short : Prop :=
  ∃ b ∈ batches, b.live = false ∧ Meets start stop b ∧ 2 * b.records < b.last - b.first + 2

/-- An upload named with more records than it has counts. -/
def Excess : Prop :=
  ∃ b ∈ batches, b.live = false ∧ Meets start stop b ∧ b.last - b.first + 2 < 2 * b.records

/-- All counts outside complete batches are above the newest upload. -/
def Above : Prop :=
  ∀ c, InSpan start stop c → Accounted batches c ∨ ∀ b ∈ batches, b.live = false → b.last < c

/-- The live records begin above the span. -/
def EndsBelowLive : Prop := ∃ b ∈ batches, b.live = true ∧ stop < b.first

/-- What the answers mean: `recorded` exactly for complete batches, `missing` only for a hole or a
short upload, and never for counts above the newest upload. -/
def Judges : Prop :=
  (spanState start stop batches = .recorded ↔ Recorded start stop batches)
    ∧ (spanState start stop batches = .missing → Hole start stop batches ∨ Short start stop batches)
    ∧ (Above start stop batches → spanState start stop batches ≠ .missing)

variable {start stop batches}

/-! ### The sweep -/

/-- What the loop answers, by the first count no complete batch has. -/
lemma sweep_spec {newest cursor : ℤ} {l : List TimelineBatchKey}
    (hvalid : ∀ b ∈ l, b.first ≤ b.last) (hsorted : l.Pairwise fun a b => a.last < b.first)
    (hparity : ∀ b ∈ l, b.first % 2 = cursor % 2 ∧ b.last % 2 = cursor % 2)
    (hcursor : cursor ≤ stop) :
    (sweep stop newest cursor l = .recorded ∧ ∀ c, InSpan cursor stop c → Accounted l c)
      ∨ ∃ c, InSpan cursor stop c ∧ (∀ x, InSpan cursor stop x → x < c → Accounted l x)
        ∧ ¬ Accounted l c
        ∧ ((∃ b ∈ l, b.first ≤ stop ∧ c ≤ b.last ∧ (∀ x ∈ l, x.last < b.first → x.last < c)
            ∧ (b.first ≤ c → complete b = false) ∧ sweep stop newest cursor l = openState b)
          ∨ ((∀ b ∈ l, b.last < c ∨ stop < b.first)
            ∧ sweep stop newest cursor l = restState newest c)) := by
  have here : InSpan cursor stop cursor := ⟨le_rfl, hcursor, rfl⟩
  have first : ∀ x, InSpan cursor stop x → x < cursor → Accounted l x := fun x hx hlt =>
    absurd hx.1 (not_le.mpr hlt)
  induction l generalizing cursor with
  | nil =>
      refine Or.inr ⟨cursor, here, first, ?_, Or.inr ⟨?_, rfl⟩⟩
      · rintro ⟨b, hb, -⟩
        exact absurd hb List.not_mem_nil
      · exact fun b hb => absurd hb List.not_mem_nil
  | cons b l ih =>
      obtain ⟨hafter, hsorted'⟩ := List.pairwise_cons.mp hsorted
      have hvalid' : ∀ x ∈ l, x.first ≤ x.last := fun x hx => hvalid x (List.mem_cons_of_mem _ hx)
      have hparity' := fun x hx => hparity x (List.mem_cons_of_mem _ hx)
      have hb := hvalid b List.mem_cons_self
      have weaken : ∀ {c}, Accounted l c → Accounted (b :: l) c := fun ⟨x, hx, hc⟩ =>
        ⟨x, List.mem_cons_of_mem _ hx, hc⟩
      rw [sweep]
      split
      · next hlast =>
          -- the batch is below the cursor
          have strengthen : ∀ {c}, cursor ≤ c → Accounted (b :: l) c → Accounted l c := by
            rintro c hle ⟨x, hx, hc, hholds⟩
            rcases List.mem_cons.mp hx with rfl | hx
            · exact absurd (hle.trans hholds.2) (not_le.mpr hlast)
            · exact ⟨x, hx, hc, hholds⟩
          rcases ih hvalid' hsorted' hparity' hcursor here (fun x hx hlt =>
            absurd hx.1 (not_le.mpr hlt)) with ⟨hrec, hall⟩ | ⟨c, hc, hbefore, hopen, hrest⟩
          · exact Or.inl ⟨hrec, fun c hc => weaken (hall c hc)⟩
          · refine Or.inr ⟨c, hc, fun x hx hlt => weaken (hbefore x hx hlt),
              fun hacc => hopen (strengthen hc.1 hacc), ?_⟩
            rcases hrest with ⟨x, hx, hstop, hle, hnext, hcomplete, hstate⟩ | ⟨hall, hstate⟩
            · refine Or.inl ⟨x, List.mem_cons_of_mem _ hx, hstop, hle, ?_, hcomplete, hstate⟩
              intro y hy hlt
              rcases List.mem_cons.mp hy with rfl | hy
              · exact hlast.trans_le hc.1
              · exact hnext y hy hlt
            · refine Or.inr ⟨fun x hx => ?_, hstate⟩
              rcases List.mem_cons.mp hx with rfl | hx
              · exact Or.inl (hlast.trans_le hc.1)
              · exact hall x hx
      · next hlast =>
          rw [not_lt] at hlast
          have above : ∀ x ∈ b :: l, b.first ≤ x.first := fun x hx => by
            rcases List.mem_cons.mp hx with rfl | hx
            · exact le_rfl
            · exact hb.trans (hafter x hx).le
          -- the cursor is open in front of the batch
          have gap : cursor < b.first → ¬ Accounted (b :: l) cursor := by
            rintro hlt ⟨x, hx, -, hholds⟩
            exact absurd hholds.1 (not_le.mpr (hlt.trans_le (above x hx)))
          have noless : ∀ x ∈ b :: l, x.last < b.first → x.last < cursor := fun x hx hlt =>
            absurd (hvalid x hx) (not_le.mpr (hlt.trans_le (above x hx)))
          split
          · next hstop =>
              refine Or.inr ⟨cursor, here, fun x hx hlt => absurd hx.1 (not_le.mpr hlt),
                gap (hcursor.trans_lt hstop), Or.inr ⟨fun x hx => ?_, rfl⟩⟩
              exact Or.inr (hstop.trans_le (above x hx))
          · next hstop =>
              rw [not_lt] at hstop
              split
              · next hlt =>
                  exact Or.inr ⟨cursor, here, fun x hx hlt => absurd hx.1 (not_le.mpr hlt), gap hlt,
                    Or.inl ⟨b, List.mem_cons_self, hstop, hlast, noless,
                      fun hle => absurd hlt (not_lt.mpr hle), rfl⟩⟩
              · next hfirst =>
                  rw [not_lt] at hfirst
                  have alone : ∀ c, Holds b c → Accounted (b :: l) c → complete b = true := by
                    rintro c hc ⟨x, hx, hcomplete, hholds⟩
                    rcases List.mem_cons.mp hx with rfl | hx
                    · exact hcomplete
                    · exact absurd (hc.2.trans_lt (hafter x hx)) (not_lt.mpr hholds.1)
                  split
                  · next hcomplete =>
                      refine Or.inr ⟨cursor, here, fun x hx hlt => absurd hx.1 (not_le.mpr hlt), ?_,
                        Or.inl ⟨b, List.mem_cons_self, hstop, hlast, noless, fun _ => hcomplete, rfl⟩⟩
                      intro hacc
                      rw [alone cursor ⟨hfirst, hlast⟩ hacc] at hcomplete
                      cases hcomplete
                  · next hcomplete =>
                      rw [Bool.not_eq_false] at hcomplete
                      have inside : ∀ x, cursor ≤ x → x ≤ b.last → Accounted (b :: l) x :=
                        fun x hle hle' => ⟨b, List.mem_cons_self, hcomplete, hfirst.trans hle, hle'⟩
                      obtain ⟨-, hbpar⟩ := hparity b List.mem_cons_self
                      split
                      · next hend =>
                          refine Or.inl ⟨rfl, fun c hc => inside c hc.1 ?_⟩
                          have := hc.2.1
                          have := hc.2.2
                          omega
                      · next hend =>
                          rw [not_lt] at hend
                          have hpar : (b.last + 2) % 2 = cursor % 2 := by omega
                          have shift : ∀ {c}, InSpan cursor stop c → b.last < c →
                              InSpan (b.last + 2) stop c := by
                            rintro c ⟨hle, hle', hc⟩ hlt
                            exact ⟨by omega, hle', by omega⟩
                          have back : ∀ {c}, InSpan (b.last + 2) stop c → InSpan cursor stop c := by
                            rintro c ⟨hle, hle', hc⟩
                            exact ⟨by omega, hle', by omega⟩
                          rcases ih hvalid' hsorted' (fun x hx => by rw [hpar]; exact hparity' x hx)
                            hend ⟨le_rfl, hend, rfl⟩ (fun x hx hlt => absurd hx.1 (not_le.mpr hlt))
                            with ⟨hrec, hall⟩ | ⟨c, hc, hbefore, hopen, hrest⟩
                          · refine Or.inl ⟨hrec, fun c hc => ?_⟩
                            by_cases hle : c ≤ b.last
                            · exact inside c hc.1 hle
                            · exact weaken (hall c (shift hc (not_le.mp hle)))
                          · have hlt : b.last < c := by
                              have := hc.1
                              omega
                            refine Or.inr ⟨c, back hc, fun x hx hxc => ?_, ?_, ?_⟩
                            · by_cases hle : x ≤ b.last
                              · exact inside x hx.1 hle
                              · exact weaken (hbefore x (shift hx (not_le.mp hle)) hxc)
                            · rintro ⟨x, hx, hcomplete', hholds⟩
                              rcases List.mem_cons.mp hx with rfl | hx
                              · exact absurd hholds.2 (not_le.mpr hlt)
                              · exact hopen ⟨x, hx, hcomplete', hholds⟩
                            · rcases hrest with ⟨x, hx, hstop', hle, hnext, hinc, hstate⟩
                                | ⟨hall, hstate⟩
                              · refine Or.inl ⟨x, List.mem_cons_of_mem _ hx, hstop', hle, ?_, hinc,
                                  hstate⟩
                                intro y hy hylt
                                rcases List.mem_cons.mp hy with rfl | hy
                                · exact hlt
                                · exact hnext y hy hylt
                              · refine Or.inr ⟨fun x hx => ?_, hstate⟩
                                rcases List.mem_cons.mp hx with rfl | hx
                                · exact Or.inl hlt
                                · exact hall x hx

/-! ### What the answers mean -/

lemma Laid.mem_sorted {b : TimelineBatchKey} :
    b ∈ batches.insertionSort (fun a b => a.first ≤ b.first) ↔ b ∈ batches :=
  (List.perm_insertionSort _ _).mem_iff

lemma Laid.sorted (h : Laid start stop batches) :
    (batches.insertionSort fun a b => a.first ≤ b.first).Pairwise fun a b => a.last < b.first := by
  have hfirst := List.pairwise_insertionSort (fun a b : TimelineBatchKey => a.first ≤ b.first) batches
  have hapart := ((List.perm_insertionSort (fun a b : TimelineBatchKey => a.first ≤ b.first)
    batches).pairwise_iff fun hab => Or.symm hab).mpr h.apart
  refine List.Pairwise.imp_of_mem ?_ (hfirst.and hapart)
  rintro a b - hb ⟨hle, hlt | hlt⟩
  · exact hlt
  · exact absurd (h.valid b (Laid.mem_sorted.mp hb)) (not_le.mpr (hlt.trans_le hle))

lemma Laid.apart_of_ne (h : Laid start stop batches) {a b : TimelineBatchKey} (ha : a ∈ batches)
    (hb : b ∈ batches) (hne : a ≠ b) : a.last < b.first ∨ b.last < a.first := by
  have : Std.Symm fun a b : TimelineBatchKey => a.last < b.first ∨ b.last < a.first :=
    ⟨fun _ _ hab => hab.symm⟩
  exact h.apart.forall ha hb hne

/-- A count is in one batch only. -/
lemma Laid.eq_of_holds (h : Laid start stop batches) {a b : TimelineBatchKey} (ha : a ∈ batches)
    (hb : b ∈ batches) {c : ℤ} (hac : Holds a c) (hbc : Holds b c) : a = b := by
  by_contra hne
  rcases h.apart_of_ne ha hb hne with hlt | hlt
  · exact absurd (hac.2.trans_lt hlt) (not_lt.mpr hbc.1)
  · exact absurd (hbc.2.trans_lt hlt) (not_lt.mpr hac.1)

/-- A batch that meets the span has one of its counts. -/
lemma Laid.meets (h : Laid start stop batches) {b : TimelineBatchKey} (hb : b ∈ batches)
    (hm : Meets start stop b) : ∃ c, InSpan start stop c ∧ Holds b c := by
  obtain ⟨hfirst, hlast⟩ := hm
  have hvalid := h.valid b hb
  obtain ⟨hpar, hpar'⟩ := h.parity b hb
  by_cases hle : b.first ≤ start
  · exact ⟨start, ⟨le_rfl, h.nonempty, rfl⟩, hle, hlast⟩
  · exact ⟨b.first, ⟨(not_le.mp hle).le, hfirst, hpar⟩, le_rfl, hvalid⟩

/-- An upload with too many records below the first open count accounts for none of its counts. -/
lemma Laid.not_excess (h : Laid start stop batches) {c : ℤ}
    (hbefore : ∀ x, InSpan start stop x → x < c → Accounted batches x)
    {b : TimelineBatchKey} (hb : b ∈ batches) (hlt : b.last < c) (hm : Meets start stop b) :
    complete b = true := by
  obtain ⟨x, hx, hholds⟩ := h.meets hb hm
  obtain ⟨a, ha, hcomplete, hax⟩ := hbefore x hx (hholds.2.trans_lt hlt)
  rwa [← h.eq_of_holds ha hb hax hholds]

lemma not_complete_of_excess {b : TimelineBatchKey} (h : b.last - b.first + 2 < 2 * b.records) :
    complete b = false := by
  rw [complete, decide_eq_false_iff_not]
  omega

/-- **Lost spans.** The answers mean what they say, unless the span ends below the live records
with its open counts above the newest upload, or meets an upload with too many records and neither
a hole nor a short upload. -/
theorem spanState_judges_iff (h : Laid start stop batches) : Judges start stop batches ↔
    ¬ (EndsBelowLive stop batches ∧ Above start stop batches ∧ ¬ Recorded start stop batches)
      ∧ ¬ (Excess start stop batches ∧ ¬ (Hole start stop batches ∨ Short start stop batches)) := by
  obtain hnil | hne := eq_or_ne batches []
  · subst hnil
    have hunlisted : spanState start stop [] = .unlisted := rfl
    have hnone : ¬ Recorded start stop [] := fun hrec => by
      obtain ⟨b, hb, -⟩ := hrec start ⟨le_rfl, h.nonempty, rfl⟩
      exact absurd hb List.not_mem_nil
    simp [Judges, hunlisted, hnone, EndsBelowLive, Excess]
  set l := batches.insertionSort fun a b => a.first ≤ b.first with hl
  have hmem : ∀ {b}, b ∈ l ↔ b ∈ batches := Laid.mem_sorted
  have hlne : l ≠ [] := fun hnil => hne (List.length_eq_zero_iff.mp (by
    rw [← List.length_insertionSort (fun a b : TimelineBatchKey => a.first ≤ b.first), ← hl, hnil]
    rfl))
  obtain ⟨m, hm⟩ : ∃ m, l.getLast? = some m := ⟨_, List.getLast?_eq_some_getLast hlne⟩
  have hmm : m ∈ batches := hmem.mp (List.mem_of_getLast? hm)
  -- the newest batch has the greatest last count
  have hnewest : ∀ b ∈ batches, b.last ≤ m.last := by
    intro b hb
    obtain ⟨front, hfront⟩ : ∃ front, l = front ++ [m] := List.getLast?_eq_some_iff.mp hm
    have hsorted := h.sorted
    rw [← hl, hfront, List.pairwise_append] at hsorted
    rcases List.mem_append.mp (hfront ▸ hmem.mpr hb) with hb' | hb'
    · exact (hsorted.2.2 b hb' m (by simp)).le.trans (h.valid m hmm)
    · rw [List.mem_singleton.mp hb']
  have hstate : spanState start stop batches = sweep stop m.last start l := by
    rw [spanState]
    simp only [← hl, hm]
  have hacc : ∀ {c}, Accounted l c ↔ Accounted batches c := by
    simp only [Accounted, hmem, implies_true]
  have hspec := @sweep_spec _ m.last _ _ (fun b hb => h.valid b (hmem.mp hb)) h.sorted
    (fun b hb => h.parity b (hmem.mp hb)) h.nonempty
  rw [← hstate] at hspec
  rcases hspec with ⟨hrec, hall⟩ | ⟨c, hc, hbefore, hopen, hrest⟩
  · have hrecorded : Recorded start stop batches := fun c hc => hacc.mp (hall c hc)
    refine iff_of_true ⟨iff_of_true hrec hrecorded, fun hmiss => ?_, fun _ hmiss => ?_⟩
      ⟨fun hbad => hbad.2.2 hrecorded, ?_⟩
    · rw [hrec] at hmiss
      cases hmiss
    · rw [hrec] at hmiss
      cases hmiss
    · rintro ⟨⟨b, hb, -, hmeets, hexcess⟩, -⟩
      obtain ⟨x, hx, hholds⟩ := h.meets hb hmeets
      obtain ⟨a, ha, hcomplete, hax⟩ := hrecorded x hx
      rw [h.eq_of_holds ha hb hax hholds, not_complete_of_excess hexcess] at hcomplete
      cases hcomplete
  · replace hopen : ¬ Accounted batches c := hacc.not.mp hopen
    replace hbefore : ∀ x, InSpan start stop x → x < c → Accounted batches x :=
      fun x hx hlt => hacc.mp (hbefore x hx hlt)
    have hnot : ¬ Recorded start stop batches := fun hrec => hopen (hrec c hc)
    -- what is above every upload is above the open count
    have habove : Above start stop batches → ∀ b ∈ batches, b.live = false → b.last < c :=
      fun hab => (hab c hc).resolve_left hopen
    have hbelow : ∀ b ∈ batches, Meets start stop b → b.last < c →
        ¬ b.last - b.first + 2 < 2 * b.records := fun b hb hmeets hlt hexcess => by
      have hcomplete := h.not_excess hbefore hb hlt hmeets
      rw [not_complete_of_excess hexcess] at hcomplete
      cases hcomplete
    have judges_of_uploading : spanState start stop batches = .uploading → Judges start stop batches :=
      fun hup => ⟨iff_of_false (by rw [hup]; exact nofun) hnot, by rw [hup]; exact nofun,
        fun _ => by rw [hup]; exact nofun⟩
    rcases hrest with ⟨b, hb, hstop, hle, hnext, hinc, hres⟩ | ⟨hall, hres⟩
    · replace hb := hmem.mp hb
      cases hlive : b.live with
      | true =>
          -- the live records reach into the span
          rw [openState, hlive, if_pos rfl] at hres
          refine iff_of_true (judges_of_uploading hres) ⟨?_, ?_⟩
          · rintro ⟨⟨x, hx, hxlive, hlt⟩, -⟩
            obtain rfl : x = b := by
              by_contra hne
              have := h.live x hx b hb hlive hne
              have := h.live b hb x hx hxlive (Ne.symm hne)
              have := h.valid x hx
              have := h.valid b hb
              omega
            exact absurd hlt (not_lt.mpr hstop)
          · rintro ⟨⟨x, hx, hxlive, hmeets, hexcess⟩, -⟩
            have hxb : x ≠ b := by
              rintro rfl
              rw [hlive] at hxlive
              cases hxlive
            exact hbelow x hx hmeets
              (hnext x (hmem.mpr hx) (h.live x hx b hb hlive hxb)) hexcess
      | false =>
          rw [openState, hlive] at hres
          have hmiss : spanState start stop batches = .missing := hres
          have hnab : ¬ Above start stop batches := fun hab =>
            absurd (habove hab b hb hlive) (not_lt.mpr hle)
          have hreason : (Hole start stop batches ∨ Short start stop batches)
              ∨ Excess start stop batches := by
            by_cases hfirst : b.first ≤ c
            · have hmeets : Meets start stop b := ⟨hstop, hc.1.trans hle⟩
              have hncomplete := hinc hfirst
              rw [complete, decide_eq_false_iff_not] at hncomplete
              rcases lt_or_gt_of_ne hncomplete with hlt | hlt
              · exact Or.inl (Or.inr ⟨b, hb, hlive, hmeets, hlt⟩)
              · exact Or.inr ⟨b, hb, hlive, hmeets, hlt⟩
            · rw [not_le] at hfirst
              refine Or.inl (Or.inl ⟨c, hc, fun x hx hholds => ?_, b, hb, hlive,
                hfirst.trans_le (h.valid b hb)⟩)
              have hxb : x ≠ b := by
                rintro rfl
                exact absurd hholds.1 (not_le.mpr hfirst)
              rcases h.apart_of_ne hx hb hxb with hlt | hlt
              · exact absurd hholds.2 (not_le.mpr (hnext x (hmem.mpr hx) hlt))
              · exact absurd hholds.1 (not_le.mpr (hle.trans_lt hlt))
          constructor
          · rintro ⟨-, hlost, -⟩
            exact ⟨fun hbad => hnab hbad.2.1, fun hbad => hbad.2 (hlost hmiss)⟩
          · rintro ⟨-, hno⟩
            refine ⟨iff_of_false (by rw [hmiss]; exact nofun) hnot, fun _ => ?_,
              fun hab => absurd hab hnab⟩
            rcases hreason with hreason | hexcess
            · exact hreason
            · by_contra hnone
              exact hno ⟨hexcess, hnone⟩
    · replace hall : ∀ b ∈ batches, b.last < c ∨ stop < b.first := fun b hb => hall b (hmem.mpr hb)
      have hnoexcess : ¬ Excess start stop batches := by
        rintro ⟨x, hx, -, hmeets, hexcess⟩
        rcases hall x hx with hlt | hlt
        · exact hbelow x hx hmeets hlt hexcess
        · exact absurd hmeets.1 (not_le.mpr hlt)
      have hgap : ∀ x ∈ batches, ¬ Holds x c := by
        intro x hx hholds
        rcases hall x hx with hlt | hlt
        · exact absurd hholds.2 (not_le.mpr hlt)
        · exact absurd (hholds.1.trans hc.2.1) (not_le.mpr hlt)
      rw [restState] at hres
      split at hres
      · next hlt =>
          refine iff_of_true (judges_of_uploading hres) ⟨?_, fun hbad => hnoexcess hbad.1⟩
          rintro ⟨⟨x, hx, -, hxlt⟩, -⟩
          have := hnewest x hx
          have := h.valid x hx
          have := hc.2.1
          omega
      · next hge =>
          by_cases hup : ∃ x ∈ batches, x.live = false ∧ stop < x.first
          · -- an upload above the span shows the count lost
            obtain ⟨x, hx, hxlive, hlt⟩ := hup
            have hlast : c < x.last := (hc.2.1.trans_lt hlt).trans_le (h.valid x hx)
            have hnab : ¬ Above start stop batches := fun hab =>
              absurd (habove hab x hx hxlive) (not_lt.mpr hlast.le)
            exact iff_of_true ⟨iff_of_false (by rw [hres]; exact nofun) hnot,
              fun _ => Or.inl ⟨c, hc, hgap, x, hx, hxlive, hlast⟩, fun hab => absurd hab hnab⟩
              ⟨fun hbad => hnab hbad.2.1, fun hbad => hnoexcess hbad.1⟩
          · -- only the live records are above it
            have hm' : stop < m.first := (hall m hmm).resolve_left (by omega)
            have hmlive : m.live = true := by
              by_contra hlive
              exact hup ⟨m, hmm, by simpa using hlive, hm'⟩
            have hab : Above start stop batches := by
              intro x hx
              by_cases hxc : x < c
              · exact Or.inl (hbefore x hx hxc)
              · refine Or.inr fun b hb hblive => ?_
                rcases hall b hb with hlt | hlt
                · exact hlt.trans_le (not_lt.mp hxc)
                · exact absurd ⟨b, hb, hblive, hlt⟩ hup
            refine iff_of_false (fun hj => hj.2.2 hab hres) fun hno => ?_
            exact hno.1 ⟨⟨m, hmm, hmlive, hm'⟩, hab, hnot⟩

/-- Two uploads and the live records of an epoch, the second upload not complete. -/
def sampleBatches : List TimelineBatchKey :=
  [⟨[], 2, 4, 2, false⟩, ⟨[], 8, 12, 2, false⟩, ⟨[], 20, 24, 3, true⟩]

lemma sample_laid : Laid 2 14 sampleBatches where
  valid := by decide
  apart := by decide
  live := by decide
  parity := by decide
  nonempty := by decide
  stop := by decide

/-- A span with an incomplete upload, which the live records do not reach. -/
theorem spanState_judges_iff_sample : Judges 2 14 sampleBatches := by
  have hhole : Hole 2 14 sampleBatches :=
    ⟨6, ⟨by decide, by decide, by decide⟩, by
      simp only [Holds]
      decide, by decide⟩
  refine (spanState_judges_iff sample_laid).mpr ⟨?_, fun hbad => hbad.2 (Or.inl hhole)⟩
  rintro ⟨-, hab, -⟩
  obtain ⟨c, hc, hnone, b, hb, hlive, hlt⟩ := hhole
  rcases hab c hc with ⟨x, hx, -, hholds⟩ | hup
  · exact hnone x hx hholds
  · exact absurd (hup b hb hlive) (not_lt.mpr hlt.le)

/-- A count between the newest upload and the live records is called missing. -/
theorem spanState_calls_lost : ¬ ∀ start stop batches, Laid start stop batches →
    Judges start stop batches := by
  intro hall
  have hlaid : Laid 6 6 [⟨[], 2, 4, 2, false⟩, ⟨[], 10, 12, 2, true⟩] :=
    ⟨by decide, by decide, by decide, by decide, by decide, by decide⟩
  refine (hall 6 6 _ hlaid).2.2 ?_ (by decide)
  rintro c ⟨hle, hle', -⟩
  obtain rfl : c = 6 := le_antisymm hle' hle
  exact Or.inr (by decide)

/-! ### Rows -/

/-- A row for the records of a span. -/
structure ReadsRow where
  key : Str
  epoch : Str
  start : ℤ
  stop : ℤ
  count : ℚ
  state : State
  deriving DecidableEq

/-- `reads:<epoch>:<from>`. -/
def readsKey (epoch : Str) (start : ℤ) : Str := js "reads:" ++ (epoch ++ 58 :: intText start)

/-- `span`. -/
def span (epoch : Str) (start stop : ℤ) (batches : List TimelineBatchKey) : Option ReadsRow :=
  if stop < start then none
  else some ⟨readsKey epoch start, epoch, start, stop, (stop - start : ℚ) / 2 + 1,
    spanState start stop batches⟩

/-- `opts.above`. -/
inductive UpTo where
  | uploaded
  | count (n : ℤ)
  | nothing
  deriving DecidableEq

/-- `opts.above` as the count it means. -/
def UpTo.top (batches : List TimelineBatchKey) : UpTo → Option ℤ
  | .uploaded => some (batches.foldl (fun m b => max m b.last) 0)
  | .count n => some (n - 2)
  | .nothing => none

/-- A row of the output. -/
inductive Item (R : Type) where
  | row (r : R)
  | reads (r : ReadsRow)

section Rows

variable {R : Type} (count : R → ℤ) (epochOf : R → Str)

/-- The reads row above one count and up to another, if there is one. -/
def gap (epoch : Str) (batches : List TimelineBatchKey) (lower upper : ℤ) : List (Item R) :=
  (span epoch (lower + 2) upper batches).toList.map .reads

/-- The loop of `interleaveEpoch`. -/
def descend (epoch : Str) (batches : List TimelineBatchKey) (below : Option ℤ) :
    List R → List (Item R)
  | [] => []
  | [r] => .row r :: (match below with
      | some lower => gap epoch batches lower (count r - 2)
      | none => [])
  | r :: s :: rows =>
      .row r :: (gap epoch batches (count s) (count r - 2) ++ descend epoch batches below (s :: rows))

/-- One epoch's file rows, newest first, with a reads row in every gap and at the ends. -/
def interleaveEpoch (epoch : Str) (rows : List R) (batches : List TimelineBatchKey) (above : UpTo)
    (below : Option ℤ) : List (Item R) :=
  let newestShown := match rows with
    | [] => below
    | r :: _ => some (count r)
  (match above.top batches, newestShown with
    | some top, some n => gap epoch batches n top
    | _, _ => []) ++ descend count epoch batches below rows

/-- The ends of the page, and an epoch's own lower bound. -/
structure Ends where
  above : UpTo
  below : Option ℤ
  belowByEpoch : Str → Option ℤ

/-- The epochs in the order they are shown. -/
def order (rows : List R) (covered : List Str) : List Str :=
  rows.foldl (fun order r => if epochOf r ∈ order then order else order ++ [epochOf r]) covered

/-- `byEpoch.get(e) ?? []`. -/
def rowsOf (rows : List R) (e : Str) : List R := rows.filter fun r => epochOf r = e

/-- The lower bound of the epoch shown at a place. -/
def Ends.belowAt (ends : Ends) (places : ℕ) (e : Str) (i : ℕ) : Option ℤ :=
  ends.belowByEpoch e <|> if i + 1 = places then ends.below else some 0

def Ends.aboveAt (ends : Ends) (i : ℕ) : UpTo := if i = 0 then ends.above else .uploaded

/-- Rows with every count of every epoch the page covers accounted for. -/
def interleaveDay (rows : List R) (covered : List Str) (batches : Str → List TimelineBatchKey)
    (ends : Ends) : List (Item R) :=
  let epochs := order epochOf rows covered
  epochs.zipIdx.flatMap fun x => interleaveEpoch count x.1 (rowsOf epochOf rows x.1) (batches x.1)
    (ends.aboveAt x.2) (ends.belowAt epochs.length x.1 x.2)

/-- Pages of one epoch, each above the last count of the page before, the last one down to the
lower end. -/
def pagewise (epoch : Str) (batches : List TimelineBatchKey) (below : Option ℤ) :
    UpTo → List (List R) → List (Item R)
  | _, [] => []
  | above, [page] => interleaveEpoch count epoch page batches above below
  | above, page :: pages => interleaveEpoch count epoch page batches above none
      ++ pagewise epoch batches below ((page.getLast?.map fun r => .count (count r)).getD above) pages

/-! ### What the rows cover -/

/-- The lowest and the highest count of a row. -/
def Item.bottom : Item R → ℤ
  | .row r => count r
  | .reads r => r.start

def Item.top : Item R → ℤ
  | .row r => count r
  | .reads r => r.stop

def Item.epoch : Item R → Str
  | .row r => epochOf r
  | .reads r => r.epoch

def Item.key? : Item R → Option Str
  | .row _ => none
  | .reads r => some r.key

/-- The row stands for the record of the count. -/
def Item.Covers (x : Item R) (c : ℤ) : Prop := x.bottom count ≤ c ∧ c ≤ x.top count

/-- Above the lower bound, or from the oldest row on. -/
def FromLow (rows : List R) : Option ℤ → ℤ → Prop
  | some lower, c => lower < c
  | none, c => ∃ r ∈ rows, count r ≤ c

/-- The counts an epoch accounts for: from its low end to the higher of its upper bound and its
newest row. -/
def Shown (rows : List R) (batches : List TimelineBatchKey) (above : UpTo) (below : Option ℤ)
    (c : ℤ) : Prop :=
  FromLow count rows below c
    ∧ ((∃ r ∈ rows, c ≤ count r) ∨ ∃ top, above.top batches = some top ∧ c ≤ top)

variable {count epochOf} {epoch : Str} {batches : List TimelineBatchKey} {rows : List R}
  {below : Option ℤ} {above : UpTo} {lower upper c : ℤ} {x : Item R}

lemma mem_gap : x ∈ gap epoch batches lower upper ↔ lower + 2 ≤ upper ∧ x = .reads
    ⟨readsKey epoch (lower + 2), epoch, lower + 2, upper, (upper - (lower + 2 : ℤ) : ℚ) / 2 + 1,
      spanState (lower + 2) upper batches⟩ := by
  rw [gap, span]
  split
  · next h => simp [not_le.mpr h]
  · next h => simp [not_lt.mp h]

lemma pairwise_gap {P : Item R → Item R → Prop} : (gap epoch batches lower upper).Pairwise P := by
  rw [gap, span]
  split <;> simp

lemma gap_covers (hlower : lower % 2 = 0) (hc : c % 2 = 0) :
    (∃ x ∈ (gap epoch batches lower upper : List (Item R)), x.Covers count c)
      ↔ lower < c ∧ c ≤ upper := by
  constructor
  · rintro ⟨x, hx, hle, hle'⟩
    obtain ⟨-, rfl⟩ := mem_gap.mp hx
    simp only [Item.bottom, Item.top] at hle hle'
    exact ⟨by omega, hle'⟩
  · rintro ⟨hlt, hle⟩
    exact ⟨_, mem_gap.mpr ⟨by omega, rfl⟩, by simp only [Item.bottom]; omega, hle⟩

/-- The rows of one epoch: even, falling, and above the lower bound. -/
structure Falling (count : R → ℤ) (below : Option ℤ) (rows : List R) : Prop where
  even : ∀ r ∈ rows, count r % 2 = 0
  falls : rows.Pairwise fun r s => count s < count r
  lower : ∀ l, below = some l → l % 2 = 0 ∧ ∀ r ∈ rows, l < count r

lemma Falling.tail {r : R} (h : Falling count below (r :: rows)) : Falling count below rows where
  even s hs := h.even s (List.mem_cons_of_mem _ hs)
  falls := (List.pairwise_cons.mp h.falls).2
  lower l hl := ⟨(h.lower l hl).1, fun s hs => (h.lower l hl).2 s (List.mem_cons_of_mem _ hs)⟩

/-- Every row the loop returns is of the epoch, not empty and at most the newest file row. -/
lemma descend_bounds {r : R} (h : Falling count below (r :: rows)) :
    ∀ x ∈ descend count epoch batches below (r :: rows),
      x.bottom count ≤ x.top count ∧ x.top count ≤ count r
        ∧ ((∃ s ∈ r :: rows, x = .row s) ∨ ∃ y, x = .reads y ∧ y.epoch = epoch
          ∧ y.key = readsKey epoch y.start) := by
  have hgap : ∀ {t : R} {lower : ℤ} {x : Item R}, x ∈ gap epoch batches lower (count t - 2) →
      x.bottom count ≤ x.top count ∧ x.top count ≤ count t
        ∧ ∃ y, x = .reads y ∧ y.epoch = epoch ∧ y.key = readsKey epoch y.start := by
    intro t lower x hx
    obtain ⟨hle, rfl⟩ := mem_gap.mp hx
    exact ⟨hle, by simp only [Item.top]; omega, _, rfl, rfl, rfl⟩
  induction rows generalizing r with
  | nil =>
      intro x hx
      rcases List.mem_cons.mp hx with rfl | hx
      · exact ⟨le_rfl, le_rfl, Or.inl ⟨r, by simp, rfl⟩⟩
      · cases below with
        | none => exact absurd hx List.not_mem_nil
        | some lower =>
            obtain ⟨hle, hle', hy⟩ := hgap hx
            exact ⟨hle, hle', Or.inr hy⟩
  | cons s rows ih =>
      intro x hx
      rcases List.mem_cons.mp hx with rfl | hx
      · exact ⟨le_rfl, le_rfl, Or.inl ⟨r, by simp, rfl⟩⟩
      · rcases List.mem_append.mp hx with hx | hx
        · obtain ⟨hle, hle', hy⟩ := hgap hx
          exact ⟨hle, hle', Or.inr hy⟩
        · obtain ⟨hle, hle', hy⟩ := ih h.tail x hx
          have hlt := (List.pairwise_cons.mp h.falls).1 s List.mem_cons_self
          exact ⟨hle, hle'.trans hlt.le,
            hy.imp_left fun ⟨t, ht, heq⟩ => ⟨t, List.mem_cons_of_mem _ ht, heq⟩⟩

/-- The rows of the loop fall. -/
lemma descend_falls (h : Falling count below rows) :
    (descend count epoch batches below rows).Pairwise fun a b => b.top count < a.bottom count := by
  induction rows with
  | nil => exact List.Pairwise.nil
  | cons r rows ih =>
      have hgap : ∀ {lower : ℤ}, ∀ x ∈ (gap epoch batches lower (count r - 2) : List (Item R)),
          x.top count < count r := by
        intro lower x hx
        obtain ⟨-, rfl⟩ := mem_gap.mp hx
        simp only [Item.top]
        omega
      cases rows with
      | nil =>
          refine List.pairwise_cons.mpr ⟨fun x hx => ?_, ?_⟩
          · cases below with
            | none => exact absurd hx List.not_mem_nil
            | some lower => exact hgap x hx
          · cases below with
            | none => exact List.Pairwise.nil
            | some lower => exact pairwise_gap
      | cons s rows =>
          have hlt := (List.pairwise_cons.mp h.falls).1 s List.mem_cons_self
          have hbounds := @descend_bounds _ _ epoch batches _ _ _ h.tail
          refine List.pairwise_cons.mpr ⟨fun x hx => ?_, List.pairwise_append.mpr
            ⟨pairwise_gap, ih h.tail, fun x hx y hy => ?_⟩⟩
          · rcases List.mem_append.mp hx with hx | hx
            · exact hgap x hx
            · exact (hbounds x hx).2.1.trans_lt hlt
          · obtain ⟨-, rfl⟩ := mem_gap.mp hx
            have := (hbounds y hy).2.1
            simp only [Item.bottom]
            omega

/-- The rows of the loop cover the counts up to the newest file row. -/
lemma descend_covers (h : Falling count below rows) (hc : c % 2 = 0) :
    (∃ x ∈ descend count epoch batches below rows, x.Covers count c)
      ↔ FromLow count rows below c ∧ ∃ r ∈ rows, c ≤ count r := by
  induction rows with
  | nil => simp [descend]
  | cons r rows ih =>
      have hr := h.even r List.mem_cons_self
      have hrow : (Item.row r).Covers count c ↔ c = count r := by
        simp only [Item.Covers, Item.bottom, Item.top]
        omega
      cases rows with
      | nil =>
          cases below with
          | none =>
              simp only [descend, FromLow, List.mem_singleton, exists_eq_left, hrow]
              omega
          | some lower =>
              obtain ⟨hl, hlt⟩ := h.lower lower rfl
              have hlt := hlt r List.mem_cons_self
              simp only [descend, FromLow, List.exists_mem_cons_iff, hrow, gap_covers hl hc,
                List.not_mem_nil, false_and, exists_false, or_false]
              omega
      | cons s rows =>
          have hs := h.even s (by simp)
          have hlt := (List.pairwise_cons.mp h.falls).1 s List.mem_cons_self
          have hih := ih h.tail
          have hmax : ∀ t ∈ s :: rows, count t ≤ count s := by
            intro t ht
            rcases List.mem_cons.mp ht with rfl | ht
            · exact le_rfl
            · exact ((List.pairwise_cons.mp h.tail.falls).1 t ht).le
          have hup : (∃ t ∈ s :: rows, c ≤ count t) ↔ c ≤ count s :=
            ⟨by rintro ⟨t, ht, hle⟩; exact hle.trans (hmax t ht),
              fun hle => ⟨s, List.mem_cons_self, hle⟩⟩
          have hup' : (∃ t ∈ r :: s :: rows, c ≤ count t) ↔ c ≤ count r := by
            rw [List.exists_mem_cons_iff, hup]
            omega
          rw [hup] at hih
          rw [hup']
          have hsplit : (∃ x ∈ descend count epoch batches below (r :: s :: rows), x.Covers count c)
              ↔ c = count r ∨ (count s < c ∧ c ≤ count r - 2)
                ∨ ∃ x ∈ descend count epoch batches below (s :: rows), x.Covers count c := by
            have hgap : (∃ x ∈ (gap epoch batches (count s) (count r - 2) : List (Item R)),
                x.Covers count c) ↔ count s < c ∧ c ≤ count r - 2 := gap_covers hs hc
            rw [descend, List.exists_mem_cons_iff, hrow, ← hgap]
            simp only [List.mem_append, or_and_right, exists_or]
          rw [hsplit, hih]
          cases below with
          | none =>
              simp only [FromLow]
              have hlow : (∃ t ∈ r :: s :: rows, count t ≤ c) ↔ ∃ t ∈ s :: rows, count t ≤ c := by
                rw [List.exists_mem_cons_iff]
                exact ⟨fun hor => hor.elim (fun hle => ⟨s, List.mem_cons_self, by omega⟩) id, Or.inr⟩
              rw [hlow]
              have hin : count s ≤ c → ∃ t ∈ s :: rows, count t ≤ c := fun hle =>
                ⟨s, List.mem_cons_self, hle⟩
              constructor
              · rintro (rfl | ⟨hlt', hle⟩ | ⟨hex, hle⟩)
                · exact ⟨hin hlt.le, le_rfl⟩
                · exact ⟨hin hlt'.le, by omega⟩
                · exact ⟨hex, hle.trans hlt.le⟩
              · rintro ⟨hex, hle⟩
                by_cases hcs : c ≤ count s
                · exact Or.inr (Or.inr ⟨hex, hcs⟩)
                · omega
          | some lower =>
              have hlow := (h.lower lower rfl).2 s (by simp)
              simp only [FromLow]
              omega

/-- **One epoch.** Its rows fall, and cover exactly the counts it accounts for. -/
lemma interleaveEpoch_spec (h : Falling count below rows) :
    (interleaveEpoch count epoch rows batches above below).Pairwise
        (fun a b => b.top count < a.bottom count)
      ∧ (∀ x ∈ interleaveEpoch count epoch rows batches above below, x.bottom count ≤ x.top count
        ∧ ((∃ r ∈ rows, x = .row r) ∨ ∃ y, x = .reads y ∧ y.epoch = epoch
          ∧ y.key = readsKey epoch y.start))
      ∧ (∀ r ∈ rows, Item.row r ∈ interleaveEpoch count epoch rows batches above below)
      ∧ ∀ c, c % 2 = 0 → ((∃ x ∈ interleaveEpoch count epoch rows batches above below,
        x.Covers count c) ↔ Shown count rows batches above below c) := by
  have hrows : ∀ r ∈ rows, Item.row r ∈ descend count epoch batches below rows := by
    intro r hr
    clear h
    induction rows with
    | nil => exact absurd hr List.not_mem_nil
    | cons s rows ih =>
        cases rows with
        | nil => simp [descend, List.mem_singleton.mp hr]
        | cons t rows =>
            rcases List.mem_cons.mp hr with rfl | hr
            · exact List.mem_cons_self
            · exact List.mem_cons_of_mem _ (List.mem_append_right _ (ih hr))
  have hfalls := @descend_falls _ _ epoch batches _ _ h
  have hcovers := fun {c} => @descend_covers _ _ epoch batches _ _ c h
  cases rows with
  | nil =>
      cases hb : below with
      | none =>
          have hnil : interleaveEpoch count epoch ([] : List R) batches above none = [] := by
            simp only [interleaveEpoch, descend, List.append_nil]
            split
            · next hn => cases hn
            · rfl
          rw [hnil]
          simp [Shown, FromLow]
      | some lower =>
          obtain ⟨hl, -⟩ := h.lower lower hb
          cases htop : above.top batches with
          | none => simp [interleaveEpoch, htop, descend, Shown, FromLow]
          | some top =>
              have heq : interleaveEpoch count epoch ([] : List R) batches above (some lower)
                  = gap epoch batches lower top := by
                simp [interleaveEpoch, htop, descend]
              rw [heq]
              refine ⟨pairwise_gap, fun x hx => ?_, fun r hr => absurd hr List.not_mem_nil,
                fun c hc => ?_⟩
              · obtain ⟨hle, rfl⟩ := mem_gap.mp hx
                exact ⟨hle, Or.inr ⟨_, rfl, rfl, rfl⟩⟩
              · rw [gap_covers hl hc]
                simp [Shown, FromLow, htop]
  | cons r rows =>
      have hr := h.even r List.mem_cons_self
      have hbounds := @descend_bounds _ _ epoch batches _ _ _ h
      have hup : ∀ {c : ℤ}, (∃ t ∈ r :: rows, c ≤ count t) ↔ c ≤ count r := by
        intro c
        refine ⟨fun ⟨t, ht, hle⟩ => ?_, fun hle => ⟨r, List.mem_cons_self, hle⟩⟩
        rcases List.mem_cons.mp ht with rfl | ht
        · exact hle
        · exact hle.trans ((List.pairwise_cons.mp h.falls).1 t ht).le
      cases htop : above.top batches with
      | none =>
          have heq : interleaveEpoch count epoch (r :: rows) batches above below
              = descend count epoch batches below (r :: rows) := by
            simp [interleaveEpoch, htop]
          rw [heq]
          refine ⟨hfalls, fun x hx => ⟨(hbounds x hx).1, (hbounds x hx).2.2⟩, hrows, fun c hc => ?_⟩
          rw [hcovers hc, Shown, htop]
          simp
      | some top =>
          have heq : interleaveEpoch count epoch (r :: rows) batches above below
              = gap epoch batches (count r) top ++ descend count epoch batches below (r :: rows) := by
            simp [interleaveEpoch, htop]
          rw [heq]
          refine ⟨List.pairwise_append.mpr ⟨pairwise_gap, hfalls, fun x hx y hy => ?_⟩,
            fun x hx => ?_, fun s hs => List.mem_append_right _ (hrows s hs), fun c hc => ?_⟩
          · obtain ⟨-, rfl⟩ := mem_gap.mp hx
            have := (hbounds y hy).2.1
            simp only [Item.bottom]
            omega
          · rcases List.mem_append.mp hx with hx | hx
            · obtain ⟨hle, rfl⟩ := mem_gap.mp hx
              exact ⟨hle, Or.inr ⟨_, rfl, rfl, rfl⟩⟩
            · exact ⟨(hbounds x hx).1, (hbounds x hx).2.2⟩
          · have hsplit : (∃ x ∈ gap epoch batches (count r) top
                ++ descend count epoch batches below (r :: rows), x.Covers count c)
                ↔ (count r < c ∧ c ≤ top)
                  ∨ ∃ x ∈ descend count epoch batches below (r :: rows), x.Covers count c := by
              have hgap : (∃ x ∈ (gap epoch batches (count r) top : List (Item R)),
                  x.Covers count c) ↔ count r < c ∧ c ≤ top := gap_covers hr hc
              rw [← hgap]
              simp only [List.mem_append, or_and_right, exists_or]
            rw [hsplit, hcovers hc, Shown, htop, hup]
            -- above the newest row the lower bound holds
            have hlow : count r < c → FromLow count (r :: rows) below c := by
              intro hlt
              cases hb : below with
              | none => exact ⟨r, List.mem_cons_self, hlt.le⟩
              | some lower => exact ((h.lower lower hb).2 r List.mem_cons_self).trans hlt
            constructor
            · rintro (⟨hlt, hle⟩ | ⟨hl, hle⟩)
              · exact ⟨hlow hlt, Or.inr ⟨top, rfl, hle⟩⟩
              · exact ⟨hl, Or.inl hle⟩
            · rintro ⟨hl, hle | ⟨t, ht, hle⟩⟩
              · exact Or.inr ⟨hl, hle⟩
              · obtain rfl := Option.some.inj ht
                by_cases hcr : c ≤ count r
                · exact Or.inr ⟨hl, hcr⟩
                · exact Or.inl ⟨not_le.mp hcr, hle⟩

/-- Rows cut in two: the upper rows end without a lower bound, and the lower ones begin above
nothing but the last upper row. -/
lemma interleaveEpoch_append {page rest : List R} {r : R} (hlast : page.getLast? = some r)
    (hrest : rest ≠ []) : interleaveEpoch count epoch (page ++ rest) batches above below
      = interleaveEpoch count epoch page batches above none
        ++ interleaveEpoch count epoch rest batches (.count (count r)) below := by
  obtain ⟨s, rest, rfl⟩ := List.exists_cons_of_ne_nil hrest
  have hdescend : descend count epoch batches below (page ++ s :: rest)
      = descend count epoch batches none page ++ (gap epoch batches (count s) (count r - 2)
        ++ descend count epoch batches below (s :: rest)) := by
    induction page with
    | nil => cases hlast
    | cons t page ih =>
        cases page with
        | nil =>
            obtain rfl : t = r := by simpa using hlast
            rfl
        | cons u page =>
            have hih := ih (by simpa using hlast)
            rw [List.cons_append] at hih
            rw [List.cons_append, List.cons_append, descend, hih, descend]
            simp only [List.cons_append, List.append_assoc]
  have hlower : interleaveEpoch count epoch (s :: rest) batches (.count (count r)) below
      = gap epoch batches (count s) (count r - 2) ++ descend count epoch batches below (s :: rest) :=
    rfl
  rw [hlower]
  cases page with
  | nil => cases hlast
  | cons t page =>
      rw [List.cons_append] at hdescend ⊢
      simp only [interleaveEpoch, hdescend, List.append_assoc]

/-- Pages join to the rows of one call. -/
lemma pagewise_eq {pages : List (List R)} (hne : pages ≠ []) (hpages : ∀ p ∈ pages, p ≠ []) :
    pagewise count epoch batches below above pages
      = interleaveEpoch count epoch pages.flatten batches above below := by
  induction pages generalizing above with
  | nil => exact absurd rfl hne
  | cons page pages ih =>
      cases pages with
      | nil => rw [pagewise, List.flatten_singleton]
      | cons next pages =>
          have hpage := hpages page List.mem_cons_self
          have hnext := hpages next (by simp)
          have hlast := List.getLast?_eq_some_getLast hpage
          have hflat : (next :: pages).flatten ≠ [] := by
            rw [List.flatten_cons]
            exact List.append_ne_nil_of_left_ne_nil hnext _
          rw [pagewise, ih (by simp) fun p hp => hpages p (List.mem_cons_of_mem _ hp), hlast,
            List.flatten_cons (l := page), interleaveEpoch_append hlast hflat]
          · rfl
          · exact fun h => nomatch h

lemma readsKey_injective {e e' : Str} {n n' : ℤ} (h : readsKey e n = readsKey e' n') :
    e = e' ∧ n = n' := by
  have hcolon : ∀ n : ℤ, (58 : UInt16) ∉ (intText n).reverse := fun n hmem => by
    rw [List.mem_reverse] at hmem
    rcases mem_intText hmem with h | h
    · cases h
    · exact absurd h (by decide)
  have hrev := congrArg List.reverse (List.append_cancel_left h)
  rw [List.reverse_append, List.reverse_append, List.reverse_cons, List.reverse_cons,
    List.append_assoc, List.append_assoc, List.singleton_append, List.singleton_append] at hrev
  obtain ⟨hn, he⟩ := append_cons_inj (hcolon n) (hcolon n') hrev
  exact ⟨List.reverse_injective he, intText_injective (List.reverse_injective hn)⟩

/-! ### A page -/

lemma order_spec (rows : List R) (covered : List Str) (h : covered.Nodup) :
    (order epochOf rows covered).Nodup ∧ (∀ e ∈ covered, e ∈ order epochOf rows covered)
      ∧ ∀ r ∈ rows, epochOf r ∈ order epochOf rows covered := by
  induction rows generalizing covered with
  | nil => exact ⟨h, fun _ he => he, fun r hr => absurd hr List.not_mem_nil⟩
  | cons r rows ih =>
      rw [order, List.foldl_cons]
      have hnodup : (if epochOf r ∈ covered then covered else covered ++ [epochOf r]).Nodup := by
        split
        · exact h
        · next hnot => exact List.Nodup.append h (List.nodup_singleton _) (by simpa using hnot)
      have hsub : ∀ e, e ∈ covered ∨ e = epochOf r →
          e ∈ if epochOf r ∈ covered then covered else covered ++ [epochOf r] := by
        intro e he
        split
        · next hin => exact he.elim id fun heq => heq ▸ hin
        · exact List.mem_append.mpr (he.imp id List.mem_singleton.mpr)
      obtain ⟨hnodup', hcov, hrows⟩ := ih _ hnodup
      refine ⟨hnodup', fun e he => hcov e (hsub e (Or.inl he)), fun s hs => ?_⟩
      rcases List.mem_cons.mp hs with rfl | hs
      · exact hcov _ (hsub _ (Or.inr rfl))
      · exact hrows s hs

/-- What the rows of a page are given as: even counts, newest first in each epoch, above the lower
bounds, which are even, and distinct covered epochs. -/
structure Page (count : R → ℤ) (epochOf : R → Str) (rows : List R) (covered : List Str)
    (ends : Ends) : Prop where
  distinct : covered.Nodup
  even : ∀ r ∈ rows, count r % 2 = 0
  falls : rows.Pairwise fun r s => epochOf r = epochOf s → count s < count r
  lower : ∀ e i, (order epochOf rows covered)[i]? = some e → ∀ l,
    ends.belowAt (order epochOf rows covered).length e i = some l →
      l % 2 = 0 ∧ ∀ r ∈ rows, epochOf r = e → l < count r

lemma Page.falling {covered : List Str} {ends : Ends} (h : Page count epochOf rows covered ends)
    {e : Str} {i : ℕ} (hi : (order epochOf rows covered)[i]? = some e) :
    Falling count (ends.belowAt (order epochOf rows covered).length e i) (rowsOf epochOf rows e) where
  even r hr := h.even r (List.mem_filter.mp hr).1
  falls := by
    refine (h.falls.sublist List.filter_sublist).imp_of_mem fun {r s} hr hs hlt => hlt ?_
    rw [of_decide_eq_true (List.mem_filter.mp hr).2, of_decide_eq_true (List.mem_filter.mp hs).2]
  lower l hl := ⟨(h.lower e i hi l hl).1, fun r hr => (h.lower e i hi l hl).2 r
    (List.mem_filter.mp hr).1 (of_decide_eq_true (List.mem_filter.mp hr).2)⟩

/-- **Every count once.** The rows of a page fall within each epoch, and cover exactly the counts
the epoch accounts for; no file row is left out, and no two reads rows have one key. One epoch's
rows cut into pages give the rows of one call. -/
theorem interleaveDay_partition (count : R → ℤ) (epochOf : R → Str) (rows : List R)
    (covered : List Str) (batches : Str → List TimelineBatchKey) (ends : Ends)
    (h : Page count epochOf rows covered ends) :
    (interleaveDay count epochOf rows covered batches ends).Pairwise
        (fun a b => a.epoch epochOf = b.epoch epochOf → b.top count < a.bottom count)
      ∧ (∀ x ∈ interleaveDay count epochOf rows covered batches ends,
        x.bottom count ≤ x.top count ∧ x.epoch epochOf ∈ order epochOf rows covered)
      ∧ (∀ r ∈ rows, Item.row r ∈ interleaveDay count epochOf rows covered batches ends)
      ∧ (∀ e i, (order epochOf rows covered)[i]? = some e → ∀ c, c % 2 = 0 →
        ((∃ x ∈ interleaveDay count epochOf rows covered batches ends,
            x.epoch epochOf = e ∧ x.Covers count c)
          ↔ Shown count (rowsOf epochOf rows e) (batches e) (ends.aboveAt i)
            (ends.belowAt (order epochOf rows covered).length e i) c))
      ∧ ((interleaveDay count epochOf rows covered batches ends).filterMap Item.key?).Nodup
      ∧ ∀ (e : Str) (above : UpTo) (below : Option ℤ) (pages : List (List R)), pages ≠ [] →
        (∀ p ∈ pages, p ≠ []) → pagewise count e (batches e) below above pages
          = interleaveEpoch count e pages.flatten (batches e) above below := by
  obtain ⟨hnodup, -, hrows⟩ := @order_spec _ epochOf rows covered h.distinct
  set epochs := order epochOf rows covered with hepochs
  let shown (x : Str × ℕ) : List (Item R) := interleaveEpoch count x.1 (rowsOf epochOf rows x.1)
    (batches x.1) (ends.aboveAt x.2) (ends.belowAt epochs.length x.1 x.2)
  have hout : interleaveDay count epochOf rows covered batches ends = epochs.zipIdx.flatMap shown := rfl
  have hspec : ∀ x ∈ epochs.zipIdx, _ := fun x hx =>
    @interleaveEpoch_spec _ _ x.1 (batches x.1) _ _ (ends.aboveAt x.2)
      (h.falling (List.mem_zipIdx_iff_getElem?.mp hx))
  -- every row returned for an epoch is one of it
  have hepoch : ∀ x ∈ epochs.zipIdx, ∀ y ∈ shown x, y.epoch epochOf = x.1 := by
    intro x hx y hy
    rcases ((hspec x hx).2.1 y hy).2 with ⟨r, hr, rfl⟩ | ⟨z, rfl, hz, -⟩
    · exact of_decide_eq_true (List.mem_filter.mp hr).2
    · exact hz
  have hdistinct : epochs.zipIdx.Pairwise fun a b => a.1 ≠ b.1 := by
    have hmap : (epochs.zipIdx.map Prod.fst).Nodup := by rwa [List.zipIdx_map_fst]
    exact List.pairwise_map.mp hmap
  have hfalls : (epochs.zipIdx.flatMap shown).Pairwise
      fun a b => a.epoch epochOf = b.epoch epochOf → b.top count < a.bottom count := by
    refine List.pairwise_flatMap.mpr ⟨fun x hx => ?_, ?_⟩
    · refine (hspec x hx).1.imp ?_
      exact fun hlt _ => hlt
    · refine hdistinct.imp_of_mem fun {a b} ha hb hne x hx y hy heq => absurd ?_ hne
      rw [← hepoch a ha x hx, ← hepoch b hb y hy, heq]
  rw [hout]
  refine ⟨hfalls, fun y hy => ?_, fun r hr => ?_, fun e i hi c hc => ?_, ?_,
    fun e above below pages hne hpages => pagewise_eq hne hpages⟩
  · obtain ⟨x, hx, hy⟩ := List.mem_flatMap.mp hy
    refine ⟨((hspec x hx).2.1 y hy).1, ?_⟩
    rw [hepoch x hx y hy]
    exact List.mem_of_getElem? (List.mem_zipIdx_iff_getElem?.mp hx)
  · obtain ⟨i, hi⟩ := List.getElem?_of_mem (hrows r hr)
    have hx : (epochOf r, i) ∈ epochs.zipIdx := List.mem_zipIdx_iff_getElem?.mpr hi
    refine List.mem_flatMap.mpr ⟨_, hx, (hspec _ hx).2.2.1 r ?_⟩
    exact List.mem_filter.mpr ⟨hr, by simp⟩
  · have hx : (e, i) ∈ epochs.zipIdx := List.mem_zipIdx_iff_getElem?.mpr hi
    rw [← (hspec _ hx).2.2.2 c hc]
    constructor
    · rintro ⟨y, hy, heq, hcov⟩
      obtain ⟨x, hx', hy⟩ := List.mem_flatMap.mp hy
      have hx1 : x.1 = e := (hepoch x hx' y hy).symm.trans heq
      have hx2 : x.2 = i := by
        have hget := List.mem_zipIdx_iff_getElem?.mp hx'
        rw [hx1] at hget
        exact ((List.getElem?_inj (List.getElem?_eq_some_iff.mp hi).1 hnodup).mp
          (hi.trans hget.symm)).symm
      obtain rfl : x = (e, i) := Prod.ext hx1 hx2
      exact ⟨y, hy, hcov⟩
    · rintro ⟨y, hy, hcov⟩
      exact ⟨y, List.mem_flatMap.mpr ⟨_, hx, hy⟩, hepoch _ hx y hy, hcov⟩
  · -- two reads rows of one key would be of one epoch and begin at one count
    refine List.Pairwise.filterMap _ (fun a b hab k hk k' hk' heq => ?_)
      (hfalls.imp_of_mem (S := fun a b => a ∈ epochs.zipIdx.flatMap shown
        ∧ b ∈ epochs.zipIdx.flatMap shown
        ∧ (a.epoch epochOf = b.epoch epochOf → b.top count < a.bottom count))
        fun ha hb hab => ⟨ha, hb, hab⟩)
    obtain ⟨ha, hb, hlt⟩ := hab
    have hkey : ∀ {y : Item R} {k : Str}, y ∈ epochs.zipIdx.flatMap shown → y.key? = some k →
        ∃ z, y = .reads z ∧ z.start ≤ z.stop ∧ k = readsKey z.epoch z.start := by
      intro y k hy hk
      obtain ⟨x, hx, hy⟩ := List.mem_flatMap.mp hy
      obtain ⟨hle, hkind⟩ := (hspec x hx).2.1 y hy
      rcases hkind with ⟨r, -, rfl⟩ | ⟨z, rfl, hz, hzk⟩
      · cases hk
      · exact ⟨z, rfl, hle, by rw [← Option.some.inj hk, hzk, hz]⟩
    obtain ⟨u, rfl, hu, hku⟩ := hkey ha hk
    obtain ⟨v, rfl, hv, hkv⟩ := hkey hb hk'
    obtain ⟨he, hn⟩ := readsKey_injective (hku.symm.trans (heq.trans hkv))
    have := hlt he
    simp only [Item.top, Item.bottom] at this
    omega

end Rows

/-- Two epochs on a page, one without file rows: each count of an epoch is in one row. -/
theorem interleaveDay_partition_sample : Page (fun r : ℤ × Str => r.1) Prod.snd
      [(10, js "b"), (6, js "b"), (4, js "a")] [js "b", js "c"] ⟨.uploaded, some 0, fun _ => none⟩
    ∧ ((interleaveDay (fun r : ℤ × Str => r.1) Prod.snd [(10, js "b"), (6, js "b"), (4, js "a")]
      [js "b", js "c"] (fun _ => sampleBatches) ⟨.uploaded, some 0, fun _ => none⟩).filterMap
        Item.key?).Nodup := by
  have hpage : Page (fun r : ℤ × Str => r.1) Prod.snd [(10, js "b"), (6, js "b"), (4, js "a")]
      [js "b", js "c"] ⟨.uploaded, some 0, fun _ => none⟩ := by
    refine ⟨by decide, by decide, by decide, fun e i hi l hl => ?_⟩
    obtain rfl : l = 0 := by
      simpa [Ends.belowAt, eq_comm] using hl
    exact ⟨rfl, fun r hr _ => (by decide : ∀ r ∈ [((10 : ℤ), js "b"), (6, js "b"), (4, js "a")],
      0 < r.1) r hr⟩
  exact ⟨hpage, (interleaveDay_partition _ _ _ _ (fun _ => sampleBatches) _ hpage).2.2.2.2.1⟩

end LedgerCore

end BitGraph
