import BitGraph.Carrier.Verify
import BitGraph.Keccak.Eval

/-!
Lookups: what the answers of the nodes change in a verdict.

* **Questions.** `questions` are what is asked of the nodes, with what they answered and the block
  that is claimed.
* **Unmoved.** `Unmoved`: a node that does not answer leaves its claim open and changes nothing else,
  and a node that names another block makes the verdict FALSE.
* `unmoved_iff`: this holds exactly when the lookup of the settling block answers, where it is asked.
-/

namespace BitGraph

open Js Carrier Lib

namespace CarrierVerify

/-! ### Questions -/

/-- A question to a node: the claim it confirms, the hash the node returned, and the hash of the block
that is claimed. -/
structure Question where
  claim : Str
  answer : Option Str
  claimed : Option Str

/-- The hash a node returned. -/
def returned (table : Str → Str) (a : Answer) : Option Str :=
  match heard table a with
  | none | some [] => none
  | some h => some h

def Question.result (q : Question) : ClaimResult :=
  match q.answer, q.claimed with
  | some h, some c => judged (h == c)
  | _, _ => .undetermined

/-- The node returned another block than the one that is claimed. -/
def Question.Differs (q : Question) : Prop := ∃ h c, q.answer = some h ∧ q.claimed = some c ∧ h ≠ c

def Question.judgment (q : Question) : Judged := ⟨q.claim, q.result⟩

lemma Question.result_eq_false {q : Question} : q.result = .false ↔ q.Differs := by
  obtain ⟨claim, answer, claimed⟩ := q
  cases answer with
  | none => simp [Question.result, Question.Differs]
  | some h =>
      cases claimed with
      | none => simp [Question.result, Question.Differs]
      | some c =>
          by_cases heq : h = c <;> simp [Question.result, Question.Differs, judged, heq]

lemma compared_heard (table : Str → Str) (a : Answer) (claim c : Str) :
    compared (heard table a) c = (Question.mk claim (returned table a) (some c)).result := by
  rw [returned, Question.result]
  cases heard table a with
  | none => rfl
  | some h =>
      cases h with
      | nil => rfl
      | cons x h => rfl

/-- What a field claims as the hash of a block. -/
def hashOf (table : Str → Str) (v : Value) : Option Str := (lowerCase table v).toOption

section Questions

variable (V : Calls) (lk : CarrierLookups) (payload : Value)

def floorQuestion (b : CarrierBounds) : Question where
  claim := js "confirmed.floor"
  answer := (floorAsk lk payload).bind fun ask => returned V.table (ask 0 b.notBefore.blockNumber)
  claimed := some b.notBefore.blockHash

/-- Asked where a ceiling in position is carried and there is a lookup. -/
def positionQuestion : Option Question :=
  let ceiling := payload.get (js "ceiling")
  let w := ceiling.get (js "witness")
  lk.ethereumBlockHash.bind fun ask =>
    if ceiling.get (js "status") == .str (js "present") then
      some ⟨js "confirmed.ceiling.position", returned V.table (ask 1 (w.get (js "blockNumber"))),
        hashOf V.table (w.get (js "blockHash"))⟩
    else none

/-- The Ethereum section of the settlement. -/
def l1Of : Value := ((payload.get (js "settlement")).get (js "pointer")).get (js "l1")

/-- Asked where a settlement is carried and there is a lookup. -/
def settlementQuestion : Option Question :=
  lk.ethereumBlockHash.bind fun ask =>
    if isPresentPart (payload.get (js "settlement")) then
      some ⟨js "confirmed.settlement", returned V.table (ask 2 ((l1Of payload).get (js "blockNumber"))),
        hashOf V.table ((l1Of payload).get (js "blockHash"))⟩
    else none

/-- Stated where a sidecar is carried; a block without a number or a hash is not claimed. -/
def inTimeQuestion (c : InTime) : Option Question :=
  c.sidecar.map fun sidecar =>
    let a := sidecar.get (js "anchor")
    { claim := js "confirmed.ceiling.time"
      answer := lk.baseBlockHash.bind fun ask => returned V.table (ask 3 (a.get (js "blockNumber")))
      claimed := if a.truthy then
          (a.get (js "blockNumber")).string.toOption.bind fun _ => hashOf V.table (a.get (js "blockHash"))
        else none }

def questions (o : Offline) : List Question :=
  floorQuestion V lk payload o.bounds ::
    ((positionQuestion V lk payload).toList ++ ((settlementQuestion V lk payload).toList
      ++ (inTimeQuestion V lk o.inTime).toList))

end Questions

/-- The questions of a run: none where a malformed part ended it before. -/
def asked (V : Calls) (opts : CarrierVerifyOptions) (lk : CarrierLookups) (payload : Value)
    (inner : Option Bytes) : List Question :=
  match (offline V opts payload inner).out with
  | .ok o => questions V lk payload o
  | .error _ => []

/-! ### What is claimed of the lookups -/

/-- The claims of a level. -/
def CarrierVerifyResult.at (r : CarrierVerifyResult) (level : Level) : List Judged :=
  (r.claims.filter fun c => c.level == level).map CarrierClaim.toJudged

def noLookups : CarrierLookups := ⟨none, none⟩

/-- The nodes change nothing but the claims they confirm: a block that differs makes the verdict FALSE,
and a question without an answer leaves its claim UNDETERMINED. -/
structure Unmoved (V : Calls) (opts : CarrierVerifyOptions) (lk : CarrierLookups)
    (payload : BlockPayload) (inner : Option Bytes) : Prop where
  verdict_false : (∃ q ∈ asked V opts lk payload.value inner, q.Differs) →
    (verifyCarrierPayload V opts lk payload inner).verdict = .false
  verdict : (∀ q ∈ asked V opts lk payload.value inner, ¬ q.Differs) →
    (verifyCarrierPayload V opts lk payload inner).verdict
      = (verifyCarrierPayload V opts noLookups payload inner).verdict
  offline : (∀ q ∈ asked V opts lk payload.value inner, ¬ q.Differs) →
    (verifyCarrierPayload V opts lk payload inner).at .offline
      = (verifyCarrierPayload V opts noLookups payload inner).at .offline
  confirmed : (verifyCarrierPayload V opts lk payload inner).at .confirmed
    = (asked V opts lk payload.value inner).map Question.judgment

/-- Where the settling block is asked for, the node returns a hash, and the pointer names a block by a
number and a hash. -/
def SettlementAnswered (V : Calls) (opts : CarrierVerifyOptions) (lk : CarrierLookups) (payload : Value)
    (inner : Option Bytes) : Prop :=
  ∀ o ask, (offline V opts payload inner).out = .ok o → lk.ethereumBlockHash = some ask →
    isPresentPart (payload.get (js "settlement")) = true →
      (returned V.table (ask 2 ((l1Of payload).get (js "blockNumber")))).isSome = true ∧
      (hashOf V.table ((l1Of payload).get (js "blockHash"))).isSome = true ∧
      ((l1Of payload).get (js "blockNumber")).string.toOption.isSome = true

/-! ### The offline part -/

section Offline

variable {V : Calls} {opts : CarrierVerifyOptions} {payload : Value} {inner : Option Bytes}
  {log : List Judged} {c : InTime} {o : Offline}

/-- A sidecar that was carried has a block whose number has a text. -/
lemma inTimeClaims_shown {proofValid : Bool} {floorTs at_ : Option ℕ}
    (h : (inTimeClaims V opts payload proofValid floorTs at_).Ends log c) {s : Value}
    (hs : c.sidecar = some s) : (blockShown (s.get (js "anchor"))).Ends [] () := by
  rw [inTimeClaims] at h
  split at h
  · obtain ⟨_, _, _, -, h, -⟩ := Logged.ends_bind.mp h
    obtain ⟨_, _, _, -, h, -⟩ := Logged.ends_bind.mp h
    obtain ⟨_, _, _, -, h, -⟩ := Logged.ends_bind.mp h
    obtain ⟨_, l, _, hshown, h, -⟩ := Logged.ends_bind.mp h
    have hsidecar : c.sidecar = some ((payload.get (js "ceilingInTime")).get (js "sidecar")) := by
      obtain ⟨_, _, _, -, h, -⟩ := Logged.ends_bind.mp h
      obtain ⟨_, _, _, -, h, -⟩ := Logged.ends_bind.mp h
      split at h
      · obtain ⟨_, _, _, -, h, -⟩ := Logged.ends_bind.mp h
        obtain ⟨_, _, _, -, h, -⟩ := Logged.ends_bind.mp h
        obtain ⟨_, _, _, -, h, -⟩ := Logged.ends_bind.mp h
        rw [← (Logged.ends_pure.mp h).2]
      · obtain ⟨_, _, _, -, h, -⟩ := Logged.ends_bind.mp h
        obtain ⟨_, _, _, -, h, -⟩ := Logged.ends_bind.mp h
        obtain ⟨_, _, _, -, h, -⟩ := Logged.ends_bind.mp h
        rw [← (Logged.ends_pure.mp h).2]
    obtain rfl := Option.some.inj (hsidecar.symm.trans hs)
    rw [blockShown, shown] at hshown ⊢
    obtain ⟨rfl, hok⟩ := Logged.ends_of.mp hshown
    exact Logged.ends_of.mpr ⟨rfl, hok⟩
  · obtain ⟨_, _, _, -, h, -⟩ := Logged.ends_bind.mp h
    rw [← (Logged.ends_pure.mp h).2] at hs
    cases hs

lemma laterClaims_shown {proofValid : Bool} {floorTs at_ : Option ℕ}
    (h : (laterClaims V opts payload proofValid floorTs at_).Ends log c) {s : Value}
    (hs : c.sidecar = some s) : (blockShown (s.get (js "anchor"))).Ends [] () := by
  rw [laterClaims] at h
  split at h
  · obtain ⟨inTime, _, _, htime, h, -⟩ := Logged.ends_bind.mp h
    obtain ⟨_, _, _, -, h, -⟩ := Logged.ends_bind.mp h
    obtain ⟨_, _, _, -, h, -⟩ := Logged.ends_bind.mp h
    obtain rfl := (Logged.ends_pure.mp h).2
    exact inTimeClaims_shown htime hs
  · rw [← (Logged.ends_pure.mp h).2] at hs
    cases hs

/-- What the steps before the lookups leave. -/
lemma offline_ends (h : (offline V opts payload inner).Ends log o) :
    carrierBounds V payload = .ok o.bounds ∧ ∃ valid at_ l,
      (laterClaims V opts payload valid o.floor.ts at_).Ends l o.inTime := by
  rw [offline] at h
  obtain ⟨_, _, _, -, h, -⟩ := Logged.ends_bind.mp h
  obtain ⟨_, _, _, -, h, -⟩ := Logged.ends_bind.mp h
  obtain ⟨valid, _, _, -, h, -⟩ := Logged.ends_bind.mp h
  obtain ⟨_, _, _, -, h, -⟩ := Logged.ends_bind.mp h
  obtain ⟨at_, _, _, -, h, -⟩ := Logged.ends_bind.mp h
  obtain ⟨floor, _, _, -, h, -⟩ := Logged.ends_bind.mp h
  obtain ⟨_, _, _, -, h, -⟩ := Logged.ends_bind.mp h
  obtain ⟨inTime, l, _, htime, h, -⟩ := Logged.ends_bind.mp h
  obtain ⟨bounds, _, _, hbounds, h, -⟩ := Logged.ends_bind.mp h
  obtain rfl := (Logged.ends_pure.mp h).2
  exact ⟨(Logged.ends_of.mp hbounds).2, valid, at_, l, htime⟩

end Offline

/-! ### The answers -/

section Confirm

variable {V : Calls} {lk : CarrierLookups} {payload : Value} {b : CarrierBounds} {c : InTime}

/-- The claims of the questions that are asked. -/
def judgments (l : List Question) : List Judged := l.map Question.judgment

lemma confirmFloor_ends :
    (confirmFloor V lk payload b).Ends (judgments [floorQuestion V lk payload b]) () := by
  rw [confirmFloor]
  cases hask : floorAsk lk payload with
  | none =>
      refine Logged.ends_note.mpr ?_
      simp [judgments, Question.judgment, floorQuestion, Question.result, hask]
  | some ask =>
      refine Logged.ends_note.mpr ?_
      rw [compared_heard V.table _ (js "confirmed.floor")]
      simp [judgments, Question.judgment, floorQuestion, Question.result, hask]

lemma lowerCase_eq_ok {table : Str → Str} {v : Value} {s : Str} (h : hashOf table v = some s) :
    lowerCase table v = .ok s := toOption_eq_some.mp h

/-- The witness of a ceiling in position has a hash. -/
lemma hashOf_witness (h : carrierBounds V payload = .ok b)
    (hpresent : (payload.get (js "ceiling")).get (js "status") = .str (js "present")) :
    ∃ s, hashOf V.table (((payload.get (js "ceiling")).get (js "witness")).get (js "blockHash")) = some s := by
  rw [carrierBounds] at h
  obtain ⟨_, -, h⟩ := bind_eq_ok h
  obtain ⟨_, hafter, -⟩ := bind_eq_ok h
  rw [positionBound, if_pos (by rw [hpresent]; decide)] at hafter
  cases hw : witnessBound V ((payload.get (js "ceiling")).get (js "witness")) with
  | error e => rw [hw] at hafter; cases hafter
  | ok w =>
      rw [witnessBound] at hw
      obtain ⟨_, -, hw⟩ := bind_eq_ok hw
      obtain ⟨s, hs, -⟩ := bind_eq_ok hw
      exact ⟨s, toOption_eq_some.mpr hs⟩

lemma confirmPosition_ends (h : carrierBounds V payload = .ok b) :
    (confirmPosition V lk payload).Ends (judgments (positionQuestion V lk payload).toList) () := by
  rw [confirmPosition, positionQuestion]
  cases lk.ethereumBlockHash with
  | none => exact Logged.ends_pure.mpr ⟨rfl, rfl⟩
  | some ask =>
      dsimp only [Option.bind_some]
      by_cases hpresent : (payload.get (js "ceiling")).get (js "status") = .str (js "present")
      · obtain ⟨s, hs⟩ := hashOf_witness h hpresent
        rw [if_pos (by rw [hpresent]; decide), if_pos (by rw [hpresent]; decide)]
        refine Logged.ends_bind.mpr ⟨s, [], _, Logged.ends_of.mpr ⟨rfl, lowerCase_eq_ok hs⟩,
          Logged.ends_note.mpr rfl, ?_⟩
        rw [compared_heard V.table _ (js "confirmed.ceiling.position"), hs]
        rfl
      · rw [if_neg (by simpa using hpresent), if_neg (by simpa using hpresent)]
        exact Logged.ends_pure.mpr ⟨rfl, rfl⟩

/-- The finding on the ceiling's block is what the node returned against what is claimed. -/
lemma checkCeilingOnline_result (ask : Value → Answer) (s : Value) :
    (checkCeilingOnline V ask s).elim .undetermined judged
      = (Question.mk (js "confirmed.ceiling.time") (returned V.table (ask ((s.get (js "anchor")).get (js "blockNumber"))))
        (if (s.get (js "anchor")).truthy then
          ((s.get (js "anchor")).get (js "blockNumber")).string.toOption.bind fun _ =>
            hashOf V.table ((s.get (js "anchor")).get (js "blockHash"))
        else none)).result := by
  rw [checkCeilingOnline, Question.result, returned]
  cases (s.get (js "anchor")).truthy with
  | false =>
      simp
  | true =>
      simp only [Bool.not_true, if_true, hashOf]
      cases heard V.table (ask ((s.get (js "anchor")).get (js "blockNumber"))) with
      | none => rfl
      | some h =>
          cases h with
          | nil => rfl
          | cons x h =>
              cases lowerCase V.table ((s.get (js "anchor")).get (js "blockHash")) <;>
                cases ((s.get (js "anchor")).get (js "blockNumber")).string <;> rfl

lemma confirmInTime_ends (h : ∀ s, c.sidecar = some s → (blockShown (s.get (js "anchor"))).Ends [] ()) :
    (confirmInTime V lk c).Ends (judgments (inTimeQuestion V lk c).toList) () := by
  rw [confirmInTime, inTimeQuestion]
  cases hs : c.sidecar with
  | none => exact Logged.ends_pure.mpr ⟨rfl, rfl⟩
  | some s =>
      dsimp only [Option.map_some]
      cases lk.baseBlockHash with
      | none =>
          refine Logged.ends_bind.mpr ⟨(), [], _, h s hs, Logged.ends_note.mpr rfl, ?_⟩
          rfl
      | some ask =>
          refine Logged.ends_note.mpr ?_
          rw [checkCeilingOnline_result]
          rfl

/-- The settling block is confirmed where its node answers. -/
lemma checkSettlementOnline_eq {ask : Value → Answer} {pointer : Value} {h s : Str}
    (hanswer : returned V.table (ask ((pointer.get (js "l1")).get (js "blockNumber"))) = some h)
    (hhash : hashOf V.table ((pointer.get (js "l1")).get (js "blockHash")) = some s)
    (hshown : ((pointer.get (js "l1")).get (js "blockNumber")).string.toOption.isSome = true) :
    checkSettlementOnline V.table ask pointer = .ok (h == s) := by
  have hl1 : pointer.prop (js "l1") = .ok (pointer.get (js "l1"))
      ∧ (pointer.get (js "l1")).prop (js "blockNumber")
        = .ok ((pointer.get (js "l1")).get (js "blockNumber")) := by
    have hobj : ∀ v : Value, ∀ k, v.get k ≠ .undefined → ∀ j, v.prop j = .ok (v.get j) := by
      intro v k hv j
      cases v <;> first | rfl | exact absurd rfl hv
    have hne : (pointer.get (js "l1")).get (js "blockHash") ≠ .undefined := fun h0 => by
      rw [h0] at hhash
      cases hhash
    refine ⟨hobj pointer (js "l1") (fun h0 => hne ?_) _, hobj _ _ hne _⟩
    rw [h0]
    rfl
  rw [checkSettlementOnline, hl1.1, ok_bind, hl1.2, ok_bind]
  obtain ⟨text, htext⟩ := Option.isSome_iff_exists.mp hshown
  cases hask : ask ((pointer.get (js "l1")).get (js "blockNumber")) with
  | threw e => rw [hask] at hanswer; cases hanswer
  | null => rw [hask] at hanswer; cases hanswer
  | hash chainHash =>
      have hh : toLowerCase V.table chainHash = h := by
        rw [hask, returned, heard] at hanswer
        split at hanswer
        · cases hanswer
        · cases hanswer
        · next h' _ heq =>
          exact (Option.some.inj heq).trans (Option.some.inj hanswer)
      dsimp only
      rw [lowerCase_eq_ok hhash, ok_bind, toOption_eq_some.mp htext, ok_bind, hh]
      rfl

/-- The pointer names its block, and the node returned a hash for it. -/
def Answered (V : Calls) (ask : Value → Answer) (l1 : Value) : Prop :=
  (returned V.table (ask (l1.get (js "blockNumber")))).isSome = true ∧
  (hashOf V.table (l1.get (js "blockHash"))).isSome = true ∧
  (l1.get (js "blockNumber")).string.toOption.isSome = true

lemma confirmSettlement_ends {ask : Lookup} (hask : lk.ethereumBlockHash = some ask)
    (hpresent : isPresentPart (payload.get (js "settlement")) = true)
    (h : Answered V (ask 2) (l1Of payload)) :
    (confirmSettlement V lk payload).Ends (judgments (settlementQuestion V lk payload).toList) () := by
  obtain ⟨hanswer, hhash, hshown⟩ := h
  obtain ⟨answer, hanswer⟩ := Option.isSome_iff_exists.mp hanswer
  obtain ⟨hash, hhash⟩ := Option.isSome_iff_exists.mp hhash
  rw [confirmSettlement, settlementQuestion, hask]
  dsimp only [Option.bind_some]
  rw [if_pos hpresent, if_pos hpresent, hanswer, hhash]
  exact Logged.ends_bind.mpr ⟨_, [], _, Logged.ends_of.mpr
    ⟨rfl, checkSettlementOnline_eq hanswer hhash hshown⟩, Logged.ends_note.mpr rfl, rfl⟩

lemma confirmSettlement_not_asked (h : lk.ethereumBlockHash = none
    ∨ isPresentPart (payload.get (js "settlement")) = false) :
    (confirmSettlement V lk payload).Ends (judgments (settlementQuestion V lk payload).toList) () := by
  rw [confirmSettlement, settlementQuestion]
  cases hask : lk.ethereumBlockHash with
  | none => exact Logged.ends_pure.mpr ⟨rfl, rfl⟩
  | some ask =>
      rw [hask] at h
      have hpresent : ¬ isPresentPart (payload.get (js "settlement")) = true := by simpa using h
      dsimp only [Option.bind_some]
      rw [if_neg hpresent, if_neg hpresent]
      exact Logged.ends_pure.mpr ⟨rfl, rfl⟩

/-- A check that ended without an answer did not hear of the block. -/
lemma returned_of_ok {ask : Value → Answer} {pointer : Value} {ok : Bool}
    (h : checkSettlementOnline V.table ask pointer = .ok ok)
    (hn : ¬ Answered V ask (pointer.get (js "l1"))) :
    returned V.table (ask ((pointer.get (js "l1")).get (js "blockNumber"))) = none := by
  have hget : ∀ {v w : Value} {k : Str}, v.prop k = .ok w → w = v.get k := by
    intro v w k hv
    cases v <;> first | exact (Except.ok.inj hv).symm | cases hv
  rw [checkSettlementOnline] at h
  obtain ⟨l1, hl1, h⟩ := bind_eq_ok h
  obtain ⟨n, hnum, h⟩ := bind_eq_ok h
  obtain rfl := hget hl1
  obtain rfl := hget hnum
  cases hask : ask ((pointer.get (js "l1")).get (js "blockNumber")) with
  | threw e => rfl
  | null => rfl
  | hash chainHash =>
      rw [hask] at h
      obtain ⟨hash, hhash, h⟩ := bind_eq_ok h
      obtain ⟨text, htext, -⟩ := bind_eq_ok h
      by_contra hsome
      refine hn ⟨?_, ?_, ?_⟩
      · rw [hask]
        exact Option.isSome_iff_ne_none.mpr hsome
      · rw [hashOf, toOption_eq_some.mpr hhash]
        rfl
      · rw [toOption_eq_some.mpr htext]
        rfl

variable {o : Offline} (hbounds : carrierBounds V payload = .ok o.bounds)
  (hshown : ∀ s, o.inTime.sidecar = some s → (blockShown (s.get (js "anchor"))).Ends [] ())

include hbounds hshown

/-- Where the settling block is answered, every claim is that of its question. -/
lemma confirm_ends (h : ∀ ask, lk.ethereumBlockHash = some ask →
      isPresentPart (payload.get (js "settlement")) = true → Answered V (ask 2) (l1Of payload)) :
    (confirm V lk payload o).Ends (judgments (questions V lk payload o)) () := by
  have hsettlement : (confirmSettlement V lk payload).Ends
      (judgments (settlementQuestion V lk payload).toList) () := by
    cases hask : lk.ethereumBlockHash with
    | none => exact confirmSettlement_not_asked (.inl hask)
    | some ask =>
        cases hpresent : isPresentPart (payload.get (js "settlement")) with
        | false => exact confirmSettlement_not_asked (.inr hpresent)
        | true => exact confirmSettlement_ends hask hpresent (h ask hask hpresent)
  refine Logged.ends_bind.mpr ⟨(), _, _, confirmFloor_ends, Logged.ends_bind.mpr ⟨(), _, _,
    confirmPosition_ends hbounds, Logged.ends_bind.mpr ⟨(), _, _, hsettlement,
      confirmInTime_ends hshown, rfl⟩, rfl⟩, ?_⟩
  simp only [judgments, questions, List.map_append, List.map_cons, List.map_nil, List.cons_append,
    List.nil_append]

/-- Where the settling block is asked for and not answered, the claims are not those of the questions. -/
lemma confirm_unanswered {ask : Lookup} (hask : lk.ethereumBlockHash = some ask)
    (hpresent : isPresentPart (payload.get (js "settlement")) = true)
    (hn : ¬ Answered V (ask 2) (l1Of payload)) :
    (confirm V lk payload o).log ≠ judgments (questions V lk payload o) := by
  have hquestion : settlementQuestion V lk payload = some ⟨js "confirmed.settlement",
      returned V.table (ask 2 ((l1Of payload).get (js "blockNumber"))),
      hashOf V.table ((l1Of payload).get (js "blockHash"))⟩ := by
    rw [settlementQuestion, hask, Option.bind_some, if_pos hpresent]
  have hrun : confirmSettlement V lk payload
      = Logged.of (checkSettlementOnline V.table (ask 2)
        ((payload.get (js "settlement")).get (js "pointer")))
        >>= fun ok => add (js "confirmed.settlement") (judged ok) := by
    rw [confirmSettlement, hask]
    dsimp only
    rw [if_pos hpresent]
  intro heq
  rw [confirm, Logged.bind_of_ends confirmFloor_ends, Logged.bind_of_ends (confirmPosition_ends hbounds),
    hrun] at heq
  simp only [judgments, questions, hquestion, List.map_append, List.map_cons, List.map_nil,
    Option.toList_some, List.cons_append, List.nil_append, List.cons.injEq, true_and,
    List.append_cancel_left_eq] at heq
  cases hcheck : checkSettlementOnline V.table (ask 2)
      ((payload.get (js "settlement")).get (js "pointer")) with
  | error e =>
      rw [hcheck] at heq
      cases heq
  | ok ok =>
      have hends : (Logged.of (.ok ok) >>= fun ok => add (js "confirmed.settlement") (judged ok) :
          Run Unit).Ends [⟨js "confirmed.settlement", judged ok⟩] () := rfl
      rw [hcheck, Logged.bind_of_ends hends] at heq
      have hhead := (List.cons.inj heq).1
      rw [Question.judgment, Question.result, l1Of, returned_of_ok hcheck hn] at hhead
      cases ok <;> cases (Judged.mk.inj hhead).2

end Confirm

/-! ### The verdict -/

section Verdict

variable {payload : Value} {first last : List Judged} {o : Offline}

lemma at_offline (v : Verdict) (b : Option CarrierBounds) (p q : Bool) :
    (CarrierVerifyResult.mk v b (claimsOf first last) p q).at .offline = first := by
  simp [CarrierVerifyResult.at, claimsOf, List.filter_append, List.filter_map, Function.comp_def]

lemma at_confirmed (v : Verdict) (b : Option CarrierBounds) (p q : Bool) :
    (CarrierVerifyResult.mk v b (claimsOf first last) p q).at .confirmed = last := by
  simp [CarrierVerifyResult.at, claimsOf, List.filter_append, List.filter_map, Function.comp_def]

lemma malformed_at_offline :
    (malformed (claimsOf first last)).at .offline = first ++ [⟨js "wellformed", .false⟩] := by
  simp [CarrierVerifyResult.at, malformed, claimsOf, List.filter_append, List.filter_map,
    Function.comp_def]

lemma malformed_at_confirmed : (malformed (claimsOf first last)).at .confirmed = last := by
  simp [CarrierVerifyResult.at, malformed, claimsOf, List.filter_append, List.filter_map,
    Function.comp_def]

/-- The ids of the claims that a node confirms. -/
def confirmedIds : List Str :=
  [js "confirmed.floor", js "confirmed.ceiling.position", js "confirmed.settlement",
    js "confirmed.ceiling.time"]

lemma mem_questions_claim {V : Calls} {lk : CarrierLookups} {q : Question}
    (h : q ∈ questions V lk payload o) : q.claim ∈ confirmedIds := by
  rw [questions, List.mem_cons, List.mem_append, List.mem_append, Option.mem_toList, Option.mem_toList,
    Option.mem_toList] at h
  rcases h with rfl | h | h | h
  · simp [floorQuestion, confirmedIds]
  · rw [positionQuestion, Option.bind_eq_some_iff] at h
    obtain ⟨ask, -, h⟩ := h
    split at h
    · rw [← Option.some.inj h]
      simp [confirmedIds]
    · cases h
  · rw [settlementQuestion, Option.bind_eq_some_iff] at h
    obtain ⟨ask, -, h⟩ := h
    split at h
    · rw [← Option.some.inj h]
      simp [confirmedIds]
    · cases h
  · rw [inTimeQuestion, Option.map_eq_some_iff] at h
    obtain ⟨s, -, rfl⟩ := h
    simp [confirmedIds]

/-- The claims of the nodes weigh in a verdict only where one is FALSE. -/
lemma verdictOf_claimsOf (hids : ∀ j ∈ last, j.id ∈ confirmedIds)
    (hlast : ∀ j ∈ last, j.result ≠ .false) :
    verdictOf payload (claimsOf first last) = verdictOf payload (claimsOf first []) := by
  have hdisjoint : ∀ id ∈ confirmedIds, id ≠ js "attestation.pins" ∧ id ∉ treeClaimIds := by
    decide +kernel
  have hfalse : (claimsOf first last).any (fun c => c.result == .false)
      = (claimsOf first []).any fun c => c.result == .false := by
    have hnone : (last.map fun j => CarrierClaim.mk j .confirmed).any (fun c => c.result == .false)
        = false := by
      simpa [List.any_eq_false] using hlast
    rw [claimsOf, claimsOf, List.any_append, List.any_append, hnone]
    rfl
  have hpins : (claimsOf first last).find? (fun c => c.id == js "attestation.pins")
      = (claimsOf first []).find? fun c => c.id == js "attestation.pins" := by
    have hnone : (last.map fun j => CarrierClaim.mk j .confirmed).find?
        (fun c => c.id == js "attestation.pins") = none := by
      rw [List.find?_eq_none]
      intro c hc
      obtain ⟨j, hj, rfl⟩ := List.mem_map.mp hc
      simpa using (hdisjoint _ (hids j hj)).1
    rw [claimsOf, claimsOf, List.find?_append, List.find?_append, hnone]
    rfl
  have htree : (claimsOf first last).any (fun c => treeClaimIds.contains c.id && c.result == .undetermined)
      = (claimsOf first []).any fun c => treeClaimIds.contains c.id && c.result == .undetermined := by
    have hnone : (last.map fun j => CarrierClaim.mk j .confirmed).any
        (fun c => treeClaimIds.contains c.id && c.result == .undetermined) = false := by
      rw [List.any_eq_false]
      intro c hc
      obtain ⟨j, hj, rfl⟩ := List.mem_map.mp hc
      simp [(hdisjoint _ (hids j hj)).2]
    rw [claimsOf, claimsOf, List.any_append, List.any_append, hnone]
    rfl
  rw [verdictOf, verdictOf, hfalse, hpins, htree]

lemma verdictOf_false {j : Judged} (hj : j ∈ last) (hfalse : j.result = .false) :
    verdictOf payload (claimsOf first last) = .false := by
  have hany : (claimsOf first last).any (fun c => c.result == .false) = true := by
    rw [List.any_eq_true]
    exact ⟨⟨j, .confirmed⟩, List.mem_append_right _ (List.mem_map_of_mem hj), by simp [hfalse]⟩
  rw [verdictOf, if_pos hany]

end Verdict

/-! ### Main result -/

section Main

variable (V : Calls) (opts : CarrierVerifyOptions) (lk : CarrierLookups) (payload : BlockPayload)
  (inner : Option Bytes)

/-- The result of a run whose lookups went through. -/
def concluded (first last : List Judged) (o : Offline) : CarrierVerifyResult :=
  let verdict := verdictOf payload.value (claimsOf first last)
  match writeReading payload.value verdict o.bounds o with
  | .error _ => malformed (claimsOf first last)
  | .ok _ => ⟨verdict, some (finalBounds o), claimsOf first last, o.inTime.withheld, o.floor.withheld⟩

variable {V opts lk payload inner} {first last : List Judged} {o : Offline} {e : Thrown}

lemma verifyCarrierPayload_of_error (h : (offline V opts payload.value inner).out = .error e) :
    verifyCarrierPayload V opts lk payload inner
      = malformed (claimsOf (offline V opts payload.value inner).log []) := by
  rw [verifyCarrierPayload]
  dsimp only
  rw [h]

lemma verifyCarrierPayload_of_ends (h : (offline V opts payload.value inner).Ends first o)
    (hlast : (confirm V lk payload.value o).Ends last ()) :
    verifyCarrierPayload V opts lk payload inner = concluded payload first last o := by
  rw [verifyCarrierPayload, h]
  dsimp only
  rw [hlast]
  rfl

/-- The confirmed claims of a run are those that asking the nodes made. -/
lemma verifyCarrierPayload_at_confirmed (h : (offline V opts payload.value inner).out = .ok o) :
    (verifyCarrierPayload V opts lk payload inner).at .confirmed = (confirm V lk payload.value o).log := by
  rw [verifyCarrierPayload]
  dsimp only
  rw [h]
  dsimp only
  split
  · exact malformed_at_confirmed
  · split
    · exact malformed_at_confirmed
    · exact at_confirmed _ _ _ _

/-- Claims of nodes that are not FALSE change neither the verdict nor the other claims. -/
lemma concluded_eq {last' : List Judged} (hids : ∀ j ∈ last, j.id ∈ confirmedIds)
    (hlast : ∀ j ∈ last, j.result ≠ .false) (hids' : ∀ j ∈ last', j.id ∈ confirmedIds)
    (hlast' : ∀ j ∈ last', j.result ≠ .false) :
    (concluded payload first last o).verdict = (concluded payload first last' o).verdict
      ∧ (concluded payload first last o).at .offline = (concluded payload first last' o).at .offline := by
  rw [concluded, concluded, verdictOf_claimsOf hids hlast, verdictOf_claimsOf hids' hlast']
  split
  · exact ⟨rfl, malformed_at_offline.trans malformed_at_offline.symm⟩
  · exact ⟨rfl, (at_offline _ _ _ _).trans (at_offline _ _ _ _).symm⟩

/-- A claim of a node that is FALSE makes the verdict FALSE. -/
lemma concluded_false {j : Judged} (hj : j ∈ last) (hfalse : j.result = .false) :
    (concluded payload first last o).verdict = .false := by
  rw [concluded, verdictOf_false hj hfalse]
  split
  · rfl
  · rfl

lemma noLookups_not_differs {q : Question} (h : q ∈ questions V noLookups payload.value o) :
    ¬ q.Differs := by
  have hnone : q.answer = none := by
    rw [questions, List.mem_cons, List.mem_append, List.mem_append, Option.mem_toList,
      Option.mem_toList, Option.mem_toList] at h
    rcases h with rfl | h | h | h
    · simp [floorQuestion, floorAsk, noLookups]
    · cases h
    · cases h
    · rw [inTimeQuestion, Option.map_eq_some_iff] at h
      obtain ⟨s, -, rfl⟩ := h
      rfl
  rintro ⟨h, c, hanswer, -⟩
  cases hnone.symm.trans hanswer

/-- **Lookups.** The nodes change nothing but the claims they confirm, exactly when the lookup of the
settling block answers wherever it is asked. -/
theorem unmoved_iff (V : Calls) (opts : CarrierVerifyOptions) (lk : CarrierLookups)
    (payload : BlockPayload) (inner : Option Bytes) :
    Unmoved V opts lk payload inner ↔ SettlementAnswered V opts lk payload.value inner := by
  cases hout : (offline V opts payload.value inner).out with
  | error e =>
      have hasked : asked V opts lk payload.value inner = [] := by rw [asked, hout]
      refine ⟨fun _ o ask ho => (nomatch hout.symm.trans ho), fun _ => ⟨?_, fun _ => ?_, fun _ => ?_, ?_⟩⟩
      · rw [hasked]
        rintro ⟨q, hq, -⟩
        cases hq
      · rw [verifyCarrierPayload_of_error hout, verifyCarrierPayload_of_error hout]
      · rw [verifyCarrierPayload_of_error hout, verifyCarrierPayload_of_error hout]
      · rw [verifyCarrierPayload_of_error hout, malformed_at_confirmed, hasked]
        rfl
  | ok o =>
      have hends := Logged.ends_of_out hout
      obtain ⟨hbounds, valid, at_, l, htime⟩ := offline_ends hends
      have hshown : ∀ s, o.inTime.sidecar = some s → (blockShown (s.get (js "anchor"))).Ends [] () :=
        fun s hs => laterClaims_shown htime hs
      have hasked : asked V opts lk payload.value inner = questions V lk payload.value o := by
        rw [asked, hout]
      have hids : ∀ lk', ∀ j ∈ judgments (questions V lk' payload.value o), j.id ∈ confirmedIds := by
        intro lk' j hj
        obtain ⟨q, hq, rfl⟩ := List.mem_map.mp hj
        exact mem_questions_claim hq
      constructor
      · intro h o' ask ho hask hpresent
        obtain rfl := Except.ok.inj (hout.symm.trans ho)
        by_contra hn
        have hconfirmed := h.confirmed
        rw [hasked, verifyCarrierPayload_at_confirmed hout] at hconfirmed
        exact confirm_unanswered hbounds hshown hask hpresent hn hconfirmed
      · intro h
        have hlast : (confirm V lk payload.value o).Ends _ () :=
          confirm_ends hbounds hshown fun ask hask hpresent => h o ask hout hask hpresent
        have hnone : (confirm V noLookups payload.value o).Ends _ () :=
          confirm_ends hbounds hshown fun ask hask => nomatch hask
        have hquiet : ∀ j ∈ judgments (questions V noLookups payload.value o), j.result ≠ .false := by
          intro j hj
          obtain ⟨q, hq, rfl⟩ := List.mem_map.mp hj
          exact fun hfalse => noLookups_not_differs hq (Question.result_eq_false.mp hfalse)
        have hrun := verifyCarrierPayload_of_ends hends hlast
        have hrunNone := verifyCarrierPayload_of_ends hends hnone
        have hsame : (∀ q ∈ questions V lk payload.value o, ¬ q.Differs) →
            ∀ j ∈ judgments (questions V lk payload.value o), j.result ≠ .false := by
          intro hno j hj
          obtain ⟨q, hq, rfl⟩ := List.mem_map.mp hj
          exact fun hfalse => hno q hq (Question.result_eq_false.mp hfalse)
        constructor
        · rw [hasked, hrun]
          rintro ⟨q, hq, hdiffers⟩
          exact concluded_false (List.mem_map_of_mem hq) (Question.result_eq_false.mpr hdiffers)
        · rw [hasked, hrun, hrunNone]
          intro hno
          exact (concluded_eq (hids lk) (hsame hno) (hids noLookups) hquiet).1
        · rw [hasked, hrun, hrunNone]
          intro hno
          exact (concluded_eq (hids lk) (hsame hno) (hids noLookups) hquiet).2
        · rw [hasked, verifyCarrierPayload_at_confirmed hout, hlast]
          rfl

end Main

/-! ### A node that is down -/

/-- Every check passes, and the attestation is that of an accepted image. -/
def sampleCalls : Calls where
  H := sha256
  K := keccak256
  table := id
  verifyProofIntegrity := fun _ => .ok true
  computeProofHash := fun _ => .ok []
  decodeEip1559 := fun _ => .error (typeError [])
  decodeEip4844 := fun _ => .error (typeError [])
  innerDigestMatches := fun _ _ => .ok true
  verify := fun _ _ => .ok true
  readFuseAttribution := fun _ => .ok false
  verifyFuse := fun _ _ => .ok true
  verifyTreeMember := fun _ _ _ => .ok ⟨[], false, none⟩
  computeSignedBodyHash := fun _ => .ok []
  verifyNitroAttestation := fun _ _ _ => .ok ⟨[⟨js "AWS signature", true⟩, ⟨js "Certificate chain", true⟩,
    ⟨js "Chains to the root", true⟩, ⟨js "Certificate validity", true⟩, ⟨js "PCR0", true⟩,
    ⟨js "Bound to this proof", true⟩], some ⟨some 1786789349000, some (js "aa")⟩⟩
  witnessMatchesAttestation := fun _ _ => .ok true
  anchorMessageBytes := fun _ => .ok none
  publishedPcr0s := [js "aa"]

def defaultOptions : CarrierVerifyOptions := ⟨none, none, none, none⟩

/-- The header of block 1 of Base, as far as it is read. -/
def sampleHeader : Bytes :=
  [0xf8, 0x53] ++ ((0xa0 :: List.replicate 32 0) ++ ([0x80, 0x80, 0x80] ++ ((0xa0 :: List.replicate 32 0)
    ++ [0x80, 0x80, 0x80, 1, 0x80, 0x80, 0x84, 0x64, 0x8a, 0x5c, 0xe5, 0x80, 0x80, 0x80])))

/-- A record with its floor on that block and a settlement. -/
def sampleValue : Value :=
  .obj [(js "carrier", .str carrierVersion3),
    (js "proof", .obj [
      (js "commit", .obj [(js "slotFloor", .obj [(js "chain", .str (js "base")), (js "evmChainId", countValue 8453),
        (js "blockNumber", countValue 1), (js "blockHash", .str (evmBytesToHex (keccak256 sampleHeader))),
        (js "blockTimestamp", countValue 1686789349)])]),
      (js "environment", .obj [(js "measurement", .str (js "aa")),
        (js "attestation", .obj [(js "format", .str (js "aws-nitro")), (js "reportB64", .str [])])])]),
    (js "floor", .obj [(js "status", .str (js "present")), (js "basis", .str (js "base-header")),
      (js "header", .str (evmBytesToHex sampleHeader))]),
    (js "ceiling", .obj [(js "status", .str (js "none")), (js "basis", .str (js "hash-chain"))]),
    (js "ceilingInTime", .obj [(js "status", .str (js "unfetched"))]),
    (js "settlement", .obj [(js "status", .str (js "present")),
      (js "pointer", .obj [(js "version", .str settlementPointerVersion),
        (js "l1", .obj [(js "chainId", countValue 2), (js "blockNumber", countValue 9),
          (js "blockHash", .str (js "0xbb")), (js "blockTimestamp", countValue 1686789400)])])])]

def samplePayload : BlockPayload where
  value := sampleValue
  json := by decide +kernel
  shape := by decide +kernel
  block := by decide +kernel

/-- The node knows no block. -/
def downLookups : CarrierLookups := ⟨some fun _ _ => .null, none⟩

/-- What the record gives, with no lookup and with a node that is down, computed at once. -/
lemma sample_runs :
    (verifyCarrierPayload sampleCalls defaultOptions noLookups samplePayload none).verdict = .true ∧
      ((verifyCarrierPayload sampleCalls defaultOptions noLookups samplePayload none).bounds.bind
        fun b => b.settledBy).isSome = true ∧
      ((asked sampleCalls defaultOptions downLookups samplePayload.value none).all
        fun q => q.result != .false) = true ∧
      (verifyCarrierPayload sampleCalls defaultOptions downLookups samplePayload none).verdict = .false := by
  simp only [samplePayload, sampleValue, sampleCalls, keccak256_eq_eval]
  decide +kernel

/-- A node that does not answer turns a TRUE verdict FALSE. -/
theorem down_node : ¬ ∀ (V : Calls) (opts : CarrierVerifyOptions) (lk : CarrierLookups)
    (payload : BlockPayload) (inner : Option Bytes), Unmoved V opts lk payload inner := by
  intro h
  obtain ⟨htrue, -, hresult, hfalse⟩ := sample_runs
  have hquiet : ∀ q ∈ asked sampleCalls defaultOptions downLookups samplePayload.value none,
      ¬ q.Differs := by
    intro q hq
    rw [← Question.result_eq_false]
    simpa using List.all_eq_true.mp hresult q hq
  have hverdict := (h sampleCalls defaultOptions downLookups samplePayload none).verdict hquiet
  rw [htrue, hfalse] at hverdict
  cases hverdict

end CarrierVerify

end BitGraph
