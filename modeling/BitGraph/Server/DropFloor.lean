import BitGraph.Server.Steps

/-!
The floor of a drop, `bindDropFloor` and the bind after it.

* **Order.** `inOrder` is the policy that the enclave takes the calls in the order they were sent.
* **The floor in hand.** `FloorAt`: after the floor a section holds, no bind was sent but the one
  in flight.
* **The pair.** `floor_under_file`: under the policy the file's record is the next one after its
  floor's. A call that was given up and is executed late comes between them (`floor_apart`).
-/

namespace BitGraph.Server

open Js

/-- The enclave takes the calls in the order they were sent. -/
def inOrder (e : Event) (s : System) : Bool :=
  match e with
  | .execute i _ => s.done.all fun x => x.1 < i
  | _ => true

/-! ### Logs in order -/

section Log

variable {α β : Type}

/-- In a log in order of places, two entries with nothing to show between them are shown side by
side. -/
lemma infix_of_between {l : List (ℕ × α)} (hl : l.Pairwise fun x y => x.1 < y.1)
    {g : ℕ × α → Option β} {x y : ℕ × α} {b c : β} (hx : x ∈ l) (hy : y ∈ l) (hxy : x.1 < y.1)
    (hb : g x = some b) (hc : g y = some c)
    (hbetween : ∀ z ∈ l, x.1 < z.1 → z.1 < y.1 → g z = none) :
    [b, c] <:+: l.filterMap g := by
  obtain ⟨l₁, l₂, rfl⟩ := List.append_of_mem hx
  obtain ⟨-, hl₂, hcross⟩ := List.pairwise_append.mp hl
  have hy₂ : y ∈ l₂ := by
    rcases List.mem_append.mp hy with hy | hy
    · have := hcross y hy x List.mem_cons_self
      omega
    · rcases List.mem_cons.mp hy with rfl | hy
      · omega
      · exact hy
  obtain ⟨m, l₃, rfl⟩ := List.append_of_mem hy₂
  have hafter := (List.pairwise_cons.mp hl₂).1
  have hm : m.filterMap g = [] := List.filterMap_eq_nil_iff.mpr fun z hz =>
    hbetween z (by simp [hz]) (hafter z (by simp [hz]))
      ((List.pairwise_append.mp (List.pairwise_cons.mp hl₂).2).2.2 z hz y List.mem_cons_self)
  refine ⟨l₁.filterMap g, l₃.filterMap g, ?_⟩
  simp [List.filterMap_append, List.filterMap_cons, hb, hc, hm]

end Log

/-! ### The floor in hand -/

/-- The floor's answer, after which no bind was sent but the one in flight. -/
def FloorAt (s : System) (f : Proof) : Prop :=
  ∃ i, (i, .proof f) ∈ s.done ∧ s.inFlight ≠ some i ∧
    ∀ k c, i < k → s.sent[k]? = some c → c.isBind = true → s.inFlight = some k

/-- The running section holds the floor `f`. -/
def System.holds (s : System) (f : Proof) : Prop :=
  s.phase = .ready (some f) ∨ s.phase = .bindCall (some f)

/-- What holds after every event when the enclave keeps the order. -/
structure Paired (computeChainHash : Proof → Str) (ls : List Label) (s : System) : Prop where
  sane : Sane s
  chained : Chained computeChainHash ls s
  ordered : s.done.Pairwise fun x y => x.1 < y.1
  floor : ∀ f, s.holds f → FloorAt s f
  pairs : ∀ f p, .paired f p ∈ ls → [f, p] <:+: records ls

namespace FloorAt

variable {s s' : System} {f : Proof}

/-- More answers, and the same calls. -/
lemma mono (h : FloorAt s f) (hdone : ∀ x ∈ s.done, x ∈ s'.done) (hsent : s'.sent = s.sent)
    (hin : s'.inFlight = s.inFlight) : FloorAt s' f := by
  obtain ⟨i, hi, hne, hlast⟩ := h
  exact ⟨i, hdone _ hi, hin ▸ hne, by rw [hsent, hin]; exact hlast⟩

lemma transmit (h : FloorAt s f) (hs : Sane s) (hfree : s.inFlight = none) (c : Call)
    (cs : List Call) : FloorAt { s with
      sent := s.sent ++ [c]
      waiting := cs
      inFlight := some s.sent.length } f := by
  obtain ⟨i, hi, -, hlast⟩ := h
  have hlt := hs.done _ hi
  refine ⟨i, hi, fun heq => by have := Option.some.inj heq; omega, fun k c' hk hc hb => ?_⟩
  rcases Nat.lt_trichotomy k s.sent.length with hlen | rfl | hlen
  · -- a bind after the floor would still be in flight
    rw [List.getElem?_append_left hlen] at hc
    have := hlast k c' hk hc hb
    rw [hfree] at this
    cases this
  · rfl
  · rw [List.getElem?_eq_none (by simp; omega)] at hc
    cases hc

end FloorAt

/-- A section starts without a floor. -/
lemma not_holds_start {s : System} {f : Proof} (h : s.phase = startPhase s.sections) :
    ¬ s.holds f := by
  rintro (hf | hf) <;> rcases startPhase_cases s.sections with hp | hp <;>
    rw [h, hp] at hf <;> cases hf

lemma holds_queue {s : System} {sec : Section} {f : Proof} (h : (s.queue sec).holds f) :
    s.holds f := by
  cases hs : s.sections with
  | nil => exact absurd h (not_holds_start (by simp [System.queue, hs]))
  | cons a rest => simpa [System.holds, System.queue, hs] using h

namespace Paired

variable {cfg : Config} {computeChainHash : Proof → Str} {ls new : List Label} {s s' : System}
  {e : Event}

/-- The floor in hand after the end of a call. -/
lemma floor_settled {i : ℕ} {c : Call} {answer : Option Answer} (h : Paired computeChainHash ls s)
    (hin : s.inFlight = some i) (hc : s.sent[i]? = some c)
    (ha : ∀ a, answer = some a → (i, a) ∈ s.done) (hs : Settled cfg s c answer new s') :
    ∀ f, s'.holds f → FloorAt s' f := by
  intro f hf
  cases hs with
  | quiet hb hlife =>
      obtain ⟨j, hj, -, hlast⟩ := h.floor f hf
      refine ⟨j, hj, nofun, fun k c' hk hc' hb' => ?_⟩
      -- the call in flight was no bind
      obtain rfl : i = k := Option.some.inj (hin.symm.trans (hlast k c' hk hc' hb'))
      rw [Option.some.inj (hc.symm.trans hc'), hb'] at hb
      cases hb
  | @floorBound sec rest d a hb hsec hphase heq =>
      have hproof : a = .proof f := by
        rcases hf with hf | hf
        · cases a with
          | proof q => exact congrArg Answer.proof (Option.some.inj (Phase.ready.inj hf))
          | _ => cases Phase.ready.inj hf
        · cases hf
      have hlen := h.sane.last i hin
      refine ⟨i, hproof ▸ ha a heq, nofun, fun k c' hk hc' _ => ?_⟩
      have hk' : k < s.sent.length := (List.getElem?_eq_some_iff.mp hc').1
      omega
  | @ended sec rest floor result _ _ hb hsec hresult hend =>
      obtain ⟨requests, life, heq, -⟩ :=
        afterSection_eq { s with inFlight := none }.finish sec floor result
      rw [hend] at heq
      obtain rfl : s' = _ := heq
      exact absurd hf (not_holds_start rfl)

/-- The pairs shown by the end of a call. -/
lemma pairs_settled {i : ℕ} {c : Call} {answer : Option Answer} (h : Paired computeChainHash ls s)
    (hin : s.inFlight = some i) (hc : s.sent[i]? = some c)
    (ha : ∀ a, answer = some a → (i, a) ∈ s.done) (hs : Settled cfg s c answer new s') {f p : Proof}
    (hmem : .paired f p ∈ new) : [f, p] <:+: records ls := by
  obtain ⟨q, hq, hb, ⟨g, hg, hphase⟩ | ⟨d, rest, hd, -⟩⟩ := hs.mem hmem
  · obtain ⟨rfl, rfl⟩ : f = g ∧ p = q := by cases hg; exact ⟨rfl, rfl⟩
    obtain ⟨j, hj, hne, hlast⟩ := h.floor f (.inr hphase)
    have hlen := h.sane.last i hin
    have hjlt := h.sane.done _ hj
    have hji : j < i := by
      have : j ≠ i := fun heq => hne (heq ▸ hin)
      simp only at hjlt
      omega
    rw [h.chained.log]
    refine infix_of_between h.ordered hj (ha _ hq) hji rfl rfl fun z hz hjz hzi => ?_
    obtain ⟨k, a⟩ := z
    cases a with
    | proof r =>
        -- a record between the two would be of a bind sent between them
        obtain ⟨kind, d, hk⟩ := h.chained.sent _ hz r rfl
        have hk' := Option.some.inj (hin.symm.trans (hlast k _ hjz hk rfl))
        simp only at hzi
        omega
    | _ => rfl
  · cases hd

lemma move (h : Paired computeChainHash ls s) (hm : Moves cfg computeChainHash s e new s')
    (hok : inOrder e s = true) : Paired computeChainHash (ls ++ new) s' := by
  have hsane := h.sane.move hm
  have hchained := h.chained.move hm
  have hgrow : records ls <+: records (ls ++ new) := records_append ls new ▸ List.prefix_append _ _
  have hpairs (hnew : ∀ f p, .paired f p ∈ new → [f, p] <:+: records ls) (f p : Proof)
      (hmem : .paired f p ∈ ls ++ new) : [f, p] <:+: records (ls ++ new) := by
    rcases List.mem_append.mp hmem with hmem | hmem
    · exact (h.pairs f p hmem).trans hgrow.isInfix
    · exact (hnew f p hmem).trans hgrow.isInfix
  have hquiet (hdone : s'.done = s.done) (hfloor : ∀ f, s'.holds f → FloorAt s' f)
      (hnew : ∀ f p, .paired f p ∈ new → [f, p] <:+: records ls) :
      Paired computeChainHash (ls ++ new) s' :=
    ⟨hsane, hchained, hdone ▸ h.ordered, hfloor, hpairs hnew⟩
  cases hm with
  | @executes i c drawn _ answer enclave hc hnew hrun hls =>
      refine ⟨hsane, hchained, ?_, fun f hf => ?_, hpairs fun f p hmem => ?_⟩
      · refine List.pairwise_append.mpr ⟨h.ordered, List.pairwise_singleton _ _, fun x hx y hy => ?_⟩
        obtain rfl := List.mem_singleton.mp hy
        simpa using List.all_eq_true.mp hok x hx
      · exact (h.floor f hf).mono (fun x hx => List.mem_append_left _ hx) rfl rfl
      · obtain ⟨_, _, hbound⟩ := eq_bound_of_mem (hls ▸ hmem)
        cases hbound
  | @settles i c a _ _ hin hc ha hend =>
      have hs := settleCall_settled hend
      have hans (b : Answer) (heq : some a = some b) : (i, b) ∈ s.done := Option.some.inj heq ▸ ha
      exact hquiet hs.frame.2.1 (h.floor_settled hin hc hans hs) fun f p =>
        h.pairs_settled hin hc hans hs
  | @fails i c _ _ hin hc hend =>
      have hs := settleCall_settled hend
      have hans (b : Answer) (heq : none = some b) : (i, b) ∈ s.done := by cases heq
      exact hquiet hs.frame.2.1 (h.floor_settled hin hc hans hs) fun f p =>
        h.pairs_settled hin hc hans hs
  | listens _ => exact hquiet rfl (fun f hf => (h.floor f hf).mono (fun _ => id) rfl rfl) (by simp)
  | asks _ => exact hquiet rfl (fun f hf => (h.floor f hf).mono (fun _ => id) rfl rfl) (by simp)
  | accepts _ => exact hquiet rfl (fun f hf => (h.floor f hf).mono (fun _ => id) rfl rfl) (by simp)
  | givesUp _ => exact hquiet rfl (fun f hf => (h.floor f hf).mono (fun _ => id) rfl rfl) (by simp)
  | stops => exact hquiet rfl (fun f hf => (h.floor f hf).mono (fun _ => id) rfl rfl) (by simp)
  | enters _ =>
      exact hquiet rfl (fun f hf => (h.floor f (holds_queue hf)).mono (fun _ => id) rfl rfl) (by simp)
  | polls _ _ =>
      exact hquiet rfl (fun f hf => (h.floor f (holds_queue hf)).mono (fun _ => id) rfl rfl) (by simp)
  | attempts _ =>
      exact hquiet rfl (fun f hf => (h.floor f (holds_queue hf)).mono (fun _ => id) rfl rfl) (by simp)
  | closes _ _ =>
      exact hquiet rfl (fun f hf => (h.floor f (holds_queue hf)).mono (fun _ => id) rfl rfl) (by simp)
  | skips _ => exact hquiet rfl (by rintro f (hf | hf) <;> cases hf) (by simp)
  | readsBlock _ _ => exact hquiet rfl (by rintro f (hf | hf) <;> cases hf) (by simp)
  | @binds block sec rest floor hsec hphase =>
      refine hquiet rfl (fun f hf => ?_) (by simp)
      obtain rfl : floor = some f := by rcases hf with hf | hf <;> cases hf; rfl
      exact (h.floor f (.inl hphase)).mono (fun _ => id) rfl rfl
  | @transmits c cs hfree _ =>
      exact hquiet rfl (fun f hf => (h.floor f hf).transmit h.sane hfree c cs) (by simp)
  | exits _ => exact hquiet rfl (by rintro f (hf | hf) <;> cases hf) (by simp)

end Paired

/-- **The floor stands under the file.** When the enclave takes the calls in the order they were
sent, a request that got its floor and its file has the file's record on the next two counts
after the floor's and under its hash, with nothing bound between them. -/
theorem floor_under_file {cfg : Config} {computeChainHash : Proof → Str} {ls : List Label}
    {s : System} {p : Unit} (h : (machine cfg computeChainHash inOrder).Reach ls s p)
    {floor file : Proof} (hpair : .paired floor file ∈ ls) :
    [floor, file] <:+: records ls ∧ file.prevB64 = some (computeChainHash floor) ∧
      file.slotCounter = floor.counter + 1 ∧ file.counter = floor.counter + 2 := by
  have hinv : Paired computeChainHash ls s := by
    refine reach_induction (fun enclave hsound => ?_) (fun hI hok hm => hI.move hm hok) h
    exact ⟨sane_init enclave, chained_init computeChainHash enclave, .nil,
      (by rintro f (hf | hf) <;> cases hf), by simp⟩
  have hside := hinv.pairs floor file hpair
  have hnext : Next computeChainHash floor file := by
    simpa using hinv.chained.linked.infix hside
  exact ⟨hside, hnext.prevB64, hnext.slotCounter, hnext.counter⟩

/-- A commit with its floor. -/
def commitRun : List Event :=
  startup ++ [.accept [sampleDigest 1], .enter 0 true] ++ oneBind 2 (some (sampleDigest 2)) ++
    oneBind 3 none

/-- The record of the commit's floor, and the file's at count `n`, after the record `prev`. -/
def sampleFloor : Proof := ⟨sampleDigest 2, js "nonce", 1, 2, none, js "seal"⟩

def sampleFile (n : ℕ) (prev : Proof) : Proof :=
  ⟨sampleDigest 1, js "nonce", n - 1, n, some (sampleHash prev), js "seal"⟩

theorem floor_under_file_commit : ∃ ls s,
    (machine ⟨true, true⟩ sampleHash inOrder).Reach ls s () ∧
      .paired sampleFloor (sampleFile 4 sampleFloor) ∈ ls ∧
      [sampleFloor, sampleFile 4 sampleFloor] <:+: records ls ∧
      (sampleFile 4 sampleFloor).prevB64 = some (sampleHash sampleFloor) ∧
      (sampleFile 4 sampleFloor).slotCounter = sampleFloor.counter + 1 ∧
      (sampleFile 4 sampleFloor).counter = sampleFloor.counter + 2 := by
  have hrun : (runs ⟨true, true⟩ sampleHash inOrder commitRun freshEnclave).map Prod.fst
      = some [.bound .dropFloor sampleFloor, .bound .file (sampleFile 4 sampleFloor),
        .paired sampleFloor (sampleFile 4 sampleFloor)] := by decide
  obtain ⟨⟨ls, s, u⟩, hruns, hls⟩ := Option.map_eq_some_iff.mp hrun
  obtain rfl : ls = _ := hls
  have hreach := reach_of_runs freshEnclave_sound hruns
  exact ⟨_, s, hreach, by simp, floor_under_file hreach (by simp)⟩

/-- A bind of a poller is given up and executed between the floor and the file. -/
def lateRun : List Event :=
  startup ++ [.poll (sampleDigest 3), .run none, .transmit, .fail, .accept [sampleDigest 1],
    .enter 0 true] ++ oneBind 3 (some (sampleDigest 2)) ++ [.execute 2 (some sampleDrawn)] ++
    oneBind 4 none

/-- The record of the poller's bind. -/
def lateRecord : Proof := ⟨sampleDigest 3, js "nonce", 3, 4, some (sampleHash sampleFloor), js "seal"⟩

theorem floor_apart : ¬ ∀ (cfg : Config) (computeChainHash : Proof → Str) (ls : List Label)
    (s : System), (machine cfg computeChainHash fun _ _ => true).Reach ls s () →
      ∀ floor file : Proof, .paired floor file ∈ ls →
        file.prevB64 = some (computeChainHash floor) ∧ file.slotCounter = floor.counter + 1 ∧
          file.counter = floor.counter + 2 := by
  intro h
  have hrun : (runs ⟨true, true⟩ sampleHash (fun _ _ => true) lateRun freshEnclave).map Prod.fst
      = some [.bound .dropFloor sampleFloor, .bound .timeline lateRecord,
        .bound .file (sampleFile 6 lateRecord), .paired sampleFloor (sampleFile 6 lateRecord)] := by
    decide
  obtain ⟨⟨ls, s, u⟩, hruns, hls⟩ := Option.map_eq_some_iff.mp hrun
  obtain rfl : ls = _ := hls
  have hreach := reach_of_runs freshEnclave_sound hruns
  have hcount := (h _ _ _ s hreach sampleFloor (sampleFile 6 lateRecord) (by simp)).2.2
  exact absurd hcount (by decide)

end BitGraph.Server
