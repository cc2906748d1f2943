import BitGraph.Server.Steps

/-!
The closing note of an epoch, `bindEpochEnd`.

* **The fence.** `fenced` is the policy that no section is queued once the closing note's is, and
  that the enclave takes the calls in the order they were sent.
* **After the close.** `Final`: after the closing note's bind no bind was sent, and its section is
  the last.
* **The last record.** `closing_note_last`: under the policy nothing is bound after the closing
  note, and no record has a higher count. A request stopped between two of its digests binds
  after it (`bound_after_close`).
-/

namespace BitGraph.Server

open Js

/-- No section is queued after the closing note's, and the enclave takes the calls in the order
they were sent. -/
def fenced (e : Event) (s : System) : Bool :=
  match e with
  | .enter _ _ | .poll _ | .attempt _ => !s.closing
  | .execute i _ => s.done.all fun x => x.1 < i
  | _ => true

/-- After the closing note's bind no bind was sent, and none will be: its section is the last. -/
structure Final (s : System) (j : ℕ) : Prop where
  closing : s.closing = true
  last : ∀ k c, j < k → s.sent[k]? = some c → c.isBind = false
  sections : s.sections = [] ∨ ∃ d f, s.sections = [.closing d] ∧ s.phase = .bindCall f ∧
    s.inFlight = some j

/-- What holds after every event when the close is fenced. -/
structure Fence (computeChainHash : Proof → Str) (ls : List Label) (s : System) : Prop where
  sane : Sane s
  chained : Chained computeChainHash ls s
  stops : s.closing = true → s.stopping = true
  asked : ∀ d, .closing d ∈ s.sections → s.closing = true
  queued : ∀ d, .closing d ∉ s.sections.dropLast
  sent : ∀ j d, s.sent[j]? = some (.bind .closing d) → Final s j
  labels : ls.Pairwise fun a b => (∃ p, a = .bound .closing p) → ∀ kind p, b ≠ .bound kind p

section Close

variable {cfg : Config} {computeChainHash : Proof → Str} {ls new : List Label} {s s' : System}

/-- A final state stays final while its calls and sections stay. -/
lemma Final.congr {j : ℕ} (h : Final s j) (hsent : s'.sent = s.sent)
    (hclosing : s'.closing = s.closing) (hsec : s'.sections = s.sections)
    (hphase : s'.phase = s.phase) (hin : s'.inFlight = s.inFlight) : Final s' j :=
  ⟨hclosing ▸ h.closing, hsent ▸ h.last, by rw [hsec, hphase, hin]; exact h.sections⟩

/-- A final state has no running section but the closing note's, which awaits its bind. -/
lemma Final.phase {j : ℕ} (h : Final s j) {sec : Section} {rest : List Section}
    (hsec : s.sections = sec :: rest) :
    rest = [] ∧ (∃ f, s.phase = .bindCall f) ∧ s.inFlight = some j := by
  rcases h.sections with hnil | ⟨d, f, hone, hphase, hin⟩
  · rw [hnil] at hsec
    cases hsec
  · rw [hone] at hsec
    cases hsec
    exact ⟨rfl, ⟨f, hphase⟩, hin⟩

namespace Fence

/-- While no closing note is asked for, none was sent. -/
lemma not_sent (h : Fence computeChainHash ls s) (hopen : s.closing = false) (j : ℕ) (d : Str) :
    s.sent[j]? ≠ some (.bind .closing d) := fun hj => by
  have := (h.sent j d hj).closing
  rw [hopen] at this
  cases this

lemma not_queued (h : Fence computeChainHash ls s) (hopen : s.closing = false) (d : Str) :
    .closing d ∉ s.sections := fun hd => by
  have := h.asked d hd
  rw [hopen] at this
  cases this

/-- A call put on the wire: the closing note's bind is final there, and no bind follows one that
was final. -/
lemma sent_transmit (h : Fence computeChainHash ls s) {c : Call} {cs : List Call}
    (hfree : s.inFlight = none) (hc : s.waiting = c :: cs) {j : ℕ} {d : Str}
    (hj : (s.sent ++ [c])[j]? = some (.bind .closing d)) :
    Final { s with sent := s.sent ++ [c], waiting := cs, inFlight := some s.sent.length } j := by
  have hwaits : c ∈ s.waiting := hc ▸ List.mem_cons_self
  rcases Nat.lt_trichotomy j s.sent.length with hlt | rfl | hlt
  · rw [List.getElem?_append_left hlt] at hj
    have hfinal := h.sent j d hj
    have hsec : s.sections = [] := by
      cases hs : s.sections with
      | nil => rfl
      | cons sec rest =>
          have := (hfinal.phase hs).2.2
          rw [hfree] at this
          cases this
    refine ⟨hfinal.closing, fun k c' hk hc' => ?_, .inl hsec⟩
    rcases Nat.lt_trichotomy k s.sent.length with hlen | rfl | hlen
    · rw [List.getElem?_append_left hlen] at hc'
      exact hfinal.last k c' hk hc'
    · obtain rfl : c = c' := by simpa using hc'
      by_contra hb
      obtain ⟨sec, rest, hcons, -⟩ :=
        mem_awaited_cases (h.sane.mem_awaited_of_waiting hwaits (by simpa using hb))
      rw [hsec] at hcons
      cases hcons
    · rw [List.getElem?_eq_none (by simp; omega)] at hc'
      cases hc'
  · obtain rfl : c = .bind .closing d := by simpa using hj
    obtain ⟨sec, rest, hsec, ⟨d', -, hd'⟩ | ⟨f, hphase, hsecd⟩⟩ :=
      mem_awaited_cases (h.sane.mem_awaited_of_waiting hwaits rfl)
    · cases hd'
    · obtain rfl : sec = .closing d := by cases sec <;> cases hsecd; rfl
      have hrest : rest = [] := by
        by_contra hne
        refine h.queued d ?_
        rw [hsec, List.dropLast_cons_of_ne_nil hne]
        exact List.mem_cons_self
      refine ⟨h.asked d (hsec ▸ List.mem_cons_self), fun k c' hk hc' => ?_,
        .inr ⟨d, f, hrest ▸ hsec, hphase, rfl⟩⟩
      rw [List.getElem?_eq_none (by simp; omega)] at hc'
      cases hc'
  · rw [List.getElem?_eq_none (by simp; omega)] at hj
    cases hj

/-- The end of a call leaves a final state final. -/
lemma sent_settled (h : Fence computeChainHash ls s) {i : ℕ} {c : Call} {answer : Option Answer}
    (hin : s.inFlight = some i) (hc : s.sent[i]? = some c) (hs : Settled cfg s c answer new s')
    {j : ℕ} {d : Str} (hj : s.sent[j]? = some (.bind .closing d)) : Final s' j := by
  have hfinal := h.sent j d hj
  cases hs with
  | quiet hb hlife =>
      refine ⟨hfinal.closing, hfinal.last, .inl ?_⟩
      rcases hfinal.sections with hnil | ⟨_, _, -, -, hflight⟩
      · exact hnil
      · obtain rfl : i = j := Option.some.inj (hin.symm.trans hflight)
        rw [Option.some.inj (hc.symm.trans hj)] at hb
        cases hb
  | floorBound hb hsec hphase ha =>
      obtain ⟨-, ⟨f, hf⟩, -⟩ := hfinal.phase hsec
      rw [hphase] at hf
      cases hf
  | @ended sec rest floor result _ _ hb hsec hresult hend =>
      obtain ⟨requests, life, heq, -⟩ :=
        afterSection_eq { s with inFlight := none }.finish sec floor result
      rw [hend] at heq
      obtain rfl : s' = _ := heq
      refine ⟨hfinal.closing, hfinal.last, .inl ?_⟩
      show s.sections.tail = []
      rw [hsec, (hfinal.phase hsec).1]
      rfl

/-- Labels that show no record go anywhere. -/
lemma labels_quiet (h : Fence computeChainHash ls s) (hnew : ∀ kind p, .bound kind p ∉ new) :
    (ls ++ new).Pairwise fun a b => (∃ p, a = .bound .closing p) → ∀ kind p, b ≠ .bound kind p := by
  have hlast (a b : Label) (hb : b ∈ new) (_ : ∃ p, a = .bound .closing p) (kind : Kind)
      (p : Proof) : b ≠ .bound kind p := fun heq => hnew kind p (heq ▸ hb)
  exact List.pairwise_append.mpr ⟨h.labels,
    List.pairwise_of_forall_mem_list fun a _ b hb => hlast a b hb, fun a _ b hb => hlast a b hb⟩

/-- A record is shown before any closing note's. -/
lemma labels_execute (h : Fence computeChainHash ls s) {i : ℕ} {c : Call} {answer : Answer}
    (hc : s.sent[i]? = some c) (horder : ∀ x ∈ s.done, x.1 < i) :
    (ls ++ boundLabels c answer).Pairwise
      fun a b => (∃ p, a = .bound .closing p) → ∀ kind p, b ≠ .bound kind p := by
  refine List.pairwise_append.mpr ⟨h.labels, ?_, ?_⟩
  · rw [boundLabels.eq_def]
    split
    · exact List.pairwise_singleton _ _
    · exact .nil
  · rintro a ha b hb ⟨q, rfl⟩ kind p rfl
    obtain ⟨j, d, hj, hsent⟩ := h.chained.bound .closing q ha
    have hbind : c.isBind = true := by
      cases c with
      | bind _ _ => rfl
      | init => cases hb
      | key => cases hb
    have hquiet := (h.sent j d hsent).last i c (horder _ hj) hc
    rw [hbind] at hquiet
    cases hquiet

/-- The same sections and calls. -/
lemma congr (h : Fence computeChainHash ls s) (hsane : Sane s')
    (hchained : Chained computeChainHash (ls ++ new) s')
    (hstops : s'.closing = true → s'.stopping = true) (hsec : s'.sections = s.sections)
    (hclosing : s'.closing = s.closing)
    (hsent : ∀ j d, s'.sent[j]? = some (.bind .closing d) → Final s' j)
    (hnew : ∀ kind p, .bound kind p ∉ new) : Fence computeChainHash (ls ++ new) s' where
  sane := hsane
  chained := hchained
  stops := hstops
  asked d hd := by rw [hclosing]; exact h.asked d (hsec ▸ hd)
  queued d := by rw [hsec]; exact h.queued d
  sent := hsent
  labels := h.labels_quiet hnew

/-- While no closing note is asked for, any section may be queued. -/
lemma queue (h : Fence computeChainHash ls s) (hsane : Sane s')
    (hchained : Chained computeChainHash (ls ++ []) s') (hopen : s.closing = false)
    {sec : Section} (hsec : s'.sections = s.sections ++ [sec]) (hsent : s'.sent = s.sent)
    (hasked : ∀ d, sec = .closing d → s'.closing = true)
    (hstops : s'.closing = true → s'.stopping = true) :
    Fence computeChainHash (ls ++ []) s' where
  sane := hsane
  chained := hchained
  stops := hstops
  asked d hd := by
    rw [hsec] at hd
    rcases List.mem_append.mp hd with hd | hd
    · exact absurd hd (h.not_queued hopen d)
    · exact hasked d (List.mem_singleton.mp hd).symm
  queued d := by
    rw [hsec, List.dropLast_concat]
    exact h.not_queued hopen d
  sent j d hj := absurd (hsent ▸ hj) (h.not_sent hopen j d)
  labels := h.labels_quiet (by simp)

lemma move {e : Event} (h : Fence computeChainHash ls s)
    (hm : Moves cfg computeChainHash s e new s') (hok : fenced e s = true) :
    Fence computeChainHash (ls ++ new) s' := by
  have hsane := h.sane.move hm
  have hchained := h.chained.move hm
  have hsettled {i : ℕ} {c : Call} {answer : Option Answer} (hin : s.inFlight = some i)
      (hc : s.sent[i]? = some c) (hs : Settled cfg s c answer new s') :
      Fence computeChainHash (ls ++ new) s' := by
    obtain ⟨-, -, hsent, -, -, hclosing, hstopping⟩ := hs.frame
    refine ⟨hsane, hchained, ?_, fun d hd => ?_, fun d hd => ?_, fun j d hj => ?_,
      h.labels_quiet fun kind p hmem => ?_⟩
    · rw [hclosing, hstopping]
      exact h.stops
    · rw [hclosing]
      rcases hs.sections with hsec | hsec <;> rw [hsec] at hd
      · exact h.asked d hd
      · exact h.asked d (List.mem_of_mem_tail hd)
    · rcases hs.sections with hsec | hsec <;> rw [hsec] at hd
      · exact h.queued d hd
      · rw [← List.tail_dropLast] at hd
        exact h.queued d (List.mem_of_mem_tail hd)
    · exact h.sent_settled hin hc hs (hsent ▸ hj)
    · obtain ⟨_, _, _, ⟨_, heq, _⟩ | ⟨_, _, heq, _⟩⟩ := hs.mem hmem <;> cases heq
  cases hm with
  | listens _ =>
      exact h.congr hsane hchained h.stops rfl rfl
        (fun j d hj => (h.sent j d hj).congr rfl rfl rfl rfl rfl) (by simp)
  | asks _ =>
      exact h.congr hsane hchained h.stops rfl rfl
        (fun j d hj => (h.sent j d hj).congr rfl rfl rfl rfl rfl) (by simp)
  | accepts _ =>
      exact h.congr hsane hchained h.stops rfl rfl
        (fun j d hj => (h.sent j d hj).congr rfl rfl rfl rfl rfl) (by simp)
  | givesUp _ =>
      exact h.congr hsane hchained h.stops rfl rfl
        (fun j d hj => (h.sent j d hj).congr rfl rfl rfl rfl rfl) (by simp)
  | stops =>
      exact h.congr hsane hchained (fun _ => rfl) rfl rfl
        (fun j d hj => (h.sent j d hj).congr rfl rfl rfl rfl rfl) (by simp)
  | enters _ => exact h.queue hsane hchained (by simpa [fenced] using hok) rfl rfl nofun h.stops
  | polls _ _ => exact h.queue hsane hchained (by simpa [fenced] using hok) rfl rfl nofun h.stops
  | attempts _ => exact h.queue hsane hchained (by simpa [fenced] using hok) rfl rfl nofun h.stops
  | closes _ hstop =>
      have hopen : s.closing = false := Bool.eq_false_iff.mpr fun hclosing => by
        have := h.stops hclosing
        rw [hstop] at this
        cases this
      exact h.queue hsane hchained hopen rfl rfl (fun _ _ => rfl) fun _ => rfl
  | skips hphase =>
      refine h.congr hsane hchained h.stops rfl rfl (fun j d hj => ?_) (by simp)
      have hfinal := h.sent j d hj
      refine ⟨hfinal.closing, hfinal.last, hfinal.sections.imp_right ?_⟩
      rintro ⟨_, f, -, hf, -⟩
      rw [hphase] at hf
      cases hf
  | readsBlock hsec hphase =>
      refine h.congr hsane hchained h.stops rfl rfl (fun j d hj => ?_) (by simp)
      obtain ⟨sec, rest, hs⟩ := List.exists_cons_of_ne_nil hsec
      obtain ⟨-, ⟨f, hf⟩, -⟩ := (h.sent j d hj).phase hs
      rw [hphase] at hf
      cases hf
  | binds hsec hphase =>
      refine h.congr hsane hchained h.stops rfl rfl (fun j d hj => ?_) (by simp)
      obtain ⟨-, ⟨f, hf⟩, -⟩ := (h.sent j d hj).phase hsec
      rw [hphase] at hf
      cases hf
  | transmits hfree hc =>
      exact h.congr hsane hchained h.stops rfl rfl (fun j d hj => h.sent_transmit hfree hc hj)
        (by simp)
  | @executes i c drawn _ answer enclave hc hnew hrun hls =>
      subst hls
      refine ⟨hsane, hchained, h.stops, h.asked, h.queued,
        fun j d hj => (h.sent j d hj).congr rfl rfl rfl rfl rfl, h.labels_execute hc fun x hx => ?_⟩
      simpa using List.all_eq_true.mp hok x hx
  | settles hin hc _ hend => exact hsettled hin hc (settleCall_settled hend)
  | fails hin hc hend => exact hsettled hin hc (settleCall_settled hend)
  | exits _ =>
      exact ⟨hsane, hchained, h.stops, nofun, nofun,
        fun j d hj => ⟨(h.sent j d hj).closing, (h.sent j d hj).last, .inl rfl⟩,
        h.labels_quiet (by simp)⟩

end Fence

end Close

/-- **The closing note is last.** When no section is queued after the closing note's and the
enclave takes the calls in the order they were sent, nothing is bound after the closing note, and
no record has a higher count. -/
theorem closing_note_last {cfg : Config} {computeChainHash : Proof → Str} {ls : List Label}
    {s : System} {u : Unit} (h : (machine cfg computeChainHash fenced).Reach ls s u)
    {before after : List Label} {note : Proof} (hls : ls = before ++ .bound .closing note :: after) :
    (∀ kind p, .bound kind p ∉ after) ∧ ∀ p ∈ records ls, p.counter ≤ note.counter := by
  have hinv : Fence computeChainHash ls s := by
    refine reach_induction (fun enclave hsound => ?_) (fun hI hok hm => hI.move hm hok) h
    exact ⟨sane_init enclave, chained_init computeChainHash enclave, nofun, nofun, nofun,
      by simp [System.init], .nil⟩
  have hafter (kind : Kind) (p : Proof) : .bound kind p ∉ after := fun hp => by
    have hpair := hinv.labels
    rw [hls] at hpair
    exact (List.pairwise_cons.mp (List.pairwise_append.mp hpair).2.1).1 _ hp ⟨note, rfl⟩ kind p rfl
  have hrec : records ls = records before ++ [note] := by
    calc records ls = records before ++ note :: records after := by rw [hls, records_append]; rfl
      _ = records before ++ [note] := by rw [records_eq_nil hafter]
  refine ⟨hafter, fun p hp => ?_⟩
  have hcounts := counters_increase hinv.chained
  rw [hrec] at hp hcounts
  rcases List.mem_append.mp hp with hp | hp
  · exact ((List.pairwise_append.mp hcounts).2.2 p hp note List.mem_cons_self).le
  · rw [List.mem_singleton.mp hp]

/-- A commit of one digest, and the closing note. -/
def closeRun : List Event :=
  startup ++ [.accept [sampleDigest 1], .enter 0 false] ++ oneBind 2 none ++
    [.stop (some (sampleDigest 9))] ++ oneBind 3 none

/-- The closing note after `fileRecord`. -/
def noteRecord : Proof := sampleRecord (sampleDigest 9) 4 (some fileRecord)

theorem closing_note_last_commit : ∃ ls s,
    (machine ⟨true, true⟩ sampleHash fenced).Reach ls s () ∧
      ls = [.bound .file fileRecord] ++ .bound .closing noteRecord :: [] ∧
      (∀ kind p, .bound kind p ∉ ([] : List Label)) ∧
      ∀ p ∈ records ls, p.counter ≤ noteRecord.counter := by
  have hrun : (runs ⟨true, true⟩ sampleHash fenced closeRun freshEnclave).map Prod.fst
      = some [.bound .file fileRecord, .bound .closing noteRecord] := by decide
  obtain ⟨⟨ls, s, u⟩, hruns, hls⟩ := Option.map_eq_some_iff.mp hrun
  obtain rfl : ls = _ := hls
  have hreach := reach_of_runs freshEnclave_sound hruns
  have hls : [Label.bound .file fileRecord, .bound .closing noteRecord]
      = [.bound .file fileRecord] ++ .bound .closing noteRecord :: [] := rfl
  exact ⟨_, s, hreach, hls, closing_note_last hreach hls⟩

/-- A commit of two digests, stopped between them. -/
def stoppedRun : List Event :=
  startup ++ [.accept [sampleDigest 1, sampleDigest 2], .enter 0 false] ++ oneBind 2 none ++
    [.stop (some (sampleDigest 9)), .enter 0 false] ++ oneBind 3 none ++ oneBind 4 none

theorem bound_after_close : ¬ ∀ (cfg : Config) (computeChainHash : Proof → Str) (ls : List Label)
    (s : System), (machine cfg computeChainHash fun _ _ => true).Reach ls s () →
      ∀ (before after : List Label) (note : Proof), ls = before ++ .bound .closing note :: after →
        ∀ kind p, .bound kind p ∉ after := by
  intro h
  have hrun : (runs ⟨true, true⟩ sampleHash (fun _ _ => true) stoppedRun freshEnclave).map Prod.fst
      = some [.bound .file fileRecord, .bound .closing noteRecord,
        .bound .file (sampleRecord (sampleDigest 2) 6 (some noteRecord))] := by decide
  obtain ⟨⟨ls, s, u⟩, hruns, hls⟩ := Option.map_eq_some_iff.mp hrun
  obtain rfl : ls = _ := hls
  exact h _ _ _ s (reach_of_runs freshEnclave_sound hruns) [.bound .file fileRecord] _ noteRecord rfl
    _ _ List.mem_cons_self

end BitGraph.Server
