import BitGraph.Server.Parent

/-!
What one event of the parent and the enclave does.

* **Moves.** `Moves` says it once, with the guards (`step_moves`), and `Settled` says what the end
  of a call does.
* **Calls.** `Sane`: the only bind that is waiting or in flight is the one the running section
  awaits, and the call in flight is the last one sent.
* **The chain.** `Chained`: the records that were shown are those of the answers, each on the next
  two counts after the one before it and under its hash, and the enclave stands at the last.
-/

namespace BitGraph.Server

open Js

/-! ### What one event does -/

/-- What one event does, with its guards. -/
inductive Moves (cfg : Config) (computeChainHash : Proof → Str) (s : System) :
    Event → List Label → System → Prop
  | listens (h : s.life = .off) :
      Moves cfg computeChainHash s .listen []
        { s with life := .initializing, waiting := s.waiting ++ [.key, .init] }
  | asks (h : s.life ≠ .exited) : Moves cfg computeChainHash s .key []
      { s with waiting := s.waiting ++ [.key] }
  | accepts {digests : List Str} (h : s.life ≠ .starting ∧ s.life ≠ .attempting) :
      Moves cfg computeChainHash s (.accept digests) []
        { s with requests := s.requests ++ [⟨digests, false⟩] }
  | enters {r : ℕ} {floor : Bool} {d : Str} {ds : List Str}
      (h : s.requests[r]? = some ⟨d :: ds, false⟩) :
      Moves cfg computeChainHash s (.enter r floor) []
        { s.queue (.commit r d floor) with requests := s.requests.set r ⟨ds, true⟩ }
  | polls {d : Str} (htimeline : cfg.timeline = true) (h : s.life = .serving) :
      Moves cfg computeChainHash s (.poll d) [] (s.queue (.timeline d))
  | attempts {d : Str} (h : s.life = .starting) :
      Moves cfg computeChainHash s (.attempt d) [] { s.queue (.opening d) with life := .attempting }
  | givesUp (h : s.life = .starting) :
      Moves cfg computeChainHash s .giveUp [] { s with life := .serving }
  | stops {note : Option Str} : Moves cfg computeChainHash s (.stop note) []
      { s with stopping := true }
  | closes {d : Str} (h : s.life.opened = true) (hstop : s.stopping = false) :
      Moves cfg computeChainHash s (.stop (some d)) []
        { s.queue (.closing d) with stopping := true, closing := true }
  | skips {block : Option Str} (hphase : s.phase = .reading) :
      Moves cfg computeChainHash s (.run block) [] { s with phase := .ready none }
  | readsBlock {d : Str} (hsec : s.sections ≠ []) (hphase : s.phase = .reading) :
      Moves cfg computeChainHash s (.run (some d)) []
        (s.call (.bind .dropFloor d) (.floorCall d))
  | binds {block : Option Str} {sec : Section} {rest : List Section} {floor : Option Proof}
      (hsec : s.sections = sec :: rest) (hphase : s.phase = .ready floor) :
      Moves cfg computeChainHash s (.run block) [] (s.call sec.call (.bindCall floor))
  | transmits {c : Call} {cs : List Call} (hfree : s.inFlight = none) (hc : s.waiting = c :: cs) :
      Moves cfg computeChainHash s .transmit []
        { s with sent := s.sent ++ [c], waiting := cs, inFlight := some s.sent.length }
  | executes {i : ℕ} {c : Call} {drawn : Option Drawn} {ls : List Label} {answer : Answer}
      {enclave : Enclave} (hc : s.sent[i]? = some c) (hnew : ∀ x ∈ s.done, x.1 ≠ i)
      (hrun : handleRequest computeChainHash s.enclave drawn c = (answer, enclave))
      (hls : ls = boundLabels c answer) :
      Moves cfg computeChainHash s (.execute i drawn) ls
        { s with enclave := enclave, done := s.done ++ [(i, answer)] }
  | settles {i : ℕ} {c : Call} {a : Answer} {ls : List Label} {s' : System}
      (hin : s.inFlight = some i) (hc : s.sent[i]? = some c) (ha : (i, a) ∈ s.done)
      (hend : settleCall cfg s c (some a) = some (ls, s')) :
      Moves cfg computeChainHash s .settle ls s'
  | fails {i : ℕ} {c : Call} {ls : List Label} {s' : System}
      (hin : s.inFlight = some i) (hc : s.sent[i]? = some c)
      (hend : settleCall cfg s c none = some (ls, s')) :
      Moves cfg computeChainHash s .fail ls s'
  | exits (h : s.stopping = true) : Moves cfg computeChainHash s .exit []
      { s with
        waiting := []
        inFlight := none
        sections := []
        phase := .ready none
        requests := []
        life := .exited }

lemma mem_of_lookup {α β : Type} [BEq α] [LawfulBEq α] {l : List (α × β)} {a : α} {b : β}
    (h : l.lookup a = some b) : (a, b) ∈ l := by
  induction l with
  | nil => exact nomatch h
  | cons x l ih =>
      rw [List.lookup_cons] at h
      split at h
      · next heq =>
        obtain rfl := eq_of_beq heq
        obtain rfl := Option.some.inj h
        exact List.mem_cons_self
      · exact List.mem_cons_of_mem _ (ih h)

/-- One event is one move. -/
lemma step_moves {cfg : Config} {computeChainHash : Proof → Str} {e : Event} {s s' : System}
    {ls : List Label} (h : step cfg computeChainHash e s = some (ls, s')) :
    Moves cfg computeChainHash s e ls s' := by
  cases e with
  | listen =>
      rw [step] at h
      split at h <;> cases h
      exact .listens ‹_›
  | key =>
      rw [step] at h
      split at h <;> cases h
      next hlife => exact .asks hlife.2
  | accept digests =>
      rw [step] at h
      split at h <;> cases h
      next hlife => exact .accepts (by rcases hlife with hl | hl | hl <;> simp [hl])
  | enter r floor =>
      rw [step] at h
      split at h <;> cases h
      exact .enters ‹_›
  | poll d =>
      rw [step] at h
      split at h <;> cases h
      next hg =>
        rw [Bool.and_eq_true, decide_eq_true_eq] at hg
        exact .polls hg.1 hg.2
  | attempt d =>
      rw [step] at h
      split at h <;> cases h
      exact .attempts ‹_›
  | giveUp =>
      rw [step] at h
      split at h <;> cases h
      exact .givesUp ‹_›
  | stop note =>
      rw [step.eq_def] at h
      dsimp only at h
      split at h
      · cases h
      · next hstop =>
        split at h
        · split at h <;> cases h
          · exact .closes ‹_› (by simp only [Bool.or_eq_true, not_or] at hstop; simpa using hstop.1.1)
          · exact .stops
        · cases h
          exact .stops
  | run block =>
      rw [step.eq_def] at h
      dsimp only at h
      split at h
      · next hsec hphase =>
        split at h
        · split at h <;> cases h
          · exact .readsBlock (by rw [hsec]; exact List.cons_ne_nil _ _) hphase
          · exact .skips hphase
        · cases h
          exact .skips hphase
      · next hsec hphase =>
        cases h
        exact .binds hsec hphase
      · cases h
  | transmit =>
      rw [step] at h
      split at h <;> cases h
      exact .transmits ‹_› ‹_›
  | execute i drawn =>
      rw [step] at h
      split at h
      · cases h
      · next hc =>
        split at h
        · cases h
        · next hnew =>
          cases h
          exact .executes hc (fun x hx heq => hnew (List.any_eq_true.mpr ⟨x, hx, by simpa using heq⟩))
            rfl rfl
  | settle =>
      rw [step] at h
      split at h
      · cases h
      · next hin =>
        split at h
        · next hc ha => exact .settles hin hc (mem_of_lookup ha) h
        · cases h
  | fail =>
      rw [step] at h
      split at h
      · cases h
      · next hin =>
        split at h
        · next hc => exact .fails hin hc h
        · cases h
  | exit =>
      rw [step] at h
      split at h <;> cases h
      exact .exits ‹_›

/-- What the end of the call in flight does. -/
inductive Settled (cfg : Config) (s : System) (c : Call) (answer : Option Answer) :
    List Label → System → Prop
  | quiet {life : Life} (hc : c.isBind = false)
      (hlife : life = s.life ∨
        s.life = .initializing ∧ life = afterInit cfg (initCounter answer)) :
      Settled cfg s c answer [] { s with inFlight := none, life := life }
  | floorBound {sec : Section} {rest : List Section} {d : Str} {a : Answer}
      (hc : c.isBind = true) (hsec : s.sections = sec :: rest) (hphase : s.phase = .floorCall d)
      (ha : answer = some a) :
      Settled cfg s c answer [] { s with inFlight := none, phase := .ready a.proof? }
  | ended {sec : Section} {rest : List Section} {floor result : Option Proof} {ls : List Label}
      {s' : System} (hc : c.isBind = true) (hsec : s.sections = sec :: rest)
      (hresult : answer = none ∧ result = none ∨
        s.phase = .bindCall floor ∧ result = answer.bind Answer.proof?)
      (hend : afterSection { s with inFlight := none }.finish sec floor result = (ls, s')) :
      Settled cfg s c answer ls s'

lemma settleCall_settled {cfg : Config} {s s' : System} {c : Call} {answer : Option Answer}
    {ls : List Label} (h : settleCall cfg s c answer = some (ls, s')) :
    Settled cfg s c answer ls s' := by
  cases c with
  | key =>
      cases h
      exact .quiet rfl (.inl rfl)
  | init =>
      rw [settleCall] at h
      dsimp only at h
      split at h
      · next hlife =>
        cases h
        exact .quiet rfl (.inr ⟨hlife, rfl⟩)
      · cases h
        exact .quiet rfl (.inl rfl)
  | bind kind d =>
      rw [settleCall, settleBind.eq_def] at h
      split at h
      · next sec rest d' hsec hphase =>
        cases answer with
        | some a =>
            cases h
            exact .floorBound rfl hsec hphase rfl
        | none => exact .ended rfl hsec (.inl ⟨rfl, rfl⟩) (Option.some.inj h)
      · next sec rest floor hsec hphase =>
        refine .ended rfl hsec (.inr ⟨hphase, ?_⟩) (Option.some.inj h)
        cases answer <;> rfl
      · cases h

lemma afterSection_eq (s : System) (sec : Section) (floor result : Option Proof) :
    ∃ requests life, (afterSection s sec floor result).2
        = { s with requests := requests, life := life } ∧
      (life = s.life ∨ ∃ d, sec = .opening d) := by
  cases sec with
  | commit r d b => exact ⟨_, _, rfl, .inl rfl⟩
  | timeline d => exact ⟨_, _, rfl, .inl rfl⟩
  | opening d => cases result <;> exact ⟨_, _, rfl, .inr ⟨d, rfl⟩⟩
  | closing d => exact ⟨_, _, rfl, .inl rfl⟩

/-! ### Calls and sections -/

/-- The calls that are in flight or waiting. -/
def System.pending (s : System) : List Call :=
  (s.inFlight.bind fun i => s.sent[i]?).toList ++ s.waiting

/-- The bind that the running section awaits. -/
def System.awaited (s : System) : List Call :=
  match s.sections, s.phase with
  | _ :: _, .floorCall d => [.bind .dropFloor d]
  | sec :: _, .bindCall _ => [sec.call]
  | _, _ => []

/-- The pending binds are what the running section awaits; the call in flight was sent last; a
call is executed once. -/
structure Sane (s : System) : Prop where
  binds : s.pending.filter Call.isBind = s.awaited
  last : ∀ i, s.inFlight = some i → i + 1 = s.sent.length
  done : ∀ x ∈ s.done, x.1 < s.sent.length
  once : s.done.Pairwise fun x y => x.1 ≠ y.1

lemma Section.isBind_call (sec : Section) : sec.call.isBind = true := by cases sec <;> rfl

lemma awaited_of_phase {s : System} (h : s.phase = .reading ∨ ∃ f, s.phase = .ready f) :
    s.awaited = [] := by
  rcases h with h | ⟨f, h⟩ <;> cases hs : s.sections <;> simp [System.awaited, h, hs]

lemma startPhase_cases (secs : List Section) :
    startPhase secs = .reading ∨ startPhase secs = .ready none := by
  rw [startPhase.eq_def]
  split
  · exact .inl rfl
  · exact .inr rfl

lemma awaited_of_start {s : System} (h : s.phase = startPhase s.sections) : s.awaited = [] :=
  awaited_of_phase (h ▸ (startPhase_cases s.sections).imp_right fun h => ⟨none, h⟩)

lemma awaited_queue (s : System) (sec : Section) : (s.queue sec).awaited = s.awaited := by
  cases hs : s.sections with
  | nil =>
      have hnil : s.awaited = [] := by simp [System.awaited, hs]
      rw [hnil]
      exact awaited_of_start (by simp [System.queue, hs])
  | cons a rest => cases hp : s.phase <;> simp [System.queue, System.awaited, hs, hp]

lemma pending_ask (s : System) (cs : List Call) (life : Life) :
    { s with life := life, waiting := s.waiting ++ cs }.pending = s.pending ++ cs :=
  (List.append_assoc _ _ _).symm

lemma pending_call (s : System) (c : Call) (phase : Phase) :
    (s.call c phase).pending = s.pending ++ [c] := (List.append_assoc _ _ _).symm

namespace Sane

variable {s s' : System}

/-- Calls that bind nothing change nothing here. -/
lemma ask (h : Sane s) {cs : List Call} (hcs : ∀ c ∈ cs, c.isBind = false) (life : Life) :
    Sane { s with life := life, waiting := s.waiting ++ cs } where
  binds := by
    have hnil : cs.filter Call.isBind = [] := List.filter_eq_nil_iff.mpr fun c hc => by
      simp [hcs c hc]
    calc _ = (s.pending ++ cs).filter Call.isBind := by rw [pending_ask]
      _ = s.pending.filter Call.isBind := by rw [List.filter_append, hnil, List.append_nil]
      _ = s.awaited := h.binds
  last := h.last
  done := h.done
  once := h.once

/-- The calls, the sections and the log say all. -/
lemma congr (h : Sane s) (hsent : s'.sent = s.sent) (hdone : s'.done = s.done)
    (hwaiting : s'.waiting = s.waiting) (hin : s'.inFlight = s.inFlight)
    (hawaited : s'.awaited = s.awaited) : Sane s' where
  binds := by rw [System.pending, hin, hsent, hwaiting, hawaited, ← h.binds, System.pending]
  last := by rw [hin, hsent]; exact h.last
  done := by rw [hdone, hsent]; exact h.done
  once := by rw [hdone]; exact h.once

lemma queue (h : Sane s) (sec : Section) : Sane (s.queue sec) :=
  h.congr rfl rfl rfl rfl (awaited_queue s sec)

/-- A section that awaits nothing makes its call. -/
lemma call (h : Sane s) (hnil : s.awaited = []) {c : Call} (hc : c.isBind = true) {phase : Phase}
    (hphase : (s.call c phase).awaited = [c]) : Sane (s.call c phase) where
  binds := by
    calc _ = (s.pending ++ [c]).filter Call.isBind := by rw [pending_call]
      _ = s.awaited ++ [c] := by rw [List.filter_append, h.binds]; simp [hc]
      _ = (s.call c phase).awaited := by rw [hnil, hphase]; rfl
  last := h.last
  done := h.done
  once := h.once

/-- The call in flight is over; a bind leaves nothing awaited. -/
lemma free (h : Sane s) {i : ℕ} {c : Call} (hin : s.inFlight = some i)
    (hc : s.sent[i]? = some c) :
    s.waiting.filter Call.isBind = if c.isBind then [] else s.awaited := by
  have hpending : s.pending = c :: s.waiting := by rw [System.pending, hin]; simp [hc]
  have hbinds := h.binds
  rw [hpending, List.filter_cons] at hbinds
  split
  · next hb =>
    rw [if_pos hb] at hbinds
    have hlen : s.awaited.length ≤ 1 := by
      rw [System.awaited]
      split <;> simp
    rw [← hbinds, List.length_cons] at hlen
    exact List.length_eq_zero_iff.mp (by omega)
  · next hb =>
    rw [if_neg hb] at hbinds
    exact hbinds

lemma settled {cfg : Config} {i : ℕ} {c : Call} {answer : Option Answer} {ls : List Label}
    (h : Sane s) (hin : s.inFlight = some i) (hc : s.sent[i]? = some c)
    (hs : Settled cfg s c answer ls s') : Sane s' := by
  have hfree := h.free hin hc
  cases hs with
  | quiet hb hlife =>
      rw [hb] at hfree
      exact ⟨hfree, nofun, h.done, h.once⟩
  | floorBound hb hsec hphase ha =>
      rw [hb] at hfree
      exact ⟨hfree.trans (awaited_of_phase (.inr ⟨_, rfl⟩)).symm, nofun, h.done, h.once⟩
  | @ended sec rest floor result ls s' hb hsec hresult hend =>
      rw [hb] at hfree
      obtain ⟨requests, life, heq, -⟩ :=
        afterSection_eq { s with inFlight := none }.finish sec floor result
      rw [hend] at heq
      obtain rfl : s' = _ := heq
      exact ⟨hfree.trans (awaited_of_start rfl).symm, nofun, h.done, h.once⟩

lemma move {cfg : Config} {computeChainHash : Proof → Str} {e : Event} {ls : List Label}
    (h : Sane s) (hm : Moves cfg computeChainHash s e ls s') : Sane s' := by
  cases hm with
  | listens _ => exact h.ask (by simp [Call.isBind]) _
  | asks _ => exact h.ask (by simp [Call.isBind]) _
  | accepts _ => exact h.congr rfl rfl rfl rfl rfl
  | enters _ => exact (h.queue _).congr rfl rfl rfl rfl rfl
  | polls _ _ => exact h.queue _
  | attempts _ => exact (h.queue _).congr rfl rfl rfl rfl rfl
  | givesUp _ => exact h.congr rfl rfl rfl rfl rfl
  | stops => exact h.congr rfl rfl rfl rfl rfl
  | closes _ _ => exact (h.queue _).congr rfl rfl rfl rfl rfl
  | skips hphase =>
      refine h.congr rfl rfl rfl rfl ?_
      rw [awaited_of_phase (.inl hphase), awaited_of_phase (.inr ⟨none, rfl⟩)]
  | @readsBlock d hsec hphase =>
      obtain ⟨sec, rest, hs⟩ := List.exists_cons_of_ne_nil hsec
      exact h.call (awaited_of_phase (.inl hphase)) rfl (by simp [System.awaited, System.call, hs])
  | @binds _ sec rest floor hsec hphase =>
      exact h.call (awaited_of_phase (.inr ⟨floor, hphase⟩)) sec.isBind_call
        (by simp [System.awaited, System.call, hsec])
  | @transmits c cs hfree hc =>
      refine ⟨?_, fun i hi => ?_, fun x hx => ?_, h.once⟩
      · have hbinds := h.binds
        rw [System.pending, hfree, hc] at hbinds
        calc _ = (c :: cs).filter Call.isBind := by simp [System.pending]
          _ = s.awaited := hbinds
      · obtain rfl := Option.some.inj hi
        simp
      · have := h.done x hx
        rw [List.length_append]
        omega
  | @executes i c _ _ answer _ hc hnew _ _ =>
      refine ⟨h.binds, h.last, fun x hx => ?_, ?_⟩
      · rcases List.mem_append.mp hx with hx | hx
        · exact h.done x hx
        · obtain rfl := List.mem_singleton.mp hx
          exact (List.getElem?_eq_some_iff.mp hc).1
      · refine List.pairwise_append.mpr ⟨h.once, List.pairwise_singleton _ _, fun x hx y hy => ?_⟩
        obtain rfl := List.mem_singleton.mp hy
        exact hnew x hx
  | settles hin hc _ hend => exact h.settled hin hc (settleCall_settled hend)
  | fails hin hc hend => exact h.settled hin hc (settleCall_settled hend)
  | exits _ => exact ⟨rfl, nofun, h.done, h.once⟩

/-- A call has one answer. -/
lemma eq_of_mem (h : Sane s) {i : ℕ} {a b : Answer} (ha : (i, a) ∈ s.done) (hb : (i, b) ∈ s.done) :
    a = b := by
  have hnodup : (s.done.map Prod.fst).Nodup := List.pairwise_map.mpr h.once
  exact congrArg Prod.snd (List.inj_on_of_nodup_map hnodup ha hb rfl)

/-- A pending bind is awaited. -/
lemma mem_awaited (h : Sane s) {c : Call} (hc : c ∈ s.pending) (hb : c.isBind = true) :
    c ∈ s.awaited := h.binds ▸ List.mem_filter.mpr ⟨hc, hb⟩

lemma mem_awaited_of_inFlight (h : Sane s) {i : ℕ} {c : Call} (hin : s.inFlight = some i)
    (hc : s.sent[i]? = some c) (hb : c.isBind = true) : c ∈ s.awaited :=
  h.mem_awaited (by simp [System.pending, hin, hc]) hb

lemma mem_awaited_of_waiting (h : Sane s) {c : Call} (hc : c ∈ s.waiting) (hb : c.isBind = true) :
    c ∈ s.awaited := h.mem_awaited (by simp [System.pending, hc]) hb

end Sane

/-- A bind is awaited by a section: its drop floor's or its own. -/
lemma mem_awaited_cases {s : System} {c : Call} (h : c ∈ s.awaited) :
    ∃ sec rest, s.sections = sec :: rest ∧
      ((∃ d, s.phase = .floorCall d ∧ c = .bind .dropFloor d) ∨
        ∃ f, s.phase = .bindCall f ∧ c = sec.call) := by
  rw [System.awaited] at h
  split at h
  · next sec rest d hsec hphase =>
    exact ⟨sec, rest, hsec, .inl ⟨d, hphase, List.mem_singleton.mp h⟩⟩
  · next sec rest f hsec hphase =>
    exact ⟨sec, rest, hsec, .inr ⟨f, hphase, List.mem_singleton.mp h⟩⟩
  · cases h

/-! ### The chain of records -/

/-- The record a label shows the enclave make. -/
def Label.proof? : Label → Option Proof
  | .bound _ p => some p
  | _ => none

/-- The records the enclave made, in order. -/
def records (ls : List Label) : List Proof := ls.filterMap Label.proof?

/-- `q` is on the next two counts after `p`, under the hash of `p`. -/
structure Next (computeChainHash : Proof → Str) (p q : Proof) : Prop where
  prevB64 : q.prevB64 = some (computeChainHash p)
  slotCounter : q.slotCounter = p.counter + 1
  counter : q.counter = p.counter + 2

/-- An execution makes a record at the enclave's next counts, or makes none. -/
lemma handleRequest_cases {computeChainHash : Proof → Str} {e enclave : Enclave}
    {drawn : Option Drawn} {c : Call} {answer : Answer}
    (h : handleRequest computeChainHash e drawn c = (answer, enclave)) :
    (∃ kind d dr, c = .bind kind d ∧ answer = .proof (e.record d dr) ∧
        enclave = { e with
          counter := e.counter + 2
          lastProofHashB64 := some (computeChainHash (e.record d dr)) }) ∨
      answer.proof? = none ∧ enclave.counter = e.counter ∧
        enclave.lastProofHashB64 = e.lastProofHashB64 := by
  cases c with
  | init =>
      cases h
      exact .inr ⟨rfl, rfl, rfl⟩
  | key =>
      cases h
      exact .inr ⟨rfl, rfl, rfl⟩
  | bind kind d =>
      rw [handleRequest.eq_def] at h
      dsimp only at h
      split at h
      · next dr =>
        split at h
        · cases h
          exact .inl ⟨kind, d, dr, rfl, rfl, rfl⟩
        · cases h
          exact .inr ⟨rfl, rfl, rfl⟩
      · cases h
        exact .inr ⟨rfl, rfl, rfl⟩

/-- `init` reports the enclave's count. -/
lemma init_counter {computeChainHash : Proof → Str} {e enclave : Enclave} {drawn : Option Drawn}
    {c : Call} {n : ℕ} (h : handleRequest computeChainHash e drawn c = (.init n, enclave)) :
    n = e.counter := by
  cases c with
  | init => cases h; rfl
  | key => cases h
  | bind kind d =>
      rcases handleRequest_cases h with ⟨_, _, _, _, heq, _⟩ | _
      · cases heq
      · rw [handleRequest.eq_def] at h
        dsimp only at h
        split at h
        · split at h <;> cases h
        · cases h

lemma boundLabels_of_none {c : Call} {answer : Answer} (h : answer.proof? = none) :
    boundLabels c answer = [] := by
  cases c with
  | bind kind d =>
      cases answer with
      | proof p => cases h
      | _ => rfl
  | _ => rfl

/-- An execution shows nothing but a record. -/
lemma eq_bound_of_mem {c : Call} {answer : Answer} {l : Label} (h : l ∈ boundLabels c answer) :
    ∃ kind p, l = .bound kind p := by
  rw [boundLabels.eq_def] at h
  split at h
  · exact ⟨_, _, List.mem_singleton.mp h⟩
  · cases h

lemma mem_afterSection {s : System} {sec : Section} {floor result : Option Proof} {l : Label}
    (h : l ∈ (afterSection s sec floor result).1) :
    (∃ f p, l = .paired f p ∧ floor = some f ∧ result = some p) ∨
      ∃ p d, l = .opened p ∧ sec = .opening d ∧ result = some p := by
  cases sec with
  | commit r d b =>
      cases floor with
      | none => cases h
      | some f =>
          cases result with
          | none => cases h
          | some p => exact .inl ⟨f, p, List.mem_singleton.mp h, rfl, rfl⟩
  | timeline d => cases h
  | opening d =>
      cases result with
      | none => cases h
      | some p => exact .inr ⟨p, d, List.mem_singleton.mp h, rfl, rfl⟩
  | closing d => cases h

/-- What the end of a call shows: a request with its floor and its file, or an opening floor. -/
lemma Settled.mem {cfg : Config} {s s' : System} {c : Call} {answer : Option Answer}
    {ls : List Label} {l : Label} (hs : Settled cfg s c answer ls s') (hl : l ∈ ls) :
    ∃ p, answer = some (.proof p) ∧ c.isBind = true ∧
      ((∃ f, l = .paired f p ∧ s.phase = .bindCall (some f)) ∨
        ∃ d rest, l = .opened p ∧ s.sections = .opening d :: rest) := by
  cases hs with
  | quiet _ _ => cases hl
  | floorBound _ _ _ _ => cases hl
  | @ended sec rest floor result _ _ hc hsec hresult hend =>
      have hproof {p : Proof} (hp : result = some p) :
          s.phase = .bindCall floor ∧ answer = some (.proof p) := by
        rcases hresult with ⟨-, h⟩ | ⟨hphase, h⟩
        · rw [h] at hp
          cases hp
        · obtain ⟨a, ha, hap⟩ := Option.bind_eq_some_iff.mp (h.symm.trans hp)
          cases a with
          | proof q =>
              obtain rfl := Option.some.inj hap
              exact ⟨hphase, ha⟩
          | _ => cases hap
      have hshown : l ∈ (afterSection { s with inFlight := none }.finish sec floor result).1 := by
        rw [hend]
        exact hl
      rcases mem_afterSection hshown with ⟨f, p, rfl, hf, hp⟩ | ⟨p, d, rfl, hd, hp⟩
      · obtain ⟨hphase, ha⟩ := hproof hp
        exact ⟨p, ha, hc, .inl ⟨f, rfl, hf ▸ hphase⟩⟩
      · exact ⟨p, (hproof hp).2, hc, .inr ⟨d, rest, rfl, hd ▸ hsec⟩⟩

lemma Settled.frame {cfg : Config} {s s' : System} {c : Call} {answer : Option Answer}
    {ls : List Label} (hs : Settled cfg s c answer ls s') :
    s'.enclave = s.enclave ∧ s'.done = s.done ∧ s'.sent = s.sent ∧ s'.inFlight = none ∧
      s'.waiting = s.waiting ∧ s'.closing = s.closing ∧ s'.stopping = s.stopping := by
  cases hs with
  | quiet _ _ => exact ⟨rfl, rfl, rfl, rfl, rfl, rfl, rfl⟩
  | floorBound _ _ _ _ => exact ⟨rfl, rfl, rfl, rfl, rfl, rfl, rfl⟩
  | @ended sec rest floor result _ _ hc hsec hresult hend =>
      obtain ⟨requests, life, heq, -⟩ :=
        afterSection_eq { s with inFlight := none }.finish sec floor result
      rw [hend] at heq
      obtain rfl : s' = _ := heq
      exact ⟨rfl, rfl, rfl, rfl, rfl, rfl, rfl⟩

/-- `bindEpochFloor` runs after an answer that the count is 0. -/
lemma counter_of_starting {cfg : Config} {answer : Option Answer}
    (h : afterInit cfg (initCounter answer) = .starting) :
    ∃ n, answer = some (.init n) ∧ n = 0 := by
  cases hn : initCounter answer with
  | none => rw [hn] at h; cases h
  | some n =>
      refine ⟨n, ?_, ?_⟩
      · rw [initCounter.eq_def] at hn
        split at hn
        · rw [Option.some.inj hn]
        · cases hn
      · rw [hn, afterInit] at h
        split at h
        · next hstart => simp at hstart; exact hstart.1.2
        · cases h

lemma afterInit_late {cfg : Config} {n : Option ℕ} (h : afterInit cfg n ≠ .starting) :
    afterInit cfg n = .serving ∨ afterInit cfg n = .unopened ∨ afterInit cfg n = .exited := by
  cases n with
  | none => exact .inr (.inl rfl)
  | some n =>
      rw [afterInit] at h ⊢
      split at h
      · exact absurd rfl h
      · next hstart =>
        rw [if_neg hstart]
        exact .inl rfl

/-- The sections stay, or the running one is over. -/
lemma Settled.sections {cfg : Config} {s s' : System} {c : Call} {answer : Option Answer}
    {ls : List Label} (hs : Settled cfg s c answer ls s') :
    s'.sections = s.sections ∨ s'.sections = s.sections.tail := by
  cases hs with
  | quiet _ _ => exact .inl rfl
  | floorBound _ _ _ _ => exact .inl rfl
  | @ended sec rest floor result _ _ hc hsec hresult hend =>
      obtain ⟨requests, life, heq, -⟩ :=
        afterSection_eq { s with inFlight := none }.finish sec floor result
      rw [hend] at heq
      obtain rfl : s' = _ := heq
      exact .inr rfl

/-- An event that is no execution leaves the enclave and the answers, and shows no record. -/
lemma Moves.quiet {cfg : Config} {computeChainHash : Proof → Str} {s s' : System} {e : Event}
    {ls : List Label} (hm : Moves cfg computeChainHash s e ls s')
    (he : ∀ i drawn, e ≠ .execute i drawn) :
    s'.enclave = s.enclave ∧ s'.done = s.done ∧ s.sent <+: s'.sent ∧ ∀ kind p,
      .bound kind p ∉ ls := by
  have hsettled {c : Call} {answer : Option Answer} (hs : Settled cfg s c answer ls s') :
      s'.enclave = s.enclave ∧ s'.done = s.done ∧ s.sent <+: s'.sent ∧ ∀ kind p,
        .bound kind p ∉ ls := by
    obtain ⟨henclave, hdone, hsent, -⟩ := hs.frame
    refine ⟨henclave, hdone, hsent ▸ List.prefix_refl _, fun kind p hmem => ?_⟩
    obtain ⟨_, _, _, ⟨_, h, _⟩ | ⟨_, _, h, _⟩⟩ := hs.mem hmem <;> cases h
  cases hm with
  | executes _ _ _ _ => exact absurd rfl (he _ _)
  | settles _ _ _ hend => exact hsettled (settleCall_settled hend)
  | fails _ _ hend => exact hsettled (settleCall_settled hend)
  | transmits _ _ => exact ⟨rfl, rfl, List.prefix_append _ _, by simp⟩
  | _ => exact ⟨rfl, rfl, List.prefix_refl _, by simp⟩

/-- The labels, the answers and the enclave tell of one chain of records. -/
structure Chained (computeChainHash : Proof → Str) (ls : List Label) (s : System) : Prop where
  log : records ls = s.done.filterMap fun x => x.2.proof?
  linked : (records ls).IsChain (Next computeChainHash)
  tip : ∀ p ∈ (records ls).getLast?, s.enclave.counter = p.counter ∧
    s.enclave.lastProofHashB64 = some (computeChainHash p)
  sent : ∀ x ∈ s.done, ∀ p, x.2 = .proof p → ∃ kind d, s.sent[x.1]? = some (.bind kind d)
  bound : ∀ kind p, .bound kind p ∈ ls → ∃ i d, (i, .proof p) ∈ s.done ∧
    s.sent[i]? = some (.bind kind d)

lemma records_append (ls new : List Label) : records (ls ++ new) = records ls ++ records new :=
  List.filterMap_append

lemma records_eq_nil {ls : List Label} (h : ∀ kind p, .bound kind p ∉ ls) : records ls = [] :=
  List.filterMap_eq_nil_iff.mpr fun l hl => by
    cases l with
    | bound kind p => exact absurd hl (h kind p)
    | paired f p => rfl
    | opened p => rfl

lemma getElem?_of_prefix {α : Type} {l l' : List α} (h : l <+: l') {i : ℕ} {a : α}
    (ha : l[i]? = some a) : l'[i]? = some a := by
  obtain ⟨t, rfl⟩ := h
  rw [List.getElem?_append_left (List.getElem?_eq_some_iff.mp ha).1, ha]

lemma Chained.move {cfg : Config} {computeChainHash : Proof → Str} {s s' : System} {e : Event}
    {ls new : List Label} (h : Chained computeChainHash ls s)
    (hm : Moves cfg computeChainHash s e new s') : Chained computeChainHash (ls ++ new) s' := by
  by_cases he : ∃ i drawn, e = .execute i drawn
  · obtain ⟨i, drawn, rfl⟩ := he
    cases hm with
    | @executes _ c _ _ answer enclave hc hnew hrun hls =>
    subst hls
    have hsent (x : ℕ × Answer) (hx : x ∈ s.done) := h.sent x hx
    rcases handleRequest_cases hrun with ⟨kind, d, dr, rfl, rfl, rfl⟩ | ⟨hnone, hcounter, hlast⟩
    · have hrec : records (ls ++ boundLabels (.bind kind d) (.proof (s.enclave.record d dr)))
          = records ls ++ [s.enclave.record d dr] := records_append _ _
      refine ⟨?_, ?_, ?_, fun x hx p hp => ?_, fun k p hp => ?_⟩
      · rw [hrec, List.filterMap_append, h.log]
        rfl
      · rw [hrec, List.isChain_append]
        refine ⟨h.linked, .singleton _, fun p hp q hq => ?_⟩
        obtain rfl : s.enclave.record d dr = q := by simpa using hq
        obtain ⟨hcount, hhash⟩ := h.tip p hp
        exact ⟨hhash, by rw [← hcount]; rfl, by rw [← hcount]; rfl⟩
      · intro p hp
        rw [hrec, List.getLast?_concat] at hp
        obtain rfl := Option.some.inj hp
        exact ⟨rfl, rfl⟩
      · rcases List.mem_append.mp hx with hx | hx
        · exact hsent x hx p hp
        · obtain rfl := List.mem_singleton.mp hx
          exact ⟨kind, d, hc⟩
      · rcases List.mem_append.mp hp with hp | hp
        · obtain ⟨j, d', hj, hd'⟩ := h.bound k p hp
          exact ⟨j, d', List.mem_append_left _ hj, hd'⟩
        · obtain ⟨rfl, rfl⟩ : k = kind ∧ p = s.enclave.record d dr := by
            simpa [boundLabels] using hp
          exact ⟨i, d, List.mem_append_right _ List.mem_cons_self, hc⟩
    · have hrec : records (ls ++ boundLabels c answer) = records ls := by
        rw [boundLabels_of_none hnone, List.append_nil]
      refine ⟨?_, hrec ▸ h.linked, fun p hp => ?_, fun x hx p hp => ?_, fun k p hp => ?_⟩
      · rw [hrec, List.filterMap_append, h.log]
        simp [hnone]
      · rw [hcounter, hlast]
        exact h.tip p (hrec ▸ hp)
      · rcases List.mem_append.mp hx with hx | hx
        · exact hsent x hx p hp
        · obtain rfl := List.mem_singleton.mp hx
          rw [show answer = .proof p from hp] at hnone
          cases hnone
      · rw [boundLabels_of_none hnone, List.append_nil] at hp
        obtain ⟨j, d', hj, hd'⟩ := h.bound k p hp
        exact ⟨j, d', List.mem_append_left _ hj, hd'⟩
  · obtain ⟨henclave, hdone, hsent, hbound⟩ := hm.quiet fun i drawn heq => he ⟨i, drawn, heq⟩
    have hrec : records (ls ++ new) = records ls := by
      rw [records_append, records_eq_nil hbound, List.append_nil]
    refine ⟨by rw [hrec, hdone, h.log], hrec ▸ h.linked, fun p hp => ?_, fun x hx p hp => ?_,
      fun k p hp => ?_⟩
    · rw [henclave]
      exact h.tip p (hrec ▸ hp)
    · obtain ⟨kind, d, hd⟩ := h.sent x (hdone ▸ hx) p hp
      exact ⟨kind, d, getElem?_of_prefix hsent hd⟩
    · obtain ⟨j, d, hj, hd⟩ := h.bound k p
        ((List.mem_append.mp hp).resolve_right (hbound k p))
      exact ⟨j, d, hdone ▸ hj, getElem?_of_prefix hsent hd⟩

/-- Later records have higher counts. -/
lemma counters_increase {computeChainHash : Proof → Str} {ls : List Label} {s : System}
    (h : Chained computeChainHash ls s) :
    (records ls).Pairwise fun p q => p.counter < q.counter := by
  have hchain : ((records ls).map Proof.counter).IsChain (· < ·) :=
    (List.isChain_map _).mpr (h.linked.imp fun p q hpq => by rw [hpq.counter]; omega)
  exact List.pairwise_map.mp hchain.pairwise

/-- Before the parent has started. -/
lemma sane_init (enclave : Enclave) : Sane (.init enclave) := ⟨rfl, nofun, by simp [System.init], .nil⟩

lemma chained_init (computeChainHash : Proof → Str) (enclave : Enclave) :
    Chained computeChainHash [] (.init enclave) :=
  ⟨rfl, .nil, by simp [records], by simp [System.init], by simp⟩

/-- What holds before the parent starts and is kept by every event the policy allows. -/
theorem reach_induction {cfg : Config} {computeChainHash : Proof → Str}
    {ok : Event → System → Bool} {I : List Label → System → Prop}
    (hinit : ∀ enclave : Enclave, enclave.Sound → I [] (.init enclave))
    (hmove : ∀ {e s s' ls new}, I ls s → ok e s = true → Moves cfg computeChainHash s e new s' →
      I (ls ++ new) s')
    {ls : List Label} {s : System} {p : Unit} (h : (machine cfg computeChainHash ok).Reach ls s p) :
    I ls s := by
  refine Machine.Reach.invariant (D := I) (I := fun ls s _ => I ls s) ?_ ?_ ?_ ?_ h
  · rintro _ ⟨enclave, hsound, rfl⟩
    exact hinit enclave hsound
  · exact fun ls s p hI _ => hI
  · intro e ls s p new s' p' hI hok hfire
    obtain ⟨⟨new', s''⟩, hstep, heq⟩ := Option.map_eq_some_iff.mp hfire
    cases heq
    exact hmove hI hok (step_moves hstep)
  · exact fun ls s p hI => hI

/-- The answers to a list of events. -/
def runs (cfg : Config) (computeChainHash : Proof → Str) (ok : Event → System → Bool)
    (es : List Event) (enclave : Enclave) : Option (List Label × System × Unit) :=
  Machine.runAll (fun e s _ => (step cfg computeChainHash e s).map fun r => (r.1, r.2, ()))
    (fun e s _ => ok e s = true) es (.init enclave) ()

lemma reach_of_runs {cfg : Config} {computeChainHash : Proof → Str} {ok : Event → System → Bool}
    {es : List Event} {enclave : Enclave} {ls : List Label} {s : System}
    (hsound : enclave.Sound)
    (h : runs cfg computeChainHash ok es enclave = some (ls, s, ())) :
    (machine cfg computeChainHash ok).Reach ls s () := by
  have hstart : (machine cfg computeChainHash ok).Reach [] (.init enclave) () :=
    .start ⟨enclave, hsound, rfl⟩ trivial
  exact hstart.runAll h

/-! ### Runs to test with -/

/-- The digest of 32 bytes `n`. -/
def sampleDigest (n : UInt8) : Str := bytesToBase64 (List.replicate 32 n)

/-- What the enclave draws. -/
def sampleDrawn : Drawn := ⟨js "nonce", js "seal"⟩

/-- A hash that keeps the digest and the count. -/
def sampleHash (p : Proof) : Str := p.digestB64 ++ decimal p.counter

/-- An enclave that has just booted. -/
def freshEnclave : Enclave := ⟨false, 0, none⟩

lemma freshEnclave_sound : freshEnclave.Sound := fun _ => rfl

/-- The parent comes up, and `init` is answered. -/
def startup : List Event :=
  [.listen, .transmit, .execute 0 none, .settle, .transmit, .execute 1 none, .settle]

/-- The running section's bind goes out as the `i`-th call, is executed and answered. -/
def oneBind (i : ℕ) (block : Option Str) : List Event :=
  [.run block, .transmit, .execute i (some sampleDrawn), .settle]

/-- The record of `d` at count `n`, after the record `prev`. -/
def sampleRecord (d : Str) (n : ℕ) (prev : Option Proof) : Proof :=
  ⟨d, js "nonce", n - 1, n, prev.map sampleHash, js "seal"⟩

/-- The first record of a run that commits `sampleDigest 1`. -/
def fileRecord : Proof := sampleRecord (sampleDigest 1) 2 none

end BitGraph.Server
