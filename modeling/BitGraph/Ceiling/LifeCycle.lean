import BitGraph.Ceiling.Consistency

/-!
The life of a ceiling batch.

* **States.** `BatchState.Next` is the order in which a batch moves, `Batch.Succeeds` how its
  file may be rewritten: one state on, with everything else kept, or a replacement transaction
  for the same payload and nonce added.
* **Invariant.** `Lawful` says of the batches that one at most is in flight, that a batch not yet
  sent has one transaction, and that all its transactions carry its payload and its nonce.
* **Result.** `batch_life_cycle` holds of every state of every run, crashes included.
-/

namespace BitGraph

open Js

namespace Ceiling

/-! ### States -/

/-- The order of the states. -/
inductive BatchState.Next : BatchState → BatchState → Prop
  | sent : Next .sending .pending
  | mined : Next .pending .included
  | safe : Next .included .safe
  | finalized : Next .included .finalized
  | settled : Next .safe .finalized
  | dropped : Next .included .dropped

/-- What stays the same for the whole life of a batch. -/
structure Batch.SameWrite (b b' : Batch) : Prop where
  id : b'.id = b.id
  group : b'.group = b.group
  items : b'.items = b.items
  root : b'.root = b.root
  prev : b'.prev = b.prev
  payload : b'.payload = b.payload
  firstPos : b'.firstPos = b.firstPos
  lastPos : b'.lastPos = b.lastPos
  nonce : b'.nonce = b.nonce
  createdAt : b'.createdAt = b.createdAt

/-- A later version of a batch file. -/
structure Batch.Succeeds (cfg : Config) (b b' : Batch) : Prop extends Batch.SameWrite b b' where
  moves : (BatchState.Next b.state b'.state ∧ b'.sends = b.sends)
    ∨ (b.state = .pending ∧ b'.state = .pending ∧ ∃ s payload, b'.sends = b.sends ++ [s]
      ∧ evmHexToBytes b.payload = .ok payload ∧ cfg.signs payload b.nonce b.sends.length s.toSigned)

variable {cfg : Config} {d d' : Disk} {p p' : Proc} {ls : List Label}

/-- Every rewriting of a batch file is a later version of it. -/
lemma Batch.Advances.succeeds {b b' : Batch} (h : b.Advances cfg b') : b.Succeeds cfg b' := by
  cases h with
  | sent h => exact ⟨by constructor <;> rfl, Or.inl ⟨by rw [h]; exact .sent, rfl⟩⟩
  | replaced h hp hs =>
      exact ⟨by constructor <;> rfl, Or.inr ⟨h, h, _, _, rfl, hp, hs⟩⟩
  | mined inc now h hs => exact ⟨by constructor <;> rfl, Or.inl ⟨by rw [h]; exact .mined, rfl⟩⟩
  | observed now h =>
      refine ⟨by constructor <;> rfl, Or.inl ⟨?_, rfl⟩⟩
      show BatchState.Next b.state _
      rcases h with ⟨h, rfl | rfl⟩ | ⟨h, rfl⟩
      · rw [h]
        exact .safe
      · rw [h]
        exact .finalized
      · rw [h]
        exact .settled
  | dropped h => exact ⟨by constructor <;> rfl, Or.inl ⟨by rw [h]; exact .dropped, rfl⟩⟩

lemma Batch.Succeeds.stored {b b' : Batch} (h : b.Succeeds cfg b') :
    b.stored.Succeeds cfg b'.stored where
  id := h.id
  group := by rw [Batch.stored, Batch.stored, h.group]
  items := by rw [Batch.stored, Batch.stored, h.items]
  root := h.root
  prev := h.prev
  payload := h.payload
  firstPos := h.firstPos
  lastPos := h.lastPos
  nonce := h.nonce
  createdAt := h.createdAt
  moves := h.moves

/-! ### Invariant -/

/-- One batch at most is in flight, a batch not yet sent has one transaction, and the
transactions of a batch carry its payload and its nonce. -/
structure Lawful (cfg : Config) (l : List Batch) : Prop where
  single : ∀ b ∈ l, ∀ c ∈ l, b.isActive = true → c.isActive = true → b.id = c.id
  unsent : ∀ b ∈ l, b.state = .sending → ∃ s, b.sends = [s]
  signed : ∀ b ∈ l, ∃ payload, evmHexToBytes b.payload = .ok payload
    ∧ ∀ k s, b.sends[k]? = some s → cfg.signs payload b.nonce k s.toSigned

/-- What is about to be broadcast is a transaction of a batch in flight. -/
def Announced (p : Proc) : Phase → Prop
  | .created b _ | .unqueued b _ => b ∈ p.batches ∧ b.isActive = true
  | .sending id rawTx => ∃ b ∈ p.batches, b.id = id ∧ b.isActive = true ∧ ∃ s ∈ b.sends, s.rawTx = rawTx
  | _ => True

lemma Lawful.map_stored {l : List Batch} (h : Lawful cfg l) : Lawful cfg (l.map Batch.stored) where
  single b hb c hc := by
    obtain ⟨x, hx, rfl⟩ := List.mem_map.mp hb
    obtain ⟨y, hy, rfl⟩ := List.mem_map.mp hc
    exact h.single x hx y hy
  unsent b hb := by
    obtain ⟨x, hx, rfl⟩ := List.mem_map.mp hb
    exact h.unsent x hx
  signed b hb := by
    obtain ⟨x, hx, rfl⟩ := List.mem_map.mp hb
    exact h.signed x hx

lemma Lawful.of_perm {l m : List Batch} (h : Lawful cfg l) (hp : m.Perm l) : Lawful cfg m where
  single b hb c hc := h.single b (hp.mem_iff.mp hb) c (hp.mem_iff.mp hc)
  unsent b hb := h.unsent b (hp.mem_iff.mp hb)
  signed b hb := h.signed b (hp.mem_iff.mp hb)

/-- A batch joins a lawful list, in flight only when nothing else is. -/
lemma Lawful.setBatch {l : List Batch} (h : Lawful cfg l) {b : Batch}
    (hactive : b.isActive = true → ∀ c ∈ l, c.isActive = true → c.id = b.id)
    (hunsent : b.state = .sending → ∃ s, b.sends = [s])
    (hsigned : ∃ payload, evmHexToBytes b.payload = .ok payload
      ∧ ∀ k s, b.sends[k]? = some s → cfg.signs payload b.nonce k s.toSigned) :
    Lawful cfg (setBatch b l) where
  single x hx y hy hxa hya := by
    rcases mem_setBatch.mp hx with hxb | ⟨hxl, -⟩ <;> rcases mem_setBatch.mp hy with hyb | ⟨hyl, -⟩
    · rw [hxb, hyb]
    · rw [hxb]
      exact (hactive (hxb ▸ hxa) y hyl hya).symm
    · rw [hyb]
      exact hactive (hyb ▸ hya) x hxl hxa
    · exact h.single x hxl y hyl hxa hya
  unsent x hx := by
    rcases mem_setBatch.mp hx with rfl | ⟨hx, -⟩
    · exact hunsent
    · exact h.unsent x hx
  signed x hx := by
    rcases mem_setBatch.mp hx with rfl | ⟨hx, -⟩
    · exact hsigned
    · exact h.signed x hx

/-- What `startBatch` makes. -/
lemma newBatch_spec {key : Str} {nonce : ℕ} {sign : Bytes → ℕ → ℕ → Signed} {head : ℕ} {now : Str}
    {b : Batch} {payload : Bytes} (h : newBatch cfg p key nonce sign head now = some (b, payload)) :
    b.state = .sending ∧ evmHexToBytes b.payload = .ok payload ∧ b.nonce = nonce
      ∧ b.sends = [{ sign payload nonce 0 with sentAt := now, sentHead := head }] := by
  simp only [newBatch, Option.bind_eq_bind, Option.pure_def] at h
  split at h
  · cases h
  · simp only [Option.bind_eq_some_iff] at h
    obtain ⟨sorted, -, leaves, -, tree, -, first, -, last, -, prev, -, payload', -, h⟩ := h
    cases h
    exact ⟨rfl, evmHexToBytes_evmBytesToHex _, rfl, rfl⟩

lemma Batch.isActive_iff {b : Batch} :
    b.isActive = true ↔ b.state = .sending ∨ b.state = .pending := by
  rw [Batch.isActive, decide_eq_true_iff]

/-- A rewriting of a batch file keeps the batches lawful. -/
lemma Lawful.advance {l : List Batch} (h : Lawful cfg l) {b b' : Batch} (hb : b ∈ l)
    (hadv : b.Advances cfg b') : Lawful cfg (Ceiling.setBatch b' l) := by
  have hactive : b'.isActive = true → b.isActive = true := by
    intro hb'
    rw [Batch.isActive_iff] at hb' ⊢
    cases hadv with
    | sent h => exact Or.inl h
    | replaced h => exact Or.inr h
    | mined _ _ h => exact Or.inr h
    | observed now h =>
        rcases h with ⟨-, rfl | rfl⟩ | ⟨-, rfl⟩ <;> simp [Batch.observe] at hb'
    | dropped => simp at hb'
  refine h.setBatch (fun hb' c hc hca => ?_) (fun hb' => ?_) ?_
  · rw [hadv.id_eq]
    exact (h.single b hb c hc (hactive hb') hca).symm
  · cases hadv with
    | sent => cases hb'
    | replaced h => cases h.symm.trans hb'
    | mined => cases hb'
    | observed now h => rcases h with ⟨-, rfl | rfl⟩ | ⟨-, rfl⟩ <;> cases hb'
    | dropped => cases hb'
  · obtain ⟨payload, hpayload, hsigned⟩ := h.signed b hb
    cases hadv with
    | @replaced s payload' _ hp hs =>
        obtain rfl : payload' = payload := Except.ok.inj (hp.symm.trans hpayload)
        refine ⟨payload', hp, fun k t hk => ?_⟩
        rw [show (b.replace s).sends = b.sends ++ [s] from rfl, List.getElem?_append] at hk
        split at hk
        · exact hsigned k t hk
        · next hlen =>
            obtain rfl : k = b.sends.length := by
              have := (List.getElem?_eq_some_iff.mp hk).1
              simp only [List.length_singleton] at this
              omega
            simp only [Nat.sub_self, List.getElem?_cons_zero, Option.some.injEq] at hk
            exact hk ▸ hs
    | _ => exact ⟨payload, hpayload, hsigned⟩

/-- Every move keeps the batches lawful. -/
lemma Lawful.move (h : Lawful cfg p.batches) (hm : Move cfg d p ls d' p') :
    Lawful cfg p'.batches := by
  cases hm with
  | @create b payload key nonce sign head now _ ha hb hs =>
      obtain ⟨hstate, hpayload, hnonce, hsends⟩ := newBatch_spec hb
      refine h.setBatch (fun _ c hc hca => ?_) (fun _ => ⟨_, hsends⟩) ⟨payload, hpayload, ?_⟩
      · exact absurd hca (by simpa using List.find?_eq_none.mp ha c hc)
      · intro k s hk
        rw [hsends, List.getElem?_singleton] at hk
        split at hk
        · next hk0 =>
            rw [← Option.some.inj hk, hnonce, hk0]
            exact hs payload nonce 0
        · cases hk
  | update _ hb hadv => exact h.advance hb hadv
  | _ => exact h

lemma announced_of_quiet {q : Phase} (hq : q.quiet = true) : Announced p q := by
  cases q with
  | idle | ready | acted | polling => trivial
  | _ => cases hq

/-- Every move announces what it is about to broadcast. -/
lemma Announced.move (h : Announced p p.phase) (hm : Move cfg d p ls d' p') :
    Announced p' p'.phase := by
  cases hm with
  | append => exact h
  | pass _ hq => exact announced_of_quiet hq
  | forget | interrupt | ingest | cursor | broadcast | requeue => trivial
  | create _ _ hb =>
      exact ⟨mem_setBatch.mpr (Or.inl rfl), Batch.isActive_iff.mpr (Or.inl (newBatch_spec hb).1)⟩
  | unqueue hp =>
      rw [hp] at h
      exact h
  | @chain b payload hp =>
      rw [hp] at h
      obtain ⟨hmem, hactive⟩ := h
      cases hlast : b.sends.getLast? with
      | none => simp [saveChain, hlast, Announced]
      | some s =>
          simp only [saveChain, hlast]
          exact ⟨b, hmem, rfl, hactive, s, List.mem_of_getLast? hlast, rfl⟩
  | resume _ ha hb hs =>
      exact ⟨_, mem_of_active ha, rfl, Batch.isActive_iff.mpr (Or.inl hb), _, hs, rfl⟩
  | @update b b' q _ hb hadv hq =>
      cases hq with
      | quiet _ hq => exact announced_of_quiet hq
      | resend hstate hs =>
          exact ⟨b', mem_setBatch.mpr (Or.inl rfl), rfl, Batch.isActive_iff.mpr (Or.inr hstate), _,
            hs, rfl⟩
      | requeue => trivial

/-- In every run the batches are lawful and what is broadcast is announced. -/
theorem reach_lawful (h : (writer cfg).Reach ls d p) :
    Lawful cfg p.batches ∧ Announced p p.phase := by
  have hall : (supervised cfg anyStep fun _ => true).Reach ls d p :=
    h.to_restrict (fun _ _ _ _ _ => rfl) fun _ _ => rfl
  refine reach_invariant (D := fun _ d => Lawful cfg d.batches)
    (I := fun _ _ p => Lawful cfg p.batches ∧ Announced p p.phase) ?_ ?_ ?_ ?_ hall
  · constructor <;> exact fun b hb => absurd hb List.not_mem_nil
  · exact fun _ d batches hd _ hp => ⟨hd.of_perm hp, trivial⟩
  · exact fun _ d p _ d' p' hI _ hm _ => ⟨hI.1.move hm, hI.2.move hm⟩
  · exact fun _ d p hI hc _ => hI.1.map_stored.of_perm hc.same.symm

/-! ### The life of a batch -/

/-- The batch files after a step: every file is still there, and a file is as it was, a later
version, or that of a new batch. -/
lemma Consistent.files_move (h : Consistent d p) (hm : Move cfg d p ls d' p') :
    (∀ b ∈ d.batches, ∃ b' ∈ d'.batches, b'.id = b.id)
      ∧ ∀ b' ∈ d'.batches, b' ∈ d.batches ∨ (∃ b ∈ d.batches, b.Succeeds cfg b')
        ∨ ∃ c, .create c ∈ ls ∧ c.stored = b' ∧ b'.state = .sending := by
  have same : ∀ {e : Disk}, e.batches = d.batches → (∀ b ∈ d.batches, ∃ b' ∈ e.batches, b'.id = b.id)
      ∧ ∀ b' ∈ e.batches, b' ∈ d.batches ∨ (∃ b ∈ d.batches, b.Succeeds cfg b')
        ∨ ∃ c, .create c ∈ ls ∧ c.stored = b' ∧ b'.state = .sending := by
    intro e he
    rw [he]
    exact ⟨fun b hb => ⟨b, hb, rfl⟩, fun b' hb' => Or.inl hb'⟩
  have files : ∀ c : Batch, ∀ b ∈ d.batches, ∃ b' ∈ (d.saveBatch c).batches, b'.id = b.id := by
    intro c b hb
    by_cases hid : b.id = c.id
    · exact ⟨c.stored, mem_setBatch.mpr (Or.inl rfl), hid.symm⟩
    · exact ⟨b, mem_setBatch.mpr (Or.inr ⟨hb, hid⟩), rfl⟩
  cases hm with
  | @create c _ _ _ _ _ _ _ _ hb =>
      refine ⟨files c, fun b' hb' => ?_⟩
      rcases mem_setBatch.mp hb' with rfl | ⟨hmem, -⟩
      · exact Or.inr (Or.inr ⟨c, List.mem_singleton.mpr rfl, rfl, (newBatch_spec hb).1⟩)
      · exact Or.inl hmem
  | @update b c q _ hb hadv =>
      refine ⟨files c, fun b' hb' => ?_⟩
      rcases mem_setBatch.mp hb' with rfl | ⟨hmem, -⟩
      · exact Or.inr (Or.inl ⟨b.stored, h.mem_disk.mpr ⟨b, hb, rfl⟩, hadv.succeeds.stored⟩)
      · exact Or.inl hmem
  | _ => exact same rfl

/-- **Life of a batch.** In every state of every run one batch file at most is in flight. Every
step leaves the files as they are, replaces one by a later version or adds that of a new batch;
and it broadcasts only what the file of the batch in flight holds: while the batch is in state
`sending`, the one transaction it was created with. -/
theorem batch_life_cycle (cfg : Config) (ls : List Label) (d : Disk) (p : Proc)
    (h : (writer cfg).Reach ls d p) :
    (∀ b ∈ d.batches, ∀ c ∈ d.batches, b.isActive = true → c.isActive = true → b = c)
      ∧ ∀ new d' p', (writer cfg).step d p new d' p' →
        ((∀ b ∈ d.batches, ∃ b' ∈ d'.batches, b'.id = b.id)
          ∧ ∀ b' ∈ d'.batches, b' ∈ d.batches ∨ (∃ b ∈ d.batches, b.Succeeds cfg b')
            ∨ ∃ c, .create c ∈ new ∧ c.stored = b' ∧ b'.state = .sending)
        ∧ ∀ id rawTx, .broadcast id rawTx ∈ new →
          ∃ b ∈ d.batches, b.id = id ∧ b.isActive = true ∧ (∃ s ∈ b.sends, s.rawTx = rawTx)
            ∧ (b.state = .sending → ∃ s, b.sends = [s]) := by
  have hc := reach_consistent h
  obtain ⟨hlaw, hann⟩ := reach_lawful h
  refine ⟨fun b hb c hcm hba hca => ?_, fun new d' p' hs => ⟨hc.files_move (reach_move h hs), ?_⟩⟩
  · obtain ⟨x, hx, rfl⟩ := hc.mem_disk.mp hb
    obtain ⟨y, hy, rfl⟩ := hc.mem_disk.mp hcm
    rw [eq_of_id hc.ids hx hy (hlaw.single x hx y hy hba hca)]
  · intro id rawTx hmem
    cases reach_move h hs with
    | broadcast hp =>
        obtain ⟨rfl, rfl⟩ : id = _ ∧ rawTx = _ := by simpa using hmem
        rw [hp] at hann
        obtain ⟨b, hb, hid, hactive, hsend⟩ := hann
        exact ⟨b.stored, hc.mem_disk.mpr ⟨b, hb, rfl⟩, hid, hactive, hsend, hlaw.unsent b hb⟩
    | _ => simp at hmem

/-- A batch with its file written and not yet sent. -/
theorem batch_life_cycle_created :
    ∃ ls d p, (writer sampleConfig).Reach ls d p ∧ (d.batches.map Batch.state) = [.sending]
      ∧ ∀ b ∈ d.batches, ∀ c ∈ d.batches, b.isActive = true → c.isActive = true → b = c := by
  obtain ⟨ls, d, p, h, htest⟩ := reach_of_run (sampleCreate 7 "2026-01-01T00:00:00.000Z")
    (fun x => x.2.1.batches.map Batch.state = [.sending]) (sample_queue oneRecord)
    sampleCreate_admissible (by decide +kernel)
  exact ⟨_, d, p, h.of_restrict, by simpa using htest,
    (batch_life_cycle sampleConfig _ d p h.of_restrict).1⟩

/-- The answers of a tick that replaces the transaction in flight, up to the broadcast. -/
def sampleReplace : List Answer :=
  [.proceed, .unmined 4 sampleSign (js "2026-01-01T00:00:06.000Z"), .proceed]

/-- The answers of a tick that finds the transaction mined, up to the loop of `pollStatus` over
heads that have passed its block. -/
def sampleMine (safe fin : ℕ) : List Answer :=
  [.proceed, .mined 0 sampleInclusion (js "2026-01-01T00:00:03.000Z"), .poll safe fin]

/-- A run broadcasts two transactions for one batch, and a run takes a batch from `included` to
`finalized`. -/
theorem batch_replaced_or_finalized :
    (¬ ∀ ls d p, (writer sampleConfig).Reach ls d p → ∀ id r r', .broadcast id r ∈ ls →
        .broadcast id r' ∈ ls → r = r')
      ∧ ¬ ∀ ls d p, (writer sampleConfig).Reach ls d p → ∀ new d' p',
        (writer sampleConfig).step d p new d' p' →
        ∀ b ∈ d.batches, ∀ b' ∈ d'.batches, b'.id = b.id → b.state = .included →
          b'.state ≠ .finalized := by
  constructor
  · intro hall
    have hadm : ∀ a ∈ sampleCreate 7 "2026-01-01T00:00:00.000Z" ++ sampleSend ++ sampleReplace,
        ∀ d, a.Admissible sampleConfig d := by
      simp [sampleCreate, sampleSend, sampleReplace, Answer.Admissible, sampleConfig]
    obtain ⟨ls, d, p, h, htest⟩ := reach_of_run _
      (fun x => .broadcast (js "2026-01-01T00-00-00-000Z-7") (js "7.0") ∈ x.1
        ∧ .broadcast (js "2026-01-01T00-00-00-000Z-7") (js "7.1") ∈ x.1)
      (sample_queue oneRecord) hadm (by decide +kernel)
    obtain ⟨hfirst, hsecond⟩ := of_decide_eq_true htest
    exact absurd (hall _ _ _ h.of_restrict _ _ _ hfirst hsecond) (by decide)
  · intro hall
    have hadm : ∀ a ∈ sampleCreate 7 "2026-01-01T00:00:00.000Z" ++ sampleSend ++ sampleMine 5 5,
        ∀ d, a.Admissible sampleConfig d := by
      simp [sampleCreate, sampleSend, sampleMine, Answer.Admissible, sampleConfig]
    obtain ⟨ls, d, p, h, htest⟩ := reach_of_run _
      (fun x => (step sampleConfig (.canonical none (js "now")) x.2.1 x.2.2).any fun y =>
        x.2.1.batches.any fun b => y.2.1.batches.any fun b' =>
          b'.id = b.id ∧ b.state = .included ∧ b'.state = .finalized)
      (sample_queue oneRecord) hadm (by decide +kernel)
    obtain ⟨⟨new, d', p'⟩, hs, htest⟩ := (Option.any_eq_true _ _).mp htest
    obtain ⟨b, hb, htest⟩ := List.any_eq_true.mp htest
    obtain ⟨b', hb', htest⟩ := List.any_eq_true.mp htest
    obtain ⟨hid, hincluded, hfinalized⟩ := of_decide_eq_true htest
    exact hall _ _ _ h.of_restrict new d' p' ⟨.canonical none (js "now"), trivial, hs⟩ b hb b' hb' hid hincluded hfinalized

end Ceiling

end BitGraph
