import BitGraph.Ceiling.Consistency
import BitGraph.Lib.HashChain

/-!
The chain of ceiling payloads.

Every batch names the hash of the payload of the batch created before it. The head of the chain
and the batch that advances it are two files; a crash between their writes leaves a batch the
head does not know, and the next batch names the same hash (`payload_chain_forks`).

* **Payloads.** A batch carries the bytes of its payload, and these fix the hash it names
  (`Carries`).
* **Invariant.** `ChainHead` says where the chain file stands: at the last batch created, or one
  batch behind while `startBatch` is not done.
* **Result.** `payload_chain` holds of every run in which the process does not die there.
-/

namespace BitGraph

open Js HashChain

namespace Ceiling

/-! ### Payloads -/

/-- The batches created in a run, oldest first. -/
def created (ls : List Label) : List Batch :=
  ls.filterMap fun l => match l with
    | .create b => some b
    | _ => none

/-- The bytes of a batch's payload. -/
def Batch.payloadBytes (b : Batch) : Bytes := (evmHexToBytes b.payload).toOption.getD []

/-- The hash of a batch's payload, as the next batch names it. -/
def payloadHash (cfg : Config) (b : Batch) : Str :=
  evmBytesToHex (ceilingPayloadHash cfg.H b.payloadBytes)

/-- The payload of a batch, and the hash in it, which the batch names. -/
def Carries (b : Batch) (payload : Bytes) : Prop :=
  b.payload = evmBytesToHex payload
    ∧ ∃ c : CeilingPayload, encodeCeilingPayload c = .ok payload ∧ b.prev = evmBytesToHex c.prev

variable {cfg : Config} {d d' : Disk} {p p' : Proc} {ls : List Label}

lemma evmBytesToHex_injective {a b : Bytes} (h : evmBytesToHex a = evmBytesToHex b) : a = b := by
  have hab := evmHexToBytes_evmBytesToHex a
  rw [h, evmHexToBytes_evmBytesToHex] at hab
  exact (Except.ok.inj hab).symm

lemma Carries.payloadBytes {b : Batch} {payload : Bytes} (h : Carries b payload) :
    b.payloadBytes = payload := by
  rw [Batch.payloadBytes, h.1, evmHexToBytes_evmBytesToHex]
  rfl

/-- One payload, one hash before it. -/
lemma Carries.prev_eq {b c : Batch} {payload : Bytes} (hb : Carries b payload)
    (hc : Carries c payload) : b.prev = c.prev := by
  obtain ⟨-, x, hx, hbx⟩ := hb
  obtain ⟨-, y, hy, hcy⟩ := hc
  rw [hbx, hcy, prev_of_payload hx hy]

lemma zero32_eq : zero32 = evmBytesToHex (List.replicate 32 0) := by decide

/-- What `startBatch` makes names the head of the chain. -/
lemma newBatch_carries {key : Str} {nonce : ℕ} {sign : Bytes → ℕ → ℕ → Signed} {head : ℕ}
    {now : Str} {b : Batch} {payload : Bytes} {h : Bytes}
    (hlast : p.lastPayloadHash = evmBytesToHex h)
    (hb : newBatch cfg p key nonce sign head now = some (b, payload)) :
    b.prev = p.lastPayloadHash ∧ Carries b payload := by
  simp only [newBatch, Option.bind_eq_bind, Option.pure_def] at hb
  split at hb
  · cases hb
  · simp only [Option.bind_eq_some_iff] at hb
    obtain ⟨sorted, -, leaves, -, tree, -, first, -, last, -, prev, hprev, payload', hpay, hb⟩ := hb
    cases hb
    rw [toOption_eq_some] at hprev hpay
    rw [hlast, evmHexToBytes_evmBytesToHex] at hprev
    obtain rfl : h = prev := Except.ok.inj hprev
    exact ⟨rfl, rfl, _, hpay, hlast⟩

/-! ### Invariant -/

/-- Where the head of the chain stands, after the batches of `l`. -/
def ChainHead (cfg : Config) (l : List Batch) (last : Str) : Phase → Prop
  | .created b payload | .unqueued b payload =>
      ∃ m, l = m ++ [b] ∧ last = tip (payloadHash cfg) zero32 m ∧ b.payloadBytes = payload
  | _ => last = tip (payloadHash cfg) zero32 l

/-- The batches created are linked, and the batch files are versions of them. -/
structure Chained (cfg : Config) (l : List Batch) (batches : List Batch) : Prop where
  linked : Linked (payloadHash cfg) Batch.prev zero32 l
  carries : ∀ b ∈ l, ∃ payload, Carries b payload
  files : ∀ b ∈ batches, ∃ c ∈ l, c.id = b.id ∧ c.prev = b.prev ∧ c.payload = b.payload

/-- The head of a chain is the text of a hash. -/
lemma tip_eq_hex (cfg : Config) (l : List Batch) :
    ∃ h, tip (payloadHash cfg) zero32 l = evmBytesToHex h := by
  induction l using List.reverseRecOn with
  | nil => exact ⟨_, zero32_eq⟩
  | append_singleton l b _ => exact ⟨_, tip_append _ l b⟩

lemma created_append (ls new : List Label) : created (ls ++ new) = created ls ++ created new :=
  List.filterMap_append

/-- A new batch joins the chain at its head. -/
lemma Chained.create {l : List Batch} {batches : List Batch} (h : Chained cfg l batches)
    {b : Batch} {payload : Bytes} (hprev : b.prev = tip (payloadHash cfg) zero32 l)
    (hb : Carries b payload) : Chained cfg (l ++ [b]) (setBatch b batches) where
  linked := linked_append.mpr ⟨h.linked, hprev⟩
  carries x hx := by
    rcases List.mem_append.mp hx with hx | hx
    · exact h.carries x hx
    · exact ⟨payload, List.mem_singleton.mp hx ▸ hb⟩
  files x hx := by
    rcases mem_setBatch.mp hx with rfl | ⟨hx, -⟩
    · exact ⟨x, by simp, rfl, rfl, rfl⟩
    · obtain ⟨c, hc, heq⟩ := h.files x hx
      exact ⟨c, by simp [hc], heq⟩

/-- A later version of a batch is one of the batch created. -/
lemma Chained.advance {l : List Batch} {batches : List Batch} (h : Chained cfg l batches)
    {b b' : Batch} (hb : b ∈ batches) (hadv : b.Advances cfg b') :
    Chained cfg l (setBatch b' batches) where
  linked := h.linked
  carries := h.carries
  files x hx := by
    rcases mem_setBatch.mp hx with rfl | ⟨hx, -⟩
    · obtain ⟨c, hc, heq⟩ := h.files b hb
      cases hadv <;> exact ⟨c, hc, heq⟩
    · exact h.files x hx

lemma Chained.of_mem {l : List Batch} {m n : List Batch} (h : Chained cfg l m)
    (hn : ∀ b ∈ n, ∃ c ∈ m, c.id = b.id ∧ c.prev = b.prev ∧ c.payload = b.payload) :
    Chained cfg l n where
  linked := h.linked
  carries := h.carries
  files x hx := by
    obtain ⟨c, hc, h1, h2, h3⟩ := hn x hx
    obtain ⟨e, he, h4, h5, h6⟩ := h.files c hc
    exact ⟨e, he, h4.trans h1, h5.trans h2, h6.trans h3⟩

lemma chainHead_of_settled {l : List Batch} {last : Str} {q : Phase} (hq : q.settled = true) :
    ChainHead cfg l last q ↔ last = tip (payloadHash cfg) zero32 l := by
  cases q with
  | created | unqueued => cases hq
  | _ => rfl

/-- The invariant of the running process. -/
structure ChainInv (cfg : Config) (ls : List Label) (d : Disk) (p : Proc) : Prop where
  chained : Chained cfg (created ls) p.batches
  head : ChainHead cfg (created ls) p.lastPayloadHash p.phase
  disk : d.lastPayloadHash = p.lastPayloadHash

lemma ChainInv.move {new : List Label} (h : ChainInv cfg ls d p) (hm : Move cfg d p new d' p') :
    ChainInv cfg (ls ++ new) d' p' := by
  obtain ⟨hch, hhead, hdisk⟩ := h
  have keep : ∀ {l : Label}, created [l] = [] → created (ls ++ [l]) = created ls := by
    intro l hl
    rw [created_append, hl, List.append_nil]
  cases hm with
  | append =>
      rw [List.append_nil]
      exact ⟨hch, hhead, hdisk⟩
  | pass hp hq =>
      rw [List.append_nil]
      rw [chainHead_of_settled hp] at hhead
      exact ⟨hch, (chainHead_of_settled (settled_of_quiet hq)).mpr hhead, hdisk⟩
  | forget hp | interrupt hp | ingest hp | cursor hp | resume hp | requeue hp =>
      rw [List.append_nil]
      rw [hp] at hhead
      exact ⟨hch, hhead, hdisk⟩
  | broadcast hp =>
      rw [hp] at hhead
      refine ⟨?_, ?_, hdisk⟩
      · rw [keep rfl]
        exact hch
      · rw [keep rfl]
        exact hhead
  | @create b payload _ _ _ _ _ hp _ hb =>
      rw [hp] at hhead
      obtain ⟨x, hx⟩ := tip_eq_hex cfg (created ls)
      obtain ⟨hprev, hcarries⟩ := newBatch_carries (hhead.trans hx) hb
      have hcreated : created (ls ++ [.create b]) = created ls ++ [b] := by
        rw [created_append]
        rfl
      refine ⟨?_, ?_, hdisk⟩
      · rw [hcreated]
        exact hch.create (hprev.trans hhead) hcarries
      · rw [hcreated]
        exact ⟨_, rfl, hhead, hcarries.payloadBytes⟩
  | unqueue hp =>
      rw [List.append_nil]
      rw [hp] at hhead
      exact ⟨hch, hhead, hdisk⟩
  | @chain b payload hp =>
      rw [List.append_nil]
      rw [hp] at hhead
      obtain ⟨m, hm, -, hpayload⟩ := hhead
      have htip : evmBytesToHex (ceilingPayloadHash cfg.H payload)
          = tip (payloadHash cfg) zero32 (created ls) := by
        rw [hm, tip_append, payloadHash, hpayload]
      refine ⟨hch, ?_, rfl⟩
      cases hlast : b.sends.getLast? <;> simpa [saveChain, hlast, ChainHead] using htip
  | @update b b' q hp hb hadv hq =>
      rw [chainHead_of_settled hp] at hhead
      refine ⟨?_, ?_, hdisk⟩
      · rw [keep rfl]
        exact hch.advance hb hadv
      · rw [keep rfl]
        cases hq with
        | quiet _ hq => exact (chainHead_of_settled (settled_of_quiet hq)).mpr hhead
        | resend | requeue => exact hhead

/-- `startBatch` has written the batch file and not yet the chain file. -/
def Phase.isStarting : Phase → Bool
  | .created _ _ | .unqueued _ _ => true
  | _ => false

/-- The writer whose process does not die between the two writes. -/
def careful (cfg : Config) : Machine Disk Proc Label :=
  supervised cfg anyStep fun p => !p.phase.isStarting

lemma chainHead_of_not_starting {l : List Batch} {last : Str} {q : Phase}
    (hq : q.isStarting = false) : ChainHead cfg l last q ↔ last = tip (payloadHash cfg) zero32 l := by
  cases q with
  | created | unqueued => cases hq
  | _ => rfl

/-- The invariant in every state of a run in which the process does not die there. -/
theorem reach_chain (h : (careful cfg).Reach ls d p) : ChainInv cfg ls d p := by
  refine reach_invariant
    (D := fun ls d => Chained cfg (created ls) d.batches
      ∧ d.lastPayloadHash = tip (payloadHash cfg) zero32 (created ls))
    (I := fun ls d p => ChainInv cfg ls d p) ?_ ?_ ?_ ?_ h
  · refine ⟨⟨trivial, ?_, ?_⟩, rfl⟩ <;> exact fun b hb => absurd hb List.not_mem_nil
  · intro ls d batches ⟨hch, hlast⟩ _ hp
    exact ⟨hch.of_mem fun b hb => ⟨b, hp.mem_iff.mp hb, rfl, rfl, rfl⟩, hlast, rfl⟩
  · exact fun ls d p new d' p' hI _ hm _ => hI.move hm
  · intro ls d p ⟨hch, hhead, hdisk⟩ hc hok
    refine ⟨hch.of_mem fun b hb => ?_, hdisk.trans ((chainHead_of_not_starting (by simpa using hok)).mp hhead)⟩
    obtain ⟨x, hx, rfl⟩ := hc.mem_disk.mp hb
    exact ⟨x, hx, rfl, rfl, rfl⟩

/-! ### The chain -/

/-- Two payloads with one hash, or a payload whose hash is the genesis value. -/
def HashBreaks (H : HashFn) (payloads : List Bytes) : Prop :=
  H.Collides payloads payloads ∨ ∃ x ∈ payloads, H x = List.replicate 32 0

/-- Two batches created that name one hash are one batch. -/
lemma Chained.eq_of_prev {l : List Batch} {batches : List Batch} (h : Chained cfg l batches)
    {b c : Batch} (hb : b ∈ l) (hc : c ∈ l) (heq : b.prev = c.prev) :
    b = c ∨ HashBreaks cfg.H (l.map Batch.payloadBytes) := by
  obtain ⟨i, hi, rfl⟩ := List.getElem_of_mem hb
  obtain ⟨j, hj, rfl⟩ := List.getElem_of_mem hc
  rcases h.linked.fork hi hj heq with rfl | ⟨x, hx, y, hy, hne, hhash⟩ | ⟨x, hx, hzero⟩
  · exact Or.inl rfl
  · refine Or.inr (Or.inl ⟨_, List.mem_map_of_mem hx, _, List.mem_map_of_mem hy, fun hxy => ?_,
      evmBytesToHex_injective hhash⟩)
    obtain ⟨u, hu⟩ := h.carries x hx
    obtain ⟨v, hv⟩ := h.carries y hy
    rw [hu.payloadBytes, hv.payloadBytes] at hxy
    exact hne (hu.prev_eq (hxy ▸ hv))
  · rw [payloadHash, zero32_eq] at hzero
    exact Or.inr (Or.inr ⟨_, List.mem_map_of_mem hx, evmBytesToHex_injective hzero⟩)

/-- **The chain of payloads.** As long as the process does not die between writing a batch file
and the chain file: the first batch created names the genesis value and every other one the hash
of the payload of the batch created before it; every batch file is a version of a batch created;
and no two files name one hash, or two payloads collide, or one hashes to the genesis value. -/
theorem payload_chain (cfg : Config) (ls : List Label) (d : Disk) (p : Proc)
    (h : (careful cfg).Reach ls d p) :
    (∀ b, (created ls)[0]? = some b → b.prev = zero32)
      ∧ (∀ i b c, (created ls)[i]? = some b → (created ls)[i + 1]? = some c →
        c.prev = evmBytesToHex (cfg.H b.payloadBytes))
      ∧ (∀ b ∈ d.batches, ∃ c ∈ created ls, c.id = b.id ∧ c.prev = b.prev ∧ c.payload = b.payload)
      ∧ ((∀ b ∈ d.batches, ∀ c ∈ d.batches, b.prev = c.prev → b = c)
        ∨ HashBreaks cfg.H ((created ls).map Batch.payloadBytes)) := by
  have hreach := h.of_restrict
  have hcons := reach_consistent hreach
  obtain ⟨hch, -, -⟩ := reach_chain h
  have hfiles : Chained cfg (created ls) d.batches := hch.of_mem fun b hb => by
    obtain ⟨x, hx, rfl⟩ := hcons.mem_disk.mp hb
    exact ⟨x, hx, rfl, rfl, rfl⟩
  refine ⟨?_, ?_, hfiles.files, ?_⟩
  · intro b hb
    obtain ⟨h0, rfl⟩ := List.getElem?_eq_some_iff.mp hb
    exact hch.linked.first h0
  · intro i b c hb hc
    obtain ⟨hi, rfl⟩ := List.getElem?_eq_some_iff.mp hb
    obtain ⟨hj, rfl⟩ := List.getElem?_eq_some_iff.mp hc
    exact hch.linked.next hj
  · by_cases hbreak : HashBreaks cfg.H ((created ls).map Batch.payloadBytes)
    · exact Or.inr hbreak
    · refine Or.inl fun b hb c hc heq => ?_
      obtain ⟨x, hx, hxid, hxprev, -⟩ := hfiles.files b hb
      obtain ⟨y, hy, hyid, hyprev, -⟩ := hfiles.files c hc
      have hxy : x = y :=
        (hch.eq_of_prev hx hy (hxprev.trans (heq.trans hyprev.symm))).resolve_right hbreak
      exact eq_of_id hcons.wellKept.ids hb hc (hxid.symm.trans (hxy ▸ hyid))

/-- A batch with its file written and not yet sent. -/
theorem payload_chain_created :
    ∃ ls d p, (careful sampleConfig).Reach ls d p ∧ d.batches.map Batch.state = [.sending]
      ∧ ∀ b, (created ls)[0]? = some b → b.prev = zero32 := by
  have hstart : (careful sampleConfig).Reach [] { Disk.empty with queue := utf8Encode oneRecord }
    (load Disk.empty []) := reach_queue oneRecord rfl
  obtain ⟨ls, d, p, h, htest⟩ := reach_of_run (sampleCreate 7 "2026-01-01T00:00:00.000Z")
    (fun x => x.2.1.batches.map Batch.state = [.sending]) hstart sampleCreate_admissible
    (by decide +kernel)
  exact ⟨_, d, p, h, by simpa using htest, (payload_chain sampleConfig _ d p h).1⟩

/-- The answers after a restart that finds a batch in state `sending`: it is sent and mined, and
the next tick starts another one. -/
def sampleRestart : List Answer :=
  [.proceed, .proceed, .proceed, .proceed, .skip, .proceed,
    .mined 0 sampleInclusion (js "2026-01-01T00:00:03.000Z"), .skip, .proceed,
    .start [] [] 8 sampleSign 6 (js "2026-01-01T00:00:04.000Z")]

/-- The process dies after the batch file is written; the chain file still holds the genesis
value, and the next batch names it again. -/
theorem payload_chain_forks :
    ¬ ∀ ls d p, (writer sampleConfig).Reach ls d p →
      ∀ b ∈ d.batches, ∀ c ∈ d.batches, b.prev = c.prev → b = c := by
  intro hall
  let forked : List Label × Disk × Proc → Bool := fun x =>
    x.2.1.batches.any fun b => x.2.1.batches.any fun c => b.prev = c.prev ∧ b ≠ c
  obtain ⟨ls, d, p, h, htest⟩ := reach_of_run (sampleCreate 7 "2026-01-01T00:00:00.000Z")
    (fun x => (run sampleConfig anyStep sampleRestart x.2.1 (load x.2.1 x.2.1.batches)).any forked)
    (sample_queue oneRecord) sampleCreate_admissible (by decide +kernel)
  have hadm : ∀ a ∈ sampleRestart, ∀ d, a.Admissible sampleConfig d := by
    simp [sampleRestart, Answer.Admissible, sampleConfig]
  obtain ⟨ls', d', p', h', htest'⟩ := reach_of_run sampleRestart forked
    (h.crash ⟨trivial, rfl⟩ ⟨d.batches, List.Perm.refl _, rfl⟩) hadm htest
  obtain ⟨b, hb, hfork⟩ := List.any_eq_true.mp htest'
  obtain ⟨c, hc, hfork⟩ := List.any_eq_true.mp hfork
  obtain ⟨hprev, hne⟩ := of_decide_eq_true hfork
  exact hne (hall _ d' p' h'.of_restrict b hb c hc hprev)

end Ceiling

end BitGraph
