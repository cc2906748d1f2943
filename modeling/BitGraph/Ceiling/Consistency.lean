import BitGraph.Ceiling.Writer

/-!
Memory and disk of the ceiling writer agree on the batches.

* **Consistency.** `Consistent` says that the batch files are the batches in memory, one for
  each id, and that the batches `pollStatus` walks are open. Every move keeps it and every boot
  establishes it (`reach_consistent`).
* **Rule.** `reach_invariant` is crash recovery for the writer: an invariant is shown along the
  moves, in consistent states, with every run under a policy.
-/

namespace BitGraph

open Js

namespace Ceiling

/-! ### Batch files -/

lemma stored_id (b : Batch) : b.stored.id = b.id := rfl

lemma stored_stored (b : Batch) : b.stored.stored = b.stored := by
  simp [Batch.stored, Value.jsonForm_jsonForm, Function.comp_def]

lemma mem_setBatch {b x : Batch} {l : List Batch} :
    x ∈ setBatch b l ↔ x = b ∨ (x ∈ l ∧ x.id ≠ b.id) := by
  rw [setBatch]
  split
  · next h =>
      rw [List.any_eq_true] at h
      obtain ⟨y, hy, hid⟩ := h
      rw [List.mem_map]
      constructor
      · rintro ⟨z, hz, rfl⟩
        split
        · exact Or.inl rfl
        · next hne => exact Or.inr ⟨hz, hne⟩
      · rintro (rfl | ⟨hx, hne⟩)
        · exact ⟨y, hy, if_pos (by simpa using hid)⟩
        · exact ⟨x, hx, if_neg hne⟩
  · next h =>
      rw [List.mem_append, List.mem_singleton]
      constructor
      · rintro (hx | rfl)
        · exact Or.inr ⟨hx, fun hid => h (List.any_eq_true.mpr ⟨x, hx, by simpa using hid⟩)⟩
        · exact Or.inl rfl
      · rintro (rfl | ⟨hx, -⟩)
        · exact Or.inr rfl
        · exact Or.inl hx

lemma map_id_setBatch (b : Batch) (l : List Batch) : (setBatch b l).map Batch.id
    = if b.id ∈ l.map Batch.id then l.map Batch.id else l.map Batch.id ++ [b.id] := by
  have hany : (l.any fun x => x.id = b.id) = true ↔ b.id ∈ l.map Batch.id := by
    simp [List.any_eq_true, List.mem_map]
  by_cases h : b.id ∈ l.map Batch.id
  · rw [setBatch, if_pos (hany.mpr h), if_pos h, List.map_map]
    refine List.map_congr_left fun x _ => ?_
    by_cases hid : x.id = b.id
    · simp [hid]
    · simp [hid]
  · rw [setBatch, if_neg (hany.not.mpr h), if_neg h, List.map_append, List.map_singleton]

lemma nodup_setBatch {b : Batch} {l : List Batch} (h : (l.map Batch.id).Nodup) :
    ((setBatch b l).map Batch.id).Nodup := by
  rw [map_id_setBatch]
  split
  · exact h
  · next hb => exact List.Nodup.append h (List.nodup_singleton _) (by simpa using hb)

lemma map_stored_setBatch (b : Batch) (l : List Batch) :
    (setBatch b l).map Batch.stored = setBatch b.stored (l.map Batch.stored) := by
  have hany : ((l.map Batch.stored).any fun x => x.id = b.stored.id) = l.any fun x => x.id = b.id := by
    rw [List.any_map]
    rfl
  rw [setBatch, setBatch, hany]
  split
  · rw [List.map_map, List.map_map]
    refine List.map_congr_left fun x _ => ?_
    by_cases hid : x.id = b.id
    · simp [hid, stored_id]
    · simp [hid, stored_id]
  · rw [List.map_append, List.map_singleton]

lemma setBatch_perm {b : Batch} {l m : List Batch} (h : l.Perm m) :
    (setBatch b l).Perm (setBatch b m) := by
  have hany : (l.any fun x => x.id = b.id) = m.any fun x => x.id = b.id := by
    rw [Bool.eq_iff_iff, List.any_eq_true, List.any_eq_true]
    simp only [h.mem_iff]
  rw [setBatch, setBatch, hany]
  split
  · exact h.map _
  · exact h.append_right _

/-! ### Consistency -/

/-- Memory and disk agree on the batches, one for each id, and the batches `pollStatus` has
still to walk are open. -/
structure Consistent (d : Disk) (p : Proc) : Prop where
  ids : (p.batches.map Batch.id).Nodup
  same : (p.batches.map Batch.stored).Perm d.batches
  left : p.phase.left.Nodup
  opened : ∀ id ∈ p.phase.left, ∃ b ∈ p.batches, b.id = id ∧ b.isOpen = true

/-- The batch files are as they were written, one for each id. -/
structure Disk.WellKept (d : Disk) : Prop where
  ids : (d.batches.map Batch.id).Nodup
  kept : ∀ b ∈ d.batches, b.stored = b

variable {cfg : Config} {d d' : Disk} {p p' : Proc} {ls : List Label}

lemma eq_of_id {l : List Batch} (h : (l.map Batch.id).Nodup) {b c : Batch} (hb : b ∈ l)
    (hc : c ∈ l) (hid : b.id = c.id) : b = c :=
  List.inj_on_of_nodup_map h hb hc hid

lemma Consistent.mem_disk (h : Consistent d p) {b : Batch} :
    b ∈ d.batches ↔ ∃ x ∈ p.batches, x.stored = b := by
  rw [← h.same.mem_iff, List.mem_map]

lemma Consistent.pollsOpen (h : Consistent d p) : PollsOpen p := by
  intro id hid b hb
  obtain ⟨hmem, rfl⟩ := mem_of_batch? hb
  obtain ⟨c, hc, hcid, hopen⟩ := h.opened b.id hid
  rw [eq_of_id h.ids hmem hc hcid.symm]
  exact hopen

lemma Consistent.wellKept (h : Consistent d p) : d.WellKept where
  ids := by
    rw [← (h.same.map Batch.id).nodup_iff, List.map_map]
    exact h.ids
  kept b hb := by
    obtain ⟨x, -, rfl⟩ := h.mem_disk.mp hb
    exact stored_stored x

/-- Booting reads the batch files. -/
lemma Disk.WellKept.boot (h : d.WellKept) {batches : List Batch} (hp : batches.Perm d.batches) :
    Consistent d (load d batches) where
  ids := ((hp.map Batch.id).nodup_iff).mpr h.ids
  same := by
    rw [show (load d batches).batches = batches from rfl,
      List.map_congr_left (g := id) fun b hb => h.kept b (hp.mem_iff.mp hb), List.map_id]
    exact hp
  left := List.nodup_nil
  opened _ hid := absurd hid List.not_mem_nil

lemma Batch.Advances.id_eq {b b' : Batch} (h : b.Advances cfg b') : b'.id = b.id := by
  cases h <;> rfl

/-- A batch file is written, on disk and in memory. -/
lemma Consistent.saveBatch (h : Consistent d p) {b : Batch} {q : Phase} (hq : q.left.Nodup)
    (hopen : ∀ id ∈ q.left, id ≠ b.id ∧ ∃ x ∈ p.batches, x.id = id ∧ x.isOpen = true) :
    Consistent (d.saveBatch b) ((p.saveBatch b).at q) where
  ids := nodup_setBatch h.ids
  same := by
    show ((setBatch b p.batches).map Batch.stored).Perm (setBatch b.stored d.batches)
    rw [map_stored_setBatch]
    exact setBatch_perm h.same
  left := hq
  opened id hid := by
    obtain ⟨hne, x, hx, hxid, hxopen⟩ := hopen id hid
    exact ⟨x, mem_setBatch.mpr (Or.inr ⟨hx, hxid.trans_ne hne⟩), hxid, hxopen⟩

/-- The batches stay as they are. -/
lemma Consistent.keep (h : Consistent d p) (hd : d'.batches = d.batches)
    (hp : p'.batches = p.batches) (hl : p'.phase.left <:+ p.phase.left) : Consistent d' p' where
  ids := by rw [hp]; exact h.ids
  same := by rw [hp, hd]; exact h.same
  left := h.left.sublist hl.sublist
  opened id hid := by
    rw [hp]
    exact h.opened id (hl.subset hid)

lemma openBatches_opened (id : Str) (h : id ∈ openBatches p) :
    ∃ b ∈ p.batches, b.id = id ∧ b.isOpen = true := by
  obtain ⟨b, hb, rfl⟩ := List.mem_map.mp h
  obtain ⟨hmem, hopen⟩ := List.mem_filter.mp hb
  exact ⟨b, hmem, rfl, hopen⟩

/-- Every move keeps memory and disk consistent. -/
lemma Consistent.move (h : Consistent d p) (hm : Move cfg d p ls d' p') : Consistent d' p' := by
  cases hm with
  | append => exact h.keep rfl rfl List.suffix_rfl
  | forget | interrupt | ingest | cursor | unqueue | resume | broadcast =>
      exact h.keep rfl rfl List.nil_suffix
  | @chain b payload _ =>
      refine h.keep rfl rfl ?_
      have hnil : (saveChain cfg b payload d p).2.phase.left = [] := by
        simp only [saveChain]
        split <;> rfl
      rw [hnil]
      exact List.nil_suffix
  | requeue hp => exact h.keep rfl rfl (by rw [hp]; exact List.suffix_rfl)
  | pass _ _ hl =>
      rcases hl with hl | hl
      · exact h.keep rfl rfl hl
      · refine ⟨h.ids, h.same, ?_, ?_⟩
        · rw [show (p.at _).phase.left = openBatches p from hl]
          exact h.ids.sublist (List.filter_sublist.map Batch.id)
        · rw [show (p.at _).phase.left = openBatches p from hl]
          exact openBatches_opened
  | create => exact h.saveBatch List.nodup_nil fun id hid => absurd hid List.not_mem_nil
  | @update b b' q _ hb hadv _ hl =>
      have hleft := h.left
      have hopened := h.opened
      rcases hl with hl | hl
      · exact h.saveBatch (by rw [hl]; exact List.nodup_nil)
          fun id hid => absurd (hl ▸ hid) List.not_mem_nil
      · rw [hl] at hleft hopened
        obtain ⟨hnot, hnodup⟩ := List.nodup_cons.mp hleft
        refine h.saveBatch hnodup fun id hid => ⟨?_, hopened id (List.mem_cons_of_mem _ hid)⟩
        rw [hadv.id_eq]
        rintro rfl
        exact hnot hid

/-! ### Runs -/

/-- **Consistency** in every state of every run. -/
theorem reach_consistent (h : (writer cfg).Reach ls d p) : Consistent d p := by
  refine h.recover (D := fun _ d => d.WellKept) (I := fun _ d p => Consistent d p) ?_ ?_ ?_ ?_
  · rintro d rfl
    exact ⟨List.nodup_nil, fun b hb => absurd hb List.not_mem_nil⟩
  · rintro _ d p hd ⟨batches, hp, rfl⟩
    exact hd.boot hp
  · rintro _ d p _ d' p' hc ⟨a, ha, hs⟩
    exact hc.move (step_move hc.pollsOpen ha hs)
  · exact fun _ _ _ hc _ => hc.wellKept

/-- A step of a run is a move. -/
lemma reach_move (h : (writer cfg).Reach ls d p) {new : List Label}
    (hs : (writer cfg).step d p new d' p') : Move cfg d p new d' p' := by
  obtain ⟨a, ha, hstep⟩ := hs
  exact step_move (reach_consistent h).pollsOpen ha hstep

/-- **Crash recovery for the writer**, under a policy for steps and crashes. -/
theorem reach_invariant {okStep : Disk → Proc → List Label → Disk → Proc → Bool}
    {okDie : Proc → Bool} {D : List Label → Disk → Prop}
    {I : List Label → Disk → Proc → Prop} (hfresh : D [] Disk.empty)
    (hboot : ∀ ls d batches, D ls d → d.WellKept → batches.Perm d.batches →
      I ls d (load d batches))
    (hmove : ∀ ls d p new d' p', I ls d p → Consistent d p → Move cfg d p new d' p' →
      okStep d p new d' p' → I (ls ++ new) d' p')
    (hdies : ∀ ls d p, I ls d p → Consistent d p → okDie p → D ls d)
    (h : (supervised cfg okStep okDie).Reach ls d p) : I ls d p := by
  refine (h.recover (D := fun ls d => D ls d ∧ d.WellKept)
    (I := fun ls d p => I ls d p ∧ Consistent d p) ?_ ?_ ?_ ?_).1
  · rintro d rfl
    exact ⟨hfresh, List.nodup_nil, fun b hb => absurd hb List.not_mem_nil⟩
  · rintro ls d p ⟨hD, hd⟩ ⟨batches, hp, rfl⟩
    exact ⟨hboot ls d batches hD hd hp, hd.boot hp⟩
  · rintro ls d p new d' p' ⟨hI, hc⟩ ⟨⟨a, ha, hs⟩, hok⟩
    have hm := step_move hc.pollsOpen ha hs
    exact ⟨hmove ls d p new d' p' hI hc hm hok, hc.move hm⟩
  · rintro ls d p ⟨hI, hc⟩ ⟨-, hok⟩
    exact ⟨hdies ls d p hI hc hok, hc.wellKept⟩

/-! ### Runs under fixed answers -/

variable {okStep : Disk → Proc → List Label → Disk → Proc → Bool} {okDie : Proc → Bool}

/-- A writer started on a queue file that is there already. -/
lemma reach_queue (queue : Str)
    (hok : okStep Disk.empty (load Disk.empty []) [] { Disk.empty with queue := utf8Encode queue }
      (load Disk.empty []) = true) :
    (supervised cfg okStep okDie).Reach [] { Disk.empty with queue := utf8Encode queue }
      (load Disk.empty []) := by
  have hstart : (supervised cfg okStep okDie).Reach [] Disk.empty (load Disk.empty []) :=
    .start rfl ⟨[], List.Perm.nil, rfl⟩
  have htext : CutText (Disk.empty.queue ++ utf8Encode queue) :=
    ⟨scalars queue, fun c hc => isScalar_of_mem_scalars hc, List.prefix_rfl⟩
  exact .step hstart ⟨⟨.append (utf8Encode queue), htext, step_append _⟩, hok⟩

/-- Answers that are admissible on every disk lead along a run. -/
lemma reach_run {as : List Answer} {new : List Label} (h : (supervised cfg okStep okDie).Reach ls d p)
    (ha : ∀ a ∈ as, ∀ d, a.Admissible cfg d) (hr : run cfg okStep as d p = some (new, d', p')) :
    (supervised cfg okStep okDie).Reach (ls ++ new) d' p' := by
  induction as generalizing ls d p new with
  | nil =>
      cases hr
      rwa [List.append_nil]
  | cons a as ih =>
      simp only [run, Option.bind_eq_bind, Option.bind_eq_some_iff] at hr
      obtain ⟨⟨new, d₁, p₁⟩, hs, hr⟩ := hr
      split at hr
      · next hok =>
          obtain ⟨⟨rest, d₂, p₂⟩, hrest, heq⟩ := Option.bind_eq_some_iff.mp hr
          cases heq
          rw [← List.append_assoc]
          exact ih (h.step ⟨⟨a, ha a (by simp) d, hs⟩, hok⟩) (fun b hb => ha b (by simp [hb])) hrest
      · cases hr

/-- A run that passes a test, as a run. -/
lemma reach_of_run (as : List Answer) (test : List Label × Disk × Proc → Bool)
    (h : (supervised cfg okStep okDie).Reach ls d p) (ha : ∀ a ∈ as, ∀ d, a.Admissible cfg d)
    (hr : (run cfg okStep as d p).any test = true) :
    ∃ new d' p', (supervised cfg okStep okDie).Reach (ls ++ new) d' p'
      ∧ test (new, d', p') = true := by
  obtain ⟨⟨new, d', p'⟩, hrun, htest⟩ := (Option.any_eq_true _ _).mp hr
  exact ⟨new, d', p', reach_run h ha hrun, htest⟩

/-- A chain that signs with the nonce and the number of attempts. -/
def sampleSign (_ : Bytes) (nonce bump : ℕ) : Signed :=
  ⟨decimal nonce ++ 46 :: decimal bump, decimal nonce ++ 46 :: decimal bump, decimal bump, decimal bump⟩

/-- A writer that starts a batch as soon as records are queued. -/
def sampleConfig : Config where
  H := sha256
  rollRoot := false
  replaceAfterBlocks := 3
  dateParse _ := none
  toLowerCase := id
  signs data nonce bump s := s = sampleSign data nonce bump

/-- The sample writer on a queue file, under no policy. -/
lemma sample_queue (queue : Str) : (supervised sampleConfig anyStep fun _ => true).Reach []
    { Disk.empty with queue := utf8Encode queue } (load Disk.empty []) :=
  reach_queue queue rfl

/-- The queue line of one record. -/
def sampleLine (proofHash position : String) : Str :=
  js "\x7b\"proofHash\":\"" ++ js proofHash ++ js "\",\"position\":\"" ++ js position
    ++ js "\",\"epochId\":\"e\",\"chainId\":\"c\"\x7d\n"

/-- A queue file with one record. -/
def oneRecord : Str := sampleLine "AAAAAAAAAAAAAAAAAAAAAAAAAAAAAAAAAAAAAAAAAAA=" "1"

/-- Where a transaction is mined. -/
def sampleInclusion : Inclusion :=
  ⟨5, js "0xaa", 100, [], 0, [], ⟨[], [], [], []⟩⟩

/-- The answers from reading a queue file to the file of a batch in state `sending`. -/
def sampleCreate (nonce : ℕ) (now : String) : List Answer :=
  [.proceed, .proceed, .start [] [] nonce sampleSign 1 (js now)]

/-- The answers from there to the end of the tick. -/
def sampleSend : List Answer := [.proceed, .proceed, .proceed, .proceed, .skip]

lemma sampleCreate_admissible {nonce : ℕ} {now : String} :
    ∀ a ∈ sampleCreate nonce now, ∀ d, a.Admissible sampleConfig d := by
  simp [sampleCreate, Answer.Admissible, sampleConfig]

end Ceiling

end BitGraph
