import BitGraph.Recovery.Queue
import BitGraph.Recovery.Complete
import BitGraph.Lib.Since

/-!
The counters of the recovery queue, and the direction of progress.

* **Bits.** `HasBits a b`: every bit of `a` is in `b`. A resolved side stays resolved.
* **Counters.** `recounted_eq` reads `recount` as three counts over the members, and
  `recounted_setBits` says what one byte changes in them.
* **Jobs.** `Moves` says once what the code does to a job; `Sound` is kept by every move, and
  progress grows (`Moved.hasBits`).
* **Runs.** `counts_exact`: in every run the counters of every job of every tab are those of a
  recount, the stored progress grows until the job is forgotten, and no step takes a bit from a job
  in memory.
-/

namespace BitGraph.RecoveryQueue

open Js Recovery

/-! ### Bits -/

/-- Every bit of `a` is a bit of `b`. -/
def ByteHasBits (a b : UInt8) : Prop := a ||| b = b

/-- Every bit of `a` is a bit of `b`, byte by byte. -/
def HasBits (a b : Bytes) : Prop := ∀ i, ByteHasBits (a.getD i 0) (b.getD i 0)

section Bits

variable {a b c : UInt8} {side : RecoverySide}

lemma ByteHasBits.refl (a : UInt8) : ByteHasBits a a := UInt8.or_self

lemma ByteHasBits.trans (h : ByteHasBits a b) (h' : ByteHasBits b c) : ByteHasBits a c := by
  rw [ByteHasBits] at h h' ⊢
  rw [← h', ← UInt8.or_assoc, h]

lemma hasBits_or_left (a b : UInt8) : ByteHasBits a (a ||| b) := by
  rw [ByteHasBits, ← UInt8.or_assoc, UInt8.or_self]

lemma hasBits_or_right (a b : UInt8) : ByteHasBits b (a ||| b) := by
  rw [UInt8.or_comm]
  exact hasBits_or_left b a

/-- A mask that is in a byte is in every byte with its bits. -/
lemma ByteHasBits.and_eq (h : ByteHasBits a b) {mask : UInt8} (ha : a &&& mask = mask) :
    b &&& mask = mask := by
  have hmask : ∀ x : UInt8, (x ||| mask) &&& mask = mask := by
    intro x
    apply UInt8.toBitVec_inj.mp
    apply BitVec.eq_of_getLsbD_eq
    intro i hi
    simp only [UInt8.toBitVec_and, UInt8.toBitVec_or, BitVec.getLsbD_and, BitVec.getLsbD_or]
    cases mask.toBitVec.getLsbD i <;> simp
  have hb : b ||| mask = b := by
    have hmaskb : ByteHasBits mask b := by
      refine ByteHasBits.trans ?_ h
      rw [ByteHasBits, ← ha]
      apply UInt8.toBitVec_inj.mp
      apply BitVec.eq_of_getLsbD_eq
      intro i hi
      simp only [UInt8.toBitVec_and, UInt8.toBitVec_or, BitVec.getLsbD_and, BitVec.getLsbD_or]
      cases a.toBitVec.getLsbD i <;> simp
    rw [UInt8.or_comm]
    exact hmaskb
  rw [← hb]
  exact hmask b

/-- A resolved side stays resolved. -/
lemma ByteHasBits.resolved (h : ByteHasBits a b) (ha : recoverySideResolved a side = true) :
    recoverySideResolved b side = true := by
  rw [recoverySideResolved, decide_eq_true_eq] at ha ⊢
  rw [recoverySideState] at ha ⊢
  by_cases hkept : a &&& (RECOVERY_SIDE_BITS side).kept = (RECOVERY_SIDE_BITS side).kept
  · rw [if_pos (h.and_eq hkept)]
    exact nofun
  · rw [if_neg hkept] at ha
    by_cases hblocked : a &&& (RECOVERY_SIDE_BITS side).blocked = (RECOVERY_SIDE_BITS side).blocked
    · rw [if_pos (h.and_eq hblocked)]
      split <;> exact nofun
    · rw [if_neg hblocked] at ha
      exact absurd rfl ha

lemma HasBits.refl (p : Bytes) : HasBits p p := fun _ => .refl _

lemma HasBits.trans {p q r : Bytes} (h : HasBits p q) (h' : HasBits q r) : HasBits p r :=
  fun i => (h i).trans (h' i)

/-- What is stored is in what the merge stores. -/
lemma hasBits_mergeProgressBytes (stored incoming : Bytes) :
    HasBits stored (mergeProgressBytes (some stored) incoming) := by
  intro i
  rw [mergeProgressBytes, Option.getD_some]
  by_cases hi : i < max stored.length incoming.length
  · rw [@List.getD_eq_getElem?_getD _ (List.map _ _), List.getElem?_map, List.getElem?_range hi, Option.map_some,
      Option.getD_some]
    exact hasBits_or_left _ _
  · have hnone : stored.getD i 0 = 0 := List.getD_eq_default _ _ (by omega)
    rw [hnone]
    exact UInt8.zero_or

end Bits

/-! ### Counters -/

section Counters

variable {job : LiveJob} {index : ℕ} {add : UInt8}

/-- How many members have a property. -/
def members (n : ℕ) (p : ℕ → Bool) : ℤ := ((List.range n).countP p : ℕ)

/-- Two properties that differ at one member. -/
lemma members_update {n i : ℕ} {p q : ℕ → Bool} (hi : i < n) (h : ∀ j, j ≠ i → q j = p j) :
    members n q = members n p + (if q i then 1 else 0) - (if p i then 1 else 0) := by
  induction n with
  | zero => exact absurd hi (Nat.not_lt_zero i)
  | succ n ih =>
      have hsucc : ∀ r : ℕ → Bool, members (n + 1) r = members n r + if r n then 1 else 0 := by
        intro r
        rw [members, members, List.range_succ, List.countP_append, List.countP_singleton]
        split <;> simp
      rw [hsucc, hsucc]
      rcases Nat.lt_succ_iff_lt_or_eq.mp hi with hlt | rfl
      · rw [ih hlt, h n (by omega)]
        omega
      · have heq : members i q = members i p := by
          rw [members, members]
          refine congrArg Nat.cast (List.countP_congr fun j hj => ?_)
          rw [h j (by have := List.mem_range.mp hj; omega)]
        rw [heq]
        omega

lemma members_mono {n : ℕ} {p q : ℕ → Bool} (h : ∀ i, p i = true → q i = true) :
    members n p ≤ members n q :=
  Int.ofNat_le.mpr (List.countP_mono_left fun i _ => h i)

lemma members_nonneg (n : ℕ) (p : ℕ → Bool) : 0 ≤ members n p := Int.natCast_nonneg _

/-- The record is one that `recount` counts open members of. -/
def Record.working (r : Record) : Bool := r.keep && !r.done && r.leaves.isSome

/-- One round of a loop that counts. -/
lemma count_cons (c : ℤ) (p : ℕ → Bool) (i : ℕ) (l : List ℕ) :
    (if p i = true then c + 1 else c) + ((l.countP p : ℕ) : ℤ) = c + ((i :: l).countP p : ℕ) := by
  rw [List.countP_cons]
  split <;> push_cast <;> omega

/-- `recount` is three counts over the members. -/
lemma recounted_eq (job : LiveJob) : job.recounted =
    ⟨members job.record.count fun i => recoveryMemberStatus (job.progress.getD i 0) = .recoverable,
      members job.record.count fun i => recoveryMemberStatus (job.progress.getD i 0) = .blocked,
      members job.record.count fun i =>
        job.record.working && job.isUnresolved i (job.progress.getD i 0)⟩ := by
  have key : ∀ (l : List ℕ) (c : Counts), l.foldl job.countMember c =
      ⟨c.recoverable + (l.countP fun i =>
          recoveryMemberStatus (job.progress.getD i 0) = .recoverable : ℕ),
        c.blocked + (l.countP fun i => recoveryMemberStatus (job.progress.getD i 0) = .blocked : ℕ),
        c.unresolved + (l.countP fun i =>
          job.record.working && job.isUnresolved i (job.progress.getD i 0) : ℕ)⟩ := by
    intro l
    induction l with
    | nil =>
        intro c
        simp
    | cons i l ih =>
        intro c
        rw [List.foldl_cons, ih, ← count_cons, ← count_cons, ← count_cons]
        simp only [decide_eq_true_eq, Record.working]
        rfl
  rw [LiveJob.recounted, key, Int.zero_add, Int.zero_add, Int.zero_add]
  rfl

/-- A recount looks at the count, at what is open, at the sides and at the bytes. -/
lemma recounted_congr {job job' : LiveJob} (hcount : job'.record.count = job.record.count)
    (hworking : job'.record.working = job.record.working)
    (hsides : job.record.working = true → ∀ i, job'.sidesOf i = job.sidesOf i)
    (hprogress : job'.progress = job.progress) : job'.recounted = job.recounted := by
  rw [recounted_eq, recounted_eq, hcount, hprogress, hworking]
  congr 3
  funext i
  by_cases hw : job.record.working = true
  · rw [LiveJob.isUnresolved, LiveJob.isUnresolved, hsides hw]
  · rw [Bool.eq_false_iff.mpr hw, Bool.false_and, Bool.false_and]

/-- More bits leave no more members open. -/
lemma isUnresolved_anti {i : ℕ} {a b : UInt8} (h : ByteHasBits a b)
    (hb : job.isUnresolved i b = true) : job.isUnresolved i a = true := by
  rw [LiveJob.isUnresolved, List.any_eq_true] at hb ⊢
  obtain ⟨side, hside, hpending⟩ := hb
  refine ⟨side, hside, ?_⟩
  rw [Bool.not_eq_true'] at hpending ⊢
  by_contra hres
  rw [h.resolved (Bool.not_eq_false _ ▸ hres)] at hpending
  exact nomatch hpending

end Counters

/-! ### Jobs -/

/-- A record holds the list exactly while the job has work. -/
def RecordOk (leaves : Bytes) (r : Record) : Prop :=
  r.leaves = if r.keep && !r.done then some leaves else none

/-- A job whose counters are those of a recount, with a byte for every member. -/
structure Sound (leaves : Bytes) (job : LiveJob) : Prop where
  counts : job.counts = job.recounted
  length : job.progress.length = job.record.count
  record : RecordOk leaves job.record
  tree : ∀ l ∈ job.tree, l = leaves ∧ job.record.leaves.isSome = true

/-- What a step keeps of a job. -/
structure Kept (job job' : LiveJob) : Prop where
  bits : HasBits job.progress job'.progress
  length : job'.progress.length = job.progress.length
  resolved : job.counts.unresolved = 0 → job'.counts.unresolved = 0

section Jobs

variable {leaves : Bytes} {job job' job'' : LiveJob} {env : Env}

lemma Kept.refl (job : LiveJob) : Kept job job := ⟨.refl _, rfl, id⟩

lemma Kept.trans (h : Kept job job') (h' : Kept job' job'') : Kept job job'' :=
  ⟨h.bits.trans h'.bits, h'.length.trans h.length, h'.resolved ∘ h.resolved⟩

lemma RecordOk.working_leaves {r : Record} (h : RecordOk leaves r) (hw : r.working = true) :
    r.leaves = some leaves := by
  rw [Record.working, Bool.and_eq_true] at hw
  rw [h, if_pos hw.1]

/-- An open job has the sides of the list, whether its tree is rebuilt or not. -/
lemma Sound.sidesOf (h : Sound leaves job) (hw : job.record.working = true) (i : ℕ) :
    job.sidesOf i = recoverySidesOf leaves i := by
  rw [LiveJob.sidesOf, h.record.working_leaves hw]
  cases htree : job.tree with
  | none => rfl
  | some l =>
      obtain ⟨rfl, -⟩ := h.tree l htree
      rfl

/-- A job without work has no sides to write. -/
lemma Sound.sidesOf_closed (h : Sound leaves job) (hw : job.record.working = false) (i : ℕ) :
    job.sidesOf i = [] := by
  have hnone : job.record.leaves = none := by
    have hok := h.record
    rw [RecordOk] at hok
    rw [Record.working, hok] at hw
    split at hok
    · next hopen =>
        rw [if_pos hopen, hopen] at hw
        exact nomatch hw
    · exact hok
  have htree : job.tree = none := by
    refine Option.eq_none_iff_forall_not_mem.mpr fun l hl => ?_
    have := (h.tree l hl).2
    rw [hnone] at this
    exact nomatch this
  rw [LiveJob.sidesOf, htree, hnone]
  rfl

/-- Fields that no counter reads. -/
lemma Sound.frame (h : Sound leaves job) (broken dirty : Bool) (cursor : ℕ) :
    Sound leaves { job with broken := broken, dirty := dirty, cursor := cursor } :=
  ⟨h.counts, h.length, h.record, h.tree⟩

lemma Kept.frame (job : LiveJob) (broken dirty : Bool) (cursor : ℕ) :
    Kept job { job with broken := broken, dirty := dirty, cursor := cursor } :=
  ⟨.refl _, rfl, id⟩

/-- An empty list rebuilds nothing. -/
lemma rebuilds_nil (env : Env) : env.rebuilds [] = false := by
  rw [Env.rebuilds, recoveryTreeFromParts]
  split
  · rfl
  · rfl
  · rfl
  · split
    · rfl
    · rfl

lemma Sound.treeOf (h : Sound env.parts.leaves job) :
    Sound env.parts.leaves (job.treeOf env) ∧ Kept job (job.treeOf env) := by
  rw [LiveJob.treeOf]
  split
  · exact ⟨h, .refl job⟩
  · dsimp only
    split
    · next hrebuilds =>
        cases hleaves : job.record.leaves with
        | none =>
            rw [hleaves, Option.getD_none, rebuilds_nil] at hrebuilds
            exact nomatch hrebuilds
        | some l =>
            have hl : l = env.parts.leaves := by
              have hok := h.record
              rw [RecordOk, hleaves] at hok
              split at hok
              · exact Option.some.inj hok
              · exact nomatch hok
            rw [Option.getD_some]
            refine ⟨⟨?_, h.length, h.record, ?_⟩, .refl _, rfl, id⟩
            · refine h.counts.trans (Eq.symm ?_)
              refine @recounted_congr job _ rfl rfl (fun hw i => ?_) rfl
              rw [h.sidesOf hw, LiveJob.sidesOf, Option.some_or, hl]
            · rintro _ ⟨⟩
              exact ⟨hl, by rw [hleaves]; rfl⟩
    · exact ⟨h.frame true _ _, .frame job true _ _⟩

lemma moveCount_eq (s0 s1 s : RecoveryMemberStatus) (n : ℤ) :
    LiveJob.moveCount s0 s1 s n = n + (if s1 = s then 1 else 0) - (if s0 = s then 1 else 0) := by
  rw [LiveJob.moveCount]
  cases s0 <;> cases s1 <;> cases s <;> simp

lemma getD_set {p : Bytes} {i j : ℕ} {v : UInt8} (hi : i < p.length) :
    (p.set i v).getD j 0 = if j = i then v else p.getD j 0 := by
  rw [@List.getD_eq_getElem?_getD _ (p.set i v), List.getElem?_set]
  by_cases h : i = j
  · subst h
    rw [if_pos rfl, if_pos rfl, if_pos hi, Option.getD_some]
  · rw [if_neg h, if_neg (Ne.symm h), List.getD_eq_getElem?_getD]

/-- One byte changes, and the counters with it. -/
lemma Sound.setBits (h : Sound leaves job) {index : ℕ} (hindex : index < job.progress.length)
    (add : UInt8) :
    Sound leaves (job.setBits index add) ∧ Kept job (job.setBits index add) := by
  rw [LiveJob.setBits]
  dsimp only
  split
  · exact ⟨h, .refl job⟩
  have hcount : index < job.record.count := h.length ▸ hindex
  have hgrows : ByteHasBits (job.progress.getD index 0) (job.progress.getD index 0 ||| add) :=
    hasBits_or_left _ _
  have hbits : HasBits job.progress
      (job.progress.set index (job.progress.getD index 0 ||| add)) := by
    intro j
    rw [getD_set hindex]
    split
    · next hj => rw [hj]; exact hgrows
    · exact .refl _
  have hstatus : ∀ s, members job.record.count (fun i =>
      recoveryMemberStatus ((job.progress.set index (job.progress.getD index 0 ||| add)).getD i 0) = s)
      = LiveJob.moveCount (recoveryMemberStatus (job.progress.getD index 0))
        (recoveryMemberStatus (job.progress.getD index 0 ||| add)) s
        (members job.record.count fun i => recoveryMemberStatus (job.progress.getD i 0) = s) := by
    intro s
    rw [moveCount_eq, @members_update _ index
      (fun i => recoveryMemberStatus (job.progress.getD i 0) = s) _ hcount]
    · simp only [getD_set hindex, if_true, decide_eq_true_eq]
    · intro j hj
      rw [getD_set hindex, if_neg hj]
  have hopen : members job.record.count (fun i => job.record.working && job.isUnresolved i
      ((job.progress.set index (job.progress.getD index 0 ||| add)).getD i 0))
      = if job.isUnresolved index (job.progress.getD index 0)
          && !job.isUnresolved index (job.progress.getD index 0 ||| add) then
        members job.record.count (fun i =>
          job.record.working && job.isUnresolved i (job.progress.getD i 0)) - 1
        else members job.record.count fun i =>
          job.record.working && job.isUnresolved i (job.progress.getD i 0) := by
    rw [@members_update _ index
      (fun i => job.record.working && job.isUnresolved i (job.progress.getD i 0)) _ hcount]
    · rw [getD_set hindex, if_pos rfl]
      have hanti := @isUnresolved_anti job index _ _ hgrows
      cases hw : job.record.working with
      | false =>
          have hbefore : job.isUnresolved index (job.progress.getD index 0) = false := by
            rw [LiveJob.isUnresolved, h.sidesOf_closed hw]
            rfl
          simp only [hbefore, Bool.false_and, Bool.false_eq_true, if_false]
          omega
      | true =>
          cases hbefore : job.isUnresolved index (job.progress.getD index 0) <;>
            cases hafter : job.isUnresolved index (job.progress.getD index 0 ||| add) <;>
            simp_all
    · intro j hj
      rw [getD_set hindex, if_neg hj]
  have hbefore := h.counts.trans (recounted_eq job)
  refine ⟨⟨?_, by rw [List.length_set, h.length], h.record, h.tree⟩, hbits, List.length_set, ?_⟩
  · rw [recounted_eq]
    dsimp only
    rw [hstatus, hstatus, hbefore]
    exact congrArg (Counts.mk _ _) hopen.symm
  · intro hzero
    dsimp only
    rw [hzero]
    rw [hbefore] at hzero
    dsimp only at hzero
    have hle := members_nonneg job.record.count fun i => job.record.working && job.isUnresolved i
      ((job.progress.set index (job.progress.getD index 0 ||| add)).getD i 0)
    rw [hopen, hzero] at hle
    split
    · next hc =>
        rw [if_pos hc] at hle
        omega
    · rfl

/-- The bytes of another tab are taken, and counted where they are new. -/
lemma Sound.takeProgress (h : Sound leaves job) (merged : Bytes) :
    Sound leaves (job.takeProgress merged) ∧ Kept job (job.takeProgress merged) := by
  rw [LiveJob.takeProgress]
  have hlen : (job.progress.mapIdx fun i b =>
      if i < job.record.count then merged.getD i 0 ||| b else b).length = job.progress.length :=
    List.length_mapIdx
  have hbits : HasBits job.progress (job.progress.mapIdx fun i b =>
      if i < job.record.count then merged.getD i 0 ||| b else b) := by
    intro i
    rw [@List.getD_eq_getElem?_getD _ (List.mapIdx _ _), List.getElem?_mapIdx,
      List.getD_eq_getElem?_getD]
    cases job.progress[i]? with
    | none => exact .refl _
    | some b =>
        rw [Option.map_some, Option.getD_some, Option.getD_some]
        split
        · exact hasBits_or_right _ _
        · exact .refl _
  split
  · next heq =>
      refine ⟨⟨?_, hlen.trans h.length, h.record, h.tree⟩, hbits, hlen, id⟩
      refine h.counts.trans (Eq.symm ?_)
      exact @recounted_congr job _ rfl rfl (fun _ _ => rfl) heq
  · refine ⟨⟨rfl, hlen.trans h.length, h.record, h.tree⟩, hbits, hlen, fun hzero => ?_⟩
    rw [h.counts, recounted_eq] at hzero
    dsimp only at hzero
    rw [LiveJob.recount, recounted_eq]
    dsimp only
    refine le_antisymm (hzero ▸ members_mono fun i hi => ?_) (members_nonneg _ _)
    rw [Bool.and_eq_true] at hi ⊢
    exact ⟨hi.1, isUnresolved_anti (hbits i) hi.2⟩

/-- A job that is done has nothing open. -/
lemma Sound.markDone (h : Sound leaves job) (hzero : job.counts.unresolved = 0) :
    Sound leaves job.markDone ∧ Kept job job.markDone := by
  refine ⟨⟨?_, h.length, ?_, nofun⟩, .refl _, rfl, id⟩
  · have hbefore := h.counts.trans (recounted_eq job)
    have hclosed : job.markDone.record.working = false := by
      rw [Record.working, LiveJob.markDone]
      simp
    have hopen : members job.markDone.record.count (fun i => job.markDone.record.working
        && job.markDone.isUnresolved i (job.markDone.progress.getD i 0)) = 0 := by
      rw [hclosed]
      simp [members]
    rw [recounted_eq, hopen]
    rw [hbefore] at hzero
    dsimp only at hzero
    rw [hzero] at hbefore
    exact hbefore
  · rw [RecordOk, LiveJob.markDone]
    simp

/-- Salts are not counted. -/
lemma Sound.setSalts (h : Sound leaves job) (salts : Salts) :
    Sound leaves (job.setSalts salts) ∧ Kept job (job.setSalts salts) :=
  ⟨⟨h.counts.trans (@recounted_congr job _ rfl rfl (fun _ _ => rfl) rfl).symm, h.length, h.record,
    h.tree⟩, .refl _, rfl, id⟩

lemma Sound.takeSalts (h : Sound leaves job) (r : Record) :
    Sound leaves (job.takeSalts r) ∧ Kept job (job.takeSalts r) := by
  rw [LiveJob.takeSalts]
  split
  · exact ⟨h, .refl job⟩
  · exact h.setSalts _

/-- A job that has just been adopted, with the tree of a call that brings the list. -/
lemma sound_adopt {r : Record} (h : RecordOk leaves r) (saved : Option Bytes) (persisted : Bool)
    {tree : Option Bytes} (htree : ∀ l ∈ tree, l = leaves ∧ r.leaves.isSome = true) :
    Sound leaves { LiveJob.adopt r saved persisted with tree := tree } := by
  have hlen : (LiveJob.adopt r saved persisted).progress.length = r.count := by
    simp [LiveJob.adopt, LiveJob.recount]
  have hplain : Sound leaves (LiveJob.adopt r saved persisted) :=
    ⟨rfl, hlen, h, (by rintro l ⟨⟩)⟩
  refine ⟨hplain.counts.trans (Eq.symm ?_), hlen, h, htree⟩
  refine @recounted_congr (LiveJob.adopt r saved persisted) _ rfl rfl (fun hw i => ?_) rfl
  rw [hplain.sidesOf hw, LiveJob.sidesOf]
  cases htree' : tree with
  | none =>
      rw [Option.none_or,
        show (LiveJob.adopt r saved persisted).record.leaves = some leaves from h.working_leaves hw]
  | some l =>
      obtain ⟨rfl, -⟩ := htree l htree'
      rfl

end Jobs

/-! ### Tabs -/

/-- Every job of `jobs` is still there, and kept. -/
def Grown (jobs jobs' : List LiveJob) : Prop :=
  ∀ (o : ℕ) (job : LiveJob), jobs[o]? = some job → ∃ job', jobs'[o]? = some job' ∧ Kept job job'

/-- What a step makes of the jobs of a tab: all sound, and the old ones kept. -/
structure Good (leaves : Bytes) (jobs jobs' : List LiveJob) : Prop where
  sound : ∀ job ∈ jobs', Sound leaves job
  grown : Grown jobs jobs'

/-- The index is one of a member of job `o`. -/
def Bound (jobs : List LiveJob) (o index : ℕ) : Prop :=
  ∃ job, jobs[o]? = some job ∧ index < job.progress.length

def OpOk (leaves : Bytes) : Op → Prop
  | .saveJob r _ | .addJob r => RecordOk leaves r
  | _ => True

def AnswerOk (leaves : Bytes) : Answer → Prop
  | .record r _ => ∀ r' ∈ r, RecordOk leaves r'
  | _ => True

/-- A record that a call carries is sound, and `finish` runs on a job with nothing open. -/
def ContOk (leaves : Bytes) (jobs : List LiveJob) : Cont → Prop
  | .loadProgress r | .refreshProgress r | .enqueueAdd _ _ r | .enqueueSave _ _ r =>
      RecordOk leaves r
  | .persist o .finish => ∃ job, jobs[o]? = some job ∧ job.counts.unresolved = 0
  | _ => True

def WaitOk (leaves : Bytes) (jobs : List LiveJob) : Wait → Prop
  | .asked op k => OpOk leaves op ∧ ContOk leaves jobs k
  | .answered a k => AnswerOk leaves a ∧ ContOk leaves jobs k
  | .looping => True
  | .sealing o _ writes | .posting o _ writes => ∀ w ∈ writes, Bound jobs o w.index
  | .applying o writes toSalt =>
      (∀ w ∈ writes, Bound jobs o w.index) ∧ ∀ s ∈ toSalt, Bound jobs o s.1
  | .choosing o sides _ => ∀ s ∈ sides, Bound jobs o s.1

/-- What the code behind a wait leaves. -/
structure Follows (leaves : Bytes) (jobs : List LiveJob) (next : Tab × Option Wait) : Prop where
  good : Good leaves jobs next.1.objects
  wait : ∀ w ∈ next.2, WaitOk leaves next.1.objects w

section Tabs

variable {leaves : Bytes} {env : Env} {jobs jobs' jobs'' : List LiveJob} {tab tab' : Tab}
  {next : Tab × Option Wait} {o index : ℕ} {save : Bool} {f : LiveJob → LiveJob}

lemma Grown.refl (jobs : List LiveJob) : Grown jobs jobs := fun _ job h => ⟨job, h, .refl job⟩

lemma Grown.trans (h : Grown jobs jobs') (h' : Grown jobs' jobs'') : Grown jobs jobs'' := by
  intro o job ho
  obtain ⟨job', ho', hkept⟩ := h o job ho
  obtain ⟨job'', ho'', hkept'⟩ := h' o job' ho'
  exact ⟨job'', ho'', hkept.trans hkept'⟩

lemma Good.refl (h : ∀ job ∈ jobs, Sound leaves job) : Good leaves jobs jobs := ⟨h, .refl jobs⟩

lemma Good.trans (h : Good leaves jobs jobs') (h' : Good leaves jobs' jobs'') :
    Good leaves jobs jobs'' := ⟨h'.sound, h.grown.trans h'.grown⟩

/-- One job goes on. -/
lemma Good.modify (h : ∀ job ∈ jobs, Sound leaves job)
    (hf : ∀ job, jobs[o]? = some job → Sound leaves (f job) ∧ Kept job (f job)) :
    Good leaves jobs (jobs.modify o f) := by
  constructor
  · intro job hjob
    obtain ⟨i, hi⟩ := List.mem_iff_getElem?.mp hjob
    rw [List.getElem?_modify] at hi
    obtain ⟨old, hold, rfl⟩ := Option.map_eq_some_iff.mp hi
    split
    · next hoi => exact (hf old (hoi ▸ hold)).1
    · exact h old (List.mem_of_getElem? hold)
  · intro i job hi
    rw [List.getElem?_modify, hi]
    refine ⟨_, rfl, ?_⟩
    split
    · next hoi => exact (hf job (hoi ▸ hi)).2
    · exact .refl job

/-- A job more. -/
lemma Good.snoc (h : ∀ job ∈ jobs, Sound leaves job) {job : LiveJob} (hjob : Sound leaves job) :
    Good leaves jobs (jobs ++ [job]) := by
  constructor
  · intro x hx
    rcases List.mem_append.mp hx with hx | hx
    · exact h x hx
    · rw [List.mem_singleton.mp hx]
      exact hjob
  · intro i x hi
    refine ⟨x, ?_, .refl x⟩
    rw [List.getElem?_append_left (List.getElem?_eq_some_iff.mp hi).1]
    exact hi

lemma Bound.grown (h : Bound jobs o index) (hg : Grown jobs jobs') : Bound jobs' o index := by
  obtain ⟨job, ho, hlt⟩ := h
  obtain ⟨job', ho', hkept⟩ := hg o job ho
  exact ⟨job', ho', hkept.length ▸ hlt⟩

lemma ContOk.grown {k : Cont} (h : ContOk leaves jobs k) (hg : Grown jobs jobs') :
    ContOk leaves jobs' k := by
  cases k with
  | persist o after =>
      cases after with
      | finish =>
          obtain ⟨job, ho, hzero⟩ := h
          obtain ⟨job', ho', hkept⟩ := hg o job ho
          exact ⟨job', ho', hkept.resolved hzero⟩
      | _ => trivial
  | _ => exact h

/-- What waits goes on waiting. -/
lemma WaitOk.grown {w : Wait} (h : WaitOk leaves jobs w) (hg : Grown jobs jobs') :
    WaitOk leaves jobs' w := by
  cases w with
  | asked op k => exact ⟨h.1, h.2.grown hg⟩
  | answered a k => exact ⟨h.1, h.2.grown hg⟩
  | looping => trivial
  | sealing o start writes | posting o start writes => exact fun w hw => (h w hw).grown hg
  | applying o writes toSalt =>
      exact ⟨fun w hw => (h.1 w hw).grown hg, fun s hs => (h.2 s hs).grown hg⟩
  | choosing o sides chosen => exact fun s hs => (h s hs).grown hg

/-- A first piece of code, and the one behind it. -/
lemma Good.follows (h : Good leaves jobs jobs') (h' : Follows leaves jobs' next) :
    Follows leaves jobs next := ⟨h.trans h'.good, h'.wait⟩

lemma currentJob_eq {job : LiveJob} (h : tab.currentJob = some (o, job)) :
    tab.objects[o]? = some job := by
  rw [Tab.currentJob, Option.bind_eq_some_iff] at h
  obtain ⟨i, -, hi⟩ := h
  obtain ⟨x, hx, heq⟩ := Option.map_eq_some_iff.mp hi
  cases heq
  exact hx

/-- The sound jobs of a tab, after one of them goes on. -/
lemma good_modify (h : ∀ job ∈ tab.objects, Sound leaves job)
    (hf : ∀ job, tab.objects[o]? = some job → Sound leaves (f job) ∧ Kept job (f job)) :
    Good leaves tab.objects (tab.modify o f).objects := .modify h hf

lemma sound_of_getElem? (h : ∀ job ∈ tab.objects, Sound leaves job) {job : LiveJob}
    (ho : tab.objects[o]? = some job) : Sound leaves job := h job (List.mem_of_getElem? ho)

/-- Nothing happens to the jobs, and the wait is sound. -/
lemma follows_wait (h : ∀ job ∈ tab.objects, Sound leaves job) {w : Option Wait}
    (hw : ∀ x ∈ w, WaitOk leaves tab.objects x) : Follows leaves tab.objects (tab, w) :=
  ⟨.refl h, hw⟩

lemma follows_looping (h : ∀ job ∈ tab.objects, Sound leaves job) :
    Follows leaves tab.objects (tab, some .looping) :=
  follows_wait h fun _ hw => by cases hw; trivial

lemma follows_none (h : ∀ job ∈ tab.objects, Sound leaves job) :
    Follows leaves tab.objects (tab, none) :=
  follows_wait h fun w hw => absurd hw (Option.not_mem_none w)

/-- A save of progress carries no record. -/
lemma follows_mergeProgress (h : ∀ job ∈ tab.objects, Sound leaves job) (progress : Bytes)
    {after : After} (hafter : ContOk leaves tab.objects (.persist o after)) :
    Follows leaves tab.objects (tab, some (.asked (.mergeProgress progress) (.persist o after))) :=
  follows_wait h fun _ hw => by
    cases hw
    exact ⟨trivial, hafter⟩

lemma follows_finish (h : ∀ job ∈ tab.objects, Sound leaves job) {job : LiveJob}
    (ho : tab.objects[o]? = some job) (hzero : job.counts.unresolved = 0) :
    Follows leaves tab.objects (tab.finish o job) := by
  have hgood : Good leaves tab.objects
      (tab.modify o fun job => { job with dirty := true }).objects :=
    good_modify h fun x hx =>
      ⟨(sound_of_getElem? h hx).frame _ true _, .frame x _ true _⟩
  refine hgood.follows (follows_mergeProgress hgood.sound _ ?_)
  obtain ⟨job', ho', hkept⟩ := hgood.grown o job ho
  exact ⟨job', ho', hkept.resolved hzero⟩

lemma follows_afterBatch (h : ∀ job ∈ tab.objects, Sound leaves job) :
    Follows leaves tab.objects (tab.afterBatch save o) := by
  rw [Tab.afterBatch]
  split
  · exact follows_looping h
  · next job ho =>
      split
      · next hzero => exact follows_finish h ho hzero
      · split
        · exact follows_mergeProgress h _ trivial
        · exact follows_looping h

lemma follows_afterPass (h : ∀ job ∈ tab.objects, Sound leaves job) :
    Follows leaves tab.objects tab.afterPass := by
  rw [Tab.afterPass]
  split
  · next o job hcur =>
      split
      · have hgood : Good leaves tab.objects
            (tab.modify o fun job => { job with cursor := 0 }).objects :=
          good_modify h fun x hx =>
            ⟨(sound_of_getElem? h hx).frame _ _ 0, .frame x _ _ 0⟩
        exact hgood.follows (follows_looping hgood.sound)
      · exact @follows_none leaves { tab with running := false } h
  · exact @follows_none leaves { tab with running := false } h

lemma follows_passEnd (h : ∀ job ∈ tab.objects, Sound leaves job) :
    Follows leaves tab.objects tab.passEnd := by
  rw [Tab.passEnd]
  split
  · split
    · exact follows_mergeProgress h _ trivial
    · exact follows_afterPass h
  · exact follows_afterPass h

lemma good_treeOf (h : ∀ job ∈ tab.objects, Sound env.parts.leaves job) (o : ℕ) :
    Good env.parts.leaves tab.objects (tab.modify o (LiveJob.treeOf env)).objects :=
  good_modify h fun _ hx => (sound_of_getElem? h hx).treeOf

/-- A batch plans members that are left. -/
lemma lt_of_mem_gather {progress : Bytes} {maxBatch remaining cursor n : ℕ}
    {m : ℕ × List RecoverySide}
    (hm : m ∈ (gather leaves progress maxBatch remaining cursor n).1) : m.1 < cursor + remaining := by
  induction remaining generalizing cursor n with
  | zero => exact absurd hm List.not_mem_nil
  | succ remaining ih =>
      rw [gather] at hm
      dsimp only at hm
      split at hm
      · have := ih hm
        omega
      · split at hm
        · exact absurd hm List.not_mem_nil
        · rcases List.mem_cons.mp hm with rfl | hm
          · dsimp only
            omega
          · have := ih hm
            omega

lemma index_of_mem_plan {salts : Option Salts} {members : List (ℕ × List RecoverySide)}
    {w : PlannedWrite} (hw : w ∈ plan salts members) : ∃ m ∈ members, m.1 = w.index := by
  obtain ⟨m, hm, hside⟩ := List.mem_flatMap.mp hw
  obtain ⟨side, -, rfl⟩ := List.mem_map.mp hside
  exact ⟨m, hm, rfl⟩

lemma follows_nextBatch (h : ∀ job ∈ tab.objects, Sound env.parts.leaves job) :
    Follows env.parts.leaves tab.objects (tab.nextBatch env) := by
  rw [Tab.nextBatch]
  split
  · exact follows_passEnd h
  · next o job hcur =>
      have ho := currentJob_eq hcur
      split
      · next hworking =>
          dsimp only
          have htree := (sound_of_getElem? h ho).treeOf
          split
          · have hgood : Good env.parts.leaves tab.objects
                (tab.modify o fun _ => job.treeOf env).objects :=
              good_modify h fun x hx => by
                obtain rfl : x = job := Option.some.inj (hx.symm.trans ho)
                exact htree
            exact hgood.follows (follows_passEnd hgood.sound)
          · next l hl =>
              have hgood : ∀ cursor, Good env.parts.leaves tab.objects
                  (tab.modify o fun _ => { job.treeOf env with cursor := cursor }).objects :=
                fun cursor => good_modify h fun x hx => by
                  obtain rfl : x = job := Option.some.inj (hx.symm.trans ho)
                  exact ⟨htree.1.frame _ _ cursor, htree.2.trans (.frame _ _ _ cursor)⟩
              split
              · exact (hgood _).follows (follows_passEnd (hgood _).sound)
              · refine (hgood _).follows (follows_wait (hgood _).sound fun w hw => ?_)
                cases hw
                intro w hw
                obtain ⟨m, hm, hindex⟩ := index_of_mem_plan hw
                have hlt := lt_of_mem_gather hm
                have hbound : Bound tab.objects o w.index := by
                  refine ⟨job, ho, ?_⟩
                  rw [(sound_of_getElem? h ho).length]
                  have hcursor : job.cursor < job.record.count := by
                    rw [Bool.and_eq_true, decide_eq_true_eq] at hworking
                    exact hworking.2
                  omega
                exact hbound.grown (hgood _).grown
      · exact follows_passEnd h

lemma follows_saltFor {sides : List SaltKey} {chosen : List (SaltKey × Str)}
    (h : ∀ job ∈ tab.objects, Sound leaves job) (hsides : ∀ s ∈ sides, Bound tab.objects o s.1) :
    Follows leaves tab.objects (tab.saltFor save o sides chosen) := by
  rw [Tab.saltFor]
  split
  · exact follows_looping h
  · next job ho =>
      split
      · next s rest hrest =>
          refine follows_wait h fun w hw => ?_
          cases hw
          intro s' hs'
          have hsub : s :: rest ⊆ sides := hrest ▸ (List.dropWhile_sublist _).subset
          exact hsides s' (hsub hs')
      · split
        · exact follows_afterBatch h
        · split
          · refine follows_wait h fun w hw => ?_
            cases hw
            exact ⟨trivial, trivial⟩
          · have hgood : Good leaves tab.objects (tab.modify o fun job =>
                job.setSalts (mergeSaltTables job.record.salts (Tab.tableOf chosen))).objects :=
              good_modify h fun _ hx => (sound_of_getElem? h hx).setSalts _
            exact hgood.follows (follows_afterBatch hgood.sound)

lemma follows_apply {writes : List PlannedWrite} {toSalt : List SaltKey}
    (h : ∀ job ∈ tab.objects, Sound env.parts.leaves job)
    (hwrites : ∀ w ∈ writes, Bound tab.objects o w.index)
    (hsalt : ∀ s ∈ toSalt, Bound tab.objects o s.1) :
    Follows env.parts.leaves tab.objects (tab.apply env save o writes toSalt) := by
  rw [Tab.apply.eq_def]
  split
  · refine follows_wait h fun w hw => ?_
    cases hw
    exact ⟨hwrites, hsalt⟩
  · exact follows_afterBatch h
  · have hgood := good_treeOf h o
    dsimp only
    split
    · exact hgood.follows (follows_afterBatch hgood.sound)
    · exact hgood.follows (follows_saltFor hgood.sound fun s hs => (hsalt s hs).grown hgood.grown)

lemma follows_finishSave {seen : Option ℕ} (h : ∀ job ∈ tab.objects, Sound leaves job) :
    Follows leaves tab.objects (tab.finishSave o seen) := by
  rw [Tab.finishSave]
  split
  · exact follows_looping h
  · next job ho =>
      refine follows_wait h fun w hw => ?_
      cases hw
      exact ⟨(sound_of_getElem? h ho).record, trivial⟩

lemma follows_afterFinishPersist (h : ∀ job ∈ tab.objects, Sound leaves job)
    (hzero : ∃ job, tab.objects[o]? = some job ∧ job.counts.unresolved = 0) :
    Follows leaves tab.objects (tab.afterFinishPersist o) := by
  obtain ⟨job, ho, hzero⟩ := hzero
  have hgood : Good leaves tab.objects (tab.modify o LiveJob.markDone).objects :=
    good_modify h fun x hx => by
      obtain rfl : x = job := Option.some.inj (hx.symm.trans ho)
      exact (sound_of_getElem? h ho).markDone hzero
  rw [Tab.afterFinishPersist]
  split
  · exact hgood.follows (follows_looping hgood.sound)
  · split
    · refine hgood.follows (follows_wait hgood.sound fun w hw => ?_)
      cases hw
      exact ⟨trivial, trivial⟩
    · exact hgood.follows (follows_finishSave hgood.sound)

lemma good_adopt (h : ∀ job ∈ tab.objects, Sound leaves job) {r : Record} (hr : RecordOk leaves r)
    (saved : Option Bytes) (persisted : Bool) {tree : Option Bytes}
    (htree : ∀ l ∈ tree, l = leaves ∧ r.leaves.isSome = true) :
    Good leaves tab.objects (tab.adopt r saved persisted tree).objects :=
  .snoc h (sound_adopt hr saved persisted htree)

lemma good_enqueued (h : ∀ job ∈ tab.objects, Sound env.parts.leaves job) {r : Record}
    (hr : RecordOk env.parts.leaves r) (existing : Option ℕ) (keep persisted : Bool) :
    Good env.parts.leaves tab.objects (tab.enqueued env existing keep r persisted).objects := by
  refine good_adopt h hr _ _ fun l hl => ?_
  split at hl
  · next hkeep =>
      cases hl
      rw [Bool.and_eq_true] at hkeep
      exact ⟨rfl, hkeep.2⟩
  · exact nomatch hl

lemma good_lookInto (h : ∀ job ∈ tab.objects, Sound env.parts.leaves job) :
    Good env.parts.leaves tab.objects (tab.lookInto env).objects := by
  rw [Tab.lookInto]
  split
  · split
    · exact good_treeOf h _
    · exact .refl h
  · exact .refl h

/-- A call whose last piece of code leaves the jobs so. -/
lemma Good.follows_none (h : Good leaves jobs tab.objects) : Follows leaves jobs (tab, none) :=
  h.follows (BitGraph.RecoveryQueue.follows_none h.sound)

/-- The record that `enqueueTree` saves in the place of the stored one. -/
lemma recordOk_over {r stored : Record} (hr : RecordOk leaves r) :
    RecordOk leaves { stored with keep := r.keep, leaves := r.leaves, done := r.done } := hr

/-- The code behind a transaction. -/
lemma follows_resume {k : Cont} {a : Answer} (h : ∀ job ∈ tab.objects, Sound env.parts.leaves job)
    (hk : ContOk env.parts.leaves tab.objects k) (ha : AnswerOk env.parts.leaves a) :
    Follows env.parts.leaves tab.objects (tab.resume env save k a) := by
  have hsalts : ∀ (o : ℕ) (salts : Salts), Good env.parts.leaves tab.objects
      (tab.modify o (LiveJob.setSalts · salts)).objects := fun o salts =>
    good_modify h fun _ hx => (sound_of_getElem? h hx).setSalts salts
  have hadopt : ∀ {r : Record}, RecordOk env.parts.leaves r → ∀ saved, Good env.parts.leaves
      tab.objects (tab.adopt r saved true none).objects := fun hr saved =>
    good_adopt h hr saved true nofun
  have hloaded : ∀ {r : Record} {saved : Option Bytes}, RecordOk env.parts.leaves r →
      Follows env.parts.leaves tab.objects
        ({ tab.adopt r saved true none with loaded := true }, none) := fun {r saved} hr =>
    @Good.follows_none _ _ { tab.adopt r saved true none with loaded := true } (hadopt hr saved)
  have hlook : ∀ {jobs : List LiveJob} {tab' : Tab}, Good env.parts.leaves jobs tab'.objects →
      Follows env.parts.leaves jobs (tab'.lookInto env, none) := fun hgood =>
    (hgood.trans (good_lookInto hgood.sound)).follows_none
  have henqueued : ∀ {r : Record} (existing : Option ℕ) (keep persisted : Bool),
      RecordOk env.parts.leaves r → Follows env.parts.leaves tab.objects
        (tab.enqueued env existing keep r persisted, none) := fun existing keep persisted hr =>
    (good_enqueued h hr existing keep persisted).follows_none
  cases k with
  | load =>
      rw [Tab.resume.eq_def]
      split
      · split
        · exact @follows_none _ { tab with loaded := true } h
        · refine follows_wait h fun w hw => ?_
          cases hw
          exact ⟨trivial, ha _ rfl⟩
      all_goals first
        | exact @follows_none _ { tab with loaded := true } h
        | contradiction
  | loadProgress r =>
      cases a with
      | progress saved => exact hloaded hk
      | _ => exact hloaded hk
  | refresh =>
      cases a with
      | record r seen =>
          cases r with
          | none => exact hlook (.refl h)
          | some r =>
              rw [Tab.resume]
              split
              · exact hlook (good_modify h fun _ hx => (sound_of_getElem? h hx).takeSalts r)
              · refine follows_wait h fun w hw => ?_
                cases hw
                exact ⟨trivial, ha _ rfl⟩
      | _ => exact follows_none h
  | refreshProgress r =>
      cases a with
      | progress saved => exact hlook (hadopt hk saved)
      | _ => exact hlook (hadopt hk none)
  | enqueueAdd existing repair r =>
      cases a with
      | record stored seen =>
          cases stored with
          | none => exact henqueued existing r.keep false hk
          | some stored =>
              rw [Tab.resume]
              split
              · split
                · refine follows_wait h fun w hw => ?_
                  cases hw
                  exact ⟨recordOk_over hk, recordOk_over hk⟩
                · exact henqueued existing r.keep true (ha _ rfl)
              · exact henqueued existing r.keep true hk
      | _ => exact henqueued existing r.keep false hk
  | enqueueSave existing keep r =>
      cases a with
      | done => exact henqueued existing keep true hk
      | _ => exact henqueued existing keep false hk
  | ends => exact follows_none h
  | salts o =>
      cases a with
      | salts merged seen =>
          exact (hsalts o merged).follows (follows_afterBatch (hsalts o merged).sound)
      | _ => exact follows_afterBatch h
  | persist o after =>
      have hgood : Good env.parts.leaves tab.objects (tab.persisted o a).objects := by
        rw [Tab.persisted.eq_def]
        split
        · exact good_modify h fun _ hx => (sound_of_getElem? h hx).takeProgress _
        · exact .refl h
      refine hgood.follows ?_
      cases after with
      | loop => exact follows_looping hgood.sound
      | pass => exact follows_afterPass hgood.sound
      | finish =>
          obtain ⟨job, ho, hzero⟩ := hk
          obtain ⟨job', ho', hkept⟩ := hgood.grown o job ho
          exact follows_afterFinishPersist hgood.sound ⟨job', ho', hkept.resolved hzero⟩
      | stop => exact follows_none hgood.sound
  | finishSalts o =>
      cases a with
      | salts merged seen =>
          exact (hsalts o merged).follows (follows_finishSave (hsalts o merged).sound)
      | _ => exact follows_looping h
  | finishSave o => exact follows_looping h

lemma follows_answered {w : PlannedWrite} {writes : List PlannedWrite} {toSalt : List SaltKey}
    (h : ∀ job ∈ tab.objects, Sound env.parts.leaves job) (hw : Bound tab.objects o w.index)
    (hwrites : ∀ w ∈ writes, Bound tab.objects o w.index)
    (hsalt : ∀ s ∈ toSalt, Bound tab.objects o s.1) (a : PostAnswer) :
    Follows env.parts.leaves tab.objects (answered env save tab o w writes toSalt a) := by
  obtain ⟨job, ho, hlt⟩ := hw
  have hset : ∀ add : UInt8, Follows env.parts.leaves tab.objects
      ((tab.modify o (LiveJob.setBits · w.index add)).apply env save o writes toSalt) := by
    intro add
    have hgood : Good env.parts.leaves tab.objects
        (tab.modify o (LiveJob.setBits · w.index add)).objects :=
      good_modify h fun x hx => by
        obtain rfl : x = job := Option.some.inj (hx.symm.trans ho)
        exact (sound_of_getElem? h ho).setBits hlt add
    exact hgood.follows (follows_apply hgood.sound (fun x hx => (hwrites x hx).grown hgood.grown)
      fun s hs => (hsalt s hs).grown hgood.grown)
  cases a with
  | pending => exact follows_apply h hwrites hsalt
  | created => exact hset _
  | mine => exact hset _
  | others =>
      rw [answered]
      split
      · exact hset _
      · refine follows_apply h hwrites fun s hs => ?_
        rcases List.mem_append.mp hs with hs | hs
        · exact hsalt s hs
        · rw [List.mem_singleton.mp hs]
          exact ⟨job, ho, hlt⟩

lemma follows_chose {s : SaltKey} {sides : List SaltKey} {chosen : List (SaltKey × Str)}
    (h : ∀ job ∈ tab.objects, Sound leaves job) (hs : Bound tab.objects o s.1)
    (hsides : ∀ s ∈ sides, Bound tab.objects o s.1) (own : OwnEntry) :
    Follows leaves tab.objects (chose save tab o s sides chosen own) := by
  obtain ⟨job, ho, hlt⟩ := hs
  cases own with
  | unreadable => exact follows_saltFor h hsides
  | absent newSalt => exact follows_saltFor h hsides
  | found salt =>
      have hgood : Good leaves tab.objects
          (tab.modify o (LiveJob.setBits · s.1 (RECOVERY_SIDE_BITS s.2).kept)).objects :=
        good_modify h fun x hx => by
          obtain rfl : x = job := Option.some.inj (hx.symm.trans ho)
          exact (sound_of_getElem? h ho).setBits hlt _
      exact hgood.follows
        (follows_saltFor hgood.sound fun s hs => (hsides s hs).grown hgood.grown)

/-- A tab whose jobs and waits are sound. -/
structure TabOk (leaves : Bytes) (tab : Tab) : Prop where
  sound : ∀ job ∈ tab.objects, Sound leaves job
  waits : ∀ w ∈ tab.waits, WaitOk leaves tab.objects w

/-- A sound tab, with what was there before. -/
structure TabNext (leaves : Bytes) (tab tab' : Tab) : Prop where
  ok : TabOk leaves tab'
  grown : Grown tab.objects tab'.objects

lemma TabOk.continue (h : TabOk leaves tab) {j : ℕ} (hnext : Follows leaves tab.objects next) :
    TabNext leaves tab (tab.continue j next) := by
  refine ⟨⟨hnext.good.sound, fun w hw => ?_⟩, hnext.good.grown⟩
  rw [Tab.continue] at hw
  dsimp only at hw
  split at hw
  · next x hx =>
      rcases List.mem_or_eq_of_mem_set hw with hw | rfl
      · exact (h.waits w hw).grown hnext.good.grown
      · exact hnext.wait w hx
  · exact (h.waits w (List.mem_of_mem_eraseIdx hw)).grown hnext.good.grown

lemma TabOk.begin (h : TabOk leaves tab) (hwaits : next.1.waits = tab.waits)
    (hnext : Follows leaves tab.objects next) : TabNext leaves tab (Tab.begin next) := by
  refine ⟨⟨hnext.good.sound, fun w hw => ?_⟩, hnext.good.grown⟩
  rw [Tab.begin, hwaits] at hw
  rcases List.mem_append.mp hw with hw | hw
  · exact (h.waits w hw).grown hnext.good.grown
  · exact hnext.wait w (Option.mem_toList.mp hw)

/-- The next page of a tab. -/
lemma TabOk.reloaded (h : TabOk leaves tab) : TabOk leaves tab.reloaded := by
  refine ⟨fun job hjob => absurd hjob List.not_mem_nil, fun w hw => ?_⟩
  rcases List.mem_append.mp hw with hw | hw
  · rw [List.mem_singleton.mp hw]
    exact ⟨trivial, trivial⟩
  · obtain ⟨x, hx, heq⟩ := List.mem_filterMap.mp hw
    have hok := h.waits x hx
    cases x with
    | asked op k =>
        cases heq
        exact ⟨hok.1, trivial⟩
    | _ => exact nomatch heq

/-- One event of a page. -/
lemma TabOk.step (h : TabOk env.parts.leaves tab) {e : Event} (he : ∀ t, e ≠ .reload t)
    (hstep : tabStep env tab e = some tab') : TabNext env.parts.leaves tab tab' := by
  have hs := h.sound
  have hat : ∀ {j : ℕ} {w : Wait}, tab.waits[j]? = some w → WaitOk env.parts.leaves tab.objects w :=
    fun hj => h.waits _ (List.mem_of_getElem? hj)
  have hasked : ∀ {op : Op} {k : Cont}, OpOk env.parts.leaves op →
      ContOk env.parts.leaves tab.objects k →
      Follows env.parts.leaves tab.objects (tab, some (.asked op k)) := fun hop hk =>
    follows_wait hs fun w hw => by
      cases hw
      exact ⟨hop, hk⟩
  cases e with
  | reload t => exact absurd rfl (he t)
  | commit t j ok => cases hstep
  | deliver t j save =>
      rw [tabStep] at hstep
      split at hstep <;> cases hstep
      next a k hj => exact h.continue (follows_resume hs (hat hj).2 (hat hj).1)
  | enqueueTree t keep count createdAt =>
      rw [tabStep] at hstep
      dsimp only at hstep
      split at hstep
      · cases hstep
      · split at hstep
        · cases hstep
        · cases hstep
          have hr : RecordOk env.parts.leaves (if keep then
              ⟨createdAt, true, env.parts.leaves.length / TREE_LEAF_BYTES, some env.parts.leaves,
                none, false⟩
              else ⟨createdAt, false, count, none, none, true⟩ : Record) := by
            cases keep <;> rfl
          exact h.begin rfl (hasked hr hr)
  | forget t =>
      cases hstep
      refine h.begin rfl (@follows_wait _ { tab with current := none } hs _ fun w hw => ?_)
      cases hw
      exact ⟨trivial, trivial⟩
  | refresh t =>
      rw [tabStep] at hstep
      split at hstep <;> cases hstep
      exact h.begin rfl (hasked trivial trivial)
  | kick t =>
      rw [tabStep] at hstep
      split at hstep
      · cases hstep
      · have hrun : ∀ {next : Tab × Option Wait}, next.1.waits = tab.waits →
            Follows env.parts.leaves tab.objects next → TabNext env.parts.leaves tab (.begin next) :=
          fun hwaits hnext => h.begin hwaits hnext
        have hloop := @follows_looping _ { tab with running := true } hs
        dsimp only at hstep
        split at hstep
        · next o job hcur =>
            split at hstep <;> cases hstep
            · next hclosable =>
                refine hrun rfl (@follows_finish _ { tab with running := true } o hs job
                  (currentJob_eq hcur) ?_)
                rw [LiveJob.isClosable, Bool.and_eq_true, decide_eq_true_eq] at hclosable
                exact hclosable.2
            · exact hrun rfl hloop
        · cases hstep
          exact hrun rfl hloop
  | persistDirty t =>
      rw [tabStep] at hstep
      split at hstep
      · split at hstep <;> cases hstep
        exact h.begin rfl (hasked trivial trivial)
      · cases hstep
  | loops t j =>
      rw [tabStep] at hstep
      split at hstep <;> cases hstep
      exact h.continue (follows_nextBatch hs)
  | sealed t j ok =>
      rw [tabStep] at hstep
      split at hstep <;> cases hstep
      next o start writes hj =>
        refine h.continue ?_
        split
        · have hwrites := hat hj
          refine follows_wait hs fun w hw => ?_
          cases hw
          exact hwrites
        · have hgood : Good env.parts.leaves tab.objects
              (tab.modify o ({ · with cursor := start, broken := true })).objects :=
            good_modify hs fun x hx =>
              ⟨(sound_of_getElem? hs hx).frame true _ start, .frame x true _ start⟩
          exact hgood.follows (follows_looping hgood.sound)
  | posted t j ok save =>
      rw [tabStep] at hstep
      split at hstep <;> cases hstep
      next o start writes hj =>
        refine h.continue ?_
        split
        · exact follows_apply hs (hat hj) fun s hs => absurd hs List.not_mem_nil
        · have hgood : Good env.parts.leaves tab.objects
              (tab.modify o ({ · with cursor := start })).objects :=
            good_modify hs fun x hx =>
              ⟨(sound_of_getElem? hs hx).frame _ _ start, .frame x _ _ start⟩
          exact hgood.follows (follows_looping hgood.sound)
  | answers t j a save =>
      rw [tabStep] at hstep
      split at hstep <;> cases hstep
      next o w writes toSalt hj =>
        obtain ⟨hwrites, hsalt⟩ := hat hj
        exact h.continue (follows_answered hs (hwrites w List.mem_cons_self)
          (fun x hx => hwrites x (List.mem_cons_of_mem _ hx)) hsalt a)
  | chooses t j own save =>
      rw [tabStep] at hstep
      split at hstep <;> cases hstep
      next o s sides chosen hj =>
        have hsides := hat hj
        exact h.continue (follows_chose hs (hsides s List.mem_cons_self)
          (fun x hx => hsides x (List.mem_cons_of_mem _ hx)) own)

end Tabs

/-! ### Runs -/

/-- The stored record, and all tabs, are sound. -/
structure Consistent (leaves : Bytes) (sys : System) : Prop where
  stored : ∀ r ∈ sys.store.job, RecordOk leaves r
  tabs : ∀ t, TabOk leaves (sys.tabs t)

/-- A later label stores no fewer bits. -/
def Forward : Label → Label → Prop
  | .progress p, .progress q => HasBits p q
  | _, _ => True

/-- What a label has stored is in the storage. -/
def StoredBits (store : Store) : Label → Prop
  | .progress p => ∃ q, store.progress = some q ∧ HasBits p q
  | _ => True

section Runs

variable {env : Env} {sys sys' : System} {ls new : List Label} {e : Event}

lemma consistent_init (leaves : Bytes) : Consistent leaves .init := by
  refine ⟨nofun, fun t => ⟨fun job hjob => absurd hjob List.not_mem_nil, fun w hw => ?_⟩⟩
  rw [List.mem_singleton.mp hw]
  exact ⟨trivial, trivial⟩

/-- A transaction leaves a sound record, and answers one. -/
lemma transact_ok {leaves : Bytes} {s s' : Store} {op : Op} {a : Answer}
    (hs : ∀ r ∈ s.job, RecordOk leaves r) (hop : OpOk leaves op) (h : transact s op = (a, new, s')) :
    AnswerOk leaves a ∧ ∀ r ∈ s'.job, RecordOk leaves r := by
  cases op with
  | loadJobs =>
      cases h
      exact ⟨hs, hs⟩
  | saveJob r seen =>
      cases h
      exact ⟨trivial, fun r hr => by cases hr; exact hop⟩
  | addJob r =>
      rw [transact] at h
      split at h <;> cases h
      · next stored hstored => exact ⟨fun r hr => by cases hr; exact hs _ hstored, hs⟩
      · exact ⟨fun r hr => by cases hr; exact hop, fun r hr => by cases hr; exact hop⟩
  | loadProgress =>
      cases h
      exact ⟨trivial, hs⟩
  | mergeProgress progress =>
      cases h
      exact ⟨trivial, hs⟩
  | mergeSalts salts =>
      rw [transact] at h
      split at h <;> cases h
      · exact ⟨trivial, hs⟩
      · next stored hstored =>
          have hok := hs _ hstored
          exact ⟨trivial, fun r hr => by cases hr; exact hok⟩
  | deleteJob =>
      cases h
      exact ⟨trivial, nofun⟩

/-- A transaction shows at most one label. What earlier ones stored stays, and goes on in it. -/
lemma transact_forward {s s' : Store} {op : Op} {a : Answer} (h : transact s op = (a, new, s')) :
    new = [] ∧ s'.progress = s.progress ∨ ∃ l, new = [l] ∧ StoredBits s' l
      ∧ (l ≠ .forgotten → ∀ l', StoredBits s l' → Forward l' l ∧ StoredBits s' l') := by
  have hsame : ∀ (r : Record) (l' : Label), StoredBits s l' →
      Forward l' (.record r) ∧ StoredBits (s.put r) l' := by
    intro r l' hl'
    cases l' <;> exact ⟨trivial, hl'⟩
  cases op with
  | loadJobs | loadProgress =>
      cases h
      exact .inl ⟨rfl, rfl⟩
  | saveJob r seen =>
      cases h
      exact .inr ⟨_, rfl, trivial, fun _ => hsame _⟩
  | addJob r =>
      rw [transact] at h
      split at h <;> cases h
      · exact .inl ⟨rfl, rfl⟩
      · exact .inr ⟨_, rfl, trivial, fun _ => hsame _⟩
  | mergeProgress progress =>
      cases h
      refine .inr ⟨_, rfl, ⟨_, rfl, .refl _⟩, fun _ l' hl' => ?_⟩
      cases l' with
      | progress p =>
          obtain ⟨q, hq, hpq⟩ := hl'
          have hgrow := hpq.trans (hasBits_mergeProgressBytes q progress)
          rw [← hq] at hgrow
          exact ⟨hgrow, _, rfl, hgrow⟩
      | _ => exact ⟨trivial, trivial⟩
  | mergeSalts salts =>
      rw [transact] at h
      split at h <;> cases h
      · exact .inl ⟨rfl, rfl⟩
      · exact .inr ⟨_, rfl, trivial, fun _ => hsame _⟩
  | deleteJob =>
      cases h
      exact .inr ⟨_, rfl, trivial, fun hne => absurd rfl hne⟩

/-- What one event does: a transaction commits or fails, or a page goes on. -/
lemma step_cases (h : step env e sys = some (new, sys')) :
    (∃ t j ok op k a, e = .commit t j ok ∧ (sys.tabs t).waits[j]? = some (.asked op k)
      ∧ (if ok then transact sys.store op else (.failed, [], sys.store)) = (a, new, sys'.store)
      ∧ sys'.tabs = Function.update sys.tabs t
        { sys.tabs t with waits := (sys.tabs t).waits.set j (.answered a k) })
    ∨ ∃ tab, new = [] ∧ tabStep env (sys.tabs e.tab) e = some tab ∧ sys'.store = sys.store
      ∧ sys'.tabs = Function.update sys.tabs e.tab tab := by
  rw [step.eq_def] at h
  split at h
  · next t j ok =>
      split at h
      · next op k hj =>
          dsimp only at h
          cases h
          exact .inl ⟨t, j, ok, op, k, _, rfl, hj, rfl, rfl⟩
      · exact nomatch h
  · obtain ⟨tab, htab, heq⟩ := Option.map_eq_some_iff.mp h
    cases heq
    exact .inr ⟨tab, rfl, htab, rfl, rfl⟩

/-- Every event keeps what is sound. -/
lemma Consistent.step (h : Consistent env.parts.leaves sys)
    (hstep : step env e sys = some (new, sys')) : Consistent env.parts.leaves sys'
      ∧ ∀ t, e ≠ .reload t → Grown (sys.tabs t).objects (sys'.tabs t).objects := by
  rcases step_cases hstep with ⟨t, j, ok, op, k, a, rfl, hj, hrun, htabs⟩ | ⟨tab, rfl, htab, hstore, htabs⟩
  · have hwait := (h.tabs t).waits _ (List.mem_of_getElem? hj)
    have hok : AnswerOk env.parts.leaves a ∧ ∀ r ∈ sys'.store.job, RecordOk env.parts.leaves r := by
      split at hrun
      · exact transact_ok h.stored hwait.1 hrun
      · obtain ⟨rfl, -, hsame⟩ : .failed = a ∧ [] = new ∧ sys.store = sys'.store := by
          simpa using hrun
        exact ⟨trivial, hsame ▸ h.stored⟩
    refine ⟨⟨hok.2, fun t' => ?_⟩, fun t' _ => ?_⟩ <;> rw [htabs] <;>
      rcases eq_or_ne t' t with rfl | hne
    · rw [Function.update_self]
      refine ⟨(h.tabs t').sound, fun w hw => ?_⟩
      rcases List.mem_or_eq_of_mem_set hw with hw | rfl
      · exact (h.tabs t').waits w hw
      · exact ⟨hok.1, hwait.2⟩
    · rw [Function.update_of_ne hne]
      exact h.tabs t'
    · rw [Function.update_self]
      exact .refl _
    · rw [Function.update_of_ne hne]
      exact .refl _
  · have htabOk : TabOk env.parts.leaves tab
        ∧ ((∀ t, e ≠ .reload t) → Grown (sys.tabs e.tab).objects tab.objects) := by
      by_cases he : ∃ t, e = .reload t
      · obtain ⟨t, rfl⟩ := he
        cases htab
        exact ⟨(h.tabs t).reloaded, fun hne => absurd rfl (hne t)⟩
      · have hnext := (h.tabs e.tab).step (fun t ht => he ⟨t, ht⟩) htab
        exact ⟨hnext.ok, fun _ => hnext.grown⟩
    refine ⟨⟨hstore ▸ h.stored, fun t' => ?_⟩, fun t' hne' => ?_⟩ <;> rw [htabs] <;>
      rcases eq_or_ne t' e.tab with rfl | hne
    · rw [Function.update_self]
      exact htabOk.1
    · rw [Function.update_of_ne hne]
      exact h.tabs t'
    · rw [Function.update_self]
      refine htabOk.2 fun t ht => ?_
      rw [ht] at hne'
      exact hne' rfl
    · rw [Function.update_of_ne hne]
      exact .refl _

/-- **Counts and progress.** In every run of any number of tabs the counters of every job are those
of a recount over its progress bytes; progress that is stored has every bit that was stored since
the job was last forgotten; and no event takes a bit from a job in memory, a reload apart. -/
theorem counts_exact {p : Unit} (h : (machine env fun _ _ => true).Reach ls sys p) :
    (∀ t, ∀ job ∈ (sys.tabs t).objects, job.counts = job.recounted)
      ∧ Between (· = .forgotten) Forward ls
      ∧ ∀ e new sys', step env e sys = some (new, sys') → ∀ t, e ≠ .reload t →
        ∀ (o : ℕ) (job : LiveJob), (sys.tabs t).objects[o]? = some job →
          ∃ job', (sys'.tabs t).objects[o]? = some job' ∧ HasBits job.progress job'.progress := by
  have hinv : Consistent env.parts.leaves sys ∧ Between (· = .forgotten) Forward ls
      ∧ Since (· = .forgotten) (StoredBits sys.store) ls := by
    refine Machine.Reach.invariant
      (D := fun ls sys => Consistent env.parts.leaves sys ∧ Between (· = .forgotten) Forward ls
        ∧ Since (· = .forgotten) (StoredBits sys.store) ls)
      (I := fun ls sys _ => Consistent env.parts.leaves sys ∧ Between (· = .forgotten) Forward ls
        ∧ Since (· = .forgotten) (StoredBits sys.store) ls) ?_ ?_ ?_ ?_ h
    · rintro _ rfl
      exact ⟨consistent_init _, .nil, .nil⟩
    · exact fun ls sys p hI _ => hI
    · rintro e ls sys p new sys' p' ⟨hcons, hbetween, hsince⟩ - hfire
      obtain ⟨⟨new', sys''⟩, hstep, heq⟩ := Option.map_eq_some_iff.mp hfire
      cases heq
      refine ⟨(hcons.step hstep).1, ?_⟩
      have hsame : ∀ {store : Store}, store.progress = sys.store.progress →
          Since (· = .forgotten) (StoredBits store) ls := fun hprogress =>
        hsince.mono fun l hl => by
          cases l with
          | progress p => rwa [StoredBits, hprogress]
          | _ => trivial
      rcases step_cases hstep with ⟨t, j, ok, op, k, a, -, -, hrun, -⟩ | ⟨tab, rfl, -, hstore, -⟩
      · have hforward : new' = [] ∧ sys''.store.progress = sys.store.progress ∨ ∃ l, new' = [l]
            ∧ StoredBits sys''.store l ∧ (l ≠ .forgotten → ∀ l', StoredBits sys.store l' →
              Forward l' l ∧ StoredBits sys''.store l') := by
          split at hrun
          · exact transact_forward hrun
          · obtain ⟨-, rfl, hkept⟩ : .failed = a ∧ [] = new' ∧ sys.store = sys''.store := by
              simpa using hrun
            exact .inl ⟨rfl, by rw [hkept]⟩
        rcases hforward with ⟨rfl, hprogress⟩ | ⟨l, rfl, hl, hthen⟩
        · rw [List.append_nil]
          exact ⟨hbetween, hsame hprogress⟩
        · refine ⟨hbetween.snoc ?_, .snoc (fun hne => hsince.mono fun l' hl' => (hthen hne l' hl').2) hl⟩
          by_cases hne : l = .forgotten
          · subst hne
            exact hsince.mono fun l' _ => by cases l' <;> trivial
          · exact hsince.mono fun l' hl' => (hthen hne l' hl').1
      · rw [List.append_nil]
        exact ⟨hbetween, hsame (by rw [hstore])⟩
    · exact fun ls sys p hI => hI
  refine ⟨fun t job hjob => ((hinv.1.tabs t).sound job hjob).counts, hinv.2.1, ?_⟩
  intro e new sys' hstep t he o job ho
  obtain ⟨job', ho', hkept⟩ := (hinv.1.step hstep).2 t he o job ho
  exact ⟨job', ho', hkept.bits⟩

end Runs

/-! ### A page that is closed and opened again -/

/-- A hash that tells nothing apart. -/
def flatHash : HashFn := ⟨fun _ => List.replicate 32 0, fun _ => List.length_replicate⟩

/-- A tree of one file, kept as it is. -/
def sampleEnv : Env := ⟨flatHash, partsOf flatHash [asIsLeaf 0], MAX_BATCH_ENTRIES⟩

/-- The transaction a tab waits for first commits, and its promise resolves. -/
def settles (t : ℕ) : List Event := [.commit t 0 true, .deliver t 0 false]

/-- A tree is enqueued, its one entry is written, the job is finished, and the page reloads. -/
def sampleEvents : List Event :=
  settles 0 ++ [.enqueueTree 0 true 0 7] ++ settles 0
    ++ [.kick 0, .loops 0 0, .sealed 0 0 true, .posted 0 0 true false, .answers 0 0 .created false]
    ++ settles 0 ++ settles 0 ++ settles 0 ++ [.loops 0 0, .reload 0] ++ settles 0 ++ settles 0

/-- The progress that a run stores. -/
def storedProgress (ls : List Label) : List Bytes :=
  ls.filterMap fun
    | .progress p => some p
    | _ => none

/-- The events of a run, without a policy. -/
lemma reach_of_runAll {env : Env} {es : List Event} {ls : List Label} {sys : System}
    (hrun : Machine.runAll (fun e sys _ => (step env e sys).map fun r => (r.1, r.2, ()))
      (fun _ _ _ => true = true) es .init () = some (ls, sys, ())) :
    (machine env fun _ _ => true).Reach ls sys () := by
  have hstart : (machine env fun _ _ => true).Reach [] .init () := .start rfl trivial
  exact hstart.runAll hrun

theorem counts_exact_reloaded : ∃ ls sys, (machine sampleEnv fun _ _ => true).Reach ls sys ()
    ∧ storedProgress ls = [[3]]
    ∧ ((sys.tabs 0).objects.map fun job => (job.progress, job.counts)) = [([3], ⟨1, 0, 0⟩)]
    ∧ (∀ t, ∀ job ∈ (sys.tabs t).objects, job.counts = job.recounted)
    ∧ Between (· = .forgotten) Forward ls := by
  have hrun : (Machine.runAll (fun e sys _ => (step sampleEnv e sys).map fun r => (r.1, r.2, ()))
      (fun _ _ _ => true = true) sampleEvents .init ()).map (fun r => (storedProgress r.1,
        (r.2.1.tabs 0).objects.map fun job => (job.progress, job.counts)))
      = some ([[3]], [([3], ⟨1, 0, 0⟩)]) := by
    decide +kernel
  obtain ⟨⟨ls, sys, ⟨⟩⟩, hsome, hseen⟩ := Option.map_eq_some_iff.mp hrun
  obtain ⟨hprogress, hjobs⟩ := Prod.mk.inj hseen
  have hreach := reach_of_runAll hsome
  obtain ⟨hcounts, hbetween, -⟩ := counts_exact hreach
  exact ⟨ls, sys, hreach, hprogress, hjobs, hcounts, hbetween⟩

end BitGraph.RecoveryQueue
