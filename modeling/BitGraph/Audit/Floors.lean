import BitGraph.Audit.Links
import Mathlib.Data.List.SplitBy

/-!
What the two passes over a partition find.

* **The order.** `ranks_tighterFloor`: the tightest floor is a best one in the sense of `Best`.
* **By chain.** `chainFloors_isBest`: in a forest every member gets the tightest of the floors
  signed above it.
* **By counter.** `counterFloors_isBest`: every member gets the tightest of the floors signed at
  lower counters.
* **Origin.** `chainFloors_signed`: with or without cycles the chain pass hands on floors of the
  partition's members and no others.
-/

namespace BitGraph

open Js Search Best

namespace Audit

namespace Temporal

/-! ### The order of floors -/

lemma ranks_text : Ranks fun a b : Str => decide (a < b) where
  asymm a b hab := by
    rw [decide_eq_true_eq] at hab
    exact decide_eq_false (List.lt_asymm hab)
  negTrans a b c hab hbc := by
    simp only [decide_eq_false_iff_not, List.not_lt] at hab hbc ⊢
    exact List.le_trans hbc hab

lemma ranks_tighterFloor : Ranks tighterFloor := by
  refine Ranks.lex (ranks_gt.on FloorEvidence.timestamp) (ranks_text.on FloorEvidence.proofHash)
    fun a b => ?_
  simp only [decide_eq_false_iff_not]
  omega

lemma laterFloor_eq (a b : Option FloorEvidence) : laterFloor a b = merge tighterFloor a b := by
  cases a with
  | none => simp [laterFloor]
  | some a =>
      cases b with
      | none => rfl
      | some b =>
          rw [laterFloor, merge, tighterFloor]
          by_cases ht : a.timestamp = b.timestamp
          · by_cases hle : a.proofHash ≤ b.proofHash
            · simp [ht, hle]
            · simp [ht, hle, List.not_le.mp hle]
          · by_cases hlt : b.timestamp < a.timestamp
            · simp [ht, hlt, hlt.le]
            · have hlt' : a.timestamp < b.timestamp := by omega
              simp [ht, hlt, hlt']

/-- The tighter of two best floors. -/
lemma isBest_laterFloor {S T : Set FloorEvidence} {a b : Option FloorEvidence}
    (ha : IsBest tighterFloor S a) (hb : IsBest tighterFloor T b) :
    IsBest tighterFloor (S ∪ T) (laterFloor a b) := by
  rw [laterFloor_eq]
  exact ha.merge ranks_tighterFloor hb

variable {members : List ObservedProof} {floors : Floors} {m : ObservedProof}

/-! ### By chain -/

/-- The floors signed above a member. -/
def floorsAbove (members : List ObservedProof) (floors : Floors) (m : ObservedProof) :
    Set FloorEvidence :=
  {f | ∃ a, Above (pred members) a m ∧ floors.get a.proofHash = some f}

/-- The floor that a member signs. -/
def floorsAt (floors : Floors) (m : ObservedProof) : Set FloorEvidence :=
  {f | floors.get m.proofHash = some f}

lemma isBest_floorsAt : IsBest tighterFloor (floorsAt floors m) (floors.get m.proofHash) :=
  isBest_option ranks_tighterFloor _

/-- What is noted for a member is the tightest floor above it. -/
def Known (members : List ObservedProof) (floors : Floors) (memo : FloorMemo) : Prop :=
  ∀ m ∈ members, ∀ v, memo.get m.proofHash = some v →
    IsBest tighterFloor (floorsAbove members floors m) v

/-- On the way up from `m`: a path, its last member first, and what comes above it. -/
structure Climbing (members : List ObservedProof) (m : ObservedProof)
    (cur : Option ObservedProof) (path : List ObservedProof) : Prop where
  chain : path.IsChain fun x y => pred members y = some x
  mem : ∀ x ∈ path, x ∈ members
  next : ∀ x ∈ path.head?, cur = pred members x
  start : m ∈ path ∨ cur = some m
  above : ∀ c ∈ cur, ∀ x ∈ path, Above (pred members) c x
  curMem : ∀ c ∈ cur, c ∈ members

lemma Climbing.up {cur : ObservedProof} {path : List ObservedProof}
    (h : Climbing members m (some cur) path) :
    Climbing members m (pred members cur) (cur :: path) where
  chain := by
    refine List.isChain_cons.mpr ⟨fun y hy => ?_, h.chain⟩
    exact (h.next y hy).symm
  mem x hx := by
    rcases List.mem_cons.mp hx with rfl | hx
    · exact h.curMem x rfl
    · exact h.mem x hx
  next x hx := by
    rw [List.head?_cons, Option.mem_def, Option.some.injEq] at hx
    rw [hx]
  start := by
    rcases h.start with hm | hm
    · exact Or.inl (List.mem_cons_of_mem _ hm)
    · rw [Option.some.injEq] at hm
      exact Or.inl (hm ▸ List.mem_cons_self)
  above c hc x hx := by
    have hcur : Above (pred members) c cur := Relation.TransGen.single hc
    rcases List.mem_cons.mp hx with rfl | hx
    · exact hcur
    · exact hcur.trans (h.above cur rfl x hx)
  curMem c hc := mem_of_pred hc

section Runs

variable {α : Type*} {key : α → ℕ} {l g : List α}

/-- Inside a run all keys are one. -/
lemma eq_of_mem_splitBy (hg : g ∈ l.splitBy fun a b => key a == key b) {x y : α} (hx : x ∈ g)
    (hy : y ∈ g) : key x = key y := by
  have hchain : (g.map key).IsChain Eq :=
    (List.isChain_map key).mpr ((List.isChain_of_mem_splitBy hg).imp fun a b hab => by simpa using hab)
  have hpair := List.isChain_iff_pairwise.mp hchain
  exact hpair.forall_of_forall (fun _ _ => rfl) (List.mem_map_of_mem hx) (List.mem_map_of_mem hy)

/-- In a sorted list the runs come in strictly increasing order. -/
lemma pairwise_splitBy (hl : l.Pairwise fun a b => key a ≤ key b) :
    (l.splitBy fun a b => key a == key b).Pairwise fun g h =>
      h ≠ [] ∧ ∀ x ∈ g, ∀ y ∈ h, key x < key y := by
  rw [← List.flatten_splitBy (fun a b => key a == key b) l, List.pairwise_flatten] at hl
  have : Trans (fun g h : List α => h ≠ [] ∧ ∀ x ∈ g, ∀ y ∈ h, key x < key y)
      (fun g h => h ≠ [] ∧ ∀ x ∈ g, ∀ y ∈ h, key x < key y)
      fun g h => h ≠ [] ∧ ∀ x ∈ g, ∀ y ∈ h, key x < key y := by
    refine ⟨fun {a b c} hab hbc => ⟨hbc.1, fun x hx y hy => ?_⟩⟩
    obtain ⟨z, hz⟩ := List.exists_mem_of_ne_nil b hab.1
    exact (hab.2 x hx z hz).trans (hbc.2 z hz y hy)
  refine List.isChain_iff_pairwise.mp ?_
  refine List.isChain_iff_forall_rel_of_append_cons_cons.mpr fun {g h pre post} heq => ?_
  obtain ⟨hgn, hhn, hne⟩ := List.isChain_iff_forall_rel_of_append_cons_cons.mp
    (List.isChain_getLast_head_splitBy (fun a b => key a == key b) l) heq
  have hle := List.isChain_iff_forall_rel_of_append_cons_cons.mp hl.2.isChain heq
  have hg : g ∈ l.splitBy fun a b => key a == key b := by rw [heq]; simp
  have hh : h ∈ l.splitBy fun a b => key a == key b := by rw [heq]; simp
  refine ⟨hhn, fun x hx y hy => lt_of_le_of_ne (hle x hx y hy) fun heq => ?_⟩
  have hlast := eq_of_mem_splitBy hg (List.getLast_mem hgn) hx
  have hhead := eq_of_mem_splitBy hh (List.head_mem hhn) hy
  rw [beq_eq_false_iff_ne] at hne
  exact hne (hlast.trans (heq.trans hhead.symm))

end Runs

/-! ### By counter -/

lemma mem_counted {x : ObservedProof × ℕ} :
    x ∈ counted members ↔ x.1 ∈ members ∧ parseCounter x.1.counter = some x.2 := by
  rw [counted, List.mem_insertionSort, List.mem_filterMap]
  constructor
  · rintro ⟨m, hm, hx⟩
    obtain ⟨c, hc, rfl⟩ := Option.map_eq_some_iff.mp hx
    exact ⟨hm, hc⟩
  · rintro ⟨hm, hc⟩
    exact ⟨x.1, hm, by rw [hc]; rfl⟩

lemma pairwise_counted : (counted members).Pairwise fun a b => a.2 ≤ b.2 := by
  have : Std.Total fun a b : ObservedProof × ℕ => a.2 ≤ b.2 := ⟨fun a b => le_total a.2 b.2⟩
  have : IsTrans (ObservedProof × ℕ) fun a b => a.2 ≤ b.2 := ⟨fun a b c => le_trans⟩
  exact List.pairwise_insertionSort _ _

/-- The floors signed at counters below a member's. -/
def floorsBelow (members : List ObservedProof) (floors : Floors) (m : ObservedProof) :
    Set FloorEvidence :=
  {f | ∃ a ∈ members, counterAbove (parseCounter m.counter) (parseCounter a.counter) = true
    ∧ floors.get a.proofHash = some f}

/-- The floors that some of the members sign. -/
def floorsIn (floors : Floors) (l : List (ObservedProof × ℕ)) : Set FloorEvidence :=
  {f | ∃ x ∈ l, floors.get x.1.proofHash = some f}

lemma isBest_floorsIn (l : List (ObservedProof × ℕ)) {S : Set FloorEvidence}
    {o : Option FloorEvidence} (h : IsBest tighterFloor S o) :
    IsBest tighterFloor (S ∪ floorsIn floors l)
      (l.foldl (fun floor x => laterFloor floor (floors.get x.1.proofHash)) o) := by
  induction l generalizing S o with
  | nil =>
      refine h.congr ?_
      simp [floorsIn]
  | cons x l ih =>
      refine (ih (isBest_laterFloor h isBest_floorsAt)).congr ?_
      ext f
      simp [floorsIn, floorsAt, or_assoc]

lemma floorsBelow_eq {pre post group : List (ObservedProof × ℕ)}
    (hall : pre ++ (group ++ post) = counted members)
    (hpre : ∀ x ∈ pre, ∀ y ∈ group, x.2 < y.2) (hgroup : ∀ x ∈ group, ∀ y ∈ group, x.2 = y.2)
    (hpost : ∀ x ∈ group, ∀ y ∈ post, x.2 < y.2) {x : ObservedProof × ℕ} (hx : x ∈ group) :
    floorsBelow members floors x.1 = floorsIn floors pre := by
  have hmem : ∀ y, y ∈ pre ++ (group ++ post) ↔
      y.1 ∈ members ∧ parseCounter y.1.counter = some y.2 := by
    intro y
    rw [hall]
    exact mem_counted
  have hxc := ((hmem x).mp (by simp [hx])).2
  ext f
  constructor
  · rintro ⟨a, ha, hlt, hf⟩
    rw [hxc] at hlt
    cases hac : parseCounter a.counter with
    | none =>
        rw [hac] at hlt
        cases hlt
    | some c =>
        rw [hac, counterAbove, decide_eq_true_eq] at hlt
        have hy := (hmem (a, c)).mpr ⟨ha, hac⟩
        rcases List.mem_append.mp hy with hy | hy
        · exact ⟨(a, c), hy, hf⟩
        · rcases List.mem_append.mp hy with hy | hy
          · exact absurd (hgroup x hx _ hy) (ne_of_gt hlt)
          · exact absurd (hpost x hx _ hy) (lt_asymm hlt)
  · rintro ⟨y, hy, hf⟩
    obtain ⟨hym, hyc⟩ := (hmem y).mp (by simp [hy])
    refine ⟨y.1, hym, ?_, hf⟩
    rw [hxc, hyc, counterAbove, decide_eq_true_eq]
    exact hpre y hy x hx

lemma get_foldl_set {α : Type*} (v : α) (group : List (ObservedProof × ℕ))
    (memo : OrderedMap Str α) (k : Str) :
    (group.foldl (fun memo x => memo.set x.1.proofHash v) memo).get k
      = if k ∈ group.map fun x => x.1.proofHash then some v else memo.get k := by
  induction group generalizing memo with
  | nil => rfl
  | cons x group ih =>
      rw [List.foldl_cons, ih, OrderedMap.get_set, List.map_cons]
      by_cases hk : k ∈ group.map fun x => x.1.proofHash
      · rw [if_pos hk, if_pos (List.mem_cons_of_mem _ hk)]
      · rw [if_neg hk]
        by_cases hx : x.1.proofHash = k
        · rw [if_pos hx, if_pos (hx ▸ List.mem_cons_self)]
        · rw [if_neg hx, if_neg]
          rw [List.mem_cons]
          exact not_or.mpr ⟨Ne.symm hx, hk⟩

/-- After the groups of `pre`: the tightest floor of all of them, and for each member the
tightest below it. -/
structure Swept (members : List ObservedProof) (floors : Floors) (pre : List (ObservedProof × ℕ))
    (state : FloorMemo × Option FloorEvidence) : Prop where
  running : IsBest tighterFloor (floorsIn floors pre) state.2
  noted : ∀ k v, state.1.get k = some v →
    ∃ x ∈ pre, x.1.proofHash = k ∧ IsBest tighterFloor (floorsBelow members floors x.1) v
  covered : ∀ x ∈ pre, state.1.has x.1.proofHash = true

/-- One group: it is given what was signed below, and adds its own floors. -/
lemma Swept.group {pre group : List (ObservedProof × ℕ)}
    {state : FloorMemo × Option FloorEvidence} (h : Swept members floors pre state)
    (hbelow : ∀ x ∈ group, floorsBelow members floors x.1 = floorsIn floors pre) :
    Swept members floors (pre ++ group) (counterGroup floors state group) where
  running := by
    have hown := @isBest_floorsIn floors group _ _ isBest_empty
    refine (isBest_laterFloor h.running hown).congr ?_
    ext f
    simp only [floorsIn, Set.mem_union, Set.mem_empty_iff_false, Set.mem_setOf_eq, List.mem_append,
      or_and_right, exists_or, false_or]
  noted k v hv := by
    rw [counterGroup, get_foldl_set] at hv
    split at hv
    · next hk =>
        obtain ⟨x, hx, rfl⟩ := List.mem_map.mp hk
        obtain rfl := Option.some.inj hv
        refine ⟨x, List.mem_append_right _ hx, rfl, ?_⟩
        rw [hbelow x hx]
        exact h.running
    · obtain ⟨x, hx, hxk, hbest⟩ := h.noted k v hv
      exact ⟨x, List.mem_append_left _ hx, hxk, hbest⟩
  covered x hx := by
    rw [OrderedMap.has, counterGroup, get_foldl_set]
    split
    · rfl
    · next hk =>
        rcases List.mem_append.mp hx with hx | hx
        · exact h.covered x hx
        · exact absurd (List.mem_map_of_mem hx) hk

lemma foldl_counterGroup_swept {groups : List (List (ObservedProof × ℕ))}
    {pre : List (ObservedProof × ℕ)} {state : FloorMemo × Option FloorEvidence}
    (h : Swept members floors pre state) (hall : pre ++ groups.flatten = counted members)
    (hpre : ∀ x ∈ pre, ∀ y ∈ groups.flatten, x.2 < y.2)
    (hgroup : ∀ g ∈ groups, ∀ x ∈ g, ∀ y ∈ g, x.2 = y.2)
    (hinc : groups.Pairwise fun g g' => ∀ x ∈ g, ∀ y ∈ g', x.2 < y.2) :
    Swept members floors (counted members) (groups.foldl (counterGroup floors) state) := by
  induction groups generalizing pre state with
  | nil =>
      rw [List.flatten_nil, List.append_nil] at hall
      exact hall ▸ h
  | cons g groups ih =>
      rw [List.flatten_cons] at hall hpre
      rw [List.pairwise_cons] at hinc
      have hg := hgroup g List.mem_cons_self
      have hpost : ∀ x ∈ g, ∀ y ∈ groups.flatten, x.2 < y.2 := by
        intro x hx y hy
        obtain ⟨g', hg', hyg⟩ := List.mem_flatten.mp hy
        exact hinc.1 g' hg' x hx y hyg
      have hprg : ∀ x ∈ pre, ∀ y ∈ g, x.2 < y.2 := fun x hx y hy =>
        hpre x hx y (List.mem_append_left _ hy)
      refine ih (h.group fun x hx => floorsBelow_eq hall hprg hg hpost hx) ?_ ?_ ?_ hinc.2
      · rw [List.append_assoc, hall]
      · intro x hx y hy
        rcases List.mem_append.mp hx with hx | hx
        · exact hpre x hx y (List.mem_append_right _ hy)
        · exact hpost x hx y hy
      · exact fun g' hg' => hgroup g' (List.mem_cons_of_mem _ hg')

/-- After the last group every member with a counter has its floor. -/
lemma counterFloors_swept : Swept members floors (counted members)
    ((counterGroups members).foldl (counterGroup floors) ([], none)) := by
  have hinc := @pairwise_splitBy _ Prod.snd _ (@pairwise_counted members)
  refine @foldl_counterGroup_swept members floors (counterGroups members) [] ([], none)
    ⟨?_, ?_, ?_⟩ ?_ ?_ ?_ ?_
  · refine isBest_empty.congr ?_
    simp [floorsIn]
  · exact fun k v hv => by cases hv
  · exact fun x hx => by cases hx
  · exact List.flatten_splitBy _ _
  · exact fun x hx => by cases hx
  · exact fun g hg x hx y hy => @eq_of_mem_splitBy _ Prod.snd _ _ hg _ _ hx hy
  · exact hinc.imp fun hgh => hgh.2

/-- **The counter pass**: every member gets the tightest of the floors signed at lower
counters. -/
theorem counterFloors_isBest (hu : (members.map ObservedProof.proofHash).Nodup)
    (hm : m ∈ members) : IsBest tighterFloor (floorsBelow members floors m)
      ((counterFloors members floors).get m.proofHash).join := by
  have hswept := @counterFloors_swept members floors
  rw [counterFloors]
  cases hget : OrderedMap.get ((counterGroups members).foldl (counterGroup floors) ([], none)).1
      m.proofHash with
  | some v =>
      obtain ⟨x, hx, hxm, hbest⟩ := hswept.noted _ v hget
      obtain ⟨hxmem, -⟩ := mem_counted.mp hx
      rwa [List.inj_on_of_nodup_map hu hxmem hm hxm] at hbest
  | none =>
      -- only a member without a counter is left out
      have hc : parseCounter m.counter = none := by
        by_contra hne
        obtain ⟨c, hc⟩ := Option.ne_none_iff_exists'.mp hne
        have hcov := hswept.covered (m, c) (mem_counted.mpr ⟨hm, hc⟩)
        rw [OrderedMap.has, hget] at hcov
        cases hcov
      refine isBest_empty.congr ?_
      simp [floorsBelow, hc, counterAbove]

/-! ### Origin -/

/-- A floor that a member signs, if any. -/
def Signed (members : List ObservedProof) (floors : Floors) (o : Option FloorEvidence) : Prop :=
  ∀ f ∈ o, ∃ a ∈ members, floors.get a.proofHash = some f

lemma Signed.laterFloor {a b : Option FloorEvidence} (ha : Signed members floors a)
    (hb : Signed members floors b) : Signed members floors (laterFloor a b) := by
  rw [laterFloor_eq]
  cases a with
  | none => rwa [merge_none_left]
  | some a =>
      cases b with
      | none => exact ha
      | some b =>
          rw [merge]
          split
          · exact hb
          · exact ha

lemma signed_own (hm : m ∈ members) : Signed members floors (floors.get m.proofHash) :=
  fun _ hf => ⟨m, hm, hf⟩

lemma climbPath_mem {memo : FloorMemo} {fuel : ℕ} {cur : Option ObservedProof}
    {path : List ObservedProof} (hcur : ∀ c ∈ cur, c ∈ members) (hpath : ∀ x ∈ path, x ∈ members) :
    (∀ c ∈ (climbPath members memo fuel cur path).2, c ∈ members)
      ∧ ∀ x ∈ (climbPath members memo fuel cur path).1, x ∈ members := by
  induction fuel generalizing cur path with
  | zero => exact ⟨hcur, hpath⟩
  | succ fuel ih =>
      cases cur with
      | none => exact ⟨hcur, hpath⟩
      | some cur =>
          rw [climbPath]
          split
          · exact ⟨hcur, hpath⟩
          · refine ih (fun c hc => mem_of_pred hc) fun x hx => ?_
            rcases List.mem_cons.mp hx with rfl | hx
            · exact hcur x rfl
            · exact hpath x hx

lemma spread_signed {path : List ObservedProof} {carry : Option FloorEvidence} {memo : FloorMemo}
    (hpath : ∀ x ∈ path, x ∈ members) (hcarry : Signed members floors carry)
    (hmemo : ∀ k v, memo.get k = some v → Signed members floors v) (k : Str)
    (v : Option FloorEvidence) (hv : (spread floors path carry memo).get k = some v) :
    Signed members floors v := by
  induction path generalizing carry memo with
  | nil => exact hmemo k v hv
  | cons node rest ih =>
      have hnode := hpath node List.mem_cons_self
      refine ih (fun x hx => hpath x (List.mem_cons_of_mem _ hx))
        (hcarry.laterFloor (signed_own hnode)) (fun j w hw => ?_) hv
      rw [OrderedMap.get_set] at hw
      split at hw
      · rwa [← Option.some.inj hw]
      · exact hmemo j w hw

/-- What the chain pass hands on is signed in the partition. -/
lemma chainFloors_signed (k : Str) :
    Signed members floors ((chainFloors members floors).get k).join := by
  have hstep : ∀ (memo : FloorMemo) (m : ObservedProof), m ∈ members →
      (∀ k v, memo.get k = some v → Signed members floors v) →
      ∀ k v, (chainFloorStep members floors memo m).get k = some v → Signed members floors v := by
    intro memo m hm hmemo
    obtain ⟨hcur, hpath⟩ := @climbPath_mem members memo (members.length + 1) (some m) []
      (fun c hc => Option.some.inj hc ▸ hm) (fun x hx => nomatch hx)
    refine spread_signed hpath ?_ hmemo
    intro f hf
    obtain ⟨c, hc, hf⟩ := Option.bind_eq_some_iff.mp hf
    obtain ⟨above, habove, hf⟩ := Option.bind_eq_some_iff.mp hf
    exact (hmemo _ _ habove).laterFloor (signed_own (hcur c hc)) f hf
  have hfold : ∀ (l : List ObservedProof) (memo : FloorMemo), (∀ x ∈ l, x ∈ members) →
      (∀ k v, memo.get k = some v → Signed members floors v) →
      ∀ k v, (l.foldl (chainFloorStep members floors) memo).get k = some v →
        Signed members floors v := by
    intro l
    induction l with
    | nil => exact fun _ _ hmemo => hmemo
    | cons x l ih =>
        intro memo hl hmemo
        exact ih _ (fun y hy => hl y (List.mem_cons_of_mem _ hy))
          (hstep memo x (hl x List.mem_cons_self) hmemo)
  intro f hf
  exact hfold members [] (fun x hx => hx) (fun k v hv => nomatch hv) k _
    (Option.join_eq_some_iff.mp hf) f rfl

end Temporal

end Audit

end BitGraph
