import Mathlib.Data.List.Cycle
import Mathlib.Logic.Relation

/-!
Depth-first exploration of a directed graph, and the cycles it closes.

* `Adding T x y` is `T` with one link more. `transGen_adding`: a walk along it is one along `T`, or
  it passes the new link and ends behind it.
* `Explored T path done covered`: a path is being explored, `done` are the nodes left behind, and
  `T` are the links followed so far. Every node on a cycle of links followed is `covered`.
* `Explored.root`, `follow`, `close` and `finish` are the four things an exploration does; closing
  a cycle covers the path from the node it leads back to.
-/

namespace Explore

open Relation

variable {α : Type*}

/-! ### One link more -/

/-- The links of `T` and the one from `x` to `y`. -/
def Adding (T : α → α → Prop) (x y : α) : α → α → Prop := fun p q => T p q ∨ p = x ∧ q = y

variable {T : α → α → Prop} {x y a b : α}

lemma reflTransGen_adding (h : ReflTransGen (Adding T x y) a b) :
    ReflTransGen T a b ∨ ReflTransGen T a x ∧ ReflTransGen T y b := by
  induction h with
  | refl => exact .inl .refl
  | tail _ hstep ih =>
      rcases hstep with hT | ⟨rfl, rfl⟩
      · exact ih.imp (·.tail hT) fun h => ⟨h.1, h.2.tail hT⟩
      · exact .inr ⟨ih.elim id And.left, .refl⟩

/-- A walk along the links and one more keeps to the links, or takes the new one last at some
point. -/
lemma transGen_adding (h : TransGen (Adding T x y) a b) :
    TransGen T a b ∨ ReflTransGen T a x ∧ ReflTransGen T y b := by
  obtain ⟨c, hac, hcb⟩ := TransGen.tail'_iff.mp h
  rcases hcb with hT | ⟨rfl, rfl⟩
  · exact (reflTransGen_adding hac).imp (fun h => TransGen.tail' h hT) fun h => ⟨h.1, h.2.tail hT⟩
  · exact .inr ⟨(reflTransGen_adding hac).elim id And.left, .refl⟩

/-- A chain leads from its members to those behind them. -/
lemma transGen_of_isChain {l m : List α} (h : (l ++ a :: m).IsChain T) (hb : b ∈ m) :
    TransGen T a b := by
  have hpair := List.isChain_iff_pairwise.mp
    ((h.right_of_append).imp fun _ _ => TransGen.single)
  exact (List.pairwise_cons.mp hpair).1 b hb

/-! ### Exploration -/

/-- A path under exploration: the links followed so far start at it or behind it, and close no
cycle that is not covered. -/
structure Explored (T : α → α → Prop) (path : List α) (done covered : α → Prop) : Prop where
  nodup : path.Nodup
  chain : path.IsChain T
  apart : ∀ x ∈ path, ¬ done x
  source : ∀ x y, T x y → done x ∨ x ∈ path
  target : ∀ x y, T x y → done y ∨ y ∈ path
  cyclic : ∀ v, TransGen T v v → covered v
  /-- What leads back to the path from behind is covered. -/
  back : ∀ v g, done v → g ∈ path → TransGen T v g → covered v
  /-- What leads to a node further up the path is covered. -/
  up : ∀ l u m, path = l ++ u :: m → ∀ g ∈ l, TransGen T u g → covered u

variable {path l m : List α} {done covered : α → Prop}

lemma explored_nil (covered : α → Prop) : Explored (fun _ _ : α => False) [] (fun _ => False) covered where
  nodup := List.nodup_nil
  chain := List.IsChain.nil
  apart x hx := absurd hx List.not_mem_nil
  source _ _ h := h.elim
  target _ _ h := h.elim
  cyclic v h := by
    obtain ⟨_, h, -⟩ := TransGen.head'_iff.mp h
    exact h.elim
  back _ _ h := h.elim
  up l u m h := absurd h.symm (by simp)

namespace Explored

/-- No link followed leaves a node not seen yet. -/
lemma not_source (h : Explored T path done covered) (hdone : ¬ done y) (hpath : y ∉ path) :
    ¬ T y b := fun hT => (h.source y b hT).elim hdone hpath

lemma not_target (h : Explored T path done covered) (hdone : ¬ done y) (hpath : y ∉ path) :
    ¬ T a y := fun hT => (h.target a y hT).elim hdone hpath

lemma eq_of_unseen (h : Explored T path done covered) (hdone : ¬ done y) (hpath : y ∉ path)
    (hyb : ReflTransGen T y b) : b = y := by
  rcases ReflTransGen.cases_head hyb with rfl | ⟨c, hc, -⟩
  · rfl
  · exact absurd hc (h.not_source hdone hpath)

/-- A new start. -/
lemma root (h : Explored T [] done covered) (hdone : ¬ done y) : Explored T [y] done covered where
  nodup := List.nodup_singleton y
  chain := List.IsChain.singleton y
  apart x hx := by rwa [List.mem_singleton.mp hx]
  source x z hT := (h.source x z hT).imp_right (absurd · List.not_mem_nil)
  target x z hT := (h.target x z hT).imp_right (absurd · List.not_mem_nil)
  cyclic := h.cyclic
  back v g _ hg hvg := by
    obtain ⟨c, -, hc⟩ := TransGen.tail'_iff.mp hvg
    rw [List.mem_singleton.mp hg] at hc
    exact absurd hc (h.not_target hdone List.not_mem_nil)
  up l u m hp g hg _ := by
    obtain ⟨rfl, -⟩ : l = [] ∧ _ := by
      rcases l with _ | ⟨c, l⟩
      · exact ⟨rfl, trivial⟩
      · exact absurd (congrArg List.length hp) (by simp)
    exact absurd hg List.not_mem_nil

/-- The path grows by a node not seen yet. -/
lemma follow (h : Explored T (l ++ [x]) done covered) (hdone : ¬ done y) (hpath : y ∉ l ++ [x]) :
    Explored (Adding T x y) (l ++ [x] ++ [y]) done covered := by
  have hx : x ∈ l ++ [x] := List.mem_append_right _ List.mem_cons_self
  have hy : ∀ {b}, ReflTransGen T y b → b = y := fun hyb => h.eq_of_unseen hdone hpath hyb
  refine ⟨?_, ?_, ?_, ?_, ?_, ?_, ?_, ?_⟩
  · rw [← List.concat_eq_append]
    exact h.nodup.concat hpath
  · refine List.IsChain.append (h.chain.imp fun _ _ => .inl) (List.IsChain.singleton y) ?_
    simp [Adding]
  · intro z hz
    rcases List.mem_append.mp hz with hz | hz
    · exact h.apart z hz
    · rwa [List.mem_singleton.mp hz]
  · rintro p q (hT | ⟨rfl, -⟩)
    · exact (h.source p q hT).imp_right fun hp => List.mem_append_left _ hp
    · exact .inr (List.mem_append_left _ hx)
  · rintro p q (hT | ⟨-, rfl⟩)
    · exact (h.target p q hT).imp_right fun hq => List.mem_append_left _ hq
    · exact .inr (List.mem_append_right _ List.mem_cons_self)
  · intro v hv
    rcases transGen_adding hv with hv | ⟨hvx, hyv⟩
    · exact h.cyclic v hv
    · rw [hy hyv] at hvx
      exact absurd (hy hvx ▸ hx) hpath
  · intro v g hv hg hvg
    have hold : ∀ g ∈ l ++ [x], TransGen T v g → covered v := fun g hg => h.back v g hv hg
    rcases transGen_adding hvg with hvg | ⟨hvx, -⟩
    · rcases List.mem_append.mp hg with hg | hg
      · exact hold g hg hvg
      · rw [List.mem_singleton.mp hg] at hvg
        obtain ⟨c, -, hc⟩ := TransGen.tail'_iff.mp hvg
        exact absurd hc (h.not_target hdone hpath)
    · rcases ReflTransGen.cases_tail hvx with rfl | ⟨c, hvc, hcx⟩
      · exact absurd hv (h.apart _ hx)
      · exact hold x hx (TransGen.tail' hvc hcx)
  · intro l' u m hp g hg hug
    rcases transGen_adding hug with hug | ⟨hux, hyg⟩
    · rcases List.eq_nil_or_concat m with rfl | ⟨m, c, rfl⟩
      · obtain ⟨-, hu⟩ := List.append_inj' hp rfl
        obtain rfl := (List.singleton_inj.mp hu)
        obtain ⟨c, hc, -⟩ := TransGen.head'_iff.mp hug
        exact absurd hc (h.not_source hdone hpath)
      · rw [List.concat_eq_append, ← List.cons_append, ← List.append_assoc] at hp
        exact h.up l' u m (List.append_inj' hp rfl).1 g hg hug
    · -- the new node lies last, so it is not further up
      obtain rfl := hy hyg
      have hnodup : (l' ++ u :: m).Nodup := by
        rw [← hp, ← List.concat_eq_append]
        exact h.nodup.concat hpath
      have hlast : g ∈ u :: m := by
        have hmem : g ∈ ((u :: m).getLast?).toList := by
          have := congrArg List.getLast? hp
          rw [List.getLast?_append_of_ne_nil _ (by simp), List.getLast?_append_of_ne_nil _ (by simp)]
            at this
          rw [← this]
          simp
        exact List.mem_of_getLast? (by simpa using hmem)
      exact absurd hlast ((List.disjoint_of_nodup_append hnodup) hg)

/-- A link back to the path closes a cycle, and covers it. -/
lemma close (h : Explored T path done covered) (hpath : path = l ++ y :: m)
    (hx : path.getLast? = some x) :
    Explored (Adding T x y) path done fun v => covered v ∨ v ∈ y :: m := by
  have hxp : x ∈ path := List.mem_of_getLast? hx
  have hyp : y ∈ path := hpath ▸ List.mem_append_right _ List.mem_cons_self
  -- a node before `y` reaches it along the path
  have hreach : ∀ u ∈ l, TransGen T u y := fun u hu => by
    obtain ⟨s, t, rfl⟩ := List.append_of_mem hu
    have hchain := h.chain
    rw [hpath, List.append_assoc, List.cons_append] at hchain
    exact transGen_of_isChain hchain (List.mem_append_right _ List.mem_cons_self)
  have hdone : ∀ v, done v → ReflTransGen T v x → covered v := fun v hv hvx => by
    rcases ReflTransGen.cases_tail hvx with rfl | ⟨c, hvc, hcx⟩
    · exact absurd hv (h.apart _ hxp)
    · exact h.back v x hv hxp (TransGen.tail' hvc hcx)
  have hside : ∀ u ∈ path, u ∈ l ∨ u ∈ y :: m := fun u hu => List.mem_append.mp (hpath ▸ hu)
  refine ⟨h.nodup, h.chain.imp fun _ _ => .inl, h.apart, ?_, ?_, ?_, ?_, ?_⟩
  · rintro p q (hT | ⟨rfl, -⟩)
    · exact h.source p q hT
    · exact .inr hxp
  · rintro p q (hT | ⟨-, rfl⟩)
    · exact h.target p q hT
    · exact .inr hyp
  · intro v hv
    rcases transGen_adding hv with hv | ⟨hvx, hyv⟩
    · exact .inl (h.cyclic v hv)
    · have hseen : done v ∨ v ∈ path := by
        rcases ReflTransGen.cases_head hvx with rfl | ⟨c, hc, -⟩
        · exact .inr hxp
        · exact h.source v c hc
      rcases hseen with hv | hv
      · exact .inl (hdone v hv hvx)
      · rcases hside v hv with hl | hm
        · exact .inl (h.cyclic v ((hreach v hl).trans_left hyv))
        · exact .inr hm
  · intro v g hv hg hvg
    rcases transGen_adding hvg with hvg | ⟨hvx, -⟩
    · exact .inl (h.back v g hv hg hvg)
    · exact .inl (hdone v hv hvx)
  · intro l' u m' hp g hg hug
    rcases transGen_adding hug with hug | ⟨-, hyg⟩
    · exact .inl (h.up l' u m' hp g hg hug)
    · rcases hside u (hp ▸ List.mem_append_right _ List.mem_cons_self) with hl | hm
      · exact .inl (h.up l' u m' hp g hg ((hreach u hl).trans_left hyg))
      · exact .inr hm

/-- The last node of the path is left behind. -/
lemma finish (h : Explored T (l ++ [x]) done covered) :
    Explored T l (fun v => done v ∨ v = x) covered where
  nodup := (List.nodup_append.mp h.nodup).1
  chain := h.chain.left_of_append
  apart z hz hdone := by
    rcases hdone with hdone | rfl
    · exact h.apart z (List.mem_append_left _ hz) hdone
    · exact (List.disjoint_of_nodup_append h.nodup) hz List.mem_cons_self
  source p q hT := by
    rcases h.source p q hT with hp | hp
    · exact .inl (.inl hp)
    · exact (List.mem_append.mp hp).symm.imp (fun h => .inr (List.mem_singleton.mp h)) id
  target p q hT := by
    rcases h.target p q hT with hq | hq
    · exact .inl (.inl hq)
    · exact (List.mem_append.mp hq).symm.imp (fun h => .inr (List.mem_singleton.mp h)) id
  cyclic := h.cyclic
  back v g hv hg hvg := by
    rcases hv with hv | rfl
    · exact h.back v g hv (List.mem_append_left _ hg) hvg
    · exact h.up l v [] rfl g hg hvg
  up l' u m hp g hg hug := h.up l' u (m ++ [x]) (by rw [hp]; simp) g hg hug

end Explored

/-! ### Cycles -/

/-- The nodes, in order, are a simple cycle of the graph. -/
structure IsCycle (E : α → α → Prop) (c : List α) : Prop where
  ne_nil : c ≠ []
  nodup : c.Nodup
  chain : Cycle.Chain E (c : Cycle α)

/-- The node lies on a directed cycle. -/
def OnCycle (E : α → α → Prop) (v : α) : Prop := ∃ c, IsCycle E c ∧ v ∈ c

variable {E E' : α → α → Prop} {c d : List α} {v : α}

lemma IsCycle.mono (h : IsCycle E c) (hE : ∀ a b, E a b → E' a b) : IsCycle E' c :=
  ⟨h.ne_nil, h.nodup, h.chain.imp hE⟩

lemma IsCycle.of_isRotated (h : IsCycle E c) (hr : c ~r d) : IsCycle E d := by
  have heq : (c : Cycle α) = d := Cycle.coe_eq_coe.mpr hr
  refine ⟨fun hd => h.ne_nil ?_, hr.nodup_iff.mp h.nodup, heq ▸ h.chain⟩
  rw [hd] at hr
  exact List.isRotated_nil_iff.mp hr

/-- A node on a cycle leads back to itself. -/
lemma OnCycle.transGen (h : OnCycle E v) : TransGen E v v := by
  obtain ⟨c, hc, hv⟩ := h
  obtain ⟨s, t, rfl⟩ := List.append_of_mem hv
  have hrot := hc.of_isRotated (d := v :: (t ++ s)) ⟨s.length, by simp⟩
  have hchain := (Cycle.chain_coe_cons _ _ _).mp hrot.chain
  exact transGen_of_isChain (l := []) hchain (by simp)

/-- The path from `y` on, closed by a link from its last node. -/
lemma isCycle_of_close (h : Explored T path done covered) (hpath : path = l ++ y :: m)
    (hx : path.getLast? = some x) : IsCycle (Adding T x y) (y :: m) := by
  have hchain : (y :: m).IsChain T := by
    have := h.chain
    rw [hpath] at this
    exact this.right_of_append
  have hnodup : (y :: m).Nodup := by
    have := h.nodup
    rw [hpath] at this
    exact this.of_append_right
  refine ⟨List.cons_ne_nil _ _, hnodup, (Cycle.chain_coe_cons _ _ _).mpr ?_⟩
  rw [← List.cons_append]
  refine List.IsChain.append (hchain.imp fun _ _ => .inl) (List.IsChain.singleton y) ?_
  rw [hpath, List.getLast?_append_of_ne_nil _ (List.cons_ne_nil _ _)] at hx
  intro p hp q hq
  rw [hx] at hp
  obtain rfl := Option.some.inj hp
  obtain rfl : y = q := by simpa using hq
  exact .inr ⟨rfl, rfl⟩

end Explore
