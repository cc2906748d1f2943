import BitGraph.Recovery.QueueCounts

/-!
The salts of the recovery queue.

`mergeSalts` reads and writes the record in one transaction; `saveJob` writes a record that was
read in an earlier one, at the end of `enqueueTree` and of `finish`.

* **Reads.** `Wait.seen` is the version a waiting record or table was read at, with its salts.
  `Fresh`: what was read at the version still stored has every salt that is stored.
* **Salts.** `salts_kept`: while every save writes salts that were read at the version still stored
  (`upToDate`), a stored salt stays in every record stored until the job is forgotten. A stale save
  loses one (`salt_lost`).
-/

namespace BitGraph.RecoveryQueue

open Js Recovery

/-! ### What was read -/

/-- Every salt of `a` is in `b`. -/
def SaltsLe (a b : Option Salts) : Prop :=
  ∀ key v, (a.bind fun s => s key) = some v → (b.bind fun s => s key) = some v

/-- A later record has the salts of an earlier one. -/
def SaltsForward : Label → Label → Prop
  | .record r, .record r' => SaltsLe r.salts r'.salts
  | _, _ => True

/-- Every save writes salts that were read from the record still stored; a record without salts
may be replaced. -/
def upToDate (e : Event) (sys : System) : Bool :=
  match e with
  | .commit t j true =>
      match (sys.tabs t).waits[j]? with
      | some (.asked (.saveJob _ seen) _) =>
          seen = some sys.store.version || sys.store.job.all fun r => r.salts.isNone
      | _ => true
  | _ => true

/-- The salts in what waits, and the version they were read at. -/
def Wait.seen : Wait → Option (ℕ × Option Salts)
  | .asked (.saveJob r (some v)) _ | .answered (.record (some r) v) _ => some (v, r.salts)
  | .answered (.salts s v) _ => some (v, some s)
  | _ => none

/-- What was read at the version still stored has every stored salt. -/
def Fresh (store : Store) (w : Wait) : Prop :=
  ∀ x ∈ w.seen, x.1 ≤ store.version ∧
    (x.1 = store.version → ∀ r ∈ store.job, SaltsLe r.salts x.2)

/-- What waits was read nowhere. -/
def Unseen (next : Tab × Option Wait) : Prop := ∀ w ∈ next.2, w.seen = none

section Reads

variable {env : Env} {tab tab' : Tab} {o : ℕ} {save : Bool} {store : Store} {w : Wait}
  {next : Tab × Option Wait}

lemma SaltsLe.refl (a : Option Salts) : SaltsLe a a := fun _ _ h => h

lemma SaltsLe.trans {a b c : Option Salts} (h : SaltsLe a b) (h' : SaltsLe b c) : SaltsLe a c :=
  fun key v hv => h' key v (h key v hv)

/-- The merge keeps every stored salt. -/
lemma saltsLe_merge (stored : Option Salts) (incoming : Salts) :
    SaltsLe stored (some (mergeSaltTables stored incoming)) := by
  intro key v hv
  rw [Option.bind_some, mergeSaltTables, hv, Option.some_or]

lemma Fresh.of_unseen (h : w.seen = none) : Fresh store w := by
  intro x hx
  rw [h] at hx
  exact absurd hx (Option.not_mem_none x)

lemma unseen_some (h : w.seen = none) : Unseen (tab, some w) := fun x hx => by
  obtain rfl := Option.mem_some_iff.mp hx
  exact h

lemma unseen_none : Unseen (tab, none) := fun x hx => absurd hx (Option.not_mem_none x)

lemma unseen_afterBatch : Unseen (tab.afterBatch save o) := by
  rw [Tab.afterBatch]
  split
  · exact unseen_some rfl
  · split
    · exact unseen_some rfl
    · split <;> exact unseen_some rfl

lemma unseen_afterPass : Unseen tab.afterPass := by
  rw [Tab.afterPass]
  split
  · split
    · exact unseen_some rfl
    · exact unseen_none
  · exact unseen_none

lemma unseen_passEnd : Unseen tab.passEnd := by
  rw [Tab.passEnd]
  split
  · split
    · exact unseen_some rfl
    · exact unseen_afterPass
  · exact unseen_afterPass

lemma unseen_nextBatch : Unseen (tab.nextBatch env) := by
  rw [Tab.nextBatch]
  split
  · exact unseen_passEnd
  · split
    · dsimp only
      split
      · exact unseen_passEnd
      · split
        · exact unseen_passEnd
        · exact unseen_some rfl
    · exact unseen_passEnd

lemma unseen_saltFor {sides : List SaltKey} {chosen : List (SaltKey × Str)} :
    Unseen (tab.saltFor save o sides chosen) := by
  rw [Tab.saltFor]
  split
  · exact unseen_some rfl
  · split
    · exact unseen_some rfl
    · split
      · exact unseen_afterBatch
      · split
        · exact unseen_some rfl
        · exact unseen_afterBatch

lemma unseen_apply {writes : List PlannedWrite} {toSalt : List SaltKey} :
    Unseen (tab.apply env save o writes toSalt) := by
  rw [Tab.apply.eq_def]
  split
  · exact unseen_some rfl
  · exact unseen_afterBatch
  · dsimp only
    split
    · exact unseen_afterBatch
    · exact unseen_saltFor

lemma unseen_answered {w : PlannedWrite} {writes : List PlannedWrite} {toSalt : List SaltKey}
    (a : PostAnswer) : Unseen (answered env save tab o w writes toSalt a) := by
  cases a with
  | pending | created | mine => exact unseen_apply
  | others =>
      rw [answered]
      split <;> exact unseen_apply

lemma unseen_chose {s : SaltKey} {sides : List SaltKey} {chosen : List (SaltKey × Str)}
    (own : OwnEntry) : Unseen (chose save tab o s sides chosen own) := by
  cases own <;> exact unseen_saltFor

/-- A save of `finish` carries the salts of the job. -/
lemma fresh_finishSave {seen : Option ℕ} (h : ∀ v ∈ seen, v ≤ store.version ∧
    (v = store.version → ∀ r ∈ store.job, ∀ job ∈ tab.objects[o]?,
      SaltsLe r.salts job.record.salts)) :
    ∀ w ∈ (tab.finishSave o seen).2, Fresh store w := by
  intro w hw
  rw [Tab.finishSave] at hw
  split at hw
  · cases hw
    exact .of_unseen rfl
  · next job ho =>
      cases hw
      intro x hx
      cases seen with
      | none => cases hx
      | some v =>
          cases hx
          obtain ⟨hle, hsalts⟩ := h v rfl
          exact ⟨hle, fun hv r hr => hsalts hv r hr job ho⟩

/-- The code behind a transaction carries on what the transaction has read. -/
lemma fresh_resume {k : Cont} {a : Answer} (h : Fresh store (.answered a k)) :
    ∀ w ∈ (tab.resume env save k a).2, Fresh store w := by
  have hunseen : ∀ {next : Tab × Option Wait}, Unseen next → ∀ w ∈ next.2, Fresh store w :=
    fun hnext w hw => .of_unseen (hnext w hw)
  rw [Tab.resume.eq_def]
  split
  · split
    · exact hunseen unseen_none
    · exact hunseen (unseen_some rfl)
  · exact hunseen unseen_none
  · exact hunseen unseen_none
  · exact hunseen unseen_none
  · split
    · exact hunseen unseen_none
    · exact hunseen (unseen_some rfl)
  · exact hunseen unseen_none
  · exact hunseen unseen_none
  · exact hunseen unseen_none
  · exact hunseen unseen_none
  · next existing repair r stored seen =>
      split
      · split
        · intro w hw
          cases hw
          intro x hx
          cases hx
          exact h (seen, stored.salts) rfl
        · exact hunseen unseen_none
      · exact hunseen unseen_none
  · exact hunseen unseen_none
  · exact hunseen unseen_none
  · exact hunseen unseen_none
  · exact hunseen unseen_none
  · exact hunseen unseen_afterBatch
  · exact hunseen unseen_afterBatch
  · next a o after =>
      cases after with
      | loop => exact hunseen (unseen_some rfl)
      | pass => exact hunseen unseen_afterPass
      | stop => exact hunseen unseen_none
      | finish =>
          rw [Tab.afterPersist, Tab.afterFinishPersist]
          split
          · exact hunseen (unseen_some rfl)
          · split
            · exact hunseen (unseen_some rfl)
            · exact fresh_finishSave (by rintro v ⟨⟩)
  · next o merged seen =>
      refine fresh_finishSave fun v hv => ?_
      cases hv
      obtain ⟨hle, hsalts⟩ := h (seen, some merged) rfl
      refine ⟨hle, fun hv r hr job hjob => ?_⟩
      rw [Tab.modify, List.getElem?_modify_eq] at hjob
      obtain ⟨old, -, rfl⟩ := Option.map_eq_some_iff.mp hjob
      exact hsalts hv r hr
  · exact hunseen (unseen_some rfl)
  · exact hunseen (unseen_some rfl)

/-- What a tab waits for is fresh. -/
def FreshTab (store : Store) (tab : Tab) : Prop := ∀ w ∈ tab.waits, Fresh store w

lemma FreshTab.continue (h : FreshTab store tab) {j : ℕ} (hnext : ∀ w ∈ next.2, Fresh store w) :
    FreshTab store (tab.continue j next) := by
  intro w hw
  rw [Tab.continue] at hw
  dsimp only at hw
  split at hw
  · next x hx =>
      rcases List.mem_or_eq_of_mem_set hw with hw | rfl
      · exact h w hw
      · exact hnext w hx
  · exact h w (List.mem_of_mem_eraseIdx hw)

lemma FreshTab.begin (h : FreshTab store tab) (hwaits : next.1.waits = tab.waits)
    (hnext : Unseen next) : FreshTab store (Tab.begin next) := by
  intro w hw
  rw [Tab.begin, hwaits] at hw
  rcases List.mem_append.mp hw with hw | hw
  · exact h w hw
  · exact .of_unseen (hnext w (Option.mem_toList.mp hw))

/-- One event of a tab. -/
lemma FreshTab.step (h : FreshTab store tab) {e : Event} (hstep : tabStep env tab e = some tab') :
    FreshTab store tab' := by
  have hunseen : ∀ {next : Tab × Option Wait} {j : ℕ}, Unseen next →
      FreshTab store (tab.continue j next) := fun hnext =>
    h.continue fun w hw => .of_unseen (hnext w hw)
  cases e with
  | reload t =>
      cases hstep
      intro w hw
      rcases List.mem_append.mp hw with hw | hw
      · rw [List.mem_singleton.mp hw]
        exact .of_unseen rfl
      · obtain ⟨x, hx, heq⟩ := List.mem_filterMap.mp hw
        have hfresh := h x hx
        cases x with
        | asked op k =>
            cases heq
            cases op with
            | saveJob r seen => cases seen <;> exact hfresh
            | _ => exact .of_unseen rfl
        | _ => cases heq
  | commit t j ok => cases hstep
  | deliver t j save =>
      rw [tabStep] at hstep
      split at hstep <;> cases hstep
      next a k hj => exact h.continue (fresh_resume (h _ (List.mem_of_getElem? hj)))
  | enqueueTree t keep count createdAt =>
      rw [tabStep] at hstep
      dsimp only at hstep
      split at hstep
      · cases hstep
      · split at hstep <;> cases hstep
        exact h.begin rfl (unseen_some rfl)
  | forget t =>
      cases hstep
      exact h.begin rfl (unseen_some rfl)
  | refresh t =>
      rw [tabStep] at hstep
      split at hstep <;> cases hstep
      exact h.begin rfl (unseen_some rfl)
  | kick t =>
      rw [tabStep] at hstep
      split at hstep
      · cases hstep
      · dsimp only at hstep
        split at hstep
        · split at hstep <;> cases hstep
          · exact h.begin rfl (unseen_some rfl)
          · exact h.begin rfl (unseen_some rfl)
        · cases hstep
          exact h.begin rfl (unseen_some rfl)
  | persistDirty t =>
      rw [tabStep] at hstep
      split at hstep
      · split at hstep <;> cases hstep
        exact h.begin rfl (unseen_some rfl)
      · cases hstep
  | loops t j =>
      rw [tabStep] at hstep
      split at hstep <;> cases hstep
      exact hunseen unseen_nextBatch
  | sealed t j ok =>
      rw [tabStep] at hstep
      split at hstep <;> cases hstep
      refine hunseen ?_
      split <;> exact unseen_some rfl
  | posted t j ok save =>
      rw [tabStep] at hstep
      split at hstep <;> cases hstep
      refine hunseen ?_
      split
      · exact unseen_apply
      · exact unseen_some rfl
  | answers t j a save =>
      rw [tabStep] at hstep
      split at hstep <;> cases hstep
      exact hunseen (unseen_answered a)
  | chooses t j own save =>
      rw [tabStep] at hstep
      split at hstep <;> cases hstep
      exact hunseen (unseen_chose own)

end Reads

/-! ### Runs -/

/-- The salts a label has stored are stored. -/
def StoredSalts (store : Store) : Label → Prop
  | .record r => ∃ r', store.job = some r' ∧ SaltsLe r.salts r'.salts
  | _ => True

section Runs

variable {env : Env} {sys sys' : System} {ls new : List Label} {e : Event} {s s' : Store} {op : Op}
  {a : Answer}

/-- A write of the record leaves what waits behind. -/
lemma Fresh.put {w : Wait} (h : Fresh s w) (r : Record) : Fresh (s.put r) w := by
  intro x hx
  have hle := (h x hx).1
  rw [Store.put]
  dsimp only
  exact ⟨by omega, fun heq => by omega⟩

/-- A transaction keeps what waits fresh, and answers what is fresh. -/
lemma transact_fresh (h : transact s op = (a, new, s')) :
    (∀ w, Fresh s w → Fresh s' w) ∧ ∀ k, Fresh s' (.answered a k) := by
  have hown : ∀ (s : Store) (k : Cont), Fresh s (.answered (.record s.job s.version) k) := by
    intro s k x hx
    cases hjob : s.job with
    | none =>
        rw [hjob] at hx
        cases hx
    | some r =>
        rw [hjob] at hx
        cases hx
        exact ⟨Nat.le_refl _, fun _ r' hr' => by cases hr'; exact .refl _⟩
  cases op with
  | loadJobs =>
      cases h
      exact ⟨fun _ hw => hw, hown s⟩
  | saveJob r seen =>
      cases h
      exact ⟨fun _ hw => hw.put r, fun _ => .of_unseen rfl⟩
  | addJob r =>
      rw [transact] at h
      split at h <;> cases h
      · next stored hstored =>
          exact ⟨fun _ hw => hw, fun k => hstored ▸ hown s k⟩
      · exact ⟨fun _ hw => hw.put r, hown (s.put r)⟩
  | loadProgress =>
      cases h
      exact ⟨fun _ hw => hw, fun _ => .of_unseen rfl⟩
  | mergeProgress progress =>
      cases h
      exact ⟨fun _ hw => hw, fun _ => .of_unseen rfl⟩
  | mergeSalts salts =>
      rw [transact] at h
      split at h <;> cases h
      · exact ⟨fun _ hw => hw, fun _ => .of_unseen rfl⟩
      · refine ⟨fun _ hw => hw.put _, fun k x hx => ?_⟩
        cases hx
        exact ⟨Nat.le_refl _, fun _ r hr => by cases hr; exact .refl _⟩
  | deleteJob =>
      cases h
      refine ⟨fun w hw x hx => ?_, fun _ => .of_unseen rfl⟩
      have hle := (hw x hx).1
      exact ⟨by dsimp only; omega, fun _ => by rintro r ⟨⟩⟩

/-- A transaction stores no record that lacks a stored salt, where its save is up to date. -/
lemma transact_salts (h : transact s op = (a, new, s'))
    (hsave : ∀ r seen, op = .saveJob r seen → ∀ r' ∈ s.job, SaltsLe r'.salts r.salts) :
    new = [] ∧ s'.job = s.job ∨ ∃ l, new = [l] ∧ StoredSalts s' l
      ∧ (l ≠ .forgotten → ∀ l', StoredSalts s l' → SaltsForward l' l ∧ StoredSalts s' l') := by
  have hput : ∀ r : Record, (∀ r' ∈ s.job, SaltsLe r'.salts r.salts) → ∀ l', StoredSalts s l' →
      SaltsForward l' (.record r) ∧ StoredSalts (s.put r) l' := by
    intro r hr l' hl'
    cases l' with
    | record r₀ =>
        obtain ⟨r', hr', hle⟩ := hl'
        exact ⟨hle.trans (hr r' hr'), r, rfl, hle.trans (hr r' hr')⟩
    | _ => exact ⟨trivial, trivial⟩
  cases op with
  | loadJobs | loadProgress =>
      cases h
      exact .inl ⟨rfl, rfl⟩
  | saveJob r seen =>
      cases h
      exact .inr ⟨_, rfl, ⟨r, rfl, .refl _⟩, fun _ => hput r (hsave r seen rfl)⟩
  | addJob r =>
      rw [transact] at h
      split at h <;> cases h
      · exact .inl ⟨rfl, rfl⟩
      · next hnone =>
          refine .inr ⟨_, rfl, ⟨r, rfl, .refl _⟩, fun _ => hput r fun r' hr' => ?_⟩
          rw [hnone] at hr'
          cases hr'
  | mergeProgress progress =>
      cases h
      refine .inr ⟨_, rfl, trivial, fun _ l' hl' => ?_⟩
      cases l' with
      | record r => exact ⟨trivial, hl'⟩
      | _ => exact ⟨trivial, trivial⟩
  | mergeSalts salts =>
      rw [transact] at h
      split at h <;> cases h
      · exact .inl ⟨rfl, rfl⟩
      · next stored hstored =>
          refine .inr ⟨_, rfl, ⟨_, rfl, .refl _⟩, fun _ => hput _ fun r' hr' => ?_⟩
          obtain rfl := Option.some.inj (hstored.symm.trans hr')
          exact saltsLe_merge _ _
  | deleteJob =>
      cases h
      exact .inr ⟨_, rfl, trivial, fun hne => absurd rfl hne⟩

/-- A save that is up to date writes every stored salt. -/
lemma saltsLe_of_upToDate {t j : ℕ} {r : Record} {seen : Option ℕ} {k : Cont}
    (hok : upToDate (.commit t j true) sys = true)
    (hj : (sys.tabs t).waits[j]? = some (.asked (.saveJob r seen) k))
    (hfresh : Fresh sys.store (.asked (.saveJob r seen) k)) :
    ∀ r' ∈ sys.store.job, SaltsLe r'.salts r.salts := by
  intro r' hr'
  rw [upToDate, hj] at hok
  dsimp only at hok
  rw [Bool.or_eq_true, decide_eq_true_eq] at hok
  rcases hok with rfl | hnone
  · exact (hfresh (sys.store.version, r.salts) rfl).2 rfl r' hr'
  · intro key v hv
    rw [hr', Option.all_some, Option.isNone_iff_eq_none] at hnone
    rw [hnone] at hv
    exact nomatch hv

/-- **Salts.** While every save writes salts that were read at the version still stored, a salt
that is in a stored record is in every record stored until the job is forgotten. -/
theorem salts_kept {p : Unit} (h : (machine env upToDate).Reach ls sys p) :
    Between (· = .forgotten) SaltsForward ls := by
  have hinv : (∀ t, FreshTab sys.store (sys.tabs t)) ∧ Between (· = .forgotten) SaltsForward ls
      ∧ Since (· = .forgotten) (StoredSalts sys.store) ls := by
    refine Machine.Reach.invariant
      (D := fun ls sys => (∀ t, FreshTab sys.store (sys.tabs t))
        ∧ Between (· = .forgotten) SaltsForward ls
        ∧ Since (· = .forgotten) (StoredSalts sys.store) ls)
      (I := fun ls sys _ => (∀ t, FreshTab sys.store (sys.tabs t))
        ∧ Between (· = .forgotten) SaltsForward ls
        ∧ Since (· = .forgotten) (StoredSalts sys.store) ls) ?_ ?_ ?_ ?_ h
    · rintro _ rfl
      refine ⟨fun t w hw => ?_, .nil, .nil⟩
      rw [List.mem_singleton.mp hw]
      exact .of_unseen rfl
    · exact fun ls sys p hI _ => hI
    · rintro e ls sys p new sys' p' ⟨hfresh, hbetween, hsince⟩ hok hfire
      obtain ⟨⟨new', sys''⟩, hstep, heq⟩ := Option.map_eq_some_iff.mp hfire
      cases heq
      have hsame : ∀ {store : Store}, store.job = sys.store.job →
          Since (· = .forgotten) (StoredSalts store) ls := fun hjob =>
        hsince.mono fun l hl => by
          cases l with
          | record r => rwa [StoredSalts, hjob]
          | _ => trivial
      rcases step_cases hstep with ⟨t, j, ok, op, k, a, rfl, hj, hrun, htabs⟩
        | ⟨tab, rfl, htab, hstore, htabs⟩
      · have hwait := hfresh t _ (List.mem_of_getElem? hj)
        have hafter : (∀ w, Fresh sys.store w → Fresh sys''.store w)
            ∧ (∀ k, Fresh sys''.store (.answered a k))
            ∧ (new' = [] ∧ sys''.store.job = sys.store.job ∨ ∃ l, new' = [l]
              ∧ StoredSalts sys''.store l ∧ (l ≠ .forgotten → ∀ l', StoredSalts sys.store l' →
                SaltsForward l' l ∧ StoredSalts sys''.store l')) := by
          split at hrun
          · next hyes =>
              subst hyes
              have hsave := transact_salts hrun fun r seen hop => by
                subst hop
                exact saltsLe_of_upToDate hok hj hwait
              exact ⟨(transact_fresh hrun).1, (transact_fresh hrun).2, hsave⟩
          · obtain ⟨rfl, rfl, hkept⟩ : .failed = a ∧ [] = new' ∧ sys.store = sys''.store := by
              simpa using hrun
            rw [← hkept]
            exact ⟨fun w hw => hw, fun _ => .of_unseen rfl, .inl ⟨rfl, rfl⟩⟩
        obtain ⟨hkept, hanswer, hsalts⟩ := hafter
        refine ⟨fun t' w hw => ?_, ?_⟩
        · rw [htabs] at hw
          rcases eq_or_ne t' t with rfl | hne
          · rw [Function.update_self] at hw
            rcases List.mem_or_eq_of_mem_set hw with hw | rfl
            · exact hkept w (hfresh t' w hw)
            · exact hanswer k
          · rw [Function.update_of_ne hne] at hw
            exact hkept w (hfresh t' w hw)
        · rcases hsalts with ⟨rfl, hjob⟩ | ⟨l, rfl, hl, hthen⟩
          · rw [List.append_nil]
            exact ⟨hbetween, hsame hjob⟩
          · refine ⟨hbetween.snoc ?_,
              .snoc (fun hne => hsince.mono fun l' hl' => (hthen hne l' hl').2) hl⟩
            by_cases hne : l = .forgotten
            · subst hne
              exact hsince.mono fun l' _ => by cases l' <;> trivial
            · exact hsince.mono fun l' hl' => (hthen hne l' hl').1
      · rw [List.append_nil]
        refine ⟨fun t' => ?_, hbetween, hsame (by rw [hstore])⟩
        rw [htabs, hstore]
        rcases eq_or_ne t' e.tab with rfl | hne
        · rw [Function.update_self]
          exact (hfresh e.tab).step htab
        · rw [Function.update_of_ne hne]
          exact hfresh t'
    · exact fun ls sys p hI => hI
  exact hinv.2.1

end Runs

/-! ### Two tabs -/

/-- The salts a run stores for the one side of the first member. -/
def storedSalts (ls : List Label) : List (Option Str) :=
  ls.filterMap fun
    | .record r => some (r.salts.bind fun s => s (0, .asIs))
    | _ => none

/-- A page works a job whose first write finds another entry, under the salt `1`. -/
def saltsFirst (t : ℕ) : List Event :=
  [.kick t, .loops t 0, .sealed t 0 true, .posted t 0 true false, .answers t 0 .others false,
    .chooses t 0 (.absent (js "1")) false] ++ settles t

/-- The salted write lands, and the job is finished. -/
def finishes (t : ℕ) : List Event :=
  [.loops t 0, .loops t 0, .sealed t 0 true, .posted t 0 true false, .answers t 0 .created false]
    ++ settles t ++ settles t ++ settles t

theorem salts_kept_finished : ∃ ls sys, (machine sampleEnv upToDate).Reach ls sys ()
    ∧ storedSalts ls = [none, some (js "1"), some (js "1"), some (js "1")]
    ∧ Between (· = .forgotten) SaltsForward ls := by
  have hrun : (Machine.runAll (fun e sys _ => (step sampleEnv e sys).map fun r => (r.1, r.2, ()))
      (fun e sys _ => upToDate e sys = true)
      (settles 0 ++ [.enqueueTree 0 true 0 7] ++ settles 0 ++ saltsFirst 0 ++ finishes 0)
      .init ()).map (fun r => storedSalts r.1)
      = some [none, some (js "1"), some (js "1"), some (js "1")] := by
    decide +kernel
  obtain ⟨⟨ls, sys, ⟨⟩⟩, hsome, hseen⟩ := Option.map_eq_some_iff.mp hrun
  have hstart : (machine sampleEnv upToDate).Reach [] .init () := .start rfl trivial
  have hreach : (machine sampleEnv upToDate).Reach ls sys () := hstart.runAll hsome
  exact ⟨ls, sys, hreach, hseen, salts_kept hreach⟩

/-- **A salt is lost.** A tree is stored as kept nowhere. Two tabs enqueue it again to keep a
copy; the second saves its record, and a salt for a side whose name is held. Then the first saves
the record it made from what it had read before, without the salt. -/
theorem salt_lost : ¬ ∀ ls sys p, (machine sampleEnv fun _ _ => true).Reach ls sys p →
    Between (· = .forgotten) SaltsForward ls := by
  intro hall
  have hrun : (Machine.runAll (fun e sys _ => (step sampleEnv e sys).map fun r => (r.1, r.2, ()))
      (fun _ _ _ => true = true)
      (settles 0 ++ settles 1 ++ [.enqueueTree 0 false 1 6] ++ settles 0
        ++ [.enqueueTree 0 true 0 7] ++ settles 0 ++ [.enqueueTree 1 true 0 8] ++ settles 1
        ++ settles 1 ++ saltsFirst 1 ++ [.commit 0 0 true])
      .init ()).map (fun r => (r.1.length, storedSalts r.1))
      = some (4, [none, none, some (js "1"), none]) := by
    decide +kernel
  obtain ⟨⟨ls, sys, ⟨⟩⟩, hsome, hseen⟩ := Option.map_eq_some_iff.mp hrun
  obtain ⟨hlen, hseen⟩ := Prod.mk.inj hseen
  have hbetween := hall ls sys () (reach_of_runAll hsome)
  obtain ⟨a, b, c, d, rfl⟩ : ∃ a b c d, ls = [a, b, c, d] := by
    match ls, hlen with
    | [a, b, c, d], _ => exact ⟨a, b, c, d, rfl⟩
  have hstep := hbetween [a, b] c [] d [] rfl fun l hl => absurd hl List.not_mem_nil
  cases a <;> cases b <;> cases c <;> cases d <;>
    simp only [storedSalts, List.filterMap, List.cons.injEq, Option.some.injEq, reduceCtorEq,
      and_false, false_and, List.nil_eq] at hseen
  obtain ⟨-, -, hkept, hlost, -⟩ := hseen
  exact nomatch (hstep (0, .asIs) (js "1") hkept).symm.trans hlost

end BitGraph.RecoveryQueue
