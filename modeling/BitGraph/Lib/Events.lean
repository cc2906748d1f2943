import BitGraph.Lib.Crash

/-!
Machines that answer events.

* `Machine.onEvents` is the machine of a program given by what it answers to each event, under a
  policy that says which events may come. A crash may come between any two of them.
* `Machine.runAll` answers a list of events; `Reach.runAll` is the run it makes.
* `Reach.invariant` is the rule for crash recovery with the event and the policy at hand.
-/

namespace Machine

variable {Disk Proc Label Event : Type*}

/-- The machine of a program that answers events, `none` where it cannot take one. -/
def onEvents (fresh : Disk → Prop) (boot : Disk → Proc → Prop)
    (fire : Event → Disk → Proc → Option (List Label × Disk × Proc))
    (ok : Event → Disk → Proc → Prop) : Machine Disk Proc Label where
  fresh := fresh
  boot := boot
  step d p ls d' p' := ∃ e, ok e d p ∧ fire e d p = some (ls, d', p')
  dies _ _ := True

/-- The answers to a list of events, if the policy allows them. -/
def runAll (fire : Event → Disk → Proc → Option (List Label × Disk × Proc))
    (ok : Event → Disk → Proc → Prop) [∀ e d p, Decidable (ok e d p)] :
    List Event → Disk → Proc → Option (List Label × Disk × Proc)
  | [], d, p => some ([], d, p)
  | e :: es, d, p =>
      if ok e d p then do
        let (new, d', p') ← fire e d p
        let (rest, d'', p'') ← runAll fire ok es d' p'
        return (new ++ rest, d'', p'')
      else none

variable {fresh : Disk → Prop} {boot : Disk → Proc → Prop}
  {fire : Event → Disk → Proc → Option (List Label × Disk × Proc)} {ok : Event → Disk → Proc → Prop}

/-- A list of events the policy allows makes a run. -/
lemma Reach.runAll [∀ e d p, Decidable (ok e d p)] {es : List Event} {ls new : List Label}
    {d d' : Disk} {p p' : Proc} (h : (onEvents fresh boot fire ok).Reach ls d p)
    (hrun : Machine.runAll fire ok es d p = some (new, d', p')) :
    (onEvents fresh boot fire ok).Reach (ls ++ new) d' p' := by
  induction es generalizing ls new d p with
  | nil =>
      obtain ⟨rfl, rfl, rfl⟩ : [] = new ∧ d = d' ∧ p = p' := by simpa [Machine.runAll] using hrun
      rw [List.append_nil]
      exact h
  | cons e es ih =>
      rw [Machine.runAll] at hrun
      split at hrun
      · next hok =>
          obtain ⟨⟨first, d₁, p₁⟩, hfire, hthen⟩ := Option.bind_eq_some_iff.mp hrun
          obtain ⟨⟨rest, d₂, p₂⟩, hrest, heq⟩ := Option.bind_eq_some_iff.mp hthen
          obtain ⟨rfl, rfl, rfl⟩ : first ++ rest = new ∧ d₂ = d' ∧ p₂ = p' := by
            simpa using heq
          rw [← List.append_assoc]
          exact ih (h.step ⟨e, hok, hfire⟩) hrest
      · exact nomatch hrun

/-- **Crash recovery under a policy.** `I` holds of the running process, `D` of the disk it
leaves. -/
theorem Reach.invariant {D : List Label → Disk → Prop} {I : List Label → Disk → Proc → Prop}
    (hfresh : ∀ d, fresh d → D [] d) (hboot : ∀ ls d p, D ls d → boot d p → I ls d p)
    (hstep : ∀ e ls d p new d' p', I ls d p → ok e d p → fire e d p = some (new, d', p') →
      I (ls ++ new) d' p')
    (hdies : ∀ ls d p, I ls d p → D ls d) {ls : List Label} {d : Disk} {p : Proc}
    (h : (onEvents fresh boot fire ok).Reach ls d p) : I ls d p :=
  h.recover hfresh hboot
    (fun ls d p new d' p' hI ⟨e, hok, hfire⟩ => hstep e ls d p new d' p' hI hok hfire)
    fun ls d p hI _ => hdies ls d p hI

end Machine
