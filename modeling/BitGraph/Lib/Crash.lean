import Mathlib.Data.List.Basic

/-!
Programs that persist what they do and may die between two writes.

A `Machine` is a program over a disk. A step makes at most one write, so that a crash between
two writes is a crash between two steps; a crash drops the state of the process, and the next
process boots from the disk as it stands. Steps are labelled with what an observer sees, and
`Reach` collects the labels.

* `Machine.restrict` keeps some steps and some crashes, and `Reach.of_restrict` forgets the
  restriction again.
* `Reach.recover` is the rule for crash recovery: an invariant of the running process that
  leaves, wherever the process may die, a disk from which booting establishes it again.
-/

/-- A program over a disk: the disk it is first started on, what a process may be after booting,
the labelled steps, and the states in which the process may die. -/
structure Machine (Disk Proc Label : Type*) where
  fresh : Disk → Prop
  boot : Disk → Proc → Prop
  step : Disk → Proc → List Label → Disk → Proc → Prop
  dies : Disk → Proc → Prop

namespace Machine

variable {Disk Proc Label : Type*}

/-- The states of all runs, with the labels so far. -/
inductive Reach (M : Machine Disk Proc Label) : List Label → Disk → Proc → Prop
  | start {d : Disk} {p : Proc} (hd : M.fresh d) (hp : M.boot d p) : Reach M [] d p
  | step {ls new : List Label} {d d' : Disk} {p p' : Proc} (h : Reach M ls d p)
      (hs : M.step d p new d' p') : Reach M (ls ++ new) d' p'
  | crash {ls : List Label} {d : Disk} {p p' : Proc} (h : Reach M ls d p) (hd : M.dies d p)
      (hp : M.boot d p') : Reach M ls d p'

/-- The machine with the steps and the crashes of a policy only. -/
def restrict (M : Machine Disk Proc Label)
    (okStep : Disk → Proc → List Label → Disk → Proc → Prop) (okDie : Disk → Proc → Prop) :
    Machine Disk Proc Label where
  fresh := M.fresh
  boot := M.boot
  step d p ls d' p' := M.step d p ls d' p' ∧ okStep d p ls d' p'
  dies d p := M.dies d p ∧ okDie d p

variable {M : Machine Disk Proc Label}

/-- A run under a policy is a run. -/
lemma Reach.of_restrict {okStep : Disk → Proc → List Label → Disk → Proc → Prop}
    {okDie : Disk → Proc → Prop} {ls : List Label} {d : Disk} {p : Proc}
    (h : (M.restrict okStep okDie).Reach ls d p) : M.Reach ls d p := by
  induction h with
  | start hd hp => exact .start hd hp
  | step _ hs ih => exact .step ih hs.1
  | crash _ hd hp ih => exact .crash ih hd.1 hp

/-- A policy that allows everything restricts nothing. -/
lemma Reach.to_restrict {okStep : Disk → Proc → List Label → Disk → Proc → Prop}
    {okDie : Disk → Proc → Prop} (hstep : ∀ d p ls d' p', okStep d p ls d' p')
    (hdies : ∀ d p, okDie d p) {ls : List Label} {d : Disk} {p : Proc} (h : M.Reach ls d p) :
    (M.restrict okStep okDie).Reach ls d p := by
  induction h with
  | start hd hp => exact .start hd hp
  | step _ hs ih => exact .step ih ⟨hs, hstep _ _ _ _ _⟩
  | crash _ hd hp ih => exact .crash ih ⟨hd, hdies _ _⟩ hp

/-- **Crash recovery.** `I` holds of the running process. Where it may die `I` leaves the disk
in `D`, and booting from a disk in `D` establishes `I`. -/
theorem Reach.recover {D : List Label → Disk → Prop} {I : List Label → Disk → Proc → Prop}
    (hfresh : ∀ d, M.fresh d → D [] d)
    (hboot : ∀ ls d p, D ls d → M.boot d p → I ls d p)
    (hstep : ∀ ls d p new d' p', I ls d p → M.step d p new d' p' → I (ls ++ new) d' p')
    (hdies : ∀ ls d p, I ls d p → M.dies d p → D ls d)
    {ls : List Label} {d : Disk} {p : Proc} (h : M.Reach ls d p) : I ls d p := by
  induction h with
  | start hd hp => exact hboot _ _ _ (hfresh _ hd) hp
  | step _ hs ih => exact hstep _ _ _ _ _ _ ih hs
  | crash _ hd hp ih => exact hboot _ _ _ (hdies _ _ _ ih hd) hp

end Machine
