import BitGraph.Js.Convert
import Mathlib.Data.Fintype.EquivFin
import Mathlib.Data.List.TakeWhile

/-!
`policy.ts`: policy documents.

* **Parsing.** `extractSection` takes the lines of a section, `parsePolicy` the rules off a document.
* **Validation.** `validateAction` holds an action against the rules. The hour of a timestamp depends
  on the time zone, `getHours`, and is not a number where the timestamp is no date.
* **Sections.** `belowHeading` says which lines the loop takes (`extractSection_eq`), `lastWindow`
  which window stays.
* **Default deny.** `allowedItems` and `statedWindows` are what a document says under its two titles,
  `DefaultDeny` that an action passes only inside them; `default_deny_iff` says when every tool is
  held to that. A document without the section of tools allows every tool (`unnamed_tool_allowed`).
-/

namespace BitGraph

open Js

namespace Policy

/-! ### Lines -/

/-- What `.` does not match. -/
def isLineEnd (c : UInt16) : Bool := c == 10 || c == 13 || c == 0x2028 || c == 0x2029

/-- `^##\s+`, the text behind it. -/
def headingRest : Str → Option Str
  | 35 :: 35 :: c :: s => if isBlank c then some (s.dropWhile isBlank) else none
  | _ => none

def isHeading (line : Str) : Bool := (headingRest line).isSome

/-- A unit of a pattern against a unit of a text, with the flag `i`: letters of ASCII in either case. -/
def sameLetter (p c : UInt16) : Bool :=
  p == c || (65 ≤ p.toNat && p.toNat ≤ 90 && c == p + 32) || (97 ≤ p.toNat && p.toNat ≤ 122 && c == p - 32)

/-- A literal at the head of a text, with the flag `i`. -/
def startsWith : Str → Str → Bool
  | [], _ => true
  | _ :: _, [] => false
  | p :: ps, c :: s => sameLetter p c && startsWith ps s

/-- `^##\s+` and the name of a section. -/
def isSection (name line : Str) : Bool := (headingRest line).any (startsWith name)

/-- `replace(/^[-*]\s*/, "")`. -/
def unbullet : Str → Str
  | c :: s => if c = 45 ∨ c = 42 then s.dropWhile isBlank else c :: s
  | [] => []

/-- A line without its bullet and its blanks. -/
def clean (line : Str) : Str := trim (unbullet line)

/-- The loop over the lines; the flag is `inSection`. -/
def sectionLoop (name : Str) : Bool → List Str → List Str
  | _, [] => []
  | inSection, line :: lines =>
      if isSection name line then sectionLoop name true lines
      else if inSection && isHeading line then []
      else if inSection && trim line != [] then line :: sectionLoop name inSection lines
      else sectionLoop name inSection lines

def extractSection (lines : List Str) (name : Str) : List Str := sectionLoop name false lines

/-! ### Fields -/

/-- A pattern tried at every place of a text, from its head. -/
def search {α : Type} (pattern : Str → Option α) : Str → Option α
  | [] => pattern []
  | c :: s => (pattern (c :: s)).or (search pattern s)

/-- `(\d+)` at the head of a text, with the rest. -/
def digits (s : Str) : Option (Str × Str) :=
  if (spanDigits s).1 = [] then none else some (spanDigits s)

/-- `parseInt(s, 10)` of digits. -/
def parseDigits (s : Str) : Number := .ofDecimal false (readDecimal s) 0

/-- `key\s*(\d+)`. -/
def countOf (key line : Str) : Option Number :=
  search (fun s => do
    let t ← stripPrefix? key s
    let (d, _) ← digits (t.dropWhile isBlank)
    return parseDigits d) line

structure TimeWindow where
  start : Number
  stop : Number
  deriving DecidableEq

/-- `hours:\s*(\d+)-(\d+)`. -/
def hoursOf (line : Str) : Option TimeWindow :=
  search (fun s => do
    let t ← stripPrefix? (js "hours:") s
    let (start, t) ← digits (t.dropWhile isBlank)
    let t ← stripPrefix? (js "-") t
    let (stop, _) ← digits t
    return ⟨parseDigits start, parseDigits stop⟩) line

/-- `\s*(.+)`: where only blanks are left, one of them is given back. -/
def restOfLine (s : Str) : Option Str :=
  match s.dropWhile isBlank with
  | [] => (s.reverse.find? fun c => !isLineEnd c).map fun c => [c]
  | t => some (t.takeWhile fun c => !isLineEnd c)

/-- `^#\s+Policy:\s*(.+)`. -/
def nameOf : Str → Option Str
  | 35 :: c :: s => do
      if isBlank c = false then none
      restOfLine (← stripPrefix? (js "Policy:") (s.dropWhile isBlank))
  | _ => none

/-- `^version:\s*(.+)`. -/
def versionOf (line : Str) : Option Str := do restOfLine (← stripPrefix? (js "version:") line)

def extractField (lines : List Str) (pattern : Str → Option Str) : Option Str :=
  (lines.findSome? pattern).map trim

/-! ### Parsing -/

/-- The rules; `defaultDeny` is always true and left out. -/
structure PolicyRules where
  allowedTools : Option (List Str) := none
  maxActions : Option Number := none
  rateLimit : Option Number := none
  timeWindow : Option TimeWindow := none
  requireApproval : Option (List Str) := none
  deriving DecidableEq

structure PolicyDocument where
  name : Str
  version : Str
  rules : PolicyRules
  raw : Str
  deriving DecidableEq

/-- The items of a section of tools, none where the section is empty. -/
def toolsOf (lines : List Str) : Option (List Str) :=
  if lines = [] then none else some ((lines.map clean).filter (· != []))

/-- The last line of a section that a pattern reads. -/
def lastOf {α : Type} (pattern : Str → Option α) (lines : List Str) : Option α :=
  lines.foldl (fun found line => (pattern (clean line)).or found) none

def parsePolicy (markdown : Str) : PolicyDocument :=
  let lines := splitLines markdown
  let limits := extractSection lines (js "Limits")
  { name := (extractField lines nameOf).getD (js "Unnamed Policy")
    version := (extractField lines versionOf).getD (js "1.0")
    rules :=
      { allowedTools := toolsOf (extractSection lines (js "Allowed Tools"))
        maxActions := lastOf (countOf (js "max_actions:")) limits
        rateLimit := lastOf (countOf (js "rate_limit:")) limits
        timeWindow := lastOf hoursOf (extractSection lines (js "Time Window"))
        requireApproval := toolsOf (extractSection lines (js "Require Approval")) }
    raw := markdown }

/-! ### Validation -/

structure Action where
  tool : Str
  timestamp : Option Number

structure ActionValidationResult where
  valid : Bool
  reason : Option Str := none
  deriving DecidableEq

/-- `a >= b` of two numbers. -/
def atLeast (a b : Number) : Bool := a != .nan && b != .nan && !Number.lt a b

/-- `hour < start || hour >= end`. -/
def TimeWindow.excludes (w : TimeWindow) (hour : Number) : Bool :=
  Number.lt hour w.start || atLeast hour w.stop

def validateAction (getHours : Number → Number) (action : Action) (rules : PolicyRules) :
    ActionValidationResult :=
  if rules.allowedTools.any fun tools => !tools.contains action.tool then
    { valid := false, reason := some (js "Tool \"" ++ action.tool ++ js "\" not in allowed list") }
  else
    match rules.timeWindow.filter fun w => action.timestamp.any fun t => w.excludes (getHours t) with
    | some w =>
        { valid := false
          reason := some (js "Action outside allowed hours (" ++ w.start.toStr ++ js "-"
            ++ w.stop.toStr ++ js ")") }
    | none =>
        if rules.requireApproval.any fun tools => tools.contains action.tool then
          { valid := true, reason := some (js "Tool \"" ++ action.tool ++ js "\" requires approval") }
        else { valid := true }

/-! ### Sections -/

variable {name line text : Str} {lines : List Str}

/-- The lines under the first heading with a name in front, up to the next heading without it: those
that are not blank, the headings with the name left out. -/
def belowHeading (name : Str) (lines : List Str) : List Str :=
  ((lines.dropWhile fun line => !isSection name line).takeWhile
    fun line => isSection name line || !isHeading line).filter
      fun line => !isSection name line && trim line != []

lemma isHeading_of_isSection (h : isSection name line = true) : isHeading line = true := by
  rw [isSection] at h
  rw [isHeading]
  cases hrest : headingRest line with
  | none => rw [hrest] at h; cases h
  | some t => rfl

/-- Inside the section the loop runs to the next heading. -/
lemma sectionLoop_true : sectionLoop name true lines
    = (lines.takeWhile fun line => isSection name line || !isHeading line).filter
      fun line => !isSection name line && trim line != [] := by
  induction lines with
  | nil => rfl
  | cons line lines ih =>
    rw [sectionLoop]
    cases hname : isSection name line with
    | true => simp [hname, ih]
    | false =>
      cases hhead : isHeading line with
      | true => simp [hname, hhead]
      | false => cases hblank : trim line != [] <;> simp [hname, hhead, hblank, ih]

/-- The lines the parser takes. -/
theorem extractSection_eq : extractSection lines name = belowHeading name lines := by
  rw [extractSection]
  induction lines with
  | nil => rfl
  | cons line lines ih =>
    rw [sectionLoop, belowHeading]
    cases hname : isSection name line with
    | true =>
      have hhead := isHeading_of_isSection hname
      simp [hname, sectionLoop_true]
    | false => simpa [hname, belowHeading] using ih

/-- The window of the last line under the heading that names one. -/
def lastWindow (text : Str) : Option TimeWindow :=
  (((belowHeading (js "Time Window") (splitLines text)).map clean).filterMap hoursOf).getLast?

lemma lastOf_eq {α : Type} {pattern : Str → Option α} :
    lastOf pattern lines = ((lines.map clean).filterMap pattern).getLast? := by
  rw [lastOf]
  induction lines using List.reverseRecOn with
  | nil => rfl
  | append_singleton lines line ih =>
    rw [List.foldl_append, ih, List.map_append, List.filterMap_append]
    cases h : pattern (clean line) with
    | none => simp [h]
    | some a => simp [h]

/-! ### Default deny -/

/-- The title of a heading. -/
def headingTitle (line : Str) : Option Str := (headingRest line).map trim

/-- The lines under the headings with exactly a title; `current` is the title above the first line. -/
def linesTitled (title : Str) : Option Str → List Str → List Str
  | _, [] => []
  | current, line :: lines =>
      match headingTitle line with
      | some t => linesTitled title (some t) lines
      | none =>
          if current = some title then line :: linesTitled title current lines
          else linesTitled title current lines

/-- The text of a list item. -/
def listItem : Str → Option Str
  | c :: s => if c = 45 ∨ c = 42 then (some (trim s)).filter (· ≠ []) else none
  | [] => none

/-- The list items of the section titled exactly Allowed Tools. -/
def allowedItems (text : Str) : List Str :=
  (linesTitled (js "Allowed Tools") none (splitLines text)).filterMap listItem

/-- The windows the section titled exactly Time Window states. -/
def statedWindows (text : Str) : List TimeWindow :=
  ((linesTitled (js "Time Window") none (splitLines text)).filterMap listItem).filterMap hoursOf

/-- An hour of a window, which may run over midnight. -/
def TimeWindow.Contains (w : TimeWindow) (hour : Number) : Prop :=
  if Number.lt w.stop w.start then atLeast hour w.start = true ∨ Number.lt hour w.stop = true
  else atLeast hour w.start = true ∧ Number.lt hour w.stop = true

/-- A timestamp, where there is one, lies in every window the document states. -/
def Timely (getHours : Number → Number) (text : Str) (timestamp : Option Number) : Prop :=
  ∀ w ∈ statedWindows text, ∀ t ∈ timestamp, w.Contains (getHours t)

/-- An action passes only with a listed tool and at a stated hour. -/
def DefaultDeny (getHours : Number → Number) (text : Str) (action : Action) : Prop :=
  (validateAction getHours action (parsePolicy text).rules).valid = true →
    action.tool ∈ allowedItems text ∧ Timely getHours text action.timestamp

/-- The window that stays excludes the timestamp. -/
def Barred (getHours : Number → Number) (text : Str) (timestamp : Option Number) : Prop :=
  ∃ w ∈ lastWindow text, ∃ t ∈ timestamp, w.excludes (getHours t) = true

/-- The lines the parser reads tools off. -/
def toolLines (text : Str) : List Str := belowHeading (js "Allowed Tools") (splitLines text)

lemma mem_toolsOf {tool : Str} : (toolsOf lines).any (fun tools => !tools.contains tool) = false ↔
    lines = [] ∨ tool ≠ [] ∧ tool ∈ lines.map clean := by
  rw [toolsOf]
  by_cases h : lines = []
  · simp [h]
  · rw [if_neg h]
    simp [h, and_comm]

lemma valid_iff {getHours : Number → Number} {action : Action} :
    (validateAction getHours action (parsePolicy text).rules).valid = true ↔
      (toolLines text = [] ∨ action.tool ≠ [] ∧ action.tool ∈ (toolLines text).map clean) ∧
        ¬ Barred getHours text action.timestamp := by
  have htools := @mem_toolsOf (toolLines text) action.tool
  have hwindow : (parsePolicy text).rules.timeWindow = lastWindow text := by
    rw [parsePolicy]
    dsimp only
    rw [lastOf_eq, extractSection_eq]
    rfl
  have hallowed : (parsePolicy text).rules.allowedTools = toolsOf (toolLines text) := by
    rw [parsePolicy]
    dsimp only
    rw [extractSection_eq]
    rfl
  rw [validateAction, hallowed, hwindow, ← htools]
  cases hdenied : (toolsOf (toolLines text)).any fun tools => !tools.contains action.tool with
  | true => simp
  | false =>
    rw [if_neg (by simp)]
    cases hwin : (lastWindow text).filter fun w =>
        action.timestamp.any fun t => w.excludes (getHours t) with
    | some w =>
      obtain ⟨hw, hout⟩ := Option.filter_eq_some_iff.mp hwin
      obtain ⟨t, ht, hout⟩ := (Option.any_eq_true _ _).mp hout
      have hbar : Barred getHours text action.timestamp := ⟨w, hw, t, ht, hout⟩
      simp [hbar]
    | none =>
      have hopen : ¬ Barred getHours text action.timestamp := by
        rintro ⟨w, hw, t, ht, hout⟩
        refine Option.filter_eq_none_iff.mp hwin w hw ?_
        exact (Option.any_eq_true _ _).mpr ⟨t, ht, hout⟩
      dsimp only
      split <;> simpa using hopen

/-- **Default deny.** Every tool is held to the list and the windows of a document exactly where the
window that stays excludes the timestamp, or the parser finds lines to read tools off, each an item
of the section of that title, and the timestamp lies in the stated windows if there is a tool at all. -/
theorem default_deny_iff (getHours : Number → Number) (text : Str) (timestamp : Option Number) :
    (∀ tool, DefaultDeny getHours text ⟨tool, timestamp⟩) ↔
      Barred getHours text timestamp ∨ (toolLines text ≠ [] ∧ ∀ line ∈ toolLines text,
        clean line ≠ [] → clean line ∈ allowedItems text ∧ Timely getHours text timestamp) := by
  constructor
  · intro h
    by_cases hbar : Barred getHours text timestamp
    · exact .inl hbar
    refine .inr ⟨fun hnil => ?_, fun line hline hne => ?_⟩
    · -- without lines a tool that is named nowhere passes
      obtain ⟨tool, htool⟩ := Infinite.exists_notMem_finset (allowedItems text).toFinset
      have hin := (h tool (valid_iff.mpr ⟨.inl hnil, hbar⟩)).1
      exact htool (List.mem_toFinset.mpr hin)
    · have hmem : clean line ∈ (toolLines text).map clean := List.mem_map_of_mem hline
      exact h (clean line) (valid_iff.mpr ⟨.inr ⟨hne, hmem⟩, hbar⟩)
  · rintro h tool hvalid
    obtain ⟨htool, hbar⟩ := valid_iff.mp hvalid
    obtain ⟨hne, hall⟩ := h.resolve_left hbar
    obtain ⟨htool, hmem⟩ := htool.resolve_left hne
    obtain ⟨line, hline, hclean⟩ := List.mem_map.mp hmem
    dsimp only at htool hclean
    rw [← hclean] at htool
    have hread := hall line hline htool
    rw [hclean] at hread
    exact hread

/-- A document whose section of tools is misspelt. -/
def misspelt : Str := js "# Policy: Night\n\n## Allowed Tool\n- search\n\n## Time Window\n- hours: 9-17\n"

/-- Under it every tool passes. -/
theorem unnamed_tool_allowed :
    ¬ ∀ (getHours : Number → Number) (text : Str) (action : Action), DefaultDeny getHours text action := by
  intro h
  have hlines : toolLines misspelt = [] := by decide
  have hopen : ∀ getHours, ¬ Barred getHours misspelt none := by
    rintro getHours ⟨w, -, t, ht, -⟩
    cases ht
  have hin := (h id misspelt ⟨js "rm", none⟩ (valid_iff.mpr ⟨.inl hlines, hopen id⟩)).1
  exact absurd hin (by decide)

end Policy

end BitGraph
