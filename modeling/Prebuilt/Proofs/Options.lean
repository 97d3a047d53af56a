import Prebuilt.Log.Options

/-!
# Options of which the last counts

An option with a value is an argument that begins with the option's
text. Where arguments are read one after the other and each replaces the
value of the one before, the last of them counts (`foldl_last`). No
argument begins with two texts unless one of these begins with the other
(`after?_eq_none`), so most options cannot be mistaken for each other.

An argument that has the form of a log option is read as one, and no
other is (`isSome_ofArgument?`), so the settings of the logger depend on
these alone (`settingsFor_filter`). What it is read as is told by its text
in the same way for every setting (`parts_ofArgument?`).
-/

namespace Prebuilt

/-- The value that the last argument with this beginning gives. -/
def lastGiven (option : Bytes) (args : List Bytes) : Option Bytes :=
  (args.filterMap (Bytes.after? · option)).getLast?

/-- A field that each element either replaces or keeps ends up with what
the last element to replace it gives. -/
theorem foldl_last {α β σ : Type} {add : σ → α → σ} (field : σ → β) {pick : α → Option β}
    (h : ∀ s a, field (add s a) = (pick a).getD (field s)) (l : List α) (s : σ) :
    field (l.foldl add s) = (l.filterMap pick).getLast?.getD (field s) := by
  induction l generalizing s with
  | nil => rfl
  | cons a rest ih =>
      rw [List.foldl_cons, ih, h, List.filterMap_cons]
      cases pick a with
      | none => rfl
      | some b =>
          rw [Option.getD_some]
          dsimp only
          rw [List.getLast?_cons, Option.getD_some]

theorem filterMap_filter_isSome {α β : Type} (f : α → Option β) (l : List α) :
    (l.filter fun a => (f a).isSome).filterMap f = l.filterMap f := by
  rw [List.filterMap_filter]
  congr 1
  funext a
  cases f a <;> rfl

theorem Bytes.after?_eq_none {arg option other value : Bytes}
    (h : arg.after? option = some value) (hleft : ¬ option <+: other)
    (hright : ¬ other <+: option) : arg.after? other = none := by
  rw [Option.eq_none_iff_forall_ne_some]
  intro value' h'
  have hbegins : option <+: arg := ⟨value, (Bytes.after?_eq_some_iff.mp h).symm⟩
  have hbegins' : other <+: arg := ⟨value', (Bytes.after?_eq_some_iff.mp h').symm⟩
  exact (List.prefix_or_prefix_of_prefix hbegins hbegins').elim hleft hright

namespace Log

/-! ## Recognition -/

/-- The form of an argument tells whether it can be read as a log option.
The cases follow the reading, which looks for the options with a value
first. -/
theorem isSome_ofArgument? (arg : Bytes) :
    (LogOption.ofArgument? arg).isSome = isLogOption arg := by
  unfold LogOption.ofArgument? isLogOption valueOptions
  simp only [List.any_cons, List.any_nil, Bool.or_false]
  cases arg.after? "--log-level=" with
  | some name => rfl
  | none =>
  cases arg.after? "--log-filter=" with
  | some spec => rfl
  | none =>
  cases arg.after? "--log-file=" with
  | some path => rfl
  | none =>
  cases arg.after? "--log-format=" with
  | some name => rfl
  | none =>
  dsimp only
  by_cases hquiet : arg = "-q" ∨ arg = "--quiet"
  · rw [if_pos hquiet]
    rcases hquiet with rfl | rfl <;> rfl
  rw [if_neg hquiet]
  by_cases hverbose : arg = "--verbose"
  · rw [if_pos hverbose, hverbose]
    rfl
  rw [if_neg hverbose]
  by_cases hcount : 0 < verbosityCount arg
  · rw [if_pos hcount, decide_eq_true hcount, Bool.or_true]
    rfl
  · obtain ⟨hq, hquiet⟩ := not_or.mp hquiet
    rw [if_neg hcount]
    simp [hq, hquiet, hverbose, hcount]

theorem filterMap_ofArgument?_filter (args : List Bytes) :
    (args.filter isLogOption).filterMap LogOption.ofArgument?
      = args.filterMap LogOption.ofArgument? := by
  rw [← funext isSome_ofArgument?, filterMap_filter_isSome]

/-- Arguments that are no log options have no say in the settings. -/
theorem settingsFor_filter (env : Environment) (args : List Bytes) :
    settingsFor env (args.filter isLogOption) = settingsFor env args := by
  unfold settingsFor Wishes.ofArguments
  rw [filterMap_ofArgument?_filter]

/-! ## Single arguments -/

/-- The level that an argument names. A name that is none stands for
`info`. -/
def explicitLevel? (arg : Bytes) : Option Level :=
  if arg = "-q" ∨ arg = "--quiet" then some Level.error
  else (arg.after? "--log-level=").map Level.ofName

/-- How verbose an argument wants the logger to be, 0 if it is no flag
for that. -/
def verbosityOf (arg : Bytes) : Nat := if arg = "--verbose" then 1 else verbosityCount arg

namespace LogOption

def level? : LogOption → Option Level
  | .level name => some (Level.ofName name)
  | .quiet => some Level.error
  | _ => none

def filter? : LogOption → Option Bytes
  | .filter spec => some spec
  | _ => none

/-- The path that an option names as that of the log file. -/
def file? : LogOption → Option Path
  | .file path => some path
  | _ => none

def verbosity : LogOption → Nat
  | .verbose count => count
  | _ => 0

end LogOption

/-- An option with a value begins with two dashes, a flag of letters with
one. -/
theorem verbosityCount_of_value {arg option value : Bytes} (h : arg.after? option = some value)
    (hlong : Bytes.ofString "--" <+: option) : verbosityCount arg = 0 := by
  obtain ⟨rest, rfl⟩ := hlong
  rw [Bytes.after?_eq_some_iff.mp h]
  rfl

/-- What an argument is read as says just what its text does. The flags
that are whole words come first, as no option with a value can be taken
for them. -/
theorem parts_ofArgument? (arg : Bytes) :
    (LogOption.ofArgument? arg).bind LogOption.level? = explicitLevel? arg ∧
    (LogOption.ofArgument? arg).bind LogOption.filter? = arg.after? "--log-filter=" ∧
    (LogOption.ofArgument? arg).bind LogOption.file? = arg.after? "--log-file=" ∧
    (LogOption.ofArgument? arg).elim 0 LogOption.verbosity = verbosityOf arg := by
  by_cases hquiet : arg = "-q" ∨ arg = "--quiet"
  · rcases hquiet with rfl | rfl <;> exact ⟨rfl, rfl, rfl, rfl⟩
  by_cases hverbose : arg = "--verbose"
  · subst hverbose
    exact ⟨rfl, rfl, rfl, rfl⟩
  rw [explicitLevel?, if_neg hquiet, verbosityOf, if_neg hverbose, LogOption.ofArgument?]
  cases hlevel : arg.after? "--log-level=" with
  | some name =>
      exact ⟨rfl, (Bytes.after?_eq_none hlevel (by decide) (by decide)).symm,
        (Bytes.after?_eq_none hlevel (by decide) (by decide)).symm,
        (verbosityCount_of_value hlevel (by decide)).symm⟩
  | none =>
  cases hfilter : arg.after? "--log-filter=" with
  | some spec =>
      exact ⟨rfl, rfl, (Bytes.after?_eq_none hfilter (by decide) (by decide)).symm,
        (verbosityCount_of_value hfilter (by decide)).symm⟩
  | none =>
  cases hfile : arg.after? "--log-file=" with
  | some path => exact ⟨rfl, rfl, rfl, (verbosityCount_of_value hfile (by decide)).symm⟩
  | none =>
  cases hformat : arg.after? "--log-format=" with
  | some name => exact ⟨rfl, rfl, rfl, (verbosityCount_of_value hformat (by decide)).symm⟩
  | none =>
  dsimp only
  rw [if_neg hquiet, if_neg hverbose]
  by_cases hcount : 0 < verbosityCount arg
  · rw [if_pos hcount]
    exact ⟨rfl, rfl, rfl, rfl⟩
  · rw [if_neg hcount]
    exact ⟨rfl, rfl, rfl, (Nat.eq_zero_of_not_pos hcount).symm⟩

/-! ## The log file -/

theorem logFile_settingsFor (env : Environment) (args : List Bytes) :
    (settingsFor env args).1.logFile = (Wishes.ofArguments args).logFile := by
  unfold settingsFor
  dsimp only
  split
  · rfl
  · split
    · rfl
    · split
      · rfl
      · split
        · rfl
        · split <;> rfl

/-- The last `--log-file=` names the log file. -/
theorem logFile_eq (env : Environment) (args : List Bytes) :
    (settingsFor env args).1.logFile = (lastGiven "--log-file=" args).getD [] := by
  have hadd : ∀ (w : Wishes) (o : LogOption), (w.add o).logFile = o.file?.getD w.logFile := by
    intro w o
    cases o <;> rfl
  rw [logFile_settingsFor, Wishes.ofArguments, foldl_last Wishes.logFile hadd,
    List.filterMap_filterMap, lastGiven]
  simp only [parts_ofArgument?]

end Log

end Prebuilt
