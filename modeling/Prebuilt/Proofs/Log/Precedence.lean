import Mathlib.Data.Finset.Lattice.Fold
import Mathlib.Order.Lattice.Nat
import Prebuilt.Proofs.Options

/-!
# Which level counts

The level of the logger comes from one of four places. What names a level
explicitly goes before the flags for verbosity, and of several such
arguments the last one counts. Of the flags the highest counts, wherever
it stands and however often. Only where neither is given, and no filter
either, is the variable `RVBLOB_LOG` looked at; it holds a level, or else
a filter (`settingsFor_precedence`).
-/

namespace Prebuilt.Log

/-! ## All arguments -/

/-- The level that the last argument to name one names. -/
def lastLevel? (args : List Bytes) : Option Level := (args.filterMap explicitLevel?).getLast?

/-- The highest verbosity that a flag asks for. -/
def highestVerbosity (args : List Bytes) : Nat := args.toFinset.sup verbosityOf

theorem levelOrWarning_fst (name origin : Bytes) :
    (levelOrWarning name origin).1 = Level.ofName name := by
  rw [levelOrWarning, Level.ofName]
  cases Level.ofName? name <;> rfl

theorem explicit_ofArguments (args : List Bytes) :
    (Wishes.ofArguments args).explicit = lastLevel? args := by
  have hadd : ∀ (w : Wishes) (o : LogOption),
      (w.add o).explicit = (o.level?.map some).getD w.explicit := by
    intro w o
    cases o with
    | level name => exact congrArg some (levelOrWarning_fst name _)
    | _ => rfl
  rw [Wishes.ofArguments, foldl_last Wishes.explicit hadd, ← List.map_filterMap,
    List.getLast?_map, List.filterMap_filterMap, lastLevel?]
  simp only [parts_ofArgument?]
  cases (args.filterMap explicitLevel?).getLast? <;> rfl

theorem filterSpec_ofArguments (args : List Bytes) :
    (Wishes.ofArguments args).filterSpec = (lastGiven "--log-filter=" args).getD [] := by
  have hadd : ∀ (w : Wishes) (o : LogOption),
      (w.add o).filterSpec = o.filter?.getD w.filterSpec := by
    intro w o
    cases o <;> rfl
  rw [Wishes.ofArguments, foldl_last Wishes.filterSpec hadd, List.filterMap_filterMap, lastGiven]
  simp only [parts_ofArgument?]

/-- A field that elements may raise ends up at the highest, whatever the
order of the elements that are read. -/
theorem foldl_highest {α β σ : Type} [DecidableEq α] {add : σ → β → σ} (field : σ → Nat)
    {weight : β → Nat} (h : ∀ s b, field (add s b) = max (field s) (weight b)) (read : α → Option β)
    (l : List α) (s : σ) :
    field ((l.filterMap read).foldl add s)
      = max (field s) (l.toFinset.sup fun a => (read a).elim 0 weight) := by
  induction l generalizing s with
  | nil => simp
  | cons a rest ih =>
      rw [List.filterMap_cons, List.toFinset_cons, Finset.sup_insert]
      cases read a with
      | none => exact (ih s).trans (congrArg _ (Nat.zero_max _).symm)
      | some b =>
          rw [List.foldl_cons, ih, h, Nat.max_assoc]
          rfl

theorem verbosity_ofArguments (args : List Bytes) :
    (Wishes.ofArguments args).verbosity = highestVerbosity args := by
  have hadd : ∀ (w : Wishes) (o : LogOption),
      (w.add o).verbosity = max w.verbosity o.verbosity := by
    intro w o
    cases o with
    | verbose count => rfl
    | _ => exact (Nat.max_zero _).symm
  rw [Wishes.ofArguments, foldl_highest Wishes.verbosity hadd, highestVerbosity]
  simp only [parts_ofArgument?]
  exact Nat.zero_max _

/-! ## What the arguments settle -/

/-- The level that flags for this verbosity ask for. -/
def levelForFlags? : Nat → Option Level
  | 0 => none
  | 1 => some Level.info
  | 2 => some Level.debug
  | _ => some Level.trace

theorem levelForFlags?_eq (n : Nat) :
    levelForFlags? n = if n = 0 then none else some (levelOfVerbosity n) := by
  match n with
  | 0 | 1 | 2 | _ + 3 => rfl

/-- The level that the arguments settle. -/
def levelAsked? (args : List Bytes) : Option Level :=
  (lastLevel? args).or (levelForFlags? (highestVerbosity args))

/-- The filter that the last option for one gives, empty if there is none. -/
def filterAsked (args : List Bytes) : Bytes := (lastGiven "--log-filter=" args).getD []

/-- The value is a filter specification and no level. -/
def IsSpecification (value : Bytes) : Prop := '='.toUInt8 ∈ value ∨ ','.toUInt8 ∈ value

instance (value : Bytes) : Decidable (IsSpecification value) :=
  inferInstanceAs (Decidable (_ ∨ _))

/-- The settings with this level, as far as the options tell them. -/
def Wishes.settings (w : Wishes) (level : Level) : Settings :=
  { level := level, format := w.format, filterSpec := w.filterSpec, logFile := w.logFile }

section Settled

variable {args : List Bytes} (env : Environment)

theorem settingsFor_of_level {level : Level} (h : levelAsked? args = some level) :
    settingsFor env args
      = ((Wishes.ofArguments args).settings level, (Wishes.ofArguments args).warnings) := by
  rw [levelAsked?, ← explicit_ofArguments, ← verbosity_ofArguments, levelForFlags?_eq] at h
  unfold settingsFor
  dsimp only
  cases hexplicit : (Wishes.ofArguments args).explicit with
  | some named =>
      rw [hexplicit] at h
      obtain rfl : named = level := Option.some.inj h
      rfl
  | none =>
      rw [hexplicit, Option.none_or] at h
      by_cases hverbosity : (Wishes.ofArguments args).verbosity = 0
      · rw [if_pos hverbosity] at h
        cases h
      · rw [if_neg hverbosity] at h
        obtain rfl := Option.some.inj h
        dsimp only
        rw [if_pos hverbosity]
        rfl

theorem none_of_levelAsked? (h : levelAsked? args = none) :
    (Wishes.ofArguments args).explicit = none ∧ (Wishes.ofArguments args).verbosity = 0 := by
  obtain ⟨hlast, hflags⟩ := Option.or_eq_none_iff.mp h
  rw [← verbosity_ofArguments, levelForFlags?_eq, ite_eq_left_iff] at hflags
  exact ⟨(explicit_ofArguments args).trans hlast, not_not.mp fun h => nomatch hflags h⟩

theorem settingsFor_of_filter (hlevel : levelAsked? args = none) (hfilter : filterAsked args ≠ []) :
    settingsFor env args
      = ((Wishes.ofArguments args).settings Level.warn, (Wishes.ofArguments args).warnings) := by
  obtain ⟨hexplicit, hverbosity⟩ := none_of_levelAsked? hlevel
  rw [filterAsked, ← filterSpec_ofArguments] at hfilter
  unfold settingsFor
  dsimp only
  rw [hexplicit, hverbosity]
  dsimp only
  rw [if_neg (not_not.mpr rfl), if_pos hfilter]
  rfl

/-- Where the arguments settle nothing, the variable does. -/
theorem settingsFor_of_variable (hlevel : levelAsked? args = none)
    (hfilter : filterAsked args = []) :
    (settingsFor env args).1 =
      let value := env.valueOf "RVBLOB_LOG"
      let settings := (Wishes.ofArguments args).settings Level.warn
      if IsSpecification value then { settings with filterSpec := value }
      else if value = [] then settings
      else { settings with level := Level.ofName value } := by
  obtain ⟨hexplicit, hverbosity⟩ := none_of_levelAsked? hlevel
  rw [filterAsked, ← filterSpec_ofArguments] at hfilter
  unfold settingsFor
  dsimp only
  rw [hexplicit, hverbosity]
  dsimp only
  rw [if_neg (not_not.mpr rfl), if_neg (not_not.mpr hfilter)]
  have hany : (env.valueOf "RVBLOB_LOG").any (fun c => c = '=' ∨ c = ',') = true ↔
      IsSpecification (env.valueOf "RVBLOB_LOG") := by
    simp [IsSpecification, and_or_left, exists_or]
  by_cases hspec : IsSpecification (env.valueOf "RVBLOB_LOG")
  · rw [if_pos hspec, if_pos (hany.mpr hspec)]
    rfl
  rw [if_neg hspec, if_neg (mt hany.mp hspec)]
  by_cases hempty : env.valueOf "RVBLOB_LOG" = []
  · rw [if_pos hempty, if_pos hempty]
    rfl
  rw [if_neg hempty, if_neg hempty]
  rw [← levelOrWarning_fst (env.valueOf "RVBLOB_LOG") "RVBLOB_LOG"]
  rfl

theorem level_of_variable (hlevel : levelAsked? args = none) (hfilter : filterAsked args = []) :
    (settingsFor env args).1.level =
      let value := env.valueOf "RVBLOB_LOG"
      if value ≠ [] ∧ ¬ IsSpecification value then Level.ofName value else Level.warn := by
  rw [settingsFor_of_variable env hlevel hfilter]
  dsimp only
  by_cases hspec : IsSpecification (env.valueOf "RVBLOB_LOG")
  · rw [if_pos hspec, if_neg fun h => h.2 hspec]
    rfl
  rw [if_neg hspec]
  by_cases hempty : env.valueOf "RVBLOB_LOG" = []
  · rw [if_pos hempty, if_neg fun h => h.1 hempty]
    rfl
  · rw [if_neg hempty, if_pos ⟨hempty, hspec⟩]

theorem filterSpec_of_variable (hlevel : levelAsked? args = none)
    (hfilter : filterAsked args = []) :
    (settingsFor env args).1.filterSpec =
      let value := env.valueOf "RVBLOB_LOG"
      if IsSpecification value then value else [] := by
  have hnone : (Wishes.ofArguments args).filterSpec = [] :=
    (filterSpec_ofArguments args).trans hfilter
  rw [settingsFor_of_variable env hlevel hfilter]
  dsimp only
  by_cases hspec : IsSpecification (env.valueOf "RVBLOB_LOG")
  · rw [if_pos hspec, if_pos hspec]
  rw [if_neg hspec, if_neg hspec]
  split
  · exact hnone
  · exact hnone

end Settled

/-- The last argument that names a level decides. Without one the highest
verbosity does, and without any flag it is `warn`, unless no filter is
given either and `RVBLOB_LOG` holds a level. Just in that case the
variable may hold the filter instead. Where the arguments settle the
level or the filter, the environment has no say at all. -/
theorem settingsFor_precedence (env env' : Environment) (args : List Bytes) :
    let value := env.valueOf "RVBLOB_LOG"
    let settings := (settingsFor env args).1
    settings.level = (levelAsked? args).getD
      (if filterAsked args = [] ∧ value ≠ [] ∧ ¬ IsSpecification value then Level.ofName value
        else Level.warn) ∧
    settings.filterSpec =
      (if levelAsked? args = none ∧ filterAsked args = [] ∧ IsSpecification value then value
        else filterAsked args) ∧
    (levelAsked? args ≠ none ∨ filterAsked args ≠ [] →
      settingsFor env' args = settingsFor env args) := by
  intro value settings
  have hfilter : ∀ level, ((Wishes.ofArguments args).settings level).filterSpec
      = filterAsked args := fun level => filterSpec_ofArguments args
  cases hlevel : levelAsked? args with
  | some level =>
      have hsettings : ∀ env, settingsFor env args = _ := fun env => settingsFor_of_level env hlevel
      refine ⟨?_, ?_, fun _ => (hsettings env').trans (hsettings env).symm⟩
      · simp only [settings, hsettings]
        rfl
      · simp only [settings, hsettings]
        exact (hfilter level).trans (if_neg fun h => nomatch h.1).symm
  | none =>
      by_cases hasked : filterAsked args = []
      · refine ⟨?_, ?_, fun h => absurd hasked (h.resolve_left (not_not.mpr rfl))⟩
        · rw [Option.getD_none]
          simpa only [hasked, true_and] using level_of_variable env hlevel hasked
        · simpa only [hasked, true_and] using filterSpec_of_variable env hlevel hasked
      · have hsettings : ∀ env, settingsFor env args = _ :=
          fun env => settingsFor_of_filter env hlevel hasked
        refine ⟨?_, ?_, fun _ => (hsettings env').trans (hsettings env).symm⟩
        · simp only [settings, hsettings, Option.getD_none]
          exact (if_neg fun h => hasked h.1).symm
        · simp only [settings, hsettings]
          exact (hfilter _).trans (if_neg fun h => hasked h.2.1).symm

/-- The level is named twice, the flags stand apart, and the filter is
taken back. With less said, the variable counts: as a level if it holds
one, and otherwise as the filter. -/
theorem settingsFor_precedence_mixed :
    let args : List Bytes := ["-vv", "--log-filter=a=off", "--log-level=loud", "--verbose",
      "--log-filter=", "-q", "build", "--log-level=Fatal"]
    let filtering : Environment := [("RVBLOB_LOG", "tools=trace")]
    let debugging : Environment := [("RVBLOB_LOG", "Debug")]
    levelAsked? args = some Level.fatal ∧ filterAsked args = [] ∧
      highestVerbosity args = 2 ∧ (settingsFor filtering args).1.level = Level.fatal ∧
      settingsFor debugging args = settingsFor filtering args ∧
      (let unsettled : List Bytes := ["--log-filter=a=off", "build", "--log-filter="]
       (settingsFor debugging unsettled).1.level = Level.debug ∧
         (settingsFor debugging unsettled).1.filterSpec = [] ∧
         (settingsFor filtering unsettled).1.level = Level.warn ∧
         (settingsFor filtering unsettled).1.filterSpec = "tools=trace") := by
  intro args filtering debugging
  have hlevel : levelAsked? args = some Level.fatal := by decide
  obtain ⟨hsettled, -, hsame⟩ := settingsFor_precedence filtering debugging args
  refine ⟨hlevel, by decide, by decide, ?_, hsame (Or.inl ?_), ?_⟩
  · rw [hsettled, hlevel, Option.getD_some]
  · rw [hlevel]
    exact Option.some_ne_none _
  intro unsettled
  obtain ⟨hdebugging, hdebugging', -⟩ := settingsFor_precedence debugging [] unsettled
  obtain ⟨hfiltering, hfiltering', -⟩ := settingsFor_precedence filtering [] unsettled
  rw [hdebugging, hdebugging', hfiltering, hfiltering']
  decide

end Prebuilt.Log
