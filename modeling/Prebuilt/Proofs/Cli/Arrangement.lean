import Prebuilt.Proofs.Cli.Scan
import Prebuilt.Proofs.Cli.Verdict

/-!
# Which arguments matter where

A command line is read twice, for the logger and for the command, and
every argument is for one of the two: the settings of the logger are the
same without all other arguments, and what the command is asked is the
same without the log options (`scan_separated`).

Among options the command is the only word, so that it makes no
difference how many of them were read before it is seen. It may stand
anywhere, and `build` may be left out (`run_insertIdx_word`).
-/

namespace Prebuilt.Cli

/-! ## Log options -/

/-- What is asked does not depend on the log options. They may ask for
echoes, so the flag for these is left open on both sides. -/
theorem scanFrom_filter (args : List Bytes) (request : Request) (echo echo' : Bool) :
    (scanFrom request echo (args.filter fun arg => !Log.isLogOption arg)).2
      = (scanFrom request echo' args).2 := by
  induction args generalizing request echo echo' with
  | nil => rfl
  | cons arg rest ih =>
      by_cases harg : Log.isLogOption arg = true
      · rw [List.filter_cons_of_neg (by simp [harg]), scanFrom,
          Argument.ofText_eq_logOption_iff.mpr harg]
        exact ih ..
      · rw [List.filter_cons_of_pos (by simp [harg]), scanFrom, scanFrom]
        cases hread : Argument.ofText arg with
        | help => rfl
        | version => rfl
        | logOption => exact absurd (Argument.ofText_eq_logOption_iff.mp hread) harg
        | manifest path => exact ih ..
        | override text => exact ih ..
        | word text =>
            dsimp only
            cases request.command with
            | some command => rfl
            | none =>
                cases Command.ofWord? text with
                | none => rfl
                | some command => exact ih ..

/-- The settings of the logger and its warnings depend on the log options
alone, and what is asked of the program, be it a command with its
manifest and overrides, help, the version or nothing that makes sense,
depends on the other arguments alone. -/
theorem scan_separated (env : Environment) (args : List Bytes) :
    Log.settingsFor env (args.filter Log.isLogOption) = Log.settingsFor env args ∧
    (scan (args.filter fun arg => !Log.isLogOption arg)).2 = (scan args).2 :=
  ⟨Log.settingsFor_filter env args, scanFrom_filter args ..⟩

/-! ## The command among options -/

/-- The argument begins with a dash. -/
def IsOption (arg : Bytes) : Prop := arg.head? = some '-'.toUInt8

instance (arg : Bytes) : Decidable (IsOption arg) :=
  inferInstanceAs (Decidable (arg.head? = some '-'.toUInt8))

theorem IsOption.ofText_ne_word {arg : Bytes} (h : IsOption arg) (text : Bytes) :
    Argument.ofText arg ≠ .word text :=
  fun hword => Argument.head?_ne_of_ofText_eq_word hword h

namespace Command

theorem isLogOption_word (command : Command) : Log.isLogOption command.word = false := by
  cases command <;> decide

theorem ofText_word (command : Command) : Argument.ofText command.word = .word command.word := by
  cases command <;> decide

end Command

/-- What is asked, with this command. -/
def Scan.withCommand (command : Command) : Scan → Scan
  | .proceed request => .proceed { request with command := some command }
  | asked => asked

section Options

variable {options : List Bytes} {request : Request} {echo : Bool}

/-- Reading options neither looks at the command nor changes it. -/
theorem scanFrom_withCommand (hoptions : ∀ option ∈ options, IsOption option) (command : Command)
    (request : Request) (echo : Bool) :
    scanFrom { request with command := some command } echo options
      = ((scanFrom request echo options).1,
          (scanFrom request echo options).2.withCommand command) := by
  induction options generalizing request echo with
  | nil => rfl
  | cons option rest ih =>
      obtain ⟨hoption, hrest⟩ := List.forall_mem_cons.mp hoptions
      rw [scanFrom, scanFrom]
      cases hread : Argument.ofText option with
      | help => rfl
      | version => rfl
      | logOption => exact ih hrest request _
      | manifest path => exact ih hrest { request with manifest := path } echo
      | override text =>
          exact ih hrest { request with overrides := request.overrides ++ [text] } echo
      | word text => exact absurd hread (hoption.ofText_ne_word text)

/-- The induction is on the options in front of the command, none of
which ends the reading with a complaint. -/
theorem scanFrom_insert_word {before after : List Bytes}
    (hbefore : ∀ option ∈ before, IsOption option) (hafter : ∀ option ∈ after, IsOption option)
    (command : Command) (hnone : request.command = none) :
    scanFrom request echo (before ++ command.word :: after)
      = ((scanFrom request echo (before ++ after)).1,
          (scanFrom request echo (before ++ after)).2.withCommand command) := by
  induction before generalizing request echo with
  | nil =>
      have hword : Command.ofWord? command.word = some command :=
        Command.ofWord?_eq_some_iff.mpr rfl
      rw [List.nil_append, List.nil_append, scanFrom, command.ofText_word]
      dsimp only
      rw [hnone, hword]
      exact scanFrom_withCommand hafter command request echo
  | cons option rest ih =>
      obtain ⟨hoption, hrest⟩ := List.forall_mem_cons.mp hbefore
      rw [List.cons_append, List.cons_append, scanFrom, scanFrom]
      cases hread : Argument.ofText option with
      | help => rfl
      | version => rfl
      | logOption => exact ih hrest hnone
      | manifest path => exact ih hrest hnone
      | override text => exact ih hrest hnone
      | word text => exact absurd hread (hoption.ofText_ne_word text)

/-- Wherever the command stands, its word does nothing but name it. -/
theorem scan_insertIdx_word (hoptions : ∀ option ∈ options, IsOption option) (command : Command)
    {i : Nat} (hi : i ≤ options.length) :
    scan (options.insertIdx i command.word)
      = ((scan options).1, (scan options).2.withCommand command) := by
  obtain ⟨before, after, rfl, -, hinsert⟩ :=
    List.exists_of_modifyTailIdx (List.cons command.word) hi
  obtain ⟨hbefore, hafter⟩ := List.forall_mem_append.mp hoptions
  rw [List.insertIdx, hinsert]
  exact scanFrom_insert_word hbefore hafter command rfl

theorem settingsFor_insertIdx_word (env : Environment) (command : Command) {i : Nat}
    (hi : i ≤ options.length) :
    Log.settingsFor env (options.insertIdx i command.word) = Log.settingsFor env options := by
  obtain ⟨before, after, rfl, -, hinsert⟩ :=
    List.exists_of_modifyTailIdx (List.cons command.word) hi
  have hfilter : (before ++ command.word :: after).filter Log.isLogOption
      = (before ++ after).filter Log.isLogOption := by
    rw [List.filter_append, List.filter_append,
      List.filter_cons_of_neg (by simp [command.isLogOption_word])]
  rw [List.insertIdx, hinsert, ← Log.settingsFor_filter, hfilter, Log.settingsFor_filter]

theorem command_of_options (hoptions : ∀ option ∈ options, IsOption option)
    (h : (scan options).2 = .proceed request) : request.command = none := by
  have hwords : wordsIn options = [] := by
    refine List.filterMap_eq_nil_iff.mpr fun option hoption => ?_
    cases hread : Argument.ofText option with
    | word text => exact absurd hread ((hoptions option hoption).ofText_ne_word text)
    | _ => rfl
  have hscan : scan options = ((scan options).1, .proceed request) := Prod.ext rfl h
  obtain ⟨-, -, rfl⟩ := scan_eq_proceed_iff.mp hscan
  show (none : Option Command).or (commandIn options) = none
  rw [commandIn, hwords]
  rfl

/-- Without a command, `build` is meant. -/
theorem execute_withCommand_build (hoptions : ∀ option ∈ options, IsOption option)
    (env : Environment) (tools : Tools) (files : FileTree) :
    execute env tools files ((scan options).2.withCommand .build)
      = execute env tools files (scan options).2 := by
  cases hasked : (scan options).2 with
  | proceed request =>
      obtain ⟨command, manifest, overrides⟩ := request
      obtain rfl : command = none := command_of_options hoptions hasked
      rfl
  | _ => rfl

end Options

/-! ## Runs -/

/-- A run depends on its arguments by the settings of the logger, by the
echoes and by what it executes. -/
theorem run_congr {machine : Machine} {files : FileTree} {args args' : List Bytes}
    (hsettings : Log.settingsFor machine.surroundings.environment args'
      = Log.settingsFor machine.surroundings.environment args)
    (hecho : (scan args').1 = (scan args).1)
    (hexecute : ∀ files, execute machine.surroundings.environment machine.tools files (scan args').2
      = execute machine.surroundings.environment machine.tools files (scan args).2) :
    run machine files args' = run machine files args := by
  have hopened : machine.opened files args' = machine.opened files args := by
    rw [Machine.opened, Machine.opened, hsettings]
  have hexecution : machine.execution files args' = machine.execution files args := by
    rw [Machine.execution, Machine.execution, Machine.prepared, Machine.prepared, hopened,
      hexecute]
  rw [run_eq, run_eq]
  unfold Machine.console
  rw [hexecution, hecho, hopened]

/-- Put at any place among options, a command makes the same run: the
same exit code, the same output on both streams, echoes or none, and the
same files. Without any command the run is that of `build`. -/
theorem run_insertIdx_word (machine : Machine) (files : FileTree) (options : List Bytes)
    (hoptions : ∀ option ∈ options, IsOption option) (command : Command) (i j : Nat)
    (hi : i ≤ options.length) (hj : j ≤ options.length) :
    run machine files (options.insertIdx i command.word)
        = run machine files (options.insertIdx j command.word) ∧
      run machine files options = run machine files (options.insertIdx i Command.build.word) := by
  have hscan : ∀ {k : Nat} (command : Command), k ≤ options.length →
      scan (options.insertIdx k command.word)
        = ((scan options).1, (scan options).2.withCommand command) :=
    fun command hk => scan_insertIdx_word hoptions command hk
  constructor
  · refine run_congr ?_ ?_ fun files => ?_
    · rw [settingsFor_insertIdx_word _ command hi, settingsFor_insertIdx_word _ command hj]
    · rw [hscan command hi, hscan command hj]
    · rw [hscan command hi, hscan command hj]
  · refine run_congr ?_ ?_ fun files => ?_
    · rw [settingsFor_insertIdx_word _ .build hi]
    · rw [hscan .build hi]
    · rw [hscan .build hi]
      exact (execute_withCommand_build hoptions _ _ files).symm

/-- A script, and an old archive in the directory to stage into. -/
def deliveryTree : FileTree where
  entries := [(["device.x"], .file "MEMORY" false), (["out"], .directory),
    (["out", "old.a"], .file "old" false)]
  distinct := by decide
  workingDirectory := []
  emptied := []

/-- To `stage` the directory among the options is the one it copies into,
and to `clean` it is the one whose archives go. -/
theorem run_insertIdx_word_amongOptions :
    let options : List Bytes := ["--out-dir=out", "-v", "--log-level=loud"]
    let staged := run bareMachine deliveryTree ["--out-dir=out", "stage", "-v", "--log-level=loud"]
    let cleaned := run bareMachine deliveryTree ["clean", "--out-dir=out", "-v", "--log-level=loud"]
    (∀ option ∈ options, IsOption option) ∧
      staged = run bareMachine deliveryTree ["--out-dir=out", "-v", "--log-level=loud", "stage"] ∧
      (staged.exitCode = 0 ∧ staged.files.read? "out/device.x" = some (Bytes.ofString "MEMORY") ∧
        staged.files.pathExists "out/old.a" = true) ∧
      cleaned = run bareMachine deliveryTree ["--out-dir=out", "-v", "clean", "--log-level=loud"] ∧
      (cleaned.exitCode = 0 ∧ cleaned.files.pathExists "out/device.x" = false ∧
        cleaned.files.pathExists "out/old.a" = false) ∧
      run bareMachine deliveryTree options
        = run bareMachine deliveryTree ["--out-dir=out", "build", "-v", "--log-level=loud"] := by
  intro options staged cleaned
  have hoptions : ∀ option ∈ options, IsOption option := by decide
  obtain ⟨hstage, hbuild⟩ := run_insertIdx_word bareMachine deliveryTree options hoptions .stage 1 3
    (by decide) (by decide)
  obtain ⟨hclean, -⟩ := run_insertIdx_word bareMachine deliveryTree options hoptions .clean 0 2
    (by decide) (by decide)
  exact ⟨hoptions, hstage, by decide +kernel, hclean, by decide +kernel, hbuild⟩

end Prebuilt.Cli
