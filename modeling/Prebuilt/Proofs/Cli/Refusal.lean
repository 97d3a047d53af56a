import Prebuilt.Proofs.Cli.Verdict
import Prebuilt.Proofs.Log.Reach
import Prebuilt.Proofs.Options

/-!
# Refusals change nothing

Arguments that make no sense, a manifest that cannot be read and a
configuration that is not valid are refused wherever they are noticed.
The run then ends with exit code 1 and has printed nothing, started no
tool, and changed nothing but the log file (`run_of_refused`).

All that a refusal tells are records and texts for the error stream, so
the logger is the only one to change the tree.
-/

namespace Prebuilt

open FileTree

/-- The event is for the logger or the error stream. -/
def Event.Quiet : Event → Prop
  | .log .. => True
  | .stderr _ => True
  | .command _ => False
  | .stdout _ => False

/-! ## What is told on the way to a refusal -/

theorem Manifest.quiet_load (files : FileTree) (path : Path) :
    ∀ event ∈ (load files path).2, event.Quiet := by
  have houtcome : ∀ o : Outcome, ∀ event ∈ o.events, event.Quiet := by
    intro o event hevent
    obtain ⟨w, -, rfl⟩ := List.mem_map.mp hevent
    trivial
  unfold load
  split
  · exact List.forall_mem_nil _
  · dsimp only
    split
    · exact houtcome _
    · refine List.forall_mem_append.mpr ⟨houtcome _, fun event hevent => ?_⟩
      rw [List.mem_singleton.mp hevent]
      trivial

namespace Cli

theorem quiet_told (files : FileTree) (asked : Scan) :
    ∀ event ∈ asked.told files, event.Quiet := by
  cases asked with
  | proceed request =>
      show ∀ event ∈ (baseConfig files request).2, event.Quiet
      unfold baseConfig
      split
      · exact List.forall_mem_nil _
      · exact Manifest.quiet_load files _
  | _ => exact List.forall_mem_nil _

theorem Refusal.quiet_events (refusal : Refusal) : ∀ event ∈ refusal.events, event.Quiet := by
  cases refusal <;> simp [Refusal.events, Event.Quiet]

theorem quiet_refuse (files : FileTree) (asked : Scan) (refusal : Refusal) :
    ∀ event ∈ (Execution.refuse files (asked.told files) refusal).events, event.Quiet :=
  List.forall_mem_append.mpr ⟨quiet_told files asked, refusal.quiet_events⟩

/-! ## Refused runs -/

variable {machine : Machine} {files : FileTree} {args : List Bytes} {refusal : Refusal}

/-- Where the last `--log-file=` leads. -/
def LogFileAt (files : FileTree) (args : List Bytes) (k : Location) : Prop :=
  ∃ path, lastGiven "--log-file=" args = some path ∧ files.resolve path = .ok k

theorem logFileAt_of_resolve {env : Environment} {k : Location}
    (h : files.resolve (Log.settingsFor env args).1.logFile = .ok k) : LogFileAt files args k := by
  rw [Log.logFile_eq] at h
  cases hlast : lastGiven "--log-file=" args with
  | none =>
      rw [hlast] at h
      cases h
  | some path =>
      rw [hlast] at h
      exact ⟨path, hlast, h⟩

/-- The logger has opened the log file and no other. -/
theorem within_opened (machine : Machine) (files : FileTree) (args : List Bytes) :
    (∀ sink ∈ (machine.opened files args).1.sinks, sink.Within (LogFileAt files args)) ∧
      ChangedOnly (LogFileAt files args) files (machine.prepared files args) := by
  obtain ⟨hsinks, hfiles⟩ := Log.Logger.within_configure machine.surroundings
    (Log.settingsFor machine.surroundings.environment args).1
    ⟨files, (Log.settingsFor machine.surroundings.environment args).2, []⟩
  refine ⟨fun sink hsink => ?_, hfiles.mono fun k => logFileAt_of_resolve⟩
  have hwithin := hsinks sink hsink
  cases sink with
  | file buffer format => exact logFileAt_of_resolve hwithin
  | console colours format => trivial
  | memory => trivial

theorem execution_of_refused (h : machine.verdict files args = .refused refusal) :
    machine.execution files args
      = .refuse (machine.prepared files args)
          ((scan args).2.told (machine.prepared files args)) refusal :=
  Scan.execute_of_refused h

/-- A run that is refused, for whatever reason and wherever that is
noticed, ends with exit code 1. It prints nothing, starts no tool, so
that it makes no difference what tools there are, and changes nothing
but the file that the last `--log-file=` names. -/
theorem run_of_refused (machine : Machine) (files : FileTree) (args : List Bytes)
    (refusal : Refusal) (h : machine.verdict files args = .refused refusal) :
    let result := run machine files args
    result.exitCode = 1 ∧ result.stdout = [] ∧
    (∀ line, .command line ∉ (machine.execution files args).events) ∧
    (∀ tools, run { machine with tools := tools } files args = result) ∧
    ChangedOnly (LogFileAt files args) files result.files := by
  intro result
  have hresult : result = run machine files args := rfl
  rw [run_eq] at hresult
  have hexecution := execution_of_refused h
  have hquiet : ∀ event ∈ (machine.execution files args).events, event.Quiet := by
    rw [hexecution]
    exact quiet_refuse _ _ _
  obtain ⟨hsinks, hprepared⟩ := within_opened machine files args
  have hfiles : (machine.execution files args).files = machine.prepared files args := by
    rw [hexecution]
    rfl
  have hwithin : Console.Within (LogFileAt files args) files (machine.console files args) := by
    refine Console.Within.deliverAll ⟨hsinks, ?_⟩ _
    show ChangedOnly _ files (machine.execution files args).files
    rw [hfiles]
    exact hprepared
  refine ⟨?_, ?_, fun line hline => hquiet _ hline, fun tools => ?_, ?_⟩
  · rw [hresult, hexecution]
    rfl
  · rw [hresult]
    exact Console.stdout_deliverAll fun text htext => hquiet _ htext
  · have hrefused : { machine with tools := tools }.execution files args
        = .refuse (machine.prepared files args)
            ((scan args).2.told (machine.prepared files args)) refusal :=
      Scan.execute_of_refused h
    have hsame : { machine with tools := tools }.execution files args
        = machine.execution files args := hrefused.trans hexecution.symm
    rw [hresult, run_eq]
    unfold Machine.console
    rw [hsame]
    rfl
  · rw [hresult]
    exact hwithin.close

/-- A tree with an archive to lose. -/
def builtTree : FileTree where
  entries := [(["bin"], .directory), (["bin", "gd32vf103xx-hal.a"], .file "archive" false)]
  distinct := by decide
  workingDirectory := []
  emptied := []

theorem run_of_refused_secondCommand :
    let args : List Bytes := ["-vvv", "clean", "--log-file=run.log", "--source=a.S", "build"]
    let result := run bareMachine builtTree args
    result.exitCode = 1 ∧ result.stdout = [] ∧
      ∀ k : Location, k ≠ [Bytes.ofString "run.log"] →
        result.files.lookup k = builtTree.lookup k := by
  intro args result
  obtain ⟨hcode, hstdout, -, -, hfiles⟩ := run_of_refused bareMachine builtTree args
    (.unexpectedArgument "build") (by decide)
  refine ⟨hcode, hstdout, fun k hk => hfiles.lookup k ?_⟩
  rintro ⟨path, hlast, hresolve⟩
  obtain rfl : Bytes.ofString "run.log" = path := Option.some.inj hlast
  exact hk (Except.ok.inj hresolve).symm

end Cli

end Prebuilt
