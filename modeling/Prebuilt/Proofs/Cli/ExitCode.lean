import Prebuilt.Cli.Execute
import Prebuilt.Proofs.Build.History
import Prebuilt.Proofs.Tool

/-!
# Exit codes of builds

A build that does not come to its end answers with an exit code, and the
system keeps the eight low bits of it. A build ends at the first tool
that fails, so what it answers can be told from the tools it has started:
if one of them failed, that tool's exit code where it is positive, and 1
otherwise (`Step.Accounts`). No such code is lost in eight bits, whatever
status words the tools end with (`runBuild_exitCode`).
-/

namespace Prebuilt

/-- The exit code reported for a tool that ended with `code`. -/
def Build.reported (code : Int) : Int := if 0 < code then code else 1

/-- No exit code but 0 is lost in eight bits. -/
theorem exitCodeOf_emod {status : Int} (h : exitCodeOf status ≠ 0) :
    exitCodeOf status % 256 ≠ 0 := by
  unfold exitCodeOf Ending.ofStatus at h ⊢
  by_cases hstarted : status = -1
  · rw [if_pos hstarted]
    decide
  rw [if_neg hstarted] at h ⊢
  by_cases hexited : status % 128 = 0
  · rw [if_pos hexited] at h ⊢
    simp only [Ending.exitCode] at h ⊢
    omega
  rw [if_neg hexited]
  by_cases hkilled : status % 128 < 127
  · rw [if_pos hkilled]
    simp only [Ending.exitCode]
    omega
  · rw [if_neg hkilled]
    simp only [Ending.exitCode]
    omega

theorem Build.reported_kept {code : Int} (h : code % 256 ≠ 0) :
    0 < reported code ∧ reported code % 256 ≠ 0 := by
  unfold reported
  by_cases hpos : 0 < code
  · rw [if_pos hpos]
    exact ⟨hpos, h⟩
  · rw [if_neg hpos]
    decide

namespace Build

/-- The exit code of a tool that was started. -/
def Setup.codeOf (s : Setup) (i : Invocation) : Int := exitCodeOf (s.tools i.line i.files).status

/-- The exit code of a failure is that of the tool that failed, or 1 if
all of them succeeded. -/
structure Blames (s : Setup) (runs : List Invocation) (e : Error) : Prop where
  tool : ∀ i ∈ runs, s.codeOf i ≠ 0 → e.exitCode = reported (s.codeOf i)
  other : (∀ i ∈ runs, s.codeOf i = 0) → e.exitCode = 1

/-! ## Steps that account for their tools -/

namespace Step

variable {α β : Type} {s : Setup}

/-- The tools that a step starts all succeed, or it fails and its failure
tells which of them did not. -/
def Accounts (s : Setup) (step : Step α) : Prop :=
  ∀ p : Progress, step.Ends p fun r q => ∃ runs, q.invocations = p.invocations ++ runs ∧
    match r with
    | .ok _ => ∀ i ∈ runs, s.codeOf i = 0
    | .error e => Blames s runs e

theorem accounts_bind {step : Step α} {next : α → Step β} (h : step.Accounts s)
    (hnext : ∀ a, (next a).Accounts s) : (step >>= next).Accounts s := by
  intro p
  refine ends_bind.mpr ((h p).imp ?_)
  rintro (e | a) q ⟨runs, hruns, hend⟩
  · exact ⟨runs, hruns, hend⟩
  · refine (hnext a q).imp ?_
    rintro r q' ⟨runs', hruns', hend'⟩
    refine ⟨runs ++ runs', by rw [hruns', hruns, List.append_assoc], ?_⟩
    cases r with
    | ok b => exact List.forall_mem_append.mpr ⟨hend, hend'⟩
    | error e =>
        refine ⟨fun i hi hcode => ?_, fun hzero => ?_⟩
        · exact hend'.tool i ((List.mem_append.mp hi).resolve_left fun h => hcode (hend i h)) hcode
        · exact hend'.other (List.forall_mem_append.mp hzero).2

/-- A part of a step that starts no tool and ends well. -/
theorem accounts_quiet {step : Step α}
    (h : ∀ p, step.Ends p fun r q => (∃ a, r = .ok a) ∧ q.invocations = p.invocations) :
    step.Accounts s := by
  intro p
  refine (h p).imp ?_
  rintro r q ⟨⟨a, rfl⟩, hinv⟩
  exact ⟨[], by rw [hinv, List.append_nil], List.forall_mem_nil _⟩

theorem accounts_files : files.Accounts s :=
  accounts_quiet fun _ => ends_files.mpr ⟨⟨_, rfl⟩, rfl⟩

theorem accounts_setFiles (t : FileTree) : (setFiles t).Accounts s :=
  accounts_quiet fun _ => ends_setFiles.mpr ⟨⟨_, rfl⟩, rfl⟩

theorem accounts_pure (a : α) : (pure a : Step α).Accounts s :=
  accounts_quiet fun _ => ends_pure.mpr ⟨⟨_, rfl⟩, rfl⟩

theorem accounts_log (level : Log.Level) (message : Bytes) : (log level message).Accounts s :=
  accounts_quiet fun _ => ends_log.mpr ⟨⟨_, rfl⟩, rfl⟩

theorem accounts_advance (next : State) : (advance next).Accounts s :=
  accounts_quiet fun _ => ends_advance.mpr ⟨⟨_, rfl⟩, rfl⟩

/-- Every failure but that of a tool has exit code 1. -/
theorem accounts_fail {cause : Cause} (h : cause.exitCode = 1) :
    (fail cause : Step α).Accounts s := fun _ =>
  ends_fail.mpr ⟨[], (List.append_nil _).symm, ⟨List.forall_mem_nil _, fun _ => h⟩⟩

theorem accounts_runTool (role : Role) (line : Bytes) : (runTool s role line).Accounts s := by
  intro p
  have hcode : s.codeOf ⟨role, line, p.files⟩ = (s.tools.run line p.files).exitCode := rfl
  refine ends_runTool.mpr ⟨fun hzero => ?_, fun hne => ?_⟩
  · exact ⟨[_], rfl, fun i hi => List.mem_singleton.mp hi ▸ hcode.trans hzero⟩
  · refine ⟨[_], rfl, fun i hi _ => ?_, fun hzero => ?_⟩
    · obtain rfl := List.mem_singleton.mp hi
      exact congrArg reported hcode.symm
    · exact absurd (hcode.symm.trans (hzero _ (List.mem_singleton_self _))) hne

theorem accounts_forM {f : β → Step PUnit} (h : ∀ b, (f b).Accounts s) :
    ∀ l : List β, (l.forM f).Accounts s
  | [] => accounts_pure _
  | b :: l => accounts_bind (h b) fun _ => accounts_forM h l

/-! ## The four steps -/

theorem accounts_prepareOutDir (out : Path) : (prepareOutDir out).Accounts s := by
  unfold prepareOutDir
  refine accounts_bind accounts_files fun t => ?_
  split
  · split
    · exact accounts_pure ()
    · exact accounts_fail rfl
  · refine accounts_bind (accounts_setFiles _) fun _ => ?_
    split
    · exact accounts_fail rfl
    · exact accounts_log _ _

theorem accounts_removeArchive (path : Path) : (removeArchive path).Accounts s := by
  unfold removeArchive
  refine accounts_bind accounts_files fun t => ?_
  dsimp only
  split
  · exact accounts_bind (accounts_setFiles _) fun _ => accounts_log _ _
  · exact accounts_log _ _
  · rw [fail_bind]
    exact accounts_fail rfl

theorem accounts_clean (s : Setup) : (clean s).Accounts s := by
  unfold clean
  refine accounts_bind (accounts_prepareOutDir _) fun _ => ?_
  refine accounts_bind accounts_files fun t => ?_
  split
  · exact accounts_fail rfl
  · refine accounts_bind (accounts_forM accounts_removeArchive _) fun _ => ?_
    exact accounts_bind (accounts_advance .cleaned) fun _ => accounts_pure _

theorem accounts_removeOldObject (object : Path) : (removeOldObject object).Accounts s := by
  unfold removeOldObject
  refine accounts_bind accounts_files fun t => ?_
  split
  · split
    · exact accounts_setFiles _
    · exact accounts_fail rfl
  · exact accounts_pure ()

theorem accounts_compile (s : Setup) : (compile s).Accounts s := by
  unfold compile
  dsimp only
  refine accounts_bind accounts_files fun t => ?_
  split
  · rw [fail_bind]
    exact accounts_fail rfl
  · refine accounts_bind (accounts_removeOldObject _) fun _ => ?_
    refine accounts_bind (accounts_runTool _ _) fun _ => ?_
    refine accounts_bind accounts_files fun t => ?_
    split
    · rw [fail_bind]
      exact accounts_fail rfl
    · exact accounts_advance .compiled

theorem accounts_archive (s : Setup) : (archive s).Accounts s := by
  unfold archive
  dsimp only
  refine accounts_bind accounts_files fun t => ?_
  split
  · rw [fail_bind]
    exact accounts_fail rfl
  · refine accounts_bind (accounts_runTool _ _) fun _ => ?_
    refine accounts_bind accounts_files fun t => ?_
    split
    · rw [fail_bind]
      exact accounts_fail rfl
    · exact accounts_advance .archived

theorem accounts_cleanup (s : Setup) : (cleanup s).Accounts s := by
  unfold cleanup
  dsimp only
  refine accounts_bind accounts_files fun t => ?_
  split
  · rw [fail_bind]
    exact accounts_fail rfl
  · split
    · exact accounts_bind (accounts_setFiles _) fun _ => accounts_advance .done
    · rw [fail_bind]
      exact accounts_fail rfl

theorem accounts_all (s : Setup) : (all s).Accounts s := by
  unfold all
  refine accounts_bind (accounts_log _ _) fun _ => ?_
  refine accounts_bind (accounts_clean s) fun removed => ?_
  refine accounts_bind (accounts_compile s) fun _ => ?_
  refine accounts_bind (accounts_archive s) fun _ => ?_
  refine accounts_bind (accounts_cleanup s) fun _ => ?_
  exact accounts_bind accounts_files fun t => accounts_pure _

end Step

/-! ## Whole builds -/

variable {s : Setup} {files : FileTree}

/-- A build is done exactly if it has a report. -/
theorem state_build_eq_done_iff :
    (s.build files).progress.state = .done ↔ ∃ report, (s.build files).result = .ok report := by
  obtain ⟨done, htold⟩ := told_runFrom (Step.follows_all s) files
  have houtcome := htold.outcome
  show ((Step.all s).runFrom files).progress.state = .done ↔
    ∃ report, ((Step.all s).runFrom files).result = .ok report
  cases hresult : ((Step.all s).runFrom files).result with
  | ok report =>
      rw [hresult] at houtcome
      exact iff_of_true houtcome.2 ⟨report, rfl⟩
  | error e =>
      rw [hresult] at houtcome
      rw [houtcome.1]
      exact iff_of_false (by decide) (by simp)

theorem blames_build {e : Error} (h : (s.build files).result = .error e) :
    Blames s (s.build files).progress.invocations e := by
  obtain ⟨runs, hruns, hend⟩ := (Step.accounts_all s ⟨files, .start, [], []⟩).runFrom
  rw [List.nil_append] at hruns
  have hresult : ((Step.all s).runFrom files).result = .error e := h
  rw [hresult] at hend
  exact hruns ▸ hend

/-- Whatever failed, the exit code fits into what the system keeps. -/
theorem Blames.kept {runs : List Invocation} {e : Error} (h : Blames s runs e) :
    0 < e.exitCode ∧ e.exitCode % 256 ≠ 0 := by
  by_cases hzero : ∀ i ∈ runs, s.codeOf i = 0
  · rw [h.other hzero]
    decide
  · obtain ⟨i, hi, hcode⟩ : ∃ i ∈ runs, s.codeOf i ≠ 0 := by simpa using hzero
    rw [h.tool i hi hcode]
    exact reported_kept (exitCodeOf_emod hcode)

end Build

namespace Cli

open Build

/-- What a failed build answers for a tool that ended with this status
word. -/
structure Answers (w : StatusWord) (code : Int) : Prop where
  exited : ∀ c, w.Exited c → c ≠ 0 → code = c
  killed : ∀ n, w.Killed n → code = 128 + n
  notStarted : w = StatusWord.notStarted → code = 1

/-- The tools, but with these status words. -/
def endingWith (words : Bytes → FileTree → StatusWord) (tools : Tools) : Tools :=
  fun line files => { tools line files with status := (words line files).toInt }

theorem answers_of_reported {w : StatusWord} {code : Int}
    (h : exitCodeOf w.toInt ≠ 0 → code = reported (exitCodeOf w.toInt)) : Answers w code := by
  refine ⟨fun c hexited hc => ?_, fun n hkilled => ?_, ?_⟩
  · have hcode : exitCodeOf w.toInt = c := by
      rw [exitCodeOf, hexited.ofStatus]
      rfl
    rw [hcode, reported, if_pos (by omega)] at h
    exact h (by omega)
  · have hcode : exitCodeOf w.toInt = 128 + n := by
      rw [exitCodeOf, hkilled.ofStatus]
      rfl
    rw [hcode, reported, if_pos (by omega)] at h
    exact h (by omega)
  · rintro rfl
    exact h (by decide)

/-- Whatever status words the tools end with, the exit code is 0 exactly
for a build that is done. For any other it is positive and stays so in
eight bits: the exit code of the tool that failed, 128 and the signal
that ended it, and 1 for all that is not the end of a tool. -/
theorem runBuild_exitCode (c : Config) (probes : Probes) (tools : Tools)
    (words : Bytes → FileTree → StatusWord) (files : FileTree) :
    let s : Setup := ⟨c, probes, endingWith words tools⟩
    let progress := (s.build files).progress
    let code := (runBuild s files).exitCode
    (code = 0 ↔ progress.state = .done) ∧
    (progress.state ≠ .done →
      0 < code ∧ code % 256 ≠ 0 ∧
      (∀ i ∈ progress.invocations, Answers (words i.line i.files) code) ∧
      ((∀ i ∈ progress.invocations, (words i.line i.files).Exited 0) → code = 1)) := by
  intro s progress code
  have hdone : progress.state = .done ↔ ∃ report, (s.build files).result = .ok report :=
    state_build_eq_done_iff
  have hcode : code = (runBuild s files).exitCode := rfl
  rw [runBuild] at hcode
  cases hresult : (s.build files).result with
  | ok report =>
      have hstate : progress.state = .done := hdone.mpr ⟨report, hresult⟩
      rw [hresult] at hcode
      exact ⟨iff_of_true hcode hstate, fun hne => absurd hstate hne⟩
  | error e =>
      have hstate : progress.state ≠ .done := by
        rw [ne_eq, hdone, hresult]
        simp
      rw [hresult] at hcode
      have hblames : Blames s progress.invocations e := blames_build hresult
      obtain ⟨hpos, hkept⟩ := hblames.kept
      rw [hcode]
      refine ⟨iff_of_false (Int.ne_of_gt hpos) hstate, fun _ => ⟨hpos, hkept, ?_, ?_⟩⟩
      · exact fun i hi => answers_of_reported (hblames.tool i hi)
      · refine fun hzero => hblames.other fun i hi => ?_
        show exitCodeOf (words i.line i.files).toInt = 0
        rw [exitCodeOf, (hzero i hi).ofStatus]
        rfl

/-- A tree with a source and nothing else. -/
def sourceAlone : FileTree where
  entries := [(["rebase-hack.S"], .file ".globl _start\n" false)]
  distinct := by decide
  workingDirectory := []
  emptied := []

/-- Signal 11 with the bit for a core dump above it. -/
def crashed : StatusWord := 0x8b

/-- A compiler that crashes. -/
def crashing : Setup :=
  ⟨{}, Probes.real, endingWith (fun _ _ => crashed) fun _ files => ⟨0, [], files⟩⟩

theorem runBuild_exitCode_crashed :
    (crashing.build sourceAlone).progress.state ≠ .done ∧
      (runBuild crashing sourceAlone).exitCode = 139 := by
  have hstate : (crashing.build sourceAlone).progress.state ≠ .done := by decide +kernel
  obtain ⟨-, -, hanswers, -⟩ := (runBuild_exitCode {} Probes.real
    (fun _ files => ⟨0, [], files⟩) (fun _ _ => crashed) sourceAlone).2 hstate
  obtain ⟨i, hi⟩ : ∃ i, i ∈ (crashing.build sourceAlone).progress.invocations :=
    List.exists_mem_of_ne_nil _ (by decide +kernel)
  exact ⟨hstate, (hanswers i hi).killed 11 (by decide)⟩

end Cli

end Prebuilt
