import Prebuilt.Build.Builder
import Prebuilt.Proofs.Archive.Digest

/-!
# How a step ends

`Step.Ends step p Q` says that the step, begun with the progress `p`,
ends with a result and a progress that `Q` holds of. There is one rule
for each part that steps are made of; together they run a step
symbolically, and what the four steps do is stated once, by cases, in
the modules that need it.
-/

namespace Prebuilt.Build

/-! ## Progress after one part of a step -/

namespace Progress

def withFiles (p : Progress) (files : FileTree) : Progress := { p with files := files }

def told (p : Progress) (events : List Event) : Progress :=
  { p with events := p.events ++ events }

/-- The record of going on from one state to the next. -/
def moveRecord (last next : State) : Event :=
  .log Log.Level.info "build" (last.name ++ " -> " ++ next.name)

def moved (p : Progress) (next : State) : Progress :=
  { p.told [moveRecord p.state next] with state := next }

/-- The record of a failure. -/
def failRecord (last : State) (cause : Cause) : Event :=
  .log Log.Level.error "build"
    (cause.kind.name ++ " after '" ++ last.name ++ "': " ++ cause.message)

def failed (p : Progress) (cause : Cause) : Progress :=
  { p.told [failRecord p.state cause] with state := .failed }

/-- A tool was started and has come back. -/
def ran (p : Progress) (role : Role) (line : Bytes) (result : ToolResult) : Progress :=
  { p with
    files := result.files
    events := p.events ++ result.events
    invocations := p.invocations ++ [⟨role, line, p.files⟩] }

end Progress

namespace Step

def Ends {α : Type} (step : Step α) (p : Progress)
    (Q : Except Error α → Progress → Prop) : Prop :=
  Q (step.run.run p).1 (step.run.run p).2

variable {α β : Type} {p : Progress}

/-! ## Rules -/

theorem Ends.imp {step : Step α} {Q R : Except Error α → Progress → Prop}
    (h : step.Ends p Q) (hQR : ∀ r q, Q r q → R r q) : step.Ends p R := hQR _ _ h

/-- What holds of every end holds of a run. -/
theorem Ends.runFrom {step : Step α} {files : FileTree}
    {Q : Except Error α → Progress → Prop} (h : step.Ends ⟨files, .start, [], []⟩ Q) :
    Q (step.runFrom files).result (step.runFrom files).progress := h

theorem ends_bind {step : Step α} {next : α → Step β} {Q : Except Error β → Progress → Prop} :
    (step >>= next).Ends p Q ↔ step.Ends p fun r q =>
      match r with
      | .ok a => (next a).Ends q Q
      | .error e => Q (.error e) q := by
  show Q ((step.run >>= ExceptT.bindCont next).run p).1
    ((step.run >>= ExceptT.bindCont next).run p).2 ↔ _
  simp only [Ends, StateT.run_bind]
  cases h : step.run.run p with
  | mk r q =>
      cases r with
      | ok a => exact Iff.rfl
      | error e => exact Iff.rfl

theorem ends_pure {a : α} {Q : Except Error α → Progress → Prop} :
    (pure a : Step α).Ends p Q ↔ Q (.ok a) p := Iff.rfl

theorem ends_files {Q : Except Error FileTree → Progress → Prop} :
    files.Ends p Q ↔ Q (.ok p.files) p := Iff.rfl

theorem ends_setFiles {t : FileTree} {Q : Except Error Unit → Progress → Prop} :
    (setFiles t).Ends p Q ↔ Q (.ok ()) (p.withFiles t) := Iff.rfl

theorem ends_log {level : Log.Level} {message : Bytes}
    {Q : Except Error Unit → Progress → Prop} :
    (log level message).Ends p Q ↔ Q (.ok ()) (p.told [.log level "build" message]) := Iff.rfl

theorem ends_advance {next : State} {Q : Except Error Unit → Progress → Prop} :
    (advance next).Ends p Q ↔ Q (.ok ()) (p.moved next) := Iff.rfl

theorem ends_fail {cause : Cause} {Q : Except Error α → Progress → Prop} :
    (fail cause : Step α).Ends p Q ↔ Q (.error ⟨cause, p.state⟩) (p.failed cause) := Iff.rfl

/-- Nothing is done after a failure. -/
theorem fail_bind (cause : Cause) (next : α → Step β) :
    (fail cause >>= next) = fail cause := rfl

theorem ends_ite {c : Prop} [Decidable c] {a b : Step α}
    {Q : Except Error α → Progress → Prop} :
    (if c then a else b).Ends p Q ↔ (c → a.Ends p Q) ∧ (¬ c → b.Ends p Q) := by
  split <;> simp [*]

theorem ends_modify {change : Progress → Progress} {Q : Except Error PUnit → Progress → Prop} :
    (modify change : Step PUnit).Ends p Q ↔ Q (.ok ⟨⟩) (change p) := Iff.rfl

theorem ends_tell {events : List Event} {Q : Except Error Unit → Progress → Prop} :
    (tell events).Ends p Q ↔ Q (.ok ()) (p.told events) := Iff.rfl

/-- Why a build ends with a tool's exit code. -/
def toolCause (s : Setup) (role : Role) (result : ToolResult) : Cause :=
  .toolFailed role result.exitCode
    (if s.probes.isWritable result.files s.config.outDir then none else some s.config.outDir)

/-- The build goes on after a tool with exit code 0 and ends after any
other. -/
theorem ends_runTool {s : Setup} {role : Role} {line : Bytes}
    {Q : Except Error Unit → Progress → Prop} :
    (runTool s role line).Ends p Q ↔
      let result := s.tools.run line p.files
      let q := p.ran role line result
      (result.exitCode = 0 → Q (.ok ()) q) ∧
        (result.exitCode ≠ 0 →
          Q (.error ⟨toolCause s role result, p.state⟩) (q.failed (toolCause s role result))) := by
  simp only [runTool, ends_bind, ends_files, ends_modify, ends_setFiles, ends_tell, ends_ite,
    ends_fail, ends_pure]
  constructor
  · rintro ⟨herror, hok⟩
    refine ⟨fun hcode => hok (not_not_intro hcode), fun hcode => ?_⟩
    obtain ⟨hplain, hdenied⟩ := herror hcode
    unfold toolCause
    split
    · rename_i hw
      exact hplain hw
    · rename_i hw
      exact hdenied hw
  · rintro ⟨hok, herror⟩
    refine ⟨fun hcode => ?_, fun hcode => hok (Decidable.not_not.mp hcode)⟩
    have hfail := herror hcode
    unfold toolCause at hfail
    constructor
    · intro hw
      rw [if_pos hw] at hfail
      exact hfail
    · intro hw
      rw [if_neg hw] at hfail
      exact hfail

/-! ## The steps after cleaning -/

theorem hash_eq (path : Path) : hash path = do return Archive.fileHash (← files) path := by
  refine funext fun p => ?_
  have hhash := Archive.hashFile_sha256 p.files path
  show (Except.ok (Archive.hashFile Archive.sha256 p.files path).1,
    p.told (Archive.hashFile Archive.sha256 p.files path).2) = (Except.ok _, p)
  rw [hhash]
  exact congrArg (Prod.mk _) (congrArg (Progress.mk _ _ · _) (List.append_nil p.events))

theorem ends_hash {path : Path} {Q : Except Error Bytes → Progress → Prop} :
    (hash path).Ends p Q ↔ Q (.ok (Archive.fileHash p.files path)) p := by
  rw [hash_eq]
  exact Iff.rfl

/-- What a build does once it has cleaned. -/
def make (s : Setup) (removed : List Path) : Step Report := do
  compile s
  archive s
  cleanup s
  let archive := s.config.archivePath
  return ⟨archive, removed, ← hash archive⟩

theorem all_eq (s : Setup) : all s = (do
    log Log.Level.info ("building " ++ s.config.archivePath ++ " from " ++ s.config.source)
    let removed ← clean s
    make s removed) := rfl

end Step

end Prebuilt.Build
