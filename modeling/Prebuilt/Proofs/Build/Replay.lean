import Prebuilt.Proofs.Build.Outcome
import Prebuilt.Proofs.FileTree.Same

/-!
# Steps that repeat each other

A step reads nothing but the file tree and the state of the build, so
where these are alike (`Alike`) two steps do the same: they have the same
result, start the same tools, and end alike (`Matches`). One rule for
each part of a step puts this together for all that a build does once it
has cleaned (`matches_produce`). The tools have to do their part: they
must not tell trees apart that are the same (`Tools.Steady`).
-/

namespace Prebuilt

open FileTree

/-- The tools make the same of trees that are the same. -/
def Tools.Steady (tools : Tools) : Prop :=
  ∀ line t t', Same t t' →
    (tools.start line t').status = (tools.start line t).status ∧
      Same (tools.start line t).files (tools.start line t').files

namespace Build

/-- Nothing that a step can see makes a difference. -/
structure Alike (p q : Progress) : Prop where
  files : Same p.files q.files
  state : q.state = p.state
  started : q.invocations.map (fun i => (i.role, i.line))
    = p.invocations.map fun i => (i.role, i.line)

namespace Step

/-- Begun alike, the two steps have the same result and end alike. -/
def Matches {α : Type} (step step' : Step α) : Prop :=
  ∀ ⦃p q⦄, Alike p q →
    step.Ends p fun r p' => step'.Ends q fun r' q' => r' = r ∧ Alike p' q'

variable {α β : Type}

/-! ## Rules -/

/-- A step comes to one end. -/
theorem exists_end (step : Step α) (p : Progress) :
    ∃ r q, ∀ Q : Except Error α → Progress → Prop, step.Ends p Q ↔ Q r q :=
  ⟨_, _, fun _ => Iff.rfl⟩

theorem ends_map {f : α → β} {step : Step α} {p : Progress}
    {Q : Except Error β → Progress → Prop} :
    (f <$> step).Ends p Q ↔ step.Ends p fun r => Q (r.map f) := by
  rw [← bind_pure_comp, ends_bind]
  obtain ⟨r, q, hend⟩ := exists_end step p
  rw [hend, hend]
  cases r with
  | error e => exact Iff.rfl
  | ok a => exact Iff.rfl

theorem matches_pure (a : α) : Matches (pure a) (pure a) := fun _ _ h => ⟨rfl, h⟩

theorem Matches.bind {step step' : Step α} {next next' : α → Step β} (h : Matches step step')
    (hnext : ∀ a, Matches (next a) (next' a)) : Matches (step >>= next) (step' >>= next') := by
  intro p q hpq
  obtain ⟨r', q', hend'⟩ := exists_end step' q
  refine ends_bind.mpr ((h hpq).imp ?_)
  rintro r p' hend
  rw [hend'] at hend
  obtain ⟨rfl, halike⟩ := hend
  cases r' with
  | error e => exact ends_bind.mpr ((hend' _).mpr ⟨rfl, halike⟩)
  | ok a => exact (hnext a halike).imp fun r p'' h => ends_bind.mpr ((hend' _).mpr h)

theorem matches_files_bind {next next' : FileTree → Step α}
    (hnext : ∀ t t', Same t t' → Matches (next t) (next' t')) :
    Matches (files >>= next) (files >>= next') := fun _ _ h => hnext _ _ h.files h

theorem matches_setFiles {t t' : FileTree} (h : Same t t') :
    Matches (setFiles t) (setFiles t') := fun _ _ hpq => ⟨rfl, h, hpq.state, hpq.started⟩

theorem matches_advance (next : State) : Matches (advance next) (advance next) :=
  fun _ _ h => ⟨rfl, h.files, rfl, h.started⟩

theorem matches_fail (cause : Cause) : Matches (fail cause : Step α) (fail cause) := by
  intro p q h
  refine ends_fail.mpr (ends_fail.mpr ⟨?_, h.files, rfl, h.started⟩)
  rw [h.state]

theorem Matches.ite {c c' : Prop} [Decidable c] [Decidable c'] {a a' b b' : Step α}
    (hc : c' ↔ c) (ha : Matches a a') (hb : Matches b b') :
    Matches (if c then a else b) (if c' then a' else b') := by
  by_cases h : c
  · rw [if_pos h, if_pos (hc.mpr h)]
    exact ha
  · rw [if_neg h, if_neg (mt hc.mp h)]
    exact hb

theorem matches_runTool {s : Setup} (hprobes : s.probes = Probes.real) (htools : s.tools.Steady)
    (role : Role) (line : Bytes) : Matches (runTool s role line) (runTool s role line) := by
  intro p q h
  obtain ⟨hstatus, hfiles⟩ := htools line _ _ h.files
  have hcode : (s.tools.run line q.files).exitCode = (s.tools.run line p.files).exitCode :=
    congrArg exitCodeOf hstatus
  have hcause : toolCause s role (s.tools.run line q.files)
      = toolCause s role (s.tools.run line p.files) := by
    have hdir : s.probes.isWritable (s.tools.run line q.files).files s.config.outDir
        = s.probes.isWritable (s.tools.run line p.files).files s.config.outDir := by
      rw [hprobes]
      exact hfiles.isDirectory _
    rw [toolCause, toolCause, hcode, hdir]
  have hstarted : (q.ran role line (s.tools.run line q.files)).invocations.map
        (fun i => (i.role, i.line))
      = (p.ran role line (s.tools.run line p.files)).invocations.map
        fun i => (i.role, i.line) := by
    simp only [Progress.ran, List.map_append, h.started]
    rfl
  refine ends_runTool.mpr ⟨fun hzero => ?_, fun hzero => ?_⟩
  · exact ends_runTool.mpr ⟨fun _ => ⟨rfl, hfiles, h.state, hstarted⟩,
      fun hne => absurd (hcode.trans hzero) hne⟩
  · refine ends_runTool.mpr ⟨fun hzero' => absurd (hcode.symm.trans hzero') hzero, fun _ => ?_⟩
    rw [hcause, h.state]
    exact ⟨rfl, hfiles, rfl, hstarted⟩

/-- Two steps that end the build for the same reason, or go on. -/
theorem Matches.unless {c c' : Prop} [Decidable c] [Decidable c'] {cause : Cause}
    {next next' : β → Step α} {step step' : Step α} (hc : c' ↔ c) (h : Matches step step') :
    Matches (if c then fail cause >>= next else step)
      (if c' then fail cause >>= next' else step') := by
  rw [fail_bind, fail_bind]
  exact .ite hc (matches_fail _) h

/-! ## The steps after cleaning -/

variable {s : Setup}

theorem matches_removeOldObject (object : Path) :
    Matches (removeOldObject object) (removeOldObject object) := by
  refine matches_files_bind fun t t' h => Matches.ite (by rw [h.pathExists]) ?_ (matches_pure _)
  have hremove := h.remove object
  generalize t.remove object = removed at hremove ⊢
  generalize t'.remove object = removed' at hremove ⊢
  cases hremove with
  | error fault => exact matches_fail _
  | ok h => exact matches_setFiles h

theorem matches_compile (hprobes : s.probes = Probes.real) (htools : s.tools.Steady) :
    Matches (compile s) (compile s) := by
  refine matches_files_bind fun t t' h => .unless (by rw [h.isRegularFile]) ?_
  refine (matches_removeOldObject _).bind fun _ => ?_
  refine (matches_runTool hprobes htools _ _).bind fun _ => ?_
  exact matches_files_bind fun t t' h => .unless (by rw [h.pathExists]) (matches_advance _)

theorem matches_archive (hprobes : s.probes = Probes.real) (htools : s.tools.Steady) :
    Matches (archive s) (archive s) := by
  refine matches_files_bind fun t t' h => .unless (by rw [h.isRegularFile]) ?_
  refine (matches_runTool hprobes htools _ _).bind fun _ => ?_
  exact matches_files_bind fun t t' h => .unless (by rw [h.pathExists]) (matches_advance _)

theorem matches_cleanup : Matches (cleanup s) (cleanup s) := by
  refine matches_files_bind fun t t' h => .unless (by rw [h.pathExists]) ?_
  have hremove := h.remove s.config.objectPath
  generalize t.remove s.config.objectPath = removed at hremove ⊢
  generalize t'.remove s.config.objectPath = removed' at hremove ⊢
  cases hremove with
  | error fault =>
      exact (matches_fail _).bind fun _ => matches_advance _
  | ok h => exact (matches_setFiles h).bind fun _ => matches_advance _

/-- All that is made after cleaning, with its hash. -/
def produce (s : Setup) : Step Bytes := do
  compile s
  archive s
  cleanup s
  hash s.config.archivePath

theorem make_eq (s : Setup) (removed : List Path) :
    make s removed = Report.mk s.config.archivePath removed <$> produce s := by
  simp [make, produce]

theorem matches_produce (hprobes : s.probes = Probes.real) (htools : s.tools.Steady) :
    Matches (produce s) (produce s) := by
  refine (matches_compile hprobes htools).bind fun _ => ?_
  refine (matches_archive hprobes htools).bind fun _ => ?_
  refine matches_cleanup.bind fun _ => ?_
  rw [hash_eq]
  refine matches_files_bind fun t t' h => ?_
  have hhash : Archive.fileHash t' s.config.archivePath
      = Archive.fileHash t s.config.archivePath := by
    rw [Archive.fileHash, Archive.fileHash, Archive.hashFile, Archive.hashFile, h.read?]
  rw [hhash]
  exact matches_pure _

end Step

end Build

end Prebuilt
