import Prebuilt.Proofs.Build.Clean
import Prebuilt.Proofs.Build.Effect

/-!
# Nothing old passes for new

An archiver puts objects into the archive it finds, and a compiler may
succeed without making anything, so a build must not leave them anything
old to be taken for their work. When the compiler starts, no archive
lies in the output directory and no object is there; when a build
reports its success, the object is gone again and the archive that its
hash is about is there (`build_fresh`). This holds whatever the tools
do.
-/

namespace Prebuilt.Build

open FileTree

/-! ## No archive is left -/

/-- A regular file with the extension lies directly in the directory. -/
def HoldsArchive (files : FileTree) (dir : Path) (ext : Bytes) : Prop :=
  ∃ l name content x, files.resolve dir = .ok l ∧
    files.lookup (l ++ [name]) = some (.file content x) ∧ Path.extension name = ext

variable {c : Config} {t t' : FileTree}

theorem HoldsArchive.mono {dir : Path} {ext : Bytes} (hext : Extends t t')
    (h : HoldsArchive t dir ext) : HoldsArchive t' dir ext := by
  obtain ⟨l, name, content, x, hl, hfile, hname⟩ := h
  exact ⟨l, name, content, x, hext.resolve hl, hext.lookup hfile, hname⟩

/-- A sweep that came to its end left no archive. -/
theorem not_holdsArchive_of_swept {d : Location} {gone : List Bytes}
    (h : Step.Swept c t d gone [] t') : ¬ HoldsArchive t' c.outDir c.archiveExtension := by
  rintro ⟨l, name, content, x, hl, hfile, hext⟩
  have hshrunk := h.extends_ready
  obtain rfl : l = d := Except.ok.inj ((hshrunk.resolve hl).symm.trans h.filesIn.resolve)
  have hmem : name ∈ gone := by
    rw [← List.append_nil gone, ← h.names]
    exact Archive.mem_namesAt.mpr ⟨⟨content, x, hshrunk.lookup hfile⟩, hext⟩
  rw [h.files, lookup_eraseAll (List.append_ne_nil_of_right_ne_nil _ (List.cons_ne_nil _ _)),
    if_pos (List.mem_map.mpr ⟨name, hmem, rfl⟩)] at hfile
  cases hfile

theorem two_le_of_plain {ext : Bytes} (h : Path.IsPlainExtension ext) : 2 ≤ ext.length := by
  obtain ⟨word, rfl, hword, -⟩ := h
  have hpos := List.length_pos_iff.mpr hword
  rw [List.length_cons]
  omega

theorem extension_archive (hc : c.Checked) (hext : Path.IsPlainExtension c.archiveExtension) :
    Path.extension c.archive = c.archiveExtension := by
  obtain ⟨front, hfront, heq⟩ := hc.archive
  have hbare := hc.archiveBare
  rw [heq] at hbare ⊢
  exact Path.extension_append_of_plain hext hfront hbare

/-- The archive of the configuration would be among the archives. -/
theorem isRegularFile_archivePath_of_not_holdsArchive (hc : c.Checked)
    (hext : Path.IsPlainExtension c.archiveExtension)
    (h : ¬ HoldsArchive t c.outDir c.archiveExtension) :
    t.isRegularFile c.archivePath = false := by
  rw [Bool.eq_false_iff, ne_eq, isRegularFile_eq_true_iff]
  rintro ⟨content, x, hstat⟩
  obtain ⟨l, hl, hfile⟩ := stat_eq_ok_iff.mp hstat
  obtain ⟨d, hd, -, -, -, hturn⟩ :=
    (resolve_join_eq_ok_iff hc.outDir hc.archiveBare).mp hl
  rw [Config.turn_archive hc (two_le_of_plain hext)] at hturn
  exact h ⟨d, c.archive, content, x, hd, hturn ▸ hfile, extension_archive hc hext⟩

/-! ## Along a build -/

/-- Nothing in the tree could be taken for what the tools are to make. -/
structure Fresh (c : Config) (t : FileTree) : Prop where
  noArchives : ¬ HoldsArchive t c.outDir c.archiveExtension
  noArchive : t.isRegularFile c.archivePath = false
  noObject : t.pathExists c.objectPath = false

/-- Every compiler so far was started in a fresh tree. -/
def StartedFresh (c : Config) (p : Progress) : Prop :=
  ∀ i ∈ p.invocations, i.role = .compiler → Fresh c i.files

theorem StartedFresh.of_eq {p q : Progress} (h : StartedFresh c p)
    (heq : q.invocations = p.invocations) : StartedFresh c q :=
  fun i hi => h i (heq ▸ hi)

theorem StartedFresh.concat {p q : Progress} {i : Invocation} (h : StartedFresh c p)
    (heq : q.invocations = p.invocations ++ [i]) (hi : i.role = .compiler → Fresh c i.files) :
    StartedFresh c q := by
  intro j hj
  rw [heq, List.mem_append, List.mem_singleton] at hj
  rcases hj with hj | rfl
  · exact h j hj
  · exact hi

variable {s : Setup} {p : Progress}

theorem compile_startedFresh (hc : s.config.Checked)
    (hext : Path.IsPlainExtension s.config.archiveExtension) (h : StartedFresh s.config p)
    (hnone : ¬ HoldsArchive p.files s.config.outDir s.config.archiveExtension) :
    (Step.compile s).Ends p fun _ q => StartedFresh s.config q := by
  refine Step.compile_ends.imp ?_
  rintro r q (⟨-, -, hinv, -⟩ | ⟨-, t, hcleared, hinv, -⟩)
  · exact h.of_eq hinv
  · refine h.concat hinv fun _ => ?_
    have hnone' : ¬ HoldsArchive t s.config.outDir s.config.archiveExtension :=
      fun hholds => hnone (hholds.mono hcleared.extend)
    exact ⟨hnone', isRegularFile_archivePath_of_not_holdsArchive hc hext hnone',
      hcleared.pathExists⟩

/-- The archive step and the cleanup after it: no compiler is started,
and if both succeed the archive is there and the object is not. -/
theorem archive_cleanup_ends (hc : s.config.Checked)
    (hext : Path.IsPlainExtension s.config.archiveExtension) (h : StartedFresh s.config p) :
    (Step.archive s).Ends p fun r q => StartedFresh s.config q ∧
      (r = .ok () → (Step.cleanup s).Ends q fun r' q' => StartedFresh s.config q' ∧
        (r' = .ok () → q'.files.pathExists s.config.objectPath = false ∧
          q'.files.pathExists s.config.archivePath = true)) := by
  refine Step.archive_ends.imp ?_
  rintro r q (⟨⟨e, rfl⟩, -, hinv⟩ | ⟨hobject, hinv, hfiles, hmade⟩)
  · exact ⟨h.of_eq hinv, nofun⟩
  have hq : StartedFresh s.config q := h.concat hinv nofun
  refine ⟨hq, fun hr => Step.cleanup_ends.imp ?_⟩
  rintro r' q' ⟨hinv', hend⟩
  refine ⟨hq.of_eq hinv', ?_⟩
  rintro rfl
  have hw : q.files.workingDirectory = p.files.workingDirectory := by
    rw [hfiles]
    rfl
  refine ⟨pathExists_of_remove hend, ?_⟩
  rw [Config.pathExists_archive_of_remove hc (two_le_of_plain hext) hw hobject hend]
  exact (hmade hr).1

theorem make_fresh (hc : s.config.Checked)
    (hext : Path.IsPlainExtension s.config.archiveExtension) (removed : List Path)
    (h : StartedFresh s.config p)
    (hnone : ¬ HoldsArchive p.files s.config.outDir s.config.archiveExtension) :
    (Step.make s removed).Ends p fun r q => StartedFresh s.config q ∧
      ∀ report, r = .ok report → q.files.pathExists s.config.objectPath = false ∧
        q.files.pathExists s.config.archivePath = true ∧
        report.hash = Archive.fileHash q.files s.config.archivePath := by
  unfold Step.make
  refine Step.ends_bind.mpr ((compile_startedFresh hc hext h hnone).imp ?_)
  rintro (e | _) q hq
  · exact ⟨hq, nofun⟩
  refine Step.ends_bind.mpr ((archive_cleanup_ends hc hext hq).imp ?_)
  rintro (e | _) q₁ ⟨hq₁, hcleanup⟩
  · exact ⟨hq₁, nofun⟩
  refine Step.ends_bind.mpr ((hcleanup rfl).imp ?_)
  rintro (e | _) q₂ ⟨hq₂, hdone⟩
  · exact ⟨hq₂, nofun⟩
  obtain ⟨hobject, harchive⟩ := hdone rfl
  refine Step.ends_bind.mpr (Step.ends_hash.mpr (Step.ends_pure.mpr ⟨hq₂, ?_⟩))
  rintro report hreport
  obtain rfl := Except.ok.inj hreport
  exact ⟨hobject, harchive, rfl⟩

theorem all_fresh (hprobes : s.probes = Probes.real) (hc : s.config.Checked)
    (hext : Path.IsPlainExtension s.config.archiveExtension) {files : FileTree}
    (hfiles : files.WellFormed) :
    (Step.all s).Ends ⟨files, .start, [], []⟩ fun r q => StartedFresh s.config q ∧
      ∀ report, r = .ok report → q.files.pathExists s.config.objectPath = false ∧
        q.files.pathExists s.config.archivePath = true ∧
        report.hash = Archive.fileHash q.files s.config.archivePath := by
  rw [Step.all_eq]
  refine Step.ends_bind.mpr (Step.ends_log.mpr (Step.ends_bind.mpr ?_))
  refine (Step.clean_ends hprobes hc.outDir hfiles).imp ?_
  rintro r q ⟨hinv, hend⟩
  have hq : StartedFresh s.config q := fun i hi => by
    rw [hinv] at hi
    cases hi
  split at hend
  · obtain ⟨⟨e, rfl⟩, -⟩ := hend
    exact ⟨hq, nofun⟩
  obtain ⟨d, gone, rest, hswept, hend⟩ := hend
  cases r with
  | error e => exact ⟨hq, nofun⟩
  | ok removed =>
      obtain ⟨rfl, -⟩ := hend
      exact make_fresh hc hext removed hq (not_holdsArchive_of_swept hswept)

/-- Whatever the tools do and whatever lay around: the compiler is
started where no archive and no object is, and a build that reports its
success has removed the object and hashed the archive that is there. -/
theorem build_fresh (c : Config) (tools : Tools) (files : FileTree) (hc : c.Valid)
    (hext : Path.IsPlainExtension c.archiveExtension) (hfiles : files.WellFormed) :
    let run := Setup.build ⟨c, Probes.real, tools⟩ files
    (∀ i ∈ run.progress.invocations, i.role = .compiler → Fresh c i.files) ∧
    (∀ report, run.result = .ok report →
      run.progress.files.pathExists c.objectPath = false ∧
      run.progress.files.pathExists c.archivePath = true ∧
      report.hash = Archive.fileHash run.progress.files c.archivePath) :=
  (all_fresh (s := ⟨c, Probes.real, tools⟩) rfl hc.checked hext hfiles).runFrom

/-- Tools that make the object, and the archive once there is one. -/
def makingTools : Tools := fun _ files =>
  if files.pathExists (Config.objectPath {}) then
    ⟨0, [], files.put ["bin", "gd32vf103xx-hal.a"] (.file "archive" false)⟩
  else ⟨0, [], files.put ["bin", "rebase-hack.o"] (.file "object" false)⟩

/-- What a build was interrupted over. -/
def leftovers : FileTree where
  entries := [(["bin"], .directory), (["bin", "gd32vf103xx-hal.a"], .file "old archive" false),
    (["bin", "rebase-hack.o"], .file "old object" false), (["rebase-hack.S"], .file "" false)]
  distinct := by decide
  workingDirectory := []
  emptied := []

theorem build_fresh_over_leftovers :
    let run := Setup.build ⟨{}, Probes.real, makingTools⟩ leftovers
    (∀ i ∈ run.progress.invocations, i.role = .compiler → Fresh {} i.files) ∧
    ∃ report, run.result = .ok report ∧
      run.progress.files.pathExists (Config.objectPath {}) = false ∧
      run.progress.files.pathExists (Config.archivePath {}) = true ∧
      report.hash = Archive.fileHash run.progress.files (Config.archivePath {}) := by
  have hextension : Path.IsPlainExtension ".a" := ⟨"a", rfl, by decide, by decide, by decide⟩
  have hfresh := build_fresh {} makingTools leftovers (by decide) hextension (by decide)
  have hok : (Setup.build ⟨{}, Probes.real, makingTools⟩ leftovers).result.isOk = true := by
    decide +kernel
  generalize Setup.build ⟨{}, Probes.real, makingTools⟩ leftovers = run at hfresh hok ⊢
  obtain ⟨result, progress⟩ := run
  cases result with
  | error e => cases hok
  | ok report => exact ⟨hfresh.1, report, rfl, hfresh.2 report rfl⟩

end Prebuilt.Build
