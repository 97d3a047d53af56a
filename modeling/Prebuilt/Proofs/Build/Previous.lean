import Prebuilt.Proofs.Build.Freshness

/-!
# What becomes of the previous archive

An archiver adds to the archive that it finds, so the clean step is to
remove the one of the last build first. Validation makes the archive's
name end in the archive extension, whatever text that is, but an archive
is listed only under the extension that its last dot opens. The two agree
if the extension begins with a dot and has no other. Otherwise the
archive is never listed, the clean step may well succeed but leaves it,
and the compiler is started with the old archive still in its place
(`previous_archive_removed_iff`).
-/

namespace Prebuilt.Build

open FileTree

/-! ## Where it lies -/

/-- The archive of the configuration is a regular file at its own name in
the output directory `d`. -/
structure PreviousAt (c : Config) (files : FileTree) (d : Location) : Prop where
  outDir : files.resolve c.outDir = .ok d
  directory : files.lookup d = some .directory
  path : files.resolve c.archivePath = .ok (d ++ [c.archive])
  file : ∃ content x, files.lookup (d ++ [c.archive]) = some (.file content x)
  isName : IsName c.archive

variable {c : Config} {files swept t : FileTree} {d : Location} {gone : List Bytes}

/-- The name of the archive has two bytes at least, and the way back to
the parent does not lead to a file, so its path ends in its name. -/
theorem exists_previousAt (hc : c.Checked) (hfiles : files.WellFormed)
    (h : files.isRegularFile c.archivePath = true) : ∃ d, PreviousAt c files d := by
  obtain ⟨content, x, hstat⟩ := isRegularFile_eq_true_iff.mp h
  obtain ⟨l, hl, hfile⟩ := stat_eq_ok_iff.mp hstat
  obtain ⟨d, hd, hdir, -, -, hturn⟩ :=
    (resolve_join_eq_ok_iff hc.outDir hc.archiveBare).mp hl
  obtain ⟨front, hfront, heq⟩ := hc.archive
  have hlength : 2 ≤ c.archive.length := by
    have h₁ := List.length_pos_iff.mpr hfront
    have h₂ := List.length_pos_iff.mpr hc.extension
    rw [heq, List.length_append]
    omega
  have hne : ∀ name : Bytes, name.length < 2 → c.archive ≠ name := by
    rintro name hname rfl
    omega
  have hdots : c.archive ≠ ".." := by
    intro hdots
    rw [hdots] at hturn
    obtain rfl : d.dropLast = l := hturn
    rw [hfiles.parent hdir] at hfile
    cases hfile
  rw [turn_of_isBare (hne [] (by decide)) (hne "." (by decide)) hdots] at hturn
  subst hturn
  exact ⟨d, hd, hdir, hl, ⟨content, x, hfile⟩, hfiles.isName_last hfile⟩

namespace PreviousAt

theorem mem_namesAt_iff (h : PreviousAt c files d) (hc : c.Checked) :
    c.archive ∈ Archive.namesAt files d c.archiveExtension
      ↔ Path.OneDot c.archiveExtension := by
  obtain ⟨front, hfront, heq⟩ := hc.archive
  have hbare := hc.archiveBare
  have hdots := h.isName.notDots
  rw [heq] at hbare hdots
  rw [Archive.mem_namesAt, and_iff_right h.file, heq]
  exact Path.extension_append_eq_iff hfront hc.extension hbare hdots

/-- It is listed by its path and by no other. -/
theorem mem_listed_iff (h : PreviousAt c files d) (hc : c.Checked) (hfiles : files.WellFormed) :
    c.archivePath ∈ (Archive.namesAt files d c.archiveExtension).map c.outDir.join
      ↔ Path.OneDot c.archiveExtension := by
  rw [← h.mem_namesAt_iff hc, List.mem_map]
  constructor
  · rintro ⟨name, hname, hpath⟩
    obtain ⟨⟨content, x, hfile⟩, -⟩ := Archive.mem_namesAt.mp hname
    have hsame := congrArg Path.fileName hpath
    rw [Config.archivePath, Path.fileName_join (hfiles.isName_last hfile).noSlash,
      Path.fileName_join hc.archiveBare] at hsame
    exact hsame ▸ hname
  · exact fun hmem => ⟨c.archive, hmem, rfl⟩

/-! ## What is left of it -/

/-- A sweep takes the archive, or leaves it as it is. -/
theorem lookup_swept (h : PreviousAt c files d) (hc : c.Checked)
    (hswept : Step.Swept c files d gone [] swept) :
    swept.lookup (d ++ [c.archive])
      = if Path.OneDot c.archiveExtension then none else files.lookup (d ++ [c.archive]) := by
  have hgone : d ++ [c.archive] ∈ gone.map (d ++ [·]) ↔ Path.OneDot c.archiveExtension := by
    rw [← h.mem_namesAt_iff hc, hswept.names, List.append_nil, List.mem_map]
    constructor
    · rintro ⟨name, hname, heq⟩
      exact List.singleton_inj.mp (List.append_cancel_left heq) ▸ hname
    · exact fun hmem => ⟨c.archive, hmem, rfl⟩
  rw [hswept.files, lookup_eraseAll (List.append_ne_nil_of_right_ne_nil _ (List.cons_ne_nil _ _))]
  exact if_congr hgone rfl rfl

/-- The object has another name, so removing it does nothing to the
archive. -/
theorem lookup_cleared (h : PreviousAt c files d) (hc : c.Checked)
    (hswept : Step.Swept c files d gone [] swept)
    (hcleared : ObjectCleared c.objectPath swept t) :
    t.lookup (d ++ [c.archive]) = swept.lookup (d ++ [c.archive]) := by
  cases hcleared with
  | absent => rfl
  | removed hremoved =>
      obtain ⟨l, hl, -, rfl, -⟩ := remove_eq_ok_iff.mp hremoved
      obtain ⟨d', hd', -, -, -, rfl⟩ :=
        (resolve_join_eq_ok_iff hc.outDir hc.objectBare).mp hl
      obtain rfl : d' = d := Except.ok.inj (hd'.symm.trans (hswept.resolve h.outDir))
      exact lookup_erase_of_ne swept (Config.turn_ne_append hc.different).symm

end PreviousAt

/-! ## The steps -/

variable {s : Setup} {p : Progress}

/-- A clean step that ends well has swept everything that was listed. -/
theorem PreviousAt.clean_ends (h : PreviousAt s.config p.files d)
    (hprobes : s.probes = Probes.real) (hc : s.config.Checked) (hfiles : p.files.WellFormed) :
    (Step.clean s).Ends p fun r q => q.invocations = p.invocations ∧
      ∀ removed, r = .ok removed →
        removed = (Archive.namesAt p.files d s.config.archiveExtension).map s.config.outDir.join ∧
        ∃ gone, Step.Swept s.config p.files d gone [] q.files := by
  have hlisted := Step.filesIn_namesAt s.config.archiveExtension hfiles h.outDir h.directory
  refine (Step.clean_ends_of_directory hprobes hc.outDir hlisted).imp ?_
  rintro r q ⟨hinv, gone, rest, hswept, hend⟩
  refine ⟨hinv, ?_⟩
  rintro removed rfl
  obtain ⟨rfl, rfl, -⟩ := hend
  refine ⟨?_, gone, hswept⟩
  rw [hswept.names, List.append_nil]

/-- The only compiler of a build is started where the clean step has
ended, once the object is out of the way. -/
theorem make_compilers (hnone : p.invocations = []) (removed : List Path) :
    (Step.make s removed).Ends p fun _ q => ∀ i ∈ q.invocations, i.role = .compiler →
      ObjectCleared s.config.objectPath p.files i.files := by
  unfold Step.make
  refine Step.ends_bind.mpr (Step.compile_ends.imp ?_)
  intro r q hcompile
  have hq : ∀ i ∈ q.invocations, i.role = .compiler →
      ObjectCleared s.config.objectPath p.files i.files := by
    rcases hcompile with ⟨-, -, hinv, -⟩ | ⟨-, t, hcleared, hinv, -⟩
    · rw [hinv, hnone]
      nofun
    · rw [hinv, hnone]
      rintro i hi -
      obtain rfl := List.mem_singleton.mp hi
      exact hcleared
  rcases r with e | _
  · exact hq
  refine Step.ends_bind.mpr (Step.archive_ends.imp ?_)
  intro r q₁ harchive
  have hq₁ : ∀ i ∈ q₁.invocations, i.role = .compiler →
      ObjectCleared s.config.objectPath p.files i.files := by
    rcases harchive with ⟨-, -, hinv⟩ | ⟨-, hinv, -⟩
    · exact hinv ▸ hq
    · rw [hinv]
      exact List.forall_mem_append.mpr ⟨hq, List.forall_mem_singleton.mpr nofun⟩
  rcases r with e | _
  · exact hq₁
  refine Step.ends_bind.mpr (Step.cleanup_ends.imp ?_)
  rintro (e | _) q₂ ⟨hinv, -⟩
  · exact hinv ▸ hq₁
  · exact Step.ends_bind.mpr (Step.ends_hash.mpr (Step.ends_pure.mpr (hinv ▸ hq₁)))

theorem PreviousAt.all_ends (h : PreviousAt s.config files d)
    (hprobes : s.probes = Probes.real) (hc : s.config.Checked) (hfiles : files.WellFormed) :
    (Step.all s).Ends ⟨files, .start, [], []⟩ fun _ q =>
      ∀ i ∈ q.invocations, i.role = .compiler →
        i.files.lookup (d ++ [s.config.archive])
          = if Path.OneDot s.config.archiveExtension then none
            else files.lookup (d ++ [s.config.archive]) := by
  rw [Step.all_eq]
  refine Step.ends_bind.mpr (Step.ends_log.mpr (Step.ends_bind.mpr ?_))
  refine (h.clean_ends hprobes hc hfiles).imp ?_
  rintro (e | removed) q ⟨hinv, hend⟩
  · rw [hinv]
    nofun
  · obtain ⟨-, gone, hswept⟩ := hend removed rfl
    refine (make_compilers hinv removed).imp fun _ q' hcompilers i hi hrole => ?_
    rw [h.lookup_cleared hc hswept (hcompilers i hi hrole), h.lookup_swept hc hswept]

/-- The archive of the last build is listed, and is gone after the clean
step and when the compiler starts, exactly if the archive extension has
one dot and begins with it. Under any other extension it stays as it is. -/
theorem previous_archive_removed_iff (c : Config) (tools : Tools) (files : FileTree)
    (hc : c.Valid) (hfiles : files.WellFormed) (h : files.isRegularFile c.archivePath = true) :
    ∃ l listed, files.resolve c.archivePath = .ok l ∧
      Archive.find files c.outDir c.archiveExtension = .ok listed ∧
      (c.archivePath ∈ listed ↔ Path.OneDot c.archiveExtension) ∧
      (∀ removed, (Setup.clean ⟨c, Probes.real, tools⟩ files).result = .ok removed →
        removed = listed ∧
        (Setup.clean ⟨c, Probes.real, tools⟩ files).progress.files.lookup l
          = if Path.OneDot c.archiveExtension then none else files.lookup l) ∧
      ∀ i ∈ (Setup.build ⟨c, Probes.real, tools⟩ files).progress.invocations,
        i.role = .compiler →
          i.files.lookup l = if Path.OneDot c.archiveExtension then none else files.lookup l := by
  obtain ⟨d, hd⟩ := exists_previousAt hc.checked hfiles h
  refine ⟨d ++ [c.archive], (Archive.namesAt files d c.archiveExtension).map c.outDir.join,
    hd.path, Archive.find_of_directory hd.outDir hd.directory,
    hd.mem_listed_iff hc.checked hfiles, ?_, ?_⟩
  · intro removed hremoved
    have hclean := (PreviousAt.clean_ends (s := ⟨c, Probes.real, tools⟩)
      (p := ⟨files, .start, [], []⟩) hd rfl hc.checked hfiles).runFrom
    obtain ⟨hlisted, gone, hswept⟩ := hclean.2 removed hremoved
    exact ⟨hlisted, hd.lookup_swept hc.checked hswept⟩
  · exact (PreviousAt.all_ends (s := ⟨c, Probes.real, tools⟩) hd rfl hc.checked hfiles).runFrom

theorem previous_archive_removed_over_leftovers :
    let run := Setup.clean ⟨{}, Probes.real, makingTools⟩ leftovers
    Config.Valid {} ∧ leftovers.WellFormed ∧
      leftovers.isRegularFile (Config.archivePath {}) = true ∧
      (∃ listed, Archive.find leftovers "bin" ".a" = .ok listed ∧
        Config.archivePath {} ∈ listed) ∧
      run.progress.files.lookup ["bin", "gd32vf103xx-hal.a"] = none := by
  have hvalid : Config.Valid {} := by decide
  have hwf : leftovers.WellFormed := by decide
  have hfile : leftovers.isRegularFile (Config.archivePath {}) = true := by decide
  obtain ⟨l, listed, hl, hfind, hmem, hclean, -⟩ :=
    previous_archive_removed_iff {} makingTools leftovers hvalid hwf hfile
  have hdot : Path.OneDot ".a" := by decide
  obtain rfl : (["bin", "gd32vf103xx-hal.a"] : Location) = l := Except.ok.inj hl
  have hrun : (Setup.clean ⟨{}, Probes.real, makingTools⟩ leftovers).result
      = .ok ["bin/gd32vf103xx-hal.a"] := by
    decide +kernel
  exact ⟨hvalid, hwf, hfile, ⟨listed, hfind, hmem.mpr hdot⟩,
    (hclean _ hrun).2.trans (if_pos hdot)⟩

/-- What an earlier build has made under an extension with two dots. -/
def madeUnderTwoDots : FileTree where
  entries := [(["bin"], .directory), (["bin", "lib.tar.a"], .file "old" false)]
  distinct := by decide
  workingDirectory := []
  emptied := []

/-- The archive is not listed, and a clean step that reports success
leaves it where it is. -/
theorem previous_archive_left_under_two_dots :
    let c : Config := { archive := "lib.tar.a", archiveExtension := ".tar.a" }
    let run := Setup.clean ⟨c, Probes.real, makingTools⟩ madeUnderTwoDots
    c.Valid ∧ madeUnderTwoDots.WellFormed ∧ madeUnderTwoDots.isRegularFile c.archivePath = true ∧
      Archive.find madeUnderTwoDots c.outDir c.archiveExtension = .ok [] ∧
      run.result = .ok [] ∧ run.progress.files.isRegularFile c.archivePath = true := by
  decide +kernel

end Prebuilt.Build
