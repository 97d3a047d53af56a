import Prebuilt.Proofs.Build.Rebuild

/-!
# What a build leaves as it was

The clean step makes the output directory, with the parents it lacks,
and removes the archives directly in it. It does nothing else, and if it
fails it has done no more than a part of that
(`clean_removes_archives_only`).

The steps after it change what is at the paths of the object and of the
archive, as long as the tools keep to these two. So whatever else was in
the tree before a build is there after it, with success or with any
error at any step (`build_keeps_all_else`).
-/

namespace Prebuilt.Build

open FileTree

variable {c : Config} {t t' t'' ready : FileTree} {d k : Location} {gone rest : List Bytes}

/-! ## Archives of the output directory -/

/-- A regular file with the archive extension is there, directly in the
output directory. -/
def ArchiveAt (c : Config) (t : FileTree) (k : Location) : Prop :=
  ∃ name content x, k = c.outDir.spot t.workingDirectory ++ [name] ∧
    t.lookup k = some (.file content x) ∧ Path.extension name = c.archiveExtension

theorem archiveAt_iff : ArchiveAt c t k ↔
    ∃ name ∈ Archive.namesAt t (c.outDir.spot t.workingDirectory) c.archiveExtension,
      k = c.outDir.spot t.workingDirectory ++ [name] := by
  constructor
  · rintro ⟨name, content, x, rfl, hfile, hext⟩
    exact ⟨name, Archive.mem_namesAt.mpr ⟨⟨content, x, hfile⟩, hext⟩, rfl⟩
  · rintro ⟨name, hname, rfl⟩
    obtain ⟨⟨content, x, hfile⟩, hext⟩ := Archive.mem_namesAt.mp hname
    exact ⟨name, content, x, rfl, hfile, hext⟩

-- Not over `namesAt`: its sort does not evaluate in the kernel.
instance (c : Config) (t : FileTree) (k : Location) : Decidable (ArchiveAt c t k) :=
  decidable_of_iff (∃ name ∈ t.names (c.outDir.spot t.workingDirectory),
      k = c.outDir.spot t.workingDirectory ++ [name] ∧
        (t.lookup k).any Entry.isFile ∧ Path.extension name = c.archiveExtension) <| by
    rw [archiveAt_iff]
    refine exists_congr fun name => ?_
    rw [Archive.namesAt, (Archive.among_perm _).mem_iff, List.mem_filter, Bool.and_eq_true,
      decide_eq_true_eq]
    constructor
    · rintro ⟨hname, rfl, hfile⟩
      exact ⟨⟨hname, hfile⟩, rfl⟩
    · rintro ⟨⟨hname, hfile⟩, rfl⟩
      exact ⟨hname, rfl, hfile⟩

theorem archiveAt_concat_iff {name : Bytes} :
    ArchiveAt c t (c.outDir.spot t.workingDirectory ++ [name]) ↔
      name ∈ Archive.namesAt t (c.outDir.spot t.workingDirectory) c.archiveExtension := by
  rw [archiveAt_iff]
  constructor
  · rintro ⟨other, hother, heq⟩
    exact List.singleton_inj.mp (List.append_cancel_left heq) ▸ hother
  · exact fun hname => ⟨name, hname, rfl⟩

/-- The paths of the archives in ascending order, however the directory
is read. -/
structure Listed (c : Config) (t : FileTree) (paths : List Path) : Prop where
  ascending : paths.Pairwise (· < ·)
  mem : ∀ p, p ∈ paths ↔ ∃ name, p = c.outDir.join name ∧
    ArchiveAt c t (c.outDir.spot t.workingDirectory ++ [name])
  read : ∀ order, order.Perm (t.names (c.outDir.spot t.workingDirectory)) →
    paths = (Archive.among t (c.outDir.spot t.workingDirectory) c.archiveExtension order).map
      c.outDir.join

theorem join_lt_join {dir a b : Path} (hdir : dir ≠ []) (ha : '/'.toUInt8 ∉ a)
    (hb : '/'.toUInt8 ∉ b) (h : a < b) : dir.join a < dir.join b := by
  obtain ⟨front, -, hjoin⟩ := Path.exists_front hdir
  rw [hjoin ha, hjoin hb]
  exact List.append_left_lt (List.cons_lt_cons_iff.mpr (Or.inr ⟨rfl, h⟩))

theorem listed_namesAt (hout : c.outDir ≠ []) (h : t.WellFormed) :
    Listed c t ((Archive.namesAt t (c.outDir.spot t.workingDirectory)
      c.archiveExtension).map c.outDir.join) := by
  refine ⟨?_, fun p => ?_, fun order horder => by rw [Archive.among_eq_namesAt horder]⟩
  · have hbare : ∀ name ∈ Archive.namesAt t (c.outDir.spot t.workingDirectory)
        c.archiveExtension, '/'.toUInt8 ∉ name := by
      intro name hname
      obtain ⟨⟨content, x, hfile⟩, -⟩ := Archive.mem_namesAt.mp hname
      exact (h.isName_last hfile).noSlash
    refine List.pairwise_map.mpr (Archive.pairwise_lt_namesAt.imp_of_mem ?_)
    exact fun ha hb hlt => join_lt_join hout (hbare _ ha) (hbare _ hb) hlt
  · simp only [List.mem_map, archiveAt_concat_iff]
    exact ⟨fun ⟨name, hname, hp⟩ => ⟨name, hp.symm, hname⟩,
      fun ⟨name, hp, hname⟩ => ⟨name, hname, hp.symm⟩⟩

/-! ## Cleaning -/

/-- Archives are gone and directories were made in places of the class,
and nothing else has changed. -/
structure PartlyCleaned (c : Config) (made : Location → Prop) (t t' : FileTree) : Prop where
  workingDirectory : t'.workingDirectory = t.workingDirectory
  lookup : ∀ k, t'.lookup k = t.lookup k ∨
    (ArchiveAt c t k ∧ t'.lookup k = none) ∨
    (made k ∧ t.lookup k = none ∧ t'.lookup k = some .directory)

/-- All archives are gone, and the output directory is there. -/
structure Cleaned (c : Config) (t t' : FileTree) : Prop extends
    PartlyCleaned c
      (· ∈ c.outDir.spot t.workingDirectory :: c.outDir.way t.workingDirectory) t t' where
  archives : ∀ k, ArchiveAt c t k → t'.lookup k = none
  directories : ∀ k ∈ c.outDir.spot t.workingDirectory :: c.outDir.way t.workingDirectory,
    t'.lookup k = some .directory

namespace Step.Swept

variable {P : Location → Prop}

theorem spot_eq (h : Swept c ready d gone rest t') (hgrown : Grown P t ready) :
    c.outDir.spot t.workingDirectory = d := by
  rw [← hgrown.workingDirectory]
  exact (resolve_eq_ok_iff.mp h.filesIn.resolve).2.2

theorem archiveAt_iff (h : Swept c ready d gone rest t') (hgrown : Grown P t ready) :
    ArchiveAt c t k ↔ ∃ name ∈ gone ++ rest, k = d ++ [name] := by
  rw [Build.archiveAt_iff, h.spot_eq hgrown, ← Archive.namesAt_of_grown hgrown, h.names]

/-- A sweep is a part of cleaning. -/
theorem partlyCleaned (h : Swept c ready d gone rest t') (hgrown : Grown P t ready) :
    PartlyCleaned c P t t' := by
  refine ⟨?_, fun k => ?_⟩
  · rw [h.files, workingDirectory_eraseAll, hgrown.workingDirectory]
  by_cases hk : k ∈ gone.map (d ++ [·])
  · obtain ⟨name, hname, rfl⟩ := List.mem_map.mp hk
    refine Or.inr (Or.inl ⟨(h.archiveAt_iff hgrown).mpr
      ⟨name, List.mem_append.mpr (Or.inl hname), rfl⟩, ?_⟩)
    rw [h.files, lookup_eraseAll (by simp), if_pos hk]
  · rw [h.files, lookup_eraseAll_of_notMem hk]
    exact (hgrown.lookup k).imp id Or.inr

/-- A sweep that came to its end has cleaned. -/
theorem cleaned (h : Swept c ready d gone [] t')
    (hgrown : Grown
      (· ∈ c.outDir.spot t.workingDirectory :: c.outDir.way t.workingDirectory) t ready) :
    Cleaned c t t' := by
  refine ⟨h.partlyCleaned hgrown, fun k hk => ?_, fun k hk => ?_⟩
  · obtain ⟨name, hname, rfl⟩ := (h.archiveAt_iff hgrown).mp hk
    rw [List.append_nil] at hname
    rw [h.files, lookup_eraseAll (by simp), if_pos (List.mem_map.mpr ⟨name, hname, rfl⟩)]
  · refine h.lookup_directory ?_
    obtain ⟨-, hway, -⟩ := resolve_eq_ok_iff.mp h.filesIn.resolve
    rw [hgrown.workingDirectory] at hway
    rcases List.mem_cons.mp hk with rfl | hk
    · rw [h.spot_eq hgrown]
      exact h.filesIn.directory
    · exact hway k hk

/-- An output directory that holds an archive was there before, so that
at most its parents were made. -/
theorem grown_of_rest (h : Swept c ready d gone rest t') (ht : t.WellFormed) (hrest : rest ≠ [])
    (hgrown : Grown
      (· ∈ c.outDir.spot t.workingDirectory :: c.outDir.way t.workingDirectory) t ready) :
    Grown (· ∈ c.outDir.way t.workingDirectory) t ready := by
  obtain ⟨name, more, rfl⟩ := List.exists_cons_of_ne_nil hrest
  obtain ⟨content, x, hfile⟩ :=
    h.filesIn.file name (List.mem_append.mpr (Or.inr (List.mem_cons_self ..)))
  have hthere : t.lookup d = some .directory := by
    have hparent := ht.parent (hgrown.lookup_eq_file_iff.mp hfile)
    rwa [List.dropLast_concat] at hparent
  refine ⟨hgrown.workingDirectory, fun k => (hgrown.lookup k).imp id ?_⟩
  rintro ⟨hk, hfree, hmade⟩
  refine ⟨(List.mem_cons.mp hk).resolve_left ?_, hfree, hmade⟩
  rintro rfl
  rw [h.spot_eq hgrown, hthere] at hfree
  cases hfree

end Step.Swept

variable {s : Setup} {p : Progress}

theorem clean_cleans (hprobes : s.probes = Probes.real) (hout : s.config.outDir ≠ [])
    (hwf : p.files.WellFormed) :
    (Step.clean s).Ends p fun r q =>
      match r with
      | .ok removed => Cleaned s.config p.files q.files ∧ Listed s.config p.files removed
      | .error _ => PartlyCleaned s.config
          (· ∈ s.config.outDir.way p.files.workingDirectory) p.files q.files := by
  refine (Step.clean_ends hprobes hout hwf).imp ?_
  rintro r q ⟨-, hend⟩
  split at hend
  · obtain ⟨⟨e, rfl⟩, hgrown⟩ := hend
    exact ⟨hgrown.workingDirectory, fun k => (hgrown.lookup k).imp id Or.inr⟩
  · rename_i ready hready
    obtain ⟨d, gone, rest, hswept, hend⟩ := hend
    obtain ⟨-, hgrown, -⟩ := ready?_eq_some hwf hready
    cases r with
    | error e => exact hswept.partlyCleaned (hswept.grown_of_rest hwf hend hgrown)
    | ok removed =>
        obtain ⟨rfl, rfl, -⟩ := hend
        refine ⟨hswept.cleaned hgrown, ?_⟩
        have hnames := hswept.names
        rw [List.append_nil, Archive.namesAt_of_grown hgrown, ← hswept.spot_eq hgrown] at hnames
        exact hnames ▸ listed_namesAt hout hwf

/-- Whatever the tree: a clean step that succeeds has made the output
directory and the parents it lacked, has removed the archives directly
in it, has reported their paths in ascending order however the directory
is read, and has changed nothing else. One that fails has made parents
of the output directory and removed archives at most. -/
theorem clean_removes_archives_only (c : Config) (tools : Tools) (files : FileTree)
    (hout : c.outDir ≠ []) (hfiles : files.WellFormed) :
    let run := Setup.clean ⟨c, Probes.real, tools⟩ files
    match run.result with
    | .ok removed => Cleaned c files run.progress.files ∧ Listed c files removed
    | .error _ =>
        PartlyCleaned c (· ∈ c.outDir.way files.workingDirectory) files run.progress.files :=
  (clean_cleans (s := ⟨c, Probes.real, tools⟩) (p := ⟨files, .start, [], []⟩) rfl hout
    hfiles).runFrom

/-- Archives between a directory that is named like one, with an archive
in it, a file whose name is all extension, and a file of another kind. -/
def mixedOutDir : FileTree where
  entries := [(["bin", "z.a"], .file "z" false), (["bin"], .directory),
    (["bin", "sub.a"], .directory), (["bin", "sub.a", "y.a"], .file "y" false),
    (["bin", ".a"], .file "hidden" false), (["bin", "notes"], .file "notes" false),
    (["bin", "b.a"], .file "b" true), (["rebase-hack.S"], .file "" false)]
  distinct := by decide
  workingDirectory := []
  emptied := []

theorem listed_mixedOutDir :
    Probes.real.listArchives mixedOutDir "bin" ".a" = .ok ["bin/b.a", "bin/z.a"] := by
  have hnames : Archive.namesAt mixedOutDir ["bin"] ".a" = (["b.a", "z.a"] : List Bytes) :=
    Archive.namesAt_eq_of_ascending (by decide) (by decide)
  show (Archive.find mixedOutDir "bin" ".a").mapError Archive.ListError.message = _
  rw [Archive.find_of_directory (l := ["bin"]) (by decide) (by decide), hnames]
  rfl

theorem clean_removes_archives_only_mixedOutDir :
    let run := Setup.clean ⟨{}, Probes.real, makingTools⟩ mixedOutDir
    Config.outDir {} ≠ [] ∧ mixedOutDir.WellFormed ∧
      run.result = .ok ["bin/b.a", "bin/z.a"] ∧
      Cleaned {} mixedOutDir run.progress.files ∧
      Listed {} mixedOutDir ["bin/b.a", "bin/z.a"] := by
  have hout : Config.outDir {} ≠ [] := by decide
  have hwf : mixedOutDir.WellFormed := by decide
  have hclean := clean_removes_archives_only {} makingTools mixedOutDir hout hwf
  have hresult : (Setup.clean ⟨{}, Probes.real, makingTools⟩ mixedOutDir).result
      = .ok ["bin/b.a", "bin/z.a"] := by
    have hends : (Step.clean ⟨{}, Probes.real, makingTools⟩).Ends ⟨mixedOutDir, .start, [], []⟩
        fun r _ => r = .ok ["bin/b.a", "bin/z.a"] := by
      rw [Step.clean_ends_iff_of_listed (by decide) listed_mixedOutDir, Step.Ends]
      decide +kernel
    exact hends.runFrom
  dsimp only at hclean
  rw [hresult] at hclean
  exact ⟨hout, hwf, hresult, hclean⟩

/-! ## The steps after cleaning -/

/-- What the tools are to make. -/
def IsProduct (c : Config) (w k : Location) : Prop :=
  k = c.objectPath.spot w ∨ k = c.archivePath.spot w

instance (c : Config) (w k : Location) : Decidable (IsProduct c w k) :=
  inferInstanceAs (Decidable (_ ∨ _))

/-- The compiler changes nothing but the object that it is asked for, and
the archiver nothing but the archive. -/
structure Confined (c : Config) (tools : Tools) : Prop where
  object : ∀ t, ChangedOnly (· = c.objectPath.withForwardSlashes.spot t.workingDirectory) t
    (tools.run (Command.assemble c) t).files
  archive : ∀ t, ChangedOnly (· = c.archivePath.withForwardSlashes.spot t.workingDirectory) t
    (tools.run (Command.archive c) t).files

theorem Orderly.confined {tools : Tools} (h : Orderly c tools) : Confined c tools :=
  ⟨fun t => (h.object t).mono fun _ hk => (resolve_eq_ok_iff.mp hk.1).2.2.symm,
    fun t => (h.archive t).mono fun _ hk => (resolve_eq_ok_iff.mp hk.1).2.2.symm⟩

theorem ObjectCleared.changedOnly {object : Path} (h : ObjectCleared object t t') :
    ChangedOnly (· = object.spot t.workingDirectory) t t' := by
  cases h with
  | absent => exact .refl t
  | removed hremoved => exact changedOnly_remove hremoved

namespace Confined

theorem compiled (h : Confined s.config s.tools) (hpaths : s.config.SlashOnly) :
    (Step.compile s).Ends p fun _ q =>
      ChangedOnly (IsProduct s.config p.files.workingDirectory) p.files q.files := by
  refine Step.compile_ends.imp ?_
  rintro r q (⟨-, hfiles, -, -⟩ | ⟨-, t, hcleared, -, hfiles, -⟩)
  · rw [hfiles]
    exact .refl _
  · have hcleared' := hcleared.changedOnly
    have htool := h.object t
    rw [hpaths.objectPath, hcleared'.workingDirectory] at htool
    rw [hfiles]
    exact (hcleared'.mono fun _ => Or.inl).trans (htool.mono fun _ => Or.inl)

theorem archived (h : Confined s.config s.tools) (hpaths : s.config.SlashOnly) :
    (Step.archive s).Ends p fun _ q =>
      ChangedOnly (IsProduct s.config p.files.workingDirectory) p.files q.files := by
  refine Step.archive_ends.imp ?_
  rintro r q (⟨-, hfiles, -⟩ | ⟨-, -, hfiles, -⟩)
  · rw [hfiles]
    exact .refl _
  · have htool := h.archive p.files
    rw [hpaths.archivePath] at htool
    rw [hfiles]
    exact htool.mono fun _ => Or.inr

end Confined

theorem cleanup_changedOnly :
    (Step.cleanup s).Ends p fun _ q =>
      ChangedOnly (IsProduct s.config p.files.workingDirectory) p.files q.files := by
  refine Step.cleanup_ends.imp ?_
  rintro (e | _) q ⟨-, hend⟩
  · dsimp only at hend
    rw [hend]
    exact .refl _
  · exact (changedOnly_remove hend).mono fun _ => Or.inl

/-- Two steps that keep to a class of locations in turn keep to it
together; what the second one may change depends on where it starts. -/
theorem changedOnly_bind {α β : Type} {P : Location → Location → Prop} {step : Step α}
    {next : α → Step β}
    (h : step.Ends p fun _ q => ChangedOnly (P p.files.workingDirectory) p.files q.files)
    (hnext : ∀ a q, (next a).Ends q fun _ q' =>
      ChangedOnly (P q.files.workingDirectory) q.files q'.files) :
    (step >>= next).Ends p fun _ q =>
      ChangedOnly (P p.files.workingDirectory) p.files q.files := by
  refine Step.ends_bind.mpr (h.imp ?_)
  rintro (e | a) q hq
  · exact hq
  · refine (hnext a q).imp fun r q' hq' => ?_
    rw [hq.workingDirectory] at hq'
    exact hq.trans hq'

theorem Confined.made (h : Confined s.config s.tools) (hpaths : s.config.SlashOnly)
    (removed : List Path) :
    (Step.make s removed).Ends p fun _ q =>
      ChangedOnly (IsProduct s.config p.files.workingDirectory) p.files q.files := by
  unfold Step.make
  refine changedOnly_bind (h.compiled hpaths) fun _ q => ?_
  refine changedOnly_bind (h.archived hpaths) fun _ q => ?_
  refine changedOnly_bind cleanup_changedOnly fun _ q => ?_
  exact Step.ends_bind.mpr (Step.ends_hash.mpr (Step.ends_pure.mpr (.refl _)))

/-! ## Whole builds -/

/-- Away from the object and the archive, no more was done than cleaning
does. -/
structure Framed (c : Config) (t t' : FileTree) : Prop where
  workingDirectory : t'.workingDirectory = t.workingDirectory
  lookup : ∀ k, ¬ IsProduct c t.workingDirectory k → t'.lookup k = t.lookup k ∨
    (ArchiveAt c t k ∧ t'.lookup k = none) ∨
    (k ∈ c.outDir.spot t.workingDirectory :: c.outDir.way t.workingDirectory ∧
      t.lookup k = none ∧ t'.lookup k = some .directory)

theorem PartlyCleaned.framed {made : Location → Prop} (h : PartlyCleaned c made t t')
    (hmade : ∀ k, made k →
      k ∈ c.outDir.spot t.workingDirectory :: c.outDir.way t.workingDirectory) :
    Framed c t t' :=
  ⟨h.workingDirectory, fun k _ => (h.lookup k).imp id
    (Or.imp id fun ⟨hk, hlookup⟩ => ⟨hmade k hk, hlookup⟩)⟩

theorem Framed.trans (h : Framed c t t')
    (h' : ChangedOnly (IsProduct c t'.workingDirectory) t' t'') : Framed c t t'' := by
  refine ⟨h'.workingDirectory.trans h.workingDirectory, fun k hk => ?_⟩
  rw [h'.lookup k (h.workingDirectory ▸ hk)]
  exact h.lookup k hk

theorem Framed.changedOnly (h : Framed c t t') :
    ChangedOnly (fun k =>
      k ∈ c.outDir.spot t.workingDirectory :: c.outDir.way t.workingDirectory ∨
        IsProduct c t.workingDirectory k ∨ ArchiveAt c t k) t t' := by
  refine ⟨h.workingDirectory, fun k hk => ?_⟩
  rw [not_or, not_or] at hk
  obtain ⟨hroute, hproduct, harchive⟩ := hk
  rcases h.lookup k hproduct with hkept | ⟨hgone, -⟩ | ⟨hmade, -⟩
  · exact hkept
  · exact absurd hgone harchive
  · exact absurd hmade hroute

/-- Directories are made and not changed, so a path outlives the build
unless it comes to a product or an archive. -/
theorem Framed.stat_eq_ok (h : Framed c t t') {p : Path} {e : Entry} (he : t.stat p = .ok e)
    (hp : ∀ k ∈ p.spot t.workingDirectory :: p.way t.workingDirectory,
      ¬ IsProduct c t.workingDirectory k ∧ ¬ ArchiveAt c t k) : t'.stat p = .ok e := by
  have hkept : ∀ {k e}, k ∈ p.spot t.workingDirectory :: p.way t.workingDirectory →
      t.lookup k = some e → t'.lookup k = some e := by
    intro k e hk hlookup
    obtain ⟨hproduct, harchive⟩ := hp k hk
    rcases h.lookup k hproduct with hkept | ⟨hgone, -⟩ | ⟨-, hfree, -⟩
    · rw [hkept, hlookup]
    · exact absurd hgone harchive
    · rw [hlookup] at hfree
      cases hfree
  obtain ⟨hlegible, hway, hspot⟩ := stat_eq_ok_iff_lookup.mp he
  rw [stat_eq_ok_iff_lookup, h.workingDirectory]
  exact ⟨hlegible, fun k hk => hkept (List.mem_cons_of_mem _ hk) (hway k hk),
    hkept (List.mem_cons_self ..) hspot⟩

theorem all_framed (hprobes : s.probes = Probes.real) (hout : s.config.outDir ≠ [])
    (hpaths : s.config.SlashOnly) (htools : Confined s.config s.tools)
    (hwf : t.WellFormed) :
    (Step.all s).Ends ⟨t, .start, [], []⟩ fun _ q => Framed s.config t q.files := by
  rw [Step.all_eq]
  refine Step.ends_bind.mpr (Step.ends_log.mpr (Step.ends_bind.mpr ?_))
  refine (clean_cleans hprobes hout hwf).imp ?_
  rintro (e | removed) q hend
  · exact PartlyCleaned.framed hend fun k hk => List.mem_cons_of_mem _ hk
  · have hcleaned : Framed s.config t q.files := hend.1.toPartlyCleaned.framed fun _ hk => hk
    exact (htools.made hpaths removed).imp fun r q' hmade => hcleaned.trans hmade

/-- With tools that write nothing but the object and the archive: after a
build, with success or with any error, every place in the tree holds what
it held, apart from the output directory and its parents, the object, the
archive, and the archives that were in the output directory. Even the
directories among them are made and not changed, so that every path that
led somewhere leads to the same, unless it comes to one of the files. -/
theorem build_keeps_all_else (c : Config) (tools : Tools) (files : FileTree) (hc : c.Valid)
    (hpaths : c.SlashOnly) (htools : Confined c tools) (hfiles : files.WellFormed) :
    let after := (Setup.build ⟨c, Probes.real, tools⟩ files).progress.files
    let w := files.workingDirectory
    ChangedOnly (fun k => k ∈ c.outDir.spot w :: c.outDir.way w ∨
      IsProduct c w k ∨ ArchiveAt c files k) files after ∧
    ∀ p e, files.stat p = .ok e →
      (∀ k ∈ p.spot w :: p.way w, ¬ IsProduct c w k ∧ ¬ ArchiveAt c files k) →
        after.stat p = .ok e := by
  intro after w
  have hframed : Framed c files after :=
    (all_framed (s := ⟨c, Probes.real, tools⟩) rfl hc.checked.outDir hpaths htools
      hfiles).runFrom
  exact ⟨hframed.changedOnly, fun p e he hp => hframed.stat_eq_ok he hp⟩

theorem build_keeps_all_else_mixedOutDir :
    let run := Setup.build ⟨{}, Probes.real, copyingTools {}⟩ mixedOutDir
    run.result.isOk = true ∧
      run.progress.files.lookup ["bin", "notes"] = some (.file "notes" false) ∧
      run.progress.files.stat "bin/sub.a/y.a" = .ok (.file "y" false) := by
  have hpaths : Config.SlashOnly {} := ⟨by decide, by decide, by decide, by decide⟩
  obtain ⟨hplaces, hstat⟩ := build_keeps_all_else {} (copyingTools {}) mixedOutDir (by decide)
    hpaths (orderly_copyingTools hpaths (by decide)).confined (by decide)
  refine ⟨?_, hplaces.lookup ["bin", "notes"] (by decide),
    hstat "bin/sub.a/y.a" _ (by decide) (by decide)⟩
  have hends : (Step.all ⟨{}, Probes.real, copyingTools {}⟩).Ends ⟨mixedOutDir, .start, [], []⟩
      fun r _ => r.isOk = true := by
    rw [Step.all_eq, Step.ends_bind, Step.ends_log]
    dsimp only
    rw [Step.ends_bind, Step.clean_ends_iff_of_listed (by decide) listed_mixedOutDir,
      ← Step.ends_bind, Step.Ends]
    -- The hash is a part of the report, and its value is not asked for.
    unfold Step.make
    simp only [Step.hash_eq]
    decide +kernel
  exact hends.runFrom

end Prebuilt.Build
