import Prebuilt.Proofs.Archive.Listing
import Prebuilt.Proofs.Build.Outcome

/-!
# What the clean step does to the tree

The clean step makes the output directory ready (`ready?`), lists the
archives in it, and removes them one after the other. Each of them is a
file of its own directly in the directory, so removing one neither
hinders nor does the work of removing another; only a path that is too
long stops the loop. `Swept` states the tree that is left, and
`clean_ends` that the step leaves such a tree whatever its result.
-/

namespace Prebuilt

open FileTree

/-! ## The output directory -/

/-- The tree with the output directory in it, unless it cannot be had. -/
def FileTree.ready? (t : FileTree) (out : Path) : Option FileTree :=
  if t.pathExists out then if t.isDirectory out then some t else none
  else
    match t.makeDirectories out with
    | (made, none) => some made
    | (_, some _) => none

theorem ready?_eq_some {t ready : FileTree} {out : Path} (h : t.WellFormed)
    (hready : t.ready? out = some ready) :
    ready.WellFormed ∧
      Grown (· ∈ out.spot t.workingDirectory :: out.way t.workingDirectory) t ready ∧
      ready.isDirectory out = true := by
  rw [ready?] at hready
  by_cases hex : t.pathExists out
  · rw [if_pos hex] at hready
    by_cases hdir : t.isDirectory out
    · rw [if_pos hdir] at hready
      obtain rfl := Option.some.inj hready
      exact ⟨h, .refl t, hdir⟩
    · rw [if_neg hdir] at hready
      cases hready
  · rw [if_neg hex] at hready
    obtain ⟨hwf, hgrown, hdir⟩ := made_makeDirectories h out
    split at hready
    · rename_i made hmade
      obtain rfl := Option.some.inj hready
      rw [hmade] at hwf hgrown hdir
      refine ⟨hwf, hgrown.mono fun k hk => List.mem_cons.mpr ?_, hdir rfl⟩
      exact hk.symm.imp And.right id
    · cases hready

namespace Build.Step

variable {s : Setup} {p : Progress} {out : Path}

theorem prepareOutDir_ends (h : p.files.WellFormed) :
    (prepareOutDir out).Ends p fun r q =>
      q.invocations = p.invocations ∧
      match r with
      | .ok _ => p.files.ready? out = some q.files
      | .error _ => p.files.ready? out = none ∧
          Grown (· ∈ out.way p.files.workingDirectory) p.files q.files := by
  obtain ⟨-, hgrown, -⟩ := made_makeDirectories h out
  unfold prepareOutDir ready?
  refine ends_bind.mpr (ends_files.mpr (ends_ite.mpr ⟨fun hex => ?_, fun hex => ?_⟩))
  · refine ends_ite.mpr ⟨fun hdir => ?_, fun hdir => ?_⟩
    · refine ends_pure.mpr ⟨rfl, ?_⟩
      dsimp only
      rw [if_pos hex, if_pos hdir]
    · refine ends_fail.mpr ⟨rfl, ?_, .refl _⟩
      rw [if_pos hex, if_neg hdir]
  · rw [if_neg hex]
    cases hmade : p.files.makeDirectories out with
    | mk made fault =>
        rw [hmade] at hgrown
        refine ends_bind.mpr (ends_setFiles.mpr ?_)
        cases fault with
        | none => exact ends_log.mpr ⟨rfl, rfl⟩
        | some fault =>
            exact ends_fail.mpr ⟨rfl, rfl, hgrown.mono fun k hk => hk.resolve_right nofun⟩

/-! ## Removing the archives -/

/-- The path of a name in the output directory is short enough to be
read. -/
def Short (out : Path) (name : Bytes) : Prop := (out.join name).length < pathLimit

/-- These files lie directly in the output directory. -/
structure FilesIn (t : FileTree) (out : Path) (d : Location) (names : List Bytes) : Prop where
  resolve : t.resolve out = .ok d
  directory : t.lookup d = some .directory
  isName : ∀ n ∈ names, IsName n
  file : ∀ n ∈ names, ∃ content x, t.lookup (d ++ [n]) = some (.file content x)
  nodup : names.Nodup

theorem remove_short {t : FileTree} {d : Location} {name : Bytes} {names : List Bytes}
    (hout : out ≠ []) (h : FilesIn t out d names) (hmem : name ∈ names)
    (hshort : Short out name) : t.remove (out.join name) = .ok (t.erase (d ++ [name])) := by
  have hname := h.isName name hmem
  refine remove_eq_ok_iff.mpr ⟨d ++ [name], ?_, by simp, rfl, Or.inl (h.file name hmem)⟩
  exact (resolve_join_eq_ok_iff hout hname.noSlash).mpr
    ⟨d, h.resolve, h.directory, hname.short, hshort, hname.turn d⟩

theorem remove_long {t : FileTree} {name : Bytes} (hlong : ¬ Short out name) :
    t.remove (out.join name) = .error .nameTooLong := by
  have hlimit : pathLimit ≤ (out.join name).length := Nat.not_lt.mp hlong
  have hne : out.join name ≠ [] := by
    intro h
    rw [h] at hlimit
    exact absurd hlimit (by decide)
  rw [remove, resolve, if_neg hne, if_pos hlimit]

/-- Removing a file of the directory leaves the others, and the
directory, where they are. -/
theorem FilesIn.erase {t : FileTree} {d : Location} {name : Bytes} {names : List Bytes}
    (h : FilesIn t out d (name :: names)) : FilesIn (t.erase (d ++ [name])) out d names := by
  obtain ⟨-, hisName⟩ := List.forall_mem_cons.mp h.isName
  obtain ⟨⟨content, x, hfile⟩, hfiles⟩ := List.forall_mem_cons.mp h.file
  obtain ⟨hnotMem, hnodup⟩ := List.nodup_cons.mp h.nodup
  have hne : ∀ k, t.lookup k = some .directory → k ≠ d ++ [name] := by
    rintro k hk rfl
    rw [hfile] at hk
    cases hk
  obtain ⟨-, hway, -⟩ := resolve_eq_ok_iff.mp h.resolve
  refine ⟨?_, ?_, hisName, fun n hn => ?_, hnodup⟩
  · have hkeep : (t.erase (d ++ [name])).resolve out = t.resolve out :=
      resolve_congr rfl fun k hk => lookup_erase_of_ne t (hne k (hway k hk))
    exact hkeep.trans h.resolve
  · rw [lookup_erase_of_ne t (hne d h.directory)]
    exact h.directory
  · rw [lookup_erase_of_ne t fun heq => hnotMem ?_]
    · exact hfiles n hn
    · obtain rfl : n = name := List.singleton_inj.mp (List.append_cancel_left heq)
      exact hn

/-- The loop removes the files in order and stops only at a path that is
too long. The induction is on the files that are left. -/
theorem removeArchives_ends (hout : out ≠ []) {d : Location} {names : List Bytes}
    (h : FilesIn p.files out d names) :
    ((names.map out.join).forM removeArchive).Ends p fun r q =>
      q.invocations = p.invocations ∧ ∃ gone rest, names = gone ++ rest ∧
        (∀ n ∈ gone, Short out n) ∧ q.files = p.files.eraseAll (gone.map (d ++ [·])) ∧
        (∀ n more, rest = n :: more → ¬ Short out n) ∧ ((∃ a, r = .ok a) ↔ rest = []) := by
  induction names generalizing p with
  | nil => exact ends_pure.mpr ⟨rfl, [], [], rfl, nofun, rfl, nofun, by simp⟩
  | cons name names ih =>
      rw [List.map_cons]
      refine ends_bind.mpr ?_
      unfold removeArchive
      refine ends_bind.mpr (ends_files.mpr ?_)
      by_cases hshort : Short out name
      · simp only [remove_short hout h (List.mem_cons_self ..) hshort, ends_bind, ends_setFiles,
          ends_log]
        refine (ih (p := (p.withFiles _).told _) h.erase).imp ?_
        rintro r q ⟨hinv, gone, rest, hnames, hgone, hfiles, hend⟩
        refine ⟨hinv, name :: gone, rest, by rw [hnames, List.cons_append], ?_, hfiles, hend⟩
        exact List.forall_mem_cons.mpr ⟨hshort, hgone⟩
      · simp only [remove_long hshort, ends_bind, ends_fail]
        refine ⟨rfl, [], name :: names, rfl, nofun, rfl, fun n more heq => ?_, by simp⟩
        exact (List.cons.inj heq).1 ▸ hshort

/-! ## The step -/

/-- What the clean step leaves of a tree with the output directory at
`d`: the archives in `gone` are no more, and those in `rest` are left
because the path of the first of them is too long. -/
structure Swept (c : Config) (ready : FileTree) (d : Location) (gone rest : List Bytes)
    (files : FileTree) : Prop where
  filesIn : FilesIn ready c.outDir d (gone ++ rest)
  names : Archive.namesAt ready d c.archiveExtension = gone ++ rest
  short : ∀ n ∈ gone, Short c.outDir n
  long : ∀ n more, rest = n :: more → ¬ Short c.outDir n
  files : files = ready.eraseAll (gone.map (d ++ [·]))

/-- Archives are removed in ascending order up to the first whose path is
too long. -/
theorem Swept.mem_gone_iff {c : Config} {ready files : FileTree} {d : Location}
    {gone rest : List Bytes} (h : Swept c ready d gone rest files) {n : Bytes} :
    n ∈ gone ↔ n ∈ gone ++ rest ∧ ∀ m ∈ gone ++ rest, m ≤ n → Short c.outDir m := by
  have hsorted : (gone ++ rest).Pairwise (· ≤ ·) :=
    h.names ▸ Archive.pairwise_namesAt
  obtain ⟨-, hrest, hcross⟩ := List.pairwise_append.mp hsorted
  constructor
  · intro hn
    refine ⟨List.mem_append.mpr (Or.inl hn), fun m hm hle => ?_⟩
    rcases List.mem_append.mp hm with hm | hm
    · exact h.short m hm
    · exact List.le_antisymm hle (hcross n hn m hm) ▸ h.short n hn
  · rintro ⟨hn, hshort⟩
    refine (List.mem_append.mp hn).resolve_right fun hn' => ?_
    obtain ⟨k, more, rfl⟩ := List.exists_cons_of_ne_nil (List.ne_nil_of_mem hn')
    have hkn : k ≤ n := by
      rcases List.mem_cons.mp hn' with rfl | hn'
      · exact List.le_refl _
      · exact (List.pairwise_cons.mp hrest).1 n hn'
    exact h.long k more rfl
      (hshort k (List.mem_append.mpr (Or.inr (List.mem_cons_self ..))) hkn)

namespace Swept

variable {c : Config} {ready t : FileTree} {d l : Location} {gone rest : List Bytes}

theorem extends_ready (h : Swept c ready d gone rest t) : Extends t ready := by
  rw [h.files]
  exact extends_eraseAll _ ready

theorem lookup_directory (h : Swept c ready d gone rest t)
    (hl : ready.lookup l = some .directory) : t.lookup l = some .directory := by
  rw [h.files, lookup_eraseAll_of_notMem]
  · exact hl
  · intro hmem
    obtain ⟨n, hn, rfl⟩ := List.mem_map.mp hmem
    obtain ⟨content, x, hfile⟩ := h.filesIn.file n (List.mem_append.mpr (Or.inl hn))
    rw [hfile] at hl
    cases hl

/-- Only files are swept, so every path leads where it led. -/
theorem resolve (h : Swept c ready d gone rest t) {p : Path} (hp : ready.resolve p = .ok l) :
    t.resolve p = .ok l := by
  obtain ⟨hlegible, hway, hspot⟩ := resolve_eq_ok_iff.mp hp
  rw [resolve_eq_ok_iff, ← h.extends_ready.workingDirectory]
  exact ⟨hlegible, fun k hk => h.lookup_directory (hway k hk), hspot⟩

/-- If one sweep comes to its end, every sweep of that tree does. -/
theorem unique {d' : Location} {gone' rest' : List Bytes} {t' : FileTree}
    (h : Swept c ready d gone [] t) (h' : Swept c ready d' gone' rest' t') :
    gone' = gone ∧ rest' = [] ∧ t' = t := by
  obtain rfl : d' = d := Except.ok.inj (h'.filesIn.resolve.symm.trans h.filesIn.resolve)
  have hall : gone' ++ rest' = gone :=
    h'.names.symm.trans (h.names.trans (List.append_nil gone))
  have hrest : rest' = [] := by
    cases rest' with
    | nil => rfl
    | cons n more =>
        refine absurd (h.short n ?_) (h'.long n more rfl)
        rw [← hall]
        exact List.mem_append.mpr (Or.inr (List.mem_cons_self ..))
  rw [hrest, List.append_nil] at hall
  exact ⟨hall, hrest, by rw [h'.files, h.files, hall]⟩

end Swept

theorem filesIn_namesAt {t : FileTree} {d : Location} (ext : Bytes) (h : t.WellFormed)
    (hresolve : t.resolve out = .ok d) (hdir : t.lookup d = some .directory) :
    FilesIn t out d (Archive.namesAt t d ext) := by
  refine ⟨hresolve, hdir, fun n hn => ?_, fun n hn => ?_, Archive.nodup_namesAt⟩
  · obtain ⟨⟨content, x, hfile⟩, -⟩ := Archive.mem_namesAt.mp hn
    exact h.isName_last hfile
  · exact (Archive.mem_namesAt.mp hn).1

/-- Remove the archives of an output directory that is ready. -/
def sweep (s : Setup) : Step (List Path) := do
  let out := s.config.outDir
  match s.probes.listArchives (← files) out s.config.archiveExtension with
  | .error report => fail (.cannotList report)
  | .ok stale =>
      stale.forM removeArchive
      advance .cleaned
      return stale

theorem clean_eq (s : Setup) : clean s = (do
    prepareOutDir s.config.outDir
    sweep s) := rfl

theorem sweep_ends {d : Location} (hprobes : s.probes = Probes.real)
    (hout : s.config.outDir ≠ [])
    (h : FilesIn p.files s.config.outDir d
      (Archive.namesAt p.files d s.config.archiveExtension)) :
    (sweep s).Ends p fun r q =>
      q.invocations = p.invocations ∧ ∃ gone rest, Swept s.config p.files d gone rest q.files ∧
        match r with
        | .ok removed => rest = [] ∧ removed = gone.map s.config.outDir.join ∧ q.state = .cleaned
        | .error _ => rest ≠ [] := by
  have hfind : s.probes.listArchives p.files s.config.outDir s.config.archiveExtension
      = .ok ((Archive.namesAt p.files d s.config.archiveExtension).map s.config.outDir.join) := by
    rw [hprobes]
    show (Archive.find _ _ _).mapError _ = _
    rw [Archive.find_of_directory h.resolve h.directory]
    rfl
  unfold sweep
  refine ends_bind.mpr (ends_files.mpr ?_)
  simp only [hfind]
  refine ends_bind.mpr ((removeArchives_ends hout h).imp ?_)
  rintro r q ⟨hinv, gone, rest, hnames, hshort, heq, hlong, hend⟩
  have hswept : Swept s.config p.files d gone rest q.files :=
    ⟨hnames ▸ h, hnames, hshort, hlong, heq⟩
  cases r with
  | error e =>
      refine ⟨hinv, gone, rest, hswept, fun hrest => ?_⟩
      obtain ⟨a, ha⟩ := hend.mpr hrest
      cases ha
  | ok a =>
      have hrest := hend.mp ⟨a, rfl⟩
      refine ends_bind.mpr (ends_advance.mpr (ends_pure.mpr ?_))
      refine ⟨hinv, gone, rest, hswept, hrest, ?_, rfl⟩
      rw [hnames, hrest, List.append_nil]

/-- Everything the clean step can do. -/
theorem clean_ends (hprobes : s.probes = Probes.real) (hout : s.config.outDir ≠ [])
    (h : p.files.WellFormed) :
    (clean s).Ends p fun r q =>
      q.invocations = p.invocations ∧
      match p.files.ready? s.config.outDir with
      | none => (∃ e, r = .error e) ∧
          Grown (· ∈ s.config.outDir.way p.files.workingDirectory) p.files q.files
      | some ready => ∃ d gone rest, Swept s.config ready d gone rest q.files ∧
          match r with
          | .ok removed =>
              rest = [] ∧ removed = gone.map s.config.outDir.join ∧ q.state = .cleaned
          | .error _ => rest ≠ [] := by
  rw [clean_eq]
  refine ends_bind.mpr ((prepareOutDir_ends h).imp ?_)
  rintro (e | _) q ⟨hinv, hready⟩
  · obtain ⟨hready, hgrown⟩ := hready
    dsimp only
    rw [hready]
    exact ⟨hinv, ⟨e, rfl⟩, hgrown⟩
  dsimp only at hready ⊢
  rw [hready]
  obtain ⟨hwf, -, hdirectory⟩ := ready?_eq_some h hready
  obtain ⟨d, hresolve, hdir⟩ := stat_eq_ok_iff.mp (isDirectory_eq_true_iff.mp hdirectory)
  have hfiles := filesIn_namesAt s.config.archiveExtension hwf hresolve hdir
  refine (sweep_ends hprobes hout hfiles).imp ?_
  rintro r q' ⟨hinv', hswept⟩
  exact ⟨hinv'.trans hinv, d, hswept⟩

/-- An output directory that is there is not made ready first. -/
theorem clean_ends_iff_sweep {Q : Except Error (List Path) → Progress → Prop}
    (hdir : p.files.isDirectory s.config.outDir = true) :
    (clean s).Ends p Q ↔ (sweep s).Ends p Q := by
  have hex : p.files.pathExists s.config.outDir = true :=
    pathExists_eq_true_iff.mpr ⟨_, isDirectory_eq_true_iff.mp hdir⟩
  rw [clean_eq]
  unfold prepareOutDir
  rw [ends_bind, ends_bind, ends_files]
  dsimp only
  rw [if_pos hex, if_pos hdir, ends_pure]

/-- Then cleaning leaves a swept tree, whatever that tree is like otherwise. -/
theorem clean_ends_of_directory {d : Location} (hprobes : s.probes = Probes.real)
    (hout : s.config.outDir ≠ [])
    (h : FilesIn p.files s.config.outDir d
      (Archive.namesAt p.files d s.config.archiveExtension)) :
    (clean s).Ends p fun r q =>
      q.invocations = p.invocations ∧ ∃ gone rest, Swept s.config p.files d gone rest q.files ∧
        match r with
        | .ok removed => rest = [] ∧ removed = gone.map s.config.outDir.join ∧ q.state = .cleaned
        | .error _ => rest ≠ [] := by
  have hdir : p.files.isDirectory s.config.outDir = true :=
    isDirectory_eq_true_iff.mpr (stat_eq_ok_iff.mpr ⟨d, h.resolve, h.directory⟩)
  exact (clean_ends_iff_sweep hdir).mpr (sweep_ends hprobes hout h)

/-- What is listed in it is removed one after the other. -/
theorem clean_ends_iff_of_listed {stale : List Path}
    {Q : Except Error (List Path) → Progress → Prop}
    (hdir : p.files.isDirectory s.config.outDir = true)
    (hlisted : s.probes.listArchives p.files s.config.outDir s.config.archiveExtension
      = .ok stale) :
    (clean s).Ends p Q ↔ (do
      stale.forM removeArchive
      advance .cleaned
      return stale : Step (List Path)).Ends p Q := by
  rw [clean_ends_iff_sweep hdir]
  unfold sweep
  rw [ends_bind, ends_files]
  dsimp only
  rw [hlisted]

end Build.Step

end Prebuilt
