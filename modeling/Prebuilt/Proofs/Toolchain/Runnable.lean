import Prebuilt.Proofs.Bytes
import Prebuilt.Proofs.Toolchain.Resolution

/-!
# Files that are found and cannot be run

A program is searched for in the directories of the search path, in their
order. `FirstOnPath` is such a search for files of any class. The class
that is searched for is that of the regular files, and so a file that
cannot be run hides one of the same name that can be, in a directory
further back. The same goes for the compiler: a candidate with such a file
hides all candidates after it.

A search has the answer that a search for what can be run has exactly if
it finds nothing that cannot be run, and the compiler that is found can be
run exactly if no candidate before it has a file at all
(`findProgram?_finds_runnable_iff`).
-/

namespace Prebuilt

variable {env : Environment} {files : FileTree} {name : Bytes}

namespace FileTree

/-- The path leads to a regular file that can be run. -/
def canRun (files : FileTree) (p : Path) : Bool :=
  match files.stat p with
  | .ok (.file _ executable) => executable
  | .ok .directory => false
  | .error _ => false

theorem canRun_eq_true_iff {p : Path} :
    files.canRun p = true ↔ ∃ content, files.stat p = .ok (.file content true) := by
  unfold canRun
  cases files.stat p with
  | error e => simp
  | ok e => cases e <;> simp

theorem isRegularFile_of_canRun {p : Path} (h : files.canRun p = true) :
    files.isRegularFile p = true := by
  obtain ⟨content, hfile⟩ := canRun_eq_true_iff.mp h
  exact isRegularFile_eq_true_iff.mpr ⟨content, true, hfile⟩

end FileTree

/-! ## The first file of a class -/

/-- The file of this name in the first of the directories where it is of
the class, or nothing if there is none. A directory without a name is
passed over. -/
inductive FirstIn (accepts : Path → Bool) (dirs : List Path) (name : Bytes) :
    Option Path → Prop where
  | found {before after : List Path} {dir : Path} (hsplit : dirs = before ++ dir :: after)
      (hne : dir ≠ []) (hfile : accepts (dir.join name) = true)
      (hearlier : ∀ earlier ∈ before, earlier ≠ [] → accepts (earlier.join name) = false) :
      FirstIn accepts dirs name (some (dir.join name))
  | nowhere (hnone : ∀ dir ∈ dirs, dir ≠ [] → accepts (dir.join name) = false) :
      FirstIn accepts dirs name none

/-- The file of this name that a search for files of the class finds. -/
def FirstOnPath (env : Environment) (accepts : Path → Bool) (name : Bytes)
    (answer : Option Path) : Prop :=
  ∃ dirs, Bytes.Separated ':' dirs (env.valueOf "PATH") ∧ FirstIn accepts dirs name answer

variable {accepts : Path → Bool} {dir : Path} {dirs : List Path} {answer : Option Path}

/-- The paths that are tried, in order. -/
def pathsIn (dirs : List Path) (name : Bytes) : List Path :=
  (dirs.filter (· ≠ [])).map (Path.join · name)

theorem pathsIn_cons (hne : dir ≠ []) :
    pathsIn (dir :: dirs) name = dir.join name :: pathsIn dirs name := by
  simp [pathsIn, hne]

theorem pathsIn_append (dirs more : List Path) (name : Bytes) :
    pathsIn (dirs ++ more) name = pathsIn dirs name ++ pathsIn more name := by
  rw [pathsIn, List.filter_append, List.map_append]
  rfl

theorem find?_pathsIn_eq_none (h : ∀ dir ∈ dirs, dir ≠ [] → accepts (dir.join name) = false) :
    (pathsIn dirs name).find? accepts = none := by
  rw [List.find?_eq_none]
  intro p hp
  obtain ⟨dir, hdir, rfl⟩ := List.mem_map.mp hp
  obtain ⟨hmem, hne⟩ := List.mem_filter.mp hdir
  exact Bool.eq_false_iff.mp (h dir hmem (of_decide_eq_true hne))

/-- A directory with no file of the class changes nothing. -/
theorem FirstIn.cons (h : FirstIn accepts dirs name answer)
    (hdir : dir ≠ [] → accepts (dir.join name) = false) :
    FirstIn accepts (dir :: dirs) name answer := by
  cases h with
  | found hsplit hne hfile hearlier =>
      exact .found (hsplit ▸ (List.cons_append ..).symm) hne hfile
        (List.forall_mem_cons.mpr ⟨hdir, hearlier⟩)
  | nowhere hnone => exact .nowhere (List.forall_mem_cons.mpr ⟨hdir, hnone⟩)

theorem firstIn_find? (accepts : Path → Bool) (dirs : List Path) (name : Bytes) :
    FirstIn accepts dirs name ((pathsIn dirs name).find? accepts) := by
  induction dirs with
  | nil => exact .nowhere (List.forall_mem_nil _)
  | cons dir dirs ih =>
      by_cases hne : dir = []
      · rw [hne]
        exact ih.cons fun h => absurd rfl h
      · rw [pathsIn_cons hne]
        by_cases hfile : accepts (dir.join name) = true
        · rw [List.find?_cons_of_pos hfile]
          exact .found (List.nil_append _).symm hne hfile (List.forall_mem_nil _)
        · rw [List.find?_cons_of_neg hfile]
          exact ih.cons fun _ => Bool.eq_false_iff.mpr hfile

theorem firstIn_iff :
    FirstIn accepts dirs name answer ↔ answer = (pathsIn dirs name).find? accepts := by
  constructor
  · intro h
    cases h with
    | found hsplit hne hfile hearlier =>
        rw [hsplit, pathsIn_append, List.find?_append, find?_pathsIn_eq_none hearlier,
          pathsIn_cons hne, List.find?_cons_of_pos hfile]
        rfl
    | nowhere hnone => exact (find?_pathsIn_eq_none hnone).symm
  · rintro rfl
    exact firstIn_find? accepts dirs name

theorem firstOnPath_iff : FirstOnPath env accepts name answer ↔
    answer = (env.searchPath.map (Path.join · name)).find? accepts := by
  constructor
  · rintro ⟨dirs, hdirs, hfirst⟩
    rw [firstIn_iff.mp hfirst, Bytes.separated_iff.mp hdirs]
    rfl
  · rintro rfl
    exact ⟨_, Bytes.separated_iff.mpr rfl, firstIn_find? ..⟩

/-! ## What can be run -/

/-- Some directory of the search path has a file of this name that can be
run. -/
def RunsOnPath (env : Environment) (files : FileTree) (name : Bytes) : Prop :=
  ∃ dir, IsPiece ':' dir (env.valueOf "PATH") ∧ dir ≠ [] ∧
    files.canRun (Path.join dir name) = true

theorem RunsOnPath.onPath (h : RunsOnPath env files name) : OnPath env files name := by
  obtain ⟨dir, hpiece, hne, hfile⟩ := h
  exact ⟨dir, hpiece, hne, FileTree.isRegularFile_of_canRun hfile⟩

instance : Decidable (RunsOnPath env files name) :=
  decidable_of_iff ((env.searchPath.any fun dir => files.canRun (dir.join name)) = true) (by
    rw [List.any_eq_true]
    simp only [mem_searchPath_iff, RunsOnPath, and_assoc])

/-- A search for a bare name is one for a regular file. -/
theorem findProgram?_of_bare (hne : name ≠ []) (hbare : ¬ HasSlash name) :
    findProgram? env files name
      = (env.searchPath.map (Path.join · name)).find? files.isRegularFile := by
  rw [hasSlash_iff] at hbare
  rw [findProgram?, if_neg hne, if_neg hbare]

/-- What is found first among all files is found first among those that
can be run, if it can be run itself. -/
theorem FirstOnPath.runnable (h : FirstOnPath env files.isRegularFile name answer)
    (hrun : ∀ p, answer = some p → files.canRun p = true) :
    FirstOnPath env files.canRun name answer := by
  have hnot : ∀ {p : Path}, files.isRegularFile p = false → files.canRun p = false := by
    intro p hp
    rw [Bool.eq_false_iff] at hp ⊢
    exact fun hcan => hp (FileTree.isRegularFile_of_canRun hcan)
  obtain ⟨dirs, hdirs, hfirst⟩ := h
  refine ⟨dirs, hdirs, ?_⟩
  cases hfirst with
  | found hsplit hne hfile hearlier =>
      exact .found hsplit hne (hrun _ rfl) fun dir hdir hdirne => hnot (hearlier dir hdir hdirne)
  | nowhere hnone => exact .nowhere fun dir hdir hne => hnot (hnone dir hdir hne)

theorem FirstOnPath.accepted {p : Path} (h : FirstOnPath env accepts name (some p)) :
    accepts p = true := by
  obtain ⟨dirs, -, hfirst⟩ := h
  cases hfirst with
  | found _ _ hfile _ => exact hfile

namespace Toolchain

variable {t : Toolchain}

theorem findCompiler_sought (hcompiler : t.compiler = [])
    (hvariable : env.valueOf "RVBLOB_CC" = []) :
    SoughtCompiler env files (findCompiler env files t) := by
  refine searched_compiler_eq_iff.mp ?_
  rw [findCompiler, firstNonempty, if_neg (not_not_intro hcompiler),
    if_neg (not_not_intro hvariable)]

theorem SoughtCompiler.mem {tool : Bytes} (h : SoughtCompiler env files tool) :
    tool ∈ compilerCandidates := by
  rcases h with ⟨before, after, hsplit, -, -⟩ | ⟨rfl, -⟩
  · rw [hsplit]
    exact List.mem_append_right _ (List.mem_cons_self ..)
  · exact List.mem_cons_self ..

theorem runsOnPath_sought_iff {tool : Bytes} (h : SoughtCompiler env files tool) :
    RunsOnPath env files tool ↔
      ∃ before candidate after, compilerCandidates = before ++ candidate :: after ∧
        RunsOnPath env files candidate ∧ ∀ earlier ∈ before, ¬ OnPath env files earlier := by
  constructor
  · intro hrun
    rcases h with ⟨before, after, hsplit, -, hearlier⟩ | ⟨rfl, hnone⟩
    · exact ⟨before, tool, after, hsplit, hrun, hearlier⟩
    · exact absurd hrun.onPath (hnone _ (List.mem_cons_self ..))
  · rintro ⟨before, candidate, after, hsplit, hrun, hearlier⟩
    -- The candidate is the one that is searched for, and there is only one.
    have hsought : SoughtCompiler env files candidate :=
      Or.inl ⟨before, after, hsplit, hrun.onPath, hearlier⟩
    rw [← searched_compiler_eq_iff] at h hsought
    rw [← h, hsought]
    exact hrun

end Toolchain

/-- A search finds the first regular file of that name on the search path.
That is the first file that can be run exactly if what is found can be
run. The compiler that is searched for is one of the candidates, and it
can be run exactly if some candidate can be and no candidate before that
one has a file on the search path. -/
theorem findProgram?_finds_runnable_iff (env : Environment) (files : FileTree) (name : Bytes)
    (t : Toolchain) (hne : name ≠ []) (hbare : ¬ HasSlash name) (hcompiler : t.compiler = [])
    (hvariable : env.valueOf "RVBLOB_CC" = []) :
    (∀ answer, FirstOnPath env files.isRegularFile name answer ↔
      answer = findProgram? env files name) ∧
    (FirstOnPath env files.canRun name (findProgram? env files name) ↔
      ∀ p, findProgram? env files name = some p → files.canRun p = true) ∧
    t.findCompiler env files ∈ compilerCandidates ∧
    (RunsOnPath env files (t.findCompiler env files) ↔
      ∃ before candidate after, compilerCandidates = before ++ candidate :: after ∧
        RunsOnPath env files candidate ∧ ∀ earlier ∈ before, ¬ OnPath env files earlier) := by
  have hsearch : ∀ answer, FirstOnPath env files.isRegularFile name answer ↔
      answer = findProgram? env files name := by
    intro answer
    rw [firstOnPath_iff, findProgram?_of_bare hne hbare]
  have hsought : Toolchain.SoughtCompiler env files (t.findCompiler env files) :=
    Toolchain.findCompiler_sought hcompiler hvariable
  refine ⟨hsearch, ⟨fun h p hp => ?_, ((hsearch _).mpr rfl).runnable⟩, hsought.mem,
    Toolchain.runsOnPath_sought_iff hsought⟩
  rw [hp] at h
  exact h.accepted

/-- An archiver and a compiler that can be run in one directory, and
files of the archiver's name and of a better compiler's that cannot be run
in another. -/
def hidingTree : FileTree where
  entries := [(["a"], .directory), (["a", "ar"], .file "notes" false),
    (["a", "riscv64-unknown-elf-gcc"], .file "notes" false), (["b"], .directory),
    (["b", "ar"], .file "exit 0" true), (["b", "riscv32-unknown-elf-gcc"], .file "exit 0" true)]
  distinct := by decide
  workingDirectory := []
  emptied := []

theorem findProgram?_finds_runnable_behindEmptyName :
    let env : Environment := [("PATH", ":b:a")]
    let t : Toolchain := {}
    Bytes.ofString "ar" ≠ [] ∧ ¬ HasSlash "ar" ∧ t.compiler = [] ∧ env.valueOf "RVBLOB_CC" = [] ∧
      FirstOnPath env hidingTree.canRun "ar" (some "b/ar") ∧
      t.findCompiler env hidingTree ∈ compilerCandidates := by
  intro env t
  have hne : Bytes.ofString "ar" ≠ [] := by decide
  have hbare : ¬ HasSlash "ar" := by
    rw [hasSlash_iff]
    decide
  obtain ⟨-, hrunnable, hmem, -⟩ :=
    findProgram?_finds_runnable_iff env hidingTree "ar" t hne hbare rfl rfl
  have hfound : findProgram? env hidingTree "ar" = some (Bytes.ofString "b/ar") := by decide
  have hrun : hidingTree.canRun "b/ar" = true := by decide
  rw [hfound] at hrunnable
  refine ⟨hne, hbare, rfl, rfl, hrunnable.mpr fun p hp => ?_, hmem⟩
  exact Option.some.inj hp ▸ hrun

/-- With the directories the other way round the archiver that is found
cannot be run although the other one can, and neither can the compiler
that is chosen although a candidate behind it can. -/
theorem findProgram?_finds_unrunnable :
    let env : Environment := [("PATH", "a:b")]
    let t : Toolchain := {}
    findProgram? env hidingTree "ar" = some (Bytes.ofString "a/ar") ∧
      FirstOnPath env hidingTree.canRun "ar" (some "b/ar") ∧
      ¬ FirstOnPath env hidingTree.canRun "ar" (findProgram? env hidingTree "ar") ∧
      t.compiler = [] ∧ env.valueOf "RVBLOB_CC" = [] ∧
      (∃ candidate ∈ compilerCandidates, RunsOnPath env hidingTree candidate) ∧
      ¬ RunsOnPath env hidingTree (t.findCompiler env hidingTree) := by
  simp only [firstOnPath_iff]
  decide

end Prebuilt
