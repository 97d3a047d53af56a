import Prebuilt.Proofs.Build.Effect
import Prebuilt.Proofs.Build.History
import Prebuilt.Proofs.Command.Arguments

/-!
# The files that the tools are given

A build tests and removes files by their paths as the configuration
spells them (`Build.Compiles`, `Build.Archives`, `Build.CleansUp`). The
tools get the same paths from their command lines, where they are written
with forward slashes: the very same text unless there is a backslash in it
(`withForwardSlashes_eq_iff`). Object and archive are two files to the
tools as well, and a name without a backslash that is not one of `.` and
`..` stays a name directly in the output directory (`operands_of_lines`).

The flags are written as they are, so they must not take the files
behind them into quotes, or leave anything on the line that means more to
a shell than a blank or a quote (`MayShow`).
-/

namespace Prebuilt

namespace Path

/-! ## Forward slashes -/

theorem withForwardSlashes_eq_iff {p : Path} :
    p.withForwardSlashes = p ↔ '\\'.toUInt8 ∉ p := by
  constructor
  · intro h hmem
    have hbyte := List.map_eq_map_iff.mp (h.trans (List.map_id p).symm) _ hmem
    rw [if_pos rfl] at hbyte
    exact absurd hbyte (by decide)
  · intro h
    have hbyte : ∀ c ∈ p, (if c = '\\' then '/'.toUInt8 else c) = id c :=
      fun c hc => if_neg fun heq : c = '\\' => h (heq ▸ hc)
    exact (List.map_congr_left hbyte).trans (List.map_id p)

/-- Two names without a slash do not become one. -/
theorem eq_of_withForwardSlashes_eq {a b : Path} (ha : '/'.toUInt8 ∉ a) (hb : '/'.toUInt8 ∉ b)
    (h : a.withForwardSlashes = b.withForwardSlashes) : a = b := by
  induction a generalizing b with
  | nil => exact (List.map_eq_nil_iff.mp h.symm).symm
  | cons c a ih =>
      cases b with
      | nil => cases h
      | cons d b =>
          rw [List.mem_cons, not_or] at ha hb
          obtain ⟨hhead, htail⟩ := List.cons.inj h
          dsimp only at hhead
          -- A backslash and another byte become the same only if that
          -- byte is a slash, and the names have none.
          have hcd : c = d := by
            by_cases hc : c = '\\' <;> by_cases hd : d = '\\'
            · rw [hc, hd]
            · rw [if_pos hc, if_neg hd] at hhead
              exact absurd hhead hb.1
            · rw [if_neg hc, if_pos hd] at hhead
              exact absurd hhead.symm ha.1
            · rwa [if_neg hc, if_neg hd] at hhead
          rw [hcd, ih ha.2 hb.2 htail]

/-! ## Entries of a directory -/

/-- The path of an entry of a directory: the directory's path but for a
slash at its end, a slash, and one name. -/
structure IsEntry (dir : Path) (name : Bytes) (path : Path) : Prop where
  spelled : ∃ front, (dir = front ∨ dir = front ++ ['/'.toUInt8]) ∧
    path = front ++ '/'.toUInt8 :: name
  bare : '/'.toUInt8 ∉ name
  proper : name ≠ [] ∧ name ≠ "." ∧ name ≠ ".."

variable {dir : Path}

/-- It leads there from where the directory's path leads. -/
theorem IsEntry.spot_eq {name path : Path} (h : IsEntry dir name path) (hdir : dir ≠ [])
    (w : Location) : path.spot w = dir.spot w ++ [name] := by
  obtain ⟨⟨front, hfront, rfl⟩, hbare, hempty, hdot, hdots⟩ := h
  have horigin : origin w (front ++ '/'.toUInt8 :: name) = origin w dir := by
    rcases hfront with rfl | rfl
    · obtain ⟨c, rest, rfl⟩ := List.exists_cons_of_ne_nil hdir
      rfl
    · cases front <;> rfl
  have hspot : dir.spot w = FileTree.follow (origin w dir) (List.splitOn '/'.toUInt8 front) := by
    rcases hfront with rfl | rfl
    · rfl
    · rw [spot, List.splitOn_append_cons_self, FileTree.follow_append]
      rfl
  rw [hspot, spot, horigin, List.splitOn_append_cons_self, List.splitOn_eq_singleton hbare,
    FileTree.follow_append]
  exact FileTree.turn_of_isBare hempty hdot hdots

theorem withForwardSlashes_join (hdir : dir ≠ []) :
    ∃ front, (dir.withForwardSlashes = front ∨
        dir.withForwardSlashes = front ++ ['/'.toUInt8]) ∧
      ∀ {name : Path}, '/'.toUInt8 ∉ name →
        (dir.join name).withForwardSlashes = front ++ '/'.toUInt8 :: name.withForwardSlashes := by
  obtain ⟨front, hfront, hjoin⟩ := exists_front hdir
  refine ⟨front.withForwardSlashes, ?_, fun hname => ?_⟩
  · rcases hfront with hfront | hfront
    · exact Or.inl (congrArg _ hfront)
    · rw [hfront]
      exact Or.inr List.map_append
  · rw [hjoin hname]
    exact List.map_append

/-- On a command line a name without a backslash is still an entry of the
directory. -/
theorem isEntry_join {name : Path} (hdir : dir ≠ []) (hbare : '/'.toUInt8 ∉ name)
    (hslash : '\\'.toUInt8 ∉ name) (hproper : name ≠ [] ∧ name ≠ "." ∧ name ≠ "..") :
    IsEntry dir.withForwardSlashes name (dir.join name).withForwardSlashes := by
  obtain ⟨front, hfront, hjoin⟩ := withForwardSlashes_join hdir
  refine ⟨⟨front, hfront, ?_⟩, hbare, hproper⟩
  rw [hjoin hbare, withForwardSlashes_eq_iff.mpr hslash]

/-- Two names stay two entries. -/
theorem withForwardSlashes_join_ne {a b : Path} (hdir : dir ≠ []) (ha : '/'.toUInt8 ∉ a)
    (hb : '/'.toUInt8 ∉ b) (hne : a ≠ b) :
    (dir.join a).withForwardSlashes ≠ (dir.join b).withForwardSlashes := by
  obtain ⟨front, -, hjoin⟩ := withForwardSlashes_join hdir
  rw [hjoin ha, hjoin hb]
  intro heq
  exact hne (eq_of_withForwardSlashes_eq ha hb (List.cons.inj (List.append_cancel_left heq)).2)

end Path

/-! ## The lines of a build -/

theorem Build.line_of_build {s : Build.Setup} {files : FileTree} {i : Build.Invocation}
    (h : i ∈ (s.build files).progress.invocations) :
    (i.role, i.line) = (.compiler, Command.assemble s.config) ∨
      (i.role, i.line) = (.archiver, Command.archive s.config) := by
  obtain ⟨done, htold⟩ := told_runFrom (Step.follows_all s) files
  have hdone : (i.role, i.line) ∈ done.filterMap Milestone.run? :=
    htold.runs ▸ List.mem_map_of_mem h
  have hroute : (i.role, i.line) ∈
      [(Role.compiler, Command.assemble s.config), (.archiver, Command.archive s.config)] :=
    (htold.beginning.filterMap Milestone.run?).subset hdone
  simpa using hroute

namespace Command

/-- What flags may leave to the shell: blanks, and double quotes, which
take bytes together. -/
def MayShow (c : UInt8) : Prop := isSeparator c = true ∨ c = '"'

instance : DecidablePred MayShow := fun _ => inferInstanceAs (Decidable (_ ∨ _))

/-- The tools are given the paths that the build tests and removes, with
forward slashes: two different files, and entries of the output directory
where their names are names on the command line too. -/
theorem operands_of_lines (c : Config) (hc : c.Valid) (hnul : c.NamesNulFree)
    (hflags : Inert MayShow (fun _ => True) (unwords c.toolchain.flags)) :
    (words? (assemble c)
        = some ([c.toolchain.compiler, "-c", "-mabi=" ++ c.toolchain.mabi,
              "-march=" ++ c.toolchain.march]
            ++ wordsOf (unwords c.toolchain.flags)
            ++ [c.source.withForwardSlashes, "-o", c.objectPath.withForwardSlashes]) ∧
      words? (archive c)
        = some [c.toolchain.archiver, "crs", c.archivePath.withForwardSlashes,
            c.objectPath.withForwardSlashes]) ∧
    (Inert MayShow (fun _ => True) (assemble c) ∧ Inert MayShow (fun _ => True) (archive c)) ∧
    (∀ p ∈ [c.source, c.objectPath, c.archivePath],
      p.withForwardSlashes = p ↔ '\\'.toUInt8 ∉ p) ∧
    c.objectPath.withForwardSlashes ≠ c.archivePath.withForwardSlashes ∧
    (∀ name ∈ [c.object, c.archive], '\\'.toUInt8 ∉ name → name ≠ "." → name ≠ ".." →
      Path.IsEntry c.outDir.withForwardSlashes name (c.outDir.join name).withForwardSlashes) ∧
    (∀ probes tools files, ∀ i ∈
        (Build.Setup.build ⟨c, probes, tools⟩ files).progress.invocations,
      (i.role, i.line) = (.compiler, assemble c) ∨
        (i.role, i.line) = (.archiver, archive c)) ∧
    ∀ probes tools p,
      let s : Build.Setup := ⟨c, probes, tools⟩
      (Build.Step.compile s).Ends p (fun r q => Build.Compiles s c.source c.objectPath p q r) ∧
      (Build.Step.archive s).Ends p
        (fun r q => Build.Archives s c.objectPath c.archivePath p q r) ∧
      (Build.Step.cleanup s).Ends p (fun r q => Build.CleansUp c.objectPath p q r) := by
  have hchecked := hc.checked
  have harchive : c.archive ≠ [] := by
    obtain ⟨front, hfront, heq⟩ := hchecked.archive
    rw [heq]
    exact List.append_ne_nil_of_left_ne_nil hfront _
  refine ⟨⟨words?_assemble hnul hchecked.toolchain hflags.closed, words?_archive hnul⟩,
    ⟨inert_assemble (by decide) trivial hnul hchecked.toolchain hflags,
      inert_archive (by decide) trivial hnul⟩, ?_, ?_, ?_, ?_, ?_⟩
  · exact fun p _ => Path.withForwardSlashes_eq_iff
  · exact Path.withForwardSlashes_join_ne hchecked.outDir hchecked.objectBare
      hchecked.archiveBare hchecked.different.symm
  · intro name hname hslash hdot hdots
    simp only [List.mem_cons, List.not_mem_nil, or_false] at hname
    rcases hname with rfl | rfl
    · exact Path.isEntry_join hchecked.outDir hchecked.objectBare hslash
        ⟨hchecked.object, hdot, hdots⟩
    · exact Path.isEntry_join hchecked.outDir hchecked.archiveBare hslash
        ⟨harchive, hdot, hdots⟩
  · exact fun probes tools files i hi => Build.line_of_build hi
  · exact fun probes tools p => ⟨Build.Step.compile_compiles, Build.Step.archive_archives,
      Build.Step.cleanup_cleansUp⟩

/-- Names with blanks in them, and options with blanks in quotes of both
kinds, one of them written as two flags. -/
def spacedNames : Config where
  source := "src/start up.S"
  outDir := "out/"
  object := "start.o"
  toolchain :=
    { compiler := "cc"
      archiver := "ar"
      flags := ["-DGREETING='hello", "world'", "-I\"my \\\"inc\\\"\""] }

theorem operands_of_lines_spacedNames :
    (words? (assemble spacedNames)
        = some (["cc", "-c", "-mabi=ilp32", "-march=rv32imac", "-DGREETING=hello world",
            "-Imy \"inc\"", "src/start up.S", "-o", "out/start.o"] : List Bytes) ∧
      words? (archive spacedNames)
        = some (["ar", "crs", "out/gd32vf103xx-hal.a", "out/start.o"] : List Bytes)) ∧
    Path.IsEntry "out/" "start.o" "out/start.o" ∧
    (∀ probes tools files, ∀ i ∈
        (Build.Setup.build ⟨spacedNames, probes, tools⟩ files).progress.invocations,
      (i.role, i.line) = (.compiler, assemble spacedNames) ∨
        (i.role, i.line) = (.archiver, archive spacedNames)) ∧
    ∀ probes tools p,
      let s : Build.Setup := ⟨spacedNames, probes, tools⟩
      (Build.Step.compile s).Ends p
        (fun r q => Build.Compiles s "src/start up.S" "out/start.o" p q r) ∧
      (Build.Step.archive s).Ends p
        (fun r q => Build.Archives s "out/start.o" "out/gd32vf103xx-hal.a" p q r) ∧
      (Build.Step.cleanup s).Ends p (fun r q => Build.CleansUp "out/start.o" p q r) := by
  obtain ⟨hwords, -, -, -, hentry, hlines, hsteps⟩ := operands_of_lines spacedNames (by decide)
    ⟨by decide, by decide, by decide, by decide, by decide, by decide⟩ (by decide)
  exact ⟨hwords, hentry "start.o" (by decide) (by decide) (by decide) (by decide), hlines,
    hsteps⟩

/-- Names in which a backslash is no separator to the file system. -/
def backslashNames : Config where
  source := "asm\\trap.S"
  object := "sub\\trap.o"
  toolchain := { compiler := "cc", archiver := "ar" }

/-- A flag that opens a quote. -/
def openFlag : Config where
  toolchain := { compiler := "cc", archiver := "ar", flags := ["'"] }

/-- The tools are given other files than the build looks at if there are
backslashes in the paths, and none if a flag runs away with the line. -/
theorem operands_differ :
    (backslashNames.Valid ∧ backslashNames.NamesNulFree ∧
      words? (assemble backslashNames)
        = some (["cc", "-c", "-mabi=ilp32", "-march=rv32imac", "asm/trap.S", "-o",
            "bin/sub/trap.o"] : List Bytes) ∧
      backslashNames.source ≠ "asm/trap.S" ∧ backslashNames.objectPath ≠ "bin/sub/trap.o") ∧
    openFlag.Valid ∧ openFlag.NamesNulFree ∧ words? (assemble openFlag) = none :=
  ⟨⟨by decide, ⟨by decide, by decide, by decide, by decide, by decide, by decide⟩, by decide,
      by decide, by decide⟩,
    by decide, ⟨by decide, by decide, by decide, by decide, by decide, by decide⟩, by decide⟩

end Command

end Prebuilt
