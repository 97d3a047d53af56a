import Prebuilt.Proofs.Build.Outcome
import Prebuilt.Proofs.Config
import Prebuilt.Proofs.FileTree.Route

/-!
# What the steps after cleaning do to the tree

For each step and the paths that it works on, an inductive type lists the
ways it can end, for any tools: which of its tests has failed, what it
names in its report, what it has removed and which tool it has started.
The tests shut each other out, so these are descriptions of the steps
(`compile_compiles`, `archive_archives`, `cleanup_cleansUp`). What most
proofs need of them is less: the step ends before it has changed anything,
or it has removed what it removes and a tool has made of the tree whatever
it liked (`compile_ends`, `archive_ends`, `cleanup_ends`).

The object and the archive are names directly in the output directory,
so their paths pass the same directories (`mem_way_archive_iff`), and
wherever the one is a file, removing it leaves the other's path whole
(`pathExists_archive_of_remove`).
-/

namespace Prebuilt

open FileTree

namespace Config

variable {c : Config} {t t' : FileTree} {w k : Location}

/-! ## Object and archive -/

theorem mem_way_object_iff (h : c.Checked) :
    k ∈ c.objectPath.way w ↔ k ∈ c.outDir.way w ∨ k = c.outDir.spot w :=
  Path.mem_way_join h.outDir h.objectBare

theorem mem_way_archive_iff (h : c.Checked) :
    k ∈ c.archivePath.way w ↔ k ∈ c.objectPath.way w :=
  (Path.mem_way_join h.outDir h.archiveBare).trans (mem_way_object_iff h).symm

theorem turn_ne_append {d : Location} {name other : Bytes} (h : other ≠ name) :
    turn d name ≠ d ++ [other] := by
  rw [turn]
  intro heq
  split at heq
  · exact absurd (congrArg List.length heq) (by simp)
  · split at heq
    · have hlength := congrArg List.length heq
      rw [List.length_dropLast, List.length_append, List.length_singleton] at hlength
      omega
    · exact h (List.singleton_inj.mp (List.append_cancel_left heq)).symm

/-- The archive's name has more than two bytes, so it is neither of the
names that stay where they are or lead back. -/
theorem archive_proper (h : c.Checked) (hext : 2 ≤ c.archiveExtension.length) :
    c.archive ≠ [] ∧ c.archive ≠ "." ∧ c.archive ≠ ".." := by
  obtain ⟨front, hfront, heq⟩ := h.archive
  have hlength : 3 ≤ c.archive.length := by
    rw [heq, List.length_append]
    have hpos := List.length_pos_iff.mpr hfront
    omega
  have hne : ∀ name : Bytes, name.length ≤ 2 → c.archive ≠ name := by
    rintro name hname rfl
    omega
  exact ⟨hne [] (by decide), hne "." (by decide), hne ".." (by decide)⟩

theorem turn_archive (h : c.Checked) (hext : 2 ≤ c.archiveExtension.length) (d : Location) :
    turn d c.archive = d ++ [c.archive] := by
  obtain ⟨hempty, hdot, hdots⟩ := archive_proper h hext
  exact turn_of_isBare hempty hdot hdots

theorem spot_object_ne_archive (h : c.Checked) (hext : 2 ≤ c.archiveExtension.length)
    (w : Location) : c.objectPath.spot w ≠ c.archivePath.spot w := by
  rw [objectPath, archivePath, Path.spot_join h.outDir h.objectBare,
    Path.spot_join h.outDir h.archiveBare, turn_archive h hext]
  exact turn_ne_append h.different

/-- The archive does not lie behind the object where that is a file. -/
theorem spot_object_notMem_way_archive (h : c.Checked)
    (hfile : t.isRegularFile c.objectPath = true) :
    c.objectPath.spot t.workingDirectory ∉ c.archivePath.way t.workingDirectory := by
  rw [mem_way_archive_iff h]
  exact spot_notMem_way hfile

/-- Where the object was a file once, removing it leaves the archive
where it is. -/
theorem pathExists_archive_of_remove {t₀ : FileTree} (h : c.Checked)
    (hext : 2 ≤ c.archiveExtension.length) (hw : t.workingDirectory = t₀.workingDirectory)
    (hfile : t₀.isRegularFile c.objectPath = true) (hremove : t.remove c.objectPath = .ok t') :
    t'.pathExists c.archivePath = t.pathExists c.archivePath := by
  obtain ⟨l, hl, -, rfl, -⟩ := remove_eq_ok_iff.mp hremove
  obtain ⟨-, -, rfl⟩ := resolve_eq_ok_iff.mp hl
  have hway := spot_object_notMem_way_archive h hfile
  rw [← hw] at hway
  rw [pathExists, pathExists, stat_erase_of_notMem]
  exact fun hmem => (List.mem_cons.mp hmem).elim (spot_object_ne_archive h hext _) hway

end Config

namespace Build

/-- What is left of a tree once no object is in the way: the tree itself
if there was none, or the tree without it. -/
inductive ObjectCleared (object : Path) (t : FileTree) : FileTree → Prop
  | absent (h : t.pathExists object = false) : ObjectCleared object t t
  | removed {t' : FileTree} (h : t.remove object = .ok t') : ObjectCleared object t t'

namespace ObjectCleared

variable {object : Path} {t t' : FileTree}

theorem pathExists (h : ObjectCleared object t t') : t'.pathExists object = false := by
  cases h with
  | absent h => exact h
  | removed h => exact pathExists_of_remove h

theorem extend (h : ObjectCleared object t t') : Extends t' t := by
  cases h with
  | absent h => exact .refl t
  | removed h =>
      obtain ⟨l, -, -, rfl, -⟩ := remove_eq_ok_iff.mp h
      exact extends_erase t l

end ObjectCleared

/-! ## How the steps end -/

/-- Nothing was changed and no tool was started. -/
structure Untouched (p q : Progress) : Prop where
  files : q.files = p.files
  invocations : q.invocations = p.invocations

/-- A tool was started in a tree and has left another one. -/
structure Ran (s : Setup) (role : Role) (line : Bytes) (t : FileTree) (p q : Progress) : Prop where
  files : q.files = (s.tools.run line t).files
  invocations : q.invocations = p.invocations ++ [⟨role, line, t⟩]

/-- The ways in which compiling a source into an object can end. -/
inductive Compiles (s : Setup) (source object : Path) (p q : Progress) :
    Except Error Unit → Prop where
  | sourceMissing (hsource : p.files.isRegularFile source = false) (hsame : Untouched p q) :
      Compiles s source object p q (.error ⟨.sourceMissing source, p.state⟩)
  | cannotRemoveOld {fault : Fault} (hsource : p.files.isRegularFile source = true)
      (hold : p.files.pathExists object = true) (hremove : p.files.remove object = .error fault)
      (hsame : Untouched p q) :
      Compiles s source object p q (.error ⟨.cannotRemoveOld object fault, p.state⟩)
  | toolFailed {t : FileTree} (hsource : p.files.isRegularFile source = true)
      (hcleared : ObjectCleared object p.files t)
      (hcode : (s.tools.run (Command.assemble s.config) t).exitCode ≠ 0)
      (hran : Ran s .compiler (Command.assemble s.config) t p q) :
      Compiles s source object p q
        (.error ⟨Step.toolCause s .compiler (s.tools.run (Command.assemble s.config) t), p.state⟩)
  | objectNotMade {t : FileTree} (hsource : p.files.isRegularFile source = true)
      (hcleared : ObjectCleared object p.files t)
      (hcode : (s.tools.run (Command.assemble s.config) t).exitCode = 0)
      (hran : Ran s .compiler (Command.assemble s.config) t p q)
      (hnone : q.files.pathExists object = false) :
      Compiles s source object p q (.error ⟨.objectNotMade object, p.state⟩)
  | made {t : FileTree} (hsource : p.files.isRegularFile source = true)
      (hcleared : ObjectCleared object p.files t)
      (hcode : (s.tools.run (Command.assemble s.config) t).exitCode = 0)
      (hran : Ran s .compiler (Command.assemble s.config) t p q)
      (hmade : q.files.pathExists object = true) :
      Compiles s source object p q (.ok ())

/-- The ways in which putting an object into an archive can end. -/
inductive Archives (s : Setup) (object archive : Path) (p q : Progress) :
    Except Error Unit → Prop where
  | objectMissing (hobject : p.files.isRegularFile object = false) (hsame : Untouched p q) :
      Archives s object archive p q (.error ⟨.objectMissing object, p.state⟩)
  | toolFailed (hobject : p.files.isRegularFile object = true)
      (hcode : (s.tools.run (Command.archive s.config) p.files).exitCode ≠ 0)
      (hran : Ran s .archiver (Command.archive s.config) p.files p q) :
      Archives s object archive p q
        (.error
          ⟨Step.toolCause s .archiver (s.tools.run (Command.archive s.config) p.files), p.state⟩)
  | archiveNotMade (hobject : p.files.isRegularFile object = true)
      (hcode : (s.tools.run (Command.archive s.config) p.files).exitCode = 0)
      (hran : Ran s .archiver (Command.archive s.config) p.files p q)
      (hnone : q.files.pathExists archive = false) :
      Archives s object archive p q (.error ⟨.archiveNotMade archive, p.state⟩)
  | made (hobject : p.files.isRegularFile object = true)
      (hcode : (s.tools.run (Command.archive s.config) p.files).exitCode = 0)
      (hran : Ran s .archiver (Command.archive s.config) p.files p q)
      (hmade : q.files.pathExists archive = true) :
      Archives s object archive p q (.ok ())

/-- The ways in which removing the object can end. No tool is started. -/
inductive CleansUp (object : Path) (p q : Progress) : Except Error Unit → Prop where
  | objectVanished (hobject : p.files.pathExists object = false) (hsame : Untouched p q) :
      CleansUp object p q (.error ⟨.objectVanished object, p.state⟩)
  | cannotRemove {fault : Fault} (hobject : p.files.pathExists object = true)
      (hremove : p.files.remove object = .error fault) (hsame : Untouched p q) :
      CleansUp object p q (.error ⟨.cannotRemove object fault, p.state⟩)
  | removed (hobject : p.files.pathExists object = true)
      (hremove : p.files.remove object = .ok q.files)
      (hinv : q.invocations = p.invocations) : CleansUp object p q (.ok ())

namespace Step

variable {s : Setup} {p : Progress}

theorem removeOldObject_ends {object : Path} :
    (removeOldObject object).Ends p fun r q =>
      match r with
      | .ok _ => ∃ t, ObjectCleared object p.files t ∧ q = p.withFiles t
      | .error e => Untouched p q ∧ p.files.pathExists object = true ∧
          ∃ fault, p.files.remove object = .error fault ∧
            e = ⟨.cannotRemoveOld object fault, p.state⟩ := by
  unfold removeOldObject
  refine ends_bind.mpr (ends_files.mpr (ends_ite.mpr ⟨fun hold => ?_, fun hnone => ?_⟩))
  · split
    · rename_i t hremove
      exact ends_setFiles.mpr ⟨t, .removed hremove, rfl⟩
    · rename_i fault hremove
      exact ends_fail.mpr ⟨⟨rfl, rfl⟩, hold, fault, hremove, rfl⟩
  · exact ends_pure.mpr ⟨p.files, .absent (Bool.not_eq_true _ ▸ hnone), rfl⟩

theorem compile_compiles :
    (compile s).Ends p fun r q => Compiles s s.config.source s.config.objectPath p q r := by
  unfold compile
  dsimp only
  refine ends_bind.mpr (ends_files.mpr (ends_ite.mpr ⟨fun hsource => ?_, fun hsource => ?_⟩))
  · rw [fail_bind]
    exact ends_fail.mpr (.sourceMissing (Bool.not_eq_true' _ ▸ hsource) ⟨rfl, rfl⟩)
  simp only [Bool.not_eq_true', Bool.not_eq_false] at hsource
  refine ends_bind.mpr (removeOldObject_ends.imp ?_)
  rintro (e | _) q hend
  · obtain ⟨hsame, hold, fault, hremove, rfl⟩ := hend
    exact .cannotRemoveOld hsource hold hremove hsame
  obtain ⟨t, hcleared, rfl⟩ := hend
  refine ends_bind.mpr (ends_runTool.mpr ⟨fun hcode => ?_, fun hcode => ?_⟩)
  · refine ends_bind.mpr (ends_files.mpr (ends_ite.mpr ⟨fun hnone => ?_, fun hmade => ?_⟩))
    · rw [fail_bind]
      exact ends_fail.mpr
        (.objectNotMade hsource hcleared hcode ⟨rfl, rfl⟩ (Bool.not_eq_true' _ ▸ hnone))
    · simp only [Bool.not_eq_true', Bool.not_eq_false] at hmade
      exact ends_advance.mpr (.made hsource hcleared hcode ⟨rfl, rfl⟩ hmade)
  · exact .toolFailed hsource hcleared hcode ⟨rfl, rfl⟩

theorem archive_archives :
    (archive s).Ends p fun r q =>
      Archives s s.config.objectPath s.config.archivePath p q r := by
  unfold archive
  dsimp only
  refine ends_bind.mpr (ends_files.mpr (ends_ite.mpr ⟨fun hobject => ?_, fun hobject => ?_⟩))
  · rw [fail_bind]
    exact ends_fail.mpr (.objectMissing (Bool.not_eq_true' _ ▸ hobject) ⟨rfl, rfl⟩)
  simp only [Bool.not_eq_true', Bool.not_eq_false] at hobject
  refine ends_bind.mpr (ends_runTool.mpr ⟨fun hcode => ?_, fun hcode => ?_⟩)
  · refine ends_bind.mpr (ends_files.mpr (ends_ite.mpr ⟨fun hnone => ?_, fun hmade => ?_⟩))
    · rw [fail_bind]
      exact ends_fail.mpr
        (.archiveNotMade hobject hcode ⟨rfl, rfl⟩ (Bool.not_eq_true' _ ▸ hnone))
    · simp only [Bool.not_eq_true', Bool.not_eq_false] at hmade
      exact ends_advance.mpr (.made hobject hcode ⟨rfl, rfl⟩ hmade)
  · exact .toolFailed hobject hcode ⟨rfl, rfl⟩

theorem cleanup_cleansUp :
    (cleanup s).Ends p fun r q => CleansUp s.config.objectPath p q r := by
  unfold cleanup
  dsimp only
  refine ends_bind.mpr (ends_files.mpr (ends_ite.mpr ⟨fun hobject => ?_, fun hobject => ?_⟩))
  · rw [fail_bind]
    exact ends_fail.mpr (.objectVanished (Bool.not_eq_true' _ ▸ hobject) ⟨rfl, rfl⟩)
  simp only [Bool.not_eq_true', Bool.not_eq_false] at hobject
  split
  · rename_i t hremove
    exact ends_bind.mpr (ends_setFiles.mpr (ends_advance.mpr (.removed hobject hremove rfl)))
  · rename_i fault hremove
    rw [fail_bind]
    exact ends_fail.mpr (.cannotRemove hobject hremove ⟨rfl, rfl⟩)

/-! ## What they have changed -/

/-- Compiling ends before it has changed anything, or the compiler was
started where no object was in the way. -/
theorem compile_ends :
    (compile s).Ends p fun r q =>
      ((∃ e, r = .error e) ∧ q.files = p.files ∧ q.invocations = p.invocations ∧
        (p.files.isRegularFile s.config.source = true →
          p.files.pathExists s.config.objectPath = true ∧
            ∀ t, p.files.remove s.config.objectPath ≠ .ok t)) ∨
      (p.files.isRegularFile s.config.source = true ∧
        ∃ t, ObjectCleared s.config.objectPath p.files t ∧
          q.invocations = p.invocations ++ [⟨.compiler, Command.assemble s.config, t⟩] ∧
          q.files = (s.tools.start (Command.assemble s.config) t).files ∧
          (r = .ok () → (s.tools.run (Command.assemble s.config) t).exitCode = 0)) := by
  refine compile_compiles.imp fun r q hend => ?_
  cases hend with
  | sourceMissing hsource hsame =>
      refine Or.inl ⟨⟨_, rfl⟩, hsame.files, hsame.invocations, fun h => ?_⟩
      exact absurd (h.symm.trans hsource) Bool.noConfusion
  | cannotRemoveOld _ hold hremove hsame =>
      refine Or.inl ⟨⟨_, rfl⟩, hsame.files, hsame.invocations, fun _ => ⟨hold, fun t ht => ?_⟩⟩
      cases hremove.symm.trans ht
  | toolFailed hsource hcleared _ hran =>
      exact Or.inr ⟨hsource, _, hcleared, hran.invocations, hran.files, nofun⟩
  | objectNotMade hsource hcleared hcode hran =>
      exact Or.inr ⟨hsource, _, hcleared, hran.invocations, hran.files, fun _ => hcode⟩
  | made hsource hcleared hcode hran =>
      exact Or.inr ⟨hsource, _, hcleared, hran.invocations, hran.files, fun _ => hcode⟩

/-- Archiving ends before it has changed anything, or the archiver was
started where the object was a file. -/
theorem archive_ends :
    (archive s).Ends p fun r q =>
      ((∃ e, r = .error e) ∧ q.files = p.files ∧ q.invocations = p.invocations) ∨
      (p.files.isRegularFile s.config.objectPath = true ∧
        q.invocations = p.invocations ++ [⟨.archiver, Command.archive s.config, p.files⟩] ∧
        q.files = (s.tools.start (Command.archive s.config) p.files).files ∧
        (r = .ok () → q.files.pathExists s.config.archivePath = true ∧
          (s.tools.run (Command.archive s.config) p.files).exitCode = 0)) := by
  refine archive_archives.imp fun r q hend => ?_
  cases hend with
  | objectMissing _ hsame => exact Or.inl ⟨⟨_, rfl⟩, hsame.files, hsame.invocations⟩
  | toolFailed hobject _ hran => exact Or.inr ⟨hobject, hran.invocations, hran.files, nofun⟩
  | archiveNotMade hobject _ hran =>
      exact Or.inr ⟨hobject, hran.invocations, hran.files, nofun⟩
  | made hobject hcode hran hmade =>
      exact Or.inr ⟨hobject, hran.invocations, hran.files, fun _ => ⟨hmade, hcode⟩⟩

/-- Cleaning up ends before it has changed anything, or it has removed
the object. -/
theorem cleanup_ends :
    (cleanup s).Ends p fun r q =>
      q.invocations = p.invocations ∧
      match r with
      | .ok _ => p.files.remove s.config.objectPath = .ok q.files
      | .error _ => q.files = p.files := by
  refine cleanup_cleansUp.imp fun r q hend => ?_
  cases hend with
  | objectVanished _ hsame => exact ⟨hsame.invocations, hsame.files⟩
  | cannotRemove _ _ hsame => exact ⟨hsame.invocations, hsame.files⟩
  | removed _ hremove hinv => exact ⟨hinv, hremove⟩

end Step

end Build

end Prebuilt
