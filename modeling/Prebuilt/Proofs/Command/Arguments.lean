import Prebuilt.Proofs.Command.Split
import Prebuilt.Proofs.Config

/-!
# The arguments of the tools

A valid configuration gives command lines that a shell takes apart into
the arguments that were meant (`arguments_as_intended`): paths and tool
names as they are, whatever bytes they hold, since they are quoted; the
instruction set and the calling convention because validation admits
only bytes that need no quotes; and the flags as far as they are
harmless themselves. Nothing on such a line is left for the shell to
expand.

For flags of any other kind it is enough that all of them together end
outside of quotes (`words?_assemble`).
-/

namespace Prebuilt

/-! ## Names without a NUL -/

/-- The strings of a configuration that name tools and files hold no
NUL. -/
structure Config.NamesNulFree (c : Config) : Prop where
  compiler : Command.NulFree c.toolchain.compiler
  archiver : Command.NulFree c.toolchain.archiver
  source : Command.NulFree c.source
  outDir : Command.NulFree c.outDir
  archive : Command.NulFree c.archive
  object : Command.NulFree c.object

namespace Path

theorem nulFree_join {dir name : Path} (hdir : Command.NulFree dir)
    (hname : Command.NulFree name) : Command.NulFree (dir.join name) := by
  unfold join
  split
  · exact hname
  · split
    · exact fun h => (List.mem_append.mp h).elim hdir hname
    · intro h
      rcases List.mem_append.mp h with h | h
      · exact hdir h
      · exact (List.mem_cons.mp h).elim (by decide) hname

theorem nulFree_withForwardSlashes {p : Path} (h : Command.NulFree p) :
    Command.NulFree p.withForwardSlashes := by
  intro hmem
  obtain ⟨c, hc, hzero⟩ := List.mem_map.mp hmem
  split at hzero
  · cases hzero
  · exact h (hzero ▸ hc)

end Path

namespace Command

/-! ## What validation admits -/

theorem isHarmless_of_isProfileByte {c : UInt8} (h : isProfileByte c = true) :
    isHarmless c = true := by
  simp only [isProfileByte, Bool.or_eq_true, decide_eq_true_eq] at h
  rw [isHarmless, Byte.isAlphanumeric]
  rcases h with (hlower | hdigit) | rfl
  · rw [hlower, Bool.or_true, Bool.true_or, Bool.true_or]
  · rw [hdigit, Bool.true_or, Bool.true_or, Bool.true_or]
  · decide

/-- The option that selects the instruction set needs no quotes. -/
theorem isHarmless_march {march : Bytes} (h : isProfile march = true) :
    ∀ c ∈ "-march=" ++ march, isHarmless c = true := by
  intro c hc
  rcases List.mem_append.mp hc with hc | hc
  · exact List.all_eq_true.mp (by decide : (Bytes.ofString "-march=").all isHarmless = true) c hc
  · exact isHarmless_of_isProfileByte (isProfileByte_of_mem h c hc)

/-- Nor does the one that selects the calling convention. -/
theorem isHarmless_mabi {mabi : Bytes} (h : isCallingConvention mabi = true) :
    ∀ c ∈ "-mabi=" ++ mabi, isHarmless c = true := by
  simp only [isCallingConvention, Bool.or_eq_true, decide_eq_true_eq] at h
  refine List.all_eq_true.mp ?_
  rcases h with ((rfl | rfl) | rfl) | rfl <;> decide

/-! ## The texts of a line -/

/-- The texts before the flags. -/
def assembleOptions (c : Config) : List Bytes :=
  [quoteName c.toolchain.compiler, "-c", "-mabi=" ++ c.toolchain.mabi,
    "-march=" ++ c.toolchain.march]

/-- The texts behind the flags. -/
def assembleFiles (c : Config) : List Bytes := [quotePath c.source, "-o", quotePath c.objectPath]

theorem assemble_eq (c : Config) :
    assemble c = unwords (assembleOptions c ++ c.toolchain.flags ++ assembleFiles c) := rfl

def archiveTexts (c : Config) : List Bytes :=
  [quoteName c.toolchain.archiver, "crs", quotePath c.archivePath, quotePath c.objectPath]

theorem archive_eq (c : Config) : archive c = unwords (archiveTexts c) := rfl

variable {blank kept : UInt8 → Prop} {c : Config}

theorem inert_quotePath (hquote : kept '\'') {p : Path} (h : NulFree p) :
    Inert blank kept (quotePath p) := inert_quote hquote (Path.nulFree_withForwardSlashes h)

theorem inert_assembleOptions (hquote : kept '\'') (hnul : c.NamesNulFree)
    (ht : c.toolchain.problem? = none) :
    ∀ text ∈ assembleOptions c, Inert blank kept text := by
  obtain ⟨hmarch, hmabi⟩ := Toolchain.problem?_eq_none_iff.mp ht
  simp only [assembleOptions, List.forall_mem_cons]
  exact ⟨inert_quoteName hquote hnul.compiler, inert_harmless (List.all_eq_true.mp (by decide)),
    inert_harmless (isHarmless_mabi hmabi), inert_harmless (isHarmless_march hmarch), nofun⟩

theorem inert_assembleFiles (hquote : kept '\'') (hnul : c.NamesNulFree) :
    ∀ text ∈ assembleFiles c, Inert blank kept text := by
  simp only [assembleFiles, List.forall_mem_cons]
  exact ⟨inert_quotePath hquote hnul.source, inert_harmless (List.all_eq_true.mp (by decide)),
    inert_quotePath hquote (Path.nulFree_join hnul.outDir hnul.object), nofun⟩

theorem inert_archiveTexts (hquote : kept '\'') (hnul : c.NamesNulFree) :
    ∀ text ∈ archiveTexts c, Inert blank kept text := by
  simp only [archiveTexts, List.forall_mem_cons]
  exact ⟨inert_quoteName hquote hnul.archiver, inert_harmless (List.all_eq_true.mp (by decide)),
    inert_quotePath hquote (Path.nulFree_join hnul.outDir hnul.archive),
    inert_quotePath hquote (Path.nulFree_join hnul.outDir hnul.object), nofun⟩

theorem wordsOf_assembleOptions (ht : c.toolchain.problem? = none) :
    (assembleOptions c).flatMap wordsOf
      = [c.toolchain.compiler, "-c", "-mabi=" ++ c.toolchain.mabi,
          "-march=" ++ c.toolchain.march] := by
  obtain ⟨hmarch, hmabi⟩ := Toolchain.problem?_eq_none_iff.mp ht
  simp only [assembleOptions, List.flatMap_cons, List.flatMap_nil, wordsOf_quoteName]
  rw [wordsOf_harmless (List.append_ne_nil_of_left_ne_nil (by decide) _) (isHarmless_mabi hmabi),
    wordsOf_harmless (List.append_ne_nil_of_left_ne_nil (by decide) _) (isHarmless_march hmarch)]
  rfl

theorem wordsOf_assembleFiles (c : Config) :
    (assembleFiles c).flatMap wordsOf
      = [c.source.withForwardSlashes, "-o", c.objectPath.withForwardSlashes] := by
  simp only [assembleFiles, List.flatMap_cons, List.flatMap_nil, wordsOf_quotePath]
  rfl

theorem wordsOf_archiveTexts (c : Config) :
    (archiveTexts c).flatMap wordsOf
      = [c.toolchain.archiver, "crs", c.archivePath.withForwardSlashes,
          c.objectPath.withForwardSlashes] := by
  simp only [archiveTexts, List.flatMap_cons, List.flatMap_nil, wordsOf_quoteName,
    wordsOf_quotePath]
  rfl

/-! ## The lines -/

theorem inert_assemble (hblank : blank ' ') (hquote : kept '\'') (hnul : c.NamesNulFree)
    (ht : c.toolchain.problem? = none) (hflags : Inert blank kept (unwords c.toolchain.flags)) :
    Inert blank kept (assemble c) := by
  have hoptions : Inert blank kept (unwords (assembleOptions c)) :=
    inert_unwords hblank (inert_assembleOptions hquote hnul ht)
  have hfiles : Inert blank kept (unwords (assembleFiles c)) :=
    inert_unwords hblank (inert_assembleFiles hquote hnul)
  exact inert_unwords_append hblank (inert_unwords_append hblank hoptions hflags) hfiles

theorem inert_archive (hblank : blank ' ') (hquote : kept '\'') (hnul : c.NamesNulFree) :
    Inert blank kept (archive c) :=
  inert_unwords hblank (inert_archiveTexts hquote hnul)

theorem words?_assemble (hnul : c.NamesNulFree) (ht : c.toolchain.problem? = none)
    (hflags : Mode.after .bare (unwords c.toolchain.flags) = .bare) :
    words? (assemble c)
      = some ([c.toolchain.compiler, "-c", "-mabi=" ++ c.toolchain.mabi,
            "-march=" ++ c.toolchain.march]
          ++ wordsOf (unwords c.toolchain.flags)
          ++ [c.source.withForwardSlashes, "-o", c.objectPath.withForwardSlashes]) := by
  have hoptions : ∀ text ∈ assembleOptions c, Inert (· = ' ') (· = '\'') text :=
    inert_assembleOptions rfl hnul ht
  have hfiles : ∀ text ∈ assembleFiles c, Inert (· = ' ') (· = '\'') text :=
    inert_assembleFiles rfl hnul
  have hline : Inert (· = ' ') (· = '\'') (unwords (assembleOptions c)) :=
    inert_unwords (by rfl) hoptions
  have hne : assembleFiles c ≠ [] := List.cons_ne_nil _ _
  rw [assemble_eq, List.append_assoc,
    words?_unwords_append hline.closed (List.append_ne_nil_of_right_ne_nil _ hne),
    words?_unwords_append hflags hne, words?_unwords fun text h => (hfiles text h).closed,
    wordsOf_unwords fun text h => (hoptions text h).closed, wordsOf_assembleOptions ht,
    wordsOf_assembleFiles]
  rfl

theorem words?_archive (hnul : c.NamesNulFree) :
    words? (archive c)
      = some [c.toolchain.archiver, "crs", c.archivePath.withForwardSlashes,
          c.objectPath.withForwardSlashes] := by
  have htexts : ∀ text ∈ archiveTexts c, Inert (· = ' ') (· = '\'') text :=
    inert_archiveTexts rfl hnul
  rw [archive_eq, words?_unwords fun text h => (htexts text h).closed, wordsOf_archiveTexts]

theorem wordsOf_flags {flags : List Bytes}
    (h : ∀ flag ∈ flags, flag ≠ [] ∧ flag.all isHarmless = true) :
    flags.flatMap wordsOf = flags := by
  induction flags with
  | nil => rfl
  | cons flag flags ih =>
      obtain ⟨⟨hne, hharmless⟩, hrest⟩ := List.forall_mem_cons.mp h
      rw [List.flatMap_cons, wordsOf_harmless hne (List.all_eq_true.mp hharmless), ih hrest]
      rfl

/-- What a valid configuration names is what reaches the tools, one
argument each. Bare on the lines are no metacharacters but the blanks
between the arguments, and a backslash only before a single quote. -/
theorem arguments_as_intended (c : Config) (hc : c.Valid) (hnul : c.NamesNulFree)
    (hflags : ∀ flag ∈ c.toolchain.flags, flag ≠ [] ∧ flag.all isHarmless = true) :
    words? (assemble c)
      = some ([c.toolchain.compiler, "-c", "-mabi=" ++ c.toolchain.mabi,
            "-march=" ++ c.toolchain.march]
          ++ c.toolchain.flags
          ++ [c.source.withForwardSlashes, "-o", c.objectPath.withForwardSlashes]) ∧
    words? (archive c)
      = some [c.toolchain.archiver, "crs", c.archivePath.withForwardSlashes,
          c.objectPath.withForwardSlashes] ∧
    Inert (· = ' ') (· = '\'') (assemble c) ∧ Inert (· = ' ') (· = '\'') (archive c) := by
  have ht := hc.checked.toolchain
  have hinert : ∀ flag ∈ c.toolchain.flags, Inert (· = ' ') (· = '\'') flag :=
    fun flag hflag => inert_harmless (List.all_eq_true.mp (hflags flag hflag).2)
  have hline : Inert (· = ' ') (· = '\'') (unwords c.toolchain.flags) :=
    inert_unwords (by rfl) hinert
  have hwords := words?_assemble hnul ht hline.closed
  rw [wordsOf_unwords fun flag h => (hinert flag h).closed, wordsOf_flags hflags] at hwords
  exact ⟨hwords, words?_archive hnul, inert_assemble rfl rfl hnul ht hline,
    inert_archive rfl rfl hnul⟩

/-- Names that a shell would make something else of. -/
def hostileNames : Config where
  source := "$(id)\\start's.S"
  outDir := "'; rm -r *\n"
  object := "'"
  toolchain :=
    { compiler := "/opt/it's gcc", archiver := "`ar`", flags := ["-g", "-Wa,--noexecstack"] }

theorem arguments_as_intended_hostileNames :
    words? (assemble hostileNames)
      = some (["/opt/it's gcc", "-c", "-mabi=ilp32", "-march=rv32imac", "-g",
          "-Wa,--noexecstack", "$(id)/start's.S", "-o", "'; rm -r *\n/'"] : List Bytes) ∧
    words? (archive hostileNames)
      = some (["`ar`", "crs", "'; rm -r *\n/gd32vf103xx-hal.a", "'; rm -r *\n/'"] : List Bytes) ∧
    Inert (· = ' ') (· = '\'') (assemble hostileNames) ∧
    Inert (· = ' ') (· = '\'') (archive hostileNames) :=
  arguments_as_intended hostileNames (by decide)
    ⟨by decide, by decide, by decide, by decide, by decide, by decide⟩ (by decide)

end Command

end Prebuilt
