import Prebuilt.Manifest.Writer
import Prebuilt.Proofs.Manifest.Reading

/-!
# A written configuration reads back

`write` gives every configuration a manifest, whatever bytes its fields
hold. That manifest is a text of the grammar, line by line, and its
settings are those of `written`; no key among them is unknown, and folded
over any base they leave nothing of it but the extension of archives,
which has no key. So reading what was written gives the configuration
back, without a warning (`read_write`).

Only the name is set in two places: it brings an archive name along,
which the archive's own line, further down, replaces.
-/

namespace Prebuilt.Manifest

/-! ## Written values -/

theorem quotedText_quoted (value : Bytes) : QuotedText (quoted value) value := by
  obtain ⟨text, htext, hrest⟩ := string_sound (string_quoted value [] 1)
  rw [List.append_cancel_right hrest]
  exact htext

theorem valueText_quotedList {sec key : Bytes} (hkind : IsListKey sec key)
    (values : List Bytes) : ValueText sec key (quotedList values) (.list values) := by
  obtain ⟨space, text, hspace, htext, hrest⟩ := array_sound (array_quotedList values [] 1)
  rw [List.append_cancel_right hrest]
  exact .list hkind hspace htext

/-! ## Written lines -/

theorem isBlanks_blank : IsBlanks " " := by
  rintro c hc
  exact Or.inl (List.mem_singleton.mp hc)

theorem lines_header {name rest : Bytes} {settings : List Setting} {sec : Bytes}
    (hname : IsIdentifier name) (h : LinesText name rest settings) :
    LinesText sec (headerLine name ++ rest) settings := by
  have hline : LineText sec ('['.toUInt8 :: [] ++ name ++ [] ++ [']'.toUInt8]) name [] := by
    have hitem : LineText sec _ name [] :=
      .item isBlanks_nil (.header isBlanks_nil hname isBlanks_nil) isLineEnd_nil
    rwa [List.nil_append, List.append_nil] at hitem
  have hshape : headerLine name ++ rest
      = '['.toUInt8 :: [] ++ name ++ [] ++ [']'.toUInt8] ++ '\n'.toUInt8 :: rest := by
    show '['.toUInt8 :: name ++ "]\n" ++ rest = _
    simp only [List.append_assoc, List.cons_append, List.nil_append]
    rfl
  rw [hshape]
  exact .line hline h

theorem lines_assignment {sec key text rest : Bytes} {v : Value} {settings : List Setting}
    (hsec : sec ≠ []) (hkey : IsIdentifier key) (hvalue : ValueText sec key text v)
    (h : LinesText sec rest settings) :
    LinesText sec (assignmentLine key text ++ rest) (⟨sec, key, v⟩ :: settings) := by
  have hline : LineText sec (key ++ " " ++ '='.toUInt8 :: " " ++ text) sec [⟨sec, key, v⟩] := by
    have hitem : LineText sec _ sec [⟨sec, key, v⟩] :=
      .item isBlanks_nil (.assignment hsec hkey isBlanks_blank isBlanks_blank hvalue)
        isLineEnd_nil
    rwa [List.nil_append, List.append_nil] at hitem
  have hshape : assignmentLine key text ++ rest
      = key ++ " " ++ '='.toUInt8 :: " " ++ text ++ '\n'.toUInt8 :: rest := by
    show key ++ " = " ++ text ++ "\n" ++ rest = _
    simp only [List.append_assoc, List.cons_append]
    rfl
  rw [hshape]
  exact .line hline h

/-! ## What is written -/

/-- A setting of one key. -/
def TextKey.setting (k : TextKey) (value : Bytes) : Setting :=
  ⟨k.spelling.1, k.spelling.2, .text value⟩

/-- The settings of a whole configuration, in the order in which they are
written. -/
def written (c : Config) : List Setting :=
  [TextKey.name.setting c.name,
   TextKey.source.setting c.source,
   TextKey.outDir.setting c.outDir,
   TextKey.archive.setting c.archive,
   TextKey.object.setting c.object,
   TextKey.compiler.setting c.toolchain.compiler,
   TextKey.archiver.setting c.toolchain.archiver,
   TextKey.march.setting c.toolchain.march,
   TextKey.mabi.setting c.toolchain.mabi,
   ⟨"toolchain", "flags", .list c.toolchain.flags⟩,
   ⟨"link", "scripts", .list c.linkScripts⟩]

theorem lines_setting (k : TextKey) (value : Bytes) {rest : Bytes} {settings : List Setting}
    (h : LinesText k.spelling.1 rest settings) :
    LinesText k.spelling.1 (assignmentLine k.spelling.2 (quoted value) ++ rest)
      (k.setting value :: settings) := by
  refine lines_assignment ?_ ?_ (.text ?_ (quotedText_quoted value)) h
  · cases k <;> decide
  · cases k <;> decide
  · cases k <;> decide

theorem manifestText_write (c : Config) : ManifestText (write c) (written c) := by
  have hshape : write c = headerLine "blob"
      ++ (assignmentLine "name" (quoted c.name)
      ++ (assignmentLine "source" (quoted c.source)
      ++ (assignmentLine "out_dir" (quoted c.outDir)
      ++ (assignmentLine "archive" (quoted c.archive)
      ++ (assignmentLine "object" (quoted c.object)
      ++ (headerLine "toolchain"
      ++ (assignmentLine "compiler" (quoted c.toolchain.compiler)
      ++ (assignmentLine "archiver" (quoted c.toolchain.archiver)
      ++ (assignmentLine "march" (quoted c.toolchain.march)
      ++ (assignmentLine "mabi" (quoted c.toolchain.mabi)
      ++ (assignmentLine "flags" (quotedList c.toolchain.flags)
      ++ (headerLine "link"
      ++ (assignmentLine "scripts" (quotedList c.linkScripts)
      ++ []))))))))))))) := by
    simp only [write, List.append_assoc, List.append_nil]
  rw [hshape]
  refine lines_header (by decide) ?_
  refine lines_setting .name _ (lines_setting .source _ (lines_setting .outDir _
    (lines_setting .archive _ (lines_setting .object _ ?_))))
  refine lines_header (by decide) ?_
  refine lines_setting .compiler _ (lines_setting .archiver _ (lines_setting .march _
    (lines_setting .mabi _ ?_)))
  refine lines_assignment (by decide) (by decide) (valueText_quotedList (by decide) _) ?_
  refine lines_header (by decide) ?_
  refine lines_assignment (by decide) (by decide) (valueText_quotedList (by decide) _) ?_
  exact .last (.empty isLineEnd_nil)

/-! ## What it means -/

theorem find?_spelling (k : TextKey) : TextKey.find? k.spelling.1 k.spelling.2 = some k :=
  TextKey.find?_eq_some_iff.mpr rfl

theorem give_setting (d : Draft) (k : TextKey) (value : Bytes) :
    d.give (k.setting value) = d.set value k := by
  simp only [Draft.give, TextKey.setting, find?_spelling]

theorem isKnown_setting (k : TextKey) (value : Bytes) : (k.setting value).isKnown = true := by
  simp only [Setting.isKnown, TextKey.setting, find?_spelling, Option.isSome_some]

theorem ignored_written (c : Config) : ignored (written c) = [] := by
  have hlist : ∀ sec key values, (Setting.mk sec key (.list values)).isKnown = true :=
    fun _ _ _ => rfl
  simp only [ignored, written, List.filter, isKnown_setting, hlist, Bool.not_true, List.map_nil]

theorem give_flags (d : Draft) (flags : List Bytes) :
    d.give ⟨"toolchain", "flags", .list flags⟩
      = Draft.set.tools d { d.config.toolchain with flags := flags } := by
  show d.setList "toolchain" flags = _
  rw [Draft.setList, if_neg (by decide)]
  rfl

theorem give_scripts (d : Draft) (scripts : List Bytes) :
    d.give ⟨"link", "scripts", .list scripts⟩
      = { d with config := { d.config with linkScripts := scripts } } := by
  show d.setList "link" scripts = _
  rw [Draft.setList, if_pos rfl]

/-- The written settings replace every field but the extension. -/
theorem configured_written (base c : Config) :
    configured base (written c) = { c with archiveExtension := base.archiveExtension } := by
  simp only [configured, written, List.foldl_cons, List.foldl_nil, give_setting, give_flags,
    give_scripts, Draft.set, Draft.set.tools]

/-- What is written reads back, without a warning. -/
theorem read_write (c base : Config) (h : base.archiveExtension = c.archiveExtension) :
    (read (write c) base).config = some c ∧ (read (write c) base).warnings = [] := by
  obtain ⟨hconfig, hwarnings⟩ := read_of_text (manifestText_write c) base
  rw [configured_written, h] at hconfig
  rw [ignored_written, List.map_eq_nil_iff] at hwarnings
  exact ⟨hconfig, hwarnings⟩

/-- Values full of what means something to a manifest. -/
def awkward : Config where
  name := "a \"name\"\n[blob]"
  source := Bytes.ofString "C:\\new\ttable.S\\"
  archive := "\"] # no comment.a"
  object := []
  toolchain := { compiler := [0, 255, 92, 10], flags := ["", "-DX=\"],[\"", "\\"] }
  linkScripts := []

theorem read_write_awkward :
    ({} : Config).archiveExtension = awkward.archiveExtension ∧
      (read (write awkward) {}).config = some awkward ∧ (read (write awkward) {}).warnings = [] :=
  ⟨rfl, read_write awkward {} rfl⟩

end Prebuilt.Manifest
