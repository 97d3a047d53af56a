import Prebuilt.Proofs.Manifest.RoundTrip

/-!
# What a setting means

Eleven keys are known, each in its section. A setting of one of them gives
one field of the configuration its value and leaves the others, but for the
name, which the archive follows until it is given a name of its own. A
setting of any other key does nothing (`Sets`). The text of a manifest
determines the kind of each value, so every setting in it does something
and only one thing (`sets_iff`), and reading a manifest comes to doing what
its settings say, one after the other (`read_eq_some_iff`).
-/

namespace Prebuilt.Manifest

/-! ## One setting -/

def knownKeys : List (Bytes × Bytes) :=
  [("blob", "name"), ("blob", "source"), ("blob", "out_dir"), ("blob", "archive"),
   ("blob", "object"), ("toolchain", "compiler"), ("toolchain", "archiver"),
   ("toolchain", "march"), ("toolchain", "mabi"), ("toolchain", "flags"), ("link", "scripts")]

/-- The section and the key of a setting. -/
def Setting.place (s : Setting) : Bytes × Bytes := (s.sectionName, s.key)

/-- What a setting makes of a configuration. The flag tells that the
archive has been set by its own key. -/
inductive Sets : Setting → Config × Bool → Config × Bool → Prop where
  | name {c : Config} {v : Bytes} :
      Sets ⟨"blob", "name", .text v⟩ (c, false)
        ({ c with name := v, archive := v ++ c.archiveExtension }, false)
  | nameOnly {c : Config} {v : Bytes} :
      Sets ⟨"blob", "name", .text v⟩ (c, true) ({ c with name := v }, true)
  | source {c : Config} {own : Bool} {v : Bytes} :
      Sets ⟨"blob", "source", .text v⟩ (c, own) ({ c with source := v }, own)
  | outDir {c : Config} {own : Bool} {v : Bytes} :
      Sets ⟨"blob", "out_dir", .text v⟩ (c, own) ({ c with outDir := v }, own)
  | archive {c : Config} {own : Bool} {v : Bytes} :
      Sets ⟨"blob", "archive", .text v⟩ (c, own) ({ c with archive := v }, true)
  | object {c : Config} {own : Bool} {v : Bytes} :
      Sets ⟨"blob", "object", .text v⟩ (c, own) ({ c with object := v }, own)
  | compiler {c : Config} {own : Bool} {v : Bytes} :
      Sets ⟨"toolchain", "compiler", .text v⟩ (c, own)
        ({ c with toolchain := { c.toolchain with compiler := v } }, own)
  | archiver {c : Config} {own : Bool} {v : Bytes} :
      Sets ⟨"toolchain", "archiver", .text v⟩ (c, own)
        ({ c with toolchain := { c.toolchain with archiver := v } }, own)
  | march {c : Config} {own : Bool} {v : Bytes} :
      Sets ⟨"toolchain", "march", .text v⟩ (c, own)
        ({ c with toolchain := { c.toolchain with march := v } }, own)
  | mabi {c : Config} {own : Bool} {v : Bytes} :
      Sets ⟨"toolchain", "mabi", .text v⟩ (c, own)
        ({ c with toolchain := { c.toolchain with mabi := v } }, own)
  | flags {c : Config} {own : Bool} {vs : List Bytes} :
      Sets ⟨"toolchain", "flags", .list vs⟩ (c, own)
        ({ c with toolchain := { c.toolchain with flags := vs } }, own)
  | scripts {c : Config} {own : Bool} {vs : List Bytes} :
      Sets ⟨"link", "scripts", .list vs⟩ (c, own) ({ c with linkScripts := vs }, own)
  | unknown {s : Setting} {c : Config} {own : Bool} (h : s.place ∉ knownKeys) :
      Sets s (c, own) (c, own)

/-- Settings one after the other. -/
inductive SetsAll : List Setting → Config × Bool → Config × Bool → Prop where
  | nil {p : Config × Bool} : SetsAll [] p p
  | cons {s : Setting} {rest : List Setting} {p q r : Config × Bool} (first : Sets s p q)
      (more : SetsAll rest q r) : SetsAll (s :: rest) p r

/-! ## Settings that a text can hold -/

/-- The value is of the kind that its key calls for. -/
def Setting.Kinded (s : Setting) : Prop :=
  match s.value with
  | .text _ => takesList s.sectionName s.key = false
  | .list _ => takesList s.sectionName s.key = true

theorem kinded_of_item {sec text next : Bytes} {settings : List Setting}
    (h : ItemText sec text next settings) : ∀ s ∈ settings, s.Kinded := by
  cases h with
  | header => exact List.forall_mem_nil _
  | assignment _ _ _ _ hvalue =>
      refine List.forall_mem_singleton.mpr ?_
      cases hvalue with
      | text hkind => exact takesList_eq_false_iff.mpr hkind
      | list hkind => exact takesList_iff.mpr hkind

theorem kinded_of_line {sec text next : Bytes} {settings : List Setting}
    (h : LineText sec text next settings) : ∀ s ∈ settings, s.Kinded := by
  cases h with
  | empty => exact List.forall_mem_nil _
  | item _ hitem => exact kinded_of_item hitem

theorem kinded_of_lines {sec text : Bytes} {settings : List Setting}
    (h : LinesText sec text settings) : ∀ s ∈ settings, s.Kinded := by
  induction h with
  | last h => exact kinded_of_line h
  | line h _ ih => exact List.forall_mem_append.mpr ⟨kinded_of_line h, ih⟩

/-- Such a setting is of a key that is known, of one that is not, or of
one of the two keys that take a list. -/
theorem Setting.Kinded.cases {s : Setting} (h : s.Kinded) :
    (∃ k value, s = TextKey.setting k value) ∨
    ((∃ value, s.value = .text value) ∧ TextKey.find? s.sectionName s.key = none ∧
      takesList s.sectionName s.key = false) ∨
    (∃ values, s = ⟨"link", "scripts", .list values⟩) ∨
    ∃ values, s = ⟨"toolchain", "flags", .list values⟩ := by
  obtain ⟨sec, key, value⟩ := s
  cases value with
  | text value =>
      cases hfind : TextKey.find? sec key with
      | none => exact Or.inr (Or.inl ⟨⟨value, rfl⟩, rfl, h⟩)
      | some k =>
          have hk : k.spelling = (sec, key) := TextKey.find?_eq_some_iff.mp hfind
          refine Or.inl ⟨k, value, ?_⟩
          rw [TextKey.setting, hk]
  | list values =>
      have hkind : takesList sec key = true := h
      simp only [takesList, Bool.or_eq_true, Bool.and_eq_true, decide_eq_true_eq] at hkind
      rcases hkind with ⟨rfl, rfl⟩ | ⟨rfl, rfl⟩
      · exact Or.inr (Or.inr (Or.inl ⟨values, rfl⟩))
      · exact Or.inr (Or.inr (Or.inr ⟨values, rfl⟩))

theorem mem_knownKeys_iff {sec key : Bytes} :
    (sec, key) ∈ knownKeys ↔ (TextKey.find? sec key).isSome ∨ takesList sec key = true := by
  constructor
  · intro h
    simp only [knownKeys, List.mem_cons, List.not_mem_nil, or_false, Prod.mk.injEq] at h
    rcases h with ⟨rfl, rfl⟩ | ⟨rfl, rfl⟩ | ⟨rfl, rfl⟩ | ⟨rfl, rfl⟩ | ⟨rfl, rfl⟩ | ⟨rfl, rfl⟩ |
      ⟨rfl, rfl⟩ | ⟨rfl, rfl⟩ | ⟨rfl, rfl⟩ | ⟨rfl, rfl⟩ | ⟨rfl, rfl⟩ <;> decide
  · rintro (h | h)
    · obtain ⟨k, hk⟩ := Option.isSome_iff_exists.mp h
      rw [← TextKey.find?_eq_some_iff.mp hk]
      cases k <;> decide
    · rcases takesList_iff.mp h with ⟨rfl, rfl⟩ | ⟨rfl, rfl⟩ <;> decide

/-- The known keys of a text are those that the reader knows. -/
theorem Setting.Kinded.isKnown_iff {s : Setting} (h : s.Kinded) :
    s.isKnown = true ↔ s.place ∈ knownKeys := by
  obtain ⟨sec, key, value⟩ := s
  rw [Setting.place, mem_knownKeys_iff]
  cases value with
  | text value =>
      have hkind : takesList sec key = false := h
      simp [Setting.isKnown, hkind]
  | list values => exact ⟨fun _ => Or.inr h, fun _ => rfl⟩

/-- A draft without its warnings. -/
def Draft.standing (d : Draft) : Config × Bool := (d.config, d.archiveSet)

theorem give_of_unknown {s : Setting} (h : s.Kinded) (hunknown : s.place ∉ knownKeys)
    (d : Draft) : d.give s = d := by
  rw [← h.isKnown_iff] at hunknown
  obtain ⟨sec, key, value⟩ := s
  cases value with
  | text value =>
      have hfind : TextKey.find? sec key = none := by
        simpa [Setting.isKnown] using hunknown
      simp only [Draft.give, hfind]
  | list values => exact absurd rfl hunknown

/-- A setting of the right kind does what it says. -/
theorem sets_give {s : Setting} (h : s.Kinded) (d : Draft) :
    Sets s d.standing (d.give s).standing := by
  obtain ⟨c, own, warnings⟩ := d
  by_cases hknown : s.place ∈ knownKeys
  · rcases h.cases with ⟨k, value, rfl⟩ | ⟨⟨value, hvalue⟩, hfind, -⟩ | ⟨values, rfl⟩ |
      ⟨values, rfl⟩
    · rw [give_setting]
      cases k with
      | name =>
          cases own with
          | false => exact .name
          | true => exact .nameOnly
      | source => exact .source
      | outDir => exact .outDir
      | archive => exact .archive
      | object => exact .object
      | compiler => exact .compiler
      | archiver => exact .archiver
      | march => exact .march
      | mabi => exact .mabi
    · have hisKnown := h.isKnown_iff.mpr hknown
      rw [Setting.isKnown, hvalue] at hisKnown
      simp only [hfind] at hisKnown
      cases hisKnown
    · rw [give_scripts]
      exact .scripts
    · rw [give_flags]
      exact .flags
  · rw [give_of_unknown h hknown]
    exact .unknown hknown

/-- It does nothing else. -/
theorem sets_iff {s : Setting} (h : s.Kinded) {d : Draft} {q : Config × Bool} :
    Sets s d.standing q ↔ q = (d.give s).standing := by
  refine ⟨fun hsets => ?_, fun hq => hq ▸ sets_give h d⟩
  obtain ⟨c, own, warnings⟩ := d
  generalize hp : Draft.standing ⟨c, own, warnings⟩ = p at hsets
  cases hsets with
  | unknown hunknown =>
      rw [give_of_unknown h hunknown]
      exact hp.symm
  | scripts =>
      obtain ⟨rfl, rfl⟩ := Prod.mk.inj hp
      rw [give_scripts]
      rfl
  | flags =>
      obtain ⟨rfl, rfl⟩ := Prod.mk.inj hp
      rw [give_flags]
      rfl
  | _ =>
      obtain ⟨rfl, rfl⟩ := Prod.mk.inj hp
      rfl

/-! ## All settings of a text -/

theorem setsAll_iff {settings : List Setting} (h : ∀ s ∈ settings, s.Kinded) {d : Draft}
    {q : Config × Bool} :
    SetsAll settings d.standing q ↔ q = (settings.foldl Draft.give d).standing := by
  induction settings generalizing d with
  | nil =>
      constructor
      · intro hall
        cases hall
        rfl
      · rintro rfl
        exact .nil
  | cons s rest ih =>
      obtain ⟨hs, hrest⟩ := List.forall_mem_cons.mp h
      constructor
      · intro hall
        cases hall with
        | cons first more =>
            rw [(sets_iff hs).mp first] at more
            exact (ih hrest).mp more
      · intro hq
        exact .cons (sets_give hs d) ((ih hrest).mpr hq)

theorem ignored_eq {settings : List Setting} (h : ∀ s ∈ settings, s.Kinded) :
    ignored settings = (settings.map Setting.place).filter (· ∉ knownKeys) := by
  rw [ignored, List.filter_map]
  refine congrArg (List.map Setting.place) (List.filter_congr fun s hs => ?_)
  cases hknown : s.isKnown with
  | true => simp [(h s hs).isKnown_iff.mp hknown]
  | false =>
      have hunknown : s.place ∉ knownKeys := fun hmem => by
        rw [(h s hs).isKnown_iff.mpr hmem] at hknown
        cases hknown
      simp [hunknown]

/-- A text is read exactly if it is a manifest. What is read is what its
settings make of the base configuration, one after the other, and the keys
that are warned of are those that are not known, in their order. -/
theorem read_eq_some_iff (text : Bytes) (base : Config) :
    ((∃ config, (read text base).config = some config) ↔
      ∃ settings, ManifestText text settings) ∧
    ∀ config warned, (read text base).config = some config ∧
        (read text base).warnings.map Warning.subject = warned ↔
      ∃ settings own, ManifestText text settings ∧
        SetsAll settings (base, false) (config, own) ∧
        warned = (settings.map Setting.place).filter (· ∉ knownKeys) := by
  have hall : ∀ {settings config own}, ManifestText text settings →
      (SetsAll settings (base, false) (config, own) ↔
        (config, own) = (settings.foldl Draft.give ⟨base, false, []⟩).standing) :=
    fun htext => setsAll_iff (kinded_of_lines htext) (d := ⟨base, false, []⟩)
  constructor
  · constructor
    · rintro ⟨config, hconfig⟩
      obtain ⟨settings, htext, -, -⟩ := read_iff_configured.mp ⟨hconfig, rfl⟩
      exact ⟨settings, htext⟩
    · rintro ⟨settings, htext⟩
      exact ⟨_, (read_of_text htext base).1⟩
  intro config warned
  rw [read_iff_configured]
  constructor
  · rintro ⟨settings, htext, rfl, rfl⟩
    exact ⟨settings, _, htext, (hall htext).mpr rfl, ignored_eq (kinded_of_lines htext)⟩
  · rintro ⟨settings, own, htext, hsets, rfl⟩
    exact ⟨settings, htext, congrArg Prod.fst ((hall htext).mp hsets),
      (ignored_eq (kinded_of_lines htext)).symm⟩

/-- A manifest with every kind of line: comments, escapes, an array over
several lines, an archive that is named before the name, and two keys that
are not known. -/
def variedManifest : Bytes :=
  "# firmware\n[blob]\narchive = \"own.a\"\n name\t= \"a\\tb\" # kept\ncolour = \"red\"\n" ++
  "[ toolchain ]\nflags = [\"-g\", # debug\n  \"-DX=\\\"1\\\"\",]\n\n[other]\nkey = \"\"\n" ++
  "[link]\nscripts = [ ]"

theorem read_eq_some_iff_variedManifest :
    let config : Config :=
      { name := "a\tb", archive := "own.a", toolchain := { flags := ["-g", "-DX=\"1\""] },
        linkScripts := [] }
    (read variedManifest {}).config = some config ∧
      (read variedManifest {}).warnings.map Warning.subject
        = ([("blob", "colour"), ("other", "key")] : List (Bytes × Bytes)) := by
  intro config
  let settings : List Setting :=
    [⟨"blob", "archive", .text "own.a"⟩, ⟨"blob", "name", .text "a\tb"⟩,
     ⟨"blob", "colour", .text "red"⟩, ⟨"toolchain", "flags", .list ["-g", "-DX=\"1\""]⟩,
     ⟨"other", "key", .text ""⟩, ⟨"link", "scripts", .list []⟩]
  have hreads : Reads [] (Cursor.skipSpace ⟨variedManifest, 1⟩) settings :=
    ⟨by decide +kernel, by decide +kernel⟩
  have hcolour : (Bytes.ofString "blob", Bytes.ofString "colour") ∉ knownKeys := by decide
  have hother : (Bytes.ofString "other", Bytes.ofString "key") ∉ knownKeys := by decide
  have hsets : SetsAll settings ({}, false) (config, true) :=
    .cons .archive <| .cons .nameOnly <| .cons (.unknown hcolour) <| .cons .flags <|
      .cons (.unknown hother) <| .cons .scripts .nil
  exact ((read_eq_some_iff variedManifest {}).2 config _).mpr
    ⟨settings, true, reads_iff.mp hreads, hsets, by decide⟩

end Prebuilt.Manifest
