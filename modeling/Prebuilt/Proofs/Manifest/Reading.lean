import Prebuilt.Manifest.Reader
import Prebuilt.Proofs.Manifest.Lines

/-!
# What a manifest means

A manifest is read if the grammar has it, and then it means the fold of
its settings over the base configuration, in their order
(`read_iff_configured`). Warnings go beside the fold: there is one for each
setting of a key that is not known, and such a setting does nothing
else, so a draft can be followed without its warnings (`foldl_apply`).
-/

namespace Prebuilt.Manifest

/-! ## Settings without their lines -/

/-- The key of the setting is known. -/
def Setting.isKnown (s : Setting) : Bool :=
  match s.value with
  | .list _ => true
  | .text _ => (TextKey.find? s.sectionName s.key).isSome

/-- The section and the key that a warning is about. -/
def Warning.subject : Warning → Bytes × Bytes
  | .unknownKey sec key _ => (sec, key)
  | .unknownSection sec key _ => (sec, key)

theorem subject_warning (a : Assignment) : a.warning.subject = (a.sectionName, a.key) := by
  unfold Assignment.warning
  split <;> rfl

/-- The keys, with their sections, that a manifest sets in vain. -/
def ignored (settings : List Setting) : List (Bytes × Bytes) :=
  (settings.filter fun s => !s.isKnown).map fun s => (s.sectionName, s.key)

namespace Draft

/-- A draft with one more setting. -/
def give (d : Draft) (s : Setting) : Draft :=
  match s.value with
  | .list values => d.setList s.sectionName values
  | .text value =>
      match TextKey.find? s.sectionName s.key with
      | some key => d.set value key
      | none => d

def withWarnings (d : Draft) (warnings : List Warning) : Draft := { d with warnings := warnings }

theorem set_withWarnings (d : Draft) (warnings : List Warning) (value : Bytes) (key : TextKey) :
    (d.withWarnings warnings).set value key = (d.set value key).withWarnings warnings := by
  cases key <;> rfl

theorem setList_withWarnings (d : Draft) (warnings : List Warning) (sec : Bytes)
    (values : List Bytes) :
    (d.withWarnings warnings).setList sec values
      = (d.setList sec values).withWarnings warnings := by
  unfold setList
  split <;> rfl

theorem give_withWarnings (d : Draft) (warnings : List Warning) (s : Setting) :
    (d.withWarnings warnings).give s = (d.give s).withWarnings warnings := by
  unfold give
  split
  · exact setList_withWarnings ..
  · split
    · exact set_withWarnings ..
    · rfl

theorem foldl_give_withWarnings (settings : List Setting) (d : Draft) (warnings : List Warning) :
    settings.foldl give (d.withWarnings warnings)
      = (settings.foldl give d).withWarnings warnings := by
  induction settings generalizing d with
  | nil => rfl
  | cons s rest ih => rw [List.foldl_cons, give_withWarnings, ih, List.foldl_cons]

theorem withWarnings_set (d : Draft) (value : Bytes) (key : TextKey) :
    (d.set value key).withWarnings d.warnings = d.set value key := by
  cases key <;> rfl

theorem withWarnings_setList (d : Draft) (sec : Bytes) (values : List Bytes) :
    (d.setList sec values).withWarnings d.warnings = d.setList sec values := by
  unfold setList
  split <;> rfl

/-- An assignment does what its setting does, and warns if its key is not
known. -/
theorem apply_eq (d : Draft) (a : Assignment) :
    d.apply a = (d.give a.setting).withWarnings
      (d.warnings ++ if a.setting.isKnown then [] else [a.warning]) := by
  obtain ⟨sec, key, value, line⟩ := a
  cases value with
  | list values =>
      show d.setList sec values = (d.setList sec values).withWarnings (d.warnings ++ [])
      rw [List.append_nil, withWarnings_setList]
  | text value =>
      unfold apply give Setting.isKnown Assignment.setting
      cases TextKey.find? sec key with
      | some key =>
          show d.set value key = (d.set value key).withWarnings (d.warnings ++ [])
          rw [List.append_nil, withWarnings_set]
      | none => rfl

/-- Assignments fold as their settings do, with the warnings put behind
one another. -/
theorem foldl_apply (assignments : List Assignment) (d : Draft) :
    assignments.foldl apply d
      = ((assignments.map Assignment.setting).foldl give d).withWarnings
          (d.warnings ++ (assignments.filter fun a => !a.setting.isKnown).map
            Assignment.warning) := by
  induction assignments generalizing d with
  | nil =>
      show d = d.withWarnings (d.warnings ++ [])
      rw [List.append_nil]
      rfl
  | cons a rest ih =>
      rw [List.foldl_cons, ih, apply_eq, foldl_give_withWarnings, List.map_cons, List.foldl_cons]
      cases hknown : a.setting.isKnown with
      | true =>
          rw [if_pos rfl, List.append_nil, List.filter_cons_of_neg (by rw [hknown]; decide)]
          rfl
      | false =>
          rw [if_neg Bool.false_ne_true, List.filter_cons_of_pos (by rw [hknown]; rfl),
            List.map_cons]
          show withWarnings _ (d.warnings ++ [a.warning] ++ _) = _
          rw [List.append_assoc]
          rfl

end Draft

theorem subjects_eq (assignments : List Assignment) :
    ((assignments.filter fun a => !a.setting.isKnown).map Assignment.warning).map Warning.subject
      = ignored (assignments.map Assignment.setting) := by
  unfold ignored
  rw [List.map_map, List.filter_map, List.map_map]
  exact List.map_congr_left fun a _ => subject_warning a

/-! ## Whole manifests -/

/-- A base configuration with the settings of a manifest. -/
def configured (base : Config) (settings : List Setting) : Config :=
  (settings.foldl Draft.give ⟨base, false, []⟩).config

/-- Reading ends at the end of the text, and then gives the fold of what
was read. -/
theorem read_config (text : Bytes) (base : Config) :
    let reading := items [] (Cursor.skipSpace ⟨text, 1⟩)
    (read text base).config = (if reading.fault.isNone then
      some (configured base (reading.assignments.map Assignment.setting)) else none) := by
  intro reading
  show (if reading.fault.isNone then some _ else none) = _
  rw [Draft.foldl_apply]
  rfl

theorem read_subjects (text : Bytes) (base : Config) :
    (read text base).warnings.map Warning.subject
      = ignored ((items [] (Cursor.skipSpace ⟨text, 1⟩)).assignments.map Assignment.setting) := by
  rw [← subjects_eq]
  show (List.foldl Draft.apply _ _).warnings.map Warning.subject = _
  rw [Draft.foldl_apply]
  rfl

/-- The text of a manifest is read, and means what its settings say. -/
theorem read_of_text {text : Bytes} {settings : List Setting} (h : ManifestText text settings)
    (base : Config) :
    (read text base).config = some (configured base settings) ∧
      (read text base).warnings.map Warning.subject = ignored settings := by
  obtain ⟨hfault, rfl⟩ := reads_of_lines h 1
  rw [read_config, read_subjects, hfault]
  exact ⟨rfl, rfl⟩

/-- A text is read if it is a manifest, and it gives the base
configuration with the manifest's settings, one after the other; the keys
that are not known are warned of, in their order. -/
theorem read_iff_configured {text : Bytes} {base config : Config} {warned : List (Bytes × Bytes)} :
    (read text base).config = some config ∧
        (read text base).warnings.map Warning.subject = warned
      ↔ ∃ settings, ManifestText text settings ∧ config = configured base settings ∧
          warned = ignored settings := by
  constructor
  · rintro ⟨hconfig, rfl⟩
    rw [read_config] at hconfig
    cases hfault : (items [] (Cursor.skipSpace ⟨text, 1⟩)).fault with
    | some fault =>
        rw [hfault] at hconfig
        cases hconfig
    | none =>
        rw [hfault] at hconfig
        exact ⟨_, reads_iff.mp ⟨hfault, rfl⟩, (Option.some.inj hconfig).symm,
          read_subjects text base⟩
  · rintro ⟨settings, htext, rfl, rfl⟩
    exact read_of_text htext base

end Prebuilt.Manifest
