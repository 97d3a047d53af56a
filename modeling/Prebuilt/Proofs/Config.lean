import Prebuilt.Config

/-!
# What validation promises

`Config.problem?` looks for a reason to refuse a configuration, one
check after the other. `Config.Checked` lists what all the checks leave
true of a configuration that is not refused.
-/

namespace Prebuilt

theorem Toolchain.problem?_eq_none_iff {t : Toolchain} :
    t.problem? = none ↔ isProfile t.march = true ∧ isCallingConvention t.mabi = true := by
  unfold problem?
  cases isProfile t.march <;> cases isCallingConvention t.mabi <;> simp

/-- The bytes of an instruction-set name are letters, digits and
underscores. -/
theorem isProfileByte_of_mem {march : Bytes} (h : isProfile march = true) :
    ∀ c ∈ march, isProfileByte c = true := by
  unfold isProfile at h
  split at h
  · exact List.all_eq_true.mp (Bool.and_eq_true _ _ ▸ h).2
  · cases h

namespace Config

/-- What a configuration without a problem is. -/
structure Checked (c : Config) : Prop where
  source : c.source ≠ []
  outDir : c.outDir ≠ []
  object : c.object ≠ []
  extension : c.archiveExtension ≠ []
  archive : ∃ front, front ≠ [] ∧ c.archive = front ++ c.archiveExtension
  different : c.archive ≠ c.object
  archiveBare : '/'.toUInt8 ∉ c.archive
  objectBare : '/'.toUInt8 ∉ c.object
  toolchain : c.toolchain.problem? = none

theorem archiveNamed_iff {c : Config} :
    c.archiveNamed = true ↔ c.archiveExtension ≠ [] ∧
      ∃ front, front ≠ [] ∧ c.archive = front ++ c.archiveExtension := by
  rw [archiveNamed, Bool.and_eq_true, decide_eq_true_eq]
  refine and_congr_right fun _ => ?_
  cases hfront : c.archive.before? c.archiveExtension with
  | none =>
      refine ⟨nofun, fun ⟨front, _, heq⟩ => ?_⟩
      rw [Bytes.before?_eq_some_iff.mpr heq] at hfront
      cases hfront
  | some front =>
      have heq := Bytes.before?_eq_some_iff.mp hfront
      constructor
      · intro h
        exact ⟨front, of_decide_eq_true h, heq⟩
      · rintro ⟨front', hne, heq'⟩
        obtain rfl : front' = front := List.append_cancel_right (heq'.symm.trans heq)
        exact decide_eq_true hne

theorem Valid.checked {c : Config} (h : c.Valid) : c.Checked := by
  unfold Valid problem? at h
  split at h
  · cases h
  split at h
  · cases h
  split at h
  · cases h
  split at h
  · cases h
  split at h
  · cases h
  split at h
  · cases h
  rename_i hsource houtDir hobject hnamed hdifferent hbare
  simp only [Bool.not_eq_true', Bool.not_eq_false] at hnamed
  simp only [Path.hasParent, Bool.or_eq_true, List.contains_iff_mem, not_or] at hbare
  obtain ⟨hextension, harchive⟩ := archiveNamed_iff.mp hnamed
  exact ⟨hsource, houtDir, hobject, hextension, harchive, hdifferent, hbare.1, hbare.2, h⟩

end Config

end Prebuilt
