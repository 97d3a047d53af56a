import Prebuilt.Proofs.FileTree.Changes
import Prebuilt.Proofs.FileTree.Content

/-!
# Copying a file

A path to a file ends with the name under which the file lies in its
directory (`spot_of_isRegularFile`). A copy changes one location, that of
its target, which holds the content of the source then and is another
file than the source (`of_copy_eq_ok`).
-/

namespace Prebuilt

/-! ## The last name of a path -/

namespace Path

theorem notMem_fileName (p : Path) : '/'.toUInt8 ∉ p.fileName := by
  obtain ⟨-, -, -, hname⟩ := Bytes.exists_eq_append_afterLast (fun c : UInt8 => c = '/') p
  exact fun hmem => absurd rfl (of_decide_eq_false (hname _ hmem))

/-- The file name is the last name of the path. -/
theorem splitOn_eq_concat (p : Path) :
    ∃ names, List.splitOn '/'.toUInt8 p = names ++ [p.fileName] := by
  obtain ⟨front, hp, hfront, -⟩ :=
    Bytes.exists_eq_append_afterLast (fun c : UInt8 => c = '/') p
  have hsplit : p = front ++ p.fileName := hp
  have hname : List.splitOn '/'.toUInt8 p.fileName = [p.fileName] :=
    List.splitOn_eq_singleton p.notMem_fileName
  cases hlast : front.getLast? with
  | none =>
      rw [List.getLast?_eq_none_iff.mp hlast, List.nil_append] at hsplit
      exact ⟨[], by rw [List.nil_append, ← hname, ← hsplit]⟩
  | some c =>
      obtain rfl : c = '/'.toUInt8 := of_decide_eq_true (hfront c hlast)
      obtain ⟨dirs, rfl⟩ := List.getLast?_eq_some_iff.mp hlast
      rw [List.append_assoc, List.singleton_append] at hsplit
      exact ⟨List.splitOn '/'.toUInt8 dirs, by
        rw [← hname, ← List.splitOn_append_cons_self, ← hsplit]⟩

end Path

namespace FileTree

open Prebuilt.Path

variable {t t' : FileTree} {p : Path}

/-- A path to a file leads to its own file name in some directory. -/
theorem spot_of_isRegularFile (ht : t.WellFormed) (hp : t.isRegularFile p = true) :
    IsName p.fileName ∧ ∃ here, p.spot t.workingDirectory = here ++ [p.fileName] := by
  obtain ⟨content, x, hstat⟩ := isRegularFile_eq_true_iff.mp hp
  obtain ⟨-, hway, hfile⟩ := stat_eq_ok_iff_lookup.mp hstat
  obtain ⟨names, hnames⟩ := p.splitOn_eq_concat
  have hhere : t.lookup (follow (origin t.workingDirectory p) names) = some .directory := by
    apply hway
    rw [way, hnames, passes_append]
    exact List.mem_append_right _ (List.mem_singleton_self _)
  have hspot : p.spot t.workingDirectory
      = turn (follow (origin t.workingDirectory p) names) p.fileName := by
    rw [spot, hnames, follow_append]
    rfl
  rw [hspot, turn] at hfile
  by_cases hstays : staysPut p.fileName
  · rw [if_pos hstays, hhere] at hfile
    cases hfile
  by_cases hdots : p.fileName = ".."
  · rw [if_neg hstays, if_pos hdots, ht.parent hhere] at hfile
    cases hfile
  rw [if_neg hstays, if_neg hdots] at hfile
  refine ⟨ht.isName_last hfile, follow (origin t.workingDirectory p) names, ?_⟩
  rw [hspot, turn, if_neg hstays, if_neg hdots]

/-! ## Copies -/

/-- What a copy does. -/
theorem of_copy_eq_ok {source target : Path} (h : t.copy source target = .ok t') :
    ∃ l k content x, t.resolve source = .ok l ∧ t.lookup l = some (.file content x) ∧
      t.resolve target = .ok k ∧ k ≠ l ∧ t.lookup k ≠ some .directory ∧
      t'.lookup k = some (.file content x) ∧ ChangedOnly (· = k) t t' := by
  rw [copy] at h
  cases hl : t.resolve source with
  | error fault =>
      rw [hl] at h
      cases h
  | ok l =>
      rw [hl] at h
      dsimp only at h
      split at h
      · cases h
      · cases h
      · rename_i content x hfile
        split at h
        · cases h
        · cases h
        · rename_i t₁ k hopen
          by_cases hkl : k = l
          · rw [if_pos hkl] at h
            cases h
          rw [if_neg hkl] at h
          obtain rfl := Except.ok.inj h
          obtain ⟨hput, hheld⟩ := changedOnly_openFile_put hopen content x
          exact ⟨l, k, content, x, rfl, hfile, (changedOnly_openFile hopen).1, hkl,
            lookup_of_openFile hopen, hheld, hput⟩

end FileTree

end Prebuilt
