import Prebuilt.Proofs.FileTree.Changes

/-!
# Trees that cannot be told apart

Two trees are the same if they hold the same at every location. They may
still list their entries in another order, or have had other locations
emptied before; no path shows the difference, and whatever is changed by
path is changed in both of them alike.
-/

namespace Prebuilt.FileTree

/-- The same is at every location. -/
structure Same (t t' : FileTree) : Prop where
  workingDirectory : t'.workingDirectory = t.workingDirectory
  lookup : ∀ k, t'.lookup k = t.lookup k

namespace Same

variable {t t' : FileTree}

theorem refl (t : FileTree) : Same t t := ⟨rfl, fun _ => rfl⟩

/-! ## Questions -/

theorem resolve (h : Same t t') (p : Path) : t'.resolve p = t.resolve p :=
  resolve_congr h.workingDirectory fun k _ => h.lookup k

theorem stat (h : Same t t') (p : Path) : t'.stat p = t.stat p :=
  stat_congr h.workingDirectory fun k _ => h.lookup k

theorem pathExists (h : Same t t') (p : Path) : t'.pathExists p = t.pathExists p := by
  rw [FileTree.pathExists, FileTree.pathExists, h.stat]

theorem isDirectory (h : Same t t') (p : Path) : t'.isDirectory p = t.isDirectory p := by
  rw [FileTree.isDirectory, FileTree.isDirectory, h.stat]

theorem isRegularFile (h : Same t t') (p : Path) : t'.isRegularFile p = t.isRegularFile p := by
  rw [FileTree.isRegularFile, FileTree.isRegularFile, h.stat]

theorem read? (h : Same t t') (p : Path) : t'.read? p = t.read? p := read?_congr (h.stat p)

theorem names_eq_nil_iff (h : Same t t') (l : Location) : t'.names l = [] ↔ t.names l = [] := by
  simp only [FileTree.names_eq_nil_iff, h.lookup]

/-! ## Changes -/

theorem put (h : Same t t') (l : Location) (e : Entry) : Same (t.put l e) (t'.put l e) := by
  refine ⟨h.workingDirectory, fun k => ?_⟩
  by_cases hk : k = []
  · rw [hk, lookup_root, lookup_root]
  · rw [lookup_put t' hk, lookup_put t hk, h.lookup]

theorem erase (h : Same t t') (l : Location) : Same (t.erase l) (t'.erase l) := by
  refine ⟨h.workingDirectory, fun k => ?_⟩
  by_cases hk : k = []
  · rw [hk, lookup_root, lookup_root]
  · rw [lookup_erase t' hk, lookup_erase t hk, h.lookup]

/-- Two changes have come to the same. -/
inductive Outcome : Except Fault FileTree → Except Fault FileTree → Prop
  | error (fault : Fault) : Outcome (.error fault) (.error fault)
  | ok {t t' : FileTree} (h : Same t t') : Outcome (.ok t) (.ok t')

theorem remove (h : Same t t') (p : Path) : Outcome (t.remove p) (t'.remove p) := by
  rw [FileTree.remove, FileTree.remove, h.resolve]
  cases t.resolve p with
  | error fault => exact .error fault
  | ok l =>
      dsimp only
      rw [h.lookup]
      cases t.lookup l with
      | none => exact .error _
      | some e =>
          cases e with
          | file content x => exact .ok (h.erase l)
          | directory =>
              dsimp only
              simp only [h.names_eq_nil_iff]
              split
              · exact .error _
              split
              · exact .error _
              split
              · exact .error _
              split
              · exact .ok (h.erase l)
              · exact .error _

theorem write (h : Same t t') (p : Path) (content : Bytes) (x : Bool) :
    Outcome (t.write p content x) (t'.write p content x) := by
  rw [FileTree.write, FileTree.write, openFile, openFile, h.resolve]
  cases t.resolve p with
  | error fault => exact .error fault
  | ok l =>
      dsimp only
      rw [h.lookup]
      cases t.lookup l with
      | none => exact .ok ((h.put l _).put l _)
      | some e =>
          cases e with
          | file content' x' => exact .ok (h.put l _)
          | directory => exact .error _

end Same

end Prebuilt.FileTree
