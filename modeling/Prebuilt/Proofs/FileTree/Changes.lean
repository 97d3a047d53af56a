import Prebuilt.Proofs.FileTree.WellFormed

/-!
# What has changed between two trees

`ChangedOnly P t t'` says that a change from `t` to `t'` has kept to the
locations of the class `P`: everything else holds what it held, and a
path that does not come there leads to what it led to. Opening a file
or removing it changes no more than where its path leads, and whoever
writes under a path and leaves a file where there was none has `Added`
that file.
-/

namespace Prebuilt.FileTree

/-- Nothing but these locations has changed. -/
structure ChangedOnly (P : Location → Prop) (t t' : FileTree) : Prop where
  workingDirectory : t'.workingDirectory = t.workingDirectory
  lookup : ∀ k, ¬ P k → t'.lookup k = t.lookup k

namespace ChangedOnly

variable {P Q : Location → Prop} {t t' t'' : FileTree}

theorem refl (t : FileTree) : ChangedOnly P t t := ⟨rfl, fun _ _ => rfl⟩

theorem trans (h : ChangedOnly P t t') (h' : ChangedOnly P t' t'') : ChangedOnly P t t'' :=
  ⟨h'.workingDirectory.trans h.workingDirectory,
    fun k hk => (h'.lookup k hk).trans (h.lookup k hk)⟩

theorem mono (h : ChangedOnly P t t') (hPQ : ∀ k, P k → Q k) : ChangedOnly Q t t' :=
  ⟨h.workingDirectory, fun k hk => h.lookup k fun hP => hk (hPQ k hP)⟩

/-- What a path does not come to makes no difference to it. -/
theorem stat_eq {p : Path} (h : ChangedOnly P t t')
    (hp : ∀ k ∈ p.spot t.workingDirectory :: p.way t.workingDirectory, ¬ P k) :
    t'.stat p = t.stat p := stat_congr h.workingDirectory fun k hk => h.lookup k (hp k hk)

end ChangedOnly

variable {P : Location → Prop}

theorem changedOnly_put (t : FileTree) {l : Location} (hl : P l) (e : Entry) :
    ChangedOnly P t (t.put l e) := by
  refine ⟨rfl, fun k hk => lookup_put_of_ne t ?_⟩
  rintro rfl
  exact hk hl

/-- Removing changes no more than where the path leads. -/
theorem changedOnly_remove {t t' : FileTree} {p : Path} (h : t.remove p = .ok t') :
    ChangedOnly (· = p.spot t.workingDirectory) t t' := by
  obtain ⟨l, hl, -, rfl, -⟩ := remove_eq_ok_iff.mp h
  obtain ⟨-, -, rfl⟩ := resolve_eq_ok_iff.mp hl
  exact ⟨rfl, fun k hk => lookup_erase_of_ne t hk⟩

theorem workingDirectory_append (t : FileTree) (h : Handle) (more : Bytes) :
    (t.append h more).workingDirectory = t.workingDirectory := by
  unfold append
  split <;> rfl

/-- Writing to an open file changes that file. -/
theorem changedOnly_append (t : FileTree) {h : Handle} (hl : P h.location) (more : Bytes) :
    ChangedOnly P t (t.append h more) := by
  refine ⟨workingDirectory_append t h more, fun k hk => lookup_append_of_ne t ?_ more⟩
  rintro rfl
  exact hk hl

/-- Opening a file changes no other, and leads to where the path leads. -/
theorem changedOnly_openFile {t t' : FileTree} {p : Path} {l : Location}
    (h : t.openFile p = .ok (t', l)) : t.resolve p = .ok l ∧
      ChangedOnly (fun k => t.resolve p = .ok k) t t' := by
  rw [openFile] at h
  cases hl : t.resolve p with
  | error fault =>
      rw [hl] at h
      cases h
  | ok l' =>
      rw [hl] at h
      dsimp only at h
      split at h
      · cases h
      · obtain ⟨rfl, rfl⟩ := Prod.mk.inj (Except.ok.inj h)
        exact ⟨rfl, .refl t⟩
      · obtain ⟨rfl, rfl⟩ := Prod.mk.inj (Except.ok.inj h)
        have hput : ChangedOnly (fun k => l' = k) t (t.put l' (.file [] false)) :=
          changedOnly_put t rfl _
        exact ⟨rfl, hput.mono fun k hk => congrArg _ hk⟩

/-- A directory is not opened for writing. -/
theorem lookup_of_openFile {t t' : FileTree} {p : Path} {l : Location}
    (h : t.openFile p = .ok (t', l)) : t.lookup l ≠ some .directory := by
  intro hdir
  rw [openFile, (changedOnly_openFile h).1] at h
  dsimp only at h
  rw [hdir] at h
  cases h

/-- A file that was opened and then given its content. -/
theorem changedOnly_openFile_put {t t' : FileTree} {p : Path} {l : Location}
    (h : t.openFile p = .ok (t', l)) (content : Bytes) (x : Bool) :
    ChangedOnly (· = l) t (t'.put l (.file content x)) ∧
      (t'.put l (.file content x)).lookup l = some (.file content x) := by
  obtain ⟨hl, hopened⟩ := changedOnly_openFile h
  have hroot : l ≠ [] := by
    rintro rfl
    exact lookup_of_openFile h (lookup_root t)
  refine ⟨?_, by rw [lookup_put t' hroot, if_pos rfl]⟩
  exact (hopened.mono fun k hk => (Except.ok.inj (hl.symm.trans hk)).symm).trans
    (changedOnly_put (P := (· = l)) t' rfl _)

/-! ## What opening a file shows -/

theorem isSome_read? (t : FileTree) (p : Path) : (t.read? p).isSome = t.pathExists p := by
  unfold read? pathExists
  cases t.stat p with
  | error fault => rfl
  | ok e => cases e <;> rfl

theorem read?_congr {t t' : FileTree} {p : Path} (h : t'.stat p = t.stat p) :
    t'.read? p = t.read? p := by
  unfold read?
  rw [h]

/-- An empty file where nothing was leads no path to anything else: it is
no directory on the way. -/
theorem read?_put_of_free {t : FileTree} {l : Location} (hfree : t.lookup l = none) (p : Path) :
    (t.put l (.file [] false)).read? p = t.read? p ∨
      t.read? p = none ∧ (t.put l (.file [] false)).read? p = some [] := by
  cases hstat : t.stat p with
  | ok e =>
      left
      exact read?_congr (((extends_put hfree).stat hstat).trans hstat.symm)
  | error fault =>
      have hnone : t.read? p = none := by rw [read?, hstat]
      rw [hnone]
      cases hput : (t.put l (.file [] false)).stat p with
      | error fault' =>
          left
          rw [read?, hput]
      | ok e =>
          right
          refine ⟨rfl, ?_⟩
          obtain ⟨hlegible, hway, hspot⟩ := stat_eq_ok_iff_lookup.mp hput
          have hold : ∀ {k : Location} {e' : Entry},
              (t.put l (.file [] false)).lookup k = some e' →
                t.lookup k = some e' ∨ e' = .file [] false := by
            intro k e' he'
            by_cases hk : k = []
            · rw [hk, lookup_root] at he' ⊢
              exact Or.inl he'
            · rw [lookup_put t hk] at he'
              split at he'
              · exact Or.inr (Option.some.inj he').symm
              · exact Or.inl he'
          rcases hold hspot with hlookup | rfl
          · have hstat' : t.stat p = .ok e := stat_eq_ok_iff_lookup.mpr
              ⟨hlegible, fun k hk => (hold (hway k hk)).resolve_right nofun, hlookup⟩
            rw [hstat'] at hstat
            cases hstat
          · rw [read?, hput]

/-- Opening a file for writing shows in what can be read only as an empty
file where nothing was. -/
theorem read?_openFile {t t' : FileTree} {p : Path} {l : Location}
    (h : t.openFile p = .ok (t', l)) (q : Path) :
    t'.read? q = t.read? q ∨ t.read? q = none ∧ t'.read? q = some [] := by
  rw [openFile] at h
  split at h
  · cases h
  split at h
  · cases h
  · obtain ⟨rfl, -⟩ := Prod.mk.inj (Except.ok.inj h)
    exact Or.inl rfl
  · rename_i hfree
    obtain ⟨rfl, -⟩ := Prod.mk.inj (Except.ok.inj h)
    exact read?_put_of_free hfree q

/-! ## New files -/

/-- Where writing under the path puts a file. -/
def WrittenAt (t : FileTree) (p : Path) (l : Location) : Prop :=
  t.resolve p = .ok l ∧ t.lookup l ≠ some .directory

/-- Writing changes nothing but the file under the path, which is there
then. -/
theorem changedOnly_write {t t' : FileTree} {p : Path} {content : Bytes} {x : Bool}
    (h : t.write p content x = .ok t') :
    ChangedOnly (t.WrittenAt p) t t' ∧ t'.isRegularFile p = true := by
  rw [write] at h
  cases hopen : t.openFile p with
  | error fault =>
      rw [hopen] at h
      cases h
  | ok opened =>
      obtain ⟨t₁, l⟩ := opened
      rw [hopen] at h
      obtain rfl := Except.ok.inj h
      have hwritten : t.WrittenAt p l :=
        ⟨(changedOnly_openFile hopen).1, lookup_of_openFile hopen⟩
      obtain ⟨hput, hfile⟩ := changedOnly_openFile_put hopen content x
      refine ⟨hput.mono fun k hk => hk ▸ hwritten, isRegularFile_eq_true_iff.mpr
        ⟨content, x, stat_eq_ok_iff.mpr ⟨l, ?_, hfile⟩⟩⟩
      obtain ⟨-, hway, -⟩ := resolve_eq_ok_iff.mp hwritten.1
      rw [← hwritten.1]
      refine resolve_congr hput.workingDirectory fun k hk => hput.lookup k ?_
      rintro rfl
      exact hwritten.2 (hway _ hk)

/-- There is a file under the path where nothing was, and nothing else
has changed. -/
structure Added (p : Path) (l : Location) (t t' : FileTree) : Prop where
  resolve : t'.resolve p = .ok l
  free : t.lookup l = none
  file : ∃ content x, t'.lookup l = some (.file content x)
  only : ChangedOnly (· = l) t t'

theorem added_of_written {t t' : FileTree} {p : Path} (h : ChangedOnly (t.WrittenAt p) t t')
    (hfree : t.isRegularFile p = false) (hmade : t'.isRegularFile p = true) :
    Added p (p.spot t.workingDirectory) t t' := by
  obtain ⟨content, x, hstat⟩ := isRegularFile_eq_true_iff.mp hmade
  have hspot : ∀ k, t.WrittenAt p k → k = p.spot t.workingDirectory := fun k hk =>
    (resolve_eq_ok_iff.mp hk.1).2.2.symm
  have hwritten : t.WrittenAt p (p.spot t.workingDirectory) := by
    refine Classical.byContradiction fun hnot => ?_
    have hsame : t'.stat p = t.stat p := h.stat_eq fun k _ hk => hnot (hspot k hk ▸ hk)
    rw [hsame] at hstat
    rw [isRegularFile_eq_true_iff.mpr ⟨content, x, hstat⟩] at hfree
    cases hfree
  obtain ⟨l, hl, hfile⟩ := stat_eq_ok_iff.mp hstat
  obtain rfl : p.spot t.workingDirectory = l := by
    rw [← h.workingDirectory]
    exact (resolve_eq_ok_iff.mp hl).2.2
  refine ⟨hl, ?_, ⟨content, x, hfile⟩, h.mono hspot⟩
  cases hlookup : t.lookup (p.spot t.workingDirectory) with
  | none => rfl
  | some e =>
      cases e with
      | directory => exact absurd hlookup hwritten.2
      | file content' x' =>
          rw [isRegularFile_eq_true_iff.mpr
            ⟨content', x', stat_eq_ok_iff.mpr ⟨_, hwritten.1, hlookup⟩⟩] at hfree
          cases hfree

namespace Added

variable {t t' t'' : FileTree} {p q : Path} {l m : Location}

theorem ne_root (h : Added p l t t') : l ≠ [] := by
  rintro rfl
  have hfree := h.free
  rw [lookup_root] at hfree
  cases hfree

/-- A file that was needed only to add another can be removed again. -/
theorem then_erase (h : Added p l t t') (h' : Added q m t' t'') (hne : m ≠ l)
    (hway : l ∉ q.way t''.workingDirectory) : Added q m t (t''.erase l) := by
  refine ⟨?_, ?_, ?_, h'.only.workingDirectory.trans h.only.workingDirectory, fun k hk => ?_⟩
  · have hresolve : (t''.erase l).resolve q = t''.resolve q :=
      resolve_congr rfl fun k hk => lookup_erase_of_ne t'' fun heq => hway (heq ▸ hk)
    rw [hresolve, h'.resolve]
  · rw [← h.only.lookup m hne, h'.free]
  · rw [lookup_erase_of_ne t'' hne]
    exact h'.file
  · by_cases hkl : k = l
    · rw [hkl, lookup_erase t'' h.ne_root, if_pos rfl, h.free]
    · rw [lookup_erase_of_ne t'' hkl, h'.only.lookup k hk, h.only.lookup k hkl]

/-- Without the file, the tree is what it was. -/
theorem lookup_erase (h : Added p l t t') (k : Location) :
    (t'.erase l).lookup k = t.lookup k := by
  by_cases hkl : k = l
  · rw [hkl, FileTree.lookup_erase t' h.ne_root, if_pos rfl, h.free]
  · rw [lookup_erase_of_ne t' hkl, h.only.lookup k hkl]

end Added

end Prebuilt.FileTree
