import Prebuilt.Proofs.FileTree.Route

/-!
# What becomes of a file

Between two trees a file at a path is kept as it is, or it is lost.
`Fate` names the case in which it is lost; fates compose, and what is
lost stays lost (`Fate.trans`). In a tree that has only shrunk a file is
lost exactly if its path leads nowhere (`fate_of_extends`), which after
erasing locations means that one of them is on the route of the path
(`pathExists_eraseAll_eq_false_iff`).
-/

namespace Prebuilt.FileTree

variable {t t' t'' : FileTree} {p : Path} {content : Bytes}

/-! ## Contents -/

/-- The content of the regular file that a path leads to. -/
def content? (t : FileTree) (p : Path) : Option Bytes :=
  match t.stat p with
  | .ok (.file content _) => some content
  | .ok .directory => none
  | .error _ => none

theorem content?_eq_some_iff :
    t.content? p = some content ↔ ∃ x, t.stat p = .ok (.file content x) := by
  unfold content?
  cases t.stat p with
  | error e => simp
  | ok e => cases e <;> simp

theorem isRegularFile_of_content? (h : t.content? p = some content) :
    t.isRegularFile p = true := by
  obtain ⟨x, hx⟩ := content?_eq_some_iff.mp h
  exact isRegularFile_eq_true_iff.mpr ⟨content, x, hx⟩

theorem content?_eq_none_of_pathExists (h : t.pathExists p = false) : t.content? p = none := by
  rw [Option.eq_none_iff_forall_ne_some]
  intro content hcontent
  obtain ⟨x, hx⟩ := content?_eq_some_iff.mp hcontent
  rw [pathExists_eq_true_iff.mpr ⟨_, hx⟩] at h
  cases h

theorem content?_congr (h : t'.stat p = t.stat p) : t'.content? p = t.content? p := by
  unfold content?
  rw [h]

theorem Extends.content? (h : Extends t t') (hc : t.content? p = some content) :
    t'.content? p = some content := by
  obtain ⟨x, hx⟩ := content?_eq_some_iff.mp hc
  exact content?_eq_some_iff.mpr ⟨x, h.stat hx⟩

theorem Extends.content?_eq_none (h : Extends t t') (hnone : t'.content? p = none) :
    t.content? p = none := by
  rw [Option.eq_none_iff_forall_ne_some] at hnone ⊢
  exact fun content hcontent => hnone content (h.content? hcontent)

/-! ## Fates -/

/-- A file is as it was, or there is no file any more: the latter exactly
in the case named. -/
structure Fate (p : Path) (t t' : FileTree) (lost : Prop) : Prop where
  gone : lost → t'.content? p = none
  kept : ¬ lost → t'.content? p = t.content? p

namespace Fate

variable {lost lost' : Prop}

theorem of_eq (h : t'.content? p = t.content? p) : Fate p t t' False := ⟨nofun, fun _ => h⟩

theorem congr (h : Fate p t t' lost) (hiff : lost ↔ lost') : Fate p t t' lost' :=
  ⟨fun hlost => h.gone (hiff.mpr hlost), fun hkept => h.kept (mt hiff.mp hkept)⟩

/-- What is lost stays lost. -/
theorem trans (h : Fate p t t' lost) (h' : Fate p t' t'' lost') :
    Fate p t t'' (lost ∨ lost') := by
  refine ⟨fun hlost => ?_, fun hkept => ?_⟩
  · by_cases hlost' : lost'
    · exact h'.gone hlost'
    · exact (h'.kept hlost').trans (h.gone (hlost.resolve_right hlost'))
  · obtain ⟨hkept, hkept'⟩ := not_or.mp hkept
    exact (h'.kept hkept').trans (h.kept hkept)

theorem then_same (h : Fate p t t' lost) (h' : t''.content? p = t'.content? p) :
    Fate p t t'' lost := (h.trans (of_eq h')).congr (iff_of_eq (or_false _))

theorem content?_iff (h : Fate p t t' lost) (hc : t.content? p = some content) :
    t'.content? p = some content ↔ ¬ lost := by
  refine ⟨fun hkept hlost => ?_, fun hkept => (h.kept hkept).trans hc⟩
  rw [h.gone hlost] at hkept
  cases hkept

end Fate

/-- A shrunken tree has lost a file exactly if nothing is at its path. -/
theorem fate_of_extends (h : Extends t' t) : Fate p t t' (t'.pathExists p = false) := by
  refine ⟨content?_eq_none_of_pathExists, fun hexists => ?_⟩
  obtain ⟨e, he⟩ := pathExists_eq_true_iff.mp (Bool.not_eq_false _ ▸ hexists)
  exact content?_congr (he.trans (h.stat he).symm)

/-! ## Erased locations -/

variable {ls : List Location} {l : Location}

theorem pathExists_eraseAll_eq_false_iff (hne : ∀ l ∈ ls, l ≠ []) (hex : t.pathExists p = true) :
    (t.eraseAll ls).pathExists p = false ↔
      ∃ l ∈ ls, l ∈ p.spot t.workingDirectory :: p.way t.workingDirectory := by
  constructor
  · intro hgone
    refine Decidable.byContradiction fun hnone => ?_
    have hsame : (t.eraseAll ls).stat p = t.stat p :=
      stat_eraseAll_of_notMem fun l hl hmem => hnone ⟨l, hl, hmem⟩
    rw [pathExists, hsame, ← pathExists, hex] at hgone
    cases hgone
  · rintro ⟨l, hl, hmem⟩
    exact pathExists_eraseAll_of_mem hl (hne l hl) hmem

theorem pathExists_erase_eq_false_iff (hl : l ≠ []) (hex : t.pathExists p = true) :
    (t.erase l).pathExists p = false ↔
      l ∈ p.spot t.workingDirectory :: p.way t.workingDirectory := by
  rw [← eraseAll_singleton, pathExists_eraseAll_eq_false_iff (by simpa using hl) hex]
  simp only [List.mem_singleton, exists_eq_left]

end Prebuilt.FileTree
