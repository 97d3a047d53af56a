import Mathlib.Data.List.TakeWhile
import Prebuilt.Archive
import Prebuilt.Proofs.FileTree.WellFormed

/-!
# What is listed as an archive

The archives of a directory are the regular files directly in it whose
name has the extension, and `find` lists their paths, each once and in
ascending order, whatever order the directory is read in
(`among_eq_namesAt`).

The extension of a name is what its last dot opens, so it has one dot. A
text that a name ends in is the extension of that name only if it, too,
has one dot and begins with it (`extension_append_eq_iff`). An extension
is *plain* if something stands behind the dot.
-/

namespace Prebuilt

namespace Path

theorem afterLast_of_forall {isSeparator : UInt8 → Bool} {b : Bytes}
    (h : ∀ c ∈ b, isSeparator c = false) : b.afterLast isSeparator = b := by
  have hb : ∀ c ∈ b.reverse, (!isSeparator c) = true := by
    intro c hc
    rw [h c (List.mem_reverse.mp hc), Bool.not_false]
  rw [Bytes.afterLast, List.takeWhile_eq_self_iff.mpr hb, List.reverse_reverse]

theorem afterLast_append_cons {isSeparator : UInt8 → Bool} {front b : Bytes} {c : UInt8}
    (hc : isSeparator c = true) (h : ∀ d ∈ b, isSeparator d = false) :
    (front ++ c :: b).afterLast isSeparator = b := by
  have hb : ∀ d ∈ b.reverse, (!isSeparator d) = true := by
    intro d hd
    rw [h d (List.mem_reverse.mp hd), Bool.not_false]
  rw [Bytes.afterLast, List.reverse_append, List.reverse_cons, List.append_assoc,
    List.takeWhile_append_of_pos hb, List.singleton_append,
    List.takeWhile_cons_of_neg (by rw [hc]; decide), List.append_nil, List.reverse_reverse]

/-- A dot at the beginning and nowhere else. -/
def OneDot (ext : Bytes) : Prop := ∃ word, ext = '.'.toUInt8 :: word ∧ '.'.toUInt8 ∉ word

instance (ext : Bytes) : Decidable (OneDot ext) :=
  match ext with
  | [] => isFalse fun ⟨_, h, _⟩ => nomatch h
  | c :: word =>
      decidable_of_iff (c = '.'.toUInt8 ∧ '.'.toUInt8 ∉ word)
        ⟨fun ⟨hc, hword⟩ => ⟨word, hc ▸ rfl, hword⟩,
          fun ⟨_, heq, hword⟩ => ⟨(List.cons.inj heq).1, (List.cons.inj heq).2 ▸ hword⟩⟩

theorem oneDot_extension {name : Path} (h : extension name ≠ []) : OneDot (extension name) := by
  unfold extension at h ⊢
  split at h
  · exact absurd rfl h
  · rename_i hdot
    rw [if_neg hdot]
    obtain ⟨-, -, -, hword⟩ := Bytes.exists_eq_append_afterLast (· = '.'.toUInt8) name.fileName
    exact ⟨_, rfl, fun hmem => of_decide_eq_false (hword _ hmem) rfl⟩

/-- Of the names that end in such an extension only `..` does not have it. -/
theorem extension_append_of_oneDot {front ext : Bytes} (hext : OneDot ext) (hfront : front ≠ [])
    (hbare : '/'.toUInt8 ∉ front ++ ext) (hdots : front ++ ext ≠ "..") :
    extension (front ++ ext) = ext := by
  obtain ⟨word, rfl, hdot⟩ := hext
  obtain ⟨c, rest, rfl⟩ := List.exists_cons_of_ne_nil hfront
  have hname : fileName (c :: rest ++ '.'.toUInt8 :: word) = c :: rest ++ '.'.toUInt8 :: word :=
    afterLast_of_forall fun d hd => decide_eq_false fun heq => hbare (heq ▸ hd)
  have htail : '.'.toUInt8 ∈ (c :: rest ++ '.'.toUInt8 :: word).tail := by
    rw [List.cons_append, List.tail_cons]
    exact List.mem_append.mpr (Or.inr (List.mem_cons_self ..))
  rw [extension, hname, if_neg (not_or.mpr ⟨hdots, not_not_intro htail⟩)]
  exact congrArg _ (afterLast_append_cons (decide_eq_true rfl)
    fun d hd => decide_eq_false fun heq => hdot (heq ▸ hd))

theorem extension_append_eq_iff {front ext : Bytes} (hfront : front ≠ []) (hext : ext ≠ [])
    (hbare : '/'.toUInt8 ∉ front ++ ext) (hdots : front ++ ext ≠ "..") :
    extension (front ++ ext) = ext ↔ OneDot ext := by
  constructor
  · intro h
    rw [← h] at hext
    exact h ▸ oneDot_extension hext
  · exact fun h => extension_append_of_oneDot h hfront hbare hdots

/-- A dot and a word without dots. -/
def IsPlainExtension (ext : Bytes) : Prop :=
  ∃ word, ext = '.'.toUInt8 :: word ∧ word ≠ [] ∧ '.'.toUInt8 ∉ word ∧ '/'.toUInt8 ∉ word

theorem extension_append_of_plain {front ext : Bytes} (hext : IsPlainExtension ext)
    (hfront : front ≠ []) (hbare : '/'.toUInt8 ∉ front ++ ext) :
    extension (front ++ ext) = ext := by
  obtain ⟨word, heq, hword, hdot, -⟩ := hext
  refine extension_append_of_oneDot ⟨word, heq, hdot⟩ hfront hbare fun hdots => ?_
  have hlength := congrArg List.length hdots
  have hpos := List.length_pos_iff.mpr hword
  have hpos' := List.length_pos_iff.mpr hfront
  have htwo : (Bytes.ofString "..").length = 2 := rfl
  rw [heq, List.length_append, List.length_cons, htwo] at hlength
  omega

end Path

namespace Archive

open FileTree

variable {files : FileTree} {dir : Path} {l : Location} {ext name : Bytes}

/-- The names of the archives directly in a directory, ascending. -/
def namesAt (files : FileTree) (l : Location) (ext : Bytes) : List Bytes :=
  among files l ext (files.names l)

/-- Archives are listed in ascending order. -/
theorem pairwise_among (order : List Bytes) : (among files l ext order).Pairwise (· ≤ ·) := by
  refine (List.pairwise_mergeSort (fun a b c h h' => ?_) (fun a b => ?_) _).imp of_decide_eq_true
  · exact decide_eq_true (List.le_trans (of_decide_eq_true h) (of_decide_eq_true h'))
  · simpa only [Bool.or_eq_true, decide_eq_true_eq] using List.le_total a b

theorem among_perm (order : List Bytes) : (among files l ext order).Perm (order.filter fun name =>
    ((files.lookup (l ++ [name])).any Entry.isFile) && Path.extension name = ext) :=
  List.mergeSort_perm ..

theorem mem_namesAt :
    name ∈ namesAt files l ext ↔
      (∃ content x, files.lookup (l ++ [name]) = some (.file content x)) ∧
        Path.extension name = ext := by
  rw [namesAt, (among_perm _).mem_iff, List.mem_filter, mem_names, Bool.and_eq_true,
    decide_eq_true_eq]
  cases files.lookup (l ++ [name]) with
  | none => simp
  | some e => cases e <;> simp [Entry.isFile]

theorem nodup_namesAt : (namesAt files l ext).Nodup :=
  (among_perm _).nodup_iff.mpr ((files.nodup_names l).sublist List.filter_sublist)

/-- The same names in ascending order are the same list. -/
theorem eq_of_ascending {a b : List Bytes} (ha : a.Pairwise (· ≤ ·)) (hb : b.Pairwise (· ≤ ·))
    (hperm : a.Perm b) : a = b :=
  hperm.eq_of_pairwise (fun _ _ _ _ h h' => List.le_antisymm h h') ha hb

theorem pairwise_namesAt : (namesAt files l ext).Pairwise (· ≤ ·) := pairwise_among _

theorem pairwise_lt_namesAt : (namesAt files l ext).Pairwise (· < ·) :=
  pairwise_namesAt.imp₂ (fun _ _ h hne => Std.lt_of_le_of_ne h hne) nodup_namesAt

theorem namesAt_eq_of_ascending {names : List Bytes} (h : names.Pairwise (· ≤ ·))
    (hperm : names.Perm ((files.names l).filter fun name =>
      ((files.lookup (l ++ [name])).any Entry.isFile) && Path.extension name = ext)) :
    namesAt files l ext = names :=
  eq_of_ascending pairwise_namesAt h ((among_perm _).trans hperm.symm)

/-- The order in which the directory is read makes no difference. -/
theorem among_eq_namesAt {order : List Bytes} (h : order.Perm (files.names l)) :
    among files l ext order = namesAt files l ext :=
  eq_of_ascending (pairwise_among _) pairwise_namesAt
    ((among_perm _).trans ((h.filter _).trans (among_perm _).symm))

/-- Directories that were made are not listed. -/
theorem namesAt_of_grown {P : Location → Prop} {files' : FileTree} (h : Grown P files files') :
    namesAt files' l ext = namesAt files l ext := by
  refine eq_of_ascending pairwise_namesAt pairwise_namesAt
    ((List.perm_ext_iff_of_nodup nodup_namesAt nodup_namesAt).mpr fun name => ?_)
  rw [mem_namesAt, mem_namesAt]
  simp only [h.lookup_eq_file_iff]

theorem find_of_directory (hl : files.resolve dir = .ok l)
    (hdir : files.lookup l = some .directory) :
    find files dir ext = .ok ((namesAt files l ext).map (Path.join dir)) := by
  rw [find, hl]
  simp only [hdir]
  rfl

end Archive

end Prebuilt
