import Prebuilt.Proofs.FileTree.Route

/-!
# Well-formed file trees

A `FileTree` is a list of entries, and some lists describe no file
system. In a *well-formed* tree every location is made of names that a
directory can hold, everything lies in a directory, and the working
directory exists. Making directories keeps it so, makes nothing but
directories on the way of the path, and leads where it should unless it
reports a fault (`made_makeDirectories`).
-/

namespace Prebuilt.FileTree

/-! ## Well-formed trees -/

/-- A name as directories hold them. -/
structure IsName (name : Bytes) : Prop where
  nonempty : name ≠ []
  noSlash : '/'.toUInt8 ∉ name
  notDot : name ≠ "."
  notDots : name ≠ ".."
  short : name.length ≤ maxName

instance (name : Bytes) : Decidable (IsName name) :=
  decidable_of_iff (name ≠ [] ∧ '/'.toUInt8 ∉ name ∧ name ≠ "." ∧ name ≠ ".." ∧
      name.length ≤ maxName)
    ⟨fun ⟨h₁, h₂, h₃, h₄, h₅⟩ => ⟨h₁, h₂, h₃, h₄, h₅⟩,
      fun ⟨h₁, h₂, h₃, h₄, h₅⟩ => ⟨h₁, h₂, h₃, h₄, h₅⟩⟩

theorem IsName.turn {name : Bytes} (h : IsName name) (here : Location) :
    turn here name = here ++ [name] := turn_of_isBare h.nonempty h.notDot h.notDots

structure WellFormed (t : FileTree) : Prop where
  named : ∀ entry ∈ t.entries, ∀ name ∈ entry.1, IsName name
  rooted : ∀ entry ∈ t.entries, t.lookup entry.1.dropLast = some .directory
  home : t.lookup t.workingDirectory = some .directory

instance (t : FileTree) : Decidable t.WellFormed :=
  decidable_of_iff ((∀ entry ∈ t.entries, ∀ name ∈ entry.1, IsName name) ∧
      (∀ entry ∈ t.entries, t.lookup entry.1.dropLast = some .directory) ∧
      t.lookup t.workingDirectory = some .directory)
    ⟨fun ⟨h₁, h₂, h₃⟩ => ⟨h₁, h₂, h₃⟩, fun ⟨h₁, h₂, h₃⟩ => ⟨h₁, h₂, h₃⟩⟩

variable {t : FileTree} {l here : Location} {e : Entry} {name : Bytes}

theorem mem_entries_of_lookup (h : t.lookup l = some e) (hl : l ≠ []) :
    (l, e) ∈ t.entries := by
  rw [lookup, if_neg hl] at h
  exact (lookupIn_eq_some_iff t.distinct).mp h

namespace WellFormed

theorem isName (h : t.WellFormed) (he : t.lookup l = some e) : ∀ name ∈ l, IsName name := by
  by_cases hl : l = []
  · rw [hl]
    exact fun _ hname => nomatch hname
  · exact h.named _ (mem_entries_of_lookup he hl)

theorem isName_last (h : t.WellFormed) (he : t.lookup (l ++ [name]) = some e) : IsName name :=
  h.isName he name (by simp)

/-- Everything lies in a directory. -/
theorem parent (h : t.WellFormed) (he : t.lookup l = some e) :
    t.lookup l.dropLast = some .directory := by
  by_cases hl : l = []
  · rw [hl, List.dropLast_nil, lookup_root]
  · exact h.rooted _ (mem_entries_of_lookup he hl)

end WellFormed

theorem wellFormed_iff : t.WellFormed ↔
    (∀ l e, t.lookup l = some e →
      (∀ name ∈ l, IsName name) ∧ t.lookup l.dropLast = some .directory) ∧
    t.lookup t.workingDirectory = some .directory := by
  refine ⟨fun h => ⟨fun l e he => ⟨h.isName he, h.parent he⟩, h.home⟩, fun ⟨h, hhome⟩ => ?_⟩
  have hentry : ∀ entry ∈ t.entries, (∀ name ∈ entry.1, IsName name) ∧
      t.lookup entry.1.dropLast = some .directory := by
    rintro ⟨l, e⟩ hmem
    by_cases hl : l = []
    · subst hl
      exact ⟨List.forall_mem_nil _, lookup_root t⟩
    · exact h l e (by rw [lookup, if_neg hl]; exact (lookupIn_eq_some_iff t.distinct).mpr hmem)
  exact ⟨fun entry hmem => (hentry entry hmem).1, fun entry hmem => (hentry entry hmem).2, hhome⟩

/-! ## Putting something into a directory -/

theorem lookup_put_of_ne (t : FileTree) {k : Location} (h : k ≠ l) :
    (t.put l e).lookup k = t.lookup k := by
  by_cases hk : k = []
  · rw [hk, lookup_root, lookup_root]
  · rw [lookup_put t hk, if_neg h]

theorem extends_put (hfree : t.lookup l = none) : Extends t (t.put l e) := by
  refine ⟨rfl, fun {k e'} he => ?_⟩
  rw [lookup_put_of_ne t, he]
  rintro rfl
  rw [hfree] at he
  cases he

/-- A tree stays well-formed if nothing changes but what a directory holds
under one name, and that was no directory itself. -/
theorem WellFormed.of_lookup {t' : FileTree} (h : t.WellFormed)
    (hhere : t.lookup here = some .directory) (hname : IsName name)
    (hplace : t.lookup (here ++ [name]) ≠ some .directory)
    (hw : t'.workingDirectory = t.workingDirectory)
    (hkept : ∀ k, k ≠ here ++ [name] → t'.lookup k = t.lookup k) : t'.WellFormed := by
  have hdirs : ∀ {k}, t.lookup k = some .directory → t'.lookup k = some .directory := by
    intro k hk
    rw [hkept k, hk]
    rintro rfl
    exact hplace hk
  refine wellFormed_iff.mpr ⟨fun l e he => ?_, ?_⟩
  · by_cases hl : l = here ++ [name]
    · rw [hl, List.dropLast_concat]
      exact ⟨List.forall_mem_append.mpr
        ⟨h.isName hhere, fun n hn => List.mem_singleton.mp hn ▸ hname⟩, hdirs hhere⟩
    · rw [hkept l hl] at he
      exact ⟨h.isName he, hdirs (h.parent he)⟩
  · rw [hw]
    exact hdirs h.home

/-! ## Making directories -/

/-- Directories were made at some of these locations, where nothing was,
and nothing else has changed. -/
structure Grown (P : Location → Prop) (t t' : FileTree) : Prop where
  workingDirectory : t'.workingDirectory = t.workingDirectory
  lookup : ∀ k, t'.lookup k = t.lookup k ∨
    P k ∧ t.lookup k = none ∧ t'.lookup k = some .directory

namespace Grown

variable {P Q : Location → Prop} {t' t'' : FileTree}

theorem refl (t : FileTree) : Grown P t t := ⟨rfl, fun _ => Or.inl rfl⟩

theorem trans (h : Grown P t t') (h' : Grown P t' t'') : Grown P t t'' := by
  refine ⟨h'.workingDirectory.trans h.workingDirectory, fun k => ?_⟩
  rcases h'.lookup k with hkept | ⟨hk, hfree, hmade⟩
  · rw [hkept]
    exact h.lookup k
  · rcases h.lookup k with hkept | ⟨-, -, hmade'⟩
    · exact Or.inr ⟨hk, hkept ▸ hfree, hmade⟩
    · rw [hmade'] at hfree
      cases hfree

theorem mono (h : Grown P t t') (hPQ : ∀ k, P k → Q k) : Grown Q t t' :=
  ⟨h.workingDirectory, fun k => (h.lookup k).imp id fun ⟨hk, hmade⟩ => ⟨hPQ k hk, hmade⟩⟩

/-- What was there is not made anew. -/
theorem lookup_of_some {e : Entry} (h : Grown P t t') (he : t.lookup l = some e) :
    t'.lookup l = some e := by
  rcases h.lookup l with hkept | ⟨-, hfree, -⟩
  · rw [hkept, he]
  · rw [he] at hfree
    cases hfree

theorem extend (h : Grown P t t') : Extends t t' := ⟨h.workingDirectory, h.lookup_of_some⟩

/-- No file was made. -/
theorem lookup_eq_file_iff (h : Grown P t t') {content : Bytes} {x : Bool} :
    t'.lookup l = some (.file content x) ↔ t.lookup l = some (.file content x) := by
  refine ⟨fun hfile => ?_, h.lookup_of_some⟩
  rcases h.lookup l with hkept | ⟨-, -, hmade⟩
  · exact hkept ▸ hfile
  · rw [hmade] at hfile
    cases hfile

end Grown

theorem grown_put {P : Location → Prop} (hfree : t.lookup l = none) (hl : P l) :
    Grown P t (t.put l .directory) := by
  refine ⟨rfl, fun k => ?_⟩
  by_cases hk : k = l
  · have hroot : l ≠ [] := by
      rintro rfl
      rw [lookup_root] at hfree
      cases hfree
    exact Or.inr ⟨hk ▸ hl, hk ▸ hfree, by rw [hk, lookup_put t hroot, if_pos rfl]⟩
  · exact Or.inl (lookup_put_of_ne t hk)

/-- Where directories are made along names: anywhere on the way, and at
its end if there was no fault. -/
def MakingAt (here : Location) (names : List Bytes) (fault : Option Fault) (k : Location) : Prop :=
  k ∈ passes here names ∨ fault = none ∧ k = follow here names

/-- Directories were made along names: nothing else has changed, and
without a fault the names can be followed to a directory. -/
structure Made (t : FileTree) (here : Location) (names : List Bytes)
    (made : FileTree × Option Fault) : Prop where
  wellFormed : made.1.WellFormed
  grown : Grown (MakingAt here names made.2) t made.1
  reaches : made.2 = none → (∀ name ∈ names, name.length ≤ maxName) ∧
    (∀ k ∈ passes here names, made.1.lookup k = some .directory) ∧
    made.1.lookup (follow here names) = some .directory

theorem Made.cons {names : List Bytes} {made : FileTree × Option Fault} {next : Location}
    (hshort : name.length ≤ maxName) (hhere : t.lookup here = some .directory)
    (hturn : turn here name = next) (h : Made t next names made) :
    Made t here (name :: names) made := by
  subst hturn
  refine ⟨h.wellFormed, h.grown.mono fun k hk => hk.imp (List.mem_cons_of_mem _) id,
    fun hnone => ?_⟩
  obtain ⟨hnames, hpasses, hend⟩ := h.reaches hnone
  exact ⟨List.forall_mem_cons.mpr ⟨hshort, hnames⟩,
    List.forall_mem_cons.mpr ⟨h.grown.lookup_of_some hhere, hpasses⟩, hend⟩

theorem Made.fault {names : List Bytes} (fault : Fault) (h : t.WellFormed) :
    Made t here names (t, some fault) := ⟨h, .refl t, fun hnone => absurd hnone (by simp)⟩

/-- Along the recursion: the names read so far lead to a directory of the
tree made so far. -/
theorem made_makeAlong (h : t.WellFormed) (hhere : t.lookup here = some .directory)
    (fresh : Bool) {names : List Bytes} (hnames : ∀ name ∈ names, '/'.toUInt8 ∉ name) :
    Made t here names (t.makeAlong here fresh names) := by
  induction names generalizing t here fresh with
  | nil => exact ⟨h, .refl t, fun _ => ⟨List.forall_mem_nil _, List.forall_mem_nil _, hhere⟩⟩
  | cons name rest ih =>
      obtain ⟨hslash, hrest⟩ := List.forall_mem_cons.mp hnames
      rw [makeAlong]
      by_cases hs : staysPut name
      · rw [if_pos hs]
        refine Made.cons ?_ hhere (if_pos hs) (ih h hhere fresh hrest)
        simp only [staysPut, decide_eq_true_eq] at hs
        rcases hs with rfl | rfl <;> decide
      rw [if_neg hs]
      by_cases hd : name = ".."
      · rw [if_pos hd]
        refine Made.cons ?_ hhere ?_ (ih h (h.parent hhere) fresh hrest)
        · rw [hd]
          decide
        · rw [turn, if_neg hs, if_pos hd]
      rw [if_neg hd]
      by_cases hlong : maxName < name.length
      · rw [if_pos hlong]
        exact .fault _ h
      rw [if_neg hlong]
      have hshort := Nat.not_lt.mp hlong
      simp only [staysPut, decide_eq_true_eq, not_or] at hs
      have hname : IsName name := ⟨hs.1, hslash, hs.2, hd, hshort⟩
      have hturn : turn here name = here ++ [name] := hname.turn here
      cases hfound : t.lookup (here ++ [name]) with
      | some e =>
          cases e with
          | directory => exact Made.cons hshort hhere hturn (ih h hfound fresh hrest)
          | file content x => exact .fault _ h
      | none =>
          have hnew : (t.put (here ++ [name]) .directory).lookup (here ++ [name])
              = some .directory := by
            rw [lookup_put t (List.append_ne_nil_of_right_ne_nil _ (List.cons_ne_nil _ _)),
              if_pos rfl]
          have hplace : t.lookup (here ++ [name]) ≠ some .directory := by
            rw [hfound]
            exact (Option.some_ne_none _).symm
          have hput : (t.put (here ++ [name]) .directory).WellFormed :=
            h.of_lookup hhere hname hplace rfl fun _ hk => lookup_put_of_ne t hk
          have hmade := ih hput hnew true hrest
          have hplaced : MakingAt (here ++ [name]) rest
              ((t.put (here ++ [name]) .directory).makeAlong (here ++ [name]) true rest).2
              (here ++ [name]) := by
            cases rest with
            | nil => exact Or.inr ⟨rfl, rfl⟩
            | cons _ _ => exact Or.inl (List.mem_cons_self ..)
          exact Made.cons hshort hhere hturn
            ⟨hmade.wellFormed, (grown_put hfound hplaced).trans hmade.grown, hmade.reaches⟩

/-- Making a directory keeps a tree well-formed and makes nothing but
directories on the way, and without a fault the directory is there. -/
theorem made_makeDirectories (h : t.WellFormed) (p : Path) :
    (t.makeDirectories p).1.WellFormed ∧
      Grown (fun k => k ∈ p.way t.workingDirectory ∨
        (t.makeDirectories p).2 = none ∧ k = p.spot t.workingDirectory) t
        (t.makeDirectories p).1 ∧
      ((t.makeDirectories p).2 = none → (t.makeDirectories p).1.isDirectory p = true) := by
  rw [makeDirectories]
  by_cases hempty : p = []
  · rw [if_pos hempty]
    exact ⟨h, .refl t, nofun⟩
  by_cases hlong : pathLimit ≤ p.length
  · rw [if_neg hempty, if_pos hlong]
    exact ⟨h, .refl t, nofun⟩
  rw [if_neg hempty, if_neg hlong]
  have hstart : t.lookup (t.start p) = some .directory := by
    rw [start]
    by_cases habs : p.isAbsolute
    · rw [if_pos habs, lookup_root]
    · rw [if_neg habs]
      exact h.home
  have hmade : Made t (t.start p) (List.splitOn '/'.toUInt8 p) _ :=
    made_makeAlong h hstart false fun name hname => Bytes.notMem_of_mem_splitOn hname
  refine ⟨hmade.wellFormed, hmade.grown, fun hnone => ?_⟩
  obtain ⟨hnames, hway, hspot⟩ := hmade.reaches hnone
  rw [isDirectory_eq_true_iff, stat_eq_ok_iff_lookup, hmade.grown.workingDirectory]
  exact ⟨⟨hempty, Nat.not_le.mp hlong, hnames⟩, hway, hspot⟩

end Prebuilt.FileTree
