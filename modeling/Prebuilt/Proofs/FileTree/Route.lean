import Prebuilt.FileTree.Edit

/-!
# The route of a path

There are no links, so the names of a path alone decide where it can
lead: to one location, its *spot*, past a list of others, its *way*. The
tree only decides whether it gets there, namely when everything on the
way is a directory (`resolve_eq_ok_iff`). What happens off the route of
a path cannot be seen through it (`stat_congr`).

A bare name joined to a directory has the route of the directory, the
directory itself, and one turn more (`spot_join`, `mem_way_join`).
-/

namespace Prebuilt

namespace FileTree

/-! ## Names -/

/-- Where one name leads from a directory, whatever exists. -/
def turn (here : Location) (name : Bytes) : Location :=
  if staysPut name then here else if name = ".." then here.dropLast else here ++ [name]

/-- Where names lead, whatever exists. -/
def follow (here : Location) : List Bytes → Location
  | [] => here
  | name :: rest => follow (turn here name) rest

/-- The locations at which the names are read, one for each. -/
def passes (here : Location) : List Bytes → List Location
  | [] => []
  | name :: rest => here :: passes (turn here name) rest

theorem follow_append (here : Location) :
    ∀ names more, follow here (names ++ more) = follow (follow here names) more
  | [], _ => rfl
  | name :: rest, more => follow_append (turn here name) rest more

theorem passes_append (here : Location) :
    ∀ names more, passes here (names ++ more)
      = passes here names ++ passes (follow here names) more
  | [], _ => rfl
  | name :: rest, more => congrArg (here :: ·) (passes_append (turn here name) rest more)

theorem turn_of_isBare {here : Location} {name : Bytes} (hempty : name ≠ [])
    (hdot : name ≠ ".") (hdots : name ≠ "..") : turn here name = here ++ [name] := by
  have hstays : staysPut name = false := by simp [staysPut, hempty, hdot]
  rw [turn, hstays, if_neg Bool.false_ne_true, if_neg hdots]

/-- A walk turns at each name, provided that it is in a directory there
and the name is not too long. -/
theorem walk_cons (t : FileTree) (here : Location) (name : Bytes) (rest : List Bytes) :
    t.walk here (name :: rest) =
      match t.lookup here with
      | none => .error .missing
      | some (.file ..) => .error .notDirectory
      | some .directory =>
          if maxName < name.length then .error .nameTooLong
          else t.walk (turn here name) rest := by
  rw [walk, turn]
  cases t.lookup here with
  | none => rfl
  | some e =>
      cases e with
      | file content x => rfl
      | directory =>
          by_cases hs : staysPut name
          · have hshort : ¬ maxName < name.length := by
              simp only [staysPut, decide_eq_true_eq] at hs
              rcases hs with rfl | rfl <;> decide
            rw [if_pos hs, if_pos hs, if_neg hshort]
          · rw [if_neg hs, if_neg hs]
            by_cases hd : name = ".."
            · have hshort : ¬ maxName < name.length := by
                subst hd
                decide
              rw [if_pos hd, if_pos hd, if_neg hshort]
            · rw [if_neg hd, if_neg hd]

theorem walk_eq_ok_iff {t : FileTree} {names : List Bytes} {here l : Location} :
    t.walk here names = .ok l ↔
      (∀ name ∈ names, name.length ≤ maxName) ∧
      (∀ k ∈ passes here names, t.lookup k = some .directory) ∧ follow here names = l := by
  induction names generalizing here with
  | nil => simp [walk, passes, follow]
  | cons name rest ih =>
      rw [walk_cons, passes, follow]
      simp only [List.forall_mem_cons]
      cases hhere : t.lookup here with
      | none => simp
      | some e =>
          cases e with
          | file content x => simp
          | directory =>
              by_cases hlong : maxName < name.length
              · simp only [if_pos hlong, reduceCtorEq, false_iff, not_and]
                exact fun h => absurd h.1 (Nat.not_le.mpr hlong)
              · rw [if_neg hlong, ih]
                simp only [Nat.not_lt.mp hlong, true_and]

/-- A walk looks at nothing but the locations it passes. -/
theorem walk_congr {t t' : FileTree} {names : List Bytes} {here : Location}
    (h : ∀ k ∈ passes here names, t'.lookup k = t.lookup k) :
    t'.walk here names = t.walk here names := by
  induction names generalizing here with
  | nil => rfl
  | cons name rest ih =>
      obtain ⟨hhere, hrest⟩ := List.forall_mem_cons.mp h
      rw [walk_cons, walk_cons, hhere, ih hrest]

end FileTree

/-! ## Paths -/

namespace Path

open FileTree

/-- Where reading a path starts in the working directory `w`. -/
def origin (w : Location) (p : Path) : Location := if p.isAbsolute then [] else w

/-- The location that a path can lead to. -/
def spot (w : Location) (p : Path) : Location := follow (origin w p) (List.splitOn '/'.toUInt8 p)

/-- The locations that have to be directories for that. -/
def way (w : Location) (p : Path) : List Location :=
  passes (origin w p) (List.splitOn '/'.toUInt8 p)

/-- The system reads the path at all. -/
structure Legible (p : Path) : Prop where
  nonempty : p ≠ []
  short : p.length < pathLimit
  names : ∀ name ∈ List.splitOn '/'.toUInt8 p, name.length ≤ maxName

/-! ## Joined paths -/

/-- Bare names are joined to what is in front of a slash at the end of
the directory's path, or to the whole of it if there is none. -/
theorem exists_front {dir : Path} (hdir : dir ≠ []) :
    ∃ front, (dir = front ∨ dir = front ++ ['/'.toUInt8]) ∧
      ∀ {name : Path}, '/'.toUInt8 ∉ name → dir.join name = front ++ '/'.toUInt8 :: name := by
  by_cases hlast : dir.getLast? = some '/'.toUInt8
  · obtain ⟨front, hfront⟩ := List.getLast?_eq_some_iff.mp hlast
    refine ⟨front, Or.inr hfront, fun hname => ?_⟩
    rw [join, isAbsolute_eq_false hname, if_neg Bool.false_ne_true, if_pos (Or.inr hlast), hfront,
      List.append_assoc, List.singleton_append]
  · refine ⟨dir, Or.inl rfl, fun hname => ?_⟩
    rw [join, isAbsolute_eq_false hname, if_neg Bool.false_ne_true,
      if_neg (not_or.mpr ⟨hdir, hlast⟩)]

/-- The two ways in which a bare name is joined: the slash was there, or
it is added. -/
theorem join_cases {dir name : Path} (hdir : dir ≠ []) (hname : '/'.toUInt8 ∉ name) :
    (∃ front, dir = front ++ ['/'.toUInt8] ∧ dir.join name = front ++ '/'.toUInt8 :: name)
      ∨ dir.join name = dir ++ '/'.toUInt8 :: name := by
  obtain ⟨front, rfl | hfront, hjoin⟩ := exists_front hdir
  · exact Or.inr (hjoin hname)
  · exact Or.inl ⟨front, hfront, hjoin hname⟩

variable {dir name : Path} {w k : Location}

theorem origin_join (hdir : dir ≠ []) (hname : '/'.toUInt8 ∉ name) :
    origin w (dir.join name) = origin w dir := by
  obtain ⟨c, rest, rfl⟩ := List.exists_cons_of_ne_nil hdir
  have hhead : (join (c :: rest) name).head? = some c := by
    rcases join_cases hdir hname with ⟨front, hfront, hjoin⟩ | hjoin
    · rw [hjoin]
      cases front with
      | nil => simpa using (List.cons.inj hfront).1.symm
      | cons d front => simpa using (List.cons.inj hfront).1.symm
    · rw [hjoin]
      rfl
  have habs : isAbsolute (join (c :: rest) name) = isAbsolute (c :: rest) := by
    unfold isAbsolute
    rw [hhead]
    rfl
  rw [origin, origin, habs]

/-- The names of a joined path: those of the directory, without the empty
one after a slash at its end, and the name. -/
theorem splitOn_join (hdir : dir ≠ []) (hname : '/'.toUInt8 ∉ name) :
    ∃ front, (List.splitOn '/'.toUInt8 dir = front ∨ List.splitOn '/'.toUInt8 dir = front ++ [[]]) ∧
      List.splitOn '/'.toUInt8 (dir.join name) = front ++ [name] := by
  rcases join_cases hdir hname with ⟨front, hfront, hjoin⟩ | hjoin
  · refine ⟨List.splitOn '/'.toUInt8 front, Or.inr ?_, ?_⟩
    · rw [hfront, List.splitOn_append_cons_self]
      rfl
    · rw [hjoin, List.splitOn_append_cons_self, List.splitOn_eq_singleton hname]
  · refine ⟨List.splitOn '/'.toUInt8 dir, Or.inl rfl, ?_⟩
    rw [hjoin, List.splitOn_append_cons_self, List.splitOn_eq_singleton hname]

theorem turn_nil (here : Location) : turn here [] = here := rfl

theorem spot_join (hdir : dir ≠ []) (hname : '/'.toUInt8 ∉ name) :
    (dir.join name).spot w = turn (dir.spot w) name := by
  obtain ⟨front, hfront, hjoin⟩ := splitOn_join hdir hname
  rw [spot, origin_join hdir hname, hjoin, follow_append, spot]
  rcases hfront with h | h
  · rw [h]
    rfl
  · rw [h, follow_append]
    rfl

theorem mem_way_join (hdir : dir ≠ []) (hname : '/'.toUInt8 ∉ name) :
    k ∈ (dir.join name).way w ↔ k ∈ dir.way w ∨ k = dir.spot w := by
  obtain ⟨front, hfront, hjoin⟩ := splitOn_join hdir hname
  rw [way, origin_join hdir hname, hjoin, passes_append, way, spot]
  rcases hfront with h | h
  · rw [h, List.mem_append]
    simp only [passes, List.mem_singleton]
  · rw [h, passes_append, follow_append]
    simp only [passes, follow, turn_nil, List.mem_append, List.mem_singleton, or_assoc, or_self]

/-- The name that was joined last is the last name. -/
theorem lastName_join (hdir : dir ≠ []) (hname : '/'.toUInt8 ∉ name) (hne : name ≠ []) :
    lastName (dir.join name) = name := by
  obtain ⟨front, -, hjoin⟩ := splitOn_join hdir hname
  have hkept : [name].filter (fun n : Bytes => decide (n ≠ [])) = [name] :=
    List.filter_cons_of_pos (decide_eq_true hne)
  rw [lastName, hjoin, List.filter_append, hkept, List.getLast?_concat, Option.getD_some]

theorem length_le_join (hdir : dir ≠ []) (hname : '/'.toUInt8 ∉ name) :
    dir.length ≤ (dir.join name).length := by
  rcases join_cases hdir hname with ⟨front, hfront, hjoin⟩ | hjoin
  · rw [hfront] at hjoin ⊢
    rw [hjoin]
    simp
  · rw [hjoin]
    simp

theorem legible_join_iff (hdir : dir ≠ []) (hname : '/'.toUInt8 ∉ name) :
    (dir.join name).Legible ↔
      dir.Legible ∧ name.length ≤ maxName ∧ (dir.join name).length < pathLimit := by
  obtain ⟨front, hfront, hjoin⟩ := splitOn_join hdir hname
  have hnames : (∀ n ∈ List.splitOn '/'.toUInt8 dir, n.length ≤ maxName) ↔
      ∀ n ∈ front, n.length ≤ maxName := by
    rcases hfront with h | h
    · rw [h]
    · rw [h, List.forall_mem_append]
      simp
  have hlength := length_le_join hdir hname
  have hne : dir.join name ≠ [] := fun h => by
    rw [h] at hlength
    exact hdir (List.eq_nil_of_length_eq_zero (Nat.le_zero.mp hlength))
  constructor
  · rintro ⟨-, hshort, h⟩
    rw [hjoin, List.forall_mem_append] at h
    exact ⟨⟨hdir, by omega, hnames.mpr h.1⟩, h.2 name (List.mem_singleton_self _), hshort⟩
  · rintro ⟨⟨-, -, h⟩, hname', hshort⟩
    refine ⟨hne, hshort, ?_⟩
    rw [hjoin, List.forall_mem_append]
    exact ⟨hnames.mp h, fun n hn => List.mem_singleton.mp hn ▸ hname'⟩

end Path

namespace FileTree

open Prebuilt.Path

variable {t t' : FileTree} {p dir name : Path} {l : Location}

theorem resolve_eq_ok_iff :
    t.resolve p = .ok l ↔ p.Legible ∧
      (∀ k ∈ p.way t.workingDirectory, t.lookup k = some .directory) ∧
      p.spot t.workingDirectory = l := by
  rw [resolve]
  by_cases hempty : p = []
  · rw [if_pos hempty]
    exact ⟨nofun, fun h => absurd hempty h.1.nonempty⟩
  · by_cases hlong : pathLimit ≤ p.length
    · rw [if_neg hempty, if_pos hlong]
      exact ⟨nofun, fun h => absurd h.1.short (Nat.not_lt.mpr hlong)⟩
    · rw [if_neg hempty, if_neg hlong]
      refine walk_eq_ok_iff.trans ?_
      constructor
      · rintro ⟨hnames, hway, hspot⟩
        exact ⟨⟨hempty, Nat.not_le.mp hlong, hnames⟩, hway, hspot⟩
      · rintro ⟨hlegible, hway, hspot⟩
        exact ⟨hlegible.names, hway, hspot⟩

/-- What a path leads to is what is at its spot, once it gets there. -/
theorem stat_eq_ok_iff_lookup {e : Entry} :
    t.stat p = .ok e ↔ p.Legible ∧
      (∀ k ∈ p.way t.workingDirectory, t.lookup k = some .directory) ∧
      t.lookup (p.spot t.workingDirectory) = some e := by
  rw [stat_eq_ok_iff]
  constructor
  · rintro ⟨l, hl, he⟩
    obtain ⟨hlegible, hway, rfl⟩ := resolve_eq_ok_iff.mp hl
    exact ⟨hlegible, hway, he⟩
  · rintro ⟨hlegible, hway, he⟩
    exact ⟨_, resolve_eq_ok_iff.mpr ⟨hlegible, hway, rfl⟩, he⟩

/-- A path does not pass the file it leads to. -/
theorem spot_notMem_way (h : t.isRegularFile p = true) :
    p.spot t.workingDirectory ∉ p.way t.workingDirectory := by
  intro hmem
  obtain ⟨content, x, hstat⟩ := isRegularFile_eq_true_iff.mp h
  obtain ⟨-, hway, hspot⟩ := stat_eq_ok_iff_lookup.mp hstat
  rw [hway _ hmem] at hspot
  cases hspot

/-- A path to a bare name leads there from where the directory's path
leads, unless it gets too long. -/
theorem resolve_join_eq_ok_iff (hdir : dir ≠ []) (hname : '/'.toUInt8 ∉ name) :
    t.resolve (dir.join name) = .ok l ↔
      ∃ d, t.resolve dir = .ok d ∧ t.lookup d = some .directory ∧
        name.length ≤ maxName ∧ (dir.join name).length < pathLimit ∧ turn d name = l := by
  rw [resolve_eq_ok_iff, legible_join_iff hdir hname, spot_join hdir hname]
  simp only [mem_way_join hdir hname, or_imp, forall_and, forall_eq]
  constructor
  · rintro ⟨⟨hlegible, hshort, hlength⟩, ⟨hway, hspot⟩, hturn⟩
    exact ⟨_, resolve_eq_ok_iff.mpr ⟨hlegible, hway, rfl⟩, hspot, hshort, hlength, hturn⟩
  · rintro ⟨d, hd, hlookup, hshort, hlength, hturn⟩
    obtain ⟨hlegible, hway, rfl⟩ := resolve_eq_ok_iff.mp hd
    exact ⟨⟨hlegible, hshort, hlength⟩, ⟨hway, hlookup⟩, hturn⟩

/-! ## What a path does not see -/

theorem resolve_congr (hw : t'.workingDirectory = t.workingDirectory)
    (h : ∀ k ∈ p.way t.workingDirectory, t'.lookup k = t.lookup k) :
    t'.resolve p = t.resolve p := by
  have hstart : t'.start p = origin t.workingDirectory p := by rw [start, hw, origin]
  rw [resolve, resolve, hstart, walk_congr h]
  rfl

/-- A path sees its spot and its way, and nothing else of a tree. -/
theorem stat_congr (hw : t'.workingDirectory = t.workingDirectory)
    (h : ∀ k ∈ p.spot t.workingDirectory :: p.way t.workingDirectory,
      t'.lookup k = t.lookup k) : t'.stat p = t.stat p := by
  obtain ⟨hspot, hway⟩ := List.forall_mem_cons.mp h
  rw [stat, stat, resolve_congr hw hway]
  cases hl : t.resolve p with
  | error e => rfl
  | ok l =>
      obtain ⟨-, -, rfl⟩ := resolve_eq_ok_iff.mp hl
      simp only [hspot]

/-- Nothing of what was found is lost or changed. -/
structure Extends (t t' : FileTree) : Prop where
  workingDirectory : t'.workingDirectory = t.workingDirectory
  lookup : ∀ {k e}, t.lookup k = some e → t'.lookup k = some e

theorem Extends.refl (t : FileTree) : Extends t t := ⟨rfl, id⟩

theorem Extends.trans {t t' t'' : FileTree} (h : Extends t t') (h' : Extends t' t'') :
    Extends t t'' :=
  ⟨h'.workingDirectory.trans h.workingDirectory, fun he => h'.lookup (h.lookup he)⟩

theorem Extends.resolve (h : Extends t t') (hl : t.resolve p = .ok l) :
    t'.resolve p = .ok l := by
  obtain ⟨hlegible, hway, hspot⟩ := resolve_eq_ok_iff.mp hl
  rw [resolve_eq_ok_iff, h.workingDirectory]
  exact ⟨hlegible, fun k hk => h.lookup (hway k hk), hspot⟩

theorem Extends.stat {e : Entry} (h : Extends t t') (he : t.stat p = .ok e) :
    t'.stat p = .ok e := by
  obtain ⟨hlegible, hway, hspot⟩ := stat_eq_ok_iff_lookup.mp he
  rw [stat_eq_ok_iff_lookup, h.workingDirectory]
  exact ⟨hlegible, fun k hk => h.lookup (hway k hk), h.lookup hspot⟩

/-! ## Erasing -/

theorem lookup_erase_of_ne (t : FileTree) {l k : Location} (h : k ≠ l) :
    (t.erase l).lookup k = t.lookup k := by
  by_cases hk : k = []
  · rw [hk, lookup_root, lookup_root]
  · rw [lookup_erase t hk, if_neg h]

theorem lookup_of_lookup_erase {t : FileTree} {l k : Location} {e : Entry}
    (h : (t.erase l).lookup k = some e) : t.lookup k = some e := by
  by_cases hk : k = []
  · rw [hk, lookup_root] at h ⊢
    exact h
  · rw [lookup_erase t hk] at h
    by_cases hkl : k = l
    · rw [if_pos hkl] at h
      cases h
    · rwa [if_neg hkl] at h

theorem extends_erase (t : FileTree) (l : Location) : Extends (t.erase l) t :=
  ⟨rfl, lookup_of_lookup_erase⟩

/-- Nothing is at any of the locations any more. -/
def eraseAll (t : FileTree) (ls : List Location) : FileTree := ls.foldl erase t

theorem workingDirectory_eraseAll (ls : List Location) :
    ∀ t : FileTree, (t.eraseAll ls).workingDirectory = t.workingDirectory := by
  induction ls with
  | nil => exact fun _ => rfl
  | cons l ls ih => exact fun t => ih (t.erase l)

theorem lookup_eraseAll {ls : List Location} {k : Location} (hk : k ≠ []) (t : FileTree) :
    (t.eraseAll ls).lookup k = if k ∈ ls then none else t.lookup k := by
  induction ls generalizing t with
  | nil => rfl
  | cons l ls ih =>
      rw [eraseAll, List.foldl_cons, ← eraseAll, ih, lookup_erase t hk]
      by_cases hkls : k ∈ ls
      · rw [if_pos hkls, if_pos (List.mem_cons_of_mem _ hkls)]
      · by_cases hkl : k = l
        · rw [if_neg hkls, if_pos hkl, if_pos (hkl ▸ List.mem_cons_self ..)]
        · rw [if_neg hkls, if_neg hkl, if_neg (by simp [hkls, hkl])]

theorem lookup_eraseAll_of_notMem {ls : List Location} {k : Location} (h : k ∉ ls)
    (t : FileTree) : (t.eraseAll ls).lookup k = t.lookup k := by
  by_cases hk : k = []
  · rw [hk, lookup_root, lookup_root]
  · rw [lookup_eraseAll hk, if_neg h]

theorem extends_eraseAll (ls : List Location) : ∀ t : FileTree, Extends (t.eraseAll ls) t := by
  induction ls with
  | nil => exact .refl
  | cons l ls ih => exact fun t => (ih (t.erase l)).trans (extends_erase t l)

theorem stat_eraseAll_of_notMem {ls : List Location}
    (h : ∀ l ∈ ls, l ∉ p.spot t.workingDirectory :: p.way t.workingDirectory) :
    (t.eraseAll ls).stat p = t.stat p :=
  stat_congr (workingDirectory_eraseAll ls t) fun k hk =>
    lookup_eraseAll_of_notMem (fun hmem => h k hmem hk) t

/-- A path leads nowhere once anything of its route is gone. -/
theorem pathExists_eraseAll_of_mem {ls : List Location} (hmem : l ∈ ls) (hl : l ≠ [])
    (h : l ∈ p.spot t.workingDirectory :: p.way t.workingDirectory) :
    (t.eraseAll ls).pathExists p = false := by
  rw [Bool.eq_false_iff, ne_eq, pathExists_eq_true_iff]
  rintro ⟨e, he⟩
  obtain ⟨-, hway, hspot⟩ := stat_eq_ok_iff_lookup.mp he
  rw [workingDirectory_eraseAll] at hway hspot
  have hgone : (t.eraseAll ls).lookup l = none := by
    rw [lookup_eraseAll hl, if_pos hmem]
  rcases List.mem_cons.mp h with rfl | hl'
  · rw [hspot] at hgone
    cases hgone
  · rw [hway l hl'] at hgone
    cases hgone

/-- Erasing one location is erasing all of a list of one. -/
theorem eraseAll_singleton (t : FileTree) (l : Location) : t.eraseAll [l] = t.erase l := rfl

theorem stat_erase_of_notMem
    (h : l ∉ p.spot t.workingDirectory :: p.way t.workingDirectory) :
    (t.erase l).stat p = t.stat p := by
  rw [← eraseAll_singleton]
  exact stat_eraseAll_of_notMem fun _ hk => List.mem_singleton.mp hk ▸ h

theorem pathExists_erase_of_mem (hl : l ≠ [])
    (h : l ∈ p.spot t.workingDirectory :: p.way t.workingDirectory) :
    (t.erase l).pathExists p = false := by
  rw [← eraseAll_singleton]
  exact pathExists_eraseAll_of_mem (List.mem_singleton_self l) hl h

theorem names_eq_nil_iff : t.names l = [] ↔ ∀ name, t.lookup (l ++ [name]) = none := by
  rw [List.eq_nil_iff_forall_not_mem]
  exact forall_congr' fun name => (not_congr mem_names).trans Option.not_isSome_iff_eq_none

/-- What can be removed, and that nothing but its own location changes. -/
theorem remove_eq_ok_iff :
    t.remove p = .ok t' ↔ ∃ l, t.resolve p = .ok l ∧ l ≠ [] ∧ t' = t.erase l ∧
      ((∃ content x, t.lookup l = some (.file content x)) ∨
        (t.lookup l = some .directory ∧ lastName p ≠ "." ∧ lastName p ≠ ".." ∧
          t.names l = [])) := by
  constructor
  · intro h
    rw [remove] at h
    split at h
    · cases h
    · rename_i l hl
      split at h
      · cases h
      · rename_i content x he
        obtain rfl := Except.ok.inj h
        refine ⟨l, hl, ?_, rfl, Or.inl ⟨content, x, he⟩⟩
        rintro rfl
        rw [lookup_root] at he
        cases he
      · rename_i he
        by_cases hroot : l = []
        · rw [if_pos hroot] at h
          cases h
        by_cases hdot : lastName p = "."
        · rw [if_neg hroot, if_pos hdot] at h
          cases h
        by_cases hdots : lastName p = ".."
        · rw [if_neg hroot, if_neg hdot, if_pos hdots] at h
          cases h
        by_cases hnames : t.names l = []
        · rw [if_neg hroot, if_neg hdot, if_neg hdots, if_pos hnames] at h
          exact ⟨l, hl, hroot, (Except.ok.inj h).symm, Or.inr ⟨he, hdot, hdots, hnames⟩⟩
        · rw [if_neg hroot, if_neg hdot, if_neg hdots, if_neg hnames] at h
          cases h
  · rintro ⟨l, hl, hroot, rfl, ⟨content, x, he⟩ | ⟨he, hdot, hdots, hnames⟩⟩
    · simp only [remove, hl, he]
    · simp only [remove, hl, he, if_neg hroot, if_neg hdot, if_neg hdots, if_pos hnames]

theorem pathExists_of_remove_eq_ok (h : t.remove p = .ok t') : t.pathExists p = true := by
  obtain ⟨l, hl, -, -, ⟨content, x, he⟩ | ⟨he, -⟩⟩ := remove_eq_ok_iff.mp h
  · exact pathExists_eq_true_iff.mpr ⟨_, stat_eq_ok_iff.mpr ⟨l, hl, he⟩⟩
  · exact pathExists_eq_true_iff.mpr ⟨_, stat_eq_ok_iff.mpr ⟨l, hl, he⟩⟩

/-- A removed path leads nowhere. -/
theorem pathExists_of_remove (h : t.remove p = .ok t') : t'.pathExists p = false := by
  obtain ⟨l, hl, hroot, rfl, -⟩ := remove_eq_ok_iff.mp h
  obtain ⟨-, -, rfl⟩ := resolve_eq_ok_iff.mp hl
  exact pathExists_erase_of_mem hroot (List.mem_cons_self ..)

end FileTree

end Prebuilt
