import Prebuilt.Path

/-!
# File trees

A file tree lists what exists, by *location*: the names that lead there
from the root. Each location is listed at most once, and the root is
always a directory. The tree also knows its working directory, from
which relative paths start, and which locations were emptied before: a
file that is open is lost to its writer once its location was emptied,
even if another file is there by now.

Everything else in this folder is written over three operations, and
each of them is described by its effect on `lookup` alone:

- `put` changes what one location holds (`lookup_put`),
- `erase` empties one location (`lookup_erase`),
- `names` lists a directory (`mem_names`, `nodup_names`).
-/

namespace Prebuilt

/-- The names that lead from the root to a file or directory. -/
abbrev Location := List Bytes

inductive Entry where
  | directory
  | file (content : Bytes) (executable : Bool)
deriving Repr, DecidableEq

namespace Entry

def isDirectory : Entry → Bool
  | .directory => true
  | .file .. => false

def isFile : Entry → Bool
  | .directory => false
  | .file .. => true

end Entry

structure FileTree where
  entries : List (Location × Entry)
  distinct : (entries.map Prod.fst).Nodup
  workingDirectory : Location
  /-- The locations that were emptied, once for each time. -/
  emptied : List Location
deriving Repr, DecidableEq

namespace FileTree

def empty (workingDirectory : Location) : FileTree := ⟨[], .nil, workingDirectory, []⟩

/-! ## Looking up -/

def lookupIn (l : Location) : List (Location × Entry) → Option Entry
  | [] => none
  | (k, e) :: rest => if k = l then some e else lookupIn l rest

/-- What is at a location. -/
def lookup (t : FileTree) (l : Location) : Option Entry :=
  if l = [] then some .directory else lookupIn l t.entries

@[simp] theorem lookup_root (t : FileTree) : t.lookup [] = some .directory := rfl

theorem lookupIn_filter {p : Location → Bool} {l : Location}
    (entries : List (Location × Entry)) :
    lookupIn l (entries.filter fun e => p e.1)
      = if p l then lookupIn l entries else none := by
  induction entries with
  | nil => simp [lookupIn]
  | cons e rest ih =>
      obtain ⟨k, e⟩ := e
      by_cases hk : k = l
      · subst hk
        by_cases hp : p k <;> simp_all [lookupIn]
      · by_cases hp : p k <;> simp [lookupIn, hp, hk, ih]

theorem lookupIn_eq_some_iff {l : Location} {e : Entry} :
    ∀ {entries : List (Location × Entry)}, (entries.map Prod.fst).Nodup →
      (lookupIn l entries = some e ↔ (l, e) ∈ entries)
  | [], _ => by simp [lookupIn]
  | (k, e') :: rest, h => by
      obtain ⟨hk, hrest⟩ := List.nodup_cons.mp h
      have ih := lookupIn_eq_some_iff (l := l) (e := e) hrest
      unfold lookupIn
      split
      · rename_i heq
        subst heq
        have hne : ∀ x, (k, x) ∉ rest := fun x hx =>
          hk (List.mem_map.mpr ⟨(k, x), hx, rfl⟩)
        simp [hne, eq_comm]
      · rename_i hne
        simp [ih, Ne.symm hne]

/-! ## Changing one location -/

theorem distinct_filter (t : FileTree) (p : Location → Bool) :
    ((t.entries.filter fun e => p e.1).map Prod.fst).Nodup :=
  t.distinct.sublist (List.filter_sublist.map Prod.fst)

/-- Only the locations of the class are left. -/
def keep (t : FileTree) (p : Location → Bool) : FileTree :=
  { t with
    entries := t.entries.filter fun e => p e.1
    distinct := t.distinct_filter p
    emptied := (t.entries.filter fun e => !p e.1).map Prod.fst ++ t.emptied }

theorem lookup_keep (t : FileTree) (p : Location → Bool) {l : Location}
    (h : l ≠ []) : (t.keep p).lookup l = if p l then t.lookup l else none := by
  simp [lookup, keep, h, lookupIn_filter]

/-- Nothing is at the location any more. -/
def erase (t : FileTree) (l : Location) : FileTree := t.keep (fun k => k ≠ l)

/-- Nothing is at the location or below it any more. -/
def eraseBelow (t : FileTree) (l : Location) : FileTree := t.keep (fun k => !l.isPrefixOf k)

theorem notMem_erase (t : FileTree) (l : Location) :
    l ∉ (t.erase l).entries.map Prod.fst := by
  simp [erase, keep]

/-- The location holds this entry. -/
def put (t : FileTree) (l : Location) (e : Entry) : FileTree :=
  { t with
    entries := (l, e) :: (t.erase l).entries
    distinct := List.nodup_cons.mpr ⟨t.notMem_erase l, (t.erase l).distinct⟩ }

theorem lookup_erase (t : FileTree) {l k : Location} (h : k ≠ []) :
    (t.erase l).lookup k = if k = l then none else t.lookup k := by
  rw [erase, lookup_keep t _ h]
  by_cases hk : k = l <;> simp [hk]

theorem lookup_put (t : FileTree) {l k : Location} {e : Entry} (h : k ≠ []) :
    (t.put l e).lookup k = if k = l then some e else t.lookup k := by
  have he := lookup_erase t (l := l) h
  simp only [lookup, h, if_false] at he ⊢
  by_cases hk : k = l
  · simp [put, lookupIn, hk]
  · simpa [put, lookupIn, hk, Ne.symm hk] using he

/-! ## Listing a directory -/

/-- The last name of `k`, if `k` lies directly in `dir`. -/
def nameIn (dir k : Location) : Option Bytes :=
  if k.dropLast = dir then k.getLast? else none

theorem nameIn_eq_some_iff {dir k : Location} {name : Bytes} :
    nameIn dir k = some name ↔ k = dir ++ [name] := by
  unfold nameIn
  constructor
  · intro h
    split at h
    · rename_i hk
      obtain ⟨front, rfl⟩ := List.getLast?_eq_some_iff.mp h
      simpa using hk
    · cases h
  · rintro rfl
    simp

/-- The names directly in a directory, in the order in which the tree
lists them. That order can be any. -/
def names (t : FileTree) (dir : Location) : List Bytes :=
  t.entries.filterMap fun e => nameIn dir e.1

theorem mem_names {t : FileTree} {dir : Location} {name : Bytes} :
    name ∈ t.names dir ↔ (t.lookup (dir ++ [name])).isSome := by
  rw [names, List.mem_filterMap]
  simp only [nameIn_eq_some_iff, Option.isSome_iff_exists, lookup,
    List.append_eq_nil_iff, List.cons_ne_nil, and_false, if_false,
    lookupIn_eq_some_iff t.distinct]
  constructor
  · rintro ⟨⟨k, e⟩, he, rfl⟩
    exact ⟨e, he⟩
  · rintro ⟨e, he⟩
    exact ⟨_, he, rfl⟩

theorem nodup_names (t : FileTree) (dir : Location) : (t.names dir).Nodup := by
  rw [names]
  have h : t.entries.Pairwise fun a b => a.1 ≠ b.1 :=
    List.pairwise_map.mp t.distinct
  refine List.pairwise_filterMap.mpr (h.imp ?_)
  intro a b hab x hx y hy hxy
  rw [nameIn_eq_some_iff.mp hx, nameIn_eq_some_iff.mp hy, hxy] at hab
  exact hab rfl

end FileTree

end Prebuilt
