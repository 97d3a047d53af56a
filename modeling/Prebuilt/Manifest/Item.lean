import Prebuilt.Manifest.Scan

/-!
# Items of a manifest

A manifest is a sequence of items, one to a line: section headers, and
assignments of a value to a key of the section they stand in. What kind
of value an assignment takes is decided by its section and key.

`items` reads as many items as it can. It never discards what it has
read: next to the fault that stopped it, if any, it gives all
assignments before that fault.
-/

namespace Prebuilt.Manifest

inductive Value where
  | text (value : Bytes)
  | list (values : List Bytes)
deriving Repr, DecidableEq

structure Assignment where
  sectionName : Bytes
  key : Bytes
  value : Value
  /-- The line on which the value ends. -/
  line : Nat
deriving Repr, DecidableEq

inductive Item where
  | header (name : Bytes)
  | assignment (a : Assignment)
deriving Repr, DecidableEq

def Item.assignments : Item → List Assignment
  | .header _ => []
  | .assignment a => [a]

/-- The section that follows an item. -/
def Item.sectionAfter (current : Bytes) : Item → Bytes
  | .header name => name
  | .assignment _ => current

/-- The keys that take an array. -/
def takesList (sec key : Bytes) : Bool :=
  (sec = "link" && key = "scripts") || (sec = "toolchain" && key = "flags")

def value (sec key : Bytes) (c : Cursor) : Except Fault Value × Cursor :=
  if takesList sec key then
    match array c with
    | (.error e, c) => (.error e, c)
    | (.ok values, c) => (.ok (.list values), c)
  else
    match string c with
    | (.error e, c) => (.error e, c)
    | (.ok text, c) => (.ok (.text text), c)

/-- A section header after its opening bracket. -/
def header (c : Cursor) : Except Fault Item × Cursor :=
  let name := identifier (skipBlanks c.rest)
  let after : Cursor := { c with rest := skipBlanks name.2 }
  match after.take? ']' with
  | none => (.error .malformedHeader, after)
  | some closed =>
      if name.1 = [] then (.error .malformedHeader, after)
      else (.ok (.header name.1), closed)

def assignment (sec : Bytes) (c : Cursor) : Except Fault Item × Cursor :=
  let key := identifier c.rest
  if key.1 = [] then (.error .expectedKey, c)
  else if sec = [] then (.error (.keyOutsideSection key.1), { c with rest := key.2 })
  else
    let after : Cursor := { c with rest := skipBlanks key.2 }
    match after.take? '=' with
    | none => (.error .expectedEquals, after)
    | some equals =>
        match value sec key.1 { equals with rest := skipBlanks equals.rest } with
        | (.error e, c) => (.error e, c)
        | (.ok v, c) => (.ok (.assignment ⟨sec, key.1, v, c.line⟩), c)

def item (sec : Bytes) (c : Cursor) : Except Fault Item × Cursor :=
  match c.take? '[' with
  | some opened => header opened
  | none => assignment sec c

/-- After an item only blanks and a comment may stand on its line. -/
def lineEnd (c : Cursor) : Except Fault Unit × Cursor :=
  let c' : Cursor := { c with rest := skipComment (skipBlanks c.rest) }
  if c'.rest = [] ∨ c'.rest.head? = some '\n'.toUInt8 then (.ok (), c')
  else (.error .trailingText, c')

/-! ## What an item leaves -/

theorem value_suffix (sec key : Bytes) (c : Cursor) :
    (value sec key c).2.rest <:+ c.rest := by
  have ha := array_suffix c
  have hs := string_suffix c
  unfold value
  split
  · split <;> rename_i h <;> rwa [h] at ha
  · split <;> rename_i h <;> rwa [h] at hs

theorem header_suffix (c : Cursor) : (header c).2.rest <:+ c.rest := by
  have h : skipBlanks (identifier (skipBlanks c.rest)).2 <:+ c.rest :=
    (suffix_dropWhile _ _).trans ((suffix_dropWhile _ _).trans (suffix_dropWhile _ _))
  unfold header
  simp only
  split
  · exact h
  · rename_i closed hclosed
    have hc := (Cursor.take?_eq_some_iff.mp hclosed).1
    split
    · exact h
    · simp only at hc
      rw [hc] at h
      exact (List.suffix_cons ..).trans h

theorem assignment_length_lt {sec : Bytes} {c d : Cursor} {i : Item}
    (h : assignment sec c = (.ok i, d)) : d.rest.length < c.rest.length := by
  unfold assignment at h
  simp only at h
  split at h
  · simp at h
  split at h
  · simp at h
  split at h
  · simp at h
  rename_i equals hequals
  have h1 := (Cursor.take?_eq_some_iff.mp hequals).1
  have h2 : skipBlanks (identifier c.rest).2 <:+ c.rest :=
    (suffix_dropWhile _ _).trans (suffix_dropWhile _ _)
  have h3 := value_suffix sec (identifier c.rest).1
    { equals with rest := skipBlanks equals.rest }
  have h4 : skipBlanks equals.rest <:+ equals.rest := suffix_dropWhile _ _
  have h5 := h2.length_le
  split at h
  · simp at h
  · rename_i v c' hv
    obtain ⟨-, rfl⟩ := Prod.mk.injEq .. |>.mp h
    rw [hv] at h3
    have h6 := h3.length_le
    have h7 := h4.length_le
    simp only at h1 h6
    rw [h1, List.length_cons] at h5
    omega

/-- An item takes at least one byte. -/
theorem item_length_lt {sec : Bytes} {c d : Cursor} {i : Item}
    (h : item sec c = (.ok i, d)) : d.rest.length < c.rest.length := by
  unfold item at h
  split at h
  · rename_i opened hopened
    have h1 := (Cursor.take?_eq_some_iff.mp hopened).1
    have h2 := (header_suffix opened).length_le
    rw [h] at h2
    simp only at h2
    rw [h1, List.length_cons]
    omega
  · exact assignment_length_lt h

theorem lineEnd_suffix (c : Cursor) : (lineEnd c).2.rest <:+ c.rest := by
  have h : skipComment (skipBlanks c.rest) <:+ c.rest :=
    (skipComment_suffix _).trans (suffix_dropWhile _ _)
  unfold lineEnd
  simp only
  split <;> exact h

theorem length_after_item {sec : Bytes} {c c' c'' : Cursor} {i : Item}
    (h : item sec c = (.ok i, c')) (hend : lineEnd c' = (.ok (), c'')) :
    c''.skipSpace.rest.length < c.rest.length := by
  have h1 := item_length_lt h
  have h2 := (lineEnd_suffix c').length_le
  have h3 := c''.skipSpace_suffix.length_le
  rw [hend] at h2
  simp only at h2
  omega

/-! ## All items -/

/-- What reading items gave: the assignments, the fault that stopped it,
and where it stopped. -/
structure Reading where
  assignments : List Assignment
  fault : Option Fault
  stopped : Cursor
deriving Repr, DecidableEq

/-- Read items in the section `sec` from a place where one may begin. -/
def items (sec : Bytes) (c : Cursor) : Reading :=
  if c.rest = [] then ⟨[], none, c⟩
  else
    match h : item sec c with
    | (.error e, stopped) => ⟨[], some e, stopped⟩
    | (.ok i, c') =>
        match hend : lineEnd c' with
        | (.error e, stopped) => ⟨i.assignments, some e, stopped⟩
        | (.ok (), c'') =>
            have := length_after_item h hend
            let more := items (i.sectionAfter sec) c''.skipSpace
            { more with assignments := i.assignments ++ more.assignments }
termination_by c.rest.length

end Prebuilt.Manifest
