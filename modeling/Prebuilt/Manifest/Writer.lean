import Prebuilt.Manifest.Reader

/-!
# Writing a manifest

Every configuration has a manifest: one assignment to a line, grouped by
section, each value quoted. Only four bytes are escaped inside quotes,
so a written value stays on one line and reads back as it was
(`string_quoted`); for a list this is `array_quotedList`.

The extension of archives has no key. A manifest leaves it as it is.
-/

namespace Prebuilt.Manifest

/-! ## Values -/

/-- A byte between quotes. -/
def escapeByte (c : UInt8) : Bytes :=
  if c = '"' then "\\\""
  else if c = '\\' then "\\\\"
  else if c = '\n' then "\\n"
  else if c = '\t' then "\\t"
  else [c]

def quoted (value : Bytes) : Bytes :=
  '"'.toUInt8 :: value.flatMap escapeByte ++ ['"'.toUInt8]

/-- A comma stands between two strings of a list. -/
def quotedItems : List Bytes → Bytes
  | [] => "]"
  | [value] => quoted value ++ "]"
  | value :: rest => quoted value ++ "," ++ quotedItems rest

def quotedList (values : List Bytes) : Bytes := "[" ++ quotedItems values

/-! ## Whole manifests -/

def assignmentLine (key value : Bytes) : Bytes := key ++ " = " ++ value ++ "\n"

def headerLine (name : Bytes) : Bytes := "[" ++ name ++ "]\n"

def write (c : Config) : Bytes :=
  headerLine "blob"
    ++ assignmentLine "name" (quoted c.name)
    ++ assignmentLine "source" (quoted c.source)
    ++ assignmentLine "out_dir" (quoted c.outDir)
    ++ assignmentLine "archive" (quoted c.archive)
    ++ assignmentLine "object" (quoted c.object)
    ++ headerLine "toolchain"
    ++ assignmentLine "compiler" (quoted c.toolchain.compiler)
    ++ assignmentLine "archiver" (quoted c.toolchain.archiver)
    ++ assignmentLine "march" (quoted c.toolchain.march)
    ++ assignmentLine "mabi" (quoted c.toolchain.mabi)
    ++ assignmentLine "flags" (quotedList c.toolchain.flags)
    ++ headerLine "link"
    ++ assignmentLine "scripts" (quotedList c.linkScripts)

/-! ## Reading values back -/

theorem stringBody_escapeByte (c : UInt8) (rest : Bytes) :
    stringBody (escapeByte c ++ rest) = (c :: (stringBody rest).1, (stringBody rest).2) := by
  unfold escapeByte
  split
  · rename_i h
    subst h
    rfl
  · rename_i hquote
    split
    · rename_i h
      subst h
      rfl
    · rename_i hslash
      split
      · rename_i h
        subst h
        rfl
      · rename_i hnewline
        split
        · rename_i h
          subst h
          rfl
        · exact stringBody_plain (not_or.mpr ⟨hquote, hnewline⟩) hslash rest

theorem stringBody_quoted (value rest : Bytes) :
    stringBody (value.flatMap escapeByte ++ '"'.toUInt8 :: rest)
      = (value, '"'.toUInt8 :: rest) := by
  induction value with
  | nil => exact stringBody_stop (Or.inl rfl) rest
  | cons c value ih =>
      rw [List.flatMap_cons, List.append_assoc, stringBody_escapeByte, ih]

/-- A quoted value is read back, whatever follows it. -/
theorem string_quoted (value rest : Bytes) (line : Nat) :
    string ⟨quoted value ++ rest, line⟩ = (.ok value, ⟨rest, line⟩) := by
  have hbody := stringBody_quoted value rest
  simp only [quoted, string, Cursor.take?, List.cons_append, List.append_assoc,
    List.nil_append, if_true, hbody]

/-! ## Reading lists back -/

theorem skipSpace_quoted (value rest : Bytes) (line : Nat) :
    Cursor.skipSpace ⟨quoted value ++ rest, line⟩ = ⟨quoted value ++ rest, line⟩ :=
  skipSpace_cons (by decide) (by decide) (by decide)

theorem arrayItems_quotedItems (values : List Bytes) (rest : Bytes) (line : Nat) :
    arrayItems ⟨quotedItems values ++ rest, line⟩ = (.ok values, ⟨rest, line⟩) := by
  have hclose : ∀ more : Bytes,
      Cursor.skipSpace ⟨']'.toUInt8 :: more, line⟩ = ⟨']'.toUInt8 :: more, line⟩ :=
    fun more => skipSpace_cons (by decide) (by decide) (by decide)
  have hcomma : ∀ more : Bytes,
      Cursor.skipSpace ⟨','.toUInt8 :: more, line⟩ = ⟨','.toUInt8 :: more, line⟩ :=
    fun more => skipSpace_cons (by decide) (by decide) (by decide)
  induction values with
  | nil =>
      rw [arrayItems]
      rfl
  | cons value others ih =>
      cases others with
      | nil =>
          have hshape : quotedItems [value] ++ rest = quoted value ++ ']'.toUInt8 :: rest := by
            simp only [quotedItems, List.append_assoc]
            rfl
          rw [hshape, arrayItems_of_string (string_quoted ..), hclose]
          rfl
      | cons second others =>
          have hshape : quotedItems (value :: second :: others) ++ rest
              = quoted value ++ ','.toUInt8 :: (quotedItems (second :: others) ++ rest) := by
            simp only [quotedItems, List.append_assoc]
            rfl
          have hskip : Cursor.skipSpace ⟨quotedItems (second :: others) ++ rest, line⟩
              = ⟨quotedItems (second :: others) ++ rest, line⟩ := by
            cases others <;> simp only [quotedItems, List.append_assoc] <;>
              exact skipSpace_quoted ..
          rw [hshape, arrayItems_of_string (string_quoted ..), hcomma]
          simp only [Cursor.take?, if_true, hskip, ih]

/-- A quoted list is read back, whatever follows it. -/
theorem array_quotedList (values : List Bytes) (rest : Bytes) (line : Nat) :
    array ⟨quotedList values ++ rest, line⟩ = (.ok values, ⟨rest, line⟩) := by
  have hskip : Cursor.skipSpace ⟨quotedItems values ++ rest, line⟩
      = ⟨quotedItems values ++ rest, line⟩ := by
    match values with
    | [] => exact skipSpace_cons (by decide) (by decide) (by decide)
    | [value] =>
        simp only [quotedItems, List.append_assoc]
        exact skipSpace_quoted ..
    | value :: second :: others =>
        simp only [quotedItems, List.append_assoc]
        exact skipSpace_quoted ..
  have hshape : quotedList values ++ rest = '['.toUInt8 :: (quotedItems values ++ rest) := rfl
  rw [array, hshape]
  simp only [Cursor.take?, if_true, hskip]
  exact arrayItems_quotedItems ..

end Prebuilt.Manifest
