import Prebuilt.Bytes

/-!
# Scanning a manifest

The pieces that manifest lines are made of: blanks and comments,
identifiers, quoted strings, and arrays of them. A scan starts at a
`Cursor`, the text still to be read and the number of its first line,
and ends at another one, also when it fails.

Every scan leaves an end of the text it started with
(`suffix` lemmas), which is what lets the array and the item loop end.
Line numbers are counted where blank space is skipped and nowhere else;
a newline that is escaped inside a string is not counted.
-/

namespace Prebuilt.Manifest

structure Cursor where
  rest : Bytes
  line : Nat
deriving Repr, DecidableEq

/-- What is wrong with a manifest. -/
inductive Fault where
  | expectedString
  | unterminatedString
  | expectedArray
  | expectedSeparator
  | unclosedArray
  | trailingText
  | malformedHeader
  | expectedKey
  | keyOutsideSection (key : Bytes)
  | expectedEquals
deriving Repr, DecidableEq

def Fault.message : Fault → Bytes
  | .expectedString => "Expected string"
  | .unterminatedString => "Unterminated string"
  | .expectedArray => "Expected array"
  | .expectedSeparator => "Expected ',' or ']' in array"
  | .unclosedArray => "Expected closing bracket"
  | .trailingText => "Unexpected characters after value"
  | .malformedHeader => "Malformed section header"
  | .expectedKey => "Expected key"
  | .keyOutsideSection key => "Key '" ++ key ++ "' outside of a section"
  | .expectedEquals => "Expected '=' after key"

/-! ## Blank space -/

/-- Blank inside a line. -/
def isBlank (c : UInt8) : Bool := c = ' ' || c = '\t' || c = '\r'

def skipBlanks (b : Bytes) : Bytes := b.dropWhile isBlank

/-- A comment runs up to the end of its line. -/
def skipComment : Bytes → Bytes
  | [] => []
  | c :: rest => if c = '#' then rest.dropWhile (· ≠ '\n'.toUInt8) else c :: rest

/-- Skip blanks, comments and line ends. The flag tells that a comment
is being read. -/
def skipSpaceFrom (line : Nat) : (inComment : Bool) → Bytes → Cursor
  | _, [] => ⟨[], line⟩
  | inComment, c :: rest =>
      if c = '\n' then skipSpaceFrom (line + 1) false rest
      else if inComment then skipSpaceFrom line true rest
      else if isBlank c then skipSpaceFrom line false rest
      else if c = '#' then skipSpaceFrom line true rest
      else ⟨c :: rest, line⟩

def Cursor.skipSpace (c : Cursor) : Cursor := skipSpaceFrom c.line false c.rest

/-- No space precedes a byte that is neither blank nor the start of a
comment. -/
theorem skipSpace_cons {c : UInt8} {rest : Bytes} {line : Nat} (hnewline : c ≠ '\n')
    (hblank : isBlank c = false) (hcomment : c ≠ '#') :
    Cursor.skipSpace ⟨c :: rest, line⟩ = ⟨c :: rest, line⟩ := by
  simp [Cursor.skipSpace, skipSpaceFrom, hnewline, hblank, hcomment]

/-- The text after the given byte, if it comes next. -/
def Cursor.take? (c : Cursor) (b : UInt8) : Option Cursor :=
  match c.rest with
  | [] => none
  | d :: rest => if d = b then some { c with rest := rest } else none

/-! ## Identifiers -/

def isIdentifierByte (c : UInt8) : Bool := Byte.isAlphanumeric c || c = '_' || c = '-'

def identifier (b : Bytes) : Bytes × Bytes :=
  (b.takeWhile isIdentifierByte, b.dropWhile isIdentifierByte)

/-! ## Strings -/

/-- The byte that an escape stands for: a newline, a tab, or else the
escaped byte itself. -/
def unescape (c : UInt8) : UInt8 :=
  if c = 'n' then '\n' else if c = 't' then '\t' else c

/-- The value of a string after its opening quote, up to the first bare
quote, the end of the line, or the end of the text. -/
def stringBody : Bytes → Bytes × Bytes
  | [] => ([], [])
  | c :: rest =>
      if c = '"' ∨ c = '\n' then ([], c :: rest)
      else if c = '\\' then
        match rest with
        | [] => ([], [])
        | e :: rest => (unescape e :: (stringBody rest).1, (stringBody rest).2)
      else (c :: (stringBody rest).1, (stringBody rest).2)

theorem stringBody_stop {c : UInt8} (h : c = '"' ∨ c = '\n') (rest : Bytes) :
    stringBody (c :: rest) = ([], c :: rest) := by
  rw [stringBody.eq_def]
  exact if_pos h

theorem stringBody_escape (e : UInt8) (rest : Bytes) :
    stringBody ('\\'.toUInt8 :: e :: rest)
      = (unescape e :: (stringBody rest).1, (stringBody rest).2) := by
  rw [stringBody.eq_def]
  rfl

theorem stringBody_plain {c : UInt8} (hstop : ¬ (c = '"' ∨ c = '\n')) (hslash : c ≠ '\\')
    (rest : Bytes) : stringBody (c :: rest) = (c :: (stringBody rest).1, (stringBody rest).2) := by
  rw [stringBody.eq_def]
  exact (if_neg hstop).trans (if_neg hslash)

def string (c : Cursor) : Except Fault Bytes × Cursor :=
  match c.take? '"' with
  | none => (.error .expectedString, c)
  | some opened =>
      let body := stringBody opened.rest
      let stopped : Cursor := { c with rest := body.2 }
      match stopped.take? '"' with
      | none => (.error .unterminatedString, stopped)
      | some closed => (.ok body.1, closed)

/-! ## What a scan leaves -/

theorem suffix_dropWhile (p : UInt8 → Bool) (b : Bytes) : b.dropWhile p <:+ b :=
  List.dropWhile_suffix p

theorem skipComment_suffix (b : Bytes) : skipComment b <:+ b := by
  unfold skipComment
  split
  · exact List.suffix_rfl
  · split
    · exact (suffix_dropWhile _ _).trans (List.suffix_cons ..)
    · exact List.suffix_rfl

theorem skipSpaceFrom_suffix (b : Bytes) (line : Nat) (inComment : Bool) :
    (skipSpaceFrom line inComment b).rest <:+ b := by
  induction b generalizing line inComment with
  | nil => simp [skipSpaceFrom]
  | cons c rest ih =>
      unfold skipSpaceFrom
      have step := fun l f => (ih l f).trans (List.suffix_cons c rest)
      split
      · exact step _ _
      · split
        · exact step _ _
        · split
          · exact step _ _
          · split
            · exact step _ _
            · exact List.suffix_rfl

theorem Cursor.skipSpace_suffix (c : Cursor) : c.skipSpace.rest <:+ c.rest :=
  skipSpaceFrom_suffix ..

theorem Cursor.take?_eq_some_iff {c d : Cursor} {b : UInt8} :
    c.take? b = some d ↔ c.rest = b :: d.rest ∧ d.line = c.line := by
  obtain ⟨rest, line⟩ := c
  obtain ⟨rest', line'⟩ := d
  unfold take?
  cases rest with
  | nil => simp
  | cons e rest =>
      by_cases h : e = b
      · simp [h, eq_comm]
      · simp [h]

theorem Cursor.take?_eq_none_iff {c : Cursor} {b : UInt8} :
    c.take? b = none ↔ ∀ rest, c.rest ≠ b :: rest := by
  rw [Option.eq_none_iff_forall_ne_some]
  constructor
  · intro h rest hrest
    exact h ⟨rest, c.line⟩ (take?_eq_some_iff.mpr ⟨hrest, rfl⟩)
  · intro h d hd
    exact h d.rest (take?_eq_some_iff.mp hd).1

theorem stringBody_suffix (b : Bytes) : (stringBody b).2 <:+ b := by
  fun_induction stringBody b with
  | case1 => exact List.suffix_rfl
  | case2 => exact List.suffix_rfl
  | case3 => exact List.nil_suffix
  | case4 e rest _ ih =>
      exact ih.trans ((List.suffix_cons e rest).trans (List.suffix_cons ..))
  | case5 c rest _ _ ih => exact ih.trans (List.suffix_cons ..)

theorem string_suffix (c : Cursor) : (string c).2.rest <:+ c.rest := by
  unfold string
  split
  · exact List.suffix_rfl
  · rename_i opened h
    have hc := (Cursor.take?_eq_some_iff.mp h).1
    have hbody : (stringBody opened.rest).2 <:+ c.rest := by
      rw [hc]
      exact (stringBody_suffix _).trans (List.suffix_cons ..)
    simp only
    split
    · exact hbody
    · rename_i closed hclosed
      have := (Cursor.take?_eq_some_iff.mp hclosed).1
      simp only at this
      exact (this ▸ List.suffix_cons ..).trans hbody

/-- A string takes at least its opening quote. -/
theorem string_length_lt {c d : Cursor} {value : Bytes}
    (h : string c = (.ok value, d)) : d.rest.length < c.rest.length := by
  unfold string at h
  split at h
  · simp at h
  · rename_i opened hopened
    have hc := (Cursor.take?_eq_some_iff.mp hopened).1
    simp only at h
    split at h
    · simp at h
    · rename_i closed hclosed
      have hd := (Cursor.take?_eq_some_iff.mp hclosed).1
      simp only [Prod.mk.injEq, Except.ok.injEq] at h
      obtain ⟨-, rfl⟩ := h
      have := (stringBody_suffix opened.rest).length_le
      simp only at hd
      rw [hd, List.length_cons] at this
      rw [hc, List.length_cons]
      omega

/-! ## Arrays -/

/-- After a string and its comma less is left to read. -/
theorem length_after_comma {c c' after : Cursor} {value : Bytes}
    (h : string c = (.ok value, c')) (hcomma : c'.skipSpace.take? ',' = some after) :
    after.skipSpace.rest.length < c.rest.length := by
  have h1 := string_length_lt h
  have h2 := c'.skipSpace_suffix.length_le
  have h3 := after.skipSpace_suffix.length_le
  rw [(Cursor.take?_eq_some_iff.mp hcomma).1, List.length_cons] at h2
  omega

/-- The strings of an array after its opening bracket. A comma follows
every string but the last, which may have one too. -/
def arrayItems (c : Cursor) : Except Fault (List Bytes) × Cursor :=
  match c.rest with
  | [] => (.error .unclosedArray, c)
  | b :: rest =>
      if b = ']' then (.ok [], { c with rest := rest })
      else
        match h : string c with
        | (.error e, c) => (.error e, c)
        | (.ok value, c') =>
            match hcomma : c'.skipSpace.take? ',' with
            | some after =>
                have := length_after_comma h hcomma
                match arrayItems after.skipSpace with
                | (.error e, c) => (.error e, c)
                | (.ok values, c) => (.ok (value :: values), c)
            | none =>
                match c'.skipSpace.take? ']' with
                | none => (.error .expectedSeparator, c'.skipSpace)
                | some after => (.ok [value], after)
termination_by c.rest.length

def array (c : Cursor) : Except Fault (List Bytes) × Cursor :=
  match c.take? '[' with
  | none => (.error .expectedArray, c)
  | some opened => arrayItems opened.skipSpace

/-- A string that is read is an element of the array, whatever comes
after it. -/
theorem arrayItems_of_string {c c' : Cursor} {value : Bytes} (h : string c = (.ok value, c')) :
    arrayItems c
      = match c'.skipSpace.take? ',' with
        | some after =>
            match arrayItems after.skipSpace with
            | (.error e, c) => (.error e, c)
            | (.ok values, c) => (.ok (value :: values), c)
        | none =>
            match c'.skipSpace.take? ']' with
            | none => (.error .expectedSeparator, c'.skipSpace)
            | some after => (.ok [value], after) := by
  have hquote : ∃ rest, c.rest = '"'.toUInt8 :: rest := by
    cases hopen : c.take? '"' with
    | none => rw [string, hopen] at h; cases h
    | some opened => exact ⟨opened.rest, (Cursor.take?_eq_some_iff.mp hopen).1⟩
  obtain ⟨rest, hrest⟩ := hquote
  have hbracket : '"'.toUInt8 ≠ ']'.toUInt8 := by decide
  rw [arrayItems]
  split
  · rename_i hnil
    rw [hnil] at hrest
    cases hrest
  rename_i b tail hcons
  rw [hrest] at hcons
  obtain ⟨rfl, rfl⟩ := List.cons.inj hcons
  rw [if_neg hbracket]
  split
  · rename_i hs
    rw [h] at hs
    cases hs
  · rename_i found c'' hs
    rw [h] at hs
    obtain ⟨rfl, rfl⟩ : value = found ∧ c' = c'' := by simpa using hs
    split
    · rename_i after hcomma
      simp only [hcomma]
    · rename_i hcomma
      simp only [hcomma]

theorem arrayItems_suffix (c : Cursor) : (arrayItems c).2.rest <:+ c.rest := by
  have past : ∀ {c c' after : Cursor} {value : Bytes} {b : UInt8},
      string c = (.ok value, c') → c'.skipSpace.take? b = some after →
        after.rest <:+ c.rest := by
    intro c c' after value b hs ht
    have h1 := string_suffix c
    rw [hs] at h1
    have h2 := (Cursor.take?_eq_some_iff.mp ht).1
    exact (h2 ▸ List.suffix_cons .. : after.rest <:+ c'.skipSpace.rest).trans
      (c'.skipSpace_suffix.trans h1)
  fun_induction arrayItems c with
  | case1 => exact List.suffix_rfl
  | case2 c rest h => exact h ▸ List.suffix_cons ..
  | case3 c b rest h hb e c' hs =>
      have := string_suffix c
      rwa [hs] at this
  | case4 c b rest h hb value c' hs after hcomma _ e c'' harr ih =>
      rw [harr] at ih
      exact ih.trans (after.skipSpace_suffix.trans (past hs hcomma))
  | case5 c b rest h hb value c' hs after hcomma _ values c'' harr ih =>
      rw [harr] at ih
      exact ih.trans (after.skipSpace_suffix.trans (past hs hcomma))
  | case6 c b rest h hb value c' hs hcomma hclose =>
      have h1 := string_suffix c
      rw [hs] at h1
      exact c'.skipSpace_suffix.trans h1
  | case7 c b rest h hb value c' hs hcomma after hclose => exact past hs hclose

theorem array_suffix (c : Cursor) : (array c).2.rest <:+ c.rest := by
  unfold array
  split
  · exact List.suffix_rfl
  · rename_i opened h
    have hc := (Cursor.take?_eq_some_iff.mp h).1
    exact (arrayItems_suffix _).trans (opened.skipSpace_suffix.trans
      (hc ▸ List.suffix_cons ..))

end Prebuilt.Manifest
