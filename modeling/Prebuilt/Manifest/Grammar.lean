import Prebuilt.Manifest.Item

/-!
# The grammar of manifests

What a manifest looks like, said without cursors, faults and line
numbers, and without the predicates of the scanners: each relation tells
which texts stand for a value, and which value that is.

A manifest is a sequence of lines. A line is empty, or holds one item;
blanks may come before the item, blanks and a comment after it. Inside
the brackets of an array line ends are space like blanks are, so an
array may reach over several lines of the text.

`string_eq_ok_iff` says that the scanner for strings accepts the strings
of this grammar and no others.
-/

namespace Prebuilt.Manifest

/-! ## Strings -/

/-- The text between the quotes of a string, and the value it stands for. -/
inductive StringText : Bytes → Bytes → Prop
  | nil : StringText [] []
  | plain {c : UInt8} {text value : Bytes} (hquote : c ≠ '"') (hslash : c ≠ '\\')
      (hnewline : c ≠ '\n') (rest : StringText text value) :
      StringText (c :: text) (c :: value)
  | newline {text value : Bytes} (rest : StringText text value) :
      StringText ('\\'.toUInt8 :: 'n'.toUInt8 :: text) ('\n'.toUInt8 :: value)
  | tab {text value : Bytes} (rest : StringText text value) :
      StringText ('\\'.toUInt8 :: 't'.toUInt8 :: text) ('\t'.toUInt8 :: value)
  | escaped {c : UInt8} {text value : Bytes} (hnewline : c ≠ 'n') (htab : c ≠ 't')
      (rest : StringText text value) : StringText ('\\'.toUInt8 :: c :: text) (c :: value)

/-- A string with its quotes. -/
def QuotedText (text value : Bytes) : Prop :=
  ∃ inner, StringText inner value ∧ text = '"'.toUInt8 :: inner ++ ['"'.toUInt8]

/-! ## Space -/

def BlankByte (c : UInt8) : Prop := c = ' ' ∨ c = '\t' ∨ c = '\r'

theorem isBlank_iff {c : UInt8} : isBlank c = true ↔ BlankByte c := by
  simp only [isBlank, BlankByte, Bool.or_eq_true, decide_eq_true_eq, or_assoc]

def IsBlanks (text : Bytes) : Prop := ∀ c ∈ text, BlankByte c

/-- A comment without the end of its line. -/
def IsComment (text : Bytes) : Prop :=
  ∃ note, text = '#'.toUInt8 :: note ∧ '\n'.toUInt8 ∉ note

/-- Space between the tokens of an array. A comment ends with its line. -/
inductive IsSpace : Bytes → Prop
  | nil : IsSpace []
  | blank {c : UInt8} {text : Bytes} (h : BlankByte c) (rest : IsSpace text) :
      IsSpace (c :: text)
  | newline {text : Bytes} (rest : IsSpace text) : IsSpace ('\n'.toUInt8 :: text)
  | comment {note text : Bytes} (h : IsComment note) (rest : IsSpace text) :
      IsSpace (note ++ '\n'.toUInt8 :: text)

/-! ## Values -/

/-- The text of an array after its opening bracket and the space there. -/
inductive ElementsText : Bytes → List Bytes → Prop
  | close : ElementsText [']'.toUInt8] []
  | last {text space value : Bytes} (h : QuotedText text value) (hspace : IsSpace space) :
      ElementsText (text ++ space ++ [']'.toUInt8]) [value]
  | more {text before after value rest : Bytes} {values : List Bytes}
      (h : QuotedText text value) (hbefore : IsSpace before) (hafter : IsSpace after)
      (hrest : ElementsText rest values) :
      ElementsText (text ++ before ++ ','.toUInt8 :: after ++ rest) (value :: values)

/-- The two keys that call for an array. -/
def IsListKey (sec key : Bytes) : Prop :=
  (sec = "link" ∧ key = "scripts") ∨ (sec = "toolchain" ∧ key = "flags")

theorem takesList_iff {sec key : Bytes} : takesList sec key = true ↔ IsListKey sec key := by
  simp only [takesList, IsListKey, Bool.or_eq_true, Bool.and_eq_true, decide_eq_true_eq]

theorem takesList_eq_false_iff {sec key : Bytes} :
    takesList sec key = false ↔ ¬ IsListKey sec key := by
  rw [← takesList_iff, Bool.not_eq_true]

instance (sec key : Bytes) : Decidable (IsListKey sec key) :=
  inferInstanceAs (Decidable (_ ∨ _))

/-- The text of a value, of the kind that its section and key call for. -/
inductive ValueText (sec key : Bytes) : Bytes → Value → Prop
  | text {text value : Bytes} (hkind : ¬ IsListKey sec key)
      (h : QuotedText text value) : ValueText sec key text (.text value)
  | list {space rest : Bytes} {values : List Bytes} (hkind : IsListKey sec key)
      (hspace : IsSpace space) (h : ElementsText rest values) :
      ValueText sec key ('['.toUInt8 :: space ++ rest) (.list values)

/-! ## Items -/

/-- A letter or a digit of ASCII, or one of two signs. -/
def IdentifierByte (c : UInt8) : Prop :=
  ('0'.toUInt8 ≤ c ∧ c ≤ '9'.toUInt8) ∨ ('a'.toUInt8 ≤ c ∧ c ≤ 'z'.toUInt8) ∨
    ('A'.toUInt8 ≤ c ∧ c ≤ 'Z'.toUInt8) ∨ c = '_' ∨ c = '-'

theorem isIdentifierByte_iff {c : UInt8} : isIdentifierByte c = true ↔ IdentifierByte c := by
  simp only [isIdentifierByte, IdentifierByte, Byte.isAlphanumeric, Byte.isDigit, Byte.isLower,
    Byte.isUpper, Bool.or_eq_true, Bool.and_eq_true, decide_eq_true_eq, or_assoc]

instance (c : UInt8) : Decidable (IdentifierByte c) := decidable_of_iff _ isIdentifierByte_iff

def IsIdentifier (text : Bytes) : Prop := text ≠ [] ∧ ∀ c ∈ text, IdentifierByte c

instance (text : Bytes) : Decidable (IsIdentifier text) :=
  decidable_of_iff (text ≠ [] ∧ text.all isIdentifierByte = true) (and_congr_right fun _ => by
    simp only [List.all_eq_true, isIdentifierByte_iff])

/-- An assignment wherever it stands. -/
structure Setting where
  sectionName : Bytes
  key : Bytes
  value : Value
deriving Repr, DecidableEq

def Assignment.setting (a : Assignment) : Setting := ⟨a.sectionName, a.key, a.value⟩

/-- The text of an item in the section `sec`: the section that follows
it, and what it sets. Nothing is set before the first header. -/
inductive ItemText (sec : Bytes) : Bytes → Bytes → List Setting → Prop
  | header {before name after : Bytes} (hbefore : IsBlanks before)
      (hname : IsIdentifier name) (hafter : IsBlanks after) :
      ItemText sec ('['.toUInt8 :: before ++ name ++ after ++ [']'.toUInt8]) name []
  | assignment {key before after text : Bytes} {value : Value} (hsec : sec ≠ [])
      (hkey : IsIdentifier key) (hbefore : IsBlanks before) (hafter : IsBlanks after)
      (h : ValueText sec key text value) :
      ItemText sec (key ++ before ++ '='.toUInt8 :: after ++ text) sec [⟨sec, key, value⟩]

/-- Blanks, and perhaps a comment after them. -/
def IsLineEnd (text : Bytes) : Prop :=
  ∃ blanks note, text = blanks ++ note ∧ IsBlanks blanks ∧ (note = [] ∨ IsComment note)

/-- One line without its end, with what an item on it sets. -/
inductive LineText (sec : Bytes) : Bytes → Bytes → List Setting → Prop
  | empty {text : Bytes} (h : IsLineEnd text) : LineText sec text sec []
  | item {before text after next : Bytes} {settings : List Setting}
      (hbefore : IsBlanks before) (h : ItemText sec text next settings)
      (hafter : IsLineEnd after) : LineText sec (before ++ text ++ after) next settings

/-- The lines of a manifest. The last one need not be ended. -/
inductive LinesText : Bytes → Bytes → List Setting → Prop
  | last {sec text next : Bytes} {settings : List Setting}
      (h : LineText sec text next settings) : LinesText sec text settings
  | line {sec text next rest : Bytes} {settings more : List Setting}
      (h : LineText sec text next settings) (hrest : LinesText next rest more) :
      LinesText sec (text ++ '\n'.toUInt8 :: rest) (settings ++ more)

/-- The text is a manifest, and these are its settings in their order. -/
def ManifestText (text : Bytes) (settings : List Setting) : Prop :=
  LinesText [] text settings

/-! ## Scanning strings -/

/-- Nothing but a closing quote keeps the body of a string from going on. -/
theorem stringBody_of_text {text value : Bytes} (h : StringText text value) (rest : Bytes) :
    stringBody (text ++ '"'.toUInt8 :: rest) = (value, '"'.toUInt8 :: rest) := by
  induction h with
  | nil => exact stringBody_stop (Or.inl rfl) rest
  | plain hquote hslash hnewline _ ih =>
      rw [List.cons_append, stringBody_plain (not_or.mpr ⟨hquote, hnewline⟩) hslash, ih]
  | newline _ ih =>
      rw [List.cons_append, List.cons_append, stringBody_escape, ih]
      rfl
  | tab _ ih =>
      rw [List.cons_append, List.cons_append, stringBody_escape, ih]
      rfl
  | escaped hnewline htab _ ih =>
      rw [List.cons_append, List.cons_append, stringBody_escape, ih, unescape, if_neg hnewline,
        if_neg htab]

/-- Every escape is one of the three. -/
theorem StringText.cons_unescape {text value : Bytes} (c : UInt8) (rest : StringText text value) :
    StringText ('\\'.toUInt8 :: c :: text) (unescape c :: value) := by
  unfold unescape
  split
  · rename_i hnewline
    subst hnewline
    exact .newline rest
  · rename_i hnewline
    split
    · rename_i htab
      subst htab
      exact .tab rest
    · rename_i htab
      exact .escaped hnewline htab rest

/-- A body that ends at a quote is the text of its value. -/
theorem text_of_stringBody {b rest : Bytes} (h : (stringBody b).2 = '"'.toUInt8 :: rest) :
    ∃ text, StringText text (stringBody b).1 ∧ b = text ++ '"'.toUInt8 :: rest := by
  fun_induction stringBody b with
  | case1 => simp at h
  | case2 c tail hstop => exact ⟨[], .nil, h⟩
  | case3 => simp at h
  | case4 e tail _ ih =>
      obtain ⟨text, htext, rfl⟩ := ih h
      exact ⟨'\\'.toUInt8 :: e :: text, htext.cons_unescape e, rfl⟩
  | case5 c tail hstop hslash ih =>
      obtain ⟨text, htext, rfl⟩ := ih h
      rw [not_or] at hstop
      exact ⟨c :: text, .plain hstop.1 hslash hstop.2 htext, rfl⟩

/-- The scanner takes a string where one stands, and nothing else. -/
theorem string_eq_ok_iff {c d : Cursor} {value : Bytes} :
    string c = (.ok value, d)
      ↔ ∃ text, QuotedText text value ∧ c.rest = text ++ d.rest ∧ d.line = c.line := by
  obtain ⟨rest, line⟩ := c
  obtain ⟨rest', line'⟩ := d
  constructor
  · intro h
    unfold string at h
    split at h
    · simp at h
    · rename_i opened hopened
      have hquote := (Cursor.take?_eq_some_iff.mp hopened).1
      simp only at h hquote
      split at h
      · simp at h
      · rename_i closed hclosed
        have hend := (Cursor.take?_eq_some_iff.mp hclosed)
        simp only at hend
        obtain ⟨text, htext, hbody⟩ := text_of_stringBody hend.1
        simp only [Prod.mk.injEq, Except.ok.injEq] at h
        obtain ⟨rfl, rfl⟩ := h
        refine ⟨_, ⟨text, htext, rfl⟩, ?_, hend.2⟩
        simp only [hquote, hbody, List.cons_append, List.append_assoc, List.nil_append]
  · rintro ⟨_, ⟨text, htext, rfl⟩, hrest, rfl⟩
    have hbody := stringBody_of_text htext rest'
    simp only at hrest
    simp only [string, hrest, Cursor.take?, List.cons_append, List.append_assoc,
      List.nil_append, if_true, hbody]

end Prebuilt.Manifest
