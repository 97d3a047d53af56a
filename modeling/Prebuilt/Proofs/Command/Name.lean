import Prebuilt.Proofs.Command.Split

/-!
# What a tool name is taken for

The first word of a command line need not be a command. A shell looks at
the word as it is written: a word that it reserves opens a construct of
its own grammar, and a name with an equals sign and a value behind it
sets a variable. Quotes hide both. Any other word is the name of the
command to run, without its quotes.

`quoteName` leaves a name bare if it holds harmless bytes only, and among
these are the letters of reserved words and the equals sign. So a tool
name is taken for a command unless it is bare and one of the two
(`firstRole?_eq_command_iff`).
-/

namespace Prebuilt.Command

/-! ## The first word of a line -/

/-- What a shell takes the first word of a command line for. -/
inductive Role where
  | reserved
  | assignment
  | command (name : Bytes)
deriving Repr, DecidableEq

/-- A word up to the blank behind it, as it is written. -/
def writtenWord : Mode → Bytes → Bytes
  | _, [] => []
  | mode, c :: rest =>
      if mode = .bare ∧ isSeparator c = true then [] else c :: writtenWord (mode.next c) rest

/-- The role of a word, by the way it is written. There is none if a
quote is not closed. -/
def roleOf? (written : Bytes) : Option Role :=
  if written ∈ reservedWords then some .reserved
  else if isAssignment written then some .assignment
  else
    match words? written with
    | some [name] => some (.command name)
    | _ => none

/-- The role of the first word of a command line. -/
def firstRole? (line : Bytes) : Option Role :=
  roleOf? (writtenWord .bare (line.dropWhile isSeparator))

/-! ## Where a word ends -/

theorem isMetacharacter_of_isSeparator {c : UInt8} (h : isSeparator c = true) :
    isMetacharacter c = true := by
  simp only [isSeparator, Bool.or_eq_true, decide_eq_true_eq] at h
  rcases h with rfl | rfl <;> decide

/-- A word has no blank outside of its quotes. -/
def IsWord (mode : Mode) (text : Bytes) : Prop :=
  mode.after text = .bare ∧ ∀ c ∈ bareBytes mode text, isSeparator c = false

theorem IsWord.tail {mode : Mode} {c : UInt8} {text : Bytes} (h : IsWord mode (c :: text)) :
    ¬ (mode = .bare ∧ isSeparator c = true) ∧ IsWord (mode.next c) text := by
  obtain ⟨hafter, hbare⟩ := h
  rw [bareBytes] at hbare
  by_cases hshows : mode.shows c = true
  · rw [if_pos hshows] at hbare
    obtain ⟨hc, htext⟩ := List.forall_mem_cons.mp hbare
    refine ⟨fun hblank => ?_, hafter, htext⟩
    rw [hc] at hblank
    exact Bool.false_ne_true hblank.2
  · rw [if_neg hshows] at hbare
    refine ⟨?_, hafter, hbare⟩
    -- Outside of quotes a blank is one of the bytes that show.
    rintro ⟨rfl, hblank⟩
    simp only [isSeparator, Bool.or_eq_true, decide_eq_true_eq] at hblank
    rcases hblank with rfl | rfl <;> exact hshows (by decide)

theorem writtenWord_append {mode : Mode} {text rest : Bytes} (h : IsWord mode text)
    (hrest : rest = [] ∨ rest.head? = some ' '.toUInt8) :
    writtenWord mode (text ++ rest) = text := by
  induction text generalizing mode with
  | nil =>
      obtain rfl : mode = .bare := h.1
      rcases hrest with rfl | hrest
      · rfl
      · cases rest with
        | nil => rfl
        | cons c rest =>
            obtain rfl : c = ' '.toUInt8 := Option.some.inj hrest
            rfl
  | cons c text ih =>
      obtain ⟨hgoes, htail⟩ := h.tail
      rw [List.cons_append, writtenWord, if_neg hgoes, ih htail]

/-! ## Tool names -/

/-- The name is written as it is. -/
def IsBare (name : Bytes) : Prop := name ≠ [] ∧ name.all isHarmless = true

theorem quoteName_of_isBare {name : Bytes} (h : IsBare name) : quoteName name = name := if_pos h

theorem quoteName_of_not_isBare {name : Bytes} (h : ¬ IsBare name) :
    quoteName name = quote name := if_neg h

theorem isWord_quoteName (name : Bytes) : IsWord .bare (quoteName name) := by
  by_cases h : IsBare name
  · rw [quoteName_of_isBare h]
    have hinert : Inert (fun _ => False) (fun _ => True) name :=
      inert_harmless (List.all_eq_true.mp h.2)
    refine ⟨hinert.closed, fun c hc => Bool.eq_false_iff.mpr fun hblank => ?_⟩
    exact hinert.bare c hc (isMetacharacter_of_isSeparator hblank)
  · rw [quoteName_of_not_isBare h]
    obtain ⟨hafter, hbare, -⟩ := outside_quote name
    refine ⟨hafter, ?_⟩
    rw [hbare]
    exact List.forall_mem_nil _

theorem words?_quoteName (name : Bytes) : words? (quoteName name) = some [name] := by
  rw [words?_eq_wordsOf (isWord_quoteName name).1, wordsOf_quoteName]

/-- A word that begins with a quote is neither reserved nor an assignment. -/
theorem quote_hides (word : Bytes) :
    quote word ∉ reservedWords ∧ isAssignment (quote word) = false := by
  constructor
  · intro hmem
    have hheads : ∀ text ∈ reservedWords, text.head? ≠ some '\''.toUInt8 := by decide
    refine hheads _ hmem ?_
    rw [quote_eq_cons]
    rfl
  · rw [isAssignment]
    split
    · rfl
    · rename_i name value hcut
      obtain ⟨hshape, -⟩ := Bytes.cut?_eq_some_iff.mp hcut
      cases name with
      | nil => rfl
      | cons c name =>
          rw [quote_eq_cons, List.cons_append] at hshape
          obtain ⟨rfl, -⟩ := List.cons.inj hshape
          rfl

/-- The first word of a line is seen as it was put there. -/
theorem firstRole?_unwords {text : Bytes} (h : IsWord .bare text) (hne : text ≠ [])
    (args : List Bytes) : firstRole? (unwords (text :: args)) = roleOf? text := by
  obtain ⟨rest, hline, hrest⟩ : ∃ rest, unwords (text :: args) = text ++ rest ∧
      (rest = [] ∨ rest.head? = some ' '.toUInt8) := by
    by_cases hnil : args = []
    · exact ⟨[], by rw [hnil, unwords_singleton, List.append_nil], Or.inl rfl⟩
    · refine ⟨' '.toUInt8 :: unwords args, ?_, Or.inr rfl⟩
      rw [← List.singleton_append, unwords_append (List.cons_ne_nil _ _) hnil, unwords_singleton]
  have hstart : (text ++ rest).dropWhile isSeparator = text ++ rest := by
    obtain ⟨c, tail, rfl⟩ := List.exists_cons_of_ne_nil hne
    exact List.dropWhile_cons_of_neg fun hblank => h.tail.1 ⟨rfl, hblank⟩
  rw [firstRole?, hline, hstart, writtenWord_append h hrest]

/-- At the head of a command line, with any texts behind it, a tool name
is the name of the command to run, unless it is bare and a word that the
shell reserves or an assignment. -/
theorem firstRole?_eq_command_iff (name : Bytes) (args : List Bytes) :
    firstRole? (unwords (quoteName name :: args)) = some (.command name)
      ↔ ¬ (IsBare name ∧ (name ∈ reservedWords ∨ isAssignment name = true)) := by
  have hne : quoteName name ≠ [] := by
    intro hnil
    have hwords := words?_quoteName name
    rw [hnil] at hwords
    cases hwords
  rw [firstRole?_unwords (isWord_quoteName name) hne, roleOf?, words?_quoteName]
  by_cases hbare : IsBare name
  · rw [quoteName_of_isBare hbare]
    by_cases hreserved : name ∈ reservedWords
    · simp [hreserved, hbare]
    · cases hassign : isAssignment name <;> simp [hreserved, hbare]
  · obtain ⟨hreserved, hassign⟩ := quote_hides name
    rw [quoteName_of_not_isBare hbare, if_neg hreserved, hassign, if_neg Bool.false_ne_true]
    simp [hbare]

/-- Two names that can be those of programs and are not run. -/
theorem firstRole?_ne_command :
    firstRole? (unwords [quoteName "cc=gcc", "-c"]) = some .assignment ∧
      firstRole? (unwords [quoteName "if", "crs"]) = some .reserved := by
  decide

end Prebuilt.Command
