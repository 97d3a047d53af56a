import Prebuilt.Command.Line

/-!
# Taking a command line apart

The words that a shell finds in a command line: blanks separate words,
single quotes keep everything literal, double quotes keep most, and a
backslash keeps the byte after it. How a line goes on is decided byte by
byte (`Mode.next`), and so is what each byte does to the word under way
(`Mode.effect`). Nothing is expanded here: what a shell would make more of
than words is told by `isMeta` and `bareBytes`.

The main statement is `wordsFrom_quote`: a quoted text adds exactly its
own bytes to the word it stands in.
-/

namespace Prebuilt.Command

def isSeparator (c : UInt8) : Bool := c = ' ' || c = '\t'

/-- What the next byte is to a shell. -/
inductive Mode where
  | bare
  /-- Within single quotes. -/
  | single
  /-- Within double quotes. -/
  | double
  /-- After a backslash outside of quotes. -/
  | escaped
  /-- After a backslash within double quotes. -/
  | doubleEscaped
deriving Repr, DecidableEq

/-- What the byte after this one is to a shell. -/
def Mode.next : Mode → UInt8 → Mode
  | .bare, c =>
      if c = '\'' then .single
      else if c = '"' then .double
      else if c = '\\' then .escaped
      else .bare
  | .single, c => if c = '\'' then .bare else .single
  | .double, c => if c = '"' then .bare else if c = '\\' then .doubleEscaped else .double
  | .escaped, _ => .bare
  | .doubleEscaped, _ => .double

/-- What a byte does to the word under way. -/
inductive Effect where
  | nothing
  /-- It adds bytes, and begins a word if there is none. -/
  | adds (bytes : Bytes)
  | ends
deriving Repr, DecidableEq

def Mode.effect : Mode → UInt8 → Effect
  -- Quotes make a word even if nothing is in them.
  | .bare, c =>
      if c = '\'' ∨ c = '"' then .adds []
      else if c = '\\' then .nothing
      else if isSeparator c then .ends
      else .adds [c]
  | .single, c => if c = '\'' then .nothing else .adds [c]
  | .double, c => if c = '"' ∨ c = '\\' then .nothing else .adds [c]
  -- A backslash takes the end of a line out.
  | .escaped, c => if c = '\n' then .nothing else .adds [c]
  -- It is one of the bytes itself where there is nothing for it to keep.
  | .doubleEscaped, c =>
      if c = '\n' then .nothing
      else if (Bytes.ofString "$`\"\\").contains c then .adds [c]
      else .adds ['\\', c]

/-- The words of a text, given the word under way. There are none if a
quote is not closed, or if nothing follows a backslash. -/
def wordsFrom (current : Option Bytes) (mode : Mode) : Bytes → Option (List Bytes)
  | [] => if mode = .bare then some current.toList else none
  | c :: rest =>
      match mode.effect c with
      | .nothing => wordsFrom current (mode.next c) rest
      | .adds bytes => wordsFrom (some (current.getD [] ++ bytes)) (mode.next c) rest
      | .ends => (wordsFrom none (mode.next c) rest).map (current.toList ++ ·)

def words? (line : Bytes) : Option (List Bytes) := wordsFrom none .bare line

/-! ## What is left to the shell -/

/-- A byte that a shell may take for more than itself. -/
def isMeta (c : UInt8) : Bool :=
  (Bytes.ofString "|&;<>()$`\\\"' \t\n*?[]#~=%\x7b\x7d!").contains c

/-- The byte stands outside of quotes, or means something within double
quotes. Single quotes and backslashes only say how to take others. -/
def Mode.shows : Mode → UInt8 → Bool
  | .bare, c => c ≠ '\'' && c ≠ '\\'
  | .double, c => c = '"' || c = '$' || c = '`'
  | _, _ => false

/-- The bytes of a text that a shell may act on. -/
def bareBytes (mode : Mode) : Bytes → Bytes
  | [] => []
  | c :: rest =>
      if mode.shows c then c :: bareBytes (mode.next c) rest else bareBytes (mode.next c) rest

/-- The words that a shell reserves where a command may begin. -/
def reservedWords : List Bytes :=
  ["!", "\x7b", "\x7d", "case", "do", "done", "elif", "else", "esac", "fi", "for", "if", "in",
   "then", "until", "while"]

/-- The text assigns a variable if it stands unquoted before a command. -/
def isAssignment (word : Bytes) : Bool :=
  match word.cut? '=' with
  | none => false
  | some (name, _) =>
      match name with
      | [] => false
      | c :: _ => !Byte.isDigit c && name.all fun c => Byte.isAlphanumeric c || c = '_'

/-! ## Quoted and harmless texts -/

/-- Within single quotes every other byte adds itself. -/
theorem wordsFrom_single {c : UInt8} (h : c ≠ '\'') (current : Option Bytes) (rest : Bytes) :
    wordsFrom current .single (c :: rest)
      = wordsFrom (some (current.getD [] ++ [c])) .single rest := by
  rw [wordsFrom, Mode.effect, if_neg h, Mode.next, if_neg h]

theorem wordsFrom_flatMap_quoteByte (seen word rest : Bytes) :
    wordsFrom (some seen) .single (word.flatMap quoteByte ++ '\''.toUInt8 :: rest)
      = wordsFrom (some (seen ++ word)) .bare rest := by
  induction word generalizing seen with
  | nil => rw [List.append_nil]; rfl
  | cons c word ih =>
      have hstep : wordsFrom (some seen) .single
          (quoteByte c ++ (word.flatMap quoteByte ++ '\''.toUInt8 :: rest))
            = wordsFrom (some (seen ++ [c])) .single
                (word.flatMap quoteByte ++ '\''.toUInt8 :: rest) := by
        unfold quoteByte
        split
        · rename_i h
          subst h
          -- The quote is closed, escaped and opened again.
          exact congrArg (fun seen => wordsFrom (some seen) .single _) (List.append_nil _)
        · rename_i h
          rw [List.singleton_append, wordsFrom_single h, Option.getD_some]
      rw [List.flatMap_cons, List.append_assoc, hstep, ih, List.append_assoc,
        List.singleton_append]

/-- A quoted text adds its own bytes to the word it stands in. -/
theorem wordsFrom_quote (current : Option Bytes) (word rest : Bytes) :
    wordsFrom current .bare (quote word ++ rest)
      = wordsFrom (some (current.getD [] ++ word)) .bare rest := by
  have hshape : quote word ++ rest
      = '\''.toUInt8 :: (word.flatMap quoteByte ++ '\''.toUInt8 :: rest) := by
    simp only [quote, List.append_assoc]
    rfl
  have hopen : wordsFrom current .bare
      ('\''.toUInt8 :: (word.flatMap quoteByte ++ '\''.toUInt8 :: rest))
        = wordsFrom (some (current.getD [] ++ [])) .single
            (word.flatMap quoteByte ++ '\''.toUInt8 :: rest) := rfl
  rw [hshape, hopen, List.append_nil, wordsFrom_flatMap_quoteByte]

/-- A byte that needs no quotes is no quote, no backslash and no blank. -/
theorem plain_of_isHarmless {c : UInt8} (h : isHarmless c = true) :
    c ≠ '\'' ∧ c ≠ '"' ∧ c ≠ '\\' ∧ isSeparator c = false := by
  refine ⟨?_, ?_, ?_, ?_⟩
  · rintro rfl
    exact absurd h (by decide)
  · rintro rfl
    exact absurd h (by decide)
  · rintro rfl
    exact absurd h (by decide)
  · cases hs : isSeparator c with
    | false => rfl
    | true =>
        simp only [isSeparator, Bool.or_eq_true, decide_eq_true_eq] at hs
        rcases hs with rfl | rfl <;> exact absurd h (by decide)

theorem next_of_isHarmless {c : UInt8} (h : isHarmless c = true) : Mode.next .bare c = .bare := by
  obtain ⟨hsingle, hdouble, hslash, -⟩ := plain_of_isHarmless h
  rw [Mode.next, if_neg hsingle, if_neg hdouble, if_neg hslash]

theorem effect_of_isHarmless {c : UInt8} (h : isHarmless c = true) :
    Mode.effect .bare c = .adds [c] := by
  obtain ⟨hsingle, hdouble, hslash, hblank⟩ := plain_of_isHarmless h
  rw [Mode.effect, if_neg (not_or.mpr ⟨hsingle, hdouble⟩), if_neg hslash, hblank,
    if_neg Bool.false_ne_true]

theorem wordsFrom_cons_harmless {c : UInt8} (h : isHarmless c = true) (current : Option Bytes)
    (rest : Bytes) :
    wordsFrom current .bare (c :: rest)
      = wordsFrom (some (current.getD [] ++ [c])) .bare rest := by
  rw [wordsFrom, effect_of_isHarmless h, next_of_isHarmless h]

/-- Harmless bytes add themselves to the word they stand in. -/
theorem wordsFrom_harmless (seen : Bytes) {word : Bytes}
    (h : ∀ c ∈ word, isHarmless c = true) (rest : Bytes) :
    wordsFrom (some seen) .bare (word ++ rest)
      = wordsFrom (some (seen ++ word)) .bare rest := by
  induction word generalizing seen with
  | nil => rw [List.nil_append, List.append_nil]
  | cons c word ih =>
      obtain ⟨hc, hrest⟩ := List.forall_mem_cons.mp h
      rw [List.cons_append, wordsFrom_cons_harmless hc, Option.getD_some, ih _ hrest,
        List.append_assoc, List.singleton_append]

/-- A name as it is written before a command line's blank is one word. -/
theorem wordsFrom_quoteName (name rest : Bytes) :
    wordsFrom none .bare (quoteName name ++ rest) = wordsFrom (some name) .bare rest := by
  unfold quoteName
  split
  · rename_i h
    obtain ⟨c, name, rfl⟩ := List.exists_cons_of_ne_nil h.1
    obtain ⟨hc, hname⟩ := List.forall_mem_cons.mp (List.all_eq_true.mp h.2)
    rw [List.cons_append, wordsFrom_cons_harmless hc]
    exact wordsFrom_harmless [c] hname rest
  · exact wordsFrom_quote none name rest

end Prebuilt.Command
