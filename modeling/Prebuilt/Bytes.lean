/-!
# Byte strings

Names, paths, file contents and messages are byte strings: a tool that
hands them on must not care whether they are valid UTF-8. String and
character literals stand for their UTF-8 bytes, by coercion, so that
`"error: " ++ name` is again a byte string.

Besides the literals this file holds the few operations that the rest
of the library shares: the part after the last separator, trimming, and
numbers in decimal and hexadecimal. Byte strings are ordered byte by
byte, a proper beginning before its continuations, as all lists are.
-/

namespace Prebuilt

abbrev Bytes := List UInt8

namespace Bytes

/-- The UTF-8 bytes of a text. -/
def ofString (s : String) : Bytes := s.toList.flatMap String.utf8EncodeChar

instance : Coe String Bytes := ⟨ofString⟩

/-- An ASCII character is its byte. -/
instance : Coe Char UInt8 := ⟨Char.toUInt8⟩

/-! ## Splitting -/

/-- `List.splitOn` at a separator that may be written as a character. -/
def splitOn (sep : UInt8) (b : Bytes) : List Bytes := List.splitOn sep b

/-- No piece between separators holds one. -/
theorem notMem_of_mem_splitOn {sep : UInt8} {b piece : Bytes} (h : piece ∈ List.splitOn sep b) :
    sep ∉ piece := by
  induction b generalizing piece with
  | nil =>
      rw [List.splitOn_nil, List.mem_singleton] at h
      rw [h]
      exact List.not_mem_nil
  | cons c rest ih =>
      obtain ⟨first, more, hrest⟩ := List.exists_cons_of_ne_nil (List.splitOn_ne_nil sep rest)
      rw [hrest] at ih
      rw [List.splitOn_cons_eq_if_modifyHead, hrest] at h
      split at h
      · rcases List.mem_cons.mp h with rfl | h
        · exact List.not_mem_nil
        · exact ih h
      · rename_i hc
        rw [List.modifyHead_cons] at h
        rcases List.mem_cons.mp h with rfl | h
        · rw [List.mem_cons, not_or]
          exact ⟨fun heq => hc (beq_iff_eq.mpr heq.symm), ih (List.mem_cons_self ..)⟩
        · exact ih (List.mem_cons_of_mem _ h)

/-! ## Cutting -/

/-- The parts before and after the first separator, if there is one. -/
def cut? (sep : UInt8) : Bytes → Option (Bytes × Bytes)
  | [] => none
  | c :: rest =>
      if c = sep then some ([], rest)
      else (cut? sep rest).map fun parts => (c :: parts.1, parts.2)

/-- Cutting gives exactly the split at the first separator. -/
theorem cut?_eq_some_iff {sep : UInt8} {b before after : Bytes} :
    cut? sep b = some (before, after) ↔ b = before ++ sep :: after ∧ sep ∉ before := by
  induction b generalizing before with
  | nil => simp [cut?]
  | cons c rest ih =>
      unfold cut?
      split
      · rename_i hc
        subst hc
        cases before with
        | nil => simp
        | cons d before => simp +contextual [eq_comm]
      · rename_i hc
        cases before with
        | nil => simp [hc]
        | cons d before =>
            simp only [Option.map_eq_some_iff, Prod.mk.injEq, List.cons.injEq,
              List.cons_append, List.mem_cons, not_or]
            constructor
            · rintro ⟨⟨x, y⟩, hxy, ⟨rfl, rfl⟩, rfl⟩
              exact ⟨⟨rfl, (ih.mp hxy).1⟩, fun e => hc e.symm, (ih.mp hxy).2⟩
            · rintro ⟨⟨rfl, hrest⟩, -, hbefore⟩
              exact ⟨(before, after), ih.mpr ⟨hrest, hbefore⟩, ⟨rfl, rfl⟩, rfl⟩

/-- What follows the given beginning. -/
def after? (b : Bytes) : (beginning : Bytes) → Option Bytes
  | [] => some b
  | c :: beginning =>
      match b with
      | [] => none
      | d :: rest => if d = c then after? rest beginning else none

theorem after?_eq_some_iff {b beginning rest : Bytes} :
    b.after? beginning = some rest ↔ b = beginning ++ rest := by
  induction beginning generalizing b with
  | nil => simp [after?]
  | cons c beginning ih =>
      cases b with
      | nil => simp [after?]
      | cons d b =>
          by_cases h : d = c <;> simp [after?, h, ih]

/-- What precedes the given ending. -/
def before? (b ending : Bytes) : Option Bytes :=
  (after? b.reverse ending.reverse).map List.reverse

theorem before?_eq_some_iff {b ending front : Bytes} :
    b.before? ending = some front ↔ b = front ++ ending := by
  simp only [before?, Option.map_eq_some_iff, after?_eq_some_iff]
  constructor
  · rintro ⟨back, h, rfl⟩
    simpa using congrArg List.reverse h
  · rintro rfl
    exact ⟨front.reverse, by simp, by simp⟩

/-- What follows the last byte of the class, all of it when there is none. -/
def afterLast (isSeparator : UInt8 → Bool) (b : Bytes) : Bytes :=
  (b.reverse.takeWhile (fun c => !isSeparator c)).reverse

/-- The part in front of the last separator ends with it. -/
theorem exists_eq_append_afterLast (isSeparator : UInt8 → Bool) (b : Bytes) :
    ∃ front, b = front ++ b.afterLast isSeparator ∧
      (∀ c ∈ front.getLast?, isSeparator c = true) ∧
      ∀ c ∈ b.afterLast isSeparator, isSeparator c = false := by
  refine ⟨(b.reverse.dropWhile fun c => !isSeparator c).reverse, ?_, ?_, ?_⟩
  · rw [afterLast, ← List.reverse_append, List.takeWhile_append_dropWhile, List.reverse_reverse]
  · rw [List.getLast?_reverse]
    intro c hc
    have hstop := List.head?_dropWhile_not (fun c => !isSeparator c) b.reverse
    rw [Option.mem_def.mp hc] at hstop
    simpa using hstop
  · intro c hc
    have hkept := List.all_eq_true.mp List.all_takeWhile c (List.mem_reverse.mp hc)
    simpa using hkept

/-! ## Trimming and padding -/

def trim (isBlank : UInt8 → Bool) (b : Bytes) : Bytes :=
  ((b.dropWhile isBlank).reverse.dropWhile isBlank).reverse

/-- Filled up with blanks on the right. -/
def padRight (width : Nat) (b : Bytes) : Bytes :=
  b ++ List.replicate (width - b.length) ' '.toUInt8

/-- Cut into runs of `size` bytes, the last one possibly shorter. -/
def chunks (size : Nat) (b : Bytes) : List Bytes :=
  match b with
  | [] => []
  | c :: rest => (c :: rest.take (size - 1)) :: chunks size (rest.drop (size - 1))
termination_by b.length
decreasing_by
  rw [List.length_drop, List.length_cons]
  omega

/-- Cutting loses and repeats no byte. -/
theorem flatten_chunks (size : Nat) (b : Bytes) : (chunks size b).flatten = b := by
  fun_induction chunks size b with
  | case1 => rfl
  | case2 c rest ih => simp [ih]

/-! ## Numbers -/

/-- The digits of a number in base ten, without leading zeros. -/
def ofNat (n : Nat) : Bytes :=
  if n < 10 then [48 + n.toUInt8] else ofNat (n / 10) ++ [48 + (n % 10).toUInt8]

def ofInt : Int → Bytes
  | .ofNat n => ofNat n
  | .negSucc n => '-'.toUInt8 :: ofNat (n + 1)

/-- One hexadecimal digit in lower case. -/
def hexDigit (n : UInt8) : UInt8 := if n < 10 then 48 + n else 87 + n

/-- Two hexadecimal digits for a byte. -/
def hexPair (b : UInt8) : Bytes := [hexDigit (b / 16), hexDigit (b % 16)]

end Bytes

/-! ## ASCII classes -/

namespace Byte

def isDigit (b : UInt8) : Bool := '0'.toUInt8 ≤ b && b ≤ '9'.toUInt8

def isLower (b : UInt8) : Bool := 'a'.toUInt8 ≤ b && b ≤ 'z'.toUInt8

def isUpper (b : UInt8) : Bool := 'A'.toUInt8 ≤ b && b ≤ 'Z'.toUInt8

def isAlphanumeric (b : UInt8) : Bool := isDigit b || isLower b || isUpper b

end Byte

end Prebuilt
