import Prebuilt.Proofs.Manifest.Reading

/-!
# Line endings

A manifest may come with a carriage return in front of its newlines. To
the reader such a carriage return is a blank at the end of a line, so it
makes no difference where a line may end in blanks: behind an item, in a
comment, in the space of an array. A line that ends anywhere else is at
fault, with or without it, and the fault is the same one on the same
line. Only a newline that is escaped in a string is part of a value, and
a carriage return in front of it would be escaped in its place.

The proof runs the reader on both texts in step. `Returned` relates what
is left of the one text to what is left of the other, `InStep` the two
cursors, and every scanner takes cursors in step to results that are
alike (`Alike`), whether it succeeds or fails. A cursor may well come to
stand between a carriage return and its newline, which is why `Returned`
leaves open which newlines have one.
-/

namespace Prebuilt.Manifest

/-! ## Texts -/

/-- The text with a carriage return in front of every newline. -/
def withReturns (text : Bytes) : Bytes :=
  text.flatMap fun c : UInt8 => if c = '\n' then ['\r'.toUInt8, '\n'.toUInt8] else [c]

/-- The second text is the first with a carriage return in front of some
of its newlines. -/
inductive Returned : Bytes → Bytes → Prop
  | nil : Returned [] []
  | byte (c : UInt8) {text text' : Bytes} (h : Returned text text') :
      Returned (c :: text) (c :: text')
  | newline {text text' : Bytes} (h : Returned text text') :
      Returned ('\n'.toUInt8 :: text) ('\r'.toUInt8 :: '\n'.toUInt8 :: text')

theorem returned_withReturns (text : Bytes) : Returned text (withReturns text) := by
  induction text with
  | nil => exact .nil
  | cons c text ih =>
      rw [withReturns, List.flatMap_cons]
      by_cases hnewline : c = '\n'
      · subst hnewline
        rw [if_pos rfl]
        exact .newline ih
      · rw [if_neg hnewline]
        exact .byte c ih

namespace Returned

variable {text text' : Bytes}

theorem eq_nil (h : Returned [] text') : text' = [] := by
  cases h
  rfl

theorem ne_nil (h : Returned text text') (hne : text ≠ []) : text' ≠ [] := by
  cases h with
  | nil => exact hne
  | byte => exact List.cons_ne_nil _ _
  | newline => exact List.cons_ne_nil _ _

theorem cons {c : UInt8} (h : Returned (c :: text) text') (hc : c ≠ '\n') :
    ∃ more, text' = c :: more ∧ Returned text more := by
  cases h with
  | byte _ h => exact ⟨_, rfl, h⟩
  | newline => exact absurd rfl hc

/-- A run of bytes that stays on its line. -/
theorem dropWhile {p : UInt8 → Bool} (hp : p '\n' = false) (h : Returned text text') :
    Returned (text.dropWhile p) (text'.dropWhile p) := by
  induction h with
  | nil => exact .nil
  | byte c h ih =>
      by_cases hc : p c = true
      · rw [List.dropWhile_cons_of_pos hc, List.dropWhile_cons_of_pos hc]
        exact ih
      · rw [List.dropWhile_cons_of_neg hc, List.dropWhile_cons_of_neg hc]
        exact .byte c h
  | newline h =>
      have hnewline : ¬ p '\n' = true := by
        rw [hp]
        exact Bool.false_ne_true
      rw [List.dropWhile_cons_of_neg hnewline]
      -- The run takes the carriage return along, or leaves it.
      by_cases hreturn : p '\r' = true
      · rw [List.dropWhile_cons_of_pos hreturn, List.dropWhile_cons_of_neg hnewline]
        exact .byte _ h
      · rw [List.dropWhile_cons_of_neg hreturn]
        exact .newline h

theorem takeWhile {p : UInt8 → Bool} (hp : p '\n' = false) (hreturn : p '\r' = false)
    (h : Returned text text') : text'.takeWhile p = text.takeWhile p := by
  induction h with
  | nil => rfl
  | byte c _ ih => rw [List.takeWhile_cons, List.takeWhile_cons, ih]
  | newline =>
      rw [List.takeWhile_cons_of_neg (by rw [hreturn]; decide),
        List.takeWhile_cons_of_neg (by rw [hp]; decide)]

theorem skipComment (h : Returned text text') :
    Returned (skipComment text) (skipComment text') := by
  cases h with
  | nil => exact .nil
  | byte c h =>
      rw [Manifest.skipComment, Manifest.skipComment]
      by_cases hhash : c = '#'
      · rw [if_pos hhash, if_pos hhash]
        exact h.dropWhile (by decide)
      · rw [if_neg hhash, if_neg hhash]
        exact .byte c h
  | newline h => exact .newline h

theorem skipSpaceFrom (h : Returned text text') (line : Nat) (inComment : Bool) :
    Returned (skipSpaceFrom line inComment text).rest
        (skipSpaceFrom line inComment text').rest ∧
      (skipSpaceFrom line inComment text').line = (skipSpaceFrom line inComment text).line := by
  induction h generalizing line inComment with
  | nil => exact ⟨.nil, rfl⟩
  | byte c h ih =>
      rw [Manifest.skipSpaceFrom, Manifest.skipSpaceFrom]
      split
      · exact ih ..
      split
      · exact ih ..
      split
      · exact ih ..
      split
      · exact ih ..
      · exact ⟨.byte c h, rfl⟩
  | newline _ ih =>
      -- In a comment and outside of it, the carriage return is passed.
      cases inComment with
      | false => exact ih (line + 1) false
      | true => exact ih (line + 1) false

end Returned

/-! ## Cursors in step -/

/-- No newline stands right behind a backslash. -/
def NoEscapedNewline (text : Bytes) : Prop := ¬ "\\\n" <:+: text

theorem NoEscapedNewline.suffix {text rest : Bytes} (h : NoEscapedNewline text)
    (hrest : rest <:+ text) : NoEscapedNewline rest :=
  fun hwithin => h (hwithin.trans hrest.isInfix)

theorem NoEscapedNewline.ne_newline {c : UInt8} {text : Bytes}
    (h : NoEscapedNewline ('\\'.toUInt8 :: c :: text)) : c ≠ '\n' := by
  rintro rfl
  exact h (List.prefix_append ['\\'.toUInt8, '\n'.toUInt8] text).isInfix

/-- Two readers at the same place of a text, with and without carriage
returns. -/
structure InStep (c d : Cursor) : Prop where
  noEscape : NoEscapedNewline c.rest
  rest : Returned c.rest d.rest
  line : d.line = c.line

namespace InStep

variable {c d c' : Cursor} {b : UInt8}

/-- The readers move on. -/
theorem moved {rest rest' : Bytes} (h : InStep c d) (hsuffix : rest <:+ c.rest)
    (hrest : Returned rest rest') : InStep ⟨rest, c.line⟩ ⟨rest', d.line⟩ :=
  ⟨h.noEscape.suffix hsuffix, hrest, h.line⟩

theorem dropWhile {p : UInt8 → Bool} (h : InStep c d) (hp : p '\n' = false) :
    InStep ⟨c.rest.dropWhile p, c.line⟩ ⟨d.rest.dropWhile p, d.line⟩ :=
  h.moved (suffix_dropWhile ..) (h.rest.dropWhile hp)

theorem skipBlanks (h : InStep c d) :
    InStep ⟨skipBlanks c.rest, c.line⟩ ⟨skipBlanks d.rest, d.line⟩ := h.dropWhile (by decide)

theorem identifier (h : InStep c d) :
    (identifier d.rest).1 = (identifier c.rest).1 ∧
      InStep ⟨(identifier c.rest).2, c.line⟩ ⟨(identifier d.rest).2, d.line⟩ :=
  ⟨h.rest.takeWhile (by decide) (by decide), h.dropWhile (by decide)⟩

theorem skipSpace (h : InStep c d) : InStep c.skipSpace d.skipSpace := by
  obtain ⟨hrest, hline⟩ := h.rest.skipSpaceFrom c.line false
  rw [← h.line] at hline
  refine ⟨h.noEscape.suffix c.skipSpace_suffix, ?_, ?_⟩
  · rw [Cursor.skipSpace, Cursor.skipSpace, h.line]
    exact hrest
  · rw [Cursor.skipSpace, Cursor.skipSpace, hline, h.line]

theorem take?_eq_some (h : InStep c d) (hb : b ≠ '\n') (htake : c.take? b = some c') :
    ∃ d', d.take? b = some d' ∧ InStep c' d' := by
  obtain ⟨hc, hline⟩ := Cursor.take?_eq_some_iff.mp htake
  obtain ⟨more, hd, hrest⟩ := (hc ▸ h.rest).cons hb
  refine ⟨⟨more, d.line⟩, Cursor.take?_eq_some_iff.mpr ⟨hd, rfl⟩, ?_, hrest, ?_⟩
  · exact h.noEscape.suffix (hc ▸ List.suffix_cons b c'.rest)
  · rw [hline]
    exact h.line

theorem take?_eq_none (h : InStep c d) (hb : b ≠ '\r') (htake : c.take? b = none) :
    d.take? b = none := by
  rw [Cursor.take?_eq_none_iff] at htake ⊢
  intro rest hd
  have hrest := h.rest
  rw [hd] at hrest
  generalize hc : c.rest = text at hrest
  cases hrest with
  | byte => exact htake _ hc
  | newline => exact hb rfl

end InStep

/-- Two scanners give the same, and leave their readers in step. -/
structure Alike {α : Type} (x y : Except Fault α × Cursor) : Prop where
  outcome : y.1 = x.1
  stopped : InStep x.2 y.2

theorem Alike.of_eq {α : Type} {x y : Except Fault α × Cursor} (h : Alike x y)
    {outcome : Except Fault α} {c : Cursor} (hx : x = (outcome, c)) :
    ∃ d, y = (outcome, d) ∧ InStep c d := by
  subst hx
  obtain ⟨outcome', d⟩ := y
  obtain rfl : outcome' = outcome := h.outcome
  exact ⟨d, rfl, h.stopped⟩

variable {c d : Cursor}

/-! ## Strings and arrays -/

/-- A string that is not closed on its line may have taken a carriage
return in; one that is closed is the same. -/
theorem returned_stringBody {text text' : Bytes} (h : Returned text text')
    (hescape : NoEscapedNewline text) :
    Returned (stringBody text).2 (stringBody text').2 ∧
      ∀ rest, (stringBody text).2 = '"'.toUInt8 :: rest →
        (stringBody text').1 = (stringBody text).1 := by
  fun_induction stringBody text generalizing text' with
  | case1 =>
      obtain rfl := h.eq_nil
      refine ⟨.nil, fun rest hquote => ?_⟩
      cases hquote
  | case2 b rest hstop =>
      cases h with
      | byte _ h =>
          rw [stringBody_stop hstop]
          exact ⟨.byte b h, fun _ _ => rfl⟩
      | newline h =>
          rw [stringBody_plain (by decide) (by decide), stringBody_stop (Or.inr rfl)]
          refine ⟨.byte _ h, fun rest hquote => ?_⟩
          exact absurd (List.cons.inj hquote).1 (by decide)
  | case3 =>
      obtain ⟨more, rfl, hmore⟩ := h.cons (by decide)
      obtain rfl := hmore.eq_nil
      refine ⟨.nil, fun rest hquote => ?_⟩
      cases hquote
  | case4 e rest _ ih =>
      obtain ⟨escaped, rfl, hescaped⟩ := h.cons (by decide)
      obtain ⟨more, rfl, hmore⟩ := hescaped.cons hescape.ne_newline
      have hsuffix : rest <:+ '\\'.toUInt8 :: e :: rest :=
        (List.suffix_cons ..).trans (List.suffix_cons ..)
      obtain ⟨hrest, hvalue⟩ := ih hmore (hescape.suffix hsuffix)
      rw [stringBody_escape]
      exact ⟨hrest, fun tail hquote => congrArg (unescape e :: ·) (hvalue tail hquote)⟩
  | case5 b rest hstop hslash ih =>
      obtain ⟨more, rfl, hmore⟩ := h.cons (not_or.mp hstop).2
      obtain ⟨hrest, hvalue⟩ := ih hmore (hescape.suffix (List.suffix_cons ..))
      rw [stringBody_plain hstop hslash]
      exact ⟨hrest, fun tail hquote => congrArg (b :: ·) (hvalue tail hquote)⟩

theorem alike_string (h : InStep c d) : Alike (string c) (string d) := by
  unfold string
  cases hopen : c.take? '"' with
  | none =>
      rw [h.take?_eq_none (by decide) hopen]
      exact ⟨rfl, h⟩
  | some opened =>
      obtain ⟨opened', hopen', hin⟩ := h.take?_eq_some (by decide) hopen
      obtain ⟨hbody, hvalue⟩ := returned_stringBody hin.rest hin.noEscape
      have hsuffix : (stringBody opened.rest).2 <:+ c.rest := by
        rw [(Cursor.take?_eq_some_iff.mp hopen).1]
        exact (stringBody_suffix _).trans (List.suffix_cons ..)
      have hstopped := h.moved hsuffix hbody
      rw [hopen']
      dsimp only
      cases hclose : Cursor.take? ⟨(stringBody opened.rest).2, c.line⟩ '"' with
      | none =>
          rw [hstopped.take?_eq_none (by decide) hclose]
          exact ⟨rfl, hstopped⟩
      | some closed =>
          obtain ⟨closed', hclose', hend⟩ := hstopped.take?_eq_some (by decide) hclose
          rw [hclose']
          have hquote := hvalue closed.rest (Cursor.take?_eq_some_iff.mp hclose).1
          exact ⟨congrArg Except.ok hquote, hend⟩

theorem arrayItems_of_error {c c' : Cursor} {fault : Fault} (hne : c.rest ≠ [])
    (hopen : c.take? ']' = none) (h : string c = (.error fault, c')) :
    arrayItems c = (.error fault, c') := by
  rw [arrayItems]
  split
  · rename_i hnil
    exact absurd hnil hne
  rename_i b rest hrest
  have hb : ¬ b = ']' := by
    rintro rfl
    exact Cursor.take?_eq_none_iff.mp hopen rest hrest
  rw [if_neg hb]
  split
  · rename_i hs
    rw [h] at hs
    obtain ⟨hfault, rfl⟩ := Prod.mk.inj hs
    rw [Except.error.inj hfault]
  · rename_i hs
    rw [h] at hs
    cases hs

theorem alike_arrayItems (h : InStep c d) : Alike (arrayItems c) (arrayItems d) := by
  fun_induction arrayItems c generalizing d with
  | case1 c hrest =>
      have hd : d.rest = [] := (hrest ▸ h.rest).eq_nil
      rw [arrayItems]
      split
      · exact ⟨rfl, h⟩
      · rename_i hcons
        rw [hd] at hcons
        cases hcons
  | case2 c rest hrest =>
      obtain ⟨more, hd, hmore⟩ := (hrest ▸ h.rest).cons (by decide)
      have hclosed := h.moved (hrest ▸ List.suffix_cons ..) hmore
      rw [arrayItems]
      split
      · rename_i hnil
        rw [hd] at hnil
        cases hnil
      · rename_i hcons
        rw [hd] at hcons
        obtain ⟨rfl, rfl⟩ := List.cons.inj hcons
        rw [if_pos rfl]
        exact ⟨rfl, hclosed⟩
  | case3 c b rest hrest hb fault stopped hs =>
      obtain ⟨stopped', hs', hstop⟩ := (alike_string h).of_eq hs
      have hopen : c.take? ']' = none := by
        rw [Cursor.take?, hrest]
        exact if_neg hb
      have hne := h.rest.ne_nil (hrest ▸ List.cons_ne_nil b rest)
      rw [arrayItems_of_error hne (h.take?_eq_none (by decide) hopen) hs']
      exact ⟨rfl, hstop⟩
  | case4 c b rest hrest hb value c' hs after hcomma _ fault stopped hmore ih =>
      obtain ⟨d', hs', hin⟩ := (alike_string h).of_eq hs
      obtain ⟨after', hcomma', hafter⟩ := hin.skipSpace.take?_eq_some (by decide) hcomma
      obtain ⟨stopped', hmore', hstop⟩ := (ih hafter.skipSpace).of_eq hmore
      rw [arrayItems_of_string hs', hcomma']
      dsimp only
      rw [hmore']
      exact ⟨rfl, hstop⟩
  | case5 c b rest hrest hb value c' hs after hcomma _ more c'' hmore ih =>
      obtain ⟨d', hs', hin⟩ := (alike_string h).of_eq hs
      obtain ⟨after', hcomma', hafter⟩ := hin.skipSpace.take?_eq_some (by decide) hcomma
      obtain ⟨stopped', hmore', hstop⟩ := (ih hafter.skipSpace).of_eq hmore
      rw [arrayItems_of_string hs', hcomma']
      dsimp only
      rw [hmore']
      exact ⟨rfl, hstop⟩
  | case6 c b rest hrest hb value c' hs hcomma hclose =>
      obtain ⟨d', hs', hin⟩ := (alike_string h).of_eq hs
      rw [arrayItems_of_string hs', hin.skipSpace.take?_eq_none (by decide) hcomma]
      dsimp only
      rw [hin.skipSpace.take?_eq_none (by decide) hclose]
      exact ⟨rfl, hin.skipSpace⟩
  | case7 c b rest hrest hb value c' hs hcomma after hclose =>
      obtain ⟨d', hs', hin⟩ := (alike_string h).of_eq hs
      obtain ⟨after', hclose', hafter⟩ := hin.skipSpace.take?_eq_some (by decide) hclose
      rw [arrayItems_of_string hs', hin.skipSpace.take?_eq_none (by decide) hcomma]
      dsimp only
      rw [hclose']
      exact ⟨rfl, hafter⟩

theorem alike_array (h : InStep c d) : Alike (array c) (array d) := by
  unfold array
  cases hopen : c.take? '[' with
  | none =>
      rw [h.take?_eq_none (by decide) hopen]
      exact ⟨rfl, h⟩
  | some opened =>
      obtain ⟨opened', hopen', hin⟩ := h.take?_eq_some (by decide) hopen
      rw [hopen']
      exact alike_arrayItems hin.skipSpace

/-! ## Items and lines -/

theorem alike_value (sec key : Bytes) (h : InStep c d) :
    Alike (value sec key c) (value sec key d) := by
  unfold value
  by_cases hkind : takesList sec key = true
  · rw [if_pos hkind, if_pos hkind]
    cases harray : array c with
    | mk outcome stopped =>
        obtain ⟨stopped', harray', hstop⟩ := (alike_array h).of_eq harray
        rw [harray']
        cases outcome <;> exact ⟨rfl, hstop⟩
  · rw [if_neg hkind, if_neg hkind]
    cases hstring : string c with
    | mk outcome stopped =>
        obtain ⟨stopped', hstring', hstop⟩ := (alike_string h).of_eq hstring
        rw [hstring']
        cases outcome <;> exact ⟨rfl, hstop⟩

theorem alike_header (h : InStep c d) : Alike (header c) (header d) := by
  obtain ⟨hname, hnamed⟩ := h.skipBlanks.identifier
  have hafter := hnamed.skipBlanks
  unfold header
  dsimp only at hname hafter ⊢
  rw [hname]
  cases hclose : Cursor.take? ⟨skipBlanks (identifier (skipBlanks c.rest)).2, c.line⟩ ']' with
  | none =>
      rw [hafter.take?_eq_none (by decide) hclose]
      exact ⟨rfl, hafter⟩
  | some closed =>
      obtain ⟨closed', hclose', hend⟩ := hafter.take?_eq_some (by decide) hclose
      rw [hclose']
      dsimp only
      by_cases hempty : (identifier (skipBlanks c.rest)).1 = []
      · rw [if_pos hempty, if_pos hempty]
        exact ⟨rfl, hafter⟩
      · rw [if_neg hempty, if_neg hempty]
        exact ⟨rfl, hend⟩

theorem alike_assignment (sec : Bytes) (h : InStep c d) :
    Alike (assignment sec c) (assignment sec d) := by
  obtain ⟨hkey, hnamed⟩ := h.identifier
  have hafter := hnamed.skipBlanks
  unfold assignment
  dsimp only at hafter ⊢
  rw [hkey]
  by_cases hempty : (identifier c.rest).1 = []
  · rw [if_pos hempty, if_pos hempty]
    exact ⟨rfl, h⟩
  rw [if_neg hempty, if_neg hempty]
  by_cases hsec : sec = []
  · rw [if_pos hsec, if_pos hsec]
    exact ⟨rfl, hnamed⟩
  rw [if_neg hsec, if_neg hsec]
  cases hequals : Cursor.take? ⟨skipBlanks (identifier c.rest).2, c.line⟩ '=' with
  | none =>
      rw [hafter.take?_eq_none (by decide) hequals]
      exact ⟨rfl, hafter⟩
  | some equals =>
      obtain ⟨equals', hequals', hbehind⟩ := hafter.take?_eq_some (by decide) hequals
      rw [hequals']
      dsimp only
      cases hvalue : value sec (identifier c.rest).1 ⟨skipBlanks equals.rest, equals.line⟩ with
      | mk outcome stopped =>
          obtain ⟨stopped', hvalue', hstop⟩ :=
            (alike_value sec (identifier c.rest).1 hbehind.skipBlanks).of_eq hvalue
          rw [hvalue']
          cases outcome with
          | error fault => exact ⟨rfl, hstop⟩
          | ok v =>
              dsimp only
              rw [hstop.line]
              exact ⟨rfl, hstop⟩

theorem alike_item (sec : Bytes) (h : InStep c d) : Alike (item sec c) (item sec d) := by
  unfold item
  cases hopen : c.take? '[' with
  | none =>
      rw [h.take?_eq_none (by decide) hopen]
      exact alike_assignment sec h
  | some opened =>
      obtain ⟨opened', hopen', hin⟩ := h.take?_eq_some (by decide) hopen
      rw [hopen']
      exact alike_header hin

theorem stops_dropWhile (p : UInt8 → Bool) (text : Bytes) : Stops p (text.dropWhile p) := by
  intro c hc
  have hstop := List.head?_dropWhile_not p text
  rwa [Option.mem_def.mp hc] at hstop

/-- Behind the blanks and the comment of a line no blank comes next. -/
theorem stops_skipComment (text : Bytes) : Stops isBlank (skipComment (skipBlanks text)) := by
  have hblanks : Stops isBlank (skipBlanks text) := stops_dropWhile isBlank text
  cases hskipped : skipBlanks text with
  | nil => exact stops_nil _
  | cons b rest =>
      rw [skipComment]
      by_cases hhash : b = '#'
      · rw [if_pos hhash]
        intro c hc
        have hc' := of_decide_eq_false (stops_dropWhile _ rest c hc)
        rw [Decidable.not_not.mp hc']
        rfl
      · rw [if_neg hhash]
        exact hskipped ▸ hblanks

theorem Returned.atLineEnd_iff {text text' : Bytes} (h : Returned text text')
    (hstops : Stops isBlank text') : AtLineEnd text' ↔ AtLineEnd text := by
  cases h with
  | nil => exact Iff.rfl
  | byte b _ =>
      constructor
      · rintro (hnil | hhead)
        · cases hnil
        · exact Or.inr hhead
      · rintro (hnil | hhead)
        · cases hnil
        · exact Or.inr hhead
  | newline => exact absurd (hstops _ rfl) (by decide)

theorem alike_lineEnd (h : InStep c d) : Alike (lineEnd c) (lineEnd d) := by
  have hcomment : InStep ⟨skipComment (skipBlanks c.rest), c.line⟩
      ⟨skipComment (skipBlanks d.rest), d.line⟩ :=
    h.skipBlanks.moved (skipComment_suffix _) h.skipBlanks.rest.skipComment
  have hend : AtLineEnd (skipComment (skipBlanks d.rest))
      ↔ AtLineEnd (skipComment (skipBlanks c.rest)) :=
    hcomment.rest.atLineEnd_iff (stops_skipComment _)
  unfold lineEnd
  dsimp only
  by_cases hc : AtLineEnd (skipComment (skipBlanks c.rest))
  · rw [if_pos (show _ ∨ _ from hc), if_pos (show _ ∨ _ from hend.mpr hc)]
    exact ⟨rfl, hcomment⟩
  · rw [if_neg (show ¬ (_ ∨ _) from hc), if_neg (show ¬ (_ ∨ _) from mt hend.mp hc)]
    exact ⟨rfl, hcomment⟩

/-! ## Whole manifests -/

/-- Two readings give the same, and stop in step. -/
structure AlikeReadings (x y : Reading) : Prop where
  assignments : y.assignments = x.assignments
  fault : y.fault = x.fault
  stopped : InStep x.stopped y.stopped

theorem alike_items (sec : Bytes) (h : InStep c d) :
    AlikeReadings (items sec c) (items sec d) := by
  fun_induction items sec c generalizing d with
  | case1 sec c hnil =>
      have hd : d.rest = [] := (hnil ▸ h.rest).eq_nil
      rw [items, if_pos hd]
      exact ⟨rfl, rfl, h⟩
  | case2 sec c hne fault stopped hitem =>
      obtain ⟨stopped', hitem', hstop⟩ := (alike_item sec h).of_eq hitem
      rw [items_of_error (h.rest.ne_nil hne) hitem']
      exact ⟨rfl, rfl, hstop⟩
  | case3 sec c hne i c' hitem fault stopped hend =>
      obtain ⟨d', hitem', hin⟩ := (alike_item sec h).of_eq hitem
      obtain ⟨stopped', hend', hstop⟩ := (alike_lineEnd hin).of_eq hend
      rw [items_of_trailing hitem' hend']
      exact ⟨rfl, rfl, hstop⟩
  | case4 sec c hne i c' hitem c'' hend _ more =>
      rename_i ih
      obtain ⟨d', hitem', hin⟩ := (alike_item sec h).of_eq hitem
      obtain ⟨d'', hend', hnext⟩ := (alike_lineEnd hin).of_eq hend
      obtain ⟨hassignments, hfault, hstop⟩ := ih hnext.skipSpace
      rw [items_round hitem' hend']
      exact ⟨congrArg (i.assignments ++ ·) hassignments, hfault, hstop⟩

/-- Carriage returns in front of some of the newlines change nothing. -/
theorem read_of_returned {text text' : Bytes} (h : Returned text text')
    (hescape : NoEscapedNewline text) (base : Config) :
    (read text' base).config = (read text base).config ∧
      (read text' base).warnings = (read text base).warnings ∧
      (read text' base).reader.report = (read text base).reader.report := by
  have hstart : InStep ⟨text, 1⟩ ⟨text', 1⟩ := ⟨hescape, h, rfl⟩
  obtain ⟨hassignments, hfault, hstop⟩ := alike_items [] hstart.skipSpace
  unfold read Reader.read Reader.ofText Reader.report
  dsimp only
  rw [hassignments, hfault, hstop.line]
  exact ⟨rfl, rfl, rfl⟩

/-- If no newline is escaped, a manifest means the same with a carriage
return in front of every newline: it gives the same configuration and the
same warnings, or none and the same report, lines included. -/
theorem read_withReturns (text : Bytes) (base : Config) (h : ¬ "\\\n" <:+: text) :
    (read (withReturns text) base).config = (read text base).config ∧
    (read (withReturns text) base).warnings = (read text base).warnings ∧
    (read (withReturns text) base).reader.report = (read text base).reader.report :=
  read_of_returned (returned_withReturns text) h base

/-- Lines that end in a comment, in a carriage return, within an array and
behind a key without a value. -/
def variousLines : Bytes :=
  "[blob] # the archive\nname = \"a\"\r\ncolour = \"red\"\n"
    ++ "[link]\nscripts = [ # two\n\"a.x\",\n\"b.x\"\n]\nname \"b"

theorem read_withReturns_variousLines :
    ¬ "\\\n" <:+: variousLines ∧
    (read (withReturns variousLines) {}).config = none ∧
    (read (withReturns variousLines) {}).warnings = [.unknownKey "blob" "colour" 3] ∧
    (read (withReturns variousLines) {}).reader.report = "Line 9: Expected '=' after key" := by
  have hescape : ¬ "\\\n" <:+: variousLines := by decide +kernel
  obtain ⟨hconfig, hwarnings, hreport⟩ := read_withReturns variousLines {} hescape
  refine ⟨hescape, hconfig.trans ?_, hwarnings.trans ?_, hreport.trans ?_⟩
  · decide +kernel
  · decide +kernel
  · decide +kernel

/-- An escaped newline belongs to its string. The newline behind an
escaped carriage return ends the line. -/
example : (read "[blob]\nname = \"a\\\nb\"\n" {}).config.isSome ∧
    (read (withReturns "[blob]\nname = \"a\\\nb\"\n") {}).reader.report
      = "Line 2: Unterminated string" := by
  decide +kernel

end Prebuilt.Manifest
