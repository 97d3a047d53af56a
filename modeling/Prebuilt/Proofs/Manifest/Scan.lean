import Prebuilt.Manifest.Grammar

/-!
# What the scanners take

Every scanner of a manifest is held against the grammar in two halves.
It is *sound*: the text that it has taken is one that the grammar
describes, with the value that the scanner gives. And it is *complete*:
such a text is taken, with that value, whatever follows it.

The second half has conditions on what follows only where a text has no
end of its own: blanks and identifiers reach as far as they can, and
space reaches up to a byte that is none (`skipSpaceFrom_complete`). A
string, an array and an item end with their own last byte, so nothing
behind them matters.

Line numbers play no part in the grammar. Where a scanner passes line
ends the line it stops on is left open.
-/

namespace Prebuilt.Manifest

/-! ## Runs of one kind of byte -/

/-- No byte of the kind comes next. -/
def Stops (p : UInt8 → Bool) (rest : Bytes) : Prop := ∀ c ∈ rest.head?, p c = false

theorem stops_nil (p : UInt8 → Bool) : Stops p [] := nofun

theorem stops_cons {p : UInt8 → Bool} {c : UInt8} (h : p c = false) (rest : Bytes) :
    Stops p (c :: rest) := by
  rintro d hd
  obtain rfl : c = d := Option.some.inj hd
  exact h

theorem stops_append {p : UInt8 → Bool} {run rest : Bytes} (hrun : ∀ c ∈ run, p c = false)
    (hrest : Stops p rest) : Stops p (run ++ rest) := by
  cases run with
  | nil => exact hrest
  | cons c run => exact stops_cons (hrun c (List.mem_cons_self ..)) _

/-- Nothing more stands on the line. -/
def AtLineEnd (rest : Bytes) : Prop := rest = [] ∨ rest.head? = some '\n'.toUInt8

theorem AtLineEnd.stops {rest : Bytes} (h : AtLineEnd rest) {p : UInt8 → Bool}
    (hp : p '\n' = false) : Stops p rest := by
  rcases h with rfl | h
  · exact stops_nil p
  · rintro c hc
    obtain rfl : '\n'.toUInt8 = c := Option.some.inj (h.symm.trans hc)
    exact hp

theorem dropWhile_run {p : UInt8 → Bool} {run rest : Bytes} (hrun : ∀ c ∈ run, p c = true)
    (hrest : Stops p rest) : (run ++ rest).dropWhile p = rest := by
  rw [List.dropWhile_append_of_pos hrun]
  cases rest with
  | nil => rfl
  | cons c rest => rw [List.dropWhile_cons_of_neg (by rw [hrest c rfl]; decide)]

theorem takeWhile_run {p : UInt8 → Bool} {run rest : Bytes} (hrun : ∀ c ∈ run, p c = true)
    (hrest : Stops p rest) : (run ++ rest).takeWhile p = run := by
  have hcut := List.takeWhile_append_dropWhile (p := p) (l := run ++ rest)
  rw [dropWhile_run hrun hrest] at hcut
  exact List.append_cancel_right hcut

theorem skipBlanks_sound (b : Bytes) : ∃ blanks, IsBlanks blanks ∧ b = blanks ++ skipBlanks b :=
  ⟨b.takeWhile isBlank, fun c hc => isBlank_iff.mp (List.all_eq_true.mp List.all_takeWhile c hc),
    List.takeWhile_append_dropWhile.symm⟩

theorem skipBlanks_complete {blanks rest : Bytes} (h : IsBlanks blanks)
    (hrest : Stops isBlank rest) : skipBlanks (blanks ++ rest) = rest :=
  dropWhile_run (fun c hc => isBlank_iff.mpr (h c hc)) hrest

theorem identifier_sound {b : Bytes} (h : (identifier b).1 ≠ []) :
    IsIdentifier (identifier b).1 ∧ b = (identifier b).1 ++ (identifier b).2 :=
  ⟨⟨h, fun c hc => isIdentifierByte_iff.mp (List.all_eq_true.mp List.all_takeWhile c hc)⟩,
    List.takeWhile_append_dropWhile.symm⟩

theorem identifier_complete {name rest : Bytes} (h : IsIdentifier name)
    (hrest : Stops isIdentifierByte rest) :
    identifier (name ++ rest) = (name, rest) := by
  have hname : ∀ c ∈ name, isIdentifierByte c = true :=
    fun c hc => isIdentifierByte_iff.mpr (h.2 c hc)
  exact Prod.ext (takeWhile_run hname hrest) (dropWhile_run hname hrest)

/-! ## Which bytes are apart -/

theorem not_identifierByte_of_isBlank {c : UInt8} (h : isBlank c = true) :
    isIdentifierByte c = false := by
  simp only [isBlank, Bool.or_eq_true, decide_eq_true_eq] at h
  rcases h with (rfl | rfl) | rfl <;> decide

theorem not_isBlank_of_identifierByte {c : UInt8} (h : isIdentifierByte c = true) :
    isBlank c = false := by
  cases hc : isBlank c with
  | false => rfl
  | true => rw [not_identifierByte_of_isBlank hc] at h; cases h

/-! ## Space -/

/-- A byte that ends any space before it. -/
def EndsSpace (c : UInt8) : Prop := c ≠ '\n' ∧ isBlank c = false ∧ c ≠ '#'

instance (c : UInt8) : Decidable (EndsSpace c) :=
  inferInstanceAs (Decidable (c ≠ '\n' ∧ isBlank c = false ∧ c ≠ '#'))

theorem endsSpace_of_identifierByte {c : UInt8} (h : isIdentifierByte c = true) :
    EndsSpace c := by
  refine ⟨?_, not_isBlank_of_identifierByte h, ?_⟩
  · rintro rfl
    exact absurd h (by decide)
  · rintro rfl
    exact absurd h (by decide)

/-- A comment is skipped with its line. -/
theorem skipSpaceFrom_note {body rest : Bytes} (h : '\n'.toUInt8 ∉ body) (hrest : AtLineEnd rest)
    (line : Nat) : skipSpaceFrom line true (body ++ rest) = skipSpaceFrom line false rest := by
  induction body with
  | nil =>
      rw [List.nil_append]
      cases rest with
      | nil => rfl
      | cons c rest =>
          obtain rfl : c = '\n'.toUInt8 := hrest.elim nofun Option.some.inj
          rfl
  | cons c body ih =>
      rw [List.mem_cons, not_or] at h
      rw [List.cons_append, skipSpaceFrom, if_neg (Ne.symm h.1), if_pos rfl, ih h.2]

theorem skipSpaceFrom_blank {c : UInt8} (h : isBlank c = true) (line : Nat) (rest : Bytes) :
    skipSpaceFrom line false (c :: rest) = skipSpaceFrom line false rest := by
  have hnewline : c ≠ '\n' := by
    rintro rfl
    exact absurd h (by decide)
  rw [skipSpaceFrom, if_neg hnewline, if_neg Bool.false_ne_true, if_pos h]

/-- Space is skipped up to the first byte behind it. -/
theorem skipSpaceFrom_complete {space : Bytes} (h : IsSpace space) {c : UInt8}
    (hc : EndsSpace c) (line : Nat) (rest : Bytes) :
    ∃ line', skipSpaceFrom line false (space ++ c :: rest) = ⟨c :: rest, line'⟩ := by
  induction h generalizing line with
  | nil => exact ⟨line, skipSpace_cons hc.1 hc.2.1 hc.2.2⟩
  | blank hb _ ih =>
      rw [List.cons_append, skipSpaceFrom_blank (isBlank_iff.mpr hb)]
      exact ih line
  | newline _ ih => exact ih (line + 1)
  | @comment note text hnote _ ih =>
      obtain ⟨body, rfl, hbody⟩ := hnote
      have hopen : skipSpaceFrom line false
            (('#'.toUInt8 :: body) ++ '\n'.toUInt8 :: text ++ c :: rest)
          = skipSpaceFrom line true (body ++ '\n'.toUInt8 :: (text ++ c :: rest)) := by
        rw [List.append_assoc, List.cons_append]
        rfl
      rw [hopen, skipSpaceFrom_note hbody (Or.inr rfl)]
      exact ih (line + 1)

/-- What may be skipped before a token: space, and within a comment the
rest of its line first. -/
def IsSkipped : (inComment : Bool) → Bytes → Prop
  | false, text => IsSpace text
  | true, text => ∃ body space, '\n'.toUInt8 ∉ body ∧ IsSpace space ∧
      text = body ++ '\n'.toUInt8 :: space

theorem skipSpaceFrom_sound {b : Bytes} {line : Nat} {inComment : Bool} {c : UInt8} {rest : Bytes}
    (h : (skipSpaceFrom line inComment b).rest = c :: rest) :
    ∃ skipped, IsSkipped inComment skipped ∧ b = skipped ++ c :: rest := by
  induction b generalizing line inComment with
  | nil => cases h
  | cons d b ih =>
      rw [skipSpaceFrom] at h
      by_cases hnewline : d = '\n'
      · rw [if_pos hnewline] at h
        obtain ⟨space, hspace, rfl⟩ := ih h
        subst hnewline
        cases inComment with
        | false => exact ⟨_, .newline hspace, rfl⟩
        | true => exact ⟨_, ⟨[], space, List.not_mem_nil, hspace, rfl⟩, rfl⟩
      rw [if_neg hnewline] at h
      cases inComment with
      | true =>
          rw [if_pos rfl] at h
          obtain ⟨_, ⟨body, space, hbody, hspace, rfl⟩, rfl⟩ := ih h
          have hbody' : '\n'.toUInt8 ∉ d :: body := by
            rw [List.mem_cons, not_or]
            exact ⟨Ne.symm hnewline, hbody⟩
          exact ⟨_, ⟨d :: body, space, hbody', hspace, rfl⟩, rfl⟩
      | false =>
          rw [if_neg Bool.false_ne_true] at h
          by_cases hblank : isBlank d = true
          · rw [if_pos hblank] at h
            obtain ⟨space, hspace, rfl⟩ := ih h
            exact ⟨_, .blank (isBlank_iff.mp hblank) hspace, rfl⟩
          rw [if_neg hblank] at h
          by_cases hhash : d = '#'
          · rw [if_pos hhash] at h
            obtain ⟨_, ⟨body, space, hbody, hspace, rfl⟩, rfl⟩ := ih h
            subst hhash
            exact ⟨_, .comment ⟨body, rfl, hbody⟩ hspace, rfl⟩
          · rw [if_neg hhash] at h
            exact ⟨[], .nil, h⟩

/-- What is skipped before the next token of an array. -/
theorem skipSpace_take?_sound {c after : Cursor} {b : UInt8}
    (h : c.skipSpace.take? b = some after) :
    ∃ space, IsSpace space ∧ c.rest = space ++ b :: after.rest :=
  skipSpaceFrom_sound (Cursor.take?_eq_some_iff.mp h).1

/-! ## Arrays -/

theorem string_sound {c d : Cursor} {value : Bytes} (h : string c = (.ok value, d)) :
    ∃ text, QuotedText text value ∧ c.rest = text ++ d.rest := by
  obtain ⟨text, htext, hrest, -⟩ := string_eq_ok_iff.mp h
  exact ⟨text, htext, hrest⟩

theorem string_complete {text value : Bytes} (h : QuotedText text value) (line : Nat)
    (rest : Bytes) : string ⟨text ++ rest, line⟩ = (.ok value, ⟨rest, line⟩) :=
  string_eq_ok_iff.mpr ⟨text, h, rfl, rfl⟩

/-- The elements of an array begin with a quote or with the bracket that
closes it. -/
theorem ElementsText.opening {text : Bytes} {values : List Bytes} (h : ElementsText text values) :
    ∃ c rest, EndsSpace c ∧ text = c :: rest := by
  cases h with
  | close => exact ⟨_, [], by decide, rfl⟩
  | last h =>
      obtain ⟨inner, -, rfl⟩ := h
      exact ⟨'"'.toUInt8, _, by decide, rfl⟩
  | more h =>
      obtain ⟨inner, -, rfl⟩ := h
      exact ⟨'"'.toUInt8, _, by decide, rfl⟩

theorem skipSpace_complete {space : Bytes} (h : IsSpace space) {c : UInt8} (hc : EndsSpace c)
    (line : Nat) (rest : Bytes) :
    ∃ line', Cursor.skipSpace ⟨space ++ c :: rest, line⟩ = ⟨c :: rest, line'⟩ :=
  skipSpaceFrom_complete h hc line rest

theorem skipSpace_elements {space text : Bytes} {values : List Bytes} (hspace : IsSpace space)
    (h : ElementsText text values) (line : Nat) (rest : Bytes) :
    ∃ line', Cursor.skipSpace ⟨space ++ (text ++ rest), line⟩ = ⟨text ++ rest, line'⟩ := by
  obtain ⟨c, tail, hc, rfl⟩ := h.opening
  exact skipSpace_complete hspace hc line (tail ++ rest)

theorem skipSpace_elements_sound {c d : Cursor} {text : Bytes} {values : List Bytes}
    (h : ElementsText text values) (hrest : c.skipSpace.rest = text ++ d.rest) :
    ∃ space, IsSpace space ∧ c.rest = space ++ (text ++ d.rest) := by
  obtain ⟨b, tail, -, rfl⟩ := h.opening
  exact skipSpaceFrom_sound hrest

theorem arrayItems_sound {c d : Cursor} {values : List Bytes}
    (h : arrayItems c = (.ok values, d)) :
    ∃ text, ElementsText text values ∧ c.rest = text ++ d.rest := by
  -- Only three of the cases give items: the bracket that closes the array
  -- at once, an item with a comma, and one without.
  fun_induction arrayItems c generalizing values d with
  | case1 => cases h
  | case2 c rest hrest =>
      obtain ⟨rfl, rfl⟩ : [] = values ∧ _ = d := by simpa using h
      exact ⟨_, .close, hrest⟩
  | case3 => cases h
  | case4 => cases h
  | case5 c b rest hrest hb value c' hs after hcomma _ more c'' hmore ih =>
      obtain ⟨rfl, rfl⟩ : value :: more = values ∧ c'' = d := by simpa using h
      obtain ⟨text, htext, hc⟩ := string_sound hs
      obtain ⟨before, hbefore, hc'⟩ := skipSpace_take?_sound hcomma
      obtain ⟨others, hothers, hskip⟩ := ih hmore
      obtain ⟨space, hspace, hafter⟩ := skipSpace_elements_sound hothers hskip
      refine ⟨_, .more htext hbefore hspace hothers, ?_⟩
      rw [hc, hc', hafter]
      simp only [List.append_assoc, List.cons_append]
  | case6 => cases h
  | case7 c b rest hrest hb value c' hs hcomma after hclose =>
      obtain ⟨rfl, rfl⟩ : [value] = values ∧ after = d := by simpa using h
      obtain ⟨text, htext, hc⟩ := string_sound hs
      obtain ⟨space, hspace, hc'⟩ := skipSpace_take?_sound hclose
      refine ⟨_, .last htext hspace, ?_⟩
      rw [hc, hc', List.append_assoc, List.append_assoc, List.singleton_append]

theorem arrayItems_complete {text : Bytes} {values : List Bytes} (h : ElementsText text values)
    (line : Nat) (rest : Bytes) :
    ∃ line', arrayItems ⟨text ++ rest, line⟩ = (.ok values, ⟨rest, line'⟩) := by
  induction h generalizing line with
  | close =>
      refine ⟨line, ?_⟩
      rw [arrayItems]
      rfl
  | @last text space value htext hspace =>
      have hs := string_complete htext line (space ++ ']'.toUInt8 :: rest)
      obtain ⟨line', hclose⟩ := skipSpace_complete (c := ']') hspace (by decide) line rest
      refine ⟨line', ?_⟩
      rw [List.append_assoc, List.append_assoc, List.singleton_append, arrayItems_of_string hs,
        hclose]
      rfl
  | @more text before after value others values htext hbefore hafter hothers ih =>
      have hs := string_complete htext line (before ++ ','.toUInt8 :: (after ++ (others ++ rest)))
      obtain ⟨line₁, hcomma⟩ := skipSpace_complete (c := ',') hbefore (by decide) line
        (after ++ (others ++ rest))
      obtain ⟨line₂, hskip⟩ := skipSpace_elements hafter hothers line₁ rest
      obtain ⟨line₃, hmore⟩ := ih line₂
      refine ⟨line₃, ?_⟩
      have hshape : text ++ before ++ ','.toUInt8 :: after ++ others ++ rest
          = text ++ (before ++ ','.toUInt8 :: (after ++ (others ++ rest))) := by
        simp only [List.append_assoc, List.cons_append]
      rw [hshape, arrayItems_of_string hs, hcomma]
      simp only [Cursor.take?, if_true, hskip, hmore]

theorem array_sound {c d : Cursor} {values : List Bytes} (h : array c = (.ok values, d)) :
    ∃ space text, IsSpace space ∧ ElementsText text values ∧
      c.rest = '['.toUInt8 :: space ++ text ++ d.rest := by
  unfold array at h
  split at h
  · cases h
  rename_i opened hopen
  obtain ⟨text, htext, hrest⟩ := arrayItems_sound h
  obtain ⟨space, hspace, hopened⟩ := skipSpace_elements_sound htext hrest
  refine ⟨space, text, hspace, htext, ?_⟩
  rw [(Cursor.take?_eq_some_iff.mp hopen).1, hopened, List.append_assoc, List.cons_append]

theorem array_complete {space text : Bytes} {values : List Bytes} (hspace : IsSpace space)
    (h : ElementsText text values) (line : Nat) (rest : Bytes) :
    ∃ line', array ⟨'['.toUInt8 :: space ++ text ++ rest, line⟩
      = (.ok values, ⟨rest, line'⟩) := by
  obtain ⟨line₁, hskip⟩ := skipSpace_elements hspace h line rest
  obtain ⟨line₂, hitems⟩ := arrayItems_complete h line₁ rest
  refine ⟨line₂, ?_⟩
  rw [List.append_assoc, List.cons_append, array]
  simp only [Cursor.take?, if_true, hskip, hitems]

/-! ## Values -/

theorem value_sound {sec key : Bytes} {c d : Cursor} {v : Value}
    (h : value sec key c = (.ok v, d)) :
    ∃ text, ValueText sec key text v ∧ c.rest = text ++ d.rest := by
  unfold value at h
  split at h
  · rename_i hkind
    split at h
    · cases h
    rename_i values c' harray
    obtain ⟨rfl, rfl⟩ : .list values = v ∧ c' = d := by simpa using h
    obtain ⟨space, text, hspace, htext, hrest⟩ := array_sound harray
    exact ⟨_, .list (takesList_iff.mp hkind) hspace htext, hrest⟩
  · rename_i hkind
    split at h
    · cases h
    rename_i s c' hstring
    obtain ⟨rfl, rfl⟩ : .text s = v ∧ c' = d := by simpa using h
    obtain ⟨text, htext, hrest⟩ := string_sound hstring
    exact ⟨text, .text (mt takesList_iff.mpr hkind) htext, hrest⟩

theorem value_complete {sec key text : Bytes} {v : Value} (h : ValueText sec key text v)
    (line : Nat) (rest : Bytes) :
    ∃ line', value sec key ⟨text ++ rest, line⟩ = (.ok v, ⟨rest, line'⟩) := by
  cases h with
  | text hkind htext =>
      refine ⟨line, ?_⟩
      rw [value, if_neg (mt takesList_iff.mp hkind), string_complete htext]
  | list hkind hspace htext =>
      obtain ⟨line', harray⟩ := array_complete hspace htext line rest
      refine ⟨line', ?_⟩
      rw [value, if_pos (takesList_iff.mpr hkind), harray]

/-- A value begins with a quote or a bracket. -/
theorem ValueText.opening {sec key text : Bytes} {v : Value} (h : ValueText sec key text v) :
    ∃ c rest, isBlank c = false ∧ text = c :: rest := by
  cases h with
  | text _ htext =>
      obtain ⟨inner, -, rfl⟩ := htext
      exact ⟨'"'.toUInt8, _, by decide, rfl⟩
  | list => exact ⟨'['.toUInt8, _, by decide, rfl⟩

/-! ## Items -/

/-- Blanks are skipped before a name, and a name ends at blanks or at the
byte behind them. -/
theorem skipBlanks_identifier {before name : Bytes} (hbefore : IsBlanks before)
    (hname : IsIdentifier name) (rest : Bytes) :
    skipBlanks (before ++ (name ++ rest)) = name ++ rest := by
  obtain ⟨c, tail, rfl⟩ := List.exists_cons_of_ne_nil hname.1
  have hc := isIdentifierByte_iff.mpr (hname.2 c (List.mem_cons_self ..))
  exact skipBlanks_complete hbefore (stops_cons (not_isBlank_of_identifierByte hc) _)

theorem identifier_blanks {name after : Bytes} (hname : IsIdentifier name)
    (hafter : IsBlanks after) {b : UInt8} (hb : isIdentifierByte b = false) (rest : Bytes) :
    identifier (name ++ (after ++ b :: rest)) = (name, after ++ b :: rest) :=
  identifier_complete hname
    (stops_append (fun c hc => not_identifierByte_of_isBlank (isBlank_iff.mpr (hafter c hc)))
      (stops_cons hb rest))

theorem header_sound {sec : Bytes} {c d : Cursor} {i : Item} (h : header c = (.ok i, d)) :
    ∃ text, ItemText sec ('['.toUInt8 :: text) (i.sectionAfter sec)
        (i.assignments.map Assignment.setting) ∧ c.rest = text ++ d.rest := by
  unfold header at h
  dsimp only at h
  split at h
  · cases h
  rename_i closed hclosed
  split at h
  · cases h
  rename_i hname
  obtain ⟨rfl, rfl⟩ : .header (identifier (skipBlanks c.rest)).1 = i ∧ closed = d := by
    simpa using h
  obtain ⟨before, hbefore, hc⟩ := skipBlanks_sound c.rest
  obtain ⟨hidentifier, hskipped⟩ := identifier_sound hname
  obtain ⟨after, hafter, hrest⟩ := skipBlanks_sound (identifier (skipBlanks c.rest)).2
  have hclose := (Cursor.take?_eq_some_iff.mp hclosed).1
  dsimp only at hclose
  refine ⟨before ++ (identifier (skipBlanks c.rest)).1 ++ after ++ [']'.toUInt8],
    .header hbefore hidentifier hafter, ?_⟩
  calc c.rest
    _ = before ++ ((identifier (skipBlanks c.rest)).1
          ++ (after ++ ']'.toUInt8 :: closed.rest)) := by
        rw [← hclose, ← hrest, ← hskipped, ← hc]
    _ = _ := by simp only [List.append_assoc, List.cons_append, List.nil_append]

theorem header_complete {before name after : Bytes} (hbefore : IsBlanks before)
    (hname : IsIdentifier name) (hafter : IsBlanks after) (line : Nat) (rest : Bytes) :
    header ⟨before ++ (name ++ (after ++ ']'.toUInt8 :: rest)), line⟩
      = (.ok (.header name), ⟨rest, line⟩) := by
  have hbracket : skipBlanks (after ++ ']'.toUInt8 :: rest) = ']'.toUInt8 :: rest :=
    skipBlanks_complete hafter (stops_cons (by decide) rest)
  unfold header
  simp only [skipBlanks_identifier hbefore hname,
    identifier_blanks hname hafter (b := ']') (by decide), hbracket, Cursor.take?, if_true,
    if_neg hname.1]

theorem assignment_sound {sec : Bytes} {c d : Cursor} {i : Item}
    (h : assignment sec c = (.ok i, d)) :
    ∃ text, ItemText sec text (i.sectionAfter sec) (i.assignments.map Assignment.setting) ∧
      c.rest = text ++ d.rest := by
  unfold assignment at h
  dsimp only at h
  split at h
  · cases h
  rename_i hkey
  split at h
  · cases h
  rename_i hsec
  split at h
  · cases h
  rename_i equals hequals
  split at h
  · cases h
  rename_i v c' hvalue
  obtain ⟨rfl, rfl⟩ : Item.assignment ⟨sec, (identifier c.rest).1, v, c'.line⟩ = i ∧ c' = d := by
    simpa using h
  obtain ⟨hidentifier, hc⟩ := identifier_sound hkey
  obtain ⟨before, hbefore, hrest⟩ := skipBlanks_sound (identifier c.rest).2
  have htake := (Cursor.take?_eq_some_iff.mp hequals).1
  dsimp only at htake
  obtain ⟨after, hafter, hequal⟩ := skipBlanks_sound equals.rest
  obtain ⟨text, htext, hskipped⟩ := value_sound hvalue
  dsimp only at hskipped
  refine ⟨_, .assignment hsec hidentifier hbefore hafter htext, ?_⟩
  calc c.rest
    _ = (identifier c.rest).1 ++ (before ++ '='.toUInt8 :: (after ++ (text ++ c'.rest))) := by
        rw [← hskipped, ← hequal, ← htake, ← hrest, ← hc]
    _ = _ := by simp only [List.append_assoc, List.cons_append]

theorem assignment_complete {sec key before after text : Bytes} {v : Value} (hsec : sec ≠ [])
    (hkey : IsIdentifier key) (hbefore : IsBlanks before) (hafter : IsBlanks after)
    (h : ValueText sec key text v) (line : Nat) (rest : Bytes) :
    ∃ line', assignment sec ⟨key ++ (before ++ '='.toUInt8 :: (after ++ (text ++ rest))), line⟩
      = (.ok (.assignment ⟨sec, key, v, line'⟩), ⟨rest, line'⟩) := by
  have hequals : skipBlanks (before ++ '='.toUInt8 :: (after ++ (text ++ rest)))
      = '='.toUInt8 :: (after ++ (text ++ rest)) :=
    skipBlanks_complete hbefore (stops_cons (by decide) _)
  have htext : skipBlanks (after ++ (text ++ rest)) = text ++ rest := by
    obtain ⟨c, tail, hc, rfl⟩ := h.opening
    exact skipBlanks_complete hafter (stops_cons hc _)
  obtain ⟨line', hvalue⟩ := value_complete h line rest
  refine ⟨line', ?_⟩
  unfold assignment
  simp only [identifier_blanks hkey hbefore (b := '=') (by decide), if_neg hkey.1, if_neg hsec,
    hequals, Cursor.take?, if_true, htext, hvalue]

theorem item_sound {sec : Bytes} {c d : Cursor} {i : Item} (h : item sec c = (.ok i, d)) :
    ∃ text, ItemText sec text (i.sectionAfter sec) (i.assignments.map Assignment.setting) ∧
      c.rest = text ++ d.rest := by
  unfold item at h
  split at h
  · rename_i opened hopen
    obtain ⟨text, htext, hrest⟩ := header_sound h
    refine ⟨_, htext, ?_⟩
    rw [(Cursor.take?_eq_some_iff.mp hopen).1, hrest, List.cons_append]
  · exact assignment_sound h

/-- An item begins with a bracket or with its key. -/
theorem ItemText.opening {sec text next : Bytes} {settings : List Setting}
    (h : ItemText sec text next settings) : ∃ c rest, EndsSpace c ∧ text = c :: rest := by
  cases h with
  | header => exact ⟨'['.toUInt8, _, by decide, rfl⟩
  | assignment _ hkey =>
      obtain ⟨c, tail, rfl⟩ := List.exists_cons_of_ne_nil hkey.1
      have hc := isIdentifierByte_iff.mpr (hkey.2 c (List.mem_cons_self ..))
      exact ⟨c, _, endsSpace_of_identifierByte hc, rfl⟩

theorem item_complete {sec text next : Bytes} {settings : List Setting}
    (h : ItemText sec text next settings) (line : Nat) (rest : Bytes) :
    ∃ i line', item sec ⟨text ++ rest, line⟩ = (.ok i, ⟨rest, line'⟩) ∧
      i.sectionAfter sec = next ∧ i.assignments.map Assignment.setting = settings := by
  cases h with
  | @header before _ after hbefore hname hafter =>
      refine ⟨.header next, line, ?_, rfl, rfl⟩
      have hshape : '['.toUInt8 :: before ++ next ++ after ++ [']'.toUInt8] ++ rest
          = '['.toUInt8 :: (before ++ (next ++ (after ++ ']'.toUInt8 :: rest))) := by
        simp only [List.append_assoc, List.cons_append, List.nil_append]
      rw [hshape]
      exact header_complete hbefore hname hafter line rest
  | @assignment key before after text v hsec hkey hbefore hafter hvalue =>
      obtain ⟨line', hread⟩ := assignment_complete hsec hkey hbefore hafter hvalue line rest
      refine ⟨.assignment ⟨_, key, v, line'⟩, line', ?_, rfl, rfl⟩
      have hshape : key ++ before ++ '='.toUInt8 :: after ++ text ++ rest
          = key ++ (before ++ '='.toUInt8 :: (after ++ (text ++ rest))) := by
        simp only [List.append_assoc, List.cons_append]
      have hopen : Cursor.take? ⟨key ++ (before ++ '='.toUInt8 :: (after ++ (text ++ rest))), line⟩
          '[' = none := by
        obtain ⟨c, tail, rfl⟩ := List.exists_cons_of_ne_nil hkey.1
        have hc : c ≠ '[' := by
          rintro rfl
          exact absurd (hkey.2 _ (List.mem_cons_self ..)) (by decide)
        exact if_neg hc
      rw [hshape, item, hopen]
      exact hread

/-! ## Ends of lines -/

theorem skipComment_sound (b : Bytes) :
    ∃ note, (note = [] ∨ IsComment note) ∧ b = note ++ skipComment b := by
  unfold skipComment
  split
  · exact ⟨[], Or.inl rfl, rfl⟩
  rename_i c rest
  by_cases hc : c = '#'
  · rw [if_pos hc]
    refine ⟨c :: rest.takeWhile (· ≠ '\n'.toUInt8), Or.inr ⟨_, by rw [hc], ?_⟩, ?_⟩
    · intro hmem
      simpa using List.all_eq_true.mp List.all_takeWhile _ hmem
    · rw [List.cons_append, List.takeWhile_append_dropWhile]
  · rw [if_neg hc]
    exact ⟨[], Or.inl rfl, rfl⟩

theorem skipComment_complete {note rest : Bytes} (h : note = [] ∨ IsComment note)
    (hrest : AtLineEnd rest) : skipComment (note ++ rest) = rest := by
  rcases h with rfl | ⟨body, rfl, hbody⟩
  · rw [List.nil_append]
    cases rest with
    | nil => rfl
    | cons c rest =>
        have hc : c ≠ '#' := by
          rintro rfl
          exact absurd (hrest.stops (p := (· = '#')) (by decide) _ rfl) (by decide)
        exact if_neg hc
  · show (body ++ rest).dropWhile (· ≠ '\n'.toUInt8) = rest
    refine dropWhile_run (fun c hc => ?_) (hrest.stops (by decide))
    exact decide_eq_true fun heq => hbody (heq ▸ hc)

theorem lineEnd_sound {c d : Cursor} (h : lineEnd c = (.ok (), d)) :
    ∃ text, IsLineEnd text ∧ c.rest = text ++ d.rest ∧ AtLineEnd d.rest := by
  unfold lineEnd at h
  dsimp only at h
  split at h
  · rename_i hend
    obtain rfl : _ = d := (Prod.mk.inj h).2
    obtain ⟨blanks, hblanks, hc⟩ := skipBlanks_sound c.rest
    obtain ⟨note, hnote, hskipped⟩ := skipComment_sound (skipBlanks c.rest)
    refine ⟨blanks ++ note, ⟨blanks, note, rfl, hblanks, hnote⟩, ?_, hend⟩
    rw [List.append_assoc, ← hskipped, ← hc]
  · cases h

theorem lineEnd_complete {text rest : Bytes} (h : IsLineEnd text) (hrest : AtLineEnd rest)
    (line : Nat) : lineEnd ⟨text ++ rest, line⟩ = (.ok (), ⟨rest, line⟩) := by
  obtain ⟨blanks, note, rfl, hblanks, hnote⟩ := h
  have hstops : Stops isBlank (note ++ rest) := by
    rcases hnote with rfl | ⟨body, rfl, -⟩
    · exact hrest.stops (by decide)
    · exact stops_cons (by decide) _
  rw [lineEnd, List.append_assoc, skipBlanks_complete hblanks hstops,
    skipComment_complete hnote hrest]
  exact if_pos hrest

end Prebuilt.Manifest
