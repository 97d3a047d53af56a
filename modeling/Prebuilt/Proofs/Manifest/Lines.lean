import Prebuilt.Proofs.Manifest.Scan

/-!
# Items and lines

The item loop knows nothing of lines: it skips space, reads an item, and
sees to it that the line ends there. The grammar knows lines only. Here
the two are brought together, line by line: one line of the grammar is
what the loop takes in one round, with the empty lines before it
(`reads_line`), and a round of the loop leaves a text that may follow a
line (`lines_of_round`). Both directions then go through the whole text,
the one by induction on its lines, the other along the loop
(`reads_iff`).
-/

namespace Prebuilt.Manifest

/-! ## Blanks, empty lines and the ends of lines -/

theorem isBlanks_nil : IsBlanks [] := nofun

theorem isBlanks_append {a b : Bytes} (ha : IsBlanks a) (hb : IsBlanks b) : IsBlanks (a ++ b) :=
  fun c hc => (List.mem_append.mp hc).elim (ha c) (hb c)

theorem IsBlanks.isSpace {blanks : Bytes} (h : IsBlanks blanks) : IsSpace blanks := by
  induction blanks with
  | nil => exact .nil
  | cons c blanks ih =>
      exact .blank (h c (List.mem_cons_self ..)) (ih fun d hd => h d (List.mem_cons_of_mem _ hd))

theorem isLineEnd_nil : IsLineEnd [] := ⟨[], [], rfl, nofun, Or.inl rfl⟩

theorem IsBlanks.isLineEnd {blanks : Bytes} (h : IsBlanks blanks) : IsLineEnd blanks :=
  ⟨blanks, [], (List.append_nil _).symm, h, Or.inl rfl⟩

theorem IsLineEnd.indent {blanks text : Bytes} (hblanks : IsBlanks blanks) (h : IsLineEnd text) :
    IsLineEnd (blanks ++ text) := by
  obtain ⟨more, note, rfl, hmore, hnote⟩ := h
  exact ⟨blanks ++ more, note, (List.append_assoc ..).symm, isBlanks_append hblanks hmore, hnote⟩

theorem LineText.indent {sec blanks text next : Bytes} {settings : List Setting}
    (hblanks : IsBlanks blanks) (h : LineText sec text next settings) :
    LineText sec (blanks ++ text) next settings := by
  cases h with
  | empty h => exact .empty (h.indent hblanks)
  | item hbefore h hafter =>
      rw [← List.append_assoc, ← List.append_assoc]
      exact .item (isBlanks_append hblanks hbefore) h hafter

theorem LinesText.indent {sec blanks text : Bytes} {settings : List Setting}
    (hblanks : IsBlanks blanks) (h : LinesText sec text settings) :
    LinesText sec (blanks ++ text) settings := by
  cases h with
  | last h => exact .last (h.indent hblanks)
  | line h hrest =>
      rw [← List.append_assoc]
      exact .line (h.indent hblanks) hrest

/-- Without a text there are no settings. -/
theorem LinesText.eq_nil {sec : Bytes} {settings : List Setting}
    (h : LinesText sec [] settings) : settings = [] := by
  generalize htext : ([] : Bytes) = text at h
  cases h with
  | last h =>
      cases h with
      | empty => rfl
      | item _ h =>
          obtain ⟨c, rest, -, rfl⟩ := h.opening
          exact absurd htext.symm (by simp)
  | line => exact absurd htext.symm (by simp)

/-- The end of a line is skipped, and the next line reached. -/
theorem skipSpaceFrom_lineEnd {text rest : Bytes} (h : IsLineEnd text) (hrest : AtLineEnd rest)
    (line : Nat) : skipSpaceFrom line false (text ++ rest) = skipSpaceFrom line false rest := by
  obtain ⟨blanks, note, rfl, hblanks, hnote⟩ := h
  induction blanks with
  | nil =>
      rcases hnote with rfl | ⟨body, rfl, hbody⟩
      · rfl
      · exact skipSpaceFrom_note hbody hrest line
  | cons c blanks ih =>
      rw [List.cons_append, List.cons_append,
        skipSpaceFrom_blank (isBlank_iff.mpr (hblanks c (List.mem_cons_self ..)))]
      exact ih fun d hd => hblanks d (List.mem_cons_of_mem _ hd)

/-- The beginning of a line up to where it is being skipped. -/
def IsLead : (inComment : Bool) → Bytes → Prop
  | false, lead => IsBlanks lead
  | true, lead => ∃ blanks note, IsBlanks blanks ∧ IsComment note ∧ lead = blanks ++ note

theorem IsLead.isLineEnd {inComment : Bool} {lead : Bytes} (h : IsLead inComment lead) :
    IsLineEnd lead := by
  cases inComment with
  | false => exact IsBlanks.isLineEnd h
  | true =>
      obtain ⟨blanks, note, hblanks, hnote, rfl⟩ := h
      exact ⟨blanks, note, rfl, hblanks, Or.inr hnote⟩

/-- What is skipped before lines are empty lines and blanks. -/
theorem lines_of_skipSpaceFrom {sec b : Bytes} {settings : List Setting} {line : Nat}
    {inComment : Bool} (h : LinesText sec (skipSpaceFrom line inComment b).rest settings)
    {lead : Bytes} (hlead : IsLead inComment lead) : LinesText sec (lead ++ b) settings := by
  -- What was skipped of the line so far is kept in `lead`, which starts
  -- again as nothing behind each line end.
  induction b generalizing line inComment lead with
  | nil =>
      obtain rfl := LinesText.eq_nil h
      rw [List.append_nil]
      exact .last (.empty hlead.isLineEnd)
  | cons c b ih =>
      have hstep : lead ++ c :: b = (lead ++ [c]) ++ b := by
        rw [List.append_assoc, List.singleton_append]
      rw [skipSpaceFrom] at h
      by_cases hnewline : c = '\n'
      · rw [if_pos hnewline] at h
        have hrest : LinesText sec b settings := ih h (show IsLead false [] from isBlanks_nil)
        rw [hnewline]
        exact .line (.empty hlead.isLineEnd) hrest
      rw [if_neg hnewline] at h
      cases inComment with
      | true =>
          rw [if_pos rfl] at h
          obtain ⟨blanks, _, hblanks, ⟨body, rfl, hbody⟩, rfl⟩ := hlead
          rw [hstep]
          refine ih h ⟨blanks, _, hblanks, ⟨body ++ [c], rfl, ?_⟩, ?_⟩
          · rw [List.mem_append, List.mem_singleton, not_or]
            exact ⟨hbody, Ne.symm hnewline⟩
          · rw [List.append_assoc, List.cons_append]
      | false =>
          rw [if_neg Bool.false_ne_true] at h
          by_cases hblank : isBlank c = true
          · rw [if_pos hblank] at h
            rw [hstep]
            refine ih h (isBlanks_append hlead fun d hd => ?_)
            rw [List.mem_singleton.mp hd]
            exact isBlank_iff.mp hblank
          rw [if_neg hblank] at h
          by_cases hhash : c = '#'
          · rw [if_pos hhash] at h
            rw [hstep]
            exact ih h ⟨lead, _, hlead, ⟨[], by rw [hhash], List.not_mem_nil⟩, rfl⟩
          · rw [if_neg hhash] at h
            exact h.indent hlead

theorem lines_of_skipSpace {sec : Bytes} {settings : List Setting} {c : Cursor}
    (h : LinesText sec c.skipSpace.rest settings) : LinesText sec c.rest settings :=
  lines_of_skipSpaceFrom h (show IsLead false [] from isBlanks_nil)

/-! ## Rounds of the item loop -/

/-- The loop comes to the end of the text and has found these settings. -/
def Reads (sec : Bytes) (c : Cursor) (settings : List Setting) : Prop :=
  (items sec c).fault = none ∧ (items sec c).assignments.map Assignment.setting = settings

theorem reads_nil (sec : Bytes) (line : Nat) : Reads sec ⟨[], line⟩ [] := by
  rw [Reads, items]
  exact ⟨rfl, rfl⟩

theorem rest_ne_nil_of_item {sec : Bytes} {c c' : Cursor} {i : Item}
    (h : item sec c = (.ok i, c')) : c.rest ≠ [] := by
  intro hnil
  have := item_length_lt h
  rw [hnil] at this
  exact Nat.not_lt_zero _ this

theorem items_of_error {sec : Bytes} {c stopped : Cursor} {fault : Fault} (hne : c.rest ≠ [])
    (h : item sec c = (.error fault, stopped)) : items sec c = ⟨[], some fault, stopped⟩ := by
  rw [items, if_neg hne]
  split
  · rename_i hi
    rw [h] at hi
    obtain ⟨hfault, rfl⟩ := Prod.mk.inj hi
    rw [Except.error.inj hfault]
  · rename_i hi
    rw [h] at hi
    cases hi

theorem items_of_trailing {sec : Bytes} {c c' stopped : Cursor} {i : Item} {fault : Fault}
    (h : item sec c = (.ok i, c')) (hend : lineEnd c' = (.error fault, stopped)) :
    items sec c = ⟨i.assignments, some fault, stopped⟩ := by
  rw [items, if_neg (rest_ne_nil_of_item h)]
  split
  · rename_i hi
    rw [h] at hi
    cases hi
  rename_i j d hi
  rw [h] at hi
  obtain ⟨rfl, rfl⟩ : i = j ∧ c' = d := by simpa using hi
  split
  · rename_i he
    rw [hend] at he
    obtain ⟨hfault, rfl⟩ := Prod.mk.inj he
    rw [Except.error.inj hfault]
  · rename_i he
    rw [hend] at he
    cases he

/-- One round: an item, the end of its line, and the rest. -/
theorem items_round {sec : Bytes} {c c' c'' : Cursor} {i : Item}
    (h : item sec c = (.ok i, c')) (hend : lineEnd c' = (.ok (), c'')) :
    items sec c = { items (i.sectionAfter sec) c''.skipSpace with
      assignments := i.assignments ++ (items (i.sectionAfter sec) c''.skipSpace).assignments } := by
  rw [items, if_neg (rest_ne_nil_of_item h)]
  split
  · rename_i hi
    rw [h] at hi
    cases hi
  rename_i j d hi
  rw [h] at hi
  obtain ⟨rfl, rfl⟩ : i = j ∧ c' = d := by simpa using hi
  split
  · rename_i he
    rw [hend] at he
    cases he
  rename_i e he
  rw [hend] at he
  obtain rfl : c'' = e := by simpa using he
  rfl

/-- A line is read in one round, after the lines skipped before it. -/
theorem reads_line {sec text next rest : Bytes} {settings more : List Setting}
    (h : LineText sec text next settings) (hrest : AtLineEnd rest)
    (hmore : ∀ line, Reads next (Cursor.skipSpace ⟨rest, line⟩) more) (line : Nat) :
    Reads sec (Cursor.skipSpace ⟨text ++ rest, line⟩) (settings ++ more) := by
  cases h with
  | empty hend =>
      have hskip : Cursor.skipSpace ⟨text ++ rest, line⟩ = Cursor.skipSpace ⟨rest, line⟩ :=
        skipSpaceFrom_lineEnd hend hrest line
      rw [hskip]
      exact hmore line
  | @item before text after _ _ hbefore hitem hafter =>
      obtain ⟨i, line₂, hread, rfl, rfl⟩ : ∃ i line₂,
          item sec (Cursor.skipSpace ⟨before ++ text ++ after ++ rest, line⟩)
            = (.ok i, ⟨after ++ rest, line₂⟩) ∧
          i.sectionAfter sec = next ∧ i.assignments.map Assignment.setting = settings := by
        -- The item's first byte stops the skipping, so the item is read
        -- from its own beginning.
        obtain ⟨c, tail, hc, htext⟩ := hitem.opening
        obtain ⟨line₁, hskip⟩ := skipSpace_complete hbefore.isSpace hc line
          (tail ++ (after ++ rest))
        obtain ⟨i, line₂, hread, hnext, hset⟩ := item_complete hitem line₁ (after ++ rest)
        refine ⟨i, line₂, ?_, hnext, hset⟩
        rw [← hread, htext]
        simp only [List.append_assoc, List.cons_append] at hskip ⊢
        rw [hskip]
      have hend := lineEnd_complete hafter hrest line₂
      obtain ⟨hfault, hsettings⟩ := hmore line₂
      rw [Reads, items_round hread hend]
      refine ⟨hfault, ?_⟩
      rw [List.map_append]
      exact congrArg _ hsettings

/-- Lines are read to their end. -/
theorem reads_of_lines {sec text : Bytes} {settings : List Setting}
    (h : LinesText sec text settings) (line : Nat) :
    Reads sec (Cursor.skipSpace ⟨text, line⟩) settings := by
  induction h generalizing line with
  | @last sec text next settings h =>
      have hread := reads_line h (Or.inl rfl) (reads_nil next) line
      rwa [List.append_nil, List.append_nil] at hread
  | line h _ ih => exact reads_line h (Or.inr rfl) (fun line => ih (line + 1)) line

/-- A line whose item was read, and the lines that the loop goes on with. -/
theorem lines_of_round {sec text next : Bytes} {settings more : List Setting} {c : Cursor}
    (h : LineText sec text next settings) (hend : AtLineEnd c.rest)
    (hmore : LinesText next c.skipSpace.rest more) :
    LinesText sec (text ++ c.rest) (settings ++ more) := by
  obtain ⟨rest, line⟩ := c
  cases rest with
  | nil =>
      obtain rfl : more = [] := LinesText.eq_nil hmore
      rw [List.append_nil, List.append_nil]
      exact .last h
  | cons c rest =>
      obtain rfl : c = '\n'.toUInt8 := hend.elim nofun Option.some.inj
      have hrest : LinesText next (Cursor.skipSpace ⟨rest, line + 1⟩).rest more := hmore
      exact .line h (lines_of_skipSpace hrest)

/-- What the loop has read to the end are lines. -/
theorem lines_of_items {sec : Bytes} {c : Cursor} (h : (items sec c).fault = none) :
    LinesText sec c.rest ((items sec c).assignments.map Assignment.setting) := by
  fun_induction items sec c with
  | case1 sec c hnil =>
      rw [hnil]
      exact .last (.empty isLineEnd_nil)
  | case2 => cases h
  | case3 => cases h
  | case4 sec c hne i c' hi c'' hend _ more ih =>
      obtain ⟨text, htext, hc⟩ := item_sound hi
      obtain ⟨after, hafter, hc', hrest⟩ := lineEnd_sound hend
      have hline : LineText sec (text ++ after) _ _ :=
        .item isBlanks_nil htext hafter
      rw [hc, hc', ← List.append_assoc, List.map_append]
      exact lines_of_round hline hrest (ih h)

/-- The item loop takes the lines of the grammar, and nothing else. -/
theorem reads_iff {sec text : Bytes} {settings : List Setting} {line : Nat} :
    Reads sec (Cursor.skipSpace ⟨text, line⟩) settings ↔ LinesText sec text settings := by
  constructor
  · rintro ⟨hfault, rfl⟩
    exact lines_of_skipSpace (lines_of_items hfault)
  · exact fun h => reads_of_lines h line

end Prebuilt.Manifest
