import Prebuilt.Proofs.Manifest.Reading

/-!
# Line numbers

A scan counts the newlines that it passes, with one exception: a newline
that is escaped in a string is taken for part of the value. Which these
are can be told from the text alone, by the `Region` that each byte lies
in. `Scanned` says of two cursors that the scan from the one to the other
has counted all newlines but those. Scans that follow one another compose
(`Scanned.trans`), so each scanner is described in terms of the ones that
it is made of, up to the whole manifest.

What is reported has its line from the place where reading stopped, and a
warning has it from the end of the value that it is about
(`line_add_escapedNewlines`).
-/

namespace Prebuilt.Manifest

/-! ## Regions of a text -/

/-- What a byte of a manifest is part of. -/
inductive Region where
  | plain
  | comment
  | string
  /-- Behind a backslash in a string. -/
  | escape
deriving Repr, DecidableEq

namespace Region

/-- The region behind a byte. -/
def next : Region → UInt8 → Region
  | .plain, c => if c = '"' then .string else if c = '#' then .comment else .plain
  | .comment, c => if c = '\n' then .plain else .comment
  | .string, c => if c = '"' then .plain else if c = '\\' then .escape else .string
  | .escape, _ => .string

/-- The region behind a text. -/
def after (r : Region) (text : Bytes) : Region := text.foldl next r

/-- How many newlines of a text are escaped in a string. -/
def escapedNewlines : Region → Bytes → Nat
  | _, [] => 0
  | r, c :: rest =>
      (if r = .escape ∧ c = '\n' then 1 else 0) + (r.next c).escapedNewlines rest

theorem escapedNewlines_append (r : Region) (text more : Bytes) :
    r.escapedNewlines (text ++ more)
      = r.escapedNewlines text + (r.after text).escapedNewlines more := by
  induction text generalizing r with
  | nil => exact (Nat.zero_add _).symm
  | cons c text ih =>
      rw [List.cons_append, escapedNewlines, escapedNewlines, ih, Nat.add_assoc]
      rfl

end Region

/-! ## Scans -/

/-- The scan from one cursor to another counts the newlines between them
but for those that are escaped. -/
def Scanned (r : Region) (c : Cursor) (r' : Region) (d : Cursor) : Prop :=
  ∃ text, c.rest = text ++ d.rest ∧ r.after text = r' ∧
    d.line + r.escapedNewlines text = c.line + text.count '\n'.toUInt8

namespace Scanned

variable {r r' r'' : Region} {c d e : Cursor} {b : UInt8}

theorem refl (r : Region) (c : Cursor) : Scanned r c r c := ⟨[], rfl, rfl, rfl⟩

theorem trans (h : Scanned r c r' d) (h' : Scanned r' d r'' e) : Scanned r c r'' e := by
  obtain ⟨text, hc, rfl, hline⟩ := h
  obtain ⟨more, hd, rfl, hline'⟩ := h'
  refine ⟨text ++ more, ?_, List.foldl_append, ?_⟩
  · rw [hc, hd, List.append_assoc]
  · rw [Region.escapedNewlines_append, List.count_append]
    omega

/-- A byte that is not counted. -/
theorem byte (hnext : r.next b = r') (hb : r = .escape ∨ b ≠ '\n')
    (hrest : c.rest = b :: d.rest) (hline : d.line = c.line) : Scanned r c r' d := by
  refine ⟨[b], hrest, hnext, ?_⟩
  rw [hline, Region.escapedNewlines, Region.escapedNewlines, List.count_singleton]
  rcases hb with rfl | hb
  · simp
  · simp [hb]

/-- A newline that is counted. -/
theorem newline (hnext : r.next '\n' = r') (hr : r ≠ .escape)
    (hrest : c.rest = '\n'.toUInt8 :: d.rest) (hline : d.line = c.line + 1) :
    Scanned r c r' d := by
  refine ⟨['\n'.toUInt8], hrest, hnext, ?_⟩
  rw [hline, Region.escapedNewlines, Region.escapedNewlines, if_neg fun h => hr h.1]
  rfl

theorem take? (h : c.take? b = some d) (hnext : r.next b = r') (hb : b ≠ '\n') :
    Scanned r c r' d := by
  obtain ⟨hrest, hline⟩ := Cursor.take?_eq_some_iff.mp h
  exact byte hnext (.inr hb) hrest hline

/-- A run of bytes that stay in their region and on their line. -/
theorem run {p : UInt8 → Bool} (hp : ∀ b, p b = true → r.next b = r ∧ b ≠ '\n') (line : Nat)
    (text : Bytes) : Scanned r ⟨text, line⟩ r ⟨text.dropWhile p, line⟩ := by
  induction text with
  | nil => exact refl ..
  | cons b text ih =>
      by_cases hb : p b = true
      · rw [List.dropWhile_cons_of_pos hb]
        obtain ⟨hnext, hnewline⟩ := hp b hb
        have hstep : Scanned r ⟨b :: text, line⟩ r ⟨text, line⟩ :=
          byte hnext (.inr hnewline) rfl rfl
        exact hstep.trans ih
      · rw [List.dropWhile_cons_of_neg hb]
        exact refl ..

/-- Bytes that mean nothing special outside of strings and comments. -/
theorem plainRun {p : UInt8 → Bool} (hquote : p '"' = false) (hhash : p '#' = false)
    (hnewline : p '\n' = false) (line : Nat) (text : Bytes) :
    Scanned .plain ⟨text, line⟩ .plain ⟨text.dropWhile p, line⟩ := by
  have hne : ∀ {b b' : UInt8}, p b = true → p b' = false → b ≠ b' := by
    rintro b _ hb hb' rfl
    rw [hb] at hb'
    cases hb'
  refine run (fun b hb => ⟨?_, hne hb hnewline⟩) line text
  rw [Region.next, if_neg (hne hb hquote), if_neg (hne hb hhash)]

theorem skipBlanks (line : Nat) (text : Bytes) :
    Scanned .plain ⟨text, line⟩ .plain ⟨skipBlanks text, line⟩ :=
  plainRun (by decide) (by decide) (by decide) line text

theorem identifier (line : Nat) (text : Bytes) :
    Scanned .plain ⟨text, line⟩ .plain ⟨(identifier text).2, line⟩ :=
  plainRun (by decide) (by decide) (by decide) line text

end Scanned

/-- Outside of strings and comments, or nothing is left to be read. -/
def Ready (r : Region) (c : Cursor) : Prop := c.rest ≠ [] → r = .plain

theorem ready_plain (c : Cursor) : Ready .plain c := fun _ => rfl

theorem Ready.eq_plain {r : Region} {c : Cursor} (h : Ready r c) {b : UInt8} {rest : Bytes}
    (hrest : c.rest = b :: rest) : r = .plain := h (hrest ▸ List.cons_ne_nil b rest)

/-- A scanner counts the newlines that it passes, and ends outside of
strings and comments unless it fails. -/
def Counted {α : Type} (r : Region) (c : Cursor) (scan : Except Fault α × Cursor) : Prop :=
  ∃ r', Scanned r c r' scan.2 ∧ (scan.1.isOk = true → r' = .plain)

namespace Counted

variable {α : Type} {c d : Cursor} {r r' : Region} {scan : Except Fault α × Cursor}

theorem error (h : Scanned r c r' d) (fault : Fault) :
    Counted r c ((.error fault, d) : Except Fault α × Cursor) := ⟨r', h, nofun⟩

theorem ok (h : Scanned r c .plain d) (a : α) :
    Counted r c ((.ok a, d) : Except Fault α × Cursor) := ⟨.plain, h, fun _ => rfl⟩

theorem scanned {a : α} (h : Counted r c scan) (hok : scan = (.ok a, d)) :
    Scanned r c .plain d := by
  subst hok
  obtain ⟨r', hscan, hr'⟩ := h
  rwa [hr' rfl] at hscan

/-- A scanner fails as the one that it has called. -/
theorem of_error {β : Type} {fault : Fault} (h : Counted r c scan)
    (herror : scan = (.error fault, d)) :
    Counted r c ((.error fault, d) : Except Fault β × Cursor) := by
  subst herror
  obtain ⟨r', hscan, -⟩ := h
  exact .error hscan fault

/-- What was scanned before comes in front. -/
theorem after (h : Counted r' d scan) (hbefore : Scanned r c r' d) : Counted r c scan := by
  obtain ⟨r'', hscan, hr''⟩ := h
  exact ⟨r'', hbefore.trans hscan, hr''⟩

end Counted

/-! ## Space -/

/-- The region that skipping is in. -/
def skippedRegion (inComment : Bool) : Region := if inComment then .comment else .plain

/-- Space is skipped to a place outside of comments, or to the end of the
text. -/
theorem scanned_skipSpaceFrom (line : Nat) (inComment : Bool) (text : Bytes) :
    ∃ r, Scanned (skippedRegion inComment) ⟨text, line⟩ r (skipSpaceFrom line inComment text) ∧
      Ready r (skipSpaceFrom line inComment text) := by
  induction text generalizing line inComment with
  | nil => exact ⟨_, .refl .., fun h => absurd rfl h⟩
  | cons b text ih =>
      rw [skipSpaceFrom]
      by_cases hnewline : b = '\n'
      · rw [if_pos hnewline]
        obtain ⟨r, hscan, hr⟩ := ih (line + 1) false
        have hstep : Scanned (skippedRegion inComment) ⟨b :: text, line⟩ .plain
            ⟨text, line + 1⟩ := by
          subst hnewline
          cases inComment with
          | false => exact .newline rfl (by decide) rfl rfl
          | true => exact .newline rfl (by decide) rfl rfl
        exact ⟨r, hstep.trans hscan, hr⟩
      rw [if_neg hnewline]
      -- Any other byte is passed on its line, into the region it leads to.
      have hstep : ∀ inComment', (skippedRegion inComment).next b = skippedRegion inComment' →
          Scanned (skippedRegion inComment) ⟨b :: text, line⟩ (skippedRegion inComment')
            ⟨text, line⟩ := fun inComment' hnext => .byte hnext (.inr hnewline) rfl rfl
      cases inComment with
      | true =>
          rw [if_pos rfl]
          obtain ⟨r, hscan, hr⟩ := ih line true
          exact ⟨r, (hstep true (if_neg hnewline)).trans hscan, hr⟩
      | false =>
          rw [if_neg Bool.false_ne_true]
          by_cases hblank : isBlank b = true
          · rw [if_pos hblank]
            obtain ⟨r, hscan, hr⟩ := ih line false
            have hquote : b ≠ '"' := by
              rintro rfl
              exact absurd hblank (by decide)
            have hhash : b ≠ '#' := by
              rintro rfl
              exact absurd hblank (by decide)
            exact ⟨r, (hstep false ((if_neg hquote).trans (if_neg hhash))).trans hscan, hr⟩
          rw [if_neg hblank]
          by_cases hhash : b = '#'
          · rw [if_pos hhash]
            obtain ⟨r, hscan, hr⟩ := ih line true
            subst hhash
            exact ⟨r, (hstep true rfl).trans hscan, hr⟩
          · rw [if_neg hhash]
            exact ⟨.plain, .refl .., ready_plain _⟩

theorem scanned_skipSpace (c : Cursor) :
    ∃ r, Scanned .plain c r c.skipSpace ∧ Ready r c.skipSpace :=
  scanned_skipSpaceFrom c.line false c.rest

/-- Space up to a byte that is looked for. -/
theorem scanned_skipSpace_take? {c d : Cursor} {b : UInt8} (h : c.skipSpace.take? b = some d)
    (hnext : Region.plain.next b = .plain) (hb : b ≠ '\n') : Scanned .plain c .plain d := by
  obtain ⟨r, hscan, hr⟩ := scanned_skipSpace c
  rw [hr.eq_plain (Cursor.take?_eq_some_iff.mp h).1] at hscan
  exact hscan.trans (.take? h hnext hb)

/-! ## Strings and arrays -/

/-- The body of a string ends in it, or with the text. -/
theorem scanned_stringBody (line : Nat) (text : Bytes) :
    ∃ r, Scanned .string ⟨text, line⟩ r ⟨(stringBody text).2, line⟩ ∧
      ((stringBody text).2 ≠ [] → r = .string) := by
  have hslash : '\\'.toUInt8 ≠ '\n'.toUInt8 := by decide
  fun_induction stringBody text with
  | case1 => exact ⟨_, .refl .., fun _ => rfl⟩
  | case2 => exact ⟨_, .refl .., fun _ => rfl⟩
  | case3 => exact ⟨.escape, .byte rfl (.inr hslash) rfl rfl, fun h => absurd rfl h⟩
  | case4 e rest _ ih =>
      obtain ⟨r, hscan, hr⟩ := ih
      have hopen : Scanned .string ⟨'\\'.toUInt8 :: e :: rest, line⟩ .escape ⟨e :: rest, line⟩ :=
        .byte rfl (.inr hslash) rfl rfl
      have hescaped : Scanned .escape ⟨e :: rest, line⟩ .string ⟨rest, line⟩ :=
        .byte rfl (.inl rfl) rfl rfl
      exact ⟨r, hopen.trans (hescaped.trans hscan), hr⟩
  | case5 b rest hstop hplain ih =>
      obtain ⟨r, hscan, hr⟩ := ih
      obtain ⟨hquote, hnewline⟩ := not_or.mp hstop
      have hstep : Scanned .string ⟨b :: rest, line⟩ .string ⟨rest, line⟩ :=
        .byte ((if_neg hquote).trans (if_neg hplain)) (.inr hnewline) rfl rfl
      exact ⟨r, hstep.trans hscan, hr⟩

theorem counted_string (c : Cursor) : Counted .plain c (string c) := by
  unfold string
  split
  · exact .error (.refl ..) _
  rename_i opened hopen
  obtain ⟨r, hbody, hr⟩ := scanned_stringBody c.line opened.rest
  have hopened : Scanned .plain c .string ⟨opened.rest, c.line⟩ :=
    .byte rfl (.inr (by decide)) (Cursor.take?_eq_some_iff.mp hopen).1 rfl
  dsimp only
  split
  · exact .error (hopened.trans hbody) _
  rename_i closed hclose
  have hne : (stringBody opened.rest).2 ≠ [] := by
    intro hnil
    rw [hnil] at hclose
    cases hclose
  rw [hr hne] at hbody
  exact .ok ((hopened.trans hbody).trans (.take? hclose rfl (by decide))) _

theorem counted_arrayItems (c : Cursor) {r : Region} (hr : Ready r c) :
    Counted r c (arrayItems c) := by
  -- Only what comes behind a comma can be the end of the text within a
  -- comment; elsewhere there is a byte, so the region is plain.
  fun_induction arrayItems c generalizing r with
  | case1 => exact .error (.refl ..) _
  | case2 c rest hrest =>
      obtain rfl := hr.eq_plain hrest
      have hclose : Scanned .plain c .plain ⟨rest, c.line⟩ :=
        .byte (b := ']') rfl (.inr (by decide)) hrest rfl
      exact .ok hclose _
  | case3 c b rest hrest hb fault stopped hs =>
      obtain rfl := hr.eq_plain hrest
      exact (counted_string c).of_error hs
  | case4 c b rest hrest hb value c' hs after hcomma _ fault stopped hmore ih =>
      obtain rfl := hr.eq_plain hrest
      obtain ⟨r, hspace, hready⟩ := scanned_skipSpace after
      have hcomma' := ((counted_string c).scanned hs).trans
        (scanned_skipSpace_take? hcomma rfl (by decide))
      exact ((ih hready).of_error hmore).after (hcomma'.trans hspace)
  | case5 c b rest hrest hb value c' hs after hcomma _ more c'' hmore ih =>
      obtain rfl := hr.eq_plain hrest
      obtain ⟨r, hspace, hready⟩ := scanned_skipSpace after
      have hcomma' := ((counted_string c).scanned hs).trans
        (scanned_skipSpace_take? hcomma rfl (by decide))
      exact .ok ((hcomma'.trans hspace).trans ((ih hready).scanned hmore)) _
  | case6 c b rest hrest hb value c' hs hcomma hclose =>
      obtain rfl := hr.eq_plain hrest
      obtain ⟨r', hspace, -⟩ := scanned_skipSpace c'
      exact .error (((counted_string c).scanned hs).trans hspace) _
  | case7 c b rest hrest hb value c' hs hcomma after hclose =>
      obtain rfl := hr.eq_plain hrest
      exact .ok (((counted_string c).scanned hs).trans
        (scanned_skipSpace_take? hclose rfl (by decide))) _

theorem counted_array (c : Cursor) : Counted .plain c (array c) := by
  unfold array
  split
  · exact .error (.refl ..) _
  rename_i opened hopen
  obtain ⟨r, hspace, hready⟩ := scanned_skipSpace opened
  have hopened : Scanned .plain c .plain opened := .take? hopen rfl (by decide)
  exact (counted_arrayItems opened.skipSpace hready).after (hopened.trans hspace)

/-! ## Items and lines -/

theorem counted_value (sec key : Bytes) (c : Cursor) : Counted .plain c (value sec key c) := by
  unfold value
  split
  · split
    · rename_i fault d h
      exact (counted_array c).of_error h
    · rename_i values d h
      exact .ok ((counted_array c).scanned h) _
  · split
    · rename_i fault d h
      exact (counted_string c).of_error h
    · rename_i text d h
      exact .ok ((counted_string c).scanned h) _

theorem counted_header (c : Cursor) : Counted .plain c (header c) := by
  have hafter : Scanned .plain c .plain
      ⟨skipBlanks (identifier (skipBlanks c.rest)).2, c.line⟩ :=
    ((Scanned.skipBlanks c.line c.rest).trans (.identifier ..)).trans (.skipBlanks ..)
  unfold header
  dsimp only
  split
  · exact .error hafter _
  rename_i closed hclose
  split
  · exact .error hafter _
  · exact .ok (hafter.trans (.take? hclose rfl (by decide))) _

theorem counted_assignment (sec : Bytes) (c : Cursor) :
    Counted .plain c (assignment sec c) := by
  have hkey : Scanned .plain c .plain ⟨(identifier c.rest).2, c.line⟩ :=
    .identifier c.line c.rest
  have hafter : Scanned .plain c .plain ⟨skipBlanks (identifier c.rest).2, c.line⟩ :=
    hkey.trans (.skipBlanks ..)
  unfold assignment
  dsimp only
  split
  · exact .error (.refl ..) _
  split
  · exact .error hkey _
  split
  · exact .error hafter _
  rename_i equals hequals
  have hbefore : Scanned .plain c .plain ⟨skipBlanks equals.rest, equals.line⟩ :=
    (hafter.trans (.take? hequals rfl (by decide))).trans (.skipBlanks ..)
  split
  · rename_i fault d h
    exact ((counted_value ..).of_error h).after hbefore
  · rename_i v d h
    exact .ok (hbefore.trans ((counted_value ..).scanned h)) _

theorem counted_item (sec : Bytes) (c : Cursor) : Counted .plain c (item sec c) := by
  unfold item
  split
  · rename_i opened hopen
    exact (counted_header opened).after (.take? hopen rfl (by decide))
  · exact counted_assignment sec c

theorem scanned_skipComment (line : Nat) (text : Bytes) :
    ∃ inComment, Scanned .plain ⟨text, line⟩ (skippedRegion inComment)
      ⟨skipComment text, line⟩ := by
  cases text with
  | nil => exact ⟨false, .refl ..⟩
  | cons b text =>
      rw [skipComment]
      by_cases hhash : b = '#'
      · subst hhash
        rw [if_pos rfl]
        have hopen : Scanned .plain ⟨'#'.toUInt8 :: text, line⟩ .comment ⟨text, line⟩ :=
          .byte rfl (.inr (by decide)) rfl rfl
        have hstays : ∀ b : UInt8, decide (b ≠ '\n'.toUInt8) = true →
            Region.comment.next b = .comment ∧ b ≠ '\n' := fun b hb =>
          ⟨if_neg (of_decide_eq_true hb), of_decide_eq_true hb⟩
        exact ⟨true, hopen.trans (.run hstays line text)⟩
      · rw [if_neg hhash]
        exact ⟨false, .refl ..⟩

/-- What stands behind an item on its line. -/
theorem scanned_lineEnd (c : Cursor) :
    ∃ inComment, Scanned .plain c (skippedRegion inComment) (lineEnd c).2 := by
  obtain ⟨inComment, hcomment⟩ := scanned_skipComment c.line (skipBlanks c.rest)
  have hstop : (lineEnd c).2 = ⟨skipComment (skipBlanks c.rest), c.line⟩ := by
    unfold lineEnd
    dsimp only
    split <;> rfl
  rw [hstop]
  exact ⟨inComment, (Scanned.skipBlanks c.line c.rest).trans hcomment⟩

/-- At the end of its line a comment is over: skipping starts there as if
there were none. -/
theorem skipSpace_eq_of_atLineEnd {c : Cursor} (h : AtLineEnd c.rest) (inComment : Bool) :
    c.skipSpace = skipSpaceFrom c.line inComment c.rest := by
  rw [Cursor.skipSpace]
  rcases h with hnil | hhead
  · rw [hnil]
    cases inComment <;> rfl
  · obtain ⟨text, htext⟩ := List.head?_eq_some_iff.mp hhead
    rw [htext]
    cases inComment <;> rfl

/-- The end of a line, and the space up to the next item. -/
theorem scanned_nextLine {c d : Cursor} (h : lineEnd c = (.ok (), d)) :
    ∃ r, Scanned .plain c r d.skipSpace ∧ Ready r d.skipSpace := by
  obtain ⟨-, -, -, hend⟩ := lineEnd_sound h
  obtain ⟨inComment, hline⟩ := scanned_lineEnd c
  rw [h] at hline
  obtain ⟨r', hspace, hready⟩ := scanned_skipSpaceFrom d.line inComment d.rest
  rw [← skipSpace_eq_of_atLineEnd hend] at hspace hready
  exact ⟨r', hline.trans hspace, hready⟩

/-! ## Whole manifests -/

/-- Wherever reading stops, the newlines up to there are counted. -/
theorem scanned_items (sec : Bytes) (c : Cursor) :
    ∀ r, Ready r c → ∃ r', Scanned r c r' (items sec c).stopped := by
  fun_induction items sec c with
  | case1 => exact fun r _ => ⟨r, .refl ..⟩
  | case2 sec c hne fault stopped h =>
      intro r hr
      obtain rfl := hr hne
      obtain ⟨r', hscan, -⟩ := h ▸ counted_item sec c
      exact ⟨r', hscan⟩
  | case3 sec c hne i c' h fault stopped hend =>
      intro r hr
      obtain rfl := hr hne
      obtain ⟨inComment, hline⟩ := hend ▸ scanned_lineEnd c'
      exact ⟨_, ((counted_item sec c).scanned h).trans hline⟩
  | case4 sec c hne i c' h c'' hend _ more ih =>
      intro r hr
      obtain rfl := hr hne
      obtain ⟨r₁, hnext, hready⟩ := scanned_nextLine hend
      obtain ⟨r', hmore⟩ := ih r₁ hready
      exact ⟨r', (((counted_item sec c).scanned h).trans hnext).trans hmore⟩

/-! ## Places of assignments -/

/-- Every assignment with the text behind its value, read as `items`
reads. -/
def located (sec : Bytes) (c : Cursor) : List (Assignment × Bytes) :=
  if c.rest = [] then []
  else
    match h : item sec c with
    | (.error _, _) => []
    | (.ok i, c') =>
        match hend : lineEnd c' with
        | (.error _, _) => i.assignments.map (·, c'.rest)
        | (.ok (), c'') =>
            have := length_after_item h hend
            i.assignments.map (·, c'.rest) ++ located (i.sectionAfter sec) c''.skipSpace
termination_by c.rest.length

theorem map_fst_located (sec : Bytes) (c : Cursor) :
    (located sec c).map Prod.fst = (items sec c).assignments := by
  have hfst : ∀ (i : Item) (rest : Bytes),
      (i.assignments.map (·, rest)).map Prod.fst = i.assignments := by
    intro i rest
    rw [List.map_map]
    exact List.map_id _
  fun_induction located sec c with
  | case1 sec c hnil => rw [items, if_pos hnil, List.map_nil]
  | case2 sec c hne fault stopped h => rw [items_of_error hne h, List.map_nil]
  | case3 sec c hne i c' h fault stopped hend => rw [items_of_trailing h hend, hfst]
  | case4 sec c hne i c' h c'' hend _ ih =>
      rw [items_round h hend, List.map_append, hfst, ih]

theorem rest_ne_nil_of_mem_located {sec : Bytes} {c : Cursor} {p : Assignment × Bytes}
    (hp : p ∈ located sec c) : c.rest ≠ [] := by
  intro hnil
  rw [located, if_pos hnil] at hp
  cases hp

/-- The value of the assignment stands in front of the text that is left,
and the line of the assignment counts the newlines up to there. -/
structure EndsBefore (c : Cursor) (a : Assignment) (rest : Bytes) : Prop where
  value : ∃ front text, c.rest = front ++ text ++ rest ∧
    ValueText a.sectionName a.key text a.value
  line : Scanned .plain c .plain ⟨rest, a.line⟩

theorem EndsBefore.after {c d : Cursor} {a : Assignment} {rest : Bytes}
    (h : EndsBefore d a rest) (hscan : Scanned .plain c .plain d) : EndsBefore c a rest := by
  obtain ⟨front, text, hd, htext⟩ := h.value
  obtain ⟨before, hc, -⟩ := id hscan
  refine ⟨⟨before ++ front, text, ?_, htext⟩, hscan.trans h.line⟩
  rw [hc, hd, List.append_assoc, List.append_assoc, List.append_assoc]

/-- An item that sets something ends with the value. -/
theorem ItemText.value {sec text next : Bytes} {settings : List Setting}
    (h : ItemText sec text next settings) {s : Setting} (hs : s ∈ settings) :
    ∃ front value, text = front ++ value ∧ ValueText s.sectionName s.key value s.value := by
  cases h with
  | header => cases hs
  | @assignment key before after value v hsec hkey hbefore hafter hvalue =>
      obtain rfl := List.mem_singleton.mp hs
      exact ⟨key ++ before ++ '='.toUInt8 :: after, value, rfl, hvalue⟩

theorem line_of_item {sec : Bytes} {c c' : Cursor} {a : Assignment}
    (h : item sec c = (.ok (.assignment a), c')) : a.line = c'.line := by
  unfold item at h
  split at h
  · unfold header at h
    dsimp only at h
    split at h
    · cases h
    split at h <;> cases h
  · unfold assignment at h
    dsimp only at h
    split at h
    · cases h
    split at h
    · cases h
    split at h
    · cases h
    split at h
    · cases h
    · obtain ⟨rfl, rfl⟩ : _ = a ∧ _ = c' := by simpa using h
      rfl

theorem endsBefore_of_item {sec : Bytes} {c c' : Cursor} {i : Item}
    (h : item sec c = (.ok i, c')) {a : Assignment} (ha : a ∈ i.assignments) :
    EndsBefore c a c'.rest := by
  obtain ⟨text, htext, hc⟩ := item_sound h
  obtain ⟨front, value, rfl, hvalue⟩ := htext.value (List.mem_map_of_mem ha)
  have hline : a.line = c'.line := by
    cases i with
    | header => cases ha
    | assignment b =>
        obtain rfl := List.mem_singleton.mp ha
        exact line_of_item h
  refine ⟨⟨front, value, hc, hvalue⟩, ?_⟩
  rw [hline]
  exact (counted_item sec c).scanned h

theorem endsBefore_of_located (sec : Bytes) (c : Cursor) :
    ∀ p ∈ located sec c, EndsBefore c p.1 p.2 := by
  have hitem : ∀ {sec : Bytes} {c c' : Cursor} {i : Item}, item sec c = (.ok i, c') →
      ∀ p ∈ i.assignments.map (·, c'.rest), EndsBefore c p.1 p.2 := by
    intro sec c c' i h p hp
    obtain ⟨a, ha, rfl⟩ := List.mem_map.mp hp
    exact endsBefore_of_item h ha
  fun_induction located sec c with
  | case1 => exact List.forall_mem_nil _
  | case2 => exact List.forall_mem_nil _
  | case3 sec c hne i c' h fault stopped hend => exact hitem h
  | case4 sec c hne i c' h c'' hend _ ih =>
      refine List.forall_mem_append.mpr ⟨hitem h, fun p hp => ?_⟩
      obtain ⟨r, hnext, hready⟩ := scanned_nextLine hend
      obtain rfl := hready (rest_ne_nil_of_mem_located hp)
      exact (ih p hp).after (((counted_item sec c).scanned h).trans hnext)

/-! ## Reports and warnings -/

/-- The assignments of a text, each with the text behind its value. -/
def locate (text : Bytes) : List (Assignment × Bytes) :=
  located [] (Cursor.skipSpace ⟨text, 1⟩)

/-- What a scan from the first line of a text on says of the line that it
has come to. -/
theorem Scanned.line_add {r : Region} {text before : Bytes} {d : Cursor}
    (h : Scanned .plain ⟨text, 1⟩ r d) (htext : text = before ++ d.rest) :
    d.line + Region.plain.escapedNewlines before = 1 + before.count '\n'.toUInt8 := by
  obtain ⟨scanned, hscanned, -, hline⟩ := h
  obtain rfl : before = scanned := List.append_cancel_right (htext.symm.trans hscanned)
  exact hline

theorem warnings_eq (text : Bytes) (base : Config) :
    (read text base).warnings =
      ((locate text).filter fun p => !p.1.setting.isKnown).map fun p => p.1.warning := by
  show (List.foldl Draft.apply _ (items [] (Cursor.skipSpace ⟨text, 1⟩)).assignments).warnings = _
  rw [Draft.foldl_apply, ← map_fst_located, List.filter_map, List.map_map, List.map_map]
  rfl

/-- A report names the line on which reading stopped, and a warning names
that on which its value ends, counted without the newlines that are
escaped in strings. -/
theorem line_add_escapedNewlines (text : Bytes) (base : Config) :
    ((read text base).config = none → ∃ before line fault,
      text = before ++ (read text base).reader.cursor.rest ∧
      (read text base).reader.report
        = "Line " ++ Bytes.ofNat line ++ ": " ++ Fault.message fault ∧
      line + Region.plain.escapedNewlines before = 1 + before.count '\n'.toUInt8) ∧
    (read text base).warnings
      = ((locate text).filter fun p => !p.1.setting.isKnown).map (fun p => p.1.warning) ∧
    ∀ p ∈ locate text, ∃ front value, text = front ++ value ++ p.2 ∧
      ValueText p.1.sectionName p.1.key value p.1.value ∧
      p.1.line + Region.plain.escapedNewlines (front ++ value)
        = 1 + (front ++ value).count '\n'.toUInt8 := by
  obtain ⟨r, hspace, hready⟩ := scanned_skipSpace ⟨text, 1⟩
  refine ⟨fun hnone => ?_, warnings_eq text base, fun p hp => ?_⟩
  · cases hfault : (items [] (Cursor.skipSpace ⟨text, 1⟩)).fault with
    | none =>
        rw [read_config, hfault] at hnone
        cases hnone
    | some fault =>
        obtain ⟨r', hitems⟩ := scanned_items [] _ r hready
        have hscan := hspace.trans hitems
        obtain ⟨before, htext, -⟩ := id hscan
        have hreader : (read text base).reader.fault
            = some ((items [] (Cursor.skipSpace ⟨text, 1⟩)).stopped.line, fault) := by
          show none.or (Option.map _ (items [] (Cursor.skipSpace ⟨text, 1⟩)).fault) = _
          rw [hfault]
          rfl
        refine ⟨before, _, fault, htext, ?_, hscan.line_add htext⟩
        rw [Reader.report, hreader]
  · obtain rfl := hready (rest_ne_nil_of_mem_located hp)
    obtain ⟨⟨front, value, htext, hvalue⟩, hline⟩ :=
      (endsBefore_of_located [] _ p hp).after hspace
    exact ⟨front, value, htext, hvalue, hline.line_add htext⟩

/-- A manifest with a newline escaped in a string, and a line that is no
item. -/
def brokenString : Bytes := "[blob]\nname = \"a\\\nb\"\n!\n"

theorem line_add_escapedNewlines_brokenString :
    (read brokenString {}).config = none ∧
    (∃ before line fault, brokenString = before ++ (read brokenString {}).reader.cursor.rest ∧
      (read brokenString {}).reader.report
        = "Line " ++ Bytes.ofNat line ++ ": " ++ Fault.message fault ∧
      line + Region.plain.escapedNewlines before = 1 + before.count '\n'.toUInt8) ∧
    ∃ front value, brokenString = front ++ value ++ "\n!\n" ∧
      ValueText "blob" "name" value (.text "a\nb") ∧
      2 + Region.plain.escapedNewlines (front ++ value)
        = 1 + (front ++ value).count '\n'.toUInt8 := by
  have hnone : (read brokenString {}).config = none := by decide +kernel
  have hname : ((⟨"blob", "name", .text "a\nb", 2⟩, "\n!\n") : Assignment × Bytes)
      ∈ locate brokenString := by
    decide +kernel
  obtain ⟨hreport, -, hlocated⟩ := line_add_escapedNewlines brokenString {}
  exact ⟨hnone, hreport hnone, hlocated _ hname⟩

/-- Three newlines come before the line that is reported as the third. -/
theorem report_brokenString :
    (read brokenString {}).config = none ∧
    (read brokenString {}).reader.report = "Line 3: Expected key" ∧
    ∃ before, brokenString = before ++ (read brokenString {}).reader.cursor.rest ∧
      1 + before.count '\n'.toUInt8 = 4 := by
  refine ⟨by decide +kernel, by decide +kernel, "[blob]\nname = \"a\\\nb\"\n", ?_, ?_⟩
  · decide +kernel
  · decide

end Prebuilt.Manifest
